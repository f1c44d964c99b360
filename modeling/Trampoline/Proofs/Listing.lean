import Trampoline.Convention.Description
import Trampoline.Proofs.Text

/-!
# The texts that list registers

A list of registers has many texts: a run of registers may be written as a range or one by one,
blanks may stand around every name and every end of a range, and there may be commas with nothing
between them.  `Register.Lists` is the relation between a text and the list that it stands for, and
knows nothing of how a text is read.  It leaves open what a single register looks like: it may be
shown as it is written (`Shows`), or be anything that names it (`Names`).

* `Register.range?_eq_some_iff` — a range stands for the registers from the one end to the other.
* `Register.readListing_append` — a comma between two texts is read as putting their lists together.
* `Register.readListing_eq_ok_iff` — the texts that can be read are those that list registers by
  their names.
* `Convention.reads_listings` — what follows for the value in a numbered line.
-/

set_option autoImplicit false

namespace Trampoline

namespace Register

variable {text front back : List Char} {r first last : Register} {rs : List Register} {c : Char}

/-! ## One register -/

/-- The text names the register. -/
def Names (text : List Char) (r : Register) : Prop := ofChars? text = some r

/-- The text is the register as it is written, with blanks around it. -/
def Shows (text : List Char) (r : Register) : Prop :=
  ∃ front back, text = front ++ r.chars ++ back ∧ ∀ c ∈ front ++ back, Text.isBlank c = true

theorem read_eq_ok_iff : read text = .ok r ↔ Names text r := by
  unfold read Names
  cases ofChars? text <;> simp

theorem isBlank_of_mem_chars (h : c ∈ r.chars) : Text.isBlank c = false := by
  rcases List.mem_cons.1 h with rfl | h
  · cases r.bank <;> decide
  · exact Text.isBlank_of_mem_toDigits h

theorem chars_ne_nil (r : Register) : r.chars ≠ [] := List.cons_ne_nil _ _

theorem trim_chars (r : Register) : Text.trim r.chars = r.chars :=
  Text.trim_of_forall fun _ => isBlank_of_mem_chars

/-- What is written names the register. -/
theorem names_chars (r : Register) : Names r.chars r := by
  unfold Names ofChars?
  rw [trim_chars, chars]
  simp only [Text.readNumeral_toDigits r.index.isLt, Bank.ofLetter?_letter]
  simp

/-- Only what is left after trimming matters. -/
theorem names_congr {text' : List Char} (h : Text.trim text = Text.trim text') :
    Names text r ↔ Names text' r := by
  rw [Names, Names, ofChars?, ofChars?, h]

theorem names_blanks (h : ∀ c ∈ front ++ back, Text.isBlank c = true) :
    Names (front ++ text ++ back) r ↔ Names text r :=
  names_congr (Text.trim_blanks h)

theorem Shows.names (h : Shows text r) : Names text r := by
  obtain ⟨front, back, rfl, hblank⟩ := h
  exact (names_blanks hblank).2 (names_chars r)

theorem Names.trim_ne_nil (h : Names text r) : Text.trim text ≠ [] := by
  intro hnil
  rw [Names, ofChars?, hnil] at h
  cases h

/-- There is no comma in a name and no dash. -/
theorem Names.ne_of_mem (h : Names text r) (hc : c ∈ text) : c ≠ ',' ∧ c ≠ '-' := by
  obtain ⟨front, back, htext, hblank⟩ := Text.eq_append_trim text
  have hparts : c ∈ front ++ back ∨ c ∈ Text.trim text := by
    rw [htext] at hc
    simp only [List.mem_append] at hc ⊢
    tauto
  rcases hparts with hc | hc
  · refine ⟨?_, ?_⟩ <;> rintro rfl <;> exact absurd (hblank _ hc) (by decide)
  · unfold Names ofChars? at h
    split at h
    · cases h
    · rename_i letter digits htrim
      rw [htrim] at hc
      split at h
      · rename_i hread hbank
        rcases List.mem_cons.1 hc with rfl | hc
        · refine ⟨?_, ?_⟩ <;> rintro rfl <;> cases hbank
        · have hdigit := Text.mem_of_readNumeral hread hc
          refine ⟨?_, ?_⟩ <;> rintro rfl <;> exact absurd hdigit (by decide)
      · cases h

/-! ## Ranges -/

/-- The registers from one to another: all of one bank, each with the next index. -/
structure Run (first last : Register) (rs : List Register) : Prop where
  head : rs.head? = some first
  last : rs.getLast? = some last
  next : rs.IsChain fun r s => s.bank = r.bank ∧ s.index.toNat = r.index.toNat + 1

theorem span_succ (bank : Bank) (i n : Nat) :
    span bank i (n + 1) = ⟨bank, BitVec.ofNat 8 i⟩ :: span bank (i + 1) n := by
  rw [span, List.range'_succ, List.map_cons, span]

theorem isChain_span {bank : Bank} {i n : Nat} (h : i + n ≤ 256) :
    (span bank i n).IsChain fun r s => s.bank = r.bank ∧ s.index.toNat = r.index.toNat + 1 := by
  induction n generalizing i with
  | zero => exact List.IsChain.nil
  | succ n ih =>
    rw [span_succ]
    cases n with
    | zero => exact List.IsChain.singleton _
    | succ n =>
      have hrest := ih (i := i + 1) (by omega)
      rw [span_succ] at hrest ⊢
      refine List.isChain_cons_cons.2 ⟨⟨rfl, ?_⟩, hrest⟩
      rw [BitVec.toNat_ofNat, BitVec.toNat_ofNat, Nat.mod_eq_of_lt (by omega),
        Nat.mod_eq_of_lt (by omega)]

/-- There is no other list of consecutive registers with this first one and this length. -/
theorem eq_span (hhead : rs.head? = some first)
    (hnext : rs.IsChain fun r s => s.bank = r.bank ∧ s.index.toNat = r.index.toNat + 1) :
    rs = span first.bank first.index.toNat rs.length ∧
      first.index.toNat + rs.length ≤ 256 := by
  induction rs generalizing first with
  | nil => cases hhead
  | cons r rest ih =>
    obtain rfl := Option.some.inj hhead
    have hr : (⟨r.bank, BitVec.ofNat 8 r.index.toNat⟩ : Register) = r := by simp
    rw [List.length_cons, span_succ, hr]
    cases rest with
    | nil => exact ⟨rfl, r.index.isLt⟩
    | cons s rest =>
      obtain ⟨⟨hbank, hindex⟩, hrest⟩ := List.isChain_cons_cons.1 hnext
      obtain ⟨heq, hle⟩ := ih rfl hrest
      rw [hbank, hindex] at heq
      exact ⟨congrArg (r :: ·) heq, by omega⟩

/-- A range stands for the run between its ends, and for nothing if there is none. -/
theorem range?_eq_some_iff : range? first last = some rs ↔ Run first last rs := by
  have hlast : ∀ n, (span first.bank first.index.toNat (n + 1)).getLast? =
      some ⟨first.bank, BitVec.ofNat 8 (first.index.toNat + n)⟩ := by
    intro n
    rw [span, List.getLast?_map, List.getLast?_range', if_neg (Nat.succ_ne_zero n)]
    rfl
  rw [range?, Option.ite_none_right_eq_some, Option.some.injEq]
  constructor
  · rintro ⟨⟨hbank, hle⟩, rfl⟩
    rw [BitVec.le_def] at hle
    have hlt := last.index.isLt
    obtain ⟨n, hn⟩ : ∃ n, last.index.toNat + 1 - first.index.toNat = n + 1 :=
      ⟨last.index.toNat - first.index.toNat, by omega⟩
    refine ⟨?_, ?_, isChain_span (by omega)⟩
    · rw [hn, span_succ]
      simp
    · have hsum : first.index.toNat + n = last.index.toNat := by omega
      rw [hn, hlast, hsum, hbank]
      simp
  · intro h
    obtain ⟨heq, hle⟩ := eq_span h.head h.next
    obtain ⟨n, hn⟩ : ∃ n, rs.length = n + 1 := by
      cases hrs : rs with
      | nil => exact absurd (hrs ▸ h.head) (by simp)
      | cons r rest => exact ⟨rest.length, rfl⟩
    have hend := h.last
    rw [heq, hn, hlast] at hend
    obtain rfl := Option.some.inj hend
    have hindex : (BitVec.ofNat 8 (first.index.toNat + n)).toNat = first.index.toNat + n := by
      rw [BitVec.toNat_ofNat, Nat.mod_eq_of_lt (by omega)]
    refine ⟨⟨rfl, ?_⟩, ?_⟩
    · rw [BitVec.le_def, hindex]
      omega
    · rw [hindex, heq, hn]
      congr 1
      omega

/-! ## Lists -/

/-- What may stand between two commas, if single registers look like this: blanks, one register, or
a range. -/
inductive Item (Single : List Char → Register → Prop) : List Char → List Register → Prop
  | blank {text : List Char} (h : ∀ c ∈ text, Text.isBlank c = true) : Item Single text []
  | single {text : List Char} {r : Register} (h : Single text r) : Item Single text [r]
  | range {front back : List Char} {first last : Register} {rs : List Register}
    (h : Single front first) (h' : Single back last) (run : Run first last rs) :
    Item Single (front ++ '-' :: back) rs

/-- The texts that list registers, if single registers look like this. -/
inductive Lists (Single : List Char → Register → Prop) : List Char → List Register → Prop
  | item {text : List Char} {rs : List Register} (h : Item Single text rs) : Lists Single text rs
  | more {text rest : List Char} {rs rs' : List Register} (h : Item Single text rs)
    (h' : Lists Single rest rs') : Lists Single (text ++ ',' :: rest) (rs ++ rs')

theorem Lists.imp {Single Single' : List Char → Register → Prop}
    (h : ∀ text r, Single text r → Single' text r) (hlists : Lists Single text rs) :
    Lists Single' text rs := by
  have hitem : ∀ {text rs}, Item Single text rs → Item Single' text rs := by
    intro text rs hitem
    cases hitem with
    | blank hblank => exact .blank hblank
    | single hsingle => exact .single (h _ _ hsingle)
    | range hfront hback run => exact .range (h _ _ hfront) (h _ _ hback) run
  induction hlists with
  | item hlast => exact .item (hitem hlast)
  | more hfirst _ ih => exact .more (hitem hfirst) ih

/-! ## Reading -/

variable {a b : List Char}

theorem items_append (a b : List Char) : items (a ++ ',' :: b) = items a ++ items b := by
  simp only [items, Text.splitAll_append, List.map_append, List.filter_append]

theorem items_of_not_mem (h : ',' ∉ text) :
    items text = if Text.trim text = [] then [] else [Text.trim text] := by
  rw [items, Text.splitAll_of_not_mem h, List.map_singleton, List.filter_cons]
  split <;> simp_all

/-- A comma between two texts is read as putting their lists together; what is wrong with the first
text comes first. -/
theorem readListing_append (a b : List Char) :
    readListing (a ++ ',' :: b) =
      match readListing a with
      | .error fault => .error fault
      | .ok rs => (readListing b).map (rs ++ ·) := by
  rw [readListing, items_append, readItems_append]
  rfl

theorem readItems_singleton (item : List Char) : readItems [item] = readItem item := by
  rw [readItems]
  cases readItem item <;> simp [readItems, Except.map]

/-- Reading goes on only after an item that can be read. -/
theorem exists_readItem {xs : List (List Char)} {x : List Char} (h : readItems xs = .ok rs)
    (hx : x ∈ xs) : ∃ regs, readItem x = .ok regs := by
  obtain ⟨before, after, rfl⟩ := List.append_of_mem hx
  rw [readItems_append] at h
  split at h
  · cases h
  · rw [readItems] at h
    cases hread : readItem x with
    | ok regs => exact ⟨regs, rfl⟩
    | error fault =>
      rw [hread] at h
      cases h

theorem names_trim : Names (Text.trim text) r ↔ Names text r := names_congr (Text.trim_trim text)

/-- The ends of a range are read as they stand in the text, with the blanks around them. -/
theorem readItem_range (hfirst : Names a first) (hlast : Names b last) :
    readItem (Text.trim (a ++ '-' :: b)) =
      match range? first last with
      | some regs => .ok regs
      | none => .error (.notAscending (String.ofList (Text.trim (a ++ '-' :: b)))) := by
  have htrim : Text.trim (a ++ '-' :: b) = Text.trimStart a ++ '-' :: Text.trimEnd b :=
    Text.trim_append_cons (by decide)
  have hcut : Text.cut '-' (Text.trim (a ++ '-' :: b)) =
      some (Text.trimStart a, Text.trimEnd b) := by
    rw [htrim]
    refine Text.cut_append fun hdash => ?_
    exact (hfirst.ne_of_mem ((List.dropWhile_sublist _).subset hdash)).2 rfl
  have hfirst' := read_eq_ok_iff.2 ((names_congr (Text.trim_trimStart a)).2 hfirst)
  have hlast' := read_eq_ok_iff.2 ((names_congr (Text.trim_trimEnd b)).2 hlast)
  cases hrange : range? first last <;> simp only [readItem, hcut, hfirst', hlast', hrange]

/-- What can be read without the blanks around it is an item... -/
theorem item_of_readItem (h : readItem (Text.trim text) = .ok rs) : Item Names text rs := by
  unfold readItem at h
  split at h
  · split at h
    · rename_i r hname
      obtain rfl := Except.ok.inj h
      exact .single (names_trim.1 (read_eq_ok_iff.1 hname))
    · cases h
  · rename_i a b hcut
    split at h
    · cases h
    · cases h
    · rename_i first last hfirst hlast
      split at h
      · rename_i regs hrange
        obtain rfl := Except.ok.inj h
        -- the blanks around the item are blanks around the ends of the range
        obtain ⟨front, back, htext, hblank⟩ := Text.eq_append_trim text
        rw [List.forall_mem_append] at hblank
        have hsplit : text = ([] ++ front ++ a ++ []) ++ '-' :: ([] ++ b ++ back) := by
          rw [htext, Text.eq_of_cut hcut]
          simp
        have hfront : Names (front ++ a ++ []) first :=
          (names_blanks (by simpa using hblank.1)).2 (read_eq_ok_iff.1 hfirst)
        have hback : Names ([] ++ b ++ back) last :=
          (names_blanks (by simpa using hblank.2)).2 (read_eq_ok_iff.1 hlast)
        rw [hsplit]
        exact .range hfront hback (range?_eq_some_iff.1 hrange)
      · cases h

/-- There is no comma in an item. -/
theorem Item.not_mem (h : Item Names text rs) : ',' ∉ text := by
  intro hcomma
  cases h with
  | blank hall => exact absurd (hall _ hcomma) (by decide)
  | single hname => exact (hname.ne_of_mem hcomma).1 rfl
  | range hfirst hlast _ =>
    rcases List.mem_append.1 hcomma with hcomma | hcomma
    · exact (hfirst.ne_of_mem hcomma).1 rfl
    · rcases List.mem_cons.1 hcomma with hcomma | hcomma
      · cases hcomma
      · exact (hlast.ne_of_mem hcomma).1 rfl

/-- ...and an item is read as what it stands for. -/
theorem Item.readListing (h : Item Names text rs) : readListing text = .ok rs := by
  rw [Register.readListing, items_of_not_mem h.not_mem]
  cases h with
  | blank hall =>
    rw [if_pos (Text.trim_eq_nil hall)]
    rfl
  | single hname =>
    have hcut : Text.cut '-' (Text.trim text) = none :=
      Text.cut_eq_none_iff.2 fun hdash => ((names_trim.2 hname).ne_of_mem hdash).2 rfl
    rw [if_neg hname.trim_ne_nil, readItems_singleton]
    unfold readItem
    simp only [hcut, read_eq_ok_iff.2 (names_trim.2 hname)]
  | range hfirst hlast hrun =>
    rw [if_neg (by rw [Text.trim_append_cons (by decide)]; simp), readItems_singleton,
      readItem_range hfirst hlast, range?_eq_some_iff.2 hrun]

theorem readListing_of_not_mem (h : ',' ∉ text) :
    readListing text = .ok rs ↔ Item Names text rs := by
  refine ⟨fun hread => ?_, Item.readListing⟩
  rw [readListing, items_of_not_mem h] at hread
  split at hread
  · obtain rfl := Except.ok.inj hread
    exact .blank (Text.trim_eq_nil_iff.1 ‹_›)
  · rw [readItems_singleton] at hread
    exact item_of_readItem hread

/-- **The texts that can be read are those that list registers by their names.** -/
theorem readListing_eq_ok_iff : readListing text = .ok rs ↔ Lists Names text rs := by
  constructor
  · intro hread
    -- on the length of the text: what follows its first comma is shorter
    induction hlength : text.length using Nat.strongRecOn generalizing text rs with
    | ind length ih =>
      by_cases hcomma : ',' ∈ text
      · obtain ⟨a, b, rfl, ha⟩ := List.eq_append_cons_of_mem hcomma
        rw [readListing_append] at hread
        split at hread
        · cases hread
        · rename_i regs hfirst
          cases hrest : readListing b with
          | error fault =>
            rw [hrest] at hread
            cases hread
          | ok more =>
            rw [hrest] at hread
            obtain rfl := Except.ok.inj hread
            have hshorter : b.length < length := by
              rw [← hlength, List.length_append, List.length_cons]
              omega
            exact .more ((readListing_of_not_mem ha).1 hfirst) (ih b.length hshorter hrest rfl)
      · exact .item ((readListing_of_not_mem hcomma).1 hread)
  · intro hlists
    induction hlists with
    | item h => exact h.readListing
    | more h _ ih =>
      rw [readListing_append, h.readListing, ih]
      rfl

/-- A text with a range between two of its commas that is no run cannot be read. -/
theorem readListing_of_bad_range (hfirst : Names a first) (hlast : Names b last)
    (hrange : range? first last = none) (hmem : a ++ '-' :: b ∈ Text.splitAll ',' text) :
    ∃ fault, readListing text = .error fault := by
  cases hread : readListing text with
  | error fault => exact ⟨fault, rfl⟩
  | ok rs =>
    have hitem : Text.trim (a ++ '-' :: b) ∈ items text := by
      refine List.mem_filter.2 ⟨List.mem_map_of_mem hmem, ?_⟩
      rw [Text.trim_append_cons (by decide)]
      simp
    obtain ⟨regs, hregs⟩ := exists_readItem hread hitem
    rw [readItem_range hfirst hlast, hrange] at hregs
    cases hregs

/-! ## Writing -/

theorem writeListing_cons (r : Register) (rs : List Register) :
    writeListing (r :: rs) = r.chars ++ rs.flatMap fun s => ',' :: ' ' :: s.chars := by
  induction rs generalizing r with
  | nil => simp [writeListing]
  | cons s rest ih =>
    have hrest := ih s
    simp only [writeListing, List.map_cons] at hrest
    simp [writeListing, List.intercalate_cons_cons, hrest]

/-- What is written lists the registers, each of them as it is written. -/
theorem lists_writeListing (rs : List Register) : Lists Shows (writeListing rs) rs := by
  have hshows : ∀ (r : Register) (front : List Char), (∀ c ∈ front, Text.isBlank c = true) →
      Item Shows (front ++ r.chars) [r] := by
    intro r front hblank
    exact .single ⟨front, [], by simp, by simpa using hblank⟩
  cases rs with
  | nil => exact .item (.blank fun c hc => absurd hc List.not_mem_nil)
  | cons r rest =>
    rw [writeListing_cons]
    -- all but the first have a blank in front
    suffices hfrom : ∀ front : List Char, (∀ c ∈ front, Text.isBlank c = true) →
        Lists Shows (front ++ r.chars ++ rest.flatMap fun s => ',' :: ' ' :: s.chars)
          (r :: rest) from
      hfrom [] fun c hc => absurd hc List.not_mem_nil
    induction rest generalizing r with
    | nil =>
      intro front hblank
      rw [List.flatMap_nil, List.append_nil]
      exact .item (hshows r front hblank)
    | cons s rest ih =>
      intro front hblank
      exact .more (hshows r front hblank) (ih s [' '] fun _ => Text.isBlank_of_mem_space)

theorem writeListing_concat (rs : List Register) (r : Register) :
    ∃ front, writeListing (rs ++ [r]) = front ++ r.chars := by
  cases rs with
  | nil => exact ⟨[], by simp [writeListing]⟩
  | cons s rest =>
    refine ⟨s.chars ++ (rest.flatMap fun s => ',' :: ' ' :: s.chars) ++ [',', ' '], ?_⟩
    simp [writeListing_cons]

/-- The blanks are between the registers. -/
theorem trim_writeListing (rs : List Register) : Text.trim (writeListing rs) = writeListing rs := by
  cases rs with
  | nil => rfl
  | cons r rest =>
    have hne : writeListing (r :: rest) ≠ [] := by
      rw [writeListing_cons]
      exact List.append_ne_nil_of_left_ne_nil r.chars_ne_nil _
    refine Text.trim_of_ends hne ?_ ?_
    · intro c hc
      rw [writeListing_cons, List.head?_append_of_ne_nil _ r.chars_ne_nil] at hc
      exact isBlank_of_mem_chars (List.mem_of_head? hc)
    · intro c hc
      obtain ⟨init, last, heq⟩ :=
        (List.eq_nil_or_concat (r :: rest)).resolve_left (List.cons_ne_nil _ _)
      obtain ⟨front, hfront⟩ := writeListing_concat init last
      rw [heq, List.concat_eq_append, hfront,
        List.getLast?_append_of_ne_nil _ last.chars_ne_nil] at hc
      exact isBlank_of_mem_chars (List.mem_of_getLast? hc)

theorem newline_not_mem_chars (r : Register) : '\n' ∉ r.chars := fun h =>
  absurd (isBlank_of_mem_chars h) (by decide)

theorem newline_not_mem_writeListing (rs : List Register) : '\n' ∉ writeListing rs := by
  cases rs with
  | nil => exact List.not_mem_nil
  | cons r rest =>
    rw [writeListing_cons]
    simp [newline_not_mem_chars]

end Register

namespace Convention

open Register

theorem readRegisters_eq_ok_iff {line : Nat} {text : List Char} {rs : List Register} :
    readRegisters line text = .ok rs ↔ Lists Names text rs := by
  rw [← readListing_eq_ok_iff, readRegisters]
  cases readListing text <;> simp

/-- However registers are listed, they can be read. -/
theorem readRegisters_of_lists {line : Nat} {text : List Char} {rs : List Register}
    (h : Lists Shows text rs) : readRegisters line text = .ok rs :=
  readRegisters_eq_ok_iff.2 (h.imp fun _ _ => Shows.names)

/-- **The value of a numbered line, if it is a list of registers.**  However the registers are
listed, with blanks and ranges and empty items, they are read in their order; and nothing can be
read but what lists registers by their names.  A comma between two texts puts their lists together,
or the complaint is the one about the first text that is bad.  A range that goes down, or from one
bank to the other, is bad wherever it stands. -/
theorem reads_listings (line : Nat) :
    (∀ text rs, Lists Shows text rs → readRegisters line text = .ok rs) ∧
    (∀ text rs, readRegisters line text = .ok rs ↔ Lists Names text rs) ∧
    (∀ a b, readRegisters line (a ++ ',' :: b) =
      match readRegisters line a with
      | .error fault => .error fault
      | .ok rs => (readRegisters line b).map (rs ++ ·)) ∧
    ∀ text a b first last, Names a first → Names b last →
      first.bank ≠ last.bank ∨ last.index < first.index →
      a ++ '-' :: b ∈ Text.splitAll ',' text → ∃ fault, readRegisters line text = .error fault := by
  refine ⟨fun text rs h => readRegisters_of_lists h, fun text rs => readRegisters_eq_ok_iff, ?_, ?_⟩
  · intro a b
    simp only [readRegisters, readListing_append]
    cases readListing a with
    | error fault => rfl
    | ok rs => cases readListing b <;> rfl
  · intro text a b first last hfirst hlast hbad hmem
    have hrange : range? first last = none := by
      rw [range?, if_neg]
      rintro ⟨hbank, hle⟩
      exact hbad.elim (absurd hbank) (BitVec.not_lt.2 hle)
    obtain ⟨fault, hfault⟩ := readListing_of_bad_range hfirst hlast hrange hmem
    exact ⟨.registers line fault, by rw [readRegisters, hfault]⟩

/-- A range with blanks inside, empty items, and the range up to the last register there is. -/
theorem reads_listings_spaced :
    readRegisters 7 " r0 -\tr2 ,, v254-v255,".toList =
      .ok [.general 0, .general 1, .general 2, .vector 254, .vector 255] := by
  have hblank : ∀ front back : List Char, (front ++ back).all Text.isBlank →
      ∀ c ∈ front ++ back, Text.isBlank c = true := fun _ _ => List.all_eq_true.1
  have h0 : Shows " r0 ".toList (.general 0) := ⟨_, _, by decide, hblank [' '] [' '] (by decide)⟩
  have h2 : Shows "\tr2 ".toList (.general 2) := ⟨_, _, by decide, hblank ['\t'] [' '] (by decide)⟩
  have h254 : Shows " v254".toList (.vector 254) := ⟨_, _, by decide, hblank [' '] [] (by decide)⟩
  have h255 : Shows "v255".toList (.vector 255) := ⟨_, _, by decide, hblank [] [] (by decide)⟩
  have hempty : Item Shows [] [] := .blank (hblank [] [] (by decide))
  have hfirst : Item Shows _ [.general 0, .general 1, .general 2] :=
    .range h0 h2 ⟨rfl, rfl, by decide⟩
  have hthird : Item Shows _ [.vector 254, .vector 255] := .range h254 h255 ⟨rfl, rfl, by decide⟩
  have hlists := Lists.more hfirst (.more hempty (.more hthird (.item hempty)))
  exact (reads_listings 7).1 _ _ hlists

end Convention

end Trampoline
