import Trampoline.Proofs.Listing

/-!
# What a description means

Reading a description goes through its lines twice, and then through its settings one by one,
changing one record as it goes.  What comes out can be said without any of this.  The lines that
mean something are the significant ones (`significantLines`).  If one of them is no setting, the
first such line is reported, whatever is wrong with the values above it.  If all are settings, the
first one with an unknown key or a bad value is reported.  Otherwise the settings amount to one
record (`Settings.revised`): for every key its own lines count and no others, and of these the last,
but that `volatile` lines add up.

* `readLines_eq` and `Settings.adjustAll_eq` — the two stages of reading.
* `read_congr` — of what a text is read as, only the lines with each key and their order decide.
* `read_describe` — a convention is read from its written description.
* `read_denotes` — all of this about one text, and which line a complaint is about.
-/

set_option autoImplicit false

namespace Trampoline.Convention

/-! ## Lines -/

/-- The numbers of the lines that mean something, and these lines without the blanks around them. -/
def significantFrom (number : Nat) (lines : List (List Char)) : List (Nat × List Char) :=
  ((lines.zipIdx number).map fun p => (p.2, Text.trim p.1)).filter fun p => isSignificant p.2

/-- The significant lines of a text, counted from one. -/
def significantLines (text : String) : List (Nat × List Char) :=
  significantFrom 1 (Text.lines text.toList)

/-- The setting in a numbered line, if the line is one. -/
def Setting.ofLine? (p : Nat × List Char) : Option Setting :=
  (Text.cut '=' p.2).map fun (key, value) => ⟨p.1, Text.trim key, Text.trim value⟩

/-- The settings of a text, in the order of its lines. -/
def settings (text : String) : List Setting := (significantLines text).filterMap Setting.ofLine?

theorem significantFrom_cons (number : Nat) (line : List Char) (rest : List (List Char)) :
    significantFrom number (line :: rest) =
      if isSignificant (Text.trim line) then
        (number, Text.trim line) :: significantFrom (number + 1) rest
      else significantFrom (number + 1) rest := by
  rw [significantFrom, List.zipIdx_cons, List.map_cons, List.filter_cons]
  rfl

/-- All lines have to be settings, or the first that is none is reported. -/
theorem readLines_eq (number : Nat) (lines : List (List Char)) :
    readLines number lines =
      match (significantFrom number lines).find? (fun p => '=' ∉ p.2) with
      | some p => .error (.notASetting p.1)
      | none => .ok ((significantFrom number lines).filterMap Setting.ofLine?) := by
  induction lines generalizing number with
  | nil => rfl
  | cons line rest ih =>
    rw [readLines, significantFrom_cons]
    split
    · cases hcut : Text.cut '=' (Text.trim line) with
      | none =>
        have hmem := Text.cut_eq_none_iff.1 hcut
        rw [List.find?_cons_of_pos (by simpa using hmem)]
      | some pair =>
        have hmem : '=' ∈ Text.trim line := by
          rw [Text.eq_of_cut hcut]
          simp
        have hsetting : Setting.ofLine? (number, Text.trim line) =
            some ⟨number, Text.trim pair.1, Text.trim pair.2⟩ := by
          rw [Setting.ofLine?, hcut]
          rfl
        rw [List.find?_cons_of_neg (by simpa using hmem), List.filterMap_cons_some hsetting]
        dsimp only
        rw [ih]
        split <;> rfl
    · exact ih (number + 1)

/-! ## Settings -/

/-- The error of a computation that has one. -/
def errorOf? {ε α : Type} : Except ε α → Option ε
  | .error e => some e
  | .ok _ => none

/-- What is wrong with a setting: a value that cannot be read, or a key that there is not. -/
def Setting.fault? (x : Setting) : Option DescriptionFault :=
  match String.ofList x.key with
  | "name" => none
  | "volatile" | "int_args" | "float_args" | "int_returns" | "float_returns" =>
    (errorOf? (Register.readListing x.value)).map (.registers x.line)
  | "stack_alignment" | "shadow_space" =>
    (errorOf? (Text.readNumeral 10 wordLimit x.value)).map
      (.byteCount x.line (String.ofList x.value))
  | "return_buffer" => (errorOf? (Register.read x.value)).map (.bufferRegister x.line)
  | key => some (.unknownKey x.line key)

/-- The values of the settings with this key, in order. -/
def values (key : String) (xs : List Setting) : List (List Char) :=
  (xs.filter fun x => x.key = key.toList).map Setting.value

/-- What the last of several values means, or what held before. -/
def latest {α : Type} (meaning : List Char → α) (before : α) (values : List (List Char)) : α :=
  (values.getLast?.map meaning).getD before

/-- The registers that a value lists. -/
def listed (value : List Char) : List Register := (Register.readListing value).toOption.getD []

/-- The number that a value gives. -/
def counted (value : List Char) : Nat := (Text.readNumeral 10 wordLimit value).toOption.getD 0

/-- The settings after several lines: for each key its last value counts, but the volatile registers
are those of all lines together. -/
def Settings.revised (s : Settings) (xs : List Setting) : Settings where
  name := latest String.ofList s.name (values "name" xs)
  volatile := s.volatile ++ (values "volatile" xs).flatMap listed
  intArgs := latest listed s.intArgs (values "int_args" xs)
  floatArgs := latest listed s.floatArgs (values "float_args" xs)
  intReturns := latest listed s.intReturns (values "int_returns" xs)
  floatReturns := latest listed s.floatReturns (values "float_returns" xs)
  alignment := latest counted s.alignment (values "stack_alignment" xs)
  shadowSpace := latest counted s.shadowSpace (values "shadow_space" xs)
  returnBuffer := latest Register.ofChars? s.returnBuffer (values "return_buffer" xs)

theorem values_append (key : String) (xs ys : List Setting) :
    values key (xs ++ ys) = values key xs ++ values key ys := by
  rw [values, List.filter_append, List.map_append, values, values]

/-- Later values come after earlier ones. -/
theorem latest_append {α : Type} (meaning : List Char → α) (before : α)
    (vs ws : List (List Char)) :
    latest meaning before (vs ++ ws) = latest meaning (latest meaning before vs) ws := by
  rw [latest, latest, latest, List.getLast?_append]
  cases ws.getLast? <;> rfl

theorem Settings.revised_append (s : Settings) (xs ys : List Setting) :
    s.revised (xs ++ ys) = (s.revised xs).revised ys := by
  simp only [revised, values_append, latest_append, List.flatMap_append, List.append_assoc]

theorem Settings.revised_nil (s : Settings) : s.revised [] = s := by
  simp [revised, values, latest]

theorem values_singleton (key : String) (x : Setting) :
    values key [x] = if x.key = key.toList then [x.value] else [] := by
  rw [values, List.filter_singleton]
  split <;> simp_all

theorem listed_of_read {line : Nat} {value : List Char} {regs : List Register}
    (h : readRegisters line value = .ok regs) : listed value = regs := by
  rw [readRegisters] at h
  rw [listed]
  cases hread : Register.readListing value <;> simp_all [Except.toOption]

theorem counted_of_read {line n : Nat} {value : List Char} (h : readBytes line value = .ok n) :
    counted value = n := by
  rw [readBytes] at h
  rw [counted]
  cases hread : Text.readNumeral 10 wordLimit value <;> simp_all [Except.toOption]

theorem errorOf?_readRegisters (line : Nat) (value : List Char) :
    errorOf? (readRegisters line value) =
      (errorOf? (Register.readListing value)).map (.registers line) := by
  rw [readRegisters]
  cases Register.readListing value <;> rfl

theorem errorOf?_readBytes (line : Nat) (value : List Char) :
    errorOf? (readBytes line value) = (errorOf? (Text.readNumeral 10 wordLimit value)).map
      (.byteCount line (String.ofList value)) := by
  rw [readBytes]
  cases Text.readNumeral 10 wordLimit value <;> rfl

/-- A value that cannot be read is reported, and one that can be read is put to use. -/
theorem map_eq_of_value {α β : Type} {value : Except DescriptionFault α} {f : α → β} {b : β}
    (h : ∀ a, value = .ok a → f a = b) :
    value.map f =
      match errorOf? value with
      | some fault => .error fault
      | none => .ok b := by
  cases value with
  | error fault => rfl
  | ok a => exact congrArg Except.ok (h a rfl)

/-- A setting is reported if it has a fault, and otherwise changes the one thing that it is about:
one case for every key. -/
theorem Settings.adjust_eq (s : Settings) (x : Setting) :
    s.adjust x =
      match x.fault? with
      | some fault => .error fault
      | none => .ok (s.revised [x]) := by
  obtain ⟨line, key, value⟩ := x
  obtain ⟨key, rfl⟩ : ∃ k : String, key = k.toList := ⟨String.ofList key, by simp⟩
  simp only [adjust, Setting.fault?, String.ofList_toList]
  split
  · simp [revised, values_singleton, latest]
  iterate 5
    rw [← errorOf?_readRegisters]
    exact map_eq_of_value fun regs hread => by
      simp [revised, values_singleton, latest, listed_of_read hread]
  iterate 2
    rw [← errorOf?_readBytes]
    exact map_eq_of_value fun n hread => by
      simp [revised, values_singleton, latest, counted_of_read hread]
  · cases hread : Register.read value with
    | error why => rfl
    | ok reg =>
      have hname : Register.ofChars? value = some reg := Register.read_eq_ok_iff.1 hread
      simp [errorOf?, revised, values_singleton, latest, hname]
  · simp

theorem Settings.adjustAll_eq (s : Settings) (xs : List Setting) :
    s.adjustAll xs =
      match xs.findSome? Setting.fault? with
      | some fault => .error fault
      | none => .ok (s.revised xs) := by
  induction xs generalizing s with
  | nil => rw [adjustAll, List.findSome?_nil, revised_nil]
  | cons x rest ih =>
    have hrevised : (s.revised [x]).revised rest = s.revised (x :: rest) :=
      (s.revised_append [x] rest).symm
    rw [adjustAll, s.adjust_eq, List.findSome?_cons]
    cases x.fault? with
    | some fault => rfl
    | none =>
      dsimp only
      rw [ih, hrevised]

/-! ## Descriptions -/

variable {name text other : String} {line : List Char} {xs ys : List Setting} {x y : Setting}
  {s : Settings} {c : Convention} {fault : DescriptionFault}

/-- The two stages of reading, and the checks at last. -/
theorem read_eq (name text : String) :
    read name text =
      match (significantLines text).find? (fun p => '=' ∉ p.2) with
      | some p => .error (.notASetting p.1)
      | none =>
        match (settings text).findSome? Setting.fault? with
        | some fault => .error fault
        | none => (make (Settings.revised { name } (settings text))).mapError .refused := by
  rw [read, readLines_eq, ← significantLines]
  cases (significantLines text).find? (fun p => '=' ∉ p.2) with
  | some p => rfl
  | none =>
    dsimp only
    rw [← settings, Settings.adjustAll_eq]
    cases (settings text).findSome? Setting.fault? <;> rfl

/-! ## Complaints -/

/-- The line that something is wrong with. -/
def DescriptionFault.line? : DescriptionFault → Option Nat
  | notASetting line | registers line _ | byteCount line _ _ | bufferRegister line _
  | unknownKey line _ => some line
  | refused _ => none

/-- The outer message begins with the number of the line. -/
def DescriptionFault.Cites (fault : DescriptionFault) (line : Nat) : Prop :=
  ∃ what causes, fault.chain = (s!"line {line}: " ++ what) :: causes

/-- If something is wrong with a line, the message says with which. -/
theorem DescriptionFault.cites {line : Nat} (h : fault.line? = some line) : fault.Cites line := by
  cases fault with
  | refused => cases h
  | notASetting =>
    obtain rfl := Option.some.inj h
    refine ⟨"invalid format, expected 'key = value'", [], ?_⟩
    simp only [chain, String.append_assoc]
    rfl
  | byteCount line value why =>
    obtain rfl := Option.some.inj h
    refine ⟨s!"invalid byte count '{value}'", [why.message], ?_⟩
    simp only [chain, String.append_assoc]
    rfl
  | bufferRegister line why =>
    obtain rfl := Option.some.inj h
    refine ⟨"bad return buffer register", [why.message], ?_⟩
    simp only [chain, String.append_assoc]
    rfl
  | unknownKey line key =>
    obtain rfl := Option.some.inj h
    refine ⟨s!"unknown key '{key}'", [], ?_⟩
    simp only [chain, String.append_assoc]
    rfl
  | registers line why =>
    obtain rfl := Option.some.inj h
    cases why with
    | badRegister item why =>
      refine ⟨s!"bad register '{item}'", [why.message], ?_⟩
      simp only [chain, Register.ListingFault.chain, String.append_assoc]
      rfl
    | badRange item why =>
      refine ⟨s!"bad range '{item}'", [why.message], ?_⟩
      simp only [chain, Register.ListingFault.chain, String.append_assoc]
      rfl
    | notAscending item =>
      refine ⟨s!"invalid register range '{item}'", [], ?_⟩
      simp only [chain, Register.ListingFault.chain, String.append_assoc]
      rfl

/-- What is wrong with a setting is wrong with its line. -/
theorem Setting.line?_of_fault (h : x.fault? = some fault) : fault.line? = some x.line := by
  unfold fault? at h
  split at h
  · cases h
  iterate 8
    obtain ⟨_, _, rfl⟩ := Option.map_eq_some_iff.1 h
    rfl
  · obtain rfl := Option.some.inj h
    rfl

/-! ## Rearranged descriptions -/

/-- The key of a line, if it is a setting. -/
def keyOf? (line : List Char) : Option (List Char) :=
  (Text.cut '=' line).map fun p => Text.trim p.1

/-- The value in a line, if it is a setting. -/
def valueOf? (line : List Char) : Option (List Char) :=
  (Text.cut '=' line).map fun p => Text.trim p.2

/-- The significant lines with this key, or without any, in their order. -/
def linesWith (key : Option (List Char)) (text : String) : List (List Char) :=
  ((significantLines text).map Prod.snd).filter fun line => keyOf? line = key

/-- A setting has the key and the value of its line. -/
theorem Setting.ofLine?_eq_some_iff {p : Nat × List Char} :
    Setting.ofLine? p = some x ↔
      x.line = p.1 ∧ keyOf? p.2 = some x.key ∧ valueOf? p.2 = some x.value := by
  obtain ⟨line, key, value⟩ := x
  rw [ofLine?, keyOf?, valueOf?]
  cases Text.cut '=' p.2 <;> simp [eq_comm]

theorem keyOf?_eq_none_iff : keyOf? line = none ↔ '=' ∉ line := by
  rw [keyOf?, Option.map_eq_none_iff, Text.cut_eq_none_iff]

theorem values_settings (key : String) (text : String) :
    values key (settings text) = (linesWith (some key.toList) text).filterMap valueOf? := by
  rw [settings, linesWith]
  induction significantLines text with
  | nil => rfl
  | cons p rest ih =>
    rw [values] at ih
    rw [values, List.map_cons, List.filter_cons]
    cases hline : Setting.ofLine? p with
    | none =>
      have hkey : keyOf? p.2 = none := by simpa [Setting.ofLine?, keyOf?] using hline
      rw [List.filterMap_cons_none hline, hkey, ih]
      simp
    | some x =>
      obtain ⟨-, hkey, hvalue⟩ := Setting.ofLine?_eq_some_iff.1 hline
      rw [List.filterMap_cons_some hline, List.filter_cons, hkey]
      by_cases h : x.key = key.toList
      · simp [h, hvalue, ih]
      · simp [h, ih]

theorem mem_settings_iff :
    x ∈ settings text ↔ ∃ line, (x.line, line) ∈ significantLines text ∧
      keyOf? line = some x.key ∧ valueOf? line = some x.value := by
  rw [settings, List.mem_filterMap]
  constructor
  · rintro ⟨⟨number, line⟩, hmem, hline⟩
    obtain ⟨rfl, h⟩ := Setting.ofLine?_eq_some_iff.1 hline
    exact ⟨line, hmem, h⟩
  · rintro ⟨line, hmem, h⟩
    exact ⟨(x.line, line), hmem, Setting.ofLine?_eq_some_iff.2 ⟨rfl, h⟩⟩

/-- Whether a setting has a fault does not depend on where it stands. -/
theorem Setting.fault?_eq_none_congr (hkey : x.key = y.key) (hvalue : x.value = y.value) :
    x.fault? = none ↔ y.fault? = none := by
  unfold fault?
  rw [hkey, hvalue]
  split
  · rfl
  iterate 8 rw [Option.map_eq_none_iff, Option.map_eq_none_iff]
  · simp

theorem Settings.revised_congr (h : ∀ key, values key xs = values key ys) (s : Settings) :
    s.revised xs = s.revised ys := by
  simp only [revised, h]

/-- A text describes a convention if all its significant lines are settings, no setting has a fault,
and what they amount to is accepted. -/
theorem read_eq_ok_iff :
    read name text = .ok c ↔ linesWith none text = [] ∧
      (∀ x ∈ settings text, x.fault? = none) ∧
      make (Settings.revised { name } (settings text)) = .ok c := by
  have hformat : (significantLines text).find? (fun p => '=' ∉ p.2) = none ↔
      linesWith none text = [] := by
    simp only [linesWith, List.find?_eq_none, List.filter_eq_nil_iff, List.forall_mem_map,
      decide_eq_true_eq, keyOf?_eq_none_iff]
  have hvalues : (settings text).findSome? Setting.fault? = none ↔
      ∀ x ∈ settings text, x.fault? = none := List.findSome?_eq_none_iff
  rw [read_eq, ← hformat, ← hvalues]
  cases (significantLines text).find? (fun p => '=' ∉ p.2) with
  | some p => simp
  | none =>
    cases (settings text).findSome? Setting.fault? with
    | some fault => simp
    | none => cases make (Settings.revised { name } (settings text)) <;> simp [Except.mapError]

/-- Only the order of the lines with one key matters. -/
theorem read_congr (h : ∀ key, linesWith key text = linesWith key other)
    (hread : read name text = .ok c) : read name other = .ok c := by
  rw [read_eq_ok_iff] at hread ⊢
  obtain ⟨hformat, hsound, hmake⟩ := hread
  refine ⟨h none ▸ hformat, fun y hy => ?_, ?_⟩
  · obtain ⟨line, hline, hkey, hvalue⟩ := mem_settings_iff.1 hy
    have hmem : line ∈ linesWith (some y.key) text := by
      rw [h, linesWith]
      exact List.mem_filter.2 ⟨List.mem_map_of_mem hline, decide_eq_true hkey⟩
    obtain ⟨⟨number, _⟩, hline', rfl⟩ := List.mem_map.1 (List.mem_filter.1 hmem).1
    have hsame : Setting.fault? ⟨number, y.key, y.value⟩ = none ↔ y.fault? = none :=
      Setting.fault?_eq_none_congr rfl rfl
    exact hsame.1 (hsound _ (mem_settings_iff.2 ⟨_, hline', hkey, hvalue⟩))
  · have hvalues : ∀ key, values key (settings text) = values key (settings other) := by
      intro key
      rw [values_settings, values_settings, h]
    rw [← hmake, Settings.revised_congr hvalues]

/-! ## Written descriptions -/

/-- The keys and the values of a written description, in the order of its lines. -/
def Settings.entries (s : Settings) : List (String × List Char) :=
  [("name", s.name.toList), ("volatile", Register.writeListing s.volatile),
    ("int_args", Register.writeListing s.intArgs),
    ("float_args", Register.writeListing s.floatArgs),
    ("int_returns", Register.writeListing s.intReturns),
    ("float_returns", Register.writeListing s.floatReturns),
    ("stack_alignment", Nat.toDigits 10 s.alignment),
    ("shadow_space", Nat.toDigits 10 s.shadowSpace)] ++
    s.returnBuffer.toList.map fun reg => ("return_buffer", reg.chars)

/-- The settings that a written description is read as. -/
def numbered (number : Nat) (entries : List (String × List Char)) : List Setting :=
  (entries.zipIdx number).map fun p => ⟨p.2, p.1.1.toList, p.1.2⟩

/-- Whether a key ends at an equals sign behind it, and its line is no comment. -/
def isKey (key : List Char) : Bool :=
  !key.isEmpty && key.all fun c => !Text.isBlank c && c != '=' && c != '#'

/-- A key and a value that are read back from their line. -/
structure Writable (key : String) (value : List Char) : Prop where
  key : isKey key.toList = true
  trimmed : Text.trim value = value
  newline : '\n' ∉ value

section

variable {key value : List Char}

theorem isKey_iff : isKey key = true ↔
    key ≠ [] ∧ ∀ c ∈ key, Text.isBlank c = false ∧ c ≠ '=' ∧ c ≠ '#' := by
  simp [isKey, and_assoc]

/-- The line of a key begins with the key, and ends where the value ends. -/
theorem trim_line (h : isKey key = true) (value : List Char) :
    Text.trim (key ++ [' ', '=', ' '] ++ value) =
      key ++ [' '] ++ '=' :: Text.trimEnd (' ' :: value) := by
  obtain ⟨hne, hkey⟩ := isKey_iff.1 h
  obtain ⟨c, cs, rfl⟩ := List.exists_cons_of_ne_nil hne
  have hsplit : c :: cs ++ [' ', '=', ' '] ++ value =
      c :: cs ++ [' '] ++ '=' :: ' ' :: value := by simp
  have hstart : Text.trimStart ([] ++ c :: (cs ++ [' '])) = [] ++ c :: (cs ++ [' ']) :=
    Text.trimStart_append_cons (hkey c List.mem_cons_self).1
  rw [hsplit, Text.trim_append_cons (by decide)]
  exact congrArg (· ++ _) hstart

theorem isSignificant_line (h : isKey key = true) (rest : List Char) :
    isSignificant (key ++ [' '] ++ rest) = true := by
  obtain ⟨hne, hkey⟩ := isKey_iff.1 h
  obtain ⟨c, cs, rfl⟩ := List.exists_cons_of_ne_nil hne
  exact decide_eq_true (hkey c List.mem_cons_self).2.2

theorem cut_line (h : isKey key = true) (rest : List Char) :
    Text.cut '=' (key ++ [' '] ++ '=' :: rest) = some (key ++ [' '], rest) := by
  refine Text.cut_append fun hmem => ?_
  rcases List.mem_append.1 hmem with hmem | hmem
  · exact ((isKey_iff.1 h).2 _ hmem).2.1 rfl
  · exact absurd hmem (by decide)

theorem trim_key (h : isKey key = true) : Text.trim (key ++ [' ']) = key := by
  have hblank : Text.trim ([] ++ key ++ [' ']) = Text.trim key :=
    Text.trim_blanks fun _ => Text.isBlank_of_mem_space
  rw [List.nil_append, Text.trim_of_forall fun c hc => ((isKey_iff.1 h).2 c hc).1] at hblank
  exact hblank

theorem trim_trimEnd_cons (value : List Char) :
    Text.trim (Text.trimEnd (' ' :: value)) = Text.trim value := by
  have hblank : Text.trim ([' '] ++ value ++ []) = Text.trim value :=
    Text.trim_blanks fun _ => Text.isBlank_of_mem_space
  rw [List.append_nil, List.singleton_append] at hblank
  rw [Text.trim_trimEnd, hblank]

end

theorem Settings.describe_eq (s : Settings) :
    s.describe = s.entries.flatMap fun e => settingLine e.1 e.2 := by
  cases h : s.returnBuffer <;> simp [describe, entries, h]

/-- What is read of a line that was written, and of the lines after it. -/
theorem readLines_settingLine {key : String} {value : List Char} (h : Writable key value)
    (number : Nat) (rest : List Char) :
    readLines number (Text.lines (settingLine key value ++ rest)) =
      (readLines (number + 1) (Text.lines rest)).map (⟨number, key.toList, value⟩ :: ·) := by
  have hline : '\n' ∉ key.toList ++ [' ', '=', ' '] ++ value := by
    have hkey : '\n' ∉ key.toList := fun hmem =>
      absurd ((isKey_iff.1 h.key).2 _ hmem).1 (by decide)
    simp [hkey, h.newline]
  rw [settingLine, List.append_assoc _ ['\n'], List.singleton_append, Text.lines_append hline,
    readLines, trim_line h.key]
  simp only [isSignificant_line h.key, cut_line h.key, trim_key h.key, trim_trimEnd_cons,
    h.trimmed, if_true]

theorem readLines_entries {entries : List (String × List Char)}
    (h : ∀ e ∈ entries, Writable e.1 e.2) (number : Nat) :
    readLines number (Text.lines (entries.flatMap fun e => settingLine e.1 e.2)) =
      .ok (numbered number entries) := by
  induction entries generalizing number with
  | nil => rfl
  | cons e rest ih =>
    obtain ⟨he, hrest⟩ := List.forall_mem_cons.1 h
    rw [List.flatMap_cons, readLines_settingLine he, ih hrest]
    rfl

theorem writable_listing {key : String} (hkey : isKey key.toList = true) (rs : List Register) :
    Writable key (Register.writeListing rs) :=
  ⟨hkey, Register.trim_writeListing rs, Register.newline_not_mem_writeListing rs⟩

theorem writable_numeral {key : String} (hkey : isKey key.toList = true) (n : Nat) :
    Writable key (Nat.toDigits 10 n) :=
  ⟨hkey, Text.trim_of_forall fun _ => Text.isBlank_of_mem_toDigits,
    fun h => absurd (Text.isBlank_of_mem_toDigits h) (by decide)⟩

theorem Settings.writable_of_mem_entries (htrim : Text.trim s.name.toList = s.name.toList)
    (hnewline : '\n' ∉ s.name.toList) : ∀ e ∈ s.entries, Writable e.1 e.2 := by
  simp only [entries, List.cons_append, List.nil_append, List.forall_mem_cons, List.forall_mem_map]
  exact ⟨⟨by decide, htrim, hnewline⟩, writable_listing (by decide) _,
    writable_listing (by decide) _, writable_listing (by decide) _, writable_listing (by decide) _,
    writable_listing (by decide) _, writable_numeral (by decide) _, writable_numeral (by decide) _,
    fun reg _ => ⟨by decide, reg.trim_chars, reg.newline_not_mem_chars⟩⟩

theorem readRegisters_writeListing (line : Nat) (rs : List Register) :
    readRegisters line (Register.writeListing rs) = .ok rs :=
  readRegisters_of_lists (Register.lists_writeListing rs)

theorem readBytes_toDigits (line : Nat) {n : Nat} (h : n < wordLimit) :
    readBytes line (Nat.toDigits 10 n) = .ok n := by
  rw [readBytes, Text.readNumeral_toDigits h]

/-- The lines of a written description amount to the settings that were written. -/
theorem Settings.adjustAll_entries (name : String) (halignment : s.alignment < wordLimit)
    (hshadow : s.shadowSpace < wordLimit) :
    adjustAll { name } (numbered 1 s.entries) = .ok s := by
  obtain ⟨_, _, _, _, _, _, _, _, buffer⟩ := s
  cases buffer with
  | none =>
    simp [numbered, entries, adjustAll, adjust, readRegisters_writeListing, Except.map,
      readBytes_toDigits _ halignment, readBytes_toDigits _ hshadow]
  | some reg =>
    have hreg : Register.read reg.chars = .ok reg :=
      Register.read_eq_ok_iff.2 (Register.names_chars reg)
    simp [numbered, entries, adjustAll, adjust, readRegisters_writeListing, Except.map,
      readBytes_toDigits _ halignment, readBytes_toDigits _ hshadow, hreg]

/-- Accepted settings are kept, but that the volatile registers are brought into their order. -/
theorem make_eq_ok_iff : make s = .ok c ↔
    s.fault? = none ∧ c.toSettings = { s with volatile := Register.sorted s.volatile } := by
  obtain ⟨settings, hsound⟩ := c
  unfold make
  split
  · rename_i hfault
    simp [hfault]
  · rename_i hnone
    constructor
    · intro h
      cases h
      exact ⟨hnone, rfl⟩
    · rintro ⟨-, rfl⟩
      rfl

theorem sorted_sorted (rs : List Register) :
    Register.sorted (Register.sorted rs) = Register.sorted rs :=
  List.filter_congr fun r _ => by simp

/-- A convention that was made is what is made of its settings. -/
theorem make_toSettings (h : make s = .ok c) : make c.toSettings = .ok c := by
  obtain ⟨-, hc⟩ := make_eq_ok_iff.1 h
  refine make_eq_ok_iff.2 ⟨c.sound, ?_⟩
  rw [hc]
  simp only [sorted_sorted]

/-- A written description is read back. -/
theorem read_describe (hmake : make s = .ok c) (htrim : Text.trim c.name.toList = c.name.toList)
    (hnewline : '\n' ∉ c.name.toList) (halignment : c.alignment < wordLimit)
    (hshadow : c.shadowSpace < wordLimit) : read name (String.ofList c.describe) = .ok c := by
  have hlines := readLines_entries (Settings.writable_of_mem_entries htrim hnewline) 1
  rw [read, String.toList_ofList, Settings.describe_eq, hlines]
  dsimp only
  rw [Settings.adjustAll_entries name halignment hshadow]
  dsimp only
  rw [make_toSettings hmake]
  rfl

/-! ## Main result -/

/-- **What a text describes.**  The first significant line that is no setting is reported, even if
a value above it is bad.  Without such a line the first setting with a fault is reported, with the
number of its line.  Without faults the text stands for the convention with the settings that its
lines amount to, if that is one.  So of a text that describes a convention only the significant
lines matter, and of their order only that of the lines with one key; and every convention that can
be made has such a text, if its name can stand in one and its numbers fit into a word. -/
theorem read_denotes (name text : String) :
    (∀ before number line after, significantLines text = before ++ (number, line) :: after →
      (∀ p ∈ before, '=' ∈ p.2) → '=' ∉ line →
      read name text = .error (.notASetting number) ∧
        (DescriptionFault.notASetting number).Cites number) ∧
    ((∀ p ∈ significantLines text, '=' ∈ p.2) →
      (∀ before x after fault, settings text = before ++ x :: after →
        (∀ y ∈ before, y.fault? = none) → x.fault? = some fault →
        read name text = .error fault ∧ fault.Cites x.line) ∧
      ((∀ x ∈ settings text, x.fault? = none) →
        read name text =
          (make (Settings.revised { name } (settings text))).mapError .refused)) ∧
    (∀ other c, (∀ key, linesWith key text = linesWith key other) →
      read name text = .ok c → read name other = .ok c) ∧
    ∀ s c, make s = .ok c → Text.trim c.name.toList = c.name.toList → '\n' ∉ c.name.toList →
      c.alignment < wordLimit → c.shadowSpace < wordLimit →
      read name (String.ofList c.describe) = .ok c := by
  refine ⟨?_, fun hformat => ⟨?_, fun hsound => ?_⟩, fun other c => read_congr,
    fun s c => read_describe⟩
  · intro before number line after hlines hbefore hline
    have hfirst : (significantLines text).find? (fun p => '=' ∉ p.2) = some (number, line) := by
      rw [List.find?_eq_some_iff_append]
      refine ⟨decide_eq_true hline, before, after, hlines, fun p hp => ?_⟩
      simp [hbefore p hp]
    rw [read_eq, hfirst]
    exact ⟨rfl, DescriptionFault.cites rfl⟩
  all_goals
    have hnone : (significantLines text).find? (fun p => '=' ∉ p.2) = none := by
      rw [List.find?_eq_none]
      intro p hp
      simp [hformat p hp]
    rw [read_eq, hnone]
  · intro before x after fault hsettings hbefore hfault
    have hfirst : (settings text).findSome? Setting.fault? = some fault := by
      rw [hsettings, List.findSome?_append, List.findSome?_eq_none_iff.2 hbefore,
        List.findSome?_cons, hfault]
      rfl
    rw [hfirst]
    exact ⟨rfl, DescriptionFault.cites (Setting.line?_of_fault hfault)⟩
  · rw [List.findSome?_eq_none_iff.2 hsound]

/-- The second line is bad before the fourth, but that one is no setting; and a name may look like a
comment and like a setting. -/
theorem read_denotes_late_format :
    read "none" "\nint_args = q1\n# int_args\nint_args r0\n" = .error (.notASetting 4) ∧
    read "none" (String.ofList (Settings.describe { name := "#a = b" })) =
      .ok ⟨{ name := "#a = b" }, by decide⟩ := by
  have hmake : make { name := "#a = b" } = .ok ⟨{ name := "#a = b" }, by decide⟩ :=
    make_eq_ok_iff.2 ⟨by decide, by simp [Register.sorted]⟩
  have hlines : significantLines "\nint_args = q1\n# int_args\nint_args r0\n" =
      [(2, "int_args = q1".toList)] ++ (4, "int_args r0".toList) :: [] := by decide
  have hwritten := (read_denotes "none" "").2.2.2 _ _ hmake (by decide) (by decide)
    (by simp [wordLimit]) (by simp [wordLimit])
  exact ⟨((read_denotes "none" _).1 _ _ _ _ hlines (by decide) (by decide)).1, hwritten⟩

end Trampoline.Convention
