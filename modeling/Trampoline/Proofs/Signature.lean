import Trampoline.Proofs.Boundary

/-!
# The texts of signatures

Which texts are signatures, and what they stand for, is said here by a grammar instead of a reader.
It is a grammar on letters and knows nothing of types: `Signature.ResultForm` has the three ways to
write the results down, and `Signature.Spells` a whole signature with blanks around it.

The reader looks for unknown letters first, and for types that native code cannot handle when
everything has been read, so that the letters of `object` and `void` get through its first stage.
The grammar has none of them but the one `V` that stands for no result.

* `Signature.read_eq_ok_iff` — a text is read as a signature exactly if it spells the letters of its
  types.
* `Signature.Spells.eq_or_longer` — a signature has many spellings, and what is written is the
  shortest of them, and the only one of its length.
* `Signature.follows_grammar` — both together.
* `Request.name_eq_iff` — the names of stubs tell signatures apart.
-/

set_option autoImplicit false

namespace Trampoline

/-- The letters of the types that native code can pass or take back. -/
def typeLetters : List Char := ['Z', 'B', 'S', 'C', 'I', 'J', 'F', 'D', 'A']

namespace ValueType

variable {t u : ValueType} {ts us : List ValueType}

theorem letter_mem_typeLetters_iff : t.letter ∈ typeLetters ↔ t.isNative = true := by
  cases t <;> decide

theorem letter_inj : t.letter = u.letter ↔ t = u := by
  refine ⟨fun h => ?_, congrArg letter⟩
  have hsame := congrArg ofLetter? h
  rw [ofLetter?_letter, ofLetter?_letter] at hsame
  exact Option.some.inj hsame

theorem map_letter_inj : ts.map letter = us.map letter ↔ ts = us :=
  List.map_inj_right fun _ _ => letter_inj.1

/-- Letters of types that native code can handle are the letters of such types. -/
theorem exists_of_letters {cs : List Char} (h : ∀ c ∈ cs, c ∈ typeLetters) :
    ∃ ts : List ValueType, (∀ t ∈ ts, t.isNative = true) ∧ ts.map letter = cs := by
  have hnative : ∀ c ∈ typeLetters, (ofLetter? c).any isNative = true :=
    List.all_eq_true.1 (by decide)
  induction cs with
  | nil => exact ⟨[], by simp⟩
  | cons c rest ih =>
    obtain ⟨hc, hrest⟩ := List.forall_mem_cons.1 h
    obtain ⟨t, hread, ht⟩ := (Option.any_eq_true _ _).1 (hnative c hc)
    obtain rfl := eq_letter_of_ofLetter? hread
    obtain ⟨ts, hts, rfl⟩ := ih hrest
    exact ⟨t :: ts, List.forall_mem_cons.2 ⟨ht, hts⟩, rfl⟩

theorem letters_mem (h : ∀ t ∈ ts, t.isNative = true) :
    ∀ c ∈ ts.map letter, c ∈ typeLetters := by
  intro c hc
  obtain ⟨t, ht, rfl⟩ := List.mem_map.1 hc
  exact letter_mem_typeLetters_iff.2 (h t ht)

end ValueType

namespace Signature

/-! ## The grammar -/

/-- The ways to write down the letters of the results: `V` for none, a letter for one, and any
number of letters in brackets. -/
inductive ResultForm : List Char → List Char → Prop
  | void : ResultForm ['V'] []
  | single {c : Char} (h : c ∈ typeLetters) : ResultForm [c] [c]
  | list {cs : List Char} (h : ∀ c ∈ cs, c ∈ typeLetters) : ResultForm ('[' :: cs ++ [']']) cs

/-- A text is the spelling of a signature, with the letters of its arguments and of its results.
Blanks around it do not count, and there are none inside. -/
structure Spells (text args returns : List Char) : Prop where
  args_letters : ∀ c ∈ args, c ∈ typeLetters
  form : ∃ front result back, text = front ++ ('(' :: args ++ ')' :: result) ++ back ∧
    (∀ c ∈ front ++ back, Text.isBlank c = true) ∧ ResultForm result returns

theorem isBlank_of_mem_typeLetters {c : Char} (h : c ∈ typeLetters) : Text.isBlank c = false := by
  have hall : typeLetters.all (!Text.isBlank ·) = true := by decide
  simpa using List.all_eq_true.1 hall c h

theorem ResultForm.letters {result cs : List Char} (h : ResultForm result cs) :
    ∀ c ∈ cs, c ∈ typeLetters := by
  cases h with
  | void => exact fun _ hc => absurd hc List.not_mem_nil
  | single hc => exact List.forall_mem_singleton.2 hc
  | list hcs => exact hcs

/-- The results end in something that is no blank. -/
theorem ResultForm.exists_last {result cs : List Char} (h : ResultForm result cs) :
    ∃ init last, result = init ++ [last] ∧ Text.isBlank last = false := by
  cases h with
  | void => exact ⟨[], 'V', rfl, by decide⟩
  | single hc => exact ⟨[], _, rfl, isBlank_of_mem_typeLetters hc⟩
  | list => exact ⟨_, ']', rfl, by decide⟩

/-! ## Reading -/

variable {s s' : Signature} {text : String} {args returns : List ValueType}
  {core cs result : List Char}

theorem make_eq_ok_iff : make args returns = .ok s ↔ args = s.args ∧ returns = s.returns := by
  constructor
  · intro h
    unfold make at h
    split at h
    · cases h
    · cases h
    · obtain rfl := Except.ok.inj h
      exact ⟨rfl, rfl⟩
  · rintro ⟨rfl, rfl⟩
    exact make_args_returns s

theorem readTypes_eq_ok_iff : readTypes cs = .ok args ↔ cs = args.map ValueType.letter := by
  refine ⟨eq_letters_of_readTypes, ?_⟩
  rintro rfl
  exact readTypes_letters args

/-- The results that are read are those that are written, if native code can handle them. -/
theorem readReturns_eq_ok_iff (h : ∀ t ∈ returns, t.isNative = true) :
    readReturns result = .ok returns ↔ ResultForm result (returns.map ValueType.letter) := by
  constructor
  · intro hread
    unfold readReturns at hread
    split at hread
    · rename_i group
      split at hread
      · rename_i hlast
        obtain ⟨cs, rfl⟩ := List.getLast?_eq_some_iff.1 hlast
        rw [List.dropLast_concat, readTypes_eq_ok_iff] at hread
        rw [hread]
        exact .list (ValueType.letters_mem h)
      · cases hread
    · split at hread
      · cases hread
      · rename_i hvoid
        obtain rfl := Except.ok.inj hread
        rw [readTypes_eq_ok_iff.1 hvoid]
        exact .void
      · rename_i t _ hsingle
        obtain rfl := Except.ok.inj hread
        rw [readTypes_eq_ok_iff.1 hsingle]
        exact .single (ValueType.letters_mem h _ List.mem_cons_self)
      · cases hread
  · intro hform
    generalize hcs : returns.map ValueType.letter = cs at hform
    cases hform with
    | void =>
      obtain rfl := List.map_eq_nil_iff.1 hcs
      rfl
    | single hc =>
      obtain ⟨t, rfl, rfl⟩ := List.map_eq_singleton_iff.1 hcs
      have ht := h t List.mem_cons_self
      cases t with
      | object | void => cases ht
      | _ => rfl
    | list _ =>
      rw [← hcs]
      simp [readReturns, readTypes_letters]

/-- The lists that are read from a text without blanks around it. -/
theorem readLists_eq_ok_iff (h : ∀ t ∈ args, t.isNative = true)
    (h' : ∀ t ∈ returns, t.isNative = true) :
    readLists core = .ok (args, returns) ↔
      ∃ result, core = '(' :: args.map ValueType.letter ++ ')' :: result ∧
        ResultForm result (returns.map ValueType.letter) := by
  constructor
  · intro hread
    unfold readLists at hread
    split at hread
    · split at hread
      · cases hread
      · rename_i rest _ argChars result hcut
        obtain ⟨args', hargs, hread⟩ := exists_of_bind_eq_ok hread
        obtain ⟨returns', hreturns, hread⟩ := exists_of_bind_eq_ok hread
        obtain ⟨rfl, rfl⟩ := Prod.mk.inj (Except.ok.inj hread)
        refine ⟨result, ?_, (readReturns_eq_ok_iff h').1 hreturns⟩
        rw [Text.eq_of_cut hcut, readTypes_eq_ok_iff.1 hargs]
        rfl
    · cases hread
  · rintro ⟨result, rfl, hform⟩
    have hclosing : ')' ∉ args.map ValueType.letter := fun hmem =>
      absurd (ValueType.letters_mem h _ hmem) (by decide)
    rw [List.cons_append, readLists, Text.cut_append hclosing]
    simp only [readTypes_letters, (readReturns_eq_ok_iff h').2 hform]
    rfl

/-- Nothing but the blanks around a spelling is trimmed: it begins and ends with something else. -/
theorem trim_spelled {front back : List Char} (h : ∀ c ∈ front ++ back, Text.isBlank c = true)
    (hform : ResultForm result cs) :
    Text.trim (front ++ ('(' :: core ++ ')' :: result) ++ back) = '(' :: core ++ ')' :: result := by
  refine Text.trim_append_append h (List.cons_ne_nil _ _) ?_ ?_
  · intro c hc
    obtain rfl := Option.some.inj hc
    decide
  · obtain ⟨init, last, rfl, hlast⟩ := hform.exists_last
    intro c hc
    rw [← List.cons_append, ← List.append_assoc, List.getLast?_concat] at hc
    obtain rfl := Option.some.inj hc
    exact hlast

/-- **A text is read as a signature exactly if it spells it.** -/
theorem read_eq_ok_iff :
    read text = .ok s ↔
      Spells text.toList (s.args.map ValueType.letter) (s.returns.map ValueType.letter) := by
  have hlists := @readLists_eq_ok_iff s.args s.returns (Text.trim text.toList) s.args_native
    s.returns_native
  constructor
  · intro h
    rw [read] at h
    split at h
    · cases h
    · rename_i args returns hread
      obtain ⟨rfl, rfl⟩ := make_eq_ok_iff.1 h
      obtain ⟨result, hcore, hform⟩ := hlists.1 hread
      obtain ⟨front, back, htext, hblank⟩ := Text.eq_append_trim text.toList
      exact ⟨ValueType.letters_mem s.args_native, front, result, back, hcore ▸ htext, hblank, hform⟩
  · rintro ⟨_, front, result, back, htext, hblank, hform⟩
    have hcore : Text.trim text.toList =
        '(' :: s.args.map ValueType.letter ++ ')' :: result := by
      rw [htext]
      exact trim_spelled hblank hform
    rw [read, hlists.2 ⟨result, hcore, hform⟩]
    exact make_args_returns s

/-! ## Writing -/

/-- What is written is one of the forms. -/
theorem resultForm_returnChars (h : ∀ t ∈ returns, t.isNative = true) :
    ResultForm (returnChars returns) (returns.map ValueType.letter) := by
  have hletters := ValueType.letters_mem h
  match returns with
  | [] => exact .void
  | [t] => exact .single (hletters _ List.mem_cons_self)
  | _ :: _ :: _ => exact .list hletters

/-- All other forms are longer. -/
theorem ResultForm.eq_or_longer (h : ResultForm result (returns.map ValueType.letter)) :
    result = returnChars returns ∨ (returnChars returns).length < result.length := by
  generalize hcs : returns.map ValueType.letter = cs at h
  cases h with
  | void =>
    obtain rfl := List.map_eq_nil_iff.1 hcs
    exact .inl rfl
  | single _ =>
    obtain ⟨t, rfl, rfl⟩ := List.map_eq_singleton_iff.1 hcs
    exact .inl rfl
  | list _ =>
    subst hcs
    match returns with
    | [] => exact .inr (by decide)
    | [t] => exact .inr (by simp [returnChars])
    | _ :: _ :: _ => exact .inl rfl

theorem toList_toString (s : Signature) : (toString s).toList = s.chars := String.toList_ofList

/-- What is written spells the signature. -/
theorem spells_toString (s : Signature) :
    Spells (toString s).toList (s.args.map ValueType.letter) (s.returns.map ValueType.letter) where
  args_letters := ValueType.letters_mem s.args_native
  form := by
    refine ⟨[], returnChars s.returns, [], ?_, fun _ hc => absurd hc List.not_mem_nil,
      resultForm_returnChars s.returns_native⟩
    rw [toList_toString, chars, List.nil_append, List.append_nil]

/-- Every other spelling is longer. -/
theorem Spells.eq_or_longer
    (h : Spells text.toList (s.args.map ValueType.letter) (s.returns.map ValueType.letter)) :
    text = toString s ∨ (toString s).length < text.length := by
  obtain ⟨front, result, back, htext, _, hform⟩ := h.form
  have hlength : text.length =
      front.length + (s.args.length + result.length + 2) + back.length := by
    rw [← String.length_toList, htext]
    simp only [List.length_append, List.length_cons, List.length_map]
    omega
  have hshown : (toString s).length = s.args.length + (returnChars s.returns).length + 2 := by
    rw [← String.length_toList, toList_toString, chars]
    simp only [List.cons_append, List.length_append, List.length_cons, List.length_map]
    omega
  rcases hform.eq_or_longer with rfl | hlonger
  · by_cases hbare : front.length + back.length = 0
    · obtain rfl := List.length_eq_zero_iff.1 (Nat.eq_zero_of_add_eq_zero hbare).1
      obtain rfl := List.length_eq_zero_iff.1 (Nat.eq_zero_of_add_eq_zero hbare).2
      rw [List.nil_append, List.append_nil] at htext
      exact .inl (String.toList_inj.1 (htext.trans (toList_toString s).symm))
    · omega
  · omega

/-! ## Both together -/

/-- **The texts of signatures are those that the grammar spells**, and they stand for the letters in
their order.  What a signature is written as stands for that signature, and of all texts that do, it
is the shortest, and the only one of its length. -/
theorem follows_grammar (text : String) :
    ((∃ s, read text = .ok s) ↔ ∃ args returns, Spells text.toList args returns) ∧
    (∀ args returns, Spells text.toList args returns →
      ∃ s, read text = .ok s ∧
        s.args.map ValueType.letter = args ∧ s.returns.map ValueType.letter = returns) ∧
    (∀ args returns s, make args returns = .ok s →
      s.args = args ∧ s.returns = returns ∧ read (toString s) = .ok s) ∧
    ∀ s, read text = .ok s →
      read (toString s) = .ok s ∧
        ∀ other, read other = .ok s → other = toString s ∨ (toString s).length < other.length := by
  have hread : ∀ args returns, Spells text.toList args returns →
      ∃ s, read text = .ok s ∧
        s.args.map ValueType.letter = args ∧ s.returns.map ValueType.letter = returns := by
    intro args returns h
    obtain ⟨_, result, _, _, _, hform⟩ := h.form
    obtain ⟨ts, hts, rfl⟩ := ValueType.exists_of_letters h.args_letters
    obtain ⟨us, hus, rfl⟩ := ValueType.exists_of_letters hform.letters
    exact ⟨⟨ts, us, hts, hus⟩, read_eq_ok_iff.2 h, rfl, rfl⟩
  refine ⟨⟨?_, ?_⟩, hread, ?_, ?_⟩
  · rintro ⟨s, hs⟩
    exact ⟨_, _, read_eq_ok_iff.1 hs⟩
  · rintro ⟨args, returns, hspells⟩
    obtain ⟨s, hs, _⟩ := hread args returns hspells
    exact ⟨s, hs⟩
  · intro args returns s hmake
    obtain ⟨rfl, rfl⟩ := make_eq_ok_iff.1 hmake
    exact ⟨rfl, rfl, read_eq_ok_iff.2 (spells_toString s)⟩
  · intro s _
    exact ⟨read_eq_ok_iff.2 (spells_toString s),
      fun other hother => (read_eq_ok_iff.1 hother).eq_or_longer⟩

theorem follows_grammar_bracketed :
    ∃ s, read " (IJD)[J]\n" = .ok s ∧ s.returns = [.long] ∧ toString s = "(IJD)J" ∧
      read "(IJD)J" = .ok s := by
  have hspells : Spells " (IJD)[J]\n".toList ['I', 'J', 'D'] ['J'] := {
    args_letters := @ValueType.letters_mem [.int, .long, .double] (by decide)
    form := ⟨[' '], ['[', 'J', ']'], ['\n'], by decide, List.all_eq_true.1 (by decide),
      .list (@ValueType.letters_mem [.long] (by decide))⟩ }
  obtain ⟨_, hread, _, hshown⟩ := follows_grammar " (IJD)[J]\n"
  obtain ⟨s, hs, hargs, hreturns⟩ := hread _ _ hspells
  have hreturns : s.returns = [.long] := ValueType.map_letter_inj.1 hreturns
  have htext : toString s = "(IJD)J" := by
    rw [← String.toList_inj, toList_toString, chars, hargs, hreturns]
    decide
  exact ⟨s, hs, hreturns, htext, htext ▸ (hshown s hs).1⟩

/-- Different signatures are written differently... -/
theorem toString_inj : toString s = toString s' ↔ s = s' := by
  refine ⟨fun h => ?_, congrArg _⟩
  have hread := read_eq_ok_iff.2 (spells_toString s)
  rw [h, read_eq_ok_iff.2 (spells_toString s')] at hread
  exact (Except.ok.inj hread).symm

end Signature

/-- ...and so the names of stubs tell their signatures apart. -/
theorem Request.name_eq_iff {r r' : Request} : r.name = r'.name ↔ r.signature = r'.signature := by
  rw [← Signature.toString_inj]
  refine ⟨fun h => ?_, fun h => ?_⟩
  · have hchars := congrArg String.toList h
    simp only [name, String.toList_append] at hchars
    exact String.toList_inj.1 (List.append_cancel_left hchars)
  · rw [name, name, h]

end Trampoline
