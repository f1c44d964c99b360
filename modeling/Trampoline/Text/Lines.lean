/-!
# Cutting a text

Three ways to take a text apart: at the first occurrence of a separator (`cut`), at every one of
them (`splitAll`), and into lines (`lines`).  What a cut yields, put together again with the
separator between, is the text (`eq_of_cut`, `join_splitAll`).
-/

set_option autoImplicit false

namespace Trampoline.Text

/-- The text before the first `sep` and the text after it, or `none` if there is no `sep`. -/
def cut (sep : Char) : List Char → Option (List Char × List Char)
  | [] => none
  | c :: rest =>
    if c = sep then some ([], rest) else (cut sep rest).map fun (a, b) => (c :: a, b)

theorem eq_of_cut {sep : Char} {s a b : List Char} (h : cut sep s = some (a, b)) :
    s = a ++ sep :: b := by
  induction s generalizing a with
  | nil => cases h
  | cons c rest ih =>
    rw [cut] at h
    split at h
    · cases h; simp_all
    · obtain ⟨⟨a', b'⟩, hcut, heq⟩ := Option.map_eq_some_iff.mp h
      cases heq
      simp [ih hcut]

/-- A text is cut at the first separator. -/
theorem cut_append {sep : Char} {a b : List Char} (h : sep ∉ a) :
    cut sep (a ++ sep :: b) = some (a, b) := by
  induction a with
  | nil => simp [cut]
  | cons c rest ih =>
    rw [List.mem_cons, not_or] at h
    rw [List.cons_append, cut, if_neg (Ne.symm h.1), ih h.2]
    rfl

theorem cut_eq_none_iff {sep : Char} {s : List Char} : cut sep s = none ↔ sep ∉ s := by
  induction s with
  | nil => simp [cut]
  | cons c rest ih =>
    rw [cut]
    split
    · simp_all
    · rename_i hne
      simp [ih, Ne.symm hne]

/-- The pieces between the occurrences of `sep`: one more than there are of them. -/
def splitAll (sep : Char) : List Char → List (List Char)
  | [] => [[]]
  | c :: rest =>
    if c = sep then [] :: splitAll sep rest
    else
      match splitAll sep rest with
      | [] => [[c]]
      | piece :: pieces => (c :: piece) :: pieces

theorem splitAll_ne_nil (sep : Char) (s : List Char) : splitAll sep s ≠ [] := by
  cases s with
  | nil => simp [splitAll]
  | cons c rest =>
    rw [splitAll]
    split
    · simp
    · split <;> simp

theorem join_splitAll (sep : Char) (s : List Char) :
    [sep].intercalate (splitAll sep s) = s := by
  induction s with
  | nil => rfl
  | cons c rest ih =>
    rw [splitAll]
    have hne := splitAll_ne_nil sep rest
    split
    · rename_i heq
      cases hs : splitAll sep rest with
      | nil => exact absurd hs hne
      | cons piece pieces =>
        rw [hs] at ih
        simp [List.intercalate, List.intersperse, heq, ← ih]
    · cases hs : splitAll sep rest with
      | nil => exact absurd hs hne
      | cons piece pieces =>
        rw [hs] at ih
        cases pieces with
        | nil => simp_all [List.intercalate]
        | cons next more => simp_all [List.intercalate]

/-- The lines of a text.  A newline ends a line, so that a text which ends in one has no empty line
after it. -/
def lines (s : List Char) : List (List Char) :=
  let pieces := splitAll '\n' s
  if pieces.getLast? = some [] then pieces.dropLast else pieces

example : lines "a\n\nb".toList = ["a".toList, [], "b".toList] := by decide

example : lines "a\n".toList = ["a".toList] ∧ lines [] = [] := by decide

end Trampoline.Text
