/-!
# Blanks

Descriptor files and register names are read with the white space around them removed.  White space
is Unicode's property of that name and so takes in more than the ASCII blanks: the no-break space
and the ideographic space count, a zero-width space does not.

Texts are lists of characters here, as everywhere a text is taken apart.
-/

set_option autoImplicit false

namespace Trampoline.Text

/-- The code points with Unicode's property `White_Space`. -/
def isBlank (c : Char) : Bool :=
  let n := c.toNat
  (0x9 ≤ n && n ≤ 0xD) || n == 0x20 || n == 0x85 || n == 0xA0 || n == 0x1680 ||
    (0x2000 ≤ n && n ≤ 0x200A) || n == 0x2028 || n == 0x2029 || n == 0x202F || n == 0x205F ||
    n == 0x3000

example : isBlank '\u000b' && isBlank '\u00a0' && isBlank '\u3000' = true := by decide

example : isBlank '\u200b' || isBlank '\ufeff' || isBlank 'x' = false := by decide

theorem isBlank_of_isWhitespace {c : Char} (h : c.isWhitespace = true) : isBlank c = true := by
  simp only [Char.isWhitespace, Bool.or_eq_true, decide_eq_true_eq] at h
  rcases h with ((rfl | rfl) | rfl) | rfl <;> decide

/-- The text without the blanks in front. -/
def trimStart (s : List Char) : List Char := s.dropWhile isBlank

/-- The text without the blanks behind. -/
def trimEnd (s : List Char) : List Char := (s.reverse.dropWhile isBlank).reverse

/-- The text without the blanks around it. -/
def trim (s : List Char) : List Char := trimEnd (trimStart s)

/-- Trimming takes off blanks, and nothing else. -/
theorem eq_append_trim (s : List Char) :
    ∃ front back, s = front ++ trim s ++ back ∧ ∀ c ∈ front ++ back, isBlank c = true := by
  have hstart : s.takeWhile isBlank ++ trimStart s = s := List.takeWhile_append_dropWhile
  have hback : trimEnd (trimStart s) ++ ((trimStart s).reverse.takeWhile isBlank).reverse =
      trimStart s := by
    rw [trimEnd, ← List.reverse_append, List.takeWhile_append_dropWhile, List.reverse_reverse]
  refine ⟨s.takeWhile isBlank, ((trimStart s).reverse.takeWhile isBlank).reverse, ?_, ?_⟩
  · rw [trim, List.append_assoc, hback, hstart]
  · intro c hc
    rcases List.mem_append.1 hc with hc | hc
    · exact List.all_eq_true.1 List.all_takeWhile c hc
    · exact List.all_eq_true.1 List.all_takeWhile c (List.mem_reverse.1 hc)

/-- A text that neither starts nor ends with a blank is what is left of it among blanks. -/
theorem trim_append_append {front s back : List Char}
    (hblank : ∀ c ∈ front ++ back, isBlank c = true) (hne : s ≠ [])
    (h : ∀ c ∈ s.head?, isBlank c = false) (h' : ∀ c ∈ s.getLast?, isBlank c = false) :
    trim (front ++ s ++ back) = s := by
  rw [List.forall_mem_append] at hblank
  have hstart : trimStart (front ++ s ++ back) = s ++ back := by
    rw [trimStart, List.append_assoc, List.dropWhile_append_of_pos hblank.1]
    cases s with
    | nil => exact absurd rfl hne
    | cons c rest => rw [List.cons_append, List.dropWhile_cons_of_neg (by simp [h c rfl])]
  rw [trim, hstart, trimEnd, List.reverse_append,
    List.dropWhile_append_of_pos fun c hc => hblank.2 c (List.mem_reverse.1 hc)]
  cases hr : s.reverse with
  | nil => exact absurd (List.reverse_eq_nil_iff.1 hr) hne
  | cons c rest =>
    have hc : isBlank c = false := h' c (by rw [← List.head?_reverse, hr]; rfl)
    rw [List.dropWhile_cons_of_neg (by simp [hc]), ← hr, List.reverse_reverse]

end Trampoline.Text
