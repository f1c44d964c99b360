import Mathlib.Data.List.DropRight
import Trampoline.Text.Blank
import Trampoline.Text.Lines
import Trampoline.Text.Numeral

/-!
# Texts taken apart

Reading a text means to cut it at separators, to trim the pieces, and to read numerals in what is
left.  What each of these does to a text that was put together from known parts is said here once.

* `splitAll_append` — a separator between two texts is a place where the pieces of the one end and
  those of the other begin.  `splitAll` is the library's `List.splitOn`, so this is known.
* `trim_append_cons` — whatever is around a character that is no blank, trimming stays on either
  side of it.  From this one equation follow the other laws of trimming.
* `readNumeral_toDigits` — a number that is written in decimal is read back.
-/

set_option autoImplicit false

namespace Trampoline.Text

/-! ## Separators -/

theorem splitAll_eq_splitOn (sep : Char) (s : List Char) : splitAll sep s = s.splitOn sep := by
  induction s with
  | nil => rfl
  | cons c rest ih =>
    rw [splitAll, List.splitOn_cons_eq_if_modifyHead, ih]
    by_cases h : c = sep
    · rw [if_pos h, if_pos (beq_iff_eq.2 h)]
    · rw [if_neg h, if_neg fun heq => h (beq_iff_eq.1 heq)]
      cases hrest : rest.splitOn sep with
      | nil => exact absurd hrest (List.splitOn_ne_nil _ _)
      | cons piece pieces => rfl

/-- Between two texts a separator ends a piece. -/
theorem splitAll_append (sep : Char) (a b : List Char) :
    splitAll sep (a ++ sep :: b) = splitAll sep a ++ splitAll sep b := by
  simp only [splitAll_eq_splitOn, List.splitOn_append_cons_self]

theorem splitAll_of_not_mem {sep : Char} {s : List Char} (h : sep ∉ s) : splitAll sep s = [s] := by
  rw [splitAll_eq_splitOn, List.splitOn_eq_singleton h]

/-- A line that is written in front of a text is its first line. -/
theorem lines_append {line : List Char} (h : '\n' ∉ line) (rest : List Char) :
    lines (line ++ '\n' :: rest) = line :: lines rest := by
  have hne := splitAll_ne_nil '\n' rest
  have hpieces : splitAll '\n' (line ++ '\n' :: rest) = line :: splitAll '\n' rest := by
    rw [splitAll_append, splitAll_of_not_mem h, List.singleton_append]
  rw [lines, lines, hpieces, List.getLast?_cons_of_ne_nil hne, List.dropLast_cons_of_ne_nil hne]
  split <;> rfl

/-! ## Blanks -/

variable {a b front back s : List Char} {c : Char}

theorem trimStart_append_cons (hc : isBlank c = false) :
    trimStart (a ++ c :: b) = trimStart a ++ c :: b := by
  rw [trimStart, List.dropWhile_append, List.dropWhile_cons_of_neg (by simp [hc])]
  split
  · rename_i hempty
    rw [trimStart, List.isEmpty_iff.1 hempty, List.nil_append]
  · rfl

theorem trimEnd_append_cons (hc : isBlank c = false) :
    trimEnd (a ++ c :: b) = a ++ c :: trimEnd b := by
  have hreverse : (a ++ c :: b).reverse = b.reverse ++ c :: a.reverse := by simp
  have hstart := trimStart_append_cons (a := b.reverse) (b := a.reverse) hc
  rw [trimStart, trimStart] at hstart
  rw [trimEnd, hreverse, hstart, trimEnd]
  simp

/-- Trimming stays on either side of a character that is no blank. -/
theorem trim_append_cons (hc : isBlank c = false) :
    trim (a ++ c :: b) = trimStart a ++ c :: trimEnd b := by
  rw [trim, trimStart_append_cons hc, trimEnd_append_cons hc]

theorem trimStart_of_blank (h : ∀ c ∈ front, isBlank c = true) : trimStart (front ++ s) =
    trimStart s :=
  List.dropWhile_append_of_pos h

theorem trimEnd_of_blank (h : ∀ c ∈ back, isBlank c = true) : trimEnd (s ++ back) = trimEnd s := by
  rw [trimEnd, List.reverse_append,
    List.dropWhile_append_of_pos fun c hc => h c (List.mem_reverse.1 hc), trimEnd]

theorem trim_eq_nil (h : ∀ c ∈ s, isBlank c = true) : trim s = [] := by
  have hstart : trimStart s = [] := List.dropWhile_eq_nil_iff.2 h
  rw [trim, hstart]
  rfl

/-- A text is blank, or has a first character that is not. -/
theorem blank_or_exists (s : List Char) :
    (∀ c ∈ s, isBlank c = true) ∨
      ∃ a c b, s = a ++ c :: b ∧ (∀ c ∈ a, isBlank c = true) ∧ isBlank c = false := by
  induction s with
  | nil => exact .inl fun c hc => absurd hc List.not_mem_nil
  | cons c rest ih =>
    cases hc : isBlank c with
    | false => exact .inr ⟨[], c, rest, rfl, fun c hc => absurd hc List.not_mem_nil, hc⟩
    | true =>
      rcases ih with h | ⟨a, d, b, rfl, ha, hd⟩
      · exact .inl (List.forall_mem_cons.2 ⟨hc, h⟩)
      · exact .inr ⟨c :: a, d, b, rfl, List.forall_mem_cons.2 ⟨hc, ha⟩, hd⟩

theorem trim_eq_nil_iff : trim s = [] ↔ ∀ c ∈ s, isBlank c = true := by
  refine ⟨fun h => ?_, trim_eq_nil⟩
  rcases blank_or_exists s with hblank | ⟨a, c, b, rfl, _, hc⟩
  · exact hblank
  · rw [trim_append_cons hc] at h
    exact absurd h (by simp)

/-- Blanks around a text do not count. -/
theorem trim_blanks (h : ∀ c ∈ front ++ back, isBlank c = true) :
    trim (front ++ s ++ back) = trim s := by
  rw [List.forall_mem_append] at h
  rcases blank_or_exists s with hs | ⟨a, c, b, rfl, _, hc⟩
  · rw [trim_eq_nil hs]
    refine trim_eq_nil ?_
    simp only [List.forall_mem_append]
    exact ⟨⟨h.1, hs⟩, h.2⟩
  · have hsplit : front ++ (a ++ c :: b) ++ back = (front ++ a) ++ c :: (b ++ back) := by simp
    rw [hsplit, trim_append_cons hc, trim_append_cons hc, trimStart_of_blank h.1,
      trimEnd_of_blank h.2]

theorem trim_trim (s : List Char) : trim (trim s) = trim s := by
  obtain ⟨front, back, hs, hblank⟩ := eq_append_trim s
  have htrim := trim_blanks (s := trim s) hblank
  rw [← hs] at htrim
  exact htrim.symm

theorem trim_trimStart (s : List Char) : trim (trimStart s) = trim s :=
  congrArg trimEnd (List.dropWhile_idempotent isBlank s)

theorem trim_trimEnd (s : List Char) : trim (trimEnd s) = trim s := by
  have hback : s = trimEnd s ++ (s.reverse.takeWhile isBlank).reverse := by
    rw [trimEnd, ← List.reverse_append, List.takeWhile_append_dropWhile, List.reverse_reverse]
  have hblank : ∀ c ∈ [] ++ (s.reverse.takeWhile isBlank).reverse, isBlank c = true := by
    intro c hc
    exact List.all_eq_true.1 List.all_takeWhile c (List.mem_reverse.1 hc)
  have htrim := trim_blanks (s := trimEnd s) hblank
  rw [List.nil_append, ← hback] at htrim
  exact htrim.symm

/-- A text that neither starts nor ends with a blank is left alone. -/
theorem trim_of_ends (hne : s ≠ []) (h : ∀ c ∈ s.head?, isBlank c = false)
    (h' : ∀ c ∈ s.getLast?, isBlank c = false) : trim s = s := by
  have htrim : trim ([] ++ s ++ []) = s :=
    trim_append_append (fun c hc => absurd hc List.not_mem_nil) hne h h'
  rwa [List.nil_append, List.append_nil] at htrim

theorem trim_of_forall (h : ∀ c ∈ s, isBlank c = false) : trim s = s := by
  by_cases hne : s = []
  · rw [hne]
    rfl
  · exact trim_of_ends hne (fun c hc => h c (List.mem_of_head? hc))
      fun c hc => h c (List.mem_of_getLast? hc)

theorem isBlank_of_mem_space (h : c ∈ [' ']) : isBlank c = true := by
  obtain rfl := List.mem_singleton.1 h
  rfl

theorem isBlank_of_isDigit (h : c.isDigit = true) : isBlank c = false := by
  have hrange : 48 ≤ c.toNat ∧ c.toNat ≤ 57 := by
    simpa [Char.isDigit, UInt32.le_iff_toNat_le] using h
  simp only [isBlank, Bool.or_eq_false_iff, Bool.and_eq_false_iff, decide_eq_false_iff_not,
    beq_eq_false_iff_ne]
  omega

/-! ## Numerals -/

theorem isBlank_of_mem_toDigits {n : Nat} (h : c ∈ Nat.toDigits 10 n) : isBlank c = false :=
  isBlank_of_isDigit (Nat.isDigit_of_mem_toDigits (by decide) (by decide) h)

theorem digit?_digitChar {d : Nat} (h : d < 10) : digit? 10 d.digitChar = some d := by
  have hall : ∀ d : Fin 10, digit? 10 d.val.digitChar = some d.val := by decide
  exact hall ⟨d, h⟩

theorem readDigits_concat {radix bound value n d : Nat} {digits : List Char}
    (h : readDigits radix bound value digits = .ok n) (hd : digit? radix c = some d)
    (hbound : n * radix + d < bound) :
    readDigits radix bound value (digits ++ [c]) = .ok (n * radix + d) := by
  induction digits generalizing value with
  | nil =>
    obtain rfl := Except.ok.inj h
    rw [List.nil_append, readDigits, hd]
    exact if_pos hbound
  | cons digit rest ih =>
    rw [readDigits] at h
    rw [List.cons_append, readDigits]
    cases hdigit : digit? radix digit with
    | none =>
      rw [hdigit] at h
      cases h
    | some e =>
      simp only [hdigit] at h ⊢
      split at h
      · rename_i hlt
        rw [if_pos hlt]
        exact ih h
      · cases h

theorem readDigits_toDigits {bound n : Nat} (h : n < bound) :
    readDigits 10 bound 0 (Nat.toDigits 10 n) = .ok n := by
  induction n using Nat.strongRecOn with
  | ind n ih =>
    by_cases hn : n < 10
    · rw [Nat.toDigits_of_lt_base hn, ← List.nil_append [n.digitChar]]
      have hread : readDigits 10 bound 0 ([] ++ [n.digitChar]) = .ok (0 * 10 + n) :=
        readDigits_concat rfl (digit?_digitChar hn) (by omega)
      rwa [Nat.zero_mul, Nat.zero_add] at hread
    · rw [Nat.toDigits_of_base_le (by decide) (by omega)]
      have hdigit := digit?_digitChar (Nat.mod_lt n (by decide : 0 < 10))
      have hread := readDigits_concat (ih (n / 10) (by omega) (by omega)) hdigit (by omega)
      rwa [Nat.mul_comm, Nat.div_add_mod] at hread

/-- There is nothing in a numeral but digits and a sign. -/
theorem mem_of_readNumeral {radix bound n : Nat} {text : List Char}
    (h : readNumeral radix bound text = .ok n) (hc : c ∈ text) :
    c = '+' ∨ (digit? radix c).isSome = true := by
  have hdigits : ∀ {value : Nat} {digits : List Char},
      readDigits radix bound value digits = .ok n → c ∈ digits → (digit? radix c).isSome := by
    intro value digits hread hmem
    fun_induction readDigits radix bound value digits with
    | case1 => cases hmem
    | case2 => cases hread
    | case3 value d rest digit hd hlt ih =>
      rcases List.mem_cons.1 hmem with rfl | hmem
      · rw [hd]
        rfl
      · exact ih hread hmem
    | case4 => cases hread
  unfold readNumeral at h
  split at h
  · cases h
  · cases h
  · exact (List.mem_cons.1 hc).imp_right (hdigits h)
  · exact .inr (hdigits h hc)

/-- A number that is written in decimal is read back, if it is below the bound. -/
theorem readNumeral_toDigits {bound n : Nat} (h : n < bound) :
    readNumeral 10 bound (Nat.toDigits 10 n) = .ok n := by
  have hread := readDigits_toDigits h
  have hdigits : ∀ c ∈ Nat.toDigits 10 n, c.isDigit = true := fun c hc =>
    Nat.isDigit_of_mem_toDigits (by decide) (by decide) hc
  unfold readNumeral
  split
  · exact absurd ‹_› Nat.toDigits_ne_nil
  · rename_i hplus
    exact absurd (hdigits '+' (hplus ▸ List.mem_cons_self)) (by decide)
  · rename_i hplus
    exact absurd (hdigits '+' (hplus ▸ List.mem_cons_self)) (by decide)
  · exact hread

end Trampoline.Text
