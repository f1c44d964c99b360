import Mathlib.Algebra.Group.Int.Defs
import Mathlib.Algebra.Group.Nat.Defs
import Trampoline.Machine.Memory

/-!
# Rows of bytes in memory

What a piece of code reads, writes or leaves alone in memory is said here in terms of an `Extent`: a
row of bytes from an address on.  Whether an address lies in it is a question about its distance
from the start, and distances wrap as addresses do; so an extent may run past the last address, and
nothing in this development has to assume that it does not.

* `mem_at_iff` places an extent relative to a base, which turns "these two do not overlap" into
  arithmetic on distances from the base.
* `readWord_writeWord` and its like say what a read finds after a write, `readWord_congr` and its
  like that a read depends on the bytes in its extent only.
-/

set_option autoImplicit false

namespace Trampoline

/-- So many bytes from an address on. -/
structure Extent where
  start : Word
  size : Nat

instance : Membership Word Extent := ⟨fun e a => (a - e.start).toNat < e.size⟩

namespace Extent

theorem mem_iff {x a : Word} {n : Nat} : x ∈ (⟨a, n⟩ : Extent) ↔ (x - a).toNat < n := Iff.rfl

/-- The extent of a word. -/
def word (a : Word) : Extent := ⟨a, 8⟩

/-- The extent of a vector. -/
def quad (a : Word) : Extent := ⟨a, 16⟩

/-- No address lies in both. -/
def Apart (e f : Extent) : Prop := ∀ a, a ∈ e → a ∉ f

theorem Apart.of_subset {e f g : Extent} (h : e.Apart f) (hg : ∀ a ∈ g, a ∈ f) : e.Apart g :=
  fun a he hmem => h a he (hg a hmem)

/-- Membership in an extent at a distance from a base, in terms of distances from the base. -/
theorem mem_at_iff {a base : Word} {offset size : Nat} (h : offset + size ≤ 2 ^ 64) :
    a ∈ (⟨base + BitVec.ofNat 64 offset, size⟩ : Extent) ↔
      offset ≤ (a - base).toNat ∧ (a - base).toNat < offset + size := by
  have hd := (a - base).isLt
  rw [mem_iff, ← BitVec.sub_sub, BitVec.toNat_sub, BitVec.toNat_ofNat]
  generalize (a - base).toNat = d at hd ⊢
  rcases Nat.lt_or_ge d offset with hlt | hge
  · rcases Nat.eq_or_lt_of_le (show offset ≤ 2 ^ 64 by omega) with heq | hoff
    · rw [heq, Nat.mod_self]
      omega
    · rw [Nat.mod_eq_of_lt hoff, Nat.mod_eq_of_lt (by omega)]
      omega
  · rw [Nat.mod_eq_of_lt (show offset < 2 ^ 64 by omega)]
    omega

theorem word_eq (a : Word) : word a = ⟨a + BitVec.ofNat 64 0, 8⟩ := by
  rw [word, BitVec.add_zero]

/-- Two words, one behind the other, are the two halves of what they make together. -/
theorem mem_pair_iff {x a : Word} :
    x ∈ (⟨a, 16⟩ : Extent) ↔ x ∈ word a ∨ x ∈ word (a + 8) := by
  have hword : word (a + 8) = ⟨a + BitVec.ofNat 64 8, 8⟩ := rfl
  rw [word_eq, hword, mem_at_iff (by decide), mem_at_iff (by decide), mem_iff]
  omega

theorem apart_next (a : Word) : (word a).Apart (word (a + 8)) := by
  have hword : word (a + 8) = ⟨a + BitVec.ofNat 64 8, 8⟩ := rfl
  intro x hx
  rw [word_eq, mem_at_iff (by decide)] at hx
  rw [hword, mem_at_iff (by decide)]
  omega

/-- Two extents are apart if each begins no earlier than where the other one ends. -/
theorem apart_of_le {e f : Extent} (h : e.size ≤ (f.start - e.start).toNat)
    (h' : f.size ≤ (e.start - f.start).toNat) : e.Apart f := by
  intro a ha ha'
  change (a - e.start).toNat < e.size at ha
  change (a - f.start).toNat < f.size at ha'
  bv_omega

theorem start_mem {e : Extent} (h : 0 < e.size) : e.start ∈ e := by
  change (e.start - e.start).toNat < e.size
  rwa [BitVec.sub_self]

/-- Two extents are apart exactly if one of them is empty or each begins no earlier than where the
other one ends. -/
theorem apart_iff {e f : Extent} : e.Apart f ↔ e.size = 0 ∨ f.size = 0 ∨
    e.size ≤ (f.start - e.start).toNat ∧ f.size ≤ (e.start - f.start).toNat := by
  constructor
  · intro h
    rcases Nat.eq_zero_or_pos e.size with he | he
    · exact Or.inl he
    · rcases Nat.eq_zero_or_pos f.size with hf | hf
      · exact Or.inr (Or.inl hf)
      · refine Or.inr (Or.inr ⟨Nat.le_of_not_lt fun hlt => ?_, Nat.le_of_not_lt fun hlt => ?_⟩)
        · exact h f.start hlt (start_mem hf)
        · exact h e.start (start_mem he) hlt
  · rintro (he | hf | ⟨h, h'⟩)
    · intro a ha
      exact absurd (he ▸ ha : (a - e.start).toNat < 0) (Nat.not_lt_zero _)
    · intro a _ ha
      exact absurd (hf ▸ ha : (a - f.start).toNat < 0) (Nat.not_lt_zero _)
    · exact apart_of_le h h'

instance (e f : Extent) : Decidable (e.Apart f) := decidable_of_iff' _ apart_iff

end Extent

namespace Memory

variable {m m' : Memory} {a b x : Word}

/-! ## Bytes after writes -/

/-- The distance from the next address is one less, unless there was none. -/
theorem toNat_sub_add_one {x a : Word} (h : x ≠ a) :
    (x - (a + 1)).toNat = (x - a).toNat - 1 ∧ (x - a).toNat ≠ 0 := by
  have hne : (x - a).toNat ≠ 0 := by
    intro h0
    refine h (BitVec.eq_of_toNat_eq ?_)
    rw [BitVec.toNat_sub] at h0
    have hx := x.isLt
    have ha := a.isLt
    omega
  refine ⟨?_, hne⟩
  have hd := (x - a).isLt
  have hone : (1 : Word).toNat = 1 := rfl
  rw [← BitVec.sub_sub, BitVec.toNat_sub, hone]
  omega

theorem byte_setBytes {bs : List Byte} (h : bs.length ≤ 2 ^ 64) :
    (m.setBytes a bs).byte x = bs[(x - a).toNat]?.getD (m.byte x) := by
  induction bs generalizing m a with
  | nil => rfl
  | cons b rest ih =>
    rw [List.length_cons] at h
    rw [setBytes, ih (by omega), byte_setByte]
    by_cases hx : x = a
    · subst hx
      have hlast : (x - (x + 1)).toNat = 2 ^ 64 - 1 := by
        rw [← BitVec.sub_sub, BitVec.sub_self]
        rfl
      rw [if_pos rfl, hlast, List.getElem?_eq_none (by omega), BitVec.sub_self]
      rfl
    · obtain ⟨hpred, hne⟩ := toNat_sub_add_one hx
      obtain ⟨k, hk⟩ := Nat.exists_eq_succ_of_ne_zero hne
      rw [if_neg hx, hpred, hk, List.getElem?_cons_succ, Nat.succ_sub_one]

theorem byte_setBytes_of_not_mem {bs : List Byte} (h : bs.length ≤ 2 ^ 64)
    (hx : x ∉ (⟨a, bs.length⟩ : Extent)) : (m.setBytes a bs).byte x = m.byte x := by
  rw [byte_setBytes h, List.getElem?_eq_none (Nat.not_lt.1 hx), Option.getD_none]

theorem byte_writeWord_of_not_mem {v : Word} (hx : x ∉ Extent.word a) :
    (m.writeWord a v).byte x = m.byte x :=
  byte_setBytes_of_not_mem (by simp) (by simpa [Extent.word] using hx)

theorem byte_writeQuad_of_not_mem {v : Quad} (hx : x ∉ Extent.quad a) :
    (m.writeQuad a v).byte x = m.byte x :=
  byte_setBytes_of_not_mem (by simp) (by simpa [Extent.quad] using hx)

/-! ## Reads -/

theorem bytesAt_congr {n : Nat} (h : ∀ x ∈ (⟨a, n⟩ : Extent), m.byte x = m'.byte x) :
    m.bytesAt a n = m'.bytesAt a n := by
  induction n generalizing a with
  | zero => rfl
  | succ n ih =>
    have hfirst : a ∈ (⟨a, n + 1⟩ : Extent) := by simp [Extent.mem_iff]
    rw [bytesAt, bytesAt, h a hfirst, ih]
    intro x hx
    rw [Extent.mem_iff] at hx
    by_cases heq : x = a
    · exact heq ▸ h a hfirst
    · obtain ⟨hpred, hne⟩ := toNat_sub_add_one heq
      have hmem : x ∈ (⟨a, n + 1⟩ : Extent) := by
        rw [Extent.mem_iff]
        omega
      exact h x hmem

theorem readWord_congr (h : ∀ x ∈ Extent.word a, m.byte x = m'.byte x) :
    m.readWord a = m'.readWord a := by
  rw [readWord, readWord, bytesAt_congr h]

theorem readQuad_congr (h : ∀ x ∈ Extent.quad a, m.byte x = m'.byte x) :
    m.readQuad a = m'.readQuad a := by
  rw [readQuad, readQuad, bytesAt_congr h]

/-- Bytes that were written are read back. -/
theorem bytesAt_setBytes {bs : List Byte} (h : bs.length ≤ 2 ^ 64) :
    (m.setBytes a bs).bytesAt a bs.length = bs := by
  induction bs generalizing m a with
  | nil => rfl
  | cons b rest ih =>
    rw [List.length_cons] at h
    rw [List.length_cons, bytesAt, setBytes, ih (by omega), byte_setBytes_of_not_mem (by omega),
      byte_setByte, if_pos rfl]
    have hlast : (a - (a + 1)).toNat = 2 ^ 64 - 1 := by
      rw [← BitVec.sub_sub, BitVec.sub_self]
      rfl
    rw [Extent.mem_iff, hlast]
    omega

@[simp] theorem readWord_writeWord (m : Memory) (a v : Word) :
    (m.writeWord a v).readWord a = v := by
  have h := @bytesAt_setBytes m a (littleEndian 8 v.toNat) (by simp)
  rw [length_littleEndian] at h
  rw [readWord, writeWord, h, ofLittleEndian_littleEndian]
  simp

@[simp] theorem readQuad_writeQuad (m : Memory) (a : Word) (v : Quad) :
    (m.writeQuad a v).readQuad a = v := by
  have h := @bytesAt_setBytes m a (littleEndian 16 v.toNat) (by simp)
  rw [length_littleEndian] at h
  rw [readQuad, writeQuad, h, ofLittleEndian_littleEndian]
  simp

/-- A word elsewhere is not affected by a write. -/
theorem readWord_writeWord_of_apart {v : Word} (h : (Extent.word b).Apart (Extent.word a)) :
    (m.writeWord a v).readWord b = m.readWord b :=
  readWord_congr fun x hx => byte_writeWord_of_not_mem (h x hx)

end Memory

end Trampoline
