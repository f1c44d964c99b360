import Trampoline.Proofs.Stub.Generation

/-!
# Registers that sit out a call

What the code for a save area does when it is executed.  Storing puts every register into its slot
and touches no byte outside of the area (`executeAll_stores`); loading puts what the slots hold into
the registers and touches no other register (`executeAll_loads`).  Neither says anything about the
other, since between the two a call may have changed almost everything.

The loads are stated for any list of registers and offsets: the return buffer is read with the same
instructions, at the same offsets, but one word at a time.
-/

set_option autoImplicit false

namespace Trampoline

/-! ## One register -/

namespace Keep

variable (keep : Keep)

/-- What is left of the content of a register that is kept. -/
def trim : Quad → Quad :=
  match keep with
  | whole => id
  | low => fun v => (v.setWidth 64).setWidth 128

/-- A general register is no more than a word, so it is kept whole in either way. -/
theorem trim_of_isGeneral {c : Cpu} {r : Register} (h : r.isGeneral = true) :
    keep.trim (c.register r) = c.register r := by
  cases keep with
  | whole => rfl
  | low => exact (Cpu.register_of_isGeneral h).symm

/-- What a register is going to hold that is loaded from an address. -/
def read (m : Memory) (a : Word) (r : Register) : Quad :=
  match keep, r.bank with
  | whole, .vector => m.readQuad a
  | _, _ => (m.readWord a).setWidth 128

/-- No slot is smaller than a word... -/
theorem le_width (r : Register) : 8 ≤ keep.width r := by
  obtain ⟨bank, i⟩ := r
  cases keep <;> cases bank <;> simp [width]

/-- ...or larger than two. -/
theorem width_le (r : Register) : keep.width r ≤ 16 := by
  obtain ⟨bank, i⟩ := r
  cases keep <;> cases bank <;> simp [width]

variable {keep} {m m' : Memory} {a x : Word} {r : Register} {base : RegIndex} {imm : Imm}
  {w : Wiring} {c : Cpu}

/-- What is loaded depends on the bytes of the slot only. -/
theorem read_congr (h : ∀ x ∈ (⟨a, keep.width r⟩ : Extent), m.byte x = m'.byte x) :
    keep.read m a r = keep.read m' a r := by
  obtain ⟨bank, i⟩ := r
  cases keep <;> cases bank <;> simp only [read]
  · rw [Memory.readWord_congr h]
  · rw [Memory.readQuad_congr h]
  · rw [Memory.readWord_congr h]
  · rw [Memory.readWord_congr h]

/-- A store changes memory only, in the slot only, and puts there what is kept of the register. -/
theorem execute_store :
    ∃ memory, c.execute w (keep.store r base imm) = { c with memory } ∧
      (∀ x ∉ (⟨c.address base imm, keep.width r⟩ : Extent), memory.byte x = c.memory.byte x) ∧
      keep.read memory (c.address base imm) r = keep.trim (c.register r) := by
  obtain ⟨bank, i⟩ := r
  have hword : ∀ v, ∀ x ∉ (⟨c.address base imm, 8⟩ : Extent),
      (c.memory.writeWord (c.address base imm) v).byte x = c.memory.byte x :=
    fun v x hx => Memory.byte_writeWord_of_not_mem hx
  cases keep <;> cases bank
  · refine ⟨_, rfl, hword _, ?_⟩
    simp only [read, Memory.readWord_writeWord, trim, id_eq]
    exact (Cpu.register_of_isGeneral rfl).symm
  · refine ⟨_, rfl, fun x hx => Memory.byte_writeQuad_of_not_mem hx, ?_⟩
    simp only [read, Memory.readQuad_writeQuad, trim, id_eq]
    rfl
  · refine ⟨_, rfl, hword _, ?_⟩
    simp only [read, Memory.readWord_writeWord, trim]
    rfl
  · refine ⟨_, rfl, hword _, ?_⟩
    simp only [read, Memory.readWord_writeWord, trim]
    rfl

theorem execute_load :
    c.execute w (keep.load r base imm) =
      c.setRegister r (keep.read c.memory (c.address base imm) r) := by
  obtain ⟨bank, i⟩ := r
  cases keep <;> cases bank <;> simp only [load, read, Cpu.execute, Cpu.setVector_eq_setRegister]

/-- A register that exists holds what was loaded. -/
theorem register_setRegister_read (h : r.index.toNat < bankSize) :
    (c.setRegister r (keep.read m a r)).register r = keep.read m a r := by
  rw [Cpu.register_setRegister _ _ _ h]
  obtain ⟨bank, i⟩ := r
  cases bank with
  | vector => rfl
  | general =>
    have hread : keep.read m a (.general i) = (m.readWord a).setWidth 128 := by
      cases keep <;> rfl
    rw [hread, if_pos (by rfl), setWidth_setWidth_word]

theorem store_plain : (keep.store r base imm).isPlain = true ∧
    (keep.store r base imm).isSteady = true ∧ (keep.store r base imm).written = [] := by
  obtain ⟨bank, i⟩ := r
  cases keep <;> cases bank <;> exact ⟨rfl, rfl, rfl⟩

theorem load_plain : (keep.load r base imm).isPlain = true ∧
    (keep.load r base imm).isSteady = true ∧ (keep.load r base imm).isStore = false ∧
    (keep.load r base imm).written = [r] := by
  obtain ⟨bank, i⟩ := r
  cases keep <;> cases bank <;> exact ⟨rfl, rfl, rfl, rfl⟩

end Keep

/-! ## Instructions at offsets from a base -/

namespace Draft

variable {α : Type} {offset : α → Int} {i : α → Imm → Instruction} {x : α} {xs : List α}
  {ins : Instruction}

/-- The first of several instructions with their offsets. -/
theorem code_addressed_cons
    (h : Complete ((x :: xs).map fun x => addressed (offset x) (i x))) :
    ∃ imm, Imm.ofInt? (offset x) = some imm ∧
      code ((x :: xs).map fun x => addressed (offset x) (i x)) =
        i x imm :: code (xs.map fun x => addressed (offset x) (i x)) ∧
      Complete (xs.map fun x => addressed (offset x) (i x)) := by
  rw [List.map_cons, complete_cons] at h
  obtain ⟨⟨is, his⟩, hrest⟩ := h
  obtain ⟨imm, himm, rfl⟩ := addressed_eq_ok_iff.1 his
  refine ⟨imm, himm, ?_, hrest⟩
  rw [List.map_cons, his, code_cons_ok]
  rfl

theorem mem_code_addressed
    (h : ins ∈ code (xs.map fun x => addressed (offset x) (i x))) :
    ∃ x ∈ xs, ∃ imm, Imm.ofInt? (offset x) = some imm ∧ ins = i x imm := by
  obtain ⟨piece, hpiece, hins⟩ := List.mem_flatMap.1 h
  obtain ⟨x, hx, rfl⟩ := List.mem_map.1 hpiece
  cases his : addressed (offset x) (i x) with
  | error e =>
    rw [his] at hins
    cases hins
  | ok is =>
    obtain ⟨imm, himm, rfl⟩ := addressed_eq_ok_iff.1 his
    rw [his] at hins
    exact ⟨x, hx, imm, himm, List.mem_singleton.1 hins⟩

/-- Offsets that are small enough are immediates. -/
theorem complete_addressed {offset : α → Nat} (h : ∀ x ∈ xs, offset x < 2 ^ 31) :
    Complete (xs.map fun x => addressed (offset x) (i x)) := by
  intro piece hpiece
  obtain ⟨x, hx, rfl⟩ := List.mem_map.1 hpiece
  obtain ⟨imm, himm⟩ := immediate_of_lt (Int.natCast_nonneg _) (mod_cast h x hx)
  exact ⟨[i x imm], addressed_eq_ok_iff.2 ⟨imm, immediate_eq_ok_iff.1 himm, rfl⟩⟩

end Draft

/-! ## All registers of an area -/

namespace SaveArea

variable {keep : Keep} {base : RegIndex} {w : Wiring} {c : Cpu} {offset start : Nat}
  {regs : List Register} {pairs : List (Register × Nat)}

/-- The bytes that registers take together. -/
theorem slot_of_mem_slotsFrom {p : Register × Nat} (h : p ∈ slotsFrom keep start regs) :
    start ≤ p.2 ∧ p.2 + keep.width p.1 ≤ start + total keep.width regs := by
  induction regs generalizing start with
  | nil => cases h
  | cons r rest ih =>
    rw [total_cons]
    rcases List.mem_cons.1 h with rfl | h
    · exact ⟨Nat.le_refl _, by simp only; omega⟩
    · have := ih h
      omega

/-- Slots lie one behind the other. -/
theorem pairwise_slotsFrom :
    (slotsFrom keep start regs).Pairwise fun p q => p.2 + keep.width p.1 ≤ q.2 := by
  induction regs generalizing start with
  | nil => exact List.Pairwise.nil
  | cons r rest ih => exact List.pairwise_cons.2 ⟨fun q hq => (slot_of_mem_slotsFrom hq).1, ih⟩

theorem map_fst_slotsFrom : (slotsFrom keep start regs).map Prod.fst = regs := by
  induction regs generalizing start with
  | nil => rfl
  | cons r rest ih => rw [slotsFrom, List.map_cons, ih]

/-- The code that stores registers one behind the other. -/
def storeDraft (keep : Keep) (base : RegIndex) (offset : Nat) (pairs : List (Register × Nat)) :
    Draft :=
  pairs.map fun p => addressed ↑(offset + p.2) (keep.store p.1 base)

/-- The code that loads registers. -/
def loadDraft (keep : Keep) (base : RegIndex) (offset : Nat) (pairs : List (Register × Nat)) :
    Draft :=
  pairs.map fun p => addressed ↑(offset + p.2) (keep.load p.1 base)

theorem mem_storeDraft {i : Instruction} (h : i ∈ (storeDraft keep base offset pairs).code) :
    i.isPlain = true ∧ i.isSteady = true ∧ i.written = [] := by
  obtain ⟨p, _, imm, _, rfl⟩ := Draft.mem_code_addressed h
  exact Keep.store_plain

theorem mem_loadDraft {i : Instruction} (h : i ∈ (loadDraft keep base offset pairs).code) :
    i.isPlain = true ∧ i.isSteady = true ∧ i.isStore = false ∧
      ∃ p ∈ pairs, i.written = [p.1] := by
  obtain ⟨p, hp, imm, _, rfl⟩ := Draft.mem_code_addressed h
  obtain ⟨hplain, hsteady, hstore, hwritten⟩ := @Keep.load_plain keep p.1 base imm
  exact ⟨hplain, hsteady, hstore, p, hp, hwritten⟩

/-- **Storing registers** changes memory only, in the area only, and leaves in every slot what is
kept of its register. -/
theorem executeAll_stores
    (h : (storeDraft keep base offset (slotsFrom keep start regs)).Complete)
    (hfit : offset + start + total keep.width regs ≤ 2 ^ 64) :
    ∃ memory,
      c.executeAll w (storeDraft keep base offset (slotsFrom keep start regs)).code =
        { c with memory } ∧
      (∀ x ∉ (⟨c.general base + BitVec.ofNat 64 (offset + start),
          total keep.width regs⟩ : Extent), memory.byte x = c.memory.byte x) ∧
      ∀ p ∈ slotsFrom keep start regs,
        keep.read memory (c.general base + BitVec.ofNat 64 (offset + p.2)) p.1 =
          keep.trim (c.register p.1) := by
  induction regs generalizing c start with
  | nil => exact ⟨c.memory, rfl, fun _ _ => rfl, fun p hp => absurd hp List.not_mem_nil⟩
  | cons r rest ih =>
    obtain ⟨imm, himm, hcode, hrest⟩ := Draft.code_addressed_cons h
    obtain ⟨first, hfirst, houtside, hslot⟩ :=
      @Keep.execute_store keep r base imm w c
    rw [Cpu.address_of_ofInt? himm, BitVec.ofInt_natCast] at houtside hslot
    rw [total_cons] at hfit ⊢
    obtain ⟨memory, hmemory, hbytes, hslots⟩ :=
      ih (c := { c with memory := first }) hrest (by omega)
    change ∀ x ∉ (⟨c.general base + _, _⟩ : Extent), _ at hbytes
    refine ⟨memory, ?_, ?_, ?_⟩
    · rw [storeDraft, slotsFrom, hcode, Cpu.executeAll_cons, hfirst]
      exact hmemory
    · intro x hx
      rw [Extent.mem_at_iff (by omega)] at hx
      rw [hbytes x, houtside x]
      · rw [Extent.mem_at_iff (by omega)]
        omega
      · rw [Extent.mem_at_iff (by omega)]
        omega
    · intro p hp
      rcases List.mem_cons.1 hp with rfl | hp
      · -- the slots of the other registers are behind this one
        refine (Keep.read_congr fun x hx => hbytes x ?_).trans hslot
        change x ∈ (⟨_, keep.width r⟩ : Extent) at hx
        rw [Extent.mem_at_iff (by omega)] at hx
        rw [Extent.mem_at_iff (by omega)]
        omega
      · exact hslots p hp

/-- What a register is going to hold that is loaded from its slot. -/
def slotValue (keep : Keep) (base : RegIndex) (offset : Nat) (c : Cpu) (p : Register × Nat) :
    Quad :=
  keep.read c.memory (c.general base + BitVec.ofNat 64 (offset + p.2)) p.1

/-- **Loading registers** leaves in each of them what its slot holds.  A register that is loaded
twice has to be given the same both times, and the base what it has. -/
theorem executeAll_loads (h : (loadDraft keep base offset pairs).Complete)
    (hexist : ∀ p ∈ pairs, p.1.index.toNat < bankSize)
    (hagree : ∀ p ∈ pairs, ∀ q ∈ pairs, p.1 = q.1 →
      slotValue keep base offset c p = slotValue keep base offset c q)
    (hbase : ∀ p ∈ pairs, p.1 = .general base →
      slotValue keep base offset c p = c.register (.general base)) :
    ∀ p ∈ pairs,
      (c.executeAll w (loadDraft keep base offset pairs).code).register p.1 =
        slotValue keep base offset c p := by
  induction pairs generalizing c with
  | nil => exact fun p hp => absurd hp List.not_mem_nil
  | cons q rest ih =>
    obtain ⟨imm, himm, hcode, hrest⟩ := Draft.code_addressed_cons h
    obtain ⟨loaded, hloaded⟩ : ∃ loaded, loaded = c.setRegister q.1
      (slotValue keep base offset c q) := ⟨_, rfl⟩
    have hload : c.execute w (keep.load q.1 base imm) = loaded := by
      rw [hloaded, Keep.execute_load, Cpu.address_of_ofInt? himm, BitVec.ofInt_natCast, slotValue]
    have hfirst : loaded.register q.1 = slotValue keep base offset c q := by
      rw [hloaded, slotValue, Keep.register_setRegister_read (hexist q List.mem_cons_self)]
    -- the slots are where they were, even if the base has been loaded
    have hregister : loaded.register (.general base) = c.register (.general base) := by
      by_cases heq : q.1 = .general base
      · rw [← heq, hfirst, hbase q List.mem_cons_self heq, heq]
      · rw [hloaded, Cpu.register_setRegister_ne (Ne.symm heq)]
    have hsame : ∀ p, slotValue keep base offset loaded p = slotValue keep base offset c p := by
      intro p
      rw [slotValue, Cpu.general_eq_of_register hregister, hloaded, Cpu.memory_setRegister,
        slotValue]
    have hlater : ∀ p ∈ rest,
        (loaded.executeAll w (loadDraft keep base offset rest).code).register p.1 =
          slotValue keep base offset c p := by
      intro p hp
      rw [ih (c := loaded) hrest (fun p hp => hexist p (List.mem_cons_of_mem _ hp)) ?_ ?_ p hp,
        hsame]
      · intro p hp p' hp' heq
        rw [hsame, hsame]
        exact hagree p (List.mem_cons_of_mem _ hp) p' (List.mem_cons_of_mem _ hp') heq
      · intro p hp heq
        rw [hsame, hregister]
        exact hbase p (List.mem_cons_of_mem _ hp) heq
    intro p hp
    rw [loadDraft, hcode, Cpu.executeAll_cons, hload]
    rcases List.mem_cons.1 hp with rfl | hp
    · by_cases hagain : p.1 ∈ rest.map Prod.fst
      · obtain ⟨p', hp', heq⟩ := List.mem_map.1 hagain
        have hlast := hlater p' hp'
        rw [hagree p' (List.mem_cons_of_mem _ hp') p List.mem_cons_self heq, heq] at hlast
        exact hlast
      · -- the later loads leave the register alone
        rw [Cpu.register_executeAll, hfirst]
        intro i hi
        obtain ⟨_, hsteady, _, p', hp', hwritten⟩ := mem_loadDraft hi
        refine ⟨hsteady, ?_⟩
        rw [hwritten, List.mem_singleton]
        exact fun heq => hagain (heq ▸ List.mem_map_of_mem hp')
    · exact hlater p hp

/-! ## An area as a whole -/

variable {a : SaveArea} {m m' : Memory} {address : Word} {before : Cpu} {r : Register}

theorem slot_lt {p : Register × Nat} (hp : p ∈ a.slots) : p.2 < a.bytes := by
  have hslot := (slot_of_mem_slotsFrom hp).2
  have hwidth := a.keep.le_width p.1
  rw [bytes]
  omega

/-- The registers of an area can be stored and reloaded if the area ends where offsets fit. -/
theorem complete_spill {reg : Register} (h : offset + a.bytes < 2 ^ 31) :
    (a.spill reg offset).Complete := by
  refine Draft.complete_addressed ?_
  intro p hp
  have := slot_lt hp
  omega

theorem complete_fill {reg : Register} (h : offset + a.bytes < 2 ^ 31) :
    (a.fill reg offset).Complete := by
  refine Draft.complete_addressed ?_
  intro p hp
  have := slot_lt hp
  omega

/-- The area at an offset from an address holds what is kept of the registers of a state. -/
def Holds (a : SaveArea) (m : Memory) (address : Word) (offset : Nat) (before : Cpu) : Prop :=
  ∀ p ∈ a.slots,
    a.keep.read m (address + BitVec.ofNat 64 (offset + p.2)) p.1 = a.keep.trim (before.register p.1)

/-- Only the bytes of the area matter. -/
theorem Holds.congr (h : a.Holds m address offset before) (hfit : offset + a.bytes ≤ 2 ^ 64)
    (hbytes : ∀ x ∈ (⟨address + BitVec.ofNat 64 offset, a.bytes⟩ : Extent),
      m'.byte x = m.byte x) : a.Holds m' address offset before := by
  intro p hp
  rw [← h p hp]
  refine Keep.read_congr fun x hx => hbytes x ?_
  have hslot := slot_of_mem_slotsFrom hp
  rw [← bytes, Nat.zero_add] at hslot
  rw [Extent.mem_at_iff (by omega)] at hx
  rw [Extent.mem_at_iff (by omega)]
  omega

/-- Only the registers of the area matter. -/
theorem Holds.of_registers {before' : Cpu} (h : a.Holds m address offset before)
    (hregs : ∀ r ∈ a.registers, before.register r = before'.register r) :
    a.Holds m address offset before' := by
  intro p hp
  have hmem : p.1 ∈ a.slots.map Prod.fst := List.mem_map_of_mem hp
  rw [slots, map_fst_slotsFrom] at hmem
  rw [h p hp, hregs p.1 hmem]

theorem executeAll_spill (h : (storeDraft a.keep base offset a.slots).Complete)
    (hfit : offset + a.bytes ≤ 2 ^ 64) :
    ∃ memory, c.executeAll w (storeDraft a.keep base offset a.slots).code = { c with memory } ∧
      (∀ x ∉ (⟨c.general base + BitVec.ofNat 64 offset, a.bytes⟩ : Extent),
        memory.byte x = c.memory.byte x) ∧
      a.Holds memory (c.general base) offset c :=
  executeAll_stores h hfit

/-- **What was stored comes back**, whatever the registers have held in between, the base apart. -/
theorem executeAll_fill (h : (loadDraft a.keep base offset a.slots).Complete)
    (hbase : .general base ∈ a.registers → before.general base = c.general base)
    (hexist : ∀ r ∈ a.registers, r.index.toNat < bankSize)
    (hholds : a.Holds c.memory (c.general base) offset before) (hr : r ∈ a.registers) :
    (c.executeAll w (loadDraft a.keep base offset a.slots).code).register r =
      a.keep.trim (before.register r) := by
  have hregs : a.slots.map Prod.fst = a.registers := map_fst_slotsFrom
  rw [← hregs] at hbase hexist hr
  have hvalue : ∀ p ∈ a.slots,
      slotValue a.keep base offset c p = a.keep.trim (before.register p.1) := hholds
  obtain ⟨p, hp, rfl⟩ := List.mem_map.1 hr
  rw [executeAll_loads h (fun q hq => hexist q.1 (List.mem_map_of_mem hq)) ?_ ?_ p hp, hvalue p hp]
  · intro p hp q hq heq
    rw [hvalue p hp, hvalue q hq, heq]
  · intro p hp heq
    have hgeneral := hbase (heq ▸ List.mem_map_of_mem hp)
    rw [hvalue p hp, heq, Keep.trim_of_isGeneral _ rfl, Cpu.register_general, hgeneral,
      Cpu.register_general]

end SaveArea

end Trampoline
