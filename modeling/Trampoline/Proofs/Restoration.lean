import Trampoline.Proofs.Stub.SaveArea

/-!
# What was put away comes back

A stub puts registers away before it calls a hook and fetches them afterwards, and what a hook may
do in between is nearly everything.  So the two halves of a save area are looked at together here,
with any change of the state between them that spares two things: the register that the area is
addressed by, and the bytes of the area.

Nothing is asked of the list of registers.  It may name a register twice, which is then stored twice
with the same content and loaded twice; and it may name the base itself, which gets what it holds
already.  Nor is anything asked of the addresses: an area has less than 2³² bytes whenever its
offsets are immediates (`SaveArea.le_of_complete`), so its slots do not run into each other, not
even across the last address.

`SaveArea.restores_registers` is the round trip, for registers that are kept whole and for those of
which the lower half is kept.
-/

set_option autoImplicit false

namespace Trampoline.SaveArea

variable {a : SaveArea} {base : RegIndex} {offset start : Nat} {regs : List Register} {keep : Keep}

/-- Registers that can be stored take no more room than offsets reach, and the last slot. -/
theorem le_of_complete (hne : regs ≠ [])
    (h : (storeDraft keep base offset (slotsFrom keep start regs)).Complete) :
    offset + start + total keep.width regs ≤ 2 ^ 31 + 16 := by
  induction regs generalizing start with
  | nil => exact absurd rfl hne
  | cons r rest ih =>
    obtain ⟨imm, himm, _, hrest⟩ := Draft.code_addressed_cons h
    have hfirst := (lt_of_ofInt? himm).2
    have hwidth := keep.width_le r
    rw [total_cons]
    cases rest with
    | nil =>
      rw [total_nil]
      omega
    | cons next others =>
      have hothers := ih (List.cons_ne_nil next others) hrest
      omega

/-- Where the lower half is kept, every register takes a word... -/
theorem bytes_of_low (h : a.keep = .low) : a.bytes = 8 * a.registers.length := by
  have hwords : a.bytes = total (fun _ => 8) a.registers := by
    rw [bytes, h]
    exact total_congr (List.map_congr_left fun r _ => rfl)
  rw [hwords]
  induction a.registers with
  | nil => rfl
  | cons r rest ih =>
    rw [total_cons, ih, List.length_cons]
    omega

/-- ...and else a vector register takes two. -/
theorem bytes_of_whole (h : a.keep = .whole) :
    a.bytes = total (fun r => if r.isGeneral then 8 else 16) a.registers := by
  rw [bytes, h]
  refine total_congr (List.map_congr_left fun r _ => ?_)
  obtain ⟨bank, i⟩ := r
  cases bank <;> rfl

/-- The bytes of an area at an offset from what its base holds. -/
def extent (a : SaveArea) (c : Cpu) (base : RegIndex) (offset : Nat) : Extent :=
  ⟨c.general base + BitVec.ofNat 64 offset, a.bytes⟩

variable {w : Wiring} {c : Cpu}

/-- Storing changes memory only, in the area only, and whoever has the bytes of the area has what is
kept of the registers. -/
theorem exists_stored (h : (a.spill (.general base) offset).Complete) :
    ∃ memory, c.executeAll w (a.spill (.general base) offset).code = { c with memory } ∧
      (∀ x ∉ a.extent c base offset, memory.byte x = c.memory.byte x) ∧
      ∀ m : Memory, (∀ x ∈ a.extent c base offset, m.byte x = memory.byte x) →
        a.Holds m (c.general base) offset c := by
  by_cases hempty : a.registers = []
  · have hslots : a.slots = [] := by
      rw [slots, hempty]
      rfl
    refine ⟨c.memory, ?_, fun _ _ => rfl, fun m _ p hp => ?_⟩
    · rw [spill, hslots]
      rfl
    · rw [hslots] at hp
      cases hp
  · have hfit := le_of_complete hempty h
    rw [← bytes, Nat.add_zero] at hfit
    obtain ⟨memory, hstored, houtside, hholds⟩ := executeAll_spill (c := c) (w := w) h (by omega)
    exact ⟨memory, hstored, houtside, fun m hm => hholds.congr (by omega) hm⟩

/-- **Registers that were stored and loaded again hold what they held**: all of it if they are kept
whole, and their lower half, with zeros above it, if that is what is kept.  In between, everything
may have changed but the base and the bytes of the area.  Storing writes nothing but these bytes,
and loading nothing but these registers.  The area has a word for every register, and two for a
vector register that is kept whole. -/
theorem restores_registers {stores loads : List Instruction}
    (hexist : ∀ r ∈ a.registers, r.index.toNat < bankSize)
    (hspill : (a.spill (.general base) offset).instructions = .ok stores)
    (hfill : (a.fill (.general base) offset).instructions = .ok loads) (w : Wiring) (c : Cpu) :
    (a.keep = .whole → a.bytes = total (fun r => if r.isGeneral then 8 else 16) a.registers) ∧
    (a.keep = .low → a.bytes = 8 * a.registers.length) ∧
    (∀ r, (c.executeAll w stores).register r = c.register r) ∧
    (∀ x ∉ a.extent c base offset,
      (c.executeAll w stores).memory.byte x = c.memory.byte x) ∧
    ∀ c' : Cpu, c'.general base = c.general base →
      (∀ x ∈ a.extent c base offset,
        c'.memory.byte x = (c.executeAll w stores).memory.byte x) →
      (∀ r ∈ a.registers,
        (a.keep = .whole ∨ r.isGeneral = true →
          (c'.executeAll w loads).register r = c.register r) ∧
        (a.keep = .low →
          (c'.executeAll w loads).register r = ((c.register r).setWidth 64).setWidth 128)) ∧
      (∀ r ∉ a.registers, (c'.executeAll w loads).register r = c'.register r) ∧
      (c'.executeAll w loads).memory = c'.memory := by
  obtain ⟨hstores, rfl⟩ := Draft.instructions_eq_ok_iff.1 hspill
  obtain ⟨hloads, rfl⟩ := Draft.instructions_eq_ok_iff.1 hfill
  obtain ⟨memory, hstored, houtside, hholds⟩ := exists_stored (c := c) (w := w) hstores
  rw [hstored]
  refine ⟨bytes_of_whole, bytes_of_low, fun r => rfl, houtside,
    fun c' hbase harea => ⟨fun r hr => ?_, fun r hr => ?_, ?_⟩⟩
  · have hback : (c'.executeAll w (a.fill (.general base) offset).code).register r =
        a.keep.trim (c.register r) :=
      executeAll_fill hloads (fun _ => hbase.symm) hexist (hbase ▸ hholds c'.memory harea) hr
    rw [hback]
    refine ⟨fun hwhole => ?_, fun hlow => by rw [hlow]; rfl⟩
    rcases hwhole with hwhole | hgeneral
    · rw [hwhole]
      rfl
    · exact Keep.trim_of_isGeneral _ hgeneral
  · refine Cpu.register_executeAll fun i hi => ?_
    obtain ⟨_, hsteady, _, p, hp, hwritten⟩ := mem_loadDraft hi
    refine ⟨hsteady, fun hmem => hr ?_⟩
    rw [hwritten, List.mem_singleton] at hmem
    have hfst : p.1 ∈ a.slots.map Prod.fst := List.mem_map_of_mem hp
    rwa [slots, map_fst_slotsFrom, ← hmem] at hfst
  · exact Cpu.memory_executeAll fun i hi => (mem_loadDraft hi).2.2.1

/-- Registers of both banks, two of them twice, and the base among them. -/
def repeatedArea (keep : Keep) : SaveArea :=
  ⟨[.general 1, .vector 2, .general 31, .vector 2, .general 1], keep⟩

/-- A state with bits in both halves of a vector register. -/
def repeatedCpu : Cpu :=
  ((({} : Cpu).setGeneral 31 0x7FFEFF00).setGeneral 1 7).setVector 2 (1 <<< 64 ||| 5)

theorem restores_registers_repeated :
    (repeatedArea .whole).bytes = 56 ∧ (repeatedArea .low).bytes = 40 ∧
    ∀ keep, ∃ stores loads,
      ((repeatedArea keep).spill (.general 31) 16).instructions = .ok stores ∧
      ((repeatedArea keep).fill (.general 31) 16).instructions = .ok loads ∧
      ∀ w, ∃ c' : Cpu,
        c' = (((repeatedCpu.executeAll w stores).setGeneral 1 0).setVector 2 0).executeAll w loads ∧
        c'.general 1 = 7 ∧ c'.general 31 = 0x7FFEFF00 ∧
        c'.vector 2 = keep.trim (1 <<< 64 ||| 5) := by
  refine ⟨by decide, by decide, fun keep => ?_⟩
  have hfit : 16 + (repeatedArea keep).bytes < 2 ^ 31 := by
    cases keep <;> decide
  have hexist : ∀ r ∈ (repeatedArea keep).registers, r.index.toNat < bankSize := by
    cases keep <;> decide
  have hspill : ((repeatedArea keep).spill (.general 31) 16).Complete := complete_spill hfit
  have hfill : ((repeatedArea keep).fill (.general 31) 16).Complete := complete_fill hfit
  have hstores := Draft.instructions_eq_ok_iff.2 ⟨hspill, rfl⟩
  have hloads := Draft.instructions_eq_ok_iff.2 ⟨hfill, rfl⟩
  refine ⟨_, _, hstores, hloads, fun w => ⟨_, rfl, ?_⟩⟩
  obtain ⟨-, -, hsame, -, hback⟩ := restores_registers hexist hstores hloads w repeatedCpu
  generalize repeatedCpu.executeAll w ((repeatedArea keep).spill (.general 31) 16).code = stored
    at hsame hback ⊢
  have hsteady : ((stored.setGeneral 1 0).setVector 2 0).general 31 = repeatedCpu.general 31 := by
    rw [Cpu.general_setVector, Cpu.general_setGeneral_ne (by decide)]
    exact Cpu.general_eq_of_register (hsame _)
  have hmemory : ((stored.setGeneral 1 0).setVector 2 0).memory = stored.memory := by
    rw [Cpu.setVector_eq_setRegister, Cpu.memory_setRegister, Cpu.memory_setGeneral]
  obtain ⟨hregisters, -, -⟩ := hback _ hsteady fun x _ => by rw [hmemory]
  have hone : repeatedCpu.general 1 = 7 := by decide +kernel
  have hbase : repeatedCpu.general 31 = 0x7FFEFF00 := by decide +kernel
  have htwo : repeatedCpu.register (.vector 2) = 1 <<< 64 ||| 5 := by decide +kernel
  refine ⟨?_, ?_, ?_⟩
  · rw [← hone]
    exact Cpu.general_eq_of_register ((hregisters (.general 1) List.mem_cons_self).1 (.inr rfl))
  · rw [← hbase]
    exact Cpu.general_eq_of_register
      ((hregisters (.general 31) (by simp [repeatedArea])).1 (.inr rfl))
  · rw [← htwo]
    have hkept := hregisters (.vector 2) (List.mem_cons_of_mem _ List.mem_cons_self)
    cases keep with
    | whole => exact hkept.1 (.inl rfl)
    | low => exact hkept.2 rfl

end Trampoline.SaveArea
