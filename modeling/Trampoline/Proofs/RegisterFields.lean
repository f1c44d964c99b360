import Trampoline.Proofs.Stub.Contract
import Trampoline.Proofs.Stub.Operands

/-!
# What the bytes of a stub name

An operand is a byte in the instructions of a stub and five bits in its code.  Nothing on the way
from a target to its stubs looks at the difference: the target has as many registers as it says, up
to 255 of either kind, a stub only names registers that the target has, and the encoding drops the
upper three bits of each.  So the code of a stub is what its instructions say exactly if none of the
registers that they name lies beyond the first 32, which is the case on every machine whose banks
are no larger (`Request.names_registers`).

On a machine with larger banks the code may name another register than the instructions do.
-/

set_option autoImplicit false

namespace Trampoline

open Instruction

/-- **Operands are registers of the target, and those below 32 survive encoding.**  A machine that
has no others can read the instructions back from the code. -/
theorem Request.names_registers {r : Request} {capacity : Nat} {stub : Stub}
    (h : r.generate capacity = .ok stub) :
    (∀ i ∈ stub.code.instructions, ∀ (k : Nat) (reg : Register), i.operands[k]? = some reg →
      r.target.file.contains reg = true ∧
      ∃ byte, i.encode[k + 1]? = some byte ∧
        (field byte = reg.index ↔ reg.index.toNat < bankSize)) ∧
    (r.target.file.Fits →
      (∀ i ∈ stub.code.instructions, ∀ (k : Nat) (reg : Register), i.operands[k]? = some reg →
        ∃ byte, i.encode[k + 1]? = some byte ∧ field byte = reg.index) ∧
      decodeAll? stub.code.bytes =
        some (stub.code.instructions.filter fun i => !i.isComment)) := by
  obtain ⟨b, o, hblueprint, hb⟩ := Request.generate_builds h
  obtain ⟨rfl, hs⟩ := Request.blueprint_sound hblueprint
  have hcontains := fun i hi => hb.contains_operands hs (i := i) hi
  have hfields : ∀ i ∈ stub.code.instructions, ∀ (k : Nat) (reg : Register),
      i.operands[k]? = some reg → b.request.target.file.contains reg = true ∧
        ∃ byte, i.encode[k + 1]? = some byte ∧
          (field byte = reg.index ↔ reg.index.toNat < bankSize) := by
    intro i hi k reg hk
    obtain ⟨byte, hbyte, hfield⟩ := getElem?_encode hk
    refine ⟨hcontains i hi reg (List.mem_of_getElem? hk), byte, hbyte, ?_⟩
    rw [hfield]
    exact field_eq_iff
  refine ⟨hfields, fun hfits => ⟨?_, decodeAll?_flatMap_encode fun i hi reg hreg => ?_⟩⟩
  · intro i hi k reg hk
    obtain ⟨hreg, byte, hbyte, hiff⟩ := hfields i hi k reg hk
    exact ⟨byte, hbyte, hiff.2 (hfits.index_lt hreg)⟩
  · exact hfits.index_lt (hcontains i hi reg hreg)

theorem Request.names_registers_mixed :
    ∃ stub, (Standin.request Standin.mixed 0).generate defaultCapacity = .ok stub ∧
      decodeAll? stub.code.bytes =
        some (stub.code.instructions.filter fun i => !i.isComment) := by
  obtain ⟨stub, hstub, _⟩ := Standin.exists_generate_mixed
  exact ⟨stub, hstub, ((names_registers hstub).2 (by decide)).2⟩

namespace Standin

/-- A machine with twice as many general registers as have names of five bits, which calls through
one of the upper half. -/
def large : Target where
  name := "large"
  file := ⟨⟨64, 32, .general 29, .general 30, .general 31⟩, by decide⟩
  roles := ⟨.general 28, .general 12, .general 40, .general 9, .general 19⟩
  sound := by decide

/-- On this machine the code of a stub calls through another register than its instructions. -/
theorem calls_through_other_register :
    ∃ stub,
      ({ request ⟨[], [], by decide, by decide⟩ 0 with target := large } : Request).generate
        defaultCapacity = .ok stub ∧
      call 40 ∈ stub.code.instructions ∧ (call 40).operands[0]? = some (.general 40) ∧
      (call 40).encode[1]? = some 8 ∧ field 8 ≠ 40 ∧ (call 40).encode = (call 8).encode := by
  have hgenerate : (({ request ⟨[], [], by decide, by decide⟩ 0 with target := large } :
      Request).generate defaultCapacity).toOption.map
        (fun s => decide (call 40 ∈ s.code.instructions)) = some true := by decide +kernel
  obtain ⟨stub, hstub, hcall⟩ := exists_of_map_toOption hgenerate
  exact ⟨stub, hstub, of_decide_eq_true hcall, rfl, rfl, by decide, rfl⟩

end Standin

end Trampoline
