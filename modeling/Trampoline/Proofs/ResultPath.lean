import Trampoline.Proofs.Results

/-!
# Which way results take

A stub has a return buffer if its code cannot do without one, or if somebody has asked for one.
That is decided by placing the results twice, natively and for the runtime, and comparing the two
placements (`Request.returnsDirectly`); either of them can fail.  Here the decision is put in terms
of the descriptions alone: how many results there are, and which register comes first in a sequence.

The code that is laid down in the two cases takes things for granted.  With a buffer, that there is
room in it for all results, that its address can be loaded without losing a result, and that its
address can be handed to the method without losing an argument.  Without one, that the method
returns its result just where the native caller reads it, which is `Request.ResultInPlace`.

* `Placement.returns_singleton_iff` — where a single result is.
* `Request.returnsDirectly_iff` — the comparison of the placements, as one of registers, and
  `Request.not_needsBuffer_iff`, which turns it into a condition on the request.
* `Request.selects_result_path` — the payoff.
-/

set_option autoImplicit false

namespace Trampoline

/-! ## A single result -/

/-- The sequence that a result of the type is returned in. -/
def ValueType.returnSequence (t : ValueType) : Sequence :=
  if t.isFloating then .floatReturns else .intReturns

/-- The register in which a convention returns a result that is the only one. -/
def Convention.resultRegister? (c : Convention) (t : ValueType) : Option Register :=
  (c.registers t.returnSequence).head?

namespace Placement

variable {c : Convention} {t : ValueType} {p : Placement}

/-- A single result is in the first register of its sequence. -/
theorem returns_singleton_iff :
    returns c [t] = .ok p ↔
      ∃ reg, c.resultRegister? t = some reg ∧ p = [⟨t, .register reg⟩] := by
  rw [returns_eq_ok_iff, Convention.resultRegister?, ValueType.returnSequence]
  cases ht : t.isFloating with
  | true =>
    simp only [if_true, Convention.Settings.registers]
    cases c.floatReturns <;> simp [returnsFrom?, ht, eq_comm]
  | false =>
    simp only [Bool.false_eq_true, if_false, Convention.Settings.registers]
    cases c.intReturns <;> simp [returnsFrom?, ht, eq_comm]

end Placement

namespace Request

variable (r : Request)

/-- Results have to go through memory: somebody wants them to, or there are several of them, or the
runtime has no register for the only one, or not the one that the native caller reads. -/
def NeedsBuffer : Prop :=
  (∃ bytes, r.returnBuffer = .explicit bytes) ∨ 1 < r.signature.returns.length ∨
    ∃ t, r.signature.returns = [t] ∧
      (r.runtime.resultRegister? t = none ∨
        r.runtime.resultRegister? t ≠ r.native.resultRegister? t)

/-- What the code for a result that is left where it is takes for granted: if the method returns
anything, it does so in the first of the native return registers. -/
def ResultInPlace (nativeReturns : Placement) : Prop :=
  r.signature.resultType ≠ .void →
    r.runtime.resultRegister? r.signature.resultType = nativeReturns.registers.head?

variable {r} {nativeReturns : Placement} {bd : Boundary}

/-- Comparing the two placements of results comes to comparing two registers. -/
theorem returnsDirectly_iff
    (hreturns : Placement.returns r.native r.signature.returns = .ok nativeReturns) :
    r.returnsDirectly nativeReturns = true ↔
      r.signature.returns.length ≤ 1 ∧ ∀ t, r.signature.returns = [t] →
        r.runtime.resultRegister? t ≠ none ∧
          r.runtime.resultRegister? t = r.native.resultRegister? t := by
  rw [returnsDirectly_eq_true_iff]
  refine and_congr_right fun hlength => ?_
  match hr : r.signature.returns with
  | [] =>
    rw [hr] at hreturns
    obtain rfl := Except.ok.inj hreturns
    exact iff_of_true ⟨[], rfl, rfl⟩ fun _ h => nomatch h
  | [t] =>
    rw [hr] at hreturns
    obtain ⟨native, hnative, rfl⟩ := Placement.returns_singleton_iff.1 hreturns
    constructor
    · rintro ⟨runtimeReturns, hruntime, hsame⟩ u hu
      obtain ⟨reg, hreg, rfl⟩ := Placement.returns_singleton_iff.1 hruntime
      obtain rfl : t = u := (List.cons.inj hu).1
      obtain rfl : reg = native := (List.cons.inj hsame).1
      exact ⟨fun hnone => (nomatch hreg.symm.trans hnone), hreg.trans hnative.symm⟩
    · intro h
      have hreg := (h t rfl).2.trans hnative
      exact ⟨_, Placement.returns_singleton_iff.2 ⟨native, hreg, rfl⟩, rfl⟩
  | t :: u :: rest =>
    rw [hr] at hlength
    simp at hlength

/-- Results need no buffer if nobody wants one and they come back directly. -/
theorem not_needsBuffer_iff
    (hreturns : Placement.returns r.native r.signature.returns = .ok nativeReturns) :
    ¬ r.NeedsBuffer ↔
      r.returnBuffer = .automatic ∧ r.returnsDirectly nativeReturns = true := by
  have hpolicy : (¬ ∃ bytes, r.returnBuffer = .explicit bytes) ↔ r.returnBuffer = .automatic := by
    cases r.returnBuffer <;> simp
  rw [returnsDirectly_iff hreturns, NeedsBuffer, not_or, not_or, hpolicy, Nat.not_lt]
  simp only [not_exists, not_and, not_or, ne_eq, Decidable.not_not]

/-- A result that comes back directly is where it belongs. -/
theorem resultInPlace_of_returnsDirectly
    (hreturns : Placement.returns r.native r.signature.returns = .ok nativeReturns)
    (hdirect : r.returnsDirectly nativeReturns = true) : r.ResultInPlace nativeReturns := by
  obtain ⟨_, hsame⟩ := (returnsDirectly_iff hreturns).1 hdirect
  intro hvoid
  rw [Signature.resultType] at hvoid ⊢
  match hr : r.signature.returns with
  | [t] =>
    rw [hr] at hreturns
    obtain ⟨reg, hreg, rfl⟩ := Placement.returns_singleton_iff.1 hreturns
    exact (hsame t hr).2.trans hreg
  | [] | _ :: _ :: _ =>
    rw [hr] at hvoid
    exact absurd rfl hvoid

end Request

namespace Blueprint

variable {b : Blueprint} {o : FrameOffsets} {stub : Stub}

/-- A stub has a region for the buffer that its boundary has. -/
theorem Builds.span?_returnBuffer_eq (hb : b.Builds o stub) :
    stub.layout.span? .returnBuffer =
      b.boundary.buffer.map fun p => ⟨.returnBuffer, b.demand.dataStop, p.1⟩ := by
  have hlayout := b.demand.span?_layout.2.2.2.2.2
  rw [hb.layout, Blueprint.layout, hlayout, demand, Option.map_map]
  rfl

/-- The runtime is told where the buffer is before the method is called. -/
theorem Sound.exists_bufferAddress (h : b.Sound) (hb : b.Builds o stub) {bytes : Nat}
    {reg : Register} (hbuffer : b.boundary.buffer = some (bytes, reg)) :
    reg.isGeneral = true ∧
      ∃ index imm, Imm.ofInt? b.demand.dataStop = some imm ∧
        stub.code.instructions[index]? = some (.addImm reg.index b.sp imm) ∧
        stub.phaseAt? index = some .shuffleArgs := by
  rcases h.bufferCode_eq hb with ⟨hnone, _, _⟩ | ⟨_, reg', imm, hsome, hgeneral, himm, _, hcode⟩
  · cases hnone.symm.trans hbuffer
  · obtain ⟨rfl, rfl⟩ := Prod.mk.inj (Option.some.inj (hsome.symm.trans hbuffer))
    have hmem : Instruction.addImm reg'.index b.sp imm ∈ b.code o .shuffleArgs := by
      simp [code_shuffleArgs, hcode]
    obtain ⟨k, hk⟩ := List.mem_iff_getElem?.1 hmem
    exact ⟨hgeneral, _, imm, himm, hb.get hk, hb.phaseAt?_eq hk rfl⟩

end Blueprint

namespace Request

variable {r : Request} {capacity : Nat} {stub : Stub}

/-- **The way that results take is a sound one.**  A stub has a return buffer exactly if results
have to go through memory.  If it has one, all results fit into it, its address can be loaded into
the scratch register when they are fetched, and the register that hands its address to the method is
one that nothing else needs.  If it has none, the runtime returns the result where it is read. -/
theorem selects_result_path (hstub : r.generate capacity = .ok stub) :
    ∃ nativeReturns, Placement.returns r.native r.signature.returns = .ok nativeReturns ∧
      ((∃ span, stub.layout.span? .returnBuffer = some span) ↔ r.NeedsBuffer) ∧
      (∀ span, stub.layout.span? .returnBuffer = some span →
        total (fun t => if t.isFloating then 16 else 8) r.signature.returns ≤ span.size ∧
        r.target.roles.scratch ∉ nativeReturns.registers ∧
        ∃ reg, r.runtime.returnBuffer = some reg ∧ reg.isGeneral = true ∧
          (∃ index imm, Imm.ofInt? span.offset = some imm ∧
            stub.code.instructions[index]? =
              some (.addImm reg.index r.target.file.stackPointer.index imm) ∧
            stub.phaseAt? index = some .shuffleArgs) ∧
          reg ∉ r.target.roles.registers ∧ reg ∉ r.runtimeArgs.registers ∧
          r.target.file.holdsFrame reg = false) ∧
      (stub.layout.span? .returnBuffer = none → r.ResultInPlace nativeReturns) := by
  obtain ⟨b, o, hblueprint, hb⟩ := generate_builds hstub
  obtain ⟨rfl, h⟩ := blueprint_sound hblueprint
  refine ⟨_, h.nativeReturns, ?_, ?_, ?_⟩
  · rw [← not_iff_not, not_needsBuffer_iff h.nativeReturns, ← h.direct, hb.span?_returnBuffer_eq]
    cases b.boundary.buffer <;> simp
  · intro span hspan
    rw [hb.span?_returnBuffer_eq] at hspan
    obtain ⟨⟨bytes, reg⟩, hbuffer, rfl⟩ := Option.map_eq_some_iff.1 hspan
    obtain ⟨hfits, hreg, hargs, hroles, hscratch⟩ := h.buffered bytes reg hbuffer
    obtain ⟨hgeneral, haddress⟩ := h.exists_bufferAddress hb hbuffer
    exact ⟨hfits, hscratch, reg, hreg, hgeneral, haddress, hroles, h.runtimeArgs ▸ hargs,
      (h.mem_buffer hbuffer).2⟩
  · intro hspan
    rw [hb.span?_returnBuffer_eq, Option.map_eq_none_iff] at hspan
    exact resultInPlace_of_returnsDirectly h.nativeReturns (h.direct.1 hspan).2

theorem selects_result_path_mixed :
    ∃ stub span, (Standin.request Standin.mixed 0).generate defaultCapacity = .ok stub ∧
      stub.layout.span? .returnBuffer = some span ∧ 24 ≤ span.size ∧
      (Standin.request Standin.mixed 0).NeedsBuffer := by
  obtain ⟨stub, hstub, _, _⟩ := Standin.exists_generate_mixed
  obtain ⟨_, _, hneeds, hbuffered, _⟩ := selects_result_path hstub
  have hboth : (Standin.request Standin.mixed 0).NeedsBuffer := .inr (.inl (by decide))
  obtain ⟨span, hspan⟩ := hneeds.2 hboth
  exact ⟨stub, span, hstub, hspan, (hbuffered span hspan).1, hboth⟩

end Request

end Trampoline
