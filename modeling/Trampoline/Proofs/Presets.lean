import Trampoline.Proofs.Failures

/-!
# AArch64 takes all arguments

The checks on a request are there for conventions and machines that somebody has described.  With
the two conventions of AArch64 none of them ever finds anything: the registers that carry values are
not those that the stub keeps for itself, whatever the arguments are, and a return buffer has a
register of its own.  What can be wanting is return registers, and room.

Sizes that are not too large for the frame are not too large for anything else either.  The runtime
has one argument more than the native caller and no more registers for them, so for every stack
argument that comes in, the frame has an outgoing one that is at least as far up.

## What is here

* `Placement.isSome_returnsFrom?_iff` — results fit exactly if there are enough registers of either
  bank.
* `Placement.exists_stack_ge` — who has no more registers puts the same values at least as far up the
  stack.
* `Request.Preset` — a request for AArch64, and that nothing is wrong with it
  (`Preset.exists_boundary`).
* `Request.preset_generates_iff` — the payoff.
-/

set_option autoImplicit false

namespace Trampoline

/-! ## Placements -/

namespace Placement

variable {area area' : Area} {ints floats ints' floats' : List Register} {offset offset' : Int}
  {types : List ValueType}

/-- Results can be placed exactly if there are enough registers of either bank. -/
theorem isSome_returnsFrom?_iff :
    (returnsFrom? ints floats types).isSome = true ↔
      types.countP (!·.isFloating) ≤ ints.length ∧ types.countP (·.isFloating) ≤ floats.length := by
  fun_induction returnsFrom? ints floats types with
  | case1 => simp
  | case2 ints t rest ht r floats ih => simp [ht, ih]
  | case3 ints t rest ht => simp [ht]
  | case4 floats t rest ht r ints ih => simp [ht, ih]
  | case5 floats t rest ht => simp [ht]

/-- Who has no more registers, and no less of the stack in use, needs the stack for a value at
least as far up. -/
theorem exists_stack_ge (hints : ints'.length ≤ ints.length)
    (hfloats : floats'.length ≤ floats.length) (hoffset : offset ≤ offset') {n : Int}
    (h : .stack area n ∈ (placeFrom area ints floats offset types).locations) :
    ∃ n', n ≤ n' ∧
      .stack area' n' ∈ (placeFrom area' ints' floats' offset' types).locations := by
  have hlater : ∀ {slot : Slot} {p : Placement},
      (∃ n', n ≤ n' ∧ .stack area' n' ∈ p.locations) →
        ∃ n', n ≤ n' ∧ .stack area' n' ∈ Placement.locations (slot :: p) :=
    fun ⟨n', hle, hmem⟩ => ⟨n', hle, List.mem_cons_of_mem _ hmem⟩
  fun_induction placeFrom area ints floats offset types generalizing ints' floats' offset' with
  | case1 => cases h
  | case2 ints offset t rest ht r floats ih =>
    -- the value has a register here, and may or may not have one there
    have h := (List.mem_cons.1 h).resolve_left (by simp)
    unfold placeFrom
    rw [if_pos ht]
    cases floats' with
    | nil => exact hlater (ih hints (Nat.zero_le _) (by omega) h)
    | cons r' floats' => exact hlater (ih hints (Nat.le_of_succ_le_succ hfloats) hoffset h)
  | case3 ints offset t rest ht ih =>
    obtain rfl := List.eq_nil_of_length_eq_zero (Nat.le_zero.1 hfloats)
    unfold placeFrom
    rw [if_pos ht]
    rcases List.mem_cons.1 h with heq | h
    · obtain ⟨_, rfl⟩ := Location.stack.inj heq
      exact ⟨offset', hoffset, List.mem_cons_self⟩
    · exact hlater (ih hints (Nat.zero_le _) (by omega) h)
  | case4 floats offset t rest ht r ints ih =>
    have h := (List.mem_cons.1 h).resolve_left (by simp)
    unfold placeFrom
    rw [if_neg ht]
    cases ints' with
    | nil => exact hlater (ih (Nat.zero_le _) hfloats (by omega) h)
    | cons r' ints' => exact hlater (ih (Nat.le_of_succ_le_succ hints) hfloats hoffset h)
  | case5 floats offset t rest ht ih =>
    obtain rfl := List.eq_nil_of_length_eq_zero (Nat.le_zero.1 hints)
    unfold placeFrom
    rw [if_neg ht]
    rcases List.mem_cons.1 h with heq | h
    · obtain ⟨_, rfl⟩ := Location.stack.inj heq
      exact ⟨offset', hoffset, List.mem_cons_self⟩
    · exact hlater (ih (Nat.zero_le _) hfloats (by omega) h)

end Placement

/-! ## Requests for AArch64 -/

/-- Two general and four vector registers are enough for the results. -/
def Signature.Returnable (s : Signature) : Prop :=
  s.returns.countP (!·.isFloating) ≤ 2 ∧ s.returns.countP (·.isFloating) ≤ 4

instance (s : Signature) : Decidable s.Returnable := inferInstanceAs (Decidable (_ ∧ _))

namespace Request

variable {r : Request} {p : Placement}

/-- A request for AArch64 and its two conventions, with hooks that native code can call, and with
enough bytes for a return buffer if it says how many. -/
structure Preset (r : Request) : Prop where
  target : r.target = .aarch64
  native : r.native = .aapcs64
  runtime : r.runtime = .aarch64Runtime
  hooks : ∀ hook ∈ r.hooks.toList, hook.abi = .native
  buffer : ∀ bytes, r.returnBuffer = .explicit bytes → r.signature.bufferBytes ≤ bytes

namespace Preset

theorem partsFault?_eq_none (h : r.Preset) : r.partsFault? = none := by
  have hnative : Convention.faultOn? .aapcs64 .aarch64 = none := by decide
  have hruntime : Convention.faultOn? .aarch64Runtime .aarch64 = none := by decide
  have hhooks : r.hooks.fault? = none := by simpa [Hooks.fault?] using h.hooks
  rw [partsFault?, h.native, h.runtime, h.target]
  exact orElse_eq_none_iff.2 ⟨hnative, orElse_eq_none_iff.2 ⟨hruntime, hhooks⟩⟩

theorem exists_returns_iff (h : r.Preset) :
    (∃ p, Placement.returns r.native r.signature.returns = .ok p) ↔ r.signature.Returnable := by
  simp only [h.native, Placement.returns_eq_ok_iff, ← Option.isSome_iff_exists,
    Placement.isSome_returnsFrom?_iff]
  rfl

/-- No argument is in the way of the stub's own registers. -/
theorem rolesFault?_eq_none (h : r.Preset) : r.rolesFault? = none := by
  have hruntime : ∀ reg ∈ Convention.aarch64Runtime.intArgs ++ Convention.aarch64Runtime.floatArgs,
      reg ∉ Target.aarch64.roles.registers := by decide
  have hnative : ∀ reg ∈ Convention.aapcs64.intArgs ++ Convention.aapcs64.floatArgs,
      reg ∉ Target.aarch64.roles.registers := by decide
  rw [rolesFault?_eq_none_iff, h.target]
  constructor
  · intro reg hreg
    rw [runtimeArgs, h.runtime] at hreg
    exact hruntime reg (List.mem_append.2 (Placement.mem_sequence_of_arguments hreg))
  · intro reg hreg
    rw [nativeArgs, h.native] at hreg
    obtain ⟨hthread, _, _, hsecond, hshuffle⟩ := Roles.not_mem_registers.1
      (hnative reg (List.mem_append.2 (Placement.mem_sequence_of_arguments hreg)))
    exact ⟨hthread, hshuffle, hsecond⟩

/-- There is a register for the address of a return buffer. -/
theorem bufferRegister_eq (h : r.Preset)
    (hp : Placement.returns r.native r.signature.returns = .ok p) :
    r.bufferRegister p = .ok (.general 10) := by
  have hruntime : .general 10 ∉
      Convention.aarch64Runtime.intArgs ++ Convention.aarch64Runtime.floatArgs := by decide
  have hreturns : Target.aarch64.roles.scratch ∉
      Convention.aapcs64.intReturns ++ Convention.aapcs64.floatReturns := by decide
  rw [bufferRegister_eq_ok_iff, h.runtime, h.target]
  refine ⟨rfl, ?_, by decide, ?_⟩
  · intro hreg
    rw [runtimeArgs, h.runtime] at hreg
    exact hruntime (List.mem_append.2 (Placement.mem_sequence_of_arguments hreg))
  · intro hreg
    rw [h.native] at hp
    exact hreturns (List.mem_append.2
      (Placement.mem_registers_returnsFrom? (Placement.returns_eq_ok_iff.1 hp) hreg))

/-- The receiver comes first, when no register has been used yet. -/
theorem receiverRegister_eq (h : r.Preset) : r.receiverRegister = .ok (.general 1) := by
  rw [receiverRegister, runtimeArgs, h.runtime]
  rfl

theorem exists_resolve (h : r.Preset) (direct : Bool) :
    ∃ bytes, r.returnBuffer.resolve r.signature direct = .ok bytes := by
  cases hbuffer : r.returnBuffer with
  | automatic => exact ⟨_, rfl⟩
  | explicit bytes =>
    have henough := h.buffer bytes hbuffer
    exact ⟨some bytes, if_neg (by omega)⟩

/-- Results that do not fit are all that can be wrong... -/
theorem exists_boundary (h : r.Preset) (hreturns : r.signature.Returnable) :
    ∃ bd, r.boundary = .ok bd := by
  obtain ⟨p, hp⟩ := h.exists_returns_iff.2 hreturns
  obtain ⟨bytes, hbytes⟩ := h.exists_resolve (r.returnsDirectly p)
  have hparts : reject r.partsFault? = .ok () := reject_eq_ok_iff.2 h.partsFault?_eq_none
  have hroles : reject r.rolesFault? = .ok () := reject_eq_ok_iff.2 h.rolesFault?_eq_none
  cases bytes with
  | none =>
    exact ⟨_, bind_of_eq_ok hparts <| bind_of_eq_ok hp <| bind_of_eq_ok hbytes <|
      bind_of_eq_ok hroles <| bind_of_eq_ok rfl <| bind_of_eq_ok h.receiverRegister_eq rfl⟩
  | some n =>
    exact ⟨_, bind_of_eq_ok hparts <| bind_of_eq_ok hp <| bind_of_eq_ok hbytes <|
      bind_of_eq_ok hroles <| bind_of_eq_ok (h.bufferRegister_eq hp) <| bind_of_eq_ok rfl <|
        bind_of_eq_ok h.receiverRegister_eq rfl⟩

/-- ...and they are the first thing to be reported. -/
theorem boundary_of_not_returnable (h : r.Preset) (hreturns : ¬ r.signature.Returnable) :
    r.boundary = .error (.tooFewReturns r.native.name r.signature.returns.length) := by
  have hparts : reject r.partsFault? = .ok () := reject_eq_ok_iff.2 h.partsFault?_eq_none
  have herror : Placement.returns r.native r.signature.returns =
      .error (.tooFewReturns r.native.name r.signature.returns.length) := by
    rw [Placement.returns]
    split
    · rename_i p hp
      exact absurd (h.exists_returns_iff.1 ⟨p, Placement.returns_eq_ok_iff.2 hp⟩) hreturns
    · rfl
  refine bind_of_eq_ok hparts ?_
  rw [herror]
  rfl

/-- Every incoming stack argument is in reach if the frame is not too large: there is an outgoing
one at least as far up, and the frame has room for that one. -/
theorem inRange (h : r.Preset) : r.InRange := by
  intro b hb hsize _ offset hoffset
  obtain ⟨rfl, hsound⟩ := blueprint_sound hb
  have horder := b.layout_order
  have hshadow : b.request.native.shadowSpace = 0 := by rw [h.native]; rfl
  rw [hsound.nativeArgs, nativeArgs, h.native] at hoffset
  obtain ⟨out, hle, hout⟩ : ∃ out, offset ≤ out ∧
      .outgoing out ∈ Placement.locations b.boundary.runtimeArgs.tail := by
    rw [hsound.runtimeArgs, runtimeArgs, h.runtime]
    exact Placement.exists_stack_ge (by decide) (by decide) (Int.le_refl 0) hoffset
  obtain ⟨k, rfl⟩ := hsound.outgoing_offset hout
  have hfits := hsound.outgoing_fits hout
  rw [Frame.dataBytes] at horder
  rw [hshadow, enterBytes]
  omega

/-- There is a blueprint as soon as the results fit. -/
theorem exists_blueprint (h : r.Preset) (hreturns : r.signature.Returnable) :
    ∃ b, r.blueprint = .ok b := by
  obtain ⟨bd, hbd⟩ := h.exists_boundary hreturns
  obtain ⟨s, hs⟩ := between_of_boundary hbd
  have hlacking : r.lacking? = none := by
    rw [lacking?_eq_none_iff, h.native, h.runtime]
    decide
  obtain ⟨b, hb, _⟩ := blueprint_of_shuffle (bind_of_eq_ok hbd hs) hlacking
  exact ⟨b, hb⟩

/-- Nobody gets a stub for results that do not fit. -/
theorem returnable_of_generate {capacity : Nat} {stub : Stub} (h : r.Preset)
    (hstub : r.generate capacity = .ok stub) : r.signature.Returnable := by
  by_contra hreturns
  have herror := shuffle_eq_error_iff.2 (h.boundary_of_not_returnable hreturns)
  cases hstub.symm.trans (generate_of_shuffle_error herror)

end Preset

/-- **For AArch64 it takes return registers and room, and nothing else.**  A stub is generated
exactly if the results fit into two general and four vector registers, the frame is not too large
for an immediate, and the code is no longer than it may be.  If the results do not fit, the
signature is to blame; if they do, then nothing goes wrong but for the size of the frame or of the
code, whatever the arguments are. -/
theorem preset_generates_iff (h : r.Preset) :
    (∀ capacity, (∃ stub, r.generate capacity = .ok stub) ↔
      r.signature.Returnable ∧ ∃ b o, r.blueprint = .ok b ∧ b.layout.size < 2 ^ 31 ∧
        b.offsets = .ok o ∧ codeSize (Phase.all.flatMap (b.code o)) ≤ capacity) ∧
    (¬ r.signature.Returnable →
      ∃ e : Error, e.kind = .signature ∧ ∀ capacity, r.generate capacity = .error e) ∧
    (r.signature.Returnable → ∃ b, r.blueprint = .ok b ∧
      (2 ^ 31 ≤ b.layout.size →
        ∀ capacity, r.generate capacity = .error (.offsetTooLarge b.layout.size)) ∧
      (b.layout.size < 2 ^ 31 → ∃ stub : Stub, stub.layout = b.layout ∧ ∀ capacity,
        r.generate capacity =
          if stub.code.size ≤ capacity then .ok stub
          else .error (.codeTooLong stub.code.size capacity))) := by
  refine ⟨fun capacity => ⟨?_, ?_⟩, ?_, ?_⟩
  · rintro ⟨stub, hstub⟩
    obtain ⟨b, o, hb, hbuilds⟩ := generate_builds hstub
    have hsize := size_le_of_generate hstub
    rw [Code.size, hbuilds.instructions] at hsize
    have hframe : b.layout.size < 2 ^ 31 := hbuilds.layout ▸ hbuilds.size_lt
    exact ⟨h.returnable_of_generate hstub, b, o, hb, hframe, hbuilds.offsets, hsize⟩
  · rintro ⟨_, b, o, hb, hframe, ho, hsize⟩
    obtain ⟨stub, _, _, hgenerate⟩ := generate_of_lt h.inRange hb hframe
    -- the stub is the one that the blueprint describes, so its code has the size that is asked for
    obtain ⟨b', o', hb', hbuilds⟩ :=
      generate_builds ((hgenerate stub.code.size).trans (if_pos (Nat.le_refl _)))
    obtain rfl := Except.ok.inj (hb.symm.trans hb')
    obtain rfl := Except.ok.inj (ho.symm.trans hbuilds.offsets)
    have hcode : stub.code.size ≤ capacity := by
      rw [Code.size, hbuilds.instructions]
      exact hsize
    exact ⟨stub, (hgenerate capacity).trans (if_pos hcode)⟩
  · intro hreturns
    exact ⟨_, rfl, fun capacity => generate_of_shuffle_error
      (shuffle_eq_error_iff.2 (h.boundary_of_not_returnable hreturns))⟩
  · intro hreturns
    obtain ⟨b, hb⟩ := h.exists_blueprint hreturns
    refine ⟨b, hb, fun hframe capacity => generate_of_le hb hframe, ?_⟩
    intro hframe
    obtain ⟨stub, _, hlayout, hgenerate⟩ := generate_of_lt h.inRange hb hframe
    exact ⟨stub, hlayout, hgenerate⟩

/-- Arguments in registers and on the stack, and results that need a buffer, are no obstacle. -/
theorem preset_generates_iff_mixed :
    (Standin.request Standin.mixed 0).Preset ∧ Standin.mixed.Returnable ∧
      ∃ stub : Stub, stub.layout.size = 352 ∧ ∀ capacity,
        (Standin.request Standin.mixed 0).generate capacity =
          if stub.code.size ≤ capacity then .ok stub
          else .error (.codeTooLong stub.code.size capacity) := by
  have hpreset : (Standin.request Standin.mixed 0).Preset :=
    ⟨rfl, rfl, rfl, by decide, fun _ heq => nomatch heq⟩
  have hreturns : Standin.mixed.Returnable := by decide
  obtain ⟨_, _, hgenerates⟩ := preset_generates_iff hpreset
  obtain ⟨b, hb, _, hsmall⟩ := hgenerates hreturns
  -- a stub that has been generated shows how large the frame is
  obtain ⟨known, hknown, hsize, _⟩ := Standin.exists_generate_mixed
  obtain ⟨b', _, hb', hbuilds⟩ := generate_builds hknown
  obtain rfl := Except.ok.inj (hb.symm.trans hb')
  rw [hbuilds.layout] at hsize
  obtain ⟨stub, hlayout, hgenerate⟩ := hsmall (by omega)
  exact ⟨hpreset, hreturns, stub, hlayout ▸ hsize, hgenerate⟩

end Request

end Trampoline
