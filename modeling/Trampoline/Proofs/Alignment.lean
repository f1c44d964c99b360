import Trampoline.Proofs.Stub.Contract
import Trampoline.Proofs.Stub.StackPointer

/-!
# How the stack is aligned at the calls

The hooks are native code, and a native convention says what the stack pointer has to be a multiple
of when code is called.  A stub that is entered on an aligned stack sets up a frame whose size is a
multiple of the alignment.  But on entry it also pushes two words, and these it does not count.  So
at the calls it makes, the stack is as aligned as sixteen bytes are: for an alignment of eight or
sixteen that is what the convention asks for, and for any greater one the stack pointer is always
sixteen bytes below a multiple (`Request.aligns_calls`).
-/

set_option autoImplicit false

namespace Trampoline

/-! ## Multiples on the stack -/

/-- The greater of two powers of two is a multiple of the other one. -/
theorem dvd_of_le_of_pow {a b k l : Nat} (ha : a = 2 ^ k) (hb : b = 2 ^ l) (h : a ≤ b) : a ∣ b := by
  subst ha hb
  exact Nat.pow_dvd_pow 2 ((Nat.pow_le_pow_iff_right (by decide)).1 h)

section

variable {alignment n : Nat} {x : Word}

/-- How far a word is from a multiple, when something is subtracted from one.  The word may wrap,
and that does no harm if the number of words is a multiple as well. -/
theorem toNat_sub_mod (hall : alignment ∣ 2 ^ 64) (hx : alignment ∣ x.toNat) (hn : n < 2 ^ 64) :
    (x - BitVec.ofNat 64 n).toNat % alignment = (2 ^ 64 - n) % alignment := by
  rw [BitVec.toNat_sub, BitVec.toNat_ofNat, Nat.mod_eq_of_lt hn, Nat.mod_mod_of_dvd _ hall,
    Nat.add_mod, Nat.mod_eq_zero_of_dvd hx, Nat.add_zero, Nat.mod_mod]

/-- A multiple less a multiple is a multiple. -/
theorem dvd_toNat_sub (hall : alignment ∣ 2 ^ 64) (hx : alignment ∣ x.toNat) (hn : alignment ∣ n)
    (hlt : n < 2 ^ 64) : alignment ∣ (x - BitVec.ofNat 64 n).toNat := by
  refine Nat.dvd_of_mod_eq_zero ?_
  rw [toNat_sub_mod hall hx hlt]
  exact Nat.mod_eq_zero_of_dvd (Nat.dvd_sub hall hn)

/-- Sixteen bytes below a multiple of more than sixteen. -/
theorem toNat_sub_sixteen_mod (hall : alignment ∣ 2 ^ 64) (hx : alignment ∣ x.toNat)
    (h : 16 < alignment) : (x - 16).toNat % alignment = alignment - 16 := by
  obtain ⟨t, ht⟩ := hall
  have hrest : 2 ^ 64 - 16 = (alignment - 16) + alignment * (t - 1) := by
    cases t with
    | zero => omega
    | succ t =>
      rw [Nat.mul_succ] at ht
      rw [Nat.add_sub_cancel]
      omega
  rw [show (16 : Word) = BitVec.ofNat 64 16 from rfl, toNat_sub_mod ⟨t, ht⟩ hx (by decide), hrest,
    Nat.add_mul_mod_self_left, Nat.mod_eq_of_lt (by omega)]

end

/-! ## The frame of a stub -/

theorem Cpu.general_of_le {c : Cpu} {i : RegIndex} (h : bankSize ≤ i.toNat) : c.general i = 0 := by
  rw [general, Vector.getElem?_eq_none h]
  rfl

namespace Blueprint

variable {b : Blueprint} {o : FrameOffsets} {stub : Stub} {σ : Type} {m here : Machine σ}
  {p : Phase}

/-- The size of a frame is a multiple of the alignment, and so is the number of addresses. -/
theorem Builds.alignment_dvd (hb : b.Builds o stub) :
    b.request.native.alignment ∣ stub.layout.size ∧ b.request.native.alignment ∣ 2 ^ 64 := by
  obtain ⟨_, k, hk⟩ := b.request.native.exists_alignment
  have hsize : b.request.native.alignment ∣ stub.layout.size := by
    rw [hb.layout]
    exact b.demand.alignment_dvd_size
  have horder := hb.layout_order
  have hlt := hb.size_lt
  have hle : b.request.native.alignment ≤ stub.layout.size := by
    refine Nat.le_of_dvd ?_ hsize
    have hdata : Frame.dataBytes = 56 := rfl
    omega
  exact ⟨hsize, dvd_of_le_of_pow hk rfl (by omega)⟩

/-- The stack pointer at the calls, for a stub that is entered on an aligned stack. -/
theorem Sound.alignment_call (h : b.Sound) (hb : b.Builds o stub)
    (hfile : m.file = b.request.target.file)
    (haligned : b.request.native.alignment ∣ (m.cpu.general b.sp).toNat)
    (hkeeps : ∀ p ∈ [Phase.onEntry, .invoke, .onExit], ∀ before after,
      m.ReturnsIn stub p before after → after.general b.sp = before.general b.sp)
    (hp : p ∈ [Phase.onEntry, .invoke, .onExit]) (hr : m.Reaches stub here (b.callIndex o p)) :
    (b.request.native.alignment ≤ 16 →
      b.request.native.alignment ∣ (here.cpu.general b.sp).toNat) ∧
    (16 < b.request.native.alignment → b.sp.toNat < bankSize →
      (here.cpu.general b.sp).toNat % b.request.native.alignment =
        b.request.native.alignment - 16) := by
  obtain ⟨hsize, hall⟩ := hb.alignment_dvd
  obtain ⟨_, k, hk⟩ := b.request.native.exists_alignment
  have hlt := hb.size_lt
  rcases Nat.lt_or_ge b.sp.toNat bankSize with hexists | hmissing
  · -- less the size of the frame it is aligned, and the two words come on top
    have hsp : here.cpu.general b.sp =
        m.cpu.general b.sp - BitVec.ofNat 64 stub.layout.size - 16 := by
      rw [h.general_sp_call hb hkeeps hp hr, wiring_of_file hfile, hb.general_sp_prologue hexists,
        BitVec.sub_sub, BitVec.add_comm, ← BitVec.sub_sub]
    have hframe := dvd_toNat_sub hall haligned hsize (by omega)
    rw [hsp]
    refine ⟨fun hle => ?_, fun hgt _ => toNat_sub_sixteen_mod hall hframe hgt⟩
    exact dvd_toNat_sub hall hframe (dvd_of_le_of_pow (l := 4) hk rfl hle) (by decide)
  · refine ⟨fun _ => ?_, fun _ hexists => absurd hexists (Nat.not_lt.2 hmissing)⟩
    rw [Cpu.general_of_le hmissing]
    exact Nat.dvd_zero _

end Blueprint

namespace Request

variable {σ : Type} {r : Request} {capacity : Nat} {stub : Stub} {m here : Machine σ} {p : Phase}
  {address : Word}

/-- **The alignment of the stack at the calls** of a stub that is entered on an aligned stack: what
the native convention asks for, if that is no more than sixteen bytes; otherwise sixteen bytes too
low.

Called code has to give back the stack pointer, and may do anything else. -/
theorem aligns_calls (hstub : r.generate capacity = .ok stub) (hfile : m.file = r.target.file)
    (haligned : r.native.alignment ∣ (m.cpu.general r.target.file.stackPointer.index).toNat)
    (hcalls : ∀ p ∈ [Phase.onEntry, .invoke, .onExit], ∀ before after,
      m.ReturnsIn stub p before after →
        after.general r.target.file.stackPointer.index =
          before.general r.target.file.stackPointer.index)
    (hp : p ∈ [Phase.onEntry, .invoke, .onExit]) (hcall : m.CallsIn stub p here address) :
    (r.native.alignment ≤ 16 →
      r.native.alignment ∣ (here.cpu.general r.target.file.stackPointer.index).toNat) ∧
    (16 < r.native.alignment → r.target.file.stackPointer.index.toNat < bankSize →
      (here.cpu.general r.target.file.stackPointer.index).toNat % r.native.alignment =
        r.native.alignment - 16) := by
  obtain ⟨b, o, hblueprint, hb⟩ := generate_builds hstub
  obtain ⟨rfl, h⟩ := blueprint_sound hblueprint
  exact h.alignment_call hb hfile haligned hcalls hp
    ((hb.callsIn_iff (Phase.mem_calling hp)).1 hcall).1

theorem aligns_calls_mixed :
    ∃ stub, (Standin.request Standin.mixed 0).generate defaultCapacity = .ok stub ∧
      ∀ p ∈ [Phase.onEntry, .invoke, .onExit], ∃ here address,
        Standin.busyMachine.CallsIn stub p here address ∧ 16 ∣ (here.cpu.general 31).toNat := by
  obtain ⟨stub, hstub, _, hlength⟩ := Standin.exists_generate_mixed
  obtain ⟨m', hrun⟩ := Standin.exists_run_busyMachine hstub hlength
  obtain ⟨b, o, _, hb⟩ := generate_builds hstub
  obtain ⟨hooked, called, done, hr₁, hr₂, hr₃, _⟩ := hb.chain_of_run hrun
  refine ⟨stub, hstub, ?_⟩
  intro p hp
  have hreturns : ∃ before after, Standin.busyMachine.ReturnsIn stub p before after := by
    simp only [List.mem_cons, List.not_mem_nil, or_false] at hp
    rcases hp with rfl | rfl | rfl
    · exact ⟨_, _, hr₁⟩
    · exact ⟨_, _, hr₂⟩
    · exact ⟨_, _, hr₃⟩
  obtain ⟨before, after, hr⟩ := hreturns
  obtain ⟨here, address, hcall, _⟩ := hb.exists_callsIn hp hr
  have haligned := aligns_calls hstub rfl (by decide)
    (fun _ _ _ _ => Standin.general_sp_busyMachine) hp hcall
  exact ⟨here, address, hcall, haligned.1 (by decide)⟩

end Request

namespace Standin

/-- The native convention, but with a stack that is aligned to 32 bytes. -/
def wide : Convention where
  toSettings := { Convention.aapcs64.toSettings with alignment := 32 }
  sound := by decide

/-- The entry hook is called with a misaligned stack, although the stub was entered with an aligned
one. -/
theorem misaligns_calls :
    ∃ stub,
      ({ request mixed 0 with native := wide } : Request).generate defaultCapacity = .ok stub ∧
      32 ∣ (busyMachine.cpu.general 31).toNat ∧
      (∀ p before after, busyMachine.ReturnsIn stub p before after →
        after.general 31 = before.general 31) ∧
      ∃ here address, busyMachine.CallsIn stub .onEntry here address ∧
        ¬ 32 ∣ (here.cpu.general 31).toNat := by
  have hgenerate : (({ request mixed 0 with native := wide } : Request).generate
      defaultCapacity).toOption.map (fun _ => ()) = some () := by decide +kernel
  obtain ⟨stub, hstub, _⟩ := exists_of_map_toOption hgenerate
  obtain ⟨b, o, hblueprint, hb⟩ := Request.generate_builds hstub
  obtain ⟨hrequest, h⟩ := Request.blueprint_sound hblueprint
  obtain ⟨here, hreach, _⟩ := hb.exists_reaches_entry (m := busyMachine)
  have hsp : b.sp = 31 := by rw [Blueprint.sp, hrequest]; rfl
  have halignment : b.request.native.alignment = 32 := by rw [hrequest]; rfl
  have hmod := (h.alignment_call hb (by rw [hrequest]; rfl) (by rw [halignment, hsp]; decide)
    (hsp ▸ fun _ _ _ _ => general_sp_busyMachine) (by simp) hreach).2
      (by rw [halignment]; decide) (by rw [hsp]; decide)
  rw [halignment, hsp] at hmod
  refine ⟨stub, hstub, by decide, fun _ _ _ => general_sp_busyMachine, here, _,
    (hb.callsIn_iff (by simp)).2 ⟨hreach, rfl⟩, ?_⟩
  omega

end Standin

end Trampoline
