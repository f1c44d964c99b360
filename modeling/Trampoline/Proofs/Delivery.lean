import Trampoline.Proofs.Stub.Contract

/-!
# Arguments reach the method

What a method finds when a stub calls it: every argument where the runtime's convention wants it,
the receiver in front of them, and in their registers the thread, the method's own metadata and the
address of the return buffer, if there is one (`Request.Delivers`).  This is so however the entry
hook has treated the registers; it has to leave alone the bytes that the arguments are in while it
runs (`Request.ArgumentByte`), and neither its thread nor the receiver's slot nor the method's cell
may lie in the frame (`Request.Outside`).

A value of a vector register arrives as a whole unless it has to be parked on the way, since the
register for that is a general one.  Which values these are can be read off the moves of the
shuffle.
-/

set_option autoImplicit false

namespace Trampoline

namespace Request

variable (r : Request)

/-- The bytes that the arguments are in during the entry hook: the save area, and what the native
caller has left on the stack. -/
def ArgumentByte (stub : Stub) (a : Word) : Prop :=
  a ∈ stub.region .argSave ∨ ∃ offset, .incoming offset ∈ r.nativeArgs.locations ∧
    a ∈ Extent.word (r.argumentStart + BitVec.ofInt 64 offset)

/-- What a stub reads and writes outside of its frame lies outside of it, and what it writes there
is not the method's entry. -/
structure Outside (stub : Stub) (cellAt : Word → Option CellId) (thread : Word) : Prop where
  callee : (calleeWord thread).Apart stub.frame
  receiver : (Extent.word r.receiver.slot).Apart stub.frame
  /-- If the machine has a cell there, no memory is read. -/
  cell : cellAt r.method.cellAddress = none →
    r.method.cellWord.Apart stub.frame ∧ r.method.cellWord.Apart (calleeWord thread)

/-- What the method finds, in terms of the state at the entry of the stub and the one that the entry
hook has left. -/
structure Delivers (bd : Boundary) (stub : Stub) (entry hooked call : Cpu) (thread : Word) :
    Prop where
  /-- The lower half of every argument arrives, and all of it between vector registers unless it has
  to be parked. -/
  argument : ∀ i source, r.nativeArgs[i]? = some source →
    ∃ target, r.runtimeArgs[i + 1]? = some target ∧
      (call.argument (call.general r.target.file.stackPointer.index)
          target.location).setWidth 64 =
        (entry.argument r.argumentStart source.location).setWidth 64 ∧
      ∀ s t, source.location = .register s → target.location = .register t →
        s.isGeneral = false → t.isGeneral = false →
        s = t ∨ ⟨.register s, .register r.target.roles.shuffle⟩ ∉ stub.shuffle.moves →
          call.register t = entry.register s
  receiver : ∃ slot, r.runtimeArgs[0]? = some slot ∧ slot.location = .register bd.receiver ∧
    call.register bd.receiver = (hooked.memory.readWord r.receiver.slot).setWidth 128
  threadRegister : call.general r.target.roles.thread.index = thread
  methodRegister : call.general r.target.roles.method.index = r.method.metadata
  announced : call.memory.readWord (thread + calleeOffset.signExtend 64) = r.method.metadata
  buffer : ∀ bytes buffer, bd.buffer = some (bytes, buffer) →
    call.general buffer.index = (stub.region .returnBuffer).start

end Request

namespace Blueprint.Sound

variable {b : Blueprint} {o : FrameOffsets} {stub : Stub} {c c' entry before : Cpu} {w : Wiring}

/-- An argument at the call, when the entry hook has left the state `c`. -/
theorem argument_call (h : b.Sound) (hb : b.Builds o stub) (hfits : b.request.target.file.Fits)
    (hc : b.OnFrame stub c) (hc' : c.executeAll w (b.toTarget o) = c')
    (hargs : b.argSave.Holds before.memory stub.frameBase (b.layout.offset .argSave) entry)
    (hbefore : ∀ a ∉ stub.frame, before.memory.byte a = entry.memory.byte a)
    (hkeeps : before.Keeps b.request.target.file (b.request.ArgumentByte stub) c)
    (hcallee : (calleeWord (c.general b.hookResult.index)).Apart (stub.region .outArgs))
    {m : Move} (hm : m ∈ b.shuffle.mapping) :
    c'.argument stub.frameBase m.target =
      b.shuffle.arrival m (entry.argument b.request.argumentStart m.source) := by
  have hsize := hb.size_lt
  have horder := hb.layout_order
  refine h.argument_toTarget hb hfits hc hc' (hargs.congr (by omega) ?_) ?_ hcallee hm
  · intro a ha
    exact hkeeps.bytes a (Or.inl (hb.region_eq.2.2.1 ▸ ha))
  · intro offset hoffset a ha
    rw [hkeeps.bytes a (Or.inr ⟨offset, h.nativeArgs ▸ hoffset, ha⟩),
      hbefore a (h.incoming_apart_frame hb hc hoffset a ha)]

end Blueprint.Sound

/-- The words of the stand-in runtime lie outside of a frame of this size. -/
theorem Standin.outside {stub : Stub} {cellAt : Word → Option CellId}
    (hsize : stub.layout.size = 352) :
    (request mixed 0).Outside stub cellAt thread where
  callee := thread_apart hsize
  receiver := by
    rw [Stub.frame, Stub.frameBase, hsize]
    exact Extent.apart_of_le (by decide) (by decide)
  cell _ := by
    rw [Stub.frame, Stub.frameBase, hsize]
    exact ⟨Extent.apart_of_le (by decide) (by decide), Extent.apart_of_le (by decide) (by decide)⟩

namespace Request

variable {σ : Type} {r : Request} {capacity : Nat} {stub : Stub} {m : Machine σ} {bd : Boundary}
  {thread : Register}

/-- **A stub calls the method with its arguments in place.**  The entry hook is called first; if it
returns, the method is called, at the entry that it has then. -/
theorem delivers_arguments (hstub : r.generate capacity = .ok stub) (hm : m.Enters r.target.file)
    (hbd : r.boundary = .ok bd) (hthread : r.native.first .intReturns = .ok thread)
    (hentry : ∀ before hooked, m.ReturnsIn stub .onEntry before hooked →
      before.Keeps r.target.file (r.ArgumentByte stub) hooked ∧
        r.Outside stub m.cellAt (hooked.general thread.index)) :
    (∃ here address, m.CallsIn stub .onEntry here address) ∧
      (∀ before hooked, m.ReturnsIn stub .onEntry before hooked →
        ∃ here address, m.CallsIn stub .invoke here address) ∧
      ∀ here address, m.CallsIn stub .invoke here address →
        ∃ before hooked, m.ReturnsIn stub .onEntry before hooked ∧
          address = hooked.entry m.cellAt r.method ∧
          r.Delivers bd stub m.cpu hooked here.cpu (hooked.general thread.index) := by
  obtain ⟨b, o, hblueprint, hb⟩ := generate_builds hstub
  obtain ⟨rfl, h⟩ := blueprint_sound hblueprint
  obtain rfl := Except.ok.inj (hbd.symm.trans h.boundary)
  obtain rfl := Except.ok.inj (hthread.symm.trans h.hookResult)
  refine ⟨?_, ?_, ?_⟩
  · obtain ⟨here, hreach, _⟩ := hb.exists_reaches_entry (m := m)
    exact ⟨here, _, (hb.callsIn_iff (by simp)).2 ⟨hreach, rfl⟩⟩
  · intro before hooked hr
    obtain ⟨here, hreach, _⟩ := hb.exists_reaches_target hr
    exact ⟨here, _, (hb.callsIn_iff (by simp)).2 ⟨hreach, rfl⟩⟩
  intro here address hcall
  obtain ⟨hreach, haddress⟩ := (hb.callsIn_iff (by simp)).1 hcall
  obtain ⟨before, hooked, hr, hcpu⟩ := hb.reaches_target hreach
  obtain ⟨hkeeps, houtside⟩ := hentry before hooked hr
  obtain ⟨first, hfirst, rfl⟩ := hb.reaches_of_returnsIn (by simp) hr
  obtain ⟨hframe, _, hargs, hbefore⟩ := h.state_entry hb hm (hb.reaches_entry hfirst).symm
  have hhooked := hframe.keeps hkeeps
  have hcall := (h.frame_toTarget hb hm.fits hhooked hcpu.symm).1
  have hcallee := houtside.callee.of_subset hb.outArgs_subset
  obtain ⟨hthread, hmethod, hannounced, hscratch⟩ := h.roles_toTarget hb hm.fits hhooked hcpu.symm
  refine ⟨first.cpu, hooked, hr, ?_, ?_, ?_, hthread, hmethod, hannounced, ?_⟩
  · rw [← haddress, hscratch]
    refine h.entry_toTarget hb hm.fits hhooked hcpu.symm ?_
    intro hnone
    obtain ⟨hcell, hcell'⟩ := houtside.cell hnone
    exact ⟨hcell.of_subset hb.outArgs_subset, hcell'⟩
  · intro i source hsource
    rw [← h.nativeArgs] at hsource
    obtain ⟨target, htarget⟩ : ∃ target, b.boundary.runtimeArgs[i + 1]? = some target := by
      have hlt := (List.getElem?_eq_some_iff.1 hsource).1
      rw [← h.length] at hlt
      exact ⟨_, List.getElem?_tail ▸ List.getElem?_eq_getElem hlt⟩
    have harrival := h.argument_call hb hm.fits hhooked hcpu.symm hargs hbefore hkeeps hcallee
      (h.mem_mapping hsource htarget)
    refine ⟨target, h.runtimeArgs ▸ htarget, ?_, ?_⟩
    · rw [show here.cpu.general b.request.target.file.stackPointer.index = _ from hcall.stack,
        harrival, Shuffle.setWidth_arrival]
    · intro s t hs ht hs' ht' hmoves
      rw [hb.shuffle, ← h.scratch] at hmoves
      rw [hs, ht, Shuffle.arrival_of_isVector hs' ht' hmoves] at harrival
      exact harrival
  · obtain ⟨hgeneral, slot, rest, hruntime, hlocation⟩ := h.receiver
    refine ⟨slot, ?_, hlocation, ?_⟩
    · rw [← h.runtimeArgs, hruntime]
      rfl
    · rw [← Register.general_index hgeneral, Cpu.register_general,
        h.receiver_toTarget hb hm.fits hhooked hcpu.symm
          (houtside.receiver.of_subset hb.outArgs_subset)]
  · intro bytes buffer hbuffer
    rw [h.buffer_toTarget hb hm.fits hhooked hcpu.symm hbuffer, hb.region_returnBuffer hbuffer]

theorem delivers_arguments_mixed :
    ∃ stub bd hooked, ∃ here : Machine Unit,
      (Standin.request Standin.mixed 0).generate defaultCapacity = .ok stub ∧
      (Standin.request Standin.mixed 0).Delivers bd stub Standin.busyMachine.cpu hooked here.cpu
        Standin.thread ∧
      Standin.busyMachine.CallsIn stub .invoke here
        (hooked.entry Standin.busyMachine.cellAt (Standin.method 0)) := by
  obtain ⟨stub, hstub, hsize, hlength⟩ := Standin.exists_generate_mixed
  obtain ⟨m', hrun⟩ := Standin.exists_run_busyMachine hstub hlength
  obtain ⟨b, o, hblueprint, hb⟩ := generate_builds hstub
  obtain ⟨hrequest, h⟩ := blueprint_sound hblueprint
  have hbd := h.boundary
  rw [hrequest] at hbd
  obtain ⟨hooked, _, _, hr, _⟩ := hb.chain_of_run hrun
  have hthread : ∀ {before hooked}, Standin.busyMachine.ReturnsIn stub .onEntry before hooked →
      hooked.general (Register.general 0).index = Standin.thread :=
    fun hr => Standin.thread_of_returnsIn hr
  obtain ⟨_, htarget, hcalls⟩ := delivers_arguments hstub Standin.enters_busyMachine hbd rfl
    fun before hooked hr => ⟨(Standin.serves_busyMachine _).keeps hr, by
      rw [hthread hr]
      exact Standin.outside hsize⟩
  obtain ⟨here, address, hcall⟩ := htarget _ _ hr
  obtain ⟨before, hooked', hr', haddress, hdelivers⟩ := hcalls here address hcall
  rw [hthread hr'] at hdelivers
  exact ⟨stub, _, hooked', here, hstub, hdelivers, haddress ▸ hcall⟩

end Request

end Trampoline
