import Trampoline.Proofs.Stub.Arguments

/-!
# Which stubs can be had

A blueprint becomes a stub unless its frame or its code is too large, and nothing else can go wrong
on the way.  Nearly every offset that an instruction carries is an offset in the frame, and so it
fits if the size of the frame does (`Sound.complete`).  The offsets of incoming stack arguments are
the exception.  They lie above the frame, and only the first of them is bounded by its size, since a
frame has room for the shadow space.  That the others are in reach if the first one is, is the
hypothesis `Blueprint.IncomingInReach`.

`Blueprint.build_of_complete` says what is left to go wrong, which is the capacity.
-/

set_option autoImplicit false

namespace Trampoline

/-! ## Drafts that can be had -/

theorem Draft.complete_ok {d : List (List Instruction)} : Complete (d.map Except.ok) := by
  intro piece hpiece
  obtain ⟨is, _, rfl⟩ := List.mem_map.1 hpiece
  exact ⟨is, rfl⟩

/-- Phases whose code can be had are laid down. -/
theorem exists_writePhases {e : Emission} {draft : Phase → Draft} {ps : List Phase}
    (h : ∀ p ∈ ps, (draft p).Complete) : ∃ e', e.writePhases draft ps = .ok e' := by
  induction ps generalizing e with
  | nil => exact ⟨e, rfl⟩
  | cons p rest ih =>
    obtain ⟨hp, hrest⟩ := List.forall_mem_cons.1 h
    rw [Emission.writePhases, Draft.instructions_eq_ok_iff.2 ⟨hp, rfl⟩]
    exact ih hrest

namespace Blueprint

variable {b : Blueprint} {o : FrameOffsets} {p : Phase} {m : Move} {area : Area} {offset : Int}

/-- If the frame pointer is in reach of the first of the caller's stack arguments, then it is in
reach of all of them. -/
def IncomingInReach (b : Blueprint) : Prop :=
  enterBytes + b.request.native.shadowSpace < 2 ^ 31 →
    ∀ offset, .incoming offset ∈ b.boundary.nativeArgs.locations →
      ((enterBytes + b.request.native.shadowSpace : Nat) : Int) + offset < 2 ^ 31

/-! ## Offsets -/

/-- The offsets in a frame that is not too large fit... -/
theorem exists_offsets (h : b.layout.size < 2 ^ 31) : ∃ o, b.offsets = .ok o := by
  obtain ⟨_, _, _, _, hdata, hstop⟩ := b.layout_order
  obtain ⟨size, hsize⟩ : ∃ imm, immediate ↑b.layout.size = .ok imm :=
    immediate_of_lt (by omega) (by omega)
  obtain ⟨data, hdata⟩ : ∃ imm, immediate ↑(b.layout.offset .frameData) = .ok imm :=
    immediate_of_lt (by omega) (by omega)
  rw [offsets, hsize]
  simp only [hdata]
  cases hbuffer : b.boundary.buffer with
  | none => exact ⟨_, rfl⟩
  | some pair =>
    obtain ⟨buffer, hbuffer'⟩ : ∃ imm, immediate ↑b.demand.dataStop = .ok imm :=
      immediate_of_lt (by omega) (by omega)
    simp only [span?_returnBuffer hbuffer, hbuffer']
    exact ⟨_, rfl⟩

/-- ...and in a frame that is, the first of them does not. -/
theorem offsets_of_le (h : 2 ^ 31 ≤ b.layout.size) :
    b.offsets = .error (.offsetTooLarge b.layout.size) := by
  rw [offsets, immediate_of_le (by omega)]
  rfl

namespace Sound

/-- A stack argument that the shuffle moves has an address. -/
theorem exists_address (h : b.Sound) (hsize : b.layout.size < 2 ^ 31) (hreach : b.IncomingInReach)
    (hl : b.InUse (.stack area offset)) : ∃ a, b.moveContext.address area offset = .ok a := by
  have horder := b.layout_order
  cases area with
  | incoming =>
    -- the frame has room for the shadow space and for the hooks' record, which is enough for what
    -- `enter` pushes
    have hshadow : b.request.native.shadowSpace ≤ b.demand.outArgBytes := Nat.le_max_right _ _
    have hbase : enterBytes + b.request.native.shadowSpace < 2 ^ 31 := by
      rw [enterBytes]
      rw [Frame.dataBytes] at horder
      omega
    obtain ⟨k, rfl⟩ := h.incoming_offset hl
    have hfit := hreach hbase _ hl
    obtain ⟨first, hfirst⟩ := immediate_of_lt
      (n := (enterBytes + b.request.native.shadowSpace : Nat)) (by omega) (by omega)
    obtain ⟨displacement, hdisplacement⟩ := immediate_of_lt (by omega) hfit
    rw [MoveContext.address]
    simp only [moveContext, hfirst, hdisplacement]
    exact ⟨_, rfl⟩
  | outgoing =>
    obtain ⟨k, rfl⟩ := h.outgoing_offset hl
    have hfit := h.outgoing_fits hl
    obtain ⟨displacement, hdisplacement⟩ := immediate_of_lt (n := 8 * (k : Int)) (by omega)
      (by omega)
    rw [MoveContext.address]
    simp only [hdisplacement]
    exact ⟨_, rfl⟩

/-- **All code of a stub can be had**, if its frame is not too large. -/
theorem complete (h : b.Sound) (hsize : b.layout.size < 2 ^ 31) (hreach : b.IncomingInReach)
    (p : Phase) : (b.draft o p).Complete := by
  obtain ⟨_, hresult, harg, hcallee, hdata, _⟩ := b.layout_order
  cases p with
  | prologue | invoke | epilogue => exact Draft.complete_ok (d := [_])
  | spillArgs => exact SaveArea.complete_spill (by omega)
  | preserveCallee => exact SaveArea.complete_spill (by omega)
  | onEntry => exact Draft.complete_block.2 (Draft.complete_ok (d := [_, _]))
  | shuffleArgs =>
    refine Draft.complete_block.2 (Draft.complete_append.2 ⟨Draft.complete_append.2
      ⟨SaveArea.complete_fill (by omega), ?_⟩, ?_⟩)
    · intro piece hpiece
      obtain ⟨m, hm, rfl⟩ := List.mem_map.1 hpiece
      obtain ⟨hsource, htarget, _⟩ := h.inUse_of_mem_moves hm
      refine MoveContext.exists_lower ?_
      rintro area offset (heq | heq)
      · exact h.exists_address hsize hreach (heq ▸ hsource)
      · exact h.exists_address hsize hreach (heq ▸ htarget)
    · cases o.buffer with
      | none => exact Draft.complete_ok (d := [])
      | some pair => exact Draft.complete_ok (d := [_])
  | resolveReceiver | onExit => exact Draft.complete_block.2 (Draft.complete_ok (d := [_]))
  | handleResult =>
    rw [draft, handleResult]
    split
    · exact Draft.complete_ok (d := [])
    · refine Draft.complete_cons.2 ⟨⟨_, rfl⟩, Draft.complete_addressed ?_⟩
      intro p hp
      have := SaveArea.slot_lt hp
      omega
  | spillResult => exact SaveArea.complete_spill (by omega)
  | restoreCallee => exact SaveArea.complete_fill (by omega)
  | fillResult => exact SaveArea.complete_fill (by omega)
  | exceptionHandler => exact Draft.complete_block.2 (Draft.complete_ok (d := [_, _]))

end Sound

/-- **A blueprint whose code can be had is a stub**, for those who have room for it. -/
theorem build_of_complete (ho : b.offsets = .ok o) (h : ∀ p, (b.draft o p).Complete) :
    ∃ stub : Stub, stub.shuffle = b.shuffle ∧ stub.layout = b.layout ∧ ∀ capacity,
      b.build capacity =
        if stub.code.size ≤ capacity then .ok stub
        else .error (.codeTooLong stub.code.size capacity) := by
  obtain ⟨body, hbody⟩ := @exists_writePhases {} (b.draft o) Phase.normal fun p _ => h p
  obtain ⟨whole, hwhole⟩ := @exists_writePhases body (b.draft o) [.exceptionHandler] fun p _ => h p
  refine ⟨{
    name := b.request.name
    code := ⟨whole.instructions⟩
    layout := b.layout
    shuffle := b.shuffle
    handlerOffset := body.offset
    marks := whole.marks
    method := b.request.method
    receiver := b.request.receiver }, rfl, rfl, fun capacity => ?_⟩
  rw [build]
  refine bind_of_eq_ok ho (bind_of_eq_ok hbody (bind_of_eq_ok hwhole ?_))
  rw [Emission.finish, Code.assemble, Code.size]
  split
  · rfl
  · rfl

end Blueprint

end Trampoline
