import Trampoline.Proofs.Stub.SaveArea

/-!
# Where a frame is

A stub that is entered at the top of the stack pushes the frame pointer and the link register and
sets up its frame below them.  This file places everything that a stub keeps in memory at a distance
from the lowest address of its frame (`Stub.frameBase`), so that two things are apart if their
distances are.  No frame is larger than an immediate can say (`Builds.size_lt`), which is all that
is needed for the distances not to wrap.

* `Stub.region` is a region of the frame, `framePair` what is pushed, and `Stub.frame` both
  together, with everything in between.
* `Demand.span?_layout` has the offset of every region.
* `Builds.mem_piece_iff` and its like turn membership into arithmetic.
-/

set_option autoImplicit false

namespace Trampoline

/-! ## Layouts -/

/-- A region that the frame has is at its offset. -/
theorem Frame.Layout.span?_offset {l : Layout} {r r' : Region} {offset size : Nat}
    (h : l.span? r = some ⟨r', offset, size⟩) : l.span? r = some ⟨r', l.offset r, size⟩ := by
  simp only [Layout.offset, h]

namespace Frame.Demand

variable (d : Demand)

/-- The end of the region that the hooks' record is in, which is the last one but for a return
buffer. -/
def dataStop : Nat :=
  d.outArgBytes + deoptBytes + d.resultBytes + d.argBytes + d.calleeBytes + dataBytes

/-- There is room for the slots that are asked for. -/
theorem slots_le_outArgBytes (h : 0 < d.alignment) : d.outSlots * 4 ≤ d.outArgBytes :=
  Nat.le_trans (le_roundUp _ h) (Nat.le_max_left _ _)

/-- Where the regions are. -/
theorem span?_layout :
    d.layout.span? .outArgs = some ⟨.outArgs, 0, d.outArgBytes⟩ ∧
    d.layout.span? .resultSave =
      some ⟨.resultSave, d.outArgBytes + deoptBytes, d.resultBytes⟩ ∧
    d.layout.span? .argSave =
      some ⟨.argSave, d.outArgBytes + deoptBytes + d.resultBytes, d.argBytes⟩ ∧
    d.layout.span? .calleeSave =
      some ⟨.calleeSave, d.outArgBytes + deoptBytes + d.resultBytes + d.argBytes,
        d.calleeBytes⟩ ∧
    d.layout.span? .frameData =
      some ⟨.frameData,
        d.outArgBytes + deoptBytes + d.resultBytes + d.argBytes + d.calleeBytes, dataBytes⟩ ∧
    d.layout.span? .returnBuffer =
      d.returnBuffer.map fun bytes => ⟨.returnBuffer, d.dataStop, bytes⟩ := by
  cases h : d.returnBuffer <;>
    simp [Layout.span?, layout, sizes, spansFrom, h, dataStop]

section

variable {start : Nat} {sizes : List (Region × Nat)} {s : Span}

theorem mem_spansFrom (h : s ∈ spansFrom start sizes) :
    start ≤ s.offset ∧ s.stop ≤ start + total Prod.snd sizes := by
  induction sizes generalizing start with
  | nil => cases h
  | cons first rest ih =>
    rw [total_cons]
    rcases List.mem_cons.1 h with rfl | h
    · exact ⟨Nat.le_refl _, by simp only [Span.stop]; omega⟩
    · have := ih h
      omega

/-- Regions lie one behind the other. -/
theorem pairwise_spansFrom : (spansFrom start sizes).Pairwise fun s t => s.stop ≤ t.offset := by
  induction sizes generalizing start with
  | nil => exact List.Pairwise.nil
  | cons first rest ih => exact List.pairwise_cons.2 ⟨fun t ht => (mem_spansFrom ht).1, ih⟩

end

/-- Every region ends in the frame. -/
theorem stop_le_size (h : 0 < d.alignment) {s : Span} (hs : s ∈ d.layout.spans) :
    s.stop ≤ d.layout.size := by
  have hstop := (mem_spansFrom hs).2
  rw [Nat.zero_add] at hstop
  exact Nat.le_trans hstop (le_roundUp _ h)

/-- Two regions are the same or do not overlap. -/
theorem eq_or_apart {s t : Span} (hs : s ∈ d.layout.spans) (ht : t ∈ d.layout.spans) :
    s = t ∨ s.stop ≤ t.offset ∨ t.stop ≤ s.offset := by
  refine List.Pairwise.forall_of_forall_of_flip (l := d.layout.spans)
    (R := fun s t : Span => s = t ∨ s.stop ≤ t.offset ∨ t.stop ≤ s.offset)
    (fun _ _ => Or.inl rfl) ?_ ?_ hs ht
  · exact pairwise_spansFrom.imp fun h => Or.inr (Or.inl h)
  · exact pairwise_spansFrom.imp fun h => Or.inr (Or.inr h)

/-- All regions fit into the frame. -/
theorem dataStop_le_size (h : 0 < d.alignment) :
    d.dataStop + d.returnBuffer.getD 0 ≤ d.layout.size := by
  have hround : total Prod.snd d.sizes ≤ d.layout.size := le_roundUp _ h
  have hsum : total Prod.snd d.sizes = d.dataStop + d.returnBuffer.getD 0 := by
    cases hb : d.returnBuffer <;> simp [sizes, hb, dataStop, Nat.add_assoc]
  rw [hsum] at hround
  exact hround

end Frame.Demand

/-- An alignment is a power of two, and no less than a word. -/
theorem Convention.exists_alignment (c : Convention) :
    8 ≤ c.alignment ∧ ∃ k, c.alignment = 2 ^ k := by
  have h := c.sound
  rw [Settings.fault?, orElse_eq_none_iff, Settings.alignmentFault?] at h
  have halign := h.1
  split at halign
  · rename_i hchecks
    rw [Bool.and_eq_true, decide_eq_true_eq] at hchecks
    obtain ⟨k, hk⟩ := exists_of_isPowerOfTwo hchecks.1
    exact ⟨hchecks.2, k, hk.trans (Nat.one_shiftLeft k)⟩
  · cases halign

theorem Convention.alignment_pos (c : Convention) : 0 < c.alignment :=
  Nat.lt_of_lt_of_le (by decide) c.exists_alignment.1

/-! ## Frames in memory -/

/-- What a stub pushes on entry: the frame pointer and above it the link register. -/
def framePair : Extent := ⟨stackTop - 16, 16⟩

namespace Stub

variable (s : Stub)

/-- The lowest address of the frame: what the stack pointer holds while the stub runs. -/
def frameBase : Word := stackTop - 16 - BitVec.ofNat 64 s.layout.size

/-- The bytes of the frame, and what is pushed above it. -/
def frame : Extent := ⟨s.frameBase, s.layout.size + enterBytes⟩

/-- The bytes of a region; none if the frame does not have it. -/
def region (r : Frame.Region) : Extent :=
  match s.layout.span? r with
  | some span => ⟨s.frameBase + BitVec.ofNat 64 span.offset, span.size⟩
  | none => ⟨s.frameBase, 0⟩

/-- The distance of an address from the lowest one of the frame. -/
def distance (a : Word) : Nat := (a - s.frameBase).toNat

end Stub

/-- The return buffer is the last region. -/
theorem Blueprint.span?_returnBuffer {b : Blueprint} {bytes : Nat} {reg : Register}
    (hbuffer : b.boundary.buffer = some (bytes, reg)) :
    b.layout.span? .returnBuffer = some ⟨.returnBuffer, b.demand.dataStop, bytes⟩ := by
  have hlayout := b.demand.span?_layout.2.2.2.2.2
  have hdemand : b.demand.returnBuffer = some bytes := by
    rw [Blueprint.demand, hbuffer]
    rfl
  rw [hdemand] at hlayout
  exact hlayout

/-- The regions lie one behind the other in the frame. -/
theorem Blueprint.layout_order (b : Blueprint) :
    b.demand.outArgBytes ≤ b.layout.offset .resultSave ∧
      b.layout.offset .resultSave + b.resultSave.bytes ≤ b.layout.offset .argSave ∧
      b.layout.offset .argSave + b.argSave.bytes ≤ b.layout.offset .calleeSave ∧
      b.layout.offset .calleeSave + b.calleeSave.bytes ≤ b.layout.offset .frameData ∧
      b.layout.offset .frameData + Frame.dataBytes ≤ b.demand.dataStop ∧
      b.demand.dataStop + b.demand.returnBuffer.getD 0 ≤ b.layout.size := by
  have hstop := b.demand.dataStop_le_size b.request.native.alignment_pos
  obtain ⟨_, hresult, harg, hcallee, hdata, _⟩ := b.demand.span?_layout
  simp only [Frame.Layout.offset, Blueprint.layout, hresult, harg, hcallee, hdata]
  simp only [Blueprint.demand, Frame.Demand.dataStop] at hstop ⊢
  omega

namespace Blueprint.Builds

variable {b : Blueprint} {o : FrameOffsets} {stub : Stub} {a : Word}

/-- The offsets that instructions carry. -/
theorem offsets_eq (h : b.Builds o stub) :
    Imm.ofInt? b.layout.size = some o.size ∧
      Imm.ofInt? (b.layout.offset .frameData) = some o.data ∧
      (b.boundary.buffer = none → o.buffer = none) ∧
      ∀ bytes reg, b.boundary.buffer = some (bytes, reg) →
        ∃ imm, Imm.ofInt? b.demand.dataStop = some imm ∧ o.buffer = some (imm, reg) := by
  have ho := h.offsets
  rw [Blueprint.offsets] at ho
  obtain ⟨size, hsize, ho⟩ := exists_of_bind_eq_ok ho
  obtain ⟨data, hdata, ho⟩ := exists_of_bind_eq_ok ho
  rw [immediate_eq_ok_iff] at hsize hdata
  cases hbuffer : b.boundary.buffer with
  | none =>
    rw [hbuffer] at ho
    obtain rfl := Except.ok.inj ho
    exact ⟨hsize, hdata, fun _ => rfl, fun _ _ h => (nomatch h)⟩
  | some pair =>
    obtain ⟨bytes, reg⟩ := pair
    rw [hbuffer] at ho
    simp only [span?_returnBuffer hbuffer] at ho
    obtain ⟨imm, himm, ho⟩ := exists_of_bind_eq_ok ho
    obtain rfl := Except.ok.inj ho
    refine ⟨hsize, hdata, fun h => (nomatch h), ?_⟩
    intro n r heq
    obtain ⟨rfl, rfl⟩ := Prod.mk.inj (Option.some.inj heq)
    exact ⟨imm, immediate_eq_ok_iff.1 himm, rfl⟩

/-- A frame is not larger than an immediate can say. -/
theorem size_lt (h : b.Builds o stub) : stub.layout.size < 2 ^ 31 := by
  have := lt_of_ofInt? h.offsets_eq.1
  rw [h.layout]
  omega

theorem mem_frame_iff : a ∈ stub.frame ↔ stub.distance a < stub.layout.size + enterBytes := Iff.rfl

/-- What is pushed lies behind the frame. -/
theorem mem_framePair_iff (h : b.Builds o stub) :
    a ∈ framePair ↔
      stub.layout.size ≤ stub.distance a ∧ stub.distance a < stub.layout.size + enterBytes := by
  have htop : stackTop - 16 = stub.frameBase + BitVec.ofNat 64 stub.layout.size := by
    rw [Stub.frameBase, BitVec.sub_add_cancel]
  have := h.size_lt
  rw [framePair, htop]
  exact Extent.mem_at_iff (by omega)

/-- The regions of a stub's frame lie one behind the other. -/
theorem layout_order (h : b.Builds o stub) :
    b.demand.outArgBytes ≤ b.layout.offset .resultSave ∧
      b.layout.offset .resultSave + b.resultSave.bytes ≤ b.layout.offset .argSave ∧
      b.layout.offset .argSave + b.argSave.bytes ≤ b.layout.offset .calleeSave ∧
      b.layout.offset .calleeSave + b.calleeSave.bytes ≤ b.layout.offset .frameData ∧
      b.layout.offset .frameData + Frame.dataBytes ≤ b.demand.dataStop ∧
      b.demand.dataStop + b.demand.returnBuffer.getD 0 ≤ stub.layout.size :=
  h.layout ▸ b.layout_order

/-- The save areas fill their regions. -/
theorem region_eq (h : b.Builds o stub) :
    stub.region .outArgs = ⟨stub.frameBase + BitVec.ofNat 64 0, b.demand.outArgBytes⟩ ∧
      stub.region .resultSave =
        ⟨stub.frameBase + BitVec.ofNat 64 (b.layout.offset .resultSave), b.resultSave.bytes⟩ ∧
      stub.region .argSave =
        ⟨stub.frameBase + BitVec.ofNat 64 (b.layout.offset .argSave), b.argSave.bytes⟩ ∧
      stub.region .calleeSave =
        ⟨stub.frameBase + BitVec.ofNat 64 (b.layout.offset .calleeSave), b.calleeSave.bytes⟩ := by
  obtain ⟨hout, hresult, harg, hcallee, _, _⟩ := b.demand.span?_layout
  simp only [Stub.region, h.layout, Frame.Layout.offset, Blueprint.layout, hout, hresult, harg,
    hcallee]
  exact ⟨trivial, rfl, rfl, rfl⟩

/-- The start of the return buffer. -/
theorem region_returnBuffer (h : b.Builds o stub) {bytes : Nat} {reg : Register}
    (hbuffer : b.boundary.buffer = some (bytes, reg)) :
    stub.region .returnBuffer = ⟨stub.frameBase + BitVec.ofNat 64 b.demand.dataStop, bytes⟩ := by
  simp only [Stub.region, h.layout, span?_returnBuffer hbuffer]

/-- A piece of the frame, in terms of the distance from its lowest address. -/
theorem mem_piece_iff (h : b.Builds o stub) {offset size : Nat}
    (hfit : offset + size ≤ stub.layout.size) :
    a ∈ (⟨stub.frameBase + BitVec.ofNat 64 offset, size⟩ : Extent) ↔
      offset ≤ stub.distance a ∧ stub.distance a < offset + size := by
  have := h.size_lt
  exact Extent.mem_at_iff (by omega)

/-- Outgoing arguments lie in the frame. -/
theorem outArgs_subset (h : b.Builds o stub) : ∀ a ∈ stub.region .outArgs, a ∈ stub.frame := by
  intro a ha
  have := h.layout_order
  have := h.size_lt
  rw [h.region_eq.1, h.mem_piece_iff (by omega)] at ha
  rw [mem_frame_iff]
  omega

end Blueprint.Builds

/-! ## The return buffer -/

namespace Blueprint.Sound

variable {b : Blueprint}

/-- A result takes as much room in the buffer as its register does in a save area. -/
theorem map_width_nativeReturns (h : b.Sound) :
    b.boundary.nativeReturns.registers.map Keep.whole.width =
      b.request.signature.returns.map Signature.bufferWidth := by
  have hwidth : Keep.whole.width = (fun g => if g then 8 else 16) ∘ Register.isGeneral := by
    funext r
    obtain ⟨bank, i⟩ := r
    cases bank <;> rfl
  have htype : Signature.bufferWidth =
      (fun g => if g then 8 else 16) ∘ fun t : ValueType => !t.isFloating := by
    funext t
    cases t <;> rfl
  rw [hwidth, htype, ← List.map_map, ← List.map_map,
    Placement.registers_returnsFrom? h.returnsFrom?
      (b.request.native.mem_sequence .intReturns).1
      (b.request.native.mem_sequence .floatReturns).1]

/-- The buffer has room for what is loaded from it. -/
theorem bytes_resultSave (h : b.Sound) {bytes : Nat} {reg : Register}
    (hbuffer : b.boundary.buffer = some (bytes, reg)) : b.resultSave.bytes ≤ bytes := by
  have hbytes : b.resultSave.bytes = b.request.signature.bufferBytes :=
    total_congr h.map_width_nativeReturns
  exact hbytes ▸ (h.buffered bytes reg hbuffer).1

end Blueprint.Sound

end Trampoline
