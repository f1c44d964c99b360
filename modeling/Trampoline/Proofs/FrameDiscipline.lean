import Trampoline.Proofs.Stub.Access
import Trampoline.Proofs.Stub.Contract

/-!
# Every access stays in its region

The sizes of the regions of a frame are computed in one place, from slots of four bytes, registers
of eight or sixteen, and a buffer for results; the offsets that instructions carry are computed in
others.  `Request.keeps_to_frame` says that they agree, for the code of any stub: whatever goes by
the stack pointer lies in the region that the phase has to do with, what was stored is reloaded from
where it was stored, and whatever goes by the frame pointer reads the caller's arguments.

So no instruction behind the prologue changes a byte of the regions that others store into, or one
outside of the frame (`Stub.KeepsToFrame.kept`).  The one store that may go anywhere is the one that
tells the thread which method is called.
-/

set_option autoImplicit false

namespace Trampoline

/-! ## What is to be shown -/

namespace Stub

/-- The instruction at an index is one of a phase. -/
structure Has (s : Stub) (p : Phase) (index : Nat) (i : Instruction) : Prop where
  phase : s.phaseAt? index = some p
  get : s.code.instructions[index]? = some i

/-- An instruction of a phase makes this access. -/
def Accesses (s : Stub) (p : Phase) (d : Direction) (a : Access) : Prop :=
  ∃ index i, s.Has p index i ∧ i.access? = some (d, a)

/-- When control comes to this index from the instructions in front of it, one register is this far
above another: one of these instructions has put the sum there, and those behind it have changed
neither. -/
def Derives (s : Stub) (p : Phase) (index : Nat) (register base : RegIndex) (distance : Int) :
    Prop :=
  ∃ start imm, start < index ∧ s.Has p start (.addImm register base imm) ∧
    imm.toInt = distance ∧
    ∀ k i, start < k → k < index → s.code.instructions[k]? = some i →
      i.isPlain = true ∧ i.isSteady = true ∧
        .general register ∉ i.written ∧ .general base ∉ i.written

/-- Every access of a stub is where it belongs in the frame, if native code is owed a shadow space
of this size. -/
structure KeepsToFrame (s : Stub) (t : Target) (shadowSpace : Nat) : Prop where
  /-- The regions do not overlap. -/
  ordered : s.layout.spans.Pairwise fun span next => span.stop ≤ next.offset
  /-- The regions lie in the frame. -/
  inside : ∀ span ∈ s.layout.spans, span.stop ≤ s.layout.size
  /-- The shadow space is part of the lowest region. -/
  shadow : ∃ size, s.layout.span? .outArgs = some ⟨.outArgs, 0, size⟩ ∧ shadowSpace ≤ size
  /-- The stub begins with what is pushed, and makes room for the frame below it. -/
  entered :
    ∃ size : Imm, size.toInt = s.layout.size ∧
      s.code.instructions.take 2 =
        [.enter, .addImm t.file.stackPointer.index t.file.stackPointer.index (-size)]
  /-- The frame stays where it is until it is taken down. -/
  steady :
    ∀ p index i, p ≠ .prologue → p ≠ .epilogue → s.Has p index i →
      i.isSteady = true ∧ t.file.stackPointer ∉ i.written ∧ t.file.framePointer ∉ i.written
  /-- What goes by the stack pointer lies in the region that it belongs to. -/
  stack :
    ∀ p d a, s.Accesses p d a → a.base = t.file.stackPointer.index →
      ∃ region span, p.owner? d = some region ∧ s.layout.span? region = some span ∧ a.Within span
  /-- A register that is saved is reloaded from the same place and in the same width, and different
  registers are saved in different places. -/
  slots :
    ∀ p p' region, p.owner? .store = some region → p'.owner? .load = some region →
      (∀ a, a.base = t.file.stackPointer.index → (s.Accesses p .store a ↔ s.Accesses p' .load a)) ∧
      ∀ a a', s.Accesses p .store a → s.Accesses p .store a' →
        a = a' ∨ a.register ≠ a'.register ∧ a.Apart a'
  /-- What goes by the frame pointer reads the caller's stack arguments. -/
  frame :
    ∀ p d a, s.Accesses p d a → a.base = t.file.framePointer.index →
      d = .load ∧ enterBytes + shadowSpace ≤ a.offset
  /-- Results that the method has left in memory are loaded from the return buffer. -/
  buffer :
    ∀ index i d a, s.Has .handleResult index i → i.access? = some (d, a) →
      d = .load ∧ ∃ distance span,
        s.Derives .handleResult index a.base t.file.stackPointer.index distance ∧
        s.layout.span? .returnBuffer = some span ∧
        ({ a with offset := distance + a.offset } : Access).Within span
  /-- Other than that, a word is stored for the thread and the entry of the method is loaded. -/
  other :
    ∀ p d a, s.Accesses p d a → a.base ≠ t.file.stackPointer.index →
      a.base ≠ t.file.framePointer.index → p = .handleResult ∨
        p = .invoke ∧ (d = .store → a.base = t.roles.thread.index ∧ a.offset = calleeOffset.toInt)
  /-- No instruction behind the prologue changes a byte outside of the frame, or a byte in a region
  that others store into, in whatever state it is executed.  The word for the thread is an
  exception: it is where the thread says. -/
  kept :
    ∀ p index i, p ≠ .prologue → s.Has p index i → ∀ (w : Wiring) (c : Cpu) (x : Word),
      (p = .invoke → x ∉ calleeWord (c.general t.roles.thread.index)) →
      (s.layout.size ≤ (x - c.general t.file.stackPointer.index).toNat ∨
        ∃ region ∈ [Frame.Region.deoptSpill, .frameData, .returnBuffer], ∃ span,
          s.layout.span? region = some span ∧
          span.offset ≤ (x - c.general t.file.stackPointer.index).toNat ∧
          (x - c.general t.file.stackPointer.index).toNat < span.stop) →
      (c.execute w i).memory.byte x = c.memory.byte x

end Stub

/-! ## The code of the phases -/

namespace Blueprint

variable {b : Blueprint} {o : FrameOffsets} {stub : Stub} {p : Phase} {index : Nat}
  {i : Instruction} {d : Direction} {a : Access} {w : Wiring} {c : Cpu} {x : Word}

theorem Builds.mem_code (hb : b.Builds o stub) (hi : stub.Has p index i)
    (hcomment : i.isComment = false) : i ∈ b.code o p := by
  obtain ⟨k, _, hk⟩ := hb.mem_phase hi.get hcomment hi.phase
  exact List.mem_of_getElem? hk

/-- The accesses of a phase are those of its code. -/
theorem Builds.accesses_iff (hb : b.Builds o stub) :
    stub.Accesses p d a ↔ (d, a) ∈ accesses (b.code o p) := by
  rw [mem_accesses]
  constructor
  · rintro ⟨index, i, hi, hia⟩
    exact ⟨i, hb.mem_code hi (Instruction.isComment_of_access? hia), hia⟩
  · rintro ⟨i, hi, hia⟩
    obtain ⟨k, hk⟩ := List.mem_iff_getElem?.1 hi
    exact ⟨_, i, ⟨hb.phaseAt?_eq hk (Instruction.isComment_of_access? hia), hb.get hk⟩, hia⟩

/-- Between entry and exit the two registers that hold the stack are not written. -/
theorem Sound.steady (h : b.Sound) (hb : b.Builds o stub) (hp : p ≠ .prologue)
    (hp' : p ≠ .epilogue) (hi : stub.Has p index i) :
    i.isSteady = true ∧ b.request.target.file.stackPointer ∉ i.written ∧
      b.request.target.file.framePointer ∉ i.written := by
  cases hcomment : i.isComment with
  | true =>
    cases i with
    | comment => exact ⟨rfl, List.not_mem_nil, List.not_mem_nil⟩
    | _ => cases hcomment
  | false =>
    obtain ⟨hsteady, hwritten⟩ := h.written_code hb hp hp' (hb.mem_code hi hcomment)
    have hframe := h.frame_not_written (p := p)
    exact ⟨hsteady, fun hmem => hframe.1 (hwritten _ hmem), fun hmem => hframe.2 (hwritten _ hmem)⟩

theorem Sound.ne_enter (h : b.Sound) (hb : b.Builds o stub) (hp : p ≠ .prologue)
    (hi : stub.Has p index i) : i ≠ .enter := by
  rintro rfl
  by_cases hp' : p = .epilogue
  · subst hp'
    rcases List.mem_pair.1 (hb.mem_code hi rfl) with heq | heq <;> cases heq
  · cases (h.steady hb hp hp' hi).1

theorem Builds.stop_le_size (hb : b.Builds o stub) {region : Frame.Region} {span : Frame.Span}
    (hspan : stub.layout.span? region = some span) : span.stop ≤ stub.layout.size := by
  rw [hb.layout] at hspan ⊢
  exact b.demand.stop_le_size b.request.native.alignment_pos (List.mem_of_find?_eq_some hspan)

/-- Two regions of the frame are the same or do not overlap. -/
theorem Builds.eq_or_apart (hb : b.Builds o stub) {region region' : Frame.Region}
    {span span' : Frame.Span} (hs : stub.layout.span? region = some span)
    (hs' : stub.layout.span? region' = some span') :
    region = region' ∨ span.stop ≤ span'.offset ∨ span'.stop ≤ span.offset := by
  rw [hb.layout, Frame.Layout.span?] at hs hs'
  rcases b.demand.eq_or_apart (List.mem_of_find?_eq_some hs) (List.mem_of_find?_eq_some hs') with
    rfl | happart
  · have hregion : span.region = region := by simpa using List.find?_some hs
    have hregion' : span.region = region' := by simpa using List.find?_some hs'
    exact Or.inl (hregion.symm.trans hregion')
  · exact Or.inr happart

/-- An access by the stack pointer, in terms of the distance from it. -/
theorem Builds.mem_bytes (hb : b.Builds o stub) {region : Frame.Region} {span : Frame.Span}
    (hspan : stub.layout.span? region = some span) (ha : a.Within span)
    (hx : x ∈ a.bytes c) :
    span.offset ≤ (x - c.general a.base).toNat ∧ (x - c.general a.base).toNat < span.stop := by
  obtain ⟨hlow, hhigh⟩ := ha
  have hstop := hb.stop_le_size hspan
  have hsize := hb.size_lt
  obtain ⟨n, hn⟩ : ∃ n : Nat, a.offset = n := ⟨a.offset.toNat, by omega⟩
  rw [Access.bytes, hn, BitVec.ofInt_natCast, Extent.mem_at_iff (by omega)] at hx
  omega

/-- **Nothing is stored where it does not belong**, in whatever state the code is. -/
theorem Sound.kept (h : b.Sound) (hb : b.Builds o stub) (hp : p ≠ .prologue)
    (hi : stub.Has p index i)
    (hcallee : p = .invoke → x ∉ calleeWord (c.general b.request.target.roles.thread.index))
    (hx : stub.layout.size ≤ (x - c.general b.sp).toNat ∨
      ∃ region ∈ [Frame.Region.deoptSpill, .frameData, .returnBuffer], ∃ span,
        stub.layout.span? region = some span ∧
        span.offset ≤ (x - c.general b.sp).toNat ∧ (x - c.general b.sp).toNat < span.stop) :
    (c.execute w i).memory.byte x = c.memory.byte x := by
  refine Cpu.byte_execute (h.ne_enter hb hp hi) ?_
  intro a hia hmem
  have ht := h.touches hb
    (mem_accesses.2 ⟨i, hb.mem_code hi (Instruction.isComment_of_access? hia), hia⟩)
  by_cases hbase : a.base = b.sp
  · obtain ⟨region, span, howner, hspan, hwithin⟩ := h.within_of_touches hb ht hbase
    have hstop := hb.stop_le_size hspan
    have hdistance := hb.mem_bytes hspan hwithin hmem
    rw [hbase] at hdistance
    rcases hx with hout | ⟨region', hregion', span', hspan', hin⟩
    · omega
    · rcases hb.eq_or_apart hspan hspan' with rfl | happart
      · exact Phase.not_owner howner hregion'
      · omega
  · cases ht with
    | saved | outgoing => exact hbase rfl
    | callee =>
      rw [Access.bytes_mk] at hmem
      exact hcallee rfl hmem

/-- What is stored is what is reloaded, and each register has a place of its own. -/
theorem Sound.slots (h : b.Sound) (hb : b.Builds o stub) {p' : Phase} {region : Frame.Region}
    (hp : p.owner? .store = some region) (hp' : p'.owner? .load = some region) :
    (∀ a, a.base = b.sp → (stub.Accesses p .store a ↔ stub.Accesses p' .load a)) ∧
      ∀ a a', stub.Accesses p .store a → stub.Accesses p .store a' →
        a = a' ∨ a.register ≠ a'.register ∧ a.Apart a' := by
  have hregion := Phase.owner?_load_ne hp'
  refine ⟨?_, ?_⟩
  · intro a hbase
    rw [hb.accesses_iff, hb.accesses_iff]
    constructor
    · intro ha
      obtain ⟨area, slot, harea, hslot, rfl⟩ :=
        Sound.saved_of_touches (h.touches hb ha) hp hregion fun _ => hbase
      exact hb.mem_accesses_saved hp' harea hslot
    · intro ha
      obtain ⟨area, slot, harea, hslot, rfl⟩ :=
        Sound.saved_of_touches (h.touches hb ha) hp' hregion fun _ => hbase
      exact hb.mem_accesses_saved hp harea hslot
  · intro a a' ha ha'
    rw [hb.accesses_iff] at ha ha'
    obtain ⟨area, slot, harea, hslot, rfl⟩ :=
      Sound.saved_of_touches (h.touches hb ha) hp hregion Direction.noConfusion
    obtain ⟨area', slot', harea', hslot', rfl⟩ :=
      Sound.saved_of_touches (h.touches hb ha') hp hregion Direction.noConfusion
    obtain rfl := Option.some.inj (harea.symm.trans harea')
    exact SaveArea.eq_or_apart (h.area_nodup harea) hslot hslot'

/-- The register that the results are loaded by holds the address of the buffer. -/
theorem Sound.derives (h : b.Sound) (hb : b.Builds o stub) {bytes : Nat} {reg : Register}
    (hbuffer : b.boundary.buffer = some (bytes, reg)) {k : Nat} (hk : 0 < k)
    (hlt : k < (b.code o .handleResult).length) :
    stub.Derives .handleResult (b.phaseIndex o .handleResult + k)
      b.request.target.roles.scratch.index b.sp b.demand.dataStop := by
  obtain ⟨imm, himm, ho⟩ := hb.offsets_eq.2.2.2 bytes reg hbuffer
  have hcode := code_handleResult b o
  rw [ho] at hcode
  have hfirst : (b.code o .handleResult)[0]? =
      some (b.frameAddress b.request.target.roles.scratch imm) := by rw [hcode]; rfl
  refine ⟨_, imm, Nat.lt_add_of_pos_right hk, ⟨hb.phaseAt?_eq hfirst rfl, hb.get hfirst⟩,
    Imm.toInt_of_ofInt? himm, ?_⟩
  intro index i hlow hhigh hget
  obtain ⟨j, rfl⟩ : ∃ j, index = b.phaseIndex o .handleResult + (j + 1) :=
    ⟨index - b.phaseIndex o .handleResult - 1, by omega⟩
  have hj : j + 1 < (b.code o .handleResult).length := by omega
  have hi := hb.get (List.getElem?_eq_getElem hj)
  rw [hget] at hi
  have hmem : i ∈ (SaveArea.loadDraft .low b.request.target.roles.scratch.index 0
      b.resultSave.slots).code := by
    rw [Option.some.inj hi]
    simp only [hcode, List.getElem_cons_succ]
    exact List.getElem_mem _
  obtain ⟨hplain, hsteady, _, q, hq, hwritten⟩ := SaveArea.mem_loadDraft hmem
  have hreturn : q.1 ∈ b.boundary.nativeReturns.registers := SaveArea.mem_registers_of_mem_slots hq
  have hscratch : b.request.target.roles.scratch ∈ b.request.target.roles.registers := by
    simp [Roles.mem_registers]
  rw [hwritten, List.mem_singleton, List.mem_singleton]
  refine ⟨hplain, hsteady, ?_, ?_⟩
  · rw [Register.general_index (Sound.isGeneral_roles b hscratch)]
    exact fun heq => (h.buffered bytes reg hbuffer).2.2.2.2 (heq ▸ hreturn)
  · exact fun heq => sp_not_mem (fun s hs => (h.mem_nativeReturns hs).2) (heq ▸ hreturn)

/-- The return buffer is read where it is. -/
theorem Sound.buffer (h : b.Sound) (hb : b.Builds o stub) (hi : stub.Has .handleResult index i)
    (hia : i.access? = some (d, a)) :
    d = .load ∧ ∃ distance span, stub.Derives .handleResult index a.base b.sp distance ∧
      stub.layout.span? .returnBuffer = some span ∧
      ({ a with offset := distance + a.offset } : Access).Within span := by
  have hcomment := Instruction.isComment_of_access? hia
  obtain ⟨k, rfl, hk⟩ := hb.mem_phase hi.get hcomment hi.phase
  have hlt := (List.getElem?_eq_some_iff.1 hk).1
  cases h.touches hb (mem_accesses.2 ⟨i, hb.mem_code hi hcomment, hia⟩) with
  | saved howner =>
    cases d <;> cases howner
  | @result slot hslot =>
    rcases h.bufferCode_eq hb with ⟨_, ho, _⟩ | ⟨bytes, reg, imm, hbuffer, _, _, ho, _⟩
    · rw [code_handleResult, ho] at hk
      cases hk
    · have hpos : 0 < k := by
        refine Nat.pos_of_ne_zero ?_
        rintro rfl
        rw [code_handleResult, ho] at hk
        cases hk
        cases hia
      have hfit := SaveArea.slot_of_mem_slotsFrom hslot
      have hbytes := h.bytes_resultSave hbuffer
      have hwidth := Keep.le_width b.resultSave.keep slot.1
      rw [SaveArea.bytes] at hbytes
      refine ⟨rfl, _, _, h.derives hb hbuffer hpos hlt, hb.layout ▸ span?_returnBuffer hbuffer,
        ?_, ?_⟩
      · simp only
        omega
      · simp only [Frame.Span.stop]
        omega

/-- **Every access of a stub is where it belongs.** -/
theorem Sound.keepsToFrame (h : b.Sound) (hb : b.Builds o stub) :
    stub.KeepsToFrame b.request.target b.request.native.shadowSpace where
  ordered := by
    rw [hb.layout]
    exact Frame.Demand.pairwise_spansFrom
  inside := by
    rw [hb.layout]
    exact fun span => b.demand.stop_le_size b.request.native.alignment_pos
  shadow := by
    rw [hb.layout]
    exact ⟨_, b.demand.span?_layout.1, Nat.le_max_right _ _⟩
  entered := by
    rw [hb.layout, hb.instructions]
    exact ⟨o.size, Imm.toInt_of_ofInt? hb.offsets_eq.1, rfl⟩
  steady p index i hp hp' hi := h.steady hb hp hp' hi
  stack p d a ha hbase := h.within_of_touches hb (h.touches hb (hb.accesses_iff.1 ha)) hbase
  slots p p' region hp hp' := h.slots hb hp hp'
  frame p d a ha hbase := h.incoming_of_touches (h.touches hb (hb.accesses_iff.1 ha)) hbase
  buffer index i d a hi hia := h.buffer hb hi hia
  other p d a ha hsp hfp := by
    cases h.touches hb (hb.accesses_iff.1 ha) with
    | saved | outgoing => exact absurd rfl hsp
    | incoming => exact absurd rfl hfp
    | callee => exact Or.inr ⟨rfl, fun _ => ⟨rfl, rfl⟩⟩
    | entry => exact Or.inr ⟨rfl, Direction.noConfusion⟩
    | result => exact Or.inl rfl
  kept p index i hp hi w c x hcallee hx := h.kept hb hp hi hcallee hx

end Blueprint

namespace Request

variable {r : Request} {capacity : Nat} {stub : Stub}

/-- **Every stub that is generated keeps to its frame.** -/
theorem keeps_to_frame (hstub : r.generate capacity = .ok stub) :
    stub.KeepsToFrame r.target r.native.shadowSpace := by
  obtain ⟨b, o, hblueprint, hb⟩ := generate_builds hstub
  obtain ⟨rfl, h⟩ := blueprint_sound hblueprint
  exact h.keepsToFrame hb

/-- A vector register is saved as a whole, and comes back from there. -/
theorem keeps_to_frame_mixed :
    ∃ stub, (Standin.request Standin.mixed 0).generate defaultCapacity = .ok stub ∧
      stub.KeepsToFrame .aarch64 0 ∧
      stub.Accesses .spillArgs .store ⟨.vector 0, 31, 112, 16⟩ ∧
      stub.Accesses .shuffleArgs .load ⟨.vector 0, 31, 112, 16⟩ := by
  have hcode : ((Standin.request Standin.mixed 0).generate defaultCapacity).toOption.map
      (fun s => (s.phaseAt? 10, s.code.instructions[10]?)) =
        some (some .spillArgs, some (.storeQuad 0 31 112)) := by decide +kernel
  obtain ⟨stub, hstub, hpair⟩ := exists_of_map_toOption hcode
  obtain ⟨hphase, hget⟩ := Prod.mk.inj hpair
  have hkeeps := keeps_to_frame hstub
  have hstore : stub.Accesses .spillArgs .store ⟨.vector 0, 31, 112, 16⟩ :=
    ⟨10, _, ⟨hphase, hget⟩, rfl⟩
  have hslots := (hkeeps.slots .spillArgs .shuffleArgs .argSave rfl rfl).1
  exact ⟨stub, hstub, hkeeps, hstore, (hslots _ rfl).1 hstore⟩

end Request

end Trampoline
