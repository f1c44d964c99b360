import Trampoline.Proofs.Stub.Blocks

/-!
# The argument moves in their frame

The code of the argument shuffle relies on conditions that `MoveContext.Room` lists, and this file
shows that the frame of a stub meets them (`Sound.room`).  A stack argument for the target lies in
the lowest region of the frame, since that region was made large enough for all of them, and a stack
argument of the caller lies above everything that was pushed.  Two of either kind are apart because
their offsets are different multiples of eight.

The offset of an incoming argument is bounded by what an immediate can say, for one reason only: it
is read by an instruction.  An argument that stays where it is would not be read, but none of those
is on the stack.

What the whole phase does follows (`Sound.content_shuffleArgs`): the arguments come back from the
save area, they are moved, and the runtime is told where results go.
-/

set_option autoImplicit false

namespace Trampoline

theorem le_foldl_max {ns : List Nat} {n start : Nat} (h : n ≤ start ∨ n ∈ ns) :
    n ≤ ns.foldl max start := by
  induction ns generalizing start with
  | nil => exact h.resolve_right List.not_mem_nil
  | cons first rest ih =>
    rw [List.foldl_cons]
    refine ih ?_
    rcases h with hle | hmem
    · exact Or.inl (Nat.le_trans hle (Nat.le_max_left _ _))
    · rcases List.mem_cons.1 hmem with rfl | hmem
      · exact Or.inl (Nat.le_max_right _ _)
      · exact Or.inr hmem

/-- The outgoing stack space reaches to the end of every argument, in slots. -/
theorem Shuffle.slotsUpTo_le {s : Shuffle} {m : Move} (hm : m ∈ s.mapping) :
    slotsUpTo m.target ≤ s.outSlots :=
  le_foldl_max (Or.inr (List.mem_map.2 ⟨m, hm, rfl⟩))

/-- What code that is called finds in the location of an argument, where the stack arguments begin
at the address `start`; above a word there are zeros. -/
def Cpu.argument (c : Cpu) (start : Word) : Location → Quad
  | .register r => c.register r
  | .stack _ offset => (c.memory.readWord (start + BitVec.ofInt 64 offset)).setWidth 128

/-- Where the native caller's stack arguments begin. -/
def Request.argumentStart (r : Request) : Word := stackTop + BitVec.ofNat 64 r.native.shadowSpace

namespace Blueprint

/-- The locations that the argument shuffle may read and write: any register that is neither the
temporary one nor part of the frame, and the stack arguments of both sides. -/
def InUse (b : Blueprint) : Location → Prop
  | .register r =>
    b.request.target.file.contains r = true ∧ b.request.target.file.holdsFrame r = false ∧
      r ≠ b.request.target.roles.secondScratch
  | .stack .incoming offset => .incoming offset ∈ b.boundary.nativeArgs.locations
  | .stack .outgoing offset => .outgoing offset ∈ Placement.locations b.boundary.runtimeArgs.tail

variable {b : Blueprint} {o : FrameOffsets} {stub : Stub} {c c' : Cpu} {offset : Int}
  {l : Location} {m : Move} {r : Register} {w : Wiring}

/-- The pieces of the code that brings the arguments to their places. -/
theorem Builds.complete_shuffleArgs (hb : b.Builds o stub) :
    (SaveArea.loadDraft b.argSave.keep b.sp (b.layout.offset .argSave) b.argSave.slots).Complete ∧
      Draft.Complete (b.shuffle.moves.map b.moveContext.lower) := by
  have hcomplete := hb.complete .shuffleArgs
  rw [draft, shuffleArgs, Draft.complete_block, Draft.complete_append,
    Draft.complete_append] at hcomplete
  exact hcomplete.1

/-- The pieces of the code that reads the return buffer. -/
theorem Builds.complete_handleResult (hb : b.Builds o stub) {pair : Imm × Register}
    (ho : o.buffer = some pair) :
    (SaveArea.loadDraft .low b.request.target.roles.scratch.index 0
      b.resultSave.slots).Complete := by
  have hall := hb.complete .handleResult
  rw [draft, handleResult, ho] at hall
  simp only [SaveArea.loadDraft, Nat.zero_add]
  exact (Draft.complete_cons.1 hall).2

namespace Sound

/-! ## Offsets -/

theorem incoming_offset (h : b.Sound) (hl : .incoming offset ∈ b.boundary.nativeArgs.locations) :
    ∃ k : Nat, offset = 8 * k := by
  rw [h.nativeArgs] at hl
  exact (Placement.stack_of_mem_arguments hl).2

theorem outgoing_offset (h : b.Sound)
    (hl : .outgoing offset ∈ Placement.locations b.boundary.runtimeArgs.tail) :
    ∃ k : Nat, offset = 8 * k := by
  have hmem : .outgoing offset ∈ b.boundary.runtimeArgs.locations :=
    List.map_subset _ (fun _ => List.mem_of_mem_tail) hl
  rw [h.runtimeArgs] at hmem
  exact (Placement.stack_of_mem_arguments hmem).2

/-- Native arguments are incoming ones... -/
theorem not_outgoing_mem_nativeArgs (h : b.Sound) :
    .outgoing offset ∉ b.boundary.nativeArgs.locations := by
  intro hl
  rw [h.nativeArgs] at hl
  cases (Placement.stack_of_mem_arguments hl).1

/-- The region for outgoing arguments has room for each of them. -/
theorem outgoing_fits (h : b.Sound) {k : Nat}
    (hl : .outgoing (8 * (k : Int)) ∈ Placement.locations b.boundary.runtimeArgs.tail) :
    8 * k + 8 ≤ b.demand.outArgBytes := by
  have hslots : Shuffle.slotsUpTo (.outgoing (8 * (k : Int))) ≤ b.shuffle.outSlots := by
    rw [← h.targets_mapping] at hl
    obtain ⟨m, hm, heq⟩ := List.mem_map.1 hl
    exact heq ▸ Shuffle.slotsUpTo_le hm
  have hvalue : Shuffle.slotsUpTo (.outgoing (8 * (k : Int))) = 2 * k + 2 := by
    simp only [Shuffle.slotsUpTo, stackArgBytes, Shuffle.slotBytes]
    rw [if_pos (by omega)]
    omega
  have hroom : b.shuffle.outSlots * 4 ≤ b.demand.outArgBytes :=
    b.demand.slots_le_outArgBytes b.request.native.alignment_pos
  omega

/-- The offset of an incoming argument is carried by an instruction. -/
theorem incoming_fits (h : b.Sound) (hb : b.Builds o stub) {k : Nat}
    (hl : .incoming (8 * (k : Int)) ∈ b.boundary.nativeArgs.locations) :
    enterBytes + b.request.native.shadowSpace + 8 * k < 2 ^ 31 := by
  rw [← h.sources_mapping] at hl
  obtain ⟨m, hm, hsource⟩ := List.mem_map.1 hl
  have hmoves : m.source ≠ m.target := by
    rw [hsource]
    exact (Shuffle.target_ne_incoming hm _).symm
  obtain ⟨m', hm', hsource'⟩ := Shuffle.exists_mem_moves hm hmoves
  obtain ⟨is, his⟩ := hb.complete_shuffleArgs.2 _ (List.mem_map_of_mem hm')
  rw [hsource] at hsource'
  obtain ⟨base, imm, haddress⟩ := MoveContext.address_of_lower his hsource'
  have himm := (MoveContext.address_incoming haddress).2
  have := lt_of_ofInt? himm
  simp only [moveContext] at this
  omega

/-! ## Places -/

/-- The distance of an incoming argument from the lowest address of the frame. -/
def incomingDistance (b : Blueprint) (stub : Stub) (k : Nat) : Nat :=
  stub.layout.size + (enterBytes + b.request.native.shadowSpace + 8 * k)

theorem place_incoming (hc : b.OnFrame stub c) (k : Nat) :
    b.moveContext.place c .incoming (8 * (k : Int)) =
      stub.frameBase + BitVec.ofNat 64 (incomingDistance b stub k) := by
  have hoffset : ((enterBytes + b.request.native.shadowSpace : Nat) : Int) + 8 * (k : Int) =
      ((enterBytes + b.request.native.shadowSpace + 8 * k : Nat) : Int) := by omega
  rw [MoveContext.place, incomingDistance, BitVec.ofNat_add stub.layout.size, ← BitVec.add_assoc,
    Stub.frameBase, BitVec.sub_add_cancel, ← hc.frame]
  simp only [moveContext]
  rw [hoffset, BitVec.ofInt_natCast]

theorem place_outgoing (hc : b.OnFrame stub c) (k : Nat) :
    b.moveContext.place c .outgoing (8 * (k : Int)) =
      stub.frameBase + BitVec.ofNat 64 (8 * k) := by
  have hoffset : 8 * (k : Int) = ((8 * k : Nat) : Int) := by omega
  rw [MoveContext.place, hoffset, BitVec.ofInt_natCast, ← hc.stack]
  rfl

/-- The bytes of a word at a distance from the lowest address of the frame. -/
theorem mem_word_at_iff {a : Word} {n : Nat} (hn : n + 8 ≤ 2 ^ 64) :
    a ∈ Extent.word (stub.frameBase + BitVec.ofNat 64 n) ↔
      n ≤ stub.distance a ∧ stub.distance a < n + 8 :=
  Extent.mem_at_iff hn

/-- **The frame of a stub has room for its argument moves.** -/
theorem room (h : b.Sound) (hb : b.Builds o stub) (hfits : b.request.target.file.Fits)
    (hc : b.OnFrame stub c) : b.moveContext.Room c b.InUse where
  temporary := by
    have hmem : b.request.target.roles.secondScratch ∈ b.request.target.roles.registers := by
      simp [Roles.mem_registers]
    obtain ⟨hgeneral, hcontains, hkept⟩ := b.request.target.roles_sound hmem
    have hne := RegisterFile.holdsFrame_eq_false_iff _ |>.1 hkept
    refine ⟨hgeneral, hfits.index_lt hcontains, ?_, ?_⟩
    · exact b.general_fp.symm ▸ hne.1
    · exact b.general_sp.symm ▸ hne.2
  registers := by
    rintro r ⟨hcontains, hkept, hne⟩
    have hframe := RegisterFile.holdsFrame_eq_false_iff _ |>.1 hkept
    refine ⟨hfits.index_lt hcontains, hne, ?_, ?_⟩
    · exact b.general_fp.symm ▸ hframe.1
    · exact b.general_sp.symm ▸ hframe.2
  apart := by
    intro offset hoffset area offset' hoffset' hne x hx hx'
    have horder := hb.layout_order
    have hsize := hb.size_lt
    obtain ⟨k, rfl⟩ := h.outgoing_offset hoffset
    have hfit := h.outgoing_fits hoffset
    rw [place_outgoing hc, mem_word_at_iff (by omega)] at hx'
    cases area with
    | incoming =>
      obtain ⟨k', rfl⟩ := h.incoming_offset hoffset'
      have hfit' := h.incoming_fits hb hoffset'
      rw [place_incoming hc, incomingDistance, mem_word_at_iff (by omega)] at hx
      omega
    | outgoing =>
      obtain ⟨k', rfl⟩ := h.outgoing_offset hoffset'
      have hfit' := h.outgoing_fits hoffset'
      rw [place_outgoing hc, mem_word_at_iff (by omega)] at hx
      have hk : k ≠ k' := fun heq => hne (heq ▸ rfl)
      omega

/-! ## The shuffle in its frame -/

/-- The homes of the native arguments are in use. -/
theorem inUse_of_mem_native (h : b.Sound) (hl : l ∈ b.boundary.nativeArgs.locations) :
    b.InUse l := by
  cases l with
  | register r =>
    have hr := Placement.mem_registers_iff.2 hl
    obtain ⟨hcontains, hkept⟩ := h.mem_nativeArgs hr
    exact ⟨hcontains, hkept, (h.roles_native r hr).2.2⟩
  | stack area offset =>
    cases area with
    | incoming => exact hl
    | outgoing => exact absurd hl h.not_outgoing_mem_nativeArgs

/-- So are the homes of the runtime's arguments, with the exception of the receiver's. -/
theorem inUse_of_mem_runtime (h : b.Sound)
    (hl : l ∈ Placement.locations b.boundary.runtimeArgs.tail) : b.InUse l := by
  cases l with
  | register r =>
    have hr := mem_tail_registers (Placement.mem_registers_iff.2 hl)
    obtain ⟨hcontains, hkept⟩ := h.mem_runtimeArgs hr
    refine ⟨hcontains, hkept, fun heq => h.roles_runtime r hr ?_⟩
    simp [Roles.mem_registers, heq]
  | stack area offset =>
    cases area with
    | outgoing => exact hl
    | incoming =>
      rw [← h.targets_mapping] at hl
      obtain ⟨m, hm, heq⟩ := List.mem_map.1 hl
      exact absurd heq (Shuffle.target_ne_incoming hm offset)

/-- The register for a value that is parked is in use as well. -/
theorem inUse_scratch (h : b.Sound) : b.InUse (.register b.shuffle.scratch) := by
  have hmem : b.request.target.roles.shuffle ∈ b.request.target.roles.registers := by
    simp [Roles.mem_registers]
  obtain ⟨_, hcontains, hkept⟩ := b.request.target.roles_sound hmem
  have hnodup := b.request.target.roles_nodup
  rw [h.scratch]
  refine ⟨hcontains, hkept, ?_⟩
  intro heq
  simp [Roles.registers, Roles.toList, heq] at hnodup

/-- The moves of the shuffle stay within what is in use. -/
theorem inUse_of_mem_moves (h : b.Sound) (hm : m ∈ b.shuffle.moves) :
    b.InUse m.source ∧ b.InUse m.target ∧ ∀ offset, m.target ≠ .incoming offset := by
  refine ⟨?_, ?_, ?_⟩
  · rcases Shuffle.source_of_mem_moves hm with heq | hs
    · exact heq ▸ h.inUse_scratch
    · exact h.inUse_of_mem_native (h.sources_mapping ▸ hs)
  · rcases Shuffle.target_of_mem_moves hm with heq | ht
    · exact heq ▸ h.inUse_scratch
    · exact h.inUse_of_mem_runtime (h.targets_mapping ▸ ht)
  · intro offset heq
    rcases Shuffle.target_of_mem_moves hm with hscratch | ht
    · rw [heq] at hscratch
      cases hscratch
    · obtain ⟨m', hm', htarget⟩ := List.mem_map.1 ht
      exact Shuffle.target_ne_incoming hm' offset (htarget.trans heq)

/-- An outgoing argument lies in the region for outgoing arguments. -/
theorem mem_outArgs (h : b.Sound) (hb : b.Builds o stub)
    (hl : .outgoing offset ∈ Placement.locations b.boundary.runtimeArgs.tail) {a : Word}
    (ha : a ∈ Extent.word (stub.frameBase + BitVec.ofInt 64 offset)) :
    a ∈ stub.region .outArgs := by
  have horder := hb.layout_order
  have hsize := hb.size_lt
  obtain ⟨k, rfl⟩ := h.outgoing_offset hl
  have hfit := h.outgoing_fits hl
  have hoffset : 8 * (k : Int) = ((8 * k : Nat) : Int) := by omega
  rw [hoffset, BitVec.ofInt_natCast, mem_word_at_iff (by omega)] at ha
  rw [hb.region_eq.1, hb.mem_piece_iff (by omega)]
  omega

/-- **The moves of the shuffle, carried out in the frame**: every location in use gets what the
moves say, and no byte changes but those of the outgoing arguments. -/
theorem execute_moves (h : b.Sound) (hb : b.Builds o stub)
    (hfits : b.request.target.file.Fits) (hc : b.OnFrame stub c)
    (hc' : c.executeAll w (Draft.code (b.shuffle.moves.map b.moveContext.lower)) = c') :
    (∀ l, b.InUse l → b.moveContext.content c' l =
      carryAll Location.way b.shuffle.moves (b.moveContext.content c) l) ∧
      ∀ a ∉ stub.region .outArgs, c'.memory.byte a = c.memory.byte a := by
  obtain ⟨_, hcontent, hbytes⟩ := MoveContext.content_draft (w := w) (h.room hb hfits hc)
    hb.complete_shuffleArgs.2 fun m hm => h.inUse_of_mem_moves hm
  rw [hc'] at hcontent hbytes
  refine ⟨hcontent, fun a ha => hbytes a ?_⟩
  intro m hm
  rintro ⟨area, offset, htarget, hmem⟩
  obtain ⟨_, hinUse, hout⟩ := h.inUse_of_mem_moves hm
  cases area with
  | incoming => exact hout offset htarget
  | outgoing =>
    rw [htarget] at hinUse
    have hplace : b.moveContext.place c .outgoing offset =
        stub.frameBase + BitVec.ofInt 64 offset := by rw [← hc.stack]; rfl
    rw [hplace] at hmem
    exact ha (h.mem_outArgs hb hinUse hmem)

/-! ## The phase as a whole -/

/-- The three parts of the phase: the arguments come back into their registers, they are moved, and
the runtime is told where results go. -/
theorem exists_parts (h : b.Sound) (hb : b.Builds o stub) (hc : b.OnFrame stub c)
    (hc' : c.executeAll w (b.code o .shuffleArgs) = c') :
    ∃ filled moved,
      c.executeAll w (SaveArea.loadDraft b.argSave.keep b.sp (b.layout.offset .argSave)
        b.argSave.slots).code = filled ∧
      filled.executeAll w (Draft.code (b.shuffle.moves.map b.moveContext.lower)) = moved ∧
      moved.executeAll w (b.bufferCode o) = c' ∧
      b.OnFrame stub filled ∧ b.OnFrame stub moved ∧
      filled.memory = c.memory ∧ c'.memory = moved.memory := by
  have hp : Phase.prologue ≠ .shuffleArgs ∧ Phase.epilogue ≠ .shuffleArgs := by decide
  have hcode := code_shuffleArgs b o
  have hexec : ((c.executeAll w (SaveArea.loadDraft b.argSave.keep b.sp (b.layout.offset .argSave)
      b.argSave.slots).code).executeAll w
        (Draft.code (b.shuffle.moves.map b.moveContext.lower))).executeAll w (b.bufferCode o) =
      c' := by
    rw [← hc', hcode, List.cons_append, Cpu.executeAll_cons, Cpu.executeAll_append,
      Cpu.executeAll_append, Cpu.executeAll_append]
    rfl
  refine ⟨_, _, rfl, rfl, hexec, ?_, ?_, ?_, ?_⟩
  · refine h.onFrame_part hb hp ?_ hc
    intro i hi
    simp [hcode, hi]
  · rw [← Cpu.executeAll_append]
    refine h.onFrame_part hb hp ?_ hc
    intro i hi
    rw [hcode]
    rcases List.mem_append.1 hi with hi | hi <;> simp [hi]
  · exact Cpu.memory_executeAll fun i hi => (SaveArea.mem_loadDraft hi).2.2.1
  · rw [← hexec]
    refine Cpu.memory_executeAll ?_
    intro i hi
    rcases h.bufferCode_eq hb with ⟨_, _, hbuffer⟩ | ⟨_, _, _, _, _, _, _, hbuffer⟩
    · rw [hbuffer] at hi
      cases hi
    · rw [hbuffer, List.mem_singleton] at hi
      rw [hi]
      rfl

/-- The phase keeps the frame where it is, and writes no byte but those of outgoing arguments. -/
theorem frame_shuffleArgs (h : b.Sound) (hb : b.Builds o stub)
    (hfits : b.request.target.file.Fits) (hc : b.OnFrame stub c)
    (hc' : c.executeAll w (b.code o .shuffleArgs) = c') :
    b.OnFrame stub c' ∧ ∀ a ∉ stub.region .outArgs, c'.memory.byte a = c.memory.byte a := by
  obtain ⟨filled, moved, _, hmoved, _, hfilled, _, hmemory, hmemory'⟩ := h.exists_parts hb hc hc'
  constructor
  · rw [← hc']
    exact h.onFrame_part hb (by decide) (List.Subset.refl _) hc
  · intro a ha
    rw [hmemory', (h.execute_moves hb hfits hfilled hmoved).2 a ha, hmemory]

theorem place_incoming_eq (hc : b.OnFrame stub c) :
    b.moveContext.place c .incoming offset =
      b.request.argumentStart + BitVec.ofInt 64 offset := by
  have henter : stackTop - 16 + BitVec.ofNat 64 enterBytes = stackTop := rfl
  rw [MoveContext.place, Request.argumentStart, ← henter, ← hc.frame, BitVec.add_assoc,
    BitVec.add_assoc, ← BitVec.ofInt_natCast, ← BitVec.ofInt_natCast, ← BitVec.ofInt_add,
    ← BitVec.ofInt_add]
  simp only [moveContext, Int.natCast_add, Int.add_assoc]

/-- The caller's stack arguments are not in the frame. -/
theorem incoming_apart_frame (h : b.Sound) (hb : b.Builds o stub) (hc : b.OnFrame stub c)
    (hl : .incoming offset ∈ b.boundary.nativeArgs.locations) :
    (Extent.word (b.request.argumentStart + BitVec.ofInt 64 offset)).Apart stub.frame := by
  have hsize := hb.size_lt
  obtain ⟨k, rfl⟩ := h.incoming_offset hl
  have hfit := h.incoming_fits hb hl
  intro a ha hframe
  rw [← place_incoming_eq hc, place_incoming hc, incomingDistance, mem_word_at_iff (by omega)] at ha
  rw [Builds.mem_frame_iff] at hframe
  omega

theorem nativeArgs_nodup (h : b.Sound) : b.boundary.nativeArgs.registers.Nodup := by
  have hlocations : b.boundary.nativeArgs.locations.Nodup :=
    h.sources_mapping ▸ b.shuffle.sources_nodup
  refine List.Nodup.filterMap ?_ hlocations
  intro l l' s hs hs'
  cases l <;> cases l' <;> simp_all [Location.register?]

/-- The native arguments are back in their registers before they are moved. -/
theorem register_fill (h : b.Sound) (hb : b.Builds o stub) (hfits : b.request.target.file.Fits)
    (hc : b.OnFrame stub c) {before : Cpu}
    (hargs : b.argSave.Holds c.memory stub.frameBase (b.layout.offset .argSave) before)
    (hr : r ∈ b.boundary.nativeArgs.registers) :
    (c.executeAll w (SaveArea.loadDraft b.argSave.keep b.sp (b.layout.offset .argSave)
      b.argSave.slots).code).register r = before.register r := by
  have hbase : .general b.sp ∉ b.argSave.registers :=
    sp_not_mem fun s hs => (h.mem_nativeArgs hs).2
  rw [← hc.stack] at hargs
  exact SaveArea.executeAll_fill hb.complete_shuffleArgs.1 (fun hmem => absurd hmem hbase)
    (fun s hs => hfits.index_lt (h.mem_nativeArgs hs).1) hargs hr

/-- Telling the runtime where results go takes no register that an argument is in. -/
theorem register_bufferCode (h : b.Sound) (hb : b.Builds o stub)
    (hr : r ∈ b.boundary.runtimeArgs.registers) :
    (c.executeAll w (b.bufferCode o)).register r = c.register r := by
  refine Cpu.register_executeAll ?_
  intro i hi
  rcases h.bufferCode_eq hb with ⟨_, _, hcode⟩ | ⟨bytes, reg, imm, hbuffer, hg, _, _, hcode⟩
  · rw [hcode] at hi
    cases hi
  · rw [hcode, List.mem_singleton] at hi
    subst hi
    refine ⟨rfl, fun hmem => (h.buffered bytes reg hbuffer).2.2.1 ?_⟩
    rw [Instruction.written, List.mem_singleton, Register.general_index hg] at hmem
    exact hmem ▸ hr

/-- **The phase brings every argument to its place.** -/
theorem content_shuffleArgs (h : b.Sound) (hb : b.Builds o stub)
    (hfits : b.request.target.file.Fits) (hc : b.OnFrame stub c)
    (hc' : c.executeAll w (b.code o .shuffleArgs) = c') {before : Cpu}
    (hargs : b.argSave.Holds c.memory stub.frameBase (b.layout.offset .argSave) before)
    (hstack : ∀ offset, .incoming offset ∈ b.boundary.nativeArgs.locations →
      ∀ a ∈ Extent.word (b.request.argumentStart + BitVec.ofInt 64 offset),
        c.memory.byte a = before.memory.byte a)
    (hm : m ∈ b.shuffle.mapping) :
    c'.argument stub.frameBase m.target =
      b.shuffle.arrival m (before.argument b.request.argumentStart m.source) := by
  obtain ⟨filled, moved, hfill, hmoved, hbuffer, hfilled, hframe, hmemory, hmemory'⟩ :=
    h.exists_parts hb hc hc'
  have hnative : m.source ∈ b.boundary.nativeArgs.locations := by
    rw [← h.sources_mapping]
    exact List.mem_map_of_mem hm
  have hruntime : m.target ∈ Placement.locations b.boundary.runtimeArgs.tail := by
    rw [← h.targets_mapping]
    exact List.mem_map_of_mem hm
  -- what the source holds when the moves begin
  have hsource : b.moveContext.content filled m.source =
      before.argument b.request.argumentStart m.source := by
    generalize m.source = source at hnative
    cases source with
    | register r =>
      rw [MoveContext.content, Cpu.argument, ← hfill]
      exact h.register_fill hb hfits hc hargs (Placement.mem_registers_iff.2 hnative)
    | stack area offset =>
      cases area with
      | outgoing => exact absurd hnative h.not_outgoing_mem_nativeArgs
      | incoming =>
        rw [MoveContext.content, Cpu.argument, place_incoming_eq hfilled, hmemory,
          Memory.readWord_congr (hstack offset hnative)]
  have hmove := (h.execute_moves hb hfits hfilled hmoved).1 _ (h.inUse_of_mem_runtime hruntime)
  rw [Shuffle.carryAll_moves hm, hsource] at hmove
  refine Eq.trans ?_ hmove
  -- what the target holds when the moves are done is still there at the end
  have hincoming := Shuffle.target_ne_incoming hm
  generalize m.target = target at hruntime hincoming
  cases target with
  | register r =>
    rw [MoveContext.content, Cpu.argument, ← hbuffer]
    exact h.register_bufferCode hb (mem_tail_registers (Placement.mem_registers_iff.2 hruntime))
  | stack area offset =>
    cases area with
    | incoming => exact absurd rfl (hincoming offset)
    | outgoing =>
      rw [MoveContext.content, Cpu.argument, hmemory', ← hframe.stack]
      rfl

/-- The runtime is told where the return buffer is. -/
theorem buffer_shuffleArgs (h : b.Sound) (hb : b.Builds o stub)
    (hfits : b.request.target.file.Fits) (hc : b.OnFrame stub c)
    (hc' : c.executeAll w (b.code o .shuffleArgs) = c') {bytes : Nat} {reg : Register}
    (hbuffer : b.boundary.buffer = some (bytes, reg)) :
    c'.general reg.index = stub.frameBase + BitVec.ofNat 64 b.demand.dataStop := by
  obtain ⟨filled, moved, _, _, hlast, _, hframe, _, _⟩ := h.exists_parts hb hc hc'
  have hnamed : reg ∈ b.request.runtime.named := by
    rw [Convention.named, (h.buffered bytes reg hbuffer).2.1]
    simp
  have hlt := hfits.index_lt (h.runtime_named hnamed).1
  rcases h.bufferCode_eq hb with ⟨hnone, _, _⟩ | ⟨_, reg', imm, hsome, _, himm, _, hcode⟩
  · rw [hnone] at hbuffer
    cases hbuffer
  · obtain ⟨rfl, rfl⟩ := Prod.mk.inj (Option.some.inj (hsome.symm.trans hbuffer))
    rw [← hlast, hcode, Cpu.executeAll_cons, Cpu.executeAll_nil, Cpu.execute,
      Cpu.general_setGeneral _ _ hlt, if_pos rfl, Cpu.address_of_ofInt? himm, BitVec.ofInt_natCast,
      hframe.stack]

end Sound

end Blueprint

end Trampoline
