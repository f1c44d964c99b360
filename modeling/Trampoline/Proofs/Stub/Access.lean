import Trampoline.Proofs.Stub.Arguments

/-!
# What a stub accesses

An instruction that accesses memory names a register, a base and an offset, and from these one can
read off which bytes it reads or writes (`Instruction.access?`, `Cpu.byte_execute`).  This file goes
through the code of all phases and lists what they access (`Blueprint.Touches`): save areas and
outgoing arguments by the stack pointer, incoming arguments by the frame pointer, and a few words by
registers that the stub keeps for itself.

`Phase.owner?` says which region of the frame a phase has to do with when it goes by the stack
pointer.  For every region there is at most one phase that stores into it and at most one that loads
from it.
-/

set_option autoImplicit false

namespace Trampoline

/-! ## Accesses -/

/-- The two ways to access memory. -/
inductive Direction
  | load
  | store
  deriving DecidableEq

/-- A register, and the bytes at an offset from a base that it is loaded from or stored to. -/
structure Access where
  register : Register
  base : RegIndex
  offset : Int
  width : Nat
  deriving DecidableEq

namespace Access

/-- All of the bytes belong to a region, if the base is at the bottom of the frame. -/
def Within (a : Access) (span : Frame.Span) : Prop :=
  span.offset ≤ a.offset ∧ a.offset + a.width ≤ span.stop

/-- No byte belongs to both, if the bases are the same. -/
def Apart (a a' : Access) : Prop :=
  a.offset + a.width ≤ a'.offset ∨ a'.offset + a'.width ≤ a.offset

/-- The bytes, in a state. -/
def bytes (a : Access) (c : Cpu) : Extent :=
  ⟨c.general a.base + BitVec.ofInt 64 a.offset, a.width⟩

theorem bytes_mk {c : Cpu} {register : Register} {base : RegIndex} {imm : Imm} {width : Nat} :
    (⟨register, base, imm.toInt, width⟩ : Access).bytes c = ⟨c.address base imm, width⟩ := by
  rw [bytes, Cpu.address, BitVec.signExtend]

end Access

/-- What an instruction accesses by a base and an offset.  What `enter` pushes and `leave` pops is
not among it, nor what a handle refers to. -/
def Instruction.access? : Instruction → Option (Direction × Access)
  | load target base offset => some (.load, ⟨target, base, offset.toInt, 8⟩)
  | store source base offset => some (.store, ⟨source, base, offset.toInt, 8⟩)
  | loadQuad target base offset => some (.load, ⟨.vector target, base, offset.toInt, 16⟩)
  | storeQuad source base offset => some (.store, ⟨.vector source, base, offset.toInt, 16⟩)
  | loadAcquire target base offset => some (.load, ⟨.general target, base, offset.toInt, 8⟩)
  | _ => none

theorem Instruction.isComment_of_access? {i : Instruction} {x : Direction × Access}
    (h : i.access? = some x) : i.isComment = false := by
  cases i with
  | comment => cases h
  | _ => rfl

/-- Apart from what is pushed, an instruction writes no bytes but those that it says. -/
theorem Cpu.byte_execute {w : Wiring} {c : Cpu} {i : Instruction} {x : Word} (hi : i ≠ .enter)
    (h : ∀ a, i.access? = some (.store, a) → x ∉ a.bytes c) :
    (c.execute w i).memory.byte x = c.memory.byte x := by
  cases i with
  | enter => exact absurd rfl hi
  | store source base offset =>
    have hx := h _ rfl
    rw [Access.bytes_mk] at hx
    rw [execute, memory_writeWord, Memory.byte_writeWord_of_not_mem hx]
  | storeQuad source base offset =>
    have hx := h _ rfl
    rw [Access.bytes_mk] at hx
    rw [execute, memory_writeQuad, Memory.byte_writeQuad_of_not_mem hx]
  | _ => rw [Cpu.memory_execute rfl]

/-- The accesses of a row of instructions, in order. -/
def accesses (is : List Instruction) : List (Direction × Access) :=
  is.filterMap Instruction.access?

/-- The accesses of instructions that carry offsets. -/
theorem accesses_addressed {α : Type} {offset : α → Int} {i : α → Imm → Instruction}
    (access : α → Int → Direction × Access) {xs : List α}
    (hi : ∀ x imm, (i x imm).access? = some (access x imm.toInt))
    (h : Draft.Complete (xs.map fun x => addressed (offset x) (i x))) :
    accesses (Draft.code (xs.map fun x => addressed (offset x) (i x))) =
      xs.map fun x => access x (offset x) := by
  induction xs with
  | nil => rfl
  | cons x rest ih =>
    obtain ⟨imm, himm, hcode, hrest⟩ := Draft.code_addressed_cons h
    rw [hcode, accesses, List.filterMap_cons_some (hi x imm), Imm.toInt_of_ofInt? himm,
      List.map_cons]
    exact congrArg _ (ih hrest)

namespace SaveArea

/-- The access to a slot of an area that begins at an offset from a base. -/
def access (a : SaveArea) (base : RegIndex) (offset : Nat) (slot : Register × Nat) : Access :=
  ⟨slot.1, base, ↑(offset + slot.2), a.keep.width slot.1⟩

variable {keep : Keep} {base : RegIndex} {offset : Nat} {r : Register} {imm : Imm}
  {pairs : List (Register × Nat)}

theorem access?_store :
    (keep.store r base imm).access? = some (.store, ⟨r, base, imm.toInt, keep.width r⟩) := by
  obtain ⟨bank, i⟩ := r
  cases keep <;> cases bank <;> rfl

theorem access?_load :
    (keep.load r base imm).access? = some (.load, ⟨r, base, imm.toInt, keep.width r⟩) := by
  obtain ⟨bank, i⟩ := r
  cases keep <;> cases bank <;> rfl

theorem accesses_loadDraft (h : (loadDraft keep base offset pairs).Complete) :
    accesses (loadDraft keep base offset pairs).code =
      pairs.map fun q => (.load, ⟨q.1, base, ↑(offset + q.2), keep.width q.1⟩) :=
  accesses_addressed (fun (q : Register × Nat) n => (.load, ⟨q.1, base, n, keep.width q.1⟩))
    (fun _ _ => access?_load) h

variable {area : SaveArea} {reg : Register} {x : Direction × Access}

/-- Storing an area accesses each of its slots, -/
theorem mem_accesses_spill (h : (area.spill reg offset).Complete) :
    x ∈ accesses (area.spill reg offset).code ↔
      ∃ slot ∈ area.slots, (.store, area.access reg.index offset slot) = x := by
  have hall : accesses (area.spill reg offset).code =
      area.slots.map fun slot => (.store, area.access reg.index offset slot) :=
    accesses_addressed (fun (q : Register × Nat) n =>
      (.store, ⟨q.1, reg.index, n, area.keep.width q.1⟩)) (fun _ _ => access?_store) h
  rw [hall, List.mem_map]

/-- and so does loading it. -/
theorem mem_accesses_fill (h : (area.fill reg offset).Complete) :
    x ∈ accesses (area.fill reg offset).code ↔
      ∃ slot ∈ area.slots, (.load, area.access reg.index offset slot) = x := by
  have hall : accesses (area.fill reg offset).code =
      area.slots.map fun slot => (.load, area.access reg.index offset slot) :=
    accesses_loadDraft h
  rw [hall, List.mem_map]

end SaveArea

theorem mem_accesses {is : List Instruction} {d : Direction} {a : Access} :
    (d, a) ∈ accesses is ↔ ∃ i ∈ is, i.access? = some (d, a) := List.mem_filterMap

theorem accesses_append {is js : List Instruction} :
    accesses (is ++ js) = accesses is ++ accesses js := List.filterMap_append

/-- A move accesses the stack where it reads or writes an argument there. -/
theorem MoveContext.exists_of_mem_accesses {ctx : MoveContext} {moves : List Move} {d : Direction}
    {a : Access} (ha : (d, a) ∈ accesses (Draft.code (moves.map ctx.lower))) :
    ∃ m ∈ moves, ∃ area offset imm, ctx.address area offset = .ok (a.base, imm) ∧
      a.offset = imm.toInt ∧ a.width = 8 ∧
      (d = .load ∧ m.source = .stack area offset ∨ d = .store ∧ m.target = .stack area offset) := by
  obtain ⟨i, hi, hia⟩ := mem_accesses.1 ha
  obtain ⟨piece, hpiece, hi⟩ := List.mem_flatMap.1 hi
  obtain ⟨m, hm, rfl⟩ := List.mem_map.1 hpiece
  refine ⟨m, hm, ?_⟩
  cases h : ctx.lower m with
  | error e =>
    rw [h] at hi
    cases hi
  | ok is =>
    rw [h] at hi
    change i ∈ is at hi
    rcases lower_eq_ok h with ⟨_, _, rfl, rfl⟩ | ⟨_, _, _, _, _, rfl, haddress, rfl⟩ |
      ⟨_, _, _, _, _, rfl, haddress, rfl⟩ |
      ⟨_, _, _, _, _, _, _, _, rfl, haddress, haddress', rfl⟩
    · obtain rfl := List.mem_singleton.1 hi
      cases hia
    · obtain rfl := List.mem_singleton.1 hi
      cases hia
      exact ⟨_, _, _, haddress, rfl, rfl, Or.inr ⟨rfl, rfl⟩⟩
    · obtain rfl := List.mem_singleton.1 hi
      cases hia
      exact ⟨_, _, _, haddress, rfl, rfl, Or.inl ⟨rfl, rfl⟩⟩
    · rcases List.mem_pair.1 hi with rfl | rfl
      · cases hia
        exact ⟨_, _, _, haddress, rfl, rfl, Or.inl ⟨rfl, rfl⟩⟩
      · cases hia
        exact ⟨_, _, _, haddress', rfl, rfl, Or.inr ⟨rfl, rfl⟩⟩

/-! ## The phases -/

/-- The region that a phase stores into, or loads from, by the stack pointer. -/
def Phase.owner? : Phase → Direction → Option Frame.Region
  | .spillArgs, .store | .shuffleArgs, .load => some .argSave
  | .shuffleArgs, .store => some .outArgs
  | .preserveCallee, .store | .restoreCallee, .load => some .calleeSave
  | .spillResult, .store | .fillResult, .load => some .resultSave
  | _, _ => none

/-- Nobody stores into the regions that are there for others. -/
theorem Phase.not_owner {p : Phase} {region : Frame.Region} (h : p.owner? .store = some region) :
    region ∉ [Frame.Region.deoptSpill, .frameData, .returnBuffer] := by
  cases p <;> cases h <;> decide

/-- What goes out by the stack pointer is not read back. -/
theorem Phase.owner?_load_ne {p : Phase} {region : Frame.Region}
    (h : p.owner? .load = some region) : region ≠ .outArgs := by
  cases p <;> cases h <;> decide

namespace Blueprint

/-- The save area that fills a region. -/
def area? (b : Blueprint) : Frame.Region → Option SaveArea
  | .resultSave => some b.resultSave
  | .argSave => some b.argSave
  | .calleeSave => some b.calleeSave
  | _ => none

/-- What the code of the phases accesses. -/
inductive Touches (b : Blueprint) : Phase → Direction → Access → Prop
  | saved {p : Phase} {d : Direction} {region : Frame.Region} {area : SaveArea}
    {slot : Register × Nat} (howner : p.owner? d = some region)
    (harea : b.area? region = some area) (hslot : slot ∈ area.slots) :
    b.Touches p d (area.access b.sp (b.layout.offset region) slot)
  | incoming {register : Register} {offset : Int}
    (home : .incoming offset ∈ b.boundary.nativeArgs.locations) :
    b.Touches .shuffleArgs .load ⟨register, b.request.target.file.framePointer.index,
      ↑(enterBytes + b.request.native.shadowSpace) + offset, 8⟩
  | outgoing {register : Register} {offset : Int}
    (home : .outgoing offset ∈ Placement.locations b.boundary.runtimeArgs.tail) :
    b.Touches .shuffleArgs .store ⟨register, b.sp, offset, 8⟩
  | callee : b.Touches .invoke .store ⟨.general b.request.target.roles.method.index,
      b.request.target.roles.thread.index, calleeOffset.toInt, 8⟩
  | entry : b.Touches .invoke .load ⟨.general b.request.target.roles.scratch.index,
      b.request.target.roles.method.index, cellOffset.toInt, 8⟩
  | result {slot : Register × Nat} (hslot : slot ∈ b.resultSave.slots) :
    b.Touches .handleResult .load ⟨slot.1, b.request.target.roles.scratch.index, slot.2, 8⟩

variable {b : Blueprint} {o : FrameOffsets} {stub : Stub} {p : Phase} {d : Direction} {a : Access}
  {region : Frame.Region} {area : SaveArea} {slot : Register × Nat}

/-- The shuffle accesses what is reloaded and what is moved. -/
theorem mem_accesses_shuffleArgs {x : Direction × Access} :
    x ∈ accesses (b.code o .shuffleArgs) ↔
      x ∈ accesses (SaveArea.loadDraft b.argSave.keep b.sp (b.layout.offset .argSave)
        b.argSave.slots).code ∨
      x ∈ accesses (Draft.code (b.shuffle.moves.map b.moveContext.lower)) := by
  have hbuffer : accesses (b.bufferCode o) = [] := by
    rw [bufferCode]
    cases o.buffer <;> rfl
  have hcomment : ∀ text, accesses [.comment text] = [] := fun _ => rfl
  rw [code_shuffleArgs, ← List.singleton_append, List.append_assoc, accesses_append, hcomment,
    accesses_append, hcomment, accesses_append, accesses_append, hbuffer, List.nil_append,
    List.append_nil, List.append_nil, List.mem_append]

/-- What a phase saves or reloads is accessed there... -/
theorem Builds.mem_accesses_saved (hb : b.Builds o stub) (howner : p.owner? d = some region)
    (harea : b.area? region = some area) (hslot : slot ∈ area.slots) :
    (d, area.access b.sp (b.layout.offset region) slot) ∈ accesses (b.code o p) := by
  unfold Phase.owner? at howner
  split at howner <;> cases howner <;> cases harea
  · exact (SaveArea.mem_accesses_spill (hb.complete .spillArgs)).2 ⟨slot, hslot, rfl⟩
  · exact mem_accesses_shuffleArgs.2
      (Or.inl ((SaveArea.mem_accesses_fill hb.complete_shuffleArgs.1).2 ⟨slot, hslot, rfl⟩))
  · exact (SaveArea.mem_accesses_spill (hb.complete .preserveCallee)).2 ⟨slot, hslot, rfl⟩
  · exact (SaveArea.mem_accesses_fill (hb.complete .restoreCallee)).2 ⟨slot, hslot, rfl⟩
  · exact (SaveArea.mem_accesses_spill (hb.complete .spillResult)).2 ⟨slot, hslot, rfl⟩
  · exact (SaveArea.mem_accesses_fill (hb.complete .fillResult)).2 ⟨slot, hslot, rfl⟩

/-- **The code of a phase accesses what is listed, and nothing else.** -/
theorem Sound.touches (h : b.Sound) (hb : b.Builds o stub)
    (ha : (d, a) ∈ accesses (b.code o p)) : b.Touches p d a := by
  cases p with
  | prologue | onEntry | resolveReceiver | onExit | epilogue | exceptionHandler => cases ha
  | invoke =>
    rcases List.mem_pair.1 ha with ha | ha
    · cases ha
      exact .callee
    · cases ha
      exact .entry
  | spillArgs =>
    obtain ⟨slot, hslot, ⟨⟩⟩ := (SaveArea.mem_accesses_spill (hb.complete .spillArgs)).1 ha
    exact .saved rfl rfl hslot
  | preserveCallee =>
    obtain ⟨slot, hslot, ⟨⟩⟩ := (SaveArea.mem_accesses_spill (hb.complete .preserveCallee)).1 ha
    exact .saved rfl rfl hslot
  | spillResult =>
    obtain ⟨slot, hslot, ⟨⟩⟩ := (SaveArea.mem_accesses_spill (hb.complete .spillResult)).1 ha
    exact .saved rfl rfl hslot
  | restoreCallee =>
    obtain ⟨slot, hslot, ⟨⟩⟩ := (SaveArea.mem_accesses_fill (hb.complete .restoreCallee)).1 ha
    exact .saved rfl rfl hslot
  | fillResult =>
    obtain ⟨slot, hslot, ⟨⟩⟩ := (SaveArea.mem_accesses_fill (hb.complete .fillResult)).1 ha
    exact .saved rfl rfl hslot
  | handleResult =>
    rw [code_handleResult] at ha
    cases ho : o.buffer with
    | none =>
      rw [ho] at ha
      cases ha
    | some pair =>
      rw [ho] at ha
      change (d, a) ∈ accesses (SaveArea.loadDraft .low _ 0 b.resultSave.slots).code at ha
      rw [SaveArea.accesses_loadDraft (hb.complete_handleResult ho)] at ha
      obtain ⟨slot, hslot, ha⟩ := List.mem_map.1 ha
      rw [Nat.zero_add] at ha
      cases ha
      exact .result hslot
  | shuffleArgs =>
    rcases mem_accesses_shuffleArgs.1 ha with ha | ha
    · obtain ⟨slot, hslot, ⟨⟩⟩ :=
        (SaveArea.mem_accesses_fill hb.complete_shuffleArgs.1).1 ha
      exact .saved rfl rfl hslot
    · obtain ⟨m, hm, place, offset, imm, haddress, hoffset, hwidth, hcase⟩ :=
        MoveContext.exists_of_mem_accesses ha
      obtain ⟨register, base, _, _⟩ := a
      simp only at haddress hoffset hwidth
      subst hoffset hwidth
      rcases hcase with ⟨rfl, hs⟩ | ⟨rfl, ht⟩
      · have hsource := (Shuffle.source_of_mem_moves hm).resolve_left (by simp [hs])
        rw [h.sources_mapping, hs] at hsource
        cases place with
        | outgoing => exact absurd hsource h.not_outgoing_mem_nativeArgs
        | incoming =>
          obtain ⟨rfl, himm⟩ := MoveContext.address_incoming haddress
          rw [Imm.toInt_of_ofInt? himm]
          exact .incoming hsource
      · obtain ⟨_, htarget, hincoming⟩ := h.inUse_of_mem_moves hm
        rw [ht] at htarget hincoming
        cases place with
        | incoming => exact absurd rfl (hincoming offset)
        | outgoing =>
          obtain ⟨rfl, himm⟩ := MoveContext.address_outgoing haddress
          rw [Imm.toInt_of_ofInt? himm]
          exact .outgoing htarget

/-! ## Where the accesses are -/

/-- A save area fills its region. -/
theorem Builds.span?_area (hb : b.Builds o stub) (harea : b.area? region = some area) :
    stub.layout.span? region = some ⟨region, b.layout.offset region, area.bytes⟩ := by
  obtain ⟨_, hresult, harg, hcallee, _⟩ := b.demand.span?_layout
  rw [hb.layout]
  cases region with
  | resultSave =>
    cases harea
    exact Frame.Layout.span?_offset hresult
  | argSave =>
    cases harea
    exact Frame.Layout.span?_offset harg
  | calleeSave =>
    cases harea
    exact Frame.Layout.span?_offset hcallee
  | _ => cases harea

theorem Sound.area_nodup (h : b.Sound) (harea : b.area? region = some area) :
    area.registers.Nodup := by
  cases region with
  | resultSave =>
    cases harea
    exact h.nativeReturns_nodup
  | argSave =>
    cases harea
    exact h.nativeArgs_nodup
  | calleeSave =>
    cases harea
    exact b.request.native.preserved_nodup _
  | _ => cases harea

/-- The registers that a stub keeps for itself do not hold the stack. -/
theorem role_ne_frame {r : Register} (hr : r ∈ b.request.target.roles.registers) :
    r.index ≠ b.sp ∧ r.index ≠ b.request.target.file.framePointer.index := by
  obtain ⟨hgeneral, _, hkept⟩ := b.request.target.roles_sound hr
  obtain ⟨hfp, hsp⟩ := RegisterFile.holdsFrame_eq_false_iff _ |>.1 hkept
  rw [← Register.general_index hgeneral, ← general_fp] at hfp
  rw [← Register.general_index hgeneral, ← general_sp] at hsp
  exact ⟨fun heq => hsp (congrArg _ heq), fun heq => hfp (congrArg _ heq)⟩

/-- **By the stack pointer**: everything lies in the region that the phase has to do with. -/
theorem Sound.within_of_touches (h : b.Sound) (hb : b.Builds o stub) (ht : b.Touches p d a)
    (hbase : a.base = b.sp) :
    ∃ region span, p.owner? d = some region ∧ stub.layout.span? region = some span ∧
      a.Within span := by
  obtain ⟨hthread, hmethod, hscratch, _, _⟩ :=
    Roles.forall_mem_registers.1 fun _ => role_ne_frame (b := b)
  cases ht with
  | @saved _ _ region area slot howner harea hslot =>
    have hfit := SaveArea.slot_of_mem_slotsFrom hslot
    refine ⟨region, _, howner, hb.span?_area harea, ?_, ?_⟩
    · simp only [SaveArea.access]
      omega
    · simp only [SaveArea.access, Frame.Span.stop, SaveArea.bytes]
      omega
  | incoming => exact absurd hbase b.frame_index_ne.1
  | outgoing home =>
    obtain ⟨k, rfl⟩ := h.outgoing_offset home
    have hfit := h.outgoing_fits home
    refine ⟨_, _, rfl, by rw [hb.layout]; exact b.demand.span?_layout.1, ?_, ?_⟩
    · simp only
      omega
    · simp only [Frame.Span.stop]
      omega
  | callee => exact absurd hbase hthread.1
  | entry => exact absurd hbase hmethod.1
  | result => exact absurd hbase hscratch.1

/-- Where something is reloaded, nothing is accessed by the stack pointer but the save area. -/
theorem Sound.saved_of_touches (ht : b.Touches p d a) (howner : p.owner? d = some region)
    (hregion : region ≠ .outArgs) (hbase : d = .load → a.base = b.sp) :
    ∃ area slot, b.area? region = some area ∧ slot ∈ area.slots ∧
      a = area.access b.sp (b.layout.offset region) slot := by
  cases ht with
  | saved howner' harea hslot =>
    obtain rfl := Option.some.inj (howner'.symm.trans howner)
    exact ⟨_, _, harea, hslot, rfl⟩
  | incoming => exact absurd (hbase rfl) b.frame_index_ne.1
  | outgoing => exact absurd (Option.some.inj howner).symm hregion
  | callee | entry | result => cases howner

/-- **By the frame pointer**: the caller's arguments are read. -/
theorem Sound.incoming_of_touches (h : b.Sound) (ht : b.Touches p d a)
    (hbase : a.base = b.request.target.file.framePointer.index) :
    d = .load ∧ ↑(enterBytes + b.request.native.shadowSpace) ≤ a.offset := by
  obtain ⟨hthread, hmethod, hscratch, _, _⟩ :=
    Roles.forall_mem_registers.1 fun _ => role_ne_frame (b := b)
  cases ht with
  | incoming home =>
    obtain ⟨k, rfl⟩ := h.incoming_offset home
    refine ⟨rfl, ?_⟩
    simp only
    omega
  | saved | outgoing => exact absurd hbase.symm b.frame_index_ne.1
  | callee => exact absurd hbase hthread.2
  | entry => exact absurd hbase hmethod.2
  | result => exact absurd hbase hscratch.2

end Blueprint

/-- The slots of different registers do not overlap. -/
theorem SaveArea.eq_or_apart {a : SaveArea} {base : RegIndex} {offset : Nat}
    (h : a.registers.Nodup) {p q : Register × Nat} (hp : p ∈ a.slots) (hq : q ∈ a.slots) :
    a.access base offset p = a.access base offset q ∨
      (a.access base offset p).register ≠ (a.access base offset q).register ∧
        (a.access base offset p).Apart (a.access base offset q) := by
  have hpairs : a.slots.Pairwise fun p q => p.1 ≠ q.1 ∧ p.2 + a.keep.width p.1 ≤ q.2 := by
    refine List.Pairwise.and ?_ pairwise_slotsFrom
    rw [← List.pairwise_map]
    rwa [slots, map_fst_slotsFrom]
  refine List.Pairwise.forall_of_forall_of_flip (l := a.slots)
    (R := fun p q => a.access base offset p = a.access base offset q ∨
      (a.access base offset p).register ≠ (a.access base offset q).register ∧
        (a.access base offset p).Apart (a.access base offset q))
    (fun _ _ => Or.inl rfl) ?_ ?_ hp hq
  · refine hpairs.imp fun h => Or.inr ⟨h.1, Or.inl ?_⟩
    have := h.2
    simp only [access]
    omega
  · refine hpairs.imp fun h => Or.inr ⟨h.1.symm, Or.inr ?_⟩
    have := h.2
    simp only [access]
    omega

end Trampoline
