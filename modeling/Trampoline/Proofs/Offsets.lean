import Trampoline.Proofs.Stub.Contract

/-!
# Offsets, phases and indices say the same

Where something is in a piece of code is said three times over.  An emission counts bytes as it goes
and notes the count where a phase begins.  Finished code works out from its instructions where each
of them starts.  And what starts at a byte is found by going through the code.  Comments make this
less of a matter of course than it sounds, since they start somewhere and take no room.

## What is here

* `Code.startingAt?_eq_some_iff` — the way from an offset to an index and the way back.
* `Emission.Step` — what can be asked of an emission; what one step does (`apply_spec`), and from
  this by induction what steps do one after the other (`applyAll_spec`).
* `Stub.parts` — the code of a stub cut at its marks, and `Builds.parts_eq`, which says that the
  parts are the phases.
-/

set_option autoImplicit false

namespace Trampoline

/-! ## From offsets to indices and back -/

/-- Instructions without the comments among them. -/
def withoutComments (is : List Instruction) : List Instruction := is.filter fun i => !i.isComment

theorem withoutComments_flatMap {α : Type} (code : α → List Instruction) (xs : List α) :
    withoutComments (xs.flatMap code) = xs.flatMap fun x => withoutComments (code x) :=
  List.filter_flatMap

namespace Code

variable {code : Code} {offset index start first last : Nat} {xs ys zs : List Instruction}
  {p : Nat × Instruction}

/-- **What starts at a byte is the one instruction there that takes room.** -/
theorem startingAt?_eq_some_iff :
    code.startingAt? offset = some index ↔
      (∃ i, code.instructions[index]? = some i ∧ i.isComment = false) ∧
        code.offset? index = some offset := by
  constructor
  · intro h
    obtain ⟨i, hget, hi, hstart⟩ := startingAt?_spec h
    refine ⟨⟨i, hget, hi⟩, ?_⟩
    rw [offset?_of_lt _ (List.getElem?_eq_some_iff.1 hget).1, hstart]
  · rintro ⟨⟨i, hget, hi⟩, hoffset⟩
    rw [offset?_of_lt _ (List.getElem?_eq_some_iff.1 hget).1] at hoffset
    exact Option.some.inj hoffset ▸ startingAt?_of_get hget hi

/-- Where an instruction starts, or the code ends if there is none. -/
theorem getD_offset? (h : index ≤ code.instructions.length) :
    (code.offset? index).getD code.size = codeSize (code.instructions.take index) := by
  rcases Nat.lt_or_eq_of_le h with hlt | rfl
  · rw [offset?_of_lt _ hlt, Option.getD_some]
  · have hnone : code.offset? code.instructions.length = none :=
      List.getElem?_eq_none (Nat.le_of_eq (length_offsetsFrom _ _))
    rw [hnone, Option.getD_none, List.take_length, size]

/-! ## Code between two bytes -/

/-- Instructions with their starts, the first of them at `start`. -/
def placedFrom (start : Nat) (is : List Instruction) : List (Nat × Instruction) :=
  (offsetsFrom start is).zip is

theorem placedFrom_append :
    placedFrom start (xs ++ ys) = placedFrom start xs ++ placedFrom (start + codeSize xs) ys := by
  induction xs generalizing start with
  | nil => rfl
  | cons i rest ih =>
    rw [List.cons_append, placedFrom, offsetsFrom, List.zip_cons_cons, ← placedFrom, ih,
      codeSize_cons, Nat.add_assoc]
    rfl

theorem mem_placedFrom (h : p ∈ placedFrom start xs) :
    start ≤ p.1 ∧ p.1 + p.2.size ≤ start + codeSize xs := by
  induction xs generalizing start with
  | nil => cases h
  | cons i rest ih =>
    rw [codeSize_cons]
    rcases List.mem_cons.1 h with rfl | h
    · exact ⟨Nat.le_refl _, by simp only; omega⟩
    · have := ih h
      omega

/-- Whether this is an instruction that takes room and starts from `first` on and before `last`. -/
def realWithin (first last : Nat) (p : Nat × Instruction) : Bool :=
  !p.2.isComment && (first ≤ p.1 && p.1 < last)

theorem realWithin_eq_true_iff :
    realWithin first last p = true ↔ p.2.isComment = false ∧ first ≤ p.1 ∧ p.1 < last := by
  simp [realWithin]

theorem withoutComments_between_eq (code : Code) :
    withoutComments (code.between first last) =
      (code.placed.filter (realWithin first last)).map Prod.snd := by
  rw [withoutComments, between, List.filter_map, List.filter_filter]
  rfl

/-- An instruction that takes room starts before the end of what it lies in. -/
theorem lt_of_mem_placedFrom (h : p ∈ placedFrom start xs) (hp : p.2.isComment = false) :
    p.1 < start + codeSize xs := by
  have := (mem_placedFrom h).2
  have := Instruction.size_pos hp
  omega

theorem filter_placedFrom_of_apart (h : last ≤ start ∨ start + codeSize xs ≤ first) :
    (placedFrom start xs).filter (realWithin first last) = [] := by
  rw [List.filter_eq_nil_iff]
  intro p hp hreal
  obtain ⟨hroom, hrange⟩ := realWithin_eq_true_iff.1 hreal
  have := (mem_placedFrom hp).1
  have := lt_of_mem_placedFrom hp hroom
  omega

theorem filter_placedFrom_of_within (hfirst : first ≤ start) (hlast : start + codeSize xs ≤ last) :
    ((placedFrom start xs).filter (realWithin first last)).map Prod.snd = withoutComments xs := by
  have hsame : ∀ p ∈ placedFrom start xs,
      realWithin first last p = ((fun i => !i.isComment) ∘ Prod.snd) p := by
    intro p hp
    rw [Bool.eq_iff_iff, realWithin_eq_true_iff]
    constructor
    · rintro ⟨hroom, -⟩
      simp [hroom]
    · intro hroom
      have hroom : p.2.isComment = false := by simpa using hroom
      have := (mem_placedFrom hp).1
      have := lt_of_mem_placedFrom hp hroom
      exact ⟨hroom, by omega, by omega⟩
  have hsnd : (placedFrom start xs).map Prod.snd = xs :=
    List.map_snd_zip (Nat.le_of_eq (length_offsetsFrom _ xs).symm)
  rw [List.filter_congr hsame, ← List.filter_map, hsnd, withoutComments]

/-- What starts between the two ends of a part of the code is the part, comments apart: some of
those around the part start at its ends, too. -/
theorem withoutComments_between (h : code.instructions = xs ++ ys ++ zs) :
    withoutComments (code.between (codeSize xs) (codeSize xs + codeSize ys)) =
      withoutComments ys := by
  have hplaced : code.placed = placedFrom 0 xs ++ placedFrom (codeSize xs) ys ++
      placedFrom (codeSize xs + codeSize ys) zs := by
    rw [placed, offsets, h, ← placedFrom, placedFrom_append, placedFrom_append, codeSize_append,
      Nat.zero_add, Nat.zero_add]
  rw [withoutComments_between_eq, hplaced, List.filter_append, List.filter_append,
    filter_placedFrom_of_apart (.inr (Nat.le_of_eq (Nat.zero_add _))),
    filter_placedFrom_of_apart (.inl (Nat.le_refl _)), List.nil_append, List.append_nil,
    filter_placedFrom_of_within (Nat.le_refl _) (Nat.le_refl _)]

end Code

/-! ## Steps of an emission -/

namespace Emission

/-- What can be asked of an emission. -/
inductive Step
  | emit (i : Instruction)
  | comment (text : String)
  | beginPhase (p : Phase)
  /-- Stores registers, in whole or the lower halves only. -/
  | spill (area : SaveArea) (base : Register) (offset : Nat)
  /-- Reloads registers. -/
  | fill (area : SaveArea) (base : Register) (offset : Nat)
  /-- Lays down the moves of a shuffle. -/
  | shuffle (s : Shuffle) (ctx : MoveContext)

/-- The emission after a step.  Of what cannot be had in full, the beginning is laid down. -/
def apply (e : Emission) : Step → Emission
  | .emit i => e.emit i
  | .comment text => e.emit (.comment text)
  | .beginPhase p => e.beginPhase p
  | .spill area base offset => (e.write (area.spill base offset)).1
  | .fill area base offset => (e.write (area.fill base offset)).1
  | .shuffle s ctx => (e.write (s.draft ctx)).1

/-- The emission after some steps. -/
def applyAll (e : Emission) (steps : List Step) : Emission := steps.foldl apply e

/-- The phases that steps begin, each with the index of the first instruction laid down behind its
beginning. -/
def begun : Emission → List Step → List (Phase × Nat)
  | _, [] => []
  | e, .beginPhase p :: rest => (p, e.instructions.length) :: begun (e.beginPhase p) rest
  | e, step :: rest => begun (e.apply step) rest

/-- The mark of a phase that begins in front of the instruction with this index, or at the end if
there is none. -/
def markIn (code : Code) (start : Phase × Nat) : Mark :=
  ⟨start.1, (code.offset? start.2).getD code.size⟩

variable {e : Emission} {d : Draft} {step : Step} {steps : List Step}

/-- A draft is laid down from its beginning, maybe not to its end. -/
theorem exists_write (e : Emission) (d : Draft) : ∃ is, (e.write d).1 = e.emitAll is := by
  induction d generalizing e with
  | nil => exact ⟨[], rfl⟩
  | cons piece rest ih =>
    cases piece with
    | error why => exact ⟨[], rfl⟩
    | ok first =>
      obtain ⟨more, hmore⟩ := ih (e.emitAll first)
      refine ⟨first ++ more, ?_⟩
      rw [write, hmore, emitAll, emitAll, emitAll, List.foldl_append]

/-- A step notes where a phase begins, or lays down instructions. -/
theorem apply_spec (e : Emission) (step : Step) :
    (∃ p, step = .beginPhase p) ∨
      (∀ steps, begun e (step :: steps) = begun (e.apply step) steps) ∧
        ∃ is, e.apply step = e.emitAll is := by
  cases step with
  | beginPhase p => exact Or.inl ⟨p, rfl⟩
  | emit i => exact Or.inr ⟨fun _ => rfl, [i], rfl⟩
  | comment text => exact Or.inr ⟨fun _ => rfl, [.comment text], rfl⟩
  | spill area base offset => exact Or.inr ⟨fun _ => rfl, exists_write _ _⟩
  | fill area base offset => exact Or.inr ⟨fun _ => rfl, exists_write _ _⟩
  | shuffle s ctx => exact Or.inr ⟨fun _ => rfl, exists_write _ _⟩

/-- **What steps do**, if the count was right before: instructions are laid down behind those that
there are, the count is right, and the marks are where the phases begin. -/
theorem applyAll_spec (h : e.offset = codeSize e.instructions) (steps : List Step) :
    e.instructions <+: (e.applyAll steps).instructions ∧
      (e.applyAll steps).offset = codeSize (e.applyAll steps).instructions ∧
      (e.applyAll steps).marks =
        e.marks ++ (begun e steps).map (markIn ⟨(e.applyAll steps).instructions⟩) := by
  induction steps generalizing e with
  | nil => exact ⟨List.prefix_refl _, h, (List.append_nil _).symm⟩
  | cons step rest ih =>
    rcases e.apply_spec step with ⟨p, rfl⟩ | ⟨hbegun, is, happly⟩
    · obtain ⟨hkept, hoffset, hmarks⟩ := @ih (e.beginPhase p) h
      -- the instructions in front of the phase are those that there are, and so is their size
      have hstart : markIn ⟨(e.applyAll (.beginPhase p :: rest)).instructions⟩
          (p, e.instructions.length) = ⟨p, e.offset⟩ := by
        rw [markIn, Code.getD_offset? hkept.length_le, h]
        exact congrArg (fun is => Mark.mk p (codeSize is)) (List.prefix_iff_eq_take.1 hkept).symm
      refine ⟨hkept, hoffset, ?_⟩
      rw [begun, List.map_cons, hstart]
      exact hmarks.trans (List.append_assoc _ _ _)
    · have hcount : (e.apply step).offset = codeSize (e.apply step).instructions := by
        rw [happly, offset_emitAll, instructions_emitAll, codeSize_append, h]
      obtain ⟨hkept, hoffset, hmarks⟩ := ih hcount
      refine ⟨List.IsPrefix.trans ?_ hkept, hoffset, ?_⟩
      · rw [happly, instructions_emitAll]
        exact List.prefix_append _ _
      · have hsame : (e.apply step).marks = e.marks := by rw [happly, marks_emitAll]
        rw [hbegun, ← hsame]
        exact hmarks

end Emission

/-! ## The parts of a stub -/

/-- The code of a stub cut at its marks, without comments. -/
def Stub.parts (s : Stub) : List (List Instruction) :=
  let starts := s.marks.map Mark.offset
  List.zipWith (fun first last => withoutComments (s.code.between first last)) starts
    (starts.tail ++ [s.code.size])

section Marks

variable {code : Phase → List Instruction} {start : Nat} {ps : List Phase}

theorem map_phase_marksFrom : (marksFrom code start ps).map Mark.phase = ps := by
  induction ps generalizing start with
  | nil => rfl
  | cons p rest ih => rw [marksFrom, List.map_cons, ih]

/-- No phase starts in front of an earlier one. -/
theorem pairwise_marksFrom :
    ((marksFrom code start ps).map Mark.offset).Pairwise (· ≤ ·) := by
  induction ps generalizing start with
  | nil => exact List.Pairwise.nil
  | cons p rest ih =>
    rw [marksFrom, List.map_cons, List.pairwise_cons]
    refine ⟨?_, ih⟩
    intro offset hoffset
    obtain ⟨mark, hmark, rfl⟩ := List.mem_map.1 hoffset
    exact Nat.le_trans (Nat.le_add_right _ _) (offset_of_mem_marksFrom hmark).1

/-- Phases one behind the other are the parts between their marks. -/
theorem zipWith_marksFrom {stub : Code} {before : List Instruction}
    (h : stub.instructions = before ++ ps.flatMap code) (hstart : start = codeSize before) :
    List.zipWith (fun first last => withoutComments (stub.between first last))
        ((marksFrom code start ps).map Mark.offset)
        (((marksFrom code start ps).map Mark.offset).tail ++ [stub.size]) =
      ps.map fun p => withoutComments (code p) := by
  induction ps generalizing start before with
  | nil => rfl
  | cons p rest ih =>
    rw [List.flatMap_cons, ← List.append_assoc] at h
    have hrest := ih h (by rw [hstart, codeSize_append] : start + codeSize (code p) = _)
    have hpart := Code.withoutComments_between h
    rw [← hstart] at hpart
    rw [marksFrom, List.map_cons, List.tail_cons, List.map_cons, ← hrest, ← hpart]
    cases rest with
    | nil =>
      have hsize : stub.size = start + codeSize (code p) := by
        rw [Code.size, h, List.flatMap_nil, List.append_nil, codeSize_append, hstart]
      rw [hsize]
      rfl
    | cons q others =>
      rw [marksFrom, List.map_cons, List.cons_append, List.zipWith_cons_cons, List.tail_cons]

end Marks

/-- The parts of a stub are its phases. -/
theorem Blueprint.Builds.parts_eq {b : Blueprint} {o : FrameOffsets} {stub : Stub}
    (h : b.Builds o stub) : stub.parts = Phase.all.map fun p => withoutComments (b.code o p) := by
  rw [Stub.parts, h.marks]
  exact zipWith_marksFrom (List.nil_append _ ▸ h.instructions) codeSize_nil.symm

/-- The parts of a stub one behind the other are all of its code. -/
theorem Blueprint.Builds.flatten_parts {b : Blueprint} {o : FrameOffsets} {stub : Stub}
    (h : b.Builds o stub) : stub.parts.flatten = withoutComments stub.code.instructions := by
  rw [h.parts_eq, h.instructions, withoutComments_flatMap, List.flatMap_def]

/-! ## All of it -/

namespace Emission

/-- **Counted, worked out and searched for, an offset is the same.**  Whatever steps an emission
takes, its count is the length of the encoded instructions, also when it is finished, and its marks
are at the instructions that came first behind them.  In any code an offset leads to an index
exactly if that index is of no comment and leads back.  And a stub that has been generated has a
mark for each phase, in order, so that it is its phases one behind the other. -/
theorem offsets_agree :
    (∀ steps, (({} : Emission).applyAll steps).offset =
      ((({} : Emission).applyAll steps).instructions.flatMap Instruction.encode).length) ∧
    (∀ steps capacity code marks,
      (({} : Emission).applyAll steps).finish capacity = .ok (code, marks) →
        code.instructions = (({} : Emission).applyAll steps).instructions ∧
        code.bytes.length = (({} : Emission).applyAll steps).offset ∧
        marks = (begun {} steps).map (markIn code)) ∧
    (∀ (code : Code) offset index, code.startingAt? offset = some index ↔
      (∃ i, code.instructions[index]? = some i ∧ i.isComment = false) ∧
        code.offset? index = some offset) ∧
    ∀ (r : Request) capacity stub, r.generate capacity = .ok stub →
      stub.marks.map Mark.phase = Phase.all ∧
      (stub.marks.map Mark.offset).Pairwise (· ≤ ·) ∧
      stub.parts.flatten = withoutComments stub.code.instructions := by
  have hspec := @applyAll_spec {} rfl
  refine ⟨?_, ?_, fun _ _ _ => Code.startingAt?_eq_some_iff, ?_⟩
  · intro steps
    obtain ⟨_, hoffset, _⟩ := hspec steps
    exact hoffset.trans (Code.length_bytes ⟨_⟩).symm
  · intro steps capacity code marks h
    obtain ⟨_, hoffset, hmarks⟩ := hspec steps
    obtain ⟨_, rfl, rfl⟩ := finish_eq_ok_iff.1 h
    exact ⟨rfl, (Code.length_bytes _).trans hoffset.symm, hmarks.trans (List.nil_append _)⟩
  · intro r capacity stub h
    obtain ⟨b, o, _, hb⟩ := Request.generate_builds h
    rw [hb.marks, hb.flatten_parts]
    exact ⟨map_phase_marksFrom, pairwise_marksFrom, rfl⟩

/-- Two phases with a comment at the beginning of the second, and a whole stub. -/
theorem offsets_agree_mixed :
    (({} : Emission).applyAll [.beginPhase .prologue, .emit .enter, .beginPhase .onEntry,
        .comment "on entry", .emit (.loadImm 8 7), .beginPhase .epilogue]).finish 64 =
      .ok (⟨[.enter, .comment "on entry", .loadImm 8 7]⟩,
        [⟨.prologue, 0⟩, ⟨.onEntry, 1⟩, ⟨.epilogue, 11⟩]) ∧
    [⟨.prologue, 0⟩, ⟨.onEntry, 1⟩, ⟨.epilogue, 11⟩] =
      [(Phase.prologue, 0), (.onEntry, 1), (.epilogue, 3)].map
        (markIn ⟨[.enter, .comment "on entry", .loadImm 8 7]⟩) ∧
    ∃ stub, (Standin.request Standin.mixed 0).generate defaultCapacity = .ok stub ∧
      stub.parts.flatten = withoutComments stub.code.instructions := by
  obtain ⟨stub, hstub, _, _⟩ := Standin.exists_generate_mixed
  obtain ⟨_, hfinish, _, hgenerate⟩ := offsets_agree
  have hfinished : (({} : Emission).applyAll [.beginPhase .prologue, .emit .enter,
      .beginPhase .onEntry, .comment "on entry", .emit (.loadImm 8 7),
      .beginPhase .epilogue]).finish 64 =
      .ok (⟨[.enter, .comment "on entry", .loadImm 8 7]⟩,
        [⟨.prologue, 0⟩, ⟨.onEntry, 1⟩, ⟨.epilogue, 11⟩]) := by rfl
  exact ⟨hfinished, (hfinish _ _ _ _ hfinished).2.2, stub, hstub, (hgenerate _ _ _ hstub).2.2⟩

end Emission

end Trampoline
