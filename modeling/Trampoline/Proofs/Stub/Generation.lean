import Trampoline.Proofs.Boundary
import Trampoline.Proofs.Machine.Execution
import Trampoline.Stub

/-!
# The code of a generated stub

What a generated stub consists of, in terms of the blueprint that it was made from: the code of all
phases one behind the other, with a mark in front of each.

## What is here

* `Draft.code` — the instructions of a draft in which nothing is missing; a draft can be had exactly
  if it is `Draft.Complete` (`Draft.instructions_eq_ok_iff`).
* `Blueprint.Builds` — the relation between a blueprint and its stub, and `generate_builds`, which
  says that a generated stub is in that relation.
* `Stub.phaseAt?` — the phase that an instruction belongs to, which a debugger would read off the
  marks.  `Builds.phaseAt?_eq` and `Builds.mem_phase` say that the marks are right about this for
  every instruction that takes any room.
* `Builds.handlerBehind` — the handler lies behind the return.
-/

set_option autoImplicit false

namespace Trampoline

/-! ## Drafts -/

namespace Draft

variable {d d' : Draft} {is : List Instruction} {title : String}

/-- Every piece can be had. -/
def Complete (d : Draft) : Prop := ∀ piece ∈ d, ∃ is, piece = .ok is

/-- The instructions of the pieces that can be had. -/
def code (d : Draft) : List Instruction := d.flatMap fun piece => piece.toOption.getD []

theorem code_nil : code [] = [] := rfl

theorem code_cons_ok : code (.ok is :: d) = is ++ code d := rfl

theorem code_append : code (d ++ d') = code d ++ code d' := List.flatMap_append

theorem complete_cons {piece : Piece} :
    Complete (piece :: d) ↔ (∃ is, piece = .ok is) ∧ Complete d := List.forall_mem_cons

theorem complete_append : Complete (d ++ d') ↔ Complete d ∧ Complete d' := List.forall_mem_append

theorem instructions_eq_ok_iff : d.instructions = .ok is ↔ d.Complete ∧ is = d.code := by
  induction d generalizing is with
  | nil =>
    rw [instructions, code_nil, Except.ok.injEq]
    exact ⟨fun h => ⟨fun _ hp => absurd hp List.not_mem_nil, h.symm⟩, fun h => h.2.symm⟩
  | cons piece rest ih =>
    rw [complete_cons]
    cases piece with
    | error e =>
      rw [instructions]
      refine iff_of_false (fun h => nomatch h) ?_
      rintro ⟨⟨⟨_, h⟩, _⟩, _⟩
      cases h
    | ok first =>
      rw [instructions, code_cons_ok]
      cases hr : instructions rest with
      | error e =>
        refine iff_of_false (fun h => nomatch h) ?_
        rintro ⟨⟨_, hrest⟩, _⟩
        rw [ih.2 ⟨hrest, rfl⟩] at hr
        cases hr
      | ok more =>
        obtain ⟨hcomplete, rfl⟩ := ih.1 hr
        simp only [Except.map, Except.ok.injEq]
        exact ⟨fun h => ⟨⟨⟨first, rfl⟩, hcomplete⟩, h.symm⟩, fun h => h.2.symm⟩

theorem code_block :
    code (Blueprint.block title d) =
      .comment ("\x7b " ++ title) :: code d ++ [.comment ("\x7d " ++ title)] := by
  rw [Blueprint.block, code_append, code_append, code_cons_ok, code_cons_ok, code_nil]
  simp

theorem complete_block : Complete (Blueprint.block title d) ↔ Complete d := by
  rw [Blueprint.block, complete_append, complete_append, complete_cons, complete_cons]
  simp [Complete]

end Draft

/-- An addressed instruction can be had if the offset fits, and then it carries the offset. -/
theorem addressed_eq_ok_iff {offset : Int} {i : Imm → Instruction} {is : List Instruction} :
    addressed offset i = .ok is ↔ ∃ imm, Imm.ofInt? offset = some imm ∧ is = [i imm] := by
  rw [addressed]
  cases h : immediate offset with
  | error e =>
    refine iff_of_false (fun h => nomatch h) ?_
    rintro ⟨imm, himm, _⟩
    rw [immediate_eq_ok_iff.2 himm] at h
    cases h
  | ok imm =>
    rw [immediate_eq_ok_iff] at h
    simp only [Except.map, Except.ok.injEq, h, Option.some.injEq]
    exact ⟨fun he => ⟨imm, rfl, he.symm⟩, fun ⟨_, hi, he⟩ => hi ▸ he.symm⟩

/-! ## Phases one behind the other -/

/-- The marks of phases with this code, the first of them at `start`. -/
def marksFrom (code : Phase → List Instruction) : Nat → List Phase → List Mark
  | _, [] => []
  | start, p :: rest => ⟨p, start⟩ :: marksFrom code (start + codeSize (code p)) rest

theorem marksFrom_append {code : Phase → List Instruction} {start : Nat} {ps qs : List Phase} :
    marksFrom code start (ps ++ qs) =
      marksFrom code start ps ++ marksFrom code (start + codeSize (ps.flatMap code)) qs := by
  induction ps generalizing start with
  | nil => rfl
  | cons p rest ih =>
    rw [List.cons_append, marksFrom, marksFrom, ih, List.flatMap_cons, codeSize_append,
      Nat.add_assoc, List.cons_append]

theorem writePhases_eq_ok {e e' : Emission} {draft : Phase → Draft} {ps : List Phase}
    (h : e.writePhases draft ps = .ok e') :
    (∀ p ∈ ps, (draft p).Complete) ∧
      e'.instructions = e.instructions ++ ps.flatMap (fun p => (draft p).code) ∧
      e'.offset = e.offset + codeSize (ps.flatMap fun p => (draft p).code) ∧
      e'.marks = e.marks ++ marksFrom (fun p => (draft p).code) e.offset ps := by
  induction ps generalizing e with
  | nil =>
    obtain rfl : e = e' := Except.ok.inj h
    simp [marksFrom]
  | cons p rest ih =>
    rw [Emission.writePhases] at h
    split at h
    · cases h
    · rename_i is his
      obtain ⟨hcomplete, rfl⟩ := Draft.instructions_eq_ok_iff.1 his
      obtain ⟨hrest, hins, hoff, hmarks⟩ := ih h
      refine ⟨List.forall_mem_cons.2 ⟨hcomplete, hrest⟩, ?_, ?_, ?_⟩
      · rw [hins, Emission.instructions_emitAll, List.flatMap_cons, List.append_assoc]
        rfl
      · rw [hoff, Emission.offset_emitAll, List.flatMap_cons, codeSize_append, ← Nat.add_assoc]
        rfl
      · rw [hmarks, Emission.marks_emitAll, Emission.offset_emitAll]
        simp [Emission.beginPhase, marksFrom]

/-- A place in code made of parts is a place in one of the parts. -/
theorem exists_part {α : Type} {code : α → List Instruction} {parts : List α} {n : Nat}
    {i : Instruction} (h : (parts.flatMap code)[n]? = some i) :
    ∃ before p after k, parts = before ++ p :: after ∧ n = (before.flatMap code).length + k ∧
      (code p)[k]? = some i := by
  induction parts generalizing n with
  | nil => cases h
  | cons p rest ih =>
    rw [List.flatMap_cons] at h
    rcases Nat.lt_or_ge n (code p).length with hlt | hge
    · rw [List.getElem?_append_left hlt] at h
      exact ⟨[], p, rest, n, rfl, (Nat.zero_add n).symm, h⟩
    · rw [List.getElem?_append_right hge] at h
      obtain ⟨before, q, after, k, rfl, hn, hk⟩ := ih h
      refine ⟨p :: before, q, after, k, rfl, ?_, hk⟩
      rw [List.flatMap_cons, List.length_append]
      omega

/-! ## Generated stubs -/

namespace Blueprint

variable (b : Blueprint)

/-- The instructions of a phase. -/
def code (o : FrameOffsets) (p : Phase) : List Instruction := (b.draft o p).code

/-- The stub is the one that the blueprint describes. -/
structure Builds (o : FrameOffsets) (stub : Stub) : Prop where
  offsets : b.offsets = .ok o
  complete : ∀ p, (b.draft o p).Complete
  instructions : stub.code.instructions = Phase.all.flatMap (b.code o)
  handlerOffset : stub.handlerOffset = codeSize (Phase.normal.flatMap (b.code o))
  marks : stub.marks = marksFrom (b.code o) 0 Phase.all
  layout : stub.layout = b.layout
  shuffle : stub.shuffle = b.shuffle

end Blueprint

/-- What has been laid down is finished as it stands, if there is room for it. -/
theorem Emission.finish_eq_ok_iff {e : Emission} {capacity : Nat} {code : Code}
    {marks : List Mark} :
    e.finish capacity = .ok (code, marks) ↔
      codeSize e.instructions ≤ capacity ∧ code = ⟨e.instructions⟩ ∧ marks = e.marks := by
  rw [finish, Code.assemble]
  split
  · rename_i hsize
    simp only [Except.map, Except.ok.injEq, Prod.mk.injEq, hsize, true_and]
    exact and_congr eq_comm eq_comm
  · rename_i hsize
    exact iff_of_false (fun h => nomatch h) fun h => hsize h.1

theorem Blueprint.build_builds {b : Blueprint} {capacity : Nat} {stub : Stub}
    (h : b.build capacity = .ok stub) : (∃ o, b.Builds o stub) ∧ stub.code.size ≤ capacity := by
  rw [Blueprint.build] at h
  obtain ⟨o, ho, h⟩ := exists_of_bind_eq_ok h
  obtain ⟨body, hbody, h⟩ := exists_of_bind_eq_ok h
  obtain ⟨whole, hwhole, h⟩ := exists_of_bind_eq_ok h
  obtain ⟨⟨code, marks⟩, hfinish, h⟩ := exists_of_bind_eq_ok h
  obtain rfl := Except.ok.inj h
  obtain ⟨hnormal, hins, hoff, hmarks⟩ := writePhases_eq_ok hbody
  obtain ⟨hhandler, hins', _, hmarks'⟩ := writePhases_eq_ok hwhole
  obtain ⟨hroom, rfl, rfl⟩ := Emission.finish_eq_ok_iff.1 hfinish
  change _ = _ ++ Phase.normal.flatMap (b.code o) at hins
  change _ = _ ++ [Phase.exceptionHandler].flatMap (b.code o) at hins'
  change _ = _ + codeSize (Phase.normal.flatMap (b.code o)) at hoff
  change _ = _ ++ marksFrom (b.code o) _ _ at hmarks hmarks'
  rw [List.nil_append] at hins hmarks
  refine ⟨⟨o, ho, ?_, ?_, hoff.trans (Nat.zero_add _), ?_, rfl, rfl⟩, hroom⟩
  · intro p
    rcases List.mem_append.1 (Phase.mem_all p) with hp | hp
    · exact hnormal p hp
    · exact hhandler p hp
  · rw [hins', hins, Phase.all, List.flatMap_append]
  · rw [hmarks', hmarks, hoff, Phase.all, marksFrom_append]

/-- A generated stub is what the blueprint of its request describes. -/
theorem Request.generate_builds {r : Request} {capacity : Nat} {stub : Stub}
    (h : r.generate capacity = .ok stub) :
    ∃ b o, r.blueprint = .ok b ∧ b.Builds o stub := by
  rw [Request.generate] at h
  split at h
  · cases h
  · rename_i b hb
    obtain ⟨o, ho⟩ := (Blueprint.build_builds h).1
    exact ⟨b, o, hb, ho⟩

/-- The code of a generated stub is not longer than was asked for. -/
theorem Request.size_le_of_generate {r : Request} {capacity : Nat} {stub : Stub}
    (h : r.generate capacity = .ok stub) : stub.code.size ≤ capacity := by
  rw [Request.generate] at h
  split at h
  · cases h
  · exact (Blueprint.build_builds h).2

/-! ## The phase of an instruction -/

/-- The phase that an instruction belongs to: of the phases that start no later than it does, the
last. -/
def Stub.phaseAt? (s : Stub) (index : Nat) : Option Phase :=
  (s.code.offset? index).bind fun offset =>
    (s.marks.filter (·.offset ≤ offset)).getLast?.map Mark.phase

theorem offset_of_mem_marksFrom {code : Phase → List Instruction} {start : Nat} {ps : List Phase}
    {mark : Mark} (h : mark ∈ marksFrom code start ps) :
    start ≤ mark.offset ∧ mark.offset ≤ start + codeSize (ps.flatMap code) := by
  induction ps generalizing start with
  | nil => cases h
  | cons p rest ih =>
    rw [List.flatMap_cons, codeSize_append]
    rcases List.mem_cons.1 h with rfl | h
    · exact ⟨Nat.le_refl _, Nat.le_add_right _ _⟩
    · have := ih h
      omega

/-- The phases in front of a phase. -/
def Phase.before (p : Phase) : List Phase := Phase.all.takeWhile (· ≠ p)

theorem Phase.all_eq (p : Phase) : ∃ after, Phase.all = p.before ++ p :: after := by
  cases p <;> exact ⟨_, rfl⟩

/-- No phase comes twice, so there is one way only to divide the phases at one of them. -/
theorem Phase.eq_before {p : Phase} {before after : List Phase}
    (h : Phase.all = before ++ p :: after) : before = p.before := by
  have hnodup : Phase.all.Nodup := by decide
  rw [h, List.nodup_append] at hnodup
  have hskip : ∀ q ∈ before, decide (q ≠ p) = true :=
    fun q hq => decide_eq_true (hnodup.2.2 q hq p List.mem_cons_self)
  rw [Phase.before, h, List.takeWhile_append_of_pos hskip, List.takeWhile_cons_of_neg (by simp),
    List.append_nil]

namespace Blueprint

variable {b : Blueprint} {o : FrameOffsets} {stub : Stub} {p : Phase} {k index : Nat}
  {i : Instruction}

/-- The index of the first instruction of a phase. -/
def phaseIndex (b : Blueprint) (o : FrameOffsets) (p : Phase) : Nat :=
  (p.before.flatMap (b.code o)).length

namespace Builds

/-- A phase lies in the code from its first instruction on. -/
theorem hasAt (h : b.Builds o stub) (p : Phase) :
    stub.code.HasAt (b.phaseIndex o p) (b.code o p) := by
  obtain ⟨after, hall⟩ := p.all_eq
  refine ⟨after.flatMap (b.code o), ?_⟩
  rw [h.instructions, hall, List.flatMap_append, List.flatMap_cons, phaseIndex, List.drop_left]

theorem get (h : b.Builds o stub) (hk : (b.code o p)[k]? = some i) :
    stub.code.instructions[b.phaseIndex o p + k]? = some i := by
  obtain ⟨after, hdrop⟩ := h.hasAt p
  have hlt : k < (b.code o p).length := (List.getElem?_eq_some_iff.1 hk).1
  rw [← List.getElem?_drop, ← hdrop, List.getElem?_append_left hlt, hk]

/-- The marks are right about an instruction that takes room. -/
theorem phaseAt?_eq (h : b.Builds o stub) (hk : (b.code o p)[k]? = some i)
    (hi : i.isComment = false) : stub.phaseAt? (b.phaseIndex o p + k) = some p := by
  obtain ⟨after, hall⟩ := p.all_eq
  obtain ⟨hlt, hget⟩ := List.getElem?_eq_some_iff.1 hk
  have hindex : b.phaseIndex o p + k < stub.code.instructions.length :=
    (List.getElem?_eq_some_iff.1 (h.get hk)).1
  -- where the instruction starts, and that it ends within its phase
  have hoffset : stub.code.offset? (b.phaseIndex o p + k) =
      some (codeSize (p.before.flatMap (b.code o)) + codeSize ((b.code o p).take k)) := by
    rw [Code.offset?_of_lt _ hindex, h.instructions, hall, List.flatMap_append, List.flatMap_cons,
      phaseIndex, List.take_length_add_append, List.take_append_of_le_length (Nat.le_of_lt hlt),
      codeSize_append]
  have hend : codeSize ((b.code o p).take k) < codeSize (b.code o p) := by
    have hsplit : b.code o p = (b.code o p).take k ++ i :: (b.code o p).drop (k + 1) := by
      rw [← hget, ← List.drop_eq_getElem_cons hlt, List.take_append_drop]
    have hpos := Instruction.size_pos hi
    rw [hsplit, codeSize_append, codeSize_cons, ← hsplit]
    omega
  rw [Stub.phaseAt?, hoffset, Option.bind_some, h.marks, hall, marksFrom_append, marksFrom]
  generalize codeSize ((b.code o p).take k) = inside at hend ⊢
  have hbefore : ∀ mark ∈ marksFrom (b.code o) 0 p.before,
      decide (mark.offset ≤ codeSize (p.before.flatMap (b.code o)) + inside) = true := by
    intro mark hmark
    have := offset_of_mem_marksFrom hmark
    exact decide_eq_true (by omega)
  have hafter : ∀ mark ∈ marksFrom (b.code o)
      (0 + codeSize (p.before.flatMap (b.code o)) + codeSize (b.code o p)) after,
      ¬ decide (mark.offset ≤ codeSize (p.before.flatMap (b.code o)) + inside) = true := by
    intro mark hmark
    have := offset_of_mem_marksFrom hmark
    rw [decide_eq_true_eq]
    omega
  rw [List.filter_append, List.filter_eq_self.2 hbefore, List.filter_cons_of_pos (by simp),
    List.filter_eq_nil_iff.2 hafter, List.getLast?_append]
  rfl

/-- An instruction lies in some phase. -/
theorem exists_phase (h : b.Builds o stub) (hget : stub.code.instructions[index]? = some i) :
    ∃ p k, index = b.phaseIndex o p + k ∧ (b.code o p)[k]? = some i := by
  rw [h.instructions] at hget
  obtain ⟨before, p, after, k, hall, hindex, hk⟩ := exists_part hget
  rw [Phase.eq_before hall] at hindex
  exact ⟨p, k, hindex, hk⟩

/-- An instruction that takes room lies in the phase that the marks say. -/
theorem mem_phase (h : b.Builds o stub) (hget : stub.code.instructions[index]? = some i)
    (hi : i.isComment = false) (hp : stub.phaseAt? index = some p) :
    ∃ k, index = b.phaseIndex o p + k ∧ (b.code o p)[k]? = some i := by
  obtain ⟨q, k, rfl, hk⟩ := h.exists_phase hget
  obtain rfl : q = p := Option.some.inj ((h.phaseAt?_eq hk hi).symm.trans hp)
  exact ⟨k, rfl, hk⟩

end Builds

end Blueprint

/-! ## The handler -/

namespace Code

variable {code : Code} {offset index other : Nat} {i : Instruction}

theorem getElem?_placed (h : code.instructions[index]? = some i) :
    code.placed[index]? = some (codeSize (code.instructions.take index), i) := by
  have hoffset := code.offset?_of_lt (List.getElem?_eq_some_iff.1 h).1
  rw [offset?] at hoffset
  rw [placed, List.getElem?_zip_eq_some]
  exact ⟨hoffset, h⟩

theorem startingAt?_spec (h : code.startingAt? offset = some index) :
    ∃ i, code.instructions[index]? = some i ∧ i.isComment = false ∧
      codeSize (code.instructions.take index) = offset := by
  obtain ⟨hlt, hfound, _⟩ := List.findIdx?_eq_some_iff_getElem.1 h
  have hlen : index < code.instructions.length := by
    rw [placed, List.length_zip] at hlt
    omega
  have hpair := getElem?_placed (List.getElem?_eq_getElem hlen)
  rw [(List.getElem?_eq_some_iff.1 hpair).2] at hfound
  simp only [Bool.and_eq_true, decide_eq_true_eq, Bool.not_eq_true'] at hfound
  exact ⟨code.instructions[index], List.getElem?_eq_getElem hlen, hfound.2, hfound.1⟩

/-- What lies further behind starts no earlier... -/
theorem codeSize_take_le (h : index ≤ other) :
    codeSize (code.instructions.take index) ≤ codeSize (code.instructions.take other) := by
  obtain ⟨n, rfl⟩ := Nat.exists_eq_add_of_le h
  rw [List.take_add, codeSize_append]
  exact Nat.le_add_right _ _

/-- ...and behind an instruction that takes room, it starts later. -/
theorem codeSize_take_lt (hget : code.instructions[index]? = some i) (hi : i.isComment = false)
    (h : index < other) :
    codeSize (code.instructions.take index) < codeSize (code.instructions.take other) := by
  refine Nat.lt_of_lt_of_le ?_ (codeSize_take_le (Nat.succ_le_of_lt h))
  have hpos := Instruction.size_pos hi
  rw [List.take_add_one, hget, codeSize_append, Option.toList_some, codeSize_cons]
  omega

theorem codeSize_take_lt_size (hget : code.instructions[index]? = some i)
    (hi : i.isComment = false) : codeSize (code.instructions.take index) < code.size := by
  have hlt := codeSize_take_lt hget hi (List.getElem?_eq_some_iff.1 hget).1
  rwa [List.take_length] at hlt

/-- An instruction that takes room is the one that starts where it starts. -/
theorem startingAt?_of_get (hget : code.instructions[index]? = some i)
    (hi : i.isComment = false) :
    code.startingAt? (codeSize (code.instructions.take index)) = some index := by
  have hsome : (code.startingAt? (codeSize (code.instructions.take index))).isSome = true := by
    rw [startingAt?, List.findIdx?_isSome, List.any_eq_true]
    refine ⟨_, List.mem_of_getElem? (getElem?_placed hget), ?_⟩
    simp [hi]
  obtain ⟨found, hfound⟩ := Option.isSome_iff_exists.1 hsome
  obtain ⟨i', hget', hi', hsize⟩ := startingAt?_spec hfound
  rcases Nat.lt_trichotomy found index with hlt | rfl | hlt
  · have := codeSize_take_lt hget' hi' hlt
    omega
  · exact hfound
  · have := codeSize_take_lt hget hi hlt
    omega

end Code

/-- Exceptions enter behind the return. -/
theorem Blueprint.Builds.handlerBehind {b : Blueprint} {o : FrameOffsets} {stub : Stub}
    (h : b.Builds o stub) : stub.HandlerBehind (Phase.normal.flatMap (b.code o)).length := by
  intro handler hhandler
  obtain ⟨i, hget, hi, hsize⟩ := Code.startingAt?_spec hhandler
  refine Nat.le_of_not_lt ?_
  intro hlt
  have hbefore := Code.codeSize_take_lt hget hi hlt
  have hnormal : stub.code.instructions.take (Phase.normal.flatMap (b.code o)).length =
      Phase.normal.flatMap (b.code o) := by
    rw [h.instructions, Phase.all, List.flatMap_append, List.take_left]
  rw [hnormal, hsize, h.handlerOffset] at hbefore
  exact Nat.lt_irrefl _ hbefore

end Trampoline
