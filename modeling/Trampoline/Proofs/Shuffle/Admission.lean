import Trampoline.Proofs.Shuffle.Schedule
import Trampoline.Shuffle

/-!
# Which mappings are shuffles, and what their moves do

A mapping is refused for one of four reasons, and the first part of this file says that there is no
fifth (`conflict?_eq_none_iff`).  What is left is `Parallel`, so its schedule does what it should:
`carryAll_moves` says so for values of any kind, and `ofMapping_realizes` puts both halves together
for the symbolic run `runAll`.

Arguments that stay where they are have no moves.  They need an argument of their own in the proofs,
but not in the statements.
-/

set_option autoImplicit false

namespace Trampoline.Shuffle

/-! ## What is admitted -/

theorem matches_incoming_iff {l : Location} :
    (l matches .stack .incoming _) = true ↔ ∃ offset, l = .incoming offset := by
  rcases l with _ | ⟨_ | _, _⟩ <;> simp

/-- The checks on the moves that are left, when `earlier` ones have passed. -/
theorem conflict?_eq_none_iff {scratch : Register} {earlier rest : List Move} :
    conflict? scratch earlier rest = none ↔
      (∀ m ∈ rest, m.source ≠ .register scratch ∧ m.target ≠ .register scratch) ∧
      (∀ m ∈ rest, ∀ offset, m.target ≠ .incoming offset) ∧
      ((rest.map Move.target).Nodup ∧ ∀ m ∈ rest, m.target ∉ earlier.map Move.target) ∧
      ((rest.map Move.source).Nodup ∧ ∀ m ∈ rest, m.source ∉ earlier.map Move.source) := by
  induction rest generalizing earlier with
  | nil => simp [conflict?]
  | cons m rest ih =>
    rw [conflict?]
    split_ifs with hscratch hincoming htarget hsource
    · refine iff_of_false id ?_
      rintro ⟨h, _⟩
      exact hscratch.elim (h m List.mem_cons_self).1 (h m List.mem_cons_self).2
    · refine iff_of_false id ?_
      rintro ⟨_, h, _⟩
      obtain ⟨offset, heq⟩ := matches_incoming_iff.1 hincoming
      exact h m List.mem_cons_self offset heq
    · exact iff_of_false id
        fun ⟨_, _, ⟨_, h⟩, _⟩ => h m List.mem_cons_self htarget
    · exact iff_of_false id
        fun ⟨_, _, _, _, h⟩ => h m List.mem_cons_self hsource
    · rw [not_or] at hscratch
      have hout : ∀ offset, m.target ≠ .incoming offset :=
        fun offset heq => hincoming (matches_incoming_iff.2 ⟨offset, heq⟩)
      simp only [ih, List.map_cons, List.mem_cons, List.nodup_cons, not_or]
      grind

theorem ofMapping_eq_ok_iff {mapping : List Move} {scratch : Register} {s : Shuffle} :
    ofMapping mapping scratch = .ok s ↔ s.mapping = mapping ∧ s.scratch = scratch := by
  rw [ofMapping]
  split
  · rename_i e he
    refine iff_of_false (by simp) ?_
    rintro ⟨rfl, rfl⟩
    exact absurd (s.sound.symm.trans he) (by simp)
  · obtain ⟨smapping, sscratch, _⟩ := s
    simp only [Except.ok.injEq, Shuffle.mk.injEq]
    exact and_congr eq_comm eq_comm

/-- A shuffle between placements moves the arguments from the homes of the one to those of the
other, where the receiver's is left out. -/
theorem between_eq_ok_iff {native runtime : Placement} {scratch : Register} {s : Shuffle} :
    between native runtime scratch = .ok s ↔
      runtime.tail.length = native.length ∧
        s.mapping = List.zipWith Move.mk native.locations (Placement.locations runtime.tail) ∧
        s.scratch = scratch := by
  simp only [between]
  split
  · rename_i hlength
    rw [ofMapping_eq_ok_iff, and_iff_right hlength]
  · rename_i hlength
    exact iff_of_false (fun h => nomatch h) fun h => hlength h.1

/-! ## What the moves do -/

variable (s : Shuffle)

theorem targets_nodup : (s.mapping.map Move.target).Nodup :=
  (conflict?_eq_none_iff.1 s.sound).2.2.1.1

theorem sources_nodup : (s.mapping.map Move.source).Nodup :=
  (conflict?_eq_none_iff.1 s.sound).2.2.2.1

variable {s} {m : Move}

theorem target_ne_scratch (hm : m ∈ s.mapping) : m.target ≠ .register s.scratch :=
  ((conflict?_eq_none_iff.1 s.sound).1 m hm).2

theorem target_ne_incoming (hm : m ∈ s.mapping) (offset : Int) : m.target ≠ .incoming offset :=
  (conflict?_eq_none_iff.1 s.sound).2.1 m hm offset

/-- What there is to do for a shuffle can be done at the same time. -/
theorem parallel_pending :
    Parallel (.register s.scratch) (s.mapping.filter fun m => m.source ≠ m.target) where
  targets_nodup := s.targets_nodup.sublist (List.filter_sublist.map _)
  sources_nodup := s.sources_nodup.sublist (List.filter_sublist.map _)
  scratch_not_written := by
    intro h
    obtain ⟨m, hm, heq⟩ := List.mem_map.1 h
    exact target_ne_scratch (List.mem_of_mem_filter hm) heq

/-- The moves write targets and the scratch register. -/
theorem target_of_mem_moves (hm : m ∈ s.moves) :
    m.target = .register s.scratch ∨ m.target ∈ s.mapping.map Move.target := by
  refine (target_of_mem_schedule parallel_pending hm).imp_right ?_
  intro h
  exact (List.filter_sublist.map _).subset h

/-- The moves read sources and the scratch register. -/
theorem source_of_mem_moves (hm : m ∈ s.moves) :
    m.source = .register s.scratch ∨ m.source ∈ s.mapping.map Move.source := by
  refine (source_eq_or_mem_of_mem_schedule parallel_pending hm).imp_right ?_
  intro h
  exact (List.filter_sublist.map _).subset h

/-- The moves read all sources, but for arguments that stay where they are. -/
theorem exists_mem_moves (hm : m ∈ s.mapping) (hne : m.source ≠ m.target) :
    ∃ m' ∈ s.moves, m'.source = m.source :=
  exists_mem_schedule parallel_pending (List.mem_filter.2 ⟨hm, decide_eq_true hne⟩)

section Values

variable {α : Type} {way : Location → Location → α → α} {v : Location → α} {l : Location}

theorem carryAll_moves_of_ne (hs : l ≠ .register s.scratch)
    (hl : l ∉ s.mapping.map Move.target) : carryAll way s.moves v l = v l :=
  carryAll_schedule_of_ne parallel_pending hs fun h => hl ((List.filter_sublist.map _).subset h)

/-- **The moves bring every value to its target**: a value that has to go nowhere stays, one that
is parked goes by way of the scratch register, and every other one goes directly. -/
theorem carryAll_moves (hm : m ∈ s.mapping) :
    carryAll way s.moves v m.target =
      if m.source = m.target then v m.source
      else if ⟨m.source, .register s.scratch⟩ ∈ s.moves then
        way (.register s.scratch) m.target (way m.source (.register s.scratch) (v m.source))
      else way m.source m.target (v m.source) := by
  by_cases hstay : m.source = m.target
  · -- no move writes the target: the only one in the mapping is this one, and it is not pending
    have hl : m.target ∉ (s.mapping.filter fun m => m.source ≠ m.target).map Move.target := by
      intro h
      obtain ⟨other, hother, heq⟩ := List.mem_map.1 h
      obtain ⟨hmem, hmoves⟩ := List.mem_filter.1 hother
      have hsame : other = m := List.inj_on_of_nodup_map s.targets_nodup hmem hm heq
      exact absurd (hsame ▸ hstay) (by simpa using hmoves)
    rw [if_pos hstay, hstay]
    exact carryAll_schedule_of_ne parallel_pending (target_ne_scratch hm) hl
  · have hpending : m ∈ s.mapping.filter fun m => m.source ≠ m.target :=
      List.mem_filter.2 ⟨hm, decide_eq_true hstay⟩
    rw [if_neg hstay]
    exact carryAll_schedule parallel_pending hpending

end Values

/-- In the end each target holds the initial content of its source. -/
theorem runAll_moves (hm : m ∈ s.mapping) : runAll s.moves m.target = m.source := by
  rw [runAll_eq_carryAll, carryAll_moves hm]
  split_ifs <;> rfl

/-- **A mapping is a shuffle exactly if its moves can be made at the same time, with the scratch
register to spare, and the moves of a shuffle, made one after the other, have the same effect.** -/
theorem ofMapping_realizes (mapping : List Move) (scratch : Register) :
    ((∃ s, ofMapping mapping scratch = .ok s) ↔
      (∀ m ∈ mapping, m.source ≠ .register scratch ∧ m.target ≠ .register scratch) ∧
      (∀ m ∈ mapping, ∀ offset, m.target ≠ .incoming offset) ∧
      (mapping.map Move.target).Nodup ∧ (mapping.map Move.source).Nodup) ∧
    ∀ s, ofMapping mapping scratch = .ok s →
      s.mapping = mapping ∧
      (∀ m ∈ mapping, runAll s.moves m.target = m.source) ∧
      (∀ m ∈ s.moves, m.target ∈ mapping.map Move.target ∨ m.target = .register scratch) ∧
      ∀ l, l ∉ mapping.map Move.target → l ≠ .register scratch → runAll s.moves l = l := by
  constructor
  · have hchecks := @conflict?_eq_none_iff scratch [] mapping
    simp only [List.map_nil, List.not_mem_nil, not_false_eq_true, implies_true, and_true] at hchecks
    rw [← hchecks]
    constructor
    · rintro ⟨s, hs⟩
      obtain ⟨rfl, rfl⟩ := ofMapping_eq_ok_iff.1 hs
      exact s.sound
    · exact fun h => ⟨⟨mapping, scratch, h⟩, ofMapping_eq_ok_iff.2 ⟨rfl, rfl⟩⟩
  · intro s hs
    obtain ⟨rfl, rfl⟩ := ofMapping_eq_ok_iff.1 hs
    refine ⟨rfl, fun m hm => runAll_moves hm, fun m hm => (target_of_mem_moves hm).symm, ?_⟩
    intro l hl hscratch
    rw [runAll_eq_carryAll]
    exact carryAll_moves_of_ne hscratch hl

/-- Two registers that change places, a stack argument and a register that stays. -/
def swapMapping : List Move :=
  [⟨.register (.general 0), .register (.general 1)⟩,
    ⟨.register (.general 1), .register (.general 0)⟩, ⟨.incoming 8, .outgoing 0⟩,
    ⟨.register (.vector 2), .register (.vector 2)⟩]

theorem ofMapping_realizes_swap :
    ∃ s, ofMapping swapMapping (.general 19) = .ok s ∧
      ∀ m ∈ swapMapping, runAll s.moves m.target = m.source := by
  have hswap := ofMapping_realizes swapMapping (.general 19)
  obtain ⟨s, hs⟩ := hswap.1.2
    ⟨by decide, by simp [swapMapping], by decide, by decide⟩
  exact ⟨s, hs, (hswap.2 s hs).2.1⟩

end Trampoline.Shuffle
