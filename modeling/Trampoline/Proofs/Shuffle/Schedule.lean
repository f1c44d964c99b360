import Mathlib.Data.List.Nodup
import Mathlib.Data.List.Perm.Subperm
import Trampoline.ParallelMove

/-!
# A schedule carries out all of its moves at once

`schedule` puts moves that are meant to happen at the same time into an order.  This file says what
that order achieves, for values of any kind: a value may change on its way, depending on where it
comes from and where it goes, as it does when a vector register is copied through a general one.

## What is here

* `Parallel scratch pending` — the moves can happen at the same time, and the scratch location is
  free for a value that has to wait.  Every list that `schedule` meets on its way has this property
  if the first one does, and `Parallel.induction` is the induction along that way: a free move is
  carried out, or the first of several blocked moves is parked.
* `Parallel.scratch_not_read` — the counting argument.  When every target is still to be read, there
  are as many sources as targets, so they are the same locations; the scratch location is no target,
  so nothing waits in it when a value is parked.
* `carryAll_schedule` — the payoff: what every target holds in the end, and whether its value went
  by way of the scratch location.
-/

set_option autoImplicit false

namespace Trampoline

/-! ## Moves that can happen at the same time -/

/-- Nothing is written twice or read twice, and the scratch location is not written.  It may be
read: the value that waits there has a move of its own. -/
structure Parallel (scratch : Location) (pending : List Move) : Prop where
  targets_nodup : (pending.map Move.target).Nodup
  sources_nodup : (pending.map Move.source).Nodup
  scratch_not_written : scratch ∉ pending.map Move.target

theorem isFree_iff {pending : List Move} {m : Move} :
    isFree pending m = true ↔ ∀ other ∈ pending, other.source ≠ m.target := by
  simp [isFree]

/-- When no move is free, every target is still to be read. -/
theorem blocked_of_find?_eq_none {pending : List Move}
    (h : pending.find? (isFree pending) = none) :
    ∀ m ∈ pending, ∃ other ∈ pending, other.source = m.target := by
  intro m hm
  have hnot := List.find?_eq_none.1 h m hm
  rw [isFree_iff] at hnot
  push Not at hnot
  exact hnot

/-- Erasing the first element that passes a test takes away just that element. -/
theorem perm_cons_eraseP {pending : List Move} {p : Move → Bool} {m : Move}
    (h : pending.find? p = some m) : pending.Perm (m :: pending.eraseP p) := by
  obtain ⟨hm, before, after, rfl, hbefore⟩ := List.find?_eq_some_iff_append.1 h
  have hskip : ∀ x ∈ before, ¬ p x = true := fun x hx => by simpa using hbefore x hx
  rw [List.eraseP_append_right _ hskip, List.eraseP_cons_of_pos hm]
  exact List.perm_middle

namespace Parallel

variable {scratch : Location} {pending rest : List Move} {m : Move}

theorem perm (h : Parallel scratch pending) (hp : pending.Perm rest) : Parallel scratch rest :=
  ⟨(hp.map _).nodup h.targets_nodup, (hp.map _).nodup h.sources_nodup,
    fun hs => h.scratch_not_written ((hp.map _).mem_iff.2 hs)⟩

theorem tail (h : Parallel scratch (m :: rest)) : Parallel scratch rest :=
  ⟨(List.nodup_cons.1 h.targets_nodup).2, (List.nodup_cons.1 h.sources_nodup).2,
    fun hs => h.scratch_not_written (List.mem_cons_of_mem _ hs)⟩

theorem target_ne_scratch (h : Parallel scratch pending) (hm : m ∈ pending) :
    m.target ≠ scratch :=
  fun heq => h.scratch_not_written (heq ▸ List.mem_map_of_mem hm)

/-- **Nothing waits in the scratch location while all moves are blocked.**  Every target is then a
source, and since there are no more sources than targets, every source is a target. -/
theorem scratch_not_read (h : Parallel scratch pending)
    (hblocked : ∀ m ∈ pending, ∃ other ∈ pending, other.source = m.target) :
    scratch ∉ pending.map Move.source := by
  have hsub : pending.map Move.target ⊆ pending.map Move.source := by
    intro l hl
    obtain ⟨m, hm, rfl⟩ := List.mem_map.1 hl
    obtain ⟨other, hother, heq⟩ := hblocked m hm
    exact heq ▸ List.mem_map_of_mem hother
  have hperm := (List.subperm_of_subset h.targets_nodup hsub).perm_of_length_le (by simp)
  exact fun hs => h.scratch_not_written (hperm.mem_iff.2 hs)

/-- A value can be parked when nothing reads the scratch location. -/
theorem park (h : Parallel scratch (m :: rest))
    (hs : scratch ∉ (m :: rest).map Move.source) :
    Parallel scratch (⟨scratch, m.target⟩ :: rest) where
  targets_nodup := h.targets_nodup
  sources_nodup :=
    List.nodup_cons.2
      ⟨fun hr => hs (List.mem_cons_of_mem _ hr), (List.nodup_cons.1 h.sources_nodup).2⟩
  scratch_not_written := h.scratch_not_written

/-- **Induction along a schedule.**  The two steps are the two things that `schedule` does: it
carries out a move whose target nobody reads, or it parks the value of the first move when every
move is blocked. -/
theorem induction {motive : ∀ pending : List Move, Parallel scratch pending → Prop}
    (nil : ∀ h, motive [] h)
    (free : ∀ {m : Move} {rest pending : List Move} (h : Parallel scratch pending)
      (hperm : pending.Perm (m :: rest)), (∀ other ∈ pending, other.source ≠ m.target) →
      schedule scratch pending = m :: schedule scratch rest →
      motive rest (h.perm hperm).tail → motive pending h)
    (park : ∀ {m : Move} {rest : List Move} (h : Parallel scratch (m :: rest)),
      (∀ m' ∈ m :: rest, ∃ other ∈ m :: rest, other.source = m'.target) →
      ∀ hs : scratch ∉ (m :: rest).map Move.source,
      schedule scratch (m :: rest) =
        ⟨m.source, scratch⟩ :: schedule scratch (⟨scratch, m.target⟩ :: rest) →
      motive (⟨scratch, m.target⟩ :: rest) (h.park hs) → motive (m :: rest) h)
    (h : Parallel scratch pending) : motive pending h := by
  induction pending using schedule.induct scratch with
  | case1 pending m hfind ih =>
    have hperm := perm_cons_eraseP hfind
    exact free h hperm (isFree_iff.1 (List.find?_some hfind)) (schedule_of_free hfind)
      (ih (h.perm hperm).tail)
  | case2 => exact nil h
  | case3 m rest hfind hs =>
    have hunread := h.scratch_not_read (blocked_of_find?_eq_none hfind)
    exact absurd (List.mem_map.2 ⟨m, List.mem_cons_self, hs⟩) hunread
  | case4 m rest hfind hs ih =>
    have hblocked := blocked_of_find?_eq_none hfind
    have hunread := h.scratch_not_read hblocked
    exact park h hblocked hunread (schedule_of_blocked hfind hs) (ih (h.park hunread))

end Parallel

/-! ## Which moves a schedule is made of -/

section Members

variable {scratch : Location} {pending : List Move} {m : Move}

/-- A schedule writes what it is meant to write, and the scratch location. -/
theorem target_of_mem_schedule (h : Parallel scratch pending) (hm : m ∈ schedule scratch pending) :
    m.target = scratch ∨ m.target ∈ pending.map Move.target := by
  revert hm
  induction h using Parallel.induction with
  | nil => simp [schedule_nil]
  | @free first rest pending _ hperm _ heq ih =>
    rw [heq, List.mem_cons, (hperm.map Move.target).mem_iff, List.map_cons, List.mem_cons]
    rintro (rfl | hm)
    · exact Or.inr (Or.inl rfl)
    · exact (ih hm).imp_right Or.inr
  | park _ _ _ heq ih =>
    rw [heq, List.mem_cons]
    rintro (rfl | hm)
    · exact Or.inl rfl
    · exact ih hm

/-- A schedule reads what it is meant to read, and the scratch location. -/
theorem source_eq_or_mem_of_mem_schedule (h : Parallel scratch pending)
    (hm : m ∈ schedule scratch pending) :
    m.source = scratch ∨ m.source ∈ pending.map Move.source := by
  revert hm
  induction h using Parallel.induction with
  | nil => simp [schedule_nil]
  | free _ hperm _ heq ih =>
    rw [heq, List.mem_cons, (hperm.map Move.source).mem_iff, List.map_cons, List.mem_cons]
    rintro (rfl | hm)
    · exact Or.inr (Or.inl rfl)
    · exact (ih hm).imp_right Or.inr
  | park _ _ _ heq ih =>
    rw [heq, List.mem_cons]
    rintro (rfl | hm)
    · exact Or.inr List.mem_cons_self
    · rcases ih hm with hs | hs
      · exact Or.inl hs
      · rw [List.map_cons, List.mem_cons] at hs
        exact hs.imp_right (List.mem_cons_of_mem _)

/-- Whatever is pending is read. -/
theorem exists_mem_schedule (h : Parallel scratch pending) (hm : m ∈ pending) :
    ∃ m' ∈ schedule scratch pending, m'.source = m.source := by
  induction h using Parallel.induction with
  | nil => exact absurd hm List.not_mem_nil
  | free _ hperm _ heq ih =>
    rw [heq]
    rcases List.mem_cons.1 (hperm.mem_iff.1 hm) with rfl | hm
    · exact ⟨m, List.mem_cons_self, rfl⟩
    · obtain ⟨m', hm', hsource⟩ := ih hm
      exact ⟨m', List.mem_cons_of_mem _ hm', hsource⟩
  | park _ _ _ heq ih =>
    rw [heq]
    rcases List.mem_cons.1 hm with rfl | hm
    · exact ⟨_, List.mem_cons_self, rfl⟩
    · obtain ⟨m', hm', hsource⟩ := ih (List.mem_cons_of_mem _ hm)
      exact ⟨m', List.mem_cons_of_mem _ hm', hsource⟩

/-- What a schedule parks is the value of a pending move, and it is parked only once. -/
theorem source_of_mem_schedule (h : Parallel scratch pending)
    (hm : m ∈ schedule scratch pending) (hs : m.target = scratch) :
    m.source ∈ pending.map Move.source ∧ m.source ≠ scratch := by
  revert hm
  induction h using Parallel.induction with
  | nil => simp [schedule_nil]
  | free hpar hperm _ heq ih =>
    rw [heq, List.mem_cons, (hperm.map Move.source).mem_iff, List.map_cons, List.mem_cons]
    rintro (rfl | hm)
    · exact absurd hs (hpar.target_ne_scratch (hperm.mem_iff.2 List.mem_cons_self))
    · exact (ih hm).imp_left Or.inr
  | @park first rest _ _ hunread heq ih =>
    rw [heq, List.mem_cons]
    rintro (rfl | hm)
    · exact ⟨List.mem_cons_self, fun heq => hunread (heq ▸ List.mem_cons_self)⟩
    · obtain ⟨hmem, hne⟩ := ih hm
      rw [List.map_cons, List.mem_cons] at hmem
      exact ⟨List.mem_cons_of_mem _ (hmem.resolve_left hne), hne⟩

end Members

/-! ## Values on their way -/

/-- Contents after one move, if a value that comes from one location and goes to another turns into
what `way` says. -/
def Move.carry {α : Type} (way : Location → Location → α → α) (m : Move) (v : Location → α) :
    Location → α :=
  fun l => if l = m.target then way m.source m.target (v m.source) else v l

/-- Contents after the moves, from the left. -/
def carryAll {α : Type} (way : Location → Location → α → α) (moves : List Move)
    (v : Location → α) : Location → α :=
  moves.foldl (fun v m => m.carry way v) v

section Values

variable {α : Type} {way : Location → Location → α → α} {m : Move} {moves : List Move}
  {v : Location → α} {l : Location}

theorem Move.carry_target : m.carry way v m.target = way m.source m.target (v m.source) := by
  simp [Move.carry]

theorem Move.carry_of_ne (h : l ≠ m.target) : m.carry way v l = v l := by
  simp [Move.carry, h]

theorem carryAll_cons : carryAll way (m :: moves) v = carryAll way moves (m.carry way v) := rfl

/-- Locations that hold themselves at first show where a value comes from. -/
theorem runAll_eq_carryAll (moves : List Move) :
    runAll moves = carryAll (fun _ _ origin => origin) moves id := rfl

theorem carryAll_of_not_written (h : ∀ m ∈ moves, m.target ≠ l) : carryAll way moves v l = v l := by
  induction moves generalizing v with
  | nil => rfl
  | cons m rest ih =>
    rw [carryAll_cons, ih fun m' hm' => h m' (List.mem_cons_of_mem _ hm'),
      Move.carry_of_ne (h m List.mem_cons_self).symm]

/-- A schedule leaves alone whatever is neither a target nor the scratch location. -/
theorem carryAll_schedule_of_ne {scratch : Location} {pending : List Move}
    (h : Parallel scratch pending) (hs : l ≠ scratch) (hl : l ∉ pending.map Move.target) :
    carryAll way (schedule scratch pending) v l = v l := by
  refine carryAll_of_not_written ?_
  intro m hm heq
  rcases target_of_mem_schedule h hm with ht | ht
  · exact hs (heq ▸ ht)
  · exact hl (heq ▸ ht)

/-- **A schedule carries every value to its target**, by way of the scratch location if it has
parked the value there, and directly if not. -/
theorem carryAll_schedule {scratch : Location} {pending : List Move}
    (h : Parallel scratch pending) (hm : m ∈ pending) :
    carryAll way (schedule scratch pending) v m.target =
      if ⟨m.source, scratch⟩ ∈ schedule scratch pending then
        way scratch m.target (way m.source scratch (v m.source))
      else way m.source m.target (v m.source) := by
  induction h using Parallel.induction generalizing m v with
  | nil => exact absurd hm List.not_mem_nil
  | @free first rest pending hpar hperm hunread heq ih =>
    have hrest : Parallel scratch rest := (hpar.perm hperm).tail
    have hne : first.target ≠ scratch :=
      hpar.target_ne_scratch (hperm.mem_iff.2 List.mem_cons_self)
    have hfirst : (⟨m.source, scratch⟩ : Move) ≠ first := fun he => hne (he ▸ rfl)
    simp only [heq, List.mem_cons, hfirst, false_or, carryAll_cons]
    rcases List.mem_cons.1 (hperm.mem_iff.1 hm) with rfl | hr
    · -- the move that is carried out now: nothing later writes its target
      have hfresh := (List.nodup_cons.1 (hpar.perm hperm).targets_nodup).1
      have hsource := (List.nodup_cons.1 (hpar.perm hperm).sources_nodup).1
      rw [carryAll_schedule_of_ne hrest hne hfresh, Move.carry_target, if_neg]
      exact fun hp => hsource (source_of_mem_schedule hrest hp rfl).1
    · -- a later move: its source is still as it was
      rw [ih hr, Move.carry_of_ne (hunread m hm)]
  | @park first rest hpar _ hunread heq ih =>
    have hpark := hpar.park hunread
    rw [heq, carryAll_cons]
    rcases List.mem_cons.1 hm with rfl | hr
    · -- the move whose value is parked now: it reads the scratch location from here on
      have hnot : (⟨scratch, scratch⟩ : Move) ∉ schedule scratch (⟨scratch, m.target⟩ :: rest) :=
        fun hp => (source_of_mem_schedule hpark hp rfl).2 rfl
      have htarget := ih (v := Move.carry way ⟨m.source, scratch⟩ v) List.mem_cons_self
      rw [if_neg hnot] at htarget
      rw [if_pos List.mem_cons_self]
      exact htarget.trans (congrArg _ Move.carry_target)
    · -- another move: it has a source of its own, which is not the scratch location
      have hs : m.source ≠ scratch := fun he => hunread (he ▸ List.mem_map_of_mem hm)
      have hne : m.source ≠ first.source :=
        fun he => (List.nodup_cons.1 hpar.sources_nodup).1 (he ▸ List.mem_map_of_mem hr)
      have hfirst : (⟨m.source, scratch⟩ : Move) ≠ ⟨first.source, scratch⟩ :=
        fun he => hne (Move.mk.inj he).1
      simp only [List.mem_cons, hfirst, false_or]
      rw [ih (List.mem_cons_of_mem _ hr), Move.carry_of_ne hs]

end Values

end Trampoline
