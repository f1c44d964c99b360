import Trampoline.Proofs.Shuffle.Admission
import Trampoline.Proofs.Shuffle.Components

/-!
# What a shuffle costs

One move for every value that has to go somewhere, and one more for every cycle: that is what the
moves of a shuffle come to.  The scratch register is written for nothing but cycles, and no value
that waits there meets another one.

The order of the moves comes out of a loop that keeps in mind whether a value is waiting in the
scratch location, and that must not park another one while there is.  `Scheduling` is that loop, and
`Good.next` and `Good.run` say that it goes through `schedule` and keeps what is kept in mind true;
that it never parks twice follows from this (`Good.not_overruns`).

## What is here

* `Scheduling`, `Run` — the loop, one round after the other.
* `touches` — what moves do to a location, and `touches_schedule`: a schedule writes the scratch
  location and reads it in turn.
* `Shuffle.economical` — all of it for the moves of a shuffle.
-/

set_option autoImplicit false

namespace Trampoline

/-! ## The loop -/

/-- What the loop keeps. -/
structure Scheduling where
  pending : List Move
  /-- Whether a value waits in the scratch location. -/
  busy : Bool

namespace Scheduling

/-- One round: the move that is made, and what is kept from then on. -/
def next? (scratch : Location) (st : Scheduling) : Option (Move × Scheduling) :=
  match st.pending.find? (isFree st.pending) with
  | some m =>
    some (m, ⟨st.pending.eraseP (isFree st.pending), if m.source = scratch then false else st.busy⟩)
  | none =>
    match st.pending with
    | [] => none
    | m :: rest => some (⟨m.source, scratch⟩, ⟨⟨scratch, m.target⟩ :: rest, true⟩)

/-- Whether a value is about to be parked while another one waits. -/
def Overruns (st : Scheduling) : Prop :=
  st.pending ≠ [] ∧ st.pending.find? (isFree st.pending) = none ∧ st.busy = true

/-- Rounds one after the other, and the moves that are made in them. -/
inductive Run (scratch : Location) : Scheduling → List Move → Scheduling → Prop
  | nil (st : Scheduling) : Run scratch st [] st
  | cons {st st' st'' : Scheduling} {m : Move} {moves : List Move}
    (first : st.next? scratch = some (m, st')) (rest : Run scratch st' moves st'') :
    Run scratch st (m :: moves) st''

/-- The moves can be made, and a value is known to wait exactly if one does. -/
structure Good (scratch : Location) (st : Scheduling) : Prop where
  parallel : Parallel scratch st.pending
  busy_iff : st.busy = true ↔ scratch ∈ st.pending.map Move.source

variable {scratch : Location} {st st' : Scheduling} {m : Move} {moves : List Move}

/-- The loop stops when nothing is pending. -/
theorem next?_eq_none_iff : st.next? scratch = none ↔ st.pending = [] := by
  obtain ⟨pending, busy⟩ := st
  cases pending with
  | nil => simp [next?]
  | cons m rest =>
    rw [next?]
    split <;> simp

namespace Good

/-- Nothing waits when a value is parked. -/
theorem not_overruns (h : st.Good scratch) : ¬ st.Overruns := by
  rintro ⟨_, hblocked, hbusy⟩
  exact h.parallel.scratch_not_read (blocked_of_find?_eq_none hblocked) (h.busy_iff.1 hbusy)

/-- A round makes the first of the scheduled moves, and what is kept in mind stays true. -/
theorem next (h : st.Good scratch) (hnext : st.next? scratch = some (m, st')) :
    st'.Good scratch ∧ schedule scratch st.pending = m :: schedule scratch st'.pending := by
  obtain ⟨pending, busy⟩ := st
  rw [next?] at hnext
  split at hnext
  · rename_i first hfind
    obtain ⟨rfl, rfl⟩ := Prod.mk.inj (Option.some.inj hnext)
    have hperm := perm_cons_eraseP hfind
    have hpar := h.parallel.perm hperm
    refine ⟨⟨hpar.tail, ?_⟩, schedule_of_free hfind⟩
    have hsource := (List.nodup_cons.1 hpar.sources_nodup).1
    have hbusy := h.busy_iff.trans (hperm.map Move.source).mem_iff
    rw [List.map_cons, List.mem_cons] at hbusy
    dsimp only
    split
    · rename_i heq
      exact iff_of_false Bool.false_ne_true (heq ▸ hsource)
    · rename_i hne
      exact hbusy.trans (or_iff_right fun he => hne he.symm)
  · rename_i hblocked
    cases pending with
    | nil => cases hnext
    | cons first rest =>
      obtain ⟨rfl, rfl⟩ := Prod.mk.inj (Option.some.inj hnext)
      have hunread := h.parallel.scratch_not_read (blocked_of_find?_eq_none hblocked)
      have hsource : first.source ≠ scratch := fun he => hunread (he ▸ List.mem_cons_self)
      exact ⟨⟨h.parallel.park hunread, by simp⟩, schedule_of_blocked hblocked hsource⟩

/-- Rounds make the first of the scheduled moves in order, and what is kept in mind stays true. -/
theorem run (h : st.Good scratch) (hrun : Run scratch st moves st') :
    st'.Good scratch ∧ schedule scratch st.pending = moves ++ schedule scratch st'.pending := by
  induction hrun with
  | nil => exact ⟨h, rfl⟩
  | cons first _ ih =>
    obtain ⟨hgood, hfirst⟩ := h.next first
    obtain ⟨hend, hrest⟩ := ih hgood
    exact ⟨hend, by rw [hfirst, hrest, List.cons_append]⟩

/-- **The loop goes through the whole schedule and stops.** -/
theorem run_schedule (h : st.Good scratch) :
    Run scratch st (schedule scratch st.pending) ⟨[], false⟩ := by
  generalize hmoves : schedule scratch st.pending = moves
  induction moves generalizing st with
  | nil =>
    cases hnext : st.next? scratch with
    | none =>
      obtain ⟨pending, busy⟩ := st
      obtain rfl : pending = [] := next?_eq_none_iff.1 hnext
      have hbusy : busy = false := by simpa using h.busy_iff
      exact hbusy ▸ Run.nil _
    | some step => simp [(h.next hnext).2] at hmoves
  | cons m moves ih =>
    cases hnext : st.next? scratch with
    | none => simp [next?_eq_none_iff.1 hnext, schedule_nil] at hmoves
    | some step =>
      obtain ⟨hgood, hfirst⟩ := h.next hnext
      obtain ⟨rfl, hrest⟩ := List.cons.inj (hfirst.symm.trans hmoves)
      exact Run.cons hnext (ih hgood hrest)

end Good

end Scheduling

/-! ## What is written and read -/

/-- What a move does to a location. -/
inductive Touch
  | read
  | write
  deriving DecidableEq

/-- What moves do to a location, in order. -/
def touches (l : Location) (moves : List Move) : List Touch :=
  moves.flatMap fun m =>
    (if m.source = l then [.read] else []) ++ if m.target = l then [.write] else []

section Touches

variable {scratch l : Location} {pending moves : List Move} {m : Move}

theorem touches_cons : touches l (m :: moves) =
    ((if m.source = l then [.read] else []) ++ if m.target = l then [.write] else []) ++
      touches l moves :=
  List.flatMap_cons

/-- **The scratch location is written and read in turn**, after a first read if a value waits there
already. -/
theorem touches_schedule (hpar : Parallel scratch pending) :
    touches scratch (schedule scratch pending) =
      (if scratch ∈ pending.map Move.source then [.read] else []) ++
        (List.replicate ((schedule scratch pending).countP (·.target = scratch))
          [Touch.write, .read]).flatten := by
  induction hpar using Parallel.induction with
  | nil => simp [schedule_nil, touches]
  | @free m rest pending hpar hperm _ heq ih =>
    have hne := hpar.target_ne_scratch (hperm.mem_iff.2 List.mem_cons_self)
    have hsource := (List.nodup_cons.1 (hpar.perm hperm).sources_nodup).1
    have hmem := (hperm.map Move.source).mem_iff (a := scratch)
    rw [List.map_cons, List.mem_cons] at hmem
    rw [heq, touches_cons, ih, List.countP_cons_of_neg (by simpa using hne), if_neg hne]
    by_cases hread : m.source = scratch
    · rw [if_pos hread, if_neg (hread ▸ hsource), if_pos (hmem.2 (Or.inl hread.symm))]
      rfl
    · have hsame : scratch ∈ pending.map Move.source ↔ scratch ∈ rest.map Move.source :=
        hmem.trans (or_iff_right fun he => hread he.symm)
      simp only [if_neg hread, hsame, List.nil_append]
  | @park m rest hpar _ hunread heq ih =>
    have hread : m.source ≠ scratch := fun he => hunread (he ▸ List.mem_cons_self)
    rw [heq, touches_cons, ih, if_neg hunread, List.countP_cons_of_pos (by simp),
      List.replicate_succ, List.flatten_cons]
    simp [hread]

/-- A schedule writes every target, and otherwise only the scratch location. -/
theorem filter_target_schedule (hpar : Parallel scratch pending) :
    (((schedule scratch pending).filter (·.target ≠ scratch)).map Move.target).Perm
      (pending.map Move.target) := by
  induction hpar using Parallel.induction with
  | nil => simp [schedule_nil]
  | free hpar hperm _ heq ih =>
    have hne := hpar.target_ne_scratch (hperm.mem_iff.2 List.mem_cons_self)
    rw [heq, List.filter_cons_of_pos (by simpa using hne), List.map_cons]
    exact (ih.cons _).trans (hperm.map Move.target).symm
  | park _ _ _ heq ih =>
    rw [heq, List.filter_cons_of_neg (by simp)]
    exact ih

theorem length_schedule (hpar : Parallel scratch pending) :
    (schedule scratch pending).length =
      pending.length + (schedule scratch pending).countP (·.target = scratch) := by
  have htargets := (filter_target_schedule hpar).length_eq
  rw [List.length_map, List.length_map, ← List.countP_eq_length_filter] at htargets
  rw [List.length_eq_countP_add_countP (·.target ≠ scratch), htargets]
  simp

/-- Every target is written once. -/
theorem countP_target_schedule (hpar : Parallel scratch pending) (hm : m ∈ pending) :
    (schedule scratch pending).countP (·.target = m.target) = 1 := by
  have hne := hpar.target_ne_scratch hm
  have hperm := filter_target_schedule hpar
  have hcount : (((schedule scratch pending).filter (·.target ≠ scratch)).map Move.target).count
      m.target = 1 := by
    rw [hperm.count_eq]
    exact List.count_eq_one_of_mem hpar.targets_nodup (List.mem_map_of_mem hm)
  rw [← hcount, List.count, List.countP_map, List.countP_filter]
  refine List.countP_congr ?_
  intro x _
  simp only [decide_eq_true_eq, Function.comp_apply, Bool.and_eq_true, beq_iff_eq, ne_eq]
  exact ⟨fun h => ⟨h, h ▸ hne⟩, And.left⟩

end Touches

/-! ## The moves of a shuffle -/

namespace Shuffle

/-- The moves of a mapping that go anywhere. -/
def proper (mapping : List Move) : List Move := mapping.filter fun m => m.source ≠ m.target

/-- **A shuffle makes one move for every value that goes anywhere, and one more for every cycle.**
The scratch register is written once for a cycle and for nothing else, it is read once after each
time and before the next, and every target is written once.  The loop that finds the moves comes to
an end, and nowhere on its way does it park a value while another one waits. -/
theorem economical {mapping : List Move} {scratch : Register} {s : Shuffle}
    (h : ofMapping mapping scratch = .ok s) :
    Nonempty (Components (proper mapping)) ∧
    (∀ d : Components (proper mapping),
      s.moves.length = (proper mapping).length + d.cycles.length ∧
      s.parkings = d.cycles.length ∧
      ∀ cycle ∈ d.cycles, (cycle.countP fun m => ⟨m.source, .register scratch⟩ ∈ s.moves) = 1) ∧
    touches (.register scratch) s.moves = (List.replicate s.parkings [.write, .read]).flatten ∧
    (∀ m ∈ proper mapping, s.moves.countP (·.target = m.target) = 1) ∧
    Scheduling.Run (.register scratch) ⟨proper mapping, false⟩ s.moves ⟨[], false⟩ ∧
    ∀ moves st, Scheduling.Run (.register scratch) ⟨proper mapping, false⟩ moves st →
      moves <+: s.moves ∧ ¬ st.Overruns := by
  obtain ⟨rfl, rfl⟩ := ofMapping_eq_ok_iff.1 h
  have hpar : Parallel (.register s.scratch) (proper s.mapping) := parallel_pending
  have hunread : .register s.scratch ∉ (proper s.mapping).map Move.source := by
    intro hread
    obtain ⟨m, hm, heq⟩ := List.mem_map.1 hread
    exact ((conflict?_eq_none_iff.1 s.sound).1 m (List.mem_of_mem_filter hm)).1 heq
  have hgood : Scheduling.Good (.register s.scratch) ⟨proper s.mapping, false⟩ :=
    ⟨hpar, iff_of_false Bool.false_ne_true hunread⟩
  refine ⟨Components.exists_of_parallel hpar, ?_, ?_, fun m => countP_target_schedule hpar,
    hgood.run_schedule, ?_⟩
  · intro d
    have hcycles : s.parkings = d.cycles.length := d.parkings_eq hpar
    exact ⟨hcycles ▸ length_schedule hpar, hcycles, fun _ => d.countP_parked_of_mem_cycles hpar⟩
  · have htouches := touches_schedule hpar
    rw [if_neg hunread, List.nil_append] at htouches
    exact htouches
  · intro moves st hrun
    obtain ⟨hend, hmoves⟩ := hgood.run hrun
    exact ⟨⟨_, hmoves.symm⟩, hend.not_overruns⟩

/-- Two registers that change places are a cycle, and a stack argument is a path. -/
def swapComponents : Components (proper swapMapping) where
  paths := [[⟨.incoming 8, .outgoing 0⟩]]
  cycles := [[⟨.register (.general 0), .register (.general 1)⟩,
    ⟨.register (.general 1), .register (.general 0)⟩]]
  perm := by decide
  path := by
    intro ms hms
    obtain rfl := List.mem_singleton.1 hms
    exact ⟨.incoming 8, .outgoing 0, .cons rfl (.nil _), by simp, by decide, by decide⟩
  cycle := by
    intro ms hms
    obtain rfl := List.mem_singleton.1 hms
    exact ⟨.register (.general 0), .cons rfl (.cons rfl (.nil _)), by simp⟩

/-- Three moves and a cycle among them make four. -/
theorem economical_swap :
    ∃ s, ofMapping swapMapping (.general 19) = .ok s ∧ s.moves.length = 4 ∧ s.parkings = 1 := by
  have hsound : conflict? (.general 19) [] swapMapping = none := by decide
  have hs : ofMapping swapMapping (.general 19) = .ok ⟨swapMapping, .general 19, hsound⟩ :=
    ofMapping_eq_ok_iff.2 ⟨rfl, rfl⟩
  obtain ⟨hlength, hparkings, _⟩ := (economical hs).2.1 swapComponents
  exact ⟨_, hs, hlength, hparkings⟩

end Shuffle

end Trampoline
