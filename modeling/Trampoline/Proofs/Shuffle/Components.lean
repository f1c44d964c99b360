import Trampoline.Proofs.Shuffle.Schedule

/-!
# Paths and cycles of moves

Moves that can happen at the same time are the edges of a graph in which no location has more than
one edge to it or more than one edge from it.  Such a graph falls into paths and cycles.  A schedule
carries out a path from its end, where nothing is read any more, and never has to park anything for
it; in a cycle it parks one value, and what is left of the cycle is a path.

## What is here

* `Route` — moves each of which starts where the one before it ended.
* `Components pending` — the moves taken apart into paths and cycles, which can always be done
  (`Components.exists_of_parallel`).
* `not_parked_of_route`, `countP_parked_of_closed` — what a schedule parks of a path and of a cycle.
* `Components.parkings_eq` — the payoff: a schedule parks as many values as there are cycles.
-/

set_option autoImplicit false

namespace Trampoline

/-! ## Routes -/

/-- Moves one behind the other lead from one location to another. -/
inductive Route : Location → List Move → Location → Prop
  | nil (l : Location) : Route l [] l
  | cons {first last : Location} {m : Move} {ms : List Move} (start : m.source = first)
    (rest : Route m.target ms last) : Route first (m :: ms) last

namespace Route

variable {m : Move} {ms xs ys : List Move} {first last : Location}

theorem append_iff :
    Route first (xs ++ ys) last ↔ ∃ l, Route first xs l ∧ Route l ys last := by
  constructor
  · intro h
    induction xs generalizing first with
    | nil => exact ⟨first, nil first, h⟩
    | cons m xs ih =>
      cases h with
      | cons start rest =>
        obtain ⟨l, hxs, hys⟩ := ih rest
        exact ⟨l, hxs.cons start, hys⟩
  · rintro ⟨l, hxs, hys⟩
    induction hxs with
    | nil => exact hys
    | cons start _ ih => exact (ih hys).cons start

theorem source_eq (h : Route first (m :: ms) last) : m.source = first := by
  cases h with
  | cons start rest => exact start

theorem tail (h : Route first (m :: ms) last) : Route m.target ms last := by
  cases h with
  | cons start rest => exact rest

/-- A route goes on from the target of a move, unless it ends there. -/
theorem read_or_last (h : Route first ms last) (hm : m ∈ ms) :
    m.target = last ∨ m.target ∈ ms.map Move.source := by
  obtain ⟨xs, ys, rfl⟩ := List.append_of_mem hm
  obtain ⟨l, _, hys⟩ := append_iff.1 h
  cases ys with
  | nil =>
    cases hys.tail
    exact Or.inl rfl
  | cons next ys =>
    refine Or.inr (List.mem_map.2 ⟨next, by simp, ?_⟩)
    exact hys.tail.source_eq

/-- A route has come to the source of a move, unless it begins there. -/
theorem first_or_written (h : Route first ms last) (hm : m ∈ ms) :
    m.source = first ∨ m.source ∈ ms.map Move.target := by
  induction h with
  | nil => cases hm
  | cons start _ ih =>
    rcases List.mem_cons.1 hm with rfl | hm
    · exact Or.inl start
    · rw [List.map_cons, List.mem_cons]
      exact Or.inr (ih hm)

theorem first_mem (h : Route first ms last) (hms : ms ≠ []) : first ∈ ms.map Move.source := by
  cases h with
  | nil => exact absurd rfl hms
  | cons start => exact start ▸ List.mem_cons_self

theorem last_mem (h : Route first ms last) (hms : ms ≠ []) : last ∈ ms.map Move.target := by
  induction h with
  | nil => exact absurd rfl hms
  | @cons _ _ m ms _ rest ih =>
    cases ms with
    | nil =>
      cases rest
      exact List.mem_cons_self
    | cons => exact List.mem_cons_of_mem _ (ih (List.cons_ne_nil _ _))

/-- On a closed route every target is read... -/
theorem target_mem_sources (h : Route first ms first) (hm : m ∈ ms) :
    m.target ∈ ms.map Move.source := by
  rcases h.read_or_last hm with htarget | hread
  · exact htarget ▸ h.first_mem (List.ne_nil_of_mem hm)
  · exact hread

/-- ...and every source is written. -/
theorem source_mem_targets (h : Route first ms first) (hm : m ∈ ms) :
    m.source ∈ ms.map Move.target := by
  rcases h.first_or_written hm with rfl | hwritten
  · exact h.last_mem (List.ne_nil_of_mem hm)
  · exact hwritten

/-- A closed route can begin with any of its moves. -/
theorem exists_rotation (h : Route first ms first) (hm : m ∈ ms) :
    ∃ others, ms.Perm (m :: others) ∧ Route m.target others m.source := by
  obtain ⟨xs, ys, rfl⟩ := List.append_of_mem hm
  obtain ⟨l, hxs, hys⟩ := append_iff.1 h
  refine ⟨ys ++ xs, List.perm_middle.trans (List.perm_append_comm.cons m), ?_⟩
  exact append_iff.2 ⟨first, hys.tail, hys.source_eq ▸ hxs⟩

end Route

/-! ## Components -/

/-- Moves that go from a location that is not written to one that is not read. -/
structure IsPath (pending ms : List Move) (first last : Location) : Prop where
  route : Route first ms last
  ne_nil : ms ≠ []
  not_written : first ∉ pending.map Move.target
  not_read : last ∉ pending.map Move.source

/-- Moves that lead back to where they began. -/
structure IsCycle (ms : List Move) (first : Location) : Prop where
  route : Route first ms first
  ne_nil : ms ≠ []

/-- Moves taken apart into paths and cycles.  They share no locations and go through none of theirs
twice if, as in `Parallel`, nothing is read twice or written twice. -/
structure Components (pending : List Move) where
  paths : List (List Move)
  cycles : List (List Move)
  perm : pending.Perm (paths.flatten ++ cycles.flatten)
  path : ∀ ms ∈ paths, ∃ first last, IsPath pending ms first last
  cycle : ∀ ms ∈ cycles, ∃ first, IsCycle ms first

namespace Components

variable {scratch : Location} {pending ms : List Move} (d : Components pending)

theorem subset_of_mem_paths (h : ms ∈ d.paths) : ms ⊆ pending := by
  intro m hm
  exact d.perm.mem_iff.2 (List.mem_append_left _ (List.mem_flatten_of_mem h hm))

theorem subset_of_mem_cycles (h : ms ∈ d.cycles) : ms ⊆ pending := by
  intro m hm
  exact d.perm.mem_iff.2 (List.mem_append_right _ (List.mem_flatten_of_mem h hm))

/-- No two paths end in the same place. -/
theorem last_ne_of_mem (hpar : Parallel scratch pending) {others : List (List Move)}
    {other : List Move} {first last first' last' : Location}
    (hpaths : d.paths.Perm (ms :: others)) (hms : IsPath pending ms first last)
    (hmem : other ∈ others) (hother : IsPath pending other first' last') : last' ≠ last := by
  rintro rfl
  obtain ⟨m, hm, htarget⟩ := List.mem_map.1 (hms.route.last_mem hms.ne_nil)
  obtain ⟨m', hm', htarget'⟩ := List.mem_map.1 (hother.route.last_mem hother.ne_nil)
  have hin : ∀ {x path}, x ∈ path → path ∈ ms :: others → x ∈ pending :=
    fun hx hpath => d.subset_of_mem_paths (hpaths.mem_iff.2 hpath) hx
  have heq : m = m' := List.inj_on_of_nodup_map hpar.targets_nodup (hin hm List.mem_cons_self)
    (hin hm' (List.mem_cons_of_mem _ hmem)) (htarget.trans htarget'.symm)
  -- the same move would be in two of the parts
  have hnodup : (ms ++ others.flatten).Nodup :=
    (hpaths.flatten.nodup_iff.1 (d.perm.nodup_iff.1 hpar.targets_nodup.of_map).of_append_left)
  exact List.disjoint_of_nodup_append hnodup (heq ▸ hm) (List.mem_flatten_of_mem hmem hm')

variable {m : Move} {rest : List Move}

/-- Where a path begins is not written by a further move either, if nothing reads from that move's
target. -/
theorem not_written_of_free {first last : Location} (hperm : pending.Perm (m :: rest))
    (hunread : m.target ∉ pending.map Move.source) (hsub : ms ⊆ rest)
    (hms : IsPath rest ms first last) : first ∉ pending.map Move.target := by
  rw [(hperm.map _).mem_iff, List.map_cons, List.mem_cons, not_or]
  refine ⟨?_, hms.not_written⟩
  rintro rfl
  refine hunread ((hperm.map _).mem_iff.2 (List.mem_cons_of_mem _ ?_))
  exact List.map_subset _ hsub (hms.route.first_mem hms.ne_nil)

/-- A path stays one when such a move does not go on where the path ends. -/
theorem isPath_of_free {first last : Location} (hperm : pending.Perm (m :: rest))
    (hunread : m.target ∉ pending.map Move.source) (hsub : ms ⊆ rest)
    (hms : IsPath rest ms first last) (hlast : last ≠ m.source) :
    IsPath pending ms first last where
  route := hms.route
  ne_nil := hms.ne_nil
  not_written := not_written_of_free hperm hunread hsub hms
  not_read := by
    rw [(hperm.map _).mem_iff, List.map_cons, List.mem_cons, not_or]
    exact ⟨hlast, hms.not_read⟩

/-- The source of a move is not written, unless a path of the other moves ends there. -/
theorem not_written_of_ne_last (hpar : Parallel scratch (m :: rest)) (hne : m.source ≠ m.target)
    (d : Components rest)
    (hlast : ∀ ms ∈ d.paths, ∀ first last, IsPath rest ms first last → last ≠ m.source) :
    m.source ∉ (m :: rest).map Move.target := by
  have hfresh := (List.nodup_cons.1 hpar.sources_nodup).1
  rw [List.map_cons, List.mem_cons, not_or]
  refine ⟨hne, ?_⟩
  intro h
  obtain ⟨other, hother, heq⟩ := List.mem_map.1 h
  -- the one that writes it would have to be the last of its part
  rcases List.mem_append.1 (d.perm.mem_iff.1 hother) with hpath | hcycle
  · obtain ⟨ms, hms, hmem⟩ := List.mem_flatten.1 hpath
    obtain ⟨first, last, hp⟩ := d.path ms hms
    rcases hp.route.read_or_last hmem with htarget | hread
    · exact hlast ms hms first last hp (htarget.symm.trans heq)
    · exact hfresh (heq ▸ List.map_subset _ (d.subset_of_mem_paths hms) hread)
  · obtain ⟨ms, hms, hmem⟩ := List.mem_flatten.1 hcycle
    obtain ⟨first, hc⟩ := d.cycle ms hms
    exact hfresh (heq ▸ List.map_subset _ (d.subset_of_mem_cycles hms)
      (hc.route.target_mem_sources hmem))

/-- A move whose target is not read is the end of a path, or a path of its own. -/
theorem exists_of_free (hpar : Parallel scratch pending) (hperm : pending.Perm (m :: rest))
    (hunread : m.target ∉ pending.map Move.source) (d : Components rest) :
    Nonempty (Components pending) := by
  have hrest := (hpar.perm hperm).tail
  by_cases h : ∃ ms ∈ d.paths, ∃ first, IsPath rest ms first m.source
  · obtain ⟨ms, hmem, first, hms⟩ := h
    have hpaths := List.perm_cons_erase hmem
    have hparts : pending.Perm (((ms ++ [m]) :: d.paths.erase ms).flatten ++ d.cycles.flatten) := by
      refine hperm.trans (((d.perm.trans (hpaths.flatten.append_right _)).cons m).trans ?_)
      simpa using List.perm_middle.symm
    refine ⟨⟨(ms ++ [m]) :: d.paths.erase ms, d.cycles, hparts, ?_, d.cycle⟩⟩
    intro path hpath
    rcases List.mem_cons.1 hpath with rfl | hpath
    · have hroute : Route first (ms ++ [m]) m.target :=
        Route.append_iff.2 ⟨m.source, hms.route, (Route.nil _).cons rfl⟩
      exact ⟨first, m.target, hroute, by simp,
        not_written_of_free hperm hunread (d.subset_of_mem_paths hmem) hms, hunread⟩
    · have hin := List.mem_of_mem_erase hpath
      obtain ⟨first', last', hp⟩ := d.path path hin
      exact ⟨first', last', isPath_of_free hperm hunread (d.subset_of_mem_paths hin) hp
        (d.last_ne_of_mem hrest hpaths hms hpath hp)⟩
  · have hlast : ∀ ms ∈ d.paths, ∀ first last, IsPath rest ms first last → last ≠ m.source := by
      rintro ms hms first last hp rfl
      exact h ⟨ms, hms, first, hp⟩
    have hne : m.source ≠ m.target := by
      intro heq
      exact hunread ((hperm.map _).mem_iff.2 (heq ▸ List.mem_cons_self))
    have hfirst := not_written_of_ne_last (hpar.perm hperm) hne d hlast
    refine ⟨⟨[m] :: d.paths, d.cycles, hperm.trans (d.perm.cons m), ?_, d.cycle⟩⟩
    intro path hpath
    rcases List.mem_cons.1 hpath with rfl | hpath
    · exact ⟨m.source, m.target, (Route.nil _).cons rfl, by simp,
        fun hw => hfirst ((hperm.map _).mem_iff.1 hw), hunread⟩
    · obtain ⟨first, last, hp⟩ := d.path path hpath
      exact ⟨first, last, isPath_of_free hperm hunread (d.subset_of_mem_paths hpath) hp
        (hlast path hpath first last hp)⟩

/-- When the first of several blocked moves is parked, a path can only end where that move had its
value from: everything else is still read. -/
theorem last_eq_of_park {first last : Location}
    (hblocked : ∀ m' ∈ m :: rest, m'.target ∈ (m :: rest).map Move.source)
    (hsub : ms ⊆ ⟨scratch, m.target⟩ :: rest)
    (hms : IsPath (⟨scratch, m.target⟩ :: rest) ms first last) : last = m.source := by
  obtain ⟨m', hm', rfl⟩ := List.mem_map.1
    (List.map_subset Move.target hsub (hms.route.last_mem hms.ne_nil))
  have hread : m'.target ∈ (m :: rest).map Move.source := by
    rcases List.mem_cons.1 hm' with rfl | hm'
    · exact hblocked m List.mem_cons_self
    · exact hblocked m' (List.mem_cons_of_mem _ hm')
  rcases List.mem_cons.1 hread with heq | hread
  · exact heq
  · exact absurd (List.mem_cons_of_mem _ hread) hms.not_read

/-- Then the move that was parked begins a path, since nothing leads to the scratch location, and
there is no other path. -/
theorem exists_paths_of_park (hpark : Parallel scratch (⟨scratch, m.target⟩ :: rest))
    (hblocked : ∀ m' ∈ m :: rest, m'.target ∈ (m :: rest).map Move.source)
    (d : Components (⟨scratch, m.target⟩ :: rest)) :
    ∃ ms, Route m.target ms m.source ∧ d.paths = [⟨scratch, m.target⟩ :: ms] := by
  have hmem := d.perm.mem_iff.1 (List.mem_cons_self : (⟨scratch, m.target⟩ : Move) ∈ _)
  rcases List.mem_append.1 hmem with hpath | hcycle
  · obtain ⟨path, hpath, hmem⟩ := List.mem_flatten.1 hpath
    obtain ⟨first, last, hp⟩ := d.path path hpath
    obtain ⟨xs, ms, rfl⟩ := List.append_of_mem hmem
    obtain ⟨l, hxs, hms⟩ := Route.append_iff.1 hp.route
    obtain rfl : scratch = l := hms.source_eq
    obtain rfl : xs = [] := by
      by_contra hne
      refine hpark.scratch_not_written (List.map_subset _ ?_ (hxs.last_mem hne))
      exact fun x hx => d.subset_of_mem_paths hpath (List.mem_append_left _ hx)
    rw [List.nil_append] at hpath hp
    have hlast := last_eq_of_park hblocked (d.subset_of_mem_paths hpath) hp
    have hpaths := List.perm_cons_erase hpath
    have honly : d.paths.erase (⟨scratch, m.target⟩ :: ms) = [] := by
      rw [List.eq_nil_iff_forall_not_mem]
      intro other hother
      have hin := List.mem_of_mem_erase hother
      obtain ⟨first', last', hp'⟩ := d.path other hin
      exact d.last_ne_of_mem hpark hpaths hp hother hp'
        ((last_eq_of_park hblocked (d.subset_of_mem_paths hin) hp').trans hlast.symm)
    rw [honly, List.perm_singleton] at hpaths
    exact ⟨ms, hlast ▸ hms.tail, hpaths⟩
  · obtain ⟨ms, hms, hmem⟩ := List.mem_flatten.1 hcycle
    obtain ⟨first, hc⟩ := d.cycle ms hms
    exact absurd (List.map_subset _ (d.subset_of_mem_cycles hms) (hc.route.source_mem_targets hmem))
      hpark.scratch_not_written

/-- What was parked when all moves were blocked had been on a cycle. -/
theorem exists_of_park (hpar : Parallel scratch (m :: rest))
    (hblocked : ∀ m' ∈ m :: rest, m'.target ∈ (m :: rest).map Move.source)
    (hunread : scratch ∉ (m :: rest).map Move.source)
    (d : Components (⟨scratch, m.target⟩ :: rest)) : Nonempty (Components (m :: rest)) := by
  obtain ⟨ms, hroute, hpaths⟩ := d.exists_paths_of_park (hpar.park hunread) hblocked
  have hrest : rest.Perm (ms ++ d.cycles.flatten) := by
    have hperm := d.perm
    rw [hpaths] at hperm
    simpa using hperm
  refine ⟨⟨[], (m :: ms) :: d.cycles, hrest.cons m, by simp, ?_⟩⟩
  intro cycle hcycle
  rcases List.mem_cons.1 hcycle with rfl | hcycle
  · exact ⟨m.source, hroute.cons rfl, by simp⟩
  · exact d.cycle cycle hcycle

/-- **Moves that can happen at the same time are paths and cycles.** -/
theorem exists_of_parallel (hpar : Parallel scratch pending) : Nonempty (Components pending) := by
  induction hpar using Parallel.induction with
  | nil => exact ⟨⟨[], [], List.Perm.refl _, by simp, by simp⟩⟩
  | free hpar hperm hunread _ ih =>
    obtain ⟨d⟩ := ih
    refine exists_of_free hpar hperm ?_ d
    intro h
    obtain ⟨other, hother, heq⟩ := List.mem_map.1 h
    exact hunread other hother heq
  | park hpar hblocked hunread _ ih =>
    obtain ⟨d⟩ := ih
    exact exists_of_park hpar (fun m hm => List.mem_map.2 (hblocked m hm)) hunread d

end Components

/-! ## What is parked -/

section Parked

variable {scratch first last : Location} {pending ms : List Move} {m : Move}

/-- The first move of a schedule that is carried out as it stands parks nothing. -/
theorem parked_cons_iff (hpar : Parallel scratch pending) (hm : m ∈ pending) {l : Location}
    {moves : List Move} : ⟨l, scratch⟩ ∈ m :: moves ↔ ⟨l, scratch⟩ ∈ moves := by
  refine List.mem_cons.trans (or_iff_right ?_)
  rintro rfl
  exact hpar.target_ne_scratch hm rfl

/-- **Nothing is parked for a path**: it is carried out from its end, where nothing is read. -/
theorem not_parked_of_route (hpar : Parallel scratch pending) (hroute : Route first ms last)
    (hsub : ms ⊆ pending) (hlast : last ∉ pending.map Move.source) (hm : m ∈ ms) :
    ⟨m.source, scratch⟩ ∉ schedule scratch pending := by
  induction hpar using Parallel.induction generalizing ms last with
  | nil => simp [schedule_nil]
  | @free m' rest pending hpar hperm hunread heq ih =>
    have hrest := (hpar.perm hperm).tail
    have hfresh := (List.nodup_cons.1 (hpar.perm hperm).sources_nodup).1
    have hmem' : m' ∈ pending := hperm.mem_iff.2 List.mem_cons_self
    rw [heq, parked_cons_iff hpar hmem']
    have hlater : ∀ {x}, x ∈ ms → x ≠ m' → x ∈ rest :=
      fun hx hne => (List.mem_cons.1 (hperm.mem_iff.1 (hsub hx))).resolve_left hne
    by_cases hin : m' ∈ ms
    · -- the move is the last one of the path, which ends at its source from now on
      obtain ⟨xs, ys, rfl, hxs⟩ := List.eq_append_cons_of_mem hin
      obtain ⟨l, hleft, hright⟩ := Route.append_iff.1 hroute
      obtain rfl := hright.source_eq
      have hys : ys = [] := by
        by_contra hne
        obtain ⟨next, hnext, hsource⟩ := List.mem_map.1 (hright.tail.first_mem hne)
        refine hunread next (hsub ?_) hsource
        exact List.mem_append_right _ (List.mem_cons_of_mem _ hnext)
      subst hys
      by_cases hsame : m = m'
      · subst hsame
        exact fun h => hfresh (source_of_mem_schedule hrest h rfl).1
      · have hmleft : m ∈ xs := by simpa [hsame] using hm
        refine ih hleft ?_ hfresh hmleft
        exact fun x hx => hlater (List.mem_append_left _ hx) fun h => hxs (h ▸ hx)
    · refine ih hroute (fun x hx => hlater hx fun h => hin (h ▸ hx)) ?_ hm
      intro h
      exact hlast ((hperm.map _).mem_iff.2 (List.mem_cons_of_mem _ h))
  | park hpar hblocked _ _ _ =>
    -- every target is read, and so is the one that the path ends with
    obtain ⟨m', hm', rfl⟩ := List.mem_map.1 (hroute.last_mem (List.ne_nil_of_mem hm))
    exact absurd (List.mem_map.2 (hblocked m' (hsub hm'))) hlast

/-- A move that is parked parks nothing for any other one. -/
theorem parked_cons_park_iff {rest moves : List Move} (hpar : Parallel scratch (m :: rest))
    {other : Move} (hother : other ∈ rest) :
    ⟨other.source, scratch⟩ ∈ ⟨m.source, scratch⟩ :: moves ↔ ⟨other.source, scratch⟩ ∈ moves := by
  refine List.mem_cons.trans (or_iff_right ?_)
  intro heq
  have hsource : other.source = m.source := (Move.mk.inj heq).1
  exact (List.nodup_cons.1 hpar.sources_nodup).1 (hsource ▸ List.mem_map_of_mem hother)

/-- When a move of a cycle is parked, nothing is parked for the others, which are a path now. -/
theorem not_parked_of_closed {rest : List Move} (hpar : Parallel scratch (m :: rest))
    (hunread : scratch ∉ (m :: rest).map Move.source) (hroute : Route m.target ms m.source)
    (hsub : ms ⊆ rest) :
    ∀ x ∈ ms, ⟨x.source, scratch⟩ ∉ schedule scratch (⟨scratch, m.target⟩ :: rest) := by
  have hend : m.source ∉ (⟨scratch, m.target⟩ :: rest : List Move).map Move.source := by
    rw [List.map_cons, List.mem_cons, not_or]
    refine ⟨?_, (List.nodup_cons.1 hpar.sources_nodup).1⟩
    rintro rfl
    exact hunread List.mem_cons_self
  exact fun x => not_parked_of_route (hpar.park hunread) hroute
    (List.subset_cons_of_subset _ hsub) hend

/-- **One value is parked for a cycle**: the first one that is leaves a path of the others. -/
theorem countP_parked_of_closed (hpar : Parallel scratch pending) (hroute : Route first ms first)
    (hms : ms ≠ []) (hsub : ms ⊆ pending) (hnodup : ms.Nodup) :
    (ms.countP fun m => ⟨m.source, scratch⟩ ∈ schedule scratch pending) = 1 := by
  induction hpar using Parallel.induction with
  | nil => exact absurd (List.subset_nil.1 hsub) hms
  | @free m rest pending hpar hperm hunread heq ih =>
    -- nothing of the cycle is carried out yet: all of its targets are read
    have hnot : m ∉ ms := by
      intro hin
      obtain ⟨next, hnext, hsource⟩ := List.mem_map.1 (hroute.target_mem_sources hin)
      exact hunread next (hsub hnext) hsource
    have hmem : m ∈ pending := hperm.mem_iff.2 List.mem_cons_self
    simp only [heq, parked_cons_iff hpar hmem]
    refine ih ?_
    intro x hx
    exact (List.mem_cons.1 (hperm.mem_iff.1 (hsub hx))).resolve_left fun h => hnot (h ▸ hx)
  | @park m rest hpar _ hunread heq ih =>
    by_cases hin : m ∈ ms
    · obtain ⟨others, hperm, hothers⟩ := hroute.exists_rotation hin
      have hfresh := (List.nodup_cons.1 (hperm.nodup_iff.1 hnodup)).1
      have hrest : others ⊆ rest := by
        intro x hx
        have hmem := hsub (hperm.mem_iff.2 (List.mem_cons_of_mem _ hx))
        exact (List.mem_cons.1 hmem).resolve_left fun h => hfresh (h ▸ hx)
      have hnone : (others.countP fun x =>
          ⟨x.source, scratch⟩ ∈ schedule scratch (m :: rest)) = 0 := by
        rw [List.countP_eq_zero, heq]
        intro x hx
        rw [decide_eq_true_eq, parked_cons_park_iff hpar (hrest hx)]
        exact not_parked_of_closed hpar hunread hothers hrest x hx
      rw [hperm.countP_eq, List.countP_cons_of_pos, hnone]
      rw [heq]
      exact decide_eq_true List.mem_cons_self
    · have hrest : ms ⊆ rest := fun x hx =>
        (List.mem_cons.1 (hsub hx)).resolve_left fun h => hin (h ▸ hx)
      rw [heq, ← ih (List.subset_cons_of_subset _ hrest)]
      refine List.countP_congr ?_
      intro x hx
      simpa only [decide_eq_true_eq] using parked_cons_park_iff hpar (hrest hx)

/-- Every write of the scratch location parks the value of a pending move of its own. -/
theorem countP_parked (hpar : Parallel scratch pending) :
    (schedule scratch pending).countP (·.target = scratch) =
      pending.countP fun m => ⟨m.source, scratch⟩ ∈ schedule scratch pending := by
  induction hpar using Parallel.induction with
  | nil => simp [schedule_nil]
  | @free m' rest pending hpar hperm _ heq ih =>
    have hrest := (hpar.perm hperm).tail
    have hmem' : m' ∈ pending := hperm.mem_iff.2 List.mem_cons_self
    have hfresh := (List.nodup_cons.1 (hpar.perm hperm).sources_nodup).1
    simp only [heq, parked_cons_iff hpar hmem']
    rw [hperm.countP_eq, List.countP_cons_of_neg (by simpa using hpar.target_ne_scratch hmem'), ih,
      List.countP_cons_of_neg]
    rw [decide_eq_true_eq]
    exact fun h => hfresh (source_of_mem_schedule hrest h rfl).1
  | @park m' rest hpar _ hunread heq ih =>
    have hnot : (⟨scratch, scratch⟩ : Move) ∉ schedule scratch (⟨scratch, m'.target⟩ :: rest) :=
      fun h => (source_of_mem_schedule (hpar.park hunread) h rfl).2 rfl
    rw [heq, List.countP_cons_of_pos (by simp), List.countP_cons_of_pos (by simp), ih,
      List.countP_cons_of_neg (by simpa using hnot)]
    refine congrArg (· + 1) (List.countP_congr ?_)
    intro x hx
    simpa only [decide_eq_true_eq] using (parked_cons_park_iff hpar hx).symm

end Parked

namespace Components

variable {scratch : Location} {pending ms : List Move} (d : Components pending)

theorem countP_parked_of_mem_cycles (hpar : Parallel scratch pending) (h : ms ∈ d.cycles) :
    (ms.countP fun m => ⟨m.source, scratch⟩ ∈ schedule scratch pending) = 1 := by
  obtain ⟨first, hc⟩ := d.cycle ms h
  have hnodup := (d.perm.nodup_iff.1 hpar.targets_nodup.of_map).of_append_right
  exact countP_parked_of_closed hpar hc.route hc.ne_nil (d.subset_of_mem_cycles h)
    ((List.nodup_flatten.1 hnodup).1 ms h)

/-- **A schedule parks as many values as there are cycles.** -/
theorem parkings_eq (hpar : Parallel scratch pending) :
    (schedule scratch pending).countP (·.target = scratch) = d.cycles.length := by
  have hpaths : d.paths.flatten.countP
      (fun m => ⟨m.source, scratch⟩ ∈ schedule scratch pending) = 0 := by
    rw [List.countP_eq_zero]
    intro m hm
    obtain ⟨ms, hms, hmem⟩ := List.mem_flatten.1 hm
    obtain ⟨first, last, hp⟩ := d.path ms hms
    rw [decide_eq_true_eq]
    exact not_parked_of_route hpar hp.route (d.subset_of_mem_paths hms) hp.not_read hmem
  have hcycles := List.map_congr_left fun ms hms => d.countP_parked_of_mem_cycles hpar hms
  rw [countP_parked hpar, d.perm.countP_eq, List.countP_append, hpaths, Nat.zero_add,
    List.countP_flatten, hcycles, List.map_const', List.sum_replicate_nat,
    Nat.mul_one]

end Components

end Trampoline
