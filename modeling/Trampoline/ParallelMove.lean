import Trampoline.Location

/-!
# Parallel moves, one after the other

A list of moves between locations, meant to happen all at once, has to be carried out one by one
without overwriting a value that is still needed.  `schedule` does so with one register to spare.

A pending move is *free* when no pending move reads its target.  Free moves are carried out as long
as there is one.  When there is none, every pending move is on a cycle; the value of the first of
them is parked in the scratch register, its move reads from there from now on, and its old source
has become free for writing.

What a list of moves does, done one after the other, is `runAll`: it says of each location whose
initial content the location holds in the end.
-/

set_option autoImplicit false

namespace Trampoline

/-! ## What moves do -/

/-- For each location, the location whose initial content it holds. -/
abbrev Contents := Location → Location

/-- The contents after one move. -/
def Move.run (m : Move) (c : Contents) : Contents :=
  fun l => if l = m.target then c m.source else c l

@[simp] theorem Move.run_target (m : Move) (c : Contents) : m.run c m.target = c m.source := by
  simp [Move.run]

theorem Move.run_of_ne {m : Move} {l : Location} (h : l ≠ m.target) (c : Contents) :
    m.run c l = c l := by
  simp [Move.run, h]

/-- The contents after the moves, from the left, where each location holds its own at first. -/
def runAll (moves : List Move) : Contents := moves.foldl (fun c m => m.run c) id

@[simp] theorem runAll_nil : runAll [] = id := rfl

theorem runAll_concat (moves : List Move) (m : Move) :
    runAll (moves ++ [m]) = m.run (runAll moves) := by
  simp [runAll]

/-- Moves leave alone what none of them writes. -/
theorem runAll_of_not_written {moves : List Move} {l : Location}
    (h : l ∉ moves.map Move.target) : runAll moves l = l := by
  suffices ∀ c : Contents, moves.foldl (fun c m => m.run c) c l = c l from this id
  induction moves with
  | nil => exact fun _ => rfl
  | cons m rest ih =>
    intro c
    simp only [List.map_cons, List.mem_cons, not_or] at h
    rw [List.foldl_cons, ih h.2, Move.run_of_ne h.1]

/-! ## The schedule -/

/-- Whether nothing that is pending reads the target of the move. -/
def isFree (pending : List Move) (m : Move) : Bool := pending.all (·.source ≠ m.target)

/-- How far a list of pending moves is from being carried out: a move counts once more until it
reads from the scratch register. -/
def toDo (scratch : Location) (pending : List Move) : Nat :=
  pending.length + pending.countP (·.source ≠ scratch)

theorem toDo_eraseP_lt {scratch : Location} {pending : List Move} {p : Move → Bool} {m : Move}
    (h : pending.find? p = some m) : toDo scratch (pending.eraseP p) < toDo scratch pending := by
  have hm := List.mem_of_find?_eq_some h
  have hlen := List.length_eraseP_of_mem hm (List.find?_some h)
  have hpos := List.length_pos_of_mem hm
  have hcount := (List.eraseP_sublist (p := p) (l := pending)).countP_le (p := (·.source ≠ scratch))
  unfold toDo
  omega

theorem toDo_park_lt {scratch : Location} {m : Move} {rest : List Move}
    (h : m.source ≠ scratch) :
    toDo scratch (⟨scratch, m.target⟩ :: rest) < toDo scratch (m :: rest) := by
  simp [toDo, h]

/-- Carries out pending moves one by one.

When the first of several blocked moves already reads from the scratch register, no order is right.
That takes two moves with one source or one target; the move is then made as it stands. -/
def schedule (scratch : Location) (pending : List Move) : List Move :=
  match _h : pending.find? (isFree pending) with
  | some m => m :: schedule scratch (pending.eraseP (isFree pending))
  | none =>
    match pending with
    | [] => []
    | m :: rest =>
      if _hs : m.source = scratch then m :: schedule scratch rest
      else ⟨m.source, scratch⟩ :: schedule scratch (⟨scratch, m.target⟩ :: rest)
termination_by toDo scratch pending
decreasing_by
  · exact toDo_eraseP_lt ‹_›
  · simp [toDo, *]
  · exact toDo_park_lt ‹_›

theorem schedule_nil (scratch : Location) : schedule scratch [] = [] := by
  rw [schedule]; rfl

theorem schedule_of_free {scratch : Location} {pending : List Move} {m : Move}
    (h : pending.find? (isFree pending) = some m) :
    schedule scratch pending = m :: schedule scratch (pending.eraseP (isFree pending)) := by
  rw [schedule]
  split <;> simp_all

theorem schedule_of_blocked {scratch : Location} {m : Move} {rest : List Move}
    (h : (m :: rest).find? (isFree (m :: rest)) = none) (hs : m.source ≠ scratch) :
    schedule scratch (m :: rest) =
      ⟨m.source, scratch⟩ :: schedule scratch (⟨scratch, m.target⟩ :: rest) := by
  rw [schedule]
  split <;> simp_all

end Trampoline
