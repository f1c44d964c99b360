import Mathlib.Data.List.Basic
import Trampoline.Proofs.Planning

/-!
# The home of an argument

Placing arguments is a walk along their types, with two lists of registers and a part of the stack
that are used up on the way.  A caller who wants to know where one argument is need not walk: the
home of an argument depends on its own type and on the types in front of it only.  The first
arguments of a class have the registers for that class, in order, and the others line up on the
stack, both classes in one row.  `Convention.home` says this without any state.

That the walk comes to the same rests on one fact about it (`placeFrom_append`): what it has used
up when it comes to the later arguments can be told from the earlier ones by counting.

* `Convention.argument?`, `Convention.overflow` and `Convention.home` — the rule.
* `Placement.countP_onStack_placeFrom` and `Placement.stacks_placeFrom` — how many arguments are on
  the stack, and where.
* `Placement.arguments_follow_rule` — the walk and the rule agree.
-/

set_option autoImplicit false

namespace Trampoline

/-! ## The rule -/

/-- The sequence that an argument of the type takes its register from. -/
def ValueType.argSequence (t : ValueType) : Sequence :=
  if t.isFloating then .floatArgs else .intArgs

namespace Convention

variable (c : Convention)

/-- The register of an argument behind others: of each class, the first has the first register, the
second has the second, as long as there are any. -/
def argument? (front : List ValueType) (t : ValueType) : Option Register :=
  (c.registers t.argSequence)[front.countP (·.isFloating = t.isFloating)]?

/-- How many of some arguments have no register: of each class, as many as there are more of them
than registers. -/
def overflow (types : List ValueType) : Nat :=
  (types.countP (·.isFloating) - c.floatArgs.length) +
    (types.countP (!·.isFloating) - c.intArgs.length)

/-- The home of an argument behind others: its register, or else the stack slot behind those of the
arguments that have none either. -/
def home (area : Area) (front : List ValueType) (t : ValueType) : Location :=
  match c.argument? front t with
  | some reg => .register reg
  | none => .stack area (8 * c.overflow front)

end Convention

/-! ## The walk -/

/-- The area and the offset, for a location on the stack. -/
def Location.stack? : Location → Option (Area × Int)
  | register _ => none
  | stack area offset => some (area, offset)

/-- Whether the value is on the stack. -/
def Slot.onStack (s : Slot) : Bool := s.location.stack?.isSome

@[simp] theorem Slot.onStack_register (t : ValueType) (reg : Register) :
    (⟨t, .register reg⟩ : Slot).onStack = false := rfl

@[simp] theorem Slot.onStack_stack (t : ValueType) (area : Area) (offset : Int) :
    (⟨t, .stack area offset⟩ : Slot).onStack = true := rfl

namespace Placement

variable {area : Area} {ints floats : List Register} {offset : Int} {t : ValueType}
  {types front rest : List ValueType}

/-- The number of arguments that have no register... -/
theorem countP_onStack_placeFrom :
    (placeFrom area ints floats offset types).countP Slot.onStack =
      (types.countP (·.isFloating) - floats.length) +
        (types.countP (!·.isFloating) - ints.length) := by
  fun_induction placeFrom area ints floats offset types with
  | case1 => simp
  | case2 ints offset t rest ht r floats ih | case4 floats offset t rest ht r ints ih =>
    simp [ih, ht]
  | case3 ints offset t rest ht ih | case5 floats offset t rest ht ih =>
    simp [List.countP_cons, ih, ht]
    omega

/-- ...and where they are: one behind the other. -/
theorem stacks_placeFrom :
    (placeFrom area ints floats offset types).locations.filterMap Location.stack? =
      (List.range ((placeFrom area ints floats offset types).countP Slot.onStack)).map
        fun k : Nat => (area, offset + 8 * k) := by
  fun_induction placeFrom area ints floats offset types with
  | case1 => rfl
  | case2 ints offset t rest ht r floats ih | case4 floats offset t rest ht r ints ih =>
    rw [List.countP_cons_of_neg (by simp), ← ih]
    rfl
  | case3 ints offset t rest ht ih | case5 floats offset t rest ht ih =>
    rw [List.countP_cons_of_pos (by simp), List.range_succ_eq_map, List.map_cons, List.map_map]
    refine List.cons_eq_cons.2 ⟨by simp, ih.trans (List.map_congr_left fun k _ => ?_)⟩
    simp [stackArgBytes]
    omega

/-- Later arguments are placed behind the earlier ones, with the registers that these have left, and
on the stack behind them. -/
theorem placeFrom_append :
    placeFrom area ints floats offset (front ++ rest) =
      placeFrom area ints floats offset front ++
        placeFrom area (ints.drop (front.countP (!·.isFloating)))
          (floats.drop (front.countP (·.isFloating)))
          (offset + 8 * (placeFrom area ints floats offset front).countP Slot.onStack) rest := by
  fun_induction placeFrom area ints floats offset front with
  | case1 => simp
  | case2 ints offset t front ht r floats ih | case4 floats offset t front ht r ints ih =>
    rw [List.cons_append, placeFrom.eq_def]
    simp [ht, ih]
  | case3 ints offset t front ht ih | case5 floats offset t front ht ih =>
    have hoffset : ∀ n : Nat, offset + stackArgBytes + 8 * n = offset + 8 * (n + 1 : Nat) := by
      simp only [stackArgBytes]
      omega
    rw [List.cons_append, placeFrom.eq_def, List.countP_cons_of_pos (Slot.onStack_stack ..),
      ← hoffset]
    simp [ht, ih]

/-- The first of the arguments has the first register that is left for its class, or else the next
slot on the stack. -/
theorem head?_placeFrom :
    (placeFrom area ints floats offset (t :: rest)).head? =
      some ⟨t, match (if t.isFloating then floats else ints).head? with
        | some reg => .register reg
        | none => .stack area offset⟩ := by
  rw [placeFrom.eq_def]
  cases ht : t.isFloating <;> cases floats <;> cases ints <;> simp [ht]

/-! ## The walk keeps to the rule -/

section

variable (c : Convention) (types : List ValueType) (area : Area) (n : Nat)

theorem countP_onStack_arguments :
    (arguments c types area).countP Slot.onStack = c.overflow types :=
  countP_onStack_placeFrom

/-- The first arguments, and what is left for the others. -/
theorem arguments_split :
    arguments c types area = arguments c (types.take n) area ++
      placeFrom area (c.intArgs.drop ((types.take n).countP (!·.isFloating)))
        (c.floatArgs.drop ((types.take n).countP (·.isFloating)))
        (8 * c.overflow (types.take n)) (types.drop n) := by
  have happend := @placeFrom_append area c.intArgs c.floatArgs 0 (types.take n) (types.drop n)
  rwa [List.take_append_drop, ← arguments, ← arguments, countP_onStack_arguments,
    Int.zero_add] at happend

/-- The placement of the first arguments is the first part of the placement. -/
theorem arguments_take :
    arguments c (types.take n) area = (arguments c types area).take n := by
  have hstart : arguments c (types.take n) area <+: arguments c types area :=
    ⟨_, (arguments_split c types area n).symm⟩
  rw [List.prefix_iff_eq_take.1 hstart, length_arguments, List.length_take, ← length_arguments c,
    ← List.take_eq_take_min]

/-- An argument is at home. -/
theorem getElem?_arguments :
    (arguments c types area)[n]? =
      types[n]?.map fun t => ⟨t, c.home area (types.take n) t⟩ := by
  cases h : types[n]? with
  | none => simpa using h
  | some t =>
    obtain ⟨hlt, rfl⟩ := List.getElem?_eq_some_iff.1 h
    have hlength : (arguments c (types.take n) area).length = n := by
      rw [length_arguments, List.length_take, Nat.min_eq_left (Nat.le_of_lt hlt)]
    rw [arguments_split c types area n, List.getElem?_append_right (Nat.le_of_eq hlength), hlength,
      Nat.sub_self, ← List.head?_eq_getElem?, List.drop_eq_getElem_cons hlt, head?_placeFrom,
      Option.map_some, Convention.home, Convention.argument?, ValueType.argSequence]
    cases ht : types[n].isFloating <;> simp [Convention.Settings.registers]

/-- **The walk keeps to the rule.**  The k-th argument of a class has the k-th register for that
class, if there is one; else it is on the stack, behind the earlier arguments that have none
either.  No two arguments share a home, the slots on the stack are used without a gap, in the order
of the arguments, and an argument is where it would be if those behind it were missing. -/
theorem arguments_follow_rule :
    arguments c types area = types.mapIdx (fun i t => ⟨t, c.home area (types.take i) t⟩) ∧
    (∀ i, c.overflow (types.take i) = ((arguments c types area).take i).countP Slot.onStack) ∧
    (arguments c types area).locations.Nodup ∧
    (arguments c types area).locations.filterMap Location.stack? =
      (List.range (c.overflow types)).map (fun k : Nat => (area, 8 * (k : Int))) ∧
    ∀ i, arguments c (types.take i) area = (arguments c types area).take i := by
  refine ⟨List.ext_getElem? fun i => ?_, fun i => ?_, locations_nodup_arguments c types area, ?_,
    arguments_take c types area⟩
  · rw [getElem?_arguments, List.getElem?_mapIdx]
  · rw [← arguments_take, countP_onStack_arguments]
  · rw [← countP_onStack_arguments c types area, arguments, stacks_placeFrom]
    simp only [Int.zero_add]

example :
    ((arguments .aapcs64 (.replicate 9 .int ++ [.double, .int]) .incoming).locations.drop 8) =
      [.stack .incoming 0, .register (.vector 0), .stack .incoming 8] := by decide

end

end Placement

end Trampoline
