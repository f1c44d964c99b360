import Trampoline.Proofs.Boundary

/-!
# What can go wrong before there is code

Two things are worked out before a stub has any code: the boundary, and the argument shuffle that
follows from it.  The first can fail in many ways, and the second in none: the homes of arguments
are all different, on either side, and the check of the roles has kept the register of the shuffle
out of them.

## What is here

* `Error.Kind.Bound` — a computation whose errors are of known kinds; `Request.boundary_bound` has
  those of a boundary.
* `Placement.locations_nodup_arguments` — no two arguments have the same home.
* `Request.between_of_boundary` — where there is a boundary, there is a shuffle.
* `Request.blueprint_of_lacking` and `Request.blueprint_of_shuffle` — what a blueprint needs beyond
  a shuffle, which is a first register of three sequences, and no more than that.
-/

set_option autoImplicit false

namespace Trampoline

/-! ## Kinds of errors -/

/-- Whatever goes wrong in a computation is of one of these kinds. -/
def Error.Kind.Bound {α : Type} (kinds : List Error.Kind) (x : Except Error α) : Prop :=
  ∀ e, x = .error e → e.kind ∈ kinds

namespace Error.Kind.Bound

variable {α β : Type} {kinds : List Error.Kind} {x : Except Error α} {f : α → Except Error β}

theorem ok (a : α) : Bound kinds (.ok a) := fun _ h => nomatch h

theorem error {e : Error} (h : e.kind ∈ kinds) : Bound kinds (.error e : Except Error α) := by
  rintro _ heq
  obtain rfl := Except.error.inj heq
  exact h

theorem bind (hx : Bound kinds x) (hf : ∀ a, Bound kinds (f a)) : Bound kinds (x >>= f) := by
  cases x with
  | error e => exact error (hx e rfl)
  | ok a => exact hf a

theorem reject {o : Option Error} (h : ∀ e, o = some e → e.kind ∈ kinds) :
    Bound kinds (reject o) := by
  cases o with
  | none => exact ok ()
  | some e => exact error (h e rfl)

end Error.Kind.Bound

theorem eq_or_eq_of_orElse {α : Type} {a b : Option α} {x : α} (h : (a <|> b) = some x) :
    a = some x ∨ b = some x := by
  cases a with
  | none => exact Or.inr h
  | some _ => exact Or.inl h

theorem Convention.exists_first {c : Convention} {q : Sequence}
    (h : c.registers q ≠ []) : ∃ reg, c.first q = .ok reg := by
  obtain ⟨reg, rest, hregs⟩ := List.exists_cons_of_ne_nil h
  exact ⟨reg, by rw [first, hregs]⟩

/-- Taking the first registers of sequences one after the other fails at the first sequence that has
none. -/
theorem Convention.bind_first_of_lacking {α : Type} {c lack : Convention} {q use : Sequence}
    {pairs : List (Convention × Sequence)} {f : Register → Except Error α}
    (h : ((c, q) :: pairs).find? (fun p => (p.1.registers p.2).isEmpty) = some (lack, use))
    (hrest : ∀ reg, pairs.find? (fun p => (p.1.registers p.2).isEmpty) = some (lack, use) →
      f reg = .error (.noRegister lack.name use)) :
    c.first q >>= f = .error (.noRegister lack.name use) := by
  rw [List.find?_cons] at h
  split at h
  · rename_i hempty
    obtain ⟨rfl, rfl⟩ := Prod.mk.inj (Option.some.inj h)
    rw [first, List.isEmpty_iff.1 hempty]
    rfl
  · rename_i hsome
    obtain ⟨reg, hreg⟩ := exists_first (List.isEmpty_eq_false_iff.1 hsome)
    exact bind_of_eq_ok hreg (hrest reg h)

theorem Convention.kind_of_faultOn? {c : Convention} {file : RegisterFile} {e : Error}
    (h : c.faultOn? file = some e) : e.kind = .convention := by
  obtain ⟨reg, _, hreg⟩ := List.exists_of_findSome?_eq_some h
  split_ifs at hreg <;> exact Option.some.inj hreg ▸ rfl

namespace Request

open Error.Kind

variable {r : Request} {bd : Boundary} {b : Blueprint} {s : Shuffle} {e : Error}

/-- The kinds of errors that can keep a request from having a boundary. -/
def planningKinds : List Error.Kind := [.convention, .signature, .register, .returnBuffer]

theorem kind_of_partsFault? (h : r.partsFault? = some e) : e.kind = .convention := by
  rw [partsFault?] at h
  rcases eq_or_eq_of_orElse h with h | h
  · exact Convention.kind_of_faultOn? h
  rcases eq_or_eq_of_orElse h with h | h
  · exact Convention.kind_of_faultOn? h
  · obtain ⟨hook, _, rfl⟩ := Option.map_eq_some_iff.1 h
    rfl

theorem kind_of_rolesFault? (h : r.rolesFault? = some e) : e.kind = .register := by
  have hclash : ∀ {inTheWay : List Register} {p : Register × Role},
      (if inTheWay.contains p.1 then some (Error.registerRole p.1 p.2) else none) = some e →
        e.kind = .register := by
    intro inTheWay p h
    split_ifs at h
    exact Option.some.inj h ▸ rfl
  rw [rolesFault?] at h
  rcases eq_or_eq_of_orElse h with h | h
  · obtain ⟨_, _, h⟩ := List.exists_of_findSome?_eq_some h
    exact hclash h
  rcases eq_or_eq_of_orElse h with h | h
  · exact hclash (p := (r.target.roles.thread, .thread)) h
  · obtain ⟨_, _, h⟩ := List.exists_of_findSome?_eq_some h
    exact hclash h

theorem returns_bound (c : Convention) (types : List ValueType) :
    Bound planningKinds (Placement.returns c types) := by
  rw [Placement.returns]
  split
  · exact .ok _
  · exact .error (by simp [Error.kind, planningKinds])

theorem resolve_bound (p : ReturnBuffer) (signature : Signature) (direct : Bool) :
    Bound planningKinds (p.resolve signature direct) := by
  cases p with
  | automatic => exact .ok _
  | explicit bytes =>
    rw [ReturnBuffer.resolve]
    split
    · exact .error (by simp [Error.kind, planningKinds])
    · exact .ok _

theorem bufferRegister_bound (nativeReturns : Placement) :
    Bound planningKinds (r.bufferRegister nativeReturns) := by
  rw [bufferRegister]
  split
  · exact .error (by simp [Error.kind, planningKinds])
  · split
    · exact .error (by simp [Error.kind, planningKinds])
    · split
      · exact .error (by simp [Error.kind, planningKinds])
      · exact .ok _

/-- The receiver has a slot, whatever the runtime's convention. -/
theorem receiverRegister_bound : Bound planningKinds r.receiverRegister := by
  rw [receiverRegister]
  split
  · rename_i hargs
    have hlength := congrArg List.length hargs
    rw [runtimeArgs, Placement.length_arguments] at hlength
    cases hlength
  · split
    · exact .ok _
    · exact .error (by simp [Error.kind, planningKinds])

/-- **What can keep a request from having a boundary** is nothing that the checks are there to
exclude. -/
theorem boundary_bound (r : Request) : Bound planningKinds r.boundary := by
  refine .bind (.reject fun e he => ?_) fun _ => .bind (returns_bound _ _) fun nativeReturns =>
    .bind (resolve_bound _ _ _) fun bytes => .bind (.reject fun e he => ?_) fun _ => ?_
  · simp [kind_of_partsFault? he, planningKinds]
  · simp [kind_of_rolesFault? he, planningKinds]
  have hlast : ∀ buffer, Bound planningKinds (do
      let receiver ← r.receiverRegister
      return ({
        nativeArgs := r.nativeArgs
        runtimeArgs := r.runtimeArgs
        nativeReturns
        buffer
        receiver } : Boundary)) :=
    fun buffer => .bind receiverRegister_bound fun receiver => .ok _
  cases bytes with
  | none => exact .bind (.ok _) hlast
  | some n => exact .bind (bufferRegister_bound _) fun reg => .bind (.ok _) hlast

end Request

/-! ## The shuffle -/

namespace Placement

variable {area : Area} {ints floats : List Register} {offset : Int} {types : List ValueType}

/-- What is placed later does not go to a register that is not left... -/
theorem register_not_mem_placeFrom {reg : Register} (hints : reg ∉ ints) (hfloats : reg ∉ floats) :
    .register reg ∉ (placeFrom area ints floats offset types).locations := by
  intro h
  rcases mem_locations_placeFrom h with ⟨_, heq, hreg⟩ | ⟨_, heq⟩
  · obtain rfl := Location.register.inj heq
    exact hreg.elim hints hfloats
  · cases heq

/-- ...nor to a part of the stack that is in use. -/
theorem stack_not_mem_placeFrom :
    .stack area offset ∉
      (placeFrom area ints floats (offset + stackArgBytes) types).locations := by
  intro h
  rcases mem_locations_placeFrom h with ⟨_, heq, _⟩ | ⟨k, heq⟩
  · cases heq
  · have hoffset := (Location.stack.inj heq).2
    rw [stackArgBytes] at hoffset
    omega

theorem locations_nodup_placeFrom (hints : ints.Nodup) (hfloats : floats.Nodup)
    (hapart : ∀ reg ∈ ints, reg ∉ floats) :
    (placeFrom area ints floats offset types).locations.Nodup := by
  fun_induction placeFrom area ints floats offset types with
  | case1 => exact List.nodup_nil
  | case2 ints offset t rest _ r floats ih =>
    obtain ⟨hr, hfloats⟩ := List.nodup_cons.1 hfloats
    refine List.nodup_cons.2 ⟨register_not_mem_placeFrom ?_ hr, ih hints hfloats fun reg hreg h =>
      hapart reg hreg (List.mem_cons_of_mem _ h)⟩
    exact fun hint => hapart r hint List.mem_cons_self
  | case3 ints offset t rest _ ih =>
    exact List.nodup_cons.2 ⟨stack_not_mem_placeFrom, ih hints hfloats hapart⟩
  | case4 floats offset t rest _ r ints ih =>
    obtain ⟨hr, hints⟩ := List.nodup_cons.1 hints
    exact List.nodup_cons.2 ⟨register_not_mem_placeFrom hr (hapart r List.mem_cons_self),
      ih hints hfloats fun reg hreg => hapart reg (List.mem_cons_of_mem _ hreg)⟩
  | case5 floats offset t rest _ ih =>
    exact List.nodup_cons.2 ⟨stack_not_mem_placeFrom, ih hints hfloats hapart⟩

/-- No two arguments have the same home. -/
theorem locations_nodup_arguments (c : Convention) (types : List ValueType) (area : Area) :
    (arguments c types area).locations.Nodup :=
  locations_nodup_placeFrom (c.mem_sequence .intArgs).2 (c.mem_sequence .floatArgs).2
    fun _ => Convention.not_mem_registers (p := .intArgs) (q := .floatArgs) (by decide)

end Placement

namespace Request

variable {r : Request} {bd : Boundary} {b : Blueprint} {s : Shuffle} {e : Error}

/-- **Where there is a boundary, there is a shuffle.** -/
theorem between_of_boundary (h : r.boundary = .ok bd) :
    ∃ s, Shuffle.between bd.nativeArgs bd.runtimeArgs r.target.roles.shuffle = .ok s := by
  obtain ⟨_, hroles, _, hnative, hruntime, _⟩ := boundary_eq_ok h
  obtain ⟨hruntimeRoles, hnativeRoles⟩ := rolesFault?_eq_none_iff.1 hroles
  have hlength : r.runtimeArgs.tail.length = r.nativeArgs.length := by
    simp [runtimeArgs, nativeArgs]
  have hlocations : r.nativeArgs.locations.length =
      (Placement.locations r.runtimeArgs.tail).length := by
    simp only [Placement.locations, List.length_map, hlength]
  have hsources := Move.map_source_zipWith (Nat.le_of_eq hlocations)
  have htargets := Move.map_target_zipWith (Nat.le_of_eq hlocations.symm)
  generalize hmapping : List.zipWith Move.mk r.nativeArgs.locations
    (Placement.locations r.runtimeArgs.tail) = mapping at hsources htargets
  have htail : (Placement.locations r.runtimeArgs.tail).Sublist r.runtimeArgs.locations :=
    (List.tail_sublist _).map _
  have hsound : Shuffle.conflict? r.target.roles.shuffle [] mapping = none := by
    refine Shuffle.conflict?_eq_none_iff.2 ⟨?_, ?_, ⟨?_, by simp⟩, ?_, by simp⟩
    · intro m hm
      constructor
      · intro heq
        have hmem : m.source ∈ r.nativeArgs.locations := hsources ▸ List.mem_map_of_mem hm
        exact (hnativeRoles _ (Placement.mem_registers_iff.2 (heq ▸ hmem))).2.1 rfl
      · intro heq
        have hmem : m.target ∈ r.runtimeArgs.locations :=
          htail.subset (htargets ▸ List.mem_map_of_mem hm)
        refine hruntimeRoles _ (Placement.mem_registers_iff.2 (heq ▸ hmem)) ?_
        simp [Roles.mem_registers]
    · intro m hm offset heq
      have hmem : m.target ∈ r.runtimeArgs.locations :=
        htail.subset (htargets ▸ List.mem_map_of_mem hm)
      rw [heq] at hmem
      cases (Placement.stack_of_mem_arguments hmem).1
    · rw [htargets]
      exact (Placement.locations_nodup_arguments ..).sublist htail
    · rw [hsources]
      exact Placement.locations_nodup_arguments ..
  rw [hnative, hruntime]
  exact ⟨⟨mapping, _, hsound⟩, Shuffle.between_eq_ok_iff.2 ⟨hlength, hmapping.symm, rfl⟩⟩

/-- Planning comes to a shuffle exactly if there is a boundary. -/
theorem shuffle_eq_error_iff : r.shuffle = .error e ↔ r.boundary = .error e := by
  rw [shuffle]
  cases h : r.boundary with
  | error e' =>
    constructor <;> (intro h; cases h; rfl)
  | ok bd =>
    obtain ⟨s, hs⟩ := between_of_boundary h
    refine iff_of_false ?_ (fun h => nomatch h)
    intro herror
    cases hs.symm.trans herror

/-! ## The blueprint -/

/-- The sequences that a stub takes the first register of: for the argument and the result of a
hook, and for an exception. -/
def leading (r : Request) : List (Convention × Sequence) :=
  [(r.native, .intArgs), (r.native, .intReturns), (r.runtime, .intReturns)]

/-- The first of these sequences that has no register. -/
def lacking? (r : Request) : Option (Convention × Sequence) :=
  r.leading.find? fun p => (p.1.registers p.2).isEmpty

theorem lacking?_eq_none_iff :
    r.lacking? = none ↔
      r.native.intArgs ≠ [] ∧ r.native.intReturns ≠ [] ∧ r.runtime.intReturns ≠ [] := by
  simp [lacking?, leading, Convention.Settings.registers]

/-- A shuffle is not enough for a blueprint if a first register is lacking... -/
theorem blueprint_of_lacking {c : Convention} {q : Sequence} (h : r.boundary = .ok bd)
    (hlacking : r.lacking? = some (c, q)) : r.blueprint = .error (.noRegister c.name q) := by
  exact bind_of_eq_ok h <|
    Convention.bind_first_of_lacking hlacking fun _ hrest =>
      Convention.bind_first_of_lacking hrest fun _ hrest =>
        Convention.bind_first_of_lacking hrest fun _ hrest => nomatch hrest

/-- ...and it is if none is. -/
theorem blueprint_of_shuffle (h : r.shuffle = .ok s) (hlacking : r.lacking? = none) :
    ∃ b, r.blueprint = .ok b ∧ b.shuffle = s := by
  rw [shuffle] at h
  obtain ⟨bd, hbd, hs⟩ := exists_of_bind_eq_ok h
  obtain ⟨hargs, hreturns, hexception⟩ := lacking?_eq_none_iff.1 hlacking
  obtain ⟨hookArg, hhookArg⟩ := Convention.exists_first (q := .intArgs) hargs
  obtain ⟨hookResult, hhookResult⟩ := Convention.exists_first (q := .intReturns) hreturns
  obtain ⟨exception, hexception⟩ := Convention.exists_first (q := .intReturns) hexception
  exact ⟨⟨r, bd, hookArg, hookResult, exception, s⟩,
    bind_of_eq_ok hbd <| bind_of_eq_ok hhookArg <| bind_of_eq_ok hhookResult <|
      bind_of_eq_ok hexception <| bind_of_eq_ok hs rfl, rfl⟩

end Request

end Trampoline
