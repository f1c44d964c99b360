import Mathlib.Data.List.Nodup
import Trampoline.Blueprint
import Trampoline.Proofs.Shuffle.Admission

/-!
# What is known about the registers of a stub

A request becomes a blueprint only after many checks.  This file turns them around: it says, in
terms of membership, what has been established about the registers of a blueprint that exists.

## What is here

* `Roles.faultOn?_eq_none_iff`, `Convention.faultOn?_eq_none_iff` and `Convention.mem_sequence` —
  what the checks on a target and on a convention come to.
* `Placement.mem_locations_placeFrom` and its like — where arguments and results can be.
* `Blueprint.Sound` — everything that the checks of a request say about its blueprint, and
  `Request.blueprint_sound`, which says that every blueprint that was worked out is sound.
-/

set_option autoImplicit false

namespace Trampoline

/-- What a sequence of two computations that can fail has come to. -/
theorem exists_of_bind_eq_ok {ε α β : Type} {x : Except ε α} {f : α → Except ε β} {v : β}
    (h : x >>= f = .ok v) : ∃ a, x = .ok a ∧ f a = .ok v := by
  cases x with
  | error e => cases h
  | ok a => exact ⟨a, rfl, h⟩

theorem bind_of_eq_ok {ε α β : Type} {x : Except ε α} {f : α → Except ε β} {a : α}
    {y : Except ε β} (h : x = .ok a) (hf : f a = y) : x >>= f = y := by
  rw [h]
  exact hf

/-- What is known about the result of a computation is known of a result. -/
theorem exists_of_map_toOption {ε α β : Type} {x : Except ε α} {f : α → β} {v : β}
    (h : x.toOption.map f = some v) : ∃ a, x = .ok a ∧ f a = v := by
  cases x with
  | error e => cases h
  | ok a => exact ⟨a, rfl, Option.some.inj h⟩

theorem reject_eq_ok_iff {e : Option Error} {u : Unit} : reject e = .ok u ↔ e = none := by
  cases e <;> simp [reject]

theorem orElse_eq_none_iff {α : Type} {a b : Option α} :
    (a <|> b) = none ↔ a = none ∧ b = none := by
  cases a <;> simp

/-! ## Targets -/

namespace Roles

variable {file : RegisterFile} {taken : List Register} {rs : List (Register × Role)}

theorem faultAmong?_eq_none_iff :
    faultAmong? file taken rs = none ↔
      (∀ p ∈ rs, p.1.isGeneral = true ∧ file.contains p.1 = true ∧ file.holdsFrame p.1 = false ∧
        p.1 ∉ taken) ∧ (rs.map Prod.fst).Nodup := by
  induction rs generalizing taken with
  | nil => simp [faultAmong?]
  | cons p rest ih =>
    obtain ⟨reg, role⟩ := p
    rw [faultAmong?]
    split
    · rename_i h
      simp only [Bool.and_eq_true, Bool.not_eq_true', List.contains_eq_mem,
        decide_eq_false_iff_not] at h
      rw [ih, List.forall_mem_cons, List.map_cons, List.nodup_cons]
      simp only [List.mem_cons, not_or]
      constructor
      · rintro ⟨hrest, hnodup⟩
        refine ⟨⟨⟨h.1.1.1, h.1.1.2, h.1.2, h.2⟩, ?_⟩, ?_, hnodup⟩
        · intro p hp
          have := hrest p hp
          exact ⟨this.1, this.2.1, this.2.2.1, this.2.2.2.2⟩
        · intro hmem
          obtain ⟨p, hp, rfl⟩ := List.mem_map.1 hmem
          exact (hrest p hp).2.2.2.1 rfl
      · rintro ⟨⟨_, hrest⟩, hreg, hnodup⟩
        refine ⟨?_, hnodup⟩
        intro p hp
        have := hrest p hp
        exact ⟨this.1, this.2.1, this.2.2.1,
          fun heq => hreg (heq ▸ List.mem_map_of_mem hp), this.2.2.2⟩
    · rename_i h
      refine iff_of_false (fun h => nomatch h) ?_
      rintro ⟨hall, _⟩
      have hp := hall _ List.mem_cons_self
      refine h ?_
      simp [hp.1, hp.2.1, hp.2.2.1, hp.2.2.2]

/-- The registers that a stub keeps for itself. -/
def registers (r : Roles) : List Register := r.toList.map Prod.fst

theorem mem_registers {r : Roles} {reg : Register} :
    reg ∈ r.registers ↔
      reg = r.thread ∨ reg = r.method ∨ reg = r.scratch ∨ reg = r.secondScratch ∨
        reg = r.shuffle := by
  simp [registers, toList]

theorem forall_mem_registers {r : Roles} {P : Register → Prop} :
    (∀ reg ∈ r.registers, P reg) ↔
      P r.thread ∧ P r.method ∧ P r.scratch ∧ P r.secondScratch ∧ P r.shuffle := by
  simp only [mem_registers, forall_eq_or_imp, forall_eq]

theorem not_mem_registers {r : Roles} {reg : Register} :
    reg ∉ r.registers ↔
      reg ≠ r.thread ∧ reg ≠ r.method ∧ reg ≠ r.scratch ∧ reg ≠ r.secondScratch ∧
        reg ≠ r.shuffle := by
  simp only [mem_registers, not_or, ne_eq]

end Roles

namespace Target

variable (t : Target)

/-- The five registers are general registers of the machine and none of them holds the frame. -/
theorem roles_sound {reg : Register} (h : reg ∈ t.roles.registers) :
    reg.isGeneral = true ∧ t.file.contains reg = true ∧ t.file.holdsFrame reg = false := by
  obtain ⟨p, hp, rfl⟩ := List.mem_map.1 h
  have := (Roles.faultAmong?_eq_none_iff.1 t.sound).1 p hp
  exact ⟨this.1, this.2.1, this.2.2.1⟩

theorem roles_nodup : t.roles.registers.Nodup :=
  (Roles.faultAmong?_eq_none_iff.1 t.sound).2

end Target

namespace RegisterFile

variable (file : RegisterFile)

theorem holdsFrame_eq_false_iff {reg : Register} :
    file.holdsFrame reg = false ↔ reg ≠ file.framePointer ∧ reg ≠ file.stackPointer := by
  simp [holdsFrame]

theorem proposal_sound : file.bankFault? = none ∧ file.rangeFault? = none ∧
    file.sharedFault? = none := by
  have h := file.sound
  rw [Proposal.fault?, orElse_eq_none_iff, orElse_eq_none_iff] at h
  exact ⟨h.1, h.2.1, h.2.2⟩

theorem isGeneral_of_frame :
    file.framePointer.isGeneral = true ∧ file.linkRegister.isGeneral = true ∧
      file.stackPointer.isGeneral = true := by
  have h := file.proposal_sound.1
  simp only [Proposal.bankFault?, List.findSome?_eq_none_iff, List.forall_mem_cons,
    ite_eq_left_iff, reduceCtorEq, imp_false, Bool.not_eq_true, Bool.not_eq_false] at h
  exact ⟨h.1, h.2.1, h.2.2.1⟩

theorem framePointer_ne : file.framePointer ≠ file.stackPointer ∧
    file.framePointer ≠ file.linkRegister := by
  have h := file.proposal_sound.2.2
  simp only [Proposal.sharedFault?, ite_eq_right_iff, reduceCtorEq, imp_false, not_or] at h
  exact h

theorem contains_framePair : file.contains file.framePointer = true ∧
    file.contains file.linkRegister = true := by
  have h := file.proposal_sound.2.1
  simp only [Proposal.rangeFault?, ite_eq_left_iff, reduceCtorEq, imp_false,
    Decidable.not_not] at h
  obtain ⟨hf, hl, _⟩ := file.isGeneral_of_frame
  simp only [Register.isGeneral, decide_eq_true_eq] at hf hl
  simp [contains, hf, hl, h.1, h.2]

/-- The members of a span are the registers of the bank with an index below its end. -/
theorem mem_span_iff {bank : Bank} {count : Byte} {reg : Register} :
    reg ∈ Register.span bank 0 count.toNat ↔ reg.bank = bank ∧ reg.index < count := by
  obtain ⟨bank', i⟩ := reg
  simp only [Register.span, List.mem_map, List.mem_range', Register.mk.injEq, BitVec.lt_def]
  constructor
  · rintro ⟨_, ⟨k, hk, rfl⟩, rfl, rfl⟩
    have := count.isLt
    rw [BitVec.toNat_ofNat, Nat.mod_eq_of_lt (by omega)]
    exact ⟨rfl, by omega⟩
  · rintro ⟨rfl, hi⟩
    exact ⟨i.toNat, ⟨i.toNat, hi, by omega⟩, rfl, by simp⟩

/-- The registers of the two banks are all there are, the stack pointer apart. -/
theorem contains_iff_mem {reg : Register} :
    file.contains reg = true ↔
      (reg ∈ file.generals ∨ reg ∈ file.vectors) ∨ reg = file.stackPointer := by
  have hsp := file.isGeneral_of_frame.2.2
  rw [generals, vectors, mem_span_iff, mem_span_iff]
  obtain ⟨bank, i⟩ := reg
  cases bank with
  | general => simp [contains]
  | vector =>
    have hne : (⟨.vector, i⟩ : Register) ≠ file.stackPointer := by
      intro heq
      rw [← heq] at hsp
      cases hsp
    simp [contains, hne]

end RegisterFile

theorem Register.span_nodup (bank : Bank) (count : Byte) :
    (Register.span bank 0 count.toNat).Nodup := by
  refine List.Nodup.map_on ?_ List.nodup_range'
  intro i hi j hj heq
  have := count.isLt
  rw [List.mem_range'] at hi hj
  have hindex := congrArg (fun r : Register => r.index.toNat) heq
  simp only [BitVec.toNat_ofNat] at hindex
  omega

/-! ## Conventions -/

namespace Convention

variable {c : Convention} {file : RegisterFile} {q : Sequence} {reg : Register}

theorem sequence_sound (c : Convention) (q : Sequence) : c.sequenceFault? q = none := by
  have h := c.sound
  simp only [Settings.fault?, orElse_eq_none_iff] at h
  cases q
  · exact h.2.2.1
  · exact h.2.2.2.1
  · exact h.2.2.2.2.1
  · exact h.2.2.2.2.2.1

/-- The registers of a sequence come from its bank, and each of them is there once. -/
theorem mem_sequence (c : Convention) (q : Sequence) :
    (∀ reg ∈ c.registers q, reg.bank = q.bank) ∧ (c.registers q).Nodup := by
  have h := c.sequence_sound q
  rw [Settings.sequenceFault?] at h
  split at h
  · cases h
  · rename_i hfind
    simp only [ite_eq_left_iff, reduceCtorEq, imp_false, Decidable.not_not] at h
    refine ⟨?_, h⟩
    intro reg hreg
    simpa using List.find?_eq_none.1 hfind reg hreg

/-- Sequences from different banks have no register in common. -/
theorem not_mem_registers {p : Sequence} (hp : p.bank ≠ q.bank) (h : reg ∈ c.registers p) :
    reg ∉ c.registers q :=
  fun hq => hp (((c.mem_sequence p).1 reg h).symm.trans ((c.mem_sequence q).1 reg hq))

theorem faultOn?_eq_none_iff :
    c.faultOn? file = none ↔
      ∀ reg ∈ c.named, file.contains reg = true ∧ file.holdsFrame reg = false := by
  rw [faultOn?, List.findSome?_eq_none_iff]
  refine forall_congr' fun reg => imp_congr_right fun _ => ?_
  cases file.contains reg <;> cases file.holdsFrame reg <;> simp

theorem mem_named_of_mem_registers (h : reg ∈ c.registers q) : reg ∈ c.named := by
  rw [named]
  cases q <;> simp only [Settings.registers] at h <;> simp [h]

theorem first_eq_ok (h : c.first q = .ok reg) : reg ∈ c.registers q := by
  rw [first] at h
  split at h
  · cases h
  · rename_i hregs
    obtain rfl := Except.ok.inj h
    rw [hregs]
    exact List.mem_cons_self

/-- The registers that a callee must preserve, each of them once. -/
theorem preserved_nodup (c : Convention) (file : RegisterFile) : (c.preserved file).Nodup := by
  refine List.Nodup.filter _ (List.nodup_append.2 ⟨Register.span_nodup .general _,
    Register.span_nodup .vector _, ?_⟩)
  intro r hr s hs heq
  have hgeneral := (RegisterFile.mem_span_iff.1 hr).1
  have hvector := (RegisterFile.mem_span_iff.1 hs).1
  rw [heq, hvector] at hgeneral
  cases hgeneral

theorem mem_preserved_iff :
    reg ∈ c.preserved file ↔ (reg ∈ file.generals ∨ reg ∈ file.vectors) ∧
      file.holdsFrame reg = false ∧ reg ∉ c.volatile := by
  simp only [preserved, isVolatile, List.mem_filter, List.mem_append, Bool.and_eq_true,
    Bool.not_eq_true', List.contains_eq_mem, decide_eq_false_iff_not]

end Convention

/-! ## Placements -/

namespace Placement

variable {area : Area} {ints floats : List Register} {offset : Int} {types : List ValueType}
  {p : Placement} {reg : Register} {slot : Slot}

theorem mem_registers_iff : reg ∈ p.registers ↔ .register reg ∈ p.locations :=
  Location.mem_filterMap_register?

/-- An argument is in one of the registers that were left, or in a slot of the stack area behind
those in use. -/
theorem mem_locations_placeFrom {l : Location}
    (h : l ∈ (placeFrom area ints floats offset types).locations) :
    (∃ reg, l = .register reg ∧ (reg ∈ ints ∨ reg ∈ floats)) ∨
      ∃ k : Nat, l = .stack area (offset + 8 * k) := by
  have hnext : ∀ {n : Int}, (∃ k : Nat, l = .stack area (n + stackArgBytes + 8 * k)) →
      ∃ k : Nat, l = .stack area (n + 8 * k) := by
    rintro n ⟨k, rfl⟩
    refine ⟨k + 1, congrArg _ ?_⟩
    have : (stackArgBytes : Int) = 8 := rfl
    omega
  fun_induction placeFrom area ints floats offset types with
  | case1 => cases h
  | case2 ints offset t rest _ r floats ih =>
    rcases List.mem_cons.1 h with rfl | h
    · exact Or.inl ⟨r, rfl, Or.inr List.mem_cons_self⟩
    · refine (ih h).imp_left ?_
      rintro ⟨reg, rfl, hreg⟩
      exact ⟨reg, rfl, hreg.imp_right (List.mem_cons_of_mem _)⟩
  | case3 ints offset t rest _ ih =>
    rcases List.mem_cons.1 h with rfl | h
    · exact Or.inr ⟨0, by simp⟩
    · exact (ih h).imp_right hnext
  | case4 floats offset t rest _ r ints ih =>
    rcases List.mem_cons.1 h with rfl | h
    · exact Or.inl ⟨r, rfl, Or.inl List.mem_cons_self⟩
    · refine (ih h).imp_left ?_
      rintro ⟨reg, rfl, hreg⟩
      exact ⟨reg, rfl, hreg.imp_left (List.mem_cons_of_mem _)⟩
  | case5 floats offset t rest _ ih =>
    rcases List.mem_cons.1 h with rfl | h
    · exact Or.inr ⟨0, by simp⟩
    · exact (ih h).imp_right hnext

/-- The stack area is no longer than all arguments together. -/
theorem stack_lt_of_mem_placeFrom {n : Int}
    (h : .stack area n ∈ (placeFrom area ints floats offset types).locations) :
    n < offset + 8 * types.length := by
  have hbytes : (stackArgBytes : Int) = 8 := rfl
  fun_induction placeFrom area ints floats offset types with
  | case1 => cases h
  | case2 ints offset t rest _ r floats ih | case4 floats offset t rest _ r ints ih =>
    rw [List.length_cons]
    rcases List.mem_cons.1 h with heq | h
    · cases heq
    · have := ih h
      omega
  | case3 ints offset t rest _ ih | case5 floats offset t rest _ ih =>
    rw [List.length_cons]
    rcases List.mem_cons.1 h with heq | h
    · obtain ⟨_, rfl⟩ := Location.stack.inj heq
      omega
    · have := ih h
      omega

/-- The stack arguments are in the slots of the area, from its beginning on. -/
theorem stack_of_mem_arguments {c : Convention} {area' : Area} {n : Int}
    (h : .stack area' n ∈ (arguments c types area).locations) :
    area' = area ∧ ∃ k : Nat, n = 8 * k := by
  rcases mem_locations_placeFrom h with ⟨_, heq, _⟩ | ⟨k, heq⟩
  · cases heq
  · obtain ⟨rfl, rfl⟩ := Location.stack.inj heq
    exact ⟨rfl, k, Int.zero_add _⟩

theorem mem_sequence_of_arguments {c : Convention}
    (h : reg ∈ (arguments c types area).registers) : reg ∈ c.intArgs ∨ reg ∈ c.floatArgs := by
  rcases mem_locations_placeFrom (mem_registers_iff.1 h) with ⟨r, heq, hr⟩ | ⟨_, heq⟩
  · exact Location.register.inj heq ▸ hr
  · cases heq

theorem mem_named_of_arguments {c : Convention}
    (h : reg ∈ (arguments c types area).registers) : reg ∈ c.named := by
  rcases mem_sequence_of_arguments h with hr | hr
  · exact Convention.mem_named_of_mem_registers (q := .intArgs) hr
  · exact Convention.mem_named_of_mem_registers (q := .floatArgs) hr

theorem returns_eq_ok_iff {c : Convention} :
    returns c types = .ok p ↔ returnsFrom? c.intReturns c.floatReturns types = some p := by
  rw [returns]
  cases returnsFrom? c.intReturns c.floatReturns types <;> simp

/-- Results are in registers of the sequences. -/
theorem mem_registers_returnsFrom? (h : returnsFrom? ints floats types = some p)
    (hreg : reg ∈ p.registers) : reg ∈ ints ∨ reg ∈ floats := by
  fun_induction returnsFrom? ints floats types generalizing p with
  | case1 =>
    obtain rfl := Option.some.inj h
    cases hreg
  | case2 ints t rest _ r floats ih =>
    obtain ⟨q, hq, rfl⟩ := Option.map_eq_some_iff.1 h
    rcases List.mem_cons.1 hreg with rfl | hreg
    · exact Or.inr List.mem_cons_self
    · exact (ih hq hreg).imp_right (List.mem_cons_of_mem _)
  | case3 => cases h
  | case4 floats t rest _ r ints ih =>
    obtain ⟨q, hq, rfl⟩ := Option.map_eq_some_iff.1 h
    rcases List.mem_cons.1 hreg with rfl | hreg
    · exact Or.inl List.mem_cons_self
    · exact (ih hq hreg).imp_left (List.mem_cons_of_mem _)
  | case5 => cases h

/-- No two results share a register. -/
theorem registers_nodup_returnsFrom? (h : returnsFrom? ints floats types = some p)
    (hints : ints.Nodup) (hfloats : floats.Nodup) (hapart : ∀ r ∈ ints, r ∉ floats) :
    p.registers.Nodup := by
  fun_induction returnsFrom? ints floats types generalizing p with
  | case1 =>
    obtain rfl := Option.some.inj h
    exact List.nodup_nil
  | case2 ints t rest _ r floats ih =>
    obtain ⟨q, hq, rfl⟩ := Option.map_eq_some_iff.1 h
    obtain ⟨hr, hfloats⟩ := List.nodup_cons.1 hfloats
    refine List.nodup_cons.2 ⟨?_, ih hq hints hfloats fun x hx hx' =>
      hapart x hx (List.mem_cons_of_mem _ hx')⟩
    intro hmem
    exact (mem_registers_returnsFrom? hq hmem).elim
      (fun hx => hapart r hx List.mem_cons_self) hr
  | case3 => cases h
  | case4 floats t rest _ r ints ih =>
    obtain ⟨q, hq, rfl⟩ := Option.map_eq_some_iff.1 h
    obtain ⟨hr, hints⟩ := List.nodup_cons.1 hints
    refine List.nodup_cons.2 ⟨?_, ih hq hints hfloats fun x hx =>
      hapart x (List.mem_cons_of_mem _ hx)⟩
    intro hmem
    exact (mem_registers_returnsFrom? hq hmem).elim hr (hapart r List.mem_cons_self)
  | case5 => cases h

/-- Results are placed one register each, in order, a floating-point number in a vector register and
anything else in a general one. -/
theorem registers_returnsFrom? (h : returnsFrom? ints floats types = some p)
    (hints : ∀ r ∈ ints, r.bank = .general) (hfloats : ∀ r ∈ floats, r.bank = .vector) :
    p.registers.map Register.isGeneral = types.map fun t => !t.isFloating := by
  fun_induction returnsFrom? ints floats types generalizing p with
  | case1 =>
    obtain rfl := Option.some.inj h
    rfl
  | case2 ints t rest ht r floats ih =>
    obtain ⟨q, hq, rfl⟩ := Option.map_eq_some_iff.1 h
    have hr : r.isGeneral = false := by
      simp [Register.isGeneral, hfloats r List.mem_cons_self]
    have hrest := ih hq hints fun x hx => hfloats x (List.mem_cons_of_mem _ hx)
    rw [List.map_cons, ← hrest, ht]
    exact congrArg (· :: _) hr
  | case3 => cases h
  | case4 floats t rest ht r ints ih =>
    obtain ⟨q, hq, rfl⟩ := Option.map_eq_some_iff.1 h
    have hr : r.isGeneral = true := by
      simp [Register.isGeneral, hints r List.mem_cons_self]
    have hrest := ih hq (fun x hx => hints x (List.mem_cons_of_mem _ hx)) hfloats
    rw [List.map_cons, ← hrest, Bool.eq_false_iff.2 ht]
    exact congrArg (· :: _) hr
  | case5 => cases h

end Placement

/-! ## Blueprints -/

namespace Move

variable {ls ls' : List Location}

/-- Moves from some locations to others read the ones... -/
theorem map_source_zipWith (h : ls.length ≤ ls'.length) :
    (List.zipWith Move.mk ls ls').map Move.source = ls := by
  rw [List.map_zipWith]
  exact (List.map_zip_eq_zipWith (f := Prod.fst)).symm.trans (List.map_fst_zip h)

/-- ...and write the others. -/
theorem map_target_zipWith (h : ls'.length ≤ ls.length) :
    (List.zipWith Move.mk ls ls').map Move.target = ls' := by
  rw [List.map_zipWith]
  exact (List.map_zip_eq_zipWith (f := Prod.snd)).symm.trans (List.map_snd_zip h)

end Move

/-- What the checks of a request say about its blueprint. -/
structure Blueprint.Sound (b : Blueprint) : Prop where
  native : b.request.native.faultOn? b.request.target.file = none
  runtime : b.request.runtime.faultOn? b.request.target.file = none
  nativeArgs : b.boundary.nativeArgs = b.request.nativeArgs
  runtimeArgs : b.boundary.runtimeArgs = b.request.runtimeArgs
  nativeReturns :
    Placement.returns b.request.native b.request.signature.returns = .ok b.boundary.nativeReturns
  boundary : b.request.boundary = .ok b.boundary
  hookArg : b.request.native.first .intArgs = .ok b.hookArg
  hookResult : b.request.native.first .intReturns = .ok b.hookResult
  exception : b.request.runtime.first .intReturns = .ok b.exception
  length : b.boundary.runtimeArgs.tail.length = b.boundary.nativeArgs.length
  mapping :
    b.shuffle.mapping =
      List.zipWith Move.mk b.boundary.nativeArgs.locations
        (Placement.locations b.boundary.runtimeArgs.tail)
  scratch : b.shuffle.scratch = b.request.target.roles.shuffle
  /-- The receiver's slot comes first among the runtime's, and is a general register. -/
  receiver :
    b.boundary.receiver.isGeneral = true ∧
      ∃ slot rest, b.boundary.runtimeArgs = slot :: rest ∧
        slot.location = .register b.boundary.receiver
  /-- What holds addresses, metadata and the thread at the call is no runtime argument. -/
  roles_runtime :
    ∀ reg ∈ b.boundary.runtimeArgs.registers, reg ∉ b.request.target.roles.registers
  /-- The thread is loaded before the native arguments have left their registers. -/
  roles_native :
    ∀ reg ∈ b.boundary.nativeArgs.registers,
      reg ≠ b.request.target.roles.thread ∧ reg ≠ b.request.target.roles.shuffle ∧
        reg ≠ b.request.target.roles.secondScratch
  direct :
    b.boundary.buffer = none ↔
      b.request.returnBuffer = .automatic ∧
        b.request.returnsDirectly b.boundary.nativeReturns = true
  buffered :
    ∀ bytes reg, b.boundary.buffer = some (bytes, reg) →
      b.request.signature.bufferBytes ≤ bytes ∧
        b.request.runtime.returnBuffer = some reg ∧
        reg ∉ b.boundary.runtimeArgs.registers ∧ reg ∉ b.request.target.roles.registers ∧
        b.request.target.roles.scratch ∉ b.boundary.nativeReturns.registers

namespace Request

variable {r : Request} {bd : Boundary} {b : Blueprint}

theorem rolesFault?_eq_none_iff :
    r.rolesFault? = none ↔
      (∀ reg ∈ r.runtimeArgs.registers, reg ∉ r.target.roles.registers) ∧
        ∀ reg ∈ r.nativeArgs.registers,
          reg ≠ r.target.roles.thread ∧ reg ≠ r.target.roles.shuffle ∧
            reg ≠ r.target.roles.secondScratch := by
  simp only [rolesFault?, orElse_eq_none_iff, List.findSome?_eq_none_iff, List.forall_mem_cons,
    ite_eq_right_iff, reduceCtorEq, imp_false, List.contains_eq_mem, decide_eq_true_eq,
    List.mem_append, not_or]
  constructor
  · rintro ⟨⟨hscratch, hmethod, hthread, _⟩, hthread', ⟨hshuffle, hshuffle'⟩,
      ⟨hsecond, hsecond'⟩, _⟩
    constructor
    · intro reg hreg hmem
      rcases Roles.mem_registers.1 hmem with rfl | rfl | rfl | rfl | rfl
      · exact hthread hreg
      · exact hmethod hreg
      · exact hscratch hreg
      · exact hsecond' hreg
      · exact hshuffle' hreg
    · intro reg hreg
      refine ⟨?_, ?_, ?_⟩
      · rintro rfl
        exact hthread' hreg
      · rintro rfl
        exact hshuffle hreg
      · rintro rfl
        exact hsecond hreg
  · rintro ⟨hruntime, hnative⟩
    obtain ⟨hthread, hmethod, hscratch, hsecond, hshuffle⟩ := Roles.forall_mem_registers.1
      fun reg hrole hreg => hruntime reg hreg hrole
    exact ⟨⟨hscratch, hmethod, hthread, by simp⟩, fun hreg => (hnative _ hreg).1 rfl,
      ⟨fun hreg => (hnative _ hreg).2.1 rfl, hshuffle⟩,
      ⟨fun hreg => (hnative _ hreg).2.2 rfl, hsecond⟩, by simp⟩

theorem receiverRegister_eq_ok {reg : Register} (h : r.receiverRegister = .ok reg) :
    reg.isGeneral = true ∧
      ∃ slot rest, r.runtimeArgs = slot :: rest ∧ slot.location = .register reg := by
  rw [receiverRegister] at h
  split at h
  · cases h
  · rename_i slot rest hargs
    split at h
    · rename_i index hloc
      obtain rfl := Except.ok.inj h
      exact ⟨rfl, slot, rest, hargs, hloc⟩
    · cases h

theorem bufferRegister_eq_ok_iff {p : Placement} {reg : Register} :
    r.bufferRegister p = .ok reg ↔
      r.runtime.returnBuffer = some reg ∧ reg ∉ r.runtimeArgs.registers ∧
        reg ∉ r.target.roles.registers ∧ r.target.roles.scratch ∉ p.registers := by
  simp only [bufferRegister, List.contains_eq_mem, decide_eq_true_eq, Bool.or_eq_true]
  split
  · rename_i hscratch
    exact iff_of_false (fun h => nomatch h) fun h => h.2.2.2 hscratch
  rename_i hscratch
  split
  · rename_i hnone
    refine iff_of_false (fun h => nomatch h) ?_
    rintro ⟨hsome, _⟩
    cases hnone.symm.trans hsome
  rename_i found hfound
  rw [hfound, Option.some.injEq]
  split
  · rename_i htaken
    refine iff_of_false (fun h => nomatch h) ?_
    rintro ⟨rfl, hargs, hroles, _⟩
    exact htaken.elim hargs hroles
  · rename_i hfree
    rw [Except.ok.injEq]
    constructor
    · rintro rfl
      exact ⟨rfl, fun h => hfree (Or.inl h), fun h => hfree (Or.inr h), hscratch⟩
    · exact And.left

theorem resolve_eq_ok {p : ReturnBuffer} {s : Signature} {direct : Bool} {bytes : Option Nat}
    (h : p.resolve s direct = .ok bytes) :
    (bytes = none ↔ p = .automatic ∧ direct = true) ∧
      ∀ n, bytes = some n → s.bufferBytes ≤ n := by
  cases p with
  | automatic =>
    obtain rfl := Except.ok.inj h
    cases direct <;> simp
  | explicit n =>
    simp only [ReturnBuffer.resolve] at h
    split at h
    · cases h
    · obtain rfl := Except.ok.inj h
      refine ⟨iff_of_false (fun h => (nomatch h)) fun h => (nomatch h.1), ?_⟩
      intro k hk
      obtain rfl := Option.some.inj hk
      omega

/-- The last steps towards a boundary, when it is settled whether there is a return buffer. -/
theorem boundary_tail {nativeReturns : Placement} {bytes : Option Nat}
    (h : (do
      let buffer ←
        match bytes with
        | none => pure none
        | some bytes => do pure (some (bytes, ← r.bufferRegister nativeReturns))
      let receiver ← r.receiverRegister
      return ({
        nativeArgs := r.nativeArgs
        runtimeArgs := r.runtimeArgs
        nativeReturns
        buffer
        receiver } : Boundary)) = .ok bd) :
    ∃ buffer receiver, r.receiverRegister = .ok receiver ∧
      ((buffer = none ↔ bytes = none) ∧ ∀ n reg, buffer = some (n, reg) →
        bytes = some n ∧ r.bufferRegister nativeReturns = .ok reg) ∧
      bd = ⟨r.nativeArgs, r.runtimeArgs, nativeReturns, buffer, receiver⟩ := by
  cases bytes with
  | none =>
    obtain ⟨buffer, hbuffer, h⟩ := exists_of_bind_eq_ok h
    obtain rfl := Except.ok.inj hbuffer
    obtain ⟨receiver, hreceiver, h⟩ := exists_of_bind_eq_ok h
    obtain rfl := Except.ok.inj h
    exact ⟨none, receiver, hreceiver, ⟨iff_of_true rfl rfl, fun _ _ h => (nomatch h)⟩, rfl⟩
  | some n =>
    obtain ⟨reg, hreg, h⟩ := exists_of_bind_eq_ok h
    obtain ⟨buffer, hbuffer, h⟩ := exists_of_bind_eq_ok h
    obtain rfl := Except.ok.inj hbuffer
    obtain ⟨receiver, hreceiver, h⟩ := exists_of_bind_eq_ok h
    obtain rfl := Except.ok.inj h
    refine ⟨some (n, reg), receiver, hreceiver,
      ⟨iff_of_false (fun h => (nomatch h)) fun h => (nomatch h), ?_⟩, rfl⟩
    intro k reg' hk
    obtain ⟨rfl, rfl⟩ := Prod.mk.inj (Option.some.inj hk)
    exact ⟨rfl, hreg⟩

/-- What the steps towards a boundary have come to. -/
theorem boundary_eq_ok (h : r.boundary = .ok bd) :
    r.partsFault? = none ∧ r.rolesFault? = none ∧
      Placement.returns r.native r.signature.returns = .ok bd.nativeReturns ∧
      bd.nativeArgs = r.nativeArgs ∧ bd.runtimeArgs = r.runtimeArgs ∧
      r.receiverRegister = .ok bd.receiver ∧
      (bd.buffer = none ↔
        r.returnBuffer = .automatic ∧ r.returnsDirectly bd.nativeReturns = true) ∧
      ∀ bytes reg, bd.buffer = some (bytes, reg) →
        r.signature.bufferBytes ≤ bytes ∧ r.bufferRegister bd.nativeReturns = .ok reg := by
  rw [boundary] at h
  obtain ⟨_, hparts, h⟩ := exists_of_bind_eq_ok h
  obtain ⟨nativeReturns, hreturns, h⟩ := exists_of_bind_eq_ok h
  obtain ⟨bytes, hbytes, h⟩ := exists_of_bind_eq_ok h
  obtain ⟨_, hroles, h⟩ := exists_of_bind_eq_ok h
  obtain ⟨buffer, receiver, hreceiver, hbuffered, rfl⟩ := boundary_tail h
  obtain ⟨hdirect, henough⟩ := resolve_eq_ok hbytes
  refine ⟨reject_eq_ok_iff.1 hparts, reject_eq_ok_iff.1 hroles, hreturns, rfl, rfl, hreceiver,
    hbuffered.1.trans hdirect, ?_⟩
  intro n reg heq
  obtain ⟨hn, hreg⟩ := hbuffered.2 n reg heq
  exact ⟨henough n hn, hreg⟩

/-- A blueprint that was worked out has passed all checks. -/
theorem blueprint_sound (h : r.blueprint = .ok b) : b.request = r ∧ b.Sound := by
  rw [blueprint] at h
  obtain ⟨bd, hboundary, h⟩ := exists_of_bind_eq_ok h
  obtain ⟨hookArg, harg, h⟩ := exists_of_bind_eq_ok h
  obtain ⟨hookResult, hresult, h⟩ := exists_of_bind_eq_ok h
  obtain ⟨exception, hexception, h⟩ := exists_of_bind_eq_ok h
  obtain ⟨shuffle, hshuffle, h⟩ := exists_of_bind_eq_ok h
  obtain rfl := Except.ok.inj h
  obtain ⟨hparts, hroles, hreturns, hnativeArgs, hruntimeArgs, hreceiver, hdirect, hbuffered⟩ :=
    boundary_eq_ok hboundary
  rw [partsFault?, orElse_eq_none_iff, orElse_eq_none_iff] at hparts
  obtain ⟨hruntime, hnative⟩ := rolesFault?_eq_none_iff.1 hroles
  obtain ⟨hlength, hmapping, hscratch⟩ := Shuffle.between_eq_ok_iff.1 hshuffle
  refine ⟨rfl, {
    native := hparts.1
    runtime := hparts.2.1
    nativeArgs := hnativeArgs
    runtimeArgs := hruntimeArgs
    nativeReturns := hreturns
    boundary := hboundary
    hookArg := harg
    hookResult := hresult
    exception := hexception
    length := hlength
    mapping := hmapping
    scratch := hscratch
    receiver := hruntimeArgs ▸ receiverRegister_eq_ok hreceiver
    roles_runtime := hruntimeArgs ▸ hruntime
    roles_native := hnativeArgs ▸ hnative
    direct := hdirect
    buffered := fun n reg h => ?_ }⟩
  obtain ⟨hn, hreg⟩ := hbuffered n reg h
  exact ⟨hn, hruntimeArgs ▸ bufferRegister_eq_ok_iff.1 hreg⟩

end Request

namespace Blueprint.Sound

variable {b : Blueprint} {reg : Register}

theorem native_named (h : b.Sound) (hreg : reg ∈ b.request.native.named) :
    b.request.target.file.contains reg = true ∧ b.request.target.file.holdsFrame reg = false :=
  Convention.faultOn?_eq_none_iff.1 h.native reg hreg

theorem runtime_named (h : b.Sound) (hreg : reg ∈ b.request.runtime.named) :
    b.request.target.file.contains reg = true ∧ b.request.target.file.holdsFrame reg = false :=
  Convention.faultOn?_eq_none_iff.1 h.runtime reg hreg

theorem mem_nativeArgs (h : b.Sound) (hreg : reg ∈ b.boundary.nativeArgs.registers) :
    b.request.target.file.contains reg = true ∧ b.request.target.file.holdsFrame reg = false := by
  rw [h.nativeArgs] at hreg
  exact h.native_named (Placement.mem_named_of_arguments hreg)

theorem mem_runtimeArgs (h : b.Sound) (hreg : reg ∈ b.boundary.runtimeArgs.registers) :
    b.request.target.file.contains reg = true ∧ b.request.target.file.holdsFrame reg = false := by
  rw [h.runtimeArgs] at hreg
  exact h.runtime_named (Placement.mem_named_of_arguments hreg)

theorem mem_buffer (h : b.Sound) {bytes : Nat} (hbuffer : b.boundary.buffer = some (bytes, reg)) :
    b.request.target.file.contains reg = true ∧ b.request.target.file.holdsFrame reg = false := by
  refine h.runtime_named ?_
  rw [Convention.named, (h.buffered bytes reg hbuffer).2.1]
  simp

/-- Nothing but the receiver goes to the receiver's register. -/
theorem receiver_not_mem_tail (h : b.Sound) :
    b.boundary.receiver ∉ Placement.registers b.boundary.runtimeArgs.tail := by
  obtain ⟨hgeneral, slot, rest, hargs, hloc⟩ := h.receiver
  have hplaced := h.runtimeArgs
  rw [Request.runtimeArgs, Placement.arguments] at hplaced
  obtain ⟨hints, hnodup⟩ := b.request.runtime.mem_sequence .intArgs
  have hfloats := (b.request.runtime.mem_sequence .floatArgs).1
  simp only [Convention.Settings.registers] at hints hnodup hfloats
  rw [hargs, List.tail_cons]
  cases hregs : b.request.runtime.intArgs with
  | nil =>
    rw [hregs, hargs] at hplaced
    obtain ⟨rfl, _⟩ := List.cons.inj hplaced
    cases hloc
  | cons first others =>
    rw [hregs] at hplaced hnodup
    rw [hargs] at hplaced
    obtain ⟨rfl, rfl⟩ := List.cons.inj hplaced
    obtain rfl := Location.register.inj hloc
    intro hmem
    rw [Placement.mem_registers_iff] at hmem
    rcases Placement.mem_locations_placeFrom hmem with ⟨r, heq, hr | hr⟩ | ⟨_, heq⟩
    · exact (List.nodup_cons.1 hnodup).1 (Location.register.inj heq ▸ hr)
    · have hvector : b.boundary.receiver.bank = .vector :=
        hfloats _ (Location.register.inj heq ▸ hr)
      simp [Register.isGeneral, hvector] at hgeneral
    · cases heq

theorem returnsFrom? (h : b.Sound) :
    Placement.returnsFrom? b.request.native.intReturns b.request.native.floatReturns
      b.request.signature.returns = some b.boundary.nativeReturns :=
  Placement.returns_eq_ok_iff.1 h.nativeReturns

theorem mem_nativeReturns (h : b.Sound) (hreg : reg ∈ b.boundary.nativeReturns.registers) :
    b.request.target.file.contains reg = true ∧ b.request.target.file.holdsFrame reg = false := by
  refine h.native_named ?_
  rcases Placement.mem_registers_returnsFrom? h.returnsFrom? hreg with hr | hr
  · exact Convention.mem_named_of_mem_registers (q := .intReturns) hr
  · exact Convention.mem_named_of_mem_registers (q := .floatReturns) hr

/-- The moves of the shuffle read the native arguments, in their order. -/
theorem sources_mapping (h : b.Sound) :
    b.shuffle.mapping.map Move.source = b.boundary.nativeArgs.locations := by
  have hlen := h.length
  rw [h.mapping]
  refine Move.map_source_zipWith ?_
  simp only [Placement.locations, List.length_map]
  omega

/-- They write the runtime's arguments, the receiver apart. -/
theorem targets_mapping (h : b.Sound) :
    b.shuffle.mapping.map Move.target = Placement.locations b.boundary.runtimeArgs.tail := by
  have hlen := h.length
  rw [h.mapping]
  refine Move.map_target_zipWith ?_
  simp only [Placement.locations, List.length_map]
  omega

theorem mem_mapping (h : b.Sound) {i : Nat} {source target : Slot}
    (hs : b.boundary.nativeArgs[i]? = some source)
    (ht : b.boundary.runtimeArgs[i + 1]? = some target) :
    ⟨source.location, target.location⟩ ∈ b.shuffle.mapping := by
  refine List.mem_of_getElem? (i := i) ?_
  rw [h.mapping, List.getElem?_zipWith, Placement.locations, Placement.locations,
    List.getElem?_map, List.getElem?_map, hs, List.getElem?_tail, ht]
  rfl

theorem nativeReturns_nodup (h : b.Sound) : b.boundary.nativeReturns.registers.Nodup :=
  Placement.registers_nodup_returnsFrom? h.returnsFrom?
    (b.request.native.mem_sequence .intReturns).2 (b.request.native.mem_sequence .floatReturns).2
    fun _ => Convention.not_mem_registers (p := .intReturns) (q := .floatReturns) (by decide)

end Blueprint.Sound

end Trampoline
