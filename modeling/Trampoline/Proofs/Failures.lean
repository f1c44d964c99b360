import Trampoline.Proofs.Planning
import Trampoline.Proofs.Stub.Completeness
import Trampoline.Proofs.Stub.Contract

/-!
# What can go wrong when a stub is generated

Planning a shuffle and generating a stub begin with the same checks, so what keeps the one from
happening keeps the other from happening, with the same error.  Beyond that three things can keep a
stub from being generated, and nothing else can: a sequence of registers that is empty, a frame that
is too large for an immediate, and code that is too long for its reader.

`Request.generate_follows_shuffle` says so case by case.  The one thing that it leaves to its reader
is that the offsets of incoming stack arguments do not overflow (`Request.InRange`).
-/

set_option autoImplicit false

namespace Trampoline.Request

open Error.Kind

variable {r : Request} {b : Blueprint} {e : Error} {capacity : Nat}

/-- The distance of an incoming stack argument from the frame pointer does not overflow.  It is
worked out in a frame that is not too large, from the distance of the first such argument. -/
def InRange (r : Request) : Prop :=
  ∀ b, r.blueprint = .ok b → b.layout.size < 2 ^ 31 → b.IncomingInReach

/-- It never does, unless there are hundreds of millions of arguments. -/
theorem inRange_of_length
    (h : enterBytes + r.native.shadowSpace + 8 * r.signature.args.length ≤ 2 ^ 31) :
    r.InRange := by
  intro b hb _ _ offset hoffset
  obtain ⟨rfl, hsound⟩ := blueprint_sound hb
  rw [hsound.nativeArgs] at hoffset
  have hlt := Placement.stack_lt_of_mem_placeFrom hoffset
  omega

theorem generate_of_blueprint (h : r.blueprint = .ok b) :
    r.generate capacity = b.build capacity := by
  rw [generate, h]

theorem generate_of_blueprint_error (h : r.blueprint = .error e) :
    r.generate capacity = .error e := by
  rw [generate, h]

/-! ## One case after the other -/

/-- What keeps the shuffle from being planned keeps the stub from being generated... -/
theorem generate_of_shuffle_error (h : r.shuffle = .error e) : r.generate capacity = .error e := by
  refine generate_of_blueprint_error ?_
  rw [blueprint, shuffle_eq_error_iff.1 h]
  rfl

/-- ...so does a sequence without a first register... -/
theorem generate_of_lacking {s : Shuffle} {c : Convention} {q : Sequence} (h : r.shuffle = .ok s)
    (hlacking : r.lacking? = some (c, q)) :
    r.generate capacity = .error (.noRegister c.name q) := by
  obtain ⟨bd, hbd, _⟩ := exists_of_bind_eq_ok h
  exact generate_of_blueprint_error (blueprint_of_lacking hbd hlacking)

/-- ...so does a frame that is too large... -/
theorem generate_of_le (h : r.blueprint = .ok b) (hsize : 2 ^ 31 ≤ b.layout.size) :
    r.generate capacity = .error (.offsetTooLarge b.layout.size) := by
  rw [generate_of_blueprint h, Blueprint.build, Blueprint.offsets_of_le hsize]
  rfl

/-- ...and in a frame that is not, it is only a matter of how much code is accepted. -/
theorem generate_of_lt (hrange : r.InRange) (h : r.blueprint = .ok b)
    (hsize : b.layout.size < 2 ^ 31) :
    ∃ stub : Stub, stub.shuffle = b.shuffle ∧ stub.layout = b.layout ∧ ∀ capacity,
      r.generate capacity =
        if stub.code.size ≤ capacity then .ok stub
        else .error (.codeTooLong stub.code.size capacity) := by
  obtain ⟨o, ho⟩ := Blueprint.exists_offsets hsize
  have hsound := (blueprint_sound h).2
  simp only [generate_of_blueprint h]
  exact Blueprint.build_of_complete ho fun p => hsound.complete hsize (hrange b h hsize) p

/-- What can go wrong although there is a shuffle. -/
theorem error_of_shuffle {s : Shuffle} (hrange : r.InRange) (h : r.shuffle = .ok s)
    (he : r.generate capacity = .error e) :
    (∃ c q, r.lacking? = some (c, q) ∧ e = .noRegister c.name q) ∨
      (∃ b, r.blueprint = .ok b ∧ 2 ^ 31 ≤ b.layout.size ∧ e = .offsetTooLarge b.layout.size) ∨
      ∃ size, e = .codeTooLong size capacity := by
  cases hlacking : r.lacking? with
  | some lacking =>
    obtain ⟨c, q⟩ := lacking
    rw [generate_of_lacking h hlacking] at he
    exact Or.inl ⟨c, q, rfl, (Except.error.inj he).symm⟩
  | none =>
    obtain ⟨b, hb, _⟩ := blueprint_of_shuffle h hlacking
    rcases Nat.lt_or_ge b.layout.size (2 ^ 31) with hsize | hsize
    · obtain ⟨stub, _, _, hgenerate⟩ := generate_of_lt hrange hb hsize
      rw [hgenerate capacity] at he
      split at he
      · cases he
      · exact Or.inr (Or.inr ⟨_, (Except.error.inj he).symm⟩)
    · rw [generate_of_le hb hsize] at he
      exact Or.inr (Or.inl ⟨b, hb, hsize, (Except.error.inj he).symm⟩)

/-! ## All cases -/

/-- **Generation fails as planning does, or for want of a register, of an immediate, or of room**,
and in no other way. -/
theorem generate_follows_shuffle (r : Request) (hrange : r.InRange) :
    (∀ e, r.shuffle = .error e → ∀ capacity, r.generate capacity = .error e) ∧
    (∀ s, r.shuffle = .ok s →
      (r.native.intArgs = [] ∨ r.native.intReturns = [] ∨ r.runtime.intReturns = [] →
        ∃ c q, r.lacking? = some (c, q) ∧
          ∀ capacity, r.generate capacity = .error (.noRegister c.name q)) ∧
      (r.native.intArgs ≠ [] ∧ r.native.intReturns ≠ [] ∧ r.runtime.intReturns ≠ [] →
        ∃ b, r.blueprint = .ok b ∧
          (2 ^ 31 ≤ b.layout.size →
            ∀ capacity, r.generate capacity = .error (.offsetTooLarge b.layout.size)) ∧
          (b.layout.size < 2 ^ 31 →
            ∃ stub : Stub, stub.shuffle = s ∧ stub.layout = b.layout ∧ ∀ capacity,
              r.generate capacity =
                if stub.code.size ≤ capacity then .ok stub
                else .error (.codeTooLong stub.code.size capacity)))) ∧
    ∀ e, (r.shuffle = .error e ∨ ∃ capacity, r.generate capacity = .error e) →
      e.kind ≠ .shuffle ∧ e.kind ≠ .argumentCount ∧ e.kind ≠ .returnType ∧
        (e.kind = .internal →
          ∃ b, r.blueprint = .ok b ∧ 2 ^ 31 ≤ b.layout.size ∧
            e = .offsetTooLarge b.layout.size) := by
  refine ⟨fun e h capacity => generate_of_shuffle_error h, fun s h => ⟨fun hempty => ?_, ?_⟩, ?_⟩
  · -- a sequence without a register
    have hsome : r.lacking? ≠ none := by
      rw [Ne, lacking?_eq_none_iff]
      tauto
    obtain ⟨⟨c, q⟩, hlacking⟩ := Option.ne_none_iff_exists'.1 hsome
    exact ⟨c, q, hlacking, fun capacity => generate_of_lacking h hlacking⟩
  · -- enough registers: it is a matter of sizes
    intro hnone
    obtain ⟨b, hb, rfl⟩ := blueprint_of_shuffle h (lacking?_eq_none_iff.2 hnone)
    exact ⟨b, hb, fun hsize capacity => generate_of_le hb hsize, generate_of_lt hrange hb⟩
  · intro e he
    cases hs : r.shuffle with
    | error e' =>
      obtain rfl : e = e' := by
        rcases he with he | ⟨capacity, he⟩
        · exact Except.error.inj (he.symm.trans hs)
        · exact Except.error.inj (he.symm.trans (generate_of_shuffle_error hs))
      have hkind := boundary_bound r e (shuffle_eq_error_iff.1 hs)
      simp only [planningKinds, List.mem_cons, List.not_mem_nil, or_false] at hkind
      rcases hkind with hkind | hkind | hkind | hkind <;> simp [hkind]
    | ok s =>
      rcases he with he | ⟨capacity, he⟩
      · cases he.symm.trans hs
      · rcases error_of_shuffle hrange hs he with ⟨c, q, _, rfl⟩ | ⟨b, hb, hsize, rfl⟩ |
          ⟨size, rfl⟩
        · simp [Error.kind]
        · simpa [Error.kind] using ⟨b, hb, hsize, rfl⟩
        · simp [Error.kind]

/-- The capacity decides for a request with arguments in registers and on the stack. -/
theorem generate_follows_shuffle_mixed :
    (Standin.request Standin.mixed 0).InRange ∧
      ∃ s stub, (Standin.request Standin.mixed 0).shuffle = .ok s ∧ stub.shuffle = s ∧
        ∀ capacity, (Standin.request Standin.mixed 0).generate capacity =
          if stub.code.size ≤ capacity then .ok stub
          else .error (.codeTooLong stub.code.size capacity) := by
  have hrange : (Standin.request Standin.mixed 0).InRange := inRange_of_length (by decide)
  obtain ⟨herror, hcases, _⟩ := generate_follows_shuffle _ hrange
  obtain ⟨stub, hstub, _⟩ := Standin.exists_generate_mixed
  cases hs : (Standin.request Standin.mixed 0).shuffle with
  | error e =>
    rw [herror e hs] at hstub
    cases hstub
  | ok s =>
    obtain ⟨b, _, hlarge, hsmall⟩ := (hcases s hs).2 ⟨by decide, by decide, by decide⟩
    rcases Nat.lt_or_ge b.layout.size (2 ^ 31) with hsize | hsize
    · obtain ⟨stub', hshuffle, _, hgenerate⟩ := hsmall hsize
      exact ⟨hrange, s, stub', rfl, hshuffle, hgenerate⟩
    · rw [hlarge hsize] at hstub
      cases hstub

end Trampoline.Request
