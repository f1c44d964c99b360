import Trampoline.Proofs.Shuffle.Lowering

/-!
# The code for a shuffle refines its symbolic run

The symbolic run `runAll` of a shuffle's moves says whose initial content each location holds in the
end.  The code for the moves works on registers and memory, and this file ties the two together in a
state of the machine in which the shuffle can be carried out (`Shuffle.Runnable`): the registers
that the code uses beside its sources and targets are free, and no two of the stack arguments have
a byte in common.

The symbolic run knows nothing of banks.  A value that passes through a general register, or over
the stack, keeps its lower half only, and which values do so depends on the order of the moves.  So
the statement has two parts: the lower half of every location is as predicted, and a vector register
receives the upper half too if its value came directly from another one.

## What is here

* `carryAll_comp` — values may be looked at through any function that does not change on their way.
  The lower half is such a function, which makes it what the symbolic run predicts
  (`setWidth_carryAll`).
* `Shuffle.Runnable` and `Shuffle.CarriedOut` — before and after.
* `Shuffle.carriedOut_draft` — the refinement, for the code of any shuffle that can be lowered.
-/

set_option autoImplicit false

namespace Trampoline

/-! ## The lower half of a value -/

/-- Values on their way can be looked at through a function that their way does not affect. -/
theorem carryAll_comp {α β : Type} {way : Location → Location → α → α} {f : α → β}
    (h : ∀ source target x, f (way source target x) = f x)
    (moves : List Move) (v : Location → α) (l : Location) :
    f (carryAll way moves v l) = carryAll (fun _ _ y => y) moves (fun k => f (v k)) l := by
  induction moves generalizing v with
  | nil => rfl
  | cons m rest ih =>
    have hstep : (fun k => f (m.carry way v k)) = m.carry (fun _ _ y => y) fun k => f (v k) := by
      funext k
      simp only [Move.carry]
      split
      · exact h _ _ _
      · rfl
    rw [carryAll_cons, carryAll_cons, ih, hstep]

/-- What a value keeps on its way goes where the symbolic run says. -/
theorem comp_carryAll_eq_runAll {α β : Type} {way : Location → Location → α → α} {f : α → β}
    (h : ∀ source target x, f (way source target x) = f x)
    (moves : List Move) (v : Location → α) (l : Location) :
    f (carryAll way moves v l) = f (v (runAll moves l)) := by
  have horigin : f (v (carryAll (fun _ _ origin => origin) moves id l)) =
      carryAll (fun _ _ y => y) moves (fun k => f (v k)) l :=
    carryAll_comp (f := fun k => f (v k)) (fun _ _ _ => rfl) moves id l
  rw [carryAll_comp h, runAll_eq_carryAll, horigin]

/-- The lower halves are where the symbolic run says. -/
theorem setWidth_carryAll (moves : List Move) (v : Location → Quad) (l : Location) :
    (carryAll Location.way moves v l).setWidth 64 = (v (runAll moves l)).setWidth 64 :=
  comp_carryAll_eq_runAll (f := BitVec.setWidth 64) (fun _ _ _ => Location.setWidth_way) moves v l

/-- The upper half of a word in a vector register is zero. -/
theorem ushiftRight_setWidth_word (v : Word) : (v.setWidth 128) >>> 64 = 0 := by
  refine BitVec.eq_of_toNat_eq ?_
  have hv := v.isLt
  simp only [BitVec.toNat_ushiftRight, BitVec.toNat_setWidth, Nat.shiftRight_eq_div_pow]
  rw [Nat.mod_eq_of_lt (by omega), Nat.div_eq_of_lt hv]
  rfl

/-! ## Before and after -/

/-- The bytes of a location. -/
def MoveContext.cell (ctx : MoveContext) (c : Cpu) : Location → Extent
  | .register _ => ⟨0, 0⟩
  | .stack area offset => .word (ctx.place c area offset)

theorem MoveContext.cell_stack {ctx : MoveContext} {c : Cpu} {area : Area} {offset : Int} :
    ctx.cell c (.stack area offset) = .word (ctx.place c area offset) := rfl

theorem MoveContext.not_writtenBy {ctx : MoveContext} {c : Cpu} {m : Move} {a : Word}
    (h : a ∉ ctx.cell c m.target) : ¬ ctx.WrittenBy c m a := by
  rintro ⟨area, offset, htarget, hmem⟩
  rw [htarget, cell_stack] at h
  exact h hmem

namespace Shuffle

variable (s : Shuffle) (ctx : MoveContext)

/-- The sources and targets. -/
def locations : List Location := s.mapping.map Move.source ++ s.mapping.map Move.target

/-- The scratch register and the registers among the sources and targets. -/
def registers : List Register := s.scratch :: s.locations.filterMap Location.register?

/-- What the code for a shuffle relies on: registers to work with and to address the stack by, and
no overlap between the arguments on the stack. -/
structure Runnable (c : Cpu) : Prop where
  scratch : s.scratch.isGeneral = true
  temporary : ctx.temporary.isGeneral = true ∧ ctx.temporary ∉ s.registers
  framePointer : ctx.framePointer.isGeneral = true ∧ ctx.framePointer ∉ ctx.temporary :: s.registers
  stackPointer : ctx.stackPointer.isGeneral = true ∧ ctx.stackPointer ∉ ctx.temporary :: s.registers
  indices : ∀ r ∈ ctx.temporary :: s.registers, r.index.toNat < bankSize
  apart : ∀ l ∈ s.locations, ∀ l' ∈ s.locations, l ≠ l' → (ctx.cell c l).Apart (ctx.cell c l')

instance (c : Cpu) : Decidable (s.Runnable ctx c) :=
  decidable_of_iff
    (s.scratch.isGeneral = true ∧
      (ctx.temporary.isGeneral = true ∧ ctx.temporary ∉ s.registers) ∧
      (ctx.framePointer.isGeneral = true ∧ ctx.framePointer ∉ ctx.temporary :: s.registers) ∧
      (ctx.stackPointer.isGeneral = true ∧ ctx.stackPointer ∉ ctx.temporary :: s.registers) ∧
      (∀ r ∈ ctx.temporary :: s.registers, r.index.toNat < bankSize) ∧
      ∀ l ∈ s.locations, ∀ l' ∈ s.locations, l ≠ l' → (ctx.cell c l).Apart (ctx.cell c l'))
    ⟨fun ⟨hs, ht, hf, hp, hi, ha⟩ => ⟨hs, ht, hf, hp, hi, ha⟩,
      fun ⟨hs, ht, hf, hp, hi, ha⟩ => ⟨hs, ht, hf, hp, hi, ha⟩⟩

/-- What the code for a shuffle makes of a state of the machine. -/
structure CarriedOut (c c' : Cpu) : Prop where
  /-- Every location holds the lower half of what the symbolic run predicts, unless it shares bytes
  with a target that is another location. -/
  low : ∀ l, l ≠ .register ctx.temporary →
    (∀ m ∈ s.mapping, m.target ≠ l → (ctx.cell c l).Apart (ctx.cell c m.target)) →
    (ctx.content c' l).setWidth 64 = (ctx.content c (runAll s.moves l)).setWidth 64
  /-- From vector register to vector register all of a value arrives that has not been parked. -/
  whole : ∀ i j, ⟨.register (.vector i), .register (.vector j)⟩ ∈ s.mapping →
    ⟨.register (.vector i), .register s.scratch⟩ ∉ s.moves → c'.vector j = c.vector i
  /-- In any other case the upper half of a vector register is cleared. -/
  cleared : ∀ source j, ⟨source, .register (.vector j)⟩ ∈ s.mapping →
    (∀ i, source = .register (.vector i) → ⟨source, .register s.scratch⟩ ∈ s.moves) →
    c'.vector j >>> 64 = 0
  /-- Registers that are not to be written keep their values. -/
  registers : ∀ r, r ≠ s.scratch → r ≠ ctx.temporary → .register r ∉ s.mapping.map Move.target →
    c'.register r = c.register r
  /-- Memory keeps every byte that is not to be written. -/
  memory : ∀ a, (∀ m ∈ s.mapping, a ∉ ctx.cell c m.target) → c'.memory.byte a = c.memory.byte a

variable {s ctx} {c c' : Cpu} {m : Move} {l : Location} {is : List Instruction} {w : Wiring}

theorem mem_registers {r : Register} :
    r ∈ s.registers ↔ .register r = Location.register s.scratch ∨ .register r ∈ s.locations := by
  rw [registers, List.mem_cons, Location.mem_filterMap_register?, Location.register.injEq]

theorem mem_locations_of_target (h : l ∈ s.mapping.map Move.target) : l ∈ s.locations :=
  List.mem_append_right _ h

/-- A move of a shuffle is between its locations, and does not write incoming arguments. -/
theorem mem_locations_of_mem_moves (hm : m ∈ s.moves) :
    (m.source = .register s.scratch ∨ m.source ∈ s.locations) ∧
      (m.target = .register s.scratch ∨ m.target ∈ s.locations) ∧
      ∀ offset, m.target ≠ .incoming offset := by
  refine ⟨(source_of_mem_moves hm).imp_right (List.mem_append_left _),
    (target_of_mem_moves hm).imp_right mem_locations_of_target, fun offset => ?_⟩
  rcases target_of_mem_moves hm with heq | hmem
  · simp [heq]
  · obtain ⟨m', hm', heq⟩ := List.mem_map.1 hmem
    exact heq ▸ target_ne_incoming hm' offset

/-- What stays where it is is never parked: sources are distinct, so it is no source of a move. -/
theorem not_parked_of_stays (hm : m ∈ s.mapping) (hstay : m.source = m.target) :
    ⟨m.source, .register s.scratch⟩ ∉ s.moves := by
  intro hparked
  obtain ⟨hmem, _⟩ := source_of_mem_schedule parallel_pending hparked rfl
  obtain ⟨other, hother, heq⟩ := List.mem_map.1 hmem
  obtain ⟨hmapping, hmoves⟩ := List.mem_filter.1 hother
  have hsame : other = m := List.inj_on_of_nodup_map s.sources_nodup hmapping hm heq
  exact absurd (hsame ▸ hstay) (by simpa using hmoves)

/-- A vector register receives a word from anywhere but another one, and from there too if the value
has been parked. -/
theorem arrival_of_not_whole {source : Location} {j : RegIndex} {v : Quad}
    (hscratch : s.scratch.isGeneral = true) (hm : ⟨source, .register (.vector j)⟩ ∈ s.mapping)
    (h : ∀ i, source = .register (.vector i) → ⟨source, .register s.scratch⟩ ∈ s.moves) :
    s.arrival ⟨source, .register (.vector j)⟩ v = (v.setWidth 64).setWidth 128 := by
  rw [arrival]
  split_ifs with hstay hparked
  · exact absurd (h j hstay) (not_parked_of_stays hm hstay)
  · rw [Location.way_register, if_pos (Or.inr hscratch), Location.setWidth_way]
  · cases source with
    | stack area offset => rfl
    | register r =>
      have hgeneral : r.isGeneral = true := by
        obtain ⟨bank, i⟩ := r
        cases bank
        · rfl
        · exact absurd (h i rfl) hparked
      rw [Location.way_register, if_pos (Or.inr hgeneral)]

/-! ## The refinement -/

section

variable (h : s.Runnable ctx c) (his : (s.draft ctx).instructions = .ok is)

include h

/-- The conditions under which the code of single moves is right. -/
theorem Runnable.room : ctx.Room c fun l => l = .register s.scratch ∨ l ∈ s.locations where
  temporary := by
    rw [Register.general_index h.framePointer.1, Register.general_index h.stackPointer.1]
    refine ⟨h.temporary.1, h.indices _ List.mem_cons_self, ?_, ?_⟩
    · exact (List.ne_of_not_mem_cons h.framePointer.2).symm
    · exact (List.ne_of_not_mem_cons h.stackPointer.2).symm
  registers := by
    intro r hr
    have hr : r ∈ s.registers := mem_registers.2 hr
    have hmem : r ∈ ctx.temporary :: s.registers := List.mem_cons_of_mem _ hr
    rw [Register.general_index h.framePointer.1, Register.general_index h.stackPointer.1]
    refine ⟨h.indices r hmem, ?_, ?_, ?_⟩
    · exact fun heq => h.temporary.2 (heq ▸ hr)
    · exact fun heq => h.framePointer.2 (heq ▸ hmem)
    · exact fun heq => h.stackPointer.2 (heq ▸ hmem)
  apart := by
    intro offset hoffset area offset' hoffset' hne
    have hin : .outgoing offset ∈ s.locations := hoffset.resolve_left (by simp)
    have hin' : .stack area offset' ∈ s.locations := hoffset'.resolve_left (by simp)
    have hapart := h.apart _ hin' _ hin hne
    rwa [MoveContext.cell_stack, MoveContext.cell_stack] at hapart

include his

/-- The code leaves the stack where it is, carries values as the moves say, and writes no bytes but
those of targets. -/
theorem Runnable.content_draft :
    ctx.SameStack c (c.executeAll w is) ∧
      (∀ l, l = .register s.scratch ∨ l ∈ s.locations →
        ctx.content (c.executeAll w is) l = carryAll Location.way s.moves (ctx.content c) l) ∧
      ∀ a, (∀ m ∈ s.mapping, a ∉ ctx.cell c m.target) →
        (c.executeAll w is).memory.byte a = c.memory.byte a := by
  obtain ⟨hcomplete, rfl⟩ := Draft.instructions_eq_ok_iff.1 his
  obtain ⟨hstack, hcontent, hbytes⟩ :=
    MoveContext.content_draft (w := w) h.room hcomplete fun m hm => mem_locations_of_mem_moves hm
  refine ⟨hstack, hcontent, fun a ha => hbytes a fun m hm => MoveContext.not_writtenBy ?_⟩
  rcases target_of_mem_moves hm with heq | hmem
  · rw [heq]
    exact Nat.not_lt_zero _
  · obtain ⟨m', hm', heq⟩ := List.mem_map.1 hmem
    exact heq ▸ ha m' hm'

/-- What arrives at a target. -/
theorem Runnable.content_target (hm : m ∈ s.mapping) :
    ctx.content (c.executeAll w is) m.target = s.arrival m (ctx.content c m.source) :=
  ((h.content_draft his).2.1 _ (Or.inr (mem_locations_of_target (List.mem_map_of_mem hm)))).trans
    (carryAll_moves hm)

end

/-- The code writes the targets, the scratch register and the temporary one. -/
theorem register_draft {r : Register} (his : (s.draft ctx).instructions = .ok is)
    (hscratch : r ≠ s.scratch) (htemporary : r ≠ ctx.temporary)
    (hr : .register r ∉ s.mapping.map Move.target) :
    (c.executeAll w is).register r = c.register r := by
  obtain ⟨_, rfl⟩ := Draft.instructions_eq_ok_iff.1 his
  refine Cpu.register_executeAll ?_
  intro i hi
  obtain ⟨m, hm, _, hsteady, hwritten⟩ := MoveContext.mem_draft hi
  refine ⟨hsteady, fun hmem => ?_⟩
  rcases hwritten r hmem with htarget | rfl
  · rcases target_of_mem_moves hm with heq | hmapping
    · exact hscratch (Location.register.inj (htarget.symm.trans heq))
    · exact hr (htarget ▸ hmapping)
  · exact htemporary rfl

/-- A location that is neither a target nor one of the two registers that the code works with keeps
what it holds. -/
theorem Runnable.content_of_ne (h : s.Runnable ctx c) (his : (s.draft ctx).instructions = .ok is)
    (hscratch : l ≠ .register s.scratch) (htemporary : l ≠ .register ctx.temporary)
    (hl : l ∉ s.mapping.map Move.target)
    (hapart : ∀ m ∈ s.mapping, (ctx.cell c l).Apart (ctx.cell c m.target)) :
    ctx.content (c.executeAll w is) l = ctx.content c l := by
  obtain ⟨hstack, _, hbytes⟩ := h.content_draft (w := w) his
  cases l with
  | register r =>
    exact register_draft his (fun heq => hscratch (congrArg _ heq))
      (fun heq => htemporary (congrArg _ heq)) hl
  | stack area offset =>
    have hword : (c.executeAll w is).memory.readWord (ctx.place c area offset) =
        c.memory.readWord (ctx.place c area offset) :=
      Memory.readWord_congr fun a ha => hbytes a fun m hm => hapart m hm a ha
    rw [MoveContext.content, MoveContext.content, hstack.place, hword]

/-- **The code for a shuffle refines its symbolic run.** -/
theorem carriedOut_draft (h : s.Runnable ctx c) (his : (s.draft ctx).instructions = .ok is) :
    s.CarriedOut ctx c (c.executeAll w is) where
  low := by
    intro l htemporary hapart
    by_cases hwritten : l = .register s.scratch ∨ l ∈ s.mapping.map Move.target
    · have hin : l = .register s.scratch ∨ l ∈ s.locations :=
        hwritten.imp_right mem_locations_of_target
      rw [(h.content_draft his).2.1 l hin, setWidth_carryAll]
    · obtain ⟨hscratch, hl⟩ := not_or.1 hwritten
      have hstays : runAll s.moves l = l := by
        rw [runAll_eq_carryAll]
        exact carryAll_moves_of_ne hscratch hl
      rw [hstays, h.content_of_ne his hscratch htemporary hl]
      exact fun m hm => hapart m hm fun heq => hl (List.mem_map.2 ⟨m, hm, heq⟩)
  whole := by
    intro i j hm hparked
    have hcontent := h.content_target (w := w) his hm
    rwa [arrival_of_isVector rfl rfl (Or.inr hparked)] at hcontent
  cleared := by
    intro source j hm hvector
    have hcontent := h.content_target (w := w) his hm
    rw [arrival_of_not_whole h.scratch hm hvector] at hcontent
    have hword : (c.executeAll w is).vector j =
        ((ctx.content c source).setWidth 64).setWidth 128 := hcontent
    rw [hword, ushiftRight_setWidth_word]
  registers := fun _ => register_draft his
  memory := (h.content_draft his).2.2

/-- A cycle through both banks, a cycle of vector registers, a copy between two more of them, and
moves onto and off the stack. -/
def mixedShuffle : Shuffle where
  mapping :=
    [⟨.register (.general 0), .register (.vector 0)⟩,
      ⟨.register (.vector 0), .register (.general 0)⟩,
      ⟨.register (.vector 1), .register (.vector 2)⟩,
      ⟨.register (.vector 2), .register (.vector 1)⟩,
      ⟨.register (.vector 3), .register (.vector 4)⟩, ⟨.incoming 0, .outgoing 0⟩,
      ⟨.incoming 8, .register (.general 1)⟩, ⟨.register (.general 1), .outgoing 8⟩]
  scratch := .general 19
  sound := by decide

/-- The inside of a frame, with the incoming arguments above it. -/
def mixedContext : MoveContext where
  framePointer := .general 29
  stackPointer := .general 31
  incomingBase := 16
  temporary := .general 9

/-- A machine inside of that frame, with one bit above the lower half of a vector register. -/
def mixedCpu : Cpu :=
  ((({} : Cpu).setGeneral 29 0x7FFF0000).setGeneral 31 0x7FFEFF00).setVector 3 (1 <<< 64)

theorem carriedOut_draft_mixed : mixedShuffle.Runnable mixedContext mixedCpu ∧
    ∃ is, (mixedShuffle.draft mixedContext).instructions = .ok is ∧
      ∀ w, mixedShuffle.CarriedOut mixedContext mixedCpu (mixedCpu.executeAll w is) ∧
        (mixedCpu.executeAll w is).vector 4 = 1 <<< 64 := by
  have hrunnable : mixedShuffle.Runnable mixedContext mixedCpu := by decide +kernel
  have hlowered : (mixedShuffle.draft mixedContext).instructions.toOption.isSome = true := by
    decide +kernel
  refine ⟨hrunnable, ?_⟩
  cases his : (mixedShuffle.draft mixedContext).instructions with
  | error e =>
    rw [his] at hlowered
    cases hlowered
  | ok is =>
    refine ⟨is, rfl, fun w => ?_⟩
    have hcarried := carriedOut_draft (w := w) hrunnable his
    exact ⟨hcarried, hcarried.whole 3 4 (by decide) (by decide +kernel)⟩

end Shuffle

end Trampoline
