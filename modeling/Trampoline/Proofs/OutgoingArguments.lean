import Trampoline.Proofs.FrameLayout
import Trampoline.Proofs.Shuffle.Cost
import Trampoline.Proofs.Stub.Access

/-!
# Arguments that someone else has placed

A placement of the arguments that is computed here has its stack arguments at multiples of eight.
A mapping that is handed over may send them to any offset, and of its stack targets nothing is
checked but that no two are equal.  This file says what then becomes of the stores: which offsets
they are to (`offsets_stores`), how far they may stick out of the region that was made for them, and
when they are on top of each other.

Stack space is counted in slots, and the bytes of an argument are rounded down to slots.  So a cell
ends in the region if it begins at a slot (`Shuffle.stores_outgoing`), and otherwise may not
(`Shuffle.spills_unaligned`).  A cell below the stack pointer is not counted at all.
-/

set_option autoImplicit false

namespace Trampoline

/-! ## Stores -/

/-- What instructions store to, in order. -/
def stores (is : List Instruction) : List Access :=
  (accesses is).filterMap fun x => if x.1 = .store then some x.2 else none

theorem mem_stores {is : List Instruction} {a : Access} :
    a ∈ stores is ↔ (.store, a) ∈ accesses is := by
  simp [stores, List.mem_filterMap]

theorem stores_append {is js : List Instruction} : stores (is ++ js) = stores is ++ stores js := by
  rw [stores, accesses_append, List.filterMap_append, stores, stores]

/-- The offset into the outgoing area, for a location there. -/
def Location.outgoing? : Location → Option Int
  | .stack .outgoing offset => some offset
  | _ => none

theorem Location.outgoing?_eq_some_iff {l : Location} {offset : Int} :
    l.outgoing? = some offset ↔ l = .outgoing offset := by
  rcases l with _ | ⟨_ | _, _⟩ <;> simp [Location.outgoing?]

namespace MoveContext

variable {ctx : MoveContext} {m : Move} {moves : List Move} {is : List Instruction}

/-- A move stores to its target, if that is on the stack. -/
theorem offsets_stores_lower (hm : ∀ offset, m.target ≠ .incoming offset)
    (h : ctx.lower m = .ok is) :
    (stores is).map Access.offset = m.target.outgoing?.toList := by
  have houtgoing : ∀ {area offset base imm}, m.target = .stack area offset →
      ctx.address area offset = .ok (base, imm) → [imm.toInt] = m.target.outgoing?.toList := by
    intro area offset base imm htarget haddress
    cases area with
    | incoming => exact absurd htarget (hm offset)
    | outgoing =>
      rw [htarget, Imm.toInt_of_ofInt? (address_outgoing haddress).2]
      rfl
  rcases lower_eq_ok h with ⟨_, _, rfl, rfl⟩ | ⟨_, _, _, _, _, rfl, haddress, rfl⟩ |
    ⟨_, _, _, _, _, rfl, _, rfl⟩ | ⟨_, _, _, _, _, _, _, _, rfl, _, haddress, rfl⟩
  · rfl
  · exact houtgoing rfl haddress
  · rfl
  · exact houtgoing rfl haddress

/-- The stores of moves are to their targets on the stack, in order; a move that cannot be had has
none. -/
theorem offsets_stores (hmoves : ∀ m ∈ moves, ∀ offset, m.target ≠ .incoming offset) :
    (stores (Draft.code (moves.map ctx.lower))).map Access.offset =
      ((moves.filter fun m => (ctx.lower m).isOk).map Move.target).filterMap
        Location.outgoing? := by
  induction moves with
  | nil => rfl
  | cons m rest ih =>
    obtain ⟨hm, hrest⟩ := List.forall_mem_cons.1 hmoves
    rw [List.map_cons, List.filter_cons]
    cases hlower : ctx.lower m with
    | error e => exact ih hrest
    | ok is =>
      rw [Draft.code_cons_ok, stores_append, List.map_append, offsets_stores_lower hm hlower,
        ih hrest, if_pos (by rfl), List.map_cons, List.filterMap_cons]
      cases m.target.outgoing? <;> rfl

end MoveContext

namespace Shuffle

variable {s : Shuffle} {ctx : MoveContext} {m : Move} {a : Access} {offset : Int}

/-! ## The stores of a shuffle -/

/-- The stack arguments that have to be moved are moved, and nothing else goes to the stack. -/
theorem perm_outgoing : ((s.moves.map Move.target).filterMap Location.outgoing?).Perm
    (((proper s.mapping).map Move.target).filterMap Location.outgoing?) := by
  have hperm := (filter_target_schedule (parallel_pending (s := s))).filterMap Location.outgoing?
  have hscratch : (s.moves.map Move.target).filterMap Location.outgoing? =
      ((s.moves.filter (·.target ≠ .register s.scratch)).map Move.target).filterMap
        Location.outgoing? := by
    rw [List.filterMap_map, List.filterMap_map, List.filterMap_filter]
    refine List.filterMap_congr fun m _ => ?_
    by_cases h : m.target = .register s.scratch <;> simp [h, Location.outgoing?]
  rw [hscratch]
  exact hperm

theorem target_ne_incoming_of_mem_moves (hm : m ∈ s.moves) (offset : Int) :
    m.target ≠ .incoming offset := by
  intro heq
  rcases target_of_mem_moves hm with hscratch | hmem
  · rw [heq] at hscratch
    cases hscratch
  · obtain ⟨other, hother, htarget⟩ := List.mem_map.1 hmem
    exact target_ne_incoming hother offset (htarget.trans heq)

theorem offsets_nodup : ((s.moves.map Move.target).filterMap Location.outgoing?).Nodup := by
  refine perm_outgoing.nodup_iff.2 (List.Nodup.filterMap ?_ ?_)
  · intro l l' offset hl hl'
    rw [Location.outgoing?_eq_some_iff.1 hl, Location.outgoing?_eq_some_iff.1 hl']
  · exact s.targets_nodup.sublist (List.filter_sublist.map _)

theorem offset_of_mem_stores (ha : a ∈ stores (s.draft ctx).code) :
    a.base = ctx.stackPointer.index ∧ a.width = 8 ∧
      .outgoing a.offset ∈ s.mapping.map Move.target := by
  obtain ⟨m, hm, area, offset, imm, haddress, hoffset, hwidth, hcase⟩ :=
    MoveContext.exists_of_mem_accesses (mem_stores.1 ha)
  have htarget := (hcase.resolve_left (by simp)).2
  cases area with
  | incoming => exact absurd htarget (target_ne_incoming_of_mem_moves hm offset)
  | outgoing =>
    obtain ⟨hbase, himm⟩ := MoveContext.address_outgoing haddress
    have hmem := (target_of_mem_moves hm).resolve_left (by simp [htarget])
    rw [htarget, ← Imm.toInt_of_ofInt? himm, ← hoffset] at hmem
    exact ⟨hbase, hwidth, hmem⟩

/-- An argument that has to be moved to the stack is stored there, if the code can be had. -/
theorem exists_mem_stores (hcomplete : (s.draft ctx).Complete) (hm : m ∈ s.mapping)
    (htarget : m.target = .outgoing offset) (hne : m.source ≠ m.target) :
    ∃ a ∈ stores (s.draft ctx).code, a.offset = offset := by
  have hall : (s.moves.filter fun m => (ctx.lower m).isOk) = s.moves := by
    refine List.filter_eq_self.2 fun m hm => ?_
    obtain ⟨is, his⟩ := hcomplete _ (List.mem_map_of_mem hm)
    rw [his]
    rfl
  have hmem : offset ∈ ((proper s.mapping).map Move.target).filterMap Location.outgoing? := by
    refine List.mem_filterMap.2 ⟨m.target, ?_, Location.outgoing?_eq_some_iff.2 htarget⟩
    exact List.mem_map_of_mem (List.mem_filter.2 ⟨hm, decide_eq_true hne⟩)
  have hoffsets : (stores (s.draft ctx).code).map Access.offset = _ :=
    MoveContext.offsets_stores fun m hm => target_ne_incoming_of_mem_moves hm
  rw [hall] at hoffsets
  rw [← perm_outgoing.mem_iff, ← hoffsets] at hmem
  exact List.mem_map.1 hmem

/-- No two stores are to the same offset, so they are apart if different targets are. -/
theorem pairwise_stores (happart : ∀ x y, .outgoing x ∈ s.mapping.map Move.target →
      .outgoing y ∈ s.mapping.map Move.target → x = y ∨ x + 8 ≤ y ∨ y + 8 ≤ x) :
    (stores (s.draft ctx).code).Pairwise Access.Apart := by
  have hnodup : ((stores (s.draft ctx).code).map Access.offset).Nodup := by
    rw [draft, MoveContext.offsets_stores fun m hm => target_ne_incoming_of_mem_moves hm]
    exact s.offsets_nodup.sublist ((List.filter_sublist.map _).filterMap _)
  refine (List.pairwise_map.1 hnodup).imp_of_mem fun {a a'} ha ha' hne => ?_
  obtain ⟨-, hwidth, htarget⟩ := offset_of_mem_stores ha
  obtain ⟨-, hwidth', htarget'⟩ := offset_of_mem_stores ha'
  rw [Access.Apart, hwidth, hwidth']
  exact (happart _ _ htarget htarget').resolve_left hne

/-! ## The region for them -/

/-- The slots up to a target are counted, if it does not lie below the stack pointer. -/
theorem end_le_of_mem (htarget : .outgoing offset ∈ s.mapping.map Move.target)
    (hoffset : 0 ≤ offset) : offset + 8 ≤ ↑(s.outSlots * slotBytes) + offset % 4 := by
  obtain ⟨m, hm, heq⟩ := List.mem_map.1 htarget
  have hslots := slotsUpTo_le hm
  rw [heq, slotsUpTo, if_pos hoffset] at hslots
  simp only [stackArgBytes, slotBytes] at hslots ⊢
  omega

/-- **Where a shuffle stores the stack arguments**, in any frame that is planned for it, whatever
the rules of the stack.  Each target that is written is one of the mapping's, and has eight bytes.
They lie in the region at the bottom of the frame if they begin at a slot of it; if they begin some
bytes behind a slot, as many bytes may stick out at the other end.  What is sent below the stack
pointer has no room made for it.  No store is on top of another one if the targets are eight bytes
apart. -/
theorem stores_outgoing {mapping : List Move} {scratch : Register} {d : Frame.Demand}
    {c : Convention} (h : ofMapping mapping scratch = .ok s) (hd : d.Follows c)
    (hslots : d.outSlots = s.outSlots) (ctx : MoveContext) :
    ∃ span, d.layout.span? .outArgs = some span ∧ span.offset = 0 ∧
      (∀ other ∈ d.layout.spans, other ≠ span → span.stop ≤ other.offset) ∧
      (∀ a ∈ stores (s.draft ctx).code,
        a.base = ctx.stackPointer.index ∧ a.width = 8 ∧
          .outgoing a.offset ∈ mapping.map Move.target ∧
          (0 ≤ a.offset → a.offset + a.width ≤ span.stop + a.offset % 4) ∧
          (0 ≤ a.offset → 4 ∣ a.offset → a.Within span)) ∧
      ((s.draft ctx).Complete → ∀ m ∈ mapping, ∀ offset, m.target = .outgoing offset →
        m.source ≠ m.target → ∃ a ∈ stores (s.draft ctx).code, a.offset = offset) ∧
      ((∀ x y, .outgoing x ∈ mapping.map Move.target → .outgoing y ∈ mapping.map Move.target →
          x = y ∨ x + 8 ≤ y ∨ y + 8 ≤ x) →
        (stores (s.draft ctx).code).Pairwise Access.Apart) := by
  obtain ⟨rfl, rfl⟩ := ofMapping_eq_ok_iff.1 h
  have hroom := d.slots_le_outArgBytes (hd.alignment ▸ c.alignment_pos)
  rw [hslots] at hroom
  refine ⟨_, d.span?_layout.1, rfl, fun other hother hne => ?_, fun a ha => ?_,
    fun hcomplete m hm offset => exists_mem_stores hcomplete hm, pairwise_stores⟩
  · have hrest := (List.mem_cons.1 hother).resolve_left hne
    have hstart := (Frame.Demand.mem_spansFrom hrest).1
    rw [Frame.Span.stop]
    exact hstart
  · obtain ⟨hbase, hwidth, htarget⟩ := offset_of_mem_stores ha
    have hend : 0 ≤ a.offset → a.offset + 8 ≤ d.outArgBytes + a.offset % 4 := by
      intro hoffset
      have := end_le_of_mem htarget hoffset
      simp only [slotBytes] at this
      omega
    refine ⟨hbase, hwidth, htarget, fun hoffset => ?_, fun hoffset hslot => ⟨?_, ?_⟩⟩
    · have := hend hoffset
      simp only [hwidth, Frame.Span.stop]
      omega
    · exact_mod_cast hoffset
    · have := hend hoffset
      simp only [hwidth, Frame.Span.stop]
      omega

/-- A convention whose stack is aligned to words. -/
def byWords : Convention where
  name := "by words"
  alignment := 8
  sound := by decide

/-- Registers for the frame and a temporary one, as on the machine with 32 of them. -/
def context : MoveContext where
  framePointer := .general 29
  stackPointer := .general 31
  incomingBase := 16
  temporary := .general 9

/-- Two arguments at neighbouring offsets, as they are placed by a convention. -/
theorem stores_outgoing_neighbours :
    ∃ s, ofMapping [⟨.register (.general 0), .outgoing 0⟩, ⟨.incoming 0, .outgoing 8⟩]
        (.general 19) = .ok s ∧
      (stores (s.draft context).code).Pairwise Access.Apart := by
  obtain ⟨s, hs⟩ : ∃ s, ofMapping
      [⟨.register (.general 0), .outgoing 0⟩, ⟨.incoming 0, .outgoing 8⟩] (.general 19) = .ok s :=
    ⟨_, rfl⟩
  let d : Frame.Demand := { Frame.Demand.ofConvention byWords with outSlots := s.outSlots }
  obtain ⟨_, _, _, _, _, _, happart⟩ :=
    stores_outgoing (d := d) (c := byWords) hs ⟨rfl, rfl⟩ rfl context
  have htargets : ∀ x, Location.outgoing x ∈ [Location.outgoing 0, .outgoing 8] →
      x = 0 ∨ x = 8 := by simp
  refine ⟨s, hs, happart fun x y hx hy => ?_⟩
  have hx := htargets x hx
  have hy := htargets y hy
  omega

/-- One argument at offset one: two slots are counted, and the last of its bytes is in the region
behind the one for outgoing arguments. -/
theorem spills_unaligned :
    ∃ s, ofMapping [⟨.register (.general 0), .outgoing 1⟩] (.general 19) = .ok s ∧
      ∃ d : Frame.Demand, d.Follows byWords ∧ d.outSlots = s.outSlots ∧
        d.layout.span? .outArgs = some ⟨.outArgs, 0, 8⟩ ∧
        d.layout.span? .deoptSpill = some ⟨.deoptSpill, 8, 8⟩ ∧
        stores (s.draft context).code = [⟨.general 0, 31, 1, 8⟩] ∧
        ¬ (⟨.general 0, 31, 1, 8⟩ : Access).Within ⟨.outArgs, 0, 8⟩ := by
  obtain ⟨s, hs⟩ :
      ∃ s, ofMapping [⟨.register (.general 0), .outgoing 1⟩] (.general 19) = .ok s := ⟨_, rfl⟩
  obtain ⟨hmapping, hscratch⟩ := ofMapping_eq_ok_iff.1 hs
  have hslots : s.outSlots = 2 := by
    rw [outSlots, hmapping]
    rfl
  have hmoves : s.moves = [⟨.register (.general 0), .outgoing 1⟩] := by
    rw [moves, hmapping, hscratch, schedule_of_free rfl]
    exact congrArg _ (schedule_nil _)
  refine ⟨s, hs, { Frame.Demand.ofConvention byWords with outSlots := 2 }, ⟨rfl, rfl⟩, hslots.symm,
    by decide, by decide, ?_, ?_⟩
  · rw [draft, hmoves]
    decide
  · rintro ⟨-, hstop⟩
    exact absurd hstop (by decide)

end Shuffle

end Trampoline
