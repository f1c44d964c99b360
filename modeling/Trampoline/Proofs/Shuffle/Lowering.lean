import Trampoline.Proofs.Shuffle.Admission
import Trampoline.Proofs.Stub.SaveArea

/-!
# Lowered moves do what the moves say

The moves of a shuffle speak of locations, their code speaks of registers and addresses.  This file
follows a value of 128 bits through that code.  `Location.way` says what becomes of a value on its
way from one location to another: from a vector register to a vector register it survives as a
whole, and everywhere else only its lower half gets through.

A move from stack to stack needs a temporary register, and the code for a move is only right as long
as nobody has a value there, as no stack argument overlaps with another one, and as nothing moves
the two registers that the stack is addressed by.  `MoveContext.Room` is this list of conditions for
the locations in use, and it is stated for a state of the machine; each move keeps it
(`Room.congr`), so that it has to be known at the beginning only.

* `content_lower` — one move, in all its shapes.
* `content_draft` — the code for a list of moves leaves in every location in use what `carryAll`
  says.
-/

set_option autoImplicit false

namespace Trampoline

/-- What becomes of a value on its way from one location to another. -/
def Location.way : Location → Location → Quad → Quad
  | .register ⟨.vector, _⟩, .register ⟨.vector, _⟩, v => v
  | _, _, v => (v.setWidth 64).setWidth 128

/-- Whatever the way, the lower half of a value gets through. -/
theorem Location.setWidth_way {source target : Location} {v : Quad} :
    (Location.way source target v).setWidth 64 = v.setWidth 64 := by
  unfold way
  split
  · rfl
  · rw [setWidth_setWidth_word]

theorem Location.way_stack {source : Location} {area : Area} {offset : Int} {v : Quad} :
    Location.way source (.stack area offset) v = (v.setWidth 64).setWidth 128 := by
  unfold way
  split
  · rename_i heq
    cases heq
  · rfl

theorem Location.way_register {source target : Register} {v : Quad} :
    Location.way (.register source) (.register target) v =
      if target.isGeneral = true ∨ source.isGeneral = true then (v.setWidth 64).setWidth 128
      else v := by
  obtain ⟨bank, i⟩ := source
  obtain ⟨bank', j⟩ := target
  cases bank <;> cases bank' <;> simp [way, Register.isGeneral]

theorem carryAll_congr {α : Type} {way : Location → Location → α → α} {inUse : Location → Prop}
    {moves : List Move} {v v' : Location → α} (hmoves : ∀ m ∈ moves, inUse m.source)
    (h : ∀ l, inUse l → v l = v' l) {l : Location} (hl : inUse l) :
    carryAll way moves v l = carryAll way moves v' l := by
  induction moves generalizing v v' with
  | nil => exact h l hl
  | cons m rest ih =>
    rw [carryAll_cons, carryAll_cons]
    refine ih (fun m' hm' => hmoves m' (List.mem_cons_of_mem _ hm')) ?_
    intro k hk
    simp only [Move.carry, h k hk, h m.source (hmoves m List.mem_cons_self)]

namespace MoveContext

variable (ctx : MoveContext)

/-! ## What locations hold -/

/-- The address of a stack argument. -/
def place (c : Cpu) : Area → Int → Word
  | .incoming, offset =>
    c.general ctx.framePointer.index + BitVec.ofInt 64 (ctx.incomingBase + offset)
  | .outgoing, offset => c.general ctx.stackPointer.index + BitVec.ofInt 64 offset

/-- What a location holds; above a word there are zeros. -/
def content (c : Cpu) : Location → Quad
  | .register r => c.register r
  | .stack area offset => (c.memory.readWord (ctx.place c area offset)).setWidth 128

/-- What moves between the locations in use rely on. -/
structure Room (c : Cpu) (inUse : Location → Prop) : Prop where
  temporary : ctx.temporary.isGeneral = true ∧ ctx.temporary.index.toNat < bankSize ∧
    ctx.temporary ≠ .general ctx.framePointer.index ∧
    ctx.temporary ≠ .general ctx.stackPointer.index
  registers : ∀ r, inUse (.register r) → r.index.toNat < bankSize ∧ r ≠ ctx.temporary ∧
    r ≠ .general ctx.framePointer.index ∧ r ≠ .general ctx.stackPointer.index
  apart : ∀ offset, inUse (.outgoing offset) → ∀ area offset', inUse (.stack area offset') →
    Location.stack area offset' ≠ .outgoing offset →
    (Extent.word (ctx.place c area offset')).Apart (Extent.word (ctx.place c .outgoing offset))

/-- The registers that the stack is addressed by hold the same. -/
def SameStack (c c' : Cpu) : Prop :=
  c'.general ctx.framePointer.index = c.general ctx.framePointer.index ∧
    c'.general ctx.stackPointer.index = c.general ctx.stackPointer.index

variable {ctx} {c c' : Cpu} {inUse : Location → Prop} {w : Wiring} {m : Move}
  {is : List Instruction} {area : Area} {offset : Int} {l : Location} {r : Register} {v : Quad}

theorem SameStack.place (h : ctx.SameStack c c') :
    ctx.place c' area offset = ctx.place c area offset := by
  cases area
  · rw [MoveContext.place, MoveContext.place, h.1]
  · rw [MoveContext.place, MoveContext.place, h.2]

theorem Room.congr (hroom : ctx.Room c inUse) (h : ctx.SameStack c c') : ctx.Room c' inUse where
  temporary := hroom.temporary
  registers := hroom.registers
  apart := by
    intro offset hoffset area offset' hoffset' hne
    rw [h.place, h.place]
    exact hroom.apart offset hoffset area offset' hoffset' hne

/-- Registers other than one that is in use, or the temporary one, include those of the stack. -/
theorem Room.sameStack (hroom : ctx.Room c inUse)
    (hr : r = ctx.temporary ∨ inUse (.register r))
    (h : ∀ s, s ≠ r → c'.register s = c.register s) : ctx.SameStack c c' := by
  have hne : r ≠ .general ctx.framePointer.index ∧ r ≠ .general ctx.stackPointer.index := by
    rcases hr with rfl | hr
    · exact hroom.temporary.2.2
    · exact (hroom.registers r hr).2.2
  exact ⟨Cpu.general_eq_of_register (h _ hne.1.symm), Cpu.general_eq_of_register (h _ hne.2.symm)⟩

/-! ## One move -/

/-- An incoming argument is addressed by the frame pointer... -/
theorem address_incoming {base : RegIndex} {imm : Imm}
    (h : ctx.address .incoming offset = .ok (base, imm)) :
    base = ctx.framePointer.index ∧ Imm.ofInt? (ctx.incomingBase + offset) = some imm := by
  rw [address] at h
  obtain ⟨_, _, h⟩ := exists_of_bind_eq_ok h
  obtain ⟨displacement, hd, h⟩ := exists_of_bind_eq_ok h
  obtain ⟨rfl, rfl⟩ := Prod.mk.inj (Except.ok.inj h)
  exact ⟨rfl, immediate_eq_ok_iff.1 hd⟩

/-- ...and an outgoing one by the stack pointer. -/
theorem address_outgoing {base : RegIndex} {imm : Imm}
    (h : ctx.address .outgoing offset = .ok (base, imm)) :
    base = ctx.stackPointer.index ∧ Imm.ofInt? offset = some imm := by
  rw [address] at h
  obtain ⟨displacement, hd, h⟩ := exists_of_bind_eq_ok h
  obtain ⟨rfl, rfl⟩ := Prod.mk.inj (Except.ok.inj h)
  exact ⟨rfl, immediate_eq_ok_iff.1 hd⟩

/-- An address that the code of a move computes is that of the location. -/
theorem address_eq_ok {base : RegIndex} {imm : Imm}
    (h : ctx.address area offset = .ok (base, imm)) :
    c.address base imm = ctx.place c area offset := by
  cases area with
  | incoming =>
    obtain ⟨rfl, himm⟩ := address_incoming h
    rw [Cpu.address_of_ofInt? himm, place]
  | outgoing =>
    obtain ⟨rfl, himm⟩ := address_outgoing h
    rw [Cpu.address_of_ofInt? himm, place]

/-- The shapes of the code for a move. -/
theorem lower_eq_ok (h : ctx.lower m = .ok is) :
    (∃ source target, m = ⟨.register source, .register target⟩ ∧ is = [.move target source]) ∨
    (∃ source area offset base imm, m = ⟨.register source, .stack area offset⟩ ∧
      ctx.address area offset = .ok (base, imm) ∧ is = [.store source base imm]) ∨
    (∃ area offset target base imm, m = ⟨.stack area offset, .register target⟩ ∧
      ctx.address area offset = .ok (base, imm) ∧ is = [.load target base imm]) ∨
    ∃ area offset area' offset' base imm base' imm',
      m = ⟨.stack area offset, .stack area' offset'⟩ ∧
      ctx.address area offset = .ok (base, imm) ∧ ctx.address area' offset' = .ok (base', imm') ∧
      is = [.load ctx.temporary base imm, .store ctx.temporary base' imm'] := by
  obtain ⟨source, target⟩ := m
  rw [lower] at h
  cases source with
  | register source =>
    cases target with
    | register target => exact Or.inl ⟨source, target, rfl, (Except.ok.inj h).symm⟩
    | stack area offset =>
      obtain ⟨⟨base, imm⟩, ha, h⟩ := exists_of_bind_eq_ok h
      exact Or.inr (Or.inl ⟨source, area, offset, base, imm, rfl, ha, (Except.ok.inj h).symm⟩)
  | stack area offset =>
    cases target with
    | register target =>
      obtain ⟨⟨base, imm⟩, ha, h⟩ := exists_of_bind_eq_ok h
      exact Or.inr (Or.inr (Or.inl ⟨area, offset, target, base, imm, rfl, ha,
        (Except.ok.inj h).symm⟩))
    | stack area' offset' =>
      obtain ⟨⟨base, imm⟩, ha, h⟩ := exists_of_bind_eq_ok h
      obtain ⟨⟨base', imm'⟩, ha', h⟩ := exists_of_bind_eq_ok h
      exact Or.inr (Or.inr (Or.inr ⟨area, offset, area', offset', base, imm, base', imm', rfl, ha,
        ha', (Except.ok.inj h).symm⟩))

/-- The code for a move can be had if its stack locations have addresses. -/
theorem exists_lower
    (h : ∀ area offset, m.source = .stack area offset ∨ m.target = .stack area offset →
      ∃ a, ctx.address area offset = .ok a) : ∃ is, ctx.lower m = .ok is := by
  obtain ⟨source, target⟩ := m
  rw [lower]
  cases source with
  | register source =>
    cases target with
    | register target => exact ⟨_, rfl⟩
    | stack area offset =>
      obtain ⟨a, ha⟩ := h area offset (Or.inr rfl)
      simp only [ha]
      exact ⟨_, rfl⟩
  | stack area offset =>
    obtain ⟨a, ha⟩ := h area offset (Or.inl rfl)
    cases target with
    | register target =>
      simp only [ha]
      exact ⟨_, rfl⟩
    | stack area' offset' =>
      obtain ⟨a', ha'⟩ := h area' offset' (Or.inr rfl)
      simp only [ha, ha']
      exact ⟨_, rfl⟩

/-- The code for a move that reads a stack argument addresses it. -/
theorem address_of_lower (h : ctx.lower m = .ok is) (hs : m.source = .stack area offset) :
    ∃ base imm, ctx.address area offset = .ok (base, imm) := by
  rcases lower_eq_ok h with ⟨_, _, rfl, _⟩ | ⟨_, _, _, _, _, rfl, _, _⟩ |
    ⟨_, _, _, base, imm, rfl, ha, _⟩ | ⟨_, _, _, _, base, imm, _, _, rfl, ha, _, _⟩
  · cases hs
  · cases hs
  · cases hs
    exact ⟨base, imm, ha⟩
  · cases hs
    exact ⟨base, imm, ha⟩

/-- The code for a move is plain and writes the target, or the temporary register. -/
theorem mem_lower (h : ctx.lower m = .ok is) {i : Instruction} (hi : i ∈ is) :
    i.isPlain = true ∧ i.isSteady = true ∧
      ∀ r ∈ i.written, m.target = .register r ∨ r = ctx.temporary := by
  rcases lower_eq_ok h with ⟨s, t, rfl, rfl⟩ | ⟨s, _, _, _, _, rfl, _, rfl⟩ |
    ⟨_, _, t, _, _, rfl, _, rfl⟩ | ⟨_, _, _, _, _, _, _, _, rfl, _, _, rfl⟩
  · obtain rfl := List.mem_singleton.1 hi
    exact ⟨rfl, rfl, fun r hr => Or.inl (congrArg _ (List.mem_singleton.1 hr).symm)⟩
  · obtain rfl := List.mem_singleton.1 hi
    exact ⟨rfl, rfl, fun r hr => absurd hr List.not_mem_nil⟩
  · obtain rfl := List.mem_singleton.1 hi
    exact ⟨rfl, rfl, fun r hr => Or.inl (congrArg _ (List.mem_singleton.1 hr).symm)⟩
  · rcases List.mem_pair.1 hi with rfl | rfl
    · exact ⟨rfl, rfl, fun r hr => Or.inr (List.mem_singleton.1 hr)⟩
    · exact ⟨rfl, rfl, fun r hr => absurd hr List.not_mem_nil⟩

/-- The effect of writing a register that is in use. -/
theorem content_setRegister (hroom : ctx.Room c inUse) (hr : inUse (.register r))
    (hv : r.isGeneral = true → (v.setWidth 64).setWidth 128 = v) (hl : inUse l) :
    ctx.content (c.setRegister r v) l = if l = .register r then v else ctx.content c l := by
  have hstack : ctx.SameStack c (c.setRegister r v) :=
    hroom.sameStack (Or.inr hr) fun s hs => Cpu.register_setRegister_ne hs
  cases l with
  | stack area offset =>
    rw [if_neg (fun heq => nomatch heq), content, content, hstack.place, Cpu.memory_setRegister]
  | register s =>
    by_cases hs : s = r
    · subst hs
      rw [if_pos rfl, content, Cpu.register_setRegister _ _ _ (hroom.registers s hr).1]
      split
      · exact hv ‹_›
      · rfl
    · rw [if_neg fun heq => hs (Location.register.inj heq)]
      exact Cpu.register_setRegister_ne hs

/-- The effect of writing a stack argument that is in use. -/
theorem content_writeWord {v : Word} (hroom : ctx.Room c inUse) (hoffset : inUse (.outgoing offset))
    (hl : inUse l) :
    ctx.content (c.writeWord (ctx.place c .outgoing offset) v) l =
      if l = .outgoing offset then v.setWidth 128 else ctx.content c l := by
  cases l with
  | register s =>
    rw [if_neg (fun heq => nomatch heq)]
    exact Cpu.register_writeWord
  | stack area offset' =>
    have hstack : ctx.SameStack c (c.writeWord (ctx.place c .outgoing offset) v) :=
      ⟨Cpu.general_writeWord, Cpu.general_writeWord⟩
    rw [content, content, hstack.place, Cpu.memory_writeWord]
    by_cases heq : Location.stack area offset' = .outgoing offset
    · obtain ⟨rfl, rfl⟩ := Location.stack.inj heq
      rw [if_pos rfl, Memory.readWord_writeWord]
    · rw [if_neg heq,
        Memory.readWord_writeWord_of_apart (hroom.apart offset hoffset area offset' hl heq)]

/-- Writing the temporary register has no effect on what is in use. -/
theorem content_setTemporary (hroom : ctx.Room c inUse) (hl : inUse l) :
    ctx.content (c.setRegister ctx.temporary v) l = ctx.content c l := by
  have hstack : ctx.SameStack c (c.setRegister ctx.temporary v) :=
    hroom.sameStack (Or.inl rfl) fun s hs => Cpu.register_setRegister_ne hs
  cases l with
  | register s => exact Cpu.register_setRegister_ne (hroom.registers s hl).2.1
  | stack area offset => rw [content, content, hstack.place, Cpu.memory_setRegister]

/-- The bytes of a stack argument that a move writes. -/
def WrittenBy (ctx : MoveContext) (c : Cpu) (m : Move) (a : Word) : Prop :=
  ∃ area offset, m.target = .stack area offset ∧ a ∈ Extent.word (ctx.place c area offset)

/-- **The code for a move does what the move says**, and moves neither the stack nor any byte that
the move does not write. -/
theorem content_lower (hroom : ctx.Room c inUse) (h : ctx.lower m = .ok is)
    (hs : inUse m.source) (ht : inUse m.target) (hout : ∀ offset, m.target ≠ .incoming offset) :
    ctx.SameStack c (c.executeAll w is) ∧
      (∀ l, inUse l →
        ctx.content (c.executeAll w is) l = m.carry Location.way (ctx.content c) l) ∧
      ∀ a, ¬ ctx.WrittenBy c m a → (c.executeAll w is).memory.byte a = c.memory.byte a := by
  rcases lower_eq_ok h with ⟨source, target, rfl, rfl⟩ |
    ⟨source, area, offset, base, imm, rfl, ha, rfl⟩ |
    ⟨area, offset, target, base, imm, rfl, ha, rfl⟩ |
    ⟨area, offset, area', offset', base, imm, base', imm', rfl, ha, ha', rfl⟩
  · -- from register to register
    have hexec : c.executeAll w [.move target source] =
        c.setRegister target
          (Location.way (.register source) (.register target) (c.register source)) := by
      rw [Cpu.executeAll_cons, Cpu.executeAll_nil, Cpu.execute_move, Location.way_register]
      rfl
    rw [hexec]
    refine ⟨hroom.sameStack (Or.inr ht) fun s hs => Cpu.register_setRegister_ne hs,
      ?_, fun a _ => by rw [Cpu.memory_setRegister]⟩
    intro l hl
    rw [content_setRegister hroom ht _ hl]
    · rfl
    · intro hg
      rw [Location.way_register, if_pos (Or.inl hg), setWidth_setWidth_word]
  · -- from a register to the stack
    obtain rfl : area = .outgoing := by
      cases area
      · exact absurd rfl (hout offset)
      · rfl
    have hexec : c.executeAll w [.store source base imm] =
        c.writeWord (ctx.place c .outgoing offset) (c.low source) := by
      rw [Cpu.executeAll_cons, Cpu.executeAll_nil, Cpu.execute, address_eq_ok ha]
    rw [hexec]
    refine ⟨⟨Cpu.general_writeWord, Cpu.general_writeWord⟩, ?_, ?_⟩
    · intro l hl
      rw [content_writeWord hroom ht hl, Move.carry, Location.way_stack]
      rfl
    · intro a hna
      rw [Cpu.memory_writeWord]
      exact Memory.byte_writeWord_of_not_mem fun hmem => hna ⟨_, _, rfl, hmem⟩
  · -- from the stack to a register
    have hexec : c.executeAll w [.load target base imm] =
        c.setRegister target ((c.memory.readWord (ctx.place c area offset)).setWidth 128) := by
      rw [Cpu.executeAll_cons, Cpu.executeAll_nil, Cpu.execute, address_eq_ok ha]
    rw [hexec]
    refine ⟨hroom.sameStack (Or.inr ht) fun s hs => Cpu.register_setRegister_ne hs,
      ?_, fun a _ => by rw [Cpu.memory_setRegister]⟩
    intro l hl
    rw [content_setRegister hroom ht (fun _ => by rw [setWidth_setWidth_word]) hl, Move.carry]
    simp only [Location.way, content, setWidth_setWidth_word]
  · -- from the stack to the stack, by way of the temporary register
    obtain rfl : area' = .outgoing := by
      cases area'
      · exact absurd rfl (hout offset')
      · rfl
    generalize hv : (c.memory.readWord (ctx.place c area offset)).setWidth 128 = v
    have hstack : ctx.SameStack c (c.setRegister ctx.temporary v) :=
      hroom.sameStack (Or.inl rfl) fun s hs => Cpu.register_setRegister_ne hs
    have hlow : (c.setRegister ctx.temporary v).low ctx.temporary = v.setWidth 64 := by
      rw [Cpu.low, Cpu.register_setRegister _ _ _ hroom.temporary.2.1, if_pos hroom.temporary.1,
        setWidth_setWidth_word]
    have hexec : c.executeAll w [.load ctx.temporary base imm, .store ctx.temporary base' imm'] =
        (c.setRegister ctx.temporary v).writeWord
          (ctx.place (c.setRegister ctx.temporary v) .outgoing offset') (v.setWidth 64) := by
      rw [Cpu.executeAll_cons, Cpu.executeAll_cons, Cpu.executeAll_nil, Cpu.execute, Cpu.execute,
        address_eq_ok ha, address_eq_ok ha', hv, hlow]
    rw [hexec]
    refine ⟨⟨Cpu.general_writeWord.trans hstack.1, Cpu.general_writeWord.trans hstack.2⟩, ?_, ?_⟩
    · intro l hl
      rw [content_writeWord (hroom.congr hstack) ht hl, content_setTemporary hroom hl, Move.carry,
        Location.way_stack, content, hv]
    · intro a hna
      rw [Cpu.memory_writeWord, Cpu.memory_setRegister, hstack.place]
      exact Memory.byte_writeWord_of_not_mem fun hmem => hna ⟨_, _, rfl, hmem⟩

/-! ## Many moves -/

theorem mem_draft {moves : List Move} {i : Instruction}
    (hi : i ∈ Draft.code (moves.map ctx.lower)) :
    ∃ m ∈ moves, i.isPlain = true ∧ i.isSteady = true ∧
      ∀ r ∈ i.written, m.target = .register r ∨ r = ctx.temporary := by
  obtain ⟨piece, hpiece, hi⟩ := List.mem_flatMap.1 hi
  obtain ⟨m, hm, rfl⟩ := List.mem_map.1 hpiece
  cases h : ctx.lower m with
  | error e =>
    rw [h] at hi
    cases hi
  | ok is =>
    rw [h] at hi
    exact ⟨m, hm, mem_lower h hi⟩

/-- **The code for a list of moves does what the moves say one after the other.** -/
theorem content_draft {moves : List Move} (hroom : ctx.Room c inUse)
    (hcomplete : Draft.Complete (moves.map ctx.lower))
    (hmoves : ∀ m ∈ moves, inUse m.source ∧ inUse m.target ∧
      ∀ offset, m.target ≠ .incoming offset) :
    ctx.SameStack c (c.executeAll w (Draft.code (moves.map ctx.lower))) ∧
      (∀ l, inUse l →
        ctx.content (c.executeAll w (Draft.code (moves.map ctx.lower))) l =
          carryAll Location.way moves (ctx.content c) l) ∧
      ∀ a, (∀ m ∈ moves, ¬ ctx.WrittenBy c m a) →
        (c.executeAll w (Draft.code (moves.map ctx.lower))).memory.byte a = c.memory.byte a := by
  induction moves generalizing c with
  | nil => exact ⟨⟨rfl, rfl⟩, fun _ _ => rfl, fun _ _ => rfl⟩
  | cons m rest ih =>
    rw [List.map_cons, Draft.complete_cons] at hcomplete
    obtain ⟨⟨is, his⟩, hrest⟩ := hcomplete
    obtain ⟨hs, ht, hout⟩ := hmoves m List.mem_cons_self
    obtain ⟨hstack, hcontent, hbytes⟩ := content_lower (w := w) hroom his hs ht hout
    have hlater : ∀ m' ∈ rest, inUse m'.source ∧ inUse m'.target ∧
        ∀ offset, m'.target ≠ .incoming offset :=
      fun m' hm' => hmoves m' (List.mem_cons_of_mem _ hm')
    obtain ⟨hstack', hcontent', hbytes'⟩ := ih (hroom.congr hstack) hrest hlater
    rw [List.map_cons, his, Draft.code_cons_ok, Cpu.executeAll_append]
    refine ⟨⟨hstack'.1.trans hstack.1, hstack'.2.trans hstack.2⟩, ?_, ?_⟩
    · intro l hl
      rw [hcontent' l hl, carryAll_cons]
      exact carryAll_congr (fun m' hm' => (hlater m' hm').1) hcontent hl
    · intro a ha
      rw [hbytes', hbytes a (ha m List.mem_cons_self)]
      intro m' hm' ⟨area, offset, htarget, hmem⟩
      rw [hstack.place] at hmem
      exact ha m' (List.mem_cons_of_mem _ hm') ⟨area, offset, htarget, hmem⟩

end MoveContext

/-! ## What arrives -/

namespace Shuffle

variable (s : Shuffle)

/-- What arrives at the target of a value that the shuffle moves: all of one that stays, and of any
other what gets through, on its way to the scratch register and on if it is parked there. -/
def arrival (m : Move) (v : Quad) : Quad :=
  if m.source = m.target then v
  else if ⟨m.source, .register s.scratch⟩ ∈ s.moves then
    Location.way (.register s.scratch) m.target
      (Location.way m.source (.register s.scratch) v)
  else Location.way m.source m.target v

variable {s} {m : Move} {v : Quad}

/-- The lower half of a value arrives in any case. -/
theorem setWidth_arrival : (s.arrival m v).setWidth 64 = v.setWidth 64 := by
  rw [arrival]
  split_ifs
  · rfl
  · rw [Location.setWidth_way, Location.setWidth_way]
  · exact Location.setWidth_way

/-- Between vector registers all of it arrives, unless it has to be parked. -/
theorem arrival_of_isVector {source target : Register} (hs : source.isGeneral = false)
    (ht : target.isGeneral = false)
    (h : source = target ∨ ⟨.register source, .register s.scratch⟩ ∉ s.moves) :
    s.arrival ⟨.register source, .register target⟩ v = v := by
  rw [arrival]
  split_ifs with hstay hparked
  · rfl
  · exact absurd hparked (h.resolve_left fun heq => hstay (congrArg _ heq))
  · simp [Location.way_register, hs, ht]

end Shuffle

end Trampoline
