import Trampoline.Proofs.Machine.Trace
import Trampoline.Proofs.Stub.Contract
import Trampoline.Proofs.Stub.Hooks

/-!
# In what order a stub makes its calls

A run of a stub goes by a plan: the entry hook, the method at its current entry, the exit hook, and
then it returns.  It departs from the plan only if called code does not return.  An exception puts
an end to the plan; what is still called is the hook for uncaught exceptions, and behind it is the
trap.

`Protocol` says this of the calls and the exit of a run, with one constructor for each way in which
a call can end.  `Request.follows_protocol` is that every run of a stub is like this, whatever has
happened to the machine before: other runs, however they ended, and new entries for the method.  The
entry that a run calls is the one that the method's cell holds when the entry hook is done.
-/

set_option autoImplicit false

namespace Trampoline

/-! ## The protocol -/

/-- What happens behind an exception: one call, and a trap if it returns. -/
inductive Handled (uncaught : Word) (trap : Nat) : List Call → Exit → Prop
  | returns {call : Call} (address : call.address = uncaught) (outcome : call.outcome = .returns) :
    Handled uncaught trap [call] (.trapped trap)
  | terminates {call : Call} (address : call.address = uncaught)
    (outcome : call.outcome = .terminates) : Handled uncaught trap [call] (.terminated call.name)
  | objects {call : Call} (address : call.address = uncaught)
    (outcome : call.outcome = .objects) : Handled uncaught trap [call] .objected

/-- The calls and the exit of a run that goes by a plan.  The plan says for each call where it goes,
in terms of the entries that the cells hold when the call before it has returned; they hold them
still when the call is made. -/
inductive Protocol (uncaught : Word) (trap : Nat) :
    List (Cells → Word) → Cells → List Call → Exit → Prop
  | done {cells : Cells} : Protocol uncaught trap [] cells [] .returned
  | returns {next : Cells → Word} {plan : List (Cells → Word)} {cells : Cells} {call : Call}
    {calls : List Call} {exit : Exit} (address : call.address = next cells)
    (held : call.before.cells = cells) (outcome : call.outcome = .returns)
    (rest : Protocol uncaught trap plan call.after.cells calls exit) :
    Protocol uncaught trap (next :: plan) cells (call :: calls) exit
  | throws {next : Cells → Word} {plan : List (Cells → Word)} {cells : Cells} {call : Call}
    {calls : List Call} {exit : Exit} {exception : Word} (address : call.address = next cells)
    (held : call.before.cells = cells) (outcome : call.outcome = .throws exception)
    (rest : Handled uncaught trap calls exit) :
    Protocol uncaught trap (next :: plan) cells (call :: calls) exit
  | terminates {next : Cells → Word} {plan : List (Cells → Word)} {cells : Cells} {call : Call}
    (address : call.address = next cells) (held : call.before.cells = cells)
    (outcome : call.outcome = .terminates) :
    Protocol uncaught trap (next :: plan) cells [call] (.terminated call.name)
  | objects {next : Cells → Word} {plan : List (Cells → Word)} {cells : Cells} {call : Call}
    (address : call.address = next cells) (held : call.before.cells = cells)
    (outcome : call.outcome = .objects) :
    Protocol uncaught trap (next :: plan) cells [call] .objected

section

variable {uncaught : Word} {trap : Nat} {next : Cells → Word} {plan : List (Cells → Word)}
  {cells : Cells} {calls : List Call} {exit : Exit}

theorem Handled.of_returns (h : Handled uncaught trap calls exit)
    (hcalls : ∀ call ∈ calls, call.address = uncaught → call.outcome = .returns) :
    ∃ call, calls = [call] ∧ call.address = uncaught ∧ exit = .trapped trap := by
  cases h with
  | returns address => exact ⟨_, rfl, address, rfl⟩
  | terminates address outcome | objects address outcome =>
    cases outcome.symm.trans (hcalls _ (by simp) address)

theorem Protocol.of_returns (h : Protocol uncaught trap (next :: plan) cells calls exit)
    (hcalls : ∀ call ∈ calls, call.address = next cells → call.outcome = .returns) :
    ∃ call rest, calls = call :: rest ∧ call.address = next cells ∧ call.before.cells = cells ∧
      Protocol uncaught trap plan call.after.cells rest exit := by
  cases h with
  | returns address held _ rest => exact ⟨_, _, rfl, address, held, rest⟩
  | throws address _ outcome | terminates address _ outcome | objects address _ outcome =>
    cases outcome.symm.trans (hcalls _ (by simp) address)

theorem Protocol.of_throws (h : Protocol uncaught trap (next :: plan) cells calls exit)
    (hcalls : ∀ call ∈ calls, call.address = next cells →
      ∃ exception, call.outcome = .throws exception) :
    ∃ call rest, calls = call :: rest ∧ call.address = next cells ∧
      Handled uncaught trap rest exit := by
  cases h with
  | throws address _ _ rest => exact ⟨_, _, rfl, address, rest⟩
  | returns address _ outcome | terminates address _ outcome | objects address _ outcome =>
    obtain ⟨exception, hthrows⟩ := hcalls _ (by simp) address
    cases outcome.symm.trans hthrows

end

/-- Where a stub means to call. -/
def Request.plan (r : Request) : List (Cells → Word) :=
  [fun _ => r.hooks.onEntry.address, fun cells => cells.load r.method.cell,
    fun _ => r.hooks.onExit.address]

/-- What can happen to a machine with a stub. -/
inductive Event
  | run
  /-- The method gets another entry. -/
  | retarget (entry : Word)
  /-- The native caller goes on, and leaves this in registers and memory. -/
  | proceed (cpu : Cpu)

namespace Machine

variable {σ : Type} {m : Machine σ} {stub : Stub} {cell : CellId}

/-- The machine after an event. -/
def undergo (stub : Stub) (cell : CellId) (m : Machine σ) : Event → Machine σ
  | .run => (m.run stub).1
  | .retarget entry => { m with cpu := { m.cpu with cells := m.cpu.cells.retarget cell entry } }
  | .proceed cpu => { m with cpu := { cpu with cells := m.cpu.cells } }

theorem alike_undergo {event : Event} : m.Alike (m.undergo stub cell event) := by
  cases event with
  | run => exact alike_runFrom
  | retarget | proceed => exact ⟨rfl, rfl, rfl, rfl, rfl⟩

/-- No history makes another machine of a machine. -/
theorem alike_history (events : List Event) : m.Alike (events.foldl (undergo stub cell) m) := by
  induction events generalizing m with
  | nil => exact Alike.refl m
  | cons event rest ih => exact alike_undergo.trans ih

end Machine

/-- Code is installed wherever a run calls, and the hook for uncaught exceptions does not throw. -/
structure Machine.Equipped {σ : Type} (m : Machine σ) (stub : Stub) : Prop where
  installed : ∀ p here address, m.CallsIn stub p here address → ∃ e, m.externalAt address = some e
  caught : ∀ exception after, ¬ m.ThrowsIn stub .exceptionHandler exception after

/-! ## One run -/

namespace Blueprint

variable {b : Blueprint} {o : FrameOffsets} {stub : Stub} {σ : Type} {m here thrown : Machine σ}
  {p : Phase} {index fuel j : Nat} {exception : Word} {next : Cells → Word}
  {plan : List (Cells → Word)} {is : List Instruction} {c : Cpu}

/-- The byte at which the trap is. -/
def trapOffset (b : Blueprint) (o : FrameOffsets) (stub : Stub) : Nat :=
  (stub.code.offset? (b.callIndex o .exceptionHandler + 1)).getD 0

/-- What is called, when a run is about to make a call. -/
theorem Builds.exists_external (hb : b.Builds o stub) (hm : m.Equipped stub)
    (hp : p ∈ Phase.calling) (hr : m.Reaches stub here (b.callIndex o p)) :
    ∃ e, here.externalAt (here.cpu.general b.request.target.roles.scratch.index) = some e := by
  rw [hr.externalAt]
  exact hm.installed p here _ ((hb.callsIn_iff hp).2 ⟨hr, rfl⟩)

theorem Builds.throwsIn (hb : b.Builds o stub) (hp : p ∈ Phase.calling)
    (ht : m.ThrowsAt stub (b.callIndex o p) exception thrown) :
    m.ThrowsIn stub p exception thrown :=
  ⟨_, ((hb.call_iff hp).2 ⟨rfl, rfl⟩).1, ht⟩

/-- It is enough that there is code everywhere, and that the hook for uncaught exceptions returns
whenever it is called. -/
theorem Sound.equipped (h : b.Sound) (hb : b.Builds o stub) (hfits : b.request.target.file.Fits)
    (hinstalled : ∀ address, ∃ e, m.externalAt address = some e)
    (hcaught : ∀ e, m.externalAt b.request.hooks.uncaught.address = some e →
      ∀ host cpu, (e.act host cpu).1 = .returns) : m.Equipped stub where
  installed _ _ address _ := hinstalled address
  caught := by
    rintro exception after ⟨index, hphase, here, target, e, host, cpu, hreach, hget, he, hact, -⟩
    obtain ⟨rfl, rfl⟩ := (hb.call_iff (by simp)).1 ⟨hphase, hget⟩
    obtain ⟨_, _, thrown, _, rfl⟩ := hb.reaches_uncaught hreach
    rw [(h.hook_toUncaught (c := thrown.cpu) (w := m.wiring) hfits rfl).1] at he
    have hreturns := hcaught e (hreach.externalAt ▸ he) thrown.host
      (thrown.cpu.executeAll m.wiring b.toUncaught)
    rw [hact] at hreturns
    cases hreturns

/-- **Behind an exception.** -/
theorem Sound.handled (h : b.Sound) (hb : b.Builds o stub) (hfits : b.request.target.file.Fits)
    (hm : m.Equipped stub) (ht : m.ThrowsAt stub index exception thrown)
    (hfuel : stub.code.instructions.length ≤ b.phaseIndex o .exceptionHandler + 1 + fuel) :
    Handled b.request.hooks.uncaught.address (b.trapOffset o stub)
      (Machine.restFrom stub fuel thrown (b.phaseIndex o .exceptionHandler + 1)).1
      (Machine.restFrom stub fuel thrown (b.phaseIndex o .exceptionHandler + 1)).2 := by
  have hreach := hb.exists_reaches_uncaught ht
  have hwiring := (Machine.Reaches.after_throw ht hb.startingAt?_handler).wiring
  have htrap := hb.trap_iff.2 rfl
  have hlt := (List.getElem?_eq_some_iff.1 htrap).1
  have hlength : b.toUncaught.length = 2 := rfl
  rw [callIndex] at hlt
  obtain ⟨fuel, rfl⟩ : ∃ n, fuel = n + 2 + 2 := ⟨fuel - 4, by omega⟩
  rw [Machine.restFrom_block hb.hasAt_toUncaught plain_toUncaught (by omega), hwiring, hlength,
    Nat.add_sub_cancel]
  obtain ⟨e, he⟩ := hb.exists_external hm (by simp) hreach
  have haddress := (h.hook_toUncaught (c := thrown.cpu) (w := m.wiring) hfits rfl).1
  generalize hhere : ({ thrown with cpu := thrown.cpu.executeAll m.wiring b.toUncaught } :
    Machine σ) = here at hreach he
  replace haddress : here.cpu.general b.request.target.roles.scratch.index =
    b.request.hooks.uncaught.address := hhere ▸ haddress
  have hget := hb.get_call (p := .exceptionHandler) (by simp)
  change Handled _ _ (Machine.restFrom stub (fuel + 2) here (b.callIndex o .exceptionHandler)).1
    (Machine.restFrom stub (fuel + 2) here (b.callIndex o .exceptionHandler)).2
  rcases hact : e.act here.host here.cpu with ⟨outcome, host, cpu⟩
  cases outcome with
  | returns =>
    rw [Machine.restFrom_returns hget he hact, Machine.restFrom_of_error (Machine.step_trap htrap),
      Machine.callAt?_eq_none htrap fun _ => Instruction.noConfusion]
    exact .returns haddress rfl
  | throws exception =>
    have hthrows := hb.throwsAt (by simp) hreach (hreach.externalAt ▸ he) hact
    exact absurd (hb.throwsIn (by simp) hthrows) (hm.caught _ _)
  | terminates =>
    rw [Machine.restFrom_terminates hget he hact]
    exact .terminates haddress rfl
  | objects =>
    rw [Machine.restFrom_objects hget he hact]
    exact .objects haddress rfl

/-- From here on the run goes by the plan. -/
def Follows (b : Blueprint) (o : FrameOffsets) (stub : Stub) (plan : List (Cells → Word))
    (cells : Cells) (rest : List Call × Exit) : Prop :=
  Protocol b.request.hooks.uncaught.address (b.trapOffset o stub) plan cells rest.1 rest.2

/-- **A call that is planned.**  Whatever it comes to, the run goes by the plan if it does so when
the call returns. -/
theorem Sound.planned_call (h : b.Sound) (hb : b.Builds o stub)
    (hfits : b.request.target.file.Fits) (hm : m.Equipped stub)
    (hp : p ∈ [Phase.onEntry, .invoke, .onExit]) (hr : m.Reaches stub here (b.callIndex o p))
    (hfuel : stub.code.instructions.length ≤ b.callIndex o p + fuel)
    (haddress : here.cpu.general b.request.target.roles.scratch.index = next here.cpu.cells)
    (hrest : ∀ after fuel, m.ReturnsIn stub p here.cpu after.cpu →
      m.Reaches stub after (b.callIndex o p + 1) →
      stub.code.instructions.length ≤ b.callIndex o p + 1 + fuel →
      b.Follows o stub plan after.cpu.cells
        (Machine.restFrom stub fuel after (b.callIndex o p + 1))) :
    b.Follows o stub (next :: plan) here.cpu.cells
      (Machine.restFrom stub fuel here (b.callIndex o p)) := by
  have hp' := Phase.mem_calling hp
  have hget := hb.get_call hp'
  have hlt := (List.getElem?_eq_some_iff.1 hget).1
  have hbehind := callIndex_lt (b := b) (o := o) hp
  rw [← phaseIndex_exceptionHandler] at hbehind
  obtain ⟨fuel, rfl⟩ : ∃ n, fuel = n + 1 := ⟨fuel - 1, by omega⟩
  obtain ⟨e, he⟩ := hb.exists_external hm hp' hr
  rcases hact : e.act here.host here.cpu with ⟨outcome, host, cpu⟩
  cases outcome with
  | returns =>
    have hreturns : m.ReturnsAt stub (b.callIndex o p) here.cpu cpu :=
      ⟨here, _, e, host, hr, rfl, hget, he, hact⟩
    have hstep : here.step stub (b.callIndex o p) =
        ({ here with host, cpu, calls := here.calls.push e.name },
          .ok (b.callIndex o p + 1)) := by
      rw [Machine.step_call hget, Machine.call, he]
      simp only [hact]
    have hrest := hrest _ fuel ((hb.returnsIn_iff hp').2 hreturns) (hr.step hstep) (by omega)
    rw [Machine.restFrom_returns hget he hact]
    exact Protocol.returns haddress rfl rfl hrest
  | throws exception =>
    have hthrows := hb.throwsAt hp' hr (hr.externalAt ▸ he) hact
    rw [Machine.restFrom_throws hget he hact hb.startingAt?_handler]
    exact Protocol.throws haddress rfl rfl (h.handled hb hfits hm hthrows (by omega))
  | terminates =>
    rw [Machine.restFrom_terminates hget he hact]
    exact Protocol.terminates haddress rfl rfl
  | objects =>
    rw [Machine.restFrom_objects hget he hact]
    exact Protocol.objects haddress rfl rfl

/-- The same with the block in front of the call, which leaves the cells alone. -/
theorem Sound.planned (h : b.Sound) (hb : b.Builds o stub) (hfits : b.request.target.file.Fits)
    (hm : m.Equipped stub) (hp : p ∈ [Phase.onEntry, .invoke, .onExit])
    (hr : m.Reaches stub here j) (hat : stub.code.HasAt j is)
    (hplain : ∀ i ∈ is, i.isPlain = true) (hend : b.callIndex o p = j + is.length)
    (hfuel : stub.code.instructions.length ≤ j + fuel) (hc : here.cpu.executeAll m.wiring is = c)
    (haddress : c.general b.request.target.roles.scratch.index = next c.cells)
    (hrest : ∀ after fuel, m.ReturnsIn stub p c after.cpu →
      m.Reaches stub after (b.callIndex o p + 1) →
      stub.code.instructions.length ≤ b.callIndex o p + 1 + fuel →
      b.Follows o stub plan after.cpu.cells
        (Machine.restFrom stub fuel after (b.callIndex o p + 1))) :
    b.Follows o stub (next :: plan) here.cpu.cells (Machine.restFrom stub fuel here j) := by
  have hlt := (List.getElem?_eq_some_iff.1 (hb.get_call (Phase.mem_calling hp))).1
  have hcells : here.cpu.cells = c.cells := by rw [← hc, Cpu.cells_executeAll]
  have hcall := hr.block hat hplain
  rw [hc, ← hend] at hcall
  rw [Machine.restFrom_block hat hplain (by omega), hr.wiring, hc, ← hend, hcells]
  exact h.planned_call hb hfits hm hp hcall (by omega) haddress hrest

/-- When the plan is done, the run returns. -/
theorem Sound.planned_return (h : b.Sound) (hb : b.Builds o stub)
    (henters : m.Enters b.request.target.file)
    (hr : m.Reaches stub here (b.callIndex o .onExit + 1)) (hc : b.OnFrame stub here.cpu)
    (hfuel : stub.code.instructions.length ≤ b.callIndex o .onExit + 1 + fuel) :
    b.Follows o stub [] here.cpu.cells
      (Machine.restFrom stub fuel here (b.callIndex o .onExit + 1)) := by
  obtain ⟨_, _, _, hreturn⟩ := callIndex_eq (b := b) (o := o)
  have hret : stub.code.instructions[b.phaseIndex o .epilogue + 1]? = some .ret :=
    hb.get (p := .epilogue) (k := 1) rfl
  have hlt := (List.getElem?_eq_some_iff.1 hret).1
  obtain ⟨fuel, rfl⟩ : ∃ n, fuel = n + 1 + (b.toReturn o).length :=
    ⟨fuel - 1 - (b.toReturn o).length, by omega⟩
  obtain ⟨last, hlast⟩ : ∃ last, here.cpu.executeAll m.wiring (b.toReturn o) = last := ⟨_, rfl⟩
  have hsp : last.general m.wiring.stack = stackTop := by
    rw [wiring_eq henters] at hlast ⊢
    exact (h.frame_toReturn hb henters.fits hc hlast).1
  rw [Machine.restFrom_block hb.hasAt_blocks.2.2.2 plain_toReturn (by omega), Nat.add_sub_cancel,
    ← hreturn, Machine.restFrom_of_error (Machine.step_ret hret),
    Machine.callAt?_eq_none hret fun _ => Instruction.noConfusion, hr.wiring, hlast]
  change Protocol _ _ _ _ [] (if last.general here.wiring.stack = stackTop then _ else _)
  rw [hr.wiring, if_pos hsp]
  exact .done

/-- **A run goes by the plan**, if code that returns gives the stack back. -/
theorem Sound.follows_plan (h : b.Sound) (hb : b.Builds o stub)
    (henters : m.Enters b.request.target.file) (hm : m.Equipped stub)
    (hcell : m.cellAt b.request.method.cellAddress = some b.request.method.cell)
    (hlimit : stub.code.instructions.length ≤ m.stepLimit)
    (hcalls : ∀ p ∈ [Phase.onEntry, .invoke, .onExit], ∀ before after,
      m.ReturnsIn stub p before after →
        before.Keeps b.request.target.file (fun _ => False) after) :
    b.Follows o stub b.request.plan m.cpu.cells (m.callsOf stub, (m.run stub).2) := by
  obtain ⟨hentry, htarget, hexit, hreturn⟩ := callIndex_eq (b := b) (o := o)
  obtain ⟨hat₁, hat₂, hat₃, hat₄⟩ := hb.hasAt_blocks
  have hfits := henters.fits
  -- the entry hook
  refine h.planned hb hfits hm (p := .onEntry) (by simp) .entry hat₁ plain_toEntryHook
    (by omega) (by omega) rfl ?_ ?_
  · exact (h.hook_behind hb hfits (Hooks.mem_around.2 (Or.inl ⟨rfl, rfl⟩)) rfl).1
  intro hooked fuel hr hreach hfuel
  have hhooked := (h.state_entry hb henters rfl).1.keeps (hcalls _ (by simp) _ _ hr)
  -- the method
  refine h.planned hb hfits hm (p := .invoke) (by simp) hreach hat₂ plain_toTarget htarget hfuel
    rfl ?_ ?_
  · rw [(h.roles_toTarget hb hfits hhooked rfl).2.2.2, Cpu.entry]
    have hwired : m.wiring.cellAt b.request.method.cellAddress =
        some b.request.method.cell := hcell
    rw [hwired]
  intro called fuel hr hreach hfuel
  have hcalled := (h.frame_toTarget hb hfits hhooked rfl).1.keeps (hcalls _ (by simp) _ _ hr)
  -- the exit hook
  refine h.planned hb hfits hm (p := .onExit) (by simp) hreach hat₃ plain_toExitHook hexit hfuel
    rfl ?_ ?_
  · exact (h.hook_behind hb hfits (Hooks.mem_around.2 (Or.inr ⟨rfl, rfl⟩)) rfl).1
  intro done fuel hr hreach hfuel
  have hdone := (h.execute_toExitHook hb hcalled rfl).1.keeps (hcalls _ (by simp) _ _ hr)
  exact h.planned_return hb henters hreach hdone hfuel

end Blueprint

/-! ## Any run -/

namespace Request

variable {σ : Type} {r : Request} {capacity : Nat} {stub : Stub} {m : Machine σ}

/-- **Every run of a stub goes by the plan**, whatever the machine has been through: the entry hook,
the method at the entry that its cell holds then, the exit hook, and the return.  If something
throws, the hook for uncaught exceptions is all that is still called; behind it is the only trap of
the stub, which is part of the handler.

Code has to be installed wherever the run calls, what returns has to give back the stack pointer and
the frame pointer, and the hook for uncaught exceptions must not throw. -/
theorem follows_protocol (hstub : r.generate capacity = .ok stub) (hfile : m.file = r.target.file)
    (hfits : r.target.file.Fits) (hcell : m.cellAt r.method.cellAddress = some r.method.cell)
    (hlimit : stub.code.instructions.length ≤ m.stepLimit) :
    ∃ index trap,
      (∀ k, stub.code.instructions[k]? = some .trap ↔ k = index) ∧
      stub.code.offset? index = some trap ∧ stub.handlerOffset ≤ trap ∧
      ∀ (events : List Event) (now : Machine σ),
        now = events.foldl (Machine.undergo stub r.method.cell) m →
        now.cpu.general r.target.file.stackPointer.index = stackTop →
        now.Equipped stub →
        (∀ p ∈ [Phase.onEntry, .invoke, .onExit], ∀ before after,
          now.ReturnsIn stub p before after →
            before.Keeps r.target.file (fun _ => False) after) →
        Protocol r.hooks.uncaught.address trap r.plan now.cpu.cells (now.callsOf stub)
          (now.run stub).2 := by
  obtain ⟨b, o, hblueprint, hb⟩ := generate_builds hstub
  obtain ⟨rfl, h⟩ := blueprint_sound hblueprint
  have hlt := (List.getElem?_eq_some_iff.1 (hb.trap_iff.2 rfl)).1
  have htrap := stub.code.offset?_of_lt hlt
  refine ⟨_, _, fun k => hb.trap_iff, htrap, hb.handlerOffset_le htrap, ?_⟩
  rintro events now rfl hsp hequipped hcalls
  have halike := @Machine.alike_history σ m stub b.request.method.cell events
  have hfollows := h.follows_plan hb ⟨halike.file.trans hfile, hfits, hsp⟩ hequipped
    (halike.cellAt ▸ hcell) (halike.stepLimit ▸ hlimit) hcalls
  rw [Blueprint.Follows, Blueprint.trapOffset, htrap] at hfollows
  exact hfollows

end Request

namespace Standin

/-- A machine with a cell for the method, which has no entry yet, and with code that throws at the
entry that it is going to have. -/
def cellMachine : Machine Unit :=
  { Machine.new .aarch64 ⟨[0]⟩ () with
    externalAt := fun a => if a = targetEntry then some failing else some busy
    cellAt := fun a => if a = (method 0).cellAddress then some 0 else none }

variable {stub : Stub}

/-- The machine when the method has got its entry. -/
def enteredMachine (stub : Stub) : Machine Unit :=
  [Event.retarget targetEntry].foldl (Machine.undergo stub (method 0).cell) cellMachine

/-- What is installed in such a machine. -/
theorem externalAt_enteredMachine {address : Word} {e : External Unit}
    (he : (enteredMachine stub).externalAt address = some e) :
    (address = targetEntry ∧ e = failing) ∨ (address ≠ targetEntry ∧ e = busy) := by
  change (if address = targetEntry then some failing else some busy) = some e at he
  split at he
  · exact Or.inl ⟨‹_›, (Option.some.inj he).symm⟩
  · exact Or.inr ⟨‹_›, (Option.some.inj he).symm⟩

/-- What returns gives back the stack. -/
theorem keeps_enteredMachine {p : Phase} {before after : Cpu}
    (hr : (enteredMachine stub).ReturnsIn stub p before after) :
    before.Keeps .aarch64 (fun _ => False) after := by
  obtain ⟨address, e, host, host', he, hact⟩ := hr.exists_external
  rcases externalAt_enteredMachine he with ⟨_, rfl⟩ | ⟨_, rfl⟩
  · cases (Prod.mk.inj hact).1
  · obtain rfl := (Prod.mk.inj (Prod.mk.inj hact).2).2
    exact keeps_busy before

/-- Only the method throws, and the hooks leave its cell alone. -/
theorem outcome_enteredMachine {call : Call} (h : call ∈ (enteredMachine stub).callsOf stub) :
    if call.address = targetEntry then call.outcome = .throws 0xE
    else call.outcome = .returns ∧ call.after.cells = call.before.cells := by
  obtain ⟨e, host, host', he, hact⟩ := Machine.exists_of_mem_callsFrom h
  rcases externalAt_enteredMachine he with ⟨haddress, rfl⟩ | ⟨haddress, rfl⟩
  · rw [if_pos haddress]
    exact (Prod.mk.inj hact).1.symm
  · obtain ⟨houtcome, hrest⟩ := Prod.mk.inj hact
    obtain ⟨-, hcells⟩ := Prod.mk.inj hrest
    rw [if_neg haddress, ← houtcome, ← hcells, Cpu.cells_setGeneral, Cpu.cells_clobber]
    exact ⟨rfl, rfl⟩

end Standin

/-- The method gets an entry, and the run calls it. -/
theorem Request.follows_protocol_retargeted :
    ∃ stub trap, (Standin.request Standin.mixed 0).generate defaultCapacity = .ok stub ∧
      ((Standin.enteredMachine stub).callsOf stub).map Call.address =
        [Standin.onEntry, Standin.targetEntry, Standin.uncaught] ∧
      ((Standin.enteredMachine stub).run stub).2 = .trapped trap ∧ stub.handlerOffset ≤ trap := by
  obtain ⟨stub, hstub, _, hlength⟩ := Standin.exists_generate_mixed
  obtain ⟨b, o, hblueprint, hb⟩ := generate_builds hstub
  obtain ⟨hrequest, h⟩ := blueprint_sound hblueprint
  have hequipped : (Standin.enteredMachine stub).Equipped stub := by
    refine h.equipped hb (hrequest ▸ Standin.enters_busyMachine.fits) ?_ ?_
    · intro address
      by_cases haddress : address = Standin.targetEntry
      · exact ⟨Standin.failing, if_pos haddress⟩
      · exact ⟨Standin.busy, if_neg haddress⟩
    · intro e he
      rw [hrequest] at he
      rcases Standin.externalAt_enteredMachine he with ⟨haddress, _⟩ | ⟨_, rfl⟩
      · exact absurd haddress (by decide)
      · exact fun _ _ => rfl
  obtain ⟨index, trap, _, _, htrap, hruns⟩ := follows_protocol (m := Standin.cellMachine) hstub rfl
    Standin.enters_busyMachine.fits rfl (by rw [hlength]; decide)
  have hprotocol := hruns [.retarget Standin.targetEntry] (Standin.enteredMachine stub) rfl
    Standin.enters_busyMachine.stackPointer hequipped
    fun p _ before after hr => Standin.keeps_enteredMachine hr
  refine ⟨stub, trap, hstub, ?_⟩
  have houtcome := @Standin.outcome_enteredMachine stub
  have hhook : ∀ call ∈ (Standin.enteredMachine stub).callsOf stub,
      call.address = Standin.onEntry ∨ call.address = Standin.uncaught →
        call.outcome = .returns ∧ call.after.cells = call.before.cells := by
    intro call hcall haddress
    refine (if_neg ?_).mp (houtcome hcall)
    rcases haddress with haddress | haddress <;> rw [haddress] <;> decide
  generalize (Standin.enteredMachine stub).callsOf stub = calls at hprotocol houtcome hhook
  -- the entry hook returns, and leaves the entry in the cell
  obtain ⟨first, calls, rfl, hfirst, hheld, hprotocol⟩ := hprotocol.of_returns
    fun call hcall haddress => (hhook call hcall (Or.inl haddress)).1
  rw [(hhook first (by simp) (Or.inl hfirst)).2, hheld] at hprotocol
  -- the method throws, and the hook for that returns
  obtain ⟨second, calls, rfl, hsecond, hhandled⟩ := hprotocol.of_throws
    fun call hcall haddress => ⟨_, (if_pos haddress).mp (houtcome (List.mem_cons_of_mem _ hcall))⟩
  obtain ⟨third, rfl, hthird, hexit⟩ := hhandled.of_returns fun call hcall haddress =>
    (hhook call (by simp [hcall]) (Or.inr haddress)).1
  refine ⟨?_, hexit, htrap⟩
  rw [List.map_cons, List.map_cons, List.map_singleton, hfirst, hsecond, hthird]
  rfl

end Trampoline
