import Trampoline.Machine

/-!
# A runtime to run stubs against

Stubs only make sense with a runtime around them.  This one is as small as it can be: hooks at fixed
addresses, a thread, a method, and a receiver that can be resolved.  Its hooks do what hooks are
entitled to, which is to destroy every volatile register of the native convention, and they look
after each other: the exit hook objects unless it finds in the frame's record what the entry hook
left there.  The hook for uncaught exceptions returns, so that the trap behind it is what ends such
a run.
-/

set_option autoImplicit false

namespace Trampoline.Standin

/-! ## Addresses -/

/-- The address of the entry hook. -/
def onEntry : Word := 0x10000

/-- The address of the exit hook. -/
def onExit : Word := 0x20000

/-- The address of the hook for uncaught exceptions. -/
def uncaught : Word := 0x30000

/-- The entry of the method. -/
def targetEntry : Word := 0x50000

/-- The thread that the entry hook hands over. -/
def thread : Word := 0x60000

/-- The slot that the receiver's handle refers to. -/
def receiverSlot : Word := 0x70000

/-- The object in that slot. -/
def receiverObject : Word := 0xCAFE0000

/-- The metadata of the method. -/
def metadata : Word := 0x90000

/-- The offset of the thread in the frame's record. -/
def threadOffset : Word := 24

/-! ## Requests -/

/-- The hooks of this runtime. -/
def hooks : Hooks where
  onEntry := { name := "on_entry", address := onEntry }
  onExit := { name := "on_exit", address := onExit }
  uncaught := { name := "handle_uncaught_exception", address := uncaught }

/-- The method of this runtime, with its entry in a cell. -/
def method (cell : CellId) : Method := ⟨"Target.invoke", metadata, cell⟩

/-- A request for AArch64 to call the method on the receiver. -/
def request (signature : Signature) (cell : CellId) : Request where
  signature
  method := method cell
  receiver := ⟨receiverSlot⟩
  hooks

/-! ## The machine -/

variable {σ : Type}

/-- Notes the thread in the frame's record, destroys what it may, and returns the thread. -/
def entryHook (b : Blueprint) : External σ where
  name := "on_entry"
  act host cpu :=
    let record := cpu.general b.hookArg.index
    let noted := cpu.writeWord (record + threadOffset) thread
    (.returns, host,
      (noted.clobber b.request.native []).setGeneral b.hookResult.index thread)

/-- Destroys what it may, if the thread is in the frame's record. -/
def exitHook (b : Blueprint) : External σ where
  name := "on_exit"
  act host cpu :=
    let record := cpu.general b.hookArg.index
    if cpu.memory.readWord (record + threadOffset) = thread then
      (.returns, host, cpu.clobber b.request.native [])
    else (.objects, host, cpu)

/-- Does nothing. -/
def uncaughtHook : External σ where
  name := "handle_uncaught_exception"
  act host cpu := (.returns, host, cpu)

/-- A machine with this runtime around the stub of a blueprint.  What the method itself does is left
open. -/
def machine (b : Blueprint) (cells : Cells) (host : σ) : Machine σ :=
  let m := Machine.new b.request.target.file cells host
  let m :=
    { m with
      exceptionRegister := b.exception
      cpu := m.cpu.writeWord b.request.receiver.slot receiverObject }
  ((m.mapCell b.request.method.cellAddress b.request.method.cell).install onEntry
    (entryHook b)).install onExit (exitHook b) |>.install uncaught uncaughtHook

end Trampoline.Standin
