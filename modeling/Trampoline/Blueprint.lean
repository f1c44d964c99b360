import Trampoline.Boundary
import Trampoline.Frame
import Trampoline.Phase
import Trampoline.SaveArea
import Trampoline.Shuffle.Lowering

/-!
# The plan of a stub, phase by phase

A `Blueprint` is a request with everything worked out that its code depends on: the boundary, the
shuffle, the registers that hooks and exceptions use.  From it follow the frame
(`Blueprint.layout`) and the code of each phase (`Blueprint.draft`).

On entry the arguments and the registers that the caller wants back are saved, the entry hook is
called, the arguments are reloaded and shuffled, and the receiver is resolved.  Then the method is
called at its current entry.  On the way out the result is collected and saved, the exit hook is
called, and everything is restored in the opposite order, the result last.  An exception enters
behind the return, and does not come back.
-/

set_option autoImplicit false

namespace Trampoline

/-- A request with what its code depends on. -/
structure Blueprint where
  request : Request
  boundary : Boundary
  /-- The native register of a hook's argument. -/
  hookArg : Register
  /-- The native register of a hook's result. -/
  hookResult : Register
  /-- The register in which the runtime delivers an exception. -/
  exception : Register
  shuffle : Shuffle

/-- Works out what the code for a request depends on. -/
def Request.blueprint (r : Request) : Except Error Blueprint := do
  let boundary ← r.boundary
  let hookArg ← r.native.first .intArgs
  let hookResult ← r.native.first .intReturns
  let exception ← r.runtime.first .intReturns
  let shuffle ← Shuffle.between boundary.nativeArgs boundary.runtimeArgs r.target.roles.shuffle
  return { request := r, boundary, hookArg, hookResult, exception, shuffle }

/-- The bytes that `enter` pushes: frame pointer and link register. -/
def enterBytes : Nat := 16

/-- The distance from the thread to the word that says which method it is about to call. -/
def calleeOffset : Imm := 0x48

/-- The offsets in the frame that instructions carry as immediates, apart from those of save
areas. -/
structure FrameOffsets where
  size : Imm
  data : Imm
  buffer : Option (Imm × Register)

namespace Blueprint

variable (b : Blueprint)

/-! ## The frame -/

/-- The native argument registers, which the entry hook may destroy. -/
def argSave : SaveArea := ⟨b.boundary.nativeArgs.registers, .whole⟩

/-- The native return registers, which the exit hook may destroy. -/
def resultSave : SaveArea := ⟨b.boundary.nativeReturns.registers, .whole⟩

/-- The registers that the native caller wants preserved. -/
def calleeSave : SaveArea := ⟨b.request.native.preserved b.request.target.file, .low⟩

/-- How much room the stub needs. -/
def demand : Frame.Demand :=
  { Frame.Demand.ofConvention b.request.native with
    outSlots := b.shuffle.outSlots
    resultBytes := b.resultSave.bytes
    argBytes := b.argSave.bytes
    calleeBytes := b.calleeSave.bytes
    returnBuffer := b.boundary.buffer.map Prod.fst }

/-- The frame of the stub. -/
def layout : Frame.Layout := b.demand.layout

/-- The offsets as immediates, if they fit. -/
def offsets : Except Error FrameOffsets := do
  let size ← immediate b.layout.size
  let data ← immediate (b.layout.offset .frameData)
  match b.boundary.buffer with
  | none => return { size, data, buffer := none }
  | some (_, reg) =>
    match b.layout.span? .returnBuffer with
    | none => throw .noBufferRegion
    | some span => return { size, data, buffer := some (← immediate span.offset, reg) }

/-! ## Code -/

/-- Index of the stack pointer. -/
def sp : RegIndex := b.request.target.file.stackPointer.index

/-- Puts the address of a place in the frame into a register. -/
def frameAddress (reg : Register) (offset : Imm) : Instruction := .addImm reg.index b.sp offset

/-- Calls an address. -/
def callAddress (address : Word) : List Instruction :=
  let scratch := b.request.target.roles.scratch.index
  [.loadImm scratch address, .call scratch]

/-- Where moves find the stack arguments. -/
def moveContext : MoveContext where
  framePointer := b.request.target.file.framePointer
  stackPointer := b.request.target.file.stackPointer
  incomingBase := enterBytes + b.request.native.shadowSpace
  temporary := b.request.target.roles.secondScratch

/-- Instructions that belong together, between two comments. -/
def block (title : String) (d : Draft) : Draft :=
  [.ok [.comment ("\x7b " ++ title)]] ++ d ++ [.ok [.comment ("\x7d " ++ title)]]

/-- Sets up the frame. -/
def prologue (o : FrameOffsets) : Draft := [.ok [.enter, .addImm b.sp b.sp (-o.size)]]

/-- Calls a hook with the address of the frame's record. -/
def callHook (o : FrameOffsets) (hook : Hook) : List Instruction :=
  b.frameAddress b.hookArg o.data :: b.callAddress hook.address

/-- Calls the entry hook and keeps the thread. -/
def onEntry (o : FrameOffsets) : Draft :=
  block "on_entry"
    [.ok (b.callHook o b.request.hooks.onEntry),
      .ok [.move (.general b.request.target.roles.thread.index) (.general b.hookResult.index)]]

/-- Reloads the arguments, moves them to where the runtime wants them, and says where results go. -/
def shuffleArgs (o : FrameOffsets) : Draft :=
  block "argument shuffle" <|
    b.argSave.fill b.request.target.file.stackPointer (b.layout.offset .argSave) ++
      b.shuffle.draft b.moveContext ++
      match o.buffer with
      | none => []
      | some (offset, reg) => [.ok [b.frameAddress reg offset]]

/-- Puts the receiver into its register. -/
def resolveReceiver : Draft :=
  let roles := b.request.target.roles
  block "receiver"
    [.ok
      [.loadImm roles.shuffle.index b.request.receiver.raw,
        .resolve roles.shuffle.index roles.thread.index roles.secondScratch.index,
        .move (.general b.boundary.receiver.index) (.general roles.shuffle.index)]]

/-- Tells the thread which method is called, and calls it at its current entry. -/
def invoke : Draft :=
  let roles := b.request.target.roles
  [.ok
    [.loadImm roles.method.index b.request.method.metadata,
      .store (.general roles.method.index) roles.thread.index calleeOffset,
      .loadAcquire roles.scratch.index roles.method.index cellOffset,
      .call roles.scratch.index]]

/-- Loads the native return registers from the return buffer, if there is one. -/
def handleResult (o : FrameOffsets) : Draft :=
  let scratch := b.request.target.roles.scratch
  match o.buffer with
  | none => []
  | some (offset, _) =>
    .ok [b.frameAddress scratch offset] ::
      b.resultSave.slots.map fun (reg, slot) => addressed slot (.load reg scratch.index)

/-- Takes down the frame. -/
def epilogue : Draft := [.ok [.leave, .ret]]

/-- Hands over an exception, from which there is no way back. -/
def exceptionHandler : Draft :=
  block "exception handler"
    [.ok (.move (.general b.hookArg.index) (.general b.exception.index) ::
        b.callAddress b.request.hooks.uncaught.address),
      .ok [.trap]]

/-- The code of a phase. -/
def draft (o : FrameOffsets) : Phase → Draft
  | .prologue => b.prologue o
  | .spillArgs => b.argSave.spill b.request.target.file.stackPointer (b.layout.offset .argSave)
  | .preserveCallee =>
    b.calleeSave.spill b.request.target.file.stackPointer (b.layout.offset .calleeSave)
  | .onEntry => b.onEntry o
  | .shuffleArgs => b.shuffleArgs o
  | .resolveReceiver => b.resolveReceiver
  | .invoke => b.invoke
  | .handleResult => b.handleResult o
  | .spillResult =>
    b.resultSave.spill b.request.target.file.stackPointer (b.layout.offset .resultSave)
  | .onExit => block "on_exit" [.ok (b.callHook o b.request.hooks.onExit)]
  | .restoreCallee =>
    b.calleeSave.fill b.request.target.file.stackPointer (b.layout.offset .calleeSave)
  | .fillResult =>
    b.resultSave.fill b.request.target.file.stackPointer (b.layout.offset .resultSave)
  | .epilogue => epilogue
  | .exceptionHandler => b.exceptionHandler

end Blueprint

end Trampoline
