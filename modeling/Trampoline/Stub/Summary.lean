import Trampoline.Json
import Trampoline.Stub

/-!
# Summaries

A summary says what there is to know of a stub without reading its code: sizes, the regions of the
frame, the phases, and the moves of the argument shuffle.
-/

set_option autoImplicit false

namespace Trampoline.Stub

/-- The summary of a stub, with its keys in alphabetical order. -/
def summary (s : Stub) : Json :=
  let regions := s.layout.spans.map fun span =>
    .object [("offset", .number span.offset), ("region", .text span.region.name),
      ("size", .number span.size)]
  let phases := s.marks.map fun mark =>
    .object [("offset", .number mark.offset), ("phase", .text mark.phase.name)]
  .object
    [("code_size", .number s.code.size),
      ("exception_handler_offset", .number s.handlerOffset),
      ("frame_data_offset", .number s.frameDataOffset),
      ("frame_size", .number s.layout.size),
      ("moves", .list (s.shuffle.moves.map fun m => .text m.text)),
      ("name", .text s.name),
      ("out_arg_stack_slots", .number s.shuffle.outSlots),
      ("phases", .list phases),
      ("regions", .list regions)]

end Trampoline.Stub
