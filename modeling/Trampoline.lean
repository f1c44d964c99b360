import Trampoline.CommandLine.Session
import Trampoline.Machine.Standin
import Trampoline.Main
import Trampoline.Proofs.Alignment
import Trampoline.Proofs.Delivery
import Trampoline.Proofs.Description
import Trampoline.Proofs.Failures
import Trampoline.Proofs.FrameDiscipline
import Trampoline.Proofs.HookArguments
import Trampoline.Proofs.Offsets
import Trampoline.Proofs.OutgoingArguments
import Trampoline.Proofs.Placement
import Trampoline.Proofs.Preservation
import Trampoline.Proofs.Presets
import Trampoline.Proofs.Protocol
import Trampoline.Proofs.RegisterFields
import Trampoline.Proofs.Restoration
import Trampoline.Proofs.ResultPath
import Trampoline.Proofs.Results
import Trampoline.Proofs.Serialization
import Trampoline.Proofs.Shuffle.Refinement
import Trampoline.Proofs.Signature
import Trampoline.Stub.Serialized
