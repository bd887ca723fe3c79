import ShaderMicrocode.Backend.Recording
import ShaderMicrocode.Main
import ShaderMicrocode.Proofs.Extent
import ShaderMicrocode.Proofs.Simulation
import ShaderMicrocode.Proofs.Trace
import ShaderMicrocode.Proofs.Acts
import ShaderMicrocode.Proofs.Cut
import ShaderMicrocode.Proofs.Steps
import ShaderMicrocode.Proofs.Errors
import ShaderMicrocode.Proofs.Truncation
import ShaderMicrocode.Proofs.Walk
import ShaderMicrocode.Proofs.Protocol
import ShaderMicrocode.Proofs.Targets
import ShaderMicrocode.Proofs.Defects
import ShaderMicrocode.Proofs.Fetches
import ShaderMicrocode.Proofs.VertexBindings
import ShaderMicrocode.Proofs.Legality
import ShaderMicrocode.Proofs.TextureBindings
import ShaderMicrocode.Proofs.Verdict
import ShaderMicrocode.Proofs.Accounting
import ShaderMicrocode.Proofs.Labels
import ShaderMicrocode.Proofs.Containment
import ShaderMicrocode.Proofs.FetchCodec
import ShaderMicrocode.Proofs.ControlFlowCodec
import ShaderMicrocode.Proofs.Retranslation
import ShaderMicrocode.Proofs.BoundTextures
import ShaderMicrocode.Proofs.AluCodec
import ShaderMicrocode.Proofs.Assembly
import ShaderMicrocode.Proofs.Words
import ShaderMicrocode.Proofs.MiniFetches
import ShaderMicrocode.Proofs.Slots
import ShaderMicrocode.Proofs.Entries
import ShaderMicrocode.Proofs.Decoded
import ShaderMicrocode.Proofs.Payloads
import ShaderMicrocode.Proofs.ColorTargets
import ShaderMicrocode.Proofs.Texts
import ShaderMicrocode.Proofs.LineCounts
import ShaderMicrocode.Proofs.OperandTexts
import ShaderMicrocode.Proofs.Lockstep
import ShaderMicrocode.Proofs.AluLines
import ShaderMicrocode.Proofs.Dumps
import ShaderMicrocode.Proofs.Tracing
import ShaderMicrocode.Proofs.Arithmetic
import ShaderMicrocode.Proofs.Counters
