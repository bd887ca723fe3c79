import ShaderMicrocode.Stage
import ShaderMicrocode.Numeral
import ShaderMicrocode.ControlFlow.Opcode
/-!
# Decode errors

Why a word or a program cannot be decoded.
-/
namespace ShaderMicrocode

/-- The category under which an error is recorded. -/
inductive ErrorKind where
  | unimplementedInstruction
  | invalidEncoding
  | generalTranslationError
deriving DecidableEq, Inhabited

def ErrorKind.text : ErrorKind → String
  | unimplementedInstruction => "unimplemented instruction"
  | invalidEncoding => "invalid encoding"
  | generalTranslationError => "translation error"

inductive DecodeError where
  | unimplementedVectorOpcode (opcode : UInt32)
  | unimplementedScalarOpcode (opcode : UInt32)
  | unimplementedFetchOpcode (opcode : UInt32)
  | unimplementedControlFlow (opcode : ControlFlow.Opcode)
  | miniFetchWithoutFullFetch
  | invalidVertexFormat (format : UInt32)
  | invalidExportDestination (dest : UInt32) (stage : Stage)
  | instructionOutOfRange (address : UInt32) (dwordCount : Nat)
  | truncatedControlFlow (offset : Nat)
deriving DecidableEq, Inhabited

namespace DecodeError

def kind : DecodeError → ErrorKind
  | unimplementedVectorOpcode _ | unimplementedScalarOpcode _ | unimplementedFetchOpcode _
  | unimplementedControlFlow _ => .unimplementedInstruction
  | miniFetchWithoutFullFetch | invalidVertexFormat _ | invalidExportDestination .. | instructionOutOfRange ..
  | truncatedControlFlow _ => .invalidEncoding

def message : DecodeError → String
  | unimplementedVectorOpcode n => "unimplemented vector ALU opcode " ++ decimal n
  | unimplementedScalarOpcode n => "unimplemented scalar ALU opcode " ++ decimal n
  | unimplementedFetchOpcode n => "unimplemented fetch opcode " ++ decimal n
  | unimplementedControlFlow op => "unimplemented control flow instruction " ++ op.name
  | miniFetchWithoutFullFetch => "mini vertex fetch without a preceding full fetch"
  | invalidVertexFormat n => "invalid vertex format " ++ decimal n
  | invalidExportDestination dest stage =>
    "invalid export destination " ++ decimal dest ++ " in a " ++ stage.name ++ " shader"
  | instructionOutOfRange address dwordCount =>
    "instruction " ++ decimal address ++ " lies outside the microcode (" ++ dwordCount.repr ++ " dwords)"
  | truncatedControlFlow offset => "control flow ends in a partial instruction pair at dword " ++ offset.repr

/-- What the disassembly shows in place of the instruction. -/
def placeholder (e : DecodeError) : String := "??? (" ++ e.message ++ ")"

end DecodeError

end ShaderMicrocode
