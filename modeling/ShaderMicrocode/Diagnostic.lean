import ShaderMicrocode.DecodeError
import ShaderMicrocode.Fetch.Dimension
/-!
# Diagnostics

What is recorded on a shader when something in it is wrong, or when a backend objects to it.
-/
namespace ShaderMicrocode

/-- The two kinds of objection that a backend may raise. -/
inductive Objection where
  | general (message : String)
  | unimplemented (message : String)
deriving DecidableEq, Inhabited

inductive Diagnostic where
  | undecodable (error : DecodeError)
  | textureConflict (slot : UInt32) (first other : Fetch.Dimension)
  | targetPastEnd (target : UInt32) (length : Nat)
  | raised (objection : Objection)
deriving DecidableEq, Inhabited

namespace Diagnostic

def kind : Diagnostic → ErrorKind
  | undecodable e => e.kind
  | textureConflict .. | targetPastEnd .. | raised (.general _) => .generalTranslationError
  | raised (.unimplemented _) => .unimplementedInstruction

def message : Diagnostic → String
  | undecodable e => e.message
  | textureConflict slot first other =>
    "texture fetch constant " ++ decimal slot ++ " sampled as both " ++ first.name ++ " and " ++ other.name
  | targetPastEnd target length =>
    "branch target L" ++ decimal target ++ " is past the end of control flow (" ++ length.repr ++ " instructions)"
  | raised (.general m) | raised (.unimplemented m) => m

def text (d : Diagnostic) : String := d.kind.text ++ ": " ++ d.message

end Diagnostic

end ShaderMicrocode
