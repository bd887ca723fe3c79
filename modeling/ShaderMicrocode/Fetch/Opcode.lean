/-!
# Fetch opcodes

The fetch operations and the codes that select them.
-/
namespace ShaderMicrocode.Fetch

inductive Opcode where
  | vertexFetch
  | textureFetch
  | getBorderColorFraction
  | getComputedLod
  | getGradients
  | getWeights
  | setLod
  | setGradientsHorizontal
  | setGradientsVertical
deriving DecidableEq, Inhabited

namespace Opcode

def all : List Opcode :=
  [vertexFetch, textureFetch, getBorderColorFraction, getComputedLod, getGradients, getWeights, setLod,
    setGradientsHorizontal, setGradientsVertical]

def code : Opcode → UInt32
  | vertexFetch => 0
  | textureFetch => 1
  | getBorderColorFraction => 16
  | getComputedLod => 17
  | getGradients => 18
  | getWeights => 19
  | setLod => 24
  | setGradientsHorizontal => 25
  | setGradientsVertical => 26

def ofCode? (n : UInt32) : Option Opcode := all.find? (·.code == n)

theorem code_of_ofCode? {n : UInt32} {op : Opcode} (h : ofCode? n = some op) : op.code = n := by
  simpa using List.find?_some h

def name : Opcode → String
  | vertexFetch => "vfetch"
  | textureFetch => "tfetch"
  | getBorderColorFraction => "getBCF"
  | getComputedLod => "getCompTexLOD"
  | getGradients => "getGradients"
  | getWeights => "getWeights"
  | setLod => "setTexLOD"
  | setGradientsHorizontal => "setGradientH"
  | setGradientsVertical => "setGradientV"

/-- Operations that only change sampler state and name no fetch constant. -/
def isStateWrite : Opcode → Bool
  | setLod | setGradientsHorizontal | setGradientsVertical => true
  | _ => false

end Opcode

end ShaderMicrocode.Fetch
