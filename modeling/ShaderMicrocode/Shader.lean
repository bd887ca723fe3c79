import ShaderMicrocode.Bindings
import ShaderMicrocode.ByteOrder
/-!
# Shaders

A shader is its stage and its dwords, together with all that its last translation found.
-/
namespace ShaderMicrocode

/-- The render targets that a shader writes. -/
structure ColorTargets where
  flags : Vector Bool 4
deriving DecidableEq, Inhabited

namespace ColorTargets

def none : ColorTargets := ⟨.replicate 4 false⟩

def contains (c : ColorTargets) (i : Nat) : Bool := c.flags[i]?.getD false

/-- Numbers without a render target change nothing. -/
def mark (c : ColorTargets) (i : Nat) : ColorTargets := ⟨c.flags.setIfInBounds i true⟩

end ColorTargets

structure Shader where
  stage : Stage
  words : Array UInt32
  vertexBindings : List VertexBinding
  textureBindings : List TextureBinding
  errors : List Diagnostic
  artifact : ByteArray
  disassembly : String
  colorTargets : ColorTargets
  /-- Translated without errors. -/
  isValid : Bool
  isTranslated : Bool
deriving Inhabited

namespace Shader

/-- A shader that has not been translated. -/
def new (stage : Stage) (words : Array UInt32) : Shader where
  stage := stage
  words := words
  vertexBindings := []
  textureBindings := []
  errors := []
  artifact := .empty
  disassembly := ""
  colorTargets := .none
  isValid := false
  isTranslated := false

/-- The shader without the results of an earlier translation. -/
def cleared (shader : Shader) : Shader :=
  { shader with
    vertexBindings := []
    textureBindings := []
    errors := []
    artifact := .empty
    disassembly := ""
    colorTargets := .none
    isValid := false
    isTranslated := false }

/-- The bindings that the shader holds, before any fetch is seen. -/
def held (shader : Shader) : Bindings :=
  { Bindings.empty with
    vertex := shader.vertexBindings
    texture := shader.textureBindings }

/-- The shader of a dump; nothing when the last dword is cut short. -/
def ofBytes? (stage : Stage) (order : ByteOrder) (bytes : List UInt8) : Option Shader :=
  (order.words? bytes).map fun ws => new stage ws.toArray

/-- The message for a dump of `length` bytes that cannot be split into dwords. -/
def partialWordMessage (length : Nat) : String :=
  "Invalid microcode: length " ++ length.repr ++ " is not a multiple of 4"

end Shader

end ShaderMicrocode
