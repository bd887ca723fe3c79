import ShaderMicrocode.DecodeError
import ShaderMicrocode.Fetch.Opcode
import ShaderMicrocode.Fetch.Dimension
import ShaderMicrocode.Fetch.TextureWord
/-!
# Texture fetches

A texture fetch or sampler operation with its source, slot and destination resolved, and its text.
-/
namespace ShaderMicrocode.Fetch

/-- How a fetch samples. -/
structure Sampling where
  fetchValidOnly : Bool
  unnormalizedCoordinates : Bool
  magFilter : UInt32
  minFilter : UInt32
  mipFilter : UInt32
  anisoFilter : UInt32
  volMagFilter : UInt32
  volMinFilter : UInt32
  useComputedLod : Bool
  useRegisterLod : Bool
  useRegisterGradients : Bool
  lodBias : Int32
  offsetX : Int32
  offsetY : Int32
  offsetZ : Int32
deriving DecidableEq, Inhabited

structure TextureFetch where
  address : UInt32
  opcode : Opcode
  name : String
  dimension : Dimension
  /-- Absent for the operations that only change sampler state. -/
  slot? : Option UInt32
  predicate : Predicate
  result : Result
  operands : List Operand
  sampling : Sampling
deriving DecidableEq, Inhabited

/-- A plain fetch is named with its dimension. -/
def Opcode.textureName (op : Opcode) (d : Dimension) : String :=
  match op with
  | .textureFetch => op.name ++ d.name
  | _ => op.name

/-- Components of the source that an operation reads. -/
def Opcode.sourceCount (op : Opcode) (d : Dimension) : UInt32 :=
  match op with
  | .setLod => 1
  | .setGradientsHorizontal | .setGradientsVertical => 3
  | _ => d.coordinateCount

namespace TextureWord

def sampling (op : TextureWord) : Sampling where
  fetchValidOnly := op.fetchValidOnly
  unnormalizedCoordinates := op.unnormalizedCoordinates
  magFilter := op.magFilter
  minFilter := op.minFilter
  mipFilter := op.mipFilter
  anisoFilter := op.anisoFilter
  volMagFilter := op.volMagFilter
  volMinFilter := op.volMinFilter
  useComputedLod := op.useComputedLod
  useRegisterLod := op.useRegisterLod
  useRegisterGradients := op.useRegisterGradients
  lodBias := op.lodBias
  offsetX := op.offsetX
  offsetY := op.offsetY
  offsetZ := op.offsetZ

/-- The source register; positions that are not read keep their own name. -/
def sourceOperand (op : TextureWord) (count : UInt32) : Operand :=
  .register op.srcReg op.srcRelative count <| .ofFn fun j =>
    .ofIndex (if j < count.toNat then op.srcSwizzle >>> UInt32.ofNat (2 * j) else UInt32.ofNat j)

/-- The fetch of a word whose opcode is known. -/
def fetch (op : TextureWord) (opcode : Opcode) (address : UInt32) : TextureFetch :=
  let dimension := Dimension.ofCode op.dimension
  let source := op.sourceOperand (opcode.sourceCount dimension)
  { address := address
    opcode := opcode
    name := opcode.textureName dimension
    dimension := dimension
    slot? := if opcode.isStateWrite then none else some op.constIndex
    predicate := op.predicate
    result := if opcode.isStateWrite then .none else fetchResult op.dstReg op.dstRelative op.dstSwizzle
    operands :=
      if opcode.isStateWrite then [source] else [source, .slot .textureFetchConstant op.constIndex]
    sampling := op.sampling }

def resolve (op : TextureWord) (address : UInt32) : Except DecodeError TextureFetch :=
  match Opcode.ofCode? op.opcode with
  | none | some .vertexFetch => .error (.unimplementedFetchOpcode op.opcode)
  | some opcode => .ok (op.fetch opcode address)

end TextureWord

def Sampling.text (s : Sampling) : String :=
  (if s.fetchValidOnly then "" else ", FetchValidOnly=false")
    ++ (if s.unnormalizedCoordinates then ", UnnormalizedTextureCoords=true" else "")
    ++ (if s.useComputedLod then "" else ", UseComputedLOD=false")
    ++ (if s.useRegisterLod then ", UseRegisterLOD=true" else "")
    ++ (if s.useRegisterGradients then ", UseRegisterGradients=true" else "")
    ++ (if s.lodBias = 0 then "" else ", LODBias=" ++ signedDecimal s.lodBias)
    ++ (if s.offsetX = 0 then "" else ", OffsetX=" ++ signedDecimal s.offsetX)
    ++ (if s.offsetY = 0 then "" else ", OffsetY=" ++ signedDecimal s.offsetY)
    ++ (if s.offsetZ = 0 then "" else ", OffsetZ=" ++ signedDecimal s.offsetZ)

namespace TextureFetch

/-- The text without the predicate column; an operation that stores nothing shows no destination. -/
def text (f : TextureFetch) : String :=
  let shown := (if f.result.target = .nowhere then [] else [f.result.text]) ++ f.operands.map Operand.text
  f.name ++ " " ++ ", ".intercalate shown ++ f.sampling.text

end TextureFetch

end ShaderMicrocode.Fetch
