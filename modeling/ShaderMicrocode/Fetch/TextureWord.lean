import ShaderMicrocode.Fetch.VertexWord
/-!
# Texture fetch words

The fields of a texture fetch and of the sampler operations that share its layout.
-/
namespace ShaderMicrocode.Fetch

/-! Fields of the first dword, then of the second from `dstSwizzle` on, then of the third from
`useRegisterGradients` on. -/
namespace TextureField
def srcReg : BitField := ⟨5, 6⟩
def srcRelative : BitField := .bit 11
def dstReg : BitField := ⟨12, 6⟩
def dstRelative : BitField := .bit 18
def fetchValidOnly : BitField := .bit 19
def constIndex : BitField := ⟨20, 5⟩
def unnormalizedCoordinates : BitField := .bit 25
def srcSwizzle : BitField := ⟨26, 6⟩
def dstSwizzle : BitField := ⟨0, 12⟩
def magFilter : BitField := ⟨12, 2⟩
def minFilter : BitField := ⟨14, 2⟩
def mipFilter : BitField := ⟨16, 2⟩
def anisoFilter : BitField := ⟨18, 3⟩
def arbitraryFilter : BitField := ⟨21, 3⟩
def volMagFilter : BitField := ⟨24, 2⟩
def volMinFilter : BitField := ⟨26, 2⟩
def useComputedLod : BitField := .bit 28
def useRegisterLod : BitField := .bit 29
def isPredicated : BitField := .bit 31
def useRegisterGradients : BitField := .bit 0
def sampleLocation : BitField := ⟨1, 1⟩
def lodBias : BitField := ⟨2, 7⟩
def dimension : BitField := ⟨14, 2⟩
def offsetX : BitField := ⟨16, 5⟩
def offsetY : BitField := ⟨21, 5⟩
def offsetZ : BitField := ⟨26, 5⟩
def predicateCondition : BitField := .bit 31
end TextureField

structure TextureWord where
  opcode : UInt32
  srcReg : UInt32
  srcRelative : Bool
  dstReg : UInt32
  dstRelative : Bool
  fetchValidOnly : Bool
  constIndex : UInt32
  unnormalizedCoordinates : Bool
  srcSwizzle : UInt32
  dstSwizzle : UInt32
  magFilter : UInt32
  minFilter : UInt32
  mipFilter : UInt32
  anisoFilter : UInt32
  arbitraryFilter : UInt32
  volMagFilter : UInt32
  volMinFilter : UInt32
  useComputedLod : Bool
  useRegisterLod : Bool
  isPredicated : Bool
  useRegisterGradients : Bool
  sampleLocation : UInt32
  lodBias : Int32
  dimension : UInt32
  offsetX : Int32
  offsetY : Int32
  offsetZ : Int32
  predicateCondition : Bool
deriving DecidableEq, Inhabited

namespace TextureWord

def decode (t : Triple) : TextureWord where
  opcode := opcodeBits t
  srcReg := TextureField.srcReg.read t.d0
  srcRelative := TextureField.srcRelative.test t.d0
  dstReg := TextureField.dstReg.read t.d0
  dstRelative := TextureField.dstRelative.test t.d0
  fetchValidOnly := TextureField.fetchValidOnly.test t.d0
  constIndex := TextureField.constIndex.read t.d0
  unnormalizedCoordinates := TextureField.unnormalizedCoordinates.test t.d0
  srcSwizzle := TextureField.srcSwizzle.read t.d0
  dstSwizzle := TextureField.dstSwizzle.read t.d1
  magFilter := TextureField.magFilter.read t.d1
  minFilter := TextureField.minFilter.read t.d1
  mipFilter := TextureField.mipFilter.read t.d1
  anisoFilter := TextureField.anisoFilter.read t.d1
  arbitraryFilter := TextureField.arbitraryFilter.read t.d1
  volMagFilter := TextureField.volMagFilter.read t.d1
  volMinFilter := TextureField.volMinFilter.read t.d1
  useComputedLod := TextureField.useComputedLod.test t.d1
  useRegisterLod := TextureField.useRegisterLod.test t.d1
  isPredicated := TextureField.isPredicated.test t.d1
  useRegisterGradients := TextureField.useRegisterGradients.test t.d2
  sampleLocation := TextureField.sampleLocation.read t.d2
  lodBias := TextureField.lodBias.readSigned t.d2
  dimension := TextureField.dimension.read t.d2
  offsetX := TextureField.offsetX.readSigned t.d2
  offsetY := TextureField.offsetY.readSigned t.d2
  offsetZ := TextureField.offsetZ.readSigned t.d2
  predicateCondition := TextureField.predicateCondition.test t.d2

def encode (op : TextureWord) : Triple where
  d0 := opcodeField.place op.opcode ||| TextureField.srcReg.place op.srcReg
    ||| TextureField.srcRelative.mark op.srcRelative ||| TextureField.dstReg.place op.dstReg
    ||| TextureField.dstRelative.mark op.dstRelative ||| TextureField.fetchValidOnly.mark op.fetchValidOnly
    ||| TextureField.constIndex.place op.constIndex
    ||| TextureField.unnormalizedCoordinates.mark op.unnormalizedCoordinates
    ||| TextureField.srcSwizzle.place op.srcSwizzle
  d1 := TextureField.dstSwizzle.place op.dstSwizzle ||| TextureField.magFilter.place op.magFilter
    ||| TextureField.minFilter.place op.minFilter ||| TextureField.mipFilter.place op.mipFilter
    ||| TextureField.anisoFilter.place op.anisoFilter ||| TextureField.arbitraryFilter.place op.arbitraryFilter
    ||| TextureField.volMagFilter.place op.volMagFilter ||| TextureField.volMinFilter.place op.volMinFilter
    ||| TextureField.useComputedLod.mark op.useComputedLod ||| TextureField.useRegisterLod.mark op.useRegisterLod
    ||| TextureField.isPredicated.mark op.isPredicated
  d2 := TextureField.useRegisterGradients.mark op.useRegisterGradients
    ||| TextureField.sampleLocation.place op.sampleLocation ||| TextureField.lodBias.placeSigned op.lodBias
    ||| TextureField.dimension.place op.dimension ||| TextureField.offsetX.placeSigned op.offsetX
    ||| TextureField.offsetY.placeSigned op.offsetY ||| TextureField.offsetZ.placeSigned op.offsetZ
    ||| TextureField.predicateCondition.mark op.predicateCondition

def fetchesAnyData (op : TextureWord) : Bool := Select.writesAny op.dstSwizzle

def predicate (op : TextureWord) : Predicate := ⟨op.isPredicated, op.predicateCondition⟩

end TextureWord

end ShaderMicrocode.Fetch
