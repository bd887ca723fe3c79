import ShaderMicrocode.BitField
import ShaderMicrocode.Triple
import ShaderMicrocode.Fetch.Select
/-!
# Vertex fetch words

The fields of a vertex fetch. A full fetch names its slot, source and stride; a mini fetch takes them from the
full fetch before it.
-/
namespace ShaderMicrocode.Fetch

/-- The opcode of any fetch sits in the low five bits of the first dword. -/
def opcodeField : BitField := ⟨0, 5⟩

def opcodeBits (t : Triple) : UInt32 := opcodeField.read t.d0

/-! Fields of the first dword, then of the second from `dstSwizzle` on, then of the third from `stride` on. -/
namespace VertexField
def srcReg : BitField := ⟨5, 6⟩
def srcRelative : BitField := .bit 11
def dstReg : BitField := ⟨12, 6⟩
def dstRelative : BitField := .bit 18
def mustBeOne : BitField := .bit 19
def constIndex : BitField := ⟨20, 5⟩
def constIndexSelect : BitField := ⟨25, 2⟩
def prefetchCount : BitField := ⟨27, 3⟩
def srcSwizzle : BitField := ⟨30, 2⟩
def dstSwizzle : BitField := ⟨0, 12⟩
def isSigned : BitField := .bit 12
def isInteger : BitField := .bit 13
def signedRfMode : BitField := .bit 14
def isIndexRounded : BitField := .bit 15
def format : BitField := ⟨16, 6⟩
def expAdjust : BitField := ⟨24, 6⟩
def isMiniFetch : BitField := .bit 30
def isPredicated : BitField := .bit 31
def stride : BitField := ⟨0, 8⟩
def offset : BitField := ⟨8, 23⟩
def predicateCondition : BitField := .bit 31
end VertexField

structure VertexWord where
  srcReg : UInt32
  srcRelative : Bool
  dstReg : UInt32
  dstRelative : Bool
  mustBeOne : Bool
  constIndex : UInt32
  constIndexSelect : UInt32
  prefetchCount : UInt32
  srcSwizzle : UInt32
  dstSwizzle : UInt32
  isSigned : Bool
  isInteger : Bool
  signedRfMode : Bool
  isIndexRounded : Bool
  format : UInt32
  expAdjust : Int32
  isMiniFetch : Bool
  isPredicated : Bool
  stride : UInt32
  /-- Element offset in dwords. -/
  offset : Int32
  predicateCondition : Bool
deriving DecidableEq, Inhabited

namespace VertexWord

def decode (t : Triple) : VertexWord where
  srcReg := VertexField.srcReg.read t.d0
  srcRelative := VertexField.srcRelative.test t.d0
  dstReg := VertexField.dstReg.read t.d0
  dstRelative := VertexField.dstRelative.test t.d0
  mustBeOne := VertexField.mustBeOne.test t.d0
  constIndex := VertexField.constIndex.read t.d0
  constIndexSelect := VertexField.constIndexSelect.read t.d0
  prefetchCount := VertexField.prefetchCount.read t.d0
  srcSwizzle := VertexField.srcSwizzle.read t.d0
  dstSwizzle := VertexField.dstSwizzle.read t.d1
  isSigned := VertexField.isSigned.test t.d1
  isInteger := VertexField.isInteger.test t.d1
  signedRfMode := VertexField.signedRfMode.test t.d1
  isIndexRounded := VertexField.isIndexRounded.test t.d1
  format := VertexField.format.read t.d1
  expAdjust := VertexField.expAdjust.readSigned t.d1
  isMiniFetch := VertexField.isMiniFetch.test t.d1
  isPredicated := VertexField.isPredicated.test t.d1
  stride := VertexField.stride.read t.d2
  offset := VertexField.offset.readSigned t.d2
  predicateCondition := VertexField.predicateCondition.test t.d2

/-- The opcode of a vertex fetch is zero. -/
def encode (op : VertexWord) : Triple where
  d0 := VertexField.srcReg.place op.srcReg ||| VertexField.srcRelative.mark op.srcRelative
    ||| VertexField.dstReg.place op.dstReg ||| VertexField.dstRelative.mark op.dstRelative
    ||| VertexField.mustBeOne.mark op.mustBeOne ||| VertexField.constIndex.place op.constIndex
    ||| VertexField.constIndexSelect.place op.constIndexSelect ||| VertexField.prefetchCount.place op.prefetchCount
    ||| VertexField.srcSwizzle.place op.srcSwizzle
  d1 := VertexField.dstSwizzle.place op.dstSwizzle ||| VertexField.isSigned.mark op.isSigned
    ||| VertexField.isInteger.mark op.isInteger ||| VertexField.signedRfMode.mark op.signedRfMode
    ||| VertexField.isIndexRounded.mark op.isIndexRounded ||| VertexField.format.place op.format
    ||| VertexField.expAdjust.placeSigned op.expAdjust ||| VertexField.isMiniFetch.mark op.isMiniFetch
    ||| VertexField.isPredicated.mark op.isPredicated
  d2 := VertexField.stride.place op.stride ||| VertexField.offset.placeSigned op.offset
    ||| VertexField.predicateCondition.mark op.predicateCondition

/-- The fetch constant slot: each constant holds three. -/
def slot (op : VertexWord) : UInt32 := op.constIndex * 3 + op.constIndexSelect

def fetchesAnyData (op : VertexWord) : Bool := Select.writesAny op.dstSwizzle

def predicate (op : VertexWord) : Predicate := ⟨op.isPredicated, op.predicateCondition⟩

end VertexWord

end ShaderMicrocode.Fetch
