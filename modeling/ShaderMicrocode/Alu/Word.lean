import ShaderMicrocode.BitField
import ShaderMicrocode.Triple
import ShaderMicrocode.Operand
import ShaderMicrocode.Alu.OpcodeTable
/-!
# ALU words

An ALU word holds a vector operation and a scalar operation that share three source slots. Every bit of the
triple belongs to exactly one field.
-/
namespace ShaderMicrocode.Alu

/-! Fields of the first dword, then of the second from `src3Swizzle` on, then of the third from `src3Reg` on. -/
namespace Field
def vectorDest : BitField := ⟨0, 6⟩
def vectorDestRelative : BitField := .bit 6
def absConstants : BitField := .bit 7
def scalarDest : BitField := ⟨8, 6⟩
def scalarDestRelative : BitField := .bit 14
def exportData : BitField := .bit 15
def vectorWriteMask : BitField := ⟨16, 4⟩
def scalarWriteMask : BitField := ⟨20, 4⟩
def vectorClamp : BitField := .bit 24
def scalarClamp : BitField := .bit 25
def scalarOpcode : BitField := ⟨26, 6⟩
def src3Swizzle : BitField := ⟨0, 8⟩
def src2Swizzle : BitField := ⟨8, 8⟩
def src1Swizzle : BitField := ⟨16, 8⟩
def src3Negate : BitField := .bit 24
def src2Negate : BitField := .bit 25
def src1Negate : BitField := .bit 26
def predicateCondition : BitField := .bit 27
def isPredicated : BitField := .bit 28
def addressAbsolute : BitField := .bit 29
def const1Relative : BitField := .bit 30
def const0Relative : BitField := .bit 31
def src3Reg : BitField := ⟨0, 8⟩
def src2Reg : BitField := ⟨8, 8⟩
def src1Reg : BitField := ⟨16, 8⟩
def vectorOpcode : BitField := ⟨24, 5⟩
def src3Temp : BitField := .bit 29
def src2Temp : BitField := .bit 30
def src1Temp : BitField := .bit 31
end Field

structure Word where
  vectorDest : UInt32
  vectorDestRelative : Bool
  absConstants : Bool
  scalarDest : UInt32
  scalarDestRelative : Bool
  exportData : Bool
  vectorWriteMask : UInt32
  scalarWriteMask : UInt32
  vectorClamp : Bool
  scalarClamp : Bool
  scalarOpcode : UInt32
  src3Swizzle : UInt32
  src2Swizzle : UInt32
  src1Swizzle : UInt32
  src3Negate : Bool
  src2Negate : Bool
  src1Negate : Bool
  predicateCondition : Bool
  isPredicated : Bool
  addressAbsolute : Bool
  const1Relative : Bool
  const0Relative : Bool
  src3Reg : UInt32
  src2Reg : UInt32
  src1Reg : UInt32
  vectorOpcode : UInt32
  src3Temp : Bool
  src2Temp : Bool
  src1Temp : Bool
deriving DecidableEq, Inhabited

namespace Word

def decode (t : Triple) : Word where
  vectorDest := Field.vectorDest.read t.d0
  vectorDestRelative := Field.vectorDestRelative.test t.d0
  absConstants := Field.absConstants.test t.d0
  scalarDest := Field.scalarDest.read t.d0
  scalarDestRelative := Field.scalarDestRelative.test t.d0
  exportData := Field.exportData.test t.d0
  vectorWriteMask := Field.vectorWriteMask.read t.d0
  scalarWriteMask := Field.scalarWriteMask.read t.d0
  vectorClamp := Field.vectorClamp.test t.d0
  scalarClamp := Field.scalarClamp.test t.d0
  scalarOpcode := Field.scalarOpcode.read t.d0
  src3Swizzle := Field.src3Swizzle.read t.d1
  src2Swizzle := Field.src2Swizzle.read t.d1
  src1Swizzle := Field.src1Swizzle.read t.d1
  src3Negate := Field.src3Negate.test t.d1
  src2Negate := Field.src2Negate.test t.d1
  src1Negate := Field.src1Negate.test t.d1
  predicateCondition := Field.predicateCondition.test t.d1
  isPredicated := Field.isPredicated.test t.d1
  addressAbsolute := Field.addressAbsolute.test t.d1
  const1Relative := Field.const1Relative.test t.d1
  const0Relative := Field.const0Relative.test t.d1
  src3Reg := Field.src3Reg.read t.d2
  src2Reg := Field.src2Reg.read t.d2
  src1Reg := Field.src1Reg.read t.d2
  vectorOpcode := Field.vectorOpcode.read t.d2
  src3Temp := Field.src3Temp.test t.d2
  src2Temp := Field.src2Temp.test t.d2
  src1Temp := Field.src1Temp.test t.d2

def encode (op : Word) : Triple where
  d0 := Field.vectorDest.place op.vectorDest ||| Field.vectorDestRelative.mark op.vectorDestRelative
    ||| Field.absConstants.mark op.absConstants ||| Field.scalarDest.place op.scalarDest
    ||| Field.scalarDestRelative.mark op.scalarDestRelative ||| Field.exportData.mark op.exportData
    ||| Field.vectorWriteMask.place op.vectorWriteMask ||| Field.scalarWriteMask.place op.scalarWriteMask
    ||| Field.vectorClamp.mark op.vectorClamp ||| Field.scalarClamp.mark op.scalarClamp
    ||| Field.scalarOpcode.place op.scalarOpcode
  d1 := Field.src3Swizzle.place op.src3Swizzle ||| Field.src2Swizzle.place op.src2Swizzle
    ||| Field.src1Swizzle.place op.src1Swizzle ||| Field.src3Negate.mark op.src3Negate
    ||| Field.src2Negate.mark op.src2Negate ||| Field.src1Negate.mark op.src1Negate
    ||| Field.predicateCondition.mark op.predicateCondition ||| Field.isPredicated.mark op.isPredicated
    ||| Field.addressAbsolute.mark op.addressAbsolute ||| Field.const1Relative.mark op.const1Relative
    ||| Field.const0Relative.mark op.const0Relative
  d2 := Field.src3Reg.place op.src3Reg ||| Field.src2Reg.place op.src2Reg ||| Field.src1Reg.place op.src1Reg
    ||| Field.vectorOpcode.place op.vectorOpcode ||| Field.src3Temp.mark op.src3Temp
    ||| Field.src2Temp.mark op.src2Temp ||| Field.src1Temp.mark op.src1Temp

/-- What a word says of one of its three source slots. -/
structure SourceSlot where
  reg : UInt32
  swizzle : UInt32
  isNegated : Bool
  /-- Whether the slot reads a temporary register and not a constant. -/
  isTemp : Bool
deriving DecidableEq, Inhabited

/-- Source slots are numbered from one; every number but one and two means the third. -/
def source (op : Word) : Nat → SourceSlot
  | 1 => ⟨op.src1Reg, op.src1Swizzle, op.src1Negate, op.src1Temp⟩
  | 2 => ⟨op.src2Reg, op.src2Swizzle, op.src2Negate, op.src2Temp⟩
  | _ => ⟨op.src3Reg, op.src3Swizzle, op.src3Negate, op.src3Temp⟩

def predicate (op : Word) : Predicate := ⟨op.isPredicated, op.predicateCondition⟩

def hasVectorOp (op : Word) : Bool :=
  op.vectorWriteMask != 0 || op.exportData || Vector.hasSideEffects op.vectorOpcode

def hasScalarOp (op : Word) : Bool := op.scalarOpcode != Scalar.retainPrev || op.scalarWriteMask != 0

end Word

end ShaderMicrocode.Alu
