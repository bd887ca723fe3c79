import ShaderMicrocode.BitField
import ShaderMicrocode.Triple
import ShaderMicrocode.ControlFlow.Opcode
/-!
# Control flow words

A control flow instruction is 48 bits wide: a low dword and a high half. Two of them fill a triple.
-/
namespace ShaderMicrocode.ControlFlow

structure Word where
  low : UInt32
  high : UInt16
deriving DecidableEq, Inhabited

namespace Word

/-- The opcode sits in the top four bits of the high half. -/
def opcodeField : BitField := ⟨12, 4⟩

/-- The address mode bit, which every layout shares. -/
def absoluteAddressField : BitField := .bit 11

def opcode (w : Word) : Opcode := .ofCode (opcodeField.read w.high.toUInt32)

def isAbsoluteAddress (w : Word) : Bool := absoluteAddressField.test w.high.toUInt32

end Word

/-- The two instructions that a triple holds, first then second. -/
def unpackPair (t : Triple) : Word × Word :=
  (⟨t.d0, t.d1.toUInt16⟩, ⟨t.d1 >>> 16 ||| t.d2 <<< 16, (t.d2 >>> 16).toUInt16⟩)

def packPair (a b : Word) : Triple :=
  ⟨a.low, a.high.toUInt32 ||| b.low <<< 16, b.low >>> 16 ||| b.high.toUInt32 <<< 16⟩

end ShaderMicrocode.ControlFlow
