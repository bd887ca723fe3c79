import ShaderMicrocode.Operand
/-!
# Destination selects

A fetch gives each component of its destination three bits: a component of the fetched value, a constant, or
nothing to write.
-/
namespace ShaderMicrocode.Fetch

inductive Select where
  | component (index : UInt32)
  | zero
  | one
  | keep
  | masked
deriving DecidableEq, Inhabited

namespace Select

/-- The select of destination component `j`. -/
def ofSwizzle (swizzle : UInt32) (j : Nat) : Select :=
  match (swizzle >>> UInt32.ofNat (3 * j)) % 8 with
  | 4 => zero
  | 5 => one
  | 6 => keep
  | 7 => masked
  | c => component c

/-- What the component receives, when anything. -/
def value? : Select → Option Component
  | component c => some (.ofIndex c)
  | zero => some .zero
  | one => some .one
  | keep | masked => none

def isWritten (s : Select) : Bool := s.value?.isSome

/-- Whether a destination swizzle writes any component. -/
def writesAny (swizzle : UInt32) : Bool := (List.range 4).any fun j => (ofSwizzle swizzle j).isWritten

end Select

/-- The register that a fetch writes; components without a value keep their own name. -/
def fetchResult (reg : UInt32) (isRelative : Bool) (swizzle : UInt32) : Result :=
  { Result.register reg isRelative with
    mask := .ofFn fun j => (Select.ofSwizzle swizzle j).isWritten
    swizzle := .ofFn fun j => ((Select.ofSwizzle swizzle j).value?).getD (.ofIndex (UInt32.ofNat j)) }

end ShaderMicrocode.Fetch
