/-!
# Vector components

What one component of a four-component value is taken from, four of them together, and the set of components
that an instruction writes.
-/
namespace ShaderMicrocode

inductive Component where
  | x
  | y
  | z
  | w
  | zero
  | one
deriving DecidableEq, Inhabited

namespace Component

/-- The component selected by the low two bits of `n`. -/
def ofIndex (n : UInt32) : Component :=
  match (n % 4).toNat with
  | 0 => x
  | 1 => y
  | 2 => z
  | _ => w

def letter : Component → Char
  | x => 'x'
  | y => 'y'
  | z => 'z'
  | w => 'w'
  | zero => '0'
  | one => '1'

theorem letter_injective {a b : Component} (h : a.letter = b.letter) : a = b := by
  cases a <;> cases b <;> first | rfl | exact absurd h (by decide)

end Component

/-- Four component sources, one for each position. -/
structure Swizzle where
  x : Component
  y : Component
  z : Component
  w : Component
deriving DecidableEq, Inhabited

namespace Swizzle

/-- Every position takes its own component. -/
def identity : Swizzle := ⟨.x, .y, .z, .w⟩

def ofFn (f : Nat → Component) : Swizzle := ⟨f 0, f 1, f 2, f 3⟩

def toList (s : Swizzle) : List Component := [s.x, s.y, s.z, s.w]

end Swizzle

/-- A set of components. -/
structure WriteMask where
  x : Bool
  y : Bool
  z : Bool
  w : Bool
deriving DecidableEq, Inhabited

namespace WriteMask

def empty : WriteMask := ⟨false, false, false, false⟩

def full : WriteMask := ⟨true, true, true, true⟩

def ofFn (f : Nat → Bool) : WriteMask := ⟨f 0, f 1, f 2, f 3⟩

/-- The set given by the low four bits of `n`, lowest bit first. -/
def ofBits (n : UInt32) : WriteMask := ofFn n.toNat.testBit

/-- The set that holds the component selected by the low two bits of `n`. -/
def single (n : UInt32) : WriteMask := ofFn (· == (n % 4).toNat)

def toList (m : WriteMask) : List Bool := [m.x, m.y, m.z, m.w]

def bits (m : WriteMask) : UInt32 :=
  m.x.toUInt32 + 2 * m.y.toUInt32 + 4 * m.z.toUInt32 + 8 * m.w.toUInt32

def isEmpty (m : WriteMask) : Bool := m == empty

end WriteMask

end ShaderMicrocode
