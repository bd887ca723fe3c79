/-!
# Texture dimensions

The shape of a texture and the number of coordinates that a look-up in it takes.
-/
namespace ShaderMicrocode.Fetch

inductive Dimension where
  | d1
  | d2
  | d3
  | cube
deriving DecidableEq, Inhabited

namespace Dimension

def code : Dimension → UInt32
  | d1 => 0
  | d2 => 1
  | d3 => 2
  | cube => 3

/-- The dimension selected by the low two bits of `n`. -/
def ofCode (n : UInt32) : Dimension :=
  match (n % 4).toNat with
  | 0 => d1
  | 1 => d2
  | 2 => d3
  | _ => cube

def coordinateCount : Dimension → UInt32
  | d1 => 1
  | d2 => 2
  | d3 | cube => 3

def name : Dimension → String
  | d1 => "1D"
  | d2 => "2D"
  | d3 => "3D"
  | cube => "Cube"

end Dimension

end ShaderMicrocode.Fetch
