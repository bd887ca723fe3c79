/-!
# Dword triples

The unit of microcode storage: an ALU word, a fetch word or a control flow pair fills three dwords.
-/
namespace ShaderMicrocode

structure Triple where
  d0 : UInt32
  d1 : UInt32
  d2 : UInt32
deriving DecidableEq, Inhabited

namespace Triple

def toList (t : Triple) : List UInt32 := [t.d0, t.d1, t.d2]

/-- The dwords of triples laid end to end. -/
def concat (ts : List Triple) : List UInt32 := ts.flatMap toList

/-- The triple that starts at dword `offset`, when all of it lies inside `words`. -/
def at? (words : Array UInt32) (offset : Nat) : Option Triple :=
  if h : offset + 2 < words.size then some ⟨words[offset], words[offset + 1], words[offset + 2]⟩
  else none

theorem at?_eq_none_iff (words : Array UInt32) (offset : Nat) :
    at? words offset = none ↔ words.size < offset + 3 := by
  unfold at?
  split <;> simp <;> omega

end Triple

end ShaderMicrocode
