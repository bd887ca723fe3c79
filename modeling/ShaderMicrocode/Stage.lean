/-!
# Shader stages

The two kinds of shader and the names that select them.
-/
namespace ShaderMicrocode

inductive Stage where
  | vertex
  | pixel
deriving DecidableEq, Inhabited

namespace Stage

def name : Stage → String
  | vertex => "vertex"
  | pixel => "pixel"

/-- The stage called `text`, in full or by its short form; only the case of ASCII letters is ignored. -/
def parse? (text : String) : Option Stage :=
  let lower := text.map Char.toLower
  if lower = "vs" ∨ lower = "vertex" then some vertex
  else if lower = "ps" ∨ lower = "pixel" then some pixel
  else none

/-- The message for a name that selects no stage. -/
def unknownMessage (text : String) : String := "Unknown shader type: " ++ text

end Stage

end ShaderMicrocode
