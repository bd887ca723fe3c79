import ShaderMicrocode.DecodeError
import ShaderMicrocode.ControlFlow.Layout
/-!
# Control flow programs

Microcode starts with control flow pairs. They end at the lowest word that a non-empty exec names, or with the
buffer; what lies behind them is ALU and fetch words, addressed by triple.
-/
namespace ShaderMicrocode

/-- The control flow instructions of a buffer, and the dword where a partial pair cuts them short. -/
structure Program where
  instructions : List ControlFlow.Word
  truncatedAt : Option Nat
deriving DecidableEq, Inhabited

namespace ControlFlow.Word

/-- The dword where the control flow has to end because of `w`: the first word of a non-empty exec. -/
def extent? (w : Word) : Option Nat :=
  match w.layout with
  | .exec e => if e.count = 0 then none else some (3 * e.address.toNat)
  | _ => none

/-- The bound `limit`, lowered to the extent of `w`. -/
def lower (w : Word) (limit : Nat) : Nat :=
  match w.extent? with
  | some n => min limit n
  | none => limit

theorem lower_le (w : Word) (limit : Nat) : w.lower limit ≤ limit := by
  unfold lower
  split
  · exact Nat.min_le_left _ _
  · exact Nat.le_refl _

end ControlFlow.Word

namespace Program

/-- The rest of the program from dword `offset`, when no exec so far names a dword below `limit`. -/
def readFrom (words : Array UInt32) (offset limit : Nat) : Program :=
  if offset < limit then
    match Triple.at? words offset with
    | none => ⟨[], some offset⟩
    | some t =>
      let (a, b) := ControlFlow.unpackPair t
      let rest := readFrom words (offset + 3) (b.lower (a.lower limit))
      ⟨a :: b :: rest.instructions, rest.truncatedAt⟩
  else ⟨[], none⟩
termination_by limit - offset
decreasing_by
  have := Nat.le_trans (b.lower_le (a.lower limit)) (a.lower_le limit)
  omega

def read (words : Array UInt32) : Program := readFrom words 0 words.size

def length (p : Program) : Nat := p.instructions.length

end Program

/-- The ALU or fetch word at `address`. -/
def wordAt (words : Array UInt32) (address : UInt32) : Except DecodeError Triple :=
  match Triple.at? words (3 * address.toNat) with
  | some t => .ok t
  | none => .error (.instructionOutOfRange address words.size)

/-- Adds `label` to an ascending list without repetition. -/
def insertLabel (label : UInt32) : List UInt32 → List UInt32
  | [] => [label]
  | l :: rest =>
    if label < l then label :: l :: rest
    else if label = l then l :: rest
    else l :: insertLabel label rest

theorem mem_insertLabel {a label : UInt32} {ls : List UInt32} : a ∈ insertLabel label ls ↔ a = label ∨ a ∈ ls := by
  induction ls with
  | nil => simp [insertLabel]
  | cons l rest ih =>
    unfold insertLabel
    split
    · simp
    · split
      · rename_i h; simp [h]
      · simp [ih, or_left_comm]

namespace Program

/-- The control flow indices that loops, calls and jumps may go to, ascending and each once. -/
def labels (p : Program) : List UInt32 :=
  (p.instructions.filterMap ControlFlow.Word.target?).foldr insertLabel []

end Program

end ShaderMicrocode
