import ShaderMicrocode.Numeral
/-!
# Listings

The disassembly of a shader, built line by line. An instruction line opens with the triple and the dword within
it where the instruction starts; a label line names a control flow index.
-/
namespace ShaderMicrocode

structure Listing where
  /-- The lines so far, the latest first. -/
  reversed : List String
deriving DecidableEq, Inhabited

namespace Listing

def empty : Listing := ⟨[]⟩

def lines (l : Listing) : List String := l.reversed.reverse

/-- The listing with `line` added at its end. -/
def push (l : Listing) (line : String) : Listing := ⟨line :: l.reversed⟩

@[simp] theorem lines_empty : empty.lines = [] := rfl

@[simp] theorem lines_push (l : Listing) (line : String) : (l.push line).lines = l.lines ++ [line] := by
  simp [lines, push]

def lineCount (l : Listing) : Nat := l.reversed.length

@[simp] theorem lineCount_empty : empty.lineCount = 0 := rfl

@[simp] theorem lineCount_push (l : Listing) (line : String) : (l.push line).lineCount = l.lineCount + 1 := rfl

/-- The lines, each ended by a newline. -/
def text (l : Listing) : String := String.join (l.lines.map (· ++ "\n"))

@[simp] theorem text_empty : empty.text = "" := rfl

/-- A line goes to the end of the text as it is, and its newline behind it. -/
@[simp] theorem text_push (l : Listing) (line : String) : (l.push line).text = l.text ++ line ++ "\n" := by
  simp [text, String.append_assoc]

end Listing

def labelLine (index : UInt32) : String := "                label L" ++ decimal index

/-- The line of an instruction that starts at dword `offset`. -/
def instructionLine (offset : Nat) (body : String) : String :=
  "/* " ++ paddedDecimal 4 (offset / 3) ++ "." ++ (offset % 3).repr ++ " */ " ++ body

/-- The dword where control flow instruction `index` starts: two instructions fill a triple. -/
def controlFlowOffset (index : UInt32) : Nat := index.toNat / 2 * 3 + index.toNat % 2

/-- The dword where the ALU or fetch word at `address` starts. -/
def wordOffset (address : UInt32) : Nat := 3 * address.toNat

end ShaderMicrocode
