import ShaderMicrocode.Program
/-!
# The words of exec blocks

The ALU and fetch words that a program reaches: block by block in control flow order, each block up to its first
word that lies outside the microcode. A second walk looks for fetches only.
-/
namespace ShaderMicrocode

/-- A word of an exec block that lies inside the microcode. -/
structure Visit where
  address : UInt32
  isFetch : Bool
  word : Triple
deriving DecidableEq, Inhabited

/-- The words of a block that are reached, and why the rest of it is not. -/
structure Block where
  visits : List Visit
  fault? : Option DecodeError
deriving DecidableEq, Inhabited

namespace Block

/-- The words `i` to `i + n - 1` of the block of `e`. The lowest bit of `sequence` says whether the first of them is a
fetch; two bits are dropped for each word. -/
def readFrom (words : Array UInt32) (e : ControlFlow.ExecLayout) (sequence : UInt32) (i : Nat) : Nat → Block
  | 0 => ⟨[], none⟩
  | n + 1 =>
    let isFetch := sequence &&& 1 == 1
    let address := e.address + UInt32.ofNat i
    match wordAt words address with
    | .error fault => ⟨[], some fault⟩
    | .ok word =>
      let rest := readFrom words e (sequence >>> 2) (i + 1) n
      ⟨⟨address, isFetch, word⟩ :: rest.visits, rest.fault?⟩

def read (words : Array UInt32) (e : ControlFlow.ExecLayout) : Block := readFrom words e e.sequence 0 e.count.toNat

/-- The fetches among the words `i` to `i + n - 1` of the block of `e`, up to the first fetch that lies outside the
microcode. The words between them are not looked at. -/
def fetchesFrom (words : Array UInt32) (e : ControlFlow.ExecLayout) (i : Nat) : Nat → List Visit
  | 0 => []
  | n + 1 =>
    if e.isFetch i then
      let address := e.address + UInt32.ofNat i
      match wordAt words address with
      | .error _ => []
      | .ok word => ⟨address, true, word⟩ :: fetchesFrom words e (i + 1) n
    else fetchesFrom words e (i + 1) n

def fetches (words : Array UInt32) (e : ControlFlow.ExecLayout) : List Visit := fetchesFrom words e 0 e.count.toNat

end Block

/-- The block of a control flow instruction; only execs have one. -/
def ControlFlow.Word.block? (words : Array UInt32) (w : ControlFlow.Word) : Option Block :=
  match w.layout with
  | .exec e => some (Block.read words e)
  | _ => none

/-- The fetches of the block of a control flow instruction. -/
def ControlFlow.Word.fetches (words : Array UInt32) (w : ControlFlow.Word) : List Visit :=
  match w.layout with
  | .exec e => Block.fetches words e
  | _ => []

/-- Every fetch of the program, in order. -/
def Program.fetches (words : Array UInt32) (p : Program) : List Visit :=
  p.instructions.flatMap fun w => w.fetches words

end ShaderMicrocode
