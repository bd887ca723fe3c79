import ShaderMicrocode.DecodeError
import ShaderMicrocode.Operand
import ShaderMicrocode.ControlFlow.Layout
/-!
# Control flow instructions

Control flow words with their guards and targets resolved, and the text of each.
-/
namespace ShaderMicrocode.ControlFlow

inductive GuardKind where
  | unconditional
  | boolConstant
  | predicate
deriving DecidableEq, Inhabited

/-- What decides whether a block or branch is taken; `constant` and `condition` keep the values of the word even
where the kind does not use them. -/
structure Guard where
  kind : GuardKind
  constant : UInt32
  condition : Bool
deriving DecidableEq, Inhabited

namespace Guard

def column (g : Guard) : String :=
  match g.kind with
  | .predicate => Predicate.column ⟨true, g.condition⟩
  | _ => Predicate.blank

/-- The boolean constant of the guard, with the value it must have. -/
def constantText (g : Guard) : String := (if g.condition then "" else "!") ++ "b" ++ decimal g.constant

/-- A branch to `target`, called `name`, or `conditionalName` when a constant guards it. -/
def branchText (g : Guard) (name conditionalName : String) (target : UInt32) : String :=
  g.column ++ (match g.kind with
    | .boolConstant => conditionalName ++ " " ++ g.constantText ++ ","
    | _ => name) ++ " L" ++ decimal target

end Guard

/-- A block of ALU and fetch words, the first of them at `address`. -/
structure Exec where
  index : UInt32
  opcode : Opcode
  name : String
  address : UInt32
  count : UInt32
  guard : Guard
  isEnd : Bool
  isPredicateClean : Bool
  isYield : Bool
  sequence : UInt32
deriving DecidableEq, Inhabited

structure LoopStart where
  index : UInt32
  loopConstant : UInt32
  isRepeat : Bool
  skipTarget : UInt32
deriving DecidableEq, Inhabited

structure LoopEnd where
  index : UInt32
  predicate : Predicate
  loopConstant : UInt32
  bodyTarget : UInt32
deriving DecidableEq, Inhabited

structure Call where
  index : UInt32
  target : UInt32
  guard : Guard
deriving DecidableEq, Inhabited

structure Jump where
  index : UInt32
  target : UInt32
  guard : Guard
  isBackward : Bool
deriving DecidableEq, Inhabited

/-- The export space that an allocation asks for; `interpolators` are color outputs in a pixel shader. -/
inductive AllocKind where
  | none
  | position
  | interpolators
  | memory
deriving DecidableEq, Inhabited

/-- The kind selected by the low two bits of `n`. -/
def AllocKind.ofCode (n : UInt32) : AllocKind :=
  match (n % 4).toNat with
  | 0 => none
  | 1 => position
  | 2 => interpolators
  | _ => memory

structure Alloc where
  index : UInt32
  kind : AllocKind
  count : UInt32
  isVertexShader : Bool
deriving DecidableEq, Inhabited

inductive Instruction where
  | nop (index : UInt32)
  | exec (e : Exec)
  | loopStart (l : LoopStart)
  | loopEnd (l : LoopEnd)
  | call (c : Call)
  | ret (index : UInt32)
  | jump (j : Jump)
  | alloc (a : Alloc)
deriving DecidableEq, Inhabited

namespace ExecLayout

def guardKind (e : ExecLayout) : GuardKind :=
  if e.opcode.usesBoolConstant then .boolConstant
  else if e.opcode.usesPredicate then .predicate
  else .unconditional

def name (e : ExecLayout) : String :=
  (if e.opcode.usesBoolConstant then "cexec" else "exec") ++ (if e.opcode.isExecEnd then "e" else "")

def resolve (e : ExecLayout) (index : UInt32) : Exec where
  index := index
  opcode := e.opcode
  name := e.name
  address := e.address
  count := e.count
  guard := ⟨e.guardKind, e.boolAddress, e.condition⟩
  isEnd := e.opcode.isExecEnd
  isPredicateClean := e.isPredicateClean
  isYield := e.isYield
  sequence := e.sequence

end ExecLayout

/-- The unconditional flag of a branch wins over the predicate flag. -/
def BranchLayout.guard (b : BranchLayout) : Guard where
  kind := if b.isUnconditional then .unconditional else if b.isPredicated then .predicate else .boolConstant
  constant := b.boolAddress
  condition := b.condition

/-- The instruction that a word is at control flow index `index` of a shader. -/
def Word.resolve (w : Word) (index : UInt32) (stage : Stage) : Except DecodeError Instruction :=
  match w.layout with
  | .nop => .ok (.nop index)
  | .exec e => .ok (.exec (e.resolve index))
  | .loopStart l => .ok (.loopStart ⟨index, l.loopId, l.isRepeat, l.address⟩)
  | .loopEnd l => .ok (.loopEnd ⟨index, ⟨l.isPredicatedBreak, l.condition⟩, l.loopId, l.address⟩)
  | .call b => .ok (.call ⟨index, b.address, b.guard⟩)
  | .ret => .ok (.ret index)
  | .jump b => .ok (.jump ⟨index, b.address, b.guard, b.isBackward⟩)
  | .alloc a => .ok (.alloc ⟨index, .ofCode a.kind, a.size, stage == .vertex⟩)
  | .markVsFetchDone => .error (.unimplementedControlFlow w.opcode)

def Exec.text (e : Exec) : String :=
  e.guard.column ++ e.name
    ++ (match e.guard.kind with
      | .boolConstant => " " ++ e.guard.constantText
      | _ => "")
    ++ " ADDR(" ++ decimal e.address ++ ") CNT(" ++ decimal e.count ++ ")"
    ++ (if e.isYield then " YIELD" else "") ++ (if e.isPredicateClean then "" else " NOCLEAN")

def LoopStart.text (l : LoopStart) : String :=
  Predicate.blank ++ "loop i" ++ decimal l.loopConstant ++ ", L" ++ decimal l.skipTarget
    ++ (if l.isRepeat then ", Repeat=true" else "")

def LoopEnd.text (l : LoopEnd) : String :=
  l.predicate.column ++ "endloop i" ++ decimal l.loopConstant ++ ", L" ++ decimal l.bodyTarget

def Call.text (c : Call) : String := c.guard.branchText "call" "ccall" c.target

def Jump.text (j : Jump) : String := j.guard.branchText "jmp" "cjmp" j.target

def Alloc.text (a : Alloc) : String :=
  Predicate.blank ++ "alloc " ++ (match a.kind with
    | .none => "noalloc"
    | .position => "position, " ++ decimal a.count
    | .interpolators => (if a.isVertexShader then "interpolators, " else "colors, ") ++ decimal a.count
    | .memory => "export, " ++ decimal a.count)

/-- The text of an instruction, with its predicate column. -/
def Instruction.text : Instruction → String
  | nop _ => Predicate.blank ++ "cnop"
  | exec e => e.text
  | loopStart l => l.text
  | loopEnd l => l.text
  | call c => c.text
  | ret _ => Predicate.blank ++ "ret"
  | jump j => j.text
  | alloc a => a.text

end ShaderMicrocode.ControlFlow
