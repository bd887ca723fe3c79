/-!
# Control flow opcodes

The sixteen values of the opcode field and the families that share a bit layout.
-/
namespace ShaderMicrocode.ControlFlow

inductive Opcode where
  | nop
  | exec
  | execEnd
  | condExec
  | condExecEnd
  | condExecPred
  | condExecPredEnd
  | loopStart
  | loopEnd
  | condCall
  | ret
  | condJmp
  | alloc
  | condExecPredClean
  | condExecPredCleanEnd
  | markVsFetchDone
deriving DecidableEq, Inhabited

namespace Opcode

/-- Every opcode, in the order of the codes. -/
def all : List Opcode :=
  [nop, exec, execEnd, condExec, condExecEnd, condExecPred, condExecPredEnd, loopStart, loopEnd, condCall, ret,
    condJmp, alloc, condExecPredClean, condExecPredCleanEnd, markVsFetchDone]

def code : Opcode → UInt32
  | nop => 0
  | exec => 1
  | execEnd => 2
  | condExec => 3
  | condExecEnd => 4
  | condExecPred => 5
  | condExecPredEnd => 6
  | loopStart => 7
  | loopEnd => 8
  | condCall => 9
  | ret => 10
  | condJmp => 11
  | alloc => 12
  | condExecPredClean => 13
  | condExecPredCleanEnd => 14
  | markVsFetchDone => 15

/-- The opcode selected by the low four bits of `n`. -/
def ofCode (n : UInt32) : Opcode :=
  match (n % 16).toNat with
  | 0 => nop
  | 1 => exec
  | 2 => execEnd
  | 3 => condExec
  | 4 => condExecEnd
  | 5 => condExecPred
  | 6 => condExecPredEnd
  | 7 => loopStart
  | 8 => loopEnd
  | 9 => condCall
  | 10 => ret
  | 11 => condJmp
  | 12 => alloc
  | 13 => condExecPredClean
  | 14 => condExecPredCleanEnd
  | _ => markVsFetchDone

def name : Opcode → String
  | nop => "Nop"
  | exec => "Exec"
  | execEnd => "ExecEnd"
  | condExec => "CondExec"
  | condExecEnd => "CondExecEnd"
  | condExecPred => "CondExecPred"
  | condExecPredEnd => "CondExecPredEnd"
  | loopStart => "LoopStart"
  | loopEnd => "LoopEnd"
  | condCall => "CondCall"
  | ret => "Return"
  | condJmp => "CondJmp"
  | alloc => "Alloc"
  | condExecPredClean => "CondExecPredClean"
  | condExecPredCleanEnd => "CondExecPredCleanEnd"
  | markVsFetchDone => "MarkVsFetchDone"

/-- Opcodes that run a block of ALU and fetch words. -/
def isExec : Opcode → Bool
  | exec | execEnd | condExec | condExecEnd | condExecPred | condExecPredEnd | condExecPredClean
  | condExecPredCleanEnd => true
  | _ => false

/-- Exec opcodes that also end the shader. -/
def isExecEnd : Opcode → Bool
  | execEnd | condExecEnd | condExecPredEnd | condExecPredCleanEnd => true
  | _ => false

/-- Exec opcodes whose block is guarded by a boolean constant. -/
def usesBoolConstant : Opcode → Bool
  | condExec | condExecEnd | condExecPredClean | condExecPredCleanEnd => true
  | _ => false

/-- Exec opcodes whose block is guarded by the predicate register. -/
def usesPredicate : Opcode → Bool
  | condExecPred | condExecPredEnd => true
  | _ => false

end Opcode

end ShaderMicrocode.ControlFlow
