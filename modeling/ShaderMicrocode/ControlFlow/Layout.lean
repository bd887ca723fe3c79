import ShaderMicrocode.ControlFlow.Word
/-!
# Control flow layouts

The fields of each instruction shape, read from a control flow word and written back to one.
-/
namespace ShaderMicrocode.ControlFlow

/-! Fields of the exec family; those from `vertexCacheLow` on lie in the high half. -/
namespace ExecField
def address : BitField := ⟨0, 12⟩
def count : BitField := ⟨12, 3⟩
def isYield : BitField := .bit 15
def sequence : BitField := ⟨16, 12⟩
def vertexCacheHigh : BitField := ⟨28, 4⟩
def vertexCacheLow : BitField := ⟨0, 2⟩
def boolAddress : BitField := ⟨2, 8⟩
def isPredicateClean : BitField := .bit 9
def condition : BitField := .bit 10
end ExecField

/-- A block of ALU and fetch words. Words are numbered from `address` up, and `sequence` gives two bits
for each of them: whether it is a fetch, and whether it is serialized. -/
structure ExecLayout where
  opcode : Opcode
  address : UInt32
  count : UInt32
  isYield : Bool
  sequence : UInt32
  vertexCache : UInt32
  boolAddress : UInt32
  isPredicateClean : Bool
  condition : Bool
  isAbsoluteAddress : Bool
deriving DecidableEq, Inhabited

namespace ExecLayout

/-- A guard by boolean constant takes the bits that the other exec opcodes give to the predicate clean flag,
and those blocks always start with a clean predicate. -/
def decode (w : Word) : ExecLayout :=
  let high := w.high.toUInt32
  { opcode := w.opcode
    address := ExecField.address.read w.low
    count := ExecField.count.read w.low
    isYield := ExecField.isYield.test w.low
    sequence := ExecField.sequence.read w.low
    vertexCache := ExecField.vertexCacheHigh.read w.low <<< 2 ||| ExecField.vertexCacheLow.read high
    boolAddress := if w.opcode.usesBoolConstant then ExecField.boolAddress.read high else 0
    isPredicateClean := w.opcode.usesBoolConstant || ExecField.isPredicateClean.test high
    condition := ExecField.condition.test high
    isAbsoluteAddress := w.isAbsoluteAddress }

def encode (e : ExecLayout) : Word where
  low := ExecField.address.place e.address ||| ExecField.count.place e.count
    ||| ExecField.isYield.mark e.isYield ||| ExecField.sequence.place e.sequence
    ||| ExecField.vertexCacheHigh.place (e.vertexCache >>> 2)
  high := (ExecField.vertexCacheLow.place e.vertexCache
    ||| (if e.opcode.usesBoolConstant then ExecField.boolAddress.place e.boolAddress
        else ExecField.isPredicateClean.mark e.isPredicateClean)
    ||| ExecField.condition.mark e.condition ||| Word.absoluteAddressField.mark e.isAbsoluteAddress
    ||| Word.opcodeField.place e.opcode.code).toUInt16

/-- Whether word `i` of the block is a fetch. -/
def isFetch (e : ExecLayout) (i : Nat) : Bool := e.sequence.toNat.testBit (2 * i)

/-- Whether word `i` of the block waits for the words before it. -/
def isSerialized (e : ExecLayout) (i : Nat) : Bool := e.sequence.toNat.testBit (2 * i + 1)

end ExecLayout

/-! Fields of the loop instructions; `condition` lies in the high half. -/
namespace LoopField
def address : BitField := ⟨0, 13⟩
def isRepeat : BitField := .bit 13
def loopId : BitField := ⟨16, 5⟩
def isPredicatedBreak : BitField := .bit 21
def condition : BitField := .bit 10
end LoopField

/-- The head of a loop; `address` is where control goes when the loop is skipped. -/
structure LoopStartLayout where
  address : UInt32
  isRepeat : Bool
  loopId : UInt32
  isAbsoluteAddress : Bool
deriving DecidableEq, Inhabited

namespace LoopStartLayout

def decode (w : Word) : LoopStartLayout where
  address := LoopField.address.read w.low
  isRepeat := LoopField.isRepeat.test w.low
  loopId := LoopField.loopId.read w.low
  isAbsoluteAddress := w.isAbsoluteAddress

def encode (l : LoopStartLayout) : Word where
  low := LoopField.address.place l.address ||| LoopField.isRepeat.mark l.isRepeat ||| LoopField.loopId.place l.loopId
  high := (Word.absoluteAddressField.mark l.isAbsoluteAddress
    ||| Word.opcodeField.place Opcode.loopStart.code).toUInt16

end LoopStartLayout

/-- The foot of a loop; `address` is where the body starts. -/
structure LoopEndLayout where
  address : UInt32
  loopId : UInt32
  isPredicatedBreak : Bool
  condition : Bool
  isAbsoluteAddress : Bool
deriving DecidableEq, Inhabited

namespace LoopEndLayout

def decode (w : Word) : LoopEndLayout where
  address := LoopField.address.read w.low
  loopId := LoopField.loopId.read w.low
  isPredicatedBreak := LoopField.isPredicatedBreak.test w.low
  condition := LoopField.condition.test w.high.toUInt32
  isAbsoluteAddress := w.isAbsoluteAddress

def encode (l : LoopEndLayout) : Word where
  low := LoopField.address.place l.address ||| LoopField.loopId.place l.loopId
    ||| LoopField.isPredicatedBreak.mark l.isPredicatedBreak
  high := (LoopField.condition.mark l.condition ||| Word.absoluteAddressField.mark l.isAbsoluteAddress
    ||| Word.opcodeField.place Opcode.loopEnd.code).toUInt16

end LoopEndLayout

/-! Fields of calls and jumps; those from `isBackward` on lie in the high half. -/
namespace BranchField
def address : BitField := ⟨0, 13⟩
def isUnconditional : BitField := .bit 13
def isPredicated : BitField := .bit 14
def isBackward : BitField := .bit 1
def boolAddress : BitField := ⟨2, 8⟩
def condition : BitField := .bit 10
end BranchField

/-- A call or a jump. -/
structure BranchLayout where
  opcode : Opcode
  address : UInt32
  isUnconditional : Bool
  isPredicated : Bool
  isBackward : Bool
  boolAddress : UInt32
  condition : Bool
  isAbsoluteAddress : Bool
deriving DecidableEq, Inhabited

namespace BranchLayout

/-- Only jumps carry a direction. -/
def decode (w : Word) : BranchLayout :=
  let high := w.high.toUInt32
  { opcode := w.opcode
    address := BranchField.address.read w.low
    isUnconditional := BranchField.isUnconditional.test w.low
    isPredicated := BranchField.isPredicated.test w.low
    isBackward := w.opcode == .condJmp && BranchField.isBackward.test high
    boolAddress := BranchField.boolAddress.read high
    condition := BranchField.condition.test high
    isAbsoluteAddress := w.isAbsoluteAddress }

def encode (b : BranchLayout) : Word where
  low := BranchField.address.place b.address ||| BranchField.isUnconditional.mark b.isUnconditional
    ||| BranchField.isPredicated.mark b.isPredicated
  high := (BranchField.isBackward.mark b.isBackward ||| BranchField.boolAddress.place b.boolAddress
    ||| BranchField.condition.mark b.condition ||| Word.absoluteAddressField.mark b.isAbsoluteAddress
    ||| Word.opcodeField.place b.opcode.code).toUInt16

end BranchLayout

/-! Fields of an allocation; those from `isUnserialized` on lie in the high half. -/
namespace AllocField
def size : BitField := ⟨0, 3⟩
def isUnserialized : BitField := .bit 8
def kind : BitField := ⟨9, 2⟩
end AllocField

/-- A request for export space. -/
structure AllocLayout where
  size : UInt32
  isUnserialized : Bool
  kind : UInt32
deriving DecidableEq, Inhabited

namespace AllocLayout

def decode (w : Word) : AllocLayout where
  size := AllocField.size.read w.low
  isUnserialized := AllocField.isUnserialized.test w.high.toUInt32
  kind := AllocField.kind.read w.high.toUInt32

def encode (a : AllocLayout) : Word where
  low := AllocField.size.place a.size
  high := (AllocField.isUnserialized.mark a.isUnserialized ||| AllocField.kind.place a.kind
    ||| Word.opcodeField.place Opcode.alloc.code).toUInt16

end AllocLayout

/-- A control flow word seen through the layout that its opcode selects. -/
inductive Layout where
  | nop
  | exec (e : ExecLayout)
  | loopStart (l : LoopStartLayout)
  | loopEnd (l : LoopEndLayout)
  | call (b : BranchLayout)
  | ret
  | jump (b : BranchLayout)
  | alloc (a : AllocLayout)
  | markVsFetchDone
deriving DecidableEq, Inhabited

/-- A word that holds an opcode and nothing else. -/
def Opcode.bare (op : Opcode) : Word := ⟨0, (Word.opcodeField.place op.code).toUInt16⟩

namespace Layout

def encode : Layout → Word
  | nop => Opcode.nop.bare
  | exec e => e.encode
  | loopStart l => l.encode
  | loopEnd l => l.encode
  | call b => b.encode
  | ret => Opcode.ret.bare
  | jump b => b.encode
  | alloc a => a.encode
  | markVsFetchDone => Opcode.markVsFetchDone.bare

/-- The control flow index that the instruction may send control to. -/
def target? : Layout → Option UInt32
  | loopStart l => some l.address
  | loopEnd l => some l.address
  | call b => some b.address
  | jump b => some b.address
  | _ => none

end Layout

namespace Word

def layout (w : Word) : Layout :=
  match w.opcode with
  | .nop => .nop
  | .exec | .execEnd | .condExec | .condExecEnd | .condExecPred | .condExecPredEnd | .condExecPredClean
  | .condExecPredCleanEnd => .exec (.decode w)
  | .loopStart => .loopStart (.decode w)
  | .loopEnd => .loopEnd (.decode w)
  | .condCall => .call (.decode w)
  | .ret => .ret
  | .condJmp => .jump (.decode w)
  | .alloc => .alloc (.decode w)
  | .markVsFetchDone => .markVsFetchDone

def target? (w : Word) : Option UInt32 := w.layout.target?

end Word

end ShaderMicrocode.ControlFlow
