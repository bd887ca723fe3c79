import ShaderMicrocode.DecodeError
import ShaderMicrocode.Alu.Word
/-!
# ALU instructions

The vector and the scalar half of an ALU word with operands and destination resolved, and their text.
-/
namespace ShaderMicrocode.Alu

/-- Which half of a word an instruction is; `nop` stands for a word with neither. -/
inductive Half where
  | nop
  | vector
  | scalar
deriving DecidableEq, Inhabited

structure Instruction where
  address : UInt32
  half : Half
  vectorOpcode : UInt32
  scalarOpcode : UInt32
  name : String
  predicate : Predicate
  result : Result
  operands : List Operand
deriving DecidableEq, Inhabited

/-- Where an exporting word of a shader stage sends its result. -/
def exportTarget? (stage : Stage) (dest : UInt32) : Option (Target × UInt32) :=
  match stage with
  | .vertex =>
    if dest ≤ 15 then some (.interpolator, dest)
    else if dest = 62 then some (.position, 0)
    else if dest = 63 then some (.pointSize, 0)
    else shared
  | .pixel =>
    if dest ≤ 3 then some (.colorTarget, dest)
    else if dest = 61 then some (.depth, 0)
    else shared
where
  /-- The memory exports, which both stages have. -/
  shared : Option (Target × UInt32) :=
    if dest = 32 then some (.exportAddress, 0)
    else if 33 ≤ dest ∧ dest ≤ 37 then some (.exportData, dest - 33)
    else none

/-- The component that the one-component form of a source swizzle reads: the top field, counted from `w`. -/
def lastComponent (swizzle : UInt32) : Component := .ofIndex ((swizzle >>> 6) + 3)

/-- Source swizzle fields are relative to their position. Two components are read from the top and the bottom
field, one from the top field. -/
def resolveSwizzle (swizzle count : UInt32) : Swizzle :=
  if count = 0 then .identity
  else if count = 1 then { Swizzle.identity with x := lastComponent swizzle }
  else if count = 2 then { Swizzle.identity with x := lastComponent swizzle, y := .ofIndex swizzle }
  else .ofFn fun j => .ofIndex ((swizzle >>> UInt32.ofNat (2 * j)) + UInt32.ofNat j)

namespace Word

/-- A word has two constant slots. A source uses the second one when an earlier source reads a constant. -/
def constantSlot (op : Word) : Nat → Fin 2
  | 1 => 0
  | 2 => if op.src1Temp then 0 else 1
  | _ => if op.src1Temp && op.src2Temp then 0 else 1

def constantAddressing (op : Word) (slot : Fin 2) : Addressing :=
  let isRelative := if slot = 0 then op.const0Relative else op.const1Relative
  if isRelative then (if op.addressAbsolute then .addressRegister else .loopCounter) else .absolute

/-- A temporary register number carries its own flags: bit 6 for the loop counter, bit 7 for the absolute value. -/
def operand (op : Word) (i : Nat) (count : UInt32) : Operand :=
  let s := op.source i
  let swizzle := resolveSwizzle s.swizzle count
  if s.isTemp then
    { source := .register
      index := s.reg % 64
      addressing := .ofRelative (s.reg.toNat.testBit 6)
      isNegated := s.isNegated
      isAbsolute := s.reg.toNat.testBit 7
      count
      swizzle }
  else
    { source := .floatConstant
      index := s.reg
      addressing := op.constantAddressing (op.constantSlot i)
      isNegated := s.isNegated
      isAbsolute := op.absConstants
      count
      swizzle }

/-- The number of the register that a constant-and-register scalar operation reads: the middle bits of the third
source swizzle, then the third register flag, then the low bit of the opcode. -/
def packedRegister (op : Word) : UInt32 :=
  BitField.read ⟨2, 4⟩ op.src3Swizzle <<< 2 ||| op.src3Temp.toUInt32 <<< 1 ||| op.scalarOpcode % 2

/-- Operands of the scalar operations on a constant and a register. -/
def constantAndRegister (op : Word) : List Operand :=
  [ { source := .floatConstant
      index := op.src3Reg
      addressing := op.constantAddressing (op.constantSlot 3)
      isNegated := op.src3Negate
      isAbsolute := op.absConstants
      count := 1
      swizzle := { Swizzle.identity with x := lastComponent op.src3Swizzle } }
  , { source := .register
      index := op.packedRegister
      addressing := .absolute
      isNegated := op.src3Negate
      isAbsolute := false
      count := 1
      swizzle := { Swizzle.identity with x := .ofIndex op.src3Swizzle } } ]

/-- The destination of either half. An exporting word sends both halves where the vector destination tells. -/
def result (op : Word) (stage : Stage) (reg : UInt32) (isRelative : Bool) (mask : UInt32) (isClamped : Bool) :
    Except DecodeError Result :=
  let finish (r : Result) : Result := { r with mask := .ofBits mask, isClamped }
  if op.exportData then
    match exportTarget? stage op.vectorDest with
    | some (target, index) => .ok (finish (.storing target index .absolute))
    | none => .error (.invalidExportDestination op.vectorDest stage)
  else .ok (finish (.register reg isRelative))

def vectorResult (op : Word) (stage : Stage) : Except DecodeError Result :=
  op.result stage op.vectorDest op.vectorDestRelative op.vectorWriteMask op.vectorClamp

def scalarResult (op : Word) (stage : Stage) : Except DecodeError Result :=
  op.result stage op.scalarDest op.scalarDestRelative op.scalarWriteMask op.scalarClamp

/-- The instruction of one half once its name, destination and operands are known. -/
def instruction (op : Word) (half : Half) (address : UInt32) (name : String) (result : Result)
    (operands : List Operand) : Instruction where
  address := address
  half := half
  vectorOpcode := op.vectorOpcode
  scalarOpcode := op.scalarOpcode
  name := name
  predicate := op.predicate
  result := result
  operands := operands

def vector (op : Word) (table : OpcodeTable) (stage : Stage) (address : UInt32) : Except DecodeError Instruction :=
  match table.get? op.vectorOpcode with
  | none => .error (.unimplementedVectorOpcode op.vectorOpcode)
  | some info =>
    (op.vectorResult stage).map fun result =>
      op.instruction .vector address info.name result
        ((List.range info.argumentCount.toNat).map fun i => op.operand (i + 1) info.componentCount)

def scalar (op : Word) (table : OpcodeTable) (stage : Stage) (address : UInt32) : Except DecodeError Instruction :=
  match table.get? op.scalarOpcode with
  | none => .error (.unimplementedScalarOpcode op.scalarOpcode)
  | some info =>
    (op.scalarResult stage).map fun result =>
      op.instruction .scalar address info.name result
        (if info.argumentCount = 0 then []
          else if info.argumentCount = 1 then [op.operand 3 info.componentCount]
          else op.constantAndRegister)

def nop (op : Word) (address : UInt32) : Instruction := op.instruction .nop address "nop" .none []

/-- The halves that a word has, vector first; a word with neither yields its `nop`. -/
def halves (op : Word) (stage : Stage) (address : UInt32) : List (Except DecodeError Instruction) :=
  match op.hasVectorOp, op.hasScalarOp with
  | true, true => [op.vector Vector.opcodes stage address, op.scalar Scalar.opcodes stage address]
  | true, false => [op.vector Vector.opcodes stage address]
  | false, true => [op.scalar Scalar.opcodes stage address]
  | false, false => [.ok (op.nop address)]

end Word

namespace Instruction

/-- The text without the predicate column. -/
def text (i : Instruction) : String :=
  match i.half with
  | .nop => "nop"
  | _ =>
    i.name ++ (if i.result.isClamped then "_sat" else "") ++ " " ++ i.result.text
      ++ String.join (i.operands.map fun o => ", " ++ o.text)

end Instruction

end ShaderMicrocode.Alu
