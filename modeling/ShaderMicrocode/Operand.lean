import ShaderMicrocode.Component
import ShaderMicrocode.Numeral
/-!
# Operands and results

Where an instruction reads its sources and stores its result, with the text of each.
-/
namespace ShaderMicrocode

/-- How the index of a register or constant is found. -/
inductive Addressing where
  | absolute
  | addressRegister
  | loopCounter
deriving DecidableEq, Inhabited

namespace Addressing

def suffix : Addressing → String
  | absolute => ""
  | addressRegister => "+a0"
  | loopCounter => "+aL"

/-- The addressing of a register whose index may be offset by the loop counter. -/
def ofRelative (isRelative : Bool) : Addressing := if isRelative then loopCounter else absolute

/-- An indexed name; an offset index stands in brackets. -/
def indexed (a : Addressing) (name : String) (index : UInt32) : String :=
  match a with
  | absolute => name ++ decimal index
  | _ => name ++ "[" ++ decimal index ++ a.suffix ++ "]"

end Addressing

/-- What an operand reads. -/
inductive Source where
  | register
  | floatConstant
  | vertexFetchConstant
  | textureFetchConstant
deriving DecidableEq, Inhabited

def Source.letters : Source → String
  | register => "r"
  | floatConstant => "c"
  | vertexFetchConstant => "vf"
  | textureFetchConstant => "tf"

/-- A source of an ALU or fetch instruction. The first `count` positions of `swizzle` are read; a count of zero
is a reference to the slot itself. -/
structure Operand where
  source : Source
  index : UInt32
  addressing : Addressing
  isNegated : Bool
  isAbsolute : Bool
  count : UInt32
  swizzle : Swizzle
deriving DecidableEq, Inhabited

namespace Operand

/-- A reference to a fetch constant slot. -/
def slot (source : Source) (index : UInt32) : Operand where
  source := source
  index := index
  addressing := .absolute
  isNegated := false
  isAbsolute := false
  count := 0
  swizzle := .identity

/-- The first `count` components of a register, taken as `swizzle` tells. -/
def register (index : UInt32) (isRelative : Bool) (count : UInt32) (swizzle : Swizzle) : Operand where
  source := .register
  index := index
  addressing := .ofRelative isRelative
  isNegated := false
  isAbsolute := false
  count := count
  swizzle := swizzle

/-- Whether the text shows no components. -/
def isStandardSwizzle (o : Operand) : Bool :=
  o.count == 0 || o.count == 4 && o.swizzle == .identity

def swizzleText (o : Operand) : String :=
  if o.isStandardSwizzle then "" else "." ++ String.ofList ((o.swizzle.toList.take o.count.toNat).map Component.letter)

def text (o : Operand) : String :=
  let bars := if o.isAbsolute then "|" else ""
  (if o.isNegated then "-" else "") ++ bars ++ o.addressing.indexed o.source.letters o.index ++ bars ++ o.swizzleText

end Operand

/-- Where a result is stored. -/
inductive Target where
  | nowhere
  | register
  | interpolator
  | position
  | pointSize
  | colorTarget
  | depth
  | exportAddress
  | exportData
deriving DecidableEq, Inhabited

/-- The destination of an ALU or fetch instruction; `swizzle` tells what each written component receives. -/
structure Result where
  target : Target
  index : UInt32
  addressing : Addressing
  mask : WriteMask
  swizzle : Swizzle
  isClamped : Bool
deriving DecidableEq, Inhabited

namespace Result

/-- A destination with an empty mask. -/
def storing (target : Target) (index : UInt32) (addressing : Addressing) : Result where
  target := target
  index := index
  addressing := addressing
  mask := .empty
  swizzle := .identity
  isClamped := false

/-- Stores nothing. -/
def none : Result := storing .nowhere 0 .absolute

def register (index : UInt32) (isRelative : Bool) : Result := storing .register index (.ofRelative isRelative)

def hasAnyWrites (r : Result) : Bool := r.target != .nowhere && !r.mask.isEmpty

/-- Whether the text shows no components: all are written, each with its own. -/
def isStandardSwizzle (r : Result) : Bool := r.mask == .full && r.swizzle == .identity

def targetText (r : Result) : String :=
  match r.target with
  | .nowhere => "_"
  | .register => r.addressing.indexed "r" r.index
  | .interpolator => "o" ++ decimal r.index
  | .position => "oPos"
  | .pointSize => "oPts"
  | .colorTarget => "oC" ++ decimal r.index
  | .depth => "oDepth"
  | .exportAddress => "eA"
  | .exportData => "eM" ++ decimal r.index

/-- A component that is not written shows as a low line. -/
def swizzleText (r : Result) : String :=
  if r.isStandardSwizzle then ""
  else "." ++ String.ofList (List.zipWith (fun written c => if written then c.letter else '_') r.mask.toList r.swizzle.toList)

def text (r : Result) : String := r.targetText ++ r.swizzleText

end Result

/-- Whether an instruction runs only under the predicate register, and the value it asks for. -/
structure Predicate where
  isPredicated : Bool
  condition : Bool
deriving DecidableEq, Inhabited

namespace Predicate

/-- The six characters in front of an instruction's text. -/
def column (p : Predicate) : String :=
  match p.isPredicated, p.condition with
  | false, _ => "      "
  | true, true => " (p0) "
  | true, false => "(!p0) "

/-- The column of an instruction that always runs. -/
def blank : String := column ⟨false, false⟩

end Predicate

end ShaderMicrocode
