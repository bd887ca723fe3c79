import ShaderMicrocode.DecodeError
import ShaderMicrocode.Fetch.VertexFormat
import ShaderMicrocode.Fetch.VertexWord
/-!
# Vertex fetches

A vertex fetch with its slot, source and format resolved, and its text.
-/
namespace ShaderMicrocode.Fetch

structure VertexFetch where
  address : UInt32
  name : String
  isMini : Bool
  predicate : Predicate
  slot : UInt32
  result : Result
  operands : List Operand
  format : VertexFormat
  /-- Offset in dwords. -/
  offset : Int32
  /-- Stride in dwords. -/
  stride : UInt32
  expAdjust : Int32
  prefetchCount : UInt32
  isIndexRounded : Bool
  isSigned : Bool
  isInteger : Bool
  signedRfMode : Bool
deriving DecidableEq, Inhabited

/-- The word that gives a fetch its slot, source and stride: itself, or for a mini fetch the last full fetch. -/
def VertexWord.base (op : VertexWord) (lastFull : Option VertexWord) : Except DecodeError VertexWord :=
  if op.isMiniFetch then
    match lastFull with
    | some full => .ok full
    | none => .error .miniFetchWithoutFullFetch
  else .ok op

/-- A fetch once its base and format are known. -/
def VertexWord.fetch (op base : VertexWord) (format : VertexFormat) (address : UInt32) : VertexFetch where
  address := address
  name := if op.isMiniFetch then "vfetch_mini" else "vfetch_full"
  isMini := op.isMiniFetch
  predicate := op.predicate
  slot := base.slot
  result := fetchResult op.dstReg op.dstRelative op.dstSwizzle
  operands :=
    [ .register base.srcReg base.srcRelative 1 { Swizzle.identity with x := .ofIndex base.srcSwizzle }
    , .slot .vertexFetchConstant base.slot ]
  format := format
  offset := op.offset
  stride := base.stride
  expAdjust := op.expAdjust
  prefetchCount := op.prefetchCount
  isIndexRounded := op.isIndexRounded
  isSigned := op.isSigned
  isInteger := op.isInteger
  signedRfMode := op.signedRfMode

/-- A missing full fetch is reported before a bad format. -/
def VertexWord.resolve (op : VertexWord) (lastFull : Option VertexWord) (address : UInt32) :
    Except DecodeError VertexFetch :=
  match op.base lastFull with
  | .error e => .error e
  | .ok base =>
    match VertexFormat.ofCode? op.format with
    | none => .error (.invalidVertexFormat op.format)
    | some format => .ok (op.fetch base format address)

/-- The last full fetch once `op` has been visited. -/
def VertexWord.remember (op : VertexWord) (lastFull : Option VertexWord) : Option VertexWord :=
  if op.isMiniFetch then lastFull else some op

namespace VertexFetch

/-- The text without the predicate column; settings at their usual value are left out. -/
def text (f : VertexFetch) : String :=
  f.name ++ " " ++ f.result.text ++ String.join (f.operands.map fun o => ", " ++ o.text)
    ++ ", Format=" ++ f.format.name
    ++ (if f.offset = 0 then "" else ", Offset=" ++ signedDecimal f.offset)
    ++ (if f.isMini then "" else ", Stride=" ++ decimal f.stride)
    ++ (if f.isSigned then ", Signed=true" else "")
    ++ (if f.isInteger then ", NumFormat=integer" else "")
    ++ (if f.expAdjust = 0 then "" else ", ExpAdjust=" ++ signedDecimal f.expAdjust)
    ++ (if f.prefetchCount = 0 then "" else ", PrefetchCount=" ++ decimal (f.prefetchCount + 1))
    ++ (if f.isIndexRounded then ", RoundIndex=true" else "")

end VertexFetch

end ShaderMicrocode.Fetch
