import Mathlib.Logic.Function.Basic
import ShaderMicrocode.Alu.Word
import ShaderMicrocode.Proofs.Packing
/-!
# ALU words and their triples

The fields of an ALU word fill its triple without a gap, so a triple that is decoded and encoded again is the same, and
different triples are different words. A word that is encoded and decoded again has its numbers cut to their widths.
-/
namespace ShaderMicrocode.Alu

open BitField

namespace Word

/-- The word with every number cut to its width. -/
def wrapped (op : Word) : Word :=
  { op with
    vectorDest := op.vectorDest % 64
    scalarDest := op.scalarDest % 64
    vectorWriteMask := op.vectorWriteMask % 16
    scalarWriteMask := op.scalarWriteMask % 16
    scalarOpcode := op.scalarOpcode % 64
    src3Swizzle := op.src3Swizzle % 256
    src2Swizzle := op.src2Swizzle % 256
    src1Swizzle := op.src1Swizzle % 256
    src3Reg := op.src3Reg % 256
    src2Reg := op.src2Reg % 256
    src1Reg := op.src1Reg % 256
    vectorOpcode := op.vectorOpcode % 32 }

/-- Every number fits its field. -/
structure InRange (op : Word) : Prop where
  vectorDest : op.vectorDest < 64
  scalarDest : op.scalarDest < 64
  vectorWriteMask : op.vectorWriteMask < 16
  scalarWriteMask : op.scalarWriteMask < 16
  scalarOpcode : op.scalarOpcode < 64
  src3Swizzle : op.src3Swizzle < 256
  src2Swizzle : op.src2Swizzle < 256
  src1Swizzle : op.src1Swizzle < 256
  src3Reg : op.src3Reg < 256
  src2Reg : op.src2Reg < 256
  src1Reg : op.src1Reg < 256
  vectorOpcode : op.vectorOpcode < 32

private theorem wrapped_eq_self_of_inRange {op : Word} (h : op.InRange) : op.wrapped = op := by
  simp only [wrapped, UInt32.mod_eq_of_lt h.vectorDest, UInt32.mod_eq_of_lt h.scalarDest,
    UInt32.mod_eq_of_lt h.vectorWriteMask, UInt32.mod_eq_of_lt h.scalarWriteMask, UInt32.mod_eq_of_lt h.scalarOpcode,
    UInt32.mod_eq_of_lt h.src3Swizzle, UInt32.mod_eq_of_lt h.src2Swizzle, UInt32.mod_eq_of_lt h.src1Swizzle,
    UInt32.mod_eq_of_lt h.src3Reg, UInt32.mod_eq_of_lt h.src2Reg, UInt32.mod_eq_of_lt h.src1Reg,
    UInt32.mod_eq_of_lt h.vectorOpcode]

theorem inRange_decode (t : Triple) : (decode t).InRange where
  vectorDest := toNat_read_lt Field.vectorDest t.d0
  scalarDest := toNat_read_lt Field.scalarDest t.d0
  vectorWriteMask := toNat_read_lt Field.vectorWriteMask t.d0
  scalarWriteMask := toNat_read_lt Field.scalarWriteMask t.d0
  scalarOpcode := toNat_read_lt Field.scalarOpcode t.d0
  src3Swizzle := toNat_read_lt Field.src3Swizzle t.d1
  src2Swizzle := toNat_read_lt Field.src2Swizzle t.d1
  src1Swizzle := toNat_read_lt Field.src1Swizzle t.d1
  src3Reg := toNat_read_lt Field.src3Reg t.d2
  src2Reg := toNat_read_lt Field.src2Reg t.d2
  src1Reg := toNat_read_lt Field.src1Reg t.d2
  vectorOpcode := toNat_read_lt Field.vectorOpcode t.d2

theorem decode_encode (op : Word) : decode op.encode = op.wrapped := by
  unfold decode
  simp (disch := decide) only [encode, mark, read_or, read_place_self, read_place_of_apart, test_or, test_place_self,
    test_place_of_apart, UInt32.or_zero, UInt32.zero_or, Bool.or_false, Bool.false_or]
  rfl

theorem encode_decode (t : Triple) : (decode t).encode = t := by
  have h0 : (decode t).encode.d0 = t.d0 := by
    simp (disch := decide) only [decode, encode, place_read, mark_test, and_or_and]
    exact and_of_full (by decide) t.d0
  have h1 : (decode t).encode.d1 = t.d1 := by
    simp (disch := decide) only [decode, encode, place_read, mark_test, and_or_and]
    exact and_of_full (by decide) t.d1
  have h2 : (decode t).encode.d2 = t.d2 := by
    simp (disch := decide) only [decode, encode, place_read, mark_test, and_or_and]
    exact and_of_full (by decide) t.d2
  calc (decode t).encode = ⟨(decode t).encode.d0, (decode t).encode.d1, (decode t).encode.d2⟩ := rfl
    _ = t := by rw [h0, h1, h2]

theorem decode_injective : Function.Injective decode := Function.LeftInverse.injective encode_decode

/-- The word of a triple, as one of the words whose numbers fit their fields. -/
def decodeInRange (t : Triple) : { op : Word // op.InRange } := ⟨decode t, inRange_decode t⟩

theorem decodeInRange_bijective : Function.Bijective decodeInRange := by
  constructor
  · intro t u h
    exact decode_injective (congrArg Subtype.val h)
  · intro ⟨op, hop⟩
    have hdecode : decode op.encode = op := op.decode_encode.trans (wrapped_eq_self_of_inRange hop)
    exact ⟨op.encode, Subtype.ext hdecode⟩

end Word

/-- Decoding loses no bit of a triple, and encoding no more of a word than what its fields cannot hold. So triples stand
for exactly the words whose numbers fit their fields. -/
theorem alu_words_round_trip :
    (∀ t, (Word.decode t).encode = t) ∧
      (∀ op : Word, Word.decode op.encode = op.wrapped) ∧
      Function.Bijective Word.decodeInRange ∧ ∀ t u, Word.decode t = Word.decode u → t = u :=
  ⟨Word.encode_decode, Word.decode_encode, Word.decodeInRange_bijective, fun _ _ h => Word.decode_injective h⟩

end ShaderMicrocode.Alu
