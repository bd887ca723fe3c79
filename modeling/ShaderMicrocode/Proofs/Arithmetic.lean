import ShaderMicrocode.Proofs.Decoded
import ShaderMicrocode.Proofs.Walk
/-!
# Arithmetic on words

Decoding shifts, masks, adds and multiplies numbers of 32 bits. The fields are so narrow that each of these operations
gives the number that it stands for: no shift is by the width of a word or more, and no sum, product or difference
leaves its type.
-/
namespace ShaderMicrocode

open ControlFlow Fetch

/-! Shifts. -/

private theorem toNat_shiftRight {k : Nat} {s : UInt32} (hs : s.toNat = k) (hk : k < 32) (x : UInt32) :
    (x >>> s).toNat = x.toNat / 2 ^ k := by
  rw [UInt32.toNat_shiftRight, hs, Nat.mod_eq_of_lt hk, Nat.shiftRight_eq_div_pow]

private theorem toNat_shiftLeft {k n : Nat} {s x : UInt32} (hs : s.toNat = k) (hk : k < 32) (hx : x.toNat < 2 ^ n)
    (hn : n + k ≤ 32) : (x <<< s).toNat = x.toNat * 2 ^ k := by
  have hlt : x.toNat * 2 ^ k < 2 ^ 32 :=
    calc x.toNat * 2 ^ k
        < 2 ^ n * 2 ^ k := Nat.mul_lt_mul_of_pos_right hx (Nat.two_pow_pos k)
      _ = 2 ^ (n + k) := (Nat.pow_add 2 n k).symm
      _ ≤ 2 ^ 32 := Nat.pow_le_pow_right Nat.zero_lt_two hn
  rw [UInt32.toNat_shiftLeft, hs, Nat.mod_eq_of_lt hk, Nat.shiftLeft_eq, Nat.mod_eq_of_lt hlt]

private theorem toNat_ofNat_lt {k : Nat} (hk : k < 32) : (UInt32.ofNat k).toNat = k :=
  UInt32.toNat_ofNat_of_lt' (Nat.lt_trans hk (by decide))

private theorem bmod_mul_right {m k : Nat} (hm : 0 < m) (hk : 0 < k) (v : Int) :
    Int.bmod (v * k) (2 * m * k) = Int.bmod v (2 * m) * k := by
  have hscale : (0 : Int) < k := Int.natCast_pos.mpr hk
  have hm2 : 0 < 2 * m := Nat.mul_pos Nat.zero_lt_two hm
  obtain ⟨hlow, hhigh, q, hq⟩ := (Int.bmod_eq_iff hm2).mp (rfl : Int.bmod v (2 * m) = _)
  have hlow : -(m : Int) * k ≤ Int.bmod v (2 * m) * k := Int.mul_le_mul_of_nonneg_right (by omega) (by omega)
  have hhigh : Int.bmod v (2 * m) * k < m * k := Int.mul_lt_mul_of_pos_right (by omega) hscale
  have hhalf : ((2 * m * k : Nat) : Int) = 2 * (m * k) := by
    rw [Nat.mul_assoc]
    rfl
  rw [Int.neg_mul] at hlow
  rw [Int.bmod_eq_iff (Nat.mul_pos hm2 hk), hhalf]
  refine ⟨by omega, by omega, q, ?_⟩
  rw [← Int.sub_mul, hq, Int.mul_right_comm, ← hhalf]
  rfl

/-- The number that the low `bits` bits of `value` hold in two's complement: they are shifted to the top of the word,
and the shift back copies the sign. -/
def signExtend (bits : Nat) (value : UInt32) : Int32 :=
  (value <<< UInt32.ofNat (32 - bits)).toInt32 >>> Int32.ofNat (32 - bits)

theorem toInt_signExtend {bits : Nat} (hpos : 0 < bits) (hle : bits ≤ 32) {value : UInt32}
    (hvalue : value.toNat < 2 ^ bits) : (signExtend bits value).toInt = Int.bmod value.toNat (2 ^ bits) := by
  have hk : 32 - bits < 32 := by omega
  have hraised : (value <<< UInt32.ofNat (32 - bits)).toNat = value.toNat * 2 ^ (32 - bits) :=
    toNat_shiftLeft (toNat_ofNat_lt hk) hk hvalue (by omega)
  have hback : (Int32.ofNat (32 - bits)).toBitVec.smod 32 = BitVec.ofNat 32 (32 - bits) := by
    generalize 32 - bits = k at hk
    decide +revert
  have hback' : (BitVec.ofNat 32 (32 - bits)).toNat = 32 - bits := Nat.mod_eq_of_lt (by omega)
  have hhalf : 2 ^ bits = 2 * 2 ^ (bits - 1) := by rw [Nat.mul_comm, Nat.two_pow_pred_mul_two hpos]
  have hword : 2 ^ 32 = 2 * 2 ^ (bits - 1) * 2 ^ (32 - bits) := by
    rw [← hhalf, ← Nat.pow_add, Nat.add_sub_cancel' hle]
  have hscale : ((2 ^ (32 - bits) : Nat) : Int) ≠ 0 := Int.natCast_ne_zero.mpr (Nat.ne_of_gt (Nat.two_pow_pos _))
  calc (signExtend bits value).toInt
      = ((value <<< UInt32.ofNat (32 - bits)).toBitVec.toInt) >>> (32 - bits) := by
        rw [← Int32.toInt_toBitVec, signExtend, Int32.toBitVec_shiftRight, hback, BitVec.toInt_sshiftRight',
          UInt32.toBitVec_toInt32, hback']
    _ = Int.bmod (value.toNat * (2 ^ (32 - bits) : Nat)) (2 ^ 32) >>> (32 - bits) := by
        rw [BitVec.toInt_eq_toNat_bmod, UInt32.toNat_toBitVec, hraised, Int.natCast_mul]
    _ = Int.bmod value.toNat (2 ^ bits) * (2 ^ (32 - bits) : Nat) / (2 ^ (32 - bits) : Nat) := by
        rw [hword, bmod_mul_right (Nat.two_pow_pos _) (Nat.two_pow_pos _), ← hhalf, Int.shiftRight_eq_div_pow]
    _ = Int.bmod value.toNat (2 ^ bits) := Int.mul_ediv_cancel _ hscale

namespace BitField

/-- The field is cut out of a word with shifts by less than 32, and the shifts that extend its sign lose nothing. -/
structure IsExact (f : BitField) : Prop where
  offset_lt : f.offset < 32
  rest_lt : 32 - f.width < 32
  read : ∀ w, f.read w = w >>> UInt32.ofNat f.offset &&& UInt32.ofNat (f.size - 1)
  toNat_read : ∀ w, (f.read w).toNat = w.toNat / 2 ^ f.offset % 2 ^ f.width
  raised : ∀ w, (f.read w <<< UInt32.ofNat (32 - f.width)).toNat = (f.read w).toNat * 2 ^ (32 - f.width)
  readSigned : ∀ w, f.readSigned w = signExtend f.width (f.read w)

private theorem size_le {f : BitField} (hf : f.Fits) : 2 ^ f.width ≤ UInt32.size :=
  Nat.pow_le_pow_right Nat.zero_lt_two (width_le hf)

theorem toNat_read (f : BitField) (hf : f.Fits) (w : UInt32) :
    (f.read w).toNat = w.toNat / 2 ^ f.offset % 2 ^ f.width := by
  have hlt : w.toNat / 2 ^ f.offset % 2 ^ f.width < UInt32.size :=
    Nat.lt_of_lt_of_le (Nat.mod_lt _ (Nat.two_pow_pos _)) (size_le hf)
  rw [read, size_eq, Nat.shiftRight_eq_div_pow, UInt32.toNat_ofNat_of_lt' hlt]

theorem isExact_of_fits (f : BitField) (hf : f.Fits) : f.IsExact := by
  have hpos := hf.1
  have hend := hf.2
  have hoffset : f.offset < 32 := by omega
  have hrest : 32 - f.width < 32 := by omega
  have hread (w : UInt32) : (f.read w).toNat < 2 ^ f.width := by
    rw [← size_eq]
    exact f.toNat_read_lt w
  have hmask : (UInt32.ofNat (f.size - 1)).toNat = 2 ^ f.width - 1 := by
    have hsize := size_le hf
    have hsize' := Nat.two_pow_pos f.width
    rw [size_eq, UInt32.toNat_ofNat_of_lt' (by omega)]
  refine ⟨hoffset, hrest, fun w => ?_, f.toNat_read hf, fun w => ?_, fun w => ?_⟩
  · rw [← UInt32.toNat_inj, f.toNat_read hf, UInt32.toNat_and, hmask, Nat.and_two_pow_sub_one_eq_mod,
      toNat_shiftRight (toNat_ofNat_lt hoffset) hoffset]
  · exact toNat_shiftLeft (toNat_ofNat_lt hrest) hrest (hread w) (by omega)
  · rw [← Int32.toInt_inj, toInt_signExtend hpos (width_le hf) (hread w), f.toInt_readSigned hf]

end BitField

/-! Control flow words. -/

namespace ControlFlow

/-- The fields of a low dword and of a high half. -/
def fields : List BitField :=
  [Word.opcodeField, Word.absoluteAddressField,
    ExecField.address, ExecField.count, ExecField.isYield, ExecField.sequence, ExecField.vertexCacheHigh,
    ExecField.vertexCacheLow, ExecField.boolAddress, ExecField.isPredicateClean, ExecField.condition,
    LoopField.address, LoopField.isRepeat, LoopField.loopId, LoopField.isPredicatedBreak, LoopField.condition,
    BranchField.address, BranchField.isUnconditional, BranchField.isPredicated, BranchField.isBackward,
    BranchField.boolAddress, BranchField.condition,
    AllocField.size, AllocField.isUnserialized, AllocField.kind]

/-- The words of a pair are put together of whole parts of the triple. -/
structure PairIsExact (t : Triple) : Prop where
  low : (unpackPair t).2.low.toNat = t.d1.toNat / 2 ^ 16 + t.d2.toNat % 2 ^ 16 * 2 ^ 16
  high : (unpackPair t).2.high.toNat = t.d2.toNat / 2 ^ 16

theorem pairIsExact (t : Triple) : PairIsExact t where
  low := by
    have hlow : (t.d1 >>> 16).toNat < 2 ^ 16 := by
      rw [toNat_shiftRight_half]
      exact Nat.div_lt_of_lt_mul t.d1.toNat_lt
    rw [unpackPair, toNat_join_half _ hlow, toNat_shiftRight_half, Nat.add_comm]
  high := by
    have hhigh : t.d2.toNat / 2 ^ 16 < 2 ^ 16 := Nat.div_lt_of_lt_mul t.d2.toNat_lt
    rw [unpackPair, UInt32.toNat_toUInt16, toNat_shiftRight_half, Nat.mod_eq_of_lt hhigh]

theorem toNat_vertexCache (w : Word) :
    (ExecLayout.decode w).vertexCache.toNat =
      (ExecField.vertexCacheHigh.read w.low).toNat * 2 ^ 2 + (ExecField.vertexCacheLow.read w.high.toUInt32).toNat := by
  have hhigh : (ExecField.vertexCacheHigh.read w.low).toNat < 16 := BitField.toNat_read_lt _ _
  have hlow : (ExecField.vertexCacheLow.read w.high.toUInt32).toNat < 2 ^ 2 := BitField.toNat_read_lt _ _
  rw [ExecLayout.decode, toNat_join (k := 2) rfl (by decide) hlow,
    Nat.mod_eq_of_lt (Nat.lt_trans hhigh (by decide))]

/-- Word `i` of the block lies where its number says, and its bit of the sequence is found by a shift. -/
structure ExecLayout.IsExactAt (e : ExecLayout) (i : Nat) : Prop where
  address : (e.address + UInt32.ofNat i).toNat = e.address.toNat + i
  address_le : (e.address + UInt32.ofNat i).toNat ≤ 4101
  offset_le : wordOffset (e.address + UInt32.ofNat i) + 3 ≤ 12306
  shift_lt : 2 * i < 32
  isFetch : e.isFetch i = (e.sequence >>> UInt32.ofNat (2 * i) &&& 1 == 1)

theorem ExecLayout.isFetch_eq (e : ExecLayout) {i : Nat} (hi : 2 * i < 32) :
    e.isFetch i = (e.sequence >>> UInt32.ofNat (2 * i) &&& 1 == 1) := by
  have hleft : e.sequenceAt i = e.sequence >>> UInt32.ofNat (2 * i) := by
    rw [← UInt32.toNat_inj, e.toNat_sequenceAt, Nat.shiftRight_eq_div_pow, toNat_shiftRight (toNat_ofNat_lt hi) hi]
  rw [← e.lowBit_sequenceAt, hleft]

theorem ExecLayout.Fits.isExactAt {e : ExecLayout} (h : e.Fits) {i : Nat} (hi : i < e.count.toNat) : e.IsExactAt i := by
  have haddress := h.address_lt
  have hcount := h.count_lt
  have hsum := h.toNat_address (by omega : i < 8)
  refine ⟨hsum, ?_, ?_, by omega, e.isFetch_eq (by omega)⟩
  · omega
  · rw [wordOffset]
    omega

end ControlFlow

/-! Fetch words. -/

namespace Fetch

/-- The fields of all fetches, of vertex fetches and of texture fetches. -/
def fields : List BitField :=
  [opcodeField,
    VertexField.srcReg, VertexField.srcRelative, VertexField.dstReg, VertexField.dstRelative, VertexField.mustBeOne,
    VertexField.constIndex, VertexField.constIndexSelect, VertexField.prefetchCount, VertexField.srcSwizzle,
    VertexField.dstSwizzle, VertexField.isSigned, VertexField.isInteger, VertexField.signedRfMode,
    VertexField.isIndexRounded, VertexField.format, VertexField.expAdjust, VertexField.isMiniFetch,
    VertexField.isPredicated, VertexField.stride, VertexField.offset, VertexField.predicateCondition,
    TextureField.srcReg, TextureField.srcRelative, TextureField.dstReg, TextureField.dstRelative,
    TextureField.fetchValidOnly, TextureField.constIndex, TextureField.unnormalizedCoordinates, TextureField.srcSwizzle,
    TextureField.dstSwizzle, TextureField.magFilter, TextureField.minFilter, TextureField.mipFilter,
    TextureField.anisoFilter, TextureField.arbitraryFilter, TextureField.volMagFilter, TextureField.volMinFilter,
    TextureField.useComputedLod, TextureField.useRegisterLod, TextureField.isPredicated,
    TextureField.useRegisterGradients, TextureField.sampleLocation, TextureField.lodBias, TextureField.dimension,
    TextureField.offsetX, TextureField.offsetY, TextureField.offsetZ, TextureField.predicateCondition]

structure VertexWord.IsExact (op : VertexWord) : Prop where
  slot : op.slot.toNat = op.constIndex.toNat * 3 + op.constIndexSelect.toNat
  slot_le : op.slot.toNat ≤ 96
  prefetches : (op.prefetchCount + 1).toNat = op.prefetchCount.toNat + 1
  prefetches_le : (op.prefetchCount + 1).toNat ≤ 8

theorem VertexWord.isExact_decode (t : Triple) : (decode t).IsExact := by
  obtain ⟨hslot, hindex, hselect⟩ := toNat_slot_decode t
  have hprefetch : (decode t).prefetchCount.toNat < 8 := VertexField.prefetchCount.toNat_read_lt t.d0
  have hone : (1 : UInt32).toNat = 1 := rfl
  have hsum : ((decode t).prefetchCount + 1).toNat = (decode t).prefetchCount.toNat + 1 := by
    rw [UInt32.toNat_add, hone]
    omega
  exact ⟨by omega, by omega, hsum, by omega⟩

end Fetch

structure VertexAttribute.IsExact (a : VertexAttribute) : Prop where
  byteOffset : a.byteOffset.toInt = 4 * a.offsetInWords.toInt
  byteOffset_ge : -2 ^ 24 ≤ a.byteOffset.toInt
  byteOffset_lt : a.byteOffset.toInt < 2 ^ 24

theorem VertexAttribute.isExact_of_inSigned {a : VertexAttribute} (h : InSigned 23 a.offsetInWords) : a.IsExact := by
  have hlow : -2 ^ 22 ≤ a.offsetInWords.toInt := h.1
  have hhigh : a.offsetInWords.toInt < 2 ^ 22 := h.2
  have hfour : (4 : Int32).toInt = 4 := rfl
  have hbytes : a.byteOffset.toInt = 4 * a.offsetInWords.toInt := by
    rw [byteOffset, Int32.toInt_mul, hfour, Int.mul_comm]
    apply Int.bmod_eq_of_le <;> omega
  exact ⟨hbytes, by omega, by omega⟩

/-! Swizzles and destinations. -/

/-- The shifts that take a swizzle apart, and what is added to a component that is counted from its position. -/
structure SwizzleIsExact (swizzle : UInt32) : Prop where
  shift_lt : ∀ j < 4, 2 * j < 32 ∧ 3 * j < 32
  source : ∀ j < 4, (swizzle >>> UInt32.ofNat (2 * j)).toNat = swizzle.toNat / 4 ^ j
  select : ∀ j < 4, (swizzle >>> UInt32.ofNat (3 * j)).toNat = swizzle.toNat / 8 ^ j
  relative : ∀ j < 4, ((swizzle >>> UInt32.ofNat (2 * j)) + UInt32.ofNat j).toNat = swizzle.toNat / 4 ^ j + j
  last : ((swizzle >>> 6) + 3).toNat = swizzle.toNat / 64 + 3

theorem swizzleIsExact (swizzle : UInt32) : SwizzleIsExact swizzle := by
  have hlt : swizzle.toNat < 2 ^ 32 := swizzle.toNat_lt
  have hsource (j : Nat) (hj : j < 4) : (swizzle >>> UInt32.ofNat (2 * j)).toNat = swizzle.toNat / 4 ^ j := by
    have hshift : 2 * j < 32 := by omega
    rw [toNat_shiftRight (toNat_ofNat_lt hshift) hshift, Nat.pow_mul]
  refine ⟨fun j hj => by omega, hsource, fun j hj => ?_, fun j hj => ?_, ?_⟩
  · have hshift : 3 * j < 32 := by omega
    rw [toNat_shiftRight (toNat_ofNat_lt hshift) hshift, Nat.pow_mul]
  · -- at position zero nothing is added, and at any other the shift makes room for the sum
    have hsum : swizzle.toNat / 4 ^ j + j < 2 ^ 32 := by
      cases j with
      | zero => rwa [Nat.pow_zero, Nat.div_one]
      | succ j =>
        have hle : swizzle.toNat / 4 ^ (j + 1) ≤ swizzle.toNat / 4 := by
          rw [Nat.pow_succ', ← Nat.div_div_eq_div_mul]
          exact Nat.div_le_self _ _
        omega
    rw [UInt32.toNat_add, hsource j hj, toNat_ofNat_lt (by omega), Nat.mod_eq_of_lt hsum]
  · have hthree : (3 : UInt32).toNat = 3 := rfl
    rw [UInt32.toNat_add, toNat_shiftRight (k := 6) rfl (by decide), hthree]
    omega

namespace Alu

/-- The fields of an ALU word, and the bits of a swizzle that number a register. -/
def fields : List BitField :=
  [Field.vectorDest, Field.vectorDestRelative, Field.absConstants, Field.scalarDest, Field.scalarDestRelative,
    Field.exportData, Field.vectorWriteMask, Field.scalarWriteMask, Field.vectorClamp, Field.scalarClamp,
    Field.scalarOpcode, Field.src3Swizzle, Field.src2Swizzle, Field.src1Swizzle, Field.src3Negate, Field.src2Negate,
    Field.src1Negate, Field.predicateCondition, Field.isPredicated, Field.addressAbsolute, Field.const1Relative,
    Field.const0Relative, Field.src3Reg, Field.src2Reg, Field.src1Reg, Field.vectorOpcode, Field.src3Temp,
    Field.src2Temp, Field.src1Temp, ⟨2, 4⟩]

theorem Word.toNat_packedRegister (op : Word) :
    op.packedRegister.toNat =
      op.src3Swizzle.toNat / 4 % 16 * 4 + op.src3Temp.toNat * 2 + op.scalarOpcode.toNat % 2 := by
  have hmiddle : (BitField.read ⟨2, 4⟩ op.src3Swizzle).toNat = op.src3Swizzle.toNat / 4 % 16 :=
    BitField.toNat_read ⟨2, 4⟩ (by decide) op.src3Swizzle
  have hflag : op.src3Temp.toUInt32.toNat = op.src3Temp.toNat := by cases op.src3Temp <;> rfl
  have hbit : op.src3Temp.toNat ≤ 1 := Bool.toNat_le _
  have hopcode : (op.scalarOpcode % 2).toNat = op.scalarOpcode.toNat % 2 := UInt32.toNat_mod _ _
  have hlow : (op.src3Temp.toUInt32 <<< 1 ||| op.scalarOpcode % 2).toNat =
      op.src3Temp.toNat * 2 + op.scalarOpcode.toNat % 2 := by
    rw [toNat_join (k := 1) rfl (by decide) (by omega), hflag, hopcode]
    omega
  rw [packedRegister, UInt32.or_assoc, toNat_join (k := 2) rfl (by decide) (by omega), hmiddle, hlow]
  omega

/-- Only the destinations 33 to 37 are counted from 33. -/
theorem toNat_exportData {stage : Stage} {dest index : UInt32}
    (h : exportTarget? stage dest = some (.exportData, index)) :
    33 ≤ dest.toNat ∧ dest.toNat ≤ 37 ∧ index.toNat = dest.toNat - 33 := by
  have hshared (h : exportTarget?.shared dest = some (.exportData, index)) :
      33 ≤ dest.toNat ∧ dest.toNat ≤ 37 ∧ index.toNat = dest.toNat - 33 := by
    unfold exportTarget?.shared at h
    split at h
    · cases h
    · split at h
      case isTrue hdest =>
        cases h
        exact ⟨hdest.1, hdest.2, UInt32.toNat_sub_of_le _ _ hdest.1⟩
      case isFalse => cases h
  unfold exportTarget? at h
  cases stage with
  | vertex =>
    dsimp only at h
    repeat' split at h
    all_goals first | cases h | exact hshared h
  | pixel =>
    dsimp only at h
    repeat' split at h
    all_goals first | cases h | exact hshared h

end Alu

theorem isExact_of_mem_fields {f : BitField} (hf : f ∈ ControlFlow.fields ++ Fetch.fields ++ Alu.fields) : f.IsExact :=
  f.isExact_of_fits ((by decide : ∀ f ∈ ControlFlow.fields ++ Fetch.fields ++ Alu.fields, f.Fits) f hf)

/-! Triples. -/

/-- Whatever a triple is taken for, nothing that is computed of its fields leaves its type. -/
structure Triple.IsExact (stage : Stage) (t : Triple) : Prop where
  pair : PairIsExact t
  vertexCache : ∀ w, w = (unpackPair t).1 ∨ w = (unpackPair t).2 →
    (ExecLayout.decode w).vertexCache.toNat =
      (ExecField.vertexCacheHigh.read w.low).toNat * 2 ^ 2 + (ExecField.vertexCacheLow.read w.high.toUInt32).toNat
  vertexFetch : (VertexWord.decode t).IsExact
  fetchSwizzles : SwizzleIsExact (VertexWord.decode t).dstSwizzle ∧ SwizzleIsExact (TextureWord.decode t).srcSwizzle ∧
    SwizzleIsExact (TextureWord.decode t).dstSwizzle
  aluSwizzles : ∀ i, SwizzleIsExact ((Alu.Word.decode t).source i).swizzle
  packedRegister : (Alu.Word.decode t).packedRegister.toNat =
    (Alu.Word.decode t).src3Swizzle.toNat / 4 % 16 * 4 + (Alu.Word.decode t).src3Temp.toNat * 2 +
      (Alu.Word.decode t).scalarOpcode.toNat % 2
  exportData : ∀ index, Alu.exportTarget? stage (Alu.Word.decode t).vectorDest = some (.exportData, index) →
    33 ≤ (Alu.Word.decode t).vectorDest.toNat ∧ (Alu.Word.decode t).vectorDest.toNat ≤ 37 ∧
      index.toNat = (Alu.Word.decode t).vectorDest.toNat - 33

theorem Triple.isExact (stage : Stage) (t : Triple) : t.IsExact stage where
  pair := pairIsExact t
  vertexCache w _ := toNat_vertexCache w
  vertexFetch := VertexWord.isExact_decode t
  fetchSwizzles := ⟨swizzleIsExact _, swizzleIsExact _, swizzleIsExact _⟩
  aluSwizzles _ := swizzleIsExact _
  packedRegister := (Alu.Word.decode t).toNat_packedRegister
  exportData _ h := Alu.toNat_exportData h

end ShaderMicrocode
