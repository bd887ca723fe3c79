import Mathlib.Algebra.Group.Nat.Defs
import Mathlib.Algebra.Group.Int.Defs
import ShaderMicrocode.BitField
/-!
# Packed words

A word made of fields that lie apart gives each of them back, cut to its width. The other way round, the fields of a
word make up the word without the bits that belong to none of them.
-/
namespace ShaderMicrocode

/-- The two's complement number of `width` bits that agrees with `v` in its low bits. -/
def wrapSigned (width : Nat) (v : Int32) : Int32 := .ofInt (Int.bmod v.toInt (2 ^ width))

private theorem toInt_eq_bmod_toUInt32 (v : Int32) : v.toInt = Int.bmod v.toUInt32.toNat (2 ^ 32) :=
  BitVec.toInt_eq_toNat_bmod v.toBitVec

private theorem toNat_toUInt32_ofInt (z : Int) : ((Int32.ofInt z).toUInt32.toNat : Int) = z % 2 ^ 32 :=
  (congrArg Int.ofNat (BitVec.toNat_ofInt z)).trans (Int.toNat_of_nonneg (Int.emod_nonneg z (by decide)))

/-- The numbers that `width` bits of two's complement hold. -/
def InSigned (width : Nat) (v : Int32) : Prop := -2 ^ (width - 1) ≤ v.toInt ∧ v.toInt < 2 ^ (width - 1)

theorem toInt_ofInt_bmod {width : Nat} (hle : width ≤ 32) (z : Int) :
    (Int32.ofInt (Int.bmod z (2 ^ width))).toInt = Int.bmod z (2 ^ width) := by
  have hpos : 0 < 2 ^ width := Nat.two_pow_pos width
  have hsize : 2 ^ width ≤ Int32.size := Nat.pow_le_pow_right Nat.zero_lt_two hle
  have hlow : -(((2 ^ width : Nat) : Int) / 2) ≤ Int.bmod z (2 ^ width) := Int.le_bmod hpos
  have hhigh : Int.bmod z (2 ^ width) < (((2 ^ width : Nat) : Int) + 1) / 2 := Int.bmod_lt hpos
  rw [Int32.toInt_ofInt]
  apply Int.bmod_eq_of_le <;> omega

theorem toInt_wrapSigned {width : Nat} (hle : width ≤ 32) (v : Int32) :
    (wrapSigned width v).toInt = Int.bmod v.toInt (2 ^ width) :=
  toInt_ofInt_bmod hle v.toInt

theorem wrapSigned_eq_self_iff {width : Nat} (hpos : 0 < width) (hle : width ≤ 32) (v : Int32) :
    wrapSigned width v = v ↔ InSigned width v := by
  obtain ⟨n, rfl⟩ := Nat.exists_eq_add_one.mpr hpos
  have hdouble : 2 ^ (n + 1) = 2 * 2 ^ n := Nat.pow_succ'
  have hcast : ((2 ^ n : Nat) : Int) = 2 ^ n := Int.natCast_pow 2 n
  have hdvd : ((2 * 2 ^ n : Nat) : Int) ∣ v.toInt - v.toInt := ⟨0, by omega⟩
  rw [← Int32.toInt_inj, toInt_wrapSigned hle, InSigned, Nat.add_sub_cancel, Int.bmod_eq_iff (Nat.two_pow_pos _),
    hdouble, ← hcast, and_iff_left hdvd]
  omega

theorem mod_eq_self_iff {v m : UInt32} (hm : 0 < m) : v % m = v ↔ v < m := by
  rw [← UInt32.toNat_inj, UInt32.toNat_mod, UInt32.lt_iff_toNat_lt]
  exact Nat.mod_eq_iff_lt (Nat.ne_of_gt hm)

/-! A word made of a high and a low part. -/

theorem toNat_join {k : Nat} {s high low : UInt32} (hs : s.toNat = k) (hk : k < 32) (hlow : low.toNat < 2 ^ k) :
    (high <<< s ||| low).toNat = high.toNat % 2 ^ (32 - k) * 2 ^ k + low.toNat := by
  have hword : 2 ^ 32 = 2 ^ (32 - k) * 2 ^ k := by
    rw [← Nat.pow_add, Nat.sub_add_cancel (Nat.le_of_lt hk)]
  rw [UInt32.toNat_or, UInt32.toNat_shiftLeft, hs, Nat.mod_eq_of_lt hk, Nat.shiftLeft_eq, hword, Nat.mul_mod_mul_right,
    ← Nat.shiftLeft_eq, Nat.shiftLeft_add_eq_or_of_lt hlow]

theorem toNat_shiftRight_half (x : UInt32) : (x >>> 16).toNat = x.toNat / 2 ^ 16 :=
  (UInt32.toNat_shiftRight x 16).trans (Nat.shiftRight_eq_div_pow _ 16)

theorem toNat_join_half {low : UInt32} (high : UInt32) (hlow : low.toNat < 2 ^ 16) :
    (low ||| high <<< 16).toNat = high.toNat % 2 ^ 16 * 2 ^ 16 + low.toNat := by
  rw [UInt32.or_comm]
  exact toNat_join rfl (by decide) hlow

namespace BitField

theorem size_eq (f : BitField) : f.size = 2 ^ f.width := Nat.one_shiftLeft _

private theorem size_dvd (f : BitField) (hf : f.Fits) : f.size ∣ 2 ^ 32 := by
  rw [size_eq]
  exact Nat.pow_dvd_pow 2 (by have := hf.2; omega)

/-! Masks. -/

/-- The bits of a field. -/
def mask (f : BitField) : UInt32 := f.place 0xFFFFFFFF

/-- The bits of several fields. -/
def masks (fs : List BitField) : UInt32 := fs.foldr (fun f m => f.mask ||| m) 0

/-- The word `w` with the bits of the field cleared. -/
def clear (f : BitField) (w : UInt32) : UInt32 := w &&& ~~~f.mask

private theorem testBit_mask (f : BitField) (hf : f.Fits) (i : Nat) :
    f.mask.toNat.testBit i = decide (f.offset ≤ i ∧ i < f.offset + f.width) := by
  have hall : (0xFFFFFFFF : UInt32).toNat = 2 ^ 32 - 1 := rfl
  rw [mask, testBit_place f hf, hall, Nat.testBit_two_pow_sub_one]
  have := hf.2
  by_cases h : f.offset ≤ i ∧ i < f.offset + f.width
  · simp [h]
    omega
  · simp [h]

theorem and_or_and (w a b : UInt32) : w &&& a ||| w &&& b = w &&& (a ||| b) := by
  apply eq_of_testBit
  intro i
  simp only [UInt32.toNat_or, UInt32.toNat_and, Nat.testBit_or, Nat.testBit_and, Bool.and_or_distrib_left]

theorem and_of_full {m : UInt32} (h : m = 0xFFFFFFFF) (w : UInt32) : w &&& m = w := by
  rw [h]
  exact UInt32.and_neg_one

/-! What is read from a field and placed in it again. -/

theorem place_congr (f : BitField) {v v' : UInt32} (h : v.toNat % f.size = v'.toNat % f.size) :
    f.place v = f.place v' := by
  rw [place, place, h]

theorem place_read (f : BitField) (hf : f.Fits) (w : UInt32) : f.place (f.read w) = w &&& f.mask := by
  apply eq_of_testBit
  intro i
  rw [UInt32.toNat_and, Nat.testBit_and, testBit_mask f hf, testBit_place f hf, testBit_read f hf]
  by_cases h : f.offset ≤ i ∧ i < f.offset + f.width
  · have hi : i - f.offset < f.width := by omega
    have hsum : f.offset + (i - f.offset) = i := by omega
    simp [h, hi, hsum]
  · simp [h]

theorem mark_test (f : BitField) (hf : f.Fits) (hbit : f.width = 1) (w : UInt32) :
    f.mark (f.test w) = w &&& f.mask := by
  have hlt := f.toNat_read_lt w
  have hsize : f.size = 2 := by rw [size, hbit]; rfl
  rw [← place_read f hf, mark, test]
  congr 1
  by_cases h : f.read w = 0
  · rw [h]; rfl
  · have hone : f.read w = 1 := by
      rw [← UInt32.toNat_inj] at h ⊢
      simp only [UInt32.toNat_zero, UInt32.toNat_one] at h ⊢
      omega
    rw [hone]; rfl

theorem placeSigned_readSigned (f : BitField) (hf : f.Fits) (w : UInt32) :
    f.placeSigned (f.readSigned w) = w &&& f.mask := by
  have hdvd : (f.size : Int) ∣ 2 ^ 32 := Int.ofNat_dvd.mpr (f.size_dvd hf)
  rw [← place_read f hf]
  apply place_congr
  apply Int.ofNat_inj.mp
  rw [readSigned, Int.natCast_emod, toNat_toUInt32_ofInt, Int.emod_emod_of_dvd _ hdvd, Int.bmod_emod, Int.natCast_emod]

/-! What is placed in a field and read again. -/

theorem read_place_self (f : BitField) (hf : f.Fits) (v : UInt32) : f.read (f.place v) = v % UInt32.ofNat f.size := by
  rw [read_place f hf, ← UInt32.toNat_inj, UInt32.toNat_mod, UInt32.toNat_ofNat', UInt32.toNat_ofNat']
  have hpos : 0 < f.size := by rw [size_eq]; exact Nat.two_pow_pos _
  by_cases h : f.size < 2 ^ 32
  · rw [Nat.mod_eq_of_lt h, Nat.mod_eq_of_lt (Nat.lt_trans (Nat.mod_lt _ hpos) h)]
  · have hsize : f.size = 2 ^ 32 := Nat.le_antisymm (Nat.le_of_dvd (by decide) (f.size_dvd hf)) (Nat.le_of_not_lt h)
    rw [hsize, Nat.mod_self, Nat.mod_zero, Nat.mod_mod, Nat.mod_eq_of_lt v.toNat_lt]

theorem read_mod (f : BitField) (hf : f.Fits) {m : UInt32} (hm : UInt32.ofNat f.size = m) (w : UInt32) :
    f.read w % m = f.read w := by
  rw [← hm, ← read_place_self f hf, read_place f hf, Nat.mod_eq_of_lt (f.toNat_read_lt w), UInt32.ofNat_toNat]

theorem test_or (f : BitField) (hf : f.Fits) (a b : UInt32) : f.test (a ||| b) = (f.test a || f.test b) := by
  rw [test, test, test, read_or f hf, Bool.eq_iff_iff]
  simp [UInt32.or_eq_zero_iff, Classical.or_iff_not_imp_left]

theorem test_place_self (f : BitField) (hf : f.Fits) (b : Bool) : f.test (f.place b.toUInt32) = b := by
  have hsize : 2 ^ 1 ≤ f.size := by
    rw [size_eq]
    exact Nat.pow_le_pow_right Nat.zero_lt_two hf.1
  rw [test, read_place f hf]
  cases b with
  | false => rfl
  | true =>
    have hone : true.toUInt32.toNat % f.size = 1 := Nat.mod_eq_of_lt hsize
    rw [hone]
    rfl

theorem test_place_of_apart (f g : BitField) (hf : f.Fits) (hg : g.Fits) (h : f.Apart g) (v : UInt32) :
    f.test (g.place v) = false := by
  rw [test, read_place_of_apart f g hf hg h]
  rfl

theorem readSigned_of_read (f : BitField) (hf : f.Fits) {w : UInt32} {v : Int32}
    (h : f.read w = v.toUInt32 % UInt32.ofNat f.size) : f.readSigned w = wrapSigned f.width v := by
  have hlt : v.toUInt32.toNat % f.size < 2 ^ 32 := Nat.lt_of_le_of_lt (Nat.mod_le _ _) v.toUInt32.toNat_lt
  rw [readSigned, h, ← read_place_self f hf, read_place f hf, UInt32.toNat_ofNat', Nat.mod_eq_of_lt hlt, wrapSigned,
    toInt_eq_bmod_toUInt32 v, ← size_eq, Int.bmod_bmod_of_dvd (f.size_dvd hf), Int.natCast_emod, Int.emod_bmod]

/-! Halves of words. -/

theorem read_toUInt16 (f : BitField) (hf : f.Fits) (h : f.offset + f.width ≤ 16) (w : UInt32) :
    f.read w.toUInt16.toUInt32 = f.read w := by
  apply eq_of_testBit
  intro i
  rw [testBit_read f hf, testBit_read f hf, UInt16.toNat_toUInt32, UInt32.toNat_toUInt16, Nat.testBit_mod_two_pow]
  by_cases hi : i < f.width
  · have : f.offset + i < 16 := by omega
    simp [this]
  · simp [hi]

theorem test_toUInt16 (f : BitField) (hf : f.Fits) (h : f.offset + f.width ≤ 16) (w : UInt32) :
    f.test w.toUInt16.toUInt32 = f.test w := by
  rw [test, test, read_toUInt16 f hf h]

end BitField

end ShaderMicrocode
