/-!
# Bit fields

A run of bits inside a 32-bit word. Reading a field takes exactly its bits, and placing a value
drops the bits of the value beyond the field's width, so a placed field never touches its neighbours.
-/
namespace ShaderMicrocode

/-- The `width` bits of a word from bit `offset` up. -/
structure BitField where
  offset : Nat
  width : Nat
deriving DecidableEq

namespace BitField

/-- The single bit `offset`. -/
def bit (offset : Nat) : BitField := ⟨offset, 1⟩

/-- The field holds at least one bit and lies inside 32 bits. -/
def Fits (f : BitField) : Prop := 0 < f.width ∧ f.offset + f.width ≤ 32

/-- No bit belongs to both fields. -/
def Apart (f g : BitField) : Prop := f.offset + f.width ≤ g.offset ∨ g.offset + g.width ≤ f.offset

instance (f : BitField) : Decidable f.Fits := inferInstanceAs (Decidable (_ ∧ _))

instance (f g : BitField) : Decidable (f.Apart g) := inferInstanceAs (Decidable (_ ∨ _))

/-- How many values the field can hold. -/
def size (f : BitField) : Nat := 1 <<< f.width

/-- The value of the field in `w`. -/
def read (f : BitField) (w : UInt32) : UInt32 :=
  UInt32.ofNat ((w.toNat >>> f.offset) % f.size)

/-- A word that is zero but for the field, which holds the low bits of `v`. -/
def place (f : BitField) (v : UInt32) : UInt32 :=
  UInt32.ofNat ((v.toNat % f.size) <<< f.offset)

/-- Whether any bit of the field is set in `w`. -/
def test (f : BitField) (w : UInt32) : Bool := f.read w != 0

/-- The field holding one for `true` and zero for `false`. -/
def mark (f : BitField) (b : Bool) : UInt32 := f.place b.toUInt32

/-- The value of the field in `w` as a two's complement number of the field's width. -/
def readSigned (f : BitField) (w : UInt32) : Int32 :=
  Int32.ofInt (Int.bmod (f.read w).toNat f.size)

/-- The field holding the low bits of the two's complement form of `v`. -/
def placeSigned (f : BitField) (v : Int32) : UInt32 := f.place v.toUInt32

theorem toNat_read_lt (f : BitField) (w : UInt32) : (f.read w).toNat < f.size := by
  rw [read, size, Nat.one_shiftLeft, UInt32.toNat_ofNat']
  exact Nat.lt_of_le_of_lt (Nat.mod_le _ _) (Nat.mod_lt _ (Nat.two_pow_pos _))

theorem testBit_read (f : BitField) (hf : f.Fits) (w : UInt32) (i : Nat) :
    (f.read w).toNat.testBit i = (decide (i < f.width) && w.toNat.testBit (f.offset + i)) := by
  have hlt : (w.toNat >>> f.offset) % 2 ^ f.width < 2 ^ 32 :=
    Nat.lt_of_lt_of_le (Nat.mod_lt _ (Nat.two_pow_pos _))
      (Nat.pow_le_pow_right (by decide) (by have := hf.2; omega))
  rw [read, size, Nat.one_shiftLeft, UInt32.toNat_ofNat', Nat.mod_eq_of_lt hlt, Nat.testBit_mod_two_pow,
    Nat.testBit_shiftRight]

theorem testBit_place (f : BitField) (hf : f.Fits) (v : UInt32) (i : Nat) :
    (f.place v).toNat.testBit i =
      (decide (f.offset ≤ i ∧ i < f.offset + f.width) && v.toNat.testBit (i - f.offset)) := by
  have hlt : (v.toNat % 2 ^ f.width) <<< f.offset < 2 ^ 32 := by
    rw [Nat.shiftLeft_eq]
    calc (v.toNat % 2 ^ f.width) * 2 ^ f.offset
        < 2 ^ f.width * 2 ^ f.offset :=
          Nat.mul_lt_mul_of_pos_right (Nat.mod_lt _ (Nat.two_pow_pos _)) (Nat.two_pow_pos _)
      _ = 2 ^ (f.offset + f.width) := by rw [← Nat.pow_add, Nat.add_comm]
      _ ≤ 2 ^ 32 := Nat.pow_le_pow_right (by decide) hf.2
  rw [place, size, Nat.one_shiftLeft, UInt32.toNat_ofNat', Nat.mod_eq_of_lt hlt, Nat.testBit_shiftLeft,
    Nat.testBit_mod_two_pow]
  have hin : (f.offset ≤ i ∧ i < f.offset + f.width) ↔ (f.offset ≤ i ∧ i - f.offset < f.width) := by omega
  rw [decide_eq_decide.mpr hin, Bool.decide_and, Bool.and_assoc]

theorem eq_of_testBit {a b : UInt32} (h : ∀ i, a.toNat.testBit i = b.toNat.testBit i) : a = b :=
  UInt32.toNat_inj.mp (Nat.eq_of_testBit_eq h)

theorem read_or (f : BitField) (hf : f.Fits) (a b : UInt32) :
    f.read (a ||| b) = f.read a ||| f.read b := by
  apply eq_of_testBit
  intro i
  simp only [testBit_read _ hf, UInt32.toNat_or, Nat.testBit_or]
  cases decide (i < f.width) <;> simp

theorem read_place (f : BitField) (hf : f.Fits) (v : UInt32) :
    f.read (f.place v) = UInt32.ofNat (v.toNat % f.size) := by
  apply eq_of_testBit
  intro i
  have hle : 2 ^ f.width ≤ 2 ^ 32 := Nat.pow_le_pow_right (by decide) (by have := hf.2; omega)
  have hlt : v.toNat % 2 ^ f.width < 2 ^ 32 :=
    Nat.lt_of_lt_of_le (Nat.mod_lt _ (Nat.two_pow_pos _)) hle
  rw [testBit_read _ hf, testBit_place _ hf, size, Nat.one_shiftLeft, UInt32.toNat_ofNat', Nat.mod_eq_of_lt hlt,
    Nat.testBit_mod_two_pow]
  by_cases h : i < f.width <;> simp [h]

theorem read_place_of_apart (f g : BitField) (hf : f.Fits) (hg : g.Fits) (h : f.Apart g) (v : UInt32) :
    f.read (g.place v) = 0 := by
  apply eq_of_testBit
  intro i
  rw [testBit_read _ hf, testBit_place _ hg]
  by_cases hi : i < f.width
  · have : ¬(g.offset ≤ f.offset + i ∧ f.offset + i < g.offset + g.width) := by
      rcases h with h | h <;> omega
    simp [this]
  · simp [hi]

end BitField

end ShaderMicrocode
