import Mathlib.Data.Nat.Bitwise

/-! # Bloom filters

A filter is the number whose one bits are the positions its elements select.  Stored as bytes, the highest
byte comes first.
-/

namespace Decentagram.Lib.Bloom

def ofPositions (positions : List Nat) : Nat :=
  positions.foldr (fun position filter => 2 ^ position ||| filter) 0

@[simp] theorem testBit_ofPositions (positions : List Nat) (position : Nat) :
    (ofPositions positions).testBit position = decide (position ∈ positions) := by
  induction positions with
  | nil => simp [ofPositions]
  | cons first positions inductionHypothesis =>
    change (2 ^ first ||| ofPositions positions).testBit position = _
    rw [Nat.testBit_or, Nat.testBit_two_pow, inductionHypothesis]
    simp [eq_comm]

/-- The lowest `width` bytes of a number, highest byte first. -/
def bigEndian (width value : Nat) : List UInt8 :=
  (List.range width).reverse.map fun i => UInt8.ofNat (value >>> (8 * i))

theorem getD_bigEndian {width i : Nat} (inside : i < width) (value : Nat) :
    (bigEndian width value).getD (width - i - 1) 0 = UInt8.ofNat (value >>> (8 * i)) := by
  have bound : width - i - 1 < (bigEndian width value).length := by
    simp [bigEndian]
    omega
  rw [List.getD_eq_getElem _ _ bound]
  simp only [bigEndian, List.getElem_map, List.getElem_reverse, List.getElem_range, List.length_range]
  rw [show width - 1 - (width - i - 1) = i by omega]

/-- Where a bit of the number is found in the bytes. -/
theorem testBit_bigEndian {width position : Nat} (inside : position < 8 * width) (value : Nat) :
    ((bigEndian width value).getD (width - position / 8 - 1) 0).toNat.testBit (position % 8) =
      value.testBit position := by
  have isByte : position % 8 < 8 := Nat.mod_lt _ (by decide)
  rw [getD_bigEndian (by omega), UInt8.toNat_ofNat', show (2 : Nat) ^ 8 = 2 ^ 8 from rfl,
    Nat.testBit_mod_two_pow, Nat.testBit_shiftRight, Nat.div_add_mod]
  simp [isByte]

/-- The test of one bit of a byte by a mask. -/
theorem and_shiftLeft_ne_zero (byte shift : UInt8) :
    byte &&& ((1 : UInt8) <<< (shift &&& 0x7)) ≠ 0 ↔ byte.toNat.testBit (shift.toNat % 8) = true := by
  have shifts : (shift &&& 0x7).toNat = shift.toNat % 8 := by
    rw [UInt8.toNat_and]
    exact Nat.and_two_pow_sub_one_eq_mod shift.toNat 3
  have isByte : shift.toNat % 8 < 8 := Nat.mod_lt _ (by decide)
  have mask : ((1 : UInt8) <<< (shift &&& 0x7)).toNat = 2 ^ (shift.toNat % 8) := by
    rw [UInt8.toNat_shiftLeft, shifts, Nat.mod_eq_of_lt isByte]
    have small : 2 ^ (shift.toNat % 8) < 2 ^ 8 := Nat.pow_lt_pow_right (by decide) isByte
    simpa [Nat.shiftLeft_eq] using small
  rw [ne_eq, ← UInt8.toNat_inj, UInt8.toNat_and, mask, Nat.and_two_pow]
  cases byte.toNat.testBit (shift.toNat % 8) <;> simp

end Decentagram.Lib.Bloom
