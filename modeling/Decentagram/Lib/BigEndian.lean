import Mathlib.Algebra.Order.Ring.Nat

/-! # Big-endian numbers -/

namespace Decentagram.Lib.BigEndian

def value : List UInt8 → Nat
  | [] => 0
  | byte :: bytes => byte.toNat * 256 ^ bytes.length + value bytes

/-- The lowest `width` bytes of a number. -/
def digits : Nat → Nat → List UInt8
  | 0, _ => []
  | width + 1, n => UInt8.ofNat (n / 256 ^ width) :: digits width n

@[simp] theorem value_nil : value [] = 0 := rfl

@[simp] theorem value_cons (byte : UInt8) (bytes : List UInt8) :
    value (byte :: bytes) = byte.toNat * 256 ^ bytes.length + value bytes := rfl

theorem value_lt (bytes : List UInt8) : value bytes < 256 ^ bytes.length := by
  induction bytes with
  | nil => simp
  | cons byte bytes inductionHypothesis =>
    have small : byte.toNat + 1 ≤ 256 := byte.toNat_lt
    calc value (byte :: bytes)
        < byte.toNat * 256 ^ bytes.length + 256 ^ bytes.length := by
          simpa using inductionHypothesis
      _ = (byte.toNat + 1) * 256 ^ bytes.length := (Nat.succ_mul _ _).symm
      _ ≤ 256 * 256 ^ bytes.length := Nat.mul_le_mul_right _ small
      _ = 256 ^ (byte :: bytes).length := by rw [List.length_cons, Nat.pow_succ, Nat.mul_comm]

@[simp] theorem length_digits (width n : Nat) : (digits width n).length = width := by
  induction width with
  | zero => rfl
  | succ width inductionHypothesis => simp [digits, inductionHypothesis]

/-- Zeros in front do not count. -/
theorem value_dropWhile (bytes : List UInt8) :
    value (bytes.dropWhile fun byte => byte = 0) = value bytes := by
  induction bytes with
  | nil => rfl
  | cons byte bytes inductionHypothesis =>
    by_cases zero : byte = 0
    · simp [zero, inductionHypothesis]
    · simp [zero]

theorem value_digits (width n : Nat) : value (digits width n) = n % 256 ^ width := by
  induction width with
  | zero => simp [digits, Nat.mod_one]
  | succ width inductionHypothesis =>
    have top : (UInt8.ofNat (n / 256 ^ width)).toNat = n / 256 ^ width % 256 := by simp
    simp only [digits, value_cons, length_digits, inductionHypothesis, top, Nat.pow_succ]
    rw [Nat.mod_mul, Nat.mul_comm (256 ^ width), Nat.add_comm]

theorem digits_add {lead width n : Nat} (small : n < 256 ^ width) :
    digits (lead + width) n = List.replicate lead 0 ++ digits width n := by
  induction lead with
  | zero => simp
  | succ lead inductionHypothesis =>
    have noDigit : n / 256 ^ (lead + width) = 0 := by
      apply Nat.div_eq_of_lt
      exact small.trans_le (Nat.pow_le_pow_right (by decide) (Nat.le_add_left width lead))
    have next : lead + 1 + width = lead + width + 1 := by omega
    simp [next, digits, noDigit, inductionHypothesis, List.replicate_succ]

theorem eq_of_value_eq {left right : List UInt8} (sameLength : left.length = right.length)
    (sameValue : value left = value right) : left = right := by
  induction left generalizing right with
  | nil => exact (List.length_eq_zero_iff.mp sameLength.symm).symm
  | cons byte bytes inductionHypothesis =>
    cases right with
    | nil => cases sameLength
    | cons byte' bytes' =>
      simp only [List.length_cons, Nat.add_right_cancel_iff] at sameLength
      simp only [value_cons, sameLength] at sameValue
      have small := value_lt bytes
      have small' := value_lt bytes'
      rw [sameLength] at small
      have sameByte : byte.toNat = byte'.toNat := by
        have quotient := congrArg (· / 256 ^ bytes'.length) sameValue
        have positive : 0 < 256 ^ bytes'.length := Nat.pow_pos (by decide)
        simpa only [Nat.mul_comm _ (256 ^ bytes'.length), Nat.mul_add_div positive,
          Nat.div_eq_of_lt small, Nat.div_eq_of_lt small', Nat.add_zero] using quotient
      rw [sameByte] at sameValue
      rw [UInt8.toNat_inj.mp sameByte, inductionHypothesis sameLength (Nat.add_left_cancel sameValue)]

theorem digits_value (bytes : List UInt8) : digits bytes.length (value bytes) = bytes := by
  apply eq_of_value_eq (length_digits _ _)
  rw [value_digits, Nat.mod_eq_of_lt (value_lt bytes)]

/-- Without a zero in front the number needs every byte. -/
theorem pow_le_value {byte : UInt8} {bytes : List UInt8} (notZero : byte ≠ 0) :
    256 ^ bytes.length ≤ value (byte :: bytes) := by
  have positive : 0 < byte.toNat := by
    apply Nat.pos_of_ne_zero
    intro isZero
    exact notZero (UInt8.toNat_inj.mp isZero)
  calc 256 ^ bytes.length
      ≤ byte.toNat * 256 ^ bytes.length := Nat.le_mul_of_pos_left _ positive
    _ ≤ value (byte :: bytes) := Nat.le_add_right _ _

/-- Two ways to write a number without a zero in front are the same. -/
theorem eq_of_minimal {left right : List UInt8} (leftMinimal : left.head? ≠ some 0)
    (rightMinimal : right.head? ≠ some 0) (sameValue : value left = value right) : left = right := by
  refine eq_of_value_eq ?_ sameValue
  -- the longer one would have the larger value
  have bound : ∀ {short long : List UInt8}, long.head? ≠ some 0 → value short = value long →
      long.length ≤ short.length := by
    intro short long minimal same
    cases long with
    | nil => simp
    | cons byte bytes =>
      have notZero : byte ≠ 0 := by simpa using minimal
      have less : 256 ^ bytes.length < 256 ^ short.length :=
        (pow_le_value notZero).trans_lt (same ▸ value_lt short)
      exact (Nat.pow_lt_pow_iff_right (by decide)).mp less
  exact Nat.le_antisymm (bound leftMinimal sameValue.symm) (bound rightMinimal sameValue)

end Decentagram.Lib.BigEndian
