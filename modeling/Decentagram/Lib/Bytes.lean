import Mathlib.Algebra.Order.Ring.Nat
import Mathlib.Data.Nat.Bitwise

/-! # Bits of bytes

Statements about every byte, and bits that are put together from parts.
-/

namespace Decentagram.Lib

theorem forall_byte {holds : UInt8 → Prop} (all : ∀ n < 256, holds (UInt8.ofNat n)) (byte : UInt8) :
    holds byte := by
  have here := all byte.toNat byte.toNat_lt
  rwa [UInt8.ofNat_toNat] at here

theorem eq_ofNat {byte : UInt8} {n : Nat} (same : byte.toNat = n) : byte = UInt8.ofNat n := by
  rw [← same, UInt8.ofNat_toNat]

/-- Bits below those of a multiple of a power of two are added to it. -/
theorem toNat_or_below {high low : UInt8} {i top : Nat} (isHigh : high.toNat = 2 ^ i * top)
    (below : low.toNat < 2 ^ i) : (high ||| low).toNat = high.toNat + low.toNat := by
  rw [UInt8.toNat_or, isHigh, ← Nat.two_pow_add_eq_or_of_lt below]

end Decentagram.Lib
