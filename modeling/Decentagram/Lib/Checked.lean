import Mathlib.Data.BitVec

/-! # Checked arithmetic

Unsigned words whose operations fail where the plain ones wrap, and how they read as numbers. -/

namespace Decentagram.Lib.Checked

variable {w : Nat}

def add (a b : BitVec w) : Option (BitVec w) :=
  if a.toNat + b.toNat < 2 ^ w then some (a + b) else none

def sub (a b : BitVec w) : Option (BitVec w) :=
  if b ≤ a then some (a - b) else none

def mul (a b : BitVec w) : Option (BitVec w) :=
  if a.toNat * b.toNat < 2 ^ w then some (a * b) else none

def div (a b : BitVec w) : Option (BitVec w) :=
  if b = 0 then none else some (a / b)

theorem add_eq_some_iff {a b c : BitVec w} : add a b = some c ↔ c.toNat = a.toNat + b.toNat := by
  have bound := c.isLt
  unfold add
  split
  next small =>
    rw [Option.some.injEq, ← BitVec.toNat_inj, BitVec.toNat_add, Nat.mod_eq_of_lt small, eq_comm]
  next large => exact iff_of_false (by simp) (by omega)

theorem sub_eq_some_iff {a b c : BitVec w} : sub a b = some c ↔ a.toNat = b.toNat + c.toNat := by
  have bound := c.isLt
  unfold sub
  split
  next le =>
    rw [Option.some.injEq, ← BitVec.toNat_inj, BitVec.toNat_sub_of_le le]
    have := BitVec.le_def.mp le
    omega
  next less =>
    refine iff_of_false (by simp) fun sum => less (BitVec.le_def.mpr ?_)
    omega

theorem mul_eq_some_iff {a b c : BitVec w} : mul a b = some c ↔ c.toNat = a.toNat * b.toNat := by
  have bound := c.isLt
  unfold mul
  split
  next small =>
    rw [Option.some.injEq, ← BitVec.toNat_inj, BitVec.toNat_mul, Nat.mod_eq_of_lt small, eq_comm]
  next large => exact iff_of_false (by simp) (by omega)

theorem div_eq_some_iff {a b c : BitVec w} :
    div a b = some c ↔ b ≠ 0 ∧ c.toNat = a.toNat / b.toNat := by
  unfold div
  split
  next zero => simp [zero]
  next nonzero =>
    rw [Option.some.injEq, ← BitVec.toNat_inj, BitVec.toNat_udiv, eq_comm]
    exact ⟨fun same => ⟨nonzero, same⟩, fun same => same.2⟩

/-- Where an operation with the value `n` fails, the value is too large. -/
theorem le_of_eq_none {result : Option (BitVec w)} {n : Nat}
    (spec : ∀ c, result = some c ↔ c.toNat = n) (failed : result = none) : 2 ^ w ≤ n := by
  by_contra small
  have returned := (spec (BitVec.ofNat w n)).mpr (by
    rw [BitVec.toNat_ofNat, Nat.mod_eq_of_lt (by omega)])
  cases failed.symm.trans returned

theorem sub_isSome_iff {a b : BitVec w} : (sub a b).isSome ↔ b.toNat ≤ a.toNat := by
  unfold sub
  split <;> simp_all [BitVec.le_def]

theorem eq_of_sub_eq_some {a b c : BitVec w} (returned : sub a b = some c) : c = a - b := by
  unfold sub at returned
  split at returned
  · exact (Option.some.inj returned).symm
  · cases returned

theorem lt_of_sub_eq_none {a b : BitVec w} (failed : sub a b = none) : a.toNat < b.toNat := by
  by_contra le
  have returned := sub_isSome_iff.mpr (Nat.not_lt.mp le)
  simp [failed] at returned

end Decentagram.Lib.Checked
