import Mathlib.Algebra.Order.Ring.Int

/-! # Numbers as objects

The values of `RealNumImpl` with their types, and the comparisons between any two of them.
-/

namespace Decentagram.SimpleObjects

/-- Those of `RealNumType` that are integers or Booleans. -/
inductive RealNumType where
  | bool
  | int8
  | int16
  | int32
  | int64
  | uint8
  | uint16
  | uint32
  | uint64
deriving DecidableEq, Repr

namespace RealNumType

def isSigned : RealNumType → Bool
  | .int8 | .int16 | .int32 | .int64 => true
  | .bool | .uint8 | .uint16 | .uint32 | .uint64 => false

def bits : RealNumType → Nat
  | .bool => 1
  | .int8 | .uint8 => 8
  | .int16 | .uint16 => 16
  | .int32 | .uint32 => 32
  | .int64 | .uint64 => 64

/-- `lowest` and `max` of `std::numeric_limits`. -/
def lowest (numType : RealNumType) : Int := if numType.isSigned then -2 ^ (numType.bits - 1) else 0

def max (numType : RealNumType) : Int :=
  if numType.isSigned then 2 ^ (numType.bits - 1) - 1 else 2 ^ numType.bits - 1

theorem values_pos (numType : RealNumType) : (0 : Int) < 2 ^ numType.bits := by
  cases numType <;> decide

/-- A conversion to an integer type keeps the value modulo the number of its values. -/
def wrap (numType : RealNumType) (val : Int) : Int :=
  (val - numType.lowest) % 2 ^ numType.bits + numType.lowest

theorem max_eq (numType : RealNumType) : numType.max = numType.lowest + 2 ^ numType.bits - 1 := by
  cases numType <;> rfl

theorem lowest_le_wrap (numType : RealNumType) (val : Int) : numType.lowest ≤ numType.wrap val := by
  have nonneg := Int.emod_nonneg (val - numType.lowest) (ne_of_gt numType.values_pos)
  unfold wrap
  omega

theorem wrap_le_max (numType : RealNumType) (val : Int) : numType.wrap val ≤ numType.max := by
  have small := Int.emod_lt_of_pos (val - numType.lowest) numType.values_pos
  rw [max_eq]
  unfold wrap
  omega

theorem wrap_of_range {numType : RealNumType} {val : Int} (atLeast : numType.lowest ≤ val)
    (atMost : val ≤ numType.max) : numType.wrap val = val := by
  rw [max_eq] at atMost
  rw [wrap, Int.emod_eq_of_lt (by omega) (by omega), Int.sub_add_cancel]

end RealNumType

structure RealNum where
  numType : RealNumType
  val : Int
  atLeast : numType.lowest ≤ val
  atMost : val ≤ numType.max
deriving DecidableEq, Repr

namespace RealNum

def ofBool (val : Bool) : RealNum where
  numType := .bool
  val := if val then 1 else 0
  atLeast := by cases val <;> decide
  atMost := by cases val <;> decide

/-- `static_cast` to an integer type. -/
def cast (numType : RealNumType) (val : Int) : RealNum where
  numType
  val := numType.wrap val
  atLeast := numType.lowest_le_wrap val
  atMost := numType.wrap_le_max val

def isTrue (num : RealNum) : Bool := num.val ≠ 0

theorem ext {left right : RealNum} (sameType : left.numType = right.numType)
    (sameVal : left.val = right.val) : left = right := by
  cases left
  cases right
  cases sameType
  cases sameVal
  rfl

theorem cast_val (num : RealNum) : cast num.numType num.val = num :=
  ext rfl (RealNumType.wrap_of_range num.atLeast num.atMost)

theorem ofBool_isTrue {num : RealNum} (isBool : num.numType = .bool) : ofBool num.isTrue = num := by
  have atLeast := num.atLeast
  have atMost := num.atMost
  rw [isBool] at atLeast atMost
  have range : num.val = 0 ∨ num.val = 1 := by
    change 0 ≤ num.val at atLeast
    change num.val ≤ 1 at atMost
    omega
  refine ext isBool.symm ?_
  cases range with
  | inl isZero => simp [ofBool, isTrue, isZero]
  | inr isOne => simp [ofBool, isTrue, isOne]

end RealNum

/-! ## Comparisons -/

def directCmp (t u : Int) : Int := (if t > u then 1 else 0) - (if t < u then 1 else 0)

/-- The conversion to the unsigned type of the same width. -/
def makeUnsigned (numType : RealNumType) (val : Int) : Int := val % 2 ^ numType.bits

/-- `cmp_impl`: of a signed and an unsigned value the sign is looked at first. -/
def cmpImpl {α : Type} (whenLess whenGreater : α) (direct : Int → Int → α) (t u : RealNum) : α :=
  match t.numType.isSigned, u.numType.isSigned with
  | true, false => if t.val < 0 then whenLess else direct (makeUnsigned t.numType t.val) u.val
  | false, true => if u.val < 0 then whenGreater else direct t.val (makeUnsigned u.numType u.val)
  | _, _ => direct t.val u.val

def cmpEqual : RealNum → RealNum → Bool := cmpImpl false false fun t u => t = u

def cmpLess : RealNum → RealNum → Bool := cmpImpl true false fun t u => t < u

def threeWayCmp : RealNum → RealNum → Int := cmpImpl (-1) 1 directCmp

namespace RealNumCompare

/-- Values of one type, and a Boolean with any other, which is cast to the other's type, are compared as
    they are. -/
def isDirect (lhs rhs : RealNum) : Bool :=
  lhs.numType = rhs.numType || lhs.numType = .bool || rhs.numType = .bool

def compare (lhs rhs : RealNum) : Int :=
  if isDirect lhs rhs then directCmp lhs.val rhs.val else threeWayCmp lhs rhs

def equal (lhs rhs : RealNum) : Bool :=
  if isDirect lhs rhs then lhs.val = rhs.val else cmpEqual lhs rhs

def greater (lhs rhs : RealNum) : Bool :=
  if isDirect lhs rhs then lhs.val > rhs.val else cmpLess rhs lhs

end RealNumCompare

theorem directCmp_neg_iff {t u : Int} : directCmp t u < 0 ↔ t < u := by
  unfold directCmp
  split <;> split <;> omega

theorem directCmp_eq_zero_iff {t u : Int} : directCmp t u = 0 ↔ t = u := by
  unfold directCmp
  split <;> split <;> omega

/-- Below zero a signed value stays what it is as an unsigned one. -/
theorem makeUnsigned_of_nonneg {num : RealNum} (nonneg : 0 ≤ num.val) :
    makeUnsigned num.numType num.val = num.val := by
  have atMost := num.atMost
  have lowest : num.numType.lowest ≤ 0 := by cases num.numType <;> decide
  rw [RealNumType.max_eq] at atMost
  exact Int.emod_eq_of_lt nonneg (by omega)

theorem nonneg_of_unsigned {num : RealNum}
    (isUnsigned : num.numType.isSigned = false) : 0 ≤ num.val := by
  have atLeast := num.atLeast
  rwa [RealNumType.lowest, if_neg (by simp [isUnsigned])] at atLeast

/-- What the signs decide is what the values decide. -/
theorem cmpImpl_eq {α : Type} {whenLess whenGreater : α} {direct : Int → Int → α}
    (less : ∀ t u, t < u → direct t u = whenLess) (greater : ∀ t u, u < t → direct t u = whenGreater)
    (t u : RealNum) : cmpImpl whenLess whenGreater direct t u = direct t.val u.val := by
  unfold cmpImpl
  split
  · rename_i signed isUnsigned
    split
    · rename_i negative
      exact (less _ _ (lt_of_lt_of_le negative (nonneg_of_unsigned isUnsigned))).symm
    · rename_i nonneg
      rw [makeUnsigned_of_nonneg (not_lt.mp nonneg)]
  · rename_i isUnsigned signed
    split
    · rename_i negative
      exact (greater _ _ (lt_of_lt_of_le negative (nonneg_of_unsigned isUnsigned))).symm
    · rename_i nonneg
      rw [makeUnsigned_of_nonneg (not_lt.mp nonneg)]
  · rfl

namespace RealNumCompare

theorem compare_eq (lhs rhs : RealNum) : compare lhs rhs = directCmp lhs.val rhs.val := by
  unfold compare
  split
  · rfl
  · refine cmpImpl_eq ?_ ?_ lhs rhs
    · intro t u less
      rw [directCmp, if_neg (by omega), if_pos less]
      rfl
    · intro t u greater
      rw [directCmp, if_pos greater, if_neg (by omega)]
      rfl

theorem equal_iff (lhs rhs : RealNum) : equal lhs rhs = true ↔ lhs.val = rhs.val := by
  have isEqual : equal lhs rhs = decide (lhs.val = rhs.val) := by
    unfold equal
    split
    · rfl
    · refine cmpImpl_eq ?_ ?_ lhs rhs
      · exact fun t u less => decide_eq_false (ne_of_lt less)
      · exact fun t u greater => decide_eq_false (ne_of_gt greater)
  rw [isEqual, decide_eq_true_iff]

theorem greater_iff (lhs rhs : RealNum) : greater lhs rhs = true ↔ rhs.val < lhs.val := by
  have isGreater : greater lhs rhs = decide (rhs.val < lhs.val) := by
    unfold greater
    split
    · rfl
    · refine cmpImpl_eq ?_ ?_ rhs lhs
      · exact fun t u less => decide_eq_true less
      · exact fun t u greater => decide_eq_false (lt_asymm greater)
  rw [isGreater, decide_eq_true_iff]

end RealNumCompare

end Decentagram.SimpleObjects
