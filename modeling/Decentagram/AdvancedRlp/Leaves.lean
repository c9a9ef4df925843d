import Decentagram.AdvancedRlp.Parser
import Decentagram.AdvancedRlp.Writer

/-! # Leaves and their tagged forms

What the writers of numbers, strings and the like emit, and which of the forms that the parser
takes they emit again.
-/

namespace Decentagram.AdvancedRlp

open Decentagram.Lib Decentagram.SimpleObjects

/-! ## Magnitudes -/

section Magnitudes

variable {widthByte sigByte : UInt8} {types : RealNumType × RealNumType} {raw : List UInt8} {num : RealNum}

theorem length_fromInt (val : RealNum) : (fromInt val).length = val.numType.bits / 8 := by
  simp [fromInt]

/-- An unsigned integer is the value of its bytes. -/
theorem value_fromInt (widths : OneWidth types) (isType : num.numType = types.1) :
    (BigEndian.value (fromInt num).reverse : Int) = num.val := by
  have atLeast := num.atLeast
  have atMost := num.atMost
  rw [isType, widths.lowest] at atLeast
  rw [isType, widths.max] at atMost
  have small : num.val.toNat < 256 ^ (types.1.bits / 8) := by
    rw [widths.bytes, Int.toNat_lt atLeast]
    push_cast
    exact Int.lt_of_le_sub_one atMost
  rw [fromInt, List.reverse_reverse, BigEndian.value_digits, isType, Nat.mod_eq_of_lt small]
  exact Int.toNat_of_nonneg atLeast

/-- The bytes of a width are those of their value. -/
theorem fromInt_eq (widths : OneWidth types) (size : raw.length = types.1.bits / 8)
    (isType : num.numType = types.1)
    (isValue : num.val = BigEndian.value raw.reverse) : fromInt num = raw := by
  have sameValue := value_fromInt widths isType
  rw [isValue] at sameValue
  refine List.reverse_injective (BigEndian.eq_of_value_eq ?_ (by exact_mod_cast sameValue))
  rw [List.length_reverse, List.length_reverse, length_fromInt, isType, size]

/-! ## Integers -/

theorem cast_of_type {numType : RealNumType} (isType : num.numType = numType) :
    RealNum.cast numType num.val = num := isType ▸ num.cast_val

/-- A value of 16 bits comes back from a wider type. -/
theorem cast_widened {numType wider : RealNumType} (isType : num.numType = numType)
    (lower : wider.lowest ≤ numType.lowest) (upper : numType.max ≤ wider.max) :
    RealNum.cast numType (RealNum.cast wider num.val).val = num := by
  have atLeast := num.atLeast
  have atMost := num.atMost
  rw [isType] at atLeast atMost
  rw [cast_val_of_range (lower.trans atLeast) (atMost.trans upper)]
  exact cast_of_type isType

/-- Through the signed type of 16 bits the unsigned values come back as they were. -/
theorem cast_through_int16 (isType : num.numType = .uint16) :
    RealNum.cast .uint16 (RealNum.cast .int16 num.val).val = num := by
  have atLeast := num.atLeast
  have atMost := num.atMost
  rw [isType] at atLeast atMost
  refine RealNum.ext isType.symm ?_
  change 0 ≤ num.val at atLeast
  change num.val ≤ 65535 at atMost
  change ((num.val - -32768) % 65536 + -32768 - 0) % 65536 + 0 = num.val
  omega

theorem intRawData_unsigned (isWidth : typesOfWidth widthByte = some types)
    (isType : num.numType = types.1) :
    intRawData num = .ok (widthByte, 0x00, fromInt num) := by
  rcases width_cases isWidth with ⟨rfl, rfl⟩ | ⟨rfl, rfl⟩ | ⟨rfl, rfl⟩ | ⟨rfl, rfl⟩
  · simp only [intRawData, isType, cast_of_type isType]
    rfl
  · simp only [intRawData, isType, cast_widened isType (show RealNumType.lowest .uint32 ≤ _ by decide)
      (show _ ≤ RealNumType.max .uint32 by decide), cast_through_int16 isType]
    rfl
  · simp only [intRawData, isType, cast_of_type isType]
    rfl
  · simp only [intRawData, isType, cast_of_type isType]
    rfl

theorem intRawData_signed (isWidth : typesOfWidth widthByte = some types)
    (isType : num.numType = types.2) :
    intRawData num = (buildIntRawData types.1 num).map fun raw => (widthByte, raw) := by
  rcases width_cases isWidth with ⟨rfl, rfl⟩ | ⟨rfl, rfl⟩ | ⟨rfl, rfl⟩ | ⟨rfl, rfl⟩
  · simp only [intRawData, isType, cast_of_type isType]
    rfl
  · simp only [intRawData, isType, cast_widened isType (show RealNumType.lowest .int32 ≤ _ by decide)
      (show _ ≤ RealNumType.max .int32 by decide)]
    rfl
  · simp only [intRawData, isType, cast_of_type isType]
    rfl
  · simp only [intRawData, isType, cast_of_type isType]
    rfl

theorem promoted_max (isWidth : typesOfWidth widthByte = some types) :
    types.2.max ≤ (promoted types.2).max := by
  rcases width_cases isWidth with ⟨-, rfl⟩ | ⟨-, rfl⟩ | ⟨-, rfl⟩ | ⟨-, rfl⟩
  all_goals decide

theorem fromInt_cast (widths : OneWidth types) (size : raw.length = types.1.bits / 8)
    (fits : (BigEndian.value raw.reverse : Int) ≤ types.2.max) :
    fromInt (.cast types.1 (BigEndian.value raw.reverse)) = raw := by
  refine fromInt_eq widths size rfl (cast_val_of_range ?_ (fits.trans widths.signedFits))
  rw [widths.lowest]
  exact Int.natCast_nonneg _

/-- Each form of an integer is what is written for it, except for a zero with a negative sign. -/
theorem intRawData_of_code (isWidth : typesOfWidth widthByte = some types)
    (size : raw.length = types.1.bits / 8) (code : IntegerCode types raw sigByte num) :
    intRawData num = .ok (widthByte, sigByte, raw) ↔
      ¬ (sigByte = 0x11 ∧ BigEndian.value raw.reverse = 0) := by
  have widths := oneWidth isWidth
  have atMost := num.atMost
  cases code with
  | unsigned isType isValue =>
    rw [intRawData_unsigned isWidth isType, fromInt_eq widths size isType isValue]
    exact iff_of_true rfl (by simp)
  | signed isType isValue =>
    rw [isType, isValue] at atMost
    have nonneg : 0 ≤ num.val := isValue ▸ Int.natCast_nonneg _
    rw [intRawData_signed isWidth isType, buildIntRawData, if_pos nonneg, isValue,
      fromInt_cast widths size atMost]
    exact iff_of_true rfl (by simp)
  | negative isType isValue inRange =>
    have nonneg : (0 : Int) ≤ BigEndian.value raw.reverse := Int.natCast_nonneg _
    rw [intRawData_signed isWidth isType, buildIntRawData]
    by_cases isZero : BigEndian.value raw.reverse = 0
    · rw [if_pos (by omega)]
      exact iff_of_false (by simp [Except.map]) (by simp [isZero])
    · have noOverflow := promoted_max isWidth
      have magnitude : -1 * num.val = BigEndian.value raw.reverse := by omega
      rw [if_neg (by omega), if_neg (by rw [isType]; omega), magnitude,
        fromInt_cast widths size (by omega)]
      exact iff_of_true rfl (by simp [isZero])

theorem exists_width (notBool : num.numType ≠ .bool) : ∃ widthByte types,
    typesOfWidth widthByte = some types ∧ (num.numType = types.1 ∨ num.numType = types.2) := by
  cases isType : num.numType with
  | bool => exact absurd isType notBool
  | int8 => exact ⟨0x00, _, rfl, .inr rfl⟩
  | int16 => exact ⟨0x01, _, rfl, .inr rfl⟩
  | int32 => exact ⟨0x02, _, rfl, .inr rfl⟩
  | int64 => exact ⟨0x03, _, rfl, .inr rfl⟩
  | uint8 => exact ⟨0x00, _, rfl, .inl rfl⟩
  | uint16 => exact ⟨0x01, _, rfl, .inl rfl⟩
  | uint32 => exact ⟨0x02, _, rfl, .inl rfl⟩
  | uint64 => exact ⟨0x03, _, rfl, .inl rfl⟩

/-- The bytes of a magnitude that the signed type holds. -/
theorem value_fromInt_cast (widths : OneWidth types) (val : Int) (nonneg : 0 ≤ val)
    (fits : val ≤ types.2.max) :
    (BigEndian.value (fromInt (.cast types.1 val)).reverse : Int) = val := by
  rw [value_fromInt widths rfl]
  exact cast_val_of_range (widths.lowest ▸ nonneg) (fits.trans widths.signedFits)

/-- An integer that is not the lowest of its type has a form that is written for it. -/
theorem exists_code (notBool : num.numType ≠ .bool) (above : aboveLowest (.realNum num)) :
    ∃ widthByte sigByte types raw, typesOfWidth widthByte = some types ∧ raw.length = types.1.bits / 8 ∧
      IntegerCode types raw sigByte num ∧ intRawData num = .ok (widthByte, sigByte, raw) := by
  obtain ⟨widthByte, types, isWidth, isType⟩ := exists_width notBool
  have widths := oneWidth isWidth
  have atLeast := num.atLeast
  have atMost := num.atMost
  cases isType with
  | inl isUnsigned =>
    have code : IntegerCode types (fromInt num) 0x00 num :=
      .unsigned isUnsigned (value_fromInt widths isUnsigned).symm
    have size : (fromInt num).length = types.1.bits / 8 := isUnsigned ▸ length_fromInt num
    exact ⟨widthByte, _, types, _, isWidth, size, code,
      (intRawData_of_code isWidth size code).mpr (by simp)⟩
  | inr isSigned =>
    rw [isSigned] at atLeast atMost
    by_cases nonneg : 0 ≤ num.val
    · have code : IntegerCode types (fromInt (.cast types.1 num.val)) 0x10 num :=
        .signed isSigned (value_fromInt_cast widths _ nonneg atMost).symm
      exact ⟨widthByte, _, types, _, isWidth, length_fromInt _, code,
        (intRawData_of_code isWidth (length_fromInt _) code).mpr (by simp)⟩
    · have lowest := widths.signedLowest
      have notLowest : num.val ≠ types.2.lowest := by
        have notLowest := above
        rw [aboveLowest, isSigned] at notLowest
        exact notLowest widths.signed
      have isValue := value_fromInt_cast widths (-num.val) (by omega) (by omega)
      have code : IntegerCode types (fromInt (.cast types.1 (-num.val))) 0x11 num :=
        .negative isSigned (by omega) (by omega)
      exact ⟨widthByte, _, types, _, isWidth, length_fromInt _, code,
        (intRawData_of_code isWidth (length_fromInt _) code).mpr (by omega)⟩

end Magnitudes

/-! ## Leaves -/

theorem decodes_specs {specs : List UInt8} {obj : Object} (form : Transforms [ofBytes specs] obj) :
    Decodes (tagged specs []) obj := .list (.cons (.bytes _) .nil) form

theorem decodes_specs_raw {specs raw : List UInt8} {obj : Object}
    (form : Transforms [ofBytes specs, ofBytes raw] obj) : Decodes (tagged specs [.bytes raw]) obj :=
  .list (.cons (.bytes _) (.cons (.bytes _) .nil)) form

/-- The characters of a string are UTF-8. -/
def validString : HashableObject → Prop
  | .string val => SimpleUtf.ValidUtf8 val
  | .null | .realNum _ | .bytes _ => True

theorem encodeRealNum_decodes {num : RealNum} (above : aboveLowest (.realNum num)) :
    ∃ item, encodeRealNum num = .ok item ∧ Decodes item (.hashable (.realNum num)) := by
  by_cases isBool : num.numType = .bool
  · refine ⟨_, by rw [encodeRealNum, if_pos isBool], decodes_specs ?_⟩
    have form := Transforms.boolean num.isTrue
    rw [RealNum.ofBool_isTrue isBool] at form
    cases isTrue : num.isTrue <;> simpa [boolCatId, isTrue, serializeCatId] using form
  · obtain ⟨widthByte, sigByte, types, raw, isWidth, size, code, isRaw⟩ := exists_code isBool above
    refine ⟨_, by rw [encodeRealNum, if_neg isBool, isRaw]; rfl, ?_⟩
    exact decodes_specs_raw (.integer isWidth size code)

theorem encodeHashable_decodes {key : HashableObject} (above : aboveLowest key)
    (valid : validString key) :
    ∃ item, encodeHashable key = .ok item ∧ Decodes item (.hashable key) := by
  cases key with
  | null => exact ⟨_, rfl, decodes_specs .null⟩
  | realNum num => exact encodeRealNum_decodes above
  | string val =>
    refine ⟨_, by rw [encodeHashable, SimpleUtf.utfConvert_eq_ok.mpr ⟨valid, rfl⟩]; rfl, ?_⟩
    exact decodes_specs_raw (.string valid)
  | bytes val => exact ⟨_, rfl, decodes_specs_raw (.bytes val)⟩

end Decentagram.AdvancedRlp
