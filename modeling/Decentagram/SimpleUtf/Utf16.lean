import Decentagram.SimpleUtf.Utf8
import Mathlib.Data.Nat.Bitwise

/-! # UTF-16 and UTF-32

The steps of the other encodings, and what each character is in them.
-/

namespace Decentagram.SimpleUtf

open Decentagram.Lib

def isUtf16Surrogate (val : UInt16) : Bool :=
  val &&& 0x8000 ≠ 0 ∧ val &&& 0x4000 ≠ 0 ∧ val &&& 0x2000 = 0 ∧ val &&& 0x1000 ≠ 0 ∧ val &&& 0x0800 ≠ 0

def isUtf16SurrogateFirst (val : UInt16) : Bool := isUtf16Surrogate val && val &&& 0x0400 = 0

def isUtf16SurrogateSecond (val : UInt16) : Bool := isUtf16Surrogate val && val &&& 0x0400 ≠ 0

def utf16Checked (res : UInt32) (rest : List UInt16) : Except Exception (UInt32 × List UInt16) :=
  if isValidCodePt res then .ok (res, rest)
  else
    .error (.utfConversion
      "Invalid Code Point - The code point read from the given UTF-16 encoding is invalid.")

def utf16ToCodePtOnce : List UInt16 → Except Exception (UInt32 × List UInt16)
  | [] =>
    .error (.utfConversion
      "Unexpected Ending - String ends unexpected while reading the next UTF-16 bytes.")
  | uval1 :: rest =>
    if isUtf16SurrogateFirst uval1 then
      match rest with
      | [] =>
        .error (.utfConversion
          "Unexpected Ending - String ends unexpected while reading the next UTF-16 bytes.")
      | uval2 :: rest =>
        if isUtf16SurrogateSecond uval2 then
          let res : UInt32 := 0x10000
          let res := res + (uval1 &&& 0x03FF).toUInt32 <<< (10 : UInt32)
          let res := res + (uval2 &&& 0x03FF).toUInt32
          utf16Checked res rest
        else .error (.utfConversion "Invalid Encoding - Invalid UTF-16 leading bytes.")
    else if !isUtf16SurrogateSecond uval1 then utf16Checked uval1.toUInt32 rest
    else .error (.utfConversion "Invalid Encoding - Invalid UTF-16 leading bytes.")

def utf32ToCodePtOnce : List UInt32 → Except Exception (UInt32 × List UInt32)
  | [] =>
    .error (.utfConversion
      "Unexpected Ending - String ends unexpected while reading the next UTF-32 bytes.")
  | uval :: rest =>
    if !isValidCodePt uval then .error (.utfConversion "Invalid Encoding - Invalid UTF-32 bytes.")
    else .ok (uval, rest)

/-- The check of a code point that is to be written. -/
def codePtChecked {α : Type} (val : UInt32) (units : List α) : Except Exception (List α) :=
  if !isValidCodePt val then
    .error (.utfConversion ("Invalid UTF Code Point - " ++ toString val.toNat ++
      " is not a valid UTF code point."))
  else .ok units

def codePtToUtf16Once (val : UInt32) : Except Exception (List UInt16) :=
  codePtChecked val
    (if val ≤ 0xD7FF || 0xE000 ≤ val && val ≤ 0xFFFF then [val.toUInt16]
    else
      let code : UInt32 := val - 0x10000
      let high : UInt32 := 0xD800 ||| code >>> (10 : UInt32)
      let low : UInt32 := 0xDC00 ||| (code &&& 0x3FF)
      [high.toUInt16, low.toUInt16])

def codePtToUtf32Once (val : UInt32) : Except Exception (List UInt32) := codePtChecked val [val]

/-! ## Characters -/

/-- The UTF-16 encoding of a character. -/
def utf16EncodeChar (char : Char) : List UInt16 :=
  if char.val.toNat < 0x10000 then [UInt16.ofNat char.val.toNat]
  else
    [UInt16.ofNat (0xD800 + (char.val.toNat - 0x10000) / 1024),
      UInt16.ofNat (0xDC00 + (char.val.toNat - 0x10000) % 1024)]

theorem utf16EncodeChar_ne_nil (char : Char) : utf16EncodeChar char ≠ [] := by
  unfold utf16EncodeChar
  split <;> simp

theorem codePtChecked_char {α : Type} (char : Char) (units : List α) :
    codePtChecked char.val units = .ok units := by
  rw [codePtChecked, isValidCodePt_iff.mpr char.valid]
  rfl

theorem codePtToUtf32Once_char (char : Char) : codePtToUtf32Once char.val = .ok [char.val] :=
  codePtChecked_char char _

theorem range_of_char (char : Char) : char.val.toNat < 0xD800 ∨
    0xDFFF < char.val.toNat ∧ char.val.toNat < 0x110000 := by
  have valid := char.valid
  simp only [UInt32.isValidChar, Nat.isValidChar] at valid
  omega

/-- Bits are put behind a value that ends in zeros. -/
theorem or_below {high low : UInt32} {i top : Nat} (isHigh : high.toNat = 2 ^ i * top)
    (below : low.toNat < 2 ^ i) : (high ||| low).toNat = high.toNat + low.toNat := by
  rw [UInt32.toNat_or, isHigh, ← Nat.two_pow_add_eq_or_of_lt below]

theorem toUInt16_eq {val : UInt32} {n : Nat} (isNat : val.toNat = n) :
    val.toUInt16 = UInt16.ofNat n := by
  rw [← UInt16.toNat_inj, UInt32.toNat_toUInt16, isNat]
  rfl

theorem codePtToUtf16Once_char (char : Char) :
    codePtToUtf16Once char.val = .ok (utf16EncodeChar char) := by
  rw [codePtToUtf16Once, codePtChecked_char]
  apply congrArg Except.ok
  rw [utf16EncodeChar]
  have range := range_of_char char
  have one : (char.val ≤ 0xD7FF || 0xE000 ≤ char.val && char.val ≤ 0xFFFF) = true ↔
      char.val.toNat < 0x10000 := by
    simp only [Bool.or_eq_true, Bool.and_eq_true, decide_eq_true_eq, UInt32.le_iff_toNat_le,
      UInt32.reduceToNat]
    omega
  by_cases small : char.val.toNat < 0x10000
  · rw [if_pos small, if_pos (one.mpr small), toUInt16_eq rfl]
  · rw [if_neg small, if_neg (mt one.mp small)]
    have code : (char.val - 0x10000).toNat = char.val.toNat - 0x10000 :=
      UInt32.toNat_sub_of_le _ _ (UInt32.le_iff_toNat_le.mpr (by simpa using small))
    have upper : ((char.val - 0x10000) >>> 10).toNat = (char.val.toNat - 0x10000) / 1024 := by
      rw [UInt32.toNat_shiftRight, code]
      exact Nat.shiftRight_eq_div_pow _ 10
    have lower : ((char.val - 0x10000) &&& 0x3FF).toNat = (char.val.toNat - 0x10000) % 1024 := by
      rw [UInt32.toNat_and, code]
      exact Nat.and_two_pow_sub_one_eq_mod _ 10
    have high := @or_below 0xD800 _ 10 54 rfl (by rw [upper]; omega)
    have low := @or_below 0xDC00 _ 10 55 rfl (by rw [lower]; omega)
    rw [upper] at high
    rw [lower] at low
    simp only [toUInt16_eq high, toUInt16_eq low, UInt32.reduceToNat]

/-! ## Reading a character -/

theorem and_ne_zero_iff {val mask : UInt16} {i : Nat} (isMask : mask.toNat = 2 ^ i) :
    val &&& mask ≠ 0 ↔ val.toNat / 2 ^ i % 2 = 1 := by
  rw [Ne, ← UInt16.toNat_inj, UInt16.toNat_and, isMask, Nat.and_two_pow,
    Nat.testBit_eq_decide_div_mod_eq]
  by_cases bit : val.toNat / 2 ^ i % 2 = 1 <;> simp [bit]

theorem isUtf16Surrogate_iff {val : UInt16} :
    isUtf16Surrogate val = true ↔ val.toNat / 2048 = 27 := by
  have small := val.toNat_lt
  have clear := not_iff_not.mpr (@and_ne_zero_iff val 0x2000 13 rfl)
  simp only [not_not] at clear
  simp only [isUtf16Surrogate, Bool.decide_and, Bool.and_eq_true, decide_eq_true_eq, clear,
    @and_ne_zero_iff val 0x8000 15 rfl, @and_ne_zero_iff val 0x4000 14 rfl,
    @and_ne_zero_iff val 0x1000 12 rfl, @and_ne_zero_iff val 0x0800 11 rfl]
  omega

theorem isUtf16SurrogateFirst_iff {val : UInt16} :
    isUtf16SurrogateFirst val = true ↔ val.toNat / 1024 = 54 := by
  have clear := not_iff_not.mpr (@and_ne_zero_iff val 0x0400 10 rfl)
  simp only [not_not] at clear
  simp only [isUtf16SurrogateFirst, Bool.and_eq_true, decide_eq_true_eq, clear, isUtf16Surrogate_iff]
  omega

theorem isUtf16SurrogateSecond_iff {val : UInt16} :
    isUtf16SurrogateSecond val = true ↔ val.toNat / 1024 = 55 := by
  simp only [isUtf16SurrogateSecond, Bool.and_eq_true, decide_eq_true_eq,
    @and_ne_zero_iff val 0x0400 10 rfl, isUtf16Surrogate_iff]
  omega

theorem toNat_and_mask (val : UInt16) : (val &&& 0x03FF).toUInt32.toNat = val.toNat % 1024 := by
  rw [UInt16.toNat_toUInt32, UInt16.toNat_and]
  exact Nat.and_two_pow_sub_one_eq_mod _ 10

/-- The value of a surrogate pair. -/
theorem toNat_pair (first second : UInt16) :
    ((0x10000 : UInt32) + (first &&& 0x03FF).toUInt32 <<< (10 : UInt32) +
      (second &&& 0x03FF).toUInt32).toNat =
      0x10000 + first.toNat % 1024 * 1024 + second.toNat % 1024 := by
  have upper : ((first &&& 0x03FF).toUInt32 <<< (10 : UInt32)).toNat = first.toNat % 1024 * 1024 := by
    rw [UInt32.toNat_shiftLeft, toNat_and_mask]
    change (first.toNat % 1024) <<< 10 % 2 ^ 32 = _
    rw [Nat.shiftLeft_eq]
    omega
  simp only [UInt32.toNat_add, upper, toNat_and_mask, UInt32.reduceToNat]
  omega

theorem utf16Checked_eq_ok {res val : UInt32} {rest rest' : List UInt16} :
    utf16Checked res rest = .ok (val, rest') ↔ (∃ char : Char, char.val = val) ∧ val = res ∧
    rest' = rest := by
  unfold utf16Checked
  split
  next valid =>
    rw [Except.ok.injEq, Prod.mk.injEq]
    constructor
    · rintro ⟨rfl, rfl⟩
      exact ⟨⟨⟨res, isValidCodePt_iff.mp valid⟩, rfl⟩, rfl, rfl⟩
    · rintro ⟨_, rfl, rfl⟩
      exact ⟨rfl, rfl⟩
  next invalid =>
    simp only [reduceCtorEq, false_iff]
    rintro ⟨⟨char, rfl⟩, rfl, _⟩
    exact invalid (isValidCodePt_iff.mpr char.valid)

theorem eq_ofNat16 {unit : UInt16} {n : Nat} (same : unit.toNat = n) : unit = UInt16.ofNat n := by
  rw [← same, UInt16.ofNat_toNat]

theorem encoding_of_utf16ToCodePtOnce {input rest : List UInt16} {val : UInt32}
    (read : utf16ToCodePtOnce input = .ok (val, rest)) :
    ∃ char : Char, char.val = val ∧ input = utf16EncodeChar char ++ rest := by
  cases input with
  | nil => cases read
  | cons uval1 tail =>
    unfold utf16ToCodePtOnce at read
    dsimp only at read
    have small := uval1.toNat_lt
    split at read
    next first =>
      rw [isUtf16SurrogateFirst_iff] at first
      cases tail with
      | nil => cases read
      | cons uval2 tail =>
        dsimp only at read
        split at read
        next second =>
          rw [isUtf16SurrogateSecond_iff] at second
          obtain ⟨⟨char, rfl⟩, isVal, rfl⟩ := utf16Checked_eq_ok.mp read
          refine ⟨char, rfl, ?_⟩
          have value := congrArg UInt32.toNat isVal
          rw [toNat_pair] at value
          rw [utf16EncodeChar, if_neg (by omega), ← @eq_ofNat16 uval1 _ (by omega),
            ← @eq_ofNat16 uval2 _ (by omega)]
          rfl
        next => cases read
    next notFirst =>
      split at read
      next =>
        obtain ⟨⟨char, rfl⟩, isVal, rfl⟩ := utf16Checked_eq_ok.mp read
        refine ⟨char, rfl, ?_⟩
        have value := congrArg UInt32.toNat isVal
        rw [UInt16.toNat_toUInt32] at value
        rw [utf16EncodeChar, if_pos (by omega), value, UInt16.ofNat_toNat]
        rfl
      next => cases read

theorem utf16ToCodePtOnce_encodeChar (char : Char) (rest : List UInt16) :
    utf16ToCodePtOnce (utf16EncodeChar char ++ rest) = .ok (char.val, rest) := by
  have range := range_of_char char
  have toNat {n : Nat} (small : n < 2 ^ 16) : (UInt16.ofNat n).toNat = n :=
    UInt16.toNat_ofNat_of_lt' small
  unfold utf16EncodeChar
  by_cases small : char.val.toNat < 0x10000
  · rw [if_pos small, List.cons_append, List.nil_append]
    unfold utf16ToCodePtOnce
    dsimp only
    have notFirst : ¬ isUtf16SurrogateFirst (UInt16.ofNat char.val.toNat) = true := by
      rw [isUtf16SurrogateFirst_iff, toNat (by omega)]
      omega
    have notSecond : ¬ isUtf16SurrogateSecond (UInt16.ofNat char.val.toNat) = true := by
      rw [isUtf16SurrogateSecond_iff, toNat (by omega)]
      omega
    rw [if_neg notFirst, if_pos (by simpa using notSecond), utf16Checked_eq_ok]
    refine ⟨⟨char, rfl⟩, ?_, rfl⟩
    rw [← UInt32.toNat_inj, UInt16.toNat_toUInt32, toNat (by omega)]
  · rw [if_neg small, List.cons_append, List.cons_append, List.nil_append]
    unfold utf16ToCodePtOnce
    dsimp only
    rw [if_pos (isUtf16SurrogateFirst_iff.mpr (by rw [toNat (by omega)]; omega))]
    rw [if_pos (isUtf16SurrogateSecond_iff.mpr (by rw [toNat (by omega)]; omega)), utf16Checked_eq_ok]
    refine ⟨⟨char, rfl⟩, ?_, rfl⟩
    rw [← UInt32.toNat_inj, toNat_pair, toNat (by omega), toNat (by omega)]
    omega

/-- The units of a character that begin with a surrogate are a pair. -/
theorem second_of_utf16EncodeChar {char : Char} {first : UInt16} {rest : List UInt16}
    (encoded : utf16EncodeChar char = first :: rest) (isFirst : 0xD800 ≤ first.toNat ∧ first.toNat ≤ 0xDBFF) :
    ∃ second, rest = [second] ∧ 0xDC00 ≤ second.toNat ∧ second.toNat ≤ 0xDFFF := by
  have range := range_of_char char
  have toNat {n : Nat} (small : n < 2 ^ 16) : (UInt16.ofNat n).toNat = n := UInt16.toNat_ofNat_of_lt' small
  unfold utf16EncodeChar at encoded
  split at encoded
  next small =>
    cases encoded
    rw [toNat (by omega)] at isFirst
    omega
  next big =>
    cases encoded
    exact ⟨_, rfl, by rw [toNat (by omega)]; omega⟩

/-- A unit that stands for itself is no surrogate. -/
theorem alone_of_utf16EncodeChar {char : Char} {unit : UInt16} (encoded : utf16EncodeChar char = [unit]) :
    unit.toNat = char.val.toNat ∧ ¬ (0xD800 ≤ unit.toNat ∧ unit.toNat ≤ 0xDFFF) := by
  have range := range_of_char char
  unfold utf16EncodeChar at encoded
  split at encoded
  next small =>
    cases encoded
    rw [UInt16.toNat_ofNat_of_lt' (by omega)]
    omega
  next => cases encoded

/-- A pair of surrogates is a character. -/
theorem exists_char_of_pair {first second : UInt16} (isFirst : 0xD800 ≤ first.toNat ∧ first.toNat ≤ 0xDBFF)
    (isSecond : 0xDC00 ≤ second.toNat ∧ second.toNat ≤ 0xDFFF) :
    ∃ char : Char, utf16EncodeChar char = [first, second] := by
  have valid :
      (UInt32.ofNat (0x10000 + (first.toNat - 0xD800) * 1024 + (second.toNat - 0xDC00))).isValidChar := by
    rw [UInt32.isValidChar, toNat_ofNat32 (by omega), Nat.isValidChar]
    omega
  refine ⟨⟨_, valid⟩, ?_⟩
  rw [utf16EncodeChar, toNat_ofNat32 (by omega), if_neg (by omega), ← @eq_ofNat16 first _ (by omega),
    ← @eq_ofNat16 second _ (by omega)]

theorem exists_char_of_unit {unit : UInt16} (noSurrogate : ¬ (0xD800 ≤ unit.toNat ∧ unit.toNat ≤ 0xDFFF)) :
    ∃ char : Char, utf16EncodeChar char = [unit] := by
  have small := unit.toNat_lt
  have valid : (UInt32.ofNat unit.toNat).isValidChar := by
    rw [UInt32.isValidChar, toNat_ofNat32 (by omega), Nat.isValidChar]
    omega
  refine ⟨⟨_, valid⟩, ?_⟩
  rw [utf16EncodeChar, toNat_ofNat32 (by omega), if_pos (by omega), UInt16.ofNat_toNat]

theorem utf16ToCodePtOnce_ne_readPastEnd (input : List UInt16) :
    utf16ToCodePtOnce input ≠ .error .readPastEnd := by
  have checked : ∀ res rest, utf16Checked res rest ≠ .error .readPastEnd := by
    intro res rest
    unfold utf16Checked
    split <;> simp
  unfold utf16ToCodePtOnce
  repeat' split
  all_goals first
    | exact checked _ _
    | simp

theorem encoding_of_utf32ToCodePtOnce {input rest : List UInt32} {val : UInt32}
    (read : utf32ToCodePtOnce input = .ok (val, rest)) :
    ∃ char : Char, char.val = val ∧ input = [char.val] ++ rest := by
  cases input with
  | nil => cases read
  | cons uval tail =>
    unfold utf32ToCodePtOnce at read
    dsimp only at read
    split at read
    next => cases read
    next valid =>
      cases read
      exact ⟨⟨val, isValidCodePt_iff.mp (by simpa using valid)⟩, rfl, rfl⟩

theorem utf32ToCodePtOnce_encodeChar (char : Char) (rest : List UInt32) :
    utf32ToCodePtOnce ([char.val] ++ rest) = .ok (char.val, rest) := by
  rw [List.singleton_append]
  unfold utf32ToCodePtOnce
  dsimp only
  rw [isValidCodePt_iff.mpr char.valid]
  rfl

end Decentagram.SimpleUtf
