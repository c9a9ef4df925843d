import Decentagram.Lib.Bytes
import Decentagram.Lib.Result
import Mathlib.Algebra.Order.Ring.Nat

/-! # Base64

The codec that carries quotes and signatures, and how far it is strict: what follows the padding is not
looked at.
-/

namespace Decentagram.SimpleObjects.Base64

open Decentagram.Lib

/-- `std::invalid_argument`. -/
structure InvalidArgument where
  what : String
deriving DecidableEq, Repr

/-! ## Encoding -/

def padding : UInt8 := 61

def alphabet : Array UInt8 := "ABCDEFGHIJKLMNOPQRSTUVWXYZabcdefghijklmnopqrstuvwxyz0123456789+/".toUTF8.data

def lutChar (val : UInt8) : UInt8 := alphabet[val.toNat]!

def pad (addPadding : Bool) : List UInt8 := if addPadding then [padding] else []

def encode1 (addPadding : Bool) (byte1 : UInt8) : List UInt8 :=
  [lutChar (byte1 >>> 2 &&& 0x3F), lutChar (byte1 <<< 4 &&& 0x30)] ++ pad addPadding ++ pad addPadding

def encode2 (addPadding : Bool) (byte1 byte2 : UInt8) : List UInt8 :=
  [lutChar (byte1 >>> 2 &&& 0x3F),
    lutChar ((byte1 <<< 4 &&& (0x30 : UInt8)) ||| (byte2 >>> 4 &&& (0x0F : UInt8))),
    lutChar (byte2 <<< 2 &&& 0x3C)] ++ pad addPadding

def encode3 (byte1 byte2 byte3 : UInt8) : List UInt8 :=
  [lutChar (byte1 >>> 2 &&& 0x3F),
    lutChar ((byte1 <<< 4 &&& (0x30 : UInt8)) ||| (byte2 >>> 4 &&& (0x0F : UInt8))),
    lutChar ((byte2 <<< 2 &&& (0x3C : UInt8)) ||| (byte3 >>> 6 &&& (0x03 : UInt8))),
    lutChar (byte3 &&& 0x3F)]

/-- `Base64EncodeImpl::Encode`; the padding is what `isRestricted` asks for. -/
def encode (isRestricted : Bool) : List UInt8 → List UInt8
  | [] => []
  | [byte1] => encode1 isRestricted byte1
  | [byte1, byte2] => encode2 isRestricted byte1 byte2
  | byte1 :: byte2 :: byte3 :: rest => encode3 byte1 byte2 byte3 ++ encode isRestricted rest

/-! ## Decoding -/

inductive ChType where
  | end
  | pad
  | valid
deriving DecidableEq, Repr

def iVal : UInt8 := 64

def startCh : UInt8 := 43

def endCh : UInt8 := 122

def lut : Array UInt8 :=
  #[62, iVal, iVal, iVal, 63,
    52, 53, 54, 55, 56, 57, 58, 59, 60, 61,
    iVal, iVal, iVal, iVal, iVal, iVal, iVal,
    0, 1, 2, 3, 4, 5, 6, 7, 8, 9, 10, 11, 12,
    13, 14, 15, 16, 17, 18, 19, 20, 21, 22, 23, 24, 25,
    iVal, iVal, iVal, iVal, iVal, iVal,
    26, 27, 28, 29, 30, 31, 32, 33, 34, 35, 36, 37, 38,
    39, 40, 41, 42, 43, 44, 45, 46, 47, 48, 49, 50, 51]

def checkChar (throwOnInvalid : Bool) (ch : UInt8) : Except InvalidArgument UInt8 :=
  if startCh ≤ ch ∧ ch ≤ endCh then .ok ch
  else if throwOnInvalid then .error ⟨"Invalid base64 character"⟩
  else .ok iVal

def checkLutValue (throwOnInvalid : Bool) (val : UInt8) : Except InvalidArgument UInt8 :=
  if throwOnInvalid ∧ val = iVal then .error ⟨"Invalid base64 character"⟩ else .ok val

def getValue (throwOnInvalid : Bool) (ch : UInt8) : Except InvalidArgument UInt8 := do
  let ch ← checkChar throwOnInvalid ch
  checkLutValue throwOnInvalid lut[(ch - startCh).toNat]!

/-- The loop over what is skipped: nothing is where invalid characters throw. -/
def getNextValue (throwOnInvalid : Bool) :
    List UInt8 → Except InvalidArgument (ChType × UInt8 × List UInt8)
  | [] => .ok (.end, 0, [])
  | ch :: rest => do
    if ch = padding then .ok (.pad, 0, rest)
    else
      let val ← getValue throwOnInvalid ch
      if throwOnInvalid ∨ val ≠ iVal then .ok (.valid, val, rest) else getNextValue throwOnInvalid rest

def checkLast2 (checkTrailing : Bool) (val : UInt8) : Except InvalidArgument Unit :=
  if checkTrailing ∧ val &&& 0x03 ≠ 0 then .error ⟨"Invalid base64 trailing"⟩ else .ok ()

def checkLast4 (checkTrailing : Bool) (val : UInt8) : Except InvalidArgument Unit :=
  if checkTrailing ∧ val &&& 0x0F ≠ 0 then .error ⟨"Invalid base64 trailing"⟩ else .ok ()

def assemble2 (checkTrailing : Bool) (val1 val2 : UInt8) : Except InvalidArgument (List UInt8) := do
  checkLast4 checkTrailing val2
  .ok [val1 <<< 2 ||| val2 >>> 4]

def assemble3 (checkTrailing : Bool) (val1 val2 val3 : UInt8) :
    Except InvalidArgument (List UInt8) := do
  checkLast2 checkTrailing val3
  .ok [val1 <<< 2 ||| val2 >>> 4, (val2 &&& 0x0F) <<< 4 ||| val3 >>> 2]

def assemble4 (val1 val2 val3 val4 : UInt8) : List UInt8 :=
  [val1 <<< 2 ||| val2 >>> 4, (val2 &&& 0x0F) <<< 4 ||| val3 >>> 2, (val3 &&& 0x03) <<< 6 ||| val4]

def throwOnReqPadding (reqPadding : Bool) : Except InvalidArgument Unit :=
  if reqPadding then .error ⟨"Invalid base64 padding"⟩ else .ok ()

/-- The loop of `Base64DecodeImpl::Decode`.  The number bounds the rounds: each one but the last
    reads four characters. -/
def decodeLoop (isRestricted : Bool) : Nat → List UInt8 → Except InvalidArgument (List UInt8)
  | _, [] => .ok []
  | 0, _ => .ok []
  | left + 1, src => do
    let (chType, val1, src) ← getNextValue isRestricted src
    if chType = .end then .ok []
    else if chType = .pad then .error ⟨"Invalid base64 padding"⟩
    else
      let (chType, val2, src) ← getNextValue isRestricted src
      if chType = .end ∨ chType = .pad then
        .error ⟨"The length of the Base64 input cannot be 1 char more than a multiple of 4"⟩
      else
        let (chType, val3, src) ← getNextValue isRestricted src
        if chType = .pad then
          let (chType, _, _) ← getNextValue isRestricted src
          if chType ≠ .pad then .error ⟨"Invalid base64 padding"⟩
          else assemble2 isRestricted val1 val2
        else if chType = .end then
          throwOnReqPadding isRestricted
          assemble2 isRestricted val1 val2
        else
          let (chType, val4, src) ← getNextValue isRestricted src
          -- what is behind the padding is not looked at
          if chType = .pad then assemble3 isRestricted val1 val2 val3
          else if chType = .end then
            throwOnReqPadding isRestricted
            assemble3 isRestricted val1 val2 val3
          else
            let decoded ← decodeLoop isRestricted left src
            .ok (assemble4 val1 val2 val3 val4 ++ decoded)

def decode (isRestricted : Bool) (src : List UInt8) : Except InvalidArgument (List UInt8) :=
  decodeLoop isRestricted src.length src

example : decode true "QUJDRA==".toUTF8.data.toList = .ok [65, 66, 67, 68] := by decide

/-! ## Groups -/

/-- What the shifts and the two tables make of every byte. -/
theorem byte_tables (byte : UInt8) :
    ((byte >>> 2 &&& 0x3F).toNat = byte.toNat / 4 ∧
      (byte <<< 4 &&& 0x30).toNat = 2 ^ 4 * (byte.toNat % 4) ∧
      (byte >>> 4 &&& 0x0F).toNat = byte.toNat / 16 ∧
      (byte <<< 2 &&& 0x3C).toNat = 2 ^ 2 * (byte.toNat % 16) ∧
      (byte >>> 6 &&& 0x03).toNat = byte.toNat / 64 ∧ (byte &&& 0x3F).toNat = byte.toNat % 64) ∧
    ((byte <<< 2).toNat = 2 ^ 2 * (byte.toNat % 64) ∧
      (byte >>> 4).toNat = byte.toNat / 16 ∧
      ((byte &&& 0x0F) <<< 4).toNat = 2 ^ 4 * (byte.toNat % 16) ∧
      (byte >>> 2).toNat = byte.toNat / 4 ∧
      ((byte &&& 0x03) <<< 6).toNat = 2 ^ 6 * (byte.toNat % 4) ∧
      (byte &&& 0x0F).toNat = byte.toNat % 16 ∧ (byte &&& 0x03).toNat = byte.toNat % 4) ∧
    (byte.toNat < 64 →
      lutChar byte ≠ padding ∧ (getValue true (lutChar byte)).toOption = some byte) ∧
    ((getValue true byte).toOption.all fun val => val.toNat < 64 ∧ byte = lutChar val) = true := by
  revert byte
  apply forall_byte
  decide +kernel

theorem toNat_encoded (byte : UInt8) : (byte >>> 2 &&& 0x3F).toNat = byte.toNat / 4 ∧
    (byte <<< 4 &&& 0x30).toNat = 2 ^ 4 * (byte.toNat % 4) ∧
    (byte >>> 4 &&& 0x0F).toNat = byte.toNat / 16 ∧
    (byte <<< 2 &&& 0x3C).toNat = 2 ^ 2 * (byte.toNat % 16) ∧
    (byte >>> 6 &&& 0x03).toNat = byte.toNat / 64 ∧ (byte &&& 0x3F).toNat = byte.toNat % 64 := by
  obtain ⟨encoded, -⟩ := byte_tables byte
  exact encoded

theorem toNat_decoded (val : UInt8) : (val <<< 2).toNat = 2 ^ 2 * (val.toNat % 64) ∧
    (val >>> 4).toNat = val.toNat / 16 ∧ ((val &&& 0x0F) <<< 4).toNat = 2 ^ 4 * (val.toNat % 16) ∧
    (val >>> 2).toNat = val.toNat / 4 ∧ ((val &&& 0x03) <<< 6).toNat = 2 ^ 6 * (val.toNat % 4) ∧
    (val &&& 0x0F).toNat = val.toNat % 16 ∧ (val &&& 0x03).toNat = val.toNat % 4 := by
  obtain ⟨-, decoded, -⟩ := byte_tables val
  exact decoded

section

variable (byte1 byte2 byte3 : UInt8)

theorem toNat_second : ((byte1 <<< 4 &&& (0x30 : UInt8)) ||| (byte2 >>> 4 &&& (0x0F : UInt8))).toNat =
    byte1.toNat % 4 * 16 + byte2.toNat / 16 := by
  obtain ⟨-, high, -⟩ := toNat_encoded byte1
  obtain ⟨-, -, low, -⟩ := toNat_encoded byte2
  have small := byte2.toNat_lt
  rw [toNat_or_below high (by omega), high, low]
  omega

theorem toNat_third : ((byte2 <<< 2 &&& (0x3C : UInt8)) ||| (byte3 >>> 6 &&& (0x03 : UInt8))).toNat =
    byte2.toNat % 16 * 4 + byte3.toNat / 64 := by
  obtain ⟨-, -, -, high, -⟩ := toNat_encoded byte2
  obtain ⟨-, -, -, -, low, -⟩ := toNat_encoded byte3
  have small := byte3.toNat_lt
  rw [toNat_or_below high (by omega), high, low]
  omega

end

section

variable {val1 val2 val3 val4 : UInt8}

theorem toNat_byte1 (small1 : val1.toNat < 64) (small2 : val2.toNat < 64) :
    (val1 <<< 2 ||| val2 >>> 4).toNat = val1.toNat * 4 + val2.toNat / 16 := by
  obtain ⟨high, -⟩ := toNat_decoded val1
  obtain ⟨-, low, -⟩ := toNat_decoded val2
  rw [toNat_or_below high (by omega), high, low]
  omega

theorem toNat_byte2 (small3 : val3.toNat < 64) :
    ((val2 &&& 0x0F) <<< 4 ||| val3 >>> 2).toNat = val2.toNat % 16 * 16 + val3.toNat / 4 := by
  obtain ⟨-, -, high, -⟩ := toNat_decoded val2
  obtain ⟨-, -, -, low, -⟩ := toNat_decoded val3
  rw [toNat_or_below high (by omega), high, low]
  omega

theorem toNat_byte3 (small4 : val4.toNat < 64) :
    ((val3 &&& 0x03) <<< 6 ||| val4).toNat = val3.toNat % 4 * 64 + val4.toNat := by
  obtain ⟨-, -, -, -, high, -⟩ := toNat_decoded val3
  rw [toNat_or_below high (by omega), high]
  omega

end

/-! ## Characters -/

theorem getValue_lutChar {val : UInt8} (small : val.toNat < 64) :
    lutChar val ≠ padding ∧ getValue true (lutChar val) = .ok val := by
  obtain ⟨-, -, table, -⟩ := byte_tables val
  exact ⟨(table small).1, eq_ok_of_toOption (table small).2⟩

theorem getValue_eq_ok {ch val : UInt8} (returned : getValue true ch = .ok val) :
    val.toNat < 64 ∧ ch = lutChar val := by
  obtain ⟨-, -, -, table⟩ := byte_tables ch
  rw [returned] at table
  exact of_decide_eq_true table

theorem getNextValue_padding (rest : List UInt8) :
    getNextValue true (padding :: rest) = .ok (.pad, 0, rest) := rfl

theorem getNextValue_lutChar {val : UInt8} (small : val.toNat < 64) (rest : List UInt8) :
    getNextValue true (lutChar val :: rest) = .ok (.valid, val, rest) := by
  obtain ⟨notPadding, returns⟩ := getValue_lutChar small
  simp [getNextValue, notPadding, returns, ok_bind]

/-- The next value of a decoder that throws on invalid characters. -/
theorem getNextValue_cases {src rest : List UInt8} {chType : ChType} {val : UInt8}
    (returned : getNextValue true src = .ok (chType, val, rest)) :
    (chType = .end ∧ src = []) ∨ (chType = .pad ∧ src = padding :: rest) ∨
      (chType = .valid ∧ val.toNat < 64 ∧ src = lutChar val :: rest) := by
  cases src with
  | nil =>
    cases returned
    exact .inl ⟨rfl, rfl⟩
  | cons ch tail =>
    rw [getNextValue] at returned
    split at returned
    next isPadding =>
      cases returned
      exact .inr (.inl ⟨rfl, by rw [isPadding]⟩)
    next =>
      simp only [bind_eq_ok, true_or, if_true, Except.ok.injEq, Prod.mk.injEq] at returned
      obtain ⟨_, isValue, rfl, rfl, rfl⟩ := returned
      obtain ⟨small, isChar⟩ := getValue_eq_ok isValue
      exact .inr (.inr ⟨rfl, small, by rw [isChar]⟩)

/-! ## Rounds -/

theorem assemble2_eq_ok {val1 val2 : UInt8} {bytes : List UInt8} (small1 : val1.toNat < 64)
    (small2 : val2.toNat < 64) (assembled : assemble2 true val1 val2 = .ok bytes) :
    ∃ byte1, bytes = [byte1] ∧ encode1 true byte1 = [lutChar val1, lutChar val2, padding, padding] := by
  simp only [assemble2, checkLast4, bind_eq_ok, exists_unit, Except.ok.injEq] at assembled
  obtain ⟨checked, rfl⟩ := assembled
  refine ⟨_, rfl, ?_⟩
  split at checked
  next => cases checked
  next zeros =>
    obtain ⟨-, -, -, -, -, low, -⟩ := toNat_decoded val2
    have zero : val2.toNat % 16 = 0 := by
      simp only [true_and, ne_eq, not_not, ← UInt8.toNat_inj, low] at zeros
      exact zeros
    have value := @toNat_byte1 val1 val2 small1 small2
    obtain ⟨first, second, -⟩ := toNat_encoded (val1 <<< 2 ||| val2 >>> 4)
    rw [encode1, UInt8.toNat_inj.mp (first.trans (by omega : _ = val1.toNat)),
      UInt8.toNat_inj.mp (second.trans (by omega : _ = val2.toNat))]
    rfl

theorem assemble3_eq_ok {val1 val2 val3 : UInt8} {bytes : List UInt8} (small1 : val1.toNat < 64)
    (small2 : val2.toNat < 64) (small3 : val3.toNat < 64)
    (assembled : assemble3 true val1 val2 val3 = .ok bytes) :
    ∃ byte1 byte2, bytes = [byte1, byte2] ∧
      encode2 true byte1 byte2 = [lutChar val1, lutChar val2, lutChar val3, padding] := by
  simp only [assemble3, checkLast2, bind_eq_ok, exists_unit, Except.ok.injEq] at assembled
  obtain ⟨checked, rfl⟩ := assembled
  refine ⟨_, _, rfl, ?_⟩
  split at checked
  next => cases checked
  next zeros =>
    obtain ⟨-, -, -, -, -, -, low⟩ := toNat_decoded val3
    have zero : val3.toNat % 4 = 0 := by
      simp only [true_and, ne_eq, not_not, ← UInt8.toNat_inj, low] at zeros
      exact zeros
    have value1 := @toNat_byte1 val1 val2 small1 small2
    have value2 := @toNat_byte2 val2 val3 small3
    obtain ⟨first, -⟩ := toNat_encoded (val1 <<< 2 ||| val2 >>> 4)
    have second := toNat_second (val1 <<< 2 ||| val2 >>> 4) ((val2 &&& 0x0F) <<< 4 ||| val3 >>> 2)
    obtain ⟨-, -, -, third, -⟩ := toNat_encoded ((val2 &&& 0x0F) <<< 4 ||| val3 >>> 2)
    rw [encode2, UInt8.toNat_inj.mp (first.trans (by omega : _ = val1.toNat)),
      UInt8.toNat_inj.mp (second.trans (by omega : _ = val2.toNat)),
      UInt8.toNat_inj.mp (third.trans (by omega : _ = val3.toNat))]
    rfl

theorem encode3_assembled {val1 val2 val3 val4 : UInt8} (small1 : val1.toNat < 64)
    (small2 : val2.toNat < 64) (small3 : val3.toNat < 64) (small4 : val4.toNat < 64) :
    ∃ byte1 byte2 byte3, assemble4 val1 val2 val3 val4 = [byte1, byte2, byte3] ∧
      encode3 byte1 byte2 byte3 = [lutChar val1, lutChar val2, lutChar val3, lutChar val4] := by
  refine ⟨_, _, _, rfl, ?_⟩
  have value1 := @toNat_byte1 val1 val2 small1 small2
  have value2 := @toNat_byte2 val2 val3 small3
  have value3 := @toNat_byte3 val3 val4 small4
  obtain ⟨first, -⟩ := toNat_encoded (val1 <<< 2 ||| val2 >>> 4)
  have second := toNat_second (val1 <<< 2 ||| val2 >>> 4) ((val2 &&& 0x0F) <<< 4 ||| val3 >>> 2)
  have third := toNat_third ((val2 &&& 0x0F) <<< 4 ||| val3 >>> 2) ((val3 &&& 0x03) <<< 6 ||| val4)
  obtain ⟨-, -, -, -, -, fourth⟩ := toNat_encoded ((val3 &&& 0x03) <<< 6 ||| val4)
  rw [encode3, UInt8.toNat_inj.mp (first.trans (by omega : _ = val1.toNat)),
    UInt8.toNat_inj.mp (second.trans (by omega : _ = val2.toNat)),
    UInt8.toNat_inj.mp (third.trans (by omega : _ = val3.toNat)),
    UInt8.toNat_inj.mp (fourth.trans (by omega : _ = val4.toNat))]

/-- What a round of the decoder returns is what the encoder makes its characters of. -/
theorem decodeLoop_sound {left : Nat} {src bytes : List UInt8} (notEmpty : src ≠ [])
    (decoded : decodeLoop true (left + 1) src = .ok bytes) :
    (∃ byte1 tail, bytes = [byte1] ∧ src = encode1 true byte1 ++ tail) ∨
    (∃ byte1 byte2 tail, bytes = [byte1, byte2] ∧ src = encode2 true byte1 byte2 ++ tail) ∨
    (∃ byte1 byte2 byte3 rest tail, bytes = byte1 :: byte2 :: byte3 :: rest ∧
      src = encode3 byte1 byte2 byte3 ++ tail ∧ decodeLoop true left tail = .ok rest) := by
  rw [decodeLoop] at decoded
  · simp only [bind_eq_ok, Prod.exists] at decoded
    obtain ⟨chType, val1, src1, next1, decoded⟩ := decoded
    rcases getNextValue_cases next1 with ⟨-, rfl⟩ | ⟨rfl, -⟩ | ⟨rfl, small1, rfl⟩
    · exact absurd rfl notEmpty
    · cases decoded
    simp only [reduceCtorEq, if_false, bind_eq_ok, Prod.exists] at decoded
    obtain ⟨chType, val2, src2, next2, decoded⟩ := decoded
    rcases getNextValue_cases next2 with ⟨rfl, rfl⟩ | ⟨rfl, rfl⟩ | ⟨rfl, small2, rfl⟩
    · cases decoded
    · cases decoded
    simp only [reduceCtorEq, or_self, if_false, bind_eq_ok, Prod.exists] at decoded
    obtain ⟨chType, val3, src3, next3, decoded⟩ := decoded
    rcases getNextValue_cases next3 with ⟨rfl, rfl⟩ | ⟨rfl, rfl⟩ | ⟨rfl, small3, rfl⟩
    · simp [throwOnReqPadding] at decoded
    · -- the fourth character is padding as well
      simp only [if_true, bind_eq_ok, Prod.exists] at decoded
      obtain ⟨chType, val4, src4, next4, decoded⟩ := decoded
      rcases getNextValue_cases next4 with ⟨rfl, rfl⟩ | ⟨rfl, rfl⟩ | ⟨rfl, small4, rfl⟩
      · cases decoded
      · obtain ⟨byte1, rfl, encoded⟩ := assemble2_eq_ok small1 small2 decoded
        exact .inl ⟨byte1, src4, rfl, by rw [encoded]; rfl⟩
      · cases decoded
    simp only [reduceCtorEq, if_false, bind_eq_ok, Prod.exists] at decoded
    obtain ⟨chType, val4, src4, next4, decoded⟩ := decoded
    rcases getNextValue_cases next4 with ⟨rfl, rfl⟩ | ⟨rfl, rfl⟩ | ⟨rfl, small4, rfl⟩
    · simp [throwOnReqPadding] at decoded
    · obtain ⟨byte1, byte2, rfl, encoded⟩ := assemble3_eq_ok small1 small2 small3 decoded
      exact .inr (.inl ⟨byte1, byte2, src4, rfl, by rw [encoded]; rfl⟩)
    · simp only [reduceCtorEq, if_false, bind_eq_ok, Except.ok.injEq] at decoded
      obtain ⟨rest, decoded, rfl⟩ := decoded
      obtain ⟨byte1, byte2, byte3, assembled, encoded⟩ := encode3_assembled small1 small2 small3 small4
      exact .inr (.inr ⟨byte1, byte2, byte3, rest,
        src4, by rw [assembled]; rfl, by rw [encoded]; rfl, decoded⟩)
  · exact notEmpty

section

variable {val1 val2 val3 val4 : UInt8} (left : Nat) (tail : List UInt8)

theorem decodeLoop_two (small1 : val1.toNat < 64) (small2 : val2.toNat < 64)
    (zeros : val2 &&& 0x0F = 0) :
    decodeLoop true (left + 1) (lutChar val1 :: lutChar val2 :: padding :: padding :: tail) =
      .ok [val1 <<< 2 ||| val2 >>> 4] := by
  simp [decodeLoop, getNextValue_lutChar small1, getNextValue_lutChar small2, getNextValue_padding,
    ok_bind, assemble2, checkLast4, zeros]

theorem decodeLoop_three (small1 : val1.toNat < 64) (small2 : val2.toNat < 64)
    (small3 : val3.toNat < 64) (zeros : val3 &&& 0x03 = 0) :
    decodeLoop true (left + 1) (lutChar val1 :: lutChar val2 :: lutChar val3 :: padding :: tail) =
      .ok [val1 <<< 2 ||| val2 >>> 4, (val2 &&& 0x0F) <<< 4 ||| val3 >>> 2] := by
  simp [decodeLoop, getNextValue_lutChar small1, getNextValue_lutChar small2,
    getNextValue_lutChar small3, getNextValue_padding, ok_bind, assemble3, checkLast2, zeros]

theorem decodeLoop_four (small1 : val1.toNat < 64) (small2 : val2.toNat < 64) (small3 : val3.toNat < 64)
    (small4 : val4.toNat < 64) {rest : List UInt8} (decoded : decodeLoop true left tail = .ok rest) :
    decodeLoop true (left + 1) (lutChar val1 :: lutChar val2 :: lutChar val3 :: lutChar val4 :: tail) =
      .ok (assemble4 val1 val2 val3 val4 ++ rest) := by
  simp [decodeLoop, getNextValue_lutChar small1, getNextValue_lutChar small2,
    getNextValue_lutChar small3, getNextValue_lutChar small4, ok_bind, decoded]

end

/-- The bits that a byte leaves over for the next character are followed by zeros. -/
theorem zeros_behind (byte : UInt8) :
    (byte <<< 4 &&& 0x30) &&& 0x0F = (0 : UInt8) ∧ (byte <<< 2 &&& 0x3C) &&& 0x03 = (0 : UInt8) := by
  rw [UInt8.and_assoc, UInt8.and_assoc]
  exact ⟨UInt8.and_zero, UInt8.and_zero⟩

theorem decodeLoop_encode1 (left : Nat) (byte1 : UInt8) (tail : List UInt8) :
    decodeLoop true (left + 1) (encode1 true byte1 ++ tail) = .ok [byte1] := by
  obtain ⟨first, second, -⟩ := toNat_encoded byte1
  have small := byte1.toNat_lt
  have value := @toNat_byte1 (byte1 >>> 2 &&& 0x3F) (byte1 <<< 4 &&& 0x30) (by omega) (by omega)
  refine (decodeLoop_two left tail (by omega) (by omega) (zeros_behind byte1).1).trans ?_
  rw [UInt8.toNat_inj.mp (value.trans (by omega : _ = byte1.toNat))]

theorem decodeLoop_encode2 (left : Nat) (byte1 byte2 : UInt8) (tail : List UInt8) :
    decodeLoop true (left + 1) (encode2 true byte1 byte2 ++ tail) = .ok [byte1, byte2] := by
  obtain ⟨first, -⟩ := toNat_encoded byte1
  have second := toNat_second byte1 byte2
  obtain ⟨-, -, -, third, -⟩ := toNat_encoded byte2
  have small1 := byte1.toNat_lt
  have small2 := byte2.toNat_lt
  refine (decodeLoop_three left tail (by omega) (by omega) (by omega) (zeros_behind byte2).2).trans ?_
  rw [UInt8.toNat_inj.mp ((toNat_byte1 (by omega) (by omega)).trans (by omega : _ = byte1.toNat)),
    UInt8.toNat_inj.mp ((toNat_byte2 (by omega)).trans (by omega : _ = byte2.toNat))]

theorem decodeLoop_encode3 {left : Nat} (byte1 byte2 byte3 : UInt8) {tail rest : List UInt8}
    (decoded : decodeLoop true left tail = .ok rest) :
    decodeLoop true (left + 1) (encode3 byte1 byte2 byte3 ++ tail) =
      .ok (byte1 :: byte2 :: byte3 :: rest) := by
  obtain ⟨first, -⟩ := toNat_encoded byte1
  have second := toNat_second byte1 byte2
  have third := toNat_third byte2 byte3
  obtain ⟨-, -, -, -, -, fourth⟩ := toNat_encoded byte3
  have small1 := byte1.toNat_lt
  have small2 := byte2.toNat_lt
  have small3 := byte3.toNat_lt
  refine (decodeLoop_four left tail (by omega) (by omega) (by omega) (by omega) decoded).trans ?_
  rw [assemble4, UInt8.toNat_inj.mp ((toNat_byte1 (by omega) (by omega)).trans (by omega : _ = byte1.toNat)),
    UInt8.toNat_inj.mp ((toNat_byte2 (by omega)).trans (by omega : _ = byte2.toNat)),
    UInt8.toNat_inj.mp ((toNat_byte3 (by omega)).trans (by omega : _ = byte3.toNat))]
  rfl

/-! ## Strictness -/

theorem encode_ne_nil {bytes : List UInt8} (notEmpty : bytes ≠ []) : encode true bytes ≠ [] := by
  unfold encode
  split
  · exact absurd rfl notEmpty
  all_goals simp [encode1, encode2, encode3]

theorem nothing_decoded {bytes : List UInt8} : (.ok [] : Except InvalidArgument (List UInt8)) = .ok bytes ↔
    ∃ tail, [] = encode true bytes ++ tail ∧ (bytes.length % 3 = 0 → tail = []) := by
  rw [Except.ok.injEq]
  constructor
  · rintro rfl
    exact ⟨[], rfl, fun _ => rfl⟩
  · rintro ⟨tail, isSrc, -⟩
    by_contra notEmpty
    exact encode_ne_nil (Ne.symm notEmpty) (List.append_eq_nil_iff.mp isSrc.symm).1

/-- What is accepted is the encoding of what is returned, and anything behind the padding of that. -/
theorem decodeLoop_eq_ok {left : Nat} {src bytes : List UInt8} (enough : src.length ≤ left) :
    decodeLoop true left src = .ok bytes ↔
      ∃ tail, src = encode true bytes ++ tail ∧ (bytes.length % 3 = 0 → tail = []) := by
  induction left generalizing src bytes with
  | zero =>
    obtain rfl : src = [] := List.length_eq_zero_iff.mp (by omega)
    exact nothing_decoded
  | succ left inductionHypothesis =>
    by_cases empty : src = []
    · rw [empty]
      exact nothing_decoded
    constructor
    · intro decoded
      rcases decodeLoop_sound empty decoded with ⟨byte1, tail, rfl, isSrc⟩ | ⟨byte1, byte2, tail,
        rfl, isSrc⟩ |
        ⟨byte1, byte2, byte3, rest, tail, rfl, rfl, behind⟩
      · exact ⟨tail, isSrc, fun whole => by cases whole⟩
      · exact ⟨tail, isSrc, fun whole => by cases whole⟩
      · have shorter : tail.length ≤ left := by
          simp [encode3] at enough
          omega
        obtain ⟨tail', rfl, whole⟩ := (inductionHypothesis shorter).mp behind
        exact ⟨tail', by rw [encode, List.append_assoc], fun threes => whole (by simp at threes; omega)⟩
    · rintro ⟨tail, rfl, whole⟩
      rcases bytes with _ | ⟨byte1, _ | ⟨byte2, _ | ⟨byte3, rest⟩⟩⟩
      · exact absurd (whole rfl) empty
      · exact decodeLoop_encode1 left byte1 tail
      · exact decodeLoop_encode2 left byte1 byte2 tail
      · rw [encode, List.append_assoc] at enough ⊢
        refine decodeLoop_encode3 byte1 byte2 byte3 ((inductionHypothesis ?_).mpr ⟨tail, rfl, ?_⟩)
        · simp [encode3] at enough ⊢
          omega
        · exact fun threes => whole (by simp; omega)

theorem decode_eq_ok {src bytes : List UInt8} : decode true src = .ok bytes ↔
    ∃ tail, src = encode true bytes ++ tail ∧ (bytes.length % 3 = 0 → tail = []) :=
  decodeLoop_eq_ok (Nat.le_refl _)

/-- From the first padding character on there are as many characters as fill up its group of four. -/
def NothingBehindPadding (src : List UInt8) : Prop :=
  (src.dropWhile (· ≠ padding)).length = (4 - (src.takeWhile (· ≠ padding)).length % 4) % 4

theorem padding_ne_lutChar {val : UInt8} (small : val.toNat < 64) : padding ≠ lutChar val :=
  (getValue_lutChar small).1.symm

/-- An encoding is filled up with padding. -/
theorem encode_eq_padded (bytes : List UInt8) : ∃ body, padding ∉ body ∧
    encode true bytes = body ++ List.replicate ((4 - body.length % 4) % 4) padding ∧
    (bytes.length % 3 ≠ 0 → body.length % 4 ≠ 0) := by
  fun_induction encode true bytes with
  | case1 => exact ⟨[], by simp, rfl, by simp⟩
  | case2 byte1 =>
    obtain ⟨first, second, -⟩ := toNat_encoded byte1
    have small := byte1.toNat_lt
    have char1 := @padding_ne_lutChar (byte1 >>> 2 &&& 0x3F) (by omega)
    have char2 := @padding_ne_lutChar (byte1 <<< 4 &&& 0x30) (by omega)
    exact ⟨[_, _], by simp [char1, char2], rfl, by simp⟩
  | case3 byte1 byte2 =>
    obtain ⟨first, -⟩ := toNat_encoded byte1
    have second := toNat_second byte1 byte2
    obtain ⟨-, -, -, third, -⟩ := toNat_encoded byte2
    have small1 := byte1.toNat_lt
    have small2 := byte2.toNat_lt
    have char1 := @padding_ne_lutChar (byte1 >>> 2 &&& 0x3F) (by omega)
    have char2 := @padding_ne_lutChar _ (second.trans_lt (by omega))
    have char3 := @padding_ne_lutChar (byte2 <<< 2 &&& 0x3C) (by omega)
    exact ⟨[_, _, _], by simp [char1, char2, char3], rfl, by simp⟩
  | case4 byte1 byte2 byte3 rest inductionHypothesis =>
    obtain ⟨body, noPadding, isEncoding, left⟩ := inductionHypothesis
    obtain ⟨first, -⟩ := toNat_encoded byte1
    have second := toNat_second byte1 byte2
    have third := toNat_third byte2 byte3
    obtain ⟨-, -, -, -, -, fourth⟩ := toNat_encoded byte3
    have small1 := byte1.toNat_lt
    have small2 := byte2.toNat_lt
    have small3 := byte3.toNat_lt
    have char1 := @padding_ne_lutChar (byte1 >>> 2 &&& 0x3F) (by omega)
    have char2 := @padding_ne_lutChar _ (second.trans_lt (by omega))
    have char3 := @padding_ne_lutChar _ (third.trans_lt (by omega))
    have char4 := @padding_ne_lutChar (byte3 &&& 0x3F) (by omega)
    refine ⟨encode3 byte1 byte2 byte3 ++ body, ?_, ?_, ?_⟩
    · simp [encode3, char1, char2, char3, char4, noPadding]
    · have sameFill : (encode3 byte1 byte2 byte3 ++ body).length % 4 = body.length % 4 := by
        simp [encode3]
        omega
      rw [isEncoding, sameFill, List.append_assoc]
    · intro notWhole
      have behind := left (by simp at notWhole; omega)
      simp [encode3]
      omega

theorem nothingBehindPadding_iff {bytes tail : List UInt8} (whole : bytes.length % 3 = 0 → tail = []) :
    NothingBehindPadding (encode true bytes ++ tail) ↔ tail = [] := by
  obtain ⟨body, noPadding, isEncoding, left⟩ := encode_eq_padded bytes
  have isBody : ∀ ch ∈ body, decide (ch ≠ padding) = true := by
    intro ch inBody
    simp only [ne_eq, decide_not, Bool.not_eq_true', decide_eq_false_iff_not]
    rintro rfl
    exact noPadding inBody
  have head : ∀ rest, (rest = [] ∨ rest.head? = some padding) →
      rest.takeWhile (· ≠ padding) = [] ∧ rest.dropWhile (· ≠ padding) = rest := by
    rintro rest (rfl | isHead)
    · exact ⟨rfl, rfl⟩
    · cases rest with
      | nil => exact ⟨rfl, rfl⟩
      | cons ch rest =>
        cases isHead
        exact ⟨rfl, rfl⟩
  have filled := head (List.replicate ((4 - body.length % 4) % 4) padding ++ tail) (by
    by_cases none : bytes.length % 3 = 0
    · rw [whole none, List.append_nil]
      cases (4 - body.length % 4) % 4 <;> simp [List.replicate_succ]
    · obtain ⟨fill, isFill⟩ : ∃ fill, (4 - body.length % 4) % 4 = fill + 1 :=
        ⟨(4 - body.length % 4) % 4 - 1, by have := left none; omega⟩
      rw [isFill, List.replicate_succ]
      exact .inr rfl)
  rw [NothingBehindPadding, isEncoding, List.append_assoc, List.takeWhile_append_of_pos isBody,
    List.dropWhile_append_of_pos isBody, filled.1, filled.2, List.append_nil, List.length_append,
    List.length_replicate, Nat.add_eq_left, List.length_eq_zero_iff]

/-- Encodings are decoded.  The strings that are accepted are encodings where nothing is behind the
    padding, and where there is padding others are accepted for the same bytes. -/
theorem base64_strict_iff (bytes : List UInt8) :
    decode true (encode true bytes) = .ok bytes ∧
    (∀ src, decode true src = .ok bytes → (encode true bytes = src ↔ NothingBehindPadding src)) ∧
    ((∀ src src', decode true src = .ok bytes → decode true src' = .ok bytes → src = src') ↔
      bytes.length % 3 = 0) := by
  refine ⟨?_, ?_, ?_⟩
  · exact decode_eq_ok.mpr ⟨[], (List.append_nil _).symm, fun _ => rfl⟩
  · intro src decoded
    obtain ⟨tail, rfl, whole⟩ := decode_eq_ok.mp decoded
    rw [nothingBehindPadding_iff whole]
    constructor
    · intro same
      exact List.self_eq_append_right.mp same
    · rintro rfl
      rw [List.append_nil]
  · constructor
    · intro unique
      by_contra notWhole
      have same := unique (encode true bytes) (encode true bytes ++ [padding])
        (decode_eq_ok.mpr ⟨[], (List.append_nil _).symm, fun _ => rfl⟩)
        (decode_eq_ok.mpr ⟨[padding], rfl, fun whole => absurd whole notWhole⟩)
      exact absurd (List.self_eq_append_right.mp same) (by simp)
    · intro whole src src' decoded decoded'
      obtain ⟨tail, rfl, nothing⟩ := decode_eq_ok.mp decoded
      obtain ⟨tail', rfl, nothing'⟩ := decode_eq_ok.mp decoded'
      rw [nothing whole, nothing' whole]

/-- `QQ==` and `QQ==QQ==` are both accepted for the byte of `A`. -/
theorem base64_not_strict : ∃ src src' bytes, decode true src = .ok bytes ∧
    decode true src' = .ok bytes ∧ src ≠ src' ∧ encode true bytes ≠ src' :=
  ⟨[81, 81, 61, 61], [81, 81, 61, 61, 81, 81, 61, 61], [65], by decide +kernel, by decide +kernel,
    by decide +kernel, by decide +kernel⟩

end Decentagram.SimpleObjects.Base64
