import Decentagram.Lib.Bytes
import Decentagram.Lib.Result
import Mathlib.Algebra.Order.Ring.Nat
import Mathlib.Data.Nat.Size

/-! # UTF-8

The conversion of UTF-8 to UTF-8 by way of code points, which checks a string and otherwise copies it.
-/

namespace Decentagram.SimpleUtf

open Decentagram.Lib

/-- The second one is a read behind the end of the input, after which nothing is defined. -/
inductive Exception where
  | utfConversion (issue : String)
  | readPastEnd
deriving DecidableEq, Repr

def isReservedCodePt (val : UInt32) : Bool := 0xD800 ≤ val && val ≤ 0xDFFF

def isValidCodePt (val : UInt32) : Bool := val ≤ 0x10FFFF && !isReservedCodePt val

def bitWidthChar (val : UInt32) : Nat := val.toNat.size

def calcUtf8NumContNeeded (val : UInt32) : Except Exception Nat :=
  if !isValidCodePt val then
    .error (.utfConversion ("Invalid UTF Code Point - " ++ toString val.toNat ++
      " is not a valid UTF code point."))
  else if bitWidthChar val ≤ 7 then .ok 0
  else if bitWidthChar val ≤ 11 then .ok 1
  else if bitWidthChar val ≤ 16 then .ok 2
  else .ok 3

/-- The number of continuation bytes and the bits of the leading one. -/
def utf8ReadLeading (val : UInt8) : Except Exception (Nat × UInt8) :=
  if val ≤ 0x7F then .ok (0, val &&& 0x7F)
  else if val &&& 0x40 ≠ 0 ∧ val &&& 0x20 = 0 ∧ val &&& 0x1E ≠ 0 then .ok (1, val &&& 0x1F)
  else if val &&& 0x40 ≠ 0 ∧ val &&& 0x20 ≠ 0 ∧ val &&& 0x10 = 0 then .ok (2, val &&& 0x0F)
  else if val &&& 0x40 ≠ 0 ∧ val &&& 0x20 ≠ 0 ∧ val &&& 0x10 ≠ 0 ∧ val &&& 0x08 = 0 then
    .ok (3, val &&& 0x07)
  else .error (.utfConversion "Invalid Encoding - Invalid UTF-8 leading byte.")

def utf8ReadCont (val : UInt8) : Except Exception UInt8 :=
  if ¬ val ≤ 0x7F ∧ val &&& 0x40 = 0 then .ok (val &&& 0x3F)
  else .error (.utfConversion "Invalid Encoding - Invalid UTF-8 continuation byte.")

/-- The loop over the continuation bytes with `left` of them to go.  Only the first one is checked
    against longer encodings than necessary, and the end of the input is not looked at. -/
def utf8ReadConts (numCont : Nat) : Nat → UInt32 → List UInt8 → Except Exception (UInt32 × List UInt8)
  | 0, res, rest => .ok (res, rest)
  | _ + 1, _, [] => .error .readPastEnd
  | left + 1, res, byte :: rest => do
    let b ← utf8ReadCont byte
    let res := res <<< 6 ||| b.toUInt32
    if left + 1 = numCont ∧ (numCont = 2 ∧ res < 0x20 ∨ numCont = 3 ∧ res < 0x10) then
      .error (.utfConversion "Invalid Encoding - Invalid UTF-8 continuation byte.")
    else utf8ReadConts numCont left res rest

def utf8ToCodePtOnce : List UInt8 → Except Exception (UInt32 × List UInt8)
  | [] =>
    .error (.utfConversion
      "Unexpected Ending - String ends unexpected while reading the next UTF-8 char.")
  | byte :: rest => do
    let (numCont, leading) ← utf8ReadLeading byte
    let (res, rest) ← utf8ReadConts numCont numCont leading.toUInt32 rest
    if isValidCodePt res then .ok (res, rest)
    else
      .error (.utfConversion
        "Invalid Code Point - The code point read from the given UTF-8 encoding is invalid.")

/-- The continuation bytes from the last one on, and what is left for the leading byte. -/
def utf8Conts : Nat → UInt32 → List UInt8 → UInt32 × List UInt8
  | 0, val, res => (val, res)
  | i + 1, val, res => utf8Conts i (val >>> 6) ((0x80 ||| (val &&& 0x3F).toUInt8) :: res)

def utf8Leading (numCont : Nat) (val : UInt32) : UInt8 :=
  match numCont with
  | 0 => (val &&& 0x7F).toUInt8
  | 1 => 0xC0 ||| (val &&& 0x1F).toUInt8
  | 2 => 0xE0 ||| (val &&& 0x0F).toUInt8
  | _ => 0xF0 ||| (val &&& 0x07).toUInt8

def codePtToUtf8Once (val : UInt32) : Except Exception (List UInt8) := do
  let numCont ← calcUtf8NumContNeeded val
  let (val, conts) := utf8Conts numCont val []
  .ok (utf8Leading numCont val :: conts)

/-- The loop of `UtfConvert`.  The number bounds the rounds: each one reads a byte at least. -/
def utfConvertLoop : Nat → List UInt8 → Except Exception (List UInt8)
  | _, [] => .ok []
  | 0, _ => .error .readPastEnd
  | left + 1, input => do
    let (codePt, rest) ← utf8ToCodePtOnce input
    let bytes ← codePtToUtf8Once codePt
    let converted ← utfConvertLoop left rest
    .ok (bytes ++ converted)

def utfConvert (input : List UInt8) : Except Exception (List UInt8) := utfConvertLoop input.length input

/-- The encodings of sequences of characters. -/
def ValidUtf8 (bytes : List UInt8) : Prop :=
  ∃ chars : List Char, bytes = chars.flatMap String.utf8EncodeChar

/-! ## Bytes -/

theorem utf8ReadLeading_toOption (val : UInt8) : (utf8ReadLeading val).toOption =
    if val < 0x80 then some (0, val)
    else if val < 0xC2 then none
    else if val < 0xE0 then some (1, val - 0xC0)
    else if val < 0xF0 then some (2, val - 0xE0)
    else if val < 0xF8 then some (3, val - 0xF0)
    else none := by
  revert val
  apply forall_byte
  decide +kernel

theorem utf8ReadCont_toOption (val : UInt8) :
    (utf8ReadCont val).toOption = if 0x80 ≤ val ∧ val < 0xC0 then some (val - 0x80) else none := by
  revert val
  apply forall_byte
  decide +kernel

theorem eq_ok_iff_toOption {ε α : Type} {result : Except ε α} {value : α} :
    result = .ok value ↔ result.toOption = some value := by
  cases result <;> simp [Except.toOption]

/-- A continuation byte holds six bits. -/
theorem utf8ReadCont_eq_ok {val b : UInt8} :
    utf8ReadCont val = .ok b ↔ b.toNat < 64 ∧ val.toNat = 128 + b.toNat := by
  rw [eq_ok_iff_toOption, utf8ReadCont_toOption]
  have small := val.toNat_lt
  have small' := b.toNat_lt
  constructor
  · intro read
    split at read
    · rename_i range
      cases read
      rw [UInt8.le_iff_toNat_le, UInt8.lt_iff_toNat_lt] at range
      rw [UInt8.toNat_sub]
      simp at range ⊢
      omega
    · cases read
  · intro bits
    rw [if_pos, Option.some.injEq, ← UInt8.toNat_inj, UInt8.toNat_sub]
    · simp
      omega
    · rw [UInt8.le_iff_toNat_le, UInt8.lt_iff_toNat_lt]
      simp
      omega

/-- The leading bytes of each length, the first of which leave out what one byte could say. -/
theorem utf8ReadLeading_eq_ok {val leading : UInt8} {numCont : Nat} :
    utf8ReadLeading val = .ok (numCont, leading) ↔
      (numCont = 0 ∧ leading.toNat < 128 ∧ val.toNat = leading.toNat) ∨
      (numCont = 1 ∧ 2 ≤ leading.toNat ∧ leading.toNat < 32 ∧ val.toNat = 192 + leading.toNat) ∨
      (numCont = 2 ∧ leading.toNat < 16 ∧ val.toNat = 224 + leading.toNat) ∨
      (numCont = 3 ∧ leading.toNat < 8 ∧ val.toNat = 240 + leading.toNat) := by
  have small := val.toNat_lt
  have small' := leading.toNat_lt
  have sub : ∀ {base : UInt8}, base ≤ val →
    (val - base = leading ↔ val.toNat = base.toNat + leading.toNat) := by
    intro base atLeast
    have atLeast' := UInt8.le_iff_toNat_le.mp atLeast
    rw [← UInt8.toNat_inj, UInt8.toNat_sub_of_le _ _ atLeast]
    omega
  rw [eq_ok_iff_toOption, utf8ReadLeading_toOption]
  simp only [UInt8.lt_iff_toNat_lt, UInt8.le_iff_toNat_le, UInt8.reduceToNat] at sub ⊢
  split
  · rw [Option.some.injEq, Prod.mk.injEq, ← UInt8.toNat_inj]
    omega
  split
  · simp only [reduceCtorEq, false_iff]
    omega
  split
  · rw [Option.some.injEq, Prod.mk.injEq, sub (by simp only [UInt8.reduceToNat]; omega)]
    simp only [UInt8.reduceToNat]
    omega
  split
  · rw [Option.some.injEq, Prod.mk.injEq, sub (by simp only [UInt8.reduceToNat]; omega)]
    simp only [UInt8.reduceToNat]
    omega
  split
  · rw [Option.some.injEq, Prod.mk.injEq, sub (by simp only [UInt8.reduceToNat]; omega)]
    simp only [UInt8.reduceToNat]
    omega
  · simp only [reduceCtorEq, false_iff]
    omega

/-- Six more bits are put behind a value. -/
theorem toNat_shift_or {res : UInt32} {b : UInt8} (fits : res.toNat < 2 ^ 26) (small : b.toNat < 64) :
    (res <<< 6 ||| b.toUInt32).toNat = 64 * res.toNat + b.toNat := by
  have shifted : res.toNat <<< 6 < 2 ^ 32 := by
    rw [Nat.shiftLeft_eq]
    omega
  rw [UInt32.toNat_or, UInt32.toNat_shiftLeft, UInt8.toNat_toUInt32]
  change res.toNat <<< 6 % 2 ^ 32 ||| b.toNat = _
  rw [Nat.mod_eq_of_lt shifted, ← Nat.shiftLeft_add_eq_or_of_lt small, Nat.shiftLeft_eq]
  omega

theorem utf8ReadConts_succ_eq_ok {numCont left : Nat} {res val : UInt32} {input rest : List UInt8}
    (fits : res.toNat < 2 ^ 26) : utf8ReadConts numCont (left + 1) res input = .ok (val, rest) ↔
      ∃ byte tail res', input = byte :: tail ∧ 128 ≤ byte.toNat ∧ byte.toNat < 192 ∧
        res'.toNat = 64 * res.toNat + (byte.toNat - 128) ∧
        ¬ (left + 1 = numCont ∧ (numCont = 2 ∧ res'.toNat < 32 ∨ numCont = 3 ∧ res'.toNat < 16)) ∧
        utf8ReadConts numCont left res' tail = .ok (val, rest) := by
  cases input with
  | nil => simp [utf8ReadConts]
  | cons byte tail =>
    simp only [utf8ReadConts, bind_eq_ok, utf8ReadCont_eq_ok, UInt32.lt_iff_toNat_lt]
    constructor
    · intro read
      obtain ⟨b, ⟨small, isByte⟩, read⟩ := read
      split at read
      · cases read
      · rename_i notLonger
        refine ⟨byte, tail, _, rfl, by omega, by omega, ?_, notLonger, read⟩
        rw [toNat_shift_or fits small]
        omega
    · intro read
      obtain ⟨byte', tail', res', isInput, atLeast, atMost, isRes, notLonger, read⟩ := read
      cases isInput
      have isBits : (byte - 128).toNat = byte.toNat - 128 :=
        UInt8.toNat_sub_of_le _ _ (UInt8.le_iff_toNat_le.mpr atLeast)
      have same : res <<< 6 ||| (byte - 128).toUInt32 = res' := by
        rw [← UInt32.toNat_inj, toNat_shift_or fits (by omega), isRes, isBits]
      refine ⟨byte - 128, ⟨by omega, by omega⟩, ?_⟩
      rw [same]
      exact (if_neg notLonger).trans read

theorem length_of_utf8ReadConts {numCont left : Nat} {res val : UInt32} {input rest : List UInt8}
    (read : utf8ReadConts numCont left res input = .ok (val, rest)) : input.length = left + rest.length := by
  induction left generalizing res input with
  | zero =>
    cases read
    exact (Nat.zero_add _).symm
  | succ left inductionHypothesis =>
    cases input with
    | nil => cases read
    | cons byte tail =>
      simp only [utf8ReadConts, bind_eq_ok] at read
      obtain ⟨_, -, read⟩ := read
      split at read
      · cases read
      · rw [List.length_cons, inductionHypothesis read]
        omega

theorem isValidCodePt_iff {val : UInt32} : isValidCodePt val = true ↔ val.isValidChar := by
  simp only [isValidCodePt, isReservedCodePt, Bool.and_eq_true, Bool.not_eq_true',
    Bool.and_eq_false_iff, decide_eq_true_eq, decide_eq_false_iff_not, UInt32.le_iff_toNat_le,
    UInt32.isValidChar, Nat.isValidChar,
    UInt32.reduceToNat]
  omega

/-- What is read has the value of a character and is its encoding. -/
theorem encoding_of_utf8ToCodePtOnce {input rest : List UInt8} {val : UInt32}
    (read : utf8ToCodePtOnce input = .ok (val, rest)) :
    ∃ char : Char, char.val = val ∧ input = String.utf8EncodeChar char ++ rest := by
  cases input with
  | nil => cases read
  | cons byte tail =>
    simp only [utf8ToCodePtOnce, bind_eq_ok, Prod.exists, utf8ReadLeading_eq_ok] at read
    obtain ⟨numCont, leading, forms, res, rest', conts, valid⟩ := read
    split at valid
    · rename_i isValid
      cases valid
      refine ⟨⟨val, isValidCodePt_iff.mp isValid⟩, rfl, ?_⟩
      -- the four leading bytes; the value read says which branch the encoder takes
      rcases forms with ⟨rfl, small, isByte⟩ | ⟨rfl, atLeast, small, isByte⟩ | ⟨rfl, small, isByte⟩ |
        ⟨rfl, small, isByte⟩
      · cases conts
        simp only [String.utf8EncodeChar, UInt8.toNat_toUInt32]
        rw [if_pos (by omega), ← isByte, UInt8.ofNat_toNat]
        rfl
      · rw [utf8ReadConts_succ_eq_ok (by rw [UInt8.toNat_toUInt32]; omega)] at conts
        obtain ⟨byte', tail', res', rfl, atLeast', atMost', isRes, notLonger, conts⟩ := conts
        cases conts
        rw [UInt8.toNat_toUInt32] at isRes
        simp only [String.utf8EncodeChar]
        rw [if_neg (by omega), if_pos (by omega), ← @eq_ofNat byte _ (by omega),
          ← @eq_ofNat byte' _ (by omega)]
        rfl
      · have leadingFits : leading.toUInt32.toNat < 16 := by rwa [UInt8.toNat_toUInt32]
        rw [utf8ReadConts_succ_eq_ok (by omega)] at conts
        obtain ⟨byte₁, tail₁, res₁, rfl, atLeast₁, atMost₁, isRes₁, notLonger, conts⟩ := conts
        rw [utf8ReadConts_succ_eq_ok (by omega)] at conts
        obtain ⟨byte₂, tail₂, res₂, rfl, atLeast₂, atMost₂, isRes₂, -, conts⟩ := conts
        cases conts
        rw [UInt8.toNat_toUInt32] at isRes₁
        simp only [String.utf8EncodeChar]
        rw [if_neg (by omega), if_neg (by omega), if_pos (by omega), ← @eq_ofNat byte _ (by omega),
          ← @eq_ofNat byte₁ _ (by omega), ← @eq_ofNat byte₂ _ (by omega)]
        rfl
      · have leadingFits : leading.toUInt32.toNat < 8 := by rwa [UInt8.toNat_toUInt32]
        rw [utf8ReadConts_succ_eq_ok (by omega)] at conts
        obtain ⟨byte₁, tail₁, res₁, rfl, atLeast₁, atMost₁, isRes₁, notLonger, conts⟩ := conts
        rw [utf8ReadConts_succ_eq_ok (by omega)] at conts
        obtain ⟨byte₂, tail₂, res₂, rfl, atLeast₂, atMost₂, isRes₂, -, conts⟩ := conts
        rw [utf8ReadConts_succ_eq_ok (by omega)] at conts
        obtain ⟨byte₃, tail₃, res₃, rfl, atLeast₃, atMost₃, isRes₃, -, conts⟩ := conts
        cases conts
        rw [UInt8.toNat_toUInt32] at isRes₁
        simp only [String.utf8EncodeChar]
        rw [if_neg (by omega), if_neg (by omega), if_neg (by omega), ← @eq_ofNat byte _ (by omega),
          ← @eq_ofNat byte₁ _ (by omega), ← @eq_ofNat byte₂ _ (by omega),
          ← @eq_ofNat byte₃ _ (by omega)]
        rfl
    · cases valid

theorem toNat_ofNat {n : Nat} (small : n < 256) : (UInt8.ofNat n).toNat = n :=
  UInt8.toNat_ofNat_of_lt' small

theorem toNat_ofNat32 {n : Nat} (small : n < 2 ^ 32) : (UInt32.ofNat n).toNat = n :=
  UInt32.toNat_ofNat_of_lt' small

/-- A continuation byte is read behind the bits that stand above its own. -/
theorem utf8ReadConts_cont {numCont left n : Nat} {res val : UInt32} {tail rest : List UInt8}
    (above : res.toNat = n / 64) (small : n < 0x110000)
    (notLonger : ¬ (left + 1 = numCont ∧ (numCont = 2 ∧ n < 32 ∨ numCont = 3 ∧ n < 16)))
    (read : utf8ReadConts numCont left (UInt32.ofNat n) tail = .ok (val, rest)) :
    utf8ReadConts numCont (left + 1) res (UInt8.ofNat (n % 64 + 0x80) :: tail) =
      .ok (val, rest) := by
  refine (utf8ReadConts_succ_eq_ok (by omega)).mpr ⟨_, _, UInt32.ofNat n, rfl, ?_⟩
  rw [toNat_ofNat (by omega), toNat_ofNat32 (by omega)]
  exact ⟨by omega, by omega, by omega, notLonger, read⟩

/-- The encoding of a character is read as the character. -/
theorem utf8ToCodePtOnce_encodeChar (char : Char) (rest : List UInt8) :
    utf8ToCodePtOnce (String.utf8EncodeChar char ++ rest) = .ok (char.val, rest) := by
  have small : char.val.toNat < 0x110000 := by
    have valid := char.valid
    simp only [UInt32.isValidChar, Nat.isValidChar] at valid
    omega
  have isValid : isValidCodePt char.val = true := isValidCodePt_iff.mpr char.valid
  have last : ∀ numCont, utf8ReadConts numCont 0 (UInt32.ofNat char.val.toNat) rest =
      .ok (char.val, rest) := by
    intro numCont
    rw [UInt32.ofNat_toNat]
    rfl
  -- one case for each width of the encoding: the leading byte, then the continuation bytes
  simp only [String.utf8EncodeChar]
  split
  · simp only [List.cons_append, List.nil_append, utf8ToCodePtOnce, bind_eq_ok, Prod.exists]
    refine ⟨0, UInt8.ofNat char.val.toNat, utf8ReadLeading_eq_ok.mpr (.inl ⟨rfl, ?_, rfl⟩),
      char.val, rest, ?_, if_pos isValid⟩
    · rw [toNat_ofNat (by omega)]
      omega
    · have same : (UInt8.ofNat char.val.toNat).toUInt32 = char.val := by
        rw [← UInt32.toNat_inj, UInt8.toNat_toUInt32, toNat_ofNat (by omega)]
      rw [same]
      rfl
  split
  · simp only [List.cons_append, List.nil_append, utf8ToCodePtOnce, bind_eq_ok, Prod.exists]
    refine ⟨1, UInt8.ofNat (char.val.toNat / 64), utf8ReadLeading_eq_ok.mpr (.inr (.inl ⟨rfl, ?_⟩)),
      char.val, rest, ?_, if_pos isValid⟩
    · rw [toNat_ofNat (by omega), toNat_ofNat (by omega)]
      omega
    · refine utf8ReadConts_cont ?_ (by omega) (by omega) (last _)
      rw [UInt8.toNat_toUInt32, toNat_ofNat (by omega)]
  split
  · simp only [List.cons_append, List.nil_append, utf8ToCodePtOnce, bind_eq_ok, Prod.exists]
    refine ⟨2, UInt8.ofNat (char.val.toNat / 4096),
      utf8ReadLeading_eq_ok.mpr (.inr (.inr (.inl ⟨rfl, ?_⟩))), char.val, rest, ?_, if_pos isValid⟩
    · rw [toNat_ofNat (by omega), toNat_ofNat (by omega)]
      omega
    · refine utf8ReadConts_cont ?_ (by omega) (by omega)
        (utf8ReadConts_cont ?_ (by omega) (by omega) (last _))
      · rw [UInt8.toNat_toUInt32, toNat_ofNat (by omega)]
        omega
      · rw [toNat_ofNat32 (by omega)]
  · simp only [List.cons_append, List.nil_append, utf8ToCodePtOnce, bind_eq_ok, Prod.exists]
    refine ⟨3, UInt8.ofNat (char.val.toNat / 262144),
      utf8ReadLeading_eq_ok.mpr (.inr (.inr (.inr ⟨rfl, ?_⟩))), char.val, rest, ?_, if_pos isValid⟩
    · rw [toNat_ofNat (by omega), toNat_ofNat (by omega)]
      omega
    · refine utf8ReadConts_cont ?_ (by omega) (by omega)
        (utf8ReadConts_cont ?_ (by omega) (by omega)
          (utf8ReadConts_cont ?_ (by omega) (by omega) (last _)))
      · rw [UInt8.toNat_toUInt32, toNat_ofNat (by omega)]
        omega
      · rw [toNat_ofNat32 (by omega)]
        omega
      · rw [toNat_ofNat32 (by omega)]

/-- Bits below those of a tag are added to it. -/
theorem or_eq_ofNat {tag : UInt8} {bits : UInt32} {i top : Nat} (isTag : tag.toNat = 2 ^ i * top)
    (below : bits.toNat < 2 ^ i) (width : i ≤ 7) :
    tag ||| bits.toUInt8 = UInt8.ofNat (bits.toNat + tag.toNat) := by
  have small : bits.toNat < 256 :=
    Nat.lt_of_lt_of_le below (Nat.le_trans (Nat.pow_le_pow_right (by decide) width) (by decide))
  apply eq_ofNat
  have isBits : bits.toUInt8.toNat = bits.toNat := by
    rw [UInt32.toNat_toUInt8, Nat.mod_eq_of_lt small]
  rw [toNat_or_below isTag (by rwa [isBits]), isBits, Nat.add_comm]

theorem contByte_eq (val : UInt32) :
    0x80 ||| (val &&& 0x3F).toUInt8 = UInt8.ofNat (val.toNat % 64 + 0x80) := by
  have isBits : (val &&& 0x3F).toNat = val.toNat % 64 := Nat.and_two_pow_sub_one_eq_mod val.toNat 6
  rw [@or_eq_ofNat 0x80 _ 7 1 rfl (by omega) (by decide), isBits]
  rfl

theorem toNat_shiftRight (val : UInt32) : (val >>> 6).toNat = val.toNat / 64 := by
  rw [UInt32.toNat_shiftRight]
  exact Nat.shiftRight_eq_div_pow val.toNat 6

theorem calcUtf8NumContNeeded_char (char : Char) : calcUtf8NumContNeeded char.val =
    .ok (if char.val.toNat ≤ 0x7F then 0 else if char.val.toNat ≤ 0x7FF then 1
      else if char.val.toNat ≤ 0xFFFF then 2 else 3) := by
  have below : ∀ {bound : Nat}, bitWidthChar char.val ≤ bound ↔ char.val.toNat < 2 ^ bound :=
    Nat.size_le
  have one : bitWidthChar char.val ≤ 7 ↔ char.val.toNat ≤ 0x7F := below.trans (by omega)
  have two : bitWidthChar char.val ≤ 11 ↔ char.val.toNat ≤ 0x7FF := below.trans (by omega)
  have three : bitWidthChar char.val ≤ 16 ↔ char.val.toNat ≤ 0xFFFF := below.trans (by omega)
  rw [calcUtf8NumContNeeded, isValidCodePt_iff.mpr char.valid]
  simp only [Bool.not_true, Bool.false_eq_true, if_false, one, two, three]
  split
  · rfl
  split
  · rfl
  split <;> rfl

/-- The encoding of a character is written for it. -/
theorem codePtToUtf8Once_char (char : Char) :
    codePtToUtf8Once char.val = .ok (String.utf8EncodeChar char) := by
  have mask : ∀ (val : UInt32) (i : Nat) (bits : UInt32), bits.toNat = 2 ^ i - 1 →
      (val &&& bits).toNat = val.toNat % 2 ^ i := by
    intro val i bits isMask
    rw [UInt32.toNat_and, isMask, Nat.and_two_pow_sub_one_eq_mod]
  rw [codePtToUtf8Once, calcUtf8NumContNeeded_char, ok_bind]
  simp only [String.utf8EncodeChar]
  split
  · rename_i one
    have bits := mask char.val 7 0x7F rfl
    refine congrArg Except.ok (List.cons_eq_cons.mpr ⟨?_, rfl⟩)
    apply eq_ofNat
    change (char.val &&& 0x7F).toUInt8.toNat = _
    rw [UInt32.toNat_toUInt8, bits]
    omega
  split
  · have bits := mask (char.val >>> 6) 5 0x1F rfl
    simp only [utf8Conts, utf8Leading, contByte_eq]
    rw [@or_eq_ofNat 0xC0 _ 6 3 rfl (by omega) (by decide), bits, toNat_shiftRight]
    rfl
  split
  · have bits := mask (char.val >>> 6 >>> 6) 4 0x0F rfl
    simp only [utf8Conts, utf8Leading, contByte_eq]
    rw [@or_eq_ofNat 0xE0 _ 5 7 rfl (by omega) (by decide), bits]
    simp only [toNat_shiftRight, Nat.div_div_eq_div_mul]
    rfl
  · have bits := mask (char.val >>> 6 >>> 6 >>> 6) 3 0x07 rfl
    simp only [utf8Conts, utf8Leading, contByte_eq]
    rw [@or_eq_ofNat 0xF0 _ 4 15 rfl (by omega) (by decide), bits]
    simp only [toNat_shiftRight, Nat.div_div_eq_div_mul]
    rfl

/-! ## Whole strings -/

theorem utfConvertLoop_eq_ok {left : Nat} {input output : List UInt8} (enough : input.length ≤ left) :
    utfConvertLoop left input = .ok output ↔ ValidUtf8 input ∧ output = input := by
  induction left generalizing input output with
  | zero =>
    have isEmpty : input = [] := List.length_eq_zero_iff.mp (by omega)
    subst isEmpty
    rw [utfConvertLoop, Except.ok.injEq]
    exact ⟨fun same => ⟨⟨[], rfl⟩, same.symm⟩, fun same => same.2.symm⟩
  | succ left inductionHypothesis =>
    cases input with
    | nil =>
      rw [utfConvertLoop, Except.ok.injEq]
      exact ⟨fun same => ⟨⟨[], rfl⟩, same.symm⟩, fun same => same.2.symm⟩
    | cons byte tail =>
      simp only [utfConvertLoop, bind_eq_ok, Prod.exists, Except.ok.injEq]
      constructor
      · intro returned
        obtain ⟨codePt, rest, read, bytes, written, converted, loops, isOutput⟩ := returned
        obtain ⟨char, rfl, isInput⟩ := encoding_of_utf8ToCodePtOnce read
        rw [codePtToUtf8Once_char] at written
        cases written
        have shorter := congrArg List.length isInput
        have nonempty := List.length_pos_iff.mpr (@String.utf8EncodeChar_ne_nil char)
        simp only [List.length_cons, List.length_append] at shorter enough
        obtain ⟨⟨chars, isRest⟩, rfl⟩ := (inductionHypothesis (by omega)).mp loops
        refine ⟨⟨char :: chars, ?_⟩, isOutput.symm.trans isInput.symm⟩
        rw [isInput, isRest, List.flatMap_cons]
      · intro valid
        obtain ⟨⟨chars, isInput⟩, rfl⟩ := valid
        cases chars with
        | nil => cases isInput
        | cons char chars =>
          rw [List.flatMap_cons] at isInput
          have shorter := congrArg List.length isInput
          have nonempty := List.length_pos_iff.mpr (@String.utf8EncodeChar_ne_nil char)
          simp only [List.length_cons, List.length_append] at shorter enough
          refine ⟨char.val, chars.flatMap String.utf8EncodeChar, ?_, String.utf8EncodeChar char,
            codePtToUtf8Once_char char, _, (inductionHypothesis (by omega)).mpr ⟨⟨chars, rfl⟩, rfl⟩,
            isInput.symm⟩
          rw [isInput]
          exact utf8ToCodePtOnce_encodeChar char _

theorem utfConvert_eq_ok {input output : List UInt8} :
    utfConvert input = .ok output ↔ ValidUtf8 input ∧ output = input :=
  utfConvertLoop_eq_ok (Nat.le_refl _)

end Decentagram.SimpleUtf
