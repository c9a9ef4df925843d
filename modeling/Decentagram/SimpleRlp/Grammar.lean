import Decentagram.SimpleRlp.Parser

/-! # What the parsers accept

Each function of the parser as an equivalence: it returns exactly where the input starts with an encoding,
redundant or not, and then has read that encoding.
-/

namespace Decentagram.SimpleRlp

open Decentagram.Lib Decentagram.Lib.Rlp

/-- Between two states of the input the bytes were read. -/
def Reads (bytes : List UInt8) (before after : InputStateMachine) : Prop :=
  before.input = bytes ++ after.input ∧ after.byteCount = before.byteCount + bytes.length

theorem reads_nil {before after : InputStateMachine} : Reads [] before after ↔ after = before := by
  cases before
  cases after
  simp only [Reads, List.nil_append, List.length_nil, Nat.add_zero, InputStateMachine.mk.injEq]
  exact ⟨fun ⟨sameInput, sameCount⟩ => ⟨sameCount, sameInput.symm⟩,
    fun ⟨sameCount, sameInput⟩ => ⟨sameInput.symm, sameCount⟩⟩

theorem reads_append {first second : List UInt8} {before after : InputStateMachine} :
    Reads (first ++ second) before after ↔
      ∃ middle, Reads first before middle ∧ Reads second middle after := by
  constructor
  · intro reads
    refine ⟨⟨before.byteCount + first.length, second ++ after.input⟩, ⟨?_, rfl⟩, rfl, ?_⟩
    · rw [reads.1, List.append_assoc]
    · rw [reads.2, List.length_append, Nat.add_assoc]
  · intro reads
    obtain ⟨middle, reads, reads'⟩ := reads
    refine ⟨?_, ?_⟩
    · rw [reads.1, reads'.1, List.append_assoc]
    · rw [reads'.2, reads.2, List.length_append, Nat.add_assoc]

theorem getByteAndAdv_eq_ok {ism ism' : InputStateMachine} {byte : UInt8} :
    ism.getByteAndAdv = .ok (byte, ism') ↔ Reads [byte] ism ism' := by
  obtain ⟨byteCount, input⟩ := ism
  obtain ⟨byteCount', input'⟩ := ism'
  unfold InputStateMachine.getByteAndAdv Reads
  cases input with
  | nil => simp
  | cons first rest =>
    simp only [Except.ok.injEq, Prod.mk.injEq, InputStateMachine.mk.injEq, List.cons_append,
      List.nil_append, List.cons.injEq, List.length_singleton]
    grind

theorem reads_cons {byte : UInt8} {bytes : List UInt8} {before after : InputStateMachine} :
    Reads (byte :: bytes) before after ↔
      ∃ middle, before.getByteAndAdv = .ok (byte, middle) ∧ Reads bytes middle after := by
  simp only [getByteAndAdv_eq_ok]
  exact @reads_append [byte] bytes before after

theorem getBytes_eq_ok {size : Nat} {ism ism' : InputStateMachine} {bytes : List UInt8} :
    getBytes size ism = .ok (bytes, ism') ↔ bytes.length = size ∧ Reads bytes ism ism' := by
  induction size generalizing ism ism' bytes with
  | zero =>
    rw [List.length_eq_zero_iff]
    constructor
    · intro returned
      cases returned
      exact ⟨rfl, reads_nil.mpr rfl⟩
    · intro reads
      obtain ⟨rfl, reads⟩ := reads
      rw [reads_nil.mp reads]
      rfl
  | succ size inductionHypothesis =>
    simp only [getBytes, bind_eq_ok, Prod.exists, inductionHypothesis, Except.ok.injEq, Prod.mk.injEq]
    constructor
    · intro returned
      obtain ⟨byte, middle, readsByte, rest, after, ⟨isLength, readsRest⟩, rfl, rfl⟩ := returned
      exact ⟨by simp [isLength], reads_cons.mpr ⟨middle, readsByte, readsRest⟩⟩
    · intro reads
      obtain ⟨isLength, reads⟩ := reads
      cases bytes with
      | nil => cases isLength
      | cons byte rest =>
        obtain ⟨middle, readsByte, readsRest⟩ := reads_cons.mp reads
        exact ⟨byte, middle, readsByte, rest, ism', ⟨by simpa using isLength, readsRest⟩, rfl, rfl⟩

/-! ## Sizes and headers -/

/-- A byte goes into its place in a value whose lower bytes are still zero. -/
theorem toNat_or_shift {res : UInt64} {val : UInt8} {i : Nat} (small : i < 8)
    (low : res.toNat % 256 ^ (i + 1) = 0) :
    (res ||| val.toUInt64 <<< UInt64.ofNat (i * 8)).toNat = res.toNat + val.toNat * 256 ^ i := by
  have power : ∀ width, 256 ^ width = 2 ^ (8 * width) := fun width => (Nat.pow_mul 2 8 width).symm
  have valSmall : val.toNat < 2 ^ 8 := val.toNat_lt
  have shift : (UInt64.ofNat (i * 8)).toNat % 64 = 8 * i := by
    rw [UInt64.toNat_ofNat']
    omega
  have fits : val.toNat * 2 ^ (8 * i) < 2 ^ (8 * (i + 1)) := by
    rw [Nat.mul_succ, Nat.pow_add, Nat.mul_comm]
    exact Nat.mul_lt_mul_of_pos_left valSmall (Nat.two_pow_pos _)
  have fits64 : val.toNat * 2 ^ (8 * i) < 2 ^ 64 :=
    fits.trans_le (Nat.pow_le_pow_right (by decide) (by omega))
  obtain ⟨above, isAbove⟩ := Nat.dvd_of_mod_eq_zero low
  rw [power] at isAbove
  rw [UInt64.toNat_or, UInt64.toNat_shiftLeft, shift, UInt8.toNat_toUInt64, Nat.shiftLeft_eq,
    Nat.mod_eq_of_lt fits64, isAbove, ← Nat.two_pow_add_eq_or_of_lt fits, power]

theorem parseIntLoop_eq_ok {len : Nat} {res val : UInt64} {ism ism' : InputStateMachine}
    (small : len ≤ 8) (low : res.toNat % 256 ^ len = 0) :
    parseIntLoop res len ism = .ok (val, ism') ↔
      ∃ bytes, bytes.length = len ∧ Reads bytes ism ism' ∧
        val.toNat = res.toNat + BigEndian.value bytes := by
  induction len generalizing res ism with
  | zero =>
    constructor
    · intro returned
      cases returned
      exact ⟨[], rfl, reads_nil.mpr rfl, rfl⟩
    · intro reads
      obtain ⟨bytes, isLength, reads, isValue⟩ := reads
      rw [List.length_eq_zero_iff] at isLength
      subst isLength
      rw [reads_nil.mp reads, UInt64.toNat_inj.mp isValue]
      rfl
  | succ i inductionHypothesis =>
    have lowRest : ∀ byte : UInt8,
        (res ||| byte.toUInt64 <<< UInt64.ofNat (i * 8)).toNat % 256 ^ i = 0 := by
      intro byte
      rw [toNat_or_shift (by omega) low, Nat.add_mul_mod_self_right]
      exact Nat.mod_eq_zero_of_dvd
        ((Nat.pow_dvd_pow 256 (Nat.le_succ i)).trans (Nat.dvd_of_mod_eq_zero low))
    simp only [parseIntLoop, bind_eq_ok, Prod.exists, inductionHypothesis (by omega) (lowRest _),
      toNat_or_shift (show i < 8 by omega) low]
    constructor
    · intro returned
      obtain ⟨byte, middle, readsByte, bytes, isLength, readsRest, isValue⟩ := returned
      refine ⟨byte :: bytes, by simp [isLength], reads_cons.mpr ⟨middle, readsByte, readsRest⟩, ?_⟩
      rw [isValue, BigEndian.value_cons, isLength, Nat.add_assoc]
    · intro reads
      obtain ⟨bytes, isLength, reads, isValue⟩ := reads
      cases bytes with
      | nil => cases isLength
      | cons byte bytes =>
        obtain ⟨middle, readsByte, readsRest⟩ := reads_cons.mp reads
        simp only [List.length_cons, Nat.add_right_cancel_iff] at isLength
        refine ⟨byte, middle, readsByte, bytes, isLength, readsRest, ?_⟩
        rw [isValue, BigEndian.value_cons, isLength, Nat.add_assoc]

theorem parseSizeValue_eq_ok {len pos : Nat} {size : UInt64} {ism ism' : InputStateMachine} :
    parseSizeValue len pos ism = .ok (size, ism') ↔
      len ≤ 8 ∧ ∃ bytes, bytes.length = len ∧ Reads bytes ism ism' ∧
        BigEndian.value bytes = size.toNat := by
  have mapped : parseSizeValue len pos ism = .ok (size, ism') ↔
      parsePrimitiveIntValue len ism = .ok (size, ism') := by
    unfold parseSizeValue
    cases parsePrimitiveIntValue len ism <;> simp [Except.mapError]
  rw [mapped, parsePrimitiveIntValue]
  split
  · exact iff_of_false (by simp) (by omega)
  · rename_i fits
    have small : len ≤ 8 := by omega
    rw [parseIntLoop_eq_ok small (by simp)]
    simp [small, eq_comm]

theorem checkByteLeft_eq_ok {byteLeft byteNeeded byteLeft' : UInt64} {pos : Nat} :
    checkByteLeft byteLeft byteNeeded pos = .ok byteLeft' ↔
      byteLeft.toNat = byteNeeded.toNat + byteLeft'.toNat := by
  unfold checkByteLeft
  split
  · rename_i tooMuch
    have tooMuch' := UInt64.lt_iff_toNat_lt.mp tooMuch
    exact iff_of_false (by simp) (by omega)
  · rename_i fits
    have fits' := UInt64.not_lt.mp fits
    have rest := UInt64.toNat_sub_of_le _ _ fits'
    have atMost := UInt64.le_iff_toNat_le.mp fits'
    rw [Except.ok.injEq, ← UInt64.toNat_inj, rest]
    omega

/-- What a leading byte says with a value. -/
def Leading (first rlpVal : UInt8) : RlpEncodeType → Prop
  | .byte => first ≤ 0x7F ∧ rlpVal = first
  | .bytesShort => rlpVal ≤ 55 ∧ first = 0x80 + rlpVal
  | .bytesLong => 0 < rlpVal ∧ rlpVal ≤ 8 ∧ first = 0xB7 + rlpVal
  | .listShort => rlpVal ≤ 55 ∧ first = 0xC0 + rlpVal
  | .listLong => 0 < rlpVal ∧ rlpVal ≤ 8 ∧ first = 0xF7 + rlpVal

theorem decodeRlpLeadingByte_eq {first rlpVal : UInt8} {rlpType : RlpEncodeType} :
    decodeRlpLeadingByte first = (rlpType, rlpVal) ↔ Leading first rlpVal rlpType := by
  have firstSmall := first.toNat_lt
  have valSmall := rlpVal.toNat_lt
  unfold decodeRlpLeadingByte
  cases rlpType <;> grind [Leading]

theorem leading_decode (first : UInt8) :
    Leading first (decodeRlpLeadingByte first).2 (decodeRlpLeadingByte first).1 :=
  decodeRlpLeadingByte_eq.mp rfl

theorem procLongHeader_eq_ok {rlpVal : UInt8} {byteLeft byteLeft' size : UInt64}
    {ism ism' : InputStateMachine} :
    procLongHeader ism rlpVal byteLeft = .ok (size, ism', byteLeft') ↔
      rlpVal ≤ 8 ∧ ∃ sizeBytes, sizeBytes.length = rlpVal.toNat ∧ Reads sizeBytes ism ism' ∧
        BigEndian.value sizeBytes = size.toNat ∧
        byteLeft.toNat = sizeBytes.length + byteLeft'.toNat := by
  simp only [procLongHeader, bind_eq_ok, Prod.exists, checkByteLeft_eq_ok, parseSizeValue_eq_ok,
    Except.ok.injEq, Prod.mk.injEq, UInt8.toNat_toUInt64, UInt8.le_iff_toNat_le]
  constructor
  · intro returned
    obtain ⟨left, isLeft, size', middle, ⟨small, bytes, isLength, reads, isSize⟩, rfl, rfl, rfl⟩ :=
      returned
    exact ⟨small, bytes, isLength, reads, isSize, by rw [isLength]; exact isLeft⟩
  · intro reads
    obtain ⟨small, bytes, isLength, reads, isSize, isLeft⟩ := reads
    exact ⟨byteLeft', by rw [← isLength]; exact isLeft, size, ism', ⟨small, bytes, isLength, reads,
      isSize⟩, rfl, rfl, rfl⟩

theorem leading_unique {first rlpVal rlpVal' : UInt8} {rlpType rlpType' : RlpEncodeType}
    (leading : Leading first rlpVal rlpType) (leading' : Leading first rlpVal' rlpType') :
    rlpType = rlpType' ∧ rlpVal = rlpVal' := by
  rw [← decodeRlpLeadingByte_eq] at leading leading'
  rw [leading] at leading'
  simpa using leading'

/-- A header by what its first byte says, where that is of a short or a long form. -/
def Forms (short long : RlpEncodeType) (first : UInt8) (size : Nat) (sizeBytes : List UInt8) : Prop :=
  (size ≤ 55 ∧ sizeBytes = [] ∧ Leading first (UInt8.ofNat size) short) ∨
    (sizeBytes.length ≤ 8 ∧ BigEndian.value sizeBytes = size ∧
      Leading first (UInt8.ofNat sizeBytes.length) long)

theorem header_forms {shortBase longBase first : UInt8} {size : Nat} {sizeBytes : List UInt8} :
    Header false shortBase longBase size (first :: sizeBytes) ↔
      (size ≤ 55 ∧ sizeBytes = [] ∧ UInt8.ofNat size ≤ 55 ∧ first = shortBase + UInt8.ofNat size) ∨
      (sizeBytes.length ≤ 8 ∧ BigEndian.value sizeBytes = size ∧ 0 < UInt8.ofNat sizeBytes.length ∧
        UInt8.ofNat sizeBytes.length ≤ 8 ∧ first = longBase + UInt8.ofNat sizeBytes.length) := by
  have small : ∀ {n : Nat}, n ≤ 55 → (UInt8.ofNat n).toNat = n :=
    fun fits => UInt8.toNat_ofNat_of_lt' (by change _ < 256; omega)
  have shortFits : size ≤ 55 → UInt8.ofNat size ≤ 55 := by
    intro fits
    rw [UInt8.le_iff_toNat_le, small fits]
    exact fits
  have longFits : sizeBytes.length ≤ 8 → UInt8.ofNat sizeBytes.length ≤ 8 := by
    intro fits
    rw [UInt8.le_iff_toNat_le, small (by omega)]
    exact fits
  have longPositive : sizeBytes.length ≤ 8 →
      (0 < UInt8.ofNat sizeBytes.length ↔ 0 < sizeBytes.length) := by
    intro fits
    rw [UInt8.lt_iff_toNat_lt, small (by omega)]
    rfl
  rw [header_cons_iff]
  constructor
  · intro forms
    rcases forms with ⟨fits, isFirst, none⟩ | ⟨nonempty, fits, isFirst, isSize, -⟩
    · exact .inl ⟨fits, none, shortFits fits, isFirst⟩
    · exact .inr ⟨fits, isSize, (longPositive fits).mpr nonempty, longFits fits, isFirst⟩
  · intro forms
    rcases forms with ⟨fits, none, -, isFirst⟩ | ⟨fits, isSize, positive, -, isFirst⟩
    · exact .inl ⟨fits, isFirst, none⟩
    · exact .inr ⟨(longPositive fits).mp positive, fits, isFirst, isSize, by simp⟩

theorem bytesHeader_iff {first : UInt8} {size : Nat} {sizeBytes : List UInt8} :
    Header false 0x80 0xB7 size (first :: sizeBytes) ↔
      Forms .bytesShort .bytesLong first size sizeBytes := header_forms

theorem listHeader_iff {first : UInt8} {size : Nat} {sizeBytes : List UInt8} :
    Header false 0xC0 0xF7 size (first :: sizeBytes) ↔
      Forms .listShort .listLong first size sizeBytes := header_forms

/-- A header that is read by its leading byte: the short form needs nothing more. -/
theorem forms_of_short {short long : RlpEncodeType} {first rlpVal : UInt8} {size : UInt64}
    {sizeBytes : List UInt8} (different : short ≠ long) (leading : Leading first rlpVal short) :
    Forms short long first size.toNat sizeBytes ↔
      rlpVal ≤ 55 ∧ size = rlpVal.toUInt64 ∧ sizeBytes = [] := by
  constructor
  · intro forms
    cases forms with
    | inl isShort =>
      obtain ⟨fits, none, leading'⟩ := isShort
      have sameVal := (leading_unique leading' leading).2
      have isSize : (UInt8.ofNat size.toNat).toNat = size.toNat :=
        UInt8.toNat_ofNat_of_lt' (by change _ < 256; omega)
      rw [sameVal] at isSize
      refine ⟨?_, UInt64.toNat_inj.mp ?_, none⟩
      · rw [UInt8.le_iff_toNat_le, isSize]
        exact fits
      · rw [UInt8.toNat_toUInt64]
        exact isSize.symm
    | inr isLong => exact absurd (leading_unique leading isLong.2.2).1 different
  · intro read
    obtain ⟨fits, isSize, none⟩ := read
    have sameVal : size.toNat = rlpVal.toNat := by rw [isSize, UInt8.toNat_toUInt64]
    refine .inl ⟨?_, none, ?_⟩
    · rw [sameVal]
      exact UInt8.le_iff_toNat_le.mp fits
    · rw [sameVal, UInt8.ofNat_toNat]
      exact leading

theorem forms_of_long {short long : RlpEncodeType} {first rlpVal : UInt8} {size : Nat}
    {sizeBytes : List UInt8} (different : short ≠ long) (leading : Leading first rlpVal long) :
    Forms short long first size sizeBytes ↔
      rlpVal ≤ 8 ∧ sizeBytes.length = rlpVal.toNat ∧ BigEndian.value sizeBytes = size := by
  constructor
  · intro forms
    cases forms with
    | inl isShort => exact absurd (leading_unique isShort.2.2 leading).1 different
    | inr isLong =>
      obtain ⟨fits, isSize, leading'⟩ := isLong
      have sameVal := (leading_unique leading' leading).2
      have width : (UInt8.ofNat sizeBytes.length).toNat = sizeBytes.length :=
        UInt8.toNat_ofNat_of_lt' (by change _ < 256; omega)
      rw [sameVal] at width
      refine ⟨?_, width.symm, isSize⟩
      rw [UInt8.le_iff_toNat_le, width]
      exact fits
  · intro read
    obtain ⟨fits, width, isSize⟩ := read
    refine .inr ⟨?_, isSize, ?_⟩
    · rw [width]
      exact UInt8.le_iff_toNat_le.mp fits
    · rw [width, UInt8.ofNat_toNat]
      exact leading

theorem not_forms {short long rlpType : RlpEncodeType} {first rlpVal : UInt8} {size : Nat}
    {sizeBytes : List UInt8} (leading : Leading first rlpVal rlpType) (notShort : rlpType ≠ short)
    (notLong : rlpType ≠ long) : ¬ Forms short long first size sizeBytes := by
  intro forms
  cases forms with
  | inl isShort => exact notShort (leading_unique leading isShort.2.2).1
  | inr isLong => exact notLong (leading_unique leading isLong.2.2).1

section Headers

variable {first rlpVal : UInt8} {rlpType short long : RlpEncodeType} {ism ism' : InputStateMachine}
  {byteLeft byteLeft' size : UInt64}

/-- The header that starts with the leading byte was read. -/
def HeaderRead (short long : RlpEncodeType) (first : UInt8) (ism : InputStateMachine)
    (byteLeft size : UInt64) (ism' : InputStateMachine) (byteLeft' : UInt64) : Prop :=
  ∃ sizeBytes, Forms short long first size.toNat sizeBytes ∧ Reads sizeBytes ism ism' ∧
    byteLeft.toNat = sizeBytes.length + byteLeft'.toNat

theorem headerRead_of_short (different : short ≠ long) (leading : Leading first rlpVal short)
    (fits : rlpVal ≤ 55) :
    (.ok (rlpVal.toUInt64, ism, byteLeft) : Except ParseError (UInt64 × InputStateMachine × UInt64)) =
        .ok (size, ism', byteLeft') ↔
      HeaderRead short long first ism byteLeft size ism' byteLeft' := by
  simp only [HeaderRead, forms_of_short different leading, Except.ok.injEq, Prod.mk.injEq]
  constructor
  · intro returned
    obtain ⟨rfl, rfl, rfl⟩ := returned
    exact ⟨[], ⟨fits, rfl, rfl⟩, reads_nil.mpr rfl, by simp⟩
  · intro read
    obtain ⟨sizeBytes, ⟨-, rfl, rfl⟩, reads, isLeft⟩ := read
    refine ⟨rfl, (reads_nil.mp reads).symm, ?_⟩
    rw [← UInt64.toNat_inj]
    simpa using isLeft

theorem headerRead_of_long (different : short ≠ long) (leading : Leading first rlpVal long) :
    procLongHeader ism rlpVal byteLeft = .ok (size, ism', byteLeft') ↔
      HeaderRead short long first ism byteLeft size ism' byteLeft' := by
  simp only [HeaderRead, procLongHeader_eq_ok, forms_of_long different leading]
  constructor
  · intro returned
    obtain ⟨fits, sizeBytes, width, reads, isSize, isLeft⟩ := returned
    exact ⟨sizeBytes, ⟨fits, width, isSize⟩, reads, isLeft⟩
  · intro read
    obtain ⟨sizeBytes, ⟨fits, width, isSize⟩, reads, isLeft⟩ := read
    exact ⟨fits, sizeBytes, width, reads, isSize, isLeft⟩

theorem procRlpListHeader_eq_ok (leading : Leading first rlpVal rlpType) :
    procRlpListHeader ism rlpType rlpVal byteLeft = .ok (size, ism', byteLeft') ↔
      HeaderRead .listShort .listLong first ism byteLeft size ism' byteLeft' := by
  have noForms : rlpType ≠ .listShort → rlpType ≠ .listLong →
      ¬ HeaderRead .listShort .listLong first ism byteLeft size ism' byteLeft' :=
    fun notShort notLong read => not_forms leading notShort notLong read.choose_spec.1
  cases rlpType with
  | listShort => exact headerRead_of_short (by decide) leading leading.1
  | listLong => exact headerRead_of_long (by decide) leading
  | byte => exact iff_of_false (by simp [procRlpListHeader]) (noForms (by decide) (by decide))
  | bytesShort => exact iff_of_false (by simp [procRlpListHeader]) (noForms (by decide) (by decide))
  | bytesLong => exact iff_of_false (by simp [procRlpListHeader]) (noForms (by decide) (by decide))

theorem procRlpBytesHeader_eq_ok (leading : Leading first rlpVal rlpType) :
    procRlpBytesHeader ism rlpType rlpVal byteLeft = .ok (size, ism', byteLeft') ↔
      HeaderRead .bytesShort .bytesLong first ism byteLeft size ism' byteLeft' := by
  have noForms : rlpType ≠ .bytesShort → rlpType ≠ .bytesLong →
      ¬ HeaderRead .bytesShort .bytesLong first ism byteLeft size ism' byteLeft' :=
    fun notShort notLong read => not_forms leading notShort notLong read.choose_spec.1
  cases rlpType with
  | bytesShort => exact headerRead_of_short (by decide) leading leading.1
  | bytesLong => exact headerRead_of_long (by decide) leading
  | byte => exact iff_of_false (by simp [procRlpBytesHeader]) (noForms (by decide) (by decide))
  | listShort => exact iff_of_false (by simp [procRlpBytesHeader]) (noForms (by decide) (by decide))
  | listLong => exact iff_of_false (by simp [procRlpBytesHeader]) (noForms (by decide) (by decide))

end Headers

/-! ## Objects -/

section Objects

variable {first rlpVal : UInt8} {rlpType : RlpEncodeType} {rest : List UInt8} {obj : Object}

theorem encodes_of_byte (leading : Leading first rlpVal .byte) :
    Encodes false (first :: rest) obj ↔ rest = [] ∧ obj = .bytes [first] := by
  rw [encodes_cons_iff]
  constructor
  · intro forms
    rcases forms with ⟨-, isEmpty, isObj⟩ | ⟨sizeBytes, payload, isHeader, -, -, -⟩ |
      ⟨sizeBytes, body, items, isHeader, -, -, -⟩
    · exact ⟨isEmpty, isObj⟩
    · exact absurd (bytesHeader_iff.mp isHeader) (not_forms leading (by decide) (by decide))
    · exact absurd (listHeader_iff.mp isHeader) (not_forms leading (by decide) (by decide))
  · intro read
    exact .inl ⟨leading.1, read.1, read.2⟩

theorem encodes_of_bytes (leading : Leading first rlpVal rlpType)
    (isBytes : rlpType = .bytesShort ∨ rlpType = .bytesLong) :
    Encodes false (first :: rest) obj ↔ ∃ sizeBytes payload,
      Forms .bytesShort .bytesLong first payload.length sizeBytes ∧ rest = sizeBytes ++ payload ∧
        obj = .bytes payload := by
  rw [encodes_cons_iff]
  constructor
  · intro forms
    rcases forms with ⟨small, -, -⟩ | ⟨sizeBytes, payload, isHeader, -, isRest, isObj⟩ |
      ⟨sizeBytes, body, items, isHeader, -, -, -⟩
    · have isByte := (leading_unique leading (show Leading first first .byte from ⟨small, rfl⟩)).1
      simp [isByte] at isBytes
    · exact ⟨sizeBytes, payload, bytesHeader_iff.mp isHeader, isRest, isObj⟩
    · refine absurd (listHeader_iff.mp isHeader) (not_forms leading ?_ ?_) <;>
        cases isBytes <;> simp [*]
  · intro read
    obtain ⟨sizeBytes, payload, forms, isRest, isObj⟩ := read
    exact .inr (.inl ⟨sizeBytes, payload, bytesHeader_iff.mpr forms, by simp, isRest, isObj⟩)

theorem encodes_of_list (leading : Leading first rlpVal rlpType)
    (isList : rlpType = .listShort ∨ rlpType = .listLong) :
    Encodes false (first :: rest) obj ↔ ∃ sizeBytes body items,
      Forms .listShort .listLong first body.length sizeBytes ∧ EncodesAll false body items ∧
        rest = sizeBytes ++ body ∧ obj = .list items := by
  rw [encodes_cons_iff]
  constructor
  · intro forms
    rcases forms with ⟨small, -, -⟩ | ⟨sizeBytes, payload, isHeader, -, -, -⟩ |
      ⟨sizeBytes, body, items, isHeader, inner, isRest, isObj⟩
    · have isByte := (leading_unique leading (show Leading first first .byte from ⟨small, rfl⟩)).1
      simp [isByte] at isList
    · refine absurd (bytesHeader_iff.mp isHeader) (not_forms leading ?_ ?_) <;>
        cases isList <;> simp [*]
    · exact ⟨sizeBytes, body, items, listHeader_iff.mp isHeader, inner, isRest, isObj⟩
  · intro read
    obtain ⟨sizeBytes, body, items, forms, inner, isRest, isObj⟩ := read
    exact .inr (.inr ⟨sizeBytes, body, items, listHeader_iff.mpr forms, inner, isRest, isObj⟩)

variable {ism ism' : InputStateMachine} {byteLeft byteLeft' : UInt64}

/-- An object that starts with the byte was read, redundant headers allowed. -/
def ObjectRead (first : UInt8) (ism : InputStateMachine) (byteLeft : UInt64) (obj : Object)
    (ism' : InputStateMachine) (byteLeft' : UInt64) : Prop :=
  ∃ rest, Encodes false (first :: rest) obj ∧ Reads rest ism ism' ∧
    byteLeft.toNat = rest.length + byteLeft'.toNat

/-- The items of a list were read. -/
def ItemsRead (ism : InputStateMachine) (size : UInt64) (items : List Object)
    (ism' : InputStateMachine) : Prop :=
  ∃ body, EncodesAll false body items ∧ Reads body ism ism' ∧ body.length = size.toNat

/-- A header and the payload it announces, as the functions read them and as bytes. -/
theorem payload_iff {short long : RlpEncodeType} (holds : List UInt8 → Prop) :
    (∃ size afterHeader leftAfter, HeaderRead short long first ism byteLeft size afterHeader leftAfter ∧
      leftAfter.toNat = size.toNat + byteLeft'.toNat ∧
      ∃ payload, payload.length = size.toNat ∧ holds payload ∧ Reads payload afterHeader ism') ↔
    ∃ sizeBytes payload, Forms short long first payload.length sizeBytes ∧ holds payload ∧
      Reads (sizeBytes ++ payload) ism ism' ∧
      byteLeft.toNat = (sizeBytes ++ payload).length + byteLeft'.toNat := by
  constructor
  · intro read
    obtain ⟨size, afterHeader, leftAfter, ⟨sizeBytes, forms, readsSize, isLeft⟩, isLeft', payload,
      isLength, isPayload, readsPayload⟩ := read
    refine ⟨sizeBytes, payload, isLength ▸ forms, isPayload,
      reads_append.mpr ⟨afterHeader, readsSize, readsPayload⟩, ?_⟩
    rw [List.length_append]
    omega
  · intro read
    obtain ⟨sizeBytes, payload, forms, isPayload, reads, isLeft⟩ := read
    obtain ⟨afterHeader, readsSize, readsPayload⟩ := reads_append.mp reads
    rw [List.length_append] at isLeft
    -- both sizes fit, as they are part of what is left
    have isWord := byteLeft.toNat_lt
    have isSize : (UInt64.ofNat payload.length).toNat = payload.length :=
      UInt64.toNat_ofNat_of_lt' (by change _ < 2 ^ 64; omega)
    have isAfter : (UInt64.ofNat (payload.length + byteLeft'.toNat)).toNat =
        payload.length + byteLeft'.toNat :=
      UInt64.toNat_ofNat_of_lt' (by change _ < 2 ^ 64; omega)
    refine ⟨UInt64.ofNat payload.length, afterHeader, UInt64.ofNat (payload.length + byteLeft'.toNat),
      ⟨sizeBytes, isSize.symm ▸ forms, readsSize, ?_⟩, ?_, payload, isSize.symm, isPayload,
      readsPayload⟩
    · omega
    · omega

theorem parseBytes_eq_ok (leading : Leading first rlpVal rlpType)
    (isBytes : rlpType = .byte ∨ rlpType = .bytesShort ∨ rlpType = .bytesLong) :
    parseBytes ism rlpType rlpVal byteLeft = .ok (obj, ism', byteLeft') ↔
      ObjectRead first ism byteLeft obj ism' byteLeft' := by
  by_cases isByte : rlpType = .byte
  · subst isByte
    simp only [parseBytes, ObjectRead, encodes_of_byte leading, Except.ok.injEq, Prod.mk.injEq]
    constructor
    · intro returned
      obtain ⟨rfl, rfl, rfl⟩ := returned
      exact ⟨[], ⟨rfl, by rw [leading.2]⟩, reads_nil.mpr rfl, by simp⟩
    · intro read
      obtain ⟨rest, ⟨rfl, rfl⟩, reads, isLeft⟩ := read
      refine ⟨by rw [leading.2], (reads_nil.mp reads).symm, ?_⟩
      rw [← UInt64.toNat_inj]
      simpa using isLeft
  · have isLonger := isBytes.resolve_left isByte
    -- the short and the long header are read by one function
    have parses : parseBytes ism rlpType rlpVal byteLeft = .ok (obj, ism', byteLeft') ↔
        ∃ size afterHeader leftAfterHeader,
          procRlpBytesHeader ism rlpType rlpVal byteLeft = .ok (size, afterHeader, leftAfterHeader) ∧
            ∃ left, checkByteLeft leftAfterHeader size afterHeader.byteCount = .ok left ∧
              ∃ payload after, getBytes size.toNat afterHeader = .ok (payload, after) ∧
                .bytes payload = obj ∧ after = ism' ∧ left = byteLeft' := by
      cases isLonger with
      | inl isShort =>
        subst isShort
        simp only [parseBytes, bind_eq_ok, Prod.exists, Except.ok.injEq, Prod.mk.injEq]
      | inr isLong =>
        subst isLong
        simp only [parseBytes, bind_eq_ok, Prod.exists, Except.ok.injEq, Prod.mk.injEq]
    rw [parses]
    simp only [procRlpBytesHeader_eq_ok leading, checkByteLeft_eq_ok, getBytes_eq_ok, ObjectRead,
      encodes_of_bytes leading isLonger]
    constructor
    · intro returned
      obtain ⟨size, afterHeader, leftAfterHeader, headerRead, left, isLeft, payload, after,
        ⟨isLength, reads⟩, isObj, rfl, rfl⟩ := returned
      obtain ⟨sizeBytes, payload', forms, isObj', reads', isLeft'⟩ :=
        (payload_iff fun payload => obj = .bytes payload).mp ⟨size, afterHeader, leftAfterHeader,
          headerRead, isLeft, payload, isLength, isObj.symm, reads⟩
      exact ⟨sizeBytes ++ payload', ⟨sizeBytes, payload', forms, rfl, isObj'⟩, reads', isLeft'⟩
    · intro read
      obtain ⟨rest, ⟨sizeBytes, payload, forms, rfl, isObj⟩, reads, isLeft⟩ := read
      obtain ⟨size, afterHeader, leftAfter, headerRead, isLeft', payload', isLength, isObj', reads'⟩ :=
        (payload_iff fun payload => obj = .bytes payload).mpr
          ⟨sizeBytes, payload, forms, isObj, reads, isLeft⟩
      exact ⟨size, afterHeader, leftAfter, headerRead, byteLeft', isLeft', payload', ism',
        ⟨isLength, reads'⟩, isObj'.symm, rfl, rfl⟩

theorem length_of_reads {bytes : List UInt8} {before after : InputStateMachine}
    (reads : Reads bytes before after) : before.input.length = bytes.length + after.input.length := by
  rw [reads.1, List.length_append]

/-- A loop over items that reads them right on inputs up to a length. -/
def LoopReads (items : InputStateMachine → UInt64 → Except ParseError (List Object × InputStateMachine))
    (bound : Nat) : Prop :=
  ∀ ism size objs ism', ism.input.length ≤ bound →
    (items ism size = .ok (objs, ism') ↔ ItemsRead ism size objs ism')

variable {items : InputStateMachine → UInt64 → Except ParseError (List Object × InputStateMachine)}
  {bound : Nat}

theorem parseListBy_eq_ok (loopReads : LoopReads items bound) (bounded : ism.input.length ≤ bound)
    (leading : Leading first rlpVal rlpType) (isList : rlpType = .listShort ∨ rlpType = .listLong) :
    parseListBy items ism rlpType rlpVal byteLeft = .ok (obj, ism', byteLeft') ↔
      ObjectRead first ism byteLeft obj ism' byteLeft' := by
  let holds := fun body => ∃ objs, EncodesAll false body objs ∧ obj = .list objs
  simp only [parseListBy, bind_eq_ok, Prod.exists, procRlpListHeader_eq_ok leading, checkByteLeft_eq_ok,
    Except.ok.injEq, Prod.mk.injEq, ObjectRead, encodes_of_list leading isList]
  have boundedAfter : ∀ {size afterHeader leftAfter}, HeaderRead .listShort .listLong first ism byteLeft
      size afterHeader leftAfter → afterHeader.input.length ≤ bound := by
    intro size afterHeader leftAfter headerRead
    obtain ⟨sizeBytes, -, reads, -⟩ := headerRead
    have longer := length_of_reads reads
    omega
  constructor
  · intro returned
    obtain ⟨size, afterHeader, leftAfterHeader, headerRead, left, isLeft, objs, after, loops, isObj,
      rfl, rfl⟩ := returned
    obtain ⟨body, inner, reads, isLength⟩ :=
      (loopReads _ _ _ _ (boundedAfter headerRead)).mp loops
    obtain ⟨sizeBytes, body', forms, ⟨objs', inner', isObj'⟩, reads', isLeft'⟩ :=
      (payload_iff holds).mp ⟨size, afterHeader, leftAfterHeader, headerRead, isLeft, body, isLength,
        ⟨objs, inner, isObj.symm⟩, reads⟩
    exact ⟨sizeBytes ++ body', ⟨sizeBytes, body', objs', forms, inner', rfl, isObj'⟩, reads', isLeft'⟩
  · intro read
    obtain ⟨rest, ⟨sizeBytes, body, objs, forms, inner, rfl, isObj⟩, reads, isLeft⟩ := read
    obtain ⟨size, afterHeader, leftAfter, headerRead, isLeft', body', isLength, ⟨objs', inner', isObj'⟩,
      reads'⟩ := (payload_iff holds).mpr ⟨sizeBytes, body, forms, ⟨objs, inner, isObj⟩, reads, isLeft⟩
    have loops := (loopReads _ _ _ _ (boundedAfter headerRead)).mpr ⟨body', inner', reads', isLength⟩
    exact ⟨size, afterHeader, leftAfter, headerRead, byteLeft', isLeft', objs', ism', loops,
      isObj'.symm, rfl, rfl⟩

theorem parseBy_eq_ok (loopReads : LoopReads items bound) (bounded : ism.input.length ≤ bound)
    (leading : Leading first rlpVal rlpType) :
    parseBy items ism rlpType rlpVal byteLeft = .ok (obj, ism', byteLeft') ↔
      ObjectRead first ism byteLeft obj ism' byteLeft' := by
  cases rlpType with
  | byte => exact parseBytes_eq_ok leading (by simp)
  | bytesShort => exact parseBytes_eq_ok leading (by simp)
  | bytesLong => exact parseBytes_eq_ok leading (by simp)
  | listShort => exact parseListBy_eq_ok loopReads bounded leading (by simp)
  | listLong => exact parseListBy_eq_ok loopReads bounded leading (by simp)

theorem encodesAll_nil_iff {shortest : Bool} {objs : List Object} :
    EncodesAll shortest [] objs ↔ objs = [] := by
  constructor
  · intro encodes
    generalize isEmpty : ([] : List UInt8) = body at encodes
    cases encodes with
    | nil => rfl
    | cons head tail => simp [head.ne_nil] at isEmpty
  · intro isEmpty
    subst isEmpty
    exact .nil

theorem itemsRead_zero {objs : List Object} :
    ItemsRead ism 0 objs ism' ↔ objs = [] ∧ ism' = ism := by
  constructor
  · intro read
    obtain ⟨body, inner, reads, isLength⟩ := read
    have isEmpty : body = [] := List.length_eq_zero_iff.mp isLength
    subst isEmpty
    exact ⟨encodesAll_nil_iff.mp inner, reads_nil.mp reads⟩
  · intro read
    obtain ⟨rfl, rfl⟩ := read
    exact ⟨[], .nil, reads_nil.mpr rfl, rfl⟩

theorem itemsRead_pos {objs : List Object} {size : UInt64} (positive : size > 0) :
    ItemsRead ism size objs ism' ↔
      ∃ nextByte afterByte, ism.getByteAndAdv = .ok (nextByte, afterByte) ∧
        ∃ item afterItem size', ObjectRead nextByte afterByte (size - 1) item afterItem size' ∧
          ∃ items, ItemsRead afterItem size' items ism' ∧ objs = item :: items := by
  have positive' : 0 < size.toNat := UInt64.lt_iff_toNat_lt.mp positive
  have oneLess : (size - 1).toNat = size.toNat - 1 :=
    UInt64.toNat_sub_of_le _ _ (UInt64.le_iff_toNat_le.mpr positive')
  constructor
  · intro read
    obtain ⟨body, inner, reads, isLength⟩ := read
    cases inner with
    | nil =>
      rw [List.length_nil] at isLength
      omega
    | @cons encoding rest item items head tail =>
      obtain ⟨nextByte, itemRest, rfl⟩ := List.exists_cons_of_ne_nil head.ne_nil
      rw [List.cons_append] at reads
      obtain ⟨afterByte, gets, reads⟩ := reads_cons.mp reads
      obtain ⟨afterItem, readsItem, readsRest⟩ := reads_append.mp reads
      simp only [List.length_append, List.length_cons] at isLength
      have isWord := size.toNat_lt
      have isRest : (UInt64.ofNat rest.length).toNat = rest.length :=
        UInt64.toNat_ofNat_of_lt' (by change _ < 2 ^ 64; omega)
      refine ⟨nextByte, afterByte, gets, item, afterItem, UInt64.ofNat rest.length,
        ⟨itemRest, head, readsItem, ?_⟩, items, ⟨rest, tail, readsRest, isRest.symm⟩, rfl⟩
      omega
  · intro read
    obtain ⟨nextByte, afterByte, gets, item, afterItem, size', ⟨itemRest, head, readsItem, isLeft⟩,
      items, ⟨rest, tail, readsRest, isLength⟩, rfl⟩ := read
    refine ⟨(nextByte :: itemRest) ++ rest, .cons head tail, ?_, ?_⟩
    · exact reads_cons.mpr ⟨afterByte, gets, reads_append.mpr ⟨afterItem, readsItem, readsRest⟩⟩
    · simp only [List.length_append, List.length_cons]
      omega

theorem parseItems_reads (left : Nat) : LoopReads (parseItems left) left := by
  induction left with
  | zero =>
    intro ism size objs ism' bounded
    by_cases positive : size > 0
    · -- the input has ended, so neither reads another item
      rw [itemsRead_pos positive, parseItems, if_pos positive]
      refine iff_of_false (by simp) ?_
      intro read
      obtain ⟨nextByte, afterByte, gets, -⟩ := read
      have longer := length_of_reads (getByteAndAdv_eq_ok.mp gets)
      simp only [List.length_singleton] at longer
      omega
    · have isZero : size = 0 := by simpa using positive
      subst isZero
      rw [itemsRead_zero, parseItems, if_neg positive]
      simp [eq_comm]
  | succ left inductionHypothesis =>
    intro ism size objs ism' bounded
    by_cases positive : size > 0
    · rw [itemsRead_pos positive, parseItems, if_pos positive]
      simp only [bind_eq_ok, Prod.exists]
      refine exists_congr fun nextByte => exists_congr fun afterByte => and_congr_right fun gets => ?_
      have longer := length_of_reads (getByteAndAdv_eq_ok.mp gets)
      simp only [List.length_singleton] at longer
      refine exists_congr fun item => exists_congr fun afterItem => exists_congr fun size' => ?_
      rw [parseBy_eq_ok inductionHypothesis (by omega) (leading_decode nextByte)]
      refine and_congr_right fun objectRead => ?_
      obtain ⟨itemRest, -, readsItem, -⟩ := objectRead
      have longer' := length_of_reads readsItem
      constructor
      · intro returned
        obtain ⟨rest, after, loops, equal⟩ := returned
        cases equal
        exact ⟨rest, (inductionHypothesis _ _ _ _ (by omega)).mp loops, rfl⟩
      · intro read
        obtain ⟨rest, itemsRead, rfl⟩ := read
        exact ⟨rest, ism', (inductionHypothesis _ _ _ _ (by omega)).mpr itemsRead, rfl⟩
    · have isZero : size = 0 := by simpa using positive
      subst isZero
      rw [itemsRead_zero, parseItems, if_neg positive]
      simp [eq_comm]

/-- The general parser returns where the input starts with an encoding that fits into what is left. -/
theorem parseObject_eq_ok : parseObject ism byteLeft = .ok (obj, ism', byteLeft') ↔
    ∃ encoding, Encodes false encoding obj ∧ Reads encoding ism ism' ∧
      byteLeft.toNat = encoding.length + byteLeft'.toNat := by
  simp only [parseObject, bind_eq_ok, Prod.exists, checkByteLeft_eq_ok]
  constructor
  · intro returned
    obtain ⟨left, isLeft, nextByte, afterByte, gets, returned⟩ := returned
    rw [parseBy_eq_ok (parseItems_reads _) (Nat.le_refl _) (leading_decode nextByte)] at returned
    obtain ⟨rest, encodes, reads, isLeft'⟩ := returned
    refine ⟨nextByte :: rest, encodes, reads_cons.mpr ⟨afterByte, gets, reads⟩, ?_⟩
    have one : (1 : UInt64).toNat = 1 := rfl
    rw [List.length_cons]
    omega
  · intro read
    obtain ⟨encoding, encodes, reads, isLeft⟩ := read
    obtain ⟨nextByte, rest, rfl⟩ := List.exists_cons_of_ne_nil encodes.ne_nil
    obtain ⟨afterByte, gets, reads'⟩ := reads_cons.mp reads
    rw [List.length_cons] at isLeft
    have isWord := byteLeft.toNat_lt
    have isRest : (UInt64.ofNat (rest.length + byteLeft'.toNat)).toNat = rest.length + byteLeft'.toNat :=
      UInt64.toNat_ofNat_of_lt' (by change _ < 2 ^ 64; omega)
    have one : (1 : UInt64).toNat = 1 := rfl
    refine ⟨UInt64.ofNat (rest.length + byteLeft'.toNat), by omega, nextByte, afterByte, gets, ?_⟩
    rw [parseBy_eq_ok (parseItems_reads _) (Nat.le_refl _) (leading_decode nextByte)]
    exact ⟨rest, encodes, reads', isRest⟩

end Objects

theorem start_eq_ok {input : List UInt8} {ism : InputStateMachine}
    (starts : InputStateMachine.start input = .ok ism) : ism = { byteCount := 0, input } := by
  unfold InputStateMachine.start at starts
  split at starts
  · cases starts
  · cases starts
    rfl

/-- `ParseRlp` returns where the whole input is an encoding of the object. -/
theorem parseRlp_eq_ok {input : List UInt8} {obj : Object} (small : input.length < 2 ^ 64) :
    parseRlp input = .ok obj ↔ Encodes false input obj := by
  have isSize : (UInt64.ofNat input.length).toNat = input.length := UInt64.toNat_ofNat_of_lt' small
  simp only [parseRlp, parseContainer, bind_eq_ok, Prod.exists, parseObject_eq_ok]
  constructor
  · intro returned
    obtain ⟨ism, starts, res, after, size, ⟨encoding, encodes, reads, isLeft⟩, ends⟩ := returned
    have isStart := start_eq_ok starts
    split at ends
    · cases ends
    · rename_i noExtra
      cases ends
      have allRead : size = 0 := by simpa using noExtra
      subst allRead
      have noRest : after.input = [] := by
        have longer : input.length = encoding.length + after.input.length := by
          have longer := length_of_reads reads
          rw [isStart] at longer
          exact longer
        rw [isSize] at isLeft
        have zero : (0 : UInt64).toNat = 0 := rfl
        exact List.length_eq_zero_iff.mp (by omega)
      have isEncoding : input = encoding := by
        have split := reads.1
        rw [isStart, noRest, List.append_nil] at split
        exact split
      exact isEncoding ▸ encodes
  · intro encodes
    refine ⟨{ byteCount := 0, input }, ?_, obj, { byteCount := input.length, input := [] }, 0,
      ⟨input, encodes, ⟨by simp, by simp⟩, by simpa using isSize⟩, by simp⟩
    rw [InputStateMachine.start, if_neg encodes.ne_nil]

end Decentagram.SimpleRlp
