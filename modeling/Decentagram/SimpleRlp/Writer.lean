import Decentagram.Lib.Rlp

/-! # Writing RLP

`EncodePrimitiveIntValue`, the leading bytes and the writers of byte strings and lists, with the sizes
they compute beforehand.
-/

namespace Decentagram.SimpleRlp

open Decentagram.Lib Decentagram.Lib.Rlp

/-! ## Sizes -/

/-- The zero bytes in front of the lowest bytes of a value. -/
def zeroBytes (inVal : UInt64) : Nat → Nat
  | 0 => 0
  | i + 1 => if inVal >>> UInt64.ofNat (i * 8) &&& 0xFF = 0 then zeroBytes inVal i + 1 else 0

def encodedWidth (inVal : UInt64) : Nat := 8 - zeroBytes inVal 8

def encodeFrom (inVal : UInt64) : Nat → List UInt8
  | 0 => []
  | i + 1 => (inVal >>> UInt64.ofNat (i * 8) &&& 0xFF).toUInt8 :: encodeFrom inVal i

def encodePrimitiveIntValue (inVal : UInt64) : List UInt8 := encodeFrom inVal (encodedWidth inVal)

/-! ## Leading bytes -/

def genLeadingBytesWith (shortBase longBase : UInt64) (byteSize : UInt64) : List UInt8 :=
  if byteSize ≤ 55 then [(shortBase + byteSize).toUInt8]
  else
    let sizeBytes := encodePrimitiveIntValue byteSize
    (longBase + UInt64.ofNat sizeBytes.length).toUInt8 :: sizeBytes

def calcLeadingBytesSize (byteSize : UInt64) : UInt64 :=
  if byteSize ≤ 55 then 1 else 1 + UInt64.ofNat (encodedWidth byteSize)

namespace EncodeRlpBytes

def genLeadingBytes : UInt64 → List UInt8 := genLeadingBytesWith 0x80 0xB7

def serializeBytes (inBytes : List UInt8) : List UInt8 :=
  if isByte inBytes then inBytes
  else genLeadingBytes (UInt64.ofNat inBytes.length) ++ inBytes

def calcSerializedSize (inBytesSize : UInt64) (firstByte : Option UInt8) : UInt64 :=
  if inBytesSize = 1 ∧ firstByte.any (· ≤ 0x7F) then 1
  else calcLeadingBytesSize inBytesSize + inBytesSize

end EncodeRlpBytes

namespace EncodeRlpList

def genLeadingBytes : UInt64 → List UInt8 := genLeadingBytesWith 0xC0 0xF7

def serializeBytes (inBytes : List UInt8) : List UInt8 :=
  genLeadingBytes (UInt64.ofNat inBytes.length) ++ inBytes

def calcSerializedSize (inBytesSize : UInt64) : UInt64 :=
  calcLeadingBytesSize inBytesSize + inBytesSize

end EncodeRlpList

/-! ## The writers -/

mutual

def writeRlp : Object → List UInt8
  | .bytes val => EncodeRlpBytes.serializeBytes val
  | .list val => EncodeRlpList.serializeBytes (writeItems val)

def writeItems : List Object → List UInt8
  | [] => []
  | item :: items => writeRlp item ++ writeItems items

end

mutual

def calcRlpSize : Object → UInt64
  | .bytes val => EncodeRlpBytes.calcSerializedSize (UInt64.ofNat val.length) val.head?
  | .list val => EncodeRlpList.calcSerializedSize (calcItemsSize val)

def calcItemsSize : List Object → UInt64
  | [] => 0
  | item :: items => calcRlpSize item + calcItemsSize items

end

/-! ## The size fields -/

theorem shift_eq_div (inVal : UInt64) {i : Nat} (small : i < 8) :
    (inVal >>> UInt64.ofNat (i * 8)).toNat = inVal.toNat / 256 ^ i := by
  have shift : (UInt64.ofNat (i * 8)).toNat % 64 = i * 8 := by
    rw [UInt64.toNat_ofNat']
    omega
  rw [UInt64.toNat_shiftRight, shift, Nat.shiftRight_eq_div_pow, Nat.mul_comm, Nat.pow_mul]

theorem encodeFrom_eq_digits (inVal : UInt64) {width : Nat} (small : width ≤ 8) :
    encodeFrom inVal width = BigEndian.digits width inVal.toNat := by
  induction width with
  | zero => rfl
  | succ i inductionHypothesis =>
    rw [encodeFrom, BigEndian.digits, inductionHypothesis (by omega)]
    congr 1
    apply UInt8.toNat_inj.mp
    simp only [UInt64.toNat_toUInt8, UInt64.toNat_and, shift_eq_div inVal small]
    simp [Nat.and_two_pow_sub_one_eq_mod _ 8]

@[simp] theorem length_encodeFrom (inVal : UInt64) (width : Nat) :
    (encodeFrom inVal width).length = width := by
  induction width with
  | zero => rfl
  | succ i inductionHypothesis => simp [encodeFrom, inductionHypothesis]

theorem byte_eq_zero_iff (inVal : UInt64) {i : Nat} (small : i < 8) :
    inVal >>> UInt64.ofNat (i * 8) &&& 0xFF = 0 ↔ inVal.toNat / 256 ^ i % 256 = 0 := by
  rw [← UInt64.toNat_inj, UInt64.toNat_and, shift_eq_div inVal small]
  simp [Nat.and_two_pow_sub_one_eq_mod _ 8]

/-- The bytes that are left after the zeros hold the value and do not start with another zero. -/
theorem zeroBytes_spec (inVal : UInt64) {i : Nat} (small : i ≤ 8) :
    inVal.toNat % 256 ^ i < 256 ^ (i - zeroBytes inVal i) ∧
      (encodeFrom inVal (i - zeroBytes inVal i)).head? ≠ some 0 := by
  induction i with
  | zero => simp [zeroBytes, encodeFrom, Nat.mod_one]
  | succ i inductionHypothesis =>
    obtain ⟨holds, noZero⟩ := inductionHypothesis (by omega)
    unfold zeroBytes
    split
    · rename_i isZero
      have top := (byte_eq_zero_iff inVal (by omega)).mp isZero
      have sameRest : i + 1 - (zeroBytes inVal i + 1) = i - zeroBytes inVal i := by omega
      have sameValue : inVal.toNat % 256 ^ (i + 1) = inVal.toNat % 256 ^ i := by
        rw [Nat.pow_succ, Nat.mod_mul, top]
        simp
      rw [sameRest, sameValue]
      exact ⟨holds, noZero⟩
    · rename_i notZero
      refine ⟨Nat.mod_lt _ (Nat.pow_pos (by decide)), ?_⟩
      simp only [Nat.sub_zero, encodeFrom, List.head?_cons, ne_eq, Option.some.injEq]
      intro isZero
      apply notZero
      have asNat := congrArg UInt8.toNat isZero
      rw [UInt64.toNat_toUInt8, UInt64.toNat_and, shift_eq_div inVal (by omega)] at asNat
      rw [byte_eq_zero_iff inVal (by omega)]
      simpa [Nat.and_two_pow_sub_one_eq_mod _ 8] using asNat

theorem encodedWidth_le (inVal : UInt64) : encodedWidth inVal ≤ 8 := Nat.sub_le _ _

@[simp] theorem length_encodePrimitiveIntValue (inVal : UInt64) :
    (encodePrimitiveIntValue inVal).length = encodedWidth inVal := length_encodeFrom _ _

theorem value_encodePrimitiveIntValue (inVal : UInt64) :
    BigEndian.value (encodePrimitiveIntValue inVal) = inVal.toNat := by
  have small : inVal.toNat < 256 ^ 8 := inVal.toNat_lt
  have holds := (zeroBytes_spec inVal (Nat.le_refl 8)).1
  rw [Nat.mod_eq_of_lt small] at holds
  rw [encodePrimitiveIntValue, encodeFrom_eq_digits inVal (encodedWidth_le inVal),
    BigEndian.value_digits]
  exact Nat.mod_eq_of_lt holds

theorem encodePrimitiveIntValue_noZero (inVal : UInt64) :
    (encodePrimitiveIntValue inVal).head? ≠ some 0 := (zeroBytes_spec inVal (Nat.le_refl 8)).2

theorem encodedWidth_pos {inVal : UInt64} (notZero : inVal ≠ 0) : 0 < encodedWidth inVal := by
  by_contra none
  have isEmpty : encodePrimitiveIntValue inVal = [] :=
    List.length_eq_zero_iff.mp (by rw [length_encodePrimitiveIntValue]; omega)
  have isValue := value_encodePrimitiveIntValue inVal
  rw [isEmpty] at isValue
  exact notZero (UInt64.toNat_inj.mp isValue.symm)

/-! ## What is written -/

/-- The leading bytes are the shortest header of the size. -/
theorem genLeadingBytesWith_header (shortBase longBase : UInt8) (byteSize : UInt64) :
    Header true shortBase longBase byteSize.toNat
      (genLeadingBytesWith shortBase.toUInt64 longBase.toUInt64 byteSize) := by
  unfold genLeadingBytesWith
  split
  · rename_i short
    have fits : byteSize.toNat ≤ 55 := short
    have same : (shortBase.toUInt64 + byteSize).toUInt8 = shortBase + UInt8.ofNat byteSize.toNat := by
      apply UInt8.toNat_inj.mp
      simp
    rw [same]
    exact .short fits
  · rename_i notShort
    have large : 55 < byteSize.toNat := by
      by_contra small
      exact notShort (UInt64.le_iff_toNat_le.mpr (Nat.not_lt.mp small))
    have notZero : byteSize ≠ 0 := by
      intro isZero
      simp [isZero] at large
    have same : (longBase.toUInt64 + UInt64.ofNat (encodePrimitiveIntValue byteSize).length).toUInt8 =
        longBase + UInt8.ofNat (encodePrimitiveIntValue byteSize).length := by
      apply UInt8.toNat_inj.mp
      simp
    simp only [same]
    refine .long ?_ ?_ (value_encodePrimitiveIntValue byteSize) ?_
    · rw [length_encodePrimitiveIntValue]
      exact encodedWidth_pos notZero
    · rw [length_encodePrimitiveIntValue]
      exact encodedWidth_le byteSize
    · exact fun _ => ⟨large, encodePrimitiveIntValue_noZero byteSize⟩

theorem length_genLeadingBytesWith (shortBase longBase byteSize : UInt64) :
    (genLeadingBytesWith shortBase longBase byteSize).length = (calcLeadingBytesSize byteSize).toNat := by
  unfold genLeadingBytesWith calcLeadingBytesSize
  split
  · rfl
  · have width := encodedWidth_le byteSize
    rw [List.length_cons, length_encodePrimitiveIntValue, UInt64.toNat_add, UInt64.toNat_ofNat']
    simp
    omega

theorem serializeBytes_encodes {inBytes : List UInt8} (small : inBytes.length < 2 ^ 64) :
    Encodes true (EncodeRlpBytes.serializeBytes inBytes) (.bytes inBytes) := by
  unfold EncodeRlpBytes.serializeBytes
  split
  · rename_i single
    unfold isByte at single
    split at single
    · exact .byte (of_decide_eq_true single)
    · cases single
  · rename_i notSingle
    have isHeader := genLeadingBytesWith_header 0x80 0xB7 (UInt64.ofNat inBytes.length)
    rw [UInt64.toNat_ofNat_of_lt' small] at isHeader
    exact .bytes isHeader fun _ => by simpa using notSingle

mutual

/-- What is written for an object is its shortest encoding. -/
theorem writeRlp_encodes (object : Object) (small : (writeRlp object).length < 2 ^ 64) :
    Encodes true (writeRlp object) object :=
  match object with
  | .bytes val => by
    refine serializeBytes_encodes ?_
    simp only [writeRlp, EncodeRlpBytes.serializeBytes] at small
    split at small
    · exact small
    · rw [List.length_append] at small
      omega
  | .list val => by
    have bodySmall : (writeItems val).length < 2 ^ 64 := by
      simp only [writeRlp, EncodeRlpList.serializeBytes, List.length_append] at small
      omega
    have isHeader := genLeadingBytesWith_header 0xC0 0xF7 (UInt64.ofNat (writeItems val).length)
    rw [UInt64.toNat_ofNat_of_lt' bodySmall] at isHeader
    exact .list isHeader (writeItems_encodes val bodySmall)

theorem writeItems_encodes (objects : List Object) (small : (writeItems objects).length < 2 ^ 64) :
    EncodesAll true (writeItems objects) objects :=
  match objects with
  | [] => .nil
  | object :: objects => by
    simp only [writeItems, List.length_append] at small
    exact .cons (writeRlp_encodes object (by omega)) (writeItems_encodes objects (by omega))

end

theorem length_of_isByte {bytes : List UInt8} (single : isByte bytes = true) : bytes.length = 1 := by
  unfold isByte at single
  split at single
  · rfl
  · cases single

theorem isByte_iff {bytes : List UInt8} (small : bytes.length < 2 ^ 64) :
    isByte bytes = true ↔ UInt64.ofNat bytes.length = 1 ∧ bytes.head?.any (· ≤ 0x7F) = true := by
  have sameLength : UInt64.ofNat bytes.length = 1 ↔ bytes.length = 1 := by
    rw [← UInt64.toNat_inj, UInt64.toNat_ofNat_of_lt' small]
    rfl
  rw [sameLength]
  cases bytes with
  | nil => simp [isByte]
  | cons first rest => cases rest <;> simp [isByte]

theorem calcLeadingBytesSize_add {shortBase longBase : UInt64} {payload : List UInt8}
    (payloadSmall : payload.length < 2 ^ 64)
    (small : (genLeadingBytesWith shortBase longBase (UInt64.ofNat payload.length) ++ payload).length <
      2 ^ 64) :
    (calcLeadingBytesSize (UInt64.ofNat payload.length) + UInt64.ofNat payload.length).toNat =
      (genLeadingBytesWith shortBase longBase (UInt64.ofNat payload.length) ++ payload).length := by
  rw [List.length_append, length_genLeadingBytesWith] at small ⊢
  rw [UInt64.toNat_add, UInt64.toNat_ofNat_of_lt' payloadSmall]
  exact Nat.mod_eq_of_lt small

mutual

/-- The size computed beforehand is the number of bytes written. -/
theorem calcRlpSize_eq (object : Object) (small : (writeRlp object).length < 2 ^ 64) :
    (calcRlpSize object).toNat = (writeRlp object).length :=
  match object with
  | .bytes val => by
    simp only [writeRlp, EncodeRlpBytes.serializeBytes, calcRlpSize] at small ⊢
    by_cases isSingle : isByte val = true
    · rw [if_pos isSingle] at small ⊢
      rw [EncodeRlpBytes.calcSerializedSize, if_pos ((isByte_iff small).mp isSingle),
        length_of_isByte isSingle]
      rfl
    · rw [if_neg isSingle] at small ⊢
      have valSmall : val.length < 2 ^ 64 := by
        rw [List.length_append] at small
        omega
      rw [EncodeRlpBytes.calcSerializedSize, if_neg (mt (isByte_iff valSmall).mpr isSingle)]
      exact calcLeadingBytesSize_add valSmall small
  | .list val => by
    simp only [writeRlp, EncodeRlpList.serializeBytes, calcRlpSize] at small ⊢
    have bodySmall : (writeItems val).length < 2 ^ 64 := by
      rw [List.length_append] at small
      omega
    have sameSize : calcItemsSize val = UInt64.ofNat (writeItems val).length := by
      rw [← calcItemsSize_eq val bodySmall, UInt64.ofNat_toNat]
    rw [EncodeRlpList.calcSerializedSize, sameSize]
    exact calcLeadingBytesSize_add bodySmall small

theorem calcItemsSize_eq (objects : List Object) (small : (writeItems objects).length < 2 ^ 64) :
    (calcItemsSize objects).toNat = (writeItems objects).length :=
  match objects with
  | [] => rfl
  | object :: objects => by
    simp only [writeItems, List.length_append] at small
    have head := calcRlpSize_eq object (by omega)
    have tail := calcItemsSize_eq objects (by omega)
    rw [calcItemsSize, writeItems, List.length_append, UInt64.toNat_add, head, tail]
    exact Nat.mod_eq_of_lt small

end

mutual

/-- No other encoding without a redundant header is what is written. -/
theorem writeRlp_of_encodes {encoding : List UInt8} {object : Object}
    (encodes : Encodes true encoding object) (small : encoding.length < 2 ^ 64) :
    writeRlp object = encoding :=
  match encodes with
  | .byte isSmall => by
    rw [writeRlp, EncodeRlpBytes.serializeBytes, if_pos]
    exact decide_eq_true isSmall
  | @Encodes.bytes _ header payload isHeader needed => by
    have payloadSmall : payload.length < 2 ^ 64 := by
      rw [List.length_append] at small
      omega
    have written := genLeadingBytesWith_header 0x80 0xB7 (UInt64.ofNat payload.length)
    rw [UInt64.toNat_ofNat_of_lt' payloadSmall] at written
    rw [writeRlp, EncodeRlpBytes.serializeBytes, if_neg (by simp [needed rfl]),
      isHeader.unique written]
    rfl
  | @Encodes.list _ header body items isHeader inner => by
    have bodySmall : body.length < 2 ^ 64 := by
      rw [List.length_append] at small
      omega
    have written := genLeadingBytesWith_header 0xC0 0xF7 (UInt64.ofNat body.length)
    rw [UInt64.toNat_ofNat_of_lt' bodySmall] at written
    rw [writeRlp, EncodeRlpList.serializeBytes, writeItems_of_encodes inner bodySmall,
      isHeader.unique written]
    rfl

theorem writeItems_of_encodes {body : List UInt8} {objects : List Object}
    (encodes : EncodesAll true body objects) (small : body.length < 2 ^ 64) :
    writeItems objects = body :=
  match encodes with
  | .nil => rfl
  | .cons head tail => by
    rw [List.length_append] at small
    rw [writeItems, writeRlp_of_encodes head (by omega), writeItems_of_encodes tail (by omega)]

end

/-! ## Bounds -/

theorem calcLeadingBytesSize_le (byteSize : UInt64) : (calcLeadingBytesSize byteSize).toNat ≤ 9 := by
  unfold calcLeadingBytesSize
  split
  · decide
  · have width := encodedWidth_le byteSize
    rw [UInt64.toNat_add, UInt64.toNat_ofNat']
    simp
    omega

theorem length_writeRlp_bytes (val : List UInt8) : (writeRlp (.bytes val)).length ≤ val.length + 9 := by
  simp only [writeRlp, EncodeRlpBytes.serializeBytes]
  split
  · omega
  · have leading := calcLeadingBytesSize_le (UInt64.ofNat val.length)
    rw [List.length_append, EncodeRlpBytes.genLeadingBytes, length_genLeadingBytesWith]
    omega

theorem length_writeRlp_list (items : List Object) :
    (writeRlp (.list items)).length ≤ (writeItems items).length + 9 := by
  have leading := calcLeadingBytesSize_le (UInt64.ofNat (writeItems items).length)
  rw [writeRlp, EncodeRlpList.serializeBytes, List.length_append, EncodeRlpList.genLeadingBytes,
    length_genLeadingBytesWith]
  omega

theorem length_writeItems {items : List Object} {bound : Nat}
    (bounded : ∀ item ∈ items, (writeRlp item).length ≤ bound) :
    (writeItems items).length ≤ items.length * bound := by
  induction items with
  | nil => simp [writeItems]
  | cons item items inductionHypothesis =>
    simp only [List.forall_mem_cons] at bounded
    have rest := inductionHypothesis bounded.2
    rw [writeItems, List.length_append, List.length_cons, Nat.succ_mul]
    omega

theorem length_writeRlp_pair (left right : Object) :
    (writeRlp (.list [left, right])).length ≤ (writeRlp left).length + (writeRlp right).length + 9 := by
  have header := length_writeRlp_list [left, right]
  simp only [writeItems, List.length_append, List.length_nil] at header
  omega

/-! ## Short strings -/

theorem writeRlp_short {val : List UInt8} (short : val.length ≤ 55) (notByte : isByte val = false) :
    writeRlp (.bytes val) = (0x80 + UInt64.ofNat val.length).toUInt8 :: val := by
  have small : UInt64.ofNat val.length ≤ 55 := by
    rw [UInt64.le_iff_toNat_le, UInt64.toNat_ofNat_of_lt' (by change _ < 2 ^ 64; omega)]
    exact short
  simp [writeRlp, EncodeRlpBytes.serializeBytes, notByte, EncodeRlpBytes.genLeadingBytes,
    genLeadingBytesWith, small]

theorem writeRlp_byte {val : List UInt8} (single : isByte val = true) : writeRlp (.bytes val) = val := by
  simp [writeRlp, EncodeRlpBytes.serializeBytes, single]

theorem toNat_shortHeader {size : Nat} (short : size ≤ 55) :
    (0x80 + UInt64.ofNat size).toUInt8.toNat = 128 + size := by
  simp
  omega

/-- A byte that is its own encoding is no header. -/
theorem ne_shortHeader {byte : UInt8} {size : Nat} (single : isByte [byte] = true) (short : size ≤ 55) :
    byte ≠ (0x80 + UInt64.ofNat size).toUInt8 := by
  intro same
  have small : byte.toNat ≤ 127 := UInt8.le_iff_toNat_le.mp (isByte_singleton.mp single)
  rw [same, toNat_shortHeader short] at small
  omega

theorem exists_of_isByte {val : List UInt8} (single : isByte val = true) : ∃ byte, val = [byte] :=
  List.length_eq_one_iff.mp (length_of_isByte single)

/-- The encoding of a short string does not start another one's. -/
theorem writeRlp_prefixFree {left right : List UInt8} (leftShort : left.length ≤ 55)
    (rightShort : right.length ≤ 55) (isPrefix : writeRlp (.bytes left) <+: writeRlp (.bytes right)) :
    left = right := by
  cases leftByte : isByte left with
  | true =>
    obtain ⟨byte, rfl⟩ := exists_of_isByte leftByte
    rw [writeRlp_byte leftByte] at isPrefix
    cases rightByte : isByte right with
    | true =>
      obtain ⟨byte', rfl⟩ := exists_of_isByte rightByte
      rw [writeRlp_byte rightByte] at isPrefix
      exact isPrefix.eq_of_length rfl
    | false =>
      rw [writeRlp_short rightShort rightByte, List.cons_prefix_cons] at isPrefix
      exact absurd isPrefix.1 (ne_shortHeader leftByte rightShort)
  | false =>
    rw [writeRlp_short leftShort leftByte] at isPrefix
    cases rightByte : isByte right with
    | true =>
      obtain ⟨byte, rfl⟩ := exists_of_isByte rightByte
      rw [writeRlp_byte rightByte, List.cons_prefix_cons] at isPrefix
      exact absurd isPrefix.1.symm (ne_shortHeader rightByte leftShort)
    | false =>
      rw [writeRlp_short rightShort rightByte, List.cons_prefix_cons] at isPrefix
      have sizes := congrArg UInt8.toNat isPrefix.1
      rw [toNat_shortHeader leftShort, toNat_shortHeader rightShort] at sizes
      exact isPrefix.2.eq_of_length (by omega)

theorem encodePrimitiveIntValue_injective {i j : UInt64}
    (same : encodePrimitiveIntValue i = encodePrimitiveIntValue j) : i = j := by
  have values := congrArg BigEndian.value same
  rw [value_encodePrimitiveIntValue, value_encodePrimitiveIntValue] at values
  exact UInt64.toNat_inj.mp values

end Decentagram.SimpleRlp
