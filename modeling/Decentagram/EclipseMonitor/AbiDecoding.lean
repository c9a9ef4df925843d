import Mathlib.Algebra.Group.Nat.Defs
import Decentagram.Lib.Result
import Decentagram.EclipseMonitor.AbiParser

/-! # What the ABI parsers read

A parser undoes the encoding of its type.
-/

namespace Decentagram.Eth

open Decentagram.Lib Decentagram.Lib.Abi

/-! ## Chunks -/

def chunks (encoding : List UInt8) : UInt64 := UInt64.ofNat (encoding.length / 32)

theorem chunks_append {left right : List UInt8} (aligned : 32 ∣ left.length) :
    chunks (left ++ right) = chunks left + chunks right := by
  have sum : (left.length + right.length) / 32 = left.length / 32 + right.length / 32 := by omega
  rw [chunks, chunks, chunks, List.length_append, sum, UInt64.ofNat_add]

/-- The parser reads exactly the encoding, whatever follows it. -/
def Reads {Primitive : Type} (toPrimitive : List UInt8 → Except String (AbiParsed Primitive))
    (encoding : List UInt8) (val : Primitive) : Prop :=
  ∀ rest, toPrimitive (encoding ++ rest) = .ok (val, rest, chunks encoding)

/-! ## Utilities -/

theorem abiParserSkipPadding_replicate (skipLen : Nat) (rest : List UInt8) :
    abiParserSkipPadding skipLen (List.replicate skipLen 0 ++ rest) = .ok rest := by
  induction skipLen with
  | zero => rfl
  | succ skipLen inductionHypothesis =>
    simp [List.replicate_succ, abiParserSkipPadding, inductionHypothesis]

theorem abiParserCopyBytes_append (bytes rest : List UInt8) :
    abiParserCopyBytes bytes.length (bytes ++ rest) = .ok (bytes, rest) := by
  induction bytes with
  | nil => rfl
  | cons byte bytes inductionHypothesis =>
    simp only [List.length_cons, List.cons_append, abiParserCopyBytes, inductionHypothesis, ok_bind]

theorem abiParserCopyBytesThenSkip_append (bytes rest : List UInt8) (skipLen : Nat) :
    abiParserCopyBytesThenSkip bytes.length skipLen (bytes ++ (List.replicate skipLen 0 ++ rest)) =
      .ok (bytes, rest) := by
  simp only [abiParserCopyBytesThenSkip, abiParserCopyBytes_append, ok_bind,
    abiParserSkipPadding_replicate]

/-- A byte goes in front of the lower ones. -/
theorem digit_or (width i n : Nat) :
    (UInt8.ofNat (n / 256 ^ i)).toBitVec.setWidth width <<< (i * 8) |||
        BitVec.ofNat width (n % 256 ^ i) =
      BitVec.ofNat width (n % 256 ^ (i + 1)) := by
  have pow : 256 ^ i = 2 ^ (i * 8) := by rw [Nat.mul_comm, Nat.pow_mul]
  have low : n % 256 ^ i < 2 ^ (i * 8) := pow ▸ Nat.mod_lt n (Nat.pow_pos (by decide))
  have whole : n % 256 ^ (i + 1) = (n / 256 ^ i % 256) <<< (i * 8) ||| n % 256 ^ i := by
    rw [Nat.pow_succ, Nat.mod_mul, ← Nat.shiftLeft_add_eq_or_of_lt low, Nat.shiftLeft_eq, ← pow,
      Nat.mul_comm (256 ^ i), Nat.add_comm]
  have shifted : (UInt8.ofNat (n / 256 ^ i)).toBitVec.setWidth width <<< (i * 8) =
      BitVec.ofNat width ((n / 256 ^ i % 256) <<< (i * 8)) := by
    apply BitVec.eq_of_toNat_eq
    simp [Nat.shiftLeft_eq]
  rw [whole, BitVec.ofNat_or, shifted]

theorem parsePrimitiveIntLoop_digits {width : Nat} (res : BitVec width) (i n : Nat)
    (rest : List UInt8) :
    parsePrimitiveIntLoop res i (BigEndian.digits i n ++ rest) =
      .ok (res ||| BitVec.ofNat width (n % 256 ^ i), rest) := by
  induction i generalizing res with
  | zero => simp [BigEndian.digits, parsePrimitiveIntLoop, Nat.mod_one]
  | succ i inductionHypothesis =>
    simp only [BigEndian.digits, List.cons_append, parsePrimitiveIntLoop, inductionHypothesis]
    rw [BitVec.or_assoc, digit_or]

/-! ## Types without tails -/

namespace AbiCodecImpl

theorem integerToPrimitive_encodeNat (type : RealNumType) {n : Nat}
    (small : n < 256 ^ type.consumedSize) :
    Reads (integerToPrimitive type) (encodeNat n) (BitVec.ofNat (8 * type.consumedSize) n) := by
  intro rest
  have lead : 32 = 32 - type.consumedSize + type.consumedSize := by
    have within := type.consumedSize_le
    omega
  have split : encodeNat n =
      List.replicate (32 - type.consumedSize) 0 ++ BigEndian.digits type.consumedSize n := by
    rw [encodeNat]
    nth_rewrite 1 [lead]
    exact BigEndian.digits_add small
  have oneChunk : chunks (encodeNat n) = 1 := by simp [chunks]
  rw [oneChunk, split, List.append_assoc]
  simp only [integerToPrimitive, abiParserSkipPadding_replicate, ok_bind, parsePrimitiveIntLoop_digits,
    Nat.mod_eq_of_lt small]
  simp

theorem boolToPrimitive_encodeNat (val : Bool) : Reads boolToPrimitive (encodeNat val.toNat) val := by
  intro rest
  have small : val.toNat < 256 ^ RealNumType.uInt8.consumedSize := by cases val <;> decide
  simp only [boolToPrimitive, integerToPrimitive_encodeNat .uInt8 small rest, ok_bind]
  cases val <;> simp [RealNumType.consumedSize]

theorem bytesToPrimitive_encodeFixedBytes {size : Nat} {val : List UInt8} (sameLength : val.length = size)
    (within : size ≤ 32) : Reads (bytesToPrimitive size) (encodeFixedBytes val) val := by
  intro rest
  subst sameLength
  have oneChunk : chunks (encodeFixedBytes val) = 1 := by
    simp [chunks, length_encodeFixedBytes within]
  rw [oneChunk, encodeFixedBytes, List.append_assoc]
  simp only [bytesToPrimitive, abiParserCopyBytesThenSkip_append, ok_bind]

/-! ## Byte strings -/

theorem sizeToPrimitive_encodeNat {n : Nat} (small : n < 2 ^ 64) :
    Reads sizeToPrimitive (encodeNat n) (UInt64.ofNat n) := by
  intro rest
  have read := integerToPrimitive_encodeNat .uInt64 (by simpa [RealNumType.consumedSize] using small) rest
  simp only [sizeToPrimitive, read, ok_bind]
  rfl

theorem dynBytesToPrimitive_encodeBytes {val : List UInt8} (fits : (encodeBytes val).length < 2 ^ 64) :
    Reads dynBytesToPrimitive (encodeBytes val) val := by
  intro rest
  simp only [encodeBytes, List.length_append, length_encodeNat, List.length_replicate] at fits
  have small : val.length < 2 ^ 64 := by omega
  have length : (UInt64.ofNat val.length).toNat = val.length := UInt64.toNat_ofNat_of_lt' small
  have numChunk : abiCeilingDiv (UInt64.ofNat val.length) chunkSize =
      UInt64.ofNat ((val.length + 31) / 32) := by
    apply UInt64.toNat_inj.mp
    simp [abiCeilingDiv, chunkSize]
    omega
  have paddingSize :
      (UInt64.ofNat ((val.length + 31) / 32) * chunkSize - UInt64.ofNat val.length).toNat =
        (32 - val.length % 32) % 32 := by
    rw [UInt64.toNat_sub, length]
    simp [chunkSize]
    omega
  have padded : chunks (encodeBytes val) =
      chunks (encodeNat val.length) + UInt64.ofNat ((val.length + 31) / 32) := by
    rw [encodeBytes, chunks_append (by simp), chunks, chunks]
    simp only [List.length_append, List.length_replicate]
    congr 2
    omega
  rw [padded]
  simp only [dynBytesToPrimitive, encodeBytes, List.append_assoc, sizeToPrimitive_encodeNat small _,
    ok_bind, numChunk, paddingSize, length, abiParserCopyBytesThenSkip_append]

/-! ## Arrays -/

section

variable {Primitive : Type} {itemToPrimitive : List UInt8 → Except String (AbiParsed Primitive)}
  {encodeItem : Primitive → List UInt8}

theorem headsToPrimitive_flatMap {Item : Type} {encodeHead : Item → List UInt8}
    {head : Item → Primitive} {vals : List Item}
    (aligned : ∀ val ∈ vals, 32 ∣ (encodeHead val).length)
    (reads : ∀ val ∈ vals, Reads itemToPrimitive (encodeHead val) (head val)) (rest : List UInt8)
    (totalChunkConsumed : UInt64) :
    headsToPrimitive itemToPrimitive vals.length (vals.flatMap encodeHead ++ rest) totalChunkConsumed =
      .ok (vals.map head, rest, totalChunkConsumed + chunks (vals.flatMap encodeHead)) := by
  induction vals generalizing totalChunkConsumed with
  | nil => simp [headsToPrimitive, chunks]
  | cons val vals inductionHypothesis =>
    simp only [List.forall_mem_cons] at aligned reads
    simp only [List.length_cons, List.flatMap_cons, List.append_assoc, List.map_cons, headsToPrimitive,
      reads.1 _, ok_bind, inductionHypothesis aligned.2 reads.2, chunks_append aligned.1,
      UInt64.add_assoc]

/-- The offset of each tail is what has been consumed when its turn comes. -/
theorem tailsToPrimitive_flatMap {vals : List Primitive}
    (aligned : ∀ val ∈ vals, 32 ∣ (encodeItem val).length)
    (reads : ∀ val ∈ vals, Reads itemToPrimitive (encodeItem val) val) (rest : List UInt8)
    (consumed : Nat) :
    tailsToPrimitive itemToPrimitive ((offsets encodeItem (32 * consumed) vals).map UInt64.ofNat)
        (vals.flatMap encodeItem ++ rest) (UInt64.ofNat consumed) =
      .ok (vals, rest, UInt64.ofNat consumed + chunks (vals.flatMap encodeItem)) := by
  induction vals generalizing consumed with
  | nil => simp [offsets, tailsToPrimitive, chunks]
  | cons val vals inductionHypothesis =>
    simp only [List.forall_mem_cons] at aligned reads
    have offset : UInt64.ofNat (32 * consumed) = UInt64.ofNat consumed * chunkSize := by
      rw [Nat.mul_comm, UInt64.ofNat_mul]
      rfl
    have next : 32 * consumed + (encodeItem val).length =
        32 * (consumed + (encodeItem val).length / 32) := by
      have whole := aligned.1
      omega
    have total : UInt64.ofNat consumed + chunks (encodeItem val) =
        UInt64.ofNat (consumed + (encodeItem val).length / 32) := (UInt64.ofNat_add _ _).symm
    simp only [offsets, List.map_cons, List.flatMap_cons, List.append_assoc, tailsToPrimitive, offset,
      ne_eq, not_true_eq_false, if_false, reads.1 _, ok_bind, total, next,
      inductionHypothesis aligned.2 reads.2, chunks_append aligned.1]
    simp [← total, UInt64.add_assoc]

theorem listToPrimitive_encodeParts {itemHasTail : Bool} {size : UInt64} {vals : List Primitive}
    (sameSize : vals.length = size.toNat) (aligned : ∀ val ∈ vals, 32 ∣ (encodeItem val).length)
    (reads : ∀ val ∈ vals, Reads itemToPrimitive (encodeItem val) val)
    (fits : (encodeParts (items itemHasTail encodeItem vals)).length < 2 ^ 64) :
    Reads (listToPrimitive itemToPrimitive itemHasTail size)
      (encodeParts (items itemHasTail encodeItem vals)) vals := by
  intro rest
  cases itemHasTail with
  | false =>
    rw [encodeParts_static]
    have heads : headsToPrimitive itemToPrimitive vals.length (vals.flatMap encodeItem ++ rest) 0 =
        .ok (vals.map id, rest, 0 + chunks (vals.flatMap encodeItem)) :=
      headsToPrimitive_flatMap aligned reads rest 0
    simpa [listToPrimitive, ← sameSize] using heads
  | true =>
    rw [encodeParts_dynamic] at fits ⊢
    have headLength := length_flatMap_encodeNat (offsets encodeItem (32 * vals.length) vals)
    rw [length_offsets] at headLength
    rw [List.length_append, headLength] at fits
    have offsetsRead : ∀ offset ∈ offsets encodeItem (32 * vals.length) vals,
        Reads sizeToPrimitive (encodeNat offset) (UInt64.ofNat offset) := by
      intro offset present
      have bound := le_of_mem_offsets encodeItem present
      exact sizeToPrimitive_encodeNat (by omega)
    have headChunks : chunks ((offsets encodeItem (32 * vals.length) vals).flatMap encodeNat) =
        UInt64.ofNat vals.length := by
      rw [chunks, headLength, Nat.mul_div_cancel_left _ (by decide)]
    have heads := headsToPrimitive_flatMap (by simp) offsetsRead (vals.flatMap encodeItem ++ rest) 0
    rw [length_offsets, headChunks, UInt64.zero_add] at heads
    rw [chunks_append ⟨vals.length, headLength⟩, headChunks]
    simp only [listToPrimitive, if_true, ← sameSize, List.append_assoc, heads, ok_bind,
      tailsToPrimitive_flatMap aligned reads rest vals.length]

theorem dynListToPrimitive_encodeParts {itemHasTail : Bool} {vals : List Primitive}
    (sizes : vals.length < 2 ^ 64) (aligned : ∀ val ∈ vals, 32 ∣ (encodeItem val).length)
    (reads : ∀ val ∈ vals, Reads itemToPrimitive (encodeItem val) val)
    (fits : (encodeParts (items itemHasTail encodeItem vals)).length < 2 ^ 64) :
    Reads (dynListToPrimitive itemToPrimitive itemHasTail)
      (encodeNat vals.length ++ encodeParts (items itemHasTail encodeItem vals)) vals := by
  intro rest
  have length : vals.length = (UInt64.ofNat vals.length).toNat :=
    (UInt64.toNat_ofNat_of_lt' sizes).symm
  rw [chunks_append (by simp)]
  simp only [dynListToPrimitive, List.append_assoc, sizeToPrimitive_encodeNat sizes _, ok_bind,
    listToPrimitive_encodeParts length aligned reads fits _]

end

end AbiCodecImpl

/-! ## All types -/

namespace AbiParser

theorem hasTail_eq_dynamic (parser : AbiParser) : parser.hasTail = parser.type.dynamic := by
  induction parser with
  | list item size inductionHypothesis => exact inductionHypothesis
  | _ => rfl

/-- The claim of the induction over the types. -/
def ReadsType (parser : AbiParser) : Prop :=
  ∀ val : parser.Primitive, HasType (2 ^ 64) parser.type val →
    (encode parser.type val).length < 2 ^ 64 → Reads parser.codecToPrimitive (encode parser.type val) val

theorem reads_items {item : AbiParser} (itemReads : ReadsType item) {vals : List item.Primitive}
    (hasTypes : ∀ val ∈ vals, HasType (2 ^ 64) item.type val)
    (fits : (encodeParts (items item.hasTail (encode item.type) vals)).length < 2 ^ 64) :
    ∀ val ∈ vals, Reads item.codecToPrimitive (encode item.type val) val := by
  intro val present
  apply itemReads val (hasTypes val present)
  exact (length_item_le present).trans_lt fits

theorem readsType_integer (type : RealNumType) : ReadsType (integer type) := by
  intro (val : BitVec (8 * type.consumedSize)) _ _
  have small : val.toNat < 256 ^ type.consumedSize := by
    have bound := val.isLt
    rwa [Nat.pow_mul] at bound
  have read := AbiCodecImpl.integerToPrimitive_encodeNat type small
  rwa [BitVec.ofNat_toNat, BitVec.setWidth_eq] at read

theorem readsType_list {item : AbiParser} (itemReads : ReadsType item) (size : UInt64) :
    ReadsType (list item size) := by
  intro (vals : List item.Primitive) hasType fits
  simp only [type, encode, ← hasTail_eq_dynamic] at fits
  have aligned : ∀ val ∈ vals, 32 ∣ (encode item.type val).length :=
    fun val present => dvd_length_encode (hasType.2 val present)
  change Reads (AbiCodecImpl.listToPrimitive item.codecToPrimitive item.hasTail size)
    (encodeParts (items item.type.dynamic (encode item.type) vals)) vals
  rw [← hasTail_eq_dynamic]
  exact AbiCodecImpl.listToPrimitive_encodeParts hasType.1 aligned
    (reads_items itemReads hasType.2 fits) fits

theorem readsType_dynList {item : AbiParser} (itemReads : ReadsType item) : ReadsType (dynList item) := by
  intro (vals : List item.Primitive) hasType fits
  simp only [type, encode, ← hasTail_eq_dynamic, List.length_append] at fits
  have aligned : ∀ val ∈ vals, 32 ∣ (encode item.type val).length :=
    fun val present => dvd_length_encode (hasType.2 val present)
  have itemsFit : (encodeParts (items item.hasTail (encode item.type) vals)).length < 2 ^ 64 := by omega
  change Reads (AbiCodecImpl.dynListToPrimitive item.codecToPrimitive item.hasTail)
    (encodeNat vals.length ++ encodeParts (items item.type.dynamic (encode item.type) vals)) vals
  rw [← hasTail_eq_dynamic]
  exact AbiCodecImpl.dynListToPrimitive_encodeParts hasType.1 aligned
    (reads_items itemReads hasType.2 itemsFit) itemsFit

theorem readsType (parser : AbiParser) : ReadsType parser := by
  induction parser with
  | integer type => exact readsType_integer type
  | bool => exact fun val _ _ => AbiCodecImpl.boolToPrimitive_encodeNat val
  | fixedBytes size within =>
    exact fun val hasType _ => AbiCodecImpl.bytesToPrimitive_encodeFixedBytes hasType within
  | bytes => exact fun val _ fits => AbiCodecImpl.dynBytesToPrimitive_encodeBytes fits
  | list item size inductionHypothesis => exact readsType_list inductionHypothesis size
  | dynList item inductionHypothesis => exact readsType_dynList inductionHypothesis

end AbiParser

/-! ## Arguments

Among other arguments, between any bytes.
-/

theorem drop_lead (lead inner more : List UInt8) :
    (lead ++ (inner ++ more)).drop (lead.length + inner.length) = more := by
  rw [← List.append_assoc, ← List.length_append]
  exact List.drop_left

section

variable {Primitive : Type} {encoding : List UInt8} {val : Primitive} {before after : List Part}
  {lead rest : List UInt8}

theorem headOnlyToPrimitive_encodeParts
    {headToPrimitive : List UInt8 → Except String (AbiParsed Primitive)}
    (read : Reads headToPrimitive encoding val) :
    headOnlyToPrimitive headToPrimitive
        (lead ++ (encodeParts (before ++ ⟨false, encoding⟩ :: after) ++ rest))
        (lead.length + headsSize before) =
      .ok (val, lead.length + headsSize before + encoding.length) := by
  obtain ⟨headLead, headMore, atHead, headLength⟩ := encodeParts_head before ⟨false, encoding⟩ after
  simp only [Part.head, Bool.false_eq_true, if_false] at atHead
  have dropped : (lead ++ (encodeParts (before ++ ⟨false, encoding⟩ :: after) ++ rest)).drop
      (lead.length + headsSize before) = encoding ++ (headMore ++ rest) := by
    rw [atHead, ← headLength, List.append_assoc, drop_lead, List.append_assoc]
  have headEnd : (lead ++ (encodeParts (before ++ ⟨false, encoding⟩ :: after) ++ rest)).length -
      (headMore ++ rest).length = lead.length + headsSize before + encoding.length := by
    simp only [atHead, List.length_append, headLength]
    omega
  simp only [headOnlyToPrimitive, dropped, read _, ok_bind, headEnd]

theorem headTailToPrimitive_encodeParts
    {tailToPrimitive : List UInt8 → Except String (AbiParsed Primitive)}
    (read : Reads tailToPrimitive encoding val)
    (fits : (encodeParts (before ++ ⟨true, encoding⟩ :: after)).length < 2 ^ 64) :
    headTailToPrimitive tailToPrimitive
        (lead ++ (encodeParts (before ++ ⟨true, encoding⟩ :: after) ++ rest))
        (lead.length + headsSize before) lead.length =
      .ok (val, lead.length + headsSize before + 32) := by
  obtain ⟨headLead, headMore, atHead, headLength⟩ := encodeParts_head before ⟨true, encoding⟩ after
  obtain ⟨tailLead, tailMore, atTail, tailLength⟩ :=
    encodeParts_tail before ⟨true, encoding⟩ after rfl
  simp only [Part.head, if_true, ← tailLength] at atHead
  have enough : tailLead.length ≤ (encodeParts (before ++ ⟨true, encoding⟩ :: after)).length := by
    simp [atTail]
  have droppedTail : (lead ++ (encodeParts (before ++ ⟨true, encoding⟩ :: after) ++ rest)).drop
      (lead.length + tailLead.length) = encoding ++ (tailMore ++ rest) := by
    rw [atTail, List.append_assoc, drop_lead, List.append_assoc]
  have dropped : (lead ++ (encodeParts (before ++ ⟨true, encoding⟩ :: after) ++ rest)).drop
      (lead.length + headsSize before) = encodeNat tailLead.length ++ (headMore ++ rest) := by
    rw [atHead, ← headLength, List.append_assoc, drop_lead, List.append_assoc]
  have headEnd : (lead ++ (encodeParts (before ++ ⟨true, encoding⟩ :: after) ++ rest)).length -
      (headMore ++ rest).length = lead.length + headsSize before + 32 := by
    simp only [atHead, List.length_append, length_encodeNat, headLength]
    omega
  have notNegative : ¬ ((lead ++ (encodeParts (before ++ ⟨true, encoding⟩ :: after) ++ rest)).length -
      lead.length : Int) < 0 := by
    simp only [List.length_append]
    omega
  have notShort : ¬ tailLead.length > ((lead ++ (encodeParts (before ++ ⟨true, encoding⟩ :: after) ++
      rest)).length - lead.length : Int).toNat := by
    simp only [List.length_append]
    omega
  simp only [headTailToPrimitive, dropped,
    AbiCodecImpl.sizeToPrimitive_encodeNat (enough.trans_lt fits) _, ok_bind,
    UInt64.toNat_ofNat_of_lt' (enough.trans_lt fits), if_neg notNegative, if_neg notShort, droppedTail,
    read _, headEnd]

end

theorem AbiParser.toPrimitive_encodeParts {parser : AbiParser} {val : parser.Primitive}
    (hasType : HasType (2 ^ 64) parser.type val) {before after : List Part} {lead rest : List UInt8}
    (fits : (encodeParts (before ++ part parser.type val :: after)).length < 2 ^ 64) :
    parser.toPrimitive (lead ++ (encodeParts (before ++ part parser.type val :: after) ++ rest))
        (lead.length + headsSize before) lead.length =
      .ok (val, lead.length + headsSize before + (part parser.type val).headSize) := by
  have inside : (encode parser.type val).length < 2 ^ 64 :=
    (length_le_length_encodeParts (part parser.type val) (by simp)).trans_lt fits
  have read := readsType parser val hasType inside
  have isPart : part parser.type val = ⟨parser.hasTail, encode parser.type val⟩ := by
    rw [hasTail_eq_dynamic]
    rfl
  rw [isPart] at fits ⊢
  cases hasTail : parser.hasTail with
  | false => simpa [toPrimitive, hasTail, Part.headSize] using headOnlyToPrimitive_encodeParts read
  | true =>
    rw [hasTail] at fits
    simpa [toPrimitive, hasTail, Part.headSize] using headTailToPrimitive_encodeParts read fits

/-- The codec of a type reads exactly an encoding of it, and its parser finds an argument among others. -/
theorem abi_decoding (parser : AbiParser) (val : parser.Primitive)
    (hasType : HasType (2 ^ 64) parser.type val) :
    (∀ rest, (encode parser.type val).length < 2 ^ 64 →
      ∃ chunkConsumed : UInt64,
        parser.codecToPrimitive (encode parser.type val ++ rest) = .ok (val, rest, chunkConsumed) ∧
          32 * chunkConsumed.toNat = (encode parser.type val).length) ∧
    ∀ (before after : List Part) (lead rest : List UInt8),
      (encodeParts (before ++ part parser.type val :: after)).length < 2 ^ 64 →
        parser.toPrimitive (lead ++ (encodeParts (before ++ part parser.type val :: after) ++ rest))
            (lead.length + headsSize before) lead.length =
          .ok (val, lead.length + headsSize before + (part parser.type val).headSize) := by
  constructor
  · intro rest fits
    refine ⟨chunks (encode parser.type val), AbiParser.readsType parser val hasType fits rest, ?_⟩
    have aligned := dvd_length_encode hasType
    rw [chunks, UInt64.toNat_ofNat_of_lt' (by change _ < 2 ^ 64; omega)]
    exact Nat.mul_div_cancel' aligned
  · intro before after lead rest fits
    exact AbiParser.toPrimitive_encodeParts hasType fits

def sampleParser : AbiParser := .dynList (.list .bytes 2)

def sampleVal : sampleParser.Primitive := [[[0x61], []], [[0x62, 0x63], [0x64]]]

theorem abi_decoding_sample :
    (∃ chunkConsumed : UInt64,
      sampleParser.codecToPrimitive (encode sampleParser.type sampleVal) =
          .ok (sampleVal, [], chunkConsumed) ∧
        32 * chunkConsumed.toNat = (encode sampleParser.type sampleVal).length) ∧
    sampleParser.toPrimitive (encodeParts [⟨false, encodeNat 7⟩, part sampleParser.type sampleVal]) 32 0 =
      .ok (sampleVal, 64) := by
  obtain ⟨codec, arguments⟩ := abi_decoding sampleParser sampleVal (by decide +kernel)
  constructor
  · simpa only [List.append_nil] using codec [] (by decide +kernel)
  · have found := arguments [⟨false, encodeNat 7⟩] [] [] [] (by decide +kernel)
    rwa [List.append_nil] at found

end Decentagram.Eth
