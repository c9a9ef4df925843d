import Decentagram.EclipseMonitor.AbiDecoding

/-! # What the ABI parsers accept

The input of a parser is not trusted.  Whatever a codec returns, it has read an encoding of it: every byte is
compared, as a part of the value, as padding or as an offset.
-/

namespace Decentagram.Eth

open Decentagram.Lib Decentagram.Lib.Abi

/-! ## Utilities -/

theorem eq_of_skipPadding {skipLen : Nat} {input rest : List UInt8}
    (skipped : abiParserSkipPadding skipLen input = .ok rest) :
    input = List.replicate skipLen 0 ++ rest := by
  fun_induction abiParserSkipPadding skipLen input with
  | case1 input =>
    cases skipped
    rfl
  | case2 => cases skipped
  | case3 => cases skipped
  | case4 skipLen byte input isZero inductionHypothesis =>
    rw [List.replicate_succ, List.cons_append, ← inductionHypothesis skipped,
      Decidable.not_not.mp isZero]

theorem eq_of_copyBytes {len : Nat} {input bytes rest : List UInt8}
    (copied : abiParserCopyBytes len input = .ok (bytes, rest)) :
    input = bytes ++ rest ∧ bytes.length = len := by
  induction len generalizing input bytes with
  | zero =>
    cases copied
    exact ⟨rfl, rfl⟩
  | succ len inductionHypothesis =>
    cases input with
    | nil => cases copied
    | cons byte input =>
      obtain ⟨⟨copiedBytes, left⟩, copiedRest, isPair⟩ := bind_eq_ok.mp copied
      cases isPair
      obtain ⟨rfl, rfl⟩ := inductionHypothesis copiedRest
      exact ⟨rfl, rfl⟩

theorem eq_of_copyBytesThenSkip {copyLen skipLen : Nat} {input bytes rest : List UInt8}
    (copied : abiParserCopyBytesThenSkip copyLen skipLen input = .ok (bytes, rest)) :
    input = bytes ++ (List.replicate skipLen 0 ++ rest) ∧ bytes.length = copyLen := by
  obtain ⟨⟨_, left⟩, copies, skips⟩ := bind_eq_ok.mp copied
  obtain ⟨rest', skipped, isPair⟩ := bind_eq_ok.mp skips
  cases isPair
  obtain ⟨rfl, isLength⟩ := eq_of_copyBytes copies
  rw [eq_of_skipPadding skipped]
  exact ⟨rfl, isLength⟩

theorem le_length_of_parseLoop {width : Nat} {res val : BitVec width} {i : Nat} {input rest : List UInt8}
    (parsed : parsePrimitiveIntLoop res i input = .ok (val, rest)) : i ≤ input.length := by
  induction i generalizing res input with
  | zero => exact Nat.zero_le _
  | succ i inductionHypothesis =>
    cases input with
    | nil => cases parsed
    | cons byte input => exact Nat.succ_le_succ (inductionHypothesis parsed)

/-- The bytes that are read are the digits of a number. -/
theorem eq_of_parseLoop {width : Nat} {res val : BitVec width} {i : Nat} {input rest : List UInt8}
    (parsed : parsePrimitiveIntLoop res i input = .ok (val, rest)) :
    ∃ n < 256 ^ i, input = BigEndian.digits i n ++ rest ∧ val = res ||| BitVec.ofNat width n := by
  have enough := le_length_of_parseLoop parsed
  have isLength : (input.take i).length = i := List.length_take_of_le enough
  have bound := BigEndian.value_lt (input.take i)
  have digits := BigEndian.digits_value (input.take i)
  rw [isLength] at bound digits
  have isInput : input = BigEndian.digits i (BigEndian.value (input.take i)) ++ input.drop i := by
    rw [digits, List.take_append_drop]
  rw [isInput, parsePrimitiveIntLoop_digits, Nat.mod_eq_of_lt bound] at parsed
  cases parsed
  exact ⟨_, bound, isInput, rfl⟩

/-! ## Types without tails -/

namespace AbiCodecImpl

theorem eq_of_integerToPrimitive {type : RealNumType} {input rest : List UInt8}
    {val : BitVec (8 * type.consumedSize)} {chunkConsumed : UInt64}
    (parsed : integerToPrimitive type input = .ok (val, rest, chunkConsumed)) :
    input = encodeNat val.toNat ++ rest ∧ chunkConsumed = 1 := by
  obtain ⟨input', skipped, parses⟩ := bind_eq_ok.mp parsed
  obtain ⟨⟨res, left⟩, looped, isTriple⟩ := bind_eq_ok.mp parses
  cases isTriple
  obtain ⟨n, small, rfl, isVal⟩ := eq_of_parseLoop looped
  have lead : 32 = 32 - type.consumedSize + type.consumedSize := by
    have within := type.consumedSize_le
    omega
  have isNumber : val.toNat = n := by
    have isDigits : val = BitVec.ofNat (8 * type.consumedSize) n := by simpa using isVal
    rw [isDigits, BitVec.toNat_ofNat, Nat.mod_eq_of_lt]
    rwa [Nat.pow_mul]
  refine ⟨?_, rfl⟩
  rw [isNumber, encodeNat]
  nth_rewrite 1 [lead]
  rw [BigEndian.digits_add small, List.append_assoc]
  exact eq_of_skipPadding skipped

theorem eq_of_sizeToPrimitive {input rest : List UInt8} {size chunkConsumed : UInt64}
    (parsed : sizeToPrimitive input = .ok (size, rest, chunkConsumed)) :
    input = encodeNat size.toNat ++ rest ∧ chunkConsumed = 1 := by
  obtain ⟨⟨val, left, consumed⟩, parses, isTriple⟩ := bind_eq_ok.mp parsed
  cases isTriple
  exact eq_of_integerToPrimitive parses

theorem eq_of_boolToPrimitive {input rest : List UInt8} {val : Bool} {chunkConsumed : UInt64}
    (parsed : boolToPrimitive input = .ok (val, rest, chunkConsumed)) :
    input = encodeNat val.toNat ++ rest := by
  obtain ⟨⟨valInt, left, consumed⟩, parses, isBool⟩ := bind_eq_ok.mp parsed
  have read := (eq_of_integerToPrimitive parses).1
  dsimp only at isBool
  split at isBool
  next isOne =>
    cases isBool
    rw [isOne] at read
    exact read
  next =>
    split at isBool
    next isZero =>
      cases isBool
      rw [isZero] at read
      exact read
    next => cases isBool

theorem eq_of_bytesToPrimitive {size : Nat} {input val rest : List UInt8} {chunkConsumed : UInt64}
    (parsed : bytesToPrimitive size input = .ok (val, rest, chunkConsumed)) :
    input = encodeFixedBytes val ++ rest ∧ val.length = size := by
  obtain ⟨⟨res, left⟩, copied, isTriple⟩ := bind_eq_ok.mp parsed
  cases isTriple
  obtain ⟨rfl, rfl⟩ := eq_of_copyBytesThenSkip copied
  exact ⟨by rw [encodeFixedBytes, List.append_assoc], rfl⟩

/-! ## Byte strings -/

/-- The number of chunks for a length is not too small. -/
def RoundsUp (len : UInt64) : Prop := len.toNat ≤ 32 * (abiCeilingDiv len chunkSize).toNat

instance (len : UInt64) : Decidable (RoundsUp len) := inferInstanceAs (Decidable (_ ≤ _))

theorem toNat_abiCeilingDiv (len : UInt64) :
    (abiCeilingDiv len chunkSize).toNat = (len.toNat + 31) % 2 ^ 64 / 32 := by
  simp [abiCeilingDiv, chunkSize]

theorem roundsUp_iff (len : UInt64) : RoundsUp len ↔ len.toNat ≤ 2 ^ 64 - 32 := by
  have small := len.toNat_lt
  rw [RoundsUp, toNat_abiCeilingDiv]
  omega

theorem paddingSize_of_le {len : UInt64} (le : len.toNat ≤ 2 ^ 64 - 32) :
    (abiCeilingDiv len chunkSize * chunkSize - len).toNat = (32 - len.toNat % 32) % 32 := by
  have chunks := toNat_abiCeilingDiv len
  rw [UInt64.toNat_sub, UInt64.toNat_mul, chunks]
  simp only [chunkSize]
  change (2 ^ 64 - len.toNat + (len.toNat + 31) % 2 ^ 64 / 32 * 32 % 2 ^ 64) % 2 ^ 64 = _
  omega

theorem eq_of_dynBytesToPrimitive {input val rest : List UInt8} {chunkConsumed : UInt64}
    (fits : input.length < 2 ^ 63)
    (parsed : dynBytesToPrimitive input = .ok (val, rest, chunkConsumed)) :
    input = encodeBytes val ++ rest := by
  obtain ⟨⟨len, input', consumed⟩, sized, copies⟩ := bind_eq_ok.mp parsed
  obtain ⟨⟨res, left⟩, copied, isTriple⟩ := bind_eq_ok.mp copies
  cases isTriple
  obtain ⟨rfl, _⟩ := eq_of_sizeToPrimitive sized
  obtain ⟨isInput, isLength⟩ := eq_of_copyBytesThenSkip copied
  have noWrap : len.toNat ≤ 2 ^ 64 - 32 := by
    have lengths := congrArg List.length isInput
    simp only [List.length_append] at lengths fits
    omega
  rw [paddingSize_of_le noWrap, ← isLength] at isInput
  rw [encodeBytes, isInput, isLength, List.append_assoc, List.append_assoc]

/-- A length whose rounding wraps is longer than the input. -/
theorem dynBytesToPrimitive_of_wraps {input rest : List UInt8} {len chunkConsumed : UInt64}
    (fits : input.length < 2 ^ 63) (sized : sizeToPrimitive input = .ok (len, rest, chunkConsumed))
    (wraps : ¬ RoundsUp len) : ∃ error, dynBytesToPrimitive input = .error error := by
  cases result : dynBytesToPrimitive input with
  | error error => exact ⟨error, rfl⟩
  | ok parsed =>
    obtain ⟨⟨len', input', consumed⟩, sized', copies⟩ := bind_eq_ok.mp result
    cases sized.symm.trans sized'
    obtain ⟨⟨res, left⟩, copied, _⟩ := bind_eq_ok.mp copies
    obtain ⟨rfl, isLength⟩ := eq_of_copyBytesThenSkip copied
    obtain ⟨rfl, _⟩ := eq_of_sizeToPrimitive sized
    rw [roundsUp_iff] at wraps
    simp only [List.length_append, isLength] at fits
    omega

/-! ## Arrays -/

section

variable {Primitive : Type} {itemToPrimitive : List UInt8 → Except String (AbiParsed Primitive)}
  {encodeItem : Primitive → List UInt8} {valid : Primitive → Prop}

/-- A codec reads an encoding of what it returns, and counts its chunks. -/
def Sound (itemToPrimitive : List UInt8 → Except String (AbiParsed Primitive))
    (encodeItem : Primitive → List UInt8) (valid : Primitive → Prop) : Prop :=
  ∀ input, input.length < 2 ^ 63 → ∀ val rest chunkConsumed,
    itemToPrimitive input = .ok (val, rest, chunkConsumed) →
      valid val ∧ 32 ∣ (encodeItem val).length ∧ input = encodeItem val ++ rest ∧
        chunkConsumed = chunks (encodeItem val)

theorem sound_sizeToPrimitive : Sound sizeToPrimitive (fun size => encodeNat size.toNat) fun _ => True := by
  intro input fits val rest chunkConsumed parsed
  obtain ⟨rfl, rfl⟩ := eq_of_sizeToPrimitive parsed
  refine ⟨trivial, by simp, rfl, ?_⟩
  simp [chunks]

theorem eq_of_headsToPrimitive (sound : Sound itemToPrimitive encodeItem valid) (size : Nat)
    {input rest : List UInt8} {vals : List Primitive} {consumed total : UInt64}
    (fits : input.length < 2 ^ 63)
    (parsed : headsToPrimitive itemToPrimitive size input consumed = .ok (vals, rest, total)) :
    vals.length = size ∧ (∀ val ∈ vals, valid val) ∧ (∀ val ∈ vals, 32 ∣ (encodeItem val).length) ∧
      input = vals.flatMap encodeItem ++ rest ∧ total = consumed + chunks (vals.flatMap encodeItem) := by
  induction size generalizing input vals consumed with
  | zero =>
    cases parsed
    simp [chunks]
  | succ size inductionHypothesis =>
    obtain ⟨⟨item, input', chunkConsumed⟩, parsedItem, parses⟩ := bind_eq_ok.mp parsed
    obtain ⟨⟨res, left, total'⟩, parsedRest, isTriple⟩ := bind_eq_ok.mp parses
    cases isTriple
    obtain ⟨isValid, aligned, rfl, rfl⟩ := sound input fits _ _ _ parsedItem
    rw [List.length_append] at fits
    obtain ⟨isSize, allValid, allAligned, rfl, rfl⟩ := inductionHypothesis (by omega) parsedRest
    refine ⟨by rw [List.length_cons, isSize], ?_, ?_, ?_, ?_⟩
    · exact List.forall_mem_cons.mpr ⟨isValid, allValid⟩
    · exact List.forall_mem_cons.mpr ⟨aligned, allAligned⟩
    · rw [List.flatMap_cons, List.append_assoc]
    · rw [List.flatMap_cons, chunks_append aligned, UInt64.add_assoc]

/-- Each offset is the place where its tail was read. -/
theorem eq_of_tailsToPrimitive (sound : Sound itemToPrimitive encodeItem valid) (heads : List UInt64)
    {input rest : List UInt8} {vals : List Primitive} {consumed : Nat} {total : UInt64}
    (fits : 32 * consumed + input.length < 2 ^ 63)
    (parsed : tailsToPrimitive itemToPrimitive heads input (UInt64.ofNat consumed) =
      .ok (vals, rest, total)) :
    heads.map UInt64.toNat = offsets encodeItem (32 * consumed) vals ∧ (∀ val ∈ vals, valid val) ∧
      (∀ val ∈ vals, 32 ∣ (encodeItem val).length) ∧ input = vals.flatMap encodeItem ++ rest ∧
      total = UInt64.ofNat consumed + chunks (vals.flatMap encodeItem) := by
  induction heads generalizing input vals consumed with
  | nil =>
    cases parsed
    simp [offsets, chunks]
  | cons head heads inductionHypothesis =>
    rw [tailsToPrimitive] at parsed
    split at parsed
    next => cases parsed
    next isOffset =>
      obtain ⟨⟨item, input', chunkConsumed⟩, parsedItem, parses⟩ := bind_eq_ok.mp parsed
      obtain ⟨⟨res, left, total'⟩, parsedRest, isTriple⟩ := bind_eq_ok.mp parses
      cases isTriple
      obtain ⟨isValid, aligned, rfl, rfl⟩ := sound input (by omega) _ _ _ parsedItem
      have next : UInt64.ofNat consumed + chunks (encodeItem item) =
          UInt64.ofNat (consumed + (encodeItem item).length / 32) := (UInt64.ofNat_add _ _).symm
      have place : 32 * (consumed + (encodeItem item).length / 32) =
          32 * consumed + (encodeItem item).length := by omega
      rw [next] at parsedRest
      rw [List.length_append] at fits
      obtain ⟨areOffsets, allValid, allAligned, rfl, rfl⟩ := inductionHypothesis (by omega) parsedRest
      have isPlace : head.toNat = 32 * consumed := by
        have small : consumed < 2 ^ 64 := by omega
        rw [Decidable.not_not.mp isOffset, UInt64.toNat_mul, UInt64.toNat_ofNat_of_lt' small]
        change consumed * 32 % 2 ^ 64 = _
        omega
      refine ⟨?_, ?_, ?_, ?_, ?_⟩
      · rw [List.map_cons, offsets, isPlace, areOffsets, place]
      · exact List.forall_mem_cons.mpr ⟨isValid, allValid⟩
      · exact List.forall_mem_cons.mpr ⟨aligned, allAligned⟩
      · rw [List.flatMap_cons, List.append_assoc]
      · rw [List.flatMap_cons, chunks_append aligned, ← next, UInt64.add_assoc]

theorem sound_listToPrimitive (sound : Sound itemToPrimitive encodeItem valid) (itemHasTail : Bool)
    (size : UInt64) : Sound (listToPrimitive itemToPrimitive itemHasTail size)
      (fun vals => encodeParts (items itemHasTail encodeItem vals))
      fun vals => vals.length = size.toNat ∧ ∀ val ∈ vals, valid val := by
  intro input fits vals rest chunkConsumed parsed
  cases itemHasTail with
  | false =>
    obtain ⟨isSize, allValid, allAligned, isInput, isTotal⟩ :=
      eq_of_headsToPrimitive sound size.toNat fits parsed
    refine ⟨⟨isSize, allValid⟩, dvd_length_items allAligned, ?_, ?_⟩
    · simpa only [encodeParts_static] using isInput
    · simp only [encodeParts_static, isTotal, UInt64.zero_add]
  | true =>
    obtain ⟨⟨heads, input', consumed⟩, parsedHeads, parsedTails⟩ := bind_eq_ok.mp parsed
    obtain ⟨isSize, _, _, rfl, rfl⟩ :=
      eq_of_headsToPrimitive sound_sizeToPrimitive size.toNat fits parsedHeads
    have isFlat : heads.flatMap (fun size => encodeNat size.toNat) =
        (heads.map UInt64.toNat).flatMap encodeNat := by rw [List.flatMap_map]
    have headsLength : (heads.flatMap fun size => encodeNat size.toNat).length = 32 * heads.length := by
      rw [isFlat, length_flatMap_encodeNat, List.length_map]
    have headChunks : 0 + chunks (heads.flatMap fun size => encodeNat size.toNat) =
        UInt64.ofNat heads.length := by
      rw [UInt64.zero_add, chunks, headsLength, Nat.mul_div_cancel_left _ (by decide)]
    rw [List.length_append, headsLength] at fits
    dsimp only at parsedTails
    rw [headChunks] at parsedTails
    obtain ⟨areOffsets, allValid, allAligned, rfl, rfl⟩ :=
      eq_of_tailsToPrimitive sound heads fits parsedTails
    have sameLength : vals.length = heads.length := by
      have lengths := congrArg List.length areOffsets
      rwa [List.length_map, length_offsets, eq_comm] at lengths
    refine ⟨⟨sameLength.trans isSize, allValid⟩, dvd_length_items allAligned, ?_, ?_⟩
    · simp only [encodeParts_dynamic, sameLength, ← areOffsets, isFlat, List.append_assoc]
    · simp only [encodeParts_dynamic, sameLength, ← areOffsets, ← isFlat,
        chunks_append ⟨heads.length, headsLength⟩, ← headChunks, UInt64.zero_add]

theorem sound_dynListToPrimitive (sound : Sound itemToPrimitive encodeItem valid) (itemHasTail : Bool) :
    Sound (dynListToPrimitive itemToPrimitive itemHasTail)
      (fun vals => encodeNat vals.length ++ encodeParts (items itemHasTail encodeItem vals))
      fun vals => vals.length < 2 ^ 64 ∧ ∀ val ∈ vals, valid val := by
  intro input fits vals rest chunkConsumed parsed
  obtain ⟨⟨len, input', consumed⟩, sized, parses⟩ := bind_eq_ok.mp parsed
  obtain ⟨⟨res, left, consumed'⟩, parsedList, isTriple⟩ := bind_eq_ok.mp parses
  cases isTriple
  obtain ⟨_, _, rfl, rfl⟩ := sound_sizeToPrimitive input fits _ _ _ sized
  rw [List.length_append] at fits
  obtain ⟨⟨isSize, allValid⟩, aligned, rfl, rfl⟩ :=
    sound_listToPrimitive sound itemHasTail len input' (by omega) _ _ _ parsedList
  refine ⟨⟨isSize ▸ len.toNat_lt, allValid⟩, ?_, ?_, ?_⟩
  · rw [List.length_append, length_encodeNat]
    exact Nat.dvd_add (Nat.dvd_refl 32) aligned
  · simp only [isSize, List.append_assoc]
  · simp only [isSize, chunks_append (show 32 ∣ (encodeNat len.toNat).length by simp)]

end

end AbiCodecImpl

/-! ## All types -/

namespace AbiParser

open AbiCodecImpl

theorem length_le_encodeBytes (val : List UInt8) : val.length ≤ (encodeBytes val).length := by
  simp only [encodeBytes, List.length_append]
  omega

/-- A codec that reads encodings accepts nothing but encodings: the rest of what it returns is known. -/
theorem sound_of_accepts {parser : AbiParser}
    (accepts : ∀ input, input.length < 2 ^ 63 → ∀ val rest chunkConsumed,
      parser.codecToPrimitive input = .ok (val, rest, chunkConsumed) →
        HasType (2 ^ 64) parser.type val ∧ input = encode parser.type val ++ rest) :
    Sound parser.codecToPrimitive (encode parser.type) (HasType (2 ^ 64) parser.type) := by
  intro input fits val rest chunkConsumed parsed
  obtain ⟨hasType, rfl⟩ := accepts input fits val rest chunkConsumed parsed
  rw [List.length_append] at fits
  have read := readsType parser val hasType (by omega) rest
  cases parsed.symm.trans read
  exact ⟨hasType, dvd_length_encode hasType, rfl, rfl⟩

theorem sound_codecToPrimitive (parser : AbiParser) :
    Sound parser.codecToPrimitive (encode parser.type) (HasType (2 ^ 64) parser.type) := by
  induction parser with
  | integer type =>
    exact sound_of_accepts fun input _ val rest _ parsed =>
      ⟨trivial, (eq_of_integerToPrimitive parsed).1⟩
  | bool =>
    exact sound_of_accepts fun input _ val rest _ parsed => ⟨trivial, eq_of_boolToPrimitive parsed⟩
  | fixedBytes size within =>
    exact sound_of_accepts fun input _ val rest _ parsed =>
      (eq_of_bytesToPrimitive parsed).symm
  | bytes =>
    apply sound_of_accepts
    intro input fits val rest _ parsed
    have isInput := eq_of_dynBytesToPrimitive fits parsed
    refine ⟨?_, isInput⟩
    have inside := length_le_encodeBytes val
    rw [isInput, List.length_append] at fits
    change List.length val < 2 ^ 64
    omega
  | list item size inductionHypothesis =>
    have sound := sound_listToPrimitive inductionHypothesis item.hasTail size
    rw [hasTail_eq_dynamic] at sound
    have isCodec : (list item size).codecToPrimitive =
        listToPrimitive item.codecToPrimitive item.type.dynamic size := by
      rw [← hasTail_eq_dynamic]
      rfl
    rw [isCodec]
    exact sound
  | dynList item inductionHypothesis =>
    have sound := sound_dynListToPrimitive inductionHypothesis item.hasTail
    rw [hasTail_eq_dynamic] at sound
    have isCodec : (dynList item).codecToPrimitive =
        dynListToPrimitive item.codecToPrimitive item.type.dynamic := by
      rw [← hasTail_eq_dynamic]
      rfl
    rw [isCodec]
    exact sound

/-- Each length of a byte string in the value has been rounded up to enough chunks. -/
def LengthsExact : (type : Ty) → type.Value → Prop
  | .uint _ _, _ => True
  | .bool, _ => True
  | .fixedBytes _ _, _ => True
  | .bytes, (val : List UInt8) => RoundsUp (UInt64.ofNat val.length)
  | .array item _, (vals : List item.Value) => ∀ val ∈ vals, LengthsExact item val
  | .dynArray item, (vals : List item.Value) => ∀ val ∈ vals, LengthsExact item val

theorem lengthsExact_of_fits {type : Ty} {val : type.Value} (fits : (encode type val).length < 2 ^ 63) :
    LengthsExact type val := by
  induction type with
  | uint size within => trivial
  | bool => trivial
  | fixedBytes size within => trivial
  | bytes =>
    have inside := length_le_encodeBytes val
    change (encodeBytes val).length < 2 ^ 63 at fits
    apply (roundsUp_iff _).mpr
    rw [UInt64.toNat_ofNat_of_lt' (show List.length val < 2 ^ 64 by omega)]
    omega
  | array item size inductionHypothesis =>
    exact fun val present => inductionHypothesis ((length_item_le present).trans_lt fits)
  | dynArray item inductionHypothesis =>
    change (encodeNat (List.length val) ++ encodeParts _).length < 2 ^ 63 at fits
    rw [List.length_append] at fits
    intro val present
    apply inductionHypothesis
    have inItems := @length_item_le _ item.dynamic (encode item) _ _ present
    omega

end AbiParser

/-! ## Untrusted input -/

section

variable {Primitive : Type} {tailToPrimitive : List UInt8 → Except String (AbiParsed Primitive)}
  {encodeItem : Primitive → List UInt8} {valid : Primitive → Prop}

open AbiCodecImpl

/-- The head of an argument is an offset inside of the input, and its tail is read there. -/
theorem eq_of_headTailToPrimitive (sound : Sound tailToPrimitive encodeItem valid) {input : List UInt8}
    (fits : input.length < 2 ^ 63) {begin blockBegin headEnd : Nat} {val : Primitive}
    (parsed : headTailToPrimitive tailToPrimitive input begin blockBegin = .ok (val, headEnd)) :
    ∃ offset, headEnd = begin + 32 ∧ headEnd ≤ input.length ∧
      (input.drop begin).take 32 = encodeNat offset ∧ blockBegin + offset ≤ input.length ∧
      encodeItem val <+: input.drop (blockBegin + offset) := by
  obtain ⟨⟨offset, left, _⟩, sized, parses⟩ := bind_eq_ok.mp parsed
  have isHead := (eq_of_sizeToPrimitive sized).1
  have lengths := congrArg List.length isHead
  rw [List.length_append, length_encodeNat, List.length_drop] at lengths
  dsimp only at parses
  split at parses
  next => cases parses
  next notBehind =>
    split at parses
    next => cases parses
    next inside =>
      obtain ⟨⟨res, left', _⟩, parsedTail, isPair⟩ := bind_eq_ok.mp parses
      cases isPair
      have tailFits : (input.drop (blockBegin + offset.toNat)).length < 2 ^ 63 := by
        rw [List.length_drop]
        omega
      obtain ⟨_, _, isTail, _⟩ := sound _ tailFits _ _ _ parsedTail
      refine ⟨offset.toNat, by omega, by omega, ?_, by omega, ?_⟩
      · rw [isHead, List.take_left' (length_encodeNat _)]
      · rw [isTail]
        exact List.prefix_append _ _

end

/-- For every input and every parser: what the codec returns re-encodes to exactly the bytes that it reports
    as consumed, what the parser of a type with a tail returns has its encoding inside of the input, and
    where the rounding of a length wraps the decoding throws. -/
theorem abi_soundness (parser : AbiParser) (input : List UInt8) (fits : input.length < 2 ^ 63) :
    (∀ val rest chunkConsumed, parser.codecToPrimitive input = .ok (val, rest, chunkConsumed) →
      input = encode parser.type val ++ rest ∧
      32 * chunkConsumed.toNat = (encode parser.type val).length ∧
      AbiParser.LengthsExact parser.type val) ∧
    (parser.hasTail = true → ∀ begin blockBegin val headEnd,
      parser.toPrimitive input begin blockBegin = .ok (val, headEnd) →
        ∃ offset, headEnd = begin + 32 ∧ headEnd ≤ input.length ∧
          (input.drop begin).take 32 = encodeNat offset ∧ blockBegin + offset ≤ input.length ∧
          encode parser.type val <+: input.drop (blockBegin + offset) ∧
          AbiParser.LengthsExact parser.type val) ∧
    ∀ len rest chunkConsumed, AbiCodecImpl.sizeToPrimitive input = .ok (len, rest, chunkConsumed) →
      ¬ AbiCodecImpl.RoundsUp len → ∃ error, AbiParser.bytes.codecToPrimitive input = .error error := by
  have sound := parser.sound_codecToPrimitive
  refine ⟨?_, ?_, ?_⟩
  · intro val rest chunkConsumed parsed
    obtain ⟨_, aligned, isInput, isCount⟩ := sound input fits val rest chunkConsumed parsed
    have inside := congrArg List.length isInput
    rw [List.length_append] at inside
    refine ⟨isInput, ?_, AbiParser.lengthsExact_of_fits (by omega)⟩
    rw [isCount, chunks, UInt64.toNat_ofNat_of_lt' (by change _ < 2 ^ 64; omega)]
    exact Nat.mul_div_cancel' aligned
  · intro hasTail begin blockBegin val headEnd parsed
    rw [AbiParser.toPrimitive, if_pos hasTail] at parsed
    obtain ⟨offset, isEnd, endInside, isOffset, tailInside, isPrefix⟩ :=
      eq_of_headTailToPrimitive sound fits parsed
    have shorter := isPrefix.length_le
    rw [List.length_drop] at shorter
    exact ⟨offset, isEnd, endInside, isOffset, tailInside, isPrefix,
      AbiParser.lengthsExact_of_fits (by omega)⟩
  · exact fun len rest chunkConsumed sized wraps =>
      AbiCodecImpl.dynBytesToPrimitive_of_wraps fits sized wraps

/-- A byte string of two bytes behind its offset. -/
def twoBytesInput : List UInt8 := encodeNat 32 ++ encodeBytes [0x61, 0x62]

theorem abi_soundness_two_bytes :
    AbiParser.bytes.toPrimitive twoBytesInput 0 0 = .ok ([0x61, 0x62], 32) ∧
      ∃ offset, 0 + offset ≤ twoBytesInput.length ∧
        encodeBytes [0x61, 0x62] <+: twoBytesInput.drop (0 + offset) := by
  have parsed : headTailToPrimitive AbiCodecImpl.dynBytesToPrimitive twoBytesInput 0 0 =
      .ok (([0x61, 0x62] : List UInt8), 32) :=
    eq_ok_of_toOption (by decide +kernel)
  obtain ⟨_, arguments, _⟩ := abi_soundness .bytes twoBytesInput (by decide +kernel)
  obtain ⟨offset, _, _, _, inside, isPrefix, _⟩ := arguments rfl 0 0 [0x61, 0x62] 32 parsed
  exact ⟨parsed, offset, inside, isPrefix⟩

/-- The chunk with the length `2 ^ 64 - 1`. -/
def largestLength : List UInt8 := List.replicate 24 0 ++ List.replicate 8 0xFF

/-- The number of chunks for the largest length wraps to none. -/
theorem length_arithmetic_wraps :
    AbiCodecImpl.sizeToPrimitive largestLength = .ok (0xFFFFFFFFFFFFFFFF, [], 1) ∧
      abiCeilingDiv 0xFFFFFFFFFFFFFFFF chunkSize = 0 ∧ ¬ AbiCodecImpl.RoundsUp 0xFFFFFFFFFFFFFFFF :=
  ⟨eq_ok_of_toOption (by decide +kernel), by decide +kernel, by decide +kernel⟩

end Decentagram.Eth
