import Decentagram.RaOnchain.BytesMemory
import Decentagram.SimpleObjects.Base64

/-! # Base64 in the memory of a contract

The contract decodes with words: every character is looked up with a load that ends at its entry of the
table, and three bytes are written with a store that reaches over them.  Gas bounds what is allocated, so
addresses do not wrap around.
-/

namespace Decentagram.RaOnchain.Base64

open Decentagram.Lib BytesUtils BigEndian WordMemory

def tableDecode : Bytes :=
  [0x00, 0x00, 0x00, 0x00, 0x00, 0x00, 0x00, 0x00, 0x00, 0x00, 0x00, 0x00, 0x00, 0x00, 0x00, 0x00,
   0x00, 0x00, 0x00, 0x00, 0x00, 0x00, 0x00, 0x00, 0x00, 0x00, 0x00, 0x00, 0x00, 0x00, 0x00, 0x00,
   0x00, 0x00, 0x00, 0x00, 0x00, 0x00, 0x00, 0x00, 0x00, 0x00, 0x00, 0x3e, 0x00, 0x00, 0x00, 0x3f,
   0x34, 0x35, 0x36, 0x37, 0x38, 0x39, 0x3a, 0x3b, 0x3c, 0x3d, 0x00, 0x00, 0x00, 0x00, 0x00, 0x00,
   0x00, 0x00, 0x01, 0x02, 0x03, 0x04, 0x05, 0x06, 0x07, 0x08, 0x09, 0x0a, 0x0b, 0x0c, 0x0d, 0x0e,
   0x0f, 0x10, 0x11, 0x12, 0x13, 0x14, 0x15, 0x16, 0x17, 0x18, 0x19, 0x00, 0x00, 0x00, 0x00, 0x00,
   0x00, 0x1a, 0x1b, 0x1c, 0x1d, 0x1e, 0x1f, 0x20, 0x21, 0x22, 0x23, 0x24, 0x25, 0x26, 0x27, 0x28,
   0x29, 0x2a, 0x2b, 0x2c, 0x2d, 0x2e, 0x2f, 0x30, 0x31, 0x32, 0x33, 0x00, 0x00, 0x00, 0x00, 0x00]

/-- `and(mload(add(tablePtr, and(shr(bits, input), 0xFF))), 0xFF)`. -/
def lookUp (memory : Memory) (tablePtr input bits : Nat) : Nat :=
  load memory (tablePtr + input / 2 ^ bits % 256) % 256

def output (memory : Memory) (tablePtr input : Nat) : Nat :=
  lookUp memory tablePtr input 24 * 2 ^ 18 + lookUp memory tablePtr input 16 * 2 ^ 12 +
    (lookUp memory tablePtr input 8 * 2 ^ 6 + lookUp memory tablePtr input 0)

def decodeLoop (tablePtr endPtr dataPtr resultPtr : Nat) (memory : Memory) : Memory :=
  if dataPtr < endPtr then
    let input := load memory (dataPtr + 4)
    decodeLoop tablePtr endPtr (dataPtr + 4) (resultPtr + 3)
      (store memory resultPtr (output memory tablePtr input * 2 ^ 232))
  else memory
termination_by endPtr - dataPtr

/-- The bytes that the padding takes off the end. -/
def padding (lastBytes : Nat) : Nat :=
  if lastBytes % 256 = 0x3d then if lastBytes % 65536 = 0x3d3d then 2 else 1 else 0

/-- The memory afterwards, and where the result is in it. -/
def decode (memory : Memory) (free data : Nat) : Except Revert (Memory × Nat) := do
  let length := load memory data
  if length = 0 then
    return (newBytes memory free 0, free)
  else
    require (length % 4 = 0) "invalid base64 decoder input"
    let memory := storeBytes (store memory free 128) (free + 32) tableDecode
    let result := free + 160
    let decodedLen := length / 4 * 3
    let memory := newBytes memory result (decodedLen + 32)
    let memory := store memory result (decodedLen - padding (load memory (data + length)))
    return (decodeLoop (free + 1) (data + length) data (result + 32) memory, result)

/-! ## Groups of four characters -/

/-- What the table has for a character; one outside the alphabet counts like the first letter. -/
def sextet (ch : UInt8) : Nat := (tableDecode.getD ch.toNat 0).toNat

def group (ch1 ch2 ch3 ch4 : UInt8) : Nat :=
  sextet ch1 * 2 ^ 18 + sextet ch2 * 2 ^ 12 + (sextet ch3 * 2 ^ 6 + sextet ch4)

def groups : Bytes → Bytes
  | ch1 :: ch2 :: ch3 :: ch4 :: rest => digits 3 (group ch1 ch2 ch3 ch4) ++ groups rest
  | _ => []

variable {memory : Memory} {tablePtr dataPtr resultPtr free data : Nat} {text : Bytes}

theorem length_groups (text : Bytes) : (groups text).length = text.length / 4 * 3 := by
  induction text using groups.induct with
  | case1 ch1 ch2 ch3 ch4 rest inductionHypothesis =>
    simp only [groups, List.length_append, length_digits, inductionHypothesis, List.length_cons]
    omega
  | case2 text short =>
    have few : text.length < 4 := by
      by_contra enough
      match text, enough with
      | ch1 :: ch2 :: ch3 :: ch4 :: rest, _ => exact short ch1 ch2 ch3 ch4 rest rfl
      | [], enough | [_], enough | [_, _], enough | [_, _, _], enough => simp at enough
    rw [groups, Nat.div_eq_of_lt few]
    · rfl
    · exact short

/-- The load that ends at the entry of a character. -/
theorem lookUp_eq {input bits : Nat} {ch : UInt8} (isTable : bytesAt memory (tablePtr + 31) 128 = tableDecode)
    (ascii : ch.toNat < 128) (isChar : input / 2 ^ bits % 256 = ch.toNat) :
    lookUp memory tablePtr input bits = sextet ch := by
  have entry := @getElem?_bytesAt memory (tablePtr + 31) _ _ ascii
  rw [isTable] at entry
  have lowest := @load_mod memory (tablePtr + ch.toNat) 1 (by decide)
  have place : tablePtr + ch.toNat + (32 - 1) = tablePtr + 31 + ch.toNat := by omega
  rw [Nat.pow_one, bytesAt_one, place] at lowest
  rw [lookUp, isChar, lowest, sextet, List.getD_eq_getElem?_getD, entry]
  simp

/-- The four characters in the lowest bytes of a word. -/
theorem output_eq {ch1 ch2 ch3 ch4 : UInt8} (isTable : bytesAt memory (tablePtr + 31) 128 = tableDecode)
    (isText : bytesAt memory (dataPtr + 32) 4 = [ch1, ch2, ch3, ch4])
    (ascii : ∀ ch ∈ [ch1, ch2, ch3, ch4], ch.toNat < 128) :
    output memory tablePtr (load memory (dataPtr + 4)) = group ch1 ch2 ch3 ch4 := by
  have lowest := @load_mod memory (dataPtr + 4) 4 (by decide)
  have place : dataPtr + 4 + (32 - 4) = dataPtr + 32 := by omega
  rw [place, isText] at lowest
  simp only [value_cons, value_nil, List.length_cons, List.length_nil] at lowest
  simp only [List.mem_cons, List.not_mem_nil, or_false, forall_eq_or_imp, forall_eq] at ascii
  obtain ⟨ascii1, ascii2, ascii3, ascii4⟩ := ascii
  generalize load memory (dataPtr + 4) = input at lowest
  rw [output, lookUp_eq isTable ascii1 (by omega), lookUp_eq isTable ascii2 (by omega),
    lookUp_eq isTable ascii3 (by omega), lookUp_eq isTable ascii4 (by omega), group]

/-- Three bytes of a group are written, and nothing before them. -/
theorem store_group (memory : Memory) (resultPtr n : Nat) :
    bytesAt (store memory resultPtr (n * 2 ^ 232)) resultPtr 3 = digits 3 n ∧
      ∀ place < resultPtr, store memory resultPtr (n * 2 ^ 232) place = memory place := by
  obtain ⟨rest, isWord⟩ : ∃ rest, digits 32 (n * 2 ^ 232) = digits 3 n ++ rest := by
    refine ⟨List.replicate 29 0, eq_of_value_eq (by simp) ?_⟩
    have zeros : value (List.replicate 29 0) = 0 := by decide
    rw [value_append, value_digits, value_digits, List.length_replicate, zeros]
    omega
  rw [store, isWord]
  refine ⟨?_, fun place isBefore => storeBytes_outside (.inl isBefore)⟩
  have written := @bytesAt_storeBytes_append memory resultPtr (digits 3 n ++ rest) [] 3 rfl (by simp)
  simpa [List.take_append_of_le_length] using written

/-! ## The loop -/

/-- The groups are written one after another, with at most a word of zeros behind the last. -/
theorem decodeLoop_spec (whole : text.length % 4 = 0) (ascii : ∀ ch ∈ text, ch.toNat < 128)
    (isTable : bytesAt memory (tablePtr + 31) 128 = tableDecode)
    (isText : bytesAt memory (dataPtr + 32) text.length = text)
    (tableBefore : tablePtr + 159 ≤ resultPtr) (textBefore : dataPtr + 32 + text.length ≤ resultPtr) :
    let memory' := decodeLoop tablePtr (dataPtr + text.length) dataPtr resultPtr memory
    bytesAt memory' resultPtr (groups text).length = groups text ∧
      ∀ place < resultPtr, memory' place = memory place := by
  induction text using groups.induct generalizing memory dataPtr resultPtr with
  | case1 ch1 ch2 ch3 ch4 rest inductionHypothesis =>
    simp only [List.length_cons] at isText textBefore whole ⊢
    have four : rest.length + 1 + 1 + 1 + 1 = 4 + rest.length := by omega
    rw [four, bytesAt_add] at isText
    obtain ⟨isGroup, isRest⟩ : bytesAt memory (dataPtr + 32) 4 = [ch1, ch2, ch3, ch4] ∧
        bytesAt memory (dataPtr + 32 + 4) rest.length = rest := by
      refine @List.append_inj _ (bytesAt memory (dataPtr + 32) 4) [ch1, ch2, ch3, ch4] _ _ ?_ ?_
      · exact isText
      · simp
    have isOutput := output_eq isTable isGroup fun ch isCh =>
      ascii ch (List.mem_append_left rest isCh)
    obtain ⟨written, before⟩ := store_group memory resultPtr (group ch1 ch2 ch3 ch4)
    rw [decodeLoop, if_pos (by omega)]
    simp only [isOutput]
    generalize store memory resultPtr (group ch1 ch2 ch3 ch4 * 2 ^ 232) = memory' at written before ⊢
    clear isOutput
    have rounds : dataPtr + (4 + rest.length) = dataPtr + 4 + rest.length := (Nat.add_assoc _ _ _).symm
    obtain ⟨isGroups, unchanged⟩ := @inductionHypothesis memory' (dataPtr + 4) (resultPtr + 3)
      (by omega) (fun ch isCh => ascii ch (by simp [isCh]))
      ((bytesAt_congr fun place _ isBefore => before place (by omega)).trans isTable)
      ((bytesAt_congr fun place _ isBefore => before place (by omega)).trans
        (by rwa [Nat.add_right_comm] at isRest))
      (by omega) (by omega)
    rw [four, rounds]
    refine ⟨?_, fun place isBefore => (unchanged place (by omega)).trans (before place isBefore)⟩
    rw [groups, List.length_append, length_digits, bytesAt_add, isGroups]
    have stays := @bytesAt_congr _ _ resultPtr 3 fun place _ isBefore =>
      unchanged place isBefore
    rw [stays, written]
  | case2 text short =>
    have none : text = [] := by
      match text, whole with
      | [], _ => rfl
      | ch1 :: ch2 :: ch3 :: ch4 :: rest, _ => exact absurd rfl (short ch1 ch2 ch3 ch4 rest)
    subst none
    rw [decodeLoop, if_neg (by simp)]
    exact ⟨rfl, fun _ _ => rfl⟩

/-! ## The whole text -/

/-- The padding of a text by its last two characters. -/
theorem padding_load {front : Bytes} {ch3 ch4 : UInt8}
    (isText : bytesAt memory (data + 32) (front.length + 2) = front ++ [ch3, ch4]) :
    padding (load memory (data + (front.length + 2))) =
      if ch4 = 0x3d then if ch3 = 0x3d then 2 else 1 else 0 := by
  rw [bytesAt_add] at isText
  have isEnd := (List.append_inj isText (by simp)).2
  have lowest := @load_mod memory (data + (front.length + 2)) 2
    (by decide)
  have place : data + (front.length + 2) + (32 - 2) = data + 32 + front.length := by omega
  rw [place, isEnd] at lowest
  simp only [value_cons, value_nil, List.length_cons, List.length_nil] at lowest
  have small := ch4.toNat_lt
  have small' := ch3.toNat_lt
  have last : ch4 = 0x3d ↔ ch4.toNat = 0x3d := UInt8.toNat_inj.symm
  have lastButOne : ch3 = 0x3d ↔ ch3.toNat = 0x3d := UInt8.toNat_inj.symm
  simp only [padding, last, lastButOne]
  generalize load memory (data + (front.length + 2)) = lastBytes at lowest
  repeat' split
  all_goals omega

/-- A text of characters below 128 is decoded group by group, up to its padding, and memory in use stays
    as it was. -/
theorem decode_ascii {front : Bytes} {ch3 ch4 : UInt8} (isText : text = front ++ [ch3, ch4])
    (holds : Holds memory data text) (whole : text.length % 4 = 0) (ascii : ∀ ch ∈ text, ch.toNat < 128)
    (below : data + 32 + text.length ≤ free) :
    Allocates memory free (decode memory free data) (.ok ((groups text).take
      (text.length / 4 * 3 - if ch4 = 0x3d then if ch3 = 0x3d then 2 else 1 else 0))) := by
  have isLength := holds.length
  have small := @load_lt memory data
  have nonempty : text.length ≠ 0 := by simp [isText]
  have required : require (text.length % 4 = 0) "invalid base64 decoder input" = .ok () := if_pos whole
  rw [decode, isLength, if_neg nonempty, required, ok_bind]
  rw [isLength] at small
  dsimp only
  refine ⟨_, _, rfl, Nat.le_add_right _ _, ?_⟩
  -- the table and the fresh result are behind what is in use
  generalize isTable : storeBytes (store memory free 128) (free + 32) tableDecode = memory1
  generalize isNew : newBytes memory1 (free + 160) (text.length / 4 * 3 + 32) = memory2
  have table : bytesAt memory1 (free + 32) 128 = tableDecode := by
    rw [← isTable]
    exact bytesAt_storeBytes
  have below1 (place : Nat) (isBelow : place < free) : memory1 place = memory place := by
    rw [← isTable, storeBytes_outside (.inl (by omega)), store, storeBytes_outside (.inl isBelow)]
  have below2 (place : Nat) (isBelow : place < free + 160) : memory2 place = memory1 place := by
    rw [← isNew, newBytes_below isBelow]
  have text2 : bytesAt memory2 (data + 32) text.length = text :=
    (bytesAt_congr fun place _ inside =>
      (below2 place (by omega)).trans (below1 place (by omega))).trans holds.bytes
  -- the two last characters of the text say how much is padding
  have pads : padding (load memory2 (data + text.length)) =
      if ch4 = 0x3d then if ch3 = 0x3d then 2 else 1 else 0 := by
    subst isText
    rw [List.length_append] at text2 ⊢
    exact padding_load text2
  rw [pads]
  generalize (if ch4 = 0x3d then if ch3 = 0x3d then 2 else 1 else 0) = pad
  generalize isSized : store memory2 (free + 160) (text.length / 4 * 3 - pad) = memory3
  have below3 (place : Nat) (isBelow : place < free + 160) : memory3 place = memory2 place := by
    rw [← isSized, store, storeBytes_outside (.inl isBelow)]
  have size : load memory3 (free + 160) = text.length / 4 * 3 - pad := by
    rw [← isSized, load_store, Nat.mod_eq_of_lt (by omega)]
  obtain ⟨isGroups, unchanged⟩ := @decodeLoop_spec memory3 (free + 1) data (free + 160 + 32) _ whole ascii
    ((bytesAt_congr fun place _ inside =>
      (below3 place (by omega)).trans (below2 place (by omega))).trans table)
    ((bytesAt_congr fun place _ inside => below3 place (by omega)).trans text2) (by omega) (by omega)
  refine ⟨⟨?_, ?_⟩, fun place isBelow => ?_⟩
  · have sameLength := @load_congr _ _ (free + 160) fun place _ inside => unchanged place inside
    rw [sameLength, size, List.length_take, length_groups, Nat.min_eq_left (Nat.sub_le _ _)]
  · rw [List.length_take, ← take_bytesAt (Nat.min_le_right _ _), isGroups, ← List.take_eq_take_min]
  · rw [unchanged place (by omega), below3 place (by omega), below2 place (by omega),
      below1 place isBelow]

/-! ## What an enclave encodes -/

section

open SimpleObjects.Base64 (encode encode1 encode2 encode3 lutChar)

theorem lutChar_spec {val : UInt8} (small : val.toNat < 64) :
    sextet (lutChar val) = val.toNat ∧ (lutChar val).toNat < 128 ∧ lutChar val ≠ 0x3d := by
  have all : ∀ byte : UInt8, byte.toNat < 64 →
      sextet (lutChar byte) = byte.toNat ∧ (lutChar byte).toNat < 128 ∧ lutChar byte ≠ 0x3d := by
    apply forall_byte
    decide +kernel
  exact all val small

theorem digits_three {n : Nat} {byte1 byte2 byte3 : UInt8}
    (isValue : n = byte1.toNat * 65536 + byte2.toNat * 256 + byte3.toNat) :
    digits 3 n = [byte1, byte2, byte3] := by
  have back := digits_value [byte1, byte2, byte3]
  simp only [value_cons, value_nil, List.length_cons, List.length_nil] at back
  rw [isValue, ← back]
  exact congrArg (digits 3) (by omega)

/-- An encoding, as the contract reads it. -/
structure Encodes (text bytes : Bytes) : Prop where
  whole : text.length % 4 = 0
  ascii : ∀ ch ∈ text, ch.toNat < 128
  decoded : bytes ≠ [] → ∃ front ch3 ch4, text = front ++ [ch3, ch4] ∧
    (groups text).take (text.length / 4 * 3 - if ch4 = 0x3d then if ch3 = 0x3d then 2 else 1 else 0) = bytes

variable {val1 val2 val3 val4 byte1 byte2 byte3 : UInt8}

theorem groups_one (isByte : byte1.toNat = val1.toNat * 4 + val2.toNat / 16) (small1 : val1.toNat < 64)
    (small2 : val2.toNat < 64) (noBits : val2.toNat % 16 = 0) :
    groups [lutChar val1, lutChar val2, 0x3d, 0x3d] = [byte1, 0, 0] := by
  have none : sextet 0x3d = 0 := by decide
  simp only [groups, group, none, (lutChar_spec small1).1, (lutChar_spec small2).1, List.append_nil]
  exact digits_three (by simp; omega)

theorem groups_two (isByte1 : byte1.toNat = val1.toNat * 4 + val2.toNat / 16)
    (isByte2 : byte2.toNat = val2.toNat % 16 * 16 + val3.toNat / 4) (small1 : val1.toNat < 64)
    (small2 : val2.toNat < 64) (small3 : val3.toNat < 64) (noBits : val3.toNat % 4 = 0) :
    groups [lutChar val1, lutChar val2, lutChar val3, 0x3d] = [byte1, byte2, 0] := by
  have none : sextet 0x3d = 0 := by decide
  simp only [groups, group, none, (lutChar_spec small1).1, (lutChar_spec small2).1,
    (lutChar_spec small3).1, List.append_nil]
  exact digits_three (by simp; omega)

theorem groups_three (isByte1 : byte1.toNat = val1.toNat * 4 + val2.toNat / 16)
    (isByte2 : byte2.toNat = val2.toNat % 16 * 16 + val3.toNat / 4)
    (isByte3 : byte3.toNat = val3.toNat % 4 * 64 + val4.toNat) (small1 : val1.toNat < 64)
    (small2 : val2.toNat < 64) (small3 : val3.toNat < 64) (small4 : val4.toNat < 64) (rest : Bytes) :
    groups (lutChar val1 :: lutChar val2 :: lutChar val3 :: lutChar val4 :: rest) =
      [byte1, byte2, byte3] ++ groups rest := by
  simp only [groups, group, (lutChar_spec small1).1, (lutChar_spec small2).1, (lutChar_spec small3).1,
    (lutChar_spec small4).1]
  rw [@digits_three _ byte1 byte2 byte3 (by omega)]

theorem encodes (bytes : Bytes) : Encodes (encode true bytes) bytes := by
  induction bytes using SimpleObjects.Base64.encode.induct with
  | case1 => exact ⟨rfl, by simp [encode], fun notEmpty => absurd rfl notEmpty⟩
  | case2 byte1 =>
    -- one byte: two characters and two of padding
    obtain ⟨first, second, -⟩ := SimpleObjects.Base64.toNat_encoded byte1
    have small := byte1.toNat_lt
    have char1 := @lutChar_spec (byte1 >>> 2 &&& 0x3F) (by omega)
    have char2 := @lutChar_spec (byte1 <<< 4 &&& 0x30) (by omega)
    have isText : encode true [byte1] =
        [lutChar (byte1 >>> 2 &&& 0x3F), lutChar (byte1 <<< 4 &&& 0x30), 0x3d, 0x3d] := by
      simp [encode, encode1, SimpleObjects.Base64.pad, SimpleObjects.Base64.padding]
    have isGroup := @groups_one (byte1 >>> 2 &&& 0x3F) (byte1 <<< 4 &&& 0x30) byte1 (by omega)
      (by omega) (by omega) (by omega)
    rw [isText]
    refine ⟨by simp, ?_, fun _ => ⟨[_, _], 0x3d, 0x3d, rfl, ?_⟩⟩
    · simpa using ⟨char1.2.1, char2.2.1⟩
    · simp [isGroup]
  | case3 byte1 byte2 =>
    -- two bytes: three characters and one of padding
    obtain ⟨first, -⟩ := SimpleObjects.Base64.toNat_encoded byte1
    obtain ⟨-, -, -, third, -⟩ := SimpleObjects.Base64.toNat_encoded byte2
    have second := SimpleObjects.Base64.toNat_second byte1 byte2
    have small := byte1.toNat_lt
    have small' := byte2.toNat_lt
    have char1 := @lutChar_spec (byte1 >>> 2 &&& 0x3F) (by omega)
    have char2 := @lutChar_spec (byte1 <<< 4 &&& (0x30 : UInt8) ||| byte2 >>> 4 &&& (0x0F : UInt8)) (by omega)
    have char3 := @lutChar_spec (byte2 <<< 2 &&& 0x3C) (by omega)
    have isText : encode true [byte1, byte2] =
        [lutChar (byte1 >>> 2 &&& 0x3F),
          lutChar (byte1 <<< 4 &&& (0x30 : UInt8) ||| byte2 >>> 4 &&& (0x0F : UInt8)),
          lutChar (byte2 <<< 2 &&& 0x3C), 0x3d] := by
      simp [encode, encode2, SimpleObjects.Base64.pad, SimpleObjects.Base64.padding]
    have isGroup := @groups_two (byte1 >>> 2 &&& 0x3F)
      (byte1 <<< 4 &&& (0x30 : UInt8) ||| byte2 >>> 4 &&& (0x0F : UInt8))
      (byte2 <<< 2 &&& 0x3C) byte1 byte2 (by omega) (by omega) (by omega) (by omega) (by omega) (by omega)
    rw [isText]
    refine ⟨by simp, ?_, fun _ => ⟨[_, _], lutChar (byte2 <<< 2 &&& 0x3C), 0x3d, rfl, ?_⟩⟩
    · simpa using ⟨char1.2.1, char2.2.1, char3.2.1⟩
    · simp [isGroup, char3.2.2]
  | case4 byte1 byte2 byte3 rest inductionHypothesis =>
    -- three bytes, and the groups of the rest behind them
    obtain ⟨first, -⟩ := SimpleObjects.Base64.toNat_encoded byte1
    obtain ⟨-, -, -, -, -, fourth⟩ := SimpleObjects.Base64.toNat_encoded byte3
    have second := SimpleObjects.Base64.toNat_second byte1 byte2
    have third := SimpleObjects.Base64.toNat_third byte2 byte3
    have small := byte1.toNat_lt
    have small' := byte2.toNat_lt
    have small'' := byte3.toNat_lt
    have char1 := @lutChar_spec (byte1 >>> 2 &&& 0x3F) (by omega)
    have char2 := @lutChar_spec (byte1 <<< 4 &&& (0x30 : UInt8) ||| byte2 >>> 4 &&& (0x0F : UInt8)) (by omega)
    have char3 := @lutChar_spec (byte2 <<< 2 &&& (0x3C : UInt8) ||| byte3 >>> 6 &&& (0x03 : UInt8)) (by omega)
    have char4 := @lutChar_spec (byte3 &&& 0x3F) (by omega)
    have isGroup : groups (encode true (byte1 :: byte2 :: byte3 :: rest)) =
        [byte1, byte2, byte3] ++ groups (encode true rest) :=
      groups_three (by omega) (by omega) (by omega) (by omega) (by omega) (by omega) (by omega) _
    have isLength : (encode true (byte1 :: byte2 :: byte3 :: rest)).length =
        4 + (encode true rest).length := by simp [encode, encode3]; omega
    obtain ⟨whole, ascii, decoded⟩ := inductionHypothesis
    refine ⟨by omega, ?_, fun _ => ?_⟩
    · simp only [encode, encode3, List.cons_append, List.nil_append, List.mem_cons, forall_eq_or_imp]
      exact ⟨char1.2.1, char2.2.1, char3.2.1, char4.2.1, ascii⟩
    · -- the padding stands in the last group, which is this one or one of the rest
      by_cases none : rest = []
      · subst none
        refine ⟨(encode3 byte1 byte2 byte3).take 2,
          lutChar (byte2 <<< 2 &&& (0x3C : UInt8) ||| byte3 >>> 6 &&& (0x03 : UInt8)),
          lutChar (byte3 &&& 0x3F), ?_, ?_⟩
        · simp [encode, encode3]
        · rw [isGroup, isLength, if_neg char4.2.2]
          simp [encode, groups]
      · obtain ⟨front, ch3, ch4, isEnd, isRest⟩ := decoded none
        refine ⟨encode3 byte1 byte2 byte3 ++ front, ch3, ch4, by simp [encode, isEnd], ?_⟩
        have pad : (if ch4 = 0x3d then if ch3 = 0x3d then 2 else 1 else 0) ≤
            (encode true rest).length / 4 * 3 := by
          have notEmpty : 2 ≤ (encode true rest).length := by simp [isEnd]
          repeat' split
          all_goals omega
        have total : (4 + (encode true rest).length) / 4 * 3 -
              (if ch4 = 0x3d then if ch3 = 0x3d then 2 else 1 else 0) =
            [byte1, byte2, byte3].length + ((encode true rest).length / 4 * 3 -
              if ch4 = 0x3d then if ch3 = 0x3d then 2 else 1 else 0) := by
          generalize (if ch4 = 0x3d then if ch3 = 0x3d then 2 else 1 else 0) = taken at pad
          simp only [List.length_cons, List.length_nil]
          omega
        rw [isGroup, isLength, total, List.take_length_add_append, isRest]
        rfl

theorem Encodes.decode {memory : Memory} {free data : Nat} {text bytes : Bytes} (encoding : Encodes text bytes)
    (isEmpty : bytes = [] → text = []) (holds : Holds memory data text)
    (below : data + 32 + text.length ≤ free) :
    Allocates memory free (Base64.decode memory free data) (.ok bytes) := by
  obtain ⟨whole, ascii, decoded⟩ := encoding
  by_cases none : bytes = []
  · subst none
    have noLength : load memory data = 0 := by simpa [isEmpty rfl] using holds.length
    refine ⟨newBytes memory free 0, free, ?_, Nat.le_refl _, ⟨load_newBytes (by decide), rfl⟩,
      fun place isBelow => newBytes_below isBelow⟩
    rw [Base64.decode, noLength]
    rfl
  · obtain ⟨front, ch3, ch4, isText, isDecoded⟩ := decoded none
    have allocates := decode_ascii isText holds whole ascii below
    rwa [isDecoded] at allocates

/-- The contract decodes what an enclave encodes, wherever the text and the free memory are, and leaves the
    memory in use as it was. -/
theorem decode_encode (memory : Memory) (free data : Nat) (bytes : Bytes)
    (holds : Holds memory data (encode true bytes))
    (below : data + 32 + (encode true bytes).length ≤ free) :
    Allocates memory free (decode memory free data) (.ok bytes) :=
  (encodes bytes).decode (fun none => by rw [none]; rfl) holds below

/-- `QUI=` behind the word of its length, at address 0. -/
def fourCharacters : Memory := storeBytes (store (fun _ => 0) 0 4) 32 (encode true [65, 66])

theorem decode_encode_fourCharacters :
    Allocates fourCharacters 64 (decode fourCharacters 64 0) (.ok [65, 66]) :=
  decode_encode fourCharacters 64 0 [65, 66] ⟨by decide +kernel, by decide +kernel⟩ (by decide +kernel)

end

end Decentagram.RaOnchain.Base64
