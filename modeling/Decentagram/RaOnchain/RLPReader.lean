import Decentagram.RaOnchain.BytesMemory
import Decentagram.SimpleRlp.Grammar

/-! # Reading RLP in the memory of a contract

An item is a range of memory that is not copied.  Its headers are read with words, and no length is
compared with the end of the item around it.  The items of a list are given as a list, without the memory
they take.
-/

namespace Decentagram.RaOnchain.RLPReader

open Decentagram.Lib BytesUtils BigEndian WordMemory

structure RLPItem where
  len : Nat
  memPtr : Nat
deriving DecidableEq, Repr

def stringShortStart : Nat := 0x80
def stringLongStart : Nat := 0xb8
def listShortStart : Nat := 0xc0
def listLongStart : Nat := 0xf8

theorem starts_eq : stringShortStart = 0x80 ∧ stringLongStart = 0xb8 ∧ listShortStart = 0xc0 ∧
    listLongStart = 0xf8 := ⟨rfl, rfl, rfl, rfl⟩

/-- `byte(0, mload(memPtr))`. -/
def byte0 (memory : Memory) (memPtr : Nat) : Nat := load memory memPtr / 256 ^ 31

/-- `div(mload(memPtr), exp(256, sub(32, byteLen)))` behind the first byte. -/
def dataLen (memory : Memory) (memPtr byteLen : Nat) : Nat :=
  load memory (memPtr + 1) / 256 ^ (32 - byteLen)

def itemLength (memory : Memory) (memPtr : Nat) : Nat :=
  let byte0 := byte0 memory memPtr
  if byte0 < stringShortStart then 1
  else if byte0 < stringLongStart then byte0 - stringShortStart + 1
  else if byte0 < listShortStart then
    let byteLen := byte0 - 0xb7
    (dataLen memory memPtr byteLen + (byteLen + 1)) % 2 ^ 256
  else if byte0 < listLongStart then byte0 - listShortStart + 1
  else
    let byteLen := byte0 - 0xf7
    (dataLen memory memPtr byteLen + (byteLen + 1)) % 2 ^ 256

def payloadOffset (memory : Memory) (memPtr : Nat) : Nat :=
  let byte0 := byte0 memory memPtr
  if byte0 < stringShortStart then 0
  else if byte0 < stringLongStart ∨ byte0 ≥ listShortStart ∧ byte0 < listLongStart then 1
  else if byte0 < listShortStart then byte0 - (stringLongStart - 1) + 1
  else byte0 - (listLongStart - 1) + 1

def toRlpItem (memory : Memory) (item : Nat) : RLPItem where
  len := load memory item
  memPtr := item + 32

def isList (memory : Memory) (item : RLPItem) : Bool :=
  if item.len = 0 then false
  else if byte0 memory item.memPtr < listShortStart then false
  else true

/-- An item has at least the byte it starts with. -/
theorem itemLength_pos (memory : Memory) (memPtr : Nat) : 0 < itemLength memory memPtr := by
  have small := @load_lt memory memPtr
  have isByte : byte0 memory memPtr < 256 := by rw [byte0]; omega
  have bound (byteLen : Nat) (fits : byteLen ≤ 8) : dataLen memory memPtr byteLen < 256 ^ 8 := by
    have highest := @load_div memory (memPtr + 1) byteLen (by omega)
    have less := value_lt (bytesAt memory (memPtr + 1) byteLen)
    rw [← highest, length_bytesAt] at less
    exact Nat.lt_of_lt_of_le less (Nat.pow_le_pow_right (by decide) fits)
  obtain ⟨shortString, longString, shortList, longList⟩ := starts_eq
  rw [itemLength]
  dsimp only
  generalize byte0 memory memPtr = first at isByte ⊢
  have string := bound (first - 0xb7)
  have list := bound (first - 0xf7)
  generalize dataLen memory memPtr (first - 0xb7) = stringLen at string ⊢
  generalize dataLen memory memPtr (first - 0xf7) = listLen at list ⊢
  repeat' split
  all_goals omega

/-- The rounds of `numItems` from `currPtr` on; a pointer that does not fit panics. -/
def countItems (memory : Memory) (endPtr currPtr count : Nat) : Except Revert Nat :=
  if currPtr < endPtr then
    if currPtr + itemLength memory currPtr < 2 ^ 256 then
      countItems memory endPtr (currPtr + itemLength memory currPtr) (count + 1)
    else .error .panic
  else .ok count
termination_by endPtr - currPtr
decreasing_by
  have positive := itemLength_pos memory currPtr
  omega

def numItems (memory : Memory) (item : RLPItem) : Except Revert Nat := do
  if item.len = 0 then
    return 0
  else
    let currPtr ← add item.memPtr (payloadOffset memory item.memPtr)
    let endPtr ← add item.memPtr item.len
    countItems memory endPtr currPtr 0

/-- The rounds of `toList` that are left. -/
def collectItems (memory : Memory) (memPtr : Nat) : Nat → Except Revert (List RLPItem)
  | 0 => .ok []
  | left + 1 => do
    let dataLen := itemLength memory memPtr
    let next ← add memPtr dataLen
    let items ← collectItems memory next left
    return { len := dataLen, memPtr } :: items

def toList (memory : Memory) (item : RLPItem) : Except Revert (List RLPItem) := do
  require (isList memory item) ""
  let items ← numItems memory item
  let memPtr ← add item.memPtr (payloadOffset memory item.memPtr)
  collectItems memory memPtr items

def payloadLocation (memory : Memory) (item : RLPItem) : Except Revert (Nat × Nat) := do
  let offset := payloadOffset memory item.memPtr
  let memPtr ← add item.memPtr offset
  let len ← sub item.len offset
  return (memPtr, len)

def copy (memory : Memory) (src dest len : Nat) : Memory :=
  if 32 ≤ len then copy (store memory dest (load memory src)) (src + 32) (dest + 32) (len - 32)
  else if 0 < len then patch memory dest src len
  else memory
termination_by len

/-- The memory afterwards, and where the copy is in it. -/
def toBytes (memory : Memory) (free : Nat) (item : RLPItem) : Except Revert (Memory × Nat) := do
  require (item.len > 0) ""
  let (memPtr, len) ← payloadLocation memory item
  let memory := newBytes memory free len
  return (copy memory memPtr (free + 32) len, free)

/-! ## Headers -/

variable {memory : Memory} {memPtr free : Nat}

theorem byte0_eq : byte0 memory memPtr = (memory memPtr).toNat := by
  have highest := @load_div memory memPtr 1 (by decide)
  rw [bytesAt_one] at highest
  simpa [byte0] using highest

/-- What the reader sees of a header. -/
theorem header_read {shortBase longBase : UInt8} {size : Nat} {header : Bytes}
    (isHeader : Rlp.Header false shortBase longBase size header) (shortFits : shortBase.toNat ≤ 200)
    (longFits : longBase.toNat ≤ 247) (isBytes : bytesAt memory memPtr header.length = header) :
    (size ≤ 55 ∧ header.length = 1 ∧ byte0 memory memPtr = shortBase.toNat + size) ∨
      ∃ byteLen, 0 < byteLen ∧ byteLen ≤ 8 ∧ header.length = byteLen + 1 ∧ size < 256 ^ 8 ∧
        byte0 memory memPtr = longBase.toNat + byteLen ∧ dataLen memory memPtr byteLen = size := by
  rw [byte0_eq]
  cases isHeader with
  | short fits =>
    have first : memory memPtr = shortBase + UInt8.ofNat size := by simpa [bytesAt_one] using isBytes
    refine .inl ⟨fits, rfl, ?_⟩
    rw [first, UInt8.toNat_add, UInt8.toNat_ofNat']
    omega
  | @long sizeBytes nonempty fits isSize needed =>
    rw [List.length_cons, bytesAt_succ] at isBytes
    obtain ⟨first, rest⟩ := List.cons.inj isBytes
    have highest := @load_div memory (memPtr + 1) sizeBytes.length
      (by omega)
    have small := value_lt sizeBytes
    rw [rest, isSize] at highest
    rw [isSize] at small
    refine .inr ⟨sizeBytes.length, nonempty, fits, rfl,
      Nat.lt_of_lt_of_le small (Nat.pow_le_pow_right (by decide) fits), ?_, highest⟩
    rw [first, UInt8.toNat_add, UInt8.toNat_ofNat']
    omega

theorem read_byte {byte : UInt8} (small : byte ≤ 0x7F) (isByte : memory memPtr = byte) :
    itemLength memory memPtr = 1 ∧ payloadOffset memory memPtr = 0 ∧ byte0 memory memPtr < 0xc0 := by
  have low : byte.toNat ≤ 127 := small
  have first := @byte0_eq memory memPtr
  rw [isByte] at first
  rw [itemLength, payloadOffset, starts_eq.1, first]
  dsimp only
  rw [if_pos (by omega), if_pos (by omega)]
  exact ⟨rfl, rfl, by omega⟩

theorem read_string {size : Nat} {header : Bytes} (isHeader : Rlp.Header false 0x80 0xB7 size header)
    (isBytes : bytesAt memory memPtr header.length = header) :
    itemLength memory memPtr = header.length + size ∧
      payloadOffset memory memPtr = header.length ∧ byte0 memory memPtr < 0xc0 := by
  obtain ⟨shortString, longString, shortList, longList⟩ := starts_eq
  rw [itemLength, payloadOffset]
  dsimp only
  rcases header_read isHeader (by decide) (by decide) isBytes with
    ⟨fits, isLength, first⟩ | ⟨byteLen, positive, fits, isLength, small, first, isSize⟩
  · have base : (0x80 : UInt8).toNat = 128 := rfl
    rw [base] at first
    rw [first, isLength, if_neg (by omega), if_pos (by omega), if_neg (by omega), if_pos (by omega)]
    omega
  · have base : (0xB7 : UInt8).toNat = 183 := rfl
    have isByteLen : byte0 memory memPtr - 0xb7 = byteLen := by omega
    rw [base] at first
    rw [isByteLen, isSize, first, isLength, if_neg (by omega), if_neg (by omega), if_pos (by omega),
      if_neg (by omega), if_neg (by omega), if_pos (by omega), Nat.mod_eq_of_lt (by omega)]
    omega

theorem read_list {size : Nat} {header : Bytes} (isHeader : Rlp.Header false 0xC0 0xF7 size header)
    (isBytes : bytesAt memory memPtr header.length = header) :
    itemLength memory memPtr = header.length + size ∧
      payloadOffset memory memPtr = header.length ∧ 0xc0 ≤ byte0 memory memPtr := by
  obtain ⟨shortString, longString, shortList, longList⟩ := starts_eq
  rw [itemLength, payloadOffset]
  dsimp only
  rcases header_read isHeader (by decide) (by decide) isBytes with
    ⟨fits, isLength, first⟩ | ⟨byteLen, positive, fits, isLength, small, first, isSize⟩
  · have base : (0xC0 : UInt8).toNat = 192 := rfl
    rw [base] at first
    rw [first, isLength, if_neg (by omega), if_neg (by omega), if_neg (by omega), if_pos (by omega),
      if_neg (by omega), if_pos (by omega)]
    omega
  · have base : (0xF7 : UInt8).toNat = 247 := rfl
    have isByteLen : byte0 memory memPtr - 0xf7 = byteLen := by omega
    rw [base] at first
    rw [isByteLen, isSize, first, isLength, if_neg (by omega), if_neg (by omega), if_neg (by omega),
      if_neg (by omega), if_neg (by omega), if_neg (by omega), if_neg (by omega),
      Nat.mod_eq_of_lt (by omega)]
    omega

/-! ## Items -/

/-- The item is an encoding of the object, inside the memory in use. -/
structure Represents (memory : Memory) (free : Nat) (item : RLPItem) (object : Rlp.Object) : Prop where
  inside : item.memPtr + item.len ≤ free
  encodes : Rlp.Encodes false (bytesAt memory item.memPtr item.len) object

variable {item : RLPItem} {object : Rlp.Object}

theorem bytesAt_split {front rest : Bytes} {count : Nat}
    (isBytes : bytesAt memory memPtr count = front ++ rest) :
    count = front.length + rest.length ∧ bytesAt memory memPtr front.length = front ∧
      bytesAt memory (memPtr + front.length) rest.length = rest := by
  have isCount := congrArg List.length isBytes
  rw [length_bytesAt, List.length_append] at isCount
  rw [isCount, bytesAt_add] at isBytes
  obtain ⟨isFront, isRest⟩ := List.append_inj isBytes length_bytesAt
  exact ⟨isCount, isFront, isRest⟩

/-- An encoding is as long as the reader takes it for. -/
theorem itemLength_of_encodes {encoding : Bytes} (encodes : Rlp.Encodes false encoding object)
    (isBytes : bytesAt memory memPtr encoding.length = encoding) :
    itemLength memory memPtr = encoding.length := by
  cases encodes with
  | @byte byte small =>
    have isByte : memory memPtr = byte := by simpa [bytesAt_one] using isBytes
    exact (read_byte small isByte).1
  | bytes isHeader needed =>
    rw [List.length_append]
    exact (read_string isHeader (bytesAt_split isBytes).2.1).1
  | list isHeader inner =>
    rw [List.length_append]
    exact (read_list isHeader (bytesAt_split isBytes).2.1).1

/-- The parts of an item that is a list. -/
theorem Represents.list {items : List Rlp.Object} (represents : Represents memory free item (.list items)) :
    ∃ body, isList memory item = true ∧ payloadOffset memory item.memPtr + body.length = item.len ∧
      bytesAt memory (item.memPtr + payloadOffset memory item.memPtr) body.length = body ∧
      Rlp.EncodesAll false body items := by
  obtain ⟨inside, encodes⟩ := represents
  generalize isBytes : bytesAt memory item.memPtr item.len = encoding at encodes
  cases encodes with
  | @list header body _ isHeader inner =>
    obtain ⟨isLength, isFront, isBody⟩ := bytesAt_split isBytes
    obtain ⟨-, offset, first⟩ := read_list isHeader isFront
    have nonempty := List.length_pos_iff.mpr isHeader.ne_nil
    refine ⟨body, ?_, by omega, by rwa [offset], inner⟩
    rw [isList, listShortStart, if_neg (by omega), if_neg (Nat.not_lt.mpr first)]

theorem Represents.bytes {payload : Bytes} (represents : Represents memory free item (.bytes payload)) :
    isList memory item = false ∧ 0 < item.len ∧
      payloadOffset memory item.memPtr + payload.length = item.len ∧
      bytesAt memory (item.memPtr + payloadOffset memory item.memPtr) payload.length = payload := by
  obtain ⟨inside, encodes⟩ := represents
  have noList (first : byte0 memory item.memPtr < 0xc0) : isList memory item = false := by
    rw [isList, listShortStart]
    simp [first]
  generalize isBytes : bytesAt memory item.memPtr item.len = encoding at encodes
  have isLength := congrArg List.length isBytes
  rw [length_bytesAt] at isLength
  cases encodes with
  | @byte byte small =>
    rw [isLength, List.length_singleton, bytesAt_one] at isBytes
    obtain ⟨-, offset, first⟩ := read_byte small (List.cons.inj isBytes).1
    rw [offset, isLength, Nat.add_zero]
    exact ⟨noList first, by simp, by simp, by rw [List.length_singleton, bytesAt_one, isBytes]⟩
  | @bytes header _ isHeader needed =>
    obtain ⟨isLength, isFront, isPayload⟩ := bytesAt_split isBytes
    obtain ⟨-, offset, first⟩ := read_string isHeader isFront
    have nonempty := List.length_pos_iff.mpr isHeader.ne_nil
    exact ⟨noList first, by omega, by omega, by rwa [offset]⟩

/-! ## Lists -/

section

variable {body : Bytes} {objects : List Rlp.Object} (isSmall : free < 2 ^ 256)
include isSmall

theorem countItems_eq (encodes : Rlp.EncodesAll false body objects) (count : Nat)
    (isBody : bytesAt memory memPtr body.length = body) (inside : memPtr + body.length ≤ free) :
    countItems memory (memPtr + body.length) memPtr count = .ok (count + objects.length) := by
  induction objects generalizing body memPtr count with
  | nil =>
    cases encodes
    rw [countItems, if_neg (by simp)]
    rfl
  | cons object objects inductionHypothesis =>
    cases encodes with
    | @cons first rest _ _ head tail =>
      have nonempty := List.length_pos_iff.mpr head.ne_nil
      obtain ⟨-, isFirst, isRest⟩ := bytesAt_split isBody
      have isLength := itemLength_of_encodes head isFirst
      rw [List.length_append] at inside ⊢
      rw [countItems, if_pos (by omega), isLength, if_pos (by omega), ← Nat.add_assoc,
        inductionHypothesis tail (count + 1) isRest (by omega)]
      exact congrArg Except.ok (by rw [List.length_cons]; omega)

theorem collectItems_eq (encodes : Rlp.EncodesAll false body objects)
    (isBody : bytesAt memory memPtr body.length = body) (inside : memPtr + body.length ≤ free) :
    ∃ items, collectItems memory memPtr objects.length = .ok items ∧
      List.Forall₂ (Represents memory free) items objects := by
  induction objects generalizing body memPtr with
  | nil => exact ⟨[], rfl, .nil⟩
  | cons object objects inductionHypothesis =>
    cases encodes with
    | @cons first rest _ _ head tail =>
      obtain ⟨-, isFirst, isRest⟩ := bytesAt_split isBody
      have isLength := itemLength_of_encodes head isFirst
      rw [List.length_append] at inside
      have next : add memPtr first.length = .ok (memPtr + first.length) := if_pos (by omega)
      obtain ⟨items, collected, represents⟩ := inductionHypothesis tail isRest (by omega)
      refine ⟨⟨first.length, memPtr⟩ :: items, ?_, .cons ⟨?_, ?_⟩ represents⟩
      · rw [List.length_cons, collectItems, isLength, next, ok_bind, collected]
        rfl
      · dsimp only
        omega
      · rwa [isFirst]

/-- The items of a list are those of its objects, in their order. -/
theorem toList_eq {items : List Rlp.Object} (represents : Represents memory free item (.list items)) :
    ∃ found, toList memory item = .ok found ∧ List.Forall₂ (Represents memory free) found items := by
  obtain ⟨body, listed, isLength, isBody, encodes⟩ := represents.list
  have inside := represents.inside
  have start : add item.memPtr (payloadOffset memory item.memPtr) =
      .ok (item.memPtr + payloadOffset memory item.memPtr) := if_pos (by omega)
  have stop : add item.memPtr item.len = .ok (item.memPtr + item.len) := if_pos (by omega)
  have nonempty : item.len ≠ 0 := by
    intro empty
    simp [isList, empty] at listed
  have counted := countItems_eq isSmall encodes 0 isBody (by omega)
  obtain ⟨found, collected, all⟩ := collectItems_eq isSmall encodes isBody (by omega)
  have whole : item.memPtr + payloadOffset memory item.memPtr + body.length = item.memPtr + item.len := by
    omega
  rw [whole, Nat.zero_add] at counted
  refine ⟨found, ?_, all⟩
  rw [toList, listed, require, if_pos rfl, ok_bind, numItems, if_neg nonempty, start, ok_bind, stop,
    ok_bind, counted, ok_bind, ok_bind, collected]

end

/-! ## Payloads -/

theorem copy_eq_copy (memory : Memory) (src dest len : Nat) :
    copy memory src dest len = WordMemory.copy memory dest src len := by
  induction len using Nat.strong_induction_on generalizing memory dest src with
  | _ len inductionHypothesis =>
    rw [copy, WordMemory.copy]
    split
    next aWord => exact inductionHypothesis (len - 32) (by omega) _ _ _
    next aPart =>
      split
      next some => rfl
      next none =>
        have isZero : len = 0 := by omega
        have nothing := @storeBytes_bytesAt memory dest 0
        rw [isZero, patch_eq (by decide)]
        exact nothing.symm

/-- The payload of a string in a new string. -/
theorem toBytes_allocates {payload : Bytes} (isSmall : free < 2 ^ 256)
    (represents : Represents memory free item (.bytes payload)) :
    Allocates memory free (toBytes memory free item) (.ok payload) := by
  obtain ⟨-, positive, isLength, isPayload⟩ := represents.bytes
  have inside := represents.inside
  have start : add item.memPtr (payloadOffset memory item.memPtr) =
      .ok (item.memPtr + payloadOffset memory item.memPtr) := if_pos (by omega)
  have length : sub item.len (payloadOffset memory item.memPtr) = .ok payload.length := by
    rw [sub, if_pos (by omega)]
    exact congrArg Except.ok (by omega)
  have stays : bytesAt (newBytes memory free payload.length)
      (item.memPtr + payloadOffset memory item.memPtr) payload.length = payload :=
    (bytesAt_congr fun place _ before => newBytes_below (by omega)).trans isPayload
  rw [toBytes, require, if_pos positive, ok_bind, payloadLocation, start]
  simp only [ok_bind, length]
  rw [pure_bind, copy_eq_copy, copy_eq (.inl (by omega)), stays]
  refine ⟨_, _, rfl, Nat.le_refl _, holds_newBytes (by omega), fun place isBelow => ?_⟩
  rw [storeBytes_outside (.inl (by omega)), newBytes_below isBelow]

/-! ## What the parser of an enclave accepts -/

/-- `item[i].toList()[j]` and so on. -/
def itemAt (memory : Memory) (item : RLPItem) : List Nat → Except Revert RLPItem
  | [] => .ok item
  | i :: path => do
    match (← toList memory item)[i]? with
    | some inner => itemAt memory inner path
    | none => .error .panic

def objectAt (object : Rlp.Object) : List Nat → Except Revert Rlp.Object
  | [] => .ok object
  | i :: path =>
    match object with
    | .bytes _ => .error (.reason "")
    | .list items =>
      match items[i]? with
      | some inner => objectAt inner path
      | none => .error .panic

/-- A path through the items ends as one through the objects does. -/
theorem itemAt_eq (isSmall : free < 2 ^ 256) (represents : Represents memory free item object)
    (path : List Nat) :
    match objectAt object path with
    | .error revert => itemAt memory item path = .error revert
    | .ok inner => ∃ item', itemAt memory item path = .ok item' ∧ Represents memory free item' inner := by
  induction path generalizing item object with
  | nil => exact ⟨item, rfl, represents⟩
  | cons i path inductionHypothesis =>
    cases object with
    | bytes payload =>
      have listed := represents.bytes.1
      rw [objectAt, itemAt, toList, listed]
      exact Eq.refl (Except.error _)
    | list items =>
      obtain ⟨found, isFound, all⟩ := toList_eq isSmall represents
      have sameLength := all.length_eq
      rw [objectAt, itemAt, isFound, ok_bind]
      by_cases inside : i < items.length
      · have inside' : i < found.length := sameLength ▸ inside
        rw [List.getElem?_eq_getElem inside, List.getElem?_eq_getElem inside']
        exact inductionHypothesis (all.get inside' inside)
      · rw [List.getElem?_eq_none (Nat.not_lt.mp inside), List.getElem?_eq_none (by omega)]

/-- What the parser of an enclave takes for an object, the contract reads as that object: every path of
    lists ends alike, and a string at its end is copied as it is. -/
theorem itemAt_parsed (memory : Memory) (free ptr : Nat) (encoding : Bytes) (object : Rlp.Object)
    (holds : Holds memory ptr encoding) (below : ptr + 32 + encoding.length ≤ free)
    (isSmall : free < 2 ^ 256) (small : encoding.length < 2 ^ 64)
    (parsed : SimpleRlp.parseRlp encoding = .ok object) (path : List Nat) :
    match objectAt object path with
    | .error revert => itemAt memory (toRlpItem memory ptr) path = .error revert
    | .ok inner => ∃ item, itemAt memory (toRlpItem memory ptr) path = .ok item ∧
        ∀ payload, inner = .bytes payload →
          Allocates memory free (toBytes memory free item) (.ok payload) := by
  have encodes := (SimpleRlp.parseRlp_eq_ok small).mp parsed
  have represents : Represents memory free (toRlpItem memory ptr) object := by
    refine ⟨?_, ?_⟩
    · rw [toRlpItem, holds.length]
      omega
    · rw [toRlpItem, holds.length, holds.bytes]
      exact encodes
  have ends := itemAt_eq isSmall represents path
  split at ends
  next revert failed => exact ends
  next inner reached =>
    obtain ⟨item, isItem, represents'⟩ := ends
    refine ⟨item, isItem, ?_⟩
    rintro payload rfl
    exact toBytes_allocates isSmall represents'

/-- `[["cat"], 5]` behind the word of its length, at address 0. -/
def nestedList : Memory :=
  storeBytes (store (fun _ => 0) 0 7) 32 [0xC6, 0xC4, 0x83, 0x63, 0x61, 0x74, 0x05]

theorem itemAt_parsed_nestedList : ∃ item,
    itemAt nestedList (toRlpItem nestedList 0) [0, 0] = .ok item ∧
      ∀ payload, Rlp.Object.bytes [0x63, 0x61, 0x74] = .bytes payload →
        Allocates nestedList 64 (toBytes nestedList 64 item) (.ok payload) :=
  itemAt_parsed nestedList 64 0 [0xC6, 0xC4, 0x83, 0x63, 0x61, 0x74, 0x05]
    (.list [.list [.bytes [0x63, 0x61, 0x74]], .bytes [0x05]]) ⟨by decide +kernel, by decide +kernel⟩
    (by decide) (by decide) (by decide) rfl [0, 0]

end Decentagram.RaOnchain.RLPReader
