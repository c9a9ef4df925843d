import Decentagram.Lib.BigEndian
import Decentagram.Lib.Result
import Mathlib.Data.BitVec

/-! # Reading DER on chain

`BytesUtils` and `Asn1Decode` as the certificate contracts use them.  A `uint256` is a number below
`2 ^ 256`; its arithmetic is checked.  A node of a DER structure is named by a `NodePtr`, which packs
three positions of 80 bits into one word.
-/

namespace Decentagram.RaOnchain

open Decentagram.Lib

abbrev Bytes := List UInt8

inductive Revert where
  | reason (text : String)
  | panic
deriving DecidableEq, Repr

abbrev Bytes32 := BitVec 256

/-! ## Checked arithmetic -/

def add (a b : Nat) : Except Revert Nat :=
  if a + b < 2 ^ 256 then .ok (a + b) else .error .panic

def sub (a b : Nat) : Except Revert Nat :=
  if b ≤ a then .ok (a - b) else .error .panic

/-- The product of two `uint8`. -/
def mulUint8 (a b : Nat) : Except Revert Nat :=
  if a * b < 2 ^ 8 then .ok (a * b) else .error .panic

def uint80 (n : Nat) : Nat := n % 2 ^ 80

theorem add_eq_ok {a b c : Nat} : add a b = .ok c ↔ a + b < 2 ^ 256 ∧ c = a + b := by
  unfold add
  split
  next fits => simp only [Except.ok.injEq, fits, true_and, eq_comm]
  next overflows => simp only [reduceCtorEq, overflows, false_and]

theorem mulUint8_eq_ok {a b c : Nat} : mulUint8 a b = .ok c ↔ a * b < 2 ^ 8 ∧ c = a * b := by
  unfold mulUint8
  split
  next fits => simp only [Except.ok.injEq, fits, true_and, eq_comm]
  next overflows => simp only [reduceCtorEq, overflows, false_and]

theorem sub_eq_ok {a b c : Nat} : sub a b = .ok c ↔ b ≤ a ∧ c = a - b := by
  unfold sub
  split
  next le => simp only [Except.ok.injEq, le, true_and, eq_comm]
  next underflows => simp only [reduceCtorEq, underflows, false_and]

/-! ## `BytesUtils` -/

namespace BytesUtils

/-- `self[index]`. -/
def byteAt (self : Bytes) (index : Nat) : Except Revert UInt8 :=
  match self[index]? with
  | some byte => .ok byte
  | none => .error .panic

def require (condition : Prop) [Decidable condition] (text : String) : Except Revert Unit :=
  if condition then .ok () else .error (.reason text)

/-- The bytes of a range that is known to be inside. -/
def slice (self : Bytes) (offset len : Nat) : Bytes := (self.drop offset).take len

def readUint8 (self : Bytes) (idx : Nat) : Except Revert Nat := do
  return (← byteAt self idx).toNat

def readUint16 (self : Bytes) (idx : Nat) : Except Revert Nat := do
  require ((← add idx 2) ≤ self.length) ""
  return BigEndian.value (slice self idx 2)

def readBytes32 (self : Bytes) (idx : Nat) : Except Revert Bytes32 := do
  require ((← add idx 32) ≤ self.length) ""
  return BitVec.ofNat 256 (BigEndian.value (slice self idx 32))

/-- The bytes are the highest ones of the word. -/
def readBytesN (self : Bytes) (idx len : Nat) : Except Revert Bytes32 := do
  require (len ≤ 32) ""
  require ((← add idx len) ≤ self.length) ""
  return BitVec.ofNat 256 (BigEndian.value (slice self idx len) * 256 ^ (32 - len))

def substringUnsafe (self : Bytes) (offset len : Nat) : Except Revert Bytes := do
  require ((← add offset len) ≤ self.length) ""
  return slice self offset len

def substrstringFast (self : Bytes) (offset len : Nat) : Except Revert Bytes := do
  require ((← add offset len) ≤ self.length) "Invalid length"
  return slice self offset len

@[simp] theorem byteAt_eq_ok {self : Bytes} {index : Nat} {byte : UInt8} :
    byteAt self index = .ok byte ↔ self[index]? = some byte := by
  unfold byteAt
  cases self[index]? <;> simp

@[simp] theorem require_eq_ok {condition : Prop} [Decidable condition] {text : String} {value : Unit} :
    require condition text = .ok value ↔ condition := by
  unfold require
  split <;> simp [*]

theorem readBytes32_eq_ok {self : Bytes} {idx : Nat} {word : Bytes32} :
    readBytes32 self idx = .ok word ↔ idx + 32 < 2 ^ 256 ∧ idx + 32 ≤ self.length ∧
      word = BitVec.ofNat 256 (BigEndian.value (slice self idx 32)) := by
  simp only [readBytes32, bind_eq_ok, add_eq_ok, require_eq_ok, pure_eq_ok, exists_unit]
  constructor
  · rintro ⟨_, ⟨fits, rfl⟩, inside, rfl⟩
    exact ⟨fits, inside, rfl⟩
  · rintro ⟨fits, inside, rfl⟩
    exact ⟨_, ⟨fits, rfl⟩, inside, rfl⟩

theorem substringUnsafe_eq_ok {self result : Bytes} {offset len : Nat} :
    substringUnsafe self offset len = .ok result ↔ offset + len < 2 ^ 256 ∧
      offset + len ≤ self.length ∧ result = slice self offset len := by
  simp only [substringUnsafe, bind_eq_ok, add_eq_ok, require_eq_ok, pure_eq_ok, exists_unit]
  constructor
  · rintro ⟨_, ⟨fits, rfl⟩, inside, rfl⟩
    exact ⟨fits, inside, rfl⟩
  · rintro ⟨fits, inside, rfl⟩
    exact ⟨_, ⟨fits, rfl⟩, inside, rfl⟩

end BytesUtils

/-! ## `NodePtr` -/

namespace NodePtr

/-- The first byte. -/
def ixs (self : Nat) : Nat := uint80 self

/-- The first content byte. -/
def ixf (self : Nat) : Nat := uint80 (self / 2 ^ 80)

/-- The last content byte. -/
def ixl (self : Nat) : Nat := uint80 (self / 2 ^ 160)

def getPtr (ixs ixf ixl : Nat) : Nat :=
  (ixs ||| ixf * 2 ^ 80 % 2 ^ 256) ||| ixl * 2 ^ 160 % 2 ^ 256

theorem content_fits {ixf : Nat} (content : ixf < 2 ^ 80) : ixf * 2 ^ 80 < 2 ^ 256 := by omega

theorem last_fits {ixl : Nat} (last : ixl < 2 ^ 80) : ixl * 2 ^ 160 < 2 ^ 256 := by omega

/-- Positions of 80 bits do not meet in the word. -/
theorem getPtr_eq {ixs ixf ixl : Nat} (first : ixs < 2 ^ 80) (content : ixf < 2 ^ 80)
    (last : ixl < 2 ^ 80) : getPtr ixs ixf ixl = ixs + ixf * 2 ^ 80 + ixl * 2 ^ 160 := by
  have lowFits : ixf * 2 ^ 80 + ixs < 2 ^ 160 := by omega
  have low := Nat.two_pow_add_eq_or_of_lt first ixf
  have high := Nat.two_pow_add_eq_or_of_lt lowFits ixl
  simp only [Nat.mul_comm (2 ^ _)] at low high
  calc getPtr ixs ixf ixl
      = (ixs ||| ixf * 2 ^ 80) ||| ixl * 2 ^ 160 := by
        rw [getPtr, Nat.mod_eq_of_lt (content_fits content), Nat.mod_eq_of_lt (last_fits last)]
    _ = ixl * 2 ^ 160 ||| (ixf * 2 ^ 80 + ixs) := by
        rw [low, Nat.or_comm, Nat.or_comm ixs]
    _ = ixs + ixf * 2 ^ 80 + ixl * 2 ^ 160 := by
        rw [← high, Nat.add_comm, Nat.add_comm (ixf * 2 ^ 80)]

variable {first content last : Nat} (firstFits : first < 2 ^ 80) (contentFits : content < 2 ^ 80)
  (lastFits : last < 2 ^ 80)

include firstFits contentFits lastFits

theorem ixs_getPtr : ixs (getPtr first content last) = first := by
  rw [getPtr_eq firstFits contentFits lastFits, ixs, uint80]
  omega

theorem ixf_getPtr : ixf (getPtr first content last) = content := by
  rw [getPtr_eq firstFits contentFits lastFits, ixf, uint80]
  omega

theorem ixl_getPtr : ixl (getPtr first content last) = last := by
  rw [getPtr_eq firstFits contentFits lastFits, ixl, uint80]
  omega

end NodePtr

/-! ## `Asn1Decode` -/

namespace Asn1Decode

open BytesUtils NodePtr

/-- The length of a header in the long form.  The shift is computed with `uint8`. -/
def readLongLength (der : Bytes) (ix lengthbytesLength : Nat) : Except Revert Nat :=
  if lengthbytesLength = 1 then do
    readUint8 der (← add ix 2)
  else if lengthbytesLength = 2 then do
    readUint16 der (← add ix 2)
  else do
    let word ← readBytesN der (← add ix 2) lengthbytesLength
    let shift ← mulUint8 (← sub 32 lengthbytesLength) 8
    return (word >>> shift).toNat

/-- The pointer to the node whose header is at `ix`. -/
def readNodeLength (der : Bytes) (ix : Nat) : Except Revert Nat := do
  let lengthByte ← byteAt der (← add ix 1)
  if lengthByte &&& 0x80 = 0 then
    let length := lengthByte.toNat
    let ixFirstContentByte := uint80 (← add ix 2)
    let ixLastContentByte := uint80 (← sub (← add ixFirstContentByte length) 1)
    return getPtr ix ixFirstContentByte ixLastContentByte
  else
    let lengthbytesLength := (lengthByte &&& 0x7F).toNat
    let length ← readLongLength der ix lengthbytesLength
    let ixFirstContentByte := uint80 (← add (← add ix 2) lengthbytesLength)
    let ixLastContentByte := uint80 (← sub (← add ixFirstContentByte length) 1)
    return getPtr ix ixFirstContentByte ixLastContentByte

def root (der : Bytes) : Except Revert Nat := readNodeLength der 0

def nextSiblingOf (der : Bytes) (ptr : Nat) : Except Revert Nat := do
  readNodeLength der (← add (ixl ptr) 1)

def firstChildOf (der : Bytes) (ptr : Nat) : Except Revert Nat := do
  require ((← byteAt der (ixs ptr)) &&& 0x20 = 0x20) "Not a constructed type"
  readNodeLength der (ixf ptr)

/-- `ptr.ixl()+1 - ptr.ixf()`. -/
def valueLength (ptr : Nat) : Except Revert Nat := do
  sub (← add (ixl ptr) 1) (ixf ptr)

def bytesAt (der : Bytes) (ptr : Nat) : Except Revert Bytes := do
  substringUnsafe der (ixf ptr) (← valueLength ptr)

def stringAt (der : Bytes) (ptr : Nat) : Except Revert Bytes := do
  substrstringFast der (ixf ptr) (← valueLength ptr)

def bytes32At (der : Bytes) (ptr : Nat) : Except Revert Bytes32 := do
  readBytesN der (ixf ptr) (← valueLength ptr)

def uintAt (der : Bytes) (ptr : Nat) : Except Revert Nat := do
  require ((← byteAt der (ixs ptr)) = 0x02) "Not type INTEGER"
  require ((← byteAt der (ixf ptr)) &&& 0x80 = 0) "Not positive"
  let len ← valueLength ptr
  let word ← readBytesN der (ixf ptr) len
  return (word >>> ((32 - len) * 8)).toNat

def uintBytesAt (der : Bytes) (ptr : Nat) : Except Revert Bytes := do
  require ((← byteAt der (ixs ptr)) = 0x02) "Not type INTEGER"
  require ((← byteAt der (ixf ptr)) &&& 0x80 = 0) "Not positive"
  let valueLength ← valueLength ptr
  if (← byteAt der (ixf ptr)) = 0 then
    substringUnsafe der (← add (ixf ptr) 1) (← sub valueLength 1)
  else
    substringUnsafe der (ixf ptr) valueLength

def bitstringAt (der : Bytes) (ptr : Nat) : Except Revert Bytes := do
  require ((← byteAt der (ixs ptr)) = 0x03) "Not type BIT STRING"
  -- only 00 padded bitstr can be converted to bytestr
  require ((← byteAt der (ixf ptr)) = 0x00) ""
  let valueLength ← valueLength ptr
  substringUnsafe der (← add (ixf ptr) 1) (← sub valueLength 1)

/-! ## Headers -/

theorem highBit_eq_zero_iff (byte : UInt8) : byte &&& 0x80 = 0 ↔ byte.toNat < 128 := by
  have all : ∀ bits : BitVec 8, bits &&& 0x80#8 = 0#8 ↔ bits.toNat < 128 := by decide
  rw [← UInt8.toBitVec_inj]
  exact all byte.toBitVec

theorem toNat_lowBits (byte : UInt8) : (byte &&& 0x7F).toNat = byte.toNat % 128 := by
  rw [UInt8.toNat_and]
  exact Nat.and_two_pow_sub_one_eq_mod byte.toNat 7

/-- The first content byte and the length that the header at a position declares. -/
def headerAt (der : Bytes) (ix : Nat) : Option (Nat × Nat) :=
  der[ix + 1]?.bind fun lengthByte =>
    if lengthByte.toNat < 128 then some (ix + 2, lengthByte.toNat)
    else if lengthByte.toNat = 128 ∨ 160 < lengthByte.toNat ∨
        der.length < ix + 2 + (lengthByte.toNat - 128) then none
    else some (ix + 2 + (lengthByte.toNat - 128),
      BigEndian.value (slice der (ix + 2) (lengthByte.toNat - 128)))

variable {der : Bytes} {ix : Nat}

/-- The header lies inside, so the content starts inside or right behind. -/
theorem headerAt_bounds {content length : Nat} (header : headerAt der ix = some (content, length)) :
    ix + 1 < der.length ∧ ix + 2 ≤ content ∧ content ≤ ix + 34 := by
  obtain ⟨lengthByte, found, header⟩ := Option.bind_eq_some_iff.mp header
  obtain ⟨inside, -⟩ := List.getElem?_eq_some_iff.mp found
  refine ⟨inside, ?_⟩
  split at header
  · cases header
    omega
  · split at header
    · cases header
    next counted =>
      have start : ix + 2 + (lengthByte.toNat - 128) = content :=
        (Prod.mk.inj (Option.some.inj header)).1
      omega

/-- The highest bytes of a word, moved to its low end. -/
theorem toNat_shiftRight {count n : Nat} (count_le : count ≤ 32) (small : n < 256 ^ count) :
    (BitVec.ofNat 256 (n * 256 ^ (32 - count)) >>> ((32 - count) * 8)).toNat = n := by
  have power : (256 : Nat) ^ (32 - count) = 2 ^ ((32 - count) * 8) := by
    rw [Nat.mul_comm, Nat.pow_mul]
  have fits : n * 256 ^ (32 - count) < 2 ^ 256 := by
    calc n * 256 ^ (32 - count)
        < 256 ^ count * 256 ^ (32 - count) :=
          Nat.mul_lt_mul_of_pos_right small (Nat.pow_pos (by decide))
      _ = 256 ^ 32 := by rw [← Nat.pow_add, Nat.add_sub_cancel' count_le]
      _ = 2 ^ 256 := (Nat.pow_mul 2 8 32).symm
  rw [BitVec.toNat_ushiftRight, BitVec.toNat_ofNat, Nat.mod_eq_of_lt fits, Nat.shiftRight_eq_div_pow,
    power, Nat.mul_div_cancel _ (Nat.two_pow_pos _)]

theorem readLongLength_eq_ok {count length : Nat} (small : ix + count < 2 ^ 128) :
    readLongLength der ix count = .ok length ↔
      ¬ (count = 0 ∨ 32 < count ∨ der.length < ix + 2 + count) ∧
        length = BigEndian.value (slice der (ix + 2) count) := by
  have next : add ix 2 = .ok (ix + 2) := add_eq_ok.mpr ⟨by omega, rfl⟩
  unfold readLongLength
  split
  next isOne =>
    -- one byte is read without a check of its own: outside the DER it panics
    subst isOne
    rw [next, ok_bind, readUint8]
    simp only [bind_eq_ok, byteAt_eq_ok, pure_eq_ok]
    cases found : der[ix + 2]? with
    | none =>
      have outside := List.getElem?_eq_none_iff.mp found
      simp
      omega
    | some byte =>
      obtain ⟨inside, isByte⟩ := List.getElem?_eq_some_iff.mp found
      have sliced : slice der (ix + 2) 1 = [byte] := by
        rw [slice, List.drop_eq_getElem_cons inside, isByte]
        rfl
      rw [sliced]
      simp [eq_comm]
      omega
  next notOne =>
    split
    next isTwo =>
      subst isTwo
      have last : add (ix + 2) 2 = .ok (ix + 2 + 2) := add_eq_ok.mpr ⟨by omega, rfl⟩
      rw [next, ok_bind, readUint16, last, ok_bind]
      simp only [bind_eq_ok, require_eq_ok, pure_eq_ok, exists_unit]
      constructor
      · rintro ⟨inside, rfl⟩
        exact ⟨by omega, rfl⟩
      · rintro ⟨inside, rfl⟩
        exact ⟨by omega, rfl⟩
    next notTwo =>
      have last : add (ix + 2) count = .ok (ix + 2 + count) := add_eq_ok.mpr ⟨by omega, rfl⟩
      rw [next, ok_bind, readBytesN, last]
      simp only [bind_eq_ok, require_eq_ok, pure_eq_ok, exists_unit, sub_eq_ok, mulUint8_eq_ok,
        Except.ok.injEq]
      -- the bytes stand at the top of the word, and the shift brings them down
      have value_lt : BigEndian.value (slice der (ix + 2) count) < 256 ^ count := by
        refine (BigEndian.value_lt _).trans_le (Nat.pow_le_pow_right (by decide) ?_)
        simp [slice]
      constructor
      · rintro ⟨word, ⟨count_le, _, rfl, inside, rfl⟩, _, ⟨-, rfl⟩, _, ⟨positive, rfl⟩, rfl⟩
        exact ⟨by omega, toNat_shiftRight count_le value_lt⟩
      · rintro ⟨counted, rfl⟩
        have count_le : count ≤ 32 := by omega
        exact ⟨_, ⟨count_le, _, rfl, by omega, rfl⟩, _, ⟨count_le, rfl⟩, _, ⟨by omega, rfl⟩,
          toNat_shiftRight count_le value_lt⟩

/-- What a header is read as. -/
theorem readNodeLength_eq_ok (small : der.length < 2 ^ 64) {ptr : Nat} :
    readNodeLength der ix = .ok ptr ↔ ∃ content length, headerAt der ix = some (content, length) ∧
      content + length < 2 ^ 256 ∧ ptr = getPtr ix content (uint80 (content + length - 1)) := by
  cases found : der[ix + 1]? with
  | none =>
    rw [headerAt, found, readNodeLength]
    simp only [bind_eq_ok, add_eq_ok, byteAt_eq_ok, Option.bind_none, reduceCtorEq, false_and,
      exists_false, iff_false]
    rintro ⟨_, ⟨-, rfl⟩, lengthByte, foundByte, -⟩
    cases found.symm.trans foundByte
  | some lengthByte =>
    obtain ⟨inside, -⟩ := List.getElem?_eq_some_iff.mp found
    have first : add ix 1 = .ok (ix + 1) := add_eq_ok.mpr ⟨by omega, rfl⟩
    have next : add ix 2 = .ok (ix + 2) := add_eq_ok.mpr ⟨by omega, rfl⟩
    have byte : byteAt der (ix + 1) = .ok lengthByte := byteAt_eq_ok.mpr found
    have byte_lt := lengthByte.toNat_lt
    rw [readNodeLength, first, ok_bind, byte, ok_bind, headerAt, found, Option.bind_some]
    -- short form: the byte is the length; long form: it counts the bytes of the length
    by_cases short : lengthByte.toNat < 128
    · have content : uint80 (ix + 2) = ix + 2 := Nat.mod_eq_of_lt (by omega)
      rw [if_pos ((highBit_eq_zero_iff _).mpr short), if_pos short, next, ok_bind, content]
      simp only [bind_eq_ok, add_eq_ok, sub_eq_ok, pure_eq_ok, Option.some.injEq, Prod.mk.injEq]
      constructor
      · rintro ⟨_, ⟨fits, rfl⟩, _, ⟨-, rfl⟩, rfl⟩
        exact ⟨_, _, ⟨rfl, rfl⟩, fits, rfl⟩
      · rintro ⟨_, _, ⟨rfl, rfl⟩, fits, rfl⟩
        exact ⟨_, ⟨fits, rfl⟩, _, ⟨by omega, rfl⟩, rfl⟩
    · have count : (lengthByte &&& 0x7F).toNat = lengthByte.toNat - 128 := by
        rw [toNat_lowBits]
        omega
      have header : add (ix + 2) (lengthByte.toNat - 128) = .ok (ix + 2 + (lengthByte.toNat - 128)) :=
        add_eq_ok.mpr ⟨by omega, rfl⟩
      have content : uint80 (ix + 2 + (lengthByte.toNat - 128)) = ix + 2 + (lengthByte.toNat - 128) :=
        Nat.mod_eq_of_lt (by omega)
      -- the source compares the count, the specification the byte
      have counts : (lengthByte.toNat = 128 ∨ 160 < lengthByte.toNat ∨
          der.length < ix + 2 + (lengthByte.toNat - 128)) ↔ (lengthByte.toNat - 128 = 0 ∨
            32 < lengthByte.toNat - 128 ∨ der.length < ix + 2 + (lengthByte.toNat - 128)) := by
        omega
      have longLength {length : Nat} := @readLongLength_eq_ok der ix (lengthByte.toNat - 128) length
        (by omega)
      rw [if_neg fun zero => short ((highBit_eq_zero_iff _).mp zero), if_neg short, count, next]
      simp only [ok_bind, header, content]
      simp only [bind_eq_ok, longLength, ← counts, add_eq_ok, sub_eq_ok, pure_eq_ok]
      constructor
      · rintro ⟨length, ⟨counted, isLength⟩, behind, ⟨fits, isBehind⟩, last, ⟨-, isLast⟩, isPtr⟩
        rw [if_neg counted, ← isLength]
        exact ⟨_, length, rfl, fits, by rw [← isPtr, isLast, isBehind]⟩
      · rintro ⟨content', length, isHeader, fits, rfl⟩
        split at isHeader
        · cases isHeader
        next counted =>
          obtain ⟨rfl, rfl⟩ := Prod.mk.inj (Option.some.inj isHeader)
          exact ⟨_, ⟨counted, rfl⟩, _, ⟨fits, rfl⟩, _, ⟨by omega, rfl⟩, rfl⟩

theorem uint80_lt (n : Nat) : uint80 n < 2 ^ 80 := Nat.mod_lt _ (Nat.two_pow_pos _)

/-- A pointer to the node at a position, with the header that it was read from. -/
structure PointsTo (der : Bytes) (ptr ix content length : Nat) : Prop where
  header : headerAt der ix = some (content, length)
  ixs : NodePtr.ixs ptr = ix
  ixf : NodePtr.ixf ptr = content
  ixl : NodePtr.ixl ptr = uint80 (content + length - 1)

theorem pointsTo_getPtr (small : der.length < 2 ^ 64) {content length : Nat}
    (header : headerAt der ix = some (content, length)) :
    PointsTo der (getPtr ix content (uint80 (content + length - 1))) ix content length := by
  obtain ⟨inside, -, start⟩ := headerAt_bounds header
  have first : ix < 2 ^ 80 := by omega
  have contentFits : content < 2 ^ 80 := by omega
  have last := uint80_lt (content + length - 1)
  exact ⟨header, ixs_getPtr first contentFits last, ixf_getPtr first contentFits last,
    ixl_getPtr first contentFits last⟩

theorem pointsTo_of_read (small : der.length < 2 ^ 64) {ptr : Nat}
    (read : readNodeLength der ix = .ok ptr) : ∃ content length, PointsTo der ptr ix content length := by
  obtain ⟨content, length, header, -, rfl⟩ := (readNodeLength_eq_ok small).mp read
  exact ⟨content, length, pointsTo_getPtr small header⟩

end Asn1Decode

end Decentagram.RaOnchain
