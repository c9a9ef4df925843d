import Decentagram.Lib.WordMemory
import Decentagram.RaOnchain.Asn1Decode

/-! # Byte strings in the memory of a contract

`BytesUtils` reads and copies with words.  Its functions on memory do what those on byte strings do, and
what they allocate is all they change.  Gas bounds what is allocated, so addresses do not wrap around.
-/

namespace Decentagram.RaOnchain

open Decentagram.Lib BytesUtils BigEndian WordMemory

/-- A string in memory: the word of its length and its bytes. -/
structure Holds (memory : Memory) (ptr : Nat) (bytes : Bytes) : Prop where
  length : load memory ptr = bytes.length
  bytes : bytesAt memory (ptr + 32) bytes.length = bytes

/-- `new bytes(length)` at the free memory pointer. -/
def newBytes (memory : Memory) (free length : Nat) : Memory :=
  storeBytes (store memory free length) (free + 32) (List.replicate ((length + 31) / 32 * 32) 0)

/-- What a function returns in fresh memory: the string that is expected, behind what is in use. -/
def Allocates (memory : Memory) (free : Nat) (returned : Except Revert (Memory × Nat)) :
    Except Revert Bytes → Prop
  | .error revert => returned = .error revert
  | .ok bytes => ∃ memory' ptr, returned = .ok (memory', ptr) ∧ free ≤ ptr ∧ Holds memory' ptr bytes ∧
      ∀ place < free, memory' place = memory place

namespace BytesMemory

/-- `self[index]`. -/
def byteAt (memory : Memory) (self index : Nat) : Except Revert UInt8 :=
  if index < load memory self then .ok (memory (self + 32 + index)) else .error .panic

def readUint8 (memory : Memory) (self idx : Nat) : Except Revert Nat := do
  return (← byteAt memory self idx).toNat

def readUint16 (memory : Memory) (self idx : Nat) : Except Revert Nat := do
  require ((← add idx 2) ≤ load memory self) ""
  return load memory (self + 2 + idx) &&& 0xFFFF

def readBytes32 (memory : Memory) (self idx : Nat) : Except Revert Bytes32 := do
  require ((← add idx 32) ≤ load memory self) ""
  return BitVec.ofNat 256 (load memory (self + 32 + idx))

def readBytesN (memory : Memory) (self idx len : Nat) : Except Revert Bytes32 := do
  require (len ≤ 32) ""
  require ((← add idx len) ≤ load memory self) ""
  let mask := 2 ^ 256 - 1 - (256 ^ (32 - len) - 1)
  return BitVec.ofNat 256 (load memory (self + 32 + idx) &&& mask)

/-- The memory afterwards, and where the copy is in it. -/
def substringUnsafe (memory : Memory) (free self offset len : Nat) : Except Revert (Memory × Nat) := do
  require ((← add offset len) ≤ load memory self) ""
  let memory := newBytes memory free len
  -- `memcpyUnsafe`
  return (copy memory (free + 32) (self + 32 + offset) len, free)

def memcpyWords (memory : Memory) (dest src len : Nat) : Memory :=
  if 32 ≤ len then memcpyWords (store memory dest (load memory src)) (dest + 32) (src + 32) (len - 32)
  else memory
termination_by len

def memcpySafe (memory : Memory) (dest src len : Nat) : Except Revert Memory := do
  require (len % 32 = 0) "Unaligned memcpy not allowed."
  return memcpyWords memory dest src len

/-- `ret[dest + i] = self[src + i]` for the numbers from `i` on. -/
def copyUnaligned (memory : Memory) (ret dest self src i : Nat) : Nat → Except Revert Memory
  | 0 => .ok memory
  | left + 1 => do
    let byte ← byteAt memory self (src + i)
    -- the bounds of `ret` are checked as well
    let _ ← byteAt memory ret (dest + i)
    copyUnaligned (storeBytes memory (ret + 32 + (dest + i)) [byte]) ret dest self src (i + 1) left

def substrstringFast (memory : Memory) (free self offset len : Nat) : Except Revert (Memory × Nat) := do
  require ((← add offset len) ≤ load memory self) "Invalid length"
  let memory := newBytes memory free len
  let alignedLen := len / 32 * 32
  let memory ← memcpySafe memory (free + 32) (self + 32 + offset) alignedLen
  let memory ← copyUnaligned memory free alignedLen self (offset + alignedLen) 0 (len - alignedLen)
  return (memory, free)

end BytesMemory

/-! ## Strings in memory -/

section

variable {memory memory' : Memory} {ptr free length : Nat} {bytes : Bytes}

/-- A string is that of its bytes in memory. -/
theorem Holds.of_unchanged (holds : Holds memory ptr bytes)
    (unchanged : ∀ place, ptr ≤ place → place < ptr + 32 + bytes.length → memory' place = memory place) :
    Holds memory' ptr bytes where
  length := (load_congr fun place after before => unchanged place after (by omega)).trans holds.length
  bytes := (bytesAt_congr fun place after before => unchanged place (by omega) before).trans holds.bytes

theorem bytesAt_slice (holds : Holds memory ptr bytes) {offset len : Nat}
    (inside : offset + len ≤ bytes.length) :
    bytesAt memory (ptr + 32 + offset) len = slice bytes offset len := by
  have whole : bytes.length = offset + (len + (bytes.length - (offset + len))) := by omega
  have parts := holds.bytes
  rw [whole, bytesAt_add, bytesAt_add] at parts
  rw [slice, ← parts, List.drop_left' length_bytesAt, List.take_left' length_bytesAt]

theorem newBytes_below {place : Nat} (below : place < free) :
    newBytes memory free length place = memory place := by
  rw [newBytes, storeBytes_outside (.inl (by omega)), store, storeBytes_outside (.inl below)]

theorem load_newBytes (small : length < 2 ^ 256) : load (newBytes memory free length) free = length := by
  have sized := @load_store memory free length
  rw [Nat.mod_eq_of_lt (Nat.lt_of_lt_of_eq small (Nat.pow_mul 2 8 32))] at sized
  exact (load_congr fun _ _ before => storeBytes_outside (.inl before)).trans sized

/-- A new string whose bytes have been written. -/
theorem holds_newBytes (small : bytes.length < 2 ^ 256) :
    Holds (storeBytes (newBytes memory free bytes.length) (free + 32) bytes) free bytes where
  length := (load_congr fun _ _ before => storeBytes_outside (.inl before)).trans
    (load_newBytes small)
  bytes := bytesAt_storeBytes

end

namespace BytesMemory

/-! ## Reading -/

section

variable {memory : Memory} {self : Nat} {bytes : Bytes} (holds : Holds memory self bytes)
include holds

theorem byteAt_eq (index : Nat) : byteAt memory self index = BytesUtils.byteAt bytes index := by
  rw [byteAt, holds.length, BytesUtils.byteAt]
  split
  next inside => rw [getElem?_of_bytesAt holds.bytes inside]
  next outside => rw [List.getElem?_eq_none (Nat.not_lt.mp outside)]

theorem readUint8_eq (idx : Nat) : readUint8 memory self idx = BytesUtils.readUint8 bytes idx := by
  rw [readUint8, byteAt_eq holds, BytesUtils.readUint8]

/-- A check that the end of a range is inside, and what is read then. -/
theorem read_eq {α : Type} {idx len : Nat} {text : String} {read read' : α}
    (same : idx + len ≤ bytes.length → read = read') :
    (do require ((← add idx len) ≤ load memory self) text; return read : Except Revert α) =
      (do require ((← add idx len) ≤ bytes.length) text; return read') := by
  rw [holds.length, add]
  split
  next fits =>
    simp only [ok_bind, require]
    split
    next inside => rw [same inside]
    next outside => rfl
  next overflows => rfl

theorem readUint16_eq (idx : Nat) : readUint16 memory self idx = BytesUtils.readUint16 bytes idx := by
  refine read_eq holds fun inside => ?_
  have low := @load_mod memory (self + 2 + idx) 2 (by decide)
  have place : self + 2 + idx + (32 - 2) = self + 32 + idx := by omega
  rw [place, bytesAt_slice holds inside] at low
  rw [← low, ← Nat.pow_mul 2 8 2]
  exact Nat.and_two_pow_sub_one_eq_mod (load memory (self + 2 + idx)) 16

theorem readBytes32_eq (idx : Nat) : readBytes32 memory self idx = BytesUtils.readBytes32 bytes idx := by
  refine read_eq holds fun inside => ?_
  rw [load, bytesAt_slice holds inside]

theorem readBytesN_eq (idx len : Nat) :
    readBytesN memory self idx len = BytesUtils.readBytesN bytes idx len := by
  rw [readBytesN, BytesUtils.readBytesN]
  by_cases small : len ≤ 32
  · simp only [require, small, if_true, ok_bind]
    refine read_eq holds fun inside => ?_
    have bits : 256 ^ (32 - len) = 2 ^ (8 * (32 - len)) := (Nat.pow_mul 2 8 (32 - len)).symm
    have high := @load_div memory (self + 32 + idx) _ small
    rw [bytesAt_slice holds inside] at high
    rw [← high, bits, and_complement _ load_lt (by omega)]
  · rw [require, if_neg small]
    exact Eq.refl (Except.error _)

end

/-! ## Copying -/

section

variable {memory : Memory} {free self offset len : Nat} {bytes : Bytes}

theorem length_slice (inside : offset + len ≤ bytes.length) : (slice bytes offset len).length = len := by
  rw [slice, List.length_take, List.length_drop]
  omega

/-- A copy of a slice into a new string. -/
theorem allocates_slice (holds : Holds memory self bytes)
    (inside : offset + len ≤ bytes.length) :
    Allocates memory free
      (.ok (storeBytes (newBytes memory free len) (free + 32) (slice bytes offset len), free))
      (.ok (slice bytes offset len)) := by
  have small := @load_lt memory self
  have isLength := length_slice inside
  rw [holds.length] at small
  refine ⟨_, _, rfl, Nat.le_refl _, ?_, fun place isBelow => ?_⟩
  · have isNew := @holds_newBytes memory free (slice bytes offset len)
      (by
        rw [isLength]
        exact Nat.lt_of_le_of_lt (by omega) (Nat.lt_of_lt_of_eq small (Nat.pow_mul 2 8 32).symm))
    rwa [isLength] at isNew
  · rw [storeBytes_outside (.inl (by omega)), newBytes_below isBelow]

/-- The slice as it is after the allocation. -/
theorem bytesAt_newBytes (holds : Holds memory self bytes) (below : self + 32 + bytes.length ≤ free)
    (inside : offset + len ≤ bytes.length) :
    bytesAt (newBytes memory free len) (self + 32 + offset) len = slice bytes offset len :=
  bytesAt_slice (holds.of_unchanged fun place _ before => newBytes_below (by omega)) inside

theorem substringUnsafe_allocates (holds : Holds memory self bytes)
    (below : self + 32 + bytes.length ≤ free) (offset len : Nat) :
    Allocates memory free (substringUnsafe memory free self offset len)
      (BytesUtils.substringUnsafe bytes offset len) := by
  rw [substringUnsafe, BytesUtils.substringUnsafe, holds.length, add]
  split
  next fits =>
    simp only [ok_bind, require]
    split
    next inside =>
      rw [ok_bind, ok_bind, copy_eq (.inl (by omega)), bytesAt_newBytes holds below inside]
      exact allocates_slice holds inside
    next outside => exact Eq.refl (Except.error _)
  next overflows => exact Eq.refl (Except.error _)

theorem memcpyWords_eq {dest src : Nat} (aligned : len % 32 = 0) (apart : src + len ≤ dest) :
    memcpyWords memory dest src len = storeBytes memory dest (bytesAt memory src len) := by
  rw [← copy_eq (.inl apart)]
  induction len using Nat.strong_induction_on generalizing memory dest src with
  | _ len inductionHypothesis =>
    rw [memcpyWords, copy]
    split
    next aWord => exact inductionHypothesis (len - 32) (by omega) (by omega) (by omega)
    next aPart =>
      have none : len = 0 := by omega
      have nothing := @storeBytes_bytesAt memory dest 0
      rw [none, patch_eq (by decide)]
      exact nothing.symm

theorem slice_succ {start left : Nat} (inside : start < bytes.length) :
    slice bytes start (left + 1) = bytes[start] :: slice bytes (start + 1) left := by
  rw [slice, List.drop_eq_getElem_cons inside, List.take_succ_cons, slice]

theorem slice_append (bytes : Bytes) (offset first second : Nat) :
    slice bytes offset first ++ slice bytes (offset + first) second = slice bytes offset (first + second) := by
  rw [slice, slice, slice, List.take_add, List.drop_drop]

/-- The bytes that are copied one by one; neither check fails. -/
theorem copyUnaligned_eq {ret dest src i left : Nat} (holds : Holds memory self bytes)
    (below : self + 32 + bytes.length ≤ ret) (fromInside : src + i + left ≤ bytes.length)
    (toInside : dest + i + left ≤ load memory ret) :
    copyUnaligned memory ret dest self src i left =
      .ok (storeBytes memory (ret + 32 + (dest + i)) (slice bytes (src + i) left)) := by
  induction left generalizing memory i with
  | zero =>
    have nothing := @storeBytes_bytesAt memory (ret + 32 + (dest + i)) 0
    rw [slice, List.take_zero]
    exact congrArg Except.ok nothing.symm
  | succ left inductionHypothesis =>
    have inside : src + i < bytes.length := by omega
    have isByte : BytesUtils.byteAt bytes (src + i) = .ok bytes[src + i] :=
      byteAt_eq_ok.mpr (List.getElem?_eq_getElem inside)
    have checked : byteAt memory ret (dest + i) = .ok (memory (ret + 32 + (dest + i))) :=
      if_pos (by omega)
    rw [copyUnaligned, byteAt_eq holds, isByte, ok_bind, checked, ok_bind]
    have one : [bytes[src + i]].length = 1 := rfl
    have unchanged (place : Nat) (before : place < ret + 32) :
        storeBytes memory (ret + 32 + (dest + i)) [bytes[src + i]] place = memory place :=
      storeBytes_outside (.inl (by omega))
    rw [inductionHypothesis (i := i + 1) (holds.of_unchanged fun place _ before => unchanged place (by omega))
      (by omega) (by rw [load_congr fun place _ before => unchanged place before]; omega)]
    have joined := @storeBytes_append memory (ret + 32 + (dest + i))
      [bytes[src + i]] (slice bytes (src + (i + 1)) left)
    rw [one] at joined
    rw [slice_succ inside]
    exact congrArg Except.ok joined

theorem substrstringFast_allocates (holds : Holds memory self bytes)
    (below : self + 32 + bytes.length ≤ free) (offset len : Nat) :
    Allocates memory free (substrstringFast memory free self offset len)
      (BytesUtils.substrstringFast bytes offset len) := by
  rw [substrstringFast, BytesUtils.substrstringFast, holds.length, add]
  split
  next fits =>
    simp only [ok_bind, require]
    split
    next inside =>
      have aligned : len / 32 * 32 % 32 = 0 := Nat.mul_mod_left _ _
      have joined := slice_append bytes offset (len / 32 * 32) (len - len / 32 * 32)
      have isLength := @length_slice offset (len / 32 * 32) bytes (by omega)
      have isNew : Holds (newBytes memory free len) self bytes :=
        holds.of_unchanged fun place _ before => newBytes_below (by omega)
      rw [Nat.add_sub_cancel' (Nat.div_mul_le_self len 32)] at joined
      rw [memcpySafe, require, if_pos aligned, ok_bind, ok_bind, memcpyWords_eq aligned (by omega),
        bytesAt_slice isNew (by omega)]
      generalize isWords :
        storeBytes (newBytes memory free len) (free + 32) (slice bytes offset (len / 32 * 32)) =
        words
      have unchanged (place : Nat) (before : place < free + 32) :
          words place = newBytes memory free len place := by
        rw [← isWords]
        exact storeBytes_outside (.inl before)
      have small := @load_lt memory self
      rw [holds.length] at small
      have sized : load words free = len := by
        rw [load_congr fun place _ before => unchanged place before]
        exact load_newBytes (Nat.lt_of_le_of_lt (by omega)
          (Nat.lt_of_lt_of_eq small (Nat.pow_mul 2 8 32).symm))
      rw [pure_bind, copyUnaligned_eq (isNew.of_unchanged fun place _ before => unchanged place (by omega))
        below (by omega) (by omega), ok_bind, ← isWords]
      simp only [Nat.add_zero]
      have parts := @storeBytes_append (newBytes memory free len) (free + 32)
        (slice bytes offset (len / 32 * 32)) (slice bytes (offset + len / 32 * 32) (len - len / 32 * 32))
      rw [isLength] at parts
      rw [parts, joined]
      exact allocates_slice holds inside
    next outside => exact Eq.refl (Except.error _)
  next overflows => exact Eq.refl (Except.error _)

end

/-- Wherever a string is in memory, the word-wise functions read and copy what those on its bytes do, with
    the same errors, and what they allocate is all they change. -/
theorem bytesMemory_refines (memory : Memory) (free self : Nat) (bytes : Bytes)
    (holds : Holds memory self bytes) (below : self + 32 + bytes.length ≤ free) (idx len : Nat) :
    readUint8 memory self idx = BytesUtils.readUint8 bytes idx ∧
      readUint16 memory self idx = BytesUtils.readUint16 bytes idx ∧
      readBytes32 memory self idx = BytesUtils.readBytes32 bytes idx ∧
      readBytesN memory self idx len = BytesUtils.readBytesN bytes idx len ∧
      Allocates memory free (substringUnsafe memory free self idx len)
        (BytesUtils.substringUnsafe bytes idx len) ∧
      Allocates memory free (substrstringFast memory free self idx len)
        (BytesUtils.substrstringFast bytes idx len) :=
  ⟨readUint8_eq holds idx, readUint16_eq holds idx, readBytes32_eq holds idx, readBytesN_eq holds idx len,
    substringUnsafe_allocates holds below idx len, substrstringFast_allocates holds below idx len⟩

/-- Forty bytes at address 0. -/
def fortyBytes : Memory := storeBytes (store (fun _ => 0) 0 40) 32 (List.replicate 40 7)

theorem bytesMemory_refines_fortyBytes :
    Allocates fortyBytes 96 (substrstringFast fortyBytes 96 0 3 35)
      (BytesUtils.substrstringFast (List.replicate 40 7) 3 35) :=
  (bytesMemory_refines fortyBytes 96 0 (List.replicate 40 7) ⟨by decide +kernel, by decide +kernel⟩
    (by decide) 3 35).2.2.2.2.2

end BytesMemory

end Decentagram.RaOnchain
