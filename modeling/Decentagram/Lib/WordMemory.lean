import Decentagram.Lib.BigEndian
import Mathlib.Data.List.Basic

/-! # Memory of bytes, read and written in words

Every address has a byte.  A word is the big-endian number of the 32 bytes from its address on, so a word
near the end of a block reaches over it.
-/

namespace Decentagram.Lib.WordMemory

open BigEndian

abbrev Memory := Nat → UInt8

def bytesAt (memory : Memory) (address count : Nat) : List UInt8 :=
  (List.range' address count).map memory

def load (memory : Memory) (address : Nat) : Nat := value (bytesAt memory address 32)

def storeBytes (memory : Memory) (address : Nat) (bytes : List UInt8) : Memory := fun place =>
  if address ≤ place then bytes.getD (place - address) (memory place) else memory place

def store (memory : Memory) (address word : Nat) : Memory := storeBytes memory address (digits 32 word)

variable {memory memory' : Memory} {address count first second word : Nat} {bytes : List UInt8}

/-! ## Reading -/

@[simp] theorem length_bytesAt : (bytesAt memory address count).length = count := by simp [bytesAt]

@[simp] theorem bytesAt_zero : bytesAt memory address 0 = [] := rfl

theorem bytesAt_succ :
    bytesAt memory address (count + 1) = memory address :: bytesAt memory (address + 1) count := by
  simp [bytesAt, List.range'_succ]

theorem bytesAt_one : bytesAt memory address 1 = [memory address] := bytesAt_succ

theorem bytesAt_add : bytesAt memory address (first + second) =
    bytesAt memory address first ++ bytesAt memory (address + first) second := by
  simp [bytesAt, ← List.range'_append_1]

theorem take_bytesAt (less : first ≤ count) :
    (bytesAt memory address count).take first = bytesAt memory address first := by
  rw [bytesAt, ← List.map_take, List.take_range'_of_length_ge less, bytesAt]

theorem bytesAt_congr
    (same : ∀ place, address ≤ place → place < address + count → memory place = memory' place) :
    bytesAt memory address count = bytesAt memory' address count := by
  refine List.map_congr_left fun place isPlace => ?_
  rw [List.mem_range'_1] at isPlace
  exact same place isPlace.1 isPlace.2

theorem getElem?_bytesAt {i : Nat} (inside : i < count) :
    (bytesAt memory address count)[i]? = some (memory (address + i)) := by
  simp [bytesAt, inside]

/-- The bytes of a string that is in memory. -/
theorem getElem?_of_bytesAt {i : Nat} (isBytes : bytesAt memory address bytes.length = bytes)
    (inside : i < bytes.length) : bytes[i]? = some (memory (address + i)) := by
  have read := @getElem?_bytesAt memory address _ _ inside
  rwa [isBytes] at read

/-! ## Words -/

theorem value_append (left right : List UInt8) :
    value (left ++ right) = value left * 256 ^ right.length + value right := by
  induction left with
  | nil => simp
  | cons byte left inductionHypothesis =>
    simp only [List.cons_append, value_cons, inductionHypothesis, List.length_append, Nat.pow_add]
    rw [Nat.add_mul, Nat.mul_assoc, Nat.add_assoc]

theorem load_eq (small : count ≤ 32) : load memory address =
    value (bytesAt memory address (32 - count)) * 256 ^ count +
      value (bytesAt memory (address + (32 - count)) count) := by
  have whole : 32 - count + count = 32 := Nat.sub_add_cancel small
  rw [load, ← whole, bytesAt_add, value_append, length_bytesAt, whole]

/-- The lowest bytes of a word are those at its end. -/
theorem load_mod (small : count ≤ 32) :
    load memory address % 256 ^ count = value (bytesAt memory (address + (32 - count)) count) := by
  have low := value_lt (bytesAt memory (address + (32 - count)) count)
  rw [length_bytesAt] at low
  rw [load_eq small, Nat.mul_add_mod_self_right, Nat.mod_eq_of_lt low]

/-- The highest bytes of a word are those at its address. -/
theorem load_div (small : count ≤ 32) :
    load memory address / 256 ^ (32 - count) = value (bytesAt memory address count) := by
  have low := value_lt (bytesAt memory (address + count) (32 - count))
  have rest : 32 - (32 - count) = count := by omega
  rw [length_bytesAt] at low
  rw [load_eq (Nat.sub_le 32 count), rest, Nat.mul_comm, Nat.mul_add_div (Nat.pow_pos (by decide)),
    Nat.div_eq_of_lt low, Nat.add_zero]

theorem load_lt : load memory address < 256 ^ 32 := by
  have bound := value_lt (bytesAt memory address 32)
  rwa [length_bytesAt] at bound

/-! ## Writing -/

theorem storeBytes_inside {i : Nat} {byte : UInt8} (isByte : bytes[i]? = some byte) :
    storeBytes memory address bytes (address + i) = byte := by
  simp [storeBytes, isByte]

theorem storeBytes_outside {place : Nat}
    (outside : place < address ∨ address + bytes.length ≤ place) :
    storeBytes memory address bytes place = memory place := by
  unfold storeBytes
  split
  next behind =>
    have noByte : bytes.length ≤ place - address := by omega
    simp [noByte]
  next before => rfl

@[simp] theorem bytesAt_storeBytes :
    bytesAt (storeBytes memory address bytes) address bytes.length = bytes := by
  apply List.ext_getElem?
  intro i
  by_cases inside : i < bytes.length
  · rw [getElem?_bytesAt inside, storeBytes_inside (List.getElem?_eq_getElem inside),
      List.getElem?_eq_getElem inside]
  · simp [inside]

theorem bytesAt_storeBytes_of_disjoint {place : Nat}
    (disjoint : place + count ≤ address ∨ address + bytes.length ≤ place) :
    bytesAt (storeBytes memory address bytes) place count = bytesAt memory place count := by
  apply bytesAt_congr
  intro other isAfter isBefore
  exact storeBytes_outside (by omega)

/-- A store behind what stays, of which only the front counts. -/
theorem bytesAt_storeBytes_append {front : List UInt8} {rest : Nat}
    (isFront : bytesAt memory address front.length = front)
    (enough : rest ≤ bytes.length) :
    bytesAt (storeBytes memory (address + front.length) bytes) address (front.length + rest) =
      front ++ bytes.take rest := by
  rw [bytesAt_add, bytesAt_storeBytes_of_disjoint (.inl (Nat.le_refl _)), isFront]
  refine congrArg (front ++ ·) (List.ext_getElem? fun i => ?_)
  by_cases inside : i < rest
  · have isByte := List.getElem?_eq_getElem (Nat.lt_of_lt_of_le inside enough)
    rw [getElem?_bytesAt inside, storeBytes_inside isByte, List.getElem?_take_of_lt inside, isByte]
  · simp [inside]

theorem load_store : load (store memory address word) address = word % 256 ^ 32 := by
  have written := @bytesAt_storeBytes memory address (digits 32 word)
  rw [length_digits] at written
  rw [load, store, written, value_digits]

theorem load_congr
    (same : ∀ place, address ≤ place → place < address + 32 → memory place = memory' place) :
    load memory address = load memory' address := congrArg value (bytesAt_congr same)

/-! ## Copying -/

/-- The word of which the first bytes are those of the source, and the others stay. -/
def patch (memory : Memory) (dest src count : Nat) : Memory :=
  let mask := 256 ^ (32 - count) - 1
  let srcpart := load memory src &&& (2 ^ 256 - 1 - mask)
  let destpart := load memory dest &&& mask
  store memory dest (destpart ||| srcpart)

/-- As many words as fit, and the rest with a word of which only the front is replaced. -/
def copy (memory : Memory) (dest src count : Nat) : Memory :=
  if 32 ≤ count then copy (store memory dest (load memory src)) (dest + 32) (src + 32) (count - 32)
  else patch memory dest src count
termination_by count

theorem storeBytes_append (front rest : List UInt8) :
    storeBytes (storeBytes memory address front) (address + front.length) rest =
      storeBytes memory address (front ++ rest) := by
  funext place
  by_cases before : place < address
  · rw [storeBytes_outside (.inl (by omega)), storeBytes_outside (.inl before),
      storeBytes_outside (.inl before)]
  obtain ⟨i, rfl⟩ : ∃ i, place = address + i := ⟨place - address, by omega⟩
  by_cases inFront : i < front.length
  · have isByte := List.getElem?_eq_getElem inFront
    rw [storeBytes_outside (.inl (by omega)), storeBytes_inside isByte,
      storeBytes_inside ((List.getElem?_append_left inFront).trans isByte)]
  by_cases inRest : i - front.length < rest.length
  · have isByte := List.getElem?_eq_getElem inRest
    have split : address + i = address + front.length + (i - front.length) := by omega
    rw [storeBytes_inside ((List.getElem?_append_right (by omega)).trans isByte), split,
      storeBytes_inside isByte]
  · rw [storeBytes_outside (.inr (by omega)), storeBytes_outside (.inr (by omega)),
      storeBytes_outside (.inr (by rw [List.length_append]; omega))]

/-- Bytes that are already there. -/
@[simp] theorem storeBytes_bytesAt : storeBytes memory address (bytesAt memory address count) = memory := by
  funext place
  by_cases outside : place < address ∨ address + count ≤ place
  · rw [storeBytes_outside (by rwa [length_bytesAt])]
  · obtain ⟨i, rfl⟩ : ∃ i, place = address + i := ⟨place - address, by omega⟩
    exact storeBytes_inside (getElem?_bytesAt (by omega))

theorem store_load (dest src : Nat) :
    store memory dest (load memory src) = storeBytes memory dest (bytesAt memory src 32) := by
  have back := digits_value (bytesAt memory src 32)
  rw [length_bytesAt] at back
  rw [store, load, back]

theorem and_complement (word : Nat) {bits : Nat} (isWord : word < 2 ^ 256) (small : bits ≤ 256) :
    word &&& (2 ^ 256 - 1 - (2 ^ bits - 1)) = word / 2 ^ bits * 2 ^ bits := by
  apply Nat.eq_of_testBit_eq
  intro i
  have positive : 0 < 2 ^ bits := Nat.two_pow_pos bits
  have complement : 2 ^ 256 - 1 - (2 ^ bits - 1) = 2 ^ 256 - (2 ^ bits - 1 + 1) := by omega
  have below : 2 ^ bits - 1 < 2 ^ 256 := by
    have le := Nat.pow_le_pow_right (n := 2) (by decide) small
    omega
  rw [complement, Nat.testBit_and, Nat.testBit_two_pow_sub_succ below, Nat.testBit_two_pow_sub_one,
    Nat.testBit_mul_two_pow, Nat.testBit_div_two_pow]
  by_cases isLow : i < bits
  · simp [isLow]
  · by_cases inWord : i < 256
    · simp [isLow, inWord, Nat.sub_add_cancel (Nat.not_lt.mp isLow), Nat.not_lt.mp isLow]
    · have noBit : word.testBit i = false :=
        Nat.testBit_lt_two_pow (isWord.trans_le (Nat.pow_le_pow_right (by decide) (Nat.not_lt.mp inWord)))
      simp [isLow, inWord, noBit, Nat.sub_add_cancel (Nat.not_lt.mp isLow)]

/-- The front of the source, and the bytes that stood behind it. -/
theorem digits_patch {dest src : Nat} (small : count ≤ 32) :
    digits 32 ((load memory dest &&& (256 ^ (32 - count) - 1)) |||
        (load memory src &&& (2 ^ 256 - 1 - (256 ^ (32 - count) - 1)))) =
      bytesAt memory src count ++ bytesAt memory (dest + count) (32 - count) := by
  refine eq_of_value_eq (by simp; omega) ?_
  have bits : 256 ^ (32 - count) = 2 ^ (8 * (32 - count)) := (Nat.pow_mul 2 8 (32 - count)).symm
  have srcpart := @and_complement (load memory src) (8 * (32 - count)) (@load_lt memory src)
    (by omega)
  have destpart := @load_mod memory dest _ (Nat.sub_le 32 count)
  have front := @load_div memory src _ small
  have rest : 32 - (32 - count) = count := Nat.sub_sub_self small
  have below := Nat.mod_lt (load memory dest) (Nat.pow_pos (n := 32 - count) (by decide : 0 < 256))
  rw [rest] at destpart
  rw [value_digits, value_append, length_bytesAt, ← destpart, ← front, bits, srcpart,
    Nat.and_two_pow_sub_one_eq_mod, Nat.or_comm, Nat.mul_comm, ← Nat.two_pow_add_eq_or_of_lt (bits ▸ below),
    ← bits]
  have total : 256 ^ (32 - count) * (load memory src / 256 ^ (32 - count)) +
      load memory dest % 256 ^ (32 - count) < 256 ^ 32 := by
    have highest := value_lt (bytesAt memory src count)
    rw [length_bytesAt, ← front] at highest
    calc 256 ^ (32 - count) * (load memory src / 256 ^ (32 - count)) + load memory dest % 256 ^ (32 - count)
        < 256 ^ (32 - count) * (load memory src / 256 ^ (32 - count)) + 256 ^ (32 - count) :=
          Nat.add_lt_add_left below _
      _ = 256 ^ (32 - count) * (load memory src / 256 ^ (32 - count) + 1) := (Nat.mul_succ _ _).symm
      _ ≤ 256 ^ (32 - count) * 256 ^ count := Nat.mul_le_mul_left _ highest
      _ = 256 ^ 32 := by rw [← Nat.pow_add, Nat.sub_add_cancel small]
  exact Nat.mod_eq_of_lt total

theorem patch_eq {dest src : Nat} (small : count ≤ 32) :
    patch memory dest src count = storeBytes memory dest (bytesAt memory src count) := by
  have stays : bytesAt memory (dest + count) (32 - count) =
      bytesAt (storeBytes memory dest (bytesAt memory src count)) (dest + count) (32 - count) :=
    (bytesAt_storeBytes_of_disjoint (.inr (by rw [length_bytesAt]))).symm
  have split := @storeBytes_append memory dest (bytesAt memory src count)
    (bytesAt memory (dest + count) (32 - count))
  rw [patch, store, digits_patch small, ← split, length_bytesAt, stays, storeBytes_bytesAt]

/-- A copy from before or behind writes the bytes of the source, and nothing else. -/
theorem copy_eq {dest src : Nat} (apart : src + count ≤ dest ∨ dest ≤ src) :
    copy memory dest src count = storeBytes memory dest (bytesAt memory src count) := by
  induction count using Nat.strong_induction_on generalizing memory dest src with
  | _ count inductionHypothesis =>
    rw [copy]
    split
    next aWord =>
      have stays : bytesAt (storeBytes memory dest (bytesAt memory src 32)) (src + 32) (count - 32) =
          bytesAt memory (src + 32) (count - 32) :=
        bytesAt_storeBytes_of_disjoint (by rw [length_bytesAt]; omega)
      have split := @storeBytes_append memory dest (bytesAt memory src 32)
        (bytesAt memory (src + 32) (count - 32))
      rw [length_bytesAt, ← bytesAt_add, Nat.add_sub_cancel' aWord] at split
      rw [inductionHypothesis (count - 32) (by omega) (by omega), store_load, stays, split]
    next aPart => exact patch_eq (by omega)

end Decentagram.Lib.WordMemory
