import Mathlib.Data.List.Basic

/-! # Buffers

A buffer is a block of memory of a fixed size.  Both a read and a write name a place in it, and have no
meaning where the place is not inside.
-/

namespace Decentagram.Lib.Buffer

variable {α : Type}

/-- The elements from the first position up to the last, exclusive. -/
def range (buffer : List α) (first last : Nat) : Option (List α) :=
  if first ≤ last ∧ last ≤ buffer.length then some ((buffer.drop first).take (last - first)) else none

/-- The buffer after the elements were written from a position on. -/
def store (buffer : List α) (position : Nat) (elements : List α) : Option (List α) :=
  if position + elements.length ≤ buffer.length then
    some (buffer.take position ++ (elements ++ buffer.drop (position + elements.length)))
  else none

variable {buffer front middle rest elements result : List α} {first last position : Nat}

theorem range_eq_some_iff : range buffer first last = some result ↔
    (first ≤ last ∧ last ≤ buffer.length) ∧ (buffer.drop first).take (last - first) = result := by
  unfold range
  split <;> simp [*]

theorem range_eq_none_iff : range buffer first last = none ↔ last < first ∨ buffer.length < last := by
  unfold range
  split <;> simp <;> omega

/-- A part of a buffer is read by its position and its length. -/
theorem range_append (isFirst : first = front.length) (isLast : last = first + middle.length) :
    range (front ++ (middle ++ rest)) first last = some middle := by
  subst isFirst isLast
  rw [range_eq_some_iff]
  refine ⟨by simp, ?_⟩
  rw [List.drop_left, Nat.add_sub_cancel_left, List.take_left]

theorem store_eq_some_iff : store buffer position elements = some result ↔
    position + elements.length ≤ buffer.length ∧
      buffer.take position ++ (elements ++ buffer.drop (position + elements.length)) = result := by
  unfold store
  split <;> simp [*]

/-- What is written behind the front leaves the front. -/
theorem store_append (isPosition : position = front.length) (fits : elements.length ≤ rest.length) :
    store (front ++ rest) position elements =
      some (front ++ (elements ++ rest.drop elements.length)) := by
  subst isPosition
  rw [store_eq_some_iff]
  refine ⟨by simp [fits], ?_⟩
  rw [List.take_left, List.drop_append, List.drop_of_length_le (by omega), List.nil_append,
    Nat.add_sub_cancel_left]

/-- What is written over a front of its own length replaces it. -/
theorem store_front (isLength : front.length = elements.length) :
    store (front ++ rest) 0 elements = some (elements ++ rest) := by
  rw [store_eq_some_iff]
  refine ⟨by simp [isLength], ?_⟩
  rw [List.take_zero, List.nil_append, Nat.zero_add, ← isLength, List.drop_left]

/-- A store into a fresh rest of a buffer. -/
theorem store_replicate {filler : α} {count : Nat} (isPosition : position = front.length)
    (fits : elements.length ≤ count) :
    store (front ++ List.replicate count filler) position elements =
      some ((front ++ elements) ++ List.replicate (count - elements.length) filler) := by
  rw [store_append isPosition (by simpa using fits), List.drop_replicate, List.append_assoc]

theorem store_eq_none_iff : store buffer position elements = none ↔
    buffer.length < position + elements.length := by
  unfold store
  split <;> simp <;> omega

end Decentagram.Lib.Buffer
