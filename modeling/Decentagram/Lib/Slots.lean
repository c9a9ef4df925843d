import Mathlib.Data.List.Basic

/-! # Tables of slots

A vector whose empty slots are used again.  What was put in a slot stays there until the slot is
cleared.
-/

namespace Decentagram.Lib

abbrev Slots (α : Type) := List (Option α)

namespace Slots

variable {α : Type}

def lookup (slots : Slots α) (slot : Nat) : Option α := slots[slot]?.join

/-- The first empty slot, which is the end of the table if there is none. -/
def firstEmpty : Slots α → Nat
  | [] => 0
  | none :: _ => 0
  | some _ :: slots => firstEmpty slots + 1

/-- The value in the first empty slot. -/
def add (value : α) : Slots α → Slots α
  | [] => [some value]
  | none :: slots => some value :: slots
  | some taken :: slots => some taken :: add value slots

@[simp] theorem lookup_add_self (slots : Slots α) (value : α) :
    (slots.add value).lookup slots.firstEmpty = some value := by
  induction slots with
  | nil => rfl
  | cons slot slots inductionHypothesis =>
    cases slot with
    | none => rfl
    | some taken => exact inductionHypothesis

theorem lookup_add_of_some {slots : Slots α} {slot : Nat} {taken : α} (value : α)
    (isTaken : slots.lookup slot = some taken) : (slots.add value).lookup slot = some taken := by
  induction slots generalizing slot with
  | nil => cases isTaken
  | cons first slots inductionHypothesis =>
    cases slot with
    | zero =>
      cases first with
      | none => cases isTaken
      | some _ => exact isTaken
    | succ slot =>
      cases first with
      | none => exact isTaken
      | some _ => exact inductionHypothesis isTaken

theorem lookup_set_self {slots : Slots α} {slot : Nat} {taken : α}
    (isTaken : slots.lookup slot = some taken)
    (content : Option α) : Slots.lookup (slots.set slot content) slot = content := by
  have inTable : slot < slots.length := by
    by_contra beyond
    rw [lookup, List.getElem?_eq_none (Nat.not_lt.mp beyond)] at isTaken
    cases isTaken
  rw [lookup, List.getElem?_set_self inTable]
  rfl

theorem set_lookup {slots : Slots α} {slot : Nat} {taken : α}
    (isTaken : slots.lookup slot = some taken) :
    slots.set slot (some taken) = slots := by
  have stored : slots[slot]? = some (some taken) := Option.join_eq_some_iff.mp isTaken
  obtain ⟨inTable, isSlot⟩ := List.getElem?_eq_some_iff.mp stored
  rw [← isSlot]
  exact List.set_getElem_self inTable

theorem lookup_set_ne {slot other : Nat} (slots : Slots α) (content : Option α)
    (differ : slot ≠ other) :
    Slots.lookup (slots.set slot content) other = slots.lookup other := by
  rw [lookup, List.getElem?_set_ne differ, lookup]

end Slots

end Decentagram.Lib
