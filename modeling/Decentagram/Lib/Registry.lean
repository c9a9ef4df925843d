import Mathlib.Logic.Function.Basic
import Decentagram.Lib.UnorderedMap

/-! # Registrations under keys that are used again

A map hands out its keys as handles, and a key that was removed may be handed out again.  The registry
numbers the registrations and records who removed what, so that it can be said whose entry a removal
hits: a holder that releases its registration names only the key.
-/

namespace Decentagram.Lib

structure Registry (κ ν : Type) where
  /-- Every entry that was ever stored, oldest first. -/
  registrations : List (κ × ν)
  /-- The last registration under a key. -/
  latest : κ → Nat
  /-- The registrations whose holder released them. -/
  released : List Nat
  /-- For every removal the registration it was meant for, and the one that was removed. -/
  removals : List (Nat × Nat)

namespace Registry

variable {κ ν : Type} [DecidableEq κ]

def init (key : κ) (value : ν) : Registry κ ν where
  registrations := [(key, value)]
  latest := fun _ => 0
  released := []
  removals := []

def register (key : κ) (value : ν) (registry : Registry κ ν) : Registry κ ν :=
  { registry with
    registrations := registry.registrations ++ [(key, value)]
    latest := Function.update registry.latest key registry.registrations.length }

theorem latest_register_self (key : κ) (value : ν) (registry : Registry κ ν) :
    (registry.register key value).latest key = registry.registrations.length :=
  Function.update_self ..

theorem latest_register_of_ne {key key' : κ} (other : key' ≠ key) (value : ν)
    (registry : Registry κ ν) : (registry.register key value).latest key' = registry.latest key' :=
  Function.update_of_ne other ..

/-- The holder of a registration removes what is stored under its key. -/
def release (map : UnorderedMap κ ν) (token : Nat) (key : κ) (registry : Registry κ ν) : Registry κ ν :=
  { registry with
    released := token :: registry.released
    removals :=
      if key ∈ map then registry.removals ++ [(token, registry.latest key)] else registry.removals }

/-- Removals hit their own registration, and what was not released is stored. -/
structure Owned (map : UnorderedMap κ ν) (registry : Registry κ ν) : Prop where
  recorded : ∀ key value, map.lookup key = some value →
    registry.registrations[registry.latest key]? = some (key, value)
  kept : ∀ token key value, registry.registrations[token]? = some (key, value) →
    token ∉ registry.released → map.lookup key = some value ∧ registry.latest key = token
  bounded : ∀ token ∈ registry.released, token < registry.registrations.length
  ownRemovals : ∀ removal ∈ registry.removals, removal.2 = removal.1

/-- The key was given to the registration, and no other is stored under it now. -/
structure Holds (map : UnorderedMap κ ν) (registry : Registry κ ν) (token : Nat) (key : κ) : Prop where
  given : registry.registrations[token]?.map Prod.fst = some key
  current : key ∈ map → registry.latest key = token

section Rules

variable {map : UnorderedMap κ ν} {registry : Registry κ ν} {token : Nat} {key : κ}

theorem owned_init (key : κ) (value : ν) :
    Owned (UnorderedMap.emplace ∅ key value) (init key value) where
  recorded key' value' stored := by
    rcases UnorderedMap.lookup_emplace stored with impossible | ⟨rfl, rfl⟩
    · simp at impossible
    · rfl
  kept token key' value' registered _ := by
    cases token with
    | zero =>
      cases registered
      refine ⟨?_, rfl⟩
      rw [UnorderedMap.emplace, if_neg (AList.notMem_empty _), AList.lookup_insert]
    | succ token => cases registered
  bounded _ released := absurd released List.not_mem_nil
  ownRemovals _ removed := absurd removed List.not_mem_nil

theorem Owned.register (owned : Owned map registry) (fresh : key ∉ map) (value : ν) :
    Owned (map.emplace key value) (registry.register key value) where
  recorded key' value' stored := by
    rcases UnorderedMap.lookup_emplace stored with earlier | ⟨rfl, rfl⟩
    · have other : key' ≠ key := by
        rintro rfl
        exact fresh (AList.lookup_isSome.mp (by simp [earlier]))
      have recorded := owned.recorded key' value' earlier
      rw [latest_register_of_ne other, Registry.register]
      rw [List.getElem?_append_left (List.getElem?_eq_some_iff.mp recorded).1]
      exact recorded
    · simp [Registry.register]
  kept token key' value' registered notReleased := by
    rw [Registry.register] at registered notReleased
    simp only [List.getElem?_append] at registered
    split at registered
    next old =>
      obtain ⟨stored, isLatest⟩ := owned.kept token key' value' registered notReleased
      have other : key' ≠ key := by
        rintro rfl
        exact fresh (AList.lookup_isSome.mp (by simp [stored]))
      rw [latest_register_of_ne other]
      exact ⟨UnorderedMap.lookup_emplace_of_some _ _ stored, isLatest⟩
    next new =>
      obtain ⟨isLast, same⟩ := List.getElem?_eq_some_iff.mp registered
      have isToken : token = registry.registrations.length := by
        simp only [List.length_singleton] at isLast
        omega
      simp only [isToken, Nat.sub_self, List.getElem_cons_zero, Prod.mk.injEq] at same
      obtain ⟨rfl, rfl⟩ := same
      rw [latest_register_self, UnorderedMap.emplace, if_neg fresh, AList.lookup_insert]
      exact ⟨rfl, isToken.symm⟩
  bounded token released := by
    rw [Registry.register, List.length_append]
    exact Nat.lt_add_right 1 (owned.bounded token released)
  ownRemovals := owned.ownRemovals

theorem Owned.release (owned : Owned map registry) (holds : Holds map registry token key) :
    Owned (map.erase key) (registry.release map token key) where
  recorded key' value' stored := owned.recorded key' value' (UnorderedMap.lookup_of_erase stored).1
  kept token' key' value' registered notReleased := by
    simp only [Registry.release, List.mem_cons, not_or] at registered notReleased ⊢
    obtain ⟨stored, isLatest⟩ := owned.kept token' key' value' registered notReleased.2
    have other : key' ≠ key := by
      rintro rfl
      have isStored : key' ∈ map := AList.lookup_isSome.mp (by simp [stored])
      exact notReleased.1 (isLatest.symm.trans (holds.current isStored))
    rw [AList.lookup_erase_ne other]
    exact ⟨stored, isLatest⟩
  bounded token' released := by
    cases List.mem_cons.mp released with
    | inl isToken =>
      obtain ⟨entry, registered, -⟩ := Option.map_eq_some_iff.mp holds.given
      rw [isToken]
      exact (List.getElem?_eq_some_iff.mp registered).1
    | inr earlier => exact owned.bounded token' earlier
  ownRemovals removal removed := by
    simp only [Registry.release] at removed
    split at removed
    next stored =>
      cases List.mem_append.mp removed with
      | inl earlier => exact owned.ownRemovals removal earlier
      | inr last =>
        rw [List.mem_singleton.mp last]
        exact holds.current stored
    next => exact owned.ownRemovals removal removed

/-- A new entry under another key takes nothing away from a holder. -/
theorem Holds.register (holds : Holds map registry token key) {key' : κ} (other : key ≠ key')
    (value : ν) : Holds (map.emplace key' value) (registry.register key' value) token key where
  given := by
    obtain ⟨entry, registered, isKey⟩ := Option.map_eq_some_iff.mp holds.given
    rw [Registry.register, List.getElem?_append_left (List.getElem?_eq_some_iff.mp registered).1,
      registered, Option.map_some, isKey]
  current stored := by
    rw [latest_register_of_ne other]
    apply holds.current
    unfold UnorderedMap.emplace at stored
    split at stored
    · exact stored
    · exact ((AList.mem_insert _).mp stored).resolve_left other

theorem holds_register (map : UnorderedMap κ ν) (registry : Registry κ ν) (key : κ) (value : ν) :
    Holds (map.emplace key value) (registry.register key value) registry.registrations.length key where
  given := by simp [Registry.register]
  current _ := latest_register_self key value registry

theorem Holds.release (holds : Holds map registry token key) (token' : Nat) (key' : κ) :
    Holds (map.erase key') (registry.release map token' key') token key where
  given := holds.given
  current stored := holds.current (AList.mem_erase.mp stored).2

/-- A new registration is not released yet. -/
theorem Owned.length_notReleased (owned : Owned map registry) :
    registry.registrations.length ∉ registry.released := by
  intro released
  exact Nat.lt_irrefl _ (owned.bounded _ released)

/-- A holder that has not released its registration finds it under its key. -/
theorem Owned.holds (owned : Owned map registry) {value : ν}
    (registered : registry.registrations[token]? = some (key, value))
    (notReleased : token ∉ registry.released) : Holds map registry token key where
  given := by rw [registered]; rfl
  current _ := (owned.kept token key value registered notReleased).2

end Rules

end Registry

end Decentagram.Lib
