import Mathlib.Data.List.AList
import Mathlib.Data.List.TakeWhile

/-! # Unordered maps

A map that at most one value is stored under each key.  Iteration visits the entries in the order of
`entries`, which stands for the unspecified order of a hash table.
-/

namespace Decentagram.Lib

abbrev UnorderedMap (κ ν : Type) := AList fun _ : κ => ν

namespace UnorderedMap

variable {κ ν : Type} [DecidableEq κ]

/-- Inserts only when the key is new. -/
def emplace (map : UnorderedMap κ ν) (key : κ) (value : ν) : UnorderedMap κ ν :=
  if key ∈ map then map else map.insert key value

theorem lookup_emplace {map : UnorderedMap κ ν} {key key' : κ} {value found : ν}
    (looked : (map.emplace key value).lookup key' = some found) :
    map.lookup key' = some found ∨ key' = key ∧ found = value := by
  unfold emplace at looked
  split at looked
  · exact .inl looked
  · by_cases same : key' = key
    · subst same
      rw [AList.lookup_insert] at looked
      exact .inr ⟨rfl, (Option.some.inj looked).symm⟩
    · rw [AList.lookup_insert_ne same] at looked
      exact .inl looked

theorem lookup_insert_cases {map : UnorderedMap κ ν} {key key' : κ} {value found : ν}
    (looked : AList.lookup key' (map.insert key value) = some found) :
    map.lookup key' = some found ∧ key' ≠ key ∨ key' = key ∧ found = value := by
  by_cases same : key' = key
  · subst same
    rw [AList.lookup_insert] at looked
    exact .inr ⟨rfl, (Option.some.inj looked).symm⟩
  · rw [AList.lookup_insert_ne same] at looked
    exact .inl ⟨looked, same⟩

theorem lookup_of_erase {map : UnorderedMap κ ν} {key key' : κ} {found : ν}
    (looked : AList.lookup key' (map.erase key) = some found) :
    map.lookup key' = some found ∧ key' ≠ key := by
  by_cases same : key' = key
  · subst same
    simp [AList.lookup_erase] at looked
  · exact ⟨by rwa [AList.lookup_erase_ne same] at looked, same⟩

theorem lookup_emplace_of_some {map : UnorderedMap κ ν} {key' : κ} {found : ν} (key : κ) (value : ν)
    (looked : map.lookup key' = some found) : (map.emplace key value).lookup key' = some found := by
  unfold emplace
  split
  · exact looked
  next fresh =>
    rw [AList.lookup_insert_ne, looked]
    rintro rfl
    exact fresh (AList.lookup_isSome.mp (by simp [looked]))

theorem lookup_emplace_self {map : UnorderedMap κ ν} {key : κ} (fresh : key ∉ map) (value : ν) :
    (map.emplace key value).lookup key = some value := by
  unfold emplace
  rw [if_neg fresh, AList.lookup_insert]

theorem mem_emplace {map : UnorderedMap κ ν} (key : κ) (value : ν) : key ∈ map.emplace key value := by
  unfold emplace
  split
  · assumption
  · exact (AList.mem_insert _).mpr (.inl rfl)

theorem mem_emplace_of_mem {map : UnorderedMap κ ν} {key' : κ} (key : κ) (value : ν) (stored : key' ∈ map) :
    key' ∈ map.emplace key value := by
  unfold emplace
  split
  · exact stored
  · exact (AList.mem_insert _).mpr (.inr stored)

/-- A default value may be inserted unnoticed. -/
theorem getD_lookup_emplace (map : UnorderedMap κ ν) (key key' : κ) (default : ν) :
    ((map.emplace key default).lookup key').getD default = (map.lookup key').getD default := by
  unfold emplace
  split
  · rfl
  next fresh =>
    by_cases same : key' = key
    · subst same
      rw [AList.lookup_insert, AList.lookup_eq_none.mpr fresh]
      rfl
    · rw [AList.lookup_insert_ne same]

theorem entries_emplace {map : UnorderedMap κ ν} {key : κ} (fresh : key ∉ map) (value : ν) :
    (map.emplace key value).entries = ⟨key, value⟩ :: map.entries := by
  rw [emplace, if_neg fresh, AList.entries_insert_of_notMem fresh]

/-- An erased entry is the only one that is no longer counted. -/
theorem countP_erase {map : UnorderedMap κ ν} {key : κ} {value : ν}
    (looked : map.lookup key = some value) (counts : (Σ _ : κ, ν) → Bool) :
    map.entries.countP counts =
      (map.erase key).entries.countP counts + (counts ⟨key, value⟩).toNat := by
  have stored : key ∈ map.keys := AList.mem_keys.mp (AList.lookup_isSome.mp (by simp [looked]))
  obtain ⟨found, front, back, -, split, erased⟩ := List.exists_of_kerase stored
  have isValue : found = value := by
    have member : (⟨key, found⟩ : Σ _ : κ, ν) ∈ map.entries := by simp [split]
    exact Option.some.inj ((AList.mem_lookup_iff.mpr member).symm.trans looked)
  subst isValue
  rw [show (map.erase key).entries = front ++ back from erased, split, List.countP_append,
    List.countP_append, List.countP_cons]
  cases counts ⟨key, found⟩ with
  | false => simp
  | true =>
    simp only [if_true, Bool.toNat_true]
    omega

theorem erase_of_absent {map : UnorderedMap κ ν} {key : κ} (absent : map.lookup key = none) :
    map.erase key = map := by
  apply AList.ext
  show map.entries.kerase key = map.entries
  exact List.kerase_of_notMem_keys (AList.lookup_eq_none.mp absent)

/-- A key has one entry. -/
theorem flatMap_key {β : Type} {map : UnorderedMap κ ν} {key : κ} {value : ν}
    (looked : map.lookup key = some value) (collect : (Σ _ : κ, ν) → List β) :
    (map.entries.flatMap fun entry => if entry.1 = key then collect entry else []) =
      collect ⟨key, value⟩ := by
  obtain ⟨entries, nodup⟩ := map
  change List.dlookup key entries = some value at looked
  induction entries with
  | nil => cases looked
  | cons entry entries inductionHypothesis =>
    obtain ⟨first, stored⟩ := entry
    obtain ⟨fresh, nodup⟩ := List.nodupKeys_cons.mp nodup
    by_cases same : key = first
    · subst same
      rw [List.dlookup_cons_eq] at looked
      cases looked
      have others : ∀ entry ∈ entries, (if entry.1 = key then collect entry else []) = [] := by
        intro entry member
        rw [if_neg]
        intro isKey
        have stored := List.mem_keys_of_mem member
        rw [isKey] at stored
        exact fresh stored
      rw [List.flatMap_cons, if_pos rfl, List.flatMap_eq_nil_iff.mpr others, List.append_nil]
    · rw [List.dlookup_cons_ne _ _ same] at looked
      rw [List.flatMap_cons, if_neg fun equal => same equal.symm, List.nil_append]
      exact inductionHypothesis nodup looked

/-! ## Iterators

An iterator is the key of the entry it stands on, or `none` at the end.
-/

def begin (map : UnorderedMap κ ν) : Option κ := map.entries.head?.map Sigma.fst

/-- The increment of an iterator, which has no result once the entry it stands on has been erased. -/
def increment (map : UnorderedMap κ ν) (key : κ) : Option (Option κ) :=
  match map.entries.dropWhile fun entry => entry.1 ≠ key with
  | [] => none
  | _ :: rest => some (rest.head?.map Sigma.fst)

theorem increment_eq {map : UnorderedMap κ ν} {front rest : List (Σ _ : κ, ν)} {key : κ} {value : ν}
    (split : map.entries = front ++ ⟨key, value⟩ :: rest) :
    map.increment key = some (rest.head?.map Sigma.fst) := by
  have keys := map.nodupKeys
  rw [split] at keys
  -- The keys before the entry are others.
  have others : ∀ entry ∈ front, entry.1 ≠ key := by
    intro entry member same
    have before : key ∈ front.map Sigma.fst := List.mem_map.mpr ⟨entry, member, same⟩
    have distinct : (front.map Sigma.fst ++ key :: rest.map Sigma.fst).Nodup := by
      simpa [List.NodupKeys, List.keys] using keys
    exact List.disjoint_of_nodup_append distinct before List.mem_cons_self
  have dropped : (map.entries.dropWhile fun entry => entry.1 ≠ key) = ⟨key, value⟩ :: rest := by
    rw [split, List.dropWhile_append_of_pos (by simpa using others), List.dropWhile_cons_of_neg (by simp)]
  rw [increment, dropped]

theorem increment_erase (map : UnorderedMap κ ν) (key : κ) :
    increment (map.erase key) key = none := by
  have erased : key ∉ map.erase key := by simp [AList.mem_erase]
  have others : ∀ entry ∈ (map.erase key).entries, entry.1 ≠ key := by
    intro entry member same
    have stored := List.mem_keys_of_mem member
    rw [same] at stored
    exact erased (AList.mem_keys.mpr stored)
  have dropped : ((map.erase key).entries.dropWhile fun entry => entry.1 ≠ key) = [] := by
    simpa [List.dropWhile_eq_nil_iff] using others
  rw [increment, dropped]

end UnorderedMap

end Decentagram.Lib
