import Mathlib.Data.List.Basic
import Mathlib.Order.Lattice

/-! # Ordered maps

A map whose entries are kept in ascending order of their keys, and the iterators that walk over it.  An
iterator is the entry it stands at, so that it stays where it is when an entry is put in.
-/

namespace Decentagram.Lib

structure OrderedMap (κ ν : Type) [LinearOrder κ] where
  entries : List (κ × ν)
  ascending : entries.Pairwise fun left right => left.1 < right.1

namespace OrderedMap

variable {κ ν : Type} [LinearOrder κ]

def empty : OrderedMap κ ν := ⟨[], .nil⟩

@[simp] theorem entries_empty : (empty : OrderedMap κ ν).entries = [] := rfl

def Contains (map : OrderedMap κ ν) (key : κ) : Prop := ∃ entry ∈ map.entries, entry.1 = key

instance (map : OrderedMap κ ν) (key : κ) : Decidable (map.Contains key) :=
  inferInstanceAs (Decidable (∃ entry ∈ map.entries, entry.1 = key))

/-- An entry goes before the first one whose key is greater. -/
def insertEntry (key : κ) (value : ν) : List (κ × ν) → List (κ × ν)
  | [] => [(key, value)]
  | entry :: rest =>
    if key < entry.1 then (key, value) :: entry :: rest else entry :: insertEntry key value rest

@[simp] theorem mem_insertEntry {key : κ} {value : ν} {entry : κ × ν} {entries : List (κ × ν)} :
    entry ∈ insertEntry key value entries ↔ entry = (key, value) ∨ entry ∈ entries := by
  induction entries with
  | nil => simp [insertEntry]
  | cons head rest inductionHypothesis =>
    rw [insertEntry]
    split
    · simp
    · simp only [List.mem_cons, inductionHypothesis]
      exact or_left_comm

theorem insertEntry_ascending {key : κ} {value : ν} {entries : List (κ × ν)}
    (ascending : entries.Pairwise fun left right => left.1 < right.1)
    (absent : ¬ ∃ entry ∈ entries, entry.1 = key) :
    (insertEntry key value entries).Pairwise fun left right => left.1 < right.1 := by
  induction entries with
  | nil => exact List.pairwise_singleton _ _
  | cons head rest inductionHypothesis =>
    obtain ⟨headFirst, ascendingRest⟩ := List.pairwise_cons.mp ascending
    rw [insertEntry]
    split
    next smaller =>
      refine ascending.cons fun entry member => ?_
      cases List.mem_cons.mp member with
      | inl isHead => exact isHead ▸ smaller
      | inr behind => exact smaller.trans (headFirst entry behind)
    next notSmaller =>
      have differs : head.1 ≠ key := fun same => absent ⟨head, List.mem_cons_self, same⟩
      have headSmaller : head.1 < key := lt_of_le_of_ne (not_lt.mp notSmaller) differs
      have absentRest : ¬ ∃ entry ∈ rest, entry.1 = key := by
        rintro ⟨entry, member, same⟩
        exact absent ⟨entry, List.mem_cons_of_mem head member, same⟩
      refine (inductionHypothesis ascendingRest absentRest).cons fun entry member => ?_
      cases mem_insertEntry.mp member with
      | inl isNew => exact isNew ▸ headSmaller
      | inr behind => exact headFirst entry behind

/-- Puts an entry in when its key is new. -/
def emplace (map : OrderedMap κ ν) (key : κ) (value : ν) : OrderedMap κ ν :=
  if absent : map.Contains key then map
  else ⟨insertEntry key value map.entries, insertEntry_ascending map.ascending absent⟩

theorem mem_emplace {map : OrderedMap κ ν} {key : κ} (absent : ¬ map.Contains key) {value : ν}
    {entry : κ × ν} :
    entry ∈ (map.emplace key value).entries ↔ entry = (key, value) ∨ entry ∈ map.entries := by
  rw [emplace, dif_neg absent]
  exact mem_insertEntry

theorem nodup_keys (map : OrderedMap κ ν) : (map.entries.map Prod.fst).Nodup :=
  List.pairwise_map.mpr (map.ascending.imp fun smaller => ne_of_lt smaller)

/-- Where the iteration starts. -/
def first (map : OrderedMap κ ν) : Option (κ × ν) := map.entries.head?

/-- Where an iterator goes from an entry. -/
def next (map : OrderedMap κ ν) (entry : κ × ν) : Option (κ × ν) :=
  map.entries.find? fun other => entry.1 < other.1

/-- What is left to visit from where an iterator stands. -/
def left (map : OrderedMap κ ν) : Option (κ × ν) → List (κ × ν)
  | none => []
  | some entry => entry :: map.entries.filter fun other => entry.1 < other.1

@[simp] theorem left_none (map : OrderedMap κ ν) : map.left none = [] := rfl

theorem left_first (map : OrderedMap κ ν) : map.left map.first = map.entries := by
  obtain ⟨entries, ascending⟩ := map
  cases entries with
  | nil => rfl
  | cons head rest =>
    have later := (List.pairwise_cons.mp ascending).1
    simp only [first, left, List.head?_cons, List.filter_cons, lt_irrefl, decide_false]
    rw [List.filter_eq_self.mpr fun entry member => decide_eq_true (later entry member)]
    rfl

theorem left_next (map : OrderedMap κ ν) (entry : κ × ν) :
    map.left (some entry) = entry :: map.left (map.next entry) := by
  obtain ⟨entries, ascending⟩ := map
  simp only [left, next, List.cons.injEq, true_and]
  induction entries with
  | nil => rfl
  | cons head rest inductionHypothesis =>
    obtain ⟨later, ascendingRest⟩ := List.pairwise_cons.mp ascending
    by_cases behind : entry.1 < head.1
    · -- all that comes after the head is behind the entry too
      have behindRest : ∀ other ∈ rest, entry.1 < other.1 := fun other member =>
        behind.trans (later other member)
      simp only [List.filter_cons, List.find?_cons, behind, decide_true, if_true, lt_irrefl,
        decide_false]
      rw [List.filter_eq_self.mpr fun other member => decide_eq_true (behindRest other member),
        if_neg (by simp),
        List.filter_eq_self.mpr fun other member => decide_eq_true (later other member)]
    · simp only [List.filter_cons, List.find?_cons, behind, decide_false, if_neg Bool.false_ne_true]
      rw [inductionHypothesis ascendingRest]
      cases found : rest.find? fun other => decide (entry.1 < other.1) with
      | none => rfl
      | some other =>
        have member := List.mem_of_find?_eq_some found
        simp [(later other member).asymm]

end OrderedMap

end Decentagram.Lib
