import Decentagram.Lib.Result
import Mathlib.Order.Lattice

/-! # Sorting with a comparison that can fail

Insertion sort by a strict comparison.  Where the comparison settles the order of all elements by
distinct ranks, the sorted sequence depends on the elements alone.
-/

namespace Decentagram.Lib

variable {ε α β : Type}

def insertSorted (less : α → α → Except ε Bool) (entry : α) : List α → Except ε (List α)
  | [] => .ok [entry]
  | head :: rest => do
    if ← less entry head then .ok (entry :: head :: rest)
    else
      let rest ← insertSorted less entry rest
      .ok (head :: rest)

def sortBy (less : α → α → Except ε Bool) : List α → Except ε (List α)
  | [] => .ok []
  | entry :: entries => do
    let entries ← sortBy less entries
    insertSorted less entry entries

/-- The comparison tells, either way round, that one element is before another one, as their ranks
    are. -/
structure Before [LinearOrder β] (less : α → α → Except ε Bool) (rank : α → β)
    (left right : α) : Prop where
  isLess : rank left < rank right
  forward : less left right = .ok true
  backward : less right left = .ok false

def Separates [LinearOrder β] (less : α → α → Except ε Bool) (rank : α → β) (left right : α) : Prop :=
  Before less rank left right ∨ Before less rank right left

variable [LinearOrder β] {less : α → α → Except ε Bool} {rank : α → β}

theorem Separates.symm {left right : α} (separates : Separates less rank left right) :
    Separates less rank right left := Or.symm separates

theorem Separates.before {left right : α} (separates : Separates less rank left right)
    (isLess : rank left < rank right) : Before less rank left right := by
  cases separates with
  | inl before => exact before
  | inr after => exact absurd isLess (lt_asymm after.isLess)

/-- An element goes to its place in a sorted sequence. -/
theorem insertSorted_spec {entry : α} {entries : List α}
    (separated : ∀ other ∈ entries, Separates less rank entry other)
    (sorted : entries.Pairwise fun left right => rank left < rank right) :
    ∃ result, insertSorted less entry entries = .ok result ∧ result.Perm (entry :: entries) ∧
      result.Pairwise fun left right => rank left < rank right := by
  induction entries with
  | nil => exact ⟨[entry], rfl, .refl _, List.pairwise_singleton _ _⟩
  | cons head rest inductionHypothesis =>
    obtain ⟨headFirst, restSorted⟩ := List.pairwise_cons.mp sorted
    obtain ⟨headSeparated, restSeparated⟩ := List.forall_mem_cons.mp separated
    cases headSeparated with
    | inl entryFirst =>
      rw [insertSorted, entryFirst.forward, ok_bind, if_pos rfl]
      refine ⟨entry :: head :: rest, rfl, .refl _, List.pairwise_cons.mpr ⟨?_, sorted⟩⟩
      intro other member
      cases member with
      | head => exact entryFirst.isLess
      | tail _ inRest => exact lt_trans entryFirst.isLess (headFirst other inRest)
    | inr entryLater =>
      obtain ⟨result, inserted, permutes, resultSorted⟩ := inductionHypothesis restSeparated restSorted
      rw [insertSorted, entryLater.backward, ok_bind, inserted]
      refine ⟨head :: result, rfl, (permutes.cons head).trans (.swap _ _ _),
        List.pairwise_cons.mpr ⟨?_, resultSorted⟩⟩
      intro other member
      have isOther := permutes.mem_iff.mp member
      cases isOther with
      | head => exact entryLater.isLess
      | tail _ inRest => exact headFirst other inRest

theorem sortBy_spec {entries : List α} (separated : entries.Pairwise (Separates less rank)) :
    ∃ sorted, sortBy less entries = .ok sorted ∧ sorted.Perm entries ∧
      sorted.Pairwise fun left right => rank left < rank right := by
  induction entries with
  | nil => exact ⟨[], rfl, .refl _, .nil⟩
  | cons entry entries inductionHypothesis =>
    obtain ⟨entrySeparated, restSeparated⟩ := List.pairwise_cons.mp separated
    obtain ⟨sorted, isSorted, permutes, ordered⟩ := inductionHypothesis restSeparated
    obtain ⟨result, inserted, permutes', ordered'⟩ := insertSorted_spec
      (fun other member => entrySeparated other (permutes.mem_iff.mp member)) ordered
    exact ⟨result, by rw [sortBy, isSorted, ok_bind, inserted], permutes'.trans (permutes.cons entry),
      ordered'⟩

/-- There is one order of the elements by rank. -/
theorem sorted_unique {left right : List α} (permutes : left.Perm right)
    (leftSorted : left.Pairwise fun first second => rank first < rank second)
    (rightSorted : right.Pairwise fun first second => rank first < rank second) : left = right :=
  List.Perm.eq_of_pairwise (fun _ _ _ _ before after => absurd (lt_trans before after) (lt_irrefl _))
    leftSorted rightSorted permutes

/-- Elements in another order are sorted into the same sequence. -/
theorem sortBy_perm {left right : List α} (permutes : left.Perm right)
    (separated : left.Pairwise (Separates less rank)) : sortBy less left = sortBy less right := by
  obtain ⟨sorted, isSorted, permutes', ordered⟩ := sortBy_spec separated
  obtain ⟨sorted', isSorted', permutes'', ordered'⟩ :=
    sortBy_spec (permutes.pairwise separated Separates.symm)
  rw [isSorted, isSorted',
    sorted_unique (permutes'.trans (permutes.trans permutes''.symm)) ordered ordered']

/-- A sorted sequence stays as it is. -/
theorem sortBy_of_sorted {entries : List α} (separated : entries.Pairwise (Separates less rank))
    (sorted : entries.Pairwise fun left right => rank left < rank right) :
    sortBy less entries = .ok entries := by
  obtain ⟨result, isSorted, permutes, ordered⟩ := sortBy_spec separated
  rw [isSorted, sorted_unique permutes ordered sorted]

/-- A comparison by a key of the elements sorts them with whatever they carry. -/
theorem sortBy_map {γ : Type} (carry : α → γ) {lessCarried : γ → γ → Except ε Bool}
    (same : ∀ left right, lessCarried (carry left) (carry right) = less left right) (entries : List α) :
    sortBy lessCarried (entries.map carry) = (sortBy less entries).map (List.map carry) := by
  have inserts : ∀ (entry : α) (rest : List α), insertSorted lessCarried (carry entry) (rest.map carry) =
      (insertSorted less entry rest).map (List.map carry) := by
    intro entry rest
    induction rest with
    | nil => rfl
    | cons head rest inductionHypothesis =>
      rw [List.map_cons, insertSorted, insertSorted, same, inductionHypothesis]
      cases less entry head with
      | error error => rfl
      | ok isLess =>
        cases isLess with
        | true => rfl
        | false => cases insertSorted less entry rest <;> rfl
  induction entries with
  | nil => rfl
  | cons entry entries inductionHypothesis =>
    rw [List.map_cons, sortBy, sortBy, inductionHypothesis]
    cases sortBy less entries with
    | error error => rfl
    | ok sorted => exact inserts entry sorted

end Decentagram.Lib
