import Decentagram.SimpleObjects.Object
import Mathlib.Data.List.Forall2

/-! # Equality of trees

`operator==` of the objects: lists are compared item by item, and a dictionary is looked up in the
other one.
-/

namespace Decentagram.SimpleObjects

namespace Dict

def findVal (dict : Dict) (key : HashableObject) : Option Object :=
  (dict.find? fun entry => entry.1.baseObjectIsEqual key).map Prod.snd

end Dict

namespace Object

mutual

def baseObjectIsEqual : Object → Object → Bool
  | .hashable lhs, .hashable rhs => lhs.baseObjectIsEqual rhs
  | .list lhs, .list rhs => listBaseIsEqual lhs rhs
  | .dict lhs, .dict rhs => lhs.length = rhs.length && dictBaseIsEqual lhs rhs
  | _, _ => false

def listBaseIsEqual : List Object → List Object → Bool
  | [], [] => true
  | lhs :: lhss, rhs :: rhss => baseObjectIsEqual lhs rhs && listBaseIsEqual lhss rhss
  | _, _ => false

/-- The loop over the entries of the left dictionary. -/
def dictBaseIsEqual : Dict → Dict → Bool
  | [], _ => true
  | (key, val) :: entries, rhs =>
    (match Dict.findVal rhs key with
      | some other => baseObjectIsEqual val other
      | none => false) && dictBaseIsEqual entries rhs

end

theorem dictBaseIsEqual_iff {lhs rhs : Dict} : dictBaseIsEqual lhs rhs = true ↔
    ∀ entry ∈ lhs, ∃ other, Dict.findVal rhs entry.1 = some other ∧
    baseObjectIsEqual entry.2 other = true := by
  induction lhs with
  | nil => simp [dictBaseIsEqual]
  | cons entry entries inductionHypothesis =>
    rw [dictBaseIsEqual, Bool.and_eq_true, inductionHypothesis, List.forall_mem_cons]
    refine and_congr_left fun _ => ?_
    cases Dict.findVal rhs entry.1 <;> simp

end Object

/-- An entry is found where no other key is equal to its key. -/
theorem find?_of_mem {α : Type} {entries : List (HashableObject × α)} {entry : HashableObject × α}
    (distinct : (entries.map Prod.fst).Pairwise HashableObject.Differ) (isEntry : entry ∈ entries) :
    (entries.find? fun other => other.1.baseObjectIsEqual entry.1) = some entry := by
  have same : entry.1.baseObjectIsEqual entry.1 = true :=
    HashableObject.baseObjectIsEqual_iff.mpr ⟨rfl, rfl⟩
  induction entries with
  | nil => cases isEntry
  | cons head entries inductionHypothesis =>
    obtain ⟨differs, distinct⟩ := List.pairwise_cons.mp distinct
    cases isEntry with
    | head => simp [same]
    | tail _ inEntries =>
      have differ := differs entry.1 (List.mem_map_of_mem inEntries)
      rw [List.find?_cons_of_neg (by simp [differ.notEqual])]
      exact inductionHypothesis distinct inEntries

theorem Dict.findVal_of_mem {dict : Dict} {entry : HashableObject × Object}
    (distinct : (dict.map Prod.fst).Pairwise HashableObject.Differ) (inDict : entry ∈ dict) :
    findVal dict entry.1 = some entry.2 := by
  rw [findVal, find?_of_mem distinct inDict, Option.map_some]

end Decentagram.SimpleObjects
