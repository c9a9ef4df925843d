import Decentagram.AdvancedRlp.Parser
import Decentagram.AdvancedRlp.Writer

/-! # Dictionaries are written in one order

The writer sorts the keys by the comparison by which the parser checks them.  The comparison orders
any keys of one category, so a dictionary is written alike however its table came to be and iterates.
-/

namespace Decentagram.AdvancedRlp

open Decentagram.Lib Decentagram.SimpleObjects

/-! ## Sorted entries -/

abbrev keysSeparate (keys : List HashableObject) : Prop :=
  keys.Pairwise (Separates HashableObject.lessThan HashableObject.rank)

theorem encodeEntries_eq_map (entries : Dict) :
    encodeEntries entries = entries.map fun entry => (entry.1, encode entry.2) := by
  induction entries with
  | nil => rfl
  | cons entry entries inductionHypothesis =>
    rw [List.map_cons, ← inductionHypothesis]
    rfl

theorem before_entryLess {α : Type} {left right : HashableObject × α} :
    Before entryLess (fun entry => entry.1.rank) left right ↔
      Before HashableObject.lessThan HashableObject.rank left.1 right.1 :=
  ⟨fun before => ⟨before.isLess, before.forward, before.backward⟩,
    fun before => ⟨before.isLess, before.forward, before.backward⟩⟩

/-- The iterators of a dictionary with separate keys can be sorted. -/
theorem entries_separate {entries : Dict} (separate : keysSeparate (entries.map Prod.fst)) :
    (encodeEntries entries).Pairwise (Separates entryLess fun entry => entry.1.rank) := by
  rw [encodeEntries_eq_map]
  rw [keysSeparate, List.pairwise_map] at separate
  refine List.pairwise_map.mpr (separate.imp fun separates => ?_)
  exact separates.imp before_entryLess.mpr before_entryLess.mpr

theorem encode_dict_perm {left right : Dict} (separate : keysSeparate (left.map Prod.fst))
    (permutes : left.Perm right) : encode (.dict left) = encode (.dict right) := by
  have permutes' : (encodeEntries left).Perm (encodeEntries right) := by
    rw [encodeEntries_eq_map, encodeEntries_eq_map]
    exact permutes.map _
  rw [encode, encode, sortBy_perm permutes' (entries_separate separate)]

theorem encodeSorted_eq (entries : Dict) :
    encodeSorted (encodeEntries entries) = encodeItems (flatten entries) := by
  induction entries with
  | nil => rfl
  | cons entry entries inductionHypothesis =>
    obtain ⟨key, val⟩ := entry
    rw [encodeEntries, encodeSorted, inductionHypothesis, flatten_cons, encodeItems,
      encodeItems, encode]
    cases encodeHashable key with
    | error error => rfl
    | ok keyItem =>
      cases encode val with
      | error error => rfl
      | ok valItem => cases encodeItems (flatten entries) <;> rfl

theorem keysSeparate_of_ascending {entries : Dict} (ascending : Ascending entries) :
    keysSeparate (entries.map Prod.fst) :=
  List.pairwise_map.mpr (ascending.imp fun before => .inl before)

/-- Entries that ascend are written as they are. -/
theorem encode_dict_ascending {entries : Dict} (ascending : Ascending entries) :
    encode (.dict entries) = (encodeItems (flatten entries)).map (tagged [serializeCatId .dict]) := by
  have inOrder : (encodeEntries entries).Pairwise fun left right => left.1.rank < right.1.rank := by
    rw [encodeEntries_eq_map]
    exact List.pairwise_map.mpr (ascending.imp fun before => before.isLess)
  have sorted := sortBy_of_sorted (entries_separate (keysSeparate_of_ascending ascending)) inOrder
  rw [encode, sorted, ← encodeSorted_eq]
  change (encodeSorted (encodeEntries entries) >>= fun items =>
    (Except.ok (tagged [serializeCatId .dict] items) : Except Exception _)) = _
  cases encodeSorted (encodeEntries entries) <;> rfl

/-- Separate keys have an order in which they ascend. -/
theorem exists_ascending {entries : Dict} (separate : keysSeparate (entries.map Prod.fst)) :
    ∃ sorted : Dict, sorted.Perm entries ∧ Ascending sorted := by
  have separated : entries.Pairwise (Separates entryLess fun entry => entry.1.rank) :=
    (List.pairwise_map.mp separate).imp fun separates =>
      separates.imp before_entryLess.mpr before_entryLess.mpr
  obtain ⟨sorted, -, permutes, inOrder⟩ := sortBy_spec separated
  refine ⟨sorted, permutes, ?_⟩
  have separated' := permutes.symm.pairwise separated Separates.symm
  exact (separated'.and inOrder).imp fun both => before_entryLess.mp (both.1.before both.2)

/-! ## Whole trees -/

mutual

theorem encode_same {left right : Object} (separate : left.Holds (fun _ => True) keysSeparate)
    (same : Object.Same left right) : encode left = encode right :=
  match same with
  | .hashable val => rfl
  | .list items => by
    rw [encode, encode, encodeItems_same separate items]
  | @Object.Same.dict left middle right permutes entries => by
    have separate' : Object.HoldsEntries (fun _ => True) keysSeparate middle := by
      rw [Object.holdsEntries_iff]
      intro entry member
      exact Object.holdsEntries_iff.mp separate.2 entry (permutes.mem_iff.mpr member)
    rw [encode_dict_perm separate.1 permutes, encode, encode, encodeEntries_same separate' entries]

theorem encodeItems_same {left right : List Object}
    (separate : Object.HoldsItems (fun _ => True) keysSeparate left)
    (same : Object.SameItems left right) : encodeItems left = encodeItems right :=
  match same with
  | .nil => rfl
  | .cons head tail => by
    rw [encodeItems, encodeItems, encode_same separate.1 head, encodeItems_same separate.2 tail]

theorem encodeEntries_same {left right : Dict}
    (separate : Object.HoldsEntries (fun _ => True) keysSeparate left)
    (same : Object.SameEntries left right) : encodeEntries left = encodeEntries right :=
  match same with
  | .nil => rfl
  | .cons head tail => by
    rw [encodeEntries, encodeEntries, encode_same separate.2.1 head,
      encodeEntries_same separate.2.2 tail]

end

theorem keysSeparate_of_differ {keys : List HashableObject}
    (differ : keys.Pairwise HashableObject.Differ) :
    keysSeparate keys := differ.imp HashableObject.Differ.separates

theorem genericWriter_same {left right : Object} (wellKeyed : left.WellKeyed)
    (same : Object.Same left right) :
    genericWriter left = genericWriter right := by
  have separate : left.Holds (fun _ => True) keysSeparate :=
    wellKeyed.imp (fun _ _ => trivial) fun _ => keysSeparate_of_differ
  rw [genericWriter_eq, genericWriter_eq, encode_same separate same]

/-- A table keeps every entry whose keys differ. -/
theorem insertAll_of_differ {entries : Dict}
    (differ : (entries.map Prod.fst).Pairwise HashableObject.Differ) :
    Dict.insertAll entries = entries :=
  Dict.insertAll_eq ((List.pairwise_map.mp differ).imp HashableObject.Differ.notEqual)

/-- The entries that ascend are written, whatever the order in which they are held. -/
theorem dictWriter_ascending {held sorted : Dict} (separate : keysSeparate (held.map Prod.fst))
    (permutes : sorted.Perm held) (ascending : Ascending sorted) :
    genericWriter (.dict held) = (encodeItems (flatten sorted)).map fun items =>
      SimpleRlp.writeRlp (tagged [serializeCatId .dict] items) := by
  rw [genericWriter_eq, encode_dict_perm separate permutes.symm, encode_dict_ascending ascending]
  cases encodeItems (flatten sorted) <;> rfl

/-- The bytes of a map with keys of one category depend on its entries alone, and so do those of a
    tree of such maps; they hold the keys in the order in which a parser asks for them. -/
theorem dictWriter_deterministic {entries reordered held held' : Dict}
    (differ : (entries.map Prod.fst).Pairwise HashableObject.Differ) (permutes : entries.Perm reordered)
    (iterates : held.Perm (Dict.insertAll entries))
    (iterates' : held'.Perm (Dict.insertAll reordered)) :
    genericWriter (.dict held) = genericWriter (.dict held') ∧
      (∃ sorted : Dict, sorted.Perm entries ∧ Ascending sorted ∧
        genericWriter (.dict held) = (encodeItems (flatten sorted)).map fun items =>
          SimpleRlp.writeRlp (tagged [serializeCatId .dict] items)) ∧
      (∀ left right : Object, left.WellKeyed → Object.Same left right →
        genericWriter left = genericWriter right) ∧
      (∀ pos l obj, transformCatDict pos l = .ok obj →
        ∃ parsed, Ascending parsed ∧ l = ofBytes [serializeCatId .dict] :: flatten parsed ∧
        obj = .dict parsed) ∧
      ∀ container obj, parse container = .ok obj → obj.Holds (fun _ => True) ascendingKeys := by
  have differ' : (reordered.map Prod.fst).Pairwise HashableObject.Differ :=
    (permutes.map Prod.fst).pairwise differ HashableObject.Differ.symm
  rw [insertAll_of_differ differ] at iterates
  rw [insertAll_of_differ differ'] at iterates'
  have separate : keysSeparate (held.map Prod.fst) :=
    (iterates.symm.map Prod.fst).pairwise (keysSeparate_of_differ differ) Separates.symm
  refine ⟨?_, ?_, fun left right => genericWriter_same, ?_, ?_⟩
  · have permutes' : held.Perm held' := iterates.trans (permutes.trans iterates'.symm)
    rw [genericWriter_eq, genericWriter_eq, encode_dict_perm separate permutes']
  · obtain ⟨sorted, sorts, ascending⟩ := exists_ascending separate
    exact ⟨sorted, sorts.trans iterates, ascending, dictWriter_ascending separate sorts ascending⟩
  · intro pos l obj returned
    exact transformCatDict_eq_ok.mp returned
  · intro container obj parsed
    obtain ⟨items, -, decodes⟩ := parse_decodes.mp parsed
    exact (holds_of_decodes decodes).imp (fun _ _ => trivial) fun _ => id

def minusOne : HashableObject := .realNum (.cast .int8 (-1))

def five : HashableObject := .realNum (.cast .uint64 5)

/-- A signed key of eight bits and an unsigned one of 64 bits. -/
theorem dictWriter_deterministic_sample :
    genericWriter (.dict [(five, .list []), (minusOne, .hashable .null)]) =
      genericWriter (.dict [(minusOne, .hashable .null), (five, .list [])]) :=
  have differ : [minusOne, five].Pairwise HashableObject.Differ :=
    .cons (fun other member => by rw [List.mem_singleton.mp member]; exact ⟨rfl, rfl⟩)
      (List.pairwise_singleton _ _)
  (@dictWriter_deterministic [(minusOne, .hashable .null), (five, .list [])]
    [(five, .list []), (minusOne, .hashable .null)] _ _ differ (.swap _ _ _) (.swap _ _ _) (.swap _ _ _)).1

end Decentagram.AdvancedRlp
