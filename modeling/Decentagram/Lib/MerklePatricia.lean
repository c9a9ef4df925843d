import Mathlib.Data.List.Induction
import Decentagram.Lib.Rlp

/-! # Merkle-Patricia tries

The nodes and the root hash that a map has by definition.  The keys are paths of nibbles; the nodes are
RLP objects, and a node that is short enough stands in its parent as it is, another one as its hash.
-/

namespace Decentagram.Lib.MerklePatricia

open Decentagram.Lib.Rlp

abbrev Nibble := Fin 16

instance nibbleNeZero : NeZero 16 := ⟨by decide⟩

abbrev Path := List Nibble

abbrev Map := Path → Option (List UInt8)

/-- What is under a path. -/
def after (map : Map) (path : Path) : Map := fun key => map (path ++ key)

/-- Every key starts with the path. -/
def Common (map : Map) (path : Path) : Prop := ∀ key value, map key = some value → path <+: key

def Vacant (map : Map) : Prop := ∀ key, map key = none

def Single (map : Map) (path : Path) (value : List UInt8) : Prop :=
  ∀ key found, map key = some found ↔ key = path ∧ found = value

def Several (map : Map) : Prop :=
  ∃ left right, left ≠ right ∧ (map left).isSome ∧ (map right).isSome

/-- The path of a key of bytes, the high half of each byte first. -/
def nibbles : List UInt8 → Path
  | [] => []
  | byte :: bytes => Fin.ofNat 16 (byte.toNat / 16) :: Fin.ofNat 16 (byte.toNat % 16) :: nibbles bytes

def pack : Path → List UInt8
  | high :: low :: path => UInt8.ofNat (16 * high + low) :: pack path
  | _ => []

/-- Bytes for a path, which say in front whether it is a leaf's and whether its length is odd. -/
def hexPrefix (isLeaf : Bool) (path : Path) : List UInt8 :=
  let flag : Nibble := if isLeaf then 2 else 0
  if path.length % 2 = 0 then pack (flag :: 0 :: path) else pack ((flag + 1) :: path)

mutual

/-- The node of a map that is not empty. -/
inductive Composes (hash : List UInt8 → List UInt8) : Map → Object → Prop where
  | leaf {map : Map} {path : Path} {value : List UInt8} (single : Single map path value) :
      Composes hash map (.list [.bytes (hexPrefix true path), .bytes value])
  | extension {map : Map} {path : Path} {next : Object} (several : Several map) (nonempty : path ≠ [])
      (common : Common map path) (longest : ∀ other, Common map other → other.length ≤ path.length)
      (inner : Refers hash (after map path) next) :
      Composes hash map (.list [.bytes (hexPrefix false path), next])
  | branch {map : Map} {branches : Nibble → Object} (several : Several map)
      (noCommon : ∀ path, Common map path → path = [])
      (inner : ∀ nibble, Refers hash (after map [nibble]) (branches nibble)) :
      Composes hash map (.list (List.ofFn branches ++ [.bytes ((map []).getD [])]))

/-- What stands for a map in a node above. -/
inductive Refers (hash : List UInt8 → List UInt8) : Map → Object → Prop where
  | empty {map : Map} (isEmpty : Vacant map) : Refers hash map (.bytes [])
  | inline {map : Map} {object : Object} {encoding : List UInt8} (composes : Composes hash map object)
      (encodes : Encodes true encoding object) (short : encoding.length < 32) : Refers hash map object
  | hashed {map : Map} {object : Object} {encoding : List UInt8} (composes : Composes hash map object)
      (encodes : Encodes true encoding object) (long : 32 ≤ encoding.length) :
      Refers hash map (.bytes (hash encoding))

end

/-- The hash that commits to the map. -/
inductive IsRoot (hash : List UInt8 → List UInt8) (map : Map) : List UInt8 → Prop where
  | empty {encoding : List UInt8} (isEmpty : Vacant map) (encodes : Encodes true encoding (.bytes [])) :
      IsRoot hash map (hash encoding)
  | node {object : Object} {encoding : List UInt8} (composes : Composes hash map object)
      (encodes : Encodes true encoding object) : IsRoot hash map (hash encoding)

/-! ## Maps -/

/-- The map with its keys moved under a path. -/
def under (path : Path) (map : Map) : Map := fun key =>
  if path <+: key then map (key.drop path.length) else none

def insert (map : Map) (key : Path) (value : List UInt8) : Map := fun other =>
  if other = key then some value else map other

/-- No other key of the map starts with the key, nor the key with it. -/
def Apart (map : Map) (key : Path) : Prop :=
  ∀ other value, map other = some value → key <+: other ∨ other <+: key → other = key

@[simp] theorem under_append (path key : Path) (map : Map) : under path map (path ++ key) = map key := by
  simp [under]

theorem under_eq_none {path key : Path} (map : Map) (notUnder : ¬ path <+: key) :
    under path map key = none := if_neg notUnder

/-- A key of a map that has been moved. -/
theorem under_eq_some {path key : Path} {map : Map} {value : List UInt8} :
    under path map key = some value ↔ ∃ rest, key = path ++ rest ∧ map rest = some value := by
  constructor
  · intro found
    by_cases isUnder : path <+: key
    · obtain ⟨rest, rfl⟩ := isUnder
      rw [under_append] at found
      exact ⟨rest, rfl, found⟩
    · rw [under_eq_none map isUnder] at found
      cases found
  · intro moved
    obtain ⟨rest, rfl, found⟩ := moved
    rw [under_append, found]

theorem map_ext {left right : Map} (same : ∀ key value, left key = some value ↔ right key = some value) :
    left = right :=
  funext fun key => Option.ext (same key)

theorem insert_eq_some {map : Map} {key other : Path} {value found : List UInt8} :
    insert map key value other = some found ↔
      (other = key ∧ found = value) ∨ (other ≠ key ∧ map other = some found) := by
  by_cases same : other = key <;> simp [insert, same, eq_comm]

@[simp] theorem after_under (path : Path) (map : Map) : after (under path map) path = map := by
  funext key
  exact under_append path key map

theorem under_nil (map : Map) : under [] map = map := by
  funext key
  exact under_append [] key map

theorem under_under (outer inner : Path) (map : Map) :
    under outer (under inner map) = under (outer ++ inner) map := by
  apply map_ext
  intro key value
  simp only [under_eq_some]
  constructor
  · intro moved
    obtain ⟨_, rfl, rest, rfl, found⟩ := moved
    exact ⟨rest, (List.append_assoc _ _ _).symm, found⟩
  · intro moved
    obtain ⟨rest, rfl, found⟩ := moved
    exact ⟨inner ++ rest, List.append_assoc _ _ _, rest, rfl, found⟩

theorem insert_under (path key : Path) (map : Map) (value : List UInt8) :
    insert (under path map) (path ++ key) value = under path (insert map key value) := by
  apply map_ext
  intro other found
  simp only [insert_eq_some, under_eq_some]
  constructor
  · intro inserted
    cases inserted with
    | inl isNew =>
      obtain ⟨rfl, rfl⟩ := isNew
      exact ⟨key, rfl, .inl ⟨rfl, rfl⟩⟩
    | inr isOld =>
      obtain ⟨different, rest, rfl, found⟩ := isOld
      exact ⟨rest, rfl, .inr ⟨fun same => different (congrArg _ same), found⟩⟩
  · intro moved
    obtain ⟨rest, rfl, inserted⟩ := moved
    cases inserted with
    | inl isNew => exact .inl ⟨congrArg _ isNew.1, isNew.2⟩
    | inr isOld => exact .inr ⟨fun same => isOld.1 (List.append_cancel_left same), rest, rfl, isOld.2⟩

theorem insert_insert (map : Map) (key : Path) (old value : List UInt8) :
    insert (insert map key old) key value = insert map key value := by
  funext other
  by_cases same : other = key <;> simp [insert, same]

theorem insert_comm (map : Map) {key key' : Path} (different : key ≠ key') (value value' : List UInt8) :
    insert (insert map key value) key' value' = insert (insert map key' value') key value := by
  funext other
  by_cases isKey : other = key
  · simp [insert, isKey, different]
  · simp [insert, isKey]

theorem under_vacant (path : Path) : under path (fun _ => none) = fun _ => none := by
  funext key
  simp [under]

theorem Apart.of_under {path key : Path} {map : Map} (apart : Apart (under path map) (path ++ key)) :
    Apart map key := by
  intro other value found comparable
  have comparable' : path ++ key <+: path ++ other ∨ path ++ other <+: path ++ key := by
    simpa only [List.prefix_append_right_inj] using comparable
  exact List.append_cancel_left (apart (path ++ other) value (by simpa using found) comparable')

/-! ## Keys of bytes -/

@[simp] theorem length_nibbles (key : List UInt8) : (nibbles key).length = 2 * key.length := by
  induction key with
  | nil => rfl
  | cons byte bytes inductionHypothesis =>
    simp only [nibbles, List.length_cons, inductionHypothesis]
    omega

theorem prefix_of_nibbles {key other : List UInt8} (isPrefix : nibbles key <+: nibbles other) :
    key <+: other := by
  induction key generalizing other with
  | nil => exact List.nil_prefix
  | cons byte bytes inductionHypothesis =>
    cases other with
    | nil => simp [nibbles] at isPrefix
    | cons otherByte otherBytes =>
      simp only [nibbles, List.cons_prefix_cons] at isPrefix
      obtain ⟨sameHigh, sameLow, restPrefix⟩ := isPrefix
      have high := congrArg Fin.val sameHigh
      have low := congrArg Fin.val sameLow
      simp only [Fin.val_ofNat] at high low
      have small := byte.toNat_lt
      have otherSmall := otherByte.toNat_lt
      have same : byte = otherByte := UInt8.toNat_inj.mp (by omega)
      rw [same, List.prefix_cons_inj]
      exact inductionHypothesis restPrefix

theorem nibbles_injective {key other : List UInt8} (same : nibbles key = nibbles other) : key = other := by
  have lengths := congrArg List.length same
  rw [length_nibbles, length_nibbles] at lengths
  exact (prefix_of_nibbles (same ▸ List.prefix_refl _)).eq_of_length (by omega)

/-- The map after some writes, of which the last one to a key stays. -/
def write (map : Map) : List (List UInt8 × List UInt8) → Map
  | [] => map
  | (key, value) :: writes => write (insert map (nibbles key) value) writes

theorem write_snoc (map : Map) (writes : List (List UInt8 × List UInt8)) (key value : List UInt8) :
    write map (writes ++ [(key, value)]) = insert (write map writes) (nibbles key) value := by
  induction writes generalizing map with
  | nil => rfl
  | cons first writes inductionHypothesis => exact inductionHypothesis _

/-- The map that is written has the last value of each key. -/
theorem write_eq_some_iff {writes : List (List UInt8 × List UInt8)} {path : Path} {value : List UInt8} :
    write (fun _ => none) writes path = some value ↔
      ∃ key, path = nibbles key ∧ writes.reverse.lookup key = some value := by
  induction writes using List.reverseRecOn generalizing value with
  | nil => simp [write]
  | append_singleton writes last inductionHypothesis =>
    obtain ⟨key, lastValue⟩ := last
    rw [write_snoc, insert_eq_some, inductionHypothesis, List.reverse_append, List.reverse_singleton,
      List.singleton_append]
    constructor
    · rintro (⟨rfl, rfl⟩ | ⟨different, other, rfl, found⟩)
      · exact ⟨key, rfl, by simp⟩
      · have notKey : (other == key) = false :=
          beq_false_of_ne fun same => different (congrArg nibbles same)
        exact ⟨other, rfl, by rwa [List.lookup_cons, notKey]⟩
    · rintro ⟨other, rfl, found⟩
      by_cases same : other = key
      · subst same
        rw [List.lookup_cons_self] at found
        exact .inl ⟨rfl, (Option.some.inj found).symm⟩
      · refine .inr ⟨fun samePath => same (nibbles_injective samePath), other, rfl, ?_⟩
        rwa [List.lookup_cons, beq_false_of_ne same] at found

/-- Where no key is written twice all the writes stay. -/
theorem write_eq_some {map : Map} {writes : List (List UInt8 × List UInt8)} {path : Path}
    {value : List UInt8} (once : (writes.map Prod.fst).Nodup) :
    write map writes path = some value ↔
      (∃ key, (key, value) ∈ writes ∧ path = nibbles key) ∨
        (map path = some value ∧ ∀ written ∈ writes, path ≠ nibbles written.1) := by
  induction writes generalizing map with
  | nil => simp [write]
  | cons first writes inductionHypothesis =>
    obtain ⟨key, firstValue⟩ := first
    simp only [List.map_cons, List.nodup_cons] at once
    rw [write, inductionHypothesis once.2, insert_eq_some, List.forall_mem_cons]
    constructor
    · intro written
      rcases written with ⟨other, later, isPath⟩ | ⟨⟨isPath, isValue⟩ | ⟨notPath, found⟩, none⟩
      · exact .inl ⟨other, .tail _ later, isPath⟩
      · exact .inl ⟨key, isValue ▸ .head _, isPath⟩
      · exact .inr ⟨found, notPath, none⟩
    · intro written
      rcases written with ⟨other, present, isPath⟩ | ⟨found, notPath, none⟩
      · cases present with
        | head =>
          refine .inr ⟨.inl ⟨isPath, rfl⟩, ?_⟩
          -- a later write to the same path would be to the same key
          intro later inWrites same
          have sameKey := nibbles_injective (isPath.symm.trans same)
          exact once.1 (sameKey ▸ List.mem_map_of_mem inWrites)
        | tail _ later => exact .inl ⟨other, later, isPath⟩
      · exact .inr ⟨.inr ⟨notPath, found⟩, none⟩

/-! ## There is one root -/

variable {hash : List UInt8 → List UInt8} {map : Map}

theorem Single.not_several {path : Path} {value : List UInt8} (single : Single map path value) :
    ¬ Several map := by
  intro several
  obtain ⟨left, right, different, leftFound, rightFound⟩ := several
  obtain ⟨leftValue, isLeft⟩ := Option.isSome_iff_exists.mp leftFound
  obtain ⟨rightValue, isRight⟩ := Option.isSome_iff_exists.mp rightFound
  exact different (((single _ _).mp isLeft).1.trans ((single _ _).mp isRight).1.symm)

theorem Vacant.not_single {path : Path} {value : List UInt8} (isEmpty : Vacant map) :
    ¬ Single map path value := by
  intro single
  have found := (single path value).mpr ⟨rfl, rfl⟩
  rw [isEmpty path] at found
  cases found

theorem Vacant.not_several (isEmpty : Vacant map) : ¬ Several map := by
  intro several
  obtain ⟨left, right, different, leftFound, rightFound⟩ := several
  rw [isEmpty left] at leftFound
  cases leftFound

theorem Composes.not_empty {object : Object} (composes : Composes hash map object) : ¬ Vacant map := by
  intro isEmpty
  cases composes with
  | leaf single => exact isEmpty.not_single single
  | extension several => exact isEmpty.not_several several
  | branch several => exact isEmpty.not_several several

/-- Two prefixes of the keys of a map are the same if they are as long. -/
theorem Common.unique {left right : Path} (several : Several map) (leftCommon : Common map left)
    (rightCommon : Common map right) (sameLength : left.length = right.length) : left = right := by
  obtain ⟨key, _, _, found, _⟩ := several
  obtain ⟨value, isValue⟩ := Option.isSome_iff_exists.mp found
  have leftPrefix := leftCommon key value isValue
  have rightPrefix := rightCommon key value isValue
  exact (List.prefix_of_prefix_length_le leftPrefix rightPrefix sameLength.le).eq_of_length sameLength

/-- The size of a node's encoding says whether it stands for itself. -/
theorem not_short_and_long {object : Object} {left right : List UInt8} (encodes : Encodes true left object)
    (encodes' : Encodes true right object) (short : left.length < 32) : ¬ 32 ≤ right.length := by
  rw [← encodes.unique encodes']
  omega

mutual

theorem Composes.unique {map : Map} {left right : Object} (composes : Composes hash map left)
    (composes' : Composes hash map right) : left = right :=
  match composes with
  | .leaf single => by
    cases composes' with
    | leaf single' =>
      obtain ⟨rfl, rfl⟩ := (single _ _).mp ((single' _ _).mpr ⟨rfl, rfl⟩)
      rfl
    | extension several' => exact absurd several' single.not_several
    | branch several' => exact absurd several' single.not_several
  | .extension several nonempty common longest inner => by
    cases composes' with
    | leaf single' => exact absurd several single'.not_several
    | extension several' nonempty' common' longest' inner' =>
      have sameLength := Nat.le_antisymm (longest' _ common) (longest _ common')
      have same := common.unique several common' sameLength
      subst same
      rw [inner.unique inner']
    | branch several' noCommon' => exact absurd (noCommon' _ common) nonempty
  | .branch several noCommon inner => by
    cases composes' with
    | leaf single' => exact absurd several single'.not_several
    | extension several' nonempty' common' => exact absurd (noCommon _ common') nonempty'
    | branch several' noCommon' inner' =>
      have same := funext fun nibble => (inner nibble).unique (inner' nibble)
      rw [same]

theorem Refers.unique {map : Map} {left right : Object} (refers : Refers hash map left)
    (refers' : Refers hash map right) : left = right :=
  match refers with
  | .empty isEmpty => by
    cases refers' with
    | empty => rfl
    | inline composes' => exact absurd isEmpty composes'.not_empty
    | hashed composes' => exact absurd isEmpty composes'.not_empty
  | .inline composes encodes short => by
    cases refers' with
    | empty isEmpty => exact absurd isEmpty composes.not_empty
    | inline composes' => exact composes.unique composes'
    | hashed composes' encodes' long' =>
      have same := composes.unique composes'
      exact absurd long' (not_short_and_long encodes (same ▸ encodes') short)
  | .hashed composes encodes long => by
    cases refers' with
    | empty isEmpty => exact absurd isEmpty composes.not_empty
    | inline composes' encodes' short' =>
      have same := composes.unique composes'
      exact absurd long (not_short_and_long encodes' (same ▸ encodes) short')
    | hashed composes' encodes' long' =>
      have same := composes.unique composes'
      subst same
      rw [encodes.unique encodes']

end

theorem IsRoot.unique {left right : List UInt8} (isRoot : IsRoot hash map left)
    (isRoot' : IsRoot hash map right) : left = right := by
  cases isRoot with
  | empty isEmpty encodes =>
    cases isRoot' with
    | empty _ encodes' => rw [encodes.unique encodes']
    | node composes' => exact absurd isEmpty composes'.not_empty
  | node composes encodes =>
    cases isRoot' with
    | empty isEmpty => exact absurd isEmpty composes.not_empty
    | node composes' encodes' =>
      have same := composes.unique composes'
      subst same
      rw [encodes.unique encodes']

/-! ## Lists -/

/-- The encoding of a position: its shortest number in bytes, as RLP. -/
def IsIndexKey (i : Nat) (key : List UInt8) : Prop :=
  ∃ digits, BigEndian.value digits = i ∧ digits.head? ≠ some 0 ∧ Encodes true key (.bytes digits)

/-- The map that has the items of a list under their positions. -/
def IsListMap (items : List (List UInt8)) (map : Map) : Prop :=
  ∀ path value, map path = some value ↔
    ∃ i key, items[i]? = some value ∧ IsIndexKey i key ∧ path = nibbles key

end Decentagram.Lib.MerklePatricia
