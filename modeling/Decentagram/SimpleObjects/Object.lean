import Decentagram.Lib.FallibleSort
import Decentagram.SimpleObjects.RealNum
import Mathlib.Data.List.Lex

/-! # Object trees

The objects that can be keys, with the comparison and the equality of their base class, and the
lists and dictionaries over them.
-/

namespace Decentagram.SimpleObjects

open Decentagram.Lib

inductive ObjCategory where
  | null
  | bool
  | integer
  | string
  | list
  | dict
  | bytes
deriving DecidableEq, Repr

def ObjCategory.name : ObjCategory → String
  | .null => "Null"
  | .bool => "Bool"
  | .integer => "Integer"
  | .string => "String"
  | .list => "List"
  | .dict => "Dict"
  | .bytes => "Bytes"

inductive Exception where
  | unsupportedOperation (opName typeAName typeBName : String)
  | typeError (expType actType : String)
  | indexError (idx : Nat)
deriving DecidableEq, Repr

/-! ## Keys -/

/-- The characters of a string are bytes that are compared as signed ones. -/
inductive HashableObject where
  | null
  | realNum (val : RealNum)
  | string (val : List UInt8)
  | bytes (val : List UInt8)
deriving DecidableEq, Repr

def charVal (char : UInt8) : Int := if char < 0x80 then char.toNat else char.toNat - 256

def lexicographicalCompareThreeWay : List Int → List Int → Int
  | [], [] => 0
  | _ :: _, [] => 1
  | [], _ :: _ => -1
  | left :: lefts, right :: rights =>
    if directCmp left right ≠ 0 then directCmp left right
    else lexicographicalCompareThreeWay lefts rights

inductive ObjectOrder where
  | less
  | equal
  | greater
  | equalUnordered
  | notEqualUnordered
deriving DecidableEq, Repr

def ObjectOrder.ofSign (cmpRes : Int) : ObjectOrder :=
  if cmpRes = 0 then .equal else if cmpRes < 0 then .less else .greater

namespace HashableObject

def getCategory : HashableObject → ObjCategory
  | .null => .null
  | .realNum val => if val.numType = .bool then .bool else .integer
  | .string _ => .string
  | .bytes _ => .bytes

def baseObjectCompare : HashableObject → HashableObject → ObjectOrder
  | .null, .null => .equalUnordered
  | .realNum lhs, .realNum rhs => .ofSign (RealNumCompare.compare lhs rhs)
  | .string lhs, .string rhs =>
    .ofSign (lexicographicalCompareThreeWay (lhs.map charVal) (rhs.map charVal))
  | .bytes lhs, .bytes rhs =>
    .ofSign (lexicographicalCompareThreeWay (lhs.map fun byte => byte.toNat) (rhs.map fun byte => byte.toNat))
  | _, _ => .notEqualUnordered

def baseObjectIsEqual : HashableObject → HashableObject → Bool
  | .null, .null => true
  | .realNum lhs, .realNum rhs => RealNumCompare.equal lhs rhs
  | .string lhs, .string rhs => lhs = rhs
  | .bytes lhs, .bytes rhs => lhs = rhs
  | _, _ => false

/-- `operator<` of the base class. -/
def lessThan (lhs rhs : HashableObject) : Except Exception Bool :=
  match baseObjectCompare lhs rhs with
  | .less => .ok true
  | .equalUnordered | .notEqualUnordered =>
    .error (.unsupportedOperation "<" lhs.getCategory.name rhs.getCategory.name)
  | .equal | .greater => .ok false

end HashableObject

/-! ## Trees -/

/-- The entries of a dictionary are in the order in which its hash table iterates. -/
inductive Object where
  | hashable (val : HashableObject)
  | list (val : List Object)
  | dict (val : List (HashableObject × Object))
deriving Repr

abbrev Dict := List (HashableObject × Object)

namespace Object

def getCategory : Object → ObjCategory
  | .hashable val => val.getCategory
  | .list _ => .list
  | .dict _ => .dict

def asHashable : Object → Except Exception HashableObject
  | .hashable val => .ok val
  | obj => .error (.typeError "Hashable" obj.getCategory.name)

def asBytes : Object → Except Exception (List UInt8)
  | .hashable (.bytes val) => .ok val
  | obj => .error (.typeError "Bytes" obj.getCategory.name)

end Object

namespace Dict

/-- Equal keys have one hash, so the table finds a key if it has an equal one. -/
def hasKey (dict : Dict) (key : HashableObject) : Bool :=
  dict.any fun entry => entry.1.baseObjectIsEqual key

def insertOnly (dict : Dict) (key : HashableObject) (other : Object) : Dict :=
  if hasKey dict key then dict else dict ++ [(key, other)]

def insertAll (entries : Dict) : Dict :=
  entries.foldl (fun dict entry => insertOnly dict entry.1 entry.2) []

end Dict

/-! ## The order of the keys -/

theorem lexicographicalCompareThreeWay_neg_iff {lefts rights : List Int} :
    lexicographicalCompareThreeWay lefts rights < 0 ↔ lefts < rights := by
  induction lefts generalizing rights with
  | nil => cases rights <;> simp [lexicographicalCompareThreeWay]
  | cons left lefts inductionHypothesis =>
    cases rights with
    | nil => simp [lexicographicalCompareThreeWay]
    | cons right rights =>
      rw [lexicographicalCompareThreeWay, List.cons_lt_cons_iff]
      by_cases same : left = right
      · rw [if_neg (not_not.mpr (directCmp_eq_zero_iff.mpr same)), inductionHypothesis]
        simp [same]
      · rw [if_pos (mt directCmp_eq_zero_iff.mp same), directCmp_neg_iff]
        simp [same]

theorem charVal_injective : Function.Injective charVal := by
  intro left right same
  have leftSmall := left.toNat_lt
  have rightSmall := right.toNat_lt
  have isSigned : ∀ char : UInt8,
      charVal char = if char.toNat < 128 then (char.toNat : Int) else char.toNat - 256 :=
    fun char => rfl
  rw [isSigned, isSigned] at same
  apply UInt8.toNat_inj.mp
  split at same <;> split at same <;> omega

namespace HashableObject

/-- What the comparison looks at, as a member of one order. -/
def rank : HashableObject → List Int
  | .null => []
  | .realNum val => [val.val]
  | .string val => val.map charVal
  | .bytes val => val.map fun byte => byte.toNat

/-- The classes of objects that are compared with each other: Booleans are numbers. -/
def comparedAs : HashableObject → ObjCategory
  | .null => .null
  | .realNum _ => .integer
  | .string _ => .string
  | .bytes _ => .bytes

/-- The sign of a comparison that orders by rank. -/
theorem lessThan_of_sign {lhs rhs : HashableObject} {cmpRes : Int}
    (compared : baseObjectCompare lhs rhs = .ofSign cmpRes)
    (orders : cmpRes < 0 ↔ lhs.rank < rhs.rank) :
    lhs.lessThan rhs = .ok (decide (lhs.rank < rhs.rank)) := by
  have sameOrder : decide (lhs.rank < rhs.rank) = decide (cmpRes < 0) :=
    decide_eq_decide.mpr orders.symm
  rw [sameOrder, lessThan, compared, ObjectOrder.ofSign]
  by_cases isZero : cmpRes = 0
  · simp [isZero]
  · by_cases negative : cmpRes < 0 <;> simp [isZero, negative]

theorem lessThan_eq {lhs rhs : HashableObject} (same : lhs.comparedAs = rhs.comparedAs)
    (notNull : lhs.comparedAs ≠ .null) : lhs.lessThan rhs = .ok (decide (lhs.rank < rhs.rank)) := by
  cases lhs with
  | null => exact absurd rfl notNull
  | realNum lhs =>
    cases rhs with
    | realNum rhs =>
      refine lessThan_of_sign rfl ?_
      rw [RealNumCompare.compare_eq, directCmp_neg_iff, rank, rank, List.cons_lt_cons_iff]
      simp
    | _ => cases same
  | string lhs =>
    cases rhs with
    | string rhs => exact lessThan_of_sign rfl lexicographicalCompareThreeWay_neg_iff
    | _ => cases same
  | bytes lhs =>
    cases rhs with
    | bytes rhs => exact lessThan_of_sign rfl lexicographicalCompareThreeWay_neg_iff
    | _ => cases same

/-- Objects of different classes, and nulls, are not ordered. -/
theorem comparedAs_of_lessThan {lhs rhs : HashableObject} {isLess : Bool}
    (compared : lhs.lessThan rhs = .ok isLess) :
    lhs.comparedAs = rhs.comparedAs ∧ lhs.comparedAs ≠ .null := by
  cases lhs <;> cases rhs <;> simp [lessThan, baseObjectCompare, comparedAs] at compared ⊢

theorem map_toNat_injective :
    Function.Injective (List.map fun byte : UInt8 => (byte.toNat : Int)) := by
  refine List.map_injective_iff.mpr fun left right same => ?_
  exact UInt8.toNat_inj.mp (Int.ofNat_inj.mp same)

theorem baseObjectIsEqual_iff {lhs rhs : HashableObject} :
    lhs.baseObjectIsEqual rhs = true ↔ lhs.comparedAs = rhs.comparedAs ∧ lhs.rank = rhs.rank := by
  cases lhs with
  | null => cases rhs <;> simp [baseObjectIsEqual, comparedAs, rank]
  | realNum lhs =>
    cases rhs <;> simp [baseObjectIsEqual, comparedAs, rank, RealNumCompare.equal_iff]
  | string lhs =>
    cases rhs with
    | string rhs =>
      simp [baseObjectIsEqual, comparedAs, rank, (List.map_injective_iff.mpr charVal_injective).eq_iff]
    | _ => simp [baseObjectIsEqual, comparedAs]
  | bytes lhs =>
    cases rhs with
    | bytes rhs => simp [baseObjectIsEqual, comparedAs, rank, map_toNat_injective.eq_iff]
    | _ => simp [baseObjectIsEqual, comparedAs]

theorem comparedAs_of_category {lhs rhs : HashableObject} (same : lhs.getCategory = rhs.getCategory) :
    lhs.comparedAs = rhs.comparedAs := by
  cases lhs <;> cases rhs <;> simp only [getCategory,
    comparedAs] at same ⊢ <;> first | cases same | skip
  all_goals (split at same <;> cases same)

theorem before_iff {lhs rhs : HashableObject} : Before lessThan rank lhs rhs ↔
    lhs.comparedAs = rhs.comparedAs ∧ lhs.comparedAs ≠ .null ∧ lhs.rank < rhs.rank := by
  constructor
  · intro before
    obtain ⟨same, notNull⟩ := comparedAs_of_lessThan before.forward
    exact ⟨same, notNull, before.isLess⟩
  · intro ordered
    obtain ⟨same, notNull, less⟩ := ordered
    refine ⟨less, ?_, ?_⟩
    · rw [lessThan_eq same notNull, decide_eq_true less]
    · rw [lessThan_eq same.symm (same ▸ notNull), decide_eq_false (lt_asymm less)]

theorem before_trans {first second third : HashableObject} (before : Before lessThan rank first second)
    (before' : Before lessThan rank second third) : Before lessThan rank first third := by
  rw [before_iff] at before before' ⊢
  exact ⟨before.1.trans before'.1, before.2.1, lt_trans before.2.2 before'.2.2⟩

theorem notEqual_of_before {lhs rhs : HashableObject} (before : Before lessThan rank lhs rhs) :
    lhs.baseObjectIsEqual rhs = false := by
  rw [Bool.eq_false_iff]
  intro equal
  exact absurd (baseObjectIsEqual_iff.mp equal).2 (ne_of_lt before.isLess)

/-- A key that neither equals another one nor is less is greater. -/
theorem before_of_lessThan {lhs rhs : HashableObject} (compared : rhs.lessThan lhs = .ok false)
    (notEqual : lhs.baseObjectIsEqual rhs = false) : Before lessThan rank lhs rhs := by
  obtain ⟨same, notNull⟩ := comparedAs_of_lessThan compared
  rw [lessThan_eq same notNull, Except.ok.injEq, decide_eq_false_iff_not] at compared
  rw [before_iff]
  refine ⟨same.symm, same ▸ notNull, lt_of_le_of_ne (not_lt.mp compared) ?_⟩
  intro sameRank
  simpa [notEqual] using baseObjectIsEqual_iff.mpr ⟨same.symm, sameRank⟩

/-- Two keys of one category that are not equal. -/
structure Differ (lhs rhs : HashableObject) : Prop where
  sameCategory : lhs.getCategory = rhs.getCategory
  notEqual : lhs.baseObjectIsEqual rhs = false

theorem Differ.symm {lhs rhs : HashableObject} (differ : Differ lhs rhs) : Differ rhs lhs where
  sameCategory := differ.sameCategory.symm
  notEqual := by
    rw [Bool.eq_false_iff]
    intro equal
    obtain ⟨same, sameRank⟩ := baseObjectIsEqual_iff.mp equal
    simpa [differ.notEqual] using baseObjectIsEqual_iff.mpr ⟨same.symm, sameRank.symm⟩

theorem separates_of_comparedAs {lhs rhs : HashableObject} (same : lhs.comparedAs = rhs.comparedAs)
    (notNull : lhs.comparedAs ≠ .null) (notEqual : lhs.baseObjectIsEqual rhs = false) :
    Separates lessThan rank lhs rhs := by
  have distinct : lhs.rank ≠ rhs.rank := by
    intro sameRank
    simpa [notEqual] using baseObjectIsEqual_iff.mpr ⟨same, sameRank⟩
  cases lt_or_gt_of_ne distinct with
  | inl less => exact .inl (before_iff.mpr ⟨same, notNull, less⟩)
  | inr greater => exact .inr (before_iff.mpr ⟨same.symm, same ▸ notNull, greater⟩)

theorem Differ.separates {lhs rhs : HashableObject} (differ : Differ lhs rhs) :
    Separates lessThan rank lhs rhs := by
  refine separates_of_comparedAs (comparedAs_of_category differ.sameCategory) ?_ differ.notEqual
  intro isNull
  have same := comparedAs_of_category differ.sameCategory
  have notEqual := differ.notEqual
  cases lhs with
  | null =>
    cases rhs with
    | null => cases notEqual
    | _ => cases same
  | _ => cases isNull

end HashableObject

/-! ## Whole trees -/

namespace Object

section Holds

variable (ofKey : HashableObject → Prop) (ofKeys : List HashableObject → Prop)

mutual

/-- A condition on every key and leaf of a tree and one on the keys of each dictionary in it. -/
def Holds : Object → Prop
  | .hashable val => ofKey val
  | .list val => HoldsItems val
  | .dict val => ofKeys (val.map Prod.fst) ∧ HoldsEntries val

def HoldsItems : List Object → Prop
  | [] => True
  | item :: items => Holds item ∧ HoldsItems items

def HoldsEntries : List (HashableObject × Object) → Prop
  | [] => True
  | (key, val) :: entries => ofKey key ∧ Holds val ∧ HoldsEntries entries

end

end Holds

/-- The keys of every dictionary are of one category, and no two of them are equal. -/
def WellKeyed : Object → Prop :=
  Holds (fun _ => True) fun keys => keys.Pairwise HashableObject.Differ

mutual

/-- The same tree, where the tables of its dictionaries may iterate in another order. -/
inductive Same : Object → Object → Prop where
  | hashable (val : HashableObject) : Same (.hashable val) (.hashable val)
  | list {left right : List Object} (items : SameItems left right) : Same (.list left) (.list right)
  | dict {left middle right : List (HashableObject × Object)} (permutes : left.Perm middle)
      (entries : SameEntries middle right) : Same (.dict left) (.dict right)

inductive SameItems : List Object → List Object → Prop where
  | nil : SameItems [] []
  | cons {left right : Object} {lefts rights : List Object} (head : Same left right)
      (tail : SameItems lefts rights) : SameItems (left :: lefts) (right :: rights)

inductive SameEntries : List (HashableObject × Object) → List (HashableObject × Object) → Prop where
  | nil : SameEntries [] []
  | cons {key : HashableObject} {left right : Object} {lefts rights : List (HashableObject × Object)}
      (head : Same left right) (tail : SameEntries lefts rights) :
      SameEntries ((key, left) :: lefts) ((key, right) :: rights)

end

mutual

theorem Same.refl (obj : Object) : Same obj obj :=
  match obj with
  | .hashable val => .hashable val
  | .list items => .list (SameItems.refl items)
  | .dict entries => .dict (.refl _) (SameEntries.refl entries)

theorem SameItems.refl (items : List Object) : SameItems items items :=
  match items with
  | [] => .nil
  | item :: items => .cons (Same.refl item) (SameItems.refl items)

theorem SameEntries.refl (entries : List (HashableObject × Object)) : SameEntries entries entries :=
  match entries with
  | [] => .nil
  | (_, val) :: entries => .cons (Same.refl val) (SameEntries.refl entries)

end

section Weaken

variable {ofKey ofKey' : HashableObject → Prop} {ofKeys ofKeys' : List HashableObject → Prop}

mutual

theorem Holds.imp (weakerKey : ∀ key, ofKey key → ofKey' key)
    (weakerKeys : ∀ keys, ofKeys keys → ofKeys' keys)
    {obj : Object} (holds : obj.Holds ofKey ofKeys) : obj.Holds ofKey' ofKeys' :=
  match obj, holds with
  | .hashable val, holds => weakerKey val holds
  | .list _, holds => HoldsItems.imp weakerKey weakerKeys holds
  | .dict _, holds => ⟨weakerKeys _ holds.1, HoldsEntries.imp weakerKey weakerKeys holds.2⟩

theorem HoldsItems.imp (weakerKey : ∀ key, ofKey key → ofKey' key)
    (weakerKeys : ∀ keys, ofKeys keys → ofKeys' keys) {items : List Object}
    (holds : HoldsItems ofKey ofKeys items) : HoldsItems ofKey' ofKeys' items :=
  match items, holds with
  | [], _ => trivial
  | _ :: _, holds => ⟨holds.1.imp weakerKey weakerKeys, HoldsItems.imp weakerKey weakerKeys holds.2⟩

theorem HoldsEntries.imp (weakerKey : ∀ key, ofKey key → ofKey' key)
    (weakerKeys : ∀ keys, ofKeys keys → ofKeys' keys) {entries : List (HashableObject × Object)}
    (holds : HoldsEntries ofKey ofKeys entries) : HoldsEntries ofKey' ofKeys' entries :=
  match entries, holds with
  | [], _ => trivial
  | (_, _) :: _, holds =>
    ⟨weakerKey _ holds.1, holds.2.1.imp weakerKey weakerKeys,
      HoldsEntries.imp weakerKey weakerKeys holds.2.2⟩

end

end Weaken

section Both

variable {ofKey ofKey' : HashableObject → Prop} {ofKeys ofKeys' : List HashableObject → Prop}

mutual

theorem Holds.and {obj : Object} (holds : obj.Holds ofKey ofKeys) (holds' : obj.Holds ofKey' ofKeys') :
    obj.Holds (fun key => ofKey key ∧ ofKey' key) fun keys => ofKeys keys ∧ ofKeys' keys :=
  match obj, holds, holds' with
  | .hashable _, holds, holds' => ⟨holds, holds'⟩
  | .list _, holds, holds' => HoldsItems.and holds holds'
  | .dict _, holds, holds' => ⟨⟨holds.1, holds'.1⟩, HoldsEntries.and holds.2 holds'.2⟩

theorem HoldsItems.and {items : List Object} (holds : HoldsItems ofKey ofKeys items)
    (holds' : HoldsItems ofKey' ofKeys' items) :
    HoldsItems (fun key => ofKey key ∧ ofKey' key) (fun keys => ofKeys keys ∧ ofKeys' keys) items :=
  match items, holds, holds' with
  | [], _, _ => trivial
  | _ :: _, holds, holds' => ⟨holds.1.and holds'.1, HoldsItems.and holds.2 holds'.2⟩

theorem HoldsEntries.and {entries : List (HashableObject × Object)}
    (holds : HoldsEntries ofKey ofKeys entries) (holds' : HoldsEntries ofKey' ofKeys' entries) :
    HoldsEntries (fun key => ofKey key ∧ ofKey' key) (fun keys => ofKeys keys ∧ ofKeys' keys) entries :=
  match entries, holds, holds' with
  | [], _, _ => trivial
  | (_, _) :: _, holds, holds' =>
    ⟨⟨holds.1, holds'.1⟩, holds.2.1.and holds'.2.1, HoldsEntries.and holds.2.2 holds'.2.2⟩

end

end Both

theorem holdsEntries_iff {ofKey : HashableObject → Prop} {ofKeys : List HashableObject → Prop}
    {entries : List (HashableObject × Object)} : HoldsEntries ofKey ofKeys entries ↔
      ∀ entry ∈ entries, ofKey entry.1 ∧ Holds ofKey ofKeys entry.2 := by
  induction entries with
  | nil => simp [HoldsEntries]
  | cons entry entries inductionHypothesis =>
    rw [HoldsEntries, inductionHypothesis, List.forall_mem_cons, and_assoc]

end Object

namespace Dict

theorem hasKey_eq_false {dict : Dict} {key : HashableObject} :
    hasKey dict key = false ↔ ∀ entry ∈ dict, entry.1.baseObjectIsEqual key = false := by
  simp [hasKey]

theorem foldl_insertOnly {dict entries : Dict}
    (fresh : (dict ++ entries).Pairwise fun left right => left.1.baseObjectIsEqual right.1 = false) :
    entries.foldl (fun dict entry => insertOnly dict entry.1 entry.2) dict = dict ++ entries := by
  induction entries generalizing dict with
  | nil => exact (List.append_nil dict).symm
  | cons entry entries inductionHypothesis =>
    have isFresh : hasKey dict entry.1 = false := by
      rw [hasKey_eq_false]
      intro other member
      exact (List.pairwise_append.mp fresh).2.2 other member entry List.mem_cons_self
    have split : dict ++ entry :: entries = (dict ++ [entry]) ++ entries := by simp
    rw [split] at fresh ⊢
    rw [List.foldl_cons, insertOnly, isFresh, if_neg (by simp), inductionHypothesis fresh]

/-- Entries whose keys are all different are all held. -/
theorem insertAll_eq {entries : Dict}
    (fresh : entries.Pairwise fun left right => left.1.baseObjectIsEqual right.1 = false) :
    insertAll entries = entries := foldl_insertOnly fresh

end Dict

end Decentagram.SimpleObjects
