import Decentagram.AdvancedRlp.Grammar
import Decentagram.SimpleRlp.Grammar

/-! # Parsing objects

The list parser that transforms every list once its items are parsed.  It runs as the plain parser
does, so it accepts what that one reads as a list of tagged forms.
-/

namespace Decentagram.AdvancedRlp

open Decentagram.Lib Decentagram.SimpleObjects
open Decentagram.SimpleRlp (InputStateMachine RlpEncodeType ParseError checkByteLeft decodeRlpLeadingByte
  procRlpListHeader)

mutual

/-- An RLP object that no transform has seen. -/
def ofRlp : Rlp.Object → Object
  | .bytes val => ofBytes val
  | .list val => .list (ofRlpItems val)

def ofRlpItems : List Rlp.Object → List Object
  | [] => []
  | item :: items => ofRlp item :: ofRlpItems items

end

abbrev ItemsParser := InputStateMachine → UInt64 → Except Exception (List Object × InputStateMachine)

/-- `ListParserImpl::Parse` around its loop over the items. -/
def parseListBy (items : ItemsParser) (ism : InputStateMachine) (rlpType : RlpEncodeType)
    (rlpVal : UInt8)
    (byteLeft : UInt64) : Except Exception (Object × InputStateMachine × UInt64) := do
  let (size, ism, byteLeft) ← (procRlpListHeader ism rlpType rlpVal byteLeft).mapError .rlp
  let byteLeft ← (checkByteLeft byteLeft size ism.byteCount).mapError .rlp
  let (l, ism) ← items ism size
  let obj ← transformGeneric ism.byteCount l
  .ok (obj, ism, byteLeft)

/-- An item whose leading byte was read: bytes stay as they are. -/
def parseBy (items : ItemsParser) (ism : InputStateMachine) (rlpType : RlpEncodeType) (rlpVal : UInt8)
    (byteLeft : UInt64) : Except Exception (Object × InputStateMachine × UInt64) :=
  match rlpType with
  | .byte | .bytesShort | .bytesLong => do
    let (item, ism, byteLeft) ← (SimpleRlp.parseBytes ism rlpType rlpVal byteLeft).mapError .rlp
    .ok (ofRlp item, ism, byteLeft)
  | .listShort | .listLong => parseListBy items ism rlpType rlpVal byteLeft

/-- The loop over the items, as in the plain parser. -/
def parseItems : Nat → ItemsParser
  | 0, ism, size =>
    if size > 0 then .error (.rlp (.atByte "Expecting more input data" ism.byteCount)) else .ok ([], ism)
  | left + 1, ism, size =>
    if size > 0 then do
      let (nextByte, ism) ← ism.getByteAndAdv.mapError .rlp
      let (nextType, nextVal) := decodeRlpLeadingByte nextByte
      let (item, ism, size) ← parseBy (parseItems left) ism nextType nextVal (size - 1)
      let (items, ism) ← parseItems left ism size
      .ok (item :: items, ism)
    else .ok ([], ism)

def parseObject (ism : InputStateMachine) (byteLeft : UInt64) :
    Except Exception (Object × InputStateMachine × UInt64) := do
  let byteLeft ← (checkByteLeft byteLeft 1 ism.byteCount).mapError .rlp
  let (rlpByte, ism) ← ism.getByteAndAdv.mapError .rlp
  let (rlpType, rlpVal) := decodeRlpLeadingByte rlpByte
  parseListBy (parseItems ism.input.length) ism rlpType rlpVal byteLeft

/-- `Parse` of a container. -/
def parse (container : List UInt8) : Except Exception Object := do
  let ism ← (InputStateMachine.start container).mapError .rlp
  let (res, ism, size) ← parseObject ism (UInt64.ofNat container.length)
  if size ≠ 0 then .error (.rlp (.atByte "Extra data found at the end of input data" ism.byteCount))
  else .ok res

/-! ## What is accepted -/

mutual

/-- What an RLP object is parsed as. -/
inductive Decodes : Rlp.Object → Object → Prop where
  | bytes (val : List UInt8) : Decodes (.bytes val) (ofBytes val)
  | list {items : List Rlp.Object} {l : List Object} {obj : Object} (inner : DecodesAll items l)
      (transforms : Transforms l obj) : Decodes (.list items) obj

inductive DecodesAll : List Rlp.Object → List Object → Prop where
  | nil : DecodesAll [] []
  | cons {item : Rlp.Object} {items : List Rlp.Object} {obj : Object} {l : List Object}
      (head : Decodes item obj) (tail : DecodesAll items l) : DecodesAll (item :: items) (obj :: l)

end

theorem decodes_bytes_iff {val : List UInt8} {obj : Object} :
    Decodes (.bytes val) obj ↔ obj = ofBytes val := by
  constructor
  · intro decodes
    cases decodes
    rfl
  · intro isBytes
    rw [isBytes]
    exact .bytes val

theorem decodes_list_iff {items : List Rlp.Object} {obj : Object} :
    Decodes (.list items) obj ↔ ∃ l, DecodesAll items l ∧ Transforms l obj := by
  constructor
  · intro decodes
    cases decodes with
    | list inner transforms => exact ⟨_, inner, transforms⟩
  · intro decodes
    obtain ⟨l, inner, transforms⟩ := decodes
    exact .list inner transforms

theorem decodesAll_nil_iff {l : List Object} : DecodesAll [] l ↔ l = [] := by
  constructor
  · intro decodes
    cases decodes
    rfl
  · intro isEmpty
    rw [isEmpty]
    exact .nil

theorem decodesAll_cons_iff {item : Rlp.Object} {items : List Rlp.Object} {l : List Object} :
    DecodesAll (item :: items) l ↔ ∃ obj rest, Decodes item obj ∧ DecodesAll items rest ∧
    l = obj :: rest := by
  constructor
  · intro decodes
    cases decodes with
    | cons head tail => exact ⟨_, _, head, tail, rfl⟩
  · intro decodes
    obtain ⟨obj, rest, head, tail, rfl⟩ := decodes
    exact .cons head tail

/-! ## What the objects hold -/

/-- A signed integer is not the lowest of its type. -/
def aboveLowest : HashableObject → Prop
  | .realNum num => num.numType.isSigned = true → num.val ≠ num.numType.lowest
  | .null | .string _ | .bytes _ => True

def ascendingKeys (keys : List HashableObject) : Prop :=
  keys.Pairwise (Before HashableObject.lessThan HashableObject.rank)

theorem ascendingKeys_iff {entries : Dict} : ascendingKeys (entries.map Prod.fst) ↔ Ascending entries :=
  List.pairwise_map

theorem holdsItems_flatten {ofKey : HashableObject → Prop} {ofKeys : List HashableObject → Prop}
    {entries : Dict} : Object.HoldsItems ofKey ofKeys (flatten entries) ↔
    Object.HoldsEntries ofKey ofKeys entries := by
  induction entries with
  | nil => exact .rfl
  | cons entry entries inductionHypothesis =>
    rw [flatten_cons, Object.HoldsItems, Object.HoldsItems, Object.HoldsEntries, Object.Holds,
      inductionHypothesis]

theorem isSigned_of_code {widthByte sigByte : UInt8} {types : RealNumType × RealNumType}
    {raw : List UInt8}
    {num : RealNum} (isWidth : typesOfWidth widthByte = some types)
    (code : IntegerCode types raw sigByte num) :
    aboveLowest (.realNum num) := by
  intro isSigned isLowest
  have widths := oneWidth isWidth
  have lowest := widths.signedLowest
  have positive := widths.signedMax
  cases code with
  | unsigned isType isValue =>
    rw [isType, widths.unsigned] at isSigned
    cases isSigned
  | signed isType isValue =>
    rw [isType] at isLowest
    omega
  | negative isType isValue inRange =>
    rw [isType] at isLowest
    omega

theorem holds_of_transforms {l : List Object} {obj : Object} (transforms : Transforms l obj)
    (inner : Object.HoldsItems aboveLowest ascendingKeys l) : obj.Holds aboveLowest ascendingKeys := by
  cases transforms with
  | bytes raw => trivial
  | null => trivial
  | boolean val => exact fun isSigned => nomatch isSigned
  | integer isWidth size code => exact isSigned_of_code isWidth code
  | string valid => trivial
  | array items => exact inner.2
  | dict ascending => exact ⟨ascendingKeys_iff.mpr ascending, holdsItems_flatten.mp inner.2⟩

mutual

/-- No parsed integer is the lowest of its type, and the keys of every parsed dictionary ascend. -/
theorem holds_of_decodes {item : Rlp.Object} {obj : Object} (decodes : Decodes item obj) :
    obj.Holds aboveLowest ascendingKeys :=
  match decodes with
  | .bytes _ => trivial
  | .list inner transforms => holds_of_transforms transforms (holdsItems_of_decodes inner)

theorem holdsItems_of_decodes {items : List Rlp.Object} {l : List Object}
    (decodes : DecodesAll items l) :
    Object.HoldsItems aboveLowest ascendingKeys l :=
  match decodes with
  | .nil => trivial
  | .cons head tail => ⟨holds_of_decodes head, holdsItems_of_decodes tail⟩

end

/-! ## The run of the plain parser -/

/-- A loop over items that transforms what another one reads. -/
def TransformsItems (items : ItemsParser)
    (plain : InputStateMachine → UInt64 →
      Except ParseError (List Rlp.Object × InputStateMachine)) : Prop :=
  ∀ ism size l ism', items ism size = .ok (l, ism') ↔
    ∃ objs, plain ism size = .ok (objs, ism') ∧ DecodesAll objs l

section Runs

variable {items : ItemsParser}
  {plain : InputStateMachine → UInt64 → Except ParseError (List Rlp.Object × InputStateMachine)}
  {ism ism' : InputStateMachine} {rlpType : RlpEncodeType} {rlpVal : UInt8}
  {byteLeft byteLeft' : UInt64}
  {obj : Object}

theorem parseListBy_eq_ok (transformsItems : TransformsItems items plain) :
    parseListBy items ism rlpType rlpVal byteLeft = .ok (obj, ism', byteLeft') ↔
      ∃ item, SimpleRlp.parseListBy plain ism rlpType rlpVal byteLeft = .ok (item, ism', byteLeft') ∧
        Decodes item obj := by
  simp only [parseListBy, SimpleRlp.parseListBy, bind_eq_ok, mapError_eq_ok, Prod.exists,
    transformGeneric_eq_ok, Except.ok.injEq, Prod.mk.injEq]
  constructor
  · intro returned
    obtain ⟨size, afterHeader, leftAfterHeader, header, left, isLeft, l, after, loops, obj',
      transforms, rfl, rfl, rfl⟩ := returned
    obtain ⟨objs, plainLoops, inner⟩ := (transformsItems _ _ _ _).mp loops
    exact ⟨.list objs, ⟨size, afterHeader, leftAfterHeader, header, left, isLeft, objs, after,
      plainLoops, rfl, rfl, rfl⟩, .list inner transforms⟩
  · intro returned
    obtain ⟨item, ⟨size, afterHeader, leftAfterHeader, header, left, isLeft, objs, after,
      plainLoops, rfl, rfl, rfl⟩, decodes⟩ := returned
    obtain ⟨l, inner, transforms⟩ := decodes_list_iff.mp decodes
    exact ⟨size, afterHeader, leftAfterHeader, header, left, isLeft, l, after,
      (transformsItems _ _ _ _).mpr ⟨objs, plainLoops, inner⟩, obj, transforms, rfl, rfl, rfl⟩

/-- The parser of byte strings returns no list. -/
theorem bytes_of_parseBytes {item : Rlp.Object}
    (returned : SimpleRlp.parseBytes ism rlpType rlpVal byteLeft = .ok (item, ism', byteLeft')) :
    ∃ val, item = .bytes val := by
  unfold SimpleRlp.parseBytes at returned
  split at returned
  · cases returned
    exact ⟨_, rfl⟩
  · simp only [bind_eq_ok, Prod.exists, Except.ok.injEq, Prod.mk.injEq] at returned
    obtain ⟨size, afterHeader, leftAfterHeader, -, left, -, val, after, -, rfl, -⟩ := returned
    exact ⟨val, rfl⟩

theorem parseBytes_eq_ok :
    (do let (item, ism, byteLeft) ← (SimpleRlp.parseBytes ism rlpType rlpVal byteLeft).mapError .rlp
        .ok (ofRlp item, ism, byteLeft) : Except Exception _) = .ok (obj, ism', byteLeft') ↔
      ∃ item, SimpleRlp.parseBytes ism rlpType rlpVal byteLeft = .ok (item, ism', byteLeft') ∧
        Decodes item obj := by
  simp only [bind_eq_ok, mapError_eq_ok, Prod.exists, Except.ok.injEq, Prod.mk.injEq]
  constructor
  · intro returned
    obtain ⟨item, after, left, parsed, isObj, rfl, rfl⟩ := returned
    obtain ⟨val, rfl⟩ := bytes_of_parseBytes parsed
    exact ⟨.bytes val, parsed, decodes_bytes_iff.mpr isObj.symm⟩
  · intro returned
    obtain ⟨item, parsed, decodes⟩ := returned
    obtain ⟨val, rfl⟩ := bytes_of_parseBytes parsed
    exact ⟨.bytes val, ism', byteLeft', parsed, (decodes_bytes_iff.mp decodes).symm, rfl, rfl⟩

theorem parseBy_eq_ok (transformsItems : TransformsItems items plain) :
    parseBy items ism rlpType rlpVal byteLeft = .ok (obj, ism', byteLeft') ↔
      ∃ item, SimpleRlp.parseBy plain ism rlpType rlpVal byteLeft = .ok (item, ism', byteLeft') ∧
        Decodes item obj := by
  cases rlpType with
  | byte => exact parseBytes_eq_ok
  | bytesShort => exact parseBytes_eq_ok
  | bytesLong => exact parseBytes_eq_ok
  | listShort => exact parseListBy_eq_ok transformsItems
  | listLong => exact parseListBy_eq_ok transformsItems

end Runs

theorem noItems_iff {ism ism' : InputStateMachine} {l : List Object} :
    (Except.ok ([], ism) : Except Exception _) = .ok (l, ism') ↔
      ∃ objs, (Except.ok ([], ism) : Except ParseError _) = .ok (objs, ism') ∧ DecodesAll objs l := by
  constructor
  · intro returned
    cases returned
    exact ⟨[], rfl, .nil⟩
  · intro returned
    obtain ⟨objs, plain, decodes⟩ := returned
    cases plain
    rw [decodesAll_nil_iff.mp decodes]

theorem parseItems_transforms (left : Nat) : TransformsItems (parseItems left)
    (SimpleRlp.parseItems left) := by
  induction left with
  | zero =>
    intro ism size l ism'
    unfold parseItems SimpleRlp.parseItems
    split
    · simp
    · exact noItems_iff
  | succ left inductionHypothesis =>
    intro ism size l ism'
    unfold parseItems SimpleRlp.parseItems
    split
    · simp only [bind_eq_ok, mapError_eq_ok, Prod.exists, parseBy_eq_ok inductionHypothesis,
        Except.ok.injEq, Prod.mk.injEq, inductionHypothesis _ _ _ _]
      constructor
      · intro returned
        obtain ⟨nextByte, afterByte, gets, obj, afterItem, size', ⟨item, plainItem, head⟩, rest, after,
          ⟨items, plainItems, tail⟩, rfl, rfl⟩ := returned
        exact ⟨item :: items, ⟨nextByte, afterByte, gets, item, afterItem, size', plainItem,
          items, after, plainItems, rfl, rfl⟩, .cons head tail⟩
      · intro returned
        obtain ⟨objs, ⟨nextByte, afterByte, gets, item, afterItem, size', plainItem, items, after,
          plainItems, rfl, rfl⟩, decodes⟩ := returned
        obtain ⟨obj, rest, head, tail, rfl⟩ := decodesAll_cons_iff.mp decodes
        exact ⟨nextByte, afterByte, gets, obj, afterItem, size', ⟨item, plainItem, head⟩, rest, after,
          ⟨items, plainItems, tail⟩, rfl, rfl⟩
    · exact noItems_iff

section Lists

variable {plain : InputStateMachine → UInt64 → Except ParseError (List Rlp.Object × InputStateMachine)}
  {ism ism' : InputStateMachine} {rlpType : RlpEncodeType} {rlpVal : UInt8}
  {byteLeft byteLeft' : UInt64}
  {obj : Object}

theorem list_of_parseListBy {item : Rlp.Object}
    (returned : SimpleRlp.parseListBy plain ism rlpType rlpVal byteLeft = .ok (item, ism', byteLeft')) :
    ∃ items, item = .list items := by
  simp only [SimpleRlp.parseListBy, bind_eq_ok, Prod.exists, Except.ok.injEq, Prod.mk.injEq] at returned
  obtain ⟨size, afterHeader, leftAfterHeader, -, left, -, items, after, -, rfl, -⟩ := returned
  exact ⟨items, rfl⟩

/-- The plain parser returns a list where its list parser does, as that one takes no other header. -/
theorem parseBy_list {items : List Rlp.Object} :
    SimpleRlp.parseBy plain ism rlpType rlpVal byteLeft = .ok (.list items, ism', byteLeft') ↔
      SimpleRlp.parseListBy plain ism rlpType rlpVal byteLeft = .ok (.list items, ism', byteLeft') := by
  have noList : SimpleRlp.parseBytes ism rlpType rlpVal byteLeft ≠ .ok (.list items, ism', byteLeft') := by
    intro returned
    obtain ⟨val, isBytes⟩ := bytes_of_parseBytes returned
    cases isBytes
  cases rlpType with
  | byte => exact iff_of_false noList (by simp [SimpleRlp.parseListBy, procRlpListHeader])
  | bytesShort => exact iff_of_false noList (by simp [SimpleRlp.parseListBy, procRlpListHeader])
  | bytesLong => exact iff_of_false noList (by simp [SimpleRlp.parseListBy, procRlpListHeader])
  | listShort => exact .rfl
  | listLong => exact .rfl

/-- The parser transforms what the plain one returns for a list; a byte string is not an object. -/
theorem parseObject_eq_ok : parseObject ism byteLeft = .ok (obj, ism', byteLeft') ↔
    ∃ items, SimpleRlp.parseObject ism byteLeft = .ok (.list items, ism', byteLeft') ∧
      Decodes (.list items) obj := by
  simp only [parseObject, SimpleRlp.parseObject, bind_eq_ok, mapError_eq_ok, Prod.exists, parseBy_list,
    parseListBy_eq_ok (parseItems_transforms _)]
  constructor
  · intro returned
    obtain ⟨left, isLeft, rlpByte, afterByte, gets, item, parsed, decodes⟩ := returned
    obtain ⟨items, rfl⟩ := list_of_parseListBy parsed
    exact ⟨items, ⟨left, isLeft, rlpByte, afterByte, gets, parsed⟩, decodes⟩
  · intro returned
    obtain ⟨items, ⟨left, isLeft, rlpByte, afterByte, gets, parsed⟩, decodes⟩ := returned
    exact ⟨left, isLeft, rlpByte, afterByte, gets, .list items, parsed, decodes⟩

theorem parse_decodes {container : List UInt8} : parse container = .ok obj ↔
    ∃ items, SimpleRlp.parseRlp container = .ok (.list items) ∧ Decodes (.list items) obj := by
  simp only [parse, SimpleRlp.parseRlp, SimpleRlp.parseContainer, bind_eq_ok, mapError_eq_ok,
    Prod.exists, parseObject_eq_ok, true_and]
  constructor
  · intro returned
    obtain ⟨ism, starts, res, after, size, ⟨items, parsed, decodes⟩, ends⟩ := returned
    split at ends
    · cases ends
    · rename_i noExtra
      cases ends
      exact ⟨items, ⟨ism, starts, .list items, after, size, parsed, if_neg noExtra⟩, decodes⟩
  · intro returned
    obtain ⟨items, ⟨ism, starts, res, after, size, parsed, ends⟩, decodes⟩ := returned
    split at ends
    · cases ends
    · rename_i noExtra
      cases ends
      exact ⟨ism, starts, obj, after, size, ⟨items, parsed, decodes⟩, if_neg noExtra⟩

/-- What the generic parser accepts. -/
theorem parse_eq_ok {container : List UInt8} (small : container.length < 2 ^ 64) :
    parse container = .ok obj ↔
      ∃ items, Rlp.Encodes false container (.list items) ∧ Decodes (.list items) obj := by
  simp only [parse_decodes, SimpleRlp.parseRlp_eq_ok small]

end Lists

end Decentagram.AdvancedRlp
