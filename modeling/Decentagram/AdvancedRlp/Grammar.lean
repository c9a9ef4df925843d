import Decentagram.AdvancedRlp.Transform
import Mathlib.Data.List.Induction

/-! # Which lists are objects

The transforms as equivalences: a list is turned into an object exactly where it is one of the
tagged forms, wherever in the input it stands.
-/

namespace Decentagram.AdvancedRlp

open Decentagram.Lib Decentagram.SimpleObjects

abbrev ofBytes (val : List UInt8) : Object := .hashable (.bytes val)

/-- The keys and the values in turn. -/
def flatten (entries : Dict) : List Object := entries.flatMap fun entry => [.hashable entry.1, entry.2]

/-- The keys are strictly ascending in the order in which a writer sorts them. -/
def Ascending (entries : Dict) : Prop := entries.Pairwise fun left right =>
  Before HashableObject.lessThan HashableObject.rank left.1 right.1

/-- The codes of an integer of a width: its sign byte and its magnitude. -/
inductive IntegerCode (types : RealNumType × RealNumType) (raw : List UInt8) : UInt8 → RealNum →
    Prop where
  | unsigned {num : RealNum} (isType : num.numType = types.1)
      (isValue : num.val = BigEndian.value raw.reverse) : IntegerCode types raw 0x00 num
  | signed {num : RealNum} (isType : num.numType = types.2)
      (isValue : num.val = BigEndian.value raw.reverse) : IntegerCode types raw 0x10 num
  | negative {num : RealNum} (isType : num.numType = types.2)
      (isValue : num.val = -(BigEndian.value raw.reverse : Int)) (inRange : -num.val ≤ types.2.max) :
      IntegerCode types raw 0x11 num

/-- The tagged forms. -/
inductive Transforms : List Object → Object → Prop where
  | bytes (raw : List UInt8) : Transforms [ofBytes [0x00], ofBytes raw] (ofBytes raw)
  | null : Transforms [ofBytes [0x01]] (.hashable .null)
  | boolean (val : Bool) :
      Transforms [ofBytes [if val then 0x03 else 0x02]] (.hashable (.realNum (.ofBool val)))
  | integer {widthByte sigByte : UInt8} {types : RealNumType × RealNumType} {raw : List UInt8}
      {num : RealNum} (isWidth : typesOfWidth widthByte = some types)
      (size : raw.length = types.1.bits / 8)
      (code : IntegerCode types raw sigByte num) :
      Transforms [ofBytes [0x04, widthByte, sigByte], ofBytes raw] (.hashable (.realNum num))
  | string {raw : List UInt8} (valid : SimpleUtf.ValidUtf8 raw) :
      Transforms [ofBytes [0x08, 0x00], ofBytes raw] (.hashable (.string raw))
  | array (items : List Object) : Transforms (ofBytes [0x20] :: items) (.list items)
  | dict {entries : Dict} (ascending : Ascending entries) :
      Transforms (ofBytes [0x22] :: flatten entries) (.dict entries)

/-! ## The checks -/

@[simp] theorem mapError_eq_ok {ε ε' α : Type} {result : Except ε α} {lift : ε → ε'} {value : α} :
    result.mapError lift = .ok value ↔ result = .ok value := by
  cases result <;> simp [Except.mapError]

theorem asHashable_eq_ok {obj : Object} {key : HashableObject} :
    obj.asHashable = .ok key ↔ obj = .hashable key := by
  cases obj <;> simp [Object.asHashable]

theorem getCategory_eq_bytes {obj : Object} : obj.getCategory = .bytes ↔ ∃ val, obj = ofBytes val := by
  cases obj with
  | hashable key =>
    cases key with
    | realNum num =>
      simp only [Object.getCategory, HashableObject.getCategory, ofBytes, Object.hashable.injEq,
        reduceCtorEq, exists_false, iff_false]
      split <;> simp
    | _ => simp [Object.getCategory, HashableObject.getCategory, ofBytes]
  | list items => simp [Object.getCategory, ofBytes]
  | dict entries => simp [Object.getCategory, ofBytes]

theorem bytesAt_zero {specs : List UInt8} {rest : List Object} :
    bytesAt (ofBytes specs :: rest) 0 = .ok specs := rfl

theorem checkObjCat_cons {catName : String} {pos idx : Nat} {l : List Object} {name : String}
    {cats : List (String × ObjCategory)} :
    checkObjCat catName pos l idx ((name, .bytes) :: cats) = .ok () ↔
      (∃ val, l[idx]? = some (ofBytes val)) ∧ checkObjCat catName pos l (idx + 1) cats = .ok () := by
  rw [checkObjCat, itemAt]
  cases l[idx]? with
  | none => simp
  | some item =>
    rw [ok_bind]
    by_cases isBytes : item.getCategory = .bytes
    · simpa [isBytes] using fun _ => getCategory_eq_bytes.mp isBytes
    · simpa [isBytes] using fun val same _ => isBytes (getCategory_eq_bytes.mpr ⟨val, same⟩)

theorem checkRlpListSizeEq_eq_ok {catName : String} {pos expSize recvSize : Nat} :
    checkRlpListSizeEq catName pos expSize recvSize = .ok () ↔ recvSize = expSize := by
  unfold checkRlpListSizeEq
  split
  · exact iff_of_false (by simp) (by omega)
  · exact iff_of_true rfl (by omega)

section Checks

variable {catName sizeText : String} {pos specsSize : Nat} {isCat : CatId → Bool} {l rest : List Object}
  {specs : List UInt8} {catId : CatId}

theorem checkOneBytes : checkRlpListTypeSizeEq catName pos l [("Bytes", .bytes)] = .ok () ↔
    ∃ specs, l = [ofBytes specs] := by
  simp only [checkRlpListTypeSizeEq, bind_eq_ok, exists_unit, checkRlpListSizeEq_eq_ok,
    checkObjCat_cons]
  constructor
  · intro checked
    obtain ⟨isLength, ⟨specs, first⟩, -⟩ := checked
    obtain ⟨item, rfl⟩ := List.length_eq_one_iff.mp isLength
    exact ⟨specs, congrArg (fun item => [item]) (Option.some.inj first)⟩
  · intro form
    obtain ⟨specs, rfl⟩ := form
    exact ⟨rfl, ⟨specs, rfl⟩, rfl⟩

theorem checkTwoBytes :
    checkRlpListTypeSizeEq catName pos l [("Bytes", .bytes), ("Bytes", .bytes)] = .ok () ↔
      ∃ specs raw, l = [ofBytes specs, ofBytes raw] := by
  simp only [checkRlpListTypeSizeEq, bind_eq_ok, exists_unit, checkRlpListSizeEq_eq_ok,
    checkObjCat_cons]
  constructor
  · intro checked
    obtain ⟨isLength, ⟨specs, first⟩, ⟨raw, second⟩, -⟩ := checked
    obtain ⟨item, item', rfl⟩ := List.length_eq_two.mp isLength
    refine ⟨specs, raw, ?_⟩
    rw [Option.some.inj first, Option.some.inj second]
  · intro form
    obtain ⟨specs, raw, rfl⟩ := form
    exact ⟨rfl, ⟨specs, rfl⟩, ⟨raw, rfl⟩, rfl⟩

theorem checkFirstBytes : checkRlpListTypeSizeLe catName pos l [("Bytes", .bytes)] = .ok () ↔
    ∃ specs rest, l = ofBytes specs :: rest := by
  simp only [checkRlpListTypeSizeLe, bind_eq_ok, exists_unit, checkObjCat_cons]
  constructor
  · intro checked
    obtain ⟨-, ⟨specs, first⟩, -⟩ := checked
    cases l with
    | nil => cases first
    | cons item rest => exact ⟨specs, rest, congrArg (· :: rest) (Option.some.inj first)⟩
  · intro form
    obtain ⟨specs, rest, rfl⟩ := form
    refine ⟨?_, ⟨specs, rfl⟩, rfl⟩
    rw [checkRlpListSizeLe, if_neg (by simp)]

theorem getCatIdFromByte_eq_ok {idByte : UInt8} :
    getCatIdFromByte idByte = .ok catId ↔ idByte = serializeCatId catId := by
  constructor
  · intro returned
    unfold getCatIdFromByte at returned
    repeat' split at returned
    all_goals cases returned <;> assumption
  · intro isId
    subst isId
    cases catId <;> rfl

theorem byteAt_eq_ok {bytes : List UInt8} {idx : Nat} {byte : UInt8} :
    byteAt bytes idx = .ok byte ↔ bytes[idx]? = some byte := by
  unfold byteAt
  cases bytes[idx]? <;> simp

theorem preCheckSpecs_eq_ok :
    preCheckSpecs catName specsSize sizeText isCat pos (ofBytes specs :: rest) = .ok catId ↔
      specs.length = specsSize ∧ specs[0]? = some (serializeCatId catId) ∧ isCat catId = true := by
  rw [preCheckSpecs, bytesAt_zero, ok_bind]
  by_cases isSize : specs.length = specsSize
  · rw [if_neg (not_not.mpr isSize)]
    simp only [bind_eq_ok, byteAt_eq_ok, getCatIdFromByte_eq_ok]
    constructor
    · intro checked
      obtain ⟨idByte, first, catId', rfl, checked⟩ := checked
      split at checked
      · rename_i isIts
        cases checked
        exact ⟨isSize, first, isIts⟩
      · cases checked
    · intro checked
      obtain ⟨-, first, isIts⟩ := checked
      exact ⟨_, first, catId, rfl, if_pos isIts⟩
  · rw [if_pos isSize]
    exact iff_of_false (by simp) fun checked => isSize checked.1

end Checks

/-! ## Primitive objects -/

section Transforms

variable {pos : Nat} {l : List Object} {obj : Object}

/-- One byte of specs is the identifier. -/
theorem specs_eq_singleton {specs : List UInt8} {idByte : UInt8} :
    specs.length = 1 ∧ specs[0]? = some idByte ↔ specs = [idByte] := by
  match specs with
  | [] => simp
  | [byte] => simp
  | _ :: _ :: _ => simp

theorem transformCatBytes_eq_ok :
    transformCatBytes pos l = .ok obj ↔ ∃ raw, l = [ofBytes [0x00], ofBytes raw] ∧
    obj = ofBytes raw := by
  simp only [transformCatBytes, preCheckCatBytes, bind_eq_ok, exists_unit, checkTwoBytes]
  constructor
  · intro returned
    obtain ⟨catId, ⟨⟨specs, raw, rfl⟩, checked⟩, raw', isRaw, isObj⟩ := returned
    obtain ⟨size, first, isIts⟩ := preCheckSpecs_eq_ok.mp checked
    obtain rfl : catId = .bytes := of_decide_eq_true isIts
    obtain rfl := specs_eq_singleton.mp ⟨size, first⟩
    cases isRaw
    cases isObj
    exact ⟨raw, rfl, rfl⟩
  · intro form
    obtain ⟨raw, rfl, rfl⟩ := form
    exact ⟨.bytes, ⟨⟨_, _, rfl⟩, preCheckSpecs_eq_ok.mpr ⟨rfl, rfl, rfl⟩⟩, raw, rfl, rfl⟩

theorem transformCatNull_eq_ok :
    transformCatNull pos l = .ok obj ↔ l = [ofBytes [0x01]] ∧ obj = .hashable .null := by
  simp only [transformCatNull, preCheckCatNull, bind_eq_ok, exists_unit, checkOneBytes]
  constructor
  · intro returned
    obtain ⟨catId, ⟨⟨specs, rfl⟩, checked⟩, isObj⟩ := returned
    obtain ⟨size, first, isIts⟩ := preCheckSpecs_eq_ok.mp checked
    obtain rfl : catId = .null := of_decide_eq_true isIts
    obtain rfl := specs_eq_singleton.mp ⟨size, first⟩
    cases isObj
    exact ⟨rfl, rfl⟩
  · intro form
    obtain ⟨rfl, rfl⟩ := form
    exact ⟨.null, ⟨⟨_, rfl⟩, preCheckSpecs_eq_ok.mpr ⟨rfl, rfl, rfl⟩⟩, rfl⟩

theorem transformCatBoolean_eq_ok : transformCatBoolean pos l = .ok obj ↔
    ∃ val : Bool, l = [ofBytes [if val then 0x03 else 0x02]] ∧
    obj = .hashable (.realNum (.ofBool val)) := by
  simp only [transformCatBoolean, preCheckCatBoolean, bind_eq_ok, exists_unit, checkOneBytes]
  constructor
  · intro returned
    obtain ⟨catId, ⟨⟨specs, rfl⟩, checked⟩, isObj⟩ := returned
    obtain ⟨size, first, isIts⟩ := preCheckSpecs_eq_ok.mp checked
    obtain rfl := specs_eq_singleton.mp ⟨size, first⟩
    cases isObj
    refine ⟨catId = .true, ?_, rfl⟩
    simp only [Bool.or_eq_true, decide_eq_true_eq] at isIts
    cases isIts with
    | inl isTrue => rw [isTrue]; rfl
    | inr isFalse => rw [isFalse]; rfl
  · intro form
    obtain ⟨val, rfl, rfl⟩ := form
    cases val with
    | true => exact ⟨.true, ⟨⟨_, rfl⟩, preCheckSpecs_eq_ok.mpr ⟨rfl, rfl, rfl⟩⟩, rfl⟩
    | false => exact ⟨.false, ⟨⟨_, rfl⟩, preCheckSpecs_eq_ok.mpr ⟨rfl, rfl, rfl⟩⟩, rfl⟩

theorem transformCatString_eq_ok : transformCatString pos l = .ok obj ↔ ∃ raw, SimpleUtf.ValidUtf8 raw ∧
    l = [ofBytes [0x08, 0x00], ofBytes raw] ∧ obj = .hashable (.string raw) := by
  simp only [transformCatString, preCheckCatString, bind_eq_ok, exists_unit, checkTwoBytes]
  constructor
  · intro returned
    obtain ⟨catId, ⟨⟨specs, raw, rfl⟩, checked⟩, specs', isSpecs, chWidth, second, raw', isRaw,
      returned⟩ :=
      returned
    obtain ⟨size, first, isIts⟩ := preCheckSpecs_eq_ok.mp checked
    obtain rfl : catId = .string := of_decide_eq_true isIts
    cases isSpecs
    cases isRaw
    split at returned
    · rename_i isWidth
      subst isWidth
      obtain ⟨res, converted, isObj⟩ := bind_eq_ok.mp returned
      obtain ⟨valid, rfl⟩ := SimpleUtf.utfConvert_eq_ok.mp (mapError_eq_ok.mp converted)
      cases isObj
      rw [byteAt_eq_ok] at second
      obtain ⟨_, _, rfl⟩ := List.length_eq_two.mp size
      cases first
      cases second
      exact ⟨_, valid, rfl, rfl⟩
    · cases returned
  · intro form
    obtain ⟨raw, valid, rfl, rfl⟩ := form
    refine ⟨.string, ⟨⟨_, _, rfl⟩, preCheckSpecs_eq_ok.mpr ⟨rfl, rfl, rfl⟩⟩, _, rfl, 0x00, rfl, raw,
      rfl, ?_⟩
    rw [if_pos rfl, SimpleUtf.utfConvert_eq_ok.mpr ⟨valid, rfl⟩]
    rfl

theorem transformCatArray_eq_ok : transformCatArray pos l = .ok obj ↔
    ∃ items, l = ofBytes [0x20] :: items ∧ obj = .list items := by
  simp only [transformCatArray, preCheckCatArray, bind_eq_ok, exists_unit, checkFirstBytes]
  constructor
  · intro returned
    obtain ⟨catId, ⟨⟨specs, rest, rfl⟩, checked⟩, isObj⟩ := returned
    obtain ⟨size, first, isIts⟩ := preCheckSpecs_eq_ok.mp checked
    obtain rfl : catId = .array := of_decide_eq_true isIts
    obtain rfl := specs_eq_singleton.mp ⟨size, first⟩
    cases isObj
    exact ⟨rest, rfl, rfl⟩
  · intro form
    obtain ⟨items, rfl, rfl⟩ := form
    exact ⟨.array, ⟨⟨_, _, rfl⟩, preCheckSpecs_eq_ok.mpr ⟨rfl, rfl, rfl⟩⟩, rfl⟩

/-! ## Integers -/

/-- The unsigned and the signed type of one width. -/
structure OneWidth (types : RealNumType × RealNumType) : Prop where
  lowest : types.1.lowest = 0
  max : types.1.max = 2 ^ types.1.bits - 1
  bytes : 256 ^ (types.1.bits / 8) = 2 ^ types.1.bits
  signedLowest : types.2.lowest = -types.2.max - 1
  signedMax : 0 ≤ types.2.max
  unsigned : types.1.isSigned = false
  signed : types.2.isSigned = true
  signedFits : types.2.max ≤ types.1.max

theorem width_cases {widthByte : UInt8} {types : RealNumType × RealNumType}
    (isWidth : typesOfWidth widthByte = some types) :
    (widthByte = 0x00 ∧ types = (.uint8, .int8)) ∨ (widthByte = 0x01 ∧ types = (.uint16, .int16)) ∨
      (widthByte = 0x02 ∧ types = (.uint32, .int32)) ∨
      (widthByte = 0x03 ∧ types = (.uint64, .int64)) := by
  unfold typesOfWidth at isWidth
  repeat' split at isWidth
  all_goals cases isWidth <;> simp_all

theorem oneWidth {widthByte : UInt8} {types : RealNumType × RealNumType}
    (isWidth : typesOfWidth widthByte = some types) : OneWidth types := by
  rcases width_cases isWidth with ⟨-, rfl⟩ | ⟨-, rfl⟩ | ⟨-, rfl⟩ | ⟨-, rfl⟩
  all_goals exact ⟨by decide, by decide, by decide, by decide, by decide, rfl, rfl, by decide⟩

variable {types : RealNumType × RealNumType} {raw : List UInt8} {sigByte : UInt8} {num : RealNum}

theorem cast_val_of_range {numType : RealNumType} {val : Int} (atLeast : numType.lowest ≤ val)
    (atMost : val ≤ numType.max) : (RealNum.cast numType val).val = val :=
  RealNumType.wrap_of_range atLeast atMost

theorem magnitude_val (widths : OneWidth types) (size : raw.length = types.1.bits / 8) :
    (RealNum.cast types.1 (BigEndian.value raw.reverse)).val = BigEndian.value raw.reverse := by
  have small := BigEndian.value_lt raw.reverse
  rw [List.length_reverse, size, widths.bytes] at small
  refine cast_val_of_range ?_ ?_
  · rw [widths.lowest]
    exact Int.natCast_nonneg _
  · rw [widths.max]
    have small' : (BigEndian.value raw.reverse : Int) < 2 ^ types.1.bits := by exact_mod_cast small
    omega

theorem checkSignedRange_eq_ok (widths : OneWidth types) {val : RealNum} :
    checkSignedRange pos types.2 val = .ok () ↔ val.val ≤ types.2.max := by
  have isMax : (RealNum.cast types.2 types.2.max).val = types.2.max := by
    refine cast_val_of_range ?_ (le_refl _)
    have nonneg := widths.signedMax
    rw [widths.signedLowest]
    omega
  unfold checkSignedRange
  split
  · rename_i exceeds
    rw [RealNumCompare.greater_iff, isMax] at exceeds
    exact iff_of_false (by simp) (not_le.mpr exceeds)
  · rename_i fits
    rw [RealNumCompare.greater_iff, isMax] at fits
    exact iff_of_true rfl (not_lt.mp fits)

theorem solveSignedness_eq_ok (widths : OneWidth types) (size : raw.length = types.1.bits / 8) :
    solveSignedness types.2 pos sigByte (.cast types.1 (BigEndian.value raw.reverse)) = .ok num ↔
      IntegerCode types raw sigByte num := by
  have isVal := magnitude_val widths size
  have nonneg : (0 : Int) ≤ BigEndian.value raw.reverse := Int.natCast_nonneg _
  have lowest := widths.signedLowest
  have positive := widths.signedMax
  -- below the largest value the magnitude and its negation are in the range of the signed type
  have signedVal : (BigEndian.value raw.reverse : Int) ≤ types.2.max →
      (RealNum.cast types.2 (BigEndian.value raw.reverse)).val = BigEndian.value raw.reverse :=
    fun fits => cast_val_of_range (by omega) fits
  have negativeVal : (BigEndian.value raw.reverse : Int) ≤ types.2.max →
      (RealNum.cast types.2 (-1 * BigEndian.value raw.reverse)).val = -(BigEndian.value raw.reverse : Int) :=
    fun fits => (cast_val_of_range (by omega) (by omega)).trans (by omega)
  unfold solveSignedness
  split
  · rename_i isUnsigned
    subst isUnsigned
    constructor
    · intro returned
      cases returned
      exact .unsigned rfl isVal
    · intro code
      cases code with
      | unsigned isType isValue => exact congrArg _ (RealNum.ext isType.symm (isVal.trans isValue.symm))
  split
  · rename_i isSigned
    subst isSigned
    simp only [bind_eq_ok, exists_unit, checkSignedRange_eq_ok widths, isVal]
    constructor
    · intro returned
      obtain ⟨fits, isNum⟩ := returned
      cases isNum
      exact .signed rfl (signedVal fits)
    · intro code
      cases code with
      | signed isType isValue =>
        have fits : (BigEndian.value raw.reverse : Int) ≤ types.2.max := by
          rw [← isValue, ← isType]
          exact num.atMost
        exact ⟨fits, congrArg _ (RealNum.ext isType.symm ((signedVal fits).trans isValue.symm))⟩
  split
  · rename_i isNegative
    subst isNegative
    simp only [bind_eq_ok, exists_unit, checkSignedRange_eq_ok widths, isVal]
    constructor
    · intro returned
      obtain ⟨fits, isNum⟩ := returned
      rw [signedVal fits] at isNum
      cases isNum
      refine .negative rfl (negativeVal fits) ?_
      rw [negativeVal fits]
      omega
    · intro code
      cases code with
      | negative isType isValue inRange =>
        have fits : (BigEndian.value raw.reverse : Int) ≤ types.2.max := by omega
        rw [signedVal fits]
        exact ⟨fits, congrArg _ (RealNum.ext isType.symm ((negativeVal fits).trans isValue.symm))⟩
  · rename_i notUnsigned notSigned notNegative
    refine iff_of_false (by simp) fun code => ?_
    cases code with
    | unsigned => exact notUnsigned rfl
    | signed => exact notSigned rfl
    | negative => exact notNegative rfl

theorem transformCatInteger_eq_ok : transformCatInteger pos l = .ok obj ↔
    ∃ widthByte sigByte types raw num, typesOfWidth widthByte = some types ∧
      raw.length = types.1.bits / 8 ∧ IntegerCode types raw sigByte num ∧
      l = [ofBytes [0x04, widthByte, sigByte], ofBytes raw] ∧ obj = .hashable (.realNum num) := by
  simp only [transformCatInteger, preCheckCatInteger, bind_eq_ok, exists_unit, checkTwoBytes]
  constructor
  · intro returned
    obtain ⟨catId, ⟨⟨specs, raw, rfl⟩, checked⟩, specs', isSpecs, raw', isRaw, widthByte, second,
      sigByte, third, returned⟩ := returned
    obtain ⟨size, first, isIts⟩ := preCheckSpecs_eq_ok.mp checked
    obtain rfl : catId = .integer := of_decide_eq_true isIts
    cases isSpecs
    cases isRaw
    rw [byteAt_eq_ok] at second third
    split at returned
    · rename_i types isWidth
      obtain ⟨val, isVal, returned⟩ := bind_eq_ok.mp returned
      obtain ⟨num, solved, isObj⟩ := bind_eq_ok.mp returned
      cases isObj
      rw [rawToPrimitive] at isVal
      split at isVal
      · cases isVal
      · rename_i isSize
        cases isVal
        have rawSize := not_not.mp isSize
        obtain ⟨_, _, _, rfl⟩ := List.length_eq_three.mp size
        cases first
        cases second
        cases third
        exact ⟨widthByte, sigByte, types, raw, num, isWidth, rawSize,
          (solveSignedness_eq_ok (oneWidth isWidth) rawSize).mp solved, rfl, rfl⟩
    · cases returned
  · intro form
    obtain ⟨widthByte, sigByte, types, raw, num, isWidth, size, code, rfl, rfl⟩ := form
    refine ⟨.integer, ⟨⟨_, _, rfl⟩, preCheckSpecs_eq_ok.mpr ⟨rfl, rfl, rfl⟩⟩, _, rfl, _, rfl,
      widthByte, rfl, sigByte, rfl, ?_⟩
    rw [isWidth]
    simp only [rawToPrimitive, if_neg (not_not.mpr size), ok_bind,
      (solveSignedness_eq_ok (oneWidth isWidth) size).mpr code]

/-! ## Dictionaries -/

@[simp] theorem flatten_cons (key : HashableObject) (val : Object) (entries : Dict) :
    flatten ((key, val) :: entries) = .hashable key :: val :: flatten entries := rfl

theorem insertOnly_fresh {d : Dict} {key : HashableObject} (fresh : d.hasKey key = false)
    (val : Object) :
    d.insertOnly key val = d ++ [(key, val)] := by
  rw [Dict.insertOnly, fresh, if_neg (by simp)]

theorem flatten_even (entries : Dict) : (flatten entries).length % 2 = 0 := by
  induction entries with
  | nil => rfl
  | cons entry entries inductionHypothesis =>
    rw [flatten_cons, List.length_cons, List.length_cons]
    omega

/-- The key that is added is behind the last one, and so behind all. -/
theorem ascending_append {front : Dict} {prevKey key : HashableObject} {prevVal : Object} (val : Object)
    (ascending : Ascending (front ++ [(prevKey, prevVal)]))
    (before : Before HashableObject.lessThan HashableObject.rank prevKey key) :
    Ascending (front ++ [(prevKey, prevVal)] ++ [(key, val)]) := by
  refine List.pairwise_append.mpr ⟨ascending, List.pairwise_singleton _ _, ?_⟩
  intro entry member last isLast
  rw [List.mem_singleton.mp isLast]
  rw [List.mem_append, List.mem_singleton] at member
  cases member with
  | inl inFront =>
    have behind := (List.pairwise_append.mp ascending).2.2 entry inFront _ List.mem_cons_self
    exact HashableObject.before_trans behind before
  | inr isPrev => rwa [isPrev]

/-- The loop goes on as long as the keys ascend, which it sees from the last key and from the table. -/
theorem catDictInsertRest_eq_ok (front : Dict) {prevKey : HashableObject} (prevVal : Object)
    {res : Dict}
    {rest : List Object} (even : rest.length % 2 = 0)
    (ascending : Ascending (front ++ [(prevKey, prevVal)])) :
    catDictInsertRest pos prevKey rest (front ++ [(prevKey, prevVal)]) = .ok res ↔
      ∃ entries, rest = flatten entries ∧ Ascending (front ++ [(prevKey, prevVal)] ++ entries) ∧
        res = front ++ [(prevKey, prevVal)] ++ entries := by
  induction rest using List.twoStepInduction generalizing front prevKey prevVal with
  | nil =>
    rw [catDictInsertRest]
    · constructor
      · intro returned
        cases returned
        exact ⟨[], rfl, by rwa [List.append_nil], (List.append_nil _).symm⟩
      · intro form
        obtain ⟨entries, isRest, -, rfl⟩ := form
        cases entries with
        | nil => rw [List.append_nil]
        | cons entry entries => cases isRest
    · simp
  -- the size was checked to be even
  | singleton item => cases even
  | cons_cons keyObj val rest inductionHypothesis =>
    have evenRest : rest.length % 2 = 0 := by
      rw [List.length_cons, List.length_cons] at even
      omega
    simp only [catDictInsertRest, bind_eq_ok, mapError_eq_ok, asHashable_eq_ok]
    constructor
    · intro returned
      obtain ⟨key, rfl, returned⟩ := returned
      split at returned
      · cases returned
      rename_i fresh
      rw [Bool.not_eq_true] at fresh
      obtain ⟨isLess, compared, returned⟩ := bind_eq_ok.mp returned
      rw [mapError_eq_ok] at compared
      cases isLess with
      | true => cases returned
      | false =>
        -- the key is not smaller than the one before and not equal to it: it comes behind
        have notEqual := Dict.hasKey_eq_false.mp fresh (prevKey, prevVal) (by simp)
        have ascending' := ascending_append val ascending
          (HashableObject.before_of_lessThan compared notEqual)
        rw [if_neg (by simp), insertOnly_fresh fresh,
          inductionHypothesis _ _ evenRest ascending'] at returned
        obtain ⟨entries, rfl, ascends, rfl⟩ := returned
        refine ⟨(key, val) :: entries, rfl, ?_, ?_⟩
        · simpa using ascends
        · simp
    · intro form
      obtain ⟨entries, isRest, ascends, rfl⟩ := form
      rcases entries with _ | ⟨⟨key, val⟩, entries⟩
      · cases isRest
      · cases isRest
        have split : front ++ [(prevKey, prevVal)] ++ (key, val) :: entries =
            front ++ [(prevKey, prevVal)] ++ [(key, val)] ++ entries := by simp
        rw [split] at ascends
        have ascending' := (List.pairwise_append.mp ascends).1
        have behind := (List.pairwise_append.mp ascending').2.2
        have fresh : (front ++ [(prevKey, prevVal)]).hasKey key = false := by
          rw [Dict.hasKey_eq_false]
          intro entry member
          exact HashableObject.notEqual_of_before (behind entry member _ List.mem_cons_self)
        have before : Before _ _ prevKey key := behind (prevKey, prevVal) (by simp) _ List.mem_cons_self
        refine ⟨key, rfl, ?_⟩
        rw [fresh, before.backward, insertOnly_fresh fresh, if_neg (by simp)]
        exact (inductionHypothesis _ _ evenRest ascending').mpr ⟨entries, rfl, ascends, split⟩

theorem transformCatDict_eq_ok : transformCatDict pos l = .ok obj ↔
    ∃ entries, Ascending entries ∧ l = ofBytes [0x22] :: flatten entries ∧ obj = .dict entries := by
  simp only [transformCatDict, preCheckCatDict, bind_eq_ok, exists_unit, checkFirstBytes]
  constructor
  · intro returned
    obtain ⟨catId, ⟨⟨specs, rest, rfl⟩, checked⟩, returned⟩ := returned
    obtain ⟨size, first, isIts⟩ := preCheckSpecs_eq_ok.mp checked
    obtain rfl : catId = .dict := of_decide_eq_true isIts
    obtain rfl := specs_eq_singleton.mp ⟨size, first⟩
    split at returned
    · cases returned
    rename_i even
    rcases rest with _ | ⟨keyObj, _ | ⟨val, rest⟩⟩
    · cases returned
      exact ⟨[], List.Pairwise.nil, rfl, rfl⟩
    · exact absurd even (by simp)
    · simp only [List.tail_cons, bind_eq_ok, mapError_eq_ok, asHashable_eq_ok] at returned
      obtain ⟨key, rfl, res, inserted, isObj⟩ := returned
      cases isObj
      have evenRest : rest.length % 2 = 0 := by
        simp only [List.length_cons] at even
        omega
      obtain ⟨entries, rfl, ascends, rfl⟩ := (catDictInsertRest_eq_ok [] val evenRest
        (List.pairwise_singleton _ _)).mp inserted
      exact ⟨(key, val) :: entries, ascends, rfl, rfl⟩
  · intro form
    obtain ⟨entries, ascends, rfl, rfl⟩ := form
    refine ⟨.dict, ⟨⟨_, _, rfl⟩, preCheckSpecs_eq_ok.mpr ⟨rfl, rfl, rfl⟩⟩, ?_⟩
    rw [if_neg (by simp [flatten_even])]
    cases entries with
    | nil => rfl
    | cons entry entries =>
      obtain ⟨key, val⟩ := entry
      have inserted : catDictInsertRest pos key (flatten entries) [(key, val)] = .ok ((key, val) :: entries) :=
        (catDictInsertRest_eq_ok [] val (flatten_even entries) (List.pairwise_singleton _ _)).mpr
          ⟨entries, rfl, ascends, rfl⟩
      change (catDictInsertRest pos key (flatten entries) [(key, val)] >>= fun res =>
        (Except.ok (Object.dict res) : Except Exception Object)) = _
      rw [inserted]
      rfl

/-- A transform that is chosen by its identifier accepts only lists with that identifier. -/
theorem transformGeneric_eq_ok : transformGeneric pos l = .ok obj ↔ Transforms l obj := by
  simp only [transformGeneric, bind_eq_ok, exists_unit, checkFirstBytes]
  constructor
  · intro returned
    -- the first byte decides which transform reads the rest
    obtain ⟨⟨specs, rest, rfl⟩, specs', isSpecs, idByte, first, catId, isCat, returned⟩ := returned
    cases catId with
    | bytes =>
      obtain ⟨raw, isList, rfl⟩ := transformCatBytes_eq_ok.mp returned
      rw [isList]
      exact .bytes raw
    | null =>
      obtain ⟨isList, rfl⟩ := transformCatNull_eq_ok.mp returned
      rw [isList]
      exact .null
    | false =>
      obtain ⟨val, isList, rfl⟩ := transformCatBoolean_eq_ok.mp returned
      rw [isList]
      exact .boolean val
    | true =>
      obtain ⟨val, isList, rfl⟩ := transformCatBoolean_eq_ok.mp returned
      rw [isList]
      exact .boolean val
    | integer =>
      obtain ⟨widthByte, sigByte, types, raw, num, isWidth, size, code, isList, rfl⟩ :=
        transformCatInteger_eq_ok.mp returned
      rw [isList]
      exact .integer isWidth size code
    | string =>
      obtain ⟨raw, valid, isList, rfl⟩ := transformCatString_eq_ok.mp returned
      rw [isList]
      exact .string valid
    | array =>
      obtain ⟨items, isList, rfl⟩ := transformCatArray_eq_ok.mp returned
      rw [isList]
      exact .array items
    | dict =>
      obtain ⟨entries, ascends, isList, rfl⟩ := transformCatDict_eq_ok.mp returned
      rw [isList]
      exact .dict ascends
    | float => cases returned
    | staticDict => cases returned
  · intro form
    cases form with
    | bytes raw =>
      exact ⟨⟨_, _, rfl⟩, _, rfl, 0x00, rfl, .bytes, rfl, transformCatBytes_eq_ok.mpr ⟨raw, rfl, rfl⟩⟩
    | null => exact ⟨⟨_, _, rfl⟩, _, rfl, 0x01, rfl, .null, rfl, transformCatNull_eq_ok.mpr ⟨rfl, rfl⟩⟩
    | boolean val =>
      cases val with
      | true =>
        exact ⟨⟨_, _, rfl⟩, _, rfl, 0x03, rfl, .true, rfl,
          transformCatBoolean_eq_ok.mpr ⟨true, rfl, rfl⟩⟩
      | false =>
        exact ⟨⟨_, _, rfl⟩, _, rfl, 0x02, rfl, .false, rfl,
          transformCatBoolean_eq_ok.mpr ⟨false, rfl, rfl⟩⟩
    | integer isWidth size code =>
      exact ⟨⟨_, _, rfl⟩, _, rfl, 0x04, rfl, .integer, rfl,
        transformCatInteger_eq_ok.mpr ⟨_, _, _, _, _, isWidth, size, code, rfl, rfl⟩⟩
    | string valid =>
      exact ⟨⟨_, _, rfl⟩, _, rfl, 0x08, rfl, .string, rfl,
        transformCatString_eq_ok.mpr ⟨_, valid, rfl, rfl⟩⟩
    | array items =>
      exact ⟨⟨_, _, rfl⟩, _, rfl, 0x20, rfl, .array, rfl, transformCatArray_eq_ok.mpr ⟨items, rfl, rfl⟩⟩
    | dict ascends =>
      exact ⟨⟨_, _, rfl⟩, _, rfl, 0x22, rfl, .dict, rfl,
        transformCatDict_eq_ok.mpr ⟨_, ascends, rfl, rfl⟩⟩

end Transforms

end Decentagram.AdvancedRlp
