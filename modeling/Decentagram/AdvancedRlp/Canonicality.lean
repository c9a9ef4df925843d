import Decentagram.AdvancedRlp.RoundTrip

/-! # Which inputs are written again

The parser takes tagged lists where it expects raw bytes and raw bytes where it expects tagged
lists, a zero with a negative sign, and redundant headers.  What it accepts is written again byte
for byte exactly where the input has none of these.
-/

namespace Decentagram.AdvancedRlp

open Decentagram.Lib Decentagram.SimpleObjects

/-! ## Plain forms -/

def isRaw : Rlp.Object → Bool
  | .bytes _ => true
  | .list _ => false

def isZero : Rlp.Object → Bool
  | .bytes val => BigEndian.value val.reverse = 0
  | .list _ => false

/-- The magnitude behind the specs of a negative integer is zero. -/
def isNegativeZero (specs : List UInt8) (items : List Rlp.Object) : Bool :=
  specs[2]? = some 0x11 && items.all isZero

def isComposite (specs : List UInt8) : Bool :=
  specs = [serializeCatId .array] || specs = [serializeCatId .dict]

mutual

/-- Bytes stand where bytes are expected, and tagged lists where objects are. -/
def isPlain : Rlp.Object → Bool
  | .list (.bytes specs :: items) =>
    if isComposite specs then arePlain items else items.all isRaw && !isNegativeZero specs items
  | _ => false

def arePlain : List Rlp.Object → Bool
  | [] => true
  | item :: items => isPlain item && arePlain items

end

/-- The input is the shortest encoding of a plain form. -/
def Canonical (input : List UInt8) : Prop := ∃ item, Rlp.Encodes true input item ∧ isPlain item = true

section Leaves

variable {specs raw : List UInt8} {items : List Rlp.Object}

theorem isRaw_iff {item : Rlp.Object} (decodes : Decodes item (ofBytes raw)) :
    isRaw item = true ↔ item = .bytes raw := by
  cases item with
  | bytes val =>
    cases decodes_bytes_iff.mp decodes
    exact iff_of_true rfl rfl
  | list items => exact iff_of_false (by simp [isRaw]) (by simp)

/-- The specs of a plain form are the bytes that they are taken for. -/
theorem isPlain_cons {first : Rlp.Object} (decodes : Decodes first (ofBytes specs)) :
    isPlain (.list (first :: items)) = true ↔ first = .bytes specs ∧
      (if isComposite specs then arePlain items
        else items.all isRaw && !isNegativeZero specs items) = true := by
  cases first with
  | bytes val =>
    cases decodes_bytes_iff.mp decodes
    rw [isPlain]
    exact (and_iff_right rfl).symm
  | list inner => exact iff_of_false (by simp [isPlain]) (by simp)

theorem isPlain_composite {first : Rlp.Object} (composite : isComposite specs = true)
    (decodes : Decodes first (ofBytes specs)) :
    isPlain (.list (first :: items)) = true ↔ first = .bytes specs ∧ arePlain items = true := by
  rw [isPlain_cons decodes, if_pos composite]

theorem isPlain_specs (notComposite : isComposite specs = false) (short : specs[2]? ≠ some 0x11)
    (decodes : DecodesAll items [ofBytes specs]) : isPlain (.list items) = true ↔
    items = [.bytes specs] := by
  match items, decodes with
  | [first], .cons head .nil =>
    rw [isPlain_cons head, if_neg (by simp [notComposite])]
    simp [isNegativeZero, short]

theorem isPlain_specs_raw (notComposite : isComposite specs = false)
    (decodes : DecodesAll items [ofBytes specs, ofBytes raw]) :
    isPlain (.list items) = true ↔ items = [.bytes specs, .bytes raw] ∧
      ¬ (specs[2]? = some 0x11 ∧ BigEndian.value raw.reverse = 0) := by
  match items, decodes with
  | [first, second], .cons head (.cons head' .nil) =>
    rw [isPlain_cons head, if_neg (by simp [notComposite])]
    have raws := isRaw_iff head'
    by_cases isSecond : second = .bytes raw
    · subst isSecond
      simp only [isNegativeZero, isRaw, isZero, List.all_cons, List.all_nil, Bool.and_true,
        Bool.true_and, Bool.not_eq_true', Bool.and_eq_false_iff, decide_eq_false_iff_not,
        List.cons.injEq, and_true, not_and_or]
    · have notRaw : isRaw second = false := by
        rw [Bool.eq_false_iff]
        exact mt raws.mp isSecond
      simp [notRaw, isSecond]

end Leaves

/-! ## What is written for parsed objects -/

theorem map_tagged_eq_ok {specs : List UInt8} {first : Rlp.Object} {rest : List Rlp.Object}
    {result : Except Exception (List Rlp.Object)} :
    result.map (tagged specs) = .ok (.list (first :: rest)) ↔ first = .bytes specs ∧
    result = .ok rest := by
  cases result with
  | error error => simp [Except.map]
  | ok items => simp [Except.map, tagged, eq_comm]

theorem encode_list (objs : List Object) :
    encode (.list objs) = (encodeItems objs).map (tagged [serializeCatId .array]) := by
  rw [encode]
  cases encodeItems objs <;> rfl

/-- The form of a leaf without a magnitude is the form that is written. -/
theorem encode_leaf_iff {obj : Object} {specs raw : List UInt8} {items : List Rlp.Object}
    (notComposite : isComposite specs = false) (short : specs[2]? ≠ some 0x11)
    (decodes : DecodesAll items [ofBytes specs, ofBytes raw])
    (encodes : encode obj = .ok (tagged specs [.bytes raw])) :
    encode obj = .ok (.list items) ↔ isPlain (.list items) = true := by
  rw [isPlain_specs_raw notComposite decodes, encodes, tagged]
  simp [short, eq_comm]

theorem encode_boolean (val : Bool) : encode (.hashable (.realNum (.ofBool val))) =
    .ok (tagged [if val then 0x03 else 0x02] []) := by
  cases val <;> rfl

theorem notBool_of_code {widthByte sigByte : UInt8} {types : RealNumType × RealNumType}
    {raw : List UInt8} {num : RealNum} (isWidth : typesOfWidth widthByte = some types)
    (code : IntegerCode types raw sigByte num) : num.numType ≠ .bool := by
  have isType : num.numType = types.1 ∨ num.numType = types.2 := by
    cases code with
    | unsigned isType => exact .inl isType
    | signed isType => exact .inr isType
    | negative isType => exact .inr isType
  rcases width_cases isWidth with ⟨-, rfl⟩ | ⟨-, rfl⟩ | ⟨-, rfl⟩ | ⟨-, rfl⟩
  all_goals cases isType with
    | inl isType => simp [isType]
    | inr isType => simp [isType]

theorem encode_integer_iff {widthByte sigByte : UInt8} {types : RealNumType × RealNumType}
    {raw : List UInt8}
    {num : RealNum} {items : List Rlp.Object} (isWidth : typesOfWidth widthByte = some types)
    (size : raw.length = types.1.bits / 8) (code : IntegerCode types raw sigByte num)
    (decodes : DecodesAll items [ofBytes [0x04, widthByte, sigByte], ofBytes raw]) :
    encode (.hashable (.realNum num)) = .ok (.list items) ↔ isPlain (.list items) = true := by
  have notBool : num.numType ≠ .bool := notBool_of_code isWidth code
  have isThird : [0x04, widthByte, sigByte][2]? = some 0x11 ↔ sigByte = 0x11 := by simp
  rw [isPlain_specs_raw rfl decodes, isThird, ← intRawData_of_code isWidth size code, encode,
    encodeHashable, encodeRealNum, if_neg notBool]
  constructor
  · intro encodes
    obtain ⟨⟨widthByte', sigByte', raw'⟩, isRaw, isItem⟩ := bind_eq_ok.mp encodes
    cases isItem
    obtain _ | ⟨head, tail⟩ := decodes
    obtain _ | ⟨head', tail'⟩ := tail
    cases head
    cases head'
    cases tail'
    exact ⟨rfl, isRaw⟩
  · intro plain
    rw [plain.2, plain.1]
    rfl

mutual

/-- What is written for a parsed object is what it was parsed from if that is plain, and only then. -/
theorem encode_iff_isPlain {item : Rlp.Object} {obj : Object} (decodes : Decodes item obj) :
    encode obj = .ok item ↔ isPlain item = true :=
  match decodes with
  | .bytes val => iff_of_false (by simp [encode, encodeHashable, tagged]) (by simp [isPlain])
  | .list .nil transforms => nomatch transforms
  | .list (.cons head tail) transforms => by
    cases transforms with
    | bytes raw => exact encode_leaf_iff rfl (by decide) (.cons head tail) rfl
    | null =>
      rw [isPlain_specs rfl (by decide) (.cons head tail)]
      simp [encode, encodeHashable, tagged, serializeCatId, eq_comm]
    | boolean val =>
      rw [isPlain_specs (by cases val <;> rfl) (by cases val <;> decide) (.cons head tail),
        encode_boolean]
      simp [tagged, eq_comm]
    | integer isWidth size code => exact encode_integer_iff isWidth size code (.cons head tail)
    | string valid =>
      refine encode_leaf_iff rfl (by decide) (.cons head tail) ?_
      rw [encode, encodeHashable, SimpleUtf.utfConvert_eq_ok.mpr ⟨valid, rfl⟩]
      rfl
    | array objs =>
      rw [isPlain_composite rfl head, ← encodeItems_iff_arePlain tail, encode_list]
      exact map_tagged_eq_ok
    | dict ascending =>
      rw [isPlain_composite rfl head, ← encodeItems_iff_arePlain tail, encode_dict_ascending ascending]
      exact map_tagged_eq_ok

theorem encodeItems_iff_arePlain {items : List Rlp.Object} {l : List Object}
    (decodes : DecodesAll items l) :
    encodeItems l = .ok items ↔ arePlain items = true :=
  match decodes with
  | .nil => iff_of_true rfl rfl
  | .cons head tail => by
    rw [arePlain, Bool.and_eq_true, ← encode_iff_isPlain head, ← encodeItems_iff_arePlain tail,
      encodeItems]
    simp [bind_eq_ok]

end

/-! ## Inputs -/

section Inputs

variable {input : List UInt8} {obj held : Object}

/-- One RLP object is read from an input. -/
theorem encodes_unique {item item' : Rlp.Object} (small : input.length < 2 ^ 64)
    (encodes : Rlp.Encodes false input item)
    (encodes' : Rlp.Encodes false input item') : item = item' := by
  have parsed := (SimpleRlp.parseRlp_eq_ok small).mpr encodes
  rw [(SimpleRlp.parseRlp_eq_ok small).mpr encodes'] at parsed
  cases parsed
  rfl

theorem genericWriter_of_parsed (parsed : parse input = .ok obj) (same : Object.Same obj held) :
    genericWriter held = (encode obj).map SimpleRlp.writeRlp := by
  obtain ⟨items, -, decodes⟩ := parse_decodes.mp parsed
  have separate : obj.Holds (fun _ => True) keysSeparate :=
    (holds_of_decodes decodes).imp (fun _ _ => trivial) fun _ ascending => ascending.imp .inl
  rw [genericWriter_eq, encode_same separate same]

theorem genericWriter_eq_input_iff (small : input.length < 2 ^ 64) (parsed : parse input = .ok obj)
    (same : Object.Same obj held) : genericWriter held = .ok input ↔ Canonical input := by
  obtain ⟨items, encodes, decodes⟩ := (parse_eq_ok small).mp parsed
  rw [genericWriter_of_parsed parsed same]
  constructor
  · intro written
    cases isItem : encode obj with
    | error error =>
      rw [isItem] at written
      cases written
    | ok item =>
      rw [isItem] at written
      have isInput : SimpleRlp.writeRlp item = input := Except.ok.inj written
      have shortest := SimpleRlp.writeRlp_encodes item (isInput ▸ small)
      rw [isInput] at shortest
      obtain rfl := encodes_unique small shortest.loosen encodes
      exact ⟨_, shortest, (encode_iff_isPlain decodes).mp isItem⟩
  · intro canonical
    obtain ⟨item, shortest, plain⟩ := canonical
    obtain rfl := encodes_unique small shortest.loosen encodes
    rw [(encode_iff_isPlain decodes).mpr plain]
    exact congrArg Except.ok (SimpleRlp.writeRlp_of_encodes shortest small)

/-- An accepted input is written again as it was, however the tables of the object iterate, exactly
    where it is the shortest encoding of a plain form, so no two such inputs are parsed as the same
    tree. -/
theorem canonical_of_plain (small : input.length < 2 ^ 64) (parsed : parse input = .ok obj) :
    (∀ held, Object.Same obj held → (genericWriter held = .ok input ↔ Canonical input)) ∧
      ∀ other result, other.length < 2 ^ 64 → parse other = .ok result → Object.Same obj result →
        Canonical input → Canonical other → other = input := by
  refine ⟨fun held => genericWriter_eq_input_iff small parsed, ?_⟩
  intro other result otherSmall otherParsed same canonical otherCanonical
  have written := (genericWriter_eq_input_iff small parsed same).mpr canonical
  rw [(genericWriter_eq_input_iff otherSmall otherParsed (.refl result)).mpr otherCanonical] at written
  exact Except.ok.inj written

/-- An array of a byte string. -/
theorem canonical_of_plain_sample :
    genericWriter (.list [ofBytes [7]]) = .ok [0xC4, 0x20, 0xC2, 0x00, 0x07] ↔
      Canonical [0xC4, 0x20, 0xC2, 0x00, 0x07] :=
  have parsed : parse [0xC4, 0x20, 0xC2, 0x00, 0x07] = .ok (.list [ofBytes [7]]) := rfl
  (canonical_of_plain (by decide) parsed).1 _ (.refl _)

set_option maxRecDepth 2000 in
/-- A zero with a negative sign is parsed as the zero that is written without one, raw bytes in an
    array as the bytes that are written with a tag. -/
theorem other_forms_accepted :
    parse [0xC5, 0x83, 0x04, 0x00, 0x11, 0x00] = .ok (.hashable (.realNum (.cast .int8 0))) ∧
      parse [0xC5, 0x83, 0x04, 0x00, 0x10, 0x00] = .ok (.hashable (.realNum (.cast .int8 0))) ∧
      genericWriter (.hashable (.realNum (.cast .int8 0))) = .ok [0xC5, 0x83, 0x04, 0x00, 0x10, 0x00] ∧
      [0xC5, 0x83, 0x04, 0x00, 0x10, 0x00] ≠ ([0xC5, 0x83, 0x04, 0x00, 0x11, 0x00] : List UInt8) ∧
      parse [0xC2, 0x20, 0x07] = .ok (.list [ofBytes [7]]) ∧
      genericWriter (.list [ofBytes [7]]) = .ok [0xC4, 0x20, 0xC2, 0x00, 0x07] :=
  ⟨rfl, rfl, rfl, by decide, rfl, rfl⟩

end Inputs

end Decentagram.AdvancedRlp
