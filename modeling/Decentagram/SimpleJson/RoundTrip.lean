import Decentagram.SimpleJson.Completeness
import Decentagram.SimpleJson.Writer
import Decentagram.SimpleObjects.Equality
import Mathlib.Data.List.Perm.Basic

/-! # Reading what was written

What the writers make of a tree is read as a tree again, which is equal to the first one unless an
integer leaves the range of `Int64`.
-/

namespace Decentagram.SimpleJson

open Decentagram.Lib Decentagram.SimpleObjects Grammar

/-! ## Numbers -/

theorem digitChar_toNat {digit : Nat} (small : digit < 10) : (digitChar digit).toNat = 48 + digit := by
  rw [digitChar, UInt8.toNat_ofNat']
  omega

theorem digits_decimal (n : Nat) : Digits (decimal n) := by
  have isDigit : ∀ {digit : Nat}, digit < 10 → 0x30 ≤ digitChar digit ∧ digitChar digit ≤ 0x39 := by
    intro digit small
    simp only [UInt8.le_iff_toNat_le, digitChar_toNat small, UInt8.reduceToNat]
    omega
  fun_induction decimal n with
  | case1 n small => exact ⟨by simp, List.forall_mem_singleton.mpr (isDigit small)⟩
  | case2 n big inductionHypothesis =>
    refine ⟨by simp, List.forall_mem_append.mpr ⟨inductionHypothesis.2, ?_⟩⟩
    exact List.forall_mem_singleton.mpr (isDigit (Nat.mod_lt n (by omega)))

theorem head_decimal {n : Nat} (positive : 0 < n) : (decimal n).head? ≠ some 0x30 := by
  fun_induction decimal n with
  | case1 n small =>
    intro isZero
    have value := congrArg (Option.map UInt8.toNat) isZero
    simp only [List.head?_cons, Option.map_some, Option.some.injEq, digitChar_toNat small,
      UInt8.reduceToNat] at value
    omega
  | case2 n big inductionHypothesis =>
    rw [List.head?_append_of_ne_nil _ (digits_decimal _).1]
    exact inductionHypothesis (by omega)

theorem intPart_decimal (n : Nat) : IntPart (decimal n) := by
  rcases Nat.eq_zero_or_pos n with rfl | positive
  · rw [decimal]
    exact .zero
  · exact .nonzero (digits_decimal n) (head_decimal positive)

theorem magnitude_decimal (n : Nat) :
    (decimal n).foldl (fun (value : Int) digit => 10 * value + (digit.toNat - 48)) 0 = n := by
  fun_induction decimal n with
  | case1 n small =>
    rw [List.foldl_cons, List.foldl_nil, digitChar_toNat small]
    omega
  | case2 n big inductionHypothesis =>
    rw [List.foldl_append, inductionHypothesis, List.foldl_cons, List.foldl_nil,
      digitChar_toNat (Nat.mod_lt n (by omega))]
    omega

/-- What `long long` makes of an integer. -/
def clamp (val : Int) : Int := max (RealNumType.lowest .int64) (min (RealNumType.max .int64) val)

theorem dropWhile_decimal (n : Nat) : (decimal n).dropWhile (· = chr '-') = decimal n := by
  obtain ⟨notEmpty, areDigits⟩ := digits_decimal n
  cases isText : decimal n with
  | nil => exact absurd isText notEmpty
  | cons ch digits =>
    refine List.dropWhile_cons_of_neg ?_
    rw [decide_eq_true_iff]
    rintro rfl
    exact absurd (areDigits (chr '-') (isText ▸ List.mem_cons_self)) (by decide)

theorem atoll_toDecimal (val : Int) : atoll (toDecimal val) = clamp val := by
  rw [toDecimal]
  split
  · rename_i negative
    rw [atoll, List.dropWhile_cons_of_pos (by simp), dropWhile_decimal, magnitude_decimal,
      List.head?_cons, if_pos rfl, clamp, show -(val.natAbs : Int) = val by omega]
  · rename_i nonneg
    have noSign : (decimal val.natAbs).head? ≠ some (chr '-') := by
      intro isSign
      have isDigit := (digits_decimal val.natAbs).2 _ (List.mem_of_head? isSign)
      exact absurd isDigit (by decide)
    rw [atoll, dropWhile_decimal, magnitude_decimal, if_neg noSign, clamp,
      show (val.natAbs : Int) = val by omega]

theorem readAs_toDecimal {Obj : Type} (types : ObjectTypes Obj) (val : Int) :
    ReadAs types (toDecimal val) (types.int (.cast .int64 (clamp val))) := by
  obtain ⟨minus, isMinus, isText⟩ : ∃ minus, (minus = [] ∨ minus = [0x2D]) ∧
      toDecimal val = minus ++ decimal val.natAbs := by
    by_cases negative : val < 0
    · exact ⟨[0x2D], .inr rfl, if_pos negative⟩
    · exact ⟨[], .inl rfl, if_neg negative⟩
  obtain ⟨obj, readAs, isInt⟩ :=
    @readAs_number Obj types minus _ [] [] isMinus (intPart_decimal val.natAbs) .none .none
  rw [isInt rfl rfl, List.append_nil, List.append_nil, ← isText, atoll_toDecimal] at readAs
  exact readAs

/-- An integer comes back as an equal one unless it is above the range of `Int64`. -/
theorem equal_clamp_iff (num : RealNum) :
    RealNumCompare.equal (.cast .int64 (clamp num.val)) num = true ↔
    num.val ≤ RealNumType.max .int64 := by
  have atLeast : RealNumType.lowest .int64 ≤ num.val := by
    refine le_trans ?_ num.atLeast
    cases num.numType <;> decide
  have inOrder : RealNumType.lowest .int64 ≤ RealNumType.max .int64 := by decide
  have inRange : (RealNum.cast .int64 (clamp num.val)).val = clamp num.val :=
    RealNumType.wrap_of_range (le_max_left _ _) (max_le inOrder (min_le_left _ _))
  rw [RealNumCompare.equal_iff, inRange, clamp]
  omega

/-! ## Strings -/

theorem writeAscii_cases (ch : UInt8) :
    (∃ letter ∈ escapes, writeAscii ch = [0x5C, letter] ∧ escaped letter = some ch) ∨
      writeAscii ch = [ch] ∧ ch ≠ 0x22 ∧ ch ≠ 0x5C := by
  revert ch
  apply forall_byte
  decide +kernel

theorem pieceReads_writeAscii {ch : UInt8} (isAscii : ch ≤ 0x7F) : PieceReads (writeAscii ch) [ch] := by
  rcases writeAscii_cases ch with ⟨letter, -, isWritten, isEscape⟩ | ⟨isWritten, notQuote, notBackslash⟩
  · rw [isWritten]
    exact pieceReads_escape isEscape
  · rw [isWritten]
    exact pieceReads_ascii isAscii notQuote notBackslash

theorem hexDigit_nibbleChar (nibble : UInt16) : hexDigit (nibbleChar nibble) = some (nibble.toNat % 16) := by
  have all : ∀ k : Fin 16, hexDigit (alphabet.getD k 0) = some k.val := by decide
  have low : (nibble &&& 0x0F).toNat = nibble.toNat % 16 := by
    rw [UInt16.toNat_and]
    exact Nat.and_two_pow_sub_one_eq_mod nibble.toNat 4
  rw [nibbleChar, low]
  exact all ⟨nibble.toNat % 16, Nat.mod_lt _ (by decide)⟩

theorem hexUnit_writeUXXXX (unit : UInt16) : HexUnit (writeUXXXX unit) unit.toNat := by
  refine ⟨(unit >>> 12).toNat % 16, (unit >>> 8).toNat % 16, (unit >>> 4).toNat % 16,
    (unit >>> 0).toNat % 16, by simp only [writeUXXXX, List.map_cons, List.map_nil,
    hexDigit_nibbleChar], ?_⟩
  have small := unit.toNat_lt
  have shifts : (unit >>> 12).toNat = unit.toNat / 4096 ∧ (unit >>> 8).toNat = unit.toNat / 256 ∧
      (unit >>> 4).toNat = unit.toNat / 16 ∧ (unit >>> 0).toNat = unit.toNat := by
    simp [UInt16.toNat_shiftRight, Nat.shiftRight_eq_div_pow]
  rw [shifts.1, shifts.2.1, shifts.2.2.1, shifts.2.2.2]
  omega

theorem utf16EncodeChar_cases (char : Char) :
    (∃ unit, SimpleUtf.utf16EncodeChar char = [unit] ∧ ¬ IsFirstSurrogate unit.toNat) ∨
      ∃ first second, SimpleUtf.utf16EncodeChar char = [first, second] ∧
      IsFirstSurrogate first.toNat := by
  by_cases small : char.val.toNat < 0x10000
  · have encoded : SimpleUtf.utf16EncodeChar char = [UInt16.ofNat char.val.toNat] := if_pos small
    have alone := SimpleUtf.alone_of_utf16EncodeChar encoded
    refine .inl ⟨_, encoded, fun isFirst => alone.2 ?_⟩
    simp only [IsFirstSurrogate] at isFirst
    omega
  · have encoded : SimpleUtf.utf16EncodeChar char = [UInt16.ofNat (0xD800 + (char.val.toNat - 0x10000) / 1024),
        UInt16.ofNat (0xDC00 + (char.val.toNat - 0x10000) % 1024)] := if_neg small
    have range := SimpleUtf.range_of_char char
    have fits : 0xD800 + (char.val.toNat - 0x10000) / 1024 < 2 ^ 16 := by omega
    refine .inr ⟨_, _, encoded, ?_⟩
    rw [IsFirstSurrogate, UInt16.toNat_ofNat_of_lt' fits]
    omega

/-- The escapes of a character are read as the character. -/
theorem pieceReads_writeUnits (char : Char) :
    writeUnits (SimpleUtf.utf16EncodeChar char) ≠ [] ∧
      PieceReads (writeUnits (SimpleUtf.utf16EncodeChar char)) (String.utf8EncodeChar char) := by
  rcases utf16EncodeChar_cases char with ⟨unit, encoded, notFirst⟩ | ⟨first, second, encoded, isFirst⟩
  · rw [encoded]
    refine ⟨List.cons_ne_nil _ _, pieceReads_unit (hexUnit_writeUXXXX unit) (fun unit' same => ?_) notFirst⟩
    rw [encoded, UInt16.toNat_inj.mp same]
  · rw [encoded, writeUnits, if_pos (isFirstSurrogate_iff.mpr isFirst)]
    refine ⟨List.cons_ne_nil _ _, pieceReads_pair (hexUnit_writeUXXXX first) (hexUnit_writeUXXXX second) isFirst
      fun first' second' same same' => ?_⟩
    rw [encoded, UInt16.toNat_inj.mp same, UInt16.toNat_inj.mp same']

/-- The leading byte of a character tells how many bytes follow. -/
theorem leading_of_encodeChar {char : Char} {ch : UInt8} {conts : List UInt8}
    (isChar : String.utf8EncodeChar char = ch :: conts) :
    ∃ leading, SimpleUtf.utf8ReadLeading ch = .ok (conts.length, leading) := by
  have decoded := SimpleUtf.utf8ToCodePtOnce_encodeChar char []
  rw [List.append_nil, isChar] at decoded
  simp only [SimpleUtf.utf8ToCodePtOnce, bind_eq_ok, Prod.exists] at decoded
  obtain ⟨contCount, leading, isLeading, _, _, readConts, checked⟩ := decoded
  split at checked
  · cases checked
    rw [SimpleUtf.length_of_utf8ReadConts readConts]
    exact ⟨leading, isLeading⟩
  · cases checked

/-- A byte below 128 has no continuation bytes. -/
theorem conts_of_ascii {char : Char} {ch : UInt8} {conts : List UInt8}
    (isChar : String.utf8EncodeChar char = ch :: conts) (isAscii : ch ≤ 0x7F) : conts = [] := by
  obtain ⟨leading, isLeading⟩ := leading_of_encodeChar isChar
  rw [SimpleUtf.utf8ReadLeading, if_pos isAscii, Except.ok.injEq, Prod.mk.injEq] at isLeading
  exact List.eq_nil_of_length_eq_zero isLeading.1.symm

/-- A character is written as a piece that reads as the character. -/
theorem writeChars_char (char : Char) : ∃ piece, piece ≠ [] ∧
    PieceReads piece (String.utf8EncodeChar char) ∧
    ∀ left rest, writeChars (left + 1) (String.utf8EncodeChar char ++ rest) =
      (writeChars left rest).map (piece ++ ·) := by
  cases isChar : String.utf8EncodeChar char with
  | nil => exact absurd isChar String.utf8EncodeChar_ne_nil
  | cons ch conts =>
    by_cases isAscii : ch ≤ 0x7F
    · have notEmpty : writeAscii ch ≠ [] := by
        rcases writeAscii_cases ch with ⟨letter, -, isWritten, -⟩ | ⟨isWritten, -⟩ <;> simp [isWritten]
      rw [conts_of_ascii isChar isAscii]
      refine ⟨writeAscii ch, notEmpty, pieceReads_writeAscii isAscii, fun left rest => ?_⟩
      rw [List.singleton_append, writeChars, if_pos isAscii]
      cases writeChars left rest <;> rfl
    · obtain ⟨leading, isLeading⟩ := leading_of_encodeChar isChar
      obtain ⟨notEmpty, reads⟩ := pieceReads_writeUnits char
      have decoded := SimpleUtf.utf8ToCodePtOnce_encodeChar char []
      rw [List.append_nil, isChar] at decoded
      rw [isChar] at reads
      refine ⟨_, notEmpty, reads, fun left rest => ?_⟩
      have enough : ¬ (conts ++ rest).length < conts.length := by simp
      rw [List.cons_append, writeChars, if_neg isAscii, isLeading]
      change (if (conts ++ rest).length < conts.length then _ else _) = _
      rw [if_neg enough, List.take_left' rfl, List.drop_left' rfl, decoded]
      change ((SimpleUtf.codePtToUtf16Once char.val).mapError WriteError.utf >>= fun pair =>
        writeChars left rest >>= fun written =>
          (Except.ok (writeUnits pair ++ written) : Except WriteError _)) = _
      rw [SimpleUtf.codePtToUtf16Once_char]
      cases writeChars left rest <;> rfl

theorem writeChars_chars (chars : List Char) : ∃ pieces, PiecesRead pieces ∧
    (pieces.map Prod.snd).flatten = chars.flatMap String.utf8EncodeChar ∧
    ∀ left, (chars.flatMap String.utf8EncodeChar).length ≤ left →
      writeChars left (chars.flatMap String.utf8EncodeChar) = .ok (pieces.map Prod.fst).flatten := by
  induction chars with
  | nil =>
    refine ⟨[], List.forall_mem_nil _, rfl, fun left _ => ?_⟩
    cases left <;> rfl
  | cons char chars inductionHypothesis =>
    obtain ⟨pieces, areRead, isString, written⟩ := inductionHypothesis
    obtain ⟨piece, notEmpty, reads, first⟩ := writeChars_char char
    refine ⟨(piece, String.utf8EncodeChar char) :: pieces,
      List.forall_mem_cons.mpr ⟨⟨notEmpty, reads⟩, areRead⟩, ?_, fun left enough => ?_⟩
    · rw [List.map_cons, List.flatten_cons, isString, List.flatMap_cons]
    · have nonempty := List.length_pos_iff.mpr (@String.utf8EncodeChar_ne_nil char)
      rw [List.flatMap_cons, List.length_append] at enough
      obtain ⟨left, rfl⟩ : ∃ below, left = below + 1 := ⟨left - 1, by omega⟩
      rw [List.flatMap_cons, first, written left (by omega)]
      rfl

theorem stringReads_writeString {obj : List UInt8} (isValid : SimpleUtf.ValidUtf8 obj) :
    ∃ text, writeString obj = .ok (0x22 :: text) ∧ StringReads (0x22 :: text) obj := by
  obtain ⟨chars, rfl⟩ := isValid
  obtain ⟨pieces, areRead, isString, written⟩ := writeChars_chars chars
  have reads := stringReads areRead
  rw [isString] at reads
  exact ⟨_, by rw [writeString, written _ (Nat.le_refl _)]; rfl, reads⟩

/-! ## Containers -/

/-- The white space that a configuration indents with, if it does. -/
def IndentsWithSpaces (config : WriterConfig) : Prop :=
  config.indent ≠ [] → Spaces config.indent ∧ Spaces config.lineEnd

section

variable {config : WriterConfig}

theorem indents_iff : indents config = true ↔ config.indent ≠ [] := by
  rw [indents, decide_eq_true_iff, List.length_pos_iff]

theorem spaces_writeIndent (withSpaces : IndentsWithSpaces config) (nestLevel : Nat) :
    Spaces (writeIndent config nestLevel) := by
  rw [writeIndent]
  split
  · rename_i indented
    intro space inText
    obtain ⟨line, inLines, inLine⟩ := List.mem_flatten.mp inText
    rw [List.eq_of_mem_replicate inLines] at inLine
    exact (withSpaces (indents_iff.mp indented)).1 space inLine
  · exact Spaces.nil

theorem spaces_writeLineEnd (withSpaces : IndentsWithSpaces config) : Spaces (writeLineEnd config) := by
  rw [writeLineEnd]
  split
  · rename_i indented
    exact (withSpaces (indents_iff.mp indented)).2
  · exact Spaces.nil

/-- The texts of items, each with what it reads as. -/
def WrittenAs {α : Type} (isItem : List UInt8 → α → Prop)
    (items : List (Except WriteError (List UInt8))) (read : List α) : Prop :=
  List.Forall₂ (fun item value => ∃ text, item = .ok text ∧ isItem text value) items read

/-- White space may stand before an item. -/
def SpacesBefore {α : Type} (isItem : List UInt8 → α → Prop) : Prop :=
  ∀ spaces text value, Spaces spaces → isItem text value → isItem (spaces ++ text) value

variable {α : Type} {isItem : List UInt8 → α → Prop}

/-- What the loop writes is a sequence of items. -/
theorem following_writeLoop (withSpaces : IndentsWithSpaces config) (before : SpacesBefore isItem)
    {nestLevel : Nat}
    {items : List (Except WriteError (List UInt8))} {read : List α}
    (written : WrittenAs isItem items read) :
    ∃ text, writeLoop config nestLevel items = .ok text ∧ ∀ closing, Spaces closing →
      Following isItem ((if items = [] then [] else [chr ',']) ++ writeLineEnd config ++ text ++ closing)
        read := by
  have lineEnd := spaces_writeLineEnd withSpaces
  have indent := spaces_writeIndent withSpaces (nestLevel + 1)
  induction written with
  | nil =>
    refine ⟨[], rfl, fun closing areSpaces => .none ?_⟩
    rw [List.append_nil]
    exact lineEnd.append areSpaces
  | @cons item value items read isWritten written inductionHypothesis =>
    obtain ⟨text, rfl, itemText⟩ := isWritten
    obtain ⟨rest, isRest, following⟩ := inductionHypothesis
    refine ⟨_, by rw [writeLoop, isRest]; rfl, fun closing areSpaces => ?_⟩
    have item := before _ _ _ (lineEnd.append indent) itemText
    have more := Following.more Spaces.nil item (following closing areSpaces)
    simpa [show chr ',' = 0x2C from rfl] using more

theorem writeContainer_cons (withSpaces : IndentsWithSpaces config) (before : SpacesBefore isItem)
    (nestLevel : Nat)
    (opening closing : UInt8) {item : Except WriteError (List UInt8)}
    {items : List (Except WriteError (List UInt8))}
    {value : α} {read : List α} (written : WrittenAs isItem (item :: items) (value :: read)) :
    ∃ first tail, writeContainer config nestLevel opening closing (item :: items) =
        .ok (opening :: (first ++ tail ++ [closing])) ∧ isItem first value ∧
        Following isItem tail read := by
  obtain ⟨⟨text, rfl, itemText⟩, behind⟩ := List.forall₂_cons.mp written
  obtain ⟨rest, isRest, following⟩ :=
    @following_writeLoop _ _ isItem withSpaces before nestLevel _ _ behind
  have lineEnd := spaces_writeLineEnd withSpaces
  have first := before _ _ _ (lineEnd.append (spaces_writeIndent withSpaces (nestLevel + 1))) itemText
  refine ⟨_, _, ?_, first, following _ (spaces_writeIndent withSpaces nestLevel)⟩
  rw [writeContainer, writeLoop, isRest]
  change Except.ok _ = Except.ok _
  simp

variable {Obj : Type} {types : ObjectTypes Obj}

theorem spacesBefore_listItem : SpacesBefore (ListItem types) := by
  rintro spaces _ obj areSpaces ⟨before, value, areSpaces', readAs, rfl⟩
  exact ⟨spaces ++ before, value, areSpaces.append areSpaces', readAs, (List.append_assoc _ _ _).symm⟩

theorem spacesBefore_dictItem : SpacesBefore (DictItem types) := by
  rintro spaces _ entry areSpaces ⟨areSpaces', stringReads, colonSpaces, aheadSpaces, readAs⟩
  rw [← List.append_assoc]
  exact .of (areSpaces.append areSpaces') stringReads colonSpaces aheadSpaces readAs

theorem readAs_writeList (withSpaces : IndentsWithSpaces config) (nestLevel : Nat)
    {items : List (Except WriteError (List UInt8))} {objs : List Obj}
    (written : WrittenAs (ListItem types) items objs) :
    ∃ text, writeContainer config nestLevel (chr '[') (chr ']') items = .ok text ∧
      ReadAs types text (types.list objs) := by
  cases written with
  | nil => exact ⟨_, rfl, readAs_emptyList Spaces.nil⟩
  | cons item items =>
    obtain ⟨first, tail, isText, isItem, following⟩ :=
      writeContainer_cons withSpaces spacesBefore_listItem nestLevel
      (chr '[') (chr ']') (.cons item items)
    exact ⟨_, isText, readAs_list isItem following⟩

theorem readAs_writeDict (withSpaces : IndentsWithSpaces config) (nestLevel : Nat)
    {items : List (Except WriteError (List UInt8))} {entries : List (List UInt8 × Obj)}
    (written : WrittenAs (DictItem types) items entries) :
    ∃ text, writeContainer config nestLevel (chr '\x7b') (chr '\x7d') items = .ok text ∧
      ReadAs types text (types.dict (insertAll [] entries)) := by
  cases written with
  | nil => exact ⟨_, rfl, readAs_emptyDict Spaces.nil⟩
  | cons item items =>
    obtain ⟨first, tail, isText, isItem, following⟩ :=
      writeContainer_cons withSpaces spacesBefore_dictItem nestLevel
      (chr '\x7b') (chr '\x7d') (.cons item items)
    exact ⟨_, isText, readAs_dict isItem following⟩

/-- Entries of different keys stay as they are. -/
theorem insertAll_of_distinct {d entries : List (List UInt8 × Obj)}
    (distinct : (d ++ entries).Pairwise fun left right => left.1 ≠ right.1) :
    insertAll d entries = d ++ entries := by
  induction entries generalizing d with
  | nil => exact (List.append_nil d).symm
  | cons entry entries inductionHypothesis =>
    have isNew : d.any (fun other => other.1 = entry.1) = false := by
      rw [List.any_eq_false]
      intro other inDict
      have differs := (List.pairwise_append.mp distinct).2.2 other inDict entry List.mem_cons_self
      simpa using differs
    rw [List.append_cons] at distinct
    rw [insertAll, List.foldl_cons, insertOrAssign, isNew, if_neg Bool.false_ne_true, ← insertAll,
      inductionHypothesis distinct, ← List.append_cons]

end

/-! ## Trees -/

def JsonLeaf : HashableObject → Prop
  | .string val => SimpleUtf.ValidUtf8 val
  | .bytes _ => False
  | _ => True

/-- The keys of a dictionary are different strings. -/
def JsonKeys (keys : List HashableObject) : Prop :=
  (∀ key ∈ keys, ∃ val, key = .string val) ∧ keys.Pairwise HashableObject.Differ

def IsJson : Object → Prop := Object.Holds JsonLeaf JsonKeys

/-- No integer of the tree is above the range of `Int64`. -/
def FitsInt64 : Object → Prop :=
  Object.Holds (fun | .realNum num => num.val ≤ RealNumType.max .int64 | _ => True) fun _ => True

theorem fitsInt64_list {items : List Object} : FitsInt64 (.list items) ↔
    ∀ item ∈ items, FitsInt64 item := by
  rw [FitsInt64, Object.Holds]
  induction items with
  | nil => simp [Object.HoldsItems]
  | cons item items inductionHypothesis => rw [Object.HoldsItems, inductionHypothesis,
    List.forall_mem_cons]

theorem fitsInt64_dict {entries : Dict}
    (strings : ∀ key ∈ entries.map Prod.fst, ∃ val, key = .string val) :
    FitsInt64 (.dict entries) ↔ ∀ entry ∈ entries, FitsInt64 entry.2 := by
  rw [FitsInt64, Object.Holds, true_and, Object.holdsEntries_iff]
  refine forall₂_congr fun entry inDict => ?_
  obtain ⟨val, isString⟩ := strings entry.1 (List.mem_map_of_mem inDict)
  rw [isString, true_and]

section

variable {real : List UInt8 → Object} {config : WriterConfig}

/-- The tree is written, and what was written reads as an equal tree exactly if it fits. -/
def ReadsBack (real : List UInt8 → Object) (config : WriterConfig) (nestLevel : Nat)
    (tree : Object) : Prop :=
  ∃ text obj, write config nestLevel tree = .ok text ∧ ReadAs (defaultTypes real) text obj ∧
    (obj.baseObjectIsEqual tree = true ↔ FitsInt64 tree)

theorem readsBack_bool {num : RealNum} (isBool : num.numType = .bool) (nestLevel : Nat) :
    ReadsBack real config nestLevel (.hashable (.realNum num)) := by
  have fits : num.val ≤ RealNumType.max .int64 := by
    have atMost := num.atMost
    rw [isBool] at atMost
    exact le_trans atMost (by decide)
  have same : RealNumCompare.equal (.ofBool num.isTrue) num = true := by
    rw [RealNum.ofBool_isTrue isBool, RealNumCompare.equal_iff]
  have written : write config nestLevel (.hashable (.realNum num)) = .ok (writeBool num) := by
    rw [write, writeHashable, writeRealNum, if_pos isBool]
  refine ⟨_, .hashable (.realNum (.ofBool num.isTrue)), written, ?_, iff_of_true same fits⟩
  rw [writeBool]
  cases num.isTrue with
  | true => exact readAs_true
  | false => exact readAs_false

theorem readsBack_int {num : RealNum} (notBool : num.numType ≠ .bool) (nestLevel : Nat) :
    ReadsBack real config nestLevel (.hashable (.realNum num)) := by
  have written : write config nestLevel (.hashable (.realNum num)) = .ok (toDecimal num.val) := by
    rw [write, writeHashable, writeRealNum, if_neg notBool]
  exact ⟨_, _, written, readAs_toDecimal _ _, equal_clamp_iff num⟩

theorem readsBack_hashable {val : HashableObject} (isJson : IsJson (.hashable val)) (nestLevel : Nat) :
    ReadsBack real config nestLevel (.hashable val) := by
  cases val with
  | null => exact ⟨_, _, rfl, readAs_null, by simp [defaultTypes, Object.baseObjectIsEqual,
    FitsInt64, Object.Holds, HashableObject.baseObjectIsEqual]⟩
  | realNum num =>
    by_cases isBool : num.numType = .bool
    · exact readsBack_bool isBool nestLevel
    · exact readsBack_int isBool nestLevel
  | string val =>
    obtain ⟨text, written, reads⟩ := stringReads_writeString isJson
    refine ⟨_, _, written, readAs_string reads, ?_⟩
    simp [defaultTypes, Object.baseObjectIsEqual, FitsInt64, Object.Holds,
      HashableObject.baseObjectIsEqual]
  | bytes val => exact False.elim isJson

theorem writeItems_eq (nestLevel : Nat) (items : List Object) :
    writeItems config nestLevel items = items.map (write config nestLevel) := by
  induction items with
  | nil => rfl
  | cons item items inductionHypothesis => rw [writeItems, inductionHypothesis, List.map_cons]

theorem writeEntries_eq (nestLevel : Nat) (entries : Dict) :
    writeEntries config nestLevel entries =
      entries.map fun entry => (entry.1, write config nestLevel entry.2) := by
  induction entries with
  | nil => rfl
  | cons entry entries inductionHypothesis => rw [writeEntries, inductionHypothesis, List.map_cons]

theorem readsBack_list (withSpaces : IndentsWithSpaces config) {items : List Object} (nestLevel : Nat)
    (readBack : ∀ item ∈ items, ReadsBack real config (nestLevel + 1) item) :
    ReadsBack real config nestLevel (.list items) := by
  obtain ⟨objs, written, equal⟩ : ∃ objs,
      WrittenAs (ListItem (defaultTypes real)) (items.map (write config (nestLevel + 1))) objs ∧
        (Object.listBaseIsEqual objs items = true ↔ ∀ item ∈ items, FitsInt64 item) := by
    induction items with
    | nil => exact ⟨[], .nil, by simp [Object.listBaseIsEqual]⟩
    | cons item items inductionHypothesis =>
      obtain ⟨⟨text, obj, isWritten, readAs, equal⟩, readBack⟩ := List.forall_mem_cons.mp readBack
      obtain ⟨objs, written, equal'⟩ := inductionHypothesis readBack
      refine ⟨obj :: objs, .cons ⟨text, isWritten, [], text, Spaces.nil, readAs, rfl⟩ written, ?_⟩
      rw [Object.listBaseIsEqual, Bool.and_eq_true, equal, equal', List.forall_mem_cons]
  obtain ⟨text, isText, readAs⟩ := readAs_writeList withSpaces nestLevel written
  refine ⟨text, _, by rw [write, writeItems_eq, isText], readAs, ?_⟩
  rw [defaultTypes, Object.baseObjectIsEqual, equal, fitsInt64_list]

/-- Sorted by their keys the entries are the same ones. -/
theorem orderedEntries_spec {α : Type} {obj : List (HashableObject × α)}
    (distinct : (obj.map Prod.fst).Pairwise HashableObject.Differ) :
    ∃ ordered, orderedEntries obj = .ok ordered ∧ ordered.Perm obj := by
  let less (left right : HashableObject × α) := left.1.lessThan right.1
  have separated : obj.Pairwise (Separates less fun entry => entry.1.rank) := by
    refine (List.pairwise_map.mp distinct).imp fun differ => ?_
    exact differ.separates.imp (fun before => ⟨before.isLess, before.forward, before.backward⟩)
      fun before => ⟨before.isLess, before.forward, before.backward⟩
  obtain ⟨ordered, sorted, permutes, -⟩ := sortBy_spec separated
  have keys : sortBy HashableObject.lessThan (obj.map Prod.fst) = .ok (ordered.map Prod.fst) := by
    rw [@sortBy_map _ _ less _ Prod.fst HashableObject.lessThan (fun _ _ => rfl), sorted]
    rfl
  refine ⟨ordered, ?_, permutes⟩
  rw [orderedEntries, keys]
  have found : ∀ entry ∈ ordered, (obj.find? fun other => other.1.baseObjectIsEqual entry.1) = some entry :=
    fun entry inOrdered => find?_of_mem distinct (permutes.mem_iff.mp inOrdered)
  clear sorted permutes keys
  change (ordered.map Prod.fst).mapM _ = _
  induction ordered with
  | nil => rfl
  | cons entry ordered inductionHypothesis =>
    obtain ⟨isFound, found⟩ := List.forall_mem_cons.mp found
    rw [List.map_cons, List.mapM_cons, isFound, inductionHypothesis found]
    rfl

/-- The entries in the order in which they are written. -/
theorem entries_written {entries : Dict}
    (distinct : (entries.map Prod.fst).Pairwise HashableObject.Differ)
    (nestLevel : Nat) : ∃ entries' : Dict, entries'.Perm entries ∧
      write config nestLevel (.dict entries) = writeContainer config nestLevel (chr '\x7b') (chr '\x7d')
        (entries'.map fun entry => writeEntry config (entry.1, write config (nestLevel + 1) entry.2)) := by
  rw [write, writeEntries_eq]
  dsimp only
  cases config.orderDict with
  | false => exact ⟨entries, .refl _, by rw [if_neg Bool.false_ne_true, ok_bind, List.map_map]; rfl⟩
  | true =>
    have distinct' : ((entries.map fun entry => (entry.1, write config (nestLevel + 1) entry.2)).map
        Prod.fst).Pairwise HashableObject.Differ := by
      rwa [List.map_map]
    obtain ⟨ordered, isOrdered, permutes⟩ := orderedEntries_spec distinct'
    have isMap := List.eq_map_comp_perm fun entry : HashableObject × Object =>
      (entry.1, write config (nestLevel + 1) entry.2)
    obtain ⟨entries', rfl, permutes'⟩ := (congrFun (congrFun isMap ordered) entries).mpr permutes
    exact ⟨entries', permutes', by rw [if_pos rfl, isOrdered, ok_bind, List.map_map]; rfl⟩

/-- An entry of a tree with what is read of it. -/
structure EntryRead (real : List UInt8 → Object) (config : WriterConfig) (nestLevel : Nat)
    (entry : HashableObject × Object) (read : List UInt8 × Object) : Prop where
  isKey : entry.1 = .string read.1
  written : ∃ text, writeEntry config (entry.1, write config nestLevel entry.2) = .ok text ∧
    DictItem (defaultTypes real) text read
  equal : read.2.baseObjectIsEqual entry.2 = true ↔ FitsInt64 entry.2

theorem exists_entryRead {key : List UInt8} {val : Object} (isValid : SimpleUtf.ValidUtf8 key)
    {nestLevel : Nat} (readBack : ReadsBack real config nestLevel val) :
    ∃ read, EntryRead real config nestLevel (.string key, val) read := by
  obtain ⟨name, writtenKey, stringReads⟩ := stringReads_writeString isValid
  obtain ⟨text, obj, written, readAs, equal⟩ := readBack
  refine ⟨(key, obj), rfl, ?_, equal⟩
  rw [writeEntry, writeKey, writtenKey, ok_bind, written, ok_bind]
  cases indents config with
  | true =>
    have space : Spaces [chr ' '] := List.forall_mem_singleton.mpr (by decide)
    have item := DictItem.of Spaces.nil stringReads space space readAs
    exact ⟨_, rfl, by simpa [show chr ':' = 0x3A from rfl] using item⟩
  | false =>
    have item := DictItem.of Spaces.nil stringReads Spaces.nil Spaces.nil readAs
    exact ⟨_, rfl, by simpa [show chr ':' = 0x3A from rfl] using item⟩

theorem readsBack_dict (withSpaces : IndentsWithSpaces config) {entries : Dict} (nestLevel : Nat)
    (distinct : (entries.map Prod.fst).Pairwise HashableObject.Differ)
    (areRead : ∀ entry ∈ entries, ∃ read, EntryRead real config (nestLevel + 1) entry read) :
    ReadsBack real config nestLevel (.dict entries) := by
  obtain ⟨entries', permutes, written⟩ := @entries_written config entries distinct nestLevel
  have nonempty : Nonempty Object := ⟨.list []⟩
  choose! read areRead using areRead
  have inEntries : ∀ entry ∈ entries', entry ∈ entries := fun entry => permutes.mem_iff.mp
  have texts : WrittenAs (DictItem (defaultTypes real))
      (entries'.map fun entry => writeEntry config (entry.1, write config (nestLevel + 1) entry.2))
      (entries'.map read) := by
    rw [WrittenAs, List.forall₂_map_left_iff, List.forall₂_map_right_iff, List.forall₂_same]
    exact fun entry inEntries' => (areRead entry (inEntries entry inEntries')).written
  have distinct' : (entries'.map read).Pairwise fun left right => left.1 ≠ right.1 := by
    have differ := (permutes.map Prod.fst).symm.pairwise distinct HashableObject.Differ.symm
    refine List.pairwise_map.mpr ?_
    refine (List.pairwise_map.mp differ).imp_of_mem fun inLeft inRight differ same => ?_
    have notEqual := differ.notEqual
    rw [(areRead _ (inEntries _ inLeft)).isKey, (areRead _ (inEntries _ inRight)).isKey,
      same] at notEqual
    simp [HashableObject.baseObjectIsEqual] at notEqual
  obtain ⟨text, isText, readAs⟩ := readAs_writeDict withSpaces nestLevel texts
  rw [insertAll_of_distinct distinct'] at readAs
  refine ⟨text, _, by rw [written, isText], readAs, ?_⟩
  have strings : ∀ key ∈ entries.map Prod.fst, ∃ val, key = .string val := by
    intro key isKey
    obtain ⟨entry, inDict, rfl⟩ := List.mem_map.mp isKey
    exact ⟨_, (areRead entry inDict).isKey⟩
  rw [fitsInt64_dict strings, List.nil_append]
  change (Object.dict ((entries'.map read).map fun entry => (.string entry.1, entry.2))).baseObjectIsEqual
    (.dict entries) = true ↔ _
  rw [List.map_map, Object.baseObjectIsEqual, Bool.and_eq_true, Object.dictBaseIsEqual_iff,
    List.length_map, permutes.length_eq, List.forall_mem_map]
  simp only [decide_true, true_and, Function.comp_apply]
  constructor
  · intro equal entry inDict
    obtain ⟨other, isFound, same⟩ := equal entry (permutes.mem_iff.mpr inDict)
    rw [← (areRead entry inDict).isKey, Dict.findVal_of_mem distinct inDict] at isFound
    cases isFound
    exact (areRead entry inDict).equal.mp same
  · intro fits entry inEntries'
    have inDict := inEntries entry inEntries'
    refine ⟨entry.2, ?_, (areRead entry inDict).equal.mpr (fits entry inDict)⟩
    rw [← (areRead entry inDict).isKey, Dict.findVal_of_mem distinct inDict]

mutual

theorem readsBack (withSpaces : IndentsWithSpaces config) (tree : Object) (isJson : IsJson tree)
    (nestLevel : Nat) :
    ReadsBack real config nestLevel tree :=
  match tree, isJson with
  | .hashable _, isJson => readsBack_hashable isJson nestLevel
  | .list items, isJson =>
    readsBack_list withSpaces nestLevel (readsBack_items withSpaces items isJson (nestLevel + 1))
  | .dict entries, isJson =>
    readsBack_dict withSpaces nestLevel isJson.1.2
      (exists_entriesRead withSpaces entries isJson.1.1 isJson.2 (nestLevel + 1))

theorem readsBack_items (withSpaces : IndentsWithSpaces config) (items : List Object)
    (areJson : IsJson (.list items))
    (nestLevel : Nat) : ∀ item ∈ items, ReadsBack real config nestLevel item :=
  match items, areJson with
  | [], _ => List.forall_mem_nil _
  | item :: items, areJson =>
    List.forall_mem_cons.mpr ⟨readsBack withSpaces item areJson.1 nestLevel,
      readsBack_items withSpaces items areJson.2 nestLevel⟩

theorem exists_entriesRead (withSpaces : IndentsWithSpaces config) (entries : Dict)
    (strings : ∀ key ∈ entries.map Prod.fst, ∃ val, key = .string val)
    (areJson : Object.HoldsEntries JsonLeaf JsonKeys entries) (nestLevel : Nat) :
    ∀ entry ∈ entries, ∃ read, EntryRead real config nestLevel entry read :=
  match entries, strings, areJson with
  | [], _, _ => List.forall_mem_nil _
  | (key, val) :: entries, strings, areJson => by
    obtain ⟨isString, strings⟩ := List.forall_mem_cons.mp strings
    refine List.forall_mem_cons.mpr ⟨?_,
      exists_entriesRead withSpaces entries strings areJson.2.2 nestLevel⟩
    obtain ⟨name, rfl⟩ := isString
    exact exists_entryRead areJson.1 (readsBack withSpaces val areJson.2.1 nestLevel)

end

/-! ## The round trip -/

/-- The parser reads what the writer made of the tree, as an equal tree. -/
def RoundTrips (real : List UInt8 → Object) (config : WriterConfig) (tree : Object) : Prop :=
  ∃ text obj state, dumpStr config tree = .ok text ∧
  parseTillEnd (defaultTypes real) text = .ok obj state ∧ obj.baseObjectIsEqual tree = true

theorem ReadsBack.roundTrips_iff {tree : Object} (readBack : ReadsBack real config 0 tree) :
    RoundTrips real config tree ↔ FitsInt64 tree := by
  obtain ⟨text, obj, written, readAs, equal⟩ := readBack
  obtain ⟨state, parsed⟩ := parseTillEnd_of_readAs Spaces.nil readAs Spaces.nil
  rw [List.nil_append, List.append_nil] at parsed
  rw [← equal]
  constructor
  · rintro ⟨text', obj', state', written', parsed', same⟩
    cases written.symm.trans written'
    cases parsed.symm.trans parsed'
    exact same
  · exact fun same => ⟨text, obj, state, written, parsed, same⟩

/-- A tree survives exactly if none of its integers is above the range of `Int64`, which is the
    type that the parser makes of every integer. -/
theorem roundTrip_iff_fitsInt64 (withSpaces : IndentsWithSpaces config) {tree : Object}
    (isJson : IsJson tree) :
    RoundTrips real config tree ↔ FitsInt64 tree :=
  (readsBack withSpaces tree isJson 0).roundTrips_iff

end

/-- A list of a string and an integer, with two spaces at each level. -/
theorem roundTrip_indented :
    RoundTrips (fun _ => .list []) ⟨[0x20, 0x20], [0x0A], true⟩
      (.list [.hashable (.string [0x61]), .hashable (.realNum (.cast .int8 (-5)))]) := by
  have spaces : IndentsWithSpaces ⟨[0x20, 0x20], [0x0A], true⟩ :=
    fun _ => ⟨by simp [Spaces]; decide, by simp [Spaces]; decide⟩
  have isJson : IsJson (.list [.hashable (.string [0x61]),
    .hashable (.realNum (.cast .int8 (-5)))]) := by
    simp only [IsJson, Object.Holds, Object.HoldsItems]
    exact ⟨⟨['a'], by decide⟩, trivial, trivial⟩
  refine (roundTrip_iff_fitsInt64 spaces isJson).mpr ?_
  simp only [FitsInt64, Object.Holds, Object.HoldsItems]
  exact ⟨trivial, by decide, trivial⟩

/-- The least value of `UInt64` that `Int64` does not have. -/
theorem not_roundTrip_uint64 :
    ¬ RoundTrips (fun _ => .list []) defaultConfig (.hashable (.realNum (.cast .uint64 (2 ^ 63)))) := by
  have readBack := @readsBack_int (fun _ => .list []) defaultConfig (.cast .uint64 (2 ^ 63)) (by decide) 0
  rw [readBack.roundTrips_iff]
  change ¬ (RealNum.cast .uint64 (2 ^ 63)).val ≤ RealNumType.max .int64
  decide

end Decentagram.SimpleJson
