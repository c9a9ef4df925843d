import Decentagram.SimpleJson.Completeness

/-! # What the parser accepts

The grammar of the parser is the one of the RFC but for three points: more white space, escaped
surrogates in pairs only, and control characters in strings, which no check refuses.
-/

namespace Decentagram.SimpleJson

open Decentagram.Lib Grammar

/-! ## Larger and smaller grammars -/

/-- What the first grammar allows, the second one allows. -/
structure Dialect.Within (small large : Dialect) : Prop where
  moreSpace : small.moreSpace = true → large.moreSpace = true
  controls : small.controls = true → large.controls = true
  loneSurrogates : small.loneSurrogates = true → large.loneSurrogates = true

namespace Grammar

section

variable {small large : Dialect}

theorem Ws.mono (within : small.Within large) {ws : List UInt8} (isWs : Ws small ws) : Ws large ws := by
  intro ch inWs
  have isSpace := isWs ch inWs
  simp only [Grammar.isWs, Bool.or_eq_true, Bool.and_eq_true] at isSpace ⊢
  exact isSpace.imp_right fun more => ⟨within.moreSpace more.1, more.2⟩

theorem Piece.mono (within : small.Within large) {piece : List UInt8} (isPiece : Piece small piece) :
    Piece large piece := by
  cases isPiece with
  | unescaped notQuote notBackslash noControl =>
    exact .unescaped notQuote notBackslash (noControl.imp_right within.controls)
  | escape isEscape => exact .escape isEscape
  | unit isUnit noSurrogate => exact .unit isUnit (noSurrogate.imp_right within.loneSurrogates)
  | pair isUnit isUnit' isFirst isSecond => exact .pair isUnit isUnit' isFirst isSecond

theorem Str.mono (within : small.Within large) {text : List UInt8}
    (isString : Str small text) : Str large text := by
  obtain ⟨arePieces⟩ := isString
  exact .of fun piece inPieces => (arePieces piece inPieces).mono within

mutual

theorem Value.mono (within : small.Within large) {text : List UInt8} (isValue : Value small text) :
    Value large text := by
  match isValue with
  | .null => exact .null
  | .true => exact .true
  | .false => exact .false
  | .number isNumber => exact .number isNumber
  | .string isString => exact .string (isString.mono within)
  | .emptyArray isWs => exact .emptyArray (isWs.mono within)
  | .array elements => exact .array (elements.mono within)
  | .emptyObject isWs => exact .emptyObject (isWs.mono within)
  | .object members => exact .object (members.mono within)

theorem Elements.mono (within : small.Within large) {text : List UInt8}
    (elements : Elements small text) :
    Elements large text := by
  match elements with
  | .last isWs isValue isWs' => exact .last (isWs.mono within) (isValue.mono within) (isWs'.mono within)
  | .more isWs isValue isWs' elements =>
    exact .more (isWs.mono within) (isValue.mono within) (isWs'.mono within) (elements.mono within)

theorem Members.mono (within : small.Within large) {text : List UInt8} (members : Members small text) :
    Members large text := by
  match members with
  | .last isWs isName isColon isWs' isValue isWs'' =>
    exact .last (isWs.mono within) (isName.mono within) (isColon.mono within) (isWs'.mono within)
      (isValue.mono within) (isWs''.mono within)
  | .more isWs isName isColon isWs' isValue isWs'' members =>
    exact .more (isWs.mono within) (isName.mono within) (isColon.mono within) (isWs'.mono within)
      (isValue.mono within) (isWs''.mono within) (members.mono within)

end

theorem Text.mono (within : small.Within large) {text : List UInt8}
    (isText : Text small text) : Text large text := by
  obtain ⟨isWs, isValue, isWs'⟩ := isText
  exact .of (isWs.mono within) (isValue.mono within) (isWs'.mono within)

end

end Grammar

/-! ## Texts without control characters in their strings -/

/-- No control character stands in a string.  A quote outside of a string opens one, and in it a
    backslash goes with the next byte. -/
def noControls : Bool → List UInt8 → Bool
  | _, [] => true
  | false, ch :: rest => noControls (ch = 0x22) rest
  | true, [ch] => 0x20 ≤ ch
  | true, ch :: next :: rest =>
    if ch = 0x22 then noControls false (next :: rest)
    else if ch = 0x5C then noControls true rest
    else 0x20 ≤ ch && noControls true (next :: rest)

theorem noControls_outside {text rest : List UInt8} (noQuote : ∀ ch ∈ text, ch ≠ 0x22)
    (clean : noControls false (text ++ rest) = true) : noControls false rest = true := by
  induction text with
  | nil => exact clean
  | cons ch text inductionHypothesis =>
    obtain ⟨notQuote, noQuote⟩ := List.forall_mem_cons.mp noQuote
    rw [List.cons_append, noControls, decide_eq_false notQuote] at clean
    exact inductionHypothesis noQuote clean

theorem noControls_inside {text rest : List UInt8} (notEmpty : rest ≠ [])
    (plain : ∀ ch ∈ text, ch ≠ 0x22 ∧ ch ≠ 0x5C) (clean : noControls true (text ++ rest) = true) :
    (∀ ch ∈ text, 0x20 ≤ ch) ∧ noControls true rest = true := by
  induction text with
  | nil => exact ⟨List.forall_mem_nil _, clean⟩
  | cons ch text inductionHypothesis =>
    obtain ⟨⟨notQuote, notBackslash⟩, plain⟩ := List.forall_mem_cons.mp plain
    obtain ⟨next, behind, isRest⟩ :=
      List.exists_cons_of_ne_nil (show text ++ rest ≠ [] by simp [notEmpty])
    rw [List.cons_append, isRest, noControls, if_neg notQuote, if_neg notBackslash, Bool.and_eq_true,
      decide_eq_true_iff, ← isRest] at clean
    obtain ⟨isAbove, clean⟩ := clean
    obtain ⟨areAbove, clean⟩ := inductionHypothesis plain clean
    exact ⟨List.forall_mem_cons.mpr ⟨isAbove, areAbove⟩, clean⟩

theorem hexUnit_plain {digits : List UInt8} {val : Nat} (isUnit : HexUnit digits val) :
    ∀ ch ∈ digits, ch ≠ 0x22 ∧ ch ≠ 0x5C := by
  obtain ⟨a, b, c, d, areDigits, -⟩ := isUnit
  intro ch inDigits
  have isDigit : hexDigit ch ≠ none := by
    intro noDigit
    have isImage : none ∈ digits.map hexDigit := noDigit ▸ List.mem_map_of_mem inDigits
    simp [areDigits] at isImage
  constructor
  · rintro rfl
    exact isDigit (by decide)
  · rintro rfl
    exact isDigit (by decide)

/-- A byte below 128 is the whole encoding of a character. -/
theorem ascii_of_mem {char : Char} {ch : UInt8} (inEncoding : ch ∈ String.utf8EncodeChar char)
    (isAscii : ch ≤ 0x7F) :
    char.val = ch.toUInt32 := by
  have small : char.val.toNat < 0x110000 := by
    have valid := char.valid
    simp only [UInt32.isValidChar, Nat.isValidChar] at valid
    omega
  have isSmall : ch.toNat ≤ 127 := UInt8.le_iff_toNat_le.mp isAscii
  rw [← UInt32.toNat_inj, UInt8.toNat_toUInt32]
  simp only [String.utf8EncodeChar] at inEncoding
  split at inEncoding
  · rw [List.mem_singleton.mp inEncoding, UInt8.toNat_ofNat']
    omega
  -- in the longer encodings every byte is from 128 up
  exfalso
  split at inEncoding
  · simp only [List.mem_cons, List.not_mem_nil, or_false] at inEncoding
    rcases inEncoding with rfl | rfl <;> rw [UInt8.toNat_ofNat'] at isSmall <;> omega
  split at inEncoding
  · simp only [List.mem_cons, List.not_mem_nil, or_false] at inEncoding
    rcases inEncoding with rfl | rfl | rfl <;> rw [UInt8.toNat_ofNat'] at isSmall <;> omega
  · simp only [List.mem_cons, List.not_mem_nil, or_false] at inEncoding
    rcases inEncoding with rfl | rfl | rfl | rfl <;> rw [UInt8.toNat_ofNat'] at isSmall <;> omega

theorem utf8_plain {char : Char} (notQuote : char.val ≠ 0x22) (notBackslash : char.val ≠ 0x5C) :
    ∀ ch ∈ String.utf8EncodeChar char, ch ≠ 0x22 ∧ ch ≠ 0x5C := by
  intro ch inEncoding
  constructor
  · rintro rfl
    exact notQuote (ascii_of_mem inEncoding (by decide))
  · rintro rfl
    exact notBackslash (ascii_of_mem inEncoding (by decide))

theorem lenient_of_piece {piece rest : List UInt8} (isPiece : Piece simpleJson piece)
    (notEmpty : rest ≠ [])
    (clean : noControls true (piece ++ rest) = true) : Piece lenient piece ∧
    noControls true rest = true := by
  obtain ⟨next, behind, rfl⟩ := List.exists_cons_of_ne_nil notEmpty
  cases isPiece with
  | @unescaped char notQuote notBackslash noControl =>
    obtain ⟨areAbove, clean⟩ := noControls_inside notEmpty (utf8_plain notQuote notBackslash) clean
    refine ⟨.unescaped notQuote notBackslash (.inl ?_), clean⟩
    by_cases isAscii : char.val ≤ 0x7F
    · rw [utf8EncodeChar_ascii isAscii, List.forall_mem_singleton] at areAbove
      rw [UInt8.le_iff_toNat_le, UInt32.toNat_toUInt8] at areAbove
      rw [UInt32.le_iff_toNat_le] at isAscii ⊢
      simp only [UInt32.reduceToNat] at isAscii ⊢
      have below : (0x20 : UInt8).toNat = 32 := rfl
      omega
    · rw [UInt32.le_iff_toNat_le] at isAscii ⊢
      simp only [UInt32.reduceToNat] at isAscii ⊢
      omega
  | @escape ch isEscape => exact ⟨.escape isEscape, clean⟩
  | unit isUnit noSurrogate =>
    exact ⟨.unit isUnit noSurrogate, (noControls_inside notEmpty (hexUnit_plain isUnit) clean).2⟩
  | pair isUnit isUnit' isFirst isSecond =>
    rw [List.append_assoc] at clean
    have behindFirst := (noControls_inside (by simp) (hexUnit_plain isUnit) clean).2
    exact ⟨.pair isUnit isUnit' isFirst isSecond,
      (noControls_inside notEmpty (hexUnit_plain isUnit') behindFirst).2⟩

theorem lenient_of_pieces {pieces : List (List UInt8)} {rest : List UInt8}
    (arePieces : ∀ piece ∈ pieces, Piece simpleJson piece) (notEmpty : rest ≠ [])
    (clean : noControls true (pieces.flatten ++ rest) = true) :
    (∀ piece ∈ pieces, Piece lenient piece) ∧ noControls true rest = true := by
  induction pieces with
  | nil => exact ⟨List.forall_mem_nil _, clean⟩
  | cons piece pieces inductionHypothesis =>
    obtain ⟨isPiece, arePieces⟩ := List.forall_mem_cons.mp arePieces
    rw [List.flatten_cons, List.append_assoc] at clean
    obtain ⟨isLenient, clean⟩ := lenient_of_piece isPiece (by simp [notEmpty]) clean
    obtain ⟨areLenient, clean⟩ := inductionHypothesis arePieces clean
    exact ⟨List.forall_mem_cons.mpr ⟨isLenient, areLenient⟩, clean⟩

/-- Without control characters in its strings the text is of the smaller grammar, and so is the rest. -/
def BecomesLenient (isText : Dialect → List UInt8 → Prop) (text : List UInt8) : Prop :=
  ∀ rest, noControls false (text ++ rest) = true → isText lenient text ∧ noControls false rest = true

theorem becomesLenient_str {text : List UInt8}
    (isString : Str simpleJson text) : BecomesLenient Str text := by
  intro rest clean
  obtain ⟨arePieces⟩ := isString
  rename_i pieces
  rw [List.cons_append, List.append_assoc, noControls, decide_eq_true rfl,
    List.singleton_append] at clean
  obtain ⟨areLenient, clean⟩ := lenient_of_pieces arePieces (by simp) clean
  refine ⟨.of areLenient, ?_⟩
  cases rest with
  | nil => rfl
  | cons next rest => simpa [noControls] using clean

theorem lenient_ws {ws : List UInt8} (isWs : Ws simpleJson ws) : Ws lenient ws := isWs

theorem ws_noQuote {ws : List UInt8} (isWs : Ws simpleJson ws) : ∀ ch ∈ ws, ch ≠ 0x22 := by
  rintro _ inWs rfl
  exact absurd (isWs _ inWs) (by decide)

theorem digits_noQuote {digits : List UInt8}
    (areDigits : Digits digits) : ∀ ch ∈ digits, ch ≠ 0x22 := by
  rintro _ inDigits rfl
  exact absurd (areDigits.2 _ inDigits) (by decide)

theorem number_noQuote {text : List UInt8} (isNumber : Number text) : ∀ ch ∈ text, ch ≠ 0x22 := by
  obtain ⟨isMinus, isInt, isFrac, isExp⟩ := isNumber
  simp only [List.forall_mem_append]
  refine ⟨⟨⟨?_, ?_⟩, ?_⟩, ?_⟩
  · rcases isMinus with rfl | rfl <;> simp
  · cases isInt with
    | zero => simp
    | nonzero areDigits _ => exact digits_noQuote areDigits
  · cases isFrac with
    | none => simp
    | point areDigits => exact List.forall_mem_cons.mpr ⟨by decide, digits_noQuote areDigits⟩
  · cases isExp with
    | none => simp
    | e isE isSign areDigits =>
      refine List.forall_mem_cons.mpr ⟨?_, List.forall_mem_append.mpr ⟨?_, digits_noQuote areDigits⟩⟩
      · rcases isE with rfl | rfl <;> decide
      · rcases isSign with rfl | rfl | rfl <;> simp

theorem noControls_ws {ws rest : List UInt8} (isWs : Ws simpleJson ws)
    (clean : noControls false (ws ++ rest) = true) : noControls false rest = true :=
  noControls_outside (ws_noQuote isWs) clean

theorem noControls_char {ch : UInt8} {rest : List UInt8} (notQuote : ch ≠ 0x22)
    (clean : noControls false (ch :: rest) = true) : noControls false rest = true :=
  @noControls_outside [ch] rest (List.forall_mem_singleton.mpr notQuote) clean

theorem becomesLenient_atom {isText : Dialect → List UInt8 → Prop} {text : List UInt8}
    (isLenient : isText lenient text)
    (noQuote : ∀ ch ∈ text, ch ≠ 0x22) : BecomesLenient isText text :=
  fun _ clean => ⟨isLenient, noControls_outside noQuote clean⟩

mutual

theorem becomesLenient_value {text : List UInt8}
    (isValue : Value simpleJson text) : BecomesLenient Value text := by
  match isValue with
  | .null => exact becomesLenient_atom .null (by simp)
  | .true => exact becomesLenient_atom .true (by simp)
  | .false => exact becomesLenient_atom .false (by simp)
  | .number isNumber => exact becomesLenient_atom (.number isNumber) (number_noQuote isNumber)
  | .string isString => exact fun rest clean => (becomesLenient_str isString rest clean).imp_left .string
  | .emptyArray isWs =>
    refine becomesLenient_atom (.emptyArray (lenient_ws isWs)) ?_
    simpa [or_imp, forall_and] using ws_noQuote isWs
  | .array elements =>
    intro rest clean
    rw [List.cons_append, List.append_assoc] at clean
    obtain ⟨isLenient, clean⟩ := becomesLenient_elements elements _ (noControls_char (by decide) clean)
    exact ⟨.array isLenient, noControls_char (by decide) clean⟩
  | .emptyObject isWs =>
    refine becomesLenient_atom (.emptyObject (lenient_ws isWs)) ?_
    simpa [or_imp, forall_and] using ws_noQuote isWs
  | .object members =>
    intro rest clean
    rw [List.cons_append, List.append_assoc] at clean
    obtain ⟨isLenient, clean⟩ := becomesLenient_members members _ (noControls_char (by decide) clean)
    exact ⟨.object isLenient, noControls_char (by decide) clean⟩

theorem becomesLenient_elements {text : List UInt8} (elements : Elements simpleJson text) :
    BecomesLenient Elements text := by
  intro rest clean
  match elements with
  | .last isWs isValue isWs' =>
    simp only [List.append_assoc] at clean
    obtain ⟨isLenient, clean⟩ := becomesLenient_value isValue _ (noControls_ws isWs clean)
    exact ⟨.last (lenient_ws isWs) isLenient (lenient_ws isWs'), noControls_ws isWs' clean⟩
  | .more isWs isValue isWs' elements =>
    simp only [List.append_assoc, List.cons_append] at clean
    obtain ⟨isLenient, clean⟩ := becomesLenient_value isValue _ (noControls_ws isWs clean)
    obtain ⟨areLenient, clean⟩ := becomesLenient_elements elements _
      (noControls_char (by decide) (noControls_ws isWs' clean))
    exact ⟨.more (lenient_ws isWs) isLenient (lenient_ws isWs') areLenient, clean⟩

theorem becomesLenient_members {text : List UInt8} (members : Members simpleJson text) :
    BecomesLenient Members text := by
  intro rest clean
  match members with
  | .last isWs isName isColon isWs' isValue isWs'' =>
    simp only [List.append_assoc, List.cons_append] at clean
    obtain ⟨nameLenient, clean⟩ := becomesLenient_str isName _ (noControls_ws isWs clean)
    obtain ⟨isLenient, clean⟩ := becomesLenient_value isValue _
      (noControls_ws isWs' (noControls_char (by decide) (noControls_ws isColon clean)))
    exact ⟨.last (lenient_ws isWs) nameLenient (lenient_ws isColon) (lenient_ws isWs') isLenient
      (lenient_ws isWs''), noControls_ws isWs'' clean⟩
  | .more isWs isName isColon isWs' isValue isWs'' members =>
    simp only [List.append_assoc, List.cons_append] at clean
    obtain ⟨nameLenient, clean⟩ := becomesLenient_str isName _ (noControls_ws isWs clean)
    obtain ⟨isLenient, clean⟩ := becomesLenient_value isValue _
      (noControls_ws isWs' (noControls_char (by decide) (noControls_ws isColon clean)))
    obtain ⟨areLenient, clean⟩ := becomesLenient_members members _
      (noControls_char (by decide) (noControls_ws isWs'' clean))
    exact ⟨.more (lenient_ws isWs) nameLenient (lenient_ws isColon) (lenient_ws isWs') isLenient
      (lenient_ws isWs'') areLenient, clean⟩

end

theorem text_lenient_iff {ctn : List UInt8} (clean : noControls false ctn = true) :
    Text simpleJson ctn ↔ Text lenient ctn := by
  constructor
  · intro isText
    obtain ⟨isWs, isValue, isWs'⟩ := isText
    rw [List.append_assoc] at clean
    exact .of (lenient_ws isWs) (becomesLenient_value isValue _ (noControls_ws isWs clean)).1
      (lenient_ws isWs')
  · exact @Text.mono lenient simpleJson ⟨fun holds => holds, fun _ => rfl, fun holds => holds⟩ ctn

/-! ## The parser -/

section

variable {Obj : Type} (types : ObjectTypes Obj)

def Accepts (ctn : List UInt8) : Prop := ∃ obj state, parseTillEnd types ctn = .ok obj state

theorem accepts_iff (ctn : List UInt8) : Accepts types ctn ↔ Text simpleJson ctn := by
  constructor
  · rintro ⟨obj, state, returned⟩
    rcases parseTillEnd_sound types ctn with ⟨_, _, _, isText⟩ | ⟨error, state', thrown⟩
    · exact isText
    · cases returned.symm.trans thrown
  · exact parseTillEnd_complete

theorem parseTillEnd_ends (ctn : List UInt8) : parseTillEnd types ctn ≠ .undefined := by
  rcases parseTillEnd_sound types ctn with ⟨obj, state, returned, -⟩ | ⟨error, state, thrown⟩
  · simp [returned]
  · simp [thrown]

/-- The parser comes to an end within every input.  Where no control character stands in a string
    it accepts the texts of the RFC, with vertical tabs and form feeds as further white space and
    without escapes of single surrogates. -/
theorem parseTillEnd_accepts (ctn : List UInt8) :
    parseTillEnd types ctn ≠ .undefined ∧
      (noControls false ctn = true → (Accepts types ctn ↔ Text lenient ctn)) :=
  ⟨parseTillEnd_ends types ctn, fun clean => (accepts_iff types ctn).trans (text_lenient_iff clean)⟩

end

/-- `{"a\n":["x",true]}` -/
def nestedText : List UInt8 :=
  [0x7B, 0x22, 0x61, 0x5C, 0x6E, 0x22, 0x3A, 0x5B, 0x22, 0x78, 0x22, 0x2C, 0x74, 0x72, 0x75, 0x65, 0x5D, 0x7D]

theorem parseTillEnd_accepts_nested :
    Accepts (defaultTypes fun _ => .list []) nestedText ∧ Text lenient nestedText := by
  have returns : (parseTillEnd (defaultTypes fun _ => .list []) nestedText).Returns fun _ _ => True := by
    decide +kernel
  obtain ⟨obj, state, accepted, -⟩ := Outcome.returns_iff.mp returns
  have accepts : Accepts (defaultTypes fun _ => .list []) nestedText := ⟨obj, state, accepted⟩
  exact ⟨accepts, ((parseTillEnd_accepts _ nestedText).2 (by decide)).mp accepts⟩

/-! ## Where the grammars differ -/

theorem starts_of_value {dialect : Dialect} {text : List UInt8} (isValue : Value dialect text) :
    ∃ ch tail, text = ch :: tail ∧ isSpaceCh ch = false := by
  cases isValue with
  | number isNumber =>
    obtain ⟨isMinus, isInt, isFrac, isExp⟩ := isNumber
    obtain ⟨ch, tail, isText, isFirst⟩ := number_head isMinus isInt
    exact ⟨ch, _, by rw [isText, List.cons_append, List.cons_append], (numberChar isFirst).1⟩
  | string isString =>
    cases isString
    exact ⟨_, _, rfl, by decide⟩
  | _ => exact ⟨_, _, rfl, by decide⟩

/-- White space that a text starts with is white space of its grammar. -/
theorem starts_of_text {dialect : Dialect} {ch : UInt8} {tail : List UInt8}
    (isText : Text dialect (ch :: tail)) :
    isWs dialect ch = true ∨ isSpaceCh ch = false := by
  generalize isInput : ch :: tail = text at isText
  obtain ⟨areWs, isValue, -⟩ := isText
  rename_i before value after
  cases before with
  | nil =>
    obtain ⟨first, rest, rfl, notSpace⟩ := starts_of_value isValue
    cases isInput
    exact .inr notSpace
  | cons first before =>
    cases isInput
    exact .inl (areWs ch List.mem_cons_self)

/-- The string of one high surrogate is a text of the RFC, and a zero behind a vertical tab is none. -/
theorem not_accepts_rfc8259 :
    Text rfc8259 [0x22, 0x5C, 0x75, 0x44, 0x38, 0x30, 0x30, 0x22] ∧
      ¬ Accepts (defaultTypes fun _ => .list []) [0x22, 0x5C, 0x75, 0x44, 0x38, 0x30, 0x30, 0x22] ∧
      ¬ Text rfc8259 [0x0B, 0x30] ∧ Accepts (defaultTypes fun _ => .list []) [0x0B, 0x30] := by
  refine ⟨?_, ?_, ?_, ?_⟩
  · have isPiece : Piece rfc8259 [0x5C, 0x75, 0x44, 0x38, 0x30, 0x30] :=
      .unit ⟨13, 8, 0, 0, by decide, rfl⟩ (.inr rfl)
    have isString := @Str.of rfc8259 [_] (List.forall_mem_singleton.mpr isPiece)
    exact @Text.of rfc8259 [] _ [] (List.forall_mem_nil _) (.string isString) (List.forall_mem_nil _)
  · have refused : (parseTillEnd (defaultTypes fun _ => .list [])
        [0x22, 0x5C, 0x75, 0x44, 0x38, 0x30, 0x30, 0x22]).Throws fun _ _ => True := by decide +kernel
    rintro ⟨obj, state, returned⟩
    rw [returned] at refused
    exact refused
  · intro isText
    exact absurd (starts_of_text isText) (by decide)
  · rw [accepts_iff]
    exact @Text.of simpleJson [0x0B] [0x30] [] (List.forall_mem_singleton.mpr (by decide))
      (.number (@Number.of [] [0x30] [] [] (.inl rfl) .zero .none .none)) (List.forall_mem_nil _)

end Decentagram.SimpleJson
