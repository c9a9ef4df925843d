import Decentagram.SimpleJson.Grammar
import Decentagram.SimpleJson.Parser

/-! # What the parser accepts

Every result of a parser is read off a text of the grammar, and no parser reads behind the end of
the input or goes on without end.
-/

namespace Decentagram.SimpleJson

open Decentagram.Lib Grammar

/-- White space and a text of the kind. -/
def Behind (isText : List UInt8 → Prop) (input rest : List UInt8) : Prop :=
  ∃ spaces text, Spaces spaces ∧ isText text ∧ input = spaces ++ text ++ rest

/-- The tables of the parser are those of the grammar. -/
theorem tables (ch : UInt8) : isSpaceCh ch = isWs simpleJson ch ∧
    (hexVal ch).map UInt16.toNat = hexDigit ch ∧
    ((hexVal ch).all fun digit => digit.toNat < 16) = true ∧
    ((escaped ch).isSome → ch ∈ escapes) := by
  revert ch
  apply forall_byte
  decide +kernel

theorem isSpaceCh_eq (ch : UInt8) : isSpaceCh ch = isWs simpleJson ch := by
  obtain ⟨isSpace, -⟩ := tables ch
  exact isSpace

theorem spaces_iff {spaces : List UInt8} : Spaces spaces ↔ Ws simpleJson spaces := by
  simp only [Spaces, Ws, isSpaceCh_eq]

theorem Spaces.append {left right : List UInt8} (areSpaces : Spaces left) (areSpaces' : Spaces right) :
    Spaces (left ++ right) := by
  intro space inEither
  rcases List.mem_append.mp inEither with inLeft | inRight
  · exact areSpaces space inLeft
  · exact areSpaces' space inRight

theorem Spaces.nil : Spaces [] := fun _ inNone => by cases inNone

/-- White space before white space. -/
theorem Behind.append {isText : List UInt8 → Prop} {spaces input rest : List UInt8}
    (areSpaces : Spaces spaces)
    (behind : Behind isText input rest) : Behind isText (spaces ++ input) rest := by
  obtain ⟨spaces', text, areSpaces', holds, rfl⟩ := behind
  exact ⟨spaces ++ spaces', text, areSpaces.append areSpaces', holds, by simp⟩

/-! ## Literals -/

theorem recognises_expectChars (expected input : List UInt8) :
    Recognises (expectChars expected) input fun isMatch rest => isMatch = true →
    input = expected ++ rest := by
  induction expected generalizing input with
  | nil => exact .pure fun _ => rfl
  | cons ch expected inductionHypothesis =>
    refine (recognises_getCharAndAdv input).bind ?_
    rintro ch' rest rfl
    refine .ite (fun same => (inductionHypothesis rest).mono ?_)
      (fun _ => .pure fun isMatch => by cases isMatch)
    intro isMatch rest' behind matched
    rw [same, behind matched, List.cons_append]

theorem recognises_parseNull (input : List UInt8) :
    Recognises parseNull input fun _ rest => Behind (Value simpleJson) input rest := by
  refine (recognises_skipSpaceAndGetCharAndAdv input).bind ?_
  rintro ch rest ⟨spaces, areSpaces, rfl, -⟩
  refine .ite (fun isN => ?_) (fun _ => recognises_raise _ _ _)
  refine (recognises_expectChars _ rest).bind fun isNull rest' behind => ?_
  refine .ite (fun matched => .pure ?_) (fun _ => recognises_raise _ _ _)
  exact ⟨spaces, _, areSpaces, .null, by rw [isN, behind matched]; simp [chr]⟩

theorem recognises_parseBool (input : List UInt8) :
    Recognises parseBool input fun _ rest => Behind (Value simpleJson) input rest := by
  refine (recognises_skipSpaceAndGetCharAndAdv input).bind ?_
  rintro ch rest ⟨spaces, areSpaces, rfl, -⟩
  refine .ite (fun isF => ?_) (fun _ => .ite (fun isT => ?_) (fun _ => recognises_raise _ _ _))
  · refine (recognises_expectChars _ rest).bind fun isFalse rest' behind => ?_
    refine .ite (fun matched => .pure ?_) (fun _ => recognises_raise _ _ _)
    exact ⟨spaces, _, areSpaces, .false, by rw [isF, behind matched]; simp [chr]⟩
  · refine (recognises_expectChars _ rest).bind fun isTrue rest' behind => ?_
    refine .ite (fun matched => .pure ?_) (fun _ => recognises_raise _ _ _)
    exact ⟨spaces, _, areSpaces, .true, by rw [isT, behind matched]; simp [chr]⟩

/-! ## Numbers -/

theorem isDigit_iff {ch : UInt8} : isDigit ch = true ↔ 0x30 ≤ ch ∧ ch ≤ 0x39 := by
  simp [isDigit, chr]

theorem recognises_isEnd (input : List UInt8) :
    Recognises isEnd input fun atEnd rest => (atEnd = true ↔ input = []) ∧ rest = input := by
  refine .get_bind fun state same => .pure ?_
  rw [same]
  exact ⟨List.isEmpty_iff, rfl⟩

theorem recognises_parseNSign (input : List UInt8) :
    Recognises (parseNSign true) input fun positive rest => ∃ minus,
      minus = (if positive then [] else [0x2D]) ∧ input = minus ++ rest := by
  refine (recognises_getChar input).bind ?_
  rintro ch _ ⟨isHead, rfl⟩
  refine .ite (fun isMinus => ?_) (fun _ => .ite (fun _ => .pure ⟨[], rfl,
    rfl⟩) (fun _ => recognises_raise _ _ _))
  refine (recognises_getCharAndAdv _).bind ?_
  rintro ch' rest rfl
  cases isHead
  exact .pure ⟨[0x2D], rfl, by rw [isMinus]; rfl⟩

theorem recognises_parseNorPSign (input : List UInt8) :
    Recognises (parseNorPSign true) input fun _ rest => ∃ sign,
      (sign = [] ∨ sign = [0x2B] ∨ sign = [0x2D]) ∧ input = sign ++ rest := by
  refine (recognises_getChar input).bind ?_
  rintro ch _ ⟨isHead, rfl⟩
  refine .ite (fun isMinus => ?_) (fun _ => .ite (fun isPlus => ?_)
    (fun _ => .ite (fun _ => .pure ⟨[], .inl rfl, rfl⟩) (fun _ => recognises_raise _ _ _)))
  · refine (recognises_getCharAndAdv _).bind ?_
    rintro ch' rest rfl
    cases isHead
    exact .pure ⟨[0x2D], .inr (.inr rfl), by rw [isMinus]; rfl⟩
  · refine (recognises_getCharAndAdv _).bind ?_
    rintro ch' rest rfl
    cases isHead
    exact .pure ⟨[0x2B], .inr (.inl rfl), by rw [isPlus]; rfl⟩

theorem recognises_parseNumDigitsLoop {left : Nat} {dest input : List UInt8}
    (enough : input.length < left) :
    Recognises (parseNumDigitsLoop left dest) input fun out rest => ∃ digits,
      (∀ ch ∈ digits, 0x30 ≤ ch ∧ ch ≤ 0x39) ∧ out = dest ++ digits ∧ input = digits ++ rest ∧
      out ≠ [] := by
  induction left generalizing dest input with
  | zero => cases enough
  | succ left inductionHypothesis =>
    refine (recognises_isEnd input).bind ?_
    rintro atEnd middle ⟨-, isInput⟩
    rw [isInput]
    have ended : dest.length ≠ 0 → ∃ digits, (∀ ch ∈ digits, 0x30 ≤ ch ∧ ch ≤ 0x39) ∧
        dest = dest ++ digits ∧ input = digits ++ input ∧ dest ≠ [] := fun notNone =>
      ⟨[], by simp, by simp, rfl, List.length_pos_iff.mp (Nat.pos_of_ne_zero notNone)⟩
    refine .ite (fun _ => .ite (fun _ => recognises_raise _ _ _) (fun notNone => .pure (ended notNone)))
      (fun _ => ?_)
    refine (recognises_getChar input).bind ?_
    rintro ch _ ⟨isHead, rfl⟩
    refine .ite (fun digit => ?_)
      (fun _ => .ite (fun _ => recognises_raise _ _ _) (fun notNone => .pure (ended notNone)))
    refine (recognises_getCharAndAdv _).bind ?_
    rintro ch' rest rfl
    cases isHead
    refine (inductionHypothesis (by simpa using enough)).mono ?_
    rintro out rest' ⟨digits, areDigits, rfl, rfl, notNone⟩
    refine ⟨ch :: digits, ?_, by simp, rfl, notNone⟩
    exact List.forall_mem_cons.mpr ⟨isDigit_iff.mp digit, areDigits⟩

theorem recognises_parseNumDigits (input : List UInt8) :
    Recognises parseNumDigits input fun out rest => Digits out ∧ input = out ++ rest := by
  refine .get_bind fun state same => ?_
  refine (recognises_parseNumDigitsLoop (by rw [same]; exact Nat.lt_succ_self _)).mono ?_
  rintro out rest ⟨digits, areDigits, rfl, isInput, notNone⟩
  exact ⟨⟨notNone, areDigits⟩, isInput⟩

theorem recognises_parseInt (input : List UInt8) :
    Recognises parseInt input fun out rest => IntPart out ∧ input = out ++ rest := by
  refine (recognises_getChar input).bind ?_
  rintro ch _ ⟨isHead, rfl⟩
  refine .ite (fun isZero => ?_) (fun notZero => .ite (fun _ => ?_) (fun _ => recognises_raise _ _ _))
  · refine (recognises_getCharAndAdv _).bind ?_
    rintro ch' rest rfl
    cases isHead
    rw [isZero]
    exact .pure ⟨.zero, rfl⟩
  · refine (recognises_parseNumDigits _).mono ?_
    rintro out rest ⟨areDigits, rfl⟩
    refine ⟨.nonzero areDigits fun startsWithZero => ?_, rfl⟩
    rw [List.head?_append_of_ne_nil _ areDigits.1, startsWithZero] at isHead
    cases isHead
    exact notZero rfl

theorem recognises_parseFrac (input : List UInt8) :
    Recognises (parseFrac true) input fun _ rest => ∃ text, Frac text ∧ input = text ++ rest := by
  refine (recognises_isEnd input).bind ?_
  rintro atEnd _ ⟨-, rfl⟩
  refine .ite (fun _ => .pure ⟨[], .none, rfl⟩) (fun _ => ?_)
  refine (recognises_getChar _).bind ?_
  rintro ch _ ⟨isHead, rfl⟩
  refine .ite (fun isPoint => ?_)
    (fun _ => .ite (fun _ => recognises_raise _ _ _) (fun _ => .pure ⟨[], .none, rfl⟩))
  refine (recognises_getCharAndAdv _).bind ?_
  rintro ch' rest rfl
  cases isHead
  refine (recognises_parseNumDigits rest).bind ?_
  rintro digits rest' ⟨areDigits, rfl⟩
  exact .pure ⟨_, .point areDigits, by rw [isPoint]; rfl⟩

theorem recognises_parseExp (input : List UInt8) :
    Recognises (parseExp true) input fun _ rest => ∃ text, Exp text ∧ input = text ++ rest := by
  refine (recognises_isEnd input).bind ?_
  rintro atEnd _ ⟨-, rfl⟩
  refine .ite (fun _ => .pure ⟨[], .none, rfl⟩) (fun _ => ?_)
  refine (recognises_getChar _).bind ?_
  rintro ch _ ⟨isHead, rfl⟩
  refine .ite (fun isE => ?_)
    (fun _ => .ite (fun _ => recognises_raise _ _ _) (fun _ => .pure ⟨[], .none, rfl⟩))
  refine (recognises_getCharAndAdv _).bind ?_
  rintro ch' rest rfl
  cases isHead
  refine (recognises_parseNorPSign rest).bind ?_
  rintro positive _ ⟨sign, isSign, rfl⟩
  refine (recognises_parseNumDigits _).bind ?_
  rintro digits rest' ⟨areDigits, rfl⟩
  exact .pure ⟨_, .e isE isSign areDigits, by simp⟩

theorem recognises_parseNum (input : List UInt8) :
    Recognises parseNum input fun _ rest => ∃ text, Number text ∧ input = text ++ rest := by
  refine (recognises_parseNSign input).bind ?_
  rintro positive _ ⟨minus, isMinus, rfl⟩
  refine (recognises_parseInt _).bind ?_
  rintro digits _ ⟨isInt, rfl⟩
  refine (recognises_parseFrac _).bind ?_
  rintro _ _ ⟨frac, isFrac, rfl⟩
  refine (recognises_parseExp _).bind ?_
  rintro _ rest ⟨exp, isExp, rfl⟩
  have sign : minus = [] ∨ minus = [0x2D] := by
    cases positive with
    | true => exact .inl isMinus
    | false => exact .inr isMinus
  exact .pure ⟨_, .of sign isInt isFrac isExp, by simp⟩

/-! ## Escapes -/

theorem recognises_catchUtf {α : Type} {result : Except SimpleUtf.Exception α}
    (inRange : result ≠ .error .readPastEnd) (input : List UInt8) :
    Recognises (catchUtf result) input fun value rest => result = .ok value ∧ rest = input := by
  cases result with
  | ok value => exact .pure ⟨rfl, rfl⟩
  | error error =>
    cases error with
    | utfConversion issue => exact recognises_raise _ _ _
    | readPastEnd => exact absurd rfl inRange

theorem hexVal_toNat (ch : UInt8) : (hexVal ch).map UInt16.toNat = hexDigit ch := by
  obtain ⟨-, isHex, -⟩ := tables ch
  exact isHex

theorem hexVal_lt {ch : UInt8} {digit : UInt16}
    (isDigit : hexVal ch = some digit) : digit.toNat < 16 := by
  obtain ⟨-, -, below, -⟩ := tables ch
  rw [isDigit] at below
  exact of_decide_eq_true below

/-- Four more bits are put behind a value. -/
theorem toNat_shift_or {res digit : UInt16} (fits : res.toNat < 2 ^ 12) (small : digit.toNat < 16) :
    (res <<< 4 ||| digit).toNat = res.toNat * 16 + digit.toNat := by
  have shifted : res.toNat <<< 4 < 2 ^ 16 := by
    rw [Nat.shiftLeft_eq]
    omega
  rw [UInt16.toNat_or, UInt16.toNat_shiftLeft]
  change res.toNat <<< 4 % 2 ^ 16 ||| digit.toNat = _
  rw [Nat.mod_eq_of_lt shifted, ← Nat.shiftLeft_add_eq_or_of_lt small, Nat.shiftLeft_eq]

def shiftIn (res : UInt16) (vals : List UInt16) : UInt16 :=
  vals.foldl (fun res digit => res <<< 4 ||| digit) res

theorem recognises_parseHexDigits (left : Nat) (res : UInt16) (input : List UInt8) :
    Recognises (parseHexDigits left res) input fun out rest =>
      ∃ (digits : List UInt8) (vals : List UInt16), vals.length = left ∧
      digits.map hexVal = vals.map some ∧ out = shiftIn res vals ∧
        input = digits ++ rest := by
  induction left generalizing res input with
  | zero => exact .pure ⟨[], [], rfl, rfl, rfl, rfl⟩
  | succ left inductionHypothesis =>
    refine (recognises_getCharAndAdv input).bind ?_
    rintro ch rest rfl
    cases isHex : hexVal ch with
    | none => exact recognises_raise _ _ _
    | some digit =>
      refine (inductionHypothesis _ rest).mono ?_
      rintro out rest' ⟨digits, vals, count, areVals, rfl, rfl⟩
      exact ⟨ch :: digits, digit :: vals, by simp [count], by simp [isHex, areVals], rfl, rfl⟩

/-- The value of four digits. -/
theorem hexUnit_of_vals {digits : List UInt8} {vals : List UInt16} (count : vals.length = 4)
    (areVals : digits.map hexVal = vals.map some) :
    HexUnit digits (shiftIn 0 vals).toNat := by
  obtain ⟨a, b, c, d, rfl⟩ := List.length_eq_four.mp count
  have small : ∀ digit ∈ [a, b, c, d], digit.toNat < 16 := by
    intro digit isVal
    have inVals : some digit ∈ digits.map hexVal := by
      rw [areVals]
      exact List.mem_map_of_mem isVal
    obtain ⟨ch, -, isHex⟩ := List.mem_map.mp inVals
    exact hexVal_lt isHex
  simp only [List.mem_cons, List.not_mem_nil, or_false, forall_eq_or_imp, forall_eq] at small
  obtain ⟨smallA, smallB, smallC, smallD⟩ := small
  refine ⟨a.toNat, b.toNat, c.toNat, d.toNat, ?_, ?_⟩
  · have toNat := congrArg (List.map (Option.map UInt16.toNat)) areVals
    rw [List.map_map] at toNat
    refine (List.map_congr_left fun ch _ => (hexVal_toNat ch).symm).trans (toNat.trans ?_)
    rfl
  · have first : ((0 : UInt16) <<< 4 ||| a).toNat = a.toNat := by
      rw [toNat_shift_or (by decide) smallA]
      simp
    have second := @toNat_shift_or ((0 : UInt16) <<< 4 ||| a) b (by omega) smallB
    have third := @toNat_shift_or (((0 : UInt16) <<< 4 ||| a) <<< 4 ||| b) c (by omega) smallC
    have fourth := @toNat_shift_or ((((0 : UInt16) <<< 4 ||| a) <<< 4 ||| b) <<< 4 ||| c) d (by omega) smallD
    simp only [shiftIn, List.foldl_cons, List.foldl_nil]
    omega

theorem recognises_parseUXXXX (input : List UInt8) :
    Recognises parseUXXXX input fun unit rest => ∃ digits, HexUnit digits unit.toNat ∧
    input = digits ++ rest := by
  refine (recognises_parseHexDigits 4 0 input).mono ?_
  rintro unit rest ⟨digits, vals, count, areVals, rfl, rfl⟩
  exact ⟨digits, hexUnit_of_vals count areVals, rfl⟩

theorem recognises_parseEscapeUXXXX (input : List UInt8) :
    Recognises parseEscapeUXXXX input fun unit rest => ∃ digits, HexUnit digits unit.toNat ∧
      input = 0x5C :: 0x75 :: digits ++ rest := by
  refine (recognises_expectChars _ input).bind fun isEscape rest behind => ?_
  refine .ite (fun matched => ?_) (fun _ => recognises_raise _ _ _)
  refine (recognises_parseUXXXX rest).mono ?_
  rintro unit rest' ⟨digits, isUnit, rfl⟩
  exact ⟨digits, isUnit, by rw [behind matched]; simp [chr]⟩

theorem mem_escapes {ch char : UInt8} (isEscape : escaped ch = some char) : ch ∈ escapes := by
  obtain ⟨-, -, -, among⟩ := tables ch
  exact among (by rw [isEscape]; rfl)

theorem isFirstSurrogate_iff {unit : UInt16} :
    SimpleUtf.isUtf16SurrogateFirst unit = true ↔ IsFirstSurrogate unit.toNat := by
  rw [SimpleUtf.isUtf16SurrogateFirst_iff, IsFirstSurrogate]
  omega

theorem isSecond_of_utf16ToUtf8 {first second : UInt16} {bytes : List UInt8}
    (isFirst : IsFirstSurrogate first.toNat)
    (converted : SimpleUtf.utf16ToUtf8 [first, second] = .ok bytes) :
    IsSecondSurrogate second.toNat := by
  obtain ⟨chars, isUnits, -⟩ :=
    (SimpleUtf.convert_eq_ok SimpleUtf.reads_utf16 SimpleUtf.codePtToUtf8Once_char).mp converted
  cases chars with
  | nil => cases isUnits
  | cons char chars =>
    rw [List.flatMap_cons] at isUnits
    cases encoded : SimpleUtf.utf16EncodeChar char with
    | nil => exact absurd encoded (SimpleUtf.utf16EncodeChar_ne_nil char)
    | cons unit rest =>
      rw [encoded] at isUnits
      injection isUnits with sameFirst sameRest
      obtain ⟨second', rfl, isSecond⟩ :=
        SimpleUtf.second_of_utf16EncodeChar encoded (sameFirst ▸ isFirst)
      injection sameRest with sameSecond _
      rwa [sameSecond]

theorem noSurrogate_of_utf16ToUtf8 {unit : UInt16} {bytes : List UInt8}
    (converted : SimpleUtf.utf16ToUtf8 [unit] = .ok bytes) :
    ¬ IsFirstSurrogate unit.toNat ∧ ¬ IsSecondSurrogate unit.toNat := by
  obtain ⟨chars, isUnits, -⟩ :=
    (SimpleUtf.convert_eq_ok SimpleUtf.reads_utf16 SimpleUtf.codePtToUtf8Once_char).mp converted
  cases chars with
  | nil => cases isUnits
  | cons char chars =>
    rw [List.flatMap_cons] at isUnits
    cases encoded : SimpleUtf.utf16EncodeChar char with
    | nil => exact absurd encoded (SimpleUtf.utf16EncodeChar_ne_nil char)
    | cons unit' rest =>
      rw [encoded] at isUnits
      injection isUnits with sameUnit sameRest
      obtain ⟨rfl, -⟩ := List.append_eq_nil_iff.mp sameRest.symm
      have alone := (SimpleUtf.alone_of_utf16EncodeChar encoded).2
      rw [sameUnit, IsFirstSurrogate, IsSecondSurrogate]
      omega

theorem recognises_parseEscapeSomething (res input : List UInt8) :
    Recognises (parseEscapeSomething res) input fun _ rest => ∃ text,
      Piece simpleJson (0x5C :: text) ∧ input = text ++ rest := by
  refine (recognises_getCharAndAdv input).bind ?_
  rintro ch rest rfl
  cases isEscape : escaped ch with
  | some char => exact .pure ⟨[ch], .escape (mem_escapes isEscape), rfl⟩
  | none =>
    refine .ite (fun isU => ?_) (fun _ => recognises_raise _ _ _)
    refine (recognises_parseUXXXX rest).bind ?_
    rintro first _ ⟨digits, isUnit, rfl⟩
    refine .ite (fun isFirst => ?_) (fun _ => ?_)
    · refine (recognises_parseEscapeUXXXX _).bind ?_
      rintro second rest' ⟨digits', isUnit', rfl⟩
      refine (recognises_catchUtf (SimpleUtf.utf16ToUtf8_ne_readPastEnd _) _).bind ?_
      rintro bytes _ ⟨converted, rfl⟩
      have isFirst' := isFirstSurrogate_iff.mp isFirst
      refine .pure ⟨_, .pair isUnit isUnit' isFirst' (isSecond_of_utf16ToUtf8 isFirst' converted), ?_⟩
      rw [isU]
      simp [chr]
    · refine (recognises_catchUtf (SimpleUtf.utf16ToUtf8_ne_readPastEnd _) _).bind ?_
      rintro bytes _ ⟨converted, rfl⟩
      refine .pure ⟨_, .unit isUnit (.inl (noSurrogate_of_utf16ToUtf8 converted)), ?_⟩
      rw [isU]
      simp [chr]

/-! ## Strings -/

theorem recognises_getChars (left : Nat) (input : List UInt8) :
    Recognises (getChars left) input fun out rest => out.length = left ∧ input = out ++ rest := by
  induction left generalizing input with
  | zero => exact .pure ⟨rfl, rfl⟩
  | succ left inductionHypothesis =>
    refine (recognises_getCharAndAdv input).bind ?_
    rintro ch rest rfl
    refine (inductionHypothesis rest).bind ?_
    rintro out rest' ⟨count, rfl⟩
    exact .pure ⟨by rw [List.length_cons, count], rfl⟩

/-- The bytes that were announced are there. -/
theorem utf8ToCodePtOnce_inRange {ch leading : UInt8} {contCount : Nat} {conts : List UInt8}
    (read : SimpleUtf.utf8ReadLeading ch = .ok (contCount, leading))
    (count : conts.length = contCount) :
    SimpleUtf.utf8ToCodePtOnce (ch :: conts) ≠ .error .readPastEnd := by
  intro failed
  have short := (SimpleUtf.utf8ToCodePtOnce_readPastEnd_iff.mp failed).short
  rw [SimpleUtf.contsAnnounced_eq, read, count] at short
  exact absurd short (Nat.lt_irrefl _)

theorem rest_of_utf8ToCodePtOnce {ch leading : UInt8} {contCount : Nat} {conts rest : List UInt8}
    {val : UInt32}
    (read : SimpleUtf.utf8ReadLeading ch = .ok (contCount, leading)) (count : conts.length = contCount)
    (decoded : SimpleUtf.utf8ToCodePtOnce (ch :: conts) = .ok (val, rest)) : rest = [] := by
  simp only [SimpleUtf.utf8ToCodePtOnce, read, ok_bind, bind_eq_ok, Prod.exists] at decoded
  obtain ⟨_, _, readConts, checked⟩ := decoded
  split at checked
  · cases checked
    have length := SimpleUtf.length_of_utf8ReadConts readConts
    exact List.length_eq_zero_iff.mp (by omega)
  · cases checked

theorem utf8EncodeChar_ascii {char : Char} (small : char.val ≤ 0x7F) :
    String.utf8EncodeChar char = [char.val.toUInt8] := by
  rw [UInt32.le_iff_toNat_le] at small
  simp only [String.utf8EncodeChar]
  exact if_pos small

theorem recognises_parseUtf8 {ch : UInt8} (notAscii : ¬ ch ≤ 0x7F) (res input : List UInt8) :
    Recognises (parseUtf8 ch res) input fun _ rest => ∃ char : Char, 0x7F < char.val ∧
      ch :: input = String.utf8EncodeChar char ++ rest := by
  refine (recognises_catchUtf SimpleUtf.utf8ReadLeading_ne_readPastEnd input).bind ?_
  rintro ⟨contCount, leading⟩ middle ⟨read, rfl⟩
  refine (recognises_getChars contCount middle).bind ?_
  rintro conts rest ⟨count, rfl⟩
  refine (recognises_catchUtf (utf8ToCodePtOnce_inRange read count) _).bind ?_
  rintro ⟨codePt, rest'⟩ _ ⟨decoded, rfl⟩
  obtain ⟨char, rfl, isChar⟩ := SimpleUtf.encoding_of_utf8ToCodePtOnce decoded
  rw [rest_of_utf8ToCodePtOnce read count decoded, List.append_nil] at isChar
  have written := SimpleUtf.codePtToUtf8Once_char char
  refine (recognises_catchUtf (by rw [written]; simp) _).bind ?_
  rintro bytes _ ⟨-, rfl⟩
  refine .pure ⟨char, ?_, by rw [← isChar]; rfl⟩
  by_contra small
  rw [utf8EncodeChar_ascii (UInt32.not_lt.mp small)] at isChar
  injection isChar with isByte _
  refine notAscii ?_
  rw [isByte, UInt8.le_iff_toNat_le, UInt32.toNat_toUInt8]
  have small' := UInt32.le_iff_toNat_le.mp (UInt32.not_lt.mp small)
  exact Nat.le_trans (Nat.mod_le _ _) small'

/-- A character of one byte. -/
theorem exists_char_of_ascii {ch : UInt8} (isAscii : ch ≤ 0x7F) :
    ∃ char : Char, char.val.toNat = ch.toNat ∧ String.utf8EncodeChar char = [ch] := by
  have small := UInt8.le_iff_toNat_le.mp isAscii
  simp only [UInt8.reduceToNat] at small
  have valid : (UInt32.ofNat ch.toNat).isValidChar := by
    rw [UInt32.isValidChar, SimpleUtf.toNat_ofNat32 (by omega), Nat.isValidChar]
    omega
  have value : (UInt32.ofNat ch.toNat).toNat = ch.toNat := SimpleUtf.toNat_ofNat32 (by omega)
  refine ⟨⟨_, valid⟩, value, ?_⟩
  rw [utf8EncodeChar_ascii (by rw [UInt32.le_iff_toNat_le, value]; exact small)]
  rw [List.cons.injEq, ← UInt8.toNat_inj, UInt32.toNat_toUInt8, value]
  exact ⟨Nat.mod_eq_of_lt ch.toNat_lt, rfl⟩

theorem recognises_parseStringLoop {left : Nat} {res input : List UInt8}
    (enough : input.length < left) :
    Recognises (parseStringLoop left res) input fun _ rest => ∃ pieces : List (List UInt8),
      (∀ piece ∈ pieces, Piece simpleJson piece) ∧ input = pieces.flatten ++ 0x22 :: rest := by
  induction left generalizing res input with
  | zero => cases enough
  | succ left inductionHypothesis =>
    -- a piece that is read, and the ones behind it
    have goesOn : ∀ {piece middle : List UInt8} {res : List UInt8}, Piece simpleJson piece →
      piece ≠ [] →
        input = piece ++ middle → Recognises (parseStringLoop left res) middle fun _ rest =>
          ∃ pieces : List (List UInt8), (∀ piece ∈ pieces, Piece simpleJson piece) ∧
            input = pieces.flatten ++ 0x22 :: rest := by
      rintro piece middle res isPiece notEmpty rfl
      have shorter := List.length_pos_iff.mpr notEmpty
      rw [List.length_append] at enough
      refine (inductionHypothesis (by omega)).mono ?_
      rintro _ rest ⟨pieces, arePieces, rfl⟩
      exact ⟨piece :: pieces, List.forall_mem_cons.mpr ⟨isPiece, arePieces⟩, by simp⟩
    refine (recognises_getCharAndAdv input).bind ?_
    intro ch rest isInput
    refine .ite (fun isQuote => .pure ⟨[], by simp, by rw [isInput, isQuote]; rfl⟩) (fun notQuote => ?_)
    refine .ite (fun isEscape => ?_) (fun notEscape => ?_)
    · refine (recognises_parseEscapeSomething res rest).bind ?_
      rintro res' middle ⟨text, isPiece, rfl⟩
      exact goesOn isPiece (by simp) (by rw [isInput, isEscape]; rfl)
    refine .ite (fun isAscii => ?_) (fun notAscii => ?_)
    · obtain ⟨char, value, encoding⟩ := exists_char_of_ascii isAscii
      have isPiece : Piece simpleJson [ch] := by
        rw [← encoding]
        refine .unescaped (fun isQuote => notQuote ?_) (fun isEscape => notEscape ?_) (.inr rfl)
        · rw [isQuote] at value
          exact UInt8.toNat_inj.mp value.symm
        · rw [isEscape] at value
          exact UInt8.toNat_inj.mp value.symm
      exact goesOn isPiece (by simp) isInput
    · refine (recognises_parseUtf8 notAscii res rest).bind ?_
      rintro res' middle ⟨char, big, isChar⟩
      refine goesOn (.unescaped ?_ ?_ (.inr rfl)) String.utf8EncodeChar_ne_nil (isInput.trans isChar)
      · rintro isQuote
        rw [isQuote] at big
        exact absurd big (by decide)
      · rintro isEscape
        rw [isEscape] at big
        exact absurd big (by decide)

theorem recognises_parseString (input : List UInt8) :
    Recognises parseString input fun _ rest => Behind (Str simpleJson) input rest := by
  refine (recognises_skipSpaceAndGetCharAndAdv input).bind ?_
  rintro ch rest ⟨spaces, areSpaces, rfl, -⟩
  refine .ite (fun isQuote => .get_bind fun state same => ?_) (fun _ => recognises_raise _ _ _)
  refine (recognises_parseStringLoop (by rw [same]; exact Nat.lt_succ_self _)).mono ?_
  rintro _ rest' ⟨pieces, arePieces, rfl⟩
  exact ⟨spaces, _, areSpaces, .of arePieces, by rw [isQuote]; simp [chr]⟩

/-! ## Values -/

theorem Value.ne_nil {dialect : Dialect} {text : List UInt8}
    (isValue : Value dialect text) : text ≠ [] := by
  cases isValue with
  | number isNumber =>
    obtain ⟨-, isInt, -, -⟩ := isNumber
    cases isInt with
    | zero => simp
    | nonzero areDigits _ => simp [areDigits.1]
  | string isString =>
    cases isString
    simp
  | _ => simp

theorem Behind.shorter {dialect : Dialect} {input rest : List UInt8}
    (behind : Behind (Value dialect) input rest) :
    rest.length < input.length := by
  obtain ⟨spaces, text, -, isValue, rfl⟩ := behind
  have notEmpty := List.length_pos_iff.mpr (Value.ne_nil isValue)
  simp only [List.length_append]
  omega

section

variable {Obj : Type} {item : Parser Obj} {bound : Nat}

/-- The parser of the items recognises values in shorter inputs. -/
def RecognisesValues (item : Parser Obj) (bound : Nat) : Prop :=
  ∀ input : List UInt8, input.length < bound →
    Recognises item input fun _ rest => Behind (Value simpleJson) input rest

theorem recognises_parseListLoop (items : RecognisesValues item bound) {left : Nat} {l : List Obj}
    {input : List UInt8} (small : input.length ≤ bound) (enough : input.length < left) :
    Recognises (parseListLoop item left l) input fun _ rest => ∃ spaces, Spaces spaces ∧
      (input = spaces ++ 0x5D :: rest ∨
        ∃ text, Elements simpleJson text ∧ input = spaces ++ 0x2C :: (text ++ 0x5D :: rest)) := by
  induction left generalizing l input with
  | zero => cases enough
  | succ left inductionHypothesis =>
    refine (recognises_skipSpaceAndGetChar input).bind ?_
    rintro ch _ ⟨spaces, tail, areSpaces, rfl, rfl, -⟩
    simp only [List.length_append, List.length_cons] at small enough
    refine .ite (fun isComma => ?_) (fun _ => .ite (fun isEnd => ?_) (fun _ => recognises_raise _ _ _))
    · refine (recognises_getCharAndAdv _).bind ?_
      rintro _ _ ⟨⟩
      refine (items tail (by omega)).bind fun obj middle behind => ?_
      have shorter := behind.shorter
      obtain ⟨before, value, areBefore, isValue, rfl⟩ := behind
      refine (inductionHypothesis (by omega) (by omega)).mono ?_
      rintro _ rest ⟨after, areAfter, rfl | ⟨text, elements, rfl⟩⟩
      · refine ⟨spaces, areSpaces, .inr ⟨_,
          .last (spaces_iff.mp areBefore) isValue (spaces_iff.mp areAfter), ?_⟩⟩
        rw [isComma]
        simp [chr]
      · refine ⟨spaces, areSpaces, .inr ⟨_,
          .more (spaces_iff.mp areBefore) isValue (spaces_iff.mp areAfter)
          elements, ?_⟩⟩
        rw [isComma]
        simp [chr]
    · refine (recognises_getCharAndAdv _).bind ?_
      rintro _ _ ⟨⟩
      exact .pure ⟨spaces, areSpaces, .inl (by rw [isEnd]; rfl)⟩

theorem recognises_parseList (items : RecognisesValues item bound) {input : List UInt8}
    (small : input.length ≤ bound) :
    Recognises (parseList item) input fun _ rest => Behind (Value simpleJson) input rest := by
  refine (recognises_skipSpaceAndGetCharAndAdv input).bind ?_
  rintro ch middle ⟨spaces, areSpaces, rfl, -⟩
  simp only [List.length_append, List.length_cons] at small
  refine .ite (fun isBegin => ?_) (fun _ => recognises_raise _ _ _)
  refine (recognises_skipSpaceAndGetChar middle).bind ?_
  rintro ch' _ ⟨inner, tail, areInner, rfl, rfl, -⟩
  simp only [List.length_append, List.length_cons] at small
  refine .ite (fun isEnd => ?_) (fun _ => ?_)
  · refine (recognises_getCharAndAdv _).bind ?_
    rintro _ _ ⟨⟩
    refine .pure ⟨spaces, _, areSpaces, .emptyArray (spaces_iff.mp areInner), ?_⟩
    rw [isBegin, isEnd]
    simp [chr]
  · refine (items (ch' :: tail) (by simp only [List.length_cons]; omega)).bind fun obj left behind => ?_
    have shorter := behind.shorter
    obtain ⟨before, value, areBefore, isValue, isInput⟩ := behind
    simp only [List.length_cons] at shorter
    refine .get_bind fun state same => ?_
    refine (recognises_parseListLoop items (by omega) (by rw [same]; exact Nat.lt_succ_self _)).mono ?_
    have isWs := spaces_iff.mp (areInner.append areBefore)
    rintro _ rest ⟨after, areAfter, rfl | ⟨text, elements, rfl⟩⟩
    · refine ⟨spaces, _, areSpaces, .array (.last isWs isValue (spaces_iff.mp areAfter)), ?_⟩
      rw [isBegin, isInput]
      simp [chr]
    · refine ⟨spaces, _, areSpaces, .array (.more isWs isValue (spaces_iff.mp areAfter) elements), ?_⟩
      rw [isBegin, isInput]
      simp [chr]

/-- A name, a colon and a value with the white space before them. -/
def Member (input rest : List UInt8) : Prop :=
  ∃ before name colon ahead value, Spaces before ∧ Str simpleJson name ∧ Spaces colon ∧ Spaces ahead ∧
    Value simpleJson value ∧ input = before ++ name ++ colon ++ 0x3A :: (ahead ++ value ++ rest)

theorem Member.shorter {input rest : List UInt8}
    (isMember : Member input rest) : rest.length < input.length := by
  obtain ⟨before, name, colon, ahead, value, -, -, -, -, -, rfl⟩ := isMember
  simp only [List.length_append, List.length_cons]
  omega

theorem recognises_parseEntry (items : RecognisesValues item bound) {d : List (List UInt8 × Obj)}
    {input : List UInt8} (small : input.length ≤ bound) :
    Recognises (parseEntry item d) input fun _ rest => Member input rest := by
  refine (recognises_parseString input).bind ?_
  rintro k _ ⟨before, name, areBefore, isName, rfl⟩
  refine (recognises_expDelimiter _ _).bind ?_
  rintro _ middle ⟨colon, areColon, rfl⟩
  simp only [List.length_append, List.length_cons] at small
  refine (items middle (by omega)).bind ?_
  rintro v rest ⟨ahead, value, areAhead, isValue, rfl⟩
  exact .pure ⟨before, name, colon, ahead, value, areBefore, isName, areColon, areAhead,
    isValue, by simp [chr]⟩

theorem recognises_parseDictLoop (items : RecognisesValues item bound) {left : Nat}
    {d : List (List UInt8 × Obj)} {input : List UInt8} (small : input.length ≤ bound)
    (enough : input.length < left) :
    Recognises (parseDictLoop item left d) input fun _ rest => ∃ spaces, Spaces spaces ∧
      (input = spaces ++ 0x7D :: rest ∨
        ∃ text, Members simpleJson text ∧ input = spaces ++ 0x2C :: (text ++ 0x7D :: rest)) := by
  induction left generalizing d input with
  | zero => cases enough
  | succ left inductionHypothesis =>
    refine (recognises_skipSpaceAndGetChar input).bind ?_
    rintro ch _ ⟨spaces, tail, areSpaces, rfl, rfl, -⟩
    simp only [List.length_append, List.length_cons] at small enough
    refine .ite (fun isComma => ?_) (fun _ => .ite (fun isEnd => ?_) (fun _ => recognises_raise _ _ _))
    · refine (recognises_getCharAndAdv _).bind ?_
      rintro _ _ ⟨⟩
      refine (recognises_parseEntry items (by omega)).bind fun d' middle isMember => ?_
      have shorter := isMember.shorter
      obtain ⟨before, name, colon, ahead, value, areBefore, isName, areColon, areAhead, isValue,
        rfl⟩ := isMember
      refine (inductionHypothesis (by omega) (by omega)).mono ?_
      simp only [spaces_iff] at areBefore areColon areAhead
      rintro _ rest ⟨after, areAfter, rfl | ⟨text, members, rfl⟩⟩
      · refine ⟨spaces, areSpaces, .inr ⟨_, .last areBefore isName areColon areAhead isValue
          (spaces_iff.mp areAfter), ?_⟩⟩
        rw [isComma]
        simp [chr]
      · refine ⟨spaces, areSpaces, .inr ⟨_, .more areBefore isName areColon areAhead isValue
          (spaces_iff.mp areAfter) members, ?_⟩⟩
        rw [isComma]
        simp [chr]
    · refine (recognises_getCharAndAdv _).bind ?_
      rintro _ _ ⟨⟩
      exact .pure ⟨spaces, areSpaces, .inl (by rw [isEnd]; rfl)⟩

theorem recognises_parseDict (items : RecognisesValues item bound) {input : List UInt8}
    (small : input.length ≤ bound) :
    Recognises (parseDict item) input fun _ rest => Behind (Value simpleJson) input rest := by
  refine (recognises_skipSpaceAndGetCharAndAdv input).bind ?_
  rintro ch middle ⟨spaces, areSpaces, rfl, -⟩
  simp only [List.length_append, List.length_cons] at small
  refine .ite (fun isBegin => ?_) (fun _ => recognises_raise _ _ _)
  refine (recognises_skipSpaceAndGetChar middle).bind ?_
  rintro ch' _ ⟨inner, tail, areInner, rfl, rfl, -⟩
  simp only [List.length_append, List.length_cons] at small
  refine .ite (fun isEnd => ?_) (fun _ => ?_)
  · refine (recognises_getCharAndAdv _).bind ?_
    rintro _ _ ⟨⟩
    refine .pure ⟨spaces, _, areSpaces, .emptyObject (spaces_iff.mp areInner), ?_⟩
    rw [isBegin, isEnd]
    simp [chr]
  · have small' : (ch' :: tail).length ≤ bound := by
      simp only [List.length_cons]
      omega
    refine (recognises_parseEntry items small').bind fun d left isMember => ?_
    have shorter := isMember.shorter
    obtain ⟨before, name, colon, ahead, value, areBefore, isName, areColon, areAhead, isValue,
      isInput⟩ := isMember
    simp only [List.length_cons] at shorter
    refine .get_bind fun state same => ?_
    refine (recognises_parseDictLoop items (by omega) (by rw [same]; exact Nat.lt_succ_self _)).mono ?_
    have isWs := spaces_iff.mp (areInner.append areBefore)
    simp only [spaces_iff] at areColon areAhead
    rintro _ rest ⟨after, areAfter, rfl | ⟨text, members, rfl⟩⟩
    · refine ⟨spaces, _, areSpaces, .object (.last isWs isName areColon areAhead isValue
        (spaces_iff.mp areAfter)), ?_⟩
      rw [isBegin, isInput]
      simp [chr]
    · refine ⟨spaces, _, areSpaces, .object (.more isWs isName areColon areAhead isValue
        (spaces_iff.mp areAfter) members), ?_⟩
      rw [isBegin, isInput]
      simp [chr]

end

section

variable {Obj : Type} (types : ObjectTypes Obj)

theorem recognises_parseNumber (input : List UInt8) :
    Recognises (parseNumber types) input fun _ rest => Behind (Value simpleJson) input rest := by
  refine (recognises_skipWhiteSpace input).bind ?_
  rintro _ middle isMiddle
  obtain ⟨spaces, areSpaces, rfl⟩ : ∃ spaces, Spaces spaces ∧ input = spaces ++ middle :=
    ⟨input.takeWhile isSpaceCh, fun _ inSpaces => List.mem_takeWhile_imp inSpaces,
      by rw [isMiddle, List.takeWhile_append_dropWhile]⟩
  refine (recognises_parseNum middle).bind ?_
  rintro ⟨iRes, fRes⟩ rest ⟨text, isNumber, rfl⟩
  have behind : Behind (Value simpleJson) (spaces ++ (text ++ rest)) rest :=
    ⟨spaces, text, areSpaces, .number isNumber, (List.append_assoc _ _ _).symm⟩
  exact .ite (fun _ => .pure behind) (fun _ => .pure behind)

/-- A depth above the length of the input is enough: each level reads a character. -/
theorem recognises_parse {depth : Nat} {input : List UInt8} (enough : input.length < depth) :
    Recognises (parse types depth) input fun _ rest => Behind (Value simpleJson) input rest := by
  induction depth generalizing input with
  | zero => cases enough
  | succ depth inductionHypothesis =>
    have items : RecognisesValues (parse types depth) depth :=
      fun input small => inductionHypothesis small
    refine (recognises_skipSpaceAndGetChar input).bind ?_
    rintro ch rest' ⟨spaces, tail, areSpaces, rfl, -, -⟩
    rw [List.length_append] at enough
    refine .ite (fun _ => ?_) (fun _ => .ite (fun _ => ?_) (fun _ => .ite (fun _ => ?_) (fun _ =>
      .ite (fun _ => ?_) (fun _ => .ite (fun _ => ?_) (fun _ => .ite (fun _ => ?_)
        (fun _ => recognises_raise _ _ _))))))
    · exact (recognises_parseNull rest').bind fun _ _ behind => .pure (behind.append areSpaces)
    · exact (recognises_parseBool rest').bind fun _ _ behind => .pure (behind.append areSpaces)
    · exact (recognises_parseNumber types rest').mono fun _ _ behind => behind.append areSpaces
    · refine (recognises_parseString rest').bind ?_
      rintro val rest ⟨inner, text, areInner, isString, rfl⟩
      exact .pure (Behind.append areSpaces ⟨inner, text, areInner, .string isString, rfl⟩)
    · exact (recognises_parseList items (by omega)).bind fun _ _ behind => .pure (behind.append areSpaces)
    · exact (recognises_parseDict items (by omega)).bind fun _ _ behind => .pure (behind.append areSpaces)

/-- The parser ends within the input, and what it accepts is a text of its grammar. -/
theorem parseTillEnd_sound (ctn : List UInt8) :
    (∃ obj state, parseTillEnd types ctn = .ok obj state ∧ Text simpleJson ctn) ∨
      ∃ error state, parseTillEnd types ctn = .throws error state := by
  have recognises : Recognises (if ctn = [] then raise "Input string ends unexpectedly"
      else do
        let res ← parse types (ctn.length + 1)
        skipWhiteSpace
        let atEnd ← isEnd
        if ¬ atEnd then raise "Extra Data" else pure res : Parser Obj) ctn fun _ _ => Text simpleJson ctn := by
    refine .ite (fun _ => recognises_raise _ _ _) (fun _ => ?_)
    refine (recognises_parse types (Nat.lt_succ_self _)).bind ?_
    rintro obj rest ⟨before, value, areBefore, isValue, isInput⟩
    refine (recognises_skipWhiteSpace rest).bind ?_
    rintro _ _ rfl
    refine (recognises_isEnd _).bind ?_
    rintro atEnd _ ⟨isEnd, rfl⟩
    refine .ite (fun _ => recognises_raise _ _ _) (fun ended => .pure ?_)
    have onlySpaces := isEnd.mp (not_not.mp ended)
    rw [isInput]
    refine .of (spaces_iff.mp areBefore) isValue (spaces_iff.mp fun space inRest => ?_)
    exact List.dropWhile_eq_nil_iff.mp onlySpaces space inRest
  rcases recognises ⟨ctn, 0, 0⟩ rfl with ⟨obj, state, returned, isText⟩ | thrown
  · exact .inl ⟨obj, state, returned, isText⟩
  · exact .inr thrown

end

end Decentagram.SimpleJson
