import Decentagram.SimpleJson.Soundness

/-! # What the parser reads

Each text of the grammar is read as the object that it stands for, whatever follows that does not
continue it.
-/

namespace Decentagram.SimpleJson

open Decentagram.Lib Grammar

/-! ## Literals and numbers -/

theorem reads_expectChars (expected rest : List UInt8) :
    Reads (expectChars expected) (expected ++ rest) true rest := by
  induction expected with
  | nil => exact .pure _ _
  | cons ch expected inductionHypothesis =>
    exact (reads_getCharAndAdv ch _).bind (.yes rfl inductionHypothesis)

theorem reads_isEnd (input : List UInt8) : Reads isEnd input input.isEmpty input := by
  intro before same
  refine ⟨before, ?_, same⟩
  rw [← same]
  rfl

/-- The next character is not one that a number goes on with. -/
def Delimited (rest : List UInt8) : Prop :=
  ∀ ch ∈ rest.head?, isDigit ch = false ∧ ch ≠ 0x2E ∧ ch ≠ 0x65 ∧ ch ≠ 0x45

theorem reads_parseNumDigitsLoop {left : Nat} {dest digits rest : List UInt8}
    (areDigits : ∀ ch ∈ digits, 0x30 ≤ ch ∧ ch ≤ 0x39) (notNone : dest ++ digits ≠ [])
    (noDigit : ∀ ch ∈ rest.head?, isDigit ch = false) (enough : digits.length < left) :
    Reads (parseNumDigitsLoop left dest) (digits ++ rest) (dest ++ digits) rest := by
  induction left generalizing dest digits with
  | zero => cases enough
  | succ left inductionHypothesis =>
    refine (reads_isEnd _).bind ?_
    cases digits with
    | nil =>
      have some : ¬ dest.length = 0 := by
        rw [List.append_nil] at notNone
        exact fun none => notNone (List.length_eq_zero_iff.mp none)
      rw [List.append_nil, List.nil_append]
      cases rest with
      | nil => exact .yes rfl (.no some (.pure _ _))
      | cons ch rest =>
        refine .no (by simp) ((reads_getChar ch rest).bind ?_)
        exact .no (by simp [noDigit ch rfl]) (.no some (.pure _ _))
    | cons ch digits =>
      obtain ⟨isDigit, areDigits⟩ := List.forall_mem_cons.mp areDigits
      refine .no (by simp) ((reads_getChar ch _).bind (.yes (isDigit_iff.mpr isDigit) ?_))
      refine (reads_getCharAndAdv ch _).bind ?_
      rw [List.append_cons dest ch digits]
      exact inductionHypothesis areDigits (by simp) (by simpa using enough)

theorem reads_parseNumDigits {digits rest : List UInt8} (areDigits : Digits digits)
    (noDigit : ∀ ch ∈ rest.head?, isDigit ch = false) :
    Reads parseNumDigits (digits ++ rest) digits rest := by
  refine .get_bind fun state same => ?_
  refine reads_parseNumDigitsLoop areDigits.2 areDigits.1 noDigit ?_
  rw [same, List.length_append]
  omega

theorem reads_parseInt {int rest : List UInt8} (isInt : IntPart int)
    (noDigit : ∀ ch ∈ rest.head?, isDigit ch = false) : Reads parseInt (int ++ rest) int rest := by
  cases isInt with
  | zero => exact (reads_getChar _ _).bind (.yes rfl ((reads_getCharAndAdv _ _).bind (.pure _ _)))
  | nonzero areDigits noZero =>
    cases int with
    | nil => exact absurd rfl areDigits.1
    | cons ch digits =>
      refine (reads_getChar ch _).bind (.no ?_ (.yes ?_ (reads_parseNumDigits areDigits noDigit)))
      · rintro rfl
        exact noZero rfl
      · exact isDigit_iff.mpr (areDigits.2 ch List.mem_cons_self)

theorem reads_parseFrac {frac rest : List UInt8} (isFrac : Frac frac)
    (noDigit : ∀ ch ∈ rest.head?, isDigit ch = false ∧ ch ≠ 0x2E) :
    Reads (parseFrac true) (frac ++ rest) frac rest := by
  refine (reads_isEnd _).bind ?_
  cases isFrac with
  | none =>
    cases rest with
    | nil => exact .yes ⟨rfl, rfl⟩ (.pure _ _)
    | cons ch rest =>
      refine .no (by simp) ((reads_getChar ch rest).bind (.no (noDigit ch rfl).2 ?_))
      exact .no (by simp) (.pure _ _)
  | point areDigits =>
    refine .no (by simp) ((reads_getChar _ _).bind (.yes rfl ((reads_getCharAndAdv _ _).bind ?_)))
    exact (reads_parseNumDigits areDigits fun ch isHead => (noDigit ch isHead).1).bind (.pure _ _)

/-- An exponent is read, perhaps in other letters. -/
theorem reads_parseExp {exp : List UInt8} (isExp : Exp exp) :
    ∃ out, (exp = [] → out = []) ∧
      ∀ rest, Delimited rest → Reads (parseExp true) (exp ++ rest) out rest := by
  cases isExp with
  | none =>
    refine ⟨[], fun _ => rfl, fun rest delimited => (reads_isEnd _).bind ?_⟩
    cases rest with
    | nil => exact .yes ⟨rfl, rfl⟩ (.pure _ _)
    | cons ch rest =>
      obtain ⟨-, -, notSmallE, notE⟩ := delimited ch rfl
      refine .no (by simp) ((reads_getChar ch rest).bind (.no (not_or.mpr ⟨notSmallE, notE⟩) ?_))
      exact .no (by simp) (.pure _ _)
  | @e e sign digits isE isSign areDigits =>
    have signed : ∃ positive, ∀ rest,
        Reads (parseNorPSign true) (sign ++ (digits ++ rest)) positive (digits ++ rest) := by
      rcases isSign with rfl | rfl | rfl
      · cases digits with
        | nil => exact absurd rfl areDigits.1
        | cons ch digits =>
          have isDigit := areDigits.2 ch List.mem_cons_self
          refine ⟨true, fun _ => (reads_getChar ch _).bind (.no ?_ (.no ?_ (.yes rfl (.pure _ _))))⟩
          · rintro rfl
            exact absurd isDigit (by decide)
          · rintro rfl
            exact absurd isDigit (by decide)
      · exact ⟨true, fun _ => (reads_getChar _ _).bind (.no (by decide) (.yes rfl
          ((reads_getCharAndAdv _ _).bind (.pure _ _))))⟩
      · exact ⟨false, fun _ => (reads_getChar _ _).bind (.yes rfl
          ((reads_getCharAndAdv _ _).bind (.pure _ _)))⟩
    obtain ⟨positive, readsSign⟩ := signed
    refine ⟨chr 'e' :: ((if positive then [] else [chr '-']) ++ digits), by simp,
      fun rest delimited => (reads_isEnd _).bind (.no (by simp) ?_)⟩
    have readsDigits := reads_parseNumDigits areDigits fun ch isHead => (delimited ch isHead).1
    rw [List.cons_append, List.append_assoc]
    refine (reads_getChar e _).bind (.yes isE ((reads_getCharAndAdv e _).bind ?_))
    exact (readsSign rest).bind (readsDigits.bind (.pure _ _))

theorem reads_parseNum {minus int frac exp : List UInt8} (isMinus : minus = [] ∨ minus = [0x2D])
    (isInt : IntPart int) (isFrac : Frac frac) (isExp : Exp exp) :
    ∃ out, (exp = [] → out = []) ∧ ∀ rest, Delimited rest →
      Reads parseNum (minus ++ int ++ frac ++ exp ++ rest) (minus ++ int, frac ++ out) rest := by
  obtain ⟨out, isOut, readsExp⟩ := reads_parseExp isExp
  refine ⟨out, isOut, fun rest delimited => ?_⟩
  -- what follows does not go on with the part before it
  have behindFrac : ∀ ch ∈ (exp ++ rest).head?, isDigit ch = false ∧ ch ≠ 0x2E := by
    intro ch isHead
    cases isExp with
    | none => exact ⟨(delimited ch isHead).1, (delimited ch isHead).2.1⟩
    | e isE _ _ =>
      cases isHead
      rcases isE with rfl | rfl <;> decide
  have behindInt : ∀ ch ∈ (frac ++ (exp ++ rest)).head?, isDigit ch = false := by
    intro ch isHead
    cases isFrac with
    | none => exact (behindFrac ch isHead).1
    | point _ =>
      cases isHead
      decide
  have readsInt := reads_parseInt isInt behindInt
  have signed : Reads (parseNSign true) (minus ++ (int ++ (frac ++ (exp ++ rest)))) (minus = [])
      (int ++ (frac ++ (exp ++ rest))) := by
    rcases isMinus with rfl | rfl
    · obtain ⟨ch, tail, isCons, notMinus⟩ : ∃ ch tail, int = ch :: tail ∧ ch ≠ 0x2D := by
        cases isInt with
        | zero => exact ⟨_, _, rfl, by decide⟩
        | nonzero areDigits _ =>
          cases int with
          | nil => exact absurd rfl areDigits.1
          | cons ch tail =>
            refine ⟨ch, tail, rfl, ?_⟩
            rintro rfl
            exact absurd (areDigits.2 _ List.mem_cons_self) (by decide)
      rw [isCons]
      exact (reads_getChar ch _).bind (.no notMinus (.yes rfl (.pure _ _)))
    · exact (reads_getChar _ _).bind (.yes rfl ((reads_getCharAndAdv _ _).bind (.pure _ _)))
  simp only [List.append_assoc]
  refine signed.bind (readsInt.bind ?_)
  refine (reads_parseFrac isFrac behindFrac).bind ((readsExp rest delimited).bind ?_)
  rcases isMinus with rfl | rfl
  · exact .pure _ _
  · exact .pure _ _

/-! ## Strings -/

theorem reads_catchUtf {α : Type} {result : Except SimpleUtf.Exception α} {value : α}
    (isOk : result = .ok value)
    (input : List UInt8) : Reads (catchUtf result) input value input := by
  rw [isOk]
  exact .pure _ _

theorem reads_parseHexDigits {digits : List UInt8} {vals : List UInt16} (res : UInt16)
    (rest : List UInt8) (areVals : digits.map hexVal = vals.map some) :
    Reads (parseHexDigits vals.length res) (digits ++ rest) (shiftIn res vals) rest := by
  induction vals generalizing res digits with
  | nil =>
    obtain rfl : digits = [] := by simpa using areVals
    exact .pure _ _
  | cons val vals inductionHypothesis =>
    cases digits with
    | nil => cases areVals
    | cons ch digits =>
      rw [List.map_cons, List.map_cons, List.cons.injEq] at areVals
      refine (reads_getCharAndAdv ch _).bind ?_
      rw [areVals.1]
      exact inductionHypothesis _ areVals.2

theorem exists_hexVal {ch : UInt8} {digit : Nat} (isDigit : hexDigit ch = some digit) :
    ∃ val, hexVal ch = some val ∧ val.toNat = digit := by
  rw [← hexVal_toNat, Option.map_eq_some_iff] at isDigit
  exact isDigit

theorem reads_parseUXXXX {digits : List UInt8} {val : Nat} (isUnit : HexUnit digits val)
    (rest : List UInt8) :
    ∃ unit : UInt16, unit.toNat = val ∧ Reads parseUXXXX (digits ++ rest) unit rest := by
  obtain ⟨a, b, c, d, areDigits, rfl⟩ := isUnit
  obtain ⟨ch1, ch2, ch3, ch4, rfl⟩ :=
    List.length_eq_four.mp (by simpa using congrArg List.length areDigits)
  simp only [List.map_cons, List.map_nil, List.cons.injEq, and_true] at areDigits
  obtain ⟨val1, isVal1, rfl⟩ := exists_hexVal areDigits.1
  obtain ⟨val2, isVal2, rfl⟩ := exists_hexVal areDigits.2.1
  obtain ⟨val3, isVal3, rfl⟩ := exists_hexVal areDigits.2.2.1
  obtain ⟨val4, isVal4, rfl⟩ := exists_hexVal areDigits.2.2.2
  have areVals : [ch1, ch2, ch3, ch4].map hexVal = [val1, val2, val3, val4].map some := by
    simp [isVal1, isVal2, isVal3, isVal4]
  obtain ⟨a, b, c, d, same, value⟩ := hexUnit_of_vals rfl areVals
  simp only [List.map_cons, List.map_nil, ← hexVal_toNat, isVal1, isVal2, isVal3, isVal4,
    Option.map_some, List.cons.injEq, Option.some.injEq, and_true] at same
  obtain ⟨rfl, rfl, rfl, rfl⟩ := same
  exact ⟨_, value, reads_parseHexDigits 0 rest areVals⟩

theorem reads_parseEscapeUXXXX {digits : List UInt8} {val : Nat} (isUnit : HexUnit digits val)
    (rest : List UInt8) :
    ∃ unit : UInt16, unit.toNat = val ∧
      Reads parseEscapeUXXXX (0x5C :: 0x75 :: digits ++ rest) unit rest := by
  obtain ⟨unit, isVal, reads⟩ := reads_parseUXXXX isUnit rest
  exact ⟨unit, isVal, (reads_expectChars [chr '\\', chr 'u'] (digits ++ rest)).bind (.yes rfl reads)⟩

/-- In a string the piece stands for the bytes. -/
def PieceReads (piece bytes : List UInt8) : Prop :=
  ∀ {left : Nat} {res rest out rest' : List UInt8},
    Reads (parseStringLoop left (res ++ bytes)) rest out rest' →
      Reads (parseStringLoop (left + 1) res) (piece ++ rest) out rest'

theorem pieceReads_ascii {ch : UInt8} (isAscii : ch ≤ 0x7F) (notQuote : ch ≠ 0x22)
    (notEscape : ch ≠ 0x5C) :
    PieceReads [ch] [ch] := by
  intro left res rest out rest' reads
  exact (reads_getCharAndAdv ch rest).bind (.no notQuote (.no notEscape (.yes isAscii reads)))

theorem reads_getChars (chars rest : List UInt8) : Reads (getChars chars.length)
    (chars ++ rest) chars rest := by
  induction chars with
  | nil => exact .pure _ _
  | cons ch chars inductionHypothesis =>
    exact (reads_getCharAndAdv ch _).bind (inductionHypothesis.bind (.pure _ _))

theorem pieceReads_utf8 {char : Char} {ch : UInt8} {conts : List UInt8}
    (isChar : String.utf8EncodeChar char = ch :: conts) (notAscii : ¬ ch ≤ 0x7F) :
    PieceReads (String.utf8EncodeChar char) (String.utf8EncodeChar char) := by
  intro left res rest out rest' reads
  have decoded := SimpleUtf.utf8ToCodePtOnce_encodeChar char []
  rw [List.append_nil, isChar] at decoded
  have first := decoded
  simp only [SimpleUtf.utf8ToCodePtOnce, bind_eq_ok, Prod.exists] at first
  obtain ⟨contCount, leading, isLeading, _, _, readConts, checked⟩ := first
  have count : conts.length = contCount := by
    split at checked
    · cases checked
      exact SimpleUtf.length_of_utf8ReadConts readConts
    · cases checked
  have utf8 : Reads (parseUtf8 ch res) (conts ++ rest) (res ++ String.utf8EncodeChar char) rest := by
    refine (reads_catchUtf isLeading _).bind ?_
    rw [← count]
    refine (reads_getChars conts rest).bind ((reads_catchUtf decoded _).bind ?_)
    exact (reads_catchUtf (SimpleUtf.codePtToUtf8Once_char char) _).bind (.pure _ _)
  have big := UInt8.not_le.mp notAscii
  rw [isChar]
  refine (reads_getCharAndAdv ch _).bind (.no ?_ (.no ?_ (.no notAscii (utf8.bind reads))))
  · rintro rfl
    exact notAscii (by decide)
  · rintro rfl
    exact notAscii (by decide)

theorem pieceReads_escape {ch char : UInt8} (isEscape : escaped ch = some char) : PieceReads [0x5C,
    ch] [char] := by
  intro left res rest out rest' reads
  have something : Reads (parseEscapeSomething res) (ch :: rest) (res ++ [char]) rest := by
    refine (reads_getCharAndAdv ch rest).bind ?_
    rw [isEscape]
    exact .pure _ _
  exact (reads_getCharAndAdv _ _).bind (.no (by decide) (.yes rfl (something.bind reads)))

theorem utf16ToUtf8_eq_ok {char : Char} {units : List UInt16}
    (isUnits : SimpleUtf.utf16EncodeChar char = units) :
    SimpleUtf.utf16ToUtf8 units = .ok (String.utf8EncodeChar char) :=
  (SimpleUtf.convert_eq_ok SimpleUtf.reads_utf16 SimpleUtf.codePtToUtf8Once_char).mpr
    ⟨[char], by simp [isUnits], by simp⟩

theorem pieceReads_unit {digits : List UInt8} {val : Nat} (isUnit : HexUnit digits val) {char : Char}
    (isChar : ∀ unit : UInt16, unit.toNat = val → SimpleUtf.utf16EncodeChar char = [unit])
    (notFirst : ¬ IsFirstSurrogate val) :
    PieceReads (0x5C :: 0x75 :: digits) (String.utf8EncodeChar char) := by
  intro left res rest out rest' reads
  obtain ⟨unit, rfl, readsUnit⟩ := reads_parseUXXXX isUnit rest
  have something : Reads (parseEscapeSomething res) (0x75 :: (digits ++ rest))
      (res ++ String.utf8EncodeChar char) rest := by
    refine (reads_getCharAndAdv _ _).bind (.yes rfl (readsUnit.bind (.no ?_ ?_)))
    · rwa [isFirstSurrogate_iff]
    · exact (reads_catchUtf (utf16ToUtf8_eq_ok (isChar unit rfl)) _).bind (.pure _ _)
  exact (reads_getCharAndAdv _ _).bind (.no (by decide) (.yes rfl (something.bind reads)))

theorem pieceReads_pair {digits digits' : List UInt8} {val val' : Nat} (isUnit : HexUnit digits val)
    (isUnit' : HexUnit digits' val') (isFirst : IsFirstSurrogate val) {char : Char}
    (isChar : ∀ first second : UInt16, first.toNat = val → second.toNat = val' →
      SimpleUtf.utf16EncodeChar char = [first, second]) :
    PieceReads (0x5C :: 0x75 :: digits ++ 0x5C :: 0x75 :: digits') (String.utf8EncodeChar char) := by
  intro left res rest out rest' reads
  obtain ⟨first, rfl, readsFirst⟩ := reads_parseUXXXX isUnit (0x5C :: 0x75 :: digits' ++ rest)
  obtain ⟨second, rfl, readsSecond⟩ := reads_parseEscapeUXXXX isUnit' rest
  have something : Reads (parseEscapeSomething res) (0x75 :: (digits ++ (0x5C :: 0x75 :: digits' ++ rest)))
      (res ++ String.utf8EncodeChar char) rest := by
    refine (reads_getCharAndAdv _ _).bind (.yes rfl (readsFirst.bind ?_))
    refine .yes (isFirstSurrogate_iff.mpr isFirst) ?_
    refine readsSecond.bind ?_
    exact (reads_catchUtf (utf16ToUtf8_eq_ok (isChar first second rfl rfl)) _).bind (.pure _ _)
  rw [List.append_assoc]
  exact (reads_getCharAndAdv _ _).bind (.no (by decide) (.yes rfl (something.bind reads)))

/-- A character that is not escaped. -/
theorem pieceReads_char {char : Char} (notQuote : char.val ≠ 0x22) (notEscape : char.val ≠ 0x5C) :
    PieceReads (String.utf8EncodeChar char) (String.utf8EncodeChar char) := by
  cases isChar : String.utf8EncodeChar char with
  | nil => exact absurd isChar String.utf8EncodeChar_ne_nil
  | cons ch conts =>
    by_cases isAscii : char.val ≤ 0x7F
    · rw [utf8EncodeChar_ascii isAscii] at isChar
      injection isChar with isByte noConts
      have small := UInt32.le_iff_toNat_le.mp isAscii
      simp only [UInt32.reduceToNat] at small
      have value : ch.toNat = char.val.toNat := by
        rw [← isByte, UInt32.toNat_toUInt8]
        omega
      rw [← noConts]
      refine pieceReads_ascii ?_ ?_ ?_
      · rw [UInt8.le_iff_toNat_le, value]
        exact small
      · rintro rfl
        exact notQuote (UInt32.toNat_inj.mp value.symm)
      · rintro rfl
        exact notEscape (UInt32.toNat_inj.mp value.symm)
    · rw [← isChar]
      refine pieceReads_utf8 isChar fun isAscii' => ?_
      obtain ⟨char', value, encoding⟩ := exists_char_of_ascii isAscii'
      have read := SimpleUtf.utf8ToCodePtOnce_encodeChar char []
      have read' := SimpleUtf.utf8ToCodePtOnce_encodeChar char' conts
      rw [List.append_nil, isChar] at read
      rw [encoding, List.singleton_append, read] at read'
      injection read' with read'
      injection read' with sameVal _
      rw [sameVal, UInt32.le_iff_toNat_le, value] at isAscii
      exact isAscii (UInt8.le_iff_toNat_le.mp isAscii')

/-- Pieces with what they stand for. -/
def PiecesRead (pieces : List (List UInt8 × List UInt8)) : Prop :=
  ∀ piece ∈ pieces, piece.1 ≠ [] ∧ PieceReads piece.1 piece.2

theorem reads_parseStringLoop {pieces : List (List UInt8 × List UInt8)}
    (areRead : PiecesRead pieces) {left : Nat}
    {res rest : List UInt8} (enough : pieces.length < left) :
    Reads (parseStringLoop left res) ((pieces.map Prod.fst).flatten ++ 0x22 :: rest)
      (res ++ (pieces.map Prod.snd).flatten) rest := by
  induction left generalizing res pieces with
  | zero => cases enough
  | succ left inductionHypothesis =>
    cases pieces with
    | nil =>
      simp only [List.map_nil, List.flatten_nil, List.append_nil, List.nil_append]
      exact (reads_getCharAndAdv _ _).bind (.yes rfl (.pure _ _))
    | cons piece pieces =>
      obtain ⟨pieceReads, areRead⟩ := List.forall_mem_cons.mp areRead
      simp only [List.map_cons, List.flatten_cons, List.append_assoc]
      refine pieceReads.2 ?_
      rw [← List.append_assoc res]
      exact inductionHypothesis areRead (by simpa using enough)

theorem length_le_of_piecesRead {pieces : List (List UInt8 × List UInt8)}
    (areRead : PiecesRead pieces) :
    pieces.length ≤ (pieces.map Prod.fst).flatten.length := by
  induction pieces with
  | nil => exact Nat.zero_le _
  | cons piece pieces inductionHypothesis =>
    obtain ⟨pieceReads, areRead⟩ := List.forall_mem_cons.mp areRead
    have notEmpty := List.length_pos_iff.mpr pieceReads.1
    have behind := inductionHypothesis areRead
    simp only [List.map_cons, List.flatten_cons, List.length_append, List.length_cons]
    omega

/-- The text reads as the bytes of a string. -/
def StringReads (text bytes : List UInt8) : Prop :=
  ∀ spaces rest, Spaces spaces → Reads parseString (spaces ++ text ++ rest) bytes rest

theorem stringReads {pieces : List (List UInt8 × List UInt8)} (areRead : PiecesRead pieces) :
    StringReads (0x22 :: ((pieces.map Prod.fst).flatten ++ [0x22])) (pieces.map Prod.snd).flatten := by
  intro spaces rest areSpaces
  have text : spaces ++ 0x22 :: ((pieces.map Prod.fst).flatten ++ [0x22]) ++ rest =
      spaces ++ 0x22 :: ((pieces.map Prod.fst).flatten ++ 0x22 :: rest) := by simp
  rw [text]
  refine (reads_skipSpaceAndGetCharAndAdv areSpaces (by decide)).bind ?_
  refine .yes rfl (.get_bind fun state same => ?_)
  refine reads_parseStringLoop areRead ?_
  have atMost := length_le_of_piecesRead areRead
  rw [same, List.length_append]
  omega

theorem exists_pieceReads {piece : List UInt8} (isPiece : Piece simpleJson piece) :
    ∃ bytes, piece ≠ [] ∧ PieceReads piece bytes := by
  cases isPiece with
  | unescaped notQuote notEscape _ => exact ⟨_, String.utf8EncodeChar_ne_nil,
    pieceReads_char notQuote notEscape⟩
  | @escape ch isEscape =>
    have all : (escapes.all fun ch => (escaped ch).isSome) = true := by decide
    obtain ⟨char, isChar⟩ := Option.isSome_iff_exists.mp (List.all_eq_true.mp all ch isEscape)
    exact ⟨[char], by simp, pieceReads_escape isChar⟩
  | @unit digits val isUnit noSurrogate =>
    have noSurrogate' : ¬ IsFirstSurrogate val ∧ ¬ IsSecondSurrogate val := by
      rcases noSurrogate with holds | impossible
      · exact holds
      · cases impossible
    obtain ⟨unit, isVal, -⟩ := reads_parseUXXXX isUnit []
    obtain ⟨char, isChar⟩ := @SimpleUtf.exists_char_of_unit unit (by
      rw [isVal]
      simp only [IsFirstSurrogate, IsSecondSurrogate] at noSurrogate'
      omega)
    refine ⟨_, by simp, @pieceReads_unit digits val isUnit char (fun unit' isVal' => ?_) noSurrogate'.1⟩
    rw [UInt16.toNat_inj.mp (isVal'.trans isVal.symm), isChar]
  | @pair digits digits' val val' isUnit isUnit' isFirst isSecond =>
    obtain ⟨first, isVal, -⟩ := reads_parseUXXXX isUnit []
    obtain ⟨second, isVal', -⟩ := reads_parseUXXXX isUnit' []
    obtain ⟨char, isChar⟩ := SimpleUtf.exists_char_of_pair (isVal ▸ isFirst) (isVal' ▸ isSecond)
    refine ⟨_, by simp, @pieceReads_pair digits digits' val val' isUnit isUnit' isFirst char
      fun first' second' same same' => ?_⟩
    rw [UInt16.toNat_inj.mp (same.trans isVal.symm),
      UInt16.toNat_inj.mp (same'.trans isVal'.symm), isChar]

theorem exists_stringReads {text : List UInt8} (isString : Str simpleJson text) :
    ∃ bytes, StringReads text bytes := by
  obtain ⟨arePieces⟩ := isString
  rename_i pieces
  obtain ⟨read, isRead, areRead⟩ : ∃ read : List (List UInt8 × List UInt8),
      read.map Prod.fst = pieces ∧ PiecesRead read := by
    induction pieces with
    | nil => exact ⟨[], rfl, by simp [PiecesRead]⟩
    | cons piece pieces inductionHypothesis =>
      obtain ⟨isPiece, arePieces⟩ := List.forall_mem_cons.mp arePieces
      obtain ⟨bytes, pieceReads⟩ := exists_pieceReads isPiece
      obtain ⟨read, rfl, areRead⟩ := inductionHypothesis arePieces
      exact ⟨(piece, bytes) :: read, rfl, List.forall_mem_cons.mpr ⟨pieceReads, areRead⟩⟩
  rw [← isRead]
  exact ⟨_, stringReads areRead⟩

/-! ## Values -/

/-- The text reads as the object wherever it stands; the depth is what its length asks for. -/
structure ReadAs {Obj : Type} (types : ObjectTypes Obj) (text : List UInt8) (obj : Obj) : Prop where
  starts : ∃ ch tail, text = ch :: tail ∧ isSpaceCh ch = false ∧ ch ≠ 0x5D
  reads : ∀ depth spaces rest, text.length < depth → Spaces spaces → Delimited rest →
    Reads (parse types depth) (spaces ++ text ++ rest) obj rest

theorem delimited_of_head {ch : UInt8} {rest : List UInt8}
    (noNumber : isDigit ch = false ∧ ch ≠ 0x2E ∧ ch ≠ 0x65 ∧ ch ≠ 0x45) : Delimited (ch :: rest) := by
  intro ch' isHead
  cases isHead
  exact noNumber

theorem delimited_of_space {ch : UInt8} (isSpace : isSpaceCh ch = true) :
    isDigit ch = false ∧ ch ≠ 0x2E ∧ ch ≠ 0x65 ∧ ch ≠ 0x45 := by
  revert ch
  apply forall_byte
  decide +kernel

/-- White space and then a delimiter. -/
theorem delimited_append {spaces rest : List UInt8} (areSpaces : Spaces spaces)
    (delimited : Delimited rest) :
    Delimited (spaces ++ rest) := by
  cases spaces with
  | nil => exact delimited
  | cons ch spaces => exact delimited_of_head (delimited_of_space (areSpaces ch List.mem_cons_self))

section

variable {Obj : Type} {types : ObjectTypes Obj}

theorem readAs_null : ReadAs types [0x6E, 0x75, 0x6C, 0x6C] types.null where
  starts := ⟨_, _, rfl, by decide, by decide⟩
  reads := by
    intro depth spaces rest enough areSpaces _
    obtain ⟨depth, rfl⟩ : ∃ below, depth = below + 1 := ⟨depth - 1, by omega⟩
    have null : Reads parseNull (0x6E :: ([0x75, 0x6C, 0x6C] ++ rest)) () rest :=
      (reads_skipSpaceAndGetCharAndAdv Spaces.nil (by decide)).bind (.yes rfl
        ((reads_expectChars _ _).bind (.yes rfl (.pure _ _))))
    rw [List.append_assoc]
    exact (reads_skipSpaceAndGetChar areSpaces (by decide)).bind (.yes rfl (null.bind (.pure _ _)))

theorem readAs_true : ReadAs types [0x74, 0x72, 0x75, 0x65] (types.bool true) where
  starts := ⟨_, _, rfl, by decide, by decide⟩
  reads := by
    intro depth spaces rest enough areSpaces _
    obtain ⟨depth, rfl⟩ : ∃ below, depth = below + 1 := ⟨depth - 1, by omega⟩
    have bool : Reads parseBool (0x74 :: ([0x72, 0x75, 0x65] ++ rest)) true rest :=
      (reads_skipSpaceAndGetCharAndAdv Spaces.nil (by decide)).bind (.no (by decide) (.yes rfl
        ((reads_expectChars _ _).bind (.yes rfl (.pure _ _)))))
    rw [List.append_assoc]
    exact (reads_skipSpaceAndGetChar areSpaces (by decide)).bind (.no (by decide) (.yes (.inl rfl)
      (bool.bind (.pure _ _))))

theorem readAs_false : ReadAs types [0x66, 0x61, 0x6C, 0x73, 0x65] (types.bool false) where
  starts := ⟨_, _, rfl, by decide, by decide⟩
  reads := by
    intro depth spaces rest enough areSpaces _
    obtain ⟨depth, rfl⟩ : ∃ below, depth = below + 1 := ⟨depth - 1, by omega⟩
    have bool : Reads parseBool (0x66 :: ([0x61, 0x6C, 0x73, 0x65] ++ rest)) false rest :=
      (reads_skipSpaceAndGetCharAndAdv Spaces.nil (by decide)).bind (.yes rfl
        ((reads_expectChars _ _).bind (.yes rfl (.pure _ _))))
    rw [List.append_assoc]
    exact (reads_skipSpaceAndGetChar areSpaces (by decide)).bind (.no (by decide) (.yes (.inr rfl)
      (bool.bind (.pure _ _))))

/-- The first character of a number. -/
theorem number_head {minus int : List UInt8} (isMinus : minus = [] ∨ minus = [0x2D])
    (isInt : IntPart int) :
    ∃ ch tail, minus ++ int = ch :: tail ∧ (ch = 0x2D ∨ isDigit ch = true) := by
  rcases isMinus with rfl | rfl
  · cases isInt with
    | zero => exact ⟨_, _, rfl, .inr rfl⟩
    | nonzero areDigits _ =>
      cases int with
      | nil => exact absurd rfl areDigits.1
      | cons ch tail => exact ⟨ch, tail, rfl,
        .inr (isDigit_iff.mpr (areDigits.2 ch List.mem_cons_self))⟩
  · exact ⟨_, _, rfl, .inl rfl⟩

theorem numberChar {ch : UInt8} (isFirst : ch = 0x2D ∨ isDigit ch = true) : isSpaceCh ch = false ∧
    ch ≠ 0x5D ∧ ch ≠ 0x6E ∧ ch ≠ 0x74 ∧ ch ≠ 0x66 := by
  revert ch
  apply forall_byte
  decide +kernel

theorem readAs_number {minus int frac exp : List UInt8} (isMinus : minus = [] ∨ minus = [0x2D])
    (isInt : IntPart int) (isFrac : Frac frac) (isExp : Exp exp) :
    ∃ obj, ReadAs types (minus ++ int ++ frac ++ exp) obj ∧
      (frac = [] → exp = [] → obj = types.int (.cast .int64 (atoll (minus ++ int)))) := by
  obtain ⟨ch, tail, isText, isFirst⟩ := number_head isMinus isInt
  obtain ⟨notSpace, notEnd, notN, notT, notF⟩ := numberChar isFirst
  obtain ⟨out, isOut, readsNum⟩ := reads_parseNum isMinus isInt isFrac isExp
  let obj := if 0 < (frac ++ out).length then types.real (minus ++ int ++ (frac ++ out))
    else types.int (.cast .int64 (atoll (minus ++ int ++ (frac ++ out))))
  have starts : minus ++ int ++ frac ++ exp = ch :: (tail ++ frac ++ exp) := by
    rw [isText]
    simp
  refine ⟨obj, ⟨⟨ch, _, starts, notSpace, notEnd⟩,
    fun depth spaces rest enough areSpaces delimited => ?_⟩, ?_⟩
  · obtain ⟨depth, rfl⟩ : ∃ below, depth = below + 1 := ⟨depth - 1, by omega⟩
    have number : Reads (parseNumber types) (minus ++ int ++ frac ++ exp ++ rest) obj rest := by
      refine (reads_skipWhiteSpace _).bind ?_
      have noSpaces : (minus ++ int ++ frac ++ exp ++ rest).dropWhile isSpaceCh =
          minus ++ int ++ frac ++ exp ++ rest := by
        rw [starts, List.cons_append, List.dropWhile_cons_of_neg (by simp [notSpace])]
      rw [noSpaces]
      refine (readsNum rest delimited).bind ?_
      by_cases isReal : 0 < (frac ++ out).length
      · refine .yes isReal ?_
        rw [show obj = types.real _ from if_pos isReal]
        exact .pure _ _
      · refine .no isReal ?_
        rw [show obj = types.int _ from if_neg isReal]
        exact .pure _ _
    rw [List.append_assoc, starts, List.cons_append]
    refine (reads_skipSpaceAndGetChar areSpaces notSpace).bind (.no notN (.no ?_ (.yes isFirst ?_)))
    · exact not_or.mpr ⟨notT, notF⟩
    · rwa [starts, List.cons_append] at number
  · rintro rfl noExp
    have noOut := isOut noExp
    simp only [obj, noOut, List.append_nil, List.length_nil, lt_irrefl, if_false]

theorem readAs_string {tail bytes : List UInt8} (reads : StringReads (0x22 :: tail) bytes) :
    ReadAs types (0x22 :: tail) (types.string bytes) := by
  refine ⟨⟨_, _, rfl, by decide, by decide⟩, fun depth spaces rest enough areSpaces _ => ?_⟩
  obtain ⟨depth, rfl⟩ : ∃ below, depth = below + 1 := ⟨depth - 1, by omega⟩
  rw [List.append_assoc]
  refine (reads_skipSpaceAndGetChar areSpaces (by decide)).bind ?_
  refine .no (by decide) (.no (by decide) (.no (by decide) (.yes rfl ?_)))
  exact (reads [] rest Spaces.nil).bind (.pure _ _)

/-! ## Containers -/

/-- What follows an item: white space, or white space, a comma and further items. -/
inductive Following {α : Type} (isItem : List UInt8 → α → Prop) : List UInt8 → List α → Prop where
  | none {after : List UInt8} (areSpaces : Spaces after) : Following isItem after []
  | more {after text tail : List UInt8} {item : α} {items : List α} (areSpaces : Spaces after)
      (itemText : isItem text item) (following : Following isItem tail items) :
      Following isItem (after ++ 0x2C :: (text ++ tail)) (item :: items)

/-- What follows an item, with the bracket behind it, ends a number. -/
theorem Following.delimited {α : Type} {isItem : List UInt8 → α → Prop} {tail : List UInt8}
    {items : List α} (following : Following isItem tail items) {bracket : UInt8} (rest : List UInt8)
    (noNumber : isDigit bracket = false ∧ bracket ≠ 0x2E ∧ bracket ≠ 0x65 ∧ bracket ≠ 0x45) :
    Delimited (tail ++ bracket :: rest) := by
  cases following with
  | none areSpaces => exact delimited_append areSpaces (delimited_of_head noNumber)
  | more areSpaces _ _ =>
    rw [List.append_assoc]
    exact delimited_append areSpaces (delimited_of_head (by decide))

/-- White space and an item of a list. -/
def ListItem (types : ObjectTypes Obj) (text : List UInt8) (obj : Obj) : Prop :=
  ∃ before value, Spaces before ∧ ReadAs types value obj ∧ text = before ++ value

theorem ListItem.reads {text tail : List UInt8} {obj : Obj} {objs : List Obj} {depth : Nat}
    (item : ListItem types text obj) (following : Following (ListItem types) tail objs)
    (enough : text.length < depth) (rest : List UInt8) :
    Reads (parse types depth) (text ++ (tail ++ 0x5D :: rest)) obj (tail ++ 0x5D :: rest) := by
  obtain ⟨before, value, areSpaces, readAs, rfl⟩ := item
  rw [List.length_append] at enough
  exact readAs.reads depth before _ (by omega) areSpaces (following.delimited rest (by decide))

theorem reads_parseListLoop {tail : List UInt8} {objs : List Obj} {depth left : Nat} (l : List Obj)
    (following : Following (ListItem types) tail objs) (enough : tail.length < depth)
    (enough' : tail.length < left)
    (rest : List UInt8) :
    Reads (parseListLoop (parse types depth) left l) (tail ++ 0x5D :: rest) (l ++ objs) rest := by
  induction following generalizing left l with
  | none areSpaces =>
    obtain ⟨left, rfl⟩ : ∃ below, left = below + 1 := ⟨left - 1, by omega⟩
    rw [List.append_nil]
    exact (reads_skipSpaceAndGetChar areSpaces (by decide)).bind (.no (by decide) (.yes rfl
      ((reads_getCharAndAdv _ _).bind (.pure _ _))))
  | @more after text tail obj objs areSpaces item following inductionHypothesis =>
    obtain ⟨left, rfl⟩ : ∃ below, left = below + 1 := ⟨left - 1, by omega⟩
    simp only [List.length_append, List.length_cons] at enough enough'
    rw [List.append_assoc, List.cons_append, List.append_assoc, List.append_cons l obj objs]
    refine (reads_skipSpaceAndGetChar areSpaces (by decide)).bind (.yes rfl ((reads_getCharAndAdv _ _).bind ?_))
    refine (item.reads following (by omega) rest).bind ?_
    exact inductionHypothesis (l ++ [obj]) (by omega) (by omega)

theorem readAs_emptyList {spaces : List UInt8} (areSpaces : Spaces spaces) :
    ReadAs types (0x5B :: (spaces ++ [0x5D])) (types.list []) where
  starts := ⟨_, _, rfl, by decide, by decide⟩
  reads := by
    intro depth spaces' rest enough areSpaces' _
    obtain ⟨depth, rfl⟩ : ∃ below, depth = below + 1 := ⟨depth - 1, by omega⟩
    have list : Reads (parseList (parse types depth)) (0x5B :: (spaces ++ 0x5D :: rest)) [] rest :=
      (reads_skipSpaceAndGetCharAndAdv Spaces.nil (by decide)).bind (.yes rfl
        ((reads_skipSpaceAndGetChar areSpaces (by decide)).bind (.yes rfl
          ((reads_getCharAndAdv _ _).bind (.pure _ _)))))
    rw [List.append_assoc, List.cons_append, List.append_assoc]
    exact (reads_skipSpaceAndGetChar areSpaces' (by decide)).bind (.no (by decide) (.no (by decide)
      (.no (by decide) (.no (by decide) (.yes rfl (list.bind (.pure _ _)))))))

theorem readAs_list {text tail : List UInt8} {obj : Obj} {objs : List Obj}
    (item : ListItem types text obj) (following : Following (ListItem types) tail objs) :
    ReadAs types (0x5B :: (text ++ tail ++ [0x5D])) (types.list (obj :: objs)) where
  starts := ⟨_, _, rfl, by decide, by decide⟩
  reads := by
    intro depth spaces rest enough areSpaces _
    obtain ⟨depth, rfl⟩ : ∃ below, depth = below + 1 := ⟨depth - 1, by omega⟩
    simp only [List.length_cons, List.length_append, List.length_nil] at enough
    obtain ⟨before, value, areSpaces', readAs, rfl⟩ := item
    obtain ⟨ch, value', rfl, notSpace, notEnd⟩ := readAs.starts
    rw [List.length_append] at enough
    have readsItem := readAs.reads depth [] (tail ++ 0x5D :: rest) (by omega) Spaces.nil
      (following.delimited rest (by decide))
    have list : Reads (parseList (parse types depth))
        (0x5B :: (before ++ (ch :: value' ++ (tail ++ 0x5D :: rest))))
        (obj :: objs) rest := by
      refine (reads_skipSpaceAndGetCharAndAdv Spaces.nil (by decide)).bind (.yes rfl ?_)
      refine (reads_skipSpaceAndGetChar areSpaces' notSpace).bind (.no notEnd (readsItem.bind ?_))
      refine .get_bind fun state same => ?_
      refine reads_parseListLoop [obj] following (by omega) ?_ rest
      rw [same, List.length_append]
      omega
    rw [List.append_assoc, List.cons_append, List.append_assoc, List.append_assoc, List.append_assoc]
    exact (reads_skipSpaceAndGetChar areSpaces (by decide)).bind (.no (by decide) (.no (by decide)
      (.no (by decide) (.no (by decide) (.yes rfl (list.bind (.pure _ _)))))))

/-- White space, a name, a colon and a value. -/
inductive DictItem (types : ObjectTypes Obj) : List UInt8 → List UInt8 × Obj → Prop where
  | of {before name colon ahead value k : List UInt8} {v : Obj} (areSpaces : Spaces before)
      (stringReads : StringReads (0x22 :: name) k) (colonSpaces : Spaces colon)
      (aheadSpaces : Spaces ahead)
      (readAs : ReadAs types value v) :
      DictItem types (before ++ (0x22 :: name ++ colon ++ 0x3A :: (ahead ++ value))) (k, v)

def insertAll (d entries : List (List UInt8 × Obj)) : List (List UInt8 × Obj) :=
  entries.foldl (fun d entry => insertOrAssign d entry.1 entry.2) d

theorem reads_parseEntry {before name colon ahead value k rest : List UInt8} {v : Obj} {depth : Nat}
    (areSpaces : Spaces before) (stringReads : StringReads (0x22 :: name) k)
    (colonSpaces : Spaces colon)
    (aheadSpaces : Spaces ahead) (readAs : ReadAs types value v) (enough : value.length < depth)
    (delimited : Delimited rest) (d : List (List UInt8 × Obj)) :
    Reads (parseEntry (parse types depth) d)
      (before ++ (0x22 :: name ++ colon ++ 0x3A :: (ahead ++ value)) ++ rest)
      (insertOrAssign d k v) rest := by
  have readsValue := readAs.reads depth ahead rest enough aheadSpaces delimited
  have readsName := stringReads before (colon ++ 0x3A :: (ahead ++ value ++ rest)) areSpaces
  have text : before ++ (0x22 :: name ++ colon ++ 0x3A :: (ahead ++ value)) ++ rest =
      before ++ 0x22 :: name ++ (colon ++ 0x3A :: (ahead ++ value ++ rest)) := by simp
  rw [text]
  exact readsName.bind ((reads_expDelimiter colonSpaces (by decide)).bind (readsValue.bind (.pure _ _)))

theorem reads_parseDictLoop {tail : List UInt8} {entries : List (List UInt8 × Obj)} {depth left : Nat}
    (d : List (List UInt8 × Obj)) (following : Following (DictItem types) tail entries)
    (enough : tail.length < depth) (enough' : tail.length < left) (rest : List UInt8) :
    Reads (parseDictLoop (parse types depth) left d) (tail ++ 0x7D :: rest) (insertAll d entries) rest := by
  induction following generalizing left d with
  | none areSpaces =>
    obtain ⟨left, rfl⟩ : ∃ below, left = below + 1 := ⟨left - 1, by omega⟩
    exact (reads_skipSpaceAndGetChar areSpaces (by decide)).bind (.no (by decide) (.yes rfl
      ((reads_getCharAndAdv _ _).bind (.pure _ _))))
  | @more after text tail entry entries areSpaces item following inductionHypothesis =>
    obtain ⟨left, rfl⟩ : ∃ below, left = below + 1 := ⟨left - 1, by omega⟩
    obtain ⟨beforeSpaces, stringReads, colonSpaces, aheadSpaces, readAs⟩ := item
    simp only [List.length_append, List.length_cons] at enough enough'
    have delimited := @Following.delimited _ _ _ _ following 0x7D rest (by decide)
    have readsEntry := reads_parseEntry beforeSpaces stringReads colonSpaces aheadSpaces readAs
      (show _ < depth by omega) delimited d
    rw [List.append_assoc, List.cons_append, List.append_assoc]
    refine (reads_skipSpaceAndGetChar areSpaces (by decide)).bind (.yes rfl ((reads_getCharAndAdv _ _).bind ?_))
    exact readsEntry.bind (inductionHypothesis _ (by omega) (by omega))

theorem readAs_emptyDict {spaces : List UInt8} (areSpaces : Spaces spaces) :
    ReadAs types (0x7B :: (spaces ++ [0x7D])) (types.dict []) where
  starts := ⟨_, _, rfl, by decide, by decide⟩
  reads := by
    intro depth spaces' rest enough areSpaces' _
    obtain ⟨depth, rfl⟩ : ∃ below, depth = below + 1 := ⟨depth - 1, by omega⟩
    have dict : Reads (parseDict (parse types depth)) (0x7B :: (spaces ++ 0x7D :: rest)) [] rest :=
      (reads_skipSpaceAndGetCharAndAdv Spaces.nil (by decide)).bind (.yes rfl
        ((reads_skipSpaceAndGetChar areSpaces (by decide)).bind (.yes rfl
          ((reads_getCharAndAdv _ _).bind (.pure _ _)))))
    rw [List.append_assoc, List.cons_append, List.append_assoc]
    exact (reads_skipSpaceAndGetChar areSpaces' (by decide)).bind (.no (by decide) (.no (by decide)
      (.no (by decide) (.no (by decide) (.no (by decide) (.yes rfl (dict.bind (.pure _ _))))))))

theorem readAs_dict {text tail : List UInt8} {entry : List UInt8 × Obj}
    {entries : List (List UInt8 × Obj)}
    (item : DictItem types text entry) (following : Following (DictItem types) tail entries) :
    ReadAs types (0x7B :: (text ++ tail ++ [0x7D])) (types.dict (insertAll [] (entry :: entries))) where
  starts := ⟨_, _, rfl, by decide, by decide⟩
  reads := by
    intro depth spaces rest enough areSpaces _
    obtain ⟨depth, rfl⟩ : ∃ below, depth = below + 1 := ⟨depth - 1, by omega⟩
    obtain ⟨beforeSpaces, stringReads, colonSpaces, aheadSpaces, readAs⟩ := item
    rename_i before name colon ahead value k v
    simp only [List.length_cons, List.length_append, List.length_nil] at enough
    have delimited := @Following.delimited _ _ _ _ following 0x7D rest (by decide)
    have readsEntry := reads_parseEntry Spaces.nil stringReads colonSpaces aheadSpaces readAs
      (show _ < depth by omega) delimited []
    have dict : Reads (parseDict (parse types depth)) (0x7B :: (before ++ (0x22 :: name ++ colon ++
        0x3A :: (ahead ++ value) ++ (tail ++ 0x7D :: rest)))) (insertAll [] ((k, v) :: entries)) rest := by
      refine (reads_skipSpaceAndGetCharAndAdv Spaces.nil (by decide)).bind (.yes rfl ?_)
      refine (reads_skipSpaceAndGetChar beforeSpaces (by decide)).bind (.no (by decide) (readsEntry.bind ?_))
      refine .get_bind fun state same => ?_
      refine reads_parseDictLoop _ following (by omega) ?_ rest
      rw [same, List.length_append]
      omega
    have whole :
        spaces ++ 0x7B ::
            (before ++ (0x22 :: name ++ colon ++ 0x3A :: (ahead ++ value)) ++ tail ++ [0x7D]) ++ rest =
          spaces ++ 0x7B :: (before ++ (0x22 :: name ++ colon ++ 0x3A :: (ahead ++ value) ++
            (tail ++ 0x7D :: rest))) := by
      simp
    rw [whole]
    exact (reads_skipSpaceAndGetChar areSpaces (by decide)).bind (.no (by decide) (.no (by decide)
      (.no (by decide) (.no (by decide) (.no (by decide) (.yes rfl (dict.bind (.pure _ _))))))))

/-! ## The grammar -/

/-- A text of items with what follows each. -/
def ItemsText {α : Type} (isItem : List UInt8 → α → Prop) (text : List UInt8) : Prop :=
  ∃ first tail item items, text = first ++ tail ∧ isItem first item ∧ Following isItem tail items

mutual

theorem exists_readAs {text : List UInt8}
    (isValue : Value simpleJson text) : ∃ obj, ReadAs types text obj := by
  match isValue with
  | .null => exact ⟨_, readAs_null⟩
  | .true => exact ⟨_, readAs_true⟩
  | .false => exact ⟨_, readAs_false⟩
  | .number isNumber =>
    obtain ⟨isMinus, isInt, isFrac, isExp⟩ := isNumber
    obtain ⟨obj, readAs, -⟩ := readAs_number isMinus isInt isFrac isExp
    exact ⟨obj, readAs⟩
  | .string isString =>
    obtain ⟨bytes, reads⟩ := exists_stringReads isString
    cases isString
    exact ⟨_, readAs_string reads⟩
  | .emptyArray isWs => exact ⟨_, readAs_emptyList (spaces_iff.mpr isWs)⟩
  | .array elements =>
    obtain ⟨first, tail, obj, objs, rfl, item, following⟩ := itemsText_of_elements elements
    exact ⟨_, readAs_list item following⟩
  | .emptyObject isWs => exact ⟨_, readAs_emptyDict (spaces_iff.mpr isWs)⟩
  | .object members =>
    obtain ⟨first, tail, entry, entries, rfl, item, following⟩ := itemsText_of_members members
    exact ⟨_, readAs_dict item following⟩

theorem itemsText_of_elements {text : List UInt8} (elements : Elements simpleJson text) :
    ItemsText (ListItem types) text := by
  match elements with
  | .last isWs isValue isWs' =>
    obtain ⟨obj, readAs⟩ := exists_readAs isValue
    exact ⟨_, _, obj, [], rfl, ⟨_, _, spaces_iff.mpr isWs, readAs, rfl⟩, .none (spaces_iff.mpr isWs')⟩
  | .more isWs isValue isWs' elements =>
    obtain ⟨obj, readAs⟩ := exists_readAs isValue
    obtain ⟨first, tail, obj', objs, rfl, item, following⟩ := itemsText_of_elements elements
    exact ⟨_, _, obj, obj' :: objs, List.append_assoc _ _ _, ⟨_, _, spaces_iff.mpr isWs, readAs, rfl⟩,
      .more (spaces_iff.mpr isWs') item following⟩

theorem itemsText_of_members {text : List UInt8} (members : Members simpleJson text) :
    ItemsText (DictItem types) text := by
  match members with
  | @Members.last _ before name colon ahead value after isWs isName isColon isWs' isValue isWs'' =>
    obtain ⟨v, readAs⟩ := exists_readAs isValue
    obtain ⟨k, reads⟩ := exists_stringReads isName
    cases isName
    refine ⟨_, after, (k, v), [], ?_, .of (spaces_iff.mpr isWs) reads (spaces_iff.mpr isColon)
      (spaces_iff.mpr isWs') readAs, .none (spaces_iff.mpr isWs'')⟩
    simp
  | @Members.more _ before name colon ahead value after rest isWs isName isColon isWs' isValue isWs'' members =>
    obtain ⟨v, readAs⟩ := exists_readAs isValue
    obtain ⟨k, reads⟩ := exists_stringReads isName
    obtain ⟨first, tail, entry, entries, rfl, item, following⟩ := itemsText_of_members members
    cases isName
    refine ⟨_, after ++ 0x2C :: (first ++ tail), (k, v), entry :: entries, ?_,
      .of (spaces_iff.mpr isWs) reads (spaces_iff.mpr isColon) (spaces_iff.mpr isWs') readAs,
      .more (spaces_iff.mpr isWs'') item following⟩
    simp

end

theorem parseTillEnd_of_readAs {before value after : List UInt8} {obj : Obj} (areSpaces : Spaces before)
    (readAs : ReadAs types value obj) (areSpaces' : Spaces after) :
    ∃ state, parseTillEnd types (before ++ value ++ after) = .ok obj state := by
  obtain ⟨ch, tail, isValue, -, -⟩ := readAs.starts
  have noneLeft : after.dropWhile isSpaceCh = [] := List.dropWhile_eq_nil_iff.mpr areSpaces'
  have delimited : Delimited after := by
    have ended := delimited_append areSpaces' (show Delimited [] by simp [Delimited])
    rwa [List.append_nil] at ended
  have reads : Reads (if before ++ value ++ after = [] then raise "Input string ends unexpectedly"
      else do
        let res ← parse types ((before ++ value ++ after).length + 1)
        skipWhiteSpace
        let atEnd ← isEnd
        if ¬ atEnd then raise "Extra Data" else pure res : Parser Obj) (before ++ value ++ after) obj [] := by
    refine .no (by simp [isValue]) ?_
    refine (readAs.reads _ before after ?_ areSpaces delimited).bind ((reads_skipWhiteSpace after).bind ?_)
    · simp only [List.length_append]
      omega
    · rw [noneLeft]
      exact (reads_isEnd []).bind (.no (by simp) (.pure _ _))
  obtain ⟨state, returned, -⟩ := reads ⟨before ++ value ++ after, 0, 0⟩ rfl
  exact ⟨state, returned⟩

theorem parseTillEnd_complete {ctn : List UInt8} (isText : Text simpleJson ctn) :
    ∃ obj state, parseTillEnd types ctn = .ok obj state := by
  obtain ⟨isWs, isValue, isWs'⟩ := isText
  obtain ⟨obj, readAs⟩ := @exists_readAs Obj types _ isValue
  exact ⟨obj, parseTillEnd_of_readAs (spaces_iff.mpr isWs) readAs (spaces_iff.mpr isWs')⟩

end

end Decentagram.SimpleJson
