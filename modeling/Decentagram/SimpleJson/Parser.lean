import Decentagram.SimpleJson.InputStateMachine
import Decentagram.SimpleObjects.Object
import Decentagram.SimpleUtf.Utf

/-! # The generic parser

The parsers of SimpleJson for each kind of value, and `GenericObjectParser` over the types of the
objects it makes.
-/

namespace Decentagram.SimpleJson

open Decentagram.Lib Decentagram.SimpleObjects

/-! ## Literals -/

/-- The `&&` of comparisons with the characters of a literal, where the first difference ends the
    reading. -/
def expectChars : List UInt8 → Parser Bool
  | [] => pure true
  | expected :: rest => do
    let ch ← getCharAndAdv
    if ch = expected then expectChars rest else pure false

def parseNull : Parser Unit := do
  let ch ← skipSpaceAndGetCharAndAdv
  if ch = chr 'n' then
    let isNull ← expectChars [chr 'u', chr 'l', chr 'l']
    if isNull then pure () else raise "Unexpected character"
  else raise "Unexpected character"

def parseBool : Parser Bool := do
  let firstCh ← skipSpaceAndGetCharAndAdv
  if firstCh = chr 'f' then
    let isFalse ← expectChars [chr 'a', chr 'l', chr 's', chr 'e']
    if isFalse then pure false else raise "Unexpected character"
  else if firstCh = chr 't' then
    let isTrue ← expectChars [chr 'r', chr 'u', chr 'e']
    if isTrue then pure true else raise "Unexpected character"
  else raise "Unexpected character"

/-! ## Numbers -/

def isDigit (ch : UInt8) : Bool := chr '0' ≤ ch && ch ≤ chr '9'

/-- Whether the number is positive. -/
def parseNSign (isOptional : Bool) : Parser Bool := do
  let ch ← getChar
  if ch = chr '-' then
    let _ ← getCharAndAdv
    pure false
  else if isOptional then pure true
  else raise "Expecting a negative sign"

def parseNorPSign (isOptional : Bool) : Parser Bool := do
  let ch ← getChar
  if ch = chr '-' then
    let _ ← getCharAndAdv
    pure false
  else if ch = chr '+' then
    let _ ← getCharAndAdv
    pure true
  else if isOptional then pure true
  else raise "Expecting a numeric sign"

/-- The loop of `ParseNumDigits` behind `dest`.  The number bounds the rounds: each one reads a
    digit. -/
def parseNumDigitsLoop : Nat → List UInt8 → Parser (List UInt8)
  | 0, _ => Exec.undefined
  | left + 1, dest => do
    let atEnd ← isEnd
    if atEnd then
      if dest.length = 0 then raise "Unexpected Ends" else pure dest
    else
      let ch ← getChar
      if isDigit ch then
        let ch ← getCharAndAdv
        parseNumDigitsLoop left (dest ++ [ch])
      else if dest.length = 0 then raise "Expecting a numeric value"
      else pure dest

def parseNumDigits : Parser (List UInt8) := do
  let state ← Exec.get
  parseNumDigitsLoop (state.rest.length + 1) []

def parseInt : Parser (List UInt8) := do
  let ch ← getChar
  if ch = chr '0' then
    let ch ← getCharAndAdv
    pure [ch]
  else if isDigit ch then parseNumDigits
  else raise "Expecting a numeric value"

def parseFrac (isOptional : Bool) : Parser (List UInt8) := do
  let atEnd ← isEnd
  if atEnd ∧ isOptional then pure []
  else
    let ch ← getChar
    if ch = chr '.' then
      let _ ← getCharAndAdv
      let digits ← parseNumDigits
      pure (chr '.' :: digits)
    else if ¬ isOptional then raise "Expecting a decimal point"
    else pure []

def parseExp (isOptional : Bool) : Parser (List UInt8) := do
  let atEnd ← isEnd
  if atEnd ∧ isOptional then pure []
  else
    let ch ← getChar
    if ch = chr 'e' ∨ ch = chr 'E' then
      let _ ← getCharAndAdv
      let positive ← parseNorPSign true
      let digits ← parseNumDigits
      pure (chr 'e' :: ((if positive then [] else [chr '-']) ++ digits))
    else if ¬ isOptional then raise "Expecting an exponential sign"
    else pure []

/-- The integer part with its sign, and the fraction with the exponent. -/
def parseNum : Parser (List UInt8 × List UInt8) := do
  let positive ← parseNSign true
  let digits ← parseInt
  let frac ← parseFrac true
  let exp ← parseExp true
  pure ((if positive then [] else [chr '-']) ++ digits, frac ++ exp)

/-- `atoll` of digits with an optional sign.  Out of the range of `long long` the standard leaves
    the result undefined, and the usual libraries return the nearest value in range. -/
def atoll (text : List UInt8) : Int :=
  let digits := text.dropWhile (· = chr '-')
  let magnitude : Int := digits.foldl (fun value digit => 10 * value + (digit.toNat - 48)) 0
  let value := if text.head? = some (chr '-') then -magnitude else magnitude
  max (RealNumType.lowest .int64) (min (RealNumType.max .int64) value)

/-! ## Strings -/

/-- The `catch` of the exceptions of SimpleUtf. -/
def catchUtf {α : Type} : Except SimpleUtf.Exception α → Parser α
  | .ok value => pure value
  | .error (.utfConversion issue) => raise ("Invalid Unicode - " ++ issue)
  | .error .readPastEnd => Exec.undefined

def hexVal (ch : UInt8) : Option UInt16 :=
  if isDigit ch then some (ch - chr '0').toUInt16
  else if chr 'A' ≤ ch ∧ ch ≤ chr 'F' then some ((ch - chr 'A') + 0x0A).toUInt16
  else if chr 'a' ≤ ch ∧ ch ≤ chr 'f' then some ((ch - chr 'a') + 0x0A).toUInt16
  else none

def parseHexDigits : Nat → UInt16 → Parser UInt16
  | 0, res => pure res
  | left + 1, res => do
    let ch ← getCharAndAdv
    match hexVal ch with
    | some digit => parseHexDigits left (res <<< 4 ||| digit)
    | none => raise "Invalid \\uXXXX escape"

def parseUXXXX : Parser UInt16 := parseHexDigits 4 0

def parseEscapeUXXXX : Parser UInt16 := do
  let isEscape ← expectChars [chr '\\', chr 'u']
  if isEscape then parseUXXXX else raise "Unexpected character"

/-- What is escaped by one character. -/
def escaped (ch : UInt8) : Option UInt8 :=
  if ch = chr '\x22' then some (chr '\x22')
  else if ch = chr '\\' then some (chr '\\')
  else if ch = chr '/' then some (chr '/')
  else if ch = chr 'b' then some 0x08
  else if ch = chr 'f' then some 0x0C
  else if ch = chr 'n' then some (chr '\n')
  else if ch = chr 'r' then some (chr '\r')
  else if ch = chr 't' then some (chr '\t')
  else none

def parseEscapeSomething (res : List UInt8) : Parser (List UInt8) := do
  let ch ← getCharAndAdv
  match escaped ch with
  | some char => pure (res ++ [char])
  | none =>
    if ch = chr 'u' then
      let first ← parseUXXXX
      if SimpleUtf.isUtf16SurrogateFirst first then
        let second ← parseEscapeUXXXX
        let bytes ← catchUtf (SimpleUtf.utf16ToUtf8 [first, second])
        pure (res ++ bytes)
      else
        let bytes ← catchUtf (SimpleUtf.utf16ToUtf8 [first])
        pure (res ++ bytes)
    else raise "Unexpected character"

def getChars : Nat → Parser (List UInt8)
  | 0 => pure []
  | left + 1 => do
    let ch ← getCharAndAdv
    let rest ← getChars left
    pure (ch :: rest)

/-- A character of several bytes, which is read as UTF-8 and written again. -/
def parseUtf8 (ch : UInt8) (res : List UInt8) : Parser (List UInt8) := do
  let (contCount, _) ← catchUtf (SimpleUtf.utf8ReadLeading ch)
  let conts ← getChars contCount
  let (codePt, _) ← catchUtf (SimpleUtf.utf8ToCodePtOnce (ch :: conts))
  let bytes ← catchUtf (SimpleUtf.codePtToUtf8Once codePt)
  pure (res ++ bytes)

/-- The loop of the string parser behind the opening quote.  The number bounds the rounds: each one
    reads a character. -/
def parseStringLoop : Nat → List UInt8 → Parser (List UInt8)
  | 0, _ => Exec.undefined
  | left + 1, res => do
    let ch ← getCharAndAdv
    if ch = chr '\x22' then pure res
    else if ch = chr '\\' then
      let res ← parseEscapeSomething res
      parseStringLoop left res
    else if ch ≤ 0x7F then parseStringLoop left (res ++ [ch])
    else
      let res ← parseUtf8 ch res
      parseStringLoop left res

def parseString : Parser (List UInt8) := do
  let ch ← skipSpaceAndGetCharAndAdv
  if ch = chr '\x22' then
    let state ← Exec.get
    parseStringLoop (state.rest.length + 1) []
  else raise "Unexpected character"

/-! ## Containers -/

section

variable {Obj : Type} (item : Parser Obj)

/-- The loop of the list parser behind an item.  The number bounds the rounds: each one reads a
    comma. -/
def parseListLoop : Nat → List Obj → Parser (List Obj)
  | 0, _ => Exec.undefined
  | left + 1, l => do
    let ch ← skipSpaceAndGetChar
    if ch = chr ',' then
      let _ ← getCharAndAdv
      let obj ← item
      parseListLoop left (l ++ [obj])
    else if ch = chr ']' then
      let _ ← getCharAndAdv
      pure l
    else raise "Unexpected character"

def parseList : Parser (List Obj) := do
  let ch ← skipSpaceAndGetCharAndAdv
  if ch = chr '[' then
    let ch ← skipSpaceAndGetChar
    if ch = chr ']' then
      let _ ← getCharAndAdv
      pure []
    else
      let obj ← item
      let state ← Exec.get
      parseListLoop item (state.rest.length + 1) [obj]
  else raise "Unexpected character"

/-- `InsertOrAssign`: a value takes the place of the one that an equal key had. -/
def insertOrAssign (d : List (List UInt8 × Obj)) (k : List UInt8) (v : Obj) : List (List UInt8 × Obj) :=
  if d.any (·.1 = k) then d.map fun entry => if entry.1 = k then (k, v) else entry else d ++ [(k, v)]

def parseEntry (d : List (List UInt8 × Obj)) : Parser (List (List UInt8 × Obj)) := do
  let k ← parseString
  expDelimiter (chr ':')
  let v ← item
  pure (insertOrAssign d k v)

/-- The loop of the dictionary parser behind an entry. -/
def parseDictLoop : Nat → List (List UInt8 × Obj) → Parser (List (List UInt8 × Obj))
  | 0, _ => Exec.undefined
  | left + 1, d => do
    let ch ← skipSpaceAndGetChar
    if ch = chr ',' then
      let _ ← getCharAndAdv
      let d ← parseEntry item d
      parseDictLoop left d
    else if ch = chr '}' then
      let _ ← getCharAndAdv
      pure d
    else raise "Unexpected character"

def parseDict : Parser (List (List UInt8 × Obj)) := do
  let ch ← skipSpaceAndGetCharAndAdv
  if ch = chr '\x7b' then
    let ch ← skipSpaceAndGetChar
    if ch = chr '\x7d' then
      let _ ← getCharAndAdv
      pure []
    else
      let d ← parseEntry item []
      let state ← Exec.get
      parseDictLoop item (state.rest.length + 1) d
  else raise "Unexpected character"

end

/-! ## Any value -/

/-- The objects that the type parameters of the parser make; a real number is made of the text for
    `atof`. -/
structure ObjectTypes (Obj : Type) where
  null : Obj
  bool : Bool → Obj
  int : RealNum → Obj
  real : List UInt8 → Obj
  string : List UInt8 → Obj
  list : List Obj → Obj
  dict : List (List UInt8 × Obj) → Obj

/-- The types of `GenericObjectParser`, where real numbers stay open. -/
def defaultTypes (real : List UInt8 → Object) : ObjectTypes Object where
  null := .hashable .null
  bool val := .hashable (.realNum (.ofBool val))
  int num := .hashable (.realNum num)
  real
  string val := .hashable (.string val)
  list := .list
  dict d := .dict (d.map fun entry => (.string entry.1, entry.2))

section

variable {Obj : Type} (types : ObjectTypes Obj)

def parseNumber : Parser Obj := do
  skipWhiteSpace
  let (iRes, fRes) ← parseNum
  if 0 < fRes.length then pure (types.real (iRes ++ fRes))
  else pure (types.int (.cast .int64 (atoll (iRes ++ fRes))))

/-- `GenericObjectParserImpl::Parse`, where the number bounds the nesting. -/
def parse : Nat → Parser Obj
  | 0 => Exec.undefined
  | depth + 1 => do
    let ch ← skipSpaceAndGetChar
    if ch = chr 'n' then
      parseNull
      pure types.null
    else if ch = chr 't' ∨ ch = chr 'f' then
      let val ← parseBool
      pure (types.bool val)
    else if ch = chr '-' ∨ isDigit ch then parseNumber types
    else if ch = chr '\x22' then
      let val ← parseString
      pure (types.string val)
    else if ch = chr '[' then
      let l ← parseList (parse depth)
      pure (types.list l)
    else if ch = chr '\x7b' then
      let d ← parseDict (parse depth)
      pure (types.dict d)
    else raise "Unexpected character"

/-- `ParseTillEnd`; an empty input is refused when the state machine is made. -/
def parseTillEnd (ctn : List UInt8) : Outcome ParseError InputState Obj :=
  let ism : InputState := ⟨ctn, 0, 0⟩
  let call : Parser Obj := do
    if ctn = [] then raise "Input string ends unexpectedly"
    else
      let res ← parse types (ctn.length + 1)
      skipWhiteSpace
      let atEnd ← isEnd
      if ¬ atEnd then raise "Extra Data" else pure res
  call ism

end

end Decentagram.SimpleJson
