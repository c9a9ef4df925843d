import Mathlib.Data.List.Basic

/-! # The grammar of JSON

RFC 8259 over bytes in UTF-8.  White space around a structural character is counted to the values
next to it, which makes the same texts.  Three points in which a parser may differ are parameters.
-/

namespace Decentagram.SimpleJson

/-- What a grammar adds to or takes from the one of the RFC. -/
structure Dialect where
  /-- vertical tabs and form feeds are white space -/
  moreSpace : Bool
  /-- control characters stand for themselves in strings -/
  controls : Bool
  /-- a surrogate may be escaped without the other one of its pair -/
  loneSurrogates : Bool

def rfc8259 : Dialect := ⟨false, false, true⟩

def simpleJson : Dialect := ⟨true, true, false⟩

/-- The grammar of the parser where no control character stands in a string. -/
def lenient : Dialect := ⟨true, false, false⟩

namespace Grammar

def isWs (dialect : Dialect) (ch : UInt8) : Bool :=
  ch = 0x20 || ch = 0x09 || ch = 0x0A || ch = 0x0D || dialect.moreSpace && (ch = 0x0B || ch = 0x0C)

def Ws (dialect : Dialect) (ws : List UInt8) : Prop := ∀ ch ∈ ws, isWs dialect ch = true

/-! ## Numbers -/

def Digits (digits : List UInt8) : Prop := digits ≠ [] ∧ ∀ ch ∈ digits, 0x30 ≤ ch ∧ ch ≤ 0x39

inductive IntPart : List UInt8 → Prop where
  | zero : IntPart [0x30]
  | nonzero {digits : List UInt8} (areDigits : Digits digits) (noZero : digits.head? ≠ some 0x30) :
      IntPart digits

inductive Frac : List UInt8 → Prop where
  | none : Frac []
  | point {digits : List UInt8} (areDigits : Digits digits) : Frac (0x2E :: digits)

inductive Exp : List UInt8 → Prop where
  | none : Exp []
  | e {e : UInt8} {sign digits : List UInt8} (isE : e = 0x65 ∨ e = 0x45)
      (isSign : sign = [] ∨ sign = [0x2B] ∨ sign = [0x2D]) (areDigits : Digits digits) :
      Exp (e :: (sign ++ digits))

inductive Number : List UInt8 → Prop where
  | of {minus int frac exp : List UInt8} (isMinus : minus = [] ∨ minus = [0x2D]) (isInt : IntPart int)
      (isFrac : Frac frac) (isExp : Exp exp) : Number (minus ++ int ++ frac ++ exp)

/-! ## Strings -/

def hexDigit (ch : UInt8) : Option Nat :=
  if 0x30 ≤ ch ∧ ch ≤ 0x39 then some (ch.toNat - 0x30)
  else if 0x41 ≤ ch ∧ ch ≤ 0x46 then some (ch.toNat - 0x41 + 10)
  else if 0x61 ≤ ch ∧ ch ≤ 0x66 then some (ch.toNat - 0x61 + 10)
  else none

/-- The four hexadecimal digits of a UTF-16 unit. -/
def HexUnit (digits : List UInt8) (val : Nat) : Prop :=
  ∃ a b c d, digits.map hexDigit = [some a, some b, some c, some d] ∧
  val = ((a * 16 + b) * 16 + c) * 16 + d

def escapes : List UInt8 := [0x22, 0x5C, 0x2F, 0x62, 0x66, 0x6E, 0x72, 0x74]

def IsFirstSurrogate (val : Nat) : Prop := 0xD800 ≤ val ∧ val ≤ 0xDBFF

def IsSecondSurrogate (val : Nat) : Prop := 0xDC00 ≤ val ∧ val ≤ 0xDFFF

/-- A character of a string or an escape. -/
inductive Piece (dialect : Dialect) : List UInt8 → Prop where
  | unescaped {char : Char} (notQuote : char.val ≠ 0x22) (notBackslash : char.val ≠ 0x5C)
      (noControl : 0x20 ≤ char.val ∨ dialect.controls = true) : Piece dialect (String.utf8EncodeChar char)
  | escape {ch : UInt8} (isEscape : ch ∈ escapes) : Piece dialect [0x5C, ch]
  | unit {digits : List UInt8} {val : Nat} (isUnit : HexUnit digits val)
      (noSurrogate : ¬ IsFirstSurrogate val ∧ ¬ IsSecondSurrogate val ∨ dialect.loneSurrogates = true) :
      Piece dialect (0x5C :: 0x75 :: digits)
  | pair {digits digits' : List UInt8} {val val' : Nat} (isUnit : HexUnit digits val)
      (isUnit' : HexUnit digits' val')
      (isFirst : IsFirstSurrogate val) (isSecond : IsSecondSurrogate val') :
      Piece dialect (0x5C :: 0x75 :: digits ++ 0x5C :: 0x75 :: digits')

inductive Str (dialect : Dialect) : List UInt8 → Prop where
  | of {pieces : List (List UInt8)} (arePieces : ∀ piece ∈ pieces, Piece dialect piece) :
      Str dialect (0x22 :: (pieces.flatten ++ [0x22]))

/-! ## Values -/

mutual

inductive Value (dialect : Dialect) : List UInt8 → Prop where
  | null : Value dialect [0x6E, 0x75, 0x6C, 0x6C]
  | true : Value dialect [0x74, 0x72, 0x75, 0x65]
  | false : Value dialect [0x66, 0x61, 0x6C, 0x73, 0x65]
  | number {text : List UInt8} (isNumber : Number text) : Value dialect text
  | string {text : List UInt8} (isString : Str dialect text) : Value dialect text
  | emptyArray {ws : List UInt8} (isWs : Ws dialect ws) : Value dialect (0x5B :: (ws ++ [0x5D]))
  | array {text : List UInt8} (elements : Elements dialect text) : Value dialect (0x5B :: (text ++ [0x5D]))
  | emptyObject {ws : List UInt8} (isWs : Ws dialect ws) : Value dialect (0x7B :: (ws ++ [0x7D]))
  | object {text : List UInt8} (members : Members dialect text) : Value dialect (0x7B :: (text ++ [0x7D]))

inductive Elements (dialect : Dialect) : List UInt8 → Prop where
  | last {before value after : List UInt8} (isWs : Ws dialect before) (isValue : Value dialect value)
      (isWs' : Ws dialect after) : Elements dialect (before ++ value ++ after)
  | more {before value after rest : List UInt8} (isWs : Ws dialect before) (isValue : Value dialect value)
      (isWs' : Ws dialect after) (elements : Elements dialect rest) :
      Elements dialect (before ++ value ++ after ++ 0x2C :: rest)

inductive Members (dialect : Dialect) : List UInt8 → Prop where
  | last {before name colon ahead value after : List UInt8} (isWs : Ws dialect before)
      (isName : Str dialect name)
      (isColon : Ws dialect colon) (isWs' : Ws dialect ahead) (isValue : Value dialect value)
      (isWs'' : Ws dialect after) :
      Members dialect (before ++ name ++ colon ++ 0x3A :: (ahead ++ value ++ after))
  | more {before name colon ahead value after rest : List UInt8} (isWs : Ws dialect before)
      (isName : Str dialect name) (isColon : Ws dialect colon) (isWs' : Ws dialect ahead)
      (isValue : Value dialect value) (isWs'' : Ws dialect after) (members : Members dialect rest) :
      Members dialect (before ++ name ++ colon ++ 0x3A :: (ahead ++ value ++ after ++ 0x2C :: rest))

end

/-- A JSON text: white space around a value. -/
inductive Text (dialect : Dialect) : List UInt8 → Prop where
  | of {before value after : List UInt8} (isWs : Ws dialect before) (isValue : Value dialect value)
      (isWs' : Ws dialect after) : Text dialect (before ++ value ++ after)

end Grammar

end Decentagram.SimpleJson
