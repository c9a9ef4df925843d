import Decentagram.Lib.Result
import Decentagram.Lib.Rlp

/-! # Parsing RLP

The input state machine, the headers and the parsers of byte strings, lists and objects in general.
`byteLeft` is what an enclosing list, or the whole input, has left.
-/

namespace Decentagram.SimpleRlp

open Decentagram.Lib Decentagram.Lib.Rlp

structure ParseError where
  message : String
  bytePos : Nat
deriving DecidableEq, Repr

def conErrorMsg (issue : String) (bytePos : Nat) : String :=
  "Parse error - " ++ issue ++ " (byte @ " ++ toString (bytePos + 1) ++ ")"

def ParseError.atByte (issue : String) (bytePos : Nat) : ParseError where
  message := conErrorMsg issue bytePos
  bytePos

/-! ## The input -/

structure InputStateMachine where
  byteCount : Nat
  input : List UInt8
deriving DecidableEq, Repr

namespace InputStateMachine

def start (input : List UInt8) : Except ParseError InputStateMachine :=
  if input = [] then .error (.atByte "Expecting more input data" 0) else .ok { byteCount := 0, input }

def getByteAndAdv (ism : InputStateMachine) : Except ParseError (UInt8 × InputStateMachine) :=
  match ism.input with
  | [] => .error (.atByte "Expecting more input data" ism.byteCount)
  | byte :: input => .ok (byte, { byteCount := ism.byteCount + 1, input })

end InputStateMachine

/-! ## Headers -/

inductive RlpEncodeType where
  | byte
  | bytesShort
  | bytesLong
  | listShort
  | listLong
deriving DecidableEq, Repr

def decodeRlpLeadingByte (val : UInt8) : RlpEncodeType × UInt8 :=
  if val ≤ 0x7F then (.byte, val)
  else if val ≤ 0xB7 then (.bytesShort, val - 0x80)
  else if val ≤ 0xBF then (.bytesLong, val - 0xB7)
  else if val ≤ 0xF7 then (.listShort, val - 0xC0)
  else (.listLong, val - 0xF7)

/-- The loop of `ParsePrimitiveIntValue` with `i` bytes to go. -/
def parseIntLoop (res : UInt64) :
    Nat → InputStateMachine → Except ParseError (UInt64 × InputStateMachine)
  | 0, ism => .ok (res, ism)
  | i + 1, ism => do
    let (val, ism) ← ism.getByteAndAdv
    parseIntLoop (res ||| val.toUInt64 <<< UInt64.ofNat (i * 8)) i ism

def parsePrimitiveIntValue (len : Nat) (ism : InputStateMachine) :
    Except ParseError (UInt64 × InputStateMachine) :=
  if len > 8 then .error ⟨"The given byte size is larger than the target int type", 0⟩
  else parseIntLoop 0 len ism

def parseSizeValue (len pos : Nat) (ism : InputStateMachine) :
    Except ParseError (UInt64 × InputStateMachine) :=
  (parsePrimitiveIntValue len ism).mapError fun error => .atByte error.message pos

def checkByteLeft (byteLeft byteNeeded : UInt64) (pos : Nat) : Except ParseError UInt64 :=
  if byteNeeded > byteLeft then .error (.atByte "Expecting more input data than what is left" pos)
  else .ok (byteLeft - byteNeeded)

/-- The header of `BytesLong` and `ListLong`: the size, whose own width is the header's value. -/
def procLongHeader (ism : InputStateMachine) (rlpVal : UInt8) (byteLeft : UInt64) :
    Except ParseError (UInt64 × InputStateMachine × UInt64) := do
  let byteLeft ← checkByteLeft byteLeft rlpVal.toUInt64 ism.byteCount
  let (size, ism) ← parseSizeValue rlpVal.toNat ism.byteCount ism
  .ok (size, ism, byteLeft)

def procRlpListHeader (ism : InputStateMachine) (rlpType : RlpEncodeType) (rlpVal : UInt8)
    (byteLeft : UInt64) : Except ParseError (UInt64 × InputStateMachine × UInt64) :=
  match rlpType with
  | .listShort => .ok (rlpVal.toUInt64, ism, byteLeft)
  | .listLong => procLongHeader ism rlpVal byteLeft
  | .byte | .bytesShort | .bytesLong => .error (.atByte "Expecting a list data" ism.byteCount)

def procRlpBytesHeader (ism : InputStateMachine) (rlpType : RlpEncodeType) (rlpVal : UInt8)
    (byteLeft : UInt64) : Except ParseError (UInt64 × InputStateMachine × UInt64) :=
  match rlpType with
  | .bytesShort => .ok (rlpVal.toUInt64, ism, byteLeft)
  | .bytesLong => procLongHeader ism rlpVal byteLeft
  | .byte | .listShort | .listLong => .error (.atByte "Expecting a byte string data" ism.byteCount)

/-! ## The parsers -/

def getBytes : Nat → InputStateMachine → Except ParseError (List UInt8 × InputStateMachine)
  | 0, ism => .ok ([], ism)
  | size + 1, ism => do
    let (byte, ism) ← ism.getByteAndAdv
    let (bytes, ism) ← getBytes size ism
    .ok (byte :: bytes, ism)

def parseBytes (ism : InputStateMachine) (rlpType : RlpEncodeType) (rlpVal : UInt8)
    (byteLeft : UInt64) : Except ParseError (Object × InputStateMachine × UInt64) :=
  match rlpType with
  | .byte => .ok (.bytes [rlpVal], ism, byteLeft)
  | _ => do
    let (size, ism, byteLeft) ← procRlpBytesHeader ism rlpType rlpVal byteLeft
    let byteLeft ← checkByteLeft byteLeft size ism.byteCount
    let (obj, ism) ← getBytes size.toNat ism
    .ok (.bytes obj, ism, byteLeft)

/-- `ListParserImpl::Parse` around its loop over the items. -/
def parseListBy (items : InputStateMachine → UInt64 → Except ParseError (List Object × InputStateMachine))
    (ism : InputStateMachine) (rlpType : RlpEncodeType) (rlpVal : UInt8) (byteLeft : UInt64) :
    Except ParseError (Object × InputStateMachine × UInt64) := do
  let (size, ism, byteLeft) ← procRlpListHeader ism rlpType rlpVal byteLeft
  let byteLeft ← checkByteLeft byteLeft size ism.byteCount
  let (obj, ism) ← items ism size
  .ok (.list obj, ism, byteLeft)

/-- An object whose leading byte was read. -/
def parseBy (items : InputStateMachine → UInt64 → Except ParseError (List Object × InputStateMachine))
    (ism : InputStateMachine) (rlpType : RlpEncodeType) (rlpVal : UInt8) (byteLeft : UInt64) :
    Except ParseError (Object × InputStateMachine × UInt64) :=
  match rlpType with
  | .byte | .bytesShort | .bytesLong => parseBytes ism rlpType rlpVal byteLeft
  | .listShort | .listLong => parseListBy items ism rlpType rlpVal byteLeft

/-- The loop over the items of a list.  The number bounds the bytes that the input has left: each round
    reads one, so at zero the input has ended. -/
def parseItems : Nat → InputStateMachine → UInt64 → Except ParseError (List Object × InputStateMachine)
  | 0, ism, size =>
    if size > 0 then .error (.atByte "Expecting more input data" ism.byteCount) else .ok ([], ism)
  | left + 1, ism, size =>
    if size > 0 then do
      let (nextByte, ism) ← ism.getByteAndAdv
      let (nextType, nextVal) := decodeRlpLeadingByte nextByte
      let (item, ism, size) ← parseBy (parseItems left) ism nextType nextVal (size - 1)
      let (items, ism) ← parseItems left ism size
      .ok (item :: items, ism)
    else .ok ([], ism)

/-- `Parse` of the general parser on an input and what is left of it. -/
def parseObject (ism : InputStateMachine) (byteLeft : UInt64) :
    Except ParseError (Object × InputStateMachine × UInt64) := do
  let byteLeft ← checkByteLeft byteLeft 1 ism.byteCount
  let (rlpByte, ism) ← ism.getByteAndAdv
  let (rlpType, rlpVal) := decodeRlpLeadingByte rlpByte
  parseBy (parseItems ism.input.length) ism rlpType rlpVal byteLeft

/-- `Parse` of a container. -/
def parseContainer (input : List UInt8) (checkExtra : Bool) : Except ParseError Object := do
  let ism ← InputStateMachine.start input
  let (res, ism, size) ← parseObject ism (UInt64.ofNat input.length)
  if checkExtra ∧ size ≠ 0 then
    .error (.atByte "Extra data found at the end of input data" ism.byteCount)
  else .ok res

def parseRlp (inBytes : List UInt8) : Except ParseError Object := parseContainer inBytes true

end Decentagram.SimpleRlp
