import Decentagram.Lib.Abi

/-! # The ABI parsers

Each parser reads from what is left of the input and gives the value, what is left after it and the number
of chunks it has read.
-/

namespace Decentagram.Eth

open Decentagram.Lib

def chunkSize : UInt64 := 32

/-- A parsed value, where the parsing stopped and the number of chunks consumed. -/
abbrev AbiParsed (Primitive : Type) := Primitive × List UInt8 × UInt64

/-! ## Utilities -/

inductive RealNumType where
  | uInt8
  | uInt16
  | uInt32
  | uInt64
deriving DecidableEq, Repr

def RealNumType.consumedSize : RealNumType → Nat
  | .uInt8 => 1
  | .uInt16 => 2
  | .uInt32 => 4
  | .uInt64 => 8

theorem RealNumType.consumedSize_le (type : RealNumType) : type.consumedSize ≤ 32 := by
  cases type <;> decide

def abiCeilingDiv (a b : UInt64) : UInt64 := (a + (b - 1)) / b

def abiParserSkipPadding : Nat → List UInt8 → Except String (List UInt8)
  | 0, input => .ok input
  | _ + 1, [] => .error "ABI parser - unexpected end of input"
  | skipLen + 1, byte :: input =>
    if byte ≠ 0 then .error "ABI parser - there are non-zero bytes in skipped bytes"
    else abiParserSkipPadding skipLen input

def abiParserCopyBytes : Nat → List UInt8 → Except String (List UInt8 × List UInt8)
  | 0, input => .ok ([], input)
  | _ + 1, [] => .error "ABI parser - unexpected end of input"
  | len + 1, byte :: input => do
    let (dest, input) ← abiParserCopyBytes len input
    .ok (byte :: dest, input)

def abiParserCopyBytesThenSkip (copyLen skipLen : Nat) (input : List UInt8) :
    Except String (List UInt8 × List UInt8) := do
  let (dest, input) ← abiParserCopyBytes copyLen input
  let input ← abiParserSkipPadding skipLen input
  .ok (dest, input)

/-- The loop of `ParsePrimitiveIntValue` with `i` bytes to go, whose bytes are those of the input. -/
def parsePrimitiveIntLoop {width : Nat} (res : BitVec width) :
    Nat → List UInt8 → Except String (BitVec width × List UInt8)
  | 0, input => .ok (res, input)
  | _ + 1, [] => .error "ABI parser - unexpected end of input"
  | i + 1, byte :: input =>
    parsePrimitiveIntLoop (res ||| byte.toBitVec.setWidth width <<< (i * 8)) i input

/-! ## The codecs -/

namespace AbiCodecImpl

def integerToPrimitive (type : RealNumType) (input : List UInt8) :
    Except String (AbiParsed (BitVec (8 * type.consumedSize))) := do
  let input ← abiParserSkipPadding (32 - type.consumedSize) input
  let (res, input) ← parsePrimitiveIntLoop 0 type.consumedSize input
  .ok (res, input, 1)

def boolToPrimitive (input : List UInt8) : Except String (AbiParsed Bool) := do
  let (valInt, input, chunkConsumed) ← integerToPrimitive .uInt8 input
  if valInt = 1 then .ok (true, input, chunkConsumed)
  else if valInt = 0 then .ok (false, input, chunkConsumed)
  else .error "ABI parser - invalid bool value"

def bytesToPrimitive (size : Nat) (input : List UInt8) : Except String (AbiParsed (List UInt8)) := do
  let (res, input) ← abiParserCopyBytesThenSkip size (32 - size) input
  .ok (res, input, 1)

/-- The length of what has a dynamic size, and an offset. -/
def sizeToPrimitive (input : List UInt8) : Except String (AbiParsed UInt64) := do
  let (val, input, chunkConsumed) ← integerToPrimitive .uInt64 input
  .ok (UInt64.ofBitVec val, input, chunkConsumed)

def dynBytesToPrimitive (input : List UInt8) : Except String (AbiParsed (List UInt8)) := do
  let (len, input, chunkConsumed) ← sizeToPrimitive input
  let numChunk := abiCeilingDiv len chunkSize
  let paddingSize := numChunk * chunkSize - len
  let (res, input) ← abiParserCopyBytesThenSkip len.toNat paddingSize.toNat input
  .ok (res, input, chunkConsumed + numChunk)

section

variable {Primitive : Type} (itemToPrimitive : List UInt8 → Except String (AbiParsed Primitive))

/-- The loop over the heads. -/
def headsToPrimitive : Nat → List UInt8 → UInt64 → Except String (AbiParsed (List Primitive))
  | 0, input, totalChunkConsumed => .ok ([], input, totalChunkConsumed)
  | size + 1, input, totalChunkConsumed => do
    let (item, input, chunkConsumed) ← itemToPrimitive input
    let (res, input, totalChunkConsumed) ←
      headsToPrimitive size input (totalChunkConsumed + chunkConsumed)
    .ok (item :: res, input, totalChunkConsumed)

/-- The loop over the tails that the heads give the offsets of. -/
def tailsToPrimitive :
    List UInt64 → List UInt8 → UInt64 → Except String (AbiParsed (List Primitive))
  | [], input, totalChunkConsumed => .ok ([], input, totalChunkConsumed)
  | head :: heads, input, totalChunkConsumed =>
    if head ≠ totalChunkConsumed * chunkSize then .error "ABI parser - invalid offset"
    else do
      let (item, input, chunkConsumed) ← itemToPrimitive input
      let (res, input, totalChunkConsumed) ←
        tailsToPrimitive heads input (totalChunkConsumed + chunkConsumed)
      .ok (item :: res, input, totalChunkConsumed)

/-- `T[k]`, whose items are all in the heads unless they have tails. -/
def listToPrimitive (itemHasTail : Bool) (size : UInt64) (input : List UInt8) :
    Except String (AbiParsed (List Primitive)) :=
  if itemHasTail then do
    let (heads, input, totalChunkConsumed) ← headsToPrimitive sizeToPrimitive size.toNat input 0
    tailsToPrimitive itemToPrimitive heads input totalChunkConsumed
  else headsToPrimitive itemToPrimitive size.toNat input 0

/-- `T[]`. -/
def dynListToPrimitive (itemHasTail : Bool) (input : List UInt8) :
    Except String (AbiParsed (List Primitive)) := do
  let (len, input, totalChunkConsumed) ← sizeToPrimitive input
  let (res, input, chunkConsumed) ← listToPrimitive itemToPrimitive itemHasTail len input
  .ok (res, input, totalChunkConsumed + chunkConsumed)

end

end AbiCodecImpl

/-! ## The parsers -/

/-- The type arguments of the template and those of the constructor. -/
inductive AbiParser where
  | integer (type : RealNumType)
  | bool
  | fixedBytes (size : Nat) (within : size ≤ 32)
  | bytes
  | list (item : AbiParser) (size : UInt64)
  | dynList (item : AbiParser)

namespace AbiParser

/-- The type that a parser is for. -/
def type : AbiParser → Abi.Ty
  | integer type => .uint type.consumedSize type.consumedSize_le
  | bool => .bool
  | fixedBytes size within => .fixedBytes size within
  | bytes => .bytes
  | list item size => .array item.type size.toNat
  | dynList item => .dynArray item.type

/-- A number is a machine integer, and byte strings and arrays are vectors. -/
abbrev Primitive (parser : AbiParser) : Type := parser.type.Value

def hasTail : AbiParser → Bool
  | integer _ => false
  | bool => false
  | fixedBytes _ _ => false
  | bytes => true
  | list item _ => item.hasTail
  | dynList _ => true

/-- `ToPrimitive` of the codec: of the head of a type without a tail and of the tail of one with. -/
def codecToPrimitive : (parser : AbiParser) → List UInt8 → Except String (AbiParsed parser.Primitive)
  | integer type => AbiCodecImpl.integerToPrimitive type
  | bool => AbiCodecImpl.boolToPrimitive
  | fixedBytes size _ => AbiCodecImpl.bytesToPrimitive size
  | bytes => AbiCodecImpl.dynBytesToPrimitive
  | list item size => AbiCodecImpl.listToPrimitive item.codecToPrimitive item.hasTail size
  | dynList item => AbiCodecImpl.dynListToPrimitive item.codecToPrimitive item.hasTail

end AbiParser

/-! ## The entry points

Iterators are positions in the input; the results' ones are where the heads end. -/

section

variable {Primitive : Type}

def headOnlyToPrimitive (headToPrimitive : List UInt8 → Except String (AbiParsed Primitive))
    (input : List UInt8) (begin : Nat) : Except String (Primitive × Nat) := do
  let (res, headEnd, _) ← headToPrimitive (input.drop begin)
  .ok (res, input.length - headEnd.length)

def headTailToPrimitive (tailToPrimitive : List UInt8 → Except String (AbiParsed Primitive))
    (input : List UInt8) (begin blockBegin : Nat) : Except String (Primitive × Nat) := do
  let (offset, headEnd, _) ← AbiCodecImpl.sizeToPrimitive (input.drop begin)
  let totalSizeDiff : Int := input.length - blockBegin
  if totalSizeDiff < 0 then .error "ABI parser - invalid block begin iterator"
  else if offset.toNat > totalSizeDiff.toNat then .error "ABI parser - the input is too short"
  else do
    let (res, _, _) ← tailToPrimitive (input.drop (blockBegin + offset.toNat))
    .ok (res, input.length - headEnd.length)

def AbiParser.toPrimitive (parser : AbiParser) (input : List UInt8) (begin blockBegin : Nat) :
    Except String (parser.Primitive × Nat) :=
  if parser.hasTail then headTailToPrimitive parser.codecToPrimitive input begin blockBegin
  else headOnlyToPrimitive parser.codecToPrimitive input begin

end

end Decentagram.Eth
