import Decentagram.SimpleJson.InputStateMachine
import Decentagram.SimpleObjects.Object
import Decentagram.SimpleUtf.Utf

/-! # The writers

`JsonWriterObject` and the writers for each kind of value, over the trees of SimpleObjects.
-/

namespace Decentagram.SimpleJson

open Decentagram.Lib Decentagram.SimpleObjects

inductive WriteError where
  | serializeType (typeName : String)
  | utf (error : SimpleUtf.Exception)
  | objects (error : SimpleObjects.Exception)
  | noKey (key : HashableObject)
deriving DecidableEq, Repr

structure WriterConfig where
  indent : List UInt8
  lineEnd : List UInt8
  orderDict : Bool
deriving DecidableEq, Repr

/-- The configuration that `DumpStr` takes where none is given. -/
def defaultConfig : WriterConfig := ⟨[], [chr '\n'], false⟩

/-! ## Numbers -/

def digitChar (digit : Nat) : UInt8 := UInt8.ofNat (48 + digit)

/-- The decimal digits without leading zeros. -/
def decimal (n : Nat) : List UInt8 :=
  if n < 10 then [digitChar n] else decimal (n / 10) ++ [digitChar (n % 10)]

/-- `std::to_string` -/
def toDecimal (val : Int) : List UInt8 :=
  if val < 0 then chr '-' :: decimal val.natAbs else decimal val.natAbs

def writeBool (obj : RealNum) : List UInt8 :=
  if obj.isTrue then [chr 't', chr 'r', chr 'u', chr 'e'] else [chr 'f', chr 'a', chr 'l', chr 's',
    chr 'e']

def writeRealNum (obj : RealNum) : List UInt8 :=
  if obj.numType = .bool then writeBool obj else toDecimal obj.val

def writeNull : List UInt8 := [chr 'n', chr 'u', chr 'l', chr 'l']

/-! ## Strings -/

def alphabet : List UInt8 :=
  [chr '0', chr '1', chr '2', chr '3', chr '4', chr '5', chr '6', chr '7', chr '8', chr '9',
  chr 'A', chr 'B', chr 'C', chr 'D', chr 'E', chr 'F']

def nibbleChar (nibble : UInt16) : UInt8 := alphabet.getD (nibble &&& 0x0F).toNat 0

def writeUXXXX (val : UInt16) : List UInt8 :=
  [nibbleChar (val >>> 12), nibbleChar (val >>> 8), nibbleChar (val >>> 4), nibbleChar (val >>> 0)]

def writeAscii (ch : UInt8) : List UInt8 :=
  if ch = chr '\x22' then [chr '\\', chr '\x22']
  else if ch = chr '\\' then [chr '\\', chr '\\']
  else if ch = chr '/' then [chr '\\', chr '/']
  else if ch = 0x08 then [chr '\\', chr 'b']
  else if ch = 0x0C then [chr '\\', chr 'f']
  else if ch = chr '\n' then [chr '\\', chr 'n']
  else if ch = chr '\r' then [chr '\\', chr 'r']
  else if ch = chr '\t' then [chr '\\', chr 't']
  else [ch]

/-- The units of a code point as escapes. -/
def writeUnits : List UInt16 → List UInt8
  | [] => []
  | [unit] => chr '\\' :: chr 'u' :: writeUXXXX unit
  | first :: second :: _ =>
    chr '\\' :: chr 'u' :: writeUXXXX first ++
      (if SimpleUtf.isUtf16SurrogateFirst first then chr '\\' :: chr 'u' :: writeUXXXX second else [])

/-- The loop over a string, which does not look for its end between the bytes of a character.  The
    number bounds the rounds. -/
def writeChars : Nat → List UInt8 → Except WriteError (List UInt8)
  | _, [] => .ok []
  | 0, _ => .error (.utf .readPastEnd)
  | left + 1, ch :: rest =>
    if ch ≤ 0x7F then do
      let written ← writeChars left rest
      .ok (writeAscii ch ++ written)
    else do
      let (contCount, _) ← (SimpleUtf.utf8ReadLeading ch).mapError .utf
      if rest.length < contCount then .error (.utf .readPastEnd)
      else
        let (codePt, _) ← (SimpleUtf.utf8ToCodePtOnce (ch :: rest.take contCount)).mapError .utf
        let pair ← (SimpleUtf.codePtToUtf16Once codePt).mapError .utf
        let written ← writeChars left (rest.drop contCount)
        .ok (writeUnits pair ++ written)

def writeString (obj : List UInt8) : Except WriteError (List UInt8) := do
  let written ← writeChars obj.length obj
  .ok (chr '\x22' :: (written ++ [chr '\x22']))

/-! ## Containers -/

def writeHashable : HashableObject → Except WriteError (List UInt8)
  | .null => .ok writeNull
  | .realNum val => .ok (writeRealNum val)
  | .string val => writeString val
  | .bytes _ => .error (.serializeType "Bytes")

/-- `JsonWriterKey` -/
def writeKey : HashableObject → Except WriteError (List UInt8)
  | .null => .ok (chr '\x22' :: (writeNull ++ [chr '\x22']))
  | .realNum val => .ok (chr '\x22' :: (writeRealNum val ++ [chr '\x22']))
  | .string val => writeString val
  | .bytes _ => .error (.serializeType "Bytes")

section

variable (config : WriterConfig) (nestLevel : Nat)

def indents : Bool := 0 < config.indent.length

/-- `RepeatOutput` -/
def repeatOutput (times : Nat) (text : List UInt8) : List UInt8 := (List.replicate times text).flatten

def writeIndent : List UInt8 := if indents config then repeatOutput nestLevel config.indent else []

def writeLineEnd : List UInt8 := if indents config then config.lineEnd else []

/-- The loop over what the items of a container are written as. -/
def writeLoop : List (Except WriteError (List UInt8)) → Except WriteError (List UInt8)
  | [] => .ok []
  | item :: items => do
    let text ← item
    let rest ← writeLoop items
    .ok (writeIndent config (nestLevel + 1) ++ text ++ (if items = [] then [] else [chr ',']) ++
      writeLineEnd config ++ rest)

def writeContainer (opening closing : UInt8) (items : List (Except WriteError (List UInt8))) :
    Except WriteError (List UInt8) := do
  let written ← writeLoop config nestLevel items
  .ok (opening :: ((if items = [] then [] else writeLineEnd config) ++ written ++
    (if items = [] then [] else writeIndent config nestLevel) ++ [closing]))

/-- An entry of a dictionary with what its value is written as. -/
def writeEntry (entry : HashableObject × Except WriteError (List UInt8)) :
    Except WriteError (List UInt8) := do
  let key ← writeKey entry.1
  let val ← entry.2
  .ok (key ++ (if indents config then [chr ' ', chr ':', chr ' '] else [chr ':']) ++ val)

/-- The entries in the order of their sorted keys. -/
def orderedEntries {α : Type} (obj : List (HashableObject × α)) :
    Except WriteError (List (HashableObject × α)) := do
  let keys ← (sortBy HashableObject.lessThan (obj.map Prod.fst)).mapError .objects
  keys.mapM fun key =>
    match obj.find? fun entry => entry.1.baseObjectIsEqual key with
    | some entry => .ok (key, entry.2)
    | none => .error (.noKey key)

end

section

variable (config : WriterConfig)

mutual

/-- `JsonWriterObject`, with lists, dictionaries and ordered dictionaries. -/
def write (nestLevel : Nat) : Object → Except WriteError (List UInt8)
  | .hashable val => writeHashable val
  | .list val => writeContainer config nestLevel (chr '[') (chr ']') (writeItems (nestLevel + 1) val)
  | .dict val => do
    let written := writeEntries (nestLevel + 1) val
    let entries ← if config.orderDict then orderedEntries written else .ok written
    writeContainer config nestLevel (chr '\x7b') (chr '\x7d') (entries.map (writeEntry config))

def writeItems (nestLevel : Nat) : List Object → List (Except WriteError (List UInt8))
  | [] => []
  | item :: items => write nestLevel item :: writeItems nestLevel items

def writeEntries (nestLevel : Nat) : Dict → List (HashableObject × Except WriteError (List UInt8))
  | [] => []
  | (key, val) :: entries => (key, write nestLevel val) :: writeEntries nestLevel entries

end

def dumpStr (obj : Object) : Except WriteError (List UInt8) := write config 0 obj

end

end Decentagram.SimpleJson
