import Decentagram.AdvancedRlp.Transform
import Decentagram.SimpleRlp.Writer

/-! # Writing objects

The writers of the categories.  What they write is the plain encoding of the lists that stand for
the objects, in whichever order the tables of the dictionaries iterate.
-/

namespace Decentagram.AdvancedRlp

open Decentagram.Lib Decentagram.SimpleObjects
open Decentagram.SimpleRlp (EncodeRlpBytes.serializeBytes EncodeRlpList.serializeBytes writeRlp writeItems)

/-! ## Primitive objects -/

def catBytesWriter (inBytes : List UInt8) : List UInt8 :=
  EncodeRlpList.serializeBytes (serializeCatId .bytes :: EncodeRlpBytes.serializeBytes inBytes)

def catNullWriter : List UInt8 := EncodeRlpList.serializeBytes [serializeCatId .null]

def boolCatId (val : RealNum) : CatId := if val.isTrue then .true else .false

def catBooleanWriter (val : RealNum) : List UInt8 :=
  EncodeRlpList.serializeBytes [serializeCatId (boolCatId val)]

def catStringWriter (val : List UInt8) : Except Exception (List UInt8) := do
  let rawData ← (SimpleUtf.utfConvert val).mapError .utf
  .ok (EncodeRlpList.serializeBytes (EncodeRlpBytes.serializeBytes [serializeCatId .string, 0x00] ++
    EncodeRlpBytes.serializeBytes rawData))

/-! ## Integers -/

/-- The little-endian bytes of an unsigned integer. -/
def fromInt (val : RealNum) : List UInt8 :=
  (BigEndian.digits (val.numType.bits / 8) val.val.toNat).reverse

/-- The type in which a signed integer is multiplied. -/
def promoted : RealNumType → RealNumType
  | .int64 => .int64
  | _ => .int32

/-- `BuildIntRawDataImpl`: the sign byte and the raw data. -/
def buildIntRawData (uIntType : RealNumType) (val : RealNum) : Except Exception (UInt8 × List UInt8) :=
  if 0 ≤ val.val then .ok (0x10, fromInt (.cast uIntType val.val))
  else if (promoted val.numType).max < -1 * val.val then .error .signedOverflow
  else .ok (0x11, fromInt (.cast uIntType (-1 * val.val)))

def buildUIntRawData (val : RealNum) : UInt8 × List UInt8 := (0x00, fromInt val)

/-- The width byte, the sign byte and the raw data.  Both types of 16 bits go through wider ones,
    and the unsigned one through the signed one. -/
def intRawData (val : RealNum) : Except Exception (UInt8 × UInt8 × List UInt8) :=
  match val.numType with
  | .int8 => do .ok (0x00, ← buildIntRawData .uint8 (.cast .int8 val.val))
  | .uint8 => .ok (0x00, buildUIntRawData (.cast .uint8 val.val))
  | .int16 => do .ok (0x01, ← buildIntRawData .uint16 (.cast .int16 (RealNum.cast .int32 val.val).val))
  | .uint16 =>
    let valu16 := RealNum.cast .int16 (RealNum.cast .uint16 (RealNum.cast .uint32 val.val).val).val
    .ok (0x01, buildUIntRawData (.cast .uint16 valu16.val))
  | .int32 => do .ok (0x02, ← buildIntRawData .uint32 (.cast .int32 val.val))
  | .uint32 => .ok (0x02, buildUIntRawData (.cast .uint32 val.val))
  | .int64 => do .ok (0x03, ← buildIntRawData .uint64 (.cast .int64 val.val))
  | .uint64 => .ok (0x03, buildUIntRawData (.cast .uint64 val.val))
  | .bool => .error (.serializeTypeError "Bool" "CatIntegerWriter")

def catIntegerWriter (val : RealNum) : Except Exception (List UInt8) := do
  let (widthByte, signByte, rawData) ← intRawData val
  .ok (EncodeRlpList.serializeBytes
    (EncodeRlpBytes.serializeBytes [serializeCatId .integer, widthByte, signByte] ++
      EncodeRlpBytes.serializeBytes rawData))

def genericRealNumWriter (val : RealNum) : Except Exception (List UInt8) :=
  match val.numType with
  | .bool => .ok (catBooleanWriter val)
  | _ => catIntegerWriter val

/-! ## Whole trees -/

def hashableWriter : HashableObject → Except Exception (List UInt8)
  | .bytes val => .ok (catBytesWriter val)
  | .null => .ok catNullWriter
  | .realNum val => genericRealNumWriter val
  | .string val => catStringWriter val

/-- The comparison by which the iterators of a dictionary are sorted. -/
def entryLess {α : Type} (a b : HashableObject × α) : Except SimpleObjects.Exception Bool :=
  a.1.lessThan b.1

/-- The bytes of sorted entries, each a key and what writing its value does. -/
def sortedWriter : List (HashableObject × Except Exception (List UInt8)) → Except Exception (List UInt8)
  | [] => .ok []
  | (key, val) :: rest => do
    let keyBytes ← hashableWriter key
    let valBytes ← val
    let restBytes ← sortedWriter rest
    .ok (keyBytes ++ valBytes ++ restBytes)

mutual

def genericWriter : Object → Except Exception (List UInt8)
  | .hashable val => hashableWriter val
  | .list val => do
    let items ← itemsWriter val
    .ok (EncodeRlpList.serializeBytes (serializeCatId .array :: items))
  | .dict val => do
    let sorted ← (sortBy entryLess (entriesWriter val)).mapError .objects
    let items ← sortedWriter sorted
    .ok (EncodeRlpList.serializeBytes (serializeCatId .dict :: items))

def itemsWriter : List Object → Except Exception (List UInt8)
  | [] => .ok []
  | item :: items => do
    let itemBytes ← genericWriter item
    let restBytes ← itemsWriter items
    .ok (itemBytes ++ restBytes)

def entriesWriter : Dict → List (HashableObject × Except Exception (List UInt8))
  | [] => []
  | (key, val) :: entries => (key, genericWriter val) :: entriesWriter entries

end

/-! ## The lists that stand for objects -/

def tagged (specs : List UInt8) (items : List Rlp.Object) : Rlp.Object := .list (.bytes specs :: items)

def encodeRealNum (val : RealNum) : Except Exception Rlp.Object :=
  if val.numType = .bool then .ok (tagged [serializeCatId (boolCatId val)] [])
  else do
    let (widthByte, signByte, rawData) ← intRawData val
    .ok (tagged [serializeCatId .integer, widthByte, signByte] [.bytes rawData])

def encodeHashable : HashableObject → Except Exception Rlp.Object
  | .bytes val => .ok (tagged [serializeCatId .bytes] [.bytes val])
  | .null => .ok (tagged [serializeCatId .null] [])
  | .realNum val => encodeRealNum val
  | .string val => do
    let rawData ← (SimpleUtf.utfConvert val).mapError .utf
    .ok (tagged [serializeCatId .string, 0x00] [.bytes rawData])

def encodeSorted : List (HashableObject × Except Exception Rlp.Object) →
    Except Exception (List Rlp.Object)
  | [] => .ok []
  | (key, val) :: rest => do
    let keyItem ← encodeHashable key
    let valItem ← val
    let items ← encodeSorted rest
    .ok (keyItem :: valItem :: items)

mutual

def encode : Object → Except Exception Rlp.Object
  | .hashable val => encodeHashable val
  | .list val => do
    let items ← encodeItems val
    .ok (tagged [serializeCatId .array] items)
  | .dict val => do
    let sorted ← (sortBy entryLess (encodeEntries val)).mapError .objects
    let items ← encodeSorted sorted
    .ok (tagged [serializeCatId .dict] items)

def encodeItems : List Object → Except Exception (List Rlp.Object)
  | [] => .ok []
  | item :: items => do
    let first ← encode item
    let rest ← encodeItems items
    .ok (first :: rest)

def encodeEntries : Dict → List (HashableObject × Except Exception Rlp.Object)
  | [] => []
  | (key, val) :: entries => (key, encode val) :: encodeEntries entries

end

/-- An object is written as a list. -/
theorem encode_isList {obj : Object} {item : Rlp.Object} (encodes : encode obj = .ok item) :
    ∃ items, item = .list items := by
  cases obj with
  | hashable key =>
    rw [encode] at encodes
    cases key with
    | null => cases encodes; exact ⟨_, rfl⟩
    | bytes val => cases encodes; exact ⟨_, rfl⟩
    | string val =>
      obtain ⟨raw, -, isItem⟩ := bind_eq_ok.mp encodes
      cases isItem
      exact ⟨_, rfl⟩
    | realNum num =>
      rw [encodeHashable, encodeRealNum] at encodes
      split at encodes
      · cases encodes
        exact ⟨_, rfl⟩
      · obtain ⟨raw, -, isItem⟩ := bind_eq_ok.mp encodes
        cases isItem
        exact ⟨_, rfl⟩
  | list items =>
    rw [encode] at encodes
    obtain ⟨rlpItems, -, isItem⟩ := bind_eq_ok.mp encodes
    cases isItem
    exact ⟨_, rfl⟩
  | dict entries =>
    rw [encode] at encodes
    obtain ⟨sorted, -, encodes⟩ := bind_eq_ok.mp encodes
    obtain ⟨items, -, isItem⟩ := bind_eq_ok.mp encodes
    cases isItem
    exact ⟨_, rfl⟩

/-- A tag of one byte is its own encoding. -/
theorem writeRlp_tagged (catId : CatId) (items : List Rlp.Object) :
    writeRlp (tagged [serializeCatId catId] items) =
      EncodeRlpList.serializeBytes (serializeCatId catId :: writeItems items) := by
  cases catId <;> rfl

theorem genericRealNumWriter_eq (val : RealNum) :
    genericRealNumWriter val = (encodeRealNum val).map writeRlp := by
  unfold genericRealNumWriter encodeRealNum
  split
  · rename_i isBool
    rw [if_pos isBool]
    exact congrArg Except.ok (writeRlp_tagged (boolCatId val) []).symm
  · rename_i notBool
    rw [if_neg notBool, catIntegerWriter]
    cases intRawData val with
    | error error => rfl
    | ok raw =>
      refine congrArg Except.ok ?_
      simp [tagged, writeRlp, writeItems]

theorem hashableWriter_eq (key : HashableObject) : hashableWriter key = (encodeHashable key).map writeRlp := by
  cases key with
  | null => rfl
  | realNum val => exact genericRealNumWriter_eq val
  | string val =>
    rw [hashableWriter, encodeHashable, catStringWriter]
    cases (SimpleUtf.utfConvert val).mapError Exception.utf with
    | error error => rfl
    | ok raw =>
      refine congrArg Except.ok ?_
      simp [tagged, writeRlp, writeItems]
  | bytes val =>
    refine congrArg Except.ok ?_
    rw [writeRlp_tagged, catBytesWriter, writeItems, writeItems, List.append_nil, writeRlp]

def written {α : Type} (entry : α × Except Exception Rlp.Object) : α × Except Exception (List UInt8) :=
  (entry.1, entry.2.map writeRlp)

/-- The comparison of the keys is the same whatever is known of the values. -/
theorem sortBy_written (entries : List (HashableObject × Except Exception Rlp.Object)) :
    sortBy entryLess (entries.map written) = (sortBy entryLess entries).map (List.map written) :=
  sortBy_map written (fun _ _ => rfl) entries

theorem sortedWriter_eq (sorted : List (HashableObject × Except Exception Rlp.Object)) :
    sortedWriter (sorted.map written) = (encodeSorted sorted).map writeItems := by
  induction sorted with
  | nil => rfl
  | cons entry rest inductionHypothesis =>
    obtain ⟨key, val⟩ := entry
    rw [List.map_cons, written, sortedWriter, encodeSorted, inductionHypothesis, hashableWriter_eq]
    cases encodeHashable key with
    | error error => rfl
    | ok keyItem =>
      cases val with
      | error error => rfl
      | ok valItem =>
        cases encodeSorted rest with
        | error error => rfl
        | ok items =>
          refine congrArg Except.ok ?_
          simp [writeItems]

mutual

theorem genericWriter_eq (obj : Object) : genericWriter obj = (encode obj).map writeRlp :=
  match obj with
  | .hashable key => by
    rw [genericWriter, encode]
    exact hashableWriter_eq key
  | .list items => by
    rw [genericWriter, encode, itemsWriter_eq items]
    cases encodeItems items with
    | error error => rfl
    | ok items => exact congrArg Except.ok (writeRlp_tagged .array items).symm
  | .dict entries => by
    rw [genericWriter, encode, entriesWriter_eq entries, sortBy_written]
    cases sortBy entryLess (encodeEntries entries) with
    | error error => rfl
    | ok sorted =>
      change (sortedWriter (sorted.map written) >>= fun items =>
        (Except.ok (EncodeRlpList.serializeBytes (serializeCatId .dict :: items)) : Except Exception _)) =
          (encodeSorted sorted >>= fun items =>
            (Except.ok (tagged [serializeCatId .dict] items) : Except Exception _)).map writeRlp
      rw [sortedWriter_eq]
      cases encodeSorted sorted with
      | error error => rfl
      | ok items => exact congrArg Except.ok (writeRlp_tagged .dict items).symm

theorem itemsWriter_eq (items : List Object) : itemsWriter items = (encodeItems items).map writeItems :=
  match items with
  | [] => rfl
  | item :: items => by
    rw [itemsWriter, encodeItems, genericWriter_eq item, itemsWriter_eq items]
    cases encode item with
    | error error => rfl
    | ok first => cases encodeItems items <;> rfl

theorem entriesWriter_eq (entries : Dict) : entriesWriter entries = (encodeEntries entries).map written :=
  match entries with
  | [] => rfl
  | (key, val) :: entries => by
    rw [entriesWriter, encodeEntries, genericWriter_eq val, entriesWriter_eq entries]
    rfl

end

end Decentagram.AdvancedRlp
