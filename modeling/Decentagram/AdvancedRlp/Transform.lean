import Decentagram.Lib.BigEndian
import Decentagram.SimpleObjects.Object
import Decentagram.SimpleRlp.Parser
import Decentagram.SimpleUtf.Utf8

/-! # Objects from tagged lists

An object is an RLP list whose first item names the category of the object.  The transforms check a
list and build the object of its category.
-/

namespace Decentagram.AdvancedRlp

open Decentagram.Lib Decentagram.SimpleObjects

/-- `signedOverflow` is the overflow of a signed integer, after which nothing is defined. -/
inductive Exception where
  | rlp (error : SimpleRlp.ParseError)
  | objects (error : SimpleObjects.Exception)
  | utf (error : SimpleUtf.Exception)
  | parseError (message : String) (bytePos : Nat)
  | duplicatedKey (key : HashableObject) (bytePos : Nat)
  | keyOutOfOrder (key : HashableObject) (bytePos : Nat)
  | unknownCatId (catId : UInt8)
  | serializeTypeError (typeName writerName : String)
  | signedOverflow
deriving DecidableEq, Repr

def Exception.atByte (issue : String) (bytePos : Nat) : Exception :=
  .parseError (SimpleRlp.conErrorMsg issue bytePos) bytePos

/-! ## Categories -/

inductive CatId where
  | bytes
  | null
  | false
  | true
  | integer
  | float
  | string
  | array
  | dict
  | staticDict
deriving DecidableEq, Repr

def serializeCatId : CatId → UInt8
  | .bytes => 0x00
  | .null => 0x01
  | .false => 0x02
  | .true => 0x03
  | .integer => 0x04
  | .float => 0x05
  | .string => 0x08
  | .array => 0x20
  | .dict => 0x22
  | .staticDict => 0x23

def getCatIdFromByte (idByte : UInt8) : Except Exception CatId :=
  if idByte = serializeCatId .bytes then .ok .bytes
  else if idByte = serializeCatId .null then .ok .null
  else if idByte = serializeCatId .false then .ok .false
  else if idByte = serializeCatId .true then .ok .true
  else if idByte = serializeCatId .integer then .ok .integer
  else if idByte = serializeCatId .float then .ok .float
  else if idByte = serializeCatId .string then .ok .string
  else if idByte = serializeCatId .array then .ok .array
  else if idByte = serializeCatId .dict then .ok .dict
  else if idByte = serializeCatId .staticDict then .ok .staticDict
  else .error (.unknownCatId idByte)

def hexDigit (nibble : Nat) : Char := "0123456789ABCDEF".toList.getD nibble '0'

def byteToHex (byte : UInt8) : String :=
  String.ofList ['\\', 'x', hexDigit (byte.toNat / 16), hexDigit (byte.toNat % 16)]

/-! ## The items of a list -/

def itemAt (l : List Object) (idx : Nat) : Except Exception Object :=
  match l[idx]? with
  | some item => .ok item
  | none => .error (.objects (.indexError idx))

def bytesAt (l : List Object) (idx : Nat) : Except Exception (List UInt8) := do
  let item ← itemAt l idx
  item.asBytes.mapError .objects

def byteAt (bytes : List UInt8) (idx : Nat) : Except Exception UInt8 :=
  match bytes[idx]? with
  | some byte => .ok byte
  | none => .error (.objects (.indexError idx))

def checkRlpListSizeEq (catName : String) (pos expSize recvSize : Nat) : Except Exception Unit :=
  if expSize ≠ recvSize then
    .error (.atByte (catName ++ " requires " ++ toString expSize ++ " items in the RLP list, while " ++
      toString recvSize ++ " items were given") pos)
  else .ok ()

def checkRlpListSizeLe (catName : String) (pos expSize recvSize : Nat) : Except Exception Unit :=
  if expSize > recvSize then
    .error (.atByte (catName ++ " requires at least " ++ toString expSize ++
      " items in the RLP list, while " ++ toString recvSize ++ " items were given") pos)
  else .ok ()

/-- The items from `idx` on have the categories, each with its name. -/
def checkObjCat (catName : String) (pos : Nat) (l : List Object) :
    Nat → List (String × ObjCategory) → Except Exception Unit
  | _, [] => .ok ()
  | idx, cat :: cats => do
    let item ← itemAt l idx
    if item.getCategory ≠ cat.2 then
      .error (.atByte (catName ++ "'s item " ++ toString idx ++ " should be type of " ++ cat.1 ++
        ", while type of " ++ item.getCategory.name ++ " is given") pos)
    else checkObjCat catName pos l (idx + 1) cats

def checkRlpListTypeSizeEq (catName : String) (pos : Nat) (l : List Object)
    (objCat : List (String × ObjCategory)) : Except Exception Unit := do
  checkRlpListSizeEq catName pos objCat.length l.length
  checkObjCat catName pos l 0 objCat

def checkRlpListTypeSizeLe (catName : String) (pos : Nat) (l : List Object)
    (objCat : List (String × ObjCategory)) : Except Exception Unit := do
  checkRlpListSizeLe catName pos objCat.length l.length
  checkObjCat catName pos l 0 objCat

/-- What the checks of all categories do once the items are checked. -/
def preCheckSpecs (catName : String) (specsSize : Nat) (sizeText : String) (isCat : CatId → Bool)
    (pos : Nat) (l : List Object) : Except Exception CatId := do
  let specs ← bytesAt l 0
  if specs.length ≠ specsSize then
    .error (.atByte (catName ++ "'s specs bytes should be exactly " ++ sizeText) pos)
  else
    let idByte ← byteAt specs 0
    let catId ← getCatIdFromByte idByte
    if isCat catId then .ok catId
    else .error (.atByte ("The given RLP list is not in " ++ catName) pos)

def preCheckCatBytes (pos : Nat) (l : List Object) : Except Exception CatId := do
  checkRlpListTypeSizeEq "CAT Bytes" pos l [("Bytes", .bytes), ("Bytes", .bytes)]
  preCheckSpecs "CAT Bytes" 1 "1 byte" (· = .bytes) pos l

def preCheckCatNull (pos : Nat) (l : List Object) : Except Exception CatId := do
  checkRlpListTypeSizeEq "CAT Null" pos l [("Bytes", .bytes)]
  preCheckSpecs "CAT Null" 1 "1 byte" (· = .null) pos l

def preCheckCatBoolean (pos : Nat) (l : List Object) : Except Exception CatId := do
  checkRlpListTypeSizeEq "CAT True/False" pos l [("Bytes", .bytes)]
  preCheckSpecs "CAT True/False" 1 "1 byte" (fun catId => catId = .true || catId = .false) pos l

def preCheckCatInteger (pos : Nat) (l : List Object) : Except Exception CatId := do
  checkRlpListTypeSizeEq "CAT Integer" pos l [("Bytes", .bytes), ("Bytes", .bytes)]
  preCheckSpecs "CAT Integer" 3 "3 bytes" (· = .integer) pos l

def preCheckCatString (pos : Nat) (l : List Object) : Except Exception CatId := do
  checkRlpListTypeSizeEq "CAT String" pos l [("Bytes", .bytes), ("Bytes", .bytes)]
  preCheckSpecs "CAT String" 2 "2 byte" (· = .string) pos l

def preCheckCatArray (pos : Nat) (l : List Object) : Except Exception CatId := do
  checkRlpListTypeSizeLe "CAT Array" pos l [("Bytes", .bytes)]
  preCheckSpecs "CAT Array" 1 "1 byte" (· = .array) pos l

def preCheckCatDict (pos : Nat) (l : List Object) : Except Exception CatId := do
  checkRlpListTypeSizeLe "CAT Dict" pos l [("Bytes", .bytes)]
  preCheckSpecs "CAT Dict" 1 "1 byte" (· = .dict) pos l

/-! ## Integers -/

def checkSignedRange (pos : Nat) (intType : RealNumType) (val : RealNum) : Except Exception Unit :=
  if RealNumCompare.greater val (.cast intType intType.max) then
    .error (.atByte "The integer received exceeds the range of the targeting signed integer" pos)
  else .ok ()

def solveSignedness (intType : RealNumType) (pos : Nat) (sigByte : UInt8) (val : RealNum) :
    Except Exception RealNum :=
  if sigByte = 0x00 then .ok val
  else if sigByte = 0x10 then do
    checkSignedRange pos intType val
    .ok (.cast intType val.val)
  else if sigByte = 0x11 then do
    checkSignedRange pos intType val
    .ok (.cast intType (-1 * (RealNum.cast intType val.val).val))
  else .error (.atByte ("Invalid signedness byte (" ++ byteToHex sigByte ++ ") is given") pos)

/-- The little-endian bytes of an integer. -/
def rawToPrimitive (numType : RealNumType) (src : List UInt8) : Except Exception RealNum :=
  if src.length ≠ numType.bits / 8 then
    .error (.parseError "The given raw data size doesn't match the size of the targeting type" 0)
  else .ok (.cast numType (BigEndian.value src.reverse))

/-- The unsigned and the signed type of a width. -/
def typesOfWidth (widthByte : UInt8) : Option (RealNumType × RealNumType) :=
  if widthByte = 0x00 then some (.uint8, .int8)
  else if widthByte = 0x01 then some (.uint16, .int16)
  else if widthByte = 0x02 then some (.uint32, .int32)
  else if widthByte = 0x03 then some (.uint64, .int64)
  else none

/-! ## The transforms -/

def transformCatBytes (pos : Nat) (l : List Object) : Except Exception Object := do
  let _ ← preCheckCatBytes pos l
  let rawData ← bytesAt l 1
  .ok (.hashable (.bytes rawData))

def transformCatNull (pos : Nat) (l : List Object) : Except Exception Object := do
  let _ ← preCheckCatNull pos l
  .ok (.hashable .null)

def transformCatBoolean (pos : Nat) (l : List Object) : Except Exception Object := do
  let catId ← preCheckCatBoolean pos l
  .ok (.hashable (.realNum (.ofBool (catId = .true))))

def transformCatInteger (pos : Nat) (l : List Object) : Except Exception Object := do
  let _ ← preCheckCatInteger pos l
  let specs ← bytesAt l 0
  let rawData ← bytesAt l 1
  let widthByte ← byteAt specs 1
  let sigByte ← byteAt specs 2
  match typesOfWidth widthByte with
  | some types => do
    let val ← rawToPrimitive types.1 rawData
    let num ← solveSignedness types.2 pos sigByte val
    .ok (.hashable (.realNum num))
  | none => .error (.atByte ("Invalid integer width byte (" ++ byteToHex widthByte ++ ") is given") pos)

def transformCatString (pos : Nat) (l : List Object) : Except Exception Object := do
  let _ ← preCheckCatString pos l
  let specs ← bytesAt l 0
  let chWidth ← byteAt specs 1
  let rawData ← bytesAt l 1
  if chWidth = 0x00 then
    let res ← (SimpleUtf.utfConvert rawData).mapError .utf
    .ok (.hashable (.string res))
  else .error (.atByte ("The given char width value is unknown - " ++ byteToHex chWidth) pos)

def transformCatArray (pos : Nat) (l : List Object) : Except Exception Object := do
  let _ ← preCheckCatArray pos l
  .ok (.list l.tail)

/-- The loop over the pairs behind the one with `prevKey`. -/
def catDictInsertRest (pos : Nat) (prevKey : HashableObject) : List Object → Dict →
    Except Exception Dict
  | keyObj :: val :: rest, d => do
    let key ← keyObj.asHashable.mapError .objects
    if d.hasKey key then .error (.duplicatedKey key pos)
    else if ← (key.lessThan prevKey).mapError .objects then .error (.keyOutOfOrder key pos)
    else catDictInsertRest pos key rest (d.insertOnly key val)
  | _, d => .ok d

def transformCatDict (pos : Nat) (l : List Object) : Except Exception Object := do
  let _ ← preCheckCatDict pos l
  if (l.length - 1) % 2 ≠ 0 then
    .error (.atByte "The number of given items cannot form key-value pairs for a dictionary" pos)
  else
    match l.tail with
    | keyObj :: val :: rest => do
      let key ← keyObj.asHashable.mapError .objects
      let res ← catDictInsertRest pos key rest (Dict.insertOnly [] key val)
      .ok (.dict res)
    | _ => .ok (.dict [])

/-- Floats and static dictionaries have an identifier and no transform. -/
def transformGeneric (pos : Nat) (l : List Object) : Except Exception Object := do
  checkRlpListTypeSizeLe "AdvancedRlp" pos l [("Bytes", .bytes)]
  let specs ← bytesAt l 0
  let idByte ← byteAt specs 0
  let cid ← getCatIdFromByte idByte
  match cid with
  | .bytes => transformCatBytes pos l
  | .null => transformCatNull pos l
  | .false | .true => transformCatBoolean pos l
  | .integer => transformCatInteger pos l
  | .string => transformCatString pos l
  | .array => transformCatArray pos l
  | .dict => transformCatDict pos l
  | .float | .staticDict => .error (.atByte ("Unsupported CAT ID value - " ++ byteToHex idByte) pos)

end Decentagram.AdvancedRlp
