import Decentagram.DecentEnclave.AesGcmPackager
import Decentagram.Lib.Buffer
import Decentagram.Lib.Exec

/-! # The bytes of a package

`GetKeyMeta`, `Pack` and `Unpack` of `AesGcmPackager` on bytes.  Positions and sizes are computed modulo
`2 ^ 64`, and a read or a write outside of a buffer has undefined behaviour.
-/

namespace Decentagram.DecentEnclave.PackageBytes

open Decentagram.Lib AesGcm

/-- A region of memory.  No object is larger than the distance of two pointers. -/
structure Region where
  bytes : List UInt8
  fits : bytes.length < 2 ^ 63

inductive PackagerError where
  | exception (message : String)
  | invalidArgument
  | outOfRange
  | lengthError
  | encrypt
  | decrypt
deriving DecidableEq, Repr

/-- A call of the packager, which has no state that changes. -/
abbrev Packing := Exec PackagerError Unit

/-- What a sum or a product of `size_t` is stored as. -/
def sizeT (n : Nat) : Nat := n % 2 ^ 64

theorem sizeT_of_lt {n : Nat} (fits : n < 2 ^ 64) : sizeT n = n := Nat.mod_eq_of_lt fits

/-- The most bytes that a vector holds. -/
def maxSize : Nat := 2 ^ 63 - 1

/-- `std::vector<uint8_t>(size)`. -/
def newVector (size : Nat) : Packing (List UInt8) := do
  Exec.throwIf (maxSize < size) .lengthError
  return List.replicate size 0

def reserve (size : Nat) : Packing Unit := Exec.throwIf (maxSize < size) .lengthError

/-- The bytes between two pointers into a buffer. -/
def readRange (buffer : List UInt8) (first last : Nat) : Packing (List UInt8) :=
  Exec.orUndefined (Buffer.range buffer first last)

def readUint64 (buffer : List UInt8) (position : Nat) : Packing UInt64 :=
  ofMemory <$> readRange buffer position (position + 8)

def memcpy (buffer : List UInt8) (position : Nat) (bytes : List UInt8) : Packing (List UInt8) :=
  Exec.orUndefined (Buffer.store buffer position bytes)

/-- `CtnByteRgR(region, beginOffset, endOffset)`. -/
def ctnByteRgR (region : List UInt8) (beginOffset endOffset : Nat) : Packing (List UInt8) := do
  Exec.throwIf (endOffset < beginOffset) .invalidArgument
  Exec.throwIf (endOffset > region.length) .outOfRange
  return (region.drop beginOffset).take (endOffset - beginOffset)

/-- `CtnByteRgR(region, beginOffset)`. -/
def ctnByteRgRFrom (region : List UInt8) (beginOffset : Nat) : Packing (List UInt8) := do
  Exec.throwIf (beginOffset > region.length) .outOfRange
  return region.drop beginOffset

/-- AES-GCM with the key of a packager.  Both calls may fail. -/
structure AesGcmOneGo where
  encrypt (iv addData data : List UInt8) : Option (List UInt8 × Vector UInt8 16)
  decrypt (iv addData data tag : List UInt8) : Option (List UInt8)

/-! ## `GetKeyMeta` -/

def getKeyMeta (pack : List UInt8) : Packing (List UInt8) := do
  Exec.throwIf (pack.length < sealMetaSize) (.exception
    "AesGcmPackager::GetKeyMeta - The given package's size is smaller than expected.")
  let keyMetaSize ← readUint64 pack 36
  let keyMetaEndPos := sizeT (sealMetaSize + keyMetaSize.toNat)
  Exec.throwIf (pack.length < keyMetaEndPos) (.exception
    "AesGcmPackager::GetKeyMeta - The given package's size is smaller than expected.")
  readRange pack sealMetaSize keyMetaEndPos

/-! ## `Pack` -/

/-- The sizes; a block size of zero is divided by. -/
def getTotalSealedBlockSize (inSealedBlockSize inKeyMetaSize inMetaSize inDataSize : Nat) :
    Packing SealedBlockSize :=
  if inSealedBlockSize = 0 then Exec.undefined
  else
    let totalDataSize := sizeT (sealPkgAllKnownSize + inKeyMetaSize + inMetaSize + inDataSize)
    let totalBlockNum := totalDataSize / inSealedBlockSize +
      if totalDataSize % inSealedBlockSize = 0 then 0 else 1
    let totalBlockSize := sizeT (totalBlockNum * inSealedBlockSize)
    let padSize := sizeT (totalBlockSize + (2 ^ 64 - totalDataSize))
    return {
      totalSize := totalBlockSize
      addSize := sizeT (12 + 8 + 8 + inKeyMetaSize)
      encryptedSize := sizeT (8 + 8 + inMetaSize + inDataSize + padSize) }

/-- The input of the encryption: both sizes, the metadata and the data, on zeros. -/
def buildInputPkg (encryptSize : Nat) (metadata data : List UInt8) : Packing (List UInt8) := do
  let inputPkg ← newVector encryptSize
  let inputPkg ← memcpy inputPkg 0 (toMemory (UInt64.ofNat metadata.length))
  let inputPkg ← memcpy inputPkg 8 (toMemory (UInt64.ofNat data.length))
  let inputPkg ← memcpy inputPkg 16 metadata
  memcpy inputPkg (16 + metadata.length) data

/-- The package up to the ciphertext, whose tag is still missing. -/
def buildHeader (totalPackSize encryptSize : Nat) (keyMeta iv : List UInt8) :
    Packing (List UInt8) := do
  let finPackage ← newVector totalPackSize
  let finPackage ← memcpy finPackage 16 iv
  let finPackage ← memcpy finPackage 28 (toMemory (UInt64.ofNat encryptSize))
  let finPackage ← memcpy finPackage 36 (toMemory (UInt64.ofNat keyMeta.length))
  memcpy finPackage 44 keyMeta

/-- The additional data of the encryption, `packAddSize` bytes of the package and those of the caller. -/
def fullAddData (package addData : List UInt8) (packAddSize fpEncDataPos : Nat) :
    Packing (List UInt8) :=
  if addData.length > 0 then do
    reserve (sizeT (packAddSize + addData.length))
    let known ← readRange package 16 fpEncDataPos
    return known ++ addData
  else
    ctnByteRgR package 16 fpEncDataPos

/-- `Pack` once the sizes are known. -/
def packWith (sizes : SealedBlockSize) (gcm : AesGcmOneGo) (keyMeta metadata data addData : Region)
    (iv : Vector UInt8 12) : Packing (List UInt8 × Vector UInt8 16) := do
  let inputPkg ← buildInputPkg sizes.encryptedSize metadata.bytes data.bytes
  let finPackage ← buildHeader sizes.totalSize sizes.encryptedSize keyMeta.bytes iv.toList
  let fpEncDataPos := sizeT (sealMetaSize + keyMeta.bytes.length)
  let iv ← ctnByteRgR finPackage 16 28
  let pkgAddData ← fullAddData finPackage addData.bytes sizes.addSize fpEncDataPos
  let (encrypted, tag) ← Exec.ofOption .encrypt (gcm.encrypt iv pkgAddData inputPkg)
  let finPackage ← memcpy finPackage 0 tag.toList
  let finPackage ← memcpy finPackage fpEncDataPos encrypted
  return (finPackage, tag)

/-- `iv` is what the random generator writes. -/
def pack (sealedBlockSize : UInt64) (gcm : AesGcmOneGo) (keyMeta metadata data addData : Region)
    (iv : Vector UInt8 12) : Packing (List UInt8 × Vector UInt8 16) := do
  let sizes ← getTotalSealedBlockSize sealedBlockSize.toNat keyMeta.bytes.length metadata.bytes.length
    data.bytes.length
  packWith sizes gcm keyMeta metadata data addData iv

/-! ## `Unpack` -/

structure DecryptArguments where
  iv : List UInt8
  addData : List UInt8
  data : List UInt8
  tag : List UInt8
deriving DecidableEq, Repr

/-- The parts of a package that are decrypted. -/
def argumentsOf (package pkgAddData : List UInt8) (fpEncDataPos : Nat) : Packing DecryptArguments := do
  let iv ← ctnByteRgR package 16 28
  let data ← ctnByteRgRFrom package fpEncDataPos
  let tag ← ctnByteRgR package 0 16
  return { iv, addData := pkgAddData, data, tag }

/-- What is done before the package is authenticated. -/
def decryptArguments (package addData : List UInt8) : Packing DecryptArguments := do
  let payloadSize ← readUint64 package 28
  let keyMetaSize ← readUint64 package 36
  let fpEncDataPos := sizeT (sealMetaSize + keyMetaSize.toNat)
  Exec.throwIf (package.length ≠ sizeT (fpEncDataPos + payloadSize.toNat)) (.exception
    "AesGcmPackager::Unpack - The package size doesn't match the expected size.")
  let pkgAddData ← fullAddData package addData (sizeT (28 + keyMetaSize.toNat)) fpEncDataPos
  argumentsOf package pkgAddData fpEncDataPos

def checkInputTag (package : List UInt8) : Option (Vector UInt8 16) → Packing Unit
  | none => return
  | some inTag => do
    let tag ← readRange package 0 16
    Exec.throwIf (tag ≠ inTag.toList) (.exception ("AesGcmPackager::Unpack - The tag/MAC contained in " ++
      "the message package doesn't match the given one."))

/-- The data and the metadata of what was decrypted. -/
def separate (outputPkg : List UInt8) : Packing (List UInt8 × List UInt8) := do
  let metaSize ← readUint64 outputPkg 0
  let dataSize ← readUint64 outputPkg 8
  Exec.throwIf (outputPkg.length < sizeT (16 + metaSize.toNat + dataSize.toNat)) (.exception
    ("AesGcmPackager::Unpack - The encrypted payload package size is smaller than the expected size."))
  let outMeta ← readRange outputPkg 16 (16 + metaSize.toNat)
  let outData ← readRange outputPkg (16 + metaSize.toNat) (16 + metaSize.toNat + dataSize.toNat)
  return (outData, outMeta)

def unpack (gcm : AesGcmOneGo) (package addData : List UInt8) (inTag : Option (Vector UInt8 16)) :
    Packing (List UInt8 × List UInt8) := do
  let arguments ← decryptArguments package addData
  let outputPkg ← Exec.ofOption .decrypt
    (gcm.decrypt arguments.iv arguments.addData arguments.data arguments.tag)
  checkInputTag package inTag
  separate outputPkg

end Decentagram.DecentEnclave.PackageBytes
