import Decentagram.Lib.BigEndian
import Decentagram.Lib.Result

/-! # Packages under AES-GCM

`Pack` and `Unpack` of `AesGcmPackager` over an idealised AES-GCM.  A ciphertext with its tag is opaque, and
so a package is kept by its fields; the other fields are the bytes that the tag covers.
-/

namespace Decentagram.DecentEnclave.AesGcm

open Decentagram.Lib

abbrev KeyType := Vector UInt8 16

/-- AES-GCM where only the key, IV and additional data of an encryption open it. -/
structure IdealAesGcm (Encrypted : Type) where
  encrypt (key : KeyType) (iv addData data : List UInt8) : Encrypted
  decrypt (key : KeyType) (iv addData : List UInt8) (encrypted : Encrypted) : Option (List UInt8)
  size : Encrypted → Nat
  size_encrypt : ∀ key iv addData data, size (encrypt key iv addData data) = data.length
  decrypt_encrypt : ∀ key iv addData data key' iv' addData' data',
    decrypt key' iv' addData' (encrypt key iv addData data) = some data' ↔
      key' = key ∧ iv' = iv ∧ addData' = addData ∧ data' = data

/-- The eight bytes of a number in memory. -/
def toMemory (n : UInt64) : List UInt8 := (BigEndian.digits 8 n.toNat).reverse

def ofMemory (bytes : List UInt8) : UInt64 := UInt64.ofNat (BigEndian.value bytes.reverse)

@[simp] theorem length_toMemory (n : UInt64) : (toMemory n).length = 8 := by simp [toMemory]

@[simp] theorem ofMemory_toMemory (n : UInt64) : ofMemory (toMemory n) = n := by
  have small : n.toNat < 256 ^ 8 := n.toNat_lt
  rw [ofMemory, toMemory, List.reverse_reverse, BigEndian.value_digits, Nat.mod_eq_of_lt small,
    UInt64.ofNat_toNat]

structure Package (Encrypted : Type) where
  iv : List UInt8
  payloadSize : UInt64
  keyMetaSize : UInt64
  keyMeta : List UInt8
  encrypted : Encrypted

/-- What is in a package between the tag and the ciphertext. -/
def Package.header {Encrypted : Type} (package : Package Encrypted) : List UInt8 :=
  package.iv ++ toMemory package.payloadSize ++ toMemory package.keyMetaSize ++ package.keyMeta

/-- Tag, IV, payload size and key metadata size. -/
def sealMetaSize : Nat := 16 + 12 + 8 + 8

def sealPkgAllKnownSize : Nat := sealMetaSize + 8 + 8

structure SealedBlockSize where
  totalSize : Nat
  addSize : Nat
  encryptedSize : Nat

def getTotalSealedBlockSize (inSealedBlockSize inKeyMetaSize inMetaSize inDataSize : Nat) :
    SealedBlockSize :=
  let totalDataSize := sealPkgAllKnownSize + inKeyMetaSize + inMetaSize + inDataSize
  let totalBlockNum := totalDataSize / inSealedBlockSize +
    if totalDataSize % inSealedBlockSize = 0 then 0 else 1
  let totalBlockSize := totalBlockNum * inSealedBlockSize
  let padSize := totalBlockSize - totalDataSize
  { totalSize := totalBlockSize
    addSize := 12 + 8 + 8 + inKeyMetaSize
    encryptedSize := 8 + 8 + inMetaSize + inDataSize + padSize }

/-- The plaintext of a package, filled up with zeros. -/
def inputPkg (encryptSize : Nat) (metadata data : List UInt8) : List UInt8 :=
  let known := toMemory (UInt64.ofNat metadata.length) ++ toMemory (UInt64.ofNat data.length) ++ metadata ++
    data
  known ++ List.replicate (encryptSize - known.length) 0

inductive UnpackError where
  | exception (message : String)
  | decrypt
deriving DecidableEq, Repr

/-- `m_aesGcm`, which has the key, and the size of the blocks. -/
structure AesGcmPackager where
  key : KeyType
  sealedBlockSize : Nat
deriving DecidableEq

namespace AesGcmPackager

variable {Encrypted : Type} (gcm : IdealAesGcm Encrypted)

def fullAddData (header addData : List UInt8) : List UInt8 :=
  if addData.length > 0 then header ++ addData else header

/-- `iv` is what the random generator returns. -/
def pack (packager : AesGcmPackager) (keyMeta metadata data addData iv : List UInt8) :
    Package Encrypted :=
  let sizes := getTotalSealedBlockSize packager.sealedBlockSize keyMeta.length metadata.length data.length
  let header := iv ++ toMemory (UInt64.ofNat sizes.encryptedSize) ++
    toMemory (UInt64.ofNat keyMeta.length) ++ keyMeta
  { iv
    payloadSize := UInt64.ofNat sizes.encryptedSize
    keyMetaSize := UInt64.ofNat keyMeta.length
    keyMeta
    encrypted := gcm.encrypt packager.key iv (fullAddData header addData)
      (inputPkg sizes.encryptedSize metadata data) }

/-- The metadata and the data of a plaintext. -/
def separate (outputPkg : List UInt8) : Except UnpackError (List UInt8 × List UInt8) :=
  let metaSize := ofMemory (outputPkg.take 8)
  let dataSize := ofMemory ((outputPkg.drop 8).take 8)
  if UInt64.ofNat outputPkg.length < 16 + metaSize + dataSize then
    .error (.exception ("AesGcmPackager::Unpack - The encrypted payload package size " ++
      "is smaller than the expected size."))
  else
    .ok ((outputPkg.drop (16 + metaSize.toNat)).take dataSize.toNat,
      (outputPkg.drop 16).take metaSize.toNat)

/-- `Unpack` without a tag to compare with, as every call has it. -/
def unpack (packager : AesGcmPackager) (package : Package Encrypted) (addData : List UInt8) :
    Except UnpackError (List UInt8 × List UInt8) :=
  let fpEncDataPos := UInt64.ofNat sealMetaSize + package.keyMetaSize
  let regionSize := sealMetaSize + package.keyMeta.length + gcm.size package.encrypted
  if UInt64.ofNat regionSize ≠ fpEncDataPos + package.payloadSize then
    .error (.exception
      "AesGcmPackager::Unpack - The package size doesn't match the expected size.")
  else
    match gcm.decrypt packager.key package.iv (fullAddData package.header addData) package.encrypted with
    | none => .error .decrypt
    | some outputPkg => separate outputPkg

/-! ## A package opens to what was packed -/

theorem encryptedSize_eq (blockSize keyMetaSize metaSize dataSize : Nat) :
    ∃ padSize, (getTotalSealedBlockSize blockSize keyMetaSize metaSize dataSize).encryptedSize =
      16 + metaSize + dataSize + padSize := ⟨_, rfl⟩

/-- The padding is at most one block. -/
theorem encryptedSize_le (blockSize keyMetaSize metaSize dataSize : Nat) :
    (getTotalSealedBlockSize blockSize keyMetaSize metaSize dataSize).encryptedSize ≤
      16 + metaSize + dataSize + blockSize := by
  simp only [getTotalSealedBlockSize]
  generalize sealPkgAllKnownSize + keyMetaSize + metaSize + dataSize = total
  have blocks : total / blockSize * blockSize ≤ total := Nat.div_mul_le_self total blockSize
  by_cases whole : total % blockSize = 0
  · simp only [if_pos whole, Nat.add_zero]
    omega
  · simp only [if_neg whole, Nat.add_mul, Nat.one_mul]
    omega

theorem length_inputPkg {encryptSize padSize : Nat} {metadata data : List UInt8}
    (isSize : encryptSize = 16 + metadata.length + data.length + padSize) :
    (inputPkg encryptSize metadata data).length = encryptSize := by
  simp only [inputPkg, List.length_append, length_toMemory, List.length_replicate]
  omega

theorem separate_inputPkg {encryptSize padSize : Nat} {metadata data : List UInt8}
    (isSize : encryptSize = 16 + metadata.length + data.length + padSize) (small : encryptSize < 2 ^ 64) :
    separate (inputPkg encryptSize metadata data) = .ok (data, metadata) := by
  have length := length_inputPkg isSize
  have isMeta : (UInt64.ofNat metadata.length).toNat = metadata.length :=
    UInt64.toNat_ofNat_of_lt' (by change _ < 2 ^ 64; omega)
  have isData : (UInt64.ofNat data.length).toNat = data.length :=
    UInt64.toNat_ofNat_of_lt' (by change _ < 2 ^ 64; omega)
  have shape : ∃ padding, inputPkg encryptSize metadata data = toMemory (UInt64.ofNat metadata.length) ++
      (toMemory (UInt64.ofNat data.length) ++ (metadata ++ (data ++ padding))) := by
    simp only [inputPkg, List.append_assoc]
    exact ⟨_, rfl⟩
  obtain ⟨padding, isShape⟩ := shape
  have metaField : (inputPkg encryptSize metadata data).take 8 =
      toMemory (UInt64.ofNat metadata.length) := by
    rw [isShape, List.take_left' (length_toMemory _)]
  have afterMeta : (inputPkg encryptSize metadata data).drop 8 =
      toMemory (UInt64.ofNat data.length) ++ (metadata ++ (data ++ padding)) := by
    rw [isShape, List.drop_left' (length_toMemory _)]
  have dataField : ((inputPkg encryptSize metadata data).drop 8).take 8 =
      toMemory (UInt64.ofNat data.length) := by
    rw [afterMeta, List.take_left' (length_toMemory _)]
  have afterFields : (inputPkg encryptSize metadata data).drop 16 = metadata ++ (data ++ padding) := by
    rw [show 16 = 8 + 8 from rfl, ← List.drop_drop, afterMeta, List.drop_left' (length_toMemory _)]
  have enough : ¬ UInt64.ofNat encryptSize <
      16 + UInt64.ofNat metadata.length + UInt64.ofNat data.length := by
    rw [UInt64.lt_iff_toNat_lt, UInt64.toNat_add, UInt64.toNat_add, isMeta, isData,
      UInt64.toNat_ofNat_of_lt' small]
    have sixteen : (16 : UInt64).toNat = 16 := rfl
    omega
  simp only [separate, length, metaField, dataField, ofMemory_toMemory, if_neg enough, isMeta, isData]
  rw [← List.drop_drop, afterFields, List.drop_left, List.take_left, List.take_left]

variable {packager packager' : AesGcmPackager}
  {keyMeta metadata data data' metadata' addData addData' iv : List UInt8}

theorem fullAddData_inj {header : List UInt8} (sameLength : addData'.length = addData.length) :
    fullAddData header addData' = fullAddData header addData ↔ addData' = addData := by
  unfold fullAddData
  rw [sameLength]
  split
  · exact List.append_cancel_left_eq header addData' addData ▸ Iff.rfl
  · rename_i none
    have isEmpty : addData = [] := List.length_eq_zero_iff.mp (by omega)
    have isEmpty' : addData' = [] := List.length_eq_zero_iff.mp (by omega)
    simp [isEmpty, isEmpty']

theorem unpack_eq_ok {package : Package Encrypted} {result : List UInt8 × List UInt8} :
    packager.unpack gcm package addData = .ok result ↔
      UInt64.ofNat (sealMetaSize + package.keyMeta.length + gcm.size package.encrypted) =
          UInt64.ofNat sealMetaSize + package.keyMetaSize + package.payloadSize ∧
        ∃ outputPkg, gcm.decrypt packager.key package.iv (fullAddData package.header addData)
            package.encrypted = some outputPkg ∧
          separate outputPkg = .ok result := by
  unfold unpack
  simp only [ne_eq, ite_not]
  split
  · rename_i fits
    split
    · rename_i closed
      simp [closed]
    · rename_i outputPkg opened
      simp [fits, opened]
  · rename_i unfit
    exact iff_of_false (by simp) fun opened => unfit opened.1

/-- A package is unpacked by its own key and additional data, to what was packed, and by no other. -/
theorem unpack_pack (sameLength : addData'.length = addData.length)
    (small : (getTotalSealedBlockSize packager.sealedBlockSize keyMeta.length metadata.length
      data.length).encryptedSize < 2 ^ 64) :
    packager'.unpack gcm (packager.pack gcm keyMeta metadata data addData iv) addData' =
        .ok (data', metadata') ↔
      packager'.key = packager.key ∧ addData' = addData ∧ data' = data ∧ metadata' = metadata := by
  obtain ⟨padSize, isSize⟩ :=
    encryptedSize_eq packager.sealedBlockSize keyMeta.length metadata.length data.length
  have fits : UInt64.ofNat (sealMetaSize + keyMeta.length +
      gcm.size (packager.pack gcm keyMeta metadata data addData iv).encrypted) =
      UInt64.ofNat sealMetaSize + UInt64.ofNat keyMeta.length +
        (packager.pack gcm keyMeta metadata data addData iv).payloadSize := by
    simp only [pack, gcm.size_encrypt, length_inputPkg isSize, UInt64.ofNat_add]
  have opens : ∀ outputPkg, gcm.decrypt packager'.key iv
      (fullAddData (packager.pack gcm keyMeta metadata data addData iv).header addData')
      (packager.pack gcm keyMeta metadata data addData iv).encrypted = some outputPkg ↔
        packager'.key = packager.key ∧ addData' = addData ∧ outputPkg = inputPkg
          (getTotalSealedBlockSize packager.sealedBlockSize keyMeta.length metadata.length
            data.length).encryptedSize metadata data := by
    intro outputPkg
    refine (gcm.decrypt_encrypt _ _ _ _ _ _ _ _).trans ?_
    have sameAddData := @fullAddData_inj addData addData'
      (packager.pack gcm keyMeta metadata data addData iv).header sameLength
    rw [← sameAddData]
    simp only [true_and]
    rfl
  rw [unpack_eq_ok]
  constructor
  · intro unpacked
    obtain ⟨-, outputPkg, opened, separated⟩ := unpacked
    obtain ⟨sameKey, sameAddData, rfl⟩ := (opens outputPkg).mp opened
    rw [separate_inputPkg isSize small] at separated
    cases separated
    exact ⟨sameKey, sameAddData, rfl, rfl⟩
  · intro same
    obtain ⟨sameKey, sameAddData, rfl, rfl⟩ := same
    exact ⟨fits, _, (opens _).mpr ⟨sameKey, sameAddData, rfl⟩, separate_inputPkg isSize small⟩

end AesGcmPackager

end Decentagram.DecentEnclave.AesGcm
