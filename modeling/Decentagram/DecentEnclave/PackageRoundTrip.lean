import Decentagram.DecentEnclave.PackageParsing

/-! # Packages are opened to what was packed

The package that `Pack` returns is the tag, the header of the package and the ciphertext, with nothing
behind it.  Where a size would wrap, `Pack` writes outside of a buffer and does not return.
-/

namespace Decentagram.DecentEnclave.PackageBytes

open Decentagram.Lib AesGcm

/-! ## Sizes -/

/-- The least multiple of the block size that is not below the total. -/
theorem roundUp_bounds {blockSize : Nat} (positive : 0 < blockSize) (total : Nat) :
    total ≤ (total / blockSize + if total % blockSize = 0 then 0 else 1) * blockSize ∧
      (total / blockSize + if total % blockSize = 0 then 0 else 1) * blockSize < total + blockSize := by
  have division : total / blockSize * blockSize + total % blockSize = total := Nat.div_add_mod' _ _
  have remainder := Nat.mod_lt total positive
  by_cases whole : total % blockSize = 0
  · simp only [if_pos whole, Nat.add_zero]
    omega
  · simp only [if_neg whole, Nat.add_mul, Nat.one_mul]
    omega

section Sizes

variable {blockSize keyMetaSize metaSize dataSize : Nat}

theorem dvd_totalSize :
    blockSize ∣ (AesGcm.getTotalSealedBlockSize blockSize keyMetaSize metaSize dataSize).totalSize :=
  Dvd.intro_left _ rfl

theorem totalSize_eq (positive : 0 < blockSize) :
    (AesGcm.getTotalSealedBlockSize blockSize keyMetaSize metaSize dataSize).totalSize =
      sealMetaSize + keyMetaSize +
        (AesGcm.getTotalSealedBlockSize blockSize keyMetaSize metaSize dataSize).encryptedSize := by
  have bounds := (roundUp_bounds positive (sealPkgAllKnownSize + keyMetaSize + metaSize + dataSize)).1
  simp only [AesGcm.getTotalSealedBlockSize]
  simp only [sealPkgAllKnownSize] at bounds ⊢
  omega

/-- The difference of two sizes, computed modulo `2 ^ 64`. -/
theorem sizeT_sub {a b : Nat} (le : b ≤ a) (fits : a < 2 ^ 64) : sizeT (a + (2 ^ 64 - b)) = a - b := by
  rw [sizeT]
  omega

/-- Without a wrap the sizes are computed as they are meant. -/
theorem getTotalSealedBlockSize_of_fits (positive : 0 < blockSize)
    (fits : (AesGcm.getTotalSealedBlockSize blockSize keyMetaSize metaSize dataSize).totalSize < 2 ^ 64) :
    getTotalSealedBlockSize blockSize keyMetaSize metaSize dataSize () =
      .ok (AesGcm.getTotalSealedBlockSize blockSize keyMetaSize metaSize dataSize) () := by
  obtain ⟨lower, -⟩ := roundUp_bounds positive (sealPkgAllKnownSize + keyMetaSize + metaSize + dataSize)
  simp only [AesGcm.getTotalSealedBlockSize] at fits
  have total : sizeT (sealPkgAllKnownSize + keyMetaSize + metaSize + dataSize) =
      sealPkgAllKnownSize + keyMetaSize + metaSize + dataSize := sizeT_of_lt (lower.trans_lt fits)
  simp only [getTotalSealedBlockSize, if_neg (Nat.pos_iff_ne_zero.mp positive), total, sizeT_of_lt fits,
    sizeT_sub lower fits, AesGcm.getTotalSealedBlockSize]
  generalize (_ / blockSize + _) * blockSize = rounded at *
  simp only [sealPkgAllKnownSize, sealMetaSize] at lower ⊢
  rw [sizeT_of_lt (by omega), sizeT_of_lt (by omega)]
  rfl

/-- A total that holds all that is written did not wrap. -/
theorem fits_of_written (blockFits : blockSize < 2 ^ 64) {sizes : SealedBlockSize}
    (returned : getTotalSealedBlockSize blockSize keyMetaSize metaSize dataSize () = .ok sizes ())
    (written : sealPkgAllKnownSize + keyMetaSize + metaSize + dataSize ≤ sizes.totalSize) :
    0 < blockSize ∧
      (AesGcm.getTotalSealedBlockSize blockSize keyMetaSize metaSize dataSize).totalSize < 2 ^ 64 := by
  unfold getTotalSealedBlockSize at returned
  split at returned
  next => cases returned
  next nonzero =>
    have positive : 0 < blockSize := Nat.pos_of_ne_zero nonzero
    cases returned
    have below : sealPkgAllKnownSize + keyMetaSize + metaSize + dataSize < 2 ^ 64 :=
      Nat.lt_of_le_of_lt written (Nat.mod_lt _ (Nat.two_pow_pos 64))
    obtain ⟨-, upper⟩ :=
      roundUp_bounds positive (sealPkgAllKnownSize + keyMetaSize + metaSize + dataSize)
    simp only [sizeT_of_lt below] at written
    simp only [AesGcm.getTotalSealedBlockSize]
    generalize (_ / blockSize + _) * blockSize = rounded at *
    refine ⟨positive, ?_⟩
    -- a multiple that wrapped would be smaller than what was written
    by_contra wraps
    rw [sizeT] at written
    omega

end Sizes

/-! ## Writing -/

variable {front elements metadata data keyMeta iv addData : List UInt8} {position count : Nat}

theorem newVector_apply (size : Nat) : newVector size () =
    if maxSize < size then .throws .lengthError () else .ok (List.replicate size 0) () := by
  simp only [newVector, Exec.bind_apply, Exec.throwIf_apply]
  split <;> rfl

theorem memcpy_outside {buffer : List UInt8} (outside : buffer.length < position + elements.length) :
    memcpy buffer position elements () = .undefined := by
  simp [memcpy, Buffer.store_eq_none_iff.mpr outside]

/-- What is written behind the part of a vector that was written before. -/
theorem memcpy_replicate (isPosition : position = front.length) :
    memcpy (front ++ List.replicate count 0) position elements () =
      if elements.length ≤ count then
        .ok ((front ++ elements) ++ List.replicate (count - elements.length) 0) ()
      else .undefined := by
  split
  next fits => simp [memcpy, Buffer.store_replicate isPosition fits]
  next beyond => exact memcpy_outside (by simp; omega)

/-- Writes the pieces one behind the other. -/
def memcpyAll (buffer : List UInt8) (position : Nat) : List (List UInt8) → Packing (List UInt8)
  | [] => return buffer
  | piece :: pieces => do
    let buffer ← memcpy buffer position piece
    memcpyAll buffer (position + piece.length) pieces

theorem memcpyAll_eq_ok {pieces : List (List UInt8)} (isPosition : position = front.length)
    {result : List UInt8} :
    memcpyAll (front ++ List.replicate count 0) position pieces () = .ok result () ↔
      pieces.flatten.length ≤ count ∧
        front ++ (pieces.flatten ++ List.replicate (count - pieces.flatten.length) 0) = result := by
  induction pieces generalizing front position count with
  | nil => simp [memcpyAll]
  | cons piece pieces inductionHypothesis =>
    rw [memcpyAll, Exec.bind_apply, memcpy_replicate isPosition, List.flatten_cons, List.length_append]
    split
    next fits =>
      have isNext : position + piece.length = (front ++ piece).length := by simp [isPosition]
      rw [Outcome.andThen_ok, inductionHypothesis isNext, Nat.sub_sub, List.append_assoc, List.append_assoc]
      refine and_congr_left fun _ => ?_
      omega
    next beyond =>
      simp
      omega

theorem buildInputPkg_eq_ok {encryptSize : Nat} {result : List UInt8} :
    buildInputPkg encryptSize metadata data () = .ok result () ↔ encryptSize ≤ maxSize ∧
      16 + metadata.length + data.length ≤ encryptSize ∧ inputPkg encryptSize metadata data = result := by
  have pieces : buildInputPkg encryptSize metadata data = newVector encryptSize >>= fun inputPkg =>
      memcpyAll inputPkg 0 [toMemory (UInt64.ofNat metadata.length), toMemory (UInt64.ofNat data.length),
        metadata, data] := by
    simp [buildInputPkg, memcpyAll]
  rw [pieces, Exec.bind_apply, newVector_apply]
  split
  next tooLarge =>
    simp
    omega
  next fits =>
    have written := @memcpyAll_eq_ok [] 0 encryptSize [toMemory (UInt64.ofNat metadata.length),
      toMemory (UInt64.ofNat data.length), metadata, data] rfl result
    rw [List.nil_append] at written
    rw [Outcome.andThen_ok, written]
    simp [inputPkg, Nat.not_lt.mp fits, Nat.add_assoc]
    omega

/-- The header of a package, between the tag and the ciphertext. -/
def headerOf (encryptSize : Nat) (keyMeta iv : List UInt8) : List UInt8 :=
  iv ++ (toMemory (UInt64.ofNat encryptSize) ++ (toMemory (UInt64.ofNat keyMeta.length) ++ keyMeta))

theorem length_headerOf (encryptSize : Nat) (keyMeta : List UInt8) (ivSize : iv.length = 12) :
    (headerOf encryptSize keyMeta iv).length = 28 + keyMeta.length := by
  simp [headerOf, ivSize]
  omega

theorem buildHeader_eq_ok {totalPackSize encryptSize : Nat} (ivSize : iv.length = 12)
    {result : List UInt8} :
    buildHeader totalPackSize encryptSize keyMeta iv () = .ok result () ↔ totalPackSize ≤ maxSize ∧
      sealMetaSize + keyMeta.length ≤ totalPackSize ∧
        List.replicate 16 0 ++ (headerOf encryptSize keyMeta iv ++
          List.replicate (totalPackSize - (sealMetaSize + keyMeta.length)) 0) = result := by
  have pieces : buildHeader totalPackSize encryptSize keyMeta iv =
      newVector totalPackSize >>= fun finPackage => memcpyAll finPackage 16 [iv,
        toMemory (UInt64.ofNat encryptSize), toMemory (UInt64.ofNat keyMeta.length), keyMeta] := by
    simp [buildHeader, memcpyAll, ivSize]
  rw [pieces, Exec.bind_apply, newVector_apply]
  split
  next tooLarge =>
    simp
    omega
  next fits =>
    rw [Outcome.andThen_ok]
    by_cases hasTag : 16 ≤ totalPackSize
    · have zeros : List.replicate totalPackSize (0 : UInt8) =
          List.replicate 16 0 ++ List.replicate (totalPackSize - 16) 0 := by
        rw [List.replicate_append_replicate, Nat.add_sub_cancel' hasTag]
      have written := @memcpyAll_eq_ok (List.replicate 16 0) 16 (totalPackSize - 16) [iv,
        toMemory (UInt64.ofNat encryptSize), toMemory (UInt64.ofNat keyMeta.length), keyMeta]
        List.length_replicate.symm result
      have flattened : [iv, toMemory (UInt64.ofNat encryptSize), toMemory (UInt64.ofNat keyMeta.length),
          keyMeta].flatten = headerOf encryptSize keyMeta iv := by simp [headerOf]
      have length := length_headerOf encryptSize keyMeta ivSize
      rw [zeros, written, flattened, length, Nat.sub_sub, ← Nat.add_assoc]
      have isMetaSize : 16 + 28 = sealMetaSize := rfl
      rw [isMetaSize]
      refine ⟨fun wrote => ⟨Nat.not_lt.mp fits, by omega, wrote.2⟩, fun wrote => ⟨by omega, wrote.2.2⟩⟩
    · have outside : memcpy (List.replicate totalPackSize 0) 16 iv () = .undefined :=
        memcpy_outside (by simp; omega)
      rw [memcpyAll, Exec.bind_apply, outside]
      simp [sealMetaSize]
      omega

/-! ## Reading -/

section Reading

variable {tag header rest : List UInt8} {packAddSize fpEncDataPos : Nat}

theorem ctnByteRgR_middle (tagSize : tag.length = 16) (isEnd : fpEncDataPos = 16 + header.length) :
    ctnByteRgR (tag ++ (header ++ rest)) 16 fpEncDataPos () = .ok header () := by
  rw [ctnByteRgR_inside (by omega) (by simp; omega), ← tagSize, List.drop_left, tagSize, isEnd,
    Nat.add_sub_cancel_left, List.take_left]

/-- The additional data is the header of the package, and that of the caller. -/
theorem fullAddData_eq_ok (tagSize : tag.length = 16) (isEnd : fpEncDataPos = 16 + header.length)
    {result : List UInt8} :
    fullAddData (tag ++ (header ++ rest)) addData packAddSize fpEncDataPos () = .ok result () ↔
      (addData.length > 0 → sizeT (packAddSize + addData.length) ≤ maxSize) ∧
        AesGcmPackager.fullAddData header addData = result := by
  have read : Buffer.range (tag ++ (header ++ rest)) 16 fpEncDataPos = some header :=
    Buffer.range_append tagSize.symm isEnd
  rw [fullAddData, Exec.ite_apply, AesGcmPackager.fullAddData]
  split
  next given =>
    simp only [reserve, readRange, Exec.bind_apply, Exec.throwIf_apply, read]
    split
    next tooLarge => simp [given, Nat.not_le.mpr tooLarge]
    next fits => simp [given, Nat.not_lt.mp fits]
  next none => simp [ctnByteRgR_middle tagSize isEnd, none]

theorem ctnByteRgR_iv {encryptSize : Nat} (tagSize : tag.length = 16) (ivSize : iv.length = 12) :
    ctnByteRgR (tag ++ (headerOf encryptSize keyMeta iv ++ rest)) 16 28 () = .ok iv () := by
  rw [headerOf, List.append_assoc]
  exact ctnByteRgR_middle tagSize (by rw [ivSize])

/-- The tag is written before the header, and the ciphertext behind it. -/
theorem memcpy_tag {filler : List UInt8} (fillerSize : filler.length = 16) (tag : Vector UInt8 16) :
    memcpy (filler ++ rest) 0 tag.toList () = .ok (tag.toList ++ rest) () := by
  have sameSize : filler.length = tag.toList.length := by rw [fillerSize, Vector.length_toList]
  simp [memcpy, Buffer.store_front sameSize]

theorem memcpy_encrypted {encrypted : List UInt8} (tag : Vector UInt8 16)
    (isEnd : fpEncDataPos = 16 + header.length) :
    memcpy (tag.toList ++ (header ++ List.replicate count 0)) fpEncDataPos encrypted () =
      if encrypted.length ≤ count then
        .ok (tag.toList ++ (header ++ (encrypted ++ List.replicate (count - encrypted.length) 0))) ()
      else .undefined := by
  have isPosition : fpEncDataPos = (tag.toList ++ header).length := by
    rw [List.length_append, Vector.length_toList, isEnd]
  rw [← List.append_assoc, memcpy_replicate isPosition]
  simp only [List.append_assoc]

end Reading

/-! ## Packing -/

/-- What AES-GCM does: the ciphertext is as long as the data, and what was sealed is opened to it. -/
structure AesGcmOneGo.Lawful (gcm : AesGcmOneGo) : Prop where
  length_encrypt : ∀ {iv addData data encrypted tag}, gcm.encrypt iv addData data = some (encrypted, tag) →
    encrypted.length = data.length
  opens : ∀ {iv addData data encrypted tag}, gcm.encrypt iv addData data = some (encrypted, tag) →
    gcm.decrypt iv addData encrypted tag.toList = some data

section Packing

variable {gcm : AesGcmOneGo} {sealedBlockSize : UInt64} {keyMeta metadata data addData : Region}
  {iv : Vector UInt8 12}

/-- The sizes of a package as they are meant. -/
abbrev sizesOf (sealedBlockSize : UInt64) (keyMeta metadata data : Region) : SealedBlockSize :=
  AesGcm.getTotalSealedBlockSize sealedBlockSize.toNat keyMeta.bytes.length metadata.bytes.length
    data.bytes.length

/-- What is packed without an error: blocks are not empty, and nothing is larger than a vector can be. -/
structure Accepted (sealedBlockSize : UInt64) (keyMeta metadata data addData : Region) : Prop where
  positive : 0 < sealedBlockSize.toNat
  packSize : (sizesOf sealedBlockSize keyMeta metadata data).totalSize ≤ maxSize
  addDataSize : addData.bytes.length > 0 → 28 + keyMeta.bytes.length + addData.bytes.length ≤ maxSize

/-- The header of the package that is returned. -/
def packHeader (sealedBlockSize : UInt64) (keyMeta metadata data : Region) (iv : Vector UInt8 12) :
    List UInt8 :=
  headerOf (sizesOf sealedBlockSize keyMeta metadata data).encryptedSize keyMeta.bytes iv.toList

/-- The encryption that a package is made with. -/
def sealOf (gcm : AesGcmOneGo) (sealedBlockSize : UInt64) (keyMeta metadata data addData : Region)
    (iv : Vector UInt8 12) : Option (List UInt8 × Vector UInt8 16) :=
  gcm.encrypt iv.toList
    (AesGcmPackager.fullAddData (packHeader sealedBlockSize keyMeta metadata data iv) addData.bytes)
    (inputPkg (sizesOf sealedBlockSize keyMeta metadata data).encryptedSize metadata.bytes data.bytes)

/-- All that is written lies inside of its buffer. -/
structure Written (sizes : SealedBlockSize) (keyMeta metadata data addData : Region) : Prop where
  inputSize : sizes.encryptedSize ≤ maxSize
  packSize : sizes.totalSize ≤ maxSize
  addDataSize : addData.bytes.length > 0 → sizeT (sizes.addSize + addData.bytes.length) ≤ maxSize
  inputFits : 16 + metadata.bytes.length + data.bytes.length ≤ sizes.encryptedSize
  packFits : sealMetaSize + keyMeta.bytes.length + sizes.encryptedSize ≤ sizes.totalSize

theorem length_inputPkg_of_fits {encryptSize : Nat} {metadata data : List UInt8}
    (fits : 16 + metadata.length + data.length ≤ encryptSize) :
    (inputPkg encryptSize metadata data).length = encryptSize :=
  AesGcmPackager.length_inputPkg (Nat.add_sub_cancel' fits).symm

theorem packWith_eq_ok (lawful : gcm.Lawful) {sizes : SealedBlockSize} {package : List UInt8}
    {tag : Vector UInt8 16} :
    packWith sizes gcm keyMeta metadata data addData iv () = .ok (package, tag) () ↔
      Written sizes keyMeta metadata data addData ∧ ∃ encrypted,
        gcm.encrypt iv.toList (AesGcmPackager.fullAddData
          (headerOf sizes.encryptedSize keyMeta.bytes iv.toList) addData.bytes)
          (inputPkg sizes.encryptedSize metadata.bytes data.bytes) = some (encrypted, tag) ∧
        tag.toList ++ (headerOf sizes.encryptedSize keyMeta.bytes iv.toList ++ (encrypted ++
          List.replicate (sizes.totalSize - (sealMetaSize + keyMeta.bytes.length) -
            sizes.encryptedSize) 0)) = package := by
  have ivSize : iv.toList.length = 12 := Vector.length_toList
  have zerosSize : (List.replicate 16 (0 : UInt8)).length = 16 := List.length_replicate
  have header := length_headerOf sizes.encryptedSize keyMeta.bytes ivSize
  rw [packWith, Exec.bind_eq_ok]
  constructor
  · rintro ⟨input, ⟨⟩, built, wrote⟩
    -- one step of the source after the other: input, header, additional data, encryption, copy
    obtain ⟨inputSize, inputFits, rfl⟩ := buildInputPkg_eq_ok.mp built
    obtain ⟨finPackage, ⟨⟩, builtHeader, wrote⟩ := Exec.bind_eq_ok.mp wrote
    obtain ⟨packSize, headerFits, rfl⟩ := (buildHeader_eq_ok ivSize).mp builtHeader
    have isPos : sizeT (sealMetaSize + keyMeta.bytes.length) = sealMetaSize + keyMeta.bytes.length :=
      sizeT_of_lt (by simp only [maxSize] at packSize; omega)
    -- the header ends where the encrypted part begins
    have isEnd : sealMetaSize + keyMeta.bytes.length =
      16 + (headerOf sizes.encryptedSize keyMeta.bytes iv.toList).length := by
      rw [header, sealMetaSize]
      omega
    rw [isPos, Exec.bind_apply, ctnByteRgR_iv zerosSize ivSize, Outcome.andThen_ok] at wrote
    obtain ⟨pkgAddData, ⟨⟩, gotAddData, wrote⟩ := Exec.bind_eq_ok.mp wrote
    obtain ⟨addDataSize, rfl⟩ := (fullAddData_eq_ok zerosSize isEnd).mp gotAddData
    obtain ⟨⟨encrypted, tag'⟩, ⟨⟩, ran, wrote⟩ := Exec.bind_eq_ok.mp wrote
    have sealed := (Exec.ofOption_eq_ok.mp ran).1
    have encryptedSize := lawful.length_encrypt sealed
    rw [length_inputPkg_of_fits inputFits] at encryptedSize
    simp only [Exec.bind_apply, memcpy_tag zerosSize tag', Outcome.andThen_ok,
      memcpy_encrypted tag' isEnd, encryptedSize] at wrote
    split at wrote
    next packFits =>
      cases wrote
      exact ⟨⟨inputSize, packSize, addDataSize, inputFits, by omega⟩, encrypted, sealed, rfl⟩
    next => cases wrote
  · rintro ⟨written, encrypted, sealed, rfl⟩
    have packFits := written.packFits
    have packSize := written.packSize
    have isPos : sizeT (sealMetaSize + keyMeta.bytes.length) = sealMetaSize + keyMeta.bytes.length :=
      sizeT_of_lt (by simp only [maxSize] at packSize; omega)
    have isEnd : sealMetaSize + keyMeta.bytes.length =
      16 + (headerOf sizes.encryptedSize keyMeta.bytes iv.toList).length := by
      rw [header, sealMetaSize]
      omega
    have encryptedSize := lawful.length_encrypt sealed
    rw [length_inputPkg_of_fits written.inputFits] at encryptedSize
    refine ⟨_, (), buildInputPkg_eq_ok.mpr ⟨written.inputSize, written.inputFits, rfl⟩, ?_⟩
    refine Exec.bind_eq_ok.mpr ⟨_, (), (buildHeader_eq_ok ivSize).mpr ⟨packSize, by omega, rfl⟩, ?_⟩
    rw [isPos, Exec.bind_apply, ctnByteRgR_iv zerosSize ivSize, Outcome.andThen_ok]
    refine Exec.bind_eq_ok.mpr ⟨_, (), (fullAddData_eq_ok zerosSize isEnd).mpr ⟨written.addDataSize, rfl⟩, ?_⟩
    refine Exec.bind_eq_ok.mpr ⟨(encrypted, tag), (), Exec.ofOption_eq_ok.mpr ⟨sealed, rfl⟩, ?_⟩
    have fits : sizes.encryptedSize ≤ sizes.totalSize - (sealMetaSize + keyMeta.bytes.length) := by omega
    simp only [Exec.bind_apply, memcpy_tag zerosSize tag, Outcome.andThen_ok, memcpy_encrypted tag isEnd,
      encryptedSize, if_pos fits]
    rfl

/-- The size of the additional data does not wrap. -/
theorem addDataSum_eq (packSize : sealMetaSize + keyMeta.bytes.length ≤ maxSize) :
    sizeT ((sizesOf sealedBlockSize keyMeta metadata data).addSize + addData.bytes.length) =
      28 + keyMeta.bytes.length + addData.bytes.length := by
  have addFits := addData.fits
  have addSize : (sizesOf sealedBlockSize keyMeta metadata data).addSize = 28 + keyMeta.bytes.length := rfl
  simp only [sealMetaSize, maxSize] at packSize
  rw [addSize]
  exact sizeT_of_lt (by omega)

theorem pack_eq_ok (lawful : gcm.Lawful) {package : List UInt8} {tag : Vector UInt8 16} :
    pack sealedBlockSize gcm keyMeta metadata data addData iv () = .ok (package, tag) () ↔
      Accepted sealedBlockSize keyMeta metadata data addData ∧ ∃ encrypted,
        sealOf gcm sealedBlockSize keyMeta metadata data addData iv = some (encrypted, tag) ∧
        tag.toList ++ (packHeader sealedBlockSize keyMeta metadata data iv ++ encrypted) = package := by
  rw [pack, Exec.bind_eq_ok]
  constructor
  · rintro ⟨sizes, ⟨⟩, computed, wrote⟩
    obtain ⟨written, encrypted, sealed, rfl⟩ := (packWith_eq_ok lawful).mp wrote
    have inputFits := written.inputFits
    have packFits := written.packFits
    have packSize := written.packSize
    have holdsAll : sealPkgAllKnownSize + keyMeta.bytes.length + metadata.bytes.length +
        data.bytes.length ≤ sizes.totalSize := by
      simp only [sealPkgAllKnownSize]
      omega
    obtain ⟨positive, fits⟩ := fits_of_written sealedBlockSize.toNat_lt computed holdsAll
    rw [getTotalSealedBlockSize_of_fits positive fits] at computed
    cases computed
    have total := @totalSize_eq _ keyMeta.bytes.length metadata.bytes.length data.bytes.length positive
    refine ⟨⟨positive, packSize, fun given => ?_⟩, encrypted, sealed, ?_⟩
    · rw [← @addDataSum_eq sealedBlockSize keyMeta metadata data addData (by omega)]
      exact written.addDataSize given
    · simp [total, packHeader]
  · rintro ⟨accepted, encrypted, sealed, rfl⟩
    have packSize := accepted.packSize
    have fits : (sizesOf sealedBlockSize keyMeta metadata data).totalSize < 2 ^ 64 :=
      Nat.lt_of_le_of_lt packSize (by decide)
    have total : (sizesOf sealedBlockSize keyMeta metadata data).totalSize = sealMetaSize +
        keyMeta.bytes.length + (sizesOf sealedBlockSize keyMeta metadata data).encryptedSize :=
      totalSize_eq accepted.positive
    have inputFits : 16 + metadata.bytes.length + data.bytes.length ≤
        (sizesOf sealedBlockSize keyMeta metadata data).encryptedSize := Nat.le_add_right _ _
    refine ⟨_, (), getTotalSealedBlockSize_of_fits accepted.positive fits, (packWith_eq_ok lawful).mpr ?_⟩
    have inputSize : (sizesOf sealedBlockSize keyMeta metadata data).encryptedSize ≤ maxSize := by omega
    refine ⟨⟨inputSize, packSize, fun given => ?_, inputFits, total.ge⟩, encrypted, sealed, ?_⟩
    · rw [@addDataSum_eq sealedBlockSize keyMeta metadata data addData (by omega)]
      exact accepted.addDataSize given
    · simp [total, packHeader]

end Packing

/-! ## Unpacking -/

section Unpacking

variable {gcm : AesGcmOneGo} {sealedBlockSize : UInt64} {keyMeta metadata data addData : Region}
  {iv : Vector UInt8 12} {package encrypted : List UInt8} {tag : Vector UInt8 16}

theorem readUint64_append {rest : List UInt8} {position : Nat} (number : UInt64)
    (isPosition : position = front.length) :
    readUint64 (front ++ (toMemory number ++ rest)) position () = .ok number () := by
  have read : Buffer.range (front ++ (toMemory number ++ rest)) position (position + 8) =
      some (toMemory number) :=
    Buffer.range_append isPosition (by rw [length_toMemory])
  simp [readUint64, readRange, read]

/-- A size of a vector is kept by a 64-bit field. -/
theorem toNat_ofNat_of_le {n : Nat} (le : n ≤ maxSize) : (UInt64.ofNat n).toNat = n :=
  UInt64.toNat_ofNat_of_lt' (Nat.lt_of_le_of_lt le (by decide))

theorem sizeT_of_le {n : Nat} (le : n ≤ maxSize) : sizeT n = n :=
  sizeT_of_lt (Nat.lt_of_le_of_lt le (by decide))

theorem separate_of_reads {outputPkg metadata data : List UInt8} {metaSize dataSize : UInt64}
    (readMetaSize : readUint64 outputPkg 0 () = .ok metaSize ())
    (readDataSize : readUint64 outputPkg 8 () = .ok dataSize ())
    (isMetaSize : metaSize.toNat = metadata.length) (isDataSize : dataSize.toNat = data.length)
    (fits : 16 + metadata.length + data.length ≤ outputPkg.length)
    (small : 16 + metadata.length + data.length ≤ maxSize)
    (outMeta : Buffer.range outputPkg 16 (16 + metadata.length) = some metadata)
    (outData : Buffer.range outputPkg (16 + metadata.length) (16 + metadata.length + data.length) =
      some data) : separate outputPkg () = .ok (data, metadata) () := by
  simp only [separate, Exec.bind_apply, readMetaSize, readDataSize, Outcome.andThen_ok, isMetaSize,
    isDataSize, sizeT_of_le small, Exec.throwIf_apply, if_neg (Nat.not_lt.mpr fits), readRange, outMeta,
    outData, Exec.orUndefined_some_apply, Exec.pure_apply]

/-- What was filled up with zeros is taken apart again. -/
theorem separate_inputPkg {encryptSize : Nat} {metadata data : List UInt8}
    (fits : 16 + metadata.length + data.length ≤ encryptSize) (small : encryptSize ≤ maxSize) :
    separate (inputPkg encryptSize metadata data) () = .ok (data, metadata) () := by
  obtain ⟨padding, shape⟩ : ∃ padding, inputPkg encryptSize metadata data =
      toMemory (UInt64.ofNat metadata.length) ++ (toMemory (UInt64.ofNat data.length) ++
        (metadata ++ (data ++ padding))) := by
    simp only [inputPkg, List.append_assoc]
    exact ⟨_, rfl⟩
  refine @separate_of_reads _ metadata data (UInt64.ofNat metadata.length) (UInt64.ofNat data.length) ?_ ?_
    (toNat_ofNat_of_le (by omega)) (toNat_ofNat_of_le (by omega))
    (by rw [length_inputPkg_of_fits fits]; exact fits) (Nat.le_trans fits small) ?_ ?_
  · rw [shape]
    exact @readUint64_append [] _ 0 _ rfl
  · rw [shape]
    exact readUint64_append _ (length_toMemory _).symm
  · rw [shape, ← List.append_assoc]
    exact Buffer.range_append (by simp) rfl
  · rw [shape, ← List.append_assoc, ← List.append_assoc]
    exact Buffer.range_append (by simp; omega) rfl

/-- A package is taken apart where its parts meet. -/
theorem argumentsOf_of_parts {encryptSize fpEncDataPos : Nat} {pkgAddData : List UInt8}
    (isEnd : fpEncDataPos = 16 + (headerOf encryptSize keyMeta.bytes iv.toList).length) :
    argumentsOf (tag.toList ++ (headerOf encryptSize keyMeta.bytes iv.toList ++ encrypted)) pkgAddData
      fpEncDataPos () =
        .ok { iv := iv.toList, addData := pkgAddData, data := encrypted, tag := tag.toList } () := by
  have tagSize : tag.toList.length = 16 := Vector.length_toList
  have isFront : fpEncDataPos =
      (tag.toList ++ headerOf encryptSize keyMeta.bytes iv.toList).length := by
    rw [List.length_append, tagSize, isEnd]
  have data : ctnByteRgRFrom (tag.toList ++ (headerOf encryptSize keyMeta.bytes iv.toList ++ encrypted))
      fpEncDataPos () = .ok encrypted () := by
    have inside : ¬ fpEncDataPos > ((tag.toList ++ headerOf encryptSize keyMeta.bytes iv.toList) ++
        encrypted).length := by
      rw [List.length_append, isFront]
      omega
    rw [← List.append_assoc]
    simp only [ctnByteRgRFrom, Exec.bind_apply, Exec.throwIf_apply, if_neg inside, Outcome.andThen_ok,
      Exec.pure_apply, List.drop_left' isFront.symm]
  have tag : ctnByteRgR (tag.toList ++ (headerOf encryptSize keyMeta.bytes iv.toList ++ encrypted)) 0 16 () =
      .ok tag.toList () := by
    rw [ctnByteRgR_inside (by decide) (by simp)]
    simp [List.take_left' tagSize]
  simp [argumentsOf, ctnByteRgR_iv tagSize Vector.length_toList, data, tag]

/-- The fields of a package with its parts one behind the other. -/
theorem fields_of_parts {encryptSize : Nat}
    (isPackage : tag.toList ++ (headerOf encryptSize keyMeta.bytes iv.toList ++ encrypted) = package) :
    package.length = sealMetaSize + keyMeta.bytes.length + encrypted.length ∧
      payloadSizeField package = UInt64.ofNat encryptSize ∧
      keyMetaSizeField package = UInt64.ofNat keyMeta.bytes.length := by
  have ivSize : iv.toList.length = 12 := Vector.length_toList
  have length : package.length = sealMetaSize + keyMeta.bytes.length + encrypted.length := by
    rw [← isPackage, List.length_append, List.length_append, Vector.length_toList,
      length_headerOf encryptSize keyMeta.bytes ivSize, sealMetaSize]
    omega
  have long : sealMetaSize ≤ package.length := by omega
  have readPayloadSize : readUint64 package 28 () = .ok (UInt64.ofNat encryptSize) () := by
    rw [← isPackage, headerOf, List.append_assoc, ← List.append_assoc, List.append_assoc (toMemory _)]
    exact readUint64_append _ (by simp [ivSize])
  have readKeyMetaSize : readUint64 package 36 () = .ok (UInt64.ofNat keyMeta.bytes.length) () := by
    rw [← isPackage, headerOf, List.append_assoc, ← List.append_assoc, List.append_assoc (toMemory _),
      ← List.append_assoc, List.append_assoc (toMemory _)]
    exact readUint64_append _ (by simp [ivSize])
  have payloadSize := @readUint64_inside package 28 (Nat.le_trans (by decide) long)
  have keyMetaSize := @readUint64_inside package 36 long
  exact ⟨length, (Outcome.ok.inj (payloadSize.symm.trans readPayloadSize)).1,
    (Outcome.ok.inj (keyMetaSize.symm.trans readKeyMetaSize)).1⟩

/-- What a package with its parts one behind the other is taken apart into. -/
theorem decryptArguments_of_parts {encryptSize : Nat}
    (isPackage : tag.toList ++ (headerOf encryptSize keyMeta.bytes iv.toList ++ encrypted) = package)
    (encryptedSize : encrypted.length = encryptSize)
    (fits : sealMetaSize + keyMeta.bytes.length + encryptSize ≤ maxSize)
    (addDataFits : addData.bytes.length > 0 →
      28 + keyMeta.bytes.length + addData.bytes.length ≤ maxSize) :
    decryptArguments package addData.bytes () = .ok {
      iv := iv.toList
      addData := AesGcmPackager.fullAddData (headerOf encryptSize keyMeta.bytes iv.toList) addData.bytes
      data := encrypted
      tag := tag.toList } () := by
  have ivSize : iv.toList.length = 12 := Vector.length_toList
  have header := length_headerOf encryptSize keyMeta.bytes ivSize
  have keyMetaSize := @toNat_ofNat_of_le keyMeta.bytes.length (by omega)
  have payloadSize := @toNat_ofNat_of_le encryptSize (by omega)
  have tagSize : tag.toList.length = 16 := Vector.length_toList
  obtain ⟨length, isPayloadSize, isKeyMetaSize⟩ := fields_of_parts isPackage
  have long : sealMetaSize ≤ package.length := by omega
  have isEnd : keyMetaEnd package = sealMetaSize + keyMeta.bytes.length := by
    rw [keyMetaEnd, isKeyMetaSize, keyMetaSize]
  have noWrap : sizeT (keyMetaEnd package) = sealMetaSize + keyMeta.bytes.length := by
    rw [isEnd, sizeT_of_le (by omega)]
  have sizeMatches : SizeMatches package := by
    rw [SizeMatches, noWrap, isPayloadSize, payloadSize, sizeT_of_le fits, length, encryptedSize]
  have isHeaderEnd : sealMetaSize + keyMeta.bytes.length =
      16 + (headerOf encryptSize keyMeta.bytes iv.toList).length := by
    rw [header, sealMetaSize]
    omega
  have gotAddData : fullAddData package addData.bytes (sizeT (28 + keyMeta.bytes.length))
      (sealMetaSize + keyMeta.bytes.length) () = .ok (AesGcmPackager.fullAddData
        (headerOf encryptSize keyMeta.bytes iv.toList) addData.bytes) () := by
    rw [← isPackage, fullAddData_eq_ok tagSize isHeaderEnd]
    refine ⟨fun given => ?_, rfl⟩
    have sum := addDataFits given
    have known := @sizeT_of_le (28 + keyMeta.bytes.length) (by omega)
    rw [known, sizeT_of_le sum]
    exact sum
  rw [decryptArguments_of_long long, if_pos sizeMatches, noWrap, isKeyMetaSize, keyMetaSize, gotAddData,
    Outcome.andThen_ok, ← isPackage]
  exact argumentsOf_of_parts isHeaderEnd

theorem getKeyMeta_of_parts {encryptSize : Nat}
    (isPackage : tag.toList ++ (headerOf encryptSize keyMeta.bytes iv.toList ++ encrypted) = package)
    (fits : sealMetaSize + keyMeta.bytes.length ≤ maxSize) :
    getKeyMeta package () = .ok keyMeta.bytes () := by
  obtain ⟨length, -, isKeyMetaSize⟩ := fields_of_parts isPackage
  have noWrap : sizeT (keyMetaEnd package) = sealMetaSize + keyMeta.bytes.length := by
    rw [keyMetaEnd, isKeyMetaSize, toNat_ofNat_of_le (by omega), sizeT_of_le fits]
  have read : Buffer.range package sealMetaSize (sealMetaSize + keyMeta.bytes.length) =
      some keyMeta.bytes := by
    rw [← isPackage, headerOf, ← List.append_assoc, ← List.append_assoc, ← List.append_assoc,
      ← List.append_assoc, List.append_assoc _ keyMeta.bytes]
    exact Buffer.range_append (by simp [sealMetaSize]) rfl
  rw [getKeyMeta_of_long (by omega), noWrap, if_neg (by omega), readRange, read,
    Exec.orUndefined_some_apply]

theorem checkInputTag_own {rest : List UInt8} :
    checkInputTag (tag.toList ++ rest) (some tag) () = .ok () () := by
  have read : Buffer.range (tag.toList ++ rest) 0 16 = some tag.toList :=
    @Buffer.range_append _ [] tag.toList rest 0 16 rfl (by rw [Vector.length_toList])
  simp [checkInputTag, readRange, read]

theorem unpack_of_opened {addData outputPkg : List UInt8} {arguments : DecryptArguments}
    {inTag : Option (Vector UInt8 16)}
    (taken : decryptArguments package addData () = .ok arguments ())
    (opened : gcm.decrypt arguments.iv arguments.addData arguments.data arguments.tag = some outputPkg)
    (checked : checkInputTag package inTag () = .ok () ()) :
    unpack gcm package addData inTag () = separate outputPkg () := by
  rw [unpack, Exec.bind_apply, taken, Outcome.andThen_ok, Exec.bind_apply,
    Exec.ofOption_eq_ok.mpr ⟨opened, rfl⟩, Outcome.andThen_ok, Exec.bind_apply, checked, Outcome.andThen_ok]

theorem length_sealed (lawful : gcm.Lawful)
    (sealed : sealOf gcm sealedBlockSize keyMeta metadata data addData iv = some (encrypted, tag)) :
    encrypted.length = (sizesOf sealedBlockSize keyMeta metadata data).encryptedSize := by
  have inputFits : 16 + metadata.bytes.length + data.bytes.length ≤
      (sizesOf sealedBlockSize keyMeta metadata data).encryptedSize := Nat.le_add_right _ _
  rw [lawful.length_encrypt sealed, length_inputPkg_of_fits inputFits]

theorem length_of_packed (lawful : gcm.Lawful)
    (packed : pack sealedBlockSize gcm keyMeta metadata data addData iv () = .ok (package, tag) ()) :
    package.length = 16 + (28 + keyMeta.bytes.length) +
        (sizesOf sealedBlockSize keyMeta metadata data).encryptedSize ∧
      package.length = (sizesOf sealedBlockSize keyMeta metadata data).totalSize ∧
      package.length ≤ maxSize := by
  obtain ⟨accepted, encrypted, sealed, isPackage⟩ := (pack_eq_ok lawful).mp packed
  have packSize := accepted.packSize
  have total := @totalSize_eq _ keyMeta.bytes.length metadata.bytes.length data.bytes.length
    accepted.positive
  have length := (fields_of_parts isPackage).1
  rw [length_sealed lawful sealed, sealMetaSize] at length
  rw [sealMetaSize] at total
  refine ⟨?_, ?_, ?_⟩
  · rw [length, ← Nat.add_assoc]
  · rw [length, total]
  · rw [length, ← total]
    exact packSize

/-- A package opens to what was packed, also when its tag is checked. -/
theorem unpack_of_packed (lawful : gcm.Lawful)
    (packed : pack sealedBlockSize gcm keyMeta metadata data addData iv () = .ok (package, tag) ())
    {inTag : Option (Vector UInt8 16)} (isTag : inTag = none ∨ inTag = some tag) :
    unpack gcm package addData.bytes inTag () = .ok (data.bytes, metadata.bytes) () := by
  obtain ⟨accepted, encrypted, sealed, isPackage⟩ := (pack_eq_ok lawful).mp packed
  have packSize := accepted.packSize
  have total : (sizesOf sealedBlockSize keyMeta metadata data).totalSize = sealMetaSize +
      keyMeta.bytes.length + (sizesOf sealedBlockSize keyMeta metadata data).encryptedSize :=
    totalSize_eq accepted.positive
  have inputFits : 16 + metadata.bytes.length + data.bytes.length ≤
      (sizesOf sealedBlockSize keyMeta metadata data).encryptedSize := Nat.le_add_right _ _
  have arguments := decryptArguments_of_parts isPackage (length_sealed lawful sealed)
    (total ▸ packSize) accepted.addDataSize
  have checked : checkInputTag package inTag () = .ok () () := by
    rcases isTag with rfl | rfl
    · rfl
    · exact isPackage ▸ checkInputTag_own
  rw [unpack_of_opened arguments (lawful.opens sealed) checked]
  exact separate_inputPkg inputFits (by omega)

end Unpacking

/-- For every metadata, key metadata, data, additional data and block size that `Pack` accepts: the
    package opens to the same metadata and data, also when its tag is checked, it shows the same key
    metadata, and its size is a multiple of the block size and the sum of its three parts. -/
theorem package_round_trip (gcm : AesGcmOneGo) (lawful : gcm.Lawful) (sealedBlockSize : UInt64)
    (keyMeta metadata data addData : Region) (iv : Vector UInt8 12) (package : List UInt8)
    (tag : Vector UInt8 16)
    (packed : pack sealedBlockSize gcm keyMeta metadata data addData iv () = .ok (package, tag) ()) :
    (∀ inTag, inTag = none ∨ inTag = some tag →
      unpack gcm package addData.bytes inTag () = .ok (data.bytes, metadata.bytes) ()) ∧
    getKeyMeta package () = .ok keyMeta.bytes () ∧
    ∃ sizes, getTotalSealedBlockSize sealedBlockSize.toNat keyMeta.bytes.length metadata.bytes.length
        data.bytes.length () = .ok sizes () ∧
      package.length = 16 + sizes.addSize + sizes.encryptedSize ∧
      sealedBlockSize.toNat ∣ package.length := by
  obtain ⟨accepted, encrypted, sealed, isPackage⟩ := (pack_eq_ok lawful).mp packed
  obtain ⟨length, isTotal, fits⟩ := length_of_packed lawful packed
  refine ⟨fun inTag isTag => unpack_of_packed lawful packed isTag,
    getKeyMeta_of_parts isPackage (by rw [sealMetaSize]; omega), _,
    getTotalSealedBlockSize_of_fits accepted.positive
      (Nat.lt_of_le_of_lt accepted.packSize (by decide)), ?_, ?_⟩
  · rw [length]
    change _ = 16 + (12 + 8 + 8 + keyMeta.bytes.length) + _
    rfl
  · rw [isTotal]
    exact dvd_totalSize

/-- An AES-GCM that hides nothing. -/
def transparentGcm : AesGcmOneGo where
  encrypt := fun _ _ data => some (data, Vector.replicate 16 0)
  decrypt := fun _ _ data _ => some data

theorem transparentGcm_lawful : transparentGcm.Lawful where
  length_encrypt := fun sealed => by
    cases sealed
    rfl
  opens := fun sealed => by
    cases sealed
    rfl

def noBytes : Region := ⟨[], by decide⟩

def threeBytes : Region := ⟨[1, 2, 3], by decide⟩

def parity (bytes : List UInt8) : UInt8 := bytes.foldl (· ^^^ ·) 0

/-- One that flips every bit, and whose tag is the parity of all that it was given. -/
def maskingGcm : AesGcmOneGo where
  encrypt := fun iv addData data =>
    some (data.map (~~~ ·), Vector.replicate 16 (parity (iv ++ addData ++ data)))
  decrypt := fun iv addData data tag =>
    let opened := data.map (~~~ ·)
    if tag = List.replicate 16 (parity (iv ++ addData ++ opened)) then some opened else none

theorem maskingGcm_lawful : maskingGcm.Lawful where
  length_encrypt := fun sealed => by
    cases sealed
    simp
  opens := fun sealed => by
    cases sealed
    simp [maskingGcm, Function.comp_def]

/-- A package in which no section is empty. -/
theorem package_round_trip_sections : ∃ package tag,
    pack 128 maskingGcm ⟨[10, 11], by decide⟩ ⟨[20], by decide⟩ threeBytes ⟨[30, 31], by decide⟩
      (Vector.replicate 12 7) () = .ok (package, tag) () ∧
    unpack maskingGcm package [30, 31] (some tag) () = .ok ([1, 2, 3], [20]) () ∧
    getKeyMeta package () = .ok [10, 11] () ∧ 128 ∣ package.length := by
  obtain ⟨encrypted, tag, sealed⟩ : ∃ encrypted tag, sealOf maskingGcm 128 ⟨[10, 11], by decide⟩
      ⟨[20], by decide⟩ threeBytes ⟨[30, 31], by decide⟩ (Vector.replicate 12 7) = some (encrypted, tag) :=
    ⟨_, _, rfl⟩
  have accepted : Accepted 128 ⟨[10, 11], by decide⟩ ⟨[20], by decide⟩ threeBytes ⟨[30, 31], by decide⟩ :=
    ⟨by decide, by decide, by decide⟩
  have packed := (pack_eq_ok maskingGcm_lawful).mpr ⟨accepted, encrypted, sealed, rfl⟩
  obtain ⟨opens, isKeyMeta, _, -, -, whole⟩ :=
    package_round_trip _ maskingGcm_lawful _ _ _ _ _ _ _ _ packed
  exact ⟨_, tag, packed, opens (some tag) (.inr rfl), isKeyMeta, whole⟩

/-- The whole package fills its blocks, and its encrypted part does not. -/
theorem encrypted_part_unaligned :
    ∃ sizes, getTotalSealedBlockSize 128 0 0 0 () = .ok sizes () ∧ sizes.totalSize = 128 ∧
      ¬ 128 ∣ sizes.encryptedSize :=
  ⟨_, rfl, rfl, by decide⟩

end Decentagram.DecentEnclave.PackageBytes
