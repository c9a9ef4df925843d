import Decentagram.DecentEnclave.PackageBytes

/-! # Parsing of packages

Which bytes `Unpack` reads before it has authenticated a package, and which ones `GetKeyMeta` reads.  The
fields of a package are taken from the wire, so the sums of them may wrap.
-/

namespace Decentagram.DecentEnclave.PackageBytes

open Decentagram.Lib AesGcm

/-- The payload size that a package declares. -/
def payloadSizeField (package : List UInt8) : UInt64 := ofMemory ((package.drop 28).take 8)

/-- The size of the key metadata that a package declares. -/
def keyMetaSizeField (package : List UInt8) : UInt64 := ofMemory ((package.drop 36).take 8)

/-- Where the key metadata ends and the encrypted part begins. -/
def keyMetaEnd (package : List UInt8) : Nat := sealMetaSize + (keyMetaSizeField package).toNat

def declaredSize (package : List UInt8) : Nat := keyMetaEnd package + (payloadSizeField package).toNat

/-- The package has just the size that its fields declare. -/
def WellFormed (package : List UInt8) : Prop :=
  sealMetaSize ≤ package.length ∧
    package.length = declaredSize package

/-- The key metadata that the package declares lies inside of it. -/
def HasKeyMeta (pack : List UInt8) : Prop :=
  sealMetaSize ≤ pack.length ∧ keyMetaEnd pack ≤ pack.length

/-- `Unpack` reads inside of the package before it has authenticated it, refuses malformed fields, and its
    positions are the sums that they stand for. -/
structure UnpackInRange (package addData : List UInt8) : Prop where
  defined : decryptArguments package addData () ≠ .undefined
  malformed : ¬ WellFormed package → ∃ error, decryptArguments package addData () = .throws error ()
  fpEncDataPos : sizeT (keyMetaEnd package) = keyMetaEnd package
  regionSize : sizeT (sizeT (keyMetaEnd package) + (payloadSizeField package).toNat) =
    declaredSize package

/-- The same of `GetKeyMeta`, which computes its position once the fixed part is there. -/
structure GetKeyMetaInRange (pack : List UInt8) : Prop where
  defined : getKeyMeta pack () ≠ .undefined
  malformed : ¬ HasKeyMeta pack → ∃ error, getKeyMeta pack () = .throws error ()
  keyMetaEndPos : sealMetaSize ≤ pack.length →
    sizeT (keyMetaEnd pack) = keyMetaEnd pack

variable {package addData buffer : List UInt8} {position : Nat}

theorem readUint64_inside (inside : position + 8 ≤ buffer.length) :
    readUint64 buffer position () = .ok (ofMemory ((buffer.drop position).take 8)) () := by
  have read : Buffer.range buffer position (position + 8) = some ((buffer.drop position).take 8) :=
    Buffer.range_eq_some_iff.mpr ⟨⟨by omega, inside⟩, by rw [Nat.add_sub_cancel_left]⟩
  simp [readUint64, readRange, read]

theorem readUint64_outside (outside : buffer.length < position + 8) :
    readUint64 buffer position () = .undefined := by
  have read : Buffer.range buffer position (position + 8) = none :=
    Buffer.range_eq_none_iff.mpr (.inr outside)
  simp [readUint64, readRange, read]

theorem ctnByteRgR_inside {beginOffset endOffset : Nat} (ordered : beginOffset ≤ endOffset)
    (inside : endOffset ≤ buffer.length) : ctnByteRgR buffer beginOffset endOffset () =
      .ok ((buffer.drop beginOffset).take (endOffset - beginOffset)) () := by
  simp [ctnByteRgR, Nat.not_lt.mpr ordered, Nat.not_lt.mpr inside]

/-- The computed size is the one of the package. -/
def SizeMatches (package : List UInt8) : Prop :=
  package.length = sizeT (sizeT (keyMetaEnd package) + (payloadSizeField package).toNat)

instance (package : List UInt8) : Decidable (SizeMatches package) := inferInstanceAs (Decidable (_ = _))

/-- A package that is too short is read beyond its end. -/
theorem decryptArguments_of_short (short : package.length < sealMetaSize) :
    decryptArguments package addData () = .undefined := by
  rw [decryptArguments, Exec.bind_apply]
  by_cases payloadInside : 28 + 8 ≤ package.length
  · have outside : package.length < 36 + 8 := short
    rw [readUint64_inside payloadInside, Outcome.andThen_ok, Exec.bind_apply,
      readUint64_outside outside, Outcome.andThen_undefined]
  · rw [readUint64_outside (Nat.not_le.mp payloadInside), Outcome.andThen_undefined]

/-- What happens once both fields are read. -/
theorem decryptArguments_of_long (long : sealMetaSize ≤ package.length) :
    decryptArguments package addData () =
      if SizeMatches package then
        (fullAddData package addData (sizeT (28 + (keyMetaSizeField package).toNat))
          (sizeT (keyMetaEnd package)) ()).andThen fun pkgAddData =>
            argumentsOf package pkgAddData (sizeT (keyMetaEnd package))
      else .throws (.exception
        "AesGcmPackager::Unpack - The package size doesn't match the expected size.") () := by
  have payloadSize : readUint64 package 28 () = .ok (payloadSizeField package) () :=
    readUint64_inside (Nat.le_trans (by decide) long)
  have keyMetaSize : readUint64 package 36 () = .ok (keyMetaSizeField package) () :=
    readUint64_inside long
  simp only [decryptArguments, Exec.bind_apply, payloadSize, keyMetaSize, Outcome.andThen_ok,
    Exec.throwIf_apply, ne_eq, ite_not]
  by_cases isSize : SizeMatches package
  · rw [if_pos isSize, if_pos (by exact isSize), Outcome.andThen_ok, Exec.bind_apply]
    rfl
  · rw [if_neg isSize, if_neg (by exact isSize), Outcome.andThen_throws]

theorem argumentsOf_of_long (long : sealMetaSize ≤ package.length) (pkgAddData : List UInt8)
    (fpEncDataPos : Nat) : argumentsOf package pkgAddData fpEncDataPos () =
      if package.length < fpEncDataPos then .throws .outOfRange ()
      else .ok {
        iv := (package.drop 16).take 12
        addData := pkgAddData
        data := package.drop fpEncDataPos
        tag := package.take 16 } () := by
  have iv : ctnByteRgR package 16 28 () = .ok ((package.drop 16).take 12) () :=
    ctnByteRgR_inside (by decide) (Nat.le_trans (by decide) long)
  have tag : ctnByteRgR package 0 16 () = .ok (package.take 16) () :=
    ctnByteRgR_inside (by decide) (Nat.le_trans (by decide) long)
  split
  next outside => simp [argumentsOf, iv, ctnByteRgRFrom, outside]
  next inside => simp [argumentsOf, iv, tag, ctnByteRgRFrom, inside]

/-- The additional data is taken from the bytes up to a position that is inside of the package. -/
theorem fullAddData_inside {packAddSize fpEncDataPos : Nat} (behind : 16 ≤ fpEncDataPos)
    (inside : fpEncDataPos ≤ package.length) :
    fullAddData package addData packAddSize fpEncDataPos () ≠ .undefined := by
  have read : Buffer.range package 16 fpEncDataPos = some ((package.drop 16).take (fpEncDataPos - 16)) :=
    Buffer.range_eq_some_iff.mpr ⟨⟨behind, inside⟩, rfl⟩
  rw [fullAddData, Exec.ite_apply]
  split
  · simp only [reserve, readRange, Exec.bind_apply, Exec.throwIf_apply, read]
    split <;> simp
  · simp [ctnByteRgR_inside behind inside]

/-- Sums that do not wrap are what they stand for. -/
theorem sizes_of_fits (fits : declaredSize package < 2 ^ 64) :
    sizeT (keyMetaEnd package) = keyMetaEnd package ∧
      sizeT (sizeT (keyMetaEnd package) + (payloadSizeField package).toNat) = declaredSize package := by
  have inner : sizeT (keyMetaEnd package) = keyMetaEnd package :=
    sizeT_of_lt (Nat.lt_of_le_of_lt (Nat.le_add_right _ _) fits)
  exact ⟨inner, inner.symm ▸ sizeT_of_lt fits⟩

/-- `Unpack` parses safely just when the fixed part is there and the declared sizes do not wrap. -/
theorem unpackInRange_iff : UnpackInRange package addData ↔
    sealMetaSize ≤ package.length ∧ declaredSize package < 2 ^ 64 := by
  constructor
  · intro inRange
    refine ⟨?_, ?_⟩
    · by_contra short
      exact inRange.defined (decryptArguments_of_short (Nat.not_le.mp short))
    · rw [← inRange.regionSize]
      exact Nat.mod_lt _ (Nat.two_pow_pos 64)
  · rintro ⟨long, fits⟩
    obtain ⟨isKeyMetaEnd, isDeclaredSize⟩ := sizes_of_fits fits
    refine ⟨?_, fun malformed => ?_, isKeyMetaEnd, isDeclaredSize⟩
    · rw [decryptArguments_of_long long, isKeyMetaEnd]
      split
      next isSize =>
        have size : package.length = declaredSize package := isSize.trans isDeclaredSize
        have inside : keyMetaEnd package ≤ package.length := size ▸ Nat.le_add_right _ _
        have behind : 16 ≤ keyMetaEnd package := Nat.le_add_right_of_le (by decide)
        have defined := @fullAddData_inside package addData (sizeT (28 + (keyMetaSizeField package).toNat)) _
          behind inside
        cases ended : fullAddData package addData (sizeT (28 + (keyMetaSizeField package).toNat))
            (keyMetaEnd package) () with
        | ok pkgAddData _ =>
          rw [Outcome.andThen_ok, argumentsOf_of_long long, if_neg (Nat.not_lt.mpr inside)]
          simp
        | throws _ _ => simp
        | undefined => exact absurd ended defined
      next => simp
    · rw [decryptArguments_of_long long,
        if_neg fun isSize => malformed ⟨long, isSize.trans isDeclaredSize⟩]
      exact ⟨_, rfl⟩

variable {pack : List UInt8}

theorem getKeyMeta_of_short (short : pack.length < sealMetaSize) :
    getKeyMeta pack () = .throws (.exception
      "AesGcmPackager::GetKeyMeta - The given package's size is smaller than expected.") () := by
  simp [getKeyMeta, short]

theorem getKeyMeta_of_long (long : sealMetaSize ≤ pack.length) :
    getKeyMeta pack () = if pack.length < sizeT (keyMetaEnd pack) then
        .throws (.exception
          "AesGcmPackager::GetKeyMeta - The given package's size is smaller than expected.") ()
      else readRange pack sealMetaSize (sizeT (keyMetaEnd pack)) () := by
  have keyMetaSize : readUint64 pack 36 () = .ok (keyMetaSizeField pack) () :=
    readUint64_inside long
  simp only [getKeyMeta, Exec.bind_apply, Exec.throwIf_apply, if_neg (Nat.not_lt.mpr long),
    Outcome.andThen_ok, keyMetaSize]
  by_cases beyond : pack.length < sizeT (keyMetaEnd pack)
  · rw [if_pos beyond, if_pos (by exact beyond), Outcome.andThen_throws]
  · rw [if_neg beyond, if_neg (by exact beyond), Outcome.andThen_ok]
    rfl

theorem getKeyMetaInRange_iff : GetKeyMetaInRange pack ↔
    (sealMetaSize ≤ pack.length → keyMetaEnd pack < 2 ^ 64) := by
  constructor
  · intro inRange long
    rw [← inRange.keyMetaEndPos long]
    exact Nat.mod_lt _ (Nat.two_pow_pos 64)
  · intro fits
    by_cases long : sealMetaSize ≤ pack.length
    · have endPos : sizeT (keyMetaEnd pack) = keyMetaEnd pack := sizeT_of_lt (fits long)
      refine ⟨?_, fun malformed => ?_, fun _ => endPos⟩
      · rw [getKeyMeta_of_long long, endPos]
        split
        next => simp
        next inside =>
          have read : Buffer.range pack sealMetaSize (keyMetaEnd pack) =
              some ((pack.drop sealMetaSize).take (keyMetaEnd pack - sealMetaSize)) :=
            Buffer.range_eq_some_iff.mpr ⟨⟨Nat.le_add_right _ _, Nat.not_lt.mp inside⟩, rfl⟩
          simp [readRange, read]
      · rw [getKeyMeta_of_long long, endPos,
          if_pos (Nat.not_le.mp fun inside => malformed ⟨long, inside⟩)]
        exact ⟨_, rfl⟩
    · have refused := getKeyMeta_of_short (Nat.not_le.mp long)
      exact ⟨by simp [refused], fun _ => ⟨_, refused⟩, fun isLong => absurd isLong long⟩

/-- For every byte string: `Unpack` parses it safely just when the fixed part is there and the declared
    sizes add up to less than `2 ^ 64`, and `GetKeyMeta` just when the fixed part is missing or the key
    metadata ends below `2 ^ 64`. -/
theorem package_parsing_iff (package addData : List UInt8) :
    (UnpackInRange package addData ↔ sealMetaSize ≤ package.length ∧ declaredSize package < 2 ^ 64) ∧
      (GetKeyMetaInRange package ↔ (package.length < sealMetaSize ∨ keyMetaEnd package < 2 ^ 64)) := by
  refine ⟨unpackInRange_iff, getKeyMetaInRange_iff.trans ?_⟩
  rw [imp_iff_not_or, Nat.not_le]

/-- A package of 68 bytes that declares 100 bytes of key metadata, and a payload with which the sizes add
    up to 68 modulo `2 ^ 64`. -/
def wrappedPackage : List UInt8 :=
  List.replicate 28 0 ++ toMemory (UInt64.ofNat (2 ^ 64 - 76)) ++ toMemory 100 ++ List.replicate 24 0

/-- A package of eight bytes is read beyond its end, one whose sizes wrap is read beyond its end as well,
    and `GetKeyMeta` takes a range that ends before it begins. -/
theorem package_parsing_out_of_range :
    ¬ UnpackInRange (List.replicate 8 0) [] ∧
    ¬ UnpackInRange wrappedPackage (List.replicate 24 1) ∧
    ¬ GetKeyMetaInRange (List.replicate 36 0 ++ toMemory (UInt64.ofNat (2 ^ 64 - 1))) :=
  ⟨fun inRange => inRange.defined rfl, fun inRange => inRange.defined rfl,
    fun inRange => inRange.defined rfl⟩

end Decentagram.DecentEnclave.PackageBytes
