import Decentagram.DecentEnclave.AesGcmPackager
import Mathlib.Algebra.Group.Nat.Defs

/-! # Sockets under AES-GCM

`AesGcmStreamSocket`: its messages, and the keys and counters that change with every one.  The two
directions of a socket are handled by the same code, once with the members named self and once with those
named peer.
-/

namespace Decentagram.DecentEnclave.AesGcm

/-- `mbedTLScpp::Hkdf` with SHA-256: the key, the label and the salt. -/
abbrev Hkdf := KeyType → String → List UInt8 → KeyType

structure AddDataType where
  makKey : KeyType
  counter : UInt64
deriving DecidableEq

def AddDataType.bytes (addData : AddDataType) : List UInt8 :=
  addData.makKey.toList ++ toMemory addData.counter

def packBlockSize : Nat := 128

def maxCounter : UInt64 := 0xFFFFFFFFFFFFFFFF

def secKeyDerLabel : String := "next_secret_key"

def makKeyDerLabel : String := "next_maskin_key"

/-- The members of one direction. -/
structure Direction where
  secKey : KeyType
  makKey : KeyType
  addData : AddDataType
  aesGcm : AesGcmPackager
deriving DecidableEq

namespace Direction

def refreshAesGcmer (direction : Direction) : Direction :=
  { direction with aesGcm := { key := direction.secKey, sealedBlockSize := packBlockSize } }

def refreshAddData (direction : Direction) : Direction :=
  { direction with addData := { makKey := direction.makKey, counter := 0 } }

def refreshKeys (hkdf : Hkdf) (direction : Direction) : Direction :=
  ({ direction with
      secKey := hkdf direction.secKey secKeyDerLabel []
      makKey := hkdf direction.makKey makKeyDerLabel [] } : Direction).refreshAesGcmer.refreshAddData

def checkKeysLifetime (hkdf : Hkdf) (direction : Direction) : Direction :=
  if direction.addData.counter ≥ maxCounter then direction.refreshKeys hkdf
  else { direction with addData.counter := direction.addData.counter + 1 }

/-- A direction as the constructor sets it up. -/
def make (secretKey maskKey : KeyType) : Direction :=
  ({ secKey := secretKey
     makKey := maskKey
     addData := { makKey := Vector.replicate 16 0, counter := 0 }
     aesGcm := { key := secretKey, sealedBlockSize := packBlockSize } } : Direction).refreshAddData

end Direction

structure AesGcmStreamSocket where
  self : Direction
  peer : Direction
deriving DecidableEq

namespace AesGcmStreamSocket

variable {Encrypted : Type} (gcm : IdealAesGcm Encrypted) (hkdf : Hkdf)

def make (secretKey maskKey : KeyType) : AesGcmStreamSocket where
  self := .make secretKey maskKey
  peer := .make secretKey maskKey

def checkSelfKeysLifetime (socket : AesGcmStreamSocket) : AesGcmStreamSocket :=
  { socket with self := socket.self.checkKeysLifetime hkdf }

def checkPeerKeysLifetime (socket : AesGcmStreamSocket) : AesGcmStreamSocket :=
  { socket with peer := socket.peer.checkKeysLifetime hkdf }

def encryptMsg (socket : AesGcmStreamSocket) (inMsg iv : List UInt8) :
    Package Encrypted × AesGcmStreamSocket :=
  (socket.self.aesGcm.pack gcm [] [] inMsg socket.self.addData.bytes iv,
    socket.checkSelfKeysLifetime hkdf)

def decryptMsg (socket : AesGcmStreamSocket) (inMsg : Package Encrypted) :
    Except UnpackError (List UInt8 × AesGcmStreamSocket) := do
  let (res, _) ← socket.peer.aesGcm.unpack gcm inMsg socket.peer.addData.bytes
  .ok (res, socket.checkPeerKeysLifetime hkdf)

end AesGcmStreamSocket

/-! ## The keys of each message -/

/-- The secret and the mask key after some renewals. -/
def keysAt (hkdf : Hkdf) (secretKey maskKey : KeyType) : Nat → KeyType × KeyType
  | 0 => (secretKey, maskKey)
  | renewals + 1 =>
    (hkdf (keysAt hkdf secretKey maskKey renewals).1 secKeyDerLabel [],
      hkdf (keysAt hkdf secretKey maskKey renewals).2 makKeyDerLabel [])

/-- A direction before its message with the number `n`. -/
def directionAt (hkdf : Hkdf) (secretKey maskKey : KeyType) (n : Nat) : Direction where
  secKey := (keysAt hkdf secretKey maskKey (n / 2 ^ 64)).1
  makKey := (keysAt hkdf secretKey maskKey (n / 2 ^ 64)).2
  addData :=
    { makKey := (keysAt hkdf secretKey maskKey (n / 2 ^ 64)).2, counter := UInt64.ofNat (n % 2 ^ 64) }
  aesGcm :=
    { key := (keysAt hkdf secretKey maskKey (n / 2 ^ 64)).1, sealedBlockSize := packBlockSize }

variable (hkdf : Hkdf) (secretKey maskKey : KeyType)

theorem make_eq : Direction.make secretKey maskKey = directionAt hkdf secretKey maskKey 0 := rfl

theorem checkKeysLifetime_directionAt (n : Nat) :
    (directionAt hkdf secretKey maskKey n).checkKeysLifetime hkdf =
      directionAt hkdf secretKey maskKey (n + 1) := by
  have small : n % 2 ^ 64 < 2 ^ 64 := Nat.mod_lt _ (by decide)
  have isCounter : (UInt64.ofNat (n % 2 ^ 64)).toNat = n % 2 ^ 64 := UInt64.toNat_ofNat_of_lt' small
  have isMax : maxCounter.toNat = 2 ^ 64 - 1 := rfl
  unfold Direction.checkKeysLifetime
  split
  · -- the last number of these keys is followed by the first one of the next
    rename_i used
    have last : n % 2 ^ 64 = 2 ^ 64 - 1 := by
      have atLeast := UInt64.le_iff_toNat_le.mp used
      change _ ≤ (UInt64.ofNat (n % 2 ^ 64)).toNat at atLeast
      omega
    have next : (n + 1) / 2 ^ 64 = n / 2 ^ 64 + 1 := by omega
    have first : (n + 1) % 2 ^ 64 = 0 := by omega
    simp only [directionAt, next, first]
    rfl
  · rename_i notUsed
    have notLast : n % 2 ^ 64 + 1 < 2 ^ 64 := by
      have less := UInt64.lt_iff_toNat_lt.mp (UInt64.not_le.mp notUsed)
      change (UInt64.ofNat (n % 2 ^ 64)).toNat < _ at less
      omega
    have same : (n + 1) / 2 ^ 64 = n / 2 ^ 64 := by omega
    have next : (n + 1) % 2 ^ 64 = n % 2 ^ 64 + 1 := by omega
    simp only [directionAt, same, next, UInt64.ofNat_add]
    rfl

end Decentagram.DecentEnclave.AesGcm
