import Decentagram.DecentEnclave.AesGcmStreamSocket
import Decentagram.DecentEnclave.PackageRoundTrip
import Decentagram.DecentEnclave.BufferBounds
import Decentagram.Lib.Run

/-! # The byte stream over encrypted messages

`SendRaw`, `RecvRaw` and `AsyncRecvRaw` of `AesGcmStreamSocket` over a socket that carries the bytes of the
peer in order.  A call of `AsyncRecvRaw` may run its callback before it returns, and the callback may make
further calls, so a run of the endpoint goes on while callbacks are on the stack.
-/

namespace Decentagram.DecentEnclave.ByteStream

open Decentagram.Lib AesGcm StreamSocket
open PackageBytes hiding memcpy

/-! ## Sending -/

/-- A message, and what the random generator writes for its package. -/
structure Message where
  data : Region
  iv : Vector UInt8 12

variable (gcm : KeyType → AesGcmOneGo) (hkdf : Hkdf)

theorem length_addData (addData : AddDataType) : addData.bytes.length = 24 := by
  simp [AddDataType.bytes]

def addDataRegion (addData : AddDataType) : Region :=
  ⟨addData.bytes, by rw [length_addData]; decide⟩

/-- A call of the packager of a direction. -/
def packaging {α : Type} : Packing α → Exec PackagerError Direction α :=
  Exec.zoom (fun _ => ()) fun _ direction => direction

def encryptMsg (inMsg : Message) : Exec PackagerError Direction (List UInt8) := do
  let self ← Exec.get
  let (res, _) ← packaging (pack (UInt64.ofNat self.aesGcm.sealedBlockSize) (gcm self.aesGcm.key)
    noBytes noBytes inMsg.data (addDataRegion self.addData) inMsg.iv)
  Exec.modify (Direction.checkKeysLifetime hkdf)
  return res

/-- What `SizedSendBytes` sends. -/
def sized (bytes : List UInt8) : List UInt8 := toMemory (UInt64.ofNat bytes.length) ++ bytes

def sendRaw (buf : Message) : Exec PackagerError Direction (List UInt8) := do
  let encBlock ← encryptMsg gcm hkdf buf
  return sized encBlock

/-- What goes out for the messages, one piece for each.  A call that throws has sent nothing and left the
    direction as it was, so it is no message. -/
def sendAll : List Message → Exec PackagerError Direction (List (List UInt8))
  | [] => return []
  | buf :: bufs => do
    let frame ← sendRaw gcm hkdf buf
    let frames ← sendAll bufs
    return frame :: frames

/-! ## The receiving endpoint -/

/-- What a call or a callback got. -/
structure HandedOut where
  /-- The size that was asked for. -/
  requested : Nat
  bytes : List UInt8
deriving DecidableEq, Repr

/-- A call of `AsyncRecvRaw` that waits for the socket. -/
structure AsyncRecv where
  handler : AsyncRecvHandler
  buffSize : Nat
deriving DecidableEq, Repr

/-- A callback of the user that has not returned: `AsyncRecvRaw` called it with the buffer, or with a
    message that was polled. -/
inductive RunningCallback where
  | buffered
  | polled
deriving DecidableEq, Repr

structure Endpoint where
  peer : Direction
  recvBuf : List UInt8
  /-- What the socket has not handed to the endpoint of all that the peer sends. -/
  wire : List UInt8
  pending : List AsyncRecv
  /-- The innermost one first. -/
  callbacks : List RunningCallback
  /-- The results of `DecryptMsg`. -/
  decrypted : List (List UInt8)
  handedOut : List HandedOut
deriving DecidableEq

def Endpoint.start (peer : Direction) (wire : List UInt8) : Endpoint where
  peer := peer
  recvBuf := []
  wire := wire
  pending := []
  callbacks := []
  decrypted := []
  handedOut := []

abbrev Receiving := Exec PackagerError Endpoint

/-- A blocking call that waits for bytes which the peer does not send. -/
def waits {α : Type} : Receiving α := Exec.undefined

def handOut (requested : Nat) (bytes : List UInt8) : Receiving Unit :=
  Exec.modify fun endpoint =>
    { endpoint with handedOut := endpoint.handedOut ++ [{ requested, bytes }] }

/-- The callback is called, and has not returned. -/
def call (callback : RunningCallback) (requested : Nat) (data : List UInt8) : Receiving Unit := do
  handOut requested data
  Exec.modify fun endpoint => { endpoint with callbacks := callback :: endpoint.callbacks }

def setRecvBuf (recvBuf : List UInt8) : Receiving Unit :=
  Exec.modify fun endpoint => { endpoint with recvBuf }

/-- `RecvRawUntilComplete` of the socket. -/
def recvUntilComplete (size : Nat) : Receiving (List UInt8) := do
  let wire := (← Exec.get).wire
  if wire.length < size then waits
  else
    Exec.modify fun endpoint => { endpoint with wire := wire.drop size }
    return wire.take size

def sizedRecvBytes : Receiving (List UInt8) := do
  let sizeToRecv := (ofMemory (← recvUntilComplete 8)).toNat
  Exec.throwIf (maxSize < sizeToRecv) .lengthError
  recvUntilComplete sizeToRecv

def decryptMsg (inMsg : List UInt8) : Exec PackagerError Direction (List UInt8) := do
  let peer ← Exec.get
  let (res, _) ← packaging (unpack (gcm peer.aesGcm.key) inMsg peer.addData.bytes none)
  Exec.modify (Direction.checkKeysLifetime hkdf)
  return res

/-- `DecryptMsg` with the members of the peer. -/
def decryptPeerMsg (inMsg : List UInt8) : Receiving (List UInt8) := do
  let decMsg ← Exec.zoom Endpoint.peer (fun peer endpoint => { endpoint with peer })
    (decryptMsg gcm hkdf inMsg)
  Exec.modify fun endpoint => { endpoint with decrypted := endpoint.decrypted ++ [decMsg] }
  return decMsg

/-- `memcpy` to the caller, who gets what the buffer has but no more than the size. -/
def copyOut (size : Nat) : Receiving Unit := do
  let recvBuf := (← Exec.get).recvBuf
  let isOutBufEnough := recvBuf.length ≤ size
  let byteToCopy := if isOutBufEnough then recvBuf.length else size
  handOut size (recvBuf.take byteToCopy)
  setRecvBuf (if isOutBufEnough then [] else recvBuf.drop byteToCopy)

def recvRaw (size : Nat) : Receiving Unit := do
  if (← Exec.get).recvBuf.length = 0 then
    let encBlock ← sizedRecvBytes
    let decMsg ← decryptPeerMsg gcm hkdf encBlock
    setRecvBuf decMsg
  copyOut size

/-- `AsyncRecvRaw` up to the call of its callback. -/
def asyncRecvRaw (buffSize : Nat) : Receiving Unit := do
  let recvBuf := (← Exec.get).recvBuf
  if recvBuf.length > 0 then call .buffered buffSize recvBuf
  else
    Exec.modify fun endpoint =>
      { endpoint with pending := endpoint.pending ++ [{ handler := .create, buffSize }] }

/-- What `AsyncRecvRaw` does once its callback is through.  The exceptions of the callback go to the
    caller. -/
def afterCallback (callback : RunningCallback) (throws : Bool) (endpoint : Endpoint) : Endpoint :=
  match callback, throws with
  | .buffered, false => { endpoint with recvBuf := [] }
  | .buffered, true => endpoint
  | .polled, _ => endpoint

/-- What `AsyncRecvRaw` makes of a package, up to the call of its callback. -/
def polled (buffSize : Nat) (data : List UInt8) : Receiving Unit := do
  let decMsg ← decryptPeerMsg gcm hkdf data
  if decMsg.length > buffSize then
    setRecvBuf (decMsg.drop buffSize)
    call .polled buffSize (decMsg.take buffSize)
  else
    call .polled buffSize decMsg

/-! ## Steps -/

/-- `sizeExpecting` of the receive that is registered. -/
def expecting (handler : AsyncRecvHandler) : Nat :=
  match handler.registered with
  | some .packSizeRecvHandler => 8 - handler.recvdSize
  | some .packRecvHandler => (ofMemory handler.packSize).toNat - handler.recvdSize
  | none => 0

def allocates (size : Nat) : Bool := size ≤ maxSize

/-- The socket completes the receive of a handler. -/
def completes (index : Nat) (recv : AsyncRecv) (data : List UInt8) : Receiving Unit :=
  match AsyncRecvHandler.dispatchCallback allocates ⟨data, false⟩ recv.handler with
  | .undefined => Exec.undefined
  | .throws _ _ =>
    Exec.modify fun endpoint => { endpoint with pending := endpoint.pending.eraseIdx index }
  | .ok _ handler =>
    match handler.received with
    | none =>
      Exec.modify fun endpoint =>
        { endpoint with pending := endpoint.pending.set index { recv with handler } }
    | some package => do
      Exec.modify fun endpoint => { endpoint with pending := endpoint.pending.eraseIdx index }
      polled gcm hkdf recv.buffSize package

inductive Action where
  | recvRaw (size : Nat)
  | asyncRecvRaw (buffSize : Nat)
  /-- The socket completes a receive with some of the next bytes. -/
  | deliver (index count : Nat)
  | callbackReturns (throws : Bool)
deriving DecidableEq, Repr

/-- A receive completes with at least one byte and no more than it asked for. -/
def deliverable (recv : AsyncRecv) (count : Nat) (wire : List UInt8) : Prop :=
  count ≤ expecting recv.handler ∧ (count = 0 → expecting recv.handler = 0) ∧ count ≤ wire.length

instance (recv : AsyncRecv) (count : Nat) (wire : List UInt8) : Decidable (deliverable recv count wire) :=
  inferInstanceAs (Decidable (_ ∧ _ ∧ _))

def deliver (index count : Nat) (endpoint : Endpoint) : Option Endpoint :=
  match endpoint.pending[index]? with
  | none => none
  | some recv =>
    if deliverable recv count endpoint.wire then
      Exec.endState (completes gcm hkdf index recv (endpoint.wire.take count))
        { endpoint with wire := endpoint.wire.drop count }
    else none

def callbackReturns (throws : Bool) (endpoint : Endpoint) : Option Endpoint :=
  match endpoint.callbacks with
  | [] => none
  | callback :: callbacks => some (afterCallback callback throws { endpoint with callbacks })

/-- What an action makes of the endpoint, whether it returns or throws. -/
def step (endpoint : Endpoint) : Action → Option Endpoint
  | .recvRaw size => Exec.endState (recvRaw gcm hkdf size) endpoint
  | .asyncRecvRaw buffSize => Exec.endState (asyncRecvRaw buffSize) endpoint
  | .deliver index count => deliver gcm hkdf index count endpoint
  | .callbackReturns throws => callbackReturns throws endpoint

abbrev StreamRun := Run fun before action after => step gcm hkdf before action = some after

end Decentagram.DecentEnclave.ByteStream
