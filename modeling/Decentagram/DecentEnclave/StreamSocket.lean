import Decentagram.DecentEnclave.AesGcmPackager
import Decentagram.Lib.Exec

/-! # Receiving from the host

The socket of an enclave is a pointer outside of it.  The host decides what a blocking call returns, and
calls back into the enclave with whatever bytes it likes.
-/

namespace Decentagram.DecentEnclave.StreamSocket

open Decentagram.Lib

abbrev Bytes := List UInt8

inductive Error where
  /-- An OCALL returned an error. -/
  | sgx
  | badAlloc
  | notRegistered
  /-- No exception: the host does not return from the call. -/
  | unanswered
deriving DecidableEq, Repr

/-- `memcpy` of bytes into a buffer, which has no result where the space left is smaller. -/
def memcpy (buffer : Bytes) (offset : Nat) (source : Bytes) : Option Bytes :=
  if offset + source.length ≤ buffer.length then
    some (buffer.take offset ++ source ++ buffer.drop (offset + source.length))
  else none

def copyTo (offset : Nat) (source : Bytes) : Exec Error Bytes Unit := fun buffer =>
  match memcpy buffer offset source with
  | some buffer => .ok () buffer
  | none => .undefined

/-! ## Blocking calls -/

/-- What the host makes of one call of `recv_raw`. -/
inductive Reply where
  | fails
  | returns (data : Bytes)
deriving DecidableEq, Repr

/-- `RecvRaw` into the buffer from an offset on.  The size goes to the host and nowhere else. -/
def recvRaw (reply : Reply) (offset _size : Nat) : Exec Error Bytes Nat :=
  match reply with
  | .fails => Exec.throw .sgx
  | .returns data => do
    copyTo offset data
    return data.length

/-- The loop of `RecvRawUntilComplete`, with the replies the host still gives. -/
def recvRawLoop (size : Nat) : List Reply → Nat → Exec Error Bytes Unit
  | [], recv => if recv < size then Exec.throw .unanswered else pure ()
  | reply :: replies, recv =>
    if recv < size then do
      let received ← recvRaw reply recv (size - recv)
      recvRawLoop size replies (recv + received)
    else pure ()

def recvRawUntilComplete (size : Nat) (replies : List Reply) : Exec Error Bytes Unit :=
  recvRawLoop size replies 0

/-! ## The receive handler of `AesGcmStreamSocket` -/

/-- The arguments of `ecall_decent_ssocket_async_recv_raw_callback`. -/
structure Delivery where
  data : Bytes
  hasErrorOccurred : Bool
deriving DecidableEq, Repr

/-- Which of its two functions the handler has registered. -/
inductive Callback where
  | packSizeRecvHandler
  | packRecvHandler
deriving DecidableEq, Repr

structure AsyncRecvHandler where
  /-- The memory of `m_packSize`. -/
  packSize : Bytes
  recvdSize : Nat
  recvBuf : Bytes
  registered : Option Callback
  /-- The package that `m_callback` was called with. -/
  received : Option Bytes
deriving DecidableEq, Repr

namespace AsyncRecvHandler

/-- `Create` and the first `InitAsyncRecv`.  A callback is registered before the OCALL that may fail. -/
def create : AsyncRecvHandler where
  packSize := List.replicate 8 0
  recvdSize := 0
  recvBuf := []
  registered := some .packSizeRecvHandler
  received := none

variable (allocates : Nat → Bool)

abbrev Handling := Exec Error AsyncRecvHandler Unit

def intoPackSize : Exec Error Bytes Unit → Handling :=
  Exec.zoom packSize fun packSize handler => { handler with packSize }

def intoRecvBuf : Exec Error Bytes Unit → Handling :=
  Exec.zoom recvBuf fun recvBuf handler => { handler with recvBuf }

def register (callback : Callback) : Handling :=
  Exec.modify fun handler => { handler with registered := some callback }

def resizeRecvBuf (size : Nat) : Handling := do
  Exec.throwIf (!allocates size) .badAlloc
  Exec.modify fun handler => { handler with recvBuf := List.replicate size 0 }

def packSizeRecvHandler (data : Bytes) : Handling := do
  intoPackSize (copyTo (← Exec.get).recvdSize data)
  Exec.modify fun handler => { handler with recvdSize := handler.recvdSize + data.length }
  if (← Exec.get).recvdSize < 8 then
    register .packSizeRecvHandler
  else
    Exec.modify fun handler => { handler with recvdSize := 0 }
    resizeRecvBuf allocates (AesGcm.ofMemory (← Exec.get).packSize).toNat
    register .packRecvHandler

def packRecvHandler (data : Bytes) : Handling := do
  intoRecvBuf (copyTo (← Exec.get).recvdSize data)
  Exec.modify fun handler => { handler with recvdSize := handler.recvdSize + data.length }
  let handler ← Exec.get
  if handler.recvdSize < (AesGcm.ofMemory handler.packSize).toNat then
    register .packRecvHandler
  else
    Exec.modify fun handler => { handler with recvBuf := [], received := some handler.recvBuf }

/-- The ECALL.  The registration goes before the callback is called. -/
def dispatchCallback (delivery : Delivery) : Handling := do
  match (← Exec.get).registered with
  | none => Exec.throw .notRegistered
  | some callback =>
    Exec.modify fun handler => { handler with registered := none }
    if !delivery.hasErrorOccurred then
      match callback with
      | .packSizeRecvHandler => packSizeRecvHandler allocates delivery.data
      | .packRecvHandler => packRecvHandler delivery.data

/-- The ECALLs of the host, one after the other.  Their exceptions go back to the host. -/
def dispatchAll : List Delivery → AsyncRecvHandler → Option AsyncRecvHandler
  | [], handler => some handler
  | delivery :: deliveries, handler =>
    (Exec.endState (dispatchCallback allocates delivery) handler).bind (dispatchAll deliveries)

end AsyncRecvHandler

/-! ## `AsyncSizedRecvBytes` -/

/-- What is registered: a receive until complete for the size field or for the data, each with the bytes
    it has cached.  Nothing is registered after the callback was called or an exception was thrown. -/
inductive SizedRecv where
  | forSize (cached : Bytes)
  | forData (expSize : Nat) (cached : Bytes)
  | idle
  | finished (result : Option Bytes)
deriving DecidableEq, Repr

namespace SizedRecv

variable (allocates : Nat → Bool)

abbrev Handling := Exec Error SizedRecv Unit

def become (state : SizedRecv) : Handling := Exec.modify fun _ => state

/-- `memcpy` of the size field from the start of a buffer, which reads eight bytes whatever it holds. -/
def sizeCallback (buf : Bytes) : Handling :=
  if buf.length < 8 then Exec.undefined
  else
    match memcpy (List.replicate 8 0) 0 (buf.take 8) with
    | none => Exec.undefined
    | some field => become (.forData (AesGcm.ofMemory field).toNat [])

def dataCallback (buf : Bytes) : Handling := do
  Exec.throwIf (!allocates buf.length) .badAlloc
  match memcpy (List.replicate buf.length 0) 0 buf with
  | none => Exec.undefined
  | some result => become (.finished (some result))

/-- `AsyncRecvRawUntilCompleteImpl` up to its callback, on the bytes that are cached now. -/
def untilComplete (expSize : Nat) (cached : Bytes) (again : Bytes → SizedRecv)
    (callback : Bytes → Handling) : Handling := do
  Exec.throwIf (!allocates cached.length) .badAlloc
  if cached.length < expSize then become (again cached) else callback cached

/-- The ECALL. -/
def dispatchCallback (delivery : Delivery) : Handling := do
  let registered ← Exec.get
  match registered with
  | .idle | .finished _ => Exec.throw .notRegistered
  | .forSize cached =>
    become .idle
    if delivery.hasErrorOccurred then become (.finished none)
    else untilComplete allocates 8 (cached ++ delivery.data) .forSize sizeCallback
  | .forData expSize cached =>
    become .idle
    if delivery.hasErrorOccurred then become (.finished none)
    else
      untilComplete allocates expSize (cached ++ delivery.data) (.forData expSize)
        (dataCallback allocates)

def dispatchAll : List Delivery → SizedRecv → Option SizedRecv
  | [], state => some state
  | delivery :: deliveries, state =>
    (Exec.endState (dispatchCallback allocates delivery) state).bind (dispatchAll deliveries)

end SizedRecv

end Decentagram.DecentEnclave.StreamSocket
