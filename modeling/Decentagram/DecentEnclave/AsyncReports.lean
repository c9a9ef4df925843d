import Decentagram.DecentEnclave.HeartbeatRecvMgr
import Decentagram.DecentEnclave.StreamOrder
import Decentagram.Lib.UnorderedMap
import Mathlib.Data.List.Nodup
import Mathlib.Data.List.Perm.Subperm

/-! # What becomes of an asynchronous receive

`AsyncRecvRaw` of `AesGcmStreamSocket` over the enclave's own socket, whose host may call back at any time
and with anything.  The callbacks are registered in one table for all sockets.  An OCALL and a callback of
the user take their time: the call stays on a stack, and the host calls the enclave meanwhile.
-/

namespace Decentagram.DecentEnclave.AsyncReports

open Decentagram.Lib AesGcm StreamSocket
open PackageBytes (transparentGcm)

/-! ## The table of callbacks -/

abbrev IDType := UInt64

/-- An entry names the call of `AsyncRecvRaw` whose handler is registered. -/
structure UntrustedAsyncEventHandler where
  counter : IDType
  callbackMap : UnorderedMap IDType Nat

namespace UntrustedAsyncEventHandler

def init : UntrustedAsyncEventHandler where
  counter := 0
  callbackMap := ∅

/-- The loop of `AfterLockGetAvailableID`, which passes each identifier that is taken. -/
def firstAvailable (callbackMap : UnorderedMap IDType Nat) : Nat → IDType → IDType
  | 0, counter => counter
  | taken + 1, counter =>
    if counter ∈ callbackMap then firstAvailable callbackMap taken (counter + 1) else counter

def registerCallback (handler : UntrustedAsyncEventHandler) (callback : Nat) :
    Except String UntrustedAsyncEventHandler :=
  let taken := handler.callbackMap.entries.length
  if 0xFFFFFFFFFFFFFFFF ≤ taken then .error "Too many callbacks are registered."
  else
    let id := firstAvailable handler.callbackMap taken handler.counter
    .ok { counter := id + 1, callbackMap := handler.callbackMap.emplace id callback }

/-- The entry is disposed of before the callback is called. -/
def dispose (handler : UntrustedAsyncEventHandler) (id : IDType) : UntrustedAsyncEventHandler :=
  { handler with callbackMap := handler.callbackMap.erase id }

end UntrustedAsyncEventHandler

/-! ## Calls -/

/-- A call of the callback of the user. -/
structure Report where
  data : Bytes
  hasErrorOccurred : Bool
  /-- The exception of `AsyncRecvRaw` came first. -/
  afterThrow : Bool
deriving DecidableEq, Repr

inductive CallStatus where
  | running
  | returned
  | threw
deriving DecidableEq, Repr

structure AsyncCall where
  socket : Nat
  buffSize : Nat
  /-- The heartbeat receiver that the callback belongs to. -/
  receiver : Option SocketIdType
  status : CallStatus
  handler : AsyncRecvHandler
  reports : List Report
  /-- The receive has ended without the data that was asked for. -/
  failed : Bool
deriving DecidableEq, Repr

/-- The callback of the user is called. -/
def AsyncCall.report (call : AsyncCall) (data : Bytes) (hasErrorOccurred : Bool) : AsyncCall :=
  { call with
    reports := call.reports ++ [⟨data, hasErrorOccurred, decide (call.status = .threw)⟩] }

/-- What is still on a stack. -/
inductive Frame where
  /-- `AsyncRecvRaw` in the callback that it calls itself. -/
  | buffered (call : Nat)
  /-- `AsyncRecvRaw` in its OCALL. -/
  | initialOcall (call : Nat)
  /-- A handler in the OCALL for the next part. -/
  | nestedOcall (call : Nat)
deriving DecidableEq, Repr

structure Socket where
  peer : Direction
  recvBuf : Bytes

structure Enclave where
  table : UntrustedAsyncEventHandler
  calls : List AsyncCall
  frames : List Frame
  sockets : Nat → Socket
  /-- The sockets of the heartbeat receivers. -/
  socketMap : List SocketIdType

inductive Action where
  | asyncRecvRaw (socket buffSize : Nat) (receiver : Option SocketIdType)
  /-- The ECALL of the host. -/
  | deliver (id : IDType) (delivery : Delivery)
  /-- An OCALL or a callback comes back. -/
  | resume (place : Nat) (fails : Bool)
  /-- What other calls make of a socket. -/
  | otherUse (socket : Nat) (state : Socket)
  | addSocket (socket : SocketIdType)
  | removeSocket (socket : SocketIdType)

/-- What a delivery makes of a handler. -/
inductive Progress where
  | fails (handler : AsyncRecvHandler) (peer : Direction)
  | continues (handler : AsyncRecvHandler)
  | completes (handler : AsyncRecvHandler) (peer : Direction) (decMsg : Bytes)

namespace Enclave

variable (gcm : KeyType → PackageBytes.AesGcmOneGo) (hkdf : Hkdf)

def start (sockets : Nat → Socket) (socketMap : List SocketIdType) : Enclave where
  table := .init
  calls := []
  frames := []
  sockets := sockets
  socketMap := socketMap

def setCall (enclave : Enclave) (index : Nat) (call : AsyncCall) : Enclave :=
  { enclave with calls := enclave.calls.set index call }

def setSocket (enclave : Enclave) (socket : Nat) (state : Socket) : Enclave :=
  { enclave with sockets := Function.update enclave.sockets socket state }

def pushCall (enclave : Enclave) (call : AsyncCall) : Enclave :=
  { enclave with calls := enclave.calls ++ [call] }

def pushFrame (enclave : Enclave) (frame : Frame) : Enclave :=
  { enclave with frames := enclave.frames ++ [frame] }

/-- The callback of a heartbeat receiver removes its socket on an error.  What it does with data are calls
    of its own. -/
def runCallback (enclave : Enclave) (index : Nat) (call : AsyncCall) (data : Bytes)
    (hasErrorOccurred : Bool) : Enclave :=
  let enclave := enclave.setCall index (call.report data hasErrorOccurred)
  match hasErrorOccurred, call.receiver with
  | true, some socket => { enclave with socketMap := enclave.socketMap.erase socket }
  | _, _ => enclave

def asyncRecvRaw (enclave : Enclave) (socket buffSize : Nat) (receiver : Option SocketIdType) : Enclave :=
  let recvBuf := (enclave.sockets socket).recvBuf
  let index := enclave.calls.length
  let call : AsyncCall :=
    { socket, buffSize, receiver, status := .running, handler := .create, reports := [], failed := false }
  if recvBuf.length > 0 then
    ((enclave.pushCall call).runCallback index call recvBuf false).pushFrame (.buffered index)
  else
    match enclave.table.registerCallback index with
    | .error _ => enclave.pushCall { call with status := .threw }
    | .ok table => ({ enclave with table }.pushCall call).pushFrame (.initialOcall index)

def progress (delivery : Delivery) (handler : AsyncRecvHandler) (peer : Direction) : Option Progress :=
  match AsyncRecvHandler.dispatchCallback ByteStream.allocates delivery handler with
  | .undefined => none
  | .throws _ handler => some (.fails handler peer)
  | .ok _ handler =>
    match handler.received with
    -- the branches of an error register nothing
    | none => some (if handler.registered.isSome then .continues handler else .fails handler peer)
    | some package =>
      match ByteStream.decryptMsg gcm hkdf package peer with
      | .undefined => none
      | .throws _ peer => some (.fails handler peer)
      | .ok decMsg peer => some (.completes handler peer decMsg)

def fail (enclave : Enclave) (index : Nat) (call : AsyncCall) (handler : AsyncRecvHandler) : Enclave :=
  enclave.setCall index { call with handler, failed := true }

def setPeer (enclave : Enclave) (socket : Nat) (peer : Direction) : Enclave :=
  enclave.setSocket socket { enclave.sockets socket with peer }

/-- What the call makes of a message. -/
def polled (enclave : Enclave) (index : Nat) (call : AsyncCall) (decMsg : Bytes) : Enclave :=
  if decMsg.length > call.buffSize then
    (enclave.setSocket call.socket
      { enclave.sockets call.socket with recvBuf := decMsg.drop call.buffSize }).runCallback index call
        (decMsg.take call.buffSize) false
  else enclave.runCallback index call decMsg false

def deliver (enclave : Enclave) (id : IDType) (delivery : Delivery) : Option Enclave :=
  match enclave.table.callbackMap.lookup id with
  | none => some enclave
  | some index =>
    match enclave.calls[index]? with
    | none => none
    | some call =>
      let disposed := { enclave with table := enclave.table.dispose id }
      match progress gcm hkdf delivery call.handler (enclave.sockets call.socket).peer with
      | none => none
      | some (.fails handler peer) =>
        some ((disposed.fail index call handler).setPeer call.socket peer)
      | some (.continues handler) =>
        match disposed.table.registerCallback index with
        | .error _ => some (disposed.fail index call handler)
        | .ok table =>
          some (({ disposed with table }.setCall index { call with handler }).pushFrame
            (.nestedOcall index))
      | some (.completes handler peer decMsg) =>
        some ((disposed.setPeer call.socket peer).polled index { call with handler } decMsg)

/-- Where a call goes on once what it waited for has come back. -/
def resumeFrame (enclave : Enclave) (fails : Bool) : Frame → Enclave
  | .buffered index =>
    match enclave.calls[index]? with
    | none => enclave
    | some call =>
      if fails then enclave.setCall index { call with status := .threw }
      else
        (enclave.setCall index { call with status := .returned }).setSocket call.socket
          { enclave.sockets call.socket with recvBuf := [] }
  | .initialOcall index =>
    match enclave.calls[index]? with
    | none => enclave
    | some call => enclave.setCall index { call with status := if fails then .threw else .returned }
  | .nestedOcall index =>
    match enclave.calls[index]? with
    | none => enclave
    | some call =>
      -- the exception ends the receive unless the host has completed it meanwhile
      if fails ∧ call.reports = [] then enclave.setCall index { call with failed := true } else enclave

def step (enclave : Enclave) : Action → Option Enclave
  | .asyncRecvRaw socket buffSize receiver => some (enclave.asyncRecvRaw socket buffSize receiver)
  | .deliver id delivery => enclave.deliver gcm hkdf id delivery
  | .resume place fails =>
    match enclave.frames[place]? with
    | none => none
    | some frame =>
      some ({ enclave with frames := enclave.frames.eraseIdx place }.resumeFrame fails frame)
  | .otherUse socket state => some (enclave.setSocket socket state)
  | .addSocket socket => some { enclave with socketMap := socket :: enclave.socketMap }
  | .removeSocket socket => some { enclave with socketMap := enclave.socketMap.erase socket }

abbrev AsyncRun := Run fun before action after => step gcm hkdf before action = some after

/-! ## What a call reports -/

/-- The outcome of the call has been reported exactly once, and no exception was followed by a report. -/
structure Reported (enclave : Enclave) (call : AsyncCall) : Prop where
  atMostOnce : call.reports.length ≤ 1
  notAfterThrow : ∀ report ∈ call.reports, report.afterThrow = false
  completion : call.status = .returned → call.handler.received ≠ none → call.failed = false →
    call.reports.length = 1
  failure : call.status = .returned → call.failed = true →
    ∃ data, call.reports = [⟨data, true, false⟩]
  removed : call.status = .returned → call.failed = true → ∀ socket ∈ call.receiver,
    socket ∉ enclave.socketMap

def AllReported (enclave : Enclave) : Prop := ∀ call ∈ enclave.calls, enclave.Reported call

/-- The delivery ends the receive without the data: the host reports an error, the memory for the package
    cannot be had, the package is not decrypted, or no callback can be registered for the next part. -/
def Fails (enclave : Enclave) (index : Nat) (call : AsyncCall) (id : IDType) (delivery : Delivery) : Prop :=
  (∃ handler peer, progress gcm hkdf delivery call.handler (enclave.sockets call.socket).peer =
    some (.fails handler peer)) ∨
  (∃ handler, progress gcm hkdf delivery call.handler (enclave.sockets call.socket).peer =
    some (.continues handler)) ∧
    ∃ error, (enclave.table.dispose id).registerCallback index = .error error

def Completes (enclave : Enclave) (call : AsyncCall) (delivery : Delivery) : Prop :=
  ∃ handler peer decMsg, progress gcm hkdf delivery call.handler (enclave.sockets call.socket).peer =
    some (.completes handler peer decMsg)

/-- The steps that lose an outcome or report one too late. -/
inductive Defect (enclave : Enclave) : Action → Prop where
  /-- A registration outlives the OCALL that has failed. -/
  | lateReport {id : IDType} {delivery : Delivery} {index : Nat} {call : AsyncCall}
      (registered : enclave.table.callbackMap.lookup id = some index)
      (found : enclave.calls[index]? = some call) (threw : call.status = .threw)
      (completes : enclave.Completes gcm hkdf call delivery) : Defect enclave (.deliver id delivery)
  | failedDelivery {id : IDType} {delivery : Delivery} {index : Nat} {call : AsyncCall}
      (registered : enclave.table.callbackMap.lookup id = some index)
      (found : enclave.calls[index]? = some call) (returned : call.status = .returned)
      (fails : enclave.Fails gcm hkdf index call id delivery) : Defect enclave (.deliver id delivery)
  | failedOcall {place index : Nat} {call : AsyncCall}
      (isFrame : enclave.frames[place]? = some (.nestedOcall index))
      (found : enclave.calls[index]? = some call) (returned : call.status = .returned)
      (unreported : call.reports = []) : Defect enclave (.resume place true)
  /-- The receive has failed before `AsyncRecvRaw` returns. -/
  | failedBefore {place index : Nat} {call : AsyncCall}
      (isFrame : enclave.frames[place]? = some (.initialOcall index) ∨
        enclave.frames[place]? = some (.buffered index))
      (found : enclave.calls[index]? = some call) (failed : call.failed = true) :
      Defect enclave (.resume place false)

end Enclave

/-! ## The table hands out identifiers that are free -/

namespace UntrustedAsyncEventHandler

variable {callbackMap : UnorderedMap IDType Nat}

theorem taken_of_firstAvailable {taken : Nat} {counter : IDType}
    (isTaken : firstAvailable callbackMap taken counter ∈ callbackMap) :
    ∀ offset ≤ taken, counter + UInt64.ofNat offset ∈ callbackMap := by
  induction taken generalizing counter with
  | zero =>
    intro offset none
    obtain rfl := Nat.le_zero.mp none
    simpa [firstAvailable] using isTaken
  | succ taken inductionHypothesis =>
    rw [firstAvailable] at isTaken
    split at isTaken
    next first =>
      intro offset inside
      cases offset with
      | zero => simpa using first
      | succ offset =>
        have next := inductionHypothesis isTaken offset (by omega)
        rwa [Nat.add_comm, UInt64.ofNat_add, ← UInt64.add_assoc]
    next free => exact absurd isTaken free

/-- More identifiers than entries are tried. -/
theorem firstAvailable_fresh (fits : callbackMap.entries.length < 0xFFFFFFFFFFFFFFFF) (counter : IDType) :
    firstAvailable callbackMap callbackMap.entries.length counter ∉ callbackMap := by
  intro isTaken
  have allTaken := taken_of_firstAvailable isTaken
  let tried := (List.range (callbackMap.entries.length + 1)).map fun offset =>
    counter + UInt64.ofNat offset
  have nodup : tried.Nodup := by
    refine List.Nodup.map_on ?_ List.nodup_range
    intro left inLeft right inRight same
    rw [List.mem_range] at inLeft inRight
    have sameOffset := congrArg UInt64.toNat ((UInt64.add_right_inj _).mp same)
    rwa [UInt64.toNat_ofNat_of_lt' (by change _ < 2 ^ 64; omega),
      UInt64.toNat_ofNat_of_lt' (by change _ < 2 ^ 64; omega)] at sameOffset
  have contained : tried ⊆ callbackMap.keys := by
    intro id member
    obtain ⟨offset, inRange, rfl⟩ := List.mem_map.mp member
    exact allTaken offset (by rw [List.mem_range] at inRange; omega)
  have tooMany := (List.subperm_of_subset nodup contained).length_le
  simp [tried, AList.keys, List.keys] at tooMany

/-- A registration adds one entry and keeps all others. -/
theorem lookup_registerCallback {handler handler' : UntrustedAsyncEventHandler} {callback : Nat}
    (registers : handler.registerCallback callback = .ok handler') :
    ∃ id, handler.callbackMap.lookup id = none ∧ ∀ id' index,
      handler'.callbackMap.lookup id' = some index ↔
        id' = id ∧ index = callback ∨ handler.callbackMap.lookup id' = some index := by
  unfold registerCallback at registers
  dsimp only at registers
  split at registers
  next => cases registers
  next fits =>
    cases registers
    have fresh := firstAvailable_fresh (Nat.lt_of_not_le fits) handler.counter
    refine ⟨_, AList.lookup_eq_none.mpr fresh, fun id' index => ?_⟩
    constructor
    · intro looked
      exact (UnorderedMap.lookup_emplace looked).symm
    · rintro (⟨rfl, rfl⟩ | looked)
      · exact UnorderedMap.lookup_emplace_self fresh _
      · exact UnorderedMap.lookup_emplace_of_some _ _ looked

end UntrustedAsyncEventHandler

/-! ## What a delivery does -/

namespace Enclave

variable {gcm : KeyType → PackageBytes.AesGcmOneGo} {hkdf : Hkdf}

/-- What the host's ECALL makes of the enclave. -/
inductive Delivered (gcm : KeyType → PackageBytes.AesGcmOneGo) (hkdf : Hkdf) (enclave : Enclave)
    (id : IDType) (delivery : Delivery) (after : Enclave) : Prop where
  | unregistered (none : enclave.table.callbackMap.lookup id = none) (same : after = enclave)
  | fails {index : Nat} {call : AsyncCall} {handler : AsyncRecvHandler}
      (registered : enclave.table.callbackMap.lookup id = some index)
      (found : enclave.calls[index]? = some call)
      (fails : enclave.Fails gcm hkdf index call id delivery)
      (incomplete : ¬ enclave.Completes gcm hkdf call delivery)
      (table : after.table = enclave.table.dispose id)
      (calls : after.calls = enclave.calls.set index { call with handler, failed := true })
  | continues {index : Nat} {call : AsyncCall} {handler : AsyncRecvHandler}
      (registered : enclave.table.callbackMap.lookup id = some index)
      (found : enclave.calls[index]? = some call)
      (works : ¬ enclave.Fails gcm hkdf index call id delivery)
      (incomplete : ¬ enclave.Completes gcm hkdf call delivery)
      (notReceived : handler.received = none)
      (table : (enclave.table.dispose id).registerCallback index = .ok after.table)
      (calls : after.calls = enclave.calls.set index { call with handler })
  | completes {index : Nat} {call : AsyncCall} {handler : AsyncRecvHandler} {data : Bytes}
      (registered : enclave.table.callbackMap.lookup id = some index)
      (found : enclave.calls[index]? = some call)
      (works : ¬ enclave.Fails gcm hkdf index call id delivery)
      (completes : enclave.Completes gcm hkdf call delivery)
      (table : after.table = enclave.table.dispose id)
      (calls : after.calls = enclave.calls.set index (AsyncCall.report { call with handler } data false))

theorem received_of_continues {delivery : Delivery} {handler handler' : AsyncRecvHandler} {peer : Direction}
    (progresses : progress gcm hkdf delivery handler peer = some (.continues handler')) :
    handler'.received = none := by
  unfold progress at progresses
  split at progresses
  next => cases progresses
  next => cases progresses
  next =>
    split at progresses
    next notReceived =>
      split at progresses
      next =>
        cases progresses
        exact notReceived
      next => cases progresses
    next =>
      split at progresses <;> cases progresses

theorem deliver_cases {before after : Enclave} {id : IDType} {delivery : Delivery}
    (delivers : before.deliver gcm hkdf id delivery = some after) :
    Delivered gcm hkdf before id delivery after := by
  unfold deliver at delivers
  split at delivers
  next unregistered =>
    cases delivers
    exact .unregistered unregistered rfl
  next index registered =>
    split at delivers
    next => cases delivers
    next call found =>
      dsimp only at delivers
      split at delivers
      next => cases delivers
      next handler peer progresses =>
        cases delivers
        refine .fails registered found (.inl ⟨_, _, progresses⟩) ?_ rfl rfl
        rintro ⟨_, _, _, completes⟩
        cases progresses.symm.trans completes
      next handler progresses =>
        have incomplete : ¬ before.Completes gcm hkdf call delivery := by
          rintro ⟨_, _, _, completes⟩
          cases progresses.symm.trans completes
        split at delivers
        next error registers =>
          cases delivers
          exact .fails registered found (.inr ⟨⟨_, progresses⟩, _, registers⟩) incomplete rfl rfl
        next table registers =>
          cases delivers
          refine .continues registered found ?_ incomplete (received_of_continues progresses) registers rfl
          rintro (⟨_, _, fails⟩ | ⟨_, error, refused⟩)
          · cases progresses.symm.trans fails
          · cases registers.symm.trans refused
      next handler peer decMsg progresses =>
        cases delivers
        have works : ¬ before.Fails gcm hkdf index call id delivery := by
          rintro (⟨_, _, fails⟩ | ⟨⟨_, continues⟩, _⟩)
          · cases progresses.symm.trans fails
          · cases progresses.symm.trans continues
        have completes : before.Completes gcm hkdf call delivery := ⟨_, _, _, progresses⟩
        unfold polled
        split
        next => exact .completes registered found works completes rfl rfl
        next => exact .completes registered found works completes rfl rfl

/-! ## The invariant -/

/-- What holds of a call whatever the host does. -/
structure Quiet (call : AsyncCall) : Prop where
  atMostOnce : call.reports.length ≤ 1
  noError : ∀ report ∈ call.reports, report.hasErrorOccurred = false
  completion : call.handler.received ≠ none → call.failed = false → call.reports.length = 1

/-- What has to hold besides. -/
structure OnTime (call : AsyncCall) : Prop where
  notAfterThrow : ∀ report ∈ call.reports, report.afterThrow = false
  notLost : call.status = .returned → call.failed = false

theorem reported_iff {enclave : Enclave} {call : AsyncCall} (quiet : Quiet call) :
    enclave.Reported call ↔ OnTime call := by
  constructor
  · intro reported
    refine ⟨reported.notAfterThrow, fun returned => ?_⟩
    by_contra failed
    -- the report of a failure would carry the error flag
    obtain ⟨data, isReport⟩ := reported.failure returned (by simpa using failed)
    have noError := quiet.noError ⟨data, true, false⟩ (by simp [isReport])
    cases noError
  · intro onTime
    have notLost (returned : call.status = .returned) (failed : call.failed = true) : False := by
      rw [onTime.notLost returned] at failed
      cases failed
    exact ⟨quiet.atMostOnce, onTime.notAfterThrow, fun _ => quiet.completion,
      fun returned failed => (notLost returned failed).elim,
      fun returned failed => (notLost returned failed).elim⟩

/-- A registered handler is the only one of its call, and its callback has not been called. -/
structure Registered (table : UntrustedAsyncEventHandler) (calls : List AsyncCall) : Prop where
  waits : ∀ id index, table.callbackMap.lookup id = some index →
    ∃ call, calls[index]? = some call ∧ call.reports = [] ∧ call.handler.received = none
  unique : ∀ id id' index, table.callbackMap.lookup id = some index →
    table.callbackMap.lookup id' = some index → id = id'

structure Consistent (enclave : Enclave) : Prop where
  registered : Registered enclave.table enclave.calls
  quiet : ∀ call ∈ enclave.calls, Quiet call

theorem Consistent.allReported_iff {enclave : Enclave} (consistent : Consistent enclave) :
    enclave.AllReported ↔ ∀ call ∈ enclave.calls, OnTime call :=
  forall₂_congr fun call member => reported_iff (consistent.quiet call member)

theorem consistent_start (sockets : Nat → Socket) (socketMap : List SocketIdType) :
    Consistent (start sockets socketMap) where
  registered :=
    { waits := fun _ _ looked => by cases looked
      unique := fun _ _ _ looked => by cases looked }
  quiet := fun _ member => by cases member

variable {table table' : UntrustedAsyncEventHandler} {calls : List AsyncCall} {index : Nat}
  {call call' : AsyncCall} {id : IDType}

/-- The call is changed in what no handler depends on. -/
theorem Registered.set (registered : Registered table calls) (found : calls[index]? = some call)
    (reports : call'.reports = call.reports)
    (received : call'.handler.received = call.handler.received) :
    Registered table (calls.set index call') where
  waits := by
    intro id other looked
    obtain ⟨waiting, foundOther, unreported, notReceived⟩ := registered.waits id other looked
    by_cases same : index = other
    · subst same
      cases found.symm.trans foundOther
      obtain ⟨inside, _⟩ := List.getElem?_eq_some_iff.mp found
      exact ⟨call', List.getElem?_set_self inside, reports.trans unreported, received.trans notReceived⟩
    · exact ⟨waiting, (List.getElem?_set_ne same).trans foundOther, unreported, notReceived⟩
  unique := registered.unique

/-- The handler is disposed of, and its call is changed. -/
theorem Registered.dispose (registered : Registered table calls)
    (looked : table.callbackMap.lookup id = some index) :
    Registered (table.dispose id) (calls.set index call') where
  waits := by
    intro id' other looked'
    obtain ⟨looked', different⟩ := UnorderedMap.lookup_of_erase looked'
    obtain ⟨waiting, foundOther, unreported, notReceived⟩ := registered.waits id' other looked'
    have another : index ≠ other := by
      rintro rfl
      exact different (registered.unique _ _ _ looked' looked)
    exact ⟨waiting, (List.getElem?_set_ne another).trans foundOther, unreported, notReceived⟩
  unique := by
    intro id' id'' other looked' looked''
    exact registered.unique _ _ _ (UnorderedMap.lookup_of_erase looked').1
      (UnorderedMap.lookup_of_erase looked'').1

/-- Another handler is registered for a call that has none. -/
theorem Registered.register (registered : Registered table calls)
    (without : ∀ id, table.callbackMap.lookup id ≠ some index)
    (registers : table.registerCallback index = .ok table') (found : calls[index]? = some call)
    (unreported : call.reports = []) (notReceived : call.handler.received = none) :
    Registered table' calls := by
  obtain ⟨new, _, lookup⟩ := UntrustedAsyncEventHandler.lookup_registerCallback registers
  refine ⟨fun id' other looked => ?_, fun id' id'' other looked' looked'' => ?_⟩
  · rcases (lookup id' other).mp looked with ⟨_, rfl⟩ | old
    · exact ⟨call, found, unreported, notReceived⟩
    · exact registered.waits id' other old
  · rcases (lookup id' other).mp looked' with ⟨rfl, rfl⟩ | old'
    · rcases (lookup id'' _).mp looked'' with ⟨rfl, _⟩ | old''
      · rfl
      · exact absurd old'' (without _)
    · rcases (lookup id'' other).mp looked'' with ⟨rfl, rfl⟩ | old''
      · exact absurd old' (without _)
      · exact registered.unique _ _ _ old' old''

theorem Registered.push (registered : Registered table calls) (call : AsyncCall) :
    Registered table (calls ++ [call]) where
  waits := by
    intro id other looked
    obtain ⟨waiting, found, waits⟩ := registered.waits id other looked
    obtain ⟨inside, _⟩ := List.getElem?_eq_some_iff.mp found
    exact ⟨waiting, (List.getElem?_append_left inside).trans found, waits⟩
  unique := registered.unique

theorem forall_mem_set {property : AsyncCall → Prop} (all : ∀ call ∈ calls, property call)
    (found : calls[index]? = some call) :
    (∀ other ∈ calls.set index call', property other) ↔ property call' := by
  obtain ⟨inside, _⟩ := List.getElem?_eq_some_iff.mp found
  constructor
  · exact fun allAfter => allAfter _ (List.mem_set inside call')
  · intro holds other member
    rcases List.mem_or_eq_of_mem_set member with old | rfl
    · exact all _ old
    · exact holds

/-! ## Steps -/

variable {before after : Enclave}

theorem asyncRecvRaw_cases (enclave : Enclave) (socket buffSize : Nat) (receiver : Option SocketIdType) :
    let after := enclave.asyncRecvRaw socket buffSize receiver
    ∃ call, after.calls = enclave.calls ++ [call] ∧ Quiet call ∧ OnTime call ∧
      (after.table = enclave.table ∨ call.reports = [] ∧ call.handler.received = none ∧
        enclave.table.registerCallback enclave.calls.length = .ok after.table) := by
  intro after
  simp only [after, asyncRecvRaw]
  split
  next =>
    refine ⟨_, (List.set_append_right _ _ (Nat.le_refl _)).trans (by rw [Nat.sub_self]; rfl), ?_, ?_,
      .inl rfl⟩
    · exact ⟨by simp [AsyncCall.report], by simp [AsyncCall.report], fun _ _ => by simp [AsyncCall.report]⟩
    · exact ⟨by simp [AsyncCall.report], fun returned => by cases returned⟩
  next =>
    have nothing : AsyncRecvHandler.create.received = none := rfl
    split
    next =>
      exact ⟨_, rfl, ⟨by simp, by simp, fun received => absurd nothing received⟩,
        ⟨by simp, fun returned => by cases returned⟩, .inl rfl⟩
    next table registers =>
      exact ⟨_, rfl, ⟨by simp, by simp, fun received => absurd nothing received⟩,
        ⟨by simp, fun returned => by cases returned⟩, .inr ⟨rfl, rfl, registers⟩⟩

/-- What a frame that is resumed makes of its call. -/
inductive Resumed (enclave : Enclave) (fails : Bool) (frame : Frame) (after : Enclave) : Prop where
  | unchanged (table : after.table = enclave.table) (calls : after.calls = enclave.calls)
      (nothing : ∀ index call, enclave.calls[index]? = some call →
        frame ≠ .buffered index ∧ frame ≠ .initialOcall index ∧
          (frame = .nestedOcall index → fails = true → call.reports ≠ []))
  | ends {index : Nat} {call : AsyncCall} (found : enclave.calls[index]? = some call)
      (isFrame : frame = .initialOcall index ∨ frame = .buffered index)
      (table : after.table = enclave.table)
      (calls : after.calls =
        enclave.calls.set index { call with status := if fails then .threw else .returned })
  | loses {index : Nat} {call : AsyncCall} (found : enclave.calls[index]? = some call)
      (isFrame : frame = .nestedOcall index) (throws : fails = true) (unreported : call.reports = [])
      (table : after.table = enclave.table)
      (calls : after.calls = enclave.calls.set index { call with failed := true })

theorem resumeFrame_cases (enclave : Enclave) (fails : Bool) (frame : Frame) :
    Resumed enclave fails frame (enclave.resumeFrame fails frame) := by
  cases frame with
  | buffered index =>
    cases found : enclave.calls[index]? with
    | none =>
      refine .unchanged (by simp [resumeFrame, found]) (by simp [resumeFrame, found]) ?_
      intro other call foundOther
      refine ⟨fun isFrame => ?_, by simp, by simp⟩
      cases isFrame
      cases found.symm.trans foundOther
    | some call =>
      refine .ends found (.inr rfl) ?_ ?_
      · cases fails <;> simp [resumeFrame, found, setCall, setSocket]
      · cases fails <;> simp [resumeFrame, found, setCall, setSocket]
  | initialOcall index =>
    cases found : enclave.calls[index]? with
    | none =>
      refine .unchanged (by simp [resumeFrame, found]) (by simp [resumeFrame, found]) ?_
      intro other call foundOther
      refine ⟨by simp, fun isFrame => ?_, by simp⟩
      cases isFrame
      cases found.symm.trans foundOther
    | some call =>
      exact .ends found (.inl rfl) (by simp [resumeFrame, found, setCall])
        (by simp [resumeFrame, found, setCall])
  | nestedOcall index =>
    cases found : enclave.calls[index]? with
    | none =>
      refine .unchanged (by simp [resumeFrame, found]) (by simp [resumeFrame, found]) ?_
      intro other call foundOther
      refine ⟨by simp, by simp, fun isFrame => ?_⟩
      cases isFrame
      cases found.symm.trans foundOther
    | some call =>
      -- a nested ocall that throws before any report takes the error with it
      by_cases lost : fails = true ∧ call.reports = []
      · exact .loses found rfl lost.1 lost.2 (by simp [resumeFrame, found, lost, setCall])
          (by simp [resumeFrame, found, lost, setCall])
      · have same : enclave.resumeFrame fails (.nestedOcall index) = enclave := by
          simp only [resumeFrame, found]
          exact if_neg lost
        rw [same]
        refine .unchanged rfl rfl fun other call' foundOther => ?_
        refine ⟨by simp, by simp, fun isFrame throws unreported => ?_⟩
        cases isFrame
        cases found.symm.trans foundOther
        exact lost ⟨throws, unreported⟩

theorem Consistent.deliver (consistent : Consistent before) {delivery : Delivery}
    (delivered : Delivered gcm hkdf before id delivery after) : Consistent after := by
  cases delivered with
  | unregistered none same => exact same ▸ consistent
  | @fails index call handler registered found _ _ table calls =>
    have quiet := consistent.quiet call (List.mem_of_getElem? found)
    refine ⟨table ▸ calls ▸ consistent.registered.dispose registered, ?_⟩
    rw [calls, forall_mem_set consistent.quiet found]
    exact ⟨quiet.atMostOnce, quiet.noError, fun _ => by simp⟩
  | @continues index call handler registered found _ _ notReceived table calls =>
    have quiet := consistent.quiet call (List.mem_of_getElem? found)
    obtain ⟨waiting, foundWaiting, unreported, _⟩ := consistent.registered.waits _ _ registered
    cases found.symm.trans foundWaiting
    obtain ⟨inside, _⟩ := List.getElem?_eq_some_iff.mp found
    constructor
    · have disposed := @Registered.dispose _ _ _ { call with handler } _ consistent.registered registered
      rw [calls]
      refine disposed.register (fun id' looked => ?_) table (List.getElem?_set_self inside) unreported
        notReceived
      obtain ⟨looked, different⟩ := UnorderedMap.lookup_of_erase looked
      exact different (consistent.registered.unique _ _ _ looked registered)
    · rw [calls, forall_mem_set consistent.quiet found]
      exact ⟨quiet.atMostOnce, quiet.noError, fun received => absurd notReceived received⟩
  | @completes index call handler data registered found _ _ table calls =>
    obtain ⟨waiting, foundWaiting, unreported, _⟩ := consistent.registered.waits _ _ registered
    cases found.symm.trans foundWaiting
    refine ⟨table ▸ calls ▸ consistent.registered.dispose registered, ?_⟩
    rw [calls, forall_mem_set consistent.quiet found]
    exact ⟨by simp [AsyncCall.report, unreported], by simp [AsyncCall.report, unreported],
      fun _ _ => by simp [AsyncCall.report, unreported]⟩

theorem Consistent.resume (consistent : Consistent before) {fails : Bool} {frame : Frame}
    (resumed : Resumed before fails frame after) : Consistent after := by
  cases resumed with
  | unchanged table calls _ => exact ⟨table ▸ calls ▸ consistent.registered, calls ▸ consistent.quiet⟩
  | @ends index call found _ table calls =>
    have quiet := consistent.quiet call (List.mem_of_getElem? found)
    refine ⟨table ▸ calls ▸ consistent.registered.set found rfl rfl, ?_⟩
    rw [calls, forall_mem_set consistent.quiet found]
    exact ⟨quiet.atMostOnce, quiet.noError, quiet.completion⟩
  | @loses index call found _ _ _ table calls =>
    have quiet := consistent.quiet call (List.mem_of_getElem? found)
    refine ⟨table ▸ calls ▸ consistent.registered.set found rfl rfl, ?_⟩
    rw [calls, forall_mem_set consistent.quiet found]
    exact ⟨quiet.atMostOnce, quiet.noError, fun _ => by simp⟩

theorem consistent_step {action : Action} (consistent : Consistent before)
    (stepped : before.step gcm hkdf action = some after) : Consistent after := by
  cases action with
  | asyncRecvRaw socket buffSize receiver =>
    cases stepped
    obtain ⟨call, calls, quiet, _, table⟩ := before.asyncRecvRaw_cases socket buffSize receiver
    constructor
    · rw [calls]
      rcases table with same | ⟨unreported, notReceived, registers⟩
      · rw [same]
        exact consistent.registered.push call
      · refine (consistent.registered.push call).register (fun id looked => ?_) registers
          List.getElem?_concat_length unreported notReceived
        -- the index of the new call is used by no entry
        obtain ⟨_, found, _⟩ := consistent.registered.waits _ _ looked
        obtain ⟨inside, _⟩ := List.getElem?_eq_some_iff.mp found
        omega
    · rw [calls]
      exact List.forall_mem_append.mpr ⟨consistent.quiet, by simpa using quiet⟩
  | deliver id delivery => exact consistent.deliver (deliver_cases stepped)
  | resume place fails =>
    simp only [step] at stepped
    split at stepped
    next => cases stepped
    next frame isFrame =>
      cases stepped
      have waiting : Consistent { before with frames := before.frames.eraseIdx place } :=
        ⟨consistent.registered, consistent.quiet⟩
      exact waiting.resume (resumeFrame_cases _ _ _)
  | otherUse socket state =>
    cases stepped
    exact ⟨consistent.registered, consistent.quiet⟩
  | addSocket socket =>
    cases stepped
    exact ⟨consistent.registered, consistent.quiet⟩
  | removeSocket socket =>
    cases stepped
    exact ⟨consistent.registered, consistent.quiet⟩

/-! ## The steps that break the promise -/

theorem onTime_deliver {delivery : Delivery} (consistent : Consistent before)
    (allOnTime : ∀ call ∈ before.calls, OnTime call)
    (delivered : Delivered gcm hkdf before id delivery after) :
    (∀ call ∈ after.calls, OnTime call) ↔ ¬ before.Defect gcm hkdf (.deliver id delivery) := by
  cases delivered with
  | unregistered none same =>
    -- there is no receive that a defect could be about
    subst same
    refine iff_of_true allOnTime fun defect => ?_
    cases defect with
    | lateReport registered => cases none.symm.trans registered
    | failedDelivery registered => cases none.symm.trans registered
  | @fails index call handler registered found fails incomplete table calls =>
    -- the error is lost just when the receive had returned to its caller
    have onTime := allOnTime call (List.mem_of_getElem? found)
    rw [calls, forall_mem_set allOnTime found]
    constructor
    · intro onTimeAfter defect
      cases defect with
      | lateReport registered' found' threw completes =>
        cases registered.symm.trans registered'
        cases found.symm.trans found'
        exact incomplete completes
      | failedDelivery registered' found' returned =>
        cases registered.symm.trans registered'
        cases found.symm.trans found'
        cases onTimeAfter.notLost returned
    · intro harmless
      exact ⟨onTime.notAfterThrow, fun returned =>
        (harmless (.failedDelivery registered found returned fails)).elim⟩
  | @continues index call handler registered found works incomplete notReceived table calls =>
    have onTime := allOnTime call (List.mem_of_getElem? found)
    rw [calls, forall_mem_set allOnTime found]
    refine iff_of_true ⟨onTime.notAfterThrow, onTime.notLost⟩ fun defect => ?_
    cases defect with
    | lateReport registered' found' threw completes =>
      cases registered.symm.trans registered'
      cases found.symm.trans found'
      exact incomplete completes
    | failedDelivery registered' found' returned fails =>
      cases registered.symm.trans registered'
      cases found.symm.trans found'
      exact works fails
  | @completes index call handler data registered found works completes table calls =>
    -- the report is late just when the receive had thrown
    have onTime := allOnTime call (List.mem_of_getElem? found)
    obtain ⟨waiting, foundWaiting, unreported, _⟩ := consistent.registered.waits _ _ registered
    cases found.symm.trans foundWaiting
    rw [calls, forall_mem_set allOnTime found]
    constructor
    · intro onTimeAfter defect
      cases defect with
      | lateReport registered' found' threw =>
        cases registered.symm.trans registered'
        cases found.symm.trans found'
        have late := onTimeAfter.notAfterThrow ⟨data, false, true⟩
          (by simp [AsyncCall.report, unreported, threw])
        cases late
      | failedDelivery registered' found' returned fails =>
        cases registered.symm.trans registered'
        cases found.symm.trans found'
        exact works fails
    · intro harmless
      refine ⟨fun report member => ?_, onTime.notLost⟩
      simp only [AsyncCall.report, unreported, List.nil_append, List.mem_singleton] at member
      subst member
      exact decide_eq_false fun threw => harmless (.lateReport registered found threw completes)

theorem onTime_resume {place : Nat} {fails : Bool} {frame : Frame} {frames : List Frame}
    (allOnTime : ∀ call ∈ before.calls, OnTime call) (isFrame : before.frames[place]? = some frame)
    (resumed : Resumed { before with frames } fails frame after) :
    (∀ call ∈ after.calls, OnTime call) ↔ ¬ before.Defect gcm hkdf (.resume place fails) := by
  cases resumed with
  | unchanged table calls nothing =>
    -- no call is concerned, so no defect is possible at this frame
    refine iff_of_true (calls ▸ allOnTime) fun defect => ?_
    cases defect with
    | failedOcall isFrame' found _ unreported =>
      cases isFrame.symm.trans isFrame'
      exact (nothing _ _ found).2.2 rfl rfl unreported
    | failedBefore isFrame' found =>
      cases isFrame' with
      | inl isFrame' =>
        cases isFrame.symm.trans isFrame'
        exact (nothing _ _ found).2.1 rfl
      | inr isFrame' =>
        cases isFrame.symm.trans isFrame'
        exact (nothing _ _ found).1 rfl
  | @ends index call found ofCall table calls =>
    -- the call ends at this frame: an error counts as reported only if the frame throws
    have onTime := allOnTime call (List.mem_of_getElem? found)
    rw [calls, forall_mem_set allOnTime found]
    constructor
    · intro onTimeAfter defect
      cases defect with
      | failedOcall isFrame' =>
        cases isFrame.symm.trans isFrame'
        cases ofCall with
        | inl ofCall => cases ofCall
        | inr ofCall => cases ofCall
      | @failedBefore _ index' call' isFrame' found' failed =>
        have sameIndex : index' = index := by
          rcases ofCall with rfl | rfl <;> rcases isFrame' with isFrame' | isFrame' <;>
            cases isFrame.symm.trans isFrame' <;> rfl
        subst sameIndex
        cases found.symm.trans found'
        cases failed.symm.trans (onTimeAfter.notLost rfl)
    · intro harmless
      refine ⟨onTime.notAfterThrow, fun returned => ?_⟩
      cases fails with
      | true => cases returned
      | false =>
        by_contra failed
        refine harmless (.failedBefore ?_ found (by simpa using failed))
        rcases ofCall with rfl | rfl
        · exact .inl isFrame
        · exact .inr isFrame
  | @loses index call found ofCall throws unreported table calls =>
    -- the throw ends in a handler that reports nothing
    have onTime := allOnTime call (List.mem_of_getElem? found)
    subst ofCall throws
    rw [calls, forall_mem_set allOnTime found]
    constructor
    · intro onTimeAfter defect
      cases defect with
      | failedOcall isFrame' found' returned =>
        cases isFrame.symm.trans isFrame'
        cases found.symm.trans found'
        cases onTimeAfter.notLost returned
    · intro harmless
      exact ⟨onTime.notAfterThrow, fun returned =>
        (harmless (.failedOcall isFrame found returned unreported)).elim⟩

theorem onTime_step {action : Action} (consistent : Consistent before)
    (allOnTime : ∀ call ∈ before.calls, OnTime call)
    (stepped : before.step gcm hkdf action = some after) :
    (∀ call ∈ after.calls, OnTime call) ↔ ¬ before.Defect gcm hkdf action := by
  cases action with
  | asyncRecvRaw socket buffSize receiver =>
    cases stepped
    obtain ⟨call, calls, _, onTime, _⟩ := before.asyncRecvRaw_cases socket buffSize receiver
    refine iff_of_true ?_ fun defect => by cases defect
    rw [calls]
    exact List.forall_mem_append.mpr ⟨allOnTime, by simpa using onTime⟩
  | deliver id delivery => exact onTime_deliver consistent allOnTime (deliver_cases stepped)
  | resume place fails =>
    simp only [step] at stepped
    split at stepped
    next => cases stepped
    next frame isFrame =>
      cases stepped
      exact onTime_resume allOnTime isFrame (resumeFrame_cases _ _ _)
  | otherUse socket state =>
    cases stepped
    exact iff_of_true allOnTime fun defect => by cases defect
  | addSocket socket =>
    cases stepped
    exact iff_of_true allOnTime fun defect => by cases defect
  | removeSocket socket =>
    cases stepped
    exact iff_of_true allOnTime fun defect => by cases defect

theorem consistent_of_run {sockets : Nat → Socket} {socketMap : List SocketIdType}
    {taken : List (Enclave × Action)} {final : Enclave}
    (run : AsyncRun gcm hkdf (start sockets socketMap) taken final) : Consistent final :=
  run.invariant (fun _ _ => True) (fun _ enclave => Consistent enclave)
    (consistent_start sockets socketMap)
    (fun _ _ _ _ consistent _ stepped => consistent_step consistent stepped) fun _ _ => trivial

end Enclave

open Enclave

/-- In every run of the host: all outcomes of all calls are reported as promised, at every moment, if and
    only if no step is one that loses an outcome or reports one too late; and no callback is ever called
    with the error flag. -/
theorem async_reports_iff (gcm : KeyType → PackageBytes.AesGcmOneGo) (hkdf : Hkdf)
    {sockets : Nat → Socket} {socketMap : List SocketIdType} {taken : List (Enclave × Action)}
    {final : Enclave} (run : AsyncRun gcm hkdf (start sockets socketMap) taken final) :
    (Throughout (fun _ enclave => enclave.AllReported) taken final ↔
      ∀ entry ∈ taken, ¬ entry.1.Defect gcm hkdf entry.2) ∧
    ∀ call ∈ final.calls, ∀ report ∈ call.reports, report.hasErrorOccurred = false := by
  refine ⟨?_, fun call member => ((consistent_of_run run).quiet call member).noError⟩
  refine Run.throughout_iff (fun before action => ¬ before.Defect gcm hkdf action) _ ?_ ?_ run
  · intro call member
    cases member
  · intro taken before action after run allReported stepped
    have consistent := consistent_of_run run
    rw [(consistent_step consistent stepped).allReported_iff]
    exact onTime_step consistent (consistent.allReported_iff.mp allReported) stepped

/-- One socket, on which nothing has arrived. -/
def newSockets : Nat → Socket := fun _ => ⟨ByteStream.zeroDirection, []⟩

/-- A receive whose OCALL succeeds, and a part of the size field. -/
def partOfSize : List Action := [.asyncRecvRaw 0 64 none, .resume 0 false, .deliver 0 ⟨[1, 2, 3], false⟩]

theorem async_reports_iff_part_of_size : ∃ taken final,
    AsyncRun (fun _ => transparentGcm) ByteStream.fixedKeys (start newSockets []) taken final ∧
      taken.map Prod.snd = partOfSize ∧ Throughout (fun _ enclave => enclave.AllReported) taken final := by
  let step := step (fun _ => transparentGcm) ByteStream.fixedKeys
  let calling := (start newSockets []).asyncRecvRaw 0 64 none
  let waiting := { calling with frames := [] }.resumeFrame false (.initialOcall 0)
  obtain ⟨final, delivered⟩ : ∃ final, step waiting (.deliver 0 ⟨[1, 2, 3], false⟩) = some final := ⟨_, rfl⟩
  have run : AsyncRun (fun _ => transparentGcm) ByteStream.fixedKeys (start newSockets [])
      [(start newSockets [], .asyncRecvRaw 0 64 none), (calling, .resume 0 false),
        (waiting, .deliver 0 ⟨[1, 2, 3], false⟩)] final :=
    ((Run.nil.snoc rfl).snoc rfl).snoc delivered
  refine ⟨_, _, run, rfl, (async_reports_iff _ _ run).1.mpr ?_⟩
  simp only [List.forall_mem_cons, List.not_mem_nil, false_imp_iff, implies_true, and_true]
  refine ⟨fun defect => ?_, fun defect => ?_, fun defect => ?_⟩
  · cases defect
  · cases defect with
    | failedBefore isFrame found failed =>
      cases isFrame with
      | inl isFrame =>
        cases (show some (Frame.initialOcall 0) = _ from isFrame)
        cases (show some _ = _ from found)
        cases failed
      | inr isFrame => cases (show some (Frame.initialOcall 0) = _ from isFrame)
  · cases defect with
    | lateReport registered found threw =>
      cases (show some 0 = _ from registered)
      cases (show some _ = _ from found)
      cases threw
    | failedDelivery registered found returned fails =>
      cases (show some 0 = _ from registered)
      cases (show some _ = _ from found)
      rcases fails with ⟨_, _, fails⟩ | ⟨_, _, refused⟩
      · cases (show some (Progress.continues _) = _ from fails)
      · cases (show Except.ok _ = _ from refused)

/-- The host reports an error to the receive of a heartbeat receiver. -/
def brokenConnection : List Action :=
  [.addSocket 5, .asyncRecvRaw 0 64 (some 5), .resume 0 false, .deliver 0 ⟨[], true⟩]

/-- The OCALL fails, and the host delivers the package all the same. -/
def deliveredAnyway (frame : Bytes) : List Action :=
  [.asyncRecvRaw 0 64 none, .resume 0 true, .deliver 0 ⟨frame.take 8, false⟩, .resume 0 false,
    .deliver 1 ⟨frame.drop 8, false⟩]

/-- An error is not reported, and the heartbeat receiver stays; a report follows an exception. -/
theorem async_outcome_lost :
    (∃ taken final, AsyncRun (fun _ => transparentGcm) ByteStream.fixedKeys (start newSockets []) taken
        final ∧
      (∃ call ∈ final.calls, call.status = .returned ∧ call.reports = [] ∧ call.receiver = some 5) ∧
      5 ∈ final.socketMap ∧ final.table.callbackMap.entries = [] ∧ ¬ final.AllReported) ∧
    ∃ taken final, AsyncRun (fun _ => transparentGcm) ByteStream.fixedKeys (start newSockets []) taken
        final ∧
      (∃ call ∈ final.calls, call.status = .threw ∧ call.reports = [⟨[1, 2, 3], false, true⟩]) ∧
      ¬ final.AllReported := by
  constructor
  · obtain ⟨taken, final, run, lost, kept, none⟩ :=
      Run.exists_of_replay (fun _ _ _ stepped => stepped) brokenConnection
        (fun _ (final : Enclave) => (∃ call ∈ final.calls, call.status = .returned ∧
          call.failed = true ∧ call.reports = [] ∧ call.receiver = some 5) ∧
        5 ∈ final.socketMap ∧ final.table.callbackMap.entries = [])
        (show (Run.replay (step (fun _ => transparentGcm) ByteStream.fixedKeys) _ []
          (start newSockets [])).any _ = true by decide +kernel)
    obtain ⟨call, member, returned, failed, unreported, receiver⟩ := lost
    refine ⟨taken, final, run, ⟨call, member, returned, unreported, receiver⟩, kept, none,
      fun allReported => ?_⟩
    obtain ⟨data, isReport⟩ := (allReported call member).failure returned failed
    cases unreported.symm.trans isReport
  · obtain ⟨frames, _, _, reached⟩ := Outcome.returns_iff.mp (show Outcome.Returns
      (ByteStream.sendAll (fun _ => transparentGcm) ByteStream.fixedKeys [ByteStream.threeByteMessage]
        ByteStream.zeroDirection) (fun frames _ =>
          (Run.replay (step (fun _ => transparentGcm) ByteStream.fixedKeys)
            (deliveredAnyway frames.flatten) [] (start newSockets [])).any (fun reached => decide
              (∃ call ∈ reached.2.calls, call.status = .threw ∧
                call.reports = [⟨[1, 2, 3], false, true⟩])) = true) by decide +kernel)
    obtain ⟨taken, final, run, late⟩ := Run.exists_of_replay (fun _ _ _ stepped => stepped) _
      (fun _ (final : Enclave) => ∃ call ∈ final.calls, call.status = .threw ∧
        call.reports = [⟨[1, 2, 3], false, true⟩]) reached
    refine ⟨taken, final, run, late, fun allReported => ?_⟩
    obtain ⟨call, member, _, reports⟩ := late
    have onTime := (allReported call member).notAfterThrow ⟨[1, 2, 3], false, true⟩ (by simp [reports])
    cases onTime

end Decentagram.DecentEnclave.AsyncReports
