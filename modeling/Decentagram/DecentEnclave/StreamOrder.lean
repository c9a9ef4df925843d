import Decentagram.DecentEnclave.ByteStream

/-! # The order of the bytes that are handed out

What the peer sends is handed out once and in order as long as no receive finds the left-over bytes while a
callback has them, and no two receives share a package.  The bytes are accounted for: they are handed out,
kept for the next receive, held by a receive that waits, or still underway.
-/

namespace Decentagram.DecentEnclave.ByteStream

open Decentagram.Lib AesGcm StreamSocket
open PackageBytes hiding memcpy

variable {gcm : KeyType → AesGcmOneGo} {hkdf : Hkdf}

/-! ## The packages of the peer -/

theorem packaging_eq_ok {α : Type} {packing : Packing α} {direction after : Direction} {value : α} :
    packaging packing direction = .ok value after ↔ packing () = .ok value () ∧ direction = after := by
  rw [packaging, Exec.zoom_apply]
  cases packing () <;> simp

/-- The direction that sealed a message opens it, and both go on with the same keys. -/
theorem sendRaw_eq_ok (lawful : ∀ key, (gcm key).Lawful) {message : Message} {direction after : Direction}
    {frame : List UInt8} (sent : sendRaw gcm hkdf message direction = .ok frame after) :
    after = direction.checkKeysLifetime hkdf ∧ ∃ package, frame = sized package ∧
      package.length ≤ maxSize ∧
      decryptMsg gcm hkdf package direction = .ok message.data.bytes after := by
  obtain ⟨package, state, encrypted, ⟨⟩⟩ := Exec.bind_eq_ok.mp sent
  obtain ⟨_, _, ⟨⟩, packed⟩ := Exec.bind_eq_ok.mp encrypted
  obtain ⟨⟨res, tag⟩, _, ran, ⟨⟩⟩ := Exec.bind_eq_ok.mp packed
  obtain ⟨packs, rfl⟩ := packaging_eq_ok.mp ran
  refine ⟨rfl, package, rfl, (length_of_packed (lawful _) packs).2.2, ?_⟩
  have unpacked := packaging_eq_ok.mpr ⟨unpack_of_packed (lawful _) packs (.inl rfl), @rfl _ direction⟩
  refine Exec.bind_eq_ok.mpr ⟨direction, direction, rfl, ?_⟩
  exact Exec.bind_eq_ok.mpr ⟨_, _, unpacked, rfl⟩

theorem sendAll_nil {direction last : Direction} {frames : List (List UInt8)}
    (sent : sendAll gcm hkdf [] direction = .ok frames last) : frames = [] := by
  cases sent
  rfl

theorem sendAll_cons (lawful : ∀ key, (gcm key).Lawful) {message : Message} {messages : List Message}
    {direction last : Direction} {frames : List (List UInt8)}
    (sent : sendAll gcm hkdf (message :: messages) direction = .ok frames last) :
    ∃ package rest, frames = sized package :: rest ∧ package.length ≤ maxSize ∧
      decryptMsg gcm hkdf package direction =
        .ok message.data.bytes (direction.checkKeysLifetime hkdf) ∧
      sendAll gcm hkdf messages (direction.checkKeysLifetime hkdf) = .ok rest last := by
  obtain ⟨frame, state, sentFirst, sentRest⟩ := Exec.bind_eq_ok.mp sent
  obtain ⟨rest, _, restSent, ⟨⟩⟩ := Exec.bind_eq_ok.mp sentRest
  obtain ⟨rfl, package, rfl, fits, opened⟩ := sendRaw_eq_ok lawful sentFirst
  exact ⟨package, rest, rfl, fits, opened, restSent⟩

/-- The eight bytes at the front of a frame are the size of the package behind them. -/
theorem of_sized {package field rest more : List UInt8} (fits : package.length ≤ maxSize)
    (isField : field.length = 8) (same : field ++ rest = sized package ++ more) :
    (ofMemory field).toNat = package.length ∧ rest = package ++ more := by
  rw [sized, List.append_assoc] at same
  obtain ⟨rfl, rfl⟩ := List.append_inj same (by rw [isField, length_toMemory])
  exact ⟨by rw [ofMemory_toMemory, toNat_ofNat_of_le fits], rfl⟩

/-! ## One receive that waits -/

/-- The part of a frame that a handler has got. -/
def heldBytes (handler : AsyncRecvHandler) : List UInt8 :=
  match handler.registered with
  | some .packSizeRecvHandler => handler.packSize.take handler.recvdSize
  | some .packRecvHandler => handler.packSize ++ handler.recvBuf.take handler.recvdSize
  | none => []

/-- The next delivery of so many bytes is the last one of the package. -/
def LastOfPackage (handler : AsyncRecvHandler) (count : Nat) : Prop :=
  handler.registered = some .packRecvHandler ∧
    (ofMemory handler.packSize).toNat ≤ handler.recvdSize + count

instance (handler : AsyncRecvHandler) (count : Nat) : Decidable (LastOfPackage handler count) :=
  inferInstanceAs (Decidable (_ ∧ _))

structure Waiting (handler : AsyncRecvHandler) : Prop where
  field : handler.packSize.length = 8
  nothing : handler.received = none
  phase : handler.registered = some .packSizeRecvHandler ∧ handler.recvdSize < 8 ∨
    handler.registered = some .packRecvHandler ∧
      handler.recvBuf.length = (ofMemory handler.packSize).toNat ∧
      handler.recvdSize ≤ handler.recvBuf.length

theorem create_waiting : Waiting .create where
  field := rfl
  nothing := rfl
  phase := .inl ⟨rfl, by decide⟩

theorem heldBytes_create : heldBytes .create = [] := rfl

/-- What a delivery makes of a handler: it waits for more, it has the package, or it cannot allocate the
    buffer for the size that came. -/
inductive Handled (handler : AsyncRecvHandler) (data : List UInt8) :
    Outcome Error AsyncRecvHandler Unit → Prop where
  | waits {after : AsyncRecvHandler} (waiting : Waiting after)
      (held : heldBytes after = heldBytes handler ++ data) : Handled handler data (.ok () after)
  | done {after : AsyncRecvHandler} {field package : List UInt8}
      (received : after.received = some package) (isLast : LastOfPackage handler data.length)
      (isField : field.length = 8) (isSize : package.length = (ofMemory field).toNat)
      (held : heldBytes handler ++ data = field ++ package) : Handled handler data (.ok () after)
  | tooLarge {error : Error} {after : AsyncRecvHandler} {field : List UInt8} (isField : field.length = 8)
      (size : maxSize < (ofMemory field).toNat) (held : heldBytes handler ++ data = field) :
      Handled handler data (.throws error after)

theorem dispatchCallback_handled {handler : AsyncRecvHandler} {data : List UInt8}
    (waiting : Waiting handler) (within : data.length ≤ expecting handler) :
    Handled handler data (AsyncRecvHandler.dispatchCallback allocates ⟨data, false⟩ handler) := by
  rcases waiting.phase with ⟨registered, notFull⟩ | ⟨registered, isBuffer, inBuffer⟩
  · -- the size field
    have atMost : data.length ≤ 8 - handler.recvdSize := by simpa [expecting, registered] using within
    have inside : handler.recvdSize + data.length ≤ handler.packSize.length := by
      rw [waiting.field]
      omega
    have copied := StreamSocket.memcpy_of_le inside
    have sameLength := length_memcpy copied
    have grown := take_memcpy copied
    generalize handler.packSize.take handler.recvdSize ++ data ++ _ = packSize at copied sameLength grown
    rw [waiting.field] at sameLength
    have held : packSize.take (handler.recvdSize + data.length) = heldBytes handler ++ data := by
      simp [heldBytes, registered, grown]
    by_cases more : handler.recvdSize + data.length < 8
    · have ended : AsyncRecvHandler.dispatchCallback allocates ⟨data, false⟩ handler =
          .ok () { handler with
            packSize, recvdSize := handler.recvdSize + data.length
            registered := some .packSizeRecvHandler } := by
        simp [AsyncRecvHandler.dispatchCallback, registered, AsyncRecvHandler.packSizeRecvHandler,
          AsyncRecvHandler.intoPackSize, copyTo, copied, AsyncRecvHandler.register, more]
      rw [ended]
      exact .waits ⟨sameLength, waiting.nothing, .inl ⟨rfl, more⟩⟩ held
    · rw [List.take_of_length_le (by omega)] at held
      by_cases tooLarge : maxSize < (ofMemory packSize).toNat
      · have ended : ∃ after, AsyncRecvHandler.dispatchCallback allocates ⟨data, false⟩ handler =
            .throws .badAlloc after := by
          simp [AsyncRecvHandler.dispatchCallback, registered, AsyncRecvHandler.packSizeRecvHandler,
            AsyncRecvHandler.intoPackSize, copyTo, copied, AsyncRecvHandler.resizeRecvBuf, more, allocates,
            tooLarge]
        obtain ⟨after, ended⟩ := ended
        rw [ended]
        exact .tooLarge sameLength tooLarge held.symm
      · have ended : AsyncRecvHandler.dispatchCallback allocates ⟨data, false⟩ handler =
            .ok () { handler with
              packSize, recvdSize := 0, recvBuf := List.replicate (ofMemory packSize).toNat 0
              registered := some .packRecvHandler } := by
          simp [AsyncRecvHandler.dispatchCallback, registered, AsyncRecvHandler.packSizeRecvHandler,
            AsyncRecvHandler.intoPackSize, copyTo, copied, AsyncRecvHandler.resizeRecvBuf, more, allocates,
            tooLarge, AsyncRecvHandler.register]
        rw [ended]
        refine .waits ⟨sameLength, waiting.nothing, .inr ⟨rfl, by simp, by simp⟩⟩ ?_
        simpa [heldBytes] using held
  · -- the package
    have atMost : data.length ≤ (ofMemory handler.packSize).toNat - handler.recvdSize := by
      simpa [expecting, registered] using within
    have inside : handler.recvdSize + data.length ≤ handler.recvBuf.length := by omega
    have copied := StreamSocket.memcpy_of_le inside
    have sameLength := length_memcpy copied
    have grown := take_memcpy copied
    generalize handler.recvBuf.take handler.recvdSize ++ data ++ _ = recvBuf at copied sameLength grown
    rw [isBuffer] at sameLength
    have held : handler.packSize ++ recvBuf.take (handler.recvdSize + data.length) =
        heldBytes handler ++ data := by
      simp [heldBytes, registered, grown]
    by_cases more : handler.recvdSize + data.length < (ofMemory handler.packSize).toNat
    · have ended : AsyncRecvHandler.dispatchCallback allocates ⟨data, false⟩ handler =
          .ok () { handler with
            recvBuf, recvdSize := handler.recvdSize + data.length
            registered := some .packRecvHandler } := by
        simp [AsyncRecvHandler.dispatchCallback, registered, AsyncRecvHandler.packRecvHandler,
          AsyncRecvHandler.intoRecvBuf, copyTo, copied, AsyncRecvHandler.register, more]
      rw [ended]
      refine .waits ⟨waiting.field, waiting.nothing, .inr ⟨rfl, sameLength, ?_⟩⟩ held
      change handler.recvdSize + data.length ≤ recvBuf.length
      omega
    · rw [List.take_of_length_le (by omega)] at held
      have ended : AsyncRecvHandler.dispatchCallback allocates ⟨data, false⟩ handler =
          .ok () { handler with
            recvBuf := [], recvdSize := handler.recvdSize + data.length, registered := none
            received := some recvBuf } := by
        simp [AsyncRecvHandler.dispatchCallback, registered, AsyncRecvHandler.packRecvHandler,
          AsyncRecvHandler.intoRecvBuf, copyTo, copied, more]
      rw [ended]
      exact .done rfl ⟨registered, by omega⟩ waiting.field sameLength held.symm

/-! ## The accounts of the endpoint -/

/-- The parts of frames that the pending receives have got. -/
def Endpoint.held (endpoint : Endpoint) : List UInt8 :=
  (endpoint.pending.map fun recv => heldBytes recv.handler).flatten

/-- The left-over bytes that are still to be handed out.  While a callback has them they are not. -/
def Endpoint.kept (endpoint : Endpoint) : List UInt8 :=
  if .buffered ∈ endpoint.callbacks then [] else endpoint.recvBuf

/-- The messages arrive as a faithful stream of bytes when they were sent in these frames. -/
structure Faithful (messages : List Message) (frames : List (List UInt8)) (endpoint : Endpoint) : Prop where
  /-- No delivery exceeds the size that was asked for. -/
  within : ∀ delivery ∈ endpoint.handedOut, delivery.bytes.length ≤ delivery.requested
  /-- Every decrypted byte is handed out or kept, once and in order. -/
  once : (endpoint.handedOut.map HandedOut.bytes).flatten ++ endpoint.kept = endpoint.decrypted.flatten
  /-- The decrypted messages are the first ones that were sent. -/
  decrypted : endpoint.decrypted =
    (messages.take endpoint.decrypted.length).map fun message => message.data.bytes
  /-- All the others are still to come. -/
  underway : endpoint.held ++ endpoint.wire = (frames.drop endpoint.decrypted.length).flatten

/-- The steps that do not touch the left-over bytes while a callback has them, do not hand out more of them
    than was asked for, and do not take a part of a package that another receive has begun. -/
def Proper (messages : List Message) (endpoint : Endpoint) : Action → Prop
  | .recvRaw size =>
    if endpoint.recvBuf = [] then ∀ recv ∈ endpoint.pending, recv.handler = .create
    else .buffered ∉ endpoint.callbacks ∨ size = 0
  | .asyncRecvRaw buffSize =>
    endpoint.recvBuf ≠ [] → endpoint.recvBuf.length ≤ buffSize ∧ .buffered ∉ endpoint.callbacks
  | .deliver index count =>
    (∀ other ∈ endpoint.pending.eraseIdx index, other.handler = .create) ∧
      ∀ recv ∈ endpoint.pending[index]?, LastOfPackage recv.handler count →
        ∀ next ∈ messages[endpoint.decrypted.length]?, next.data.bytes ≠ [] →
          if .buffered ∈ endpoint.callbacks then next.data.bytes.length ≤ recv.buffSize
          else endpoint.recvBuf = []
  | .callbackReturns throws => throws = true → endpoint.callbacks.head? ≠ some .buffered

instance decidableProper (messages : List Message) (endpoint : Endpoint) :
    (action : Action) → Decidable (Proper messages endpoint action)
  | .recvRaw size => inferInstanceAs (Decidable
      (if endpoint.recvBuf = [] then ∀ recv ∈ endpoint.pending, recv.handler = .create
      else .buffered ∉ endpoint.callbacks ∨ size = 0))
  | .asyncRecvRaw buffSize => inferInstanceAs (Decidable
      (endpoint.recvBuf ≠ [] → endpoint.recvBuf.length ≤ buffSize ∧ .buffered ∉ endpoint.callbacks))
  | .deliver index count => inferInstanceAs (Decidable
      ((∀ other ∈ endpoint.pending.eraseIdx index, other.handler = .create) ∧
        ∀ recv ∈ endpoint.pending[index]?, LastOfPackage recv.handler count →
          ∀ next ∈ messages[endpoint.decrypted.length]?, next.data.bytes ≠ [] →
            if .buffered ∈ endpoint.callbacks then next.data.bytes.length ≤ recv.buffSize
            else endpoint.recvBuf = []))
  | .callbackReturns throws => inferInstanceAs (Decidable
      (throws = true → endpoint.callbacks.head? ≠ some .buffered))

section Accounts

variable {messages : List Message} {frames : List (List UInt8)} {direction last : Direction}
  {before after : Endpoint}

/-- What is still to come is what the peer sent for the messages that are not decrypted. -/
structure Supplied (gcm : KeyType → AesGcmOneGo) (hkdf : Hkdf) (messages : List Message)
    (frames : List (List UInt8)) (last : Direction) (endpoint : Endpoint) : Prop where
  decrypted : endpoint.decrypted =
    (messages.take endpoint.decrypted.length).map fun message => message.data.bytes
  underway : endpoint.held ++ endpoint.wire = (frames.drop endpoint.decrypted.length).flatten
  sealed : sendAll gcm hkdf (messages.drop endpoint.decrypted.length) endpoint.peer =
    .ok (frames.drop endpoint.decrypted.length) last
  waiting : ∀ recv ∈ endpoint.pending, Waiting recv.handler

/-- What was decrypted is handed out or kept. -/
structure Balanced (endpoint : Endpoint) : Prop where
  within : ∀ delivery ∈ endpoint.handedOut, delivery.bytes.length ≤ delivery.requested
  once : (endpoint.handedOut.map HandedOut.bytes).flatten ++ endpoint.kept = endpoint.decrypted.flatten

/-- The left-over bytes are with one callback at most, and are there as long as it runs. -/
structure Nested (endpoint : Endpoint) : Prop where
  single : endpoint.callbacks.count .buffered ≤ 1
  nonempty : .buffered ∈ endpoint.callbacks → endpoint.recvBuf ≠ []

/-- The endpoint after the next message was decrypted. -/
def decryptedNext (hkdf : Hkdf) (message : Message) (endpoint : Endpoint) : Endpoint :=
  { endpoint with
    peer := endpoint.peer.checkKeysLifetime hkdf
    decrypted := endpoint.decrypted ++ [message.data.bytes] }

/-- Where bytes are still to come there is a next message. -/
theorem Supplied.next (lawful : ∀ key, (gcm key).Lawful)
    (supplied : Supplied gcm hkdf messages frames last before)
    (more : before.held ++ before.wire ≠ []) :
    ∃ message package rest, messages[before.decrypted.length]? = some message ∧
      frames.drop before.decrypted.length = sized package :: rest ∧ package.length ≤ maxSize ∧
      decryptMsg gcm hkdf package before.peer =
        .ok message.data.bytes (before.peer.checkKeysLifetime hkdf) ∧
      ∀ received : Endpoint, received.peer = before.peer → received.decrypted = before.decrypted →
        received.held ++ received.wire = rest.flatten → (∀ recv ∈ received.pending, Waiting recv.handler) →
        Supplied gcm hkdf messages frames last (decryptedNext hkdf message received) := by
  have sealed := supplied.sealed
  cases left : messages.drop before.decrypted.length with
  | nil =>
    rw [left] at sealed
    rw [supplied.underway, sendAll_nil sealed] at more
    exact absurd rfl more
  | cons message messages' =>
    rw [left] at sealed
    obtain ⟨package, rest, isFrames, fits, opened, sealedRest⟩ := sendAll_cons lawful sealed
    have isNext : messages[before.decrypted.length]? = some message := by
      have atFront := congrArg List.head? left
      rwa [List.head?_drop] at atFront
    have behind : messages.drop (before.decrypted.length + 1) = messages' := by
      rw [← List.tail_drop, left, List.tail_cons]
    have framesBehind : frames.drop (before.decrypted.length + 1) = rest := by
      rw [← List.tail_drop, isFrames, List.tail_cons]
    refine ⟨message, package, rest, isNext, isFrames, fits, opened, ?_⟩
    intro received samePeer sameDecrypted arrived waiting
    have count : (decryptedNext hkdf message received).decrypted.length = before.decrypted.length + 1 := by
      simp [decryptedNext, sameDecrypted]
    refine ⟨?_, ?_, ?_, waiting⟩
    · rw [count, List.take_add_one, isNext, Option.toList_some, List.map_append, ← supplied.decrypted]
      simp [decryptedNext, sameDecrypted]
    · rw [count, framesBehind]
      exact arrived
    · rw [count, behind, framesBehind]
      simpa [decryptedNext, samePeer] using sealedRest

theorem decryptPeerMsg_ok {package : List UInt8} {message : Message}
    (opened : decryptMsg gcm hkdf package before.peer =
      .ok message.data.bytes (before.peer.checkKeysLifetime hkdf)) :
    decryptPeerMsg gcm hkdf package before = .ok message.data.bytes (decryptedNext hkdf message before) := by
  simp [decryptPeerMsg, opened, decryptedNext]

/-! ## The calls -/

theorem held_of_created (created : ∀ recv ∈ before.pending, recv.handler = .create) : before.held = [] := by
  rw [Endpoint.held, List.flatten_eq_nil_iff]
  intro held member
  obtain ⟨recv, isPending, rfl⟩ := List.mem_map.mp member
  rw [created recv isPending, heldBytes_create]

theorem kept_of_not_mem (notRunning : .buffered ∉ before.callbacks) : before.kept = before.recvBuf :=
  if_neg notRunning

theorem kept_of_mem (running : .buffered ∈ before.callbacks) : before.kept = [] := if_pos running

theorem recvUntilComplete_ok {bytes rest : List UInt8} (isWire : before.wire = bytes ++ rest) :
    recvUntilComplete bytes.length before = .ok bytes { before with wire := rest } := by
  simp [recvUntilComplete, isWire]

theorem sizedRecvBytes_ok {package rest : List UInt8} (fits : package.length ≤ maxSize)
    (isWire : before.wire = sized package ++ rest) :
    sizedRecvBytes before = .ok package { before with wire := rest } := by
  rw [sized, List.append_assoc] at isWire
  have size := recvUntilComplete_ok isWire
  rw [length_toMemory] at size
  have behind := @recvUntilComplete_ok { before with wire := package ++ rest } package rest rfl
  rw [sizedRecvBytes, Exec.bind_apply, size, Outcome.andThen_ok, ofMemory_toMemory, toNat_ofNat_of_le fits,
    Exec.bind_apply, Exec.throwIf_apply, if_neg (Nat.not_lt.mpr fits), Outcome.andThen_ok, behind]

theorem sizedRecvBytes_nil (nothing : before.wire = []) : sizedRecvBytes before = .undefined := by
  simp [sizedRecvBytes, recvUntilComplete, nothing, waits]

theorem copyOut_apply (size : Nat) (endpoint : Endpoint) : copyOut size endpoint = .ok ()
    { endpoint with
      recvBuf := endpoint.recvBuf.drop size
      handedOut := endpoint.handedOut ++ [⟨size, endpoint.recvBuf.take size⟩] } := by
  by_cases enough : endpoint.recvBuf.length ≤ size
  · simp [copyOut, handOut, setRecvBuf, enough, List.take_of_length_le, List.drop_of_length_le]
  · simp [copyOut, handOut, setRecvBuf, enough]

theorem recvRaw_of_ne {size : Nat} (notEmpty : before.recvBuf ≠ []) :
    recvRaw gcm hkdf size before = copyOut size before := by
  simp [recvRaw, notEmpty]

/-- With an empty buffer the next package is awaited. -/
theorem recvRaw_of_empty {size : Nat} (empty : before.recvBuf = []) :
    recvRaw gcm hkdf size before = (sizedRecvBytes >>= fun encBlock =>
      decryptPeerMsg gcm hkdf encBlock >>= fun decMsg => setRecvBuf decMsg >>= fun _ => copyOut size)
      before := by
  rw [recvRaw, Exec.bind_apply, Exec.get_apply, Outcome.andThen_ok, if_pos (by rw [empty]; rfl)]

theorem polled_apply {package : List UInt8} {message : Message} (buffSize : Nat)
    (opened : decryptMsg gcm hkdf package before.peer =
      .ok message.data.bytes (before.peer.checkKeysLifetime hkdf)) :
    polled gcm hkdf buffSize package before = .ok ()
      { decryptedNext hkdf message before with
        recvBuf := if message.data.bytes.length > buffSize then message.data.bytes.drop buffSize
          else before.recvBuf
        callbacks := .polled :: before.callbacks
        handedOut := before.handedOut ++ [⟨buffSize, message.data.bytes.take buffSize⟩] } := by
  rw [polled, Exec.bind_apply, decryptPeerMsg_ok opened, Outcome.andThen_ok, Exec.ite_apply]
  by_cases tooMuch : message.data.bytes.length > buffSize
  · simp [tooMuch, setRecvBuf, call, handOut, decryptedNext]
  · have all : message.data.bytes.take buffSize = message.data.bytes :=
      List.take_of_length_le (Nat.not_lt.mp tooMuch)
    simp [tooMuch, call, handOut, decryptedNext, all]

/-- Another delivery that is not too large. -/
theorem within_append (within : ∀ delivery ∈ before.handedOut, delivery.bytes.length ≤ delivery.requested)
    {requested : Nat} {bytes : List UInt8} (fits : bytes.length ≤ requested) :
    ∀ delivery ∈ before.handedOut ++ [⟨requested, bytes⟩], delivery.bytes.length ≤ delivery.requested := by
  intro delivery member
  cases List.mem_append.mp member with
  | inl earlier => exact within delivery earlier
  | inr isLast =>
    rw [List.mem_singleton.mp isLast]
    exact fits

/-- What is owed to the receiver is what `RecvRaw` and the buffer behind it share. -/
theorem balanced_copyOut {size : Nat} (notRunning : .buffered ∉ before.callbacks)
    (within : ∀ delivery ∈ before.handedOut, delivery.bytes.length ≤ delivery.requested)
    (owed : (before.handedOut.map HandedOut.bytes).flatten ++ before.recvBuf = before.decrypted.flatten) :
    Balanced { before with
      recvBuf := before.recvBuf.drop size
      handedOut := before.handedOut ++ [⟨size, before.recvBuf.take size⟩] } where
  within := within_append within (List.length_take_le _ _)
  once := by simp [Endpoint.kept, notRunning, ← owed]

structure Accounted (gcm : KeyType → AesGcmOneGo) (hkdf : Hkdf) (messages : List Message)
    (frames : List (List UInt8)) (last : Direction) (endpoint : Endpoint) : Prop where
  supplied : Supplied gcm hkdf messages frames last endpoint
  balanced : Balanced endpoint
  nested : Nested endpoint

theorem recvRaw_accounted (lawful : ∀ key, (gcm key).Lawful) {size : Nat}
    (accounted : Accounted gcm hkdf messages frames last before)
    (proper : Proper messages before (.recvRaw size))
    (stepped : Exec.endState (recvRaw gcm hkdf size) before = some after) :
    Accounted gcm hkdf messages frames last after := by
  obtain ⟨supplied, balanced, nested⟩ := accounted
  by_cases empty : before.recvBuf = []
  · -- the next message is polled, and no receive has a part of it
    have notRunning : .buffered ∉ before.callbacks := fun running => nested.nonempty running empty
    have created : ∀ recv ∈ before.pending, recv.handler = .create := by
      simpa only [Proper, if_pos empty] using proper
    have noPart := held_of_created created
    have owed := balanced.once
    rw [kept_of_not_mem notRunning, empty, List.append_nil] at owed
    by_cases more : before.wire = []
    · simp [recvRaw_of_empty empty, Exec.endState, sizedRecvBytes_nil more] at stepped
    · obtain ⟨message, package, rest, isNext, isFrames, fits, opened, supplies⟩ :=
        supplied.next lawful (by simp [noPart, more])
      have isWire : before.wire = sized package ++ rest.flatten := by
        have underway := supplied.underway
        rwa [noPart, isFrames, List.nil_append, List.flatten_cons] at underway
      have opens := @decryptPeerMsg_ok gcm hkdf { before with wire := rest.flatten } package message opened
      have returned : recvRaw gcm hkdf size before = copyOut size
          { decryptedNext hkdf message { before with wire := rest.flatten } with
            recvBuf := message.data.bytes } := by
        simp [recvRaw_of_empty empty, sizedRecvBytes_ok fits isWire, opens, setRecvBuf]
      rw [Exec.endState, returned, copyOut_apply] at stepped
      cases stepped
      have supplied' := supplies { before with wire := rest.flatten } rfl rfl
        (by change before.held ++ rest.flatten = _; rw [noPart, List.nil_append]) supplied.waiting
      refine ⟨⟨supplied'.decrypted, supplied'.underway, supplied'.sealed, supplied'.waiting⟩,
        balanced_copyOut notRunning balanced.within ?_, nested.single, fun running => ?_⟩
      · simp [decryptedNext, owed]
      · exact absurd running notRunning
  · -- bytes are left over: they are copied out, and the wire is not read
    have allowed : .buffered ∉ before.callbacks ∨ size = 0 := by
      simpa only [Proper, if_neg empty] using proper
    rw [Exec.endState, recvRaw_of_ne empty, copyOut_apply] at stepped
    cases stepped
    refine ⟨⟨supplied.decrypted, supplied.underway, supplied.sealed, supplied.waiting⟩, ?_,
      nested.single, fun running => ?_⟩
    · by_cases running : .buffered ∈ before.callbacks
      · -- nothing was asked for
        have nothing := allowed.resolve_left (not_not.mpr running)
        subst nothing
        refine ⟨within_append balanced.within (by simp), ?_⟩
        have owed := balanced.once
        simpa [Endpoint.kept, running] using owed
      · have owed := balanced.once
        rw [kept_of_not_mem running] at owed
        exact balanced_copyOut running balanced.within owed
    · have nothing := allowed.resolve_left (not_not.mpr running)
      subst nothing
      simpa using empty

theorem asyncRecvRaw_accounted {buffSize : Nat}
    (accounted : Accounted gcm hkdf messages frames last before)
    (proper : Proper messages before (.asyncRecvRaw buffSize))
    (stepped : Exec.endState (asyncRecvRaw buffSize) before = some after) :
    Accounted gcm hkdf messages frames last after := by
  obtain ⟨supplied, balanced, nested⟩ := accounted
  by_cases empty : before.recvBuf = []
  · have returned : asyncRecvRaw buffSize before = .ok ()
        { before with pending := before.pending ++ [{ handler := .create, buffSize }] } := by
      simp [asyncRecvRaw, empty]
    rw [Exec.endState, returned] at stepped
    cases stepped
    refine ⟨⟨supplied.decrypted, ?_, supplied.sealed, fun recv member => ?_⟩,
      ⟨balanced.within, balanced.once⟩, nested.single, nested.nonempty⟩
    · rw [← supplied.underway]
      simp [Endpoint.held, heldBytes_create]
    · cases List.mem_append.mp member with
      | inl earlier => exact supplied.waiting recv earlier
      | inr isLast =>
        rw [List.mem_singleton.mp isLast]
        exact create_waiting
  · obtain ⟨fits, notRunning⟩ := proper empty
    have returned : asyncRecvRaw buffSize before = .ok ()
        { before with
          handedOut := before.handedOut ++ [⟨buffSize, before.recvBuf⟩]
          callbacks := .buffered :: before.callbacks } := by
      simp [asyncRecvRaw, List.length_pos_iff.mpr empty, call, handOut]
    rw [Exec.endState, returned] at stepped
    cases stepped
    refine ⟨⟨supplied.decrypted, supplied.underway, supplied.sealed, supplied.waiting⟩,
      ⟨within_append balanced.within fits, ?_⟩, ?_, fun _ => empty⟩
    · have owed := balanced.once
      rw [kept_of_not_mem notRunning] at owed
      simp [Endpoint.kept, ← owed]
    · rw [List.count_cons_self, List.count_eq_zero_of_not_mem notRunning]

theorem callbackReturns_accounted {throws : Bool}
    (accounted : Accounted gcm hkdf messages frames last before)
    (proper : Proper messages before (.callbackReturns throws))
    (stepped : callbackReturns throws before = some after) :
    Accounted gcm hkdf messages frames last after := by
  obtain ⟨supplied, balanced, nested⟩ := accounted
  unfold callbackReturns at stepped
  split at stepped
  next => cases stepped
  next callback callbacks isTop =>
    cases stepped
    have single := nested.single
    rw [isTop] at single
    cases callback with
    | buffered =>
      have returned : throws = false := by
        cases throws with
        | false => rfl
        | true => exact absurd (by rw [isTop]; rfl) (proper rfl)
      subst returned
      -- the bytes were with this callback, so no other one has them
      have noOther : .buffered ∉ callbacks := by
        rw [List.count_cons_self] at single
        exact List.count_eq_zero.mp (by omega)
      refine ⟨⟨supplied.decrypted, supplied.underway, supplied.sealed, supplied.waiting⟩,
        ⟨balanced.within, ?_⟩, ?_, fun running => absurd running noOther⟩
      · have owed := balanced.once
        rw [kept_of_mem (by simp [isTop])] at owed
        simpa [Endpoint.kept, afterCallback, noOther] using owed
      · exact (List.count_eq_zero_of_not_mem noOther).le.trans (Nat.zero_le 1)
    | polled =>
      change Accounted gcm hkdf messages frames last { before with callbacks }
      have running : .buffered ∈ callbacks ↔ .buffered ∈ before.callbacks := by simp [isTop]
      refine ⟨⟨supplied.decrypted, supplied.underway, supplied.sealed, supplied.waiting⟩,
        ⟨balanced.within, ?_⟩, by simpa using single, fun inside => nested.nonempty (running.mp inside)⟩
      have owed := balanced.once
      simpa [Endpoint.kept, running] using owed

/-! ## Deliveries -/

/-- Where only one place of a list shows something, it is all that the list shows. -/
theorem flatten_map_of_erased {α β : Type} {shows : α → List β} {list : List α} {index : Nat} {shown : α}
    (isAt : list[index]? = some shown) (silent : ∀ other ∈ list.eraseIdx index, shows other = []) :
    (list.map shows).flatten = shows shown := by
  induction list generalizing index with
  | nil => simp at isAt
  | cons first list inductionHypothesis =>
    cases index with
    | zero =>
      cases isAt
      have rest : (list.map shows).flatten = [] := by
        rw [List.flatten_eq_nil_iff]
        intro piece member
        obtain ⟨other, isOther, rfl⟩ := List.mem_map.mp member
        exact silent other isOther
      rw [List.map_cons, List.flatten_cons, rest, List.append_nil]
    | succ index =>
      rw [List.eraseIdx_cons_succ] at silent
      rw [List.map_cons, List.flatten_cons, silent first List.mem_cons_self, List.nil_append]
      exact inductionHypothesis isAt fun other member => silent other (List.mem_cons_of_mem _ member)

section Delivery

variable {index : Nat} {recv : AsyncRecv}

theorem held_of_erased (isPending : before.pending[index]? = some recv)
    (created : ∀ other ∈ before.pending.eraseIdx index, other.handler = .create) :
    before.held = heldBytes recv.handler :=
  flatten_map_of_erased isPending fun other member => by rw [created other member, heldBytes_create]

theorem held_set (isPending : before.pending[index]? = some recv)
    (created : ∀ other ∈ before.pending.eraseIdx index, other.handler = .create) (recv' : AsyncRecv)
    (wire : List UInt8) :
    { before with wire, pending := before.pending.set index recv' }.held = heldBytes recv'.handler := by
  obtain ⟨inside, -⟩ := List.getElem?_eq_some_iff.mp isPending
  refine held_of_erased (List.getElem?_set_self inside) ?_
  simpa [List.eraseIdx_set_eq] using created

theorem waiting_erased (waiting : ∀ other ∈ before.pending, Waiting other.handler) :
    ∀ other ∈ before.pending.eraseIdx index, Waiting other.handler :=
  fun other member => waiting other (List.mem_of_mem_eraseIdx member)

theorem waiting_set {recv' : AsyncRecv} (waiting : ∀ other ∈ before.pending, Waiting other.handler)
    (waits : Waiting recv'.handler) : ∀ other ∈ before.pending.set index recv', Waiting other.handler := by
  intro other member
  cases List.mem_or_eq_of_mem_set member with
  | inl earlier => exact waiting other earlier
  | inr new =>
    rw [new]
    exact waits

/-- The callback gets the front of the message, and the rest is kept. -/
theorem balanced_polled {message : Message} {buffSize : Nat} (balanced : Balanced before)
    (nested : Nested before)
    (proper : message.data.bytes ≠ [] →
      if .buffered ∈ before.callbacks then message.data.bytes.length ≤ buffSize else before.recvBuf = []) :
    Balanced { decryptedNext hkdf message before with
        recvBuf := if message.data.bytes.length > buffSize then message.data.bytes.drop buffSize
          else before.recvBuf
        callbacks := .polled :: before.callbacks
        handedOut := before.handedOut ++ [⟨buffSize, message.data.bytes.take buffSize⟩] } ∧
      Nested { decryptedNext hkdf message before with
        recvBuf := if message.data.bytes.length > buffSize then message.data.bytes.drop buffSize
          else before.recvBuf
        callbacks := .polled :: before.callbacks
        handedOut := before.handedOut ++ [⟨buffSize, message.data.bytes.take buffSize⟩] } := by
  have owed := balanced.once
  have single : (RunningCallback.polled :: before.callbacks).count .buffered ≤ 1 := by
    simpa using nested.single
  by_cases empty : message.data.bytes = []
  · refine ⟨⟨within_append balanced.within (List.length_take_le _ _), ?_⟩, single, fun running => ?_⟩
    · rw [Endpoint.kept] at owed
      simp [Endpoint.kept, decryptedNext, empty, ← owed]
    · simpa [empty] using nested.nonempty (by simpa using running)
  · have allowed := proper empty
    by_cases running : .buffered ∈ before.callbacks
    · rw [if_pos running] at allowed
      rw [kept_of_mem running, List.append_nil] at owed
      refine ⟨⟨within_append balanced.within (List.length_take_le _ _), ?_⟩, single, fun _ => ?_⟩
      · simp [Endpoint.kept, running, decryptedNext, owed, List.take_of_length_le allowed]
      · simpa [Nat.not_lt.mpr allowed] using nested.nonempty running
    · rw [if_neg running] at allowed
      rw [kept_of_not_mem running, allowed, List.append_nil] at owed
      have rest : (if message.data.bytes.length > buffSize then message.data.bytes.drop buffSize
          else before.recvBuf) = message.data.bytes.drop buffSize := by
        split
        next => rfl
        next all => rw [allowed, List.drop_of_length_le (Nat.not_lt.mp all)]
      refine ⟨⟨within_append balanced.within (List.length_take_le _ _), ?_⟩, single, fun inside => ?_⟩
      · simp [Endpoint.kept, running, decryptedNext, owed, rest]
      · exact absurd (by simpa using inside) running

theorem deliver_accounted (lawful : ∀ key, (gcm key).Lawful) {count : Nat}
    (accounted : Accounted gcm hkdf messages frames last before)
    (proper : Proper messages before (.deliver index count))
    (stepped : deliver gcm hkdf index count before = some after) :
    Accounted gcm hkdf messages frames last after := by
  obtain ⟨supplied, balanced, nested⟩ := accounted
  obtain ⟨created, onLast⟩ := proper
  unfold deliver at stepped
  split at stepped
  next => cases stepped
  next recv isPending =>
    split at stepped
    next able =>
      obtain ⟨within, -, enough⟩ := able
      have isCount : (before.wire.take count).length = count := List.length_take_of_le enough
      have waiting := supplied.waiting recv (List.mem_of_getElem? isPending)
      have handled := dispatchCallback_handled waiting (isCount.le.trans within)
      have noOther : ∀ wire, { before with wire, pending := before.pending.eraseIdx index }.held = [] :=
        fun _ => held_of_created created
      have underway := supplied.underway
      rw [held_of_erased isPending created, ← List.take_append_drop count before.wire,
        ← List.append_assoc] at underway
      rw [completes] at stepped
      generalize AsyncRecvHandler.dispatchCallback allocates _ recv.handler = outcome at handled stepped
      -- a field in front of what is underway is the size of the next package
      have framed : ∀ field behind, field.length = 8 →
          heldBytes recv.handler ++ before.wire.take count = field ++ behind →
          ∃ message package rest, messages[before.decrypted.length]? = some message ∧
            package.length ≤ maxSize ∧ (ofMemory field).toNat = package.length ∧
            behind ++ before.wire.drop count = package ++ List.flatten rest ∧
            decryptMsg gcm hkdf package before.peer =
              .ok message.data.bytes (before.peer.checkKeysLifetime hkdf) ∧
            ∀ received : Endpoint, received.peer = before.peer → received.decrypted = before.decrypted →
              received.held ++ received.wire = rest.flatten →
              (∀ recv ∈ received.pending, Waiting recv.handler) →
              Supplied gcm hkdf messages frames last (decryptedNext hkdf message received) := by
        intro field behind isField isFront
        rw [isFront] at underway
        have more : before.held ++ before.wire ≠ [] := by
          rw [supplied.underway, ← underway]
          intro nothing
          simp only [List.append_eq_nil_iff] at nothing
          rw [nothing.1.1] at isField
          cases isField
        obtain ⟨message, package, rest, isNext, isFrames, fits, opened, supplies⟩ :=
          supplied.next lawful more
        rw [isFrames, List.flatten_cons, List.append_assoc] at underway
        obtain ⟨isSize, isRest⟩ := of_sized fits isField underway
        exact ⟨message, package, rest, isNext, fits, isSize, isRest, opened, supplies⟩
      cases handled with
      | @waits handler waits held =>
        -- the field or the package is not yet complete
        simp only [waits.nothing, Exec.endState, Exec.modify_apply] at stepped
        cases stepped
        refine ⟨⟨supplied.decrypted, ?_, supplied.sealed, waiting_set supplied.waiting waits⟩,
          ⟨balanced.within, balanced.once⟩, nested.single, nested.nonempty⟩
        rw [held_set isPending created, held]
        exact underway
      | @done handler field package received isLast isField isSize held =>
        -- a package is complete: it is the next one, so it opens
        rw [isCount] at isLast
        obtain ⟨message, package', rest, isNext, fits, isSize', isRest, opened, supplies⟩ :=
          framed field package isField held
        obtain ⟨rfl, isWire⟩ := List.append_inj isRest (isSize.trans isSize')
        have polls := @polled_apply gcm hkdf
          { before with wire := before.wire.drop count, pending := before.pending.eraseIdx index } package
          message recv.buffSize opened
        simp only [received, Exec.endState, Exec.bind_apply, Exec.modify_apply, Outcome.andThen_ok,
          polls] at stepped
        cases stepped
        have supplied' := supplies
          { before with wire := before.wire.drop count, pending := before.pending.eraseIdx index } rfl rfl
          (by rw [noOther, List.nil_append]; exact isWire) (waiting_erased supplied.waiting)
        obtain ⟨balanced', nested'⟩ := @balanced_polled hkdf
          { before with wire := before.wire.drop count, pending := before.pending.eraseIdx index } message
          recv.buffSize ⟨balanced.within, balanced.once⟩ ⟨nested.single, nested.nonempty⟩
          (onLast recv isPending isLast message isNext)
        exact ⟨⟨supplied'.decrypted, supplied'.underway, supplied'.sealed, supplied'.waiting⟩, balanced',
          nested'⟩
      | tooLarge isField size held =>
        -- no frame announces a size that cannot be allocated
        obtain ⟨_, package, _, _, fits, isSize, _⟩ :=
          framed _ [] isField (by rw [held, List.append_nil])
        omega
    next => cases stepped

end Delivery

/-! ## Runs -/

theorem start_accounted (sent : sendAll gcm hkdf messages direction = .ok frames last) :
    Accounted gcm hkdf messages frames last (.start direction frames.flatten) where
  supplied := ⟨rfl, rfl, sent, fun _ member => absurd member List.not_mem_nil⟩
  balanced := ⟨fun _ member => absurd member List.not_mem_nil, rfl⟩
  nested := ⟨Nat.zero_le 1, fun member => absurd member List.not_mem_nil⟩

theorem step_accounted (lawful : ∀ key, (gcm key).Lawful) {action : Action}
    (accounted : Accounted gcm hkdf messages frames last before) (proper : Proper messages before action)
    (stepped : step gcm hkdf before action = some after) :
    Accounted gcm hkdf messages frames last after := by
  cases action with
  | recvRaw size => exact recvRaw_accounted lawful accounted proper stepped
  | asyncRecvRaw buffSize => exact asyncRecvRaw_accounted accounted proper stepped
  | deliver index count => exact deliver_accounted lawful accounted proper stepped
  | callbackReturns throws => exact callbackReturns_accounted accounted proper stepped

theorem Accounted.faithful {endpoint : Endpoint}
    (accounted : Accounted gcm hkdf messages frames last endpoint) : Faithful messages frames endpoint where
  within := accounted.balanced.within
  once := accounted.balanced.once
  decrypted := accounted.supplied.decrypted
  underway := accounted.supplied.underway

end Accounts

/-- For every sequence of messages that the peer sent, and every run of receives of any sizes, of deliveries
    in any pieces and of callbacks that make further calls: as long as all steps are proper, what was handed
    out is what was sent, in order and each byte once, and no delivery exceeds the size asked for. -/
theorem stream_faithful (gcm : KeyType → AesGcmOneGo) (lawful : ∀ key, (gcm key).Lawful) (hkdf : Hkdf)
    (direction last : Direction) (messages : List Message) (frames : List (List UInt8))
    (sent : sendAll gcm hkdf messages direction = .ok frames last) (taken : List (Endpoint × Action))
    (final : Endpoint) (run : StreamRun gcm hkdf (.start direction frames.flatten) taken final)
    (proper : ∀ entry ∈ taken, Proper messages entry.1 entry.2) : Faithful messages frames final := by
  have accounted := Run.invariant (Proper messages)
    (fun _ endpoint => Accounted gcm hkdf messages frames last endpoint) (start_accounted sent)
    (fun _ _ _ _ accounted isProper stepped => step_accounted lawful accounted isProper stepped) run proper
  exact accounted.faithful

/-- Keys that are renewed to themselves. -/
def fixedKeys : Hkdf := fun key _ _ => key

def zeroDirection : Direction := .make (Vector.replicate 16 0) (Vector.replicate 16 0)

def threeByteMessage : Message := ⟨threeBytes, Vector.replicate 12 7⟩

/-- Short reads of one message, and an asynchronous receive of the next one in four pieces. -/
def shortReads : List Action :=
  [.recvRaw 1, .recvRaw 5, .asyncRecvRaw 2, .deliver 0 3, .deliver 0 5, .deliver 0 100, .deliver 0 28,
    .callbackReturns false, .recvRaw 4]

theorem stream_faithful_short_reads :
    ∃ frames last, sendAll (fun _ => transparentGcm) fixedKeys [threeByteMessage, threeByteMessage]
        zeroDirection = .ok frames last ∧
      ∃ taken final, StreamRun (fun _ => transparentGcm) fixedKeys (.start zeroDirection frames.flatten)
          taken final ∧
        final.handedOut = [⟨1, [1]⟩, ⟨5, [2, 3]⟩, ⟨2, [1, 2]⟩, ⟨4, [3]⟩] ∧
        Faithful [threeByteMessage, threeByteMessage] frames final := by
  have played := Outcome.returns_iff.mp (show Outcome.Returns (sendAll (fun _ => transparentGcm) fixedKeys
      [threeByteMessage, threeByteMessage] zeroDirection) (fun frames _ =>
        (Run.replay (step (fun _ => transparentGcm) fixedKeys) shortReads []
          (.start zeroDirection frames.flatten)).any (fun reached => decide
            ((∀ entry ∈ reached.1, Proper [threeByteMessage, threeByteMessage] entry.1 entry.2) ∧
              reached.2.handedOut = [⟨1, [1]⟩, ⟨5, [2, 3]⟩, ⟨2, [1, 2]⟩, ⟨4, [3]⟩])) = true) by decide +kernel)
  obtain ⟨frames, last, sent, reached⟩ := played
  obtain ⟨taken, final, run, proper, handedOut⟩ :=
    Run.exists_of_replay (fun _ _ _ stepped => stepped) shortReads (fun taken final =>
      (∀ entry ∈ taken, Proper [threeByteMessage, threeByteMessage] entry.1 entry.2) ∧
        final.handedOut = [⟨1, [1]⟩, ⟨5, [2, 3]⟩, ⟨2, [1, 2]⟩, ⟨4, [3]⟩]) reached
  exact ⟨frames, last, sent, taken, final, run, handedOut,
    stream_faithful _ (fun _ => transparentGcm_lawful) _ _ _ _ _ sent _ _ run proper⟩

/-- One message of three bytes: an asynchronous receive of one byte behind a short read gets two, and a
    receive inside of its callback gets the same two again. -/
theorem stream_not_faithful :
    ∃ frames last, sendAll (fun _ => transparentGcm) fixedKeys [threeByteMessage] zeroDirection =
        .ok frames last ∧
      (∃ taken final, StreamRun (fun _ => transparentGcm) fixedKeys (.start zeroDirection frames.flatten)
          taken final ∧
        final.handedOut = [⟨1, [1]⟩, ⟨1, [2, 3]⟩] ∧ ¬ Faithful [threeByteMessage] frames final) ∧
      ∃ taken final, StreamRun (fun _ => transparentGcm) fixedKeys (.start zeroDirection frames.flatten)
          taken final ∧
        (final.handedOut = [⟨1, [1]⟩, ⟨2, [2, 3]⟩, ⟨2, [2, 3]⟩] ∧ final.decrypted = [[1, 2, 3]]) ∧
        ¬ Faithful [threeByteMessage] frames final := by
  have played := Outcome.returns_iff.mp (show Outcome.Returns (sendAll (fun _ => transparentGcm) fixedKeys
      [threeByteMessage] zeroDirection) (fun frames _ =>
        (Run.replay (step (fun _ => transparentGcm) fixedKeys) [.recvRaw 1, .asyncRecvRaw 1] []
          (.start zeroDirection frames.flatten)).any (fun reached => decide
            (reached.2.handedOut = [⟨1, [1]⟩, ⟨1, [2, 3]⟩])) = true ∧
        (Run.replay (step (fun _ => transparentGcm) fixedKeys)
          [.recvRaw 1, .asyncRecvRaw 2, .recvRaw 2, .callbackReturns false] []
          (.start zeroDirection frames.flatten)).any (fun reached => decide
            (reached.2.handedOut = [⟨1, [1]⟩, ⟨2, [2, 3]⟩, ⟨2, [2, 3]⟩] ∧
              reached.2.decrypted = [[1, 2, 3]])) = true) by decide +kernel)
  obtain ⟨frames, last, sent, tooMuch, again⟩ := played
  obtain ⟨taken, final, run, handedOut⟩ := Run.exists_of_replay (fun _ _ _ stepped => stepped) _
    (fun _ (final : Endpoint) => final.handedOut = [⟨1, [1]⟩, ⟨1, [2, 3]⟩]) tooMuch
  obtain ⟨taken', final', run', handedOut', decrypted⟩ :=
    Run.exists_of_replay (fun _ _ _ stepped => stepped) _
      (fun _ (final : Endpoint) => final.handedOut = [⟨1, [1]⟩, ⟨2, [2, 3]⟩, ⟨2, [2, 3]⟩] ∧
        final.decrypted = [[1, 2, 3]]) again
  refine ⟨frames, last, sent, ⟨taken, final, run, handedOut, fun faithful => ?_⟩,
    taken', final', run', ⟨handedOut', decrypted⟩, fun faithful => ?_⟩
  · have within := faithful.within
    rw [handedOut] at within
    exact absurd (within ⟨1, [2, 3]⟩ (by simp)) (by decide)
  · have once := congrArg List.length faithful.once
    rw [handedOut', decrypted] at once
    simp at once

end Decentagram.DecentEnclave.ByteStream
