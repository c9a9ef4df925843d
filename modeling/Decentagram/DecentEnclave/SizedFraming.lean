import Decentagram.DecentEnclave.BufferBounds
import Decentagram.DecentEnclave.ByteStream
import Decentagram.Lib.Run

/-! # Messages with their sizes

`SizedSendBytes`, `SizedRecvBytes` and `AsyncSizedRecvBytes` over a stream that carries the bytes in order
and cuts them as it likes.  A step of the receiving end is one raw receive.
-/

namespace Decentagram.DecentEnclave.SizedFraming

open Decentagram.Lib AesGcm StreamSocket
open PackageBytes (Region)
open ByteStream (sized allocates)

/-! ## Sending -/

/-- The loop of `SendRawUntilComplete`, with the number of bytes that each `SendRaw` has sent. -/
def sendRawLoop (data : Bytes) : List Nat → Nat → Option Bytes
  | [], sent => if sent < data.length then none else some []
  | count :: counts, sent =>
    if sent < data.length then
      if count ≤ data.length - sent then
        (sendRawLoop data counts (sent + count)).map ((data.drop sent).take count ++ ·)
      else none
    else some []

/-- What goes out, if the calls of `SendRaw` are enough. -/
def sizedSendBytes (data : Bytes) (sizeCounts dataCounts : List Nat) : Option Bytes :=
  (sendRawLoop (toMemory (UInt64.ofNat data.length)) sizeCounts 0).bind fun field =>
    (sendRawLoop data dataCounts 0).map (field ++ ·)

theorem sendRawLoop_eq {data out : Bytes} {counts : List Nat} {sent : Nat}
    (sends : sendRawLoop data counts sent = some out) : out = data.drop sent := by
  induction counts generalizing sent out with
  | nil =>
    rw [sendRawLoop] at sends
    split at sends
    next => cases sends
    next complete =>
      cases sends
      exact (List.drop_of_length_le (Nat.le_of_not_lt complete)).symm
  | cons count counts inductionHypothesis =>
    rw [sendRawLoop] at sends
    split at sends
    next =>
      split at sends
      next =>
        obtain ⟨rest, sendsRest, rfl⟩ := Option.map_eq_some_iff.mp sends
        rw [inductionHypothesis sendsRest, ← List.drop_drop, List.take_append_drop]
      next => cases sends
    next complete =>
      cases sends
      exact (List.drop_of_length_le (Nat.le_of_not_lt complete)).symm

theorem sizedSendBytes_eq {data out : Bytes} {sizeCounts dataCounts : List Nat}
    (sends : sizedSendBytes data sizeCounts dataCounts = some out) : out = sized data := by
  obtain ⟨field, sendsSize, sendsBoth⟩ := Option.bind_eq_some_iff.mp sends
  obtain ⟨body, sendsData, rfl⟩ := Option.map_eq_some_iff.mp sendsBoth
  rw [sendRawLoop_eq sendsSize, sendRawLoop_eq sendsData]
  rfl

/-! ## The receiving end -/

/-- Which receive of `SizedRecvBytes` a buffer is for. -/
inductive Field where
  | size
  | data
deriving DecidableEq, Repr

inductive Receiving where
  | idle
  /-- `SizedRecvBytes` in the loop of `RecvRawUntilComplete`. -/
  | blocking (field : Field) (buffer : Bytes) (recv : Nat)
  | async (registered : SizedRecv)
deriving DecidableEq, Repr

structure ReceivingEnd where
  /-- What the stream has not handed out of all that the peer sends. -/
  wire : Bytes
  receiving : Receiving
  /-- The raw receives of the call that is waited for. -/
  raw : Nat
  delivered : List Bytes
deriving DecidableEq, Repr

inductive Action where
  | sizedRecvBytes
  | asyncSizedRecvBytes
  /-- A raw receive yields so many bytes. -/
  | yields (count : Nat)
deriving DecidableEq, Repr

namespace Receiving

/-- The size that the raw receive asks for. -/
def requested : Receiving → Nat
  | .idle => 0
  | .blocking _ buffer recv => buffer.length - recv
  | .async (.forSize cached) => 8 - cached.length
  | .async (.forData expSize cached) => expSize - cached.length
  | .async _ => 0

end Receiving

namespace ReceivingEnd

def start (wire : Bytes) : ReceivingEnd where
  wire := wire
  receiving := .idle
  raw := 0
  delivered := []

def deliver (receiver : ReceivingEnd) (message : Bytes) : ReceivingEnd :=
  { receiver with receiving := .idle, delivered := receiver.delivered ++ [message] }

/-- What `SizedRecvBytes` does with a buffer that is full. -/
def complete (receiver : ReceivingEnd) (buffer : Bytes) : Field → ReceivingEnd
  | .size =>
    let sizeToRecv := (ofMemory buffer).toNat
    -- the call throws
    if !allocates sizeToRecv then { receiver with receiving := .idle }
    -- the loop of RecvRawUntilComplete is not entered for no bytes
    else if sizeToRecv = 0 then receiver.deliver []
    else { receiver with receiving := .blocking .data (List.replicate sizeToRecv 0) 0 }
  | .data => receiver.deliver buffer

/-- A raw receive of the one call that waits. -/
def receive (receiver : ReceivingEnd) (data : Bytes) : Option ReceivingEnd :=
  match receiver.receiving with
  | .idle => none
  | .blocking field buffer recv =>
    match StreamSocket.recvRaw (.returns data) recv (buffer.length - recv) buffer with
    | .ok received buffer =>
      if recv + received < buffer.length then
        some { receiver with receiving := .blocking field buffer (recv + received) }
      else some (receiver.complete buffer field)
    | _ => none
  | .async registered =>
    match Exec.endState (SizedRecv.dispatchCallback allocates ⟨data, false⟩) registered with
    | some (.finished (some message)) => some (receiver.deliver message)
    | some registered => some { receiver with receiving := .async registered }
    | none => none

/-- A raw receive of some bytes yields at least one and at most all of them, and one of no bytes none. -/
def Yields (receiver : ReceivingEnd) (count : Nat) : Prop :=
  count ≤ receiver.receiving.requested ∧ (0 < receiver.receiving.requested → 0 < count) ∧
    count ≤ receiver.wire.length

instance (receiver : ReceivingEnd) (count : Nat) : Decidable (receiver.Yields count) :=
  inferInstanceAs (Decidable (_ ∧ _ ∧ _))

def step (receiver : ReceivingEnd) : Action → Option ReceivingEnd
  | .sizedRecvBytes =>
    if receiver.receiving = .idle then
      some { receiver with receiving := .blocking .size (List.replicate 8 0) 0, raw := 0 }
    else none
  | .asyncSizedRecvBytes =>
    if receiver.receiving = .idle then
      some { receiver with receiving := .async (.forSize []), raw := 0 }
    else none
  | .yields count =>
    if receiver.Yields count then
      { receiver with wire := receiver.wire.drop count, raw := receiver.raw + 1 }.receive
        (receiver.wire.take count)
    else none

abbrev FramingRun := Run fun before action after => step before action = some after

end ReceivingEnd

/-! ## The position in the stream -/

def framesOf (messages : List Region) : Bytes := messages.flatMap fun message => sized message.bytes

theorem framesOf_cons (message : Region) (messages : List Region) :
    framesOf (message :: messages) =
      toMemory (UInt64.ofNat message.bytes.length) ++ (message.bytes ++ framesOf messages) := by
  rw [framesOf, List.flatMap_cons, sized, List.append_assoc]
  rfl

theorem ofMemory_size (message : Region) :
    (ofMemory (toMemory (UInt64.ofNat message.bytes.length))).toNat = message.bytes.length := by
  have fits := message.fits
  rw [ofMemory_toMemory, UInt64.toNat_ofNat_of_lt' (by change _ < 2 ^ 64; omega)]

theorem allocates_message (message : Region) : allocates message.bytes.length = true := by
  have fits := message.fits
  have inside : message.bytes.length ≤ PackageBytes.maxSize := by
    change _ ≤ 2 ^ 63 - 1
    omega
  exact decide_eq_true inside

/-- The receive that waits stands inside of the first of the messages that are left, and what it has got
    and what is on the wire are these messages.  It has got a byte from each of its raw receives. -/
def Positioned (messages : List Region) (wire : Bytes) (raw : Nat) : Receiving → Prop
  | .idle => wire = framesOf messages
  | .blocking .size buffer recv =>
    buffer.length = 8 ∧ recv < 8 ∧ raw ≤ recv ∧ buffer.take recv ++ wire = framesOf messages
  | .blocking .data buffer recv => ∃ message rest, messages = message :: rest ∧
    buffer.length = message.bytes.length ∧ recv < message.bytes.length ∧ raw ≤ 8 + recv ∧
      buffer.take recv ++ wire = message.bytes ++ framesOf rest
  | .async (.forSize cached) => cached.length < 8 ∧ raw ≤ cached.length ∧
    cached ++ wire = framesOf messages
  | .async (.forData expSize cached) => ∃ message rest, messages = message :: rest ∧
    expSize = message.bytes.length ∧ (cached.length < expSize ∨ cached = [] ∧ expSize = 0) ∧
      raw ≤ 8 + cached.length ∧ cached ++ wire = message.bytes ++ framesOf rest
  | .async _ => False

/-- Eight bytes of the frames are the size field of the first one. -/
theorem framesOf_field {messages : List Region} {field wire : Bytes} (isField : field.length = 8)
    (left : field ++ wire = framesOf messages) : ∃ message rest, messages = message :: rest ∧
      (ofMemory field).toNat = message.bytes.length ∧ wire = message.bytes ++ framesOf rest := by
  cases messages with
  | nil =>
    have empty := congrArg List.length left
    simp [framesOf, isField] at empty
  | cons message rest =>
    rw [framesOf_cons] at left
    obtain ⟨rfl, rfl⟩ := List.append_inj left (by rw [isField, length_toMemory])
    exact ⟨message, rest, rfl, ofMemory_size message, rfl⟩

/-- Where the receiving end stands among the messages that were sent. -/
structure Synchronised (messages : List Region) (receiver : ReceivingEnd) (left : List Region) : Prop where
  delivered : messages.map Region.bytes = receiver.delivered ++ left.map Region.bytes
  positioned : Positioned left receiver.wire receiver.raw receiver.receiving

/-! ## One raw receive -/

theorem allocates_of_le {size bound : Nat} (fits : allocates bound = true) (within : size ≤ bound) :
    allocates size = true :=
  decide_eq_true (within.trans (of_decide_eq_true fits))

theorem allocates_eight : allocates 8 = true := by decide +kernel

theorem recvRaw_ok {buffer data : Bytes} {recv : Nat} (size : Nat)
    (fits : recv + data.length ≤ buffer.length) :
    ∃ buffer', StreamSocket.recvRaw (.returns data) recv size buffer = .ok data.length buffer' ∧
      buffer'.length = buffer.length ∧ buffer'.take (recv + data.length) = buffer.take recv ++ data := by
  have copied := memcpy_of_le fits
  exact ⟨_, by simp [StreamSocket.recvRaw, copyTo, copied], length_memcpy copied, take_memcpy copied⟩

section Dispatch

open SizedRecv

variable {cached data : Bytes}

theorem dispatchCallback_forSize : SizedRecv.dispatchCallback allocates ⟨data, false⟩ (.forSize cached) =
    untilComplete allocates 8 (cached ++ data) .forSize sizeCallback .idle := rfl

theorem dispatchCallback_forData (expSize : Nat) :
    SizedRecv.dispatchCallback allocates ⟨data, false⟩ (.forData expSize cached) =
      untilComplete allocates expSize (cached ++ data) (.forData expSize) (dataCallback allocates) .idle :=
  rfl

theorem dispatch_forSize (more : (cached ++ data).length < 8) :
    Exec.endState (SizedRecv.dispatchCallback allocates ⟨data, false⟩) (.forSize cached) =
      some (.forSize (cached ++ data)) := by
  have allocated := allocates_of_le allocates_eight more.le
  rw [Exec.endState, dispatchCallback_forSize]
  generalize cached ++ data = buf at *
  simp [untilComplete, become, allocated, more]

theorem dispatch_forSize_complete (complete : (cached ++ data).length = 8) :
    Exec.endState (SizedRecv.dispatchCallback allocates ⟨data, false⟩) (.forSize cached) =
      some (.forData (ofMemory (cached ++ data)).toNat []) := by
  rw [Exec.endState, dispatchCallback_forSize]
  generalize cached ++ data = buf at *
  have copied : memcpy (List.replicate 8 0) 0 buf = some buf := by
    rw [memcpy_of_le (by simp [complete])]
    simp [complete]
  have whole : buf.take 8 = buf := List.take_of_length_le complete.le
  simp [untilComplete, sizeCallback, become, allocates_eight, complete, whole, copied, -List.reduceReplicate]

theorem dispatch_forData {expSize : Nat} (fits : allocates expSize = true)
    (more : (cached ++ data).length < expSize) :
    Exec.endState (SizedRecv.dispatchCallback allocates ⟨data, false⟩) (.forData expSize cached) =
      some (.forData expSize (cached ++ data)) := by
  have allocated := allocates_of_le fits more.le
  rw [Exec.endState, dispatchCallback_forData]
  generalize cached ++ data = buf at *
  simp [untilComplete, become, allocated, more]

theorem dispatch_forData_complete {expSize : Nat} (fits : allocates expSize = true)
    (complete : (cached ++ data).length = expSize) :
    Exec.endState (SizedRecv.dispatchCallback allocates ⟨data, false⟩) (.forData expSize cached) =
      some (.finished (some (cached ++ data))) := by
  rw [Exec.endState, dispatchCallback_forData]
  generalize cached ++ data = buf at *
  subst complete
  have copied : memcpy (List.replicate buf.length 0) 0 buf = some buf := by
    rw [memcpy_of_le (by simp)]
    simp
  simp [untilComplete, become, dataCallback, fits, copied]

end Dispatch

/-- What the raw receive takes from the wire comes behind what was taken before. -/
theorem taken_append {front wire all : Bytes} (isAll : front ++ wire = all) (count : Nat) :
    (front ++ wire.take count) ++ wire.drop count = all := by
  rw [List.append_assoc, List.take_append_drop, isAll]

/-- All bytes of the first message are there. -/
theorem message_of_append {message : Region} {rest : List Region} {got wire : Bytes}
    (complete : got.length = message.bytes.length)
    (isAll : got ++ wire = message.bytes ++ framesOf rest) : got = message.bytes ∧ wire = framesOf rest :=
  List.append_inj isAll complete

variable {messages left : List Region} {before after : ReceivingEnd}

theorem Synchronised.deliver (synchronised : Synchronised messages before left) {message : Region}
    {rest : List Region} (isLeft : left = message :: rest) (receiver : ReceivingEnd)
    (delivered : receiver.delivered = before.delivered) (wire : receiver.wire = framesOf rest) :
    Synchronised messages (receiver.deliver message.bytes) rest where
  delivered := by
    rw [synchronised.delivered, isLeft]
    simp [ReceivingEnd.deliver, delivered]
  positioned := wire

/-- A call goes on waiting, or it has delivered a message. -/
def Advances (before after : ReceivingEnd) : Prop :=
  after.receiving ≠ .idle ∧ after.delivered = before.delivered ∨
    after.receiving = .idle ∧ ∃ message, after.delivered = before.delivered ++ [message]

/-- A raw receive of the blocking call. -/
theorem Synchronised.blocking (synchronised : Synchronised messages before left) {field : Field}
    {buffer : Bytes} {recv : Nat} (receiving : before.receiving = .blocking field buffer recv) {count : Nat}
    (yields : before.Yields count) :
    ∃ after left', { before with wire := before.wire.drop count, raw := before.raw + 1 }.receive
      (before.wire.take count) = some after ∧ Synchronised messages after left' ∧
        Advances before after := by
  obtain ⟨within, atLeastOne, onWire⟩ := yields
  have positioned := synchronised.positioned
  rw [receiving] at positioned within atLeastOne
  dsimp only [Receiving.requested] at within atLeastOne
  have isCount : (before.wire.take count).length = count := List.length_take_of_le onWire
  cases field with
  | size =>
    obtain ⟨isSize, inside, rawBound, isLeft⟩ := positioned
    -- a blocking read returns at least one byte
    have some_byte : 0 < count := atLeastOne (by omega)
    obtain ⟨buffer', received, sameLength, got⟩ :=
      @recvRaw_ok buffer (before.wire.take count) recv (buffer.length - recv) (by omega)
    rw [isCount] at received got
    have next := taken_append isLeft count
    rw [← got] at next
    simp only [ReceivingEnd.receive, receiving, received]
    by_cases more : recv + count < buffer'.length
    · rw [if_pos more]
      exact ⟨_, left, rfl, ⟨synchronised.delivered, by omega, by omega, by simp only; omega, next⟩,
        .inl ⟨by simp, rfl⟩⟩
    · rw [if_neg more]
      -- the field is complete: the bytes in hand are the size of the next message
      have whole : buffer'.take (recv + count) = buffer' := List.take_of_length_le (by omega)
      rw [whole] at next
      obtain ⟨message, rest, rfl, isLength, isWire⟩ := framesOf_field (by omega) next
      simp only [ReceivingEnd.complete, isLength, allocates_message, Bool.not_true, Bool.false_eq_true,
        if_false]
      -- an empty message is complete with its field
      by_cases empty : message.bytes.length = 0
      · rw [if_pos empty]
        rw [List.eq_nil_of_length_eq_zero empty] at isWire
        have delivers := @synchronised.deliver _ _ _ message rest rfl
          { before with wire := before.wire.drop count, raw := before.raw + 1 } rfl isWire
        rw [List.eq_nil_of_length_eq_zero empty] at delivers
        exact ⟨_, rest, rfl, delivers, .inr ⟨rfl, _, rfl⟩⟩
      · rw [if_neg empty]
        refine ⟨_, _, rfl, ⟨synchronised.delivered, message, rest, rfl, ?_⟩, .inl ⟨by simp, rfl⟩⟩
        exact ⟨List.length_replicate, by omega, by simp only; omega, by simpa using isWire⟩
  | data =>
    obtain ⟨message, rest, rfl, isSize, inside, rawBound, isLeft⟩ := positioned
    have some_byte : 0 < count := atLeastOne (by omega)
    obtain ⟨buffer', received, sameLength, got⟩ :=
      @recvRaw_ok buffer (before.wire.take count) recv (buffer.length - recv) (by omega)
    rw [isCount] at received got
    have next := taken_append isLeft count
    rw [← got] at next
    simp only [ReceivingEnd.receive, receiving, received]
    by_cases more : recv + count < buffer'.length
    · rw [if_pos more]
      exact ⟨_, _, rfl, ⟨synchronised.delivered, message, rest, rfl, by omega, by omega,
        by simp only; omega, next⟩, .inl ⟨by simp, rfl⟩⟩
    · rw [if_neg more]
      have whole : buffer'.take (recv + count) = buffer' := List.take_of_length_le (by omega)
      rw [whole] at next
      obtain ⟨rfl, isWire⟩ := message_of_append (by omega) next
      exact ⟨_, rest, rfl, synchronised.deliver rfl _ rfl isWire, .inr ⟨rfl, _, rfl⟩⟩

/-- The completion of a raw receive that was registered. -/
theorem Synchronised.async (synchronised : Synchronised messages before left) {registered : SizedRecv}
    (receiving : before.receiving = .async registered) {count : Nat} (yields : before.Yields count) :
    ∃ after left', { before with wire := before.wire.drop count, raw := before.raw + 1 }.receive
      (before.wire.take count) = some after ∧ Synchronised messages after left' ∧
        Advances before after := by
  obtain ⟨within, atLeastOne, onWire⟩ := yields
  have positioned := synchronised.positioned
  rw [receiving] at positioned within atLeastOne
  have isCount : (before.wire.take count).length = count := List.length_take_of_le onWire
  simp only [ReceivingEnd.receive, receiving]
  cases registered with
  | forSize cached =>
    -- the field is cached until its eight bytes are there
    dsimp only [Receiving.requested] at within atLeastOne
    obtain ⟨inside, rawBound, isLeft⟩ := positioned
    have some_byte : 0 < count := atLeastOne (by omega)
    have next := taken_append isLeft count
    have length : (cached ++ before.wire.take count).length = cached.length + count := by
      rw [List.length_append, isCount]
    by_cases more : cached.length + count < 8
    · rw [dispatch_forSize (by omega)]
      exact ⟨_, left, rfl, ⟨synchronised.delivered, by omega, by simp only; omega, next⟩,
        .inl ⟨by simp, rfl⟩⟩
    · rw [dispatch_forSize_complete (by omega)]
      obtain ⟨message, rest, rfl, isLength, isWire⟩ := framesOf_field (by omega) next
      refine ⟨_, _, rfl, ⟨synchronised.delivered, message, rest, rfl, isLength, ?_, by simp only; omega,
        isWire⟩, .inl ⟨by simp, rfl⟩⟩
      -- an empty message is waited for as well, with nothing cached
      have either := Nat.eq_zero_or_pos (ofMemory (cached ++ before.wire.take count)).toNat
      exact either.symm.imp id fun empty => ⟨rfl, empty⟩
  | forData expSize cached =>
    dsimp only [Receiving.requested] at within atLeastOne
    obtain ⟨message, rest, rfl, isSize, inside, rawBound, isLeft⟩ := positioned
    have next := taken_append isLeft count
    have fits : allocates expSize = true := isSize ▸ allocates_message message
    have length : (cached ++ before.wire.take count).length = cached.length + count := by
      rw [List.length_append, isCount]
    have cachedWithin : cached.length ≤ expSize := by
      rcases inside with more | ⟨rfl, rfl⟩
      · exact more.le
      · exact Nat.le_refl 0
    by_cases more : cached.length + count < expSize
    · rw [dispatch_forData fits (by omega)]
      exact ⟨_, _, rfl, ⟨synchronised.delivered, message, rest, rfl, isSize, .inl (by omega),
        by simp only; omega, next⟩, .inl ⟨by simp, rfl⟩⟩
    · rw [dispatch_forData_complete fits (by omega)]
      obtain ⟨isMessage, isWire⟩ := message_of_append (by omega) next
      rw [isMessage]
      exact ⟨_, rest, rfl, synchronised.deliver rfl _ rfl isWire, .inr ⟨rfl, _, rfl⟩⟩
  | idle => exact positioned.elim
  | finished result => exact positioned.elim

/-- A raw receive that the stream answers is handled. -/
theorem Synchronised.receive (synchronised : Synchronised messages before left) {count : Nat}
    (yields : before.Yields count) (waits : before.receiving ≠ .idle) :
    ∃ after left', before.step (.yields count) = some after ∧ Synchronised messages after left' ∧
      Advances before after := by
  rw [ReceivingEnd.step, if_pos yields]
  cases receiving : before.receiving with
  | idle => exact absurd receiving waits
  | blocking field buffer recv => simpa only [receiving] using synchronised.blocking receiving yields
  | async registered => simpa only [receiving] using synchronised.async receiving yields

/-- The calls that were made. -/
def issued (taken : List (ReceivingEnd × Action)) : Nat :=
  taken.countP fun entry => entry.2 = .sizedRecvBytes ∨ entry.2 = .asyncSizedRecvBytes

/-- The receives that have not delivered. -/
def waiting (receiver : ReceivingEnd) : Nat := if receiver.receiving = .idle then 0 else 1

/-- After some steps the receiving end stands where the frames that are left begin, or inside of one. -/
structure InStep (messages : List Region) (taken : List (ReceivingEnd × Action)) (receiver : ReceivingEnd) :
    Prop where
  synchronised : ∃ left, Synchronised messages receiver left
  issued : issued taken = receiver.delivered.length + waiting receiver

theorem inStep_start (messages : List Region) : InStep messages [] (.start (framesOf messages)) where
  synchronised := ⟨messages, rfl, rfl⟩
  issued := rfl

theorem issued_snoc (taken : List (ReceivingEnd × Action)) (receiver : ReceivingEnd) (action : Action) :
    issued (taken ++ [(receiver, action)]) =
      issued taken + if action = .sizedRecvBytes ∨ action = .asyncSizedRecvBytes then 1 else 0 := by
  simp [issued, List.countP_append, List.countP_singleton]

theorem InStep.step {taken : List (ReceivingEnd × Action)} {action : Action}
    (inStep : InStep messages taken before) (stepped : before.step action = some after) :
    InStep messages (taken ++ [(before, action)]) after := by
  obtain ⟨⟨left, synchronised⟩, count⟩ := inStep
  cases action with
  | sizedRecvBytes =>
    rw [ReceivingEnd.step] at stepped
    split at stepped
    next idle =>
      cases stepped
      have positioned := synchronised.positioned
      rw [idle] at positioned
      change before.wire = framesOf left at positioned
      refine ⟨⟨left, synchronised.delivered, by simp, by omega, Nat.le_refl 0, by simpa using positioned⟩, ?_⟩
      simp [issued_snoc, count, waiting, idle]
    next => cases stepped
  | asyncSizedRecvBytes =>
    rw [ReceivingEnd.step] at stepped
    split at stepped
    next idle =>
      cases stepped
      have positioned := synchronised.positioned
      rw [idle] at positioned
      refine ⟨⟨left, synchronised.delivered, by simp, Nat.le_refl 0, positioned⟩, ?_⟩
      simp [issued_snoc, count, waiting, idle]
    next => cases stepped
  | yields yielded =>
    by_cases yields : before.Yields yielded
    · by_cases waits : before.receiving = .idle
      · rw [ReceivingEnd.step, if_pos yields, ReceivingEnd.receive, waits] at stepped
        cases stepped
      · obtain ⟨after', left', stepped', synchronised', advances⟩ := synchronised.receive yields waits
        cases stepped.symm.trans stepped'
        refine ⟨⟨left', synchronised'⟩, ?_⟩
        rw [issued_snoc, count]
        rcases advances with ⟨stillWaits, same⟩ | ⟨idle, message, delivered⟩
        · simp [waiting, waits, stillWaits, same]
        · simp [waiting, waits, idle, delivered]
    · rw [ReceivingEnd.step, if_neg yields] at stepped
      cases stepped

/-- While a call waits for a message that was sent, the stream has bytes for it, and it has not used more
    raw receives than the frame has bytes. -/
theorem Positioned.waits {message : Region} {rest : List Region} {wire : Bytes} {raw : Nat}
    {receiving : Receiving} (positioned : Positioned (message :: rest) wire raw receiving)
    (waits : receiving ≠ .idle) :
    raw ≤ 8 + message.bytes.length ∧ (0 < receiving.requested → 0 < wire.length) := by
  have frames := congrArg List.length (framesOf_cons message rest)
  simp only [List.length_append, length_toMemory] at frames
  cases receiving with
  | idle => exact absurd rfl waits
  | blocking field buffer recv =>
    cases field with
    | size =>
      obtain ⟨isSize, inside, rawBound, isLeft⟩ := positioned
      have lengths := congrArg List.length isLeft
      rw [List.length_append, List.length_take] at lengths
      omega
    | data =>
      obtain ⟨_, _, isLeft', isSize, inside, rawBound, isLeft⟩ := positioned
      cases isLeft'
      have lengths := congrArg List.length isLeft
      simp only [List.length_append, List.length_take] at lengths
      omega
  | async registered =>
    cases registered with
    | forSize cached =>
      obtain ⟨inside, rawBound, isLeft⟩ := positioned
      have lengths := congrArg List.length isLeft
      rw [List.length_append] at lengths
      omega
    | forData expSize cached =>
      obtain ⟨_, _, isLeft', isSize, inside, rawBound, isLeft⟩ := positioned
      cases isLeft'
      have lengths := congrArg List.length isLeft
      simp only [List.length_append] at lengths
      have cachedWithin : cached.length ≤ expSize := by
        rcases inside with more | ⟨rfl, rfl⟩
        · exact more.le
        · exact Nat.le_refl 0
      refine ⟨by omega, fun asks => ?_⟩
      dsimp only [Receiving.requested] at asks
      omega
    | idle => exact positioned.elim
    | finished result => exact positioned.elim

theorem inStep_of_run {taken : List (ReceivingEnd × Action)} {final : ReceivingEnd}
    (run : ReceivingEnd.FramingRun (.start (framesOf messages)) taken final) : InStep messages taken final :=
  run.invariant (fun _ _ => True) (InStep messages) (inStep_start messages)
    (fun _ _ _ _ inStep _ stepped => inStep.step stepped) fun _ _ => trivial

theorem bytes_injective : Function.Injective Region.bytes := by
  rintro ⟨left, _⟩ ⟨right, _⟩ rfl
  rfl

theorem frames_eq {frames : List Bytes}
    (sent : List.Forall₂ (fun message frame => ∃ sizeCounts dataCounts,
      sizedSendBytes message.bytes sizeCounts dataCounts = some frame) messages frames) :
    frames = messages.map fun message => sized message.bytes := by
  induction sent with
  | nil => rfl
  | cons sends _ inductionHypothesis =>
    obtain ⟨sizeCounts, dataCounts, sends⟩ := sends
    rw [List.map_cons, ← inductionHypothesis, sizedSendBytes_eq sends]

/-- For all messages that were sent and every run of receives over any chunks: each receive but the last has
    delivered the message of its number; when none waits, the stream is at the next frame; and one that
    waits for a message needs no more raw receives than the frame has bytes and one, is never without bytes
    to go on with, and goes on with any number of bytes that the stream yields. -/
theorem sized_framing {messages : List Region} {frames : List Bytes}
    (sent : List.Forall₂ (fun message frame => ∃ sizeCounts dataCounts,
      sizedSendBytes message.bytes sizeCounts dataCounts = some frame) messages frames)
    {taken : List (ReceivingEnd × Action)} {final : ReceivingEnd}
    (run : ReceivingEnd.FramingRun (.start frames.flatten) taken final) :
    issued taken = final.delivered.length + (if final.receiving = .idle then 0 else 1) ∧
    final.delivered = (messages.take final.delivered.length).map Region.bytes ∧
    (final.receiving = .idle → final.wire = (frames.drop final.delivered.length).flatten) ∧
    (final.receiving ≠ .idle → ∀ message, messages[final.delivered.length]? = some message →
      final.raw ≤ 8 + message.bytes.length ∧ (∃ count, final.Yields count) ∧
        ∀ count, final.Yields count → (final.step (.yields count)).isSome) := by
  have isFrames := frames_eq sent
  have isWire : frames.flatten = framesOf messages := by
    rw [isFrames, framesOf, List.flatMap_def]
  rw [isWire] at run
  obtain ⟨⟨left, synchronised⟩, count⟩ := inStep_of_run run
  have delivered := synchronised.delivered
  have isLeft : messages.drop final.delivered.length = left := by
    have dropped := congrArg (List.drop final.delivered.length) delivered
    rw [List.drop_left, ← List.map_drop] at dropped
    exact List.map_injective_iff.mpr bytes_injective dropped
  refine ⟨count, ?_, fun idle => ?_, fun waits message next => ?_⟩
  · have taken := congrArg (List.take final.delivered.length) delivered
    rw [List.take_left, ← List.map_take] at taken
    exact taken.symm
  · have positioned := synchronised.positioned
    rw [idle] at positioned
    change final.wire = framesOf left at positioned
    rw [positioned, isFrames, ← List.map_drop, isLeft, framesOf, List.flatMap_def]
  · have isFirst : left = message :: messages.drop (final.delivered.length + 1) := by
      rw [← isLeft]
      exact List.drop_eq_getElem?_toList_append.trans (by rw [next]; rfl)
    obtain ⟨bounded, available⟩ := (isFirst ▸ synchronised.positioned).waits waits
    refine ⟨bounded, ?_, fun count yields => ?_⟩
    · by_cases asks : 0 < final.receiving.requested
      · exact ⟨1, asks, fun _ => Nat.one_pos, available asks⟩
      · exact ⟨0, Nat.zero_le _, fun asks' => absurd asks' asks, Nat.zero_le _⟩
    · obtain ⟨after, _, stepped, _⟩ := synchronised.receive yields waits
      rw [stepped]
      rfl

theorem threeBytes_fit : [(1 : UInt8), 2, 3].length < 2 ^ 63 := by simp

theorem noBytes_fit : ([] : List UInt8).length < 2 ^ 63 := by simp

/-- A message of three bytes and one of none. -/
def twoMessages : List Region := [⟨[1, 2, 3], threeBytes_fit⟩, ⟨[], noBytes_fit⟩]

/-- A blocking receive that gets its size in two parts, and an asynchronous one of no bytes. -/
def mixedReceives : List Action :=
  [.sizedRecvBytes, .yields 5, .yields 3, .yields 1, .yields 2, .asyncSizedRecvBytes, .yields 8, .yields 0]

theorem sized_framing_mixed : ∃ (frames : List Bytes) (taken : _) (final : ReceivingEnd),
    ReceivingEnd.FramingRun (.start frames.flatten) taken final ∧ taken.map Prod.snd = mixedReceives ∧
      final.delivered = [[1, 2, 3], []] ∧ final.wire = [] := by
  let frames : List Bytes := twoMessages.map fun message => sized message.bytes
  have sent : List.Forall₂ (fun message frame => ∃ sizeCounts dataCounts,
      sizedSendBytes message.bytes sizeCounts dataCounts = some frame) twoMessages frames :=
    .cons ⟨[8], [2, 1], by decide +kernel⟩ (.cons ⟨[4, 4], [], by decide +kernel⟩ .nil)
  obtain ⟨taken, final, run, actions, delivered, idle⟩ :=
    Run.exists_of_replay (fun _ _ _ stepped => stepped) mixedReceives
      (fun taken (final : ReceivingEnd) => taken.map Prod.snd = mixedReceives ∧
        final.delivered = [[1, 2, 3], []] ∧ final.receiving = .idle)
      (show (Run.replay ReceivingEnd.step _ [] (.start frames.flatten)).any _ = true by decide +kernel)
  obtain ⟨_, _, positioned, _⟩ := sized_framing sent run
  refine ⟨frames, taken, final, run, actions, delivered, (positioned idle).trans ?_⟩
  rw [delivered]
  rfl

end Decentagram.DecentEnclave.SizedFraming
