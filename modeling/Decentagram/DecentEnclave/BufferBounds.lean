import Decentagram.DecentEnclave.StreamSocket

/-! # Lengths from the host and buffers of the enclave

No layer compares the length of what arrives with the length it asked for.  The copies stay inside their
buffers exactly as long as the host sends no more than that.
-/

namespace Decentagram.DecentEnclave.StreamSocket

open Decentagram.Lib

/-! ## What the host is asked for -/

/-- No reply is longer than what is left to receive. -/
def RepliesWithin : Nat → List Reply → Prop
  | _, [] => True
  | 0, _ => True
  | _ + 1, .fails :: _ => True
  | size + 1, .returns data :: replies =>
    data.length ≤ size + 1 ∧ RepliesWithin (size + 1 - data.length) replies

/-- No delivery of the package is longer than what is left of it.  Nothing is copied after an error or
    after the end. -/
def PackageWithin : Nat → List Delivery → Prop
  | _, [] => True
  | size, delivery :: deliveries =>
    delivery.hasErrorOccurred = true ∨
      delivery.data.length ≤ size ∧
        (delivery.data.length < size → PackageWithin (size - delivery.data.length) deliveries)

/-- The same of the size field, of which `field` has arrived, and then of the package it announces. -/
def SizeFieldWithin (allocates : Nat → Bool) : Bytes → List Delivery → Prop
  | _, [] => True
  | field, delivery :: deliveries =>
    delivery.hasErrorOccurred = true ∨
      (field ++ delivery.data).length ≤ 8 ∧
        if (field ++ delivery.data).length < 8 then
          SizeFieldWithin allocates (field ++ delivery.data) deliveries
        else
          allocates (AesGcm.ofMemory (field ++ delivery.data)).toNat = true →
            PackageWithin (AesGcm.ofMemory (field ++ delivery.data)).toNat deliveries

/-! ## Copies -/

theorem memcpy_eq_none_iff {buffer source : Bytes} {offset : Nat} :
    memcpy buffer offset source = none ↔ buffer.length < offset + source.length := by
  unfold memcpy
  split <;> simp <;> omega

theorem memcpy_of_le {buffer source : Bytes} {offset : Nat}
    (fits : offset + source.length ≤ buffer.length) :
    memcpy buffer offset source =
      some (buffer.take offset ++ source ++ buffer.drop (offset + source.length)) := if_pos fits

theorem le_of_memcpy {buffer source result : Bytes} {offset : Nat}
    (copied : memcpy buffer offset source = some result) :
    offset + source.length ≤ buffer.length := by
  have defined : ¬ buffer.length < offset + source.length := by
    rw [← memcpy_eq_none_iff, copied]
    simp
  omega

theorem length_memcpy {buffer source result : Bytes} {offset : Nat}
    (copied : memcpy buffer offset source = some result) : result.length = buffer.length := by
  unfold memcpy at copied
  split at copied
  next fits =>
    cases copied
    simp
    omega
  next => cases copied

theorem take_memcpy {buffer source result : Bytes} {offset : Nat}
    (copied : memcpy buffer offset source = some result) :
    result.take (offset + source.length) = buffer.take offset ++ source := by
  unfold memcpy at copied
  split at copied
  next fits =>
    cases copied
    apply List.take_left'
    simp
    omega
  next => cases copied

/-! ## Blocking calls -/

theorem recvRawLoop_defined_iff (replies : List Reply) {size recv : Nat} {buffer : Bytes}
    (isSize : buffer.length = size) (received : recv ≤ size) :
    recvRawLoop size replies recv buffer ≠ .undefined ↔ RepliesWithin (size - recv) replies := by
  induction replies generalizing recv buffer with
  | nil =>
    by_cases more : recv < size <;> simp [recvRawLoop, RepliesWithin, more]
  | cons reply replies inductionHypothesis =>
    by_cases more : recv < size
    · obtain ⟨left, isLeft⟩ : ∃ left, size - recv = left + 1 := ⟨size - recv - 1, by omega⟩
      rw [isLeft]
      cases reply with
      -- the loop ends with the exception of the first call that fails
      | fails => simp [recvRawLoop, recvRaw, RepliesWithin, more]
      | returns data =>
        rw [RepliesWithin]
        cases copied : memcpy buffer recv data with
        | none =>
          have tooLong := memcpy_eq_none_iff.mp copied
          have notWithin : ¬ data.length ≤ left + 1 := by omega
          simp [recvRawLoop, recvRaw, copyTo, more, copied, notWithin]
        | some result =>
          have within := le_of_memcpy copied
          have rest := @inductionHypothesis (recv + data.length) _
            ((length_memcpy copied).trans isSize) (by omega)
          have isRest : size - (recv + data.length) = left + 1 - data.length := by omega
          rw [isRest] at rest
          have fits : data.length ≤ left + 1 := by omega
          simp [recvRawLoop, recvRaw, copyTo, more, copied, fits, rest]
    · have none : size - recv = 0 := by omega
      simp [recvRawLoop, more, none, RepliesWithin]

/-! ## The receive handler of `AesGcmStreamSocket` -/

namespace AsyncRecvHandler

variable (allocates : Nat → Bool)

theorem dispatchAll_unregistered {handler : AsyncRecvHandler} (nothing : handler.registered = none)
    (deliveries : List Delivery) : dispatchAll allocates deliveries handler = some handler := by
  induction deliveries with
  | nil => rfl
  | cons delivery deliveries inductionHypothesis =>
    simp [dispatchAll, dispatchCallback, Exec.endState, nothing, inductionHypothesis]

theorem dispatchAll_package_iff (deliveries : List Delivery) {handler : AsyncRecvHandler}
    (registered : handler.registered = some .packRecvHandler)
    (resized : handler.recvBuf.length = (AesGcm.ofMemory handler.packSize).toNat)
    (received : handler.recvdSize ≤ handler.recvBuf.length) :
    dispatchAll allocates deliveries handler ≠ none ↔
      PackageWithin (handler.recvBuf.length - handler.recvdSize) deliveries := by
  induction deliveries generalizing handler with
  | nil => simp [dispatchAll, PackageWithin]
  | cons delivery deliveries inductionHypothesis =>
    rw [PackageWithin]
    by_cases failed : delivery.hasErrorOccurred = true
    -- an error is reported without its data and registers nothing again
    · have stopped := @dispatchAll_unregistered allocates { handler with registered := none } rfl
        deliveries
      simp [dispatchAll, dispatchCallback, Exec.endState, registered, failed, stopped]
    · cases copied : memcpy handler.recvBuf handler.recvdSize delivery.data with
      | none =>
        have tooLong := memcpy_eq_none_iff.mp copied
        have notWithin : ¬ delivery.data.length ≤ handler.recvBuf.length - handler.recvdSize := by omega
        simp [dispatchAll, dispatchCallback, Exec.endState, registered, failed, packRecvHandler,
          intoRecvBuf, copyTo, copied, notWithin]
      | some recvBuf =>
        have fits := le_of_memcpy copied
        have sameLength := length_memcpy copied
        have within : delivery.data.length ≤ handler.recvBuf.length - handler.recvdSize := by omega
        by_cases more : handler.recvdSize + delivery.data.length < handler.recvBuf.length
        · have rest := @inductionHypothesis
            { handler with
              recvBuf, recvdSize := handler.recvdSize + delivery.data.length
              registered := some .packRecvHandler } rfl (sameLength.trans resized) (by simp; omega)
          have shorter : delivery.data.length < handler.recvBuf.length - handler.recvdSize := by omega
          simp only [sameLength] at rest
          rw [Nat.sub_add_eq] at rest
          rw [resized] at more
          simp [dispatchAll, dispatchCallback, Exec.endState, registered, failed, packRecvHandler,
            intoRecvBuf, copyTo, copied, register, more, within, shorter, rest]
        -- the package is complete and handed on, so what the host sends behind it meets no handler
        · have complete : ¬ delivery.data.length < handler.recvBuf.length - handler.recvdSize := by
            omega
          have stopped := @dispatchAll_unregistered allocates
            { handler with
              recvBuf := [], recvdSize := handler.recvdSize + delivery.data.length, registered := none
              received := some recvBuf } rfl deliveries
          rw [resized] at more
          simp [dispatchAll, dispatchCallback, Exec.endState, registered, failed, packRecvHandler,
            intoRecvBuf, copyTo, copied, more, within, complete, stopped]

theorem dispatchAll_sizeField_iff (deliveries : List Delivery) {handler : AsyncRecvHandler}
    {field : Bytes} (registered : handler.registered = some .packSizeRecvHandler)
    (isField : handler.packSize.length = 8) (received : handler.recvdSize = field.length)
    (holds : handler.packSize.take field.length = field) :
    dispatchAll allocates deliveries handler ≠ none ↔ SizeFieldWithin allocates field deliveries := by
  induction deliveries generalizing handler field with
  | nil => simp [dispatchAll, SizeFieldWithin]
  | cons delivery deliveries inductionHypothesis =>
    rw [SizeFieldWithin, List.length_append]
    by_cases failed : delivery.hasErrorOccurred = true
    · have stopped := @dispatchAll_unregistered allocates { handler with registered := none } rfl
        deliveries
      simp [dispatchAll, dispatchCallback, Exec.endState, registered, failed, stopped]
    · cases copied : memcpy handler.packSize field.length delivery.data with
      | none =>
        have tooLong := memcpy_eq_none_iff.mp copied
        have notWithin : ¬ field.length + delivery.data.length ≤ 8 := by omega
        simp [dispatchAll, dispatchCallback, Exec.endState, registered, failed, packSizeRecvHandler,
          intoPackSize, copyTo, received, copied, notWithin]
      | some packSize =>
        have fits := le_of_memcpy copied
        have sameLength := (length_memcpy copied).trans isField
        have within : field.length + delivery.data.length ≤ 8 := by omega
        have grown := take_memcpy copied
        rw [holds] at grown
        -- the field is still short, or complete with this delivery
        by_cases more : field.length + delivery.data.length < 8
        · have rest := @inductionHypothesis
            { handler with
              packSize, recvdSize := field.length + delivery.data.length
              registered := some .packSizeRecvHandler }
            (field ++ delivery.data) rfl sameLength (by simp) (by simpa using grown)
          simp [dispatchAll, dispatchCallback, Exec.endState, registered, failed, packSizeRecvHandler,
            intoPackSize, copyTo, received, copied, register, more, within, rest]
        · have complete : packSize = field ++ delivery.data := by
            rw [← grown, List.take_of_length_le (by omega)]
          subst complete
          cases allocated : allocates (AesGcm.ofMemory (field ++ delivery.data)).toNat with
          | false =>
            -- the package buffer cannot be made, and nothing is registered any more
            have stopped := @dispatchAll_unregistered allocates
              { handler with
                packSize := field ++ delivery.data, recvdSize := 0, registered := none } rfl deliveries
            simp [dispatchAll, dispatchCallback, Exec.endState, registered, failed, packSizeRecvHandler,
              intoPackSize, copyTo, received, copied, more, within, resizeRecvBuf, allocated, stopped]
          | true =>
            have package := @dispatchAll_package_iff allocates deliveries
              { handler with
                packSize := field ++ delivery.data, recvdSize := 0
                recvBuf := List.replicate (AesGcm.ofMemory (field ++ delivery.data)).toNat 0
                registered := some .packRecvHandler } rfl (by simp) (Nat.zero_le _)
            rw [List.length_replicate, Nat.sub_zero] at package
            simp [dispatchAll, dispatchCallback, Exec.endState, registered, failed, packSizeRecvHandler,
              intoPackSize, copyTo, received, copied, more, within, resizeRecvBuf, allocated, register,
              package]

end AsyncRecvHandler

/-! ## `AsyncSizedRecvBytes` -/

namespace SizedRecv

variable (allocates : Nat → Bool)

theorem sizeCallback_defined {buf : Bytes} (complete : ¬ buf.length < 8) :
    Exec.endState (sizeCallback buf) .idle ≠ none := by
  have copied := @memcpy_of_le (List.replicate 8 0) (buf.take 8) 0 (by simp)
  rw [sizeCallback, if_neg complete, copied]
  simp [become, Exec.endState]

theorem dataCallback_defined (buf : Bytes) :
    Exec.endState (dataCallback allocates buf) .idle ≠ none := by
  have copied := @memcpy_of_le (List.replicate buf.length 0) buf 0 (by simp)
  by_cases allocated : allocates buf.length = true <;>
    simp [dataCallback, allocated, copied, become, Exec.endState]

theorem untilComplete_defined {expSize : Nat} {cached : Bytes} {again : Bytes → SizedRecv}
    {callback : Bytes → Handling}
    (calls : ¬ cached.length < expSize → Exec.endState (callback cached) .idle ≠ none) :
    Exec.endState (untilComplete allocates expSize cached again callback) .idle ≠ none := by
  by_cases allocated : allocates cached.length = true
  · by_cases more : cached.length < expSize
    · simp [untilComplete, allocated, more, become, Exec.endState]
    · simpa [untilComplete, allocated, more, Exec.endState] using calls more
  · simp [untilComplete, allocated, Exec.endState]

/-- Whatever the host sends, every copy has a destination of its own size. -/
theorem dispatchAll_defined (deliveries : List Delivery) (state : SizedRecv) :
    dispatchAll allocates deliveries state ≠ none := by
  induction deliveries generalizing state with
  | nil => simp [dispatchAll]
  | cons delivery deliveries inductionHypothesis =>
    have defined : Exec.endState (dispatchCallback allocates delivery) state ≠ none := by
      cases state with
      | idle => simp [dispatchCallback, Exec.endState]
      | finished result => simp [dispatchCallback, Exec.endState]
      | forSize cached =>
        by_cases failed : delivery.hasErrorOccurred = true
        · simp [dispatchCallback, Exec.endState, failed, become]
        · have next := @untilComplete_defined allocates _ _ .forSize _
            (@sizeCallback_defined (cached ++ delivery.data))
          simpa [dispatchCallback, Exec.endState, failed, become] using next
      | forData expSize cached =>
        by_cases failed : delivery.hasErrorOccurred = true
        · simp [dispatchCallback, Exec.endState, failed, become]
        · have next := @untilComplete_defined allocates expSize _ (.forData expSize) _
            fun _ => dataCallback_defined allocates (cached ++ delivery.data)
          simpa [dispatchCallback, Exec.endState, failed, become] using next
    cases ended : Exec.endState (dispatchCallback allocates delivery) state with
    | none => exact absurd ended defined
    | some next =>
      rw [dispatchAll, ended]
      exact inductionHypothesis next

end SizedRecv

/-! ## The receive paths -/

/-- A receive of the enclave, with what the host does in it. -/
inductive Receive where
  | recvRaw (buffer : Bytes) (reply : Reply)
  | recvRawUntilComplete (buffer : Bytes) (replies : List Reply)
  | asyncRecvHandler (allocates : Nat → Bool) (deliveries : List Delivery)
  | asyncSizedRecvBytes (allocates : Nat → Bool) (deliveries : List Delivery)

/-- No byte is copied behind the end of a buffer: the receive returns, waits or throws. -/
def Receive.StaysInside : Receive → Prop
  | .recvRaw buffer reply => StreamSocket.recvRaw reply 0 buffer.length buffer ≠ .undefined
  | .recvRawUntilComplete buffer replies =>
    StreamSocket.recvRawUntilComplete buffer.length replies buffer ≠ .undefined
  | .asyncRecvHandler allocates deliveries =>
    AsyncRecvHandler.dispatchAll allocates deliveries .create ≠ none
  | .asyncSizedRecvBytes allocates deliveries =>
    SizedRecv.dispatchAll allocates deliveries (.forSize []) ≠ none

/-- The host sends no more than it was asked for, where that matters. -/
def Receive.WithinRequests : Receive → Prop
  | .recvRaw buffer reply => ∀ data, reply = .returns data → data.length ≤ buffer.length
  | .recvRawUntilComplete buffer replies => RepliesWithin buffer.length replies
  | .asyncRecvHandler allocates deliveries => SizeFieldWithin allocates [] deliveries
  | .asyncSizedRecvBytes _ _ => True

theorem staysInside_iff (receive : Receive) : receive.StaysInside ↔ receive.WithinRequests := by
  cases receive with
  | recvRaw buffer reply =>
    cases reply with
    | fails => simp [Receive.StaysInside, Receive.WithinRequests, recvRaw]
    | returns data =>
      cases copied : memcpy buffer 0 data with
      | none =>
        have tooLong := memcpy_eq_none_iff.mp copied
        simp [Receive.StaysInside, Receive.WithinRequests, recvRaw, copyTo, copied]
        omega
      | some result =>
        have fits := le_of_memcpy copied
        simp [Receive.StaysInside, Receive.WithinRequests, recvRaw, copyTo, copied]
        omega
  | recvRawUntilComplete buffer replies =>
    exact recvRawLoop_defined_iff replies rfl (Nat.zero_le _)
  | asyncRecvHandler allocates deliveries =>
    exact AsyncRecvHandler.dispatchAll_sizeField_iff allocates deliveries rfl rfl rfl rfl
  | asyncSizedRecvBytes allocates deliveries =>
    exact iff_of_true (SizedRecv.dispatchAll_defined allocates deliveries _) trivial

/-- One byte more than asked for: at once, in the second reply, for the size field and for a package of
    two bytes. -/
theorem reply_overflows_buffer :
    ¬ (Receive.recvRaw [0, 0, 0, 0] (.returns [1, 2, 3, 4, 5])).StaysInside ∧
      ¬ (Receive.recvRawUntilComplete [0, 0, 0, 0] [.returns [1], .returns [2, 3, 4, 5]]).StaysInside ∧
      ¬ (Receive.asyncRecvHandler (fun _ => true) [⟨[2, 0, 0, 0, 0, 0, 0, 0, 0], false⟩]).StaysInside ∧
      ¬ (Receive.asyncRecvHandler (fun _ => true)
        [⟨[2, 0, 0, 0, 0, 0, 0, 0], false⟩, ⟨[1], false⟩, ⟨[2, 3], false⟩]).StaysInside := by
  refine ⟨fun inside => inside rfl, fun inside => inside rfl, fun inside => inside rfl, ?_⟩
  exact fun inside => inside (by decide +kernel)

end Decentagram.DecentEnclave.StreamSocket
