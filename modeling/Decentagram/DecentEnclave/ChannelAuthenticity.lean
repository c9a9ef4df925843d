import Decentagram.DecentEnclave.AesGcmStreamSocket
import Decentagram.Lib.Run
import Mathlib.Data.List.Infix
import Mathlib.Logic.Function.Basic

/-! # Authenticity of a channel

Two sockets made from the same keys, and a network that delivers any package sent so far to either of them.
A package opens for one number of messages only, but for both directions: what keeps the accepted messages a
prefix of what the peer sent is that no socket is handed back its own package at that number.
-/

namespace Decentagram.DecentEnclave.AesGcm

open Decentagram.Lib

inductive Party where
  | first
  | second
deriving DecidableEq, Repr

def Party.other : Party → Party
  | .first => .second
  | .second => .first

/-- A socket with what was sent and what was accepted through it. -/
structure Endpoint (Encrypted : Type) where
  socket : AesGcmStreamSocket
  sent : List (List UInt8 × Package Encrypted)
  accepted : List (List UInt8)

abbrev Channel (Encrypted : Type) := Party → Endpoint Encrypted

/-- A party sends a message, its random generator returning an IV; or the network delivers to a party the
    package that a sender sent with a number. -/
inductive ChannelEvent where
  | send (party : Party) (message iv : List UInt8)
  | deliver (party sender : Party) (number : Nat)
deriving DecidableEq, Repr

namespace Endpoint

variable {Encrypted : Type}

def messages (endpoint : Endpoint Encrypted) : List (List UInt8) := endpoint.sent.map Prod.fst

variable (gcm : IdealAesGcm Encrypted) (hkdf : Hkdf)

def send (endpoint : Endpoint Encrypted) (message iv : List UInt8) : Endpoint Encrypted :=
  let (package, socket) := endpoint.socket.encryptMsg gcm hkdf message iv
  { endpoint with socket, sent := endpoint.sent ++ [(message, package)] }

/-- A package that does not open throws, which leaves the socket as it was. -/
def receive (endpoint : Endpoint Encrypted) (package : Package Encrypted) : Endpoint Encrypted :=
  match endpoint.socket.decryptMsg gcm hkdf package with
  | .error _ => endpoint
  | .ok (message, socket) => { endpoint with socket, accepted := endpoint.accepted ++ [message] }

end Endpoint

namespace Channel

variable {Encrypted : Type} (gcm : IdealAesGcm Encrypted) (hkdf : Hkdf) (secretKey maskKey : KeyType)

def init : Channel Encrypted := fun _ =>
  { socket := .make secretKey maskKey, sent := [], accepted := [] }

/-- No byte vector is as long as `2 ^ 63`. -/
def execute (channel : Channel Encrypted) : ChannelEvent → Option (Channel Encrypted)
  | .send party message iv =>
    if message.length < 2 ^ 63 then
      some (Function.update channel party ((channel party).send gcm hkdf message iv))
    else none
  | .deliver party sender number =>
    (channel sender).sent[number]?.map fun (_, package) =>
      Function.update channel party ((channel party).receive gcm hkdf package)

def Step (before : Channel Encrypted) (event : ChannelEvent) (after : Channel Encrypted) : Prop :=
  before.execute gcm hkdf event = some after

/-- What a party accepted is a prefix of what the other one sent. -/
def Authentic (channel : Channel Encrypted) : Prop :=
  ∀ party : Party, (channel party).accepted <+: (channel party.other).messages

/-- The renewals so far have brought no pair of keys twice. -/
def RenewalsFresh (channel : Channel Encrypted) : Prop :=
  ∀ earlier later, earlier < later → (∃ party, later ≤ (channel party).sent.length / 2 ^ 64) →
    keysAt hkdf secretKey maskKey earlier ≠ keysAt hkdf secretKey maskKey later

/-- A party gets its own package back with the number of its next message, and the peer has sent no such
    message with that number. -/
def reflects (channel : Channel Encrypted) : ChannelEvent → Bool
  | .send _ _ _ => false
  | .deliver party sender number =>
    sender = party && number = (channel party).accepted.length &&
      (channel party).messages[number]? ≠ (channel party.other).messages[number]?

end Channel

/-! ## The invariant -/

variable {Encrypted : Type} {gcm : IdealAesGcm Encrypted} {hkdf : Hkdf} {secretKey maskKey : KeyType}

/-- Each direction of a socket is where the number of its messages puts it, and each package was packed
    where its number puts it. -/
structure Endpoint.Numbered (gcm : IdealAesGcm Encrypted) (hkdf : Hkdf) (secretKey maskKey : KeyType)
    (endpoint : Endpoint Encrypted) : Prop where
  self : endpoint.socket.self = directionAt hkdf secretKey maskKey endpoint.sent.length
  peer : endpoint.socket.peer = directionAt hkdf secretKey maskKey endpoint.accepted.length
  sent : ∀ number message package, endpoint.sent[number]? = some (message, package) →
    message.length < 2 ^ 63 ∧ ∃ iv, package = (directionAt hkdf secretKey maskKey number).aesGcm.pack gcm
      [] [] message (directionAt hkdf secretKey maskKey number).addData.bytes iv

theorem bytes_inj {addData addData' : AddDataType} (same : addData.bytes = addData'.bytes) :
    addData = addData' := by
  obtain ⟨sameKey, sameCounter⟩ := List.append_inj same (by simp)
  have counters := congrArg ofMemory sameCounter
  rw [ofMemory_toMemory, ofMemory_toMemory] at counters
  cases addData
  cases addData'
  simp only [AddDataType.mk.injEq]
  exact ⟨Vector.toList_inj.mp sameKey, counters⟩

theorem encryptedSize_lt {size : Nat} (small : size < 2 ^ 63) :
    (getTotalSealedBlockSize packBlockSize 0 0 size).encryptedSize < 2 ^ 64 := by
  have bound := AesGcmPackager.encryptedSize_le packBlockSize 0 0 size
  have block : packBlockSize = 128 := rfl
  omega

/-- A package opens at the number at which it was packed and, where the keys are others, at no other. -/
theorem unpack_directionAt {number number' : Nat} {message data metadata iv : List UInt8}
    (fresh : number / 2 ^ 64 ≠ number' / 2 ^ 64 →
      keysAt hkdf secretKey maskKey (number / 2 ^ 64) ≠ keysAt hkdf secretKey maskKey (number' / 2 ^ 64))
    (small : message.length < 2 ^ 63)
    (opened : (directionAt hkdf secretKey maskKey number').aesGcm.unpack gcm
      ((directionAt hkdf secretKey maskKey number).aesGcm.pack gcm [] [] message
        (directionAt hkdf secretKey maskKey number).addData.bytes iv)
      (directionAt hkdf secretKey maskKey number').addData.bytes = .ok (data, metadata)) :
    number' = number ∧ data = message := by
  have sameLength : (directionAt hkdf secretKey maskKey number').addData.bytes.length =
      (directionAt hkdf secretKey maskKey number).addData.bytes.length := by simp [AddDataType.bytes]
  rw [AesGcmPackager.unpack_pack gcm sameLength (by exact encryptedSize_lt small)] at opened
  obtain ⟨sameKey, sameBytes, isMessage, -⟩ := opened
  obtain ⟨sameMakKey, sameCounter⟩ := AddDataType.mk.inj (bytes_inj sameBytes)
  have sameRenewals : number / 2 ^ 64 = number' / 2 ^ 64 := by
    by_contra different
    exact fresh different (Prod.ext sameKey.symm sameMakKey.symm)
  have sameRest : number' % 2 ^ 64 = number % 2 ^ 64 := by
    have isRest : ∀ n, (UInt64.ofNat (n % 2 ^ 64)).toNat = n % 2 ^ 64 :=
      fun n => UInt64.toNat_ofNat_of_lt' (Nat.mod_lt n (by decide))
    rw [← isRest number', ← isRest number, sameCounter]
  exact ⟨by omega, isMessage⟩

/-! ## Steps -/

namespace Endpoint

variable {endpoint : Endpoint Encrypted}

theorem numbered_send {message iv : List UInt8}
    (numbered : endpoint.Numbered gcm hkdf secretKey maskKey) (small : message.length < 2 ^ 63) :
    (endpoint.send gcm hkdf message iv).Numbered gcm hkdf secretKey maskKey where
  self := by
    simp only [send, AesGcmStreamSocket.encryptMsg, AesGcmStreamSocket.checkSelfKeysLifetime,
      List.length_append, List.length_singleton, numbered.self, checkKeysLifetime_directionAt]
  peer := numbered.peer
  sent := by
    intro number message' package found
    simp only [send, List.getElem?_append] at found
    split at found
    · exact numbered.sent number message' package found
    · rename_i notOld
      rw [List.getElem?_singleton] at found
      split at found
      · rename_i isLast
        have isNumber : number = endpoint.sent.length := by omega
        cases found
        refine ⟨small, iv, ?_⟩
        simp only [AesGcmStreamSocket.encryptMsg, numbered.self, isNumber]
      · cases found

/-- What is received is either refused or the message with the next number. -/
theorem receive_cases {number : Nat} {message : List UInt8} {package : Package Encrypted}
    (numbered : endpoint.Numbered gcm hkdf secretKey maskKey) (small : message.length < 2 ^ 63)
    (packed : ∃ iv, package = (directionAt hkdf secretKey maskKey number).aesGcm.pack gcm [] [] message
      (directionAt hkdf secretKey maskKey number).addData.bytes iv)
    (fresh : number / 2 ^ 64 ≠ endpoint.accepted.length / 2 ^ 64 →
      keysAt hkdf secretKey maskKey (number / 2 ^ 64) ≠
        keysAt hkdf secretKey maskKey (endpoint.accepted.length / 2 ^ 64)) :
    endpoint.receive gcm hkdf package = endpoint ∨
      number = endpoint.accepted.length ∧
        (endpoint.receive gcm hkdf package).sent = endpoint.sent ∧
        (endpoint.receive gcm hkdf package).accepted = endpoint.accepted ++ [message] ∧
        (endpoint.receive gcm hkdf package).Numbered gcm hkdf secretKey maskKey := by
  obtain ⟨iv, rfl⟩ := packed
  unfold receive
  split
  · exact .inl rfl
  · rename_i data socket decrypted
    obtain ⟨⟨data', metadata⟩, opened, returned⟩ := Lib.bind_eq_ok.mp decrypted
    cases returned
    rw [numbered.peer] at opened
    obtain ⟨isNumber, rfl⟩ := unpack_directionAt fresh small opened
    refine .inr ⟨isNumber.symm, rfl, rfl, ?_⟩
    refine ⟨numbered.self, ?_, numbered.sent⟩
    simp only [AesGcmStreamSocket.checkPeerKeysLifetime, List.length_append, List.length_singleton,
      numbered.peer, checkKeysLifetime_directionAt]

end Endpoint

namespace Channel

variable {before after : Channel Encrypted} {event : ChannelEvent}

/-- What a step does to the two endpoints. -/
theorem step_cases (step : Step gcm hkdf before event after) :
    (∃ party message iv, event = .send party message iv ∧ message.length < 2 ^ 63 ∧
      after = Function.update before party ((before party).send gcm hkdf message iv)) ∨
    ∃ party sender number message package, event = .deliver party sender number ∧
      (before sender).sent[number]? = some (message, package) ∧
      after = Function.update before party ((before party).receive gcm hkdf package) := by
  cases event with
  | send party message iv =>
    simp only [Step, execute, Option.ite_none_right_eq_some, Option.some.injEq] at step
    exact .inl ⟨party, message, iv, rfl, step.1, step.2.symm⟩
  | deliver party sender number =>
    obtain ⟨⟨message, package⟩, found, equal⟩ := Option.map_eq_some_iff.mp step
    exact .inr ⟨party, sender, number, message, package, rfl, found, equal.symm⟩

theorem sent_receive (endpoint : Endpoint Encrypted) (package : Package Encrypted) :
    (endpoint.receive gcm hkdf package).sent = endpoint.sent := by
  unfold Endpoint.receive
  split <;> rfl

/-- Nothing that was sent is taken back. -/
theorem sent_le (step : Step gcm hkdf before event after) (party : Party) :
    (before party).sent.length ≤ (after party).sent.length := by
  rcases step_cases step with ⟨stepped, message, iv, -, -, rfl⟩ |
    ⟨stepped, sender, number, message, package, -, -, rfl⟩
  · by_cases same : party = stepped
    · subst same
      simp [Endpoint.send]
    · rw [Function.update_of_ne same]
  · by_cases same : party = stepped
    · subst same
      simp [sent_receive]
    · rw [Function.update_of_ne same]

theorem fresh_before (step : Step gcm hkdf before event after)
    (fresh : RenewalsFresh hkdf secretKey maskKey after) :
    RenewalsFresh hkdf secretKey maskKey before := by
  intro earlier later less bounded
  obtain ⟨party, bound⟩ := bounded
  have grows := sent_le step party
  exact fresh earlier later less ⟨party, bound.trans (Nat.div_le_div_right grows)⟩

/-- Two numbers up to what was sent have the same keys only under the same number of renewals. -/
theorem keysAt_ne {number number' : Nat} (fresh : RenewalsFresh hkdf secretKey maskKey before)
    (bounded : ∃ party, number ≤ (before party).sent.length)
    (bounded' : ∃ party, number' ≤ (before party).sent.length)
    (different : number / 2 ^ 64 ≠ number' / 2 ^ 64) :
    keysAt hkdf secretKey maskKey (number / 2 ^ 64) ≠
      keysAt hkdf secretKey maskKey (number' / 2 ^ 64) := by
  obtain ⟨party, bound⟩ := bounded
  obtain ⟨party', bound'⟩ := bounded'
  cases Nat.lt_or_gt_of_ne different with
  | inl less => exact fresh _ _ less ⟨party', Nat.div_le_div_right bound'⟩
  | inr greater => exact (fresh _ _ greater ⟨party, Nat.div_le_div_right bound⟩).symm

theorem eq_or_eq_other (party party' : Party) : party' = party ∨ party' = party.other := by
  cases party <;> cases party' <;> decide

theorem length_accepted_le (authentic : Authentic before) (party : Party) :
    (before party).accepted.length ≤ (before party.other).sent.length := by
  simpa [Endpoint.messages] using (authentic party).length_le

/-- The next message accepted is the peer's with that number. -/
theorem prefix_next {accepted messages : List (List UInt8)} {message : List UInt8}
    (isPrefix : accepted <+: messages) (next : messages[accepted.length]? = some message) :
    accepted ++ [message] <+: messages := by
  obtain ⟨less, isMessage⟩ := List.getElem?_eq_some_iff.mp next
  have extended := List.concat_get_prefix isPrefix less
  rw [List.get_eq_getElem, isMessage] at extended
  exact extended

theorem send_authentic {party : Party} {message iv : List UInt8} (authentic : Authentic before) :
    Authentic (Function.update before party ((before party).send gcm hkdf message iv)) := by
  intro reader
  have sameAccepted : (Function.update before party ((before party).send gcm hkdf message iv)
      reader).accepted = (before reader).accepted := by
    by_cases same : reader = party
    · subst same
      rw [Function.update_self]
      rfl
    · rw [Function.update_of_ne same]
  have longer : (before reader.other).messages <+:
      (Function.update before party ((before party).send gcm hkdf message iv) reader.other).messages := by
    by_cases same : reader.other = party
    · subst same
      rw [Function.update_self]
      simp [Endpoint.send, Endpoint.messages]
    · rw [Function.update_of_ne same]
  rw [sameAccepted]
  exact (authentic reader).trans longer

/-- A message that is accepted is the one the peer sent with its number, also where the package is not
    the peer's. -/
theorem accepted_next {party sender : Party} {message : List UInt8} {package : Package Encrypted}
    (found : (before sender).sent[(before party).accepted.length]? = some (message, package))
    (kept : reflects before (.deliver party sender (before party).accepted.length) = false) :
    (before party.other).messages[(before party).accepted.length]? = some message := by
  have sent : (before sender).messages[(before party).accepted.length]? = some message := by
    simp [Endpoint.messages, found]
  cases eq_or_eq_other party sender with
  | inl own =>
    subst own
    simp only [reflects, decide_true, Bool.true_and, decide_eq_false_iff_not, not_not] at kept
    rw [← kept]
    exact sent
  | inr peers => exact peers ▸ sent

theorem step_authentic (numbered : ∀ party, (before party).Numbered gcm hkdf secretKey maskKey)
    (authentic : Authentic before) (fresh : RenewalsFresh hkdf secretKey maskKey before)
    (kept : reflects before event = false) (step : Step gcm hkdf before event after) :
    (∀ party, (after party).Numbered gcm hkdf secretKey maskKey) ∧ Authentic after := by
  rcases step_cases step with ⟨stepped, message, iv, -, small, rfl⟩ |
    ⟨stepped, sender, number, message, package, rfl, found, rfl⟩
  · refine ⟨?_, send_authentic authentic⟩
    intro party
    by_cases same : party = stepped
    · subst same
      rw [Function.update_self]
      exact Endpoint.numbered_send (numbered party) small
    · rw [Function.update_of_ne same]
      exact numbered party
  · obtain ⟨small, packed⟩ := (numbered sender).sent number message package found
    have wasSent : number ≤ (before sender).sent.length :=
      Nat.le_of_lt (List.getElem?_eq_some_iff.mp found).1
    -- a package of another key is refused, so an accepted one is the next
    have freshKeys := keysAt_ne fresh ⟨sender, wasSent⟩
      ⟨stepped.other, length_accepted_le authentic stepped⟩
    cases Endpoint.receive_cases (numbered stepped) small packed freshKeys with
    | inl refused =>
      rw [refused, Function.update_eq_self]
      exact ⟨numbered, authentic⟩
    | inr accepted =>
      obtain ⟨isNext, sameSent, isAccepted, numbered'⟩ := accepted
      subst isNext
      have next := accepted_next found kept
      refine ⟨?_, ?_⟩
      · intro party
        by_cases same : party = stepped
        · subst same
          rw [Function.update_self]
          exact numbered'
        · rw [Function.update_of_ne same]
          exact numbered party
      · -- only what the receiver accepted changes, and no party's messages do
        intro reader
        have sameMessages : (Function.update before stepped
            ((before stepped).receive gcm hkdf package) reader.other).messages =
            (before reader.other).messages := by
          by_cases same : reader.other = stepped
          · subst same
            rw [Function.update_self, Endpoint.messages, sameSent]
            rfl
          · rw [Function.update_of_ne same]
        rw [sameMessages]
        by_cases same : reader = stepped
        · subst same
          rw [Function.update_self, isAccepted]
          exact prefix_next (authentic reader) next
        · rw [Function.update_of_ne same]
          exact authentic reader

/-- What each party accepts is a prefix of what the other sends, in every run in which no party accepts
    its own package as another message than the peer's. -/
theorem accepted_prefix {taken : List (Channel Encrypted × ChannelEvent)} {final : Channel Encrypted}
    (run : Run (Step gcm hkdf) (init secretKey maskKey) taken final)
    (fresh : RenewalsFresh hkdf secretKey maskKey final)
    (guarded : ∀ entry ∈ taken, reflects entry.1 entry.2 = false) : Authentic final := by
  have held : RenewalsFresh hkdf secretKey maskKey final →
      (∀ party, (final party).Numbered gcm hkdf secretKey maskKey) ∧ Authentic final := by
    refine run.invariant (fun before event => reflects before event = false)
      (fun _ channel => RenewalsFresh hkdf secretKey maskKey channel →
        (∀ party, (channel party).Numbered gcm hkdf secretKey maskKey) ∧ Authentic channel) ?_ ?_ guarded
    · intro _
      refine ⟨fun party => ⟨make_eq hkdf secretKey maskKey, make_eq hkdf secretKey maskKey, ?_⟩, ?_⟩
      · intro number message package found
        cases found
      · intro party
        exact List.nil_prefix
    · intro _ before event after held kept step freshAfter
      have freshBefore := fresh_before step freshAfter
      obtain ⟨numbered, authentic⟩ := held freshBefore
      exact step_authentic numbered authentic freshBefore kept step
  exact (held fresh).2

/-! ### Two runs -/

/-- An AES-GCM whose ciphertexts keep what they were made of. -/
def transparent : IdealAesGcm (KeyType × List UInt8 × List UInt8 × List UInt8) where
  encrypt := fun key iv addData data => (key, iv, addData, data)
  decrypt := fun key iv addData encrypted =>
    if encrypted.1 = key ∧ encrypted.2.1 = iv ∧ encrypted.2.2.1 = addData then some encrypted.2.2.2
    else none
  size := fun encrypted => encrypted.2.2.2.length
  size_encrypt := fun _ _ _ _ => rfl
  decrypt_encrypt := by
    intro key iv addData data key' iv' addData' data'
    simp only [Option.ite_none_right_eq_some, Option.some.injEq]
    grind

def nextKey : Hkdf := fun key _ _ => key.map (· + 1)

def sampleKey : KeyType := Vector.replicate 16 7

def replay (events : List ChannelEvent) :=
  Run.replay (execute transparent nextKey) events [] (init sampleKey sampleKey)

/-- Each party sends a message to the other one. -/
theorem accepted_prefix_sample :
    ∃ taken final, Run (Step transparent nextKey) (init sampleKey sampleKey) taken final ∧
      (final .second).accepted = [[1, 2]] ∧ (final .first).accepted = [[3]] ∧ Authentic final := by
  have replays : (replay [.send .first [1, 2] [], .deliver .second .first 0, .send .second [3] [],
      .deliver .first .second 0, .deliver .first .first 0]).any (fun (taken, final) =>
        taken.all (fun entry => !reflects entry.1 entry.2) &&
          decide ((final .second).accepted = [[1, 2]] ∧ (final .first).accepted = [[3]] ∧
            (final .first).sent.length = 1 ∧ (final .second).sent.length = 1)) = true := by
    decide +kernel
  obtain ⟨⟨taken, final⟩, replayed, checks⟩ := (Option.any_eq_true _ _).mp replays
  simp only [Bool.and_eq_true, List.all_eq_true, Bool.not_eq_true', decide_eq_true_eq] at checks
  obtain ⟨guarded, second, first, firstSent, secondSent⟩ := checks
  have run : Run (Step transparent nextKey) (init sampleKey sampleKey) taken final :=
    Run.of_replay (fun _ _ _ executed => executed) .nil replayed
  refine ⟨taken, final, run, second, first, accepted_prefix run ?_ guarded⟩
  intro earlier later less bounded
  obtain ⟨party, bound⟩ := bounded
  have noRenewal : (final party).sent.length = 1 := by cases party <;> assumption
  omega

/-- A party accepts the message that it sent itself. -/
theorem own_message_accepted :
    ∃ taken final, Run (Step transparent nextKey) (init sampleKey sampleKey) taken final ∧
      ¬ Authentic final := by
  have replays : (replay [.send .first [1, 2] [], .deliver .first .first 0]).any (fun (_, final) =>
      decide ((final .first).accepted = [[1, 2]] ∧ (final .second).messages = [])) = true := by
    decide +kernel
  obtain ⟨⟨taken, final⟩, replayed, checks⟩ := (Option.any_eq_true _ _).mp replays
  obtain ⟨accepted, nothingSent⟩ := of_decide_eq_true checks
  refine ⟨taken, final, Run.of_replay (fun _ _ _ executed => executed) .nil replayed, ?_⟩
  intro authentic
  have isPrefix := authentic .first
  rw [accepted, show Party.first.other = .second from rfl, nothingSent] at isPrefix
  cases List.prefix_nil.mp isPrefix

end Channel

end Decentagram.DecentEnclave.AesGcm
