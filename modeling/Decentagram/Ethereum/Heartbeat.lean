import Decentagram.Ethereum.Handoff

/-! # What the number of a heartbeat message promises

The emitter takes the queue first and reads the number of the last validated block after that, when no
`AppendBlock` is running.  A block that is appended in between is counted by the number, but its events
are left for the next message.
-/

namespace Decentagram.EthereumClt

open Decentagram.Lib
open Decentagram.Eth

variable {κ ι : Type}

namespace Handoff

def Action.isEmit : Action κ → Bool
  | .emit => true
  | _ => false

theorem Action.eq_of_isEmit {action : Action κ} (isEmit : action.isEmit = true) : action = .emit := by
  cases action with
  | emit => rfl
  | _ => cases isEmit

section Promise

variable (subscription : Subscription ι)

/-- What a receiver expects to have with this number: the matching logs of the blocks up to it. -/
def dueItems (validated : List ChainBlock) (latestBlkNum : Bytes) : List (Except Exception ι) :=
  match (fromBytes latestBlkNum : Except Exception BlockNumber) with
  | .ok number =>
    (validated.filter fun block => block.header.blkNum ≤ number).flatMap (savedItems subscription)
  | .error _ => []

/-- The message and the earlier ones of the subscription have all that its number promises. -/
def IsComplete (earlier : List (HeartbeatMsg ι)) (message : HeartbeatMsg ι) : Prop :=
  (dueItems subscription message.validated message.latestBlkNum).Sublist
    (((earlier ++ [message]).flatMap HeartbeatMsg.events).map .ok)

/-- Every message that was sent is complete. -/
def KeepsPromises (handoff : Handoff κ ι) : Prop :=
  handoff.undefined = false ∧ ∀ earlier message later,
    handoff.sent = earlier ++ message :: later → IsComplete subscription earlier message

/-- No exception ends `AppendBlock` before the events of its block are in the queue, no event has come
    into the queue between its swap and the reading of the number, and past events are not changed
    while they are copied. -/
structure Undisturbed (handoff : Handoff κ ι) (action : Action κ) : Prop where
  finishes : handoff.throws subscription action = true →
    handoff.pending subscription .client = [] ∨ handoff.validated.length ≤ handoff.before
  emits : action = .emit → handoff.eventQueue = [] ∨
    dueItems subscription (handoff.validated.drop handoff.before) handoff.lastValidatedBlkNum = []
  apart : handoff.overlaps subscription action = false

end Promise

variable {codec : HeaderCodec} {subscription : Subscription ι} {handoff : Handoff κ ι}

instance (action : Action κ) : Decidable (Undisturbed subscription handoff action) :=
  decidable_of_iff
    ((handoff.throws subscription action = true →
        handoff.pending subscription .client = [] ∨ handoff.validated.length ≤ handoff.before) ∧
      (action.isEmit = true → handoff.eventQueue = [] ∨
        dueItems subscription (handoff.validated.drop handoff.before) handoff.lastValidatedBlkNum = []) ∧
      handoff.overlaps subscription action = false)
    ⟨fun ⟨finishes, emits, apart⟩ => ⟨finishes, fun isEmit => emits (isEmit ▸ rfl), apart⟩,
      fun undisturbed => ⟨undisturbed.finishes,
        fun isEmit => undisturbed.emits (Action.eq_of_isEmit isEmit), undisturbed.apart⟩⟩

theorem dueItems_sublist (validated : List ChainBlock) (latestBlkNum : Bytes) :
    (dueItems subscription validated latestBlkNum).Sublist
      (validated.flatMap (savedItems subscription)) := by
  rw [dueItems]
  split
  · exact List.filter_sublist.flatMap _
  · exact List.nil_sublist _

variable (codec subscription) in
/-- All events since the subscription are at the end of what is saved and is still to be saved. -/
structure Promising (handoff : Handoff κ ι) : Prop where
  wellFormed : WellFormed codec subscription handoff
  keepsPromises : KeepsPromises subscription handoff
  saved : (handoff.listenIds .client).isSome →
    (handoff.validated.drop handoff.before).flatMap (savedItems subscription) <:+
      handoff.account subscription .client

theorem Promising.init : Promising codec subscription (init : Handoff κ ι) where
  wellFormed := .init
  keepsPromises := by
    refine ⟨rfl, fun earlier message later none => ?_⟩
    cases earlier <;> cases none
  saved := nofun

theorem Promising.saved_step {action : Action κ} {after : Handoff κ ι}
    (promising : Promising codec subscription handoff) (undisturbed : Undisturbed subscription handoff action)
    (stepped : Step codec subscription handoff action after)
    (listens : (after.listenIds .client).isSome) :
    (after.validated.drop after.before).flatMap (savedItems subscription) <:+
      after.account subscription .client := by
  have effect := step_effect stepped.2
  rcases effect.listener .client with ⟨sameListener, -, before⟩ | ⟨id, -, -, rfl⟩ | ⟨-, -, gone⟩
  · rw [sameListener] at listens
    rw [before rfl, effect.validated]
    by_cases started : handoff.validated.length ≤ handoff.before ∧ action.validates = []
    · -- no block was validated since the subscription
      rw [started.2, List.append_nil, List.drop_eq_nil_of_le started.1]
      exact List.nil_suffix
    · have goesOn : handoff.throws subscription action = true →
          handoff.pending subscription .client = [] := by
        intro thrown
        cases undisturbed.finishes thrown with
        | inl nothing => exact nothing
        | inr early =>
          cases action with
          | plan answer => exact absurd ⟨early, rfl⟩ started
          | call otherThrows => exact absurd ⟨early, rfl⟩ started
          | _ => cases thrown
      rw [account_step promising.wellFormed stepped sameListener goesOn,
        List.drop_append_of_le_length promising.wellFormed.before, List.flatMap_append]
      have added : action.validates.flatMap (savedItems subscription) =
          handoff.added subscription .client action := by
        cases action with
        | validate block =>
          rw [added, if_pos listens]
          exact List.flatMap_singleton ..
        | _ => rfl
      rw [added]
      obtain ⟨rest, split⟩ := promising.saved listens
      exact ⟨rest, by rw [← List.append_assoc, split]⟩
  · -- the subscription starts with this section
    show (handoff.validated.drop handoff.validated.length).flatMap (savedItems subscription) <:+ _
    rw [List.drop_length]
    exact List.nil_suffix
  · rw [gone] at listens
    cases listens

theorem Promising.step {action : Action κ} {after : Handoff κ ι}
    (promising : Promising codec subscription handoff) (undisturbed : Undisturbed subscription handoff action)
    (stepped : Step codec subscription handoff action after) : Promising codec subscription after where
  wellFormed := promising.wellFormed.step stepped
  saved := promising.saved_step undisturbed stepped
  keepsPromises := by
    have effect := step_effect stepped.2
    obtain ⟨defined, complete⟩ := promising.keepsPromises
    refine ⟨by rw [effect.undefined, defined, undisturbed.apart]; rfl, ?_⟩
    rcases effect.sent with same | ⟨events, rfl, taken, free, sent⟩
    · rw [same]
      exact complete
    · rw [sent]
      intro earlier message later split
      rcases List.eq_nil_or_concat later with rfl | ⟨front, last, rfl⟩
      · obtain ⟨rfl, same⟩ := List.append_inj' split rfl
        cases same
        cases undisturbed.emits rfl with
        | inl empty =>
          -- all that is saved is in this message or in earlier ones
          have listens := promising.wellFormed.held (Option.isSome_of_eq_some taken)
          have saved := promising.saved listens
          have nothing : handoff.pending subscription .client = [] := by
            rw [pending, free]
          rw [account, nothing, List.append_nil, received, taken, empty] at saved
          refine (dueItems_sublist _ _).trans (saved.sublist.trans ?_)
          simp
        | inr noneDue =>
          rw [IsComplete, noneDue]
          exact List.nil_sublist _
      · rw [List.concat_eq_append, ← List.cons_append, ← List.append_assoc] at split
        obtain ⟨same, -⟩ := List.append_inj' split rfl
        exact complete earlier message front same

end Handoff

end Decentagram.EthereumClt
