import Decentagram.Ethereum.Handoff

/-! # From the past events to the messages

A client is first answered with a copy of the past events and then gets what its own listener has put
into the queue.  Each event of a validated block is to be in one of the two.  The listener of the client is
there before the copy is made; but the plan of the block that is being appended may be older than the
listener, and the copy may be older than the calls of this plan.
-/

namespace Decentagram.EthereumClt

open Decentagram.Lib
open Decentagram.Eth

variable {κ ι : Type}

namespace Handoff

def Action.isPlan : Action κ → Bool
  | .plan _ => true
  | _ => false

def Action.isRespond : Action κ → Bool
  | .respond => true
  | _ => false

section Delivery

variable (codec : HeaderCodec) (subscription : Subscription ι)

/-- The events of the block are past events, those in the response once there is one, or events in the
    queue or the messages of the client. -/
def Reaches (handoff : Handoff κ ι) (block : ChainBlock) : Prop :=
  (savedItems subscription block).Sublist ((handoff.response.getD handoff.pastEvents).map .ok) ∨
    (savedItems subscription block).Sublist ((handoff.received .client).map .ok)

/-- A plan for a block with events knows one of the two listeners; no exception ends `AppendBlock` before
    the events of its block are kept; the past events of a block that was planned before the client
    listened are copied when they are complete, and are not changed while they are copied. -/
structure Uninterrupted (handoff : Handoff κ ι) (action : Action κ) : Prop where
  hears : action.isPlan = true → ∀ appending ∈ handoff.appending,
    savedItems subscription appending.block = [] ∨
      (handoff.listenIds .past).isSome ∨ (handoff.listenIds .client).isSome
  finishes : handoff.throws subscription action = true → ∀ appending ∈ handoff.appending,
    Reaches subscription handoff appending.block
  responds : action.isRespond = true → handoff.validated.length ≤ handoff.unseen .client →
    handoff.pending subscription .past = []
  apart : handoff.overlaps subscription action = false

/-- The blocks whose `AppendBlock` has ended. -/
def finished (handoff : Handoff κ ι) : List ChainBlock :=
  match handoff.appending with
  | none => handoff.validated
  | some _ => handoff.validated.dropLast

/-- The listener was there when the last block was planned. -/
def hasPlanned (role : Role) (handoff : Handoff κ ι) : Prop :=
  (handoff.listenIds role).isSome ∧ handoff.unseen role < handoff.validated.length

structure Delivering (handoff : Handoff κ ι) : Prop where
  wellFormed : WellFormed codec subscription handoff
  defined : handoff.undefined = false
  reached : handoff.closed = false → ∀ block ∈ handoff.finished, Reaches subscription handoff block
  owed : ∀ role, handoff.hasPlanned role → ∀ appending ∈ handoff.appending,
    savedItems subscription appending.block <:+ handoff.account subscription role
  covered : handoff.closed = false → ∀ block calls, handoff.appending = some { block, calls := some calls } →
    Reaches subscription handoff block ∨ (handoff.response = none ∧ handoff.hasPlanned .past) ∨
      handoff.hasPlanned .client

end Delivery

variable {codec : HeaderCodec} {subscription : Subscription ι} {handoff : Handoff κ ι}

instance (block : ChainBlock) [DecidableEq ι] : Decidable (Reaches subscription handoff block) :=
  inferInstanceAs (Decidable (_ ∨ _))

instance (action : Action κ) [DecidableEq ι] : Decidable (Uninterrupted subscription handoff action) :=
  decidable_of_iff
    ((action.isPlan = true → ∀ appending ∈ handoff.appending,
        savedItems subscription appending.block = [] ∨
          (handoff.listenIds .past).isSome ∨ (handoff.listenIds .client).isSome) ∧
      (handoff.throws subscription action = true → ∀ appending ∈ handoff.appending,
        Reaches subscription handoff appending.block) ∧
      (action.isRespond = true → handoff.validated.length ≤ handoff.unseen .client →
        handoff.pending subscription .past = []) ∧
      handoff.overlaps subscription action = false)
    ⟨fun ⟨hears, finishes, responds, apart⟩ => ⟨hears, finishes, responds, apart⟩,
      fun ⟨hears, finishes, responds, apart⟩ => ⟨hears, finishes, responds, apart⟩⟩

theorem Delivering.init : Delivering codec subscription (init : Handoff κ ι) where
  wellFormed := .init
  defined := rfl
  reached _ := nofun
  owed _ _ := nofun
  covered _ _ _ := nofun

/-- What has reached the client stays with it. -/
theorem Reaches.step {block : ChainBlock} {action : Action κ} {after : Handoff κ ι}
    (reaches : Reaches subscription handoff block) (wellFormed : WellFormed codec subscription handoff)
    (effect : Effect codec subscription handoff action after) (notClosed : after.closed = false) :
    Reaches subscription after block := by
  cases reaches with
  | inl past =>
    left
    rcases effect.response with same | ⟨-, copying, responds⟩
    · rw [same]
      cases responded : handoff.response with
      | none =>
        rw [responded] at past
        exact past.trans (effect.pastEvents.sublist.map _)
      | some response =>
        rw [responded] at past
        exact past
    · rw [wellFormed.copies copying] at past
      rw [responds]
      exact past
  | inr client =>
    right
    have goesOn : action ≠ .emitThrows := by
      rintro rfl
      rw [effect.closed, Action.closes, Bool.or_true] at notClosed
      cases notClosed
    exact client.trans ((effect.received goesOn).sublist.map _)

theorem Effect.closed_before {action : Action κ} {after : Handoff κ ι}
    (effect : Effect codec subscription handoff action after) (notClosed : after.closed = false) :
    handoff.closed = false := by
  rw [effect.closed, Bool.or_eq_false_iff] at notClosed
  exact notClosed.1

/-- When the last call of a plan is made, all that is owed is received. -/
theorem Reaches.of_owed {role : Role} {block : ChainBlock}
    (owed : savedItems subscription block <:+ handoff.account subscription role)
    (nothingPending : handoff.pending subscription role = [])
    (notCopied : role = .past → handoff.response = none) : Reaches subscription handoff block := by
  rw [account, nothingPending, List.append_nil] at owed
  cases role with
  | past =>
    left
    rw [notCopied rfl]
    exact owed.sublist
  | client => exact .inr owed.sublist

theorem Delivering.reached_finish (delivering : Delivering codec subscription handoff)
    (notClosed : handoff.closed = false) {block : ChainBlock}
    (appending : handoff.appending = some { block, calls := some [] }) :
    Reaches subscription handoff block := by
  have nothingPending : ∀ role, handoff.pending subscription role = [] := by
    intro role
    rw [pending, appending]
    rfl
  rcases delivering.covered notClosed block [] appending with reaches | ⟨notCopied, planned⟩ | planned
  · exact reaches
  · exact .of_owed (delivering.owed .past planned _ appending) (nothingPending .past) fun _ => notCopied
  · apply Reaches.of_owed (delivering.owed .client planned _ appending) (nothingPending .client)
    intro isPast
    cases isPast

/-- A block ends with all its calls made, or with an exception that comes too late to matter. -/
theorem Delivering.reached_step {action : Action κ} {after : Handoff κ ι}
    (delivering : Delivering codec subscription handoff)
    (uninterrupted : Uninterrupted subscription handoff action)
    (stepped : Step codec subscription handoff action after) (notClosed : after.closed = false)
    (block : ChainBlock) (isFinished : block ∈ after.finished) : Reaches subscription after block := by
  have effect := step_effect stepped.2
  have notClosed' := effect.closed_before notClosed
  suffices reaches : Reaches subscription handoff block from
    reaches.step delivering.wellFormed effect notClosed
  have earlier : block ∈ handoff.finished → Reaches subscription handoff block :=
    delivering.reached notClosed' block
  have validated := effect.validated
  -- nothing changes, a block enters, one is planned, one event is called, or the block is finished
  rcases appending_step stepped.2 with ⟨same, noBlock, -⟩ | ⟨block', rfl, free, appending⟩ |
    ⟨block', answer, calls, rfl, appending, -, appending'⟩ |
    ⟨block', calls, calls', otherThrows, rfl, appending, -, appending'⟩ |
    ⟨last, appending, noBlock, ended, ending⟩
  · rw [noBlock, List.append_nil] at validated
    rw [finished, same, validated] at isFinished
    exact earlier isFinished
  · rw [finished, appending, validated] at isFinished
    refine earlier ?_
    rw [finished, free]
    simpa [Action.validates] using isFinished
  · refine earlier ?_
    rw [finished, appending', validated] at isFinished
    rw [finished, appending]
    simpa [Action.validates] using isFinished
  · refine earlier ?_
    rw [finished, appending', validated] at isFinished
    rw [finished, appending]
    simpa [Action.validates] using isFinished
  · obtain ⟨front, split, -⟩ := delivering.wellFormed.appended last appending
    rw [noBlock, List.append_nil] at validated
    rw [finished, ended, validated, split] at isFinished
    cases List.mem_append.mp isFinished with
    | inl inFront =>
      refine earlier ?_
      rw [finished, appending, split]
      simpa using inFront
    | inr isLast =>
      rw [List.mem_singleton.mp isLast]
      -- a block is finished by its last call or by a throw, which this run has none of
      rcases ending with thrown | ⟨-, allCalled⟩
      · exact uninterrupted.finishes thrown last appending
      · obtain ⟨block', calls⟩ := last
        cases allCalled
        exact delivering.reached_finish notClosed' appending

theorem hasPlanned_step {role : Role} {action : Action κ} {after : Handoff κ ι}
    (planned : handoff.hasPlanned role) (effect : Effect codec subscription handoff action after)
    (noBlock : action.validates = []) (notClosed : after.closed = false) : after.hasPlanned role := by
  have validated := effect.validated
  rw [noBlock, List.append_nil] at validated
  rcases effect.listener role with ⟨sameListener, sameUnseen, -⟩ | ⟨id, -, absent, -⟩ | ⟨rfl, -, -⟩
  · rw [hasPlanned, sameListener, sameUnseen, validated]
    exact planned
  · rw [hasPlanned, absent] at planned
    cases planned.1
  · rw [effect.closed, Action.closes, Bool.or_true] at notClosed
    cases notClosed

/-- The blocks planned since a listener is there are saved by it, in order and completely. -/
theorem Delivering.owed_step {action : Action κ} {after : Handoff κ ι}
    (delivering : Delivering codec subscription handoff)
    (stepped : Step codec subscription handoff action after) (role : Role)
    (planned : after.hasPlanned role) (appending' : Appending κ)
    (isAppending : appending' ∈ after.appending) :
    savedItems subscription appending'.block <:+ after.account subscription role := by
  have effect := step_effect stepped.2
  have validated := effect.validated
  rcases effect.listener role with ⟨sameListener, sameUnseen, -⟩ | ⟨id, rfl, -, rfl⟩ | ⟨-, -, gone⟩
  · -- the account only grows, by what is to be saved of a new block
    have account : handoff.throws subscription action = false →
        after.account subscription role =
          handoff.account subscription role ++ handoff.added subscription role action := by
      intro returned
      refine account_step delivering.wellFormed stepped sameListener fun thrown => ?_
      rw [returned] at thrown
      cases thrown
    have keep : ∀ appending, handoff.appending = some appending → action.validates = [] →
        handoff.added subscription role action = [] → handoff.throws subscription action = false →
        savedItems subscription appending.block <:+ after.account subscription role := by
      intro appending isBefore noBlock nothing returned
      rw [noBlock, List.append_nil] at validated
      rw [hasPlanned, sameListener, sameUnseen, validated] at planned
      rw [account returned, nothing, List.append_nil]
      exact delivering.owed role planned appending isBefore
    rcases appending_step stepped.2 with ⟨same, noBlock, returned⟩ | ⟨block, rfl, -, appending⟩ |
      ⟨block, answer, calls, rfl, appending, returned, after'⟩ |
      ⟨block, calls, calls', otherThrows, rfl, appending, returned, after'⟩ | ⟨last, -, -, ended, -⟩
    · have nothing : handoff.added subscription role action = [] := by
        cases action with
        | validate block => cases noBlock
        | _ => rfl
      exact keep appending' (same ▸ isAppending) noBlock nothing returned
    · -- the new block itself
      rw [appending] at isAppending
      cases isAppending
      have listens : (handoff.listenIds role).isSome := sameListener ▸ planned.1
      rw [account rfl, added, if_pos listens]
      exact List.suffix_append ..
    · rw [after'] at isAppending
      cases isAppending
      have kept := keep _ appending rfl rfl returned
      exact kept
    · rw [after'] at isAppending
      cases isAppending
      have kept := keep _ appending rfl rfl returned
      exact kept
    · rw [ended] at isAppending
      cases isAppending
  · -- a listener that comes before the plan is in the plan
    have unplanned : handoff.plannedBlocks < handoff.validated.length := by
      simpa [listen] using planned.2
    have isBefore : handoff.appending = some appending' := isAppending
    obtain ⟨block, calls⟩ := appending'
    cases calls with
    | some calls => simp [plannedBlocks, isBefore] at unplanned
    | none =>
      have pends : (handoff.listen codec subscription role id).pending subscription role =
          savedItems subscription block := by
        simp [pending, listen, isBefore]
      rw [account, pends]
      exact List.suffix_append ..
  · rw [hasPlanned, gone] at planned
    cases planned.1

/-- Each block with events has a listener that keeps them until the client gets them. -/
theorem Delivering.covered_step {action : Action κ} {after : Handoff κ ι}
    (delivering : Delivering codec subscription handoff)
    (uninterrupted : Uninterrupted subscription handoff action)
    (stepped : Step codec subscription handoff action after) (notClosed : after.closed = false)
    (block : ChainBlock) (calls : List (HandoffCall κ))
    (isAppending : after.appending = some { block, calls := some calls }) :
    Reaches subscription after block ∨ (after.response = none ∧ after.hasPlanned .past) ∨
      after.hasPlanned .client := by
  have effect := step_effect stepped.2
  have notClosed' := effect.closed_before notClosed
  have wellFormed := delivering.wellFormed
  have keep : ∀ calls, handoff.appending = some { block, calls := some calls } → action.validates = [] →
      Reaches subscription after block ∨ (after.response = none ∧ after.hasPlanned .past) ∨
        after.hasPlanned .client := by
    intro calls appending noBlock
    rcases delivering.covered notClosed' block calls appending with
      reaches | ⟨notCopied, planned⟩ | planned
    · exact .inl (reaches.step wellFormed effect notClosed)
    · rcases effect.response with same | ⟨rfl, copying, -⟩
      · exact .inr (.inl ⟨same.trans notCopied, hasPlanned_step planned effect noBlock notClosed⟩)
      · -- the copy that is made now has all or the client's own listener has its calls in the plan
        have listens : (handoff.listenIds .client).isSome := by
          cases wellFormed.answered (.inl copying) with
          | inl listens => exact listens
          | inr closed =>
            rw [notClosed'] at closed
            cases closed
        by_cases late : handoff.validated.length ≤ handoff.unseen .client
        · have nothingPending := uninterrupted.responds rfl late
          have reaches := Reaches.of_owed (delivering.owed .past planned _ appending) nothingPending
            fun _ => notCopied
          exact .inl (reaches.step wellFormed effect notClosed)
        · exact .inr (.inr (hasPlanned_step ⟨listens, Nat.lt_of_not_le late⟩ effect noBlock notClosed))
    · exact .inr (.inr (hasPlanned_step planned effect noBlock notClosed))
  rcases appending_step stepped.2 with ⟨same, noBlock, -⟩ | ⟨block', rfl, -, appending⟩ |
    ⟨block', answer, calls', rfl, appending, -, after'⟩ |
    ⟨block', calls', calls'', otherThrows, rfl, appending, -, after'⟩ | ⟨last, -, -, ended, -⟩
  · exact keep calls (same.symm.trans isAppending) noBlock
  · rw [appending] at isAppending
    cases isAppending
  · rw [after'] at isAppending
    cases isAppending
    -- a plan knows the listeners that are there
    have planned : ∀ role, (handoff.listenIds role).isSome → handoff.hasPlanned role := by
      intro role listens
      obtain ⟨front, split, -⟩ := wellFormed.appended _ appending
      have unseen := wellFormed.unseen role
      rw [plannedBlocks, appending] at unseen
      refine ⟨listens, Nat.lt_of_le_of_lt unseen ?_⟩
      simp [split]
    rcases uninterrupted.hears rfl _ appending with noEvents | listens | listens
    · left
      left
      rw [noEvents]
      exact List.nil_sublist _
    · cases copied : after.response with
      | none =>
        exact .inr (.inl ⟨rfl, hasPlanned_step (planned .past listens) effect rfl notClosed⟩)
      | some response =>
        rcases effect.response with same | ⟨impossible, -, -⟩
        · have responded : handoff.response.isSome := by
            rw [← same, copied]
            rfl
          cases wellFormed.answered (.inr responded) with
          | inl listens => exact .inr (.inr (hasPlanned_step (planned .client listens) effect rfl notClosed))
          | inr closed =>
            rw [notClosed'] at closed
            cases closed
        · cases impossible
    · exact .inr (.inr (hasPlanned_step (planned .client listens) effect rfl notClosed))
  · rw [after'] at isAppending
    cases isAppending
    exact keep calls' appending rfl
  · rw [ended] at isAppending
    cases isAppending

theorem Delivering.step {action : Action κ} {after : Handoff κ ι}
    (delivering : Delivering codec subscription handoff)
    (uninterrupted : Uninterrupted subscription handoff action)
    (stepped : Step codec subscription handoff action after) : Delivering codec subscription after where
  wellFormed := delivering.wellFormed.step stepped
  defined := by
    rw [(step_effect stepped.2).undefined, delivering.defined, uninterrupted.apart]
    rfl
  reached := delivering.reached_step uninterrupted stepped
  owed := delivering.owed_step stepped
  covered := delivering.covered_step uninterrupted stepped

end Handoff

end Decentagram.EthereumClt
