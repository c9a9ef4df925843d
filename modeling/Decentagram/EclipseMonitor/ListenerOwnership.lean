import Decentagram.EclipseMonitor.EventDelivery
import Decentagram.EclipseMonitor.SyncMsgMgr
import Decentagram.Lib.Registry
import Decentagram.Lib.Run

/-! # Who removes a listener

The event manager locks for `Listen`, for `Cancel` and for the plan of `CheckEvents`, and between two
locks of one thread any other thread may run.  The allocator may give a new description the address of
one that was freed.
-/

namespace Decentagram.Eth

open Decentagram.Lib

/-- A call of a plan, with the registration it was planned for. -/
structure PlannedCall (κ : Type) where
  token : Nat
  id : EventCallbackId
  callback : NotifyCallback κ
  log : ReceiptLogEntry

/-- A `CheckEvents` after its plan is made. -/
structure CheckThread (κ : Type) where
  header : HeaderMgr
  called : List (PlannedCall κ)
  rest : List (PlannedCall κ)

structure Threads (κ ω : Type) where
  shared : Shared κ ω
  registry : Registry EventCallbackId (EventDescription (NotifyCallback κ))
  running : List (CheckThread κ)
  /-- The registrations of other listeners, with the identifiers that their holders have. -/
  held : List (Nat × EventCallbackId)
  /-- The registration that `m_syncEventCallbackId` was returned for. -/
  syncToken : Nat
  /-- `NewSyncState` has cancelled the old listener. -/
  refreshing : Bool

inductive ListenerAction (κ : Type) where
  | listen (id : EventCallbackId) (contractAddr : ContractAddr) (topics : List EventTopic) (callback : κ)
  | cancel (token : Nat) (id : EventCallbackId)
  | checkEvents (header : HeaderMgr) (receiptsMgrGetter : BlockNumber → Except Exception ReceiptsMgr)
  | call (thread : Nat)
  | newSyncCancel
  | newSyncListen (id : EventCallbackId) (genTime : TrustedTimestamp) (nonce : SyncNonce)
  | newSyncThrow

namespace Threads

variable {κ ω : Type} (codec : HeaderCodec)

def listen (id : EventCallbackId) (desc : EventDescription (NotifyCallback κ)) (threads : Threads κ ω) :
    Threads κ ω :=
  { threads with
    shared := { threads.shared with eventManager := threads.shared.eventManager.listen id desc }
    registry := threads.registry.register id desc }

/-- `Cancel`, by the holder of a registration. -/
def cancel (token : Nat) (id : EventCallbackId) (threads : Threads κ ω) : Threads κ ω :=
  { threads with
    shared := { threads.shared with eventManager := threads.shared.eventManager.cancel id }
    registry := threads.registry.release threads.shared.eventManager.eventDescMap token id }

/-- The calls that `CheckEvents` plans, none if it throws. -/
def planned (header : HeaderMgr) (receiptsMgrGetter : BlockNumber → Except Exception ReceiptsMgr)
    (threads : Threads κ ω) : List (PlannedCall κ) :=
  match threads.shared.eventManager.callbackPlans header receiptsMgrGetter with
  | .ok plans => (EventManager.planCalls plans).map fun (id, callback, log) =>
    { token := threads.registry.latest id, id, callback, log }
  | .error _ => []

/-- What a callback does to the listeners: only that of a sync message cancels itself. -/
def perform (header : HeaderMgr) (call : PlannedCall κ) (threads : Threads κ ω) : Threads κ ω :=
  match call.callback with
  | .syncMsg ref =>
    let synced := { threads with
      shared := { threads.shared with
        syncStates := threads.shared.syncStates.modify ref fun state =>
          if state.isSynced then state else state.setSynced header.trustedTime } }
    synced.cancel call.token call.id
  | .listener _ => threads

/-- The second half of `NewSyncState`. -/
def newSyncListen (id : EventCallbackId) (genTime : TrustedTimestamp) (nonce : SyncNonce)
    (threads : Threads κ ω) : Threads κ ω :=
  let ref := threads.shared.syncStates.length
  let state :=
    { maxWaitTime := threads.shared.syncMsgMgr.maxWaitTime, genTime, nonce, isSynced := false }
  let listening := threads.listen id (Shared.syncEventDesc codec threads.shared.syncMsgMgr ref state)
  { listening with
    shared := { listening.shared with
      syncStates := listening.shared.syncStates ++ [state]
      syncMsgMgr := { listening.shared.syncMsgMgr with lastSyncState := ref, syncEventCallbackId := id } }
    syncToken := threads.registry.registrations.length
    refreshing := false }

/-- One step of one thread.  The allocator gives an address that no description has now. -/
def step (threads : Threads κ ω) : ListenerAction κ → Option (Threads κ ω)
  | .listen id contractAddr topics callback =>
    if id ∈ threads.shared.eventManager.eventDescMap then
      none
    else
      let token := threads.registry.registrations.length
      let listening := threads.listen id (.build codec contractAddr topics (.listener callback))
      some { listening with held := (token, id) :: threads.held }
  | .cancel token id =>
    if (token, id) ∈ threads.held then
      some { threads.cancel token id with held := threads.held.erase (token, id) }
    else
      none
  | .checkEvents header receiptsMgrGetter =>
    some { threads with
      running := threads.running ++
        [{ header, called := [], rest := threads.planned header receiptsMgrGetter }] }
  | .call thread =>
    match threads.running[thread]? with
    | some { header, called, rest := call :: rest } =>
      some { threads.perform header call with
        running := threads.running.set thread { header, called := called ++ [call], rest } }
    | _ => none
  | .newSyncCancel =>
    if threads.refreshing then
      none
    else
      some { threads.cancel threads.syncToken threads.shared.syncMsgMgr.syncEventCallbackId with
        refreshing := true }
  | .newSyncListen id genTime nonce =>
    if threads.refreshing ∧ id ∉ threads.shared.eventManager.eventDescMap then
      some (threads.newSyncListen codec id genTime nonce)
    else
      none
  | .newSyncThrow => if threads.refreshing then some { threads with refreshing := false } else none

/-- After the constructor: the listener for the first sync message. -/
def init (id : EventCallbackId) (ref : SyncStateRef) (state : SyncState) (shared : Shared κ ω) :
    Threads κ ω :=
  let desc := Shared.syncEventDesc codec shared.syncMsgMgr ref state
  { shared := { shared with
      eventManager := EventManager.init.listen id desc
      syncMsgMgr := { shared.syncMsgMgr with syncEventCallbackId := id } }
    registry := .init id desc
    running := []
    held := []
    syncToken := 0
    refreshing := false }

def Step (before : Threads κ ω) (action : ListenerAction κ) (after : Threads κ ω) : Prop :=
  before.step codec action = some after

/-- The two halves without another thread between them are `NewSyncState`. -/
theorem newSyncState_halves {ε : Type} {readings : Readings ε} {threads : Threads κ ω}
    {shared : Shared κ ω} {genTime : TrustedTimestamp} {nonce : SyncNonce}
    (reads : readings.genTime = .ok genTime) (random : readings.nonce = .ok nonce)
    (idle : threads.refreshing = false)
    (fresh : readings.listenId ∉ (threads.shared.eventManager.cancel
      threads.shared.syncMsgMgr.syncEventCallbackId).eventDescMap)
    (returned : Shared.newSyncState codec readings threads.shared = .ok () shared) :
    ∃ middle after, Step codec threads .newSyncCancel middle ∧
      Step codec middle (.newSyncListen readings.listenId genTime nonce) after ∧
      after.shared = shared := by
  simp only [Shared.newSyncState, reads, random, Exec.ofExcept, Exec.bind_apply, Exec.modify_apply,
    Exec.pure_apply, Outcome.andThen_ok] at returned
  cases returned
  refine ⟨_, _, if_neg (by simp [idle]), if_pos ⟨rfl, fresh⟩, rfl⟩

/-! ## Whose listener a step removes -/

def isSyncMsg (callback : NotifyCallback κ) : Bool :=
  match callback with
  | .syncMsg _ => true
  | .listener _ => false

/-- No thread still has to call the sync callback for this address. -/
def NoPending (id : EventCallbackId) (threads : Threads κ ω) : Prop :=
  ∀ thread ∈ threads.running, ∀ call ∈ thread.rest, isSyncMsg call.callback = true → call.id ≠ id

/-- The allocator gives no address that somebody still wants to cancel: not the one that the sync message
    manager remembers, unless it is about to be replaced, and not one in a plan. -/
def AvoidsReuse (threads : Threads κ ω) : ListenerAction κ → Prop
  | .listen id _ _ _ =>
    (id = threads.shared.syncMsgMgr.syncEventCallbackId → threads.refreshing = true) ∧
      threads.NoPending id
  | .newSyncListen id _ _ => threads.NoPending id
  | .newSyncThrow =>
    threads.shared.syncMsgMgr.syncEventCallbackId ∉ threads.shared.eventManager.eventDescMap
  | _ => True

instance (id : EventCallbackId) (threads : Threads κ ω) : Decidable (threads.NoPending id) :=
  inferInstanceAs (Decidable (∀ thread ∈ threads.running, ∀ call ∈ thread.rest,
    isSyncMsg call.callback = true → call.id ≠ id))

instance (threads : Threads κ ω) (action : ListenerAction κ) : Decidable (AvoidsReuse threads action) :=
  match action with
  | .listen id _ _ _ => inferInstanceAs (Decidable
      ((id = threads.shared.syncMsgMgr.syncEventCallbackId → threads.refreshing = true) ∧
        threads.NoPending id))
  | .newSyncListen id _ _ => inferInstanceAs (Decidable (threads.NoPending id))
  | .newSyncThrow => inferInstanceAs (Decidable
      (threads.shared.syncMsgMgr.syncEventCallbackId ∉ threads.shared.eventManager.eventDescMap))
  | .cancel _ _ => isTrue trivial
  | .checkEvents _ _ => isTrue trivial
  | .call _ => isTrue trivial
  | .newSyncCancel => isTrue trivial

/-- Every removal hits the registration of the one who cancels, every listener that its holder did not
    cancel is there, and every check calls each of these for its log entries, once each and in order. -/
structure OwnersOnly (taken : List (Threads κ ω × ListenerAction κ)) (threads : Threads κ ω) : Prop where
  ownRemovals : ∀ removal ∈ threads.registry.removals, removal.2 = removal.1
  installed : ∀ token id desc, threads.registry.registrations[token]? = some (id, desc) →
    token ∉ threads.registry.released →
      threads.shared.eventManager.eventDescMap.lookup id = some desc
  receives : ∀ before header receiptsMgrGetter receiptsMgr,
    (before, .checkEvents header receiptsMgrGetter) ∈ taken →
    receiptsMgrGetter header.blkNum = .ok receiptsMgr →
    receiptsMgr.rootHashBytes = header.rawHeader.receiptsRoot →
    header.rawHeader.logsBloom = consensusBloom codec receiptsMgr.logEntries →
    ∃ thread ∈ threads.running, thread.header = header ∧
      ∀ token id desc, before.registry.registrations[token]? = some (id, desc) →
        token ∉ before.registry.released →
        (thread.called ++ thread.rest).filter (fun call => call.token = token) =
          (matchingLogs receiptsMgr desc).map fun log =>
            { token, id, callback := desc.notifyCallback, log }

/-- The registration was given this address, for a sync callback or for another one. -/
def Given (threads : Threads κ ω) (isSync : Bool) (token : Nat) (id : EventCallbackId) : Prop :=
  ∃ desc, threads.registry.registrations[token]? = some (id, desc) ∧
    isSyncMsg desc.notifyCallback = isSync

/-- The holder of the identifier can only hit its own registration. -/
def Holds (threads : Threads κ ω) (token : Nat) (id : EventCallbackId) : Prop :=
  threads.registry.Holds threads.shared.eventManager.eventDescMap token id

structure Sound (threads : Threads κ ω) : Prop where
  registered : EventManager.Registered codec threads.shared.eventManager
  owned : threads.registry.Owned threads.shared.eventManager.eventDescMap
  sync : Given threads true threads.syncToken threads.shared.syncMsgMgr.syncEventCallbackId
  current : threads.refreshing = false →
    Holds threads threads.syncToken threads.shared.syncMsgMgr.syncEventCallbackId
  held : ∀ entry ∈ threads.held,
    entry.1 ∉ threads.registry.released ∧ Given threads false entry.1 entry.2
  distinct : (threads.held.map Prod.fst).Nodup
  pending : ∀ thread ∈ threads.running, ∀ call ∈ thread.rest, isSyncMsg call.callback = true →
    Holds threads call.token call.id ∧ Given threads true call.token call.id

section Rules

variable {codec} {threads : Threads κ ω}

theorem Given.lt_length {isSync : Bool} {token : Nat} {id : EventCallbackId}
    (given : Given threads isSync token id) : token < threads.registry.registrations.length := by
  obtain ⟨desc, registered, -⟩ := given
  exact (List.getElem?_eq_some_iff.mp registered).1

theorem Given.listen {isSync : Bool} {token : Nat} {id : EventCallbackId}
    (given : Given threads isSync token id) (id' : EventCallbackId)
    (desc : EventDescription (NotifyCallback κ)) : Given (threads.listen id' desc) isSync token id := by
  obtain ⟨desc', registered, kind⟩ := given
  refine ⟨desc', ?_, kind⟩
  rw [Threads.listen, Registry.register,
    List.getElem?_append_left (List.getElem?_eq_some_iff.mp registered).1]
  exact registered

theorem Given.kind_eq {isSync isSync' : Bool} {token : Nat} {id id' : EventCallbackId}
    (given : Given threads isSync token id) (given' : Given threads isSync' token id') :
    isSync = isSync' := by
  obtain ⟨desc, registered, rfl⟩ := given
  obtain ⟨desc', registered', rfl⟩ := given'
  cases registered.symm.trans registered'
  rfl

theorem given_listen (id : EventCallbackId) (desc : EventDescription (NotifyCallback κ)) :
    Given (threads.listen id desc) (isSyncMsg desc.notifyCallback)
      threads.registry.registrations.length id :=
  ⟨desc, by simp [Threads.listen, Registry.register], rfl⟩

/-- A new listener, at an address that nobody else wants to cancel. -/
theorem Sound.listen (sound : Sound codec threads) {id : EventCallbackId}
    (fresh : id ∉ threads.shared.eventManager.eventDescMap)
    (notStored : id = threads.shared.syncMsgMgr.syncEventCallbackId → threads.refreshing = true)
    (noPending : threads.NoPending id) (contractAddr : ContractAddr) (topics : List EventTopic)
    (notifyCallback : NotifyCallback κ) :
    Sound codec (threads.listen id (.build codec contractAddr topics notifyCallback)) where
  registered := sound.registered.listen id contractAddr topics notifyCallback
  owned := sound.owned.register fresh _
  sync := sound.sync.listen _ _
  current idle := by
    have other : threads.shared.syncMsgMgr.syncEventCallbackId ≠ id := by
      intro same
      have busy := notStored same.symm
      rw [show threads.refreshing = false from idle] at busy
      cases busy
    exact (sound.current idle).register other _
  held entry member := ⟨(sound.held entry member).1, (sound.held entry member).2.listen _ _⟩
  distinct := sound.distinct
  pending thread member call remaining isSync := by
    obtain ⟨holds, given⟩ := sound.pending thread member call remaining isSync
    have other : call.id ≠ id := noPending thread member call remaining isSync
    exact ⟨holds.register other _, given.listen _ _⟩

/-- A cancellation by the holder, which does not hold the registration any more. -/
theorem Sound.cancel (sound : Sound codec threads) {token : Nat} {id : EventCallbackId}
    (holds : Holds threads token id) {held : List (Nat × EventCallbackId)}
    (sublist : held.Sublist threads.held) (gone : ∀ entry ∈ held, entry.1 ≠ token) :
    Sound codec { threads.cancel token id with held } where
  registered := sound.registered.cancel id
  owned := sound.owned.release holds
  sync := sound.sync
  current idle := (sound.current idle).release token id
  held entry member := by
    obtain ⟨notReleased, given⟩ := sound.held entry (sublist.subset member)
    refine ⟨?_, given⟩
    simp only [Threads.cancel, Registry.release, List.mem_cons, not_or]
    exact ⟨gone entry member, notReleased⟩
  distinct := sound.distinct.sublist (sublist.map Prod.fst)
  pending thread member call remaining isSync := by
    obtain ⟨holds', given⟩ := sound.pending thread member call remaining isSync
    exact ⟨holds'.release token id, given⟩

/-- The sync message manager and the sync callbacks hold no registration of another listener. -/
theorem Sound.cancelSync (sound : Sound codec threads) {token : Nat} {id : EventCallbackId}
    (holds : Holds threads token id) (given : Given threads true token id) :
    Sound codec (threads.cancel token id) := by
  apply sound.cancel holds (List.Sublist.refl _)
  intro entry member same
  have other := (sound.held entry member).2
  rw [same] at other
  cases given.kind_eq other

theorem perform_running (header : HeaderMgr) (call : PlannedCall κ) (threads : Threads κ ω) :
    (threads.perform header call).running = threads.running := by
  rw [Threads.perform]
  split <;> rfl

/-- Threads with fewer calls to make. -/
theorem Sound.withRunning (sound : Sound codec threads) {running : List (CheckThread κ)}
    (fewer : ∀ thread ∈ running, ∀ call ∈ thread.rest, isSyncMsg call.callback = true →
      Holds threads call.token call.id ∧ Given threads true call.token call.id) :
    Sound codec { threads with running } :=
  ⟨sound.registered, sound.owned, sound.sync, sound.current, sound.held, sound.distinct, fewer⟩

theorem Sound.perform (sound : Sound codec threads) (header : HeaderMgr) (call : PlannedCall κ)
    (holds : isSyncMsg call.callback = true →
      Holds threads call.token call.id ∧ Given threads true call.token call.id) :
    Sound codec (threads.perform header call) := by
  rw [Threads.perform]
  cases callback : call.callback with
  | syncMsg ref =>
    obtain ⟨holds, given⟩ := holds (by rw [callback]; rfl)
    have synced : Sound codec { threads with
        shared := { threads.shared with
          syncStates := threads.shared.syncStates.modify ref fun state =>
            if state.isSynced then state else state.setSynced header.trustedTime } } :=
      ⟨sound.registered, sound.owned, sound.sync, sound.current, sound.held, sound.distinct,
        sound.pending⟩
    exact synced.cancelSync holds given
  | listener callback => exact sound

/-- The planned calls are for the registrations that are stored. -/
theorem Sound.planned (sound : Sound codec threads) {header : HeaderMgr}
    {receiptsMgrGetter : BlockNumber → Except Exception ReceiptsMgr} {call : PlannedCall κ}
    (called : call ∈ threads.planned header receiptsMgrGetter) (isSync : isSyncMsg call.callback = true) :
    Holds threads call.token call.id ∧ Given threads true call.token call.id := by
  rw [Threads.planned] at called
  split at called
  next plans planned =>
    obtain ⟨planCall, member, rfl⟩ := List.mem_map.mp called
    rcases EventManager.planCalls_sublist planned with rfl | ⟨receiptsMgr, -, -, isSublist⟩
    · cases member
    · obtain ⟨desc, stored, isCallback, -⟩ :=
        EventManager.mem_expectedCalls (isSublist.subset member)
      have registered := sound.owned.recorded _ desc stored
      refine ⟨⟨by rw [registered]; rfl, fun _ => rfl⟩, desc, registered, ?_⟩
      rw [← isCallback]
      exact isSync
  next => cases called

theorem Sound.step {action : ListenerAction κ} {after : Threads κ ω} (sound : Sound codec threads)
    (avoids : AvoidsReuse threads action) (stepped : Step codec threads action after) :
    Sound codec after := by
  rw [Step] at stepped
  cases action with
  | listen id contractAddr topics callback =>
    rw [Threads.step] at stepped
    split at stepped
    · cases stepped
    next fresh =>
      cases stepped
      have listening := sound.listen fresh avoids.1 avoids.2 contractAddr topics (.listener callback)
      -- the new registration is in no entry that is held
      have isNew : ∀ entry ∈ threads.held, entry.1 ≠ threads.registry.registrations.length :=
        fun entry member => Nat.ne_of_lt (sound.held entry member).2.lt_length
      refine { listening with held := ?_, distinct := ?_ }
      · intro entry member
        cases member with
        | head => exact ⟨sound.owned.length_notReleased, given_listen id _⟩
        | tail _ member => exact listening.held entry member
      · rw [List.map_cons, List.nodup_cons]
        refine ⟨fun member => ?_, sound.distinct⟩
        obtain ⟨entry, member, same⟩ := List.mem_map.mp member
        exact isNew entry member same
  | cancel token id =>
    rw [Threads.step] at stepped
    split at stepped
    next holder =>
      cases stepped
      obtain ⟨notReleased, desc, registered, -⟩ := sound.held _ holder
      apply sound.cancel (sound.owned.holds registered notReleased) List.erase_sublist
      intro entry member same
      have isOther := (List.Nodup.mem_erase_iff sound.distinct.of_map).mp member
      exact isOther.1 (List.inj_on_of_nodup_map sound.distinct isOther.2 holder same)
    next => cases stepped
  | checkEvents header receiptsMgrGetter =>
    -- the plan of a new check comes from the registrations of this moment
    cases stepped
    apply sound.withRunning
    intro thread member call remaining isSync
    cases List.mem_append.mp member with
    | inl earlier => exact sound.pending thread earlier call remaining isSync
    | inr last =>
      rw [List.mem_singleton.mp last] at remaining
      exact sound.planned remaining isSync
  | call thread =>
    -- what is left of each plan is pending as before
    rw [Threads.step] at stepped
    split at stepped
    next header called call rest running =>
      cases stepped
      have member := List.mem_of_getElem? running
      have performed := sound.perform header call (sound.pending _ member call List.mem_cons_self)
      have pending := performed.pending
      rw [perform_running] at pending
      apply performed.withRunning
      intro other isOther call' remaining isSync
      rcases List.mem_or_eq_of_mem_set isOther with earlier | rfl
      · exact pending other earlier call' remaining isSync
      · exact pending _ member call' (List.mem_cons_of_mem _ remaining) isSync
    next => cases stepped
  | newSyncCancel =>
    rw [Threads.step] at stepped
    split at stepped
    · cases stepped
    next idle =>
      cases stepped
      have cancelled := sound.cancelSync (sound.current (Bool.eq_false_of_not_eq_true idle)) sound.sync
      exact { cancelled with current := nofun }
  | newSyncListen id genTime nonce =>
    rw [Threads.step] at stepped
    split at stepped
    next busy =>
      cases stepped
      have listening := sound.listen busy.2 (fun _ => busy.1) avoids
        threads.shared.syncMsgMgr.syncContractAddr
        [threads.shared.syncMsgMgr.eventSign, Shared.sessionTopic threads.shared.syncMsgMgr.sessId, nonce]
        (.syncMsg threads.shared.syncStates.length)
      exact ⟨listening.registered, listening.owned, given_listen id _,
        fun _ => Registry.holds_register _ _ id _, listening.held, listening.distinct, listening.pending⟩
    next => cases stepped
  | newSyncThrow =>
    -- the old registration is gone from the manager, and the token stays
    rw [Threads.step] at stepped
    split at stepped
    next busy =>
      cases stepped
      obtain ⟨desc, registered, -⟩ := sound.sync
      have holds : Holds threads threads.syncToken threads.shared.syncMsgMgr.syncEventCallbackId :=
        ⟨by rw [registered]; rfl, fun stored => absurd stored avoids⟩
      exact ⟨sound.registered, sound.owned, sound.sync, fun _ => holds, sound.held, sound.distinct,
        sound.pending⟩
    next => cases stepped

/-- The calls for one registration that is not released. -/
theorem Sound.filter_planned (sound : Sound codec threads) {header : HeaderMgr}
    {receiptsMgrGetter : BlockNumber → Except Exception ReceiptsMgr} {receiptsMgr : ReceiptsMgr}
    (gets : receiptsMgrGetter header.blkNum = .ok receiptsMgr)
    (root : receiptsMgr.rootHashBytes = header.rawHeader.receiptsRoot)
    (bloom : header.rawHeader.logsBloom = consensusBloom codec receiptsMgr.logEntries)
    {token : Nat} {id : EventCallbackId} {desc : EventDescription (NotifyCallback κ)}
    (registered : threads.registry.registrations[token]? = some (id, desc))
    (notReleased : token ∉ threads.registry.released) :
    (threads.planned header receiptsMgrGetter).filter (fun call => call.token = token) =
      (matchingLogs receiptsMgr desc).map fun log =>
        { token, id, callback := desc.notifyCallback, log } := by
  obtain ⟨stored, isLatest⟩ := sound.owned.kept token id desc registered notReleased
  obtain ⟨plans, planned, calls⟩ :=
    EventManager.callbackPlans_exact sound.registered gets root bloom
  have sameListener : ∀ call ∈ threads.shared.eventManager.expectedCalls receiptsMgr,
      decide (threads.registry.latest call.1 = token) = decide (call.1 = id) := by
    intro call called
    obtain ⟨desc', stored', -⟩ := EventManager.mem_expectedCalls called
    rw [decide_eq_decide]
    constructor
    · intro same
      have recorded := sound.owned.recorded call.1 desc' stored'
      rw [same, registered] at recorded
      cases recorded
      rfl
    · intro same
      rw [same, isLatest]
  rw [Threads.planned, planned]
  simp only [calls, List.filter_map, Function.comp_def]
  rw [List.filter_congr sameListener, EventManager.filter_expectedCalls stored, List.map_map]
  simp only [Function.comp_def, isLatest]

end Rules

/-! ## Every run -/

/-- The planned calls are made or are still to be made. -/
def Conducted (taken : List (Threads κ ω × ListenerAction κ)) (threads : Threads κ ω) : Prop :=
  ∀ before header receiptsMgrGetter, (before, .checkEvents header receiptsMgrGetter) ∈ taken →
    ∃ thread ∈ threads.running, thread.header = header ∧
      thread.called ++ thread.rest = before.planned header receiptsMgrGetter

variable {codec}

/-- A thread makes its calls in order and forgets none. -/
theorem running_kept {before after : Threads κ ω} {action : ListenerAction κ}
    (stepped : Step codec before action after) {thread : CheckThread κ}
    (member : thread ∈ before.running) :
    ∃ thread' ∈ after.running, thread'.header = thread.header ∧
      thread'.called ++ thread'.rest = thread.called ++ thread.rest := by
  have same : after.running = before.running → ∃ thread' ∈ after.running,
      thread'.header = thread.header ∧
        thread'.called ++ thread'.rest = thread.called ++ thread.rest := by
    intro same
    exact ⟨thread, same ▸ member, rfl, rfl⟩
  rw [Step] at stepped
  cases action with
  | call position =>
    rw [Threads.step] at stepped
    split at stepped
    next header called call rest running =>
      cases stepped
      obtain ⟨position', bound, isThread⟩ := List.getElem_of_mem member
      -- the thread that calls has one call less in its plan and one more behind it
      by_cases isCalled : position' = position
      · subst isCalled
        rw [List.getElem?_eq_getElem bound, isThread] at running
        cases running
        exact ⟨_, List.mem_set bound _, rfl, by simp⟩
      · refine ⟨thread, ?_, rfl, rfl⟩
        apply List.mem_of_getElem? (i := position')
        rw [List.getElem?_set_ne fun same => isCalled same.symm, List.getElem?_eq_getElem bound, isThread]
    next => cases stepped
  | checkEvents header receiptsMgrGetter =>
    cases stepped
    exact ⟨thread, List.mem_append_left _ member, rfl, rfl⟩
  | listen id contractAddr topics callback =>
    rw [Threads.step] at stepped
    split at stepped <;> cases stepped
    exact same rfl
  | cancel token id =>
    rw [Threads.step] at stepped
    split at stepped <;> cases stepped
    exact same rfl
  | newSyncCancel =>
    rw [Threads.step] at stepped
    split at stepped <;> cases stepped
    exact same rfl
  | newSyncListen id genTime nonce =>
    rw [Threads.step] at stepped
    split at stepped <;> cases stepped
    exact same rfl
  | newSyncThrow =>
    rw [Threads.step] at stepped
    split at stepped <;> cases stepped
    exact same rfl

theorem conducted_snoc {taken : List (Threads κ ω × ListenerAction κ)} {before after : Threads κ ω}
    {action : ListenerAction κ} (conducted : Conducted taken before)
    (stepped : Step codec before action after) : Conducted (taken ++ [(before, action)]) after := by
  intro earlier header receiptsMgrGetter checked
  rcases List.mem_append.mp checked with old | now
  · obtain ⟨thread, member, sameHeader, calls⟩ := conducted earlier header receiptsMgrGetter old
    obtain ⟨thread', member', sameHeader', calls'⟩ := running_kept stepped member
    exact ⟨thread', member', sameHeader'.trans sameHeader, calls'.trans calls⟩
  · cases List.mem_singleton.mp now
    cases stepped
    exact ⟨_, List.mem_append_right _ (List.mem_singleton.mpr rfl), rfl, rfl⟩

theorem sound_init (id : EventCallbackId) (ref : SyncStateRef) (state : SyncState)
    (shared : Shared κ ω) : Sound codec (init codec id ref state shared) where
  registered := .listen id _ _ _ .init
  owned := Registry.owned_init id _
  sync := ⟨_, rfl, rfl⟩
  current _ := ⟨rfl, fun _ => rfl⟩
  held _ member := absurd member List.not_mem_nil
  distinct := .nil
  pending _ member := absurd member List.not_mem_nil

/-- In every run in which the allocator gives no address that somebody still wants to cancel, a listener
    is removed by its own holder only, and gets its events until then. -/
theorem owners_only {id : EventCallbackId} {ref : SyncStateRef} {state : SyncState} {shared : Shared κ ω}
    {taken : List (Threads κ ω × ListenerAction κ)} {final : Threads κ ω}
    (run : Run (Step codec) (init codec id ref state shared) taken final)
    (avoids : ∀ entry ∈ taken, AvoidsReuse entry.1 entry.2) : OwnersOnly codec taken final := by
  have invariant : Sound codec final ∧ Conducted taken final ∧
      ∀ entry ∈ taken, Sound codec entry.1 := by
    apply run.invariant AvoidsReuse fun taken threads => Sound codec threads ∧
      Conducted taken threads ∧ ∀ entry ∈ taken, Sound codec entry.1
    · exact ⟨sound_init id ref state shared, fun _ _ _ member => absurd member List.not_mem_nil,
        fun _ member => absurd member List.not_mem_nil⟩
    · intro taken before action after ⟨sound, conducted, always⟩ avoids stepped
      refine ⟨sound.step avoids stepped, conducted_snoc conducted stepped, fun entry member => ?_⟩
      cases List.mem_append.mp member with
      | inl earlier => exact always entry earlier
      | inr last =>
        rw [List.mem_singleton.mp last]
        exact sound
    · exact avoids
  obtain ⟨sound, conducted, always⟩ := invariant
  constructor
  · exact sound.owned.ownRemovals
  · exact fun token id desc registered notReleased =>
      (sound.owned.kept token id desc registered notReleased).1
  · intro before header receiptsMgrGetter receiptsMgr checked gets root bloom
    obtain ⟨thread, member, sameHeader, calls⟩ := conducted before header receiptsMgrGetter checked
    refine ⟨thread, member, sameHeader, fun token id desc registered notReleased => ?_⟩
    rw [calls]
    exact (always _ checked).filter_planned gets root bloom registered notReleased

/-! ## The address of a sync listener, used again -/

namespace Sample

open EventManager.Sample (zeroCodec)

def zeroTopic : EventTopic := Vector.replicate 32 0

/-- A sync message, and the message of another contract. -/
def syncLog : ReceiptLogEntry where
  contractAddr := Vector.replicate 20 0
  topics := [zeroTopic, zeroTopic, zeroTopic]
  logData := []

def otherLog : ReceiptLogEntry where
  contractAddr := Vector.replicate 20 0
  topics := [zeroTopic]
  logData := [1]

def receiptsMgr (log : ReceiptLogEntry) : ReceiptsMgr where
  receipts := [{ logEntries := [log] }]
  rootHashBytes := []

def header (log : ReceiptLogEntry) : HeaderMgr :=
  { HeaderMgr.init with
    rawHeader := { HeaderMgr.init.rawHeader with
      logsBloom := consensusBloom zeroCodec (receiptsMgr log).logEntries } }

def syncState : SyncState where
  maxWaitTime := 60
  genTime := 0
  nonce := zeroTopic
  isSynced := false

def shared : Shared Unit Unit where
  phase := .sync
  secState := { genesisHash := [], checkpointIter := 0, checkpointHash := [], checkpointNum := [] }
  startBlockNum := 0
  bootstrapIEndBlkNum := 0
  planedSyncBlkNum := 0
  syncStates := [syncState]
  syncMsgMgr := {
    maxWaitTime := 60
    sessId := Vector.replicate 16 0
    lastSyncState := 0
    syncContractAddr := Vector.replicate 20 0
    eventSign := zeroTopic
    syncEventCallbackId := 0 }
  eventManager := .init
  owner := ()

def start : Threads Unit Unit := init zeroCodec 1 0 syncState shared

/-- The block with this log entry. -/
def check (log : ReceiptLogEntry) : ListenerAction Unit :=
  .checkEvents (header log) fun _ => .ok (receiptsMgr log)

/-- The sync callback cancels itself, and then another listener gets an address. -/
def listenAt (id : EventCallbackId) : List (ListenerAction Unit) :=
  [check syncLog, .call 0, .listen id (Vector.replicate 20 0) [zeroTopic] ()]

theorem run_of_replay {actions : List (ListenerAction Unit)}
    {taken : List (Threads Unit Unit × ListenerAction Unit)} {final : Threads Unit Unit}
    (replayed : Run.replay (step zeroCodec) actions [] start = some (taken, final)) :
    Run (Step zeroCodec) start taken final :=
  Run.of_replay (fun _ _ _ stepped => stepped) .nil replayed

end Sample

open Sample

theorem owners_only_sample :
    ∃ taken final, Run (Step EventManager.Sample.zeroCodec) start taken final ∧
      final.registry.released = [0, 0] ∧ final.registry.registrations.length = 3 ∧
      OwnersOnly EventManager.Sample.zeroCodec taken final := by
  have replays : (Run.replay (step EventManager.Sample.zeroCodec) (listenAt 2 ++ [check otherLog, .call 1,
      .newSyncCancel, .newSyncListen 1 0 zeroTopic]) [] start).any (fun (taken, final) =>
        (∀ entry ∈ taken, AvoidsReuse entry.1 entry.2) ∧ final.registry.released = [0, 0] ∧
          final.registry.registrations.length = 3) = true := by
    decide +kernel
  obtain ⟨⟨taken, final⟩, replayed, checks⟩ := (Option.any_eq_true _ _).mp replays
  obtain ⟨avoids, released, registered⟩ := of_decide_eq_true checks
  have run := run_of_replay replayed
  exact ⟨taken, final, run, released, registered, owners_only run avoids⟩

/-- The new sync state cancels a listener that was given the address of the old sync listener. -/
theorem newSyncState_removes_other :
    ∃ taken final, Run (Step EventManager.Sample.zeroCodec) start taken final ∧
      final.registry.removals = [(0, 0), (0, 1)] ∧
      ¬ OwnersOnly EventManager.Sample.zeroCodec taken final := by
  have replays : (Run.replay (step EventManager.Sample.zeroCodec) (listenAt 1 ++ [.newSyncCancel]) []
      start).any (fun (_, final) => final.registry.removals = [(0, 0), (0, 1)]) = true := by
    decide +kernel
  obtain ⟨⟨taken, final⟩, replayed, checks⟩ := (Option.any_eq_true _ _).mp replays
  have removals := of_decide_eq_true checks
  refine ⟨taken, final, run_of_replay replayed, removals, fun owners => ?_⟩
  have own := owners.ownRemovals (0, 1) (by simp [removals])
  cases own

end Threads

end Decentagram.Eth
