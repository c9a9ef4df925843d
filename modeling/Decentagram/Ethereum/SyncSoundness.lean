import Decentagram.Ethereum.Deliveries

/-! # What being synced means

A sync state is marked by the callback of its own listener only, whose topics hold its nonce.  So a state
that is synced goes back to a block with a message for that nonce, which arrived within the wait time.
-/

namespace Decentagram.EthereumClt

open Decentagram.Lib
open Decentagram.Eth
open Decentagram.Eth.EclipseMonitor

/-- The check on a difference that may wrap: the arrival is the constant 0 of bootstrap I, or not before the
    state was made. -/
theorem inTime_of_within {recvTime genTime maxWaitTime : TrustedTimestamp}
    (bounded : maxWaitTime.toNat + genTime.toNat < 2 ^ 64) (order : recvTime = 0 ∨ genTime ≤ recvTime)
    (within : recvTime - genTime ≤ maxWaitTime) :
    genTime.toNat ≤ recvTime.toNat ∧ recvTime.toNat ≤ genTime.toNat + maxWaitTime.toNat := by
  rw [UInt64.le_iff_toNat_le, UInt64.toNat_sub] at within
  have small := genTime.toNat_lt
  cases order with
  | inl zero =>
    rw [zero, UInt64.toNat_zero] at within ⊢
    omega
  | inr after =>
    rw [UInt64.le_iff_toNat_le] at after
    have small' := recvTime.toNat_lt
    omega

namespace BlockchainMgr

variable (mgr : MgrConfig) (args : InitArgs)

/-- The topics of the message that a sync state waits for. -/
def syncTopics (nonce : SyncNonce) : List EventTopic :=
  [args.syncEventSign, Shared.sessionTopic args.sessId, nonce]

/-- The verified receipts of the block hold a message for the nonce. -/
def HasSyncMessage (host : HostBlockService) (header : HeaderMgr) (nonce : SyncNonce) : Prop :=
  ∃ receiptsMgr log, receiptsMgrGetter mgr host header.blkNum = .ok receiptsMgr ∧
    receiptsMgr.rootHashBytes = header.rawHeader.receiptsRoot ∧ log ∈ receiptsMgr.logEntries ∧
    log.contractAddr = args.syncContractAddr ∧ syncTopics args nonce <+: log.topics

/-- The header arrived after the state was made, and within the wait time. -/
def InTime (header : HeaderMgr) (state : SyncState) : Prop :=
  state.genTime.toNat ≤ header.trustedTime.toNat ∧
    header.trustedTime.toNat ≤ state.genTime.toNat + mgr.config.syncMaxWaitTime.toNat

/-! ## The sync states and their listeners -/

/-- What holds of the sync states made so far, when `clock` are the readings of the clock so far and
    `evidence` says which states may be synced. -/
structure SyncHolds (clock : List TrustedTimestamp) (evidence : SyncState → Prop) (shared : Monitored) :
    Prop where
  maxWaitTime : shared.syncMsgMgr.maxWaitTime = mgr.config.syncMaxWaitTime
  sessId : shared.syncMsgMgr.sessId = args.sessId
  contract : shared.syncMsgMgr.syncContractAddr = args.syncContractAddr
  eventSign : shared.syncMsgMgr.eventSign = args.syncEventSign
  listeners : ∀ id desc ref, shared.eventManager.eventDescMap.lookup id = some desc →
    desc.notifyCallback = .syncMsg ref → ∃ state, shared.syncStates[ref]? = some state ∧
      desc.contractAddr = args.syncContractAddr ∧ desc.topics = syncTopics args state.nonce
  times : ∀ state ∈ shared.syncStates,
    state.genTime ∈ clock ∧ state.maxWaitTime = mgr.config.syncMaxWaitTime
  synced : ∀ state ∈ shared.syncStates, state.isSynced = true → evidence state

namespace SyncHolds

variable {mgr args} {clock : List TrustedTimestamp} {evidence : SyncState → Prop}
  {shared shared' : Monitored}

/-- Only the sync states, their manager and the listeners matter. -/
theorem of_same (holds : SyncHolds mgr args clock evidence shared)
    (states : shared'.syncStates = shared.syncStates)
    (syncMsgMgr : shared'.syncMsgMgr = shared.syncMsgMgr)
    (eventManager : shared'.eventManager = shared.eventManager) :
    SyncHolds mgr args clock evidence shared' := by
  constructor
  · rw [syncMsgMgr]; exact holds.maxWaitTime
  · rw [syncMsgMgr]; exact holds.sessId
  · rw [syncMsgMgr]; exact holds.contract
  · rw [syncMsgMgr]; exact holds.eventSign
  · rw [states, eventManager]; exact holds.listeners
  · rw [states]; exact holds.times
  · rw [states]; exact holds.synced

theorem mono {clock' : List TrustedTimestamp} {evidence' : SyncState → Prop}
    (holds : SyncHolds mgr args clock evidence shared) (later : clock ⊆ clock')
    (more : ∀ state, evidence state → evidence' state) : SyncHolds mgr args clock' evidence' shared where
  maxWaitTime := holds.maxWaitTime
  sessId := holds.sessId
  contract := holds.contract
  eventSign := holds.eventSign
  listeners := holds.listeners
  times := fun state member => ⟨later (holds.times state member).1, (holds.times state member).2⟩
  synced := fun state member synced => more state (holds.synced state member synced)

theorem cancel (holds : SyncHolds mgr args clock evidence shared) (id : EventCallbackId) :
    SyncHolds mgr args clock evidence { shared with eventManager := shared.eventManager.cancel id } where
  maxWaitTime := holds.maxWaitTime
  sessId := holds.sessId
  contract := holds.contract
  eventSign := holds.eventSign
  listeners := fun id' desc ref found =>
    holds.listeners id' desc ref (UnorderedMap.lookup_of_erase found).1
  times := holds.times
  synced := holds.synced

/-- Other listeners may be added. -/
theorem listen (holds : SyncHolds mgr args clock evidence shared) (id : EventCallbackId)
    (desc : EventDescription (NotifyCallback Listener))
    (other : ∀ ref, desc.notifyCallback ≠ .syncMsg ref) :
    SyncHolds mgr args clock evidence
      { shared with eventManager := shared.eventManager.listen id desc } where
  maxWaitTime := holds.maxWaitTime
  sessId := holds.sessId
  contract := holds.contract
  eventSign := holds.eventSign
  listeners := by
    intro id' desc' ref found isSync
    rcases UnorderedMap.lookup_emplace found with earlier | ⟨-, rfl⟩
    · exact holds.listeners id' desc' ref earlier isSync
    · exact absurd isSync (other ref)
  times := holds.times
  synced := holds.synced

/-- The sync callback marks its state, for which there is evidence if it is in time. -/
theorem onSyncMsg (holds : SyncHolds mgr args clock evidence shared) (ref : SyncStateRef)
    (header : HeaderMgr) (id : EventCallbackId)
    (given : ∀ state, shared.syncStates[ref]? = some state →
      header.trustedTime - state.genTime ≤ state.maxWaitTime → evidence { state with isSynced := true }) :
    SyncHolds mgr args clock evidence (Shared.onSyncMsg ref header id shared) := by
  -- what the listener does with its state; it never touches the nonce or the times
  let mark (state : SyncState) : SyncState :=
    if state.isSynced then state else state.setSynced header.trustedTime
  have marked : ∀ state, (mark state).nonce = state.nonce ∧ (mark state).genTime = state.genTime ∧
      (mark state).maxWaitTime = state.maxWaitTime := by
    intro state
    simp only [mark, SyncState.setSynced]
    split
    · exact ⟨rfl, rfl, rfl⟩
    · split <;> exact ⟨rfl, rfl, rfl⟩
  have member_cases : ∀ state ∈ shared.syncStates.modify ref mark,
      state ∈ shared.syncStates ∨ ∃ old, shared.syncStates[ref]? = some old ∧ state = mark old := by
    intro state member
    obtain ⟨position, found⟩ := List.getElem?_of_mem member
    rw [List.getElem?_modify] at found
    obtain ⟨old, isOld, rfl⟩ := Option.map_eq_some_iff.mp found
    by_cases same : ref = position
    · exact .inr ⟨old, same ▸ isOld, by simp [same]⟩
    · exact .inl (by simpa [same] using List.mem_of_getElem? isOld)
  -- the callback cancels its own registration, whatever the state says
  have cancelled := holds.cancel id
  constructor
  · exact holds.maxWaitTime
  · exact holds.sessId
  · exact holds.contract
  · exact holds.eventSign
  · intro id' desc ref' found isSync
    obtain ⟨state, isState, addr, topics⟩ := cancelled.listeners id' desc ref' found isSync
    by_cases same : ref = ref'
    · refine ⟨mark state, ?_, addr, by rw [topics, (marked state).1]⟩
      show (shared.syncStates.modify ref mark)[ref']? = some (mark state)
      rw [List.getElem?_modify, isState]
      simp [same]
    · refine ⟨state, ?_, addr, topics⟩
      show (shared.syncStates.modify ref mark)[ref']? = some state
      rw [List.getElem?_modify, isState]
      simp [same]
  · intro state member
    rcases member_cases state member with earlier | ⟨old, isOld, rfl⟩
    · exact holds.times state earlier
    · rw [(marked old).2.1, (marked old).2.2]
      exact holds.times old (List.mem_of_getElem? isOld)
  · intro state member synced
    rcases member_cases state member with earlier | ⟨old, isOld, rfl⟩
    · exact holds.synced state earlier synced
    · by_cases already : old.isSynced = true
      · simp only [mark, already, if_true] at synced ⊢
        exact holds.synced old (List.mem_of_getElem? isOld) already
      · simp only [mark, already, SyncState.setSynced] at synced ⊢
        -- it becomes synced here only when the header came within the wait
        split at synced
        next contradiction => exact absurd contradiction (by simp)
        next =>
          split at synced
          next within =>
            rw [if_pos within]
            exact given old isOld within
          next => exact absurd synced already

end SyncHolds

/-! ## The callbacks of one header -/

section Calls

variable {mgr args} {clock : List TrustedTimestamp} {evidence : SyncState → Prop}
  {host : HostBlockService} {header : HeaderMgr} {shared : Monitored}

def nonces (shared : Monitored) : List SyncNonce := shared.syncStates.map SyncState.nonce

/-- A call of the sync callback is one for a message with the nonce of its state. -/
def Addressed (mgr : MgrConfig) (args : InitArgs) (host : HostBlockService) (header : HeaderMgr)
    (shared : Monitored) (callback : NotifyCallback Listener) : Prop :=
  ∀ ref, callback = .syncMsg ref → ∀ nonce, (nonces shared)[ref]? = some nonce →
    HasSyncMessage mgr args host header nonce

/-- What the callbacks of a header keep, where `before` is the state they were planned in. -/
def Conducts (mgr : MgrConfig) (args : InitArgs) (clock : List TrustedTimestamp)
    (evidence : SyncState → Prop) (before shared : Monitored) : Prop :=
  SyncHolds mgr args clock evidence shared ∧ nonces shared = nonces before

theorem Conducts.owned {before : Monitored} (conducts : Conducts mgr args clock evidence before shared)
    (owner : Owner) : Conducts mgr args clock evidence before { shared with owner } :=
  ⟨conducts.1.of_same rfl rfl rfl, conducts.2⟩

/-- A message for the nonce of a state is evidence for it, if the header is in time. -/
def Marks (mgr : MgrConfig) (args : InitArgs) (clock : List TrustedTimestamp)
    (evidence : SyncState → Prop) (host : HostBlockService) (header : HeaderMgr) : Prop :=
  ∀ state, HasSyncMessage mgr args host header state.nonce → state.genTime ∈ clock →
    header.trustedTime - state.genTime ≤ mgr.config.syncMaxWaitTime → evidence state

theorem nonces_onSyncMsg (ref : SyncStateRef) (id : EventCallbackId) :
    nonces (Shared.onSyncMsg ref header id shared) = nonces shared := by
  apply List.ext_getElem?
  intro position
  simp only [nonces, Shared.onSyncMsg, List.getElem?_map, List.getElem?_modify]
  cases shared.syncStates[position]? with
  | none => rfl
  | some state =>
    simp only [Option.map_eq_map, Option.map_some, SyncState.setSynced]
    split
    · split
      · rfl
      · split <;> rfl
    · rfl

theorem handle_conducts {before : Monitored} (marks : Marks mgr args clock evidence host header)
    (allocate : SubscriberService.Allocator) (log : ReceiptLogEntry) (id : EventCallbackId)
    {callback : NotifyCallback Listener} (addressed : Addressed mgr args host header before callback)
    (conducts : Conducts mgr args clock evidence before shared) :
    Exec.Sat (SubscriberService.handle mgr.codec mgr.abi allocate header log id callback) shared
      (fun _ => Conducts mgr args clock evidence before)
      (fun _ => Conducts mgr args clock evidence before) := by
  obtain ⟨holds, sameNonces⟩ := conducts
  cases callback with
  | syncMsg ref =>
    -- the nonces are those the plan was made with, so the log is about this state
    simp only [SubscriberService.handle, Exec.sat_modify]
    refine ⟨holds.onSyncMsg ref header id fun state isState within => ?_,
      (nonces_onSyncMsg ref id).trans sameNonces⟩
    have member := holds.times state (List.mem_of_getElem? isState)
    apply marks { state with isSynced := true } _ member.1 (member.2 ▸ within)
    apply addressed ref rfl
    rw [← sameNonces, nonces, List.getElem?_map, isState, Option.map_some]
  | listener listener =>
    -- the listeners of the service never register one for a sync state
    cases listener with
    | deploy =>
      simp only [SubscriberService.handle, SubscriberService.deployEventHandler,
        SubscriberService.onStore, SubscriberService.onOwner, SubscriberService.cancel,
        SubscriberService.listen, Exec.sat_bind, Exec.sat_modify, Exec.sat_get]
      have listens := (holds.cancel id).listen
        (allocate (shared.eventManager.cancel id).eventDescMap.keys)
        (SubscriberService.buildRegEventDescr mgr.codec shared.owner.svcStore)
        (by intro ref isSync; cases isSync)
      exact ⟨listens.of_same rfl rfl rfl, sameNonces⟩
    | reg =>
      simp only [SubscriberService.handle, SubscriberService.regEventHandler,
        SubscriberService.onStore, SubscriberService.onOwner, SubscriberService.listen, Exec.sat_bind,
        Exec.sat_ofExcept, Exec.sat_modify, Exec.sat_get]
      refine ⟨fun words _ => ?_, fun _ _ => ⟨holds, sameNonces⟩⟩
      have listens := holds.listen (allocate shared.eventManager.eventDescMap.keys)
        (SubscriberService.buildNotifyPastEventDescr mgr.codec shared.owner.svcStore
          (addressOfWord words.2)) (by intro ref isSync; cases isSync)
      exact ⟨listens.of_same rfl rfl rfl, sameNonces⟩
    | notifyPast =>
      simp only [SubscriberService.handle, SubscriberService.notifyPastEventHandler,
        SubscriberService.onStore, SubscriberService.onOwner, Exec.sat_bind, Exec.sat_ofExcept,
        Exec.sat_modify]
      exact ⟨fun evMsg _ => ⟨holds.of_same rfl rfl rfl, sameNonces⟩, fun _ _ => ⟨holds, sameNonces⟩⟩
    | notify eventQueue =>
      simp only [SubscriberService.handle, SubscriberService.notifyEventHandler,
        SubscriberService.onOwner, Exec.sat_bind, Exec.sat_ofExcept, Exec.sat_modify]
      exact ⟨fun evMsg _ => ⟨holds.of_same rfl rfl rfl, sameNonces⟩, fun _ _ => ⟨holds, sameNonces⟩⟩

theorem conductCallbackPlan_conducts {before : Monitored}
    (marks : Marks mgr args clock evidence host header) (allocate : SubscriberService.Allocator)
    {calls : List PlanCall}
    (addressed : ∀ call ∈ calls, Addressed mgr args host header before call.2.1)
    (conducts : Conducts mgr args clock evidence before shared) :
    Exec.Sat (EventManager.conductCallbackPlan
        (SubscriberService.notify mgr.codec mgr.abi allocate) header calls) shared
      (fun _ => Conducts mgr args clock evidence before)
      (fun _ => Conducts mgr args clock evidence before) := by
  induction calls generalizing shared with
  | nil => exact conducts
  | cons call calls inductionHypothesis =>
    simp only [EventManager.conductCallbackPlan, SubscriberService.notify, SubscriberService.onOwner,
      Exec.sat_bind, Exec.sat_modify]
    apply (handle_conducts marks allocate call.2.2 call.1 (addressed call (by simp))
      (conducts.owned _)).mono
    · exact fun _ middle conducted =>
        inductionHypothesis (fun call' member => addressed call' (by simp [member])) conducted
    · exact fun _ _ conducted => conducted

/-- The plan calls the sync callback of a state only for messages with its nonce. -/
theorem plannedCalls_addressed (holds : SyncHolds mgr args clock evidence shared) :
    ∀ call ∈ plannedCalls mgr host header shared.eventManager,
      Addressed mgr args host header shared call.2.1 := by
  intro call planned ref isSync nonce isNonce
  rw [plannedCalls] at planned
  split at planned
  next plans isPlan =>
    rcases EventManager.planCalls_sublist isPlan with rfl | ⟨receiptsMgr, gets, root, isSublist⟩
    · cases planned
    · obtain ⟨desc, found, isCallback, matched⟩ :=
        EventManager.mem_expectedCalls (isSublist.subset planned)
      obtain ⟨state, isState, addr, topics⟩ :=
        holds.listeners call.1 desc ref found (isCallback.symm.trans isSync)
      rw [nonces, List.getElem?_map, isState, Option.map_some, Option.some.injEq] at isNonce
      simp only [matchingLogs, List.mem_filter, decide_eq_true_eq] at matched
      exact ⟨receiptsMgr, call.2.2, gets, root, matched.1, matched.2.1.trans addr,
        isNonce ▸ topics ▸ matched.2.2⟩
  next => cases planned

theorem onHeaderValidated_syncHolds (marks : Marks mgr args clock evidence host header)
    (holds : SyncHolds mgr args clock evidence shared) :
    Exec.Sat (onHeaderValidated mgr host header) shared (fun _ => SyncHolds mgr args clock evidence)
      (fun _ => SyncHolds mgr args clock evidence) := by
  have conducts : Conducts mgr args clock evidence shared shared := ⟨holds, rfl⟩
  simp only [onHeaderValidated, checkEvents, EventManager.checkEvents, SubscriberService.onOwner,
    Exec.sat_bind, Exec.sat_modify, Exec.sat_get, Exec.sat_ofExcept]
  refine ⟨fun plans planned => ?_, fun _ _ => holds.of_same rfl rfl rfl⟩
  have isPlan : plannedCalls mgr host header shared.eventManager = EventManager.planCalls plans := by
    rw [plannedCalls, planned]
  apply (conductCallbackPlan_conducts marks host.allocate (isPlan ▸ plannedCalls_addressed holds)
    (conducts.owned _)).mono
  · intro _ middle conducted
    simp only [Exec.sat_ite, refreshPlan, Exec.sat_bind, Exec.sat_ofExcept, Exec.sat_modify,
      Exec.sat_pure]
    refine ⟨fun _ => ⟨fun latestBlkNum _ => ?_, fun _ _ => conducted.1⟩, fun _ => conducted.1⟩
    obtain ⟨_, _, refreshed⟩ := refreshBootstrapPlan_eq mgr.config latestBlkNum middle
    rw [refreshed]
    exact conducted.1.of_same rfl rfl rfl
  · exact fun _ _ conducted => conducted.1

/-- A new state waits for a message of its own. -/
theorem newSyncState_syncHolds {readings : Readings HostBlockService}
    (read : ∀ genTime, readings.genTime = .ok genTime → genTime ∈ clock)
    (holds : SyncHolds mgr args clock evidence shared) :
    Exec.Sat (Shared.newSyncState mgr.codec readings) shared (fun _ => SyncHolds mgr args clock evidence)
      (fun _ => SyncHolds mgr args clock evidence) := by
  have cancelled := holds.cancel shared.syncMsgMgr.syncEventCallbackId
  simp only [Shared.newSyncState, Exec.sat_bind, Exec.sat_modify, Exec.sat_ofExcept]
  refine ⟨fun genTime isGenTime => ⟨fun nonce _ => ?_, fun _ _ => cancelled⟩, fun _ _ => cancelled⟩
  constructor
  · exact holds.maxWaitTime
  · exact holds.sessId
  · exact holds.contract
  · exact holds.eventSign
  · intro id desc ref found isSync
    rcases UnorderedMap.lookup_emplace found with earlier | ⟨-, rfl⟩
    · obtain ⟨state, isState, rest⟩ := cancelled.listeners id desc ref earlier isSync
      exact ⟨state, by rw [List.getElem?_append_left (List.getElem?_eq_some_iff.mp isState).1, isState],
        rest⟩
    · cases isSync
      refine ⟨_, List.getElem?_concat_length, holds.contract, ?_⟩
      simp only [Shared.syncEventDesc, EventDescription.build, syncTopics, holds.eventSign, holds.sessId]
  · intro state member
    rcases List.mem_append.mp member with earlier | new
    · exact holds.times state earlier
    · rw [List.mem_singleton.mp new]
      exact ⟨read genTime isGenTime, holds.maxWaitTime⟩
  · intro state member synced
    rcases List.mem_append.mp member with earlier | new
    · exact holds.synced state earlier synced
    · rw [List.mem_singleton.mp new] at synced
      cases synced

theorem appendBlock_syncHolds {before : BlockchainMgr} {readings : Readings HostBlockService}
    {headerRlp : Bytes} {clock' : List TrustedTimestamp} {evidence' : SyncState → Prop}
    (holds : SyncHolds mgr args clock evidence before.shared) (later : clock ⊆ clock')
    (more : ∀ state, evidence state → evidence' state)
    (read : ∀ genTime, readings.genTime = .ok genTime → genTime ∈ clock')
    (marks : ∀ header, passed (parts mgr) before readings headerRlp = some header →
      Marks mgr args clock evidence' readings.host header) :
    Exec.Sat (appendBlock mgr readings headerRlp) before
      (fun _ after => SyncHolds mgr args clock' evidence' after.shared)
      (fun _ after => SyncHolds mgr args clock' evidence' after.shared) := by
  have maintained : Maintained (parts mgr) readings (SyncHolds mgr args clock' evidence') := {
    secState := fun _ _ held => held.of_same rfl rfl rfl
    confirmed := fun _ _ held => held.of_same rfl rfl rfl
    bootstrapII := fun _ _ held => held.of_same rfl rfl rfl }
  apply update_shared _ maintained
  · exact fun _ => holds.mono later more
  · intro header secState isPassed
    have same : SyncHolds mgr args clock evidence' { before.shared with secState } :=
      (holds.mono (List.Subset.refl clock) more).of_same rfl rfl rfl
    apply (onHeaderValidated_syncHolds (marks header isPassed) same).mono
    · exact fun _ _ held => held.mono later fun _ => id
    · exact fun _ _ held => held.mono later fun _ => id
  · intro shared header held _ _ _
    exact newSyncState_syncHolds read (held.of_same rfl rfl rfl)

end Calls

/-! ## Every run -/

/-- What changes a manager, and `RefreshSyncMsg` at any time. -/
inductive SyncLabel where
  | manager (action : Action)
  | refreshSyncMsg (readings : Readings HostBlockService)

def syncCall : SyncLabel → Exec Exception BlockchainMgr Unit
  | .manager action => perform mgr action
  | .refreshSyncMsg readings => EclipseMonitor.refreshSyncMsg (parts mgr) readings

def SyncStep (before : BlockchainMgr) (label : SyncLabel) (after : BlockchainMgr) : Prop :=
  Exec.Ends (syncCall mgr label) before after

/-- The readings of the clock in a call, in the order they are taken. -/
def clockReadings : SyncLabel → List TrustedTimestamp
  | .manager (.appendBlock readings _) =>
    [readings.arrivalTime, readings.genTime, readings.sweepTime].filterMap Except.toOption
  | .refreshSyncMsg readings => readings.genTime.toOption.toList
  | _ => []

/-- All readings of a run, from that of the constructor on. -/
def clockOf (taken : List (BlockchainMgr × SyncLabel)) : List TrustedTimestamp :=
  args.genTime :: taken.flatMap fun entry => clockReadings entry.2

def headerIn (before : BlockchainMgr) : SyncLabel → Option HeaderMgr
  | .manager action => passedHeader mgr before action
  | .refreshSyncMsg _ => none

/-- The state that `GetLastSyncState` returns. -/
def currentState (manager : BlockchainMgr) : Option SyncState :=
  manager.shared.syncStates[manager.shared.syncMsgMgr.lastSyncState]?

/-- A header that passed the checks in one of the steps holds a message for the nonce of the state, and
    arrived in time for it. -/
def SyncedBy (taken : List (BlockchainMgr × SyncLabel)) (state : SyncState) : Prop :=
  ∃ before readings headerRlp header, (before, .manager (.appendBlock readings headerRlp)) ∈ taken ∧
    passed (parts mgr) before readings headerRlp = some header ∧
    HasSyncMessage mgr args readings.host header state.nonce ∧ InTime mgr header state

variable {mgr args}

theorem SyncedBy.mono {taken : List (BlockchainMgr × SyncLabel)} {state : SyncState}
    (synced : SyncedBy mgr args taken state) (more : List (BlockchainMgr × SyncLabel)) :
    SyncedBy mgr args (taken ++ more) state := by
  obtain ⟨before, readings, headerRlp, header, member, rest⟩ := synced
  exact ⟨before, readings, headerRlp, header, List.mem_append_left _ member, rest⟩

/-- A header carries 0 in bootstrap I, and later the reading of its arrival. -/
theorem trustedTime_of_received {before : BlockchainMgr} {readings : Readings HostBlockService}
    {headerRlp : Bytes} {header : HeaderMgr}
    (isReceived : received (parts mgr) before readings headerRlp = .ok header) :
    header.trustedTime = 0 ∨ readings.arrivalTime = .ok header.trustedTime := by
  have parsed : ∀ {time}, HeaderMgr.ofBinary mgr.codec headerRlp time = .ok header →
      header.trustedTime = time := by
    intro time parses
    simp only [HeaderMgr.ofBinary, bind, Except.bind] at parses
    repeat' split at parses
    all_goals first | contradiction | skip
    cases parses
    rfl
  rw [received] at isReceived
  split at isReceived
  · exact .inl (parsed isReceived)
  · right
    rw [arrival] at isReceived
    cases arrived : readings.arrivalTime with
    | error _ => simp [arrived, Except.bind] at isReceived
    | ok time =>
      rw [arrived] at isReceived
      rw [parsed (show HeaderMgr.ofBinary mgr.codec headerRlp time = .ok header from isReceived)]

/-- The clock never goes back, and adding the wait time does not overflow. -/
structure ClockOk (mgr : MgrConfig) (clock : List TrustedTimestamp) : Prop where
  monotone : clock.Pairwise (· ≤ ·)
  bounded : ∀ reading ∈ clock, mgr.config.syncMaxWaitTime.toNat + reading.toNat < 2 ^ 64

theorem ClockOk.earlier {clock more : List TrustedTimestamp} (ok : ClockOk mgr (clock ++ more)) :
    ClockOk mgr clock where
  monotone := (List.pairwise_append.mp ok.monotone).1
  bounded := fun reading member => ok.bounded reading (List.mem_append_left _ member)

theorem marks_of_clock {before : BlockchainMgr} {readings : Readings HostBlockService}
    {headerRlp : Bytes} {header : HeaderMgr} {clock : List TrustedTimestamp}
    {taken : List (BlockchainMgr × SyncLabel)}
    (ok : ClockOk mgr (clock ++ clockReadings (.manager (.appendBlock readings headerRlp))))
    (member : (before, .manager (.appendBlock readings headerRlp)) ∈ taken)
    (isPassed : passed (parts mgr) before readings headerRlp = some header) :
    Marks mgr args clock (SyncedBy mgr args taken) readings.host header := by
  intro state message made within
  refine ⟨before, readings, headerRlp, header, member, isPassed, message, ?_⟩
  apply inTime_of_within (ok.earlier.bounded _ made) _ within
  rcases trustedTime_of_received ((passed_iff mgr).mp isPassed).1 with zero | arrived
  · exact .inl zero
  · -- the state was made at an earlier reading
    right
    apply (List.pairwise_append.mp ok.monotone).2.2 _ made
    simp [clockReadings, arrived, Except.toOption]

theorem syncStep_holds {before after : BlockchainMgr} {label : SyncLabel}
    {taken : List (BlockchainMgr × SyncLabel)} {clock : List TrustedTimestamp}
    (ok : ClockOk mgr (clock ++ clockReadings label))
    (holds : SyncHolds mgr args clock (SyncedBy mgr args taken) before.shared)
    (stepped : SyncStep mgr before label after) :
    SyncHolds mgr args (clock ++ clockReadings label) (SyncedBy mgr args (taken ++ [(before, label)]))
      after.shared := by
  have later : clock ⊆ clock ++ clockReadings label := List.subset_append_left _ _
  have more : ∀ state, SyncedBy mgr args taken state →
      SyncedBy mgr args (taken ++ [(before, label)]) state := fun state synced => synced.mono _
  cases label with
  | refreshSyncMsg readings =>
    -- the generation time of the new state is a reading of this step
    have read : ∀ genTime, readings.genTime = .ok genTime →
        genTime ∈ clock ++ clockReadings (.refreshSyncMsg readings) := by
      intro genTime isGenTime
      simp [clockReadings, isGenTime, Except.toOption]
    have refreshes : Exec.Sat (EclipseMonitor.refreshSyncMsg (parts mgr) readings) before
        (fun _ after => SyncHolds mgr args (clock ++ clockReadings (.refreshSyncMsg readings))
          (SyncedBy mgr args (taken ++ [(before, .refreshSyncMsg readings)])) after.shared)
        (fun _ after => SyncHolds mgr args (clock ++ clockReadings (.refreshSyncMsg readings))
          (SyncedBy mgr args (taken ++ [(before, .refreshSyncMsg readings)])) after.shared) := by
      simp only [EclipseMonitor.refreshSyncMsg, onShared, Exec.sat_zoom, Exec.sat_bind, Exec.sat_modify]
      exact newSyncState_syncHolds read ((holds.mono later more).of_same rfl rfl rfl)
    exact refreshes.ends (fun after : BlockchainMgr => SyncHolds mgr args _ _ after.shared) stepped
  | manager action =>
    cases action with
    | appendBlock readings headerRlp =>
      have read : ∀ genTime, readings.genTime = .ok genTime →
          genTime ∈ clock ++ clockReadings (.manager (.appendBlock readings headerRlp)) := by
        intro genTime isGenTime
        simp [clockReadings, isGenTime, Except.toOption]
      exact (appendBlock_syncHolds holds later more read fun header isPassed =>
        marks_of_clock ok (by simp) isPassed).ends
          (fun after : BlockchainMgr => SyncHolds mgr args _ _ after.shared) stepped
    | subscribe evMgrAddr allocate =>
      rcases stepped with ⟨_, returned⟩ | ⟨_, thrown⟩
      · cases returned
        -- a listener for notifications is none of a sync state
        have listens := (holds.mono later more).listen
          (allocate before.shared.eventManager.eventDescMap.keys)
          (SubscriberService.buildNotifyEventDescr mgr.codec before.shared.owner.svcStore evMgrAddr
            before.shared.owner.eventQueues.length) (by intro ref isSync; cases isSync)
        exact listens.of_same rfl rfl rfl
      · cases thrown
    | takeEvents eventQueue =>
      rcases stepped with ⟨_, returned⟩ | ⟨_, thrown⟩
      · cases returned
        exact (holds.mono later more).of_same rfl rfl rfl
      · cases thrown
    | unsubscribe id =>
      rcases stepped with ⟨_, returned⟩ | ⟨_, thrown⟩
      · cases returned
        exact (holds.mono later more).cancel id
      · cases thrown

theorem init_syncHolds : SyncHolds mgr args [args.genTime] (SyncedBy mgr args []) (init mgr args).shared where
  maxWaitTime := rfl
  sessId := rfl
  contract := rfl
  eventSign := rfl
  listeners := by
    intro id desc ref found isSync
    rcases UnorderedMap.lookup_emplace found with sync | ⟨-, rfl⟩
    · rcases UnorderedMap.lookup_emplace sync with none | ⟨-, rfl⟩
      · simp [EventManager.init] at none
      · cases isSync
        exact ⟨_, rfl, rfl, rfl⟩
    · cases isSync
  times := by
    intro state member
    rw [List.mem_singleton.mp member]
    exact ⟨List.mem_singleton.mpr rfl, rfl⟩
  synced := by
    intro state member synced
    rw [List.mem_singleton.mp member] at synced
    cases synced

theorem clockOf_snoc (taken : List (BlockchainMgr × SyncLabel)) (entry : BlockchainMgr × SyncLabel) :
    clockOf args (taken ++ [entry]) = clockOf args taken ++ clockReadings entry.2 := by
  simp [clockOf]

theorem run_syncHolds {taken : List (BlockchainMgr × SyncLabel)} {final : BlockchainMgr}
    (run : Run (SyncStep mgr) (init mgr args) taken final) (ok : ClockOk mgr (clockOf args taken)) :
    SyncHolds mgr args (clockOf args taken) (SyncedBy mgr args taken) final.shared := by
  revert ok
  apply run.invariant (fun _ _ => True) (fun taken manager => ClockOk mgr (clockOf args taken) →
    SyncHolds mgr args (clockOf args taken) (SyncedBy mgr args taken) manager.shared)
  · exact fun _ => init_syncHolds
  · intro taken before label after held _ stepped ok
    rw [clockOf_snoc] at ok ⊢
    exact syncStep_holds ok (held ok.earlier) stepped
  · exact fun _ _ => trivial

/-! ## The active nodes -/

/-- A new entry among the active nodes is that of the header, which found the monitor synced. -/
theorem activeNodes_of_changes {before : BlockchainMgr} {readings : Readings HostBlockService}
    {headerRlp : Bytes} {after : Forest} {hash : Bytes} {node : NodeAddr}
    (changes : Changes (parts mgr) before readings headerRlp after)
    (found : after.activeNodes.lookup hash = some node) :
    before.activeNodes.lookup hash = some node ∨ before.shared.isSynced = true ∧
      ∃ header, passed (parts mgr) before readings headerRlp = some header ∧ header.hashObj = hash := by
  cases changes with
  | same unchanged =>
    rw [unchanged] at found
    exact .inl found
  | @maintained middle prepares maintains =>
    -- the maintenance only erases entries
    have foundMiddle : middle.activeNodes.lookup hash = some node := by
      cases maintains with
      | same => exact found
      | confirmed _ _ =>
        exact (UnorderedMap.lookup_of_erase (UnorderedMap.lookup_of_erase found).1).1
    cases prepares with
    | same _ => exact .inl foundMiddle
    | handedOver header syncState noNode => exact .inl foundMiddle
    | @added acceptance grown accepts grows =>
      obtain ⟨last, -, rfl⟩ := Option.map_eq_some_iff.mp grows
      by_cases synced : before.shared.isSynced = true
      · simp only [synced, if_true] at foundMiddle
        rcases UnorderedMap.lookup_emplace foundMiddle with earlier | ⟨isHash, -⟩
        · exact .inl earlier
        · refine .inr ⟨synced, acceptance.header, ?_, isHash.symm⟩
          rw [accepted] at accepts
          split at accepts
          · cases accepts
          next later =>
            split at accepts
            next header arrives =>
              have isReceived : received (parts mgr) before readings headerRlp = .ok header := by
                rw [received, if_neg later]
                exact arrives
              rw [passed, isReceived]
              simp [later, accepts]
            next => cases accepts
      · simp only [synced] at foundMiddle
        exact .inl foundMiddle

theorem syncStep_activeNodes {before after : BlockchainMgr} {label : SyncLabel} {hash : Bytes}
    {node : NodeAddr} (stepped : SyncStep mgr before label after)
    (found : after.activeNodes.lookup hash = some node) :
    before.activeNodes.lookup hash = some node ∨ before.shared.isSynced = true ∧
      ∃ header, headerIn mgr before label = some header ∧ header.hashObj = hash := by
  cases label with
  | refreshSyncMsg readings =>
    left
    have keeps : Exec.Keeps (EclipseMonitor.refreshSyncMsg (parts mgr) readings)
        fun manager : BlockchainMgr => manager.activeNodes := Exec.keeps_zoom _ fun _ _ => rfl
    have same : after.activeNodes = before.activeNodes :=
      (keeps before).ends (fun after : BlockchainMgr => after.activeNodes = before.activeNodes) stepped
    rw [← same]
    exact found
  | manager action =>
    rcases step_cases stepped with ⟨readings, headerRlp, rfl, ended⟩ | ⟨-, _, _, rfl⟩
    · have changes := (update_forest (parts mgr) readings before headerRlp).ends
        (fun after => Changes (parts mgr) before readings headerRlp after.forest) ended
      exact activeNodes_of_changes changes found
    · exact .inl found

/-- The current state is synced only by a message for itself that came in time, and the active nodes receive
    only headers that came after such a message. -/
theorem sync_sound {taken : List (BlockchainMgr × SyncLabel)} {final : BlockchainMgr}
    (run : Run (SyncStep mgr) (init mgr args) taken final) (ok : ClockOk mgr (clockOf args taken)) :
    (∀ state, currentState final = some state → state.isSynced = true →
        SyncedBy mgr args taken state) ∧
      ∀ earlier before label later, taken = earlier ++ (before, label) :: later →
        ∀ after, SyncStep mgr before label after → ∀ hash node,
          after.activeNodes.lookup hash = some node → before.activeNodes.lookup hash ≠ some node →
          (∃ header, headerIn mgr before label = some header ∧ header.hashObj = hash) ∧
            ∃ state, currentState before = some state ∧ state.isSynced = true ∧
              SyncedBy mgr args earlier state := by
  refine ⟨fun state isCurrent => (run_syncHolds run ok).synced state (List.mem_of_getElem? isCurrent),
    fun earlier before label later split after stepped hash node found isNew => ?_⟩
  obtain ⟨isSynced, isHeader⟩ := (syncStep_activeNodes stepped found).resolve_left isNew
  refine ⟨isHeader, ?_⟩
  have clockSplit : clockOf args taken = clockOf args earlier ++
      ((before, label) :: later).flatMap fun entry => clockReadings entry.2 := by
    rw [split]
    simp [clockOf]
  have holds := run_syncHolds (run.upTo split) (clockSplit ▸ ok).earlier
  rw [Shared.isSynced] at isSynced
  split at isSynced
  next state isCurrent =>
    exact ⟨state, isCurrent, isSynced, holds.synced state (List.mem_of_getElem? isCurrent) isSynced⟩
  next => cases isSynced

end BlockchainMgr

/-! ## A message that arrives in time -/

namespace SampleClient

open SampleChain

/-- The message of the constructor's sync state, whose session and nonce are zeros. -/
def syncLog : ReceiptLogEntry where
  contractAddr := Vector.replicate 20 0
  topics := List.replicate 3 (Vector.replicate 32 0)
  logData := []

def syncReceipt : Bytes :=
  rlpList [rlpBytes [1], rlpBytes (toBytes 63000), rlpBytes bloom, rlpList [rlpList [
    rlpBytes syncLog.contractAddr.toList,
    rlpList (syncLog.topics.map fun topic => rlpBytes topic.toList), rlpBytes syncLog.logData]]]

def syncReceiptsRoot : Bytes :=
  [126, 179, 199, 50, 246, 45, 28, 137, 193, 8, 114, 243, 39, 158, 187, 85, 27, 169, 190, 65, 162, 247,
    171, 108, 66, 35, 32, 19, 27, 54, 116, 124]

def syncBlock : Block where
  rawHeader := { rawHeader block1.hash.toList 2 with receiptsRoot := syncReceiptsRoot, logsBloom := bloom }
  extraData := []
  hash := #v[38, 239, 189, 188, 119, 158, 89, 69, 227, 55, 69, 255, 155, 130, 82, 89, 155, 211, 89, 36, 70,
    85, 101, 30, 204, 141, 227, 211, 63, 72, 61, 0]

def syncChild : Block where
  rawHeader := rawHeader syncBlock.hash.toList 3
  extraData := []
  hash := #v[69, 47, 61, 1, 196, 8, 149, 56, 48, 200, 37, 189, 224, 102, 99, 167, 103, 32, 172, 249, 146,
    104, 33, 146, 16, 99, 229, 92, 92, 213, 98, 224]

def syncMgr : MgrConfig where
  config
  selector := .goerli
  codec := codecOf [block0, block1, syncBlock, syncChild]
  receipts := {
    fromBytes := fun binary =>
      if binary = syncReceipt then .ok { logEntries := [syncLog] } else .error "Not the sample receipt"
    trieHash := fun receipts =>
      if receipts = [syncReceipt] then .ok syncReceiptsRoot else .error "Not the sample receipts" }
  abi := {
    toMessage := fun _ => .error "Not a message"
    toWords := fun _ => .error "Not two words" }

def syncReadings : Readings HostBlockService :=
  { found with host := { found.host with getReceiptsRlpByNum := fun _ => .ok [syncReceipt] } }

def synced : List BlockchainMgr.SyncLabel :=
  [block0, block1, syncBlock, syncChild].map fun block =>
    .manager (.appendBlock syncReadings block.binary)

end SampleClient

namespace BlockchainMgr

open SampleChain SampleClient

theorem sync_sound_sample :
    ∃ taken final state, Run (SyncStep syncMgr) (init syncMgr args) taken final ∧
      final.activeNodes.entries.length = 1 ∧ currentState final = some state ∧
      state.isSynced = true ∧ SyncedBy syncMgr args taken state := by
  have replays : (Run.replay (fun before label => Exec.endState (syncCall syncMgr label) before) synced []
      (init syncMgr args)).any (fun (taken, final) =>
      (clockOf args taken).Pairwise (· ≤ ·) ∧
      ((clockOf args taken).all fun reading =>
        syncMgr.config.syncMaxWaitTime.toNat + reading.toNat < 2 ^ 64) ∧
      final.activeNodes.entries.length = 1 ∧
      (currentState final).any fun state => state.isSynced) = true := by
    decide +kernel
  obtain ⟨⟨taken, final⟩, replayed, checks⟩ := (Option.any_eq_true _ _).mp replays
  simp only [decide_eq_true_eq, Option.any_eq_true, List.all_eq_true] at checks
  obtain ⟨monotone, bounded, active, state, isCurrent, isSynced⟩ := checks
  have executes : ∀ before label after, Exec.endState (syncCall syncMgr label) before = some after →
      SyncStep syncMgr before label after := fun _ _ _ => Exec.ends_of_endState
  have run : Run (SyncStep syncMgr) (init syncMgr args) taken final := Run.of_replay executes .nil replayed
  exact ⟨taken, final, state, run, active, isCurrent, isSynced,
    (sync_sound run ⟨monotone, bounded⟩).1 state isCurrent isSynced⟩

end BlockchainMgr

end Decentagram.EthereumClt
