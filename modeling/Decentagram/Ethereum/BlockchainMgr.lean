import Decentagram.EclipseMonitor.EclipseMonitor
import Decentagram.Ethereum.SubscriberService

/-! # The blockchain manager

`BlockchainMgr` owns a monitor and is called back by it for every validated header: it checks the events
of the block and refreshes the bootstrap plan with what the host answers.
-/

namespace Decentagram.EthereumClt

open Decentagram.Lib
open Decentagram.Eth

/-- What the host answers during one call, and where the allocator puts new listeners. -/
structure HostBlockService where
  getReceiptsRlpByNum : BlockNumber → Except Exception (List Bytes)
  getLatestBlockNum : Except Exception BlockNumber
  allocate : SubscriberService.Allocator

/-- What a manager is built from, besides the state. -/
structure MgrConfig where
  config : MonitorConfig
  selector : DAASelector
  codec : HeaderCodec
  receipts : ReceiptsCodec
  abi : AbiCodec

abbrev BlockchainMgr := EclipseMonitor Listener Owner MinDiff

namespace BlockchainMgr

variable (mgr : MgrConfig)

def receiptsMgrGetter (host : HostBlockService) (blkNum : BlockNumber) :
    Except Exception ReceiptsMgr :=
  (host.getReceiptsRlpByNum blkNum).bind (ReceiptsMgr.ofReceipts mgr.receipts)

def checkEvents (host : HostBlockService) (header : HeaderMgr) : Exec Exception Monitored Unit :=
  EventManager.checkEvents Shared.eventManager
    (SubscriberService.notify mgr.codec mgr.abi host.allocate) header (receiptsMgrGetter mgr host)

/-- `RefreshBootstrapPlan` with the host's latest block. -/
def refreshPlan (host : HostBlockService) : Exec Exception Monitored Unit := do
  let latestBlkNum ← Exec.ofExcept host.getLatestBlockNum
  Exec.modify (EclipseMonitor.refreshBootstrapPlan mgr.config latestBlkNum none)

/-- In bootstrap I the plan is refreshed at its last block, in bootstrap II at every block. -/
def refreshesPlan (shared : Monitored) (header : HeaderMgr) : Bool :=
  match shared.phase with
  | .bootstrapI => header.blkNum = shared.bootstrapIEndBlkNum
  | .bootstrapII => true
  | _ => false

def onHeaderValidated (host : HostBlockService) (header : HeaderMgr) :
    Exec Exception Monitored Unit := do
  SubscriberService.onOwner fun owner => { owner with
    lastValidatedBlkNum := header.rawHeader.number }
  checkEvents mgr host header
  if refreshesPlan (← Exec.get) header then
    refreshPlan mgr host

/-- What is not logging: the iteration of the checkpoint that was last seen. -/
def onHeaderConfirmed (_header : HeaderMgr) : Exec Exception Monitored Unit :=
  Exec.modify fun shared => { shared with
    owner := { shared.owner with lastChkptIter := shared.secState.checkpointIter } }

def parts : Parts Listener Owner MinDiff HostBlockService where
  config := mgr.config
  codec := mgr.codec
  validator := validator mgr.selector
  diffChecker := genericDiffChecker mgr.config mgr.selector
  onHeaderValidated := onHeaderValidated mgr
  onHeaderConfirmed := onHeaderConfirmed

def appendBlock (readings : Readings HostBlockService) (headerRlp : Bytes) :
    Exec Exception BlockchainMgr Unit :=
  EclipseMonitor.update (parts mgr) readings headerRlp

/-- What the constructor is given, and what it reads. -/
structure InitArgs where
  startBlockNum : BlockNumber
  syncContractAddr : ContractAddr
  syncEventSign : EventTopic
  store : PubsubServiceStore
  minDiff : MinDiff
  sessId : SessionID
  genTime : TrustedTimestamp
  nonce : SyncNonce
  syncListenId : EventCallbackId
  latestBlkNum : BlockNumber
  deployListenId : EventCallbackId

/-- The constructor, up to the start of the subscriber service. -/
def init (args : InitArgs) : BlockchainMgr :=
  let owner : Owner := {
    lastChkptIter := 0
    lastValidatedBlkNum := []
    svcStore := { args.store with isDeployed := false, evMgrAddrMap := ∅, pastEventStore := ∅ }
    eventQueues := []
    delivered := [] }
  let monitor := EclipseMonitor.init (parts mgr) args.minDiff owner args.sessId args.genTime args.nonce
    args.syncContractAddr args.syncEventSign args.syncListenId
  let shared := EclipseMonitor.refreshBootstrapPlan mgr.config args.latestBlkNum
    (some args.startBlockNum) monitor.shared
  { monitor with
    shared := { shared with
      eventManager := shared.eventManager.listen args.deployListenId
        (SubscriberService.buildDeployEventDescr mgr.codec owner.svcStore) } }

/-- Everything that changes a manager: a block of the host, a new subscription, a heartbeat that takes the
    events of a queue, and the end of a subscription. -/
inductive Action where
  | appendBlock (readings : Readings HostBlockService) (headerRlp : Bytes)
  | subscribe (evMgrAddr : ContractAddr) (allocate : SubscriberService.Allocator)
  | takeEvents (eventQueue : Nat)
  | unsubscribe (id : EventCallbackId)

/-- `Listen` of `SubReq`, with a queue of its own. -/
def subscribe (evMgrAddr : ContractAddr) (allocate : SubscriberService.Allocator) :
    Exec Exception Monitored Unit := do
  let owner := (← Exec.get).owner
  SubscriberService.onOwner fun owner => { owner with eventQueues := owner.eventQueues ++ [[]] }
  SubscriberService.listen allocate
    (SubscriberService.buildNotifyEventDescr mgr.codec owner.svcStore evMgrAddr
      owner.eventQueues.length)

def perform : Action → Exec Exception BlockchainMgr Unit
  | .appendBlock readings headerRlp => appendBlock mgr readings headerRlp
  | .subscribe evMgrAddr allocate => EclipseMonitor.onShared (subscribe mgr evMgrAddr allocate)
  | .takeEvents eventQueue => EclipseMonitor.onShared (SubscriberService.onOwner fun owner =>
      { owner with eventQueues := owner.eventQueues.set eventQueue [] })
  | .unsubscribe id => EclipseMonitor.onShared (SubscriberService.cancel id)

def Step (before : BlockchainMgr) (action : Action) (after : BlockchainMgr) : Prop :=
  Exec.Ends (perform mgr action) before after

/-- The state after a step, also where it ends with an exception. -/
def execute (before : BlockchainMgr) (action : Action) : Option BlockchainMgr :=
  Exec.endState (perform mgr action) before

theorem run_of_replay {args : InitArgs} {actions : List Action}
    {taken : List (BlockchainMgr × Action)} {final : BlockchainMgr}
    (replayed : Run.replay (execute mgr) actions [] (init mgr args) = some (taken, final)) :
    Run (Step mgr) (init mgr args) taken final := by
  have executes : ∀ before action after, execute mgr before action = some after →
      Step mgr before action after := fun _ _ _ => Exec.ends_of_endState
  exact Run.of_replay executes .nil replayed

/-- A manager with other queues and other listeners. -/
def withListeners (manager : BlockchainMgr) (eventQueues : List EventDataQueue)
    (eventManager : EventManager (NotifyCallback Listener)) : BlockchainMgr :=
  { manager with
    shared := { manager.shared with
      owner := { manager.shared.owner with eventQueues }
      eventManager } }

variable {mgr} in
/-- Only a block changes more than the queues and the listeners. -/
theorem step_cases {before after : BlockchainMgr} {action : Action}
    (stepped : Step mgr before action after) :
    (∃ readings headerRlp, action = .appendBlock readings headerRlp ∧
        Exec.Ends (appendBlock mgr readings headerRlp) before after) ∨
      (∀ readings headerRlp, action ≠ .appendBlock readings headerRlp) ∧
        ∃ eventQueues eventManager, after = before.withListeners eventQueues eventManager := by
  cases action with
  | appendBlock readings headerRlp => exact .inl ⟨readings, headerRlp, rfl, stepped⟩
  | subscribe evMgrAddr allocate =>
    rcases stepped with ⟨_, returned⟩ | ⟨_, thrown⟩
    · cases returned
      exact .inr ⟨fun _ _ => nofun, _, _, rfl⟩
    · cases thrown
  | takeEvents eventQueue =>
    rcases stepped with ⟨_, returned⟩ | ⟨_, thrown⟩
    · cases returned
      exact .inr ⟨fun _ _ => nofun, _, _, rfl⟩
    · cases thrown
  | unsubscribe id =>
    rcases stepped with ⟨_, returned⟩ | ⟨_, thrown⟩
    · cases returned
      exact .inr ⟨fun _ _ => nofun, _, _, rfl⟩
    · cases thrown

/-! ## What the callback for validated headers changes -/

section Frame

variable {γ : Type} {observe : Monitored → γ}

theorem refreshBootstrapPlan_eq (config : MonitorConfig) (latestBlkNum : BlockNumber)
    (shared : Monitored) :
    ∃ bootstrapIEndBlkNum planedSyncBlkNum,
      EclipseMonitor.refreshBootstrapPlan config latestBlkNum none shared =
        { shared with bootstrapIEndBlkNum, planedSyncBlkNum } := by
  unfold EclipseMonitor.refreshBootstrapPlan
  dsimp only
  split <;> exact ⟨_, _, rfl⟩

/-- The callbacks of a block change what the listeners and their owner change. -/
theorem checkEvents_frame
    (listeners : ∀ shared syncStates eventManager,
      observe { shared with syncStates, eventManager } = observe shared)
    (owned : ∀ (shared : Monitored) owner, observe { shared with owner } = observe shared)
    (host : HostBlockService) (header : HeaderMgr) :
    Exec.Keeps (checkEvents mgr host header) observe := by
  have conducted : ∀ calls, Exec.Keeps (EventManager.conductCallbackPlan
      (SubscriberService.notify mgr.codec mgr.abi host.allocate) header calls) observe := by
    intro calls
    induction calls with
    | nil => exact Exec.keeps_pure ()
    | cons call calls inductionHypothesis =>
      -- a call is recorded, then handled
      have recorded : ∀ owner : Owner → Owner, Exec.Keeps (SubscriberService.onOwner owner) observe :=
        fun _ => Exec.keeps_modify fun shared => owned shared _
      have handled := SubscriberService.handle_frame mgr.codec mgr.abi listeners
        (fun shared _ => owned shared _) (fun shared _ => owned shared _)
      exact .bind (.bind (recorded _) fun _ => handled _ _ _ _ _) fun _ => inductionHypothesis
  exact Exec.keeps_get.bind fun _ => (Exec.keeps_ofExcept _).bind fun plans => conducted _

/-- Besides what the listeners change, the callback changes the owner's state and the bootstrap plan. -/
theorem onHeaderValidated_frame
    (listeners : ∀ shared syncStates eventManager,
      observe { shared with syncStates, eventManager } = observe shared)
    (owned : ∀ (shared : Monitored) owner, observe { shared with owner } = observe shared)
    (plan : ∀ (shared : Monitored) bootstrapIEndBlkNum planedSyncBlkNum,
      observe { shared with bootstrapIEndBlkNum, planedSyncBlkNum } = observe shared)
    (host : HostBlockService) (header : HeaderMgr) :
    Exec.Keeps (onHeaderValidated mgr host header) observe := by
  have noted : Exec.Keeps (SubscriberService.onOwner fun owner => { owner with
      lastValidatedBlkNum := header.rawHeader.number }) observe :=
    Exec.keeps_modify fun shared => owned shared _
  have refreshed : Exec.Keeps (refreshPlan mgr host) observe := by
    refine (Exec.keeps_ofExcept _).bind fun latestBlkNum => Exec.keeps_modify fun shared => ?_
    obtain ⟨bootstrapIEndBlkNum, planedSyncBlkNum, refreshed⟩ :=
      refreshBootstrapPlan_eq mgr.config latestBlkNum shared
    rw [refreshed]
    exact plan shared _ _
  refine noted.bind fun _ => (checkEvents_frame mgr listeners owned host header).bind fun _ => ?_
  exact Exec.keeps_get.bind fun shared => .ite refreshed (Exec.keeps_pure ())

end Frame

end BlockchainMgr

end Decentagram.EthereumClt
