import Decentagram.Ethereum.BlockchainMgr
import Decentagram.EclipseMonitor.Confirmation

/-! # What an exception leaves behind

`AppendBlock` has no way back: an exception leaves every change made before it.  So a block that throws
leaves no trace exactly when it throws before the first change, and what a later exception leaves can
be told from the state before by one of a few counts.
-/

namespace Decentagram.EthereumClt

open Decentagram.Lib
open Decentagram.Eth
open EclipseMonitor

namespace BlockchainMgr

variable (mgr : MgrConfig)

/-! ## The callback for a validated header -/

/-- The callback throws and changes nothing: the block number is the one already recorded, and either the
    callbacks cannot be planned or there is none to call and the host does not tell its latest block. -/
def quiet (host : HostBlockService) (header : HeaderMgr) (shared : Monitored) : Prop :=
  shared.owner.lastValidatedBlkNum = header.rawHeader.number ∧
    match shared.eventManager.callbackPlans header (receiptsMgrGetter mgr host) with
    | .error _ => True
    | .ok plans => EventManager.planCalls plans = [] ∧ refreshesPlan shared header = true ∧
      ∃ error, host.getLatestBlockNum = .error error

/-- What no listener changes. -/
def untouched (shared : Monitored) : Phases × MonitorSecState × Bytes × List Delivery :=
  (shared.phase, shared.secState, shared.owner.lastValidatedBlkNum, shared.owner.delivered)

theorem handle_keeps (allocate : SubscriberService.Allocator) (header : HeaderMgr)
    (log : ReceiptLogEntry) (id : EventCallbackId) (callback : NotifyCallback Listener) :
    Exec.Keeps (SubscriberService.handle mgr.codec mgr.abi allocate header log id callback)
      untouched :=
  SubscriberService.handle_frame mgr.codec mgr.abi (fun _ _ _ => rfl) (fun _ _ => rfl) (fun _ _ => rfl)
    allocate header log id callback

/-- Callbacks that were called: nothing they leave untouched differs but the record of deliveries, which is
    longer. -/
def Called (shared shared' : Monitored) : Prop :=
  shared'.phase = shared.phase ∧ shared'.secState = shared.secState ∧
    shared'.owner.lastValidatedBlkNum = shared.owner.lastValidatedBlkNum ∧
    shared.owner.delivered.length < shared'.owner.delivered.length

theorem notify_called (allocate : SubscriberService.Allocator) (callback : NotifyCallback Listener)
    (header : HeaderMgr) (log : ReceiptLogEntry) (id : EventCallbackId) (shared : Monitored) :
    Exec.Sat (SubscriberService.notify mgr.codec mgr.abi allocate callback header log id) shared
      (fun _ shared' => Called shared shared') (fun _ shared' => Called shared shared') := by
  have called : ∀ shared' : Monitored, untouched shared' = (shared.phase, shared.secState,
      shared.owner.lastValidatedBlkNum,
      shared.owner.delivered ++ [{ id, hash := header.hash, log }]) → Called shared shared' := by
    intro shared' same
    simp only [untouched, Prod.mk.injEq] at same
    exact ⟨same.1, same.2.1, same.2.2.1, by simp [same.2.2.2]⟩
  simp only [SubscriberService.notify, SubscriberService.onOwner, Exec.sat_bind, Exec.sat_modify]
  exact (handle_keeps mgr allocate header log id callback _).mono (fun _ => called) fun _ => called

/-- A plan that calls nobody changes nothing and does not throw. -/
theorem conductCallbackPlan_sat (allocate : SubscriberService.Allocator) (header : HeaderMgr)
    (calls : List (EventCallbackId × NotifyCallback Listener × ReceiptLogEntry)) (shared : Monitored) :
    Exec.Sat (EventManager.conductCallbackPlan
        (SubscriberService.notify mgr.codec mgr.abi allocate) header calls) shared
      (fun _ shared' => calls = [] ∧ shared' = shared ∨ calls ≠ [] ∧ Called shared shared')
      (fun _ shared' => calls ≠ [] ∧ Called shared shared') := by
  induction calls generalizing shared with
  | nil => exact .inl ⟨rfl, rfl⟩
  | cons call calls inductionHypothesis =>
    obtain ⟨id, callback, log⟩ := call
    have trans : ∀ {middle shared' : Monitored}, Called shared middle → Called middle shared' →
        Called shared shared' := fun first rest =>
      ⟨rest.1.trans first.1, rest.2.1.trans first.2.1, rest.2.2.1.trans first.2.2.1,
        Nat.lt_trans first.2.2.2 rest.2.2.2⟩
    simp only [EventManager.conductCallbackPlan, Exec.sat_bind]
    refine (notify_called mgr allocate callback header log id shared).mono (fun _ middle first => ?_)
      fun _ _ first => ⟨by simp, first⟩
    refine (inductionHypothesis middle).mono (fun _ shared' rest => .inr ⟨by simp, ?_⟩)
      fun _ _ rest => ⟨by simp, trans first rest.2⟩
    rcases rest with ⟨-, rfl⟩ | ⟨-, rest⟩
    · exact first
    · exact trans first rest

/-- The part of the state that the listeners and their owner show. -/
def shown (shared : Monitored) : Bytes × List Delivery :=
  (shared.owner.lastValidatedBlkNum, shared.owner.delivered)

theorem setLastValidated_of_eq {shared : Monitored} {number : Bytes}
    (same : shared.owner.lastValidatedBlkNum = number) :
    { shared with owner := { shared.owner with lastValidatedBlkNum := number } } = shared := by
  rw [← same]

/-- When the callback throws, nothing changed if it was quiet, and else it shows.  A quiet one throws. -/
theorem onHeaderValidated_sat (host : HostBlockService) (header : HeaderMgr) (shared : Monitored) :
    Exec.Sat (onHeaderValidated mgr host header) shared
      (fun _ shared' => shared'.phase = shared.phase ∧ shared'.secState = shared.secState ∧
        ¬ quiet mgr host header shared)
      (fun _ shared' => shared'.phase = shared.phase ∧ shared'.secState = shared.secState ∧
        (quiet mgr host header shared → shared' = shared) ∧
        (shown shared' = shown shared → quiet mgr host header shared)) := by
  -- the number is recorded before any event is planned
  let recorded : Monitored := { shared with
    owner := { shared.owner with lastValidatedBlkNum := header.rawHeader.number } }
  have shows : ∀ {shared' : Monitored}, Called recorded shared' →
      shown shared' = shown shared → quiet mgr host header shared := by
    intro shared' called same
    have longer : shared.owner.delivered.length < shared'.owner.delivered.length := called.2.2.2
    rw [show shared'.owner.delivered = shared.owner.delivered from congrArg Prod.snd same] at longer
    exact (Nat.lt_irrefl _ longer).elim
  simp only [onHeaderValidated, checkEvents, EventManager.checkEvents, SubscriberService.onOwner,
    Exec.sat_bind, Exec.sat_modify, Exec.sat_get, Exec.sat_ofExcept]
  refine ⟨fun plans planned => ?_, fun error failed => ⟨trivial, trivial,
    fun isQuiet => setLastValidated_of_eq isQuiet.1, fun same => ?_⟩⟩
  · have quiet_iff : quiet mgr host header shared ↔
        shared.owner.lastValidatedBlkNum = header.rawHeader.number ∧
          EventManager.planCalls plans = [] ∧ refreshesPlan shared header = true ∧
          ∃ error, host.getLatestBlockNum = .error error := by
      simp only [quiet, planned]
    refine (conductCallbackPlan_sat mgr host.allocate header _ recorded).mono
      (fun _ shared' conducted => ?_) fun _ shared' interrupted => ?_
    · simp only [Exec.sat_ite, refreshPlan, Exec.sat_bind, Exec.sat_ofExcept, Exec.sat_modify,
        Exec.sat_pure]
      -- without a call the refresh of the plan may still throw; a call is seen in any case
      rcases conducted with ⟨noCalls, rfl⟩ | ⟨calls, called⟩
      · refine ⟨fun refreshes => ⟨fun latest told => ?_, fun error untold => ⟨rfl, rfl, ?_⟩⟩,
          fun stays => ⟨rfl, rfl, fun isQuiet => stays (quiet_iff.mp isQuiet).2.2.1⟩⟩
        · refine ⟨?_, ?_, fun isQuiet => ?_⟩
          · simp only [refreshBootstrapPlan]
            split <;> rfl
          · simp only [refreshBootstrapPlan]
            split <;> rfl
          · obtain ⟨_, _, _, error, untold⟩ := quiet_iff.mp isQuiet
            cases told.symm.trans untold
        · refine ⟨fun isQuiet => setLastValidated_of_eq isQuiet.1, fun same => quiet_iff.mpr ?_⟩
          exact ⟨(congrArg Prod.fst same).symm, noCalls, refreshes, error, untold⟩
      · have loud : ¬ quiet mgr host header shared := fun isQuiet => calls (quiet_iff.mp isQuiet).2.1
        refine ⟨fun _ => ⟨fun latest _ => ?_, fun _ _ =>
          ⟨called.1, called.2.1, fun isQuiet => (loud isQuiet).elim, shows called⟩⟩,
        fun _ => ⟨called.1, called.2.1, loud⟩⟩
        refine ⟨Eq.trans ?_ called.1, Eq.trans ?_ called.2.1, loud⟩
        · simp only [refreshBootstrapPlan]
          split <;> rfl
        · simp only [refreshBootstrapPlan]
          split <;> rfl
    · obtain ⟨calls, called⟩ := interrupted
      exact ⟨called.1, called.2.1, fun isQuiet => (calls (quiet_iff.mp isQuiet).2.1).elim,
        shows called⟩
  · simp only [quiet, failed, and_true]
    exact (congrArg Prod.fst same).symm

/-! ## The counts that tell a change -/

/-- The checkpoint with its tree, the look-up maps, the phase, the security state, the last validated block
    number and the delivered events. -/
def listed (manager : BlockchainMgr) : CheckpointMgr × (NodeLookUpMap × NodeLookUpMap) ×
    (Phases × MonitorSecState) × Bytes × List Delivery :=
  (manager.checkpoint, (manager.offlineNodes, manager.activeNodes),
    (manager.shared.phase, manager.shared.secState), shown manager.shared)

/-- What an exception leaves: the state before it in the case `silent`, and else a visible difference. -/
def Leaves (before after : BlockchainMgr) (silent : Prop) : Prop :=
  (silent → after = before) ∧ (listed after = listed before → silent)

theorem Leaves.of_same {before after : BlockchainMgr} {silent : Prop} (same : after = before)
    (holds : silent) : Leaves before after silent := ⟨fun _ => same, fun _ => holds⟩

theorem Leaves.of_differs {before after : BlockchainMgr} {silent : Prop}
    (differs : listed after ≠ listed before) (fails : ¬ silent) : Leaves before after silent :=
  ⟨fun holds => (fails holds).elim, fun same => (differs same).elim⟩

/-- How often a checkpoint was completed, and how many headers the two windows hold. -/
def tally (manager : BlockchainMgr) : UInt64 × Nat × Nat :=
  (manager.shared.secState.checkpointIter, manager.checkpoint.candidate.length,
    manager.checkpoint.currWindow.length)

/-- One of the counts is one more. -/
def Advances (before after : UInt64 × Nat × Nat) : Prop :=
  after.1 = before.1 + 1 ∨ after.2.1 = before.2.1 + 1 ∨ after.2.2 = before.2.2 + 1

theorem tally_of_listed {before after : BlockchainMgr} (same : listed after = listed before) :
    tally after = tally before := by
  simp only [listed, Prod.mk.injEq] at same
  rw [tally, tally, same.1, same.2.2.1.2]

theorem phase_of_listed {before after : BlockchainMgr} (same : listed after = listed before) :
    after.shared.phase = before.shared.phase := by
  simp only [listed, Prod.mk.injEq] at same
  exact same.2.2.1.1

theorem Advances.ne {before after : UInt64 × Nat × Nat} (advances : Advances before after) :
    after ≠ before := by
  rintro rfl
  rcases advances with iter | candidates | window
  · simp at iter
  · omega
  · omega

theorem Advances.differs {before after : BlockchainMgr} (advances : Advances (tally before) (tally after)) :
    listed after ≠ listed before := fun same => advances.ne (tally_of_listed same)

theorem confirmHeaders_progress (headers : List HeaderMgr) :
    Exec.Keeps (confirmHeaders (parts mgr) headers)
      fun manager : BlockchainMgr => (manager.shared.phase, manager.shared.secState) := by
  induction headers with
  | nil => exact Exec.keeps_pure ()
  | cons header headers inductionHypothesis =>
    refine .bind (fun before => ?_) fun _ => inductionHypothesis
    simp only [onShared, parts, onHeaderConfirmed, Exec.sat_zoom, Exec.sat_modify]

/-- The phase stays, and a count advances. -/
def Completes (before after : BlockchainMgr) : Prop :=
  after.shared.phase = before.shared.phase ∧ Advances (tally before) (tally after)

theorem onCheckpointComplete_sat {before : BlockchainMgr} (lastHeader : HeaderMgr)
    (hasLast : before.checkpoint.getLastHeader = .ok lastHeader) :
    Exec.Sat (onCheckpointComplete (parts mgr)) before
      (fun _ after => after.shared.phase = before.shared.phase ∧
        after.shared.secState.checkpointIter = before.shared.secState.checkpointIter + 1)
      (fun _ after => after.shared.phase = before.shared.phase ∧
        after.shared.secState.checkpointIter = before.shared.secState.checkpointIter + 1) := by
  simp only [onCheckpointComplete, onShared, onDiffState, Exec.sat_bind, Exec.sat_get,
    Exec.sat_ofExcept, hasLast, Except.ok.injEq, Exec.sat_zoom, Exec.sat_modify, reduceCtorEq,
    false_implies, implies_true, and_true]
  rintro _ rfl
  refine (Exec.sat_self _ _).mono (fun _ diffState _ => ?_) fun _ diffState _ => by simp
  refine (confirmHeaders_progress mgr _ _).mono (fun _ after same => ?_) fun _ after same => ?_
  all_goals
    simp only [Prod.mk.injEq] at same
    exact ⟨same.1, by rw [same.2]⟩

theorem addHeader_completes {before : BlockchainMgr} (noNode : before.checkpoint.lastNode = none)
    (header : HeaderMgr) :
    Exec.Sat (thenComplete (parts mgr) (CheckpointMgr.addHeader (some header))) before
      (fun _ after => Completes before after) (fun _ after => Completes before after) := by
  simp only [thenComplete, onCheckpoint, Exec.sat_bind, Exec.sat_zoom]
  have added := CheckpointMgr.addHeader_ok noNode header
  by_cases full : before.checkpoint.chkptSize ≤ before.checkpoint.candidate.length + 1
  · rw [if_pos full] at added
    refine Exec.Sat.intro_ok added ((onCheckpointComplete_sat mgr header ?_).mono
      (fun _ _ done => ⟨done.1, .inl done.2⟩) fun _ _ done => ⟨done.1, .inl done.2⟩)
    simp [CheckpointMgr.getLastHeader, noNode]
  · rw [if_neg full] at added
    exact Exec.Sat.intro_ok added ⟨rfl, .inr (.inl (by simp [tally]))⟩

theorem addNode_completes {before : BlockchainMgr} {last : HeaderNode}
    (hasLast : before.checkpoint.lastNode = some last) (node : HeaderNode) :
    Exec.Sat (thenComplete (parts mgr) (CheckpointMgr.addNode (some node))) before
      (fun _ after => Completes before after) (fun _ after => Completes before after) := by
  simp only [thenComplete, onCheckpoint, CheckpointMgr.addNode, Exec.sat_bind, Exec.sat_zoom,
    Exec.sat_get, Exec.sat_ite, Exec.sat_modify, Exec.sat_pure]
  refine ⟨fun _ => ⟨fun _ => ?_, fun impossible => (impossible trivial).elim⟩,
    fun _ => ⟨fun impossible => absurd impossible Bool.false_ne_true, fun _ => ?_⟩⟩
  · exact (onCheckpointComplete_sat mgr node.header rfl).mono
      (fun _ _ done => ⟨done.1, .inl done.2⟩) fun _ _ done => ⟨done.1, .inl done.2⟩
  · simp only [hasLast]
    refine ⟨rfl, .inr ?_⟩
    cases isCandidate : before.checkpoint.isLastNodeCandidate with
    | true => exact .inl (by simp [tally])
    | false => exact .inr (by simp [tally])

/-! ## From the phase check to the end -/

/-- The child that the maintenance would release, with what it leaves. -/
def releasable (manager : BlockchainMgr) : Option (HeaderNode × HeaderNode) :=
  manager.checkpoint.lastNode.bind fun last => last.releaseChildHasNDesc (parts mgr).chkptSize

/-- The block ends bootstrap II. -/
def endsBootstrapII (manager : BlockchainMgr) (blkNum : BlockNumber) : Prop :=
  manager.shared.phase = .bootstrapII ∧ blkNum = manager.shared.planedSyncBlkNum

theorem newSyncState_keeps (readings : Readings HostBlockService) :
    Exec.Keeps (Shared.newSyncState mgr.codec readings)
      fun shared : Monitored => (shared.phase, shared.secState) := by
  refine .bind (Exec.keeps_modify fun _ => rfl) fun _ => (Exec.keeps_ofExcept _).bind fun _ => ?_
  exact (Exec.keeps_ofExcept _).bind fun _ => Exec.keeps_modify fun _ => rfl

/-- All stays as it was without a child to release, and a count advances with one. -/
def Releases (before after : BlockchainMgr) : Prop :=
  after.shared.phase = before.shared.phase ∧
    match releasable mgr before with
    | none => after = before
    | some _ => Advances (tally before) (tally after)

theorem confirmChild_releases (before : BlockchainMgr) :
    Exec.Sat (confirmChild (parts mgr)) before (fun _ after => Releases mgr before after)
      (fun _ after => Releases mgr before after) := by
  simp only [confirmChild, Exec.sat_bind, Exec.sat_get, Exec.sat_ofExcept]
  cases hasLast : before.checkpoint.lastNode with
  | none => simp [CheckpointMgr.getLastNode, hasLast, Releases, releasable]
  | some last =>
    simp only [CheckpointMgr.getLastNode, hasLast, Except.ok.injEq, reduceCtorEq, false_implies,
      implies_true, and_true]
    rintro _ rfl
    cases released : last.releaseChildHasNDesc (parts mgr).chkptSize with
    | none => simp [Releases, releasable, hasLast, released]
    | some pair =>
      have is_releasable : releasable mgr before = some pair := by
        simp [releasable, hasLast, released]
      obtain ⟨child, remaining⟩ := pair
      simp only [Releases, is_releasable, moveToCheckpoint, Exec.sat_bind, Exec.sat_modify]
      exact (addNode_completes mgr (show _ = some remaining from rfl) child).mono (fun _ _ done => done)
        fun _ _ done => done

theorem runtimeMaintenance_releases (readings : Readings HostBlockService) (before : BlockchainMgr) :
    Exec.Sat (runtimeMaintenance (parts mgr) readings) before
      (fun _ after => Releases mgr before after) (fun _ after => Releases mgr before after) := by
  rw [runtimeMaintenance, Exec.sat_bind]
  exact (confirmChild_releases mgr before).mono
    (fun _ _ => (expireNodes_keeps (parts mgr) readings id).sat_id (Releases mgr before))
    fun _ _ => id

/-- The maintenance, where `Update` runs it. -/
theorem maintain_releases (readings : Readings HostBlockService) {before : BlockchainMgr}
    (later : before.shared.phase ≠ .bootstrapI) :
    Exec.Sat (do
        if (← Exec.get).shared.phase ≠ .bootstrapI then runtimeMaintenance (parts mgr) readings)
      before (fun _ after => Releases mgr before after) (fun _ after => Releases mgr before after) := by
  simp only [Exec.sat_bind, Exec.sat_get, ne_eq, later, not_false_eq_true, if_true]
  exact runtimeMaintenance_releases mgr readings before

/-- Outside of bootstrap I: what the phase check and the maintenance leave. -/
def Settles (blkNum : BlockNumber) (before after : BlockchainMgr) : Prop :=
  (endsBootstrapII before blkNum → after.shared.phase = .sync) ∧
    (¬ endsBootstrapII before blkNum → Releases mgr before after)

theorem afterAdd_settles (readings : Readings HostBlockService) {before : BlockchainMgr}
    (blkNum : BlockNumber) (later : before.shared.phase ≠ .bootstrapI) :
    Exec.Sat (do
        phaseChangeCheck (parts mgr) readings blkNum
        if (← Exec.get).shared.phase ≠ .bootstrapI then runtimeMaintenance (parts mgr) readings)
      before (fun _ after => Settles mgr blkNum before after)
      (fun _ after => Settles mgr blkNum before after) := by
  have maintains : ¬ endsBootstrapII before blkNum → Exec.Sat (do
        if (← Exec.get).shared.phase ≠ .bootstrapI then runtimeMaintenance (parts mgr) readings)
      before (fun _ after => Settles mgr blkNum before after)
      (fun _ after => Settles mgr blkNum before after) := fun stays =>
    (maintain_releases mgr readings later).mono
      (fun _ _ releases => ⟨fun ends => (stays ends).elim, fun _ => releases⟩)
      fun _ _ releases => ⟨fun ends => (stays ends).elim, fun _ => releases⟩
  rw [Exec.sat_bind]
  simp only [phaseChangeCheck, Exec.sat_bind, Exec.sat_get]
  cases phase : before.shared.phase with
  | bootstrapI => exact (later phase).elim
  | sync => exact maintains (by simp [endsBootstrapII, phase])
  | runtime => exact maintains (by simp [endsBootstrapII, phase])
  | bootstrapII =>
    by_cases planed : blkNum = before.shared.planedSyncBlkNum
    · have ends : endsBootstrapII before blkNum := ⟨phase, planed⟩
      have settles : ∀ after : BlockchainMgr, after.shared.phase = .sync →
          Settles mgr blkNum before after :=
        fun _ isSync => ⟨fun _ => isSync, fun stays => (stays ends).elim⟩
      simp only [planed, if_true, refreshSyncMsg, onShared]
      rw [Exec.sat_zoom, Exec.sat_bind, Exec.sat_modify]
      refine (newSyncState_keeps mgr readings _).mono (fun _ shared same => ?_) fun _ shared same => ?_
      · have isSync : shared.phase = .sync := congrArg Prod.fst same
        refine (maintain_releases mgr readings (by simp [isSync])).mono (fun _ after releases => ?_)
          fun _ after releases => ?_
        · exact planed ▸ settles after (releases.1.trans isSync)
        · exact planed ▸ settles after (releases.1.trans isSync)
      · exact planed ▸ settles _ (congrArg Prod.fst same)
    · simp only [planed, if_false, Exec.sat_pure]
      exact maintains fun ends => planed ends.2

/-! ## Which exceptions leave no trace -/

/-- The header is the first one, or passes the validation against the last one. -/
def passesOnBootstrapI (manager : BlockchainMgr) (header : HeaderMgr) : Prop :=
  manager.checkpoint.isEmpty = true ∨ ∃ lastHeader, manager.checkpoint.getLastHeader = .ok lastHeader ∧
    (validator mgr.selector).commonValidate lastHeader false header false = .ok true

/-- The parent of the header is found, and the validation against it throws. -/
def validationThrows (manager : BlockchainMgr) (header : HeaderMgr) : Prop :=
  ∃ addr isParentLive parent error, manager.findParent header = some (addr, isParentLive) ∧
    manager.deref addr = some parent ∧
    (validator mgr.selector).commonValidate parent isParentLive header manager.shared.isSynced =
      .error error

/-- Where the exceptions of a block that leave no trace come from.  In bootstrap I: the parser, the
    validation, or the callback while it has changed nothing.  Later: the parser, the validation, the
    callback while it has changed nothing, or, with a header that is not added, the maintenance when the
    block ends no phase and confirms no child. -/
def leavesNoTrace (manager : BlockchainMgr) (readings : Readings HostBlockService)
    (headerRlp : Bytes) : Prop :=
  if manager.shared.phase = .bootstrapI then
    ∀ header, HeaderMgr.ofBinary mgr.codec headerRlp 0 = .ok header →
      passesOnBootstrapI mgr manager header →
        (manager.checkpoint.isEmpty = true → manager.shared.secState.genesisHash = header.hashObj) ∧
          quiet mgr readings.host header manager.shared
  else
    ∀ header, arrival (parts mgr) readings headerRlp = .ok header →
      validationThrows mgr manager header ∨
        match acceptHeader (parts mgr) manager header with
        | some _ => quiet mgr readings.host header manager.shared
        | none => ¬ endsBootstrapII manager header.blkNum ∧ releasable mgr manager = none

theorem validateOnBootstrapI_sat (before : BlockchainMgr) (header : HeaderMgr) :
    Exec.Sat (validateOnBootstrapI (parts mgr) header) before
      (fun _ after => passesOnBootstrapI mgr before header ∧ tally after = tally before ∧
        (∃ secState, after = { before with shared := { before.shared with secState } }) ∧
        (after = before ↔ (before.checkpoint.isEmpty = true →
          before.shared.secState.genesisHash = header.hashObj)))
      (fun _ after => after = before ∧ ¬ passesOnBootstrapI mgr before header) := by
  have refuses : ∀ {lastHeader : HeaderMgr} {result : Except Exception Bool},
      ¬ before.checkpoint.isEmpty = true → before.checkpoint.getLastHeader = .ok lastHeader →
      (validator mgr.selector).commonValidate lastHeader false header false = result →
      result ≠ .ok true → ¬ passesOnBootstrapI mgr before header := by
    rintro lastHeader result nonempty hasLast validated refused (empty | ⟨_, hasLast', passed⟩)
    · exact nonempty empty
    · cases hasLast.symm.trans hasLast'
      exact refused (validated.symm.trans passed)
  simp only [validateOnBootstrapI, Exec.sat_bind, Exec.sat_get, Exec.sat_ite, onShared, Exec.sat_zoom,
    Exec.sat_modify, Exec.sat_ofExcept, Exec.sat_throwIf]
  refine ⟨fun empty => ⟨.inl empty, rfl, ⟨_, rfl⟩, fun same _ => ?_, fun same => ?_⟩,
    fun nonempty => ⟨fun lastHeader hasLast => ⟨fun valid validated => ⟨fun refused => ?_,
      fun passed => ?_⟩, fun error failed => ?_⟩, fun error noLast => ?_⟩⟩
  · exact (congrArg (fun manager : BlockchainMgr => manager.shared.secState.genesisHash) same).symm
  · rw [← same empty]
  · refine ⟨trivial, refuses nonempty hasLast validated ?_⟩
    rintro ⟨⟩
    simp at refused
  · have isTrue : valid = true := by simpa using passed
    exact ⟨.inr ⟨lastHeader, hasLast, isTrue ▸ validated⟩, trivial, ⟨_, rfl⟩, by simp [nonempty]⟩
  · exact ⟨trivial, refuses nonempty hasLast failed (by simp)⟩
  · refine ⟨trivial, ?_⟩
    rintro (empty | ⟨_, hasLast, -⟩)
    · exact nonempty empty
    · cases noLast.symm.trans hasLast

/-- `EndBootstrapI` throws before it changes anything. -/
theorem endBootstrapI_sat (before : BlockchainMgr) :
    Exec.Sat endBootstrapI before (fun _ after => after.shared.phase = .bootstrapII)
      (fun _ after => after = before) := by
  simp only [endBootstrapI, onCheckpoint, CheckpointMgr.endBootstrapPhase, Exec.sat_bind, Exec.sat_get,
    Exec.sat_zoom, Exec.sat_throwIf]
  refine ⟨fun _ => trivial, fun _ => ⟨fun _ => trivial, fun _ => ?_⟩⟩
  cases before.checkpoint.currWindow.getLast? with
  | none => trivial
  | some header => simp [CheckpointMgr.getLastNode]

/-- In bootstrap I, from the add on: whatever throws, a count has advanced or the phase has changed. -/
theorem afterValidation_sat (readings : Readings HostBlockService) (start before : BlockchainMgr)
    (header : HeaderMgr) (startPhase : start.shared.phase = .bootstrapI)
    (phase : before.shared.phase = .bootstrapI) (noNode : before.checkpoint.lastNode = none)
    (sameTally : tally before = tally start) :
    Exec.Sat (do
        thenComplete (parts mgr) (CheckpointMgr.addHeader (some header))
        phaseChangeCheck (parts mgr) readings header.blkNum
        if (← Exec.get).shared.phase ≠ .bootstrapI then runtimeMaintenance (parts mgr) readings)
      before (fun _ _ => True) (fun _ after => listed after ≠ listed start) := by
  have advanced : ∀ {after : BlockchainMgr}, Completes before after → listed after ≠ listed start :=
    fun done same => done.2.ne ((tally_of_listed same).trans sameTally.symm)
  rw [Exec.sat_bind]
  refine (addHeader_completes mgr noNode header).mono (fun _ middle done => ?_)
    fun _ _ done => advanced done
  have isBootstrapI : middle.shared.phase = .bootstrapI := done.1.trans phase
  simp only [phaseChangeCheck, Exec.sat_bind, Exec.sat_get, isBootstrapI, Exec.sat_ite, Exec.sat_pure]
  refine ⟨fun _ => ?_, fun _ => by simp⟩
  refine (endBootstrapI_sat middle).mono (fun _ last isBootstrapII => ?_) fun _ after same => ?_
  · refine ⟨fun _ => ?_, fun _ => trivial⟩
    refine (runtimeMaintenance_releases mgr readings last).mono (fun _ _ _ => trivial) ?_
    intro _ _ releases same
    cases startPhase.symm.trans ((phase_of_listed same).symm.trans (releases.1.trans isBootstrapII))
  · exact same ▸ advanced done

theorem appendBlock_onBootstrapI {before : BlockchainMgr} (readings : Readings HostBlockService)
    (headerRlp : Bytes) (phase : before.shared.phase = .bootstrapI)
    (noNode : before.checkpoint.lastNode = none) :
    Exec.Sat (appendBlock mgr readings headerRlp) before (fun _ _ => True)
      (fun _ after => Leaves before after (leavesNoTrace mgr before readings headerRlp)) := by
  simp only [appendBlock, update, beforeMaintenance, Exec.sat_bind, Exec.sat_get, phase, if_true,
    updateOnBootstrapI, Exec.sat_ofExcept, leavesNoTrace]
  refine ⟨fun header parsed => ?_, fun error unparsed => ?_⟩
  · have trace_iff : (∀ header', HeaderMgr.ofBinary mgr.codec headerRlp 0 = .ok header' →
        passesOnBootstrapI mgr before header' →
          (before.checkpoint.isEmpty = true →
            before.shared.secState.genesisHash = header'.hashObj) ∧
          quiet mgr readings.host header' before.shared) ↔
        (passesOnBootstrapI mgr before header →
          (before.checkpoint.isEmpty = true →
            before.shared.secState.genesisHash = header.hashObj) ∧
          quiet mgr readings.host header before.shared) := by
      refine ⟨fun all => all header parsed, fun one header' parsed' => ?_⟩
      cases Except.ok.inj (parsed.symm.trans parsed')
      exact one
    simp only [trace_iff]
    refine (validateOnBootstrapI_sat mgr before header).mono (fun _ middle validated => ?_)
      fun _ after refused => .of_same refused.1 fun passes => (refused.2 passes).elim
    obtain ⟨passes, sameTally, ⟨secState, isMiddle⟩, same_iff⟩ := validated
    rw [← same_iff]
    simp only [passes, true_implies, onShared, Exec.sat_zoom, Exec.sat_pure]
    refine (onHeaderValidated_sat mgr readings.host header middle.shared).mono
      (fun _ shared returned => ?_) fun _ shared threw => ?_
    · -- validation called something: the step is no longer silent, whatever comes behind it
      have loud : ¬ (middle = before ∧ quiet mgr readings.host header before.shared) := by
        rintro ⟨rfl, silent⟩
        exact returned.2.2 silent
      have samePhase : shared.phase = .bootstrapI := returned.1.trans (isMiddle ▸ phase)
      have rest := (afterValidation_sat mgr readings before { middle with shared } header phase
        samePhase (isMiddle ▸ noNode) (by simpa [tally, returned.2.1] using sameTally)).mono
          (fun _ _ => id) fun _ _ differs => Leaves.of_differs differs loud
      simpa only [Exec.sat_bind, Exec.sat_get] using rest
    · refine ⟨?_, fun same => ?_⟩
      · rintro ⟨rfl, silent⟩
        rw [threw.2.2.1 silent]
      · -- the same lists and the same counts leave the security state as the only difference
        simp only [listed, Prod.mk.injEq] at same
        have sameSecState : middle.shared.secState = before.shared.secState :=
          threw.2.1.symm.trans same.2.2.1.2
        have sameMiddle : middle = before := by
          rw [isMiddle] at sameSecState ⊢
          simp only at sameSecState
          rw [sameSecState]
        exact ⟨sameMiddle, sameMiddle ▸ threw.2.2.2 (sameMiddle ▸ same.2.2.2)⟩
  · apply Leaves.of_same rfl
    intro header parsed
    cases unparsed.symm.trans parsed

/-- A header was added: the phase and the counts stay, and the tree has one node more. -/
def AddsNode (before after : BlockchainMgr) : Prop :=
  after.shared.phase = before.shared.phase ∧ tally after = tally before ∧
    ∃ last last', before.checkpoint.lastNode = some last ∧ after.checkpoint.lastNode = some last' ∧
      last'.nodes.length = last.nodes.length + 1

theorem addNewNode_adds (before : BlockchainMgr) (parentNode : NodeAddr) (header : HeaderMgr)
    (syncState : SyncStateRef) (isNewNodeLive : Bool) :
    Exec.Sat (addNewNode parentNode header syncState isNewNodeLive) before
      (fun _ after => AddsNode before after) (fun _ _ => False) := by
  simp only [addNewNode, Exec.sat_bind, Exec.sat_get]
  cases added : before.checkpoint.lastNode.bind fun last =>
      last.addChild parentNode before.nextAddr header syncState with
  | none => trivial
  | some last' =>
    obtain ⟨last, hasLast, addsChild⟩ := Option.bind_eq_some_iff.mp added
    have longer := (HeaderNode.addChild_spec addsChild).1.length_eq
    simp only [Exec.sat_bind, Exec.sat_modify, Exec.sat_ite]
    exact ⟨fun _ => ⟨rfl, rfl, last, last', hasLast, rfl, longer⟩,
      fun _ => ⟨rfl, rfl, last, last', hasLast, rfl, longer⟩⟩

/-- The look-ups and the checks of a header outside of bootstrap I. -/
theorem addToParent_sat (readings : Readings HostBlockService) (before : BlockchainMgr)
    (header : HeaderMgr) :
    Exec.Sat (addToParent (parts mgr) readings header) before
      (fun _ after => ¬ validationThrows mgr before header ∧
        match acceptHeader (parts mgr) before header with
        | some _ => ¬ quiet mgr readings.host header before.shared ∧ AddsNode before after
        | none => after = before)
      (fun _ after => Leaves before after (validationThrows mgr before header ∨
        match acceptHeader (parts mgr) before header with
        | some _ => quiet mgr readings.host header before.shared
        | none => ¬ endsBootstrapII before header.blkNum ∧ releasable mgr before = none)) := by
  -- with the parent found, validation throws just when the comparison with it does
  have throws_iff : ∀ {parentNode : NodeAddr} {isParentNodeLive : Bool} {parent : HeaderMgr},
      before.findParent header = some (parentNode, isParentNodeLive) →
      before.deref parentNode = some parent →
      (validationThrows mgr before header ↔ ∃ error, (validator mgr.selector).commonValidate parent
        isParentNodeLive header before.shared.isSynced = .error error) := by
    intro parentNode isParentNodeLive parent found owned
    refine ⟨?_, fun ⟨error, failed⟩ => ⟨parentNode, isParentNodeLive, parent, error, found, owned, failed⟩⟩
    rintro ⟨addr, isLive, parent', error, found', owned', failed⟩
    cases found.symm.trans found'
    cases owned.symm.trans owned'
    exact ⟨error, failed⟩
  simp only [addToParent, Exec.sat_bind, Exec.sat_get]
  cases found : before.findParent header with
  | none =>
    have lost : ¬ validationThrows mgr before header := by
      rintro ⟨_, _, _, _, found', -⟩
      cases found.symm.trans found'
    exact ⟨lost, by simp [acceptHeader, found]⟩
  | some entry =>
    obtain ⟨parentNode, isParentNodeLive⟩ := entry
    simp only [updateOnRuntimeAddChild, Exec.sat_bind, Exec.sat_get]
    cases owned : before.deref parentNode with
    | none => trivial
    | some parent =>
      simp only [Exec.sat_bind, Exec.sat_ofExcept, Exec.sat_ite, Exec.sat_pure, Bool.and_eq_true,
        throws_iff found owned]
      refine ⟨fun validateRes validated => ?_, fun error failed =>
        .of_same rfl (.inl ⟨error, failed⟩)⟩
      have returns : ¬ ∃ error, (validator mgr.selector).commonValidate parent isParentNodeLive header
          before.shared.isSynced = .error error := by
        rintro ⟨error, failed⟩
        cases validated.symm.trans failed
      refine ⟨fun passes => ?_, fun failed => ⟨returns, ?_⟩⟩
      · obtain ⟨valid, -, difficulty⟩ := passes
        subst valid
        -- the header passes: its events are called before it becomes a node
        have accepts : acceptHeader (parts mgr) before header =
            some { addr := parentNode, parent, header } := by
          simp [acceptHeader, found, owned, validated, difficulty]
        simp only [accepts, returns, false_or, onShared, Exec.sat_zoom]
        refine (onHeaderValidated_sat mgr readings.host header before.shared).mono
          (fun _ shared returned => ?_) fun _ shared threw => ?_
        · refine (addNewNode_adds _ _ _ _ _).mono (fun _ after adds => ⟨fun h => h, returned.2.2, ?_⟩)
            fun _ _ impossible => impossible.elim
          exact ⟨adds.1.trans returned.1, adds.2.1.trans (by simp [tally, returned.2.1]), adds.2.2⟩
        · refine ⟨fun silent => by rw [threw.2.2.1 silent], fun same => threw.2.2.2 ?_⟩
          simp only [listed, Prod.mk.injEq] at same
          exact same.2.2.2
      · have refused : acceptHeader (parts mgr) before header = none := by
          have refuses : ¬ (validateRes = true ∧
              (parts mgr).diffChecker.checkDifficulty before.diffState parent header = true) :=
            fun passes => failed ⟨passes.1, passes.1, passes.2⟩
          simpa [acceptHeader, found, owned, validated] using refuses
        simp only [refused]

/-- After a header that is not added, only a step without an effect leaves no trace. -/
theorem Settles.leaves {blkNum : BlockNumber} {before after : BlockchainMgr}
    (settles : Settles mgr blkNum before after) :
    Leaves before after (¬ endsBootstrapII before blkNum ∧ releasable mgr before = none) := by
  by_cases ends : endsBootstrapII before blkNum
  · refine .of_differs (fun same => ?_) fun stays => stays.1 ends
    cases (settles.1 ends).symm.trans ((phase_of_listed same).trans ends.1)
  · have releases := (settles.2 ends).2
    cases released : releasable mgr before with
    | none =>
      rw [released] at releases
      exact .of_same releases ⟨ends, rfl⟩
    | some pair =>
      rw [released] at releases
      exact .of_differs releases.differs fun stays => nomatch stays.2

/-- A header that was added stays visible, whatever follows. -/
theorem Settles.differs_of_addsNode {blkNum : BlockNumber} {start before after : BlockchainMgr}
    (settles : Settles mgr blkNum before after) (adds : AddsNode start before) :
    listed after ≠ listed start := by
  obtain ⟨samePhase, sameTally, last, last', hasLast, hasLast', longer⟩ := adds
  intro same
  by_cases ends : endsBootstrapII before blkNum
  · have stillBootstrapII := (phase_of_listed same).trans (samePhase.symm.trans ends.1)
    cases (settles.1 ends).symm.trans stillBootstrapII
  · have releases := (settles.2 ends).2
    cases released : releasable mgr before with
    | none =>
      rw [released] at releases
      subst releases
      have sameLast : last' = last := by
        simp only [listed, Prod.mk.injEq] at same
        rw [same.1] at hasLast'
        exact Option.some.inj (hasLast'.symm.trans hasLast)
      rw [sameLast] at longer
      omega
    | some pair =>
      rw [released, sameTally] at releases
      exact releases.differs same

theorem appendBlock_onRuntime {before : BlockchainMgr} (readings : Readings HostBlockService)
    (headerRlp : Bytes) (later : before.shared.phase ≠ .bootstrapI) :
    Exec.Sat (appendBlock mgr readings headerRlp) before (fun _ _ => True)
      (fun _ after => Leaves before after (leavesNoTrace mgr before readings headerRlp)) := by
  have leaves : ∀ {header : HeaderMgr}, arrival (parts mgr) readings headerRlp = .ok header →
      (leavesNoTrace mgr before readings headerRlp ↔ validationThrows mgr before header ∨
        match acceptHeader (parts mgr) before header with
        | some _ => quiet mgr readings.host header before.shared
        | none => ¬ endsBootstrapII before header.blkNum ∧ releasable mgr before = none) := by
    intro header arrived
    simp only [leavesNoTrace, later, if_false, arrived, Except.ok.injEq, forall_eq']
  -- a header without a time or that does not parse changes nothing
  have lost : ∀ {error : Exception}, arrival (parts mgr) readings headerRlp = .error error →
      leavesNoTrace mgr before readings headerRlp := by
    intro error failed
    simp only [leavesNoTrace, later, if_false, failed, reduceCtorEq, false_implies, implies_true]
  simp only [appendBlock, update, beforeMaintenance, Exec.sat_bind, Exec.sat_get, later, if_false,
    updateOnRuntime, Exec.sat_ofExcept]
  refine ⟨fun arrivalTime arrived => ⟨fun header parsed => ?_, fun error unparsed => ?_⟩,
    fun error failed => ?_⟩
  · have isArrival : arrival (parts mgr) readings headerRlp = .ok header := by
      rw [arrival, arrived]
      exact parsed
    simp only [leaves isArrival, Exec.sat_pure]
    refine (addToParent_sat mgr readings before header).mono (fun _ middle added => ?_)
      fun _ after threw => ?_
    · obtain ⟨validated, added⟩ := added
      simp only [validated, false_or]
      cases accepts : acceptHeader (parts mgr) before header with
      | some acceptance =>
        simp only [accepts] at added
        -- the tree has grown, so what fails later leaves a trace
        have stillLater : middle.shared.phase ≠ .bootstrapI := added.2.1 ▸ later
        have rest : Exec.Sat _ middle (fun _ _ => True)
            (fun _ after => Leaves before after (quiet mgr readings.host header before.shared)) :=
          (afterAdd_settles mgr readings header.blkNum stillLater).mono (fun _ _ _ => trivial)
            fun _ _ settles => .of_differs (settles.differs_of_addsNode mgr added.2) added.1
        simpa only [Exec.sat_bind, Exec.sat_get] using rest
      | none =>
        simp only [accepts] at added
        subst added
        have rest : Exec.Sat _ middle (fun _ _ => True) (fun _ after => Leaves middle after
            (¬ endsBootstrapII middle header.blkNum ∧ releasable mgr middle = none)) :=
          (afterAdd_settles mgr readings header.blkNum later).mono (fun _ _ _ => trivial)
            fun _ _ settles => settles.leaves mgr
        simpa only [Exec.sat_bind, Exec.sat_get] using rest
    · exact threw
  · exact .of_same rfl (lost (by rw [arrival, arrived]; exact unparsed))
  · exact .of_same rfl (lost (by rw [arrival, failed]; rfl))

/-! ## Every reachable state -/

/-- There is no last node in bootstrap I. -/
def NoNodeYet (manager : BlockchainMgr) : Prop :=
  manager.shared.phase = .bootstrapI → manager.checkpoint.lastNode = none

theorem NoNodeYet.of_later {manager : BlockchainMgr} (later : manager.shared.phase ≠ .bootstrapI) :
    NoNodeYet manager := fun phase => (later phase).elim

theorem addToParent_phase (readings : Readings HostBlockService) (header : HeaderMgr) :
    Exec.Keeps (addToParent (parts mgr) readings header)
      fun manager : BlockchainMgr => manager.shared.phase := by
  have validated_keeps : Exec.Keeps (onShared (onHeaderValidated mgr readings.host header))
      fun manager : BlockchainMgr => manager.shared.phase := by
    intro before
    simp only [onShared, Exec.sat_zoom]
    exact (onHeaderValidated_sat mgr readings.host header _).mono (fun _ _ done => done.1)
      fun _ _ done => done.1
  have added_keeps : ∀ (addr : NodeAddr) (ref : SyncStateRef) (isLive : Bool),
      Exec.Keeps (addNewNode addr header ref isLive)
        fun manager : BlockchainMgr => manager.shared.phase := fun addr ref isLive before =>
    (addNewNode_adds before addr header ref isLive).mono (fun _ _ adds => adds.1)
      fun _ _ impossible => impossible.elim
  refine Exec.keeps_get.bind fun monitor => ?_
  cases monitor.findParent header with
  | none => exact Exec.keeps_pure ()
  | some entry =>
    refine Exec.keeps_get.bind fun monitor => ?_
    cases monitor.deref entry.1 with
    | none => exact Exec.keeps_undefined
    | some parent =>
      refine (Exec.keeps_ofExcept _).bind fun valid => .ite ?_ (Exec.keeps_pure ())
      exact validated_keeps.bind fun _ => added_keeps _ _ _

theorem Settles.later {blkNum : BlockNumber} {before after : BlockchainMgr}
    (settles : Settles mgr blkNum before after) (later : before.shared.phase ≠ .bootstrapI) :
    after.shared.phase ≠ .bootstrapI := by
  by_cases ends : endsBootstrapII before blkNum
  · simp [settles.1 ends]
  · rw [(settles.2 ends).1]
    exact later

theorem appendBlock_later {before : BlockchainMgr} (readings : Readings HostBlockService)
    (headerRlp : Bytes) (later : before.shared.phase ≠ .bootstrapI) :
    Exec.Sat (appendBlock mgr readings headerRlp) before
      (fun _ after => after.shared.phase ≠ .bootstrapI)
      (fun _ after => after.shared.phase ≠ .bootstrapI) := by
  simp only [appendBlock, update, beforeMaintenance, Exec.sat_bind, Exec.sat_get, later, if_false,
    updateOnRuntime, Exec.sat_ofExcept, Exec.sat_pure]
  refine ⟨fun arrivalTime _ => ⟨fun header _ => ?_, fun _ _ => later⟩, fun _ _ => later⟩
  refine (addToParent_phase mgr readings header before).mono (fun _ middle same => ?_)
    fun _ after same => same.trans_ne later
  have stillLater : middle.shared.phase ≠ .bootstrapI := same.trans_ne later
  have rest := (afterAdd_settles mgr readings header.blkNum stillLater).mono
    (fun _ _ settles => settles.later mgr stillLater) fun _ _ settles => settles.later mgr stillLater
  simpa only [Exec.sat_bind, Exec.sat_get] using rest

theorem addHeader_noNode {before : BlockchainMgr} (noNode : before.checkpoint.lastNode = none)
    (header : HeaderMgr) :
    Exec.Sat (thenComplete (parts mgr) (CheckpointMgr.addHeader (some header))) before
      (fun _ after => after.checkpoint.lastNode = none)
      (fun _ after => after.checkpoint.lastNode = none) := by
  apply thenComplete_sat (parts mgr) fun forest => forest.lastNode = none
  exact (addHeader_keeps (some header) before.checkpoint).mono (fun _ _ same => same.trans noNode)
    fun _ _ same => same.trans noNode

theorem afterAdd_noNodeYet (readings : Readings HostBlockService) {before : BlockchainMgr}
    (blkNum : BlockNumber) (noNode : before.checkpoint.lastNode = none) :
    Exec.Sat (do
        phaseChangeCheck (parts mgr) readings blkNum
        if (← Exec.get).shared.phase ≠ .bootstrapI then runtimeMaintenance (parts mgr) readings)
      before (fun _ after => NoNodeYet after) (fun _ after => NoNodeYet after) := by
  by_cases phase : before.shared.phase = .bootstrapI
  · simp only [phaseChangeCheck, Exec.sat_bind, Exec.sat_get, phase, Exec.sat_ite, Exec.sat_pure]
    refine ⟨fun _ => ?_, fun _ => ⟨fun later => (later rfl).elim, fun _ _ => noNode⟩⟩
    refine (endBootstrapI_sat before).mono (fun _ ended isBootstrapII => ⟨fun later => ?_, fun stays => ?_⟩)
      fun _ after same => same ▸ fun _ => noNode
    · exact (runtimeMaintenance_releases mgr readings ended).mono
        (fun _ _ releases => .of_later (releases.1.trans_ne later))
        fun _ _ releases => .of_later (releases.1.trans_ne later)
    · exact (stays (by simp [isBootstrapII])).elim
  · exact (afterAdd_settles mgr readings blkNum phase).mono
      (fun _ _ settles => .of_later (settles.later mgr phase))
      fun _ _ settles => .of_later (settles.later mgr phase)

theorem appendBlock_noNodeYet {before : BlockchainMgr} (readings : Readings HostBlockService)
    (headerRlp : Bytes) (noNodeYet : NoNodeYet before) :
    Exec.Sat (appendBlock mgr readings headerRlp) before (fun _ after => NoNodeYet after)
      (fun _ after => NoNodeYet after) := by
  by_cases phase : before.shared.phase = .bootstrapI
  · have noNode := noNodeYet phase
    simp only [appendBlock, update, beforeMaintenance, Exec.sat_bind, Exec.sat_get, phase, if_true,
      updateOnBootstrapI, Exec.sat_ofExcept, Exec.sat_pure]
    refine ⟨fun header _ => ?_, fun _ _ => noNodeYet⟩
    refine (validateOnBootstrapI_sat mgr before header).mono (fun _ middle validated => ?_)
      fun _ after refused => refused.1 ▸ noNodeYet
    obtain ⟨-, -, ⟨secState, rfl⟩, -⟩ := validated
    simp only [onShared, Exec.sat_zoom]
    refine (onHeaderValidated_sat mgr readings.host header _).mono (fun _ shared _ => ?_)
      fun _ shared _ => fun _ => noNode
    refine (addHeader_noNode mgr (by exact noNode) header).mono (fun _ added stillNoNode => ?_)
      fun _ _ stillNoNode => fun _ => stillNoNode
    have rest := afterAdd_noNodeYet mgr readings header.blkNum stillNoNode
    simpa only [Exec.sat_bind, Exec.sat_get] using rest
  · exact (appendBlock_later mgr readings headerRlp phase).mono (fun _ _ => .of_later)
      fun _ _ => .of_later

theorem step_noNodeYet {before after : BlockchainMgr} {action : Action}
    (noNodeYet : NoNodeYet before) (stepped : Step mgr before action after) : NoNodeYet after := by
  have frame : ∀ {call : Exec Exception Monitored Unit}, Exec.Keeps call Shared.phase →
      Exec.Sat (onShared call) before (fun _ after => NoNodeYet after)
        (fun _ after => NoNodeYet after) := by
    intro call keeps
    simp only [onShared, Exec.sat_zoom]
    exact (keeps before.shared).mono (fun _ _ same phase => noNodeYet (same.symm.trans phase))
      fun _ _ same phase => noNodeYet (same.symm.trans phase)
  refine Exec.Sat.ends NoNodeYet ?_ stepped
  cases action with
  | appendBlock readings headerRlp => exact appendBlock_noNodeYet mgr readings headerRlp noNodeYet
  | subscribe evMgrAddr allocate =>
    refine frame (Exec.keeps_get.bind fun _ => .bind (Exec.keeps_modify fun _ => rfl) fun _ => ?_)
    exact Exec.keeps_modify fun _ => rfl
  | takeEvents eventQueue => exact frame (Exec.keeps_modify fun _ => rfl)
  | unsubscribe id => exact frame (Exec.keeps_modify fun _ => rfl)

theorem run_noNodeYet {args : InitArgs} {taken : List (BlockchainMgr × Action)}
    {final : BlockchainMgr} (run : Run (Step mgr) (init mgr args) taken final) : NoNodeYet final :=
  run.invariant (fun _ _ => True) (fun _ manager => NoNodeYet manager) (fun _ => rfl)
    (fun _ _ _ _ held _ stepped => step_noNodeYet mgr held stepped) fun _ _ => trivial

/-- A block that makes `AppendBlock` throw leaves all that is listed as it was, if and only if the exception
    is one that leaves no trace, and then nothing else has changed either. -/
theorem appendBlock_atomic_iff {args : InitArgs} {taken : List (BlockchainMgr × Action)}
    {before after : BlockchainMgr} {readings : Readings HostBlockService} {headerRlp : Bytes}
    {error : Exception} (run : Run (Step mgr) (init mgr args) taken before)
    (threw : appendBlock mgr readings headerRlp before = .throws error after) :
    (listed after = listed before ↔ leavesNoTrace mgr before readings headerRlp) ∧
      (leavesNoTrace mgr before readings headerRlp → after = before) := by
  have leaves : Leaves before after (leavesNoTrace mgr before readings headerRlp) := by
    by_cases phase : before.shared.phase = .bootstrapI
    · have noNode := run_noNodeYet mgr run phase
      exact (appendBlock_onBootstrapI mgr readings headerRlp phase noNode).of_throws threw
    · exact (appendBlock_onRuntime mgr readings headerRlp phase).of_throws threw
  exact ⟨⟨leaves.2, fun silent => by rw [leaves.1 silent]⟩, leaves.1⟩

end BlockchainMgr

/-! ## A message that is delivered twice -/

namespace SampleClient

open SampleChain

def message : Bytes := [1]

/-- The message as the data of a log. -/
def logData : Bytes :=
  List.replicate 31 0 ++ [32] ++ List.replicate 31 0 ++ [1] ++ message ++ List.replicate 31 0

def log : ReceiptLogEntry where
  contractAddr := Vector.replicate 20 0
  topics := [Vector.replicate 32 0]
  logData

def bloom : Bytes := List.replicate HeaderMgr.bloomByteSize 0xFF

def receipt : Bytes :=
  rlpList [rlpBytes [1], rlpBytes (toBytes 63000), rlpBytes bloom, rlpList [rlpList [
    rlpBytes log.contractAddr.toList, rlpList (log.topics.map fun topic => rlpBytes topic.toList),
    rlpBytes log.logData]]]

/-- The hash of the trie that holds this receipt alone. -/
def receiptsRoot : Bytes :=
  [182, 245, 67, 32, 236, 137, 253, 18, 25, 157, 222, 153, 87, 23, 223, 237, 252, 182, 126, 180, 255,
    110, 240, 53, 96, 121, 45, 60, 46, 163, 101, 150]

/-- A child of block 0 with the message. -/
def loudBlock : Block where
  rawHeader := { rawHeader block0.hash.toList 1 with receiptsRoot, logsBloom := bloom }
  extraData := []
  hash := #v[158, 140, 0, 214, 123, 71, 253, 22, 188, 244, 171, 251, 95, 178, 61, 226, 249, 51, 117,
    180, 189, 135, 161, 22, 15, 188, 185, 161, 188, 254, 8, 237]

def mgr : MgrConfig where
  config
  selector := .goerli
  codec := codecOf [block0, loudBlock]
  receipts := {
    fromBytes := fun binary =>
      if binary = receipt then .ok { logEntries := [log] } else .error "Not the sample receipt"
    trieHash := fun receipts =>
      if receipts = [receipt] then .ok receiptsRoot else .error "Not the sample receipts" }
  abi := {
    toMessage := fun data => if data = logData then .ok message else .error "Not the sample log"
    toWords := fun _ => .error "Not two words" }

/-- Fresh addresses. -/
def allocate (used : List EventCallbackId) : EventCallbackId := used.foldr max 0 + 1

def args : BlockchainMgr.InitArgs where
  startBlockNum := firstBlkNum
  syncContractAddr := Vector.replicate 20 0
  syncEventSign := Vector.replicate 32 0
  store := {
    pubsubContAddr := Vector.replicate 20 0
    deployEvTopic := Vector.replicate 32 0
    regEvTopic := Vector.replicate 32 0
    notifyEvTopic := Vector.replicate 32 0
    isDeployed := false
    evMgrAddrMap := ∅
    pastEventStore := ∅ }
  minDiff := 0
  sessId := Vector.replicate 16 0
  genTime := 1700000000
  nonce := Vector.replicate 32 0
  syncListenId := 0
  latestBlkNum := firstBlkNum + 5
  deployListenId := 1

/-- The host with one receipt in every block. -/
def readings (latestBlockNum : Except Exception BlockNumber) : Readings HostBlockService where
  arrivalTime := .ok 1700000100
  genTime := .ok 1700000100
  nonce := .ok (Vector.replicate 32 0)
  listenId := 3
  sweepTime := .ok 1700000100
  host := {
    getReceiptsRlpByNum := fun _ => .ok [receipt]
    getLatestBlockNum := latestBlockNum
    allocate }

def lost : Readings HostBlockService := readings (.error "Lost the connection")

def found : Readings HostBlockService := readings (.ok (firstBlkNum + 5))

def execute (before : BlockchainMgr) (action : BlockchainMgr.Action) : Option BlockchainMgr :=
  match BlockchainMgr.perform mgr action before with
  | .ok _ after => some after
  | _ => none

theorem step_of_execute (before : BlockchainMgr) (action : BlockchainMgr.Action) (after : BlockchainMgr)
    (executed : execute before action = some after) : BlockchainMgr.Step mgr before action after := by
  unfold execute at executed
  split at executed
  next _ _ returned => exact .inl ⟨(), by rw [returned]; simpa using executed⟩
  next => cases executed

/-- A subscription, and block 0. -/
def subscribed : Option (List (BlockchainMgr × BlockchainMgr.Action) × BlockchainMgr) :=
  Run.replay execute
    [.subscribe (Vector.replicate 20 0) allocate, .appendBlock found block0.binary] [] (.init mgr args)

theorem run_of_subscribed {taken : List (BlockchainMgr × BlockchainMgr.Action)}
    {final : BlockchainMgr} (replayed : subscribed = some (taken, final)) :
    Run (BlockchainMgr.Step mgr) (.init mgr args) taken final :=
  Run.of_replay step_of_execute .nil replayed

end SampleClient

namespace BlockchainMgr

open SampleChain SampleClient

/-- The events that the clients have in their queues after a call. -/
def queuesAfter (outcome : Lib.Outcome Exception BlockchainMgr Unit) : Option (List EventDataQueue) :=
  match outcome with
  | .ok _ after => some after.shared.owner.eventQueues
  | _ => none

/-- The host fails after the message is delivered, and then gets the same block in. -/
theorem loudBlock_throws :
    ∃ taken before error after, Run (Step mgr) (init mgr args) taken before ∧
      appendBlock mgr lost loudBlock.binary before = .throws error after ∧
      after.shared.owner.delivered.length = 1 ∧ before.shared.owner.delivered = [] ∧
      queuesAfter (appendBlock mgr found loudBlock.binary after) = some [[
        { blkNum := loudBlock.rawHeader.number, evMsg := message },
        { blkNum := loudBlock.rawHeader.number, evMsg := message }]] := by
  have replays : subscribed.any (fun replayed =>
      decide ((appendBlock mgr lost loudBlock.binary replayed.2).Throws fun _ after =>
        after.shared.owner.delivered.length = 1 ∧ replayed.2.shared.owner.delivered = [] ∧
          queuesAfter (appendBlock mgr found loudBlock.binary after) = some [[
            { blkNum := loudBlock.rawHeader.number, evMsg := message },
            { blkNum := loudBlock.rawHeader.number, evMsg := message }]])) = true := by
    decide +kernel
  obtain ⟨⟨taken, before⟩, replayed, checks⟩ := (Option.any_eq_true _ _).mp replays
  obtain ⟨error, after, threw, checked⟩ := Outcome.throws_iff.mp (of_decide_eq_true checks)
  exact ⟨taken, before, error, after, run_of_subscribed replayed, threw, checked⟩

theorem appendBlock_atomic_iff_sample :
    ∃ taken before error after, Run (Step mgr) (init mgr args) taken before ∧
      appendBlock mgr lost loudBlock.binary before = .throws error after ∧
      (listed after = listed before ↔ leavesNoTrace mgr before lost loudBlock.binary) := by
  obtain ⟨taken, before, error, after, run, threw, -⟩ := loudBlock_throws
  exact ⟨taken, before, error, after, run, threw, (appendBlock_atomic_iff mgr run threw).1⟩

/-- A message is delivered, the block throws, and with the same block it is delivered again. -/
theorem appendBlock_delivers_twice :
    ∃ taken before error after, Run (Step mgr) (init mgr args) taken before ∧
      appendBlock mgr lost loudBlock.binary before = .throws error after ∧
      listed after ≠ listed before ∧
      queuesAfter (appendBlock mgr found loudBlock.binary after) = some [[
        { blkNum := loudBlock.rawHeader.number, evMsg := message },
        { blkNum := loudBlock.rawHeader.number, evMsg := message }]] := by
  obtain ⟨taken, before, error, after, run, threw, one, zero, twice⟩ := loudBlock_throws
  refine ⟨taken, before, error, after, run, threw, fun same => ?_, twice⟩
  have sameDelivered : after.shared.owner.delivered = before.shared.owner.delivered := by
    simp only [listed, shown, Prod.mk.injEq] at same
    exact same.2.2.2.2
  simp [sameDelivered, zero] at one

end BlockchainMgr

end Decentagram.EthereumClt
