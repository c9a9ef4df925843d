import Decentagram.EclipseMonitor.EventDelivery
import Decentagram.EclipseMonitor.SharedState
import Decentagram.Ethereum.UpdateAtomicity

/-! # How often an event is delivered

Every `AppendBlock` delivers a prefix of one callback plan, under the hash of its header.  So the events of
a block are delivered once as long as its header passes the checks once.
-/

namespace Decentagram.EthereumClt

open Decentagram.Lib
open Decentagram.Eth
open Decentagram.Eth.EclipseMonitor

/-- A call of a callback plan. -/
abbrev PlanCall := EventCallbackId × NotifyCallback Listener × ReceiptLogEntry

namespace BlockchainMgr

variable (mgr : MgrConfig)

/-! ## One block -/

/-- The record that a call leaves. -/
def deliveryOf (header : HeaderMgr) (call : PlanCall) : Delivery where
  id := call.1
  hash := header.hash
  log := call.2.2

/-- The calls that `CheckEvents` plans. -/
def plannedCalls (host : HostBlockService) (header : HeaderMgr)
    (manager : EventManager (NotifyCallback Listener)) : List PlanCall :=
  match manager.callbackPlans header (receiptsMgrGetter mgr host) with
  | .ok plans => EventManager.planCalls plans
  | .error _ => []

/-- The log entries of the block, as the host tells them. -/
def blockLogs (host : HostBlockService) (header : HeaderMgr) : List ReceiptLogEntry :=
  match receiptsMgrGetter mgr host header.blkNum with
  | .ok receiptsMgr => receiptsMgr.logEntries
  | .error _ => []

/-- The first calls of the plan were made. -/
def Delivers (host : HostBlockService) (header : HeaderMgr) (before after : Monitored) : Prop :=
  ∃ called, called <+: plannedCalls mgr host header before.eventManager ∧
    after.owner.delivered = before.owner.delivered ++ called.map (deliveryOf header)

/-- What a listener does delivers nothing. -/
theorem handle_delivered (allocate : SubscriberService.Allocator) (header : HeaderMgr)
    (log : ReceiptLogEntry) (id : EventCallbackId) (callback : NotifyCallback Listener) :
    Exec.Keeps (SubscriberService.handle mgr.codec mgr.abi allocate header log id callback)
      fun shared => shared.owner.delivered :=
  SubscriberService.handle_frame mgr.codec mgr.abi (fun _ _ _ => rfl) (fun _ _ => rfl) (fun _ _ => rfl)
    allocate header log id callback

theorem notify_delivers (allocate : SubscriberService.Allocator) (call : PlanCall) (header : HeaderMgr)
    (shared : Monitored) :
    Exec.Sat (SubscriberService.notify mgr.codec mgr.abi allocate call.2.1 header call.2.2 call.1) shared
      (fun _ after => after.owner.delivered = shared.owner.delivered ++ [deliveryOf header call])
      (fun _ after => after.owner.delivered = shared.owner.delivered ++ [deliveryOf header call]) := by
  simp only [SubscriberService.notify, SubscriberService.onOwner, Exec.sat_bind, Exec.sat_modify]
  exact handle_delivered mgr allocate header call.2.2 call.1 call.2.1 _

theorem conductCallbackPlan_delivers (allocate : SubscriberService.Allocator) (header : HeaderMgr)
    (calls : List PlanCall) (shared : Monitored) :
    Exec.Sat (EventManager.conductCallbackPlan
        (SubscriberService.notify mgr.codec mgr.abi allocate) header calls) shared
      (fun _ after => after.owner.delivered =
        shared.owner.delivered ++ calls.map (deliveryOf header))
      (fun _ after => ∃ called, called <+: calls ∧
        after.owner.delivered = shared.owner.delivered ++ called.map (deliveryOf header)) := by
  induction calls generalizing shared with
  | nil => exact (List.append_nil _).symm
  | cons call calls inductionHypothesis =>
    simp only [EventManager.conductCallbackPlan, Exec.sat_bind]
    refine (notify_delivers mgr allocate call header shared).mono (fun _ middle first => ?_)
      fun _ _ first => ⟨[call], by simp, first⟩
    refine (inductionHypothesis middle).mono (fun _ after rest => ?_) fun _ after rest => ?_
    · rw [rest, first]
      simp
    · obtain ⟨called, isPrefix, rest⟩ := rest
      refine ⟨call :: called, List.cons_prefix_cons.mpr ⟨rfl, isPrefix⟩, ?_⟩
      rw [rest, first]
      simp

theorem onHeaderValidated_delivers (host : HostBlockService) (header : HeaderMgr) (shared : Monitored) :
    Exec.Sat (onHeaderValidated mgr host header) shared
      (fun _ after => after.owner.delivered = shared.owner.delivered ++
        (plannedCalls mgr host header shared.eventManager).map (deliveryOf header))
      (fun _ after => Delivers mgr host header shared after) := by
  simp only [onHeaderValidated, checkEvents, EventManager.checkEvents, SubscriberService.onOwner,
    Exec.sat_bind, Exec.sat_modify, Exec.sat_get, Exec.sat_ofExcept]
  refine ⟨fun plans planned => ?_, fun _ _ => ⟨[], List.nil_prefix, by simp⟩⟩
  have isPlan : plannedCalls mgr host header shared.eventManager = EventManager.planCalls plans := by
    rw [plannedCalls, planned]
  rw [isPlan]
  refine (conductCallbackPlan_delivers mgr host.allocate header _ _).mono (fun _ middle done => ?_)
    fun _ _ done => ?_
  · simp only [Exec.sat_ite, refreshPlan, Exec.sat_bind, Exec.sat_ofExcept, Exec.sat_modify,
      Exec.sat_pure]
    refine ⟨fun _ => ⟨fun latest _ => ?_, fun _ _ => ?_⟩, fun _ => done⟩
    · obtain ⟨_, _, refreshed⟩ := refreshBootstrapPlan_eq mgr.config latest middle
      rw [refreshed]
      exact done
    · exact ⟨_, isPlan ▸ List.prefix_refl _, done⟩
  · obtain ⟨called, isPrefix, done⟩ := done
    exact ⟨called, isPlan ▸ isPrefix, done⟩

theorem count_delivered {host : HostBlockService} {header : HeaderMgr}
    {manager : EventManager (NotifyCallback Listener)} {called : List PlanCall}
    (isPrefix : called <+: plannedCalls mgr host header manager) (id : EventCallbackId)
    (log : ReceiptLogEntry) :
    (called.map (deliveryOf header)).count { id, hash := header.hash, log } ≤
      (blockLogs mgr host header).count log := by
  have counted : (called.map (deliveryOf header)).count { id, hash := header.hash, log } =
      called.countP fun call => call.2.2 = log ∧ call.1 = id := by
    rw [List.count, List.countP_map]
    congr
    funext call
    simp [deliveryOf, and_comm, Bool.beq_eq_decide_eq]
  rw [counted]
  refine Nat.le_trans isPrefix.sublist.countP_le ?_
  unfold plannedCalls
  split
  next plans planned =>
    rcases EventManager.planCalls_sublist planned with rfl | ⟨receiptsMgr, gets, -, isSublist⟩
    · exact Nat.zero_le _
    · rw [blockLogs, gets]
      exact Nat.le_trans isSublist.countP_le (EventManager.countP_expectedCalls manager receiptsMgr id log)
  next => exact Nat.zero_le _

/-- The header that a step hands to the callback for validated headers. -/
def passedHeader (before : BlockchainMgr) : Action → Option HeaderMgr
  | .appendBlock readings headerRlp => passed (parts mgr) before readings headerRlp
  | _ => none

/-- What a step delivers: nothing without such a header. -/
def StepDelivers (before : BlockchainMgr) (action : Action) (after : BlockchainMgr) : Prop :=
  match action, passedHeader mgr before action with
  | .appendBlock readings _, some header =>
    Delivers mgr readings.host header before.shared after.shared
  | _, _ => after.shared.owner.delivered = before.shared.owner.delivered

/-- The events of the header that is validated, if one is, were delivered. -/
def DeliversPassed (before : BlockchainMgr) (readings : Readings HostBlockService) (headerRlp : Bytes)
    (shared : Monitored) : Prop :=
  match passed (parts mgr) before readings headerRlp with
  | some header => Delivers mgr readings.host header before.shared shared
  | none => shared.owner.delivered = before.shared.owner.delivered

theorem appendBlock_delivers (before : BlockchainMgr) (readings : Readings HostBlockService)
    (headerRlp : Bytes) :
    Exec.Sat (appendBlock mgr readings headerRlp) before
      (fun _ after => StepDelivers mgr before (.appendBlock readings headerRlp) after)
      (fun _ after => StepDelivers mgr before (.appendBlock readings headerRlp) after) := by
  let property := DeliversPassed mgr before readings headerRlp
  have depends : ∀ {shared shared' : Monitored},
      shared'.owner.delivered = shared.owner.delivered → property shared → property shared' := by
    intro shared shared' same held
    simp only [property, DeliversPassed, Delivers, same] at held ⊢
    exact held
  have delivers : ∀ after : BlockchainMgr, property after.shared →
      StepDelivers mgr before (.appendBlock readings headerRlp) after := by
    intro after held
    simp only [property, DeliversPassed] at held
    simp only [StepDelivers, passedHeader]
    cases isPassed : passed (parts mgr) before readings headerRlp <;> simpa [isPassed] using held
  have maintained : Maintained (parts mgr) readings property := {
    secState := fun _ _ => depends rfl
    confirmed := fun _ _ => depends rfl
    bootstrapII := fun _ _ => depends rfl }
  refine (update_shared property maintained (fun refused => ?_) (fun header secState isPassed => ?_)
    fun shared header held _ _ _ => ?_).mono (fun _ => delivers) fun _ => delivers
  · simp only [property, DeliversPassed, refused]
  · have isProperty : ∀ shared, Delivers mgr readings.host header before.shared shared →
        property shared := by
      intro shared delivered
      simp only [property, DeliversPassed, isPassed]
      exact delivered
    refine (onHeaderValidated_delivers mgr readings.host header _).mono (fun _ after done => ?_)
      fun _ after done => isProperty after done
    exact isProperty after ⟨_, List.prefix_refl _, done⟩
  · have keeps : Exec.Keeps (Shared.newSyncState mgr.codec readings)
        fun shared : Monitored => shared.owner.delivered := by
      refine .bind (Exec.keeps_modify fun _ => rfl) fun _ => (Exec.keeps_ofExcept _).bind fun _ => ?_
      exact (Exec.keeps_ofExcept _).bind fun _ => Exec.keeps_modify fun _ => rfl
    exact (keeps _).mono (fun _ _ same => depends same held) fun _ _ same => depends same held

variable {mgr} in
theorem step_delivers {before after : BlockchainMgr} {action : Action}
    (stepped : Step mgr before action after) : StepDelivers mgr before action after := by
  rcases step_cases stepped with ⟨readings, headerRlp, rfl, ended⟩ | ⟨noBlock, _, _, rfl⟩
  · exact (appendBlock_delivers mgr before readings headerRlp).ends
      (StepDelivers mgr before (.appendBlock readings headerRlp)) ended
  · cases action with
    | appendBlock readings headerRlp => exact absurd rfl (noBlock readings headerRlp)
    | _ => rfl

/-! ## Every run -/

/-- The hashes of the headers that were validated, oldest first. -/
def passedHashes (taken : List (BlockchainMgr × Action)) : List Hash :=
  taken.filterMap fun entry => (passedHeader mgr entry.1 entry.2).map HeaderMgr.hash

/-- The header passes the checks of its phase. -/
def passesChecks (manager : BlockchainMgr) (header : HeaderMgr) : Bool :=
  if manager.shared.phase = .bootstrapI then
    EclipseMonitor.passesOnBootstrapI (parts mgr) manager header
  else (acceptHeader (parts mgr) manager header).isSome

/-- A block with the hash of an earlier one comes where it passes the checks. -/
def redelivers (earlier : List (BlockchainMgr × Action)) (before : BlockchainMgr) : Action → Bool
  | .appendBlock readings headerRlp =>
    match received (parts mgr) before readings headerRlp with
    | .ok header => header.hash ∈ passedHashes mgr earlier && passesChecks mgr before header
    | .error _ => false
  | _ => false

/-- The events of the validated headers, and no others, were delivered at most once. -/
structure Bounded (taken : List (BlockchainMgr × Action)) (delivered : List Delivery) : Prop where
  /-- No listener is called more often for a log entry than the block has it. -/
  bounded : ∀ before readings headerRlp header, (before, .appendBlock readings headerRlp) ∈ taken →
    passed (parts mgr) before readings headerRlp = some header →
    ∀ id log, delivered.count { id, hash := header.hash, log } ≤
      (blockLogs mgr readings.host header).count log
  known : ∀ delivery ∈ delivered, delivery.hash ∈ passedHashes mgr taken

/-- No header is validated a second time, and its events are delivered at most once. -/
def AtMostOnce (taken : List (BlockchainMgr × Action)) (delivered : List Delivery) : Prop :=
  (passedHashes mgr taken).Nodup ∧ Bounded mgr taken delivered

theorem passed_iff {before : BlockchainMgr} {readings : Readings HostBlockService} {headerRlp : Bytes}
    {header : HeaderMgr} :
    passed (parts mgr) before readings headerRlp = some header ↔
      received (parts mgr) before readings headerRlp = .ok header ∧
        passesChecks mgr before header = true := by
  rw [passed, passesChecks]
  cases received (parts mgr) before readings headerRlp with
  | error _ => simp
  | ok header' =>
    simp only [Except.ok.injEq]
    split
    · by_cases passes : EclipseMonitor.passesOnBootstrapI (parts mgr) before header' = true
      · simp only [passes, if_true, Option.some.injEq]
        exact ⟨fun same => ⟨same, same ▸ passes⟩, fun both => both.1⟩
      · simp only [passes]
        constructor
        · intro impossible
          cases impossible
        · intro both
          exact absurd (both.1 ▸ both.2) passes
    · cases accepts : acceptHeader (parts mgr) before header' with
      | none =>
        simp only [Option.map_none]
        constructor
        · intro impossible
          cases impossible
        · rintro ⟨same, passes⟩
          simp [← same, accepts] at passes
      | some acceptance =>
        have isHeader : acceptance.header = header' := header_of_acceptHeader accepts
        simp only [Option.map_some, Option.some.injEq, isHeader]
        exact ⟨fun same => ⟨same, by simp [← same, accepts]⟩, fun both => both.1⟩

/-- The condition on a run, said of the headers that were validated. -/
theorem nodup_passedHashes_iff (taken : List (BlockchainMgr × Action)) :
    (passedHashes mgr taken).Nodup ↔ ∀ earlier entry later, taken = earlier ++ entry :: later →
      redelivers mgr earlier entry.1 entry.2 = false := by
  rw [passedHashes, Run.nodup_filterMap_iff]
  refine forall₄_congr fun earlier entry later _ => ?_
  obtain ⟨before, action⟩ := entry
  cases action with
  | appendBlock readings headerRlp =>
    simp only [passedHeader, redelivers]
    constructor
    · intro fresh
      cases isReceived : received (parts mgr) before readings headerRlp with
      | error _ => rfl
      | ok header =>
        by_cases passes : passesChecks mgr before header = true
        · have isPassed := (passed_iff mgr).mpr ⟨isReceived, passes⟩
          have notEarlier : header.hash ∉ passedHashes mgr earlier :=
            fresh header.hash (by rw [isPassed, Option.map_some])
          simp [notEarlier]
        · simp [passes]
    · intro notAgain shown shows
      obtain ⟨header, isPassed, rfl⟩ := Option.map_eq_some_iff.mp shows
      obtain ⟨isReceived, passes⟩ := (passed_iff mgr).mp isPassed
      simp only [isReceived, passes, Bool.and_true, decide_eq_false_iff_not] at notAgain
      exact notAgain
  | subscribe _ _ => simp [passedHeader, redelivers]
  | takeEvents _ => simp [passedHeader, redelivers]
  | unsubscribe _ => simp [passedHeader, redelivers]

theorem mem_passedHashes {taken : List (BlockchainMgr × Action)} {entry : BlockchainMgr × Action}
    {header : HeaderMgr} (member : entry ∈ taken)
    (isPassed : passedHeader mgr entry.1 entry.2 = some header) :
    header.hash ∈ passedHashes mgr taken :=
  List.mem_filterMap.mpr ⟨entry, member, by rw [isPassed, Option.map_some]⟩

/-- A call under one hash is no delivery under another. -/
theorem count_other {header : HeaderMgr} {hash : Hash} (differs : hash ≠ header.hash)
    (called : List PlanCall) (id : EventCallbackId) (log : ReceiptLogEntry) :
    (called.map (deliveryOf header)).count { id, hash, log } = 0 := by
  rw [List.count_eq_zero]
  intro member
  obtain ⟨call, -, same⟩ := List.mem_map.mp member
  exact differs (congrArg Delivery.hash same).symm

variable {mgr} in
theorem bounded_snoc {taken : List (BlockchainMgr × Action)} {before after : BlockchainMgr}
    {action : Action} (held : Bounded mgr taken before.shared.owner.delivered)
    (fresh : (passedHashes mgr (taken ++ [(before, action)])).Nodup)
    (stepped : Step mgr before action after) :
    Bounded mgr (taken ++ [(before, action)]) after.shared.owner.delivered := by
  have hashes : passedHashes mgr (taken ++ [(before, action)]) =
      passedHashes mgr taken ++ ((passedHeader mgr before action).map HeaderMgr.hash).toList := by
    cases isPassed : passedHeader mgr before action <;> simp [passedHashes, isPassed]
  have delivers := step_delivers stepped
  cases isPassed : passedHeader mgr before action with
  | none =>
    have same : after.shared.owner.delivered = before.shared.owner.delivered := by
      simpa only [StepDelivers, isPassed] using delivers
    rw [same]
    refine ⟨fun before' readings headerRlp header member isPassed' => ?_, fun delivery member => ?_⟩
    · rcases List.mem_append.mp member with earlier | last
      · exact held.bounded before' readings headerRlp header earlier isPassed'
      · cases List.mem_singleton.mp last
        cases isPassed.symm.trans isPassed'
    · rw [hashes]
      exact List.mem_append_left _ (held.known delivery member)
  | some header =>
    rw [hashes, isPassed, Option.map_some, Option.toList_some, List.nodup_append'] at fresh
    -- no header with this hash passed before
    have isNew : header.hash ∉ passedHashes mgr taken := fun member =>
      fresh.2.2 member (List.mem_singleton.mpr rfl)
    cases action with
    | appendBlock readings headerRlp =>
      simp only [StepDelivers, isPassed] at delivers
      obtain ⟨called, isPrefix, delivered⟩ := delivers
      rw [delivered]
      refine ⟨fun before' readings' headerRlp' header' member isPassed' id log => ?_,
        fun delivery member => ?_⟩
      · rw [List.count_append]
        rcases List.mem_append.mp member with earlier | last
        · have differs : header'.hash ≠ header.hash := fun same =>
            isNew (same ▸ mem_passedHashes mgr earlier isPassed')
          rw [count_other differs, Nat.add_zero]
          exact held.bounded before' readings' headerRlp' header' earlier isPassed' id log
        · cases List.mem_singleton.mp last
          cases isPassed.symm.trans isPassed'
          -- every delivery so far belongs to a header that passed, so none to this one
          have noneBefore :
              before.shared.owner.delivered.count { id, hash := header.hash, log } = 0 :=
            List.count_eq_zero.mpr fun member => isNew (held.known _ member)
          rw [noneBefore, Nat.zero_add]
          exact count_delivered mgr isPrefix id log
      · rw [hashes, isPassed]
        rcases List.mem_append.mp member with earlier | now
        · exact List.mem_append_left _ (held.known delivery earlier)
        · obtain ⟨call, -, rfl⟩ := List.mem_map.mp now
          exact List.mem_append_right _ (by simp [deliveryOf])
    | subscribe _ _ => cases isPassed
    | takeEvents _ => cases isPassed
    | unsubscribe _ => cases isPassed

/-- In every run the events of a block are delivered at most once, if and only if no header that was
    validated before comes where it passes the checks again. -/
theorem delivered_once_iff {args : InitArgs} {taken : List (BlockchainMgr × Action)}
    {final : BlockchainMgr} (run : Run (Step mgr) (init mgr args) taken final) :
    AtMostOnce mgr taken final.shared.owner.delivered ↔
      ∀ earlier entry later, taken = earlier ++ entry :: later →
        redelivers mgr earlier entry.1 entry.2 = false := by
  have initially : Bounded mgr [] (init mgr args).shared.owner.delivered := by
    rw [show (init mgr args).shared.owner.delivered = [] from rfl]
    exact ⟨fun _ _ _ _ member => absurd member List.not_mem_nil,
      fun _ member => absurd member List.not_mem_nil⟩
  rw [← nodup_passedHashes_iff, AtMostOnce, and_iff_left_iff_imp]
  apply run.invariant (fun _ _ => True) (fun taken manager =>
    (passedHashes mgr taken).Nodup → Bounded mgr taken manager.shared.owner.delivered)
  · exact fun _ => initially
  · intro taken before action after held _ stepped fresh
    apply bounded_snoc (held ?_) fresh stepped
    rw [passedHashes, List.filterMap_append] at fresh
    exact (List.nodup_append'.mp fresh).1
  · exact fun _ _ => trivial

end BlockchainMgr

/-! ## A block that comes twice -/

namespace SampleClient

open SampleChain

/-- A child of block 1 with the message. -/
def echo : Block where
  rawHeader := { rawHeader block1.hash.toList 2 with receiptsRoot, logsBloom := bloom }
  extraData := []
  hash := #v[86, 190, 81, 0, 201, 175, 48, 70, 44, 67, 166, 145, 67, 250, 121, 151, 104, 207, 154, 114,
    48, 89, 111, 43, 11, 14, 37, 65, 89, 242, 70, 105]

def echoMgr : MgrConfig := { mgr with codec := codecOf [block0, block1, echo] }

/-- A subscription, the two blocks of bootstrap I, and the same block twice. -/
def echoed : List BlockchainMgr.Action :=
  .subscribe (Vector.replicate 20 0) allocate ::
    [block0, block1, echo, echo].map fun block => .appendBlock found block.binary

end SampleClient

namespace BlockchainMgr

open SampleChain SampleClient

theorem delivered_once_iff_sample :
    ∃ taken final, Run (Step echoMgr) (init echoMgr args) taken final ∧
      final.shared.owner.delivered ≠ [] ∧
      AtMostOnce echoMgr taken final.shared.owner.delivered := by
  have replays : (Run.replay (execute echoMgr) (echoed.take 4) [] (init echoMgr args)).any
      (fun (taken, final) => final.shared.owner.delivered ≠ [] ∧ (passedHashes echoMgr taken).Nodup) =
        true := by
    decide +kernel
  obtain ⟨⟨taken, final⟩, replayed, checks⟩ := (Option.any_eq_true _ _).mp replays
  have holds := of_decide_eq_true checks
  have run := run_of_replay echoMgr replayed
  exact ⟨taken, final, run, holds.1,
    (delivered_once_iff echoMgr run).mpr ((nodup_passedHashes_iff echoMgr taken).mp holds.2)⟩

/-- The one log entry of the block is delivered to the subscription twice. -/
theorem delivered_twice :
    ∃ taken final, Run (Step echoMgr) (init echoMgr args) taken final ∧
      final.shared.owner.delivered = List.replicate 2 { id := 2, hash := echo.hash, log } ∧
      ¬ AtMostOnce echoMgr taken final.shared.owner.delivered := by
  have replays : (Run.replay (execute echoMgr) echoed [] (init echoMgr args)).any
      (fun (taken, final) =>
        final.shared.owner.delivered = List.replicate 2 { id := 2, hash := echo.hash, log } ∧
          ¬ (passedHashes echoMgr taken).Nodup) = true := by
    decide +kernel
  obtain ⟨⟨taken, final⟩, replayed, checks⟩ := (Option.any_eq_true _ _).mp replays
  have holds := of_decide_eq_true checks
  exact ⟨taken, final, run_of_replay echoMgr replayed, holds.1, fun once => holds.2 once.1⟩

end BlockchainMgr

end Decentagram.EthereumClt
