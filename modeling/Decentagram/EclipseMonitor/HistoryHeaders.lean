import Decentagram.EclipseMonitor.Confirmation
import Decentagram.Lib.Result

/-! # History headers and their arrival times

Between the hand-over and the first sync message the monitor loads headers that were mined before it
started.  The proof-of-work checker gates them by their arrival times all the same, and the last header
of bootstrap I arrived, as far as the monitor records it, at time 0.
-/

namespace Decentagram.Eth

open Decentagram.Lib

namespace EclipseMonitor

variable {κ ω ε : Type}

/-- A proof-of-work header loaded in bootstrap II that passes every check which is not about time: it
    validates against the parent that the look-up maps find, and its difficulty is not too low. -/
structure IsHistory (parts : Parts κ ω MinDiff ε) (selector : DAASelector)
    (monitor : EclipseMonitor κ ω MinDiff) (header : HeaderMgr) : Prop where
  phase : monitor.shared.phase = .bootstrapII
  unsynced : monitor.shared.isSynced = false
  proofOfWork : selector.config.isBlockOfParis header.blkNum = false
  validates : (monitor.findParent header).all (fun entry => (monitor.deref entry.1).all fun parent =>
    parts.validator.commonValidate parent entry.2 header false = .ok true) = true
  difficulty : monitor.diffState ≤ header.diff

instance {parts : Parts κ ω MinDiff ε} {selector : DAASelector} {monitor : EclipseMonitor κ ω MinDiff}
    {header : HeaderMgr} : Decidable (IsHistory parts selector monitor header) :=
  decidable_of_iff
    (monitor.shared.phase = .bootstrapII ∧ monitor.shared.isSynced = false ∧
      selector.config.isBlockOfParis header.blkNum = false ∧
      (monitor.findParent header).all (fun entry => (monitor.deref entry.1).all fun parent =>
        parts.validator.commonValidate parent entry.2 header false = .ok true) = true ∧
      monitor.diffState ≤ header.diff)
    ⟨fun holds => ⟨holds.1, holds.2.1, holds.2.2.1, holds.2.2.2.1, holds.2.2.2.2⟩,
      fun history => ⟨history.phase, history.unsynced, history.proofOfWork, history.validates,
        history.difficulty⟩⟩

/-- `UpdateOnRuntime` returns, and has added the header to the tree. -/
def AddsHeader (parts : Parts κ ω MinDiff ε) (readings : Readings ε) (hdrBinary : Bytes)
    (before : EclipseMonitor κ ω MinDiff) (header : HeaderMgr) : Prop :=
  ∃ after parentNode parent, updateOnRuntime parts readings hdrBinary before = .ok header.blkNum after ∧
    before.growAt { addr := parentNode, parent, header } = some after.forest

/-- The clock reads later than the arrival of the header's parent, by no more than the waiting time. -/
def InTime (parts : Parts κ ω MinDiff ε) (monitor : EclipseMonitor κ ω MinDiff) (now : TrustedTimestamp)
    (header : HeaderMgr) : Prop :=
  ∃ entry parent, monitor.findParent header = some entry ∧ monitor.deref entry.1 = some parent ∧
    parent.trustedTime < now ∧ now - parent.trustedTime ≤ parts.config.maxWaitTime

/-- A node can be added under every node that the tree owns. -/
theorem addNewNode_ok {before : EclipseMonitor κ ω MinDiff} {parentNode : NodeAddr}
    {parent : HeaderMgr} (owned : before.deref parentNode = some parent) (header : HeaderMgr)
    (syncState : SyncStateRef) (isNewNodeLive : Bool) :
    ∃ after, addNewNode parentNode header syncState isNewNodeLive before = .ok () after ∧
      before.forest.grow parentNode header syncState isNewNodeLive = some after.forest := by
  obtain ⟨last, hasLast, isNode⟩ := Option.bind_eq_some_iff.mp owned
  have member := HeaderNode.mem_nodes_of_deref isNode
  obtain ⟨grown, adds⟩ := Option.isSome_iff_exists.mp
    (HeaderNode.addChild_isSome before.nextAddr header syncState (List.mem_map_of_mem member))
  have added : (before.checkpoint.lastNode.bind fun last =>
      last.addChild parentNode before.nextAddr header syncState) = some grown := by
    rw [hasLast, Option.bind_some, adds]
  have returns : ∃ after, addNewNode parentNode header syncState isNewNodeLive before = .ok () after := by
    cases isNewNodeLive <;> simp [addNewNode, added]
  obtain ⟨after, returned⟩ := returns
  exact ⟨after, returned, (addNewNode_forest before _ _ _ _).of_ok returned⟩

theorem trustedTime_ofBinary {codec : HeaderCodec} {hdrBinary : Bytes} {now : TrustedTimestamp}
    {header : HeaderMgr} (parsed : HeaderMgr.ofBinary codec hdrBinary now = .ok header) :
    header.trustedTime = now := by
  simp only [HeaderMgr.ofBinary, bind_eq_ok] at parsed
  obtain ⟨rawHeader, -, parsed⟩ := parsed
  split at parsed
  · simp at parsed
  · simp only [bind_eq_ok, pure_eq_ok] at parsed
    obtain ⟨-, -, blkNum, -, time, -, diff, -, rfl⟩ := parsed
    rfl

/-- In the state a history header meets, the acceptance check comes down to the arrival times. -/
theorem acceptHeader_isHistory {parts : Parts κ ω MinDiff ε} {selector : DAASelector}
    (checker : parts.diffChecker = genericDiffChecker parts.config selector)
    {monitor : EclipseMonitor κ ω MinDiff} {header : HeaderMgr}
    (history : IsHistory parts selector monitor header) :
    (acceptHeader parts monitor header).isSome ↔ InTime parts monitor header.trustedTime header := by
  have unsynced := history.unsynced
  have validates := history.validates
  have difficulty := history.difficulty
  cases found : monitor.findParent header with
  | none => simp [acceptHeader, InTime, found]
  | some entry =>
    cases owned : monitor.deref entry.1 with
    | none => simp [acceptHeader, InTime, found, owned]
    | some parent =>
      have valid : parts.validator.commonValidate parent entry.2 header false = .ok true := by
        simpa [found, owned] using validates
      simp [acceptHeader, InTime, found, owned, unsynced, valid, checker, genericDiffChecker,
        history.proofOfWork, powDiffChecker, difficulty]

/-- What is left of `UpdateOnRuntime` for a header that is accepted. -/
theorem updateOnRuntime_accepted {parts : Parts κ ω MinDiff ε} {before : EclipseMonitor κ ω MinDiff}
    {readings : Readings ε} {hdrBinary : Bytes} {now : TrustedTimestamp} {header : HeaderMgr}
    {acceptance : Acceptance} (clock : readings.arrivalTime = .ok now)
    (parsed : HeaderMgr.ofBinary parts.codec hdrBinary now = .ok header)
    (accepts : acceptHeader parts before header = some acceptance) :
    before.deref acceptance.addr = some acceptance.parent ∧
      updateOnRuntime parts readings hdrBinary before = (do
        onShared (parts.onHeaderValidated readings.host header)
        addNewNode acceptance.addr header before.shared.syncMsgMgr.lastSyncState before.shared.isSynced
        return header.blkNum) before := by
  simp only [acceptHeader, Option.bind_eq_bind, Option.bind_eq_some_iff] at accepts
  obtain ⟨entry, found, parent, owned, accepts⟩ := accepts
  split at accepts
  next passes =>
    cases accepts
    refine ⟨owned, ?_⟩
    simp [updateOnRuntime, clock, parsed, Exec.ofExcept, addToParent, found, updateOnRuntimeAddChild,
      owned, passes.1, passes.2]
    cases onShared (parts.onHeaderValidated readings.host header) before <;> rfl
  next => cases accepts

/-- The address of the next node tells that nothing was added. -/
theorem not_addsHeader {parts : Parts κ ω MinDiff ε} {before : EclipseMonitor κ ω MinDiff}
    {readings : Readings ε} {hdrBinary : Bytes} {now : TrustedTimestamp} {header : HeaderMgr}
    (later : before.shared.phase ≠ .bootstrapI) (clock : readings.arrivalTime = .ok now)
    (parsed : HeaderMgr.ofBinary parts.codec hdrBinary now = .ok header)
    (refuses : acceptHeader parts before header = none) :
    ¬ AddsHeader parts readings hdrBinary before header := by
  rintro ⟨after, parentNode, parent, returned, grown⟩
  have refused : accepted parts before readings hdrBinary = none := by
    simpa [accepted, later, arrival, clock, Except.bind, parsed] using refuses
  have changes := (updateOnRuntime_forest parts readings before hdrBinary later).of_ok returned
  have hasNode : before.forest.lastNode ≠ none := by
    intro noNode
    simp [growAt, Forest.grow, noNode] at grown
  have same : after.forest = before.forest := by
    cases changes with
    | inl unchanged => exact unchanged.2
    | inr prepared =>
      obtain ⟨-, prepares⟩ := prepared
      clear returned grown
      generalize after.forest = middle at prepares ⊢
      cases prepares with
      | same => rfl
      | added accepted _ => cases refused.symm.trans accepted
      | handedOver _ _ noNode => exact absurd noNode hasNode
  obtain ⟨last, -, grownForest⟩ := Option.map_eq_some_iff.mp grown
  have nextAddr := congrArg Forest.nextAddr (grownForest.trans same)
  exact absurd nextAddr (Nat.succ_ne_self _)

/-- A history header is added exactly when the callback for validated headers returns and the clock
    reads later than the parent's arrival, by no more than the waiting time. -/
theorem history_header_added_iff (parts : Parts κ ω MinDiff ε) (selector : DAASelector)
    (checker : parts.diffChecker = genericDiffChecker parts.config selector)
    (before : EclipseMonitor κ ω MinDiff) (readings : Readings ε) (hdrBinary : Bytes)
    (now : TrustedTimestamp) (clock : readings.arrivalTime = .ok now) (header : HeaderMgr)
    (parsed : HeaderMgr.ofBinary parts.codec hdrBinary now = .ok header)
    (history : IsHistory parts selector before header) :
    AddsHeader parts readings hdrBinary before header ↔
      InTime parts before now header ∧
        ∃ shared, parts.onHeaderValidated readings.host header before.shared = .ok () shared := by
  have later : before.shared.phase ≠ .bootstrapI := by simp [history.phase]
  have accepts_iff := acceptHeader_isHistory checker history
  rw [trustedTime_ofBinary parsed] at accepts_iff
  constructor
  · intro adds
    obtain ⟨after, parentNode, parent, returned, grown⟩ := id adds
    cases accepts : acceptHeader parts before header with
    | none => exact absurd adds (not_addsHeader later clock parsed accepts)
    | some acceptance =>
      refine ⟨accepts_iff.mp (by simp [accepts]), ?_⟩
      obtain ⟨-, runs⟩ := updateOnRuntime_accepted clock parsed accepts
      rw [runs, onShared, Exec.bind_apply, Exec.zoom_apply] at returned
      cases validated : parts.onHeaderValidated readings.host header before.shared with
      | ok _ shared => exact ⟨shared, rfl⟩
      | throws _ _ => simp [validated] at returned
      | undefined => simp [validated] at returned
  · rintro ⟨inTime, shared, validated⟩
    obtain ⟨acceptance, accepts⟩ := Option.isSome_iff_exists.mp (accepts_iff.mpr inTime)
    obtain ⟨owned, runs⟩ := updateOnRuntime_accepted clock parsed accepts
    have ownedAfter : deref { before with shared } acceptance.addr = some acceptance.parent := owned
    obtain ⟨after, added, grown⟩ := addNewNode_ok ownedAfter header
      before.shared.syncMsgMgr.lastSyncState before.shared.isSynced
    refine ⟨after, acceptance.addr, acceptance.parent, ?_, grown⟩
    rw [runs, onShared, Exec.bind_apply, Exec.zoom_apply, validated, Outcome.map_ok,
      Outcome.andThen_ok, Exec.bind_apply, added]
    rfl

end EclipseMonitor

/-! ## Frontier blocks

Two blocks of the main network's first rule set, ten seconds apart. -/

namespace SampleFrontier

open SampleChain hiding block0 block1 config parts start

def block (parentHash : Bytes) (height : UInt64) (diff : Difficulty) (hash : Hash) : Block where
  rawHeader := { rawHeader parentHash 0 with
    number := toBytes (100 + height)
    difficulty := toBytes diff
    timestamp := toBytes (1440000000 + 10 * height) }
  extraData := []
  hash

def block0 : Block := block (List.replicate 32 0) 0 1048576
  #v[61, 201, 137, 229, 243, 94, 218, 121, 9, 36, 3, 175, 211, 58, 130, 205, 56, 80, 38, 2, 226, 84, 30,
    144, 102, 122, 131, 78, 62, 238, 16, 225]

def block1 : Block := block block0.hash.toList 1 1049088
  #v[22, 34, 120, 46, 60, 211, 49, 24, 29, 75, 212, 253, 169, 154, 95, 193, 157, 41, 28, 33, 63, 175,
    182, 140, 77, 71, 59, 198, 235, 16, 159, 82]

/-- Windows of one header. -/
def config : MonitorConfig := { SampleChain.config with checkpointSize := 1 }

def parts : Parts Empty Unit MinDiff Unit where
  config
  codec := codecOf [block0, block1]
  validator := validator .mainnet
  diffChecker := genericDiffChecker config .mainnet
  onHeaderValidated := fun _ _ => pure ()
  onHeaderConfirmed := fun _ => pure ()

def start : EclipseMonitor Empty Unit MinDiff :=
  .init parts 0 () (Vector.replicate 16 0) 1700000000 (Vector.replicate 32 0) (Vector.replicate 20 0)
    (Vector.replicate 32 0) 0

/-- Bootstrap I, which ends with block 0. -/
def handedOver :
    Option (List (EclipseMonitor Empty Unit MinDiff × EclipseMonitor.Label Empty Unit Unit) ×
      EclipseMonitor Empty Unit MinDiff) :=
  Run.replay (fun monitor label => Exec.endState (EclipseMonitor.call parts label) monitor)
    [.owner (EclipseMonitor.refreshBootstrapPlan config 102 (some 100)), deliver 1700000100 block0]
    [] start

/-- Block 1 when it is loaded at a time. -/
def header1 (now : TrustedTimestamp) : Except Exception HeaderMgr :=
  HeaderMgr.ofBinary parts.codec block1.binary now

end SampleFrontier

namespace EclipseMonitor

open SampleFrontier SampleChain

/-- Block 1, read half a minute after the clock's origin, after the last header of bootstrap I. -/
theorem history_header_added_iff_block1 :
    ∃ taken before header, Run (Step SampleFrontier.parts) SampleFrontier.start taken before ∧
      (AddsHeader SampleFrontier.parts (readings 30) SampleFrontier.block1.binary before header ↔
        InTime SampleFrontier.parts before 30 header ∧
          ∃ shared, SampleFrontier.parts.onHeaderValidated () header before.shared = .ok () shared) := by
  have replays : handedOver.any (fun (_, before) =>
      (header1 30).toOption.any fun header =>
        decide (IsHistory SampleFrontier.parts .mainnet before header)) = true := by
    decide +kernel
  obtain ⟨⟨taken, before⟩, replayed, checks⟩ := (Option.any_eq_true _ _).mp replays
  obtain ⟨header, isHeader, history⟩ := (Option.any_eq_true _ _).mp checks
  have run := Run.of_replay (fun _ _ _ => Exec.ends_of_endState) .nil replayed
  exact ⟨taken, before, header, run, history_header_added_iff SampleFrontier.parts .mainnet rfl before
    (readings 30) SampleFrontier.block1.binary 30 rfl header (eq_ok_of_toOption isHeader)
    (of_decide_eq_true history)⟩

/-- Block 1 is refused at the time of the sample chain, as block 0 is taken to have arrived at time 0. -/
theorem history_header_refused :
    ∃ taken before header, Run (Step SampleFrontier.parts) SampleFrontier.start taken before ∧
      header1 1700000100 = .ok header ∧ IsHistory SampleFrontier.parts .mainnet before header ∧
      ¬ AddsHeader SampleFrontier.parts (readings 1700000100) SampleFrontier.block1.binary before
        header := by
  have replays : handedOver.any (fun (_, before) =>
      (header1 1700000100).toOption.any fun header =>
        decide (IsHistory SampleFrontier.parts .mainnet before header) &&
          (acceptHeader SampleFrontier.parts before header).isNone) = true := by
    decide +kernel
  obtain ⟨⟨taken, before⟩, replayed, checks⟩ := (Option.any_eq_true _ _).mp replays
  obtain ⟨header, isHeader, holds⟩ := (Option.any_eq_true _ _).mp checks
  simp only [Bool.and_eq_true] at holds
  have run := Run.of_replay (fun _ _ _ => Exec.ends_of_endState) .nil replayed
  have history := of_decide_eq_true holds.1
  refine ⟨taken, before, header, run, eq_ok_of_toOption isHeader, history, ?_⟩
  exact not_addsHeader (by simp [history.phase]) rfl (eq_ok_of_toOption isHeader)
    (Option.isNone_iff_eq_none.mp holds.2)

end EclipseMonitor

end Decentagram.Eth
