import Decentagram.EclipseMonitor.SharedState
import Decentagram.Ethereum.UpdateAtomicity

/-! # What drives the phases

`UpdateOnRuntime` returns the number of a header whether or not it was accepted, and the check for a
phase change runs on that number.
-/

namespace Decentagram.EthereumClt

open Decentagram.Lib
open Decentagram.Eth
open Decentagram.Eth.EclipseMonitor

namespace BlockchainMgr

variable (mgr : MgrConfig)

/-- A header with the planned number was added to the tree. -/
def AddsPlaned (before : BlockchainMgr) (readings : Readings HostBlockService) (headerRlp : Bytes)
    (after : BlockchainMgr) : Prop :=
  ∃ acceptance grown, accepted (parts mgr) before readings headerRlp = some acceptance ∧
    before.growAt acceptance = some grown ∧ Maintains (parts mgr).chkptSize grown after.forest ∧
    acceptance.header.blkNum = after.shared.planedSyncBlkNum

/-- What a block that is appended may do to the phase and to the sync state. -/
structure PhaseDriven (before : BlockchainMgr) (readings : Readings HostBlockService)
    (headerRlp : Bytes) (after : BlockchainMgr) : Prop where
  /-- Bootstrap II is left, and a new sync state made, only when a header with the planned number has been
      added to the tree. -/
  leaves : before.shared.phase = .bootstrapII →
    after.shared.phase ≠ .bootstrapII ∨ after.shared.syncMsgMgr ≠ before.shared.syncMsgMgr →
    AddsPlaned mgr before readings headerRlp after
  /-- A rejected header changes neither the phase nor the sync state nor its listener. -/
  rejected : ∀ header, received (parts mgr) before readings headerRlp = .ok header →
    rejects (parts mgr) before header = true →
    after.shared.phase = before.shared.phase ∧ after.shared.syncStates = before.shared.syncStates ∧
      after.shared.syncMsgMgr = before.shared.syncMsgMgr ∧
      after.shared.eventManager = before.shared.eventManager

/-- In bootstrap II, a header with the planned number is rejected. -/
def misleads (before : BlockchainMgr) : Action → Bool
  | .appendBlock readings headerRlp =>
    before.shared.phase = .bootstrapII &&
      match received (parts mgr) before readings headerRlp with
      | .ok header => rejects (parts mgr) before header && header.blkNum = before.shared.planedSyncBlkNum
      | .error _ => false
  | _ => false

/-! ## What the rest of the monitor keeps -/

/-- Properties that depend neither on the security state nor on what the owner noted of it. -/
theorem maintained_of {readings : Readings HostBlockService} {property : Monitored → Prop}
    (secState : ∀ shared secState, property shared → property { shared with secState })
    (noted : ∀ (shared : Monitored) lastChkptIter, property shared →
      property { shared with owner := { shared.owner with lastChkptIter } })
    (bootstrapII : ∀ shared : Monitored, shared.phase = .bootstrapI → property shared →
      property { shared with phase := .bootstrapII }) :
    Maintained (parts mgr) readings property where
  secState := secState
  confirmed := fun _ shared held => noted shared _ held
  bootstrapII := bootstrapII

/-- What only the phase changes themselves change. -/
def driven (shared : Monitored) : Phases × SyncMsgMgr := (shared.phase, shared.syncMsgMgr)

theorem onHeaderValidated_driven (host : HostBlockService) (header : HeaderMgr) :
    Exec.Keeps (onHeaderValidated mgr host header) driven :=
  onHeaderValidated_frame mgr (fun _ _ _ => rfl) (fun _ _ => rfl) (fun _ _ _ => rfl) host header

/-- Adding a header drives nothing. -/
theorem addToParent_driven (readings : Readings HostBlockService) (header : HeaderMgr) :
    Exec.Keeps (addToParent (parts mgr) readings header)
      fun manager : BlockchainMgr => driven manager.shared := by
  intro before
  let property (shared : Monitored) : Prop := driven shared = driven before.shared
  show Exec.Sat _ before (fun _ after => property after.shared) fun _ after => property after.shared
  apply addToParent_shared
  · exact fun _ => rfl
  · exact fun _ => onHeaderValidated_driven mgr readings.host header before.shared

theorem newSyncState_planed (readings : Readings HostBlockService) :
    Exec.Keeps (Shared.newSyncState mgr.codec readings) (Shared.planedSyncBlkNum : Monitored → _) := by
  refine .bind (Exec.keeps_modify fun _ => rfl) fun _ => (Exec.keeps_ofExcept _).bind fun _ => ?_
  exact (Exec.keeps_ofExcept _).bind fun _ => Exec.keeps_modify fun _ => rfl

/-! ## A rejected header -/

/-- The phase, the sync states, the sync listener and the plan for it. -/
def syncView (shared : Monitored) :
    Phases × List SyncState × SyncMsgMgr × EventManager (NotifyCallback Listener) × BlockNumber :=
  (shared.phase, shared.syncStates, shared.syncMsgMgr, shared.eventManager, shared.planedSyncBlkNum)

/-- In bootstrap I a rejected header makes `AppendBlock` throw at once. -/
theorem appendBlock_rejected_onBootstrapI {before : BlockchainMgr} {readings : Readings HostBlockService}
    {headerRlp : Bytes} {header : HeaderMgr} (phase : before.shared.phase = .bootstrapI)
    (isReceived : received (parts mgr) before readings headerRlp = .ok header)
    (rejected : rejects (parts mgr) before header = true) :
    ∃ error, appendBlock mgr readings headerRlp before = .throws error before := by
  simp only [received, phase, if_true] at isReceived
  simp only [rejects, phase, if_true, Bool.and_eq_true, Bool.not_eq_true'] at rejected
  obtain ⟨notEmpty, rejected⟩ := rejected
  cases hasLast : before.checkpoint.getLastHeader with
  | error _ => simp [hasLast] at rejected
  | ok last =>
    simp only [hasLast, decide_eq_true_eq] at rejected
    refine ⟨"The given block failed common validation", ?_⟩
    simp [appendBlock, update, beforeMaintenance, phase, updateOnBootstrapI, isReceived, Exec.ofExcept,
      validateOnBootstrapI, notEmpty, hasLast, rejected]

/-- Later it changes nothing of what the phase depends on, unless it has the planned number. -/
theorem appendBlock_rejected {before : BlockchainMgr} {readings : Readings HostBlockService}
    {headerRlp : Bytes} {header : HeaderMgr} (later : before.shared.phase ≠ .bootstrapI)
    (isReceived : received (parts mgr) before readings headerRlp = .ok header)
    (rejected : rejects (parts mgr) before header = true)
    (leads : misleads mgr before (.appendBlock readings headerRlp) = false) :
    Exec.Sat (appendBlock mgr readings headerRlp) before
      (fun _ after => syncView after.shared = syncView before.shared)
      (fun _ after => syncView after.shared = syncView before.shared) := by
  have refused : passed (parts mgr) before readings headerRlp = none := by
    simp [passed, isReceived, later, acceptHeader_of_rejects later rejected]
  apply update_shared fun shared => syncView shared = syncView before.shared
  · exact maintained_of mgr (fun _ _ => id) (fun _ _ => id) fun shared phase same => by
      have samePhase : shared.phase = before.shared.phase := congrArg Prod.fst same
      exact absurd (samePhase.symm.trans phase) later
  · exact fun _ => rfl
  · intro header' secState isPassed
    rw [refused] at isPassed
    cases isPassed
  · intro shared header' same phase isReceived' planed
    cases isReceived.symm.trans isReceived'
    simp only [syncView, Prod.mk.injEq] at same
    rw [same.1] at phase
    rw [same.2.2.2.2] at planed
    simp [misleads, phase, isReceived, rejected, planed] at leads

/-! ## Leaving bootstrap II -/

/-- After the header was added, only the planned number changes the phase or the sync listener. -/
theorem afterAdd_driven (readings : Readings HostBlockService) (blkNum : BlockNumber)
    (middle : BlockchainMgr) (phase : middle.shared.phase = .bootstrapII) :
    Exec.Sat (afterAdd (parts mgr) readings blkNum) middle
      (fun _ after => after.shared.planedSyncBlkNum = middle.shared.planedSyncBlkNum ∧
        (driven after.shared ≠ driven middle.shared → blkNum = middle.shared.planedSyncBlkNum))
      (fun _ after => after.shared.planedSyncBlkNum = middle.shared.planedSyncBlkNum ∧
        (driven after.shared ≠ driven middle.shared → blkNum = middle.shared.planedSyncBlkNum)) := by
  let property (shared : Monitored) : Prop :=
    shared.planedSyncBlkNum = middle.shared.planedSyncBlkNum ∧
      (driven shared ≠ driven middle.shared → blkNum = middle.shared.planedSyncBlkNum)
  have maintained : Maintained (parts mgr) readings property := by
    apply maintained_of mgr (fun _ _ => id) fun _ _ => id
    intro shared phase' held
    refine ⟨held.1, fun _ => held.2 fun same => ?_⟩
    have samePhase : shared.phase = middle.shared.phase := congrArg Prod.fst same
    rw [phase, phase'] at samePhase
    cases samePhase
  refine afterAdd_shared maintained blkNum ⟨rfl, fun differs => absurd rfl differs⟩ fun _ planed => ?_
  have kept : ∀ shared : Monitored, shared.planedSyncBlkNum = middle.shared.planedSyncBlkNum →
      property shared := fun _ same => ⟨same, fun _ => planed⟩
  exact (newSyncState_planed mgr readings _).mono (fun _ _ => kept _) fun _ _ => kept _

theorem afterAdd_forest (readings : Readings HostBlockService) (blkNum : BlockNumber)
    (middle : BlockchainMgr) (hasNode : middle.forest.lastNode.isSome) :
    Exec.Sat (afterAdd (parts mgr) readings blkNum) middle
      (fun _ after => Maintains (parts mgr).chkptSize middle.forest after.forest)
      (fun _ after => Maintains (parts mgr).chkptSize middle.forest after.forest) := by
  simp only [afterAdd, Exec.sat_bind, Exec.sat_get, Exec.sat_ite, Exec.sat_pure]
  refine (phaseChangeCheck_forest (parts mgr) readings middle blkNum).mono
    (fun _ checked kept => ?_) fun _ _ same => same ▸ .same
  rcases kept with same | ⟨noNode, -⟩
  · rw [← same]
    exact ⟨fun _ => runtimeMaintenance_forest (parts mgr) readings checked, fun _ => .same⟩
  · simp [noNode] at hasNode

theorem appendBlock_leaves {before : BlockchainMgr} {readings : Readings HostBlockService}
    {headerRlp : Bytes} (phase : before.shared.phase = .bootstrapII)
    (leads : misleads mgr before (.appendBlock readings headerRlp) = false) :
    Exec.Sat (appendBlock mgr readings headerRlp) before
      (fun _ after => driven after.shared ≠ driven before.shared →
        AddsPlaned mgr before readings headerRlp after)
      (fun _ after => driven after.shared ≠ driven before.shared →
        AddsPlaned mgr before readings headerRlp after) := by
  have later : before.shared.phase ≠ .bootstrapI := by simp [phase]
  rw [appendBlock, update_later_sat later]
  refine ⟨fun header arrives => ?_, fun _ _ differs => absurd rfl differs⟩
  have isReceived : received (parts mgr) before readings headerRlp = .ok header := by
    rw [received, if_neg later]
    exact arrives
  have accepts_iff : accepted (parts mgr) before readings headerRlp =
      acceptHeader (parts mgr) before header := by
    simp [accepted, later, arrives]
  refine ((Exec.sat_self (addToParent (parts mgr) readings header) before).and
    ((addToParent_forest (parts mgr) readings before header).and
      (addToParent_driven mgr readings header before))).mono ?_ ?_
  · rintro _ middle ⟨returned, added, same⟩
    change driven middle.shared = driven before.shared at same
    rcases added with ⟨refused, -⟩ | ⟨acceptance, accepts, grows⟩
    · -- the header was not added, so it does not have the planned number
      have rejected := rejects_of_returns later refused returned
      rw [addToParent_of_rejects later rejected] at returned
      cases returned
      have otherNumber : header.blkNum ≠ before.shared.planedSyncBlkNum := by
        intro planed
        simp [misleads, phase, isReceived, rejected, planed] at leads
      exact (afterAdd_driven mgr readings header.blkNum before phase).mono
        (fun _ _ kept differs => absurd (kept.2 differs) otherNumber)
        fun _ _ kept differs => absurd (kept.2 differs) otherNumber
    · -- the header became a node; maintenance and the change of phase follow
      have stays : middle.shared.phase = .bootstrapII := (congrArg Prod.fst same).trans phase
      have leaves : ∀ after : BlockchainMgr,
          (after.shared.planedSyncBlkNum = middle.shared.planedSyncBlkNum ∧
            (driven after.shared ≠ driven middle.shared →
              header.blkNum = middle.shared.planedSyncBlkNum)) ∧
          Maintains (parts mgr).chkptSize middle.forest after.forest →
          driven after.shared ≠ driven before.shared →
          AddsPlaned mgr before readings headerRlp after := by
        rintro after ⟨⟨samePlan, planed⟩, maintains⟩ differs
        rw [← same] at differs
        have isHeader : acceptance.header = header := header_of_acceptHeader accepts
        exact ⟨acceptance, middle.forest, accepts_iff.trans accepts, grows, maintains,
          by rw [isHeader, planed differs, samePlan]⟩
      exact ((afterAdd_driven mgr readings header.blkNum middle stays).and
        (afterAdd_forest mgr readings header.blkNum middle (Forest.grow_isSome grows))).mono
        (fun _ => leaves) fun _ => leaves
  · rintro _ after ⟨-, -, same⟩ differs
    exact absurd same differs

/-- A rejected header with the planned number ends bootstrap II. -/
theorem appendBlock_misled {before : BlockchainMgr} {readings : Readings HostBlockService}
    {headerRlp : Bytes} (leads : misleads mgr before (.appendBlock readings headerRlp) = true) :
    Exec.Sat (appendBlock mgr readings headerRlp) before (fun _ after => after.shared.phase = .sync)
      (fun _ after => after.shared.phase = .sync) := by
  simp only [misleads, Bool.and_eq_true, decide_eq_true_eq] at leads
  obtain ⟨phase, leads⟩ := leads
  have later : before.shared.phase ≠ .bootstrapI := by simp [phase]
  cases isReceived : received (parts mgr) before readings headerRlp with
  | error _ => simp [isReceived] at leads
  | ok header =>
    simp only [isReceived, Bool.and_eq_true, decide_eq_true_eq] at leads
    obtain ⟨rejected, planed⟩ := leads
    have ends : endsBootstrapII before header.blkNum := ⟨phase, planed⟩
    rw [received, if_neg later] at isReceived
    rw [appendBlock, update_later_sat later]
    refine ⟨fun header' arrives => ?_, fun error failed => ?_⟩
    · cases isReceived.symm.trans arrives
      refine Exec.Sat.intro_ok (addToParent_of_rejects later rejected) ?_
      exact (afterAdd_settles mgr readings header.blkNum later).mono
        (fun _ _ settled => settled.1 ends) fun _ _ settled => settled.1 ends
    · cases isReceived.symm.trans failed

/-! ## Every block -/

variable {mgr} in
theorem phaseDriven_iff {before after : BlockchainMgr} {readings : Readings HostBlockService}
    {headerRlp : Bytes} (stepped : Step mgr before (.appendBlock readings headerRlp) after) :
    PhaseDriven mgr before readings headerRlp after ↔
      misleads mgr before (.appendBlock readings headerRlp) = false := by
  constructor
  · intro isDriven
    by_contra leads
    rw [Bool.not_eq_false] at leads
    have isSync : after.shared.phase = .sync :=
      (appendBlock_misled mgr leads).ends (fun manager => manager.shared.phase = .sync) stepped
    simp only [misleads, Bool.and_eq_true, decide_eq_true_eq] at leads
    obtain ⟨phase, leads⟩ := leads
    cases isReceived : received (parts mgr) before readings headerRlp with
    | error _ => simp [isReceived] at leads
    | ok header =>
      simp only [isReceived, Bool.and_eq_true] at leads
      have samePhase := (isDriven.rejected header isReceived leads.1).1
      rw [isSync, phase] at samePhase
      cases samePhase
  · intro leads
    refine ⟨fun phase changed => ?_, fun header isReceived rejected => ?_⟩
    · refine (appendBlock_leaves mgr phase leads).ends (fun after : BlockchainMgr =>
        driven after.shared ≠ driven before.shared → AddsPlaned mgr before readings headerRlp after)
        stepped fun same => ?_
      simp only [driven, Prod.mk.injEq] at same
      rcases changed with left | renewed
      · exact left (same.1.trans phase)
      · exact renewed same.2
    · have kept : syncView after.shared = syncView before.shared := by
        by_cases phase : before.shared.phase = .bootstrapI
        · obtain ⟨error, threw⟩ := appendBlock_rejected_onBootstrapI mgr phase isReceived rejected
          rcases stepped with ⟨_, returned⟩ | ⟨_, thrown⟩
          · cases threw.symm.trans returned
          · cases threw.symm.trans thrown
            rfl
        · exact (appendBlock_rejected mgr phase isReceived rejected leads).ends
            (fun manager => syncView manager.shared = syncView before.shared) stepped
      simp only [syncView, Prod.mk.injEq] at kept
      exact ⟨kept.1, kept.2.1, kept.2.2.1, kept.2.2.2.1⟩

/-- Blocks drive the phases as they should, and nothing else drives them. -/
def StepDriven (before : BlockchainMgr) (action : Action) (after : BlockchainMgr) : Prop :=
  match action with
  | .appendBlock readings headerRlp => PhaseDriven mgr before readings headerRlp after
  | _ => driven after.shared = driven before.shared

variable {mgr} in
theorem stepDriven_iff {before after : BlockchainMgr} {action : Action}
    (stepped : Step mgr before action after) :
    StepDriven mgr before action after ↔ misleads mgr before action = false := by
  rcases step_cases stepped with ⟨readings, headerRlp, rfl, ended⟩ | ⟨noBlock, _, _, rfl⟩
  · exact phaseDriven_iff ended
  · cases action with
    | appendBlock readings headerRlp => exact absurd rfl (noBlock readings headerRlp)
    | _ => exact iff_of_true rfl rfl

/-- In every run the phases are driven by the accepted headers alone, if and only if no header with the
    planned number is rejected in bootstrap II. -/
theorem phases_driven_iff {args : InitArgs} {taken : List (BlockchainMgr × Action)}
    {final : BlockchainMgr} (run : Run (Step mgr) (init mgr args) taken final) :
    (∀ entry ∈ taken, ∀ after, Step mgr entry.1 entry.2 after →
        StepDriven mgr entry.1 entry.2 after) ↔
      ∀ entry ∈ taken, misleads mgr entry.1 entry.2 = false := by
  refine forall₂_congr fun entry member => ?_
  obtain ⟨after, stepped⟩ := run.stepped member
  exact ⟨fun drives => (stepDriven_iff stepped).mp (drives after stepped),
    fun leads after' stepped' => (stepDriven_iff stepped').mpr leads⟩

end BlockchainMgr

/-! ## An orphan with the planned number -/

namespace SampleClient

open SampleChain

/-- A header without a known parent. -/
def orphan : Block where
  rawHeader := rawHeader (List.replicate 32 0) 5
  extraData := []
  hash := #v[97, 209, 195, 250, 186, 113, 138, 44, 206, 153, 238, 194, 10, 149, 54, 61, 48, 21, 142, 10,
    20, 20, 159, 254, 112, 138, 148, 148, 7, 116, 150, 10]

def quietMgr : MgrConfig := { mgr with codec := codecOf [block0, block1, orphan] }

/-- Blocks 0 and 1, with which bootstrap I ends, and the orphan. -/
def misled : List BlockchainMgr.Action :=
  [block0, block1, orphan].map fun block => .appendBlock found block.binary

end SampleClient

namespace BlockchainMgr

open SampleChain SampleClient

theorem phases_driven_iff_sample :
    ∃ taken final, Run (Step quietMgr) (init quietMgr args) taken final ∧
      final.shared.phase = .bootstrapII ∧
      ∀ entry ∈ taken, ∀ after, Step quietMgr entry.1 entry.2 after →
        StepDriven quietMgr entry.1 entry.2 after := by
  have replays : (Run.replay (execute quietMgr) (misled.take 2) [] (init quietMgr args)).any
      (fun (taken, final) => final.shared.phase = .bootstrapII ∧
        taken.all fun entry => !misleads quietMgr entry.1 entry.2) = true := by
    decide +kernel
  obtain ⟨⟨taken, final⟩, replayed, checks⟩ := (Option.any_eq_true _ _).mp replays
  simp only [decide_eq_true_eq, List.all_eq_true, Bool.not_eq_true'] at checks
  have run := run_of_replay quietMgr replayed
  exact ⟨taken, final, run, checks.1, (phases_driven_iff quietMgr run).mpr checks.2⟩

/-- The orphan ends bootstrap II. -/
theorem phases_misled :
    ∃ taken final, Run (Step quietMgr) (init quietMgr args) taken final ∧
      ¬ ∀ entry ∈ taken, ∀ after, Step quietMgr entry.1 entry.2 after →
        StepDriven quietMgr entry.1 entry.2 after := by
  have replays : (Run.replay (execute quietMgr) misled [] (init quietMgr args)).any
      (fun (taken, _) => taken.any fun entry => misleads quietMgr entry.1 entry.2) = true := by
    decide +kernel
  obtain ⟨⟨taken, final⟩, replayed, checks⟩ := (Option.any_eq_true _ _).mp replays
  obtain ⟨entry, member, leads⟩ := List.any_eq_true.mp checks
  have run := run_of_replay quietMgr replayed
  obtain ⟨after, stepped⟩ := run.stepped member
  refine ⟨taken, final, run, fun drives => ?_⟩
  rw [(stepDriven_iff stepped).mp (drives entry member after stepped)] at leads
  cases leads

end BlockchainMgr

end Decentagram.EthereumClt
