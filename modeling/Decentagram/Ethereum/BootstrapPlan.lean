import Decentagram.EclipseMonitor.SharedState
import Decentagram.Ethereum.UpdateAtomicity
import Mathlib.Algebra.Group.Nat.Defs

/-! # The end of bootstrap I

The planned end is a whole number of checkpoints after the start block, whatever the host reports.  So when
the first header is the start block, the header with that number completes a window.
-/

namespace Decentagram.EthereumClt

open Decentagram.Lib
open Decentagram.Eth
open Decentagram.Eth.EclipseMonitor

/-! ## The planned number -/

/-- The number is that of the last block of some number of checkpoints from the start. -/
def EndsCheckpoint (startBlk chkptSize endBlkNum : UInt64) : Prop :=
  ∃ intervals : Nat, intervals * chkptSize.toNat < 2 ^ 64 ∧
    endBlkNum = startBlk + UInt64.ofNat (intervals * chkptSize.toNat) - 1

/-- The latest block may be any number, also one before the start. -/
theorem endsCheckpoint_calc (latestBlk startBlk chkptSize : UInt64) :
    EndsCheckpoint startBlk chkptSize (calcBootstrapIEndBlkNum latestBlk startBlk chkptSize) := by
  let numOfBlocks := latestBlk - startBlk + 1
  let numOfInterval := if numOfBlocks / chkptSize > 2 then numOfBlocks / chkptSize - 2 else 0
  -- subtracting two intervals does not wrap, so the product stays below the number of blocks
  have fewer : numOfInterval.toNat ≤ (numOfBlocks / chkptSize).toNat := by
    simp only [numOfInterval]
    split
    next more =>
      rw [UInt64.toNat_sub_of_le _ _ (Std.le_of_lt more)]
      exact Nat.sub_le _ _
    next => exact Nat.zero_le _
  have bounded : numOfInterval.toNat * chkptSize.toNat < 2 ^ 64 := by
    calc numOfInterval.toNat * chkptSize.toNat
        ≤ (numOfBlocks / chkptSize).toNat * chkptSize.toNat := Nat.mul_le_mul_right _ fewer
      _ ≤ numOfBlocks.toNat := by
        rw [UInt64.toNat_div]
        exact Nat.div_mul_le_self _ _
      _ < 2 ^ 64 := numOfBlocks.toNat_lt
  refine ⟨numOfInterval.toNat, bounded, ?_⟩
  rw [UInt64.ofNat_mul, UInt64.ofNat_toNat, UInt64.ofNat_toNat]
  rfl

/-- Counting from the start block, a header with the planned number ends a checkpoint. -/
theorem count_of_endsCheckpoint {startBlk chkptSize : UInt64} {count : Nat} (bounded : count < 2 ^ 64)
    (ends : EndsCheckpoint startBlk chkptSize (startBlk + UInt64.ofNat count - 1)) :
    chkptSize.toNat ∣ count := by
  obtain ⟨intervals, small, same⟩ := ends
  have sameCount : UInt64.ofNat count = UInt64.ofNat (intervals * chkptSize.toNat) := by
    simpa using same
  have counts := congrArg UInt64.toNat sameCount
  rw [UInt64.toNat_ofNat_of_lt' bounded, UInt64.toNat_ofNat_of_lt' small] at counts
  exact ⟨intervals, by rw [counts, Nat.mul_comm]⟩

/-! ## The headers counted -/

/-- What the checkpoint holds after `count` headers, the first of them numbered `startBlk`. -/
structure HoldsHeaders (startBlk : BlockNumber) (count : Nat) (checkpoint : CheckpointMgr) : Prop where
  candidates : checkpoint.candidate.length = count % checkpoint.chkptSize
  window : checkpoint.currWindow.length = if count < checkpoint.chkptSize then 0 else checkpoint.chkptSize
  noNode : checkpoint.lastNode = none
  lastNumber : ∀ header, checkpoint.getLastHeader = .ok header →
    header.blkNum = startBlk + UInt64.ofNat count - 1

namespace HoldsHeaders

variable {startBlk : BlockNumber} {count : Nat} {checkpoint : CheckpointMgr}

theorem init {chkptSize : Nat} (large : 2 ≤ chkptSize) :
    HoldsHeaders startBlk 0 (CheckpointMgr.init chkptSize) where
  candidates := (Nat.zero_mod _).symm
  window := by simp [CheckpointMgr.init, show 0 < chkptSize by omega]
  noNode := rfl
  lastNumber := by simp [CheckpointMgr.init, CheckpointMgr.getLastHeader]

theorem isEmpty_iff (holds : HoldsHeaders startBlk count checkpoint) (large : 2 ≤ checkpoint.chkptSize) :
    checkpoint.isEmpty = true ↔ count = 0 := by
  have candidates := holds.candidates
  have window := holds.window
  simp only [CheckpointMgr.isEmpty, holds.noNode, Option.isNone_none, Bool.true_and, Bool.and_eq_true,
    List.isEmpty_iff, ← List.length_eq_zero_iff]
  constructor
  · rintro ⟨noCandidate, noWindow⟩
    split at window
    next few => rwa [noCandidate, Nat.mod_eq_of_lt few, eq_comm] at candidates
    next => omega
  · rintro rfl
    rw [Nat.zero_mod] at candidates
    rw [if_pos (by omega)] at window
    exact ⟨candidates, window⟩

/-- One more header, numbered after the last one. -/
theorem addHeader (holds : HoldsHeaders startBlk count checkpoint) (large : 2 ≤ checkpoint.chkptSize)
    {header : HeaderMgr} (number : header.blkNum = startBlk + UInt64.ofNat (count + 1) - 1) :
    ∃ completed after, CheckpointMgr.addHeader (some header) checkpoint = .ok completed after ∧
      after.chkptSize = checkpoint.chkptSize ∧ HoldsHeaders startBlk (count + 1) after := by
  have candidates := holds.candidates
  have window := holds.window
  have short : count % checkpoint.chkptSize < checkpoint.chkptSize := Nat.mod_lt _ (by omega)
  have added := CheckpointMgr.addHeader_ok holds.noNode header
  by_cases full : checkpoint.chkptSize ≤ checkpoint.candidate.length + 1
  · -- the candidates become the window
    have isMultiple : (count + 1) % checkpoint.chkptSize = 0 := by
      rw [Nat.add_mod, Nat.mod_eq_of_lt (show 1 < checkpoint.chkptSize by omega),
        show count % checkpoint.chkptSize + 1 = checkpoint.chkptSize by omega, Nat.mod_self]
    have enough : checkpoint.chkptSize ≤ count + 1 := by
      have := Nat.mod_le count checkpoint.chkptSize
      omega
    rw [if_pos full] at added
    refine ⟨_, _, added, rfl, ?_⟩
    constructor
    · simp [isMultiple]
    · simp only [List.length_append, List.length_singleton]
      rw [if_neg (by omega)]
      omega
    · exact holds.noNode
    · simp [CheckpointMgr.getLastHeader, holds.noNode, number]
  · have next : (count + 1) % checkpoint.chkptSize = count % checkpoint.chkptSize + 1 := by
      rw [Nat.add_mod, Nat.mod_eq_of_lt (show 1 < checkpoint.chkptSize by omega),
        Nat.mod_eq_of_lt (by omega)]
    have sameCase : count + 1 < checkpoint.chkptSize ↔ count < checkpoint.chkptSize := by
      constructor
      · omega
      · intro few
        rw [Nat.mod_eq_of_lt few] at candidates
        omega
    rw [if_neg full] at added
    refine ⟨_, _, added, rfl, ?_⟩
    constructor
    · simp [next, candidates]
    · simp only [sameCase]
      exact window
    · exact holds.noNode
    · simp [CheckpointMgr.getLastHeader, holds.noNode, number]

/-- After a whole number of windows nothing is pending, and the current window is full. -/
theorem of_dvd (holds : HoldsHeaders startBlk count checkpoint) (positive : 0 < count)
    (whole : checkpoint.chkptSize ∣ count) :
    checkpoint.candidate = [] ∧ checkpoint.currWindow.length = checkpoint.chkptSize := by
  have candidates := holds.candidates
  rw [Nat.mod_eq_zero_of_dvd whole, List.length_eq_zero_iff] at candidates
  have enough : ¬ count < checkpoint.chkptSize := Nat.not_lt.mpr (Nat.le_of_dvd positive whole)
  exact ⟨candidates, by rw [holds.window, if_neg enough]⟩

end HoldsHeaders

/-! ## The plan of a manager -/

namespace BlockchainMgr

variable (mgr : MgrConfig)

/-- Everything that may refresh the plan: what a manager does, and `RefreshBootstrapPlan` at any time. -/
inductive PlanLabel where
  | manager (action : Action)
  | refresh (latestBlkNum : BlockNumber)

def planCall : PlanLabel → Exec Exception BlockchainMgr Unit
  | .manager action => perform mgr action
  | .refresh latestBlkNum =>
    onShared (Exec.modify (EclipseMonitor.refreshBootstrapPlan mgr.config latestBlkNum none))

def PlanStep (before : BlockchainMgr) (label : PlanLabel) (after : BlockchainMgr) : Prop :=
  Exec.Ends (planCall mgr label) before after

/-- While no header was added, a header that is delivered is the start block. -/
def startsWithPlan (before : BlockchainMgr) : PlanLabel → Bool
  | .manager (.appendBlock readings headerRlp) =>
    !before.checkpoint.isEmpty ||
      match received (parts mgr) before readings headerRlp with
      | .ok header => header.blkNum = before.shared.startBlockNum
      | .error _ => true
  | _ => true

/-- When the check for a phase change ends bootstrap I, nothing is pending in the checkpoint, its window is
    full, and the phase ends without an exception or undefined behaviour. -/
def EndsWell (before : BlockchainMgr) (readings : Readings HostBlockService) (headerRlp : Bytes) : Prop :=
  ∀ blkNum middle, updateOnBootstrapI (parts mgr) readings headerRlp before = .ok blkNum middle →
    blkNum = middle.shared.bootstrapIEndBlkNum →
    middle.checkpoint.candidate = [] ∧
      middle.checkpoint.currWindow.length = mgr.config.checkpointSize.toNat ∧
      ∃ after, endBootstrapI middle = .ok () after

/-- The planned number, whatever the host told. -/
def InPlan (startBlk : BlockNumber) (shared : Monitored) : Prop :=
  shared.startBlockNum = startBlk ∧
    EndsCheckpoint startBlk mgr.config.checkpointSize shared.bootstrapIEndBlkNum

/-- In bootstrap I: the plan, and at most `blocks` headers in the checkpoint. -/
structure Planned (startBlk : BlockNumber) (blocks : Nat) (manager : BlockchainMgr) : Prop where
  inPlan : InPlan mgr startBlk manager.shared
  chkptSize : manager.checkpoint.chkptSize = mgr.config.checkpointSize.toNat
  counted : ∃ count ≤ blocks, HoldsHeaders startBlk count manager.checkpoint

variable {mgr} {startBlk : BlockNumber}

theorem inPlan_refresh (latestBlkNum : BlockNumber) {shared : Monitored}
    (inPlan : InPlan mgr startBlk shared) :
    InPlan mgr startBlk (EclipseMonitor.refreshBootstrapPlan mgr.config latestBlkNum none shared) := by
  obtain ⟨rfl, ends⟩ := inPlan
  rw [EclipseMonitor.refreshBootstrapPlan]
  cases phase : shared.phase with
  | bootstrapI => exact ⟨rfl, endsCheckpoint_calc latestBlkNum _ _⟩
  | bootstrapII => exact ⟨rfl, ends⟩
  | sync => exact ⟨rfl, ends⟩
  | runtime => exact ⟨rfl, ends⟩

theorem refreshBootstrapPlan_phase (latestBlkNum : BlockNumber) (shared : Monitored) :
    (EclipseMonitor.refreshBootstrapPlan mgr.config latestBlkNum none shared).phase = shared.phase := by
  obtain ⟨_, _, refreshed⟩ := refreshBootstrapPlan_eq mgr.config latestBlkNum shared
  rw [refreshed]

/-- The callback may move the end, but only to another whole number of checkpoints. -/
theorem onHeaderValidated_inPlan (host : HostBlockService) (header : HeaderMgr) {shared : Monitored}
    (inPlan : InPlan mgr startBlk shared) :
    Exec.Sat (onHeaderValidated mgr host header) shared
      (fun _ after => after.phase = shared.phase ∧ InPlan mgr startBlk after)
      (fun _ after => after.phase = shared.phase ∧ InPlan mgr startBlk after) := by
  let plan (shared : Monitored) : Phases × BlockNumber × BlockNumber :=
    (shared.phase, shared.startBlockNum, shared.bootstrapIEndBlkNum)
  have same : ∀ after : Monitored, plan after = plan shared →
      after.phase = shared.phase ∧ InPlan mgr startBlk after := by
    intro after equal
    simp only [plan, Prod.mk.injEq] at equal
    rw [InPlan, equal.2.1, equal.2.2]
    exact ⟨equal.1, inPlan⟩
  have called : Exec.Keeps (checkEvents mgr host header) plan :=
    checkEvents_frame mgr (fun _ _ _ => rfl) (fun _ _ => rfl) host header
  simp only [onHeaderValidated, SubscriberService.onOwner, Exec.sat_bind, Exec.sat_modify, Exec.sat_get]
  apply (called _).mono
  · intro _ middle equal
    obtain ⟨phase, inPlan'⟩ := same middle equal
    simp only [Exec.sat_ite, refreshPlan, Exec.sat_bind, Exec.sat_ofExcept, Exec.sat_modify,
      Exec.sat_pure]
    refine ⟨fun _ => ⟨fun latestBlkNum _ => ?_, fun _ _ => ⟨phase, inPlan'⟩⟩, fun _ => ⟨phase, inPlan'⟩⟩
    exact ⟨(refreshBootstrapPlan_phase latestBlkNum middle).trans phase, inPlan_refresh latestBlkNum inPlan'⟩
  · exact fun _ after equal => same after equal

/-- Completing a checkpoint changes neither the checkpoint nor the plan. -/
theorem onCheckpointComplete_plan :
    Exec.Keeps (onCheckpointComplete (parts mgr)) fun manager : BlockchainMgr =>
      (manager.checkpoint, manager.shared.phase, manager.shared.startBlockNum,
        manager.shared.bootstrapIEndBlkNum) := by
  have confirms : ∀ headers, Exec.Keeps (confirmHeaders (parts mgr) headers)
      fun manager : BlockchainMgr => (manager.checkpoint, manager.shared.phase,
        manager.shared.startBlockNum, manager.shared.bootstrapIEndBlkNum) := by
    intro headers
    induction headers with
    | nil => exact Exec.keeps_pure ()
    | cons header headers inductionHypothesis => exact .bind (fun _ => rfl) fun _ => inductionHypothesis
  refine Exec.keeps_get.bind fun _ => (Exec.keeps_ofExcept _).bind fun lastHeader => ?_
  refine .bind (fun _ => rfl) fun _ => .bind (Exec.keeps_zoom _ fun _ _ => rfl) fun _ => confirms _

/-! ## A block in bootstrap I -/

/-- A header was added, and its number counts the headers. -/
structure Added (mgr : MgrConfig) (startBlk : BlockNumber) (blocks : Nat) (blkNum : BlockNumber)
    (manager : BlockchainMgr) : Prop where
  inPlan : InPlan mgr startBlk manager.shared
  chkptSize : manager.checkpoint.chkptSize = mgr.config.checkpointSize.toNat
  counted : ∃ count ≤ blocks, 0 < count ∧ HoldsHeaders startBlk count manager.checkpoint ∧
    blkNum = startBlk + UInt64.ofNat count - 1

theorem Added.planned {blocks : Nat} {blkNum : BlockNumber} {manager : BlockchainMgr}
    (added : Added mgr startBlk blocks blkNum manager) : Planned mgr startBlk blocks manager := by
  obtain ⟨count, few, -, holds, -⟩ := added.counted
  exact ⟨added.inPlan, added.chkptSize, count, few, holds⟩

theorem Planned.mono {blocks more : Nat} {manager : BlockchainMgr} (le : blocks ≤ more)
    (planned : Planned mgr startBlk blocks manager) : Planned mgr startBlk more manager := by
  obtain ⟨count, few, holds⟩ := planned.counted
  exact ⟨planned.inPlan, planned.chkptSize, count, Nat.le_trans few le, holds⟩

/-- Adding the header after the callback. -/
theorem addHeader_added {blocks count : Nat} (manager : BlockchainMgr) {header : HeaderMgr}
    (large : 2 ≤ mgr.config.checkpointSize.toNat) (inPlan : InPlan mgr startBlk manager.shared)
    (chkptSize : manager.checkpoint.chkptSize = mgr.config.checkpointSize.toNat)
    (few : count ≤ blocks) (holds : HoldsHeaders startBlk count manager.checkpoint)
    (number : header.blkNum = startBlk + UInt64.ofNat (count + 1) - 1) :
    Exec.Sat (thenComplete (parts mgr) (CheckpointMgr.addHeader (some header))) manager
      (fun _ after => after.shared.phase = manager.shared.phase ∧
        Added mgr startBlk (blocks + 1) header.blkNum after)
      (fun _ after => after.shared.phase = manager.shared.phase ∧
        Added mgr startBlk (blocks + 1) header.blkNum after) := by
  obtain ⟨completed, checkpoint, added, sameSize, holds'⟩ :=
    holds.addHeader (by omega) number
  have isAdded : ∀ after : BlockchainMgr,
      (after.checkpoint, after.shared.phase, after.shared.startBlockNum,
        after.shared.bootstrapIEndBlkNum) =
        (checkpoint, manager.shared.phase, manager.shared.startBlockNum,
          manager.shared.bootstrapIEndBlkNum) →
      after.shared.phase = manager.shared.phase ∧
        Added mgr startBlk (blocks + 1) header.blkNum after := by
    intro after same
    simp only [Prod.mk.injEq] at same
    obtain ⟨sameCheckpoint, samePhase, sameStart, sameEnd⟩ := same
    refine ⟨samePhase, ?_, ?_, count + 1, by omega, by omega, ?_, number⟩
    · rw [InPlan, sameStart, sameEnd]
      exact inPlan
    · rw [sameCheckpoint, sameSize, chkptSize]
    · rw [sameCheckpoint]
      exact holds'
  simp only [thenComplete, onCheckpoint, Exec.sat_bind, Exec.sat_zoom]
  apply Exec.Sat.intro_ok added
  cases completed with
  | false => exact isAdded _ rfl
  | true => exact (onCheckpointComplete_plan _).mono (fun _ => isAdded) fun _ => isAdded

theorem updateOnBootstrapI_added {blocks : Nat} {before : BlockchainMgr}
    {readings : Readings HostBlockService} {headerRlp : Bytes}
    (large : 2 ≤ mgr.config.checkpointSize.toNat) (phase : before.shared.phase = .bootstrapI)
    (planned : Planned mgr startBlk blocks before)
    (starts : startsWithPlan mgr before (.manager (.appendBlock readings headerRlp)) = true) :
    Exec.Sat (updateOnBootstrapI (parts mgr) readings headerRlp) before
      (fun blkNum middle => middle.shared.phase = .bootstrapI ∧
        Added mgr startBlk (blocks + 1) blkNum middle)
      (fun _ after => after.shared.phase = .bootstrapI ∧ Planned mgr startBlk (blocks + 1) after) := by
  have unchanged := planned.mono (Nat.le_succ blocks)
  obtain ⟨count, few, holds⟩ := planned.counted
  simp only [updateOnBootstrapI, Exec.sat_bind, Exec.sat_ofExcept, Exec.sat_pure]
  refine ⟨fun header parsed => ?_, fun _ _ => ⟨phase, unchanged⟩⟩
  have isReceived : received (parts mgr) before readings headerRlp = .ok header := by
    rw [received, if_pos phase]
    exact parsed
  -- what follows the checks, from any security state
  have rest : ∀ secState, header.blkNum = startBlk + UInt64.ofNat (count + 1) - 1 →
      Exec.Sat (onShared ((parts mgr).onHeaderValidated readings.host header))
        { before with shared := { before.shared with secState } }
        (fun _ validated => Exec.Sat (thenComplete (parts mgr) (CheckpointMgr.addHeader (some header)))
          validated
          (fun _ middle => middle.shared.phase = .bootstrapI ∧
            Added mgr startBlk (blocks + 1) header.blkNum middle)
          (fun _ after => after.shared.phase = .bootstrapI ∧ Planned mgr startBlk (blocks + 1) after))
        (fun _ after => after.shared.phase = .bootstrapI ∧ Planned mgr startBlk (blocks + 1) after) := by
    intro secState number
    simp only [onShared, Exec.sat_zoom]
    have inPlan : InPlan mgr startBlk { before.shared with secState } := planned.inPlan
    apply (onHeaderValidated_inPlan readings.host header inPlan).mono
    · intro _ shared done
      have added := addHeader_added { before with shared } large done.2 planned.chkptSize few holds number
      apply added.mono
      · exact fun _ _ adds => ⟨adds.1.trans (done.1.trans phase), adds.2⟩
      · exact fun _ _ adds => ⟨adds.1.trans (done.1.trans phase), adds.2.planned⟩
    · exact fun _ shared done => ⟨done.1.trans phase, done.2, unchanged.chkptSize, unchanged.counted⟩
  simp only [validateOnBootstrapI, Exec.sat_bind, Exec.sat_get, Exec.sat_ite]
  constructor
  · intro isEmpty
    -- the first header is numbered by the condition
    have first : count = 0 := (holds.isEmpty_iff (by rw [planned.chkptSize]; exact large)).mp isEmpty
    have isStart : header.blkNum = startBlk := by
      simpa [startsWithPlan, isEmpty, isReceived, planned.inPlan.1] using starts
    have number : header.blkNum = startBlk + UInt64.ofNat (count + 1) - 1 := by
      rw [isStart, first]
      simp
    simpa only [onShared, Exec.sat_zoom, Exec.sat_modify] using
      rest { before.shared.secState with genesisHash := header.hashObj } number
  · intro _
    simp only [Exec.sat_ofExcept, Exec.sat_throwIf]
    refine ⟨fun last hasLast => ⟨fun valid validates => ⟨fun _ => ⟨phase, unchanged⟩, fun isValid => ?_⟩,
      fun _ _ => ⟨phase, unchanged⟩⟩, fun _ _ => ⟨phase, unchanged⟩⟩
    -- every other header is numbered after the last one
    simp only [Bool.not_eq_true', Bool.not_eq_false] at isValid
    rw [isValid] at validates
    apply rest before.shared.secState
    rw [(commonValidate_links validates).1, holds.lastNumber last hasLast]
    simp [← UInt64.add_assoc]

/-! ## The end of the phase -/

theorem endBootstrapI_ok {manager : BlockchainMgr} (noNode : manager.checkpoint.lastNode = none)
    (noCandidate : manager.checkpoint.candidate = []) (window : manager.checkpoint.currWindow ≠ []) :
    ∃ after, endBootstrapI manager = .ok () after ∧ after.shared.phase = .bootstrapII := by
  have back := List.getLast?_eq_some_getLast window
  simp [endBootstrapI, onCheckpoint, CheckpointMgr.endBootstrapPhase, noNode, noCandidate, back,
    CheckpointMgr.getLastNode, Exec.zoom, Exec.ofExcept]

/-- A header with the planned number completes a window. -/
theorem Added.ends {blocks : Nat} {blkNum : BlockNumber} {manager : BlockchainMgr}
    (added : Added mgr startBlk blocks blkNum manager) (large : 2 ≤ mgr.config.checkpointSize.toNat)
    (bounded : blocks < 2 ^ 64) (isEnd : blkNum = manager.shared.bootstrapIEndBlkNum) :
    manager.checkpoint.candidate = [] ∧
      manager.checkpoint.currWindow.length = mgr.config.checkpointSize.toNat ∧
      ∃ after, endBootstrapI manager = .ok () after ∧ after.shared.phase = .bootstrapII := by
  obtain ⟨count, few, positive, holds, number⟩ := added.counted
  have ends := added.inPlan.2
  rw [← isEnd, number] at ends
  have whole := count_of_endsCheckpoint (Nat.lt_of_le_of_lt few bounded) ends
  obtain ⟨noCandidate, window⟩ := holds.of_dvd positive (added.chkptSize ▸ whole)
  rw [added.chkptSize] at window
  refine ⟨noCandidate, window, endBootstrapI_ok holds.noNode noCandidate ?_⟩
  rintro isEmpty
  rw [isEmpty, List.length_nil] at window
  omega

theorem endsWell_of_planned {blocks : Nat} {before : BlockchainMgr}
    {readings : Readings HostBlockService} {headerRlp : Bytes}
    (large : 2 ≤ mgr.config.checkpointSize.toNat) (bounded : blocks + 1 < 2 ^ 64)
    (phase : before.shared.phase = .bootstrapI) (planned : Planned mgr startBlk blocks before)
    (starts : startsWithPlan mgr before (.manager (.appendBlock readings headerRlp)) = true) :
    EndsWell mgr before readings headerRlp := by
  intro blkNum middle returned isEnd
  have added := (updateOnBootstrapI_added large phase planned starts).of_ok returned
  obtain ⟨noCandidate, window, after, ended, -⟩ := added.2.ends large bounded isEnd
  exact ⟨noCandidate, window, after, ended⟩

theorem appendBlock_planned {blocks : Nat} {before : BlockchainMgr}
    {readings : Readings HostBlockService} {headerRlp : Bytes}
    (large : 2 ≤ mgr.config.checkpointSize.toNat) (bounded : blocks + 1 < 2 ^ 64)
    (planned : before.shared.phase = .bootstrapI → Planned mgr startBlk blocks before)
    (starts : startsWithPlan mgr before (.manager (.appendBlock readings headerRlp)) = true) :
    Exec.Sat (appendBlock mgr readings headerRlp) before
      (fun _ after => after.shared.phase = .bootstrapI → Planned mgr startBlk (blocks + 1) after)
      (fun _ after => after.shared.phase = .bootstrapI → Planned mgr startBlk (blocks + 1) after) := by
  by_cases phase : before.shared.phase = .bootstrapI
  · rw [appendBlock, update_onBootstrapI_sat phase]
    apply (updateOnBootstrapI_added large phase (planned phase) starts).mono
    · rintro blkNum middle ⟨stays, added⟩
      simp only [afterAdd, phaseChangeCheck, Exec.sat_bind, Exec.sat_get, stays]
      by_cases isEnd : blkNum = middle.shared.bootstrapIEndBlkNum
      · -- the phase ends, and the maintenance that follows starts no other
        obtain ⟨-, -, ended, returned, isII⟩ := added.ends large bounded isEnd
        rw [if_pos isEnd]
        apply Exec.Sat.intro_ok returned
        simp only [isII]
        apply (runtimeMaintenance_releases mgr readings ended).mono
        · exact fun _ after releases phase' => by rw [releases.1, isII] at phase'; cases phase'
        · exact fun _ after releases phase' => by rw [releases.1, isII] at phase'; cases phase'
      · rw [if_neg isEnd]
        simp only [Exec.sat_pure, stays]
        exact fun _ => added.planned
    · exact fun _ after done _ => done.2
  · apply (appendBlock_later mgr readings headerRlp phase).mono
    · exact fun _ after later phase' => absurd phase' later
    · exact fun _ after later phase' => absurd phase' later

/-! ## Every run -/

/-- How many blocks a run appended. -/
def blocksIn (taken : List (BlockchainMgr × PlanLabel)) : Nat :=
  taken.countP fun entry => match entry.2 with
    | .manager (.appendBlock _ _) => true
    | _ => false

theorem planStep_planned {blocks : Nat} {before after : BlockchainMgr} {label : PlanLabel}
    (large : 2 ≤ mgr.config.checkpointSize.toNat) (bounded : blocks + 1 < 2 ^ 64)
    (planned : before.shared.phase = .bootstrapI → Planned mgr startBlk blocks before)
    (starts : startsWithPlan mgr before label = true) (stepped : PlanStep mgr before label after) :
    after.shared.phase = .bootstrapI →
      Planned mgr startBlk (blocks + blocksIn [(before, label)]) after := by
  cases label with
  | refresh latestBlkNum =>
    intro phase
    rcases stepped with ⟨_, returned⟩ | ⟨_, thrown⟩
    · cases returned
      have samePhase : (EclipseMonitor.refreshBootstrapPlan mgr.config latestBlkNum none
          before.shared).phase = before.shared.phase :=
        refreshBootstrapPlan_phase latestBlkNum before.shared
      have planned' := planned (samePhase.symm.trans phase)
      exact ⟨inPlan_refresh latestBlkNum planned'.inPlan, planned'.chkptSize, planned'.counted⟩
    · cases thrown
  | manager action =>
    rcases step_cases stepped with ⟨readings, headerRlp, rfl, ended⟩ | ⟨noBlock, queues, listeners, rfl⟩
    · exact (appendBlock_planned large bounded planned starts).ends
        (fun after => after.shared.phase = .bootstrapI → Planned mgr startBlk (blocks + 1) after) ended
    · intro phase
      have planned' := planned phase
      have noMore : blocksIn [(before, .manager action)] = 0 := by
        cases action with
        | appendBlock readings headerRlp => exact absurd rfl (noBlock readings headerRlp)
        | _ => rfl
      rw [noMore]
      exact ⟨planned'.inPlan, planned'.chkptSize, planned'.counted⟩

theorem init_planned (large : 2 ≤ mgr.config.checkpointSize.toNat) (args : InitArgs) :
    Planned mgr args.startBlockNum 0 (init mgr args) where
  inPlan := ⟨rfl, endsCheckpoint_calc args.latestBlkNum args.startBlockNum mgr.config.checkpointSize⟩
  chkptSize := rfl
  counted := ⟨0, Nat.le_refl 0, .init large⟩

/-- In every run whose first header is the start block, every later block that ends bootstrap I ends it
    well. -/
theorem bootstrapI_endsWell {args : InitArgs} {taken : List (BlockchainMgr × PlanLabel)}
    {final : BlockchainMgr} (run : Run (PlanStep mgr) (init mgr args) taken final)
    (large : 2 ≤ mgr.config.checkpointSize.toNat) (bounded : blocksIn taken + 1 < 2 ^ 64)
    (guarded : ∀ entry ∈ taken, startsWithPlan mgr entry.1 entry.2 = true)
    {readings : Readings HostBlockService} {headerRlp : Bytes}
    (starts : startsWithPlan mgr final (.manager (.appendBlock readings headerRlp)) = true)
    (phase : final.shared.phase = .bootstrapI) : EndsWell mgr final readings headerRlp := by
  have planned : blocksIn taken + 1 < 2 ^ 64 → final.shared.phase = .bootstrapI →
      Planned mgr args.startBlockNum (blocksIn taken) final := by
    apply run.invariant (fun before label => startsWithPlan mgr before label = true)
      (fun taken manager => blocksIn taken + 1 < 2 ^ 64 → manager.shared.phase = .bootstrapI →
        Planned mgr args.startBlockNum (blocksIn taken) manager)
    · exact fun _ _ => init_planned large args
    · intro taken before label after held starts stepped bounded
      have split : blocksIn (taken ++ [(before, label)]) = blocksIn taken + blocksIn [(before, label)] :=
        List.countP_append
      rw [split] at bounded ⊢
      exact planStep_planned large (by omega) (held (by omega)) starts stepped
    · exact guarded
  exact endsWell_of_planned large bounded phase (planned bounded phase) starts

end BlockchainMgr

/-! ## A block before the start block -/

namespace SampleClient

open SampleChain

/-- The host tells one block more than the start, so the plan ends before the first checkpoint. -/
def shortArgs : BlockchainMgr.InitArgs :=
  { args with startBlockNum := firstBlkNum + 1, latestBlkNum := firstBlkNum + 1 }

end SampleClient

namespace BlockchainMgr

open SampleChain SampleClient

/-- Block 1 ends bootstrap I. -/
theorem bootstrapI_endsWell_sample :
    ∃ taken final, Run (PlanStep mgr) (init mgr args) taken final ∧ taken ≠ [] ∧
      EndsWell mgr final found loudBlock.binary := by
  have replays : (Run.replay (fun before label => Exec.endState (planCall mgr label) before)
      [.refresh (firstBlkNum + 5), .manager (.appendBlock found block0.binary)] []
      (init mgr args)).any (fun (taken, final) => taken ≠ [] ∧ blocksIn taken + 1 < 2 ^ 64 ∧
        (taken.all fun entry => startsWithPlan mgr entry.1 entry.2) = true ∧
        startsWithPlan mgr final (.manager (.appendBlock found loudBlock.binary)) = true ∧
        final.shared.phase = .bootstrapI) = true := by
    decide +kernel
  obtain ⟨⟨taken, final⟩, replayed, checks⟩ := (Option.any_eq_true _ _).mp replays
  simp only [decide_eq_true_eq, List.all_eq_true] at checks
  obtain ⟨steps, bounded, guarded, starts, phase⟩ := checks
  have executes : ∀ before label after, Exec.endState (planCall mgr label) before = some after →
      PlanStep mgr before label after := fun _ _ _ => Exec.ends_of_endState
  have run : Run (PlanStep mgr) (init mgr args) taken final := Run.of_replay executes .nil replayed
  exact ⟨taken, final, run, steps, bootstrapI_endsWell run (by decide) bounded guarded starts phase⟩

/-- The call returns the planned number and leaves a pending header. -/
def endsEarly : Outcome Exception BlockchainMgr BlockNumber → Bool
  | .ok blkNum middle =>
    decide (blkNum = middle.shared.bootstrapIEndBlkNum ∧ middle.checkpoint.candidate ≠ [])
  | _ => false

/-- The first header is the one before the start block, and ends the phase with a pending header. -/
theorem bootstrapI_ends_early :
    ∃ taken final, Run (PlanStep mgr) (init mgr shortArgs) taken final ∧
      final.shared.phase = .bootstrapI ∧ ¬ EndsWell mgr final found block0.binary := by
  have computes :
      endsEarly (updateOnBootstrapI (parts mgr) found block0.binary (init mgr shortArgs)) = true := by
    decide +kernel
  refine ⟨[], init mgr shortArgs, .nil, rfl, fun ends => ?_⟩
  cases returned : updateOnBootstrapI (parts mgr) found block0.binary (init mgr shortArgs) with
  | ok blkNum middle =>
    simp only [returned, endsEarly, decide_eq_true_eq] at computes
    exact computes.2 (ends blkNum middle returned computes.1).1
  | throws _ _ => simp [returned, endsEarly] at computes
  | undefined => simp [returned, endsEarly] at computes

end BlockchainMgr

end Decentagram.EthereumClt
