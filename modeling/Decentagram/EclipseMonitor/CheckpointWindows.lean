import Decentagram.EclipseMonitor.CheckpointMgr

/-! # Checkpoint windows

A checkpoint together with the windows its completions have delivered to the confirmed-header
callback, oldest first.
-/

namespace Decentagram.Eth

open Decentagram.Lib

structure ConfirmedWindows where
  checkpoint : CheckpointMgr
  delivered : List (List HeaderMgr)
deriving DecidableEq, Repr

namespace ConfirmedWindows

def init (chkptSize : Nat) : ConfirmedWindows := { checkpoint := .init chkptSize, delivered := [] }

def onCheckpoint {α : Type} (call : Exec Exception CheckpointMgr α) :
    Exec Exception ConfirmedWindows α :=
  Exec.zoom checkpoint (fun checkpoint windows => { windows with checkpoint }) call

/-- The part of `OnCheckpointComplete` that passes the window to the callback. -/
def deliver (completed : Bool) : Exec Exception ConfirmedWindows Unit :=
  if completed then
    Exec.modify fun windows => { windows with
      delivered := windows.delivered ++ [windows.checkpoint.iterateCurrWindow] }
  else
    pure ()

def addHeaders : List HeaderMgr → Exec Exception ConfirmedWindows Unit
  | [] => pure ()
  | header :: headers => do
    deliver (← onCheckpoint (CheckpointMgr.addHeader (some header)))
    addHeaders headers

def endBootstrapPhase (syncState : SyncStateRef) (addr : NodeAddr) :
    Exec Exception ConfirmedWindows Unit :=
  onCheckpoint (CheckpointMgr.endBootstrapPhase syncState addr)

def addNodes : List HeaderNode → Exec Exception ConfirmedWindows Unit
  | [] => pure ()
  | node :: nodes => do
    deliver (← onCheckpoint (CheckpointMgr.addNode (some node)))
    addNodes nodes

/-- The delivered windows cut `added` into adjacent pieces of `chkptSize`, with `pending` left over. -/
structure Partitions (windows : ConfirmedWindows) (added pending : List HeaderMgr) : Prop where
  adjacent : added = windows.delivered.flatten ++ pending
  size : ∀ window ∈ windows.delivered, window.length = windows.checkpoint.chkptSize
  short : pending.length < windows.checkpoint.chkptSize

/-- Between `AddHeader` calls the candidate vector holds what is pending, and the current window is the
    last one delivered. -/
structure Bootstrapping (windows : ConfirmedWindows) (added : List HeaderMgr) : Prop where
  noNode : windows.checkpoint.lastNode = none
  partitions : windows.Partitions added windows.checkpoint.candidate
  current : windows.checkpoint.currWindow = (windows.delivered.getLast?).getD []

/-- Between `AddNode` calls the last node is pending after the candidates when it is a candidate, and
    otherwise it ends the last window delivered and nothing is pending. -/
structure Running (windows : ConfirmedWindows) (added : List HeaderMgr) : Prop where
  node : ∃ last, windows.checkpoint.lastNode = some last ∧
    if windows.checkpoint.isLastNodeCandidate then
      windows.Partitions added (windows.checkpoint.candidate ++ [last.header])
    else
      windows.checkpoint.candidate = [] ∧ windows.Partitions added []

theorem Running.partitioned {windows : ConfirmedWindows} {added : List HeaderMgr}
    (running : windows.Running added) : ∃ pending, windows.Partitions added pending := by
  obtain ⟨last, _, state⟩ := running.node
  split at state
  · exact ⟨_, state⟩
  · exact ⟨_, state.2⟩

theorem init_bootstrapping {chkptSize : Nat} (positive : 2 ≤ chkptSize) :
    (init chkptSize).Bootstrapping [] where
  noNode := rfl
  partitions := ⟨rfl, by simp [init], by simp [init, CheckpointMgr.init]; omega⟩
  current := rfl

/-- A delivered window that takes up all that was pending leaves nothing pending. -/
theorem Partitions.complete {windows windows' : ConfirmedWindows} {added pending : List HeaderMgr}
    {header : HeaderMgr} (partitions : windows.Partitions added pending)
    (sameSize : windows'.checkpoint.chkptSize = windows.checkpoint.chkptSize)
    (delivered : windows'.delivered = windows.delivered ++ [pending ++ [header]])
    (full : pending.length + 1 = windows.checkpoint.chkptSize) :
    windows'.Partitions (added ++ [header]) [] where
  adjacent := by simp [delivered, partitions.adjacent]
  size := by
    intro window member
    rw [delivered] at member
    rcases List.mem_append.mp member with earlier | latest
    · rw [sameSize]; exact partitions.size window earlier
    · rw [List.mem_singleton.mp latest, sameSize, ← full]; simp
  short := by rw [sameSize, ← full]; simp

theorem Partitions.extend {windows windows' : ConfirmedWindows} {added pending : List HeaderMgr}
    {header : HeaderMgr} (partitions : windows.Partitions added pending)
    (sameSize : windows'.checkpoint.chkptSize = windows.checkpoint.chkptSize)
    (delivered : windows'.delivered = windows.delivered)
    (short : pending.length + 1 < windows.checkpoint.chkptSize) :
    windows'.Partitions (added ++ [header]) (pending ++ [header]) where
  adjacent := by simp [delivered, partitions.adjacent]
  size := by rw [delivered, sameSize]; exact partitions.size
  short := by rw [sameSize]; simpa using short

theorem addHeader_bootstrapping {windows : ConfirmedWindows} {added : List HeaderMgr}
    (header : HeaderMgr) (bootstrapping : windows.Bootstrapping added) :
    ∃ windows', (onCheckpoint (CheckpointMgr.addHeader (some header)) >>= deliver) windows =
        .ok () windows' ∧ windows'.Bootstrapping (added ++ [header]) ∧
      windows'.checkpoint.chkptSize = windows.checkpoint.chkptSize := by
  obtain ⟨checkpoint, delivered⟩ := windows
  obtain ⟨noNode, partitions, current⟩ := bootstrapping
  have short := partitions.short
  simp only at noNode current short
  by_cases full : checkpoint.chkptSize ≤ checkpoint.candidate.length + 1
  · let after := { checkpoint with currWindow := checkpoint.candidate ++ [header], candidate := [] }
    refine ⟨⟨after, delivered ++ [checkpoint.candidate ++ [header]]⟩, ?_, ⟨noNode, ?_, ?_⟩, rfl⟩
    · simp [after, onCheckpoint, CheckpointMgr.addHeader_ok noNode, full, deliver,
        CheckpointMgr.iterateCurrWindow, noNode]
    · exact partitions.complete rfl rfl (by simp only; omega)
    · simp [after]
  · let after := { checkpoint with candidate := checkpoint.candidate ++ [header] }
    refine ⟨⟨after, delivered⟩, ?_, ⟨noNode, ?_, current⟩, rfl⟩
    · simp [after, onCheckpoint, CheckpointMgr.addHeader_ok noNode, full, deliver]
    · exact partitions.extend rfl rfl (by simp only; omega)

/-- The hand-over: the last header moves from the window to the last node, which is no candidate, so
    nothing is pending. -/
theorem endBootstrapPhase_running {windows windows' : ConfirmedWindows} {added : List HeaderMgr}
    {syncState : SyncStateRef} {addr : NodeAddr} (bootstrapping : windows.Bootstrapping added)
    (ended : endBootstrapPhase syncState addr windows = .ok () windows') :
    windows'.Running added ∧ windows'.checkpoint.chkptSize = windows.checkpoint.chkptSize := by
  obtain ⟨checkpoint, delivered⟩ := windows
  simp only [endBootstrapPhase, onCheckpoint, Exec.zoom_apply] at ended
  cases call : CheckpointMgr.endBootstrapPhase syncState addr checkpoint with
  | throws _ _ => simp [call] at ended
  | undefined => simp [call] at ended
  | ok _ after =>
    simp only [call, Outcome.map_ok, Outcome.ok.injEq, true_and] at ended
    obtain ⟨_, noCandidate, header, _, rfl⟩ := CheckpointMgr.endBootstrapPhase_ok call
    subst ended
    have partitions := bootstrapping.partitions
    simp only [noCandidate] at partitions
    refine ⟨⟨_, rfl, ?_⟩, rfl⟩
    simp only [Bool.false_eq_true, if_false]
    exact ⟨noCandidate, partitions.adjacent, partitions.size, partitions.short⟩

theorem addNode_running {windows : ConfirmedWindows} {added : List HeaderMgr}
    (large : 2 ≤ windows.checkpoint.chkptSize) (node : HeaderNode) (running : windows.Running added) :
    ∃ windows', (onCheckpoint (CheckpointMgr.addNode (some node)) >>= deliver) windows =
        .ok () windows' ∧ windows'.Running (added ++ [node.header]) ∧
      windows'.checkpoint.chkptSize = windows.checkpoint.chkptSize := by
  obtain ⟨checkpoint, delivered⟩ := windows
  obtain ⟨last, hasLast, state⟩ := running.node
  simp only at hasLast large state
  cases isCandidate : checkpoint.isLastNodeCandidate with
  | true =>
    simp only [isCandidate, if_true] at state
    have short := state.short
    simp only [List.length_append, List.length_singleton] at short
    by_cases full : checkpoint.chkptSize ≤ checkpoint.candidate.length + 2
    · let after := { checkpoint with
        currWindow := checkpoint.candidate ++ [last.header]
        candidate := []
        lastNode := some node
        isLastNodeCandidate := false }
      refine ⟨⟨after, delivered ++ [checkpoint.candidate ++ [last.header] ++ [node.header]]⟩, ?_,
        ⟨node, rfl, ?_⟩, rfl⟩
      · simp [after, onCheckpoint, CheckpointMgr.addNode_candidate hasLast isCandidate, full, deliver,
          CheckpointMgr.iterateCurrWindow]
      · exact ⟨rfl, state.complete rfl rfl (by
          simp only [List.length_append, List.length_singleton]; omega)⟩
    · let after := { checkpoint with
        candidate := checkpoint.candidate ++ [last.header]
        lastNode := some node }
      refine ⟨⟨after, delivered⟩, ?_, ⟨node, rfl, ?_⟩, rfl⟩
      · simp [after, onCheckpoint, CheckpointMgr.addNode_candidate hasLast isCandidate, full, deliver]
      · simp only [after, isCandidate, if_true]
        exact state.extend rfl rfl (by
          simp only [List.length_append, List.length_singleton]; omega)
  | false =>
    simp only [isCandidate, Bool.false_eq_true, if_false] at state
    obtain ⟨noCandidate, partitions⟩ := state
    let after := { checkpoint with
      currWindow := checkpoint.currWindow ++ [last.header]
      lastNode := some node
      isLastNodeCandidate := true }
    refine ⟨⟨after, delivered⟩, ?_, ⟨node, rfl, ?_⟩, rfl⟩
    · simp [after, onCheckpoint,
        CheckpointMgr.addNode_nonCandidate hasLast isCandidate noCandidate large, deliver]
    · simp only [after, if_true, noCandidate]
      exact partitions.extend rfl rfl large

theorem addHeaders_bootstrapping (headers : List HeaderMgr) {windows : ConfirmedWindows}
    {added : List HeaderMgr} (bootstrapping : windows.Bootstrapping added) :
    ∃ windows', addHeaders headers windows = .ok () windows' ∧
      windows'.Bootstrapping (added ++ headers) ∧
      windows'.checkpoint.chkptSize = windows.checkpoint.chkptSize := by
  induction headers generalizing windows added with
  | nil => exact ⟨windows, rfl, by simpa using bootstrapping, rfl⟩
  | cons header headers inductionHypothesis =>
    obtain ⟨middle, stepped, middleBootstrapping, middleSize⟩ :=
      addHeader_bootstrapping header bootstrapping
    obtain ⟨final, finished, finalBootstrapping, finalSize⟩ := inductionHypothesis middleBootstrapping
    refine ⟨final, ?_, by simpa using finalBootstrapping, finalSize.trans middleSize⟩
    rw [addHeaders, ← bind_assoc, Exec.bind_apply, stepped]
    exact finished

theorem addNodes_running (nodes : List HeaderNode) {windows : ConfirmedWindows}
    {added : List HeaderMgr} (large : 2 ≤ windows.checkpoint.chkptSize)
    (running : windows.Running added) :
    ∃ windows', addNodes nodes windows = .ok () windows' ∧
      windows'.Running (added ++ nodes.map HeaderNode.header) ∧
      windows'.checkpoint.chkptSize = windows.checkpoint.chkptSize := by
  induction nodes generalizing windows added with
  | nil => exact ⟨windows, rfl, by simpa using running, rfl⟩
  | cons node nodes inductionHypothesis =>
    obtain ⟨middle, stepped, middleRunning, middleSize⟩ := addNode_running large node running
    obtain ⟨final, finished, finalRunning, finalSize⟩ :=
      inductionHypothesis (middleSize ▸ large) middleRunning
    refine ⟨final, ?_, by simpa using finalRunning, finalSize.trans middleSize⟩
    rw [addNodes, ← bind_assoc, Exec.bind_apply, stepped]
    exact finished

/-- Over the bootstrap headers, the hand-over and the runtime nodes, the windows passed to the callback
    cut the added headers into adjacent pieces of the checkpoint size. -/
theorem checkpoint_windows_partition (chkptSize : Nat) (large : 2 ≤ chkptSize)
    (headers : List HeaderMgr) (syncState : SyncStateRef) (addr : NodeAddr) :
    ∃ bootstrapped, addHeaders headers (init chkptSize) = .ok () bootstrapped ∧
      bootstrapped.checkpoint.chkptSize = chkptSize ∧
      (∃ pending, bootstrapped.Partitions headers pending) ∧
      ∀ running, endBootstrapPhase syncState addr bootstrapped = .ok () running →
        ∀ nodes : List HeaderNode, ∃ final, addNodes nodes running = .ok () final ∧
          final.checkpoint.chkptSize = chkptSize ∧
          ∃ pending, final.Partitions (headers ++ nodes.map HeaderNode.header) pending := by
  obtain ⟨bootstrapped, added, bootstrapping, size⟩ :=
    addHeaders_bootstrapping headers (init_bootstrapping large)
  have sameSize : bootstrapped.checkpoint.chkptSize = chkptSize := size
  refine ⟨bootstrapped, added, sameSize, ⟨_, bootstrapping.partitions⟩, ?_⟩
  intro running ended nodes
  obtain ⟨state, runningSize⟩ := endBootstrapPhase_running bootstrapping ended
  have runningLarge : 2 ≤ running.checkpoint.chkptSize := by rw [runningSize, sameSize]; exact large
  obtain ⟨final, addedNodes, finalState, finalSize⟩ := addNodes_running nodes runningLarge state
  exact ⟨final, addedNodes, by rw [finalSize, runningSize, sameSize], finalState.partitioned⟩

/-- Two bootstrap headers, then three nodes: the second window starts right after the hand-over. -/
theorem checkpoint_windows_partition_two :
    let header := fun number => HeaderMgr.init.setNumber number
    let node := fun number => HeaderNode.mk number.toNat (header number) 0 .nil
    ∃ bootstrapped running final,
      addHeaders [header 0, header 1] (init 2) = .ok () bootstrapped ∧
      endBootstrapPhase 0 0 bootstrapped = .ok () running ∧
      addNodes [node 2, node 3, node 4] running = .ok () final ∧
      final.delivered = [[header 0, header 1], [header 2, header 3]] ∧
      ∃ pending, final.Partitions
        ([header 0, header 1] ++ [node 2, node 3, node 4].map HeaderNode.header) pending := by
  intro header node
  obtain ⟨bootstrapped, added, -, -, runs⟩ :=
    checkpoint_windows_partition 2 (by decide) [header 0, header 1] 0 0
  cases added
  obtain ⟨final, addedNodes, -, partitions⟩ := runs _ rfl [node 2, node 3, node 4]
  cases addedNodes
  exact ⟨_, _, _, rfl, rfl, rfl, rfl, partitions⟩

end ConfirmedWindows

end Decentagram.Eth
