import Decentagram.Lib.Exec
import Decentagram.EclipseMonitor.HeaderNode

/-! # The checkpoint manager

`AddNode` and `AddHeader` end by calling `m_onComplete` when they complete a window, so both are
modelled as calls that return whether the callback is to run; the owner of the manager runs it in the
state they leave.
-/

namespace Decentagram.Eth

open Decentagram.Lib

structure CheckpointMgr where
  chkptSize : Nat
  currWindow : List HeaderMgr
  candidate : List HeaderMgr
  lastNode : Option HeaderNode
  /-- Left uninitialised by the constructor; read only once there is a last node. -/
  isLastNodeCandidate : Bool
deriving DecidableEq, Repr

namespace CheckpointMgr

def init (chkptSize : Nat) : CheckpointMgr where
  chkptSize
  currWindow := []
  candidate := []
  lastNode := none
  isLastNodeCandidate := false

def getNumOfCandidates (checkpoint : CheckpointMgr) : Nat :=
  checkpoint.candidate.length +
    if checkpoint.lastNode.isSome && checkpoint.isLastNodeCandidate then 1 else 0

def isEmpty (checkpoint : CheckpointMgr) : Bool :=
  checkpoint.lastNode.isNone && checkpoint.candidate.isEmpty && checkpoint.currWindow.isEmpty

/-- The headers `IterateCurrWindow` passes to its callback, in order. -/
def iterateCurrWindow (checkpoint : CheckpointMgr) : List HeaderMgr :=
  checkpoint.currWindow ++
    match checkpoint.lastNode with
    | some last => if checkpoint.isLastNodeCandidate then [] else [last.header]
    | none => []

def addNode : Option HeaderNode → Exec Exception CheckpointMgr Bool
  | none => Exec.throw "The given node is null"
  | some node => do
    let checkpoint ← Exec.get
    if checkpoint.getNumOfCandidates + 1 ≥ checkpoint.chkptSize then
      let candidate := match checkpoint.lastNode with
        | some last => checkpoint.candidate ++ [last.header]
        | none => checkpoint.candidate
      Exec.modify fun checkpoint => { checkpoint with
        currWindow := candidate
        candidate := []
        lastNode := some node
        isLastNodeCandidate := false }
      return true
    else
      let (currWindow, candidate) := match checkpoint.lastNode with
        | some last =>
          if checkpoint.isLastNodeCandidate then
            (checkpoint.currWindow, checkpoint.candidate ++ [last.header])
          else
            (checkpoint.currWindow ++ [last.header], checkpoint.candidate)
        | none => (checkpoint.currWindow, checkpoint.candidate)
      Exec.modify fun checkpoint => { checkpoint with
        currWindow
        candidate
        lastNode := some node
        isLastNodeCandidate := true }
      return false

def addHeader : Option HeaderMgr → Exec Exception CheckpointMgr Bool
  | none => Exec.throw "The given header is null"
  | some header => do
    Exec.throwIf ((← Exec.get).lastNode.isSome)
      "Checkpoint manager can only accept nodes during runtime phase"
    Exec.modify fun checkpoint => { checkpoint with candidate := checkpoint.candidate ++ [header] }
    let checkpoint ← Exec.get
    if checkpoint.getNumOfCandidates ≥ checkpoint.chkptSize then
      Exec.modify fun checkpoint => { checkpoint with
        currWindow := checkpoint.candidate
        candidate := [] }
      return true
    else
      return false

/-- `(size // 2)`-th smallest difficulty of the window; of an empty window there is none, and the
    source reads past the end. -/
def getDiffMedian (checkpoint : CheckpointMgr) : Option Difficulty :=
  let diffs := checkpoint.iterateCurrWindow.map HeaderMgr.diff
  (diffs.mergeSort fun left right => left ≤ right)[diffs.length / 2]?

/-- `addr` is where the node of the last header is allocated. -/
def endBootstrapPhase (syncState : SyncStateRef) (addr : NodeAddr) :
    Exec Exception CheckpointMgr Unit := do
  let checkpoint ← Exec.get
  Exec.throwIf checkpoint.lastNode.isSome "Checkpoint manager is already in runtime phase"
  Exec.throwIf (checkpoint.candidate.length ≠ 0) "There are still headers in candidate window"
  match checkpoint.currWindow.getLast? with
  -- `back()` of an empty vector
  | none => Exec.undefined
  | some header =>
    Exec.modify fun checkpoint => { checkpoint with
      lastNode := some { addr, header, syncState, children := .nil }
      isLastNodeCandidate := false
      currWindow := checkpoint.currWindow.dropLast }

def getLastNode (checkpoint : CheckpointMgr) : Except Exception HeaderNode :=
  match checkpoint.lastNode with
  | some last => .ok last
  | none => .error "No header has been added to this checkpoint"

def getLastHeader (checkpoint : CheckpointMgr) : Except Exception HeaderMgr :=
  match checkpoint.lastNode with
  | some last => .ok last.header
  | none =>
    match checkpoint.candidate.getLast? with
    | some header => .ok header
    | none =>
      match checkpoint.currWindow.getLast? with
      | some header => .ok header
      | none => .error "No header has been added to this checkpoint"

def getCheckpointBlkNumRange (checkpoint : CheckpointMgr) :
    Except Exception (BlockNumber × BlockNumber) :=
  match checkpoint.currWindow with
  | [] => .error "There is no header in the checkpoint"
  | first :: _ => .ok (first.blkNum, first.blkNum + UInt64.ofNat checkpoint.chkptSize - 1)

/-! ## The two add operations, case by case -/

theorem addHeader_ok {checkpoint : CheckpointMgr} (noNode : checkpoint.lastNode = none)
    (header : HeaderMgr) :
    addHeader (some header) checkpoint =
      if checkpoint.chkptSize ≤ checkpoint.candidate.length + 1 then
        .ok true { checkpoint with currWindow := checkpoint.candidate ++ [header], candidate := [] }
      else
        .ok false { checkpoint with candidate := checkpoint.candidate ++ [header] } := by
  simp [addHeader, noNode, getNumOfCandidates]

theorem addNode_candidate {checkpoint : CheckpointMgr} {last : HeaderNode}
    (hasLast : checkpoint.lastNode = some last) (isCandidate : checkpoint.isLastNodeCandidate = true)
    (node : HeaderNode) :
    addNode (some node) checkpoint =
      if checkpoint.chkptSize ≤ checkpoint.candidate.length + 2 then
        .ok true { checkpoint with
          currWindow := checkpoint.candidate ++ [last.header]
          candidate := []
          lastNode := some node
          isLastNodeCandidate := false }
      else
        .ok false { checkpoint with
          candidate := checkpoint.candidate ++ [last.header]
          lastNode := some node } := by
  simp [addNode, hasLast, isCandidate, getNumOfCandidates]

theorem addNode_nonCandidate {checkpoint : CheckpointMgr} {last : HeaderNode}
    (hasLast : checkpoint.lastNode = some last) (isCandidate : checkpoint.isLastNodeCandidate = false)
    (noCandidate : checkpoint.candidate = []) (large : 2 ≤ checkpoint.chkptSize) (node : HeaderNode) :
    addNode (some node) checkpoint = .ok false { checkpoint with
      currWindow := checkpoint.currWindow ++ [last.header]
      lastNode := some node
      isLastNodeCandidate := true } := by
  have small : ¬ checkpoint.chkptSize ≤ 1 := by omega
  simp [addNode, hasLast, isCandidate, noCandidate, getNumOfCandidates, small]

/-- Exactly when `EndBootstrapPhase` returns, and what it does then. -/
theorem endBootstrapPhase_ok {checkpoint after : CheckpointMgr} {syncState : SyncStateRef}
    {addr : NodeAddr} (ended : endBootstrapPhase syncState addr checkpoint = .ok () after) :
    checkpoint.lastNode = none ∧ checkpoint.candidate = [] ∧
      ∃ header, checkpoint.currWindow.getLast? = some header ∧ after = { checkpoint with
        lastNode := some { addr, header, syncState, children := .nil }
        isLastNodeCandidate := false
        currWindow := checkpoint.currWindow.dropLast } := by
  cases noNode : checkpoint.lastNode with
  | some _ => simp [endBootstrapPhase, noNode] at ended
  | none =>
    by_cases noCandidate : checkpoint.candidate = []
    · cases back : checkpoint.currWindow.getLast? with
      | none => simp [endBootstrapPhase, noNode, noCandidate, back] at ended
      | some header =>
        simp [endBootstrapPhase, noNode, noCandidate, back] at ended
        exact ⟨rfl, noCandidate, header, rfl, noCandidate ▸ ended.symm⟩
    · simp [endBootstrapPhase, noNode, noCandidate] at ended

end CheckpointMgr

end Decentagram.Eth
