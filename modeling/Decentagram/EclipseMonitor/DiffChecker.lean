import Decentagram.EclipseMonitor.CheckpointMgr
import Decentagram.EclipseMonitor.DAA

namespace Decentagram.Eth

open Decentagram.Lib

/-- A difficulty checker whose own state is `δ`. -/
structure DiffCheckerBase (δ : Type) where
  onChkptUpd : CheckpointMgr → Exec Exception δ Unit
  /-- The parent and the current header. -/
  checkDifficulty : δ → HeaderMgr → HeaderMgr → Bool
  /-- The parent and the current time. -/
  checkEstDifficulty : δ → HeaderMgr → UInt64 → Except Exception Bool

/-- `m_minDiff`, which no constructor sets. -/
abbrev MinDiff := Difficulty

def powDiffChecker (config : MonitorConfig) (estimator : DAABase) : DiffCheckerBase MinDiff where
  onChkptUpd := fun checkpoint =>
    match checkpoint.getDiffMedian with
    | none => Exec.undefined
    | some median => Exec.modify fun _ => (median >>> 7) * config.minDiffPercent.toUInt64
  checkDifficulty := fun minDiff parent current =>
    current.trustedTime > parent.trustedTime &&
      current.trustedTime - parent.trustedTime ≤ config.maxWaitTime &&
      current.diff ≥ minDiff
  checkEstDifficulty := fun minDiff parent currentTime => do
    let estNext := (HeaderMgr.init.setNumber (parent.blkNum + 1)).setTime currentTime
    let estDiff ← estimator parent estNext
    let deltaTime := currentTime - parent.trustedTime
    return deltaTime ≤ config.maxWaitTime && estDiff ≥ minDiff

def posDiffChecker {δ : Type} : DiffCheckerBase δ where
  onChkptUpd := fun _ => pure ()
  checkDifficulty := fun _ _ _ => true
  checkEstDifficulty := fun _ _ _ => .ok true

/-- `GenericDiffCheckerImpl`: proof of work before the Paris fork, proof of stake after. -/
def genericDiffChecker (config : MonitorConfig) (selector : DAASelector) :
    DiffCheckerBase MinDiff :=
  let powChecker := powDiffChecker config selector.estimator
  let posChecker := posDiffChecker
  let pick := fun blkNum => if selector.config.isBlockOfParis blkNum then posChecker else powChecker
  { onChkptUpd := fun checkpoint => do
      let (_, last) ← Exec.ofExcept checkpoint.getCheckpointBlkNumRange
      (pick last).onChkptUpd checkpoint
    checkDifficulty := fun minDiff parent current =>
      (pick current.blkNum).checkDifficulty minDiff parent current
    checkEstDifficulty := fun minDiff parent currentTime =>
      (pick (parent.blkNum + 1)).checkEstDifficulty minDiff parent currentTime }

end Decentagram.Eth
