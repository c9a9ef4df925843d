import Decentagram.EclipseMonitor.DAA

namespace Decentagram.Eth

structure ValidatorBase where
  /-- The parent, whether it is live, the current header, whether it is live. -/
  commonValidate : HeaderMgr → Bool → HeaderMgr → Bool → Except Exception Bool

/-- `Validator<NetConfig>` with the network's calculator. -/
def validator (selector : DAASelector) : ValidatorBase where
  commonValidate := fun parent _isParentLive current _isCurrLive =>
    if current.blkNum ≠ parent.blkNum + 1 then
      .ok false
    else if current.rawHeader.parentHash ≠ parent.hash.toList then
      .ok false
    else if selector.config.isBlockOfParis current.blkNum then
      .ok (current.diff = 0)
    else do
      let expDiff ← selector.calculator parent current
      return current.diff = expDiff

/-- What the checks on number and parent hash mean for an accepted header. -/
theorem commonValidate_links {selector : DAASelector} {parent current : HeaderMgr}
    {isParentLive isCurrLive : Bool}
    (accepted : (validator selector).commonValidate parent isParentLive current isCurrLive = .ok true) :
    current.blkNum = parent.blkNum + 1 ∧ current.rawHeader.parentHash = parent.hashObj := by
  simp only [validator] at accepted
  split at accepted
  · simp at accepted
  next number =>
    split at accepted
    · simp at accepted
    next parentHash =>
      exact ⟨by simpa using number, by simpa [HeaderMgr.hashObj] using parentHash⟩

end Decentagram.Eth
