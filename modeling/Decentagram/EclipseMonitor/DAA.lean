import Decentagram.EclipseMonitor.HeaderMgr
import Decentagram.EclipseMonitor.Params

/-! # Difficulty adjustment

Every calculator is a function of the parent and the current header that may throw.  All arithmetic
is on 64-bit words and wraps.
-/

namespace Decentagram.Eth

/-- `DAABase::operator()`. -/
abbrev DAABase := HeaderMgr → HeaderMgr → Except Exception Difficulty

/-- The loop of `CalcBomb`. -/
def mulLoop (diffBig2 : Difficulty) : Nat → Difficulty → Difficulty
  | 0, y => y
  | i + 1, y => mulLoop diffBig2 i (y * diffBig2)

def calcBomb (periodCount blkNBig2 : BlockNumber) (diffBig1 diffBig2 : Difficulty) : Difficulty :=
  if periodCount ≤ blkNBig2 then diffBig1
  else mulLoop diffBig2 (periodCount - blkNBig2).toNat diffBig1

def expDiffPeriod : BlockNumber := 100000

/-- The last step of both calculators: the bomb of the period is added once periods start to count. -/
def addBomb (fakeBlockNumber : BlockNumber) (x : Difficulty) : Difficulty :=
  let periodCount := fakeBlockNumber / expDiffPeriod
  if periodCount > 1 then x + calcBomb periodCount 2 1 2 else x

structure EthashDAACalculator where
  considerUncle : Bool
  deltaDivisor : Difficulty
  hasMaxCheck : Bool
  hasBombDelay : Bool
  bombDelay : BlockNumber
deriving DecidableEq, Repr

namespace EthashDAACalculator

def bombDelayFromParent (calculator : EthashDAACalculator) : BlockNumber := calculator.bombDelay - 1

def eip5133 : EthashDAACalculator where
  considerUncle := true
  deltaDivisor := 9
  hasMaxCheck := true
  hasBombDelay := true
  bombDelay := 11400000

def eip5133Estimated : EthashDAACalculator := { eip5133 with hasMaxCheck := false }

def eip4345 : EthashDAACalculator := { eip5133 with bombDelay := 10700000 }

def eip3554 : EthashDAACalculator := { eip5133 with bombDelay := 9700000 }

def eip2384 : EthashDAACalculator := { eip5133 with bombDelay := 9000000 }

def constantinople : EthashDAACalculator := { eip5133 with bombDelay := 5000000 }

def byzantium : EthashDAACalculator := { eip5133 with bombDelay := 3000000 }

def homestead : EthashDAACalculator where
  considerUncle := false
  deltaDivisor := 10
  hasMaxCheck := true
  hasBombDelay := false
  bombDelay := 0

/-- `operator()` on the fields it reads of the two headers. -/
def calculate (calculator : EthashDAACalculator) (parentBlkNum : BlockNumber)
    (parentTime : Timestamp) (parentDiff : Difficulty) (parentHasUncle : Bool)
    (currTime : Timestamp) : Difficulty :=
  let delta := (currTime - parentTime) / calculator.deltaDivisor
  let base : Difficulty := if calculator.considerUncle && parentHasUncle then 2 else 1
  let isReducing := decide (delta > base)
  let x := if isReducing then delta - base else base - delta
  let x := if calculator.hasMaxCheck && isReducing && x > 99 then 99 else x
  let x := (parentDiff >>> Params.difficultyBoundDivisorBitShift) * x
  let x :=
    if !calculator.hasMaxCheck && isReducing && x > parentDiff then Params.minimumDifficulty
    else if isReducing then parentDiff - x
    else parentDiff + x
  let x := if x < Params.minimumDifficulty then Params.minimumDifficulty else x
  let fakeBlockNumber :=
    if calculator.hasBombDelay then
      if parentBlkNum ≥ calculator.bombDelayFromParent then
        parentBlkNum - calculator.bombDelayFromParent
      else 0
    else parentBlkNum + 1
  addBomb fakeBlockNumber x

def operator (calculator : EthashDAACalculator) : DAABase := fun parent current =>
  .ok (calculator.calculate parent.blkNum parent.time parent.diff parent.hasUncle current.time)

end EthashDAACalculator

namespace EthashDAACalculatorFrontier

def calculate (parentBlkNum : BlockNumber) (parentTime : Timestamp) (parentDiff : Difficulty)
    (currTime : Timestamp) : Difficulty :=
  let adjust := parentDiff >>> Params.difficultyBoundDivisorBitShift
  let diff :=
    if currTime - parentTime < Params.durationLimit then parentDiff + adjust
    else parentDiff - adjust
  let diff := if diff < Params.minimumDifficulty then Params.minimumDifficulty else diff
  addBomb (parentBlkNum + 1) diff

def operator : DAABase := fun parent current =>
  .ok (calculate parent.blkNum parent.time parent.diff current.time)

end EthashDAACalculatorFrontier

/-- `EthashDAAImpl`: the calculator of the fork the current block belongs to. -/
def ethashDAAImpl (config : NetworkConfig) : DAABase := fun parent current =>
  let blkNum := current.blkNum
  if config.isBlockOfParis blkNum then
    .error "Blocks since Paris fork no longer use DAA"
  else if config.isBlockOfGrayGlacier blkNum then
    EthashDAACalculator.eip5133.operator parent current
  else if config.isBlockOfArrowGlacier blkNum then
    EthashDAACalculator.eip4345.operator parent current
  else if config.isBlockOfLondon blkNum then
    EthashDAACalculator.eip3554.operator parent current
  else if config.isBlockOfMuirGlacier blkNum then
    EthashDAACalculator.eip2384.operator parent current
  else if config.isBlockOfConstantinople blkNum then
    EthashDAACalculator.constantinople.operator parent current
  else if config.isBlockOfByzantium blkNum then
    EthashDAACalculator.byzantium.operator parent current
  else if config.isBlockOfHomestead blkNum then
    EthashDAACalculator.homestead.operator parent current
  else
    EthashDAACalculatorFrontier.operator parent current

def ethashDAAEstImpl (config : NetworkConfig) : DAABase := fun parent current =>
  let blkNum := current.blkNum
  if config.isBlockOfParis blkNum then
    .error "Blocks since Paris fork no longer use DAA"
  else if config.isBlockOfGrayGlacier blkNum then
    EthashDAACalculator.eip5133Estimated.operator parent current
  else
    .error "Estimating the difficulty value before EIP-5133 is not allowed."

/-- The testnets' difficulty is not recalculated. -/
def testnetDAACalculator (config : NetworkConfig) : DAABase := fun _ current =>
  if config.isBlockOfParis current.blkNum then
    .error "Blocks since Paris fork no longer use DAA"
  else
    .ok current.diff

def testnetDAAEstCalculator (config : NetworkConfig) : DAABase := fun _ current =>
  if config.isBlockOfParis current.blkNum then
    .error "Blocks since Paris fork no longer use DAA"
  else
    .ok 2

/-- `DAASelector`. -/
structure DAASelector where
  config : NetworkConfig
  calculator : DAABase
  estimator : DAABase

def DAASelector.mainnet : DAASelector where
  config := .mainnet
  calculator := ethashDAAImpl .mainnet
  estimator := ethashDAAEstImpl .mainnet

def DAASelector.goerli : DAASelector where
  config := .goerli
  calculator := testnetDAACalculator .goerli
  estimator := testnetDAAEstCalculator .goerli

end Decentagram.Eth
