import Mathlib.Algebra.Group.Nat.Defs
import Mathlib.Algebra.Order.Group.Int
import Decentagram.EclipseMonitor.DAA

/-! # The consensus formula for the difficulty

The formula over the integers, as go-ethereum evaluates it, and the proof that the calculators'
unsigned words and sign flag compute it wherever its value is a word.
-/

namespace Decentagram.Eth

/-- The forks the formula distinguishes, in the order in which they start. -/
inductive EthashFork where
  | frontier
  | homestead
  | byzantium
  | constantinople
  | eip2384
  | eip3554
  | eip4345
  | eip5133
deriving DecidableEq, Repr

namespace EthashFork

/-- The forks after Frontier, the newest first. -/
def newestFirst : List EthashFork :=
  [.eip5133, .eip4345, .eip3554, .eip2384, .constantinople, .byzantium, .homestead]

def hasStarted (config : NetworkConfig) (blkNum : BlockNumber) : EthashFork → Bool
  | frontier => true
  | homestead => config.isBlockOfHomestead blkNum
  | byzantium => config.isBlockOfByzantium blkNum
  | constantinople => config.isBlockOfConstantinople blkNum
  | eip2384 => config.isBlockOfMuirGlacier blkNum
  | eip3554 => config.isBlockOfLondon blkNum
  | eip4345 => config.isBlockOfArrowGlacier blkNum
  | eip5133 => config.isBlockOfGrayGlacier blkNum

/-- The fork a block belongs to. -/
def ofBlock (config : NetworkConfig) (blkNum : BlockNumber) : EthashFork :=
  (newestFirst.find? (hasStarted config blkNum)).getD .frontier

/-- The fork's parent is taken to be this many blocks younger than it is. -/
def bombDelay : EthashFork → ℤ
  | frontier | homestead => 0
  | byzantium => 3000000
  | constantinople => 5000000
  | eip2384 => 9000000
  | eip3554 => 9700000
  | eip4345 => 10700000
  | eip5133 => 11400000

/-- The exponential term of a block number. -/
def bomb (fakeBlockNumber : ℤ) : ℤ :=
  if fakeBlockNumber / 100000 > 1 then 2 ^ (fakeBlockNumber / 100000 - 2).toNat else 0

/-- The block number from which a fork computes the exponential term. -/
def fakeBlockNumber (fork : EthashFork) (parentNumber : ℤ) : ℤ :=
  match fork with
  | frontier | homestead => parentNumber + 1
  | _ => if parentNumber ≥ fork.bombDelay - 1 then parentNumber - (fork.bombDelay - 1) else 0

/-- The formula from Homestead on, before the exponential term. -/
def adjusted (uncleFactor divisor parentTime parentDiff time : ℤ) : ℤ :=
  max (parentDiff + parentDiff / 2048 * max (uncleFactor - (time - parentTime) / divisor) (-99)) 131072

/-- Frontier's formula, before the exponential term. -/
def adjustedFrontier (parentTime parentDiff time : ℤ) : ℤ :=
  max (if time - parentTime < 13 then parentDiff + parentDiff / 2048
    else parentDiff - parentDiff / 2048) 131072

/-- The difficulty of a block at `time`, given the parent's number, time, difficulty and uncles. -/
def difficulty (fork : EthashFork) (parentNumber parentTime parentDiff : ℤ) (parentHasUncle : Bool)
    (time : ℤ) : ℤ :=
  match fork with
  | frontier =>
    max (adjustedFrontier parentTime parentDiff time + bomb (frontier.fakeBlockNumber parentNumber))
      131072
  | homestead =>
    adjusted 1 10 parentTime parentDiff time + bomb (homestead.fakeBlockNumber parentNumber)
  | _ =>
    adjusted (if parentHasUncle then 2 else 1) 9 parentTime parentDiff time +
      bomb (fork.fakeBlockNumber parentNumber)

end EthashFork

/-! ### The exponential term -/

theorem toNat_mulLoop (n : Nat) (y : Difficulty) :
    (mulLoop 2 n y).toNat = y.toNat * 2 ^ n % 2 ^ 64 := by
  induction n generalizing y with
  | zero =>
    have bound := y.toNat_lt
    simp only [mulLoop, pow_zero, Nat.mul_one]
    omega
  | succ n ih =>
    have two : UInt64.toNat 2 = 2 := rfl
    rw [mulLoop, ih, UInt64.toNat_mul, Nat.mod_mul_mod, two, Nat.mul_assoc, ← pow_succ']

theorem toNat_calcBomb (periodCount : BlockNumber) (counts : 1 < periodCount.toNat) :
    (calcBomb periodCount 2 1 2).toNat = 2 ^ (periodCount.toNat - 2) % 2 ^ 64 := by
  unfold calcBomb
  split
  next le =>
    have := UInt64.le_iff_toNat_le.mp le
    have two : periodCount.toNat = 2 := by simp at this; omega
    simp [two]
  next greater =>
    have less : (2 : UInt64) ≤ periodCount := by
      apply UInt64.le_iff_toNat_le.mpr
      simpa using Nat.succ_le_of_lt counts
    rw [toNat_mulLoop, UInt64.toNat_sub_of_le _ _ less]
    simp

theorem bomb_nonneg (fakeBlockNumber : ℤ) : 0 ≤ EthashFork.bomb fakeBlockNumber := by
  unfold EthashFork.bomb
  split
  · exact Int.pow_nonneg (by decide)
  · exact Int.le_refl 0

theorem toNat_addBomb_emod (fakeBlockNumber : BlockNumber) (x : Difficulty) :
    ((addBomb fakeBlockNumber x).toNat : ℤ) =
      (x.toNat + EthashFork.bomb fakeBlockNumber.toNat) % 2 ^ 64 := by
  have period : (fakeBlockNumber / expDiffPeriod).toNat = fakeBlockNumber.toNat / 100000 := by
    rw [UInt64.toNat_div]
    rfl
  have periodInt : (fakeBlockNumber.toNat : ℤ) / 100000 = (fakeBlockNumber.toNat / 100000 : ℕ) := by
    omega
  have one : UInt64.toNat 1 = 1 := rfl
  have word := x.toNat_lt
  unfold EthashFork.bomb
  simp only [addBomb, gt_iff_lt, UInt64.lt_iff_toNat_lt, period, one]
  rw [periodInt]
  generalize fakeBlockNumber.toNat / 100000 = periodCount at *
  by_cases counts : 1 < periodCount
  · have exponent : ((periodCount : ℤ) - 2).toNat = periodCount - 2 := by omega
    have many : (periodCount : ℤ) > 1 := by omega
    simp only [many, if_true, exponent]
    have value := toNat_calcBomb (fakeBlockNumber / expDiffPeriod) (by omega)
    rw [period] at value
    have power : (2 : ℤ) ^ (periodCount - 2) = (2 ^ (periodCount - 2) : ℕ) := by simp
    rw [power, if_pos counts, UInt64.toNat_add, value]
    generalize 2 ^ (periodCount - 2) = term
    omega
  · have few : ¬ (periodCount : ℤ) > 1 := by omega
    simp only [counts, few, if_false]
    omega

/-- The bomb is added without wrapping where the sum is a word. -/
theorem toNat_addBomb {fakeBlockNumber : BlockNumber} {x : Difficulty} {number value : ℤ}
    (xValue : (x.toNat : ℤ) = value) (numberValue : (fakeBlockNumber.toNat : ℤ) = number)
    (fits : value + EthashFork.bomb number < 2 ^ 64) :
    ((addBomb fakeBlockNumber x).toNat : ℤ) = value + EthashFork.bomb number := by
  subst xValue numberValue
  have positive := bomb_nonneg fakeBlockNumber.toNat
  rw [toNat_addBomb_emod]
  omega

/-! ### The adjustment of the parent's difficulty -/

/-- A block number whose exponential term is a word is far from the largest block number. -/
theorem lt_of_bomb_lt {fakeBlockNumber : ℤ} (fits : EthashFork.bomb fakeBlockNumber < 2 ^ 64) :
    fakeBlockNumber < 6600000 := by
  by_contra large
  have many : fakeBlockNumber / 100000 > 1 := by omega
  have power : 2 ^ 64 ≤ 2 ^ (fakeBlockNumber / 100000 - 2).toNat :=
    Nat.pow_le_pow_right (by decide) (by omega)
  have powerInt := Int.ofNat_le.mpr power
  have cast : ((2 ^ (fakeBlockNumber / 100000 - 2).toNat : ℕ) : ℤ) =
      2 ^ (fakeBlockNumber / 100000 - 2).toNat := Int.natCast_pow _ _
  rw [EthashFork.bomb, if_pos many] at fits
  omega

theorem EthashFork.minimum_le_adjusted (uncleFactor divisor parentTime parentDiff time : ℤ) :
    131072 ≤ adjusted uncleFactor divisor parentTime parentDiff time :=
  Int.le_max_right _ _

theorem toNat_max_minimumDifficulty (x : Difficulty) :
    ((if x < Params.minimumDifficulty then Params.minimumDifficulty else x).toNat : ℤ) =
      max (x.toNat : ℤ) 131072 := by
  have minimum : Params.minimumDifficulty.toNat = 131072 := rfl
  simp only [UInt64.lt_iff_toNat_lt, minimum]
  split
  · rw [minimum]
    omega
  · omega

theorem toNat_boundDivisor (parentDiff : Difficulty) :
    (parentDiff >>> Params.difficultyBoundDivisorBitShift).toNat = parentDiff.toNat / 2048 := by
  rw [UInt64.toNat_shiftRight, Nat.shiftRight_eq_div_pow]
  rfl

theorem toNat_elapsed {parentTime time : Timestamp} (later : parentTime < time) :
    (time - parentTime).toNat = time.toNat - parentTime.toNat :=
  UInt64.toNat_sub_of_le _ _ (UInt64.le_of_lt later)

namespace EthashDAACalculator

/-- The sign flag and the magnitude stand for the clamped factor of the formula. -/
structure IsFactor (isReducing : Bool) (x : Difficulty) (factor : ℤ) : Prop where
  value : factor = if isReducing then -(x.toNat : ℤ) else x.toNat
  small : x.toNat ≤ 99

theorem isFactor_clamped (base delta : Difficulty) (small : base.toNat ≤ 99) :
    IsFactor (decide (delta > base))
      (if decide (delta > base) && decide
          ((if decide (delta > base) then delta - base else base - delta) > 99) then 99
        else if decide (delta > base) then delta - base else base - delta)
      (max (base.toNat - delta.toNat) (-99)) := by
  have clamp : UInt64.toNat 99 = 99 := rfl
  by_cases reducing : delta > base
  · have less := UInt64.lt_iff_toNat_lt.mp reducing
    have difference := UInt64.toNat_sub_of_le _ _ (UInt64.le_of_lt reducing)
    by_cases large : delta - base > 99
    · have exceeds := UInt64.lt_iff_toNat_lt.mp large
      rw [difference, clamp] at exceeds
      constructor
      · simp [reducing, large]
        omega
      · simp [reducing, large]
    · have within := UInt64.le_iff_toNat_le.mp (UInt64.not_lt.mp large)
      rw [difference, clamp] at within
      constructor
      · simp [reducing, large, difference]
        omega
      · simp [reducing, large, difference]
        omega
  · have le := UInt64.not_lt.mp reducing
    have difference := UInt64.toNat_sub_of_le _ _ le
    have leNat := UInt64.le_iff_toNat_le.mp le
    constructor
    · simp [reducing, difference]
      omega
    · simp [reducing, difference]
      omega

/-- The sum with the parent's difficulty does not wrap: a reduction takes at most 99/2048 of it. -/
theorem IsFactor.toNat_apply {isReducing : Bool} {x : Difficulty} {factor : ℤ}
    (isFactor : IsFactor isReducing x factor) (parentDiff : Difficulty)
    (fits : (parentDiff.toNat : ℤ) + parentDiff.toNat / 2048 * factor < 2 ^ 64) :
    ((if isReducing then parentDiff - (parentDiff >>> Params.difficultyBoundDivisorBitShift) * x
      else parentDiff + (parentDiff >>> Params.difficultyBoundDivisorBitShift) * x).toNat : ℤ) =
      parentDiff.toNat + parentDiff.toNat / 2048 * factor := by
  have bound := parentDiff.toNat_lt
  have product : parentDiff.toNat / 2048 * x.toNat ≤ parentDiff.toNat / 2048 * 99 :=
    Nat.mul_le_mul_left _ isFactor.small
  have step : ((parentDiff >>> Params.difficultyBoundDivisorBitShift) * x).toNat =
      parentDiff.toNat / 2048 * x.toNat := by
    rw [UInt64.toNat_mul, toNat_boundDivisor]
    exact Nat.mod_eq_of_lt (by omega)
  have cast : (parentDiff.toNat : ℤ) / 2048 * x.toNat = (parentDiff.toNat / 2048 * x.toNat : ℕ) := by
    simp
  cases isReducing with
  | true =>
    have value : factor = -(x.toNat : ℤ) := isFactor.value
    have le : (parentDiff >>> Params.difficultyBoundDivisorBitShift) * x ≤ parentDiff := by
      apply UInt64.le_iff_toNat_le.mpr
      omega
    rw [value, Int.mul_neg, cast] at fits ⊢
    rw [if_pos rfl, UInt64.toNat_sub_of_le _ _ le, step]
    omega
  | false =>
    have value : factor = x.toNat := isFactor.value
    rw [value, cast] at fits ⊢
    simp only [Bool.false_eq_true, if_false, UInt64.toNat_add, step]
    omega

/-- The value of a calculator with the check for -99, over the integers. -/
def formula (calculator : EthashDAACalculator) (parentNumber parentTime parentDiff : ℤ)
    (parentHasUncle : Bool) (time : ℤ) : ℤ :=
  EthashFork.adjusted (if calculator.considerUncle && parentHasUncle then 2 else 1)
      calculator.deltaDivisor.toNat parentTime parentDiff time +
    EthashFork.bomb
      (if calculator.hasBombDelay then
        if parentNumber ≥ calculator.bombDelayFromParent.toNat then
          parentNumber - calculator.bombDelayFromParent.toNat
        else 0
      else parentNumber + 1)

theorem toNat_fakeBlockNumber (calculator : EthashDAACalculator) (parentBlkNum : BlockNumber)
    (fits : calculator.hasBombDelay = false → parentBlkNum.toNat + 1 < 2 ^ 64) :
    ((if calculator.hasBombDelay then
        if parentBlkNum ≥ calculator.bombDelayFromParent then
          parentBlkNum - calculator.bombDelayFromParent
        else 0
      else parentBlkNum + 1 : BlockNumber).toNat : ℤ) =
      if calculator.hasBombDelay then
        if (parentBlkNum.toNat : ℤ) ≥ calculator.bombDelayFromParent.toNat then
          (parentBlkNum.toNat : ℤ) - calculator.bombDelayFromParent.toNat
        else 0
      else parentBlkNum.toNat + 1 := by
  cases hasBombDelay : calculator.hasBombDelay with
  | true =>
    by_cases delayed : calculator.bombDelayFromParent ≤ parentBlkNum
    · have le := UInt64.le_iff_toNat_le.mp delayed
      have leInt : (calculator.bombDelayFromParent.toNat : ℤ) ≤ parentBlkNum.toNat := by omega
      simp only [ge_iff_le, delayed, if_true, UInt64.toNat_sub_of_le _ _ delayed, leInt]
      omega
    · have less := UInt64.lt_iff_toNat_lt.mp (UInt64.not_le.mp delayed)
      simp [delayed, Nat.not_le.mpr less]
  | false =>
    simp only [Bool.false_eq_true, if_false, UInt64.toNat_add]
    have one : UInt64.toNat 1 = 1 := rfl
    have bound := fits hasBombDelay
    omega

theorem toNat_calculate (calculator : EthashDAACalculator) (parentBlkNum : BlockNumber)
    (parentTime : Timestamp) (parentDiff : Difficulty) (parentHasUncle : Bool) (time : Timestamp)
    (hasMaxCheck : calculator.hasMaxCheck = true) (later : parentTime < time)
    (fits : calculator.formula parentBlkNum.toNat parentTime.toNat parentDiff.toNat parentHasUncle
      time.toNat < 2 ^ 64) :
    ((calculator.calculate parentBlkNum parentTime parentDiff parentHasUncle time).toNat : ℤ) =
      calculator.formula parentBlkNum.toNat parentTime.toNat parentDiff.toNat parentHasUncle
        time.toNat := by
  have base : (if calculator.considerUncle && parentHasUncle then (2 : Difficulty) else 1).toNat ≤ 99 :=
    by split <;> decide
  have uncleFactor :
      ((if calculator.considerUncle && parentHasUncle then (2 : Difficulty) else 1).toNat : ℤ) =
        if calculator.considerUncle && parentHasUncle then 2 else 1 := by split <;> rfl
  have delta : (((time - parentTime) / calculator.deltaDivisor).toNat : ℤ) =
      ((time.toNat : ℤ) - parentTime.toNat) / calculator.deltaDivisor.toNat := by
    have less := UInt64.lt_iff_toNat_lt.mp later
    rw [UInt64.toNat_div, toNat_elapsed later, Int.natCast_ediv, Int.natCast_sub (by omega)]
  have factor := isFactor_clamped _ ((time - parentTime) / calculator.deltaDivisor) base
  rw [uncleFactor, delta] at factor
  unfold formula at fits ⊢
  have positive := EthashFork.minimum_le_adjusted
    (if calculator.considerUncle && parentHasUncle then 2 else 1) calculator.deltaDivisor.toNat
    parentTime.toNat parentDiff.toNat time.toNat
  have bombFits := Int.lt_of_le_of_lt (Int.le_add_of_nonneg_left (by omega)) fits
  have adjustedFits := Int.lt_of_le_of_lt (Int.le_add_of_nonneg_right (bomb_nonneg _)) fits
  have applied := factor.toNat_apply parentDiff (Int.lt_of_le_of_lt (Int.le_max_left _ _) adjustedFits)
  have fake := calculator.toNat_fakeBlockNumber parentBlkNum (by
    intro noDelay
    have small := lt_of_bomb_lt bombFits
    simp only [noDelay, Bool.false_eq_true, if_false] at small
    omega)
  simp only [calculate, hasMaxCheck, Bool.true_and, Bool.not_true, Bool.false_and,
    Bool.false_eq_true, if_false]
  apply toNat_addBomb _ fake fits
  rw [toNat_max_minimumDifficulty, applied]
  rfl

end EthashDAACalculator

theorem EthashDAACalculatorFrontier.toNat_calculate (parentBlkNum : BlockNumber)
    (parentTime : Timestamp) (parentDiff : Difficulty) (time : Timestamp) (later : parentTime < time)
    (fits : EthashFork.adjustedFrontier parentTime.toNat parentDiff.toNat time.toNat +
      EthashFork.bomb (parentBlkNum.toNat + 1) < 2 ^ 64) :
    ((calculate parentBlkNum parentTime parentDiff time).toNat : ℤ) =
      EthashFork.adjustedFrontier parentTime.toNat parentDiff.toNat time.toNat +
        EthashFork.bomb (parentBlkNum.toNat + 1) := by
  have positive : 131072 ≤ EthashFork.adjustedFrontier parentTime.toNat parentDiff.toNat time.toNat :=
    Int.le_max_right _ _
  have small := lt_of_bomb_lt (Int.lt_of_le_of_lt (Int.le_add_of_nonneg_left (by omega)) fits)
  have number : ((parentBlkNum + 1).toNat : ℤ) = parentBlkNum.toNat + 1 := by
    have one : UInt64.toNat 1 = 1 := rfl
    rw [UInt64.toNat_add]
    omega
  have adjustedFits := Int.lt_of_le_of_lt (Int.le_add_of_nonneg_right (bomb_nonneg _)) fits
  have less := UInt64.lt_iff_toNat_lt.mp later
  have limit : Params.durationLimit.toNat = 13 := rfl
  have adjust := toNat_boundDivisor parentDiff
  simp only [calculate]
  apply toNat_addBomb _ number fits
  rw [toNat_max_minimumDifficulty]
  unfold EthashFork.adjustedFrontier at adjustedFits ⊢
  by_cases short : time - parentTime < Params.durationLimit
  · have shortNat := UInt64.lt_iff_toNat_lt.mp short
    rw [toNat_elapsed later, limit] at shortNat
    have shortInt : (time.toNat : ℤ) - parentTime.toNat < 13 := by omega
    rw [if_pos shortInt] at adjustedFits ⊢
    rw [if_pos short, UInt64.toNat_add, adjust]
    omega
  · have longNat := UInt64.le_iff_toNat_le.mp (UInt64.not_lt.mp short)
    rw [toNat_elapsed later, limit] at longNat
    have longInt : ¬ (time.toNat : ℤ) - parentTime.toNat < 13 := by omega
    have le : parentDiff >>> Params.difficultyBoundDivisorBitShift ≤ parentDiff := by
      apply UInt64.le_iff_toNat_le.mpr
      omega
    rw [if_neg longInt]
    rw [if_neg short, UInt64.toNat_sub_of_le _ _ le, adjust]
    omega

/-! ### The calculator of a block -/

namespace EthashFork

/-- The calculator of each fork. -/
def calculator : EthashFork → DAABase
  | frontier => EthashDAACalculatorFrontier.operator
  | homestead => EthashDAACalculator.homestead.operator
  | byzantium => EthashDAACalculator.byzantium.operator
  | constantinople => EthashDAACalculator.constantinople.operator
  | eip2384 => EthashDAACalculator.eip2384.operator
  | eip3554 => EthashDAACalculator.eip3554.operator
  | eip4345 => EthashDAACalculator.eip4345.operator
  | eip5133 => EthashDAACalculator.eip5133.operator

/-- The chain of tests of `GetCalculator` picks the newest fork that has started. -/
theorem ethashDAAImpl_eq_calculator (config : NetworkConfig) (parent current : HeaderMgr)
    (notParis : config.isBlockOfParis current.blkNum = false) :
    ethashDAAImpl config parent current =
      (ofBlock config current.blkNum).calculator parent current := by
  simp only [ethashDAAImpl, notParis, ofBlock, newestFirst, List.find?, hasStarted]
  cases config.isBlockOfGrayGlacier current.blkNum with
  | true => rfl
  | false =>
  cases config.isBlockOfArrowGlacier current.blkNum with
  | true => rfl
  | false =>
  cases config.isBlockOfLondon current.blkNum with
  | true => rfl
  | false =>
  cases config.isBlockOfMuirGlacier current.blkNum with
  | true => rfl
  | false =>
  cases config.isBlockOfConstantinople current.blkNum with
  | true => rfl
  | false =>
  cases config.isBlockOfByzantium current.blkNum with
  | true => rfl
  | false => cases config.isBlockOfHomestead current.blkNum <;> rfl

/-- Each fork's calculator evaluates that fork's formula. -/
theorem calculator_eq_difficulty (fork : EthashFork) (parent current : HeaderMgr)
    (later : parent.time < current.time)
    (fits : fork.difficulty parent.blkNum.toNat parent.time.toNat parent.diff.toNat parent.hasUncle
      current.time.toNat < 2 ^ 64) :
    ∃ diff, fork.calculator parent current = .ok diff ∧
      (diff.toNat : ℤ) = fork.difficulty parent.blkNum.toNat parent.time.toNat parent.diff.toNat
        parent.hasUncle current.time.toNat := by
  cases fork with
  | frontier =>
    have positive : 131072 ≤ adjustedFrontier parent.time.toNat parent.diff.toNat current.time.toNat :=
      Int.le_max_right _ _
    have term := bomb_nonneg (parent.blkNum.toNat + 1)
    -- the last comparison with the minimum changes nothing
    have formula : difficulty .frontier parent.blkNum.toNat parent.time.toNat parent.diff.toNat
        parent.hasUncle current.time.toNat =
          adjustedFrontier parent.time.toNat parent.diff.toNat current.time.toNat +
            bomb (parent.blkNum.toNat + 1) :=
      Int.max_eq_left (by
        simp only [fakeBlockNumber]
        omega)
    rw [formula] at fits ⊢
    exact ⟨_, rfl, EthashDAACalculatorFrontier.toNat_calculate _ _ _ _ later fits⟩
  | homestead => exact ⟨_, rfl, EthashDAACalculator.toNat_calculate _ _ _ _ _ _ rfl later fits⟩
  | _ =>
    refine ⟨_, rfl, EthashDAACalculator.toNat_calculate _ _ _ _ _ _ rfl later ?_⟩
    exact fits

end EthashFork

/-- Before Paris the calculator's result is the consensus formula of the block's fork. -/
theorem ethashDAAImpl_eq_difficulty (config : NetworkConfig) (parent current : HeaderMgr)
    (notParis : config.isBlockOfParis current.blkNum = false) (later : parent.time < current.time)
    (fits : (EthashFork.ofBlock config current.blkNum).difficulty parent.blkNum.toNat
      parent.time.toNat parent.diff.toNat parent.hasUncle current.time.toNat < 2 ^ 64) :
    ∃ diff, ethashDAAImpl config parent current = .ok diff ∧
      (diff.toNat : ℤ) = (EthashFork.ofBlock config current.blkNum).difficulty parent.blkNum.toNat
        parent.time.toNat parent.diff.toNat parent.hasUncle current.time.toNat := by
  rw [EthashFork.ethashDAAImpl_eq_calculator config parent current notParis]
  exact EthashFork.calculator_eq_difficulty _ parent current later fits

/-- A block of Gray Glacier, one period after its bomb started to count. -/
theorem ethashDAAImpl_eq_difficulty_grayGlacier :
    ∃ diff, ethashDAAImpl .mainnet
        { HeaderMgr.init with blkNum := 15100000, time := 100, diff := 2048000000, hasUncle := true }
        { HeaderMgr.init with blkNum := 15100001, time := 140 } = .ok diff ∧
      (diff.toNat : ℤ) = 2048000000 - 2000000 + 2 ^ 35 := by
  have result := ethashDAAImpl_eq_difficulty .mainnet
    { HeaderMgr.init with blkNum := 15100000, time := 100, diff := 2048000000, hasUncle := true }
    { HeaderMgr.init with blkNum := 15100001, time := 140 } rfl (by decide) (by decide)
  exact result

end Decentagram.Eth
