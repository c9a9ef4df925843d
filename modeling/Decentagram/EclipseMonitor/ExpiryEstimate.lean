import Decentagram.EclipseMonitor.DiffChecker
import Decentagram.EclipseMonitor.DifficultyFormula
import Decentagram.EclipseMonitor.Validator

/-! # The estimate by which headers expire

The estimator drops the clamp at -99, so neither the product with the difficulty's quotient nor the time
since the header's own timestamp is bounded, and both are words.
-/

namespace Decentagram.Eth

namespace EthashFork

/-- The formula without the clamp, before the exponential term. -/
def adjustedUncapped (uncleFactor parentTime parentDiff time : ℤ) : ℤ :=
  max (parentDiff + parentDiff / 2048 * (uncleFactor - (time - parentTime) / 9)) 131072

end EthashFork

namespace HeaderMgr

def uncleFactor (header : HeaderMgr) : ℕ := if header.hasUncle then 2 else 1

/-- The exponential term of the block after the header. -/
def nextBomb (header : HeaderMgr) : ℤ :=
  EthashFork.bomb (EthashFork.eip5133.fakeBlockNumber header.blkNum.toNat)

/-- The uncapped formula for a block after the header. -/
def uncappedDifficulty (header : HeaderMgr) (time : ℤ) : ℤ :=
  EthashFork.adjustedUncapped header.uncleFactor header.time.toNat header.diff.toNat time + header.nextBomb

end HeaderMgr

/-! ## The words of the estimator -/

/-- The adjusted difficulty that the estimator computes from the words it is given. -/
def adjustedWord (uncleFactor elapsed parentDiff : ℕ) : ℕ :=
  max
    (if elapsed / 9 > uncleFactor then
      if parentDiff / 2048 * (elapsed / 9 - uncleFactor) % 2 ^ 64 > parentDiff then 131072
      else parentDiff - parentDiff / 2048 * (elapsed / 9 - uncleFactor) % 2 ^ 64
    else (parentDiff + parentDiff / 2048 * (uncleFactor - elapsed / 9)) % 2 ^ 64)
    131072

theorem toNat_atLeastMinimum (x : Difficulty) :
    (if x < Params.minimumDifficulty then Params.minimumDifficulty else x).toNat = max x.toNat 131072 := by
  have value := toNat_max_minimumDifficulty x
  omega

theorem toNat_adjusted (header : HeaderMgr) (elapsed : Timestamp) (base delta x : Difficulty)
    (isBase : base.toNat = header.uncleFactor) (isDelta : delta = elapsed / 9)
    (isFactor : x = (header.diff >>> Params.difficultyBoundDivisorBitShift) *
      if decide (delta > base) then delta - base else base - delta) :
    (let y := if decide (delta > base) && decide (x > header.diff) then Params.minimumDifficulty
        else if decide (delta > base) then header.diff - x else header.diff + x
      if y < Params.minimumDifficulty then Params.minimumDifficulty else y).toNat =
      adjustedWord header.uncleFactor elapsed.toNat header.diff.toNat := by
  have deltaNat : delta.toNat = elapsed.toNat / 9 := by
    rw [isDelta, UInt64.toNat_div]
    rfl
  have quotient := toNat_boundDivisor header.diff
  rw [toNat_atLeastMinimum]
  unfold adjustedWord
  -- the source subtracts the smaller from the larger and keeps the sign beside it
  by_cases reducing : delta > base
  · have less := UInt64.lt_iff_toNat_lt.mp reducing
    rw [isBase, deltaNat] at less
    have product : x.toNat = header.diff.toNat / 2048 * (elapsed.toNat / 9 - header.uncleFactor) % 2 ^ 64 := by
      rw [isFactor, if_pos (by simpa using reducing), UInt64.toNat_mul, quotient,
        UInt64.toNat_sub_of_le _ _ (UInt64.le_of_lt reducing), deltaNat, isBase]
    simp only [reducing, decide_true, Bool.true_and, if_true, gt_iff_lt, less, ← product]
    by_cases large : header.diff < x
    · have exceeds := UInt64.lt_iff_toNat_lt.mp large
      simp only [large, decide_true, if_true, exceeds]
      rfl
    · have le := UInt64.le_iff_toNat_le.mp (UInt64.not_lt.mp large)
      simp [large, Nat.not_lt.mpr le, UInt64.toNat_sub_of_le _ _ (UInt64.not_lt.mp large)]
  · have le := UInt64.le_iff_toNat_le.mp (UInt64.not_lt.mp reducing)
    rw [isBase, deltaNat] at le
    have product : x.toNat =
        header.diff.toNat / 2048 * (header.uncleFactor - elapsed.toNat / 9) % 2 ^ 64 := by
      rw [isFactor, if_neg (by simpa using reducing), UInt64.toNat_mul, quotient,
        UInt64.toNat_sub_of_le _ _ (UInt64.not_lt.mp reducing), deltaNat, isBase]
    simp [reducing, Nat.not_lt.mpr le, UInt64.toNat_add, product]

theorem toNat_estimate (header : HeaderMgr) (time : Timestamp) :
    ((EthashDAACalculator.eip5133Estimated.calculate header.blkNum header.time header.diff header.hasUncle
        time).toNat : ℤ) =
      (adjustedWord header.uncleFactor (time - header.time).toNat header.diff.toNat + header.nextBomb) %
        2 ^ 64 := by
  have adjusted := toNat_adjusted header (time - header.time) (if header.hasUncle then 2 else 1) _ _
    (by unfold HeaderMgr.uncleFactor; split <;> rfl) rfl rfl
  have fake := EthashDAACalculator.eip5133Estimated.toNat_fakeBlockNumber header.blkNum
    (fun noDelay => Bool.noConfusion noDelay)
  have noClamp : EthashDAACalculator.eip5133Estimated.hasMaxCheck = false := rfl
  have uncles : EthashDAACalculator.eip5133Estimated.considerUncle = true := rfl
  have divisor : EthashDAACalculator.eip5133Estimated.deltaDivisor = 9 := rfl
  simp only [EthashDAACalculator.calculate, noClamp, uncles, divisor, Bool.true_and, Bool.false_and,
    Bool.not_false, Bool.false_eq_true, if_false]
  rw [toNat_addBomb_emod, fake]
  simp only at adjusted
  rw [adjusted]
  rfl

/-! ## Where the words are the formula -/

/-- A word is compared like a number with every word when it is the number, or the largest word and the
    number is none. -/
theorem forall_le_iff {estimate formula : ℤ} (positive : 0 ≤ estimate) (word : estimate < 2 ^ 64) :
    (∀ minDiff : Difficulty, (minDiff.toNat : ℤ) ≤ estimate ↔ (minDiff.toNat : ℤ) ≤ formula) ↔
      estimate = min formula (2 ^ 64 - 1) := by
  constructor
  · intro compares
    -- the estimate and its successor tell it apart from every other number
    have atEstimate := compares (UInt64.ofNat estimate.toNat)
    have atNext := compares (UInt64.ofNat (estimate.toNat + 1))
    rw [UInt64.toNat_ofNat_of_lt' (by change _ < 2 ^ 64; omega)] at atEstimate
    by_cases largest : estimate = 2 ^ 64 - 1
    · omega
    · rw [UInt64.toNat_ofNat_of_lt' (by change _ < 2 ^ 64; omega)] at atNext
      omega
  · intro equal minDiff
    have bound := minDiff.toNat_lt
    omega

section Arithmetic

variable {uncleFactor parentDiff : ℕ} {bomb : ℤ} (word : parentDiff < 2 ^ 64) (uncles : uncleFactor ≤ 2)
  (positive : 0 ≤ bomb) (small : bomb ≤ 2 ^ 39)
include word uncles positive small

/-- For a time after the header's own. -/
theorem adjustedWord_eq_iff (elapsed : ℕ) :
    (adjustedWord uncleFactor elapsed parentDiff + bomb) % 2 ^ 64 =
        min (max (parentDiff + (parentDiff : ℤ) / 2048 * (uncleFactor - (elapsed : ℤ) / 9)) 131072 + bomb)
          (2 ^ 64 - 1) ↔
      max (parentDiff + (parentDiff : ℤ) / 2048 * (uncleFactor - (elapsed : ℤ) / 9)) 131072 + bomb < 2 ^ 64 ∧
        (parentDiff / 2048 * (elapsed / 9 - uncleFactor) < 2 ^ 64 ∨
          parentDiff ≤ parentDiff / 2048 * (elapsed / 9 - uncleFactor) % 2 ^ 64 + 131072) := by
  unfold adjustedWord
  by_cases reducing : elapsed / 9 > uncleFactor
  · have product : (parentDiff : ℤ) / 2048 * (uncleFactor - (elapsed : ℤ) / 9) =
        -(parentDiff / 2048 * (elapsed / 9 - uncleFactor) : ℕ) := by
      have factor : uncleFactor - (elapsed : ℤ) / 9 = -(elapsed / 9 - uncleFactor : ℕ) := by omega
      rw [factor, Int.mul_neg, Int.natCast_mul, Int.natCast_ediv]
      rfl
    rw [product, if_pos reducing]
    generalize parentDiff / 2048 * (elapsed / 9 - uncleFactor) = reduction
    split <;> omega
  · have product : (parentDiff : ℤ) / 2048 * (uncleFactor - (elapsed : ℤ) / 9) =
        (parentDiff / 2048 * (uncleFactor - elapsed / 9) : ℕ) := by
      have factor : uncleFactor - (elapsed : ℤ) / 9 = (uncleFactor - elapsed / 9 : ℕ) := by omega
      rw [factor, Int.natCast_mul, Int.natCast_ediv]
      rfl
    have none : elapsed / 9 - uncleFactor = 0 := by omega
    have bound : parentDiff / 2048 * (uncleFactor - elapsed / 9) ≤ parentDiff / 2048 * 2 :=
      Nat.mul_le_mul_left _ (by omega)
    rw [product, if_neg reducing, none]
    generalize parentDiff / 2048 * (uncleFactor - elapsed / 9) = increase at *
    omega

/-- For a time before the header's own: the number of seconds between the two is wrapped. -/
theorem adjustedWord_wrapped_eq_iff (elapsed : ℕ) {early : ℤ} (earlier : early < 0) :
    (adjustedWord uncleFactor elapsed parentDiff + bomb) % 2 ^ 64 =
        min (max (parentDiff + (parentDiff : ℤ) / 2048 * (uncleFactor - early / 9)) 131072 + bomb)
          (2 ^ 64 - 1) ↔
      max (parentDiff + (parentDiff : ℤ) / 2048 * (uncleFactor - early / 9)) 131072 = 131072 ∨
        (parentDiff + parentDiff / 2048 * (uncleFactor - elapsed / 9) : ℕ) + bomb + 1 =
          2 ^ 64 + (parentDiff / 2048 * (elapsed / 9 - uncleFactor) % 2 ^ 64 : ℕ) := by
  -- the formula raises the difficulty, by more than the words can
  have raised : ((parentDiff / 2048 * (uncleFactor + 1) : ℕ) : ℤ) ≤
      (parentDiff : ℤ) / 2048 * (uncleFactor - early / 9) := by
    rw [Int.natCast_mul, Int.natCast_ediv]
    exact Int.mul_le_mul_of_nonneg_left (by omega) (by omega)
  rw [Nat.mul_add, Nat.mul_one] at raised
  have atMost : parentDiff / 2048 * (uncleFactor - elapsed / 9) ≤ parentDiff / 2048 * uncleFactor :=
    Nat.mul_le_mul_left _ (Nat.sub_le _ _)
  have bound : parentDiff / 2048 * uncleFactor ≤ parentDiff / 2048 * 2 := Nat.mul_le_mul_left _ uncles
  unfold adjustedWord
  generalize (parentDiff : ℤ) / 2048 * (uncleFactor - early / 9) = raise at *
  by_cases reducing : elapsed / 9 > uncleFactor
  · have none : uncleFactor - elapsed / 9 = 0 := by omega
    rw [if_pos reducing, none, Nat.mul_zero]
    generalize parentDiff / 2048 * (elapsed / 9 - uncleFactor) = reduction at *
    generalize parentDiff / 2048 * uncleFactor = atUncles at *
    split <;> omega
  · have none : elapsed / 9 - uncleFactor = 0 := by omega
    rw [if_neg reducing, none, Nat.mul_zero]
    generalize parentDiff / 2048 * (uncleFactor - elapsed / 9) = increase at *
    generalize parentDiff / 2048 * uncleFactor = atUncles at *
    omega

end Arithmetic

/-- The estimator's words stand for the formula at `now`.  Before the header's own timestamp they do so
    only where the formula is at its minimum, or where they happen to end at the largest word. -/
def EstimateFits (header : HeaderMgr) (now : Timestamp) : Prop :=
  let quotient := header.diff.toNat / 2048
  let elapsed := (now - header.time).toNat
  let reduction := quotient * (elapsed / 9 - header.uncleFactor)
  if header.time ≤ now then
    header.uncappedDifficulty now.toNat < 2 ^ 64 ∧
      (reduction < 2 ^ 64 ∨ header.diff.toNat ≤ reduction % 2 ^ 64 + 131072)
  else
    header.uncappedDifficulty now.toNat = 131072 + header.nextBomb ∨
      (header.diff.toNat + quotient * (header.uncleFactor - elapsed / 9) : ℕ) + header.nextBomb + 1 =
        2 ^ 64 + (reduction % 2 ^ 64 : ℕ)

theorem nextBomb_le {header : HeaderMgr} (beforeParis : header.blkNum.toNat < 15537394) :
    header.nextBomb ≤ 2 ^ 39 := by
  unfold HeaderMgr.nextBomb EthashFork.bomb
  split
  · have fake : EthashFork.eip5133.fakeBlockNumber header.blkNum.toNat ≤ 4137394 := by
      simp only [EthashFork.fakeBlockNumber, EthashFork.bombDelay]
      omega
    have power : 2 ^ (EthashFork.eip5133.fakeBlockNumber header.blkNum.toNat / 100000 - 2).toNat ≤ 2 ^ 39 :=
      Nat.pow_le_pow_right (by decide) (by omega)
    have powerInt := Int.ofNat_le.mpr power
    rw [Int.natCast_pow] at powerInt
    exact powerInt
  · decide

/-- At one time, for every minimum difficulty. -/
theorem forall_le_estimate_iff {header : HeaderMgr} (beforeParis : header.blkNum.toNat < 15537394)
    (now : Timestamp) :
    (∀ minDiff : Difficulty,
      minDiff ≤ EthashDAACalculator.eip5133Estimated.calculate header.blkNum header.time header.diff
        header.hasUncle now ↔ (minDiff.toNat : ℤ) ≤ header.uncappedDifficulty now.toNat) ↔
      EstimateFits header now := by
  have estimate := toNat_estimate header now
  have uncles : header.uncleFactor ≤ 2 := by
    unfold HeaderMgr.uncleFactor
    split <;> decide
  have positive : 0 ≤ header.nextBomb := bomb_nonneg _
  have small := nextBomb_le beforeParis
  have word := header.diff.toNat_lt
  have words : ∀ minDiff : Difficulty,
      minDiff ≤ EthashDAACalculator.eip5133Estimated.calculate header.blkNum header.time header.diff
        header.hasUncle now ↔
      (minDiff.toNat : ℤ) ≤ (adjustedWord header.uncleFactor (now - header.time).toNat header.diff.toNat +
        header.nextBomb) % 2 ^ 64 := by
    intro minDiff
    rw [UInt64.le_iff_toNat_le, ← estimate]
    omega
  simp only [words]
  rw [forall_le_iff (by omega) (by omega)]
  unfold EstimateFits HeaderMgr.uncappedDifficulty EthashFork.adjustedUncapped
  by_cases after : header.time ≤ now
  · have le := UInt64.le_iff_toNat_le.mp after
    have elapsed : (now - header.time).toNat = now.toNat - header.time.toNat :=
      UInt64.toNat_sub_of_le _ _ after
    have elapsedInt : (now.toNat : ℤ) - header.time.toNat = (now.toNat - header.time.toNat : ℕ) := by
      omega
    simp only [after, if_true, elapsed]
    rw [elapsedInt]
    exact adjustedWord_eq_iff word uncles positive small _
  · have less := UInt64.lt_iff_toNat_lt.mp (UInt64.not_le.mp after)
    simp only [after, if_false]
    rw [adjustedWord_wrapped_eq_iff word uncles positive small _ (by omega)]
    apply or_congr _ Iff.rfl
    omega

/-! ## The check -/

/-- What the check says, over the integers: the header arrived at most `maxWaitTime` ago, and the
    uncapped formula is at least the minimum difficulty. -/
def EstHolds (config : MonitorConfig) (minDiff : MinDiff) (header : HeaderMgr)
    (now : Timestamp) : Prop :=
  (now.toNat : ℤ) - header.trustedTime.toNat ≤ config.maxWaitTime.toNat ∧
    (minDiff.toNat : ℤ) ≤ header.uncappedDifficulty now.toNat

theorem uncappedDifficulty_antitone (header : HeaderMgr) {now later : ℤ} (le : now ≤ later) :
    header.uncappedDifficulty later ≤ header.uncappedDifficulty now := by
  have factor : (header.uncleFactor : ℤ) - (later - header.time.toNat) / 9 ≤
      header.uncleFactor - (now - header.time.toNat) / 9 := by omega
  have quotient : 0 ≤ (header.diff.toNat : ℤ) / 2048 := by omega
  have product := Int.mul_le_mul_of_nonneg_left factor quotient
  unfold HeaderMgr.uncappedDifficulty EthashFork.adjustedUncapped
  omega

/-- Over the integers a header that has expired stays expired. -/
theorem EstHolds.earlier {config : MonitorConfig} {minDiff : MinDiff} {header : HeaderMgr}
    {now later : Timestamp} (holds : EstHolds config minDiff header later) (le : now ≤ later) :
    EstHolds config minDiff header now := by
  have leNat := UInt64.le_iff_toNat_le.mp le
  have antitone := uncappedDifficulty_antitone header (Int.ofNat_le.mpr leNat)
  obtain ⟨arrived, enough⟩ := holds
  exact ⟨by omega, by omega⟩

def checkEst (config : MonitorConfig) : MinDiff → HeaderMgr → Timestamp → Except Exception Bool :=
  (powDiffChecker config DAASelector.mainnet.estimator).checkEstDifficulty

section Check

variable (config : MonitorConfig) {header : HeaderMgr}

theorem toNat_next (beforeParis : header.blkNum.toNat < 15537394) :
    (header.blkNum + 1).toNat = header.blkNum.toNat + 1 := by
  have one : UInt64.toNat 1 = 1 := rfl
  rw [UInt64.toNat_add]
  omega

theorem isBlockOfParis_iff (blkNum : BlockNumber) :
    NetworkConfig.mainnet.isBlockOfParis blkNum = true ↔ 15537394 ≤ blkNum.toNat := by
  simp only [NetworkConfig.isBlockOfParis, NetworkConfig.isBlockOf, NetworkConfig.mainnet,
    decide_eq_true_eq, ge_iff_le, UInt64.le_iff_toNat_le]
  rfl

theorem isBlockOfGrayGlacier_iff (blkNum : BlockNumber) :
    NetworkConfig.mainnet.isBlockOfGrayGlacier blkNum = true ↔ 15050000 ≤ blkNum.toNat := by
  simp only [NetworkConfig.isBlockOfGrayGlacier, NetworkConfig.isBlockOf, NetworkConfig.mainnet,
    decide_eq_true_eq, ge_iff_le, UInt64.le_iff_toNat_le]
  rfl

theorem checkEst_eq (minDiff : MinDiff) (now : Timestamp)
    (isParis : NetworkConfig.mainnet.isBlockOfParis (header.blkNum + 1) = false)
    (isGrayGlacier : NetworkConfig.mainnet.isBlockOfGrayGlacier (header.blkNum + 1) = true) :
    checkEst config minDiff header now =
      .ok (decide (now - header.trustedTime ≤ config.maxWaitTime) && decide
        (minDiff ≤ EthashDAACalculator.eip5133Estimated.calculate header.blkNum header.time header.diff
          header.hasUncle now)) := by
  simp [checkEst, powDiffChecker, DAASelector.mainnet, ethashDAAEstImpl, HeaderMgr.setNumber,
    HeaderMgr.setTime, isParis, isGrayGlacier, EthashDAACalculator.operator]

theorem checkEst_of_paris (minDiff : MinDiff) (now : Timestamp)
    (isParis : NetworkConfig.mainnet.isBlockOfParis (header.blkNum + 1) = true) :
    checkEst config minDiff header now = .error "Blocks since Paris fork no longer use DAA" := by
  simp [checkEst, powDiffChecker, DAASelector.mainnet, ethashDAAEstImpl, HeaderMgr.setNumber,
    HeaderMgr.setTime, isParis]

/-- From `start` on the check says what it should, and once it is false it stays so. -/
structure ExactFrom (header : HeaderMgr) (start : Timestamp) : Prop where
  exact : ∀ minDiff now, start ≤ now → ∃ alive, checkEst config minDiff header now = .ok alive ∧
    (alive = true ↔ EstHolds config minDiff header now)
  stays : ∀ minDiff now later, start ≤ now → now ≤ later →
    checkEst config minDiff header now = .ok false → checkEst config minDiff header later = .ok false

/-- No word wraps to something else than the formula while the header can still be waited for. -/
structure Estimable (header : HeaderMgr) (start : Timestamp) : Prop where
  nextBlock : NetworkConfig.mainnet.isBlockOfParis (header.blkNum + 1) = false
  arrived : header.trustedTime ≤ start ∨ config.maxWaitTime.toNat = 2 ^ 64 - 1
  fits : ∀ now, start ≤ now → now - header.trustedTime ≤ config.maxWaitTime → EstimateFits header now

/-- The word since the arrival is small only if the number is. -/
theorem waits_of_words {now : Timestamp} (words : now - header.trustedTime ≤ config.maxWaitTime) :
    (now.toNat : ℤ) - header.trustedTime.toNat ≤ config.maxWaitTime.toNat := by
  have boundNow := now.toNat_lt
  have bound := header.trustedTime.toNat_lt
  have waits := UInt64.le_iff_toNat_le.mp words
  rw [UInt64.toNat_sub] at waits
  omega

theorem words_of_waits {now : Timestamp}
    (arrived : header.trustedTime ≤ now ∨ config.maxWaitTime.toNat = 2 ^ 64 - 1)
    (waits : (now.toNat : ℤ) - header.trustedTime.toNat ≤ config.maxWaitTime.toNat) :
    now - header.trustedTime ≤ config.maxWaitTime := by
  have bound := (now - header.trustedTime).toNat_lt
  apply UInt64.le_iff_toNat_le.mpr
  cases arrived with
  | inl arrived =>
    have le := UInt64.le_iff_toNat_le.mp arrived
    rw [UInt64.toNat_sub_of_le _ _ arrived]
    omega
  | inr largest => omega

theorem ExactFrom.arrived {start : Timestamp} (exact : ExactFrom config header start)
    (isParis : NetworkConfig.mainnet.isBlockOfParis (header.blkNum + 1) = false)
    (isGrayGlacier : NetworkConfig.mainnet.isBlockOfGrayGlacier (header.blkNum + 1) = true) :
    header.trustedTime ≤ start ∨ config.maxWaitTime.toNat = 2 ^ 64 - 1 := by
  by_contra neither
  obtain ⟨early, bounded⟩ := not_or.mp neither
  have earlyNat := UInt64.lt_iff_toNat_lt.mp (UInt64.not_le.mp early)
  have one : UInt64.toNat 1 = 1 := rfl
  have before : (header.trustedTime - 1).toNat = header.trustedTime.toNat - 1 := by
    apply UInt64.toNat_sub_of_le
    apply UInt64.le_iff_toNat_le.mpr
    omega
  -- One second before the arrival the words say that it was very long ago.
  obtain ⟨alive, checked, holds⟩ := exact.exact 0 (header.trustedTime - 1) (by
    apply UInt64.le_iff_toNat_le.mpr
    omega)
  rw [checkEst_eq config 0 _ isParis isGrayGlacier] at checked
  have atLeast : (0 : ℤ) ≤ header.uncappedDifficulty (header.trustedTime - 1).toNat := by
    have positive : 0 ≤ header.nextBomb := bomb_nonneg _
    unfold HeaderMgr.uncappedDifficulty EthashFork.adjustedUncapped
    omega
  have isAlive := holds.mpr ⟨by omega, atLeast⟩
  subst isAlive
  simp only [Except.ok.injEq, Bool.and_eq_true, decide_eq_true_eq] at checked
  have waits := UInt64.le_iff_toNat_le.mp checked.1
  have bound := config.maxWaitTime.toNat_lt
  have boundArrival := header.trustedTime.toNat_lt
  rw [UInt64.toNat_sub, before] at waits
  omega

/-- For a header from EIP-5133 on and before Paris, whatever the minimum difficulty is. -/
theorem checkEst_exact_iff {header : HeaderMgr}
    (grayGlacier : NetworkConfig.mainnet.isBlockOfGrayGlacier header.blkNum = true)
    (beforeParis : NetworkConfig.mainnet.isBlockOfParis header.blkNum = false) (start : Timestamp) :
    ExactFrom config header start ↔ Estimable config header start := by
  rw [isBlockOfGrayGlacier_iff] at grayGlacier
  rw [← Bool.not_eq_true, isBlockOfParis_iff, Nat.not_le] at beforeParis
  have isGrayGlacier : NetworkConfig.mainnet.isBlockOfGrayGlacier (header.blkNum + 1) = true := by
    rw [isBlockOfGrayGlacier_iff, toNat_next beforeParis]
    omega
  constructor
  · intro exactFrom
    have nextBlock : NetworkConfig.mainnet.isBlockOfParis (header.blkNum + 1) = false := by
      cases isParis : NetworkConfig.mainnet.isBlockOfParis (header.blkNum + 1) with
      | false => rfl
      | true =>
        obtain ⟨alive, checked, -⟩ := exactFrom.exact 0 start (UInt64.le_refl start)
        rw [checkEst_of_paris config 0 start isParis] at checked
        cases checked
    refine ⟨nextBlock, exactFrom.arrived config nextBlock isGrayGlacier, ?_⟩
    intro now notBefore words
    rw [← forall_le_estimate_iff beforeParis]
    intro minDiff
    obtain ⟨alive, checked, holds⟩ := exactFrom.exact minDiff now notBefore
    rw [checkEst_eq config minDiff now nextBlock isGrayGlacier] at checked
    simp only [words, decide_true, Bool.true_and, Except.ok.injEq] at checked
    rw [← checked, decide_eq_true_eq] at holds
    rw [holds]
    simp [EstHolds, waits_of_words config words]
  · intro estimable
    have exact : ∀ minDiff now, start ≤ now → ∃ alive, checkEst config minDiff header now = .ok alive ∧
        (alive = true ↔ EstHolds config minDiff header now) := by
      intro minDiff now notBefore
      refine ⟨_, checkEst_eq config minDiff now estimable.nextBlock isGrayGlacier, ?_⟩
      rw [Bool.and_eq_true, decide_eq_true_eq, decide_eq_true_eq]
      constructor
      · rintro ⟨words, enough⟩
        have fits := (forall_le_estimate_iff beforeParis now).mpr (estimable.fits now notBefore words)
        exact ⟨waits_of_words config words, (fits minDiff).mp enough⟩
      · rintro ⟨waits, enough⟩
        have words := words_of_waits config
          (estimable.arrived.imp_left fun arrived => UInt64.le_trans arrived notBefore) waits
        have fits := (forall_le_estimate_iff beforeParis now).mpr (estimable.fits now notBefore words)
        exact ⟨words, (fits minDiff).mpr enough⟩
    refine ⟨exact, ?_⟩
    intro minDiff now later notBefore le expired
    obtain ⟨aliveNow, checkedNow, holdsNow⟩ := exact minDiff now notBefore
    obtain ⟨alive, checked, holds⟩ := exact minDiff later (UInt64.le_trans notBefore le)
    cases alive with
    | false => exact checked
    | true =>
      have earlier := holdsNow.mpr ((holds.mp rfl).earlier le)
      rw [checkedNow, earlier] at expired
      cases expired

end Check

/-! ## A header whose own timestamp is two seconds ahead -/

namespace SampleEstimate

def config : MonitorConfig where
  checkpointSize := 430
  minDiffPercent := 103
  maxWaitTime := 60
  syncMaxWaitTime := 600

def parent : HeaderMgr :=
  { HeaderMgr.init with blkNum := 15100000, time := 1660000000, diff := 11820000000000000 }

def header : HeaderMgr :=
  { HeaderMgr.init with
    rawHeader := { HeaderMgr.init.rawHeader with parentHash := parent.hash.toList }
    trustedTime := 1660000010
    blkNum := 15100001
    time := 1660000012
    diff := 11820034359738368 }

theorem nextBomb_header : header.nextBomb = 2 ^ 35 := by decide

end SampleEstimate

open SampleEstimate

/-- From its own timestamp on the sample is estimated exactly. -/
theorem checkEst_exact_iff_sample : ExactFrom config header 1660000012 := by
  apply (checkEst_exact_iff config (by decide) (by decide) 1660000012).mpr
  refine ⟨by decide, .inl (by decide), ?_⟩
  intro now notBefore words
  have waits := waits_of_words config words
  have notBeforeNat : 1660000012 ≤ now.toNat := UInt64.le_iff_toNat_le.mp notBefore
  have elapsed : (now - header.time).toNat = now.toNat - 1660000012 :=
    UInt64.toNat_sub_of_le _ _ notBefore
  have arrival : header.trustedTime.toNat = 1660000010 := rfl
  have maxWaitTime : config.maxWaitTime.toNat = 60 := rfl
  have own : header.time.toNat = 1660000012 := rfl
  have diff : header.diff.toNat = 11820034359738368 := rfl
  have uncles : header.uncleFactor = 1 := rfl
  rw [arrival, maxWaitTime] at waits
  unfold EstimateFits HeaderMgr.uncappedDifficulty EthashFork.adjustedUncapped
  simp only [show header.time ≤ now from notBefore, if_true, elapsed, nextBomb_header, own,
    diff, uncles]
  omega

/-- One second before the timestamp an accepted header is taken to have expired, and then it has not. -/
theorem estimate_ahead_of_clock :
    (validator .mainnet).commonValidate parent true header true = .ok true ∧
      NetworkConfig.mainnet.isBlockOfGrayGlacier header.blkNum = true ∧
      NetworkConfig.mainnet.isBlockOfParis header.blkNum = false ∧
      checkEst config 9000000000000000 header 1660000011 = .ok false ∧
      EstHolds config 9000000000000000 header 1660000011 ∧
      checkEst config 9000000000000000 header 1660000012 = .ok true := by
  refine ⟨by rfl, by decide, by decide, by rfl, ⟨by decide, by decide⟩, by rfl⟩

end Decentagram.Eth
