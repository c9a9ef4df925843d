import Mathlib.Data.Fintype.Card
import Decentagram.PubSubOnchain.Solvency

/-! # Isolation of subscribers

When a notification goes through.  A turn is borne if the subscriber that is called has code, if the gas
suffices for the contract's own part, and if the subscriber's balance covers what the turn costs.  The
contract checks none of the three before it calls.
-/

namespace Decentagram.PubSub

open Decentagram.Lib

namespace EventManager

/-! ## The charge -/

def balanceOf (frame : Frame) (addr : Address) : Uint256 :=
  (frame.world.manager.subscriberMap addr).balanceWei

theorem costWei_eq_some_iff {terms : Terms} {succeeds : Bool} {usedGas cost : Uint256} :
    costWei terms succeeds usedGas = some cost ↔
      cost.toNat = (if succeeds then terms.incentPerSubWei.toNat else 0) +
        usedGas.toNat * terms.gasPriceWei.toNat := by
  have incentive_toNat : (if succeeds then terms.incentPerSubWei else 0).toNat =
      if succeeds then terms.incentPerSubWei.toNat else 0 := by
    split <;> rfl
  rw [← incentive_toNat]
  simp only [costWei, Option.bind_eq_bind, Option.bind_eq_some_iff, Checked.mul_eq_some_iff,
    Checked.add_eq_some_iff]
  refine ⟨fun ⟨product, multiplied, added⟩ => multiplied ▸ added, fun added => ?_⟩
  have fits : usedGas.toNat * terms.gasPriceWei.toNat < 2 ^ 256 := by
    have := cost.isLt
    omega
  refine ⟨BitVec.ofNat 256 (usedGas.toNat * terms.gasPriceWei.toNat), ?_, ?_⟩
  · rw [BitVec.toNat_ofNat, Nat.mod_eq_of_lt fits]
  · rw [BitVec.toNat_ofNat, Nat.mod_eq_of_lt fits, added]

/-- What the contract charges, from the two readings of the gas. -/
def settledCharge (terms : Terms) (turn : Turn) (startGas : Nat) (succeeds : Bool) (middle : Frame) : Nat :=
  (if succeeds then terms.incentPerSubWei.toNat else 0) +
    (startGas - (middle.gas - turn.gasFromCall)) * terms.gasPriceWei.toNat

/-- The two conditions under which the charge is settled. -/
def Settles (terms : Terms) (addr : Address) (turn : Turn) (startGas : Nat) (succeeds : Bool)
    (middle : Frame) : Prop :=
  turn.gasFromCall + turn.gasToStore ≤ middle.gas ∧
    settledCharge terms turn startGas succeeds middle ≤ (balanceOf middle addr).toNat

/-- What is left when the charge is settled. -/
def afterSettle (addr : Address) (turn : Turn) (middle : Frame) (charge : Nat) : Frame :=
  let costWei := BitVec.ofNat 256 charge
  { middle with
    world := { middle.world with
      manager := middle.world.manager.setSubscriber addr
        { middle.world.manager.subscriberMap addr with
          balanceWei := balanceOf middle addr - costWei }
      effects := middle.world.effects ++ [.debited addr costWei (balanceOf middle addr)] }
    gas := middle.gas - turn.gasFromCall - turn.gasToStore }

/-- The sum does not overflow, since the debits so far and this one are all ether of the contract. -/
theorem settle_exact {start : World} {compensateWei : Uint256} {middle : Frame}
    (inLoop : InLoop start compensateWei middle)
    (solvent : recorded start.manager ≤ start.balance.toNat) (terms : Terms) {addr : Address}
    (known : addr ∈ middle.world.manager.subscriberAddrs) (turn : Turn) (startGas : Uint256)
    (started : middle.gas ≤ startGas.toNat) (succeeds : Bool) :
    Exec.Sat (settle terms addr turn startGas succeeds compensateWei) middle
      (fun _ after => Settles terms addr turn startGas.toNat succeeds middle ∧
        after = afterSettle addr turn middle
          (settledCharge terms turn startGas.toNat succeeds middle))
      (fun _ _ => ¬ Settles terms addr turn startGas.toNat succeeds middle) := by
  have own_le : (balanceOf middle addr).toNat ≤ recorded middle.world.manager :=
    Ledger.amount_le_total known
  have surplus := inLoop.surplus
  have bound := middle.world.balance.isLt
  have gasleft_toNat : (BitVec.ofNat 256 (middle.gas - turn.gasFromCall)).toNat =
      middle.gas - turn.gasFromCall := by
    rw [BitVec.toNat_ofNat, Nat.mod_eq_of_lt]
    have := startGas.isLt
    omega
  -- startGas - gasleft()
  have used_toNat : ∀ {usedGas : Uint256},
      Checked.sub startGas (BitVec.ofNat 256 (middle.gas - turn.gasFromCall)) = some usedGas →
      usedGas.toNat = startGas.toNat - (middle.gas - turn.gasFromCall) := by
    intro usedGas used
    have := Checked.sub_eq_some_iff.mp used
    omega
  simp only [settle, debit, Exec.sat_bind, Exec.sat_get, Exec.sat_pure, sat_checked, sat_spend, sat_gasleft,
    sat_onManager, sat_emit]
  -- the call leaves too little gas, or the settlement runs: what it checks is one case each
  refine ⟨fun short settles => ?_, fun long => ⟨fun usedGas used => ?_, fun impossible => ?_⟩⟩
  · have := settles.1
    omega
  · have cost_spec : ∀ cost, costWei terms succeeds usedGas = some cost ↔
        cost.toNat = settledCharge terms turn startGas.toNat succeeds middle := fun cost => by
      rw [costWei_eq_some_iff, used_toNat used, settledCharge]
    -- the product of gas and price, then the sum of what is compensated, then the balance
    refine ⟨fun costWei cost => ?_, fun overflow settles => ?_⟩
    · have cost_toNat := (cost_spec costWei).mp cost
      refine ⟨fun compensateWei' sum => ⟨fun balanceWei rest => ⟨fun short settles => ?_, fun stored => ?_⟩,
        fun broke settles => ?_⟩, fun overflow settles => ?_⟩
      · have := settles.1
        omega
      · have rest_toNat := Checked.sub_eq_some_iff.mp rest
        refine ⟨⟨by omega, ?_⟩, ?_⟩
        · rw [← cost_toNat, balanceOf]
          omega
        · have is_cost : BitVec.ofNat 256 (settledCharge terms turn startGas.toNat succeeds middle) =
              costWei := by
            rw [← cost_toNat, BitVec.ofNat_toNat, BitVec.setWidth_eq]
          rw [afterSettle, is_cost, Checked.eq_of_sub_eq_some rest]
          rfl
      · -- the subscriber cannot pay
        have := Checked.lt_of_sub_eq_none broke
        have := settles.2
        simp only [balanceOf] at this
        omega
      · have := Checked.le_of_eq_none (fun _ => Checked.add_eq_some_iff) overflow
        have := settles.2
        omega
    · have := Checked.le_of_eq_none cost_spec overflow
      have := settles.2
      have := (balanceOf middle addr).isLt
      omega
  · have := Checked.lt_of_sub_eq_none impossible
    omega

/-! ## One turn -/

section OneTurn

variable (terms : Terms) (turn : Turn) (frame : Frame) (addr : Address)

def turnLimit : Uint256 := (limitGas terms (balanceOf frame addr)).getD 0

/-- The first reading of the gas. -/
def gasAtReading : Nat := frame.gas - turn.gasToCondition - turn.gasToReading

def gasAtCall : Nat := gasAtReading turn frame - turn.gasToCall

/-- The state in which the subscriber is called. -/
def worldAtCall : World :=
  { frame.world with
    effects := frame.world.effects ++ [.called addr (turnLimit terms frame addr) terms.data] }

def turnAnswer : Reply :=
  turn.answer (callGas (turnLimit terms frame addr) (gasAtCall turn frame)) (worldAtCall terms frame addr)

/-- The state in which the subscriber has ended. -/
def answered : Frame where
  world := (turnAnswer terms turn frame addr).world
  gas := gasAtCall turn frame - (turnAnswer terms turn frame addr).usedGas
  entered := frame.entered ++ [worldAtCall terms frame addr]

def turnCharge : Nat :=
  settledCharge terms turn (gasAtReading turn frame) (turnAnswer terms turn frame addr).returns
    (answered terms turn frame addr)

/-- The turn of a subscriber that is called does not fail: it has code, the gas suffices up to the call, and
    what is left of the gas and of its balance suffices after it. -/
structure Bears : Prop where
  hasCode : turn.hasCode = true
  gasToCall : turn.gasToCondition + turn.gasToReading + turn.gasToCall ≤ frame.gas
  settles : Settles terms addr turn (gasAtReading turn frame) (turnAnswer terms turn frame addr).returns
    (answered terms turn frame addr)

/-- What a turn with a call leaves. -/
def afterCall : Frame :=
  afterSettle addr turn (answered terms turn frame addr) (turnCharge terms turn frame addr)

end OneTurn

theorem limitGas_eq {terms : Terms} (price : terms.gasPriceWei ≠ 0) {balanceWei : Uint256}
    (covers : terms.incentPerSubWei < balanceWei) :
    ∃ limit, limitGas terms balanceWei = some limit ∧
      limit.toNat = min ((balanceWei.toNat - terms.incentPerSubWei.toNat) / terms.gasPriceWei.toNat)
        terms.fairLimitGas.toNat := by
  have less : terms.incentPerSubWei.toNat < balanceWei.toNat := BitVec.lt_def.mp covers
  obtain ⟨rest, rest_eq⟩ := Option.isSome_iff_exists.mp
    (Checked.sub_isSome_iff.mpr (Nat.le_of_lt less))
  have rest_toNat := Checked.sub_eq_some_iff.mp rest_eq
  have quotient := Checked.div_eq_some_iff.mpr ⟨price, BitVec.toNat_udiv (x := rest)⟩
  refine ⟨_, by simp only [limitGas, rest_eq, Option.bind_eq_bind, Option.bind_some, quotient]; rfl, ?_⟩
  have rest_is : rest.toNat = balanceWei.toNat - terms.incentPerSubWei.toNat := by omega
  rw [← rest_is]
  split
  next above =>
    rw [gt_iff_lt, BitVec.lt_def, BitVec.toNat_udiv] at above
    omega
  next below =>
    rw [gt_iff_lt, BitVec.lt_def, BitVec.toNat_udiv] at below
    rw [BitVec.toNat_udiv]
    omega

/-- The debits of earlier turns are still ether of the contract, and the gas is a machine word. -/
structure Running (start : World) (compensateWei : Uint256) (frame : Frame) : Prop extends
    InLoop start compensateWei frame where
  solvent : recorded start.manager ≤ start.balance.toNat
  small : frame.gas < 2 ^ 256

theorem Running.advances {start : World} {compensateWei : Uint256} {frame : Frame}
    (running : Running start compensateWei frame) (terms : Terms) {turn : Turn} (honest : Honest turn)
    (addr : Address) :
    Advances (worldAtCall terms frame addr) (turnAnswer terms turn frame addr).world := by
  have wellFormed : WellFormed (worldAtCall terms frame addr).manager := running.wellFormed
  exact honest.answer _ wellFormed

theorem Running.answered {start : World} {compensateWei : Uint256} {frame : Frame}
    (running : Running start compensateWei frame) (terms : Terms) {turn : Turn} (honest : Honest turn)
    (addr : Address) : InLoop start compensateWei (answered terms turn frame addr) :=
  (running.toInLoop.emit (.called addr (turnLimit terms frame addr) terms.data) rfl rfl).call
    (running.advances terms honest addr) _

theorem notifyOne_exact {start : World} {compensateWei : Uint256} {before : Frame}
    (running : Running start compensateWei before) {terms : Terms} (price : terms.gasPriceWei ≠ 0)
    {turn : Turn} (honest : Honest turn) {addr : Address}
    (known : addr ∈ before.world.manager.subscriberAddrs)
    (covers : terms.incentPerSubWei < balanceOf before addr)
    (conditionGas : turn.gasToCondition ≤ before.gas) :
    Exec.Sat (notifyOne terms addr (balanceOf before addr) turn compensateWei)
      { before with gas := before.gas - turn.gasToCondition }
      (fun _ after => Bears terms turn before addr ∧ after = afterCall terms turn before addr)
      (fun _ _ => ¬ Bears terms turn before addr) := by
  obtain ⟨limit, limited, -⟩ := limitGas_eq price covers
  have is_limit : turnLimit terms before addr = limit := by rw [turnLimit, limited, Option.getD_some]
  subst is_limit
  have answered := running.answered terms honest addr
  have stillKnown := (running.advances terms honest addr).addrs.subset known
  have reading : (BitVec.ofNat 256 (gasAtReading turn before)).toNat = gasAtReading turn before := by
    rw [BitVec.toNat_ofNat, Nat.mod_eq_of_lt]
    have := running.small
    simp only [gasAtReading]
    omega
  have settled := settle_exact answered running.solvent terms stillKnown turn
    (BitVec.ofNat 256 (gasAtReading turn before))
    (by rw [reading]; simp only [EventManager.answered, gasAtCall]; omega)
    (turnAnswer terms turn before addr).returns
  rw [reading] at settled
  simp only [notifyOne, tryOnNotify, Exec.sat_bind, Exec.sat_get, Exec.sat_pure, Exec.sat_throwIf,
    Exec.sat_modify, sat_checked, sat_spend, sat_gasleft, sat_emit, limited, Option.some.injEq, forall_eq',
    reduceCtorEq, false_implies, and_true]
  refine ⟨fun short bears => ?_, fun read => ⟨fun noCode bears => ?_, fun hasCode =>
    ⟨fun short bears => ?_, fun called => ?_⟩⟩⟩
  · have := bears.gasToCall
    omega
  · simp [bears.hasCode] at noCode
  · have := bears.gasToCall
    omega
  · refine settled.mono (fun _ after done => ⟨⟨by simpa using hasCode, by omega, done.1⟩, done.2⟩)
      fun _ _ fails bears => fails bears.settles

/-! ## The loop -/

/-- The turn at position `i` does not fail. -/
def Bearable (terms : Terms) (turn : Turn) (i : Nat) (frame : Frame) : Prop :=
  turn.gasToCondition ≤ frame.gas ∧
    ∀ addr, frame.world.manager.subscriberAddrs[i]? = some addr →
      terms.incentPerSubWei < balanceOf frame addr → Bears terms turn frame addr

def afterTurn (terms : Terms) (turn : Turn) (i : Nat) (frame : Frame) : Frame :=
  match frame.world.manager.subscriberAddrs[i]? with
  | some addr =>
    if terms.incentPerSubWei < balanceOf frame addr then afterCall terms turn frame addr
    else { frame with gas := frame.gas - turn.gasToCondition }
  | none => frame

def AllBearable (terms : Terms) (turns : Nat → Turn) : Nat → Nat → Frame → Prop
  | 0, _, _ => True
  | left + 1, i, frame => Bearable terms (turns i) i frame ∧
    AllBearable terms turns left (i + 1) (afterTurn terms (turns i) i frame)

def afterTurns (terms : Terms) (turns : Nat → Turn) : Nat → Nat → Frame → Frame
  | 0, _, frame => frame
  | left + 1, i, frame =>
    afterTurns terms turns left (i + 1) (afterTurn terms (turns i) i frame)

theorem afterTurn_called {terms : Terms} {turn : Turn} {i : Nat} {frame : Frame} {addr : Address}
    (found : frame.world.manager.subscriberAddrs[i]? = some addr)
    (covers : terms.incentPerSubWei < balanceOf frame addr) :
    afterTurn terms turn i frame = afterCall terms turn frame addr := by
  simp only [afterTurn, found, covers, if_true]

theorem afterTurn_passed {terms : Terms} {turn : Turn} {i : Nat} {frame : Frame} {addr : Address}
    (found : frame.world.manager.subscriberAddrs[i]? = some addr)
    (poor : ¬ terms.incentPerSubWei < balanceOf frame addr) :
    afterTurn terms turn i frame = { frame with gas := frame.gas - turn.gasToCondition } := by
  simp only [afterTurn, found, poor, if_false]

theorem afterTurn_gas_le (terms : Terms) (turn : Turn) (i : Nat) (frame : Frame) :
    (afterTurn terms turn i frame).gas ≤ frame.gas := by
  unfold afterTurn
  split
  · split
    · simp only [afterCall, afterSettle, answered, gasAtCall, gasAtReading]
      omega
    · exact Nat.sub_le _ _
  · exact le_rfl

theorem loopBody_exact {start : World} {compensateWei : Uint256} {before : Frame}
    (running : Running start compensateWei before) {terms : Terms} (price : terms.gasPriceWei ≠ 0)
    {turn : Turn} (honest : Honest turn) {i : Nat} {addr : Address}
    (found : before.world.manager.subscriberAddrs[i]? = some addr) :
    Exec.Sat (loopBody terms turn i compensateWei) before
      (fun compensateWei' after => Bearable terms turn i before ∧
        after = afterTurn terms turn i before ∧ Running start compensateWei' after)
      (fun _ _ => ¬ Bearable terms turn i before) := by
  have exact : Exec.Sat (loopBody terms turn i compensateWei) before
      (fun _ after => Bearable terms turn i before ∧ after = afterTurn terms turn i before)
      (fun _ _ => ¬ Bearable terms turn i before) := by
    simp only [loopBody, Exec.sat_bind, Exec.sat_get, Exec.sat_ite, Exec.sat_pure, sat_checked, sat_spend,
      found, Option.some.injEq, forall_eq', reduceCtorEq, false_implies, and_true, gt_iff_lt]
    refine ⟨fun short bearable => ?_, fun long => ⟨fun covers => ?_, fun poor => ⟨⟨by omega, ?_⟩, ?_⟩⟩⟩
    · have := bearable.1
      omega
    · have known := List.mem_of_getElem? found
      refine (notifyOne_exact running price honest known covers (by omega)).mono
        (fun _ after done => ⟨⟨by omega, fun other found' _ => ?_⟩, ?_⟩) fun _ _ fails bearable =>
          fails (bearable.2 addr found covers)
      · cases found.symm.trans found'
        exact done.1
      · rw [done.2, afterTurn_called found covers]
    · intro other found' covers
      cases found.symm.trans found'
      exact (poor covers).elim
    · rw [afterTurn_passed found poor]
  refine (exact.and (loopBody_sat running.toInLoop terms honest i)).mono
    (fun _ after done => ⟨done.1.1, done.1.2, done.2, running.solvent, ?_⟩) fun _ _ fails => fails.1
  rw [done.1.2]
  exact (afterTurn_gas_le terms turn i before).trans_lt running.small

/-- New subscribers come after those that are called. -/
theorem InLoop.found {start : World} {compensateWei : Uint256} {frame : Frame}
    (inLoop : InLoop start compensateWei frame) {i : Nat} {addr : Address}
    (inStart : start.manager.subscriberAddrs[i]? = some addr) :
    frame.world.manager.subscriberAddrs[i]? = some addr := by
  obtain ⟨rest, same⟩ := inLoop.addrs
  rw [← same, List.getElem?_append_left (List.getElem?_eq_some_iff.mp inStart).1, inStart]

/-! ## Who is called, and what is debited -/

/-- The subscriber is called with the gas that its balance pays for, up to the fair limit. -/
def CalledWithin (terms : Terms) (balanceWei : Uint256) (addr : Address) (news : List Effect) : Prop :=
  ∃ limitGas, .called addr limitGas terms.data ∈ news ∧
    min ((balanceWei.toNat - terms.incentPerSubWei.toNat) / terms.gasPriceWei.toNat)
      terms.fairLimitGas.toNat ≤ limitGas.toNat

theorem CalledWithin.mono {terms : Terms} {balanceWei : Uint256} {addr : Address}
    {news news' : List Effect} (called : CalledWithin terms balanceWei addr news)
    (subset : news ⊆ news') : CalledWithin terms balanceWei addr news' := by
  obtain ⟨limitGas, member, bound⟩ := called
  exact ⟨limitGas, subset member, bound⟩

/-- Before the turn at position `i`: the balances of those still to come have not become smaller, the others
    were called if they could pay, and no debit was larger than the balance. -/
structure Tracks (start : World) (terms : Terms) (i : Nat) (frame : Frame) : Prop where
  pending : ∀ j addr, i ≤ j → start.manager.subscriberAddrs[j]? = some addr →
    (start.manager.subscriberMap addr).balanceWei ≤ balanceOf frame addr
  news : ∃ news, frame.world.effects = start.effects ++ news ∧
    (∀ j addr, j < i → start.manager.subscriberAddrs[j]? = some addr →
      terms.incentPerSubWei < (start.manager.subscriberMap addr).balanceWei →
      CalledWithin terms (start.manager.subscriberMap addr).balanceWei addr news) ∧
    ∀ addr cost balance, .debited addr cost balance ∈ news → cost ≤ balance

theorem turnLimit_bound {terms : Terms} (price : terms.gasPriceWei ≠ 0) {balanceWei : Uint256}
    {frame : Frame} {addr : Address} (pays : balanceWei ≤ balanceOf frame addr)
    (covers : terms.incentPerSubWei < balanceOf frame addr) :
    min ((balanceWei.toNat - terms.incentPerSubWei.toNat) / terms.gasPriceWei.toNat)
      terms.fairLimitGas.toNat ≤ (turnLimit terms frame addr).toNat := by
  obtain ⟨limit, limited, limit_toNat⟩ := limitGas_eq price covers
  rw [turnLimit, limited, Option.getD_some, limit_toNat]
  have := BitVec.le_def.mp pays
  exact min_le_min_right _ (Nat.div_le_div_right (by omega))

theorem Tracks.passed {start : World} {terms : Terms} {i : Nat} {frame : Frame} {addr : Address}
    (tracks : Tracks start terms i frame) (inStart : start.manager.subscriberAddrs[i]? = some addr)
    (poor : ¬ terms.incentPerSubWei < balanceOf frame addr) (gas : Nat) :
    Tracks start terms (i + 1) { frame with gas } where
  pending j other later := tracks.pending j other (by omega)
  news := by
    obtain ⟨news, same, called, debits⟩ := tracks.news
    refine ⟨news, same, fun j other earlier inStart' covers => ?_, debits⟩
    rcases Nat.lt_succ_iff_lt_or_eq.mp earlier with earlier | rfl
    · exact called j other earlier inStart' covers
    · cases inStart.symm.trans inStart'
      have pays := BitVec.le_def.mp (tracks.pending j addr le_rfl inStart)
      have := BitVec.lt_def.mp covers
      exact (poor (BitVec.lt_def.mpr (by omega))).elim

theorem Running.afterCall_effects {start : World} {compensateWei : Uint256} {frame : Frame}
    (running : Running start compensateWei frame) (terms : Terms) {turn : Turn} (honest : Honest turn)
    (addr : Address) :
    (afterCall terms turn frame addr).world.effects = frame.world.effects ++
      [.called addr (turnLimit terms frame addr) terms.data,
        .debited addr (BitVec.ofNat 256 (turnCharge terms turn frame addr))
          (balanceOf (EventManager.answered terms turn frame addr) addr)] := by
  have effects : (turnAnswer terms turn frame addr).world.effects =
      (worldAtCall terms frame addr).effects :=
    (running.advances terms honest addr).effects running.locked
  simp only [afterCall, afterSettle, EventManager.answered, effects, worldAtCall, List.append_assoc,
    List.cons_append, List.nil_append]

theorem Tracks.called {start : World} {compensateWei : Uint256} {frame : Frame}
    (running : Running start compensateWei frame) {terms : Terms} (price : terms.gasPriceWei ≠ 0)
    {turn : Turn} (honest : Honest turn) {i : Nat} {addr : Address}
    (tracks : Tracks start terms i frame) (inStart : start.manager.subscriberAddrs[i]? = some addr)
    (covers : terms.incentPerSubWei < balanceOf frame addr) (bears : Bears terms turn frame addr) :
    Tracks start terms (i + 1) (afterCall terms turn frame addr) where
  pending j other later inStart' := by
    have different : other ≠ addr := by
      rintro rfl
      have nodup := running.wellFormed.nodup.sublist running.addrs.sublist
      have bound := (List.getElem?_eq_some_iff.mp inStart).1
      have := (List.getElem?_inj bound nodup).mp (inStart.trans inStart'.symm)
      omega
    have known := List.mem_of_getElem? (running.found inStart')
    have grown := (running.advances terms honest addr).balances running.locked other known
    have still := tracks.pending j other (by omega) inStart'
    refine BitVec.le_trans still (BitVec.le_trans grown ?_)
    simp [afterCall, afterSettle, balanceOf, setSubscriber, answered, different]
  news := by
    obtain ⟨news, same, called, debits⟩ := tracks.news
    refine ⟨_, (running.afterCall_effects terms honest addr).trans (by rw [same, List.append_assoc]),
      fun j other earlier inStart' covers' => ?_, fun other cost balance member => ?_⟩
    · rcases Nat.lt_succ_iff_lt_or_eq.mp earlier with earlier | rfl
      · exact (called j other earlier inStart' covers').mono (List.subset_append_left _ _)
      · cases inStart.symm.trans inStart'
        exact ⟨turnLimit terms frame addr, by simp,
          turnLimit_bound price (tracks.pending j addr le_rfl inStart) covers⟩
    · rcases List.mem_append.mp member with earlier | last
      · exact debits other cost balance earlier
      · simp only [List.mem_cons, reduceCtorEq, Effect.debited.injEq, List.not_mem_nil, or_false,
          false_or] at last
        obtain ⟨rfl, rfl, rfl⟩ := last
        rw [BitVec.le_def, BitVec.toNat_ofNat]
        exact (Nat.mod_le _ _).trans bears.settles.2

theorem Tracks.turn {start : World} {compensateWei : Uint256} {frame : Frame}
    (running : Running start compensateWei frame) {terms : Terms} (price : terms.gasPriceWei ≠ 0)
    {turn : Turn} (honest : Honest turn) {i : Nat} {addr : Address}
    (tracks : Tracks start terms i frame) (inStart : start.manager.subscriberAddrs[i]? = some addr)
    (bearable : Bearable terms turn i frame) :
    Tracks start terms (i + 1) (afterTurn terms turn i frame) := by
  have found := running.found inStart
  by_cases covers : terms.incentPerSubWei < balanceOf frame addr
  · rw [afterTurn_called found covers]
    exact tracks.called running price honest inStart covers (bearable.2 addr found covers)
  · rw [afterTurn_passed found covers]
    exact tracks.passed inStart covers _

/-- The induction on the turns that are left. -/
theorem loop_exact {start : World} {terms : Terms} (price : terms.gasPriceWei ≠ 0) {turns : Nat → Turn}
    (honest : ∀ i, Honest (turns i)) (left : Nat) {i : Nat}
    (listed : i + left ≤ start.manager.subscriberAddrs.length) {compensateWei : Uint256} {before : Frame}
    (running : Running start compensateWei before) (tracks : Tracks start terms i before) :
    Exec.Sat (loop terms turns left i compensateWei) before
      (fun compensateWei' after => AllBearable terms turns left i before ∧
        after = afterTurns terms turns left i before ∧ Running start compensateWei' after ∧
        Tracks start terms (i + left) after)
      (fun _ _ => ¬ AllBearable terms turns left i before) := by
  induction left generalizing i compensateWei before with
  | zero => exact ⟨trivial, rfl, running, tracks⟩
  | succ left inductionHypothesis =>
    have inStart := List.getElem?_eq_getElem (show i < start.manager.subscriberAddrs.length by omega)
    rw [loop, Exec.sat_bind]
    refine (loopBody_exact running price (honest i) (running.found inStart)).mono
      (fun compensateWei' middle done => ?_) fun _ _ fails all => fails all.1
    obtain ⟨bearable, rfl, running'⟩ := done
    have tracks' := tracks.turn running price (honest i) inStart bearable
    refine (inductionHypothesis (by omega) running' tracks').mono (fun _ _ rest => ?_)
      fun _ _ fails all => fails all.2
    obtain ⟨all, same, ran, tracked⟩ := rest
    exact ⟨⟨bearable, all⟩, same, ran, by rwa [Nat.add_right_comm, Nat.add_assoc] at tracked⟩

/-! ## The notification -/

def numSubscribers (world : World) : Uint256 := BitVec.ofNat 256 world.manager.subscriberAddrs.length

/-- The gas when the loop starts. -/
def gasAtLoop (notification : Notification) : Nat :=
  notification.gas.toNat - notification.gasToRequire - notification.gasToLimit

def termsOf (notification : Notification) (data : Bytes) (world : World) : Terms where
  data
  gasPriceWei := if notification.tx.gasprice = 0 then 1 else notification.tx.gasprice
  incentPerSubWei := world.manager.incentiveWei / numSubscribers world
  fairLimitGas :=
    (BitVec.ofNat 256 (gasAtLoop notification) - finishingCostGas) / numSubscribers world

/-- The state in which the loop starts. -/
def loopStart (notification : Notification) (world : World) : Frame where
  world := { world with manager := { world.manager with entranceLock := true } }
  gas := gasAtLoop notification
  entered := []

/-- The gas covers what the contract asks for. -/
def SuppliesGas (notification : Notification) (world : World) : Prop :=
  world.manager.subscriberAddrs ≠ [] →
    notification.gasToRequire + world.manager.perSubLimitGas.toNat *
      world.manager.subscriberAddrs.length + finishingCostGas.toNat ≤ notification.gas.toNat

/-- The gas suffices up to the loop, and no turn fails. -/
def SurvivesLoop (notification : Notification) (data : Bytes) (world : World) : Prop :=
  notification.gasToRequire + notification.gasToLimit + finishingCostGas.toNat ≤
      notification.gas.toNat ∧
    AllBearable (termsOf notification data world) notification.turns
      world.manager.subscriberAddrs.length 0 (loopStart notification world)

def gasAfterLoop (notification : Notification) (data : Bytes) (world : World) : Nat :=
  (afterTurns (termsOf notification data world) notification.turns
    world.manager.subscriberAddrs.length 0 (loopStart notification world)).gas

/-- The gas also suffices for what the contract does after the loop. -/
def Survives (notification : Notification) (data : Bytes) (world : World) : Prop :=
  if world.manager.subscriberAddrs = [] then
    notification.gasToEnd ≤ notification.gas.toNat
  else
    SurvivesLoop notification data world ∧
      notification.gasToTransfer + notification.gasToEnd ≤ gasAfterLoop notification data world

/-- Everybody whose balance is above the incentive is called, and debited at most the balance. -/
def Delivers (notification : Notification) (data : Bytes) (before after : World) : Prop :=
  ∃ news, after.effects = before.effects ++ news ∧
    (∀ addr ∈ before.manager.subscriberAddrs,
      (termsOf notification data before).incentPerSubWei <
          (before.manager.subscriberMap addr).balanceWei →
        CalledWithin (termsOf notification data before)
          (before.manager.subscriberMap addr).balanceWei addr news) ∧
    ∀ addr cost balance, .debited addr cost balance ∈ news → cost ≤ balance

theorem numSubscribers_toNat {world : World} (wellFormed : WellFormed world.manager) :
    (numSubscribers world).toNat = world.manager.subscriberAddrs.length := by
  have nodup : (world.manager.subscriberAddrs.map BitVec.toFin).Nodup :=
    wellFormed.nodup.map fun left right same => BitVec.toFin_inj.mp same
  have few := nodup.length_le_card
  rw [List.length_map, Fintype.card_fin] at few
  rw [numSubscribers, BitVec.toNat_ofNat, Nat.mod_eq_of_lt]
  omega

theorem termsOf_price (notification : Notification) (data : Bytes) (world : World) :
    (termsOf notification data world).gasPriceWei ≠ 0 := by
  simp only [termsOf]
  split
  · decide
  · assumption

theorem askedGas_eq_some_iff {manager : EventManager} {number gas : Uint256} :
    askedGas manager number = some gas ↔
      gas.toNat = manager.perSubLimitGas.toNat * number.toNat + finishingCostGas.toNat := by
  simp only [askedGas, Option.bind_eq_bind, Option.bind_eq_some_iff, Checked.mul_eq_some_iff,
    Checked.add_eq_some_iff]
  refine ⟨fun ⟨product, multiplied, added⟩ => multiplied ▸ added, fun added => ?_⟩
  have fits : manager.perSubLimitGas.toNat * number.toNat < 2 ^ 256 := by
    have := gas.isLt
    omega
  refine ⟨BitVec.ofNat 256 (manager.perSubLimitGas.toNat * number.toNat), ?_, ?_⟩
  · rw [BitVec.toNat_ofNat, Nat.mod_eq_of_lt fits]
  · rw [BitVec.toNat_ofNat, Nat.mod_eq_of_lt fits, added]

theorem fairLimitGas_eq_some_iff {gas number limit : Uint256} (nonzero : number ≠ 0) :
    fairLimitGas gas number = some limit ↔
      finishingCostGas.toNat ≤ gas.toNat ∧ limit = (gas - finishingCostGas) / number := by
  simp only [fairLimitGas, Option.bind_eq_bind, Option.bind_eq_some_iff, Checked.div, nonzero, if_false,
    Option.some.injEq]
  refine ⟨fun ⟨rest, subtracted, divided⟩ => ?_, fun ⟨le, divided⟩ => ?_⟩
  · exact ⟨Checked.sub_isSome_iff.mp (Option.isSome_of_eq_some subtracted),
      Checked.eq_of_sub_eq_some subtracted ▸ divided.symm⟩
  · obtain ⟨rest, subtracted⟩ := Option.isSome_iff_exists.mp (Checked.sub_isSome_iff.mpr le)
    exact ⟨rest, subtracted, Checked.eq_of_sub_eq_some subtracted ▸ divided.symm⟩

/-- The state in which `notifyOnChainSubscribers` starts. -/
def notifyStart (notification : Notification) (world : World) : Frame :=
  { loopStart notification world with gas := notification.gas.toNat }

theorem prepareTerms_exact {notification : Notification} (data : Bytes) {world : World}
    (wellFormed : WellFormed world.manager) (some : world.manager.subscriberAddrs ≠ [])
    (supplies : SuppliesGas notification world) :
    Exec.Sat (prepareTerms notification data) (notifyStart notification world)
      (fun terms after => notification.gasToRequire + notification.gasToLimit +
          finishingCostGas.toNat ≤ notification.gas.toNat ∧
        terms = termsOf notification data world ∧ after = loopStart notification world)
      (fun _ _ => ¬ notification.gasToRequire + notification.gasToLimit +
          finishingCostGas.toNat ≤ notification.gas.toNat) := by
  have asked := supplies some
  have small : notification.gas.toNat < 2 ^ 64 := notification.gas.toNat_lt
  have number := numSubscribers_toNat wellFormed
  have nonzero : numSubscribers world ≠ 0 := by
    intro zero
    rw [zero] at number
    exact some (List.length_eq_zero_iff.mp number.symm)
  have reading : ∀ gas, gas ≤ notification.gas.toNat → (BitVec.ofNat 256 gas).toNat = gas :=
    fun gas le => by rw [BitVec.toNat_ofNat, Nat.mod_eq_of_lt (by omega)]
  have number_is : BitVec.ofNat 256 (notifyStart notification world).world.manager.subscriberAddrs.length =
      numSubscribers world := rfl
  have gas_is : (notifyStart notification world).gas = notification.gas.toNat := rfl
  have asks_spec : ∀ asks, askedGas (notifyStart notification world).world.manager (numSubscribers world) =
      Option.some asks ↔ asks.toNat = world.manager.perSubLimitGas.toNat *
        world.manager.subscriberAddrs.length + finishingCostGas.toNat := fun asks => by
    rw [askedGas_eq_some_iff, number]
    rfl
  simp only [prepareTerms, Exec.sat_bind, Exec.sat_get, Exec.sat_pure, sat_checked, sat_spend, sat_gasleft,
    sat_require, number_is, gas_is, Checked.div, nonzero, if_false, Option.some.injEq, forall_eq', reduceCtorEq,
    false_implies, and_true]
  refine ⟨fun short => ?_, fun long => ⟨fun asks is_asked => ⟨fun refused => ?_, fun _ =>
    ⟨fun short => ?_, fun rest => ⟨fun fair is_fair => ?_, fun failed enough => ?_⟩⟩⟩, fun overflow => ?_⟩⟩
  · omega
  · rw [ge_iff_le, BitVec.le_def, reading _ (by omega), (asks_spec asks).mp is_asked] at refused
    omega
  · omega
  · obtain ⟨le, rfl⟩ := (fairLimitGas_eq_some_iff nonzero).mp is_fair
    rw [reading _ (by omega)] at le
    exact ⟨by omega, rfl, rfl⟩
  · have le : finishingCostGas.toNat ≤ (BitVec.ofNat 256
        (notification.gas.toNat - notification.gasToRequire - notification.gasToLimit)).toNat := by
      rw [reading _ (by omega)]
      omega
    cases failed.symm.trans ((fairLimitGas_eq_some_iff nonzero).mpr ⟨le, rfl⟩)
  · have := Checked.le_of_eq_none asks_spec overflow
    omega

theorem Delivers.append {notification : Notification} {data : Bytes} {before after after' : World}
    (delivers : Delivers notification data before after) (effect : Effect)
    (appended : after'.effects = after.effects ++ [effect])
    (noDebit : ∀ addr cost balance, effect ≠ .debited addr cost balance) :
    Delivers notification data before after' := by
  obtain ⟨news, same, called, debits⟩ := delivers
  refine ⟨news ++ [effect], by rw [appended, same, List.append_assoc], fun addr known covers => ?_,
    fun addr cost balance member => ?_⟩
  · exact (called addr known covers).mono (List.subset_append_left _ _)
  · rcases List.mem_append.mp member with earlier | last
    · exact debits addr cost balance earlier
    · exact (noDebit addr cost balance (List.mem_singleton.mp last).symm).elim

theorem Tracks.delivers {notification : Notification} {data : Bytes} {world : World} {frame : Frame}
    (tracks : Tracks world (termsOf notification data world)
      world.manager.subscriberAddrs.length frame) : Delivers notification data world frame.world := by
  obtain ⟨news, same, called, debits⟩ := tracks.news
  refine ⟨news, same, fun addr known covers => ?_, debits⟩
  obtain ⟨j, bound, at_j⟩ := List.getElem_of_mem known
  exact called j addr bound (List.getElem?_eq_some_iff.mpr ⟨bound, at_j⟩) covers

theorem running_loopStart (notification : Notification) {world : World}
    (wellFormed : WellFormed world.manager) (solvent : recorded world.manager ≤ world.balance.toNat) :
    Running world 0 (loopStart notification world) where
  wellFormed := ⟨wellFormed.nodup, wellFormed.listed⟩
  locked := rfl
  addrs := List.prefix_rfl
  surplus := le_rfl
  effects := ⟨[], by simp [loopStart, debitedWei, payments]⟩
  entered := by simp [loopStart]
  solvent
  small := by
    have := notification.gas.toNat_lt
    simp only [loopStart, gasAtLoop]
    omega

theorem tracks_loopStart (notification : Notification) (terms : Terms) (world : World) :
    Tracks world terms 0 (loopStart notification world) where
  pending _ _ _ _ := BitVec.le_refl _
  news := ⟨[], by simp [loopStart]⟩

theorem notifyOnChainSubscribers_exact {notification : Notification} (data : Bytes) {world : World}
    (wellFormed : WellFormed world.manager) (solvent : recorded world.manager ≤ world.balance.toNat)
    (honest : ∀ i, Honest (notification.turns i)) (some : world.manager.subscriberAddrs ≠ [])
    (supplies : SuppliesGas notification world) :
    Exec.Sat (notifyOnChainSubscribers notification data) (notifyStart notification world)
      (fun _ after => SurvivesLoop notification data world ∧
        notification.gasToTransfer ≤ gasAfterLoop notification data world ∧
        after.gas = gasAfterLoop notification data world - notification.gasToTransfer ∧
        Delivers notification data world after.world)
      (fun _ _ => ¬ (SurvivesLoop notification data world ∧
        notification.gasToTransfer ≤ gasAfterLoop notification data world)) := by
  have number_is : BitVec.ofNat 256 (notifyStart notification world).world.manager.subscriberAddrs.length =
      numSubscribers world := rfl
  simp only [notifyOnChainSubscribers, transfer, Exec.sat_bind, Exec.sat_get, Exec.sat_ofOption, sat_spend,
    sat_onWorld, sat_emit, number_is, numSubscribers_toNat wellFormed]
  refine (prepareTerms_exact data wellFormed some supplies).mono (fun terms prepared done => ?_)
    fun _ _ fails survives => fails survives.1.1
  obtain ⟨enough, rfl, rfl⟩ := done
  refine (loop_exact (termsOf_price notification data world) honest _ (by simp)
    (running_loopStart notification wellFormed solvent) (tracks_loopStart notification _ world)).mono
    (fun compensateWei after looped => ?_) fun _ _ fails survives => fails survives.1.2
  obtain ⟨all, rfl, running, tracks⟩ := looped
  rw [Nat.zero_add] at tracks
  refine ⟨fun short survives => ?_, fun long => ⟨fun balance rest => ?_, fun broke => ?_⟩⟩
  · exact (Nat.not_le.mpr short survives.2).elim
  · exact ⟨⟨enough, all⟩, Nat.not_lt.mp long, rfl, tracks.delivers.append
      (.paid notification.tx.origin compensateWei) rfl (by simp)⟩
  · have := Checked.lt_of_sub_eq_none broke
    have := running.surplus
    have := running.solvent
    omega

theorem perform_exact {msg : Msg} {notification : Notification} (data : Bytes) {world : World}
    (sound : Sound false world) (honest : ∀ i, Honest (notification.turns i))
    (publisher : world.manager.publisherMap msg.sender = true) (noValue : msg.value = 0)
    (supplies : SuppliesGas notification world) :
    Exec.Sat (perform msg (.notifySubscribers notification data))
      { world, gas := notification.gas.toNat, entered := [] }
      (fun _ after => Survives notification data world ∧
        Delivers notification data world after.world)
      (fun _ _ => ¬ Survives notification data world) := by
  simp only [perform, nonPayable, notifySubscribers, Exec.sat_bind, Exec.sat_get, Exec.sat_ite,
    sat_require, sat_onManager, sat_spend, sat_emit, noValue, sound.lock, publisher,
    not_true_eq_false, false_implies, true_implies, true_and, Bool.false_eq_true, not_false_eq_true]
  refine ⟨fun some => ?_, fun empty => ?_⟩
  · have nonempty := List.length_pos_iff.mp some
    have survives_iff : Survives notification data world ↔ SurvivesLoop notification data world ∧
        notification.gasToTransfer + notification.gasToEnd ≤
          gasAfterLoop notification data world := by
      rw [Survives, if_neg nonempty]
    refine (notifyOnChainSubscribers_exact data sound.wellFormed sound.solvent honest nonempty
      supplies).mono (fun _ after done => ?_) fun _ _ fails survives => ?_
    · obtain ⟨survives, paid, gas, delivers⟩ := done
      rw [survives_iff, gas]
      refine ⟨fun short all => ?_, fun long => ⟨⟨survives, by omega⟩, ?_⟩⟩
      · have := all.2
        omega
      · exact delivers.append (.notifySubscribers data) rfl (by simp)
    · have := survives_iff.mp survives
      exact fails ⟨this.1, by omega⟩
  · have nobody : world.manager.subscriberAddrs = [] := by simpa using empty
    simp only [Survives, nobody, if_true]
    refine ⟨fun short enough => by omega, fun long => ⟨Nat.not_lt.mp long, ?_⟩⟩
    exact ⟨[.notifySubscribers data], rfl, by simp [nobody], by simp⟩

/-! ## The behaviour of the contract is never undefined -/

theorem defined_spend (gas : Nat) : Exec.Defined (spend gas) :=
  Exec.defined_get.bind fun _ => (Exec.defined_throwIf _ _).bind fun _ => Exec.defined_modify _

theorem defined_checked {α : Type} (value : Option α) : Exec.Defined (checked value) :=
  Exec.defined_ofOption _ _

theorem defined_gasleft : Exec.Defined gasleft := Exec.defined_get.bind fun _ => Exec.defined_pure _

theorem defined_tryOnNotify (data : Bytes) (addr : Address) (limitGas : Uint256) (turn : Turn) :
    Exec.Defined (tryOnNotify data addr limitGas turn) :=
  (Exec.defined_throwIf _ _).bind fun _ => (defined_spend _).bind fun _ =>
    (Exec.defined_modify _).bind fun _ => Exec.defined_get.bind fun _ =>
    (Exec.defined_modify _).bind fun _ => Exec.defined_pure _

theorem defined_settle (terms : Terms) (addr : Address) (turn : Turn) (startGas : Uint256)
    (succeeds : Bool) (compensateWei : Uint256) :
    Exec.Defined (settle terms addr turn startGas succeeds compensateWei) := by
  have defined_debit : ∀ cost, Exec.Defined (debit addr cost) := fun cost =>
    Exec.defined_get.bind fun _ => (defined_checked _).bind fun _ => (Exec.defined_modify _).bind fun _ =>
      Exec.defined_modify _
  exact (defined_spend _).bind fun _ => defined_gasleft.bind fun _ => (defined_checked _).bind fun _ =>
    (defined_checked _).bind fun _ => (defined_checked _).bind fun _ => (defined_debit _).bind fun _ =>
    (defined_spend _).bind fun _ => Exec.defined_pure _

theorem defined_loopBody (terms : Terms) (turn : Turn) (i : Nat) (compensateWei : Uint256) :
    Exec.Defined (loopBody terms turn i compensateWei) := by
  refine (defined_spend _).bind fun _ => Exec.defined_get.bind fun _ => (defined_checked _).bind fun _ =>
    .ite ?_ (Exec.defined_pure _)
  exact (defined_checked _).bind fun _ => (defined_spend _).bind fun _ => defined_gasleft.bind fun _ =>
    (defined_tryOnNotify _ _ _ _).bind fun _ => defined_settle _ _ _ _ _ _

theorem defined_loop (terms : Terms) (turns : Nat → Turn) (left i : Nat) (compensateWei : Uint256) :
    Exec.Defined (loop terms turns left i compensateWei) := by
  induction left generalizing i compensateWei with
  | zero => exact Exec.defined_pure _
  | succ left inductionHypothesis =>
    exact (defined_loopBody _ _ _ _).bind fun _ => inductionHypothesis _ _

theorem defined_notifyOnChainSubscribers (notification : Notification) (data : Bytes) :
    Exec.Defined (notifyOnChainSubscribers notification data) := by
  have defined_prepareTerms : Exec.Defined (prepareTerms notification data) :=
    Exec.defined_get.bind fun _ => (defined_checked _).bind fun _ => (defined_spend _).bind fun _ =>
      (defined_checked _).bind fun _ => defined_gasleft.bind fun _ => (Exec.defined_throwIf _ _).bind fun _ =>
      (defined_spend _).bind fun _ => defined_gasleft.bind fun _ => (defined_checked _).bind fun _ =>
      Exec.defined_pure _
  exact Exec.defined_get.bind fun _ => defined_prepareTerms.bind fun _ =>
    (defined_loop _ _ _ _ _).bind fun _ => (defined_spend _).bind fun _ => Exec.defined_get.bind fun _ =>
    (Exec.defined_ofOption _ _).bind fun _ => (Exec.defined_modify _).bind fun _ => Exec.defined_modify _

theorem defined_notifySubscribers (msg : Msg) (notification : Notification) (data : Bytes) :
    Exec.Defined (perform msg (.notifySubscribers notification data)) := by
  refine (Exec.defined_throwIf _ _).bind fun _ => Exec.defined_get.bind fun _ =>
    (Exec.defined_throwIf _ _).bind fun _ => (Exec.defined_modify _).bind fun _ =>
    (Exec.defined_throwIf _ _).bind fun _ => .ite ?_ ?_
  · exact (defined_notifyOnChainSubscribers _ _).bind fun _ => (Exec.defined_modify _).bind fun _ =>
      (defined_spend _).bind fun _ => Exec.defined_modify _
  · exact (Exec.defined_modify _).bind fun _ => (defined_spend _).bind fun _ => Exec.defined_modify _

/-! ## What suffices -/

/-- The gas of the contract's own code in a turn. -/
def ownGas (turn : Turn) : Nat :=
  turn.gasToCondition + turn.gasToReading + turn.gasToCall + turn.gasFromCall + turn.gasToStore

/-- Every subscriber has code and can pay the incentive and all of the gas, and the contract's own code,
    in the turns and behind them, fits into the gas that it keeps back. -/
structure Suffices (notification : Notification) (data : Bytes) (world : World) : Prop where
  hasCode : ∀ i, (notification.turns i).hasCode = true
  pays : ∀ addr ∈ world.manager.subscriberAddrs,
    (termsOf notification data world).incentPerSubWei.toNat +
        notification.gas.toNat * (termsOf notification data world).gasPriceWei.toNat ≤
      (world.manager.subscriberMap addr).balanceWei.toNat
  kept : ((List.range' 0 world.manager.subscriberAddrs.length).map fun i =>
      ownGas (notification.turns i)).sum + notification.gasToTransfer + notification.gasToEnd ≤
    finishingCostGas.toNat
  upToLoop : notification.gasToRequire + notification.gasToLimit + finishingCostGas.toNat ≤
    notification.gas.toNat

theorem turnAnswer_usedGas_le {terms : Terms} (price : terms.gasPriceWei ≠ 0) {turn : Turn} {frame : Frame}
    {addr : Address} (covers : terms.incentPerSubWei < balanceOf frame addr) :
    (turnAnswer terms turn frame addr).usedGas ≤ terms.fairLimitGas.toNat := by
  obtain ⟨limit, limited, isLimit⟩ := limitGas_eq price covers
  have used : (turnAnswer terms turn frame addr).usedGas ≤ (turnLimit terms frame addr).toNat :=
    (Nat.min_le_right _ _).trans (Nat.min_le_left _ _)
  rw [turnLimit, limited, Option.getD_some, isLimit] at used
  exact used.trans (Nat.min_le_right _ _)

section

variable {start : World} {compensateWei : Uint256} {frame : Frame} {terms : Terms} {turn : Turn} {i gas : Nat}

/-- A turn takes the gas of the contract's own code and of one call at most, so it can be paid for. -/
theorem bears_of_pays (running : Running start compensateWei frame) (price : terms.gasPriceWei ≠ 0)
    (honest : Honest turn) {addr : Address} (tracks : Tracks start terms i frame)
    (inStart : start.manager.subscriberAddrs[i]? = some addr) (hasCode : turn.hasCode = true)
    (pays : terms.incentPerSubWei.toNat + gas * terms.gasPriceWei.toNat ≤
      (start.manager.subscriberMap addr).balanceWei.toNat)
    (bound : frame.gas ≤ gas) (enough : ownGas turn + terms.fairLimitGas.toNat ≤ frame.gas)
    (covers : terms.incentPerSubWei < balanceOf frame addr) :
    Bears terms turn frame addr ∧
      frame.gas ≤ (afterCall terms turn frame addr).gas + ownGas turn + terms.fairLimitGas.toNat := by
  have used := @turnAnswer_usedGas_le terms price turn frame addr covers
  -- the balance is not smaller than when the notification began
  have known := List.mem_of_getElem? (running.found inStart)
  have pending := BitVec.le_def.mp (tracks.pending i addr le_rfl inStart)
  have grown := BitVec.le_def.mp ((running.advances terms honest addr).balances running.locked addr known)
  have charge : settledCharge terms turn (gasAtReading turn frame) (turnAnswer terms turn frame addr).returns
      (answered terms turn frame addr) ≤ terms.incentPerSubWei.toNat + gas * terms.gasPriceWei.toNat := by
    refine Nat.add_le_add (by split <;> omega) (Nat.mul_le_mul_right _ ?_)
    simp only [gasAtReading]
    omega
  rw [ownGas] at enough ⊢
  refine ⟨⟨hasCode, by omega, ?_, charge.trans (pays.trans (pending.trans grown))⟩, ?_⟩
  · simp only [answered, gasAtCall, gasAtReading]
    omega
  · simp only [afterCall, afterSettle, answered, gasAtCall, gasAtReading]
    omega

theorem bearable_of_pays (running : Running start compensateWei frame) (price : terms.gasPriceWei ≠ 0)
    (honest : Honest turn) (tracks : Tracks start terms i frame)
    (listed : i < start.manager.subscriberAddrs.length) (hasCode : turn.hasCode = true)
    (pays : ∀ addr ∈ start.manager.subscriberAddrs, terms.incentPerSubWei.toNat +
      gas * terms.gasPriceWei.toNat ≤ (start.manager.subscriberMap addr).balanceWei.toNat)
    (bound : frame.gas ≤ gas) (enough : ownGas turn + terms.fairLimitGas.toNat ≤ frame.gas) :
    Bearable terms turn i frame ∧
      frame.gas ≤ (afterTurn terms turn i frame).gas + ownGas turn + terms.fairLimitGas.toNat := by
  have inStart := List.getElem?_eq_getElem listed
  have found := running.found inStart
  have bears := bears_of_pays running price honest tracks inStart hasCode
    (pays _ (List.getElem_mem listed)) bound enough
  have condition : turn.gasToCondition ≤ ownGas turn := by
    rw [ownGas]
    omega
  refine ⟨⟨by omega, fun addr found' covers => ?_⟩, ?_⟩
  · cases found.symm.trans found'
    exact (bears covers).1
  · by_cases covers : terms.incentPerSubWei < balanceOf frame start.manager.subscriberAddrs[i]
    · rw [afterTurn_called found covers]
      exact (bears covers).2
    · rw [afterTurn_passed found covers]
      dsimp only
      omega

/-- The induction on the turns that are left. -/
theorem allBearable_of_pays (price : terms.gasPriceWei ≠ 0) {turns : Nat → Turn}
    (honest : ∀ i, Honest (turns i)) (hasCode : ∀ i, (turns i).hasCode = true)
    (pays : ∀ addr ∈ start.manager.subscriberAddrs, terms.incentPerSubWei.toNat +
      gas * terms.gasPriceWei.toNat ≤ (start.manager.subscriberMap addr).balanceWei.toNat)
    (left : Nat) (listed : i + left ≤ start.manager.subscriberAddrs.length)
    (running : Running start compensateWei frame) (tracks : Tracks start terms i frame)
    (bound : frame.gas ≤ gas)
    (enough : ((List.range' i left).map fun i => ownGas (turns i)).sum +
      left * terms.fairLimitGas.toNat ≤ frame.gas) :
    AllBearable terms turns left i frame ∧ frame.gas ≤ (afterTurns terms turns left i frame).gas +
      ((List.range' i left).map fun i => ownGas (turns i)).sum + left * terms.fairLimitGas.toNat := by
  induction left generalizing i compensateWei frame with
  | zero => simp [AllBearable, afterTurns]
  | succ left inductionHypothesis =>
    rw [List.range'_succ, List.map_cons, List.sum_cons, Nat.add_one_mul] at enough ⊢
    have isNext : i < start.manager.subscriberAddrs.length := by omega
    have inStart := List.getElem?_eq_getElem isNext
    obtain ⟨bearable, spent⟩ := bearable_of_pays running price (honest i) tracks isNext (hasCode i) pays bound
      (by omega)
    -- the turn returns, so what was said of the state before holds of the one behind it
    have exact := loopBody_exact running price (honest i) (running.found inStart)
    obtain ⟨_, _, -, -, rfl, running'⟩ := (defined_loopBody terms (turns i) i compensateWei).returns
      (exact.mono (fun _ _ => id) fun _ _ fails => fails bearable)
    have tracks' := tracks.turn running price (honest i) inStart bearable
    have less := afterTurn_gas_le terms (turns i) i frame
    obtain ⟨all, rest⟩ := inductionHypothesis (by omega) running' tracks' (by omega) (by omega)
    exact ⟨⟨bearable, all⟩, by rw [afterTurns]; omega⟩

end

/-- The calls get what is not kept back. -/
theorem mul_fairLimitGas_le {notification : Notification} (data : Bytes) {world : World}
    (wellFormed : WellFormed world.manager)
    (upToLoop : notification.gasToRequire + notification.gasToLimit + finishingCostGas.toNat ≤
      notification.gas.toNat) :
    world.manager.subscriberAddrs.length * (termsOf notification data world).fairLimitGas.toNat +
      finishingCostGas.toNat ≤ gasAtLoop notification := by
  have small := notification.gas.toNat_lt
  have number := numSubscribers_toNat wellFormed
  have atLoop : (BitVec.ofNat 256 (gasAtLoop notification)).toNat = gasAtLoop notification := by
    rw [BitVec.toNat_ofNat, Nat.mod_eq_of_lt]
    simp only [gasAtLoop]
    omega
  have kept : finishingCostGas.toNat ≤ gasAtLoop notification := by
    simp only [gasAtLoop]
    omega
  have rest : (BitVec.ofNat 256 (gasAtLoop notification) - finishingCostGas).toNat =
      gasAtLoop notification - finishingCostGas.toNat := by
    rw [BitVec.toNat_sub_of_le (BitVec.le_def.mpr (kept.trans_eq atLoop.symm)), atLoop]
  have share : (termsOf notification data world).fairLimitGas.toNat =
      (gasAtLoop notification - finishingCostGas.toNat) / world.manager.subscriberAddrs.length := by
    rw [termsOf, BitVec.toNat_udiv, rest, number]
  have total := Nat.mul_div_le (gasAtLoop notification - finishingCostGas.toNat)
    world.manager.subscriberAddrs.length
  rw [← share] at total
  omega

theorem survives_of_suffices {notification : Notification} {data : Bytes} {world : World}
    (sound : Sound false world) (honest : ∀ i, Honest (notification.turns i))
    (enough : Suffices notification data world) : Survives notification data world := by
  have fair := mul_fairLimitGas_le data sound.wellFormed enough.upToLoop
  have kept := enough.kept
  have upToLoop := enough.upToLoop
  rw [Survives]
  split
  · omega
  · have atLoop : (loopStart notification world).gas = gasAtLoop notification := rfl
    have bound : (loopStart notification world).gas ≤ notification.gas.toNat := by
      rw [atLoop, gasAtLoop]
      omega
    obtain ⟨all, spent⟩ := allBearable_of_pays (termsOf_price notification data world) honest
      enough.hasCode enough.pays world.manager.subscriberAddrs.length (by omega)
      (running_loopStart notification sound.wellFormed sound.solvent) (tracks_loopStart notification _ world)
      bound (by omega)
    exact ⟨⟨upToLoop, all⟩, by rw [gasAfterLoop]; omega⟩

/-- A notification goes through if nobody can fail in it. -/
theorem completes_of_suffices {owner : Address} {world : World} (visits : Visits owner false world)
    {msg : Msg} {notification : Notification} {data : Bytes}
    (replies : ∀ i gas world, Reaches world ((notification.turns i).onNotify gas world).world)
    (publisher : world.manager.publisherMap msg.sender = true) (noValue : msg.value = 0)
    (supplies : SuppliesGas notification world) (enough : Suffices notification data world) :
    ∃ after, Succeeds msg (.notifySubscribers notification data) world after ∧
      Delivers notification data world after := by
  have sound := sound_of_visits visits
  have honest : ∀ i, Honest (notification.turns i) := fun i gas world =>
    advances_of_reaches (replies i gas world)
  have exact := perform_exact data sound honest publisher noValue supplies
  have survives := survives_of_suffices sound honest enough
  obtain ⟨_, frame, returned, _, delivers⟩ := (defined_notifySubscribers msg notification data).returns
    (exact.mono (fun _ _ => id) fun _ _ fails => fails survives)
  exact ⟨frame.world, ⟨frame, returned, rfl⟩, delivers⟩

open SampleContract in
example : ∃ after, Succeeds publish (.notifySubscribers (notification true) []) subscribed after ∧
    Delivers (notification true) [] subscribed after := by
  have enough : Suffices (notification true) [] subscribed := by
    refine { hasCode := fun _ => rfl, pays := fun addr known => ?_, kept := by decide, upToLoop := by decide }
    cases List.mem_singleton.mp known
    decide
  exact completes_of_suffices subscribed_visited (notification_honest true) rfl rfl (fun _ => by decide) enough

/-- A publisher's notification with the gas that the contract asks for goes through, and serves everybody,
    if and only if no turn fails and the gas suffices for the contract's own part. -/
theorem notify_completes_iff {owner : Address} {world : World} (visits : Visits owner false world)
    {msg : Msg} {notification : Notification} (data : Bytes)
    (replies : ∀ i gas world, Reaches world ((notification.turns i).onNotify gas world).world)
    (publisher : world.manager.publisherMap msg.sender = true) (noValue : msg.value = 0)
    (supplies : SuppliesGas notification world) :
    (∃ after, Succeeds msg (.notifySubscribers notification data) world after ∧
      Delivers notification data world after) ↔ Survives notification data world := by
  have sound := sound_of_visits visits
  have honest : ∀ i, Honest (notification.turns i) := fun i gas world =>
    advances_of_reaches (replies i gas world)
  have exact := perform_exact data sound honest publisher noValue supplies
  refine ⟨fun ⟨after, ⟨frame, returned, _⟩, _⟩ => (exact.of_ok returned).1, fun survives => ?_⟩
  obtain ⟨_, frame, returned, _, delivers⟩ := (defined_notifySubscribers msg notification data).returns
    (exact.mono (fun _ _ => id) fun _ _ fails => fails survives)
  exact ⟨frame.world, ⟨frame, returned, rfl⟩, delivers⟩

open SampleContract in
theorem notify_completes_iff_sample :
    (∃ after, Succeeds publish (.notifySubscribers (notification true) []) subscribed after ∧
      Delivers (notification true) [] subscribed after) ↔ Survives (notification true) [] subscribed :=
  notify_completes_iff subscribed_visited [] (notification_honest true) rfl rfl fun _ => by decide

open SampleContract in
/-- A subscriber without code stops the publisher. -/
theorem notify_stopped :
    Visits publisher false subscribed ∧ subscribed.manager.publisherMap publish.sender = true ∧
      SuppliesGas (notification false) subscribed ∧
      ¬ ∃ after, Succeeds publish (.notifySubscribers (notification false) []) subscribed after := by
  have throws : (enteredBy (execute publish (.notifySubscribers (notification false) [])
      subscribed)).isNone = true := by
    decide +kernel
  refine ⟨subscribed_visited, rfl, fun _ => by decide, fun ⟨after, frame, returned, _⟩ => ?_⟩
  simp [returned, enteredBy] at throws

end EventManager

end Decentagram.PubSub
