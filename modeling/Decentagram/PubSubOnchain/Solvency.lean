import Decentagram.Lib.Ledger
import Decentagram.PubSubOnchain.EventManager

/-! # Solvency

The contract owns at least the ether that it owes its subscribers, in every state in which other code can
run.  The invariant of the loop adds what is taken from the subscribers but not yet paid out.
-/

namespace Decentagram.PubSub

open Decentagram.Lib

namespace Effect

def costWei : Effect → Option Uint256
  | debited _ costWei _ => some costWei
  | _ => none

def payment : Effect → Option (Address × Uint256)
  | paid receiver amountWei => some (receiver, amountWei)
  | _ => none

end Effect

/-- The sum of the debits. -/
def debitedWei (effects : List Effect) : Nat := ((effects.filterMap Effect.costWei).map BitVec.toNat).sum

def payments (effects : List Effect) : List (Address × Uint256) := effects.filterMap Effect.payment

@[simp] theorem debitedWei_append (earlier later : List Effect) :
    debitedWei (earlier ++ later) = debitedWei earlier + debitedWei later := by
  simp [debitedWei]

@[simp] theorem payments_append (earlier later : List Effect) :
    payments (earlier ++ later) = payments earlier ++ payments later := by
  simp [payments]

@[simp] theorem debitedWei_singleton (effect : Effect) :
    debitedWei [effect] = (effect.costWei.map BitVec.toNat).getD 0 := by
  cases cost : effect.costWei <;> simp [debitedWei, cost]

@[simp] theorem payments_singleton (effect : Effect) : payments [effect] = effect.payment.toList := by
  cases payment : effect.payment <;> simp [payments, payment]

namespace EventManager

/-! ## The accounts -/

/-- The sum of the recorded balances. -/
def recorded (manager : EventManager) : Nat :=
  Ledger.total (fun subscriber : MappedSubscriber => subscriber.balanceWei.toNat) manager.subscriberAddrs
    manager.subscriberMap

/-- The array lists the subscribers of the map, each once. -/
structure WellFormed (manager : EventManager) : Prop where
  nodup : manager.subscriberAddrs.Nodup
  listed : ∀ addr, addr ∈ manager.subscriberAddrs ↔ (manager.subscriberMap addr).init = true

variable {manager : EventManager} {addr : Address}

theorem WellFormed.setSubscriber (wellFormed : WellFormed manager) (known : addr ∈ manager.subscriberAddrs)
    {subscriber : MappedSubscriber} (init : subscriber.init = true) :
    WellFormed (manager.setSubscriber addr subscriber) where
  nodup := wellFormed.nodup
  listed other := by
    by_cases same : other = addr
    · subst same
      simpa [EventManager.setSubscriber, init] using known
    · simpa [EventManager.setSubscriber, same] using wellFormed.listed other

theorem recorded_setSubscriber (wellFormed : WellFormed manager) (known : addr ∈ manager.subscriberAddrs)
    (subscriber : MappedSubscriber) :
    recorded (manager.setSubscriber addr subscriber) +
        (manager.subscriberMap addr).balanceWei.toNat =
      recorded manager + subscriber.balanceWei.toNat :=
  Ledger.total_update known wellFormed.nodup

/-- A subscriber at the end of the list. -/
def opened (addr : Address) (value : Uint256) (manager : EventManager) : EventManager :=
  { manager with
    subscriberAddrs := manager.subscriberAddrs ++ [addr]
    subscriberMap := Function.update manager.subscriberMap addr { init := true, balanceWei := value } }

theorem WellFormed.opened (wellFormed : WellFormed manager) (new : addr ∉ manager.subscriberAddrs)
    (value : Uint256) : WellFormed (manager.opened addr value) where
  nodup := by
    have nodup := List.Nodup.concat new wellFormed.nodup
    rwa [List.concat_eq_append] at nodup
  listed other := by
    by_cases same : other = addr
    · subst same
      simp [EventManager.opened]
    · simpa [EventManager.opened, same] using wellFormed.listed other

theorem recorded_opened (new : addr ∉ manager.subscriberAddrs) (value : Uint256) :
    recorded (manager.opened addr value) = recorded manager + value.toNat := by
  simp only [recorded, opened, Ledger.total_concat, Ledger.total_update_of_notMem new,
    Function.update_self]

/-! ## What other code can do -/

/-- What activity of other code leaves of a world.  During a notification it only adds to the balances. -/
structure Advances (before after : World) : Prop where
  wellFormed : WellFormed after.manager
  surplus : before.balance.toNat + recorded after.manager ≤
    after.balance.toNat + recorded before.manager
  lock : after.manager.entranceLock = before.manager.entranceLock
  addrs : before.manager.subscriberAddrs <+: after.manager.subscriberAddrs
  effects : before.manager.entranceLock = true → after.effects = before.effects
  balances : before.manager.entranceLock = true → ∀ addr ∈ before.manager.subscriberAddrs,
    (before.manager.subscriberMap addr).balanceWei ≤ (after.manager.subscriberMap addr).balanceWei

theorem Advances.refl {world : World} (wellFormed : WellFormed world.manager) : Advances world world where
  wellFormed
  surplus := le_rfl
  lock := rfl
  addrs := List.prefix_rfl
  effects _ := rfl
  balances _ _ _ := BitVec.le_refl _

theorem Advances.trans {before middle after : World} (first : Advances before middle)
    (rest : Advances middle after) : Advances before after where
  wellFormed := rest.wellFormed
  surplus := by
    have := first.surplus
    have := rest.surplus
    omega
  lock := rest.lock.trans first.lock
  addrs := first.addrs.trans rest.addrs
  effects locked := (rest.effects (first.lock.trans locked)).trans (first.effects locked)
  balances locked addr known := BitVec.le_trans (first.balances locked addr known)
    (rest.balances (first.lock.trans locked) addr (first.addrs.subset known))

theorem Advances.deposit {world : World} (wellFormed : WellFormed world.manager)
    (known : addr ∈ world.manager.subscriberAddrs) {value balance balanceWei : Uint256}
    (received : balance.toNat = world.balance.toNat + value.toNat)
    (added : balanceWei.toNat = (world.manager.subscriberMap addr).balanceWei.toNat + value.toNat) :
    Advances world { world with
      manager := world.manager.setSubscriber addr { world.manager.subscriberMap addr with balanceWei }
      balance } where
  wellFormed := wellFormed.setSubscriber known ((wellFormed.listed addr).mp known)
  surplus := by
    have := recorded_setSubscriber wellFormed known
      { world.manager.subscriberMap addr with balanceWei }
    simp only at this ⊢
    omega
  lock := rfl
  addrs := List.prefix_rfl
  effects _ := rfl
  balances _ other _ := by
    by_cases same : other = addr
    · subst same
      simp only [EventManager.setSubscriber, Function.update_self, BitVec.le_def]
      omega
    · simp [EventManager.setSubscriber, same]

theorem Advances.opened {world : World} (wellFormed : WellFormed world.manager)
    (new : addr ∉ world.manager.subscriberAddrs) {value balance : Uint256}
    (received : balance.toNat = world.balance.toNat + value.toNat) :
    Advances world { world with manager := world.manager.opened addr value, balance } where
  wellFormed := wellFormed.opened new value
  surplus := by
    have := recorded_opened new value
    simp only
    omega
  lock := rfl
  addrs := List.prefix_append _ _
  effects _ := rfl
  balances _ other known := by
    have different : other ≠ addr := fun same => new (same ▸ known)
    simp [EventManager.opened, different]

/-- What leaves the accounts and the lock alone. -/
theorem Advances.of_same {before after : World} (wellFormed : WellFormed before.manager)
    (addrs : after.manager.subscriberAddrs = before.manager.subscriberAddrs)
    (map : after.manager.subscriberMap = before.manager.subscriberMap)
    (lock : after.manager.entranceLock = before.manager.entranceLock)
    (balance : before.balance.toNat ≤ after.balance.toNat) (effects : after.effects = before.effects) :
    Advances before after where
  wellFormed := ⟨addrs ▸ wellFormed.nodup, addrs ▸ map ▸ wellFormed.listed⟩
  surplus := by
    rw [recorded, recorded, addrs, map]
    omega
  lock
  addrs := addrs ▸ List.prefix_rfl
  effects _ := effects
  balances _ _ _ := map ▸ BitVec.le_refl _

theorem addSubscriber_advances {before : Frame} (wellFormed : WellFormed before.world.manager)
    (msg : Msg) (subscriberAddr : Address) :
    Exec.Sat (do receive msg.value; addSubscriber msg subscriberAddr) before
      (fun _ after => Advances before.world after.world ∧ after.entered = before.entered)
      (fun _ after => after.entered = before.entered) := by
  simp only [receive, addSubscriber, Exec.sat_bind, Exec.sat_get, Exec.sat_ofOption, sat_onWorld,
    sat_require, sat_onManager]
  refine ⟨fun balance received => ⟨fun _ => trivial, fun new => ⟨fun _ => trivial, fun _ => ?_⟩⟩,
    fun _ => trivial⟩
  have unknown : subscriberAddr ∉ before.world.manager.subscriberAddrs :=
    fun known => new ((wellFormed.listed subscriberAddr).mp known)
  exact ⟨.opened wellFormed unknown (Checked.add_eq_some_iff.mp received), trivial⟩

theorem subscriberAddBalance_advances {before : Frame} (wellFormed : WellFormed before.world.manager)
    (msg : Msg) (subscriber : Address) :
    Exec.Sat (do receive msg.value; subscriberAddBalance msg subscriber) before
      (fun _ after => Advances before.world after.world ∧ after.entered = before.entered)
      (fun _ after => after.entered = before.entered) := by
  simp only [receive, subscriberAddBalance, Exec.sat_bind, Exec.sat_get, Exec.sat_ofOption, sat_onWorld,
    sat_require, sat_checked, sat_onManager]
  refine ⟨fun balance received => ⟨fun _ => trivial, fun init => ⟨fun balanceWei added => ?_,
    fun _ => trivial⟩⟩, fun _ => trivial⟩
  have known := (wellFormed.listed subscriber).mpr init
  exact ⟨.deposit wellFormed known (Checked.add_eq_some_iff.mp received)
    (Checked.add_eq_some_iff.mp added), trivial⟩

theorem byOwner_advances {before : Frame} (wellFormed : WellFormed before.world.manager) (msg : Msg)
    (text : String) {change : EventManager → EventManager}
    (same : ∀ manager, (change manager).subscriberAddrs = manager.subscriberAddrs ∧
      (change manager).subscriberMap = manager.subscriberMap ∧
      (change manager).entranceLock = manager.entranceLock) :
    Exec.Sat (do nonPayable msg; byOwner msg text change) before
      (fun _ after => Advances before.world after.world ∧ after.entered = before.entered)
      (fun _ after => after.entered = before.entered) := by
  simp only [nonPayable, byOwner, Exec.sat_bind, Exec.sat_get, sat_require, sat_onManager]
  obtain ⟨addrs, map, lock⟩ := same before.world.manager
  exact ⟨fun _ => trivial, fun _ => ⟨fun _ => trivial, fun _ =>
    ⟨.of_same wellFormed addrs map lock le_rfl rfl, trivial⟩⟩⟩

/-! ## The loop -/

/-- A state in which the code of a subscriber starts. -/
structure Inside (start world : World) : Prop where
  wellFormed : WellFormed world.manager
  locked : world.manager.entranceLock = true
  surplus : start.balance.toNat + recorded world.manager ≤ world.balance.toNat + recorded start.manager

/-- Between two turns: `compensateWei` was taken from the subscribers and not yet paid. -/
structure InLoop (start : World) (compensateWei : Uint256) (frame : Frame) : Prop where
  wellFormed : WellFormed frame.world.manager
  locked : frame.world.manager.entranceLock = true
  addrs : start.manager.subscriberAddrs <+: frame.world.manager.subscriberAddrs
  surplus : start.balance.toNat + recorded frame.world.manager + compensateWei.toNat ≤
    frame.world.balance.toNat + recorded start.manager
  effects : ∃ news, frame.world.effects = start.effects ++ news ∧
    debitedWei news = compensateWei.toNat ∧ payments news = []
  entered : ∀ world ∈ frame.entered, Inside start world

theorem InLoop.inside {start : World} {compensateWei : Uint256} {frame : Frame}
    (inLoop : InLoop start compensateWei frame) : Inside start frame.world where
  wellFormed := inLoop.wellFormed
  locked := inLoop.locked
  surplus := by
    have := inLoop.surplus
    omega

/-- Spending gas and calling change nothing that the invariant speaks of. -/
theorem InLoop.spend {start : World} {compensateWei : Uint256} {frame : Frame}
    (inLoop : InLoop start compensateWei frame) (gas : Nat) :
    InLoop start compensateWei { frame with gas } :=
  ⟨inLoop.wellFormed, inLoop.locked, inLoop.addrs, inLoop.surplus, inLoop.effects, inLoop.entered⟩

theorem InLoop.emit {start : World} {compensateWei : Uint256} {frame : Frame}
    (inLoop : InLoop start compensateWei frame) (effect : Effect) (noCost : effect.costWei = none)
    (noPayment : effect.payment = none) :
    InLoop start compensateWei { frame with
      world := { frame.world with effects := frame.world.effects ++ [effect] } } where
  wellFormed := inLoop.wellFormed
  locked := inLoop.locked
  addrs := inLoop.addrs
  surplus := inLoop.surplus
  entered := inLoop.entered
  effects := by
    obtain ⟨news, same, sum, none⟩ := inLoop.effects
    refine ⟨news ++ [effect], by simp [same], ?_, ?_⟩
    · simp [sum, noCost]
    · simp [none, noPayment]

/-- The subscriber's code, which starts in a state that is recorded. -/
theorem InLoop.call {start : World} {compensateWei : Uint256} {frame : Frame}
    (inLoop : InLoop start compensateWei frame) {world : World} (advances : Advances frame.world world)
    (gas : Nat) :
    InLoop start compensateWei { world, gas, entered := frame.entered ++ [frame.world] } where
  wellFormed := advances.wellFormed
  locked := advances.lock.trans inLoop.locked
  addrs := inLoop.addrs.trans advances.addrs
  surplus := by
    have := inLoop.surplus
    have := advances.surplus
    simp only
    omega
  effects := by
    rw [advances.effects inLoop.locked]
    exact inLoop.effects
  entered inside member := by
    rcases List.mem_append.mp member with earlier | last
    · exact inLoop.entered inside earlier
    · rw [List.mem_singleton.mp last]
      exact inLoop.inside

/-- What is assumed of the code of a subscriber. -/
def Honest (turn : Turn) : Prop :=
  ∀ gas world, WellFormed world.manager → Advances world (turn.onNotify gas world).world

theorem Honest.answer {turn : Turn} (honest : Honest turn) (callGas : Nat) {world : World}
    (wellFormed : WellFormed world.manager) : Advances world (turn.answer callGas world).world := by
  simp only [Turn.answer]
  split
  · exact honest _ _ wellFormed
  · exact .refl wellFormed

theorem tryOnNotify_sat {start : World} {compensateWei : Uint256} {before : Frame}
    (inLoop : InLoop start compensateWei before) (data : Bytes) (subscriberAddr : Address)
    (limitGas : Uint256) {turn : Turn} (honest : Honest turn) :
    Exec.Sat (tryOnNotify data subscriberAddr limitGas turn) before
      (fun _ after => InLoop start compensateWei after ∧
        before.world.manager.subscriberAddrs <+: after.world.manager.subscriberAddrs)
      (fun _ after => ∀ world ∈ after.entered, Inside start world) := by
  simp only [tryOnNotify, Exec.sat_bind, Exec.sat_get, Exec.sat_throwIf, Exec.sat_modify, Exec.sat_pure,
    sat_spend, sat_emit]
  refine ⟨fun _ => inLoop.entered, fun _ => ⟨fun _ => inLoop.entered, fun _ => ?_⟩⟩
  have called := (inLoop.spend (before.gas - turn.gasToCall)).emit
    (.called subscriberAddr limitGas data) rfl rfl
  have advances := honest.answer (callGas limitGas (before.gas - turn.gasToCall)) called.wellFormed
  exact ⟨called.call advances _, advances.addrs⟩

/-- The debit, and the same amount more that is to be paid. -/
theorem InLoop.debit {start : World} {compensateWei compensateWei' costWei balanceWei : Uint256}
    {frame : Frame} (inLoop : InLoop start compensateWei frame)
    (known : addr ∈ frame.world.manager.subscriberAddrs)
    (sum : compensateWei'.toNat = compensateWei.toNat + costWei.toNat)
    (rest : (frame.world.manager.subscriberMap addr).balanceWei.toNat =
      costWei.toNat + balanceWei.toNat) :
    InLoop start compensateWei' { frame with
      world := { frame.world with
        manager := frame.world.manager.setSubscriber addr
          { frame.world.manager.subscriberMap addr with balanceWei }
        effects := frame.world.effects ++
          [.debited addr costWei (frame.world.manager.subscriberMap addr).balanceWei] } } where
  wellFormed := inLoop.wellFormed.setSubscriber known ((inLoop.wellFormed.listed addr).mp known)
  locked := inLoop.locked
  addrs := inLoop.addrs
  surplus := by
    have := recorded_setSubscriber inLoop.wellFormed known
      { frame.world.manager.subscriberMap addr with balanceWei }
    have := inLoop.surplus
    simp only at *
    omega
  effects := by
    obtain ⟨news, same, taken, none⟩ := inLoop.effects
    let debited : Effect := .debited addr costWei (frame.world.manager.subscriberMap addr).balanceWei
    refine ⟨news ++ [debited], by rw [same, List.append_assoc], ?_, ?_⟩
    · simp [debited, taken, sum, Effect.costWei]
    · simp [debited, none, Effect.payment]
  entered := inLoop.entered

theorem settle_sat {start : World} {compensateWei : Uint256} {before : Frame}
    (inLoop : InLoop start compensateWei before) (terms : Terms)
    (known : addr ∈ before.world.manager.subscriberAddrs) (turn : Turn) (startGas : Uint256)
    (succeeds : Bool) :
    Exec.Sat (settle terms addr turn startGas succeeds compensateWei) before
      (fun compensateWei' after => InLoop start compensateWei' after)
      (fun _ after => ∀ world ∈ after.entered, Inside start world) := by
  have entered := inLoop.entered
  simp only [settle, debit, Exec.sat_bind, Exec.sat_get, Exec.sat_pure, sat_checked, sat_spend, sat_gasleft,
    sat_onManager, sat_emit]
  refine ⟨fun _ => entered, fun _ => ⟨fun usedGas _ => ⟨fun costWei _ => ⟨fun compensateWei' sum =>
    ⟨fun balanceWei rest => ⟨fun _ => entered, fun _ => ?_⟩, fun _ => entered⟩, fun _ => entered⟩,
    fun _ => entered⟩, fun _ => entered⟩⟩
  exact ((inLoop.spend _).debit known (Checked.add_eq_some_iff.mp sum)
    (Checked.sub_eq_some_iff.mp rest)).spend _

theorem notifyOne_sat {start : World} {compensateWei : Uint256} {before : Frame}
    (inLoop : InLoop start compensateWei before) (terms : Terms)
    (known : addr ∈ before.world.manager.subscriberAddrs) (balanceWei : Uint256) {turn : Turn}
    (honest : Honest turn) :
    Exec.Sat (notifyOne terms addr balanceWei turn compensateWei) before
      (fun compensateWei' after => InLoop start compensateWei' after)
      (fun _ after => ∀ world ∈ after.entered, Inside start world) := by
  simp only [notifyOne, Exec.sat_bind, sat_checked, sat_spend, sat_gasleft]
  refine ⟨fun limitGas _ => ⟨fun _ => inLoop.entered, fun _ => ?_⟩, fun _ => inLoop.entered⟩
  refine (tryOnNotify_sat (inLoop.spend _) terms.data addr limitGas honest).mono
    (fun succeeds middle called => ?_) fun _ _ => id
  exact settle_sat called.1 terms (called.2.subset known) turn _ succeeds

theorem loopBody_sat {start : World} {compensateWei : Uint256} {before : Frame}
    (inLoop : InLoop start compensateWei before) (terms : Terms) {turn : Turn} (honest : Honest turn)
    (i : Nat) :
    Exec.Sat (loopBody terms turn i compensateWei) before
      (fun compensateWei' after => InLoop start compensateWei' after)
      (fun _ after => ∀ world ∈ after.entered, Inside start world) := by
  simp only [loopBody, Exec.sat_bind, Exec.sat_get, Exec.sat_ite, Exec.sat_pure, sat_checked, sat_spend]
  refine ⟨fun _ => inLoop.entered, fun _ => ⟨fun subscriberAddr found => ⟨fun _ => ?_, fun _ =>
    inLoop.spend _⟩, fun _ => inLoop.entered⟩⟩
  exact notifyOne_sat (inLoop.spend (before.gas - turn.gasToCondition)) terms
    (List.mem_of_getElem? found) _ honest

/-- The induction on the turns that are left. -/
theorem loop_sat {start : World} (terms : Terms) {turns : Nat → Turn}
    (honest : ∀ i, Honest (turns i)) (left : Nat) {i : Nat} {compensateWei : Uint256} {before : Frame}
    (inLoop : InLoop start compensateWei before) :
    Exec.Sat (loop terms turns left i compensateWei) before
      (fun compensateWei' after => InLoop start compensateWei' after)
      (fun _ after => ∀ world ∈ after.entered, Inside start world) := by
  induction left generalizing i compensateWei before with
  | zero => exact inLoop
  | succ left inductionHypothesis =>
    rw [loop, Exec.sat_bind]
    exact (loopBody_sat inLoop terms (honest i) i).mono (fun _ _ => inductionHypothesis) fun _ _ => id

/-! ## The calls -/

/-- The origin is paid what the subscribers are debited. -/
def PaysDebits (origin : Address) (before after : World) : Prop :=
  ∃ news, after.effects = before.effects ++ news ∧ (∀ payment ∈ payments news, payment.1 = origin) ∧
    ((payments news).map fun payment => payment.2.toNat).sum = debitedWei news

/-- After the payment. -/
structure Compensated (start : World) (origin : Address) (frame : Frame) : Prop extends
    Inside start frame.world where
  addrs : start.manager.subscriberAddrs <+: frame.world.manager.subscriberAddrs
  pays : PaysDebits origin start frame.world
  entered : ∀ world ∈ frame.entered, Inside start world

theorem prepareTerms_sat (notification : Notification) (data : Bytes) (before : Frame) :
    Exec.Sat (prepareTerms notification data) before
      (fun _ after => ∃ gas, after = { before with gas })
      (fun _ after => ∃ gas, after = { before with gas }) := by
  simp only [prepareTerms, Exec.sat_bind, Exec.sat_get, Exec.sat_pure, sat_checked, sat_spend, sat_gasleft,
    sat_require]
  exact ⟨fun _ _ => ⟨fun _ => ⟨_, rfl⟩, fun _ => ⟨fun _ _ => ⟨fun _ => ⟨_, rfl⟩, fun _ => ⟨fun _ => ⟨_, rfl⟩,
    fun _ => ⟨fun _ _ => ⟨_, rfl⟩, fun _ => ⟨_, rfl⟩⟩⟩⟩, fun _ => ⟨_, rfl⟩⟩⟩, fun _ => ⟨_, rfl⟩⟩

theorem InLoop.pay {start : World} {compensateWei balance : Uint256} {frame : Frame}
    (inLoop : InLoop start compensateWei frame) (origin : Address)
    (rest : frame.world.balance.toNat = compensateWei.toNat + balance.toNat) :
    Compensated start origin { frame with
      world := { frame.world with
        balance
        effects := frame.world.effects ++ [.paid origin compensateWei] } } where
  wellFormed := inLoop.wellFormed
  locked := inLoop.locked
  surplus := by
    have := inLoop.surplus
    simp only
    omega
  addrs := inLoop.addrs
  pays := by
    obtain ⟨news, same, sum, none⟩ := inLoop.effects
    refine ⟨news ++ [.paid origin compensateWei], by rw [same, List.append_assoc], ?_, ?_⟩
    · simp [none, Effect.payment]
    · simp [none, sum, Effect.payment, Effect.costWei]
  entered := inLoop.entered

theorem notifyOnChainSubscribers_sat {start : World} {before : Frame} (inLoop : InLoop start 0 before)
    (notification : Notification) (data : Bytes) (honest : ∀ i, Honest (notification.turns i)) :
    Exec.Sat (notifyOnChainSubscribers notification data) before
      (fun _ after => Compensated start notification.tx.origin after)
      (fun _ after => ∀ world ∈ after.entered, Inside start world) := by
  simp only [notifyOnChainSubscribers, transfer, Exec.sat_bind, Exec.sat_get, Exec.sat_ofOption, sat_spend,
    sat_onWorld, sat_emit]
  refine (prepareTerms_sat notification data before).mono (fun terms prepared onlyGas => ?_)
    fun _ _ onlyGas => ?_
  · obtain ⟨gas, rfl⟩ := onlyGas
    refine (loop_sat terms honest _ (inLoop.spend gas)).mono (fun compensateWei after looped => ?_)
      fun _ _ => id
    refine ⟨fun _ => looped.entered, fun _ => ⟨fun balance rest => ?_, fun _ => looped.entered⟩⟩
    exact (looped.spend (after.gas - notification.gasToTransfer)).pay _ (Checked.sub_eq_some_iff.mp rest)
  · obtain ⟨gas, rfl⟩ := onlyGas
    exact inLoop.entered

/-- The loop starts behind the lock. -/
theorem inLoop_start {before : Frame} (wellFormed : WellFormed before.world.manager)
    (fresh : before.entered = []) :
    InLoop before.world 0 { before with world := { before.world with
      manager := { before.world.manager with entranceLock := true } } } where
  wellFormed := ⟨wellFormed.nodup, wellFormed.listed⟩
  locked := rfl
  addrs := List.prefix_rfl
  surplus := le_rfl
  effects := ⟨[], by simp [debitedWei, payments]⟩
  entered := by simp [fresh]

theorem notifySubscribers_sat {before : Frame} (wellFormed : WellFormed before.world.manager)
    (fresh : before.entered = []) (msg : Msg) (notification : Notification) (data : Bytes)
    (honest : ∀ i, Honest (notification.turns i)) :
    Exec.Sat (notifySubscribers msg notification data) before
      (fun _ after => Advances before.world after.world ∧
        PaysDebits notification.tx.origin before.world after.world ∧
        ∀ world ∈ after.entered, Inside before.world world)
      (fun _ after => ∀ world ∈ after.entered, Inside before.world world) := by
  have nothing : ∀ world ∈ before.entered, Inside before.world world := by simp [fresh]
  simp only [notifySubscribers, Exec.sat_bind, Exec.sat_get, Exec.sat_ite, sat_require, sat_onManager,
    sat_spend, sat_emit]
  refine ⟨fun _ => nothing, fun unlocked => ⟨fun _ => nothing, fun _ => ⟨fun _ => ?_, fun _ => ?_⟩⟩⟩
  · have inLoop := inLoop_start wellFormed fresh
    refine (notifyOnChainSubscribers_sat inLoop notification data honest).mono
      (fun _ after compensated => ⟨fun _ => compensated.entered, fun _ => ⟨?_, ?_, compensated.entered⟩⟩)
      fun _ _ => id
    · exact {
        wellFormed := ⟨compensated.wellFormed.nodup, compensated.wellFormed.listed⟩
        surplus := compensated.surplus
        lock := by simpa using unlocked
        addrs := compensated.addrs
        effects := fun locked => (unlocked locked).elim
        balances := fun locked => (unlocked locked).elim }
    · obtain ⟨news, same, payers, sum⟩ := compensated.pays
      refine ⟨news ++ [.notifySubscribers data], by simp [same], ?_, ?_⟩
      · simpa [Effect.payment] using payers
      · simpa [Effect.payment, Effect.costWei] using sum
  · refine ⟨fun _ => nothing, fun _ => ⟨?_, ?_, nothing⟩⟩
    · exact {
        wellFormed := ⟨wellFormed.nodup, wellFormed.listed⟩
        surplus := le_rfl
        lock := by simpa using unlocked
        addrs := List.prefix_rfl
        effects := fun locked => (unlocked locked).elim
        balances := fun locked => (unlocked locked).elim }
    · exact ⟨[.notifySubscribers data], rfl, by simp [Effect.payment],
        by simp [Effect.payment, Effect.costWei]⟩

/-- A call advances the world, and control leaves it only in solvent states. -/
theorem perform_sat (before : Frame) (wellFormed : WellFormed before.world.manager)
    (fresh : before.entered = []) (msg : Msg) {call : Call}
    (honest : ∀ i gas world, WellFormed world.manager → Advances world (call.onNotify i gas world)) :
    Exec.Sat (perform msg call) before
      (fun _ after => Advances before.world after.world ∧
        ∀ world ∈ after.entered, Inside before.world world)
      (fun _ after => ∀ world ∈ after.entered, Inside before.world world) := by
  have nowhere : ∀ {after : Frame}, after.entered = before.entered →
      ∀ world ∈ after.entered, Inside before.world world := by
    intro after same
    simp [same, fresh]
  have lift : ∀ {code : Contract Unit}, Exec.Sat code before
        (fun _ after => Advances before.world after.world ∧ after.entered = before.entered)
        (fun _ after => after.entered = before.entered) →
      Exec.Sat code before
        (fun _ after => Advances before.world after.world ∧
          ∀ world ∈ after.entered, Inside before.world world)
        (fun _ after => ∀ world ∈ after.entered, Inside before.world world) :=
    fun sat => sat.mono (fun _ _ done => ⟨done.1, nowhere done.2⟩) fun _ _ => nowhere
  cases call with
  | addSubscriber subscriberAddr => exact lift (addSubscriber_advances wellFormed msg subscriberAddr)
  | subscriberAddBalance subscriber =>
    exact lift (subscriberAddBalance_advances wellFormed msg subscriber)
  | updateIncentive incentive =>
    exact lift (byOwner_advances wellFormed msg _ fun _ => ⟨rfl, rfl, rfl⟩)
  | addPublisher publisherAddr =>
    exact lift (byOwner_advances wellFormed msg _ fun _ => ⟨rfl, rfl, rfl⟩)
  | setPerSubscriberLimitGas limitGas =>
    exact lift (byOwner_advances wellFormed msg _ fun _ => ⟨rfl, rfl, rfl⟩)
  | notifySubscribers notification data =>
    simp only [perform, nonPayable, Exec.sat_bind, sat_require]
    refine ⟨fun _ => nowhere rfl, fun _ => ?_⟩
    exact (notifySubscribers_sat wellFormed fresh msg notification data honest).mono
      (fun _ _ done => ⟨done.1, done.2.2⟩) fun _ _ => id

/-! ## Whose ether the payment is -/

/-- The code of a subscriber that is called leaves the ether of the contract as it is. -/
def Quiet (turn : Turn) : Prop := ∀ gas world, (turn.onNotify gas world).world.balance = world.balance

theorem Quiet.answer {turn : Turn} (quiet : Quiet turn) (callGas : Nat) (world : World) :
    (turn.answer callGas world).world.balance = world.balance := by
  rw [Turn.answer]
  dsimp only
  split
  · exact quiet callGas world
  · rfl

/-- Where no other ether comes in, the contract pays what it debits from its own. -/
def PaysFromBalance (origin : Address) (before after : World) : Prop :=
  ∃ news, after.effects = before.effects ++ news ∧ (∀ payment ∈ payments news, payment.1 = origin) ∧
    before.balance.toNat = after.balance.toNat + debitedWei news

theorem loopBody_balance {before : Frame} (terms : Terms) {turn : Turn} (quiet : Quiet turn) (i : Nat)
    (compensateWei : Uint256) :
    Exec.Sat (loopBody terms turn i compensateWei) before
      (fun _ after => after.world.balance = before.world.balance) fun _ _ => True := by
  simp only [loopBody, notifyOne, tryOnNotify, settle, debit, Exec.sat_bind, Exec.sat_get, Exec.sat_ite,
    Exec.sat_pure, Exec.sat_throwIf, Exec.sat_modify, sat_checked, sat_spend, sat_gasleft, sat_onManager,
    sat_emit, implies_true, and_true, true_and, quiet.answer]

theorem loop_balance (terms : Terms) {turns : Nat → Turn} (quiet : ∀ i, Quiet (turns i)) (left : Nat)
    {i : Nat} {compensateWei : Uint256} {before : Frame} :
    Exec.Sat (loop terms turns left i compensateWei) before
      (fun _ after => after.world.balance = before.world.balance) fun _ _ => True := by
  induction left generalizing i compensateWei before with
  | zero => exact rfl
  | succ left inductionHypothesis =>
    rw [loop, Exec.sat_bind]
    refine (loopBody_balance terms (quiet i) i compensateWei).mono (fun _ middle same => ?_) fun _ _ => id
    refine inductionHypothesis.mono (fun _ after same' => ?_) fun _ _ => id
    rw [same', same]

theorem notifyOnChainSubscribers_paid {start : World} {before : Frame} (inLoop : InLoop start 0 before)
    (same : before.world.balance = start.balance) {notification : Notification} (data : Bytes)
    (honest : ∀ i, Honest (notification.turns i)) (quiet : ∀ i, Quiet (notification.turns i)) :
    Exec.Sat (notifyOnChainSubscribers notification data) before
      (fun _ after => PaysFromBalance notification.tx.origin start after.world) fun _ _ => True := by
  simp only [notifyOnChainSubscribers, transfer, Exec.sat_bind, Exec.sat_get, Exec.sat_ofOption, sat_spend,
    sat_onWorld, sat_emit]
  refine (prepareTerms_sat notification data before).mono (fun terms _ prepared => ?_) fun _ _ _ => trivial
  obtain ⟨gas, rfl⟩ := prepared
  refine ((loop_sat terms honest _ (inLoop.spend gas)).and (loop_balance terms quiet _)).mono
    (fun compensateWei after looped => ?_) fun _ _ _ => trivial
  obtain ⟨inLoop', kept⟩ := looped
  refine ⟨fun _ => trivial, fun _ => ⟨fun balance rest => ?_, fun _ => trivial⟩⟩
  obtain ⟨news, isNews, sum, none⟩ := inLoop'.effects
  refine ⟨news ++ [.paid notification.tx.origin compensateWei], by simp [isNews], ?_, ?_⟩
  · simp [none, Effect.payment]
  · have paid := Checked.sub_eq_some_iff.mp rest
    rw [kept, same] at paid
    simp only [debitedWei_append, debitedWei_singleton, Effect.costWei, Option.map_none, Option.getD_none, sum]
    omega

theorem notifySubscribers_paid {before : Frame} (wellFormed : WellFormed before.world.manager)
    (fresh : before.entered = []) (msg : Msg) {notification : Notification} (data : Bytes)
    (honest : ∀ i, Honest (notification.turns i)) (quiet : ∀ i, Quiet (notification.turns i)) :
    Exec.Sat (notifySubscribers msg notification data) before
      (fun _ after => PaysFromBalance notification.tx.origin before.world after.world) fun _ _ => True := by
  simp only [notifySubscribers, Exec.sat_bind, Exec.sat_get, Exec.sat_ite, sat_require, sat_onManager,
    sat_spend, sat_emit, implies_true, true_and]
  refine fun _ _ => ⟨fun _ => ?_, fun _ _ => ?_⟩
  · refine (notifyOnChainSubscribers_paid (inLoop_start wellFormed fresh) rfl data honest quiet).mono
      (fun _ after paid _ => ?_) fun _ _ _ => trivial
    obtain ⟨news, isNews, payers, paid⟩ := paid
    refine ⟨news ++ [.notifySubscribers data], by simp [isNews], ?_, ?_⟩
    · simpa [Effect.payment] using payers
    · simpa [Effect.costWei] using paid
  · exact ⟨[.notifySubscribers data], rfl, by simp [Effect.payment], by simp [Effect.costWei]⟩

/-! ## Runs -/

/-- The induction on what other code does, through the subscribers that are called on the way. -/
theorem advances_of_reaches {start final : World} (reaches : Reaches start final)
    (wellFormed : WellFormed start.manager) : Advances start final := by
  induction reaches with
  | refl => exact .refl wellFormed
  | @call start before after msg call _ _ succeeds toBefore honest =>
    have earlier := toBefore wellFormed
    obtain ⟨frame, returned, rfl⟩ := succeeds
    have performed := perform_sat { world := before, gas := call.gas, entered := [] }
      earlier.wellFormed rfl msg fun i gas world => honest i gas world
    exact earlier.trans (performed.of_ok returned).1
  | @force start before value balance _ received toBefore =>
    have earlier := toBefore wellFormed
    have := Checked.add_eq_some_iff.mp received
    exact earlier.trans (.of_same earlier.wellFormed rfl rfl rfl (by simp only; omega) rfl)

theorem honest_of_reaches {call : Call}
    (replies : ∀ i gas world, Reaches world (call.onNotify i gas world)) (i gas : Nat) (world : World)
    (wellFormed : WellFormed world.manager) : Advances world (call.onNotify i gas world) :=
  advances_of_reaches (replies i gas world) wellFormed

/-- What holds wherever other code can run. -/
structure Sound (inside : Bool) (world : World) : Prop where
  wellFormed : WellFormed world.manager
  solvent : recorded world.manager ≤ world.balance.toNat
  lock : world.manager.entranceLock = inside

theorem Sound.of_advances {inside : Bool} {before after : World} (sound : Sound inside before)
    (advances : Advances before after) : Sound inside after where
  wellFormed := advances.wellFormed
  solvent := by
    have := sound.solvent
    have := advances.surplus
    omega
  lock := advances.lock.trans sound.lock

theorem sound_deploy (owner : Address) (balance : Uint256) : Sound false (deploy owner balance) where
  wellFormed := ⟨List.nodup_nil, by simp [deploy]⟩
  solvent := by simp [recorded, deploy, Ledger.total]
  lock := rfl

theorem sound_of_visits {owner : Address} {inside : Bool} {world : World}
    (visits : Visits owner inside world) : Sound inside world := by
  induction visits with
  | deployed balance => exact sound_deploy owner balance
  | reached _ reaches sound => exact sound.of_advances (advances_of_reaches reaches sound.wellFormed)
  | @entered _ before world msg call _ replies enters sound =>
    have performed := perform_sat { world := before, gas := call.gas, entered := [] }
      sound.wellFormed rfl msg (honest_of_reaches replies)
    have inside : Inside before world := by
      rcases enters with ⟨frame, returned, member⟩ | ⟨error, frame, threw, member⟩
      · exact (performed.of_ok returned).2 world member
      · exact performed.of_throws threw world member
    have := sound.solvent
    have := inside.surplus
    exact ⟨inside.wellFormed, by omega, inside.locked⟩

/-- The lock and the check for ether come before anything else. -/
theorem execute_locked {world : World} (locked : world.manager.entranceLock = true) (msg : Msg)
    (notification : Notification) (data : Bytes) :
    execute msg (.notifySubscribers notification data) world =
      .throws (.reason (if msg.value = 0 then "Entrance lock is engaged" else ""))
        { world, gas := notification.gas.toNat, entered := [] } := by
  by_cases free : msg.value = 0
  · simp [execute, perform, nonPayable, notifySubscribers, require, free, locked, Call.gas]
  · have paid : msg.value ≠ 0#256 := free
    simp [execute, perform, nonPayable, require, paid, Call.gas]

/-- In every world in which other code can run: the contract has the ether it owes, a notification pays
    the origin what it debits, from its own ether, and one inside another is rejected. -/
theorem solvent_and_conserving {owner : Address} {inside : Bool} {world : World}
    (visits : Visits owner inside world) :
    recorded world.manager ≤ world.balance.toNat ∧
      (∀ msg notification data after,
        (∀ i gas world, Reaches world ((notification.turns i).onNotify gas world).world) →
          Succeeds msg (.notifySubscribers notification data) world after →
          PaysDebits notification.tx.origin world after ∧
            ((∀ i, Quiet (notification.turns i)) →
              PaysFromBalance notification.tx.origin world after)) ∧
      (inside = true → ∀ msg notification data, ∃ error frame,
        execute msg (.notifySubscribers notification data) world = .throws error frame ∧
          (msg.value = 0 → error = .reason "Entrance lock is engaged")) := by
  have sound := sound_of_visits visits
  refine ⟨sound.solvent, fun msg notification data after replies succeeds => ?_,
    fun isInside msg notification data => ?_⟩
  · obtain ⟨frame, returned, rfl⟩ := succeeds
    have honest : ∀ i, Honest (notification.turns i) := fun i gas world =>
      advances_of_reaches (replies i gas world)
    have performed : Exec.Sat (perform msg (.notifySubscribers notification data))
        { world, gas := notification.gas.toNat, entered := [] }
        (fun _ after => PaysDebits notification.tx.origin world after.world ∧
          ((∀ i, Quiet (notification.turns i)) →
            PaysFromBalance notification.tx.origin world after.world)) fun _ _ => True := by
      simp only [perform, nonPayable, Exec.sat_bind, sat_require]
      refine ⟨fun _ => trivial, fun _ => ?_⟩
      refine ((Exec.sat_self _ _).and
        (notifySubscribers_sat sound.wellFormed rfl msg notification data honest)).mono ?_
        fun _ _ _ => trivial
      rintro _ after ⟨returned, -, paysDebits, -⟩
      exact ⟨paysDebits, fun quiet =>
        (notifySubscribers_paid sound.wellFormed rfl msg data honest quiet).of_ok returned⟩
    exact performed.of_ok returned
  · have locked : world.manager.entranceLock = true := sound.lock.trans isInside
    exact ⟨_, _, execute_locked locked msg notification data, fun free => by rw [if_pos free]⟩

/-! ## One subscriber -/

namespace SampleContract

def publisher : Address := 1

def subscriber : Address := 2

def origin : Address := 3

/-- With or without code, the subscriber does nothing. -/
def turn (hasCode : Bool) : Turn where
  hasCode
  onNotify := fun _ world => { returns := true, usedGas := 700, world }
  gasToCondition := 6500
  gasToReading := 300
  gasToCall := 3000
  gasFromCall := 100
  gasToStore := 3200

def notification (hasCode : Bool) : Notification where
  tx := { origin, gasprice := 1 }
  gas := 1000000
  turns := fun _ => turn hasCode
  gasToRequire := 12000
  gasToLimit := 100
  gasToTransfer := 9500
  gasToEnd := 4500

def publish : Msg := { sender := publisher, value := 0 }

/-- After the deposit of the subscriber. -/
def subscribed : World :=
  { deploy publisher 0 with
    manager := (deploy publisher 0).manager.opened subscriber 100000000
    balance := 100000000 }

theorem subscribed_visited : Visits publisher false subscribed := by
  have deposits : Succeeds { sender := subscriber, value := 100000000 } (.addSubscriber subscriber)
      (deploy publisher 0) subscribed := ⟨_, rfl, rfl⟩
  exact (Visits.deployed 0).reached (.call .refl (fun _ _ _ => .refl) deposits)

theorem notification_honest (hasCode : Bool) (i gas : Nat) (world : World) :
    Reaches world (((notification hasCode).turns i).onNotify gas world).world := .refl

/-- The states in which a call that returns has left the contract. -/
def enteredBy (outcome : Outcome Revert Frame Unit) : Option (List World) :=
  match outcome with
  | .ok _ frame => some frame.entered
  | _ => none

end SampleContract

open SampleContract in
/-- Inside a notification. -/
theorem solvent_and_conserving_sample :
    ∃ world, Visits publisher true world ∧ recorded world.manager ≤ world.balance.toNat ∧
      ∃ error frame, execute publish (.notifySubscribers (notification true) []) world =
        .throws error frame ∧ (publish.value = 0 → error = .reason "Entrance lock is engaged") := by
  have enters : (enteredBy (execute publish (.notifySubscribers (notification true) [])
      subscribed)).map List.length = some 1 := by
    decide +kernel
  obtain ⟨entered, isEntered, one⟩ := Option.map_eq_some_iff.mp enters
  obtain ⟨world, rfl⟩ := List.length_eq_one_iff.mp one
  unfold enteredBy at isEntered
  split at isEntered
  next _ frame returned =>
    have entersCall : Enters publish (.notifySubscribers (notification true) []) subscribed world :=
      .inl ⟨frame, returned, by simp [Option.some.inj isEntered]⟩
    have visits : Visits publisher true world :=
      subscribed_visited.entered (by exact notification_honest true) entersCall
    have sound := solvent_and_conserving visits
    exact ⟨world, visits, sound.1, sound.2.2 rfl publish (notification true) []⟩
  next => cases isEntered

end EventManager

end Decentagram.PubSub
