import Decentagram.Lib.Checked
import Decentagram.Lib.Exec

/-! # The event manager contract

The functions of `EventManager.sol`.  A call works on a `Frame`: the state of the contract with the gas
that is left.  What the contract does not decide is given with the call: the gas that its code uses
between two readings of `gasleft`, and for each turn of the loop the code of the subscriber.
-/

namespace Decentagram.PubSub

open Decentagram.Lib

abbrev Uint256 := BitVec 256
abbrev Address := BitVec 160
abbrev Bytes := List UInt8

/-- Why a call is undone. -/
inductive Revert where
  | reason (text : String)
  | panic
  | outOfGas
  /-- The target of a high-level call has no code. -/
  | noCode
  /-- The contract has not the ether it sends. -/
  | noFunds
deriving DecidableEq, Repr

structure MappedSubscriber where
  init : Bool
  balanceWei : Uint256
deriving DecidableEq, Repr

structure EventManager where
  subscriberAddrs : List Address
  subscriberMap : Address → MappedSubscriber
  publisherMap : Address → Bool
  owner : Address
  entranceLock : Bool
  incentiveWei : Uint256
  minDepositWei : Uint256
  perSubLimitGas : Uint256

/-- What the contract does to others, and the debits of its subscribers with the balance before. -/
inductive Effect where
  | called (subscriber : Address) (limitGas : Uint256) (data : Bytes)
  | debited (subscriber : Address) (costWei balanceWei : Uint256)
  | paid (receiver : Address) (amountWei : Uint256)
  | notifySubscribers (data : Bytes)
deriving DecidableEq, Repr

/-- The contract, its ether, and what it has done. -/
structure World where
  manager : EventManager
  balance : Uint256
  effects : List Effect

/-- `entered` are the states in which the call has left the contract for a subscriber's code. -/
structure Frame where
  world : World
  gas : Nat
  entered : List World

abbrev Contract := Exec Revert Frame

/-- How the code of a subscriber ends, if the gas suffices. -/
structure Reply where
  returns : Bool
  usedGas : Nat
  world : World

/-- One turn of the loop, as far as the contract does not decide it. -/
structure Turn where
  hasCode : Bool
  /-- The code of the subscriber, with the gas it is given. -/
  onNotify : Nat → World → Reply
  gasToCondition : Nat
  gasToReading : Nat
  gasToCall : Nat
  gasFromCall : Nat
  gasToStore : Nat

/-- How a call of a subscriber ends for the contract.  A call that fails is undone. -/
def Turn.answer (turn : Turn) (callGas : Nat) (world : World) : Reply :=
  let reply := turn.onNotify callGas world
  let returns := reply.returns && reply.usedGas ≤ callGas
  { returns, usedGas := min reply.usedGas callGas, world := if returns then reply.world else world }

/-- A call gets at most 63 of 64 parts of the gas. -/
def callGas (limitGas : Uint256) (gas : Nat) : Nat := min limitGas.toNat (gas - gas / 64)

structure Tx where
  origin : Address
  gasprice : Uint256

/-- A call of `notifySubscribers`, as far as the contract does not decide it. -/
structure Notification where
  tx : Tx
  gas : UInt64
  turns : Nat → Turn
  gasToRequire : Nat
  gasToLimit : Nat
  gasToTransfer : Nat
  gasToEnd : Nat

structure Msg where
  sender : Address
  value : Uint256

def finishingCostGas : Uint256 := 90000

namespace EventManager

/-! ## Steps of the machine -/

def require (condition : Prop) [Decidable condition] (text : String) : Contract Unit :=
  Exec.throwIf (¬ condition) (.reason text)

def checked {α : Type} (value : Option α) : Contract α := Exec.ofOption .panic value

def spend (gas : Nat) : Contract Unit := do
  Exec.throwIf ((← Exec.get).gas < gas) .outOfGas
  Exec.modify fun frame => { frame with gas := frame.gas - gas }

def gasleft : Contract Uint256 := do
  return BitVec.ofNat 256 (← Exec.get).gas

def onWorld (change : World → World) : Contract Unit :=
  Exec.modify fun frame => { frame with world := change frame.world }

def onManager (change : EventManager → EventManager) : Contract Unit :=
  onWorld fun world => { world with manager := change world.manager }

def emit (effect : Effect) : Contract Unit :=
  onWorld fun world => { world with effects := world.effects ++ [effect] }

/-- Ether that comes with a call.  Nobody has more than all there is. -/
def receive (value : Uint256) : Contract Unit := do
  let balance ← Exec.ofOption .noFunds (Checked.add (← Exec.get).world.balance value)
  onWorld fun world => { world with balance }

/-- `payable(receiver).transfer(amountWei)` to an account without code. -/
def transfer (receiver : Address) (amountWei : Uint256) : Contract Unit := do
  let balance ← Exec.ofOption .noFunds (Checked.sub (← Exec.get).world.balance amountWei)
  onWorld fun world => { world with balance }
  emit (.paid receiver amountWei)

section Rules

variable {before : Frame} {raises : Revert → Frame → Prop}

@[simp] theorem sat_require (condition : Prop) [Decidable condition] (text : String)
    (returns : Unit → Frame → Prop) :
    Exec.Sat (require condition text) before returns raises ↔
      (¬ condition → raises (.reason text) before) ∧ (condition → returns () before) := by
  simp [require]

@[simp] theorem sat_checked {α : Type} (value : Option α) (returns : α → Frame → Prop) :
    Exec.Sat (checked value) before returns raises ↔
      (∀ present, value = some present → returns present before) ∧
        (value = none → raises .panic before) :=
  Exec.sat_ofOption _ _

@[simp] theorem sat_spend (gas : Nat) (returns : Unit → Frame → Prop) :
    Exec.Sat (spend gas) before returns raises ↔ (before.gas < gas → raises .outOfGas before) ∧
      (¬ before.gas < gas → returns () { before with gas := before.gas - gas }) := by
  simp only [spend, Exec.sat_bind, Exec.sat_get, Exec.sat_throwIf, Exec.sat_modify]

@[simp] theorem sat_gasleft (returns : Uint256 → Frame → Prop) :
    Exec.Sat gasleft before returns raises ↔ returns (BitVec.ofNat 256 before.gas) before := by
  simp only [gasleft, Exec.sat_bind, Exec.sat_get, Exec.sat_pure]

@[simp] theorem sat_onWorld (change : World → World) (returns : Unit → Frame → Prop) :
    Exec.Sat (onWorld change) before returns raises ↔
      returns () { before with world := change before.world } := Iff.rfl

@[simp] theorem sat_onManager (change : EventManager → EventManager) (returns : Unit → Frame → Prop) :
    Exec.Sat (onManager change) before returns raises ↔
      returns () { before with
        world := { before.world with manager := change before.world.manager } } := Iff.rfl

@[simp] theorem sat_emit (effect : Effect) (returns : Unit → Frame → Prop) :
    Exec.Sat (emit effect) before returns raises ↔
      returns () { before with
        world := { before.world with effects := before.world.effects ++ [effect] } } := Iff.rfl

end Rules

/-! ## The functions of the contract -/

def setSubscriber (addr : Address) (subscriber : MappedSubscriber) (manager : EventManager) :
    EventManager :=
  { manager with subscriberMap := Function.update manager.subscriberMap addr subscriber }

def addSubscriber (msg : Msg) (subscriberAddr : Address) : Contract Unit := do
  let manager := (← Exec.get).world.manager
  require (¬ (manager.subscriberMap subscriberAddr).init) "Subscriber already added"
  require (msg.value ≥ manager.minDepositWei) "You need to send at least the minimum deposit"
  onManager fun manager => { manager with
    subscriberAddrs := manager.subscriberAddrs ++ [subscriberAddr] }
  onManager (setSubscriber subscriberAddr { init := true, balanceWei := msg.value })

/-- The terms on which the subscribers of one notification are called. -/
structure Terms where
  data : Bytes
  gasPriceWei : Uint256
  incentPerSubWei : Uint256
  fairLimitGas : Uint256

/-- `try onNotify{gas: limitGas}(data)`.  Only the failure of a call that is made can be caught. -/
def tryOnNotify (data : Bytes) (subscriberAddr : Address) (limitGas : Uint256) (turn : Turn) :
    Contract Bool := do
  Exec.throwIf (!turn.hasCode) .noCode
  spend turn.gasToCall
  emit (.called subscriberAddr limitGas data)
  let frame ← Exec.get
  let answer := turn.answer (callGas limitGas frame.gas) frame.world
  Exec.modify fun frame => {
    world := answer.world
    gas := frame.gas - answer.usedGas
    entered := frame.entered ++ [frame.world] }
  return answer.returns

/-- The gas that the balance pays for. -/
def limitGas (terms : Terms) (balanceWei : Uint256) : Option Uint256 := do
  let limitGas ← Checked.div (← Checked.sub balanceWei terms.incentPerSubWei) terms.gasPriceWei
  return if limitGas > terms.fairLimitGas then terms.fairLimitGas else limitGas

/-- `mappedSubscriber.balanceWei -= costWei`. -/
def debit (subscriberAddr : Address) (costWei : Uint256) : Contract Unit := do
  let mappedSubscriber := (← Exec.get).world.manager.subscriberMap subscriberAddr
  let balanceWei ← checked (Checked.sub mappedSubscriber.balanceWei costWei)
  onManager (setSubscriber subscriberAddr { mappedSubscriber with balanceWei })
  emit (.debited subscriberAddr costWei mappedSubscriber.balanceWei)

/-- The incentive is awarded only if the call succeeds, the gas is paid in any case. -/
def costWei (terms : Terms) (succeeds : Bool) (usedGas : Uint256) : Option Uint256 := do
  let costWei := if succeeds then terms.incentPerSubWei else 0
  Checked.add costWei (← Checked.mul usedGas terms.gasPriceWei)

/-- What follows the call: the subscriber is debited, and the running track of the compensation. -/
def settle (terms : Terms) (subscriberAddr : Address) (turn : Turn) (startGas : Uint256)
    (succeeds : Bool) (compensateWei : Uint256) : Contract Uint256 := do
  spend turn.gasFromCall
  let usedGas ← checked (Checked.sub startGas (← gasleft))
  let costWei ← checked (costWei terms succeeds usedGas)
  let compensateWei ← checked (Checked.add compensateWei costWei)
  debit subscriberAddr costWei
  spend turn.gasToStore
  return compensateWei

/-- The body of the `if` in the loop. -/
def notifyOne (terms : Terms) (subscriberAddr : Address) (balanceWei : Uint256) (turn : Turn)
    (compensateWei : Uint256) : Contract Uint256 := do
  let limitGas ← checked (limitGas terms balanceWei)
  spend turn.gasToReading
  let startGas ← gasleft
  let succeeds ← tryOnNotify terms.data subscriberAddr limitGas turn
  settle terms subscriberAddr turn startGas succeeds compensateWei

/-- The turn of the subscriber at position `i`. -/
def loopBody (terms : Terms) (turn : Turn) (i : Nat) (compensateWei : Uint256) : Contract Uint256 := do
  spend turn.gasToCondition
  let manager := (← Exec.get).world.manager
  let subscriberAddr ← checked manager.subscriberAddrs[i]?
  let balanceWei := (manager.subscriberMap subscriberAddr).balanceWei
  if balanceWei > terms.incentPerSubWei then
    notifyOne terms subscriberAddr balanceWei turn compensateWei
  else
    return compensateWei

/-- The turns from position `i` on, with the number of those that are left. -/
def loop (terms : Terms) (turns : Nat → Turn) : Nat → Nat → Uint256 → Contract Uint256
  | 0, _, compensateWei => return compensateWei
  | left + 1, i, compensateWei => do
    let compensateWei ← loopBody terms (turns i) i compensateWei
    loop terms turns left (i + 1) compensateWei

/-- The gas that `notifyOnChainSubscribers` asks for. -/
def askedGas (manager : EventManager) (numSubscribers : Uint256) : Option Uint256 := do
  Checked.add (← Checked.mul manager.perSubLimitGas numSubscribers) finishingCostGas

def fairLimitGas (gas numSubscribers : Uint256) : Option Uint256 := do
  Checked.div (← Checked.sub gas finishingCostGas) numSubscribers

/-- What comes before the loop. -/
def prepareTerms (notification : Notification) (data : Bytes) : Contract Terms := do
  let manager := (← Exec.get).world.manager
  let gasPriceWei := if notification.tx.gasprice = 0 then 1 else notification.tx.gasprice
  let numSubscribers := BitVec.ofNat 256 manager.subscriberAddrs.length
  let incentPerSubWei ← checked (Checked.div manager.incentiveWei numSubscribers)
  spend notification.gasToRequire
  let askedGas ← checked (askedGas manager numSubscribers)
  require ((← gasleft) ≥ askedGas) "Not enough gas left"
  spend notification.gasToLimit
  let fairLimitGas ← checked (fairLimitGas (← gasleft) numSubscribers)
  return { data, gasPriceWei, incentPerSubWei, fairLimitGas }

def notifyOnChainSubscribers (notification : Notification) (data : Bytes) : Contract Unit := do
  let numSubscribers := BitVec.ofNat 256 (← Exec.get).world.manager.subscriberAddrs.length
  let terms ← prepareTerms notification data
  let compensateWei ← loop terms notification.turns numSubscribers.toNat 0 0
  spend notification.gasToTransfer
  transfer notification.tx.origin compensateWei

def notifySubscribers (msg : Msg) (notification : Notification) (data : Bytes) : Contract Unit := do
  let manager := (← Exec.get).world.manager
  require (¬ manager.entranceLock) "Entrance lock is engaged"
  onManager fun manager => { manager with entranceLock := true }
  require (manager.publisherMap msg.sender) "Only registered publisher can notify"
  if manager.subscriberAddrs.length > 0 then
    notifyOnChainSubscribers notification data
  onManager fun manager => { manager with entranceLock := false }
  spend notification.gasToEnd
  emit (.notifySubscribers data)

def subscriberAddBalance (msg : Msg) (subscriber : Address) : Contract Unit := do
  let mappedSubscriber := (← Exec.get).world.manager.subscriberMap subscriber
  require mappedSubscriber.init "Subscriber is not found"
  let balanceWei ← checked (Checked.add mappedSubscriber.balanceWei msg.value)
  onManager (setSubscriber subscriber { mappedSubscriber with balanceWei })

/-- The three functions that only the owner may call. -/
def byOwner (msg : Msg) (text : String) (change : EventManager → EventManager) : Contract Unit := do
  require (msg.sender = (← Exec.get).world.manager.owner) text
  onManager change

def updateIncentive (msg : Msg) (incentive : Uint256) : Contract Unit :=
  byOwner msg "Only the owner can update incentive" fun manager => { manager with
    incentiveWei := incentive }

def addPublisher (msg : Msg) (publisherAddr : Address) : Contract Unit :=
  byOwner msg "Only the owner can add publishers" fun manager => { manager with
    publisherMap := Function.update manager.publisherMap publisherAddr true }

def setPerSubscriberLimitGas (msg : Msg) (limitGas : Uint256) : Contract Unit :=
  byOwner msg "Only the owner can set the limit" fun manager => { manager with
    perSubLimitGas := limitGas }

/-! ## Transactions -/

/-- A call of one of the external functions that can change the contract. -/
inductive Call where
  | addSubscriber (subscriberAddr : Address)
  | subscriberAddBalance (subscriber : Address)
  | updateIncentive (incentive : Uint256)
  | addPublisher (publisherAddr : Address)
  | setPerSubscriberLimitGas (limitGas : Uint256)
  | notifySubscribers (notification : Notification) (data : Bytes)

def Call.gas : Call → Nat
  | .notifySubscribers notification _ => notification.gas.toNat
  | _ => 0

/-- A function that is not payable rejects ether. -/
def nonPayable (msg : Msg) : Contract Unit := require (msg.value = 0) ""

def perform (msg : Msg) : Call → Contract Unit
  | .addSubscriber subscriberAddr => do
    receive msg.value
    addSubscriber msg subscriberAddr
  | .subscriberAddBalance subscriber => do
    receive msg.value
    subscriberAddBalance msg subscriber
  | .updateIncentive incentive => do
    nonPayable msg
    updateIncentive msg incentive
  | .addPublisher publisherAddr => do
    nonPayable msg
    addPublisher msg publisherAddr
  | .setPerSubscriberLimitGas limitGas => do
    nonPayable msg
    setPerSubscriberLimitGas msg limitGas
  | .notifySubscribers notification data => do
    nonPayable msg
    notifySubscribers msg notification data

/-- A call from outside.  Where it throws, the world is as it was before. -/
def execute (msg : Msg) (call : Call) (world : World) : Outcome Revert Frame Unit :=
  perform msg call { world, gas := call.gas, entered := [] }

def Succeeds (msg : Msg) (call : Call) (before after : World) : Prop :=
  ∃ frame, execute msg call before = .ok () frame ∧ frame.world = after

/-- The states in which a call leaves the contract, whether or not it is undone in the end. -/
def Enters (msg : Msg) (call : Call) (before inside : World) : Prop :=
  (∃ frame, execute msg call before = .ok () frame ∧ inside ∈ frame.entered) ∨
    ∃ error frame, execute msg call before = .throws error frame ∧ inside ∈ frame.entered

/-- What the code of the subscriber that is called in turn `i` does. -/
def Call.onNotify : Call → Nat → Nat → World → World
  | .notifySubscribers notification _, i, gas, world => ((notification.turns i).onNotify gas world).world
  | _, _, _, world => world

/-- What all code outside the contract can make of it: calls that succeed, in which subscribers do the same
    again, and ether that is forced upon it.  Calls that are undone leave the world as it is. -/
inductive Reaches : World → World → Prop where
  | refl {start : World} : Reaches start start
  | call {start before after : World} {msg : Msg} {call : Call} : Reaches start before →
      (∀ i gas world, Reaches world (call.onNotify i gas world)) → Succeeds msg call before after →
      Reaches start after
  | force {start before : World} {value balance : Uint256} : Reaches start before →
      Checked.add before.balance value = some balance → Reaches start { before with balance }

/-- The world after the constructor.  Ether may have been sent to the address before. -/
def deploy (owner : Address) (balance : Uint256) : World where
  manager := {
    subscriberAddrs := []
    subscriberMap := fun _ => { init := false, balanceWei := 0 }
    publisherMap := Function.update (fun _ => false) owner true
    owner
    entranceLock := false
    incentiveWei := 1000000
    minDepositWei := 100000000
    perSubLimitGas := 202000 }
  balance
  effects := []

/-- The worlds in which other code can run, and whether it runs inside of a notification. -/
inductive Visits (owner : Address) : Bool → World → Prop where
  | deployed (balance : Uint256) : Visits owner false (deploy owner balance)
  | reached {inside : Bool} {before after : World} : Visits owner inside before →
      Reaches before after → Visits owner inside after
  | entered {inside : Bool} {before world : World} {msg : Msg} {call : Call} :
      Visits owner inside before → (∀ i gas world, Reaches world (call.onNotify i gas world)) →
      Enters msg call before world → Visits owner true world

end EventManager

end Decentagram.PubSub
