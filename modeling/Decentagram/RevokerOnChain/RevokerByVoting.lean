import Decentagram.PubSubOnchain.EventManager

/-! # The voting revokers

`RevokerByVoting` of the enclave revoker and `KeyRevokerByVoting` of the key revoker are one contract
over identifiers of 32 bytes and of 20 bytes.  A call of `notifySubscribers` runs the code of the
event manager and of its subscribers, which may call `revokeVote` again before it returns.
-/

namespace Decentagram.Revoker

open Decentagram.Lib
open Decentagram.PubSub (Address Bytes Revert Uint256)

/-- `bytes32` of an enclave, or `address` of a key. -/
abbrev Id (n : Nat) := BitVec (8 * n)

/-- `abi.encodePacked(id)`: the bytes of the word, the highest first. -/
def encodePacked {n : Nat} (id : Id n) : Bytes :=
  (List.range n).map fun i => UInt8.ofBitVec (id.extractLsb' (8 * (n - 1 - i)) 8)

structure VoteStruct where
  numVotes : Uint256
  stakeholder : Address → Bool

structure RevokerByVoting (n : Nat) where
  voteThreshold : Uint256
  eventMgrAddr : Address
  stakeHolders : Address → Bool
  revoked : Id n → Bool
  votes : Id n → VoteStruct

abbrev EnclaveRevokerByVoting := RevokerByVoting 32

abbrev KeyRevokerByVoting := RevokerByVoting 20

/-- The contract, the notifications published for it, and the votes that succeeded, both in order. -/
structure World (n : Nat) where
  revoker : RevokerByVoting n
  published : List Bytes
  succeeded : List (Address × Id n)

namespace RevokerByVoting

variable {n : Nat}

/-! ## The constructor -/

/-- The nested loops over all pairs of positions. -/
def requireUnique : List Address → Except Revert Unit
  | [] => return
  | stakeholder :: later => do
    if stakeholder ∈ later then
      .error (.reason "stakeholders must be unique")
    requireUnique later

/-- Multiplies first to increase precision, and adds one for an even number of stakeholders. -/
def threshold (length : Uint256) : Option Uint256 := do
  let voteThreshold ← Checked.div (← Checked.mul length 2) 3
  if length % 2 = 0 then Checked.add voteThreshold 1 else return voteThreshold

/-- `registered` is what `register()` of the publish-subscribe service returns, if it does. -/
def deploy (registered : Option Address) (stakeholders : List Address) :
    Except Revert (RevokerByVoting n) := do
  if stakeholders.length < 3 then
    .error (.reason "must have at least 3 stakeholders")
  requireUnique stakeholders
  let some voteThreshold := threshold (BitVec.ofNat 256 stakeholders.length) | .error .panic
  let some eventMgrAddr := registered | .error (.reason "")
  return {
    voteThreshold
    eventMgrAddr
    stakeHolders := stakeholders.foldl
      (fun stakeHolders stakeholder => Function.update stakeHolders stakeholder true) fun _ => false
    revoked := fun _ => false
    votes := fun _ => { numVotes := 0, stakeholder := fun _ => false } }

/-! ## The functions -/

abbrev Contract (n : Nat) := Exec Revert (World n)

def require (condition : Prop) [Decidable condition] (text : String) : Contract n Unit :=
  Exec.throwIf (¬ condition) (.reason text)

def onRevoker (change : RevokerByVoting n → RevokerByVoting n) : Contract n Unit :=
  Exec.modify fun world => { world with revoker := change world.revoker }

def setVote (id : Id n) (change : VoteStruct → VoteStruct) (revoker : RevokerByVoting n) :
    RevokerByVoting n :=
  { revoker with votes := Function.update revoker.votes id (change (revoker.votes id)) }

/-- The call of the event manager.  `others` is what the code outside the contract makes of the world
    until the notification is published, or `none` if it reverts. -/
def notifySubscribers (others : World n → Option (World n)) (data : Bytes) : Contract n Unit :=
  fun world =>
    match others world with
    | some inside => .ok () { inside with published := inside.published ++ [data] }
    | none => .throws (.reason "") world

def revokeVote (others : World n → Option (World n)) (sender : Address) (id : Id n) :
    Contract n Unit := do
  let revoker := (← Exec.get).revoker
  require (revoker.stakeHolders sender) "invalid stakeholder"
  require (¬ (revoker.votes id).stakeholder sender) "stakeholder already voted"
  onRevoker (setVote id fun vote => { vote with
    stakeholder := Function.update vote.stakeholder sender true })
  let numVotes ← Exec.ofOption .panic (Checked.add ((← Exec.get).revoker.votes id).numVotes 1)
  onRevoker (setVote id fun vote => { vote with numVotes })
  let revoker := (← Exec.get).revoker
  if ¬ revoker.revoked id ∧ (revoker.votes id).numVotes ≥ revoker.voteThreshold then
    onRevoker fun revoker => { revoker with revoked := Function.update revoker.revoked id true }
    notifySubscribers others (encodePacked id)

def isRevoked (revoker : RevokerByVoting n) (id : Id n) : Bool := revoker.revoked id

/-! ## Transactions -/

/-- A call of `revokeVote` by a transaction or by another contract.  A call that reverts is undone. -/
def transact (others : World n → Option (World n)) (sender : Address) (id : Id n) (world : World n) :
    World n :=
  match revokeVote others sender id world with
  | .ok _ after => { after with succeeded := after.succeeded ++ [(sender, id)] }
  | _ => world

/-- What all code outside the contract can make of it: calls, in which other code does the same. -/
inductive Reaches : World n → World n → Prop where
  | refl {start : World n} : Reaches start start
  | transact {start before : World n} {others : World n → Option (World n)} {sender : Address}
      {id : Id n} : Reaches start before →
      (∀ world inside, others world = some inside → Reaches world inside) →
      Reaches start (transact others sender id before)

/-- The stakeholders whose votes for `id` succeeded. -/
def voters (world : World n) (id : Id n) : Finset Address :=
  ((world.succeeded.filter fun entry => entry.2 = id).map Prod.fst).toFinset

end RevokerByVoting

end Decentagram.Revoker
