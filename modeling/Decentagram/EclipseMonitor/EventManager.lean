import Decentagram.Lib.Exec
import Decentagram.Lib.UnorderedMap
import Decentagram.EclipseMonitor.HeaderMgr

/-! # Event listeners

A `NotifyCallbackType` closure is data of some type `κ`; who runs the callbacks says what the data
means.  A log entry of a callback plan is the entry itself: the plan keeps the receipts alive.
-/

namespace Decentagram.Eth

open Decentagram.Lib

/-- The address of the `EventDescription` a listener is stored in. -/
abbrev EventCallbackId := Nat

structure ReceiptLogEntry where
  contractAddr : ContractAddr
  topics : List EventTopic
  logData : Bytes
deriving DecidableEq, Repr

namespace ReceiptLogEntry

/-- The topics asked for are the first of the entry's topics. -/
def isEventEmitted (entry : ReceiptLogEntry) (addr : ContractAddr) (topics : List EventTopic) : Bool :=
  entry.contractAddr = addr && topics.isPrefixOf entry.topics

end ReceiptLogEntry

structure Receipt where
  logEntries : List ReceiptLogEntry
deriving DecidableEq, Repr

structure ReceiptsMgr where
  receipts : List Receipt
  rootHashBytes : Bytes
deriving DecidableEq, Repr

/-- The functions a `ReceiptsMgr` is built with: `Receipt::FromBytes`, and the hash of the trie that
    holds the receipts under their positions. -/
structure ReceiptsCodec where
  fromBytes : Bytes → Except Exception Receipt
  trieHash : List Bytes → Except Exception Bytes

namespace ReceiptsMgr

def ofReceipts (codec : ReceiptsCodec) (receipts : List Bytes) : Except Exception ReceiptsMgr := do
  let parsed ← receipts.mapM codec.fromBytes
  let rootHashBytes ← codec.trieHash receipts
  return { receipts := parsed, rootHashBytes }

def searchEvents (receiptsMgr : ReceiptsMgr) (addr : ContractAddr) (topics : List EventTopic) :
    List ReceiptLogEntry :=
  receiptsMgr.receipts.flatMap fun receipt =>
    receipt.logEntries.filter fun entry => entry.isEventEmitted addr topics

end ReceiptsMgr

namespace BloomFilter

/-- The bit that two bytes of the hash select in a filter of 256 bytes. -/
def checkBit (bloom : Bytes) (high low : UInt8) : Bool :=
  let bit := (1 : UInt8) <<< (low &&& 0x7)
  let index := 256 - ((high.toNat * 256 + low.toNat) % 0x800) / 8 - 1
  (bloom.getD index 0) &&& bit ≠ 0

def checkBloomBits (bloom : Bytes) (hash : Hash) : Bool :=
  checkBit bloom hash[0] hash[1] && checkBit bloom hash[2] hash[3] &&
    checkBit bloom hash[4] hash[5]

/-- The positions that a hash selects by the specification: the lowest 11 bits of each of its first three
    pairs of bytes. -/
def positions (hash : Hash) : List Nat :=
  [(hash[0].toNat * 256 + hash[1].toNat) % 2048, (hash[2].toNat * 256 + hash[3].toNat) % 2048,
    (hash[4].toNat * 256 + hash[5].toNat) % 2048]

def areHashesInBloom (bloom : Bytes) (hashes : List Hash) : Bool := hashes.all (checkBloomBits bloom)

end BloomFilter

structure EventDescription (κ : Type) where
  contractAddr : ContractAddr
  topics : List EventTopic
  hashes : List Hash
  notifyCallback : κ

/-- The constructor hashes the address and the topics for the bloom filter. -/
def EventDescription.build {κ : Type} (codec : HeaderCodec) (contractAddr : ContractAddr)
    (topics : List EventTopic) (notifyCallback : κ) : EventDescription κ where
  contractAddr
  topics
  hashes := codec.keccak256 contractAddr.toList :: topics.map fun topic =>
    codec.keccak256 topic.toList
  notifyCallback

/-- A listener that is to be called with some log entries. -/
structure CallbackPlan (κ : Type) where
  id : EventCallbackId
  callback : κ
  logs : List ReceiptLogEntry

structure EventManager (κ : Type) where
  eventDescMap : UnorderedMap EventCallbackId (EventDescription κ)

namespace EventManager

variable {κ : Type}

def init : EventManager κ := { eventDescMap := ∅ }

/-- `id` is the address the description is allocated at. -/
def listen (id : EventCallbackId) (subDesc : EventDescription κ) (manager : EventManager κ) :
    EventManager κ :=
  { manager with eventDescMap := UnorderedMap.emplace manager.eventDescMap id subDesc }

def cancel (id : EventCallbackId) (manager : EventManager κ) : EventManager κ :=
  { manager with eventDescMap := manager.eventDescMap.erase id }

/-- The listeners whose address and topics may all be in the bloom filter. -/
def bloomEventDesc (manager : EventManager κ) (bloom : Bytes) :
    List (EventCallbackId × EventDescription κ) :=
  (manager.eventDescMap.entries.map fun entry => (entry.1, entry.2)).filter fun entry =>
    BloomFilter.areHashesInBloom bloom entry.2.hashes

def genCallbackPlan (receiptsMgr : ReceiptsMgr)
    (bloomedEvents : List (EventCallbackId × EventDescription κ)) : List (CallbackPlan κ) :=
  bloomedEvents.filterMap fun (id, desc) =>
    let logs := receiptsMgr.searchEvents desc.contractAddr desc.topics
    if logs.isEmpty then none else some { id, callback := desc.notifyCallback, logs }

/-- The part of `CheckEvents` under the lock. -/
def callbackPlans (manager : EventManager κ) (header : HeaderMgr)
    (receiptsMgrGetter : BlockNumber → Except Exception ReceiptsMgr) :
    Except Exception (List (CallbackPlan κ)) :=
  let bloomedEvents := manager.bloomEventDesc header.rawHeader.logsBloom
  if bloomedEvents.isEmpty then
    .ok []
  else do
    let receiptsMgr ← receiptsMgrGetter header.blkNum
    if receiptsMgr.rootHashBytes ≠ header.rawHeader.receiptsRoot then
      .error "Receipts root mismatch"
    return genCallbackPlan receiptsMgr bloomedEvents

/-- The calls of a plan, in order. -/
def planCalls (plans : List (CallbackPlan κ)) : List (EventCallbackId × κ × ReceiptLogEntry) :=
  plans.flatMap fun plan => plan.logs.map fun log => (plan.id, plan.callback, log)

/-- `ConductCallbackPlan`. -/
def conductCallbackPlan {σ : Type}
    (notify : κ → HeaderMgr → ReceiptLogEntry → EventCallbackId → Exec Exception σ Unit)
    (header : HeaderMgr) : List (EventCallbackId × κ × ReceiptLogEntry) → Exec Exception σ Unit
  | [] => pure ()
  | (id, callback, log) :: calls => do
    notify callback header log id
    conductCallbackPlan notify header calls

theorem conductCallbackPlan_append {σ : Type}
    (notify : κ → HeaderMgr → ReceiptLogEntry → EventCallbackId → Exec Exception σ Unit)
    (header : HeaderMgr) (first second : List (EventCallbackId × κ × ReceiptLogEntry)) :
    conductCallbackPlan notify header (first ++ second) = (do
      conductCallbackPlan notify header first
      conductCallbackPlan notify header second) := by
  induction first with
  | nil => rfl
  | cons call calls inductionHypothesis =>
    simp only [List.cons_append, conductCallbackPlan, inductionHypothesis, bind_assoc]

/-- `CheckEvents` of the event manager at `manager` in the state; the callbacks run without the lock
    on the state the plan was made in. -/
def checkEvents {σ : Type} (manager : σ → EventManager κ)
    (notify : κ → HeaderMgr → ReceiptLogEntry → EventCallbackId → Exec Exception σ Unit)
    (header : HeaderMgr) (receiptsMgrGetter : BlockNumber → Except Exception ReceiptsMgr) :
    Exec Exception σ Unit := do
  let plans ← Exec.ofExcept ((manager (← Exec.get)).callbackPlans header receiptsMgrGetter)
  conductCallbackPlan notify header (planCalls plans)

end EventManager

end Decentagram.Eth
