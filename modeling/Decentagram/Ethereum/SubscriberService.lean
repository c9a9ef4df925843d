import Decentagram.EclipseMonitor.SyncMsgMgr

/-! # The subscriber service

The listeners of the publish-subscribe service and what their callbacks do.  A `ThreadedEventQueue` of a
client is a position in the list of all queues made so far; the queue of past events of an event
manager is stored under its address.
-/

namespace Decentagram.EthereumClt

open Decentagram.Lib
open Decentagram.Eth

structure EventData where
  blkNum : Bytes
  evMsg : Bytes
deriving DecidableEq, Repr

abbrev EventDataQueue := List EventData

/-- The callbacks built by `BuildDeployEventDescr`, `BuildRegEventDescr`, `BuildNotifyPastEventDescr` and
    `BuildNotifyEventDescr`. -/
inductive Listener where
  | deploy
  | reg
  | notifyPast
  | notify (eventQueue : Nat)
deriving DecidableEq, Repr

/-- `AbiParser` on the log data of the two kinds of events: a byte string, and two words. -/
structure AbiCodec where
  toMessage : Bytes → Except Exception Bytes
  toWords : Bytes → Except Exception (Vector UInt8 32 × Vector UInt8 32)

structure PubsubServiceStore where
  pubsubContAddr : ContractAddr
  deployEvTopic : EventTopic
  regEvTopic : EventTopic
  notifyEvTopic : EventTopic
  isDeployed : Bool
  evMgrAddrMap : UnorderedMap Bytes ContractAddr
  pastEventStore : UnorderedMap Bytes EventDataQueue

/-- A call of a listener. -/
structure Delivery where
  id : EventCallbackId
  hash : Hash
  log : ReceiptLogEntry
deriving DecidableEq, Repr

/-- The state of the owner of a monitor.  `delivered` records every call of a listener. -/
structure Owner where
  lastChkptIter : UInt64
  lastValidatedBlkNum : Bytes
  svcStore : PubsubServiceStore
  eventQueues : List EventDataQueue
  delivered : List Delivery

abbrev Monitored := Shared Listener Owner

/-- The address in the last 20 bytes of a word. -/
def addressOfWord (word : Vector UInt8 32) : ContractAddr := word.drop 12

/-- `AddressToAbiAddress`. -/
def addressToAbiAddress (addr : ContractAddr) : EventTopic :=
  (Vector.replicate 12 0 : Vector UInt8 12) ++ addr

namespace SubscriberService

variable (codec : HeaderCodec) (abi : AbiCodec)

/-- Where the allocator puts a new description while these ids are in use. -/
abbrev Allocator := List EventCallbackId → EventCallbackId

def onOwner (change : Owner → Owner) : Exec Exception Monitored Unit :=
  Exec.modify fun shared => { shared with owner := change shared.owner }

def onStore (change : PubsubServiceStore → PubsubServiceStore) : Exec Exception Monitored Unit :=
  onOwner fun owner => { owner with svcStore := change owner.svcStore }

def listen (allocate : Allocator) (desc : EventDescription (NotifyCallback Listener)) :
    Exec Exception Monitored Unit :=
  Exec.modify fun shared => { shared with
    eventManager :=
      shared.eventManager.listen (allocate shared.eventManager.eventDescMap.keys) desc }

def cancel (id : EventCallbackId) : Exec Exception Monitored Unit :=
  Exec.modify fun shared => { shared with eventManager := shared.eventManager.cancel id }

def getPastEvents (evMgrAddr : ContractAddr) (store : PubsubServiceStore) : EventDataQueue :=
  (store.pastEventStore.lookup evMgrAddr.toList).getD []

def buildNotifyPastEventDescr (store : PubsubServiceStore) (evMgrContAddr : ContractAddr) :
    EventDescription (NotifyCallback Listener) :=
  .build codec evMgrContAddr [store.notifyEvTopic] (.listener .notifyPast)

def buildNotifyEventDescr (store : PubsubServiceStore) (evMgrContAddr : ContractAddr)
    (eventQueue : Nat) : EventDescription (NotifyCallback Listener) :=
  .build codec evMgrContAddr [store.notifyEvTopic] (.listener (.notify eventQueue))

def buildRegEventDescr (store : PubsubServiceStore) : EventDescription (NotifyCallback Listener) :=
  .build codec store.pubsubContAddr [store.regEvTopic] (.listener .reg)

def buildDeployEventDescr (store : PubsubServiceStore) : EventDescription (NotifyCallback Listener) :=
  .build codec store.pubsubContAddr
    [store.deployEvTopic, addressToAbiAddress store.pubsubContAddr] (.listener .deploy)

def eventData (header : HeaderMgr) (evMsg : Bytes) : EventData :=
  { blkNum := header.rawHeader.number, evMsg }

/-- An event manager without a store of past events is only logged. -/
def notifyPastEventHandler (header : HeaderMgr) (log : ReceiptLogEntry) :
    Exec Exception Monitored Unit := do
  let evMsg ← Exec.ofExcept (abi.toMessage log.logData)
  let evMgrId := log.contractAddr.toList
  onStore fun store =>
    match store.pastEventStore.lookup evMgrId with
    | some queue => { store with
        pastEventStore := store.pastEventStore.insert evMgrId (queue ++ [eventData header evMsg]) }
    | none => store

def regEventHandler (allocate : Allocator) (log : ReceiptLogEntry) :
    Exec Exception Monitored Unit := do
  let (pubAddrAbi, evMgrAddrAbi) ← Exec.ofExcept (abi.toWords log.logData)
  let pubAddr := addressOfWord pubAddrAbi
  let evMgrAddr := addressOfWord evMgrAddrAbi
  onStore fun store => { store with
    evMgrAddrMap := store.evMgrAddrMap.insert pubAddr.toList evMgrAddr
    pastEventStore := UnorderedMap.emplace store.pastEventStore evMgrAddr.toList [] }
  let store := (← Exec.get).owner.svcStore
  listen allocate (buildNotifyPastEventDescr codec store evMgrAddr)

def deployEventHandler (allocate : Allocator) (id : EventCallbackId) :
    Exec Exception Monitored Unit := do
  onStore fun store => { store with isDeployed := true }
  cancel id
  let store := (← Exec.get).owner.svcStore
  listen allocate (buildRegEventDescr codec store)

/-- The handler of a client's subscription. -/
def notifyEventHandler (eventQueue : Nat) (header : HeaderMgr) (log : ReceiptLogEntry) :
    Exec Exception Monitored Unit := do
  let evMsg ← Exec.ofExcept (abi.toMessage log.logData)
  onOwner fun owner => { owner with
    eventQueues := owner.eventQueues.modify eventQueue (· ++ [eventData header evMsg]) }

def handle (allocate : Allocator) (header : HeaderMgr) (log : ReceiptLogEntry)
    (id : EventCallbackId) : NotifyCallback Listener → Exec Exception Monitored Unit
  | .syncMsg ref => Exec.modify (Shared.onSyncMsg ref header id)
  | .listener .deploy => deployEventHandler codec allocate id
  | .listener .reg => regEventHandler codec abi allocate log
  | .listener .notifyPast => notifyPastEventHandler abi header log
  | .listener (.notify eventQueue) => notifyEventHandler abi eventQueue header log

/-- One call of a listener, recorded as it starts. -/
def notify (allocate : Allocator) (callback : NotifyCallback Listener) (header : HeaderMgr)
    (log : ReceiptLogEntry) (id : EventCallbackId) : Exec Exception Monitored Unit := do
  onOwner fun owner => { owner with
    delivered := owner.delivered ++ [{ id, hash := header.hash, log }] }
  handle codec abi allocate header log id callback

/-! ## What the listeners change -/

section Frame

variable {γ : Type} {observe : Monitored → γ}

/-- The handlers change the sync states, the listeners, the service's store and the queues. -/
theorem handle_frame
    (listeners : ∀ shared syncStates eventManager,
      observe { shared with syncStates, eventManager } = observe shared)
    (store : ∀ (shared : Monitored) svcStore,
      observe { shared with owner := { shared.owner with svcStore } } = observe shared)
    (queues : ∀ (shared : Monitored) eventQueues,
      observe { shared with owner := { shared.owner with eventQueues } } = observe shared)
    (allocate : Allocator) (header : HeaderMgr) (log : ReceiptLogEntry) (id : EventCallbackId)
    (callback : NotifyCallback Listener) :
    Exec.Keeps (handle codec abi allocate header log id callback) observe := by
  cases callback with
  | syncMsg ref => exact Exec.keeps_modify fun shared => listeners shared _ _
  | listener listener =>
    cases listener with
    | deploy =>
      refine .bind (Exec.keeps_modify fun shared => store shared _) fun _ => ?_
      refine .bind (Exec.keeps_modify fun shared => listeners shared shared.syncStates _) fun _ => ?_
      exact Exec.keeps_get.bind fun _ => Exec.keeps_modify fun shared =>
        listeners shared shared.syncStates _
    | reg =>
      refine (Exec.keeps_ofExcept _).bind fun words => ?_
      refine .bind (Exec.keeps_modify fun shared => store shared _) fun _ => ?_
      exact Exec.keeps_get.bind fun _ => Exec.keeps_modify fun shared =>
        listeners shared shared.syncStates _
    | notifyPast =>
      exact (Exec.keeps_ofExcept _).bind fun evMsg => Exec.keeps_modify fun shared => store shared _
    | notify eventQueue =>
      exact (Exec.keeps_ofExcept _).bind fun evMsg => Exec.keeps_modify fun shared => queues shared _

end Frame

end SubscriberService

end Decentagram.EthereumClt
