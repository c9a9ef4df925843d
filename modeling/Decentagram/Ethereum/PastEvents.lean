import Decentagram.EclipseMonitor.EventDelivery
import Decentagram.Ethereum.UpdateAtomicity

/-! # The store of past events

The listeners of the service install each other: the deployment installs the one for registrations, and
a registration the one for the events of an event manager.  What a block installs is not called in that
block any more.
-/

namespace Decentagram.EthereumClt

open Decentagram.Lib
open Decentagram.Eth

/-! ## The events of a chain -/

/-- A validated header with the receipts that its root commits to. -/
structure ChainBlock where
  header : HeaderMgr
  receiptsMgr : ReceiptsMgr

/-- A log entry, in the block it was found in. -/
abbrev EmittedLog := HeaderMgr × ReceiptLogEntry

namespace ChainBlock

variable (abi : AbiCodec) (contracts : PubsubServiceStore) (evMgr : ContractAddr)

def logsOf (addr : ContractAddr) (topics : List EventTopic) (block : ChainBlock) :
    List ReceiptLogEntry :=
  block.receiptsMgr.logEntries.filter fun entry =>
    entry.contractAddr = addr ∧ topics <+: entry.topics

def serviceDeployed (block : ChainBlock) : List ReceiptLogEntry :=
  block.logsOf contracts.pubsubContAddr
    [contracts.deployEvTopic, addressToAbiAddress contracts.pubsubContAddr]

/-- The log entry registers a publisher with this event manager. -/
def registers (log : ReceiptLogEntry) : Bool :=
  match abi.toWords log.logData with
  | .ok (_, evMgrAddrAbi) => addressOfWord evMgrAddrAbi = evMgr
  | .error _ => false

def publisherRegistered (block : ChainBlock) : List ReceiptLogEntry :=
  (block.logsOf contracts.pubsubContAddr [contracts.regEvTopic]).filter (registers abi evMgr)

def notifySubscribers (block : ChainBlock) : List EmittedLog :=
  (block.logsOf evMgr [contracts.notifyEvTopic]).map fun log => (block.header, log)

end ChainBlock

section Chain

variable (abi : AbiCodec) (contracts : PubsubServiceStore) (evMgr : ContractAddr)

/-- The blocks after the one the service is deployed in. -/
def afterDeployment (blocks : List ChainBlock) : List ChainBlock :=
  (blocks.dropWhile fun block => (block.serviceDeployed contracts).isEmpty).tail

/-- How often the service is deployed in the block it is deployed in. -/
def deployments (blocks : List ChainBlock) : Nat :=
  match blocks.dropWhile fun block => (block.serviceDeployed contracts).isEmpty with
  | [] => 0
  | block :: _ => (block.serviceDeployed contracts).length

/-- The registrations that lie in later blocks than the deployment. -/
def registrations (blocks : List ChainBlock) : List ReceiptLogEntry :=
  (afterDeployment contracts blocks).flatMap (ChainBlock.publisherRegistered abi contracts evMgr)

/-- The event holds the number of the block and the message of the log entry. -/
def IsEventOf (emitted : EmittedLog) (event : EventData) : Prop :=
  event.blkNum = emitted.1.rawHeader.number ∧ abi.toMessage emitted.2.logData = .ok event.evMsg

/-- An event of the event manager comes in a new block, after one registration of it, which comes after
    the one deployment; each in a later block than the other. -/
def OneAfterTheOther (blocks : List ChainBlock) : Prop :=
  ∀ earlier block later, blocks = earlier ++ block :: later →
    block.notifySubscribers contracts evMgr ≠ [] →
      block.header.hash ∉ earlier.map (fun before => before.header.hash) ∧
        deployments contracts earlier = 1 ∧ (registrations abi contracts evMgr earlier).length = 1

variable {abi contracts evMgr}

/-! A chain with one more block. -/

theorem deployments_cons (first : ChainBlock) (blocks : List ChainBlock) :
    deployments contracts (first :: blocks) =
      if first.serviceDeployed contracts = [] then deployments contracts blocks
      else (first.serviceDeployed contracts).length := by
  rw [deployments, List.dropWhile_cons]
  cases deployed : first.serviceDeployed contracts with
  | nil => rfl
  | cons log logs => simp [deployed]

theorem afterDeployment_cons (first : ChainBlock) (blocks : List ChainBlock) :
    afterDeployment contracts (first :: blocks) =
      if first.serviceDeployed contracts = [] then afterDeployment contracts blocks else blocks := by
  rw [afterDeployment, List.dropWhile_cons]
  cases first.serviceDeployed contracts with
  | nil => rfl
  | cons log logs => simp

theorem deployments_snoc (blocks : List ChainBlock) (block : ChainBlock) :
    deployments contracts (blocks ++ [block]) =
      if deployments contracts blocks = 0 then (block.serviceDeployed contracts).length
      else deployments contracts blocks := by
  induction blocks with
  | nil =>
    rw [List.nil_append, deployments_cons]
    split
    next none => simp [deployments, none]
    next => simp [deployments]
  | cons first blocks inductionHypothesis =>
    rw [List.cons_append, deployments_cons, deployments_cons, inductionHypothesis]
    by_cases none : first.serviceDeployed contracts = [] <;> simp [none]

theorem afterDeployment_snoc (blocks : List ChainBlock) (block : ChainBlock) :
    afterDeployment contracts (blocks ++ [block]) =
      if deployments contracts blocks = 0 then [] else afterDeployment contracts blocks ++ [block] := by
  induction blocks with
  | nil =>
    rw [List.nil_append, afterDeployment_cons]
    split <;> simp [deployments, afterDeployment]
  | cons first blocks inductionHypothesis =>
    rw [List.cons_append, afterDeployment_cons, afterDeployment_cons, deployments_cons,
      inductionHypothesis]
    by_cases none : first.serviceDeployed contracts = [] <;> simp [none]

theorem registrations_snoc (blocks : List ChainBlock) (block : ChainBlock) :
    registrations abi contracts evMgr (blocks ++ [block]) =
      if deployments contracts blocks = 0 then []
      else registrations abi contracts evMgr blocks ++ block.publisherRegistered abi contracts evMgr := by
  rw [registrations, afterDeployment_snoc]
  split
  · rfl
  · rw [List.flatMap_append, List.flatMap_singleton, registrations]

theorem registrations_of_not_deployed {blocks : List ChainBlock}
    (notDeployed : deployments contracts blocks = 0) :
    registrations abi contracts evMgr blocks = [] := by
  rw [registrations]
  induction blocks with
  | nil => rfl
  | cons first blocks inductionHypothesis =>
    rw [deployments_cons] at notDeployed
    rw [afterDeployment_cons]
    split at notDeployed
    next none =>
      rw [if_pos none]
      exact inductionHypothesis notDeployed
    next some => exact absurd (List.eq_nil_of_length_eq_zero notDeployed) some

theorem OneAfterTheOther.init {blocks : List ChainBlock} {block : ChainBlock}
    (ordered : OneAfterTheOther abi contracts evMgr (blocks ++ [block])) :
    OneAfterTheOther abi contracts evMgr blocks := by
  intro earlier middle later split
  exact ordered earlier middle (later ++ [block]) (by rw [split]; simp)

end Chain

/-! ## What one call changes -/

namespace SubscriberService

variable (codec : HeaderCodec) (abi : AbiCodec)

/-- What a call that returns does to the listeners and to the store of the service. -/
def Effect (allocate : Allocator) (header : HeaderMgr) (log : ReceiptLogEntry) (id : EventCallbackId)
    (before after : Monitored) : NotifyCallback Listener → Prop
  | .syncMsg _ =>
    after.eventManager = before.eventManager.cancel id ∧ after.owner.svcStore = before.owner.svcStore
  | .listener .deploy =>
    after.eventManager = (before.eventManager.cancel id).listen
        (allocate (before.eventManager.cancel id).eventDescMap.keys)
        (buildRegEventDescr codec before.owner.svcStore) ∧
      after.owner.svcStore = { before.owner.svcStore with isDeployed := true }
  | .listener .reg => ∃ pubAddrAbi evMgrAddrAbi,
    abi.toWords log.logData = .ok (pubAddrAbi, evMgrAddrAbi) ∧
      after.eventManager = before.eventManager.listen (allocate before.eventManager.eventDescMap.keys)
        (buildNotifyPastEventDescr codec before.owner.svcStore (addressOfWord evMgrAddrAbi)) ∧
      after.owner.svcStore = { before.owner.svcStore with
        evMgrAddrMap := before.owner.svcStore.evMgrAddrMap.insert (addressOfWord pubAddrAbi).toList
          (addressOfWord evMgrAddrAbi)
        pastEventStore := UnorderedMap.emplace before.owner.svcStore.pastEventStore
          (addressOfWord evMgrAddrAbi).toList [] }
  | .listener .notifyPast =>
    after.eventManager = before.eventManager ∧ ∃ evMsg, abi.toMessage log.logData = .ok evMsg ∧
      after.owner.svcStore =
        match before.owner.svcStore.pastEventStore.lookup log.contractAddr.toList with
        | some queue => { before.owner.svcStore with
            pastEventStore := before.owner.svcStore.pastEventStore.insert log.contractAddr.toList
              (queue ++ [eventData header evMsg]) }
        | none => before.owner.svcStore
  | .listener (.notify _) =>
    after.eventManager = before.eventManager ∧ after.owner.svcStore = before.owner.svcStore

theorem notify_effect (allocate : Allocator) (callback : NotifyCallback Listener) (header : HeaderMgr)
    (log : ReceiptLogEntry) (id : EventCallbackId) (shared : Monitored) :
    Exec.Sat (notify codec abi allocate callback header log id) shared
      (fun _ after => Effect codec abi allocate header log id shared after callback)
      fun _ _ => True := by
  simp only [notify, onOwner, Exec.sat_bind, Exec.sat_modify]
  cases callback with
  | syncMsg ref =>
    simp only [handle, Exec.sat_modify]
    exact ⟨rfl, rfl⟩
  | listener listener =>
    cases listener with
    | deploy =>
      simp only [handle, deployEventHandler, onStore, onOwner, cancel, listen, Exec.sat_bind,
        Exec.sat_modify, Exec.sat_get]
      exact ⟨rfl, rfl⟩
    | reg =>
      simp only [handle, regEventHandler, onStore, onOwner, listen, Exec.sat_bind, Exec.sat_modify,
        Exec.sat_get, Exec.sat_ofExcept]
      exact ⟨fun words parsed => ⟨words.1, words.2, parsed, rfl, rfl⟩, fun _ _ => trivial⟩
    | notifyPast =>
      simp only [handle, notifyPastEventHandler, onStore, onOwner, Exec.sat_bind, Exec.sat_modify,
        Exec.sat_ofExcept]
      exact ⟨fun evMsg parsed => ⟨rfl, evMsg, parsed, rfl⟩, fun _ _ => trivial⟩
    | notify eventQueue =>
      simp only [handle, notifyEventHandler, onOwner, Exec.sat_bind, Exec.sat_modify, Exec.sat_ofExcept]
      exact ⟨fun _ _ => ⟨rfl, rfl⟩, fun _ _ => trivial⟩

/-! ## The listeners of the service -/

variable (contracts : PubsubServiceStore)

/-- The contracts and the topics that the service listens to. -/
def addresses (store : PubsubServiceStore) : ContractAddr × EventTopic × EventTopic × EventTopic :=
  (store.pubsubContAddr, store.deployEvTopic, store.regEvTopic, store.notifyEvTopic)

/-- A listener of the service has the address and the topics that its handler expects. -/
def Described (store : PubsubServiceStore) (desc : EventDescription (NotifyCallback Listener)) : Prop :=
  match desc.notifyCallback with
  | .listener .deploy => desc.contractAddr = contracts.pubsubContAddr ∧
      desc.topics = [contracts.deployEvTopic, addressToAbiAddress contracts.pubsubContAddr]
  | .listener .reg =>
    desc.contractAddr = contracts.pubsubContAddr ∧ desc.topics = [contracts.regEvTopic]
  | .listener .notifyPast =>
    desc.topics = [contracts.notifyEvTopic] ∧ desc.contractAddr.toList ∈ store.pastEventStore
  | _ => True

structure Shaped (manager : EventManager (NotifyCallback Listener)) (store : PubsubServiceStore) :
    Prop where
  registered : EventManager.Registered codec manager
  sameContracts : addresses store = addresses contracts
  described : ∀ id desc, manager.eventDescMap.lookup id = some desc → Described contracts store desc

section Shaped

variable {codec abi contracts} {manager : EventManager (NotifyCallback Listener)}
  {store store' : PubsubServiceStore}

theorem Described.grow {desc : EventDescription (NotifyCallback Listener)}
    (grows : ∀ addr, addr ∈ store.pastEventStore → addr ∈ store'.pastEventStore)
    (described : Described contracts store desc) : Described contracts store' desc := by
  unfold Described at described ⊢
  split at described <;> simp_all

/-- A store with more event managers, with the same listeners. -/
theorem Shaped.withStore (shaped : Shaped codec contracts manager store)
    (sameAddresses : addresses store' = addresses store)
    (grows : ∀ addr, addr ∈ store.pastEventStore → addr ∈ store'.pastEventStore) :
    Shaped codec contracts manager store' where
  registered := shaped.registered
  sameContracts := sameAddresses.trans shaped.sameContracts
  described id desc listens := (shaped.described id desc listens).grow grows

theorem Shaped.listen (shaped : Shaped codec contracts manager store) (id : EventCallbackId)
    {contractAddr : ContractAddr} {topics : List EventTopic} {notifyCallback : NotifyCallback Listener}
    (described : Described contracts store (.build codec contractAddr topics notifyCallback)) :
    Shaped codec contracts (manager.listen id (.build codec contractAddr topics notifyCallback))
      store where
  registered := shaped.registered.listen id contractAddr topics notifyCallback
  sameContracts := shaped.sameContracts
  described id' desc found := by
    rcases UnorderedMap.lookup_emplace found with earlier | ⟨-, rfl⟩
    · exact shaped.described id' desc earlier
    · exact described

theorem Shaped.cancel (shaped : Shaped codec contracts manager store) (id : EventCallbackId) :
    Shaped codec contracts (manager.cancel id) store where
  registered := shaped.registered.cancel id
  sameContracts := shaped.sameContracts
  described id' desc found := shaped.described id' desc (UnorderedMap.lookup_of_erase found).1

theorem Shaped.addresses_eq (shaped : Shaped codec contracts manager store) :
    store.pubsubContAddr = contracts.pubsubContAddr ∧ store.deployEvTopic = contracts.deployEvTopic ∧
      store.regEvTopic = contracts.regEvTopic ∧ store.notifyEvTopic = contracts.notifyEvTopic := by
  have same := shaped.sameContracts
  simpa only [addresses, Prod.mk.injEq] using same

theorem Effect.shaped {allocate : Allocator} {header : HeaderMgr} {log : ReceiptLogEntry}
    {id : EventCallbackId} {before after : Monitored} {callback : NotifyCallback Listener}
    (shaped : Shaped codec contracts before.eventManager before.owner.svcStore)
    (effect : Effect codec abi allocate header log id before after callback) :
    Shaped codec contracts after.eventManager after.owner.svcStore := by
  obtain ⟨samePubsub, -, sameReg, sameNotify⟩ := shaped.addresses_eq
  cases callback with
  | syncMsg ref =>
    obtain ⟨cancels, sameStore⟩ := effect
    rw [cancels, sameStore]
    exact shaped.cancel id
  | listener listener =>
    cases listener with
    | deploy =>
      obtain ⟨listens, deployed⟩ := effect
      have described : Described contracts before.owner.svcStore
          (buildRegEventDescr codec before.owner.svcStore) :=
        ⟨samePubsub, congrArg (fun topic => [topic]) sameReg⟩
      rw [listens, deployed]
      have installed := (shaped.cancel id).listen
        (allocate (before.eventManager.cancel id).eventDescMap.keys) described
      exact installed.withStore rfl fun _ known => known
    | reg =>
      obtain ⟨pubAddrAbi, evMgrAddrAbi, -, listens, stored⟩ := effect
      have saved : Shaped codec contracts before.eventManager after.owner.svcStore := by
        rw [stored]
        exact shaped.withStore rfl fun _ known => UnorderedMap.mem_emplace_of_mem _ _ known
      have described : Described contracts after.owner.svcStore
          (buildNotifyPastEventDescr codec before.owner.svcStore (addressOfWord evMgrAddrAbi)) := by
        rw [stored]
        exact ⟨congrArg (fun topic => [topic]) sameNotify, UnorderedMap.mem_emplace _ _⟩
      rw [listens]
      exact saved.listen _ described
    | notifyPast =>
      obtain ⟨sameManager, evMsg, -, stored⟩ := effect
      rw [sameManager, stored]
      split
      · exact shaped.withStore rfl fun addr known => (AList.mem_insert _).mpr (.inr known)
      · exact shaped
    | notify eventQueue =>
      obtain ⟨sameManager, sameStore⟩ := effect
      rwa [sameManager, sameStore]

/-- Only an event of the event manager changes its past events. -/
theorem Effect.getPastEvents_other {allocate : Allocator} {header : HeaderMgr} {log : ReceiptLogEntry}
    {id : EventCallbackId} {before after : Monitored} {callback : NotifyCallback Listener}
    (effect : Effect codec abi allocate header log id before after callback) {evMgr : ContractAddr}
    (other : callback = .listener .notifyPast → log.contractAddr ≠ evMgr) :
    getPastEvents evMgr after.owner.svcStore = getPastEvents evMgr before.owner.svcStore := by
  cases callback with
  | syncMsg ref => rw [effect.2]
  | listener listener =>
    cases listener with
    | deploy =>
      rw [effect.2]
      rfl
    | reg =>
      obtain ⟨_, evMgrAddrAbi, -, -, stored⟩ := effect
      rw [stored]
      exact UnorderedMap.getD_lookup_emplace _ _ _ _
    | notifyPast =>
      obtain ⟨-, evMsg, -, stored⟩ := effect
      have differs : evMgr.toList ≠ log.contractAddr.toList := by
        intro same
        exact other rfl (Vector.toList_inj.mp same).symm
      rw [stored]
      split
      · simp only [getPastEvents, AList.lookup_insert_ne differs]
      · rfl
    | notify eventQueue => rw [effect.2]

end Shaped

/-! ## How many listeners there are -/

def awaits (listener : Listener) (desc : EventDescription (NotifyCallback Listener)) : Bool :=
  match desc.notifyCallback with
  | .listener callback => callback = listener
  | .syncMsg _ => false

/-- The service's own listeners. -/
def serves (desc : EventDescription (NotifyCallback Listener)) : Bool :=
  awaits .deploy desc || awaits .reg desc || awaits .notifyPast desc

def awaitsEvents (evMgr : ContractAddr) (desc : EventDescription (NotifyCallback Listener)) : Bool :=
  awaits .notifyPast desc && desc.contractAddr = evMgr

def countListeners (kind : EventDescription (NotifyCallback Listener) → Bool)
    (manager : EventManager (NotifyCallback Listener)) : Nat :=
  manager.eventDescMap.entries.countP fun entry => kind entry.2

/-- What matters for the events of one event manager: the listeners, and the events that were stored. -/
structure View where
  deploys : Nat
  regs : Nat
  pasts : Nat
  stored : List EmittedLog

variable (evMgr : ContractAddr)

/-- What a call means for the view. -/
def View.called (header : HeaderMgr) (callback : NotifyCallback Listener) (log : ReceiptLogEntry)
    (view : View) : View :=
  match callback with
  | .listener .deploy => { view with deploys := view.deploys - 1, regs := view.regs + 1 }
  | .listener .reg =>
    { view with pasts := view.pasts + (ChainBlock.registers abi evMgr log).toNat }
  | .listener .notifyPast =>
    if log.contractAddr = evMgr then { view with stored := view.stored ++ [(header, log)] } else view
  | _ => view

structure Counted (manager : EventManager (NotifyCallback Listener)) (store : PubsubServiceStore)
    (view : View) : Prop where
  deploys : countListeners (awaits .deploy) manager = view.deploys
  regs : countListeners (awaits .reg) manager = view.regs
  pasts : countListeners (awaitsEvents evMgr) manager = view.pasts
  stored : List.Forall₂ (IsEventOf abi) view.stored (getPastEvents evMgr store)

section Counted

variable {codec abi contracts evMgr} {manager : EventManager (NotifyCallback Listener)}
  {store : PubsubServiceStore} {view : View} {id : EventCallbackId}
  {desc : EventDescription (NotifyCallback Listener)}

theorem countListeners_listen (fresh : id ∉ manager.eventDescMap.keys)
    (kind : EventDescription (NotifyCallback Listener) → Bool)
    (desc : EventDescription (NotifyCallback Listener)) :
    countListeners kind (manager.listen id desc) = countListeners kind manager + (kind desc).toNat := by
  have isNew : id ∉ manager.eventDescMap := fun stored => fresh (AList.mem_keys.mp stored)
  rw [countListeners, EventManager.listen, UnorderedMap.entries_emplace isNew, List.countP_cons]
  cases kind desc <;> rfl

theorem countListeners_cancel (listens : manager.eventDescMap.lookup id = some desc)
    (kind : EventDescription (NotifyCallback Listener) → Bool) :
    countListeners kind manager = countListeners kind (manager.cancel id) + (kind desc).toNat :=
  UnorderedMap.countP_erase listens fun entry => kind entry.2

theorem cancel_absent (absent : manager.eventDescMap.lookup id = none) : manager.cancel id = manager := by
  rw [EventManager.cancel, UnorderedMap.erase_of_absent absent]

/-- No listener of the service is at the identifier. -/
def Foreign (manager : EventManager (NotifyCallback Listener)) (id : EventCallbackId) : Prop :=
  ∀ desc, manager.eventDescMap.lookup id = some desc → serves desc = false

theorem Counted.listen (counted : Counted abi evMgr manager store view)
    (fresh : id ∉ manager.eventDescMap.keys) (foreign : serves desc = false) :
    Counted abi evMgr (manager.listen id desc) store view := by
  simp only [serves, Bool.or_eq_false_iff] at foreign
  obtain ⟨⟨noDeploy, noReg⟩, noPast⟩ := foreign
  exact {
    deploys := by rw [countListeners_listen fresh, noDeploy]; exact counted.deploys
    regs := by rw [countListeners_listen fresh, noReg]; exact counted.regs
    pasts := by rw [countListeners_listen fresh, awaitsEvents, noPast]; exact counted.pasts
    stored := counted.stored }

theorem Counted.cancel (counted : Counted abi evMgr manager store view)
    (foreign : Foreign manager id) : Counted abi evMgr (manager.cancel id) store view := by
  cases listens : manager.eventDescMap.lookup id with
  | none => rwa [cancel_absent listens]
  | some desc =>
    have serves := foreign desc listens
    simp only [SubscriberService.serves, Bool.or_eq_false_iff] at serves
    obtain ⟨⟨noDeploy, noReg⟩, noPast⟩ := serves
    have kept : ∀ kind : EventDescription (NotifyCallback Listener) → Bool, kind desc = false →
        countListeners kind (manager.cancel id) = countListeners kind manager := by
      intro kind other
      rw [countListeners_cancel listens kind, other]
      rfl
    exact {
      deploys := (kept _ noDeploy).trans counted.deploys
      regs := (kept _ noReg).trans counted.regs
      pasts := (kept _ (by rw [awaitsEvents, noPast]; rfl)).trans counted.pasts
      stored := counted.stored }

end Counted

/-! ## The calls of a block -/

abbrev ListenerEntry := Σ _ : EventCallbackId, EventDescription (NotifyCallback Listener)

/-- The service while a plan is conducted: the listeners that are still to be called are installed. -/
structure Serving (rest : List ListenerEntry) (shared : Monitored) (view : View) : Prop where
  shaped : Shaped codec contracts shared.eventManager shared.owner.svcStore
  counted : Counted abi evMgr shared.eventManager shared.owner.svcStore view
  installed : ∀ entry ∈ rest, shared.eventManager.eventDescMap.lookup entry.1 = some entry.2

section Serving

variable {codec abi contracts evMgr} {allocate : Allocator} {header : HeaderMgr}
  {log : ReceiptLogEntry} {id : EventCallbackId} {desc : EventDescription (NotifyCallback Listener)}
  {rest : List ListenerEntry} {before after : Monitored} {view : View}

/-- The sync callback removes its own listener, again and again. -/
theorem Serving.syncMsg {ref : SyncStateRef} (serving : Serving codec abi contracts evMgr rest before view)
    (others : ∀ entry ∈ rest, entry.1 ≠ id) (foreign : Foreign before.eventManager id)
    (effect : Effect codec abi allocate header log id before after (.syncMsg ref)) :
    Serving codec abi contracts evMgr rest after view ∧ Foreign after.eventManager id := by
  have shaped := effect.shaped serving.shaped
  obtain ⟨cancels, sameStore⟩ := effect
  rw [cancels, sameStore] at shaped
  constructor
  · constructor
    · rwa [cancels, sameStore]
    · rw [cancels, sameStore]
      exact serving.counted.cancel foreign
    · intro entry member
      rw [cancels, EventManager.cancel, AList.lookup_erase_ne (others entry member)]
      exact serving.installed entry member
  · intro desc listens
    rw [cancels] at listens
    exact absurd rfl (UnorderedMap.lookup_of_erase listens).2

/-- The deployment replaces its listener by the one for registrations. -/
theorem Serving.deploy (serving : Serving codec abi contracts evMgr rest before view)
    (others : ∀ entry ∈ rest, entry.1 ≠ id) (fresh : ∀ used, allocate used ∉ used)
    (listens : before.eventManager.eventDescMap.lookup id = some desc)
    (awaited : desc.notifyCallback = .listener .deploy)
    (effect : Effect codec abi allocate header log id before after (.listener .deploy)) :
    Serving codec abi contracts evMgr rest after (view.called abi evMgr header (.listener .deploy) log) := by
  have shaped := effect.shaped serving.shaped
  obtain ⟨replaces, deployed⟩ := effect
  have counts : ∀ kind, countListeners kind after.eventManager + (kind desc).toNat =
      countListeners kind before.eventManager +
        (kind (buildRegEventDescr codec before.owner.svcStore)).toNat := by
    intro kind
    rw [replaces, countListeners_listen (fresh _), countListeners_cancel listens kind]
    omega
  have deploys : countListeners (awaits .deploy) after.eventManager + 1 =
      countListeners (awaits .deploy) before.eventManager := by
    have counted := counts (awaits .deploy)
    rw [awaits, awaited] at counted
    exact counted
  have regs : countListeners (awaits .reg) after.eventManager =
      countListeners (awaits .reg) before.eventManager + 1 := by
    have counted := counts (awaits .reg)
    rw [awaits, awaited] at counted
    exact counted
  have pasts : countListeners (awaitsEvents evMgr) after.eventManager =
      countListeners (awaitsEvents evMgr) before.eventManager := by
    have counted := counts (awaitsEvents evMgr)
    rw [awaitsEvents, awaits, awaited] at counted
    exact counted
  refine ⟨shaped, ⟨?_, ?_, ?_, ?_⟩, ?_⟩
  · show _ = view.deploys - 1
    rw [← serving.counted.deploys]
    omega
  · exact regs.trans (congrArg (· + 1) serving.counted.regs)
  · exact pasts.trans serving.counted.pasts
  · rw [deployed]
    exact serving.counted.stored
  · intro entry member
    rw [replaces]
    apply UnorderedMap.lookup_emplace_of_some
    rw [EventManager.cancel, AList.lookup_erase_ne (others entry member)]
    exact serving.installed entry member

/-- The other listeners stay. -/
theorem Serving.stays (serving : Serving codec abi contracts evMgr (⟨id, desc⟩ :: rest) before view)
    (fresh : ∀ used, allocate used ∉ used) (notDeploy : desc.notifyCallback ≠ .listener .deploy)
    (notSync : ∀ ref, desc.notifyCallback ≠ .syncMsg ref) (emitter : log.contractAddr = desc.contractAddr)
    (effect : Effect codec abi allocate header log id before after desc.notifyCallback) :
    Serving codec abi contracts evMgr (⟨id, desc⟩ :: rest) after
      (view.called abi evMgr header desc.notifyCallback log) := by
  have shaped := effect.shaped serving.shaped
  have listens := serving.installed ⟨id, desc⟩ (by simp)
  have described := serving.shaped.described id desc listens
  obtain ⟨contractAddr, topics, hashes, callback⟩ := desc
  simp only at notDeploy notSync emitter effect described ⊢
  cases callback with
  | syncMsg ref => exact absurd rfl (notSync ref)
  | listener listener =>
    cases listener with
    | deploy => exact absurd rfl notDeploy
    | reg =>
      -- one more listener for past events
      obtain ⟨pubAddrAbi, evMgrAddrAbi, words, installs, stored⟩ := effect
      have counts := fun kind => countListeners_listen (fresh before.eventManager.eventDescMap.keys) kind
        (buildNotifyPastEventDescr codec before.owner.svcStore (addressOfWord evMgrAddrAbi))
      refine ⟨shaped, ⟨?_, ?_, ?_, ?_⟩, ?_⟩
      · rw [installs, counts]
        exact serving.counted.deploys
      · rw [installs, counts]
        exact serving.counted.regs
      · rw [installs, counts, serving.counted.pasts, View.called, ChainBlock.registers, words]
        rfl
      · rw [stored]
        have same := UnorderedMap.getD_lookup_emplace before.owner.svcStore.pastEventStore
          (addressOfWord evMgrAddrAbi).toList evMgr.toList []
        rw [getPastEvents, same]
        exact serving.counted.stored
      · intro entry member
        rw [installs]
        exact UnorderedMap.lookup_emplace_of_some _ _ (serving.installed entry member)
    | notifyPast =>
      -- the event goes to the end of the queue of its emitter
      obtain ⟨sameManager, evMsg, message, stored⟩ := effect
      obtain ⟨queue, found⟩ := AList.lookup_isSome.mpr described.2 |> Option.isSome_iff_exists.mp
      rw [emitter, found] at stored
      refine ⟨shaped, ?_, sameManager ▸ serving.installed⟩
      rw [sameManager, View.called]
      have events := serving.counted.stored
      by_cases same : log.contractAddr = evMgr
      · have isEvent : IsEventOf abi (header, log) (eventData header evMsg) := ⟨rfl, message⟩
        have earlier : getPastEvents evMgr before.owner.svcStore = queue := by
          rw [getPastEvents, ← same, emitter, found]
          rfl
        have now : getPastEvents evMgr after.owner.svcStore = queue ++ [eventData header evMsg] := by
          rw [stored, getPastEvents, ← same, emitter, AList.lookup_insert]
          rfl
        rw [if_pos same]
        rw [earlier] at events
        refine { serving.counted with stored := ?_ }
        rw [now]
        exact List.rel_append events (.cons isEvent .nil)
      · have differs : evMgr.toList ≠ contractAddr.toList := by
          intro equal
          exact same (emitter.trans (Vector.toList_inj.mp equal).symm)
        rw [if_neg same]
        refine { serving.counted with stored := ?_ }
        rwa [stored, getPastEvents, AList.lookup_insert_ne differs]
    | notify eventQueue =>
      -- a listener of a client touches neither the manager nor the store
      obtain ⟨sameManager, sameStore⟩ := effect
      exact ⟨shaped, by rw [sameManager, sameStore]; exact serving.counted,
        sameManager ▸ serving.installed⟩

/-- Without a call for an event of the event manager its past events stay. -/
theorem conduct_shaped (allocate : Allocator) (header : HeaderMgr)
    (calls : List (EventCallbackId × NotifyCallback Listener × ReceiptLogEntry)) {quiet : Prop}
    (shaped : Shaped codec contracts before.eventManager before.owner.svcStore)
    (others : quiet → ∀ call ∈ calls, call.2.1 = .listener .notifyPast → call.2.2.contractAddr ≠ evMgr) :
    Exec.Sat (EventManager.conductCallbackPlan (notify codec abi allocate) header calls) before
      (fun _ after => Shaped codec contracts after.eventManager after.owner.svcStore ∧
        (quiet → getPastEvents evMgr after.owner.svcStore = getPastEvents evMgr before.owner.svcStore))
      fun _ _ => True := by
  induction calls generalizing before with
  | nil => exact ⟨shaped, fun _ => rfl⟩
  | cons call calls inductionHypothesis =>
    obtain ⟨id, callback, log⟩ := call
    rw [EventManager.conductCallbackPlan, Exec.sat_bind]
    apply (notify_effect codec abi allocate callback header log id before).mono
    · intro _ middle effect
      apply (inductionHypothesis (effect.shaped shaped) fun isQuiet call member =>
        others isQuiet call (List.mem_cons_of_mem _ member)).mono
      · intro _ after done
        refine ⟨done.1, fun isQuiet => (done.2 isQuiet).trans ?_⟩
        exact effect.getPastEvents_other (others isQuiet _ List.mem_cons_self)
      · exact fun _ _ _ => trivial
    · exact fun _ _ _ => trivial

/-- A listener gets its log entries one after the other. -/
def View.calledFor (abi : AbiCodec) (evMgr : ContractAddr) (header : HeaderMgr)
    (callback : NotifyCallback Listener) (logs : List ReceiptLogEntry) (view : View) : View :=
  logs.foldl (fun view log => view.called abi evMgr header callback log) view

theorem conduct_stays (fresh : ∀ used, allocate used ∉ used)
    (notDeploy : desc.notifyCallback ≠ .listener .deploy)
    (notSync : ∀ ref, desc.notifyCallback ≠ .syncMsg ref) (logs : List ReceiptLogEntry)
    (emitters : ∀ log ∈ logs, log.contractAddr = desc.contractAddr)
    (serving : Serving codec abi contracts evMgr (⟨id, desc⟩ :: rest) before view) :
    Exec.Sat (EventManager.conductCallbackPlan (notify codec abi allocate) header
        (logs.map fun log => (id, desc.notifyCallback, log))) before
      (fun _ after => Serving codec abi contracts evMgr (⟨id, desc⟩ :: rest) after
        (view.calledFor abi evMgr header desc.notifyCallback logs))
      fun _ _ => True := by
  induction logs generalizing before view with
  | nil => exact serving
  | cons log logs inductionHypothesis =>
    rw [List.map_cons, EventManager.conductCallbackPlan, Exec.sat_bind]
    apply (notify_effect codec abi allocate desc.notifyCallback header log id before).mono
    · intro _ middle effect
      apply inductionHypothesis fun log member => emitters log (List.mem_cons_of_mem _ member)
      exact serving.stays fresh notDeploy notSync (emitters log (by simp)) effect
    · exact fun _ _ _ => trivial

theorem conduct_syncMsg {ref : SyncStateRef} (others : ∀ entry ∈ rest, entry.1 ≠ id)
    (logs : List ReceiptLogEntry) (foreign : Foreign before.eventManager id)
    (serving : Serving codec abi contracts evMgr rest before view) :
    Exec.Sat (EventManager.conductCallbackPlan (notify codec abi allocate) header
        (logs.map fun log => (id, .syncMsg ref, log))) before
      (fun _ after => Serving codec abi contracts evMgr rest after view)
      fun _ _ => True := by
  induction logs generalizing before with
  | nil => exact serving
  | cons log logs inductionHypothesis =>
    rw [List.map_cons, EventManager.conductCallbackPlan, Exec.sat_bind]
    apply (notify_effect codec abi allocate (.syncMsg ref) header log id before).mono
    · intro _ middle effect
      obtain ⟨serving', foreign'⟩ := serving.syncMsg others foreign effect
      exact inductionHypothesis foreign' serving'
    · exact fun _ _ _ => trivial

theorem calledFor_syncMsg (ref : SyncStateRef) (logs : List ReceiptLogEntry) (view : View) :
    view.calledFor abi evMgr header (.syncMsg ref) logs = view := by
  induction logs with
  | nil => rfl
  | cons log logs inductionHypothesis => exact inductionHypothesis

theorem conduct_entry (fresh : ∀ used, allocate used ∉ used) (others : ∀ entry ∈ rest, entry.1 ≠ id)
    (logs : List ReceiptLogEntry) (emitters : ∀ log ∈ logs, log.contractAddr = desc.contractAddr)
    (once : awaits .deploy desc = true → logs.length ≤ 1)
    (serving : Serving codec abi contracts evMgr (⟨id, desc⟩ :: rest) before view) :
    Exec.Sat (EventManager.conductCallbackPlan (notify codec abi allocate) header
        (logs.map fun log => (id, desc.notifyCallback, log))) before
      (fun _ after => Serving codec abi contracts evMgr rest after
        (view.calledFor abi evMgr header desc.notifyCallback logs))
      fun _ _ => True := by
  have listens := serving.installed ⟨id, desc⟩ (by simp)
  have forget : ∀ {shared view}, Serving codec abi contracts evMgr (⟨id, desc⟩ :: rest) shared view →
      Serving codec abi contracts evMgr rest shared view := fun serving =>
    { serving with installed := fun entry member => serving.installed entry (by simp [member]) }
  by_cases isSync : ∃ ref, desc.notifyCallback = .syncMsg ref
  · obtain ⟨ref, isSync⟩ := isSync
    rw [isSync, calledFor_syncMsg]
    apply conduct_syncMsg others logs _ (forget serving)
    intro found looked
    rw [Option.some.inj (looked.symm.trans listens), serves]
    simp [awaits, isSync]
  by_cases isDeploy : desc.notifyCallback = .listener .deploy
  · have atMostOne := once (by simp [awaits, isDeploy])
    cases logs with
    | nil => exact forget serving
    | cons log logs =>
      have noMore : logs = [] := List.eq_nil_of_length_eq_zero (by simpa using atMostOne)
      rw [noMore, isDeploy, List.map_cons, EventManager.conductCallbackPlan, Exec.sat_bind]
      apply (notify_effect codec abi allocate (.listener .deploy) header log id before).mono
      · intro _ middle effect
        exact (forget serving).deploy others fresh listens isDeploy effect
      · exact fun _ _ _ => trivial
  · apply (conduct_stays fresh isDeploy (fun ref same => isSync ⟨ref, same⟩) logs emitters serving).mono
    · exact fun _ _ => forget
    · exact fun _ _ _ => trivial

/-- All listeners get the log entries of a block. -/
def View.calledAll (abi : AbiCodec) (evMgr : ContractAddr) (block : ChainBlock)
    (entries : List ListenerEntry) (view : View) : View :=
  entries.foldl (fun view entry => view.calledFor abi evMgr block.header entry.2.notifyCallback
    (matchingLogs block.receiptsMgr entry.2)) view

theorem conduct_entries (fresh : ∀ used, allocate used ∉ used) (block : ChainBlock)
    (entries : List ListenerEntry)
    (once : ∀ entry ∈ entries, awaits .deploy entry.2 = true →
      (matchingLogs block.receiptsMgr entry.2).length ≤ 1)
    (distinct : entries.NodupKeys) (serving : Serving codec abi contracts evMgr entries before view) :
    Exec.Sat (EventManager.conductCallbackPlan (notify codec abi allocate) block.header
        (entries.flatMap fun entry => (matchingLogs block.receiptsMgr entry.2).map fun log =>
          (entry.1, entry.2.notifyCallback, log))) before
      (fun _ after => Serving codec abi contracts evMgr [] after
        (view.calledAll abi evMgr block entries))
      fun _ _ => True := by
  induction entries generalizing before view with
  | nil => exact serving
  | cons entry entries inductionHypothesis =>
    obtain ⟨id, desc⟩ := entry
    obtain ⟨fresh', distinct⟩ := List.nodupKeys_cons.mp distinct
    have others : ∀ entry ∈ entries, entry.1 ≠ id := by
      intro entry member same
      have isKey := List.mem_keys_of_mem member
      rw [same] at isKey
      exact fresh' isKey
    have emitters : ∀ log ∈ matchingLogs block.receiptsMgr desc, log.contractAddr = desc.contractAddr := by
      intro log member
      simp only [matchingLogs, List.mem_filter, decide_eq_true_eq] at member
      exact member.2.1
    rw [List.flatMap_cons, EventManager.conductCallbackPlan_append, Exec.sat_bind]
    apply (conduct_entry fresh others _ emitters (once ⟨id, desc⟩ (by simp)) serving).mono
    · intro _ middle serving
      exact inductionHypothesis (fun entry member => once entry (by simp [member])) distinct serving
    · exact fun _ _ _ => trivial

end Serving

/-! ## What a block means for the view -/

section Next

variable (block : ChainBlock)

/-- The listeners of each kind get the log entries once each. -/
def View.after (deploys regs pasts : Nat) (view : View) : View where
  deploys := view.deploys - deploys * (block.serviceDeployed contracts).length
  regs := view.regs + deploys * (block.serviceDeployed contracts).length
  pasts := view.pasts + regs * (block.publisherRegistered abi contracts evMgr).length
  stored := view.stored ++ (List.replicate pasts (block.notifySubscribers contracts evMgr)).flatten

def View.next (view : View) : View :=
  view.after abi contracts evMgr block view.deploys view.regs view.pasts

variable {abi contracts evMgr block} {header : HeaderMgr}

theorem calledFor_deploy (logs : List ReceiptLogEntry) (view : View) :
    view.calledFor abi evMgr header (.listener .deploy) logs =
      { view with deploys := view.deploys - logs.length, regs := view.regs + logs.length } := by
  induction logs generalizing view with
  | nil => rfl
  | cons log logs inductionHypothesis =>
    rw [View.calledFor, List.foldl_cons]
    refine (inductionHypothesis _).trans ?_
    simp only [View.called, List.length_cons, View.mk.injEq, and_true]
    omega

theorem calledFor_reg (logs : List ReceiptLogEntry) (view : View) :
    view.calledFor abi evMgr header (.listener .reg) logs =
      { view with pasts := view.pasts + (logs.filter (ChainBlock.registers abi evMgr)).length } := by
  induction logs generalizing view with
  | nil => rfl
  | cons log logs inductionHypothesis =>
    rw [View.calledFor, List.foldl_cons]
    refine (inductionHypothesis _).trans ?_
    simp only [View.called, List.filter_cons]
    cases ChainBlock.registers abi evMgr log with
    | false => rfl
    | true =>
      simp only [if_true, List.length_cons, Bool.toNat_true, View.mk.injEq, true_and, and_true]
      omega

theorem calledFor_notifyPast {emitter : ContractAddr} (logs : List ReceiptLogEntry)
    (emitters : ∀ log ∈ logs, log.contractAddr = emitter) (view : View) :
    view.calledFor abi evMgr header (.listener .notifyPast) logs =
      if emitter = evMgr then { view with stored := view.stored ++ logs.map fun log => (header, log) }
      else view := by
  induction logs generalizing view with
  | nil => simp [View.calledFor]
  | cons log logs inductionHypothesis =>
    rw [View.calledFor, List.foldl_cons]
    refine (inductionHypothesis (fun log member => emitters log (by simp [member])) _).trans ?_
    rw [View.called, emitters log (by simp)]
    split <;> simp

theorem calledFor_notify (eventQueue : Nat) (logs : List ReceiptLogEntry) (view : View) :
    view.calledFor abi evMgr header (.listener (.notify eventQueue)) logs = view := by
  induction logs with
  | nil => rfl
  | cons log logs inductionHypothesis => exact inductionHypothesis

/-- One listener gets the log entries of its kind. -/
theorem calledFor_matchingLogs {store : PubsubServiceStore}
    {desc : EventDescription (NotifyCallback Listener)} (described : Described contracts store desc)
    (view : View) :
    view.calledFor abi evMgr block.header desc.notifyCallback (matchingLogs block.receiptsMgr desc) =
      view.after abi contracts evMgr block (awaits .deploy desc).toNat (awaits .reg desc).toNat
        (awaitsEvents evMgr desc).toNat := by
  obtain ⟨contractAddr, topics, hashes, callback⟩ := desc
  simp only [Described] at described
  cases callback with
  | syncMsg ref =>
    rw [calledFor_syncMsg]
    simp [View.after, awaits, awaitsEvents]
  | listener listener =>
    cases listener with
    | deploy =>
      obtain ⟨rfl, rfl⟩ := described
      rw [calledFor_deploy]
      simp [View.after, awaits, awaitsEvents, ChainBlock.serviceDeployed, ChainBlock.logsOf, matchingLogs]
    | reg =>
      obtain ⟨rfl, rfl⟩ := described
      rw [calledFor_reg]
      simp [View.after, awaits, awaitsEvents, ChainBlock.publisherRegistered, ChainBlock.logsOf,
        matchingLogs]
    | notifyPast =>
      obtain ⟨rfl, -⟩ := described
      have emitters : ∀ log ∈ block.logsOf contractAddr [contracts.notifyEvTopic],
          log.contractAddr = contractAddr := by
        intro log member
        simp only [ChainBlock.logsOf, List.mem_filter, decide_eq_true_eq] at member
        exact member.2.1
      refine (calledFor_notifyPast _ emitters view).trans ?_
      by_cases same : contractAddr = evMgr
      · simp [View.after, awaits, awaitsEvents, ChainBlock.notifySubscribers, same]
      · simp [View.after, awaits, awaitsEvents, same]
    | notify eventQueue =>
      rw [calledFor_notify]
      simp [View.after, awaits, awaitsEvents]

theorem matchingLogs_of_deploy {store : PubsubServiceStore}
    {desc : EventDescription (NotifyCallback Listener)} (described : Described contracts store desc)
    (awaited : awaits .deploy desc = true) :
    matchingLogs block.receiptsMgr desc = block.serviceDeployed contracts := by
  obtain ⟨contractAddr, topics, hashes, callback⟩ := desc
  cases callback with
  | syncMsg ref => cases awaited
  | listener listener =>
    obtain rfl : listener = .deploy := of_decide_eq_true awaited
    obtain ⟨rfl, rfl⟩ := described
    rfl

theorem after_after (deploys regs pasts deploys' regs' pasts' : Nat) (view : View) :
    (view.after abi contracts evMgr block deploys regs pasts).after abi contracts evMgr block deploys'
        regs' pasts' =
      view.after abi contracts evMgr block (deploys' + deploys) (regs' + regs) (pasts' + pasts) := by
  simp only [View.after, Nat.add_mul, View.mk.injEq]
  refine ⟨by omega, by omega, by omega, ?_⟩
  rw [Nat.add_comm pasts', List.replicate_add, List.flatten_append, List.append_assoc]

theorem calledAll_eq {store : PubsubServiceStore} (entries : List ListenerEntry)
    (described : ∀ entry ∈ entries, Described contracts store entry.2) (view : View) :
    view.calledAll abi evMgr block entries =
      view.after abi contracts evMgr block (entries.countP fun entry => awaits .deploy entry.2)
        (entries.countP fun entry => awaits .reg entry.2)
        (entries.countP fun entry => awaitsEvents evMgr entry.2) := by
  have asNat : ∀ holds : Bool, (if holds = true then 1 else 0) = holds.toNat := by
    intro holds
    cases holds <;> rfl
  induction entries generalizing view with
  | nil => simp [View.calledAll, View.after]
  | cons entry entries inductionHypothesis =>
    rw [View.calledAll, List.foldl_cons, calledFor_matchingLogs (described entry (by simp))]
    refine (inductionHypothesis (fun entry member => described entry (by simp [member])) _).trans ?_
    simp only [List.countP_cons, asNat, after_after]

end Next

end SubscriberService

namespace BlockchainMgr

open SubscriberService

variable (mgr : MgrConfig)

/-! ## One block -/

/-- The host answers with the receipts of the block, and the allocator gives what is not in use. -/
structure Answers (host : HostBlockService) (block : ChainBlock) : Prop where
  gets : receiptsMgrGetter mgr host block.header.blkNum = .ok block.receiptsMgr
  root : block.receiptsMgr.rootHashBytes = block.header.rawHeader.receiptsRoot
  bloom : block.header.rawHeader.logsBloom = consensusBloom mgr.codec block.receiptsMgr.logEntries
  fresh : ∀ used, host.allocate used ∉ used

variable {mgr} {host : HostBlockService} {block : ChainBlock} {contracts : PubsubServiceStore}
  {evMgr : ContractAddr} {shared : Monitored} {view : View}

/-- What holds after the calls of the block holds after the block. -/
theorem onHeaderValidated_conducts (answers : Answers mgr host block)
    (registered : EventManager.Registered mgr.codec shared.eventManager) {property : Monitored → Prop}
    (depends : ∀ {before after : Monitored}, after.eventManager = before.eventManager →
      after.owner.svcStore = before.owner.svcStore → property before → property after)
    (conducts : ∀ before : Monitored, before.eventManager = shared.eventManager →
      before.owner.svcStore = shared.owner.svcStore →
      Exec.Sat (EventManager.conductCallbackPlan (notify mgr.codec mgr.abi host.allocate) block.header
        (shared.eventManager.expectedCalls block.receiptsMgr)) before
        (fun _ after => property after) fun _ _ => True) :
    Exec.Sat (onHeaderValidated mgr host block.header) shared (fun _ after => property after)
      fun _ _ => True := by
  obtain ⟨plans, planned, calls⟩ :=
    EventManager.callbackPlans_exact registered answers.gets answers.root answers.bloom
  simp only [onHeaderValidated, checkEvents, EventManager.checkEvents, onOwner, Exec.sat_bind,
    Exec.sat_modify, Exec.sat_get, planned, Exec.ofExcept, Exec.sat_pure, calls]
  refine Exec.Sat.mono (conducts _ ?_ ?_) ?_ ?_
  · rfl
  · rfl
  · intro _ middle done
    simp only [Exec.sat_ite, refreshPlan, Exec.sat_bind, Exec.sat_ofExcept, Exec.sat_modify,
      Exec.sat_pure]
    refine ⟨fun _ => ⟨fun latest _ => ?_, fun _ _ => trivial⟩, fun _ => done⟩
    obtain ⟨_, _, refreshed⟩ := refreshBootstrapPlan_eq mgr.config latest middle
    rw [refreshed]
    refine depends ?_ ?_ done
    · rfl
    · rfl
  · exact fun _ _ _ => trivial

theorem onHeaderValidated_serving (answers : Answers mgr host block)
    (once : 0 < view.deploys → (block.serviceDeployed contracts).length ≤ 1)
    (shaped : Shaped mgr.codec contracts shared.eventManager shared.owner.svcStore)
    (counted : Counted mgr.abi evMgr shared.eventManager shared.owner.svcStore view) :
    Exec.Sat (onHeaderValidated mgr host block.header) shared
      (fun _ after => Counted mgr.abi evMgr after.eventManager after.owner.svcStore
        (view.next mgr.abi contracts evMgr block))
      fun _ _ => True := by
  apply onHeaderValidated_conducts answers shaped.registered
  · intro before after sameManager sameStore
    rw [sameManager, sameStore]
    exact id
  · intro before sameManager sameStore
    have installed : ∀ entry ∈ shared.eventManager.eventDescMap.entries,
        shared.eventManager.eventDescMap.lookup entry.1 = some entry.2 :=
      fun entry member => AList.mem_lookup_iff.mpr member
    have described : ∀ entry ∈ shared.eventManager.eventDescMap.entries,
        Described contracts shared.owner.svcStore entry.2 :=
      fun entry member => shaped.described entry.1 entry.2 (installed entry member)
    have serving : Serving mgr.codec mgr.abi contracts evMgr
        shared.eventManager.eventDescMap.entries before view := by
      constructor
      · rwa [sameManager, sameStore]
      · rwa [sameManager, sameStore]
      · rwa [sameManager]
    have atMostOnce : ∀ entry ∈ shared.eventManager.eventDescMap.entries,
        awaits .deploy entry.2 = true → (matchingLogs block.receiptsMgr entry.2).length ≤ 1 := by
      intro entry member awaited
      rw [matchingLogs_of_deploy (described entry member) awaited]
      apply once
      rw [← counted.deploys]
      exact List.countP_pos_iff.mpr ⟨entry, member, awaited⟩
    have conducted := conduct_entries answers.fresh block _ atMostOnce
      shared.eventManager.eventDescMap.nodupKeys serving
    apply conducted.mono
    · intro _ after done
      have counts := done.counted
      rw [calledAll_eq _ described] at counts
      rw [View.next, ← counted.deploys, ← counted.regs, ← counted.pasts]
      exact counts
    · exact fun _ _ _ => trivial

/-- Without an event of the event manager its past events stay, however many listeners there are. -/
theorem onHeaderValidated_shaped (answers : Answers mgr host block)
    (shaped : Shaped mgr.codec contracts shared.eventManager shared.owner.svcStore) :
    Exec.Sat (onHeaderValidated mgr host block.header) shared
      (fun _ after => Shaped mgr.codec contracts after.eventManager after.owner.svcStore ∧
        (block.notifySubscribers contracts evMgr = [] →
          getPastEvents evMgr after.owner.svcStore = getPastEvents evMgr shared.owner.svcStore))
      fun _ _ => True := by
  apply onHeaderValidated_conducts answers shaped.registered
  · intro before after sameManager sameStore
    rw [sameManager, sameStore]
    exact id
  · intro before sameManager sameStore
    rw [← sameManager, ← sameStore] at shaped ⊢
    have others : block.notifySubscribers contracts evMgr = [] →
        ∀ call ∈ before.eventManager.expectedCalls block.receiptsMgr,
          call.2.1 = .listener .notifyPast → call.2.2.contractAddr ≠ evMgr := by
      intro noEvents call called isPast emits
      obtain ⟨desc, listens, callback, matched⟩ := EventManager.mem_expectedCalls called
      have described := shaped.described call.1 desc listens
      rw [Described, ← callback, isPast] at described
      simp only [matchingLogs, List.mem_filter, decide_eq_true_eq] at matched
      have isEvent : (block.header, call.2.2) ∈ block.notifySubscribers contracts evMgr := by
        apply List.mem_map_of_mem
        simp only [ChainBlock.logsOf, List.mem_filter, decide_eq_true_eq]
        exact ⟨matched.1, emits, described.1 ▸ matched.2.2⟩
      rw [noEvents] at isEvent
      cases isEvent
    exact conduct_shaped host.allocate block.header _ shaped others

/-! ## Every run -/

/-- A block that the service is called back for, what the other holders of listeners do, and anything
    else that happens to the manager. -/
inductive ServiceAction where
  | block (host : HostBlockService) (block : ChainBlock)
  | subscribe (evMgrAddr : ContractAddr) (allocate : Allocator)
  | unsubscribe (id : EventCallbackId)
  | newSyncState (readings : Readings HostBlockService)
  | other

variable (mgr) in
/-- The allocator gives what is not in use, and nobody cancels a listener of the service. -/
def ServiceStep (before : Monitored) (action : ServiceAction) (after : Monitored) : Prop :=
  match action with
  | .block host block =>
    Answers mgr host block ∧ onHeaderValidated mgr host block.header before = .ok () after
  | .subscribe evMgrAddr allocate =>
    (∀ used, allocate used ∉ used) ∧ subscribe mgr evMgrAddr allocate before = .ok () after
  | .unsubscribe id => Foreign before.eventManager id ∧ cancel id before = .ok () after
  | .newSyncState readings =>
    Foreign before.eventManager before.syncMsgMgr.syncEventCallbackId ∧
      readings.listenId ∉ (before.eventManager.cancel
        before.syncMsgMgr.syncEventCallbackId).eventDescMap.keys ∧
      Exec.Ends (Shared.newSyncState mgr.codec readings) before after
  | .other =>
    after.eventManager = before.eventManager ∧ after.owner.svcStore = before.owner.svcStore

/-- The blocks that were processed, oldest first. -/
def processed (taken : List (Monitored × ServiceAction)) : List ChainBlock :=
  taken.filterMap fun
    | (_, .block _ block) => some block
    | _ => none

/-- What the service has installed for the blocks that it processed. -/
def viewOf (mgr : MgrConfig) (contracts : PubsubServiceStore) (evMgr : ContractAddr)
    (blocks : List ChainBlock) (stored : List EmittedLog) : View where
  deploys := 1 - deployments contracts blocks
  regs := deployments contracts blocks
  pasts := (registrations mgr.abi contracts evMgr blocks).length
  stored

variable (mgr contracts evMgr) in
structure Served (blocks : List ChainBlock) (shared : Monitored) : Prop where
  shaped : Shaped mgr.codec contracts shared.eventManager shared.owner.svcStore
  counted : deployments contracts blocks ≤ 1 → ∃ stored,
    Counted mgr.abi evMgr shared.eventManager shared.owner.svcStore
      (viewOf mgr contracts evMgr blocks stored)
  complete : OneAfterTheOther mgr.abi contracts evMgr blocks →
    List.Forall₂ (IsEventOf mgr.abi) (blocks.flatMap (ChainBlock.notifySubscribers contracts evMgr))
      (getPastEvents evMgr shared.owner.svcStore)

variable {blocks : List ChainBlock}

theorem next_viewOf (stored : List EmittedLog)
    (deployedOnce : deployments contracts (blocks ++ [block]) ≤ 1) :
    (viewOf mgr contracts evMgr blocks stored).next mgr.abi contracts evMgr block =
      viewOf mgr contracts evMgr (blocks ++ [block]) (stored ++
        (List.replicate (registrations mgr.abi contracts evMgr blocks).length
          (block.notifySubscribers contracts evMgr)).flatten) := by
  rw [deployments_snoc] at deployedOnce
  simp only [viewOf, View.next, View.after, deployments_snoc, registrations_snoc, View.mk.injEq]
  split at deployedOnce
  next notDeployed =>
    simp [notDeployed, registrations_of_not_deployed notDeployed]
  next deployed =>
    have once : deployments contracts blocks = 1 := by omega
    simp [once]

/-- One more block. -/
theorem Served.snoc {after : Monitored} (served : Served mgr contracts evMgr blocks shared)
    (answers : Answers mgr host block)
    (returned : onHeaderValidated mgr host block.header shared = .ok () after) :
    Served mgr contracts evMgr (blocks ++ [block]) after := by
  have ofSat : ∀ {property : Monitored → Prop}, Exec.Sat (onHeaderValidated mgr host block.header) shared
      (fun _ after => property after) (fun _ _ => True) → property after := by
    intro property sat
    rwa [Exec.Sat, returned] at sat
  -- the counts of the listeners after this block, from those before it
  have calls : ∀ stored, deployments contracts (blocks ++ [block]) ≤ 1 →
      Counted mgr.abi evMgr shared.eventManager shared.owner.svcStore
        (viewOf mgr contracts evMgr blocks stored) →
      Counted mgr.abi evMgr after.eventManager after.owner.svcStore
        (viewOf mgr contracts evMgr (blocks ++ [block]) (stored ++
          (List.replicate (registrations mgr.abi contracts evMgr blocks).length
            (block.notifySubscribers contracts evMgr)).flatten)) := by
    intro stored deployedOnce counted
    rw [← next_viewOf stored deployedOnce]
    apply ofSat (onHeaderValidated_serving answers _ served.shaped counted)
    -- the listener for the deployment is only there before the deployment
    intro awaited
    rw [deployments_snoc] at deployedOnce
    split at deployedOnce
    next => exact deployedOnce
    next deployed =>
      simp only [viewOf] at awaited
      omega
  have earlierOnce : deployments contracts (blocks ++ [block]) ≤ 1 → deployments contracts blocks ≤ 1 := by
    rw [deployments_snoc]
    split <;> omega
  have shapedAfter : Shaped mgr.codec contracts after.eventManager after.owner.svcStore ∧
      (block.notifySubscribers contracts evMgr = [] →
        getPastEvents evMgr after.owner.svcStore = getPastEvents evMgr shared.owner.svcStore) :=
    ofSat (onHeaderValidated_shaped answers served.shaped)
  obtain ⟨shaped, quiet⟩ := shapedAfter
  constructor
  · exact shaped
  · intro deployedOnce
    obtain ⟨stored, counted⟩ := served.counted (earlierOnce deployedOnce)
    exact ⟨_, calls stored deployedOnce counted⟩
  · -- the events of the block come behind those stored
    intro ordered
    have complete := served.complete ordered.init
    rw [List.flatMap_append, List.flatMap_singleton]
    by_cases emits : block.notifySubscribers contracts evMgr = []
    · rw [emits, List.append_nil, quiet emits]
      exact complete
    · -- a block with events stands behind the deployment and the registration
      obtain ⟨-, deployed, registered⟩ := ordered blocks block [] rfl emits
      have deployedOnce : deployments contracts (blocks ++ [block]) ≤ 1 := by
        rw [deployments_snoc, deployed]
        exact Nat.le_refl 1
      obtain ⟨_, counted⟩ := served.counted (earlierOnce deployedOnce)
      have stores := (calls (blocks.flatMap (ChainBlock.notifySubscribers contracts evMgr)) deployedOnce
        { counted with stored := complete }).stored
      rw [registered] at stores
      simpa [viewOf] using stores

/-- The other steps leave the service as it is. -/
theorem Served.transfer {after : Monitored} (served : Served mgr contracts evMgr blocks shared)
    (shaped : Shaped mgr.codec contracts after.eventManager after.owner.svcStore)
    (sameStore : after.owner.svcStore = shared.owner.svcStore)
    (counts : ∀ view, Counted mgr.abi evMgr shared.eventManager shared.owner.svcStore view →
      Counted mgr.abi evMgr after.eventManager shared.owner.svcStore view) :
    Served mgr contracts evMgr blocks after where
  shaped := shaped
  counted once := by
    obtain ⟨stored, counted⟩ := served.counted once
    rw [sameStore]
    exact ⟨stored, counts _ counted⟩
  complete ordered := by
    rw [sameStore]
    exact served.complete ordered

theorem Served.listen {after : Monitored} (served : Served mgr contracts evMgr blocks shared)
    {id : EventCallbackId} {contractAddr : ContractAddr} {topics : List EventTopic}
    {notifyCallback : NotifyCallback Listener}
    (foreign : serves (.build mgr.codec contractAddr topics notifyCallback) = false)
    (fresh : id ∉ shared.eventManager.eventDescMap.keys)
    (listens : after.eventManager =
      shared.eventManager.listen id (.build mgr.codec contractAddr topics notifyCallback))
    (sameStore : after.owner.svcStore = shared.owner.svcStore) :
    Served mgr contracts evMgr blocks after := by
  have described : Described contracts shared.owner.svcStore
      (.build mgr.codec contractAddr topics notifyCallback) := by
    cases notifyCallback with
    | syncMsg ref => trivial
    | listener listener =>
      cases listener with
      | notify eventQueue => trivial
      | _ => cases foreign
  apply served.transfer _ sameStore
  · intro view counted
    rw [listens]
    exact counted.listen fresh foreign
  · rw [listens, sameStore]
    exact served.shaped.listen id described

theorem Served.cancel {after : Monitored} (served : Served mgr contracts evMgr blocks shared)
    {id : EventCallbackId} (foreign : Foreign shared.eventManager id)
    (cancels : after.eventManager = shared.eventManager.cancel id)
    (sameStore : after.owner.svcStore = shared.owner.svcStore) :
    Served mgr contracts evMgr blocks after := by
  apply served.transfer _ sameStore
  · intro view counted
    rw [cancels]
    exact counted.cancel foreign
  · rw [cancels, sameStore]
    exact served.shaped.cancel id

/-- A new sync state takes the place of the old one's listener. -/
theorem Served.newSyncState {readings : Readings HostBlockService} {after : Monitored}
    (served : Served mgr contracts evMgr blocks shared)
    (foreign : Foreign shared.eventManager shared.syncMsgMgr.syncEventCallbackId)
    (fresh : readings.listenId ∉
      (shared.eventManager.cancel shared.syncMsgMgr.syncEventCallbackId).eventDescMap.keys)
    (ends : Exec.Ends (Shared.newSyncState mgr.codec readings) shared after) :
    Served mgr contracts evMgr blocks after := by
  have sat : Exec.Sat (Shared.newSyncState mgr.codec readings) shared
      (fun _ after => Served mgr contracts evMgr blocks after)
      (fun _ after => Served mgr contracts evMgr blocks after) := by
    simp only [Shared.newSyncState, Exec.sat_bind, Exec.sat_modify, Exec.sat_ofExcept]
    have cancelled : Served mgr contracts evMgr blocks { shared with
        eventManager := shared.eventManager.cancel shared.syncMsgMgr.syncEventCallbackId } :=
      served.cancel foreign rfl rfl
    refine ⟨fun genTime _ => ⟨fun nonce _ => ?_, fun _ _ => cancelled⟩, fun _ _ => cancelled⟩
    exact cancelled.listen rfl fresh rfl rfl
  exact sat.ends (Served mgr contracts evMgr blocks) ends

theorem Served.step {action : ServiceAction} {after : Monitored} {taken : List (Monitored × ServiceAction)}
    (served : Served mgr contracts evMgr (processed taken) shared)
    (stepped : ServiceStep mgr shared action after) :
    Served mgr contracts evMgr (processed (taken ++ [(shared, action)])) after := by
  cases action with
  | block host block =>
    rw [processed, List.filterMap_append]
    exact served.snoc stepped.1 stepped.2
  | subscribe evMgrAddr allocate =>
    rw [processed, List.filterMap_append, List.filterMap_cons, List.filterMap_nil, List.append_nil]
    obtain ⟨fresh, returned⟩ := stepped
    cases returned
    exact served.listen rfl (fresh shared.eventManager.eventDescMap.keys) rfl rfl
  | unsubscribe id =>
    rw [processed, List.filterMap_append, List.filterMap_cons, List.filterMap_nil, List.append_nil]
    obtain ⟨foreign, returned⟩ := stepped
    cases returned
    exact served.cancel foreign rfl rfl
  | newSyncState readings =>
    rw [processed, List.filterMap_append, List.filterMap_cons, List.filterMap_nil, List.append_nil]
    exact served.newSyncState stepped.1 stepped.2.1 stepped.2.2
  | other =>
    rw [processed, List.filterMap_append, List.filterMap_cons, List.filterMap_nil, List.append_nil]
    apply served.transfer _ stepped.2
    · intro view counted
      rwa [stepped.1]
    · rw [stepped.1, stepped.2]
      exact served.shaped

end BlockchainMgr

/-! ## A deployment, a registration and an event -/

namespace SampleService

open SampleChain SampleClient

def pubsubContAddr : ContractAddr := Vector.replicate 20 0

def evMgrAddr : ContractAddr := Vector.replicate 20 1

def store : PubsubServiceStore where
  pubsubContAddr
  deployEvTopic := Vector.replicate 32 1
  regEvTopic := Vector.replicate 32 2
  notifyEvTopic := Vector.replicate 32 3
  isDeployed := false
  evMgrAddrMap := ∅
  pastEventStore := ∅

def args : BlockchainMgr.InitArgs := { SampleClient.args with store }

/-- The addresses and the topics of the log entries with their hashes. -/
def hashes : List (Bytes × Hash) := [
  (List.replicate 20 0, zeroAddrHash),
  (List.replicate 32 0, zeroTopicHash),
  (List.replicate 20 1,
    #v[233, 101, 74, 77, 25, 67, 24, 232, 239, 126, 100, 198, 203, 195, 28, 52, 28, 101, 10, 106, 3,
      158, 164, 72, 250, 248, 16, 26, 244, 3, 218, 77]),
  (List.replicate 32 1,
    #v[206, 188, 136, 130, 254, 203, 236, 127, 184, 13, 44, 244, 179, 18, 190, 192, 24, 136, 76, 45,
      102, 102, 124, 103, 169, 5, 8, 33, 75, 216, 186, 252]),
  (List.replicate 32 2,
    #v[238, 74, 7, 159, 91, 20, 162, 68, 101, 24, 29, 69, 175, 50, 168, 5, 60, 45, 68, 100, 70, 215, 1,
      147, 89, 226, 16, 184, 46, 83, 184, 186]),
  (List.replicate 32 3,
    #v[74, 122, 77, 227, 125, 239, 142, 16, 134, 18, 97, 245, 142, 16, 3, 230, 8, 109, 244, 73, 182, 21,
      187, 65, 28, 57, 102, 149, 72, 225, 157, 186])]

def codec : HeaderCodec where
  parse := fun _ => .error "Not a header"
  keccak256 := fun binary =>
    match hashes.find? fun entry => entry.1 = binary with
    | some entry => entry.2
    | none => Vector.replicate 32 0

def regWords : Vector UInt8 32 × Vector UInt8 32 :=
  (addressToAbiAddress (Vector.replicate 20 2), addressToAbiAddress evMgrAddr)

def deployLog : ReceiptLogEntry where
  contractAddr := pubsubContAddr
  topics := [store.deployEvTopic, addressToAbiAddress pubsubContAddr]
  logData := []

def regLog : ReceiptLogEntry where
  contractAddr := pubsubContAddr
  topics := [store.regEvTopic]
  logData := regWords.1.toList ++ regWords.2.toList

def eventLog : ReceiptLogEntry where
  contractAddr := evMgrAddr
  topics := [store.notifyEvTopic]
  logData := SampleClient.logData

/-- A block with one receipt. -/
structure LoggedBlock where
  parentHash : Hash
  height : UInt64
  logEntries : List ReceiptLogEntry
  receiptsRoot : Bytes
  hash : Hash

namespace LoggedBlock

def bloom (block : LoggedBlock) : Bytes := consensusBloom codec block.logEntries

def receipt (block : LoggedBlock) : Bytes :=
  rlpList [rlpBytes [1], rlpBytes (toBytes 63000), rlpBytes block.bloom,
    rlpList (block.logEntries.map fun log => rlpList [
      rlpBytes log.contractAddr.toList, rlpList (log.topics.map fun topic => rlpBytes topic.toList),
      rlpBytes log.logData])]

def chainBlock (block : LoggedBlock) : ChainBlock where
  header := { HeaderMgr.init with
    rawHeader := { rawHeader block.parentHash.toList block.height with
      receiptsRoot := block.receiptsRoot
      logsBloom := block.bloom }
    hash := block.hash
    blkNum := firstBlkNum + block.height }
  receiptsMgr := {
    receipts := [{ logEntries := block.logEntries }]
    rootHashBytes := block.receiptsRoot }

/-- The host with the receipt of the block. -/
def host (block : LoggedBlock) : HostBlockService where
  getReceiptsRlpByNum := fun _ => .ok [block.receipt]
  getLatestBlockNum := .ok (firstBlkNum + 5)
  allocate

end LoggedBlock

def deployBlock : LoggedBlock where
  parentHash := block0.hash
  height := 1
  logEntries := [deployLog]
  receiptsRoot :=
    [189, 214, 178, 254, 153, 133, 202, 99, 242, 106, 132, 229, 220, 147, 164, 49, 164, 69, 209, 173, 0,
      116, 175, 111, 137, 155, 202, 213, 242, 34, 123, 166]
  hash :=
    #v[93, 228, 139, 210, 5, 145, 117, 96, 74, 176, 186, 41, 174, 245, 64, 189, 30, 241, 204, 231, 12,
      215, 73, 142, 30, 93, 104, 14, 111, 14, 197, 235]

def regBlock : LoggedBlock where
  parentHash := deployBlock.hash
  height := 2
  logEntries := [regLog]
  receiptsRoot :=
    [49, 144, 64, 25, 94, 249, 173, 17, 233, 158, 30, 173, 225, 45, 19, 148, 70, 114, 127, 254, 75, 182,
      155, 116, 172, 74, 223, 97, 141, 60, 12, 94]
  hash :=
    #v[34, 250, 171, 40, 78, 167, 213, 5, 120, 193, 7, 84, 237, 228, 118, 138, 219, 35, 10, 253, 225,
      217, 103, 192, 225, 235, 148, 91, 216, 245, 14, 208]

def eventBlock : LoggedBlock where
  parentHash := regBlock.hash
  height := 3
  logEntries := [eventLog]
  receiptsRoot :=
    [64, 54, 167, 180, 113, 199, 11, 201, 155, 57, 36, 168, 99, 25, 91, 33, 191, 48, 221, 34, 64, 251,
      138, 209, 158, 11, 40, 70, 230, 74, 203, 222]
  hash :=
    #v[44, 121, 172, 14, 191, 115, 24, 59, 177, 0, 57, 210, 99, 180, 34, 30, 31, 191, 103, 219, 117,
      205, 123, 88, 152, 147, 58, 151, 119, 108, 204, 10]

/-- A registration, and the first event of its event manager. -/
def regEventBlock : LoggedBlock where
  parentHash := deployBlock.hash
  height := 2
  logEntries := [regLog, eventLog]
  receiptsRoot :=
    [252, 68, 213, 125, 32, 73, 55, 45, 138, 88, 65, 95, 50, 238, 66, 28, 129, 106, 102, 3, 93, 54, 151,
      250, 242, 7, 119, 235, 136, 252, 53, 22]
  hash :=
    #v[213, 250, 48, 76, 15, 152, 1, 80, 95, 210, 113, 144, 93, 238, 70, 71, 240, 18, 70, 193, 16, 202,
      102, 231, 36, 189, 192, 116, 20, 79, 168, 248]

def mgr : MgrConfig where
  config
  selector := .goerli
  codec
  receipts := {
    fromBytes := fun binary =>
      match [deployBlock, regBlock, eventBlock, regEventBlock].find? fun block =>
          block.receipt = binary with
      | some block => .ok { logEntries := block.logEntries }
      | none => .error "Not a sample receipt"
    trieHash := fun receipts =>
      match [deployBlock, regBlock, eventBlock, regEventBlock].find? fun block =>
          [block.receipt] = receipts with
      | some block => .ok block.receiptsRoot
      | none => .error "Not the sample receipts" }
  abi := {
    toMessage := fun data =>
      if data = SampleClient.logData then .ok SampleClient.message else .error "Not the sample log"
    toWords := fun data => if data = regLog.logData then .ok regWords else .error "Not the sample log" }

end SampleService

namespace BlockchainMgr

open SubscriberService SampleService

end BlockchainMgr

end Decentagram.EthereumClt
