import Decentagram.Ethereum.PastEvents

/-! # A subscription between threads

One subscription of a client while blocks are appended on another thread.  `AppendBlock` holds the mutex of
the monitor, which the emitter needs to read the last validated number; the queue of the client, the
store of past events and the listeners have mutexes of their own.  Between two critical sections of one
thread any other thread may run.  `GetPastEvents` copies a queue of past events under the mutex of the
store, and the handler of past events appends to it under the mutex of the queue: the two may overlap.
-/

namespace Decentagram.EthereumClt

open Decentagram.Lib
open Decentagram.Eth

/-- What a subscription listens to, and what its handler puts into the queue for a log entry. -/
structure Subscription (ι : Type) where
  contractAddr : ContractAddr
  topics : List EventTopic
  item : HeaderMgr → ReceiptLogEntry → Except Exception ι

/-- `NotifyEventHandler`. -/
def notifyEventItem (abi : AbiCodec) (header : HeaderMgr) (log : ReceiptLogEntry) :
    Except Exception EventData :=
  (abi.toMessage log.logData).map (SubscriberService.eventData header)

theorem notifyEventHandler_eq (abi : AbiCodec) (eventQueue : Nat) (header : HeaderMgr)
    (log : ReceiptLogEntry) :
    SubscriberService.notifyEventHandler abi eventQueue header log = (do
      let item ← Exec.ofExcept (notifyEventItem abi header log)
      SubscriberService.onOwner fun owner => { owner with
        eventQueues := owner.eventQueues.modify eventQueue (· ++ [item]) }) := by
  funext shared
  rw [SubscriberService.notifyEventHandler, notifyEventItem]
  cases abi.toMessage log.logData <;> rfl

structure ReceiptData where
  blkNum : Bytes
  topics : List EventTopic
  logData : Bytes
deriving DecidableEq, Repr

/-- `SubscribedReceiptHandler`. -/
def subscribedReceiptItem (header : HeaderMgr) (log : ReceiptLogEntry) : Except Exception ReceiptData :=
  .ok { blkNum := header.rawHeader.number, topics := log.topics, logData := log.logData }

def notifySubscription (abi : AbiCodec) (store : PubsubServiceStore) (evMgrAddr : ContractAddr) :
    Subscription EventData where
  contractAddr := evMgrAddr
  topics := [store.notifyEvTopic]
  item := notifyEventItem abi

def receiptSubscription (contAddr : ContractAddr) (topics : List EventTopic) :
    Subscription ReceiptData where
  contractAddr := contAddr
  topics
  item := subscribedReceiptItem

/-- The store of past events, and the queue of the client. -/
inductive Role where
  | past
  | client
deriving DecidableEq, Repr

inductive HandoffCallback (κ : Type) where
  | saves (role : Role)
  | other (callback : κ)

abbrev HandoffCall (κ : Type) := EventCallbackId × HandoffCallback κ × ReceiptLogEntry

/-- An `AppendBlock` that holds the mutex: a validated block, and the calls once they are planned. -/
structure Appending (κ : Type) where
  block : ChainBlock
  calls : Option (List (HandoffCall κ))

/-- The message of a heartbeat, with the blocks that were validated since the subscription. -/
structure HeartbeatMsg (ι : Type) where
  latestBlkNum : Bytes
  events : List ι
  validated : List ChainBlock

structure Handoff (κ ι : Type) where
  eventManager : EventManager (HandoffCallback κ)
  lastValidatedBlkNum : Bytes
  appending : Option (Appending κ)
  pastEvents : List ι
  eventQueue : List ι
  /-- What the emitter has taken out of the queue and not sent yet. -/
  outEvQueue : Option (List ι)
  sent : List (HeartbeatMsg ι)
  /-- `GetPastEvents` is copying. -/
  copying : Bool
  /-- The past events in the response to the client. -/
  response : Option (List ι)
  /-- A copy overlapped with a change of what it copies. -/
  undefined : Bool
  listenIds : Role → Option EventCallbackId
  /-- The emitter was removed. -/
  closed : Bool
  validated : List ChainBlock
  /-- How many of the validated blocks were planned before the listener was there. -/
  unseen : Role → Nat
  /-- How many blocks were validated before the subscription. -/
  before : Nat

namespace Handoff

variable {κ ι : Type}

inductive Action (κ : Type) where
  | listen (role : Role) (id : EventCallbackId)
  | listenOther (id : EventCallbackId) (contractAddr : ContractAddr) (topics : List EventTopic)
      (callback : κ)
  | cancelOther (id : EventCallbackId)
  | validate (block : ChainBlock)
  | plan (answer : Except Exception ReceiptsMgr)
  | call (otherThrows : Bool)
  | finish
  | startCopy
  | respond
  | takeQueue
  | emit
  | emitThrows

section Members

variable (codec : HeaderCodec) (subscription : Subscription ι)

def init : Handoff κ ι where
  eventManager := .init
  lastValidatedBlkNum := []
  appending := none
  pastEvents := []
  eventQueue := []
  outEvQueue := none
  sent := []
  copying := false
  response := none
  undefined := false
  listenIds := fun _ => none
  closed := false
  validated := []
  unseen := fun _ => 0
  before := 0

def desc (role : Role) : EventDescription (HandoffCallback κ) :=
  .build codec subscription.contractAddr subscription.topics (.saves role)

/-- The validated blocks of which the plan is made. -/
def plannedBlocks (handoff : Handoff κ ι) : Nat :=
  match handoff.appending with
  | some { calls := none, .. } => handoff.validated.length - 1
  | _ => handoff.validated.length

def listen (role : Role) (id : EventCallbackId) (handoff : Handoff κ ι) : Handoff κ ι :=
  { handoff with
    eventManager := handoff.eventManager.listen id (desc codec subscription role)
    listenIds := Function.update handoff.listenIds role (some id)
    unseen := Function.update handoff.unseen role handoff.plannedBlocks
    before := if role = .client then handoff.validated.length else handoff.before }

/-- An item in the store or in the queue. -/
def save (role : Role) (item : ι) (handoff : Handoff κ ι) : Handoff κ ι :=
  match role with
  | .past => { handoff with
      pastEvents := handoff.pastEvents ++ [item]
      -- nothing keeps the handler from its queue while it is copied
      undefined := handoff.undefined || handoff.copying }
  | .client => { handoff with eventQueue := handoff.eventQueue ++ [item] }

/-- One call of the plan; an exception ends `AppendBlock`. -/
def callNext (otherThrows : Bool) (handoff : Handoff κ ι) : Option (Handoff κ ι) :=
  match handoff.appending with
  | some { block, calls := some ((_, callback, log) :: calls) } =>
    let unwound := { handoff with appending := none }
    let next := { handoff with appending := some { block, calls := some calls } }
    match callback with
    | .saves role =>
      match subscription.item block.header log with
      | .ok item => some (next.save role item)
      | .error _ => some unwound
    | .other _ => some (if otherThrows then unwound else next)
  | _ => none

/-- `CheckEvents` up to the calls, with the receipts that the host answers. -/
def planCalls (answer : Except Exception ReceiptsMgr) (handoff : Handoff κ ι) : Option (Handoff κ ι) :=
  match handoff.appending with
  | some { block, calls := none } =>
    match handoff.eventManager.callbackPlans block.header fun _ => answer with
    | .ok plans => some { handoff with
        appending := some { block, calls := some (EventManager.planCalls plans) } }
    | .error _ => some { handoff with appending := none }
  | _ => none

/-- One critical section. -/
def step (handoff : Handoff κ ι) : Action κ → Option (Handoff κ ι)
  | .listen role id =>
    if handoff.listenIds role = none ∧ (role = .client → handoff.closed = false) ∧
        id ∉ handoff.eventManager.eventDescMap.keys then
      some (handoff.listen codec subscription role id)
    else
      none
  | .listenOther id contractAddr topics callback =>
    if id ∉ handoff.eventManager.eventDescMap.keys then
      some { handoff with
        eventManager :=
          handoff.eventManager.listen id (.build codec contractAddr topics (.other callback)) }
    else
      none
  | .cancelOther id =>
    if handoff.listenIds .past ≠ some id ∧ handoff.listenIds .client ≠ some id then
      some { handoff with eventManager := handoff.eventManager.cancel id }
    else
      none
  | .validate block =>
    if handoff.appending.isNone then
      some { handoff with
        lastValidatedBlkNum := block.header.rawHeader.number
        appending := some { block, calls := none }
        validated := handoff.validated ++ [block] }
    else
      none
  | .plan answer => handoff.planCalls answer
  | .call otherThrows => handoff.callNext subscription otherThrows
  | .finish =>
    match handoff.appending with
    | some { calls := some [], .. } => some { handoff with appending := none }
    | _ => none
  | .startCopy =>
    if (handoff.listenIds .client).isSome ∧ handoff.copying = false ∧ handoff.response.isNone then
      some { handoff with copying := true }
    else
      none
  | .respond =>
    if handoff.copying then
      some { handoff with copying := false, response := some handoff.pastEvents }
    else
      none
  | .takeQueue =>
    if (handoff.listenIds .client).isSome ∧ handoff.outEvQueue.isNone then
      some { handoff with outEvQueue := some handoff.eventQueue, eventQueue := [] }
    else
      none
  | .emit =>
    match handoff.outEvQueue with
    | some events =>
      -- the monitor's mutex is free
      if handoff.appending.isNone then
        some { handoff with
          outEvQueue := none
          sent := handoff.sent ++ [{
            latestBlkNum := handoff.lastValidatedBlkNum
            events
            validated := handoff.validated.drop handoff.before }] }
      else
        none
    | none => none
  | .emitThrows =>
    match handoff.outEvQueue, handoff.listenIds .client with
    | some _, some id => some { handoff with
        eventManager := handoff.eventManager.cancel id
        outEvQueue := none
        listenIds := Function.update handoff.listenIds .client none
        closed := true }
    | _, _ => none

/-- The header has the root and the filter of the receipts. -/
structure IsChainBlock (block : ChainBlock) : Prop where
  root : block.receiptsMgr.rootHashBytes = block.header.rawHeader.receiptsRoot
  bloom : block.header.rawHeader.logsBloom = consensusBloom codec block.receiptsMgr.logEntries

/-- The block is one of the chain, and other receipts with its root cannot be found. -/
def Honest (handoff : Handoff κ ι) : Action κ → Prop
  | .validate block => IsChainBlock codec block
  | .plan (.ok receiptsMgr) => ∀ appending, handoff.appending = some appending →
    receiptsMgr.rootHashBytes = appending.block.header.rawHeader.receiptsRoot →
      receiptsMgr = appending.block.receiptsMgr
  | _ => True

def Step (before : Handoff κ ι) (action : Action κ) (after : Handoff κ ι) : Prop :=
  before.Honest codec action ∧ before.step codec subscription action = some after

instance (block : ChainBlock) : Decidable (IsChainBlock codec block) :=
  decidable_of_iff
    (block.receiptsMgr.rootHashBytes = block.header.rawHeader.receiptsRoot ∧
      block.header.rawHeader.logsBloom = consensusBloom codec block.receiptsMgr.logEntries)
    ⟨fun both => ⟨both.1, both.2⟩, fun isChainBlock => ⟨isChainBlock.root, isChainBlock.bloom⟩⟩

instance (handoff : Handoff κ ι) : (action : Action κ) → Decidable (handoff.Honest codec action)
  | .validate block => inferInstanceAs (Decidable (IsChainBlock codec block))
  | .plan (.ok receiptsMgr) =>
    decidable_of_iff (∀ appending ∈ handoff.appending,
      receiptsMgr.rootHashBytes = appending.block.header.rawHeader.receiptsRoot →
        receiptsMgr = appending.block.receiptsMgr) Iff.rfl
  | .plan (.error _) | .listen .. | .listenOther .. | .cancelOther _ | .call _ | .finish | .startCopy
  | .respond | .takeQueue | .emit | .emitThrows => isTrue trivial

/-- `Step` as a function. -/
def execute (handoff : Handoff κ ι) (action : Action κ) : Option (Handoff κ ι) :=
  if handoff.Honest codec action then handoff.step codec subscription action else none

/-! ## What is to be saved, and what is saved -/

/-- What the handler makes of the log entries of a block. -/
def savedItems (block : ChainBlock) : List (Except Exception ι) :=
  (block.logsOf subscription.contractAddr subscription.topics).map (subscription.item block.header)

def isFor (role : Role) (callback : HandoffCallback κ) : Bool :=
  match callback with
  | .saves role' => role' = role
  | .other _ => false

/-- What is still to be saved of the block that is being appended. -/
def pending (role : Role) (handoff : Handoff κ ι) : List (Except Exception ι) :=
  match handoff.appending with
  | none => []
  | some { block, calls := none } =>
    if (handoff.listenIds role).isSome then savedItems subscription block else []
  | some { block, calls := some calls } =>
    (calls.filter fun call => isFor role call.2.1).map fun call =>
      subscription.item block.header call.2.2

def received (role : Role) (handoff : Handoff κ ι) : List ι :=
  match role with
  | .past => handoff.pastEvents
  | .client =>
    handoff.sent.flatMap HeartbeatMsg.events ++ handoff.outEvQueue.getD [] ++ handoff.eventQueue

/-- What is saved or still to be saved, in order. -/
def account (role : Role) (handoff : Handoff κ ι) : List (Except Exception ι) :=
  (handoff.received role).map .ok ++ handoff.pending subscription role

/-- What a section adds to it. -/
def added (role : Role) (handoff : Handoff κ ι) : Action κ → List (Except Exception ι)
  | .validate block => if (handoff.listenIds role).isSome then savedItems subscription block else []
  | _ => []

/-- The action ends `AppendBlock` with an exception. -/
def throws (handoff : Handoff κ ι) : Action κ → Bool
  | .plan answer =>
    match handoff.appending with
    | some { block, calls := none } =>
      (handoff.eventManager.callbackPlans block.header fun _ => answer).toBool = false
    | _ => false
  | .call otherThrows =>
    match handoff.appending with
    | some { block, calls := some ((_, callback, log) :: _) } =>
      match callback with
      | .saves _ => (subscription.item block.header log).toBool = false
      | .other _ => otherThrows
    | _ => false
  | _ => false

/-- The action changes the past events while they are copied. -/
def overlaps (handoff : Handoff κ ι) : Action κ → Bool
  | .call _ =>
    match handoff.appending with
    | some { block, calls := some ((_, .saves .past, log) :: _) } =>
      handoff.copying && (subscription.item block.header log).toBool
    | _ => false
  | _ => false

end Members

/-! ## The listeners -/

variable {codec : HeaderCodec} {subscription : Subscription ι} {handoff : Handoff κ ι}

variable (codec subscription) in
/-- The two listeners are where their holders say, and no other calls their handlers. -/
structure Listening (manager : EventManager (HandoffCallback κ))
    (listenIds : Role → Option EventCallbackId) : Prop where
  registered : EventManager.Registered codec manager
  installed : ∀ role id, listenIds role = some id →
    manager.eventDescMap.lookup id = some (desc codec subscription role)
  only : ∀ role id desc, manager.eventDescMap.lookup id = some desc →
    isFor role desc.notifyCallback = true → listenIds role = some id

variable {manager : EventManager (HandoffCallback κ)} {listenIds listenIds' : Role → Option EventCallbackId}

theorem isFor_iff {role : Role} {callback : HandoffCallback κ} :
    isFor role callback = true ↔ callback = .saves role := by
  cases callback with
  | saves role' => simp [isFor]
  | other callback => simp [isFor]

/-- The calls for a role are those of its listener. -/
theorem Listening.filter_expectedCalls (listening : Listening codec subscription manager listenIds)
    (role : Role) (block : ChainBlock) :
    ((manager.expectedCalls block.receiptsMgr).filter fun call =>
        isFor role call.2.1).map (fun call => subscription.item block.header call.2.2) =
      if (listenIds role).isSome then savedItems subscription block else [] := by
  cases listens : listenIds role with
  | none =>
    rw [Option.isSome_none, if_neg Bool.false_ne_true, List.map_eq_nil_iff, List.filter_eq_nil_iff]
    intro call called isRole
    obtain ⟨desc, found, callback, -⟩ := EventManager.mem_expectedCalls called
    rw [callback] at isRole
    have impossible := listening.only role call.1 desc found isRole
    rw [listens] at impossible
    cases impossible
  | some id =>
    have installed := listening.installed role id listens
    have sameCalls : ∀ call ∈ manager.expectedCalls block.receiptsMgr,
        isFor role call.2.1 = decide (call.1 = id) := by
      intro call called
      obtain ⟨desc', found, callback, -⟩ := EventManager.mem_expectedCalls called
      rw [Bool.eq_iff_iff, decide_eq_true_eq]
      constructor
      · intro isRole
        rw [callback] at isRole
        exact Option.some.inj ((listening.only role call.1 desc' found isRole).symm.trans listens)
      · intro same
        rw [same, installed] at found
        cases found
        rw [callback, isFor_iff]
        rfl
    rw [List.filter_congr sameCalls, EventManager.filter_expectedCalls installed, List.map_map]
    rfl

/-- A plan that is made has the calls for the receipts of the block. -/
theorem planCalls_eq (registered : EventManager.Registered codec manager) {block : ChainBlock}
    (isChainBlock : IsChainBlock codec block) {answer : Except Exception ReceiptsMgr}
    (honest : ∀ receiptsMgr, answer = .ok receiptsMgr →
      receiptsMgr.rootHashBytes = block.header.rawHeader.receiptsRoot → receiptsMgr = block.receiptsMgr)
    {plans : List (CallbackPlan (HandoffCallback κ))}
    (planned : manager.callbackPlans block.header (fun _ => answer) = .ok plans) :
    EventManager.planCalls plans = manager.expectedCalls block.receiptsMgr := by
  have bloomed := EventManager.expectedCalls_bloomed registered block.receiptsMgr
  rw [← isChainBlock.bloom] at bloomed
  rw [EventManager.callbackPlans] at planned
  split at planned
  next noEvents =>
    cases planned
    rw [List.isEmpty_iff.mp noEvents] at bloomed
    exact bloomed
  next =>
    cases answer with
    | error error => cases planned
    | ok receiptsMgr =>
      simp only [bind, Except.bind] at planned
      split at planned
      · cases planned
      next sameRoot =>
        cases planned
        rw [honest receiptsMgr rfl (of_not_not sameRoot), EventManager.planCalls_genCallbackPlan]
        exact bloomed

/-- `Listen` of one of the two. -/
theorem Listening.listen (listening : Listening codec subscription manager listenIds) {role : Role}
    {id : EventCallbackId} (notYet : listenIds role = none) (fresh : id ∉ manager.eventDescMap.keys) :
    Listening codec subscription (manager.listen id (desc codec subscription role))
      (Function.update listenIds role (some id)) where
  registered := listening.registered.listen id _ _ _
  installed role' id' listens := by
    by_cases same : role' = role
    · subst same
      rw [Function.update_self] at listens
      have isNew : id ∉ manager.eventDescMap := fun stored => fresh (AList.mem_keys.mp stored)
      rw [← Option.some.inj listens, EventManager.listen, UnorderedMap.emplace, if_neg isNew,
        AList.lookup_insert]
    · rw [Function.update_of_ne same] at listens
      exact UnorderedMap.lookup_emplace_of_some _ _ (listening.installed role' id' listens)
  only role' id' desc' found isRole := by
    rcases UnorderedMap.lookup_emplace found with earlier | ⟨rfl, rfl⟩
    · have listens := listening.only role' id' desc' earlier isRole
      have other : role' ≠ role := by
        rintro rfl
        rw [notYet] at listens
        cases listens
      rw [Function.update_of_ne other]
      exact listens
    · cases isFor_iff.mp isRole
      exact Function.update_self ..

theorem Listening.listenOther (listening : Listening codec subscription manager listenIds)
    (id : EventCallbackId) (contractAddr : ContractAddr) (topics : List EventTopic) (callback : κ) :
    Listening codec subscription (manager.listen id (.build codec contractAddr topics (.other callback)))
      listenIds where
  registered := listening.registered.listen id _ _ _
  installed role id' listens :=
    UnorderedMap.lookup_emplace_of_some _ _ (listening.installed role id' listens)
  only role id' desc' found isRole := by
    rcases UnorderedMap.lookup_emplace found with earlier | ⟨-, rfl⟩
    · exact listening.only role id' desc' earlier isRole
    · cases isRole

/-- A listener goes, and who had its identifier forgets it. -/
theorem Listening.cancel (listening : Listening codec subscription manager listenIds)
    (id : EventCallbackId)
    (kept : ∀ role id', listenIds' role = some id' ↔ listenIds role = some id' ∧ id' ≠ id) :
    Listening codec subscription (manager.cancel id) listenIds' where
  registered := listening.registered.cancel id
  installed role id' listens := by
    obtain ⟨listens, other⟩ := (kept role id').mp listens
    rw [EventManager.cancel, AList.lookup_erase_ne other]
    exact listening.installed role id' listens
  only role id' desc' found isRole := by
    obtain ⟨found, other⟩ := UnorderedMap.lookup_of_erase found
    exact (kept role id').mpr ⟨listening.only role id' desc' found isRole, other⟩

/-- How one call ends: an exception ends the plan, the item of a handler is saved, and what another
    listener does is its own. -/
theorem callNext_cases {otherThrows : Bool} {after : Handoff κ ι}
    (called : handoff.callNext subscription otherThrows = some after) :
    ∃ block id callback log calls,
      handoff.appending = some { block, calls := some ((id, callback, log) :: calls) } ∧
      (handoff.throws subscription (.call otherThrows) = true ∧
          after = { handoff with appending := none } ∨
        handoff.throws subscription (.call otherThrows) = false ∧
          ((∃ role item, callback = .saves role ∧ subscription.item block.header log = .ok item ∧
              after = { handoff with appending := some { block, calls := some calls } }.save role item) ∨
            ∃ other, callback = .other other ∧
              after = { handoff with appending := some { block, calls := some calls } })) := by
  rw [callNext] at called
  split at called
  next block id callback log calls appending =>
    refine ⟨block, id, callback, log, calls, appending, ?_⟩
    cases callback with
    | saves role =>
      simp only at called
      split at called
      next item parsed =>
        cases called
        refine .inr ⟨?_, .inl ⟨role, item, rfl, parsed, rfl⟩⟩
        simp [throws, appending, parsed, Except.toBool]
      next error failed =>
        cases called
        refine .inl ⟨?_, rfl⟩
        simp [throws, appending, failed, Except.toBool]
    | other other =>
      cases otherThrows with
      | true =>
        cases called
        refine .inl ⟨?_, rfl⟩
        simp [throws, appending]
      | false =>
        cases called
        refine .inr ⟨?_, .inr ⟨other, rfl, rfl⟩⟩
        simp [throws, appending]
  next => cases called

variable (codec subscription) in
/-- The sections that can be entered, and what they leave. -/
inductive Section (handoff : Handoff κ ι) : Action κ → Handoff κ ι → Prop
  | listen {role : Role} {id : EventCallbackId} (notYet : handoff.listenIds role = none)
      (fresh : id ∉ handoff.eventManager.eventDescMap.keys) :
      Section handoff (.listen role id) (handoff.listen codec subscription role id)
  | listenOther {id : EventCallbackId} {contractAddr : ContractAddr} {topics : List EventTopic}
      {callback : κ} : Section handoff (.listenOther id contractAddr topics callback)
        { handoff with eventManager :=
            handoff.eventManager.listen id (.build codec contractAddr topics (.other callback)) }
  | cancelOther {id : EventCallbackId} (others : ∀ role, handoff.listenIds role ≠ some id) :
      Section handoff (.cancelOther id)
        { handoff with eventManager := handoff.eventManager.cancel id }
  | validate {block : ChainBlock} (free : handoff.appending = none) :
      Section handoff (.validate block)
        { handoff with
          lastValidatedBlkNum := block.header.rawHeader.number
          appending := some { block, calls := none }
          validated := handoff.validated ++ [block] }
  | planned {block : ChainBlock} {answer : Except Exception ReceiptsMgr}
      {plans : List (CallbackPlan (HandoffCallback κ))}
      (appending : handoff.appending = some { block, calls := none })
      (planned : handoff.eventManager.callbackPlans block.header (fun _ => answer) = .ok plans) :
      Section handoff (.plan answer)
        { handoff with appending := some { block, calls := some (EventManager.planCalls plans) } }
  | notPlanned {block : ChainBlock} {answer : Except Exception ReceiptsMgr}
      (appending : handoff.appending = some { block, calls := none })
      (thrown : handoff.throws subscription (.plan answer) = true) :
      Section handoff (.plan answer) { handoff with appending := none }
  | called {block : ChainBlock} {call : HandoffCall κ} {calls : List (HandoffCall κ)} {otherThrows : Bool}
      {after : Handoff κ ι} (appending : handoff.appending = some { block, calls := some (call :: calls) })
      (called : handoff.callNext subscription otherThrows = some after) :
      Section handoff (.call otherThrows) after
  | finish {block : ChainBlock} (appending : handoff.appending = some { block, calls := some [] }) :
      Section handoff .finish { handoff with appending := none }
  | startCopy (subscribed : (handoff.listenIds .client).isSome) (unanswered : handoff.response = none) :
      Section handoff .startCopy { handoff with copying := true }
  | respond (copying : handoff.copying = true) :
      Section handoff .respond
        { handoff with copying := false, response := some handoff.pastEvents }
  | takeQueue (subscribed : (handoff.listenIds .client).isSome) (returned : handoff.outEvQueue = none) :
      Section handoff .takeQueue
        { handoff with outEvQueue := some handoff.eventQueue, eventQueue := [] }
  | emit {events : List ι} (taken : handoff.outEvQueue = some events) (free : handoff.appending = none) :
      Section handoff .emit
        { handoff with
          outEvQueue := none
          sent := handoff.sent ++ [{
            latestBlkNum := handoff.lastValidatedBlkNum
            events
            validated := handoff.validated.drop handoff.before }] }
  | emitThrows {events : List ι} {id : EventCallbackId} (taken : handoff.outEvQueue = some events)
      (listens : handoff.listenIds .client = some id) :
      Section handoff .emitThrows
        { handoff with
          eventManager := handoff.eventManager.cancel id
          outEvQueue := none
          listenIds := Function.update handoff.listenIds .client none
          closed := true }

theorem section_of_plan {answer : Except Exception ReceiptsMgr} {after : Handoff κ ι}
    (planned : handoff.planCalls answer = some after) :
    Section codec subscription handoff (.plan answer) after := by
  rw [planCalls] at planned
  split at planned
  next block appending =>
    split at planned
    next plans isPlan =>
      cases planned
      exact .planned appending isPlan
    next error failed =>
      cases planned
      exact .notPlanned appending (by simp [throws, appending, failed, Except.toBool])
  next => cases planned

/-- Every step is one of the sections. -/
theorem section_of_step {action : Action κ} {after : Handoff κ ι}
    (stepped : handoff.step codec subscription action = some after) :
    Section codec subscription handoff action after := by
  cases action with
  | plan answer => exact section_of_plan stepped
  | call otherThrows =>
    obtain ⟨block, id, callback, log, calls, appending, -⟩ := callNext_cases stepped
    exact .called appending stepped
  | listen | listenOther | cancelOther | validate | startCopy | respond | takeQueue =>
    simp only [step, Option.ite_none_right_eq_some, Option.some.injEq] at stepped
    obtain ⟨allowed, rfl⟩ := stepped
    first
    | exact .listen allowed.1 allowed.2.2
    | exact .listenOther
    | exact .cancelOther fun role => by cases role; exacts [allowed.1, allowed.2]
    | exact .validate (Option.isNone_iff_eq_none.mp allowed)
    | exact .startCopy allowed.1 (Option.isNone_iff_eq_none.mp allowed.2.2)
    | exact .respond allowed
    | exact .takeQueue allowed.1 (Option.isNone_iff_eq_none.mp allowed.2)
  | finish =>
    rw [step] at stepped
    split at stepped <;> cases stepped
    next block appending => exact .finish appending
  | emit =>
    rw [step] at stepped
    split at stepped
    next events taken =>
      simp only [Option.ite_none_right_eq_some, Option.some.injEq] at stepped
      obtain ⟨free, rfl⟩ := stepped
      exact .emit taken (Option.isNone_iff_eq_none.mp free)
    next => cases stepped
  | emitThrows =>
    rw [step] at stepped
    split at stepped <;> cases stepped
    next events id taken listens => exact .emitThrows taken listens

theorem save_listeners (role : Role) (item : ι) (handoff : Handoff κ ι) :
    (handoff.save role item).eventManager = handoff.eventManager ∧
      (handoff.save role item).listenIds = handoff.listenIds := by
  cases role <;> exact ⟨rfl, rfl⟩

theorem callNext_listeners {otherThrows : Bool} {after : Handoff κ ι}
    (called : handoff.callNext subscription otherThrows = some after) :
    after.eventManager = handoff.eventManager ∧ after.listenIds = handoff.listenIds := by
  obtain ⟨block, id, callback, log, calls, -, ending⟩ := callNext_cases called
  obtain ⟨-, rfl⟩ | ⟨-, ⟨role, item, -, -, rfl⟩ | ⟨other, -, rfl⟩⟩ := ending
  · exact ⟨rfl, rfl⟩
  · exact save_listeners role item _
  · exact ⟨rfl, rfl⟩

/-- The emitter's listener goes with it. -/
theorem Listening.emitThrows (listening : Listening codec subscription manager listenIds)
    {id : EventCallbackId} (listens : listenIds .client = some id) :
    Listening codec subscription (manager.cancel id) (Function.update listenIds .client none) := by
  -- the other listener has another identifier, since it saves elsewhere
  have noPast : listenIds .past ≠ some id := by
    intro isPast
    have client := listening.installed .client id listens
    rw [listening.installed .past id isPast] at client
    cases congrArg (fun desc => desc.map EventDescription.notifyCallback) client
  apply listening.cancel id
  intro role id'
  cases role with
  | past =>
    show listenIds .past = some id' ↔ _
    exact ⟨fun isPast => ⟨isPast, fun same => noPast (same ▸ isPast)⟩, fun both => both.1⟩
  | client =>
    show none = some id' ↔ _
    refine ⟨nofun, fun both => ?_⟩
    exact absurd (Option.some.inj (both.1.symm.trans listens)) both.2

/-- No section but a call and the listening itself has anything to do with who listens. -/
theorem Listening.step {action : Action κ} {after : Handoff κ ι}
    (listening : Listening codec subscription handoff.eventManager handoff.listenIds)
    (stepped : handoff.step codec subscription action = some after) :
    Listening codec subscription after.eventManager after.listenIds := by
  cases section_of_step stepped with
  | listen notYet fresh => exact listening.listen notYet fresh
  | listenOther => exact listening.listenOther ..
  | @cancelOther id others =>
    apply listening.cancel id
    intro role id'
    constructor
    · intro listens
      refine ⟨listens, fun isId => ?_⟩
      subst isId
      exact others role listens
    · exact fun both => both.1
  | called _ called =>
    obtain ⟨sameManager, sameIds⟩ := callNext_listeners called
    rwa [sameManager, sameIds]
  | emitThrows _ listens => exact listening.emitThrows listens
  | validate | planned | notPlanned | finish | startCopy | respond | takeQueue | emit => exact listening

/-! ## What a section can do -/

/-- The blocks that a section validates. -/
def Action.validates : Action κ → List ChainBlock
  | .validate block => [block]
  | _ => []

/-- The emitter fails and is removed. -/
def Action.closes : Action κ → Bool
  | .emitThrows => true
  | _ => false

variable (codec subscription) in
structure Effect (handoff : Handoff κ ι) (action : Action κ) (after : Handoff κ ι) : Prop where
  validated : after.validated = handoff.validated ++ action.validates
  undefined : after.undefined = (handoff.undefined || handoff.overlaps subscription action)
  sent : after.sent = handoff.sent ∨ ∃ events, action = .emit ∧ handoff.outEvQueue = some events ∧
    handoff.appending = none ∧ after.sent = handoff.sent ++ [{
      latestBlkNum := handoff.lastValidatedBlkNum
      events
      validated := handoff.validated.drop handoff.before }]
  listener : ∀ role,
    (after.listenIds role = handoff.listenIds role ∧ after.unseen role = handoff.unseen role ∧
      (role = .client → after.before = handoff.before)) ∨
    (∃ id, action = .listen role id ∧ handoff.listenIds role = none ∧
      after = handoff.listen codec subscription role id) ∨
    action = .emitThrows ∧ role = .client ∧ after.listenIds role = none
  response : after.response = handoff.response ∨
    action = .respond ∧ handoff.copying = true ∧ after.response = some handoff.pastEvents
  pastEvents : handoff.pastEvents <+: after.pastEvents
  received : action ≠ .emitThrows → handoff.received .client <+: after.received .client
  closed : after.closed = (handoff.closed || action.closes)

/-- A section that leaves alone what the subscription has. -/
theorem Effect.of_same {action : Action κ} {after : Handoff κ ι}
    (validated : after.validated = handoff.validated ++ action.validates)
    (undefined : after.undefined = (handoff.undefined || handoff.overlaps subscription action))
    (sent : after.sent = handoff.sent) (outEvQueue : after.outEvQueue = handoff.outEvQueue)
    (eventQueue : handoff.eventQueue <+: after.eventQueue)
    (pastEvents : handoff.pastEvents <+: after.pastEvents)
    (response : after.response = handoff.response)
    (listenIds : after.listenIds = handoff.listenIds) (unseen : after.unseen = handoff.unseen)
    (before : after.before = handoff.before)
    (closed : after.closed = (handoff.closed || action.closes)) :
    Effect codec subscription handoff action after where
  validated
  undefined
  sent := .inl sent
  listener role := .inl ⟨congrFun listenIds role, congrFun unseen role, fun _ => before⟩
  response := .inl response
  pastEvents
  received _ := by
    show handoff.sent.flatMap _ ++ _ ++ _ <+: after.sent.flatMap _ ++ _ ++ _
    rw [sent, outEvQueue]
    exact (List.prefix_append_right_inj _).mpr eventQueue
  closed

/-- A section that leaves alone all that the subscription has, and the blocks as well. -/
theorem Effect.of_idle {action : Action κ} {after : Handoff κ ι} (noBlock : action.validates = [])
    (noOverlap : handoff.overlaps subscription action = false) (stays : action.closes = false)
    (rest : after = { handoff with
      eventManager := after.eventManager, appending := after.appending, copying := after.copying }) :
    Effect codec subscription handoff action after := by
  rw [rest]
  refine .of_same ?_ ?_ rfl rfl List.prefix_rfl List.prefix_rfl rfl rfl rfl rfl ?_
  · rw [noBlock, List.append_nil]
  · rw [noOverlap, Bool.or_false]
  · rw [stays, Bool.or_false]

theorem Effect.listen {role : Role} {id : EventCallbackId} (notYet : handoff.listenIds role = none) :
    Effect codec subscription handoff (.listen role id) (handoff.listen codec subscription role id) where
  validated := (List.append_nil _).symm
  undefined := (Bool.or_false _).symm
  sent := .inl rfl
  listener role' := by
    by_cases sameRole : role' = role
    · subst sameRole
      exact .inr (.inl ⟨id, rfl, notYet, rfl⟩)
    · refine .inl ⟨Function.update_of_ne sameRole _ _, Function.update_of_ne sameRole _ _, ?_⟩
      rintro rfl
      exact if_neg (Ne.symm sameRole)
  response := .inl rfl
  pastEvents := List.prefix_rfl
  received _ := List.prefix_rfl
  closed := (Bool.or_false _).symm

/-- An item that is saved goes behind the others. -/
theorem Effect.save {block : ChainBlock} {id : EventCallbackId} {role : Role} {log : ReceiptLogEntry}
    {calls : List (HandoffCall κ)} {otherThrows : Bool} {item : ι}
    (appending : handoff.appending = some { block, calls := some ((id, .saves role, log) :: calls) })
    (parsed : subscription.item block.header log = .ok item) :
    Effect codec subscription handoff (.call otherThrows)
      ({ handoff with appending := some { block, calls := some calls } }.save role item) := by
  cases role with
  | past =>
    refine .of_same (List.append_nil _).symm ?_ rfl rfl List.prefix_rfl (List.prefix_append ..) rfl rfl rfl
      rfl (Bool.or_false _).symm
    simp [Handoff.save, overlaps, appending, parsed, Except.toBool]
  | client =>
    refine .of_same (List.append_nil _).symm ?_ rfl rfl (List.prefix_append ..) List.prefix_rfl rfl rfl rfl
      rfl (Bool.or_false _).symm
    simp [Handoff.save, overlaps, appending]

theorem Effect.call {otherThrows : Bool} {after : Handoff κ ι}
    (called : handoff.callNext subscription otherThrows = some after) :
    Effect codec subscription handoff (.call otherThrows) after := by
  obtain ⟨block, id, callback, log, calls, appending, ending⟩ := callNext_cases called
  obtain ⟨thrown, rfl⟩ | ⟨-, ⟨role, item, rfl, parsed, rfl⟩ | ⟨other, rfl, rfl⟩⟩ := ending
  · -- what throws has saved nothing
    refine .of_idle rfl ?_ rfl rfl
    cases callback with
    | saves role =>
      cases role with
      | past =>
        simp only [throws, appending, decide_eq_true_eq] at thrown
        simp [overlaps, appending, thrown]
      | client => simp [overlaps, appending]
    | other other => simp [overlaps, appending]
  · exact .save appending parsed
  · exact .of_idle rfl (by simp [overlaps, appending]) rfl rfl

/-- The queue is taken out, or sent from where it was taken to. -/
theorem Effect.of_queue {action : Action κ} {after : Handoff κ ι} (noBlock : action.validates = [])
    (noOverlap : handoff.overlaps subscription action = false) (stays : action.closes = false)
    (sent : after.sent = handoff.sent ∨ ∃ events, action = .emit ∧ handoff.outEvQueue = some events ∧
      handoff.appending = none ∧ after.sent = handoff.sent ++ [{
        latestBlkNum := handoff.lastValidatedBlkNum
        events
        validated := handoff.validated.drop handoff.before }])
    (same : after.received .client = handoff.received .client)
    (rest : after = { handoff with
      outEvQueue := after.outEvQueue, eventQueue := after.eventQueue, sent := after.sent }) :
    Effect codec subscription handoff action after where
  validated := by rw [rest, noBlock, List.append_nil]
  undefined := by rw [rest, noOverlap, Bool.or_false]
  sent
  listener role := .inl (by rw [rest]; exact ⟨rfl, rfl, fun _ => rfl⟩)
  response := .inl (by rw [rest])
  pastEvents := ⟨[], by rw [rest, List.append_nil]⟩
  received _ := same ▸ List.prefix_rfl
  closed := by rw [rest, stays, Bool.or_false]

theorem Effect.respond (copying : handoff.copying = true) :
    Effect codec subscription handoff .respond
      { handoff with copying := false, response := some handoff.pastEvents } where
  validated := (List.append_nil _).symm
  undefined := (Bool.or_false _).symm
  sent := .inl rfl
  listener _ := .inl ⟨rfl, rfl, fun _ => rfl⟩
  response := .inr ⟨rfl, copying, rfl⟩
  pastEvents := List.prefix_rfl
  received _ := List.prefix_rfl
  closed := (Bool.or_false _).symm

theorem Effect.emitThrows {id : EventCallbackId} :
    Effect codec subscription handoff .emitThrows
      { handoff with
        eventManager := handoff.eventManager.cancel id
        outEvQueue := none
        listenIds := Function.update handoff.listenIds .client none
        closed := true } where
  validated := (List.append_nil _).symm
  undefined := (Bool.or_false _).symm
  sent := .inl rfl
  listener role := by
    cases role with
    | past => exact .inl ⟨rfl, rfl, nofun⟩
    | client =>
      have gone : Function.update handoff.listenIds .client none .client = none := Function.update_self ..
      exact .inr (.inr ⟨rfl, rfl, gone⟩)
  response := .inl rfl
  pastEvents := List.prefix_rfl
  received thrown := absurd rfl thrown
  closed := (Bool.or_true _).symm

theorem step_effect {action : Action κ} {after : Handoff κ ι}
    (stepped : handoff.step codec subscription action = some after) :
    Effect codec subscription handoff action after := by
  cases section_of_step stepped with
  | listen notYet => exact .listen notYet
  | validate =>
    exact .of_same rfl (Bool.or_false _).symm rfl rfl List.prefix_rfl List.prefix_rfl rfl rfl rfl rfl
      (Bool.or_false _).symm
  | called _ called => exact .call called
  | respond copying => exact .respond copying
  | takeQueue _ returned => exact .of_queue rfl rfl rfl (.inl rfl) (by simp [received, returned]) rfl
  | @emit events taken free =>
    exact .of_queue rfl rfl rfl (.inr ⟨events, rfl, taken, free, rfl⟩) (by simp [received, taken]) rfl
  | emitThrows => exact .emitThrows
  | listenOther | cancelOther | planned | notPlanned | finish | startCopy => exact .of_idle rfl rfl rfl rfl

/-- What becomes of the `AppendBlock` that is going on. -/
theorem appending_step {action : Action κ} {after : Handoff κ ι}
    (stepped : handoff.step codec subscription action = some after) :
    (after.appending = handoff.appending ∧ action.validates = [] ∧
      handoff.throws subscription action = false) ∨
    (∃ block, action = .validate block ∧ handoff.appending = none ∧
      after.appending = some { block, calls := none }) ∨
    (∃ block answer calls, action = .plan answer ∧ handoff.appending = some { block, calls := none } ∧
      handoff.throws subscription action = false ∧
      after.appending = some { block, calls := some calls }) ∨
    (∃ block calls calls' otherThrows, action = .call otherThrows ∧
      handoff.appending = some { block, calls := some calls } ∧
      handoff.throws subscription action = false ∧
      after.appending = some { block, calls := some calls' }) ∨
    (∃ appending, handoff.appending = some appending ∧ action.validates = [] ∧ after.appending = none ∧
      (handoff.throws subscription action = true ∨ action = .finish ∧ appending.calls = some [])) := by
  cases section_of_step stepped with
  | @validate block free => exact .inr (.inl ⟨block, rfl, free, rfl⟩)
  | @planned block answer plans appending planned =>
    refine .inr (.inr (.inl ⟨block, answer, _, rfl, appending, ?_, rfl⟩))
    simp [throws, appending, planned, Except.toBool]
  | notPlanned appending thrown => exact .inr (.inr (.inr (.inr ⟨_, appending, rfl, rfl, .inl thrown⟩)))
  | called _ called =>
    obtain ⟨block, id, callback, log, calls, appending, ending⟩ := callNext_cases called
    obtain ⟨thrown, rfl⟩ | ⟨returned, ⟨role, item, -, -, rfl⟩ | ⟨other, -, rfl⟩⟩ := ending
    · exact .inr (.inr (.inr (.inr ⟨_, appending, rfl, rfl, .inl thrown⟩)))
    · refine .inr (.inr (.inr (.inl ⟨block, _, calls, _, rfl, appending, returned, ?_⟩)))
      cases role <;> rfl
    · exact .inr (.inr (.inr (.inl ⟨block, _, calls, _, rfl, appending, returned, rfl⟩)))
  | finish appending => exact .inr (.inr (.inr (.inr ⟨_, appending, rfl, rfl, .inr ⟨rfl, rfl⟩⟩)))
  | listen | listenOther | cancelOther | startCopy | respond | takeQueue | emit | emitThrows =>
    exact .inl ⟨rfl, rfl, rfl⟩

/-! ## What every state is like -/

variable (codec) in
structure WellFormed (subscription : Subscription ι) (handoff : Handoff κ ι) : Prop where
  listening : Listening codec subscription handoff.eventManager handoff.listenIds
  appended : ∀ appending, handoff.appending = some appending →
    ∃ earlier, handoff.validated = earlier ++ [appending.block] ∧ IsChainBlock codec appending.block
  held : handoff.outEvQueue.isSome → (handoff.listenIds .client).isSome
  copies : handoff.copying = true → handoff.response = none
  answered : handoff.copying = true ∨ handoff.response.isSome →
    (handoff.listenIds .client).isSome ∨ handoff.closed = true
  unseen : ∀ role, handoff.unseen role ≤ handoff.plannedBlocks
  before : handoff.before ≤ handoff.validated.length

theorem WellFormed.init : WellFormed codec subscription (init : Handoff κ ι) where
  listening := {
    registered := .init
    installed := nofun
    only := by
      intro role id desc found
      cases found }
  appended := nofun
  held := nofun
  copies := nofun
  answered := by
    intro answered
    cases answered with
    | inl copying => cases copying
    | inr responded => cases responded
  unseen _ := Nat.le_refl 0
  before := Nat.le_refl 0

theorem plannedBlocks_le (handoff : Handoff κ ι) : handoff.plannedBlocks ≤ handoff.validated.length := by
  rw [plannedBlocks]
  split
  · exact Nat.sub_le ..
  · exact Nat.le_refl _

theorem WellFormed.unseen_le (wellFormed : WellFormed codec subscription handoff) (role : Role) :
    handoff.unseen role ≤ handoff.validated.length :=
  (wellFormed.unseen role).trans handoff.plannedBlocks_le

theorem WellFormed.listen (wellFormed : WellFormed codec subscription handoff) {role : Role}
    {id : EventCallbackId} (notYet : handoff.listenIds role = none)
    (fresh : id ∉ handoff.eventManager.eventDescMap.keys) :
    WellFormed codec subscription (handoff.listen codec subscription role id) where
  listening := wellFormed.listening.listen notYet fresh
  appended := wellFormed.appended
  held taken := by
    cases role with
    | past => exact wellFormed.held taken
    | client => rfl
  copies := wellFormed.copies
  answered answered := by
    cases role with
    | past => exact wellFormed.answered answered
    | client => exact .inl rfl
  unseen role' := by
    show Function.update handoff.unseen role handoff.plannedBlocks role' ≤ handoff.plannedBlocks
    by_cases same : role' = role
    · subst same
      rw [Function.update_self]
    · rw [Function.update_of_ne same]
      exact wellFormed.unseen role'
  before := by
    show (if role = .client then handoff.validated.length else handoff.before) ≤ _
    split
    · exact Nat.le_refl _
    · exact wellFormed.before

theorem WellFormed.validate (wellFormed : WellFormed codec subscription handoff) {block : ChainBlock}
    (isChainBlock : IsChainBlock codec block) :
    WellFormed codec subscription { handoff with
      lastValidatedBlkNum := block.header.rawHeader.number
      appending := some { block, calls := none }
      validated := handoff.validated ++ [block] } := by
  refine { wellFormed with appended := ?_, unseen := ?_, before := ?_ }
  · rintro _ ⟨⟩
    exact ⟨handoff.validated, rfl, isChainBlock⟩
  · intro role
    -- its plan is not made yet
    show _ ≤ (handoff.validated ++ [block]).length - 1
    simpa using wellFormed.unseen_le role
  · have started := wellFormed.before
    simp
    omega

/-- The block stays the same while the calls of its plan are made. -/
theorem WellFormed.goOn (wellFormed : WellFormed codec subscription handoff) {block : ChainBlock}
    {calls : Option (List (HandoffCall κ))} (appending : handoff.appending = some { block, calls })
    (calls' : List (HandoffCall κ)) :
    WellFormed codec subscription { handoff with appending := some { block, calls := some calls' } } := by
  obtain ⟨earlier, last, isChainBlock⟩ := wellFormed.appended _ appending
  refine { wellFormed with appended := ?_, unseen := wellFormed.unseen_le }
  rintro _ ⟨⟩
  exact ⟨earlier, last, isChainBlock⟩

theorem WellFormed.leave (wellFormed : WellFormed codec subscription handoff) :
    WellFormed codec subscription { handoff with appending := none } :=
  { wellFormed with appended := nofun, unseen := wellFormed.unseen_le }

theorem WellFormed.save (wellFormed : WellFormed codec subscription handoff) (role : Role) (item : ι) :
    WellFormed codec subscription (handoff.save role item) := by
  cases role with
  | past | client => exact { wellFormed with }

theorem WellFormed.step {action : Action κ} {after : Handoff κ ι}
    (wellFormed : WellFormed codec subscription handoff)
    (stepped : Step codec subscription handoff action after) : WellFormed codec subscription after := by
  obtain ⟨honest, stepped⟩ := stepped
  have listening := wellFormed.listening.step stepped
  cases section_of_step stepped with
  | listen notYet fresh => exact wellFormed.listen notYet fresh
  | listenOther | cancelOther => exact { wellFormed with listening }
  | validate => exact wellFormed.validate honest
  | planned appending => exact wellFormed.goOn appending _
  | notPlanned | finish => exact wellFormed.leave
  | called _ called =>
    obtain ⟨block, id, callback, log, calls, appending, ending⟩ := callNext_cases called
    obtain ⟨-, rfl⟩ | ⟨-, ⟨role, item, -, -, rfl⟩ | ⟨other, -, rfl⟩⟩ := ending
    · exact wellFormed.leave
    · exact (wellFormed.goOn appending calls).save role item
    · exact wellFormed.goOn appending calls
  | startCopy subscribed unanswered =>
    exact { wellFormed with copies := fun _ => unanswered, answered := fun _ => .inl subscribed }
  | respond copying =>
    exact { wellFormed with copies := nofun, answered := fun _ => wellFormed.answered (.inl copying) }
  | takeQueue subscribed => exact { wellFormed with held := fun _ => subscribed }
  | emit => exact { wellFormed with held := nofun }
  | emitThrows => exact { wellFormed with listening, held := nofun, answered := fun _ => .inr rfl }

/-! ## Nothing is lost between a plan and its last call -/

/-- The plan has the calls of the listeners for what is to be saved. -/
theorem pending_planned (wellFormed : WellFormed codec subscription handoff) {block : ChainBlock}
    (appending : handoff.appending = some { block, calls := none }) {answer : Except Exception ReceiptsMgr}
    (honest : handoff.Honest codec (.plan answer)) {plans : List (CallbackPlan (HandoffCallback κ))}
    (planned : handoff.eventManager.callbackPlans block.header (fun _ => answer) = .ok plans)
    (role : Role) :
    pending subscription role
        { handoff with appending := some { block, calls := some (EventManager.planCalls plans) } } =
      handoff.pending subscription role := by
  obtain ⟨-, -, isChainBlock⟩ := wellFormed.appended _ appending
  have sameReceipts : ∀ receiptsMgr, answer = .ok receiptsMgr →
      receiptsMgr.rootHashBytes = block.header.rawHeader.receiptsRoot →
      receiptsMgr = block.receiptsMgr := by
    rintro receiptsMgr rfl sameRoot
    exact honest _ appending sameRoot
  have calls := planCalls_eq wellFormed.listening.registered isChainBlock sameReceipts planned
  have ofRole := wellFormed.listening.filter_expectedCalls role block
  rw [← calls] at ofRole
  show ((EventManager.planCalls plans).filter fun call => isFor role call.2.1).map _ = _
  rw [ofRole, pending, appending]

theorem account_callNext {otherThrows : Bool} {after : Handoff κ ι}
    (called : handoff.callNext subscription otherThrows = some after)
    (goesOn : handoff.throws subscription (.call otherThrows) = false) (role : Role) :
    after.account subscription role = handoff.account subscription role := by
  obtain ⟨block, id, callback, log, calls, appending, ending⟩ := callNext_cases called
  obtain ⟨thrown, -⟩ | ⟨-, ⟨role', item, rfl, parsed, rfl⟩ | ⟨other, rfl, rfl⟩⟩ := ending
  · rw [goesOn] at thrown
    cases thrown
  · cases role <;> cases role' <;>
      simp [account, received, save, pending, appending, isFor, parsed]
  · cases role <;> simp [account, received, pending, appending, isFor]

/-- A listener of the other role leaves the account alone. -/
theorem account_listen {role role' : Role} {id : EventCallbackId} (notYet : handoff.listenIds role' = none)
    (sameListener : (handoff.listen codec subscription role' id).listenIds role = handoff.listenIds role) :
    (handoff.listen codec subscription role' id).account subscription role =
      handoff.account subscription role := by
  by_cases same : role = role'
  · subst same
    have listens : Function.update handoff.listenIds role (some id) role = none := sameListener.trans notYet
    rw [Function.update_self] at listens
    cases listens
  · rw [account, account, pending, pending]
    simp only [Handoff.listen, Function.update_of_ne same]
    rfl

theorem account_validate {role : Role} (block : ChainBlock) (free : handoff.appending = none) :
    account subscription role { handoff with
        lastValidatedBlkNum := block.header.rawHeader.number
        appending := some { block, calls := none }
        validated := handoff.validated ++ [block] } =
      handoff.account subscription role ++ handoff.added subscription role (.validate block) := by
  have nothing : handoff.pending subscription role = [] := by rw [pending, free]
  rw [account, account, nothing, List.append_nil]
  rfl

/-- `AppendBlock` ends, with nothing left to save. -/
theorem account_leave {role : Role} (nothing : handoff.pending subscription role = []) :
    account subscription role { handoff with appending := none } = handoff.account subscription role := by
  rw [account, account, nothing]
  rfl

/-- What is taken out of the queue or sent is still received. -/
theorem account_of_received {role : Role} {after : Handoff κ ι}
    (received : after.received .client = handoff.received .client)
    (rest : after = { handoff with
      outEvQueue := after.outEvQueue, eventQueue := after.eventQueue, sent := after.sent }) :
    after.account subscription role = handoff.account subscription role := by
  have pending : after.pending subscription role = handoff.pending subscription role := by
    rw [rest]
    rfl
  rw [account, account, pending]
  cases role with
  | past => rw [rest]; rfl
  | client => rw [received]

/-- While the same listener is there, sections of other threads take nothing away, and neither does an
    exception that comes when all is saved. -/
theorem account_step {role : Role} {action : Action κ} {after : Handoff κ ι}
    (wellFormed : WellFormed codec subscription handoff)
    (stepped : Step codec subscription handoff action after)
    (sameListener : after.listenIds role = handoff.listenIds role)
    (goesOn : handoff.throws subscription action = true → handoff.pending subscription role = []) :
    after.account subscription role =
      handoff.account subscription role ++ handoff.added subscription role action := by
  obtain ⟨honest, stepped⟩ := stepped
  cases section_of_step stepped with
  | @validate block free => exact account_validate block free
  | listen notYet => exact (account_listen notYet sameListener).trans (List.append_nil _).symm
  | planned appending planned =>
    have sameItems := pending_planned wellFormed appending honest planned role
    refine Eq.trans ?_ (List.append_nil _).symm
    rw [account, account, sameItems]
    rfl
  | notPlanned _ thrown => exact (account_leave (goesOn thrown)).trans (List.append_nil _).symm
  | called _ called =>
    refine Eq.trans ?_ (List.append_nil _).symm
    obtain ⟨block, id, callback, log, calls, appending, ending⟩ := callNext_cases called
    obtain ⟨thrown, rfl⟩ | ⟨returned, -⟩ := ending
    · exact account_leave (goesOn thrown)
    · exact account_callNext called returned role
  | finish appending =>
    have nothing : handoff.pending subscription role = [] := by simp [pending, appending]
    exact (account_leave nothing).trans (List.append_nil _).symm
  | takeQueue _ returned =>
    exact (account_of_received (by simp [received, returned]) rfl).trans (List.append_nil _).symm
  | emit taken =>
    exact (account_of_received (by simp [received, taken]) rfl).trans (List.append_nil _).symm
  | @emitThrows _ id _ listens =>
    cases role with
    | past => exact (List.append_nil _).symm
    | client =>
      have stillListens : Function.update handoff.listenIds .client none .client = some id :=
        sameListener.trans listens
      rw [Function.update_self] at stillListens
      cases stillListens
  | listenOther | cancelOther | startCopy | respond => exact (List.append_nil _).symm

theorem step_of_execute {action : Action κ} {after : Handoff κ ι}
    (executed : handoff.execute codec subscription action = some after) :
    Step codec subscription handoff action after := by
  rw [execute] at executed
  split at executed
  next honest => exact ⟨honest, executed⟩
  next => cases executed

theorem run_of_replay {actions : List (Action κ)} {taken : List (Handoff κ ι × Action κ)}
    {final : Handoff κ ι}
    (replayed : Run.replay (execute codec subscription) actions [] init = some (taken, final)) :
    Run (Step codec subscription) init taken final :=
  Run.of_replay (fun _ _ _ => step_of_execute) .nil replayed

/-! ## A block with one event -/

namespace Sample

open SampleService

/-- The subscription to the sample event manager. -/
def events : Subscription EventData := notifySubscription mgr.abi store evMgrAddr

def block : ChainBlock := eventBlock.chainBlock

def event : EventData := SubscriberService.eventData block.header SampleClient.message

abbrev Run (taken : List (Handoff Empty EventData × Action Empty)) (final : Handoff Empty EventData) :
    Prop :=
  Lib.Run (Step SampleService.codec events) init taken final

def replay (actions : List (Action Empty)) :
    Option (List (Handoff Empty EventData × Action Empty) × Handoff Empty EventData) :=
  Lib.Run.replay (execute SampleService.codec events) actions [] init

/-- Past events are kept, and a client subscribes. -/
def subscribe : List (Action Empty) := [.listen .past 1, .listen .client 2, .startCopy, .respond]

end Sample

end Handoff

end Decentagram.EthereumClt
