import Decentagram.EclipseMonitor.EventManager
import Decentagram.Lib.Bloom
import Mathlib.Data.List.Flatten

/-! # What `CheckEvents` delivers

The bloom filter of a block is the one that consensus gives it: three bits for the address and for every
topic of every log entry.  With it the pre-filter drops no listener that has a log entry to get.
-/

namespace Decentagram.Eth

open Decentagram.Lib

/-! ## The bloom filter of consensus -/

/-- What the filter is made of: the address and the topics. -/
def ReceiptLogEntry.hashes (codec : HeaderCodec) (entry : ReceiptLogEntry) : List Hash :=
  codec.keccak256 entry.contractAddr.toList :: entry.topics.map fun topic =>
    codec.keccak256 topic.toList

/-- The log entries of all receipts, in order. -/
def ReceiptsMgr.logEntries (receiptsMgr : ReceiptsMgr) : List ReceiptLogEntry :=
  receiptsMgr.receipts.flatMap Receipt.logEntries

/-- The filter of 2048 bits, as the 256 bytes in the header. -/
def consensusBloom (codec : HeaderCodec) (entries : List ReceiptLogEntry) : Bytes :=
  Bloom.bigEndian HeaderMgr.bloomByteSize
    (Bloom.ofPositions (entries.flatMap fun entry =>
      (entry.hashes codec).flatMap BloomFilter.positions))

namespace BloomFilter

/-- The byte and the mask that `CheckBloomBits` computes are those of one position. -/
theorem checkBit_bigEndian (value : Nat) (high low : UInt8) :
    checkBit (Bloom.bigEndian HeaderMgr.bloomByteSize value) high low =
      value.testBit ((high.toNat * 256 + low.toNat) % 2048) := by
  have inside : (high.toNat * 256 + low.toNat) % 2048 < 8 * HeaderMgr.bloomByteSize :=
    Nat.mod_lt _ (by decide)
  have sameBit : (high.toNat * 256 + low.toNat) % 2048 % 8 = low.toNat % 8 := by omega
  rw [← Bloom.testBit_bigEndian inside value, sameBit, Bool.eq_iff_iff]
  rw [show checkBit _ high low = true ↔ _ from decide_eq_true_iff]
  exact Bloom.and_shiftLeft_ne_zero _ low

theorem checkBloomBits_consensusBloom {codec : HeaderCodec} {entries : List ReceiptLogEntry}
    {entry : ReceiptLogEntry} (logged : entry ∈ entries) {hash : Hash}
    (hashed : hash ∈ entry.hashes codec) :
    checkBloomBits (consensusBloom codec entries) hash = true := by
  have selected : ∀ position ∈ positions hash,
      (Bloom.ofPositions (entries.flatMap fun entry =>
        (entry.hashes codec).flatMap positions)).testBit position = true := by
    intro position selects
    rw [Bloom.testBit_ofPositions, decide_eq_true_eq]
    exact List.mem_flatMap.mpr ⟨entry, logged, List.mem_flatMap.mpr ⟨hash, hashed, selects⟩⟩
  rw [checkBloomBits, consensusBloom]
  simp only [checkBit_bigEndian, Bool.and_eq_true]
  exact ⟨⟨selected _ (by simp [positions]), selected _ (by simp [positions])⟩,
    selected _ (by simp [positions])⟩

end BloomFilter

/-! ## The log entries of a listener -/

/-- The description is one that the constructor builds. -/
def EventDescription.IsBuilt {κ : Type} (codec : HeaderCodec) (desc : EventDescription κ) : Prop :=
  desc = .build codec desc.contractAddr desc.topics desc.notifyCallback

/-- The log entries with the listener's address whose topics start with the listener's. -/
def matchingLogs {κ : Type} (receiptsMgr : ReceiptsMgr) (desc : EventDescription κ) :
    List ReceiptLogEntry :=
  receiptsMgr.logEntries.filter fun entry =>
    entry.contractAddr = desc.contractAddr ∧ desc.topics <+: entry.topics

section Listener

variable {κ : Type} {codec : HeaderCodec} {desc : EventDescription κ} {receiptsMgr : ReceiptsMgr}

theorem searchEvents_eq_matchingLogs :
    receiptsMgr.searchEvents desc.contractAddr desc.topics = matchingLogs receiptsMgr desc := by
  rw [matchingLogs, ReceiptsMgr.logEntries, List.filter_flatMap, ReceiptsMgr.searchEvents]
  congr
  funext receipt
  apply List.filter_congr
  intro entry _
  rw [Bool.eq_iff_iff, decide_eq_true_eq]
  simp [ReceiptLogEntry.isEventEmitted]

/-- The pre-filter has no false negatives. -/
theorem areHashesInBloom_of_matching (built : desc.IsBuilt codec)
    (matching : matchingLogs receiptsMgr desc ≠ []) :
    BloomFilter.areHashesInBloom (consensusBloom codec receiptsMgr.logEntries) desc.hashes = true := by
  obtain ⟨entry, matched⟩ := List.exists_mem_of_ne_nil _ matching
  simp only [matchingLogs, List.mem_filter, decide_eq_true_eq] at matched
  obtain ⟨logged, sameAddr, startsWith⟩ := matched
  rw [BloomFilter.areHashesInBloom, List.all_eq_true]
  intro hash hashed
  apply BloomFilter.checkBloomBits_consensusBloom logged
  rw [built, EventDescription.build] at hashed
  simp only [List.mem_cons, List.mem_map] at hashed
  simp only [ReceiptLogEntry.hashes, List.mem_cons, List.mem_map]
  rcases hashed with rfl | ⟨topic, member, rfl⟩
  · exact .inl (by rw [sameAddr])
  · exact .inr ⟨topic, startsWith.subset member, rfl⟩

end Listener

/-! ## The calls of a block -/

namespace EventManager

variable {κ σ : Type} (codec : HeaderCodec)

/-- The sets of listeners that `Listen` and `Cancel` make. -/
inductive Registered : EventManager κ → Prop where
  | init : Registered .init
  | listen {manager : EventManager κ} (id : EventCallbackId) (contractAddr : ContractAddr)
      (topics : List EventTopic) (notifyCallback : κ) :
      Registered manager → Registered (manager.listen id (.build codec contractAddr topics notifyCallback))
  | cancel {manager : EventManager κ} (id : EventCallbackId) :
      Registered manager → Registered (manager.cancel id)

variable {codec}

theorem Registered.isBuilt {manager : EventManager κ} (registered : Registered codec manager)
    {id : EventCallbackId} {desc : EventDescription κ}
    (listens : manager.eventDescMap.lookup id = some desc) : desc.IsBuilt codec := by
  induction registered with
  | init => simp [EventManager.init] at listens
  | listen id' contractAddr topics notifyCallback _ inductionHypothesis =>
    rcases UnorderedMap.lookup_emplace listens with earlier | ⟨-, rfl⟩
    · exact inductionHypothesis earlier
    · rfl
  | cancel id' _ inductionHypothesis =>
    exact inductionHypothesis (UnorderedMap.lookup_of_erase listens).1

/-- The calls that the listeners are to get. -/
def expectedCalls (manager : EventManager κ) (receiptsMgr : ReceiptsMgr) :
    List (EventCallbackId × κ × ReceiptLogEntry) :=
  manager.eventDescMap.entries.flatMap fun entry =>
    (matchingLogs receiptsMgr entry.2).map fun log => (entry.1, entry.2.notifyCallback, log)

theorem planCalls_genCallbackPlan (receiptsMgr : ReceiptsMgr)
    (bloomedEvents : List (EventCallbackId × EventDescription κ)) :
    planCalls (genCallbackPlan receiptsMgr bloomedEvents) = bloomedEvents.flatMap fun (id, desc) =>
      (matchingLogs receiptsMgr desc).map fun log => (id, desc.notifyCallback, log) := by
  induction bloomedEvents with
  | nil => rfl
  | cons event events inductionHypothesis =>
    obtain ⟨id, desc⟩ := event
    simp only [genCallbackPlan, planCalls] at inductionHypothesis
    simp only [genCallbackPlan, planCalls, List.filterMap_cons, List.flatMap_cons,
      searchEvents_eq_matchingLogs]
    cases found : matchingLogs receiptsMgr desc with
    | nil => simp [← inductionHypothesis, searchEvents_eq_matchingLogs]
    | cons log logs => simp [← inductionHypothesis, searchEvents_eq_matchingLogs]

/-- Leaving out the listeners that the filter excludes loses no call. -/
theorem expectedCalls_bloomed {manager : EventManager κ} (registered : Registered codec manager)
    (receiptsMgr : ReceiptsMgr) :
    ((manager.bloomEventDesc (consensusBloom codec receiptsMgr.logEntries)).flatMap fun (id, desc) =>
      (matchingLogs receiptsMgr desc).map fun log => (id, desc.notifyCallback, log)) =
      manager.expectedCalls receiptsMgr := by
  have built : ∀ entry ∈ manager.eventDescMap.entries, entry.2.IsBuilt codec := by
    intro entry member
    exact registered.isBuilt (AList.mem_lookup_iff.mpr member)
  rw [bloomEventDesc, expectedCalls]
  revert built
  generalize manager.eventDescMap.entries = entries
  intro built
  induction entries with
  | nil => rfl
  | cons entry entries inductionHypothesis =>
    have rest := inductionHypothesis fun entry' member => built entry' (by simp [member])
    rw [List.map_cons, List.filter_cons, List.flatMap_cons, ← rest]
    by_cases matching : matchingLogs receiptsMgr entry.2 = []
    · split <;> simp [matching]
    · rw [if_pos (areHashesInBloom_of_matching (built entry (by simp)) matching), List.flatMap_cons]

theorem callbackPlans_exact {manager : EventManager κ} (registered : Registered codec manager)
    {header : HeaderMgr} {receiptsMgrGetter : BlockNumber → Except Exception ReceiptsMgr}
    {receiptsMgr : ReceiptsMgr} (gets : receiptsMgrGetter header.blkNum = .ok receiptsMgr)
    (root : receiptsMgr.rootHashBytes = header.rawHeader.receiptsRoot)
    (bloom : header.rawHeader.logsBloom = consensusBloom codec receiptsMgr.logEntries) :
    ∃ plans, manager.callbackPlans header receiptsMgrGetter = .ok plans ∧
      planCalls plans = manager.expectedCalls receiptsMgr := by
  have bloomed := expectedCalls_bloomed registered receiptsMgr
  rw [callbackPlans, bloom]
  by_cases noEvents :
      (manager.bloomEventDesc (consensusBloom codec receiptsMgr.logEntries)).isEmpty = true
  · rw [if_pos noEvents]
    refine ⟨[], rfl, ?_⟩
    rw [List.isEmpty_iff] at noEvents
    rw [← bloomed, noEvents]
    rfl
  · rw [if_neg noEvents, gets]
    refine ⟨_, ?_, (planCalls_genCallbackPlan _ _).trans bloomed⟩
    simp only [bind, Except.bind, root, ne_eq, not_true_eq_false, if_false]
    rfl

/-- The calls with one identifier are those of the listener that has it. -/
theorem filter_expectedCalls {manager : EventManager κ} {id : EventCallbackId}
    {desc : EventDescription κ} (listens : manager.eventDescMap.lookup id = some desc)
    (receiptsMgr : ReceiptsMgr) :
    (manager.expectedCalls receiptsMgr).filter (fun call => call.1 = id) =
      (matchingLogs receiptsMgr desc).map fun log => (id, desc.notifyCallback, log) := by
  have perEntry : ∀ entry : Σ _ : EventCallbackId, EventDescription κ,
      ((matchingLogs receiptsMgr entry.2).map fun log =>
        (entry.1, entry.2.notifyCallback, log)).filter (fun call => call.1 = id) =
      if entry.1 = id then (matchingLogs receiptsMgr entry.2).map fun log =>
        (entry.1, entry.2.notifyCallback, log) else [] := by
    intro entry
    by_cases same : entry.1 = id <;> simp [same, List.filter_map, Function.comp_def]
  rw [expectedCalls, List.filter_flatMap]
  simp only [perEntry]
  exact UnorderedMap.flatMap_key listens _

theorem mem_expectedCalls {manager : EventManager κ} {receiptsMgr : ReceiptsMgr}
    {call : EventCallbackId × κ × ReceiptLogEntry} (called : call ∈ manager.expectedCalls receiptsMgr) :
    ∃ desc, manager.eventDescMap.lookup call.1 = some desc ∧ call.2.1 = desc.notifyCallback ∧
      call.2.2 ∈ matchingLogs receiptsMgr desc := by
  obtain ⟨entry, member, called⟩ := List.mem_flatMap.mp called
  obtain ⟨log, matches', rfl⟩ := List.mem_map.mp called
  exact ⟨entry.2, AList.mem_lookup_iff.mpr member, rfl, matches'⟩

theorem lookup_of_expectedCalls {manager : EventManager κ} {receiptsMgr : ReceiptsMgr}
    {call : EventCallbackId × κ × ReceiptLogEntry} (called : call ∈ manager.expectedCalls receiptsMgr) :
    (manager.eventDescMap.lookup call.1).isSome := by
  obtain ⟨desc, found, -⟩ := mem_expectedCalls called
  simp [found]

/-- No listener is called more often for a log entry than the block has it. -/
theorem countP_expectedCalls (manager : EventManager κ) (receiptsMgr : ReceiptsMgr)
    (id : EventCallbackId) (log : ReceiptLogEntry) :
    (manager.expectedCalls receiptsMgr).countP (fun call => call.2.2 = log ∧ call.1 = id) ≤
      receiptsMgr.logEntries.count log := by
  have perListener : (manager.expectedCalls receiptsMgr).countP
        (fun call => call.2.2 = log ∧ call.1 = id) =
      ((manager.expectedCalls receiptsMgr).filter (fun call => call.1 = id)).countP
        (fun call => call.2.2 = log) := by
    simp [List.countP_filter]
  rw [perListener]
  cases listens : manager.eventDescMap.lookup id with
  | none =>
    have noCall : (manager.expectedCalls receiptsMgr).filter (fun call => call.1 = id) = [] := by
      rw [List.filter_eq_nil_iff]
      intro call called isListener
      rw [decide_eq_true_eq] at isListener
      have found := lookup_of_expectedCalls called
      rw [isListener, listens] at found
      cases found
    simp [noCall]
  | some desc =>
    rw [filter_expectedCalls listens, List.countP_map]
    exact (List.filter_sublist.countP_le (p := (· = log)))

/-- Every plan calls some of the listeners that are expected to be called. -/
theorem planCalls_sublist {manager : EventManager κ} {header : HeaderMgr}
    {receiptsMgrGetter : BlockNumber → Except Exception ReceiptsMgr} {plans : List (CallbackPlan κ)}
    (planned : manager.callbackPlans header receiptsMgrGetter = .ok plans) :
    plans = [] ∨ ∃ receiptsMgr, receiptsMgrGetter header.blkNum = .ok receiptsMgr ∧
      receiptsMgr.rootHashBytes = header.rawHeader.receiptsRoot ∧
      (planCalls plans).Sublist (manager.expectedCalls receiptsMgr) := by
  rw [callbackPlans] at planned
  split at planned
  · cases planned
    exact .inl rfl
  · right
    cases gets : receiptsMgrGetter header.blkNum with
    | error _ => simp [gets, bind, Except.bind] at planned
    | ok receiptsMgr =>
      simp only [gets, bind, Except.bind] at planned
      split at planned
      · cases planned
      next sameRoot =>
        cases planned
        refine ⟨receiptsMgr, rfl, of_not_not sameRoot, ?_⟩
        have bloomed : (manager.bloomEventDesc header.rawHeader.logsBloom).Sublist
            (manager.eventDescMap.entries.map fun entry => (entry.1, entry.2)) :=
          List.filter_sublist
        rw [planCalls_genCallbackPlan, expectedCalls]
        simpa [List.flatMap_map] using bloomed.flatMap fun (id, desc) =>
          (matchingLogs receiptsMgr desc).map fun log => (id, desc.notifyCallback, log)

/-- The plan is carried out call by call. -/
theorem conductCallbackPlan_eq_forM
    (notify : κ → HeaderMgr → ReceiptLogEntry → EventCallbackId → Exec Exception σ Unit)
    (header : HeaderMgr) (calls : List (EventCallbackId × κ × ReceiptLogEntry)) :
    conductCallbackPlan notify header calls =
      calls.forM fun (id, callback, log) => notify callback header log id := by
  induction calls with
  | nil => rfl
  | cons call calls inductionHypothesis =>
    simp only [conductCallbackPlan, inductionHypothesis, List.forM_eq_forM, List.forM_cons]

/-- Every callback returns, and the state keeps a record of its calls. -/
def Records (notify : κ → HeaderMgr → ReceiptLogEntry → EventCallbackId → Exec Exception σ Unit)
    (header : HeaderMgr) (record : σ → List (EventCallbackId × κ × ReceiptLogEntry)) : Prop :=
  ∀ callback log id state, (notify callback header log id state).Returns
    fun _ after => record after = record state ++ [(id, callback, log)]

/-- Callbacks that are run one after the other are recorded in this order. -/
theorem forM_recorded {notify : κ → HeaderMgr → ReceiptLogEntry → EventCallbackId → Exec Exception σ Unit}
    {header : HeaderMgr} {record : σ → List (EventCallbackId × κ × ReceiptLogEntry)}
    (records : Records notify header record) (calls : List (EventCallbackId × κ × ReceiptLogEntry))
    (before : σ) : ∃ final,
      (calls.forM fun (id, callback, log) => notify callback header log id) before = .ok () final ∧
        record final = record before ++ calls := by
  induction calls generalizing before with
  | nil => exact ⟨before, rfl, (List.append_nil _).symm⟩
  | cons call calls inductionHypothesis =>
    obtain ⟨id, callback, log⟩ := call
    obtain ⟨_, middle, called, recorded⟩ := Outcome.returns_iff.mp (records callback log id before)
    have rest := inductionHypothesis middle
    rw [recorded, List.append_assoc, List.singleton_append] at rest
    simpa only [List.forM_eq_forM, List.forM_cons, Exec.bind_apply, called, Outcome.andThen_ok] using rest

/-- `CheckEvents` makes exactly the calls that are expected: it runs a row of callbacks, in which each
    listener has its log entries, each once and in the order of the receipts, and nobody else has any.
    Callbacks that record themselves and return leave this row in the state. -/
theorem checkEvents_exact (manager : σ → EventManager κ)
    (notify : κ → HeaderMgr → ReceiptLogEntry → EventCallbackId → Exec Exception σ Unit)
    (header : HeaderMgr) (receiptsMgrGetter : BlockNumber → Except Exception ReceiptsMgr)
    (receiptsMgr : ReceiptsMgr) (before : σ) (registered : Registered codec (manager before))
    (gets : receiptsMgrGetter header.blkNum = .ok receiptsMgr)
    (root : receiptsMgr.rootHashBytes = header.rawHeader.receiptsRoot)
    (bloom : header.rawHeader.logsBloom = consensusBloom codec receiptsMgr.logEntries) :
    ∃ calls : List (EventCallbackId × κ × ReceiptLogEntry),
      checkEvents manager notify header receiptsMgrGetter before =
        (calls.forM fun (id, callback, log) => notify callback header log id) before ∧
      (∀ id desc, (manager before).eventDescMap.lookup id = some desc →
        calls.filter (fun call => call.1 = id) =
          (matchingLogs receiptsMgr desc).map fun log => (id, desc.notifyCallback, log)) ∧
      (∀ call ∈ calls, ((manager before).eventDescMap.lookup call.1).isSome) ∧
      ∀ record, Records notify header record → ∃ final,
        checkEvents manager notify header receiptsMgrGetter before = .ok () final ∧
          record final = record before ++ calls := by
  obtain ⟨plans, planned, calls⟩ := callbackPlans_exact registered gets root bloom
  have conducted : checkEvents manager notify header receiptsMgrGetter before =
      (((manager before).expectedCalls receiptsMgr).forM
        fun (id, callback, log) => notify callback header log id) before := by
    rw [← calls, ← conductCallbackPlan_eq_forM]
    simp [checkEvents, planned, Exec.ofExcept]
  refine ⟨(manager before).expectedCalls receiptsMgr, conducted, ?_, ?_, ?_⟩
  · exact fun _ _ listens => filter_expectedCalls listens receiptsMgr
  · exact fun _ called => lookup_of_expectedCalls called
  · intro record records
    rw [conducted]
    exact forM_recorded records _ before

/-! A listener for one address and one topic, and a block with three log entries of that address, the
second of which has no topic. -/

namespace Sample

/-- The hash function on the zero address and the zero topic. -/
def zeroCodec : HeaderCodec where
  parse := fun _ => .error "Not a header"
  keccak256 := fun binary =>
    let bytes : Bytes :=
      if binary.length = 20 then
        [83, 128, 199, 183, 174, 129, 165, 142, 185, 141, 156, 120, 222, 74, 31, 215, 253, 149, 53, 252,
          149, 62, 210, 190, 96, 45, 170, 164, 23, 103, 49, 42]
      else
        [41, 13, 236, 217, 84, 139, 98, 168, 214, 3, 69, 169, 136, 56, 111, 200, 75, 166, 188, 149, 72,
          64, 8, 246, 54, 47, 147, 22, 14, 243, 229, 99]
    Vector.ofFn fun i => bytes.getD i 0

def logOf (topics : List EventTopic) : ReceiptLogEntry where
  contractAddr := Vector.replicate 20 0
  topics
  logData := []

def twoTopics : ReceiptLogEntry := logOf [Vector.replicate 32 0, Vector.replicate 32 0]

def oneTopic : ReceiptLogEntry := logOf [Vector.replicate 32 0]

def receiptsMgr : ReceiptsMgr where
  receipts := [{ logEntries := [] }, { logEntries := [twoTopics, logOf []] }, { logEntries := [oneTopic] }]
  rootHashBytes := []

def header : HeaderMgr :=
  { HeaderMgr.init with
    rawHeader := { HeaderMgr.init.rawHeader with
      logsBloom := consensusBloom zeroCodec receiptsMgr.logEntries } }

def listeners : EventManager Unit :=
  EventManager.init.listen 1 (.build zeroCodec (Vector.replicate 20 0) [Vector.replicate 32 0] ())

/-- A callback that only records its call. -/
def recordCall (callback : Unit) (_ : HeaderMgr) (log : ReceiptLogEntry) (id : EventCallbackId) :
    Exec Exception (List (EventCallbackId × Unit × ReceiptLogEntry)) Unit :=
  Exec.modify (· ++ [(id, callback, log)])

end Sample

/-- The calls that were made: the first and the third log entry, in this order. -/
theorem checkEvents_exact_sample :
    checkEvents (fun _ => Sample.listeners) Sample.recordCall Sample.header
        (fun _ => .ok Sample.receiptsMgr) [] =
      .ok () [(1, (), Sample.twoTopics), (1, (), Sample.oneTopic)] := by
  have registered : Registered Sample.zeroCodec Sample.listeners := .listen 1 _ _ () .init
  obtain ⟨calls, -, perListener, onlyListeners, recorded⟩ := checkEvents_exact
    (fun _ => Sample.listeners) Sample.recordCall Sample.header (fun _ => .ok Sample.receiptsMgr)
    Sample.receiptsMgr [] registered rfl rfl rfl
  have records : Records Sample.recordCall Sample.header id := fun _ _ _ _ => rfl
  obtain ⟨final, ended, isFinal⟩ := recorded id records
  have onlyOne : calls.filter (fun call => call.1 = 1) = calls := by
    rw [List.filter_eq_self]
    intro call called
    obtain ⟨desc, listens⟩ := Option.isSome_iff_exists.mp (onlyListeners call called)
    rcases UnorderedMap.lookup_emplace listens with earlier | ⟨isListener, -⟩
    · simp [EventManager.init] at earlier
    · exact decide_eq_true isListener
  rw [perListener 1 _ rfl] at onlyOne
  rw [ended, show final = calls from isFinal, ← onlyOne]
  exact congrArg (Outcome.ok ()) (by decide)

end EventManager

end Decentagram.Eth
