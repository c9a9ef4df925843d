import Decentagram.Lib.Interleaving

/-! # The emitters of heartbeats

`HeartbeatEmitterMgr` as an interleaved program.  An atomic step of a call is one critical section of the
mutex, the start or the end of one emission, or the printing of a debug message.  An emission may itself
add emitters or emit, as other calls do meanwhile.  Emitters are named in the order in which they are
made.
-/

namespace Decentagram.DecentEnclave

open Decentagram.Lib

abbrev EmitterIdType := Nat

inductive AddEmitterStage where
  | emplaceBack
  | returned
deriving DecidableEq, Repr

/-- Where an `EmitAll` stands.  The list it has taken is what was emitted and `kept`, the emitter the loop
    is at, and the `rest`; `threw` is the end of a call that an exception leaves. -/
inductive EmitAllStage where
  | swapOut
  | enter (kept : List EmitterIdType) (emitter : EmitterIdType) (rest : List EmitterIdType)
  | emitting (kept : List EmitterIdType) (emitter : EmitterIdType) (rest : List EmitterIdType)
  | printing (kept : List EmitterIdType) (emitter : EmitterIdType) (rest : List EmitterIdType)
  | merge (kept : List EmitterIdType)
  | returned
  | threw
deriving DecidableEq, Repr

inductive EmitterCall where
  | addEmitter (emitter : EmitterIdType) (stage : AddEmitterStage)
  | emitAll (stage : EmitAllStage)
deriving DecidableEq, Repr

/-- How an emission or the printing of a message ends. -/
inductive Ending where
  | returns
  | throwsStdException
  | throwsOther
deriving DecidableEq, Repr

structure HeartbeatEmitterMgr where
  emitterList : List EmitterIdType
  /-- How many emitters were made. -/
  made : Nat
deriving DecidableEq, Repr

namespace HeartbeatEmitterMgr

def init : HeartbeatEmitterMgr := { emitterList := [], made := 0 }

def addEmitter (mgr : HeartbeatEmitterMgr) (emitter : EmitterIdType) :
    AddEmitterStage → Option (HeartbeatEmitterMgr × AddEmitterStage)
  | .emplaceBack => some ({ mgr with emitterList := mgr.emitterList ++ [emitter] }, .returned)
  | .returned => none

/-- The end of the loop over the emitters, or its next round. -/
def nextRound (kept : List EmitterIdType) : List EmitterIdType → EmitAllStage
  | [] => .merge kept
  | emitter :: rest => .enter kept emitter rest

/-- A step of `EmitAll`.  The loop only handles a `std::exception`, and its handler does not handle the
    exception of a message that the host fails to print. -/
def emitAll (mgr : HeartbeatEmitterMgr) (ending : Ending) :
    EmitAllStage → Option (HeartbeatEmitterMgr × EmitAllStage)
  | .swapOut => some ({ mgr with emitterList := [] }, nextRound [] mgr.emitterList)
  | .enter kept emitter rest => some (mgr, .emitting kept emitter rest)
  | .emitting kept emitter rest =>
    some (mgr, match ending with
      | .returns => nextRound (kept ++ [emitter]) rest
      | .throwsStdException => .printing kept emitter rest
      | .throwsOther => .threw)
  | .printing kept _ rest =>
    some (mgr, match ending with
      | .returns => nextRound kept rest
      | .throwsStdException => .threw
      | .throwsOther => .threw)
  | .merge kept => some ({ mgr with emitterList := kept ++ mgr.emitterList }, .returned)
  | .returned => none
  | .threw => none

/-- The next step of a call. -/
def next (mgr : HeartbeatEmitterMgr) (call : EmitterCall) (ending : Ending) :
    Option (HeartbeatEmitterMgr × EmitterCall) :=
  match call with
  | .addEmitter emitter stage =>
    (mgr.addEmitter emitter stage).map fun (mgr, stage) => (mgr, .addEmitter emitter stage)
  | .emitAll stage => (mgr.emitAll ending stage).map fun (mgr, stage) => (mgr, .emitAll stage)

end HeartbeatEmitterMgr

inductive EmitterEvent where
  | addEmitter
  | emitAll
deriving DecidableEq, Repr

/-- A member function is called, `AddEmitter` with a new emitter. -/
def HeartbeatEmitterMgr.event (mgr : HeartbeatEmitterMgr) :
    EmitterEvent → Option (HeartbeatEmitterMgr × List EmitterCall)
  | .addEmitter => some ({ mgr with made := mgr.made + 1 }, [.addEmitter mgr.made .emplaceBack])
  | .emitAll => some (mgr, [.emitAll .swapOut])

abbrev EmitterPool := Pool HeartbeatEmitterMgr EmitterCall

abbrev EmitterTurn := Turn Ending EmitterEvent

def emitterProgram : Program HeartbeatEmitterMgr EmitterCall Ending EmitterEvent where
  next := HeartbeatEmitterMgr.next
  event := HeartbeatEmitterMgr.event

/-- The emitters of the list that an `EmitAll` has taken and that have not failed. -/
def EmitAllStage.inHand : EmitAllStage → List EmitterIdType
  | .swapOut => []
  | .enter kept emitter rest => kept ++ emitter :: rest
  | .emitting kept emitter rest => kept ++ emitter :: rest
  | .printing kept _ rest => kept ++ rest
  | .merge kept => kept
  | .returned => []
  | .threw => []

namespace EmitterCall

def finished : EmitterCall → Bool
  | .addEmitter _ .returned => true
  | .emitAll .returned => true
  | .emitAll .threw => true
  | _ => false

/-- The emitters that a call has taken from the list and that have not failed. -/
def inHand : EmitterCall → List EmitterIdType
  | .addEmitter _ _ => []
  | .emitAll stage => stage.inHand

/-- The emitter that is about to be put into the list. -/
def adding : EmitterCall → Option EmitterIdType
  | .addEmitter emitter .emplaceBack => some emitter
  | _ => none

/-- The emitter that is about to be called. -/
def entering : EmitterCall → Option EmitterIdType
  | .emitAll (.enter _ emitter _) => some emitter
  | _ => none

/-- The emitter that is running. -/
def running : EmitterCall → Option EmitterIdType
  | .emitAll (.emitting _ emitter _) => some emitter
  | _ => none

/-- The other emitters that an `EmitAll` holds when an exception makes it leave. -/
def abandoned : EmitterCall → Ending → List EmitterIdType
  | .emitAll (.emitting kept _ rest), .throwsOther => kept ++ rest
  | .emitAll (.printing kept _ rest), .throwsStdException => kept ++ rest
  | .emitAll (.printing kept _ rest), .throwsOther => kept ++ rest
  | _, _ => []

end EmitterCall

namespace EmitterPool

def init : EmitterPool := { shared := .init, calls := [] }

/-- The emitters that are in the list, or that an `EmitAll` has taken and will put back. -/
def present (pool : EmitterPool) : List EmitterIdType :=
  pool.shared.emitterList ++ pool.calls.flatMap EmitterCall.inHand

/-- The step puts the emitter into the list. -/
def Adds (emitter : EmitterIdType) (pool : EmitterPool) : EmitterTurn → Prop
  | .call index _ => pool.calls[index]?.bind EmitterCall.adding = some emitter
  | .event _ => False

/-- The step calls the emitter. -/
def Enters (emitter : EmitterIdType) (pool : EmitterPool) : EmitterTurn → Prop
  | .call index _ => pool.calls[index]?.bind EmitterCall.entering = some emitter
  | .event _ => False

/-- The step is an exception that the emitter throws. -/
def Throws (emitter : EmitterIdType) (pool : EmitterPool) : EmitterTurn → Prop
  | .call index ending =>
    pool.calls[index]?.bind EmitterCall.running = some emitter ∧ ending ≠ .returns
  | .event _ => False

/-- A step that makes an `EmitAll` leave by an exception has no other emitter in hand. -/
def AbandonsNone (pool : EmitterPool) : EmitterTurn → Prop
  | .call index ending => ∀ call, pool.calls[index]? = some call → call.abandoned ending = []
  | .event _ => True

/-- No emitter is lost or duplicated, and one that threw is gone and not called again. -/
structure Conserved (taken : List (EmitterPool × EmitterTurn)) (pool : EmitterPool) : Prop where
  once : ∀ emitter, Happened (Adds emitter) taken → ¬ Happened (Throws emitter) taken →
    pool.present.count emitter = 1
  gone : ∀ emitter, Happened (Throws emitter) taken → emitter ∉ pool.present
  silent : ∀ earlier middle turn later, taken = earlier ++ (middle, turn) :: later →
    ∀ emitter, Happened (Throws emitter) earlier → ¬ Enters emitter middle turn

end EmitterPool

namespace HeartbeatEmitterMgr

variable {mgr mgr' : HeartbeatEmitterMgr} {call call' : EmitterCall} {ending : Ending}

@[simp] theorem inHand_nextRound (kept rest : List EmitterIdType) :
    (nextRound kept rest).inHand = kept ++ rest := by
  cases rest with
  | nil => exact (List.append_nil kept).symm
  | cons emitter rest => rfl

/-- A step of a call moves the emitters between the list and its hand: it adds at most the one it is to
    add, and takes away at most the one that throws and those it abandons. -/
theorem next_balanced (step : mgr.next call ending = some (mgr', call')) (emitter : EmitterIdType) :
    mgr'.emitterList.count emitter + call'.inHand.count emitter +
        (call.abandoned ending).count emitter +
        (if call.running = some emitter ∧ ending ≠ .returns then 1 else 0) =
      mgr.emitterList.count emitter + call.inHand.count emitter +
        (if call.adding = some emitter then 1 else 0) := by
  cases call with
  | addEmitter added stage =>
    cases stage with
    | emplaceBack =>
      cases step
      simp [EmitterCall.inHand, EmitterCall.abandoned, EmitterCall.running, EmitterCall.adding,
        List.count_append, List.count_singleton]
    | returned => cases step
  | emitAll stage =>
    simp only [EmitterCall.inHand, EmitterCall.adding]
    cases stage with
    | swapOut =>
      -- the whole list changes hands
      cases step
      simp only [inHand_nextRound]
      simp [EmitAllStage.inHand, EmitterCall.abandoned, EmitterCall.running]
    | enter kept entered rest =>
      cases step
      simp [EmitAllStage.inHand, EmitterCall.abandoned, EmitterCall.running]
    | emitting kept running rest =>
      cases step
      cases ending with
      | returns =>
        simp only [inHand_nextRound]
        simp [EmitAllStage.inHand, EmitterCall.abandoned, EmitterCall.running]
      | throwsStdException =>
        -- the emitter that ran is dropped, and the round goes on behind the print
        by_cases same : running = emitter
        · simp [EmitAllStage.inHand, EmitterCall.abandoned, EmitterCall.running, same]
          omega
        · simp [EmitAllStage.inHand, EmitterCall.abandoned, EmitterCall.running, same]
      | throwsOther =>
        -- nothing catches it: what is in hand is abandoned
        by_cases same : running = emitter
        · simp [EmitAllStage.inHand, EmitterCall.abandoned, EmitterCall.running, same]
          omega
        · simp [EmitAllStage.inHand, EmitterCall.abandoned, EmitterCall.running, same]
    | printing kept failed rest =>
      cases step
      cases ending with
      | returns =>
        simp only [inHand_nextRound]
        simp [EmitAllStage.inHand, EmitterCall.abandoned, EmitterCall.running]
      | throwsStdException =>
        simp [EmitAllStage.inHand, EmitterCall.abandoned, EmitterCall.running]
      | throwsOther =>
        simp [EmitAllStage.inHand, EmitterCall.abandoned, EmitterCall.running]
    | merge kept =>
      -- what was kept goes back behind what was added meanwhile
      cases step
      simp only [EmitAllStage.inHand, EmitterCall.abandoned, EmitterCall.running,
        List.count_append, List.count_nil, reduceCtorEq, false_and, if_false]
      omega
    | returned => cases step
    | threw => cases step

/-- No call makes emitters, and none is to add one after it took a step. -/
theorem next_made (step : mgr.next call ending = some (mgr', call')) :
    mgr'.made = mgr.made ∧ call'.adding = none := by
  cases call with
  | addEmitter added stage =>
    cases stage with
    | emplaceBack =>
      cases step
      exact ⟨rfl, rfl⟩
    | returned => cases step
  | emitAll stage => cases stage <;> cases step <;> exact ⟨rfl, rfl⟩

end HeartbeatEmitterMgr

/-- Whoever is about to be called, or runs, is in hand. -/
theorem EmitterCall.mem_inHand {call : EmitterCall} {emitter : EmitterIdType}
    (atWork : call.entering = some emitter ∨ call.running = some emitter) :
    emitter ∈ call.inHand := by
  cases call with
  | addEmitter added stage => simp [entering, running] at atWork
  | emitAll stage =>
    cases stage <;> simp [entering, running] at atWork
    case enter kept entered rest =>
      subst atWork
      exact List.mem_append.mpr (.inr List.mem_cons_self)
    case emitting kept entered rest =>
      subst atWork
      exact List.mem_append.mpr (.inr List.mem_cons_self)

namespace EmitterPool

variable {before after : EmitterPool} {turn : EmitterTurn}

instance (emitter : EmitterIdType) (pool : EmitterPool) : DecidablePred (Adds emitter pool)
  | .call index _ =>
    inferInstanceAs (Decidable (pool.calls[index]?.bind EmitterCall.adding = some emitter))
  | .event _ => inferInstanceAs (Decidable False)

instance (emitter : EmitterIdType) (pool : EmitterPool) : DecidablePred (Throws emitter pool)
  | .call index ending => inferInstanceAs (Decidable
      (pool.calls[index]?.bind EmitterCall.running = some emitter ∧ ending ≠ .returns))
  | .event _ => inferInstanceAs (Decidable False)

/-- The emitters that a step abandons. -/
def abandonedBy (pool : EmitterPool) : EmitterTurn → List EmitterIdType
  | .call index ending =>
    (pool.calls[index]?.map fun call => call.abandoned ending).getD []
  | .event _ => []

theorem abandonsNone_iff : AbandonsNone before turn ↔ before.abandonedBy turn = [] := by
  cases turn with
  | call index ending =>
    cases found : before.calls[index]? <;> simp [AbandonsNone, abandonedBy, found]
  | event event => simp [AbandonsNone, abandonedBy]

theorem count_present (pool : EmitterPool) (emitter : EmitterIdType) :
    pool.present.count emitter = pool.shared.emitterList.count emitter +
      (pool.calls.map fun call => call.inHand.count emitter).sum := by
  rw [present, List.count_append, List.count_flatMap]
  rfl

/-- What a step does to the number of times that an emitter is present. -/
theorem count_present_step (step : emitterProgram.Step before turn after) (emitter : EmitterIdType) :
    after.present.count emitter + (before.abandonedBy turn).count emitter +
        (if Throws emitter before turn then 1 else 0) =
      before.present.count emitter + (if Adds emitter before turn then 1 else 0) := by
  cases emitterProgram.step_cases step with
  | inl steps =>
    obtain ⟨index, ending, call, mgr, call', rfl, found, next, rfl⟩ := steps
    have balanced := HeartbeatEmitterMgr.next_balanced next emitter
    have inHands := sum_map_set found (fun call => call.inHand.count emitter) call'
    simp only [count_present, abandonedBy, Throws, Adds, found, Option.map_some, Option.getD_some,
      Option.bind_some]
    omega
  | inr happens =>
    obtain ⟨event, mgr, started, rfl, happened, rfl⟩ := happens
    cases event <;> cases happened <;>
      simp [count_present, abandonedBy, Throws, Adds, EmitterCall.inHand, EmitAllStage.inHand]

theorem mem_present_of_call {pool : EmitterPool} {index : Nat} {emitter : EmitterIdType}
    (atWork : pool.calls[index]?.bind EmitterCall.entering = some emitter ∨
      pool.calls[index]?.bind EmitterCall.running = some emitter) : emitter ∈ pool.present := by
  cases found : pool.calls[index]? with
  | none => simp [found] at atWork
  | some call =>
    have inHand : emitter ∈ call.inHand :=
      EmitterCall.mem_inHand (by simpa only [found, Option.bind_some] using atWork)
    exact List.mem_append.mpr
      (.inr (List.mem_flatMap.mpr ⟨call, List.mem_of_getElem? found, inHand⟩))

theorem Throws.mem_present {emitter : EmitterIdType} (throws : Throws emitter before turn) :
    emitter ∈ before.present := by
  cases turn with
  | call index ending => exact mem_present_of_call (.inr throws.1)
  | event event => cases throws

theorem Enters.mem_present {emitter : EmitterIdType} (enters : Enters emitter before turn) :
    emitter ∈ before.present := by
  cases turn with
  | call index ending => exact mem_present_of_call (.inl enters)
  | event event => cases enters

/-- What holds in every run: an emitter is made before it is added, it is added once, and while it is
    present it has not thrown. -/
structure Tracked (taken : List (EmitterPool × EmitterTurn)) (pool : EmitterPool) : Prop where
  atMostOnce : ∀ emitter, pool.present.count emitter ≤ 1
  added : ∀ emitter ∈ pool.present, Happened (Adds emitter) taken ∧ ¬ Happened (Throws emitter) taken
  threw : ∀ emitter, Happened (Throws emitter) taken → Happened (Adds emitter) taken
  made : ∀ emitter, Happened (Adds emitter) taken → emitter < pool.shared.made
  pending : ∀ (index : Nat) call emitter, pool.calls[index]? = some call →
    EmitterCall.adding call = some emitter →
    emitter < pool.shared.made ∧ ¬ Happened (Adds emitter) taken
  single : ∀ (index other : Nat) call call' emitter, pool.calls[index]? = some call →
    pool.calls[other]? = some call' → EmitterCall.adding call = some emitter →
    EmitterCall.adding call' = some emitter → index = other

theorem tracked_init : Tracked [] init where
  atMostOnce emitter := Nat.zero_le 1
  added emitter member := by simp [present, init, HeartbeatEmitterMgr.init] at member
  threw emitter happened := (not_happened_nil happened).elim
  made emitter happened := (not_happened_nil happened).elim
  pending index call emitter found := by simp [init] at found
  single index other call call' emitter found := by simp [init] at found

variable {taken : List (EmitterPool × EmitterTurn)}

/-- A call that is to add an emitter after a step was to add it before, or was started by the step. -/
theorem adding_of_step (step : emitterProgram.Step before turn after) {index : Nat}
    {call : EmitterCall} {emitter : EmitterIdType} (found : after.calls[index]? = some call)
    (adding : call.adding = some emitter) :
    before.calls[index]? = some call ∧ (∀ ending, turn ≠ .call index ending) ∨
      index = before.calls.length ∧ emitter = before.shared.made ∧
        after.shared.made = before.shared.made + 1 := by
  cases emitterProgram.step_cases step with
  | inl steps =>
    obtain ⟨place, ending, old, mgr, call', rfl, foundOld, next, rfl⟩ := steps
    obtain ⟨inRange, -⟩ := List.getElem?_eq_some_iff.mp foundOld
    by_cases same : place = index
    · subst same
      have becomes : call' = call :=
        Option.some.inj ((List.getElem?_set_self inRange).symm.trans found)
      have idle := (HeartbeatEmitterMgr.next_made next).2
      rw [becomes, adding] at idle
      cases idle
    · refine .inl ⟨(List.getElem?_set_ne same).symm.trans found, fun ending' isTurn => ?_⟩
      cases isTurn
      exact same rfl
  | inr happens =>
    obtain ⟨event, mgr, started, rfl, happened, rfl⟩ := happens
    cases Nat.lt_or_ge index before.calls.length with
    | inl old =>
      exact .inl ⟨(List.getElem?_append_left old).symm.trans found, by simp⟩
    | inr new =>
      have foundNew := (List.getElem?_append_right new).symm.trans found
      cases event <;> cases happened <;>
        simp only [List.getElem?_singleton, Option.ite_none_right_eq_some, Option.some.injEq]
          at foundNew <;> obtain ⟨isFirst, rfl⟩ := foundNew
      · exact .inr ⟨by omega, (Option.some.inj adding).symm, rfl⟩
      · cases adding

theorem made_le_of_step (step : emitterProgram.Step before turn after) :
    before.shared.made ≤ after.shared.made := by
  cases emitterProgram.step_cases step with
  | inl steps =>
    obtain ⟨index, ending, call, mgr, call', rfl, found, next, rfl⟩ := steps
    exact Nat.le_of_eq (HeartbeatEmitterMgr.next_made next).1.symm
  | inr happens =>
    obtain ⟨event, mgr, started, rfl, happened, rfl⟩ := happens
    cases event <;> cases happened <;> simp

theorem Adds.found {emitter : EmitterIdType} (adds : Adds emitter before turn) :
    ∃ (index : Nat) (ending : Ending) (call : EmitterCall), turn = .call index ending ∧
      before.calls[index]? = some call ∧ call.adding = some emitter := by
  cases turn with
  | call index ending =>
    obtain ⟨call, found, adding⟩ := Option.bind_eq_some_iff.mp adds
    exact ⟨index, ending, call, rfl, found, adding⟩
  | event event => cases adds

/-- An emitter that a step adds was neither added nor present. -/
theorem Tracked.fresh (tracked : Tracked taken before) {emitter : EmitterIdType}
    (adds : Adds emitter before turn) :
    ¬ Happened (Adds emitter) taken ∧ ¬ Happened (Throws emitter) taken ∧ emitter ∉ before.present := by
  obtain ⟨index, ending, call, rfl, found, adding⟩ := adds.found
  have notAdded := (tracked.pending index call emitter found adding).2
  exact ⟨notAdded, fun threw => notAdded (tracked.threw emitter threw), fun member =>
    notAdded (tracked.added emitter member).1⟩

theorem Tracked.not_adds_of_throws (tracked : Tracked taken before) {emitter : EmitterIdType}
    (throws : Throws emitter before turn) : ¬ Adds emitter before turn :=
  fun adds => (tracked.fresh adds).2.2 throws.mem_present

theorem Tracked.count_le (tracked : Tracked taken before)
    (step : emitterProgram.Step before turn after) (emitter : EmitterIdType) :
    after.present.count emitter ≤ 1 := by
  have balance := count_present_step step emitter
  have once := tracked.atMostOnce emitter
  by_cases adds : Adds emitter before turn
  · have absent := List.count_eq_zero.mpr (tracked.fresh adds).2.2
    rw [if_pos adds] at balance
    omega
  · rw [if_neg adds] at balance
    omega

/-- One that throws is not present any more. -/
theorem Tracked.not_mem_of_throws (tracked : Tracked taken before)
    (step : emitterProgram.Step before turn after) {emitter : EmitterIdType}
    (throws : Throws emitter before turn) : emitter ∉ after.present := by
  have balance := count_present_step step emitter
  have once := tracked.atMostOnce emitter
  rw [if_pos throws, if_neg (tracked.not_adds_of_throws throws)] at balance
  exact List.count_eq_zero.mp (by omega)

theorem Tracked.added_step (tracked : Tracked taken before)
    (step : emitterProgram.Step before turn after) {emitter : EmitterIdType}
    (member : emitter ∈ after.present) :
    Happened (Adds emitter) (taken ++ [(before, turn)]) ∧
      ¬ Happened (Throws emitter) (taken ++ [(before, turn)]) := by
  rw [happened_snoc, happened_snoc, not_or]
  have notNow : ¬ Throws emitter before turn := fun throws =>
    tracked.not_mem_of_throws step throws member
  by_cases adds : Adds emitter before turn
  · exact ⟨.inr adds, (tracked.fresh adds).2.1, notNow⟩
  · have balance := count_present_step step emitter
    have isPresent := List.count_pos_iff.mpr member
    rw [if_neg adds] at balance
    have wasPresent : emitter ∈ before.present := List.count_pos_iff.mp (by omega)
    obtain ⟨added, notThrown⟩ := tracked.added emitter wasPresent
    exact ⟨.inl added, notThrown, notNow⟩

theorem tracked_step (tracked : Tracked taken before)
    (step : emitterProgram.Step before turn after) : Tracked (taken ++ [(before, turn)]) after where
  atMostOnce := tracked.count_le step
  added _ member := tracked.added_step step member
  threw emitter happened := by
    rw [happened_snoc] at happened ⊢
    cases happened with
    | inl earlier => exact .inl (tracked.threw emitter earlier)
    | inr now => exact .inl (tracked.added emitter now.mem_present).1
  made emitter happened := by
    have grows := made_le_of_step step
    cases happened_snoc.mp happened with
    | inl earlier => exact Nat.lt_of_lt_of_le (tracked.made emitter earlier) grows
    | inr now =>
      obtain ⟨index, ending, call, -, found, adding⟩ := now.found
      exact Nat.lt_of_lt_of_le (tracked.pending index call emitter found adding).1 grows
  pending index call emitter found adding := by
    have grows := made_le_of_step step
    rw [happened_snoc, not_or]
    cases adding_of_step step found adding with
    | inl old =>
      obtain ⟨foundOld, notItsTurn⟩ := old
      obtain ⟨isMade, notAdded⟩ := tracked.pending index call emitter foundOld adding
      refine ⟨Nat.lt_of_lt_of_le isMade grows, notAdded, fun adds => ?_⟩
      obtain ⟨place, ending, call', isTurn, found', adding'⟩ := adds.found
      -- two calls that add one emitter are the same call
      have same := tracked.single _ _ _ _ _ foundOld found' adding adding'
      exact notItsTurn ending (same ▸ isTurn)
    | inr new =>
      obtain ⟨-, rfl, isNew⟩ := new
      refine ⟨by rw [isNew]; exact Nat.lt_succ_self _, fun added => ?_, fun adds => ?_⟩
      · exact Nat.lt_irrefl _ (tracked.made _ added)
      · obtain ⟨place, ending, call', -, found', adding'⟩ := adds.found
        exact Nat.lt_irrefl _ (tracked.pending place call' _ found' adding').1
  single index other call call' emitter found found' adding adding' := by
    cases adding_of_step step found adding with
    | inl old =>
      cases adding_of_step step found' adding' with
      | inl old' => exact tracked.single _ _ _ _ _ old.1 old'.1 adding adding'
      | inr new' =>
        have isMade := (tracked.pending index call emitter old.1 adding).1
        exact (Nat.lt_irrefl _ (new'.2.1 ▸ isMade)).elim
    | inr new =>
      cases adding_of_step step found' adding' with
      | inl old' =>
        have isMade := (tracked.pending other call' emitter old'.1 adding').1
        exact (Nat.lt_irrefl _ (new.2.1 ▸ isMade)).elim
      | inr new' => rw [new.1, new'.1]

theorem tracked_of_run {final : EmitterPool} (run : Run emitterProgram.Step init taken final) :
    Tracked taken final :=
  run.invariant (fun _ _ => True) Tracked tracked_init
    (fun _ _ _ _ tracked _ step => tracked_step tracked step) fun _ _ => trivial

theorem conserved_init : Conserved [] init where
  once emitter happened := (not_happened_nil happened).elim
  gone emitter happened := (not_happened_nil happened).elim
  silent earlier middle turn later split := by simp at split

/-- All but the loss of emitters is excluded in every run. -/
theorem conserved_iff_once {final : EmitterPool} (run : Run emitterProgram.Step init taken final) :
    Conserved taken final ↔ ∀ emitter, Happened (Adds emitter) taken →
      ¬ Happened (Throws emitter) taken → final.present.count emitter = 1 := by
  constructor
  · exact Conserved.once
  · refine fun once => ⟨once, fun emitter threw member => ?_, ?_⟩
    · exact ((tracked_of_run run).added emitter member).2 threw
    · intro earlier middle turn later split emitter threw enters
      have tracked := tracked_of_run (run.upTo split)
      exact (tracked.added emitter enters.mem_present).2 threw

theorem conserved_step_iff (run : Run emitterProgram.Step init taken before)
    (conserved : Conserved taken before) (step : emitterProgram.Step before turn after) :
    Conserved (taken ++ [(before, turn)]) after ↔ AbandonsNone before turn := by
  have tracked := tracked_of_run run
  rw [conserved_iff_once (run.snoc step), abandonsNone_iff]
  constructor
  · intro once
    refine List.eq_nil_iff_forall_not_mem.mpr fun emitter abandoned => ?_
    have balance := count_present_step step emitter
    have isLost := List.count_pos_iff.mpr abandoned
    have atMostOnce := tracked.atMostOnce emitter
    -- whoever is abandoned was added, has not thrown, and is not present any more
    by_cases adds : Adds emitter before turn
    · obtain ⟨-, notThrown, absent⟩ := tracked.fresh adds
      have notThrowing : ¬ Throws emitter before turn := fun throws => absent throws.mem_present
      rw [if_pos adds, if_neg notThrowing, List.count_eq_zero.mpr absent] at balance
      have present := once emitter (happened_snoc.mpr (.inr adds))
        fun threw => (happened_snoc.mp threw).elim notThrown notThrowing
      omega
    · rw [if_neg adds] at balance
      have wasPresent : emitter ∈ before.present := List.count_pos_iff.mp (by omega)
      obtain ⟨added, notThrown⟩ := tracked.added emitter wasPresent
      have notThrowing : ¬ Throws emitter before turn := by
        intro throws
        rw [if_pos throws] at balance
        omega
      have present := once emitter (happened_snoc.mpr (.inl added))
        fun threw => (happened_snoc.mp threw).elim notThrown notThrowing
      rw [if_neg notThrowing] at balance
      omega
  · intro noneAbandoned emitter added notThrown
    rw [happened_snoc, not_or] at notThrown
    have balance := count_present_step step emitter
    rw [noneAbandoned, List.count_nil, if_neg notThrown.2] at balance
    by_cases adds : Adds emitter before turn
    · rw [if_pos adds, List.count_eq_zero.mpr (tracked.fresh adds).2.2] at balance
      omega
    · have addedBefore := (happened_snoc.mp added).resolve_right adds
      rw [if_neg adds, conserved.once emitter addedBefore notThrown.1] at balance
      omega

/-- When no call is under way, the emitters that are present are those of the list. -/
theorem present_of_finished {pool : EmitterPool}
    (finished : ∀ call ∈ pool.calls, EmitterCall.finished call = true) :
    pool.present = pool.shared.emitterList := by
  have nothing : pool.calls.flatMap EmitterCall.inHand = [] := by
    refine List.flatMap_eq_nil_iff.mpr fun call member => ?_
    have isFinished := finished call member
    cases call with
    | addEmitter emitter stage => rfl
    | emitAll stage => cases stage <;> first | rfl | simp [EmitterCall.finished] at isFinished
  rw [present, nothing, List.append_nil]

theorem exists_run (turns : List EmitterTurn)
    (property : List (EmitterPool × EmitterTurn) → EmitterPool → Prop)
    [∀ taken final, Decidable (property taken final)]
    (reached : (Run.replay emitterProgram.execute turns [] init).any
      (fun reached => decide (property reached.1 reached.2)) = true) :
    ∃ taken final, Run emitterProgram.Step init taken final ∧ property taken final :=
  Run.exists_of_replay (fun _ _ _ executed => executed) turns property reached

end EmitterPool

open EmitterPool

/-- In a run of `AddEmitter` and `EmitAll` calls, the emitters are conserved throughout just when no
    exception makes an `EmitAll` leave with other emitters in hand.  They are all in the list when the
    calls have finished. -/
theorem emitters_conserved_iff {taken : List (EmitterPool × EmitterTurn)} {final : EmitterPool}
    (run : Run emitterProgram.Step init taken final) :
    (Throughout Conserved taken final ↔ ∀ entry ∈ taken, AbandonsNone entry.1 entry.2) ∧
    ((∀ entry ∈ taken, AbandonsNone entry.1 entry.2) →
      (∀ call ∈ final.calls, EmitterCall.finished call = true) →
      ∀ emitter, Happened (Adds emitter) taken → ¬ Happened (Throws emitter) taken →
        final.shared.emitterList.count emitter = 1) := by
  have exact : Throughout Conserved taken final ↔ ∀ entry ∈ taken, AbandonsNone entry.1 entry.2 :=
    run.throughout_iff AbandonsNone Conserved conserved_init
      fun _ _ _ _ earlierRun conserved step => conserved_step_iff earlierRun conserved step
  refine ⟨exact, fun guarded finished emitter added notThrown => ?_⟩
  rw [← present_of_finished finished]
  exact (exact.mpr guarded).1.once emitter added notThrown

instance (emitter : EmitterIdType) (taken : List (EmitterPool × EmitterTurn)) :
    Decidable (Happened (Adds emitter) taken) :=
  inferInstanceAs (Decidable (∃ entry ∈ taken, Adds emitter entry.1 entry.2))

instance (emitter : EmitterIdType) (taken : List (EmitterPool × EmitterTurn)) :
    Decidable (Happened (Throws emitter) taken) :=
  inferInstanceAs (Decidable (∃ entry ∈ taken, Throws emitter entry.1 entry.2))

/-- Two emitters are added; the second one throws and its message is printed. -/
theorem emitters_conserved_iff_one_throws : ∃ taken, ∃ final : EmitterPool,
    Run emitterProgram.Step init taken final ∧ Happened (Throws 1) taken ∧
      final.shared.emitterList = [0] ∧ Throughout Conserved taken final := by
  obtain ⟨taken, final, run, guarded, threw, isList⟩ := exists_run
    ([.event .addEmitter, .event .addEmitter, .call 0 .returns, .call 1 .returns, .event .emitAll] ++
      [.call 2 .returns, .call 2 .returns, .call 2 .returns, .call 2 .returns,
        .call 2 .throwsStdException, .call 2 .returns, .call 2 .returns])
    (fun taken final => (∀ entry ∈ taken, entry.1.abandonedBy entry.2 = []) ∧
      Happened (Throws 1) taken ∧ final.shared.emitterList = [0]) (by decide +kernel)
  have safe : ∀ entry ∈ taken, AbandonsNone entry.1 entry.2 := fun entry member =>
    abandonsNone_iff.mpr (guarded entry member)
  exact ⟨taken, final, run, threw, isList, (emitters_conserved_iff run).1.mpr safe⟩

/-- The same, but the host fails to print the message: all calls finish and the first emitter, which has
    not failed, is lost. -/
theorem emitter_lost_when_print_fails : ∃ taken, ∃ final : EmitterPool,
    Run emitterProgram.Step init taken final ∧
      (∀ call ∈ final.calls, EmitterCall.finished call = true) ∧
      Happened (Adds 0) taken ∧ ¬ Happened (Throws 0) taken ∧
      final.shared.emitterList.count 0 = 0 := by
  obtain ⟨taken, final, run, finished, added, notThrown, lost⟩ := exists_run
    ([.event .addEmitter, .event .addEmitter, .call 0 .returns, .call 1 .returns, .event .emitAll] ++
      [.call 2 .returns, .call 2 .returns, .call 2 .returns, .call 2 .returns,
        .call 2 .throwsStdException, .call 2 .throwsStdException])
    (fun taken final => (∀ call ∈ final.calls, EmitterCall.finished call = true) ∧
      Happened (Adds 0) taken ∧ ¬ Happened (Throws 0) taken ∧
      final.shared.emitterList.count 0 = 0) (by decide +kernel)
  exact ⟨taken, final, run, finished, added, notThrown, lost⟩

end Decentagram.DecentEnclave
