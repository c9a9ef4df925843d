import Decentagram.DecentEnclave.HeartbeatRecvMgr

/-! # No false damage

A check judges by the time it loads, after it read the clock.  Where that time is neither older than a
registration or a heartbeat of the receiver nor later than the clock the check read, damage means that the
timeout had passed.
-/

namespace Decentagram.DecentEnclave

open Decentagram.Lib

/-- The time from which the next step of a call lets a receiver's timeout run: that of its registration,
    or that of a heartbeat. -/
def Call.starts (clock : TimestampType) (id : ConstraintIdType) : Call → Option TimestampType
  | .addRecv constraint _ _ .addConstraint => if constraint = id then some clock else none
  | .addRecv constraint _ _ (.initTime currTime) => if constraint = id then some currTime else none
  | .wrappedRecv constraint _ (.onHeartbeatRecv currTime) =>
    if constraint = id then some currTime else none
  | _ => none

namespace RecvPool

def startsAt (id : ConstraintIdType) : RecvPool × RecvTurn → Option TimestampType
  | (pool, .call index _) => pool.calls[index]?.bind (Call.starts pool.shared.clock id)
  | (_, .event _) => none

/-- The times of a receiver's registrations and heartbeats so far. -/
def startTimes (taken : List (RecvPool × RecvTurn)) (id : ConstraintIdType) : List TimestampType :=
  taken.filterMap (startsAt id)

/-- The receiver is registered, and more than its timeout has passed since each registration and each
    heartbeat. -/
def Overdue (taken : List (RecvPool × RecvTurn)) (pool : RecvPool) (id : ConstraintIdType) : Prop :=
  startTimes taken id ≠ [] ∧ ∃ constraint, pool.shared.constraints[id]? = some constraint ∧
    ∀ start ∈ startTimes taken id, start.toNat + constraint.timeout.toNat < pool.shared.clock.toNat

def WasOverdue (taken : List (RecvPool × RecvTurn)) (id : ConstraintIdType) : Prop :=
  ∃ earlier pool turn later, taken = earlier ++ (pool, turn) :: later ∧ Overdue earlier pool id

/-- A receiver that is damaged was overdue, and the manager is damaged for the sake of one that was. -/
structure NoFalseDamage (taken : List (RecvPool × RecvTurn)) (final : RecvPool) : Prop where
  constraint : ∀ id constraint, final.shared.constraints[id]? = some constraint →
    constraint.isDamaged = true → WasOverdue taken id
  status : final.shared.status = .damaged → ∃ id, WasOverdue taken id
  returned : Call.getStatus (.returned .damaged) ∈ final.calls → ∃ id, WasOverdue taken id

end RecvPool

/-- The check whose next step loads a last update: its clock reading and its receiver. -/
def Call.loading : Call → Option (TimestampType × ConstraintIdType)
  | .getStatus (.check currTimestamp _ .loadLastUpdate constraint _) => some (currTimestamp, constraint)
  | .wrappedRecv constraint _ (.check currTimestamp .loadLastUpdate) => some (currTimestamp, constraint)
  | _ => none

namespace RecvPool

/-- A check that loads a last update finds one that is not older than a registration or a heartbeat of
    the receiver and not later than its own clock reading. -/
def loadsCurrent (taken : List (RecvPool × RecvTurn)) (pool : RecvPool) : RecvTurn → Bool
  | .call index _ => (pool.calls[index]?.bind Call.loading).all fun loading =>
    pool.shared.constraints[loading.2]?.all fun constraint =>
      (startTimes taken loading.2).all (· ≤ constraint.lastUpdate) && constraint.lastUpdate ≤ loading.1
  | .event _ => true

end RecvPool

/-! ## What a call knows -/

open RecvPool

variable {taken : List (RecvPool × RecvTurn)}

/-- A check of a receiver that started with a clock reading. -/
structure CheckSound (taken : List (RecvPool × RecvTurn)) (clock currTime : TimestampType)
    (id : ConstraintIdType) (stage : CheckStage) : Prop where
  registered : startTimes taken id ≠ []
  reading : currTime ≤ clock
  found : stage = .storeIsDamaged → WasOverdue taken id

def GetStatusSound (taken : List (RecvPool × RecvTurn)) (clock : TimestampType) :
    GetStatusStage → Prop
  | .readClock constraintList => ∀ id ∈ constraintList, startTimes taken id ≠ []
  | .check currTimestamp cleanStatus stage constraint rest =>
    CheckSound taken clock currTimestamp constraint stage ∧ cleanStatus ≠ .damaged ∧
      ∀ id ∈ rest, startTimes taken id ≠ []
  | .storeDamaged => ∃ id, WasOverdue taken id
  | .storeClean cleanStatus => cleanStatus ≠ .damaged
  | .returned status => status = .damaged → ∃ id, WasOverdue taken id
  | _ => True

def WrappedRecvSound (taken : List (RecvPool × RecvTurn)) (clock : TimestampType)
    (constraint : ConstraintIdType) : WrappedRecvStage → Prop
  | .check currTimestamp stage => CheckSound taken clock currTimestamp constraint stage
  | _ => True

def Call.Sound (taken : List (RecvPool × RecvTurn)) (mgr : HeartbeatRecvMgr) : Call → Prop
  | .getStatus stage => GetStatusSound taken mgr.clock stage
  | .addRecv constraint _ _ stage => stage ≠ .addConstraint → startTimes taken constraint ≠ []
  | .removeRecv _ _ _ => True
  | .wrappedRecv constraint _ stage =>
    startTimes taken constraint ≠ [] ∧ WrappedRecvSound taken mgr.clock constraint stage

namespace HeartbeatRecvMgr

structure Sound (taken : List (RecvPool × RecvTurn)) (mgr : HeartbeatRecvMgr) : Prop where
  registered : ∀ id ∈ mgr.constraintMap, startTimes taken id ≠ []
  waiting : ∀ pair ∈ mgr.waiting, startTimes taken pair.1 ≠ []
  constraint : ∀ id constraint, mgr.constraints[id]? = some constraint →
    constraint.isDamaged = true → WasOverdue taken id
  status : mgr.status = .damaged → ∃ id, WasOverdue taken id

end HeartbeatRecvMgr

/-! ### More steps taken, more time passed -/

theorem startTimes_grow {entry : RecvPool × RecvTurn} {id : ConstraintIdType}
    (registered : startTimes taken id ≠ []) : startTimes (taken ++ [entry]) id ≠ [] := by
  simp only [startTimes, List.filterMap_append, ne_eq, List.append_eq_nil_iff, not_and]
  intro none
  exact absurd none registered

theorem startTimes_of_startsAt {entry : RecvPool × RecvTurn} {id : ConstraintIdType}
    {start : TimestampType} (starts : startsAt id entry = some start) :
    startTimes (taken ++ [entry]) id ≠ [] := by
  simp [startTimes, starts]

theorem wasOverdue_grow {entry : RecvPool × RecvTurn} {id : ConstraintIdType}
    (overdue : WasOverdue taken id) : WasOverdue (taken ++ [entry]) id := by
  obtain ⟨earlier, pool, turn, later, rfl, overdue⟩ := overdue
  exact ⟨earlier, pool, turn, later ++ [entry], by simp, overdue⟩

theorem wasOverdue_of_overdue {pool : RecvPool} {turn : RecvTurn} {id : ConstraintIdType}
    (overdue : Overdue taken pool id) : WasOverdue (taken ++ [(pool, turn)]) id :=
  ⟨taken, pool, turn, [], rfl, overdue⟩

theorem checkSound_grow {entry : RecvPool × RecvTurn} {clock clock' currTime : TimestampType}
    {id : ConstraintIdType} {stage : CheckStage} (sound : CheckSound taken clock currTime id stage)
    (passed : clock ≤ clock') : CheckSound (taken ++ [entry]) clock' currTime id stage where
  registered := startTimes_grow sound.registered
  reading := UInt64.le_trans sound.reading passed
  found := fun isStore => wasOverdue_grow (sound.found isStore)

theorem callSound_grow {entry : RecvPool × RecvTurn} {mgr mgr' : HeartbeatRecvMgr} {call : Call}
    (sound : call.Sound taken mgr) (passed : mgr.clock ≤ mgr'.clock) :
    call.Sound (taken ++ [entry]) mgr' := by
  cases call with
  | getStatus stage =>
    cases stage with
    | readClock constraintList => exact fun id member => startTimes_grow (sound id member)
    | check currTimestamp cleanStatus stage constraint rest =>
      obtain ⟨checkSound, notDamaged, registered⟩ := sound
      exact ⟨checkSound_grow checkSound passed, notDamaged,
        fun id member => startTimes_grow (registered id member)⟩
    | storeDamaged =>
      obtain ⟨id, overdue⟩ := sound
      exact ⟨id, wasOverdue_grow overdue⟩
    | returned status =>
      intro isDamaged
      obtain ⟨id, overdue⟩ := sound isDamaged
      exact ⟨id, wasOverdue_grow overdue⟩
    | storeClean cleanStatus => exact sound
    | loadStatus => trivial
    | retrieveList => trivial
    | loadClean => trivial
  | addRecv constraint socket initConstraint stage =>
    exact fun started => startTimes_grow (sound started)
  | removeRecv constraint socket stage => trivial
  | wrappedRecv constraint socket stage =>
    refine ⟨startTimes_grow sound.1, ?_⟩
    cases stage with
    | check currTimestamp stage => exact checkSound_grow sound.2 passed
    | _ => trivial

/-- What the shared state has to back is backed by more steps as well. -/
theorem sound_grow {entry : RecvPool × RecvTurn} {mgr : HeartbeatRecvMgr} (sound : mgr.Sound taken) :
    mgr.Sound (taken ++ [entry]) where
  registered := fun id member => startTimes_grow (sound.registered id member)
  waiting := fun pair member => startTimes_grow (sound.waiting pair member)
  constraint := fun id constraint found isDamaged =>
    wasOverdue_grow (sound.constraint id constraint found isDamaged)
  status := fun isDamaged => (sound.status isDamaged).imp fun _ => wasOverdue_grow

theorem setConstraint_sound {mgr : HeartbeatRecvMgr} {id : ConstraintIdType}
    {constraint : HeartbeatTimeConstraint} (sound : mgr.Sound taken)
    (found : constraint.isDamaged = true → WasOverdue taken id) :
    (mgr.setConstraint id constraint).Sound taken where
  registered := sound.registered
  waiting := sound.waiting
  constraint := by
    intro other constraint' foundAt isDamaged
    simp only [HeartbeatRecvMgr.setConstraint, List.getElem?_set] at foundAt
    split at foundAt
    · rename_i same
      subst same
      split at foundAt
      · cases foundAt
        exact found isDamaged
      · cases foundAt
    · exact sound.constraint other constraint' foundAt isDamaged
  status := sound.status

/-! ### The steps of a call -/

variable {pool : RecvPool} {turn : RecvTurn} {mgr' : HeartbeatRecvMgr} {id : ConstraintIdType}

/-- A check that finds more than the timeout elapsed, by a current time, finds the receiver overdue. -/
theorem overdue_of_elapsed {constraint : HeartbeatTimeConstraint} {currTime : TimestampType}
    (checkSound : CheckSound taken pool.shared.clock currTime id .loadLastUpdate)
    (found : pool.shared.constraints[id]? = some constraint)
    (current : ∀ start ∈ startTimes taken id, start ≤ constraint.lastUpdate)
    (notLater : constraint.lastUpdate ≤ currTime)
    (elapsed : currTime - constraint.lastUpdate > constraint.timeout) : Overdue taken pool id := by
  refine ⟨checkSound.registered, constraint, found, ?_⟩
  intro start member
  have startBefore := UInt64.le_iff_toNat_le.mp (current start member)
  have reading := UInt64.le_iff_toNat_le.mp checkSound.reading
  have noWrap : (currTime - constraint.lastUpdate).toNat = currTime.toNat - constraint.lastUpdate.toNat :=
    UInt64.toNat_sub_of_le _ _ notLater
  have passed := UInt64.lt_iff_toNat_lt.mp elapsed
  omega

theorem checkStep_clock {currTime : TimestampType} {stage : CheckStage}
    {result : CheckStage ⊕ HeartbeatStatus} {mgr : HeartbeatRecvMgr}
    (checks : mgr.checkStep id currTime stage = some (mgr', result)) : mgr'.clock = mgr.clock := by
  obtain ⟨constraint, -, equal⟩ := Option.map_eq_some_iff.mp checks
  cases equal
  rfl

theorem checkStep_sound {currTime : TimestampType} {stage : CheckStage}
    {result : CheckStage ⊕ HeartbeatStatus}
    (checks : pool.shared.checkStep id currTime stage = some (mgr', result))
    (sound : pool.shared.Sound taken) (checkSound : CheckSound taken pool.shared.clock currTime id stage)
    (loads : stage = .loadLastUpdate → ∀ constraint, pool.shared.constraints[id]? = some constraint →
      (∀ start ∈ startTimes taken id, start ≤ constraint.lastUpdate) ∧ constraint.lastUpdate ≤ currTime) :
    mgr'.Sound (taken ++ [(pool, turn)]) ∧
      (∀ stage', result = .inl stage' →
        CheckSound (taken ++ [(pool, turn)]) mgr'.clock currTime id stage') ∧
      (result = .inr .damaged → WasOverdue (taken ++ [(pool, turn)]) id) := by
  obtain ⟨constraint, found, equal⟩ := Option.map_eq_some_iff.mp checks
  cases equal
  have registered : startTimes (taken ++ [(pool, turn)]) id ≠ [] :=
    startTimes_grow checkSound.registered
  have damagedBefore : constraint.isDamaged = true → WasOverdue (taken ++ [(pool, turn)]) id :=
    fun isDamaged => wasOverdue_grow (sound.constraint id constraint found isDamaged)
  cases stage with
  | loadIsDamaged =>
    -- what was damaged before is found damaged
    refine ⟨setConstraint_sound (sound_grow sound) damagedBefore, ?_, ?_⟩
    · intro stage' next
      simp only [HeartbeatTimeConstraint.checkStep] at next
      split at next
      · cases next
      · cases next
        exact ⟨registered, checkSound.reading, by simp⟩
    · intro returns
      simp only [HeartbeatTimeConstraint.checkStep] at returns
      split at returns
      · rename_i isDamaged
        exact damagedBefore isDamaged
      · cases returns
  | loadLastUpdate =>
    obtain ⟨current, notLater⟩ := loads rfl constraint found
    simp only [HeartbeatTimeConstraint.checkStep]
    split
    · -- the timeout has run out by what was loaded, which is what the receiver is overdue by
      rename_i elapsed
      have overdue : WasOverdue (taken ++ [(pool, turn)]) id := wasOverdue_of_overdue
        (overdue_of_elapsed checkSound found current notLater elapsed)
      split
      · refine ⟨setConstraint_sound (sound_grow sound) damagedBefore, ?_, by simp⟩
        intro stage' next
        cases next
        exact ⟨registered, checkSound.reading, fun _ => overdue⟩
      · exact ⟨setConstraint_sound (sound_grow sound) damagedBefore, by simp, fun _ => overdue⟩
    · exact ⟨setConstraint_sound (sound_grow sound) damagedBefore, by simp, by simp⟩
  | storeIsDamaged =>
    -- the reason was found with the load, and time only makes it later
    have overdue : WasOverdue (taken ++ [(pool, turn)]) id := wasOverdue_grow (checkSound.found rfl)
    exact ⟨setConstraint_sound (sound_grow sound) fun _ => overdue,
      by simp [HeartbeatTimeConstraint.checkStep], fun _ => overdue⟩

/-- The condition on what a call is about to load. -/
def Call.LoadsCurrent (taken : List (RecvPool × RecvTurn)) (mgr : HeartbeatRecvMgr) (call : Call) :
    Prop :=
  ∀ currTime id constraint, call.loading = some (currTime, id) → mgr.constraints[id]? = some constraint →
    (∀ start ∈ startTimes taken id, start ≤ constraint.lastUpdate) ∧ constraint.lastUpdate ≤ currTime

theorem nextRound_sound {clock currTimestamp : TimestampType} {cleanStatus : HeartbeatStatus}
    {list : List ConstraintIdType} (reading : currTimestamp ≤ clock) (notDamaged : cleanStatus ≠ .damaged)
    (registered : ∀ id ∈ list, startTimes taken id ≠ []) :
    GetStatusSound taken clock (HeartbeatRecvMgr.nextRound currTimestamp cleanStatus list) := by
  cases list with
  | nil => exact notDamaged
  | cons constraint rest =>
    refine ⟨⟨registered constraint (by simp), reading, by simp⟩, notDamaged, ?_⟩
    intro id member
    exact registered id (by simp [member])

theorem getStatus_sound {order : List ConstraintIdType} {stage stage' : GetStatusStage}
    (steps : pool.shared.getStatus order stage = some (mgr', stage')) (sound : pool.shared.Sound taken)
    (stageSound : GetStatusSound taken pool.shared.clock stage)
    (loads : (Call.getStatus stage).LoadsCurrent taken pool.shared) :
    mgr'.Sound (taken ++ [(pool, turn)]) ∧
      GetStatusSound (taken ++ [(pool, turn)]) mgr'.clock stage' := by
  have grown : pool.shared.Sound (taken ++ [(pool, turn)]) := sound_grow sound
  cases stage with
  | loadStatus =>
    cases steps
    refine ⟨grown, ?_⟩
    split
    · rename_i isDamaged
      exact fun _ => grown.status isDamaged
    · trivial
  | retrieveList =>
    simp only [HeartbeatRecvMgr.getStatus, Option.ite_none_right_eq_some, Option.some.injEq,
      Prod.mk.injEq] at steps
    obtain ⟨isPerm, rfl, rfl⟩ := steps
    refine ⟨grown, ?_⟩
    intro id member
    exact grown.registered id ((List.isPerm_iff.mp isPerm).mem_iff.mp member)
  | readClock constraintList =>
    cases steps
    exact ⟨grown, nextRound_sound (UInt64.le_refl _) (by simp) fun id member =>
      startTimes_grow (stageSound id member)⟩
  | check currTimestamp cleanStatus stage constraint rest =>
    obtain ⟨⟨mgr'', result⟩, checks, equal⟩ := Option.map_eq_some_iff.mp steps
    cases equal
    obtain ⟨checkSound, notDamaged, registered⟩ := stageSound
    -- the condition on this step is about the stored time of the constraint that is checked
    have loadsCurrent : stage = .loadLastUpdate → ∀ object,
        pool.shared.constraints[constraint]? = some object →
        (∀ start ∈ startTimes taken constraint, start ≤ object.lastUpdate) ∧
          object.lastUpdate ≤ currTimestamp := by
      intro isLoad object found
      subst isLoad
      exact loads currTimestamp constraint object rfl found
    obtain ⟨checked, goesOn, finds⟩ := checkStep_sound checks sound checkSound loadsCurrent
    have sameClock : mgr'.clock = pool.shared.clock := checkStep_clock checks
    have restRegistered : ∀ id ∈ rest, startTimes (taken ++ [(pool, turn)]) id ≠ [] :=
      fun id member => startTimes_grow (registered id member)
    refine ⟨checked, ?_⟩
    cases result with
    | inl stage' => exact ⟨goesOn stage' rfl, notDamaged, restRegistered⟩
    | inr status =>
      have reading : currTimestamp ≤ mgr'.clock := sameClock ▸ checkSound.reading
      cases status with
      | normal => exact nextRound_sound reading notDamaged restRegistered
      | suspended => exact nextRound_sound reading (by simp) restRegistered
      | damaged => exact ⟨constraint, finds rfl⟩
  | storeDamaged =>
    -- a constraint was found overdue, and it stays so
    cases steps
    obtain ⟨id, overdue⟩ := stageSound
    have overdue' : ∃ id, WasOverdue (taken ++ [(pool, turn)]) id := ⟨id, wasOverdue_grow overdue⟩
    exact ⟨{ grown with status := fun _ => overdue' }, fun _ => overdue'⟩
  | storeClean cleanStatus =>
    -- a clean status needs no reason
    cases steps
    exact ⟨{ grown with status := fun isDamaged => absurd isDamaged stageSound }, trivial⟩
  | loadClean =>
    cases steps
    exact ⟨grown, grown.status⟩
  | returned status => cases steps

theorem addRecv_sound {constraint : ConstraintIdType} {socket : SocketIdType} {initConstraint : Bool}
    {stage stage' : AddRecvStage}
    (steps : pool.shared.addRecv constraint socket initConstraint stage = some (mgr', stage'))
    (sound : pool.shared.Sound taken)
    (registered : startTimes (taken ++ [(pool, turn)]) constraint ≠ []) :
    mgr'.Sound (taken ++ [(pool, turn)]) := by
  have grown : pool.shared.Sound (taken ++ [(pool, turn)]) := sound_grow sound
  cases stage with
  | addConstraint =>
    cases steps
    unfold HeartbeatRecvMgr.addConstraint
    split
    · exact grown
    · refine { grown with registered := ?_ }
      intro id member
      cases List.mem_cons.mp member with
      | inl new => exact new ▸ registered
      | inr old => exact grown.registered id old
  | addSocket =>
    simp only [HeartbeatRecvMgr.addRecv] at steps
    split at steps
    · cases steps
      exact grown
    · cases steps
      exact { grown with }
  | readClock =>
    cases steps
    exact grown
  | initTime currTime =>
    obtain ⟨object, found, equal⟩ := Option.map_eq_some_iff.mp steps
    cases equal
    exact setConstraint_sound grown (grown.constraint constraint object found)
  | startWaiting =>
    cases steps
    refine { grown with waiting := ?_ }
    intro pair member
    cases List.mem_cons.mp member with
    | inl new => exact new ▸ registered
    | inr old => exact grown.waiting pair old
  | returned => cases steps
  | threw => cases steps

theorem removeRecv_sound {constraint : ConstraintIdType} {socket : SocketIdType}
    {stage stage' : RemoveRecvStage}
    (steps : pool.shared.removeRecv constraint socket stage = some (mgr', stage'))
    (sound : pool.shared.Sound taken) : mgr'.Sound (taken ++ [(pool, turn)]) := by
  have grown : pool.shared.Sound (taken ++ [(pool, turn)]) := sound_grow sound
  cases stage with
  | removeConstraint =>
    cases steps
    refine { grown with registered := ?_ }
    intro id member
    exact grown.registered id (List.mem_of_mem_erase member)
  | removeSocket =>
    cases steps
    exact { grown with }
  | returned => cases steps

theorem wrappedRecv_sound {constraint : ConstraintIdType} {socket : SocketIdType}
    {stage stage' : WrappedRecvStage}
    (steps : pool.shared.wrappedRecv constraint socket stage = some (mgr', stage'))
    (sound : pool.shared.Sound taken) (registered : startTimes taken constraint ≠ [])
    (stageSound : WrappedRecvSound taken pool.shared.clock constraint stage)
    (loads : (Call.wrappedRecv constraint socket stage).LoadsCurrent taken pool.shared) :
    mgr'.Sound (taken ++ [(pool, turn)]) ∧
      WrappedRecvSound (taken ++ [(pool, turn)]) mgr'.clock constraint stage' := by
  have grown : pool.shared.Sound (taken ++ [(pool, turn)]) := sound_grow sound
  cases stage with
  | readClock =>
    cases steps
    exact ⟨grown, startTimes_grow registered, UInt64.le_refl _, by simp⟩
  | check currTimestamp stage =>
    obtain ⟨⟨mgr'', result⟩, checks, equal⟩ := Option.map_eq_some_iff.mp steps
    cases equal
    have loadsCurrent : stage = .loadLastUpdate → ∀ object,
        pool.shared.constraints[constraint]? = some object →
        (∀ start ∈ startTimes taken constraint, start ≤ object.lastUpdate) ∧
          object.lastUpdate ≤ currTimestamp := by
      intro isLoad object found
      subst isLoad
      exact loads currTimestamp constraint object rfl found
    obtain ⟨checked, goesOn, -⟩ := checkStep_sound checks sound stageSound loadsCurrent
    refine ⟨checked, ?_⟩
    cases result with
    | inl stage' => exact goesOn stage' rfl
    | inr status => cases status <;> trivial
  | readClockAgain =>
    cases steps
    exact ⟨grown, trivial⟩
  | onHeartbeatRecv currTime =>
    -- a time is stored, and nothing is damaged by it
    obtain ⟨object, found, equal⟩ := Option.map_eq_some_iff.mp steps
    cases equal
    exact ⟨setConstraint_sound grown (grown.constraint constraint object found), trivial⟩
  | startWaiting =>
    cases steps
    refine ⟨{ grown with waiting := ?_ }, trivial⟩
    intro pair member
    cases List.mem_cons.mp member with
    | inl new => exact new ▸ startTimes_grow registered
    | inr old => exact grown.waiting pair old
  | removeSocket =>
    cases steps
    exact ⟨{ grown with }, trivial⟩
  | returned => cases steps

/-- Only the environment moves the clock. -/
theorem next_clock {mgr mgr' : HeartbeatRecvMgr} {call call' : Call} {order : List ConstraintIdType}
    (steps : mgr.next call order = some (mgr', call')) : mgr'.clock = mgr.clock := by
  cases call with
  | getStatus stage =>
    cases stage <;>
      grind [HeartbeatRecvMgr.next, HeartbeatRecvMgr.getStatus, HeartbeatRecvMgr.checkStep,
        HeartbeatRecvMgr.setConstraint]
  | addRecv constraint socket initConstraint stage =>
    cases stage <;>
      grind [HeartbeatRecvMgr.next, HeartbeatRecvMgr.addRecv, HeartbeatRecvMgr.addConstraint,
        HeartbeatRecvMgr.setConstraint]
  | removeRecv constraint socket stage =>
    cases stage <;> grind [HeartbeatRecvMgr.next, HeartbeatRecvMgr.removeRecv]
  | wrappedRecv constraint socket stage =>
    cases stage <;>
      grind [HeartbeatRecvMgr.next, HeartbeatRecvMgr.wrappedRecv, HeartbeatRecvMgr.checkStep,
        HeartbeatRecvMgr.setConstraint]

theorem next_sound {call call' : Call} {order : List ConstraintIdType}
    (steps : pool.shared.next call order = some (mgr', call')) (sound : pool.shared.Sound taken)
    (callSound : call.Sound taken pool.shared) (loads : call.LoadsCurrent taken pool.shared)
    (registers : ∀ constraint socket initConstraint,
      call = .addRecv constraint socket initConstraint .addConstraint →
      startTimes (taken ++ [(pool, turn)]) constraint ≠ []) :
    mgr'.Sound (taken ++ [(pool, turn)]) ∧ call'.Sound (taken ++ [(pool, turn)]) mgr' := by
  cases call with
  | getStatus stage =>
    obtain ⟨⟨mgr'', stage'⟩, steps', equal⟩ := Option.map_eq_some_iff.mp steps
    cases equal
    exact getStatus_sound steps' sound callSound loads
  | addRecv constraint socket initConstraint stage =>
    obtain ⟨⟨mgr'', stage'⟩, steps', equal⟩ := Option.map_eq_some_iff.mp steps
    cases equal
    have registered : startTimes (taken ++ [(pool, turn)]) constraint ≠ [] := by
      by_cases isFirst : stage = .addConstraint
      · subst isFirst
        exact registers constraint socket initConstraint rfl
      · exact startTimes_grow (callSound isFirst)
    exact ⟨addRecv_sound steps' sound registered, fun _ => registered⟩
  | removeRecv constraint socket stage =>
    obtain ⟨⟨mgr'', stage'⟩, steps', equal⟩ := Option.map_eq_some_iff.mp steps
    cases equal
    exact ⟨removeRecv_sound steps' sound, trivial⟩
  | wrappedRecv constraint socket stage =>
    obtain ⟨⟨mgr'', stage'⟩, steps', equal⟩ := Option.map_eq_some_iff.mp steps
    cases equal
    obtain ⟨registered, stageSound⟩ := callSound
    obtain ⟨sound', stageSound'⟩ := wrappedRecv_sound steps' sound registered stageSound loads
    exact ⟨sound', startTimes_grow registered, stageSound'⟩

theorem event_sound {event : Event} {started : List Call}
    (happens : pool.shared.event event = some (mgr', started)) (sound : pool.shared.Sound taken)
    (turn : RecvTurn) : pool.shared.clock ≤ mgr'.clock ∧
      mgr'.Sound (taken ++ [(pool, turn)]) ∧
      ∀ call ∈ started, call.Sound (taken ++ [(pool, turn)]) mgr' := by
  have grown : pool.shared.Sound (taken ++ [(pool, turn)]) := sound_grow sound
  cases event with
  | tick now =>
    simp only [HeartbeatRecvMgr.event, Option.ite_none_right_eq_some, Option.some.injEq,
      Prod.mk.injEq] at happens
    obtain ⟨notBack, rfl, rfl⟩ := happens
    exact ⟨notBack, { grown with }, by simp⟩
  | make timeout timeoutStatus =>
    cases happens
    refine ⟨UInt64.le_refl _, { grown with constraint := ?_ }, by simp⟩
    intro id constraint found isDamaged
    -- the new one is not damaged, the others are as before
    rw [List.getElem?_append] at found
    split at found
    · exact grown.constraint id constraint found isDamaged
    · cases List.mem_singleton.mp (List.mem_of_getElem? found)
      cases isDamaged
  | getStatus =>
    cases happens
    exact ⟨UInt64.le_refl _, grown, by simp [Call.Sound, GetStatusSound]⟩
  | addRecv constraint socket initConstraint =>
    simp only [HeartbeatRecvMgr.event, Option.ite_none_right_eq_some, Option.some.injEq,
      Prod.mk.injEq] at happens
    obtain ⟨-, rfl, rfl⟩ := happens
    exact ⟨UInt64.le_refl _, grown, by simp [Call.Sound]⟩
  | removeRecv constraint socket =>
    cases happens
    exact ⟨UInt64.le_refl _, grown, by simp [Call.Sound]⟩
  | received constraint socket hasErrorOccurred =>
    simp only [HeartbeatRecvMgr.event, Option.ite_none_right_eq_some, Option.some.injEq,
      Prod.mk.injEq] at happens
    obtain ⟨isWaiting, rfl, rfl⟩ := happens
    have registered := grown.waiting (constraint, socket) isWaiting
    refine ⟨UInt64.le_refl _, ?_, ?_⟩
    · refine { grown with waiting := ?_ }
      intro pair member
      exact grown.waiting pair (List.mem_of_mem_erase member)
    · intro call member
      cases List.mem_singleton.mp member
      exact ⟨registered, by cases hasErrorOccurred <;> trivial⟩

namespace RecvPool

theorem step_sound {before after : RecvPool}
    (holds : before.Holds (HeartbeatRecvMgr.Sound taken) (fun mgr call => call.Sound taken mgr))
    (loads : loadsCurrent taken before turn = true) (step : recvProgram.Step before turn after) :
    after.Holds (HeartbeatRecvMgr.Sound (taken ++ [(before, turn)]))
      (fun mgr call => call.Sound (taken ++ [(before, turn)]) mgr) := by
  apply holds.step step
  · intro call _ callSound
    refine callSound_grow callSound ?_
    cases recvProgram.step_cases step with
    | inl steps =>
      obtain ⟨index, order, call, mgr, call', rfl, found, next, rfl⟩ := steps
      exact UInt64.le_of_eq (next_clock next).symm
    | inr happens =>
      obtain ⟨event, mgr, started, rfl, happened, rfl⟩ := happens
      exact (event_sound happened holds.shared (.event event)).1
  · intro index order call call' isTurn found callSound next
    subst isTurn
    refine next_sound next holds.shared callSound ?_ ?_
    · intro currTime id constraint isLoading foundAt
      simpa [loadsCurrent, found, isLoading, foundAt] using loads
    · intro constraint socket initConstraint isAddRecv
      subst isAddRecv
      have starts : startsAt constraint (before, .call index order) = some before.shared.clock := by
        simp [startsAt, found, Call.starts]
      exact startTimes_of_startsAt starts
  · intro event started isTurn happened
    subst isTurn
    exact (event_sound happened holds.shared (.event event)).2

/-- Every damage is that of a receiver that was overdue, in every run whose checks load current times. -/
theorem no_false_damage {final : RecvPool} (run : Run recvProgram.Step RecvPool.init taken final)
    (loads : ∀ earlier pool turn later, taken = earlier ++ (pool, turn) :: later →
      loadsCurrent earlier pool turn = true) : NoFalseDamage taken final := by
  have holds : final.Holds (HeartbeatRecvMgr.Sound taken) (fun mgr call => call.Sound taken mgr) := by
    refine run.invariant_of_history (fun taken pool turn => loadsCurrent taken pool turn = true)
      (fun taken pool => pool.Holds (HeartbeatRecvMgr.Sound taken) fun mgr call => call.Sound taken mgr)
      ?_ ?_ loads
    · refine ⟨⟨?_, ?_, ?_, ?_⟩, ?_⟩ <;> simp [RecvPool.init, HeartbeatRecvMgr.init]
    · intro taken before turn after holds current step
      exact step_sound holds current step
  exact {
    constraint := holds.shared.constraint
    status := holds.shared.status
    returned := fun member => holds.calls _ member rfl
  }

/-- The condition on every step, as a check of the whole record. -/
def allCurrent (taken : List (RecvPool × RecvTurn)) : Bool :=
  (List.range taken.length).all fun index =>
    taken[index]?.all fun entry => loadsCurrent (taken.take index) entry.1 entry.2

theorem current_of_allCurrent (checks : allCurrent taken = true) (earlier : List (RecvPool × RecvTurn))
    (pool : RecvPool) (turn : RecvTurn) (later : List (RecvPool × RecvTurn))
    (split : taken = earlier ++ (pool, turn) :: later) : loadsCurrent earlier pool turn = true := by
  subst split
  have atIndex := List.all_eq_true.mp checks earlier.length (by simp)
  simpa using atIndex

/-- A receiver with a timeout of 10 that is registered at time 0 and checked at time 50. -/
theorem no_false_damage_sample :
    ∃ taken final, Run recvProgram.Step RecvPool.init taken final ∧
      (∀ earlier pool turn later, taken = earlier ++ (pool, turn) :: later →
        loadsCurrent earlier pool turn = true) ∧
      final.shared.status = .damaged ∧ NoFalseDamage taken final := by
  have replays : (replay [.event (.make 10 .damaged), .event (.addRecv 0 100 true), .call 0 [],
      .call 0 [], .call 0 [], .call 0 [], .call 0 [], .event (.tick 50), .event .getStatus, .call 1 [],
      .call 1 [0], .call 1 [], .call 1 [], .call 1 [], .call 1 [], .call 1 []]).any
        (fun (taken, final) => allCurrent taken && decide (final.shared.status = .damaged)) = true := by
    decide +kernel
  obtain ⟨⟨taken, final⟩, replayed, checks⟩ := (Option.any_eq_true _ _).mp replays
  simp only [Bool.and_eq_true, decide_eq_true_eq] at checks
  have run := run_of_replay replayed
  have current := current_of_allCurrent checks.1
  exact ⟨taken, final, run, current, checks.2, no_false_damage run current⟩

/-- A receiver with a timeout of 1000 is registered at time 10.  A `GetStatus` reads the clock at 10, a
    heartbeat is received at 11, and the `GetStatus` goes on: 10 - 11 wraps around. -/
theorem false_damage :
    ∃ taken final, Run recvProgram.Step RecvPool.init taken final ∧ ¬ NoFalseDamage taken final := by
  have replays : (replay [.event (.tick 10), .event (.make 1000 .damaged), .event (.addRecv 0 100 true),
      .call 0 [], .call 0 [], .call 0 [], .call 0 [], .call 0 [], .event .getStatus, .call 1 [],
      .call 1 [0], .call 1 [], .call 1 [], .event (.tick 11), .event (.received 0 100 false), .call 2 [],
      .call 2 [], .call 2 [], .call 2 [], .call 2 [], .call 1 [], .call 1 []]).any
        (fun (taken, final) => final.shared.constraints[0]?.any (fun constraint => constraint.isDamaged) &&
          taken.all fun entry => decide (entry.1.shared.clock ≤ 11) &&
            entry.1.shared.constraints[0]?.all fun constraint => decide (constraint.timeout = 1000)) =
      true := by
    decide +kernel
  obtain ⟨⟨taken, final⟩, replayed, checks⟩ := (Option.any_eq_true _ _).mp replays
  obtain ⟨someDamaged, bounds⟩ := Bool.and_eq_true_iff.mp checks
  obtain ⟨constraint, found, isDamaged⟩ := (Option.any_eq_true _ _).mp someDamaged
  refine ⟨taken, final, run_of_replay replayed, ?_⟩
  intro noFalseDamage
  obtain ⟨earlier, pool, turn, later, split, registered, constraint', found', overdue⟩ :=
    noFalseDamage.constraint 0 constraint found isDamaged
  obtain ⟨start, member⟩ := List.exists_mem_of_ne_nil _ registered
  have atEntry := List.all_eq_true.mp bounds (pool, turn) (by simp [split])
  simp only [found', Option.all_some, Bool.and_eq_true, decide_eq_true_eq] at atEntry
  obtain ⟨clockBound, isTimeout⟩ := atEntry
  have passed := overdue start member
  have atMost : pool.shared.clock.toNat ≤ 11 := UInt64.le_iff_toNat_le.mp clockBound
  have timeoutNat : constraint'.timeout.toNat = 1000 := by rw [isTimeout]; rfl
  omega

end RecvPool

end Decentagram.DecentEnclave
