import Decentagram.DecentEnclave.HeartbeatRecvMgr

/-! # Damage is absorbing

A `GetStatus` that finds every constraint in order stores its own status last, whatever was stored since
it took the list.  As long as none does so after damage was stored, every later `GetStatus` returns
damage, also when the damaged constraint was removed.
-/

namespace Decentagram.DecentEnclave

open Decentagram.Lib

namespace RecvPool

/-- Some `GetStatus` has returned damage, or damage is stored. -/
def DamageSeen (pool : RecvPool) : Prop :=
  pool.shared.status = .damaged ∨ Call.getStatus (.returned .damaged) ∈ pool.calls

/-- Whenever damage was seen, each `GetStatus` called afterwards returns damage if it has returned. -/
def DamageAbsorbing (taken : List (RecvPool × RecvTurn)) (final : RecvPool) : Prop :=
  ∀ entry ∈ taken, DamageSeen entry.1 → ∀ index ≥ entry.1.calls.length, ∀ status,
    final.calls[index]? = some (.getStatus (.returned status)) → status = .damaged

/-- The turn stores a clean status although damage is stored. -/
def overwritesDamage (pool : RecvPool) : RecvTurn → Bool
  | .call index _ =>
    pool.shared.status = .damaged &&
      match pool.calls[index]? with
      | some (.getStatus (.storeClean _)) => true
      | _ => false
  | .event _ => false

end RecvPool

open RecvPool

theorem checkStep_status {mgr mgr' : HeartbeatRecvMgr} {id : ConstraintIdType}
    {currTime : TimestampType} {stage : CheckStage} {result : CheckStage ⊕ HeartbeatStatus}
    (checks : mgr.checkStep id currTime stage = some (mgr', result)) : mgr'.status = mgr.status := by
  obtain ⟨constraint, -, equal⟩ := Option.map_eq_some_iff.mp checks
  cases equal
  rfl

/-- Of the steps of a `GetStatus`, three set or return a status; the others leave it. -/
theorem getStatus_status {mgr mgr' : HeartbeatRecvMgr} {order : List ConstraintIdType}
    {stage stage' : GetStatusStage} (steps : mgr.getStatus order stage = some (mgr', stage')) :
    (mgr'.status = mgr.status ∨ mgr'.status = .damaged ∨ ∃ clean, stage = .storeClean clean) ∧
      (stage' = .returned .damaged → mgr'.status = .damaged) ∧
      (stage = .loadStatus → mgr.status = .damaged → stage' = .returned .damaged) := by
  cases stage with
  | loadStatus =>
    cases steps
    refine ⟨.inl rfl, ?_, ?_⟩
    · intro returns
      by_contra notDamaged
      simp [notDamaged] at returns
    · intro _ isDamaged
      simp [isDamaged]
  | retrieveList =>
    simp only [HeartbeatRecvMgr.getStatus, Option.ite_none_right_eq_some, Option.some.injEq,
      Prod.mk.injEq] at steps
    obtain ⟨-, rfl, rfl⟩ := steps
    exact ⟨.inl rfl, by simp, by simp⟩
  | readClock constraintList =>
    cases steps
    refine ⟨.inl rfl, ?_, by simp⟩
    cases constraintList <;> simp [HeartbeatRecvMgr.nextRound]
  | check currTimestamp cleanStatus stage constraint rest =>
    obtain ⟨⟨mgr'', result⟩, checks, equal⟩ := Option.map_eq_some_iff.mp steps
    cases equal
    refine ⟨.inl (checkStep_status checks), ?_, by simp⟩
    cases result with
    | inl stage => simp
    | inr status =>
      cases status <;> cases rest <;> simp [HeartbeatRecvMgr.afterCheck, HeartbeatRecvMgr.nextRound]
  | storeDamaged =>
    cases steps
    exact ⟨.inr (.inl rfl), fun _ => rfl, by simp⟩
  | storeClean cleanStatus =>
    cases steps
    exact ⟨.inr (.inr ⟨cleanStatus, rfl⟩), by simp, by simp⟩
  | loadClean =>
    cases steps
    refine ⟨.inl rfl, ?_, by simp⟩
    intro returns
    simpa using returns
  | returned status => cases steps

theorem addRecv_status {mgr mgr' : HeartbeatRecvMgr} {constraint : ConstraintIdType}
    {socket : SocketIdType} {initConstraint : Bool} {stage stage' : AddRecvStage}
    (steps : mgr.addRecv constraint socket initConstraint stage = some (mgr', stage')) :
    mgr'.status = mgr.status := by
  cases stage with
  | addConstraint =>
    cases steps
    unfold HeartbeatRecvMgr.addConstraint
    split <;> rfl
  | addSocket =>
    simp only [HeartbeatRecvMgr.addRecv] at steps
    split at steps <;> cases steps <;> rfl
  | initTime currTime =>
    obtain ⟨object, -, equal⟩ := Option.map_eq_some_iff.mp steps
    cases equal
    rfl
  | readClock => cases steps; rfl
  | startWaiting => cases steps; rfl
  | returned => cases steps
  | threw => cases steps

theorem wrappedRecv_status {mgr mgr' : HeartbeatRecvMgr} {constraint : ConstraintIdType}
    {socket : SocketIdType} {stage stage' : WrappedRecvStage}
    (steps : mgr.wrappedRecv constraint socket stage = some (mgr', stage')) :
    mgr'.status = mgr.status := by
  cases stage with
  | check currTimestamp stage =>
    obtain ⟨⟨mgr'', result⟩, checks, equal⟩ := Option.map_eq_some_iff.mp steps
    cases equal
    exact checkStep_status checks
  | onHeartbeatRecv currTime =>
    obtain ⟨object, -, equal⟩ := Option.map_eq_some_iff.mp steps
    cases equal
    rfl
  | readClock => cases steps; rfl
  | readClockAgain => cases steps; rfl
  | startWaiting => cases steps; rfl
  | removeSocket => cases steps; rfl
  | returned => cases steps

/-- The calls that are no `GetStatus` leave the status. -/
theorem next_status {mgr mgr' : HeartbeatRecvMgr} {call call' : Call} {order : List ConstraintIdType}
    (steps : mgr.next call order = some (mgr', call')) :
    (∃ stage stage', call = .getStatus stage ∧ call' = .getStatus stage' ∧
      mgr.getStatus order stage = some (mgr', stage')) ∨
    (mgr'.status = mgr.status ∧ ∀ stage, call ≠ .getStatus stage ∧ call' ≠ .getStatus stage) := by
  cases call with
  | getStatus stage =>
    obtain ⟨⟨mgr'', stage'⟩, steps', equal⟩ := Option.map_eq_some_iff.mp steps
    cases equal
    exact .inl ⟨stage, stage', rfl, rfl, steps'⟩
  | addRecv constraint socket initConstraint stage =>
    obtain ⟨⟨mgr'', stage'⟩, steps', equal⟩ := Option.map_eq_some_iff.mp steps
    cases equal
    exact .inr ⟨addRecv_status steps', by simp⟩
  | removeRecv constraint socket stage =>
    obtain ⟨⟨mgr'', stage'⟩, steps', equal⟩ := Option.map_eq_some_iff.mp steps
    cases equal
    refine .inr ⟨?_, by simp⟩
    cases stage <;> cases steps' <;> rfl
  | wrappedRecv constraint socket stage =>
    obtain ⟨⟨mgr'', stage'⟩, steps', equal⟩ := Option.map_eq_some_iff.mp steps
    cases equal
    exact .inr ⟨wrappedRecv_status steps', by simp⟩

theorem event_status {mgr mgr' : HeartbeatRecvMgr} {event : Event} {started : List Call}
    (happens : mgr.event event = some (mgr', started)) :
    mgr'.status = mgr.status ∧
      ∀ stage, Call.getStatus stage ∈ started → stage = .loadStatus := by
  cases event with
  | tick now =>
    simp only [HeartbeatRecvMgr.event, Option.ite_none_right_eq_some, Option.some.injEq,
      Prod.mk.injEq] at happens
    obtain ⟨-, rfl, rfl⟩ := happens
    exact ⟨rfl, by simp⟩
  | make timeout timeoutStatus =>
    cases happens
    exact ⟨rfl, by simp⟩
  | getStatus =>
    cases happens
    exact ⟨rfl, by simp⟩
  | addRecv constraint socket initConstraint =>
    simp only [HeartbeatRecvMgr.event, Option.ite_none_right_eq_some, Option.some.injEq,
      Prod.mk.injEq] at happens
    obtain ⟨-, rfl, rfl⟩ := happens
    exact ⟨rfl, by simp⟩
  | removeRecv constraint socket =>
    cases happens
    exact ⟨rfl, by simp⟩
  | received constraint socket hasErrorOccurred =>
    simp only [HeartbeatRecvMgr.event, Option.ite_none_right_eq_some, Option.some.injEq,
      Prod.mk.injEq] at happens
    obtain ⟨-, rfl, rfl⟩ := happens
    exact ⟨rfl, by simp⟩

namespace RecvPool

/-- A call that has returned damage is one that left damage stored. -/
def Stored (mgr : HeartbeatRecvMgr) (call : Call) : Prop :=
  call = .getStatus (.returned .damaged) → mgr.status = .damaged

/-- The status stays damaged where no turn overwrites it. -/
theorem status_stays {before after : RecvPool} {turn : RecvTurn}
    (step : recvProgram.Step before turn after) (kept : overwritesDamage before turn = false)
    (isDamaged : before.shared.status = .damaged) : after.shared.status = .damaged := by
  cases recvProgram.step_cases step with
  | inl steps =>
    obtain ⟨index, order, call, mgr, call', rfl, found, next, rfl⟩ := steps
    cases next_status next with
    | inl isGetStatus =>
      obtain ⟨stage, stage', rfl, rfl, steps'⟩ := isGetStatus
      obtain ⟨changes, -, -⟩ := getStatus_status steps'
      rcases changes with same | isDamaged' | ⟨clean, rfl⟩
      · exact same.trans isDamaged
      · exact isDamaged'
      · simp [overwritesDamage, found, isDamaged] at kept
    | inr other => exact other.1.trans isDamaged
  | inr happens =>
    obtain ⟨event, mgr, started, rfl, happened, rfl⟩ := happens
    exact (event_status happened).1.trans isDamaged

theorem step_stored {before after : RecvPool} {turn : RecvTurn}
    (holds : before.Holds (fun _ => True) Stored) (step : recvProgram.Step before turn after)
    (kept : overwritesDamage before turn = false) : after.Holds (fun _ => True) Stored := by
  apply holds.step step
  · -- nobody's step takes the stored damage away, so what a call returned stays backed by it
    intro call _ stored returns
    exact status_stays step kept (stored returns)
  · intro index order call call' _ _ _ next
    refine ⟨trivial, ?_⟩
    intro returns
    cases next_status next with
    | inl isGetStatus =>
      obtain ⟨stage, stage', rfl, rfl, steps⟩ := isGetStatus
      cases returns
      exact (getStatus_status steps).2.1 rfl
    | inr other => exact absurd returns (other.2 _).2
  · intro event started _ happened
    refine ⟨trivial, ?_⟩
    intro call member returns
    subst returns
    cases (event_status happened).2 _ member

/-- The calls from an index on find damage stored: each one has yet to look or has returned damage. -/
def Absorbed (first : Nat) (pool : RecvPool) : Prop :=
  pool.shared.status = .damaged ∧ ∀ index ≥ first, ∀ stage,
    pool.calls[index]? = some (.getStatus stage) → stage = .loadStatus ∨ stage = .returned .damaged

theorem step_absorbed {before after : RecvPool} {turn : RecvTurn} {first : Nat}
    (absorbed : Absorbed first before) (step : recvProgram.Step before turn after)
    (kept : overwritesDamage before turn = false) : Absorbed first after := by
  obtain ⟨isDamaged, later⟩ := absorbed
  refine ⟨status_stays step kept isDamaged, ?_⟩
  intro index isLater stage found
  cases recvProgram.step_cases step with
  | inl steps =>
    obtain ⟨stepped, order, call, mgr, call', rfl, foundBefore, next, rfl⟩ := steps
    by_cases same : stepped = index
    · -- the call that steps is at the load of the status, the only step it has left
      subst same
      have inRange : stepped < before.calls.length := (List.getElem?_eq_some_iff.mp foundBefore).1
      simp only [List.getElem?_set_self inRange, Option.some.injEq] at found
      subst found
      cases next_status next with
      | inl isGetStatus =>
        obtain ⟨stage', stage'', rfl, equal, steps⟩ := isGetStatus
        cases equal
        cases later _ isLater _ foundBefore with
        | inl isLoad => exact .inr ((getStatus_status steps).2.2 isLoad isDamaged)
        | inr isReturned =>
          subst isReturned
          cases steps
      | inr other => exact absurd rfl (other.2 _).2
    · simp only [List.getElem?_set_ne same] at found
      exact later _ isLater _ found
  | inr happens =>
    obtain ⟨event, mgr, started, rfl, happened, rfl⟩ := happens
    rw [List.getElem?_append] at found
    split at found
    · exact later _ isLater _ found
    · exact .inl ((event_status happened).2 _ (List.mem_of_getElem? found))

/-- Where damage was seen, it is stored, and no call was made since. -/
theorem absorbed_of_seen {pool : RecvPool} (holds : pool.Holds (fun _ => True) Stored)
    (seen : DamageSeen pool) : Absorbed pool.calls.length pool := by
  constructor
  · cases seen with
    | inl stored => exact stored
    | inr returned => exact holds.calls _ returned rfl
  · intro index isLater stage found
    have inRange := (List.getElem?_eq_some_iff.mp found).1
    omega

/-- Damage is absorbing in every run in which no `GetStatus` stores a clean status over it. -/
theorem damage_absorbing {taken : List (RecvPool × RecvTurn)} {final : RecvPool}
    (run : Run recvProgram.Step RecvPool.init taken final)
    (guarded : ∀ entry ∈ taken, overwritesDamage entry.1 entry.2 = false) :
    DamageAbsorbing taken final := by
  have held : final.Holds (fun _ => True) Stored ∧
      ∀ entry ∈ taken, DamageSeen entry.1 → Absorbed entry.1.calls.length final := by
    refine run.invariant (fun before turn => overwritesDamage before turn = false)
      (fun taken pool => pool.Holds (fun _ => True) Stored ∧
        ∀ entry ∈ taken, DamageSeen entry.1 → Absorbed entry.1.calls.length pool) ?_ ?_ guarded
    · exact ⟨⟨trivial, by simp [RecvPool.init]⟩, by simp⟩
    · intro taken before turn after held kept step
      refine ⟨step_stored held.1 step kept, ?_⟩
      intro entry member seen
      cases List.mem_append.mp member with
      | inl earlier => exact step_absorbed (held.2 entry earlier seen) step kept
      | inr last =>
        cases List.mem_singleton.mp last
        exact step_absorbed (absorbed_of_seen held.1 seen) step kept
  intro entry member seen index isLater status found
  cases (held.2 entry member seen).2 index isLater _ found with
  | inl isLoad => cases isLoad
  | inr isReturned => exact GetStatusStage.returned.inj isReturned

/-- One receiver with a timeout of 10.  Call 1 is a `GetStatus` that has checked the receiver in time,
    call 2 another one, at time 50, which returns damage. -/
def damagedTurns : List RecvTurn :=
  [.event (.make 10 .damaged), .event (.addRecv 0 100 true), .call 0 [], .call 0 [], .call 0 [],
    .call 0 [], .call 0 [], .event .getStatus, .call 1 [], .call 1 [0], .call 1 [], .call 1 [],
    .call 1 [], .event (.tick 50), .event .getStatus, .call 2 [], .call 2 [0], .call 2 [], .call 2 [],
    .call 2 [], .call 2 [], .call 2 []]

theorem damage_absorbing_sample :
    ∃ taken final, Run recvProgram.Step RecvPool.init taken final ∧
      (∃ entry ∈ taken, DamageSeen entry.1 ∧
        final.calls[entry.1.calls.length]? = some (.getStatus (.returned .damaged))) ∧
      DamageAbsorbing taken final := by
  have replays : (replay (damagedTurns ++ [.event .getStatus, .call 3 []])).any (fun (taken, final) =>
      taken.all (fun entry => !overwritesDamage entry.1 entry.2) &&
        taken.any fun entry => decide (entry.1.shared.status = .damaged ∧
          final.calls[entry.1.calls.length]? = some (.getStatus (.returned .damaged)))) = true := by
    decide +kernel
  obtain ⟨⟨taken, final⟩, replayed, checks⟩ := (Option.any_eq_true _ _).mp replays
  simp only [Bool.and_eq_true, List.all_eq_true, Bool.not_eq_true', List.any_eq_true,
    decide_eq_true_eq] at checks
  obtain ⟨guarded, entry, member, isDamaged, returned⟩ := checks
  have run := run_of_replay replayed
  exact ⟨taken, final, run, ⟨entry, member, .inl isDamaged, returned⟩, damage_absorbing run guarded⟩

/-- Call 1 stores its clean status over the damage, the receiver is removed, and a later `GetStatus`
    returns that everything is in order. -/
theorem damage_forgotten :
    ∃ taken final, Run recvProgram.Step RecvPool.init taken final ∧ ¬ DamageAbsorbing taken final := by
  have replays : (replay (damagedTurns ++ [.call 1 [], .event (.removeRecv 0 100), .call 3 [],
      .call 3 [], .event .getStatus, .call 4 [], .call 4 [], .call 4 [], .call 4 [],
      .call 4 []])).any (fun (taken, final) =>
        taken.any fun entry => decide (entry.1.shared.status = .damaged ∧ entry.1.calls.length ≤ 4 ∧
          final.calls[4]? = some (.getStatus (.returned .normal)))) = true := by
    decide +kernel
  obtain ⟨⟨taken, final⟩, replayed, checks⟩ := (Option.any_eq_true _ _).mp replays
  simp only [List.any_eq_true, decide_eq_true_eq] at checks
  obtain ⟨entry, member, isDamaged, isLater, returned⟩ := checks
  refine ⟨taken, final, run_of_replay replayed, ?_⟩
  intro absorbing
  cases absorbing entry member (.inl isDamaged) 4 isLater .normal returned

end RecvPool

end Decentagram.DecentEnclave
