import Decentagram.Lib.Interleaving

/-! # The receivers of heartbeats

`HeartbeatRecvMgr` with the constraints it watches, as an interleaved program.  An atomic step of a call
is one access to an atomic member, one critical section of a mutex, or one reading of the clock.
Constraints and sockets are named by their addresses; a constraint's address is its position among the
constraints ever made.
-/

namespace Decentagram.DecentEnclave

open Decentagram.Lib

inductive HeartbeatStatus where
  | normal
  | suspended
  | damaged
deriving DecidableEq, Repr

abbrev TimestampType := UInt64
abbrev SocketIdType := Nat
abbrev ConstraintIdType := Nat

structure HeartbeatTimeConstraint where
  lastUpdate : TimestampType
  timeout : TimestampType
  timeoutStatus : HeartbeatStatus
  isDamaged : Bool
deriving DecidableEq, Repr

/-- Where a `CheckStatus` stands: before it reads `m_isDamaged`, before it reads `m_lastUpdate`, and
    before it stores that the constraint is damaged. -/
inductive CheckStage where
  | loadIsDamaged
  | loadLastUpdate
  | storeIsDamaged
deriving DecidableEq, Repr

namespace HeartbeatTimeConstraint

def make (timeout : TimestampType) (timeoutStatus : HeartbeatStatus) : HeartbeatTimeConstraint where
  lastUpdate := 0
  timeout
  timeoutStatus
  isDamaged := false

/-- `InitTime` and `OnHeartbeatRecv`. -/
def setTime (constraint : HeartbeatTimeConstraint) (currTime : TimestampType) :
    HeartbeatTimeConstraint := { constraint with lastUpdate := currTime }

/-- One step of `CheckStatus`: the stage it goes on with, or the status it returns. -/
def checkStep (constraint : HeartbeatTimeConstraint) (currTime : TimestampType) :
    CheckStage → HeartbeatTimeConstraint × (CheckStage ⊕ HeartbeatStatus)
  | .loadIsDamaged => (constraint, if constraint.isDamaged then .inr .damaged else .inl .loadLastUpdate)
  | .loadLastUpdate =>
    let elapsed := currTime - constraint.lastUpdate
    if elapsed > constraint.timeout then
      if constraint.timeoutStatus = .damaged then (constraint, .inl .storeIsDamaged)
      else (constraint, .inr constraint.timeoutStatus)
    else (constraint, .inr .normal)
  | .storeIsDamaged => ({ constraint with isDamaged := true }, .inr constraint.timeoutStatus)

end HeartbeatTimeConstraint

/-- Where a `GetStatus` stands. -/
inductive GetStatusStage where
  | loadStatus
  | retrieveList
  | readClock (constraintList : List ConstraintIdType)
  | check (currTimestamp : TimestampType) (cleanStatus : HeartbeatStatus) (stage : CheckStage)
      (constraint : ConstraintIdType) (rest : List ConstraintIdType)
  | storeDamaged
  | storeClean (cleanStatus : HeartbeatStatus)
  | loadClean
  | returned (status : HeartbeatStatus)
deriving DecidableEq, Repr

/-- Where an `AddRecv` stands; `threw` is the end of a call whose socket is in the map already. -/
inductive AddRecvStage where
  | addConstraint
  | addSocket
  | readClock
  | initTime (currTime : TimestampType)
  | startWaiting
  | returned
  | threw
deriving DecidableEq, Repr

inductive RemoveRecvStage where
  | removeConstraint
  | removeSocket
  | returned
deriving DecidableEq, Repr

/-- Where the callback of a receive operation stands. -/
inductive WrappedRecvStage where
  | readClock
  | check (currTimestamp : TimestampType) (stage : CheckStage)
  | readClockAgain
  | onHeartbeatRecv (currTime : TimestampType)
  | startWaiting
  | removeSocket
  | returned
deriving DecidableEq, Repr

inductive Call where
  | getStatus (stage : GetStatusStage)
  | addRecv (constraint : ConstraintIdType) (socket : SocketIdType) (initConstraint : Bool)
      (stage : AddRecvStage)
  | removeRecv (constraint : ConstraintIdType) (socket : SocketIdType) (stage : RemoveRecvStage)
  | wrappedRecv (constraint : ConstraintIdType) (socket : SocketIdType) (stage : WrappedRecvStage)
deriving DecidableEq, Repr

structure HeartbeatRecvMgr where
  /-- What `UntrustedTime::Timestamp` returns. -/
  clock : TimestampType
  /-- Every constraint that was made. -/
  constraints : List HeartbeatTimeConstraint
  /-- The keys of the constraint map; each one is mapped to the constraint at that address. -/
  constraintMap : List ConstraintIdType
  socketMap : List SocketIdType
  status : HeartbeatStatus
  /-- The receive operations that sockets have pending. -/
  waiting : List (ConstraintIdType × SocketIdType)
deriving DecidableEq, Repr

namespace HeartbeatRecvMgr

def init : HeartbeatRecvMgr where
  clock := 0
  constraints := []
  constraintMap := []
  socketMap := []
  status := .normal
  waiting := []

def setConstraint (mgr : HeartbeatRecvMgr) (id : ConstraintIdType)
    (constraint : HeartbeatTimeConstraint) : HeartbeatRecvMgr :=
  { mgr with constraints := mgr.constraints.set id constraint }

/-- A step of `CheckStatus` on the constraint at an address. -/
def checkStep (mgr : HeartbeatRecvMgr) (id : ConstraintIdType) (currTime : TimestampType)
    (stage : CheckStage) : Option (HeartbeatRecvMgr × (CheckStage ⊕ HeartbeatStatus)) :=
  mgr.constraints[id]?.map fun constraint =>
    (mgr.setConstraint id (constraint.checkStep currTime stage).1,
      (constraint.checkStep currTime stage).2)

/-- The end of the loop over the constraints, or its next round. -/
def nextRound (currTimestamp : TimestampType) (cleanStatus : HeartbeatStatus) :
    List ConstraintIdType → GetStatusStage
  | [] => .storeClean cleanStatus
  | constraint :: rest => .check currTimestamp cleanStatus .loadIsDamaged constraint rest

/-- What the loop does with the status of one constraint. -/
def afterCheck (currTimestamp : TimestampType) (cleanStatus : HeartbeatStatus)
    (rest : List ConstraintIdType) : HeartbeatStatus → GetStatusStage
  | .damaged => .storeDamaged
  | .suspended => nextRound currTimestamp .suspended rest
  | .normal => nextRound currTimestamp cleanStatus rest

/-- A step of `GetStatus`.  The order in which an unordered map is iterated is free, so the list it
    retrieves is any arrangement `order` of the keys. -/
def getStatus (mgr : HeartbeatRecvMgr) (order : List ConstraintIdType) :
    GetStatusStage → Option (HeartbeatRecvMgr × GetStatusStage)
  | .loadStatus =>
    some (mgr, if mgr.status = .damaged then .returned .damaged else .retrieveList)
  | .retrieveList => if order.isPerm mgr.constraintMap then some (mgr, .readClock order) else none
  | .readClock constraintList => some (mgr, nextRound mgr.clock .normal constraintList)
  | .check currTimestamp cleanStatus stage constraint rest =>
    (mgr.checkStep constraint currTimestamp stage).map fun (mgr, result) =>
      (mgr, match result with
        | .inl stage => .check currTimestamp cleanStatus stage constraint rest
        | .inr status => afterCheck currTimestamp cleanStatus rest status)
  | .storeDamaged => some ({ mgr with status := .damaged }, .returned .damaged)
  | .storeClean cleanStatus => some ({ mgr with status := cleanStatus }, .loadClean)
  | .loadClean => some (mgr, .returned mgr.status)
  | .returned _ => none

def addConstraint (mgr : HeartbeatRecvMgr) (constraint : ConstraintIdType) : HeartbeatRecvMgr :=
  if constraint ∈ mgr.constraintMap then mgr
  else { mgr with constraintMap := constraint :: mgr.constraintMap }

def addRecv (mgr : HeartbeatRecvMgr) (constraint : ConstraintIdType) (socket : SocketIdType)
    (initConstraint : Bool) : AddRecvStage → Option (HeartbeatRecvMgr × AddRecvStage)
  | .addConstraint => some (mgr.addConstraint constraint, .addSocket)
  | .addSocket =>
    if socket ∈ mgr.socketMap then some (mgr, .threw)
    else some ({ mgr with socketMap := socket :: mgr.socketMap },
      if initConstraint then .readClock else .startWaiting)
  | .readClock => some (mgr, .initTime mgr.clock)
  | .initTime currTime =>
    mgr.constraints[constraint]?.map fun object =>
      (mgr.setConstraint constraint (object.setTime currTime), .startWaiting)
  | .startWaiting => some ({ mgr with waiting := (constraint, socket) :: mgr.waiting }, .returned)
  | .returned => none
  | .threw => none

def removeRecv (mgr : HeartbeatRecvMgr) (constraint : ConstraintIdType) (socket : SocketIdType) :
    RemoveRecvStage → Option (HeartbeatRecvMgr × RemoveRecvStage)
  | .removeConstraint =>
    some ({ mgr with constraintMap := mgr.constraintMap.erase constraint }, .removeSocket)
  | .removeSocket => some ({ mgr with socketMap := mgr.socketMap.erase socket }, .returned)
  | .returned => none

def wrappedRecv (mgr : HeartbeatRecvMgr) (constraint : ConstraintIdType) (socket : SocketIdType) :
    WrappedRecvStage → Option (HeartbeatRecvMgr × WrappedRecvStage)
  | .readClock => some (mgr, .check mgr.clock .loadIsDamaged)
  | .check currTimestamp stage =>
    (mgr.checkStep constraint currTimestamp stage).map fun (mgr, result) =>
      (mgr, match result with
        | .inl stage => .check currTimestamp stage
        | .inr status => if status ≠ .damaged then .readClockAgain else .removeSocket)
  | .readClockAgain => some (mgr, .onHeartbeatRecv mgr.clock)
  | .onHeartbeatRecv currTime =>
    mgr.constraints[constraint]?.map fun object =>
      (mgr.setConstraint constraint (object.setTime currTime), .startWaiting)
  | .startWaiting => some ({ mgr with waiting := (constraint, socket) :: mgr.waiting }, .returned)
  | .removeSocket => some ({ mgr with socketMap := mgr.socketMap.erase socket }, .returned)
  | .returned => none

/-- The next step of a call. -/
def next (mgr : HeartbeatRecvMgr) (call : Call) (order : List ConstraintIdType) :
    Option (HeartbeatRecvMgr × Call) :=
  match call with
  | .getStatus stage => (mgr.getStatus order stage).map fun (mgr, stage) => (mgr, .getStatus stage)
  | .addRecv constraint socket initConstraint stage =>
    (mgr.addRecv constraint socket initConstraint stage).map fun (mgr, stage) =>
      (mgr, .addRecv constraint socket initConstraint stage)
  | .removeRecv constraint socket stage =>
    (mgr.removeRecv constraint socket stage).map fun (mgr, stage) =>
      (mgr, .removeRecv constraint socket stage)
  | .wrappedRecv constraint socket stage =>
    (mgr.wrappedRecv constraint socket stage).map fun (mgr, stage) =>
      (mgr, .wrappedRecv constraint socket stage)

end HeartbeatRecvMgr

/-- What happens around the calls: time passes, a constraint is made, a member function is called, and a
    pending receive operation completes, with or without a message to handle. -/
inductive Event where
  | tick (now : TimestampType)
  | make (timeout : TimestampType) (timeoutStatus : HeartbeatStatus)
  | getStatus
  | addRecv (constraint : ConstraintIdType) (socket : SocketIdType) (initConstraint : Bool)
  | removeRecv (constraint : ConstraintIdType) (socket : SocketIdType)
  | received (constraint : ConstraintIdType) (socket : SocketIdType) (hasErrorOccurred : Bool)
deriving DecidableEq, Repr

namespace HeartbeatRecvMgr

/-- The clock does not go back.  A callback whose constraint or socket was released counts as one with
    an error, as the two take the same branch. -/
def event (mgr : HeartbeatRecvMgr) : Event → Option (HeartbeatRecvMgr × List Call)
  | .tick now => if mgr.clock ≤ now then some ({ mgr with clock := now }, []) else none
  | .make timeout timeoutStatus =>
    some ({ mgr with constraints := mgr.constraints ++ [.make timeout timeoutStatus] }, [])
  | .getStatus => some (mgr, [.getStatus .loadStatus])
  | .addRecv constraint socket initConstraint =>
    if constraint < mgr.constraints.length then
      some (mgr, [.addRecv constraint socket initConstraint .addConstraint])
    else none
  | .removeRecv constraint socket => some (mgr, [.removeRecv constraint socket .removeConstraint])
  | .received constraint socket hasErrorOccurred =>
    if (constraint, socket) ∈ mgr.waiting then
      some ({ mgr with waiting := mgr.waiting.erase (constraint, socket) },
        [.wrappedRecv constraint socket (if hasErrorOccurred then .removeSocket else .readClock)])
    else none

end HeartbeatRecvMgr

/-- The manager with the calls that run on it. -/
abbrev RecvPool := Pool HeartbeatRecvMgr Call

abbrev RecvTurn := Turn (List ConstraintIdType) Event

def recvProgram : Program HeartbeatRecvMgr Call (List ConstraintIdType) Event where
  next := HeartbeatRecvMgr.next
  event := HeartbeatRecvMgr.event

namespace RecvPool

def init : RecvPool := { shared := .init, calls := [] }

/-- The run that takes the given turns. -/
def replay (turns : List RecvTurn) : Option (List (RecvPool × RecvTurn) × RecvPool) :=
  Run.replay recvProgram.execute turns [] init

theorem run_of_replay {turns : List RecvTurn} {taken : List (RecvPool × RecvTurn)} {final : RecvPool}
    (replayed : replay turns = some (taken, final)) : Run recvProgram.Step init taken final :=
  Run.of_replay (fun _ _ _ executed => executed) .nil replayed

end RecvPool

end Decentagram.DecentEnclave
