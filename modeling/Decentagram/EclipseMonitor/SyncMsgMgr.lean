import Decentagram.EclipseMonitor.EventManager
import Decentagram.EclipseMonitor.HeaderNode

/-! # Sync messages

`shared_ptr<SyncState>` is a position in the list of all sync states made so far.  `Shared` is what the
callbacks of a monitor can reach: the members of the monitor that they read or change through its
public interface, and the state `ω` of its owner.
-/

namespace Decentagram.Eth

open Decentagram.Lib

structure SyncState where
  maxWaitTime : TrustedTimestamp
  genTime : TrustedTimestamp
  nonce : SyncNonce
  isSynced : Bool
deriving DecidableEq, Repr

/-- Synced only within the wait time; the difference wraps. -/
def SyncState.setSynced (recvTime : TrustedTimestamp) (state : SyncState) : SyncState :=
  if recvTime - state.genTime ≤ state.maxWaitTime then { state with isSynced := true } else state

structure SyncMsgMgr where
  maxWaitTime : TrustedTimestamp
  sessId : SessionID
  lastSyncState : SyncStateRef
  syncContractAddr : ContractAddr
  eventSign : EventTopic
  syncEventCallbackId : EventCallbackId
deriving DecidableEq, Repr

/-- The callback of the monitor itself, and those of other listeners. -/
inductive NotifyCallback (κ : Type) where
  | syncMsg (syncState : SyncStateRef)
  | listener (callback : κ)

structure Shared (κ ω : Type) where
  phase : Phases
  secState : MonitorSecState
  startBlockNum : BlockNumber
  bootstrapIEndBlkNum : BlockNumber
  planedSyncBlkNum : BlockNumber
  syncStates : List SyncState
  syncMsgMgr : SyncMsgMgr
  eventManager : EventManager (NotifyCallback κ)
  owner : ω

/-- What the clock, the random generator, the allocator and the host answer during one call.  The clock
    is read on arrival of a header, for a new sync state and before the sweep. -/
structure Readings (ε : Type) where
  arrivalTime : Except Exception TrustedTimestamp
  genTime : Except Exception TrustedTimestamp
  nonce : Except Exception SyncNonce
  listenId : EventCallbackId
  sweepTime : Except Exception TrustedTimestamp
  host : ε

namespace Shared

variable {κ ω ε : Type}

/-- `GetLastSyncState()->IsSynced()`. -/
def isSynced (shared : Shared κ ω) : Bool :=
  match shared.syncStates[shared.syncMsgMgr.lastSyncState]? with
  | some state => state.isSynced
  | none => false

/-- The session id, padded with zeros to a topic. -/
def sessionTopic (sessId : SessionID) : EventTopic := sessId ++ (Vector.replicate 16 0 : SessionID)

/-- The description `RegisterSyncEvent_Locked` listens with. -/
def syncEventDesc (codec : HeaderCodec) (syncMsgMgr : SyncMsgMgr) (ref : SyncStateRef)
    (state : SyncState) : EventDescription (NotifyCallback κ) :=
  .build codec syncMsgMgr.syncContractAddr
    [syncMsgMgr.eventSign, sessionTopic syncMsgMgr.sessId, state.nonce] (.syncMsg ref)

/-- The sync callback: the first message marks the state it was registered for, and the listener is
    removed. -/
def onSyncMsg (ref : SyncStateRef) (header : HeaderMgr) (id : EventCallbackId)
    (shared : Shared κ ω) : Shared κ ω :=
  { shared with
    syncStates := shared.syncStates.modify ref fun state =>
      if state.isSynced then state else state.setSynced header.trustedTime
    eventManager := shared.eventManager.cancel id }

def newSyncState (codec : HeaderCodec) (readings : Readings ε) :
    Exec Exception (Shared κ ω) Unit := do
  Exec.modify fun shared => { shared with
    eventManager := shared.eventManager.cancel shared.syncMsgMgr.syncEventCallbackId }
  let genTime ← Exec.ofExcept readings.genTime
  let nonce ← Exec.ofExcept readings.nonce
  Exec.modify fun shared =>
    let ref := shared.syncStates.length
    let state :=
      { maxWaitTime := shared.syncMsgMgr.maxWaitTime, genTime, nonce, isSynced := false }
    { shared with
      syncStates := shared.syncStates ++ [state]
      syncMsgMgr := { shared.syncMsgMgr with
        lastSyncState := ref
        syncEventCallbackId := readings.listenId }
      eventManager := shared.eventManager.listen readings.listenId
        (syncEventDesc codec shared.syncMsgMgr ref state) }

end Shared

end Decentagram.Eth
