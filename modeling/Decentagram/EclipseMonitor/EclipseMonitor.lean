import Decentagram.Lib.Run
import Decentagram.EclipseMonitor.CheckpointMgr
import Decentagram.EclipseMonitor.DiffChecker
import Decentagram.EclipseMonitor.SyncMsgMgr
import Decentagram.EclipseMonitor.Validator

/-! # The monitor

One function for each member function of `EclipseMonitor`.  Nodes are allocated at addresses that are
never used again, so a raw pointer whose node the tree no longer owns is dangling, and following it is
undefined behaviour.  An exception leaves the state as far as it was changed.
-/

namespace Decentagram.Eth

open Decentagram.Lib

abbrev NodeLookUpMap := UnorderedMap Bytes NodeAddr

structure EclipseMonitor (κ ω δ : Type) where
  shared : Shared κ ω
  checkpoint : CheckpointMgr
  diffState : δ
  offlineNodes : NodeLookUpMap
  activeNodes : NodeLookUpMap
  /-- The address of the next node. -/
  nextAddr : NodeAddr

/-- What a monitor is constructed from. -/
structure Parts (κ ω δ ε : Type) where
  config : MonitorConfig
  codec : HeaderCodec
  validator : ValidatorBase
  diffChecker : DiffCheckerBase δ
  onHeaderValidated : ε → HeaderMgr → Exec Exception (Shared κ ω) Unit
  onHeaderConfirmed : HeaderMgr → Exec Exception (Shared κ ω) Unit

namespace Parts

variable {κ ω δ ε : Type}

def chkptSize (parts : Parts κ ω δ ε) : Nat := parts.config.checkpointSize.toNat

end Parts

namespace EclipseMonitor

variable {κ ω δ ε : Type}

/-- The bootstrap plan is refreshed with the latest block number and, the first time, the start block. -/
def calcBootstrapIEndBlkNum (latestBlk startBlk chkptSize : UInt64) : UInt64 :=
  let numOfBlocks := latestBlk - startBlk + 1
  let numOfInterval := numOfBlocks / chkptSize
  let numOfInterval := if numOfInterval > 2 then numOfInterval - 2 else 0
  startBlk + numOfInterval * chkptSize - 1

def refreshBootstrapPlan (config : MonitorConfig) (latestBlkNum : BlockNumber)
    (startBlkNum : Option BlockNumber) (shared : Shared κ ω) : Shared κ ω :=
  let shared := match startBlkNum with
    | some startBlockNum => { shared with startBlockNum }
    | none => shared
  match shared.phase with
  | .bootstrapI => { shared with
      bootstrapIEndBlkNum :=
        calcBootstrapIEndBlkNum latestBlkNum shared.startBlockNum config.checkpointSize
      planedSyncBlkNum := latestBlkNum }
  | .bootstrapII => { shared with planedSyncBlkNum := latestBlkNum }
  | _ => shared

section Members

variable (parts : Parts κ ω δ ε) (readings : Readings ε)

def onShared {α : Type} (call : Exec Exception (Shared κ ω) α) :
    Exec Exception (EclipseMonitor κ ω δ) α :=
  Exec.zoom shared (fun shared monitor => { monitor with shared }) call

def onCheckpoint {α : Type} (call : Exec Exception CheckpointMgr α) :
    Exec Exception (EclipseMonitor κ ω δ) α :=
  Exec.zoom checkpoint (fun checkpoint monitor => { monitor with checkpoint }) call

def onDiffState {α : Type} (call : Exec Exception δ α) : Exec Exception (EclipseMonitor κ ω δ) α :=
  Exec.zoom diffState (fun diffState monitor => { monitor with diffState }) call

/-- The node at an address, if the tree under the last node owns one. -/
def deref (monitor : EclipseMonitor κ ω δ) (addr : NodeAddr) : Option HeaderMgr :=
  monitor.checkpoint.lastNode.bind fun last => last.deref addr

def confirmHeaders : List HeaderMgr → Exec Exception (EclipseMonitor κ ω δ) Unit
  | [] => pure ()
  | header :: headers => do
    onShared (parts.onHeaderConfirmed header)
    confirmHeaders headers

def onCheckpointComplete : Exec Exception (EclipseMonitor κ ω δ) Unit := do
  let checkpoint := (← Exec.get).checkpoint
  let lastHeader ← Exec.ofExcept checkpoint.getLastHeader
  onShared (Exec.modify fun shared => { shared with
    secState := { shared.secState with
      checkpointHash := lastHeader.hashObj
      checkpointNum := lastHeader.rawHeader.number
      checkpointIter := shared.secState.checkpointIter + 1 } })
  onDiffState (parts.diffChecker.onChkptUpd checkpoint)
  confirmHeaders parts checkpoint.iterateCurrWindow

/-- Runs one of the add operations of the checkpoint, and the callback it asks for. -/
def thenComplete (add : Exec Exception CheckpointMgr Bool) :
    Exec Exception (EclipseMonitor κ ω δ) Unit := do
  if ← onCheckpoint add then onCheckpointComplete parts

/-- The first header is the genesis block, every other one is validated against the last. -/
def validateOnBootstrapI (header : HeaderMgr) : Exec Exception (EclipseMonitor κ ω δ) Unit := do
  let checkpoint := (← Exec.get).checkpoint
  if checkpoint.isEmpty then
    onShared (Exec.modify fun shared => { shared with
      secState := { shared.secState with genesisHash := header.hashObj } })
  else
    let lastHeader ← Exec.ofExcept checkpoint.getLastHeader
    let valid ← Exec.ofExcept (parts.validator.commonValidate lastHeader false header false)
    Exec.throwIf (!valid) "The given block failed common validation"

def updateOnBootstrapI (hdrBinary : Bytes) : Exec Exception (EclipseMonitor κ ω δ) BlockNumber := do
  let header ← Exec.ofExcept (HeaderMgr.ofBinary parts.codec hdrBinary 0)
  validateOnBootstrapI parts header
  onShared (parts.onHeaderValidated readings.host header)
  thenComplete parts (CheckpointMgr.addHeader (some header))
  return header.blkNum

/-- `parentNode->AddChild(header, syncState)`, and the entry of the new node in one of the maps. -/
def addNewNode (parentNode : NodeAddr) (header : HeaderMgr) (syncState : SyncStateRef)
    (isNewNodeLive : Bool) : Exec Exception (EclipseMonitor κ ω δ) Unit := do
  let monitor ← Exec.get
  let node := monitor.nextAddr
  match monitor.checkpoint.lastNode.bind fun last => last.addChild parentNode node header syncState with
  | none => Exec.undefined
  | some last => do
    Exec.modify fun monitor => { monitor with
      checkpoint := { monitor.checkpoint with lastNode := some last }
      nextAddr := node + 1 }
    if isNewNodeLive then
      Exec.modify fun monitor => { monitor with
        activeNodes := UnorderedMap.emplace monitor.activeNodes header.hashObj node }
    else
      Exec.modify fun monitor => { monitor with
        offlineNodes := UnorderedMap.emplace monitor.offlineNodes header.hashObj node }

def updateOnRuntimeAddChild (parentNode : NodeAddr) (isParentNodeLive : Bool) (header : HeaderMgr) :
    Exec Exception (EclipseMonitor κ ω δ) Unit := do
  let monitor ← Exec.get
  let syncState := monitor.shared.syncMsgMgr.lastSyncState
  let isNewNodeLive := monitor.shared.isSynced
  match monitor.deref parentNode with
  | none => Exec.undefined
  | some parent =>
    let validateRes ← Exec.ofExcept
      (parts.validator.commonValidate parent isParentNodeLive header isNewNodeLive)
    let diffRes := validateRes && parts.diffChecker.checkDifficulty monitor.diffState parent header
    if validateRes && diffRes then
      onShared (parts.onHeaderValidated readings.host header)
      addNewNode parentNode header syncState isNewNodeLive

/-- The entry under which the parent of a header is found, and whether it is an active one.  Offline
    nodes are looked up first. -/
def findParent (monitor : EclipseMonitor κ ω δ) (header : HeaderMgr) : Option (NodeAddr × Bool) :=
  match monitor.offlineNodes.lookup header.rawHeader.parentHash with
  | some parentNode => some (parentNode, false)
  | none => (monitor.activeNodes.lookup header.rawHeader.parentHash).map fun parentNode =>
    (parentNode, true)

/-- Both look-ups of `UpdateOnRuntime`.  The header is gone once it is passed on, whether or not it is
    then accepted. -/
def addToParent (header : HeaderMgr) : Exec Exception (EclipseMonitor κ ω δ) Unit := do
  match (← Exec.get).findParent header with
  | some (parentNode, isParentNodeLive) =>
    updateOnRuntimeAddChild parts readings parentNode isParentNodeLive header
  | none => pure ()

def updateOnRuntime (hdrBinary : Bytes) : Exec Exception (EclipseMonitor κ ω δ) BlockNumber := do
  let arrivalTime ← Exec.ofExcept readings.arrivalTime
  let header ← Exec.ofExcept (HeaderMgr.ofBinary parts.codec hdrBinary arrivalTime)
  addToParent parts readings header
  return header.blkNum

def endBootstrapI : Exec Exception (EclipseMonitor κ ω δ) Unit := do
  let monitor ← Exec.get
  let addr := monitor.nextAddr
  onCheckpoint
    (CheckpointMgr.endBootstrapPhase monitor.shared.syncMsgMgr.lastSyncState addr)
  let last ← Exec.ofExcept (← Exec.get).checkpoint.getLastNode
  Exec.modify fun monitor => { monitor with
    offlineNodes := monitor.offlineNodes.insert last.header.hashObj last.addr
    shared := { monitor.shared with phase := .bootstrapII }
    nextAddr := addr + 1 }

def refreshSyncMsg : Exec Exception (EclipseMonitor κ ω δ) Unit :=
  onShared do
    Exec.modify fun shared => { shared with phase := .sync }
    Shared.newSyncState parts.codec readings

def phaseChangeCheck (currBlkNum : BlockNumber) : Exec Exception (EclipseMonitor κ ω δ) Unit := do
  let shared := (← Exec.get).shared
  match shared.phase with
  | .bootstrapI => if currBlkNum = shared.bootstrapIEndBlkNum then endBootstrapI
  | .bootstrapII => if currBlkNum = shared.planedSyncBlkNum then refreshSyncMsg parts readings
  | _ => pure ()

/-- The range-for over the active nodes.  Erasing the entry the loop stands on invalidates its iterator,
    and the loop then advances it. -/
def sweep (now : TrustedTimestamp) :
    List (Sigma fun _ : Bytes => NodeAddr) → Exec Exception (EclipseMonitor κ ω δ) Unit
  | [] => pure ()
  | entry :: entries => do
    let monitor ← Exec.get
    match monitor.deref entry.2 with
    | none => Exec.undefined
    | some header =>
      let alive ← Exec.ofExcept (parts.diffChecker.checkEstDifficulty monitor.diffState header now)
      if alive then sweep now entries else Exec.undefined

/-- The entries of the last node and of the confirmed child go, then the child becomes the last node. -/
def moveToCheckpoint (last child remaining : HeaderNode) :
    Exec Exception (EclipseMonitor κ ω δ) Unit := do
  Exec.modify fun monitor => { monitor with
    checkpoint := { monitor.checkpoint with lastNode := some remaining }
    offlineNodes := (monitor.offlineNodes.erase last.header.hashObj).erase child.header.hashObj
    activeNodes := (monitor.activeNodes.erase last.header.hashObj).erase child.header.hashObj }
  thenComplete parts (CheckpointMgr.addNode (some child))

/-- The check for a new checkpoint candidate. -/
def confirmChild : Exec Exception (EclipseMonitor κ ω δ) Unit := do
  let last ← Exec.ofExcept (← Exec.get).checkpoint.getLastNode
  match last.releaseChildHasNDesc parts.chkptSize with
  | some (child, remaining) => moveToCheckpoint parts last child remaining
  | none => pure ()

/-- The check for expired active nodes. -/
def expireNodes : Exec Exception (EclipseMonitor κ ω δ) Unit := do
  let now ← Exec.ofExcept readings.sweepTime
  sweep parts now (← Exec.get).activeNodes.entries

def runtimeMaintenance : Exec Exception (EclipseMonitor κ ω δ) Unit := do
  confirmChild parts
  expireNodes parts readings

/-- `Update` up to the maintenance. -/
def beforeMaintenance (hdrBinary : Bytes) : Exec Exception (EclipseMonitor κ ω δ) Unit := do
  let blkNum ←
    if (← Exec.get).shared.phase = .bootstrapI then updateOnBootstrapI parts readings hdrBinary
    else updateOnRuntime parts readings hdrBinary
  phaseChangeCheck parts readings blkNum

def update (hdrBinary : Bytes) : Exec Exception (EclipseMonitor κ ω δ) Unit := do
  beforeMaintenance parts readings hdrBinary
  if (← Exec.get).shared.phase ≠ .bootstrapI then
    runtimeMaintenance parts readings

end Members

/-- The constructor.  `diffState` is the state of the difficulty checker, and the sync message manager
    makes and registers the first sync state. -/
def init (parts : Parts κ ω δ ε) (diffState : δ) (owner : ω) (sessId : SessionID)
    (genTime : TrustedTimestamp) (nonce : SyncNonce) (syncContractAddr : ContractAddr)
    (eventSign : EventTopic) (listenId : EventCallbackId) : EclipseMonitor κ ω δ :=
  let state := { maxWaitTime := parts.config.syncMaxWaitTime, genTime, nonce, isSynced := false }
  let syncMsgMgr := {
    maxWaitTime := parts.config.syncMaxWaitTime
    sessId
    lastSyncState := 0
    syncContractAddr
    eventSign
    syncEventCallbackId := listenId }
  { shared := {
      phase := .bootstrapI
      secState := { genesisHash := [], checkpointIter := 0, checkpointHash := [], checkpointNum := [] }
      startBlockNum := 0
      bootstrapIEndBlkNum := -1
      planedSyncBlkNum := -1
      syncStates := [state]
      syncMsgMgr
      eventManager := EventManager.init.listen listenId
        (Shared.syncEventDesc parts.codec syncMsgMgr 0 state)
      owner }
    checkpoint := .init parts.chkptSize
    diffState
    offlineNodes := ∅
    activeNodes := ∅
    nextAddr := 0 }

/-- What the owner of a monitor does with it.  `owner` is a use of its public interface that neither feeds
    it a header nor ends a phase, or anything the owner does to its own state. -/
inductive Label (κ ω ε : Type) where
  | update (readings : Readings ε) (hdrBinary : Bytes)
  | endBootstrapI
  | owner (change : Shared κ ω → Shared κ ω)

def call (parts : Parts κ ω δ ε) : Label κ ω ε → Exec Exception (EclipseMonitor κ ω δ) Unit
  | .update readings hdrBinary => update parts readings hdrBinary
  | .endBootstrapI => endBootstrapI
  | .owner change => onShared (Exec.modify change)

/-- A call that returns or throws.  A call with undefined behaviour leads nowhere. -/
def Step (parts : Parts κ ω δ ε) (before : EclipseMonitor κ ω δ) (label : Label κ ω ε)
    (after : EclipseMonitor κ ω δ) : Prop := Exec.Ends (call parts label) before after

end EclipseMonitor

end Decentagram.Eth
