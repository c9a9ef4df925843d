import Decentagram.AdvancedRlp.Parser
import Decentagram.DecentEnclave.KeyExchange

/-! # The EPID client

The calls of `EpidRaClientCore`.  What the host answers, and what it does to the database of RA
contexts in the meantime, is the input of a call.
-/

namespace Decentagram.DecentEnclave.EpidRaClient

open Decentagram.Lib Decentagram.Mbedtls
open Decentagram.SimpleObjects (Dict HashableObject Object)
open Decentagram.SimpleRlp (InputStateMachine ParseError RlpEncodeType)
open Decentagram.DecentEnclave.EpidRaSvcProv (stringKey)

inductive HSState where
  | initial
  | msg0sSent
  | raCtxInit
  | msg1Sent
  | msg3Sent
  | handshakeDone
  | handshakeRefused
deriving DecidableEq, Repr

namespace HSState

def toNat : HSState → Nat
  | .initial => 0
  | .msg0sSent => 1
  | .raCtxInit => 2
  | .msg1Sent => 3
  | .msg3Sent => 4
  | .handshakeDone => 5
  | .handshakeRefused => 6

def hasRaCtx (state : HSState) : Bool := state.toNat ≥ raCtxInit.toNat

end HSState

inductive Thrown where
  | exception (text : String)
  | sgxRuntimeError (status : SgxStatus) (funcName : String)
  | advancedRlp (error : AdvancedRlp.Exception)
  | rlp (error : ParseError)
  | typeError (expType actType : String)
  | keyError (keyName : String)
  /-- Thrown by the service provider's authenticator and by the MAC and buffer classes. -/
  | library (text : String)
deriving DecidableEq, Repr

/-- `EpidRaClientCore`, without the parts that only the host and the report see. -/
structure Core where
  make ::
  raCtx : Nat
  peerSignKey : EcPublic
  mk : SKey
  sk : SKey
  iasReportSet : IasReportSet
  handshakeState : HSState
deriving DecidableEq

namespace Core

def isHandshakeDone (core : Core) : Bool := core.handshakeState = .handshakeDone

/-- The state that the constructor leaves. -/
def start : Core where
  raCtx := 0
  peerSignKey := RaDb.zeroPublic
  mk := List.replicate 16 0
  sk := List.replicate 16 0
  iasReportSet := ⟨[], [], []⟩
  handshakeState := .initial

end Core

/-- The object and the database.  The contexts that the object has created are recorded for the
    proofs. -/
structure Enclave (KeyPair : Type) where
  raDb : RaDb.Db KeyPair
  core : Core
  created : List Nat
deriving DecidableEq

/-- The results of an OCALL: of the edge, and of the function. -/
structure OcallRet where
  edgeRet : Option SgxStatus
  funcRet : Option SgxStatus
deriving DecidableEq, Repr

namespace OcallRet

def succeeds (ret : OcallRet) : Bool := ret.edgeRet = none ∧ ret.funcRet = none

end OcallRet

/-! ## The report set -/

/-- `BytesParser` -/
def parseBytes (ism : InputStateMachine) (rlpType : RlpEncodeType) (rlpVal : UInt8)
    (byteLeft : UInt64) : Except ParseError (Bytes × InputStateMachine × UInt64) := do
  let (obj, ism, byteLeft) ← SimpleRlp.parseBytes ism rlpType rlpVal byteLeft
  match obj with
  | .bytes val => .ok (val, ism, byteLeft)
  -- the parser makes byte strings only
  | .list _ => .error (.atByte "Expecting a byte string data" ism.byteCount)

/-- The loop over a list of byte strings, whose lists are the business of a failing parser. -/
def parseBytesItems : Nat → InputStateMachine → UInt64 →
    Except ParseError (List Bytes × InputStateMachine)
  | 0, ism, size =>
    if size > 0 then .error (.atByte "Expecting more input data" ism.byteCount) else .ok ([], ism)
  | left + 1, ism, size =>
    if size > 0 then do
      let (nextByte, ism) ← ism.getByteAndAdv
      let (nextType, nextVal) := SimpleRlp.decodeRlpLeadingByte nextByte
      match nextType with
      | .byte | .bytesShort | .bytesLong => do
        let (item, ism, size) ← parseBytes ism nextType nextVal (size - 1)
        let (items, ism) ← parseBytesItems left ism size
        .ok (item :: items, ism)
      | .listShort | .listLong =>
        .error (.atByte "RLP Bytes is not allowed in current context" ism.byteCount)
    else .ok ([], ism)

def parseBytesList (ism : InputStateMachine) (rlpType : RlpEncodeType) (rlpVal : UInt8)
    (byteLeft : UInt64) : Except ParseError (List Bytes × InputStateMachine × UInt64) := do
  let (size, ism, byteLeft) ← SimpleRlp.procRlpListHeader ism rlpType rlpVal byteLeft
  let byteLeft ← SimpleRlp.checkByteLeft byteLeft size ism.byteCount
  let (items, ism) ← parseBytesItems ism.input.length ism size
  .ok (items, ism, byteLeft)

section StaticDict

variable {α : Type}

/-- One round of the loop of `StaticDictParserImpl`, at an item that has a parser. -/
def dictItem (parser : InputStateMachine → RlpEncodeType → UInt8 → UInt64 →
      Except ParseError (α × InputStateMachine × UInt64)) (ism : InputStateMachine) (size : UInt64) :
    Except ParseError (α × InputStateMachine × UInt64) :=
  if size > 0 then do
    let (nextByte, ism) ← ism.getByteAndAdv
    let (nextType, nextVal) := SimpleRlp.decodeRlpLeadingByte nextByte
    parser ism nextType nextVal (size - 1)
  else .error (.atByte "The static dict parser is expecting more items to parse" ism.byteCount)

end StaticDict

/-- `ProcDictItems`, in which no item may be missing and none may be extra. -/
def procDictItems (ism : InputStateMachine) (size : UInt64) :
    Except ParseError (IasReportSet × InputStateMachine) := do
  let (iasCert, ism, size) ← dictItem parseBytesList ism size
  let (report, ism, size) ← dictItem parseBytes ism size
  let (reportSign, ism, size) ← dictItem parseBytes ism size
  if size > 0 then do
    let (_, ism) ← ism.getByteAndAdv
    .error (.atByte "The static dict parser encounters more items than expected" ism.byteCount)
  else .ok ({ iasCert, report, reportSign }, ism)

/-- `IasReportSetParser().Parse` of a container. -/
def parseIasReportSet (container : Bytes) : Except ParseError IasReportSet := do
  let ism ← InputStateMachine.start container
  let byteLeft ← SimpleRlp.checkByteLeft (UInt64.ofNat container.length) 1 ism.byteCount
  let (rlpByte, ism) ← ism.getByteAndAdv
  let (rlpType, rlpVal) := SimpleRlp.decodeRlpLeadingByte rlpByte
  let (size, ism, byteLeft) ← SimpleRlp.procRlpListHeader ism rlpType rlpVal byteLeft
  let byteLeft ← SimpleRlp.checkByteLeft byteLeft size ism.byteCount
  let (reportSet, ism) ← procDictItems ism size
  if byteLeft ≠ 0 then .error (.atByte "Extra data found at the end of input data" ism.byteCount)
  else .ok reportSet

/-! ## Message 4 -/

def asDict : Object → Except Thrown Dict
  | .dict entries => .ok entries
  | obj => .error (.typeError "Dict" obj.getCategory.name)

def asBytes : Object → Except Thrown Bytes
  | .hashable (.bytes val) => .ok val
  | obj => .error (.typeError "Bytes" obj.getCategory.name)

/-- `operator[]` of a constant dictionary. -/
def atKey (dict : Dict) (label : String) : Except Thrown Object :=
  match dict.find? fun entry => entry.1.baseObjectIsEqual (stringKey label) with
  | some entry => .ok entry.2
  | none => .error (.keyError ("\"" ++ label ++ "\""))

def isTrue : Object → Bool
  | .hashable .null => false
  | .hashable (.realNum val) => val.val ≠ 0
  | .hashable (.string val) => val.length > 0
  | .hashable (.bytes val) => val.length > 0
  | .list val => val.length > 0
  | .dict entries => entries.length > 0

def parseObject (bytes : Bytes) : Except Thrown Object :=
  (AdvancedRlp.parse bytes).mapError .advancedRlp

structure Msg4 where
  msgBody : Bytes
  mac : Bytes
deriving DecidableEq, Repr

def splitMsg4 (msg4 : Bytes) : Except Thrown Msg4 := do
  let msg4Obj ← parseObject msg4
  let msg4Dict ← asDict msg4Obj
  let bodyObj ← atKey msg4Dict "MsgBody"
  let msgBody ← asBytes bodyObj
  let macObj ← atKey msg4Dict "MAC"
  let mac ← asBytes macObj
  .ok { msgBody, mac }

def readBody (msg4BodyBytes : Bytes) : Except Thrown (Bool × IasReportSet) := do
  let msg4BodyObj ← parseObject msg4BodyBytes
  let msg4BodyDict ← asDict msg4BodyObj
  let reportSetObj ← atKey msg4BodyDict "ReportSet"
  let reportSetBytes ← asBytes reportSetObj
  let vrfyResObj ← atKey msg4BodyDict "VerifyResult"
  let iasReportSet ← (parseIasReportSet reportSetBytes).mapError .rlp
  .ok (isTrue vrfyResObj, iasReportSet)

variable {KeyPair : Type} (lib : RaLib KeyPair)

/-! ## The calls -/

section Host

variable {α : Type}

/-- A call of the key exchange, whose failures are thrown. -/
def onRaDb (funcName : String) (inner : Exec SgxStatus (RaDb.Db KeyPair) α) :
    Exec Thrown (Enclave KeyPair) α :=
  fun enclave =>
    match inner enclave.raDb with
    | .ok value raDb => .ok value { enclave with raDb }
    | .throws status raDb => .throws (.sgxRuntimeError status funcName) { enclave with raDb }
    | .undefined => .undefined

def modifyCore (update : Core → Core) : Exec Thrown (Enclave KeyPair) Unit :=
  .modify fun enclave => { enclave with core := update enclave.core }

def setState (handshakeState : HSState) : Exec Thrown (Enclave KeyPair) Unit :=
  modifyCore fun core => { core with handshakeState }

/-- `DECENTENCLAVE_CHECK_SGX_RUNTIME_ERROR` -/
def checkSgx (ret : Option SgxStatus) (funcName : String) : Exec Thrown (Enclave KeyPair) Unit :=
  match ret with
  | none => pure ()
  | some status => .throw (.sgxRuntimeError status funcName)

def ocall (ret : OcallRet) (funcName : String) (events : List (RaDb.RaEvent KeyPair)) :
    Exec Thrown (Enclave KeyPair) Unit := do
  .modify fun enclave => { enclave with raDb := RaDb.occurAll lib enclave.created enclave.raDb events }
  checkSgx ret.edgeRet funcName
  checkSgx ret.funcRet funcName

end Host

def getMsg0s (ret : OcallRet) (extendedGrpId : UInt32) (events : List (RaDb.RaEvent KeyPair)) :
    Exec Thrown (Enclave KeyPair) UInt32 := do
  ocall lib ret "ocall_decent_attest_get_extended_epid_grp_id" events
  setState .msg0sSent
  pure extendedGrpId

/-- The authenticator accepts the key or not, and the new context is the object's. -/
def getMsg1 (authenticate : EcPublic → Except Thrown Bool) (spPubKey : EcPublic) (faults : RaDb.Faults)
    (ret : OcallRet) (msg1 : EpidRaSvcProv.Msg1) (events : List (RaDb.RaEvent KeyPair)) :
    Exec Thrown (Enclave KeyPair) EpidRaSvcProv.Msg1 := do
  let accepted ← .ofExcept (authenticate spPubKey)
  .throwIf (accepted = false) (.exception "Failed to authenticate service provider's signing key")
  modifyCore fun core => { core with peerSignKey := spPubKey }
  -- an id from an earlier call is overwritten, and its context is not closed
  let raCtx ← onRaDb "decent_ra_init" (RaDb.init lib faults spPubKey)
  .modify fun enclave => { enclave with created := enclave.created ++ [raCtx] }
  modifyCore fun core => { core with raCtx }
  setState .raCtxInit
  ocall lib ret "ocall_decent_attest_get_msg1" events
  setState .msg1Sent
  pure msg1

def getKeys : Exec Thrown (Enclave KeyPair) Unit := do
  let enclave ← .get
  let sk ← onRaDb "decent_ra_get_keys" (RaDb.getKeys enclave.core.raCtx .sk)
  modifyCore fun core => { core with sk }
  let mk ← onRaDb "decent_ra_get_keys" (RaDb.getKeys enclave.core.raCtx .mk)
  modifyCore fun core => { core with mk }

/-- `sizeof(sgx_ra_msg2_t)` -/
def msg2Size : Nat := 168

/-- The host answers with a buffer, which is copied. -/
def getMsg3 (msg2 : Bytes) (ret : OcallRet) (msg3 : Except Thrown Bytes)
    (events : List (RaDb.RaEvent KeyPair)) : Exec Thrown (Enclave KeyPair) Bytes := do
  .throwIf (msg2.length < msg2Size) (.exception ("msg2 is too short (size = " ++ toString msg2.length ++ ")"))
  ocall lib ret "ocall_decent_attest_get_msg3" events
  let res ← .ofExcept msg3
  getKeys
  setState .msg3Sent
  pure res

/-- The MAC may fail to be computed. -/
def procMsg4 (cmacRet : Except Thrown Unit) (msg4 : Bytes) : Exec Thrown (Enclave KeyPair) Unit := do
  let parts ← .ofExcept (splitMsg4 msg4)
  let enclave ← .get
  -- the key is used in every state, the zeros of a new object included
  .ofExcept cmacRet
  .throwIf (parts.mac ≠ lib.cmac enclave.core.sk parts.msgBody) (.exception "Message 4 MAC verification failed")
  let (vrfyRes, iasReportSet) ← .ofExcept (readBody parts.msgBody)
  modifyCore fun core => { core with iasReportSet }
  setState (if vrfyRes then .handshakeDone else .handshakeRefused)

/-- The destructor, and what it leaves of the database. -/
def destroy (enclave : Enclave KeyPair) : RaDb.Db KeyPair :=
  if enclave.core.handshakeState.hasRaCtx then
    (Exec.endState (RaDb.close enclave.core.raCtx) enclave.raDb).getD enclave.raDb
  else enclave.raDb

/-! ## Runs -/

inductive Call (KeyPair : Type) where
  | getMsg0s (ret : OcallRet) (extendedGrpId : UInt32) (events : List (RaDb.RaEvent KeyPair))
  | getMsg1 (spPubKey : EcPublic) (faults : RaDb.Faults) (ret : OcallRet) (msg1 : EpidRaSvcProv.Msg1)
      (events : List (RaDb.RaEvent KeyPair))
  | getMsg3 (msg2 : Bytes) (ret : OcallRet) (msg3 : Except Thrown Bytes) (events : List (RaDb.RaEvent KeyPair))
  | procMsg4 (cmacRet : Except Thrown Unit) (msg4 : Bytes)
  /-- The host and the other users of the database, between two calls. -/
  | others (events : List (RaDb.RaEvent KeyPair))

/-- The call ends in a state, whether it returns or throws. -/
def Step (authenticate : EcPublic → Except Thrown Bool) (before : Enclave KeyPair) (call : Call KeyPair)
    (after : Enclave KeyPair) : Prop :=
  match call with
  | .getMsg0s ret extendedGrpId events => (getMsg0s lib ret extendedGrpId events).Ends before after
  | .getMsg1 spPubKey faults ret msg1 events =>
    (getMsg1 lib authenticate spPubKey faults ret msg1 events).Ends before after
  | .getMsg3 msg2 ret msg3 events => (getMsg3 lib msg2 ret msg3 events).Ends before after
  | .procMsg4 cmacRet msg4 => (procMsg4 lib cmacRet msg4).Ends before after
  | .others events =>
    after = { before with raDb := RaDb.occurAll lib before.created before.raDb events }

end Decentagram.DecentEnclave.EpidRaClient
