import Decentagram.AdvancedRlp.Writer
import Decentagram.DecentEnclave.IasReportVerifier
import Decentagram.Lib.Exec

/-! # The EPID service provider

The calls of `EpidRaSvcProvCore`.  What the libraries and the IAS requester do in one call is the
input of that call: each place at which one of them can throw is a site, and the call names the
sites that do.
-/

namespace Decentagram.DecentEnclave

open Decentagram.Lib Decentagram.Mbedtls
open Decentagram.SimpleObjects (HashableObject Object RealNum)

/-- `sgx_ec256_public_t` -/
structure EcPublic where
  gx : Bytes
  gy : Bytes
deriving DecidableEq, Repr

def EcPublic.bytes (key : EcPublic) : Bytes := key.gx ++ key.gy

/-- A key of 128 bits. -/
abbrev SKey := Bytes

/-- The functions of the libraries that derive keys. -/
structure KeyLib (KeyPair : Type) where
  publicKey : KeyPair → EcPublic
  /-- The x coordinate of the shared point, little-endian. -/
  sharedKey : KeyPair → EcPublic → Bytes
  ckdf : Bytes → String → SKey
  cmac : SKey → Bytes → Bytes

namespace EpidRaSvcProv

inductive HSState where
  | initial
  | msg0rSent
  | msg2Sent
  | handshakeDone
  | handshakeRefused
deriving DecidableEq, Repr

/-- `EpidRaSvcProvCore`, with the public half of the signing key. -/
structure Core (KeyPair : Type) where
  make ::
  mySignKey : EcPublic
  myEncKey : KeyPair
  peerEncKey : EcPublic
  smk : SKey
  mk : SKey
  sk : SKey
  vk : SKey
  spid : Bytes
  nonce : String
  epidQuoteVrfy : EpidQuoteVerifier
  iasReportSet : IasReportSet
  handshakeState : HSState

/-- The places at which a library throws. -/
inductive Site where
  | importEcKey
  | exportEcKey
  | deriveSharedKey
  | writeSharedKey
  | ckdf (label : String)
  | reportDataHash
  | signedHash
  | signInBigNum
  | writeSign
  | cmac
  | getSigrl
  | buildReqBody
  | getReport
  | shrinkCertChain
  | parseCerts
  | verifySign
  | parseReport
  | writeMsgBody
  | writeMsg
deriving DecidableEq, Repr

abbrev Faults := Site → Option Thrown

/-- `sgx_ra_msg1_t` -/
structure Msg1 where
  gA : EcPublic
  gid : Bytes
deriving Repr

/-- `sgx_ra_msg2_t` with the revocation list behind it. -/
structure Msg2 where
  gB : EcPublic
  spid : Bytes
  quoteType : UInt16
  kdfId : UInt16
  signGbGa : Bytes × Bytes
  mac : Bytes
  sigRL : Bytes
deriving Repr

/-- What the request to the IAS carries. -/
structure IasReportReqBody where
  isvEnclaveQuote : Bytes
  nonce : String
  pseManifest : Option Bytes
deriving Repr

variable {KeyPair : Type}

namespace Core

def isHandshakeDone (core : Core KeyPair) : Bool := core.handshakeState = .handshakeDone

end Core

section Calls

variable {σ : Type}

/-- Throws if the site does. -/
def check (faults : Faults) (site : Site) : Exec Thrown σ Unit :=
  match faults site with
  | some error => .throw error
  | none => pure ()

end Calls

variable {Crt : Type} (lib : KeyLib KeyPair) (env : Env Crt)

/-! ## Message 0 -/

def getMsg0r (faults : Faults) (extendedGrpId : UInt32) : Exec Thrown (Core KeyPair) EcPublic := do
  .throwIf (extendedGrpId ≠ 0) (.exception "The given extended group ID is unsupported")
  check faults .importEcKey
  let core ← .get
  .modify fun core => { core with handshakeState := .msg0rSent }
  pure core.mySignKey

/-! ## Message 2 -/

def setPeerEncrPubKey (faults : Faults) (inEncPubKey : EcPublic) : Exec Thrown (Core KeyPair) Unit := do
  .modify fun core => { core with peerEncKey := inEncPubKey }
  check faults .exportEcKey
  check faults .deriveSharedKey
  check faults .writeSharedKey
  let core ← .get
  let sharedKey := lib.sharedKey core.myEncKey core.peerEncKey
  check faults (.ckdf "SMK")
  .modify fun core => { core with smk := lib.ckdf sharedKey "SMK" }
  check faults (.ckdf "MK")
  .modify fun core => { core with mk := lib.ckdf sharedKey "MK" }
  check faults (.ckdf "SK")
  .modify fun core => { core with sk := lib.ckdf sharedKey "SK" }
  check faults (.ckdf "VK")
  .modify fun core => { core with vk := lib.ckdf sharedKey "VK" }

/-- The hash of the keys of both parties and VK, and zeros. -/
def genStdReportData (peerEncKey myEncSgxKey : EcPublic) (vk : SKey) : ReportData :=
  let reportDataHash := env.sha256 (peerEncKey.bytes ++ myEncSgxKey.bytes ++ vk)
  (reportDataHash ++ Vector.replicate 32 (0 : UInt8) : Vector UInt8 (32 + 32))

def sk_quoteTypeLinkable : UInt16 := 1

def sk_kdfIdDefault : UInt16 := 1

def leBytes (val : UInt16) : Bytes := [val.toUInt8, (val >>> 8).toUInt8]

/-- The fields of message 2 in front of the MAC. -/
def tmpCmacData (gB : EcPublic) (spid : Bytes) (signGbGa : Bytes × Bytes) : Bytes :=
  gB.bytes ++ spid ++ leBytes sk_quoteTypeLinkable ++ leBytes sk_kdfIdDefault ++ signGbGa.1 ++ signGbGa.2

/-- The signature and the revocation list are what the library and the IAS answer. -/
def getMsg2 (faults : Faults) (msg1 : Msg1) (signGbGa : Bytes × Bytes) (sigrlB64 : String) :
    Exec Thrown (Core KeyPair) Msg2 := do
  check faults .importEcKey
  let core ← .get
  let myEncSgxKey := lib.publicKey core.myEncKey
  setPeerEncrPubKey lib faults msg1.gA
  check faults .reportDataHash
  .modify fun core => { core with epidQuoteVrfy := { core.epidQuoteVrfy with
    stdReportData := genStdReportData env core.peerEncKey myEncSgxKey core.vk } }
  check faults .signedHash
  check faults .signInBigNum
  check faults .writeSign
  check faults .cmac
  let core ← .get
  let mac := lib.cmac core.smk (tmpCmacData myEncSgxKey core.spid signGbGa)
  -- the keys and the report data are in place by now, and the state is still the old one
  check faults .getSigrl
  let sigRL ← .ofExcept (env.base64Decode sigrlB64)
  .modify fun core => { core with handshakeState := .msg2Sent }
  pure { gB := myEncSgxKey, spid := core.spid, quoteType := sk_quoteTypeLinkable, kdfId := sk_kdfIdDefault,
         signGbGa, mac, sigRL }

/-! ## Message 4 -/

/-- `sizeof(sgx_ra_msg3_t)`: the MAC, the key and the security properties in front of the quote. -/
def msg3Size : Nat := 336

def buildIasReportReqBody (msg3 : Bytes) (nonce : String) : IasReportReqBody :=
  let secPropDesc := (msg3.drop 80).take 256
  { isvEnclaveQuote := msg3.drop msg3Size
    nonce
    pseManifest := if secPropDesc = List.replicate 256 0 then none else some secPropDesc }

/-- `VerifyAndReduceReportSet` on the set of the object, which keeps what was done to it before a
    throw. -/
def verifyAndReduceReportSet (faults : Faults) (quoteVerifier : EpidQuoteVerifier) (nonce : String) :
    Exec Thrown IasReportSet Unit := do
  check faults .shrinkCertChain
  let reportSet ← .get
  let certChain ← .ofExcept (env.x509CertFromDerList reportSet.iasCert)
  let rootCa ← .ofExcept env.getRootCaCert
  -- the list is cleared before it is filled again
  .modify fun reportSet => { reportSet with iasCert := [] }
  let derList ← .ofExcept (env.x509Cert2DerList (env.shrinkChain rootCa certChain))
  .modify fun reportSet => { reportSet with iasCert := derList }
  check faults .parseCerts
  let certChain ← .ofExcept (env.x509CertFromDerList derList)
  let _ ← .ofExcept (env.verifyCert certChain)
  check faults .verifySign
  let reportSet ← .get
  .ofExcept (env.verifySign reportSet certChain)
  check faults .parseReport
  .ofExcept (env.verifyContents reportSet.report quoteVerifier (some nonce))

def stringKey (text : String) : HashableObject := .string (text.toList.flatMap String.utf8EncodeChar)

/-- `WriterGeneric::Write` of a report set: its values in turn. -/
def writeReportSet (reportSet : IasReportSet) : Bytes :=
  SimpleRlp.writeRlp (.list [.list (reportSet.iasCert.map .bytes), .bytes reportSet.report,
    .bytes reportSet.reportSign])

def msg4Body (vrfyRes : Bool) (reportSet : IasReportSet) : Object :=
  .dict [(stringKey "VerifyResult", .hashable (.realNum (.ofBool vrfyRes))),
    (stringKey "ReportSet", .hashable (.bytes (writeReportSet reportSet)))]

def msg4Object (msgBody mac : Bytes) : Object :=
  .dict [(stringKey "MsgBody", .hashable (.bytes msgBody)), (stringKey "MAC", .hashable (.bytes mac))]

/-- `AdvancedRlp::GenericWriter::Write`. -/
def writeObject (obj : Object) : Except Thrown Bytes :=
  (AdvancedRlp.genericWriter obj).mapError fun _ => .library "AdvancedRlp"

def genMsg4 (faults : Faults) (vrfyRes : Bool) : Exec Thrown (Core KeyPair) Bytes := do
  let core ← .get
  check faults .writeMsgBody
  let msg4BodyBytes ← .ofExcept (writeObject (msg4Body vrfyRes core.iasReportSet))
  check faults .cmac
  check faults .writeMsg
  .ofExcept (writeObject (msg4Object msg4BodyBytes (lib.cmac core.sk msg4BodyBytes)))

/-- The verification with its result; only exceptions of this code base are caught. -/
def tryVerify (faults : Faults) : Exec Thrown (Core KeyPair) Bool := fun core =>
  match Exec.zoom Core.iasReportSet (fun reportSet core => { core with iasReportSet := reportSet })
      (verifyAndReduceReportSet env faults core.epidQuoteVrfy core.nonce) core with
  | .ok _ after => .ok true after
  | .throws (.exception _) after => .ok false after
  | .throws error after => .throws error after
  | .undefined => .undefined

/-- The report set is what the IAS answers to the request. -/
def getMsg4 (faults : Faults) (msg3 : Bytes) (getReport : IasReportReqBody → IasReportSet) :
    Exec Thrown (Core KeyPair) Bytes := do
  .throwIf (msg3.length < msg3Size)
    (.exception ("msg3 is too short (size = " ++ toString msg3.length ++ ")"))
  check faults .buildReqBody
  let core ← .get
  let iasReqBody := buildIasReportReqBody msg3 core.nonce
  check faults .getReport
  -- the set of an earlier message 3 is gone before this one is verified
  .modify fun core => { core with iasReportSet := getReport iasReqBody }
  let vrfySucc ← tryVerify env faults
  let msg4 ← genMsg4 lib faults vrfySucc
  .modify fun core => { core with handshakeState := if vrfySucc then .handshakeDone else .handshakeRefused }
  pure msg4

/-! ## Runs -/

inductive Call where
  | getMsg0r (faults : Faults) (extendedGrpId : UInt32)
  | getMsg2 (faults : Faults) (msg1 : Msg1) (signGbGa : Bytes × Bytes) (sigrlB64 : String)
  | getMsg4 (faults : Faults) (msg3 : Bytes) (getReport : IasReportReqBody → IasReportSet)

/-- The call ends in a state, whether it returns or throws. -/
def Step (before : Core KeyPair) (call : Call) (after : Core KeyPair) : Prop :=
  match call with
  | .getMsg0r faults extendedGrpId => (getMsg0r faults extendedGrpId).Ends before after
  | .getMsg2 faults msg1 signGbGa sigrlB64 =>
    (getMsg2 lib env faults msg1 signGbGa sigrlB64).Ends before after
  | .getMsg4 faults msg3 getReport => (getMsg4 lib env faults msg3 getReport).Ends before after

end EpidRaSvcProv

end Decentagram.DecentEnclave
