import Decentagram.RaOnchain.Base64
import Decentagram.RaOnchain.DecentServerCert
import Decentagram.RaOnchain.IASReportCert
import Decentagram.RaOnchain.LibSecp256k1Sha256
import Decentagram.RaOnchain.RLPReader

/-! # The registries of certificates

`IASReportCertMgr` keeps the keys that may sign reports, and `DecentServerCertMgr` the servers that a
report attests.  Both take the nodes of a certificate from their caller as well.  They are deployed one on
top of the other, over the root certificate, so one state has all three.
-/

namespace Decentagram.RaOnchain

open Decentagram.Lib Asn1Decode BytesUtils WordMemory
open IASRootCert (IASRootCertObj)
open IASReportCert (IASReportCertObj)

/-! ## Strings that are passed to code on memory -/

/-- Memory in which the string was put behind what is in use. -/
def Block.holding (block : Block) (bytes : Bytes) : Memory :=
  storeBytes (newBytes block.memory block.free bytes.length) (block.free + 32) bytes

/-- The free memory pointer behind the string. -/
def Block.freeBehind (block : Block) (bytes : Bytes) : Nat :=
  block.free + 32 + (bytes.length + 31) / 32 * 32

/-- The string that a function on memory returns. -/
def contents (returned : Memory × Nat) : Bytes :=
  bytesAt returned.1 (returned.2 + 32) (load returned.1 returned.2)

def decodeBase64 (block : Block) (text : Bytes) : Except Revert Bytes := do
  return contents (← Base64.decode (block.holding text) (block.freeBehind text) block.free)

/-- `item[i]`. -/
def itemOf (items : List RLPReader.RLPItem) (i : Nat) : Except Revert RLPReader.RLPItem :=
  match items[i]? with
  | some item => .ok item
  | none => .error .panic

namespace BytesUtils

/-- The same code as for strings. -/
def substringFast (self : Bytes) (offset len : Nat) : Except Revert Bytes := substrstringFast self offset len

/-- The string is looked at in words. -/
def contains (self : Bytes) (target : Bytes32) : Except Revert Bool := do
  require (self.length % 32 = 0) "Invalid length"
  return (List.range (self.length / 32)).any fun i =>
    BitVec.ofNat 256 (BigEndian.value (slice self (32 * i) 32)) = target

end BytesUtils

/-- The 32 bytes of a word. -/
def wordBytes (word : Bytes32) : Bytes := BigEndian.digits 32 word.toNat

namespace LibSecp256k1Sha256

def extractPubKeyAlg (pubKeyNode : Nat) (certDer : Bytes) : Except Revert (Bytes32 × Bytes32) := do
  let algNode ← firstChildOf certDer pubKeyNode
  let keyIdNode ← firstChildOf certDer algNode
  let curveIdNode ← nextSiblingOf certDer keyIdNode
  let keyId ← bytes32At certDer keyIdNode
  let curveId ← bytes32At certDer curveIdNode
  return (keyId, curveId)

/-- The coordinates of a point in uncompressed format. -/
def extractPubKeyBytes (pubKeyNode : Nat) (certDer : Bytes) : Except Revert Bytes := do
  let pubKeyNode ← nextSiblingOf certDer (← firstChildOf certDer pubKeyNode)
  let pubKeyBytes ← bitstringAt certDer pubKeyNode
  require (pubKeyBytes.length = 65 ∧ pubKeyBytes[0]? = some 0x04) "pkey isn't uncompressed format"
  substringFast pubKeyBytes 1 (pubKeyBytes.length - 1)

def pubKeyBytesToAddr (machine : Machine) (pubKeyBytes : Bytes) : Except Revert Address := do
  require (pubKeyBytes.length = 64) "len(pkey)!=64"
  return (machine.keccak256 pubKeyBytes).setWidth 160

/-- Either parity of the point may recover the signer. -/
def verifySignHash (machine : Machine) (signerAddr : Address) (msgHash r s : Bytes32) : Bool :=
  machine.ecrecover msgHash 27 r s = signerAddr || machine.ecrecover msgHash 28 r s = signerAddr

def verifySignMsg (machine : Machine) (signerAddr : Address) (msgBytes : Bytes) (r s : Bytes32) : Bool :=
  verifySignHash machine signerAddr (machine.sha256 msgBytes) r s

end LibSecp256k1Sha256

/-! ## The state -/

structure DecentServerCertObj where
  isVerified : Bool
  serverKeyAddr : Address
  enclaveHash : Bytes32
deriving DecidableEq, Repr

structure Registries where
  rootCert : IASRootCertObj
  reportCerts : Bytes32 → IASReportCertObj
  serverCerts : Address → DecentServerCertObj

abbrev Contract := Exec Halt Registries

def attempt {σ α : Type} (result : Except Revert α) : Exec Halt σ α :=
  Exec.ofExcept (result.mapError Halt.reverted)

/-- Code that reads a certificate does not see the state. -/
def reading {σ α : Type} (reader : Reader α) : Exec Halt σ α := fun state =>
  match reader [] with
  | .ok value _ => .ok value state
  | .throws error _ => .throws error state
  | .undefined => .undefined

/-! ## `IASRootCertMgr` -/

namespace IASRootCertMgr

def requireValidity (block : Block) : Contract Unit := do
  check (block.timestamp < (← Exec.get).rootCert.notAfter) "IAS root expired"

def getPubKey : Contract (Bytes × Bytes) := do
  let rootCert := (← Exec.get).rootCert
  return (rootCert.pubKeyMod, rootCert.pubKeyExp)

end IASRootCertMgr

/-! ## `IASReportCertMgr` -/

namespace IASReportCertMgr

def verifyCertWithNodes (machine : Machine) (block : Block) (certNodes : CertNodesObj) (certDer : Bytes) :
    Contract Unit := do
  IASRootCertMgr.requireValidity block
  let (rootPubKeyMod, rootPubKeyExp) ← IASRootCertMgr.getPubKey
  let cert ← reading
    (IASReportCert.loadCert machine block certNodes certDer rootPubKeyMod rootPubKeyExp)
  Exec.modify fun registries =>
    { registries with reportCerts := Function.update registries.reportCerts cert.keyId cert }

def verifyCert (machine : Machine) (block : Block) (certDer : Bytes) : Contract Unit := do
  let certNodes ← reading (loadCertNodes certDer)
  verifyCertWithNodes machine block certNodes certDer

/-- Whether the certificate was verified, and whether it has not expired. -/
def isCertVerified (block : Block) (reportKeyId : Bytes32) : Contract (Bool × Bool) := do
  let cert := (← Exec.get).reportCerts reportKeyId
  return if cert.isVerified then (true, block.timestamp < cert.notAfter) else (false, false)

def getPubKey (block : Block) (reportKeyId : Bytes32) : Contract (Bytes × Bytes) := do
  let cert := (← Exec.get).reportCerts reportKeyId
  check (cert.isVerified = true) "report cert not verified"
  check (block.timestamp < cert.notAfter) "report cert expired"
  return (cert.pubKeyMod, cert.pubKeyExp)

def verifySign (block : Block) (reportKeyId repHash : Bytes32) (signature : Bytes) : Contract Bool := do
  let (pubKeyMod, pubKeyExp) ← getPubKey block reportKeyId
  attempt (LibRsaSha256.verifyWithComponents pubKeyMod pubKeyExp repHash signature)

end IASReportCertMgr

/-! ## `DecentServerCert` -/

/-- The entries that are looked for, before they are found. -/
def neededEntries (ids : List Bytes32) : List ExtEntry :=
  ids.map fun extnID => { isParsed := false, extnID, isCritical := false, extnValue := [] }

def entryAt (entries : List ExtEntry) (i : Nat) : ExtEntry :=
  entries.getD i { isParsed := false, extnID := 0, isCritical := false, extnValue := [] }

namespace DecentServerCert

def epidQuoteEnclHashPos : Nat := 112
def epidQuoteRepDataPos : Nat := 368

/-- The statuses for which the contract is deployed. -/
def quoteStatuses : List Bytes :=
  [ascii "OK", ascii "GROUP_OUT_OF_DATE", ascii "CONFIGURATION_NEEDED", ascii "SW_HARDENING_NEEDED",
    ascii "CONFIGURATION_AND_SW_HARDENING_NEEDED"]

def quoteStatusMap (machine : Machine) (hash : Bytes32) : Bool :=
  quoteStatuses.any fun status => machine.keccak256 status = hash

def verifyEPIDReportCert (machine : Machine) (block : Block) (repCertDer : Bytes) : Contract Bytes32 := do
  let certNodes ← reading (loadCertNodes repCertDer)
  let repKeyId ← reading (IASReportCert.extractReportKeyIdFromCert machine repCertDer)
  let (isVerified, isExpired) ← IASReportCertMgr.isCertVerified block repKeyId
  -- the second flag says that the certificate is not expired
  if ¬ isVerified ∨ ¬ isExpired then
    IASReportCertMgr.verifyCertWithNodes machine block certNodes repCertDer
  return repKeyId

/-- `sha256(abi.encodePacked(stdRepData.readBytes32(0), bytes32(0), sha256(keyRing)))`. -/
def expectedRepData (machine : Machine) (stdRepData keyRing : Bytes) : Except Revert Bytes32 := do
  return machine.sha256 (wordBytes (← readBytes32 stdRepData 0) ++ wordBytes 0 ++
    wordBytes (machine.sha256 keyRing))

def verifyEPIDAttestRep (machine : Machine) (block : Block) (stdRepData repJson keyRing : Bytes) :
    Except Revert Bytes32 := do
  let (valPos, valLen) ← jsonSimpleReadValPos repJson (ascii "\"isvEnclaveQuoteStatus\"")
  let quoteStatus ← substringFast repJson valPos valLen
  require (quoteStatusMap machine (machine.keccak256 quoteStatus) = true) "Invalid quote status"
  let (valPos, valLen) ← jsonSimpleReadValPos repJson (ascii "\"isvEnclaveQuoteBody\"")
  let quoteBody ← decodeBase64 block (← substrstringFast repJson valPos valLen)
  let enclaveHash ← readBytes32 quoteBody epidQuoteEnclHashPos
  let repData ← readBytes32 quoteBody epidQuoteRepDataPos
  require (repData = (← expectedRepData machine stdRepData keyRing)) "Invalid rep data"
  return enclaveHash

/-- The enclave hash that the report has. -/
def verifyEPIDAttestRepSet (machine : Machine) (block : Block) (stdRepData attestRepRlp keyRing : Bytes) :
    Contract Bytes32 := do
  let memory := block.holding attestRepRlp
  let free := block.freeBehind attestRepRlp
  let rep ← attempt (RLPReader.toList memory (RLPReader.toRlpItem memory block.free))
  let repCerts ← attempt (do RLPReader.toList memory (← itemOf rep 0))
  check (repCerts.length = 1) "multiple rep cert not supported"
  let repCertDer ← attempt (do return contents (← RLPReader.toBytes memory free (← itemOf repCerts 0)))
  let repKeyId ← verifyEPIDReportCert machine block repCertDer
  let repJson ← attempt (do return contents (← RLPReader.toBytes memory free (← itemOf rep 1)))
  let repSig ← attempt (do return contents (← RLPReader.toBytes memory free (← itemOf rep 2)))
  let signed ← IASReportCertMgr.verifySign block repKeyId (machine.sha256 repJson) repSig
  check (signed = true) "Invalid IAS report sign"
  attempt (verifyEPIDAttestRep machine block stdRepData repJson keyRing)

/-- The address of the key of a server. -/
def extractDecentServerKey (machine : Machine) (pubKeyNode : Nat) (certDer keyRing : Bytes) :
    Except Revert Address := do
  let pubKeyDer ← allBytesAt certDer pubKeyNode
  require ((← contains keyRing (machine.sha256 pubKeyDer)) = true) "Decent Svr Key not in keyRing"
  let (keyId, curveId) ← LibSecp256k1Sha256.extractPubKeyAlg pubKeyNode certDer
  require (keyId = OIDs.keyEcPublic) "Unsupported Key type"
  require (curveId = OIDs.keyEcSecp256k1) "Unsupported curve"
  LibSecp256k1Sha256.pubKeyBytesToAddr machine (← LibSecp256k1Sha256.extractPubKeyBytes pubKeyNode certDer)

/-- The version is `1`. -/
def IsVersion (entry : ExtEntry) : Prop := entry.isParsed = true ∧ entry.extnValue = [49]

instance (entry : ExtEntry) : Decidable (IsVersion entry) := inferInstanceAs (Decidable (_ ∧ _))

/-- The certificate's own signature is not checked. -/
def loadCert (machine : Machine) (block : Block) (certNodes : CertNodesObj) (certDer : Bytes) :
    Contract DecentServerCertObj := do
  let algType ← attempt (do bytes32At certDer (← firstChildOf certDer certNodes.algTypeNode))
  check (algType = OIDs.algEcdsaSha256) "alg type mismatch"
  let extEntries ← reading (extractNeededExtensions certDer certNodes.tbs.extNode certNodes.algTypeNode
    (neededEntries [OIDs.decentExtVer, OIDs.decentPlatformId, OIDs.decentHashedKeys,
      OIDs.decentStdRepData, OIDs.decentAttestation]) block.gas)
  check (IsVersion (entryAt extEntries 0)) "Unsupported Decent ver"
  check ((entryAt extEntries 1).isParsed = true) "Platform ID not found"
  check ((entryAt extEntries 2).isParsed = true) "keyRing not found"
  let keyRing := (entryAt extEntries 2).extnValue
  check (machine.keccak256 (entryAt extEntries 1).extnValue = machine.keccak256 (ascii "SGX_EPID"))
    "Unsupported platform"
  check ((entryAt extEntries 3).isParsed = true) "stdRepData not found"
  check ((entryAt extEntries 4).isParsed = true) "attestRep not found"
  let enclaveHash ← verifyEPIDAttestRepSet machine block (entryAt extEntries 3).extnValue
    (entryAt extEntries 4).extnValue keyRing
  let serverKeyAddr ← attempt (extractDecentServerKey machine certNodes.tbs.pubKeyNode certDer keyRing)
  return { isVerified := true, serverKeyAddr, enclaveHash }

end DecentServerCert

/-! ## `DecentServerCertMgr` -/

namespace DecentServerCertMgr

def verifyCertWithNodes (machine : Machine) (block : Block) (certNodes : CertNodesObj) (certDer : Bytes) :
    Contract Unit := do
  let cert ← DecentServerCert.loadCert machine block certNodes certDer
  Exec.modify fun registries =>
    { registries with serverCerts := Function.update registries.serverCerts cert.serverKeyAddr cert }

def verifyCert (machine : Machine) (block : Block) (certDer : Bytes) : Contract Unit := do
  let certNodes ← reading (loadCertNodes certDer)
  verifyCertWithNodes machine block certNodes certDer

/-- The enclave hash of a server, or zero. -/
def isDecentServer (registries : Registries) (svrKeyAddr : Address) : Bytes32 :=
  let cert := registries.serverCerts svrKeyAddr
  if cert.isVerified then cert.enclaveHash else 0

end DecentServerCertMgr

end Decentagram.RaOnchain
