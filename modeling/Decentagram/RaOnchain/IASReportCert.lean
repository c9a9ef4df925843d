import Decentagram.RaOnchain.BytesMemory
import Decentagram.RaOnchain.X509Timestamp

/-! # The certificates of the attestation service

What the two contracts check before they keep a key: the root certificate that is deployed, and the
report certificates that it signs.  The hash functions and `ecrecover` are those of the machine.
-/

namespace Decentagram.RaOnchain

open Decentagram.Lib Asn1Decode BytesUtils WordMemory

abbrev Address := BitVec 160

structure Machine where
  keccak256 : Bytes → Bytes32
  sha256 : Bytes → Bytes32
  /-- The zero address if nothing is recovered. -/
  ecrecover : Bytes32 → Nat → Bytes32 → Bytes32 → Address

/-- What a transaction is given: the time of its block, the rounds that its gas pays for, and what memory
    holds behind and before the strings it works on. -/
structure Block where
  timestamp : Nat
  gas : Nat
  memory : Memory
  free : Nat

namespace OIDs

def algRsaSha256 : Bytes32 := 0x2a864886f70d01010b#256 <<< 184
def algEcdsaSha256 : Bytes32 := 0x2A8648CE3D040302#256 <<< 192
def keyEcPublic : Bytes32 := 0x2A8648CE3D0201#256 <<< 200
def keyEcSecp256k1 : Bytes32 := 0x2B8104000A#256 <<< 216

/-- The objects of Decent, below their root of 20 bytes. -/
def decent (last : Bytes) : Bytes32 :=
  BitVec.ofNat 256 (BigEndian.value
    ([0x69, 0x82, 0xf5, 0xc8, 0x9a, 0x94, 0xff, 0xdf, 0xaa, 0xab, 0x85, 0x91, 0xc1, 0xb5, 0xf7, 0xc2,
      0xf7, 0x82, 0xb0, 0x1e] ++ last ++ List.replicate (12 - last.length) 0))

def decentExtVer : Bytes32 := decent [0x01]
def decentPlatformId : Bytes32 := decent [0x02]
def decentHashedKeys : Bytes32 := decent [0x04]
def decentAppHash : Bytes32 := decent [0x05]
def decentAuthList : Bytes32 := decent [0x06]
def decentStdRepData : Bytes32 := decent [0x03, 0x01, 0x01]
def decentAttestation : Bytes32 := decent [0x03, 0x01, 0x02]

end OIDs

/-- The bytes of an ASCII text. -/
def ascii (text : String) : Bytes := text.toList.map fun char => UInt8.ofNat char.toNat

def iasRootCertCN : Bytes := ascii "Intel SGX Attestation Report Signing CA"

namespace Asn1Decode

def allBytesAt (der : Bytes) (ptr : Nat) : Except Revert Bytes := do
  let len ← sub (← add (NodePtr.ixl ptr) 1) (NodePtr.ixs ptr)
  substringUnsafe der (NodePtr.ixs ptr) len

def rootOfBitStringAt (der : Bytes) (ptr : Nat) : Except Revert Nat := do
  require ((← byteAt der (NodePtr.ixs ptr)) = 0x03) "Not type BIT STRING"
  readNodeLength der (← add (NodePtr.ixf ptr) 1)

end Asn1Decode

/-- The precompiled contract: `(base ^ exponent) % modulus`, as long as the modulus. -/
def modexp (base exponent modulus : Bytes) : Bytes :=
  let value :=
    if BigEndian.value modulus = 0 then 0
    else BigEndian.value base ^ BigEndian.value exponent % BigEndian.value modulus
  BigEndian.digits modulus.length value

namespace LibRsaSha256

def rsaEncryption : Bytes32 := 0x3be606946d6f343b24d5ecdbd7e3370a5303ed54845f50f466a35f3bbeb46a45

/-- Only the last 32 bytes of what the signature recovers to are looked at. -/
def verifyWithComponents (modulus exponent : Bytes) (hash : Bytes32) (sig : Bytes) :
    Except Revert Bool := do
  let expHash := modexp sig exponent modulus
  require (expHash.length ≥ 32) "Invalid signature"
  return hash = (← readBytes32 expHash (expHash.length - 32))

def extractKeyComponents (machine : Machine) (key : Bytes) : Except Revert (Bytes × Bytes) := do
  let node ← firstChildOf key (← root key)
  let oid := machine.keccak256 (← bytesAt key (← firstChildOf key node))
  require (oid = rsaEncryption) "Invalid key"
  let node ← nextSiblingOf key node
  let node ← rootOfBitStringAt key node
  let node ← firstChildOf key node
  let modulus ← uintBytesAt key node
  let node ← nextSiblingOf key node
  let exponent ← uintBytesAt key node
  return (modulus, exponent)

end LibRsaSha256

/-- `require` in code with a state. -/
def check {σ : Type} (condition : Prop) [Decidable condition] (text : String) : Exec Halt σ Unit :=
  Exec.throwIf (¬ condition) (.reverted (.reason text))

namespace X509Name

/-- The common name of a name. -/
def getCN (certDer : Bytes) (nameNode endNode gas : Nat) : Reader Bytes := do
  let name ← loadName certDer nameNode endNode (fun field => field = .cn) (fun _ => []) gas
  return name .cn

end X509Name

namespace IASRootCert

structure IASRootCertObj where
  isVerified : Bool
  pubKeyMod : Bytes
  pubKeyExp : Bytes
  notAfter : Nat
deriving DecidableEq, Repr

/-- A root certificate is signed with its own key. -/
def loadCert (machine : Machine) (block : Block) (certDer : Bytes) : Reader IASRootCertObj := do
  let certNodes ← loadCertNodes certDer
  let algType ← read (bytes32At certDer (← read (firstChildOf certDer certNodes.tbs.algTypeNode)))
  check (algType = OIDs.algRsaSha256) "alg type not match"
  let algType ← read (bytes32At certDer (← read (firstChildOf certDer certNodes.algTypeNode)))
  check (algType = OIDs.algRsaSha256) "alg type not match"
  let comName ← X509Name.getCN certDer certNodes.tbs.issuerNode certNodes.tbs.validityNode block.gas
  check (machine.keccak256 comName = machine.keccak256 iasRootCertCN) "issuer CN not match"
  let comName ← X509Name.getCN certDer certNodes.tbs.subjectNode certNodes.tbs.pubKeyNode block.gas
  check (machine.keccak256 comName = machine.keccak256 iasRootCertCN) "subject CN not match"
  let (notBefore, notAfter) ←
    read (X509Timestamp.getValidityTimestamps certDer certNodes.tbs.validityNode)
  check (notBefore ≤ block.timestamp) "cert not valid yet"
  check (block.timestamp < notAfter) "cert expired"
  let pubKeyDer ← read (allBytesAt certDer certNodes.tbs.pubKeyNode)
  let (pubKeyMod, pubKeyExp) ← read (LibRsaSha256.extractKeyComponents machine pubKeyDer)
  let sigValue ← read (bitstringAt certDer certNodes.sigNode)
  let tbsBytes ← read (allBytesAt certDer certNodes.tbs.root)
  let isVerified ←
    read (LibRsaSha256.verifyWithComponents pubKeyMod pubKeyExp (machine.sha256 tbsBytes) sigValue)
  check (isVerified = true) "invalid signature"
  return { isVerified, pubKeyMod, pubKeyExp, notAfter }

end IASRootCert

namespace IASReportCert

structure IASReportCertObj where
  isVerified : Bool
  keyId : Bytes32
  pubKeyMod : Bytes
  pubKeyExp : Bytes
  notAfter : Nat
deriving DecidableEq, Repr

/-- The nodes are those that were loaded before. -/
def extractReportKeyIdFromCert (machine : Machine) (certDer : Bytes) : Reader Bytes32 := do
  let certNodes ← loadCertNodes certDer
  let pubKeyDer ← read (allBytesAt certDer certNodes.tbs.pubKeyNode)
  return machine.keccak256 pubKeyDer

def loadCert (machine : Machine) (block : Block) (certNodes : CertNodesObj)
    (certDer caKeyMod caKeyExp : Bytes) :
    Reader IASReportCertObj := do
  let algType ← read (bytes32At certDer (← read (firstChildOf certDer certNodes.algTypeNode)))
  check (algType = OIDs.algRsaSha256) "alg type not match"
  let comName ← X509Name.getCN certDer certNodes.tbs.issuerNode certNodes.tbs.validityNode block.gas
  check (machine.keccak256 comName = machine.keccak256 iasRootCertCN) "issuer CN not match"
  let (notBefore, notAfter) ←
    read (X509Timestamp.getValidityTimestamps certDer certNodes.tbs.validityNode)
  check (notBefore ≤ block.timestamp) "cert not valid yet"
  check (block.timestamp < notAfter) "cert expired"
  let pubKeyDer ← read (allBytesAt certDer certNodes.tbs.pubKeyNode)
  let keyId := machine.keccak256 pubKeyDer
  let (pubKeyMod, pubKeyExp) ← read (LibRsaSha256.extractKeyComponents machine pubKeyDer)
  let sigValue ← read (bitstringAt certDer certNodes.sigNode)
  let tbsHash := machine.sha256 (← read (allBytesAt certDer certNodes.tbs.root))
  let isVerified ← read (LibRsaSha256.verifyWithComponents caKeyMod caKeyExp tbsHash sigValue)
  check (isVerified = true) "invalid signature"
  return { isVerified, keyId, pubKeyMod, pubKeyExp, notAfter }

end IASReportCert

/-! ## What was checked -/

/-- The parts of a certificate that a key is kept for, at the nodes that were given: `signer` is the key
    whose signature of `tbsCertificate` was verified. -/
structure Checked (machine : Machine) (block : Block) (certDer : Bytes) (certNodes : CertNodesObj)
    (signer : Bytes × Bytes) (pubKeyDer : Bytes) (key : Bytes × Bytes) (notAfter : Nat) : Prop where
  algorithm : ∃ algorithmNode, firstChildOf certDer certNodes.algTypeNode = .ok algorithmNode ∧
    bytes32At certDer algorithmNode = .ok OIDs.algRsaSha256
  issuer : ∃ comName log log', X509Name.getCN certDer certNodes.tbs.issuerNode certNodes.tbs.validityNode
    block.gas log = .ok comName log' ∧ machine.keccak256 comName = machine.keccak256 iasRootCertCN
  validity : ∃ notBefore, X509Timestamp.getValidityTimestamps certDer certNodes.tbs.validityNode =
    .ok (notBefore, notAfter) ∧ notBefore ≤ block.timestamp ∧ block.timestamp < notAfter
  isKey : allBytesAt certDer certNodes.tbs.pubKeyNode = .ok pubKeyDer
  components : LibRsaSha256.extractKeyComponents machine pubKeyDer = .ok key
  signed : ∃ sigValue tbsBytes, bitstringAt certDer certNodes.sigNode = .ok sigValue ∧
    allBytesAt certDer certNodes.tbs.root = .ok tbsBytes ∧
    LibRsaSha256.verifyWithComponents signer.1 signer.2 (machine.sha256 tbsBytes) sigValue = .ok true

variable {machine : Machine} {block : Block} {certDer : Bytes}

section Rules

variable {σ : Type} {state : σ} {raises : Halt → σ → Prop}

@[simp] theorem sat_check (condition : Prop) [Decidable condition] (text : String)
    (returns : Unit → σ → Prop) :
    Exec.Sat (check condition text) state returns raises ↔
      (¬ condition → raises (.reverted (.reason text)) state) ∧ (condition → returns () state) := by
  simp [check]

end Rules

/-- A report certificate that is returned was checked with the key of its issuer. -/
theorem IASReportCert.loadCert_sat (certNodes : CertNodesObj) (caKeyMod caKeyExp : Bytes)
    (log : List SiblingStep) :
    Exec.Sat (loadCert machine block certNodes certDer caKeyMod caKeyExp) log
      (fun cert _ => cert.isVerified = true ∧ ∃ pubKeyDer, cert.keyId = machine.keccak256 pubKeyDer ∧
        Checked machine block certDer certNodes (caKeyMod, caKeyExp) pubKeyDer
          (cert.pubKeyMod, cert.pubKeyExp) cert.notAfter)
      fun _ _ => True := by
  simp only [loadCert, Exec.sat_bind, sat_read, sat_check, implies_true, and_true, true_and, Exec.sat_pure]
  intro algorithmNode isAlgorithmNode algType isAlgType isAlgorithm
  refine (Exec.sat_self _ _).mono (fun comName log' named isIssuer => ?_) fun _ _ _ => trivial
  rintro ⟨notBefore, notAfter⟩ isValidity begun unexpired pubKeyDer isKey ⟨pubKeyMod, pubKeyExp⟩ isComponents
  intro sigValue isSig tbsBytes isTbs isVerified verified accepted
  subst accepted isAlgorithm
  exact ⟨rfl, pubKeyDer, rfl, {
    algorithm := ⟨algorithmNode, isAlgorithmNode, isAlgType⟩
    issuer := ⟨comName, _, log', named, isIssuer⟩
    validity := ⟨notBefore, isValidity, begun, unexpired⟩
    isKey
    components := isComponents
    signed := ⟨sigValue, tbsBytes, isSig, isTbs, verified⟩ }⟩

/-- A root certificate that is returned was checked with its own key. -/
theorem IASRootCert.loadCert_sat (log : List SiblingStep) :
    Exec.Sat (loadCert machine block certDer) log
      (fun cert _ => cert.isVerified = true ∧ ∃ certNodes log' pubKeyDer,
        loadCertNodes certDer log = .ok certNodes log' ∧
        Checked machine block certDer certNodes (cert.pubKeyMod, cert.pubKeyExp) pubKeyDer
          (cert.pubKeyMod, cert.pubKeyExp) cert.notAfter)
      fun _ _ => True := by
  simp only [loadCert, Exec.sat_bind, sat_read, sat_check, implies_true, and_true, true_and, Exec.sat_pure]
  refine (Exec.sat_self _ _).mono (fun certNodes log' loaded => ?_) fun _ _ _ => trivial
  intro _ _ _ _ _ algorithmNode isAlgorithmNode algType isAlgType isAlgorithm
  refine (Exec.sat_self _ _).mono (fun comName log1 named isIssuer => ?_) fun _ _ _ => trivial
  refine (Exec.sat_self _ _).mono (fun subject log2 _ _ => ?_) fun _ _ _ => trivial
  rintro ⟨notBefore, notAfter⟩ isValidity begun unexpired pubKeyDer isKey ⟨pubKeyMod, pubKeyExp⟩ isComponents
  intro sigValue isSig tbsBytes isTbs isVerified verified accepted
  subst accepted isAlgorithm
  exact ⟨rfl, certNodes, log', pubKeyDer, loaded, {
    algorithm := ⟨algorithmNode, isAlgorithmNode, isAlgType⟩
    issuer := ⟨comName, _, log1, named, isIssuer⟩
    validity := ⟨notBefore, isValidity, begun, unexpired⟩
    isKey
    components := isComponents
    signed := ⟨sigValue, tbsBytes, isSig, isTbs, verified⟩ }⟩

end Decentagram.RaOnchain
