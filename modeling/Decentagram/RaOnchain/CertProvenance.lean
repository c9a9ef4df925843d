import Decentagram.Lib.Run
import Decentagram.RaOnchain.CertRegistries

/-! # Where the records of the registries come from

Whatever transactions are sent, a record traces back to a transaction that showed a certificate for it, and
the record of a server further to a report and to the certificate of its key.  Nodes that a caller supplies
need not be those of the certificate.
-/

namespace Decentagram.RaOnchain

open Decentagram.Lib Asn1Decode BytesUtils
open IASRootCert (IASRootCertObj)
open IASReportCert (IASReportCertObj)

/-! ## Transactions -/

inductive Call where
  | verifyReportCert (certDer : Bytes)
  | verifyReportCertWithNodes (certNodes : CertNodesObj) (certDer : Bytes)
  | verifyServerCert (certDer : Bytes)
  | verifyServerCertWithNodes (certNodes : CertNodesObj) (certDer : Bytes)

structure Tx where
  block : Block
  call : Call

def Call.run (machine : Machine) (block : Block) : Call → Contract Unit
  | verifyReportCert certDer => IASReportCertMgr.verifyCert machine block certDer
  | verifyReportCertWithNodes certNodes certDer =>
    IASReportCertMgr.verifyCertWithNodes machine block certNodes certDer
  | verifyServerCert certDer => DecentServerCertMgr.verifyCert machine block certDer
  | verifyServerCertWithNodes certNodes certDer =>
    DecentServerCertMgr.verifyCertWithNodes machine block certNodes certDer

/-- A transaction that reverts is undone. -/
inductive Transacts (machine : Machine) : Registries → Tx → Registries → Prop where
  | returns {before after : Registries} {tx : Tx}
      (returned : tx.call.run machine tx.block before = .ok () after) : Transacts machine before tx after
  | reverts {before reverted : Registries} {tx : Tx} {error : Halt}
      (threw : tx.call.run machine tx.block before = .throws error reverted) :
      Transacts machine before tx before

def noReport : IASReportCertObj :=
  { isVerified := false, keyId := 0, pubKeyMod := [], pubKeyExp := [], notAfter := 0 }

def noServer : DecentServerCertObj := { isVerified := false, serverKeyAddr := 0, enclaveHash := 0 }

/-- The contracts as they are deployed over a root certificate. -/
def deployed (rootCert : IASRootCertObj) : Registries where
  rootCert
  reportCerts := fun _ => noReport
  serverCerts := fun _ => noServer

/-- The transaction returned, so what it did stays. -/
def Returns (machine : Machine) (before : Registries) (tx : Tx) (after : Registries) : Prop :=
  tx.call.run machine tx.block before = .ok () after

/-! ## What a call shows -/

/-- The nodes are those that are found in the certificate. -/
def NodesOf (certDer : Bytes) (certNodes : CertNodesObj) : Prop :=
  ∃ log, loadCertNodes certDer [] = .ok certNodes log

/-- The certificate of a server that a call is given, with the nodes it is read at: its own, or those that
    the caller supplies. -/
inductive ShowsServerCert : Call → CertNodesObj → Bytes → Prop where
  | found {certNodes : CertNodesObj} {certDer : Bytes} (isNodes : NodesOf certDer certNodes) :
      ShowsServerCert (.verifyServerCert certDer) certNodes certDer
  | supplied (certNodes : CertNodesObj) (certDer : Bytes) :
      ShowsServerCert (.verifyServerCertWithNodes certNodes certDer) certNodes certDer

/-- What the extensions of a server's certificate say of its keys. -/
structure Attestation where
  keyRing : Bytes
  stdRepData : Bytes
  attestRepRlp : Bytes

def serverEntries : List ExtEntry :=
  neededEntries [OIDs.decentExtVer, OIDs.decentPlatformId, OIDs.decentHashedKeys, OIDs.decentStdRepData,
    OIDs.decentAttestation]

/-- The attestation stands in the certificate, at the nodes it is read at. -/
structure HasAttestation (block : Block) (certNodes : CertNodesObj) (certDer : Bytes)
    (attestation : Attestation) : Prop where
  found : ∃ extEntries log, extractNeededExtensions certDer certNodes.tbs.extNode certNodes.algTypeNode
      serverEntries block.gas [] = .ok extEntries log ∧
    (∀ i ∈ [2, 3, 4], (entryAt extEntries i).isParsed = true) ∧
    attestation.keyRing = (entryAt extEntries 2).extnValue ∧
    attestation.stdRepData = (entryAt extEntries 3).extnValue ∧
    attestation.attestRepRlp = (entryAt extEntries 4).extnValue

/-- A report with the certificate of the key that signed it. -/
structure Report where
  certDer : Bytes
  json : Bytes
  sig : Bytes

/-- The bytes of an item of a list that was read from the string. -/
def bytesOfItem (block : Block) (encoding : Bytes) (items : List RLPReader.RLPItem) (i : Nat) :
    Except Revert Bytes := do
  return contents
    (← RLPReader.toBytes (block.holding encoding) (block.freeBehind encoding) (← itemOf items i))

/-- The string encodes the report, with its only certificate. -/
structure HasReport (block : Block) (attestRepRlp : Bytes) (report : Report) : Prop where
  parts : ∃ rep repCerts, RLPReader.toList (block.holding attestRepRlp)
      (RLPReader.toRlpItem (block.holding attestRepRlp) block.free) = .ok rep ∧
    (do RLPReader.toList (block.holding attestRepRlp) (← itemOf rep 0)) = .ok repCerts ∧
    repCerts.length = 1 ∧
    bytesOfItem block attestRepRlp repCerts 0 = .ok report.certDer ∧
    bytesOfItem block attestRepRlp rep 1 = .ok report.json ∧
    bytesOfItem block attestRepRlp rep 2 = .ok report.sig

/-- The report certificate that a call has looked at: the one it is given, or the one in the report that
    the certificate of a server holds. -/
inductive ShowsReportCert (block : Block) : Call → CertNodesObj → Bytes → Prop where
  | found {certNodes : CertNodesObj} {certDer : Bytes} (isNodes : NodesOf certDer certNodes) :
      ShowsReportCert block (.verifyReportCert certDer) certNodes certDer
  | supplied (certNodes : CertNodesObj) (certDer : Bytes) :
      ShowsReportCert block (.verifyReportCertWithNodes certNodes certDer) certNodes certDer
  | reported {call : Call} {svrCertNodes repCertNodes : CertNodesObj} {svrCertDer : Bytes}
      {attestation : Attestation} {report : Report} (given : ShowsServerCert call svrCertNodes svrCertDer)
      (attested : HasAttestation block svrCertNodes svrCertDer attestation)
      (reported : HasReport block attestation.attestRepRlp report)
      (isNodes : NodesOf report.certDer repCertNodes) :
      ShowsReportCert block call repCertNodes report.certDer

/-! ## Origins -/

/-- The transaction showed the certificate of a report key, signed with the root key, under a root
    certificate that had not expired. -/
structure ReportOrigin (machine : Machine) (rootCert : IASRootCertObj) (tx : Tx) (cert : IASReportCertObj) :
    Prop where
  rootUnexpired : tx.block.timestamp < rootCert.notAfter
  shown : ∃ certNodes certDer pubKeyDer, ShowsReportCert tx.block tx.call certNodes certDer ∧
    cert.keyId = machine.keccak256 pubKeyDer ∧
    Checked machine tx.block certDer certNodes (rootCert.pubKeyMod, rootCert.pubKeyExp) pubKeyDer
      (cert.pubKeyMod, cert.pubKeyExp) cert.notAfter

/-- The report attests the ring of keys and the enclave.  It is signed with a recorded key that had not
    expired, and the record is the one that its own certificate names. -/
structure Attests (machine : Machine) (block : Block) (attestation : Attestation) (report : Report)
    (repKeyId : Bytes32) (reportCert : IASReportCertObj) (enclaveHash : Bytes32) : Prop where
  unexpired : block.timestamp < reportCert.notAfter
  isKeyId : ∃ certNodes pubKeyDer, NodesOf report.certDer certNodes ∧
    allBytesAt report.certDer certNodes.tbs.pubKeyNode = .ok pubKeyDer ∧
    repKeyId = machine.keccak256 pubKeyDer
  signed : LibRsaSha256.verifyWithComponents reportCert.pubKeyMod reportCert.pubKeyExp
    (machine.sha256 report.json) report.sig = .ok true
  attests : DecentServerCert.verifyEPIDAttestRep machine block attestation.stdRepData report.json
    attestation.keyRing = .ok enclaveHash

/-- The transaction showed a certificate of the server, whose key is in the ring that is attested there. -/
structure ServerOrigin (machine : Machine) (tx : Tx) (reportCert : IASReportCertObj)
    (cert : DecentServerCertObj) : Prop where
  shown : ∃ certNodes certDer attestation report, ShowsServerCert tx.call certNodes certDer ∧
    HasAttestation tx.block certNodes certDer attestation ∧
    HasReport tx.block attestation.attestRepRlp report ∧
    Attests machine tx.block attestation report reportCert.keyId reportCert cert.enclaveHash ∧
    DecentServerCert.extractDecentServerKey machine certNodes.tbs.pubKeyNode certDer attestation.keyRing =
      .ok cert.serverKeyAddr

/-! ## What one call records -/

section Rules

variable {σ α : Type} {state : σ} {raises : Halt → σ → Prop}

@[simp] theorem sat_attempt (result : Except Revert α) (returns : α → σ → Prop) :
    Exec.Sat (attempt result) state returns raises ↔ (∀ value, result = .ok value → returns value state) ∧
      ∀ error, result = .error error → raises (.reverted error) state := by
  cases result <;> simp [attempt, Except.mapError]

@[simp] theorem sat_reading (reader : Reader α) (returns : α → σ → Prop) :
    Exec.Sat (reading reader) state returns raises ↔
      Exec.Sat reader [] (fun value _ => returns value state) (fun error _ => raises error state) := by
  unfold Exec.Sat reading
  cases reader [] <;> rfl

theorem read_eq_ok {result : Except Revert α} {log log' : List SiblingStep} {value : α} :
    read result log = .ok value log' ↔ result = .ok value ∧ log = log' := by
  cases result <;> simp [read, Except.mapError, Exec.ofExcept]

theorem check_eq_ok {condition : Prop} [Decidable condition] {text : String} {before after : σ} :
    check condition text before = .ok () after ↔ condition ∧ before = after := by
  by_cases holds : condition <;> simp [check, Exec.throwIf, holds]

theorem attempt_eq_ok {result : Except Revert α} {before after : σ} {value : α} :
    attempt result before = .ok value after ↔ result = .ok value ∧ before = after := by
  cases result <;> simp [attempt, Except.mapError, Exec.ofExcept]

theorem reading_eq_ok {reader : Reader α} {before after : σ} {value : α} :
    reading reader before = .ok value after ↔ (∃ log, reader [] = .ok value log) ∧ before = after := by
  unfold reading
  cases reader [] <;> simp

/-- What a reader returns is found by running it, whatever its log is. -/
instance [DecidableEq α] (reader : Reader α) (log : List SiblingStep) (value : α) :
    Decidable (∃ log', reader log = .ok value log') :=
  decidable_of_iff ((reader log).Returns fun found _ => found = value) <| by
    rw [Outcome.returns_iff]
    constructor
    · rintro ⟨_, log', isOk, rfl⟩
      exact ⟨log', isOk⟩
    · exact fun ⟨log', isOk⟩ => ⟨value, log', isOk, rfl⟩

instance (certDer : Bytes) (certNodes : CertNodesObj) : Decidable (NodesOf certDer certNodes) :=
  inferInstanceAs (Decidable (∃ log, loadCertNodes certDer [] = .ok certNodes log))

end Rules

variable {machine : Machine} {block : Block}

/-- What it takes to have a report certificate recorded. -/
theorem verifyCertWithNodes_eq_ok {certNodes : CertNodesObj} {certDer : Bytes}
    {before after : Registries} :
    IASReportCertMgr.verifyCertWithNodes machine block certNodes certDer before = .ok () after ↔
      block.timestamp < before.rootCert.notAfter ∧ ∃ cert log,
        IASReportCert.loadCert machine block certNodes certDer before.rootCert.pubKeyMod
          before.rootCert.pubKeyExp [] = .ok cert log ∧
        { before with reportCerts := Function.update before.reportCerts cert.keyId cert } = after := by
  simp only [IASReportCertMgr.verifyCertWithNodes, IASRootCertMgr.requireValidity, IASRootCertMgr.getPubKey,
    Exec.bind_eq_ok, Exec.get_apply, Exec.pure_apply, Exec.modify_apply, check_eq_ok, reading_eq_ok,
    exists_unit, Outcome.ok.injEq]
  constructor
  · rintro ⟨_, ⟨_, _, ⟨rfl, rfl⟩, unexpired, rfl⟩, _, _, ⟨_, _, ⟨rfl, rfl⟩, rfl, rfl⟩, cert, _,
      ⟨⟨log, loaded⟩, rfl⟩, -, rfl⟩
    exact ⟨unexpired, cert, log, loaded, rfl⟩
  · rintro ⟨unexpired, cert, log, loaded, rfl⟩
    exact ⟨_, ⟨_, _, ⟨rfl, rfl⟩, unexpired, rfl⟩, _, _, ⟨_, _, ⟨rfl, rfl⟩, rfl, rfl⟩, cert, _,
      ⟨⟨log, loaded⟩, rfl⟩, trivial, rfl⟩

/-- The records are those of before, or the one of this certificate is new. -/
inductive RecordsReport (machine : Machine) (block : Block) (certNodes : CertNodesObj) (certDer : Bytes)
    (before : Registries) : Registries → Prop where
  | same : RecordsReport machine block certNodes certDer before before
  | recorded {cert : IASReportCertObj} {pubKeyDer : Bytes} (verified : cert.isVerified = true)
      (rootUnexpired : block.timestamp < before.rootCert.notAfter)
      (isKeyId : cert.keyId = machine.keccak256 pubKeyDer)
      (checked : Checked machine block certDer certNodes
        (before.rootCert.pubKeyMod, before.rootCert.pubKeyExp) pubKeyDer (cert.pubKeyMod, cert.pubKeyExp)
        cert.notAfter) : RecordsReport machine block certNodes certDer before
        { before with reportCerts := Function.update before.reportCerts cert.keyId cert }

theorem reportCert_sat (certNodes : CertNodesObj) (certDer : Bytes) (before : Registries) :
    Exec.Sat (IASReportCertMgr.verifyCertWithNodes machine block certNodes certDer) before
      (fun _ after => RecordsReport machine block certNodes certDer before after) fun _ _ => True := by
  simp only [IASReportCertMgr.verifyCertWithNodes, IASRootCertMgr.requireValidity, IASRootCertMgr.getPubKey,
    Exec.sat_bind, Exec.sat_get, sat_check, Exec.sat_pure, sat_reading, Exec.sat_modify, implies_true,
    true_and]
  intro rootUnexpired
  refine (IASReportCert.loadCert_sat certNodes _ _ []).mono ?_ fun _ _ _ => trivial
  rintro cert _ ⟨verified, pubKeyDer, isKeyId, checked⟩
  exact .recorded verified rootUnexpired isKeyId checked

/-- The key id that is returned is that of the certificate, at its own nodes. -/
theorem verifyEPIDReportCert_sat (repCertDer : Bytes) (before : Registries) :
    Exec.Sat (DecentServerCert.verifyEPIDReportCert machine block repCertDer) before
      (fun repKeyId after => ∃ certNodes pubKeyDer, NodesOf repCertDer certNodes ∧
        allBytesAt repCertDer certNodes.tbs.pubKeyNode = .ok pubKeyDer ∧
        repKeyId = machine.keccak256 pubKeyDer ∧
        RecordsReport machine block certNodes repCertDer before after)
      fun _ _ => True := by
  simp only [DecentServerCert.verifyEPIDReportCert, IASReportCert.extractReportKeyIdFromCert, Exec.sat_bind,
    sat_reading, sat_read, Exec.sat_pure, implies_true, and_true]
  refine (Exec.sat_self _ _).mono (fun certNodes log loaded => ?_) fun _ _ _ => trivial
  refine (Exec.sat_self _ _).mono (fun certNodes' log' loaded' => ?_) fun _ _ _ => trivial
  -- the nodes are loaded twice
  rw [loaded] at loaded'
  cases loaded'
  intro pubKeyDer isKey
  simp only [IASReportCertMgr.isCertVerified, Exec.sat_bind, Exec.sat_get, Exec.sat_pure]
  rw [Exec.sat_ite]
  constructor
  · intro _
    rw [Exec.sat_bind]
    refine (reportCert_sat certNodes repCertDer before).mono ?_ fun _ _ _ => trivial
    exact fun _ _ recorded => ⟨certNodes, pubKeyDer, ⟨log, loaded⟩, isKey, rfl, recorded⟩
  · exact fun _ => ⟨certNodes, pubKeyDer, ⟨log, loaded⟩, isKey, rfl, .same⟩

theorem verifySign_sat (reportKeyId repHash : Bytes32) (signature : Bytes) (before : Registries) :
    Exec.Sat (IASReportCertMgr.verifySign block reportKeyId repHash signature) before
      (fun signed after => after = before ∧ (before.reportCerts reportKeyId).isVerified = true ∧
        block.timestamp < (before.reportCerts reportKeyId).notAfter ∧
        LibRsaSha256.verifyWithComponents (before.reportCerts reportKeyId).pubKeyMod
          (before.reportCerts reportKeyId).pubKeyExp repHash signature = .ok signed)
      fun _ _ => True := by
  simp only [IASReportCertMgr.verifySign, IASReportCertMgr.getPubKey, Exec.sat_bind, Exec.sat_get, sat_check,
    Exec.sat_pure, sat_attempt, implies_true, true_and, and_true]
  exact fun verified unexpired signed isSigned => ⟨verified, unexpired, isSigned⟩

/-- What an attestation shows: its report, of which the key may be recorded by the way. -/
structure ShowsReport (machine : Machine) (block : Block) (attestation : Attestation) (before : Registries)
    (enclaveHash : Bytes32) (after : Registries) : Prop where
  shown : ∃ report certNodes repKeyId, HasReport block attestation.attestRepRlp report ∧
    NodesOf report.certDer certNodes ∧
    RecordsReport machine block certNodes report.certDer before after ∧
    (after.reportCerts repKeyId).isVerified = true ∧
    Attests machine block attestation report repKeyId (after.reportCerts repKeyId) enclaveHash

theorem verifyEPIDAttestRepSet_sat (attestation : Attestation) (before : Registries) :
    Exec.Sat (DecentServerCert.verifyEPIDAttestRepSet machine block attestation.stdRepData
        attestation.attestRepRlp attestation.keyRing) before
      (fun enclaveHash after => ShowsReport machine block attestation before enclaveHash after)
      fun _ _ => True := by
  simp only [DecentServerCert.verifyEPIDAttestRepSet, Exec.sat_bind, sat_attempt, sat_check, implies_true,
    true_and, and_true]
  intro rep isRep repCerts isRepCerts single repCertDer isRepCert
  refine (verifyEPIDReportCert_sat repCertDer before).mono ?_ fun _ _ _ => trivial
  rintro repKeyId middle ⟨certNodes, pubKeyDer, isNodes, isKey, isKeyId, recorded⟩
  intro repJson isJson repSig isSig
  refine (verifySign_sat repKeyId _ repSig middle).mono ?_ fun _ _ _ => trivial
  rintro signed after ⟨rfl, verified, unexpired, isSigned⟩ accepted enclaveHash isHash
  subst accepted
  exact { shown := ⟨{ certDer := repCertDer, json := repJson, sig := repSig }, certNodes, repKeyId,
    { parts := ⟨rep, repCerts, isRep, isRepCerts, single, isRepCert, isJson, isSig⟩ }, isNodes, recorded,
    verified,
    { unexpired, isKeyId := ⟨certNodes, pubKeyDer, isNodes, isKey, isKeyId⟩, signed := isSigned,
      attests := isHash }⟩ }

/-- What the certificate of a server shows. -/
structure ShowsServer (machine : Machine) (block : Block) (certNodes : CertNodesObj) (certDer : Bytes)
    (before : Registries) (cert : DecentServerCertObj) (after : Registries) : Prop where
  verified : cert.isVerified = true
  shown : ∃ attestation, HasAttestation block certNodes certDer attestation ∧
    ShowsReport machine block attestation before cert.enclaveHash after ∧
    DecentServerCert.extractDecentServerKey machine certNodes.tbs.pubKeyNode certDer attestation.keyRing =
      .ok cert.serverKeyAddr

theorem loadServerCert_sat (certNodes : CertNodesObj) (certDer : Bytes) (before : Registries) :
    Exec.Sat (DecentServerCert.loadCert machine block certNodes certDer) before
      (fun cert after => ShowsServer machine block certNodes certDer before cert after)
      fun _ _ => True := by
  simp only [DecentServerCert.loadCert, Exec.sat_bind, sat_attempt, sat_check, sat_reading, Exec.sat_pure,
    implies_true, true_and, and_true]
  -- abstracted, or elaborating terms against the goal would run the contract
  have attested := @verifyEPIDAttestRepSet_sat machine block
  generalize DecentServerCert.verifyEPIDAttestRepSet machine block = verifyAttestRep at attested ⊢
  intro algType _ _
  refine (Exec.sat_self _ _).mono (fun extEntries log found => ?_) fun _ _ _ => trivial
  intro _ _ hasKeyRing _ hasStdRepData hasAttestRep
  let attestation : Attestation :=
    { keyRing := (entryAt extEntries 2).extnValue, stdRepData := (entryAt extEntries 3).extnValue
      attestRepRlp := (entryAt extEntries 4).extnValue }
  refine (attested attestation before).mono ?_ fun _ _ _ => trivial
  intro enclaveHash after showsReport serverKeyAddr extracted
  have allParsed : ∀ i ∈ [2, 3, 4], (entryAt extEntries i).isParsed = true := by
    simp [hasKeyRing, hasStdRepData, hasAttestRep]
  exact { verified := rfl
          shown := ⟨attestation, { found := ⟨extEntries, log, found, allParsed, rfl, rfl, rfl⟩ },
            showsReport, extracted⟩ }

/-- One server is recorded, behind the report. -/
inductive RecordsServer (machine : Machine) (block : Block) (certNodes : CertNodesObj) (certDer : Bytes)
    (before : Registries) : Registries → Prop where
  | recorded {middle : Registries} {cert : DecentServerCertObj}
      (showsServer : ShowsServer machine block certNodes certDer before cert middle) :
      RecordsServer machine block certNodes certDer before
        { middle with serverCerts := Function.update middle.serverCerts cert.serverKeyAddr cert }

theorem serverCert_sat (certNodes : CertNodesObj) (certDer : Bytes) (before : Registries) :
    Exec.Sat (DecentServerCertMgr.verifyCertWithNodes machine block certNodes certDer) before
      (fun _ after => RecordsServer machine block certNodes certDer before after) fun _ _ => True := by
  simp only [DecentServerCertMgr.verifyCertWithNodes, Exec.sat_bind, Exec.sat_modify]
  refine (loadServerCert_sat certNodes certDer before).mono ?_ fun _ _ _ => trivial
  exact fun _ _ showsServer => .recorded showsServer

/-- A call that finds the nodes itself runs as with these nodes. -/
theorem nodesOf_of_reading {next : CertNodesObj → Contract Unit} {certDer : Bytes}
    {before after : Registries}
    (returned : (do next (← reading (loadCertNodes certDer))) before = .ok () after) :
    ∃ certNodes, NodesOf certDer certNodes ∧ next certNodes before = .ok () after := by
  obtain ⟨certNodes, _, loaded, returned⟩ := Exec.bind_eq_ok.mp returned
  obtain ⟨isNodes, rfl⟩ := reading_eq_ok.mp loaded
  exact ⟨certNodes, isNodes, returned⟩

/-- What a transaction can do. -/
theorem transacts_cases {before after : Registries} {tx : Tx} (step : Transacts machine before tx after) :
    after = before ∨ Returns machine before tx after ∧
      ((∃ certNodes certDer, ShowsReportCert tx.block tx.call certNodes certDer ∧
          RecordsReport machine tx.block certNodes certDer before after) ∨
        ∃ certNodes certDer, ShowsServerCert tx.call certNodes certDer ∧
          RecordsServer machine tx.block certNodes certDer before after) := by
  cases step with
  | reverts _ => exact .inl rfl
  | returns returned =>
    refine .inr ⟨returned, ?_⟩
    obtain ⟨block, call⟩ := tx
    cases call with
    | verifyReportCert certDer =>
      obtain ⟨certNodes, isNodes, accepted⟩ := nodesOf_of_reading returned
      exact .inl ⟨certNodes, certDer, .found isNodes,
        (reportCert_sat certNodes certDer before).of_ok accepted⟩
    | verifyReportCertWithNodes certNodes certDer =>
      exact .inl ⟨certNodes, certDer, .supplied _ _,
        (reportCert_sat certNodes certDer before).of_ok returned⟩
    | verifyServerCert certDer =>
      obtain ⟨certNodes, isNodes, accepted⟩ := nodesOf_of_reading returned
      exact .inr ⟨certNodes, certDer, .found isNodes,
        (serverCert_sat certNodes certDer before).of_ok accepted⟩
    | verifyServerCertWithNodes certNodes certDer =>
      exact .inr ⟨certNodes, certDer, .supplied _ _,
        (serverCert_sat certNodes certDer before).of_ok returned⟩

/-! ## Runs -/

/-- The transactions of a run, oldest first, each with the state it found. -/
abbrev Transactions := List (Registries × Tx)

/-- One of the transactions recorded this, for a certificate that it showed. -/
def Vouched (machine : Machine) (rootCert : IASRootCertObj) (taken : Transactions)
    (cert : IASReportCertObj) : Prop :=
  ∃ entry ∈ taken, ∃ after, Returns machine entry.1 entry.2 after ∧
    after.reportCerts cert.keyId = cert ∧ ReportOrigin machine rootCert entry.2 cert

theorem Vouched.mono {rootCert : IASRootCertObj} {taken taken' : Transactions} {cert : IASReportCertObj}
    (vouched : Vouched machine rootCert taken cert) (subset : taken ⊆ taken') :
    Vouched machine rootCert taken' cert := by
  obtain ⟨entry, member, vouches⟩ := vouched
  exact ⟨entry, subset member, vouches⟩

/-- Every report key that is verified is recorded under its own name, and was vouched for. -/
structure ReportsVouched (machine : Machine) (rootCert : IASRootCertObj) (taken : Transactions)
    (registries : Registries) : Prop where
  rootKept : registries.rootCert = rootCert
  vouched : ∀ keyId, (registries.reportCerts keyId).isVerified = true →
    (registries.reportCerts keyId).keyId = keyId ∧
      Vouched machine rootCert taken (registries.reportCerts keyId)

/-- One of the transactions recorded this server, for a certificate that it showed.  The report there is
    signed with a key that had been vouched for by then. -/
def Attested (machine : Machine) (rootCert : IASRootCertObj) (taken : Transactions)
    (cert : DecentServerCertObj) : Prop :=
  ∃ earlier before tx later after, taken = earlier ++ (before, tx) :: later ∧
    Returns machine before tx after ∧ after.serverCerts cert.serverKeyAddr = cert ∧
    ∃ reportCert, Vouched machine rootCert (earlier ++ [(before, tx)]) reportCert ∧
      ServerOrigin machine tx reportCert cert

/-- Every server that is verified is recorded under its own key, and was attested. -/
def ServersAttested (machine : Machine) (rootCert : IASRootCertObj) (taken : Transactions)
    (registries : Registries) : Prop :=
  ∀ svrKeyAddr, (registries.serverCerts svrKeyAddr).isVerified = true →
    (registries.serverCerts svrKeyAddr).serverKeyAddr = svrKeyAddr ∧
      Attested machine rootCert taken (registries.serverCerts svrKeyAddr)

variable {rootCert : IASRootCertObj} {taken : Transactions} {before middle after : Registries} {tx : Tx}
  {certNodes : CertNodesObj} {certDer : Bytes}

theorem ReportsVouched.keep (vouched : ReportsVouched machine rootCert taken before) (tx : Tx) :
    ReportsVouched machine rootCert (taken ++ [(before, tx)]) before where
  rootKept := vouched.rootKept
  vouched := fun keyId verified =>
    (vouched.vouched keyId verified).imp_right fun byThen => byThen.mono (List.subset_append_left _ _)

theorem RecordsReport.keeps (recorded : RecordsReport machine block certNodes certDer before after) :
    after.rootCert = before.rootCert ∧ after.serverCerts = before.serverCerts := by
  cases recorded <;> exact ⟨rfl, rfl⟩

/-- A report key is recorded in a transaction that returns. -/
theorem ReportsVouched.step (vouched : ReportsVouched machine rootCert taken before)
    (returned : Returns machine before tx after)
    (isShown : ShowsReportCert tx.block tx.call certNodes certDer)
    (recorded : RecordsReport machine tx.block certNodes certDer before middle)
    (sameRoot : after.rootCert = middle.rootCert) (sameReports : after.reportCerts = middle.reportCerts) :
    ReportsVouched machine rootCert (taken ++ [(before, tx)]) after := by
  refine { rootKept := by rw [sameRoot, recorded.keeps.1, vouched.rootKept]
           vouched := fun keyId verified => ?_ }
  cases recorded with
  | same =>
    rw [sameReports] at verified ⊢
    exact (vouched.keep tx).vouched keyId verified
  | @recorded cert pubKeyDer isVerified rootUnexpired isKeyId checked =>
    dsimp only at sameReports
    by_cases isKey : keyId = cert.keyId
    · subst isKey
      have isRecord : after.reportCerts cert.keyId = cert := by rw [sameReports, Function.update_self]
      rw [vouched.rootKept] at rootUnexpired checked
      rw [isRecord]
      exact ⟨rfl, (before, tx), by simp, after, returned, isRecord,
        { rootUnexpired, shown := ⟨certNodes, certDer, pubKeyDer, isShown, isKeyId, checked⟩ }⟩
    · rw [sameReports, Function.update_of_ne isKey] at verified ⊢
      exact (vouched.keep tx).vouched keyId verified

/-- The servers stay attested while nothing is recorded for them. -/
theorem Attested.append {cert : DecentServerCertObj} (attested : Attested machine rootCert taken cert)
    (later : Transactions) : Attested machine rootCert (taken ++ later) cert := by
  obtain ⟨earlier, before, tx, later', after, rfl, origin⟩ := attested
  exact ⟨earlier, before, tx, later' ++ later, after, by simp, origin⟩

/-- What a transaction preserves. -/
theorem accounted_step (step : Transacts machine before tx after)
    (vouched : ReportsVouched machine rootCert taken before)
    (attested : ServersAttested machine rootCert taken before) :
    ReportsVouched machine rootCert (taken ++ [(before, tx)]) after ∧
      ServersAttested machine rootCert (taken ++ [(before, tx)]) after := by
  have attestedStill : ServersAttested machine rootCert (taken ++ [(before, tx)]) before :=
    fun svrKeyAddr verified => (attested svrKeyAddr verified).imp_right fun byThen => byThen.append _
  rcases transacts_cases step with rfl | ⟨returned, ⟨certNodes, certDer, isShown, recorded⟩ |
    ⟨certNodes, certDer, isShown, records⟩⟩
  · exact ⟨vouched.keep tx, attestedStill⟩
  · refine ⟨vouched.step returned isShown recorded rfl rfl, ?_⟩
    rw [ServersAttested, recorded.keeps.2]
    exact attestedStill
  · obtain @⟨middle, cert, showsServer⟩ := records
    obtain ⟨attestation, hasAttestation, showsReport, extracted⟩ := showsServer.shown
    obtain ⟨report, repCertNodes, repKeyId, hasReport, isNodes, recorded, reportVerified, attests⟩ :=
      showsReport.shown
    have vouchedThen := vouched.step returned (.reported isShown hasAttestation hasReport isNodes) recorded
      rfl rfl
    refine ⟨vouchedThen, fun svrKeyAddr isVerified => ?_⟩
    by_cases isKey : svrKeyAddr = cert.serverKeyAddr
    · subst isKey
      obtain ⟨isName, byThen⟩ := vouchedThen.vouched repKeyId reportVerified
      have origin : ServerOrigin machine tx (middle.reportCerts repKeyId) cert :=
        { shown := ⟨certNodes, certDer, attestation, report, isShown, hasAttestation, hasReport,
            by rw [show (middle.reportCerts repKeyId).keyId = repKeyId from isName]; exact attests,
            extracted⟩ }
      simp only [Function.update_self]
      exact ⟨trivial, taken, before, tx, [], _, rfl, returned, by simp, _, byThen, origin⟩
    · simp only [Function.update_of_ne isKey, recorded.keeps.2] at isVerified ⊢
      exact attestedStill svrKeyAddr isVerified

/-- Over every run both registries account for what they record. -/
theorem accounted_run {final : Registries}
    (run : Run (Transacts machine) (deployed rootCert) taken final) :
    ReportsVouched machine rootCert taken final ∧ ServersAttested machine rootCert taken final := by
  refine Run.invariant (fun _ _ => True)
    (fun taken state => ReportsVouched machine rootCert taken state ∧
      ServersAttested machine rootCert taken state) ?_ ?_ run fun _ _ => trivial
  · refine ⟨{ rootKept := rfl, vouched := fun keyId verified => ?_ }, fun svrKeyAddr verified => ?_⟩
    · simp [deployed, noReport] at verified
    · simp [deployed, noServer] at verified
  · exact fun _ _ _ _ held _ step => accounted_step step held.1 held.2

/-- A report key that is verified was recorded by a transaction of the run, for a certificate that it
    showed and the root key had signed. -/
theorem reportCerts_vouched {final : Registries} {keyId : Bytes32}
    (run : Run (Transacts machine) (deployed rootCert) taken final)
    (verified : (final.reportCerts keyId).isVerified = true) :
    (final.reportCerts keyId).keyId = keyId ∧ Vouched machine rootCert taken (final.reportCerts keyId) :=
  (accounted_run run).1.vouched keyId verified

def shownAlgorithm : Bytes :=
  derElement 0x30 (derElement 0x06 [0x2a, 0x86, 0x48, 0x86, 0xf7, 0x0d, 0x01, 0x01, 0x0b])

/-- From the year 2020 to the year 2030. -/
def shownValidity : Bytes :=
  derElement 0x30
    (derElement 0x17 [0x32, 0x30, 0x30, 0x31, 0x30, 0x31, 0x30, 0x30, 0x30, 0x30, 0x30, 0x30, 0x5a] ++
      derElement 0x17 [0x33, 0x30, 0x30, 0x31, 0x30, 0x31, 0x30, 0x30, 0x30, 0x30, 0x30, 0x30, 0x5a])

namespace Sample

open BigEndian NodePtr

/-! A root key and a report certificate that it signed, with small keys.  The hashes are those of the
functions; what the contracts do not hash here has none. -/

/-- An element of less than 65536 content bytes. -/
def derNode (tag : UInt8) (content : Bytes) : Bytes :=
  if content.length < 128 then derElement tag content
  else if content.length < 256 then tag :: 0x81 :: UInt8.ofNat content.length :: content
  else tag :: 0x82 :: (digits 2 content.length ++ content)

def nameOf (comName : Bytes) : Bytes :=
  derElement 0x30 (derElement 0x31 (derElement 0x30
    (derElement 0x06 [0x55, 0x04, 0x03] ++ derElement 0x0c comName)))

/-- The exponent is 3. -/
def rsaKey (modulus : Nat) : Bytes :=
  derElement 0x30
    (derElement 0x30 (derElement 0x06 (digits 9 0x2a864886f70d010101) ++ derElement 0x05 []) ++
      derElement 0x03 (0 :: derElement 0x30
        (derElement 0x02 (0 :: digits 32 modulus) ++ derElement 0x02 [0x03])))

def tbsOf (algorithm issuer subject pubKey extensions : Bytes) : Bytes :=
  derNode 0x30 (derElement 0xa0 (derElement 0x02 [0x02]) ++ derElement 0x02 [0x01] ++ algorithm ++
    nameOf issuer ++ shownValidity ++ nameOf subject ++ pubKey ++ derNode 0xa3 (derNode 0x30 extensions))

def certOf (tbs algorithm sigValue : Bytes) : Bytes :=
  derNode 0x30 (tbs ++ algorithm ++ derElement 0x03 (0 :: sigValue))

def nodesOf (root tbs serial algorithm issuer validity subject pubKey extensions algorithm' sig : Nat) :
    CertNodesObj where
  root
  tbs := {
    root := tbs
    version := 2
    serialNode := serial
    algTypeNode := algorithm
    issuerNode := issuer
    validityNode := validity
    subjectNode := subject
    pubKeyNode := pubKey
    extNode := extensions }
  algTypeNode := algorithm'
  sigNode := sig

def trustedRoot : IASRootCertObj where
  isVerified := true
  pubKeyMod := digits 32 0xda7b27cca04bbd5ec23a49a6f8d56ae9f8d9ea77e9a81edf0d2f1d941685d879
  pubKeyExp := [0x03]
  notAfter := 1893456000

def reportModulus : Nat := 0xd4ff906e2fc16c7ae66e2463076fcd0a149f74ae0b7cfe0481b7d189a942b469

def reportTbs : Bytes :=
  tbsOf shownAlgorithm iasRootCertCN (ascii "Report Signing") (rsaKey reportModulus) []

def reportCert : Bytes :=
  certOf reportTbs shownAlgorithm
    (digits 32 0x19a3fb59bd11b8c721a41916c913b87161e13a2c0e918efb2e8798a86023266a)

def reportNodes : CertNodesObj :=
  nodesOf (getPtr 0 3 249) (getPtr 3 6 201) (getPtr 11 13 13) (getPtr 14 16 26) (getPtr 27 29 78)
    (getPtr 79 81 110) (getPtr 111 113 137) (getPtr 138 140 197) (getPtr 198 200 201) (getPtr 202 204 214)
    (getPtr 215 217 249)

def reportKeyId : Bytes32 := 0xf0bb424144186e3b3491ab04dcdfd40d199452583e6dde5bf8c5f9d872871c7b#256

/-- A function by its values. -/
def hashOf (table : List (Bytes × Bytes32)) (bytes : Bytes) : Bytes32 := (table.lookup bytes).getD 0

def keccak256Table : List (Bytes × Bytes32) :=
  [(digits 9 0x2a864886f70d010101, 0x3be606946d6f343b24d5ecdbd7e3370a5303ed54845f50f466a35f3bbeb46a45#256),
    (iasRootCertCN, 0x399cde184d7ad2c90ce536fd00aba655556702220d7ef752da0746b7fe977c93#256),
    (rsaKey reportModulus, reportKeyId)]

def sha256Table : List (Bytes × Bytes32) :=
  [(reportTbs, 0x7f2c71cc86abb0df1285174c84c3f143e02647c5d248726f740d5974b9433ea2#256)]

def tableMachine : Machine where
  keccak256 := hashOf keccak256Table
  sha256 := hashOf sha256Table
  ecrecover := fun _ _ _ _ => 0

def thisBlock : Block := { timestamp := 1700000000, gas := 10, memory := fun _ => 0, free := 128 }

set_option maxRecDepth 3000 in
theorem nodesOf_reportCert : NodesOf reportCert reportNodes := by decide +kernel

set_option maxRecDepth 3000 in
/-- The registry takes the certificate. -/
theorem verifyCert_reportCert : ∃ after,
    IASReportCertMgr.verifyCert tableMachine thisBlock reportCert (deployed trustedRoot) = .ok () after ∧
      (after.reportCerts reportKeyId).isVerified = true := by
  have accepts : (IASReportCertMgr.verifyCertWithNodes tableMachine thisBlock reportNodes reportCert
      (deployed trustedRoot)).Returns fun _ after => (after.reportCerts reportKeyId).isVerified = true := by
    decide +kernel
  obtain ⟨_, after, accepted, verified⟩ := Outcome.returns_iff.mp accepts
  exact ⟨after, Exec.bind_eq_ok.mpr ⟨reportNodes, _, reading_eq_ok.mpr ⟨nodesOf_reportCert, rfl⟩, accepted⟩,
    verified⟩

end Sample

/-- A run that records the report key. -/
theorem reportCerts_vouched_reportCert : ∃ taken final,
    Run (Transacts Sample.tableMachine) (deployed Sample.trustedRoot) taken final ∧
      (final.reportCerts Sample.reportKeyId).isVerified = true ∧
      Vouched Sample.tableMachine Sample.trustedRoot taken (final.reportCerts Sample.reportKeyId) := by
  obtain ⟨final, returned, verified⟩ := Sample.verifyCert_reportCert
  let tx : Tx := { block := Sample.thisBlock, call := .verifyReportCert Sample.reportCert }
  have transacts : Transacts Sample.tableMachine (deployed Sample.trustedRoot) tx final := .returns returned
  have run := Run.nil.snoc transacts
  exact ⟨_, final, run, verified, (reportCerts_vouched run verified).2⟩

end Decentagram.RaOnchain
