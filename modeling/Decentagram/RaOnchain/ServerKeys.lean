import Decentagram.RaOnchain.AttestedServers
import Decentagram.RaOnchain.SignedFields

/-! # The key that is attested and the key that is recorded

The registry of servers looks for the hash of the bytes at one node, from its first byte to its last, and
takes the address from the children of that node, which are found at its content.  The address is that
of the attested key if the content is that of the same bytes.
-/

namespace Decentagram.RaOnchain

open Decentagram.Lib Asn1Decode BytesUtils NodePtr
open SimpleRlp (writeRlp)

/-! ## Reading a key -/

section Part

variable {der : Bytes} {offset len ptr ptr' : Nat} (small : der.length < 2 ^ 64)
include small

theorem bytes32At_moved {word word' : Bytes32} (moved : Moved offset ptr ptr')
    (own : bytes32At (slice der offset len) ptr = .ok word) (whole : bytes32At der ptr' = .ok word') :
    word' = word := by
  have within := @length_slice_le der offset len
  simp only [bytes32At, valueLength, readBytesN, bind_eq_ok, add_eq_ok, sub_eq_ok, require_eq_ok,
    pure_eq_ok, exists_unit] at own whole
  obtain ⟨_, ⟨_, ⟨-, rfl⟩, ordered, rfl⟩, -, _, ⟨-, rfl⟩, inside, rfl⟩ := own
  obtain ⟨_, ⟨_, ⟨-, rfl⟩, -, rfl⟩, -, _, ⟨-, rfl⟩, -, rfl⟩ := whole
  have ends := moved.ends (by omega) (by omega)
  rw [slice_slice inside, moved.sameLength ends, moved.ixf]

theorem bitstringAt_moved {bytes bytes' : Bytes} (moved : Moved offset ptr ptr')
    (own : bitstringAt (slice der offset len) ptr = .ok bytes) (whole : bitstringAt der ptr' = .ok bytes') :
    bytes' = bytes := by
  have within := @length_slice_le der offset len
  simp only [bitstringAt, valueLength, bind_eq_ok, add_eq_ok, sub_eq_ok, require_eq_ok, exists_unit,
    substringUnsafe_eq_ok] at own whole
  obtain ⟨_, -, -, _, -, -, _, ⟨_, ⟨-, rfl⟩, ordered, rfl⟩, _, ⟨-, rfl⟩, _, ⟨positive, rfl⟩, -, inside,
    rfl⟩ := own
  obtain ⟨_, -, -, _, -, -, _, ⟨_, ⟨-, rfl⟩, -, rfl⟩, _, ⟨-, rfl⟩, _, ⟨-, rfl⟩, -, -, rfl⟩ := whole
  have ends := moved.ends (by omega) (by omega)
  rw [slice_slice inside, moved.sameLength ends, moved.ixf, Nat.add_assoc]

variable (start : NodePtr.ixf ptr' = offset + NodePtr.ixf ptr)
include start

theorem extractPubKeyAlg_moved {alg alg' : Bytes32 × Bytes32}
    (own : LibSecp256k1Sha256.extractPubKeyAlg ptr (slice der offset len) = .ok alg)
    (whole : LibSecp256k1Sha256.extractPubKeyAlg ptr' der = .ok alg') : alg' = alg := by
  simp only [LibSecp256k1Sha256.extractPubKeyAlg, bind_eq_ok, pure_eq_ok] at own whole
  obtain ⟨algNode, isAlg, keyIdNode, isKeyIdNode, curveIdNode, isCurveIdNode, keyId, isKeyId, curveId,
    isCurveId, rfl⟩ := own
  obtain ⟨algNode', isAlg', keyIdNode', isKeyIdNode', curveIdNode', isCurveIdNode', keyId', isKeyId',
    curveId', isCurveId', rfl⟩ := whole
  have movedAlg := firstChildOf_moved small start isAlg isAlg'
  have movedKeyId := firstChildOf_moved small movedAlg.ixf isKeyIdNode isKeyIdNode'
  have movedCurveId := nextSiblingOf_moved small movedKeyId isCurveIdNode isCurveIdNode'
  rw [bytes32At_moved small movedKeyId isKeyId isKeyId',
    bytes32At_moved small movedCurveId isCurveId isCurveId']

theorem extractPubKeyBytes_moved {bytes bytes' : Bytes}
    (own : LibSecp256k1Sha256.extractPubKeyBytes ptr (slice der offset len) = .ok bytes)
    (whole : LibSecp256k1Sha256.extractPubKeyBytes ptr' der = .ok bytes') : bytes' = bytes := by
  simp only [LibSecp256k1Sha256.extractPubKeyBytes, bind_eq_ok, require_eq_ok, exists_unit] at own whole
  obtain ⟨algNode, isAlg, keyNode, isKeyNode, keyBytes, isKeyBytes, -, isBytes⟩ := own
  obtain ⟨algNode', isAlg', keyNode', isKeyNode', keyBytes', isKeyBytes', -, isBytes'⟩ := whole
  have movedAlg := firstChildOf_moved small start isAlg isAlg'
  have movedKey := nextSiblingOf_moved small movedAlg isKeyNode isKeyNode'
  rw [bitstringAt_moved small movedKey isKeyBytes isKeyBytes', isBytes] at isBytes'
  exact (Except.ok.inj isBytes').symm

end Part

/-! ## What a server is recorded for -/

/-- The bytes are those of a secp256k1 key with the address, as they are read alone. -/
structure EncodesKey (machine : Machine) (pubKeyDer : Bytes) (addr : Address) : Prop where
  encodes : ∃ node pubKeyBytes, Asn1Decode.root pubKeyDer = .ok node ∧
    LibSecp256k1Sha256.extractPubKeyAlg node pubKeyDer = .ok (OIDs.keyEcPublic, OIDs.keyEcSecp256k1) ∧
    LibSecp256k1Sha256.extractPubKeyBytes node pubKeyDer = .ok pubKeyBytes ∧
    LibSecp256k1Sha256.pubKeyBytesToAddr machine pubKeyBytes = .ok addr

/-- The children of the node are those that its bytes have when they are read alone. -/
structure NamesOwnKey (certDer : Bytes) (ptr : Nat) : Prop where
  small : certDer.length < 2 ^ 64
  named : ∀ pubKeyDer, allBytesAt certDer ptr = .ok pubKeyDer →
    ∃ node alg pubKeyBytes, Asn1Decode.root pubKeyDer = .ok node ∧ ixf ptr = ixs ptr + ixf node ∧
      LibSecp256k1Sha256.extractPubKeyAlg node pubKeyDer = .ok alg ∧
      LibSecp256k1Sha256.extractPubKeyBytes node pubKeyDer = .ok pubKeyBytes

/-- A report of the attestation service, as the contract reads it: with an allowed status (or one with the
    same hash), the enclave, and the data that binds the ring of keys. -/
structure AttestsRing (machine : Machine) (block : Block) (report : Report) (stdRepData keyRing : Bytes)
    (enclaveHash : Bytes32) : Prop where
  status : ∃ valPos valLen quoteStatus allowed,
    DecentServerCert.jsonSimpleReadValPos report.json (ascii "\"isvEnclaveQuoteStatus\"") =
      .ok (valPos, valLen) ∧
    substringFast report.json valPos valLen = .ok quoteStatus ∧
    allowed ∈ DecentServerCert.quoteStatuses ∧ machine.keccak256 quoteStatus = machine.keccak256 allowed
  quote : ∃ valPos valLen text quoteBody repData,
    DecentServerCert.jsonSimpleReadValPos report.json (ascii "\"isvEnclaveQuoteBody\"") =
      .ok (valPos, valLen) ∧
    substrstringFast report.json valPos valLen = .ok text ∧ decodeBase64 block text = .ok quoteBody ∧
    readBytes32 quoteBody DecentServerCert.epidQuoteEnclHashPos = .ok enclaveHash ∧
    readBytes32 quoteBody DecentServerCert.epidQuoteRepDataPos = .ok repData ∧
    DecentServerCert.expectedRepData machine stdRepData keyRing = .ok repData

/-- A transaction that returned carried a report that a verified key had signed, for the enclave and for a
    ring with the hash of the key that has the address. -/
structure KeyAttested (machine : Machine) (taken : Transactions) (addr : Address) (enclaveHash : Bytes32) :
    Prop where
  attested : ∃ entry ∈ taken, ∃ after certNodes certDer attestation report repKeyId pubKeyDer,
    Returns machine entry.1 entry.2 after ∧ ShowsServerCert entry.2.call certNodes certDer ∧
    HasAttestation entry.2.block certNodes certDer attestation ∧
    HasReport entry.2.block attestation.attestRepRlp report ∧
    (after.reportCerts repKeyId).isVerified = true ∧
    LibRsaSha256.verifyWithComponents (after.reportCerts repKeyId).pubKeyMod
      (after.reportCerts repKeyId).pubKeyExp (machine.sha256 report.json) report.sig = .ok true ∧
    AttestsRing machine entry.2.block report attestation.stdRepData attestation.keyRing enclaveHash ∧
    contains attestation.keyRing (machine.sha256 pubKeyDer) = .ok true ∧
    EncodesKey machine pubKeyDer addr

section Reading

variable {machine : Machine} {block : Block}

theorem attestsRing_of_verify {report : Report} {stdRepData keyRing : Bytes} {enclaveHash : Bytes32}
    (attests : DecentServerCert.verifyEPIDAttestRep machine block stdRepData report.json keyRing =
      .ok enclaveHash) : AttestsRing machine block report stdRepData keyRing enclaveHash := by
  simp only [DecentServerCert.verifyEPIDAttestRep, bind_eq_ok, require_eq_ok, exists_unit, pure_eq_ok,
    Prod.exists] at attests
  obtain ⟨valPos, valLen, isStatusPos, quoteStatus, isStatus, allowed, bodyPos, bodyLen, isBodyPos,
    text, isText, quoteBody, isBody, hash, isHash, repData, isRepData, expected, isExpected, same, rfl⟩ :=
    attests
  obtain ⟨status, isAllowed, sameHash⟩ := List.any_eq_true.mp allowed
  exact {
    status := ⟨valPos, valLen, quoteStatus, status, isStatusPos, isStatus, isAllowed,
      (of_decide_eq_true sameHash).symm⟩
    quote := ⟨bodyPos, bodyLen, text, quoteBody, repData, isBodyPos, isText, isBody, isHash, isRepData,
      same ▸ isExpected⟩ }

/-- The key that the contract takes is the one whose hash it has found. -/
theorem NamesOwnKey.encodesKey {certDer keyRing : Bytes} {ptr : Nat} {addr : Address}
    (names : NamesOwnKey certDer ptr)
    (extracted : DecentServerCert.extractDecentServerKey machine ptr certDer keyRing = .ok addr) :
    ∃ pubKeyDer, contains keyRing (machine.sha256 pubKeyDer) = .ok true ∧
      EncodesKey machine pubKeyDer addr := by
  simp only [DecentServerCert.extractDecentServerKey, bind_eq_ok, require_eq_ok, exists_unit,
    Prod.exists] at extracted
  obtain ⟨pubKeyDer, isKey, found, isFound, contained, keyId, curveId, isAlg, isEc, isCurve, pubKeyBytes,
    isBytes, isAddr⟩ := extracted
  subst contained isEc isCurve
  obtain ⟨node, alg, ownBytes, isRoot, start, ownAlg, ownKey⟩ := names.named pubKeyDer isKey
  obtain ⟨rfl, -, -⟩ := allBytesAt_eq_slice isKey
  have sameAlg := extractPubKeyAlg_moved names.small start ownAlg isAlg
  have sameBytes := extractPubKeyBytes_moved names.small start ownKey isBytes
  subst sameAlg sameBytes
  exact ⟨_, isFound, { encodes := ⟨node, pubKeyBytes, isRoot, ownAlg, ownKey, isAddr⟩ }⟩

/-- A node that was read at its place is that of its bytes, if these can be read alone. -/
theorem namesOwnKey_of_isNode {certDer : Bytes} {ptr : Nat} (small : certDer.length < 2 ^ 64)
    (isNode : IsNode certDer ptr) (alone : ∀ pubKeyDer, allBytesAt certDer ptr = .ok pubKeyDer →
      ∃ node alg pubKeyBytes, Asn1Decode.root pubKeyDer = .ok node ∧
        LibSecp256k1Sha256.extractPubKeyAlg node pubKeyDer = .ok alg ∧
        LibSecp256k1Sha256.extractPubKeyBytes node pubKeyDer = .ok pubKeyBytes) :
    NamesOwnKey certDer ptr := by
  refine { small, named := fun pubKeyDer isKey => ?_ }
  obtain ⟨node, alg, pubKeyBytes, isRoot, ownAlg, ownKey⟩ := alone pubKeyDer isKey
  obtain ⟨rfl, -, -⟩ := allBytesAt_eq_slice isKey
  have within := @length_slice_le certDer (ixs ptr) (ixl ptr + 1 - ixs ptr)
  obtain ⟨_, _, points⟩ := pointsTo_of_read (by omega) isRoot
  have moved := moved_of_isNode ⟨_, _, _, points⟩ isNode (by rw [points.ixs, Nat.add_zero])
  exact ⟨node, alg, pubKeyBytes, isRoot, moved.ixf, ownAlg, ownKey⟩

end Reading

/-! ## Every run -/

variable {machine : Machine} {rootCert : IASRootCert.IASRootCertObj} {taken : Transactions}
  {before after : Registries} {tx : Tx}

/-- The node of the key in the server's certificate that the transaction shows is that of its bytes. -/
def Tx.ReadsKey (tx : Tx) : Prop :=
  ∀ certNodes certDer, ShowsServerCert tx.call certNodes certDer →
    NamesOwnKey certDer certNodes.tbs.pubKeyNode

theorem KeyAttested.append {addr : Address} {enclaveHash : Bytes32}
    (attested : KeyAttested machine taken addr enclaveHash) (later : Transactions) :
    KeyAttested machine (taken ++ later) addr enclaveHash := by
  obtain ⟨entry, member, rest⟩ := attested.attested
  exact { attested := ⟨entry, List.mem_append_left _ member, rest⟩ }

/-- Every server that is verified is recorded under the address of an attested key. -/
def KeysAttested (machine : Machine) (taken : Transactions) (registries : Registries) : Prop :=
  ∀ addr, (registries.serverCerts addr).isVerified = true →
    KeyAttested machine taken addr (registries.serverCerts addr).enclaveHash

/-- What a transaction preserves. -/
theorem keysAttested_step (step : Transacts machine before tx after)
    (readsKey : ∀ after, Returns machine before tx after → tx.ReadsKey)
    (attested : KeysAttested machine taken before) :
    KeysAttested machine (taken ++ [(before, tx)]) after := by
  have earlier : KeysAttested machine (taken ++ [(before, tx)]) before :=
    fun addr verified => (attested addr verified).append _
  rcases transacts_cases step with rfl | ⟨returned, ⟨certNodes, certDer, -, recorded⟩ |
    ⟨certNodes, certDer, isShown, records⟩⟩
  · exact earlier
  · rw [KeysAttested, recorded.keeps.2]
    exact earlier
  · obtain @⟨middle, cert, showsServer⟩ := records
    obtain ⟨attestation, hasAttestation, showsReport, extracted⟩ := showsServer.shown
    obtain ⟨report, repCertNodes, repKeyId, hasReport, -, recorded, reportVerified, attests⟩ :=
      showsReport.shown
    intro addr verified
    by_cases isKey : addr = cert.serverKeyAddr
    · subst isKey
      obtain ⟨pubKeyDer, contained, encodes⟩ := (readsKey _ returned certNodes certDer isShown).encodesKey extracted
      simp only [Function.update_self]
      exact { attested := ⟨(before, tx), by simp, _, certNodes, certDer, attestation, report, repKeyId,
        pubKeyDer, returned, isShown, hasAttestation, hasReport, reportVerified, attests.signed,
        attestsRing_of_verify attests.attests, contained, encodes⟩ }
    · simp only [Function.update_of_ne isKey, recorded.keeps.2] at verified ⊢
      exact earlier addr verified

theorem keysAttested_run {final : Registries}
    (run : Run (Transacts machine) (deployed rootCert) taken final)
    (readsKey : ∀ entry ∈ taken, ∀ after, Returns machine entry.1 entry.2 after → entry.2.ReadsKey) :
    KeysAttested machine taken final := by
  refine Run.invariant (fun before tx => ∀ after, Returns machine before tx after → tx.ReadsKey)
    (fun taken state => KeysAttested machine taken state) ?_ ?_ run ?_
  · intro addr verified
    simp [deployed, noServer] at verified
  · exact fun _ _ _ _ held reads step => keysAttested_step step reads held
  · exact fun entry member => readsKey entry member

theorem showsServerCert_verifyCert {certDer certDer' : Bytes} {certNodes : CertNodesObj}
    (isShown : ShowsServerCert (.verifyServerCert certDer) certNodes certDer') :
    certDer' = certDer ∧ NodesOf certDer certNodes := by
  cases isShown with
  | found isNodes => exact ⟨rfl, isNodes⟩

theorem showsServerCert_withNodes {certDer certDer' : Bytes} {certNodes certNodes' : CertNodesObj}
    (isShown : ShowsServerCert (.verifyServerCertWithNodes certNodes certDer) certNodes' certDer') :
    certDer' = certDer ∧ certNodes' = certNodes := by
  cases isShown with
  | supplied _ _ => exact ⟨rfl, rfl⟩

/-- Whoever the registry says is a Decent Server has the address of a key that an enclave attested. -/
def DecentServersAttested (machine : Machine) (taken : Transactions) (registries : Registries) : Prop :=
  ∀ addr enclaveHash, DecentServerCertMgr.isDecentServer registries addr = enclaveHash → enclaveHash ≠ 0 →
    KeyAttested machine taken addr enclaveHash

/-- In every run whose accepted calls name the node of the key as its bytes have it, every Decent Server has
    the address of a key that its enclave attested. -/
theorem decentServers_attested {final : Registries}
    (run : Run (Transacts machine) (deployed rootCert) taken final)
    (readsKey : ∀ entry ∈ taken, ∀ after, Returns machine entry.1 entry.2 after → entry.2.ReadsKey) :
    DecentServersAttested machine taken final := by
  intro addr enclaveHash isServer nonzero
  rw [DecentServerCertMgr.isDecentServer] at isServer
  split at isServer
  next verified =>
    subst isServer
    exact keysAttested_run run readsKey addr verified
  next => exact absurd isServer.symm nonzero

namespace Sample

open BigEndian DecentServerCert

/-! The certificate of the server with the key of the application behind it: the bytes of the node are those
of the server's key, and its content that of the other one. -/

def strangersServerCert : Bytes := serverCert ++ secp256k1Key appPoint

def strangersServerNodes : CertNodesObj :=
  { serverNodes with tbs := { serverNodes.tbs with pubKeyNode := getPtr 112 1436 199 } }

def strangersRegistration : Tx :=
  { block := thisBlock, call := .verifyServerCertWithNodes strangersServerNodes strangersServerCert }

/-- The only word of the ring. -/
def ringWord : Bytes32 := 0x984c1b5400686aace69701e680377d9effe3798212c32c8dbbb7419adfcf7dfa#256

set_option maxRecDepth 3000 in
/-- What is read of the certificate with the key behind it, and of the server's key alone. -/
theorem strangersServerCert_reads :
    (∃ log, extractNeededExtensions strangersServerCert strangersServerNodes.tbs.extNode
      strangersServerNodes.algTypeNode serverEntries thisBlock.gas [] = .ok serverExtEntries log) ∧
    (do bytes32At strangersServerCert
          (← firstChildOf strangersServerCert strangersServerNodes.algTypeNode)) =
      .ok OIDs.algEcdsaSha256 ∧
    extractDecentServerKey chainMachine strangersServerNodes.tbs.pubKeyNode strangersServerCert keyRing =
      .ok appKeyAddr ∧
    allBytesAt serverCert serverNodes.tbs.pubKeyNode = .ok (secp256k1Key serverPoint) ∧
    Asn1Decode.root (secp256k1Key serverPoint) = .ok (getPtr 0 2 87) ∧
    LibSecp256k1Sha256.extractPubKeyAlg (getPtr 0 2 87) (secp256k1Key serverPoint) =
      .ok (OIDs.keyEcPublic, OIDs.keyEcSecp256k1) ∧
    LibSecp256k1Sha256.extractPubKeyBytes (getPtr 0 2 87) (secp256k1Key serverPoint) =
      .ok (digits 64 serverPoint) ∧
    BitVec.ofNat 256 (value (slice keyRing 0 32)) = ringWord ∧
    keyRing.length = 32 ∧ serverCert.length = 1434 := by
  decide +kernel

theorem mem_of_hashOf {table : List (Bytes × Bytes32)} {bytes : Bytes} {word : Bytes32}
    (isHash : hashOf table bytes = word) (nonzero : word ≠ 0) : (bytes, word) ∈ table := by
  rw [hashOf] at isHash
  cases found : table.lookup bytes with
  | none => exact absurd (by simpa [found] using isHash.symm) nonzero
  | some value =>
    obtain ⟨front, rest, isTable, -⟩ := List.lookup_eq_some_iff.mp found
    rw [found, Option.getD_some] at isHash
    simp [isTable, isHash]

/-- The ring has the hash of the server's key, and of no other bytes. -/
theorem eq_of_contains {pubKeyDer : Bytes}
    (contained : contains keyRing (chainMachine.sha256 pubKeyDer) = .ok true) :
    pubKeyDer = secp256k1Key serverPoint := by
  obtain ⟨-, -, -, -, -, -, -, isWord, length, -⟩ := strangersServerCert_reads
  have isHash : chainMachine.sha256 pubKeyDer = ringWord := by
    simp only [contains, length, bind_eq_ok, require_eq_ok, exists_unit, pure_eq_ok] at contained
    obtain ⟨-, isAny⟩ := contained
    simpa [isWord, List.range_succ, eq_comm] using isAny
  obtain ⟨table, isTable, unique⟩ : ∃ table, chainMachine.sha256 = hashOf table ∧
      ∀ entry ∈ table, entry.2 = ringWord → entry.1 = secp256k1Key serverPoint := ⟨_, rfl, by decide +kernel⟩
  rw [isTable] at isHash
  exact unique _ (mem_of_hashOf isHash (by decide)) rfl

theorem strangersRegistration_returns : Returns chainMachine (deployed trustedRoot) strangersRegistration
    { withReportKey with serverCerts := (Function.update withReportKey.serverCerts appKeyAddr
        { isVerified := true, serverKeyAddr := appKeyAddr, enclaveHash := serverHash }) } := by
  obtain ⟨⟨log, found⟩, isAlg, extracted, -⟩ := strangersServerCert_reads
  obtain ⟨-, -, -, -, -, -, version, parsed, small⟩ := serverCert_reads
  have hasReport : HasReport thisBlock (writeRlp signedReport.object) signedReport := by
    refine hasReport_writeRlp thisBlock signedReport (by omega) ?_
    have isFree : thisBlock.free = 128 := rfl
    rw [Block.freeBehind]
    omega
  have attested := verifyEPIDAttestRepSet_accepts hasReport verifyEPIDReportCert_reportCert
    verifySign_reportJson verifyEPIDAttestRep_reportJson
  have supported : Supported chainMachine serverExtEntries :=
    { version, parsed, platform := congrArg _ rfl }
  exact verifyServerCert_accepts isAlg found supported attested extracted

end Sample

/-- The run in which the server is recorded. -/
theorem decentServers_attested_serverCert : ∃ taken final,
    Run (Transacts Sample.chainMachine) (deployed Sample.trustedRoot) taken final ∧
      DecentServerCertMgr.isDecentServer final Sample.serverKeyAddr = Sample.serverHash ∧
      KeyAttested Sample.chainMachine taken Sample.serverKeyAddr Sample.serverHash := by
  obtain ⟨-, -, -, isKey, isRoot, isAlg, isBytes, -, -, length⟩ := Sample.strangersServerCert_reads
  have names : NamesOwnKey Sample.serverCert Sample.serverNodes.tbs.pubKeyNode := by
    have small : Sample.serverCert.length < 2 ^ 64 := by omega
    obtain ⟨_, found⟩ := Sample.nodesOf_serverCert
    obtain ⟨_, loaded, -⟩ := (loadCertNodes_sat []).of_ok found
    obtain ⟨isNode, -⟩ := nextSiblingOf_eq_ok small loaded.pubKey
    refine namesOwnKey_of_isNode small isNode fun pubKeyDer isKey' => ?_
    rw [Except.ok.inj (isKey'.symm.trans isKey)]
    exact ⟨_, _, _, isRoot, isAlg, isBytes⟩
  have readsKey : Sample.registration.ReadsKey := by
    intro certNodes certDer isShown
    obtain ⟨isCert, _, found⟩ := showsServerCert_verifyCert isShown
    obtain ⟨_, found'⟩ := Sample.nodesOf_serverCert
    have isNodes : certNodes = Sample.serverNodes := (Outcome.ok.inj (found.symm.trans found')).1
    rw [isCert, isNodes]
    exact names
  have run := Run.nil.snoc (Transacts.returns Sample.returns_registration)
  have isServer : DecentServerCertMgr.isDecentServer Sample.withServer Sample.serverKeyAddr =
      Sample.serverHash := by
    rw [DecentServerCertMgr.isDecentServer, Sample.serverCerts_withServer]
    rfl
  have attested := decentServers_attested run fun entry member _ _ => by
    rw [List.mem_singleton.mp member]
    exact readsKey
  exact ⟨_, _, run, isServer, attested _ _ isServer (by decide)⟩

/-- A caller who supplies the nodes is recorded as a Decent Server, with a key that no enclave attested. -/
theorem strangersKey_notAttested : ¬ ∀ taken final,
    Run (Transacts Sample.chainMachine) (deployed Sample.trustedRoot) taken final →
      DecentServersAttested Sample.chainMachine taken final := by
  intro claim
  obtain ⟨⟨_, found⟩, -, -, -, isRoot, -, isBytes, -⟩ := Sample.strangersServerCert_reads
  obtain ⟨-, -, -, -, -, isAddr, -⟩ := Sample.serverCert_reads
  have run := Run.nil.snoc (Transacts.returns Sample.strangersRegistration_returns)
  obtain ⟨entry, member, _, certNodes, certDer, attestation, _, _, pubKeyDer, -, isShown, hasAttestation, -,
    -, -, -, contained, encodes⟩ := (claim _ _ run Sample.appKeyAddr Sample.serverHash
      (by simp [DecentServerCertMgr.isDecentServer]) (by decide)).attested
  -- the only call shows the ring of the server, which has no other key
  rw [List.mem_singleton.mp member] at isShown hasAttestation
  obtain ⟨isCert, isNodes⟩ := showsServerCert_withNodes isShown
  rw [isCert, isNodes] at hasAttestation
  obtain ⟨extEntries, _, found', -, isRing, -⟩ := hasAttestation.found
  have isEntries : extEntries = Sample.serverExtEntries := (Outcome.ok.inj (found'.symm.trans found)).1
  have isKeyRing : attestation.keyRing = Sample.keyRing := by
    rw [isRing, isEntries]
    rfl
  rw [isKeyRing] at contained
  have isServerKey := Sample.eq_of_contains contained
  obtain ⟨node, pubKeyBytes, isRoot', -, isBytes', isAddr'⟩ := encodes.encodes
  rw [isServerKey] at isRoot' isBytes'
  rw [← Except.ok.inj (isRoot.symm.trans isRoot')] at isBytes'
  rw [← Except.ok.inj (isBytes.symm.trans isBytes')] at isAddr'
  have sameAddr := Except.ok.inj (isAddr.symm.trans isAddr')
  exact absurd sameAddr (by decide)

end Decentagram.RaOnchain
