import Decentagram.RaOnchain.SuppliedNodes

/-! # What is recorded and what is signed

A part of a byte string can be read on its own, and what is read there is what is read of the whole at
the same places.  The registry of report keys reads the whole: what it records is in the bytes that the
root key signed if the nodes are those that these bytes have when they are read alone.
-/

namespace Decentagram.RaOnchain

open Decentagram.Lib Asn1Decode BytesUtils NodePtr
open IASReportCert (IASReportCertObj)

/-! ## Reading a part -/

section Part

variable {der : Bytes} {offset len : Nat}

theorem length_slice_le : (slice der offset len).length ≤ der.length - offset := by
  simp [slice]

theorem getElem?_slice {i : Nat} {byte : UInt8} (found : (slice der offset len)[i]? = some byte) :
    der[offset + i]? = some byte := by
  obtain ⟨inside, isByte⟩ := List.getElem?_eq_some_iff.mp found
  simp only [slice, List.getElem_take, List.getElem_drop] at isByte
  exact List.getElem?_eq_some_iff.mpr ⟨_, isByte⟩

theorem slice_slice {i count : Nat} (inside : i + count ≤ (slice der offset len).length) :
    slice (slice der offset len) i count = slice der (offset + i) count := by
  rw [slice, List.length_take, List.length_drop] at inside
  simp only [slice, List.drop_take, List.drop_drop, List.take_take]
  rw [Nat.min_eq_left (by omega)]

/-- A header that lies inside says of the whole what it says of the part. -/
theorem headerAt_slice {ix content length : Nat}
    (header : headerAt (slice der offset len) ix = some (content, length)) :
    headerAt der (offset + ix) = some (offset + content, length) := by
  have within := @length_slice_le der offset len
  obtain ⟨lengthByte, found, header⟩ := Option.bind_eq_some_iff.mp header
  rw [headerAt, Nat.add_assoc, getElem?_slice found, Option.bind_some]
  split at header
  next short =>
    cases header
    rw [if_pos short, Nat.add_assoc]
  next long =>
    split at header
    · cases header
    next counted =>
      obtain ⟨rfl, rfl⟩ := Prod.mk.inj (Option.some.inj header)
      rw [if_neg long, if_neg (by omega), slice_slice (by omega)]
      simp [Nat.add_assoc]

/-- A node of the part, and the same node of the whole. -/
structure Moved (offset ptr ptr' : Nat) : Prop where
  ixs : NodePtr.ixs ptr' = offset + NodePtr.ixs ptr
  ixf : NodePtr.ixf ptr' = offset + NodePtr.ixf ptr
  ixl : NodePtr.ixl ptr' = uint80 (offset + NodePtr.ixl ptr)

/-- The node ends inside, so its end is moved as well. -/
theorem Moved.ends {ptr ptr' : Nat} (moved : Moved offset ptr ptr')
    (inside : NodePtr.ixl ptr < 2 ^ 64) (small : offset < 2 ^ 64) :
    NodePtr.ixl ptr' = offset + NodePtr.ixl ptr := by
  rw [moved.ixl]
  exact Nat.mod_eq_of_lt (by omega)

theorem Moved.sameLength {ptr ptr' : Nat} (moved : Moved offset ptr ptr')
    (ends : NodePtr.ixl ptr' = offset + NodePtr.ixl ptr) :
    NodePtr.ixl ptr' + 1 - NodePtr.ixf ptr' = NodePtr.ixl ptr + 1 - NodePtr.ixf ptr := by
  rw [ends, moved.ixf]
  omega

theorem moved_of_isNode {ptr ptr' : Nat} (own : IsNode (slice der offset len) ptr) (whole : IsNode der ptr')
    (start : NodePtr.ixs ptr' = offset + NodePtr.ixs ptr) : Moved offset ptr ptr' := by
  obtain ⟨ix, content, length, points⟩ := own
  obtain ⟨ix', content', length', points'⟩ := whole
  have isStart : ix' = offset + ix := by rw [← points'.ixs, start, points.ixs]
  have header := headerAt_slice points.header
  rw [← isStart, points'.header] at header
  obtain ⟨rfl, rfl⟩ := Prod.mk.inj (Option.some.inj header)
  refine ⟨start, by rw [points'.ixf, points.ixf], ?_⟩
  have bounds := headerAt_bounds points.header
  rw [points'.ixl, points.ixl]
  simp only [uint80, Nat.add_mod_mod]
  congr 1
  omega

variable (small : der.length < 2 ^ 64)
include small

theorem firstChildOf_moved {ptr ptr' child child' : Nat} (start : NodePtr.ixf ptr' = offset + NodePtr.ixf ptr)
    (own : firstChildOf (slice der offset len) ptr = .ok child)
    (whole : firstChildOf der ptr' = .ok child') : Moved offset child child' := by
  have within := @length_slice_le der offset len
  obtain ⟨isChild, isStart⟩ := firstChildOf_eq_ok (by omega) own
  obtain ⟨isChild', isStart'⟩ := firstChildOf_eq_ok small whole
  exact moved_of_isNode isChild isChild' (by rw [isStart', start, isStart])

theorem nextSiblingOf_moved {ptr ptr' next next' : Nat} (moved : Moved offset ptr ptr')
    (own : nextSiblingOf (slice der offset len) ptr = .ok next)
    (whole : nextSiblingOf der ptr' = .ok next') : Moved offset next next' := by
  have within := @length_slice_le der offset len
  obtain ⟨isNext, isStart⟩ := nextSiblingOf_eq_ok (by omega) own
  obtain ⟨isNext', isStart'⟩ := nextSiblingOf_eq_ok small whole
  have inside := isNext.ixs_lt
  have ends := moved.ends (by omega) (by omega)
  exact moved_of_isNode isNext isNext' (by omega)

theorem bytesAt_moved {ptr ptr' : Nat} {bytes bytes' : Bytes} (moved : Moved offset ptr ptr')
    (own : bytesAt (slice der offset len) ptr = .ok bytes) (whole : bytesAt der ptr' = .ok bytes') :
    bytes' = bytes := by
  have within := @length_slice_le der offset len
  simp only [bytesAt, valueLength, bind_eq_ok, add_eq_ok, sub_eq_ok, substringUnsafe_eq_ok] at own whole
  obtain ⟨_, ⟨_, ⟨-, rfl⟩, ordered, rfl⟩, -, inside, rfl⟩ := own
  obtain ⟨_, ⟨_, ⟨-, rfl⟩, -, rfl⟩, -, -, rfl⟩ := whole
  have ends := moved.ends (by omega) (by omega)
  rw [slice_slice inside, moved.sameLength ends, moved.ixf]

theorem getValidityTimestamps_moved {validityNode validityNode' : Nat} {times times' : Nat × Nat}
    (start : NodePtr.ixf validityNode' = offset + NodePtr.ixf validityNode)
    (own : X509Timestamp.getValidityTimestamps (slice der offset len) validityNode = .ok times)
    (whole : X509Timestamp.getValidityTimestamps der validityNode' = .ok times') : times' = times := by
  simp only [X509Timestamp.getValidityTimestamps, bind_eq_ok, pure_eq_ok] at own whole
  obtain ⟨before, isBefore, after, isAfter, begunText, isBegunText, begun, isBegun, endedText, isEndedText,
    ended, isEnded, rfl⟩ := own
  obtain ⟨before', isBefore', after', isAfter', begunText', isBegunText', begun', isBegun', endedText',
    isEndedText', ended', isEnded', rfl⟩ := whole
  have movedBefore := firstChildOf_moved small start isBefore isBefore'
  have movedAfter := nextSiblingOf_moved small movedBefore isAfter isAfter'
  rw [bytesAt_moved small movedBefore isBegunText isBegunText', isBegun] at isBegun'
  rw [bytesAt_moved small movedAfter isEndedText isEndedText', isEnded] at isEnded'
  cases isBegun'
  cases isEnded'
  rfl

end Part

/-! ## The fields of `tbsCertificate` -/

/-- The fields of a `tbsCertificate`, found in its bytes alone. -/
def ownNodes (tbsBytes : Bytes) : Reader CertTbsNodesObj := do
  loadTbsNodes tbsBytes (← read (Asn1Decode.root tbsBytes))

theorem loadTbsNodes_sat {der : Bytes} (small : der.length < 2 ^ 64) (tbsRoot : Nat)
    (log : List SiblingStep) :
    Exec.Sat (loadTbsNodes der tbsRoot) log
      (fun tbs _ => ∃ verNode, Siblings der (ixf tbsRoot) (verNode :: tbs.children)) fun _ _ => True := by
  simp only [loadTbsNodes, Exec.sat_bind, sat_read, sat_siblingOf, Exec.sat_pure, implies_true, and_true]
  intro version loaded serial isSerial algType isAlgType issuer isIssuer validity isValidity subject
    isSubject pubKey isPubKey ext isExt
  obtain ⟨isVersion, versionStart⟩ := firstChildOf_eq_ok small (loadVersion_eq_ok loaded)
  obtain ⟨isSerial, serialStart⟩ := nextSiblingOf_eq_ok small isSerial
  obtain ⟨isAlgType, algTypeStart⟩ := nextSiblingOf_eq_ok small isAlgType
  obtain ⟨isIssuer, issuerStart⟩ := nextSiblingOf_eq_ok small isIssuer
  obtain ⟨isValidity, validityStart⟩ := nextSiblingOf_eq_ok small isValidity
  obtain ⟨isSubject, subjectStart⟩ := nextSiblingOf_eq_ok small isSubject
  obtain ⟨isPubKey, pubKeyStart⟩ := nextSiblingOf_eq_ok small isPubKey
  obtain ⟨isExt, extStart⟩ := nextSiblingOf_eq_ok small isExt
  exact ⟨version.1, isVersion, versionStart, isSerial, serialStart, isAlgType, algTypeStart, isIssuer,
    issuerStart, isValidity, validityStart, isSubject, subjectStart, isPubKey, pubKeyStart, isExt, extStart,
    trivial⟩

/-- Siblings of the part are those of the whole that begin where the part has them. -/
theorem Siblings.moved {der : Bytes} {offset len ix : Nat} {nodes nodes' : List Nat}
    (small : der.length < 2 ^ 64) (own : Siblings (slice der offset len) ix nodes)
    (whole : Siblings der (offset + ix) nodes') (sameLength : nodes.length = nodes'.length) :
    List.Forall₂ (Moved offset) nodes nodes' := by
  induction nodes generalizing ix nodes' with
  | nil =>
    cases nodes' with
    | nil => exact .nil
    | cons _ _ => cases sameLength
  | cons node rest inductionHypothesis =>
    cases nodes' with
    | nil => cases sameLength
    | cons node' rest' =>
      obtain ⟨isNode, isStart, own⟩ := own
      obtain ⟨isNode', isStart', whole⟩ := whole
      have moved := moved_of_isNode isNode isNode' (by rw [isStart', isStart])
      refine .cons moved (inductionHypothesis own ?_ (Nat.succ.inj sameLength))
      cases rest with
      | nil =>
        cases rest' with
        | nil => trivial
        | cons _ _ => cases sameLength
      | cons next _ =>
        -- the next one begins inside, so this one ends there
        have within := @length_slice_le der offset len
        have inside := own.1.ixs_lt
        have follows := own.2.1
        rwa [moved.ends (by omega) (by omega), Nat.add_assoc] at whole

/-- The key ends inside, for the extensions begin behind it. -/
theorem pubKeyNode_inside {der : Bytes} {ix verNode : Nat} {tbs : CertTbsNodesObj}
    (siblings : Siblings der ix (verNode :: tbs.children)) : ixl tbs.pubKeyNode < der.length := by
  obtain ⟨-, -, -, -, -, -, -, -, -, -, -, -, -, -, isExt, follows, -⟩ := siblings
  have inside := isExt.ixs_lt
  omega

/-- The bytes are those of a `tbsCertificate` with this key and this end of its validity, as they are read
    alone. -/
structure HasFields (tbsBytes pubKeyDer : Bytes) (notAfter : Nat) : Prop where
  found : ∃ tbsNodes log notBefore, ownNodes tbsBytes [] = .ok tbsNodes log ∧
    allBytesAt tbsBytes tbsNodes.pubKeyNode = .ok pubKeyDer ∧
    X509Timestamp.getValidityTimestamps tbsBytes tbsNodes.validityNode = .ok (notBefore, notAfter)

/-- What the contract reads at the nodes of a certificate, it reads at the fields that the bytes at
    `tbs.root` have when they are read alone. -/
structure NamesOwn (certDer : Bytes) (certNodes : CertNodesObj) : Prop where
  small : certDer.length < 2 ^ 64
  named : ∀ tbsBytes, allBytesAt certDer certNodes.tbs.root = .ok tbsBytes →
    ∃ tbsNodes log times, ownNodes tbsBytes [] = .ok tbsNodes log ∧
      X509Timestamp.getValidityTimestamps tbsBytes tbsNodes.validityNode = .ok times ∧
      ixs certNodes.tbs.pubKeyNode = ixs certNodes.tbs.root + ixs tbsNodes.pubKeyNode ∧
      ixl certNodes.tbs.pubKeyNode = ixs certNodes.tbs.root + ixl tbsNodes.pubKeyNode ∧
      ixf certNodes.tbs.validityNode = ixs certNodes.tbs.root + ixf tbsNodes.validityNode

section Fields

variable {certDer tbsBytes pubKeyDer : Bytes} {certNodes : CertNodesObj}

/-- The bytes at a node are a part. -/
theorem allBytesAt_eq_slice {ptr : Nat} {bytes : Bytes} (isBytes : allBytesAt certDer ptr = .ok bytes) :
    bytes = slice certDer (ixs ptr) (ixl ptr + 1 - ixs ptr) ∧ ixs ptr ≤ ixl ptr + 1 ∧
      ixl ptr + 1 ≤ certDer.length := by
  simp only [allBytesAt, bind_eq_ok, add_eq_ok, sub_eq_ok, substringUnsafe_eq_ok] at isBytes
  obtain ⟨_, ⟨-, rfl⟩, _, ⟨ordered, rfl⟩, -, inside, isSlice⟩ := isBytes
  exact ⟨isSlice, ordered, by omega⟩

theorem siblings_of_ownNodes {tbsNodes : CertTbsNodesObj} {log : List SiblingStep}
    (small : tbsBytes.length < 2 ^ 64) (own : ownNodes tbsBytes [] = .ok tbsNodes log) :
    ∃ root verNode, Asn1Decode.root tbsBytes = .ok root ∧
      Siblings tbsBytes (ixf root) (verNode :: tbsNodes.children) := by
  obtain ⟨root, _, isRead, loaded⟩ := Exec.bind_eq_ok.mp own
  obtain ⟨isRoot, rfl⟩ := read_eq_ok.mp isRead
  obtain ⟨verNode, siblings⟩ := (loadTbsNodes_sat small root []).of_ok loaded
  exact ⟨root, verNode, isRoot, siblings⟩

/-- The key and the expiry that are read at the nodes. -/
theorem NamesOwn.hasFields (names : NamesOwn certDer certNodes) {notBefore notAfter : Nat}
    (isTbs : allBytesAt certDer certNodes.tbs.root = .ok tbsBytes)
    (isKey : allBytesAt certDer certNodes.tbs.pubKeyNode = .ok pubKeyDer)
    (isValidity : X509Timestamp.getValidityTimestamps certDer certNodes.tbs.validityNode =
      .ok (notBefore, notAfter)) : HasFields tbsBytes pubKeyDer notAfter := by
  obtain ⟨tbsNodes, log, times, own, isTimes, first, last, start⟩ := names.named tbsBytes isTbs
  obtain ⟨isPart, -, -⟩ := allBytesAt_eq_slice isTbs
  have small := names.small
  have within : tbsBytes.length ≤ certDer.length - ixs certNodes.tbs.root := isPart ▸ length_slice_le
  obtain ⟨root, verNode, -, siblings⟩ := siblings_of_ownNodes (by omega) own
  have keyInside := pubKeyNode_inside siblings
  obtain ⟨isKeyPart, ordered, -⟩ := allBytesAt_eq_slice isKey
  have ownKey : allBytesAt tbsBytes tbsNodes.pubKeyNode = .ok pubKeyDer := by
    simp only [allBytesAt, bind_eq_ok, add_eq_ok, sub_eq_ok, substringUnsafe_eq_ok]
    refine ⟨_, ⟨by omega, rfl⟩, _, ⟨by omega, rfl⟩, by omega, by omega, ?_⟩
    subst isPart
    rw [slice_slice (by omega), isKeyPart, first, last]
    congr 1
    omega
  have sameTimes := getValidityTimestamps_moved small start (isPart ▸ isTimes) isValidity
  exact ⟨tbsNodes, log, notBefore, own, ownKey, sameTimes ▸ isTimes⟩

/-- Nodes that were found in the certificate are its own, if its `tbsCertificate` can be read alone. -/
theorem namesOwn_of_nodesOf (small : certDer.length < 2 ^ 64) (isNodes : NodesOf certDer certNodes)
    (alone : ∀ tbsBytes, allBytesAt certDer certNodes.tbs.root = .ok tbsBytes →
      ∃ tbsNodes log times, ownNodes tbsBytes [] = .ok tbsNodes log ∧
        X509Timestamp.getValidityTimestamps tbsBytes tbsNodes.validityNode = .ok times) :
    NamesOwn certDer certNodes := by
  refine { small, named := fun tbsBytes isTbs => ?_ }
  obtain ⟨tbsNodes, log, times, own, isTimes⟩ := alone tbsBytes isTbs
  refine ⟨tbsNodes, log, times, own, isTimes, ?_⟩
  obtain ⟨isPart, -, -⟩ := allBytesAt_eq_slice isTbs
  have within : tbsBytes.length ≤ certDer.length - ixs certNodes.tbs.root := isPart ▸ length_slice_le
  obtain ⟨root, verNode, isRoot, siblings⟩ := siblings_of_ownNodes (by omega) own
  have keyInside := pubKeyNode_inside siblings
  obtain ⟨_, found⟩ := isNodes
  obtain ⟨verNode', ⟨loaded, -⟩⟩ := (loadCertNodes_sat []).of_ok found
  obtain ⟨isTbsNode, -⟩ := firstChildOf_eq_ok small loaded.tbs
  obtain ⟨_, _, points⟩ := pointsTo_of_read (by omega) isRoot
  have whole := loaded.siblings small
  subst isPart
  -- both begin at the content of the same header
  have movedRoot := moved_of_isNode ⟨_, _, _, points⟩ isTbsNode (by rw [points.ixs, Nat.add_zero])
  rw [movedRoot.ixf] at whole
  have moved := Siblings.moved small siblings whole rfl
  simp only [CertTbsNodesObj.children, List.forall₂_cons] at moved
  obtain ⟨-, -, -, -, movedValidity, -, movedKey, -⟩ := moved
  exact ⟨movedKey.ixs, movedKey.ends (by omega) (by omega), movedValidity.ixf⟩

end Fields

/-! ## Every run -/

/-- At the report certificates that the transaction shows, the contract reads what is signed there. -/
def Tx.ReadsSigned (tx : Tx) : Prop :=
  ∀ certNodes certDer, ShowsReportCert tx.block tx.call certNodes certDer → NamesOwn certDer certNodes

/-- The record was written by a transaction that showed a certificate, whose signature by the root key is good
    for bytes that have the key and the expiry of the record. -/
structure FromSigned (machine : Machine) (rootCert : IASRootCert.IASRootCertObj) (taken : Transactions)
    (cert : IASReportCertObj) : Prop where
  signed : ∃ entry ∈ taken, ∃ after certNodes certDer tbsBytes sigValue pubKeyDer,
    Returns machine entry.1 entry.2 after ∧ after.reportCerts cert.keyId = cert ∧
    ShowsReportCert entry.2.block entry.2.call certNodes certDer ∧
    allBytesAt certDer certNodes.tbs.root = .ok tbsBytes ∧
    bitstringAt certDer certNodes.sigNode = .ok sigValue ∧
    LibRsaSha256.verifyWithComponents rootCert.pubKeyMod rootCert.pubKeyExp (machine.sha256 tbsBytes)
      sigValue = .ok true ∧
    HasFields tbsBytes pubKeyDer cert.notAfter ∧
    cert.keyId = machine.keccak256 pubKeyDer ∧
    LibRsaSha256.extractKeyComponents machine pubKeyDer = .ok (cert.pubKeyMod, cert.pubKeyExp)

/-- Every report key that is verified is recorded under its own name, as it was signed. -/
def ReportsSigned (machine : Machine) (rootCert : IASRootCert.IASRootCertObj) (taken : Transactions)
    (registries : Registries) : Prop :=
  ∀ keyId, (registries.reportCerts keyId).isVerified = true →
    (registries.reportCerts keyId).keyId = keyId ∧
      FromSigned machine rootCert taken (registries.reportCerts keyId)

theorem showsReportCert_verifyCert {block : Block} {certDer certDer' : Bytes} {certNodes : CertNodesObj}
    (isShown : ShowsReportCert block (.verifyReportCert certDer) certNodes certDer') :
    certDer' = certDer ∧ NodesOf certDer certNodes := by
  cases isShown with
  | found isNodes => exact ⟨rfl, isNodes⟩
  | reported given => cases given

theorem showsReportCert_withNodes {block : Block} {certDer certDer' : Bytes}
    {certNodes certNodes' : CertNodesObj}
    (isShown : ShowsReportCert block (.verifyReportCertWithNodes certNodes certDer) certNodes' certDer') :
    certDer' = certDer ∧ certNodes' = certNodes := by
  cases isShown with
  | supplied _ _ => exact ⟨rfl, rfl⟩
  | reported given => cases given

/-- In every run whose accepted calls name the fields of what is signed, all that is recorded was signed. -/
theorem reportCerts_signed {machine : Machine} {rootCert : IASRootCert.IASRootCertObj}
    {taken : Transactions} {final : Registries}
    (run : Run (Transacts machine) (deployed rootCert) taken final)
    (readsSigned : ∀ entry ∈ taken, ∀ after, Returns machine entry.1 entry.2 after → entry.2.ReadsSigned) :
    ReportsSigned machine rootCert taken final := by
  intro keyId verified
  obtain ⟨isName, entry, member, after, returned, isRecord, origin⟩ :=
    (accounted_run run).1.vouched keyId verified
  obtain ⟨certNodes, certDer, pubKeyDer, isShown, isKeyId, checked⟩ := origin.shown
  obtain ⟨sigValue, tbsBytes, isSig, isTbs, verifies⟩ := checked.signed
  obtain ⟨notBefore, isValidity, -, -⟩ := checked.validity
  have names := readsSigned entry member after returned certNodes certDer isShown
  have fields := names.hasFields isTbs checked.isKey isValidity
  exact ⟨isName, { signed := ⟨entry, member, after, certNodes, certDer, tbsBytes, sigValue, pubKeyDer,
    returned, isRecord, isShown, isTbs, isSig, verifies, fields, isKeyId, checked.components⟩ }⟩

namespace Sample

/-! The report certificate with a key behind it that the root key never signed. -/

def strangersModulus : Nat := 0xce8283f12374597780b7556c59cc1a2eebbba19534fd9576309bb1eac4e995a5

def strangersKeyId : Bytes32 := 0x13d298a04345b9778545f7417540f6b30610a69ae1adcd66526ba25ec7c7874d#256

def strangersMachine : Machine :=
  { tableMachine with
    keccak256 := hashOf (keccak256Table ++ [(rsaKey strangersModulus, strangersKeyId)]) }

def strangersObj : IASReportCertObj where
  isVerified := true
  keyId := strangersKeyId
  pubKeyMod := BigEndian.digits 32 strangersModulus
  pubKeyExp := [0x03]
  notAfter := 1893456000

def forgedCert : Bytes := reportCert ++ rsaKey strangersModulus

def forgedNodes : CertNodesObj := keyBehind reportCert (rsaKey strangersModulus) reportNodes

def forgery : Tx := { block := thisBlock, call := .verifyReportCertWithNodes forgedNodes forgedCert }

/-- The nodes of `tbsCertificate`, from its first byte on. -/
def reportTbsNodes : CertTbsNodesObj where
  root := getPtr 0 3 198
  version := 2
  serialNode := getPtr 8 10 10
  algTypeNode := getPtr 11 13 23
  issuerNode := getPtr 24 26 75
  validityNode := getPtr 76 78 107
  subjectNode := getPtr 108 110 134
  pubKeyNode := getPtr 135 137 194
  extNode := getPtr 195 197 198

set_option maxRecDepth 3000 in
/-- What is read of the certificate, of what is signed in it, and of the one with the key behind it. -/
theorem forgedCert_reads :
    (∃ log, IASReportCert.loadCert strangersMachine thisBlock forgedNodes forgedCert trustedRoot.pubKeyMod
      trustedRoot.pubKeyExp [] = .ok strangersObj log) ∧
    allBytesAt forgedCert forgedNodes.tbs.root = .ok reportTbs ∧
    allBytesAt reportCert reportNodes.tbs.root = .ok reportTbs ∧
    (∃ log, ownNodes reportTbs [] = .ok reportTbsNodes log) ∧
    allBytesAt reportTbs reportTbsNodes.pubKeyNode = .ok (rsaKey reportModulus) ∧
    X509Timestamp.getValidityTimestamps reportTbs reportTbsNodes.validityNode =
      .ok (1577836800, 1893456000) ∧
    strangersMachine.keccak256 (rsaKey reportModulus) = reportKeyId ∧
    reportCert.length = 250 := by
  decide +kernel

end Sample

/-- The run in which the report certificate is shown. -/
theorem reportCerts_signed_reportCert : ∃ taken final,
    Run (Transacts Sample.tableMachine) (deployed Sample.trustedRoot) taken final ∧
      (final.reportCerts Sample.reportKeyId).isVerified = true ∧
      FromSigned Sample.tableMachine Sample.trustedRoot taken (final.reportCerts Sample.reportKeyId) := by
  obtain ⟨final, returned, verified⟩ := Sample.verifyCert_reportCert
  obtain ⟨-, -, isTbs, ⟨log, own⟩, -, isValidity, -, length⟩ := Sample.forgedCert_reads
  let tx : Tx := { block := Sample.thisBlock, call := .verifyReportCert Sample.reportCert }
  have transacts : Transacts Sample.tableMachine (deployed Sample.trustedRoot) tx final := .returns returned
  have names : NamesOwn Sample.reportCert Sample.reportNodes := by
    refine namesOwn_of_nodesOf (by omega) Sample.nodesOf_reportCert fun tbsBytes isTbs' => ?_
    have isReportTbs : tbsBytes = Sample.reportTbs := Except.ok.inj (isTbs'.symm.trans isTbs)
    rw [isReportTbs]
    exact ⟨_, log, _, own, isValidity⟩
  have readsSigned : tx.ReadsSigned := by
    intro certNodes certDer isShown
    obtain ⟨isCert, _, found⟩ := showsReportCert_verifyCert isShown
    obtain ⟨_, found'⟩ := Sample.nodesOf_reportCert
    have isNodes : certNodes = Sample.reportNodes := (Outcome.ok.inj (found.symm.trans found')).1
    rw [isCert, isNodes]
    exact names
  have signed := reportCerts_signed (Run.nil.snoc transacts) fun entry member _ _ => by
    rw [List.mem_singleton.mp member]
    exact readsSigned
  exact ⟨_, final, Run.nil.snoc transacts, verified, (signed _ verified).2⟩

/-- A caller who supplies the nodes has a key recorded that was not signed. -/
theorem forgedKey_notSigned : ¬ ∀ taken final,
    Run (Transacts Sample.strangersMachine) (deployed Sample.trustedRoot) taken final →
      ReportsSigned Sample.strangersMachine Sample.trustedRoot taken final := by
  intro claim
  obtain ⟨⟨log, loaded⟩, isTbs, -, ⟨_, own⟩, isKey, -, isKeyId, -⟩ := Sample.forgedCert_reads
  have returned : Returns Sample.strangersMachine (deployed Sample.trustedRoot) Sample.forgery _ :=
    verifyCertWithNodes_eq_ok.mpr ⟨by decide, Sample.strangersObj, log, loaded, rfl⟩
  obtain ⟨-, fromSigned⟩ := claim _ _ (Run.nil.snoc (.returns returned)) Sample.strangersKeyId (by
    simp [Sample.strangersObj])
  obtain ⟨entry, member, _, certNodes, certDer, tbsBytes, _, pubKeyDer, -, -, isShown, isTbs', -, -, fields,
    isKeyId', -⟩ := fromSigned.signed
  -- the only call shows the one certificate, and what is signed there has the other key
  rw [List.mem_singleton.mp member] at isShown
  obtain ⟨isCert, isNodes⟩ := showsReportCert_withNodes isShown
  rw [isCert, isNodes] at isTbs'
  have isReportTbs : tbsBytes = Sample.reportTbs := Except.ok.inj (isTbs'.symm.trans isTbs)
  obtain ⟨_, _, _, own', isKey', -⟩ := fields.found
  rw [isReportTbs] at own' isKey'
  have isTbsNodes := (Outcome.ok.inj (own'.symm.trans own)).1
  rw [isTbsNodes] at isKey'
  have isReportKey := Except.ok.inj (isKey'.symm.trans isKey)
  rw [isReportKey, isKeyId] at isKeyId'
  simp [Sample.strangersObj] at isKeyId'
  exact absurd isKeyId' (by decide)

end Decentagram.RaOnchain
