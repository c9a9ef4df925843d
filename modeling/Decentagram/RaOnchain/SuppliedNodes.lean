import Decentagram.RaOnchain.CertProvenance
import Decentagram.RaOnchain.NodeContainment

/-! # Nodes that a caller supplies

`verifyCertWithNodes` of the registry of report keys is open to everybody, and it checks the signature of
the bytes at one node, and takes the key from another.  What is read from a certificate is the same when
more bytes follow it, so a key can be put behind a certificate that the root key signed.  Where the nodes
are found by the contract, the key is part of what was signed if the fields of the certificate fit.
-/

namespace Decentagram.RaOnchain

open Decentagram.Lib Asn1Decode BytesUtils NodePtr

/-! ## More bytes behind a certificate -/

section Extension

variable {self der more : Bytes}

theorem slice_append_of_le {offset len : Nat} (inside : offset + len ≤ self.length) :
    slice (self ++ more) offset len = slice self offset len := by
  rw [slice, slice, List.drop_append_of_le_length (by omega),
    List.take_append_of_le_length (by rw [List.length_drop]; omega)]

/-- Code that takes a range of the bytes after it was checked to lie inside. -/
theorem extends_range {α : Type} (offset len : Nat) (text : String) (result : Bytes → Except Revert α) :
    Extends (do
        require ((← add offset len) ≤ self.length) text
        result (slice self offset len))
      (do
        require ((← add offset len) ≤ (self ++ more).length) text
        result (slice (self ++ more) offset len)) := by
  intro value returned
  simp only [bind_eq_ok, add_eq_ok, require_eq_ok, exists_unit] at returned ⊢
  obtain ⟨_, ⟨fits, rfl⟩, inside, returned⟩ := returned
  refine ⟨_, ⟨fits, rfl⟩, by rw [List.length_append]; omega, ?_⟩
  rwa [slice_append_of_le inside]

theorem byteAt_extends (index : Nat) : Extends (byteAt self index) (byteAt (self ++ more) index) := by
  intro byte found
  rw [byteAt_eq_ok] at found ⊢
  obtain ⟨inside, -⟩ := List.getElem?_eq_some_iff.mp found
  rwa [List.getElem?_append_left inside]

theorem readUint8_extends (idx : Nat) : Extends (readUint8 self idx) (readUint8 (self ++ more) idx) :=
  (byteAt_extends idx).andThen _

theorem readUint16_extends (idx : Nat) : Extends (readUint16 self idx) (readUint16 (self ++ more) idx) :=
  extends_range idx 2 "" fun bytes => pure (BigEndian.value bytes)

theorem readBytesN_extends (idx len : Nat) :
    Extends (readBytesN self idx len) (readBytesN (self ++ more) idx len) :=
  (Extends.refl _).bind fun _ => extends_range idx len ""
    fun bytes => pure (BitVec.ofNat 256 (BigEndian.value bytes * 256 ^ (32 - len)))

theorem substringUnsafe_extends (offset len : Nat) :
    Extends (substringUnsafe self offset len) (substringUnsafe (self ++ more) offset len) :=
  extends_range offset len "" pure

theorem substrstringFast_extends (offset len : Nat) :
    Extends (substrstringFast self offset len) (substrstringFast (self ++ more) offset len) :=
  extends_range offset len "Invalid length" pure

theorem readLongLength_extends (ix count : Nat) :
    Extends (readLongLength der ix count) (readLongLength (der ++ more) ix count) := by
  refine .ite ?_ (.ite ?_ ?_)
  · exact (Extends.refl _).bind fun _ => readUint8_extends _
  · exact (Extends.refl _).bind fun _ => readUint16_extends _
  · exact (Extends.refl _).bind fun _ => (readBytesN_extends _ _).andThen _

theorem readNodeLength_extends (ix : Nat) :
    Extends (readNodeLength der ix) (readNodeLength (der ++ more) ix) :=
  (Extends.refl _).bind fun _ => (byteAt_extends _).bind fun _ =>
    .ite (.refl _) ((readLongLength_extends _ _).andThen _)

theorem nextSiblingOf_extends (ptr : Nat) :
    Extends (nextSiblingOf der ptr) (nextSiblingOf (der ++ more) ptr) :=
  (Extends.refl _).bind fun _ => readNodeLength_extends _

theorem firstChildOf_extends (ptr : Nat) :
    Extends (firstChildOf der ptr) (firstChildOf (der ++ more) ptr) :=
  (byteAt_extends _).bind fun _ => (Extends.refl _).bind fun _ => readNodeLength_extends _

theorem bytesAt_extends (ptr : Nat) : Extends (bytesAt der ptr) (bytesAt (der ++ more) ptr) :=
  (Extends.refl _).bind fun _ => substringUnsafe_extends _ _

theorem stringAt_extends (ptr : Nat) : Extends (stringAt der ptr) (stringAt (der ++ more) ptr) :=
  (Extends.refl _).bind fun _ => substrstringFast_extends _ _

theorem bytes32At_extends (ptr : Nat) : Extends (bytes32At der ptr) (bytes32At (der ++ more) ptr) :=
  (Extends.refl _).bind fun _ => readBytesN_extends _ _

theorem bitstringAt_extends (ptr : Nat) :
    Extends (bitstringAt der ptr) (bitstringAt (der ++ more) ptr) :=
  (byteAt_extends _).bind fun _ => (Extends.refl _).bind fun _ => (byteAt_extends _).bind fun _ =>
    (Extends.refl _).bind fun _ => (Extends.refl _).bind fun _ => (Extends.refl _).bind fun _ =>
      (Extends.refl _).bind fun _ => substringUnsafe_extends _ _

theorem allBytesAt_extends (ptr : Nat) : Extends (allBytesAt der ptr) (allBytesAt (der ++ more) ptr) :=
  (Extends.refl _).bind fun _ => (Extends.refl _).bind fun _ => substringUnsafe_extends _ _

theorem getValidityTimestamps_extends (validityNode : Nat) :
    Extends (X509Timestamp.getValidityTimestamps der validityNode)
      (X509Timestamp.getValidityTimestamps (der ++ more) validityNode) :=
  (firstChildOf_extends _).bind fun _ => (nextSiblingOf_extends _).bind fun _ =>
    (bytesAt_extends _).bind fun _ => (Extends.refl _).bind fun _ =>
      (bytesAt_extends _).bind fun _ => .refl _

theorem read_extends {α : Type} {result result' : Except Revert α} (extended : Extends result result') :
    Exec.Extends (read result) (read result') := by
  intro log value log' returned
  cases result with
  | error error => cases returned
  | ok value =>
    rw [extended value rfl]
    exact returned

theorem siblingOf_extends (ptr : Nat) : Exec.Extends (siblingOf der ptr) (siblingOf (der ++ more) ptr) :=
  (read_extends (nextSiblingOf_extends ptr)).andThen _

theorem siblingLoop_extends {σ : Type} (endNode : Nat) {round round' : Nat → σ → Reader σ}
    (extended : ∀ node state, Exec.Extends (round node state) (round' node state)) (gas node : Nat)
    (state : σ) : Exec.Extends (siblingLoop der endNode round gas node state)
      (siblingLoop (der ++ more) endNode round' gas node state) := by
  induction gas generalizing node state with
  | zero => exact .refl _
  | succ gas inductionHypothesis =>
    refine .ite ?_ (.refl _)
    exact (extended node state).bind fun state => (siblingOf_extends node).bind fun node =>
      inductionHypothesis node state

theorem loadRelDistName_extends (reads : NameField → Bool) (node : Nat) (name : CertNameObj) :
    Exec.Extends (loadRelDistName der reads node name) (loadRelDistName (der ++ more) reads node name) := by
  refine (read_extends (firstChildOf_extends _)).bind fun _ =>
    (read_extends (firstChildOf_extends _)).bind fun _ =>
      (read_extends (bytes32At_extends _)).bind fun oid => ?_
  cases nameFields.find? fun field => reads field ∧ oid = field.oid with
  | none => exact .refl _
  | some field =>
    exact (siblingOf_extends _).bind fun _ => (read_extends (stringAt_extends _)).andThen _

theorem getCN_extends (nameNode endNode gas : Nat) :
    Exec.Extends (X509Name.getCN der nameNode endNode gas)
      (X509Name.getCN (der ++ more) nameNode endNode gas) := by
  refine Exec.Extends.andThen ?_ _
  exact (Exec.Extends.refl _).bind fun _ => (read_extends (firstChildOf_extends _)).bind fun _ =>
    siblingLoop_extends _ (loadRelDistName_extends _) _ _ _

end Extension

/-! ## A key behind a certificate -/

/-- The nodes, but for the one of the key: it has the bytes that follow the certificate. -/
def keyBehind (certDer pubKeyDer : Bytes) (certNodes : CertNodesObj) : CertNodesObj :=
  { certNodes with tbs := { certNodes.tbs with
      pubKeyNode := getPtr certDer.length 0 (certDer.length + pubKeyDer.length - 1) } }

variable {machine : Machine} {block : Block} {certDer pubKeyDer keyMod keyExp : Bytes}
  {certNodes : CertNodesObj}

theorem allBytesAt_keyBehind (nonempty : pubKeyDer ≠ [])
    (small : certDer.length + pubKeyDer.length < 2 ^ 64) :
    allBytesAt (certDer ++ pubKeyDer) (keyBehind certDer pubKeyDer certNodes).tbs.pubKeyNode =
      .ok pubKeyDer := by
  have positive : 0 < pubKeyDer.length := List.length_pos_iff.mpr nonempty
  have first : certDer.length < 2 ^ 80 := by omega
  have last : certDer.length + pubKeyDer.length - 1 < 2 ^ 80 := by omega
  have isFirst := ixs_getPtr first (Nat.two_pow_pos 80) last
  have isLast := ixl_getPtr first (Nat.two_pow_pos 80) last
  simp only [allBytesAt, keyBehind, isFirst, isLast, bind_eq_ok, add_eq_ok, sub_eq_ok,
    substringUnsafe_eq_ok, List.length_append]
  refine ⟨_, ⟨by omega, rfl⟩, _, ⟨by omega, rfl⟩, by omega, by omega, ?_⟩
  rw [show certDer.length + pubKeyDer.length - 1 + 1 - certDer.length = pubKeyDer.length by omega]
  simp [slice]

/-- There is a key to be found only where there are bytes. -/
theorem nonempty_of_components {key : Bytes × Bytes}
    (isKey : LibRsaSha256.extractKeyComponents machine pubKeyDer = .ok key) : pubKeyDer ≠ [] := by
  rintro rfl
  simp [LibRsaSha256.extractKeyComponents, Asn1Decode.root, readNodeLength, add_eq_ok] at isKey

theorem loadCert_keyBehind {caKeyMod caKeyExp : Bytes} {cert : IASReportCert.IASReportCertObj}
    {log log' : List SiblingStep}
    (loaded : IASReportCert.loadCert machine block certNodes certDer caKeyMod caKeyExp log = .ok cert log')
    (isKey : LibRsaSha256.extractKeyComponents machine pubKeyDer = .ok (keyMod, keyExp))
    (small : certDer.length + pubKeyDer.length < 2 ^ 64) :
    IASReportCert.loadCert machine block (keyBehind certDer pubKeyDer certNodes) (certDer ++ pubKeyDer)
        caKeyMod caKeyExp log =
      .ok { cert with keyId := machine.keccak256 pubKeyDer, pubKeyMod := keyMod, pubKeyExp := keyExp }
        log' := by
  have isBehind := @allBytesAt_keyBehind certDer pubKeyDer certNodes (nonempty_of_components isKey) small
  simp only [IASReportCert.loadCert, Exec.bind_eq_ok, read_eq_ok, check_eq_ok, exists_unit, Exec.pure_apply,
    Outcome.ok.injEq] at loaded ⊢
  obtain ⟨algorithmNode, _, ⟨isAlgorithmNode, rfl⟩, algType, _, ⟨isAlgType, rfl⟩, _, ⟨isAlgorithm, rfl⟩,
    comName, log₁, isName, _, ⟨isIssuer, rfl⟩, validity, _, ⟨isValidity, rfl⟩, _, ⟨begun, rfl⟩, _,
    ⟨unexpired, rfl⟩, _, _, ⟨-, rfl⟩, _, _, ⟨-, rfl⟩, sigValue, _, ⟨isSig, rfl⟩, tbsBytes, _,
    ⟨isTbs, rfl⟩, isVerified, _, ⟨verified, rfl⟩, _, ⟨accepted, rfl⟩, rfl, rfl⟩ := loaded
  -- all but the key is read from where it was
  exact ⟨algorithmNode, _, ⟨firstChildOf_extends _ _ isAlgorithmNode, rfl⟩,
    algType, _, ⟨bytes32At_extends _ _ isAlgType, rfl⟩, _, ⟨isAlgorithm, rfl⟩,
    comName, log₁, getCN_extends _ _ _ _ _ _ isName, _, ⟨isIssuer, rfl⟩,
    validity, _, ⟨getValidityTimestamps_extends _ _ isValidity, rfl⟩, _, ⟨begun, rfl⟩, _, ⟨unexpired, rfl⟩,
    pubKeyDer, _, ⟨isBehind, rfl⟩, _, _, ⟨isKey, rfl⟩,
    sigValue, _, ⟨bitstringAt_extends _ _ isSig, rfl⟩, tbsBytes, _, ⟨allBytesAt_extends _ _ isTbs, rfl⟩,
    isVerified, _, ⟨verified, rfl⟩, _, ⟨accepted, rfl⟩, rfl, rfl⟩

/-- Whoever has seen a report certificate accepted can have any key recorded, as one that may sign
    reports: the signature of the certificate does not cover it. -/
theorem anyKey_recorded {before after later : Registries}
    (accepted : IASReportCertMgr.verifyCertWithNodes machine block certNodes certDer before = .ok () after)
    (sameRoot : later.rootCert = before.rootCert)
    (isKey : LibRsaSha256.extractKeyComponents machine pubKeyDer = .ok (keyMod, keyExp))
    (small : certDer.length + pubKeyDer.length < 2 ^ 64) :
    ∃ forged, IASReportCertMgr.verifyCertWithNodes machine block (keyBehind certDer pubKeyDer certNodes)
        (certDer ++ pubKeyDer) later = .ok () forged ∧
      IASReportCertMgr.getPubKey block (machine.keccak256 pubKeyDer) forged =
        .ok (keyMod, keyExp) forged := by
  obtain ⟨rootUnexpired, cert, log, loaded, -⟩ := verifyCertWithNodes_eq_ok.mp accepted
  obtain ⟨verified, _, -, checked⟩ := (IASReportCert.loadCert_sat certNodes _ _ []).of_ok loaded
  obtain ⟨_, -, -, unexpired⟩ := checked.validity
  rw [← sameRoot] at rootUnexpired loaded
  refine ⟨_, verifyCertWithNodes_eq_ok.mpr
    ⟨rootUnexpired, _, log, loadCert_keyBehind loaded isKey small, rfl⟩, ?_⟩
  simp [IASReportCertMgr.getPubKey, check, Exec.throwIf, verified, Nat.not_le.mpr unexpired]

def shownIssuer : Bytes :=
  derElement 0x30 (derElement 0x31 (derElement 0x30
    (derElement 0x06 [0x55, 0x04, 0x03] ++ derElement 0x0c [0x41])))

/-- An RSA key with the modulus and the exponent. -/
def keyOf (modulus exponent : Bytes) : Bytes :=
  derElement 0x30 (derElement 0x30 (derElement 0x06 [0x01]) ++ derElement 0x03
    (0 :: derElement 0x30 (derElement 0x02 modulus ++ derElement 0x02 exponent)))

/-- The parts of a report certificate that are looked at, from the algorithm to a signature of zero. -/
def shownCert : Bytes :=
  shownAlgorithm ++ shownIssuer ++ shownValidity ++ keyOf [0x21] [0x03] ++ derElement 0x03 [0x00, 0x00]

/-- Where the caller says the parts are. -/
def shownNodes : CertNodesObj where
  root := NodePtr.getPtr 0 2 80
  tbs := {
    root := NodePtr.getPtr 13 15 76
    version := 2
    serialNode := 0
    algTypeNode := NodePtr.getPtr 0 2 12
    issuerNode := NodePtr.getPtr 13 15 26
    validityNode := NodePtr.getPtr 27 29 58
    subjectNode := NodePtr.getPtr 13 15 26
    pubKeyNode := NodePtr.getPtr 59 61 76
    extNode := 0 }
  algTypeNode := NodePtr.getPtr 0 2 12
  sigNode := NodePtr.getPtr 77 79 80

/-- A machine that has one hash for everything. -/
def constantMachine : Machine where
  keccak256 := fun _ => LibRsaSha256.rsaEncryption
  sha256 := fun _ => 0
  ecrecover := fun _ _ _ _ => 0

def shownRoot : IASRootCert.IASRootCertObj where
  isVerified := true
  pubKeyMod := 1 :: List.replicate 31 0
  pubKeyExp := [3]
  notAfter := 1800000000

def shownTx : Tx where
  block := { timestamp := 1700000000, gas := 10, memory := fun _ => 0, free := 128 }
  call := .verifyReportCertWithNodes shownNodes shownCert

set_option maxRecDepth 3000 in
theorem anyKey_recorded_strangersKey : ∃ forged,
    IASReportCertMgr.verifyCertWithNodes constantMachine shownTx.block
        (keyBehind shownCert (keyOf [0x23] [0x05]) shownNodes) (shownCert ++ keyOf [0x23] [0x05])
        (deployed shownRoot) =
      .ok () forged ∧
    IASReportCertMgr.getPubKey shownTx.block LibRsaSha256.rsaEncryption forged =
      .ok ([0x23], [0x05]) forged := by
  have returned : (shownTx.call.run constantMachine shownTx.block (deployed shownRoot)).Returns
      fun _ _ => True := by decide +kernel
  obtain ⟨_, after, accepted, -⟩ := Outcome.returns_iff.mp returned
  have isKey : LibRsaSha256.extractKeyComponents constantMachine (keyOf [0x23] [0x05]) =
      .ok ([0x23], [0x05]) := by
    decide +kernel
  exact anyKey_recorded accepted rfl isKey (by decide +kernel)

/-! ## The nodes of the certificate itself -/

/-- The bytes of a node that lies inside another one. -/
theorem allBytesAt_infix {parent child : Nat} {parentBytes childBytes : Bytes}
    (inside : Inside parent child) (isParent : allBytesAt certDer parent = .ok parentBytes)
    (isChild : allBytesAt certDer child = .ok childBytes) : childBytes <:+: parentBytes := by
  simp only [allBytesAt, bind_eq_ok, add_eq_ok, sub_eq_ok, substringUnsafe_eq_ok] at isParent isChild
  obtain ⟨_, ⟨-, rfl⟩, parentLen, ⟨parentFits, rfl⟩, -, parentInside, rfl⟩ := isParent
  obtain ⟨_, ⟨-, rfl⟩, childLen, ⟨childFits, rfl⟩, -, childInside, rfl⟩ := isChild
  obtain ⟨starts, -, ends⟩ := inside
  -- the child is the parent without what is in front of it, cut to its length
  have isPart : slice certDer (ixs child) (ixl child + 1 - ixs child) =
      slice (slice certDer (ixs parent) (ixl parent + 1 - ixs parent)) (ixs child - ixs parent)
        (ixl child + 1 - ixs child) := by
    simp only [slice, List.drop_take, List.drop_drop, List.take_take]
    rw [show ixs parent + (ixs child - ixs parent) = ixs child by omega, Nat.min_eq_left (by omega)]
  rw [isPart]
  exact (List.take_prefix _ _).isInfix.trans (List.drop_suffix _ _).isInfix

/-- The key that is recorded stands in the certificate, in the bytes that the root key signed with the
    signature of the certificate. -/
structure KeySigned (machine : Machine) (rootCert : IASRootCert.IASRootCertObj) (certDer : Bytes)
    (cert : IASReportCert.IASReportCertObj) : Prop where
  signed : ∃ certNodes pubKeyDer tbsBytes sigValue, NodesOf certDer certNodes ∧
    allBytesAt certDer certNodes.tbs.pubKeyNode = .ok pubKeyDer ∧
    allBytesAt certDer certNodes.tbs.root = .ok tbsBytes ∧
    bitstringAt certDer certNodes.sigNode = .ok sigValue ∧
    cert.keyId = machine.keccak256 pubKeyDer ∧
    LibRsaSha256.extractKeyComponents machine pubKeyDer = .ok (cert.pubKeyMod, cert.pubKeyExp) ∧
    pubKeyDer <:+: tbsBytes ∧
    LibRsaSha256.verifyWithComponents rootCert.pubKeyMod rootCert.pubKeyExp (machine.sha256 tbsBytes)
      sigValue = .ok true

/-- `verifyCert` finds the nodes itself, so it records no key that was not signed, unless the fields of
    `tbsCertificate` go on behind its end. -/
theorem verifyCert_keySigned {before after : Registries} (small : certDer.length < 2 ^ 64)
    (fit : FieldsFit certDer)
    (returned : IASReportCertMgr.verifyCert machine block certDer before = .ok () after) :
    ∃ cert, KeySigned machine before.rootCert certDer cert ∧
      after = { before with reportCerts := Function.update before.reportCerts cert.keyId cert } := by
  rw [IASReportCertMgr.verifyCert, Exec.bind_eq_ok] at returned
  obtain ⟨certNodes, _, isNodes, accepted⟩ := returned
  obtain ⟨⟨log, found⟩, rfl⟩ := reading_eq_ok.mp isNodes
  obtain ⟨-, cert, _, loaded, rfl⟩ := verifyCertWithNodes_eq_ok.mp accepted
  obtain ⟨-, pubKeyDer, isKeyId, checked⟩ := (IASReportCert.loadCert_sat certNodes _ _ []).of_ok loaded
  obtain ⟨verNode, nodes, -⟩ := (loadCertNodes_sat []).of_ok found
  have inside := nodes.inside_of_fieldsFit small fit certNodes.tbs.pubKeyNode
    (by simp [CertTbsNodesObj.children])
  obtain ⟨sigValue, tbsBytes, isSig, isTbs, verified⟩ := checked.signed
  have inTbs := allBytesAt_infix inside isTbs checked.isKey
  exact ⟨cert, { signed := ⟨certNodes, pubKeyDer, tbsBytes, sigValue, ⟨log, found⟩, checked.isKey, isTbs,
    isSig, isKeyId, checked.components, inTbs, verified⟩ }, rfl⟩

theorem verifyCert_keySigned_reportCert : ∃ after cert,
    IASReportCertMgr.verifyCert Sample.tableMachine Sample.thisBlock Sample.reportCert
        (deployed Sample.trustedRoot) = .ok () after ∧
      KeySigned Sample.tableMachine Sample.trustedRoot Sample.reportCert cert ∧
      after.reportCerts = Function.update (fun _ => noReport) cert.keyId cert := by
  have fit : FieldsFit Sample.reportCert :=
    ⟨(3, 247), (6, 196), 202, 202, by decide +kernel, by decide +kernel, by decide +kernel, by decide +kernel,
      by decide⟩
  obtain ⟨after, returned, -⟩ := Sample.verifyCert_reportCert
  obtain ⟨cert, signed, rfl⟩ := verifyCert_keySigned (by decide +kernel) fit returned
  exact ⟨_, cert, returned, signed, rfl⟩

end Decentagram.RaOnchain
