import Decentagram.RaOnchain.CertProvenance

/-! # The certificate chain of an application

An application shows its own certificate and that of the server which signed it.  The chain that is
returned leads to a server that is recorded, and records it first where that is needed.
-/

namespace Decentagram.RaOnchain

open Decentagram.Lib Asn1Decode BytesUtils

/-! ## `DecentAppCert` -/

structure DecentApp where
  isVerified : Bool
  issuerKeyAddr : Address
  issuerEnclaveHash : Bytes32
  appKeyAddr : Address
  appEnclaveHash : Bytes32
  appPlatform : Bytes
  appAuthList : Bytes
deriving DecidableEq, Repr

namespace DecentApp

/-- In memory before it is filled. -/
def blank : DecentApp where
  isVerified := false
  issuerKeyAddr := 0
  issuerEnclaveHash := 0
  appKeyAddr := 0
  appEnclaveHash := 0
  appPlatform := []
  appAuthList := []

end DecentApp

namespace DecentAppCert

def extractDecentAppKey (machine : Machine) (self : DecentApp) (appCertDer : Bytes)
    (certNodes : CertNodesObj) : Except Revert DecentApp := do
  let (keyId, curveId) ← LibSecp256k1Sha256.extractPubKeyAlg certNodes.tbs.pubKeyNode appCertDer
  require (keyId = OIDs.keyEcPublic) "Unsupported Key type"
  require (curveId = OIDs.keyEcSecp256k1) "Unsupported curve"
  let appKeyAddr ← LibSecp256k1Sha256.pubKeyBytesToAddr machine
    (← LibSecp256k1Sha256.extractPubKeyBytes certNodes.tbs.pubKeyNode appCertDer)
  return { self with appKeyAddr }

def verifyAppCertSign (machine : Machine) (self : DecentApp) (appCertDer : Bytes)
    (certNodes : CertNodesObj) : Except Revert Unit := do
  let (signR, signS) ← LibSecp256k1Sha256.extractSignRS certNodes appCertDer
  let tbsBytes ← allBytesAt appCertDer certNodes.tbs.root
  require (LibSecp256k1Sha256.verifySignMsg machine self.issuerKeyAddr tbsBytes signR signS = true)
    "Invalid app cert"

/-- There is room for five entries, and the fifth one is never given an ID. -/
def appEntries : List ExtEntry :=
  neededEntries [OIDs.decentExtVer, OIDs.decentPlatformId, OIDs.decentAppHash, OIDs.decentAuthList, 0]

def extractAppCertExtensions (block : Block) (self : DecentApp) (appCertDer : Bytes)
    (certNodes : CertNodesObj) : Reader DecentApp := do
  let extEntries ← extractNeededExtensions appCertDer certNodes.tbs.extNode certNodes.algTypeNode
    appEntries block.gas
  check (DecentServerCert.IsVersion (entryAt extEntries 0)) "Unsupported Decent ver"
  check ((entryAt extEntries 1).isParsed = true) "Platform ID not found"
  check ((entryAt extEntries 2).isParsed = true) "App hash not found"
  let appEnclaveHash ← read (readBytes32 (entryAt extEntries 2).extnValue 0)
  check ((entryAt extEntries 3).isParsed = true) "App AuthList not found"
  return { self with
    appPlatform := (entryAt extEntries 1).extnValue
    appEnclaveHash
    appAuthList := (entryAt extEntries 3).extnValue }

/-- The issuer is known by then. -/
def loadCert (machine : Machine) (block : Block) (self : DecentApp) (appCertDer : Bytes) :
    Reader DecentApp := do
  let certNodes ← loadCertNodes appCertDer
  let algType ← read (do bytes32At appCertDer (← firstChildOf appCertDer certNodes.algTypeNode))
  check (algType = OIDs.algEcdsaSha256) "alg type mismatch"
  read (verifyAppCertSign machine self appCertDer certNodes)
  let self ← read (extractDecentAppKey machine self appCertDer certNodes)
  let self ← extractAppCertExtensions block self appCertDer certNodes
  return { self with isVerified := true }

end DecentAppCert

/-! ## `DecentCertChain` -/

namespace DecentCertChain

def verifyCertChain (machine : Machine) (block : Block) (svrCertDer appCertDer : Bytes) :
    Contract DecentApp := do
  let svrCertNodes ← reading (loadCertNodes svrCertDer)
  let svrPubKeyBytes ← attempt
    (LibSecp256k1Sha256.extractPubKeyBytes svrCertNodes.tbs.pubKeyNode svrCertDer)
  let svrKeyAddr ← attempt (LibSecp256k1Sha256.pubKeyBytesToAddr machine svrPubKeyBytes)
  if DecentServerCertMgr.isDecentServer (← Exec.get) svrKeyAddr = 0 then
    DecentServerCertMgr.verifyCertWithNodes machine block svrCertNodes svrCertDer
  let svrEnclaveHash := DecentServerCertMgr.isDecentServer (← Exec.get) svrKeyAddr
  reading (DecentAppCert.loadCert machine block
    { DecentApp.blank with issuerEnclaveHash := svrEnclaveHash, issuerKeyAddr := svrKeyAddr } appCertDer)

end DecentCertChain

/-! ## What a chain shows -/

/-- The certificate is that of the application, and signed with the key of its issuer. -/
structure AppOrigin (machine : Machine) (block : Block) (appCertDer : Bytes) (app : DecentApp) : Prop where
  shown : ∃ certNodes log, loadCertNodes appCertDer [] = .ok certNodes log ∧
    (∃ signR signS tbsBytes, LibSecp256k1Sha256.extractSignRS certNodes appCertDer = .ok (signR, signS) ∧
      allBytesAt appCertDer certNodes.tbs.root = .ok tbsBytes ∧
      LibSecp256k1Sha256.verifySignMsg machine app.issuerKeyAddr tbsBytes signR signS = true) ∧
    (∃ pubKeyBytes, LibSecp256k1Sha256.extractPubKeyBytes certNodes.tbs.pubKeyNode appCertDer =
        .ok pubKeyBytes ∧
      LibSecp256k1Sha256.pubKeyBytesToAddr machine pubKeyBytes = .ok app.appKeyAddr) ∧
    ∃ extEntries log', extractNeededExtensions appCertDer certNodes.tbs.extNode certNodes.algTypeNode
        DecentAppCert.appEntries block.gas log = .ok extEntries log' ∧
      (entryAt extEntries 2).isParsed = true ∧
      readBytes32 (entryAt extEntries 2).extnValue 0 = .ok app.appEnclaveHash

variable {machine : Machine} {block : Block}

theorem DecentAppCert.extractDecentAppKey_eq_ok {self app : DecentApp} {appCertDer : Bytes}
    {certNodes : CertNodesObj}
    (extracted : extractDecentAppKey machine self appCertDer certNodes = .ok app) :
    ∃ appKeyAddr pubKeyBytes, app = { self with appKeyAddr } ∧
      LibSecp256k1Sha256.extractPubKeyBytes certNodes.tbs.pubKeyNode appCertDer = .ok pubKeyBytes ∧
      LibSecp256k1Sha256.pubKeyBytesToAddr machine pubKeyBytes = .ok appKeyAddr := by
  simp only [extractDecentAppKey, bind_eq_ok, require_eq_ok, pure_eq_ok, exists_unit] at extracted
  obtain ⟨_, _, -, -, pubKeyBytes, isKey, appKeyAddr, isAddr, rfl⟩ := extracted
  exact ⟨appKeyAddr, pubKeyBytes, rfl, isKey, isAddr⟩

theorem DecentAppCert.verifyAppCertSign_eq_ok {self : DecentApp} {appCertDer : Bytes}
    {certNodes : CertNodesObj}
    (verified : verifyAppCertSign machine self appCertDer certNodes = .ok ()) :
    ∃ signR signS tbsBytes, LibSecp256k1Sha256.extractSignRS certNodes appCertDer = .ok (signR, signS) ∧
      allBytesAt appCertDer certNodes.tbs.root = .ok tbsBytes ∧
      LibSecp256k1Sha256.verifySignMsg machine self.issuerKeyAddr tbsBytes signR signS = true := by
  simp only [verifyAppCertSign, bind_eq_ok, require_eq_ok] at verified
  obtain ⟨⟨signR, signS⟩, isSign, tbsBytes, isTbs, signed⟩ := verified
  exact ⟨signR, signS, tbsBytes, isSign, isTbs, signed⟩

/-- The issuer is left as it was. -/
theorem DecentAppCert.loadCert_sat (self : DecentApp) (appCertDer : Bytes) :
    Exec.Sat (loadCert machine block self appCertDer) []
      (fun app _ => app.isVerified = true ∧ app.issuerKeyAddr = self.issuerKeyAddr ∧
        app.issuerEnclaveHash = self.issuerEnclaveHash ∧ AppOrigin machine block appCertDer app)
      fun _ _ => True := by
  simp only [loadCert, extractAppCertExtensions, Exec.sat_bind, sat_read, sat_check, implies_true, and_true,
    true_and, Exec.sat_pure]
  refine (Exec.sat_self _ _).mono (fun certNodes log loaded => ?_) fun _ _ _ => trivial
  intro algType _ _ _ verified named extracted
  obtain ⟨appKeyAddr, pubKeyBytes, rfl, isKey, isAddr⟩ := extractDecentAppKey_eq_ok extracted
  refine (Exec.sat_self _ _).mono (fun extEntries log' found => ?_) fun _ _ _ => trivial
  intro _ _ isHash appEnclaveHash hashed _
  exact ⟨rfl, rfl,
    { shown := ⟨certNodes, log, loaded, verifyAppCertSign_eq_ok verified,
        ⟨pubKeyBytes, isKey, isAddr⟩, extEntries, log', found, isHash, hashed⟩ }⟩

/-- The key of a server, as it stands in its certificate. -/
def KeyOfServer (machine : Machine) (svrCertDer : Bytes) (svrKeyAddr : Address) : Prop :=
  ∃ certNodes pubKeyBytes, NodesOf svrCertDer certNodes ∧
    LibSecp256k1Sha256.extractPubKeyBytes certNodes.tbs.pubKeyNode svrCertDer = .ok pubKeyBytes ∧
    LibSecp256k1Sha256.pubKeyBytesToAddr machine pubKeyBytes = .ok svrKeyAddr

/-- What a chain that is verified may have changed, and what it shows: the issuer of the application is
    the server of the other certificate, which is recorded by then. -/
structure ChainShows (machine : Machine) (block : Block) (svrCertDer appCertDer : Bytes)
    (before : Registries) (app : DecentApp) (after : Registries) : Prop where
  registered : after = before ∨ Transacts machine before { block, call := .verifyServerCert svrCertDer } after
  isIssuer : KeyOfServer machine svrCertDer app.issuerKeyAddr
  issuerVerified : (after.serverCerts app.issuerKeyAddr).isVerified = true
  issuerHash : app.issuerEnclaveHash = DecentServerCertMgr.isDecentServer after app.issuerKeyAddr
  origin : AppOrigin machine block appCertDer app

theorem isVerified_of_isDecentServer {registries : Registries} {svrKeyAddr : Address}
    (isServer : DecentServerCertMgr.isDecentServer registries svrKeyAddr ≠ 0) :
    (registries.serverCerts svrKeyAddr).isVerified = true := by
  by_contra notVerified
  exact isServer (by simp [DecentServerCertMgr.isDecentServer, notVerified])

/-- The server that is recorded is the one whose key stands in the certificate. -/
theorem registerServer_sat {certNodes : CertNodesObj} {certDer svrPubKeyBytes : Bytes} {svrKeyAddr : Address}
    (isKey : LibSecp256k1Sha256.extractPubKeyBytes certNodes.tbs.pubKeyNode certDer = .ok svrPubKeyBytes)
    (isAddr : LibSecp256k1Sha256.pubKeyBytesToAddr machine svrPubKeyBytes = .ok svrKeyAddr)
    (before : Registries) :
    Exec.Sat (DecentServerCertMgr.verifyCertWithNodes machine block certNodes certDer) before
      (fun _ after => (after.serverCerts svrKeyAddr).isVerified = true) fun _ _ => True := by
  refine (serverCert_sat certNodes certDer before).mono ?_ fun _ _ _ => trivial
  rintro _ _ ⟨showsServer⟩
  obtain ⟨_, -, -, extracted⟩ := showsServer.shown
  simp only [DecentServerCert.extractDecentServerKey, bind_eq_ok, require_eq_ok, exists_unit, isKey,
    Except.ok.injEq] at extracted
  obtain ⟨_, -, _, -, -, _, -, -, -, _, rfl, isAddr'⟩ := extracted
  rw [isAddr] at isAddr'
  cases isAddr'
  simpa using showsServer.verified

/-- The call with the nodes of the certificate is the call that finds them. -/
theorem verifyCert_of_nodes {certNodes : CertNodesObj} {certDer : Bytes} {before after : Registries}
    {log : List SiblingStep} (loaded : loadCertNodes certDer [] = .ok certNodes log)
    (returned : DecentServerCertMgr.verifyCertWithNodes machine block certNodes certDer before =
      .ok () after) : DecentServerCertMgr.verifyCert machine block certDer before = .ok () after := by
  have isNodes : reading (loadCertNodes certDer) before = .ok certNodes before := by simp [reading, loaded]
  exact Exec.bind_eq_ok.mpr ⟨certNodes, before, isNodes, returned⟩

theorem verifyCertChain_sat (svrCertDer appCertDer : Bytes) (before : Registries) :
    Exec.Sat (DecentCertChain.verifyCertChain machine block svrCertDer appCertDer) before
      (fun app after => ChainShows machine block svrCertDer appCertDer before app after) fun _ _ => True := by
  simp only [DecentCertChain.verifyCertChain, Exec.sat_bind, sat_reading, sat_attempt, implies_true, and_true]
  refine (Exec.sat_self _ _).mono (fun certNodes log loaded => ?_) fun _ _ _ => trivial
  intro svrPubKeyBytes isKey svrKeyAddr isAddr
  -- what is behind the check, whichever way it went
  have rest (middle : Registries)
      (registered : middle = before ∨
        Transacts machine before { block, call := .verifyServerCert svrCertDer } middle)
      (issuerVerified : (middle.serverCerts svrKeyAddr).isVerified = true) :
      Exec.Sat (DecentAppCert.loadCert machine block
        { DecentApp.blank with
          issuerEnclaveHash := DecentServerCertMgr.isDecentServer middle svrKeyAddr
          issuerKeyAddr := svrKeyAddr } appCertDer) []
        (fun app _ => ChainShows machine block svrCertDer appCertDer before app middle)
        fun _ _ => True := by
    refine (DecentAppCert.loadCert_sat _ appCertDer).mono ?_ fun _ _ _ => trivial
    rintro app _ ⟨-, isIssuer, isHash, origin⟩
    exact { registered
            isIssuer := ⟨certNodes, svrPubKeyBytes, ⟨log, loaded⟩, isKey, by rw [isIssuer]; exact isAddr⟩
            issuerVerified := by rw [isIssuer]; exact issuerVerified
            issuerHash := by rw [isIssuer, isHash]
            origin }
  rw [Exec.sat_get, Exec.sat_ite]
  constructor
  · intro _
    rw [Exec.sat_bind]
    refine ((Exec.sat_self _ _).and (registerServer_sat isKey isAddr before)).mono ?_ fun _ _ _ => trivial
    rintro _ middle ⟨returned, issuerVerified⟩
    rw [Exec.sat_bind, Exec.sat_get, sat_reading]
    exact rest middle (.inr (.returns (verifyCert_of_nodes loaded returned))) issuerVerified
  · intro isServer
    rw [Exec.sat_bind, Exec.sat_get, sat_reading]
    exact rest before (.inl rfl) (isVerified_of_isDecentServer isServer)

end Decentagram.RaOnchain
