import Decentagram.RaOnchain.CertProvenance
import Decentagram.SimpleRlp.Writer

/-! # Servers that are attested

What an enclave writes into its certificate, the registry of servers reads as it was written, and takes
if the report of the attestation service is in order.  Every server that it has recorded was attested.
-/

namespace Decentagram.RaOnchain

open Decentagram.Lib Asn1Decode BytesUtils WordMemory
open SimpleRlp (writeRlp)

/-! ## What an enclave writes -/

variable {machine : Machine} {block : Block}

theorem Block.holds_holding (block : Block) {bytes : Bytes} (small : bytes.length < 2 ^ 256) :
    Holds (block.holding bytes) block.free bytes := holds_newBytes small

theorem Block.below_freeBehind (block : Block) (bytes : Bytes) :
    block.free + 32 + bytes.length ≤ block.freeBehind bytes := by
  rw [freeBehind]
  omega

/-- The string that is returned, as it was expected. -/
theorem contents_of_allocates {memory : Memory} {free : Nat} {returned : Except Revert (Memory × Nat)}
    {bytes : Bytes} (allocates : Allocates memory free returned (.ok bytes)) :
    (do return contents (← returned)) = (.ok bytes : Except Revert Bytes) := by
  obtain ⟨memory', ptr, rfl, -, holds, -⟩ := allocates
  rw [ok_bind, contents, holds.length, holds.bytes]
  rfl

/-- What an enclave encodes is decoded to what it was. -/
theorem decodeBase64_encode (block : Block) (bytes : Bytes)
    (small : (SimpleObjects.Base64.encode true bytes).length < 2 ^ 256) :
    decodeBase64 block (SimpleObjects.Base64.encode true bytes) = .ok bytes := by
  rw [decodeBase64]
  exact contents_of_allocates ((Base64.encodes bytes).decode (fun none => by rw [none]; rfl)
    (block.holds_holding small) (block.below_freeBehind _))

/-- The list that an enclave puts the report into. -/
def Report.object (report : Report) : Rlp.Object :=
  .list [.list [.bytes report.certDer], .bytes report.json, .bytes report.sig]

theorem itemOf_of_represents {memory : Memory} {free : Nat} {items : List RLPReader.RLPItem}
    {objects : List Rlp.Object} (represents : List.Forall₂ (RLPReader.Represents memory free) items objects)
    {i : Nat} {object : Rlp.Object} (isObject : objects[i]? = some object) :
    ∃ item, itemOf items i = .ok item ∧ RLPReader.Represents memory free item object := by
  obtain ⟨inside, rfl⟩ := List.getElem?_eq_some_iff.mp isObject
  have inside' : i < items.length := represents.length_eq ▸ inside
  refine ⟨items[i], ?_, represents.get inside' inside⟩
  rw [itemOf, List.getElem?_eq_getElem inside']

section

variable {encoding payload : Bytes} {items : List RLPReader.RLPItem} {objects : List Rlp.Object}
  (bounded : block.freeBehind encoding < 2 ^ 256)
  (represents : List.Forall₂ (RLPReader.Represents (block.holding encoding) (block.freeBehind encoding))
    items objects)
include bounded represents

/-- A string of the list is read as it was written. -/
theorem bytesOfItem_eq {i : Nat} (isBytes : objects[i]? = some (.bytes payload)) :
    bytesOfItem block encoding items i = .ok payload := by
  obtain ⟨item, isItem, represents'⟩ := itemOf_of_represents represents isBytes
  rw [bytesOfItem, isItem, ok_bind]
  exact contents_of_allocates (RLPReader.toBytes_allocates bounded represents')

/-- So is a list. -/
theorem toList_itemOf {i : Nat} {inner : List Rlp.Object} (isList : objects[i]? = some (.list inner)) :
    ∃ found, (do RLPReader.toList (block.holding encoding) (← itemOf items i)) = .ok found ∧
      List.Forall₂ (RLPReader.Represents (block.holding encoding) (block.freeBehind encoding))
        found inner := by
  obtain ⟨item, isItem, represents'⟩ := itemOf_of_represents represents isList
  rw [isItem, ok_bind]
  exact RLPReader.toList_eq bounded represents'

end

/-- The contract finds the parts of the report where the enclave wrote them. -/
theorem hasReport_writeRlp (block : Block) (report : Report)
    (small : (writeRlp report.object).length < 2 ^ 64)
    (bounded : block.freeBehind (writeRlp report.object) < 2 ^ 256) :
    HasReport block (writeRlp report.object) report := by
  have encodes := (SimpleRlp.writeRlp_encodes report.object small).loosen
  have holds := @Block.holds_holding block (writeRlp report.object) (by omega)
  have below := block.below_freeBehind (writeRlp report.object)
  generalize isEncoding : writeRlp report.object = encoding at *
  have whole : RLPReader.Represents (block.holding encoding) (block.freeBehind encoding)
      (RLPReader.toRlpItem (block.holding encoding) block.free) report.object := by
    refine ⟨?_, ?_⟩
    · rw [RLPReader.toRlpItem, holds.length]
      exact below
    · rw [RLPReader.toRlpItem, holds.length, holds.bytes]
      exact encodes
  obtain ⟨rep, isRep, represents⟩ := RLPReader.toList_eq bounded whole
  have isCerts : [.list [.bytes report.certDer], .bytes report.json, .bytes report.sig][0]? =
      some (Rlp.Object.list [.bytes report.certDer]) := rfl
  obtain ⟨repCerts, isRepCerts, representsCerts⟩ := toList_itemOf bounded represents isCerts
  exact { parts := ⟨rep, repCerts, isRep, isRepCerts, representsCerts.length_eq,
    bytesOfItem_eq bounded representsCerts rfl, bytesOfItem_eq bounded represents rfl,
    bytesOfItem_eq bounded represents rfl⟩ }

/-! ## What the registry takes -/

variable {before after : Registries} {certNodes : CertNodesObj} {certDer : Bytes}

/-- The hash of the enclave, if the key of the report is recorded or can be, and signed the report. -/
theorem verifyEPIDAttestRepSet_accepts {stdRepData attestRepRlp keyRing : Bytes} {report : Report}
    {repKeyId enclaveHash : Bytes32} (hasReport : HasReport block attestRepRlp report)
    (isKeyId : DecentServerCert.verifyEPIDReportCert machine block report.certDer before = .ok repKeyId after)
    (signed : IASReportCertMgr.verifySign block repKeyId (machine.sha256 report.json) report.sig after =
      .ok true after)
    (attests : DecentServerCert.verifyEPIDAttestRep machine block stdRepData report.json keyRing =
      .ok enclaveHash) :
    DecentServerCert.verifyEPIDAttestRepSet machine block stdRepData attestRepRlp keyRing before =
      .ok enclaveHash after := by
  obtain ⟨rep, repCerts, isRep, isRepCerts, single, isCert, isJson, isSig⟩ := hasReport.parts
  rw [bytesOfItem] at isCert isJson isSig
  rw [DecentServerCert.verifyEPIDAttestRepSet]
  refine Exec.bind_eq_ok.mpr ⟨rep, before, attempt_eq_ok.mpr ⟨isRep, rfl⟩, ?_⟩
  refine Exec.bind_eq_ok.mpr ⟨repCerts, before, attempt_eq_ok.mpr ⟨isRepCerts, rfl⟩, ?_⟩
  refine Exec.bind_eq_ok.mpr ⟨(), before, check_eq_ok.mpr ⟨single, rfl⟩, ?_⟩
  refine Exec.bind_eq_ok.mpr ⟨report.certDer, before, attempt_eq_ok.mpr ⟨isCert, rfl⟩, ?_⟩
  refine Exec.bind_eq_ok.mpr ⟨repKeyId, after, isKeyId, ?_⟩
  refine Exec.bind_eq_ok.mpr ⟨report.json, after, attempt_eq_ok.mpr ⟨isJson, rfl⟩, ?_⟩
  refine Exec.bind_eq_ok.mpr ⟨report.sig, after, attempt_eq_ok.mpr ⟨isSig, rfl⟩, ?_⟩
  refine Exec.bind_eq_ok.mpr ⟨true, after, signed, ?_⟩
  exact Exec.bind_eq_ok.mpr ⟨(), after, check_eq_ok.mpr ⟨rfl, rfl⟩, attempt_eq_ok.mpr ⟨attests, rfl⟩⟩

/-- What the contract asks of the entries that it found in the certificate of a server. -/
structure Supported (machine : Machine) (extEntries : List ExtEntry) : Prop where
  version : DecentServerCert.IsVersion (entryAt extEntries 0)
  parsed : ∀ i ∈ [1, 2, 3, 4], (entryAt extEntries i).isParsed = true
  platform : machine.keccak256 (entryAt extEntries 1).extnValue = machine.keccak256 (ascii "SGX_EPID")

/-- A server that is attested is recorded under its key. -/
theorem verifyServerCert_accepts {extEntries : List ExtEntry} {log : List SiblingStep}
    {enclaveHash : Bytes32} {serverKeyAddr : Address}
    (isAlg : (do bytes32At certDer (← firstChildOf certDer certNodes.algTypeNode)) =
      .ok OIDs.algEcdsaSha256)
    (found : extractNeededExtensions certDer certNodes.tbs.extNode certNodes.algTypeNode serverEntries
      block.gas [] = .ok extEntries log)
    (supported : Supported machine extEntries)
    (attested : DecentServerCert.verifyEPIDAttestRepSet machine block (entryAt extEntries 3).extnValue
      (entryAt extEntries 4).extnValue (entryAt extEntries 2).extnValue before = .ok enclaveHash after)
    (extracted : DecentServerCert.extractDecentServerKey machine certNodes.tbs.pubKeyNode certDer
      (entryAt extEntries 2).extnValue = .ok serverKeyAddr) :
    DecentServerCertMgr.verifyCertWithNodes machine block certNodes certDer before =
      .ok () { after with serverCerts := (Function.update after.serverCerts serverKeyAddr
        { isVerified := true, serverKeyAddr, enclaveHash }) } := by
  obtain ⟨version, parsed, platform⟩ := supported
  have loaded : DecentServerCert.loadCert machine block certNodes certDer before =
      .ok { isVerified := true, serverKeyAddr, enclaveHash } after := by
    rw [DecentServerCert.loadCert]
    refine Exec.bind_eq_ok.mpr ⟨_, before, attempt_eq_ok.mpr ⟨isAlg, rfl⟩, ?_⟩
    refine Exec.bind_eq_ok.mpr ⟨(), before, check_eq_ok.mpr ⟨rfl, rfl⟩, ?_⟩
    refine Exec.bind_eq_ok.mpr ⟨extEntries, before, reading_eq_ok.mpr ⟨⟨log, found⟩, rfl⟩, ?_⟩
    refine Exec.bind_eq_ok.mpr ⟨(), before, check_eq_ok.mpr ⟨version, rfl⟩, ?_⟩
    refine Exec.bind_eq_ok.mpr ⟨(), before, check_eq_ok.mpr ⟨parsed 1 (by simp), rfl⟩, ?_⟩
    refine Exec.bind_eq_ok.mpr ⟨(), before, check_eq_ok.mpr ⟨parsed 2 (by simp), rfl⟩, ?_⟩
    refine Exec.bind_eq_ok.mpr ⟨(), before, check_eq_ok.mpr ⟨platform, rfl⟩, ?_⟩
    refine Exec.bind_eq_ok.mpr ⟨(), before, check_eq_ok.mpr ⟨parsed 3 (by simp), rfl⟩, ?_⟩
    refine Exec.bind_eq_ok.mpr ⟨(), before, check_eq_ok.mpr ⟨parsed 4 (by simp), rfl⟩, ?_⟩
    refine Exec.bind_eq_ok.mpr ⟨enclaveHash, after, attested, ?_⟩
    exact Exec.bind_eq_ok.mpr ⟨serverKeyAddr, after, attempt_eq_ok.mpr ⟨extracted, rfl⟩, rfl⟩
  exact Exec.bind_eq_ok.mpr ⟨_, after, loaded, rfl⟩

/-! ## Every run -/

variable {rootCert : IASRootCert.IASRootCertObj} {taken : Transactions}

namespace Sample

open BigEndian NodePtr

/-! A server with the report that the report key signed, and an application whose certificate the server
signed. -/

def ecdsaAlgorithm : Bytes := derElement 0x30 (derElement 0x06 (digits 8 0x2a8648ce3d040302))

def secp256k1Key (point : Nat) : Bytes :=
  derElement 0x30
    (derElement 0x30
        (derElement 0x06 (digits 7 0x2a8648ce3d0201) ++ derElement 0x06 (digits 5 0x2b8104000a)) ++
      derElement 0x03 (0 :: 4 :: digits 64 point))

def serverPoint : Nat :=
  0x3af446a4bf68093721b83b79b6a2055a6603d2f83b554ab2dfa759b09abcbf55 * 2 ^ 256 +
    0xc55d4d5383b0f5ccdf796302a69941cb818ac13801aac7f035e8944104d3b482

def appPoint : Nat :=
  0xa6cdba6b197512c59a53ba6b0a5050a0328064234fb7a527ec579e5f0b30f581 * 2 ^ 256 +
    0xf7823e6f694c4155abf9137ef5fbfc5d9e5d5f1dfa4b25b85ae06b529ae09a13

def serverKeyAddr : Address := 0xf247f5f04e76ff01ddc08ad4ad2f7b5f8894f401#160

def appKeyAddr : Address := 0x3475b1e4e188e7928aca1a4659d933e11546cee4#160

def serverHash : Bytes32 := 0x5e5e5e5e5e5e5e5e5e5e5e5e5e5e5e5e5e5e5e5e5e5e5e5e5e5e5e5e5e5e5e5e#256

def appHash : Bytes32 := 0xa9a9a9a9a9a9a9a9a9a9a9a9a9a9a9a9a9a9a9a9a9a9a9a9a9a9a9a9a9a9a9a9#256

/-- The only key of the server. -/
def keyRing : Bytes := digits 32 0x984c1b5400686aace69701e680377d9effe3798212c32c8dbbb7419adfcf7dfa

def stdRepData : Bytes := digits 32 0x0102030405060708090a0b0c0d0e0f101112131415161718191a1b1c1d1e1f20

def keyRingHash : Bytes32 := 0x1760189843ed9daf1483bdd3fc6fff56dc3cca199b8d34f03a28e7de4039aa85#256

def repDataHash : Bytes32 := 0xa0b3f14d8da5a7b19e25c2f131ff2ee9d42ad677e9e5c88d259b912104c8a7d4#256

def quoteBody : Bytes :=
  List.replicate 112 0 ++ wordBytes serverHash ++ List.replicate 224 0 ++ wordBytes repDataHash ++
    List.replicate 32 0

def reportJson : Bytes :=
  ascii "\x7b\"isvEnclaveQuoteStatus\":\"OK\",\"isvEnclaveQuoteBody\":\"" ++
    SimpleObjects.Base64.encode true quoteBody ++ ascii "\"\x7d"

def signedReport : Report where
  certDer := reportCert
  json := reportJson
  sig := digits 32 0x1a80437717fc3680bfbe11aa0495e654edf73d3c60b9c331a195e77d518e8e47

def extension (last value : Bytes) : Bytes :=
  derNode 0x30 (derElement 0x06 (digits 20 0x6982f5c89a94ffdfaaab8591c1b5f7c2f782b01e ++ last) ++
    derNode 0x04 value)

def serverCert : Bytes :=
  certOf (tbsOf ecdsaAlgorithm (ascii "Decent Server") (ascii "Decent Server") (secp256k1Key serverPoint)
      (extension [1] (ascii "1") ++ extension [2] (ascii "SGX_EPID") ++ extension [4] keyRing ++
        extension [3, 1, 1] stdRepData ++ extension [3, 1, 2] (writeRlp signedReport.object)))
    ecdsaAlgorithm
    (derSignature 0xdadee9e816410579aa474aa7dfd8dcde399c8f9b40182e19d92cf7eaeedfd39b
      0x59c448d79cdd989f8ee6c4b9e9e9abd2a1fe25e871ec6fd06cebe9588993e833)

def serverNodes : CertNodesObj :=
  nodesOf (getPtr 0 4 1433) (getPtr 4 8 1347) (getPtr 13 15 15) (getPtr 16 18 27) (getPtr 28 30 53)
    (getPtr 54 56 85) (getPtr 86 88 111) (getPtr 112 114 199) (getPtr 200 204 1347) (getPtr 1348 1350 1359)
    (getPtr 1360 1362 1433)

def appTbs : Bytes :=
  tbsOf ecdsaAlgorithm (ascii "Decent Server") (ascii "Decent App") (secp256k1Key appPoint)
    (extension [1] (ascii "1") ++ extension [2] (ascii "SGX_EPID") ++ extension [5] (wordBytes appHash) ++
      extension [6] [0xc0])

def appSigR : Bytes32 := 0xaf8087b17161bc57a88c182b795fff05829894a22d57c7bdc2a5e10c14aa9aa3#256

def appSigS : Bytes32 := 0x40888128d75078930396bb886cb90c4341604ef937b620fd32f792b313e6ead#256

def appCert : Bytes := certOf appTbs ecdsaAlgorithm (derSignature appSigR.toNat appSigS.toNat)

def appTbsHash : Bytes32 := 0x6c556ba6e20f48702abbc6b31ada37773b7675f3634e40a16c080d1d47c0ba4f#256

/-- The entries of the server's certificate, as they are found. -/
def serverExtEntries : List ExtEntry :=
  [{ isParsed := true, extnID := OIDs.decentExtVer, isCritical := false, extnValue := ascii "1" },
    { isParsed := true, extnID := OIDs.decentPlatformId, isCritical := false, extnValue := ascii "SGX_EPID" },
    { isParsed := true, extnID := OIDs.decentHashedKeys, isCritical := false, extnValue := keyRing },
    { isParsed := true, extnID := OIDs.decentStdRepData, isCritical := false, extnValue := stdRepData },
    { isParsed := true, extnID := OIDs.decentAttestation, isCritical := false
      extnValue := writeRlp signedReport.object }]

/-! The key of the application signed two messages under one event, and the text that revokes it. -/

def eventId : Bytes32 := 1

def content1 : Bytes32 := 2

def content2 : Bytes32 := 3

def message1SigR : Bytes32 := 0xda1188428da7836091698cd4f64449d0082bc543697d1000dce21ef96191699e#256

def message1SigS : Bytes32 := 0x1cf819ef5cfb796e7eb7345ed738aa9f27054c0c9e53478b49738e8ca5720790#256

def message2SigR : Bytes32 := 0x6082defd254a5821ea2475b1fcfbaff6208b67e7eccf8e3dfd8f42d1ea07746d#256

def message2SigS : Bytes32 := 0x0ef75e11cca066aeed0c78350e6dc7a6b15eef27b7d7e98a7cda50ff69a902a0#256

def revokeSigR : Bytes32 := 0x24dc088e7e2875c347c9a9979747a89bb3498007c94b94f6a402482c68755fa3#256

def revokeSigS : Bytes32 := 0x707c2b0bfe9e5ecbd132c28c641e81228c305769b72ce43ab44f950ebf658b4a#256

def message1Hash : Bytes32 := 0xd6ba9329f8932c12192b37849f772104d20048f76434a3290512d9d814e4116f#256

def message2Hash : Bytes32 := 0xce44a8ee02db1a76906b0e9fd753893971c4db9a2341b0049d61f7fcd2a60adf#256

/-- The text, as a word. -/
def revokingWord : Bytes32 := BitVec.ofNat 256 (value (ascii "REVOKE THIS PRIVATE KEY         "))

/-- Who signed a hash. -/
def signers : List ((Bytes32 × Bytes32 × Bytes32) × Address) :=
  [((appTbsHash, appSigR, appSigS), serverKeyAddr), ((message1Hash, message1SigR, message1SigS), appKeyAddr),
    ((message2Hash, message2SigR, message2SigS), appKeyAddr),
    ((revokingWord, revokeSigR, revokeSigS), appKeyAddr)]

def chainMachine : Machine where
  keccak256 := hashOf (keccak256Table ++ [
    (ascii "OK", 0xdaa4f5d475c02455977059e29f0bd4c2f7e92e8cfa8026b3dcd2c374e8a520e6#256),
    (ascii "SGX_EPID", 0xbc2cb71011c3fd2cbc501b2311020186991ea81bc61a7b822004f34bfbd3e22f#256),
    (digits 64 serverPoint, 0x46674c88127644b839022dfff247f5f04e76ff01ddc08ad4ad2f7b5f8894f401#256),
    (digits 64 appPoint, 0xa8f7436bc66b9ece014ea5c83475b1e4e188e7928aca1a4659d933e11546cee4#256)])
  sha256 := hashOf (sha256Table ++ [
    (reportJson, 0x56773492ed5df75f482c5d7e5526a605b21737aa0104c8c1484f2839b2d9e590#256),
    (keyRing, keyRingHash),
    (stdRepData ++ wordBytes 0 ++ wordBytes keyRingHash, repDataHash),
    (secp256k1Key serverPoint, 0x984c1b5400686aace69701e680377d9effe3798212c32c8dbbb7419adfcf7dfa#256),
    (appTbs, appTbsHash),
    (wordBytes eventId ++ wordBytes content1, message1Hash),
    (wordBytes eventId ++ wordBytes content2, message2Hash)])
  -- every signature here is of the one parity
  ecrecover := fun hash v r s => if v = 27 then (signers.lookup (hash, r, s)).getD 0 else 0

set_option maxRecDepth 3000 in
/-- What is read of the server's certificate, in one evaluation of its bytes. -/
theorem serverCert_reads :
    NodesOf serverCert serverNodes ∧
      (∃ log, extractNeededExtensions serverCert serverNodes.tbs.extNode serverNodes.algTypeNode
        serverEntries thisBlock.gas [] = .ok serverExtEntries log) ∧
      (do bytes32At serverCert (← firstChildOf serverCert serverNodes.algTypeNode)) =
        .ok OIDs.algEcdsaSha256 ∧
      LibSecp256k1Sha256.extractPubKeyBytes serverNodes.tbs.pubKeyNode serverCert =
        .ok (digits 64 serverPoint) ∧
      DecentServerCert.extractDecentServerKey chainMachine serverNodes.tbs.pubKeyNode serverCert keyRing =
        .ok serverKeyAddr ∧
      LibSecp256k1Sha256.pubKeyBytesToAddr chainMachine (digits 64 serverPoint) = .ok serverKeyAddr ∧
      DecentServerCert.IsVersion (entryAt serverExtEntries 0) ∧
      (∀ i ∈ [1, 2, 3, 4], (entryAt serverExtEntries i).isParsed = true) ∧
      (writeRlp signedReport.object).length < 1024 := by
  decide +kernel

theorem nodesOf_serverCert : NodesOf serverCert serverNodes := by
  obtain ⟨isNodes, -⟩ := serverCert_reads
  exact isNodes

/-! ### The report -/

/-- Up to the quote that ends the name of the body. -/
def reportFront : Bytes := ascii "\x7b\"isvEnclaveQuoteStatus\":\"OK\",\"isvEnclaveQuoteBody"

open DecentServerCert

set_option maxRecDepth 3000 in
/-- What is read of the report, in one evaluation of its text. -/
theorem reportJson_reads :
    (reportFront.length = 50 ∧
      ascii "\x7b\"isvEnclaveQuoteStatus\":\"OK\",\"isvEnclaveQuoteBody\":\"" =
        reportFront ++ [quote, 0x3a, quote] ∧
      30 + (ascii "\"isvEnclaveQuoteBody" ++ [quote]).length = reportFront.length + 1) ∧
    ((SimpleObjects.Base64.encode true quoteBody).length = 576 ∧
      quote ∉ SimpleObjects.Base64.encode true quoteBody ∧
      FirstOccurrence reportJson (ascii "\"isvEnclaveQuoteBody" ++ [quote]) 30) ∧
    jsonSimpleReadValPos reportJson (ascii "\"isvEnclaveQuoteStatus\"") = .ok (26, 2) ∧
    substringFast reportJson 26 2 = .ok (ascii "OK") ∧
    readBytes32 quoteBody epidQuoteEnclHashPos = .ok serverHash ∧
    readBytes32 quoteBody epidQuoteRepDataPos = .ok repDataHash ∧
    expectedRepData chainMachine stdRepData keyRing = .ok repDataHash := by
  decide +kernel

/-- The value of the body, between the quotes behind its name. -/
theorem quotedAfter_reportJson :
    QuotedAfter reportJson reportFront [0x3a] (SimpleObjects.Base64.encode true quoteBody) [0x7d] where
  isText := by
    obtain ⟨⟨-, isFront, -⟩, -⟩ := reportJson_reads
    have isEnd : ascii "\"\x7d" = [quote, 0x7d] := by decide
    simp [reportJson, isFront, isEnd]
  noQuote := by decide
  goesOn := by decide

theorem readValPos_quoteBody :
    jsonSimpleReadValPos reportJson (ascii "\"isvEnclaveQuoteBody\"") = .ok (53, 576) := by
  obtain ⟨⟨front, -, ends⟩, ⟨length, noQuote, isFirst⟩, -⟩ := reportJson_reads
  have found := (quotedAfter_reportJson.lookup_iff (ascii "\"isvEnclaveQuoteBody")).mpr
    ⟨⟨30, isFirst, ends⟩, noQuote⟩
  rwa [front, length] at found

theorem substring_quoteBody :
    substrstringFast reportJson 53 576 = .ok (SimpleObjects.Base64.encode true quoteBody) := by
  obtain ⟨⟨front, -⟩, ⟨length, -⟩, -⟩ := reportJson_reads
  have small : reportJson.length < 2 ^ 256 := by
    rw [quotedAfter_reportJson.length_eq, front, length]
    decide
  have value := quotedAfter_reportJson.substring small
  rwa [front, length] at value

theorem quoteStatusMap_ok : quoteStatusMap chainMachine (chainMachine.keccak256 (ascii "OK")) = true := by
  simp [quoteStatusMap, quoteStatuses]

/-- The report attests the server's enclave. -/
theorem verifyEPIDAttestRep_reportJson :
    verifyEPIDAttestRep chainMachine thisBlock stdRepData signedReport.json keyRing = .ok serverHash := by
  obtain ⟨-, ⟨length, -⟩, status, isOk, isHash, isRepData, expected⟩ := reportJson_reads
  have isJson : signedReport.json = reportJson := by simp only [signedReport]
  have decoded := decodeBase64_encode thisBlock quoteBody (by rw [length]; decide)
  rw [isJson, verifyEPIDAttestRep, status, ok_bind]
  dsimp only
  rw [isOk, ok_bind, quoteStatusMap_ok, require, if_pos rfl, ok_bind, readValPos_quoteBody, ok_bind]
  dsimp only
  rw [substring_quoteBody, ok_bind, decoded, ok_bind, isHash, ok_bind, isRepData, ok_bind, expected, ok_bind,
    require, if_pos rfl, ok_bind]
  rfl

/-! ### The server -/

def reportObj : IASReportCert.IASReportCertObj where
  isVerified := true
  keyId := reportKeyId
  pubKeyMod := digits 32 reportModulus
  pubKeyExp := [0x03]
  notAfter := 1893456000

def serverObj : DecentServerCertObj where
  isVerified := true
  serverKeyAddr
  enclaveHash := serverHash

/-- The registries, after the report key was recorded. -/
def withReportKey : Registries :=
  { deployed trustedRoot with
    reportCerts := Function.update (deployed trustedRoot).reportCerts reportKeyId reportObj }

def withServer : Registries :=
  { withReportKey with
    serverCerts := Function.update withReportKey.serverCerts serverKeyAddr serverObj }

theorem reportCerts_withReportKey : withReportKey.reportCerts reportKeyId = reportObj := by
  simp [withReportKey]

theorem serverCerts_withServer : withServer.serverCerts serverKeyAddr = serverObj := by
  simp [withServer]

set_option maxRecDepth 3000 in
/-- What is read of the report certificate, and the signature of its key. -/
theorem reportCert_reads :
    (∃ log, IASReportCert.loadCert chainMachine thisBlock reportNodes reportCert trustedRoot.pubKeyMod
        trustedRoot.pubKeyExp [] = .ok reportObj log) ∧
      (∃ log, IASReportCert.extractReportKeyIdFromCert chainMachine reportCert [] =
        .ok reportKeyId log) ∧
      LibRsaSha256.verifyWithComponents reportObj.pubKeyMod reportObj.pubKeyExp
        (chainMachine.sha256 signedReport.json) signedReport.sig = .ok true := by
  decide +kernel

/-- The key of the report is recorded by the way. -/
theorem verifyEPIDReportCert_reportCert :
    verifyEPIDReportCert chainMachine thisBlock signedReport.certDer (deployed trustedRoot) =
      .ok reportKeyId withReportKey := by
  obtain ⟨⟨log, loaded⟩, hasId, -⟩ := reportCert_reads
  have recorded : IASReportCertMgr.verifyCertWithNodes chainMachine thisBlock reportNodes reportCert
      (deployed trustedRoot) = .ok () withReportKey :=
    verifyCertWithNodes_eq_ok.mpr ⟨by decide, reportObj, log, loaded, rfl⟩
  have isNew : IASReportCertMgr.isCertVerified thisBlock reportKeyId (deployed trustedRoot) =
      .ok (false, false) (deployed trustedRoot) := rfl
  have isCert : signedReport.certDer = reportCert := by simp only [signedReport]
  rw [isCert, verifyEPIDReportCert]
  refine Exec.bind_eq_ok.mpr ⟨_, _, reading_eq_ok.mpr ⟨nodesOf_reportCert, rfl⟩, ?_⟩
  refine Exec.bind_eq_ok.mpr ⟨_, _, reading_eq_ok.mpr ⟨hasId, rfl⟩, ?_⟩
  refine Exec.bind_eq_ok.mpr ⟨_, _, isNew, ?_⟩
  exact Exec.bind_eq_ok.mpr ⟨(), withReportKey, recorded, rfl⟩

theorem verifySign_reportJson :
    IASReportCertMgr.verifySign thisBlock reportKeyId (chainMachine.sha256 signedReport.json)
      signedReport.sig withReportKey = .ok true withReportKey := by
  obtain ⟨-, -, signed⟩ := reportCert_reads
  have isKey : IASReportCertMgr.getPubKey thisBlock reportKeyId withReportKey =
      .ok (reportObj.pubKeyMod, reportObj.pubKeyExp) withReportKey := by
    rw [← reportCerts_withReportKey]
    refine Exec.bind_eq_ok.mpr ⟨_, _, rfl, ?_⟩
    refine Exec.bind_eq_ok.mpr ⟨(), _, check_eq_ok.mpr ⟨by rw [reportCerts_withReportKey]; rfl, rfl⟩, ?_⟩
    exact Exec.bind_eq_ok.mpr
      ⟨(), _, check_eq_ok.mpr ⟨by rw [reportCerts_withReportKey]; decide, rfl⟩, rfl⟩
  exact Exec.bind_eq_ok.mpr ⟨_, _, isKey, attempt_eq_ok.mpr ⟨signed, rfl⟩⟩

theorem verifyServerCert_serverCert :
    DecentServerCertMgr.verifyCertWithNodes chainMachine thisBlock serverNodes serverCert
      (deployed trustedRoot) = .ok () withServer := by
  obtain ⟨-, ⟨log, found⟩, isAlg, -, extracted, -, version, parsed, small⟩ := serverCert_reads
  have hasReport : HasReport thisBlock (writeRlp signedReport.object) signedReport := by
    refine hasReport_writeRlp thisBlock signedReport (by omega) ?_
    have isFree : thisBlock.free = 128 := rfl
    rw [Block.freeBehind]
    omega
  have attested := verifyEPIDAttestRepSet_accepts hasReport verifyEPIDReportCert_reportCert
    verifySign_reportJson verifyEPIDAttestRep_reportJson
  have supported : Supported chainMachine serverExtEntries :=
    { version, parsed, platform := congrArg _ rfl }
  exact verifyServerCert_accepts isAlg found supported attested extracted

def registration : Tx := { block := thisBlock, call := .verifyServerCert serverCert }

theorem returns_registration : Returns chainMachine (deployed trustedRoot) registration withServer :=
  Exec.bind_eq_ok.mpr ⟨serverNodes, _, reading_eq_ok.mpr ⟨nodesOf_serverCert, rfl⟩,
    verifyServerCert_serverCert⟩

end Sample

end Decentagram.RaOnchain
