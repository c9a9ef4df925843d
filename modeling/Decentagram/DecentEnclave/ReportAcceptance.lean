import Decentagram.DecentEnclave.IasReportVerifier
import Decentagram.Lib.Result

/-! # Acceptance of IAS report sets

Which certificate's key an accepted report is signed with.  The verification of the chain proves the
path from its first certificate only, while `VerifySign` tries the certificates of the list one after
the other.
-/

namespace Decentagram.DecentEnclave

open Decentagram.Lib Decentagram.Mbedtls

namespace Env

variable {Crt : Type} (env : Env Crt)

/-- The report carries a signature by the key of this certificate. -/
def Signs (reportSet : IasReportSet) (crt : Crt) : Prop :=
  env.x509.pkVerify crt (env.sha256 reportSet.report).toList reportSet.reportSign = true

/-- Nonce, status and quote of the report pass the checks. -/
def ChecksPass (report : Bytes) (quoteVerifier : EpidQuoteVerifier) (nonce : Option String) : Prop :=
  ∃ reportDict status body quote,
    env.parseJson report = .ok (.dict reportDict) ∧
    (∀ expected, nonce = some expected → reportDict.lookup "nonce" = some (.string expected)) ∧
    reportDict.lookup "isvEnclaveQuoteStatus" = some (.string status) ∧ status ∈ allowedStatuses ∧
    reportDict.lookup "isvEnclaveQuoteBody" = some (.string body) ∧
    EpidQuoteVerifier.parseQuoteFromB64 env body = .ok quote ∧
    quoteVerifier.verify env quote = .ok ()

/-- The purpose of the verifier: the report is signed by a certificate of the path that was verified up
to the root, and the checks passed on the bytes that are signed. -/
def Genuine (reduced : IasReportSet) (quoteVerifier : EpidQuoteVerifier) (nonce : Option String) :
    Prop :=
  ∃ rootCa certChain path signer,
    env.getRootCaCert = .ok rootCa ∧ env.x509CertFromDerList reduced.iasCert = .ok certChain ∧
    env.verifyCert certChain = .ok path ∧ env.x509.CertPath rootCa certChain path ∧
    signer ∈ path ∧ env.Signs reduced signer ∧ env.ChecksPass reduced.report quoteVerifier nonce

/-- The certificates that `VerifySign` tries: a list of one is tried, a longer list without its end. -/
def tried : List Crt → List Crt
  | [single] => [single]
  | certChain => certChain.dropLast

/-- The signature is by a certificate of the reduced list off the verified path, in a place where it is
tried, and by none on the path, in a set that passes the other checks. -/
def SignedOffPath (reportSet : IasReportSet) (quoteVerifier : EpidQuoteVerifier)
    (nonce : Option String) : Prop :=
  ∃ reduced certChain path,
    env.shrinkCertChain reportSet = .ok reduced ∧
    env.x509CertFromDerList reduced.iasCert = .ok certChain ∧
    env.verifyCert certChain = .ok path ∧ env.ChecksPass reduced.report quoteVerifier nonce ∧
    (∃ signer ∈ tried certChain, signer ∉ path ∧ env.Signs reduced signer) ∧
    ∀ crt ∈ path, ¬ env.Signs reduced crt

variable {env}

theorem mem_tried_cons_cons {first second third crt : Crt} {rest : List Crt} :
    crt ∈ tried (first :: second :: third :: rest) ↔
      crt = first ∨ crt ∈ tried (second :: third :: rest) := by
  simp [tried]

/-- The loop ends well if one of the certificates it reaches has the key of the signature. -/
theorem verifySignFrom_ok_iff {hash : Hash} {sign : Bytes} : ∀ {certChain : List Crt},
    env.verifySignFrom hash sign certChain = .ok () ↔
      ∃ crt ∈ tried certChain, env.x509.pkVerify crt hash.toList sign = true
  | [] => by simp [verifySignFrom, tried]
  | [curr] => by
    unfold verifySignFrom
    by_cases signs : env.x509.pkVerify curr hash.toList sign = true <;> simp [signs, tried]
  | [curr, last] => by
    unfold verifySignFrom
    by_cases signs : env.x509.pkVerify curr hash.toList sign = true <;> simp [signs, tried]
  | curr :: second :: third :: rest => by
    have following : env.verifySignFrom hash sign (second :: third :: rest) = .ok () ↔
        ∃ crt ∈ tried (second :: third :: rest), env.x509.pkVerify crt hash.toList sign = true :=
      verifySignFrom_ok_iff
    unfold verifySignFrom
    by_cases signs : env.x509.pkVerify curr hash.toList sign = true
    · simp [signs, tried]
    · rw [if_neg signs]
      simp only [following, mem_tried_cons_cons, exists_eq_or_imp, signs, Bool.false_eq_true, false_or]

theorem asString_eq_ok {value : Json} {text : String} :
    value.asString = .ok text ↔ value = .string text := by
  cases value <;> simp [Json.asString]

theorem asDict_eq_ok {value : Json} {entries : List (String × Json)} :
    value.asDict = .ok entries ↔ value = .dict entries := by
  cases value <;> simp [Json.asDict]

theorem verifyNonce_eq_ok {reportDict : List (String × Json)} {nonce : Option String} :
    verifyNonce reportDict nonce = .ok () ↔
      ∀ expected, nonce = some expected → reportDict.lookup "nonce" = some (.string expected) := by
  cases nonce with
  | none => simp [verifyNonce]
  | some expected =>
    unfold verifyNonce
    cases found : reportDict.lookup "nonce" with
    | none => simp
    | some value => simp [ite_throw_eq_ok, asString_eq_ok]

theorem verifyReport_eq_ok {reportDict : List (String × Json)} {nonce : Option String} :
    verifyReport reportDict nonce = .ok () ↔
      (∀ expected, nonce = some expected → reportDict.lookup "nonce" = some (.string expected)) ∧
      ∃ status, reportDict.lookup "isvEnclaveQuoteStatus" = some (.string status) ∧
        status ∈ allowedStatuses := by
  unfold verifyReport
  simp only [bind_eq_ok, exists_unit, verifyNonce_eq_ok]
  cases found : reportDict.lookup "isvEnclaveQuoteStatus" with
  | none => simp
  | some value => simp [verifyEncQuoteStatus, ite_throw_eq_ok, asString_eq_ok]

theorem verifyEncQuote_eq_ok {reportDict : List (String × Json)} {quoteVerifier : EpidQuoteVerifier} :
    env.verifyEncQuote reportDict quoteVerifier = .ok () ↔
      ∃ body quote, reportDict.lookup "isvEnclaveQuoteBody" = some (.string body) ∧
        EpidQuoteVerifier.parseQuoteFromB64 env body = .ok quote ∧
        quoteVerifier.verify env quote = .ok () := by
  unfold verifyEncQuote
  cases found : reportDict.lookup "isvEnclaveQuoteBody" with
  | none => simp
  | some value => simp [asString_eq_ok]

theorem verifyContents_eq_ok {report : Bytes} {quoteVerifier : EpidQuoteVerifier}
    {nonce : Option String} :
    env.verifyContents report quoteVerifier nonce = .ok () ↔
      env.ChecksPass report quoteVerifier nonce := by
  simp only [verifyContents, bind_eq_ok, exists_unit, asDict_eq_ok, verifyReport_eq_ok,
    verifyEncQuote_eq_ok, ChecksPass]
  constructor
  · rintro ⟨_, parsed, reportDict, rfl, ⟨nonce_ok, status, has_status, allowed⟩, body, quote,
      has_body, is_quote, verified⟩
    exact ⟨reportDict, status, body, quote, parsed, nonce_ok, has_status, allowed, has_body,
      is_quote, verified⟩
  · rintro ⟨reportDict, status, body, quote, parsed, nonce_ok, has_status, allowed, has_body,
      is_quote, verified⟩
    exact ⟨_, parsed, reportDict, rfl, ⟨nonce_ok, status, has_status, allowed⟩, body, quote,
      has_body, is_quote, verified⟩

/-- What is checked before a set is accepted. -/
theorem verifyAndReduceReportSet_eq_ok {reportSet reduced : IasReportSet}
    {quoteVerifier : EpidQuoteVerifier} {nonce : Option String} :
    env.verifyAndReduceReportSet reportSet quoteVerifier nonce = .ok reduced ↔
      env.shrinkCertChain reportSet = .ok reduced ∧
      ∃ certChain path, env.x509CertFromDerList reduced.iasCert = .ok certChain ∧
        env.verifyCert certChain = .ok path ∧ (∃ signer ∈ tried certChain, env.Signs reduced signer) ∧
        env.ChecksPass reduced.report quoteVerifier nonce := by
  simp only [verifyAndReduceReportSet, bind_eq_ok, exists_unit, pure_eq_ok, verifySign, verifySignFrom_ok_iff,
    verifyContents_eq_ok, Signs]
  constructor
  · rintro ⟨_, shrunk, certChain, parsed, path, verified, signed, checked, rfl⟩
    exact ⟨shrunk, certChain, path, parsed, verified, signed, checked⟩
  · rintro ⟨shrunk, certChain, path, parsed, verified, signed, checked⟩
    exact ⟨reduced, shrunk, certChain, parsed, path, verified, signed, checked, rfl⟩

/-- The path that `VerifyCert` found good leads from the first certificate to the root. -/
theorem verifyCert_path {certChain path : List Crt} (verified : env.verifyCert certChain = .ok path) :
    ∃ rootCa, env.getRootCaCert = .ok rootCa ∧ env.x509.CertPath rootCa certChain path := by
  simp only [verifyCert, bind_eq_ok] at verified
  obtain ⟨rootCa, is_root, checked⟩ := verified
  refine ⟨rootCa, is_root, ?_⟩
  cases result : env.x509.verifyWithProfile certVrfyProfile rootCa certChain with
  | ok found =>
    rw [result] at checked
    cases checked
    exact X509Lib.verifyWithProfile_path result
  | error error => cases error <;> simp [result] at checked

/-- Acceptance is sound unless the key of a certificate off the verified path is taken. -/
theorem verifyAndReduceReportSet_sound_iff (env : Env Crt) (reportSet : IasReportSet)
    (quoteVerifier : EpidQuoteVerifier) (nonce : Option String) :
    (∀ reduced, env.verifyAndReduceReportSet reportSet quoteVerifier nonce = .ok reduced →
      env.Genuine reduced quoteVerifier nonce) ↔
      ¬ env.SignedOffPath reportSet quoteVerifier nonce := by
  constructor
  · rintro sound ⟨reduced, certChain, path, shrunk, parsed, verified, checked,
      ⟨signer, is_tried, -, signs⟩, none_signs⟩
    have accepted := verifyAndReduceReportSet_eq_ok.mpr
      ⟨shrunk, certChain, path, parsed, verified, ⟨signer, is_tried, signs⟩, checked⟩
    obtain ⟨_, otherChain, otherPath, member, -, parsed', verified', -, on_path, member_signs, -⟩ :=
      sound reduced accepted
    have same_chain : otherChain = certChain := Except.ok.inj (parsed'.symm.trans parsed)
    subst same_chain
    have same_path : otherPath = path := Except.ok.inj (verified'.symm.trans verified)
    subst same_path
    exact none_signs member on_path member_signs
  · intro on_path_only reduced accepted
    obtain ⟨shrunk, certChain, path, parsed, verified, ⟨signer, is_tried, signs⟩, checked⟩ :=
      verifyAndReduceReportSet_eq_ok.mp accepted
    obtain ⟨rootCa, is_root, is_path⟩ := verifyCert_path verified
    by_cases some_signs : ∃ crt ∈ path, env.Signs reduced crt
    · obtain ⟨crt, on_path, crt_signs⟩ := some_signs
      exact ⟨rootCa, certChain, path, crt, is_root, parsed, verified, is_path, on_path, crt_signs,
        checked⟩
    · have none_signs : ∀ crt ∈ path, ¬ env.Signs reduced crt := by
        intro crt on_path crt_signs
        exact some_signs ⟨crt, on_path, crt_signs⟩
      exact absurd ⟨reduced, certChain, path, shrunk, parsed, verified, checked,
        ⟨signer, is_tried, fun on_path => none_signs signer on_path signs, signs⟩, none_signs⟩
        on_path_only

/-- Whoever signed a set that is accepted is on the path, where no other certificate is tried. -/
theorem genuine_of_tried_on_path {reportSet reduced : IasReportSet} {quoteVerifier : EpidQuoteVerifier}
    {nonce : Option String}
    (accepted : env.verifyAndReduceReportSet reportSet quoteVerifier nonce = .ok reduced)
    (tried_on_path : ∀ certChain path, env.x509CertFromDerList reduced.iasCert = .ok certChain →
      env.verifyCert certChain = .ok path → tried certChain ⊆ path) :
    env.Genuine reduced quoteVerifier nonce := by
  obtain ⟨-, certChain, path, parsed, verified, ⟨signer, is_tried, signs⟩, checked⟩ :=
    verifyAndReduceReportSet_eq_ok.mp accepted
  obtain ⟨rootCa, is_root, is_path⟩ := verifyCert_path verified
  have on_path := tried_on_path certChain path parsed verified is_tried
  exact ⟨rootCa, certChain, path, signer, is_root, parsed, verified, is_path, on_path, signs, checked⟩

/-- Of two certificates only the first is tried, which is on the path. -/
theorem genuine_of_two_certs {reportSet reduced : IasReportSet} {quoteVerifier : EpidQuoteVerifier}
    {nonce : Option String}
    (accepted : env.verifyAndReduceReportSet reportSet quoteVerifier nonce = .ok reduced)
    (two : ∀ certChain, env.x509CertFromDerList reduced.iasCert = .ok certChain → certChain.length ≤ 2) :
    env.Genuine reduced quoteVerifier nonce := by
  refine genuine_of_tried_on_path accepted fun certChain path parsed verified => ?_
  have short := two certChain parsed
  obtain ⟨rootCa, -, is_path⟩ := verifyCert_path verified
  obtain ⟨first, rest, rfl, on_path⟩ := is_path.first_mem
  match rest, short with
  | [], _ => simpa [tried] using on_path
  | [_], _ => simpa [tried] using on_path

end Env

/-! ## A forged report

The certificate list holds the certificate that signs the reports, whose path to the root is verified,
and twice a self-signed one, whose key signed the report.
-/

namespace ForgedReport

/-- The first bytes of a row of words of 32 bytes. -/
def bytesOf (size : Nat) (words : List Nat) : Bytes :=
  (words.flatMap fun word =>
    (List.range 32).map fun place => UInt8.ofNat (word >>> (8 * (31 - place)))).take size

/-- `CertIASReport.pem` of the tests. -/
@[irreducible] def signingDer : Bytes := bytesOf 1189 [
  0x308204a130820309a003020102020900d107765d32a3b096300d06092a864886,
  0xf70d01010b0500307e310b3009060355040613025553310b300906035504080c,
  0x0243413114301206035504070c0b53616e746120436c617261311a3018060355,
  0x040a0c11496e74656c20436f72706f726174696f6e3130302e06035504030c27,
  0x496e74656c20534758204174746573746174696f6e205265706f727420536967,
  0x6e696e67204341301e170d3136313132323039333635385a170d323631313230,
  0x3039333635385a307b310b3009060355040613025553310b300906035504080c,
  0x0243413114301206035504070c0b53616e746120436c617261311a3018060355,
  0x040a0c11496e74656c20436f72706f726174696f6e312d302b06035504030c24,
  0x496e74656c20534758204174746573746174696f6e205265706f727420536967,
  0x6e696e6730820122300d06092a864886f70d01010105000382010f003082010a,
  0x0282010100a97a2de0e66ea6147c9ee745ac0162686c7192099afc4b3f040fad,
  0x6de093511d74e802f510d716038157dcaf84f4104bd3fed7e6b8f99c8817fd1f,
  0xf5b9b864296c3d81fa8f1b729e02d21d72ffee4ced725efe74bea68fbc4d4244,
  0x286fcdd4bf64406a439a15bcb4cf67754489c423972b4a80df5c2e7c5bc2dbaf,
  0x2d42bb7b244f7c95bf92c75d3b33fc5410678a89589d1083da3acc459f2704cd,
  0x99598c275e7c1878e00757e5bdb4e840226c11c0a17ff79c80b15c1ddb5af21c,
  0xc2417061fbd2a2da819ed3b72b7efaa3bfebe2805c9b8ac19aa346512d484cfc,
  0x81941e15f55881cc127e8f7aa12300cd5afb5742fa1d20cb467a5beb1c666cf7,
  0x6a368978b50203010001a381a43081a1301f0603551d2304183016801478437b,
  0x76a67ebcd0af7e4237eb357c3b8701513c300e0603551d0f0101ff0404030206,
  0xc0300c0603551d130101ff0402300030600603551d1f045930573055a053a051,
  0x864f687474703a2f2f7472757374656473657276696365732e696e74656c2e63,
  0x6f6d2f636f6e74656e742f43524c2f5347582f4174746573746174696f6e5265,
  0x706f72745369676e696e6743412e63726c300d06092a864886f70d01010b0500,
  0x03820181006708b61b5c2bd215473e2b46af99284fbb939d3f3b152c996f1a6a,
  0xf3b329bd220b1d3b610f6bce2e6753bded304db21912f385256216cfcba456bd,
  0x96940be892f5690c260d1ef84f1606040222e5fe08e5326808212a447cfdd64a,
  0x46e94bf29f6b4b9a721d25b3c4e2f62f58baed5d77c505248f0f801f9fbfb7fd,
  0x752080095cee80938b339f6dbb4e165600e20e4a718812d49d9901e310a9b51d,
  0x66c79909c6996599fae6d76a79ef145d9943bf1d3e35d3b42d1fb9a45cbe8ee3,
  0x34c166eee7d32fcdc9935db8ec8bb1d8eb3779dd8ab92b6e387f0147450f1e38,
  0x1d08581fb83df33b15e000a59be57ea94a3a52dc64bdaec959b3464c91e725bb,
  0xdaea3d99e857e380a23c9d9fb1ef58e9e42d71f12130f9261d7234d6c37e2b03,
  0xdba40dfdfb13ac4ad8e13fd3756356b6b50015a3ec9580b815d87c2cef715cd2,
  0x8df00bbf2a3c403ebf6691b3f05edd9143803ca085cff57e053eec2f8fea46ea,
  0x778a68c9be885bc28225bc5f309be4a2b74d3a03945319dd3c7122fed6ff53bb,
  0x8b8cb3a03c000000000000000000000000000000000000000000000000000000]

/-- The certificate of `rootCaPem`. -/
@[irreducible] def rootDer : Bytes := bytesOf 1359 [
  0x3082054b308203b3a003020102020900d107765d32a3b094300d06092a864886,
  0xf70d01010b0500307e310b3009060355040613025553310b300906035504080c,
  0x0243413114301206035504070c0b53616e746120436c617261311a3018060355,
  0x040a0c11496e74656c20436f72706f726174696f6e3130302e06035504030c27,
  0x496e74656c20534758204174746573746174696f6e205265706f727420536967,
  0x6e696e672043413020170d3136313131343135333733315a180f323034393132,
  0x33313233353935395a307e310b3009060355040613025553310b300906035504,
  0x080c0243413114301206035504070c0b53616e746120436c617261311a301806,
  0x0355040a0c11496e74656c20436f72706f726174696f6e3130302e0603550403,
  0x0c27496e74656c20534758204174746573746174696f6e205265706f72742053,
  0x69676e696e67204341308201a2300d06092a864886f70d01010105000382018f,
  0x003082018a02820181009f3c647eb5773cbb512d2732c0d7415ebb55a0fa9ede,
  0x2e649199e6821db910d53177370977466a6a5e4786ccd2ddebd4149d6a2f6325,
  0x529dd10cc98737b0779c1a07e29c47a1ae004948476c489f45a5a15d7ac8ecc6,
  0xacc645adb43d87679df59c093bc5a2e9696c5478541b979e754b573914be55d3,
  0x2ff4c09ddf27219934cd990527b3f92ed78fbf29246abecb71240ef39c2d7107,
  0xb447545a7ffb10eb060a68a98580219e36910952683892d6a5e2a80803193e40,
  0x7531404e36b315623799aa825074409754a2dfe8f5afd5fe631e1fc2af380890,
  0x6f28a790d9dd9fe060939b125790c5805d037df56a99531b96de69de33ed226c,
  0xc1207d1042b5c9ab7f404fc711c0fe4769fb9578b1dc0ec469ea1a25e0ff9914,
  0x886ef2699b235bb4847dd6ff40b606e6170793c2fb98b314587f9cfd257362df,
  0xeab10b3bd2d97673a1a4bd44c453aaf47fc1f2d3d0f384f74a06f89c089f0da6,
  0xcdb7fceee8c9821a8e54f25c0416d18c46839a5f8012fbdd3dc74d256279adc2,
  0xc0d55aff6f0622425d1b0203010001a381c93081c630600603551d1f04593057,
  0x3055a053a051864f687474703a2f2f7472757374656473657276696365732e69,
  0x6e74656c2e636f6d2f636f6e74656e742f43524c2f5347582f41747465737461,
  0x74696f6e5265706f72745369676e696e6743412e63726c301d0603551d0e0416,
  0x041478437b76a67ebcd0af7e4237eb357c3b8701513c301f0603551d23041830,
  0x16801478437b76a67ebcd0af7e4237eb357c3b8701513c300e0603551d0f0101,
  0xff04040302010630120603551d130101ff040830060101ff020100300d06092a,
  0x864886f70d01010b05000382018100785f2d60c5c80af42a797610213915da82,
  0xc9b29e89e0902a25a6c75b16091c68ab204aae711889492c7e1e320911455a8f,
  0xc13442312e77a63994d99795c8ea4576823cea8ad1e191cfa862fab8a932d3d9,
  0xb0535a0702d0555f74e520e30330f33480e7adc9d7c81e20703142bf00c528a8,
  0x0b463381fd602a82c7035281aae59562ccb5334ea8903e650b010681f5ce8eb6,
  0x2eac9c414988243aec92f25bf13cdff7ebcc298ee51bba5a3538b66b26cbc45a,
  0x51de003cad306531ad7cf5d4ef0f8805d1b9133d24135ab3c4641a2f8808349d,
  0x7333295e0e76ee4bc5227232628efa80d79d92ab4e3d1120f3fb5ad119cd8d54,
  0x4aa1d4a6865e6b57beac5771307e2e3cb9070da47b4bfc8869e01413ea093541,
  0xde8a792811b74636c5e91452cf0cee59f2fb404acd0bc584cb9c835404734c0e,
  0x7ec6605cdfcf2ff439b6d4719f702f0e0c3fa04fdb12a6cb2ad1ab1c9af1f8f4,
  0xc3a08edd72a32b0bb5d0ad256ffd159a683b2a5a1f1d11fa62532f03d754caef,
  0x0da5735a1e5a884c7e89d91218c9d70000000000000000000000000000000000]

/-- A self-signed certificate with a key of 2048 bits. -/
@[irreducible] def strangerDer : Bytes := bytesOf 809 [
  0x308203253082020da00302010202145958ec1234b0a032ff29ffdcf0faaa70e9,
  0xa2bb39300d06092a864886f70d01010b050030253123302106035504030c1a41,
  0x74746573746174696f6e205265706f7274205369676e696e67301e170d323631,
  0x3131393030353332305a170d3336313131363030353332305a30253123302106,
  0x035504030c1a4174746573746174696f6e205265706f7274205369676e696e67,
  0x30820122300d06092a864886f70d01010105000382010f003082010a02820101,
  0x00b14e03e7f3744552fd9db2963cfecad499d14449237b0499ee9cc5d02d3fba,
  0xe5f120456b3186a35e2fbe65224e14401e2644ae6e30f0add8ad2d88cc425016,
  0x98b963d75ab4ca7930e1b7dd80393c1b3016d49e354c1b1741d408861e2383ff,
  0x0f08f6f43e037df63a91af5aad213aa0153eb43f04de161fb9316042e1e80c69,
  0xf689d3c167bc2e0876dd2dc85e269206aa017a706b305fb2813cdfc36d9abfef,
  0xfbdb647e909a171e15382a03a2c2f40478c799883f33e107ef5f82b3144ce3a9,
  0x33943c556b9c3f633e2eb29c1224c4bba448720a4d16070f86d075c76eaf3266,
  0x7d1175010a3c983295ceafd0171b779056fba07838e5b79120de791bbd7f15fe,
  0xff0203010001a34d304b301d0603551d0e041604142db6c5c438f5ea602f4070,
  0xd5d4d82cea87df861d301f0603551d230418301680142db6c5c438f5ea602f40,
  0x70d5d4d82cea87df861d30090603551d1304023000300d06092a864886f70d01,
  0x010b050003820101004e288161845585a7a04bd7086298e094272bcc076eb2de,
  0x77c298257edbbf4625d34a64fdda251c682286af402c0664302409a7e286fc0a,
  0x51274e5402f30ce0e70b26d0424f4548fb37a02a8052f746c890d04cbbe917fa,
  0x60c25cdacdf4abea44479cb684d84ca080a6da7852ed69d2c55e44dbea0a5216,
  0x30fa9aa80946af8224f9b0256dfde02f5676a53e2fc92f0f2a628258449ab63e,
  0x3887ec12842a5fc2e221d8c8980ebfc3fdcb83385a8746678486ce9969f3b2b3,
  0x5f436a04e4b999ed889699c87ed71dea34d7005312f35f2dcfd4557f0824a6bc,
  0xe75fb811237b01f1289d35e57a7005dc93a759bbfe810b8ce62436a62f4cd8b7,
  0x320bbce793e5117e0e0000000000000000000000000000000000000000000000]

/-- A quote of the authorized enclave with the expected report data, as anyone can write it. -/
@[irreducible] def quoteB64 : String := String.join [
  "AgAAAAAAAAAAAAAAAAAAAAAAAAAAAAAAAAAAAAAAAAAAAAAAAAAAAAAAAAAAAAAAAAAAAAAAAAAAAAAAAAAAAAAAAAAA",
  "AAAAAAAAAAAAAAAAAAAAAAAAAAAAAAAAAAAAAAAAAAAAAAAAAAAAAAAAABrtfMHH9ZwsA0lu+UQrMMjGNbOzOZ2l5ncN",
  "RuuHbQwiAAAAAAAAAAAAAAAAAAAAAAAAAAAAAAAAAAAAAAAAAAAAAAAAAAAAAAAAAAAAAAAAAAAAAAAAAAAAAAAAAAAA",
  "AAAAAAAAAAAAAAAAAAAAAAAAAAAAAAAAAAAAAAAAAAAAAAAAAAAAAAAAAAAAAAAAAAAAAAAAAAAAAAAAAAAAAAAAAAAA",
  "AAAAAAAAAAAAAAAAAAAAAAAAAAAAAAAAAAAAAAAAAAAAAAAAAAAAAAAAAAAAAAAAAAAAAAAAAAAAAAAAAAAAAAAAAAAA",
  "AAAAAAAAAAAAAAAAAAAAAAAAAAAAAAAOJd4r7UU9U1sxnD0mRHi50U2enjTkG+Gj5jPDyS5CaAAAAAAAAAAAAAAAAAAA",
  "AAAAAAAAAAAAAAAAAAAAAAAA"]

def nonce : String := "75EA89D0C4B1F3A6E2D8907B5C4F6A1B"

def reportText : String :=
  "\x7b\"nonce\":\"" ++ nonce ++ "\",\"id\":\"1\",\"timestamp\":\"2023-05-01T00:00:00.000000\"," ++
  "\"version\":4,\"isvEnclaveQuoteStatus\":\"OK\",\"isvEnclaveQuoteBody\":\"" ++ quoteB64 ++ "\"\x7d"

@[irreducible] def report : Bytes := reportText.toList.map fun char => UInt8.ofNat char.toNat

@[irreducible] def mrEnclave : Bytes := bytesOf 32 [
  0x1aed7cc1c7f59c2c03496ef9442b30c8c635b3b3399da5e6770d46eb876d0c22]

@[irreducible] def reportData : Bytes := bytesOf 64 [
  0x0e25de2bed453d535b319c3d264478b9d14d9e9e34e41be1a3e633c3c92e4268, 0]

def quote : Quote :=
  [2] ++ List.replicate 111 0 ++ mrEnclave ++ List.replicate 224 0 ++ reportData

/-- SHA-256 of the report. -/
@[irreducible] def digest : Hash := Vector.ofFn fun place =>
  (bytesOf 32 [0x509f698a3524849f23abb9e5a4e968af7de8af0aadb3fb0088e14e56f5c4bc26])[place.val]!

/-- The signature of the report with the self-signed certificate's key. -/
@[irreducible] def strangerSign : Bytes := bytesOf 256 [
  0x76edfdfe586e844cfcc7fa05bb6cc99f27f621b83327ab2779a5b807a0c93bf4,
  0x7a032dbf5be96768d477c0aad0c1bf12a3e104c8d7f6f4556c43d71920bc1581,
  0xac077c4d2f38f7e5e81264258026c25812a5f0abe1db441d1ac5475d8208b086,
  0x2d705a313b66c7cb18533bb0d1c60b07be0a601e2649c30fb12b1b4a95b0d8b0,
  0x7b157b983a5fe279904667d06625995584c6808e1db30157d671ec11bea0b848,
  0x2bfa4ffce57ce07121d5c2c2e4fa552b671a9c598e92c7090ffae1f7dd894cfc,
  0x5943a7d0e37b400536c6dcd964572976bacae6391bc3e0d0dff1945031ccd543,
  0x498d9351022eec79c00538337f508fbe6cea8c82f2ba88ecd7638fc833e50d77]

inductive Crt where
  | blank
  | root
  | signing
  | stranger
deriving DecidableEq, Repr

/-- The library on these certificates. -/
def x509 : X509Lib Crt where
  blank := .blank
  version crt := if crt = .blank then 0 else 3
  raw
    | .blank => []
    | .root => rootDer
    | .signing => signingDer
    | .stranger => strangerDer
  parseDerCore der :=
    if der = signingDer then some .signing
    else if der = strangerDer then some .stranger
    else if der = rootDer then some .root
    else none
  parsePem text := if text = rootCaPem then some [.root] else none
  timeIsPast _ := false
  timeIsFuture _ := false
  selfIssued crt := crt = .root ∨ crt = .stranger
  sigMd crt := if crt = .blank then 0 else 4
  sigPk crt := if crt = .blank then 0 else 1
  pkType crt := if crt = .blank then 0 else 1
  pkKind
    | .blank => .none
    | .root => .rsa 3072
    | .signing | .stranger => .rsa 2048
  maxPathlen crt := if crt = .root then 1 else 0
  checkParent child parent _ := parent = .root ∧ (child = .signing ∨ child = .root)
  checkSignature child parent :=
    (child = .signing ∧ parent = .root) ∨ (child ≠ .blank ∧ child ≠ .signing ∧ child = parent)
  pkVerify crt hash sign := crt = .stranger ∧ hash = digest.toList ∧ sign = strangerSign

def env : Env Crt where
  x509 := x509
  sha256 bytes := if bytes = report then digest else Vector.replicate 32 0
  parseJson bytes :=
    if bytes = report then
      .ok (.dict [("nonce", .string nonce), ("id", .string "1"),
        ("timestamp", .string "2023-05-01T00:00:00.000000"), ("version", .other),
        ("isvEnclaveQuoteStatus", .string "OK"), ("isvEnclaveQuoteBody", .string quoteB64)])
    else .error (.library "not a report")
  base64Decode text := if text = quoteB64 then .ok quote else .error (.library "not a quote")

def quoteVerifier : EpidQuoteVerifier where
  authEnclaves := [mrEnclave]
  addReportData := []
  stdReportData := Vector.ofFn fun place => reportData[place.val]!

def reportSet : IasReportSet where
  iasCert := [signingDer, strangerDer, strangerDer]
  report := report
  reportSign := strangerSign

/-- The lengths in the headers differ. -/
theorem certificates_differ :
    strangerDer ≠ signingDer ∧ strangerDer ≠ rootDer ∧ signingDer ≠ rootDer := by
  have lengths_differ : strangerDer[3]? ≠ signingDer[3]? ∧ strangerDer[3]? ≠ rootDer[3]? ∧
      signingDer[3]? ≠ rootDer[3]? := by
    decide +kernel
  exact ⟨mt (congrArg (·[3]?)) lengths_differ.1, mt (congrArg (·[3]?)) lengths_differ.2.1,
    mt (congrArg (·[3]?)) lengths_differ.2.2⟩

theorem parse_root : env.x509.parsePem rootCaPem = some [.root] := if_pos rfl

theorem getRootCaCert_eq : env.getRootCaCert = .ok [.root] := by
  rw [Env.getRootCaCert, parse_root]

theorem parse_signing : x509.parseDerCore signingDer = some .signing := if_pos rfl

theorem parse_stranger : x509.parseDerCore strangerDer = some .stranger := by
  obtain ⟨notSigning, -⟩ := certificates_differ
  exact (if_neg notSigning).trans (if_pos rfl)

theorem x509CertFromDerList_eq :
    env.x509CertFromDerList reportSet.iasCert = .ok [.signing, .stranger, .stranger] := by
  have first : x509.parseDer signingDer [.blank] = some [.signing] := by
    rw [X509Lib.parseDer, parse_signing]
    rfl
  have second : x509.parseDer strangerDer [.signing] = some [.signing, .stranger] := by
    rw [X509Lib.parseDer, parse_stranger]
    rfl
  have third : x509.parseDer strangerDer [.signing, .stranger] =
      some [.signing, .stranger, .stranger] := by
    rw [X509Lib.parseDer, X509Lib.parseDer, parse_stranger]
    rfl
  have first_added : env.appendDer [.blank] signingDer = .ok [.signing] := by
    rw [Env.appendDer, show env.x509 = x509 from rfl, first]
  have second_added : env.appendDer [.signing] strangerDer = .ok [.signing, .stranger] := by
    rw [Env.appendDer, show env.x509 = x509 from rfl, second]
  have third_added : env.appendDer [.signing, .stranger] strangerDer =
      .ok [.signing, .stranger, .stranger] := by
    rw [Env.appendDer, show env.x509 = x509 from rfl, third]
  change [signingDer, strangerDer, strangerDer].foldlM env.appendDer [.blank] = _
  simp only [List.foldlM_cons, List.foldlM_nil, bind_eq_ok, pure_eq_ok]
  exact ⟨_, first_added, _, second_added, _, third_added, rfl⟩

/-- The reduction keeps the list: the root is not in it. -/
theorem shrinkCertChain_eq : env.shrinkCertChain reportSet = .ok reportSet := by
  have kept : env.shrinkChain [.root] [.signing, .stranger, .stranger] =
      [.signing, .stranger, .stranger] := by
    simp [Env.shrinkChain, env, x509, certificates_differ]
  have written : env.x509Cert2DerList [.signing, .stranger, .stranger] = .ok reportSet.iasCert := by
    simp only [Env.x509Cert2DerList, bind_eq_ok, pure_eq_ok]
    exact ⟨_, ⟨_, rfl, rfl⟩, rfl⟩
  simp only [Env.shrinkCertChain, bind_eq_ok, pure_eq_ok]
  exact ⟨_, x509CertFromDerList_eq, _, getRootCaCert_eq, _, by rw [kept, written]; rfl, rfl⟩

theorem verifyWithProfile_eq :
    x509.verifyWithProfile certVrfyProfile [.root] [.signing, .stranger, .stranger] =
      .ok [.signing, .root] := by
  decide +kernel

theorem verifyCert_eq : env.verifyCert [.signing, .stranger, .stranger] = .ok [.signing, .root] := by
  simp only [Env.verifyCert, bind_eq_ok]
  refine ⟨_, getRootCaCert_eq, ?_⟩
  rw [show env.x509 = x509 from rfl, verifyWithProfile_eq]
  rfl

theorem stranger_signs : env.Signs reportSet .stranger := by
  have hashed : env.sha256 reportSet.report = digest := if_pos rfl
  rw [Env.Signs, hashed]
  exact decide_eq_true ⟨rfl, rfl, rfl⟩

theorem checksPass : env.ChecksPass reportSet.report quoteVerifier (some nonce) := by
  refine ⟨_, "OK", quoteB64, quote, if_pos rfl, ?_, rfl, by decide, rfl, ?_, ?_⟩
  · rintro _ ⟨⟩
    rfl
  · have complete : quote.length = quoteBodySize := by decide +kernel
    simp only [EpidQuoteVerifier.parseQuoteFromB64, bind_eq_ok, throw_ite_eq_ok]
    exact ⟨quote, if_pos rfl, not_not.mpr complete, rfl⟩
  · decide +kernel

end ForgedReport

/-- The forged report is accepted, although no certificate of the verified path has signed it. -/
theorem verifyAndReduceReportSet_accepts_stranger :
    ForgedReport.env.verifyAndReduceReportSet ForgedReport.reportSet ForgedReport.quoteVerifier
        (some ForgedReport.nonce) = .ok ForgedReport.reportSet ∧
      ¬ ForgedReport.env.Genuine ForgedReport.reportSet ForgedReport.quoteVerifier
        (some ForgedReport.nonce) := by
  constructor
  · exact Env.verifyAndReduceReportSet_eq_ok.mpr ⟨ForgedReport.shrinkCertChain_eq, _, _,
      ForgedReport.x509CertFromDerList_eq, ForgedReport.verifyCert_eq,
      ⟨.stranger, by simp [Env.tried], ForgedReport.stranger_signs⟩, ForgedReport.checksPass⟩
  · rintro ⟨_, certChain, path, signer, -, parsed, verified, -, on_path, signs, -⟩
    cases parsed.symm.trans ForgedReport.x509CertFromDerList_eq
    cases verified.symm.trans ForgedReport.verifyCert_eq
    -- neither the signing certificate nor the root has the key
    have no_key : signer ≠ .stranger := by
      rintro rfl
      simp at on_path
    simp [Env.Signs, ForgedReport.env, ForgedReport.x509, no_key] at signs

end Decentagram.DecentEnclave
