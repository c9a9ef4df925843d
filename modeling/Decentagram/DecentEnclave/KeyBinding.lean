import Decentagram.AdvancedRlp.RoundTrip
import Decentagram.DecentEnclave.EpidRaSvcProv
import Decentagram.DecentEnclave.ReportAcceptance
import Decentagram.Lib.Run

/-! # Keys that are bound to an attested peer

A finished handshake is about the peer whose report was accepted as long as no call gives up
halfway: the keys and the report data are replaced one after the other, in every state, and so is
the report set.
-/

namespace Decentagram.DecentEnclave.EpidRaSvcProv

open Decentagram.Lib Decentagram.Mbedtls
open Decentagram.Lib.Exec (Sat)
open Decentagram.SimpleObjects (HashableObject Object)

variable {KeyPair Crt : Type} {lib : KeyLib KeyPair} {env : Env Crt} {faults : Faults}

@[simp] theorem sat_check {σ : Type} {site : Site} {before : σ} {returns : Unit → σ → Prop}
    {raises : Thrown → σ → Prop} : Sat (check faults site) before returns raises ↔
      (faults site = none → returns () before) ∧ ∀ error, faults site = some error →
      raises error before := by
  unfold check
  cases faults site <;> simp

/-! ## Message 2 -/

/-- No site throws before the first of the keys is replaced. -/
def ReplacesKeys (faults : Faults) : Prop :=
  ∀ site ∈ [.importEcKey, .exportEcKey, .deriveSharedKey, .writeSharedKey, .ckdf "SMK", .ckdf "MK"],
    faults site = none

/-- No site throws between the first of the keys and the report data. -/
def ReplacesRest (faults : Faults) : Prop :=
  ∀ site ∈ [.ckdf "SK", .ckdf "VK", .reportDataHash], faults site = none

/-- Nothing throws behind the report data. -/
def SendsMsg2 (env : Env Crt) (faults : Faults) (sigrlB64 : String) : Prop :=
  (∀ site ∈ [.signedHash, .signInBigNum, .writeSign, .cmac, .getSigrl], faults site = none) ∧
    ∃ sigRL, env.base64Decode sigrlB64 = .ok sigRL

/-- The session keys and the expected report data of a peer key. -/
structure KeyedTo (lib : KeyLib KeyPair) (env : Env Crt) (core : Core KeyPair)
    (gA : EcPublic) : Prop where
  isMk : core.mk = lib.ckdf (lib.sharedKey core.myEncKey gA) "MK"
  isSk : core.sk = lib.ckdf (lib.sharedKey core.myEncKey gA) "SK"
  stdReportData : core.epidQuoteVrfy.stdReportData = genStdReportData env gA (lib.publicKey core.myEncKey)
    (lib.ckdf (lib.sharedKey core.myEncKey gA) "VK")

/-- No key, no report data and no report was replaced. -/
structure Untouched (before after : Core KeyPair) : Prop where
  sameEncKey : after.myEncKey = before.myEncKey
  sameMk : after.mk = before.mk
  sameSk : after.sk = before.sk
  sameVrfy : after.epidQuoteVrfy = before.epidQuoteVrfy
  sameNonce : after.nonce = before.nonce
  sameReportSet : after.iasReportSet = before.iasReportSet

theorem KeyedTo.untouched {before after : Core KeyPair} {gA : EcPublic}
    (keyed : KeyedTo lib env before gA)
    (untouched : Untouched before after) : KeyedTo lib env after gA where
  isMk := by rw [untouched.sameMk, untouched.sameEncKey, keyed.isMk]
  isSk := by rw [untouched.sameSk, untouched.sameEncKey, keyed.isSk]
  stdReportData := by rw [untouched.sameVrfy, untouched.sameEncKey, keyed.stdReportData]

theorem not_replacesKeys {site : Site} {error : Thrown} (thrown : faults site = some error)
    (member : site ∈ [.importEcKey, .exportEcKey, .deriveSharedKey, .writeSharedKey, .ckdf "SMK",
      .ckdf "MK"]) :
    ¬ ReplacesKeys faults := by
  intro replaces
  rw [replaces site member] at thrown
  cases thrown

theorem setPeerEncrPubKey_sat (core : Core KeyPair) (gA : EcPublic)
    (imported : faults .importEcKey = none) (whole : ReplacesKeys faults → ReplacesRest faults) :
    Sat (setPeerEncrPubKey lib faults gA) core
      (fun _ after => ReplacesKeys faults ∧ after.myEncKey = core.myEncKey ∧ after.peerEncKey = gA ∧
        after.handshakeState = core.handshakeState ∧
        after.mk = lib.ckdf (lib.sharedKey core.myEncKey gA) "MK" ∧
        after.sk = lib.ckdf (lib.sharedKey core.myEncKey gA) "SK" ∧
        after.vk = lib.ckdf (lib.sharedKey core.myEncKey gA) "VK")
      (fun _ after => ¬ ReplacesKeys faults ∧ Untouched core after ∧
        after.handshakeState = core.handshakeState) := by
  have untouched : ∀ smk, Untouched core { core with peerEncKey := gA, smk } := fun smk =>
    ⟨rfl, rfl, rfl, rfl, rfl, rfl⟩
  simp only [setPeerEncrPubKey, Exec.sat_bind, sat_check, Exec.sat_modify, Exec.sat_get]
  -- the first hole is the way through all keys, the others are the sites from the last one back
  refine ⟨fun exported => ⟨fun derived => ⟨fun written => ⟨fun smkDone => ⟨fun mkDone => ?_,
    ?_⟩, ?_⟩, ?_⟩, ?_⟩, ?_⟩
  · have replaces : ReplacesKeys faults := by
      simp [ReplacesKeys, imported, exported, derived, written, smkDone, mkDone]
    have rest := whole replaces
    -- SK and VK come behind MK: they do not fail, or the old SK would stay beside the new MK
    refine ⟨fun _ => ⟨fun _ => ⟨replaces, by trivial⟩, ?_⟩, ?_⟩
    · intro error thrown
      simp [rest (.ckdf "VK") (by simp)] at thrown
    · intro error thrown
      simp [rest (.ckdf "SK") (by simp)] at thrown
  all_goals
    intro error thrown
    exact ⟨not_replacesKeys thrown (by simp), untouched _, trivial⟩

/-- The report data that belong to the keys are set. -/
abbrev withReportData (env : Env Crt) (core : Core KeyPair) (myEncSgxKey : EcPublic) : Core KeyPair :=
  { core with epidQuoteVrfy := { core.epidQuoteVrfy with
    stdReportData := genStdReportData env core.peerEncKey myEncSgxKey core.vk } }

/-- The keys are those of the peer of this message with its report data, or none of it was touched. -/
theorem getMsg2_sat (core : Core KeyPair) (msg1 : Msg1) (signGbGa : Bytes × Bytes) (sigrlB64 : String)
    (whole : ReplacesKeys faults → ReplacesRest faults) :
    Sat (getMsg2 lib env faults msg1 signGbGa sigrlB64) core
      (fun _ after => KeyedTo lib env after msg1.gA ∧ after.handshakeState = .msg2Sent)
      (fun _ after => after.handshakeState = core.handshakeState ∧
        (¬ ReplacesKeys faults ∧ Untouched core after ∨
          ReplacesKeys faults ∧ ¬ SendsMsg2 env faults sigrlB64 ∧ KeyedTo lib env after msg1.gA)) := by
  simp only [getMsg2, Exec.sat_bind, sat_check, Exec.sat_modify, Exec.sat_get, Exec.sat_ofExcept,
    Exec.sat_pure]
  refine ⟨fun imported => ?_, ?_⟩
  · refine (setPeerEncrPubKey_sat core msg1.gA imported whole).mono ?_ ?_
    · intro _ keyed set
      obtain ⟨replaces, sameKey, isPeer, sameState, isMk, isSk, isVk⟩ := set
      have keyedTo : KeyedTo lib env (withReportData env keyed (lib.publicKey core.myEncKey)) msg1.gA := by
        rw [← sameKey] at isMk isSk isVk ⊢
        refine ⟨isMk, isSk, ?_⟩
        rw [← isVk, ← isPeer]
      -- whatever throws behind the report data finds the keys of this peer in place
      have gaveUp : ∀ site error, faults site = some error →
          site ∈ [.signedHash, .signInBigNum, .writeSign, .cmac, .getSigrl] →
          ¬ SendsMsg2 env faults sigrlB64 := by
        intro site error thrown member sends
        rw [sends.1 site member] at thrown
        cases thrown
      refine ⟨fun _ => ⟨fun _ => ⟨fun _ => ⟨fun _ => ⟨fun _ => ⟨fun _ => ⟨?_, ?_⟩, ?_⟩, ?_⟩, ?_⟩,
        ?_⟩, ?_⟩, ?_⟩
      · exact fun sigRL decoded => ⟨⟨keyedTo.isMk, keyedTo.isSk, keyedTo.stdReportData⟩, trivial⟩
      · intro error refused
        refine ⟨sameState, .inr ⟨replaces, fun sends => ?_, keyedTo⟩⟩
        obtain ⟨sigRL, decoded⟩ := sends.2
        rw [decoded] at refused
        cases refused
      · exact fun error thrown => ⟨sameState, .inr ⟨replaces, gaveUp _ _ thrown (by simp), keyedTo⟩⟩
      · exact fun error thrown => ⟨sameState, .inr ⟨replaces, gaveUp _ _ thrown (by simp), keyedTo⟩⟩
      · exact fun error thrown => ⟨sameState, .inr ⟨replaces, gaveUp _ _ thrown (by simp), keyedTo⟩⟩
      · exact fun error thrown => ⟨sameState, .inr ⟨replaces, gaveUp _ _ thrown (by simp), keyedTo⟩⟩
      · exact fun error thrown => ⟨sameState, .inr ⟨replaces, gaveUp _ _ thrown (by simp), keyedTo⟩⟩
      · intro error thrown
        rw [whole replaces .reportDataHash (by simp)] at thrown
        cases thrown
    · intro error after ended
      exact ⟨ended.2.2, .inl ⟨ended.1, ended.2.1⟩⟩
  · intro error thrown
    exact ⟨trivial, .inl ⟨not_replacesKeys thrown (by simp), ⟨rfl, rfl, rfl, rfl, rfl, rfl⟩⟩⟩

/-! ## Message 4 -/

/-- What is left of the set is what the verification returns for it. -/
theorem verifyAndReduceReportSet_sat (reportSet : IasReportSet) (quoteVerifier : EpidQuoteVerifier)
    (nonce : String) : Sat (verifyAndReduceReportSet env faults quoteVerifier nonce) reportSet
      (fun _ after => env.verifyAndReduceReportSet reportSet quoteVerifier (some nonce) = .ok after)
      (fun _ _ => True) := by
  simp only [verifyAndReduceReportSet, Exec.sat_bind, sat_check, Exec.sat_modify, Exec.sat_get,
    Exec.sat_ofExcept, implies_true, and_true]
  intro _ certChain isChain rootCa isRoot derList isList _ reduced isReduced path verified _ _ signed _ _
    checked
  -- the set is shrunk in place first, and then verified as it is left
  have shrunk : env.shrinkCertChain reportSet = .ok { reportSet with iasCert := derList } := by
    simp only [Env.shrinkCertChain, bind_eq_ok, pure_eq_ok]
    exact ⟨certChain, isChain, rootCa, isRoot, derList, isList, rfl⟩
  simp only [Env.verifyAndReduceReportSet, bind_eq_ok, pure_eq_ok]
  exact ⟨_, shrunk, reduced, isReduced, path, verified, _, signed, _, checked, rfl⟩

/-- A dictionary of two strings and their values is written. -/
theorem writeObject_pair {first second : String} {left right : HashableObject}
    (differ : HashableObject.Differ (stringKey first) (stringKey second))
    (leftSound : AdvancedRlp.Sound left) (rightSound : AdvancedRlp.Sound right) :
    ∃ bytes, writeObject (.dict [(stringKey first, .hashable left),
      (stringKey second, .hashable right)]) =
      .ok bytes := by
  have sound : Object.Holds AdvancedRlp.Sound AdvancedRlp.keysSeparate
      (.dict [(stringKey first, .hashable left), (stringKey second, .hashable right)]) := by
    have keySound : ∀ text, AdvancedRlp.Sound (stringKey text) :=
      fun text => ⟨trivial, text.toList, rfl⟩
    refine ⟨List.pairwise_pair.mpr differ.separates, keySound _, leftSound, keySound _, rightSound,
      trivial⟩
  obtain ⟨item, -, encodes, -⟩ := AdvancedRlp.roundTrips_of_sound sound
  refine ⟨SimpleRlp.writeRlp item, ?_⟩
  rw [writeObject, AdvancedRlp.genericWriter_eq, encodes]
  rfl

theorem writeObject_msg4Body (vrfyRes : Bool) (reportSet : IasReportSet) :
    ∃ bytes, writeObject (msg4Body vrfyRes reportSet) = .ok bytes :=
  writeObject_pair ⟨rfl, by decide⟩ ⟨nofun, trivial⟩ ⟨trivial, trivial⟩

theorem writeObject_msg4Object (msgBody mac : Bytes) :
    ∃ bytes, writeObject (msg4Object msgBody mac) = .ok bytes :=
  writeObject_pair ⟨rfl, by decide⟩ ⟨trivial, trivial⟩ ⟨trivial, trivial⟩

/-- The IAS has answered. -/
def Receives (faults : Faults) (msg3 : Bytes) : Prop :=
  msg3Size ≤ msg3.length ∧ faults .buildReqBody = none ∧ faults .getReport = none

/-- The verifier accepts the set. -/
def Accepts (env : Env Crt) (faults : Faults) (core : Core KeyPair) (reportSet : IasReportSet) : Prop :=
  ∃ reduced, verifyAndReduceReportSet env faults core.epidQuoteVrfy core.nonce reportSet = .ok () reduced

/-- The verifier refuses the set with an exception that is caught, and message 4 can be made. -/
def Refuses (env : Env Crt) (faults : Faults) (core : Core KeyPair) (reportSet : IasReportSet) : Prop :=
  (∃ text reduced, verifyAndReduceReportSet env faults core.epidQuoteVrfy core.nonce reportSet =
      .throws (.exception text) reduced) ∧
    ∀ site ∈ [.writeMsgBody, .cmac, .writeMsg], faults site = none

theorem genMsg4_keeps (vrfyRes : Bool) :
    (genMsg4 lib faults vrfyRes).Keeps (id : Core KeyPair → Core KeyPair) := by
  intro core
  simp [genMsg4]

/-- Message 4 is made where no site throws. -/
theorem genMsg4_returns (vrfyRes : Bool) (core : Core KeyPair)
    (noFault : ∀ site ∈ [.writeMsgBody, .cmac, .writeMsg], faults site = none) :
    Sat (genMsg4 lib faults vrfyRes) core (fun _ after => after = core) (fun _ _ => False) := by
  obtain ⟨body, isBody⟩ := writeObject_msg4Body vrfyRes core.iasReportSet
  obtain ⟨bytes, isBytes⟩ := writeObject_msg4Object body (lib.cmac core.sk body)
  simp [genMsg4, noFault, isBody, isBytes]

/-- Whatever the verification does, it does to the set. -/
theorem tryVerify_sat (core : Core KeyPair) :
    Sat (tryVerify env faults) core
      (fun accepted after => ∃ reduced, after = { core with iasReportSet := reduced } ∧
        (accepted = true → Accepts env faults core core.iasReportSet ∧
          env.verifyAndReduceReportSet core.iasReportSet core.epidQuoteVrfy (some core.nonce) = .ok reduced) ∧
        (accepted = false → ¬ Accepts env faults core core.iasReportSet))
      (fun _ after => (∃ reduced, after = { core with iasReportSet := reduced }) ∧
        ¬ Accepts env faults core core.iasReportSet ∧ ¬ Refuses env faults core core.iasReportSet) := by
  have verifies := @verifyAndReduceReportSet_sat Crt env faults core.iasReportSet core.epidQuoteVrfy core.nonce
  unfold Sat tryVerify
  rw [Exec.zoom_apply]
  cases ended : verifyAndReduceReportSet env faults core.epidQuoteVrfy core.nonce core.iasReportSet with
  | ok value reduced =>
    exact ⟨reduced, rfl, fun _ => ⟨⟨reduced, ended⟩, verifies.of_ok ended⟩, nofun⟩
  | throws error reduced =>
    have notAccepted : ¬ Accepts env faults core core.iasReportSet := by
      intro accepts
      obtain ⟨_, accepted⟩ := accepts
      rw [ended] at accepted
      cases accepted
    -- a `std::exception` is caught and makes the verdict negative; all else goes on to the caller
    cases error with
    | exception text => exact ⟨reduced, rfl, nofun, fun _ => notAccepted⟩
    | _ =>
      refine ⟨⟨reduced, rfl⟩, notAccepted, ?_⟩
      intro refuses
      obtain ⟨⟨text, _, refused⟩, -⟩ := refuses
      rw [ended] at refused
      cases refused
  | undefined => trivial

/-- The verifier returns this for the set. -/
def ReducesTo (env : Env Crt) (core : Core KeyPair) (reportSet reduced : IasReportSet) : Prop :=
  env.verifyAndReduceReportSet reportSet core.epidQuoteVrfy (some core.nonce) = .ok reduced

/-- Nothing is changed before the IAS has answered, and only the set before the verification has
    ended. -/
theorem getMsg4_sat (core : Core KeyPair) (msg3 : Bytes) (getReport : IasReportReqBody → IasReportSet) :
    let reportSet := getReport (buildIasReportReqBody msg3 core.nonce)
    Sat (getMsg4 lib env faults msg3 getReport) core
      (fun _ after => Receives faults msg3 ∧ ∃ reduced accepted,
        after = { core with iasReportSet := reduced,
                            handshakeState := if accepted then .handshakeDone else .handshakeRefused } ∧
        (accepted = true → Accepts env faults core reportSet ∧ ReducesTo env core reportSet reduced))
      (fun _ after => after = core ∨ Receives faults msg3 ∧
        ∃ reduced, after = { core with iasReportSet := reduced } ∧
        (¬ Accepts env faults core reportSet ∧ ¬ Refuses env faults core reportSet ∨
          Accepts env faults core reportSet ∧ ReducesTo env core reportSet reduced)) := by
  intro reportSet
  simp only [getMsg4, Exec.sat_bind, Exec.sat_throwIf, sat_check, Exec.sat_get, Exec.sat_modify,
    Exec.sat_pure]
  refine ⟨fun _ => .inl trivial, fun long => ⟨fun built => ⟨fun answered => ?_, fun _ _ => .inl trivial⟩,
    fun _ _ => .inl trivial⟩⟩
  have receives : Receives faults msg3 := ⟨Nat.le_of_not_lt long, built, answered⟩
  refine (tryVerify_sat { core with iasReportSet := reportSet }).mono ?_ ?_
  -- with a verdict, message 4 is made, and may still fail before the state is set
  · intro accepted verified ended
    obtain ⟨reduced, rfl, onAccept, onRefuse⟩ := ended
    refine ((genMsg4_keeps accepted _).and (Exec.sat_self _ _)).mono ?_ ?_
    · intro msg4 after made
      obtain ⟨same, -⟩ := made
      change after = _ at same
      subst same
      exact ⟨receives, reduced, accepted, rfl, onAccept⟩
    · intro error after thrown
      obtain ⟨same, thrown⟩ := thrown
      change after = _ at same
      subst same
      refine .inr ⟨receives, reduced, rfl, ?_⟩
      cases accepted with
      | true => exact .inr (onAccept rfl)
      | false =>
        refine .inl ⟨onRefuse rfl, fun refuses => ?_⟩
        exact ((genMsg4_returns false _ refuses.2).of_throws thrown)
  · intro error after thrown
    obtain ⟨⟨reduced, rfl⟩, notAccepted, notRefused⟩ := thrown
    exact .inr ⟨receives, reduced, rfl, .inl ⟨notAccepted, notRefused⟩⟩

/-! ## Runs -/

/-- The call replaces the keys. -/
def Call.ReplacesKeys {σ : Type} (_ : σ) : Call → Prop
  | .getMsg2 faults _ _ _ => EpidRaSvcProv.ReplacesKeys faults
  | _ => False

/-- No call gives up halfway: the keys and the report data are replaced together, and in a finished
    handshake GetMsg2 sends what it has replaced the keys for and GetMsg4 comes to a verdict.  A
    report is accepted only after a GetMsg2 that replaced the keys. -/
def Unbroken (env : Env Crt) (taken : List (Core KeyPair × Call)) (core : Core KeyPair) : Call → Prop
  | .getMsg0r _ _ => True
  | .getMsg2 faults _ _ sigrlB64 =>
    (ReplacesKeys faults → ReplacesRest faults) ∧
      (core.isHandshakeDone = true → ReplacesKeys faults → SendsMsg2 env faults sigrlB64)
  | .getMsg4 faults msg3 getReport =>
    let reportSet := getReport (buildIasReportReqBody msg3 core.nonce)
    Receives faults msg3 →
      (core.isHandshakeDone = true → Accepts env faults core reportSet ∨
        Refuses env faults core reportSet) ∧
        (Accepts env faults core reportSet → Happened Call.ReplacesKeys taken)

/-- The quote in a report. -/
def HasQuote (env : Env Crt) (report : Bytes) (quote : Quote) : Prop :=
  ∃ reportDict body, env.parseJson report = .ok (.dict reportDict) ∧
    reportDict.lookup "isvEnclaveQuoteBody" = some (.string body) ∧
    EpidQuoteVerifier.parseQuoteFromB64 env body = .ok quote

/-- The report data that a quote must have. -/
def expReportData (env : Env Crt) (stdReportData : ReportData) (addReportData : Bytes) : Bytes :=
  if addReportData.length = 0 then stdReportData.toList
  else EpidQuoteVerifier.reportDataFromHash (env.sha256 (stdReportData.toList ++ addReportData))

/-- The session keys are those of a peer key, and the report set was accepted with the nonce of the
    object and a quote whose report data are those of this key. -/
structure BoundTo (lib : KeyLib KeyPair) (env : Env Crt) (core : Core KeyPair) (gA : EcPublic) : Prop
    extends KeyedTo lib env core gA where
  accepted : ∃ reportSet, ReducesTo env core reportSet core.iasReportSet
  quoted : ∃ quote, HasQuote env core.iasReportSet.report quote ∧
    quote.reportData = expReportData env (genStdReportData env gA (lib.publicKey core.myEncKey)
      (lib.ckdf (lib.sharedKey core.myEncKey gA) "VK")) core.epidQuoteVrfy.addReportData

theorem ReducesTo.quoted {core : Core KeyPair} {reportSet reduced : IasReportSet}
    (reduces : ReducesTo env core reportSet reduced) : ∃ quote, HasQuote env reduced.report quote ∧
      quote.reportData =
        expReportData env core.epidQuoteVrfy.stdReportData core.epidQuoteVrfy.addReportData := by
  obtain ⟨-, _, _, -, -, -, checked⟩ := Env.verifyAndReduceReportSet_eq_ok.mp reduces
  obtain ⟨reportDict, _, body, quote, isDict, -, -, -, isBody, isQuote, verified⟩ := checked
  refine ⟨quote, ⟨reportDict, body, isDict, isBody, isQuote⟩, ?_⟩
  simp only [EpidQuoteVerifier.verify, bind_eq_ok, exists_unit] at verified
  -- other report data make `verify` false, which the report check turns into an exception
  by_contra differs
  simp [EpidQuoteVerifier.verifyReportData, expReportData] at verified differs
  simp [differs] at verified

/-- What a run without broken calls keeps. -/
structure Inv (lib : KeyLib KeyPair) (env : Env Crt) (taken : List (Core KeyPair × Call))
    (core : Core KeyPair) :
    Prop where
  keyed : Happened Call.ReplacesKeys taken → ∃ gA, KeyedTo lib env core gA
  done : core.isHandshakeDone = true →
    Happened Call.ReplacesKeys taken ∧ ∃ reportSet, ReducesTo env core reportSet core.iasReportSet

section Steps

variable {taken : List (Core KeyPair × Call)} {before after : Core KeyPair}

theorem Inv.untouched (inv : Inv lib env taken before) (same : Untouched before after)
    (sameState : after.handshakeState = before.handshakeState) : Inv lib env taken after where
  keyed isKeyed := by
    obtain ⟨gA, keyedTo⟩ := inv.keyed isKeyed
    exact ⟨gA, keyedTo.untouched same⟩
  done isDone := by
    rw [Core.isHandshakeDone, sameState] at isDone
    obtain ⟨isKeyed, reportSet, reduces⟩ := inv.done isDone
    refine ⟨isKeyed, reportSet, ?_⟩
    rwa [ReducesTo, same.sameVrfy, same.sameNonce, same.sameReportSet]

/-- A call that replaces no keys changes nothing in the history. -/
theorem Inv.snoc (inv : Inv lib env taken after) {call : Call}
    (notReplaced : ¬ call.ReplacesKeys before) :
    Inv lib env (taken ++ [(before, call)]) after where
  keyed happened := inv.keyed ((happened_snoc.mp happened).resolve_right notReplaced)
  done isDone := ⟨happened_snoc.mpr (.inl (inv.done isDone).1), (inv.done isDone).2⟩

/-- The first message leaves all but the state. -/
theorem Inv.getMsg0r (inv : Inv lib env taken before) {extendedGrpId : UInt32}
    (ends : (getMsg0r faults extendedGrpId).Ends before after) : Inv lib env taken after := by
  refine Exec.Sat.ends (Inv lib env taken) ?_ ends
  simp only [EpidRaSvcProv.getMsg0r, Exec.sat_bind, Exec.sat_throwIf, sat_check, Exec.sat_get,
    Exec.sat_modify, Exec.sat_pure]
  refine ⟨fun _ => inv, fun _ => ⟨fun _ => ⟨fun isKeyed => ?_, fun isDone => ?_⟩, fun _ _ => inv⟩⟩
  · obtain ⟨gA, keyedTo⟩ := inv.keyed isKeyed
    exact ⟨gA, keyedTo.isMk, keyedTo.isSk, keyedTo.stdReportData⟩
  · cases isDone

theorem Inv.getMsg2 (inv : Inv lib env taken before) {msg1 : Msg1} {signGbGa : Bytes × Bytes}
    {sigrlB64 : String}
    (unbroken : Unbroken env taken before (.getMsg2 faults msg1 signGbGa sigrlB64))
    (ends : (getMsg2 lib env faults msg1 signGbGa sigrlB64).Ends before after) :
    Inv lib env (taken ++ [(before, .getMsg2 faults msg1 signGbGa sigrlB64)]) after := by
  obtain ⟨whole, sends⟩ := unbroken
  refine Exec.Sat.ends (Inv lib env _) ?_ ends
  refine (getMsg2_sat before msg1 signGbGa sigrlB64 whole).mono ?_ ?_
  · rintro - after ⟨keyedTo, sent⟩
    exact ⟨fun _ => ⟨_, keyedTo⟩, fun isDone => by simp [Core.isHandshakeDone, sent] at isDone⟩
  · rintro - after ⟨sameState, ⟨notReplaced, same⟩ | ⟨replaced, notSent, keyedTo⟩⟩
    -- given up before the first key: all is as it was
    · have kept := inv.untouched same sameState
      exact kept.snoc notReplaced
    -- given up behind the report data: the state is the old one, so it is not a finished one
    · refine ⟨fun _ => ⟨_, keyedTo⟩, fun isDone => ?_⟩
      rw [Core.isHandshakeDone, sameState] at isDone
      exact (notSent (sends isDone replaced)).elim

theorem Inv.getMsg4 (inv : Inv lib env taken before) {msg3 : Bytes}
    {getReport : IasReportReqBody → IasReportSet}
    (unbroken : Unbroken env taken before (.getMsg4 faults msg3 getReport))
    (ends : (getMsg4 lib env faults msg3 getReport).Ends before after) : Inv lib env taken after := by
  have keyedKept : ∀ reduced state, Happened Call.ReplacesKeys taken →
      ∃ gA, KeyedTo lib env { before with iasReportSet := reduced, handshakeState := state } gA := by
    intro reduced state isKeyed
    obtain ⟨gA, keyedTo⟩ := inv.keyed isKeyed
    exact ⟨gA, keyedTo.isMk, keyedTo.isSk, keyedTo.stdReportData⟩
  refine Exec.Sat.ends (Inv lib env taken) ?_ ends
  refine (getMsg4_sat before msg3 getReport).mono ?_ ?_
  · rintro - after ⟨receives, reduced, accepted, rfl, onAccept⟩
    refine ⟨keyedKept _ _, fun isDone => ?_⟩
    cases accepted with
    | false => cases isDone
    | true =>
      obtain ⟨accepts, reduces⟩ := onAccept rfl
      exact ⟨(unbroken receives).2 accepts, _, reduces⟩
  · rintro - after (rfl | ⟨receives, reduced, rfl, outcome⟩)
    · exact inv
    -- the set is replaced while the state stays: in a finished handshake by one that was accepted
    · refine ⟨keyedKept _ _, fun isDone => ?_⟩
      rcases outcome with ⟨notAccepted, notRefused⟩ | ⟨accepts, reduces⟩
      · exact (((unbroken receives).1 isDone).elim notAccepted notRefused).elim
      · exact ⟨(unbroken receives).2 accepts, _, reduces⟩

theorem Inv.step (inv : Inv lib env taken before) {call : Call}
    (unbroken : Unbroken env taken before call)
    (stepped : Step lib env before call after) : Inv lib env (taken ++ [(before, call)]) after := by
  cases call with
  | getMsg0r faults extendedGrpId => exact (inv.getMsg0r stepped).snoc id
  | getMsg2 faults msg1 signGbGa sigrlB64 => exact inv.getMsg2 unbroken stepped
  | getMsg4 faults msg3 getReport => exact (inv.getMsg4 unbroken stepped).snoc id

end Steps

/-- In a run without broken calls, a finished handshake is bound to the attested peer. -/
theorem done_boundTo {start final : Core KeyPair} {taken : List (Core KeyPair × Call)}
    (initial : start.handshakeState = .initial) (run : Run (Step lib env) start taken final)
    (unbroken : ∀ earlier before call later, taken = earlier ++ (before, call) :: later →
      Unbroken env earlier before call)
    (isDone : final.isHandshakeDone = true) : ∃ gA, BoundTo lib env final gA := by
  have inv : Inv lib env taken final := by
    refine run.invariant_of_history (Unbroken env) (Inv lib env) ?_ ?_ unbroken
    · refine ⟨fun happened => (not_happened_nil happened).elim, fun isDone => ?_⟩
      simp [Core.isHandshakeDone, initial] at isDone
    · intro taken before call after inv guarded stepped
      exact inv.step guarded stepped
  obtain ⟨isKeyed, reportSet, reduces⟩ := inv.done isDone
  obtain ⟨gA, keyedTo⟩ := inv.keyed isKeyed
  have quoted := reduces.quoted
  rw [keyedTo.stdReportData] at quoted
  exact ⟨gA, keyedTo, ⟨reportSet, reduces⟩, quoted⟩

/-! ## Calls that nothing breaks -/

/-- The keys and the report data of a peer key. -/
def keyTo (lib : KeyLib KeyPair) (env : Env Crt) (core : Core KeyPair) (gA : EcPublic) : Core KeyPair :=
  let sharedKey := lib.sharedKey core.myEncKey gA
  { core with
    peerEncKey := gA
    smk := lib.ckdf sharedKey "SMK"
    mk := lib.ckdf sharedKey "MK"
    sk := lib.ckdf sharedKey "SK"
    vk := lib.ckdf sharedKey "VK"
    epidQuoteVrfy := { core.epidQuoteVrfy with
      stdReportData := genStdReportData env gA (lib.publicKey core.myEncKey) (lib.ckdf sharedKey "VK") } }

theorem genStdReportData_toList (peerEncKey myEncSgxKey : EcPublic) (vk : SKey) :
    (genStdReportData env peerEncKey myEncSgxKey vk).toList =
      EpidQuoteVerifier.reportDataFromHash (env.sha256 (peerEncKey.bytes ++ myEncSgxKey.bytes ++ vk)) := by
  simp only [genStdReportData, EpidQuoteVerifier.reportDataFromHash]
  rw [Vector.toList_append, Vector.toList_replicate]

theorem getMsg2_returns (core : Core KeyPair) (msg1 : Msg1) (signGbGa : Bytes × Bytes)
    {sigrlB64 : String} {sigRL : Bytes} (decoded : env.base64Decode sigrlB64 = .ok sigRL) :
    ∃ msg2, getMsg2 lib env (fun _ => none) msg1 signGbGa sigrlB64 core =
      .ok msg2 { keyTo lib env core msg1.gA with handshakeState := .msg2Sent } := by
  simp [getMsg2, setPeerEncrPubKey, check, decoded, keyTo, Exec.ofExcept]

/-- The revocation list is asked for when the keys have been replaced. -/
theorem getMsg2_withheld (core : Core KeyPair) (msg1 : Msg1) (signGbGa : Bytes × Bytes)
    (sigrlB64 : String) (error : Thrown) :
    getMsg2 lib env (fun site => if site = .getSigrl then some error else none) msg1 signGbGa sigrlB64 core =
      .throws error (keyTo lib env core msg1.gA) := by
  simp [getMsg2, setPeerEncrPubKey, check, keyTo]

theorem verifyAndReduceReportSet_returns {reportSet reduced : IasReportSet}
    {quoteVerifier : EpidQuoteVerifier}
    {nonce : String}
    (reduces : env.verifyAndReduceReportSet reportSet quoteVerifier (some nonce) = .ok reduced) :
    verifyAndReduceReportSet env (fun _ => none) quoteVerifier nonce reportSet = .ok () reduced := by
  simp only [Env.verifyAndReduceReportSet, Env.shrinkCertChain, bind_eq_ok, pure_eq_ok] at reduces
  obtain ⟨_, ⟨certChain, isChain, rootCa, isRoot, derList, isList, rfl⟩, again, isAgain, path,
    verified, _, signed, _, checked, rfl⟩ := reduces
  simp only at isAgain
  simp [verifyAndReduceReportSet, check, isChain, isRoot, isList, isAgain, verified, signed, checked,
    Exec.ofExcept]

theorem getMsg4_returns {core : Core KeyPair} {msg3 : Bytes} (long : msg3Size ≤ msg3.length)
    {reportSet reduced : IasReportSet} (reduces : ReducesTo env core reportSet reduced) :
    ∃ msg4, getMsg4 lib env (fun _ => none) msg3 (fun _ => reportSet) core =
      .ok msg4 { core with iasReportSet := reduced, handshakeState := .handshakeDone } := by
  have verified : tryVerify env (fun _ => none) { core with iasReportSet := reportSet } =
      .ok true { core with iasReportSet := reduced } := by
    simp only [tryVerify, Exec.zoom_apply, verifyAndReduceReportSet_returns reduces, Outcome.map_ok]
  obtain ⟨body, isBody⟩ := writeObject_msg4Body true reduced
  obtain ⟨bytes, isBytes⟩ := writeObject_msg4Object body (lib.cmac core.sk body)
  have short : ¬ msg3.length < msg3Size := Nat.not_lt.mpr long
  simp [getMsg4, check, short, verified, genMsg4, isBody, isBytes, Exec.ofExcept]

/-! ## Keys of another client

The set with the self-signed certificate again, with a quote that holds the report data of the
first client.
-/

namespace RepeatedMsg2

open ForgedReport (bytesOf nonce mrEnclave signingDer strangerDer)

@[irreducible] def gB : EcPublic where
  gx := bytesOf 32 [0x844b466314ff829f7152b2ac395a32e75428957e1334a8cfa5c34bd98d509bbb]
  gy := bytesOf 32 [0x96777a36ab984db8a834b31ba17b2f0b66e7060e3f154b6126a6db7a8712c8ac]

@[irreducible] def first : EcPublic where
  gx := bytesOf 32 [0x73b7ee174d2179f6e748820cb76fbfb509594545443a971e3b750dcc01343adb]
  gy := bytesOf 32 [0xb8c38c78b28c4876dff879e16cdb7e1312279b2d56699487c381ef5d251e3a09]

@[irreducible] def second : EcPublic where
  gx := bytesOf 32 [0x3c3e86f90225f4657430198af95891c55de4cab288af1d5d93e08a08bcdf73b4]
  gy := bytesOf 32 [0xb0017d08fb44c0fa205688b1acca4734810f568acf4200060532149d1adb44a9]

@[irreducible] def firstShared : Bytes :=
  bytesOf 32 [0x3f103ed6f633f71bad1dc0aac839bbe9f01dec05fb97d63137851bf3c344484b]

@[irreducible] def secondShared : Bytes :=
  bytesOf 32 [0xd23ffc78c1825510a5ed9137c818e29e825eaf0119a1e6793e782bed60bb5829]

def firstKeys : List (String × SKey) := [
  ("SMK", bytesOf 16 [0x341d55095b846483939afd3f410be2eb00000000000000000000000000000000]),
  ("MK", bytesOf 16 [0x614e26c9ebffba56f71dec28278907f900000000000000000000000000000000]),
  ("SK", bytesOf 16 [0xd25495a099f0d0ce9c1c76ed15cb243e00000000000000000000000000000000]),
  ("VK", bytesOf 16 [0xcaca4946c3b9d5b5c934421e2507447f00000000000000000000000000000000])]

def secondKeys : List (String × SKey) := [
  ("SMK", bytesOf 16 [0x9d69c4aebcc6c8e05e85426ad359709c00000000000000000000000000000000]),
  ("MK", bytesOf 16 [0x089e4ca32c426ab95de521ad246dfd9200000000000000000000000000000000]),
  ("SK", bytesOf 16 [0x2e937ad8933bf58d5429ab797031cbd400000000000000000000000000000000]),
  ("VK", bytesOf 16 [0xaa8ceb6bb8d2901a5b119e51b937d50100000000000000000000000000000000])]

/-- The MACs of both messages 2 and of message 4. -/
def macs : List (SKey × Bytes) := [
  (bytesOf 16 [0x341d55095b846483939afd3f410be2eb00000000000000000000000000000000],
    bytesOf 16 [0x40021c71f3a3f9a836abdba5bc130e0900000000000000000000000000000000]),
  (bytesOf 16 [0x9d69c4aebcc6c8e05e85426ad359709c00000000000000000000000000000000],
    bytesOf 16 [0xbd066733145542fb448979c2ce83304500000000000000000000000000000000]),
  (bytesOf 16 [0xd25495a099f0d0ce9c1c76ed15cb243e00000000000000000000000000000000],
    bytesOf 16 [0x2cf3799aec7cd68f1ea17e0aa10cf62000000000000000000000000000000000])]

/-- The libraries on the keys of this provider. -/
def keyLib : KeyLib Unit where
  publicKey _ := gB
  sharedKey _ gA := if gA = first then firstShared else if gA = second then secondShared else []
  ckdf sharedKey label :=
    ((if sharedKey = firstShared then firstKeys
      else if sharedKey = secondShared then secondKeys else []).lookup label).getD []
  cmac key _ := (macs.lookup key).getD []

def hashOf (word : Nat) : Hash := Vector.ofFn fun place => (bytesOf 32 [word])[place.val]!

@[irreducible] def firstHash : Hash :=
  hashOf 0xc7f33d7f4d7ef27e0d1b2c1ed6aa12263d6a1623ac12be8babf4b5eed6fca2a5

@[irreducible] def secondHash : Hash :=
  hashOf 0x1e6d36e1c71708d997d893bec719add99934c7c288ba479c4ab324379ab9c6c5

@[irreducible] def digest : Hash :=
  hashOf 0xfe893958275bc6444d034cbbbffd13559c9aaff4e92395330f90fbde257d5a14

@[irreducible] def quoteB64 : String := String.join [
  "AgAAAAAAAAAAAAAAAAAAAAAAAAAAAAAAAAAAAAAAAAAAAAAAAAAAAAAAAAAAAAAAAAAAAAAAAAAAAAAAAAAAAAAAAAAA",
  "AAAAAAAAAAAAAAAAAAAAAAAAAAAAAAAAAAAAAAAAAAAAAAAAAAAAAAAAABrtfMHH9ZwsA0lu+UQrMMjGNbOzOZ2l5ncN",
  "RuuHbQwiAAAAAAAAAAAAAAAAAAAAAAAAAAAAAAAAAAAAAAAAAAAAAAAAAAAAAAAAAAAAAAAAAAAAAAAAAAAAAAAAAAAA",
  "AAAAAAAAAAAAAAAAAAAAAAAAAAAAAAAAAAAAAAAAAAAAAAAAAAAAAAAAAAAAAAAAAAAAAAAAAAAAAAAAAAAAAAAAAAAA",
  "AAAAAAAAAAAAAAAAAAAAAAAAAAAAAAAAAAAAAAAAAAAAAAAAAAAAAAAAAAAAAAAAAAAAAAAAAAAAAAAAAAAAAAAAAAAA",
  "AAAAAAAAAAAAAAAAAAAAAAAAAAAAAADH8z1/TX7yfg0bLB7WqhImPWoWI6wSvour9LXu1vyipQAAAAAAAAAAAAAAAAAA",
  "AAAAAAAAAAAAAAAAAAAAAAAA"]

def reportText : String :=
  "\x7b\"nonce\":\"" ++ nonce ++ "\",\"id\":\"1\",\"timestamp\":\"2023-05-01T00:00:00.000000\"," ++
  "\"version\":4,\"isvEnclaveQuoteStatus\":\"OK\",\"isvEnclaveQuoteBody\":\"" ++ quoteB64 ++ "\"\x7d"

@[irreducible] def report : Bytes := reportText.toList.map fun char => UInt8.ofNat char.toNat

def quote : Quote :=
  [2] ++ List.replicate 111 0 ++ mrEnclave ++ List.replicate 224 0 ++ firstHash.toList ++ List.replicate 32 0

@[irreducible] def sign : Bytes := bytesOf 256 [
  0x8c757756bc2c158a894842258ae3d9a6981370055e4144ab94403a42868b8962,
  0xc1286e82be2240c50083a9aeb87ebf4b1a6dc710d28a22a570051ac7016cb544,
  0xfd1b9235a42c749810ac280cc7f56761bd038994ebe6d32d3baf72e9d0db2a13,
  0x8a94ea28e29876aecd99862231e3cb557cde62e8151fbebeca44cb91bd62087e,
  0x1f2098272cd274b5b6205547468b91dc15490c3955945e86baa9fdf5c1db39a1,
  0xa1c19659e0df050fbd5dee4d77e91d3194f4a38504e0947e64c7eb72e1b81042,
  0x1c4af30281bd1156aa3210f6a54180b0c55aae67639becfefbeeeb4fcdf3f6af,
  0x09d140dd75bffcee52f34d0800af3b903a6470d45bb4ae9a5d8c4d5c1468e700]

def reportEnv : Env ForgedReport.Crt where
  x509 := { ForgedReport.x509 with
    pkVerify := fun crt hash sent => crt = .stranger ∧ hash = digest.toList ∧ sent = sign }
  sha256 bytes :=
    if bytes = first.bytes ++ gB.bytes ++ keyLib.ckdf firstShared "VK" then firstHash
    else if bytes = second.bytes ++ gB.bytes ++ keyLib.ckdf secondShared "VK" then secondHash
    else if bytes = report then digest
    else Vector.replicate 32 0
  parseJson bytes :=
    if bytes = report then
      .ok (.dict [("nonce", .string nonce), ("id", .string "1"),
        ("timestamp", .string "2023-05-01T00:00:00.000000"), ("version", .other),
        ("isvEnclaveQuoteStatus", .string "OK"), ("isvEnclaveQuoteBody", .string quoteB64)])
    else .error (.library "not a report")
  base64Decode text :=
    if text = quoteB64 then .ok quote else if text = "" then .ok [] else .error (.library "not a quote")

def reportSet : IasReportSet where
  iasCert := [signingDer, strangerDer, strangerDer]
  report := report
  reportSign := sign

def start : Core Unit where
  mySignKey := ⟨bytesOf 32 [0xdd89f2fabda5f252b2b82f5efc432af2f9a5c8e6b6e411cd6d1852e6af4345fc],
    bytesOf 32 [0x55d393117c95236e2d3d4be171a008414a5e544da69d1f7a71bab4c5f454e955]⟩
  myEncKey := ()
  peerEncKey := ⟨List.replicate 32 0, List.replicate 32 0⟩
  smk := List.replicate 16 0
  mk := List.replicate 16 0
  sk := List.replicate 16 0
  vk := List.replicate 16 0
  spid := bytesOf 16 [0x0123456789abcdef0123456789abcdef00000000000000000000000000000000]
  nonce
  epidQuoteVrfy := { authEnclaves := [mrEnclave], addReportData := [], stdReportData := Vector.replicate 64 0 }
  iasReportSet := ⟨[], [], []⟩
  handshakeState := .initial

theorem parseDer_same (der : Bytes) :
    ∀ chain, reportEnv.x509.parseDer der chain = ForgedReport.x509.parseDer der chain
  | [] => rfl
  | [_] => rfl
  | crt :: next :: rest => by
    rw [X509Lib.parseDer, X509Lib.parseDer, parseDer_same der (next :: rest)]
    rfl

/-- The certificates are those of the forged report. -/
theorem x509CertFromDerList_eq :
    reportEnv.x509CertFromDerList reportSet.iasCert = .ok [.signing, .stranger, .stranger] := by
  have same : reportEnv.appendDer = ForgedReport.env.appendDer := by
    funext chain der
    rw [Env.appendDer, Env.appendDer, parseDer_same]
    rfl
  rw [Env.x509CertFromDerList, same]
  exact ForgedReport.x509CertFromDerList_eq

theorem getRootCaCert_eq : reportEnv.getRootCaCert = .ok [.root] := by
  have parsed : reportEnv.x509.parsePem rootCaPem = some [.root] := if_pos rfl
  rw [Env.getRootCaCert, parsed]

theorem shrinkCertChain_eq : reportEnv.shrinkCertChain reportSet = .ok reportSet := by
  have kept : reportEnv.shrinkChain [.root] [.signing, .stranger, .stranger] =
      [.signing, .stranger, .stranger] := by
    simp [Env.shrinkChain, reportEnv, ForgedReport.x509, ForgedReport.certificates_differ]
  have written : reportEnv.x509Cert2DerList [.signing, .stranger, .stranger] =
      .ok reportSet.iasCert := by
    simp only [Env.x509Cert2DerList, bind_eq_ok, pure_eq_ok]
    exact ⟨_, ⟨_, rfl, rfl⟩, rfl⟩
  simp only [Env.shrinkCertChain, bind_eq_ok, pure_eq_ok]
  exact ⟨_, x509CertFromDerList_eq, _, getRootCaCert_eq, _, by rw [kept, written]; rfl, rfl⟩

theorem verifyCert_eq :
    reportEnv.verifyCert [.signing, .stranger, .stranger] = .ok [.signing, .root] := by
  have verified : reportEnv.x509.verifyWithProfile certVrfyProfile [.root]
      [.signing, .stranger, .stranger] = .ok [.signing, .root] := by
    decide +kernel
  simp only [Env.verifyCert, bind_eq_ok]
  refine ⟨_, getRootCaCert_eq, ?_⟩
  rw [verified]
  rfl

/-- What the proofs look up in the keys and the texts. -/
structure Looked : Prop where
  first_head : first.bytes.head? = some 0x73
  second_head : second.bytes.head? = some 0x3c
  quote_length : quote.length = quoteBodySize
  quote_mrEnclave : quote.mrEnclave = mrEnclave
  quote_reportData : quote.reportData = EpidQuoteVerifier.reportDataFromHash firstHash
  quoteB64_ne : "" ≠ quoteB64
  shared_second : keyLib.sharedKey () second = secondShared
  mk_first : keyLib.ckdf secondShared "MK" ≠ keyLib.ckdf (keyLib.sharedKey () first) "MK"
  mk_other : keyLib.ckdf secondShared "MK" ≠ keyLib.ckdf [] "MK"
  hashes_ne : EpidQuoteVerifier.reportDataFromHash firstHash ≠ EpidQuoteVerifier.reportDataFromHash secondHash

theorem looked : Looked := by
  constructor <;> decide +kernel

theorem first_head (rest : Bytes) : (first.bytes ++ gB.bytes ++ rest).head? = some 0x73 := by
  have facts := looked
  rw [List.append_assoc, List.head?_append, facts.first_head]
  rfl

theorem second_head (rest : Bytes) : (second.bytes ++ gB.bytes ++ rest).head? = some 0x3c := by
  have facts := looked
  rw [List.append_assoc, List.head?_append, facts.second_head]
  rfl

/-- The text of the report begins with a brace. -/
theorem report_head : report.head? = some 0x7b := by
  unfold report reportText
  simp only [String.toList_append, List.map_append, List.head?_append]
  rfl

theorem sha256_first : reportEnv.sha256 (first.bytes ++ gB.bytes ++ keyLib.ckdf firstShared "VK") = firstHash :=
  if_pos rfl

theorem sha256_second :
    reportEnv.sha256 (second.bytes ++ gB.bytes ++ keyLib.ckdf secondShared "VK") = secondHash := by
  have notFirst : second.bytes ++ gB.bytes ++ keyLib.ckdf secondShared "VK" ≠
      first.bytes ++ gB.bytes ++ keyLib.ckdf firstShared "VK" := by
    refine ne_of_apply_ne List.head? ?_
    rw [first_head, second_head]
    decide
  simp only [reportEnv, if_neg notFirst, if_true]

theorem sha256_report : reportEnv.sha256 report = digest := by
  have notFirst : report ≠ first.bytes ++ gB.bytes ++ keyLib.ckdf firstShared "VK" := by
    refine ne_of_apply_ne List.head? ?_
    rw [first_head, report_head]
    decide
  have notSecond : report ≠ second.bytes ++ gB.bytes ++ keyLib.ckdf secondShared "VK" := by
    refine ne_of_apply_ne List.head? ?_
    rw [second_head, report_head]
    decide
  simp only [reportEnv, if_neg notFirst, if_neg notSecond, if_true]

theorem stranger_signs : reportEnv.Signs reportSet .stranger := by
  have hashed : reportEnv.sha256 reportSet.report = digest := sha256_report
  rw [Env.Signs, hashed]
  exact decide_eq_true ⟨rfl, rfl, rfl⟩

/-- The state when the keys of the first client are in place. -/
def keyed : Core Unit := { keyTo keyLib reportEnv start first with handshakeState := .msg2Sent }

def done : Core Unit := { keyed with iasReportSet := reportSet, handshakeState := .handshakeDone }

theorem keyed_stdReportData :
    keyed.epidQuoteVrfy.stdReportData.toList = EpidQuoteVerifier.reportDataFromHash firstHash := by
  have shared : keyLib.sharedKey () first = firstShared := if_pos rfl
  change (genStdReportData reportEnv first gB (keyLib.ckdf (keyLib.sharedKey () first) "VK")).toList = _
  rw [genStdReportData_toList, shared, sha256_first]

theorem parseQuoteFromB64_eq : EpidQuoteVerifier.parseQuoteFromB64 reportEnv quoteB64 = .ok quote := by
  have facts := looked
  simp only [EpidQuoteVerifier.parseQuoteFromB64, bind_eq_ok, throw_ite_eq_ok]
  exact ⟨quote, if_pos rfl, not_not.mpr facts.quote_length, rfl⟩

theorem hasQuote_iff {found : Quote} : HasQuote reportEnv report found ↔ found = quote := by
  constructor
  · rintro ⟨reportDict, body, isDict, isBody, isQuote⟩
    simp only [reportEnv, if_true] at isDict
    cases isDict
    cases isBody
    rw [parseQuoteFromB64_eq] at isQuote
    cases isQuote
    rfl
  · rintro rfl
    exact ⟨_, quoteB64, if_pos rfl, rfl, parseQuoteFromB64_eq⟩

theorem checksPass : reportEnv.ChecksPass report keyed.epidQuoteVrfy (some nonce) := by
  refine ⟨_, "OK", quoteB64, quote, if_pos rfl, ?_, rfl, by decide, rfl, parseQuoteFromB64_eq, ?_⟩
  · rintro _ ⟨⟩
    rfl
  · have facts := looked
    have authorized : quote.mrEnclave ∈ keyed.epidQuoteVrfy.authEnclaves :=
      List.mem_singleton.mpr facts.quote_mrEnclave
    have noMore : keyed.epidQuoteVrfy.addReportData.length = 0 := rfl
    simp only [EpidQuoteVerifier.verify, EpidQuoteVerifier.verifyMrEnclave, if_pos authorized,
      EpidQuoteVerifier.verifyReportData, if_pos noMore, keyed_stdReportData, facts.quote_reportData,
      if_true]
    rfl

theorem reduces : ReducesTo reportEnv keyed reportSet reportSet :=
  Env.verifyAndReduceReportSet_eq_ok.mpr ⟨shrinkCertChain_eq, _, _, x509CertFromDerList_eq,
    verifyCert_eq, ⟨.stranger, by decide, stranger_signs⟩, checksPass⟩

/-- The first client gets its keys. -/
def firstMsg2 : Call :=
  .getMsg2 (fun _ => none) ⟨first, [0, 0, 0, 0]⟩
    (bytesOf 32 [0xeaa7d7376226e5b1311288c3778cd634ae3f1fc332de90f534d4cab2de3d6e92],
      bytesOf 32 [0x121c2a862888d94f8ee62e0df8bc23d295c2e33f05bf83b95c98d939c640d27c]) ""

/-- Its report is accepted. -/
def firstMsg4 : Call := .getMsg4 (fun _ => none) (List.replicate msg3Size 0 ++ quote) fun _ => reportSet

/-- The keys of the second client are in place when the IAS gives no revocation list. -/
def secondMsg2 : Call :=
  .getMsg2 (fun site => if site = .getSigrl then some (.library "IAS") else none) ⟨second, [0, 0, 0, 0]⟩
    (bytesOf 32 [0xd2a2b73496c324d0715e02d1dfac02e12f5810f98105eacc2e6861c2d11b2db5],
      bytesOf 32 [0x85cb3acc84e2872c8c89651847c19b3620eea1024d68ef87f25c38197f4cf5fe]) ""

theorem stepped_firstMsg2 : Step keyLib reportEnv start firstMsg2 keyed := by
  have facts := looked
  have nothing : reportEnv.base64Decode "" = .ok [] := (if_neg facts.quoteB64_ne).trans (if_pos rfl)
  exact .inl (getMsg2_returns start _ _ nothing)

theorem stepped_firstMsg4 : Step keyLib reportEnv keyed firstMsg4 done := by
  have long : msg3Size ≤ (List.replicate msg3Size 0 ++ quote).length := by
    rw [List.length_append, List.length_replicate]
    exact Nat.le_add_right _ _
  exact .inl (getMsg4_returns long reduces)

theorem stepped_secondMsg2 : Step keyLib reportEnv done secondMsg2 (keyTo keyLib reportEnv done second) :=
  .inr ⟨_, getMsg2_withheld done _ _ _ _⟩

theorem run_done : Run (Step keyLib reportEnv) start [(start, firstMsg2), (keyed, firstMsg4)] done :=
  .snoc (.snoc .nil stepped_firstMsg2) stepped_firstMsg4

theorem unbroken_first : ∀ earlier before call later,
    [(start, firstMsg2), (keyed, firstMsg4)] = earlier ++ (before, call) :: later →
      Unbroken reportEnv earlier before call := by
  refine forall_split_cons ?_ (forall_split_cons (fun _ => ?_) forall_split_nil)
  · exact ⟨fun _ _ _ => rfl, fun isDone => (Bool.false_ne_true isDone).elim⟩
  · refine ⟨fun isDone => (Bool.false_ne_true isDone).elim, fun _ => ?_⟩
    exact ⟨(start, firstMsg2), List.mem_singleton.mpr rfl, fun _ _ => rfl⟩

end RepeatedMsg2

/-- After the messages of the first client its report and its keys belong together. -/
theorem done_boundTo_sample : ∃ gA, BoundTo RepeatedMsg2.keyLib RepeatedMsg2.reportEnv RepeatedMsg2.done gA :=
  done_boundTo rfl RepeatedMsg2.run_done RepeatedMsg2.unbroken_first rfl

namespace RepeatedMsg2

theorem second_unbound : ¬ ∃ gA, BoundTo keyLib reportEnv (keyTo keyLib reportEnv done second) gA := by
  have facts := looked
  rintro ⟨gA, bound⟩
  have secondKey : keyLib.ckdf secondShared "MK" = keyLib.ckdf (keyLib.sharedKey () gA) "MK" := by
    rw [← facts.shared_second]
    exact bound.isMk
  -- Only the key of the second client gives this MK, and the quote is about the first one.
  have isSecond : gA = second := by
    by_contra other
    by_cases isFirst : gA = first
    · subst isFirst
      exact facts.mk_first secondKey
    · have unshared : keyLib.sharedKey () gA = [] := (if_neg isFirst).trans (if_neg other)
      rw [unshared] at secondKey
      exact facts.mk_other secondKey
  subst isSecond
  obtain ⟨found, hasQuote, isData⟩ := bound.quoted
  rw [hasQuote_iff.mp hasQuote, facts.quote_reportData] at isData
  change _ =
    (genStdReportData reportEnv second gB (keyLib.ckdf (keyLib.sharedKey () second) "VK")).toList at isData
  rw [genStdReportData_toList, facts.shared_second, sha256_second] at isData
  exact facts.hashes_ne isData

end RepeatedMsg2

/-- A handshake stays finished while the keys are replaced by those of a client without a report. -/
theorem unattested_keys : ¬ ∀ (start final : Core Unit) (taken : List (Core Unit × Call)),
    start.handshakeState = .initial →
    Run (Step RepeatedMsg2.keyLib RepeatedMsg2.reportEnv) start taken final →
    final.isHandshakeDone = true →
    ∃ gA, BoundTo RepeatedMsg2.keyLib RepeatedMsg2.reportEnv final gA := by
  intro always
  exact RepeatedMsg2.second_unbound
    (always RepeatedMsg2.start _ _ rfl (.snoc RepeatedMsg2.run_done RepeatedMsg2.stepped_secondMsg2) rfl)

end Decentagram.DecentEnclave.EpidRaSvcProv
