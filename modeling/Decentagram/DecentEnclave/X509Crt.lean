import Mathlib.Data.List.Infix
import Mathlib.Data.BitVec

/-! # Certification paths

The verification of a chain in `x509_crt.c`: how a path is built from the first certificate of a list up
to a trusted one, and which flags it gets on the way.  The parser, the clock, the comparison of names
and the signatures of the library are the fields of `X509Lib`.
-/

namespace Decentagram.Mbedtls

abbrev Bytes := List UInt8
abbrev Flags := BitVec 32

def badCertExpired : Flags := 0x01
def badCertNotTrusted : Flags := 0x08
def badCertFuture : Flags := 0x0200
def badCertBadMd : Flags := 0x4000
def badCertBadPk : Flags := 0x8000
def badCertBadKey : Flags := 0x010000

/-- `MBEDTLS_X509_MAX_INTERMEDIATE_CA` -/
def maxIntermediateCa : Nat := 8

/-- `mbedtls_x509_crt_profile` -/
structure CrtProfile where
  allowedMds : Flags
  allowedPks : Flags
  allowedCurves : Flags
  rsaMinBitlen : Nat
deriving DecidableEq, Repr

/-- The key of a certificate as `x509_profile_check_key` sees it. -/
inductive PkKind where
  | rsa (bitlen : Nat)
  | ec (groupId : Nat)
  | none
deriving DecidableEq, Repr

/-- What the verification uses of the rest of the library, for certificates of type `Crt`. -/
structure X509Lib (Crt : Type) where
  /-- A certificate after `mbedtls_x509_crt_init`: no bytes and version 0. -/
  blank : Crt
  version : Crt → Nat
  raw : Crt → Bytes
  parseDerCore : Bytes → Option Crt
  parsePem : String → Option (List Crt)
  timeIsPast : Crt → Bool
  timeIsFuture : Crt → Bool
  /-- Issuer and subject are one name. -/
  selfIssued : Crt → Bool
  sigMd : Crt → Nat
  sigPk : Crt → Nat
  pkType : Crt → Nat
  pkKind : Crt → PkKind
  maxPathlen : Crt → Nat
  checkParent : Crt → Crt → Bool → Bool
  checkSignature : Crt → Crt → Bool
  /-- `mbedtls_pk_verify` with the key of the certificate and SHA-256. -/
  pkVerify : Crt → Bytes → Bytes → Bool

/-- An entry of `mbedtls_x509_crt_verify_chain`. -/
structure ChainItem (Crt : Type) where
  crt : Crt
  flags : Flags

/-- A parent with the certificates that follow it in its list. -/
structure FoundParent (Crt : Type) where
  parent : Crt
  next : List Crt
  isTrusted : Bool
  signatureIsGood : Bool

inductive VerifyError where
  | fatal
  | verifyFailed (flags : Flags)
deriving DecidableEq, Repr

def idFlag (id : Nat) : Flags := 1#32 <<< (id - 1)

/-- `x509_profile_check_md_alg` and `x509_profile_check_pk_alg`: 0 is the algorithm `NONE`. -/
def profileAllows (allowed : Flags) (alg : Nat) : Bool := alg != 0 && allowed &&& idFlag alg != 0

def profileCheckKey (profile : CrtProfile) : PkKind → Bool
  | .rsa bitlen => profile.rsaMinBitlen ≤ bitlen
  | .ec groupId => profileAllows profile.allowedCurves groupId
  | .none => false

namespace X509Lib

variable {Crt : Type} (lib : X509Lib Crt)

/-- `mbedtls_x509_crt_parse_der_with_ext_cb`: the first blank certificate of the list is filled, or a
new one is added to its end. -/
def parseDer (der : Bytes) : List Crt → Option (List Crt)
  | [] => none
  | crt :: next =>
    if lib.version crt = 0 then
      (lib.parseDerCore der).map fun parsed => parsed :: next
    else
      match next with
      | [] => (lib.parseDerCore der).map fun parsed => [crt, parsed]
      | following :: rest => (parseDer der (following :: rest)).map fun chain => crt :: chain

def timeFlags (crt : Crt) : Flags :=
  (if lib.timeIsPast crt then badCertExpired else 0) |||
  (if lib.timeIsFuture crt then badCertFuture else 0)

def algFlags (profile : CrtProfile) (crt : Crt) : Flags :=
  (if profileAllows profile.allowedMds (lib.sigMd crt) then 0 else badCertBadMd) |||
  (if profileAllows profile.allowedPks (lib.sigPk crt) then 0 else badCertBadPk)

/-- `x509_crt_check_ee_locally_trusted` -/
def checkEeLocallyTrusted (crt : Crt) (trustCa : List Crt) : Bool :=
  lib.selfIssued crt && trustCa.any fun ca => lib.raw crt = lib.raw ca

/-- `x509_crt_find_parent_in`: the first candidate in its validity period, else the first one of all. -/
def findParentIn (child : Crt) (top : Bool) (pathCnt selfCnt : Nat) :
    List Crt → Option (FoundParent Crt) → Option (FoundParent Crt)
  | [], fallback => fallback
  | parent :: next, fallback =>
    if ¬ lib.checkParent child parent top then
      findParentIn child top pathCnt selfCnt next fallback
    else if 0 < lib.maxPathlen parent ∧ lib.maxPathlen parent < 1 + pathCnt - selfCnt then
      findParentIn child top pathCnt selfCnt next fallback
    else
      let found : FoundParent Crt := {
        parent := parent
        next := next
        isTrusted := top
        signatureIsGood := lib.checkSignature child parent }
      -- a bad signature only rules out a trusted parent, the other ones are flagged by the caller
      if top ∧ ¬ found.signatureIsGood then
        findParentIn child top pathCnt selfCnt next fallback
      else if lib.timeIsPast parent ∨ lib.timeIsFuture parent then
        findParentIn child top pathCnt selfCnt next (fallback.or (some found))
      else some found

/-- `x509_crt_find_parent`: among the trusted certificates, then among those behind the child. -/
def findParent (trustCa : List Crt) (child : Crt) (next : List Crt) (pathCnt selfCnt : Nat) :
    Option (FoundParent Crt) :=
  (lib.findParentIn child true pathCnt selfCnt trustCa none).or
    (lib.findParentIn child false pathCnt selfCnt next none)

/-- `x509_crt_verify_chain`, without revocation lists.  `slots` counts the intermediate certificates
that the array of the chain can still hold, so the path is `maxIntermediateCa - slots` long. -/
def verifyChain (profile : CrtProfile) (trustCa : List Crt) (slots selfCnt : Nat) :
    List Crt → Except VerifyError (List (ChainItem Crt))
  | [] => .error .fatal
  | child :: next =>
    let pathCnt := maxIntermediateCa - slots
    let flags := lib.timeFlags child ||| lib.algFlags profile child
    if pathCnt = 0 ∧ lib.checkEeLocallyTrusted child trustCa then .ok [⟨child, flags⟩]
    else
      match lib.findParent trustCa child next pathCnt selfCnt with
      | none => .ok [⟨child, flags ||| badCertNotTrusted⟩]
      | some found =>
        let selfCnt := if pathCnt ≠ 0 ∧ lib.selfIssued child then selfCnt + 1 else selfCnt
        let flags := flags
          ||| (if found.signatureIsGood then 0 else badCertNotTrusted)
          ||| (if profileCheckKey profile (lib.pkKind found.parent) then 0 else badCertBadKey)
        -- a trusted root ends the chain with the check of its validity period
        if found.isTrusted then .ok [⟨child, flags⟩, ⟨found.parent, lib.timeFlags found.parent⟩]
        else
          match slots with
          | 0 => .error .fatal
          | slots + 1 => do
            let items ← verifyChain profile trustCa slots selfCnt (found.parent :: found.next)
            pure (⟨child, flags⟩ :: items)

/-- The flags of the end entity's own key. -/
def eeFlags (profile : CrtProfile) (crt : Crt) : Flags :=
  (if profileAllows profile.allowedPks (lib.pkType crt) then 0 else badCertBadPk) |||
  (if profileCheckKey profile (lib.pkKind crt) then 0 else badCertBadKey)

/-- `mbedtls_x509_crt_verify_with_profile` with a callback that changes no flag.  The certificates of
the chain that was built are returned as well. -/
def verifyWithProfile (profile : CrtProfile) (trustCa chain : List Crt) :
    Except VerifyError (List Crt) := do
  let items ← lib.verifyChain profile trustCa maxIntermediateCa 0 chain
  let flags := (chain.head?.map (lib.eeFlags profile)).getD 0
    ||| items.foldr (fun item merged => item.flags ||| merged) 0
  if flags = 0 then pure (items.map ChainItem.crt) else throw (.verifyFailed flags)

def InTime (crt : Crt) : Prop := lib.timeIsPast crt = false ∧ lib.timeIsFuture crt = false

/-- The parent may issue the child and has signed it. -/
def Issued (child parent : Crt) : Prop :=
  (∃ top, lib.checkParent child parent top = true) ∧ lib.checkSignature child parent = true

/-- `CertPath lib trustCa chain path`: the path starts with the first certificate of the chain, each of
its certificates is signed with the key of the following one, the following one comes later in the
chain or is trusted, and the last one is trusted. -/
inductive CertPath (trustCa : List Crt) : List Crt → List Crt → Prop where
  | trusted {child ca : Crt} {next : List Crt} (in_time : lib.InTime child) (is_ca : ca ∈ trustCa)
      (same_raw : lib.raw child = lib.raw ca) : CertPath trustCa (child :: next) [child]
  | root {child ca : Crt} {next : List Crt} (in_time : lib.InTime child) (is_ca : ca ∈ trustCa)
      (issued : lib.Issued child ca) (ca_in_time : lib.InTime ca) :
      CertPath trustCa (child :: next) [child, ca]
  | intermediate {child parent : Crt} {next rest path : List Crt} (in_time : lib.InTime child)
      (later : parent :: rest <:+ next) (issued : lib.Issued child parent)
      (upward : CertPath trustCa (parent :: rest) path) :
      CertPath trustCa (child :: next) (child :: path)

variable {lib}

/-- The first certificate is always on the path. -/
theorem CertPath.first_mem {trustCa chain path : List Crt} (is_path : lib.CertPath trustCa chain path) :
    ∃ first rest, chain = first :: rest ∧ first ∈ path := by
  cases is_path <;> exact ⟨_, _, rfl, List.mem_cons_self⟩

/-- What a search promises of the parent it returns. -/
def IsCandidate (lib : X509Lib Crt) (child : Crt) (top : Bool) (candidates : List Crt)
    (found : FoundParent Crt) : Prop :=
  found.parent :: found.next <:+ candidates ∧ lib.checkParent child found.parent top = true ∧
    found.isTrusted = top ∧ found.signatureIsGood = lib.checkSignature child found.parent

theorem findParentIn_spec {child : Crt} {top : Bool} {pathCnt selfCnt : Nat} {all : List Crt} :
    ∀ {candidates : List Crt} {fallback : Option (FoundParent Crt)},
      candidates <:+ all →
      (∀ found, fallback = some found → lib.IsCandidate child top all found) →
      ∀ {found}, lib.findParentIn child top pathCnt selfCnt candidates fallback = some found →
        lib.IsCandidate child top all found
  | [], fallback, _, fallback_ok, found, is_found => fallback_ok found is_found
  | parent :: next, fallback, within, fallback_ok, found, is_found => by
    have next_within : next <:+ all := (List.suffix_cons parent next).trans within
    unfold findParentIn at is_found
    split at is_found
    · exact findParentIn_spec next_within fallback_ok is_found
    · rename_i may_issue
      have here : lib.IsCandidate child top all
          ⟨parent, next, top, lib.checkSignature child parent⟩ :=
        ⟨within, by simpa using may_issue, rfl, rfl⟩
      split at is_found
      · exact findParentIn_spec next_within fallback_ok is_found
      · dsimp only at is_found
        split at is_found
        · exact findParentIn_spec next_within fallback_ok is_found
        · split at is_found
          · -- out of its validity period: only the fallback can change
            refine findParentIn_spec next_within ?_ is_found
            intro other is_other
            cases fallback with
            | none =>
              cases is_other
              exact here
            | some earlier =>
              cases is_other
              exact fallback_ok _ rfl
          · cases is_found
            exact here

theorem findParent_spec {trustCa : List Crt} {child : Crt} {next : List Crt} {pathCnt selfCnt : Nat}
    {found : FoundParent Crt} (is_found : lib.findParent trustCa child next pathCnt selfCnt = some found) :
    lib.IsCandidate child true trustCa found ∨ lib.IsCandidate child false next found := by
  unfold findParent at is_found
  cases trusted : lib.findParentIn child true pathCnt selfCnt trustCa none with
  | some first =>
    rw [trusted] at is_found
    cases is_found
    exact .inl (findParentIn_spec (List.suffix_refl _) (by simp) trusted)
  | none =>
    rw [trusted] at is_found
    exact .inr (findParentIn_spec (List.suffix_refl _) (by simp) is_found)

theorem or_eq_zero_iff {left right : Flags} : left ||| right = 0 ↔ left = 0 ∧ right = 0 :=
  BitVec.or_eq_zero_iff

theorem inTime_of_timeFlags {crt : Crt} (no_flag : lib.timeFlags crt = 0) : lib.InTime crt := by
  obtain ⟨past, future⟩ := or_eq_zero_iff.mp no_flag
  constructor
  · cases is_past : lib.timeIsPast crt with
    | false => rfl
    | true => simp [is_past, badCertExpired] at past
  · cases is_future : lib.timeIsFuture crt with
    | false => rfl
    | true => simp [is_future, badCertFuture] at future

def NoFlags (items : List (ChainItem Crt)) : Prop := ∀ item ∈ items, item.flags = 0

theorem merged_eq_zero_iff (items : List (ChainItem Crt)) :
    items.foldr (fun item merged => item.flags ||| merged) 0 = 0 ↔ NoFlags items := by
  induction items with
  | nil => simp [NoFlags]
  | cons item items ih =>
    rw [List.foldr_cons, or_eq_zero_iff, ih]
    simp [NoFlags]

/-- The flags of a certificate whose parent was found. -/
def linkFlags (lib : X509Lib Crt) (profile : CrtProfile) (child : Crt) (found : FoundParent Crt) :
    Flags :=
  lib.timeFlags child ||| lib.algFlags profile child
    ||| (if found.signatureIsGood then 0 else badCertNotTrusted)
    ||| (if profileCheckKey profile (lib.pkKind found.parent) then 0 else badCertBadKey)

theorem linkFlags_eq_zero {profile : CrtProfile} {child : Crt} {found : FoundParent Crt}
    (no_flag : lib.linkFlags profile child found = 0) :
    lib.InTime child ∧ found.signatureIsGood = true := by
  simp only [linkFlags, or_eq_zero_iff] at no_flag
  obtain ⟨⟨⟨no_time_flag, -⟩, good⟩, -⟩ := no_flag
  refine ⟨inTime_of_timeFlags no_time_flag, ?_⟩
  cases is_good : found.signatureIsGood with
  | true => rfl
  | false => simp [is_good, badCertNotTrusted] at good

/-- How a certificate of the chain is handled. -/
inductive Handled (lib : X509Lib Crt) (profile : CrtProfile) (trustCa : List Crt) (slots : Nat)
    (child : Crt) (next : List Crt) : List (ChainItem Crt) → Prop where
  | locallyTrusted (trusted : lib.checkEeLocallyTrusted child trustCa = true) :
      Handled lib profile trustCa slots child next
        [⟨child, lib.timeFlags child ||| lib.algFlags profile child⟩]
  | noParent (flags : Flags) :
      Handled lib profile trustCa slots child next [⟨child, flags ||| badCertNotTrusted⟩]
  | trustedParent (found : FoundParent Crt) (candidate : lib.IsCandidate child true trustCa found) :
      Handled lib profile trustCa slots child next
        [⟨child, lib.linkFlags profile child found⟩, ⟨found.parent, lib.timeFlags found.parent⟩]
  | untrustedParent (found : FoundParent Crt) (candidate : lib.IsCandidate child false next found)
      {fewer selfCnt : Nat} {items : List (ChainItem Crt)} (fewer_slots : fewer < slots)
      (upward : lib.verifyChain profile trustCa fewer selfCnt (found.parent :: found.next) = .ok items) :
      Handled lib profile trustCa slots child next (⟨child, lib.linkFlags profile child found⟩ :: items)

theorem verifyChain_cons {profile : CrtProfile} {trustCa : List Crt} {slots selfCnt : Nat}
    {child : Crt} {next : List Crt} {items : List (ChainItem Crt)}
    (verified : lib.verifyChain profile trustCa slots selfCnt (child :: next) = .ok items) :
    lib.Handled profile trustCa slots child next items := by
  unfold verifyChain at verified
  dsimp only at verified
  split at verified
  · rename_i locally
    cases verified
    exact .locallyTrusted locally.2
  · split at verified
    · cases verified
      exact .noParent _
    · rename_i found is_found
      have candidate := findParent_spec is_found
      split at verified
      · rename_i is_trusted
        cases verified
        refine .trustedParent found (candidate.resolve_right ?_)
        intro untrusted
        rw [untrusted.2.2.1] at is_trusted
        cases is_trusted
      · rename_i not_trusted
        have untrusted : lib.IsCandidate child false next found := by
          refine candidate.resolve_left ?_
          intro trusted
          exact not_trusted trusted.2.2.1
        cases slots with
        | zero => cases verified
        | succ slots =>
          dsimp only at verified
          cases upward : lib.verifyChain profile trustCa slots
              (if maxIntermediateCa - (slots + 1) ≠ 0 ∧ lib.selfIssued child then selfCnt + 1
                else selfCnt) (found.parent :: found.next) with
          | error error =>
            rw [upward] at verified
            cases verified
          | ok rest =>
            rw [upward] at verified
            cases verified
            exact .untrustedParent found untrusted (Nat.lt_succ_self slots) upward

/-- A chain without flags is a certification path.  The induction is on the free slots, one for each
certificate that is neither the first nor trusted. -/
theorem verifyChain_path {profile : CrtProfile} {trustCa : List Crt} {slots : Nat} :
    ∀ {selfCnt : Nat} {chain : List Crt} {items : List (ChainItem Crt)},
      lib.verifyChain profile trustCa slots selfCnt chain = .ok items → NoFlags items →
      lib.CertPath trustCa chain (items.map ChainItem.crt) := by
  induction slots using Nat.strongRecOn with
  | ind slots ih =>
    intro selfCnt chain items verified no_flags
    cases chain with
    | nil => simp [verifyChain] at verified
    | cons child next =>
      cases verifyChain_cons verified with
      | locallyTrusted trusted =>
        have no_flag := or_eq_zero_iff.mp (no_flags _ List.mem_cons_self)
        simp only [checkEeLocallyTrusted, Bool.and_eq_true, List.any_eq_true,
          decide_eq_true_eq] at trusted
        obtain ⟨-, ca, is_ca, same_raw⟩ := trusted
        exact .trusted (inTime_of_timeFlags no_flag.1) is_ca same_raw
      | noParent flags =>
        have no_flag := or_eq_zero_iff.mp (no_flags _ List.mem_cons_self)
        simp [badCertNotTrusted] at no_flag
      | trustedParent found candidate =>
        have ⟨in_time, good⟩ := linkFlags_eq_zero (no_flags _ List.mem_cons_self)
        have ca_in_time := inTime_of_timeFlags (no_flags _ (List.mem_cons_of_mem _ List.mem_cons_self))
        obtain ⟨within, may_issue, -, signature⟩ := candidate
        exact .root in_time (within.subset List.mem_cons_self)
          ⟨⟨true, may_issue⟩, signature ▸ good⟩ ca_in_time
      | untrustedParent found candidate fewer_slots upward =>
        have ⟨in_time, good⟩ := linkFlags_eq_zero (no_flags _ List.mem_cons_self)
        have rest_path := ih _ fewer_slots upward fun item is_item =>
          no_flags item (List.mem_cons_of_mem _ is_item)
        obtain ⟨within, may_issue, -, signature⟩ := candidate
        exact .intermediate in_time within ⟨⟨false, may_issue⟩, signature ▸ good⟩ rest_path

/-- What a successful verification proves: there is a path from the first certificate of the chain to a
trusted one.  It says nothing about the other certificates of the chain. -/
theorem verifyWithProfile_path {profile : CrtProfile} {trustCa chain path : List Crt}
    (verified : lib.verifyWithProfile profile trustCa chain = .ok path) :
    lib.CertPath trustCa chain path := by
  unfold verifyWithProfile at verified
  cases built : lib.verifyChain profile trustCa maxIntermediateCa 0 chain with
  | error error =>
    rw [built] at verified
    cases verified
  | ok items =>
    simp only [built, bind, Except.bind] at verified
    split at verified
    · rename_i no_flags
      cases verified
      exact verifyChain_path built ((merged_eq_zero_iff items).mp (or_eq_zero_iff.mp no_flags).2)
    · cases verified

end X509Lib

end Decentagram.Mbedtls
