import Decentagram.RaOnchain.AttestedServers
import Decentagram.RaOnchain.DecentCertChain
import Decentagram.RevokerOnChain.VoteCounting

/-! # The revokers that ask for evidence

Conflicting messages, or a signature of a fixed text with a key that should be secret, revoke a key or the
enclave that its certificate is for.  The four contracts differ in how a call names what is revoked and in
what it has to prove.  A notification runs code that may call the contract again before it is published.
-/

namespace Decentagram.Revoker

open Decentagram.Lib Decentagram.RaOnchain Asn1Decode BytesUtils

/-! ## The contracts -/

/-- What was done: a call of the revoker, or one of the registries. -/
inductive Done (Call : Type) where
  | submitted (call : Call)
  | registered (tx : Tx)

/-- What was done and not undone, oldest first, each with the registries it found. -/
abbrev History (Call : Type) := List (Registries × Done Call)

/-- A revoker with the registries it asks, and the notifications published for it, in order.  The history
    is that of the chain, which no contract reads. -/
structure EvidenceWorld (n : Nat) (Call : Type) where
  registries : Registries
  revoked : Id n → Bool
  published : List Bytes
  history : History Call

/-- What the revokers differ in: a call names an identifier and the key that evidence is about, and
    registers the server of `registration` at most; `proves` are the checks that come after. -/
structure EvidenceRules (machine : Machine) (n : Nat) (Call : Type) where
  names : Call → Contract (Id n × Address)
  proves : Call → Address → Except Revert Unit
  registration : Call → Option Tx
  names_sat : ∀ call before, Exec.Sat (names call) before
    (fun _ after => after = before ∨ ∃ tx, registration call = some tx ∧ Transacts machine before tx after)
    fun _ _ => True

namespace RevokerByEvidence

variable {machine : Machine} {n : Nat} {Call : Type}

abbrev Code (n : Nat) (Call : Type) := Exec Halt (EvidenceWorld n Call)

def onRegistries {α : Type} (code : Contract α) : Code n Call α :=
  Exec.zoom EvidenceWorld.registries (fun registries world => { world with registries }) code

/-- The call of the event manager.  `others` is what the code outside the contract makes of the world
    until the notification is published, or `none` if it reverts. -/
def notifySubscribers (others : EvidenceWorld n Call → Option (EvidenceWorld n Call)) (data : Bytes) :
    Code n Call Unit := fun world =>
  match others world with
  | some inside => .ok () { inside with published := inside.published ++ [data] }
  | none => .throws (.reverted (.reason "")) world

/-- What is revoked already is not looked at again. -/
def submit (rules : EvidenceRules machine n Call)
    (others : EvidenceWorld n Call → Option (EvidenceWorld n Call)) (call : Call) : Code n Call Unit := do
  let (id, signer) ← onRegistries (rules.names call)
  if (← Exec.get).revoked id = false then
    attempt (rules.proves call signer)
    Exec.modify fun world => { world with revoked := Function.update world.revoked id true }
    notifySubscribers others (encodePacked id)

def isRevoked (world : EvidenceWorld n Call) (id : Id n) : Bool := world.revoked id

/-! ### What has to be proved -/

/-- Two messages under one event. -/
structure Conflict where
  eventId : Bytes32
  content1 : Bytes32
  message1SigR : Bytes32
  message1SigS : Bytes32
  content2 : Bytes32
  message2SigR : Bytes32
  message2SigS : Bytes32

def bothSigned (machine : Machine) (conflict : Conflict) (signer : Address) : Except Revert Unit := do
  let message1 := wordBytes conflict.eventId ++ wordBytes conflict.content1
  let message2 := wordBytes conflict.eventId ++ wordBytes conflict.content2
  require (LibSecp256k1Sha256.verifySignMsg machine signer message1 conflict.message1SigR
    conflict.message1SigS = true) "message1 signature invalid"
  require (LibSecp256k1Sha256.verifySignMsg machine signer message2 conflict.message2SigR
    conflict.message2SigS = true) "message2 signature invalid"

structure RevokeSign where
  sigR : Bytes32
  sigS : Bytes32

/-- The text itself stands for its hash. -/
def revokingHash : Bytes32 :=
  BitVec.ofNat 256 (BigEndian.value (ascii "REVOKE THIS PRIVATE KEY         "))

def revokeSigned (machine : Machine) (sign : RevokeSign) (signer : Address) : Except Revert Unit :=
  require (LibSecp256k1Sha256.verifySignHash machine signer revokingHash sign.sigR sign.sigS = true)
    "revoke signature invalid"

/-! ### How a call names what is revoked -/

/-- The certificates of an enclave, in the block of the call. -/
structure Chain where
  block : Block
  svrCertDer : Bytes
  appCertDer : Bytes

/-- The enclave of the certificate, and the key. -/
def certified (machine : Machine) (chain : Chain) : Contract (Id 32 × Address) := do
  let appCert ← DecentCertChain.verifyCertChain machine chain.block chain.svrCertDer chain.appCertDer
  return (appCert.appEnclaveHash, appCert.appKeyAddr)

/-- The key that is given. -/
def given (signerKeyAddr : Address) : Contract (Id 20 × Address) :=
  return (signerKeyAddr, signerKeyAddr)

def requireDifferent (conflict : Conflict) : Contract Unit :=
  check (conflict.content1 ≠ conflict.content2) "contents must be different"

/-- The registration of the server, as a call of its registry would do it. -/
def Chain.registration (chain : Chain) : Tx :=
  { block := chain.block, call := .verifyServerCert chain.svrCertDer }

theorem certified_sat (chain : Chain) (before : Registries) :
    Exec.Sat (certified machine chain) before
      (fun _ after => after = before ∨ ∃ tx, some chain.registration = some tx ∧
        Transacts machine before tx after) fun _ _ => True := by
  rw [certified, Exec.sat_bind]
  refine (verifyCertChain_sat chain.svrCertDer chain.appCertDer before).mono ?_ fun _ _ _ => trivial
  exact fun app after chainShows => chainShows.registered.imp_right fun transacts => ⟨_, rfl, transacts⟩

end RevokerByEvidence

open RevokerByEvidence

namespace RevokerByConflictMsg

def rules (machine : Machine) : EvidenceRules machine 32 (Conflict × Chain) where
  names := fun (conflict, chain) => do
    requireDifferent conflict
    certified machine chain
  proves := fun (conflict, _) signer => bothSigned machine conflict signer
  registration := fun (_, chain) => some chain.registration
  names_sat := by
    rintro ⟨conflict, chain⟩ before
    simp only [requireDifferent, Exec.sat_bind, sat_check, implies_true, true_and]
    exact fun _ => certified_sat chain before

def reportConflicts (machine : Machine)
    (others : EvidenceWorld 32 (Conflict × Chain) → Option (EvidenceWorld 32 (Conflict × Chain)))
    (conflict : Conflict) (chain : Chain) : Code 32 (Conflict × Chain) Unit :=
  submit (rules machine) others (conflict, chain)

end RevokerByConflictMsg

namespace RevokerByLeakedKey

def rules (machine : Machine) : EvidenceRules machine 32 (RevokeSign × Chain) where
  names := fun (_, chain) => certified machine chain
  proves := fun (sign, _) signer => revokeSigned machine sign signer
  registration := fun (_, chain) => some chain.registration
  names_sat := fun (_, chain) before => certified_sat chain before

def submitRevokeSign (machine : Machine)
    (others : EvidenceWorld 32 (RevokeSign × Chain) → Option (EvidenceWorld 32 (RevokeSign × Chain)))
    (sign : RevokeSign) (chain : Chain) : Code 32 (RevokeSign × Chain) Unit :=
  submit (rules machine) others (sign, chain)

end RevokerByLeakedKey

namespace KeyRevokerByConflictMsg

def rules (machine : Machine) : EvidenceRules machine 20 (Conflict × Address) where
  names := fun (conflict, signerKeyAddr) => do
    requireDifferent conflict
    given signerKeyAddr
  proves := fun (conflict, _) signer => bothSigned machine conflict signer
  registration := fun _ => none
  names_sat := by
    rintro ⟨conflict, signerKeyAddr⟩ before
    simp [requireDifferent, given]

def reportConflicts (machine : Machine)
    (others : EvidenceWorld 20 (Conflict × Address) → Option (EvidenceWorld 20 (Conflict × Address)))
    (conflict : Conflict) (signerKeyAddr : Address) : Code 20 (Conflict × Address) Unit :=
  submit (rules machine) others (conflict, signerKeyAddr)

end KeyRevokerByConflictMsg

namespace KeyRevokerByLeakedKey

def rules (machine : Machine) : EvidenceRules machine 20 (RevokeSign × Address) where
  names := fun (_, signerKeyAddr) => given signerKeyAddr
  proves := fun (sign, _) signer => revokeSigned machine sign signer
  registration := fun _ => none
  names_sat := fun _ _ => .inl rfl

def submitRevokeSign (machine : Machine)
    (others : EvidenceWorld 20 (RevokeSign × Address) → Option (EvidenceWorld 20 (RevokeSign × Address)))
    (sign : RevokeSign) (signerKeyAddr : Address) : Code 20 (RevokeSign × Address) Unit :=
  submit (rules machine) others (sign, signerKeyAddr)

end KeyRevokerByLeakedKey

namespace RevokerByEvidence

variable {machine : Machine} {n : Nat} {Call : Type} {rules : EvidenceRules machine n Call}

/-! ## Transactions -/

def recording (done : Done Call) (world : EvidenceWorld n Call) : EvidenceWorld n Call :=
  { world with history := world.history ++ [(world.registries, done)] }

/-- A call by a transaction or by another contract.  A call that reverts is undone. -/
def transact (rules : EvidenceRules machine n Call)
    (others : EvidenceWorld n Call → Option (EvidenceWorld n Call)) (call : Call)
    (world : EvidenceWorld n Call) : EvidenceWorld n Call :=
  match submit rules others call (recording (.submitted call) world) with
  | .ok _ after => after
  | _ => world

/-- What all code can make of the world: calls of the revoker, in which other code does the same, and
    calls of the registries. -/
inductive Reaches (rules : EvidenceRules machine n Call) :
    EvidenceWorld n Call → EvidenceWorld n Call → Prop where
  | refl {start : EvidenceWorld n Call} : Reaches rules start start
  | submits {start before : EvidenceWorld n Call}
      {others : EvidenceWorld n Call → Option (EvidenceWorld n Call)} {call : Call} :
      Reaches rules start before →
      (∀ world inside, others world = some inside → Reaches rules world inside) →
      Reaches rules start (transact rules others call before)
  | registers {start before : EvidenceWorld n Call} {tx : Tx} {after : Registries} :
      Reaches rules start before → Transacts machine before.registries tx after →
      Reaches rules start { recording (.registered tx) before with registries := after }

/-! ## What happened -/

/-- What a history did to the registries, at most. -/
def registrations (rules : EvidenceRules machine n Call) (history : History Call) : Transactions :=
  history.filterMap fun (found, done) =>
    match done with
    | .submitted call => (rules.registration call).map (found, ·)
    | .registered tx => some (found, tx)

@[simp] theorem registrations_append (first second : History Call) :
    registrations rules (first ++ second) = registrations rules first ++ registrations rules second :=
  List.filterMap_append

/-- The registries were changed by what was done, and by nothing else. -/
def Registers (rules : EvidenceRules machine n Call) (start : Registries) (history : History Call)
    (final : Registries) : Prop :=
  ∃ taken, taken.Sublist (registrations rules history) ∧ Run (Transacts machine) start taken final

theorem Registers.refl (registries : Registries) : Registers rules registries [] registries :=
  ⟨[], List.nil_sublist _, .nil⟩

theorem Registers.trans {start middle final : Registries} {first second : History Call}
    (earlier : Registers rules start first middle) (later : Registers rules middle second final) :
    Registers rules start (first ++ second) final := by
  obtain ⟨taken, sublist, run⟩ := earlier
  obtain ⟨taken', sublist', run'⟩ := later
  exact ⟨taken ++ taken', by rw [registrations_append]; exact sublist.append sublist', run.append run'⟩

/-- One of the calls named the identifier, on the registries as they were then, and proved what it has
    to. -/
structure Evidence (rules : EvidenceRules machine n Call) (start : Registries) (history : History Call)
    (id : Id n) : Prop where
  shown : ∃ earlier found call later signer after, history = earlier ++ (found, .submitted call) :: later ∧
    Registers rules start earlier found ∧ rules.names call found = .ok (id, signer) after ∧
    rules.proves call signer = .ok ()

theorem Evidence.earlier {start middle : Registries} {history later : History Call} {id : Id n}
    (registers : Registers rules start history middle) (evidence : Evidence rules middle later id) :
    Evidence rules start (history ++ later) id := by
  obtain ⟨before, found, call, behind, signer, after, rfl, registers', names, proves⟩ := evidence.shown
  exact { shown := ⟨history ++ before, found, call, behind, signer, after, by simp,
    registers.trans registers', names, proves⟩ }

theorem Evidence.append {start : Registries} {history : History Call} {id : Id n}
    (evidence : Evidence rules start history id) (later : History Call) :
    Evidence rules start (history ++ later) id := by
  obtain ⟨before, found, call, behind, signer, after, rfl, registers, names, proves⟩ := evidence.shown
  exact { shown := ⟨before, found, call, behind ++ later, signer, after, by simp, registers, names, proves⟩ }

/-- Between two states `news` were revoked, one after the other, and each of them published once.  What
    the calls in between named is revoked. -/
structure Revokes (rules : EvidenceRules machine n Call) (start final : EvidenceWorld n Call)
    (history : History Call) (news : List (Id n)) : Prop where
  appended : final.history = start.history ++ history
  registered : Registers rules start.registries history final.registries
  published : final.published = start.published ++ news.map encodePacked
  once : news.Nodup
  revoked : ∀ id, final.revoked id = true ↔ start.revoked id = true ∨ id ∈ news
  new : ∀ id ∈ news, start.revoked id = false
  evidence : ∀ id ∈ news, Evidence rules start.registries history id
  named : ∀ found call, (found, .submitted call) ∈ history → ∃ id signer after,
    rules.names call found = .ok (id, signer) after ∧ final.revoked id = true

variable {start before after final : EvidenceWorld n Call} {history later : History Call}
  {news news' : List (Id n)} {id : Id n}

theorem Revokes.refl : Revokes rules start start [] [] where
  appended := by simp
  registered := .refl _
  published := by simp
  once := List.nodup_nil
  revoked := by simp
  new := by simp
  evidence := by simp
  named := by simp

theorem Revokes.trans (first : Revokes rules start before history news)
    (second : Revokes rules before after later news') :
    Revokes rules start after (history ++ later) (news ++ news') where
  appended := by rw [second.appended, first.appended, List.append_assoc]
  registered := first.registered.trans second.registered
  published := by rw [second.published, first.published, List.map_append, List.append_assoc]
  once := by
    refine List.nodup_append'.mpr ⟨first.once, second.once, fun id isNew isNew' => ?_⟩
    -- what was revoked before cannot be new later
    have revoked := (first.revoked id).mpr (.inr isNew)
    rw [second.new id isNew'] at revoked
    cases revoked
  revoked := fun id => by rw [second.revoked, first.revoked, List.mem_append, or_assoc]
  new := by
    intro id member
    cases List.mem_append.mp member with
    | inl isNew => exact first.new id isNew
    | inr isNew =>
      by_contra wasRevoked
      have revoked := (first.revoked id).mpr (.inl (by simpa using wasRevoked))
      rw [second.new id isNew] at revoked
      cases revoked
  evidence := by
    intro id member
    cases List.mem_append.mp member with
    | inl isNew => exact (first.evidence id isNew).append later
    | inr isNew => exact (second.evidence id isNew).earlier first.registered
  named := by
    intro found call member
    cases List.mem_append.mp member with
    | inl isEarlier =>
      obtain ⟨id, signer, registries, names, revoked⟩ := first.named found call isEarlier
      exact ⟨id, signer, registries, names, (second.revoked id).mpr (.inl revoked)⟩
    | inr isLater => exact second.named found call isLater

/-- The registries after a call named an identifier. -/
theorem registers_of_names {call : Call} {registries registries' : Registries} {named : Id n × Address}
    (names : rules.names call registries = .ok named registries') :
    Registers rules registries [(registries, .submitted call)] registries' := by
  rcases (rules.names_sat call registries).of_ok names with same | ⟨tx, isTx, transacts⟩
  · exact ⟨[], List.nil_sublist _, same ▸ .nil⟩
  · exact ⟨[(registries, tx)], by simp [registrations, isTx], Run.nil.snoc transacts⟩

def revoking (id : Id n) (world : EvidenceWorld n Call) : EvidenceWorld n Call :=
  { world with revoked := Function.update world.revoked id true }

theorem sat_notifySubscribers {others : EvidenceWorld n Call → Option (EvidenceWorld n Call)} {data : Bytes}
    (returns : Unit → EvidenceWorld n Call → Prop) :
    Exec.Sat (notifySubscribers others data) before returns (fun _ _ => True) ↔
      ∀ inside, others before = some inside →
        returns () { inside with published := inside.published ++ [data] } := by
  unfold Exec.Sat notifySubscribers
  cases others before <;> simp

/-- What is after a call that names `id` and returns. -/
inductive Submits (rules : EvidenceRules machine n Call)
    (others : EvidenceWorld n Call → Option (EvidenceWorld n Call)) (call : Call)
    (before : EvidenceWorld n Call) : EvidenceWorld n Call → Prop where
  | found {id : Id n} {signer : Address} {registries : Registries}
      (names : rules.names call before.registries = .ok (id, signer) registries)
      (revoked : before.revoked id = true) : Submits rules others call before { before with registries }
  | revokes {id : Id n} {signer : Address} {registries : Registries} {inside : EvidenceWorld n Call}
      (names : rules.names call before.registries = .ok (id, signer) registries)
      (notRevoked : before.revoked id = false) (proves : rules.proves call signer = .ok ())
      (reached : others (revoking id { before with registries }) = some inside) :
      Submits rules others call before { inside with published := inside.published ++ [encodePacked id] }

theorem submit_sat (others : EvidenceWorld n Call → Option (EvidenceWorld n Call)) (call : Call) :
    Exec.Sat (submit rules others call) before (fun _ after => Submits rules others call before after)
      fun _ _ => True := by
  simp only [submit, onRegistries, Exec.sat_bind, Exec.sat_zoom]
  refine (Exec.sat_self _ _).mono (fun named registries names => ?_) fun _ _ _ => trivial
  obtain ⟨id, signer⟩ := named
  rw [Exec.sat_get, Exec.sat_ite]
  constructor
  · intro notRevoked
    simp only [Exec.sat_bind, sat_attempt, Exec.sat_modify, sat_notifySubscribers, implies_true, and_true]
    intro _ proves inside reached
    exact .revokes names notRevoked proves reached
  · intro revoked
    simp only [Bool.not_eq_false] at revoked
    exact .found names revoked

/-- A call that names what is revoked already changes the registries at most. -/
theorem revokes_found {call : Call} {signer : Address} {registries : Registries}
    (names : rules.names call before.registries = .ok (id, signer) registries)
    (revoked : before.revoked id = true) :
    Revokes rules before { recording (.submitted call) before with registries }
      [(before.registries, .submitted call)] [] where
  appended := rfl
  registered := registers_of_names names
  published := by simp [recording]
  once := List.nodup_nil
  revoked := by simp [recording]
  new := by simp
  evidence := by simp
  named := by
    intro found call' member
    cases List.mem_singleton.mp member
    exact ⟨id, signer, registries, names, revoked⟩

/-- A call that revokes: what is done in its notification comes between the two. -/
theorem Revokes.outer {call : Call} {signer : Address} {registries : Registries}
    (names : rules.names call before.registries = .ok (id, signer) registries)
    (notRevoked : before.revoked id = false) (proves : rules.proves call signer = .ok ())
    (inner : Revokes rules (revoking id { recording (.submitted call) before with registries }) after
      later news) :
    Revokes rules before { after with published := after.published ++ [encodePacked id] }
      ((before.registries, .submitted call) :: later) (news ++ [id]) := by
  have named := registers_of_names names
  -- what is revoked inside was not revoked in the end of the outer call
  have unlike : ∀ other ∈ news, other ≠ id ∧ before.revoked other = false := by
    intro other isNew
    have notYet := inner.new other isNew
    simp only [revoking, recording, Function.update_apply] at notYet
    split at notYet
    next => cases notYet
    next differs => exact ⟨differs, notYet⟩
  have isRevoked : after.revoked id = true := (inner.revoked id).mpr (.inl (by simp [revoking]))
  exact {
    appended := by simp [inner.appended, revoking, recording]
    registered := named.trans inner.registered
    published := by simp [inner.published, revoking, recording]
    once := List.nodup_append'.mpr ⟨inner.once, by simp, by simpa using fun isNew => (unlike id isNew).1 rfl⟩
    revoked := by
      intro other
      rw [inner.revoked, List.mem_append, List.mem_singleton]
      simp only [revoking, recording, Function.update_apply]
      by_cases same : other = id <;> simp [same]
    new := by
      intro other member
      cases List.mem_append.mp member with
      | inl isNew => exact (unlike other isNew).2
      | inr same => rw [List.mem_singleton.mp same]; exact notRevoked
    evidence := by
      intro other member
      cases List.mem_append.mp member with
      | inl isNew => exact (inner.evidence other isNew).earlier named
      | inr same =>
        rw [List.mem_singleton.mp same]
        exact { shown := ⟨[], _, call, later, signer, registries, rfl, .refl _, names, proves⟩ }
    named := by
      intro found call' member
      cases List.mem_cons.mp member with
      | inl same =>
        cases same
        exact ⟨id, signer, registries, names, isRevoked⟩
      | inr isInner => exact inner.named found call' isInner }

/-- What a transaction preserves, where the other code revokes as well. -/
theorem revokes_transact {others : EvidenceWorld n Call → Option (EvidenceWorld n Call)} (call : Call)
    (inner : ∀ world inside, others world = some inside →
      ∃ history news, Revokes rules world inside history news) :
    ∃ history news, Revokes rules before (transact rules others call before) history news := by
  unfold transact
  split
  next after returned =>
    cases (submit_sat others call).of_ok returned with
    | found names revoked => exact ⟨_, _, revokes_found names revoked⟩
    | revokes names notRevoked proves reached =>
      obtain ⟨later, news, inner⟩ := inner _ _ reached
      exact ⟨_, _, inner.outer names notRevoked proves⟩
  next => exact ⟨[], [], .refl⟩

/-- A call of the registries revokes nothing. -/
theorem revokes_registers {tx : Tx} {registries : Registries}
    (transacts : Transacts machine before.registries tx registries) :
    Revokes rules before { recording (.registered tx) before with registries }
      [(before.registries, .registered tx)] [] where
  appended := rfl
  registered := ⟨[(before.registries, tx)], by simp [registrations], Run.nil.snoc transacts⟩
  published := by simp [recording]
  once := List.nodup_nil
  revoked := by simp [recording]
  new := by simp
  evidence := by simp
  named := by simp

/-- Whatever code runs, in whatever order and nesting, revokes and publishes alike. -/
theorem revokes_of_reaches (reaches : Reaches rules start final) :
    ∃ history news, Revokes rules start final history news := by
  induction reaches with
  | refl => exact ⟨[], [], .refl⟩
  | submits _ _ inductionHypothesis inner =>
    obtain ⟨history, news, earlier⟩ := inductionHypothesis
    obtain ⟨history', news', later⟩ := revokes_transact _ inner
    exact ⟨_, _, earlier.trans later⟩
  | registers _ transacts inductionHypothesis =>
    obtain ⟨history, news, earlier⟩ := inductionHypothesis
    exact ⟨_, _, earlier.trans (revokes_registers transacts)⟩

section Evaluation

variable {others : EvidenceWorld n Call → Option (EvidenceWorld n Call)} {call : Call} {signer : Address}
  {registries : Registries} {inside : EvidenceWorld n Call}

theorem notifySubscribers_eq_ok {data : Bytes} (reached : others before = some inside) :
    notifySubscribers others data before =
      .ok () { inside with published := inside.published ++ [data] } := by
  rw [notifySubscribers, reached]

variable (names : rules.names call before.registries = .ok (id, signer) registries)
include names

theorem onRegistries_names : onRegistries (rules.names call) (recording (.submitted call) before) =
    .ok (id, signer) { recording (.submitted call) before with registries } := by
  have isSame : (recording (.submitted call) before).registries = before.registries := rfl
  rw [onRegistries, Exec.zoom_apply, isSame, names]
  rfl

/-- A call with evidence that is new. -/
theorem transact_revokes (notRevoked : before.revoked id = false) (proves : rules.proves call signer = .ok ())
    (reached : others (revoking id { recording (.submitted call) before with registries }) = some inside) :
    transact rules others call before =
      { inside with published := inside.published ++ [encodePacked id] } := by
  have submitted : submit rules others call (recording (.submitted call) before) =
      .ok () { inside with published := inside.published ++ [encodePacked id] } := by
    refine Exec.bind_eq_ok.mpr ⟨_, _, onRegistries_names names, Exec.bind_eq_ok.mpr ⟨_, _, rfl, ?_⟩⟩
    have isNew : (recording (.submitted call) before).revoked id = false := notRevoked
    rw [if_pos isNew]
    refine Exec.bind_eq_ok.mpr ⟨(), _, attempt_eq_ok.mpr ⟨proves, rfl⟩, ?_⟩
    exact Exec.bind_eq_ok.mpr ⟨(), _, rfl, notifySubscribers_eq_ok reached⟩
  rw [transact, submitted]

/-- A call for what is revoked already. -/
theorem transact_found (revoked : before.revoked id = true) :
    transact rules others call before = { recording (.submitted call) before with registries } := by
  have submitted : submit rules others call (recording (.submitted call) before) =
      .ok () { recording (.submitted call) before with registries } := by
    refine Exec.bind_eq_ok.mpr ⟨_, _, onRegistries_names names, Exec.bind_eq_ok.mpr ⟨_, _, rfl, ?_⟩⟩
    have isOld : (recording (.submitted call) before).revoked id = true := revoked
    rw [if_neg (by simp [isOld])]
    rfl
  rw [transact, submitted]

end Evaluation

/-! ## Every run -/

/-- A revoker as it is deployed, over registries that may be in use. -/
def deployedOver (registries : Registries) : EvidenceWorld n Call where
  registries
  revoked := fun _ => false
  published := []
  history := []

variable {registries : Registries}

/-- What is revoked is what a call named and proved. -/
theorem isRevoked_iff_evidence (reaches : Reaches rules (deployedOver registries) final) :
    isRevoked final id = true ↔ Evidence rules registries final.history id := by
  obtain ⟨history, news, revokes⟩ := revokes_of_reaches reaches
  have isHistory : final.history = history := revokes.appended
  rw [isHistory]
  constructor
  · intro revoked
    have isNew := (revokes.revoked id).mp revoked
    simp only [deployedOver, Bool.false_eq_true, false_or] at isNew
    exact revokes.evidence id isNew
  · intro evidence
    obtain ⟨_, found, call, _, signer, _, rfl, -, names, -⟩ := evidence.shown
    obtain ⟨id', signer', _, names', revoked⟩ := revokes.named found call (by simp)
    rw [names] at names'
    cases names'
    exact revoked

/-- What is revoked is published once, nothing else is published, and it is what a call of the history
    named and proved. -/
theorem revoked_once_with_evidence (reaches : Reaches rules (deployedOver registries) final) :
    final.published.Nodup ∧ (∀ data ∈ final.published, ∃ id : Id n, data = encodePacked id) ∧
      ∀ id, (isRevoked final id = true ↔ encodePacked id ∈ final.published) ∧
        (isRevoked final id = true ↔ Evidence rules registries final.history id) := by
  obtain ⟨history, news, revokes⟩ := revokes_of_reaches reaches
  have published : final.published = news.map encodePacked := revokes.published
  have revoked (id : Id n) : isRevoked final id = true ↔ id ∈ news := by
    simp [isRevoked, revokes.revoked, deployedOver]
  refine ⟨?_, fun data member => ?_, fun id => ⟨?_, isRevoked_iff_evidence reaches⟩⟩
  · rw [published]
    exact revokes.once.map RevokerByVoting.encodePacked_injective
  · rw [published, List.mem_map] at member
    obtain ⟨id, -, rfl⟩ := member
    exact ⟨id, rfl⟩
  · rw [revoked, published, List.mem_map_of_injective RevokerByVoting.encodePacked_injective]

namespace Sample

open RaOnchain.Sample

/-- The two messages that the key of the application signed. -/
def conflict : Conflict where
  eventId
  content1
  message1SigR
  message1SigS
  content2
  message2SigR
  message2SigS

def appKeyId : Id 20 := appKeyAddr

theorem bothSigned_conflict : bothSigned chainMachine conflict appKeyAddr = .ok () := by decide +kernel

def keyRules : EvidenceRules chainMachine 20 (Conflict × Address) :=
  KeyRevokerByConflictMsg.rules chainMachine

theorem names_conflict (registries : Registries) :
    keyRules.names (conflict, appKeyAddr) registries = .ok (appKeyAddr, appKeyAddr) registries :=
  Exec.bind_eq_ok.mpr ⟨(), registries, check_eq_ok.mpr ⟨by decide, rfl⟩, rfl⟩

/-- Whoever is notified reports the conflict once more. -/
def reporting (world : EvidenceWorld 20 (Conflict × Address)) :
    Option (EvidenceWorld 20 (Conflict × Address)) :=
  some (transact keyRules some (conflict, appKeyAddr) world)

end Sample

/-- A run in which the key of an application is revoked, and reported again while that is published. -/
theorem revoked_once_with_evidence_conflict : ∃ world : EvidenceWorld 20 (Conflict × Address),
    Reaches Sample.keyRules (deployedOver (deployed RaOnchain.Sample.trustedRoot)) world ∧
      world.published = [encodePacked Sample.appKeyId] ∧
      isRevoked world Sample.appKeyId = true ∧
      Evidence Sample.keyRules (deployed RaOnchain.Sample.trustedRoot) world.history Sample.appKeyId := by
  let call := (Sample.conflict, RaOnchain.Sample.appKeyAddr)
  let start := @deployedOver 20 (Conflict × Address) (deployed RaOnchain.Sample.trustedRoot)
  have inner (world : EvidenceWorld 20 (Conflict × Address)) :
      Reaches Sample.keyRules world (transact Sample.keyRules some call world) :=
    .submits .refl fun _ _ same => by cases same; exact .refl
  have reaches : Reaches Sample.keyRules start (transact Sample.keyRules Sample.reporting call start) :=
    .submits .refl fun world _ same => by cases same; exact inner world
  have published : (transact Sample.keyRules Sample.reporting call start).published =
      [encodePacked Sample.appKeyId] := by
    have names := Sample.names_conflict
    let inside := revoking Sample.appKeyId (recording (.submitted call) start)
    have reached : Sample.reporting inside = some (transact Sample.keyRules some call inside) := rfl
    have isRevoked : inside.revoked Sample.appKeyId = true := by simp [inside, revoking]
    rw [transact_revokes (names start.registries) rfl Sample.bothSigned_conflict reached,
      transact_found (names inside.registries) isRevoked]
    rfl
  obtain ⟨-, -, all⟩ := revoked_once_with_evidence reaches
  obtain ⟨isPublished, hasEvidence⟩ := all Sample.appKeyId
  have revoked := isPublished.mpr (by simp [published])
  exact ⟨_, reaches, published, revoked, hasEvidence.mp revoked⟩

end RevokerByEvidence

end Decentagram.Revoker
