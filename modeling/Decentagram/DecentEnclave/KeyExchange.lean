import Decentagram.DecentEnclave.EpidRaSvcProv
import Decentagram.Lib.Slots

/-! # The key exchange of the client

The database of RA contexts in the enclave, with the calls of the trusted and of the untrusted
side.  As in the calls of the service provider, the libraries fail where the call says they do.
-/

namespace Decentagram.DecentEnclave

open Decentagram.Lib Decentagram.Mbedtls
open Decentagram.DecentEnclave.EpidRaSvcProv (Msg2 leBytes)

inductive SgxStatus where
  | unexpected
  | invalidParameter
  | outOfMemory
  | invalidState
  | invalidSignature
  | kdfMismatch
  | macMismatch
  | other (code : UInt32)
deriving DecidableEq, Repr

/-- The functions on curve points as well. -/
structure RaLib (KeyPair : Type) extends KeyLib KeyPair where
  checkPoint : EcPublic → Bool
  ecdsaVerify : EcPublic → Bytes → Bytes × Bytes → Bool
  /-- The private key that is all zeros. -/
  zeroKey : KeyPair

namespace RaDb

inductive RaState where
  | inited
  | getGaed
  | procMsg2ed
deriving DecidableEq, Repr

/-- `ra_db_item_t`, as far as the keys depend on it. -/
structure Item (KeyPair : Type) where
  gA : EcPublic
  gB : EcPublic
  vkKey : SKey
  spPubkey : EcPublic
  a : KeyPair
  mkKey : SKey
  skKey : SKey
  smkKey : SKey
  state : RaState
deriving DecidableEq

/-- `g_ra_db` -/
abbrev Db (KeyPair : Type) := Slots (Item KeyPair)

inductive Site where
  | kdfCookie
  | openContext
  | checkPoint
  | malloc
  | pushBack
  | createKeyPair
  | computeSharedDhkey
  | ecdsaVerify
  | deriveKey (label : String)
  | cmac
  | readRand
  | sha256
  | reportDataGener
  | createReport
deriving DecidableEq, Repr

abbrev Faults := Site → Option SgxStatus

variable {KeyPair : Type}

section Calls

variable {σ α : Type}

/-- A failure of the library is passed on as running out of memory, or as an unexpected error. -/
def check (faults : Faults) (site : Site) : Exec SgxStatus σ Unit :=
  match faults site with
  | none => pure ()
  | some .outOfMemory => .throw .outOfMemory
  | some _ => .throw .unexpected

def failWith (faults : Faults) (site : Site) (status : SgxStatus) : Exec SgxStatus σ Unit :=
  .throwIf (faults site ≠ none) status

/-- Works on the item of a context. -/
def onItem (context : Nat) (inner : Exec SgxStatus (Item KeyPair) α) :
    Exec SgxStatus (Db KeyPair) α := fun db =>
  match db.lookup context with
  | none => .throws .invalidParameter db
  | some item => (inner item).map fun item => db.set context (some item)

end Calls

variable (lib : RaLib KeyPair)

/-! ## The untrusted side -/

/-- The key pair is the one that the library creates. -/
def getGa (faults : Faults) (context : Nat) (keyPair : KeyPair) :
    Exec SgxStatus (Db KeyPair) EcPublic :=
  onItem context do
    let item ← .get
    .throwIf (item.state ≠ .inited) .invalidState
    check faults .openContext
    check faults .createKeyPair
    .modify fun item => { item with a := keyPair, gA := lib.publicKey keyPair, state := .getGaed }
    pure (lib.publicKey keyPair)

/-- The fields in front of the MAC. -/
def macedBytes (msg2 : Msg2) : Bytes :=
  msg2.gB.bytes ++ msg2.spid ++ leBytes msg2.quoteType ++ leBytes msg2.kdfId ++
    msg2.signGbGa.1 ++ msg2.signGbGa.2

/-- The keys are stored before the report is made, and the state is changed when all has succeeded. -/
def procMsg2 (faults : Faults) (context : Nat) (msg2 : Msg2) : Exec SgxStatus (Db KeyPair) Unit :=
  onItem context do
    let item ← .get
    .throwIf (item.state ≠ .getGaed) .invalidState
    check faults .openContext
    check faults .computeSharedDhkey
    let dhKey := lib.sharedKey item.a msg2.gB
    check faults .ecdsaVerify
    .throwIf (lib.ecdsaVerify item.spPubkey (msg2.gB.bytes ++ item.gA.bytes) msg2.signGbGa = false)
      .invalidSignature
    .throwIf (msg2.kdfId ≠ 1) .kdfMismatch
    check faults (.deriveKey "SMK")
    check faults (.deriveKey "SK")
    check faults (.deriveKey "MK")
    check faults (.deriveKey "VK")
    check faults .cmac
    .throwIf (lib.cmac (lib.ckdf dhKey "SMK") (macedBytes msg2) ≠ msg2.mac) .macMismatch
    check faults .readRand
    .modify fun item => { item with
      gB := msg2.gB
      smkKey := lib.ckdf dhKey "SMK"
      skKey := lib.ckdf dhKey "SK"
      mkKey := lib.ckdf dhKey "MK"
      vkKey := lib.ckdf dhKey "VK" }
    check faults .sha256
    failWith faults .reportDataGener .unexpected
    check faults .createReport
    .modify fun item => { item with state := .procMsg2ed }

/-! ## The trusted side -/

def zeroPublic : EcPublic := ⟨List.replicate 32 0, List.replicate 32 0⟩

def newItem (pubKey : EcPublic) : Item KeyPair where
  gA := zeroPublic
  gB := zeroPublic
  vkKey := List.replicate 16 0
  spPubkey := pubKey
  a := lib.zeroKey
  mkKey := List.replicate 16 0
  skKey := List.replicate 16 0
  smkKey := List.replicate 16 0
  state := .inited

/-- `INT32_MAX` -/
def maxSize : Nat := 2147483647

def init (faults : Faults) (pubKey : EcPublic) : Exec SgxStatus (Db KeyPair) Nat := do
  failWith faults .kdfCookie .unexpected
  check faults .openContext
  check faults .checkPoint
  .throwIf (lib.checkPoint pubKey = false) .invalidParameter
  failWith faults .malloc .outOfMemory
  let db ← .get
  -- a closed slot is taken before the table grows
  if db.firstEmpty = db.length then do
    .throwIf (db.length ≥ maxSize) .outOfMemory
    failWith faults .pushBack .outOfMemory
    .modify fun db => db.add (newItem lib pubKey)
    pure db.firstEmpty
  else do
    .modify fun db => db.add (newItem lib pubKey)
    pure db.firstEmpty

inductive KeyType where
  | sk
  | mk
deriving DecidableEq, Repr

def Item.key (item : Item KeyPair) : KeyType → SKey
  | .mk => item.mkKey
  | .sk => item.skKey

def getKeys (context : Nat) (type : KeyType) : Exec SgxStatus (Db KeyPair) SKey :=
  onItem context do
    let item ← .get
    .throwIf (item.state ≠ .procMsg2ed) .invalidState
    pure (item.key type)

def close (context : Nat) : Exec SgxStatus (Db KeyPair) Unit := fun db =>
  match db.lookup context with
  | none => .throws .invalidParameter db
  | some _ => .ok () (db.set context none)

/-! ## Other users of the database -/

/-- What happens to the database while an object waits for the host, or between two of its calls. -/
inductive RaEvent (KeyPair : Type) where
  | getGa (faults : Faults) (context : Nat) (keyPair : KeyPair)
  | procMsg2 (faults : Faults) (context : Nat) (msg2 : Msg2)
  | init (faults : Faults) (pubKey : EcPublic)
  | close (context : Nat)

/-- The contexts in the list are those of the object; nobody else closes them. -/
def occurs (owned : List Nat) (db : Db KeyPair) : RaEvent KeyPair → Db KeyPair
  | .getGa faults context keyPair => (Exec.endState (getGa lib faults context keyPair) db).getD db
  | .procMsg2 faults context msg2 => (Exec.endState (procMsg2 lib faults context msg2) db).getD db
  | .init faults pubKey => (Exec.endState (init lib faults pubKey) db).getD db
  | .close context => if context ∈ owned then db else (Exec.endState (close context) db).getD db

def occurAll (owned : List Nat) (db : Db KeyPair) (events : List (RaEvent KeyPair)) : Db KeyPair :=
  events.foldl (occurs lib owned) db

/-! ## What becomes of an item -/

variable {lib}

section Rules

variable {σ α : Type} {faults : Faults} {site : Site} {before : σ}

@[simp] theorem sat_check {returns : Unit → σ → Prop} {raises : SgxStatus → σ → Prop} :
    Exec.Sat (check faults site) before returns raises ↔ (faults site = none → returns () before) ∧
      ∀ status, faults site = some status →
        raises (if status = .outOfMemory then .outOfMemory else .unexpected) before := by
  unfold check
  cases faults site with
  | none => simp
  | some status => cases status <;> simp

@[simp] theorem sat_onItem {context : Nat} {inner : Exec SgxStatus (Item KeyPair) α} {db : Db KeyPair}
    {returns : α → Db KeyPair → Prop} {raises : SgxStatus → Db KeyPair → Prop} :
    Exec.Sat (onItem context inner) db returns raises ↔
      (db.lookup context = none → raises .invalidParameter db) ∧
        ∀ item, db.lookup context = some item →
          Exec.Sat inner item (fun value after => returns value (db.set context (some after)))
            (fun status after => raises status (db.set context (some after))) := by
  unfold Exec.Sat onItem
  cases db.lookup context with
  | none => simp
  | some item => cases ended : inner item <;> simp [ended]

end Rules

/-- The item belongs to this message 2, which the service provider signed for it. -/
structure Processed (lib : RaLib KeyPair) (item : Item KeyPair) (msg2 : Msg2) : Prop where
  sameGB : item.gB = msg2.gB
  signed : lib.ecdsaVerify item.spPubkey (msg2.gB.bytes ++ item.gA.bytes) msg2.signGbGa = true
  isSmk : item.smkKey = lib.ckdf (lib.sharedKey item.a msg2.gB) "SMK"
  isSk : item.skKey = lib.ckdf (lib.sharedKey item.a msg2.gB) "SK"
  isMk : item.mkKey = lib.ckdf (lib.sharedKey item.a msg2.gB) "MK"
  maced : lib.cmac item.smkKey (macedBytes msg2) = msg2.mac

def Item.Sound (lib : RaLib KeyPair) (item : Item KeyPair) : Prop :=
  item.state = .procMsg2ed → ∃ msg2, Processed lib item msg2

/-- The key of the service provider stays, and so does everything once message 2 was processed. -/
structure Evolves (lib : RaLib KeyPair) (before after : Item KeyPair) : Prop where
  sameKey : after.spPubkey = before.spPubkey
  final : before.state = .procMsg2ed → after = before
  sound : before.Sound lib → after.Sound lib

theorem Evolves.refl (item : Item KeyPair) : Evolves lib item item := ⟨rfl, fun _ => rfl, id⟩

theorem Evolves.trans {first second third : Item KeyPair} (early : Evolves lib first second)
    (late : Evolves lib second third) : Evolves lib first third where
  sameKey := late.sameKey.trans early.sameKey
  final processed := by
    have same := early.final processed
    rw [late.final (same ▸ processed), same]
  sound := late.sound ∘ early.sound

/-- A change of an item that is not finished. -/
theorem Evolves.open {before after : Item KeyPair} (sameKey : after.spPubkey = before.spPubkey)
    (notFinal : before.state ≠ .procMsg2ed) (sound : after.Sound lib) : Evolves lib before after :=
  ⟨sameKey, fun isFinal => (notFinal isFinal).elim, fun _ => sound⟩

section Calls

variable {faults : Faults} {context : Nat} {db : Db KeyPair}

/-- Where an item is, an item that has evolved from it will be. -/
def Kept (lib : RaLib KeyPair) (owned : List Nat) (before after : Db KeyPair) : Prop :=
  ∀ context ∈ owned, ∀ item, before.lookup context = some item →
    ∃ item', after.lookup context = some item' ∧ Evolves lib item item'

theorem Kept.refl (owned : List Nat) (db : Db KeyPair) : Kept lib owned db db :=
  fun _ _ item found => ⟨item, found, .refl item⟩

theorem Kept.trans {owned : List Nat} {first second third : Db KeyPair}
    (early : Kept lib owned first second) (late : Kept lib owned second third) :
    Kept lib owned first third := by
  intro context isOwned item found
  obtain ⟨item', found', evolves⟩ := early context isOwned item found
  obtain ⟨item'', found'', evolves'⟩ := late context isOwned item' found'
  exact ⟨item'', found'', evolves.trans evolves'⟩

theorem kept_set {owned : List Nat} {item item' : Item KeyPair} (found : db.lookup context = some item)
    (evolves : Evolves lib item item') : Kept lib owned db (db.set context (some item')) := by
  intro other _ item₁ found₁
  by_cases same : context = other
  · subst same
    rw [found] at found₁
    cases found₁
    exact ⟨item', Slots.lookup_set_self found _, evolves⟩
  · exact ⟨item₁, by rw [Slots.lookup_set_ne db _ same, found₁], .refl item₁⟩

/-- A call on an item that lets it evolve. -/
theorem kept_onItem {α : Type} (owned : List Nat) {inner : Exec SgxStatus (Item KeyPair) α}
    (evolves : ∀ item, Exec.Sat inner item (fun _ after => Evolves lib item after)
      (fun _ after => Evolves lib item after)) :
    Exec.Sat (onItem context inner) db (fun _ after => Kept lib owned db after)
      (fun _ after => Kept lib owned db after) := by
  rw [sat_onItem]
  refine ⟨fun _ => .refl owned db, fun item found => ?_⟩
  exact (evolves item).mono (fun _ _ => kept_set found) (fun _ _ => kept_set found)

theorem getGa_kept (owned : List Nat) (keyPair : KeyPair) :
    Exec.Sat (getGa lib faults context keyPair) db (fun _ after => Kept lib owned db after)
      (fun _ after => Kept lib owned db after) := by
  refine kept_onItem owned fun item => ?_
  simp only [Exec.sat_bind, Exec.sat_get, Exec.sat_throwIf, sat_check, Exec.sat_modify, Exec.sat_pure]
  refine ⟨fun _ => .refl item, fun inited => ?_⟩
  have state := not_not.mp inited
  refine ⟨fun _ => ⟨fun _ => .open rfl (by simp [state]) fun isFinal => ?_, fun _ _ => .refl item⟩,
    fun _ _ => .refl item⟩
  cases isFinal

/-- The keys are stored with the state left as it is, or with the state in which they are used. -/
theorem procMsg2_kept (owned : List Nat) (msg2 : Msg2) :
    Exec.Sat (procMsg2 lib faults context msg2) db (fun _ after => Kept lib owned db after)
      (fun _ after => Kept lib owned db after) := by
  refine kept_onItem owned fun item => ?_
  simp only [Exec.sat_bind, Exec.sat_get, Exec.sat_throwIf, sat_check, Exec.sat_modify, failWith]
  refine ⟨fun _ => .refl item, fun gaed => ?_⟩
  have notFinal : item.state ≠ .procMsg2ed := by simp [not_not.mp gaed]
  -- a throw between the keys and the state leaves an item whose keys nobody can ask for
  have keysOnly : Evolves lib item { item with
      gB := msg2.gB
      smkKey := lib.ckdf (lib.sharedKey item.a msg2.gB) "SMK"
      skKey := lib.ckdf (lib.sharedKey item.a msg2.gB) "SK"
      mkKey := lib.ckdf (lib.sharedKey item.a msg2.gB) "MK"
      vkKey := lib.ckdf (lib.sharedKey item.a msg2.gB) "VK" } :=
    .open rfl notFinal fun isFinal => (notFinal isFinal).elim
  simp only [Evolves.refl, keysOnly, implies_true, and_true, true_and]
  intro _ _ _ signed _ _ _ _ _ _ maced _ _ _ _
  refine .open rfl notFinal fun _ => ⟨msg2, ?_⟩
  exact { sameGB := rfl, signed := Bool.eq_true_of_not_eq_false signed, isSmk := rfl, isSk := rfl, isMk := rfl,
          maced := not_not.mp maced }

/-- A context is created in the first empty slot. -/
theorem init_sat (pubKey : EcPublic) : Exec.Sat (init lib faults pubKey) db
    (fun context after => context = db.firstEmpty ∧ after = db.add (newItem lib pubKey))
    (fun _ after => after = db) := by
  simp [init, failWith]

theorem kept_add (owned : List Nat) (item : Item KeyPair) : Kept lib owned db (db.add item) :=
  fun _ _ item' found => ⟨item', Slots.lookup_add_of_some item found, .refl item'⟩

theorem kept_endState {α : Type} {owned : List Nat} {call : Exec SgxStatus (Db KeyPair) α}
    (sat : Exec.Sat call db (fun _ after => Kept lib owned db after) (fun _ after => Kept lib owned db after)) :
    Kept lib owned db ((Exec.endState call db).getD db) := by
  cases ended : Exec.endState call db with
  | none => exact .refl owned db
  | some after => exact Exec.Sat.ends (Kept lib owned db) sat (Exec.ends_of_endState ended)

theorem occurs_kept (owned : List Nat) (event : RaEvent KeyPair) :
    Kept lib owned db (occurs lib owned db event) := by
  cases event with
  | getGa faults context keyPair => exact kept_endState (getGa_kept owned keyPair)
  | procMsg2 faults context msg2 => exact kept_endState (procMsg2_kept owned msg2)
  | init faults pubKey =>
    refine kept_endState ((init_sat pubKey).mono ?_ ?_)
    · rintro _ after ⟨-, rfl⟩
      exact kept_add owned _
    · rintro _ after rfl
      exact .refl owned _
  | close context =>
    simp only [occurs]
    split
    next => exact .refl owned db
    next notOwned =>
      intro other isOwned item found
      have differ : context ≠ other := fun same => notOwned (same ▸ isOwned)
      refine ⟨item, ?_, .refl item⟩
      unfold Exec.endState close
      cases db.lookup context with
      | none => exact found
      | some _ => exact (Slots.lookup_set_ne db none differ).trans found

theorem occurAll_kept (owned : List Nat) (events : List (RaEvent KeyPair)) :
    Kept lib owned db (occurAll lib owned db events) := by
  induction events generalizing db with
  | nil => exact .refl owned db
  | cons event events inductionHypothesis => exact (occurs_kept owned event).trans inductionHypothesis

/-- Keys are read from an item whose message 2 was processed, and nothing is changed. -/
theorem getKeys_sat (type : KeyType) : Exec.Sat (getKeys context type) db
    (fun key after => after = db ∧
      ∃ item, db.lookup context = some item ∧ item.state = .procMsg2ed ∧ key = item.key type)
    (fun _ after => after = db) := by
  simp only [getKeys, sat_onItem, Exec.sat_bind, Exec.sat_get, Exec.sat_throwIf, Exec.sat_pure]
  refine ⟨fun _ => trivial, fun item found => ?_⟩
  have same := Slots.set_lookup found
  exact ⟨fun _ => same, fun processed => ⟨same, item, found, not_not.mp processed, rfl⟩⟩

theorem getKeys_returns {item : Item KeyPair} (found : db.lookup context = some item)
    (processed : item.state = .procMsg2ed) (type : KeyType) :
    getKeys context type db = .ok (item.key type) db := by
  simp [getKeys, onItem, found, processed, Slots.set_lookup found]

end Calls

end RaDb

end Decentagram.DecentEnclave
