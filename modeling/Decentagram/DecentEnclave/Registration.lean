import Decentagram.DecentEnclave.Keyring
import Decentagram.Lib.Result
import Decentagram.Lib.Run

/-! # Keys and certificates are used before and after their registration

The macros `DECENTENCLAVE_KEYRING_KEY` and `DECENTENCLAVE_CERTSTORE_CERT` declare a class with one object
of static storage duration, which is constructed by the first call that needs it.  `CheckRegistration` is
a function of the base class, and what its initializer of `sk_isRegistered` found is kept for the rest of
the process.  The two families of classes are one process over a `StaticStore`.
-/

namespace Decentagram.DecentEnclave

open Decentagram.Lib

/-- A store, and the objects that are registered to it.  A class is named by the address of its object. -/
structure StaticStore where
  Object : Type
  Content : Type
  /-- What the library calls of one member function give. -/
  Outside : Type
  /-- What is asked of an object that `GetInstance` has returned. -/
  Access : Type
  Value : Type
  /-- Member functions of the store that are about no single object. -/
  Operation : Type
  init : Content
  construct : Nat → Outside → Except String Object
  isRegistered : Content → Object → Outside → Except String Bool
  register : Content → Object → Outside → Except String Content
  refusal : Object → String
  access : Content → Object → Access → Content × Value
  operate : Content → Operation → Content
  /-- The store refers to this very object. -/
  RefersTo : Content → Object → Prop

structure StaticState (store : StaticStore) where
  content : store.Content
  /-- The objects that are constructed. -/
  s_inst : Nat → Option store.Object
  /-- The static local variable of `CheckRegistration`. -/
  sk_isRegistered : Option Bool

inductive StaticCall (store : StaticStore) where
  | register (type : Nat) (outside : store.Outside)
  | getInstance (type : Nat) (access : store.Access) (outside : store.Outside)
  | operate (operation : store.Operation)

namespace StaticState

variable {store : StaticStore}

def init (store : StaticStore) : StaticState store where
  content := store.init
  s_inst := fun _ => none
  sk_isRegistered := none

/-- A constructor that throws is run again by the next call. -/
def buildInstance (state : StaticState store) (type : Nat) (outside : store.Outside) :
    StaticState store × Except String store.Object :=
  match state.s_inst type with
  | some object => (state, .ok object)
  | none =>
    match store.construct type outside with
    | .error error => (state, .error error)
    | .ok object =>
      ({ state with s_inst := Function.update state.s_inst type (some object) }, .ok object)

def checkRegistration (state : StaticState store) (object : store.Object) (outside : store.Outside) :
    StaticState store × Except String Unit :=
  match state.sk_isRegistered with
  | some isRegistered => (state, if isRegistered then .ok () else .error (store.refusal object))
  | none =>
    match store.isRegistered state.content object outside with
    | .error error => (state, .error error)
    | .ok isRegistered =>
      ({ state with sk_isRegistered := some isRegistered },
        if isRegistered then .ok () else .error (store.refusal object))

/-- `T::GetInstance`, and then a member function of the object. -/
def getInstance (state : StaticState store) (type : Nat) (access : store.Access)
    (outside : store.Outside) : StaticState store × Except String store.Value :=
  match state.buildInstance type outside with
  | (state, .error error) => (state, .error error)
  | (state, .ok object) =>
    match state.checkRegistration object outside with
    | (state, .error error) => (state, .error error)
    | (state, .ok ()) =>
      let (content, value) := store.access state.content object access
      ({ state with content := content }, .ok value)

/-- `T::Register`. -/
def register (state : StaticState store) (type : Nat) (outside : store.Outside) :
    StaticState store × Except String Unit :=
  match state.buildInstance type outside with
  | (state, .error error) => (state, .error error)
  | (state, .ok object) =>
    match store.register state.content object outside with
    | .error error => (state, .error error)
    | .ok content => ({ state with content := content }, .ok ())

def execute (state : StaticState store) : StaticCall store → StaticState store
  | .register type outside => (state.register type outside).1
  | .getInstance type access outside => (state.getInstance type access outside).1
  | .operate operation => { state with content := store.operate state.content operation }

/-- Calls are made one after the other. -/
def Step (before : StaticState store) (call : StaticCall store) (after : StaticState store) : Prop :=
  after = before.execute call

/-- The store refers to the object of the class. -/
def Registered (state : StaticState store) (type : Nat) : Prop :=
  ∃ object, state.s_inst type = some object ∧ store.RefersTo state.content object

/-- Whether the object of the class exists once a call has tried to construct it. -/
def Constructible (state : StaticState store) (type : Nat) (outside : store.Outside) : Prop :=
  ∃ object, (state.buildInstance type outside).2 = .ok object

/-- What a check that is evaluated in this call finds. -/
def check (state : StaticState store) : StaticCall store → Option Bool
  | .getInstance type _ outside =>
    match (state.buildInstance type outside).2 with
    | .ok object => (store.isRegistered state.content object outside).toOption
    | .error _ => none
  | _ => none

/-- What the first check of the process that could be evaluated has found, whichever class it was for. -/
def firstCheck (taken : List (StaticState store × StaticCall store)) : Option Bool :=
  taken.findSome? fun (state, call) => state.check call

/-- One of the calls has registered the class. -/
def WasRegistered (taken : List (StaticState store × StaticCall store)) (type : Nat) : Prop :=
  ∃ state outside, (state, .register type outside) ∈ taken ∧ (state.register type outside).2 = .ok ()

end StaticState

/-! ## The two stores -/

/-- What the constructor and the export of a public key give.  A key is represented by its hash. -/
structure KeyOutside where
  constructKey : Except String (Vector (Fin 256) 32)
  getPublicDer : Except String Unit

inductive KeyAccess where
  | getInstance
  | getKey
  | getPubKey
  | getKeySharedPtr

namespace Keyring

def isRegistered (keyring : Keyring) (key : KeyringKey) (outside : KeyOutside) : Except String Bool :=
  outside.getPublicDer.map fun _ => decide (keyring.keyHashMap.Contains key.keyHashBytes)

/-- `RegisterKey` in a process of one thread. -/
def registerKeyAlone (keyring : Keyring) (key : KeyringKey) (outside : KeyOutside) :
    Except String Keyring :=
  if keyring.isLocked then .error "Keyring - Keyring is locked"
  else
    match outside.getPublicDer with
    | .error error => .error error
    | .ok () =>
      if key.name ∈ keyring.keyNameMap then .error "Keyring - Key name already exists"
      else if keyring.keyHashMap.Contains key.keyHashBytes then
        .error "Keyring - Key hash already exists"
      else
        .ok { keyring with
          keyNameMap := keyring.keyNameMap.emplace key.name key
          keyHashMap := keyring.keyHashMap.emplace key.keyHashBytes key }

/-- The steps of `RegisterKey` until the call returns or throws. -/
def finishRegisterKey (key : KeyringKey) (hashFails : Bool) :
    Nat → Keyring → RegisterKeyStage → Keyring × RegisterKeyStage
  | 0, keyring, stage => (keyring, stage)
  | steps + 1, keyring, stage =>
    match keyring.registerKey key hashFails stage with
    | none => (keyring, stage)
    | some (keyring, stage) => finishRegisterKey key hashFails steps keyring stage

/-- With no other call between its steps, `RegisterKey` does what `registerKeyAlone` says. -/
theorem finishRegisterKey_eq {keyring : Keyring} (free : keyring.mapMutex = false) (key : KeyringKey)
    (outside : KeyOutside) :
    let finished := finishRegisterKey key (!outside.getPublicDer.isOk) 8 keyring .lockMutex
    (∀ keyring', keyring.registerKeyAlone key outside = .ok keyring' → finished = (keyring', .returned)) ∧
      ∀ error, keyring.registerKeyAlone key outside = .error error → finished = (keyring, .threw) := by
  obtain ⟨isLocked, mapMutex, keyNameMap, keyHashMap⟩ := keyring
  cases free
  unfold registerKeyAlone
  by_cases locked : isLocked = true
  · simp [finishRegisterKey, registerKey, locked]
  · cases exported : outside.getPublicDer with
    | error error => simp [finishRegisterKey, registerKey, locked, Except.isOk, Except.toBool]
    | ok exportedKey =>
      by_cases named : key.name ∈ keyNameMap
      · simp [finishRegisterKey, registerKey, locked, Except.isOk, Except.toBool, named]
      · by_cases hashed : keyHashMap.Contains key.keyHashBytes
        · simp [finishRegisterKey, registerKey, locked, Except.isOk, Except.toBool, named, hashed]
        · simp [finishRegisterKey, registerKey, locked, Except.isOk, Except.toBool, named, hashed]

/-- The keys of the process: the macro names each class after its key. -/
def staticStore (keyNames : Nat → String) : StaticStore where
  Object := KeyringKey
  Content := Keyring
  Outside := KeyOutside
  Access := KeyAccess
  Value := KeyringKey
  Operation := Unit
  init := .init
  construct := fun address outside =>
    outside.constructKey.map fun hash => ⟨address, keyNames address, hash⟩
  isRegistered := isRegistered
  register := registerKeyAlone
  refusal := fun key => "Key named " ++ key.name ++ " must be registered to a Keyring before use"
  access := fun keyring key _ => (keyring, key)
  -- GenKeyHashList
  operate := fun keyring _ => { keyring with isLocked := true }
  RefersTo := Keyring.IsRegistered

end Keyring

structure CertStoreCert where
  address : Nat
  name : String
deriving DecidableEq, Repr

structure CertStore where
  certMap : UnorderedMap String CertStoreCert
  /-- The certificate that the object at an address holds. -/
  m_cert : Nat → Option (List UInt8)

inductive CertAccess where
  | update (cert : Option (List UInt8))
  | fetch
deriving DecidableEq, Repr

namespace CertStore

def init : CertStore where
  certMap := ∅
  m_cert := fun _ => none

def isRegistered (store : CertStore) (name : String) : Bool := decide (name ∈ store.certMap)

def register (store : CertStore) (cert : CertStoreCert) : Except String CertStore :=
  if store.isRegistered cert.name then .error "CertStore - certificate name already registered"
  else .ok { store with certMap := store.certMap.emplace cert.name cert }

def access (store : CertStore) (cert : CertStoreCert) : CertAccess → CertStore × Option (List UInt8)
  -- Update returns nothing
  | .update desired => ({ store with m_cert := Function.update store.m_cert cert.address desired }, none)
  | .fetch => (store, store.m_cert cert.address)

/-- The certificates of the process: the macro names each class after its certificate. -/
def staticStore (certNames : Nat → String) : StaticStore where
  Object := CertStoreCert
  Content := CertStore
  Outside := Unit
  Access := CertAccess
  Value := Option (List UInt8)
  Operation := Empty
  init := .init
  construct := fun address _ => .ok ⟨address, certNames address⟩
  isRegistered := fun store cert _ => .ok (store.isRegistered cert.name)
  register := fun store cert _ => store.register cert
  refusal := fun cert =>
    "Certificate named " ++ cert.name ++ " must be registered to a CertStore before use"
  access := access
  operate := fun store _ => store
  RefersTo := fun store cert => store.certMap.lookup cert.name = some cert

end CertStore

/-! ## What a process keeps -/

/-- What the results about a process use of its store. -/
structure StaticStore.Lawful (store : StaticStore) : Prop where
  eq_of_construct : ∀ {type type' : Nat} {outside outside' : store.Outside} {object : store.Object},
    store.construct type outside = .ok object → store.construct type' outside' = .ok object → type = type'
  not_refersTo_init : ∀ object, ¬ store.RefersTo store.init object
  refersTo_register : ∀ {content content' : store.Content} {object : store.Object} {outside : store.Outside},
    store.register content object outside = .ok content' →
      ∀ other, store.RefersTo content' other ↔ store.RefersTo content other ∨ other = object
  refersTo_access : ∀ content object access other,
    store.RefersTo (store.access content object access).1 other ↔ store.RefersTo content other
  refersTo_operate : ∀ content operation other,
    store.RefersTo (store.operate content operation) other ↔ store.RefersTo content other

theorem Keyring.lawful (keyNames : Nat → String) : (staticStore keyNames).Lawful where
  eq_of_construct := by
    intro type type' outside outside' key constructed constructed'
    have address {type : Nat} {outside : KeyOutside} (constructed :
        (staticStore keyNames).construct type outside = .ok key) : KeyringKey.address key = type := by
      cases hash : outside.constructKey with
      | error error => simp [staticStore, hash, Except.map] at constructed
      | ok hash' =>
        simp only [staticStore, hash, Except.map] at constructed
        cases constructed
        rfl
    exact (address constructed).symm.trans (address constructed')
  not_refersTo_init := by
    intro key registered
    have byHash := registered.byHash
    simp [staticStore, init] at byHash
  refersTo_register := by
    intro keyring keyring' key outside registers other
    change registerKeyAlone keyring key outside = .ok keyring' at registers
    unfold registerKeyAlone at registers
    split at registers
    next => cases registers
    next unlocked =>
      split at registers
      next => cases registers
      next =>
        split at registers
        next => cases registers
        next nameFresh =>
          split at registers
          next => cases registers
          next hashFresh =>
            cases registers
            -- the maps are only written after every check: both gain this key and no other
            have entries := @OrderedMap.mem_emplace _ _ _ keyring.keyHashMap _ hashFresh key
            constructor
            · intro registered
              refine or_iff_not_imp_right.mpr fun another => ⟨?_, ?_⟩
              · cases UnorderedMap.lookup_emplace registered.byName with
                | inl looked => exact looked
                | inr isNew => exact absurd isNew.2 another
              · cases entries.mp registered.byHash with
                | inl isNew => exact absurd (congrArg Prod.snd isNew) another
                | inr member => exact member
            · rintro (registered | rfl)
              · exact ⟨UnorderedMap.lookup_emplace_of_some _ _ registered.byName,
                  entries.mpr (.inr registered.byHash)⟩
              · exact ⟨UnorderedMap.lookup_emplace_self nameFresh _, entries.mpr (.inl rfl)⟩
  refersTo_access := fun _ _ _ _ => .rfl
  refersTo_operate := fun _ _ _ =>
    ⟨fun registered => ⟨registered.byName, registered.byHash⟩,
      fun registered => ⟨registered.byName, registered.byHash⟩⟩

theorem CertStore.lawful (certNames : Nat → String) : (staticStore certNames).Lawful where
  eq_of_construct := by
    intro type type' outside outside' cert constructed constructed'
    cases constructed
    cases constructed'
    rfl
  not_refersTo_init := by
    intro cert refersTo
    simp [staticStore, init] at refersTo
  refersTo_register := by
    intro certs certs' cert outside registers other
    change certs.register cert = .ok certs' at registers
    unfold register at registers
    split at registers
    next => cases registers
    next fresh =>
      cases registers
      replace fresh : cert.name ∉ certs.certMap := by simpa [isRegistered] using fresh
      constructor
      · intro refersTo
        cases UnorderedMap.lookup_emplace refersTo with
        | inl looked => exact .inl looked
        | inr isNew => exact .inr isNew.2
      · rintro (looked | rfl)
        · exact UnorderedMap.lookup_emplace_of_some _ _ looked
        · exact UnorderedMap.lookup_emplace_self fresh _
  refersTo_access := by
    intro certs cert access other
    cases access <;> rfl
  refersTo_operate := fun _ _ _ => .rfl

namespace StaticState

variable {store : StaticStore}

/-- Constructing an object changes nothing but that it exists afterwards. -/
structure Builds (before : StaticState store) (type : Nat) (outside : store.Outside)
    (after : StaticState store) (object : store.Object) : Prop where
  content : after.content = before.content
  sk_isRegistered : after.sk_isRegistered = before.sk_isRegistered
  exists_now : after.s_inst type = some object
  others : ∀ other, other ≠ type → after.s_inst other = before.s_inst other
  this : before.s_inst type = some object ∨
    before.s_inst type = none ∧ store.construct type outside = .ok object

theorem buildInstance_cases (state : StaticState store) (type : Nat) (outside : store.Outside) :
    (∃ error, state.buildInstance type outside = (state, .error error) ∧ state.s_inst type = none) ∨
      ∃ after object, state.buildInstance type outside = (after, .ok object) ∧
        state.Builds type outside after object := by
  unfold buildInstance
  cases found : state.s_inst type with
  | some object =>
    exact .inr ⟨state, object, rfl, rfl, rfl, found, fun _ _ => rfl, .inl found⟩
  | none =>
    cases constructed : store.construct type outside with
    | error error => exact .inl ⟨error, rfl, rfl⟩
    | ok object =>
      refine .inr ⟨_, object, rfl, rfl, rfl, ?_, fun other different => ?_, .inr ⟨found, constructed⟩⟩
      · exact Function.update_self ..
      · exact Function.update_of_ne different ..

/-- The check of an object whose initializer has run, or runs in this call. -/
theorem checkRegistration_cases (state : StaticState store) (object : store.Object)
    (outside : store.Outside) (found : Option Bool)
    (finds : found = state.sk_isRegistered.or (store.isRegistered state.content object outside).toOption) :
    ∃ after result, state.checkRegistration object outside = (after, result) ∧
      after.content = state.content ∧ after.s_inst = state.s_inst ∧ after.sk_isRegistered = found ∧
      (result = .ok () ↔ found = some true) := by
  subst finds
  unfold checkRegistration
  cases kept : state.sk_isRegistered with
  | some isRegistered =>
    refine ⟨state, _, rfl, rfl, rfl, kept, ?_⟩
    cases isRegistered <;> simp
  | none =>
    cases store.isRegistered state.content object outside with
    | error error => exact ⟨state, _, rfl, rfl, rfl, kept, by simp [Except.toOption]⟩
    | ok isRegistered =>
      refine ⟨_, _, rfl, rfl, rfl, rfl, ?_⟩
      cases isRegistered <;> simp [Except.toOption]

/-- The store only refers to objects that exist, and each was made by its own constructor. -/
structure WellStored (state : StaticState store) : Prop where
  constructed : ∀ type object, state.s_inst type = some object →
    ∃ outside, store.construct type outside = .ok object
  stored : ∀ object, store.RefersTo state.content object → ∃ type, state.s_inst type = some object

variable {before after : StaticState store} {type : Nat} {outside : store.Outside} {object : store.Object}

theorem WellStored.builds (lawful : store.Lawful) (wellStored : before.WellStored)
    (builds : before.Builds type outside after object) :
    after.WellStored ∧ ∀ other, after.Registered other ↔ before.Registered other := by
  have kept (other : Nat) {object' : store.Object} (existed : before.s_inst other = some object') :
      after.s_inst other = some object' := by
    by_cases same : other = type
    · subst same
      cases builds.this with
      | inl this => rw [builds.exists_now, ← this, existed]
      | inr fresh => cases fresh.1.symm.trans existed
    · rw [builds.others other same, existed]
  refine ⟨⟨fun other object' exists_now => ?_, fun object' refersTo => ?_⟩, fun other => ?_⟩
  · by_cases same : other = type
    · subst same
      cases builds.exists_now.symm.trans exists_now
      cases builds.this with
      | inl this => exact wellStored.constructed _ _ this
      | inr fresh => exact ⟨outside, fresh.2⟩
    · exact wellStored.constructed _ _ (builds.others other same ▸ exists_now)
  · rw [builds.content] at refersTo
    exact (wellStored.stored _ refersTo).imp fun other existed => kept other existed
  · constructor
    · rintro ⟨object', exists_now, refersTo⟩
      rw [builds.content] at refersTo
      -- the object that is referred to existed before, and under the class that constructed it
      obtain ⟨other', existed⟩ := wellStored.stored _ refersTo
      obtain ⟨_, constructed'⟩ := wellStored.constructed _ _ existed
      refine ⟨object', ?_, refersTo⟩
      by_cases same : other = type
      · subst same
        cases builds.exists_now.symm.trans exists_now
        cases builds.this with
        | inl this => exact this
        | inr fresh => rwa [lawful.eq_of_construct fresh.2 constructed']
      · rwa [← builds.others other same]
    · rintro ⟨object', existed, refersTo⟩
      exact ⟨object', kept other existed, builds.content ▸ refersTo⟩

/-- A change of the content that the references survive. -/
theorem WellStored.withContent (wellStored : before.WellStored) {content : store.Content}
    {sk_isRegistered : Option Bool}
    (same : ∀ other, store.RefersTo content other ↔ store.RefersTo before.content other) :
    WellStored ⟨content, before.s_inst, sk_isRegistered⟩ ∧
      ∀ other, Registered ⟨content, before.s_inst, sk_isRegistered⟩ other ↔ before.Registered other :=
  ⟨⟨wellStored.constructed, fun object refersTo => wellStored.stored object ((same object).mp refersTo)⟩,
    fun _ => exists_congr fun object => and_congr_right fun _ => same object⟩

/-- What a registration that returns has done. -/
theorem register_cases (lawful : store.Lawful) (wellStored : before.WellStored) (type : Nat)
    (outside : store.Outside) :
    (before.register type outside).1.WellStored ∧
      (before.register type outside).1.sk_isRegistered = before.sk_isRegistered ∧
      ∀ other, (before.register type outside).1.Registered other ↔
        before.Registered other ∨ (before.register type outside).2 = .ok () ∧ other = type := by
  unfold register
  rcases buildInstance_cases before type outside with ⟨error, built, _⟩ | ⟨middle, object, built, builds⟩
  · rw [built]
    exact ⟨wellStored, rfl, by simp⟩
  · rw [built]
    obtain ⟨wellStored', sameBefore⟩ := wellStored.builds lawful builds
    dsimp only
    cases registers : store.register middle.content object outside with
    | error error =>
      refine ⟨wellStored', builds.sk_isRegistered, ?_⟩
      simpa using sameBefore
    | ok content =>
      dsimp only
      have refersTo := lawful.refersTo_register registers
      refine ⟨⟨wellStored'.constructed, fun object' now => ?_⟩, builds.sk_isRegistered, fun other => ?_⟩
      · cases (refersTo object').mp now with
        | inl earlier => exact wellStored'.stored _ earlier
        | inr isNew => exact ⟨type, isNew ▸ builds.exists_now⟩
      · simp only [true_and, ← sameBefore]
        constructor
        · rintro ⟨object', exists_now, now⟩
          cases (refersTo object').mp now with
          | inl earlier => exact .inl ⟨object', exists_now, earlier⟩
          | inr isNew =>
            obtain ⟨_, constructed⟩ := wellStored'.constructed _ _ exists_now
            obtain ⟨_, constructed'⟩ := wellStored'.constructed _ _ builds.exists_now
            exact .inr (lawful.eq_of_construct constructed (isNew ▸ constructed'))
        · rintro (⟨object', exists_now, earlier⟩ | rfl)
          · exact ⟨object', exists_now, (refersTo object').mpr (.inl earlier)⟩
          · exact ⟨object, builds.exists_now, (refersTo object).mpr (.inr rfl)⟩

/-- The check is the only obstacle for an object that exists. -/
theorem getInstance_cases (lawful : store.Lawful) (wellStored : before.WellStored) (type : Nat)
    (access : store.Access) (outside : store.Outside) :
    let found := before.sk_isRegistered.or (before.check (.getInstance type access outside))
    (before.getInstance type access outside).1.WellStored ∧
      (before.getInstance type access outside).1.sk_isRegistered = found ∧
      (∀ other, (before.getInstance type access outside).1.Registered other ↔ before.Registered other) ∧
      ((∃ value, (before.getInstance type access outside).2 = .ok value) ↔
        before.Constructible type outside ∧ found = some true) := by
  intro found
  unfold getInstance Constructible
  rcases buildInstance_cases before type outside with ⟨error, built, _⟩ | ⟨middle, object, built, builds⟩
  · have isCheck : found = before.sk_isRegistered := by simp [found, check, built]
    rw [built, isCheck]
    exact ⟨wellStored, rfl, fun _ => .rfl, by simp⟩
  · have isCheck : found =
        before.sk_isRegistered.or (store.isRegistered before.content object outside).toOption := by
      simp [found, check, built]
    rw [built, isCheck]
    obtain ⟨wellStored', sameBefore⟩ := wellStored.builds lawful builds
    obtain ⟨after, result, checked, content, s_inst, sk_isRegistered, passes⟩ :=
      middle.checkRegistration_cases object outside _ rfl
    rw [builds.content, builds.sk_isRegistered] at sk_isRegistered passes
    obtain ⟨afterContent, afterInst, afterStatic⟩ := after
    cases content
    cases s_inst
    simp only [checked]
    cases result with
    | error error =>
      dsimp only
      have same := @wellStored'.withContent _ _ middle.content afterStatic fun _ => .rfl
      have refused := mt passes.mpr (by simp)
      exact ⟨same.1, sk_isRegistered, fun other => (same.2 other).trans (sameBefore other),
        by simpa using refused⟩
    | ok passedCheck =>
      dsimp only
      have same := @wellStored'.withContent _ _ (store.access middle.content object access).1 afterStatic
        (lawful.refersTo_access _ _ _)
      have passed := passes.mp rfl
      exact ⟨same.1, sk_isRegistered, fun other => (same.2 other).trans (sameBefore other),
        by simpa using passed⟩

/-! ## Runs -/

/-- What is known of a process after the calls it has made. -/
structure Consistent (taken : List (StaticState store × StaticCall store)) (state : StaticState store) :
    Prop where
  wellStored : state.WellStored
  checked : state.sk_isRegistered = firstCheck taken
  registered : ∀ type, state.Registered type ↔ WasRegistered taken type

theorem firstCheck_snoc (taken : List (StaticState store × StaticCall store)) (call : StaticCall store) :
    firstCheck (taken ++ [(before, call)]) = (firstCheck taken).or (before.check call) := by
  rw [firstCheck, List.findSome?_append, List.findSome?_singleton]
  rfl

theorem wasRegistered_snoc {taken : List (StaticState store × StaticCall store)} {call : StaticCall store}
    (type : Nat) : WasRegistered (taken ++ [(before, call)]) type ↔
      WasRegistered taken type ∨ ∃ outside, call = .register type outside ∧
        (before.register type outside).2 = .ok () := by
  simp only [WasRegistered, List.mem_append, List.mem_singleton, Prod.mk.injEq]
  constructor
  · rintro ⟨state, outside, member | ⟨rfl, rfl⟩, returned⟩
    · exact .inl ⟨state, outside, member, returned⟩
    · exact .inr ⟨outside, rfl, returned⟩
  · rintro (⟨state, outside, member, returned⟩ | ⟨outside, rfl, returned⟩)
    · exact ⟨state, outside, .inl member, returned⟩
    · exact ⟨before, outside, .inr ⟨rfl, rfl⟩, returned⟩

theorem consistent_init (lawful : store.Lawful) : Consistent [] (init store) where
  wellStored :=
    { constructed := fun _ _ exists_now => by cases exists_now
      stored := fun object refersTo => absurd refersTo (lawful.not_refersTo_init object) }
  checked := rfl
  registered := by
    intro type
    constructor
    · rintro ⟨_, exists_now, _⟩
      cases exists_now
    · rintro ⟨_, _, member, _⟩
      cases member

theorem Consistent.step (lawful : store.Lawful)
    {taken : List (StaticState store × StaticCall store)} (consistent : Consistent taken before)
    (call : StaticCall store) : Consistent (taken ++ [(before, call)]) (before.execute call) := by
  cases call with
  | register type outside =>
    obtain ⟨wellStored, sk_isRegistered, registered⟩ :=
      register_cases lawful consistent.wellStored type outside
    refine ⟨wellStored, ?_, fun other => ?_⟩
    · rw [firstCheck_snoc, ← consistent.checked]
      exact sk_isRegistered.trans (by simp [check])
    · rw [wasRegistered_snoc, ← consistent.registered]
      refine (registered other).trans (or_congr_right ?_)
      constructor
      · rintro ⟨returned, rfl⟩
        exact ⟨outside, rfl, returned⟩
      · rintro ⟨_, isCall, returned⟩
        cases isCall
        exact ⟨returned, rfl⟩
  | getInstance type access outside =>
    obtain ⟨wellStored, sk_isRegistered, registered, _⟩ :=
      getInstance_cases lawful consistent.wellStored type access outside
    refine ⟨wellStored, ?_, fun other => ?_⟩
    · rw [firstCheck_snoc, ← consistent.checked]
      exact sk_isRegistered
    · rw [wasRegistered_snoc, ← consistent.registered]
      exact (registered other).trans (by simp)
  | operate operation =>
    obtain ⟨wellStored, registered⟩ :=
      @WellStored.withContent store before consistent.wellStored (store.operate before.content operation)
        before.sk_isRegistered (lawful.refersTo_operate _ _)
    refine ⟨wellStored, ?_, fun other => ?_⟩
    · rw [firstCheck_snoc, ← consistent.checked]
      simp [execute, check]
    · rw [wasRegistered_snoc, ← consistent.registered]
      exact (registered other).trans (by simp)

theorem consistent_of_run (lawful : store.Lawful)
    {taken : List (StaticState store × StaticCall store)} {final : StaticState store}
    (run : Run Step (init store) taken final) : Consistent taken final := by
  refine run.invariant (fun _ _ => True) Consistent (consistent_init lawful) ?_ fun _ _ => trivial
  intro taken before call after consistent _ stepped
  exact stepped ▸ consistent.step lawful call

/-- For every call of `GetInstance` in the run: it succeeds if and only if the very object is registered at
    that moment, just when what the first check of the process found is whether this object is registered. -/
def CheckedAtUse (taken : List (StaticState store × StaticCall store)) : Prop :=
  ∀ earlier before type access outside later,
    taken = earlier ++ (before, .getInstance type access outside) :: later →
      (before.Registered type ↔ WasRegistered earlier type) ∧
      (((∃ value, (before.getInstance type access outside).2 = .ok value) ↔ before.Registered type) ↔
        (before.Constructible type outside →
          (firstCheck (earlier ++ [(before, .getInstance type access outside)]) = some true ↔
            before.Registered type)))

theorem checkedAtUse_of_run (lawful : store.Lawful)
    {taken : List (StaticState store × StaticCall store)} {final : StaticState store}
    (run : Run Step (init store) taken final) : CheckedAtUse taken := by
  intro earlier before type access outside later split
  have consistent := consistent_of_run lawful (run.upTo split)
  refine ⟨consistent.registered type, ?_⟩
  obtain ⟨_, _, _, succeeds⟩ := getInstance_cases lawful consistent.wellStored type access outside
  rw [succeeds, consistent.checked, ← firstCheck_snoc]
  -- what is registered exists already
  have constructible : before.Registered type → before.Constructible type outside := by
    rintro ⟨object, exists_now, _⟩
    exact ⟨object, by simp [buildInstance, exists_now]⟩
  tauto

theorem exists_run (calls : List (StaticCall store)) : ∃ taken,
    Run Step (init store) taken (calls.foldl execute (init store)) ∧ taken.map Prod.snd = calls := by
  induction calls using List.reverseRecOn with
  | nil => exact ⟨[], .nil, rfl⟩
  | append_singleton calls call inductionHypothesis =>
    obtain ⟨taken, run, isCalls⟩ := inductionHypothesis
    refine ⟨taken ++ [(calls.foldl execute (init store), call)], ?_, by simp [isCalls]⟩
    rw [List.foldl_concat]
    exact run.snoc rfl

end StaticState

open StaticState

/-- In every process, for keys and for certificates: an object is registered when a call of `Register` for
    its class has returned, and `GetInstance` succeeds if and only if the object is registered just when
    the first check of the process has found what a check of this object would have to find. -/
theorem registration_checked_once (names : Nat → String) :
    (∀ taken final, Run Step (init (Keyring.staticStore names)) taken final → CheckedAtUse taken) ∧
    ∀ taken final, Run Step (init (CertStore.staticStore names)) taken final → CheckedAtUse taken :=
  ⟨fun _ _ run => checkedAtUse_of_run (Keyring.lawful names) run,
    fun _ _ run => checkedAtUse_of_run (CertStore.lawful names) run⟩

/-- A key of each class, and exports that succeed. -/
def keyOf (value : Fin 256) : KeyOutside := ⟨.ok (.replicate 32 value), .ok ()⟩

def keyNames : Nat → String := fun address => if address = 0 then "Secp256r1" else "Tls"

abbrev keyringProcess : StaticStore := Keyring.staticStore keyNames

abbrev certProcess : StaticStore := CertStore.staticStore keyNames

/-- The first key is registered and used. -/
def usedOnce : List (StaticCall keyringProcess) :=
  [.register 0 (keyOf 7), .getInstance 0 .getInstance (keyOf 7)]

/-- The first key is used too early, and registered then. -/
def usedEarly : List (StaticCall keyringProcess) :=
  [.getInstance 0 .getKey (keyOf 7), .register 0 (keyOf 7)]

/-- The first key is registered, and the first check is one of it. -/
theorem registration_checked_once_of_first_use :
    let before := (init keyringProcess).execute (.register 0 (keyOf 7))
    Run Step (init keyringProcess) [(init keyringProcess, .register 0 (keyOf 7))] before ∧
      before.Registered 0 ∧ ∃ value, (before.getInstance 0 .getKey (keyOf 7)).2 = .ok value := by
  intro before
  have run : Run Step (init keyringProcess) [(init keyringProcess, .register 0 (keyOf 7))] before :=
    Run.nil.snoc rfl
  have registered : before.Registered 0 :=
    ⟨⟨0, "Secp256r1", .replicate 32 7⟩, rfl, ⟨by decide +kernel, by decide +kernel⟩⟩
  have used : Step before (.getInstance 0 .getKey (keyOf 7))
      (before.execute (.getInstance 0 .getKey (keyOf 7))) := rfl
  obtain ⟨_, meets⟩ := (registration_checked_once keyNames).1 _ _ (run.snoc used) _ before 0 .getKey
    (keyOf 7) [] rfl
  have found : firstCheck ([(init keyringProcess, .register 0 (keyOf 7))] ++
      [(before, .getInstance 0 .getKey (keyOf 7))]) = some true := rfl
  exact ⟨run, registered, (meets.mpr fun _ => iff_of_true found registered).mpr registered⟩

/-- A key that is not registered is handed out, and one that is registered is refused; the same for
    certificates. -/
theorem registration_not_checked :
    (∃ earlier before value, Run Step (init keyringProcess) earlier before ∧
      (before.getInstance 1 .getKey (keyOf 8)).2 = .ok value ∧ ¬ before.Registered 1) ∧
    (∃ earlier before error, Run Step (init keyringProcess) earlier before ∧
      (before.getInstance 0 .getKey (keyOf 7)).2 = .error error ∧ before.Registered 0) ∧
    (∃ earlier before value, Run Step (init certProcess) earlier before ∧
      (before.getInstance 1 .fetch ()).2 = .ok value ∧ ¬ before.Registered 1) ∧
    ∃ earlier before error, Run Step (init certProcess) earlier before ∧
      (before.getInstance 0 .fetch ()).2 = .error error ∧ before.Registered 0 := by
  refine ⟨?_, ?_, ?_, ?_⟩
  · obtain ⟨taken, run, _⟩ := exists_run usedOnce
    refine ⟨taken, _, ⟨1, "Tls", .replicate 32 8⟩, run, rfl, ?_⟩
    rintro ⟨_, exists_now, _⟩
    cases exists_now
  · obtain ⟨taken, run, _⟩ := exists_run usedEarly
    refine ⟨taken, _, _, run, rfl, ⟨0, "Secp256r1", .replicate 32 7⟩, rfl, ?_⟩
    exact ⟨by decide +kernel, by decide +kernel⟩
  · obtain ⟨taken, run, _⟩ := @exists_run certProcess [.register 0 (), .getInstance 0 .fetch ()]
    refine ⟨taken, _, _, run, rfl, ?_⟩
    rintro ⟨_, exists_now, _⟩
    cases exists_now
  · obtain ⟨taken, run, _⟩ := @exists_run certProcess [.getInstance 0 .fetch (), .register 0 ()]
    exact ⟨taken, _, _, run, rfl, ⟨0, "Secp256r1"⟩, rfl, rfl⟩

end Decentagram.DecentEnclave
