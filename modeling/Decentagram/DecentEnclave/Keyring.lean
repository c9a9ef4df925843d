import Decentagram.Lib.Interleaving
import Decentagram.Lib.OrderedMap
import Decentagram.Lib.UnorderedMap
import Mathlib.Data.List.Lex
import Mathlib.Order.Fin.Basic

/-! # The keyring

`Keyring` as an interleaved program.  An atomic step of a call is one access to the lock flag, to the
mutex or to one of the two maps, so the loop of `GenKeyHashList` takes a step for every key it visits.
`GenHash` hashes the list that its own call of `GenKeyHashList` returns.
-/

namespace Decentagram.DecentEnclave

open Decentagram.Lib

/-- Bytes, which are compared lexicographically. -/
abbrev MappedKeyHashType := List (Fin 256)

structure KeyringKey where
  /-- The object that the maps refer to. -/
  address : Nat
  name : String
  keySha256 : Vector (Fin 256) 32
deriving DecidableEq, Repr

def KeyringKey.keyHashBytes (key : KeyringKey) : MappedKeyHashType := key.keySha256.toList

structure Keyring where
  isLocked : Bool
  /-- Whether a call holds the mutex. -/
  mapMutex : Bool
  keyNameMap : UnorderedMap String KeyringKey
  keyHashMap : OrderedMap MappedKeyHashType KeyringKey

/-- Where a `RegisterKey` stands; `unlockMutex` knows whether the call leaves by an exception. -/
inductive RegisterKeyStage where
  | lockMutex
  | checkIsLocked
  | getKeySha256
  | findName
  | findHash
  | emplaceName
  | emplaceHash
  | unlockMutex (succeeded : Bool)
  | returned
  | threw
deriving DecidableEq, Repr

/-- Where a `GenKeyHashList` stands: the iterator of its loop is the entry that it stands at. -/
inductive GenKeyHashListStage where
  | loadIsLocked
  | lockMutex
  | storeIsLocked
  | unlockMutex
  | begin
  | visit (it : Option (MappedKeyHashType × KeyringKey)) (res : List (Fin 256))
  | returned (res : List (Fin 256))
deriving DecidableEq, Repr

inductive KeyringCall where
  | registerKey (key : KeyringKey) (stage : RegisterKeyStage)
  | genKeyHashList (stage : GenKeyHashListStage)
deriving DecidableEq, Repr

namespace Keyring

def init : Keyring where
  isLocked := false
  mapMutex := false
  keyNameMap := ∅
  keyHashMap := .empty

/-- A step of `RegisterKey`.  Exporting the key or hashing it can fail. -/
def registerKey (keyring : Keyring) (key : KeyringKey) (hashFails : Bool) :
    RegisterKeyStage → Option (Keyring × RegisterKeyStage)
  | .lockMutex =>
    if keyring.mapMutex then none else some ({ keyring with mapMutex := true }, .checkIsLocked)
  | .checkIsLocked => some (keyring, if keyring.isLocked then .unlockMutex false else .getKeySha256)
  | .getKeySha256 => some (keyring, if hashFails then .unlockMutex false else .findName)
  | .findName =>
    some (keyring, if key.name ∈ keyring.keyNameMap then .unlockMutex false else .findHash)
  | .findHash =>
    some (keyring,
      if keyring.keyHashMap.Contains key.keyHashBytes then .unlockMutex false else .emplaceName)
  | .emplaceName =>
    some ({ keyring with keyNameMap := keyring.keyNameMap.emplace key.name key }, .emplaceHash)
  | .emplaceHash =>
    some ({ keyring with keyHashMap := keyring.keyHashMap.emplace key.keyHashBytes key },
      .unlockMutex true)
  | .unlockMutex succeeded =>
    some ({ keyring with mapMutex := false }, if succeeded then .returned else .threw)
  | .returned => none
  | .threw => none

/-- A step of `GenKeyHashList`, with `LockKeyringIfNot` and `LockKeyring`. -/
def genKeyHashList (keyring : Keyring) :
    GenKeyHashListStage → Option (Keyring × GenKeyHashListStage)
  | .loadIsLocked => some (keyring, if keyring.isLocked then .begin else .lockMutex)
  | .lockMutex =>
    if keyring.mapMutex then none else some ({ keyring with mapMutex := true }, .storeIsLocked)
  | .storeIsLocked => some ({ keyring with isLocked := true }, .unlockMutex)
  | .unlockMutex => some ({ keyring with mapMutex := false }, .begin)
  | .begin => some (keyring, .visit keyring.keyHashMap.first [])
  | .visit (some entry) res =>
    some (keyring, .visit (keyring.keyHashMap.next entry) (res ++ entry.1))
  | .visit none res => some (keyring, .returned res)
  | .returned _ => none

/-- The next step of a call. -/
def next (keyring : Keyring) (call : KeyringCall) (hashFails : Bool) :
    Option (Keyring × KeyringCall) :=
  match call with
  | .registerKey key stage =>
    (keyring.registerKey key hashFails stage).map fun (keyring, stage) =>
      (keyring, .registerKey key stage)
  | .genKeyHashList stage =>
    (keyring.genKeyHashList stage).map fun (keyring, stage) => (keyring, .genKeyHashList stage)

end Keyring

inductive KeyringEvent where
  | registerKey (key : KeyringKey)
  | genKeyHashList
deriving DecidableEq, Repr

/-- A member function is called. -/
def Keyring.event (keyring : Keyring) : KeyringEvent → Option (Keyring × List KeyringCall)
  | .registerKey key => some (keyring, [.registerKey key .lockMutex])
  | .genKeyHashList => some (keyring, [.genKeyHashList .loadIsLocked])

abbrev KeyringPool := Pool Keyring KeyringCall

abbrev KeyringTurn := Turn Bool KeyringEvent

def keyringProgram : Program Keyring KeyringCall Bool KeyringEvent where
  next := Keyring.next
  event := Keyring.event

namespace KeyringPool

def init : KeyringPool := { shared := .init, calls := [] }

/-- A call of `GenKeyHashList` has returned the list. -/
def ListReturned (pool : KeyringPool) (list : List (Fin 256)) : Prop :=
  .genKeyHashList (.returned list) ∈ pool.calls

/-- The call of `RegisterKey` at the index has returned without an exception. -/
def KeyRegistered (pool : KeyringPool) (index : Nat) (key : KeyringKey) : Prop :=
  pool.calls[index]? = some (.registerKey key .returned)

/-- A call has put the key into the name map and not yet into the hash map. -/
def BetweenEmplaces (pool : KeyringPool) (key : KeyringKey) : Prop :=
  .registerKey key .emplaceHash ∈ pool.calls

end KeyringPool

namespace Keyring

/-- The keys that the name map refers to. -/
def keysByName (keyring : Keyring) : List KeyringKey := keyring.keyNameMap.entries.map Sigma.snd

/-- The keys that the hash map refers to, in the order of the map. -/
def keysByHash (keyring : Keyring) : List KeyringKey := keyring.keyHashMap.entries.map Prod.snd

/-- The hashes of all keys, in the order of the map. -/
def hashList (keyring : Keyring) : List (Fin 256) := keyring.keyHashMap.entries.flatMap Prod.fst

/-- Both maps refer to the key, each under what it is looked up by. -/
structure IsRegistered (keyring : Keyring) (key : KeyringKey) : Prop where
  byName : keyring.keyNameMap.lookup key.name = some key
  byHash : (key.keyHashBytes, key) ∈ keyring.keyHashMap.entries

/-- What a call may leave as it is: everything but the mutex. -/
structure SameContent (before after : Keyring) : Prop where
  isLocked : after.isLocked = before.isLocked
  keyNameMap : after.keyNameMap = before.keyNameMap
  keyHashMap : after.keyHashMap = before.keyHashMap

/-- The maps only refer to keys by their own names and hashes, and no key has a hash without a name. -/
structure WellIndexed (keyring : Keyring) : Prop where
  named : ∀ name key, keyring.keyNameMap.lookup name = some key → key.name = name
  hashed : ∀ entry ∈ keyring.keyHashMap.entries, entry.1 = entry.2.keyHashBytes
  listed : ∀ entry ∈ keyring.keyHashMap.entries,
    keyring.keyNameMap.lookup entry.2.name = some entry.2

end Keyring

namespace KeyringCall

/-- Whether the call holds the mutex. -/
def holdsMutex : KeyringCall → Bool
  | .registerKey _ .lockMutex => false
  | .registerKey _ .returned => false
  | .registerKey _ .threw => false
  | .registerKey _ _ => true
  | .genKeyHashList .storeIsLocked => true
  | .genKeyHashList .unlockMutex => true
  | .genKeyHashList _ => false

/-- What a call knows of the keyring where it stands.  A registration that passed the check of the flag
    knows that it is still clear, and an iteration that it was set. -/
def Knows (keyring : Keyring) : KeyringCall → Prop
  | .registerKey _ .getKeySha256 => keyring.isLocked = false
  | .registerKey _ .findName => keyring.isLocked = false
  | .registerKey key .findHash => keyring.isLocked = false ∧ key.name ∉ keyring.keyNameMap
  | .registerKey key .emplaceName =>
    keyring.isLocked = false ∧ key.name ∉ keyring.keyNameMap ∧
      ¬ keyring.keyHashMap.Contains key.keyHashBytes
  | .registerKey key .emplaceHash =>
    keyring.isLocked = false ∧ keyring.keyNameMap.lookup key.name = some key ∧
      ¬ keyring.keyHashMap.Contains key.keyHashBytes
  | .registerKey key (.unlockMutex true) => keyring.isLocked = false ∧ keyring.IsRegistered key
  | .registerKey key .returned => keyring.IsRegistered key
  | .registerKey _ _ => True
  | .genKeyHashList .unlockMutex => keyring.isLocked = true
  | .genKeyHashList .begin => keyring.isLocked = true
  | .genKeyHashList (.visit it res) =>
    keyring.isLocked = true ∧
      res ++ (keyring.keyHashMap.left it).flatMap Prod.fst = keyring.hashList
  | .genKeyHashList (.returned res) => keyring.isLocked = true ∧ res = keyring.hashList
  | .genKeyHashList _ => True

end KeyringCall

/-- The steps that calls can take, each with what it has found. -/
inductive Keyring.Step (keyring : Keyring) : KeyringCall → Keyring → KeyringCall → Prop where
  | enter {key} (free : keyring.mapMutex = false) :
      keyring.Step (.registerKey key .lockMutex) { keyring with mapMutex := true }
        (.registerKey key .checkIsLocked)
  | refuse {key} (locked : keyring.isLocked = true) :
      keyring.Step (.registerKey key .checkIsLocked) keyring (.registerKey key (.unlockMutex false))
  | accept {key} (unlocked : keyring.isLocked = false) :
      keyring.Step (.registerKey key .checkIsLocked) keyring (.registerKey key .getKeySha256)
  | hashFails {key} :
      keyring.Step (.registerKey key .getKeySha256) keyring (.registerKey key (.unlockMutex false))
  | hash {key} : keyring.Step (.registerKey key .getKeySha256) keyring (.registerKey key .findName)
  | nameTaken {key} (taken : key.name ∈ keyring.keyNameMap) :
      keyring.Step (.registerKey key .findName) keyring (.registerKey key (.unlockMutex false))
  | nameFree {key} (fresh : key.name ∉ keyring.keyNameMap) :
      keyring.Step (.registerKey key .findName) keyring (.registerKey key .findHash)
  | hashTaken {key} (taken : keyring.keyHashMap.Contains key.keyHashBytes) :
      keyring.Step (.registerKey key .findHash) keyring (.registerKey key (.unlockMutex false))
  | hashFree {key} (fresh : ¬ keyring.keyHashMap.Contains key.keyHashBytes) :
      keyring.Step (.registerKey key .findHash) keyring (.registerKey key .emplaceName)
  | emplaceName {key} :
      keyring.Step (.registerKey key .emplaceName)
        { keyring with keyNameMap := keyring.keyNameMap.emplace key.name key }
        (.registerKey key .emplaceHash)
  | emplaceHash {key} :
      keyring.Step (.registerKey key .emplaceHash)
        { keyring with keyHashMap := keyring.keyHashMap.emplace key.keyHashBytes key }
        (.registerKey key (.unlockMutex true))
  | returns {key} :
      keyring.Step (.registerKey key (.unlockMutex true)) { keyring with mapMutex := false }
        (.registerKey key .returned)
  | throws {key} :
      keyring.Step (.registerKey key (.unlockMutex false)) { keyring with mapMutex := false }
        (.registerKey key .threw)
  | seesLocked (locked : keyring.isLocked = true) :
      keyring.Step (.genKeyHashList .loadIsLocked) keyring (.genKeyHashList .begin)
  | seesUnlocked (unlocked : keyring.isLocked = false) :
      keyring.Step (.genKeyHashList .loadIsLocked) keyring (.genKeyHashList .lockMutex)
  | enterToLock (free : keyring.mapMutex = false) :
      keyring.Step (.genKeyHashList .lockMutex) { keyring with mapMutex := true }
        (.genKeyHashList .storeIsLocked)
  | lockKeyring :
      keyring.Step (.genKeyHashList .storeIsLocked) { keyring with isLocked := true }
        (.genKeyHashList .unlockMutex)
  | leaveLocked :
      keyring.Step (.genKeyHashList .unlockMutex) { keyring with mapMutex := false }
        (.genKeyHashList .begin)
  | begin :
      keyring.Step (.genKeyHashList .begin) keyring
        (.genKeyHashList (.visit keyring.keyHashMap.first []))
  | visit {entry res} :
      keyring.Step (.genKeyHashList (.visit (some entry) res)) keyring
        (.genKeyHashList (.visit (keyring.keyHashMap.next entry) (res ++ entry.1)))
  | finish {res} :
      keyring.Step (.genKeyHashList (.visit none res)) keyring (.genKeyHashList (.returned res))

namespace Keyring

variable {keyring keyring' : Keyring} {call call' : KeyringCall} {hashFails : Bool}

theorem step_of_registerKey {key : KeyringKey} {stage stage' : RegisterKeyStage}
    (step : keyring.registerKey key hashFails stage = some (keyring', stage')) :
    keyring.Step (.registerKey key stage) keyring' (.registerKey key stage') := by
  cases stage with
  | lockMutex =>
    simp only [registerKey, Option.ite_none_left_eq_some, Bool.not_eq_true] at step
    obtain ⟨free, step⟩ := step
    cases step
    exact .enter free
  | checkIsLocked =>
    cases step
    by_cases locked : keyring.isLocked = true
    · rw [if_pos locked]
      exact .refuse locked
    · rw [if_neg locked]
      exact .accept (Bool.not_eq_true _ ▸ locked)
  | getKeySha256 =>
    cases step
    cases hashFails with
    | true => exact .hashFails
    | false => exact .hash
  | findName =>
    cases step
    split
    next taken => exact .nameTaken taken
    next fresh => exact .nameFree fresh
  | findHash =>
    cases step
    split
    next taken => exact .hashTaken taken
    next fresh => exact .hashFree fresh
  | emplaceName =>
    cases step
    exact .emplaceName
  | emplaceHash =>
    cases step
    exact .emplaceHash
  | unlockMutex succeeded =>
    cases step
    cases succeeded with
    | true => exact .returns
    | false => exact .throws
  | returned => cases step
  | threw => cases step

theorem step_of_genKeyHashList {stage stage' : GenKeyHashListStage}
    (step : keyring.genKeyHashList stage = some (keyring', stage')) :
    keyring.Step (.genKeyHashList stage) keyring' (.genKeyHashList stage') := by
  cases stage with
  | loadIsLocked =>
    cases step
    by_cases locked : keyring.isLocked = true
    · rw [if_pos locked]
      exact .seesLocked locked
    · rw [if_neg locked]
      exact .seesUnlocked (Bool.not_eq_true _ ▸ locked)
  | lockMutex =>
    simp only [genKeyHashList, Option.ite_none_left_eq_some, Bool.not_eq_true] at step
    obtain ⟨free, step⟩ := step
    cases step
    exact .enterToLock free
  | storeIsLocked =>
    cases step
    exact .lockKeyring
  | unlockMutex =>
    cases step
    exact .leaveLocked
  | begin =>
    cases step
    exact .begin
  | visit it res =>
    cases it with
    | none =>
      cases step
      exact .finish
    | some entry =>
      cases step
      exact .visit
  | returned res => cases step

theorem step_of_next (step : keyring.next call hashFails = some (keyring', call')) :
    keyring.Step call keyring' call' := by
  cases call with
  | registerKey key stage =>
    obtain ⟨⟨keyring'', stage'⟩, stepped, returned⟩ := Option.map_eq_some_iff.mp step
    cases returned
    exact step_of_registerKey stepped
  | genKeyHashList stage =>
    obtain ⟨⟨keyring'', stage'⟩, stepped, returned⟩ := Option.map_eq_some_iff.mp step
    cases returned
    exact step_of_genKeyHashList stepped

namespace Step

/-- The mutex is taken when it is free, and released by the call that holds it. -/
theorem balanced (step : keyring.Step call keyring' call')
    (holder : call.holdsMutex = true → keyring.mapMutex = true) :
    call'.holdsMutex.toNat + keyring.mapMutex.toNat =
      call.holdsMutex.toNat + keyring'.mapMutex.toNat := by
  cases step <;> simp_all [KeyringCall.holdsMutex]

/-- A step outside of the mutex changes no content. -/
theorem outside (step : keyring.Step call keyring' call') (outside : call.holdsMutex = false) :
    keyring.SameContent keyring' := by
  cases step <;> first | exact ⟨rfl, rfl, rfl⟩ | simp [KeyringCall.holdsMutex] at outside

/-- Nor does any step once the flag is set. -/
theorem frozen (step : keyring.Step call keyring' call') (knows : call.Knows keyring)
    (locked : keyring.isLocked = true) : keyring.SameContent keyring' := by
  cases step <;> first | exact ⟨rfl, rfl, rfl⟩ | simp_all [KeyringCall.Knows]
  case lockKeyring => exact ⟨locked.symm, rfl, rfl⟩

/-- A key stays registered. -/
theorem isRegistered (step : keyring.Step call keyring' call') (knows : call.Knows keyring)
    {key : KeyringKey} (registered : keyring.IsRegistered key) : keyring'.IsRegistered key := by
  obtain ⟨byName, byHash⟩ := registered
  cases step with
  | emplaceName => exact ⟨UnorderedMap.lookup_emplace_of_some _ _ byName, byHash⟩
  | emplaceHash => exact ⟨byName, (OrderedMap.mem_emplace knows.2.2).mpr (.inr byHash)⟩
  | _ => exact ⟨byName, byHash⟩

/-- What a step does to the maps keeps them well indexed. -/
theorem wellIndexed (step : keyring.Step call keyring' call') (knows : call.Knows keyring)
    (indexed : keyring.WellIndexed) : keyring'.WellIndexed := by
  obtain ⟨named, hashed, listed⟩ := indexed
  cases step with
  | @emplaceName key =>
    refine ⟨fun name key' looked => ?_, hashed, fun entry member =>
      UnorderedMap.lookup_emplace_of_some _ _ (listed entry member)⟩
    cases UnorderedMap.lookup_emplace looked with
    | inl old => exact named name key' old
    | inr new => rw [new.1, new.2]
  | @emplaceHash key =>
    have entries {entry : MappedKeyHashType × KeyringKey} :
        entry ∈ (keyring.keyHashMap.emplace key.keyHashBytes key).entries ↔
          entry = (key.keyHashBytes, key) ∨ entry ∈ keyring.keyHashMap.entries :=
      OrderedMap.mem_emplace knows.2.2
    refine ⟨named, fun entry member => ?_, fun entry member => ?_⟩
    · cases entries.mp member with
      | inl new => rw [new]
      | inr old => exact hashed entry old
    · cases entries.mp member with
      | inl new => rw [new]; exact knows.2.1
      | inr old => exact listed entry old
  | _ => exact ⟨named, hashed, listed⟩

/-- What the call that takes the step knows after it. -/
theorem knows (step : keyring.Step call keyring' call') (knows : call.Knows keyring) :
    call'.Knows keyring' := by
  cases step with
  | accept unlocked => exact unlocked
  | hash => exact knows
  | nameFree fresh => exact ⟨knows, fresh⟩
  | hashFree fresh => exact ⟨knows.1, knows.2, fresh⟩
  | @emplaceName key =>
    obtain ⟨unlocked, freshName, freshHash⟩ := knows
    refine ⟨unlocked, ?_, freshHash⟩
    show (UnorderedMap.emplace _ _ _).lookup key.name = some key
    rw [UnorderedMap.emplace, if_neg freshName]
    exact AList.lookup_insert _
  | @emplaceHash key =>
    obtain ⟨unlocked, looked, freshHash⟩ := knows
    exact ⟨unlocked, looked, (OrderedMap.mem_emplace freshHash).mpr (.inl rfl)⟩
  | returns => exact ⟨knows.2.byName, knows.2.byHash⟩
  | seesLocked locked => exact locked
  | lockKeyring => exact rfl
  | leaveLocked => exact knows
  | begin => exact ⟨knows, by rw [OrderedMap.left_first]; rfl⟩
  | @visit entry res =>
    obtain ⟨locked, visited⟩ := knows
    refine ⟨locked, ?_⟩
    rw [← visited, OrderedMap.left_next, List.flatMap_cons, List.append_assoc]
  | @finish res =>
    obtain ⟨locked, visited⟩ := knows
    exact ⟨locked, by simpa using visited⟩
  | _ => trivial

end Step

/-- What a call knows does not depend on the mutex. -/
theorem SameContent.knows (same : keyring.SameContent keyring') (knows : call.Knows keyring) :
    call.Knows keyring' := by
  obtain ⟨isLocked, mapMutex, keyNameMap, keyHashMap⟩ := keyring'
  obtain ⟨rfl, rfl, rfl⟩ := same
  cases call with
  | registerKey key stage =>
    cases stage with
    | unlockMutex succeeded =>
      cases succeeded with
      | true => exact ⟨knows.1, knows.2.byName, knows.2.byHash⟩
      | false => trivial
    | returned => exact ⟨knows.byName, knows.byHash⟩
    | _ => exact knows
  | genKeyHashList stage => cases stage <;> exact knows

/-- A step of one call leaves true what another call knows, unless both hold the mutex. -/
theorem Step.others (step : keyring.Step call keyring' call') (knows : call.Knows keyring)
    {other : KeyringCall} (knowsOther : other.Knows keyring)
    (apart : ¬ (call.holdsMutex = true ∧ other.holdsMutex = true)) : other.Knows keyring' := by
  by_cases holder : call.holdsMutex = true
  · have outside : other.holdsMutex = false := by simpa [holder] using apart
    cases other with
    | registerKey key stage =>
      cases stage with
      | returned => exact step.isRegistered knows knowsOther
      | lockMutex => trivial
      | threw => trivial
      | _ => simp [KeyringCall.holdsMutex] at outside
    | genKeyHashList stage =>
      cases stage with
      | loadIsLocked => trivial
      | lockMutex => trivial
      | storeIsLocked => simp [KeyringCall.holdsMutex] at outside
      | unlockMutex => simp [KeyringCall.holdsMutex] at outside
      -- whoever iterates knows that the flag is set
      | begin => exact (step.frozen knows knowsOther).knows knowsOther
      | visit it res => exact (step.frozen knows knowsOther.1).knows knowsOther
      | returned res => exact (step.frozen knows knowsOther.1).knows knowsOther
  · exact (step.outside (Bool.not_eq_true _ ▸ holder)).knows knowsOther

end Keyring

/-- A call starts outside of the mutex and knows nothing. -/
theorem Keyring.event_eq {keyring keyring' : Keyring} {event : KeyringEvent}
    {started : List KeyringCall} (happened : keyring.event event = some (keyring', started)) :
    keyring' = keyring ∧ ∀ call ∈ started, call.holdsMutex = false ∧ ∀ known, call.Knows known := by
  cases event <;> cases happened <;> simp [KeyringCall.holdsMutex, KeyringCall.Knows]

namespace KeyringPool

/-- What holds of the keyring and its calls at all times. -/
structure Consistent (pool : KeyringPool) : Prop where
  exclusive : pool.Exclusive Keyring.mapMutex KeyringCall.holdsMutex
  holds : pool.Holds Keyring.WellIndexed fun keyring call => call.Knows keyring
  complete : ∀ key, pool.shared.keyNameMap.lookup key.name = some key →
    (key.keyHashBytes, key) ∈ pool.shared.keyHashMap.entries ∨ pool.BetweenEmplaces key

theorem consistent_init : Consistent init where
  exclusive := rfl
  holds := {
    shared := {
      named := fun _ _ looked => by cases looked
      hashed := fun _ member => by cases member
      listed := fun _ member => by cases member }
    calls := fun _ member => by cases member }
  complete := fun _ looked => by cases looked

variable {before after : KeyringPool} {turn : KeyringTurn}

/-- The call of a step leaves its place to what it becomes; the others stay. -/
theorem mem_set_of_mem {calls : List KeyringCall} {index : Nat} {call call' other : KeyringCall}
    (found : calls[index]? = some call) (member : other ∈ calls) :
    other = call ∨ other ∈ calls.set index call' := by
  obtain ⟨place, foundOther⟩ := List.mem_iff_getElem?.mp member
  by_cases same : index = place
  · subst same
    exact .inl (Option.some.inj (foundOther.symm.trans found))
  · exact .inr (List.mem_of_getElem? ((List.getElem?_set_ne same).trans foundOther))

/-- A key that has its name in the map gets its hash there from the same call. -/
theorem complete_step (consistent : Consistent before) (step : keyringProgram.Step before turn after)
    (key : KeyringKey) (looked : after.shared.keyNameMap.lookup key.name = some key) :
    (key.keyHashBytes, key) ∈ after.shared.keyHashMap.entries ∨ after.BetweenEmplaces key := by
  cases keyringProgram.step_cases step with
  | inl steps =>
    obtain ⟨index, hashFails, call, keyring, call', -, found, next, rfl⟩ := steps
    have knows := consistent.holds.calls call (List.mem_of_getElem? found)
    obtain ⟨inRange, -⟩ := List.getElem?_eq_some_iff.mp found
    have becomes : call' ∈ before.calls.set index call' := List.mem_set inRange call'
    have old (stored : before.shared.keyNameMap.lookup key.name = some key)
        (unfinished : call ≠ .registerKey key .emplaceHash) :
        (key.keyHashBytes, key) ∈ before.shared.keyHashMap.entries ∨
          KeyringPool.BetweenEmplaces ⟨keyring, before.calls.set index call'⟩ key := by
      refine (consistent.complete key stored).imp_right fun between => ?_
      exact (mem_set_of_mem found between).resolve_left unfinished.symm
    cases Keyring.step_of_next next with
    | @emplaceName newKey =>
      cases UnorderedMap.lookup_emplace looked with
      | inl stored => exact old stored (by simp)
      | inr new =>
        obtain ⟨-, rfl⟩ := new
        exact .inr becomes
    | @emplaceHash newKey =>
      have entries {entry : MappedKeyHashType × KeyringKey} :
          entry ∈ (before.shared.keyHashMap.emplace newKey.keyHashBytes newKey).entries ↔
            entry = (newKey.keyHashBytes, newKey) ∨ entry ∈ before.shared.keyHashMap.entries :=
        OrderedMap.mem_emplace knows.2.2
      by_cases same : key = newKey
      · subst same
        exact .inl (entries.mpr (.inl rfl))
      · have stored := old looked fun isCall => same (by cases isCall; rfl)
        exact stored.imp_left fun member => entries.mpr (.inr member)
    | _ => exact old looked (by simp)
  | inr happens =>
    obtain ⟨event, keyring, started, -, happened, rfl⟩ := happens
    obtain ⟨rfl, -⟩ := Keyring.event_eq happened
    exact (consistent.complete key looked).imp_right fun between =>
      List.mem_append.mpr (.inl between)

theorem consistent_step (consistent : Consistent before)
    (step : keyringProgram.Step before turn after) : Consistent after where
  exclusive := by
    refine consistent.exclusive.step step (fun _ _ _ holder next => ?_) fun event started happened => ?_
    · exact (Keyring.step_of_next next).balanced holder
    · obtain ⟨unchanged, outside⟩ := Keyring.event_eq happened
      exact ⟨congrArg _ unchanged, fun call member => (outside call member).1⟩
  holds := by
    refine consistent.holds.step_of_exclusive consistent.exclusive step
      (fun _ _ _ knows next => ?_) (fun _ _ _ _ knows next knowsOther apart => ?_)
      fun event started happened => ?_
    · have taken := Keyring.step_of_next next
      exact ⟨taken.wellIndexed knows consistent.holds.shared, taken.knows knows⟩
    · exact (Keyring.step_of_next next).others knows knowsOther apart
    · obtain ⟨unchanged, outside⟩ := Keyring.event_eq happened
      rw [unchanged]
      exact ⟨consistent.holds.shared, fun call member => (outside call member).2 _,
        fun _ knows => knows⟩
  complete := complete_step consistent step

theorem consistent_of_run {taken : List (KeyringPool × KeyringTurn)} {final : KeyringPool}
    (run : Run keyringProgram.Step init taken final) : Consistent final :=
  run.invariant (fun _ _ => True) (fun _ pool => Consistent pool) consistent_init
    (fun _ _ _ _ consistent _ step => consistent_step consistent step) fun _ _ => trivial

variable {pool : KeyringPool}

theorem Consistent.knows (consistent : Consistent pool) {call : KeyringCall}
    (member : call ∈ pool.calls) : call.Knows pool.shared :=
  consistent.holds.calls call member

theorem Consistent.mem_keysByName_iff (consistent : Consistent pool) {key : KeyringKey} :
    key ∈ pool.shared.keysByName ↔ pool.shared.keyNameMap.lookup key.name = some key := by
  simp only [Keyring.keysByName, List.mem_map]
  constructor
  · rintro ⟨⟨name, _⟩, member, rfl⟩
    have looked := AList.mem_lookup_iff.mpr member
    rwa [consistent.holds.shared.named name _ looked]
  · intro looked
    exact ⟨⟨key.name, key⟩, AList.mem_lookup_iff.mp looked, rfl⟩

theorem Consistent.mem_keysByHash_iff (consistent : Consistent pool) {key : KeyringKey} :
    key ∈ pool.shared.keysByHash ↔ (key.keyHashBytes, key) ∈ pool.shared.keyHashMap.entries := by
  simp only [Keyring.keysByHash, List.mem_map]
  constructor
  · rintro ⟨⟨hash, _⟩, member, rfl⟩
    have hashed := consistent.holds.shared.hashed _ member
    exact hashed ▸ member
  · intro member
    exact ⟨_, member, rfl⟩

/-- The hash map refers to the keys of the name map but for the one that is still to be put in. -/
theorem Consistent.mem_keysByHash_iff_keysByName (consistent : Consistent pool) {key : KeyringKey} :
    key ∈ pool.shared.keysByHash ↔ key ∈ pool.shared.keysByName ∧ ¬ pool.BetweenEmplaces key := by
  rw [consistent.mem_keysByHash_iff, consistent.mem_keysByName_iff]
  constructor
  · intro member
    refine ⟨consistent.holds.shared.listed _ member, fun between => ?_⟩
    obtain ⟨-, -, fresh⟩ := consistent.knows between
    exact fresh ⟨_, member, rfl⟩
  · rintro ⟨looked, settled⟩
    exact (consistent.complete key looked).resolve_right settled

theorem Consistent.nodup_names (consistent : Consistent pool) :
    (pool.shared.keysByName.map KeyringKey.name).Nodup := by
  have keys : pool.shared.keysByName.map KeyringKey.name = pool.shared.keyNameMap.keys := by
    rw [Keyring.keysByName, List.map_map]
    refine List.map_congr_left fun entry member => ?_
    exact consistent.holds.shared.named entry.1 entry.2 (AList.mem_lookup_iff.mpr member)
  rw [keys]
  exact pool.shared.keyNameMap.nodupKeys

/-- Keys of one hash are one key, also while one of them is still to be put into the hash map. -/
theorem Consistent.eq_of_hash (consistent : Consistent pool) {left right : KeyringKey}
    (leftNamed : left ∈ pool.shared.keysByName) (rightNamed : right ∈ pool.shared.keysByName)
    (sameHash : left.keySha256 = right.keySha256) : left = right := by
  have sameBytes : left.keyHashBytes = right.keyHashBytes :=
    congrArg Vector.toList sameHash
  have stored {key : KeyringKey} (named : key ∈ pool.shared.keysByName) :=
    consistent.complete key (consistent.mem_keysByName_iff.mp named)
  cases stored leftNamed with
  | inl leftIn =>
    cases stored rightNamed with
    | inl rightIn =>
      have same := List.inj_on_of_nodup_map pool.shared.keyHashMap.nodup_keys leftIn rightIn sameBytes
      exact congrArg Prod.snd same
    | inr rightBetween =>
      obtain ⟨-, -, fresh⟩ := consistent.knows rightBetween
      exact (fresh ⟨_, leftIn, sameBytes⟩).elim
  | inr leftBetween =>
    cases stored rightNamed with
    | inl rightIn =>
      obtain ⟨-, -, fresh⟩ := consistent.knows leftBetween
      exact (fresh ⟨_, rightIn, sameBytes.symm⟩).elim
    | inr rightBetween =>
      -- both calls hold the mutex, so they are one call
      obtain ⟨place, found⟩ := List.mem_iff_getElem?.mp leftBetween
      obtain ⟨other, foundOther⟩ := List.mem_iff_getElem?.mp rightBetween
      obtain rfl := consistent.exclusive.unique found foundOther rfl rfl
      cases found.symm.trans foundOther
      rfl

theorem Consistent.nodup_hashes (consistent : Consistent pool) :
    (pool.shared.keysByName.map KeyringKey.keySha256).Nodup :=
  (consistent.nodup_names.of_map _).map_on fun _ leftNamed _ rightNamed sameHash =>
    consistent.eq_of_hash leftNamed rightNamed sameHash

/-- A returned list is the list of all hashes. -/
theorem Consistent.list_eq (consistent : Consistent pool) {list : List (Fin 256)}
    (returned : pool.ListReturned list) : list = pool.shared.hashList :=
  (consistent.knows returned).2

/-- A call that returned a list stays in the pool, and from then on no registration succeeds. -/
theorem Consistent.step_after_list (consistent : Consistent before)
    (step : keyringProgram.Step before turn after) {list : List (Fin 256)}
    (returned : before.ListReturned list) : after.ListReturned list ∧
      ∀ index key, after.KeyRegistered index key → before.KeyRegistered index key := by
  have locked : before.shared.isLocked = true := (consistent.knows returned).1
  cases keyringProgram.step_cases step with
  | inl steps =>
    obtain ⟨index, hashFails, call, keyring, call', -, found, next, rfl⟩ := steps
    have knows := consistent.knows (List.mem_of_getElem? found)
    have taken := Keyring.step_of_next next
    constructor
    · refine (mem_set_of_mem found returned).resolve_left ?_
      rintro rfl
      cases taken
    · intro place key registered
      obtain ⟨inRange, -⟩ := List.getElem?_eq_some_iff.mp found
      by_cases same : index = place
      · subst same
        have becomes : call' = .registerKey key .returned :=
          Option.some.inj ((List.getElem?_set_self inRange).symm.trans registered)
        subst becomes
        cases taken
        -- the call that would return knows that the flag is clear
        have unlocked := knows.1
        simp [locked] at unlocked
      · exact (List.getElem?_set_ne same).symm.trans registered
  | inr happens =>
    obtain ⟨event, keyring, started, -, happened, rfl⟩ := happens
    refine ⟨List.mem_append.mpr (.inl returned), fun index key registered => ?_⟩
    cases Nat.lt_or_ge index before.calls.length with
    | inl old => exact (List.getElem?_append_left old).symm.trans registered
    | inr new =>
      have member := List.mem_of_getElem? ((List.getElem?_append_right new).symm.trans registered)
      cases event <;> cases happened <;> simp at member

/-- What a run does after a list was returned. -/
theorem run_after_list {taken : List (KeyringPool × KeyringTurn)} {final : KeyringPool}
    (run : Run keyringProgram.Step init taken final) :
    ∀ earlier middle turn later, taken = earlier ++ (middle, turn) :: later →
      ∀ list, middle.ListReturned list → final.ListReturned list ∧
        ∀ index key, final.KeyRegistered index key → middle.KeyRegistered index key := by
  refine (run.invariant (fun _ _ => True) (fun taken pool => Consistent pool ∧
    ∀ earlier middle turn later, taken = earlier ++ (middle, turn) :: later →
      ∀ list, middle.ListReturned list → pool.ListReturned list ∧
        ∀ index key, pool.KeyRegistered index key → middle.KeyRegistered index key)
    ⟨consistent_init, fun _ _ _ _ split => by simp at split⟩ ?_ fun _ _ => trivial).2
  intro taken before turn after held _ step
  obtain ⟨consistent, earlierLists⟩ := held
  refine ⟨consistent_step consistent step, fun earlier middle turn' later split list returned => ?_⟩
  rcases List.eq_nil_or_concat later with rfl | ⟨front, last, rfl⟩
  · obtain ⟨-, same⟩ := List.append_inj' split rfl
    cases same
    exact consistent.step_after_list step returned
  · have aligned : taken ++ [(before, turn)] = (earlier ++ (middle, turn') :: front) ++ [last] := by
      rw [split]
      simp
    have splitEarlier := List.append_inj_left' aligned rfl
    obtain ⟨stillReturned, registered⟩ := earlierLists _ _ _ _ splitEarlier list returned
    obtain ⟨inAfter, registeredBefore⟩ := consistent.step_after_list step stillReturned
    exact ⟨inAfter, fun index key now => registered index key (registeredBefore index key now)⟩

theorem exists_run (turns : List KeyringTurn) (property : KeyringPool → Prop)
    [DecidablePred property]
    (reached : (Run.replay keyringProgram.execute turns [] init).any
      (fun reached => decide (property reached.2)) = true) :
    ∃ taken final, Run keyringProgram.Step init taken final ∧ property final :=
  Run.exists_of_replay (fun _ _ _ executed => executed) turns (fun _ pool => property pool) reached

end KeyringPool

open KeyringPool

/-- In every run of registrations and list calls: all lists that were returned are equal; no registration
    succeeds after a list was returned; names and hashes are distinct, and the two maps describe the same
    keys but for the one whose registration is between its two insertions. -/
theorem keyring_frozen_by_first_list {taken : List (KeyringPool × KeyringTurn)} {final : KeyringPool}
    (run : Run keyringProgram.Step init taken final) :
    (∀ list list', final.ListReturned list → final.ListReturned list' → list = list') ∧
    (∀ earlier middle turn later, taken = earlier ++ (middle, turn) :: later →
      ∀ list, middle.ListReturned list → final.ListReturned list ∧
        ∀ index key, final.KeyRegistered index key → middle.KeyRegistered index key) ∧
    (final.shared.keysByName.map KeyringKey.name).Nodup ∧
    (final.shared.keysByName.map KeyringKey.keySha256).Nodup ∧
    final.shared.keysByHash.Nodup ∧
    ∀ key, key ∈ final.shared.keysByHash ↔
      key ∈ final.shared.keysByName ∧ ¬ final.BetweenEmplaces key := by
  have consistent := consistent_of_run run
  refine ⟨fun list list' returned returned' => ?_, run_after_list run, consistent.nodup_names,
    consistent.nodup_hashes, ?_, fun key => consistent.mem_keysByHash_iff_keysByName⟩
  · rw [consistent.list_eq returned, consistent.list_eq returned']
  · have distinct : (final.shared.keyHashMap.entries.map Prod.fst).Nodup :=
      final.shared.keyHashMap.nodup_keys
    have sameHashes : final.shared.keyHashMap.entries.map Prod.fst =
        final.shared.keysByHash.map KeyringKey.keyHashBytes := by
      rw [Keyring.keysByHash, List.map_map]
      exact List.map_congr_left fun entry member => consistent.holds.shared.hashed entry member
    exact (sameHashes ▸ distinct).of_map _

/-- A key is registered, its list is generated, and another registration finds the keyring locked. -/
theorem keyring_frozen_by_first_list_of_one_key : ∃ taken, ∃ final : KeyringPool,
    Run keyringProgram.Step init taken final ∧ final.ListReturned (List.replicate 32 7) ∧
      ∀ list, final.ListReturned list → list = List.replicate 32 7 := by
  let key : KeyringKey := ⟨0, "Secp256r1", .replicate 32 7⟩
  let late : KeyringKey := ⟨1, "Tls", .replicate 32 8⟩
  let turns : List KeyringTurn := .event (.registerKey key) :: List.replicate 8 (.call 0 false) ++
    .event .genKeyHashList :: .event (.registerKey late) :: List.replicate 7 (.call 1 false) ++
    List.replicate 3 (.call 2 false)
  obtain ⟨taken, final, run, returned⟩ := exists_run turns
    (fun pool => .genKeyHashList (.returned (List.replicate 32 7)) ∈ pool.calls) (by decide +kernel)
  exact ⟨taken, final, run, returned, fun list returned' =>
    (keyring_frozen_by_first_list run).1 _ _ returned' returned⟩

/-- A registration that is between its two insertions. -/
theorem keyring_maps_differ_between_emplaces : ∃ taken final,
    Run keyringProgram.Step init taken final ∧
      ∃ key ∈ final.shared.keysByName, key ∉ final.shared.keysByHash := by
  let key : KeyringKey := ⟨0, "Secp256r1", .replicate 32 7⟩
  let turns : List KeyringTurn := .event (.registerKey key) :: List.replicate 6 (.call 0 false)
  obtain ⟨taken, final, run, named, notHashed⟩ := exists_run turns (fun pool =>
    key ∈ pool.shared.keysByName ∧ key ∉ pool.shared.keysByHash) (by decide +kernel)
  exact ⟨taken, final, run, key, named, notHashed⟩

end Decentagram.DecentEnclave
