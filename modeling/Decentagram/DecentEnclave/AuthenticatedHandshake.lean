import Decentagram.DecentEnclave.EpidRaClient
import Decentagram.DecentEnclave.KeyBinding

/-! # Handshakes with an authenticated service provider

An accepted message 4 is about a context of the object, and the contexts are closed with the
object, as long as the host keeps the order of the calls: no call asks for the state it needs.
-/

namespace Decentagram.DecentEnclave.EpidRaClient

open Decentagram.Lib Decentagram.Mbedtls
open Decentagram.Lib.Exec (Sat)
open RaDb (RaEvent Faults Item Kept Processed)

variable {KeyPair : Type} {lib : RaLib KeyPair} {authenticate : EcPublic → Except Thrown Bool}

section Rules

variable {α : Type} {enclave : Enclave KeyPair} {raises : Thrown → Enclave KeyPair → Prop}

@[simp] theorem sat_onRaDb {funcName : String} {inner : Exec SgxStatus (RaDb.Db KeyPair) α}
    {returns : α → Enclave KeyPair → Prop} : Sat (onRaDb funcName inner) enclave returns raises ↔
      Sat inner enclave.raDb (fun value raDb => returns value { enclave with raDb })
        (fun status raDb => raises (.sgxRuntimeError status funcName) { enclave with raDb }) := by
  unfold Sat onRaDb
  cases inner enclave.raDb <;> simp

@[simp] theorem sat_checkSgx {ret : Option SgxStatus} {funcName : String}
    {returns : Unit → Enclave KeyPair → Prop} : Sat (checkSgx ret funcName) enclave returns raises ↔
      (ret = none → returns () enclave) ∧
        ∀ status, ret = some status → raises (.sgxRuntimeError status funcName) enclave := by
  unfold checkSgx
  cases ret <;> simp

end Rules

/-- The database after the events of an OCALL. -/
abbrev occurred (lib : RaLib KeyPair) (enclave : Enclave KeyPair) (events : List (RaEvent KeyPair)) :
    Enclave KeyPair :=
  { enclave with raDb := RaDb.occurAll lib enclave.created enclave.raDb events }

theorem ocall_sat (enclave : Enclave KeyPair) (ret : OcallRet) (funcName : String)
    (events : List (RaEvent KeyPair)) :
    Sat (ocall lib ret funcName events) enclave
      (fun _ after => ret.succeeds = true ∧ after = occurred lib enclave events)
      (fun _ after => ret.succeeds = false ∧ after = occurred lib enclave events) := by
  simp only [ocall, Exec.sat_bind, Exec.sat_modify, sat_checkSgx]
  refine ⟨fun edge => ⟨fun func => ⟨?_, trivial⟩, fun _ func => ⟨?_, trivial⟩⟩,
    fun _ edge => ⟨?_, trivial⟩⟩
  · simp [OcallRet.succeeds, edge, func]
  · simp [OcallRet.succeeds, func]
  · simp [OcallRet.succeeds, edge]

/-! ## What a call can do -/

/-- GetMsg1 creates a context. -/
def Inits (lib : RaLib KeyPair) (authenticate : EcPublic → Except Thrown Bool)
    (enclave : Enclave KeyPair) (spPubKey : EcPublic) (faults : Faults) : Prop :=
  authenticate spPubKey = .ok true ∧
  ∃ raCtx raDb, RaDb.init lib faults spPubKey enclave.raDb = .ok raCtx raDb

/-- GetMsg3 finds a secret key in the context. -/
def TakesSk (lib : RaLib KeyPair) (enclave : Enclave KeyPair) (msg2 : Bytes) (ret : OcallRet)
    (msg3 : Except Thrown Bytes) (events : List (RaEvent KeyPair)) : Prop :=
  msg2Size ≤ msg2.length ∧ ret.succeeds = true ∧ (∃ bytes, msg3 = .ok bytes) ∧
    ∃ sk raDb, RaDb.getKeys enclave.core.raCtx .sk (occurred lib enclave events).raDb = .ok sk raDb

/-- The MAC of message 4 is good, and its body says that the report was accepted. -/
def Accepts (lib : RaLib KeyPair) (enclave : Enclave KeyPair) (cmacRet : Except Thrown Unit)
    (msg4 : Bytes) : Prop :=
  cmacRet = .ok () ∧ ∃ parts reportSet, splitMsg4 msg4 = .ok parts ∧
    parts.mac = lib.cmac enclave.core.sk parts.msgBody ∧ readBody parts.msgBody = .ok (true, reportSet)

theorem getMsg0s_sat (enclave : Enclave KeyPair) (ret : OcallRet) (extendedGrpId : UInt32)
    (events : List (RaEvent KeyPair)) : Sat (getMsg0s lib ret extendedGrpId events) enclave
      (fun _ after => ret.succeeds = true ∧ after = { occurred lib enclave events with
        core := { enclave.core with handshakeState := .msg0sSent } })
      (fun _ after => after = occurred lib enclave events) := by
  simp only [getMsg0s, Exec.sat_bind, setState, modifyCore, Exec.sat_modify, Exec.sat_pure]
  refine (ocall_sat enclave ret _ events).mono ?_ fun _ _ thrown => thrown.2
  rintro - after ⟨succeeds, rfl⟩
  exact ⟨succeeds, rfl⟩

/-- The object with a new context, in one of the states that follow. -/
def withRaCtx (lib : RaLib KeyPair) (enclave : Enclave KeyPair) (spPubKey : EcPublic)
    (events : List (RaEvent KeyPair)) (handshakeState : HSState) : Enclave KeyPair :=
  let raCtx := enclave.raDb.firstEmpty
  { raDb := RaDb.occurAll lib (enclave.created ++ [raCtx]) (enclave.raDb.add (RaDb.newItem lib spPubKey)) events
    core := { enclave.core with peerSignKey := spPubKey, raCtx, handshakeState }
    created := enclave.created ++ [raCtx] }

/-- All that an earlier context has to do with is left as it was. -/
structure Untouched (before after : Enclave KeyPair) : Prop where
  sameCtx : after.core.raCtx = before.core.raCtx
  sameSk : after.core.sk = before.core.sk
  sameState : after.core.handshakeState = before.core.handshakeState
  sameCreated : after.created = before.created

theorem getMsg1_sat (enclave : Enclave KeyPair) (spPubKey : EcPublic) (faults : Faults) (ret : OcallRet)
    (msg1 : EpidRaSvcProv.Msg1) (events : List (RaEvent KeyPair)) :
    Sat (getMsg1 lib authenticate spPubKey faults ret msg1 events) enclave
      (fun _ after => Inits lib authenticate enclave spPubKey faults ∧
        after = withRaCtx lib enclave spPubKey events .msg1Sent)
      (fun _ after => after.raDb = enclave.raDb ∧ Untouched enclave after ∨
        Inits lib authenticate enclave spPubKey faults ∧
          after = withRaCtx lib enclave spPubKey events .raCtxInit) := by
  simp only [getMsg1, Exec.sat_bind, Exec.sat_ofExcept, Exec.sat_throwIf, modifyCore, setState,
    Exec.sat_modify, Exec.sat_pure, sat_onRaDb]
  refine ⟨fun accepted answered => ⟨fun _ => .inl ⟨trivial, ⟨rfl, rfl, rfl, rfl⟩⟩,
    fun isAccepted => ?_⟩, fun _ _ => .inl ⟨trivial, ⟨rfl, rfl, rfl, rfl⟩⟩⟩
  have authenticated : authenticate spPubKey = .ok true := by
    rw [answered, Bool.eq_true_of_not_eq_false isAccepted]
  refine ((RaDb.init_sat spPubKey).and (Exec.sat_self _ _)).mono ?_ ?_
  -- once there is a context the call has replaced the old one, whether or not the OCall succeeds
  · rintro raCtx raDb ⟨⟨rfl, rfl⟩, ended⟩
    have inits : Inits lib authenticate enclave spPubKey faults := ⟨authenticated, _, _, ended⟩
    refine (ocall_sat _ ret _ events).mono ?_ ?_
    · rintro - after ⟨-, rfl⟩
      exact ⟨inits, rfl⟩
    · rintro - after ⟨-, rfl⟩
      exact .inr ⟨inits, rfl⟩
  · rintro status raDb ⟨rfl, -⟩
    exact .inl ⟨rfl, ⟨rfl, rfl, rfl, rfl⟩⟩

/-- GetMsg3 takes the key of the context it finds, or none. -/
theorem getMsg3_sat (enclave : Enclave KeyPair) (msg2 : Bytes) (ret : OcallRet)
    (msg3 : Except Thrown Bytes) (events : List (RaEvent KeyPair)) :
    let TakesFrom : Enclave KeyPair → Prop := fun after => TakesSk lib enclave msg2 ret msg3 events ∧
      ∃ item, after.raDb.lookup enclave.core.raCtx = some item ∧ item.state = .procMsg2ed ∧
        after.core.sk = item.skKey
    Sat (getMsg3 lib msg2 ret msg3 events) enclave
      (fun _ after => TakesFrom after ∧ after.raDb = (occurred lib enclave events).raDb ∧
        after.created = enclave.created ∧ after.core.raCtx = enclave.core.raCtx ∧
        after.core.handshakeState = .msg3Sent)
      (fun _ after => (after.raDb = enclave.raDb ∨ after.raDb = (occurred lib enclave events).raDb) ∧
        after.created = enclave.created ∧ after.core.raCtx = enclave.core.raCtx ∧
        after.core.handshakeState = enclave.core.handshakeState ∧
        (after.core.sk = enclave.core.sk ∧ ¬ TakesSk lib enclave msg2 ret msg3 events ∨
          TakesFrom after)) := by
  intro TakesFrom
  simp only [getMsg3, getKeys, Exec.sat_bind, Exec.sat_throwIf, Exec.sat_ofExcept, Exec.sat_get,
    modifyCore, setState, Exec.sat_modify, Exec.sat_pure, sat_onRaDb]
  -- the message is too short, or the keys are taken once the call has come back
  refine ⟨fun short => ⟨.inl trivial, trivial, trivial, trivial, .inl ⟨trivial, ?_⟩⟩, fun long => ?_⟩
  · exact fun takes => absurd takes.1 (Nat.not_le.mpr short)
  refine (ocall_sat enclave ret _ events).mono ?_ ?_
  · rintro - after ⟨succeeds, rfl⟩
    refine ⟨fun bytes answered => ?_, fun error refused => ?_⟩
    · refine ((RaDb.getKeys_sat .sk).and (Exec.sat_self _ _)).mono ?_ ?_
      · rintro sk raDb ⟨⟨rfl, item, found, processed, rfl⟩, ended⟩
        have takes : TakesSk lib enclave msg2 ret msg3 events :=
          ⟨Nat.le_of_not_lt long, succeeds, ⟨bytes, answered⟩, _, _, ended⟩
        -- the secret key is assigned before the MAC key is asked for, so it stays where that fails
        refine (RaDb.getKeys_sat .mk).mono ?_ ?_
        · rintro mk raDb ⟨rfl, -⟩
          exact ⟨⟨takes, item, found, processed, rfl⟩, rfl, rfl, rfl, trivial⟩
        · rintro status raDb rfl
          exact ⟨.inr rfl, rfl, rfl, rfl, .inr ⟨takes, item, found, processed, rfl⟩⟩
      · rintro status raDb ⟨rfl, ended⟩
        refine ⟨.inr rfl, rfl, rfl, rfl, .inl ⟨rfl, ?_⟩⟩
        rintro ⟨-, -, -, sk, raDb, returned⟩
        rw [ended] at returned
        cases returned
    · refine ⟨.inr rfl, rfl, rfl, rfl, .inl ⟨rfl, ?_⟩⟩
      rintro ⟨-, -, ⟨bytes, answered⟩, -⟩
      rw [refused] at answered
      cases answered
  · rintro - after ⟨failed, rfl⟩
    refine ⟨.inr rfl, rfl, rfl, rfl, .inl ⟨rfl, ?_⟩⟩
    rintro ⟨-, succeeds, -⟩
    rw [failed] at succeeds
    cases succeeds

/-- The verdict of a message 4 with a good MAC is taken as it is. -/
theorem procMsg4_sat (enclave : Enclave KeyPair) (cmacRet : Except Thrown Unit) (msg4 : Bytes) :
    Sat (procMsg4 lib cmacRet msg4) enclave
      (fun _ after => ∃ vrfyRes iasReportSet, (vrfyRes = true → Accepts lib enclave cmacRet msg4) ∧
        after = { enclave with core := { enclave.core with
          iasReportSet, handshakeState := if vrfyRes then .handshakeDone else .handshakeRefused } })
      (fun _ after => after = enclave) := by
  simp only [procMsg4, Exec.sat_bind, Exec.sat_ofExcept, Exec.sat_get, Exec.sat_throwIf, modifyCore,
    setState, Exec.sat_modify]
  refine ⟨fun parts split => ⟨fun _ computed => ⟨fun _ => trivial, fun sameMac =>
    ⟨fun verdict read => ?_, fun _ _ => trivial⟩⟩, fun _ _ => trivial⟩, fun _ _ => trivial⟩
  obtain ⟨vrfyRes, iasReportSet⟩ := verdict
  refine ⟨vrfyRes, iasReportSet, fun isTrue => ?_, rfl⟩
  subst isTrue
  exact ⟨computed, parts, iasReportSet, split, not_not.mp sameMac, read⟩

/-! ## Runs -/

namespace Call

def TakesSk (lib : RaLib KeyPair) (enclave : Enclave KeyPair) : Call KeyPair → Prop
  | .getMsg3 msg2 ret msg3 events => EpidRaClient.TakesSk lib enclave msg2 ret msg3 events
  | _ => False

def Accepts (lib : RaLib KeyPair) (enclave : Enclave KeyPair) : Call KeyPair → Prop
  | .procMsg4 cmacRet msg4 => EpidRaClient.Accepts lib enclave cmacRet msg4
  | _ => False

end Call

/-- The calls are in order: there is one context, no message 0 after it, no key is taken before it,
    and no message 4 is accepted before a key was taken. -/
def Orderly (lib : RaLib KeyPair) (authenticate : EcPublic → Except Thrown Bool)
    (taken : List (Enclave KeyPair × Call KeyPair)) (enclave : Enclave KeyPair) : Call KeyPair → Prop
  | .getMsg0s ret _ _ => ret.succeeds = true → enclave.created = []
  | .getMsg1 spPubKey faults _ _ _ => Inits lib authenticate enclave spPubKey faults →
    enclave.created = []
  | .getMsg3 msg2 ret msg3 events => TakesSk lib enclave msg2 ret msg3 events → enclave.created ≠ []
  | .procMsg4 cmacRet msg4 => Accepts lib enclave cmacRet msg4 → Happened (Call.TakesSk lib) taken
  | .others _ => True

/-- The MAC of message 4 is one under the secret key of a context of the object, for an
    authenticated service provider whose message 2 was processed. -/
def Authentic (lib : RaLib KeyPair) (authenticate : EcPublic → Except Thrown Bool)
    (enclave : Enclave KeyPair) (msg4 : Bytes) : Prop :=
  ∃ context ∈ enclave.created, ∃ item, enclave.raDb.lookup context = some item ∧
    authenticate item.spPubkey = .ok true ∧ item.state = .procMsg2ed ∧
    (∃ msg2, Processed lib item msg2) ∧
    ∃ parts, splitMsg4 msg4 = .ok parts ∧ parts.mac = lib.cmac item.skKey parts.msgBody

/-- What the calls so far promise: every message 4 that was accepted was authentic, a handshake is
    done only after one was, and no context outlives the object. -/
structure Secure (lib : RaLib KeyPair) (authenticate : EcPublic → Except Thrown Bool)
    (taken : List (Enclave KeyPair × Call KeyPair)) (enclave : Enclave KeyPair) : Prop where
  authentic : ∀ before cmacRet msg4, (before, .procMsg4 cmacRet msg4) ∈ taken →
    Accepts lib before cmacRet msg4 → Authentic lib authenticate before msg4
  done : enclave.core.isHandshakeDone = true → Happened (Call.Accepts lib) taken
  closed : ∀ context ∈ enclave.created, (destroy enclave).lookup context = none

/-- The contexts of the object are in the database. -/
def Owned (lib : RaLib KeyPair) (authenticate : EcPublic → Except Thrown Bool)
    (enclave : Enclave KeyPair) : Prop :=
  ∀ context ∈ enclave.created, ∃ item, enclave.raDb.lookup context = some item ∧
    authenticate item.spPubkey = .ok true ∧ item.Sound lib

/-- The secret key is the one of a context of the object. -/
def HoldsSk (enclave : Enclave KeyPair) : Prop :=
  ∃ context ∈ enclave.created, ∃ item, enclave.raDb.lookup context = some item ∧
  item.state = .procMsg2ed ∧ item.skKey = enclave.core.sk

/-- What a run of orderly calls keeps. -/
structure Inv (lib : RaLib KeyPair) (authenticate : EcPublic → Except Thrown Bool)
    (taken : List (Enclave KeyPair × Call KeyPair)) (enclave : Enclave KeyPair) : Prop where
  owned : Owned lib authenticate enclave
  single : enclave.created = [] ∨
    enclave.created = [enclave.core.raCtx] ∧ enclave.core.handshakeState.hasRaCtx = true
  keyed : Happened (Call.TakesSk lib) taken → HoldsSk enclave
  done : enclave.core.isHandshakeDone = true → Happened (Call.Accepts lib) taken

section Steps

variable {taken : List (Enclave KeyPair × Call KeyPair)} {before after : Enclave KeyPair}

theorem Owned.kept (owned : Owned lib authenticate before)
    (sameCreated : after.created = before.created)
    (kept : Kept lib before.created before.raDb after.raDb) : Owned lib authenticate after := by
  intro context member
  rw [sameCreated] at member
  obtain ⟨item, found, authenticated, sound⟩ := owned context member
  obtain ⟨item', found', evolves⟩ := kept context member item found
  exact ⟨item', found', by rw [evolves.sameKey, authenticated], evolves.sound sound⟩

theorem HoldsSk.kept (holds : HoldsSk before) (sameCreated : after.created = before.created)
    (sameSk : after.core.sk = before.core.sk) (kept : Kept lib before.created before.raDb after.raDb) :
    HoldsSk after := by
  obtain ⟨context, member, item, found, processed, isSk⟩ := holds
  obtain ⟨item', found', evolves⟩ := kept context member item found
  obtain rfl := evolves.final processed
  exact ⟨context, sameCreated ▸ member, item', found', processed, by rw [isSk, sameSk]⟩

/-- A call that leaves the object alone but for what no context has to do with. -/
theorem Inv.untouched (inv : Inv lib authenticate taken before) (same : Untouched before after)
    (kept : Kept lib before.created before.raDb after.raDb) : Inv lib authenticate taken after where
  owned := inv.owned.kept same.sameCreated kept
  single := by
    rw [same.sameCreated, same.sameCtx, same.sameState]
    exact inv.single
  keyed happened := (inv.keyed happened).kept same.sameCreated same.sameSk kept
  done isDone := by
    rw [Core.isHandshakeDone, same.sameState] at isDone
    exact inv.done isDone

theorem Inv.snoc_other (inv : Inv lib authenticate taken after) {call : Call KeyPair}
    (noSk : ¬ call.TakesSk lib before) : Inv lib authenticate (taken ++ [(before, call)]) after where
  owned := inv.owned
  single := inv.single
  keyed happened := inv.keyed ((happened_snoc.mp happened).resolve_right noSk)
  done isDone := happened_snoc.mpr (.inl (inv.done isDone))

theorem kept_occurred (enclave : Enclave KeyPair) (events : List (RaEvent KeyPair)) :
    Kept lib enclave.created enclave.raDb (occurred lib enclave events).raDb :=
  RaDb.occurAll_kept enclave.created events

theorem Inv.getMsg0s (inv : Inv lib authenticate taken before) {ret : OcallRet} {extendedGrpId : UInt32}
    {events : List (RaEvent KeyPair)} (orderly : ret.succeeds = true → before.created = [])
    (ends : (getMsg0s lib ret extendedGrpId events).Ends before after) :
    Inv lib authenticate taken after := by
  refine Sat.ends (Inv lib authenticate taken) ?_ ends
  refine (getMsg0s_sat before ret extendedGrpId events).mono ?_ ?_
  · rintro - after ⟨succeeds, rfl⟩
    have none := orderly succeeds
    refine ⟨inv.owned.kept rfl (kept_occurred before events), .inl none, fun happened => ?_, nofun⟩
    exact (inv.keyed happened).kept rfl rfl (kept_occurred before events)
  · rintro - after rfl
    exact inv.untouched ⟨rfl, rfl, rfl, rfl⟩ (kept_occurred before events)

/-- The new context is the only one. -/
theorem Inv.withRaCtx (inv : Inv lib authenticate taken before) {spPubKey : EcPublic} {faults : Faults}
    (events : List (RaEvent KeyPair)) {handshakeState : HSState} (none : before.created = [])
    (inits : Inits lib authenticate before spPubKey faults) (hasRaCtx : handshakeState.hasRaCtx = true)
    (notDone : handshakeState ≠ .handshakeDone) :
    Inv lib authenticate taken (withRaCtx lib before spPubKey events handshakeState) where
  owned := by
    intro context member
    have kept := @RaDb.occurAll_kept KeyPair lib (before.raDb.add (RaDb.newItem lib spPubKey))
      (before.created ++ [before.raDb.firstEmpty]) events
    -- the host acts between the creation of the context and the answer of the OCall
    have isNew : context = before.raDb.firstEmpty := by
      simpa [EpidRaClient.withRaCtx, none] using member
    obtain ⟨item, found, evolves⟩ := kept context member _ (isNew ▸ Slots.lookup_add_self _ _)
    refine ⟨item, found, ?_, evolves.sound nofun⟩
    rw [evolves.sameKey]
    exact inits.1
  single := .inr ⟨by simp [EpidRaClient.withRaCtx, none], hasRaCtx⟩
  keyed happened := by
    obtain ⟨context, member, -⟩ := inv.keyed happened
    rw [none] at member
    cases member
  done isDone := by
    simp [EpidRaClient.withRaCtx, Core.isHandshakeDone, notDone] at isDone

theorem Inv.getMsg1 (inv : Inv lib authenticate taken before) {spPubKey : EcPublic} {faults : Faults}
    {ret : OcallRet} {msg1 : EpidRaSvcProv.Msg1} {events : List (RaEvent KeyPair)}
    (orderly : Inits lib authenticate before spPubKey faults → before.created = [])
    (ends : (getMsg1 lib authenticate spPubKey faults ret msg1 events).Ends before after) :
    Inv lib authenticate taken after := by
  refine Sat.ends (Inv lib authenticate taken) ?_ ends
  refine (getMsg1_sat before spPubKey faults ret msg1 events).mono ?_ ?_
  · rintro - after ⟨inits, rfl⟩
    exact inv.withRaCtx events (orderly inits) inits (by decide) (by decide)
  · rintro - after (⟨sameDb, same⟩ | ⟨inits, rfl⟩)
    · refine inv.untouched same ?_
      rw [sameDb]
      exact .refl before.created before.raDb
    · exact inv.withRaCtx events (orderly inits) inits (by decide) (by decide)

/-- The key is taken from the only context. -/
theorem Inv.takesSk (inv : Inv lib authenticate taken before) (exists_created : before.created ≠ [])
    (kept : Kept lib before.created before.raDb after.raDb)
    (sameCreated : after.created = before.created)
    (sameCtx : after.core.raCtx = before.core.raCtx)
    (stays : after.core.handshakeState = before.core.handshakeState ∨
      after.core.handshakeState = .msg3Sent)
    {item : Item KeyPair} (found : after.raDb.lookup before.core.raCtx = some item)
    (processed : item.state = .procMsg2ed) (isSk : after.core.sk = item.skKey) (call : Call KeyPair) :
    Inv lib authenticate (taken ++ [(before, call)]) after := by
  -- the id of the object is the one of its context only where that is the only one
  obtain ⟨one, hasRaCtx⟩ := inv.single.resolve_left exists_created
  have oneAfter : after.created = [after.core.raCtx] := by rw [sameCreated, sameCtx, one]
  refine ⟨inv.owned.kept sameCreated kept, .inr ⟨oneAfter, ?_⟩, fun _ => ?_, fun isDone => ?_⟩
  · rcases stays with same | sent
    · rw [same, hasRaCtx]
    · rw [sent]
      rfl
  · refine ⟨after.core.raCtx, by simp [oneAfter], item, by rw [sameCtx, found], processed, isSk.symm⟩
  · rcases stays with same | sent
    · rw [Core.isHandshakeDone, same] at isDone
      exact happened_snoc.mpr (.inl (inv.done isDone))
    · simp [Core.isHandshakeDone, sent] at isDone

theorem Inv.getMsg3 (inv : Inv lib authenticate taken before) {msg2 : Bytes} {ret : OcallRet}
    {msg3 : Except Thrown Bytes} {events : List (RaEvent KeyPair)}
    (orderly : TakesSk lib before msg2 ret msg3 events → before.created ≠ [])
    (ends : (getMsg3 lib msg2 ret msg3 events).Ends before after) :
    Inv lib authenticate (taken ++ [(before, .getMsg3 msg2 ret msg3 events)]) after := by
  refine Sat.ends (Inv lib authenticate _) ?_ ends
  refine (getMsg3_sat before msg2 ret msg3 events).mono ?_ ?_
  · rintro - after ⟨⟨takes, item, found, processed, isSk⟩, sameDb, sameCreated, sameCtx, sent⟩
    exact inv.takesSk (orderly takes) (sameDb ▸ kept_occurred before events) sameCreated sameCtx
      (.inr sent) found processed isSk _
  · rintro - after ⟨db, sameCreated, sameCtx, sameState, outcome⟩
    have kept : Kept lib before.created before.raDb after.raDb := by
      rcases db with same | same
      · rw [same]
        exact .refl before.created before.raDb
      · rw [same]
        exact kept_occurred before events
    rcases outcome with ⟨sameSk, notTaken⟩ | ⟨takes, item, found, processed, isSk⟩
    -- a call that fails before the key has taken nothing, one that fails behind it keeps the state
    · exact (inv.untouched ⟨sameCtx, sameSk, sameState, sameCreated⟩ kept).snoc_other notTaken
    · exact inv.takesSk (orderly takes) kept sameCreated sameCtx (.inl sameState) found processed isSk _

/-- A message 4 is accepted with the key of the context. -/
theorem Inv.procMsg4 (inv : Inv lib authenticate taken before) {cmacRet : Except Thrown Unit}
    {msg4 : Bytes} (ends : (procMsg4 lib cmacRet msg4).Ends before after) :
    Inv lib authenticate (taken ++ [(before, .procMsg4 cmacRet msg4)]) after := by
  refine Sat.ends (Inv lib authenticate _) ?_ ends
  refine (procMsg4_sat before cmacRet msg4).mono ?_ ?_
  · rintro - after ⟨vrfyRes, iasReportSet, accepts, rfl⟩
    refine ⟨inv.owned, ?_, fun happened => ?_, fun isDone => ?_⟩
    · rcases inv.single with none | ⟨one, -⟩
      · exact .inl none
      · refine .inr ⟨one, ?_⟩
        cases vrfyRes <;> rfl
    · exact inv.keyed ((happened_snoc.mp happened).resolve_right id)
    · cases vrfyRes with
      | false => cases isDone
      | true => exact happened_snoc.mpr (.inr (accepts rfl))
  · rintro - after rfl
    exact inv.snoc_other id

theorem Inv.step (inv : Inv lib authenticate taken before) {call : Call KeyPair}
    (orderly : Orderly lib authenticate taken before call)
    (stepped : Step lib authenticate before call after) :
    Inv lib authenticate (taken ++ [(before, call)]) after := by
  cases call with
  | getMsg0s ret extendedGrpId events => exact (inv.getMsg0s orderly stepped).snoc_other id
  | getMsg1 spPubKey faults ret msg1 events => exact (inv.getMsg1 orderly stepped).snoc_other id
  | getMsg3 msg2 ret msg3 events => exact inv.getMsg3 orderly stepped
  | procMsg4 cmacRet msg4 => exact inv.procMsg4 stepped
  | others events =>
    obtain rfl := stepped
    have kept : Inv lib authenticate taken (occurred lib before events) :=
      inv.untouched ⟨rfl, rfl, rfl, rfl⟩ (kept_occurred before events)
    exact kept.snoc_other id

/-- With a key that was taken, an accepted message 4 is authentic. -/
theorem Inv.authentic (inv : Inv lib authenticate taken before) {cmacRet : Except Thrown Unit}
    {msg4 : Bytes}
    (keyed : Happened (Call.TakesSk lib) taken) (accepts : Accepts lib before cmacRet msg4) :
    Authentic lib authenticate before msg4 := by
  obtain ⟨-, parts, reportSet, split, sameMac, -⟩ := accepts
  obtain ⟨context, member, item, found, processed, isSk⟩ := inv.keyed keyed
  obtain ⟨item', found', authenticated, sound⟩ := inv.owned context member
  rw [found] at found'
  cases found'
  exact ⟨context, member, item, found, authenticated, processed, sound processed, parts, split,
    isSk ▸ sameMac⟩

/-- The destructor closes the only context. -/
theorem Inv.closed (inv : Inv lib authenticate taken before) :
    ∀ context ∈ before.created, (destroy before).lookup context = none := by
  intro context member
  obtain ⟨one, hasRaCtx⟩ := inv.single.resolve_left (List.ne_nil_of_mem member)
  obtain ⟨item, found, -, -⟩ := inv.owned context member
  -- the destructor asks the state whether there is a context, and closes the one it has the id of
  have isRaCtx : context = before.core.raCtx := by simpa [one] using member
  subst isRaCtx
  have closes : destroy before = before.raDb.set before.core.raCtx none := by
    simp [destroy, hasRaCtx, Exec.endState, RaDb.close, found]
  rw [closes, Slots.lookup_set_self found]

end Steps

theorem inv_of_orderly {start final : Enclave KeyPair} {taken : List (Enclave KeyPair × Call KeyPair)}
    (initial : start.core.handshakeState = .initial) (fresh : start.created = [])
    (run : Run (Step lib authenticate) start taken final)
    (orderly : ∀ earlier before call later, taken = earlier ++ (before, call) :: later →
      Orderly lib authenticate earlier before call) : Inv lib authenticate taken final := by
  refine run.invariant_of_history (Orderly lib authenticate) (Inv lib authenticate) ?_ ?_ orderly
  · refine ⟨fun context member => ?_, .inl fresh, fun happened => (not_happened_nil happened).elim,
      fun isDone => ?_⟩
    · rw [fresh] at member
      cases member
    · simp [Core.isHandshakeDone, initial] at isDone
  · intro taken before call after inv guarded stepped
    exact inv.step guarded stepped

/-- Orderly calls complete only authenticated handshakes, and leave no context behind. -/
theorem secure_of_orderly {start final : Enclave KeyPair}
    {taken : List (Enclave KeyPair × Call KeyPair)}
    (initial : start.core.handshakeState = .initial) (fresh : start.created = [])
    (run : Run (Step lib authenticate) start taken final)
    (orderly : ∀ earlier before call later, taken = earlier ++ (before, call) :: later →
      Orderly lib authenticate earlier before call) : Secure lib authenticate taken final := by
  have inv := inv_of_orderly initial fresh run orderly
  refine ⟨fun before cmacRet msg4 member accepts => ?_, inv.done, inv.closed⟩
  -- the claim is about the state in which this message 4 came, so the run is cut there
  obtain ⟨earlier, later, split⟩ := List.append_of_mem member
  have invBefore : Inv lib authenticate earlier before := by
    refine inv_of_orderly initial fresh (run.upTo split) fun earlier' before' call' later' split' => ?_
    exact orderly earlier' before' call' (later' ++ (before, .procMsg4 cmacRet msg4) :: later)
      (by simp [split, split'])
  exact invBefore.authentic (orderly earlier before _ later split accepts) accepts

/-! ## Calls out of order

A service provider whose key is accepted, a client that follows it, and a host that does not keep
the order.
-/

namespace CallOrder

open ForgedReport (bytesOf)
open EpidRaSvcProv.RepeatedMsg2 (gB firstShared)

def spKey : EcPublic where
  gx := bytesOf 32 [0xdd89f2fabda5f252b2b82f5efc432af2f9a5c8e6b6e411cd6d1852e6af4345fc]
  gy := bytesOf 32 [0x55d393117c95236e2d3d4be171a008414a5e544da69d1f7a71bab4c5f454e955]

def signGbGa : Bytes × Bytes :=
  (bytesOf 32 [0xeaa7d7376226e5b1311288c3778cd634ae3f1fc332de90f534d4cab2de3d6e92],
    bytesOf 32 [0x121c2a862888d94f8ee62e0df8bc23d295c2e33f05bf83b95c98d939c640d27c])

def msg2 : EpidRaSvcProv.Msg2 where
  gB := gB
  spid := bytesOf 16 [0x0123456789abcdef0123456789abcdef00000000000000000000000000000000]
  quoteType := 1
  kdfId := 1
  signGbGa
  mac := bytesOf 16 [0x40021c71f3a3f9a836abdba5bc130e0900000000000000000000000000000000]
  sigRL := []

/-- The body of a message 4 that reports success, with its framing. -/
def msgBody : Bytes := bytesOf 47 [
  0xee22cd820800895265706f7274536574cb0089c8c3823000827b7d01d0820800,
  0x8c566572696679526573756c74c1030000000000000000000000000000000000]

def msg4 (mac : Bytes) : Bytes :=
  bytesOf 14 [
    0xf85a22c7820800834d4143d20090000000000000000000000000000000000000] ++
    mac ++
    bytesOf 15 [
    0xcb820800874d7367426f6479f100af0000000000000000000000000000000000] ++
    msgBody

/-- The MAC of the body under the secret key of the context. -/
def mac : Bytes := bytesOf 16 [0x25954479f799593428078f0adc0b2b0100000000000000000000000000000000]

/-- The MAC of the body under zeros, which everybody can compute. -/
def zeroMac : Bytes := bytesOf 16 [0xc3f874bff5e9c0c97536406603e1889500000000000000000000000000000000]

/-- The libraries on the keys of this client, of which only one is not zeros. -/
def raLib : RaLib Bool where
  publicKey own := if own then EpidRaSvcProv.RepeatedMsg2.first else RaDb.zeroPublic
  sharedKey own peer := if own ∧ peer = gB then firstShared else []
  ckdf := EpidRaSvcProv.RepeatedMsg2.keyLib.ckdf
  cmac key _ :=
    if key = EpidRaSvcProv.RepeatedMsg2.keyLib.ckdf firstShared "SMK" then msg2.mac
    else if key = EpidRaSvcProv.RepeatedMsg2.keyLib.ckdf firstShared "SK" then mac
    else if key = List.replicate 16 0 then zeroMac
    else []
  checkPoint key := key = spKey
  ecdsaVerify key data sign := key = spKey ∧
    data = gB.bytes ++ EpidRaSvcProv.RepeatedMsg2.first.bytes ∧ sign = signGbGa
  zeroKey := false

/-- `EpidSvcProvAuthAcceptAll` -/
def acceptAll : EcPublic → Except Thrown Bool := fun _ => .ok true

def start : Enclave Bool where
  raDb := []
  core := .start
  created := []

def success : OcallRet := ⟨none, none⟩

/-- The host asks the new context for its key. -/
def firstMsg1 : Call Bool :=
  .getMsg1 spKey (fun _ => none) success ⟨EpidRaSvcProv.RepeatedMsg2.first, [0, 0, 0, 0]⟩
    [.getGa (fun _ => none) 0 true]

/-- The host has message 2 processed. -/
def firstMsg3 : Call Bool :=
  .getMsg3 (List.replicate msg2Size 0) success (.ok []) [.procMsg2 (fun _ => none) 0 msg2]

def goodMsg4 : Call Bool := .procMsg4 (.ok ()) (msg4 mac)

def forgedMsg4 : Call Bool := .procMsg4 (.ok ()) (msg4 zeroMac)

def lateMsg0s : Call Bool := .getMsg0s success 0 []

/-- The state that a call leaves. -/
def execute (before : Enclave Bool) : Call Bool → Option (Enclave Bool)
  | .getMsg0s ret extendedGrpId events => Exec.endState (getMsg0s raLib ret extendedGrpId events) before
  | .getMsg1 spPubKey faults ret msg1 events =>
    Exec.endState (getMsg1 raLib acceptAll spPubKey faults ret msg1 events) before
  | .getMsg3 msg2 ret msg3 events => Exec.endState (getMsg3 raLib msg2 ret msg3 events) before
  | .procMsg4 cmacRet msg4 => Exec.endState (procMsg4 raLib cmacRet msg4) before
  | .others events => some (occurred raLib before events)

theorem step_of_execute {before after : Enclave Bool} {call : Call Bool}
    (executed : execute before call = some after) : Step raLib acceptAll before call after := by
  cases call with
  | others events => exact (Option.some.inj executed).symm
  | _ => exact Exec.ends_of_endState executed

/-- A context is created, its message 2 is processed, and message 4 is accepted. -/
def inited : Enclave Bool := (execute start firstMsg1).get (by decide +kernel)

def keyTaken : Enclave Bool := (execute inited firstMsg3).get (by decide +kernel)

def done : Enclave Bool := (execute keyTaken goodMsg4).get (by decide +kernel)

/-- A message 4 comes first. -/
def forged : Enclave Bool := (execute start forgedMsg4).get (by decide +kernel)

/-- A message 0 comes behind the context. -/
def leaking : Enclave Bool := (execute inited lateMsg0s).get (by decide +kernel)

theorem step_get {before : Enclave Bool} {call : Call Bool}
    (isSome : (execute before call).isSome = true) :
    Step raLib acceptAll before call ((execute before call).get isSome) :=
  step_of_execute (Option.some_get isSome).symm

theorem run_inited : Run (Step raLib acceptAll) start [(start, firstMsg1)] inited :=
  .snoc .nil (step_get _)

theorem run_done : Run (Step raLib acceptAll) start
    [(start, firstMsg1), (inited, firstMsg3), (keyTaken, goodMsg4)] done :=
  .snoc (.snoc run_inited (step_get _)) (step_get _)

/-- What the calls leave, in one evaluation of them. -/
theorem calls_evaluated :
    ((occurred raLib inited [.procMsg2 (fun _ => none) 0 msg2]).raDb.lookup
      inited.core.raCtx).map Item.state = some .procMsg2ed ∧
    inited.created ≠ [] ∧ done.core.isHandshakeDone = true ∧ forged.core.isHandshakeDone = true ∧
    0 ∈ leaking.created ∧ (destroy leaking).lookup 0 ≠ none := by
  decide +kernel

theorem takesSk_first : Call.TakesSk raLib inited firstMsg3 := by
  obtain ⟨context, -⟩ := calls_evaluated
  obtain ⟨item, found, processed⟩ := Option.map_eq_some_iff.mp context
  exact ⟨List.length_replicate.ge, rfl, ⟨[], rfl⟩, _, _, RaDb.getKeys_returns found processed .sk⟩

theorem orderly_done : ∀ earlier before call later,
    [(start, firstMsg1), (inited, firstMsg3), (keyTaken, goodMsg4)] =
      earlier ++ (before, call) :: later →
      Orderly raLib acceptAll earlier before call := by
  obtain ⟨-, created, -⟩ := calls_evaluated
  refine forall_split_cons (fun _ => rfl) (forall_split_cons (fun _ => ?_)
    (forall_split_cons (fun _ => ?_) forall_split_nil))
  · exact created
  · exact ⟨(inited, firstMsg3), by simp, takesSk_first⟩

end CallOrder

/-- In order, the handshake is done and authentic. -/
theorem secure_of_orderly_sample : CallOrder.done.core.isHandshakeDone = true ∧ Secure CallOrder.raLib
    CallOrder.acceptAll [(CallOrder.start, CallOrder.firstMsg1),
      (CallOrder.inited, CallOrder.firstMsg3), (CallOrder.keyTaken, CallOrder.goodMsg4)] CallOrder.done := by
  obtain ⟨-, -, isDone, -⟩ := CallOrder.calls_evaluated
  exact ⟨isDone, secure_of_orderly rfl rfl CallOrder.run_done CallOrder.orderly_done⟩

/-- A message 4 under zeros is accepted by an object that has no context. -/
theorem forged_msg4 : ¬ ∀ (start final : Enclave Bool) (taken : List (Enclave Bool × Call Bool)),
    start.core.handshakeState = .initial → start.created = [] →
    Run (Step CallOrder.raLib CallOrder.acceptAll) start taken final →
    Secure CallOrder.raLib CallOrder.acceptAll taken final := by
  intro always
  have forged : Run (Step CallOrder.raLib CallOrder.acceptAll) CallOrder.start
      [(CallOrder.start, CallOrder.forgedMsg4)] CallOrder.forged := .snoc .nil (CallOrder.step_get _)
  have secure := always _ _ _ rfl rfl forged
  obtain ⟨-, -, -, isForged, -⟩ := CallOrder.calls_evaluated
  obtain ⟨entry, member, accepts⟩ := secure.done isForged
  obtain rfl := List.mem_singleton.mp member
  obtain ⟨context, isCreated, -⟩ := secure.authentic _ _ _ member accepts
  cases isCreated

/-- A message 0 behind the context hides it from the destructor. -/
example : ∃ taken, Run (Step CallOrder.raLib CallOrder.acceptAll) CallOrder.start taken
    CallOrder.leaking ∧ ∃ context ∈ CallOrder.leaking.created,
      (destroy CallOrder.leaking).lookup context ≠ none := by
  obtain ⟨-, -, -, -, leaks⟩ := CallOrder.calls_evaluated
  exact ⟨_, .snoc CallOrder.run_inited (CallOrder.step_get _), 0, leaks⟩

end Decentagram.DecentEnclave.EpidRaClient
