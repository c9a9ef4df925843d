import Decentagram.EclipseMonitor.HeaderForest

/-! # What an `Update` does to the shared state

An `Update` hands at most one header to the callback for validated headers, and only one that passed
the checks.  Everything else it does to the shared state is done by the monitor itself: the security
state, the phases, a new sync state, and the callback for confirmed headers.  `update_shared` is the
rule for properties of the shared state that this gives.
-/

namespace Decentagram.Eth

open Decentagram.Lib

namespace EclipseMonitor

variable {κ ω δ ε : Type}

/-- The header that the binary of an `Update` is parsed to. -/
def received (parts : Parts κ ω δ ε) (monitor : EclipseMonitor κ ω δ) (readings : Readings ε)
    (hdrBinary : Bytes) : Except Exception HeaderMgr :=
  if monitor.shared.phase = .bootstrapI then HeaderMgr.ofBinary parts.codec hdrBinary 0
  else arrival parts readings hdrBinary

/-- The checks of bootstrap I: the header is the first one, or valid after the last one. -/
def passesOnBootstrapI (parts : Parts κ ω δ ε) (monitor : EclipseMonitor κ ω δ) (header : HeaderMgr) :
    Bool :=
  monitor.checkpoint.isEmpty ||
    match monitor.checkpoint.getLastHeader with
    | .ok last =>
      match parts.validator.commonValidate last false header false with
      | .ok valid => valid
      | .error _ => false
    | .error _ => false

/-- The header that an `Update` hands to the callback for validated headers. -/
def passed (parts : Parts κ ω δ ε) (monitor : EclipseMonitor κ ω δ) (readings : Readings ε)
    (hdrBinary : Bytes) : Option HeaderMgr :=
  match received parts monitor readings hdrBinary with
  | .error _ => none
  | .ok header =>
    if monitor.shared.phase = .bootstrapI then
      if passesOnBootstrapI parts monitor header then some header else none
    else (acceptHeader parts monitor header).map Acceptance.header

/-- The parts of the shared state's behaviour that an `Update` may use after the callback for validated
    headers, all of them keeping a property. -/
structure Maintained (parts : Parts κ ω δ ε) (readings : Readings ε) (property : Shared κ ω → Prop) :
    Prop where
  secState : ∀ shared secState, property shared → property { shared with secState }
  confirmed : ∀ header shared, property shared →
    Exec.Sat (parts.onHeaderConfirmed header) shared (fun _ => property) fun _ => property
  bootstrapII : ∀ shared, shared.phase = .bootstrapI → property shared →
    property { shared with phase := .bootstrapII }

theorem header_of_acceptHeader {parts : Parts κ ω δ ε} {monitor : EclipseMonitor κ ω δ}
    {header : HeaderMgr} {acceptance : Acceptance}
    (accepts : acceptHeader parts monitor header = some acceptance) : acceptance.header = header := by
  simp only [acceptHeader, Option.bind_eq_bind, Option.bind_eq_some_iff] at accepts
  obtain ⟨entry, -, parent, -, accepts⟩ := accepts
  split at accepts
  · cases accepts
    rfl
  · cases accepts

/-- The header is refused for a reason of its own: its parent is unknown, or one of the checks fails. -/
def rejects (parts : Parts κ ω δ ε) (monitor : EclipseMonitor κ ω δ) (header : HeaderMgr) : Bool :=
  if monitor.shared.phase = .bootstrapI then
    !monitor.checkpoint.isEmpty &&
      match monitor.checkpoint.getLastHeader with
      | .ok last => decide (parts.validator.commonValidate last false header false = .ok false)
      | .error _ => false
  else
    match monitor.findParent header with
    | none => true
    | some (parentNode, isParentNodeLive) =>
      match monitor.deref parentNode with
      | none => false
      | some parent =>
        match parts.validator.commonValidate parent isParentNodeLive header monitor.shared.isSynced with
        | .ok validateRes =>
          !(validateRes && parts.diffChecker.checkDifficulty monitor.diffState parent header)
        | .error _ => false

/-- What follows once a header was added, or not. -/
def afterAdd (parts : Parts κ ω δ ε) (readings : Readings ε) (blkNum : BlockNumber) :
    Exec Exception (EclipseMonitor κ ω δ) Unit := do
  phaseChangeCheck parts readings blkNum
  if (← Exec.get).shared.phase ≠ .bootstrapI then runtimeMaintenance parts readings

section Rules

variable {parts : Parts κ ω δ ε} {readings : Readings ε} {property : Shared κ ω → Prop}

theorem confirmHeaders_shared (maintained : Maintained parts readings property)
    (headers : List HeaderMgr) {before : EclipseMonitor κ ω δ} (held : property before.shared) :
    Exec.Sat (confirmHeaders parts headers) before (fun _ after => property after.shared)
      fun _ after => property after.shared := by
  induction headers generalizing before with
  | nil => exact held
  | cons header headers inductionHypothesis =>
    simp only [confirmHeaders, onShared, Exec.sat_bind, Exec.sat_zoom]
    exact (maintained.confirmed header _ held).mono (fun _ _ after => inductionHypothesis after)
      fun _ _ after => after

theorem thenComplete_shared (maintained : Maintained parts readings property)
    (add : Exec Exception CheckpointMgr Bool) {before : EclipseMonitor κ ω δ}
    (held : property before.shared) :
    Exec.Sat (thenComplete parts add) before (fun _ after => property after.shared)
      fun _ after => property after.shared := by
  simp only [thenComplete, onCheckpoint, Exec.sat_bind, Exec.sat_zoom]
  refine (Exec.sat_self add _).mono (fun completed checkpoint _ => ?_) fun _ _ _ => held
  cases completed with
  | false => exact held
  | true =>
    simp only [if_true, onCheckpointComplete, onShared, onDiffState, Exec.sat_bind, Exec.sat_get,
      Exec.sat_ofExcept, Exec.sat_zoom, Exec.sat_modify]
    refine ⟨fun last _ => ?_, fun _ _ => held⟩
    have updated := maintained.secState before.shared { before.shared.secState with
      checkpointHash := last.hashObj
      checkpointNum := last.rawHeader.number
      checkpointIter := before.shared.secState.checkpointIter + 1 } held
    refine (Exec.sat_self (parts.diffChecker.onChkptUpd checkpoint) _).mono
      (fun _ diffState _ => ?_) fun _ _ _ => updated
    exact confirmHeaders_shared maintained _ updated

theorem runtimeMaintenance_shared (maintained : Maintained parts readings property)
    {before : EclipseMonitor κ ω δ} (held : property before.shared) :
    Exec.Sat (runtimeMaintenance parts readings) before (fun _ after => property after.shared)
      fun _ after => property after.shared := by
  have confirms : Exec.Sat (confirmChild parts) before (fun _ after => property after.shared)
      fun _ after => property after.shared := by
    simp only [confirmChild, Exec.sat_bind, Exec.sat_get, Exec.sat_ofExcept]
    refine ⟨fun last _ => ?_, fun _ _ => held⟩
    cases last.releaseChildHasNDesc parts.chkptSize with
    | none => exact held
    | some pair =>
      simp only [moveToCheckpoint, Exec.sat_bind, Exec.sat_modify]
      exact thenComplete_shared maintained _ held
  rw [runtimeMaintenance, Exec.sat_bind]
  exact confirms.mono (fun _ middle after => (expireNodes_keeps parts readings shared).sat after)
    fun _ _ after => after

theorem phaseChangeCheck_shared (maintained : Maintained parts readings property)
    (blkNum : BlockNumber) {before : EclipseMonitor κ ω δ} (held : property before.shared)
    (refreshes : before.shared.phase = .bootstrapII → blkNum = before.shared.planedSyncBlkNum →
      Exec.Sat (Shared.newSyncState parts.codec readings) { before.shared with phase := .sync }
        (fun _ => property) fun _ => property) :
    Exec.Sat (phaseChangeCheck parts readings blkNum) before (fun _ after => property after.shared)
      fun _ after => property after.shared := by
  simp only [phaseChangeCheck, Exec.sat_bind, Exec.sat_get]
  cases phase : before.shared.phase with
  | bootstrapI =>
    simp only [Exec.sat_ite, Exec.sat_pure]
    refine ⟨fun _ => ?_, fun _ => held⟩
    simp only [endBootstrapI, onCheckpoint, Exec.sat_bind, Exec.sat_get, Exec.sat_zoom,
      Exec.sat_ofExcept, Exec.sat_modify]
    refine (Exec.sat_self _ _).mono (fun _ checkpoint _ => ⟨fun last _ => ?_, fun _ _ => held⟩)
      fun _ _ _ => held
    exact maintained.bootstrapII _ phase held
  | bootstrapII =>
    simp only [Exec.sat_ite, Exec.sat_pure, refreshSyncMsg, onShared, Exec.sat_zoom, Exec.sat_bind,
      Exec.sat_modify]
    exact ⟨refreshes phase, fun _ => held⟩
  | sync => exact held
  | runtime => exact held

theorem afterAdd_shared (maintained : Maintained parts readings property)
    (blkNum : BlockNumber) {before : EclipseMonitor κ ω δ} (held : property before.shared)
    (refreshes : before.shared.phase = .bootstrapII → blkNum = before.shared.planedSyncBlkNum →
      Exec.Sat (Shared.newSyncState parts.codec readings) { before.shared with phase := .sync }
        (fun _ => property) fun _ => property) :
    Exec.Sat (afterAdd parts readings blkNum) before (fun _ after => property after.shared)
      fun _ after => property after.shared := by
  simp only [afterAdd, Exec.sat_bind, Exec.sat_get, Exec.sat_ite, Exec.sat_pure]
  refine (phaseChangeCheck_shared maintained blkNum held refreshes).mono
    (fun _ middle after => ⟨fun _ => ?_, fun _ => after⟩) fun _ _ after => after
  exact runtimeMaintenance_shared maintained after

theorem addNewNode_shared (parentNode : NodeAddr) (header : HeaderMgr) (syncState : SyncStateRef)
    (isNewNodeLive : Bool) :
    Exec.Keeps (addNewNode parentNode header syncState isNewNodeLive)
      (shared : EclipseMonitor κ ω δ → Shared κ ω) := by
  intro before
  simp only [addNewNode, Exec.sat_bind, Exec.sat_get]
  cases before.checkpoint.lastNode.bind fun last =>
      last.addChild parentNode before.nextAddr header syncState with
  | none => trivial
  | some last => simp only [Exec.sat_bind, Exec.sat_modify, Exec.sat_ite, implies_true, and_self]

theorem addToParent_shared {header : HeaderMgr} {before : EclipseMonitor κ ω δ}
    (refused : acceptHeader parts before header = none → property before.shared)
    (validated : (acceptHeader parts before header).isSome →
      Exec.Sat (parts.onHeaderValidated readings.host header) before.shared (fun _ => property)
        fun _ => property) :
    Exec.Sat (addToParent parts readings header) before (fun _ after => property after.shared)
      fun _ after => property after.shared := by
  simp only [addToParent, Exec.sat_bind, Exec.sat_get]
  cases found : before.findParent header with
  | none => exact refused (by simp [acceptHeader, found])
  | some entry =>
    obtain ⟨parentNode, isParentNodeLive⟩ := entry
    simp only [updateOnRuntimeAddChild, Exec.sat_bind, Exec.sat_get]
    cases owned : before.deref parentNode with
    | none => trivial
    | some parent =>
      simp only [Exec.sat_bind, Exec.sat_ofExcept, Exec.sat_ite, Exec.sat_pure, Bool.and_eq_true]
      refine ⟨fun validateRes validates => ⟨?_, fun fails => refused ?_⟩, fun error throws => refused ?_⟩
      · rintro ⟨rfl, -, difficulty⟩
        have accepts : (acceptHeader parts before header).isSome := by
          simp [acceptHeader, found, owned, validates, difficulty]
        simp only [onShared, Exec.sat_zoom]
        refine (validated accepts).mono (fun _ shared after => ?_) fun _ _ after => after
        exact (addNewNode_shared _ _ _ _).sat after
      · have failing : validateRes = true →
            ¬ parts.diffChecker.checkDifficulty before.diffState parent header = true :=
          fun valid difficulty => fails ⟨valid, valid, difficulty⟩
        simpa [acceptHeader, found, owned, validates] using failing
      · simp [acceptHeader, found, owned, throws]

/-- A header that is rejected outside of bootstrap I changes nothing. -/
theorem addToParent_of_rejects {header : HeaderMgr} {before : EclipseMonitor κ ω δ}
    (later : before.shared.phase ≠ .bootstrapI) (rejected : rejects parts before header = true) :
    addToParent parts readings header before = .ok () before := by
  simp only [rejects, later, if_false] at rejected
  cases found : before.findParent header with
  | none => simp [addToParent, found]
  | some entry =>
    obtain ⟨parentNode, isParentNodeLive⟩ := entry
    simp only [found] at rejected
    cases owned : before.deref parentNode with
    | none => simp [owned] at rejected
    | some parent =>
      simp only [owned] at rejected
      cases validates : parts.validator.commonValidate parent isParentNodeLive header
          before.shared.isSynced with
      | error _ => simp [validates] at rejected
      | ok validateRes =>
        simp only [validates, Bool.not_eq_true'] at rejected
        simp only [addToParent, Exec.bind_apply, Exec.get_apply, Outcome.andThen_ok, found,
          updateOnRuntimeAddChild, owned, validates, Exec.ofExcept, Exec.pure_apply]
        cases validateRes with
        | false => rfl
        | true =>
          simp only [Bool.true_and] at rejected
          simp [rejected]

theorem acceptHeader_of_rejects {header : HeaderMgr} {before : EclipseMonitor κ ω δ}
    (later : before.shared.phase ≠ .bootstrapI) (rejected : rejects parts before header = true) :
    acceptHeader parts before header = none := by
  simp only [rejects, later, if_false] at rejected
  cases found : before.findParent header with
  | none => simp [acceptHeader, found]
  | some entry =>
    obtain ⟨parentNode, isParentNodeLive⟩ := entry
    simp only [found] at rejected
    cases owned : before.deref parentNode with
    | none => simp [owned] at rejected
    | some parent =>
      simp only [owned] at rejected
      cases validates : parts.validator.commonValidate parent isParentNodeLive header
          before.shared.isSynced with
      | error _ => simp [validates] at rejected
      | ok validateRes =>
        simp only [validates, Bool.not_eq_true'] at rejected
        cases validateRes with
        | false => simp [acceptHeader, found, owned, validates]
        | true => simpa [acceptHeader, found, owned, validates] using rejected

/-- Where the look-ups and the checks return, a header that is not accepted is rejected. -/
theorem rejects_of_returns {header : HeaderMgr} {before after : EclipseMonitor κ ω δ}
    (later : before.shared.phase ≠ .bootstrapI) (refused : acceptHeader parts before header = none)
    (returned : addToParent parts readings header before = .ok () after) :
    rejects parts before header = true := by
  simp only [rejects, later, if_false]
  cases found : before.findParent header with
  | none => rfl
  | some entry =>
    obtain ⟨parentNode, isParentNodeLive⟩ := entry
    cases owned : before.deref parentNode with
    | none => simp [addToParent, found, updateOnRuntimeAddChild, owned] at returned
    | some parent =>
      cases validates : parts.validator.commonValidate parent isParentNodeLive header
          before.shared.isSynced with
      | error _ =>
        simp [addToParent, found, updateOnRuntimeAddChild, owned, validates, Exec.ofExcept] at returned
      | ok validateRes =>
        cases validateRes with
        | false => simp [owned, validates]
        | true => simpa [acceptHeader, found, owned, validates] using refused

theorem updateOnBootstrapI_shared (maintained : Maintained parts readings property)
    {hdrBinary : Bytes} {before : EclipseMonitor κ ω δ} (phase : before.shared.phase = .bootstrapI)
    (refused : passed parts before readings hdrBinary = none → property before.shared)
    (validated : ∀ header secState, passed parts before readings hdrBinary = some header →
      Exec.Sat (parts.onHeaderValidated readings.host header) { before.shared with secState }
        (fun _ => property) fun _ => property) :
    Exec.Sat (updateOnBootstrapI parts readings hdrBinary) before
      (fun blkNum after => property after.shared ∧ ∃ header,
        received parts before readings hdrBinary = .ok header ∧ header.blkNum = blkNum)
      fun _ after => property after.shared := by
  have received_eq : received parts before readings hdrBinary =
      HeaderMgr.ofBinary parts.codec hdrBinary 0 := by
    simp [received, phase]
  have passed_iff : ∀ header, HeaderMgr.ofBinary parts.codec hdrBinary 0 = .ok header →
      passed parts before readings hdrBinary =
        if passesOnBootstrapI parts before header then some header else none := by
    intro header parsed
    simp [passed, received_eq, parsed, phase]
  simp only [updateOnBootstrapI, Exec.sat_bind, Exec.sat_ofExcept, Exec.sat_pure]
  refine ⟨fun header parsed => ?_, fun error unparsed => refused ?_⟩
  · -- what follows the checks, from any security state
    have passes : ∀ secState, passesOnBootstrapI parts before header = true →
        Exec.Sat (onShared (parts.onHeaderValidated readings.host header))
          { before with shared := { before.shared with secState } }
          (fun _ middle => Exec.Sat (thenComplete parts (CheckpointMgr.addHeader (some header))) middle
            (fun _ after => property after.shared ∧ ∃ header',
              received parts before readings hdrBinary = .ok header' ∧ header'.blkNum = header.blkNum)
            fun _ after => property after.shared)
          fun _ after => property after.shared := by
      intro secState valid
      have isPassed : passed parts before readings hdrBinary = some header := by
        rw [passed_iff header parsed, if_pos valid]
      simp only [onShared, Exec.sat_zoom]
      refine (validated header secState isPassed).mono (fun _ shared after => ?_) fun _ _ after => after
      refine (thenComplete_shared maintained _ after).mono (fun _ _ done => ⟨done, ?_⟩)
        fun _ _ done => done
      exact ⟨header, received_eq.trans parsed, rfl⟩
    simp only [validateOnBootstrapI, Exec.sat_bind, Exec.sat_get, Exec.sat_ite]
    -- the first header fills the genesis hash; every other is compared with the last one
    constructor
    · intro isEmpty
      simpa only [onShared, Exec.sat_zoom, Exec.sat_modify] using
        passes { before.shared.secState with genesisHash := header.hashObj }
          (by simp [passesOnBootstrapI, isEmpty])
    · intro notEmpty
      simp only [Exec.sat_ofExcept, Exec.sat_throwIf]
      -- refused by the comparison, passed, thrown by it, or no last header
      refine ⟨fun last hasLast => ⟨fun valid validates => ⟨fun invalid => ?_, fun isValid => ?_⟩,
        fun error throws => ?_⟩, fun error noLast => ?_⟩
      · apply refused
        simp only [Bool.not_eq_true'] at invalid
        simp [passed_iff header parsed, passesOnBootstrapI, notEmpty, hasLast, validates, invalid]
      · simp only [Bool.not_eq_true', Bool.not_eq_false] at isValid
        exact passes before.shared.secState
          (by simp [passesOnBootstrapI, hasLast, validates, isValid])
      · apply refused
        simp [passed_iff header parsed, passesOnBootstrapI, notEmpty, hasLast, throws]
      · apply refused
        simp [passed_iff header parsed, passesOnBootstrapI, notEmpty, noLast]
  · simp [passed, received_eq, unparsed]

section Unfolding

variable {before : EclipseMonitor κ ω δ} {hdrBinary : Bytes} {returns : Unit → EclipseMonitor κ ω δ → Prop}
  {raises : Exception → EclipseMonitor κ ω δ → Prop}

theorem update_onBootstrapI_sat (phase : before.shared.phase = .bootstrapI) :
    Exec.Sat (update parts readings hdrBinary) before returns raises ↔
      Exec.Sat (updateOnBootstrapI parts readings hdrBinary) before
        (fun blkNum middle => Exec.Sat (afterAdd parts readings blkNum) middle returns raises)
        raises := by
  simp only [update, beforeMaintenance, afterAdd, Exec.sat_bind, Exec.sat_get, phase, if_true]

theorem update_later_sat (later : before.shared.phase ≠ .bootstrapI) :
    Exec.Sat (update parts readings hdrBinary) before returns raises ↔
      (∀ header, arrival parts readings hdrBinary = .ok header →
        Exec.Sat (addToParent parts readings header) before
          (fun _ middle => Exec.Sat (afterAdd parts readings header.blkNum) middle returns raises)
          raises) ∧
      ∀ error, arrival parts readings hdrBinary = .error error → raises error before := by
  simp only [update, beforeMaintenance, afterAdd, Exec.sat_bind, Exec.sat_get, later, if_false,
    updateOnRuntime, Exec.sat_ofExcept, Exec.sat_pure, arrival]
  cases readings.arrivalTime with
  | error error => simp [Except.bind]
  | ok arrivalTime => simp [Except.bind]

end Unfolding

/-- The rule for properties of the shared state. -/
theorem update_shared (property : Shared κ ω → Prop)
    (maintained : Maintained parts readings property) {hdrBinary : Bytes}
    {before : EclipseMonitor κ ω δ}
    (refused : passed parts before readings hdrBinary = none → property before.shared)
    (validated : ∀ header secState, passed parts before readings hdrBinary = some header →
      Exec.Sat (parts.onHeaderValidated readings.host header) { before.shared with secState }
        (fun _ => property) fun _ => property)
    (refreshes : ∀ shared header, property shared → shared.phase = .bootstrapII →
      received parts before readings hdrBinary = .ok header →
      header.blkNum = shared.planedSyncBlkNum →
      Exec.Sat (Shared.newSyncState parts.codec readings) { shared with phase := .sync }
        (fun _ => property) fun _ => property) :
    Exec.Sat (update parts readings hdrBinary) before (fun _ after => property after.shared)
      fun _ after => property after.shared := by
  have rest : ∀ {middle : EclipseMonitor κ ω δ} {header : HeaderMgr}, property middle.shared →
      received parts before readings hdrBinary = .ok header →
      Exec.Sat (afterAdd parts readings header.blkNum) middle (fun _ after => property after.shared)
        fun _ after => property after.shared := by
    intro middle header held isReceived
    exact afterAdd_shared maintained header.blkNum held fun phase planed =>
      refreshes middle.shared header held phase isReceived planed
  by_cases phase : before.shared.phase = .bootstrapI
  · simp only [update_onBootstrapI_sat phase]
    refine (updateOnBootstrapI_shared maintained phase refused validated).mono
      (fun blkNum middle done => ?_) fun _ _ after => after
    obtain ⟨held, header, isReceived, rfl⟩ := done
    exact rest held isReceived
  · have received_eq : received parts before readings hdrBinary = arrival parts readings hdrBinary := by
      simp [received, phase]
    rw [update_later_sat phase]
    refine ⟨fun header arrives => ?_, fun error failed => refused ?_⟩
    · have isReceived := received_eq.trans arrives
      have passed_eq : passed parts before readings hdrBinary =
          (acceptHeader parts before header).map Acceptance.header := by
        simp [passed, isReceived, phase]
      refine (addToParent_shared (fun none => refused ?_) fun accepts => ?_).mono
        (fun _ middle held => rest held isReceived) fun _ _ after => after
      · simp [passed_eq, none]
      · obtain ⟨acceptance, accepts⟩ := Option.isSome_iff_exists.mp accepts
        have same : acceptance.header = header := header_of_acceptHeader accepts
        exact validated header before.shared.secState (by simp [passed_eq, accepts, same])
    · simp [passed, received_eq, failed]

end Rules

end EclipseMonitor

end Decentagram.Eth
