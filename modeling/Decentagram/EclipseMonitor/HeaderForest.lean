import Decentagram.EclipseMonitor.EclipseMonitor

/-! # What a call does to the header tree

The header tree and its look-up maps change in three ways only: a header is added under its parent, the
last bootstrap header becomes the root, and a confirmed child becomes the root.  `update_forest` and
`endBootstrapI_forest` say this once for every call of the monitor; the results about reachable trees
and maps are about these three changes.
-/

namespace Decentagram.Eth

open Decentagram.Lib

/-- The tree under the last node, the look-up maps into it and the address of the next node. -/
structure Forest where
  lastNode : Option HeaderNode
  offlineNodes : NodeLookUpMap
  activeNodes : NodeLookUpMap
  nextAddr : NodeAddr

namespace Forest

/-- The forest with a new node under `parent`, if the tree owns that. -/
def grow (forest : Forest) (parent : NodeAddr) (header : HeaderMgr) (syncState : SyncStateRef)
    (isLive : Bool) : Option Forest :=
  (forest.lastNode.bind fun last => last.addChild parent forest.nextAddr header syncState).map
    fun last =>
      { lastNode := some last
        offlineNodes :=
          if isLive then forest.offlineNodes
          else UnorderedMap.emplace forest.offlineNodes header.hashObj forest.nextAddr
        activeNodes :=
          if isLive then UnorderedMap.emplace forest.activeNodes header.hashObj forest.nextAddr
          else forest.activeNodes
        nextAddr := forest.nextAddr + 1 }

theorem grow_isSome {forest grown : Forest} {parent : NodeAddr} {header : HeaderMgr}
    {syncState : SyncStateRef} {isLive : Bool}
    (grows : forest.grow parent header syncState isLive = some grown) : grown.lastNode.isSome := by
  obtain ⟨last, -, rfl⟩ := Option.map_eq_some_iff.mp grows
  rfl

/-- The forest after bootstrap I, whose last header is the only node. -/
def root (forest : Forest) (header : HeaderMgr) (syncState : SyncStateRef) : Forest where
  lastNode := some { addr := forest.nextAddr, header, syncState, children := .nil }
  offlineNodes := forest.offlineNodes.insert header.hashObj forest.nextAddr
  activeNodes := forest.activeNodes
  nextAddr := forest.nextAddr + 1

/-- The forest after `child` of `last` is confirmed. -/
def confirm (forest : Forest) (last child : HeaderNode) : Forest where
  lastNode := some child
  offlineNodes := (forest.offlineNodes.erase last.header.hashObj).erase child.header.hashObj
  activeNodes := (forest.activeNodes.erase last.header.hashObj).erase child.header.hashObj
  nextAddr := forest.nextAddr

end Forest

namespace EclipseMonitor

variable {κ ω δ ε : Type}

def forest (monitor : EclipseMonitor κ ω δ) : Forest where
  lastNode := monitor.checkpoint.lastNode
  offlineNodes := monitor.offlineNodes
  activeNodes := monitor.activeNodes
  nextAddr := monitor.nextAddr

/-- The header that a binary arrives as outside of bootstrap I. -/
def arrival (parts : Parts κ ω δ ε) (readings : Readings ε) (hdrBinary : Bytes) :
    Except Exception HeaderMgr :=
  readings.arrivalTime.bind (HeaderMgr.ofBinary parts.codec hdrBinary)

/-- A header, and the address and the header of the node it is added to. -/
structure Acceptance where
  addr : NodeAddr
  parent : HeaderMgr
  header : HeaderMgr

/-- Where the header is added: its parent is found, and both checks pass against it. -/
def acceptHeader (parts : Parts κ ω δ ε) (monitor : EclipseMonitor κ ω δ) (header : HeaderMgr) :
    Option Acceptance := do
  let (addr, isParentLive) ← monitor.findParent header
  let parent ← monitor.deref addr
  if parts.validator.commonValidate parent isParentLive header monitor.shared.isSynced = .ok true ∧
      parts.diffChecker.checkDifficulty monitor.diffState parent header = true then
    some { addr, parent, header }
  else none

/-- Where an `Update` outside of bootstrap I adds its header. -/
def accepted (parts : Parts κ ω δ ε) (monitor : EclipseMonitor κ ω δ) (readings : Readings ε)
    (hdrBinary : Bytes) : Option Acceptance :=
  if monitor.shared.phase = .bootstrapI then none
  else
    match arrival parts readings hdrBinary with
    | .ok header => acceptHeader parts monitor header
    | .error _ => none

/-- The forest with the new header. -/
def growAt (monitor : EclipseMonitor κ ω δ) (acceptance : Acceptance) : Option Forest :=
  monitor.forest.grow acceptance.addr acceptance.header monitor.shared.syncMsgMgr.lastSyncState
    monitor.shared.isSynced

/-- The forests that can stand before the maintenance of an `Update`. -/
inductive Prepares (parts : Parts κ ω δ ε) (before : EclipseMonitor κ ω δ) (readings : Readings ε)
    (hdrBinary : Bytes) : Forest → Prop where
  | same : accepted parts before readings hdrBinary = none →
      Prepares parts before readings hdrBinary before.forest
  | added {acceptance : Acceptance} {grown : Forest} :
      accepted parts before readings hdrBinary = some acceptance →
      before.growAt acceptance = some grown → Prepares parts before readings hdrBinary grown
  | handedOver (header : HeaderMgr) (syncState : SyncStateRef) : before.forest.lastNode = none →
      Prepares parts before readings hdrBinary (before.forest.root header syncState)

/-- The maintenance leaves the forest or confirms a child of its root. -/
inductive Maintains (chkptSize : Nat) (forest : Forest) : Forest → Prop where
  | same : Maintains chkptSize forest forest
  | confirmed {last child remaining : HeaderNode} : forest.lastNode = some last →
      last.releaseChildHasNDesc chkptSize = some (child, remaining) →
      Maintains chkptSize forest (forest.confirm last child)

/-- An observation of what only the monitor itself changes. -/
structure OwnState {γ : Type} (observe : EclipseMonitor κ ω δ → γ) : Prop where
  shared : ∀ shared monitor, observe { monitor with shared } = observe monitor
  diffState : ∀ diffState monitor, observe { monitor with diffState } = observe monitor

theorem ownState_forest : OwnState (forest : EclipseMonitor κ ω δ → Forest) where
  shared _ _ := rfl
  diffState _ _ := rfl

section Frames

variable (parts : Parts κ ω δ ε) (readings : Readings ε) {γ : Type}
  {observe : EclipseMonitor κ ω δ → γ}

theorem onShared_keeps (own : OwnState observe) {α : Type} (call : Exec Exception (Shared κ ω) α) :
    Exec.Keeps (onShared call) observe :=
  Exec.keeps_zoom call own.shared

theorem confirmHeaders_keeps (own : OwnState observe) (headers : List HeaderMgr) :
    Exec.Keeps (confirmHeaders parts headers) observe := by
  induction headers with
  | nil => exact Exec.keeps_pure ()
  | cons header headers inductionHypothesis =>
    exact (onShared_keeps own _).bind fun _ => inductionHypothesis

theorem onDiffState_keeps (own : OwnState observe) {α : Type} (call : Exec Exception δ α) :
    Exec.Keeps (onDiffState call) observe :=
  Exec.keeps_zoom call own.diffState

theorem onCheckpointComplete_keeps (own : OwnState observe) :
    Exec.Keeps (onCheckpointComplete parts) observe := by
  refine Exec.keeps_get.bind fun monitor => (Exec.keeps_ofExcept _).bind fun lastHeader => ?_
  exact (onShared_keeps own _).bind fun _ => (onDiffState_keeps own _).bind fun _ =>
    confirmHeaders_keeps parts own _

/-- Completing keeps the forest, so an add operation changes it only through its last node. -/
theorem thenComplete_sat {add : Exec Exception CheckpointMgr Bool} {before : EclipseMonitor κ ω δ}
    (property : Forest → Prop)
    (adds : Exec.Sat add before.checkpoint
      (fun _ after => property { before.forest with lastNode := after.lastNode })
      (fun _ after => property { before.forest with lastNode := after.lastNode })) :
    Exec.Sat (thenComplete parts add) before (fun _ after => property after.forest)
      (fun _ after => property after.forest) := by
  unfold thenComplete onCheckpoint
  rw [Exec.sat_bind, Exec.sat_zoom]
  refine adds.mono (fun completed checkpoint holds => ?_) (fun _ _ holds => holds)
  cases completed with
  | false => exact holds
  | true => exact (onCheckpointComplete_keeps parts ownState_forest).sat holds

theorem addHeader_keeps (header : Option HeaderMgr) :
    Exec.Keeps (CheckpointMgr.addHeader header) CheckpointMgr.lastNode := by
  cases header with
  | none => exact Exec.keeps_throw _
  | some header =>
    refine Exec.keeps_get.bind fun checkpoint => (Exec.keeps_throwIf _ _).bind fun _ => ?_
    refine .bind (Exec.keeps_modify fun _ => rfl) fun _ => Exec.keeps_get.bind fun checkpoint => ?_
    exact .ite (.bind (Exec.keeps_modify fun _ => rfl) fun _ => Exec.keeps_pure _) (Exec.keeps_pure _)

theorem validateOnBootstrapI_keeps (own : OwnState observe) (header : HeaderMgr) :
    Exec.Keeps (validateOnBootstrapI parts header) observe := by
  refine Exec.keeps_get.bind fun monitor => .ite (onShared_keeps own _) ?_
  exact (Exec.keeps_ofExcept _).bind fun lastHeader => (Exec.keeps_ofExcept _).bind fun valid =>
    Exec.keeps_throwIf _ _

theorem updateOnBootstrapI_keeps (hdrBinary : Bytes) :
    Exec.Keeps (updateOnBootstrapI parts readings hdrBinary) forest := by
  refine (Exec.keeps_ofExcept _).bind fun header => ?_
  refine (validateOnBootstrapI_keeps parts ownState_forest header).bind fun _ => ?_
  refine (onShared_keeps ownState_forest _).bind fun _ => Exec.Keeps.bind (fun before => ?_) fun _ =>
    Exec.keeps_pure _
  apply thenComplete_sat parts fun after => after = before.forest
  exact (addHeader_keeps (some header) before.checkpoint).mono
    (fun _ _ same => by rw [same]; rfl) (fun _ _ same => by rw [same]; rfl)

end Frames

section Changes

variable (parts : Parts κ ω δ ε) (readings : Readings ε) (before : EclipseMonitor κ ω δ)

theorem endBootstrapI_forest :
    Exec.Sat endBootstrapI before
      (fun _ after => before.forest.lastNode = none ∧
        ∃ header syncState, after.forest = before.forest.root header syncState)
      (fun _ after => after.forest = before.forest) := by
  simp only [endBootstrapI, onCheckpoint, CheckpointMgr.endBootstrapPhase, Exec.sat_bind, Exec.sat_get,
    Exec.sat_zoom, Exec.sat_throwIf]
  refine ⟨fun _ => trivial, fun noNode => ⟨fun _ => trivial, fun _ => ?_⟩⟩
  cases before.checkpoint.currWindow.getLast? with
  | none => trivial
  | some header =>
    simp only [Exec.sat_modify, Exec.sat_ofExcept, CheckpointMgr.getLastNode]
    refine ⟨fun last isLast => ⟨by simpa [forest] using noNode, header,
      before.shared.syncMsgMgr.lastSyncState, ?_⟩, by simp⟩
    cases isLast
    rfl

theorem phaseChangeCheck_forest (blkNum : BlockNumber) :
    Exec.Sat (phaseChangeCheck parts readings blkNum) before
      (fun _ after => after.forest = before.forest ∨ before.forest.lastNode = none ∧
        ∃ header syncState, after.forest = before.forest.root header syncState)
      (fun _ after => after.forest = before.forest) := by
  simp only [phaseChangeCheck, Exec.sat_bind, Exec.sat_get]
  cases before.shared.phase with
  | bootstrapI =>
    simp only [Exec.sat_ite, Exec.sat_pure, true_or, implies_true, and_true]
    exact fun _ => (endBootstrapI_forest before).mono (fun _ _ => .inr) fun _ _ => id
  | bootstrapII =>
    simp only [Exec.sat_ite, Exec.sat_pure, true_or, implies_true, and_true]
    exact fun _ => (onShared_keeps ownState_forest _ before).mono (fun _ _ => .inl) fun _ _ => id
  | sync => exact .inl rfl
  | runtime => exact .inl rfl

theorem addNewNode_forest (parentNode : NodeAddr) (header : HeaderMgr) (syncState : SyncStateRef)
    (isNewNodeLive : Bool) :
    Exec.Sat (addNewNode parentNode header syncState isNewNodeLive) before
      (fun _ after => before.forest.grow parentNode header syncState isNewNodeLive =
        some after.forest)
      (fun _ _ => False) := by
  simp only [addNewNode, Exec.sat_bind, Exec.sat_get]
  cases added : before.checkpoint.lastNode.bind fun last =>
      last.addChild parentNode before.nextAddr header syncState with
  | none => trivial
  | some last =>
    simp only [Exec.sat_bind, Exec.sat_modify, Exec.sat_ite, Forest.grow, forest, added,
      Option.map_some, Option.some.injEq, Forest.mk.injEq, true_and, and_true]
    cases isNewNodeLive <;> simp

theorem addToParent_forest (header : HeaderMgr) :
    Exec.Sat (addToParent parts readings header) before
      (fun _ after =>
        (acceptHeader parts before header = none ∧ after.forest = before.forest) ∨
        ∃ acceptance, acceptHeader parts before header = some acceptance ∧
          before.growAt acceptance = some after.forest)
      (fun _ after => after.forest = before.forest) := by
  simp only [addToParent, Exec.sat_bind, Exec.sat_get]
  cases found : before.findParent header with
  | none => exact .inl ⟨by simp [acceptHeader, found], rfl⟩
  | some entry =>
    obtain ⟨parentNode, isParentNodeLive⟩ := entry
    simp only [updateOnRuntimeAddChild, Exec.sat_bind, Exec.sat_get]
    cases owned : before.deref parentNode with
    | none => trivial
    | some parent =>
      simp only [Exec.sat_bind, Exec.sat_ofExcept, Exec.sat_ite, Exec.sat_pure, implies_true, and_true,
        Bool.and_eq_true]
      intro validateRes validated
      constructor
      · intro passes
        obtain ⟨valid, -, difficulty⟩ := passes
        subst valid
        have accepts : acceptHeader parts before header =
            some { addr := parentNode, parent, header } := by
          simp [acceptHeader, found, owned, validated, difficulty]
        refine (onShared_keeps ownState_forest _ before).mono (fun _ middle same => ?_)
          fun _ _ same => same
        refine (addNewNode_forest middle _ _ _ _).mono (fun _ after grown => .inr ⟨_, accepts, ?_⟩)
          fun _ _ impossible => impossible.elim
        rw [growAt, ← same]
        exact grown
      · intro failed
        left
        have refused : ¬ (validateRes = true ∧
            parts.diffChecker.checkDifficulty before.diffState parent header = true) :=
          fun passes => failed ⟨passes.1, passes.1, passes.2⟩
        simpa [acceptHeader, found, owned, validated] using refused

theorem updateOnRuntime_forest (hdrBinary : Bytes) (later : before.shared.phase ≠ .bootstrapI) :
    Exec.Sat (updateOnRuntime parts readings hdrBinary) before
      (fun _ after =>
        (accepted parts before readings hdrBinary = none ∧ after.forest = before.forest) ∨
        after.forest.lastNode.isSome ∧ Prepares parts before readings hdrBinary after.forest)
      (fun _ after => after.forest = before.forest) := by
  simp only [updateOnRuntime, Exec.sat_bind, Exec.sat_ofExcept, Exec.sat_pure, implies_true, and_true]
  intro time arrived header parsed
  have accepts : accepted parts before readings hdrBinary = acceptHeader parts before header := by
    simp only [accepted, later, if_false, arrival, arrived, Except.bind, parsed]
  rw [accepts]
  refine (addToParent_forest parts readings before header).mono (fun _ after => ?_) fun _ _ => id
  rintro (refused | ⟨acceptance, acceptedHere, grown⟩)
  · exact .inl refused
  · exact .inr ⟨Forest.grow_isSome grown, .added (accepts.trans acceptedHere) grown⟩

/-- What the check for a phase change keeps: it hands over only where no header was added. -/
theorem phaseChangeCheck_prepares (middle : EclipseMonitor κ ω δ) (blkNum : BlockNumber)
    (hdrBinary : Bytes)
    (prepared : (accepted parts before readings hdrBinary = none ∧ middle.forest = before.forest) ∨
      middle.forest.lastNode.isSome ∧ Prepares parts before readings hdrBinary middle.forest) :
    Exec.Sat (phaseChangeCheck parts readings blkNum) middle
      (fun _ after => Prepares parts before readings hdrBinary after.forest)
      (fun _ after => Prepares parts before readings hdrBinary after.forest) := by
  have now : Prepares parts before readings hdrBinary middle.forest := by
    rcases prepared with ⟨refused, same⟩ | ⟨-, prepares⟩
    · exact same ▸ .same refused
    · exact prepares
  refine (phaseChangeCheck_forest parts readings middle blkNum).mono (fun _ after => ?_)
    fun _ after same => same ▸ now
  rintro (same | ⟨noNode, header, syncState, root⟩)
  · exact same ▸ now
  · rcases prepared with ⟨-, same⟩ | ⟨hasNode, -⟩
    · rw [root, same]
      exact .handedOver header syncState (same ▸ noNode)
    · simp [noNode] at hasNode

/-- The forest before the maintenance, and that of an `Update` that throws earlier. -/
theorem beforeMaintenance_forest (hdrBinary : Bytes) :
    Exec.Sat (beforeMaintenance parts readings hdrBinary) before
      (fun _ after => Prepares parts before readings hdrBinary after.forest)
      (fun _ after => Prepares parts before readings hdrBinary after.forest ∨
        after.forest = before.forest) := by
  simp only [beforeMaintenance, Exec.sat_bind, Exec.sat_get, Exec.sat_ite]
  refine ⟨fun isBootstrap => ?_, fun later => ?_⟩
  · have refused : accepted parts before readings hdrBinary = none := by simp [accepted, isBootstrap]
    refine (updateOnBootstrapI_keeps parts readings hdrBinary before).mono
      (fun blkNum middle same => ?_) fun _ _ => .inr
    exact (phaseChangeCheck_prepares parts readings before middle blkNum hdrBinary
      (.inl ⟨refused, same⟩)).mono (fun _ _ => id) fun _ _ => .inl
  · refine (updateOnRuntime_forest parts readings before hdrBinary later).mono
      (fun blkNum middle prepared => ?_) fun _ _ => .inr
    exact (phaseChangeCheck_prepares parts readings before middle blkNum hdrBinary prepared).mono
      (fun _ _ => id) fun _ _ => .inl

theorem addNode_sat (checkpoint : CheckpointMgr) (node : HeaderNode) :
    Exec.Sat (CheckpointMgr.addNode (some node)) checkpoint
      (fun _ after => after.lastNode = some node) (fun _ _ => False) := by
  simp only [CheckpointMgr.addNode, Exec.sat_bind, Exec.sat_get, Exec.sat_ite, Exec.sat_modify,
    Exec.sat_pure, implies_true, and_self]

theorem confirmChild_forest :
    Exec.Sat (confirmChild parts) before
      (fun _ after => Maintains parts.chkptSize before.forest after.forest)
      (fun _ after => Maintains parts.chkptSize before.forest after.forest) := by
  simp only [confirmChild, Exec.sat_bind, Exec.sat_get, Exec.sat_ofExcept]
  refine ⟨fun last isLast => ?_, fun _ _ => .same⟩
  have hasLast : before.forest.lastNode = some last := by
    cases noNode : before.checkpoint.lastNode with
    | none => simp [CheckpointMgr.getLastNode, noNode] at isLast
    | some last' =>
      simp only [CheckpointMgr.getLastNode, noNode, Except.ok.injEq] at isLast
      exact isLast ▸ noNode
  cases released : last.releaseChildHasNDesc parts.chkptSize with
  | none => exact .same
  | some pair =>
    obtain ⟨child, remaining⟩ := pair
    simp only [moveToCheckpoint, Exec.sat_bind, Exec.sat_modify]
    apply thenComplete_sat parts (Maintains parts.chkptSize before.forest)
    refine (addNode_sat _ child).mono (fun _ after moved => ?_) fun _ _ impossible => impossible.elim
    rw [moved]
    exact .confirmed hasLast released

/-- The sweep changes nothing: where it would erase an entry, its behaviour is undefined. -/
theorem sweep_keeps {γ : Type} (observe : EclipseMonitor κ ω δ → γ) (now : TrustedTimestamp)
    (entries : List (Sigma fun _ : Bytes => NodeAddr)) :
    Exec.Keeps (sweep parts now entries) observe := by
  induction entries with
  | nil => exact Exec.keeps_pure ()
  | cons entry entries inductionHypothesis =>
    refine Exec.keeps_get.bind fun monitor => ?_
    cases monitor.deref entry.2 with
    | none => exact Exec.keeps_undefined
    | some header =>
      exact (Exec.keeps_ofExcept _).bind fun alive => .ite inductionHypothesis Exec.keeps_undefined

theorem expireNodes_keeps {γ : Type} (observe : EclipseMonitor κ ω δ → γ) :
    Exec.Keeps (expireNodes parts readings) observe :=
  (Exec.keeps_ofExcept _).bind fun now => Exec.keeps_get.bind fun _ =>
    sweep_keeps parts observe now _

theorem runtimeMaintenance_forest :
    Exec.Sat (runtimeMaintenance parts readings) before
      (fun _ after => Maintains parts.chkptSize before.forest after.forest)
      (fun _ after => Maintains parts.chkptSize before.forest after.forest) := by
  rw [runtimeMaintenance, Exec.sat_bind]
  refine (confirmChild_forest parts before).mono (fun _ middle maintained => ?_) fun _ _ => id
  exact (expireNodes_keeps parts readings forest).sat maintained

/-- All that an `Update` does to the forest, however it ends. -/
inductive Changes (parts : Parts κ ω δ ε) (before : EclipseMonitor κ ω δ) (readings : Readings ε)
    (hdrBinary : Bytes) (after : Forest) : Prop where
  | same : after = before.forest → Changes parts before readings hdrBinary after
  | maintained {middle : Forest} : Prepares parts before readings hdrBinary middle →
      Maintains parts.chkptSize middle after → Changes parts before readings hdrBinary after

theorem update_forest (hdrBinary : Bytes) :
    Exec.Sat (update parts readings hdrBinary) before
      (fun _ after => Changes parts before readings hdrBinary after.forest)
      (fun _ after => Changes parts before readings hdrBinary after.forest) := by
  simp only [update, Exec.sat_bind, Exec.sat_get, Exec.sat_ite, Exec.sat_pure]
  refine (beforeMaintenance_forest parts readings before hdrBinary).mono
    (fun _ middle prepares => ⟨fun _ => ?_, fun _ => .maintained prepares .same⟩) ?_
  · exact (runtimeMaintenance_forest parts readings middle).mono
      (fun _ _ => .maintained prepares) fun _ _ => .maintained prepares
  · rintro _ _ (prepares | same)
    · exact .maintained prepares .same
    · exact .same same

/-- The rule for properties of the forest: what the three changes keep, every call keeps. -/
theorem step_preserves {parts : Parts κ ω δ ε} {before after : EclipseMonitor κ ω δ}
    {label : Label κ ω ε} (property : Forest → Prop) (step : Step parts before label after)
    (held : property before.forest)
    (onRoot : before.forest.lastNode = none → ∀ header syncState,
      property (before.forest.root header syncState))
    (onAdd : ∀ readings hdrBinary acceptance grown, label = .update readings hdrBinary →
      accepted parts before readings hdrBinary = some acceptance →
      before.growAt acceptance = some grown → property grown)
    (onConfirm : ∀ readings hdrBinary middle last child remaining,
      label = .update readings hdrBinary → Prepares parts before readings hdrBinary middle →
      property middle → middle.lastNode = some last →
      last.releaseChildHasNDesc parts.chkptSize = some (child, remaining) →
      property (middle.confirm last child)) : property after.forest := by
  cases label with
  | owner change =>
    exact Exec.Sat.ends (fun after => property after.forest)
      ((onShared_keeps ownState_forest _).sat held) step
  | endBootstrapI =>
    refine Exec.Sat.ends (fun after => property after.forest)
      ((endBootstrapI_forest before).mono ?_ ?_) step
    · rintro _ _ ⟨noNode, header, syncState, root⟩
      exact root ▸ onRoot noNode header syncState
    · exact fun _ _ same => same ▸ held
  | update readings hdrBinary =>
    rcases Exec.Sat.ends _ (update_forest parts readings before hdrBinary) step with
      same | @⟨middle, prepares, maintains⟩
    · exact same ▸ held
    · generalize after.forest = result at maintains ⊢
      have heldMiddle : property middle := by
        cases prepares with
        | same => exact held
        | added accepts grown => exact onAdd _ _ _ _ rfl accepts grown
        | handedOver header syncState noNode => exact onRoot noNode header syncState
      cases maintains with
      | same => exact heldMiddle
      | confirmed hasLast released =>
        exact onConfirm _ _ _ _ _ _ rfl prepares heldMiddle hasLast released

end Changes

end EclipseMonitor

end Decentagram.Eth
