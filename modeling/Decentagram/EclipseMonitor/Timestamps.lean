import Decentagram.EclipseMonitor.Confirmation
import Decentagram.EclipseMonitor.SharedState
import Mathlib.Data.List.Chain

/-! # Timestamps along accepted chains

The difficulty calculator subtracts the parent's time from the current one and takes it for granted
that the validation has compared them.  No check of the monitor does.  What is accepted increases in
time as long as no header that passes the validation is dated at or before the header it is checked
against.
-/

namespace Decentagram.Eth

open Decentagram.Lib

def Later (parent current : HeaderMgr) : Prop := parent.time < current.time

instance (parent current : HeaderMgr) : Decidable (Later parent current) :=
  inferInstanceAs (Decidable (parent.time < current.time))

/-- A header joins the chain if it is later than the last one. -/
theorem isChain_extend {headers after : List HeaderMgr} {header : HeaderMgr}
    (chain : headers.IsChain Later) (suffix : after <:+ headers ++ [header])
    (later : ∀ last, headers.getLast? = some last → Later last header) : after.IsChain Later := by
  have longer : (headers ++ [header]).IsChain Later := by
    apply List.isChain_append.mpr
    refine ⟨chain, List.isChain_singleton _, fun last isLast next isNext => ?_⟩
    cases isNext
    exact later last isLast
  exact longer.suffix suffix

namespace CheckpointMgr

/-- The headers the checkpoint holds, in the order in which they were added. -/
def headers (checkpoint : CheckpointMgr) : List HeaderMgr :=
  checkpoint.currWindow ++ checkpoint.candidate ++ (checkpoint.lastNode.map HeaderNode.header).toList

/-- A last node that is no candidate has no candidates before it. -/
def Ordered (checkpoint : CheckpointMgr) : Prop :=
  checkpoint.lastNode.isSome → checkpoint.isLastNodeCandidate = false → checkpoint.candidate = []

theorem getLastHeader_eq {checkpoint : CheckpointMgr} {header : HeaderMgr}
    (isLast : checkpoint.getLastHeader = .ok header) : checkpoint.headers.getLast? = some header := by
  unfold getLastHeader at isLast
  unfold headers
  split at isLast
  next last hasLast =>
    cases isLast
    simp [hasLast]
  next noNode =>
    split at isLast
    next last hasLast =>
      cases isLast
      simp [noNode, List.getLast?_append, hasLast]
    next noCandidate =>
      split at isLast
      next last hasLast =>
        cases isLast
        simp [noNode, List.getLast?_append, noCandidate, hasLast]
      next => cases isLast

theorem headers_of_isEmpty {checkpoint : CheckpointMgr} (isEmpty : checkpoint.isEmpty = true) :
    checkpoint.headers = [] := by
  simp only [CheckpointMgr.isEmpty, Bool.and_eq_true, Option.isNone_iff_eq_none,
    List.isEmpty_iff] at isEmpty
  simp [headers, isEmpty]

/-- A new header goes to the end; a completed window drops headers at the front. -/
theorem addHeader_headers (checkpoint : CheckpointMgr) (header : HeaderMgr) :
    Exec.Sat (addHeader (some header)) checkpoint
      (fun _ after => after.headers <:+ checkpoint.headers ++ [header] ∧ after.lastNode = none)
      (fun _ after => after = checkpoint) := by
  simp only [addHeader, Exec.sat_bind, Exec.sat_get, Exec.sat_throwIf, Exec.sat_modify, Exec.sat_ite,
    Exec.sat_pure, implies_true, true_and]
  intro noNode
  have none : checkpoint.lastNode = none := by simpa using noNode
  constructor
  · intro full
    refine ⟨?_, none⟩
    simp only [headers, none, Option.map_none, Option.toList_none, List.append_nil]
    exact ⟨checkpoint.currWindow, by simp⟩
  · intro short
    refine ⟨?_, none⟩
    simp [headers, none]

theorem addNode_headers {checkpoint : CheckpointMgr} (ordered : checkpoint.Ordered) (node : HeaderNode) :
    Exec.Sat (addNode (some node)) checkpoint
      (fun _ after => after.headers <:+ checkpoint.headers ++ [node.header] ∧
        after.lastNode = some node ∧ after.Ordered)
      (fun _ _ => False) := by
  simp only [addNode, Exec.sat_bind, Exec.sat_get, Exec.sat_ite, Exec.sat_modify, Exec.sat_pure]
  constructor
  · intro full
    refine ⟨?_, trivial, fun _ _ => rfl⟩
    cases hasLast : checkpoint.lastNode with
    | none => exact ⟨checkpoint.currWindow, by simp [headers, hasLast]⟩
    | some last => exact ⟨checkpoint.currWindow, by simp [headers, hasLast]⟩
  · intro short
    refine ⟨?_, trivial, fun _ notCandidate => by cases notCandidate⟩
    cases hasLast : checkpoint.lastNode with
    | none => simp [headers, hasLast]
    | some last =>
      cases isCandidate : checkpoint.isLastNodeCandidate with
      | true => simp [headers, hasLast]
      | false =>
        have noCandidate := ordered (by simp [hasLast]) isCandidate
        simp [headers, hasLast, noCandidate]

theorem endBootstrapPhase_headers (checkpoint : CheckpointMgr) (syncState : SyncStateRef)
    (addr : NodeAddr) :
    Exec.Sat (endBootstrapPhase syncState addr) checkpoint
      (fun _ after => after.headers = checkpoint.headers ∧ after.Ordered ∧
        ∃ header, after.lastNode = some { addr, header, syncState, children := .nil })
      (fun _ after => after = checkpoint) := by
  simp only [endBootstrapPhase, Exec.sat_bind, Exec.sat_get, Exec.sat_throwIf]
  refine ⟨fun _ => trivial, fun hasNoNode => ⟨fun _ => trivial, fun noneLeft => ?_⟩⟩
  have noNode : checkpoint.lastNode = none := by simpa using hasNoNode
  have noCandidate : checkpoint.candidate = [] := by simpa using noneLeft
  cases isLast : checkpoint.currWindow.getLast? with
  | none => trivial
  | some header =>
    have split : checkpoint.currWindow.dropLast ++ [header] = checkpoint.currWindow :=
      List.dropLast_append_getLast? header isLast
    simp only [Exec.sat_modify]
    refine ⟨?_, fun _ _ => noCandidate, header, rfl⟩
    simp [headers, noNode, noCandidate, split]

end CheckpointMgr

/-- Every node of the tree is later than its parent.  The addresses are distinct, so that the node found
    by a pointer is the node a child is added to. -/
structure TimedTree (nextAddr : NodeAddr) (last : HeaderNode) : Prop where
  addrs : (last.nodes.map Prod.fst).Nodup
  allocated : ∀ node ∈ last.nodes, node.1 < nextAddr
  later : ∀ edge ∈ last.edges, Later edge.1 edge.2

theorem timedTree_root (addr : NodeAddr) (header : HeaderMgr) (syncState : SyncStateRef) :
    TimedTree (addr + 1) { addr, header, syncState, children := .nil } where
  addrs := by simp [HeaderNode.nodes, ChildInfos.nodes]
  allocated := by simp [HeaderNode.nodes, ChildInfos.nodes]
  later := by simp [HeaderNode.edges, ChildInfos.edges]

theorem TimedTree.addChild {nextAddr parentNode : NodeAddr} {last grown : HeaderNode}
    {parent header : HeaderMgr} {syncState : SyncStateRef} (tree : TimedTree nextAddr last)
    (owned : last.deref parentNode = some parent) (later : Later parent header)
    (adds : last.addChild parentNode nextAddr header syncState = some grown) :
    TimedTree (nextAddr + 1) grown := by
  obtain ⟨nodesPerm, ⟨parentHeader, parentMember, edges_iff⟩, -⟩ := HeaderNode.addChild_spec adds
  have sameParent : parentHeader = parent :=
    congrArg Prod.snd (List.inj_on_of_nodup_map tree.addrs parentMember
      (HeaderNode.mem_nodes_of_deref owned) rfl)
  refine ⟨?_, fun node member => ?_, fun edge member => ?_⟩
  · apply (nodesPerm.map _).nodup_iff.mpr
    refine List.nodup_cons.mpr ⟨fun held => ?_, tree.addrs⟩
    obtain ⟨node, nodeMember, same⟩ := List.mem_map.mp held
    have sameAddr : node.1 = nextAddr := same
    exact absurd (tree.allocated node nodeMember) (sameAddr ▸ Nat.lt_irrefl _)
  · cases List.mem_cons.mp (nodesPerm.mem_iff.mp member) with
    | inl new => simp [new]
    | inr old => exact Nat.lt_succ_of_lt (tree.allocated node old)
  · cases (edges_iff edge).mp member with
    | inl new =>
      subst new sameParent
      exact later
    | inr old => exact tree.later edge old

/-- The released child is later than the root, and its own tree is a part of the root's. -/
theorem TimedTree.release {nextAddr : NodeAddr} {last child remaining : HeaderNode} {numOfDesc : Nat}
    (tree : TimedTree nextAddr last)
    (released : last.releaseChildHasNDesc numOfDesc = some (child, remaining)) :
    TimedTree nextAddr child ∧ Later last.header child.header := by
  obtain ⟨nodesPerm, edges, -⟩ := HeaderNode.releaseChildHasNDesc_spec released
  have addrs := (nodesPerm.map Prod.fst).nodup_iff.mp tree.addrs
  rw [List.map_append] at addrs
  refine ⟨⟨addrs.of_append_left, fun node member => ?_, fun edge member => ?_⟩, ?_⟩
  · exact tree.allocated node (nodesPerm.mem_iff.mpr (List.mem_append_left _ member))
  · exact tree.later edge (edges edge member)
  · exact tree.later _ (HeaderNode.edge_of_released released)

namespace EclipseMonitor

variable {κ ω δ ε : Type}

/-- The headers of the checkpoint and the nodes of the tree increase in time. -/
structure Timed (checkpoint : CheckpointMgr) (nextAddr : NodeAddr) : Prop where
  chain : checkpoint.headers.IsChain Later
  ordered : checkpoint.Ordered
  tree : ∀ last, checkpoint.lastNode = some last → TimedTree nextAddr last

def TimesIncrease (monitor : EclipseMonitor κ ω δ) : Prop := Timed monitor.checkpoint monitor.nextAddr

/-- The header that a received header is checked against, and whether it is live: the last one in
    bootstrap I, the one that its parent hash finds later. -/
def checkedAgainst (monitor : EclipseMonitor κ ω δ) (header : HeaderMgr) : Option (HeaderMgr × Bool) :=
  if monitor.shared.phase = .bootstrapI then
    if monitor.checkpoint.isEmpty then none
    else monitor.checkpoint.getLastHeader.toOption.map fun last => (last, false)
  else
    (monitor.findParent header).bind fun (parentNode, isParentNodeLive) =>
      (monitor.deref parentNode).map fun parent => (parent, isParentNodeLive)

def validates (parts : Parts κ ω δ ε) (monitor : EclipseMonitor κ ω δ) (parent : HeaderMgr)
    (isParentLive : Bool) (header : HeaderMgr) : Bool :=
  match parts.validator.commonValidate parent isParentLive header
    (monitor.shared.phase ≠ .bootstrapI && monitor.shared.isSynced) with
  | .ok valid => valid
  | .error _ => false

/-- The header passes the validation although it is not later than the header it is checked against. -/
def backdates (parts : Parts κ ω δ ε) (monitor : EclipseMonitor κ ω δ) : Label κ ω ε → Bool
  | .update readings hdrBinary =>
    match received parts monitor readings hdrBinary with
    | .ok header =>
      (monitor.checkedAgainst header).any fun (parent, isParentLive) =>
        header.time ≤ parent.time && validates parts monitor parent isParentLive header
    | .error _ => false
  | _ => false

/-- The parent and child that a step accepts. -/
def acceptedPair (parts : Parts κ ω δ ε) (monitor : EclipseMonitor κ ω δ) :
    Label κ ω ε → Option (HeaderMgr × HeaderMgr)
  | .update readings hdrBinary =>
    (passed parts monitor readings hdrBinary).bind fun header =>
      (monitor.checkedAgainst header).map fun (parent, _) => (parent, header)
  | _ => none

/-- What the monitor's own calls change of the checkpoint and the addresses. -/
def held (monitor : EclipseMonitor κ ω δ) : CheckpointMgr × NodeAddr :=
  (monitor.checkpoint, monitor.nextAddr)

theorem ownState_held : OwnState (held : EclipseMonitor κ ω δ → CheckpointMgr × NodeAddr) where
  shared _ _ := rfl
  diffState _ _ := rfl

theorem TimesIncrease.of_held {before after : EclipseMonitor κ ω δ} (timed : before.TimesIncrease)
    (same : after.held = before.held) : after.TimesIncrease := by
  have checkpoint : after.checkpoint = before.checkpoint := congrArg Prod.fst same
  have nextAddr : after.nextAddr = before.nextAddr := congrArg Prod.snd same
  unfold TimesIncrease
  rw [checkpoint, nextAddr]
  exact timed

section Steps

variable (parts : Parts κ ω δ ε) (readings : Readings ε) {before : EclipseMonitor κ ω δ}

/-- Completing a window keeps the checkpoint, so only the add operation changes it. -/
theorem thenComplete_timed {add : Exec Exception CheckpointMgr Bool}
    (adds : Exec.Sat add before.checkpoint (fun _ after => Timed after before.nextAddr)
      (fun _ after => Timed after before.nextAddr)) :
    Exec.Sat (thenComplete parts add) before (fun _ after => after.TimesIncrease)
      (fun _ after => after.TimesIncrease) := by
  unfold thenComplete onCheckpoint
  rw [Exec.sat_bind, Exec.sat_zoom]
  refine adds.mono (fun completed checkpoint timed => ?_) (fun _ _ timed => timed)
  cases completed with
  | false => exact timed
  | true =>
    have middleTimed : TimesIncrease { before with checkpoint } := timed
    exact (onCheckpointComplete_keeps parts ownState_held _).mono (fun _ _ => middleTimed.of_held)
      fun _ _ => middleTimed.of_held

theorem updateOnBootstrapI_timed {hdrBinary : Bytes} (timed : before.TimesIncrease)
    (phase : before.shared.phase = .bootstrapI)
    (timely : backdates parts before (.update readings hdrBinary) = false) :
    Exec.Sat (updateOnBootstrapI parts readings hdrBinary) before
      (fun _ after => after.TimesIncrease) (fun _ after => after.TimesIncrease) := by
  simp only [updateOnBootstrapI, Exec.sat_bind, Exec.sat_ofExcept, Exec.sat_pure]
  refine ⟨fun header parsed => ?_, fun _ _ => timed⟩
  -- what follows the checks, in a state that differs in the shared part only
  have adds : ∀ middle : EclipseMonitor κ ω δ, middle.held = before.held →
      (∀ last, before.checkpoint.headers.getLast? = some last → Later last header) →
      Exec.Sat (onShared (parts.onHeaderValidated readings.host header)) middle
        (fun _ middle => Exec.Sat (thenComplete parts (CheckpointMgr.addHeader (some header))) middle
          (fun _ after => after.TimesIncrease) fun _ after => after.TimesIncrease)
        fun _ after => after.TimesIncrease := by
    intro middle same later
    refine (onShared_keeps ownState_held _ middle).mono (fun _ next kept => ?_)
      fun _ _ kept => timed.of_held (kept.trans same)
    have checkpoint : next.checkpoint = before.checkpoint := congrArg Prod.fst (kept.trans same)
    have nextTimed := timed.of_held (kept.trans same)
    apply thenComplete_timed
    refine (CheckpointMgr.addHeader_headers _ header).mono (fun _ after added => ?_) fun _ _ unchanged => ?_
    · refine ⟨isChain_extend nextTimed.chain added.1 (checkpoint ▸ later), fun hasNode => ?_,
        fun last hasLast => ?_⟩
      · simp [added.2] at hasNode
      · simp [added.2] at hasLast
    · exact unchanged ▸ nextTimed
  simp only [validateOnBootstrapI, Exec.sat_bind, Exec.sat_get, Exec.sat_ite]
  constructor
  · intro isEmpty
    refine (onShared_keeps ownState_held _ before).mono (fun _ middle same => adds middle same ?_)
      fun _ _ same => timed.of_held same
    intro last isLast
    simp [CheckpointMgr.headers_of_isEmpty isEmpty] at isLast
  · intro notEmpty
    simp only [Exec.sat_ofExcept, Exec.sat_throwIf]
    refine ⟨fun last hasLast => ⟨fun valid validated => ⟨fun _ => timed, fun isValid => ?_⟩,
      fun _ _ => timed⟩, fun _ _ => timed⟩
    apply adds _ rfl
    intro last' isLast
    cases (CheckpointMgr.getLastHeader_eq hasLast).symm.trans isLast
    simp only [Bool.not_eq_true', Bool.not_eq_false] at isValid
    simpa [backdates, received, phase, parsed, checkedAgainst, notEmpty, hasLast, Except.toOption,
      validates, validated, isValid, Later] using timely

theorem endBootstrapI_timed (timed : before.TimesIncrease) :
    Exec.Sat endBootstrapI before (fun _ after => after.TimesIncrease)
      fun _ after => after.TimesIncrease := by
  simp only [endBootstrapI, onCheckpoint, Exec.sat_bind, Exec.sat_get, Exec.sat_zoom]
  refine (CheckpointMgr.endBootstrapPhase_headers _ _ _).mono (fun _ checkpoint ended => ?_)
    fun _ _ unchanged => unchanged ▸ timed
  obtain ⟨sameHeaders, ordered, header, isNode⟩ := ended
  simp only [CheckpointMgr.getLastNode, isNode, Exec.sat_ofExcept, Exec.sat_modify]
  refine ⟨fun last isLast => ⟨sameHeaders ▸ timed.chain, ordered, fun last hasLast => ?_⟩, by simp⟩
  cases isNode.symm.trans hasLast
  exact timedTree_root _ _ _

theorem phaseChangeCheck_timed (timed : before.TimesIncrease) (blkNum : BlockNumber) :
    Exec.Sat (phaseChangeCheck parts readings blkNum) before (fun _ after => after.TimesIncrease)
      fun _ after => after.TimesIncrease := by
  simp only [phaseChangeCheck, Exec.sat_bind, Exec.sat_get]
  cases before.shared.phase with
  | bootstrapI =>
    simp only [Exec.sat_ite, Exec.sat_pure]
    exact ⟨fun _ => endBootstrapI_timed timed, fun _ => timed⟩
  | bootstrapII =>
    simp only [Exec.sat_ite, Exec.sat_pure]
    refine ⟨fun _ => (onShared_keeps ownState_held _ before).mono (fun _ _ => timed.of_held)
      fun _ _ => timed.of_held, fun _ => timed⟩
  | sync => exact timed
  | runtime => exact timed

theorem addNewNode_timed {parentNode : NodeAddr} {parent header : HeaderMgr} (syncState : SyncStateRef)
    (isNewNodeLive : Bool) (timed : before.TimesIncrease) (owned : before.deref parentNode = some parent)
    (later : Later parent header) :
    Exec.Sat (addNewNode parentNode header syncState isNewNodeLive) before
      (fun _ after => after.TimesIncrease) fun _ _ => False := by
  simp only [addNewNode, Exec.sat_bind, Exec.sat_get]
  cases added : before.checkpoint.lastNode.bind fun last =>
      last.addChild parentNode before.nextAddr header syncState with
  | none => trivial
  | some grown =>
    obtain ⟨last, hasLast, adds⟩ := Option.bind_eq_some_iff.mp added
    have ownedByLast : last.deref parentNode = some parent := by
      simpa [deref, hasLast] using owned
    have sameHeader : grown.header = last.header := HeaderNode.header_addChild adds
    have grownTimed : Timed { before.checkpoint with lastNode := some grown } (before.nextAddr + 1) := {
      chain := by simpa [CheckpointMgr.headers, hasLast, sameHeader] using timed.chain
      ordered := fun _ => timed.ordered (by simp [hasLast])
      tree := by
        intro last' hasLast'
        cases hasLast'
        exact (timed.tree last hasLast).addChild ownedByLast later adds }
    simp only [Exec.sat_bind, Exec.sat_modify, Exec.sat_ite]
    exact ⟨fun _ => grownTimed, fun _ => grownTimed⟩

theorem updateOnRuntime_timed {hdrBinary : Bytes} (timed : before.TimesIncrease)
    (later : before.shared.phase ≠ .bootstrapI)
    (timely : backdates parts before (.update readings hdrBinary) = false) :
    Exec.Sat (updateOnRuntime parts readings hdrBinary) before (fun _ after => after.TimesIncrease)
      fun _ after => after.TimesIncrease := by
  simp only [updateOnRuntime, addToParent, Exec.sat_bind, Exec.sat_ofExcept, Exec.sat_get, Exec.sat_pure]
  refine ⟨fun arrivalTime arrives => ⟨fun header parsed => ?_, fun _ _ => timed⟩, fun _ _ => timed⟩
  cases found : before.findParent header with
  | none => exact timed
  | some entry =>
    obtain ⟨parentNode, isParentNodeLive⟩ := entry
    simp only [updateOnRuntimeAddChild, Exec.sat_bind, Exec.sat_get]
    cases owned : before.deref parentNode with
    | none => trivial
    | some parent =>
      simp only [Exec.sat_bind, Exec.sat_ofExcept, Exec.sat_ite, Exec.sat_pure, Bool.and_eq_true]
      refine ⟨fun valid validated => ⟨fun passes => ?_, fun _ => timed⟩, fun _ _ => timed⟩
      have isValid : valid = true := passes.1
      have laterThanParent : Later parent header := by
        simpa [backdates, received, arrival, later, arrives, parsed, Except.bind, checkedAgainst,
          found, owned, validates, validated, isValid, Later] using timely
      refine (onShared_keeps ownState_held _ before).mono (fun _ middle same => ?_)
        fun _ _ => timed.of_held
      have ownedStill : middle.deref parentNode = some parent := by
        rw [deref, show middle.checkpoint = before.checkpoint from congrArg Prod.fst same]
        exact owned
      exact (addNewNode_timed _ _ (timed.of_held same) ownedStill laterThanParent).mono
        (fun _ _ after => after) fun _ _ impossible => impossible.elim

/-- The confirmed child was checked against the last node, and follows it in the checkpoint. -/
theorem confirmChild_timed (timed : before.TimesIncrease) :
    Exec.Sat (confirmChild parts) before (fun _ after => after.TimesIncrease)
      fun _ after => after.TimesIncrease := by
  simp only [confirmChild, Exec.sat_bind, Exec.sat_get, Exec.sat_ofExcept]
  refine ⟨fun last isLast => ?_, fun _ _ => timed⟩
  have hasLast : before.checkpoint.lastNode = some last := by
    cases noNode : before.checkpoint.lastNode with
    | none => simp [CheckpointMgr.getLastNode, noNode] at isLast
    | some last' =>
      simp only [CheckpointMgr.getLastNode, noNode, Except.ok.injEq] at isLast
      exact isLast ▸ rfl
  cases released : last.releaseChildHasNDesc parts.chkptSize with
  | none => exact timed
  | some pair =>
    obtain ⟨child, remaining⟩ := pair
    obtain ⟨childTree, laterThanLast⟩ := (timed.tree last hasLast).release released
    have sameHeader : remaining.header = last.header := by
      obtain ⟨pair, -, equal⟩ := Option.map_eq_some_iff.mp released
      cases equal
      rfl
    have sameHeaders : { before.checkpoint with lastNode := some remaining }.headers =
        before.checkpoint.headers := by simp [CheckpointMgr.headers, hasLast, sameHeader]
    have ordered : { before.checkpoint with lastNode := some remaining }.Ordered :=
      fun _ => timed.ordered (by simp [hasLast])
    simp only [moveToCheckpoint, Exec.sat_bind, Exec.sat_modify]
    apply thenComplete_timed
    refine (CheckpointMgr.addNode_headers ordered child).mono (fun _ after moved => ?_)
      fun _ _ impossible => impossible.elim
    obtain ⟨suffix, isNode, orderedAfter⟩ := moved
    rw [sameHeaders] at suffix
    refine ⟨isChain_extend timed.chain suffix fun header isLastHeader => ?_, orderedAfter,
      fun last' hasLast' => ?_⟩
    · have same : header = last.header := by
        simpa [CheckpointMgr.headers, hasLast] using isLastHeader.symm
      exact same ▸ laterThanLast
    · cases isNode.symm.trans hasLast'
      exact childTree

theorem update_timed {hdrBinary : Bytes} (timed : before.TimesIncrease)
    (timely : backdates parts before (.update readings hdrBinary) = false) :
    Exec.Sat (update parts readings hdrBinary) before (fun _ after => after.TimesIncrease)
      fun _ after => after.TimesIncrease := by
  have prepares : Exec.Sat (beforeMaintenance parts readings hdrBinary) before
      (fun _ after => after.TimesIncrease) fun _ after => after.TimesIncrease := by
    simp only [beforeMaintenance, Exec.sat_bind, Exec.sat_get, Exec.sat_ite]
    constructor
    · intro phase
      exact (updateOnBootstrapI_timed parts readings timed phase timely).mono
        (fun blkNum _ after => phaseChangeCheck_timed parts readings after blkNum) fun _ _ after => after
    · intro later
      exact (updateOnRuntime_timed parts readings timed later timely).mono
        (fun blkNum _ after => phaseChangeCheck_timed parts readings after blkNum) fun _ _ after => after
  simp only [update, runtimeMaintenance, Exec.sat_bind, Exec.sat_get, Exec.sat_ite, Exec.sat_pure]
  refine prepares.mono (fun _ middle prepared => ⟨fun _ => ?_, fun _ => prepared⟩) fun _ _ after => after
  refine (confirmChild_timed parts prepared).mono (fun _ final confirmed => ?_) fun _ _ after => after
  exact (expireNodes_keeps parts readings id).sat_id TimesIncrease confirmed

end Steps

theorem step_timed {parts : Parts κ ω δ ε} {before after : EclipseMonitor κ ω δ} {label : Label κ ω ε}
    (timed : before.TimesIncrease) (timely : backdates parts before label = false)
    (step : Step parts before label after) : after.TimesIncrease := by
  cases label with
  | update readings hdrBinary =>
    exact Exec.Sat.ends TimesIncrease (update_timed parts readings timed timely) step
  | endBootstrapI => exact Exec.Sat.ends TimesIncrease (endBootstrapI_timed timed) step
  | owner change =>
    apply Exec.Sat.ends TimesIncrease _ step
    exact (onShared_keeps ownState_held _ before).mono (fun _ _ => timed.of_held)
      fun _ _ => timed.of_held

/-- What is accepted passed the validation against the header it is checked against. -/
theorem validates_of_passed {parts : Parts κ ω δ ε} {before : EclipseMonitor κ ω δ}
    {readings : Readings ε} {hdrBinary : Bytes} {parent child : HeaderMgr} {isParentLive : Bool}
    (isPassed : passed parts before readings hdrBinary = some child)
    (checked : before.checkedAgainst child = some (parent, isParentLive)) :
    received parts before readings hdrBinary = .ok child ∧
      validates parts before parent isParentLive child = true := by
  unfold passed at isPassed
  cases isReceived : received parts before readings hdrBinary with
  | error _ => simp [isReceived] at isPassed
  | ok header =>
    simp only [isReceived] at isPassed
    split at isPassed
    next phase =>
      split at isPassed
      next passes =>
        cases isPassed
        refine ⟨rfl, ?_⟩
        simp only [checkedAgainst, phase, if_true] at checked
        split at checked
        · cases checked
        next notEmpty =>
          cases hasLast : before.checkpoint.getLastHeader with
          | error _ => simp [hasLast, Except.toOption] at checked
          | ok last =>
            simp only [hasLast, Except.toOption, Option.map_some, Option.some.injEq,
              Prod.mk.injEq] at checked
            obtain ⟨rfl, rfl⟩ := checked
            cases result : parts.validator.commonValidate last false child false with
            | error _ => simp [passesOnBootstrapI, notEmpty, hasLast, result] at passes
            | ok valid =>
              simpa [passesOnBootstrapI, notEmpty, hasLast, validates, phase, result] using passes
      next => cases isPassed
    next later =>
      obtain ⟨acceptance, accepts, isHeader⟩ := Option.map_eq_some_iff.mp isPassed
      obtain rfl := (header_of_acceptHeader accepts).symm.trans isHeader
      refine ⟨rfl, ?_⟩
      simp only [checkedAgainst, later, if_false] at checked
      obtain ⟨entry, found, owns⟩ := Option.bind_eq_some_iff.mp checked
      obtain ⟨parent', owned, same⟩ := Option.map_eq_some_iff.mp owns
      cases same
      simp only [acceptHeader, found, Option.bind_eq_bind, Option.bind_some, owned] at accepts
      split at accepts
      next passes => simp [validates, later, passes.1]
      next => cases accepts

theorem acceptedPair_later {parts : Parts κ ω δ ε} {before : EclipseMonitor κ ω δ}
    {label : Label κ ω ε} {parent child : HeaderMgr}
    (timely : backdates parts before label = false)
    (accepts : acceptedPair parts before label = some (parent, child)) : Later parent child := by
  cases label with
  | endBootstrapI => cases accepts
  | owner change => cases accepts
  | update readings hdrBinary =>
    obtain ⟨header, isPassed, checked⟩ := Option.bind_eq_some_iff.mp accepts
    obtain ⟨⟨parent', isParentLive⟩, found, same⟩ := Option.map_eq_some_iff.mp checked
    cases same
    obtain ⟨isReceived, isValid⟩ := validates_of_passed isPassed found
    simpa [backdates, isReceived, found, isValid, Later] using timely

/-- In every run whose updates bring no backdated header, every accepted header is later than the header
    it was accepted against, and so are all the headers the monitor holds. -/
theorem accepted_times_increase (parts : Parts κ ω δ ε) (diffState : δ) (owner : ω) (sessId : SessionID)
    (genTime : TrustedTimestamp) (nonce : SyncNonce) (syncContractAddr : ContractAddr)
    (eventSign : EventTopic) (listenId : EventCallbackId)
    {taken : List (EclipseMonitor κ ω δ × Label κ ω ε)} {final : EclipseMonitor κ ω δ}
    (run : Run (Step parts) (init parts diffState owner sessId genTime nonce syncContractAddr eventSign
      listenId) taken final)
    (timely : ∀ entry ∈ taken, backdates parts entry.1 entry.2 = false) :
    (∀ entry ∈ taken, ∀ parent child, acceptedPair parts entry.1 entry.2 = some (parent, child) →
      Later parent child) ∧ final.TimesIncrease := by
  constructor
  · intro entry member parent child accepts
    exact acceptedPair_later (timely entry member) accepts
  · refine Run.invariant (fun before label => backdates parts before label = false)
      (fun _ monitor => monitor.TimesIncrease) ?_ ?_ run timely
    · exact {
        chain := List.isChain_nil
        ordered := fun hasNode => by cases hasNode
        tree := fun last hasLast => by cases hasLast }
    · exact fun _ _ _ _ timed timelyHere step => step_timed timed timelyHere step

end EclipseMonitor

namespace SampleChain

/-- A child of block 1 with the timestamp of block 0. -/
def staleBlock : Block where
  rawHeader := { rawHeader block1.hash.toList 2 with timestamp := toBytes 1700000000 }
  extraData := []
  hash := #v[237, 240, 250, 141, 38, 158, 126, 1, 42, 218, 143, 21, 158, 106, 141, 129, 134, 171, 15, 250,
    251, 109, 65, 186, 128, 202, 160, 64, 138, 160, 164, 87]

def staleParts : Parts Empty Unit MinDiff Unit :=
  { parts with codec := codecOf [block0, block1, staleBlock] }

/-- The steps and the state after bootstrap I and the delivery of a third block. -/
def withBlock (block : Block) :
    Option (List (EclipseMonitor Empty Unit MinDiff × EclipseMonitor.Label Empty Unit Unit) ×
      EclipseMonitor Empty Unit MinDiff) :=
  Run.replay (fun monitor label => Exec.endState (EclipseMonitor.call staleParts label) monitor)
    (plan :: [block0, block1, block].map (deliver 1700000100)) []
    (.init staleParts 0 () (Vector.replicate 16 0) 1700000000 (Vector.replicate 32 0)
      (Vector.replicate 20 0) (Vector.replicate 32 0) 0)

end SampleChain

namespace EclipseMonitor

open SampleChain

theorem run_of_withBlock {block : Block}
    {taken : List (EclipseMonitor Empty Unit MinDiff × Label Empty Unit Unit)}
    {final : EclipseMonitor Empty Unit MinDiff} (replayed : withBlock block = some (taken, final)) :
    Run (Step staleParts) (.init staleParts 0 () (Vector.replicate 16 0) 1700000000
      (Vector.replicate 32 0) (Vector.replicate 20 0) (Vector.replicate 32 0) 0) taken final :=
  Run.of_replay (fun _ _ _ => Exec.ends_of_endState) .nil replayed

/-- Blocks 0 and 1 of the sample chain. -/
theorem accepted_times_increase_sample :
    ∃ taken final, Run (Step staleParts) (.init staleParts 0 () (Vector.replicate 16 0) 1700000000
        (Vector.replicate 32 0) (Vector.replicate 20 0) (Vector.replicate 32 0) 0) taken final ∧
      (∃ entry ∈ taken, (acceptedPair staleParts entry.1 entry.2).isSome) ∧
      (∀ entry ∈ taken, ∀ parent child,
        acceptedPair staleParts entry.1 entry.2 = some (parent, child) → Later parent child) ∧
      final.TimesIncrease := by
  have replays : (withBlock block1).any (fun (taken, _) =>
      taken.all (fun entry => !backdates staleParts entry.1 entry.2) &&
        taken.any fun entry => (acceptedPair staleParts entry.1 entry.2).isSome) = true := by
    decide +kernel
  obtain ⟨⟨taken, final⟩, replayed, checks⟩ := (Option.any_eq_true _ _).mp replays
  simp only [Bool.and_eq_true, List.all_eq_true, Bool.not_eq_true', List.any_eq_true] at checks
  have run := run_of_withBlock replayed
  exact ⟨taken, final, run, checks.2,
    accepted_times_increase staleParts 0 () _ _ _ _ _ _ run checks.1⟩

/-- A header dated twelve seconds before its parent becomes its child. -/
theorem stale_child_accepted :
    ∃ taken final, Run (Step staleParts) (.init staleParts 0 () (Vector.replicate 16 0) 1700000000
        (Vector.replicate 32 0) (Vector.replicate 20 0) (Vector.replicate 32 0) 0) taken final ∧
      ¬ ((∀ entry ∈ taken, ∀ parent child,
          acceptedPair staleParts entry.1 entry.2 = some (parent, child) → Later parent child) ∧
        final.TimesIncrease) := by
  have replays : (withBlock staleBlock).any (fun (_, final) =>
      final.checkpoint.lastNode.any fun last =>
        last.edges.any fun edge => decide ¬ Later edge.1 edge.2) = true := by
    decide +kernel
  obtain ⟨⟨taken, final⟩, replayed, checks⟩ := (Option.any_eq_true _ _).mp replays
  obtain ⟨last, hasLast, stale⟩ := (Option.any_eq_true _ _).mp checks
  obtain ⟨edge, member, notLater⟩ := List.any_eq_true.mp stale
  refine ⟨taken, final, run_of_withBlock replayed, fun increase => ?_⟩
  exact of_decide_eq_true notLater ((increase.2.tree last hasLast).later edge member)

end EclipseMonitor

end Decentagram.Eth
