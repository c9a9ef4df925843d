import Decentagram.EclipseMonitor.HeaderHeap

/-! # Descendant counters

The counters of a tree count what is below, and no child of the root reaches the bound after the
maintenance.  Both are facts about `ChildInfos`; the memory represents such a tree after every run of
`AddChild` and maintenance, so they hold of the stored counters and of the parent pointers' reach.
-/

namespace Decentagram.Eth

open Decentagram.Lib

namespace ChildInfos

variable {heap : NodeHeap} {owner : NodeAddr}

/-! ## The nodes below an address -/

/-- What the nodes of these entries own is among the nodes of these entries. -/
theorem Stored.closed {entries : ChildInfos} (stored : entries.Stored heap owner)
    {parent child : NodeAddr} (member : parent ∈ entries.addrs) (isChild : heap.IsChild parent child) :
    child ∈ entries.addrs := by
  induction entries generalizing owner with
  | nil => simp at member
  | cons count self header syncState inner rest below after =>
    obtain ⟨here, storedBelow, storedAfter⟩ := stored
    simp only [addrs_cons, List.mem_cons, List.mem_append] at member ⊢
    rcases member with rfl | inside | later
    · obtain ⟨node, nodeAt, info, entry, rfl⟩ := isChild
      rw [here] at nodeAt
      cases nodeAt
      exact .inr (.inl (child_mem_addrs entry))
    · exact .inr (.inl (below storedBelow inside))
    · exact .inr (.inr (after storedAfter later))

/-- Each node of these entries is one of the entries' children or below one. -/
theorem Stored.reached {entries : ChildInfos} (stored : entries.Stored heap owner) {node : NodeAddr}
    (member : node ∈ entries.addrs) :
    ∃ info ∈ entries.infos, Relation.ReflTransGen heap.IsChild info.child node := by
  induction entries generalizing owner with
  | nil => simp at member
  | cons count self header syncState inner rest below after =>
    obtain ⟨here, storedBelow, storedAfter⟩ := stored
    simp only [addrs_cons, List.mem_cons, List.mem_append] at member
    rcases member with rfl | inside | later
    · exact ⟨_, List.mem_cons_self, .refl⟩
    · obtain ⟨info, entry, path⟩ := below storedBelow inside
      refine ⟨_, List.mem_cons_self, ?_⟩
      have first : heap.IsChild self info.child := ⟨_, here, info, entry, rfl⟩
      exact path.head first
    · obtain ⟨info, entry, path⟩ := after storedAfter later
      exact ⟨info, List.mem_cons_of_mem _ entry, path⟩

theorem Stored.descendants {entries : ChildInfos} (stored : entries.Stored heap owner)
    {node : StoredNode} (ownerAt : heap owner = some node) (children : node.children = entries.infos) :
    heap.descendants owner = { addr | addr ∈ entries.addrs } := by
  ext addr
  constructor
  · intro below
    induction below with
    | single isChild =>
      obtain ⟨node', nodeAt, info, entry, rfl⟩ := isChild
      rw [ownerAt] at nodeAt
      cases nodeAt
      rw [children] at entry
      exact child_mem_addrs entry
    | tail _ isChild inductionHypothesis => exact stored.closed inductionHypothesis isChild
  · intro member
    obtain ⟨info, entry, path⟩ := stored.reached member
    have first : heap.IsChild owner info.child := ⟨node, ownerAt, info, children ▸ entry, rfl⟩
    exact Relation.TransGen.head' first path

theorem Stored.ncard_descendants {entries : ChildInfos} (stored : entries.Stored heap owner)
    {node : StoredNode} (ownerAt : heap owner = some node) (children : node.children = entries.infos)
    (distinct : entries.addrs.Nodup) : (heap.descendants owner).ncard = entries.nodes.length := by
  have finite : { addr | addr ∈ entries.addrs } = (entries.addrs.toFinset : Set NodeAddr) := by
    ext addr
    simp
  rw [stored.descendants ownerAt children, finite, Set.ncard_coe_finset,
    List.toFinset_card_of_nodup distinct, length_addrs]

/-- The stored counters of these entries and of all nodes below them. -/
theorem Stored.counts {entries : ChildInfos} (stored : entries.Stored heap owner)
    (exact : entries.CountsExact) (distinct : entries.addrs.Nodup) :
    (∀ info ∈ entries.infos, info.numOfDesc = (heap.descendants info.child).ncard) ∧
      ∀ addr ∈ entries.addrs, ∀ node, heap addr = some node →
        ∀ info ∈ node.children, info.numOfDesc = (heap.descendants info.child).ncard := by
  induction entries generalizing owner with
  | nil => simp [infos]
  | cons count self header syncState inner rest below after =>
    obtain ⟨here, storedBelow, storedAfter⟩ := stored
    obtain ⟨countSelf, exactBelow, exactAfter⟩ := exact
    simp only [addrs_cons, List.nodup_cons, List.nodup_append] at distinct
    obtain ⟨-, distinctBelow, distinctAfter, -⟩ := distinct
    obtain ⟨ownBelow, allBelow⟩ := below storedBelow exactBelow distinctBelow
    obtain ⟨ownAfter, allAfter⟩ := after storedAfter exactAfter distinctAfter
    constructor
    · intro info member
      simp only [infos, List.mem_cons] at member
      cases member with
      | inl same => rw [same, countSelf, storedBelow.ncard_descendants here rfl distinctBelow]
      | inr later => exact ownAfter info later
    · intro addr member node nodeAt info entry
      simp only [addrs_cons, List.mem_cons, List.mem_append] at member
      rcases member with rfl | inside | later
      · rw [here] at nodeAt
        cases nodeAt
        exact ownBelow info entry
      · exact allBelow addr inside node nodeAt info entry
      · exact allAfter addr later node nodeAt info entry

/-! ## How far the counters of the root's children can grow -/

variable {parent addr : NodeAddr} {header : HeaderMgr} {syncState : SyncStateRef}

/-- One new node brings a counter at most one further. -/
theorem addChild_infos_le {entries added : ChildInfos} {bound : Nat}
    (below : ∀ info ∈ entries.infos, info.numOfDesc < bound)
    (adds : entries.addChild parent addr header syncState = some added) :
    ∀ info ∈ added.infos, info.numOfDesc ≤ bound := by
  induction entries generalizing added with
  | nil => cases adds
  | cons count self header' syncState' inner rest _ after =>
    have here : count < bound := below _ List.mem_cons_self
    have later : ∀ info ∈ rest.infos, info.numOfDesc < bound := by
      intro info member
      exact below info (List.mem_cons_of_mem _ member)
    intro info member
    rcases addChild_cons adds with ⟨-, rfl⟩ | ⟨_, -, rfl⟩ | ⟨_, addsAfter, rfl⟩ <;>
      cases List.mem_cons.mp member with
      | inl same => subst same; dsimp only; omega
      | inr other =>
        first
        | exact after later addsAfter info other
        | exact (later info other).le

theorem emplaceBack_infos_le {entries : ChildInfos} {bound : Nat}
    (below : ∀ info ∈ entries.infos, info.numOfDesc < bound) :
    ∀ info ∈ (entries.emplaceBack addr header syncState).infos, info.numOfDesc ≤ bound := by
  intro info member
  simp only [infos_emplaceBack, List.mem_append, List.mem_singleton] at member
  cases member with
  | inl old => exact (below info old).le
  | inr new => simp [new]

/-- A node below counts fewer descendants than there are nodes. -/
theorem CountsExact.infos_lt {entries : ChildInfos} (exact : entries.CountsExact) :
    ∀ info ∈ entries.infos, info.numOfDesc < entries.nodes.length := by
  induction entries with
  | nil => simp [infos]
  | cons count self header syncState inner rest _ after =>
    intro info member
    simp only [nodes, List.length_cons, List.length_append]
    cases List.mem_cons.mp member with
    | inl same =>
      subst same
      have counted : count = inner.nodes.length := exact.1
      dsimp only
      omega
    | inr later =>
      have bounded := after exact.2.2 info later
      omega

/-- The released child has exactly as many nodes below it as its counter says. -/
theorem releaseChildHasNDesc_count {numOfDesc bound : Nat} {entries remaining : ChildInfos}
    {child : HeaderNode} (exact : entries.CountsExact)
    (below : ∀ info ∈ entries.infos, info.numOfDesc ≤ bound)
    (released : entries.releaseChildHasNDesc numOfDesc = some (child, remaining)) :
    child.children.nodes.length ≤ bound := by
  induction entries generalizing remaining with
  | nil => cases released
  | cons count self header syncState inner rest _ inductionHypothesis =>
    simp only [releaseChildHasNDesc] at released
    split at released
    next =>
      cases released
      have counted : count = inner.nodes.length := exact.1
      have here : count ≤ bound := below _ List.mem_cons_self
      exact counted ▸ here
    next =>
      obtain ⟨⟨child', remaining'⟩, later, equal⟩ := Option.map_eq_some_iff.mp released
      cases equal
      exact inductionHypothesis exact.2.2 (fun info member => below info (List.mem_cons_of_mem _ member))
        later

end ChildInfos

namespace HeaderNode

/-- Every child of the root has fewer than `bound` descendants. -/
def ChildrenBelow (root : HeaderNode) (bound : Nat) : Prop :=
  ∀ info ∈ root.children.infos, info.numOfDesc < bound

variable {root grown : HeaderNode} {bound : Nat}

/-- After one new node a single release is enough. -/
theorem childrenBelow_maintained {parent addr : NodeAddr} {header : HeaderMgr}
    {syncState : SyncStateRef} (exact : root.children.CountsExact) (below : root.ChildrenBelow bound)
    (adds : root.addChild parent addr header syncState = some grown) :
    let next := ((grown.releaseChildHasNDesc bound).map Prod.fst).getD grown
    next.children.CountsExact ∧ next.ChildrenBelow bound := by
  have atMost : ∀ info ∈ grown.children.infos, info.numOfDesc ≤ bound := by
    unfold HeaderNode.addChild at adds
    split at adds
    next =>
      cases adds
      exact ChildInfos.emplaceBack_infos_le below
    next =>
      obtain ⟨added, addsBelow, rfl⟩ := Option.map_eq_some_iff.mp adds
      exact ChildInfos.addChild_infos_le below addsBelow
  have exactGrown := (addChild_spec adds).2.2 exact
  cases released : grown.children.releaseChildHasNDesc bound with
  | none =>
    have nothing := ChildInfos.releaseChildHasNDesc_none.mp released
    simp only [HeaderNode.releaseChildHasNDesc, released, Option.map_none, Option.getD_none]
    refine ⟨exactGrown, ?_⟩
    intro info member
    simpa using List.find?_eq_none.mp nothing info member
  | some result =>
    obtain ⟨child, remaining⟩ := result
    simp only [HeaderNode.releaseChildHasNDesc, released, Option.map_some, Option.getD_some]
    have exactChild := ((ChildInfos.releaseChildHasNDesc_spec released).2.2 exactGrown).1
    refine ⟨exactChild, ?_⟩
    -- the released child has at most `bound` nodes below it, and its own children have fewer
    have few := ChildInfos.releaseChildHasNDesc_count exactGrown atMost released
    intro info member
    exact (exactChild.infos_lt info member).trans_le few

end HeaderNode

/-! ## Runs of `AddChild`, each followed by the maintenance -/

namespace HeaderTree

inductive Action where
  | addChild (parent addr : NodeAddr) (header : HeaderMgr) (syncState : SyncStateRef)
  | maintain

/-- The tree, and whether the maintenance has run since the last `AddChild`. -/
structure Monitored where
  tree : HeaderTree
  maintained : Bool

/-- `AddChild` is called on a node that exists, and allocates the child at a free address. -/
inductive Step (numOfDesc : Nat) : Monitored → Action → Monitored → Prop where
  | addChild {tree after : HeaderTree} {parent addr : NodeAddr} {header : HeaderMgr}
      {syncState : SyncStateRef} : tree.heap parent ≠ none → tree.heap addr = none →
      Exec.Returns (fun depth => addChild depth parent addr header syncState) tree () after →
      Step numOfDesc ⟨tree, true⟩ (.addChild parent addr header syncState) ⟨after, false⟩
  | maintain {tree after : HeaderTree} :
      Exec.Returns (fun depth => maintain depth numOfDesc) tree () after →
      Step numOfDesc ⟨tree, false⟩ .maintain ⟨after, true⟩

/-- The memory holds a tree with exact counters, and the maintenance restores the bound. -/
def Counted (numOfDesc : Nat) (state : Monitored) : Prop :=
  ∃ root, Represents state.tree root ∧ root.children.CountsExact ∧
    if state.maintained then root.ChildrenBelow numOfDesc
    else ∀ next, next = ((root.releaseChildHasNDesc numOfDesc).map Prod.fst).getD root →
      next.children.CountsExact ∧ next.ChildrenBelow numOfDesc

variable {numOfDesc : Nat}

theorem counted_ofRoot (addr : NodeAddr) (header : HeaderMgr) (syncState : SyncStateRef) :
    Counted numOfDesc ⟨ofRoot addr header syncState, true⟩ := by
  refine ⟨_, represents_ofRoot addr header syncState, trivial, ?_⟩
  intro info member
  cases member

theorem step_counted {before after : Monitored} {action : Action} (counted : Counted numOfDesc before)
    (step : Step numOfDesc before action after) : Counted numOfDesc after := by
  obtain ⟨root, represents, exact, bounded⟩ := counted
  cases step with
  | addChild live vacant returns =>
    obtain ⟨grown, after', adds, returns', represents'⟩ :=
      addChild_represents represents _ _ live vacant
    obtain ⟨-, rfl⟩ := returns.unique returns'
    refine ⟨grown, represents', (HeaderNode.addChild_spec adds).2.2 exact, ?_⟩
    rintro next rfl
    exact HeaderNode.childrenBelow_maintained exact bounded adds
  | maintain returns =>
    obtain ⟨after', returns', represents'⟩ := maintain_represents represents numOfDesc
    obtain ⟨-, rfl⟩ := returns.unique returns'
    obtain ⟨exact', below⟩ := bounded _ rfl
    exact ⟨_, represents', exact', below⟩

/-- In every state of every run each stored counter is the number of nodes strictly below its child;
    after a maintenance no child of the current root has `numOfDesc` or more descendants; and neither
    `AddChild` nor the maintenance ever throws or runs forever. -/
theorem descendant_counters {addr : NodeAddr} {header : HeaderMgr} {syncState : SyncStateRef}
    {taken : List (Monitored × Action)} {final : Monitored}
    (run : Run (Step numOfDesc) ⟨ofRoot addr header syncState, true⟩ taken final) :
    (∀ node stored, final.tree.heap node = some stored → ∀ info ∈ stored.children,
      info.numOfDesc = (final.tree.heap.descendants info.child).ncard) ∧
    (final.maintained = true → ∀ stored, final.tree.heap final.tree.root = some stored →
      ∀ info ∈ stored.children, (final.tree.heap.descendants info.child).ncard < numOfDesc) ∧
    (final.maintained = true → ∀ parent addr header syncState, final.tree.heap parent ≠ none →
      final.tree.heap addr = none → ∃ after,
        Step numOfDesc final (.addChild parent addr header syncState) after) ∧
    (final.maintained = false → ∃ after, Step numOfDesc final .maintain after) := by
  have counted : Counted numOfDesc final :=
    Run.invariant (fun _ _ => True) (fun _ state => Counted numOfDesc state)
      (counted_ofRoot addr header syncState)
      (fun _ _ _ _ counted _ step => step_counted counted step) run (fun _ _ => trivial)
  obtain ⟨tree, maintained⟩ := final
  obtain ⟨root, represents, exact, bounded⟩ := counted
  obtain ⟨own, all⟩ := represents.stored.counts exact (List.nodup_cons.mp represents.distinct).2
  refine ⟨?_, ?_, ?_, ?_⟩
  · intro node stored nodeAt info entry
    have isNode := represents.mem_of_live (nodeAt ▸ Option.some_ne_none _)
    cases List.mem_cons.mp isNode with
    | inl same =>
      rw [same, represents.rootNode] at nodeAt
      cases nodeAt
      exact own info entry
    | inr below => exact all node below stored nodeAt info entry
  · rintro rfl stored rootAt info entry
    rw [represents.rootAddr, represents.rootNode] at rootAt
    cases rootAt
    rw [← own info entry]
    exact bounded info entry
  · rintro rfl parent addr header syncState live vacant
    obtain ⟨_, after, -, returns, -⟩ := addChild_represents represents header syncState live vacant
    exact ⟨_, .addChild live vacant returns⟩
  · rintro rfl
    obtain ⟨after, returns, -⟩ := maintain_represents represents numOfDesc
    exact ⟨_, .maintain returns⟩

/-- With a bound of one: a child of the root, its own child, and the release of the first. -/
theorem descendant_counters_sample :
    ∃ taken final, Run (Step 1) ⟨ofRoot 0 HeaderMgr.init 0, true⟩ taken final ∧
      taken.length = 4 ∧ final.tree.root = 1 ∧
      ∀ node stored, final.tree.heap node = some stored → ∀ info ∈ stored.children,
        info.numOfDesc = (final.tree.heap.descendants info.child).ncard := by
  have start : Run (Step 1) ⟨ofRoot 0 HeaderMgr.init 0, true⟩ [] _ := .nil
  have first := start.snoc
    (@Step.addChild 1 _ _ 0 1 HeaderMgr.init 0 nofun rfl ⟨0, fun _ _ => rfl⟩)
  have second := first.snoc (.maintain ⟨0, fun _ _ => rfl⟩)
  have third := second.snoc
    (@Step.addChild 1 _ _ 1 2 HeaderMgr.init 0 nofun rfl ⟨1, fun depth deep => by
      obtain ⟨more, rfl⟩ := Nat.exists_eq_add_of_le' deep
      rfl⟩)
  have fourth := third.snoc (.maintain ⟨1, fun depth deep => by
    obtain ⟨more, rfl⟩ := Nat.exists_eq_add_of_le' deep
    rfl⟩)
  exact ⟨_, _, fourth, rfl, rfl, (descendant_counters fourth).1⟩

end HeaderTree

end Decentagram.Eth
