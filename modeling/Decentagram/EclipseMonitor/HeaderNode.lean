import Decentagram.EclipseMonitor.HeaderMgr
import Mathlib.Data.List.Perm.Basic

/-! # The header tree

A `HeaderNode` owns its children through `unique_ptr`s, so the nodes under a root form a tree, and
`m_parent` always names the node that owns the child.  `ChildInfos` is the vector `m_children` of one
node together with everything below it: the first entry with its own children, then the entries
after it.  The parent pointer is the position in that tree.  A node's address is what the raw
pointers of the look-up maps hold.
-/

namespace Decentagram.Eth

abbrev NodeAddr := Nat

/-- Which `SyncState` object a `shared_ptr` points to. -/
abbrev SyncStateRef := Nat

inductive ChildInfos where
  | nil
  | cons (numOfDesc : Nat) (addr : NodeAddr) (header : HeaderMgr) (syncState : SyncStateRef)
      (children rest : ChildInfos)
deriving DecidableEq, Repr

structure HeaderNode where
  addr : NodeAddr
  header : HeaderMgr
  syncState : SyncStateRef
  children : ChildInfos
deriving DecidableEq, Repr

namespace ChildInfos

/-- Every node at and below these entries. -/
def nodes : ChildInfos → List (NodeAddr × HeaderMgr)
  | nil => []
  | cons _ addr header _ children rest => (addr, header) :: (children.nodes ++ rest.nodes)

/-- Every parent and child, for entries whose parent is `parent`. -/
def edges (parent : HeaderMgr) : ChildInfos → List (HeaderMgr × HeaderMgr)
  | nil => []
  | cons _ _ header _ children rest =>
    (parent, header) :: (children.edges header ++ rest.edges parent)

/-- `m_children.emplace_back(0, child)` for a child without children. -/
def emplaceBack (addr : NodeAddr) (header : HeaderMgr) (syncState : SyncStateRef) :
    ChildInfos → ChildInfos
  | nil => cons 0 addr header syncState nil nil
  | cons numOfDesc addr' header' syncState' children rest =>
    cons numOfDesc addr' header' syncState' children (rest.emplaceBack addr header syncState)

/-- `AddChild` on the node at `parent`, if it is here.  `AddDescCount` then walks from it to the root,
    so each entry on the path counts one descendant more. -/
def addChild (parent addr : NodeAddr) (header : HeaderMgr) (syncState : SyncStateRef) :
    ChildInfos → Option ChildInfos
  | nil => none
  | cons numOfDesc addr' header' syncState' children rest =>
    let below := if addr' = parent then some (children.emplaceBack addr header syncState)
      else children.addChild parent addr header syncState
    match below with
    | some children' => some (cons (numOfDesc + 1) addr' header' syncState' children' rest)
    | none =>
      (rest.addChild parent addr header syncState).map
        (cons numOfDesc addr' header' syncState' children)

/-- The first entry with at least `numOfDesc` descendants, and the entries without it. -/
def releaseChildHasNDesc (numOfDesc : Nat) : ChildInfos → Option (HeaderNode × ChildInfos)
  | nil => none
  | cons count addr header syncState children rest =>
    if count ≥ numOfDesc then
      some ({ addr, header, syncState, children }, rest)
    else
      (rest.releaseChildHasNDesc numOfDesc).map fun (child, remaining) =>
        (child, cons count addr header syncState children remaining)

/-- Every counter is the number of nodes strictly below its child. -/
def CountsExact : ChildInfos → Prop
  | nil => True
  | cons numOfDesc _ _ _ children rest =>
    numOfDesc = children.nodes.length ∧ children.CountsExact ∧ rest.CountsExact

end ChildInfos

namespace HeaderNode

/-- The root and every node below it. -/
def nodes (root : HeaderNode) : List (NodeAddr × HeaderMgr) :=
  (root.addr, root.header) :: root.children.nodes

def edges (root : HeaderNode) : List (HeaderMgr × HeaderMgr) := root.children.edges root.header

/-- The node a raw pointer refers to, as long as the tree owns it. -/
def deref (root : HeaderNode) (addr : NodeAddr) : Option HeaderMgr :=
  root.nodes.lookup addr

/-- `parentNode->AddChild(header, syncState)` for a node of the tree under `root`. -/
def addChild (root : HeaderNode) (parent addr : NodeAddr) (header : HeaderMgr)
    (syncState : SyncStateRef) : Option HeaderNode :=
  if root.addr = parent then
    some { root with children := root.children.emplaceBack addr header syncState }
  else
    (root.children.addChild parent addr header syncState).map fun children => { root with children }

/-- The released child, which becomes a root, and the node without it. -/
def releaseChildHasNDesc (root : HeaderNode) (numOfDesc : Nat) : Option (HeaderNode × HeaderNode) :=
  (root.children.releaseChildHasNDesc numOfDesc).map fun (child, children) =>
    (child, { root with children })

end HeaderNode

/-! ## What the operations do to the nodes, the edges and the counters -/

namespace ChildInfos

variable {parent addr : NodeAddr} {header : HeaderMgr} {syncState : SyncStateRef}

theorem nodes_emplaceBack (entries : ChildInfos) :
    (entries.emplaceBack addr header syncState).nodes = entries.nodes ++ [(addr, header)] := by
  induction entries with
  | nil => rfl
  | cons _ _ _ _ children rest _ inductionHypothesis => simp [emplaceBack, nodes, inductionHypothesis]

theorem edges_emplaceBack (entries : ChildInfos) (owner : HeaderMgr) :
    (entries.emplaceBack addr header syncState).edges owner =
      entries.edges owner ++ [(owner, header)] := by
  induction entries with
  | nil => rfl
  | cons _ _ _ _ children rest _ inductionHypothesis => simp [emplaceBack, edges, inductionHypothesis]

theorem countsExact_emplaceBack {entries : ChildInfos} (exact : entries.CountsExact) :
    (entries.emplaceBack addr header syncState).CountsExact := by
  induction entries with
  | nil => simp [emplaceBack, CountsExact, nodes]
  | cons _ _ _ _ children rest _ inductionHypothesis =>
    exact ⟨exact.1, exact.2.1, inductionHypothesis exact.2.2⟩

/-- What `addChild` does, at the entry on the path to the parent: either the parent is the entry's own
    child or below it, or it is below one of the entries after it. -/
theorem addChild_cons {numOfDesc : Nat} {addr' : NodeAddr} {header' : HeaderMgr}
    {syncState' : SyncStateRef} {children rest added : ChildInfos}
    (adds : (cons numOfDesc addr' header' syncState' children rest).addChild parent addr header
      syncState = some added) :
    (addr' = parent ∧ added = cons (numOfDesc + 1) addr' header' syncState'
        (children.emplaceBack addr header syncState) rest) ∨
    (∃ children', children.addChild parent addr header syncState = some children' ∧
      added = cons (numOfDesc + 1) addr' header' syncState' children' rest) ∨
    (∃ rest', rest.addChild parent addr header syncState = some rest' ∧
      added = cons numOfDesc addr' header' syncState' children rest') := by
  simp only [addChild] at adds
  split at adds
  next children' below =>
    cases adds
    split at below
    · cases below; exact .inl ⟨by assumption, rfl⟩
    · exact .inr (.inl ⟨children', below, rfl⟩)
  next =>
    obtain ⟨rest', after, rfl⟩ := Option.map_eq_some_iff.mp adds
    exact .inr (.inr ⟨rest', after, rfl⟩)

theorem nodes_addChild {entries added : ChildInfos}
    (adds : entries.addChild parent addr header syncState = some added) :
    added.nodes.Perm ((addr, header) :: entries.nodes) := by
  induction entries generalizing added with
  | nil => cases adds
  | cons _ _ _ _ children rest below after =>
    rcases addChild_cons adds with ⟨_, rfl⟩ | ⟨_, addsBelow, rfl⟩ | ⟨_, addsAfter, rfl⟩
    · simp only [nodes, nodes_emplaceBack, List.append_assoc, List.singleton_append]
      exact (List.Perm.cons _ List.perm_middle).trans (List.Perm.swap _ _ _)
    · exact (List.Perm.cons _ ((below addsBelow).append_right _)).trans (List.Perm.swap _ _ _)
    · exact (List.Perm.cons _ (((after addsAfter).append_left _).trans List.perm_middle)).trans
        (List.Perm.swap _ _ _)

theorem edges_addChild {entries added : ChildInfos} (owner : HeaderMgr)
    (adds : entries.addChild parent addr header syncState = some added) :
    ∃ parentHeader, (parent, parentHeader) ∈ entries.nodes ∧
      ∀ edge, edge ∈ added.edges owner ↔ edge = (parentHeader, header) ∨ edge ∈ entries.edges owner := by
  induction entries generalizing added owner with
  | nil => cases adds
  | cons _ _ header' _ children rest below after =>
    rcases addChild_cons adds with ⟨rfl, rfl⟩ | ⟨_, addsBelow, rfl⟩ | ⟨_, addsAfter, rfl⟩
    · refine ⟨header', by simp [nodes], fun edge => ?_⟩
      simp only [edges, edges_emplaceBack, List.mem_cons, List.mem_append, List.not_mem_nil, or_false]
      tauto
    · obtain ⟨parentHeader, member, edges_iff⟩ := below header' addsBelow
      refine ⟨parentHeader, by simp [nodes, member], fun edge => ?_⟩
      simp only [edges, List.mem_cons, List.mem_append, edges_iff]
      tauto
    · obtain ⟨parentHeader, member, edges_iff⟩ := after owner addsAfter
      refine ⟨parentHeader, by simp [nodes, member], fun edge => ?_⟩
      simp only [edges, List.mem_cons, List.mem_append, edges_iff]
      tauto

theorem countsExact_addChild {entries added : ChildInfos} (exact : entries.CountsExact)
    (adds : entries.addChild parent addr header syncState = some added) : added.CountsExact := by
  induction entries generalizing added with
  | nil => cases adds
  | cons _ _ _ _ children rest below after =>
    obtain ⟨count, exactBelow, exactAfter⟩ := exact
    rcases addChild_cons adds with ⟨_, rfl⟩ | ⟨_, addsBelow, rfl⟩ | ⟨_, addsAfter, rfl⟩
    · exact ⟨by simp [nodes_emplaceBack, count], countsExact_emplaceBack exactBelow, exactAfter⟩
    · exact ⟨by simp [(nodes_addChild addsBelow).length_eq, count], below exactBelow addsBelow, exactAfter⟩
    · exact ⟨count, exactBelow, after exactAfter addsAfter⟩

theorem addChild_isSome_iff (entries : ChildInfos) :
    (entries.addChild parent addr header syncState).isSome ↔
      parent ∈ entries.nodes.map Prod.fst := by
  induction entries with
  | nil => simp [addChild, nodes]
  | cons _ addr' _ _ children rest below after =>
    by_cases here : addr' = parent
    · simp [addChild, nodes, here]
    · simp only [addChild, here, if_false, nodes, List.map_cons, List.map_append, List.mem_cons,
        List.mem_append, ← below, ← after, Ne.symm here, false_or]
      cases children.addChild parent addr header syncState <;> simp

/-- A release takes one entry out and leaves the others as they are. -/
theorem releaseChildHasNDesc_spec {numOfDesc : Nat} {entries remaining : ChildInfos}
    {child : HeaderNode} (released : entries.releaseChildHasNDesc numOfDesc = some (child, remaining)) :
    entries.nodes.Perm (child.nodes ++ remaining.nodes) ∧
      (∀ owner, (entries.edges owner).Perm
        ((owner, child.header) :: (child.edges ++ remaining.edges owner))) ∧
      (entries.CountsExact →
        child.children.CountsExact ∧ remaining.CountsExact ∧
          numOfDesc ≤ child.children.nodes.length) := by
  induction entries generalizing remaining with
  | nil => cases released
  | cons count addr' header' syncState' children rest _ inductionHypothesis =>
    simp only [releaseChildHasNDesc] at released
    split at released
    next enough =>
      cases released
      refine ⟨.refl _, fun _ => .refl _, fun ⟨count, below, after⟩ => ⟨below, after, ?_⟩⟩
      exact count ▸ enough
    next =>
      obtain ⟨⟨child', remaining'⟩, releasedAfter, equal⟩ := Option.map_eq_some_iff.mp released
      cases equal
      obtain ⟨nodesPerm, edgesPerm, counts⟩ := inductionHypothesis releasedAfter
      refine ⟨?_, fun owner => ?_, fun ⟨count, below, after⟩ => ?_⟩
      · simp only [nodes]
        refine (List.Perm.cons _ (nodesPerm.append_left _)).trans ?_
        rw [← List.append_assoc]
        refine (List.Perm.cons _ (List.perm_append_comm.append_right _)).trans ?_
        rw [List.append_assoc]
        exact List.perm_middle.symm
      · simp only [edges]
        refine (List.Perm.cons _ ((edgesPerm owner).append_left _)).trans ?_
        refine (List.Perm.cons _ List.perm_middle).trans ((List.Perm.swap _ _ _).trans ?_)
        refine List.Perm.cons _ ?_
        rw [← List.append_assoc]
        refine (List.Perm.cons _ (List.perm_append_comm.append_right _)).trans ?_
        rw [List.append_assoc]
        exact List.perm_middle.symm
      · obtain ⟨exactChild, exactRemaining, enough⟩ := counts after
        exact ⟨exactChild, ⟨count, below, exactRemaining⟩, enough⟩

/-- Every node below has an edge from its parent. -/
theorem exists_edge (entries : ChildInfos) (owner : HeaderMgr) {node : NodeAddr × HeaderMgr}
    (member : node ∈ entries.nodes) : ∃ parentHeader, (parentHeader, node.2) ∈ entries.edges owner := by
  induction entries generalizing owner with
  | nil => simp [nodes] at member
  | cons _ _ header' _ children rest below after =>
    simp only [nodes, List.mem_cons, List.mem_append] at member
    rcases member with rfl | member | member
    · exact ⟨owner, by simp [edges]⟩
    · obtain ⟨parentHeader, edge⟩ := below header' member
      exact ⟨parentHeader, by simp [edges, edge]⟩
    · obtain ⟨parentHeader, edge⟩ := after owner member
      exact ⟨parentHeader, by simp [edges, edge]⟩

end ChildInfos

namespace HeaderNode

theorem mem_nodes_of_deref {root : HeaderNode} {addr : NodeAddr} {header : HeaderMgr}
    (found : root.deref addr = some header) : (addr, header) ∈ root.nodes := by
  obtain ⟨before, after, split, -⟩ := List.lookup_eq_some_iff.mp found
  rw [split]
  simp

theorem addChild_spec {root grown : HeaderNode} {parent addr : NodeAddr} {header : HeaderMgr}
    {syncState : SyncStateRef} (adds : root.addChild parent addr header syncState = some grown) :
    grown.nodes.Perm ((addr, header) :: root.nodes) ∧
      (∃ parentHeader, (parent, parentHeader) ∈ root.nodes ∧
        ∀ edge, edge ∈ grown.edges ↔ edge = (parentHeader, header) ∨ edge ∈ root.edges) ∧
      (root.children.CountsExact → grown.children.CountsExact) := by
  unfold addChild at adds
  split at adds
  next here =>
    cases adds
    refine ⟨?_, ⟨root.header, by simp [nodes, here], fun edge => ?_⟩,
      ChildInfos.countsExact_emplaceBack⟩
    · simp only [nodes, ChildInfos.nodes_emplaceBack]
      exact (List.perm_append_singleton _ _).cons _ |>.trans (.swap _ _ _)
    · simp only [edges, ChildInfos.edges_emplaceBack, List.mem_append, List.mem_singleton]
      tauto
  next =>
    obtain ⟨children, addsBelow, rfl⟩ := Option.map_eq_some_iff.mp adds
    obtain ⟨parentHeader, member, edges_iff⟩ := ChildInfos.edges_addChild root.header addsBelow
    exact ⟨((ChildInfos.nodes_addChild addsBelow).cons _).trans (.swap _ _ _),
      ⟨parentHeader, by simp [nodes, member], edges_iff⟩,
      fun exact => ChildInfos.countsExact_addChild exact addsBelow⟩

theorem releaseChildHasNDesc_spec {root child remaining : HeaderNode} {numOfDesc : Nat}
    (released : root.releaseChildHasNDesc numOfDesc = some (child, remaining)) :
    root.nodes.Perm (child.nodes ++ remaining.nodes) ∧ (∀ edge ∈ child.edges, edge ∈ root.edges) ∧
      (root.children.CountsExact →
        child.children.CountsExact ∧ numOfDesc ≤ child.children.nodes.length) := by
  obtain ⟨⟨child', children⟩, releasedBelow, equal⟩ := Option.map_eq_some_iff.mp released
  cases equal
  obtain ⟨nodesPerm, edgesPerm, counts⟩ := ChildInfos.releaseChildHasNDesc_spec releasedBelow
  refine ⟨(nodesPerm.cons _).trans List.perm_middle.symm, fun edge member => ?_, fun exact => ?_⟩
  · exact (edgesPerm root.header).mem_iff.mpr (by simp [member])
  · exact ⟨(counts exact).1, (counts exact).2.2⟩

theorem addChild_isSome {root : HeaderNode} {parent : NodeAddr} (addr : NodeAddr) (header : HeaderMgr)
    (syncState : SyncStateRef) (member : parent ∈ root.nodes.map Prod.fst) :
    (root.addChild parent addr header syncState).isSome := by
  unfold addChild
  split
  · rfl
  next elsewhere =>
    have below : parent ∈ root.children.nodes.map Prod.fst := by
      simpa [nodes, Ne.symm elsewhere] using member
    simpa using (ChildInfos.addChild_isSome_iff root.children).mpr below

theorem header_addChild {root grown : HeaderNode} {parent addr : NodeAddr} {header : HeaderMgr}
    {syncState : SyncStateRef} (adds : root.addChild parent addr header syncState = some grown) :
    grown.header = root.header := by
  unfold addChild at adds
  split at adds
  · cases adds
    rfl
  · obtain ⟨children, -, rfl⟩ := Option.map_eq_some_iff.mp adds
    rfl

/-- A released child was a child of the root. -/
theorem edge_of_released {root child remaining : HeaderNode} {numOfDesc : Nat}
    (released : root.releaseChildHasNDesc numOfDesc = some (child, remaining)) :
    (root.header, child.header) ∈ root.edges := by
  obtain ⟨⟨child', children⟩, releasedBelow, equal⟩ := Option.map_eq_some_iff.mp released
  cases equal
  obtain ⟨-, edgesPerm, -⟩ := ChildInfos.releaseChildHasNDesc_spec releasedBelow
  exact (edgesPerm root.header).mem_iff.mpr (List.mem_cons_self ..)

end HeaderNode

end Decentagram.Eth
