import Decentagram.Lib.Exec
import Decentagram.Lib.Run
import Decentagram.EclipseMonitor.HeaderNode
import Mathlib.Data.Set.Card
import Mathlib.Logic.Function.Basic
import Mathlib.Logic.Relation

/-! # Header nodes in memory

`HeaderNode` as the source has it: objects that name each other by address.  `AddChild` links the new
child to its parent and climbs the parent pointers, so how far it climbs depends on links that a
release cuts.  `Represents` says which tree of `ChildInfos` such a memory holds, and each member
function is shown to do to the tree what its counterpart on trees does.
-/

namespace Decentagram.Eth

open Decentagram.Lib

structure ChildInfo where
  /-- Number of descendants that this child has. -/
  numOfDesc : Nat
  child : NodeAddr
deriving DecidableEq, Repr

structure StoredNode where
  children : List ChildInfo
  parent : Option NodeAddr
  header : HeaderMgr
  syncState : SyncStateRef
deriving DecidableEq, Repr

/-- A new node, linked to its parent. -/
def StoredNode.ofParent (parent : NodeAddr) (header : HeaderMgr) (syncState : SyncStateRef) :
    StoredNode where
  children := []
  parent := some parent
  header
  syncState

abbrev NodeHeap := NodeAddr → Option StoredNode

namespace NodeHeap

/-- A pointer to freed memory is not to be followed. -/
def deref (addr : NodeAddr) : Exec Exception NodeHeap StoredNode := fun heap =>
  match heap addr with
  | some node => .ok node heap
  | none => .undefined

def write (addr : NodeAddr) (node : StoredNode) : Exec Exception NodeHeap Unit :=
  Exec.modify fun heap => Function.update heap addr (some node)

def free (addr : NodeAddr) : Exec Exception NodeHeap Unit :=
  Exec.modify fun heap => Function.update heap addr none

/-- `depth` bounds the calls that may be nested. -/
def addDescCount : Nat → NodeAddr → NodeAddr → Exec Exception NodeHeap Unit
  | 0, _, _ => Exec.undefined
  | depth + 1, self, childPtr => do
    let child ← deref childPtr
    Exec.throwIf (child.parent ≠ some self) "The given node pointer is not a child of this node"
    let node ← deref self
    match node.children.findIdx? fun info => info.child = childPtr with
    | none => Exec.throw "The given node pointer is not a child of this node"
    | some index => do
      write self { node with
        children := node.children.modify index fun info =>
          { info with numOfDesc := info.numOfDesc + 1 } }
      match node.parent with
      | some parent => addDescCount depth parent self
      | none => pure ()

/-- Informs all ancestors that a new descendant has been added below `self`. -/
def informParent (depth : Nat) (self : NodeAddr) : Option NodeAddr → Exec Exception NodeHeap Unit
  | some parent => addDescCount depth parent self
  | none => pure ()

/-- `addr` is where the new child is allocated. -/
def addChild (depth : Nat) (self addr : NodeAddr) (header : HeaderMgr) (syncState : SyncStateRef) :
    Exec Exception NodeHeap Unit := do
  write addr (.ofParent self header syncState)
  let node ← deref self
  write self { node with children := node.children ++ [{ numOfDesc := 0, child := addr }] }
  informParent depth self node.parent

def releaseChildHasNDesc (self : NodeAddr) (numOfDesc : Nat) :
    Exec Exception NodeHeap (Option NodeAddr) := do
  let node ← deref self
  match node.children.find? fun info => info.numOfDesc ≥ numOfDesc with
  | none => return none
  | some info => do
    write self { node with
      children := node.children.eraseP fun info => info.numOfDesc ≥ numOfDesc }
    let child ← deref info.child
    write info.child { child with parent := none }
    return some info.child

/-- The destructor destroys the children, and theirs, before the node itself is freed. -/
def destroy : Nat → NodeAddr → Exec Exception NodeHeap Unit
  | 0, _ => Exec.undefined
  | depth + 1, addr => do
    let node ← deref addr
    node.children.forM fun info => destroy depth info.child
    free addr

/-- The nodes that `parent` owns directly. -/
def IsChild (heap : NodeHeap) (parent child : NodeAddr) : Prop :=
  ∃ node, heap parent = some node ∧ ∃ info ∈ node.children, info.child = child

/-- The nodes strictly below `addr`. -/
def descendants (heap : NodeHeap) (addr : NodeAddr) : Set NodeAddr :=
  { below | Relation.TransGen heap.IsChild addr below }

end NodeHeap

/-! ## The tree a memory holds -/

namespace ChildInfos

/-- The vector `m_children` itself. -/
def infos : ChildInfos → List ChildInfo
  | nil => []
  | cons numOfDesc addr _ _ _ rest => { numOfDesc, child := addr } :: rest.infos

def addrs (entries : ChildInfos) : List NodeAddr := entries.nodes.map Prod.fst

/-- The nodes of these entries are in memory, each with its children and its parent. -/
def Stored (heap : NodeHeap) (owner : NodeAddr) : ChildInfos → Prop
  | nil => True
  | cons _ addr header syncState children rest =>
    heap addr = some { children := children.infos, parent := some owner, header, syncState } ∧
      children.Stored heap addr ∧ rest.Stored heap owner

variable {heap heap' : NodeHeap} {owner addr : NodeAddr} {header : HeaderMgr}
  {syncState : SyncStateRef}

@[simp] theorem addrs_nil : nil.addrs = [] := rfl

@[simp] theorem addrs_cons (numOfDesc : Nat) (children rest : ChildInfos) :
    (cons numOfDesc addr header syncState children rest).addrs =
      addr :: (children.addrs ++ rest.addrs) := by
  simp [addrs, nodes]

@[simp] theorem length_addrs (entries : ChildInfos) : entries.addrs.length = entries.nodes.length := by
  simp [addrs]

theorem infos_emplaceBack (entries : ChildInfos) :
    (entries.emplaceBack addr header syncState).infos =
      entries.infos ++ [{ numOfDesc := 0, child := addr }] := by
  induction entries with
  | nil => rfl
  | cons _ _ _ _ _ _ _ inductionHypothesis => simp [emplaceBack, infos, inductionHypothesis]

theorem child_mem_addrs {entries : ChildInfos} {info : ChildInfo} (member : info ∈ entries.infos) :
    info.child ∈ entries.addrs := by
  induction entries with
  | nil => simp [infos] at member
  | cons _ _ _ _ _ _ _ inductionHypothesis =>
    simp only [infos, List.mem_cons] at member
    cases member with
    | inl same => simp [same]
    | inr later => simp [inductionHypothesis later]

/-- Only the memory of the nodes themselves matters. -/
theorem Stored.congr {entries : ChildInfos} (stored : entries.Stored heap owner)
    (same : ∀ node ∈ entries.addrs, heap' node = heap node) : entries.Stored heap' owner := by
  induction entries generalizing owner with
  | nil => trivial
  | cons _ _ _ _ children rest below after =>
    obtain ⟨here, storedBelow, storedAfter⟩ := stored
    refine ⟨?_, below storedBelow ?_, after storedAfter ?_⟩
    · rw [same _ (by simp), here]
    · intro node member
      exact same node (by simp [member])
    · intro node member
      exact same node (by simp [member])

theorem Stored.live {entries : ChildInfos} (stored : entries.Stored heap owner) {node : NodeAddr}
    (member : node ∈ entries.addrs) : ∃ present, heap node = some present := by
  induction entries generalizing owner with
  | nil => simp at member
  | cons _ _ _ _ children rest below after =>
    obtain ⟨here, storedBelow, storedAfter⟩ := stored
    simp only [addrs_cons, List.mem_cons, List.mem_append] at member
    rcases member with rfl | inside | later
    · exact ⟨_, here⟩
    · exact below storedBelow inside
    · exact after storedAfter later

theorem Stored.vacant {entries : ChildInfos} (stored : entries.Stored heap owner)
    (vacant : heap addr = none) : addr ∉ entries.addrs := by
  intro member
  obtain ⟨_, present⟩ := stored.live member
  rw [vacant] at present
  cases present

theorem Stored.emplaceBack {entries : ChildInfos} (stored : entries.Stored heap owner)
    (child : heap addr = some (.ofParent owner header syncState)) :
    (entries.emplaceBack addr header syncState).Stored heap owner := by
  induction entries with
  | nil => exact ⟨child, trivial, trivial⟩
  | cons _ _ _ _ _ _ _ inductionHypothesis =>
    exact ⟨stored.1, stored.2.1, inductionHypothesis stored.2.2⟩

end ChildInfos

/-! ## `AddChild` climbs to the root -/

namespace NodeHeap

variable {heap : NodeHeap} {owner addr : NodeAddr} {header : HeaderMgr} {syncState : SyncStateRef}

theorem deref_ok {node : StoredNode} (present : heap addr = some node) :
    deref addr heap = .ok node heap := by
  simp [deref, present]

theorem modify_middle {α : Type} (before after : List α) (entry : α) (change : α → α) :
    (before ++ entry :: after).modify before.length change = before ++ change entry :: after := by
  induction before with
  | nil => rfl
  | cons _ _ inductionHypothesis => simp [inductionHypothesis]

/-- One level of the climb. -/
theorem informParent_parent {depth : Nat} {self : NodeAddr} {child ownerNode : StoredNode}
    {before after : List ChildInfo} {count : Nat} (childAt : heap self = some child)
    (parent : child.parent = some owner) (ownerAt : heap owner = some ownerNode)
    (children : ownerNode.children = before ++ { numOfDesc := count, child := self } :: after)
    (first : self ∉ before.map ChildInfo.child) :
    informParent (depth + 1) self child.parent heap =
      informParent depth owner ownerNode.parent (Function.update heap owner (some { ownerNode with
        children := before ++ { numOfDesc := count + 1, child := self } :: after })) := by
  have index : (before ++ ({ numOfDesc := count, child := self } : ChildInfo) :: after).findIdx?
      (fun info => info.child = self) = some before.length := by
    rw [List.findIdx?_append, List.findIdx?_eq_none_iff.mpr]
    · simp [List.findIdx?_cons]
    · intro info member
      simp only [decide_eq_false_iff_not]
      exact fun same => first (List.mem_map.mpr ⟨info, member, same⟩)
  rw [parent]
  simp only [informParent, addDescCount, Exec.bind_apply, deref_ok childAt, Outcome.andThen_ok,
    Exec.throwIf_apply, parent, ne_eq, not_true_eq_false, if_false, deref_ok ownerAt, children, index]
  simp only [write, Exec.modify_apply, Outcome.andThen_ok, modify_middle]

/-- The memory after a child was added at or below the entries `entries` of `owner`, which follow
    `before`, when the climb has reached `owner`. -/
structure AddedBelow (heap heap' : NodeHeap) (addr owner : NodeAddr) (ownerNode : StoredNode)
    (before : List ChildInfo) (entries added : ChildInfos) : Prop where
  node : heap' owner = some { ownerNode with children := before ++ added.infos }
  stored : added.Stored heap' owner
  addrs : ∀ other, other ∈ added.addrs → other = addr ∨ other ∈ entries.addrs
  others : ∀ other, other ≠ owner → other ≠ addr → other ∉ entries.addrs → heap' other = heap other

/-- The part of `AddChild` before the climb. -/
theorem addChild_here (header : HeaderMgr) (syncState : SyncStateRef) {self : NodeAddr}
    {node : StoredNode} {entries : ChildInfos}
    (stored : entries.Stored heap self) (nodeAt : heap self = some node)
    (children : node.children = entries.infos) (distinct : self ∉ entries.addrs)
    (vacant : heap addr = none) :
    ∃ heap', (∀ depth, addChild depth self addr header syncState heap =
        informParent depth self node.parent heap') ∧
      AddedBelow heap heap' addr self node [] entries
        (entries.emplaceBack addr header syncState) := by
  have different : self ≠ addr := by
    rintro rfl
    rw [vacant] at nodeAt
    cases nodeAt
  have vacantBelow : addr ∉ entries.addrs := stored.vacant vacant
  let linked : NodeHeap := Function.update heap addr (some (.ofParent self header syncState))
  have elsewhere : ∀ other, other ≠ addr → linked other = heap other := by
    intro other notAddr
    exact Function.update_of_ne notAddr _ _
  have kept : linked self = some node := by
    rw [elsewhere self different, nodeAt]
  refine ⟨Function.update linked self (some { node with
    children := node.children ++ [{ numOfDesc := 0, child := addr }] }), fun depth => ?_, ?_, ?_, ?_, ?_⟩
  · simp only [addChild, write, Exec.bind_apply, Exec.modify_apply, Outcome.andThen_ok]
    rw [deref_ok kept]
    rfl
  · simp [ChildInfos.infos_emplaceBack, children]
  · apply ChildInfos.Stored.emplaceBack
    · apply stored.congr
      intro other member
      rw [Function.update_of_ne (by rintro rfl; exact distinct member),
        elsewhere other (by rintro rfl; exact vacantBelow member)]
    · rw [Function.update_of_ne different.symm]
      exact Function.update_self _ _ _
  · intro other
    simp [ChildInfos.addrs, ChildInfos.nodes_emplaceBack, or_comm]
  · intro other notSelf notAddr _
    rw [Function.update_of_ne notSelf, elsewhere other notAddr]

/-- One level up: the entry on the path counts one descendant more. -/
theorem AddedBelow.up {heap' : NodeHeap} {self : NodeAddr} {ownerNode : StoredNode}
    {header' : HeaderMgr} {syncState' : SyncStateRef} {before : List ChildInfo} {count : Nat}
    {entries grown rest : ChildInfos}
    (inside : AddedBelow heap heap' addr self
      { children := entries.infos, parent := some owner, header := header', syncState := syncState' }
      [] entries grown)
    (ownerAt : heap owner = some ownerNode)
    (children : ownerNode.children = before ++
      (ChildInfos.cons count self header' syncState' entries rest).infos)
    (distinct : (before.map ChildInfo.child ++ owner :: (ChildInfos.cons count self header' syncState'
      entries rest).addrs).Nodup)
    (storedAfter : rest.Stored heap owner) (vacant : heap addr = none) :
    ∃ heap'', (∀ depth, informParent (depth + 1) self (some owner) heap' =
        informParent depth owner ownerNode.parent heap'') ∧
      AddedBelow heap heap'' addr owner ownerNode before
        (.cons count self header' syncState' entries rest)
        (.cons (count + 1) self header' syncState' grown rest) := by
  have ownerNotAddr : owner ≠ addr := by
    rintro rfl
    rw [vacant] at ownerAt
    cases ownerAt
  have vacantAfter : addr ∉ rest.addrs := storedAfter.vacant vacant
  simp only [ChildInfos.addrs_cons, List.nodup_append, List.nodup_cons, List.mem_cons,
    List.mem_append, not_or] at distinct
  obtain ⟨-, ⟨⟨ownerNotSelf, ownerNotBelow, ownerNotAfter⟩, ⟨selfNotBelow, selfNotAfter⟩, -, -, apart⟩,
    first⟩ := distinct
  -- only the owner is written once more: it counts the new descendant
  have ownerAt' : heap' owner = some ownerNode := by
    rw [inside.others owner ownerNotSelf ownerNotAddr ownerNotBelow, ownerAt]
  have selfFirst : self ∉ before.map ChildInfo.child := by
    intro member
    exact first self member self (by simp) rfl
  refine ⟨_, fun depth => informParent_parent inside.node rfl ownerAt' children selfFirst, ?_, ?_, ?_, ?_⟩
  · rw [Function.update_self]
    rfl
  · refine ⟨?_, ?_, ?_⟩
    · rw [Function.update_of_ne (Ne.symm ownerNotSelf), inside.node]
      rfl
    · apply inside.stored.congr
      intro other member
      apply Function.update_of_ne
      rintro rfl
      cases inside.addrs other member with
      | inl same => exact ownerNotAddr same
      | inr inEntries => exact ownerNotBelow inEntries
    · apply storedAfter.congr
      intro other member
      rw [Function.update_of_ne (by rintro rfl; exact ownerNotAfter member)]
      apply inside.others
      · rintro rfl
        exact selfNotAfter member
      · rintro rfl
        exact vacantAfter member
      · intro inEntries
        exact apart other inEntries other member rfl
  · intro other member
    simp only [ChildInfos.addrs_cons, List.mem_cons, List.mem_append] at member ⊢
    rcases member with here | below | after
    · exact .inr (.inl here)
    · cases inside.addrs other below with
      | inl same => exact .inl same
      | inr inEntries => exact .inr (.inr (.inl inEntries))
    · exact .inr (.inr (.inr after))
  · intro other notOwner notAddr outside
    simp only [ChildInfos.addrs_cons, List.mem_cons, List.mem_append, not_or] at outside
    rw [Function.update_of_ne notOwner, inside.others other outside.1 notAddr outside.2.1]

/-- `AddChild` below the entries of `owner`: what is left to do when the climb has reached `owner`.
    The induction is on the entries; the climb passes one level for each entry on the path. -/
theorem addChild_below {ownerNode : StoredNode} {parent : NodeAddr} {before : List ChildInfo}
    {entries added : ChildInfos} (stored : entries.Stored heap owner)
    (ownerAt : heap owner = some ownerNode) (children : ownerNode.children = before ++ entries.infos)
    (distinct : (before.map ChildInfo.child ++ owner :: entries.addrs).Nodup)
    (vacant : heap addr = none)
    (adds : entries.addChild parent addr header syncState = some added) :
    ∃ levels heap', levels ≤ entries.nodes.length ∧
      (∀ depth, addChild (depth + levels) parent addr header syncState heap =
        informParent depth owner ownerNode.parent heap') ∧
      AddedBelow heap heap' addr owner ownerNode before entries added := by
  induction entries generalizing owner ownerNode before added with
  | nil => cases adds
  | cons count self header' syncState' inner rest below after =>
    -- the parent is this child, or stands below it, or behind it among the siblings
    have unused := stored.vacant vacant
    obtain ⟨here, storedBelow, storedAfter⟩ := stored
    have distinctBelow : (self :: inner.addrs).Nodup := by
      simp only [ChildInfos.addrs_cons, List.nodup_append, List.nodup_cons] at distinct ⊢
      simp_all
    rcases ChildInfos.addChild_cons adds with ⟨rfl, rfl⟩ | ⟨grown, addsBelow, rfl⟩ |
      ⟨grown, addsAfter, rfl⟩
    · obtain ⟨middle, linksHere, inside⟩ := addChild_here header syncState storedBelow here rfl
        (List.nodup_cons.mp distinctBelow).1 vacant
      obtain ⟨heap', climbs, reached⟩ := inside.up ownerAt children distinct storedAfter vacant
      refine ⟨1, heap', by simp [ChildInfos.nodes], fun depth => ?_, reached⟩
      rw [linksHere, climbs]
    · have childrenBelow : inner.infos = [] ++ inner.infos := rfl
      obtain ⟨levels, middle, few, climbsBelow, inside⟩ :=
        below storedBelow here childrenBelow distinctBelow addsBelow
      obtain ⟨heap', climbs, reached⟩ := inside.up ownerAt children distinct storedAfter vacant
      refine ⟨levels + 1, heap', by simp [ChildInfos.nodes]; omega, fun depth => ?_, reached⟩
      rw [← climbs, ← climbsBelow]
      congr 1
      omega
    · have childrenAfter : ownerNode.children =
          (before ++ [ChildInfo.mk count self]) ++ rest.infos := by
        rw [children]
        simp [ChildInfos.infos]
      have distinctAfter : ((before ++ [ChildInfo.mk count self]).map ChildInfo.child ++
          owner :: rest.addrs).Nodup := by
        simp only [ChildInfos.addrs_cons, List.map_append, List.map_cons, List.map_nil] at distinct ⊢
        grind
      obtain ⟨levels, heap', few, climbs, reached⟩ :=
        after storedAfter ownerAt childrenAfter distinctAfter addsAfter
      have apart : ∀ other, other ∈ self :: inner.addrs → heap' other = heap other := by
        intro other member
        have isLive : other ∈ (ChildInfos.cons count self header' syncState' inner rest).addrs := by
          simp only [ChildInfos.addrs_cons, List.mem_cons, List.mem_append] at member ⊢
          tauto
        apply reached.others
        · rintro rfl
          simp only [List.nodup_append, List.nodup_cons] at distinct
          exact distinct.2.1.1 isLive
        · rintro rfl
          exact unused isLive
        · intro later
          simp only [ChildInfos.addrs_cons, List.nodup_append, List.nodup_cons, List.mem_cons,
            List.mem_append, not_or] at distinct member
          grind
      refine ⟨levels, heap', by simp [ChildInfos.nodes]; omega, climbs, ?_, ?_, ?_, ?_⟩
      · rw [reached.node]
        simp [ChildInfos.infos]
      · refine ⟨?_, ?_, reached.stored⟩
        · rw [apart self (by simp), here]
        · apply storedBelow.congr
          intro other member
          exact apart other (by simp [member])
      · intro other member
        simp only [ChildInfos.addrs_cons, List.mem_cons, List.mem_append] at member ⊢
        rcases member with here | below | after
        · exact .inr (.inl here)
        · exact .inr (.inr (.inl below))
        · cases reached.addrs other after with
          | inl same => exact .inl same
          | inr inRest => exact .inr (.inr (.inr inRest))
      · intro other notOwner notAddr outside
        simp only [ChildInfos.addrs_cons, List.mem_cons, List.mem_append, not_or] at outside
        exact reached.others other notOwner notAddr outside.2.2

/-! ## Release and destruction -/

theorem releaseChildHasNDesc_some {self numOfDesc : Nat} {node child : StoredNode} {info : ChildInfo}
    (nodeAt : heap self = some node)
    (found : node.children.find? (fun info => info.numOfDesc ≥ numOfDesc) = some info)
    (childAt : heap info.child = some child) (different : info.child ≠ self) :
    releaseChildHasNDesc self numOfDesc heap =
      .ok (some info.child) (Function.update (Function.update heap self (some { node with
        children := node.children.eraseP fun info => info.numOfDesc ≥ numOfDesc }))
          info.child (some { child with parent := none })) := by
  have childKept : ∀ node', Function.update heap self node' info.child = some child := by
    intro node'
    rw [Function.update_of_ne different, childAt]
  simp only [releaseChildHasNDesc, Exec.bind_apply, deref_ok nodeAt, Outcome.andThen_ok, found, write,
    Exec.modify_apply]
  rw [deref_ok (childKept _)]
  rfl

/-- Destroying the children of a node frees exactly the nodes below it. -/
theorem destroy_entries {entries : ChildInfos} {depth : Nat} (stored : entries.Stored heap owner)
    (deep : entries.nodes.length ≤ depth) (distinct : entries.addrs.Nodup) :
    (entries.infos.forM fun info => destroy depth info.child) heap =
      .ok ⟨⟩ fun other => if other ∈ entries.addrs then none else heap other := by
  induction entries generalizing heap owner depth with
  | nil => simp [ChildInfos.infos]
  | cons count self header syncState inner rest below after =>
    obtain ⟨here, storedBelow, storedAfter⟩ := stored
    simp only [ChildInfos.nodes, List.length_cons, List.length_append] at deep
    simp only [ChildInfos.addrs_cons, List.nodup_cons, List.nodup_append, List.mem_append,
      not_or] at distinct
    obtain ⟨⟨selfNotBelow, selfNotAfter⟩, distinctBelow, distinctAfter, apart⟩ := distinct
    obtain ⟨depth, rfl⟩ : ∃ smaller, depth = smaller + 1 := ⟨depth - 1, by omega⟩
    let left : NodeHeap := Function.update
      (fun other => if other ∈ inner.addrs then none else heap other) self none
    have frees : destroy (depth + 1) self heap = .ok ⟨⟩ left := by
      simp only [destroy, Exec.bind_apply, deref_ok here, Outcome.andThen_ok]
      rw [below storedBelow (by omega) distinctBelow]
      rfl
    have storedLeft : rest.Stored left owner := by
      apply storedAfter.congr
      intro other member
      have notSelf : other ≠ self := by
        rintro rfl
        exact selfNotAfter member
      have notBelow : other ∉ inner.addrs := by
        intro inside
        exact apart other inside other member rfl
      simp [left, Function.update_of_ne notSelf, notBelow]
    change (destroy (depth + 1) self heap).andThen (fun _ => rest.infos.forM _) = _
    rw [frees, Outcome.andThen_ok, after storedLeft (by omega) distinctAfter]
    congr 1
    funext other
    by_cases same : other = self
    · simp [left, same]
    · by_cases below : other ∈ inner.addrs
      · simp [left, same, below]
      · simp [left, same, below]

end NodeHeap

/-- The object of a node that `parent` owns. -/
def HeaderNode.stored (node : HeaderNode) (parent : Option NodeAddr) : StoredNode where
  children := node.children.infos
  parent
  header := node.header
  syncState := node.syncState

namespace ChildInfos

variable {heap : NodeHeap} {owner : NodeAddr}

/-- `find_if` finds the entry that the tree releases, and the others are left. -/
theorem releaseChildHasNDesc_infos {numOfDesc : Nat} {entries remaining : ChildInfos}
    {child : HeaderNode} (released : entries.releaseChildHasNDesc numOfDesc = some (child, remaining)) :
    (∃ info, entries.infos.find? (fun info => info.numOfDesc ≥ numOfDesc) = some info ∧
      info.child = child.addr) ∧
    (entries.infos.eraseP fun info => info.numOfDesc ≥ numOfDesc) = remaining.infos := by
  induction entries generalizing remaining with
  | nil => cases released
  | cons count self header syncState inner rest _ inductionHypothesis =>
    simp only [releaseChildHasNDesc] at released
    split at released
    next enough =>
      cases released
      simp [infos, enough]
    next notEnough =>
      obtain ⟨⟨child', remaining'⟩, later, equal⟩ := Option.map_eq_some_iff.mp released
      cases equal
      obtain ⟨found, erased⟩ := inductionHypothesis later
      simp only [infos, List.find?_cons, notEnough, decide_false, List.eraseP_cons]
      exact ⟨found, by simp [erased]⟩

theorem releaseChildHasNDesc_none {numOfDesc : Nat} {entries : ChildInfos} :
    entries.releaseChildHasNDesc numOfDesc = none ↔
      entries.infos.find? (fun info => info.numOfDesc ≥ numOfDesc) = none := by
  induction entries with
  | nil => simp [releaseChildHasNDesc, infos]
  | cons count self header syncState inner rest _ inductionHypothesis =>
    by_cases enough : count ≥ numOfDesc
    · simp [releaseChildHasNDesc, infos, enough]
    · simp only [releaseChildHasNDesc, infos, List.find?_cons, enough, if_false, decide_false,
        Option.map_eq_none_iff, inductionHypothesis]

/-- The released child is still in memory below its owner, and so are the other entries. -/
theorem Stored.release {numOfDesc : Nat} {entries remaining : ChildInfos} {child : HeaderNode}
    (stored : entries.Stored heap owner)
    (released : entries.releaseChildHasNDesc numOfDesc = some (child, remaining)) :
    heap child.addr = some (child.stored (some owner)) ∧
      child.children.Stored heap child.addr ∧ remaining.Stored heap owner := by
  induction entries generalizing remaining with
  | nil => cases released
  | cons count self header syncState inner rest _ inductionHypothesis =>
    obtain ⟨here, storedBelow, storedAfter⟩ := stored
    simp only [releaseChildHasNDesc] at released
    split at released
    next enough =>
      cases released
      exact ⟨here, storedBelow, storedAfter⟩
    next notEnough =>
      obtain ⟨⟨child', remaining'⟩, later, equal⟩ := Option.map_eq_some_iff.mp released
      cases equal
      obtain ⟨childHere, childBelow, others⟩ := inductionHypothesis storedAfter later
      exact ⟨childHere, childBelow, here, storedBelow, others⟩

end ChildInfos

/-! ## The header tree in memory, and what each update does to it -/

structure HeaderTree where
  heap : NodeHeap
  root : NodeAddr

namespace HeaderTree

def ofRoot (addr : NodeAddr) (header : HeaderMgr) (syncState : SyncStateRef) : HeaderTree where
  heap := Function.update (fun _ => none) addr (some { children := [], parent := none, header, syncState })
  root := addr

/-- A call on the memory. -/
def onHeap {α : Type} (call : Exec Exception NodeHeap α) : Exec Exception HeaderTree α :=
  Exec.zoom heap (fun heap tree => { tree with heap }) call

def addChild (depth : Nat) (parent addr : NodeAddr) (header : HeaderMgr) (syncState : SyncStateRef) :
    Exec Exception HeaderTree Unit :=
  onHeap (NodeHeap.addChild depth parent addr header syncState)

/-- The part of `RuntimeMaintenance` that touches the tree: the child that is released becomes the
    last node of the checkpoint, and the node it replaces is destroyed. -/
def maintain (depth numOfDesc : Nat) : Exec Exception HeaderTree Unit := do
  let root := (← Exec.get).root
  match ← onHeap (NodeHeap.releaseChildHasNDesc root numOfDesc) with
  | none => pure ()
  | some child => do
    Exec.modify fun tree => { tree with root := child }
    onHeap (NodeHeap.destroy depth root)

/-- The memory holds the tree under `root`, and nothing else. -/
structure Represents (tree : HeaderTree) (root : HeaderNode) : Prop where
  rootAddr : tree.root = root.addr
  rootNode : tree.heap root.addr = some (root.stored none)
  stored : root.children.Stored tree.heap root.addr
  distinct : (root.addr :: root.children.addrs).Nodup
  nothingElse : ∀ addr, addr ∉ root.addr :: root.children.addrs → tree.heap addr = none

theorem represents_ofRoot (addr : NodeAddr) (header : HeaderMgr) (syncState : SyncStateRef) :
    Represents (ofRoot addr header syncState) { addr, header, syncState, children := .nil } where
  rootAddr := rfl
  rootNode := by simp [ofRoot, HeaderNode.stored, ChildInfos.infos]
  stored := trivial
  distinct := by simp
  nothingElse := by
    intro other outside
    have different : other ≠ addr := by simpa using outside
    simp [ofRoot, different]

variable {tree : HeaderTree} {root : HeaderNode}

/-- A live address is that of the root or of a node below it. -/
theorem Represents.mem_of_live (represents : Represents tree root) {addr : NodeAddr}
    (live : tree.heap addr ≠ none) : addr ∈ root.addr :: root.children.addrs := by
  by_contra outside
  exact live (represents.nothingElse addr outside)

/-- Once the climb has reached the root, the memory holds the tree with the new child. -/
theorem Represents.of_addedBelow (represents : Represents tree root) {heap' : NodeHeap}
    {addr : NodeAddr} {header : HeaderMgr} {added : ChildInfos} (vacant : tree.heap addr = none)
    (reached : NodeHeap.AddedBelow tree.heap heap' addr root.addr (root.stored none) [] root.children
      added)
    (nodes : added.nodes.Perm ((addr, header) :: root.children.nodes)) :
    Represents { tree with heap := heap' } { root with children := added } := by
  have addrs : added.addrs.Perm (addr :: root.children.addrs) := nodes.map Prod.fst
  have fresh : addr ∉ root.addr :: root.children.addrs := by
    simp only [List.mem_cons, not_or]
    refine ⟨?_, represents.stored.vacant vacant⟩
    intro same
    rw [same, represents.rootNode] at vacant
    cases vacant
  refine ⟨represents.rootAddr, reached.node, reached.stored, ?_, ?_⟩
  · have grown : (addr :: root.addr :: root.children.addrs).Nodup :=
      List.nodup_cons.mpr ⟨fresh, represents.distinct⟩
    exact ((addrs.cons root.addr).trans (.swap _ _ _)).nodup_iff.mpr grown
  · intro other outside
    simp only [List.mem_cons, addrs.mem_iff, not_or] at outside
    change heap' other = none
    rw [reached.others other outside.1 outside.2.1 outside.2.2]
    exact represents.nothingElse other (by simp [outside])

theorem addChild_represents (represents : Represents tree root) {parent addr : NodeAddr}
    (header : HeaderMgr) (syncState : SyncStateRef) (live : tree.heap parent ≠ none)
    (vacant : tree.heap addr = none) :
    ∃ grown after, root.addChild parent addr header syncState = some grown ∧
      Exec.Returns (fun depth => addChild depth parent addr header syncState) tree () after ∧
      Represents after grown := by
  have isNode := represents.mem_of_live live
  by_cases isRoot : root.addr = parent
  · subst isRoot
    obtain ⟨heap', linksHere, reached⟩ := NodeHeap.addChild_here header syncState represents.stored
      represents.rootNode rfl (List.nodup_cons.mp represents.distinct).1 vacant
    have nodes : (root.children.emplaceBack addr header syncState).nodes.Perm
        ((addr, header) :: root.children.nodes) := by
      rw [ChildInfos.nodes_emplaceBack]
      exact List.perm_append_singleton _ _
    refine ⟨{ root with children := root.children.emplaceBack addr header syncState },
      { tree with heap := heap' }, by simp [HeaderNode.addChild], ⟨0, fun depth _ => ?_⟩,
      represents.of_addedBelow vacant reached nodes⟩
    simp only [addChild, onHeap, Exec.zoom_apply, linksHere depth]
    rfl
  · have isBelow : parent ∈ root.children.addrs := by
      cases List.mem_cons.mp isNode with
      | inl same => exact absurd same.symm isRoot
      | inr below => exact below
    have found : (root.children.addChild parent addr header syncState).isSome :=
      (ChildInfos.addChild_isSome_iff root.children).mpr isBelow
    obtain ⟨added, adds⟩ := Option.isSome_iff_exists.mp found
    have children : (root.stored none).children = [] ++ root.children.infos := rfl
    obtain ⟨levels, heap', -, climbs, reached⟩ := NodeHeap.addChild_below represents.stored
      represents.rootNode children represents.distinct vacant adds
    refine ⟨{ root with children := added }, { tree with heap := heap' },
      by simp [HeaderNode.addChild, isRoot, adds], ⟨levels, fun depth deep => ?_⟩,
      represents.of_addedBelow vacant reached (ChildInfos.nodes_addChild adds)⟩
    obtain ⟨more, rfl⟩ := Nat.exists_eq_add_of_le' deep
    simp only [addChild, onHeap, Exec.zoom_apply, climbs more]
    rfl

/-- What is left when the released child is unlinked and all that was not below it is freed. -/
theorem Represents.of_released (represents : Represents tree root) {child : HeaderNode}
    {remaining : List NodeAddr} {final : NodeHeap}
    (addrs : root.children.addrs.Perm ((child.addr :: child.children.addrs) ++ remaining))
    (childStored : child.children.Stored tree.heap child.addr)
    (unlinked : final child.addr = some (child.stored none))
    (freed : ∀ other, other = root.addr ∨ other ∈ remaining → final other = none)
    (others : ∀ other, other ≠ root.addr → other ≠ child.addr → other ∉ remaining →
      final other = tree.heap other) :
    Represents { heap := final, root := child.addr } child := by
  have distinct := represents.distinct
  simp only [List.nodup_cons, addrs.mem_iff, addrs.nodup_iff, List.nodup_append, List.mem_append,
    not_or] at distinct
  obtain ⟨⟨rootApart, -⟩, childDistinct, -, apart⟩ := distinct
  refine ⟨rfl, unlinked, ?_, List.nodup_cons.mpr childDistinct, ?_⟩
  · apply childStored.congr
    intro other member
    apply others
    · rintro rfl
      exact rootApart (by simp [member])
    · rintro rfl
      exact childDistinct.1 member
    · intro inRemaining
      exact apart other (by simp [member]) other inRemaining rfl
  · intro other outside
    simp only [List.mem_cons, not_or] at outside
    by_cases gone : other = root.addr ∨ other ∈ remaining
    · exact freed other gone
    · simp only [not_or] at gone
      change final other = none
      rw [others other gone.1 outside.1 gone.2]
      apply represents.nothingElse
      simp [addrs.mem_iff, gone, outside]

theorem maintain_releases (represents : Represents tree root) {numOfDesc : Nat} {child : HeaderNode}
    {remaining : ChildInfos}
    (released : root.children.releaseChildHasNDesc numOfDesc = some (child, remaining)) :
    ∃ after, Exec.Returns (fun depth => maintain depth numOfDesc) tree () after ∧
      Represents after child := by
  obtain ⟨⟨info, found, named⟩, erased⟩ := ChildInfos.releaseChildHasNDesc_infos released
  obtain ⟨childAt, childStored, remainingStored⟩ := represents.stored.release released
  have addrs : root.children.addrs.Perm ((child.addr :: child.children.addrs) ++ remaining.addrs) := by
    simpa [ChildInfos.addrs, HeaderNode.nodes] using
      (ChildInfos.releaseChildHasNDesc_spec released).1.map Prod.fst
  have distinct := represents.distinct
  simp only [List.nodup_cons, addrs.mem_iff, addrs.nodup_iff, List.nodup_append, List.mem_append,
    List.mem_cons, not_or] at distinct
  obtain ⟨⟨⟨rootNotChild, -⟩, rootNotRemaining⟩, -, remainingDistinct, apart⟩ := distinct
  have childNotRemaining : child.addr ∉ remaining.addrs := by
    intro member
    exact apart child.addr (.inl rfl) child.addr member rfl
  -- first the child is taken out of the root
  let detached : NodeHeap := Function.update (Function.update tree.heap root.addr
    (some { root.stored none with children := remaining.infos })) child.addr (some (child.stored none))
  have releases : NodeHeap.releaseChildHasNDesc root.addr numOfDesc tree.heap =
      .ok (some child.addr) detached := by
    rw [← named] at rootNotChild childAt
    rw [NodeHeap.releaseChildHasNDesc_some represents.rootNode found childAt (Ne.symm rootNotChild)]
    simp only [HeaderNode.stored, erased, named]
    rfl
  have others : ∀ other, other ≠ root.addr → other ≠ child.addr →
      detached other = tree.heap other := by
    intro other notRoot notChild
    simp only [detached, Function.update_of_ne notRoot, Function.update_of_ne notChild]
  have rootLeft : detached root.addr = some { root.stored none with children := remaining.infos } := by
    simp only [detached, Function.update_of_ne rootNotChild, Function.update_self]
  have storedLeft : remaining.Stored detached root.addr := by
    apply remainingStored.congr
    intro other member
    apply others
    · rintro rfl
      exact rootNotRemaining member
    · rintro rfl
      exact childNotRemaining member
  -- then everything that is left under the root is destroyed
  let final : NodeHeap := Function.update
    (fun other => if other ∈ remaining.addrs then none else detached other) root.addr none
  have destroys : ∀ depth ≥ remaining.nodes.length + 1,
      NodeHeap.destroy depth root.addr detached = .ok () final := by
    intro depth deep
    obtain ⟨more, rfl⟩ := Nat.exists_eq_add_of_le' (Nat.le_of_add_left_le deep)
    simp only [NodeHeap.destroy, Exec.bind_apply, NodeHeap.deref_ok rootLeft, Outcome.andThen_ok]
    rw [NodeHeap.destroy_entries storedLeft (by omega) remainingDistinct]
    rfl
  refine ⟨{ heap := final, root := child.addr }, ⟨remaining.nodes.length + 1, fun depth deep => ?_⟩,
    represents.of_released addrs childStored ?_ ?_ ?_⟩
  · simp only [maintain, onHeap, Exec.bind_apply, Exec.get_apply, Outcome.andThen_ok,
      Exec.zoom_apply, represents.rootAddr, releases, Outcome.map_ok, Exec.modify_apply,
      destroys depth deep]
  · simp only [final, Function.update_of_ne (Ne.symm rootNotChild), childNotRemaining, if_false,
      detached, Function.update_self]
  · intro other gone
    by_cases isRoot : other = root.addr
    · simp only [final, isRoot, Function.update_self]
    · simp only [isRoot, false_or] at gone
      simp only [final, Function.update_of_ne isRoot, gone, if_true]
  · intro other notRoot notChild notRemaining
    simp only [final, Function.update_of_ne notRoot, notRemaining, if_false,
      others other notRoot notChild]

/-- The maintenance releases the child that the tree releases, and destroys everything else. -/
theorem maintain_represents (represents : Represents tree root) (numOfDesc : Nat) :
    ∃ after, Exec.Returns (fun depth => maintain depth numOfDesc) tree () after ∧
      Represents after (((root.releaseChildHasNDesc numOfDesc).map Prod.fst).getD root) := by
  cases released : root.children.releaseChildHasNDesc numOfDesc with
  | none =>
    refine ⟨tree, ⟨0, fun depth _ => ?_⟩, ?_⟩
    · have nothing := ChildInfos.releaseChildHasNDesc_none.mp released
      have rootNode := represents.rootNode
      rw [← represents.rootAddr] at rootNode
      simp only [maintain, onHeap, NodeHeap.releaseChildHasNDesc, Exec.bind_apply, Exec.get_apply,
        Outcome.andThen_ok, Exec.zoom_apply, NodeHeap.deref_ok rootNode, HeaderNode.stored, nothing]
      rfl
    · simpa [HeaderNode.releaseChildHasNDesc, released] using represents
  | some result =>
    obtain ⟨after, returns, afterRepresents⟩ := maintain_releases represents released
    refine ⟨after, returns, ?_⟩
    simpa [HeaderNode.releaseChildHasNDesc, released] using afterRepresents

end HeaderTree

end Decentagram.Eth
