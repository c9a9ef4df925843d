import Decentagram.EclipseMonitor.Confirmation

/-! # The look-up maps

A confirmation keeps the confirmed child and frees every other branch at the last node, but it erases
two keys only.  The maps name live nodes as long as these branches have no other keys.
-/

namespace Decentagram.Eth

open Decentagram.Lib

/-- Every entry names a node of the tree, under the hash of its header. -/
def EntriesLive (lastNode : Option HeaderNode) (map : NodeLookUpMap) : Prop :=
  ∀ hash addr, map.lookup hash = some addr → ∃ last, lastNode = some last ∧
    ∃ header, (addr, header) ∈ last.nodes ∧ header.hashObj = hash

structure LookUpsLive (forest : Forest) : Prop where
  offline : EntriesLive forest.lastNode forest.offlineNodes
  active : EntriesLive forest.lastNode forest.activeNodes

namespace EntriesLive

variable {map : NodeLookUpMap}

theorem emplace {last grown : HeaderNode} {addr : NodeAddr} {header : HeaderMgr}
    (live : EntriesLive (some last) map) (older : ∀ node ∈ last.nodes, node ∈ grown.nodes)
    (new : (addr, header) ∈ grown.nodes) :
    EntriesLive (some grown) (UnorderedMap.emplace map header.hashObj addr) := by
  intro hash addr' looked
  rcases UnorderedMap.lookup_emplace looked with found | ⟨rfl, rfl⟩
  · obtain ⟨_, ⟨⟩, header', member, same⟩ := live hash addr' found
    exact ⟨grown, rfl, header', older _ member, same⟩
  · exact ⟨grown, rfl, header, new, rfl⟩

theorem grow {last grown : HeaderNode} (live : EntriesLive (some last) map)
    (older : ∀ node ∈ last.nodes, node ∈ grown.nodes) : EntriesLive (some grown) map := by
  intro hash addr looked
  obtain ⟨_, ⟨⟩, header, member, same⟩ := live hash addr looked
  exact ⟨grown, rfl, header, older _ member, same⟩

/-- The first entry of all. -/
theorem root (live : EntriesLive none map) {addr : NodeAddr} {header : HeaderMgr} {last : HeaderNode}
    (new : (addr, header) ∈ last.nodes) :
    EntriesLive (some last) (map.insert header.hashObj addr) := by
  intro hash addr' looked
  rcases UnorderedMap.lookup_insert_cases looked with ⟨found, -⟩ | ⟨rfl, rfl⟩
  · obtain ⟨_, ⟨⟩, -⟩ := live hash addr' found
  · exact ⟨last, rfl, header, new, rfl⟩

theorem ofNone (live : EntriesLive none map) (last : Option HeaderNode) : EntriesLive last map := by
  intro hash addr looked
  obtain ⟨_, ⟨⟩, -⟩ := live hash addr looked

/-- What is left after the two keys of a confirmation are erased names nodes below the child, when the
    branches that are freed hold nothing but copies of it. -/
theorem confirm {last child remaining : HeaderNode} {numOfDesc : Nat}
    (live : EntriesLive (some last) map)
    (released : last.releaseChildHasNDesc numOfDesc = some (child, remaining))
    (copies : ∀ node ∈ remaining.children.nodes, node.2.hash = child.header.hash) :
    EntriesLive (some child) ((map.erase last.header.hashObj).erase child.header.hashObj) := by
  intro hash addr looked
  obtain ⟨lookedOnce, notChild⟩ := UnorderedMap.lookup_of_erase looked
  obtain ⟨lookedTwice, notLast⟩ := UnorderedMap.lookup_of_erase lookedOnce
  obtain ⟨_, ⟨⟩, header, member, rfl⟩ := live hash addr lookedTwice
  refine ⟨child, rfl, header, ?_, rfl⟩
  have nodesPerm := (HeaderNode.releaseChildHasNDesc_spec released).1
  have sameRoot : remaining.header = last.header := by
    obtain ⟨_, _, equal⟩ := Option.map_eq_some_iff.mp released
    cases equal
    rfl
  rcases List.mem_append.mp (nodesPerm.mem_iff.mp member) with below | freed
  · exact below
  · rcases List.mem_cons.mp freed with isRoot | copy
    · cases isRoot
      exact (notLast (by rw [sameRoot])).elim
    · exact (notChild (congrArg Vector.toList (copies _ copy))).elim

end EntriesLive

namespace EclipseMonitor

variable {κ ω δ ε : Type}

/-- The forest with the delivered header, if that is accepted. -/
def preparedForest (parts : Parts κ ω δ ε) (before : EclipseMonitor κ ω δ) (readings : Readings ε)
    (hdrBinary : Bytes) : Forest :=
  ((accepted parts before readings hdrBinary).bind before.growAt).getD before.forest

/-- A child of the last node has enough descendants while the last node has another branch that is not
    a mere copy of that child. -/
def dropsBranch (parts : Parts κ ω δ ε) (before : EclipseMonitor κ ω δ) : Label κ ω ε → Bool
  | .update readings hdrBinary =>
    match (preparedForest parts before readings hdrBinary).lastNode.bind fun last =>
        last.releaseChildHasNDesc parts.chkptSize with
    | some (child, remaining) =>
      remaining.children.nodes.any fun node => node.2.hash ≠ child.header.hash
    | none => false
  | _ => false

section Changes

variable {parts : Parts κ ω δ ε} {before : EclipseMonitor κ ω δ}

theorem lookUpsLive_root (live : LookUpsLive before.forest) (noNode : before.forest.lastNode = none)
    (header : HeaderMgr) (syncState : SyncStateRef) :
    LookUpsLive (before.forest.root header syncState) := by
  obtain ⟨offline, active⟩ := live
  rw [noNode] at offline active
  exact ⟨offline.root (by simp [HeaderNode.nodes]), active.ofNone _⟩

theorem lookUpsLive_grow {acceptance : Acceptance} {grown : Forest} (live : LookUpsLive before.forest)
    (grows : before.growAt acceptance = some grown) : LookUpsLive grown := by
  obtain ⟨last', adds, rfl⟩ := Option.map_eq_some_iff.mp grows
  obtain ⟨last, hasLast, addsChild⟩ := Option.bind_eq_some_iff.mp adds
  obtain ⟨nodesPerm, -, -⟩ := HeaderNode.addChild_spec addsChild
  obtain ⟨offline, active⟩ := live
  rw [hasLast] at offline active
  have older : ∀ node ∈ last.nodes, node ∈ last'.nodes :=
    fun node member => nodesPerm.mem_iff.mpr (List.mem_cons_of_mem _ member)
  have new : (before.forest.nextAddr, acceptance.header) ∈ last'.nodes :=
    nodesPerm.mem_iff.mpr List.mem_cons_self
  cases isLive : before.shared.isSynced with
  | true => exact ⟨offline.grow older, active.emplace older new⟩
  | false => exact ⟨offline.emplace older new, active.grow older⟩

/-- The forest that the maintenance finds is the prepared one, or has a single node. -/
theorem preparedForest_of_prepares {readings : Readings ε} {hdrBinary : Bytes} {middle : Forest}
    {last child remaining : HeaderNode} (prepares : Prepares parts before readings hdrBinary middle)
    (hasLast : middle.lastNode = some last)
    (released : last.releaseChildHasNDesc parts.chkptSize = some (child, remaining)) :
    preparedForest parts before readings hdrBinary = middle := by
  cases prepares with
  | same refused => simp [preparedForest, refused]
  | added accepts grown => simp [preparedForest, accepts, grown]
  | handedOver header syncState noNode =>
    cases hasLast
    simp [HeaderNode.releaseChildHasNDesc, ChildInfos.releaseChildHasNDesc] at released

theorem step_lookUpsLive {label : Label κ ω ε} {after : EclipseMonitor κ ω δ}
    (live : LookUpsLive before.forest) (clean : dropsBranch parts before label = false)
    (step : Step parts before label after) : LookUpsLive after.forest := by
  refine step_preserves LookUpsLive step live (lookUpsLive_root live)
    (fun _ _ _ _ _ _ grows => lookUpsLive_grow live grows) ?_
  rintro readings hdrBinary middle last child remaining rfl prepares ⟨offline, active⟩ hasLast released
  simp only [dropsBranch, preparedForest_of_prepares prepares hasLast released, hasLast,
    Option.bind_some, released, List.any_eq_false, decide_eq_true_eq, not_not] at clean
  rw [hasLast] at offline active
  exact ⟨offline.confirm released clean, active.confirm released clean⟩

end Changes

/-- In every state of a run whose confirmations free no other branch, the look-up maps name live nodes of
    the tree under the last node, each under the hash of its header. -/
theorem lookUps_live (parts : Parts κ ω δ ε) (diffState : δ) (owner : ω) (sessId : SessionID)
    (genTime : TrustedTimestamp) (nonce : SyncNonce) (syncContractAddr : ContractAddr)
    (eventSign : EventTopic) (listenId : EventCallbackId)
    {taken : List (EclipseMonitor κ ω δ × Label κ ω ε)} {final : EclipseMonitor κ ω δ}
    (run : Run (Step parts) (init parts diffState owner sessId genTime nonce syncContractAddr eventSign
      listenId) taken final)
    (clean : ∀ entry ∈ taken, dropsBranch parts entry.1 entry.2 = false) : LookUpsLive final.forest := by
  refine Run.invariant (fun before label => dropsBranch parts before label = false)
    (fun _ monitor => LookUpsLive monitor.forest) ?_ ?_ run clean
  · have empty : EntriesLive none (∅ : NodeLookUpMap) := by
      intro hash addr looked
      simp at looked
    exact ⟨empty, empty⟩
  · exact fun _ _ _ _ live clean step => step_lookUpsLive live clean step

open SampleChain

/-- Block 2 is confirmed by blocks 3 and 4, and it is the only child. -/
theorem lookUps_live_sample :
    ∃ taken final, Run (Step parts) start taken final ∧
      (final.offlineNodes.lookup block3.hash.toList).isSome ∧ LookUpsLive final.forest := by
  have replays : (afterBlocks [block2, block3, block4]).any (fun (taken, final) =>
      taken.all (fun entry => !dropsBranch parts entry.1 entry.2) &&
        (final.offlineNodes.lookup block3.hash.toList).isSome) = true := by
    decide +kernel
  obtain ⟨⟨taken, final⟩, replayed, checks⟩ := (Option.any_eq_true _ _).mp replays
  simp only [Bool.and_eq_true, List.all_eq_true, Bool.not_eq_true'] at checks
  obtain ⟨clean, entry⟩ := checks
  have run := run_of_afterBlocks replayed
  exact ⟨taken, final, run, entry, lookUps_live parts 0 () _ _ _ _ _ _ run clean⟩

/-- With another child of block 1, the entry of that child dangles after block 2 is confirmed. -/
theorem lookUps_dangle_after_fork :
    ∃ taken final, Run (Step parts) start taken final ∧ ¬ LookUpsLive final.forest := by
  have replays : (afterBlocks [block2, block2Fork, block3, block4]).any (fun (_, final) =>
      (final.offlineNodes.lookup block2Fork.hash.toList).any fun addr =>
        (final.checkpoint.lastNode.all fun last => addr ∉ last.nodes.map Prod.fst)) = true := by
    decide +kernel
  obtain ⟨⟨taken, final⟩, replayed, checks⟩ := (Option.any_eq_true _ _).mp replays
  obtain ⟨addr, looked, dangles⟩ := (Option.any_eq_true _ _).mp checks
  refine ⟨taken, final, run_of_afterBlocks replayed, fun live => ?_⟩
  obtain ⟨last, hasLast, header, member, -⟩ := live.offline _ _ looked
  rw [show final.checkpoint.lastNode = some last from hasLast] at dangles
  simp only [Option.all_some, decide_eq_true_eq, List.mem_map, not_exists, not_and] at dangles
  exact dangles _ member rfl

end EclipseMonitor

end Decentagram.Eth
