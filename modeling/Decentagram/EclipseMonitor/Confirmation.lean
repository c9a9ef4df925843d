import Decentagram.EclipseMonitor.HeaderForest
import Mathlib.Data.List.Dedup

/-! # What a confirmation rests on

The maintenance confirms a child of the last node for the number of nodes below it.  These nodes are
headers that were accepted against their parents.  They are distinct headers as long as no `Update`
accepts a header that the tree already holds, which nothing in the monitor prevents.
-/

namespace Decentagram.Eth

open Decentagram.Lib

namespace EclipseMonitor

variable {κ ω δ ε : Type}

/-- Where the step adds a header, if it does. -/
def acceptedIn (parts : Parts κ ω δ ε) (before : EclipseMonitor κ ω δ) :
    Label κ ω ε → Option Acceptance
  | .update readings hdrBinary => accepted parts before readings hdrBinary
  | _ => none

/-- In this step the header was accepted against this parent. -/
def AcceptedIn (parts : Parts κ ω δ ε) (entry : EclipseMonitor κ ω δ × Label κ ω ε)
    (parent header : HeaderMgr) : Prop :=
  ∃ addr, acceptedIn parts entry.1 entry.2 = some { addr, parent, header }

/-- At least `n` headers below `child` with distinct hashes, each accepted against its parent in one of
    the steps. -/
def Supported (parts : Parts κ ω δ ε) (taken : List (EclipseMonitor κ ω δ × Label κ ω ε))
    (child : HeaderNode) : Prop :=
  ∃ headers : List HeaderMgr, parts.chkptSize ≤ headers.length ∧ (headers.map HeaderMgr.hash).Nodup ∧
    ∀ header ∈ headers, header ∈ child.children.nodes.map Prod.snd ∧
      ∃ parent, (parent, header) ∈ child.edges ∧ ∃ entry ∈ taken, AcceptedIn parts entry parent header

/-- The child that the maintenance of this `Update` releases into the checkpoint. -/
def confirmedChild (parts : Parts κ ω δ ε) (before : EclipseMonitor κ ω δ) (readings : Readings ε)
    (hdrBinary : Bytes) : Option HeaderNode :=
  match beforeMaintenance parts readings hdrBinary before with
  | .ok _ middle =>
    if middle.shared.phase = .bootstrapI then none
    else middle.checkpoint.lastNode.bind fun last =>
      (last.releaseChildHasNDesc parts.chkptSize).map Prod.fst
  | _ => none

/-- The tree holds a header with this hash. -/
def holds (monitor : EclipseMonitor κ ω δ) (hash : Hash) : Bool :=
  monitor.checkpoint.lastNode.any fun last => hash ∈ last.nodes.map fun node => node.2.hash

/-- The step accepts a header that the tree already holds. -/
def repeats (parts : Parts κ ω δ ε) (before : EclipseMonitor κ ω δ) (label : Label κ ω ε) : Bool :=
  (acceptedIn parts before label).any fun acceptance => before.holds acceptance.header.hash

theorem not_supported_of_few {parts : Parts κ ω δ ε}
    {taken : List (EclipseMonitor κ ω δ × Label κ ω ε)} {child : HeaderNode}
    (few : (child.children.nodes.map fun node => node.2.hash).dedup.length < parts.chkptSize) :
    ¬ Supported parts taken child := by
  rintro ⟨headers, enough, distinct, below⟩
  have subset : headers.map HeaderMgr.hash ⊆
      (child.children.nodes.map fun node => node.2.hash).dedup := by
    intro hash member
    obtain ⟨header, headerMember, rfl⟩ := List.mem_map.mp member
    obtain ⟨node, nodeMember, rfl⟩ := List.mem_map.mp (below header headerMember).1
    exact List.mem_dedup.mpr (List.mem_map.mpr ⟨node, nodeMember, rfl⟩)
  have short := (List.subperm_of_subset distinct subset).length_le
  rw [List.length_map] at short
  omega

/-- A tree of distinct headers, each accepted against its parent in one of the steps, with exact
    counters. -/
structure SoundTree (parts : Parts κ ω δ ε) (taken : List (EclipseMonitor κ ω δ × Label κ ω ε))
    (nextAddr : NodeAddr) (last : HeaderNode) : Prop where
  hashes : (last.nodes.map fun node => node.2.hash).Nodup
  addrs : (last.nodes.map Prod.fst).Nodup
  allocated : ∀ node ∈ last.nodes, node.1 < nextAddr
  counts : last.children.CountsExact
  accepted : ∀ edge ∈ last.edges, ∃ entry ∈ taken, AcceptedIn parts entry edge.1 edge.2

def SoundForest (parts : Parts κ ω δ ε) (taken : List (EclipseMonitor κ ω δ × Label κ ω ε))
    (forest : Forest) : Prop :=
  ∀ last, forest.lastNode = some last → SoundTree parts taken forest.nextAddr last

theorem SoundTree.mono {parts : Parts κ ω δ ε}
    {taken taken' : List (EclipseMonitor κ ω δ × Label κ ω ε)} {nextAddr : NodeAddr} {last : HeaderNode}
    (sound : SoundTree parts taken nextAddr last) (subset : taken ⊆ taken') :
    SoundTree parts taken' nextAddr last :=
  { sound with accepted := fun edge member =>
      have ⟨entry, earlier, accepted⟩ := sound.accepted edge member
      ⟨entry, subset earlier, accepted⟩ }

section Changes

variable {parts : Parts κ ω δ ε} {taken : List (EclipseMonitor κ ω δ × Label κ ω ε)}
  {before : EclipseMonitor κ ω δ}

theorem soundTree_root (forest : Forest) (header : HeaderMgr) (syncState : SyncStateRef) :
    SoundForest parts taken (forest.root header syncState) := by
  rintro last ⟨⟩
  exact ⟨by simp [HeaderNode.nodes, ChildInfos.nodes], by simp [HeaderNode.nodes, ChildInfos.nodes],
    by simp [HeaderNode.nodes, ChildInfos.nodes, Forest.root], trivial,
    by simp [HeaderNode.edges, ChildInfos.edges]⟩

/-- A header is added only to a node that the tree owns. -/
theorem owned_of_acceptedIn {label : Label κ ω ε} {acceptance : Acceptance}
    (accepts : acceptedIn parts before label = some acceptance) :
    before.deref acceptance.addr = some acceptance.parent := by
  cases label with
  | endBootstrapI => cases accepts
  | owner change => cases accepts
  | update readings hdrBinary =>
    simp only [acceptedIn, accepted] at accepts
    split at accepts
    · cases accepts
    · split at accepts
      · simp only [acceptHeader, Option.bind_eq_bind, Option.bind_eq_some_iff] at accepts
        obtain ⟨entry, -, parent, owned, accepts⟩ := accepts
        split at accepts
        · cases accepts
          exact owned
        · cases accepts
      · cases accepts

/-- The new header is the only new node and hangs on the parent it was accepted against. -/
theorem soundForest_grow {acceptance : Acceptance} {grown : Forest} {label : Label κ ω ε}
    (sound : SoundForest parts taken before.forest) (member : (before, label) ∈ taken)
    (accepts : acceptedIn parts before label = some acceptance)
    (new : ¬ before.holds acceptance.header.hash) (grows : before.growAt acceptance = some grown) :
    SoundForest parts taken grown := by
  obtain ⟨last', adds, rfl⟩ := Option.map_eq_some_iff.mp grows
  obtain ⟨last, hasLast, addsChild⟩ := Option.bind_eq_some_iff.mp adds
  have tree := sound last hasLast
  obtain ⟨nodesPerm, ⟨parentHeader, parentMember, edges_iff⟩, counts⟩ :=
    HeaderNode.addChild_spec addsChild
  have parentFound : last.deref acceptance.addr = some acceptance.parent := by
    have owned := owned_of_acceptedIn accepts
    simp only [deref, show before.checkpoint.lastNode = some last from hasLast, Option.bind_some] at owned
    exact owned
  -- addresses are unique, so the node found by the pointer is the node the child was added to
  have sameParent : parentHeader = acceptance.parent :=
    congrArg Prod.snd (List.inj_on_of_nodup_map tree.addrs parentMember
      (HeaderNode.mem_nodes_of_deref parentFound) rfl)
  rintro _ ⟨⟩
  refine ⟨?_, ?_, fun node member => ?_, counts tree.counts, fun edge member => ?_⟩
  · refine (nodesPerm.map _).nodup_iff.mpr (List.nodup_cons.mpr ⟨fun held => ?_, tree.hashes⟩)
    exact new (by simpa [holds, show before.checkpoint.lastNode = some last from hasLast] using held)
  · refine (nodesPerm.map _).nodup_iff.mpr (List.nodup_cons.mpr ⟨fun held => ?_, tree.addrs⟩)
    obtain ⟨node, nodeMember, same⟩ := List.mem_map.mp held
    exact absurd (tree.allocated node nodeMember) (by rw [same]; exact Nat.lt_irrefl _)
  · rcases List.mem_cons.mp (nodesPerm.mem_iff.mp member) with rfl | older
    · exact Nat.lt_succ_self _
    · exact Nat.lt_succ_of_lt (tree.allocated node older)
  · rcases (edges_iff edge).mp member with rfl | older
    · exact ⟨(before, label), ‹_›, acceptance.addr, sameParent ▸ accepts⟩
    · exact tree.accepted edge older

theorem soundForest_confirm {forest : Forest} {last child remaining : HeaderNode}
    (sound : SoundForest parts taken forest) (hasLast : forest.lastNode = some last)
    (released : last.releaseChildHasNDesc parts.chkptSize = some (child, remaining)) :
    SoundForest parts taken (forest.confirm last child) := by
  have tree := sound last hasLast
  obtain ⟨nodesPerm, edges, counts⟩ := HeaderNode.releaseChildHasNDesc_spec released
  rintro _ ⟨⟩
  refine ⟨?_, ?_, fun node member => ?_, (counts tree.counts).1, fun edge member => ?_⟩
  · have nodup := (nodesPerm.map fun node => node.2.hash).nodup_iff.mp tree.hashes
    rw [List.map_append] at nodup
    exact nodup.of_append_left
  · have nodup := (nodesPerm.map Prod.fst).nodup_iff.mp tree.addrs
    rw [List.map_append] at nodup
    exact nodup.of_append_left
  · exact tree.allocated node (nodesPerm.mem_iff.mpr (List.mem_append_left _ member))
  · exact tree.accepted edge (edges edge member)

/-- The forest before the maintenance is sound when the step accepts no header twice. -/
theorem soundForest_prepares {readings : Readings ε} {hdrBinary : Bytes} {middle : Forest}
    (sound : SoundForest parts taken before.forest)
    (fresh : repeats parts before (.update readings hdrBinary) = false)
    (prepares : Prepares parts before readings hdrBinary middle) :
    SoundForest parts (taken ++ [(before, .update readings hdrBinary)]) middle := by
  have soundNow : SoundForest parts (taken ++ [(before, .update readings hdrBinary)]) before.forest :=
    fun last hasLast => (sound last hasLast).mono (List.subset_append_left _ _)
  cases prepares with
  | same _ => exact soundNow
  | handedOver header syncState _ => exact soundTree_root _ header syncState
  | @added acceptance grown accepts grows =>
    have acceptsIn : acceptedIn parts before (.update readings hdrBinary) = some acceptance := accepts
    refine soundForest_grow soundNow (by simp) acceptsIn (fun held => ?_) grows
    simp [repeats, acceptsIn, held] at fresh

theorem step_sound {label : Label κ ω ε} {after : EclipseMonitor κ ω δ}
    (sound : SoundForest parts taken before.forest) (fresh : repeats parts before label = false)
    (step : Step parts before label after) :
    SoundForest parts (taken ++ [(before, label)]) after.forest := by
  refine step_preserves _ step (fun last hasLast => ?_) (fun _ => soundTree_root _) ?_ ?_
  · exact (sound last hasLast).mono (List.subset_append_left _ _)
  · rintro readings hdrBinary acceptance grown rfl accepts grows
    exact soundForest_prepares sound fresh (.added accepts grows)
  · rintro readings hdrBinary middle last child remaining rfl prepares _ hasLast released
    exact soundForest_confirm (soundForest_prepares sound fresh prepares) hasLast released

end Changes

/-- In every run that accepts no header twice, the tree is sound. -/
theorem run_sound {parts : Parts κ ω δ ε} {start final : EclipseMonitor κ ω δ}
    {taken : List (EclipseMonitor κ ω δ × Label κ ω ε)} (noNode : start.checkpoint.lastNode = none)
    (run : Run (Step parts) start taken final)
    (fresh : ∀ entry ∈ taken, repeats parts entry.1 entry.2 = false) :
    SoundForest parts taken final.forest := by
  refine Run.invariant (fun before label => repeats parts before label = false)
    (fun taken monitor => SoundForest parts taken monitor.forest) ?_ ?_ run fresh
  · intro last hasLast
    simp [forest, noNode] at hasLast
  · exact fun _ _ _ _ sound fresh step => step_sound sound fresh step

/-- What the confirmations of one `Update` rest on: a confirmed child has its distinct descendants, and a
    header the tree already holds adds nothing to any count. -/
structure ConfirmsSoundly (parts : Parts κ ω δ ε) (taken : List (EclipseMonitor κ ω δ × Label κ ω ε))
    (before : EclipseMonitor κ ω δ) (readings : Readings ε) (hdrBinary : Bytes) : Prop where
  supported : ∀ child, confirmedChild parts before readings hdrBinary = some child →
    Supported parts (taken ++ [(before, .update readings hdrBinary)]) child
  redelivery : ∀ header, arrival parts readings hdrBinary = .ok header → before.holds header.hash →
    ∀ middle, beforeMaintenance parts readings hdrBinary before = .ok () middle →
      middle.checkpoint.lastNode = before.checkpoint.lastNode

theorem SoundTree.supported {parts : Parts κ ω δ ε}
    {taken : List (EclipseMonitor κ ω δ × Label κ ω ε)} {nextAddr : NodeAddr}
    {last child remaining : HeaderNode} (tree : SoundTree parts taken nextAddr last)
    (released : last.releaseChildHasNDesc parts.chkptSize = some (child, remaining)) :
    Supported parts taken child := by
  obtain ⟨nodesPerm, edges, counts⟩ := HeaderNode.releaseChildHasNDesc_spec released
  refine ⟨child.children.nodes.map Prod.snd, ?_, ?_, fun header member => ⟨member, ?_⟩⟩
  · simpa using (counts tree.counts).2
  · have nodup := (nodesPerm.map fun node => node.2.hash).nodup_iff.mp tree.hashes
    rw [List.map_append] at nodup
    have below := nodup.of_append_left
    simp only [HeaderNode.nodes, List.map_cons] at below
    rw [List.map_map]
    exact (List.nodup_cons.mp below).2
  · obtain ⟨node, nodeMember, rfl⟩ := List.mem_map.mp member
    obtain ⟨parent, edge⟩ := child.children.exists_edge child.header nodeMember
    exact ⟨parent, edge, tree.accepted _ (edges _ edge)⟩

/-- The header that is added is the one that arrived. -/
theorem header_of_accepted {parts : Parts κ ω δ ε} {before : EclipseMonitor κ ω δ}
    {readings : Readings ε} {hdrBinary : Bytes} {acceptance : Acceptance} {header : HeaderMgr}
    (accepts : accepted parts before readings hdrBinary = some acceptance)
    (arrives : arrival parts readings hdrBinary = .ok header) : acceptance.header = header := by
  simp only [accepted, arrives] at accepts
  split at accepts
  · cases accepts
  · simp only [acceptHeader, Option.bind_eq_bind, Option.bind_eq_some_iff] at accepts
    obtain ⟨entry, -, parent, -, accepts⟩ := accepts
    split at accepts
    · cases accepts
      rfl
    · cases accepts

/-- Confirmation soundness, in every run whose updates accept no header that the tree already holds. -/
theorem confirmation_sound (parts : Parts κ ω δ ε) (diffState : δ) (owner : ω) (sessId : SessionID)
    (genTime : TrustedTimestamp) (nonce : SyncNonce) (syncContractAddr : ContractAddr)
    (eventSign : EventTopic) (listenId : EventCallbackId)
    {taken : List (EclipseMonitor κ ω δ × Label κ ω ε)} {before : EclipseMonitor κ ω δ}
    (run : Run (Step parts) (init parts diffState owner sessId genTime nonce syncContractAddr eventSign
      listenId) taken before)
    (fresh : ∀ entry ∈ taken, repeats parts entry.1 entry.2 = false)
    (readings : Readings ε) (hdrBinary : Bytes)
    (freshNow : repeats parts before (.update readings hdrBinary) = false) :
    ConfirmsSoundly parts taken before readings hdrBinary where
  supported := by
    intro child confirmed
    unfold confirmedChild at confirmed
    split at confirmed
    next middle prepared =>
      have prepares := (beforeMaintenance_forest parts readings before hdrBinary).of_ok prepared
      split at confirmed
      · cases confirmed
      · obtain ⟨last, hasLast, release⟩ := Option.bind_eq_some_iff.mp confirmed
        obtain ⟨⟨child', remaining⟩, released, rfl⟩ := Option.map_eq_some_iff.mp release
        have sound := soundForest_prepares (run_sound rfl run fresh) freshNow prepares
        exact (sound last hasLast).supported released
    next => cases confirmed
  redelivery := by
    intro header arrives holds middle prepared
    have prepares := (beforeMaintenance_forest parts readings before hdrBinary).of_ok prepared
    change middle.forest.lastNode = before.forest.lastNode
    generalize middle.forest = result at prepares ⊢
    cases prepares with
    | same _ => rfl
    | handedOver _ _ noNode =>
      simp [EclipseMonitor.holds, show before.checkpoint.lastNode = none from noNode] at holds
    | added accepts grows =>
      have sameHeader := header_of_accepted accepts arrives
      simp [repeats, acceptedIn, accepts, sameHeader, holds] at freshNow

end EclipseMonitor

/-! ## A chain after the Paris fork

Headers of empty blocks, with their encodings and hashes. -/

namespace SampleChain

def rlpBytes (bytes : Bytes) : Bytes :=
  match bytes with
  | [byte] => if byte < 0x80 then [byte] else [0x81, byte]
  | _ =>
    if bytes.length ≤ 55 then
      (0x80 + UInt8.ofNat bytes.length) :: bytes
    else
      let size := toBytes (UInt64.ofNat bytes.length)
      (0xB7 + UInt8.ofNat size.length) :: (size ++ bytes)

/-- The items are encoded already. -/
def rlpList (items : List Bytes) : Bytes :=
  let payload := items.flatten
  if payload.length ≤ 55 then
    (0xC0 + UInt8.ofNat payload.length) :: payload
  else
    let size := toBytes (UInt64.ofNat payload.length)
    (0xF7 + UInt8.ofNat size.length) :: (size ++ payload)

def emptyTrieHash : Bytes :=
  [0x56, 0xE8, 0x1F, 0x17, 0x1B, 0xCC, 0x55, 0xA6, 0xFF, 0x83, 0x45,
   0xE6, 0x92, 0xC0, 0xF8, 0x6E, 0x5B, 0x48, 0xE0, 0x1B, 0x99, 0x6C,
   0xAD, 0xC0, 0x01, 0x62, 0x2F, 0xB5, 0xE3, 0x63, 0xB4, 0x21]

def firstBlkNum : BlockNumber := 8000000

def rawHeader (parentHash : Bytes) (height : UInt64) : RawHeader where
  parentHash
  sha3Uncles := HeaderMgr.emptyUncleHash
  receiptsRoot := emptyTrieHash
  logsBloom := List.replicate HeaderMgr.bloomByteSize 0
  difficulty := []
  number := toBytes (firstBlkNum + height)
  timestamp := toBytes (1700000000 + 12 * height)

def encode (rawHeader : RawHeader) (extraData : Bytes) : Bytes :=
  rlpList <| List.map rlpBytes [
    rawHeader.parentHash,
    rawHeader.sha3Uncles,
    List.replicate 20 0,
    List.replicate 32 0,
    emptyTrieHash,
    rawHeader.receiptsRoot,
    rawHeader.logsBloom,
    rawHeader.difficulty,
    rawHeader.number,
    toBytes 30000000,
    [],
    rawHeader.timestamp,
    extraData,
    List.replicate 32 0,
    List.replicate 8 0,
    toBytes 7]

structure Block where
  rawHeader : RawHeader
  extraData : Bytes
  hash : Hash
deriving DecidableEq

def Block.binary (block : Block) : Bytes := encode block.rawHeader block.extraData

def block0 : Block where
  rawHeader := rawHeader (List.replicate 32 0) 0
  extraData := []
  hash := #v[172, 165, 130, 116, 94, 215, 73, 73, 168, 129, 199, 50, 88, 135, 25, 15, 54, 99, 233, 192,
    209, 118, 93, 200, 142, 16, 8, 220, 255, 249, 180, 2]

def block1 : Block where
  rawHeader := rawHeader block0.hash.toList 1
  extraData := []
  hash := #v[45, 89, 83, 86, 135, 170, 209, 46, 136, 117, 88, 9, 92, 188, 42, 168, 149, 39, 225, 84, 13,
    61, 245, 166, 73, 131, 224, 47, 167, 31, 184, 1]

def block2 : Block where
  rawHeader := rawHeader block1.hash.toList 2
  extraData := []
  hash := #v[126, 114, 138, 155, 197, 105, 187, 1, 52, 131, 220, 143, 76, 23, 127, 130, 73, 254, 58, 113,
    240, 156, 178, 237, 13, 23, 15, 119, 142, 132, 28, 46]

/-- Another child of block 1. -/
def block2Fork : Block where
  rawHeader := rawHeader block1.hash.toList 2
  extraData := [1]
  hash := #v[191, 86, 224, 51, 34, 156, 234, 14, 40, 80, 157, 74, 190, 207, 109, 138, 36, 48, 228, 108,
    46, 174, 249, 151, 93, 234, 48, 88, 218, 117, 51, 163]

def block3 : Block where
  rawHeader := rawHeader block2.hash.toList 3
  extraData := []
  hash := #v[79, 210, 138, 234, 86, 43, 213, 106, 33, 203, 80, 95, 220, 59, 194, 244, 78, 72, 245, 157,
    10, 26, 96, 242, 99, 110, 178, 82, 30, 158, 30, 193]

def block4 : Block where
  rawHeader := rawHeader block3.hash.toList 4
  extraData := []
  hash := #v[121, 39, 232, 226, 71, 203, 128, 52, 23, 168, 216, 99, 200, 76, 200, 117, 60, 171, 233, 142,
    251, 188, 239, 29, 242, 253, 221, 78, 199, 66, 69, 24]

def zeroAddrHash : Hash :=
  #v[83, 128, 199, 183, 174, 129, 165, 142, 185, 141, 156, 120, 222, 74, 31, 215, 253, 149, 53, 252, 149,
    62, 210, 190, 96, 45, 170, 164, 23, 103, 49, 42]

def zeroTopicHash : Hash :=
  #v[41, 13, 236, 217, 84, 139, 98, 168, 214, 3, 69, 169, 136, 56, 111, 200, 75, 166, 188, 149, 72, 64,
    8, 246, 54, 47, 147, 22, 14, 243, 229, 99]

/-- Parser and hash, on some blocks and on the address and the topic of zeros. -/
def codecOf (blocks : List Block) : HeaderCodec :=
  let find := fun binary => blocks.find? fun block => block.binary = binary
  { parse := fun binary =>
      match find binary with
      | some block => .ok block.rawHeader
      | none => .error "Not a sample block"
    keccak256 := fun binary =>
      match find binary with
      | some block => block.hash
      | none => if binary.length = 20 then zeroAddrHash else zeroTopicHash }

def codec : HeaderCodec := codecOf [block0, block1, block2, block2Fork, block3, block4]

def config : MonitorConfig where
  checkpointSize := 2
  minDiffPercent := 128
  maxWaitTime := 60
  syncMaxWaitTime := 600

def parts : Parts Empty Unit MinDiff Unit where
  config
  codec
  validator := validator .goerli
  diffChecker := genericDiffChecker config .goerli
  onHeaderValidated := fun _ _ => pure ()
  onHeaderConfirmed := fun _ => pure ()

def start : EclipseMonitor Empty Unit MinDiff :=
  .init parts 0 () (Vector.replicate 16 0) 1700000000 (Vector.replicate 32 0) (Vector.replicate 20 0)
    (Vector.replicate 32 0) 0

def readings (now : TrustedTimestamp) : Readings Unit where
  arrivalTime := .ok now
  genTime := .ok now
  nonce := .ok (Vector.replicate 32 0)
  listenId := 1
  sweepTime := .ok now
  host := ()

/-- The bootstrap plan ends bootstrap I with block 1. -/
def plan : EclipseMonitor.Label Empty Unit Unit :=
  .owner (EclipseMonitor.refreshBootstrapPlan config (firstBlkNum + 5) (some firstBlkNum))

def deliver (now : TrustedTimestamp) (block : Block) : EclipseMonitor.Label Empty Unit Unit :=
  .update (readings now) block.binary

def execute (monitor : EclipseMonitor Empty Unit MinDiff) (label : EclipseMonitor.Label Empty Unit Unit) :
    Option (EclipseMonitor Empty Unit MinDiff) :=
  match EclipseMonitor.call parts label monitor with
  | .ok _ after => some after
  | _ => none

theorem step_of_execute (before : EclipseMonitor Empty Unit MinDiff)
    (label : EclipseMonitor.Label Empty Unit Unit) (after : EclipseMonitor Empty Unit MinDiff)
    (executed : execute before label = some after) : EclipseMonitor.Step parts before label after := by
  unfold execute at executed
  split at executed
  next _ _ returned => exact .inl ⟨(), by rw [returned]; simpa using executed⟩
  next => cases executed

/-- The steps and the state after bootstrap I and the delivery of some more blocks. -/
def afterBlocks (blocks : List Block) :
    Option (List (EclipseMonitor Empty Unit MinDiff × EclipseMonitor.Label Empty Unit Unit) ×
      EclipseMonitor Empty Unit MinDiff) :=
  Run.replay execute (plan :: (block0 :: block1 :: blocks).map (deliver 1700000100)) [] start

theorem run_of_afterBlocks {blocks : List Block}
    {taken : List (EclipseMonitor Empty Unit MinDiff × EclipseMonitor.Label Empty Unit Unit)}
    {final : EclipseMonitor Empty Unit MinDiff} (replayed : afterBlocks blocks = some (taken, final)) :
    Run (EclipseMonitor.Step parts) start taken final :=
  Run.of_replay step_of_execute .nil replayed

end SampleChain

namespace EclipseMonitor

open SampleChain

/-- Blocks 2, 3 and 4 on a checkpoint of size 2: block 2 is confirmed by two blocks. -/
theorem confirmation_sound_sample :
    ∃ taken before child, Run (Step parts) start taken before ∧
      confirmedChild parts before (readings 1700000100) block4.binary = some child ∧
      ConfirmsSoundly parts taken before (readings 1700000100) block4.binary := by
  have replays : (afterBlocks [block2, block3]).any (fun (taken, before) =>
      taken.all (fun entry => !repeats parts entry.1 entry.2) &&
        !repeats parts before (deliver 1700000100 block4) &&
        (confirmedChild parts before (readings 1700000100) block4.binary).isSome) = true := by
    decide +kernel
  obtain ⟨⟨taken, before⟩, replayed, checks⟩ := (Option.any_eq_true _ _).mp replays
  simp only [Bool.and_eq_true, List.all_eq_true, Bool.not_eq_true'] at checks
  obtain ⟨⟨new, newNow⟩, confirms⟩ := checks
  obtain ⟨child, confirmed⟩ := Option.isSome_iff_exists.mp confirms
  have run := run_of_afterBlocks replayed
  exact ⟨taken, before, child, run, confirmed,
    confirmation_sound parts 0 () _ _ _ _ _ _ run new (readings 1700000100) block4.binary newNow⟩

/-- Block 3 delivered twice confirms block 2 of a checkpoint of size 2. -/
theorem confirmation_by_redelivery :
    ∃ taken before, Run (Step parts) start taken before ∧
      ¬ ConfirmsSoundly parts taken before (readings 1700000100) block3.binary := by
  have replays : (afterBlocks [block2, block3]).any (fun (_, before) =>
      (confirmedChild parts before (readings 1700000100) block3.binary).any fun child =>
        (child.children.nodes.map fun node => node.2.hash).dedup.length < parts.chkptSize) = true := by
    decide +kernel
  obtain ⟨⟨taken, before⟩, replayed, checks⟩ := (Option.any_eq_true _ _).mp replays
  obtain ⟨child, confirmed, few⟩ := (Option.any_eq_true _ _).mp checks
  refine ⟨taken, before, run_of_afterBlocks replayed, fun sound => ?_⟩
  exact not_supported_of_few (by simpa using few) (sound.supported child confirmed)

end EclipseMonitor

end Decentagram.Eth
