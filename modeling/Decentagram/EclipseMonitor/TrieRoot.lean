import Decentagram.EclipseMonitor.TrieCanonicity

/-! # The root of a trie

The nodes of a canonical trie are those that its map has by definition.
-/

namespace Decentagram.Eth.Trie

open Decentagram.Lib Decentagram.Lib.Rlp Decentagram.Lib.MerklePatricia Decentagram.SimpleRlp

/-! ## Paths -/

theorem pack_byte (high low : Nibble) :
    UInt8.ofNat high <<< 4 ||| UInt8.ofNat low = UInt8.ofNat (16 * high + low) := by
  revert high low
  decide

theorem toBytes_eq_pack (path : Path) : NibbleHelper.toBytes path = pack path := by
  fun_induction pack path with
  | case1 high low path inductionHypothesis => rw [NibbleHelper.toBytes, inductionHypothesis, pack_byte]
  | case2 path notPair =>
    cases path with
    | nil => rfl
    | cons nibble rest =>
      cases rest with
      | nil => rfl
      | cons nibble' rest => exact absurd rfl (notPair nibble nibble' rest)

theorem pathBytes_eq (path : Path) (isLeafNode : Bool) :
    Node.pathBytes path isLeafNode = hexPrefix isLeafNode path := by
  simp only [Node.pathBytes, toBytes_eq_pack, NibbleHelper.toPrefixed, hexPrefix]
  by_cases isEven : path.length % 2 = 0
  · have notOdd : path.length % 2 ≠ 1 := by omega
    simp [isEven]
  · have isOdd : path.length % 2 = 1 := by omega
    have comm : ∀ flag : Nibble, 1 + flag = flag + 1 := by decide
    simp [isOdd, comm]

theorem length_pack (path : Path) : 2 * (pack path).length ≤ path.length := by
  fun_induction pack path with
  | case1 high low path inductionHypothesis =>
    simp only [List.length_cons]
    omega
  | case2 path notPair => simp

theorem length_hexPrefix (isLeaf : Bool) (path : Path) :
    2 * (hexPrefix isLeaf path).length ≤ path.length + 2 := by
  simp only [hexPrefix]
  split
  · exact length_pack _
  · exact (length_pack _).trans (Nat.le_succ _)

/-! ## Nodes -/

/-- The sizes that vectors of nibbles and of bytes can have. -/
def Fits (map : Map) : Prop :=
  ∀ key value, map key = some value → key.length < 2 ^ 63 ∧ value.length < 2 ^ 63

/-- The node of the map, which is not too large to be written. -/
def IsNode (map : Map) (raw : Object) : Prop :=
  Composes Node.calcHash map raw ∧ (writeRlp raw).length < 2 ^ 64

theorem length_embed {map : Map} {raw : Object} (isNode : IsNode map raw) :
    (writeRlp (Node.embed raw)).length ≤ 41 := by
  have size := calcRlpSize_eq raw isNode.2
  unfold Node.embed
  split
  · have hashed := length_writeRlp_bytes (Node.calcHash (writeRlp raw))
    simpa [Node.calcHash] using hashed
  · rename_i short
    have less : (calcRlpSize raw).toNat < 32 := by simpa [UInt64.le_iff_toNat_le] using short
    omega

theorem refers_embed {map : Map} {raw : Object} (isNode : IsNode map raw) :
    Refers Node.calcHash map (Node.embed raw) := by
  have size := calcRlpSize_eq raw isNode.2
  have encodes := writeRlp_encodes raw isNode.2
  unfold Node.embed
  split
  · rename_i long
    have large : 32 ≤ (calcRlpSize raw).toNat := UInt64.le_iff_toNat_le.mp long
    exact .hashed isNode.1 encodes (by omega)
  · rename_i short
    have less : (calcRlpSize raw).toNat < 32 := by simpa [UInt64.le_iff_toNat_le] using short
    exact .inline isNode.1 encodes (by omega)

variable {branches : Nibble → Node} {next node : Node} {path : Path}

theorem isNode_leaf {value : Bytes} (fits : Fits (Node.entries (.leaf path value))) :
    IsNode (Node.entries (.leaf path value)) (Node.raw (.leaf path value)) := by
  obtain ⟨pathSmall, valueSmall⟩ := fits path value (Node.entries_leaf.mpr ⟨rfl, rfl⟩)
  rw [Node.raw, pathBytes_eq]
  constructor
  · exact .leaf fun key found => Node.entries_leaf
  · have pair := length_writeRlp_pair (.bytes (hexPrefix true path)) (.bytes value)
    have pathSize := length_writeRlp_bytes (hexPrefix true path)
    have valueSize := length_writeRlp_bytes value
    have half := length_hexPrefix true path
    omega

theorem several_of_branch (canonical : Node.Canonical (.branch false branches [])) :
    Several (Node.entries (.branch false branches [])) := by
  obtain ⟨_, _, ⟨left, right, different, leftFound, rightFound⟩, below⟩ := canonical
  obtain ⟨leftKey, leftValue, isLeft⟩ := Node.exists_entry (below left) leftFound
  obtain ⟨rightKey, rightValue, isRight⟩ := Node.exists_entry (below right) rightFound
  refine ⟨left :: leftKey, right :: rightKey, ?_, ?_, ?_⟩
  · exact fun same => different (List.head_eq_of_cons_eq same)
  · simp [Node.entries, isLeft]
  · simp [Node.entries, isRight]

theorem noCommon_of_branch (canonical : Node.Canonical (.branch false branches [])) (path : Path)
    (common : Common (Node.entries (.branch false branches [])) path) : path = [] := by
  obtain ⟨_, _, ⟨left, right, different, leftFound, rightFound⟩, below⟩ := canonical
  obtain ⟨leftKey, leftValue, isLeft⟩ := Node.exists_entry (below left) leftFound
  obtain ⟨rightKey, rightValue, isRight⟩ := Node.exists_entry (below right) rightFound
  have leftPrefix := common (left :: leftKey) leftValue isLeft
  have rightPrefix := common (right :: rightKey) rightValue isRight
  cases path with
  | nil => rfl
  | cons nibble path =>
    rw [List.cons_prefix_cons] at leftPrefix rightPrefix
    exact absurd (leftPrefix.1.symm.trans rightPrefix.1) different

theorem isNull_eq_false (notNull : node ≠ .null) : node.isNull = false := by
  cases node with
  | null => exact absurd rfl notNull
  | _ => rfl

/-- What a branch has for a nibble. -/
def branchRaw (node : Node) : Object := if node.isNull then .bytes [] else Node.embed node.raw

theorem refers_branchRaw (isNode : node ≠ .null → IsNode node.entries node.raw) :
    Refers Node.calcHash node.entries (branchRaw node) := by
  by_cases isNull : node = .null
  · subst isNull
    exact .empty fun key => rfl
  · rw [branchRaw, isNull_eq_false isNull]
    exact refers_embed (isNode isNull)

theorem length_branchRaw (isNode : node ≠ .null → IsNode node.entries node.raw) :
    (writeRlp (branchRaw node)).length ≤ 41 := by
  by_cases isNull : node = .null
  · subst isNull
    decide
  · rw [branchRaw, isNull_eq_false isNull]
    exact length_embed (isNode isNull)

theorem isNode_branch (canonical : Node.Canonical (.branch false branches []))
    (nodes : ∀ nibble, branches nibble ≠ .null →
      IsNode (Node.entries (branches nibble)) (Node.raw (branches nibble))) :
    IsNode (Node.entries (.branch false branches [])) (Node.raw (.branch false branches [])) := by
  have isRaw : Node.raw (.branch false branches []) =
      .list (List.ofFn (fun nibble => branchRaw (branches nibble)) ++ [.bytes []]) := rfl
  rw [isRaw]
  constructor
  · exact .branch (several_of_branch canonical) (noCommon_of_branch canonical)
      fun nibble => refers_branchRaw (nodes nibble)
  · have bounded : ∀ item ∈ List.ofFn (fun nibble => branchRaw (branches nibble)) ++ [.bytes []],
        (writeRlp item).length ≤ 41 := by
      intro item present
      simp only [List.mem_append, List.mem_ofFn, List.mem_singleton] at present
      cases present with
      | inl isBranch =>
        obtain ⟨nibble, rfl⟩ := isBranch
        exact length_branchRaw (nodes nibble)
      | inr isValue =>
        subst isValue
        decide
    have items := length_writeItems bounded
    have header := length_writeRlp_list
      (List.ofFn (fun nibble => branchRaw (branches nibble)) ++ [.bytes []])
    simp only [List.length_append, List.length_ofFn, List.length_singleton] at items
    omega

theorem exists_branch (canonical : Node.Canonical next) (isBranch : next.isBranch = true) :
    ∃ branches, next = .branch false branches [] := by
  cases next with
  | branch nodeHasValue branches value =>
    obtain ⟨rfl, rfl, _⟩ := canonical
    exact ⟨branches, rfl⟩
  | _ => cases isBranch

theorem several_under {map : Map} (several : Several map) (path : Path) : Several (under path map) := by
  obtain ⟨left, right, different, leftFound, rightFound⟩ := several
  refine ⟨path ++ left, path ++ right, fun same => different (List.append_cancel_left same), ?_, ?_⟩
  · rwa [under_append]
  · rwa [under_append]

/-- No key starts with more than the path if those below it have nothing in common. -/
theorem longest_under {map : Map} {other : Path} (several : Several map)
    (noCommon : ∀ path, Common map path → path = []) (common : Common (under path map) other) :
    other.length ≤ path.length := by
  by_contra longer
  obtain ⟨key, _, _, found, _⟩ := several
  obtain ⟨value, isValue⟩ := Option.isSome_iff_exists.mp found
  have otherPrefix := common (path ++ key) value (by rw [under_append, isValue])
  obtain ⟨more, rfl⟩ :=
    List.prefix_of_prefix_length_le (List.prefix_append path key) otherPrefix (by omega)
  have moreCommon : Common map more := by
    intro key value isValue
    have isPrefix := common (path ++ key) value (by rw [under_append, isValue])
    exact (List.prefix_append_right_inj path).mp isPrefix
  rw [noCommon more moreCommon] at longer
  simp at longer

theorem isNode_extension (canonical : Node.Canonical (.extension path next))
    (isNode : IsNode (Node.entries next) (Node.raw next)) (pathSmall : path.length < 2 ^ 63) :
    IsNode (Node.entries (.extension path next)) (Node.raw (.extension path next)) := by
  obtain ⟨nonempty, isBranch, below⟩ := canonical
  obtain ⟨branches, rfl⟩ := exists_branch below isBranch
  have several := several_of_branch below
  rw [Node.raw, pathBytes_eq, Node.entries_extension]
  constructor
  · refine .extension (several_under several path) nonempty ?_ ?_ ?_
    · intro key value found
      obtain ⟨rest, rfl, _⟩ := under_eq_some.mp found
      exact List.prefix_append path rest
    · exact fun other => longest_under several (noCommon_of_branch below)
    · rw [after_under]
      exact refers_embed isNode
  · have pair := length_writeRlp_pair (.bytes (hexPrefix false path))
      (Node.embed (Node.raw (.branch false branches [])))
    have pathSize := length_writeRlp_bytes (hexPrefix false path)
    have nextSize := length_embed isNode
    have half := length_hexPrefix false path
    omega

/-- A canonical trie is made of the nodes of its map. -/
theorem isNode_raw (canonical : Node.Canonical node) (notNull : node ≠ .null) (fits : Fits node.entries) :
    IsNode node.entries node.raw := by
  induction node with
  | null => exact absurd rfl notNull
  | leaf path value => exact isNode_leaf fits
  | branch nodeHasValue branches value inductionHypothesis =>
    obtain ⟨rfl, rfl, _, below⟩ := id canonical
    refine isNode_branch canonical fun nibble found => inductionHypothesis nibble (below nibble) found ?_
    intro key value isEntry
    have sizes := fits (nibble :: key) value isEntry
    rw [List.length_cons] at sizes
    exact ⟨by omega, sizes.2⟩
  | extension path next inductionHypothesis =>
    obtain ⟨_, isBranch, below⟩ := id canonical
    have notNull' := Node.not_null_of_isBranch isBranch
    have sizes : ∀ key value, next.entries key = some value →
        path.length + key.length < 2 ^ 63 ∧ value.length < 2 ^ 63 := by
      intro key value isEntry
      have found : Node.entries (.extension path next) (path ++ key) = some value := by
        rw [Node.entries_extension, under_append, isEntry]
      simpa only [List.length_append] using fits (path ++ key) value found
    obtain ⟨key, value, isEntry⟩ := Node.exists_entry below notNull'
    have pathSmall := (sizes key value isEntry).1
    refine isNode_extension canonical (inductionHypothesis below notNull' ?_) (by omega)
    intro key value isEntry
    have small := sizes key value isEntry
    exact ⟨by omega, small.2⟩

/-- What the trie hashes to is the root of its map. -/
theorem isRoot_hash (canonical : Node.Canonical node) (fits : Fits node.entries) :
    IsRoot Node.calcHash node.entries (PatriciaTrie.hash node) := by
  by_cases isNull : node = .null
  · subst isNull
    have isHash : PatriciaTrie.hash .null = Node.calcHash [0x80] := by decide +kernel
    have encodes : Encodes true (writeRlp (.bytes [])) (.bytes []) := writeRlp_encodes _ (by decide)
    rw [isHash]
    exact .empty (fun key => rfl) encodes
  · obtain ⟨composes, small⟩ := isNode_raw canonical isNull fits
    rw [PatriciaTrie.hash, isNull_eq_false isNull]
    exact .node composes (writeRlp_encodes _ small)

end Decentagram.Eth.Trie
