import Decentagram.EclipseMonitor.PatriciaTrie

/-! # Canonical tries

A canonical trie holds a map in the one way there is, and `Put` keeps it canonical: the trie does not show
in which order its keys were put.
-/

namespace Decentagram.Eth.Trie

open Decentagram.Lib Decentagram.Lib.Rlp Decentagram.Lib.MerklePatricia Decentagram.SimpleRlp

theorem fromBytes_eq_nibbles (key : Bytes) : NibbleHelper.fromBytes key = nibbles key := by
  induction key with
  | nil => rfl
  | cons byte bytes inductionHypothesis =>
    have high : (byte >>> 4 &&& 0x0F).toNat = byte.toNat / 16 := by
      have small := byte.toNat_lt
      simp [Nat.and_two_pow_sub_one_eq_mod _ 4, Nat.shiftRight_eq_div_pow]
      omega
    have low : (byte &&& 0x0F).toNat = byte.toNat % 16 := by
      simp [Nat.and_two_pow_sub_one_eq_mod _ 4]
    rw [NibbleHelper.fromBytes, nibbles, inductionHypothesis, high, low]

namespace Node

/-! ## The map of a trie -/

def entries : Node → Map
  | null, _ => none
  | leaf path value, key => if key = path then some value else none
  | branch nodeHasValue _ value, [] => if nodeHasValue then some value else none
  | branch _ branches _, nibble :: key => entries (branches nibble) key
  | extension path next, key => if path <+: key then entries next (key.drop path.length) else none

def isBranch : Node → Bool
  | null => false
  | leaf _ _ => false
  | branch _ _ _ => true
  | extension _ _ => false

/-- A branch has no value and at least two nodes below it, and is all that an extension leads to. -/
def Canonical : Node → Prop
  | null => True
  | leaf _ _ => True
  | branch nodeHasValue branches value =>
    nodeHasValue = false ∧ value = [] ∧
      (∃ left right, left ≠ right ∧ branches left ≠ null ∧ branches right ≠ null) ∧
      ∀ nibble, Canonical (branches nibble)
  | extension path next => path ≠ [] ∧ next.isBranch = true ∧ Canonical next

variable {node next left right : Node} {path key : Path} {value : Bytes}

theorem entries_extension (path : Path) (next : Node) :
    entries (extension path next) = under path (entries next) := rfl

theorem entries_leaf {found : Bytes} :
    entries (leaf path value) key = some found ↔ key = path ∧ found = value := by
  by_cases same : key = path <;> simp [entries, same, eq_comm]

theorem entries_leaf_append (outer inner : Path) (value : Bytes) :
    entries (leaf (outer ++ inner) value) = under outer (entries (leaf inner value)) := by
  apply map_ext
  intro key found
  simp only [entries_leaf, under_eq_some]
  constructor
  · intro isEntry
    exact ⟨inner, isEntry.1, rfl, isEntry.2⟩
  · intro moved
    obtain ⟨_, rfl, rfl, isValue⟩ := moved
    exact ⟨rfl, isValue⟩

/-- A canonical trie without a key is a null pointer. -/
theorem exists_entry (canonical : Canonical node) (notNull : node ≠ null) :
    ∃ key value, entries node key = some value := by
  induction node with
  | null => exact absurd rfl notNull
  | leaf path value => exact ⟨path, value, if_pos rfl⟩
  | branch nodeHasValue branches value inductionHypothesis =>
    obtain ⟨_, _, ⟨nibble, _, _, found, _⟩, below⟩ := canonical
    obtain ⟨key, value, isEntry⟩ := inductionHypothesis nibble (below nibble) found
    exact ⟨nibble :: key, value, isEntry⟩
  | extension path next inductionHypothesis =>
    obtain ⟨_, isBranch, below⟩ := canonical
    have notNull' : next ≠ null := by
      intro isNull
      subst isNull
      cases isBranch
    obtain ⟨key, value, isEntry⟩ := inductionHypothesis below notNull'
    exact ⟨path ++ key, value, by rw [entries_extension, under_append, isEntry]⟩

/-! ## Splitting a path -/

/-- A branch with two nodes below it. -/
def fork (leftNibble : Nibble) (left : Node) (rightNibble : Nibble) (right : Node) : Node :=
  (newBranch.setBranch leftNibble left).setBranch rightNibble right

def extend (path : Path) (next : Node) : Node := if path = [] then next else extension path next

theorem entries_extend (path : Path) (next : Node) :
    entries (extend path next) = under path (entries next) := by
  by_cases isEmpty : path = []
  · simp [extend, isEmpty, under_nil]
  · rw [extend, if_neg isEmpty, entries_extension]

theorem extend_ne_null (notNull : next ≠ null) (path : Path) : extend path next ≠ null := by
  by_cases isEmpty : path = [] <;> simp [extend, isEmpty, notNull]

theorem canonical_extend (isBranch : next.isBranch = true) (canonical : Canonical next) (path : Path) :
    Canonical (extend path next) := by
  by_cases isEmpty : path = []
  · rwa [extend, if_pos isEmpty]
  · rw [extend, if_neg isEmpty]
    exact ⟨isEmpty, isBranch, canonical⟩

theorem canonical_fork {leftNibble rightNibble : Nibble} (different : leftNibble ≠ rightNibble)
    (leftCanonical : Canonical left) (leftNotNull : left ≠ null) (rightCanonical : Canonical right)
    (rightNotNull : right ≠ null) : Canonical (fork leftNibble left rightNibble right) := by
  refine ⟨rfl, rfl, ⟨leftNibble, rightNibble, different, ?_, ?_⟩, ?_⟩
  · simpa [different] using leftNotNull
  · simpa using rightNotNull
  · intro nibble
    by_cases isRight : nibble = rightNibble
    · simpa [isRight] using rightCanonical
    · by_cases isLeft : nibble = leftNibble
      · simpa [isLeft, different] using leftCanonical
      · simp [isRight, isLeft, Canonical]

/-- The second node of a fork is what is new. -/
theorem entries_fork {leftNibble rightNibble : Nibble} (different : leftNibble ≠ rightNibble) (left : Node)
    (path : Path) (value : Bytes) :
    entries (fork leftNibble left rightNibble (leaf path value)) =
      insert (under [leftNibble] (entries left)) (rightNibble :: path) value := by
  apply map_ext
  intro key found
  cases key with
  | nil => simp [entries, insert_eq_some, under_eq_some, fork, newBranch, setBranch]
  | cons nibble key =>
    simp only [insert_eq_some, under_eq_some, fork, newBranch, setBranch, entries]
    by_cases isRight : nibble = rightNibble
    · simp only [isRight, Function.update_self, entries_leaf]
      simp [different.symm]
    · by_cases isLeft : nibble = leftNibble
      · simp [isLeft, different]
      · simp [isRight, isLeft, entries]

/-! ## Where a path leaves another one -/

/-- How many nibbles match, as a number of any size. -/
def matchedLen : Path → Path → Nat
  | nibble1 :: nibbles1, nibble2 :: nibbles2 =>
    if nibble1 = nibble2 then matchedLen nibbles1 nibbles2 + 1 else 0
  | _, _ => 0

theorem prefixMatchedLen_eq (nibbles1 nibbles2 : Path) :
    NibbleHelper.prefixMatchedLen nibbles1 nibbles2 = UInt8.ofNat (matchedLen nibbles1 nibbles2) := by
  induction nibbles1 generalizing nibbles2 with
  | nil => rfl
  | cons nibble1 nibbles1 inductionHypothesis =>
    cases nibbles2 with
    | nil => rfl
    | cons nibble2 nibbles2 =>
      simp only [NibbleHelper.prefixMatchedLen, matchedLen]
      by_cases same : nibble1 = nibble2
      · simp [same, inductionHypothesis]
      · simp [same]

/-- What is left of two paths after what they share. -/
theorem exists_shared (nibbles path : Path) :
    ∃ shared rest remaining, nibbles = shared ++ rest ∧ path = shared ++ remaining ∧
      matchedLen nibbles path = shared.length ∧
      (rest = [] ∨ remaining = [] ∨ ∃ nibble leafPath branchNibble branchPath,
        rest = nibble :: leafPath ∧ remaining = branchNibble :: branchPath ∧ branchNibble ≠ nibble) := by
  induction nibbles generalizing path with
  | nil => exact ⟨[], [], path, rfl, rfl, rfl, .inl rfl⟩
  | cons nibble nibbles inductionHypothesis =>
    cases path with
    | nil => exact ⟨[], nibble :: nibbles, [], rfl, rfl, rfl, .inr (.inl rfl)⟩
    | cons pathNibble path =>
      by_cases same : nibble = pathNibble
      · subst same
        obtain ⟨shared, rest, remaining, isRest, isRemaining, isLength, apart⟩ :=
          inductionHypothesis path
        exact ⟨nibble :: shared, rest, remaining, by simp [isRest], by simp [isRemaining],
          by simp [matchedLen, isLength], apart⟩
      · exact ⟨[], nibble :: nibbles, pathNibble :: path, rfl, rfl, by simp [matchedLen, same],
          .inr (.inr ⟨nibble, nibbles, pathNibble, path, rfl, rfl, fun same' => same same'.symm⟩)⟩

/-! ## Put -/

/-- The counter of matched nibbles holds, at each path that is compared with what is left of the key. -/
def Counts : Node → Path → Prop
  | null, _ => True
  | leaf path _, nibbles => matchedLen nibbles path < 256
  | branch _ _ _, [] => True
  | branch _ branches _, nibble :: nibbles => Counts (branches nibble) nibbles
  | extension path next, nibbles =>
    matchedLen nibbles path < 256 ∧ (path <+: nibbles → Counts next (nibbles.drop path.length))

/-- The trie holds the new map, and holds it canonically. -/
def PutTo (node : Node) (key : Path) (value : Bytes) (node' : Node) : Prop :=
  Canonical node' ∧ node' ≠ null ∧ entries node' = insert (entries node) key value

theorem matched_eq {nibbles path : Path} (counts : matchedLen nibbles path < 256) :
    (NibbleHelper.prefixMatchedLen nibbles path).toNat = matchedLen nibbles path := by
  rw [prefixMatchedLen_eq]
  exact UInt8.toNat_ofNat_of_lt' counts

theorem entries_extend_fork {branchNibble nibble : Nibble} (different : branchNibble ≠ nibble)
    (shared newPath : Path) (left : Node) (value : Bytes) :
    entries (extend shared (fork branchNibble left nibble (leaf newPath value))) =
      insert (under (shared ++ [branchNibble]) (entries left)) (shared ++ nibble :: newPath) value := by
  rw [entries_extend, entries_fork different, ← under_under, insert_under]

/-- A key that leaves a path is put into a new branch there. -/
theorem putTo_fork {shared newPath : Path} {branchNibble nibble : Nibble} (different : branchNibble ≠ nibble)
    (canonical : Canonical left) (notNull : left ≠ null)
    (isEntries : entries node = under (shared ++ [branchNibble]) (entries left)) :
    PutTo node (shared ++ nibble :: newPath) value
      (extend shared (fork branchNibble left nibble (leaf newPath value))) := by
  have newCanonical : Canonical (leaf newPath value) := trivial
  have forkCanonical := canonical_fork different canonical notNull newCanonical (by simp)
  refine ⟨canonical_extend rfl forkCanonical shared, ?_, ?_⟩
  · exact extend_ne_null (by simp [fork, newBranch, setBranch]) shared
  · rw [entries_extend_fork different, isEntries]

/-- Paths that do not start with one another split after what they share. -/
theorem exists_split {nibbles path : Path} (comparable : ¬ (nibbles <+: path ∨ path <+: nibbles)) :
    ∃ shared nibble leafPath branchNibble branchPath, nibbles = shared ++ nibble :: leafPath ∧
      path = shared ++ branchNibble :: branchPath ∧ matchedLen nibbles path = shared.length ∧
      branchNibble ≠ nibble := by
  obtain ⟨shared, rest, remaining, rfl, rfl, isLength, split⟩ := exists_shared nibbles path
  rcases split with rfl | rfl | ⟨nibble, leafPath, branchNibble, branchPath, rfl, rfl, different⟩
  · exact absurd (.inl (by simp)) comparable
  · exact absurd (.inr (by simp)) comparable
  · exact ⟨shared, nibble, leafPath, branchNibble, branchPath, rfl, rfl, isLength, different⟩

/-- A path that another one starts with matches in full. -/
theorem matchedLen_append (path rest : Path) : matchedLen (path ++ rest) path = path.length := by
  induction path with
  | nil => cases rest <;> rfl
  | cons nibble path inductionHypothesis => simp [matchedLen, inductionHypothesis]

theorem putKeyLeafNode_split {shared leafPath branchPath : Path} {nibble branchNibble : Nibble}
    {leafValue value : Bytes}
    (matched : (NibbleHelper.prefixMatchedLen (shared ++ nibble :: leafPath)
      (shared ++ branchNibble :: branchPath)).toNat = shared.length) :
    PatriciaTrie.putKeyLeafNode (shared ++ branchNibble :: branchPath) leafValue
        (shared ++ nibble :: leafPath) value =
      extend shared (fork branchNibble (leaf branchPath leafValue) nibble (leaf leafPath value)) := by
  simp only [PatriciaTrie.putKeyLeafNode, matched, List.length_append, List.length_cons]
  have notLeft : shared.length ≠ shared.length + (leafPath.length + 1) := by omega
  have notRight : shared.length ≠ shared.length + (branchPath.length + 1) := by omega
  rw [if_neg (fun both => notLeft both.1), if_neg notRight, if_neg notLeft]
  simp only [List.drop_left, List.take_left, extend, fork]
  by_cases isEmpty : shared = []
  · simp [isEmpty]
  · rw [if_neg isEmpty, if_pos (List.length_pos_iff.mpr isEmpty)]

theorem putKeyLeafNode_spec {leafPath nibbles : Path} {leafValue value : Bytes}
    (apart : Apart (entries (leaf leafPath leafValue)) nibbles) (counts : matchedLen nibbles leafPath < 256) :
    PutTo (leaf leafPath leafValue) nibbles value
      (PatriciaTrie.putKeyLeafNode leafPath leafValue nibbles value) := by
  have matched := matched_eq counts
  by_cases same : leafPath = nibbles
  · -- the value is replaced
    subst same
    have whole : matchedLen leafPath leafPath = leafPath.length := by
      simpa using matchedLen_append leafPath []
    have replaces : PatriciaTrie.putKeyLeafNode leafPath leafValue leafPath value =
        leaf leafPath value := by
      simp [PatriciaTrie.putKeyLeafNode, matched, whole]
    rw [replaces]
    refine ⟨trivial, by simp, map_ext fun key found => ?_⟩
    rw [insert_eq_some, entries_leaf, entries_leaf]
    by_cases isKey : key = leafPath <;> simp [isKey]
  · have comparable : ¬ (nibbles <+: leafPath ∨ leafPath <+: nibbles) := by
      intro comparable
      exact same (apart leafPath leafValue (entries_leaf.mpr ⟨rfl, rfl⟩) comparable)
    obtain ⟨shared, nibble, newPath, branchNibble, branchPath, rfl, rfl, isLength, different⟩ :=
      exists_split comparable
    rw [putKeyLeafNode_split (matched.trans isLength)]
    have oldCanonical : Canonical (leaf branchPath leafValue) := trivial
    apply putTo_fork different oldCanonical (by simp)
    rw [← entries_leaf_append, List.append_assoc, List.singleton_append]

theorem putKeyExtensionNode_split {putKeyNext : Path → Option Node} {shared leafPath branchPath : Path}
    {nibble branchNibble : Nibble}
    (matched : (NibbleHelper.prefixMatchedLen (shared ++ nibble :: leafPath)
      (shared ++ branchNibble :: branchPath)).toNat = shared.length) :
    PatriciaTrie.putKeyExtensionNode putKeyNext (shared ++ branchNibble :: branchPath) next
        (shared ++ nibble :: leafPath) value =
      some (extend shared (fork branchNibble (extend branchPath next) nibble (leaf leafPath value))) := by
  have less : shared.length < shared.length + (branchPath.length + 1) := by omega
  simp only [PatriciaTrie.putKeyExtensionNode, matched, List.length_append, List.length_cons, if_pos less,
    List.drop_left, List.take_left, extend, fork, List.length_eq_zero_iff]

theorem putKeyExtensionNode_below {putKeyNext : Path → Option Node} {rest : Path}
    (matched : (NibbleHelper.prefixMatchedLen (path ++ rest) path).toNat = path.length) :
    PatriciaTrie.putKeyExtensionNode putKeyNext path next (path ++ rest) value =
      (putKeyNext rest).map (extension path) := by
  simp only [PatriciaTrie.putKeyExtensionNode, matched, Nat.lt_irrefl, if_false, List.drop_left]

theorem not_null_of_isBranch (isBranch : next.isBranch = true) : next ≠ null := by
  intro isNull
  subst isNull
  cases isBranch

theorem entries_nil_of_isBranch (canonical : Canonical next) (isBranch : next.isBranch = true) :
    entries next [] = none := by
  cases next with
  | branch nodeHasValue branches value =>
    obtain ⟨rfl, _⟩ := canonical
    rfl
  | _ => cases isBranch

/-- A key that is apart from those below an extension goes on after its path, or leaves it. -/
theorem not_prefix_of_extension (canonical : Canonical (extension path next))
    (apart : Apart (entries (extension path next)) key) : ¬ key <+: path := by
  intro isPrefix
  obtain ⟨_, isBranch, below⟩ := canonical
  obtain ⟨rest, found, isEntry⟩ := exists_entry below (not_null_of_isBranch isBranch)
  have isEntry' : entries (extension path next) (path ++ rest) = some found := by
    rw [entries_extension, under_append, isEntry]
  have same := apart _ _ isEntry' (.inl (isPrefix.trans (List.prefix_append path rest)))
  -- the entry would be the branch's own
  have isEmpty : rest = [] := by
    have lengths := congrArg List.length same
    have shorter := isPrefix.length_le
    rw [List.length_append] at lengths
    exact List.length_eq_zero_iff.mp (by omega)
  rw [isEmpty, entries_nil_of_isBranch below isBranch] at isEntry
  cases isEntry

theorem apart_of_branch {branches : Nibble → Node} {nibble : Nibble}
    (apart : Apart (entries (branch false branches [])) (nibble :: key)) :
    Apart (entries (branches nibble)) key := by
  intro other found isEntry comparable
  have isEntry' : entries (branch false branches []) (nibble :: other) = some found := isEntry
  have comparable' : nibble :: key <+: nibble :: other ∨ nibble :: other <+: nibble :: key := by
    simpa [List.cons_prefix_cons] using comparable
  exact List.tail_eq_of_cons_eq (apart _ _ isEntry' comparable')

theorem putTo_branch {branches : Nibble → Node} {nibble : Nibble} {child : Node}
    (canonical : Canonical (branch false branches [])) (putTo : PutTo (branches nibble) key value child) :
    PutTo (branch false branches []) (nibble :: key) value
      (branch false (Function.update branches nibble child) []) := by
  obtain ⟨childCanonical, notNull, isEntries⟩ := putTo
  obtain ⟨_, _, ⟨left, right, different, leftFound, rightFound⟩, below⟩ := canonical
  have stays : ∀ other, branches other ≠ null → Function.update branches nibble child other ≠ null := by
    intro other found
    by_cases same : other = nibble <;> simp [same, notNull, found]
  refine ⟨⟨rfl, rfl, ⟨left, right, different, stays _ leftFound, stays _ rightFound⟩, ?_⟩, by simp, ?_⟩
  · intro other
    by_cases same : other = nibble <;> simp [same, childCanonical, below]
  · funext other
    cases other with
    | nil => rfl
    | cons otherNibble other =>
      by_cases same : otherNibble = nibble
      · simp [same, entries, isEntries, MerklePatricia.insert]
      · simp [same, entries, MerklePatricia.insert]

theorem isBranch_putKey {node' : Node} (isBranch : node.isBranch = true)
    (puts : PatriciaTrie.putKey value node key = some node') : node'.isBranch = true := by
  cases node with
  | branch nodeHasValue branches branchValue =>
    cases key with
    | nil =>
      cases puts
      rfl
    | cons nibble key =>
      simp only [PatriciaTrie.putKey, Option.bind_eq_bind, Option.bind_eq_some_iff] at puts
      obtain ⟨child, _, isNode⟩ := puts
      cases isNode
      rfl
  | _ => cases isBranch

/-- `Put` on a canonical trie. -/
theorem putKey_spec (value : Bytes) {node : Node} {key : Path} (canonical : Canonical node)
    (apart : Apart (entries node) key) (counts : Counts node key) :
    ∃ node', PatriciaTrie.putKey value node key = some node' ∧ PutTo node key value node' := by
  induction node generalizing key with
  | null =>
    refine ⟨leaf key value, rfl, trivial, by simp, map_ext fun other found => ?_⟩
    rw [insert_eq_some, entries_leaf]
    simp [entries]
  | leaf path leafValue => exact ⟨_, rfl, putKeyLeafNode_spec apart counts⟩
  | branch nodeHasValue branches branchValue inductionHypothesis =>
    have branchCanonical := canonical
    obtain ⟨rfl, rfl, ⟨left, _, _, leftFound, _⟩, below⟩ := canonical
    cases key with
    | nil =>
      -- the empty key would be apart from none
      obtain ⟨rest, found, isEntry⟩ := exists_entry (below left) leftFound
      have isEntry' : entries (branch false branches []) (left :: rest) = some found := isEntry
      cases apart _ _ isEntry' (.inl List.nil_prefix)
    | cons nibble key =>
      obtain ⟨child, puts, putTo⟩ :=
        inductionHypothesis nibble (below nibble) (apart_of_branch apart) counts
      exact ⟨_, by simp [PatriciaTrie.putKey, puts], putTo_branch branchCanonical putTo⟩
  | extension path next inductionHypothesis =>
    have notPrefix := not_prefix_of_extension canonical apart
    obtain ⟨nonempty, isBranch, below⟩ := canonical
    have matched := matched_eq counts.1
    by_cases isBelow : path <+: key
    · obtain ⟨rest, rfl⟩ := isBelow
      have counts' : Counts next rest := by simpa using counts.2 (List.prefix_append path rest)
      obtain ⟨child, puts, childCanonical, notNull, isEntries⟩ :=
        inductionHypothesis below (Apart.of_under apart) counts'
      rw [matchedLen_append] at matched
      refine ⟨extension path child, ?_, ⟨nonempty, isBranch_putKey isBranch puts, childCanonical⟩,
        by simp, ?_⟩
      · rw [PatriciaTrie.putKey, putKeyExtensionNode_below matched, puts]
        rfl
      · rw [entries_extension, entries_extension, isEntries, insert_under]
    · obtain ⟨shared, nibble, newPath, branchNibble, branchPath, rfl, rfl, isLength, different⟩ :=
        exists_split (not_or.mpr ⟨notPrefix, isBelow⟩)
      refine ⟨_, putKeyExtensionNode_split (matched.trans isLength), ?_⟩
      apply putTo_fork different (canonical_extend isBranch below branchPath)
      · exact extend_ne_null (not_null_of_isBranch isBranch) branchPath
      · rw [entries_extension, entries_extend, under_under, List.append_assoc, List.singleton_append]

/-! ## A counter that is too small -/

/-- A counter that wraps stops inside what the paths share. -/
theorem exists_same_nibble {nibbles path : Path} (wraps : ¬ matchedLen nibbles path < 256) :
    ∃ shared nibble leafPath branchPath, nibbles = shared ++ nibble :: leafPath ∧
      path = shared ++ nibble :: branchPath ∧
      (NibbleHelper.prefixMatchedLen nibbles path).toNat = shared.length := by
  obtain ⟨shared, rest, remaining, isRest, isRemaining, isLength, _⟩ := exists_shared nibbles path
  have counted : (NibbleHelper.prefixMatchedLen nibbles path).toNat = shared.length % 256 := by
    rw [prefixMatchedLen_eq, isLength]
    exact UInt8.toNat_ofNat'
  have inside : shared.length % 256 < shared.length := by omega
  have nonempty : 0 < (shared.drop (shared.length % 256)).length := by
    rw [List.length_drop]
    omega
  obtain ⟨nibble, after, isAfter⟩ := List.exists_cons_of_ne_nil (List.ne_nil_of_length_pos nonempty)
  have isShared := List.take_append_drop (shared.length % 256) shared
  rw [isAfter] at isShared
  refine ⟨shared.take (shared.length % 256), nibble, after ++ rest, after ++ remaining, ?_, ?_, ?_⟩
  · rw [isRest, ← List.cons_append, ← List.append_assoc, isShared]
  · rw [isRemaining, ← List.cons_append, ← List.append_assoc, isShared]
  · rw [counted, List.length_take, Nat.min_eq_left inside.le]

/-- The second of two nodes for one nibble replaces the first. -/
theorem not_canonical_fork (shared : Path) (nibble : Nibble) (left right : Node) :
    ¬ Canonical (extend shared (fork nibble left nibble right)) := by
  have notFork : ¬ Canonical (fork nibble left nibble right) := by
    intro canonical
    obtain ⟨_, _, ⟨first, second, different, firstFound, secondFound⟩, _⟩ := canonical
    have only : ∀ other,
        Function.update (Function.update (fun _ => null) nibble left) nibble right other ≠ null →
          other = nibble := by
      intro other found
      by_contra isOther
      exact found (by simp [isOther])
    exact different ((only _ firstFound).trans (only _ secondFound).symm)
  intro canonical
  by_cases isEmpty : shared = []
  · exact notFork (by rwa [extend, if_pos isEmpty] at canonical)
  · rw [extend, if_neg isEmpty] at canonical
    exact notFork canonical.2.2

theorem ne_null_of_insert {map : Map} (isEntries : entries node = MerklePatricia.insert map key value) :
    node ≠ null := by
  intro isNull
  subst isNull
  have found : entries null key = some value := by
    rw [isEntries]
    exact if_pos rfl
  cases found

/-- A `Put` that leaves a canonical trie of the new map has counted right. -/
theorem counts_of_putTo {node node' : Node} {key : Path}
    (puts : PatriciaTrie.putKey value node key = some node') (putTo : PutTo node key value node') :
    Counts node key := by
  induction node generalizing key node' with
  | null => trivial
  | leaf path leafValue =>
    by_contra wraps
    obtain ⟨shared, nibble, newPath, branchPath, rfl, rfl, matched⟩ := exists_same_nibble wraps
    cases puts
    rw [putKeyLeafNode_split matched] at putTo
    exact not_canonical_fork _ _ _ _ putTo.1
  | branch nodeHasValue branches branchValue inductionHypothesis =>
    cases key with
    | nil => trivial
    | cons nibble key =>
      simp only [PatriciaTrie.putKey, Option.bind_eq_bind, Option.bind_eq_some_iff] at puts
      obtain ⟨child, putsChild, isNode⟩ := puts
      cases isNode
      obtain ⟨⟨_, _, _, below⟩, _, isEntries⟩ := putTo
      have childEntries : entries child = MerklePatricia.insert (entries (branches nibble)) key value := by
        funext other
        have same := congrFun isEntries (nibble :: other)
        simpa [entries, MerklePatricia.insert] using same
      have childCanonical : Canonical child := by simpa using below nibble
      exact inductionHypothesis nibble putsChild
        ⟨childCanonical, ne_null_of_insert childEntries, childEntries⟩
  | extension path next inductionHypothesis =>
    have fits : matchedLen key path < 256 := by
      by_contra wraps
      obtain ⟨shared, nibble, newPath, branchPath, rfl, rfl, matched⟩ := exists_same_nibble wraps
      rw [PatriciaTrie.putKey, putKeyExtensionNode_split matched] at puts
      cases puts
      exact not_canonical_fork _ _ _ _ putTo.1
    refine ⟨fits, fun isBelow => ?_⟩
    obtain ⟨rest, rfl⟩ := isBelow
    have matched := matched_eq fits
    rw [matchedLen_append] at matched
    rw [PatriciaTrie.putKey, putKeyExtensionNode_below matched, Option.map_eq_some_iff] at puts
    obtain ⟨child, putsChild, rfl⟩ := puts
    obtain ⟨⟨_, _, childCanonical⟩, _, isEntries⟩ := putTo
    rw [entries_extension, entries_extension, insert_under] at isEntries
    have childEntries := congrArg (after · path) isEntries
    simp only [after_under] at childEntries
    rw [List.drop_left]
    exact inductionHypothesis putsChild ⟨childCanonical, ne_null_of_insert childEntries, childEntries⟩

end Node

end Decentagram.Eth.Trie
