import Decentagram.EclipseMonitor.TrieCanonicity

/-! # Puts of arbitrary keys

When a `Put` of any key into any trie that was built by `Put`s has a result, and when the result holds the
new map.  The tries need not be canonical, and keys may be prefixes of one another.
-/

namespace Decentagram.Eth.Trie

open Decentagram.Lib Decentagram.Lib.MerklePatricia

namespace Node

variable {node next other : Node} {path nibbles key : Path} {value leafValue : Bytes}

/-! ## Maps of branches -/

@[simp] theorem entries_null : entries null = fun _ => none := rfl

@[simp] theorem entries_newBranch : entries newBranch = fun _ => none := by
  funext key
  cases key <;> rfl

theorem entries_setValue (isBranch : node.isBranch = true) (value : Bytes) :
    entries (node.setValue value) = MerklePatricia.insert (entries node) [] value := by
  cases node with
  | branch nodeHasValue branches branchValue =>
    funext key
    cases key <;> simp [setValue, entries, MerklePatricia.insert]
  | _ => cases isBranch

/-- A leaf in a place of a branch where nothing was. -/
theorem entries_setBranch_leaf (isBranch : node.isBranch = true) (nibble : Nibble) (leafPath : Path)
    (value : Bytes) (free : ∀ rest, entries node (nibble :: rest) = none) :
    entries (node.setBranch nibble (leaf leafPath value)) =
      MerklePatricia.insert (entries node) (nibble :: leafPath) value := by
  cases node with
  | branch nodeHasValue branches branchValue =>
    funext key
    cases key with
    | nil => simp [setBranch, entries, MerklePatricia.insert]
    | cons first rest =>
      by_cases same : first = nibble
      · have vacant : entries (branches nibble) rest = none := free rest
        simp [setBranch, entries, MerklePatricia.insert, same, vacant]
      · simp [setBranch, entries, MerklePatricia.insert, same]
  | _ => cases isBranch

/-- The second of two nodes for one nibble is the only one. -/
theorem entries_fork_same (nibble : Nibble) (left right : Node) :
    entries (fork nibble left nibble right) = under [nibble] (entries right) := by
  apply map_ext
  intro key found
  cases key with
  | nil => simp [fork, newBranch, setBranch, entries, under_eq_some]
  | cons first rest =>
    by_cases same : first = nibble
    · simp [fork, newBranch, setBranch, entries, under_eq_some, same]
    · simp [fork, newBranch, setBranch, entries, under_eq_some, same]

theorem entries_leaf_eq (path : Path) (value : Bytes) :
    entries (leaf path value) = MerklePatricia.insert (fun _ => none) path value := by
  funext key
  simp [entries, MerklePatricia.insert]

/-! ## What a put makes of a leaf -/

/-- The ways in which a key meets a leaf: it is the leaf's, it ends on the way to the leaf, it goes on
    behind the leaf, it leaves the path, or it shares more of it than the counter can hold. -/
inductive LeafPut (path : Path) (leafValue : Bytes) (nibbles : Path) (value : Bytes) : Node → Prop where
  | replaces (same : nibbles = path) : LeafPut path leafValue nibbles value (leaf path value)
  | ends {branchNibble : Nibble} {branchPath : Path} (isPath : path = nibbles ++ branchNibble :: branchPath)
      (short : nibbles.length < 256) (counts : matchedLen nibbles path < 256) :
      LeafPut path leafValue nibbles value
        (extend nibbles ((newBranch.setValue value).setBranch branchNibble (leaf branchPath leafValue)))
  | continues {nibble : Nibble} {leafPath : Path} (isKey : nibbles = path ++ nibble :: leafPath)
      (short : path.length < 256) (counts : matchedLen nibbles path < 256) :
      LeafPut path leafValue nibbles value
        (extend path ((newBranch.setValue leafValue).setBranch nibble (leaf leafPath value)))
  | leaves {shared leafPath branchPath : Path} {nibble branchNibble : Nibble}
      (isKey : nibbles = shared ++ nibble :: leafPath) (isPath : path = shared ++ branchNibble :: branchPath)
      (short : shared.length < 256) (counts : matchedLen nibbles path < 256)
      (different : branchNibble ≠ nibble) : LeafPut path leafValue nibbles value
        (extend shared (fork branchNibble (leaf branchPath leafValue) nibble (leaf leafPath value)))
  | wraps {shared leafPath branchPath : Path} {nibble : Nibble}
      (isKey : nibbles = shared ++ nibble :: leafPath) (isPath : path = shared ++ nibble :: branchPath)
      (short : shared.length < 256) (tooLong : ¬ matchedLen nibbles path < 256) :
      LeafPut path leafValue nibbles value
        (extend shared (fork nibble (leaf branchPath leafValue) nibble (leaf leafPath value)))

theorem putKeyLeafNode_same (matched : (NibbleHelper.prefixMatchedLen path path).toNat = path.length) :
    PatriciaTrie.putKeyLeafNode path leafValue path value = leaf path value := by
  simp [PatriciaTrie.putKeyLeafNode, matched]

theorem leafPut (path : Path) (leafValue : Bytes) (nibbles : Path) (value : Bytes) :
    LeafPut path leafValue nibbles value
      (PatriciaTrie.putKeyLeafNode path leafValue nibbles value) := by
  by_cases counts : matchedLen nibbles path < 256
  · have matched := matched_eq counts
    obtain ⟨shared, rest, remaining, rfl, rfl, isLength, apart⟩ := exists_shared nibbles path
    have short := isLength ▸ counts
    rw [isLength] at matched
    have extends' : ∀ branch, (if shared.length > 0 then extension shared branch else branch) =
        extend shared branch := by
      intro branch
      -- an extension of no nibbles is the branch itself
      by_cases isEmpty : shared = []
      · simp [extend, isEmpty]
      · rw [if_pos (List.length_pos_iff.mpr isEmpty), extend, if_neg isEmpty]
    rcases apart with rfl | rfl | ⟨nibble, leafPath, branchNibble, branchPath, rfl, rfl, different⟩
    · rw [List.append_nil] at matched counts ⊢
      cases remaining with
      | nil =>
        rw [List.append_nil] at matched ⊢
        rw [putKeyLeafNode_same matched]
        exact .replaces rfl
      | cons branchNibble branchPath =>
        have result : PatriciaTrie.putKeyLeafNode (shared ++ branchNibble :: branchPath) leafValue shared
            value = extend shared
              ((newBranch.setValue value).setBranch branchNibble (leaf branchPath leafValue)) := by
          simp [PatriciaTrie.putKeyLeafNode, matched, ← extends']
        rw [result]
        exact .ends rfl short counts
    · rw [List.append_nil] at matched counts ⊢
      cases rest with
      | nil =>
        rw [List.append_nil] at matched ⊢
        rw [putKeyLeafNode_same matched]
        exact .replaces rfl
      | cons nibble leafPath =>
        have result : PatriciaTrie.putKeyLeafNode shared leafValue (shared ++ nibble :: leafPath)
            value = extend shared
              ((newBranch.setValue leafValue).setBranch nibble (leaf leafPath value)) := by
          simp [PatriciaTrie.putKeyLeafNode, matched, ← extends']
        rw [result]
        exact .continues rfl short counts
    · rw [putKeyLeafNode_split matched]
      exact .leaves rfl rfl short counts different
  · -- the count of shared nibbles wraps: what is cut off is taken for the rest
    obtain ⟨shared, nibble, leafPath, branchPath, isKey, isPath, matched⟩ := exists_same_nibble counts
    have short : shared.length < 256 := matched ▸ UInt8.toNat_lt _
    subst isKey isPath
    rw [putKeyLeafNode_split matched]
    exact .wraps rfl rfl short counts

/-- A branch with two entries at the end of a shared path. -/
theorem entries_extend_two {branch : Node} (isEntries : entries branch = MerklePatricia.insert
    (MerklePatricia.insert (fun _ => none) path leafValue) nibbles value) (shared : Path) :
    entries (extend shared branch) =
      MerklePatricia.insert (entries (leaf (shared ++ path) leafValue)) (shared ++ nibbles) value := by
  rw [entries_extend, isEntries, ← insert_under, ← insert_under, under_vacant, entries_leaf_eq]

/-- The branch of a key that ends where the other one goes on. -/
theorem entries_valueAndLeaf (nibble : Nibble) (leafPath : Path) (value leafValue : Bytes) :
    entries ((newBranch.setValue value).setBranch nibble (leaf leafPath leafValue)) =
      MerklePatricia.insert (MerklePatricia.insert (fun _ => none) [] value) (nibble :: leafPath)
        leafValue := by
  have isValue : entries (newBranch.setValue value) = MerklePatricia.insert (fun _ => none) [] value := by
    rw [entries_setValue rfl, entries_newBranch]
  rw [entries_setBranch_leaf rfl, isValue]
  intro rest
  rw [isValue]
  rfl

theorem insert_leaf (path : Path) (leafValue value : Bytes) :
    MerklePatricia.insert (entries (leaf path leafValue)) path value = entries (leaf path value) := by
  rw [entries_leaf_eq, entries_leaf_eq, insert_insert]

/-- A leaf and the key are both in the trie unless the counter has wrapped. -/
theorem LeafPut.entries_iff (leafPut : LeafPut path leafValue nibbles value node) :
    entries node = MerklePatricia.insert (entries (leaf path leafValue)) nibbles value ↔
      nibbles = path ∨ matchedLen nibbles path < 256 := by
  cases leafPut with
  | replaces same =>
    subst same
    simp [insert_leaf]
  | @ends branchNibble branchPath isPath short counts =>
    refine iff_of_true ?_ (.inr counts)
    have both := entries_valueAndLeaf branchNibble branchPath value leafValue
    rw [insert_comm _ (List.cons_ne_nil _ _).symm] at both
    rw [isPath, entries_extend_two both, List.append_nil]
  | @continues nibble leafPath isKey short counts =>
    refine iff_of_true ?_ (.inr counts)
    rw [isKey, entries_extend_two (entries_valueAndLeaf nibble leafPath leafValue value), List.append_nil]
  | leaves isKey isPath short counts different =>
    refine iff_of_true ?_ (.inr counts)
    rw [entries_extend_fork different, ← entries_leaf_append, List.append_assoc, List.singleton_append,
      ← isKey, ← isPath]
  | @wraps shared leafPath branchPath nibble isKey isPath short tooLong =>
    -- only the new leaf is left
    have onlyNew : entries (extend shared (fork nibble (leaf branchPath leafValue) nibble
        (leaf leafPath value))) = entries (leaf nibbles value) := by
      rw [entries_extend, entries_fork_same, under_under, ← entries_leaf_append, List.append_assoc,
        List.singleton_append, ← isKey]
    rw [onlyNew]
    constructor
    · intro isEntries
      refine .inl (Decidable.byContradiction fun different => ?_)
      have old := congrFun isEntries path
      simp [entries, MerklePatricia.insert, Ne.symm different] at old
    · intro accepted
      rw [accepted.resolve_right tooLong, insert_leaf]

/-! ## What is accepted -/

/-- On its way into the trie the key does not end inside of the path of an extension, and does not share 256
    nibbles or more with the path of another leaf. -/
def Accepts : Node → Path → Prop
  | null, _ => True
  | leaf path _, nibbles => nibbles = path ∨ matchedLen nibbles path < 256
  | branch _ _ _, [] => True
  | branch _ branches _, nibble :: nibbles => Accepts (branches nibble) nibbles
  | extension path next, nibbles =>
    (nibbles <+: path → nibbles = path) ∧ (path <+: nibbles → Accepts next (nibbles.drop path.length))

/-- The counter holds the path of every extension. -/
def Short : Node → Prop
  | null => True
  | leaf _ _ => True
  | branch _ branches _ => ∀ nibble, Short (branches nibble)
  | extension path next => path.length < 256 ∧ Short next

theorem short_newBranch : Short newBranch := fun _ => trivial

theorem short_leaf (path : Path) (value : Bytes) : Short (leaf path value) := trivial

theorem short_setValue (short : Short node) (value : Bytes) : Short (node.setValue value) := by
  cases node <;> exact short

theorem short_setBranch (short : Short node) (otherShort : Short other) (nibble : Nibble) :
    Short (node.setBranch nibble other) := by
  cases node with
  | branch nodeHasValue branches branchValue =>
    intro place
    by_cases same : place = nibble
    · simpa [same] using otherShort
    · simpa [same] using short place
  | _ => exact short

theorem short_extend (pathShort : path.length < 256) (short : Short next) : Short (extend path next) := by
  by_cases isEmpty : path = []
  · rwa [extend, if_pos isEmpty]
  · rw [extend, if_neg isEmpty]
    exact ⟨pathShort, short⟩

theorem short_fork (leftNibble rightNibble : Nibble) {left right : Node} (leftShort : Short left)
    (rightShort : Short right) : Short (fork leftNibble left rightNibble right) :=
  short_setBranch (short_setBranch short_newBranch leftShort leftNibble) rightShort rightNibble

theorem LeafPut.short (leafPut : LeafPut path leafValue nibbles value node) : Short node := by
  cases leafPut with
  | replaces => trivial
  | ends _ pathShort _ =>
    exact short_extend pathShort (short_setBranch (short_setValue short_newBranch _) (short_leaf _ _) _)
  | continues _ pathShort _ =>
    exact short_extend pathShort (short_setBranch (short_setValue short_newBranch _) (short_leaf _ _) _)
  | leaves _ _ pathShort _ _ => exact short_extend pathShort (short_fork _ _ (short_leaf _ _) (short_leaf _ _))
  | wraps _ _ pathShort _ => exact short_extend pathShort (short_fork _ _ (short_leaf _ _) (short_leaf _ _))

/-! ## What a put makes of an extension -/

theorem matchedLen_comm (nibbles path : Path) : matchedLen nibbles path = matchedLen path nibbles := by
  induction nibbles generalizing path with
  | nil => cases path <;> rfl
  | cons nibble nibbles inductionHypothesis =>
    cases path with
    | nil => rfl
    | cons first path =>
      by_cases same : nibble = first
      · simp [matchedLen, same, inductionHypothesis]
      · simp [matchedLen, same, Ne.symm same]

theorem matchedLen_le_right (nibbles path : Path) : matchedLen nibbles path ≤ path.length := by
  obtain ⟨shared, rest, remaining, _, rfl, isLength, _⟩ := exists_shared nibbles path
  rw [isLength, List.length_append]
  exact Nat.le_add_right _ _

/-- The branch nibble of a key that has ended is out of range. -/
theorem putKeyExtensionNode_inside {putKeyNext : Path → Option Node} {branchNibble : Nibble}
    {branchPath : Path} (matched : (NibbleHelper.prefixMatchedLen nibbles
      (nibbles ++ branchNibble :: branchPath)).toNat = nibbles.length) :
    PatriciaTrie.putKeyExtensionNode putKeyNext (nibbles ++ branchNibble :: branchPath) next nibbles value =
      none := by
  simp [PatriciaTrie.putKeyExtensionNode, matched]

/-- The ways in which a key meets an extension: it goes on below it, it ends inside of it, or it leaves it. -/
theorem putKeyExtensionNode_cases {putKeyNext : Path → Option Node} (pathShort : path.length < 256) :
    (∃ rest, nibbles = path ++ rest ∧
      PatriciaTrie.putKeyExtensionNode putKeyNext path next nibbles value =
        (putKeyNext rest).map (extension path)) ∨
    (nibbles <+: path ∧ nibbles ≠ path ∧
      PatriciaTrie.putKeyExtensionNode putKeyNext path next nibbles value = none) ∨
    ∃ shared nibble leafPath branchNibble branchPath, nibbles = shared ++ nibble :: leafPath ∧
      path = shared ++ branchNibble :: branchPath ∧ branchNibble ≠ nibble ∧
      PatriciaTrie.putKeyExtensionNode putKeyNext path next nibbles value =
        some (extend shared (fork branchNibble (extend branchPath next) nibble (leaf leafPath value))) := by
  have matched := matched_eq ((matchedLen_le_right nibbles path).trans_lt pathShort)
  by_cases isBelow : path <+: nibbles
  · obtain ⟨rest, rfl⟩ := isBelow
    rw [matchedLen_append] at matched
    exact .inl ⟨rest, rfl, putKeyExtensionNode_below matched⟩
  · by_cases isInside : nibbles <+: path
    · refine .inr (.inl ⟨isInside, fun same => isBelow (same ▸ List.prefix_refl _), ?_⟩)
      obtain ⟨remaining, rfl⟩ := isInside
      rw [matchedLen_comm, matchedLen_append] at matched
      cases remaining with
      | nil => exact absurd (by simp) isBelow
      | cons branchNibble branchPath => exact putKeyExtensionNode_inside matched
    · obtain ⟨shared, nibble, leafPath, branchNibble, branchPath, isKey, isPath, isLength, different⟩ :=
        exists_split (not_or.mpr ⟨isInside, isBelow⟩)
      refine .inr (.inr ⟨shared, nibble, leafPath, branchNibble, branchPath, isKey, isPath, different, ?_⟩)
      rw [isLength] at matched
      subst isKey isPath
      exact putKeyExtensionNode_split matched

/-! ## One put -/

theorem short_putKey {node' : Node} (short : Short node)
    (puts : PatriciaTrie.putKey value node key = some node') : Short node' := by
  induction node generalizing key node' with
  | null =>
    cases puts
    exact short_leaf _ _
  | leaf path leafValue =>
    cases puts
    exact (leafPut path leafValue key value).short
  | branch nodeHasValue branches branchValue inductionHypothesis =>
    cases key with
    | nil =>
      cases puts
      exact short
    | cons nibble key =>
      obtain ⟨child, putsChild, isNode⟩ := Option.bind_eq_some_iff.mp puts
      cases isNode
      exact short_setBranch short (inductionHypothesis nibble (short nibble) putsChild) nibble
  | extension path next inductionHypothesis =>
    obtain ⟨pathShort, below⟩ := short
    rw [PatriciaTrie.putKey] at puts
    rcases @putKeyExtensionNode_cases next path key value (PatriciaTrie.putKey value next) pathShort with
      ⟨rest, rfl, result⟩ | ⟨_, _, result⟩ |
      ⟨shared, nibble, leafPath, branchNibble, branchPath, rfl, rfl, _, result⟩
    · rw [result, Option.map_eq_some_iff] at puts
      obtain ⟨child, putsChild, rfl⟩ := puts
      exact ⟨pathShort, inductionHypothesis below putsChild⟩
    · rw [result] at puts
      cases puts
    · rw [result] at puts
      cases puts
      rw [List.length_append, List.length_cons] at pathShort
      exact short_extend (by omega) (short_fork _ _ (short_extend (by omega) below) (short_leaf _ _))

theorem entries_update {branches : Nibble → Node} {nodeHasValue : Bool} {branchValue : Bytes}
    {nibble : Nibble} {child : Node} :
    entries (branch nodeHasValue (Function.update branches nibble child) branchValue) =
        MerklePatricia.insert (entries (branch nodeHasValue branches branchValue)) (nibble :: key) value ↔
      entries child = MerklePatricia.insert (entries (branches nibble)) key value := by
  constructor
  · intro isEntries
    funext rest
    have atNibble := congrFun isEntries (nibble :: rest)
    simpa [entries, MerklePatricia.insert] using atNibble
  · intro isEntries
    funext whole
    cases whole with
    | nil => simp [entries, MerklePatricia.insert]
    | cons first rest =>
      by_cases same : first = nibble
      · simp [entries, MerklePatricia.insert, same, isEntries]
      · simp [entries, MerklePatricia.insert, same]

theorem under_eq_iff (path : Path) {left right : Map} : under path left = under path right ↔ left = right := by
  constructor
  · intro same
    have inside := congrArg (after · path) same
    simpa only [after_under] using inside
  · rintro rfl
    rfl

/-- A key is put, and the new map is that of the new trie, just where the key is accepted. -/
theorem putKey_iff (value : Bytes) {node : Node} {key : Path} (short : Short node) :
    (∃ node', PatriciaTrie.putKey value node key = some node' ∧
      entries node' = MerklePatricia.insert (entries node) key value) ↔ Accepts node key := by
  induction node generalizing key with
  | null =>
    refine iff_of_true ⟨leaf key value, rfl, ?_⟩ trivial
    rw [entries_leaf_eq, entries_null]
  | leaf path leafValue =>
    rw [Accepts, ← (leafPut path leafValue key value).entries_iff]
    constructor
    · rintro ⟨_, ⟨⟩, isEntries⟩
      exact isEntries
    · intro isEntries
      exact ⟨_, rfl, isEntries⟩
  | branch nodeHasValue branches branchValue inductionHypothesis =>
    cases key with
    | nil =>
      refine iff_of_true ⟨_, rfl, ?_⟩ trivial
      funext key
      cases key <;> simp [entries, MerklePatricia.insert]
    | cons nibble key =>
      rw [Accepts, ← inductionHypothesis nibble (short nibble)]
      constructor
      · rintro ⟨_, puts, isEntries⟩
        obtain ⟨child, putsChild, isNode⟩ := Option.bind_eq_some_iff.mp puts
        cases isNode
        exact ⟨child, putsChild, entries_update.mp isEntries⟩
      · rintro ⟨child, putsChild, isEntries⟩
        exact ⟨_, by simp [PatriciaTrie.putKey, putsChild], entries_update.mpr isEntries⟩
  | extension path next inductionHypothesis =>
    obtain ⟨pathShort, below⟩ := short
    rw [Accepts, PatriciaTrie.putKey]
    -- the key goes on below the path, ends inside it, or leaves it at a nibble
    rcases @putKeyExtensionNode_cases next path key value (PatriciaTrie.putKey value next) pathShort with
      ⟨rest, rfl, result⟩ | ⟨isInside, different, result⟩ |
      ⟨shared, nibble, leafPath, branchNibble, branchPath, rfl, rfl, different, result⟩
    · have accepted : (path ++ rest <+: path → path ++ rest = path) := by
        intro isInside
        have shorter := isInside.length_le
        rw [List.length_append] at shorter
        rw [List.eq_nil_of_length_eq_zero (show rest.length = 0 by omega), List.append_nil]
      rw [result, List.drop_left, ← inductionHypothesis below]
      constructor
      · rintro ⟨node', puts, isEntries⟩
        refine ⟨accepted, fun _ => ?_⟩
        obtain ⟨child, putsChild, rfl⟩ := Option.map_eq_some_iff.mp puts
        rw [entries_extension, entries_extension, insert_under, under_eq_iff] at isEntries
        exact ⟨child, putsChild, isEntries⟩
      · rintro ⟨_, goesOn⟩
        obtain ⟨child, putsChild, isEntries⟩ := goesOn (List.prefix_append path rest)
        refine ⟨extension path child, by rw [putsChild]; rfl, ?_⟩
        rw [entries_extension, entries_extension, insert_under, isEntries]
    · rw [result]
      -- a key that ends inside the path is refused
      refine iff_of_false ?_ fun accepts => different (accepts.1 isInside)
      rintro ⟨_, ⟨⟩, _⟩
    · rw [result]
      refine iff_of_true ⟨_, rfl, ?_⟩ ⟨fun isInside => ?_, fun isBelow => ?_⟩
      · rw [entries_extend_fork different, entries_extend, under_under, entries_extension, List.append_assoc,
          List.singleton_append]
      · simp [List.prefix_append_right_inj, List.cons_prefix_cons, different.symm] at isInside
      · simp [List.prefix_append_right_inj, List.cons_prefix_cons, different] at isBelow

end Node

/-! ## Rows of puts -/

open PatriciaTrie

/-- The trie has exactly the keys that were put, each with its last value. -/
def HoldsLast (root : Node) (puts : List (Bytes × Bytes)) : Prop :=
  ∀ path value, root.entries path = some value ↔
    ∃ key, path = nibbles key ∧ puts.reverse.lookup key = some value

/-- After each of the puts there is a trie, and it holds what was put so far. -/
def AlwaysHolds (puts : List (Bytes × Bytes)) : Prop :=
  ∀ earlier later, puts = earlier ++ later →
    ∃ root, putAll .null earlier = some root ∧ HoldsLast root earlier

/-- Each key is accepted by the trie that it is put into. -/
def AlwaysAccepts (puts : List (Bytes × Bytes)) : Prop :=
  ∀ earlier key value later, puts = earlier ++ (key, value) :: later →
    ∀ root, putAll .null earlier = some root → root.Accepts (nibbles key)

variable {root root' : Node} {puts earlier : List (Bytes × Bytes)} {key value : Bytes}

theorem holdsLast_iff : HoldsLast root puts ↔ root.entries = write (fun _ => none) puts := by
  constructor
  · intro holds
    exact map_ext fun path value => (holds path value).trans write_eq_some_iff.symm
  · intro isEntries path value
    rw [isEntries]
    exact write_eq_some_iff

theorem put_eq : put root key value = putKey value root (nibbles key) := by
  rw [put, fromBytes_eq_nibbles]

theorem putAll_snoc (start : Node) : putAll start (earlier ++ [(key, value)]) =
    (putAll start earlier).bind fun root => put root key value := by
  induction earlier generalizing start with
  | nil => simp [putAll]
  | cons first earlier inductionHypothesis =>
    obtain ⟨firstKey, firstValue⟩ := first
    cases puts : put start firstKey firstValue <;> simp [putAll, puts, inductionHypothesis]

theorem short_putAll (puts : putAll .null earlier = some root) : root.Short := by
  induction earlier using List.reverseRecOn generalizing root with
  | nil =>
    cases puts
    trivial
  | append_singleton earlier last inductionHypothesis =>
    rw [putAll_snoc, Option.bind_eq_some_iff] at puts
    obtain ⟨before, putsBefore, putsLast⟩ := puts
    exact Node.short_putKey (inductionHypothesis putsBefore) (put_eq ▸ putsLast)

/-- The next put keeps what the trie holds just where the trie accepts the key. -/
theorem put_iff (putsEarlier : putAll .null earlier = some root) (holds : HoldsLast root earlier) :
    (∃ after, putAll .null (earlier ++ [(key, value)]) = some after ∧
      HoldsLast after (earlier ++ [(key, value)])) ↔ root.Accepts (nibbles key) := by
  rw [← Node.putKey_iff value (short_putAll putsEarlier), putAll_snoc, putsEarlier]
  simp only [holdsLast_iff, Option.bind_some, put_eq, write_snoc, holdsLast_iff.mp holds]

/-- For every row of puts of any keys, the empty key, prefixes of other keys and keys of any length among
    them: no nibble is out of range and the trie always holds exactly the map from each key to its last
    value, if and only if each key is accepted by the trie that it is put into. -/
theorem put_total_iff (puts : List (Bytes × Bytes)) : AlwaysHolds puts ↔ AlwaysAccepts puts := by
  constructor
  · intro always earlier key value later isSplit root putsEarlier
    obtain ⟨root', putsEarlier', holds⟩ := always earlier ((key, value) :: later) isSplit
    cases putsEarlier.symm.trans putsEarlier'
    refine (@put_iff root earlier key value putsEarlier holds).mp ?_
    exact always (earlier ++ [(key, value)]) later (by simp [isSplit])
  · intro accepts earlier
    induction earlier using List.reverseRecOn with
    | nil =>
      intro _ _
      exact ⟨.null, rfl, holdsLast_iff.mpr rfl⟩
    | append_singleton earlier last inductionHypothesis =>
      intro later isSplit
      obtain ⟨key, value⟩ := last
      have isSplit' : puts = earlier ++ (key, value) :: later := by simp [isSplit]
      obtain ⟨root, putsEarlier, holds⟩ := inductionHypothesis ((key, value) :: later) isSplit'
      exact (put_iff putsEarlier holds).mpr (accepts earlier key value later isSplit' root putsEarlier)

/-- The key of the last put is a prefix of what the other two share. -/
def prefixPuts : List (Bytes × Bytes) := [([0x11, 0x11], [1]), ([0x11, 0x12], [2]), ([0x11], [3])]

def zerosThen (byte : UInt8) : Bytes := List.replicate 128 0 ++ [byte]

/-- The keys share their first 256 nibbles. -/
def longPuts : List (Bytes × Bytes) := [(zerosThen 0x11, [1]), (zerosThen 0x22, [2])]

/-- A nibble is out of range, and a key is lost. -/
theorem put_not_total : (putAll .null prefixPuts = none ∧ ¬ AlwaysHolds prefixPuts) ∧
    ((putAll .null longPuts).map (fun root => root.entries (nibbles (zerosThen 0x11))) = some none ∧
      ¬ AlwaysHolds longPuts) := by
  have outOfRange : (putAll .null prefixPuts).isNone = true := by decide +kernel
  have lost : (putAll .null longPuts).map (fun root => root.entries (nibbles (zerosThen 0x11))) =
      some none := by decide +kernel
  refine ⟨⟨Option.isNone_iff_eq_none.mp outOfRange, fun always => ?_⟩, lost, fun always => ?_⟩
  · obtain ⟨root, putsAll, _⟩ := always prefixPuts [] (List.append_nil _).symm
    rw [putsAll] at outOfRange
    cases outOfRange
  · obtain ⟨root, putsAll, holds⟩ := always longPuts [] (List.append_nil _).symm
    have found := (holds (nibbles (zerosThen 0x11)) [1]).mpr ⟨zerosThen 0x11, rfl, by decide +kernel⟩
    rw [putsAll, Option.map_some, found] at lost
    cases lost

end Decentagram.Eth.Trie
