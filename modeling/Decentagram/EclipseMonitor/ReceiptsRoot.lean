import Decentagram.EclipseMonitor.EventManager
import Decentagram.EclipseMonitor.TrieRoot
import Decentagram.Lib.Result

/-! # The root of the receipts

After any `Put`s of keys that do not start with one another the trie has the root of the map they have
written.  `ReceiptsMgr` puts each receipt under its position.
-/

namespace Decentagram.Eth

namespace Trie

open Decentagram.Lib Decentagram.Lib.Rlp Decentagram.Lib.MerklePatricia Decentagram.SimpleRlp

/-! ## Runs -/

/-- No key starts with another one. -/
def PrefixFree (keys : List Bytes) : Prop :=
  ∀ key ∈ keys, ∀ other ∈ keys, key <+: other → key = other

instance (keys : List Bytes) : Decidable (PrefixFree keys) :=
  inferInstanceAs (Decidable (∀ key ∈ keys, ∀ other ∈ keys, key <+: other → key = other))

/-- The counter of matched nibbles holds at each `Put` of a run. -/
def CountsAll (root : Node) : List (Bytes × Bytes) → Prop
  | [] => True
  | (key, value) :: puts =>
    root.Counts (nibbles key) ∧
      ∀ root', PatriciaTrie.put root key value = some root' → CountsAll root' puts

/-- The sizes that a key and a value can have as vectors, the key also as a vector of nibbles. -/
def FitsPut (key value : Bytes) : Prop := key.length < 2 ^ 62 ∧ value.length < 2 ^ 63

instance (key value : Bytes) : Decidable (FitsPut key value) :=
  inferInstanceAs (Decidable (key.length < 2 ^ 62 ∧ value.length < 2 ^ 63))

/-- The entries of a map that has been written under some keys. -/
def WrittenUnder (keys : List Bytes) (map : Map) : Prop :=
  ∀ path value, map path = some value →
    ∃ key ∈ keys, path = nibbles key ∧ FitsPut key value

variable {keys : List Bytes} {root : Node}

theorem WrittenUnder.apart {map : Map} {key : Bytes} (written : WrittenUnder keys map)
    (prefixFree : PrefixFree keys) (present : key ∈ keys) : Apart map (nibbles key) := by
  intro path value found comparable
  obtain ⟨other, otherPresent, rfl, _⟩ := written path value found
  cases comparable with
  | inl before => rw [prefixFree key present other otherPresent (prefix_of_nibbles before)]
  | inr after => rw [prefixFree other otherPresent key present (prefix_of_nibbles after)]

theorem WrittenUnder.insert {map : Map} {key value : Bytes} (written : WrittenUnder keys map)
    (present : key ∈ keys) (fits : FitsPut key value) :
    WrittenUnder keys (MerklePatricia.insert map (nibbles key) value) := by
  intro path found isEntry
  rw [insert_eq_some] at isEntry
  cases isEntry with
  | inl isNew =>
    obtain ⟨rfl, rfl⟩ := isNew
    exact ⟨key, present, rfl, fits⟩
  | inr isOld => exact written path found isOld.2

theorem WrittenUnder.fits {map : Map} (written : WrittenUnder keys map) : Fits map := by
  intro path value found
  obtain ⟨key, _, rfl, keyFits, valueFits⟩ := written path value found
  rw [length_nibbles]
  exact ⟨by omega, valueFits⟩

/-- What a run leaves is canonical and holds what has been written. -/
theorem putAll_spec (prefixFree : PrefixFree keys) {puts : List (Bytes × Bytes)}
    (canonical : root.Canonical) (written : WrittenUnder keys root.entries)
    (fits : ∀ put ∈ puts, put.1 ∈ keys ∧ FitsPut put.1 put.2) (counts : CountsAll root puts) :
    ∃ root', PatriciaTrie.putAll root puts = some root' ∧ root'.Canonical ∧
      root'.entries = write root.entries puts ∧ WrittenUnder keys root'.entries := by
  induction puts generalizing root with
  | nil => exact ⟨root, rfl, canonical, rfl, written⟩
  | cons put puts inductionHypothesis =>
    obtain ⟨key, value⟩ := put
    rw [List.forall_mem_cons] at fits
    obtain ⟨⟨present, keyFits⟩, laterFit⟩ := fits
    obtain ⟨root', puts', canonical', _, isEntries⟩ :=
      Node.putKey_spec value canonical (written.apart prefixFree present) counts.1
    have putsKey : PatriciaTrie.put root key value = some root' := by
      rw [PatriciaTrie.put, fromBytes_eq_nibbles, puts']
    have written' : WrittenUnder keys root'.entries := isEntries ▸ written.insert present keyFits
    obtain ⟨final, putsAll, finalCanonical, isFinal, finalWritten⟩ :=
      inductionHypothesis canonical' written' laterFit (counts.2 root' putsKey)
    refine ⟨final, ?_, finalCanonical, ?_, finalWritten⟩
    · simp [PatriciaTrie.putAll, putsKey, putsAll]
    · rw [isFinal, isEntries, write]

/-- Every state of a run is the canonical trie of what has been written. -/
def CanonicalRun (root : Node) (puts : List (Bytes × Bytes)) : Prop :=
  ∀ before after, puts = before ++ after →
    ∃ root', PatriciaTrie.putAll root before = some root' ∧ root'.Canonical ∧
      root'.entries = write root.entries before

theorem countsAll_of_append {before after : List (Bytes × Bytes)}
    (counts : CountsAll root (before ++ after)) : CountsAll root before := by
  induction before generalizing root with
  | nil => trivial
  | cons put before inductionHypothesis =>
    obtain ⟨key, value⟩ := put
    exact ⟨counts.1, fun root' puts => inductionHypothesis (counts.2 root' puts)⟩

theorem countsAll_of_canonicalRun {puts : List (Bytes × Bytes)} (run : CanonicalRun root puts) :
    CountsAll root puts := by
  induction puts generalizing root with
  | nil => trivial
  | cons put puts inductionHypothesis =>
    obtain ⟨key, value⟩ := put
    obtain ⟨root', putsKey, canonical, isEntries⟩ := run [(key, value)] puts rfl
    have puts' : PatriciaTrie.put root key value = some root' := by
      simpa [PatriciaTrie.putAll] using putsKey
    rw [write, write] at isEntries
    have putsNibbles := puts'
    rw [PatriciaTrie.put, fromBytes_eq_nibbles] at putsNibbles
    refine ⟨Node.counts_of_putTo putsNibbles ⟨canonical, Node.ne_null_of_insert isEntries, isEntries⟩, ?_⟩
    intro next putsNext
    cases puts'.symm.trans putsNext
    apply inductionHypothesis
    intro before after isSplit
    have isSplit' : (key, value) :: puts = ((key, value) :: before) ++ after := congrArg _ isSplit
    obtain ⟨final, putsAll, finalCanonical, isFinal⟩ := run _ after isSplit'
    refine ⟨final, by simpa [PatriciaTrie.putAll, puts'] using putsAll, finalCanonical, ?_⟩
    rw [isFinal, write, isEntries]

theorem matchedLen_le (nibbles1 nibbles2 : Path) :
    Node.matchedLen nibbles1 nibbles2 ≤ nibbles1.length := by
  induction nibbles1 generalizing nibbles2 with
  | nil => exact Nat.le_refl 0
  | cons nibble1 nibbles1 inductionHypothesis =>
    cases nibbles2 with
    | nil => exact Nat.zero_le _
    | cons nibble2 nibbles2 =>
      have rest := inductionHypothesis nibbles2
      rw [Node.matchedLen, List.length_cons]
      split <;> omega

theorem counts_of_short {node : Node} {path : Path} (short : path.length < 256) : node.Counts path := by
  induction node generalizing path with
  | null => trivial
  | leaf leafPath value => exact (matchedLen_le path leafPath).trans_lt short
  | branch nodeHasValue branches value inductionHypothesis =>
    cases path with
    | nil => trivial
    | cons nibble path =>
      rw [List.length_cons] at short
      exact inductionHypothesis nibble (by omega)
  | extension extensionPath next inductionHypothesis =>
    refine ⟨(matchedLen_le path extensionPath).trans_lt short, fun _ => inductionHypothesis ?_⟩
    rw [List.length_drop]
    omega

/-- Keys of less than 128 bytes do not have 256 nibbles to match. -/
theorem countsAll_of_short {puts : List (Bytes × Bytes)} (short : ∀ put ∈ puts, put.1.length < 128) :
    CountsAll root puts := by
  induction puts generalizing root with
  | nil => trivial
  | cons put puts inductionHypothesis =>
    obtain ⟨key, value⟩ := put
    rw [List.forall_mem_cons] at short
    have keyShort : (nibbles key).length < 256 := by
      rw [length_nibbles]
      have bound := short.1
      simp only at bound
      omega
    exact ⟨counts_of_short keyShort, fun root' _ => inductionHypothesis short.2⟩

/-- The map that is there before any `Put`. -/
def emptyMap : Map := fun _ => none

/-- The condition on the counter is the exact one. -/
theorem countsAll_iff {puts : List (Bytes × Bytes)} (prefixFree : PrefixFree (puts.map Prod.fst))
    (fits : ∀ put ∈ puts, FitsPut put.1 put.2) : CountsAll .null puts ↔ CanonicalRun .null puts := by
  refine ⟨?_, countsAll_of_canonicalRun⟩
  intro counts before after isSplit
  subst isSplit
  have written : WrittenUnder ((before ++ after).map Prod.fst) (Node.entries .null) := by
    intro path value found
    cases found
  have canonical : Node.Canonical .null := trivial
  obtain ⟨root, putsAll, canonical', isEntries, _⟩ := putAll_spec prefixFree canonical written
    (fun put present => ⟨List.mem_map_of_mem (List.mem_append_left _ present),
      fits put (List.mem_append_left _ present)⟩)
    (countsAll_of_append counts)
  exact ⟨root, putsAll, canonical', isEntries⟩

theorem run_spec {puts : List (Bytes × Bytes)} (prefixFree : PrefixFree (puts.map Prod.fst))
    (fits : ∀ put ∈ puts, FitsPut put.1 put.2) (counts : CountsAll .null puts) :
    ∃ root, PatriciaTrie.putAll .null puts = some root ∧
      IsRoot Node.calcHash (write emptyMap puts) (PatriciaTrie.hash root) := by
  have written : WrittenUnder (puts.map Prod.fst) (Node.entries .null) := by
    intro path value found
    cases found
  have fits' : ∀ put ∈ puts, put.1 ∈ puts.map Prod.fst ∧ FitsPut put.1 put.2 :=
    fun put present => ⟨List.mem_map_of_mem present, fits put present⟩
  have canonical : Node.Canonical .null := trivial
  obtain ⟨root, putsAll, canonical', isEntries, written'⟩ :=
    putAll_spec prefixFree canonical written fits' counts
  refine ⟨root, putsAll, ?_⟩
  have isRoot := isRoot_hash canonical' written'.fits
  rwa [isEntries] at isRoot

/-! ## Receipts -/

/-- The key of a receipt, from `_IntWriter` and `_KeyRlpWriter`. -/
def receiptKey (i : UInt64) : Bytes := writeRlp (.bytes (encodePrimitiveIntValue i))

/-- The loop of the constructor of `ReceiptsMgr`. -/
def putReceipts (i : UInt64) (trie : Node) : List Bytes → Option Node
  | [] => some trie
  | receiptBytes :: receipts => do
    let trie ← PatriciaTrie.put trie (receiptKey i) receiptBytes
    putReceipts (i + 1) trie receipts

/-- What the constructor puts. -/
def receiptPuts (i : UInt64) : List Bytes → List (Bytes × Bytes)
  | [] => []
  | receiptBytes :: receipts => (receiptKey i, receiptBytes) :: receiptPuts (i + 1) receipts

theorem putReceipts_eq (i : UInt64) (trie : Node) (receipts : List Bytes) :
    putReceipts i trie receipts = PatriciaTrie.putAll trie (receiptPuts i receipts) := by
  induction receipts generalizing i trie with
  | nil => rfl
  | cons receiptBytes receipts inductionHypothesis =>
    simp only [putReceipts, receiptPuts, PatriciaTrie.putAll, inductionHypothesis]

theorem mem_receiptPuts {i : UInt64} {receipts : List Bytes} {key value : Bytes} :
    (key, value) ∈ receiptPuts i receipts ↔
      ∃ place, receipts[place]? = some value ∧ key = receiptKey (i + UInt64.ofNat place) := by
  induction receipts generalizing i with
  | nil => simp [receiptPuts]
  | cons receiptBytes receipts inductionHypothesis =>
    have next : ∀ place, i + 1 + UInt64.ofNat place = i + UInt64.ofNat (place + 1) := by
      intro place
      rw [UInt64.ofNat_add, UInt64.add_assoc, UInt64.add_comm 1]
      rfl
    rw [receiptPuts, List.mem_cons, inductionHypothesis]
    constructor
    · intro put
      rcases put with isFirst | ⟨place, found, isKey⟩
      · cases isFirst
        exact ⟨0, rfl, by simp⟩
      · exact ⟨place + 1, found, next place ▸ isKey⟩
    · intro put
      obtain ⟨place, found, rfl⟩ := put
      cases place with
      | zero =>
        cases found
        exact .inl (by simp)
      | succ place => exact .inr ⟨place, found, by rw [next]⟩

theorem length_receiptKey (i : UInt64) : (receiptKey i).length ≤ 17 := by
  have size := length_writeRlp_bytes (encodePrimitiveIntValue i)
  have width := encodedWidth_le i
  rw [length_encodePrimitiveIntValue] at size
  exact size.trans (by omega)

theorem receiptKey_prefixFree {i j : UInt64} (isPrefix : receiptKey i <+: receiptKey j) : i = j := by
  have shortKey : ∀ i, (encodePrimitiveIntValue i).length ≤ 55 := by
    intro i
    have width := encodedWidth_le i
    rw [length_encodePrimitiveIntValue]
    omega
  exact encodePrimitiveIntValue_injective (writeRlp_prefixFree (shortKey i) (shortKey j) isPrefix)

theorem receiptKey_injective {i j : UInt64} (same : receiptKey i = receiptKey j) : i = j :=
  receiptKey_prefixFree (same ▸ List.prefix_refl (receiptKey i))

theorem isIndexKey_iff {i : Nat} (small : i < 2 ^ 64) {key : Bytes} :
    IsIndexKey i key ↔ key = receiptKey (UInt64.ofNat i) := by
  have value : BigEndian.value (encodePrimitiveIntValue (UInt64.ofNat i)) = i := by
    rw [value_encodePrimitiveIntValue, UInt64.toNat_ofNat_of_lt' small]
  have encodes : Encodes true (receiptKey (UInt64.ofNat i))
      (.bytes (encodePrimitiveIntValue (UInt64.ofNat i))) := by
    apply writeRlp_encodes
    have size := length_receiptKey (UInt64.ofNat i)
    unfold receiptKey at size
    omega
  constructor
  · intro isKey
    obtain ⟨digits, isValue, noZero, encodes'⟩ := isKey
    have same :=
      BigEndian.eq_of_minimal noZero (encodePrimitiveIntValue_noZero _) (isValue.trans value.symm)
    exact encodes'.unique (same ▸ encodes)
  · intro isKey
    exact ⟨_, value, encodePrimitiveIntValue_noZero _, isKey ▸ encodes⟩

theorem exists_of_mem_keys {i : UInt64} {receipts : List Bytes} {key : Bytes}
    (present : key ∈ (receiptPuts i receipts).map Prod.fst) :
    ∃ place < receipts.length, key = receiptKey (i + UInt64.ofNat place) := by
  obtain ⟨⟨key, value⟩, isPut, rfl⟩ := List.mem_map.mp present
  obtain ⟨place, found, isKey⟩ := mem_receiptPuts.mp isPut
  exact ⟨place, (List.getElem?_eq_some_iff.mp found).1, isKey⟩

theorem prefixFree_receiptPuts (i : UInt64) (receipts : List Bytes) :
    PrefixFree ((receiptPuts i receipts).map Prod.fst) := by
  intro key present other otherPresent isPrefix
  obtain ⟨place, _, rfl⟩ := exists_of_mem_keys present
  obtain ⟨otherPlace, _, rfl⟩ := exists_of_mem_keys otherPresent
  rw [receiptKey_prefixFree isPrefix]

theorem nodup_receiptPuts {i : UInt64} {receipts : List Bytes} (small : receipts.length ≤ 2 ^ 64) :
    ((receiptPuts i receipts).map Prod.fst).Nodup := by
  induction receipts generalizing i with
  | nil => exact List.nodup_nil
  | cons receiptBytes receipts inductionHypothesis =>
    rw [List.length_cons] at small
    rw [receiptPuts, List.map_cons, List.nodup_cons]
    refine ⟨?_, inductionHypothesis (by omega)⟩
    -- the counter does not come back to a position
    intro present
    obtain ⟨place, inRange, same⟩ := exists_of_mem_keys present
    have sameCount := congrArg UInt64.toNat (receiptKey_injective same)
    have bound := i.toNat_lt
    simp at sameCount
    omega

theorem isListMap_write {receipts : List Bytes} (small : receipts.length ≤ 2 ^ 64) :
    IsListMap receipts (write emptyMap (receiptPuts 0 receipts)) := by
  intro path value
  have notBefore : emptyMap path ≠ some value := by simp [emptyMap]
  simp only [write_eq_some (nodup_receiptPuts small), mem_receiptPuts, notBefore, false_and, or_false,
    UInt64.zero_add]
  constructor
  · intro put
    obtain ⟨key, ⟨place, found, isKey⟩, isPath⟩ := put
    have inRange := (List.getElem?_eq_some_iff.mp found).1
    exact ⟨place, key, found, (isIndexKey_iff (by omega)).mpr isKey, isPath⟩
  · intro listed
    obtain ⟨place, key, found, isKey, isPath⟩ := listed
    have inRange := (List.getElem?_eq_some_iff.mp found).1
    exact ⟨key, ⟨place, found, (isIndexKey_iff (by omega)).mp isKey⟩, isPath⟩

theorem receipts_spec {receipts : List Bytes} (small : receipts.length ≤ 2 ^ 64)
    (fits : ∀ receipt ∈ receipts, receipt.length < 2 ^ 63) :
    ∃ trie map, putReceipts 0 .null receipts = some trie ∧ IsListMap receipts map ∧
      IsRoot Node.calcHash map (PatriciaTrie.hash trie) := by
  have fitsPuts : ∀ put ∈ receiptPuts 0 receipts, put.1.length ≤ 17 ∧ put.2.length < 2 ^ 63 := by
    intro put present
    obtain ⟨place, found, isKey⟩ := mem_receiptPuts.mp present
    exact ⟨isKey ▸ length_receiptKey _, fits _ (List.mem_of_getElem? found)⟩
  obtain ⟨trie, puts, isRoot⟩ := run_spec (prefixFree_receiptPuts 0 receipts)
    (fun put present => ⟨(fitsPuts put present).1.trans_lt (by decide), (fitsPuts put present).2⟩)
    (countsAll_of_short fun put present => (fitsPuts put present).1.trans_lt (by decide))
  exact ⟨trie, _, by rw [putReceipts_eq, puts], isListMap_write small, isRoot⟩

end Trie

open Trie Decentagram.Lib Decentagram.Lib.MerklePatricia

/-- The codec whose trie is a `PatriciaTrie`.  An access out of range has no meaning. -/
def ReceiptsCodec.ofTrie (fromBytes : Bytes → Except Exception Receipt) : ReceiptsCodec where
  fromBytes
  trieHash receipts :=
    match putReceipts 0 .null receipts with
    | some trie => .ok (PatriciaTrie.hash trie)
    | none => .error "Undefined behaviour"

/-- The one root that the map has by definition. -/
def HasRoot (map : Map) (hash : Bytes) : Prop := ∀ root, IsRoot Node.calcHash map root ↔ root = hash

theorem hasRoot_of_isRoot {map : Map} {hash : Bytes} (isRoot : IsRoot Node.calcHash map hash) :
    HasRoot map hash := by
  intro root
  constructor
  · exact fun isRoot' => isRoot'.unique isRoot
  · intro same
    rwa [same]

theorem HasRoot.unique {map : Map} {left right : Bytes} (hasLeft : HasRoot map left)
    (hasRight : HasRoot map right) : left = right :=
  (hasRight left).mp ((hasLeft left).mpr rfl)

/-- Keys that do not start with one another, and vectors that can exist. -/
structure Admissible (puts : List (Bytes × Bytes)) : Prop where
  prefixFree : PrefixFree (puts.map Prod.fst)
  fits : ∀ put ∈ puts, FitsPut put.1 put.2

theorem exists_mapM {fromBytes : Bytes → Except Exception Receipt} {receipts : List Bytes}
    (parses : ∀ receipt ∈ receipts, ∃ parsed, fromBytes receipt = .ok parsed) :
    ∃ parsed, receipts.mapM fromBytes = .ok parsed := by
  induction receipts with
  | nil => exact ⟨[], rfl⟩
  | cons receipt receipts inductionHypothesis =>
    rw [List.forall_mem_cons] at parses
    obtain ⟨first, isFirst⟩ := parses.1
    obtain ⟨rest, isRest⟩ := inductionHypothesis parses.2
    exact ⟨first :: rest, by rw [List.mapM_cons, isFirst, ok_bind, isRest, ok_bind]; rfl⟩

theorem ofReceipts_ofTrie {fromBytes : Bytes → Except Exception Receipt} {receipts : List Bytes}
    (small : receipts.length ≤ 2 ^ 64) (fits : ∀ receipt ∈ receipts, receipt.length < 2 ^ 63)
    (parses : ∀ receipt ∈ receipts, ∃ parsed, fromBytes receipt = .ok parsed) :
    ∃ receiptsMgr map, ReceiptsMgr.ofReceipts (.ofTrie fromBytes) receipts = .ok receiptsMgr ∧
      IsListMap receipts map ∧ HasRoot map receiptsMgr.rootHashBytes := by
  obtain ⟨trie, map, puts, isMap, isRoot⟩ := receipts_spec small fits
  obtain ⟨parsed, allParse⟩ := exists_mapM parses
  refine ⟨{ receipts := parsed, rootHashBytes := PatriciaTrie.hash trie }, map, ?_, isMap,
    hasRoot_of_isRoot isRoot⟩
  simp only [ReceiptsMgr.ofReceipts, ReceiptsCodec.ofTrie, allParse, ok_bind, puts]
  rfl

theorem exists_root {puts : List (Bytes × Bytes)} (admissible : Admissible puts)
    (counts : CountsAll .null puts) :
    ∃ trie, PatriciaTrie.putAll .null puts = some trie ∧
      HasRoot (write emptyMap puts) (PatriciaTrie.hash trie) := by
  obtain ⟨trie, putsAll, isRoot⟩ := run_spec admissible.prefixFree admissible.fits counts
  exact ⟨trie, putsAll, hasRoot_of_isRoot isRoot⟩

/-- The root of the receipts is that of the map of their positions.  In general the tries of a run are the
    canonical ones exactly where the counter of matched nibbles holds, and then the root is that of the
    map that has been written, whatever the order. -/
theorem canonical_root (puts : List (Bytes × Bytes)) (admissible : Admissible puts) :
    (CountsAll .null puts ↔ CanonicalRun .null puts) ∧
    (CountsAll .null puts →
      ∃ trie, PatriciaTrie.putAll .null puts = some trie ∧
        HasRoot (write emptyMap puts) (PatriciaTrie.hash trie)) ∧
    (CountsAll .null puts → ∀ puts', Admissible puts' → CountsAll .null puts' →
      write emptyMap puts = write emptyMap puts' →
        (PatriciaTrie.putAll .null puts).map PatriciaTrie.hash =
          (PatriciaTrie.putAll .null puts').map PatriciaTrie.hash) ∧
    ∀ (fromBytes : Bytes → Except Exception Receipt) (receipts : List Bytes),
      receipts.length ≤ 2 ^ 64 → (∀ receipt ∈ receipts, receipt.length < 2 ^ 63) →
        (∀ receipt ∈ receipts, ∃ parsed, fromBytes receipt = .ok parsed) →
          ∃ receiptsMgr map, ReceiptsMgr.ofReceipts (.ofTrie fromBytes) receipts = .ok receiptsMgr ∧
            IsListMap receipts map ∧ HasRoot map receiptsMgr.rootHashBytes := by
  refine ⟨countsAll_iff admissible.prefixFree admissible.fits, exists_root admissible, ?_,
    fun _ _ small fits parses => ofReceipts_ofTrie small fits parses⟩
  intro counts puts' admissible' counts' sameMap
  obtain ⟨trie, putsAll, hasRoot⟩ := exists_root admissible counts
  obtain ⟨trie', putsAll', hasRoot'⟩ := exists_root admissible' counts'
  rw [sameMap] at hasRoot
  rw [putsAll, putsAll', Option.map_some, Option.map_some, hasRoot.unique hasRoot']

theorem canonical_root_sample :
    (PatriciaTrie.putAll .null [([0x12], [1]), ([0x34], [2])]).map PatriciaTrie.hash =
      (PatriciaTrie.putAll .null [([0x34], [2]), ([0x12], [1])]).map PatriciaTrie.hash ∧
    ∃ receiptsMgr map,
      ReceiptsMgr.ofReceipts (.ofTrie fun _ => .ok { logEntries := [] }) [[1, 2], [3]] = .ok receiptsMgr ∧
        IsListMap [[1, 2], [3]] map ∧ HasRoot map receiptsMgr.rootHashBytes := by
  obtain ⟨_, _, orders, receipts⟩ :=
    canonical_root [([0x12], [1]), ([0x34], [2])] ⟨by decide, by decide⟩
  constructor
  · apply orders (countsAll_of_short (by decide)) _ ⟨by decide, by decide⟩
      (countsAll_of_short (by decide))
    apply map_ext
    intro path value
    rw [write_eq_some (by decide), write_eq_some (by decide)]
    simp [or_comm]
  · apply receipts _ _ (by decide) (by decide)
    exact fun receipt _ => ⟨{ logEntries := [] }, rfl⟩

def longKey : Bytes := List.replicate 128 0

/-- A key of 256 nibbles is not found where it was put before: the same `Put` leaves another root the
    second time. -/
theorem root_depends_on_puts :
    Admissible [(longKey, [1]), (longKey, [1])] ∧
      write emptyMap [(longKey, [1]), (longKey, [1])] = write emptyMap [(longKey, [1])] ∧
      (PatriciaTrie.putAll .null [(longKey, [1]), (longKey, [1])]).map PatriciaTrie.hash ≠
        (PatriciaTrie.putAll .null [(longKey, [1])]).map PatriciaTrie.hash := by
  refine ⟨⟨?_, ?_⟩, ?_, by decide +kernel⟩
  · simp [PrefixFree]
  · simp [FitsPut, longKey]
  · funext path
    by_cases isKey : path = nibbles longKey <;> simp [write, MerklePatricia.insert, isKey]

end Decentagram.Eth
