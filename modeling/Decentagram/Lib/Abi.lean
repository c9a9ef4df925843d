import Decentagram.Lib.BigEndian

/-! # The contract ABI

The encodings of values in chunks of 32 bytes.  The parts of an array lie side by side; where a part's
size depends on its value, its place holds the distance to the part, which follows after all the places.
-/

namespace Decentagram.Lib.Abi

/-- `uint size` is a number of `size` bytes. -/
inductive Ty where
  | uint (size : Nat) (within : size ≤ 32)
  | bool
  | fixedBytes (size : Nat) (within : size ≤ 32)
  | bytes
  | array (item : Ty) (size : Nat)
  | dynArray (item : Ty)

def Ty.Value : Ty → Type
  | .uint size _ => BitVec (8 * size)
  | .bool => Bool
  | .fixedBytes _ _ => List UInt8
  | .bytes => List UInt8
  | .array item _ => List item.Value
  | .dynArray item => List item.Value

def Ty.dynamic : Ty → Bool
  | .uint _ _ => false
  | .bool => false
  | .fixedBytes _ _ => false
  | .bytes => true
  | .array item _ => item.dynamic
  | .dynArray _ => true

/-- The value has the sizes its type says, and those that the type leaves open are below `limit`. -/
def HasType (limit : Nat) : (type : Ty) → type.Value → Prop
  | .uint _ _, _ => True
  | .bool, _ => True
  | .fixedBytes size _, (val : List UInt8) => val.length = size
  | .bytes, (val : List UInt8) => val.length < limit
  | .array item size, (vals : List item.Value) =>
    vals.length = size ∧ ∀ val ∈ vals, HasType limit item val
  | .dynArray item, (vals : List item.Value) =>
    vals.length < limit ∧ ∀ val ∈ vals, HasType limit item val

instance decidableHasType (limit : Nat) :
    (type : Ty) → (val : type.Value) → Decidable (HasType limit type val)
  | .uint _ _, _ => inferInstanceAs (Decidable True)
  | .bool, _ => inferInstanceAs (Decidable True)
  | .fixedBytes size _, (val : List UInt8) => inferInstanceAs (Decidable (val.length = size))
  | .bytes, (val : List UInt8) => inferInstanceAs (Decidable (val.length < limit))
  | .array item size, (vals : List item.Value) =>
    have := decidableHasType limit item
    inferInstanceAs (Decidable (vals.length = size ∧ ∀ val ∈ vals, HasType limit item val))
  | .dynArray item, (vals : List item.Value) =>
    have := decidableHasType limit item
    inferInstanceAs (Decidable (vals.length < limit ∧ ∀ val ∈ vals, HasType limit item val))

/-! ## The encoding -/

structure Part where
  dynamic : Bool
  encoding : List UInt8

def Part.headSize (part : Part) : Nat := if part.dynamic then 32 else part.encoding.length

def headsSize (parts : List Part) : Nat := (parts.map Part.headSize).sum

/-- The places of the parts, where the first dynamic part is at `offset`. -/
def heads (offset : Nat) : List Part → List UInt8
  | [] => []
  | part :: parts =>
    if part.dynamic then BigEndian.digits 32 offset ++ heads (offset + part.encoding.length) parts
    else part.encoding ++ heads offset parts

def tails : List Part → List UInt8
  | [] => []
  | part :: parts => (if part.dynamic then part.encoding else []) ++ tails parts

def encodeParts (parts : List Part) : List UInt8 := heads (headsSize parts) parts ++ tails parts

/-- The parts of an array whose items are encoded by `encodeItem`. -/
def items {Item : Type} (dynamic : Bool) (encodeItem : Item → List UInt8) (vals : List Item) :
    List Part :=
  vals.map fun val => { dynamic, encoding := encodeItem val }

def encodeNat (val : Nat) : List UInt8 := BigEndian.digits 32 val

def encodeFixedBytes (val : List UInt8) : List UInt8 := val ++ List.replicate (32 - val.length) 0

/-- The size, and then the bytes with zeros up to the end of the last chunk. -/
def encodeBytes (val : List UInt8) : List UInt8 :=
  encodeNat val.length ++ (val ++ List.replicate ((32 - val.length % 32) % 32) 0)

def encode : (type : Ty) → type.Value → List UInt8
  | .uint _ _, (val : BitVec _) => encodeNat val.toNat
  | .bool, (val : Bool) => encodeNat val.toNat
  | .fixedBytes _ _, val => encodeFixedBytes val
  | .bytes, val => encodeBytes val
  | .array item _, vals => encodeParts (items item.dynamic (encode item) vals)
  | .dynArray item, (vals : List item.Value) =>
    encodeNat vals.length ++ encodeParts (items item.dynamic (encode item) vals)

def part (type : Ty) (val : type.Value) : Part := ⟨type.dynamic, encode type val⟩

/-! ## Sizes -/

@[simp] theorem headsSize_nil : headsSize [] = 0 := rfl

@[simp] theorem headsSize_cons (part : Part) (parts : List Part) :
    headsSize (part :: parts) = part.headSize + headsSize parts := rfl

@[simp] theorem length_heads (offset : Nat) (parts : List Part) :
    (heads offset parts).length = headsSize parts := by
  induction parts generalizing offset with
  | nil => rfl
  | cons part parts inductionHypothesis =>
    cases isDynamic : part.dynamic <;> simp [heads, Part.headSize, isDynamic, inductionHypothesis]

@[simp] theorem length_encodeNat (val : Nat) : (encodeNat val).length = 32 :=
  BigEndian.length_digits 32 val

theorem length_flatMap_encodeNat (vals : List Nat) :
    (vals.flatMap encodeNat).length = 32 * vals.length := by
  induction vals with
  | nil => rfl
  | cons val vals inductionHypothesis =>
    simp only [List.flatMap_cons, List.length_append, length_encodeNat, inductionHypothesis,
      List.length_cons]
    omega

theorem length_encodeFixedBytes {val : List UInt8} (within : val.length ≤ 32) :
    (encodeFixedBytes val).length = 32 := by
  simp [encodeFixedBytes, within]

theorem dvd_length_encodeBytes (val : List UInt8) : 32 ∣ (encodeBytes val).length := by
  simp only [encodeBytes, List.length_append, length_encodeNat, List.length_replicate]
  omega

theorem length_encodeParts (parts : List Part) :
    (encodeParts parts).length = headsSize parts + (tails parts).length := by
  simp [encodeParts]

/-- Every part is in the encoding. -/
theorem length_le_length_encodeParts (part : Part) {parts : List Part} (present : part ∈ parts) :
    part.encoding.length ≤ (encodeParts parts).length := by
  rw [length_encodeParts]
  induction parts with
  | nil => cases present
  | cons first parts inductionHypothesis =>
    simp only [headsSize_cons, tails, List.length_append]
    cases present with
    | head => cases isDynamic : part.dynamic <;> simp [Part.headSize, isDynamic] <;> omega
    | tail _ later =>
      have inRest := inductionHypothesis later
      omega

theorem length_item_le {Item : Type} {dynamic : Bool} {encodeItem : Item → List UInt8} {val : Item}
    {vals : List Item} (present : val ∈ vals) :
    (encodeItem val).length ≤ (encodeParts (items dynamic encodeItem vals)).length :=
  length_le_length_encodeParts ⟨dynamic, encodeItem val⟩ (List.mem_map_of_mem present)

theorem dvd_headsSize {parts : List Part} (aligned : ∀ part ∈ parts, 32 ∣ part.encoding.length) :
    32 ∣ headsSize parts := by
  induction parts with
  | nil => simp
  | cons part parts inductionHypothesis =>
    simp only [List.forall_mem_cons] at aligned
    have rest := inductionHypothesis aligned.2
    cases isDynamic : part.dynamic
    · simpa [Part.headSize, isDynamic] using Nat.dvd_add aligned.1 rest
    · simpa [Part.headSize, isDynamic] using rest

theorem dvd_length_tails {parts : List Part} (aligned : ∀ part ∈ parts, 32 ∣ part.encoding.length) :
    32 ∣ (tails parts).length := by
  induction parts with
  | nil => simp [tails]
  | cons part parts inductionHypothesis =>
    simp only [List.forall_mem_cons] at aligned
    have rest := inductionHypothesis aligned.2
    cases isDynamic : part.dynamic
    · simpa [tails, isDynamic] using rest
    · simpa [tails, isDynamic] using Nat.dvd_add aligned.1 rest

theorem dvd_length_items {Item : Type} {dynamic : Bool} {encodeItem : Item → List UInt8}
    {vals : List Item} (aligned : ∀ val ∈ vals, 32 ∣ (encodeItem val).length) :
    32 ∣ (encodeParts (items dynamic encodeItem vals)).length := by
  have parts : ∀ part ∈ items dynamic encodeItem vals, 32 ∣ part.encoding.length := by
    simpa [items] using aligned
  simpa [encodeParts] using Nat.dvd_add (dvd_headsSize parts) (dvd_length_tails parts)

/-- Every encoding is made of whole chunks. -/
theorem dvd_length_encode {limit : Nat} {type : Ty} {val : type.Value}
    (hasType : HasType limit type val) : 32 ∣ (encode type val).length := by
  induction type with
  | uint size within => simp [encode]
  | bool => simp [encode]
  | fixedBytes size within =>
    have sameLength : List.length val = size := hasType
    simp [encode, length_encodeFixedBytes (sameLength ▸ within)]
  | bytes => exact dvd_length_encodeBytes val
  | array item size inductionHypothesis =>
    exact dvd_length_items fun val present => inductionHypothesis (hasType.2 val present)
  | dynArray item inductionHypothesis =>
    have itemsAligned : 32 ∣ (encodeParts (items item.dynamic (encode item) val)).length :=
      dvd_length_items fun val present => inductionHypothesis (hasType.2 val present)
    simpa [encode] using itemsAligned

/-! ## Arrays -/

section

variable {Item : Type} (encodeItem : Item → List UInt8)

/-- Where the items are when the first one is at `offset`. -/
def offsets (offset : Nat) : List Item → List Nat
  | [] => []
  | val :: vals => offset :: offsets (offset + (encodeItem val).length) vals

@[simp] theorem length_offsets (offset : Nat) (vals : List Item) :
    (offsets encodeItem offset vals).length = vals.length := by
  induction vals generalizing offset with
  | nil => rfl
  | cons val vals inductionHypothesis => simp [offsets, inductionHypothesis]

theorem le_of_mem_offsets {offset place : Nat} {vals : List Item}
    (present : place ∈ offsets encodeItem offset vals) :
    place ≤ offset + (vals.flatMap encodeItem).length := by
  induction vals generalizing offset with
  | nil => cases present
  | cons val vals inductionHypothesis =>
    simp only [offsets, List.mem_cons] at present
    simp only [List.flatMap_cons, List.length_append]
    cases present with
    | inl first => omega
    | inr later =>
      have bound := inductionHypothesis later
      omega

theorem headsSize_dynamic (vals : List Item) :
    headsSize (items true encodeItem vals) = 32 * vals.length := by
  induction vals with
  | nil => rfl
  | cons val vals inductionHypothesis =>
    simp only [items, List.map_cons, headsSize_cons] at inductionHypothesis ⊢
    simp [inductionHypothesis, Part.headSize]
    omega

theorem heads_dynamic (offset : Nat) (vals : List Item) :
    heads offset (items true encodeItem vals) = (offsets encodeItem offset vals).flatMap encodeNat := by
  induction vals generalizing offset with
  | nil => rfl
  | cons val vals inductionHypothesis =>
    simpa [items, heads, offsets, encodeNat] using inductionHypothesis _

theorem tails_dynamic (vals : List Item) :
    tails (items true encodeItem vals) = vals.flatMap encodeItem := by
  induction vals with
  | nil => rfl
  | cons val vals inductionHypothesis => simpa [items, tails] using inductionHypothesis

theorem encodeParts_dynamic (vals : List Item) :
    encodeParts (items true encodeItem vals) =
      (offsets encodeItem (32 * vals.length) vals).flatMap encodeNat ++ vals.flatMap encodeItem := by
  rw [encodeParts, headsSize_dynamic, heads_dynamic, tails_dynamic]

theorem encodeParts_static (vals : List Item) :
    encodeParts (items false encodeItem vals) = vals.flatMap encodeItem := by
  simp only [encodeParts]
  generalize headsSize (items false encodeItem vals) = offset
  induction vals with
  | nil => rfl
  | cons val vals inductionHypothesis => simpa [items, heads, tails] using inductionHypothesis

end

/-! ## Where a part is -/

def Part.head (part : Part) (offset : Nat) : List UInt8 :=
  if part.dynamic then encodeNat offset else part.encoding

theorem heads_append (offset : Nat) (before after : List Part) :
    heads offset (before ++ after) =
      heads offset before ++ heads (offset + (tails before).length) after := by
  induction before generalizing offset with
  | nil => rfl
  | cons part parts inductionHypothesis =>
    cases isDynamic : part.dynamic <;> simp [heads, tails, isDynamic, inductionHypothesis, Nat.add_assoc]

theorem tails_append (before after : List Part) :
    tails (before ++ after) = tails before ++ tails after := by
  induction before with
  | nil => rfl
  | cons part parts inductionHypothesis => simp [tails, inductionHypothesis]

/-- Where the tail of the part after `before` is. -/
def place (before : List Part) (part : Part) (after : List Part) : Nat :=
  headsSize (before ++ part :: after) + (tails before).length

theorem heads_cons (offset : Nat) (part : Part) (parts : List Part) :
    ∃ more, heads offset (part :: parts) = part.head offset ++ more := by
  cases isDynamic : part.dynamic <;> simp [heads, Part.head, encodeNat, isDynamic]

theorem encodeParts_head (before : List Part) (part : Part) (after : List Part) :
    ∃ lead more,
      encodeParts (before ++ part :: after) = lead ++ (part.head (place before part after) ++ more) ∧
        lead.length = headsSize before := by
  obtain ⟨more, isHead⟩ := heads_cons (place before part after) part after
  refine ⟨heads (headsSize (before ++ part :: after)) before,
    more ++ tails (before ++ part :: after), ?_, ?_⟩
  · simp only [place] at isHead
    simp only [encodeParts, heads_append, isHead, place, List.append_assoc]
  · exact length_heads _ before

theorem encodeParts_tail (before : List Part) (part : Part) (after : List Part)
    (isDynamic : part.dynamic = true) :
    ∃ lead more, encodeParts (before ++ part :: after) = lead ++ (part.encoding ++ more) ∧
      lead.length = place before part after := by
  refine ⟨heads (headsSize (before ++ part :: after)) (before ++ part :: after) ++ tails before,
    tails after, ?_, ?_⟩
  · simp only [encodeParts, tails_append, tails, isDynamic, if_true, List.append_assoc]
  · rw [List.length_append, length_heads, place]

end Decentagram.Lib.Abi
