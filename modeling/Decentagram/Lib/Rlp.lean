import Decentagram.Lib.BigEndian

/-! # Recursive length prefixes

The encodings of byte strings and lists of them: which byte strings encode an object, and which of these
encodings are the shortest.
-/

namespace Decentagram.Lib.Rlp

inductive Object where
  | bytes (val : List UInt8)
  | list (val : List Object)
deriving Repr

/-- The headers of a payload: one byte for up to 55 bytes, or a byte for the width of the size and then
    the size.  Where only the shortest form will do, the second is for larger sizes without a zero in
    front. -/
inductive Header (shortest : Bool) (shortBase longBase : UInt8) (size : Nat) : List UInt8 → Prop where
  | short (fits : size ≤ 55) : Header shortest shortBase longBase size [shortBase + UInt8.ofNat size]
  | long {sizeBytes : List UInt8} (nonempty : 0 < sizeBytes.length) (fits : sizeBytes.length ≤ 8)
      (isSize : BigEndian.value sizeBytes = size)
      (needed : shortest = true → 55 < size ∧ sizeBytes.head? ≠ some 0) :
      Header shortest shortBase longBase size
        ((longBase + UInt8.ofNat sizeBytes.length) :: sizeBytes)

/-- A single byte that is its own encoding. -/
def isByte : List UInt8 → Bool
  | [byte] => byte ≤ 0x7F
  | _ => false

mutual

/-- A byte string that encodes an object; in the shortest form, a byte that is its own encoding has no
    header. -/
inductive Encodes (shortest : Bool) : List UInt8 → Object → Prop where
  | byte {byte : UInt8} (small : byte ≤ 0x7F) : Encodes shortest [byte] (.bytes [byte])
  | bytes {header payload : List UInt8} (isHeader : Header shortest 0x80 0xB7 payload.length header)
      (needed : shortest = true → isByte payload = false) :
      Encodes shortest (header ++ payload) (.bytes payload)
  | list {header body : List UInt8} {items : List Object}
      (isHeader : Header shortest 0xC0 0xF7 body.length header)
      (inner : EncodesAll shortest body items) : Encodes shortest (header ++ body) (.list items)

inductive EncodesAll (shortest : Bool) : List UInt8 → List Object → Prop where
  | nil : EncodesAll shortest [] []
  | cons {first rest : List UInt8} {object : Object} {objects : List Object}
      (head : Encodes shortest first object) (tail : EncodesAll shortest rest objects) :
      EncodesAll shortest (first ++ rest) (object :: objects)

end

/-- No header of the encoding could be shorter. -/
def Shortest (encoding : List UInt8) : Prop := ∃ object, Encodes true encoding object

variable {shortest : Bool} {shortBase longBase : UInt8} {size : Nat} {header : List UInt8}

theorem Header.ne_nil (isHeader : Header shortest shortBase longBase size header) : header ≠ [] := by
  cases isHeader <;> simp

theorem header_cons_iff {first : UInt8} {sizeBytes : List UInt8} :
    Header shortest shortBase longBase size (first :: sizeBytes) ↔
      (size ≤ 55 ∧ first = shortBase + UInt8.ofNat size ∧ sizeBytes = []) ∨
      (0 < sizeBytes.length ∧ sizeBytes.length ≤ 8 ∧
        first = longBase + UInt8.ofNat sizeBytes.length ∧ BigEndian.value sizeBytes = size ∧
        (shortest = true → 55 < size ∧ sizeBytes.head? ≠ some 0)) := by
  constructor
  · intro isHeader
    cases isHeader with
    | short fits => exact .inl ⟨fits, rfl, rfl⟩
    | long nonempty fits isSize needed => exact .inr ⟨nonempty, fits, rfl, isSize, needed⟩
  · intro forms
    cases forms with
    | inl short =>
      obtain ⟨fits, rfl, rfl⟩ := short
      exact .short fits
    | inr long =>
      obtain ⟨nonempty, fits, rfl, isSize, needed⟩ := long
      exact .long nonempty fits isSize needed

theorem Header.loosen (isHeader : Header true shortBase longBase size header) :
    Header false shortBase longBase size header := by
  cases isHeader with
  | short fits => exact .short fits
  | long nonempty fits isSize needed => exact .long nonempty fits isSize (by simp)

/-- There is one shortest header for each size. -/
theorem Header.unique {header' : List UInt8} (isHeader : Header true shortBase longBase size header)
    (isHeader' : Header true shortBase longBase size header') : header = header' := by
  cases isHeader with
  | short fits =>
    cases isHeader' with
    | short => rfl
    | long nonempty fits' isSize needed =>
      have large := (needed rfl).1
      omega
  | long nonempty fits isSize needed =>
    obtain ⟨large, noZero⟩ := needed rfl
    cases isHeader' with
    | short fits' => omega
    | long nonempty' fits' isSize' needed' =>
      rw [BigEndian.eq_of_minimal noZero (needed' rfl).2 (isSize.trans isSize'.symm)]

theorem Encodes.ne_nil {encoding : List UInt8} {object : Object}
    (encodes : Encodes shortest encoding object) : encoding ≠ [] := by
  cases encodes with
  | byte small => simp
  | bytes isHeader needed => simp [isHeader.ne_nil]
  | list isHeader inner => simp [isHeader.ne_nil]

/-- An encoding by its first byte. -/
theorem encodes_cons_iff {first : UInt8} {rest : List UInt8} {object : Object} :
    Encodes shortest (first :: rest) object ↔
      (first ≤ 0x7F ∧ rest = [] ∧ object = .bytes [first]) ∨
      (∃ sizeBytes payload, Header shortest 0x80 0xB7 payload.length (first :: sizeBytes) ∧
        (shortest = true → isByte payload = false) ∧ rest = sizeBytes ++ payload ∧
        object = .bytes payload) ∨
      ∃ sizeBytes body items, Header shortest 0xC0 0xF7 body.length (first :: sizeBytes) ∧
        EncodesAll shortest body items ∧ rest = sizeBytes ++ body ∧ object = .list items := by
  constructor
  · intro encodes
    generalize isEncoding : first :: rest = encoding at encodes
    cases encodes with
    | byte small =>
      cases isEncoding
      exact .inl ⟨small, rfl, rfl⟩
    | @bytes header payload isHeader needed =>
      obtain ⟨byte, sizeBytes, rfl⟩ := List.exists_cons_of_ne_nil isHeader.ne_nil
      cases isEncoding
      exact .inr (.inl ⟨sizeBytes, payload, isHeader, needed, rfl, rfl⟩)
    | @list header body items isHeader inner =>
      obtain ⟨byte, sizeBytes, rfl⟩ := List.exists_cons_of_ne_nil isHeader.ne_nil
      cases isEncoding
      exact .inr (.inr ⟨sizeBytes, body, items, isHeader, inner, rfl, rfl⟩)
  · intro forms
    rcases forms with ⟨small, rfl, rfl⟩ | ⟨sizeBytes, payload, isHeader, needed, rfl, rfl⟩ |
      ⟨sizeBytes, body, items, isHeader, inner, rfl, rfl⟩
    · exact .byte small
    · exact .bytes isHeader needed
    · exact .list isHeader inner

theorem isByte_singleton {byte : UInt8} : isByte [byte] = true ↔ byte ≤ 0x7F := by
  simp [isByte]

mutual

/-- There is one shortest encoding of each object. -/
theorem Encodes.unique {left right : List UInt8} {object : Object} (encodes : Encodes true left object)
    (encodes' : Encodes true right object) : left = right :=
  match encodes with
  | .byte small => by
    cases encodes' with
    | byte => rfl
    | bytes isHeader needed => simp [isByte_singleton.mpr small] at needed
  | .bytes isHeader needed => by
    cases encodes' with
    | byte small => simp [isByte_singleton.mpr small] at needed
    | bytes isHeader' needed' => rw [isHeader.unique isHeader']
  | .list isHeader inner => by
    cases encodes' with
    | list isHeader' inner' =>
      have same := inner.unique inner'
      subst same
      rw [isHeader.unique isHeader']

theorem EncodesAll.unique {left right : List UInt8} {objects : List Object}
    (encodes : EncodesAll true left objects) (encodes' : EncodesAll true right objects) : left = right :=
  match encodes with
  | .nil => by
    cases encodes' with
    | nil => rfl
  | .cons head tail => by
    cases encodes' with
    | cons head' tail' => rw [head.unique head', tail.unique tail']

end

mutual

theorem Encodes.loosen {encoding : List UInt8} {object : Object}
    (encodes : Encodes true encoding object) : Encodes false encoding object :=
  match encodes with
  | .byte small => .byte small
  | .bytes isHeader _ => .bytes isHeader.loosen (by simp)
  | .list isHeader inner => .list isHeader.loosen inner.loosen

theorem EncodesAll.loosen {body : List UInt8} {objects : List Object}
    (encodes : EncodesAll true body objects) : EncodesAll false body objects :=
  match encodes with
  | .nil => .nil
  | .cons head tail => .cons head.loosen tail.loosen

end

end Decentagram.Lib.Rlp
