import Decentagram.RaOnchain.X509CertNodes

/-! # The signature of a certificate

`extractSignRS` takes the two integers of an ECDSA signature off a certificate.  DER writes an integer
with as few bytes as it needs, and the reader wants 32 of them.
-/

namespace Decentagram.RaOnchain

open Decentagram.Lib Asn1Decode BytesUtils

namespace LibSecp256k1Sha256

/-- The order of the group. -/
def groupOrder : Nat := 0xFFFFFFFFFFFFFFFFFFFFFFFFFFFFFFFEBAAEDCE6AF48A03BBFD25E8CD0364141

def extractSignRS (certNodes : CertNodesObj) (certDer : Bytes) :
    Except Revert (Bytes32 × Bytes32) := do
  let signBytes ← bitstringAt certDer certNodes.sigNode
  let rNode ← firstChildOf signBytes (← root signBytes)
  let sNode ← nextSiblingOf signBytes rNode
  let rBytes ← uintBytesAt signBytes rNode
  let sBytes ← uintBytesAt signBytes sNode
  let r ← readBytes32 rBytes 0
  let s ← readBytes32 sBytes 0
  return (r, s)

end LibSecp256k1Sha256

/-! ## DER -/

/-- The bytes of a number below `2 ^ 256` without zeros in front. -/
def magnitude (n : Nat) : Bytes := (BigEndian.digits 32 n).dropWhile fun byte => byte = 0

/-- A zero keeps the number positive where the highest bit is set. -/
def integerContent (n : Nat) : Bytes :=
  match magnitude n with
  | [] => [0]
  | byte :: rest => if byte &&& 0x80 = 0 then byte :: rest else 0 :: byte :: rest

/-- An element of less than 128 content bytes. -/
def derElement (tag : UInt8) (content : Bytes) : Bytes :=
  tag :: UInt8.ofNat content.length :: content

/-- `SEQUENCE { INTEGER r, INTEGER s }`. -/
def derSignature (r s : Nat) : Bytes :=
  derElement 0x30 (derElement 0x02 (integerContent r) ++ derElement 0x02 (integerContent s))

theorem length_magnitude_le (n : Nat) : (magnitude n).length ≤ 32 := by
  have shorter : (magnitude n).length ≤ (BigEndian.digits 32 n).length :=
    (List.dropWhile_sublist _).length_le
  rwa [BigEndian.length_digits] at shorter

theorem value_magnitude {n : Nat} (small : n < 2 ^ 256) : BigEndian.value (magnitude n) = n := by
  rw [magnitude, BigEndian.value_dropWhile, BigEndian.value_digits]
  exact Nat.mod_eq_of_lt small

theorem head_magnitude_ne_zero {n : Nat} {byte : UInt8} {rest : Bytes}
    (isMagnitude : magnitude n = byte :: rest) : byte ≠ 0 := by
  have head := List.head?_dropWhile_not (fun byte : UInt8 => decide (byte = 0)) (BigEndian.digits 32 n)
  rw [← magnitude, isMagnitude] at head
  simpa using head

/-- All 32 bytes are needed for the numbers from `2 ^ 248` on. -/
theorem length_magnitude_eq_iff {n : Nat} (small : n < 2 ^ 256) :
    (magnitude n).length = 32 ↔ 2 ^ 248 ≤ n := by
  have value := value_magnitude small
  constructor
  · intro isLong
    cases isMagnitude : magnitude n with
    | nil => simp [isMagnitude] at isLong
    | cons byte rest =>
      rw [isMagnitude, List.length_cons] at isLong
      have large := @BigEndian.pow_le_value byte rest (head_magnitude_ne_zero isMagnitude)
      rw [← isMagnitude, value, show rest.length = 31 by omega] at large
      exact large
  · intro large
    have bound := BigEndian.value_lt (magnitude n)
    rw [value] at bound
    have powers : 256 ^ 31 < 256 ^ (magnitude n).length := Nat.lt_of_le_of_lt large bound
    have longer := (Nat.pow_lt_pow_iff_right (by decide)).mp powers
    have shorter := length_magnitude_le n
    omega

/-- The content of an integer is its magnitude, or its magnitude behind a zero. -/
theorem integerContent_cases (n : Nat) : ∃ byte rest, integerContent n = byte :: rest ∧
    byte &&& 0x80 = 0 ∧ (byte = 0 ∧ rest = magnitude n ∨ byte ≠ 0 ∧ byte :: rest = magnitude n) := by
  unfold integerContent
  cases isMagnitude : magnitude n with
  | nil => exact ⟨0, [], rfl, by decide, .inl ⟨rfl, rfl⟩⟩
  | cons byte rest =>
    by_cases positive : byte &&& 0x80 = 0
    · have notZero := head_magnitude_ne_zero isMagnitude
      exact ⟨byte, rest, if_pos positive, positive, .inr ⟨notZero, rfl⟩⟩
    · exact ⟨0, byte :: rest, if_neg positive, by decide, .inl ⟨rfl, rfl⟩⟩

theorem length_integerContent_le (n : Nat) : (integerContent n).length ≤ 33 := by
  have bound := length_magnitude_le n
  obtain ⟨byte, rest, isContent, -, ⟨-, rfl⟩ | ⟨-, isMagnitude⟩⟩ := integerContent_cases n
  · rw [isContent, List.length_cons]
    omega
  · rw [isContent, isMagnitude]
    omega

/-! ## Elements -/

theorem slice_append (front middle back : Bytes) :
    slice (front ++ middle ++ back) front.length middle.length = middle := by
  simp [slice]

/-- A pointer to an element with its tag and content. -/
structure NodeAt (der : Bytes) (ptr start : Nat) (tag : UInt8) (content : Bytes) : Prop where
  ixs : NodePtr.ixs ptr = start
  ixf : NodePtr.ixf ptr = start + 2
  ixl : NodePtr.ixl ptr = start + 1 + content.length
  isTag : der[start]? = some tag
  inside : start + 2 + content.length ≤ der.length
  isContent : slice der (start + 2) content.length = content
  small : der.length < 2 ^ 64

theorem readNodeLength_element {front back content : Bytes} {tag : UInt8}
    (short : content.length < 128)
    (small : (front ++ derElement tag content ++ back).length < 2 ^ 64) :
    ∃ ptr, readNodeLength (front ++ derElement tag content ++ back) front.length = .ok ptr ∧
      NodeAt (front ++ derElement tag content ++ back) ptr front.length tag content := by
  have length : (front ++ derElement tag content ++ back).length =
      front.length + 2 + content.length + back.length := by
    simp only [derElement, List.length_append, List.length_cons]
    omega
  have value : (UInt8.ofNat content.length).toNat = content.length := by
    rw [UInt8.toNat_ofNat']
    omega
  have lengthByte : (front ++ derElement tag content ++ back)[front.length + 1]? =
      some (UInt8.ofNat content.length) := by
    simp [derElement]
  have header : headerAt (front ++ derElement tag content ++ back) front.length =
      some (front.length + 2, content.length) := by
    rw [headerAt, lengthByte, Option.bind_some, value, if_pos short]
  have points := pointsTo_getPtr small header
  have last : uint80 (front.length + 2 + content.length - 1) = front.length + 1 + content.length := by
    rw [uint80, Nat.mod_eq_of_lt (by omega)]
    omega
  refine ⟨_, (readNodeLength_eq_ok small).mpr ⟨_, _, header, by omega, rfl⟩, points.ixs, points.ixf,
    points.ixl.trans last, by simp [derElement], by omega, ?_, small⟩
  have split : front ++ derElement tag content ++ back =
      (front ++ [tag, UInt8.ofNat content.length]) ++ content ++ back := by
    simp [derElement]
  rw [split, show front.length + 2 = (front ++ [tag, UInt8.ofNat content.length]).length by simp]
  exact slice_append _ _ _

namespace NodeAt

variable {der content : Bytes} {ptr start : Nat} {tag : UInt8}

theorem valueLength (node : NodeAt der ptr start tag content) :
    Asn1Decode.valueLength ptr = .ok content.length := by
  have inside := node.inside
  have small := node.small
  simp only [Asn1Decode.valueLength, bind_eq_ok, add_eq_ok, sub_eq_ok, node.ixl, node.ixf]
  exact ⟨_, ⟨by omega, rfl⟩, by omega, by omega⟩

theorem tagAt (node : NodeAt der ptr start tag content) :
    byteAt der (NodePtr.ixs ptr) = .ok tag := by
  rw [node.ixs, byteAt_eq_ok]
  exact node.isTag

/-- The content from its second byte on. -/
theorem slice_tail {byte : UInt8} {rest : Bytes} (node : NodeAt der ptr start tag (byte :: rest)) :
    slice der (start + 2 + 1) rest.length = rest := by
  have isContent := node.isContent
  rw [slice, List.length_cons] at isContent
  have tail := congrArg List.tail isContent
  rwa [List.tail_cons, ← List.drop_one, List.drop_take, List.drop_drop, Nat.add_sub_cancel] at tail

theorem firstByteAt {byte : UInt8} {rest : Bytes} (node : NodeAt der ptr start tag (byte :: rest)) :
    byteAt der (NodePtr.ixf ptr) = .ok byte := by
  have head := congrArg (·[0]?) node.isContent
  rw [node.ixf, byteAt_eq_ok]
  simpa [slice] using head

/-- The bytes of an integer without the zero that keeps it positive. -/
theorem uintBytesAt {n : Nat} (node : NodeAt der ptr start 0x02 (integerContent n)) :
    Asn1Decode.uintBytesAt der ptr = .ok (magnitude n) := by
  obtain ⟨byte, rest, isContent, positive, magnitude⟩ := integerContent_cases n
  rw [isContent] at node
  have inside := node.inside
  have small := node.small
  rw [List.length_cons] at inside
  simp only [Asn1Decode.uintBytesAt, node.tagAt, node.firstByteAt, node.valueLength, ok_bind]
  simp only [bind_eq_ok, require_eq_ok, exists_unit, true_and, positive]
  cases magnitude with
  | inl padded =>
    obtain ⟨isZero, isMagnitude⟩ := padded
    rw [if_pos isZero]
    simp only [bind_eq_ok, add_eq_ok, sub_eq_ok, substringUnsafe_eq_ok, node.ixf, List.length_cons]
    refine ⟨_, ⟨by omega, rfl⟩, _, ⟨by omega, rfl⟩, by omega, by omega, ?_⟩
    rw [Nat.add_sub_cancel, node.slice_tail, isMagnitude]
  | inr plain =>
    obtain ⟨notZero, isMagnitude⟩ := plain
    rw [if_neg notZero, substringUnsafe_eq_ok, node.ixf, List.length_cons]
    refine ⟨by omega, by omega, ?_⟩
    rw [← isMagnitude, ← List.length_cons (a := byte), node.isContent]

end NodeAt

/-! ## The signature -/

/-- A magnitude is read as a word if it has all the bytes of one. -/
theorem readBytes32_magnitude {n : Nat} (small : n < 2 ^ 256) {word : Bytes32} :
    readBytes32 (magnitude n) 0 = .ok word ↔ 2 ^ 248 ≤ n ∧ word = BitVec.ofNat 256 n := by
  rw [readBytes32_eq_ok, ← length_magnitude_eq_iff small]
  have bound := length_magnitude_le n
  have whole : slice (magnitude n) 0 32 = magnitude n := by
    rw [slice, List.drop_zero, List.take_of_length_le bound]
  rw [whole, value_magnitude small]
  constructor
  · rintro ⟨-, isLong, isWord⟩
    exact ⟨by omega, isWord⟩
  · rintro ⟨isLong, isWord⟩
    exact ⟨by decide, by omega, isWord⟩

/-- The pointers to the sequence and to the two integers of a signature. -/
structure SignatureNodes (der : Bytes) (r s : Nat) (seqNode rNode sNode : Nat) : Prop where
  root : Asn1Decode.root der = .ok seqNode
  first : firstChildOf der seqNode = .ok rNode
  second : nextSiblingOf der rNode = .ok sNode
  rStart : ∃ start, NodeAt der rNode start 0x02 (integerContent r)
  sStart : ∃ start, NodeAt der sNode start 0x02 (integerContent s)

theorem signatureNodes (r s : Nat) :
    ∃ seqNode rNode sNode, SignatureNodes (derSignature r s) r s seqNode rNode sNode := by
  have rLength := length_integerContent_le r
  have sLength := length_integerContent_le s
  let rElement := derElement 0x02 (integerContent r)
  let sElement := derElement 0x02 (integerContent s)
  let header : Bytes := [0x30, UInt8.ofNat (rElement ++ sElement).length]
  have lengths : rElement.length = 2 + (integerContent r).length ∧
      sElement.length = 2 + (integerContent s).length := by
    simp only [rElement, sElement, derElement, List.length_cons]
    omega
  have isSequence : derSignature r s = [] ++ derElement 0x30 (rElement ++ sElement) ++ [] := by
    simp [derSignature, rElement, sElement]
  have isFirst : derSignature r s = header ++ rElement ++ sElement := by
    simp [derSignature, derElement, header, rElement, sElement]
  have isSecond : derSignature r s = (header ++ rElement) ++ sElement ++ [] := by
    rw [isFirst, List.append_nil]
  have small : (derSignature r s).length < 2 ^ 64 := by
    simp only [isFirst, List.length_append, lengths, header, List.length_cons, List.length_nil]
    omega
  obtain ⟨seqNode, readSeq, seq⟩ := readNodeLength_element
    (show (rElement ++ sElement).length < 128 by rw [List.length_append]; omega) (isSequence ▸ small)
  obtain ⟨rNode, readR, first⟩ := readNodeLength_element
    (show (integerContent r).length < 128 by omega) (isFirst ▸ small)
  obtain ⟨sNode, readS, second⟩ := readNodeLength_element
    (show (integerContent s).length < 128 by omega) (isSecond ▸ small)
  rw [← isSequence] at readSeq seq
  rw [← isFirst] at readR first
  rw [← isSecond] at readS second
  refine ⟨seqNode, rNode, sNode, readSeq, ?_, ?_, ⟨_, first⟩, ⟨_, second⟩⟩
  · simp only [firstChildOf, bind_eq_ok, seq.tagAt, require_eq_ok, exists_unit, Except.ok.injEq]
    refine ⟨_, rfl, by decide, ?_⟩
    rw [seq.ixf]
    exact readR
  · simp only [nextSiblingOf, bind_eq_ok, add_eq_ok, first.ixl]
    refine ⟨_, ⟨?_, rfl⟩, ?_⟩
    · simp [header]
      omega
    · have place : header.length + 1 + (integerContent r).length + 1 = (header ++ rElement).length := by
        rw [List.length_append, lengths.1]
        omega
      rw [place]
      exact readS

namespace LibSecp256k1Sha256

/-- What is read off a signature. -/
theorem extractSignRS_eq_ok {certNodes : CertNodesObj} {certDer : Bytes} {r s : Nat}
    (rSmall : r < 2 ^ 256) (sSmall : s < 2 ^ 256)
    (signed : bitstringAt certDer certNodes.sigNode = .ok (derSignature r s)) {words : Bytes32 × Bytes32} :
    extractSignRS certNodes certDer = .ok words ↔
      2 ^ 248 ≤ r ∧ 2 ^ 248 ≤ s ∧ words = (BitVec.ofNat 256 r, BitVec.ofNat 256 s) := by
  obtain ⟨seqNode, rNode, sNode, nodes⟩ := signatureNodes r s
  obtain ⟨_, first⟩ := nodes.rStart
  obtain ⟨_, second⟩ := nodes.sStart
  simp only [extractSignRS, signed, nodes.root, nodes.first, nodes.second, first.uintBytesAt,
    second.uintBytesAt, ok_bind]
  simp only [bind_eq_ok, readBytes32_magnitude rSmall, readBytes32_magnitude sSmall, pure_eq_ok]
  constructor
  · rintro ⟨_, ⟨rLarge, rfl⟩, _, ⟨sLarge, rfl⟩, rfl⟩
    exact ⟨rLarge, sLarge, rfl⟩
  · rintro ⟨rLarge, sLarge, rfl⟩
    exact ⟨_, ⟨rLarge, rfl⟩, _, ⟨sLarge, rfl⟩, rfl⟩

/-- A signature is read off a certificate as the two numbers that were written just when both have all
    32 bytes of a word without the zeros in front. -/
theorem extractSignRS_exact_iff {certNodes : CertNodesObj} {certDer : Bytes} {r s : Nat}
    (rRange : 1 ≤ r ∧ r < groupOrder) (sRange : 1 ≤ s ∧ s < groupOrder)
    (signed : bitstringAt certDer certNodes.sigNode = .ok (derSignature r s)) :
    extractSignRS certNodes certDer = .ok (BitVec.ofNat 256 r, BitVec.ofNat 256 s) ↔
      2 ^ 248 ≤ r ∧ 2 ^ 248 ≤ s := by
  have order : groupOrder < 2 ^ 256 := by decide
  rw [extractSignRS_eq_ok (rRange.2.trans order) (sRange.2.trans order) signed]
  simp

/-- A certificate that is nothing but the bit string of its signature. -/
def bareCert (r s : Nat) : Bytes := derElement 0x03 (0x00 :: derSignature r s)

def bareNodes (r s : Nat) : CertNodesObj where
  root := 0
  tbs := ⟨0, 2, 0, 0, 0, 0, 0, 0, 0⟩
  algTypeNode := 0
  sigNode := NodePtr.getPtr 0 2 (2 + (derSignature r s).length)

theorem extractSignRS_exact_iff_large :
    extractSignRS (bareNodes (2 ^ 255 + 5) (2 ^ 248)) (bareCert (2 ^ 255 + 5) (2 ^ 248)) =
      .ok (BitVec.ofNat 256 (2 ^ 255 + 5), BitVec.ofNat 256 (2 ^ 248)) := by
  have signed : bitstringAt (bareCert (2 ^ 255 + 5) (2 ^ 248))
      (bareNodes (2 ^ 255 + 5) (2 ^ 248)).sigNode = .ok (derSignature (2 ^ 255 + 5) (2 ^ 248)) := by
    decide +kernel
  exact (extractSignRS_exact_iff (by decide) (by decide) signed).mpr (by decide)

/-- The signature with `r = 2 ^ 248 - 1` and `s = 2 ^ 248` is refused. -/
theorem extractSignRS_refuses_short :
    bitstringAt (bareCert (2 ^ 248 - 1) (2 ^ 248)) (bareNodes (2 ^ 248 - 1) (2 ^ 248)).sigNode =
      .ok (derSignature (2 ^ 248 - 1) (2 ^ 248)) ∧
    extractSignRS (bareNodes (2 ^ 248 - 1) (2 ^ 248)) (bareCert (2 ^ 248 - 1) (2 ^ 248)) =
      .error (.reason "") := by
  decide +kernel

end LibSecp256k1Sha256

end Decentagram.RaOnchain
