import Decentagram.SimpleRlp.Grammar
import Decentagram.SimpleRlp.Writer

/-! # The RLP round trip

What is written for an object is parsed as that object, to the last byte, and is as long as the writer said
beforehand, for the object and everything in it.
-/

namespace Decentagram.SimpleRlp

open Decentagram.Lib Decentagram.Lib.Rlp

/-- An object in a tree, at any level. -/
inductive Within (sub : Object) : Object → Prop where
  | self : Within sub sub
  | item {item : Object} {items : List Object} (member : item ∈ items) (inner : Within sub item) :
      Within sub (.list items)

theorem length_item_le {item : Object} {items : List Object} (member : item ∈ items) :
    (writeRlp item).length ≤ (writeItems items).length := by
  induction items with
  | nil => cases member
  | cons first rest inductionHypothesis =>
    rw [writeItems, List.length_append]
    cases member with
    | head => omega
    | tail _ inRest =>
      have shorter := inductionHypothesis inRest
      omega

theorem length_within_le {sub object : Object} (within : Within sub object) :
    (writeRlp sub).length ≤ (writeRlp object).length := by
  induction within with
  | self => exact Nat.le_refl _
  | item member inner inductionHypothesis =>
    have shorter := length_item_le member
    rw [writeRlp, EncodeRlpList.serializeBytes, List.length_append]
    omega

/-- The general parser gives back the object that was written and leaves nothing. -/
theorem parseObject_writeRlp (object : Object) (small : (writeRlp object).length < 2 ^ 64) :
    parseObject { byteCount := 0, input := writeRlp object } (UInt64.ofNat (writeRlp object).length) =
      .ok (object, { byteCount := (writeRlp object).length, input := [] }, 0) := by
  rw [parseObject_eq_ok]
  refine ⟨writeRlp object, (writeRlp_encodes object small).loosen, ⟨by simp, by simp⟩, ?_⟩
  rw [UInt64.toNat_ofNat_of_lt' small]
  rfl

theorem rlp_round_trip (object : Object) (small : (writeRlp object).length < 2 ^ 64) :
    parseRlp (writeRlp object) = .ok object ∧
      parseObject { byteCount := 0, input := writeRlp object } (UInt64.ofNat (writeRlp object).length) =
        .ok (object, { byteCount := (writeRlp object).length, input := [] }, 0) ∧
      (∀ sub, Within sub object → (calcRlpSize sub).toNat = (writeRlp sub).length) ∧
      ∀ byteSize, (calcLeadingBytesSize byteSize).toNat = (EncodeRlpBytes.genLeadingBytes byteSize).length ∧
        (calcLeadingBytesSize byteSize).toNat = (EncodeRlpList.genLeadingBytes byteSize).length := by
  refine ⟨(parseRlp_eq_ok small).mpr (writeRlp_encodes object small).loosen,
    parseObject_writeRlp object small, ?_, ?_⟩
  · intro sub within
    have shorter := length_within_le within
    exact calcRlpSize_eq sub (by omega)
  · intro byteSize
    exact ⟨(length_genLeadingBytesWith _ _ _).symm, (length_genLeadingBytesWith _ _ _).symm⟩

/-- A list with a short string, a list in it and a string of 56 bytes. -/
theorem rlp_round_trip_sample :
    parseRlp (writeRlp (.list [.bytes [0x80], .list [.bytes []], .bytes (List.replicate 56 7)])) =
      .ok (.list [.bytes [0x80], .list [.bytes []], .bytes (List.replicate 56 7)]) :=
  (rlp_round_trip _ (by decide)).1

end Decentagram.SimpleRlp
