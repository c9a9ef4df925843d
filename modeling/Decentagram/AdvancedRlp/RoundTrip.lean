import Decentagram.AdvancedRlp.Determinism
import Decentagram.AdvancedRlp.Leaves

/-! # The round trip of objects

What is written for a tree is parsed as the same tree, except where a signed integer in it is the
lowest of its type: its magnitude is one more than the parser takes, and the writer of 32 and 64
bits cannot negate it.
-/

namespace Decentagram.AdvancedRlp

open Decentagram.Lib Decentagram.SimpleObjects

def RoundTrips (obj : Object) : Prop :=
  ∃ item result, encode obj = .ok item ∧ Decodes item result ∧ Object.Same obj result

/-- What the parser takes of a key or leaf. -/
def Sound (key : HashableObject) : Prop := aboveLowest key ∧ validString key

theorem keys_of_sameEntries {left right : Dict} (same : Object.SameEntries left right) :
    left.map Prod.fst = right.map Prod.fst := by
  induction left generalizing right with
  | nil =>
    cases same
    rfl
  | cons entry left inductionHypothesis =>
    cases same with
    | cons head tail => rw [List.map_cons, List.map_cons, inductionHypothesis tail]

/-- Entries that are written in their order come back in it. -/
theorem flatten_roundTrips {entries : Dict}
    (inner : ∀ entry ∈ entries, Sound entry.1 ∧ RoundTrips entry.2) :
    ∃ items results, encodeItems (flatten entries) = .ok items ∧ DecodesAll items (flatten results) ∧
      Object.SameEntries entries results := by
  induction entries with
  | nil => exact ⟨[], [], rfl, .nil, .nil⟩
  | cons entry entries inductionHypothesis =>
    obtain ⟨key, val⟩ := entry
    obtain ⟨⟨sound, valItem, result, isVal, valDecodes, same⟩, restInner⟩ :=
      List.forall_mem_cons.mp inner
    obtain ⟨items, results, isItems, decodes, sameRest⟩ := inductionHypothesis restInner
    obtain ⟨keyItem, isKey, keyDecodes⟩ := encodeHashable_decodes sound.1 sound.2
    refine ⟨keyItem :: valItem :: items, (key, result) :: results, ?_, ?_, .cons same sameRest⟩
    · rw [flatten_cons, encodeItems, encodeItems, encode, isKey, isVal, isItems]
      rfl
    · rw [flatten_cons]
      exact .cons keyDecodes (.cons valDecodes decodes)

mutual

/-- A tree of sound leaves and of dictionaries with separate keys comes back. -/
theorem roundTrips_of_sound {obj : Object} (sound : obj.Holds Sound keysSeparate) : RoundTrips obj :=
  match obj, sound with
  | .hashable key, sound => by
    obtain ⟨item, isItem, decodes⟩ := encodeHashable_decodes sound.1 sound.2
    exact ⟨item, _, isItem, decodes, .hashable key⟩
  | .list items, sound => by
    obtain ⟨rlpItems, results, isItems, decodes, same⟩ := itemsRoundTrip_of_sound sound
    refine ⟨_, _, ?_, .list (.cons (.bytes _) decodes) (.array results), .list same⟩
    rw [encode, isItems]
    rfl
  | .dict entries, sound => by
    have inner := entriesRoundTrip_of_sound sound.2
    obtain ⟨sorted, permutes, ascending⟩ := exists_ascending sound.1
    obtain ⟨items, results, isItems, decodes, same⟩ :=
      flatten_roundTrips fun entry member => inner entry (permutes.mem_iff.mp member)
    have ascending' : Ascending results := by
      rw [← ascendingKeys_iff] at ascending ⊢
      rwa [← keys_of_sameEntries same]
    refine ⟨_, _, ?_, .list (.cons (.bytes _) decodes) (.dict ascending'), .dict permutes.symm same⟩
    rw [encode_dict_perm sound.1 permutes.symm, encode_dict_ascending ascending, isItems]
    rfl

theorem itemsRoundTrip_of_sound {items : List Object}
    (sound : Object.HoldsItems Sound keysSeparate items) :
    ∃ rlpItems results, encodeItems items = .ok rlpItems ∧ DecodesAll rlpItems results ∧
      Object.SameItems items results :=
  match items, sound with
  | [], _ => ⟨[], [], rfl, .nil, .nil⟩
  | item :: items, sound => by
    obtain ⟨first, result, isFirst, head, same⟩ := roundTrips_of_sound sound.1
    obtain ⟨rest, results, isRest, tail, sameRest⟩ := itemsRoundTrip_of_sound sound.2
    refine ⟨first :: rest, result :: results, ?_, .cons head tail, .cons same sameRest⟩
    rw [encodeItems, isFirst, isRest]
    rfl

theorem entriesRoundTrip_of_sound {entries : Dict}
    (sound : Object.HoldsEntries Sound keysSeparate entries) :
    ∀ entry ∈ entries, Sound entry.1 ∧ RoundTrips entry.2 :=
  match entries, sound with
  | [], _ => by simp
  | (key, val) :: entries, sound =>
    List.forall_mem_cons.mpr ⟨⟨sound.1, roundTrips_of_sound sound.2.1⟩,
      entriesRoundTrip_of_sound sound.2.2⟩

end

/-! ## The condition -/

section Same

variable {ofKey : HashableObject → Prop}

mutual

/-- The leaves do not depend on how the tables iterate. -/
theorem holds_of_same {left right : Object} (same : Object.Same left right)
    (holds : right.Holds ofKey fun _ => True) : left.Holds ofKey fun _ => True :=
  match same with
  | .hashable _ => holds
  | .list items => holdsItems_of_same items holds
  | .dict permutes entries => by
    refine ⟨trivial, Object.holdsEntries_iff.mpr fun entry member => ?_⟩
    exact Object.holdsEntries_iff.mp (holdsEntries_of_same entries holds.2) entry (permutes.mem_iff.mp member)

theorem holdsItems_of_same {left right : List Object} (same : Object.SameItems left right)
    (holds : Object.HoldsItems ofKey (fun _ => True) right) : Object.HoldsItems ofKey (fun _ => True) left :=
  match same with
  | .nil => trivial
  | .cons head tail => ⟨holds_of_same head holds.1, holdsItems_of_same tail holds.2⟩

theorem holdsEntries_of_same {left right : Dict} (same : Object.SameEntries left right)
    (holds : Object.HoldsEntries ofKey (fun _ => True) right) :
    Object.HoldsEntries ofKey (fun _ => True) left :=
  match same with
  | .nil => trivial
  | .cons head tail => ⟨holds.1, holds_of_same head holds.2.1, holdsEntries_of_same tail holds.2.2⟩

end

end Same

/-- A tree with keys of one category in each dictionary and with valid strings comes back the same
    exactly where no signed integer in it, key or not, is the lowest of its type. -/
theorem round_trip_iff_aboveLowest {obj : Object} (wellKeyed : obj.WellKeyed)
    (valid : obj.Holds validString fun _ => True)
    (small : ∀ bytes, genericWriter obj = .ok bytes → bytes.length < 2 ^ 64) :
    (∃ bytes result, genericWriter obj = .ok bytes ∧ parse bytes = .ok result ∧
      Object.Same obj result) ↔ obj.Holds aboveLowest fun _ => True := by
  constructor
  · intro roundTrip
    obtain ⟨bytes, result, -, parsed, same⟩ := roundTrip
    obtain ⟨items, -, decodes⟩ := parse_decodes.mp parsed
    exact holds_of_same same ((holds_of_decodes decodes).imp (fun _ => id) fun _ _ => trivial)
  · intro above
    have sound : obj.Holds Sound keysSeparate :=
      ((above.and valid).and wellKeyed).imp (fun _ holds => holds.1)
        fun _ keys => keysSeparate_of_differ keys.2
    obtain ⟨item, result, encodes, decodes, same⟩ := roundTrips_of_sound sound
    obtain ⟨items, rfl⟩ := encode_isList encodes
    have written : genericWriter obj = .ok (SimpleRlp.writeRlp (.list items)) := by
      rw [genericWriter_eq, encodes]
      rfl
    have short := small _ written
    exact ⟨_, result, written, (parse_eq_ok short).mpr ⟨items,
      (SimpleRlp.writeRlp_encodes _ short).loosen, decodes⟩, same⟩

/-- A tree with a key of 16 bits, a negative integer and an empty string. -/
theorem round_trip_iff_aboveLowest_sample :
    let obj : Object := .dict [(.realNum (.cast .int16 (-300)), .list [.hashable (.string [])])]
    ∃ bytes result, genericWriter obj = .ok bytes ∧ parse bytes = .ok result ∧
    Object.Same obj result := by
  refine (round_trip_iff_aboveLowest ?_ ?_ ?_).mpr ?_
  · exact ⟨List.pairwise_singleton _ _, trivial, ⟨trivial, trivial⟩, trivial⟩
  · exact ⟨trivial, trivial, ⟨⟨[], rfl⟩, trivial⟩, trivial⟩
  · intro bytes written
    have isWritten : genericWriter (.dict [(.realNum (.cast .int16 (-300)), .list [.hashable (.string [])])]) =
        .ok [0xD0, 0x22, 0xC7, 0x83, 0x04, 0x01, 0x11, 0x82, 0x2C, 0x01, 0xC6, 0x20, 0xC4, 0x82,
          0x08, 0x00, 0x80] := rfl
    cases isWritten.symm.trans written
    decide
  · exact ⟨trivial, fun _ => by decide, ⟨trivial, trivial⟩, trivial⟩

/-- -128 of 8 bits is written with a magnitude that the parser takes for too large. -/
theorem lowest_rejected :
    let obj : Object := .hashable (.realNum (.cast .int8 (-128)))
    obj.WellKeyed ∧ (obj.Holds validString fun _ => True) ∧
      genericWriter obj = .ok [0xC6, 0x83, 0x04, 0x00, 0x11, 0x81, 0x80] ∧
      parse [0xC6, 0x83, 0x04, 0x00, 0x11, 0x81, 0x80] = .error (.parseError
        "Parse error - The integer received exceeds the range of the targeting signed integer (byte @ 8)" 7) ∧
      ¬ ∃ bytes result, genericWriter obj = .ok bytes ∧ parse bytes = .ok result ∧
      Object.Same obj result := by
  refine ⟨trivial, trivial, rfl, rfl, ?_⟩
  intro roundTrip
  obtain ⟨bytes, result, written, parsed, -⟩ := roundTrip
  have isWritten : genericWriter (.hashable (.realNum (.cast .int8 (-128)))) =
      .ok [0xC6, 0x83, 0x04, 0x00, 0x11, 0x81, 0x80] := rfl
  cases isWritten.symm.trans written
  cases parsed

end Decentagram.AdvancedRlp
