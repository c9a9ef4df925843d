import Decentagram.SimpleRlp.RoundTrip

/-! # Which encodings are written again

The parser takes redundant headers, at every depth.  What it accepts is written again byte for byte exactly
where there are none.
-/

namespace Decentagram.SimpleRlp

open Decentagram.Lib Decentagram.Lib.Rlp

theorem writeRlp_eq_iff {input : List UInt8} {object : Object} (small : input.length < 2 ^ 64)
    (parsed : parseRlp input = .ok object) : writeRlp object = input ↔ Shortest input := by
  constructor
  · intro same
    have encodes := writeRlp_encodes object (same.symm ▸ small)
    exact ⟨object, same ▸ encodes⟩
  · intro shortest
    obtain ⟨object', encodes⟩ := shortest
    have parsed' := (parseRlp_eq_ok small).mpr encodes.loosen
    rw [parsed] at parsed'
    cases parsed'
    exact writeRlp_of_encodes encodes small

/-- An accepted input is written again as it was exactly where no header is redundant, so no two such
    inputs are parsed as the same object. -/
theorem canonical_of_shortest {input : List UInt8} {object : Object} (small : input.length < 2 ^ 64)
    (parsed : parseRlp input = .ok object) :
    (writeRlp object = input ↔ Shortest input) ∧
      ∀ other : List UInt8, other.length < 2 ^ 64 → parseRlp other = .ok object → Shortest input →
        Shortest other → other = input := by
  refine ⟨writeRlp_eq_iff small parsed, ?_⟩
  intro other otherSmall otherParsed shortest otherShortest
  calc other
      = writeRlp object := ((writeRlp_eq_iff otherSmall otherParsed).mpr otherShortest).symm
    _ = input := (writeRlp_eq_iff small parsed).mpr shortest

theorem canonical_of_shortest_sample :
    parseRlp [0xC2, 0x05, 0x80] = .ok (.list [.bytes [5], .bytes []]) ∧
      (writeRlp (.list [.bytes [5], .bytes []]) = [0xC2, 0x05, 0x80] ↔ Shortest [0xC2, 0x05, 0x80]) :=
  ⟨rfl, (canonical_of_shortest (by decide) rfl).1⟩

/-- A single byte with a header in front is parsed as the byte, which is written without one. -/
theorem redundant_header_accepted :
    parseRlp [0x81, 0x05] = .ok (.bytes [5]) ∧ parseRlp [0x05] = .ok (.bytes [5]) ∧
      writeRlp (.bytes [5]) ≠ [0x81, 0x05] := by
  refine ⟨rfl, rfl, ?_⟩
  decide

end Decentagram.SimpleRlp
