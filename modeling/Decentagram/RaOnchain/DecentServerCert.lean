import Decentagram.RaOnchain.Asn1Decode
import Mathlib.Data.List.Basic

/-! # Looking up a member of the attestation report

`DecentServerCert` does not parse the report, which is JSON: it searches its text for the quoted key,
and then for two quotes.  Positions in a byte string in memory do not overflow.
-/

namespace Decentagram.RaOnchain.DecentServerCert

open Decentagram.Lib BytesUtils

/-- `strB` is found at the position, and does not end with `strA`. -/
def strEqual (strA : Bytes) (startPos : Nat) (strB : Bytes) : Bool :=
  if strA.length ≤ startPos + strB.length then false
  else (List.range strB.length).all fun i => strA[startPos + i]? = strB[i]?

/-- The first position from `startPos` on, or the length of `strA`. -/
def strFind (strA : Bytes) (startPos : Nat) (strB : Bytes) : Except Revert Nat := do
  require (startPos < strA.length) "Invalid startPos"
  -- the first round reads `strB[0]`
  let first ← byteAt strB 0
  let found := (List.range' startPos (strA.length - startPos)).find? fun i =>
    strA[i]? = some first ∧ strEqual strA i strB
  return found.getD strA.length

def quote : UInt8 := 0x22

def jsonSimpleReadValPos (jsonStr quatedKey : Bytes) : Except Revert (Nat × Nat) := do
  let pos ← strFind jsonStr 0 quatedKey
  require (pos < jsonStr.length) "Invalid JSON"
  let pos ← strFind jsonStr (pos + quatedKey.length) [quote]
  require (pos < jsonStr.length) "Invalid JSON"
  let pos := pos + 1
  let endPos ← strFind jsonStr pos [quote]
  require (endPos < jsonStr.length) "Invalid JSON"
  return (pos, endPos - pos)

/-! ## What is found -/

/-- The pattern stands at the position, and the text goes on behind it. -/
structure Matches (text pattern : Bytes) (i : Nat) : Prop where
  occurs : pattern <+: text.drop i
  inside : i + pattern.length < text.length

/-- The first match from a position on. -/
structure FirstMatch (text pattern : Bytes) (start i : Nat) : Prop where
  isMatch : Matches text pattern i
  start_le : start ≤ i
  first : ∀ j, start ≤ j → j < i → ¬ Matches text pattern j

variable {text pattern : Bytes} {start i : Nat}

theorem strEqual_iff : strEqual text i pattern ↔ Matches text pattern i := by
  unfold strEqual
  split
  next short =>
    refine iff_of_false (by simp) fun matched => ?_
    exact absurd matched.inside (Nat.not_lt.mpr short)
  next long =>
    have inside : i + pattern.length < text.length := Nat.not_le.mp long
    have sameBytes : ((List.range pattern.length).all fun k => text[i + k]? = pattern[k]?) ↔
        pattern <+: text.drop i := by
      rw [List.prefix_iff_getElem?]
      simp only [List.all_eq_true, List.mem_range, decide_eq_true_eq, List.getElem?_drop]
      refine forall₂_congr fun k isIndex => ?_
      rw [List.getElem?_eq_getElem isIndex]
    rw [sameBytes]
    exact ⟨fun occurs => ⟨occurs, inside⟩, fun matched => matched.occurs⟩

/-- What is found is the first match. -/
theorem strFind_eq_ok (nonempty : pattern ≠ []) :
    (strFind text start pattern = .ok i ∧ i < text.length) ↔ FirstMatch text pattern start i := by
  obtain ⟨first, rest, rfl⟩ := List.exists_cons_of_ne_nil nonempty
  have isMatch : ∀ j, (text[j]? = some first ∧ strEqual text j (first :: rest)) ↔
      Matches text (first :: rest) j := by
    intro j
    rw [strEqual_iff]
    refine ⟨fun both => both.2, fun matched => ⟨?_, matched⟩⟩
    have head := List.prefix_iff_getElem?.mp matched.occurs 0 (by simp)
    simpa using head
  have byte : byteAt (first :: rest) 0 = .ok first := rfl
  have found (i : Nat) : (List.range' start (text.length - start)).find? (fun i =>
      decide (text[i]? = some first ∧ strEqual text i (first :: rest))) = some i ↔
        FirstMatch text (first :: rest) start i := by
    simp only [List.find?_range'_eq_some, decide_eq_true_eq, isMatch, List.mem_range'_1,
      Bool.not_eq_eq_eq_not, Bool.not_true, decide_eq_false_iff_not]
    constructor
    · rintro ⟨matched, ⟨start_le, -⟩, none⟩
      exact ⟨matched, start_le, none⟩
    · intro firstMatch
      have inside := firstMatch.isMatch.inside
      exact ⟨firstMatch.isMatch, ⟨firstMatch.start_le, by omega⟩, firstMatch.first⟩
  simp only [strFind, bind_eq_ok, require_eq_ok, byte, exists_unit, pure_eq_ok, Except.ok.injEq]
  constructor
  · rintro ⟨⟨-, _, rfl, isFound⟩, inside⟩
    rw [← found]
    generalize List.find? _ _ = result at isFound
    cases result with
    | none => exact absurd inside (by simp [← isFound])
    | some position => exact congrArg some isFound
  · intro firstMatch
    have inside := firstMatch.isMatch.inside
    have start_le := firstMatch.start_le
    refine ⟨⟨by omega, first, rfl, ?_⟩, by omega⟩
    rw [(found i).mpr firstMatch, Option.getD_some]

theorem jsonSimpleReadValPos_eq_ok (nonempty : pattern ≠ []) {pos len : Nat} :
    jsonSimpleReadValPos text pattern = .ok (pos, len) ↔
      ∃ keyPos openPos endPos, FirstMatch text pattern 0 keyPos ∧
        FirstMatch text [quote] (keyPos + pattern.length) openPos ∧
        FirstMatch text [quote] (openPos + 1) endPos ∧ pos = openPos + 1 ∧ len = endPos - pos := by
  have isQuote := @strFind_eq_ok text [quote]
  simp only [jsonSimpleReadValPos, bind_eq_ok, require_eq_ok, exists_unit, pure_eq_ok, Prod.mk.injEq]
  constructor
  · rintro ⟨keyPos, foundKey, keyInside, openPos, foundOpen, openInside, endPos, foundEnd, endInside,
      rfl, rfl⟩
    exact ⟨keyPos, openPos, endPos, (strFind_eq_ok nonempty).mp ⟨foundKey, keyInside⟩,
      (strFind_eq_ok (by simp)).mp ⟨foundOpen, openInside⟩,
      (strFind_eq_ok (by simp)).mp ⟨foundEnd, endInside⟩, rfl, rfl⟩
  · rintro ⟨keyPos, openPos, endPos, isKey, isOpen, isEnd, rfl, rfl⟩
    obtain ⟨foundKey, keyInside⟩ := (strFind_eq_ok nonempty).mpr isKey
    obtain ⟨foundOpen, openInside⟩ := (strFind_eq_ok (by simp)).mpr isOpen
    obtain ⟨foundEnd, endInside⟩ := (strFind_eq_ok (by simp)).mpr isEnd
    exact ⟨keyPos, foundKey, keyInside, openPos, foundOpen, openInside, endPos, foundEnd, endInside,
      rfl, rfl⟩

theorem matches_quote_iff : Matches text [quote] i ↔ text[i]? = some quote ∧ i + 1 < text.length := by
  constructor
  · intro matched
    have head := List.prefix_iff_getElem?.mp matched.occurs 0 (by simp)
    exact ⟨by simpa using head, matched.inside⟩
  · rintro ⟨isQuote, inside⟩
    refine ⟨?_, inside⟩
    obtain ⟨bound, isByte⟩ := List.getElem?_eq_some_iff.mp isQuote
    rw [List.drop_eq_getElem_cons bound, isByte]
    exact List.prefix_append [quote] _

/-- The first place where the pattern stands in the text. -/
structure FirstOccurrence (text pattern : Bytes) (i : Nat) : Prop where
  occurs : pattern <+: text.drop i
  first : ∀ j < i, ¬ pattern <+: text.drop j

instance (text pattern : Bytes) (i : Nat) : Decidable (FirstOccurrence text pattern i) :=
  decidable_of_iff (pattern <+: text.drop i ∧ ∀ j < i, ¬ pattern <+: text.drop j)
    ⟨fun both => ⟨both.1, both.2⟩, fun occurrence => ⟨occurrence.occurs, occurrence.first⟩⟩

/-- Before the end of the text it is what the search finds. -/
theorem firstMatch_iff (inside : i + pattern.length < text.length) :
    FirstMatch text pattern 0 i ↔ FirstOccurrence text pattern i := by
  constructor
  · intro firstMatch
    refine ⟨firstMatch.isMatch.occurs, fun j before occurs => ?_⟩
    exact firstMatch.first j (Nat.zero_le j) before ⟨occurs, by omega⟩
  · intro occurrence
    refine ⟨⟨occurrence.occurs, inside⟩, Nat.zero_le i, fun j _ before matched => ?_⟩
    exact occurrence.first j before matched.occurs

/-- A text with a value in quotes, after a front that ends with a quote. -/
structure QuotedAfter (text front between body rest : Bytes) : Prop where
  isText : text = (front ++ [quote]) ++ (between ++ quote :: (body ++ quote :: rest))
  noQuote : quote ∉ between
  goesOn : rest ≠ []

namespace QuotedAfter

variable {front between body rest : Bytes} (quoted : QuotedAfter text front between body rest)

include quoted

theorem length_eq : text.length = front.length + 1 + between.length + 1 + body.length + 1 + rest.length := by
  simp [quoted.isText]
  omega

theorem getElem?_front : text[front.length]? = some quote := by
  rw [quoted.isText, List.append_assoc]
  simp

theorem getElem?_between {j : Nat} (behind : front.length < j)
    (before : j < front.length + 1 + between.length) : text[j]? ≠ some quote := by
  have start : (front ++ [quote]).length ≤ j := by
    simp
    omega
  rw [quoted.isText, List.getElem?_append_right start, List.getElem?_append_left (by simp; omega)]
  intro isQuote
  exact quoted.noQuote (List.mem_of_getElem? isQuote)

theorem getElem?_open : text[front.length + 1 + between.length]? = some quote := by
  rw [quoted.isText, ← List.append_assoc]
  have start : front.length + 1 + between.length = (front ++ [quote] ++ between).length := by simp; omega
  rw [start]
  simp

theorem getElem?_body {j : Nat} (inside : j < body.length) :
    text[front.length + 1 + between.length + 1 + j]? = body[j]? := by
  have shape : text = (front ++ [quote] ++ between ++ [quote]) ++ (body ++ quote :: rest) := by
    simp [quoted.isText]
  have start : (front ++ [quote] ++ between ++ [quote]).length = front.length + 1 + between.length + 1 := by
    simp
    omega
  rw [shape, List.getElem?_append_right (by omega), start, Nat.add_sub_cancel_left,
    List.getElem?_append_left inside]

theorem getElem?_close :
    text[front.length + 1 + between.length + 1 + body.length]? = some quote := by
  have shape : text = (front ++ [quote] ++ between ++ [quote] ++ body) ++ quote :: rest := by
    simp [quoted.isText]
  have start : front.length + 1 + between.length + 1 + body.length =
      (front ++ [quote] ++ between ++ [quote] ++ body).length := by
    simp
    omega
  rw [shape, start]
  simp

/-- Behind the front the first quote opens the value. -/
theorem firstMatch_open : FirstMatch text [quote] (front.length + 1) (front.length + 1 + between.length) := by
  have length := quoted.length_eq
  refine ⟨matches_quote_iff.mpr ⟨quoted.getElem?_open, by omega⟩, by omega, fun j start before matched => ?_⟩
  exact quoted.getElem?_between start before (matches_quote_iff.mp matched).1

/-- Only from there on does the search find it. -/
theorem start_of_firstMatch {start : Nat} (positive : 0 < start)
    (startsBehindQuote : text[start - 1]? = some quote)
    (found : FirstMatch text [quote] start (front.length + 1 + between.length)) :
    start = front.length + 1 := by
  have length := quoted.length_eq
  have start_le := found.start_le
  by_contra different
  rcases Nat.lt_or_gt_of_ne different with before | behind
  · have isMatch : Matches text [quote] front.length :=
      matches_quote_iff.mpr ⟨quoted.getElem?_front, by omega⟩
    exact found.first front.length (by omega) (by omega) isMatch
  · exact quoted.getElem?_between (by omega) (by omega) startsBehindQuote

theorem firstMatch_close_iff :
    FirstMatch text [quote] (front.length + 1 + between.length + 1)
      (front.length + 1 + between.length + 1 + body.length) ↔ quote ∉ body := by
  have length := quoted.length_eq
  have goesOn := List.length_pos_iff.mpr quoted.goesOn
  constructor
  · intro found inBody
    obtain ⟨j, inside, isQuote⟩ := List.mem_iff_getElem.mp inBody
    refine found.first (front.length + 1 + between.length + 1 + j) (by omega) (by omega)
      (matches_quote_iff.mpr ⟨?_, by omega⟩)
    rw [quoted.getElem?_body inside, List.getElem?_eq_getElem inside, isQuote]
  · intro notInBody
    refine ⟨matches_quote_iff.mpr ⟨quoted.getElem?_close, by omega⟩, by omega,
      fun j start before matched => ?_⟩
    have inside : j - (front.length + 1 + between.length + 1) < body.length := by omega
    have isByte := quoted.getElem?_body inside
    rw [Nat.add_sub_cancel' start, (matches_quote_iff.mp matched).1] at isByte
    exact notInBody (List.mem_of_getElem? isByte.symm)

/-- The value is found just when the quoted key stands first where the front ends, and the value has no
    quote. -/
theorem lookup_iff (key : Bytes) :
    jsonSimpleReadValPos text (key ++ [quote]) = .ok (front.length + 1 + between.length + 1, body.length) ↔
      (∃ i, FirstOccurrence text (key ++ [quote]) i ∧
        i + (key ++ [quote]).length = front.length + 1) ∧ quote ∉ body := by
  have length := quoted.length_eq
  have nonempty : key ++ [quote] ≠ [] := by simp
  rw [jsonSimpleReadValPos_eq_ok nonempty, ← quoted.firstMatch_close_iff]
  constructor
  · rintro ⟨keyPos, openPos, endPos, isKey, isOpen, isEnd, isPos, isLen⟩
    have samePos : openPos = front.length + 1 + between.length := by omega
    subst samePos
    have end_ge := isEnd.start_le
    have isEndPos : endPos = front.length + 1 + between.length + 1 + body.length := by omega
    subst isEndPos
    have lastByte : text[keyPos + (key ++ [quote]).length - 1]? = some quote := by
      have last := List.prefix_iff_getElem?.mp isKey.isMatch.occurs key.length (by simp)
      simpa [List.getElem?_drop] using last
    have ends := quoted.start_of_firstMatch (by simp) lastByte isOpen
    refine ⟨⟨keyPos, (firstMatch_iff ?_).mp isKey, ends⟩, isEnd⟩
    omega
  · rintro ⟨⟨keyPos, isFirst, ends⟩, isEnd⟩
    refine ⟨keyPos, _, _, (firstMatch_iff (by omega)).mpr isFirst, ?_, isEnd, rfl, by omega⟩
    rw [ends]
    exact quoted.firstMatch_open

/-- The value is cut out where it was found. -/
theorem substring (small : text.length < 2 ^ 256) :
    substrstringFast text (front.length + 1 + between.length + 1) body.length = .ok body := by
  have fits := quoted.length_eq
  have isSlice : slice text (front.length + 1 + between.length + 1) body.length = body := by
    have front' : (front ++ [quote] ++ between ++ [quote]).length =
        front.length + 1 + between.length + 1 := by
      simp
      omega
    have isText : text = (front ++ [quote] ++ between ++ [quote]) ++ (body ++ quote :: rest) := by
      simp [quoted.isText]
    rw [slice, ← front', isText, List.drop_left, List.take_left]
  have inside : add (front.length + 1 + between.length + 1) body.length =
      .ok (front.length + 1 + between.length + 1 + body.length) := add_eq_ok.mpr ⟨by omega, rfl⟩
  rw [substrstringFast, inside, ok_bind, require, if_pos (by omega), ok_bind, isSlice]
  rfl

end QuotedAfter

end Decentagram.RaOnchain.DecentServerCert
