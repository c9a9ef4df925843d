import Decentagram.SimpleUtf.Utf16

/-! # Conversions between the encodings

`UtfConvert` for any two encodings.  A conversion from UTF-8 meets its promises unless the input
stops inside of a sequence.
-/

namespace Decentagram.SimpleUtf

open Decentagram.Lib

section

variable {α β : Type} (inFunc : List α → Except Exception (UInt32 × List α))
  (outFunc : UInt32 → Except Exception (List β))

/-- The loop of `UtfConvert`, with a bound on the rounds as each one reads a unit at least. -/
def convertLoop : Nat → List α → Except Exception (List β)
  | _, [] => .ok []
  | 0, _ => .error .readPastEnd
  | left + 1, input => do
    let (codePt, rest) ← inFunc input
    let units ← outFunc codePt
    let converted ← convertLoop left rest
    .ok (units ++ converted)

def convert (input : List α) : Except Exception (List β) :=
  convertLoop inFunc outFunc input.length input

end

theorem utfConvertLoop_eq (left : Nat) (input : List UInt8) :
    utfConvertLoop left input = convertLoop utf8ToCodePtOnce codePtToUtf8Once left input := by
  induction left generalizing input with
  | zero => cases input <;> rfl
  | succ left inductionHypothesis =>
    cases input with
    | nil => rfl
    | cons byte rest => simp only [utfConvertLoop, convertLoop, inductionHypothesis]

theorem utfConvert_eq (input : List UInt8) :
    utfConvert input = convert utf8ToCodePtOnce codePtToUtf8Once input := utfConvertLoop_eq _ _

def utf8ToUtf16 : List UInt8 → Except Exception (List UInt16) :=
  convert utf8ToCodePtOnce codePtToUtf16Once

def utf8ToUtf32 : List UInt8 → Except Exception (List UInt32) :=
  convert utf8ToCodePtOnce codePtToUtf32Once

def utf16ToUtf8 : List UInt16 → Except Exception (List UInt8) :=
  convert utf16ToCodePtOnce codePtToUtf8Once

def utf16ToUtf32 : List UInt16 → Except Exception (List UInt32) :=
  convert utf16ToCodePtOnce codePtToUtf32Once

def utf32ToUtf8 : List UInt32 → Except Exception (List UInt8) :=
  convert utf32ToCodePtOnce codePtToUtf8Once

def utf32ToUtf16 : List UInt32 → Except Exception (List UInt16) :=
  convert utf32ToCodePtOnce codePtToUtf16Once

/-! ## Any two encodings -/

/-- The function reads the encodings of characters and nothing else. -/
structure Reads {α : Type} (inFunc : List α → Except Exception (UInt32 × List α))
    (encode : Char → List α) : Prop where
  sound : ∀ {input rest val}, inFunc input = .ok (val, rest) →
    ∃ char : Char, char.val = val ∧ input = encode char ++ rest
  complete : ∀ char rest, inFunc (encode char ++ rest) = .ok (char.val, rest)
  nonempty : ∀ char, encode char ≠ []

def Writes {β : Type} (outFunc : UInt32 → Except Exception (List β)) (encode : Char → List β) : Prop :=
  ∀ char : Char, outFunc char.val = .ok (encode char)

theorem reads_utf8 : Reads utf8ToCodePtOnce String.utf8EncodeChar where
  sound := encoding_of_utf8ToCodePtOnce
  complete := utf8ToCodePtOnce_encodeChar
  nonempty := fun _ => String.utf8EncodeChar_ne_nil

theorem reads_utf16 : Reads utf16ToCodePtOnce utf16EncodeChar where
  sound := encoding_of_utf16ToCodePtOnce
  complete := utf16ToCodePtOnce_encodeChar
  nonempty := utf16EncodeChar_ne_nil

theorem reads_utf32 : Reads utf32ToCodePtOnce fun char => [char.val] where
  sound := encoding_of_utf32ToCodePtOnce
  complete := utf32ToCodePtOnce_encodeChar
  nonempty := fun _ => List.cons_ne_nil _ _

section

variable {α β : Type} {inFunc : List α → Except Exception (UInt32 × List α)}
  {outFunc : UInt32 → Except Exception (List β)} {encode : Char → List α} {write : Char → List β}

theorem Reads.shorter (reads : Reads inFunc encode) {input rest : List α} {char : Char}
    (isInput : input = encode char ++ rest) : rest.length < input.length := by
  have nonempty := List.length_pos_iff.mpr (reads.nonempty char)
  rw [isInput, List.length_append]
  omega

theorem convertLoop_eq_ok (reads : Reads inFunc encode) (writes : Writes outFunc write) {left : Nat}
    {input : List α} {output : List β} (enough : input.length ≤ left) :
    convertLoop inFunc outFunc left input = .ok output ↔
      ∃ chars : List Char, input = chars.flatMap encode ∧ output = chars.flatMap write := by
  induction left generalizing input output with
  | zero =>
    obtain rfl : input = [] := List.length_eq_zero_iff.mp (by omega)
    rw [convertLoop, Except.ok.injEq]
    constructor
    · rintro rfl
      exact ⟨[], rfl, rfl⟩
    · rintro ⟨chars, isInput, rfl⟩
      cases chars with
      | nil => rfl
      | cons char chars => exact absurd (List.append_eq_nil_iff.mp isInput.symm).1 (reads.nonempty char)
  | succ left inductionHypothesis =>
    cases input with
    | nil =>
      rw [convertLoop, Except.ok.injEq]
      constructor
      · rintro rfl
        exact ⟨[], rfl, rfl⟩
      · rintro ⟨chars, isInput, rfl⟩
        cases chars with
        | nil => rfl
        | cons char chars => exact absurd (List.append_eq_nil_iff.mp isInput.symm).1 (reads.nonempty char)
    | cons unit tail =>
      simp only [convertLoop, bind_eq_ok, Prod.exists, Except.ok.injEq]
      constructor
      · rintro ⟨codePt, rest, read, units, written, converted, loops, rfl⟩
        obtain ⟨char, rfl, isInput⟩ := reads.sound read
        cases (writes char).symm.trans written
        have shorter := reads.shorter isInput
        obtain ⟨chars, rfl, rfl⟩ := (inductionHypothesis (by omega)).mp loops
        exact ⟨char :: chars, isInput, rfl⟩
      · rintro ⟨chars, isInput, rfl⟩
        cases chars with
        | nil => cases isInput
        | cons char chars =>
          rw [List.flatMap_cons] at isInput
          have shorter := reads.shorter isInput
          exact ⟨char.val, chars.flatMap encode, isInput ▸ reads.complete char _, write char,
            writes char, _, (inductionHypothesis (by omega)).mpr ⟨chars, rfl, rfl⟩, rfl⟩

theorem convert_eq_ok (reads : Reads inFunc encode) (writes : Writes outFunc write) {input : List α}
    {output : List β} : convert inFunc outFunc input = .ok output ↔
      ∃ chars : List Char, input = chars.flatMap encode ∧ output = chars.flatMap write :=
  convertLoop_eq_ok reads writes (Nat.le_refl _)

/-- The loop reads behind the end in the first round that does. -/
theorem convertLoop_readPastEnd (reads : Reads inFunc encode) (writes : Writes outFunc write)
    {left : Nat} {input : List α} (enough : input.length ≤ left) :
    convertLoop inFunc outFunc left input = .error .readPastEnd ↔
      ∃ (chars : List Char) (tail : List α), input = chars.flatMap encode ++ tail ∧ tail ≠ [] ∧
        inFunc tail = .error .readPastEnd := by
  induction left generalizing input with
  | zero =>
    obtain rfl : input = [] := List.length_eq_zero_iff.mp (by omega)
    rw [convertLoop]
    simp only [reduceCtorEq, false_iff]
    rintro ⟨chars, tail, isInput, notEmpty, _⟩
    exact notEmpty (List.append_eq_nil_iff.mp isInput.symm).2
  | succ left inductionHypothesis =>
    cases input with
    | nil =>
      rw [convertLoop]
      simp only [reduceCtorEq, false_iff]
      rintro ⟨chars, tail, isInput, notEmpty, _⟩
      exact notEmpty (List.append_eq_nil_iff.mp isInput.symm).2
    | cons unit tail =>
      simp only [convertLoop]
      cases read : inFunc (unit :: tail) with
      | error error =>
        -- the first unit already reads past the end
        constructor
        · intro failed
          cases failed
          exact ⟨[], unit :: tail, rfl, by simp, read⟩
        · rintro ⟨chars, tail', isInput, notEmpty, failed⟩
          cases chars with
          | nil =>
            rw [isInput] at read
            cases read.symm.trans failed
            rfl
          | cons char chars =>
            rw [isInput, List.flatMap_cons, List.append_assoc, reads.complete] at read
            cases read
      | ok result =>
        -- one character is read, and the loop reads the rest
        obtain ⟨codePt, rest⟩ := result
        obtain ⟨char, rfl, isInput⟩ := reads.sound read
        have shorter := reads.shorter isInput
        have behind := @inductionHypothesis rest (by simp only [List.length_cons] at *; omega)
        have rounds : (do
            let units ← outFunc char.val
            let converted ← convertLoop inFunc outFunc left rest
            .ok (units ++ converted) : Except Exception (List β)) = .error .readPastEnd ↔
            convertLoop inFunc outFunc left rest = .error .readPastEnd := by
          rw [writes char]
          cases convertLoop inFunc outFunc left rest with
          | error error => exact Iff.rfl
          | ok converted => exact iff_of_false (fun failed => by cases failed) fun failed => by cases failed
        refine rounds.trans (behind.trans ?_)
        constructor
        · rintro ⟨chars, tail', rfl, notEmpty, failed⟩
          exact ⟨char :: chars, tail', by rw [isInput, List.flatMap_cons, List.append_assoc],
            notEmpty, failed⟩
        · rintro ⟨chars, tail', isInput', notEmpty, failed⟩
          cases chars with
          | nil =>
            rw [isInput', List.flatMap_nil, List.nil_append] at read
            cases read.symm.trans failed
          | cons char' chars =>
            rw [List.flatMap_cons, List.append_assoc] at isInput'
            have read' := reads.complete char' (chars.flatMap encode ++ tail')
            rw [← isInput', read] at read'
            injection read' with read'
            injection read' with _ sameRest
            exact ⟨chars, tail', sameRest, notEmpty, failed⟩

end

theorem utf16ToUtf8_ne_readPastEnd (input : List UInt16) : utf16ToUtf8 input ≠ .error .readPastEnd := by
  intro failed
  obtain ⟨_, tail, _, _, readsPastEnd⟩ :=
    (convertLoop_readPastEnd reads_utf16 codePtToUtf8Once_char (Nat.le_refl _)).mp failed
  exact utf16ToCodePtOnce_ne_readPastEnd tail readsPastEnd

/-! ## Sequences that are cut short -/

/-- How many continuation bytes a leading byte announces. -/
def contsAnnounced (byte : UInt8) : Nat :=
  if byte < 0xC2 then 0
  else if byte < 0xE0 then 1
  else if byte < 0xF0 then 2
  else if byte < 0xF8 then 3
  else 0

/-- The smallest continuation byte behind a leading byte that is not a longer encoding than
    necessary. -/
def lowestCont (byte : UInt8) : UInt8 :=
  if byte = 0xE0 then 0xA0 else if byte = 0xF0 then 0x90 else 0x80

/-- Acceptable bytes of a sequence, the end of which is missing. -/
structure CutShort (byte : UInt8) (conts : List UInt8) : Prop where
  short : conts.length < contsAnnounced byte
  areConts : ∀ cont ∈ conts, 0x80 ≤ cont ∧ cont < 0xC0
  notLonger : ∀ cont ∈ conts.head?, lowestCont byte ≤ cont

/-- The input stops inside of a sequence. -/
def StopsInside (input : List UInt8) : Prop :=
  ∃ (chars : List Char) (byte : UInt8) (conts : List UInt8),
    input = chars.flatMap String.utf8EncodeChar ++ byte :: conts ∧ CutShort byte conts

/-- Continuation bytes behind the first one are only looked at one by one. -/
theorem utf8ReadConts_readPastEnd {numCont left : Nat} {res : UInt32} {input : List UInt8}
    (behind : left < numCont) : utf8ReadConts numCont left res input = .error .readPastEnd ↔
      input.length < left ∧ ∀ cont ∈ input, 0x80 ≤ cont ∧ cont < 0xC0 := by
  induction left generalizing res input with
  | zero => simp [utf8ReadConts]
  | succ left inductionHypothesis =>
    cases input with
    | nil => simp [utf8ReadConts]
    | cons byte rest =>
      have isCont := utf8ReadCont_toOption byte
      simp only [utf8ReadConts]
      cases read : utf8ReadCont byte with
      | error error =>
        have notCont : ¬ (0x80 ≤ byte ∧ byte < 0xC0) := by
          intro range
          rw [read, if_pos range] at isCont
          cases isCont
        have notPastEnd : error ≠ .readPastEnd := by
          rintro rfl
          unfold utf8ReadCont at read
          split at read <;> cases read
        constructor
        · intro failed
          cases failed
          exact absurd rfl notPastEnd
        · rintro ⟨_, areConts⟩
          exact absurd (areConts byte List.mem_cons_self) notCont
      | ok bits =>
        have range : 0x80 ≤ byte ∧ byte < 0xC0 := by
          by_contra notCont
          rw [read, if_neg notCont] at isCont
          cases isCont
        change (if left + 1 = numCont ∧ _ then _ else _) = _ ↔ _
        rw [if_neg (by omega), inductionHypothesis (by omega)]
        simp only [List.length_cons, List.forall_mem_cons]
        constructor
        · rintro ⟨short, areConts⟩
          exact ⟨by omega, range, areConts⟩
        · rintro ⟨short, _, areConts⟩
          exact ⟨by omega, areConts⟩

theorem utf8ReadCont_ne_readPastEnd {val : UInt8} : utf8ReadCont val ≠ .error .readPastEnd := by
  unfold utf8ReadCont
  split <;> simp

theorem utf8ReadLeading_ne_readPastEnd {val : UInt8} : utf8ReadLeading val ≠ .error .readPastEnd := by
  unfold utf8ReadLeading
  repeat' split
  all_goals simp

/-- The first continuation byte is the one that is checked. -/
theorem utf8ReadConts_first_readPastEnd {left : Nat} {leading : UInt8} {input : List UInt8}
    (small : leading.toNat < 32) :
    utf8ReadConts (left + 1) (left + 1) leading.toUInt32 input = .error .readPastEnd ↔
      input.length < left + 1 ∧ (∀ cont ∈ input, 0x80 ≤ cont ∧ cont < 0xC0) ∧
        ∀ cont ∈ input.head?, ¬ (left = 1 ∧ 64 * leading.toNat + (cont.toNat - 128) < 32 ∨
          left = 2 ∧ 64 * leading.toNat + (cont.toNat - 128) < 16) := by
  cases input with
  | nil => simp [utf8ReadConts]
  | cons byte rest =>
    simp only [utf8ReadConts, List.length_cons, List.forall_mem_cons, List.head?_cons,
      Option.mem_some_iff, forall_eq']
    cases read : utf8ReadCont byte with
    | error error =>
      constructor
      · intro failed
        cases failed
        exact absurd read utf8ReadCont_ne_readPastEnd
      · rintro ⟨_, ⟨range, _⟩, _⟩
        have isCont := utf8ReadCont_toOption byte
        rw [read, if_pos range] at isCont
        cases isCont
    | ok bits =>
      obtain ⟨smallBits, isByte⟩ := utf8ReadCont_eq_ok.mp read
      have range : 0x80 ≤ byte ∧ byte < 0xC0 := by
        rw [UInt8.le_iff_toNat_le, UInt8.lt_iff_toNat_lt, isByte]
        simp only [UInt8.reduceToNat]
        omega
      -- only the first continuation byte can show that the form is longer than needed
      have value : (leading.toUInt32 <<< 6 ||| bits.toUInt32).toNat =
          64 * leading.toNat + (byte.toNat - 128) := by
        rw [toNat_shift_or (by rw [UInt8.toNat_toUInt32]; omega) smallBits, UInt8.toNat_toUInt32]
        omega
      simp only [bind, Except.bind, UInt32.lt_iff_toNat_lt, value, UInt32.reduceToNat, true_and,
        Nat.reduceEqDiff]
      split
      next longer =>
        constructor
        · intro failed
          cases failed
        · rintro ⟨_, _, notLonger⟩
          exact absurd longer notLonger
      next notLonger =>
        rw [utf8ReadConts_readPastEnd (Nat.lt_succ_self left)]
        constructor
        · rintro ⟨short, areConts⟩
          exact ⟨by omega, ⟨range, areConts⟩, notLonger⟩
        · rintro ⟨short, ⟨_, areConts⟩, _⟩
          exact ⟨by omega, areConts⟩

/-- Reading goes past the end where the announced bytes are not all there. -/
theorem utf8ToCodePtOnce_readPastEnd {byte : UInt8} {rest : List UInt8} :
    utf8ToCodePtOnce (byte :: rest) = .error .readPastEnd ↔ ∃ numCont leading,
      utf8ReadLeading byte = .ok (numCont, leading) ∧
        utf8ReadConts numCont numCont leading.toUInt32 rest = .error .readPastEnd := by
  simp only [utf8ToCodePtOnce]
  cases read : utf8ReadLeading byte with
  | error error =>
    constructor
    · intro failed
      cases failed
      exact absurd read utf8ReadLeading_ne_readPastEnd
    · rintro ⟨_, _, isOk, _⟩
      cases isOk
  | ok result =>
    obtain ⟨numCont, leading⟩ := result
    simp only [bind, Except.bind, Except.ok.injEq, Prod.mk.injEq]
    constructor
    · intro failed
      refine ⟨_, _, ⟨rfl, rfl⟩, ?_⟩
      cases conts : utf8ReadConts numCont numCont leading.toUInt32 rest with
      | error error =>
        rw [conts] at failed
        exact failed
      | ok result =>
        rw [conts] at failed
        dsimp only at failed
        split at failed <;> cases failed
    · rintro ⟨_, _, ⟨rfl, rfl⟩, failed⟩
      rw [failed]

theorem contsAnnounced_eq (byte : UInt8) :
    contsAnnounced byte = ((utf8ReadLeading byte).toOption.map Prod.fst).getD 0 := by
  revert byte
  apply forall_byte
  decide +kernel

/-- What the check of the first continuation byte leaves, in bytes. -/
theorem lowestCont_le_iff {byte leading cont : UInt8} {left : Nat}
    (read : utf8ReadLeading byte = .ok (left + 1, leading)) (isCont : 0x80 ≤ cont) :
    lowestCont byte ≤ cont ↔ ¬ (left = 1 ∧ 64 * leading.toNat + (cont.toNat - 128) < 32 ∨
      left = 2 ∧ 64 * leading.toNat + (cont.toNat - 128) < 16) := by
  have forms := utf8ReadLeading_eq_ok.mp read
  have small := cont.toNat_lt
  rw [UInt8.le_iff_toNat_le] at isCont ⊢
  simp only [lowestCont, ← UInt8.toNat_inj, UInt8.reduceToNat] at isCont ⊢
  split
  · simp only [UInt8.reduceToNat]
    omega
  split
  · simp only [UInt8.reduceToNat]
    omega
  · simp only [UInt8.reduceToNat]
    omega

/-- The sequences that are read past their end are the ones that are cut short. -/
theorem utf8ToCodePtOnce_readPastEnd_iff {byte : UInt8} {rest : List UInt8} :
    utf8ToCodePtOnce (byte :: rest) = .error .readPastEnd ↔ CutShort byte rest := by
  rw [utf8ToCodePtOnce_readPastEnd]
  have announced := contsAnnounced_eq byte
  constructor
  · rintro ⟨numCont, leading, read, failed⟩
    rw [read] at announced
    cases numCont with
    | zero => cases failed
    | succ left =>
      have forms := utf8ReadLeading_eq_ok.mp read
      obtain ⟨short, areConts, notLonger⟩ := (utf8ReadConts_first_readPastEnd (by omega)).mp failed
      refine ⟨announced ▸ short, areConts, fun cont first => ?_⟩
      have isCont := areConts cont (List.mem_of_mem_head? first)
      exact (lowestCont_le_iff read isCont.1).mpr (notLonger cont first)
  · rintro ⟨short, areConts, notLonger⟩
    cases read : utf8ReadLeading byte with
    | error error =>
      rw [announced, read] at short
      cases short
    | ok result =>
      obtain ⟨numCont, leading⟩ := result
      rw [announced, read] at short
      refine ⟨numCont, leading, rfl, ?_⟩
      cases numCont with
      | zero => cases short
      | succ left =>
        have forms := utf8ReadLeading_eq_ok.mp read
        refine (utf8ReadConts_first_readPastEnd (by omega)).mpr ⟨short, areConts, fun cont first => ?_⟩
        have isCont := areConts cont (List.mem_of_mem_head? first)
        exact (lowestCont_le_iff read isCont.1).mp (notLonger cont first)

/-! ## Conversions from UTF-8 -/

/-- A conversion from UTF-8 reads behind the input where that stops inside of a sequence. -/
theorem convert_utf8_readPastEnd {β : Type} {outFunc : UInt32 → Except Exception (List β)}
    {write : Char → List β} (writes : Writes outFunc write) {input : List UInt8} :
    convert utf8ToCodePtOnce outFunc input = .error .readPastEnd ↔ StopsInside input := by
  rw [convert, convertLoop_readPastEnd reads_utf8 writes (Nat.le_refl _)]
  constructor
  · rintro ⟨chars, tail, isInput, notEmpty, failed⟩
    cases tail with
    | nil => exact absurd rfl notEmpty
    | cons byte conts => exact ⟨chars, byte, conts, isInput, utf8ToCodePtOnce_readPastEnd_iff.mp failed⟩
  · rintro ⟨chars, byte, conts, isInput, cut⟩
    exact ⟨chars, byte :: conts, isInput, by simp, utf8ToCodePtOnce_readPastEnd_iff.mpr cut⟩

theorem accepts_iff {β : Type} {outFunc : UInt32 → Except Exception (List β)} {write : Char → List β}
    (writes : Writes outFunc write) {input : List UInt8} :
    (∃ output, convert utf8ToCodePtOnce outFunc input = .ok output) ↔ ValidUtf8 input := by
  simp only [convert_eq_ok reads_utf8 writes]
  constructor
  · rintro ⟨_, chars, isInput, _⟩
    exact ⟨chars, isInput⟩
  · rintro ⟨chars, isInput⟩
    exact ⟨_, chars, isInput, rfl⟩

/-- The conversions of an input stay inside of it, accept well-formed UTF-8 only and lose nothing. -/
structure ExactConversions (input : List UInt8) : Prop where
  inRangeUtf8 : utfConvert input ≠ .error .readPastEnd
  inRangeUtf16 : utf8ToUtf16 input ≠ .error .readPastEnd
  inRangeUtf32 : utf8ToUtf32 input ≠ .error .readPastEnd
  acceptsUtf8 : (∃ output, utfConvert input = .ok output) ↔ ValidUtf8 input
  acceptsUtf16 : (∃ units, utf8ToUtf16 input = .ok units) ↔ ValidUtf8 input
  acceptsUtf32 : (∃ codePts, utf8ToUtf32 input = .ok codePts) ↔ ValidUtf8 input
  copies : ∀ output, utfConvert input = .ok output → output = input
  encodes : ∀ codePts, utf8ToUtf32 input = .ok codePts → utf32ToUtf8 codePts = .ok input ∧
    ∃ units, utf32ToUtf16 codePts = .ok units ∧ utf8ToUtf16 input = .ok units ∧
      utf16ToUtf8 units = .ok input ∧ utf16ToUtf32 units = .ok codePts

/-- Only an input that stops inside of a sequence is not converted as it should be: the bytes
    behind it are read. -/
theorem exactConversions_iff (input : List UInt8) : ExactConversions input ↔ ¬ StopsInside input := by
  constructor
  · intro exact stops
    exact exact.inRangeUtf32 ((convert_utf8_readPastEnd codePtToUtf32Once_char).mpr stops)
  · intro complete
    refine ⟨?_, ?_, ?_, ?_, accepts_iff codePtToUtf16Once_char,
      accepts_iff codePtToUtf32Once_char, ?_, ?_⟩
    · rw [utfConvert_eq]
      exact mt (convert_utf8_readPastEnd codePtToUtf8Once_char).mp complete
    · exact mt (convert_utf8_readPastEnd codePtToUtf16Once_char).mp complete
    · exact mt (convert_utf8_readPastEnd codePtToUtf32Once_char).mp complete
    · simp only [utfConvert_eq]
      exact accepts_iff codePtToUtf8Once_char
    · intro output converted
      exact (utfConvert_eq_ok.mp converted).2
    · intro codePts converted
      obtain ⟨chars, rfl, rfl⟩ := (convert_eq_ok reads_utf8 codePtToUtf32Once_char).mp converted
      -- all of the encodings are the ones of these characters
      have toUtf16 := (convert_eq_ok reads_utf32 codePtToUtf16Once_char).mpr ⟨chars, rfl, rfl⟩
      refine ⟨(convert_eq_ok reads_utf32 codePtToUtf8Once_char).mpr ⟨chars, rfl, rfl⟩, _, toUtf16,
        ?_, ?_, ?_⟩
      · exact (convert_eq_ok reads_utf8 codePtToUtf16Once_char).mpr ⟨chars, rfl, rfl⟩
      · exact (convert_eq_ok reads_utf16 codePtToUtf8Once_char).mpr ⟨chars, rfl, rfl⟩
      · exact (convert_eq_ok reads_utf16 codePtToUtf32Once_char).mpr ⟨chars, rfl, rfl⟩

/-- Of the three bytes of the euro sign the last one is missing. -/
theorem not_exactConversions : ¬ ExactConversions [0xE2, 0x82] := by
  intro exact
  exact exact.inRangeUtf8 (by decide +kernel)

end Decentagram.SimpleUtf
