import Decentagram.Lib.Parsing
import Mathlib.Data.List.TakeWhile

/-! # The input of the parsers

`ForwardIteratorStateMachine`: what is left of the text and the position that error messages name.
-/

namespace Decentagram.SimpleJson

open Decentagram.Lib

structure ParseError where
  what : String
  lineNum : Nat
  colNum : Nat
deriving DecidableEq, Repr

def ParseError.ofIssue (issue : String) (lineNum colNum : Nat) : ParseError where
  what := "Parse error - " ++ issue ++ " (line " ++ toString (lineNum + 1) ++
    " column " ++ toString (colNum + 1) ++ ")"
  lineNum
  colNum

/-- The bytes from `m_begin` to `m_end`, the first of which is `m_current`. -/
structure InputState where
  rest : List UInt8
  lineNum : Nat
  colNum : Nat
deriving DecidableEq, Repr

abbrev Parser (α : Type) := Exec ParseError InputState α

/-- `throw ParseError(issue, ism.GetLineCount(), ism.GetColCount())` -/
def raise {α : Type} (issue : String) : Parser α := do
  let state ← Exec.get
  Exec.throw (.ofIssue issue state.lineNum state.colNum)

/-- A character of the source as a byte. -/
def chr (char : Char) : UInt8 := char.val.toUInt8

def isSpaceCh (ch : UInt8) : Bool :=
  ch = chr ' ' || ch = chr '\r' || ch = chr '\n' || ch = chr '\t' || ch = 0x0B || ch = 0x0C

namespace InputState

def advance (state : InputState) : InputState :=
  { state with rest := state.rest.tail, colNum := state.colNum + 1 }

def newLine (state : InputState) : InputState :=
  { state with lineNum := state.lineNum + 1, colNum := 0 }

/-- The loop of `SkipWhiteSpace`, from the bytes and the position. -/
def skip : List UInt8 → Nat → Nat → InputState
  | [], lineNum, colNum => ⟨[], lineNum, colNum⟩
  | ch :: rest, lineNum, colNum =>
    if isSpaceCh ch then
      if ch = chr '\r' then
        match rest with
        | [] => ⟨[], lineNum + 1, 0⟩
        | ch' :: rest' =>
          if ch' = chr '\n' then skip rest' (lineNum + 1) 0 else skip (ch' :: rest') (lineNum + 1) 0
      else if ch = chr '\n' then skip rest (lineNum + 1) 0
      else skip rest lineNum (colNum + 1)
    else ⟨ch :: rest, lineNum, colNum⟩

theorem rest_skip (input : List UInt8) (lineNum colNum : Nat) :
    (skip input lineNum colNum).rest = input.dropWhile isSpaceCh := by
  fun_induction skip input lineNum colNum with
  | case1 => rfl
  | case2 _ _ isSpace => rw [List.dropWhile_cons_of_pos isSpace, List.dropWhile_nil]
  | case3 _ _ rest isSpace inductionHypothesis =>
    rw [inductionHypothesis, List.dropWhile_cons_of_pos isSpace, List.dropWhile_cons_of_pos rfl]
  | case4 _ _ _ _ _ isSpace inductionHypothesis => rw [inductionHypothesis,
    List.dropWhile_cons_of_pos isSpace]
  | case5 _ _ _ isSpace _ inductionHypothesis => rw [inductionHypothesis,
    List.dropWhile_cons_of_pos isSpace]
  | case6 _ _ _ _ isSpace _ _ inductionHypothesis => rw [inductionHypothesis,
    List.dropWhile_cons_of_pos isSpace]
  | case7 _ _ _ _ notSpace => rw [List.dropWhile_cons_of_neg notSpace]

end InputState

def isEnd : Parser Bool := do
  let state ← Exec.get
  pure state.rest.isEmpty

def skipWhiteSpace : Parser Unit := Exec.modify fun state => .skip state.rest state.lineNum state.colNum

/-- The current character, and the exception where there is none. -/
def current : Parser UInt8 := do
  let state ← Exec.get
  match state.rest with
  | [] => raise "Input string ends unexpectedly"
  | ch :: _ => pure ch

def skipSpaceAndGetCharAndAdv : Parser UInt8 := do
  skipWhiteSpace
  let res ← current
  Exec.modify InputState.advance
  pure res

def skipSpaceAndGetChar : Parser UInt8 := do
  skipWhiteSpace
  current

/-- A line ends behind a line feed, and behind a carriage return that no line feed follows. -/
def getCharAndAdv : Parser UInt8 := do
  let res ← current
  Exec.modify InputState.advance
  let state ← Exec.get
  if res = chr '\n' ∨ (res = chr '\r' ∧ (state.rest = [] ∨ state.rest.head? ≠ some (chr '\n'))) then
    Exec.modify InputState.newLine
    pure res
  else pure res

def getChar : Parser UInt8 := current

def expDelimiter (d : UInt8) : Parser Unit := do
  let ch ← skipSpaceAndGetCharAndAdv
  if ch ≠ d then raise ("Expecting '" ++ String.singleton (Char.ofUInt8 d) ++ "' delimiter") else pure ()

/-! ## What they read -/

abbrev Reads {α : Type} (call : Parser α) (input : List UInt8) (value : α) (rest : List UInt8) : Prop :=
  Parsing.Reads InputState.rest call input value rest

abbrev Recognises {α : Type} (call : Parser α) (input : List UInt8)
    (accepts : α → List UInt8 → Prop) : Prop :=
  Parsing.Recognises InputState.rest call input accepts

theorem recognises_raise {α : Type} (issue : String) (input : List UInt8)
    (accepts : α → List UInt8 → Prop) :
    Recognises (raise issue) input accepts :=
  Parsing.Recognises.get_bind fun _ _ => .throw _

theorem reads_skipWhiteSpace (input : List UInt8) :
    Reads skipWhiteSpace input () (input.dropWhile isSpaceCh) := by
  rintro before rfl
  exact ⟨_, rfl, InputState.rest_skip _ _ _⟩

theorem reads_current (ch : UInt8)
    (rest : List UInt8) : Reads current (ch :: rest) ch (ch :: rest) := by
  intro before same
  refine ⟨before, ?_, same⟩
  rw [current, Exec.bind_apply, Exec.get_apply, Outcome.andThen_ok, same]
  rfl

theorem reads_advance (ch : UInt8) (rest : List UInt8) :
    Reads (Exec.modify InputState.advance) (ch :: rest) () rest := by
  intro before same
  exact ⟨_, rfl, by rw [InputState.advance, same, List.tail_cons]⟩

theorem reads_getCharAndAdv (ch : UInt8)
    (rest : List UInt8) : Reads getCharAndAdv (ch :: rest) ch rest := by
  refine (reads_current ch rest).bind ((reads_advance ch rest).bind (.get_bind fun state same => ?_))
  split
  · have keeps : Reads (Exec.modify InputState.newLine) rest () rest :=
      fun before same => ⟨_, rfl, same⟩
    exact keeps.bind (.pure _ _)
  · exact .pure _ _

theorem reads_getChar (ch : UInt8) (rest : List UInt8) : Reads getChar (ch :: rest) ch (ch :: rest) :=
  reads_current ch rest

/-- White space as the parsers skip it. -/
def Spaces (spaces : List UInt8) : Prop := ∀ space ∈ spaces, isSpaceCh space = true

section

variable {ch : UInt8} {rest : List UInt8} {spaces : List UInt8}

/-- White space before a character that is none. -/
theorem dropWhile_spaces (areSpaces : Spaces spaces) (notSpace : isSpaceCh ch = false) :
    (spaces ++ ch :: rest).dropWhile isSpaceCh = ch :: rest := by
  rw [List.dropWhile_append_of_pos areSpaces, List.dropWhile_cons_of_neg (by simp [notSpace])]

theorem reads_skipSpaceAndGetChar (areSpaces : Spaces spaces)
    (notSpace : isSpaceCh ch = false) : Reads skipSpaceAndGetChar (spaces ++ ch :: rest) ch (ch :: rest) := by
  refine (reads_skipWhiteSpace _).bind ?_
  rw [dropWhile_spaces areSpaces notSpace]
  exact reads_current ch rest

theorem reads_skipSpaceAndGetCharAndAdv (areSpaces : Spaces spaces)
    (notSpace : isSpaceCh ch = false) : Reads skipSpaceAndGetCharAndAdv (spaces ++ ch :: rest) ch rest := by
  refine (reads_skipWhiteSpace _).bind ?_
  rw [dropWhile_spaces areSpaces notSpace]
  exact (reads_current ch rest).bind ((reads_advance ch rest).bind (.pure _ _))

theorem reads_expDelimiter {d : UInt8} (areSpaces : Spaces spaces)
    (notSpace : isSpaceCh d = false) : Reads (expDelimiter d) (spaces ++ d :: rest) () rest :=
  (reads_skipSpaceAndGetCharAndAdv areSpaces notSpace).bind (.no (by simp) (.pure _ _))

end

/-! ## What they recognise -/

theorem recognises_current (input : List UInt8) :
    Recognises current input fun ch rest => input.head? = some ch ∧ rest = input := by
  cases input with
  | nil =>
    refine .get_bind fun state same => ?_
    rw [same]
    exact recognises_raise _ _ _
  | cons ch tail => exact .of_reads (reads_current ch tail) ⟨rfl, rfl⟩

theorem recognises_getCharAndAdv (input : List UInt8) :
    Recognises getCharAndAdv input fun ch rest => input = ch :: rest := by
  cases input with
  | nil =>
    refine (recognises_current []).bind fun ch rest noChar => ?_
    cases noChar.1
  | cons ch tail => exact .of_reads (reads_getCharAndAdv ch tail) rfl

theorem recognises_getChar (input : List UInt8) :
    Recognises getChar input fun ch rest => input.head? = some ch ∧ rest = input :=
  recognises_current input

theorem recognises_skipWhiteSpace (input : List UInt8) :
    Recognises skipWhiteSpace input fun _ rest => rest = input.dropWhile isSpaceCh :=
  .of_reads (reads_skipWhiteSpace input) rfl

/-- The first character behind white space. -/
theorem recognises_skipSpaceAndGetChar (input : List UInt8) :
    Recognises skipSpaceAndGetChar input fun ch rest => ∃ spaces tail, Spaces spaces ∧
      input = spaces ++ rest ∧ rest = ch :: tail ∧ isSpaceCh ch = false := by
  refine (recognises_skipWhiteSpace input).bind ?_
  rintro _ _ rfl
  refine (recognises_current _).mono ?_
  rintro ch _ ⟨isHead, rfl⟩
  obtain ⟨tail, isRest⟩ := List.head?_eq_some_iff.mp isHead
  refine ⟨input.takeWhile isSpaceCh, tail,
    fun space inSpaces => ?_, (List.takeWhile_append_dropWhile).symm, isRest, ?_⟩
  · exact List.mem_takeWhile_imp inSpaces
  · have notSpace := List.head?_dropWhile_not isSpaceCh input
    rw [isHead] at notSpace
    simpa using notSpace

theorem recognises_skipSpaceAndGetCharAndAdv (input : List UInt8) :
    Recognises skipSpaceAndGetCharAndAdv input fun ch rest => ∃ spaces, Spaces spaces ∧
      input = spaces ++ ch :: rest ∧ isSpaceCh ch = false := by
  have assoc : skipSpaceAndGetCharAndAdv = skipSpaceAndGetChar >>= fun res =>
      (Exec.modify InputState.advance >>= fun _ => pure res) := (bind_assoc skipWhiteSpace _ _).symm
  rw [assoc]
  refine (recognises_skipSpaceAndGetChar input).bind ?_
  rintro ch _ ⟨spaces, tail, areSpaces, isInput, rfl, notSpace⟩
  exact .of_reads ((reads_advance ch tail).bind (.pure _ _)) ⟨spaces, areSpaces, isInput, notSpace⟩

theorem recognises_expDelimiter (d : UInt8) (input : List UInt8) :
    Recognises (expDelimiter d) input fun _ rest => ∃ spaces, Spaces spaces ∧
    input = spaces ++ d :: rest := by
  refine (recognises_skipSpaceAndGetCharAndAdv input).bind ?_
  rintro ch rest ⟨spaces, areSpaces, isInput, -⟩
  refine .ite (fun _ => recognises_raise _ _ _) fun same => .pure ?_
  rw [← not_not.mp same]
  exact ⟨spaces, areSpaces, isInput⟩

end Decentagram.SimpleJson
