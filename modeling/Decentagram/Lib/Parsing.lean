import Decentagram.Lib.Exec

/-! # Parsers that walk along their input

A parser is an imperative computation, and `view` tells what is left of the input in a state.
`Reads` says what is read off a given input, whatever else the state holds, and `Recognises` what
holds of every result; the latter leaves errors open but no undefined behaviour.
-/

namespace Decentagram.Lib.Parsing

open Decentagram.Lib

variable {ε σ τ α β : Type} {view : σ → List τ}

/-- On the input the call returns the value and leaves the rest. -/
def Reads (view : σ → List τ) (call : Exec ε σ α) (input : List τ) (value : α) (rest : List τ) : Prop :=
  ∀ before, view before = input → ∃ after, call before = .ok value after ∧ view after = rest

/-- On the input the call throws, or returns what is accepted. -/
def Recognises (view : σ → List τ) (call : Exec ε σ α) (input : List τ)
    (accepts : α → List τ → Prop) : Prop :=
  ∀ before, view before = input →
    (∃ value after, call before = .ok value after ∧ accepts value (view after)) ∨
      ∃ error after, call before = .throws error after

namespace Reads

theorem pure (value : α) (input : List τ) : Reads view (Pure.pure value : Exec ε σ α) input value input :=
  fun before same => ⟨before, rfl, same⟩

theorem bind {first : Exec ε σ α} {next : α → Exec ε σ β} {input middle rest : List τ} {value : α}
    {result : β}
    (reads : Reads view first input value middle)
    (reads' : Reads view (next value) middle result rest) :
    Reads view (first >>= next) input result rest := by
  intro before same
  obtain ⟨between, returned, left⟩ := reads before same
  obtain ⟨after, returned', left'⟩ := reads' between left
  exact ⟨after, by rw [Exec.bind_apply, returned, Outcome.andThen_ok, returned'], left'⟩

theorem yes {condition : Prop} [Decidable condition] {call other : Exec ε σ α} {input rest : List τ}
    {value : α} (holds : condition) (reads : Reads view call input value rest) :
    Reads view (if condition then call else other) input value rest := by
  rwa [if_pos holds]

theorem no {condition : Prop} [Decidable condition] {call other : Exec ε σ α} {input rest : List τ}
    {value : α} (fails : ¬ condition) (reads : Reads view other input value rest) :
    Reads view (if condition then call else other) input value rest := by
  rwa [if_neg fails]

theorem unique {call : Exec ε σ α} {input rest rest' : List τ} {value value' : α} {before : σ}
    (isInput : view before = input) (reads : Reads view call input value rest)
    (reads' : Reads view call input value' rest') : value = value' ∧ rest = rest' := by
  obtain ⟨after, returned, left⟩ := reads before isInput
  obtain ⟨after', returned', left'⟩ := reads' before isInput
  cases returned.symm.trans returned'
  exact ⟨rfl, left.symm.trans left'⟩

end Reads

namespace Recognises

variable {accepts accepts' : α → List τ → Prop} {input : List τ}

theorem pure {value : α} (accepted : accepts value input) :
    Recognises view (Pure.pure value : Exec ε σ α) input accepts := by
  intro before same
  exact .inl ⟨value, before, rfl, same ▸ accepted⟩

theorem throw (error : ε) : Recognises view (Exec.throw error : Exec ε σ α) input accepts :=
  fun before _ => .inr ⟨error, before, rfl⟩

theorem bind {first : Exec ε σ α} {next : α → Exec ε σ β} {accepts' : β → List τ → Prop}
    (recognises : Recognises view first input accepts)
    (recognises' : ∀ value middle, accepts value middle →
    Recognises view (next value) middle accepts') :
    Recognises view (first >>= next) input accepts' := by
  intro before same
  rcases recognises before same with ⟨value, between, returned, accepted⟩ | ⟨error, after, thrown⟩
  · rw [Exec.bind_apply, returned]
    exact recognises' value _ accepted between rfl
  · exact .inr ⟨error, after, by rw [Exec.bind_apply, thrown, Outcome.andThen_throws]⟩

theorem mono {call : Exec ε σ α} (recognises : Recognises view call input accepts)
    (weaker : ∀ value rest, accepts value rest → accepts' value rest) :
    Recognises view call input accepts' := by
  intro before same
  rcases recognises before same with ⟨value, after, returned, accepted⟩ | thrown
  · exact .inl ⟨value, after, returned, weaker _ _ accepted⟩
  · exact .inr thrown

theorem ite {condition : Prop} [Decidable condition] {call other : Exec ε σ α}
    (yes : condition → Recognises view call input accepts)
    (no : ¬ condition → Recognises view other input accepts) :
    Recognises view (if condition then call else other) input accepts := by
  split
  · exact yes ‹_›
  · exact no ‹_›

/-- A call that looks at the state before it goes on. -/
theorem get_bind {next : σ → Exec ε σ β} {accepts : β → List τ → Prop}
    (recognises : ∀ state, view state = input → Recognises view (next state) input accepts) :
    Recognises view (Exec.get >>= next) input accepts :=
  fun before same => recognises before same before same

theorem of_reads {call : Exec ε σ α} {value : α} {rest : List τ}
    (reads : Reads view call input value rest)
    (accepted : accepts value rest) : Recognises view call input accepts := by
  intro before same
  obtain ⟨after, returned, left⟩ := reads before same
  exact .inl ⟨value, after, returned, left ▸ accepted⟩

end Recognises

theorem Reads.get_bind {next : σ → Exec ε σ β} {input rest : List τ} {result : β}
    (reads : ∀ state, view state = input → Reads view (next state) input result rest) :
    Reads view (Exec.get >>= next) input result rest :=
  fun before same => reads before same before same

end Decentagram.Lib.Parsing
