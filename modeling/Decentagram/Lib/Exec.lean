/-! # Imperative code with exceptions and undefined behaviour

A computation of type `Exec ε σ α` is a member function of an object whose state is `σ`: it returns a
value, throws an exception of type `ε`, or has undefined behaviour.  A throw keeps every change made
to the state before it, as in a language without transactions.  Undefined behaviour has no state
after it.

`Exec.Sat` is the partial-correctness judgement used everywhere: what holds when the call returns
and what holds when it throws.  The `sat_*` lemmas are the rules of the logic, one for each
construct, and they are tagged for `simp`, so a call of a program unfolds to the conditions on its
primitive steps.
-/

namespace Decentagram.Lib

/-- How a call ends. -/
inductive Outcome (ε σ α : Type) where
  | ok (value : α) (state : σ)
  | throws (error : ε) (state : σ)
  | undefined

namespace Outcome

/-- The same ending, seen as an ending of the whole state. -/
def map {ε σ τ α : Type} (outcome : Outcome ε τ α) (embed : τ → σ) : Outcome ε σ α :=
  match outcome with
  | .ok value state => .ok value (embed state)
  | .throws error state => .throws error (embed state)
  | .undefined => .undefined

@[simp] theorem map_ok {ε σ τ α : Type} (value : α) (state : τ) (embed : τ → σ) :
    (ok value state : Outcome ε τ α).map embed = .ok value (embed state) := rfl

@[simp] theorem map_throws {ε σ τ α : Type} (error : ε) (state : τ) (embed : τ → σ) :
    (throws error state : Outcome ε τ α).map embed = .throws error (embed state) := rfl

@[simp] theorem map_undefined {ε σ τ α : Type} (embed : τ → σ) :
    (undefined : Outcome ε τ α).map embed = .undefined := rfl

/-- The call returned, with a value and a state that have the property. -/
def Returns {ε σ α : Type} (outcome : Outcome ε σ α) (property : α → σ → Prop) : Prop :=
  match outcome with
  | .ok value state => property value state
  | _ => False

/-- The call threw, with an error and a state that have the property. -/
def Throws {ε σ α : Type} (outcome : Outcome ε σ α) (property : ε → σ → Prop) : Prop :=
  match outcome with
  | .throws error state => property error state
  | _ => False

instance {ε σ α : Type} (outcome : Outcome ε σ α) (property : α → σ → Prop)
    [∀ value state, Decidable (property value state)] : Decidable (outcome.Returns property) :=
  match outcome with
  | .ok value state => inferInstanceAs (Decidable (property value state))
  | .throws _ _ => inferInstanceAs (Decidable False)
  | .undefined => inferInstanceAs (Decidable False)

instance {ε σ α : Type} (outcome : Outcome ε σ α) (property : ε → σ → Prop)
    [∀ error state, Decidable (property error state)] : Decidable (outcome.Throws property) :=
  match outcome with
  | .ok _ _ => inferInstanceAs (Decidable False)
  | .throws error state => inferInstanceAs (Decidable (property error state))
  | .undefined => inferInstanceAs (Decidable False)

theorem returns_iff {ε σ α : Type} {outcome : Outcome ε σ α} {property : α → σ → Prop} :
    outcome.Returns property ↔
      ∃ value state, outcome = .ok value state ∧ property value state := by
  cases outcome <;> simp [Returns, and_assoc]

theorem throws_iff {ε σ α : Type} {outcome : Outcome ε σ α} {property : ε → σ → Prop} :
    outcome.Throws property ↔
      ∃ error state, outcome = .throws error state ∧ property error state := by
  cases outcome <;> simp [Throws, and_assoc]

end Outcome

def Exec (ε σ α : Type) : Type := σ → Outcome ε σ α

/-- What follows a call: the next call if it returned, and nothing otherwise. -/
def Outcome.andThen {ε σ α β : Type} (outcome : Outcome ε σ α) (next : α → Exec ε σ β) :
    Outcome ε σ β :=
  match outcome with
  | .ok value state => next value state
  | .throws error state => .throws error state
  | .undefined => .undefined

@[simp] theorem Outcome.andThen_ok {ε σ α β : Type} (value : α) (state : σ)
    (next : α → Exec ε σ β) : (Outcome.ok value state).andThen next = next value state := rfl

@[simp] theorem Outcome.andThen_throws {ε σ α β : Type} (error : ε) (state : σ)
    (next : α → Exec ε σ β) :
    (Outcome.throws error state).andThen next = .throws error state := rfl

@[simp] theorem Outcome.andThen_undefined {ε σ α β : Type} (next : α → Exec ε σ β) :
    Outcome.undefined.andThen next = .undefined := rfl

namespace Exec

variable {ε σ τ α β : Type}

protected def pure (value : α) : Exec ε σ α := fun state => .ok value state

protected def bind (first : Exec ε σ α) (next : α → Exec ε σ β) : Exec ε σ β := fun state =>
  (first state).andThen next

instance : Monad (Exec ε σ) where
  pure := Exec.pure
  bind := Exec.bind

instance : LawfulMonad (Exec ε σ) := LawfulMonad.mk' _
  (by
    intro α call
    funext state
    change (call state).andThen _ = call state
    cases call state <;> rfl)
  (fun _ _ => rfl)
  (by
    intro α β γ first next last
    funext state
    change ((first state).andThen next).andThen last = (first state).andThen _
    cases first state <;> rfl)

def throw (error : ε) : Exec ε σ α := fun state => .throws error state

def undefined : Exec ε σ α := fun _ => .undefined

def get : Exec ε σ σ := fun state => .ok state state

def modify (update : σ → σ) : Exec ε σ Unit := fun state => .ok () (update state)

/-- A pure call that may throw. -/
def ofExcept : Except ε α → Exec ε σ α
  | .ok value => pure value
  | .error error => throw error

def ofOption (error : ε) : Option α → Exec ε σ α
  | some value => pure value
  | none => throw error

/-- A call whose behaviour is undefined where it has no result. -/
def orUndefined : Option α → Exec ε σ α
  | some value => pure value
  | none => undefined

/-- `if (condition) throw error;` -/
def throwIf (condition : Prop) [Decidable condition] (error : ε) : Exec ε σ Unit :=
  if condition then throw error else pure ()

/-- Runs a computation on one part of the state. -/
def zoom (part : σ → τ) (update : τ → σ → σ) (inner : Exec ε τ α) : Exec ε σ α := fun state =>
  (inner (part state)).map fun part' => update part' state

section Evaluation

variable (state : σ)

@[simp] theorem pure_apply (value : α) : (pure value : Exec ε σ α) state = .ok value state := rfl

@[simp] theorem bind_apply (first : Exec ε σ α) (next : α → Exec ε σ β) :
    (first >>= next) state = (first state).andThen next := rfl

@[simp] theorem map_apply (call : Exec ε σ α) (function : α → β) :
    (function <$> call) state = (call state).andThen fun value => pure (function value) := rfl

@[simp] theorem throw_apply (error : ε) : (throw error : Exec ε σ α) state = .throws error state := rfl

@[simp] theorem undefined_apply : (undefined : Exec ε σ α) state = .undefined := rfl

@[simp] theorem get_apply : (get : Exec ε σ σ) state = .ok state state := rfl

@[simp] theorem modify_apply (update : σ → σ) :
    (modify update : Exec ε σ Unit) state = .ok () (update state) := rfl

@[simp] theorem throwIf_apply (condition : Prop) [Decidable condition] (error : ε) :
    (throwIf condition error : Exec ε σ Unit) state =
      if condition then .throws error state else .ok () state := by
  unfold throwIf
  split <;> rfl

@[simp] theorem orUndefined_some_apply (value : α) :
    (orUndefined (some value) : Exec ε σ α) state = .ok value state := rfl

@[simp] theorem orUndefined_none_apply : (orUndefined none : Exec ε σ α) state = .undefined := rfl

@[simp] theorem zoom_apply (part : σ → τ) (update : τ → σ → σ) (inner : Exec ε τ α) :
    zoom part update inner state = (inner (part state)).map fun part' => update part' state := rfl

@[simp] theorem ite_apply (condition : Prop) [Decidable condition] (yes no : Exec ε σ α) :
    (if condition then yes else no) state = if condition then yes state else no state := by
  split <;> rfl

end Evaluation

theorem bind_eq_ok {first : Exec ε σ α} {next : α → Exec ε σ β} {before after : σ} {value : β} :
    (first >>= next) before = .ok value after ↔
      ∃ result state, first before = .ok result state ∧ next result state = .ok value after := by
  rw [bind_apply]
  cases first before <;> simp [and_assoc]

/-- Where the first call returns, the second one returns the same. -/
def Extends (first second : Exec ε σ α) : Prop :=
  ∀ before value after, first before = .ok value after → second before = .ok value after

namespace Extends

theorem refl (call : Exec ε σ α) : Extends call call := fun _ _ _ returned => returned

theorem bind {first second : Exec ε σ α} {next next' : α → Exec ε σ β} (extended : Extends first second)
    (nextExtended : ∀ value, Extends (next value) (next' value)) :
    Extends (first >>= next) (second >>= next') := by
  intro before result after returned
  obtain ⟨value, middle, isValue, returned⟩ := bind_eq_ok.mp returned
  exact bind_eq_ok.mpr ⟨value, middle, extended _ _ _ isValue, nextExtended value _ _ _ returned⟩

theorem andThen {first second : Exec ε σ α} (extended : Extends first second) (next : α → Exec ε σ β) :
    Extends (first >>= next) (second >>= next) := extended.bind fun _ => refl _

theorem ite {condition : Prop} [Decidable condition] {yes yes' no no' : Exec ε σ α}
    (yesExtended : Extends yes yes') (noExtended : Extends no no') :
    Extends (if condition then yes else no) (if condition then yes' else no') := by
  split
  · exact yesExtended
  · exact noExtended

end Extends

theorem ofOption_eq_ok {error : ε} {option : Option α} {before after : σ} {value : α} :
    (ofOption error option : Exec ε σ α) before = .ok value after ↔
      option = some value ∧ before = after := by
  cases option <;> simp [ofOption]

/-- The call returns in, or throws in, `after`. -/
def Ends (call : Exec ε σ α) (before after : σ) : Prop :=
  (∃ value, call before = .ok value after) ∨ ∃ error, call before = .throws error after

/-- The state that the call leaves, if its behaviour is defined. -/
def endState (call : Exec ε σ α) (before : σ) : Option σ :=
  match call before with
  | .ok _ after => some after
  | .throws _ after => some after
  | .undefined => none

theorem ends_of_endState {call : Exec ε σ α} {before after : σ}
    (ended : endState call before = some after) : Ends call before after := by
  unfold endState at ended
  split at ended
  next value _ returned =>
    cases ended
    exact .inl ⟨value, returned⟩
  next error _ thrown =>
    cases ended
    exact .inr ⟨error, thrown⟩
  next => cases ended

/-- What holds when the call returns and what holds when it throws.  Nothing is said of a call whose
    behaviour is undefined. -/
def Sat (call : Exec ε σ α) (before : σ) (returns : α → σ → Prop) (raises : ε → σ → Prop) : Prop :=
  match call before with
  | .ok value after => returns value after
  | .throws error after => raises error after
  | .undefined => True

section Rules

variable {before : σ} {returns returns' : α → σ → Prop} {raises raises' : ε → σ → Prop}

@[simp] theorem sat_pure (value : α) :
    Sat (pure value : Exec ε σ α) before returns raises ↔ returns value before := Iff.rfl

@[simp] theorem sat_bind (first : Exec ε σ α) (next : α → Exec ε σ β) (returns : β → σ → Prop) :
    Sat (first >>= next) before returns raises ↔
      Sat first before (fun value state => Sat (next value) state returns raises) raises := by
  change Sat (Exec.bind first next) before returns raises ↔ _
  unfold Sat Exec.bind
  cases first before <;> rfl

@[simp] theorem sat_map (call : Exec ε σ α) (function : α → β) (returns : β → σ → Prop) :
    Sat (function <$> call) before returns raises ↔
      Sat call before (fun value state => returns (function value) state) raises :=
  sat_bind call _ returns

@[simp] theorem sat_throw (error : ε) :
    Sat (throw error : Exec ε σ α) before returns raises ↔ raises error before := Iff.rfl

@[simp] theorem sat_undefined :
    Sat (undefined : Exec ε σ α) before returns raises ↔ True := Iff.rfl

@[simp] theorem sat_get (returns : σ → σ → Prop) :
    Sat (get : Exec ε σ σ) before returns raises ↔ returns before before := Iff.rfl

@[simp] theorem sat_modify (update : σ → σ) (returns : Unit → σ → Prop) :
    Sat (modify update : Exec ε σ Unit) before returns raises ↔ returns () (update before) := Iff.rfl

@[simp] theorem sat_ofExcept (result : Except ε α) :
    Sat (ofExcept result : Exec ε σ α) before returns raises ↔
      (∀ value, result = .ok value → returns value before) ∧
        ∀ error, result = .error error → raises error before := by
  cases result <;> simp [ofExcept]

@[simp] theorem sat_ofOption (error : ε) (value : Option α) :
    Sat (ofOption error value : Exec ε σ α) before returns raises ↔
      (∀ present, value = some present → returns present before) ∧
        (value = none → raises error before) := by
  cases value <;> simp [ofOption]

@[simp] theorem sat_throwIf (condition : Prop) [Decidable condition] (error : ε)
    (returns : Unit → σ → Prop) :
    Sat (throwIf condition error : Exec ε σ Unit) before returns raises ↔
      (condition → raises error before) ∧ (¬ condition → returns () before) := by
  unfold throwIf
  split <;> simp_all

@[simp] theorem sat_zoom (part : σ → τ) (update : τ → σ → σ) (inner : Exec ε τ α) :
    Sat (zoom part update inner) before returns raises ↔
      Sat inner (part before) (fun value part' => returns value (update part' before))
        (fun error part' => raises error (update part' before)) := by
  unfold Sat zoom
  cases inner (part before) <;> rfl

@[simp] theorem sat_ite (condition : Prop) [Decidable condition] (yes no : Exec ε σ α) :
    Sat (if condition then yes else no) before returns raises ↔
      (condition → Sat yes before returns raises) ∧ (¬ condition → Sat no before returns raises) := by
  split <;> simp_all

/-- The rule of consequence. -/
theorem Sat.mono {call : Exec ε σ α} (sat : Sat call before returns raises)
    (onReturn : ∀ value state, returns value state → returns' value state)
    (onRaise : ∀ error state, raises error state → raises' error state) :
    Sat call before returns' raises' := by
  unfold Sat at sat ⊢
  cases ended : call before with
  | ok value state => rw [ended] at sat; exact onReturn value state sat
  | throws error state => rw [ended] at sat; exact onRaise error state sat
  | undefined => trivial

theorem Sat.and {call : Exec ε σ α} (left : Sat call before returns raises)
    (right : Sat call before returns' raises') :
    Sat call before (fun value state => returns value state ∧ returns' value state)
      (fun error state => raises error state ∧ raises' error state) := by
  unfold Sat at left right ⊢
  cases ended : call before with
  | ok _ _ => rw [ended] at left right; exact ⟨left, right⟩
  | throws _ _ => rw [ended] at left right; exact ⟨left, right⟩
  | undefined => trivial

/-- A property of both kinds of ending holds of every state the call ends in. -/
theorem Sat.ends {call : Exec ε σ α} (property : σ → Prop) {after : σ}
    (sat : Sat call before (fun _ state => property state) (fun _ state => property state))
    (ends : Ends call before after) : property after := by
  unfold Sat at sat
  rcases ends with ⟨value, ended⟩ | ⟨error, ended⟩ <;> rw [ended] at sat <;> exact sat

theorem Sat.intro_ok {call : Exec ε σ α} {value : α} {after : σ} (ended : call before = .ok value after)
    (holds : returns value after) : Sat call before returns raises := by
  unfold Sat
  rwa [ended]

theorem Sat.of_ok {call : Exec ε σ α} {value : α} {after : σ}
    (sat : Sat call before returns raises) (ended : call before = .ok value after) :
    returns value after := by
  unfold Sat at sat
  rwa [ended] at sat

theorem Sat.of_throws {call : Exec ε σ α} {error : ε} {after : σ}
    (sat : Sat call before returns raises) (ended : call before = .throws error after) :
    raises error after := by
  unfold Sat at sat
  rwa [ended] at sat

/-- Every call satisfies the exact description of its own endings. -/
theorem sat_self (call : Exec ε σ α) (before : σ) :
    Sat call before (fun value state => call before = .ok value state)
      (fun error state => call before = .throws error state) := by
  unfold Sat
  cases call before <;> simp

end Rules

/-- The behaviour of the call is never undefined. -/
def Defined (call : Exec ε σ α) : Prop := ∀ before, call before ≠ .undefined

section Definedness

theorem defined_pure (value : α) : Defined (pure value : Exec ε σ α) := fun _ => nofun

theorem defined_get : Defined (get : Exec ε σ σ) := fun _ => nofun

theorem defined_modify (update : σ → σ) : Defined (modify update : Exec ε σ Unit) := fun _ => nofun

theorem defined_ofOption (error : ε) (value : Option α) : Defined (ofOption error value : Exec ε σ α) := by
  cases value <;> exact fun _ => nofun

theorem defined_throwIf (condition : Prop) [Decidable condition] (error : ε) :
    Defined (throwIf condition error : Exec ε σ Unit) := by
  unfold throwIf
  split <;> exact fun _ => nofun

theorem Defined.bind {first : Exec ε σ α} {next : α → Exec ε σ β} (definedFirst : Defined first)
    (definedNext : ∀ value, Defined (next value)) : Defined (first >>= next) := by
  intro before
  rw [bind_apply]
  cases ended : first before with
  | ok value state => exact definedNext value state
  | throws error state => exact nofun
  | undefined => exact (definedFirst before ended).elim

theorem Defined.ite {condition : Prop} [Decidable condition] {yes no : Exec ε σ α}
    (definedYes : Defined yes) (definedNo : Defined no) :
    Defined (if condition then yes else no) := by
  split
  · exact definedYes
  · exact definedNo

/-- A defined call whose exceptions are excluded returns. -/
theorem Defined.returns {call : Exec ε σ α} (defined : Defined call) {before : σ}
    {returns : α → σ → Prop} (sat : Sat call before returns fun _ _ => False) :
    ∃ value after, call before = .ok value after ∧ returns value after := by
  cases ended : call before with
  | ok value after => exact ⟨value, after, rfl, sat.of_ok ended⟩
  | throws error after => exact (sat.of_throws ended).elim
  | undefined => exact (defined before ended).elim

end Definedness

/-- The call, whose nested calls are bounded by a depth, returns when the bound is large enough. -/
def Returns (call : Nat → Exec ε σ α) (before : σ) (value : α) (after : σ) : Prop :=
  ∃ enough, ∀ depth ≥ enough, call depth before = .ok value after

theorem Returns.unique {call : Nat → Exec ε σ α} {before : σ} {value value' : α} {after after' : σ}
    (returns : Returns call before value after) (returns' : Returns call before value' after') :
    value = value' ∧ after = after' := by
  obtain ⟨enough, ended⟩ := returns
  obtain ⟨enough', ended'⟩ := returns'
  have same := (ended (max enough enough') (Nat.le_max_left _ _)).symm.trans
    (ended' (max enough enough') (Nat.le_max_right _ _))
  cases same
  exact ⟨rfl, rfl⟩

/-- The call leaves what `observe` sees of the state as it was, however it ends. -/
def Keeps {γ : Type} (call : Exec ε σ α) (observe : σ → γ) : Prop :=
  ∀ before, Sat call before (fun _ after => observe after = observe before)
    (fun _ after => observe after = observe before)

section Frames

variable {γ : Type} {observe : σ → γ}

theorem keeps_pure (value : α) : Keeps (pure value : Exec ε σ α) observe := fun _ => rfl

theorem keeps_throw (error : ε) : Keeps (throw error : Exec ε σ α) observe := fun _ => rfl

theorem keeps_undefined : Keeps (undefined : Exec ε σ α) observe := fun _ => trivial

theorem keeps_get : Keeps (get : Exec ε σ σ) observe := fun _ => rfl

theorem keeps_ofExcept (result : Except ε α) : Keeps (ofExcept result : Exec ε σ α) observe :=
  fun _ => (sat_ofExcept result).mpr ⟨fun _ _ => rfl, fun _ _ => rfl⟩

theorem keeps_throwIf (condition : Prop) [Decidable condition] (error : ε) :
    Keeps (throwIf condition error : Exec ε σ Unit) observe :=
  fun _ => (sat_throwIf condition error _).mpr ⟨fun _ => rfl, fun _ => rfl⟩

theorem keeps_modify {update : σ → σ} (same : ∀ state, observe (update state) = observe state) :
    Keeps (modify update : Exec ε σ Unit) observe := same

theorem Keeps.bind {first : Exec ε σ α} {next : α → Exec ε σ β} (keepsFirst : Keeps first observe)
    (keepsNext : ∀ value, Keeps (next value) observe) : Keeps (first >>= next) observe := by
  intro before
  rw [sat_bind]
  refine (keepsFirst before).mono (fun value middle kept => ?_) (fun _ _ kept => kept)
  exact (keepsNext value middle).mono (fun _ _ => (Eq.trans · kept)) (fun _ _ => (Eq.trans · kept))

theorem Keeps.ite {condition : Prop} [Decidable condition] {yes no : Exec ε σ α}
    (keepsYes : Keeps yes observe) (keepsNo : Keeps no observe) :
    Keeps (if condition then yes else no) observe := by
  split
  · exact keepsYes
  · exact keepsNo

/-- A call on one part keeps whatever does not look at that part. -/
theorem keeps_zoom {part : σ → τ} {update : τ → σ → σ} (inner : Exec ε τ α)
    (same : ∀ part' state, observe (update part' state) = observe state) :
    Keeps (zoom part update inner) observe := by
  intro before
  rw [sat_zoom]
  exact (sat_self inner _).mono (fun _ _ _ => same _ _) (fun _ _ _ => same _ _)

/-- After a call that keeps what a property is about, the property still holds. -/
theorem Keeps.sat {call : Exec ε σ α} (keeps : Keeps call observe) {property : γ → Prop} {before : σ}
    (holds : property (observe before)) :
    Sat call before (fun _ after => property (observe after)) (fun _ after => property (observe after)) :=
  (keeps before).mono (fun _ _ kept => kept ▸ holds) (fun _ _ kept => kept ▸ holds)

/-- A call that keeps the whole state keeps every property of it. -/
theorem Keeps.sat_id {call : Exec ε σ α} (keeps : Keeps call id) (property : σ → Prop) {before : σ}
    (holds : property before) :
    Sat call before (fun _ after => property after) (fun _ after => property after) :=
  keeps.sat holds

end Frames

end Exec

end Decentagram.Lib
