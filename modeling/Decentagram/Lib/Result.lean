/-! # Computations that fail without an effect

How an `Except` computation returns: rules for each construct, from which the inversion lemma of a
function is read off.
-/

namespace Decentagram.Lib

variable {ε α β : Type}

@[simp] theorem bind_eq_ok {first : Except ε α} {next : α → Except ε β} {result : β} :
    first >>= next = .ok result ↔ ∃ value, first = .ok value ∧ next value = .ok result := by
  cases first <;> simp [bind, Except.bind]

theorem ok_bind (value : α) (next : α → Except ε β) : (.ok value >>= next) = next value := rfl

/-- A step that returns nothing. -/
@[simp] theorem exists_unit {holds : Unit → Prop} : (∃ value, holds value) ↔ holds () :=
  ⟨fun ⟨_, here⟩ => here, fun here => ⟨(), here⟩⟩

@[simp] theorem pure_eq_ok {value result : α} :
    (pure value : Except ε α) = .ok result ↔ value = result := by
  simp [pure, Except.pure]

@[simp] theorem throw_eq_ok {error : ε} {result : α} :
    (throw error : Except ε α) = .ok result ↔ False := by
  simp [throw, throwThe, MonadExceptOf.throw]

theorem eq_ok_of_toOption {result : Except ε α} {value : α} (returned : result.toOption = some value) :
    result = .ok value := by
  cases result with
  | error _ => cases returned
  | ok _ =>
    cases returned
    rfl

/-- `require`: the rest is reached only if the condition holds. -/
theorem ite_throw_eq_ok {condition : Prop} [Decidable condition] {error : ε}
    {next : Except ε α} {result : α} :
    (if condition then next else throw error) = .ok result ↔ condition ∧ next = .ok result := by
  by_cases holds : condition <;> simp [holds]

theorem throw_ite_eq_ok {condition : Prop} [Decidable condition] {error : ε}
    {next : Except ε α} {result : α} :
    (if condition then throw error else next) = .ok result ↔ ¬ condition ∧ next = .ok result := by
  by_cases holds : condition <;> simp [holds]

/-- Where the first computation returns, the second one returns the same. -/
def Extends (first second : Except ε α) : Prop := ∀ value, first = .ok value → second = .ok value

namespace Extends

theorem refl (result : Except ε α) : Extends result result := fun _ returned => returned

theorem bind {first second : Except ε α} {next next' : α → Except ε β} (extended : Extends first second)
    (nextExtended : ∀ value, Extends (next value) (next' value)) :
    Extends (first >>= next) (second >>= next') := by
  intro result returned
  obtain ⟨value, isValue, returned⟩ := bind_eq_ok.mp returned
  exact bind_eq_ok.mpr ⟨value, extended value isValue, nextExtended value result returned⟩

/-- The same code behind two computations. -/
theorem andThen {first second : Except ε α} (extended : Extends first second) (next : α → Except ε β) :
    Extends (first >>= next) (second >>= next) := extended.bind fun _ => refl _

theorem ite {condition : Prop} [Decidable condition] {yes yes' no no' : Except ε α}
    (yesExtended : Extends yes yes') (noExtended : Extends no no') :
    Extends (if condition then yes else no) (if condition then yes' else no') := by
  split
  · exact yesExtended
  · exact noExtended

end Extends

end Decentagram.Lib
