import Mathlib.Data.List.Basic
import Mathlib.Data.List.Induction
import Mathlib.Data.List.Nodup

/-! # Runs of a step relation

A run records the steps taken, oldest first, each as the state before it and its label.  A guarded
run is one whose every step meets a condition on exactly these two.  `Run.invariant` is the
induction that all results about runs use: the invariant may speak of the steps already taken.
-/

namespace Decentagram.Lib

variable {σ ι : Type}

inductive Run (step : σ → ι → σ → Prop) (start : σ) : List (σ × ι) → σ → Prop where
  | nil : Run step start [] start
  | snoc {taken : List (σ × ι)} {before after : σ} {label : ι} :
      Run step start taken before → step before label after →
      Run step start (taken ++ [(before, label)]) after

namespace Run

variable {step : σ → ι → σ → Prop} {start : σ}

/-- An invariant that a guarded step keeps holds after every guarded run. -/
theorem invariant (guard : σ → ι → Prop) (property : List (σ × ι) → σ → Prop)
    (initially : property [] start)
    (preserved : ∀ taken before label after, property taken before → guard before label →
      step before label after → property (taken ++ [(before, label)]) after)
    {taken : List (σ × ι)} {final : σ} (run : Run step start taken final)
    (guarded : ∀ entry ∈ taken, guard entry.1 entry.2) : property taken final := by
  induction run with
  | nil => exact initially
  | @snoc taken before after label _ stepped inductionHypothesis =>
    have held := inductionHypothesis fun entry member => guarded entry (by simp [member])
    exact preserved _ _ _ _ held (guarded (before, label) (by simp)) stepped

/-- The same for a condition that also looks at the steps already taken. -/
theorem invariant_of_history (guard : List (σ × ι) → σ → ι → Prop)
    (property : List (σ × ι) → σ → Prop) (initially : property [] start)
    (preserved : ∀ taken before label after, property taken before → guard taken before label →
      step before label after → property (taken ++ [(before, label)]) after)
    {taken : List (σ × ι)} {final : σ} (run : Run step start taken final)
    (guarded : ∀ earlier before label later, taken = earlier ++ (before, label) :: later →
      guard earlier before label) : property taken final := by
  induction run with
  | nil => exact initially
  | @snoc taken before after label _ stepped inductionHypothesis =>
    have held := inductionHypothesis fun earlier before' label' later split =>
      guarded earlier before' label' (later ++ [(before, label)]) (by simp [split])
    exact preserved _ _ _ _ held (guarded taken before label [] rfl) stepped

/-- The run up to any step it took. -/
theorem upTo {taken : List (σ × ι)} {final : σ} (run : Run step start taken final)
    {earlier later : List (σ × ι)} {before : σ} {label : ι}
    (split : taken = earlier ++ (before, label) :: later) : Run step start earlier before := by
  induction run generalizing later with
  | nil => simp at split
  | @snoc taken middle after label' prefixRun stepped inductionHypothesis =>
    rcases List.eq_nil_or_concat later with rfl | ⟨front, last, rfl⟩
    · have same := List.append_inj_left' split rfl
      have entry := List.append_inj_right' split rfl
      simp only [List.cons.injEq, Prod.mk.injEq, and_true] at entry
      obtain ⟨rfl, rfl⟩ := entry
      exact same ▸ prefixRun
    · have aligned : taken ++ [(middle, label')] = (earlier ++ (before, label) :: front) ++ [last] := by
        rw [split]; simp
      exact inductionHypothesis (List.append_inj_left' aligned rfl)

theorem append {taken later : List (σ × ι)} {middle final : σ} (first : Run step start taken middle)
    (second : Run step middle later final) : Run step start (taken ++ later) final := by
  induction second with
  | nil => rwa [List.append_nil]
  | snoc _ stepped inductionHypothesis =>
    rw [← List.append_assoc]
    exact inductionHypothesis.snoc stepped

/-- Every step that is recorded was taken. -/
theorem stepped {taken : List (σ × ι)} {final : σ} (run : Run step start taken final) {entry : σ × ι}
    (member : entry ∈ taken) : ∃ after, step entry.1 entry.2 after := by
  induction run with
  | nil => cases member
  | snoc _ stepped inductionHypothesis =>
    cases List.mem_append.mp member with
    | inl earlier => exact inductionHypothesis earlier
    | inr last =>
      rw [List.mem_singleton.mp last]
      exact ⟨_, stepped⟩

/-- What the recorded steps show is all different when no step shows what an earlier one showed. -/
theorem nodup_filterMap_iff {α β : Type} (shows : α → Option β) (taken : List α) :
    (taken.filterMap shows).Nodup ↔ ∀ earlier entry later, taken = earlier ++ entry :: later →
      ∀ shown, shows entry = some shown → shown ∉ earlier.filterMap shows := by
  induction taken using List.reverseRecOn with
  | nil => simp
  | append_singleton taken last inductionHypothesis =>
    have rest : (taken.filterMap shows).Nodup ↔ ∀ earlier entry later,
        taken ++ [last] = earlier ++ entry :: (later ++ [last]) →
        ∀ shown, shows entry = some shown → shown ∉ earlier.filterMap shows := by
      rw [inductionHypothesis]
      refine forall₃_congr fun earlier entry later => ?_
      rw [← List.cons_append, ← List.append_assoc, List.append_left_inj]
    have lastOne : (∀ shown, shows last = some shown → shown ∉ taken.filterMap shows) ↔
        List.Disjoint (taken.filterMap shows) ([last].filterMap shows) := by
      cases showsLast : shows last <;> simp [showsLast]
    have single : ([last].filterMap shows).Nodup := by
      cases showsLast : shows last <;> simp [showsLast]
    rw [List.filterMap_append, List.nodup_append', ← lastOne, rest]
    constructor
    · rintro ⟨before, -, ends⟩ earlier entry later split
      rcases List.eq_nil_or_concat later with rfl | ⟨front, final, rfl⟩
      · obtain ⟨rfl, same⟩ := List.append_inj' split rfl
        cases same
        exact ends
      · have aligned : taken ++ [last] = (earlier ++ entry :: front) ++ [final] := by
          rw [split]
          simp
        obtain ⟨-, same⟩ := List.append_inj' aligned rfl
        cases same
        exact before earlier entry front (by simpa using split)
    · intro all
      exact ⟨fun earlier entry later => all earlier entry (later ++ [last]), single,
        all taken last [] rfl⟩

/-- Executes the labels one after the other, recording the steps. -/
def replay (execute : σ → ι → Option σ) :
    List ι → List (σ × ι) → σ → Option (List (σ × ι) × σ)
  | [], taken, state => some (taken, state)
  | label :: labels, taken, state =>
    (execute state label).bind fun after => replay execute labels (taken ++ [(state, label)]) after

theorem of_replay {execute : σ → ι → Option σ}
    (executes : ∀ before label after, execute before label = some after → step before label after)
    {labels : List ι} {taken taken' : List (σ × ι)} {middle final : σ}
    (run : Run step start taken middle)
    (replayed : replay execute labels taken middle = some (taken', final)) :
    Run step start taken' final := by
  induction labels generalizing taken middle with
  | nil =>
    cases replayed
    exact run
  | cons label labels inductionHypothesis =>
    obtain ⟨after, executed, rest⟩ := Option.bind_eq_some_iff.mp replayed
    exact inductionHypothesis (run.snoc (executes _ _ _ executed)) rest

/-- A run that is found by executing labels. -/
theorem exists_of_replay {execute : σ → ι → Option σ}
    (executes : ∀ before label after, execute before label = some after → step before label after)
    (labels : List ι) (property : List (σ × ι) → σ → Prop)
    [∀ taken final, Decidable (property taken final)]
    (reached : (replay execute labels [] start).any
      (fun reached => decide (property reached.1 reached.2)) = true) :
    ∃ taken final, Run step start taken final ∧ property taken final := by
  obtain ⟨⟨taken, final⟩, replayed, holds⟩ := (Option.any_eq_true _ _).mp reached
  exact ⟨taken, final, of_replay executes .nil replayed, of_decide_eq_true holds⟩

end Run

/-- A property of the steps taken and the state reached, at the end of a run and before each step. -/
def Throughout (property : List (σ × ι) → σ → Prop) (taken : List (σ × ι)) (final : σ) : Prop :=
  property taken final ∧ ∀ earlier before label later, taken = earlier ++ (before, label) :: later →
    property earlier before

theorem throughout_nil {property : List (σ × ι) → σ → Prop} {start : σ} :
    Throughout property [] start ↔ property [] start := by
  simp [Throughout]

theorem throughout_snoc {property : List (σ × ι) → σ → Prop} {taken : List (σ × ι)} {before after : σ}
    {label : ι} : Throughout property (taken ++ [(before, label)]) after ↔
      Throughout property taken before ∧ property (taken ++ [(before, label)]) after := by
  constructor
  · rintro ⟨atEnd, all⟩
    refine ⟨⟨all taken before label [] rfl, fun earlier middle label' later split => ?_⟩, atEnd⟩
    exact all earlier middle label' (later ++ [(before, label)]) (by simp [split])
  · rintro ⟨⟨atBefore, all⟩, atEnd⟩
    refine ⟨atEnd, fun earlier middle label' later split => ?_⟩
    rcases List.eq_nil_or_concat later with rfl | ⟨front, last, rfl⟩
    · obtain ⟨rfl, same⟩ := List.append_inj' split rfl
      cases same
      exact atBefore
    · have aligned : taken ++ [(before, label)] = (earlier ++ (middle, label') :: front) ++ [last] := by
        rw [split]
        simp
      exact all earlier middle label' front (List.append_inj_left' aligned rfl)

/-- The exact condition of an invariant: where a step keeps the property just when it meets the guard, a
    run has the property throughout just when all its steps meet the guard. -/
theorem Run.throughout_iff {step : σ → ι → σ → Prop} {start : σ} (guard : σ → ι → Prop)
    (property : List (σ × ι) → σ → Prop) (initially : property [] start)
    (kept : ∀ taken before label after, Run step start taken before → property taken before →
      step before label after → (property (taken ++ [(before, label)]) after ↔ guard before label))
    {taken : List (σ × ι)} {final : σ} (run : Run step start taken final) :
    Throughout property taken final ↔ ∀ entry ∈ taken, guard entry.1 entry.2 := by
  induction run with
  | nil => simpa [throughout_nil] using initially
  | @snoc taken before after label run stepped inductionHypothesis =>
    rw [throughout_snoc]
    constructor
    · rintro ⟨throughout, atEnd⟩ entry member
      cases List.mem_append.mp member with
      | inl earlier => exact inductionHypothesis.mp throughout entry earlier
      | inr last =>
        rw [List.mem_singleton.mp last]
        exact (kept _ _ _ _ run throughout.1 stepped).mp atEnd
    · intro guarded
      have throughout := inductionHypothesis.mpr fun entry member => guarded entry (by simp [member])
      exact ⟨throughout,
        (kept _ _ _ _ run throughout.1 stepped).mpr (guarded (before, label) (by simp))⟩

theorem forall_split_nil {property : List (σ × ι) → σ → ι → Prop} :
    ∀ earlier before label later, [] = earlier ++ (before, label) :: later →
    property earlier before label := by
  intro earlier before label later split
  simp at split

/-- What holds at every place of a row of steps, step by step. -/
theorem forall_split_cons {property : List (σ × ι) → σ → ι → Prop} {first : σ} {call : ι}
    {taken : List (σ × ι)}
    (atFirst : property [] first call) (behind : ∀ earlier before label later,
      taken = earlier ++ (before, label) :: later → property ((first, call) :: earlier) before label) :
    ∀ earlier before label later, (first, call) :: taken = earlier ++ (before, label) :: later →
      property earlier before label := by
  intro earlier before label later split
  cases earlier with
  | nil =>
    cases split
    exact atFirst
  | cons entry earlier =>
    cases split
    exact behind earlier before label later rfl

/-- One of the steps was such a step. -/
def Happened (event : σ → ι → Prop) (taken : List (σ × ι)) : Prop :=
  ∃ entry ∈ taken, event entry.1 entry.2

theorem not_happened_nil {event : σ → ι → Prop} : ¬ Happened event [] := by
  rintro ⟨_, member, _⟩
  cases member

theorem happened_snoc {event : σ → ι → Prop} {taken : List (σ × ι)} {before : σ} {label : ι} :
    Happened event (taken ++ [(before, label)]) ↔ Happened event taken ∨ event before label := by
  simp [Happened, or_and_right, exists_or]

end Decentagram.Lib
