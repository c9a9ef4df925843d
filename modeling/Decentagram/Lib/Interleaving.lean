import Decentagram.Lib.Run
import Mathlib.Algebra.Ring.Nat

/-! # Interleaved calls

Calls that run at the same time over a shared state.  Each call is at some point of its code and takes
one atomic step at a time; between the steps the environment may change the shared state and start
further calls.  The rule for invariants is that of assertions free of interference: an assertion about a
call is kept by its own steps and by everybody else's.
-/

namespace Decentagram.Lib

/-- A step of one of the calls, with what it is free to choose, or an event outside of them. -/
inductive Turn (ι ε : Type) where
  | call (index : Nat) (choice : ι)
  | event (event : ε)
deriving DecidableEq, Repr

structure Pool (σ τ : Type) where
  shared : σ
  calls : List τ
deriving DecidableEq, Repr

/-- What calls are made of: the next atomic step of a call, and what an event does and starts. -/
structure Program (σ τ ι ε : Type) where
  next : σ → τ → ι → Option (σ × τ)
  event : σ → ε → Option (σ × List τ)

namespace Program

variable {σ τ ι ε : Type} (program : Program σ τ ι ε)

def execute (pool : Pool σ τ) : Turn ι ε → Option (Pool σ τ)
  | .call index choice => do
    let call ← pool.calls[index]?
    let (shared, call') ← program.next pool.shared call choice
    some { shared, calls := pool.calls.set index call' }
  | .event event => do
    let (shared, started) ← program.event pool.shared event
    some { shared, calls := pool.calls ++ started }

def Step (before : Pool σ τ) (turn : Turn ι ε) (after : Pool σ τ) : Prop :=
  program.execute before turn = some after

/-- A step is the next step of the call at an index, or an event. -/
theorem step_cases {before after : Pool σ τ} {turn : Turn ι ε}
    (step : program.Step before turn after) :
    (∃ index choice call shared call', turn = .call index choice ∧ before.calls[index]? = some call ∧
      program.next before.shared call choice = some (shared, call') ∧
      after = { shared, calls := before.calls.set index call' }) ∨
    ∃ event shared started, turn = .event event ∧
      program.event before.shared event = some (shared, started) ∧
      after = { shared, calls := before.calls ++ started } := by
  cases turn with
  | call index choice =>
    obtain ⟨call, found, step⟩ := Option.bind_eq_some_iff.mp step
    obtain ⟨⟨shared, call'⟩, next, returned⟩ := Option.bind_eq_some_iff.mp step
    cases returned
    exact .inl ⟨index, choice, call, shared, call', rfl, found, next, rfl⟩
  | event event =>
    obtain ⟨⟨shared, started⟩, happens, returned⟩ := Option.bind_eq_some_iff.mp step
    cases returned
    exact .inr ⟨event, shared, started, rfl, happens, rfl⟩

end Program

/-- An invariant of the shared state, and an assertion about every call. -/
structure Pool.Holds {σ τ : Type} (pool : Pool σ τ) (invariant : σ → Prop)
    (assertion : σ → τ → Prop) : Prop where
  shared : invariant pool.shared
  calls : ∀ call ∈ pool.calls, assertion pool.shared call

namespace Pool.Holds

variable {σ τ ι ε : Type} {program : Program σ τ ι ε} {before after : Pool σ τ} {turn : Turn ι ε}
  {invariant invariant' : σ → Prop} {assertion assertion' : σ → τ → Prop}

/-- The rule for one step.  `others` is the freedom from interference. -/
theorem step (holds : before.Holds invariant assertion) (step : program.Step before turn after)
    (others : ∀ call ∈ before.calls, assertion before.shared call → assertion' after.shared call)
    (own : ∀ index choice call call', turn = .call index choice → before.calls[index]? = some call →
      assertion before.shared call →
      program.next before.shared call choice = some (after.shared, call') →
      invariant' after.shared ∧ assertion' after.shared call')
    (event : ∀ event started, turn = .event event →
      program.event before.shared event = some (after.shared, started) →
      invariant' after.shared ∧ ∀ call ∈ started, assertion' after.shared call) :
    after.Holds invariant' assertion' := by
  cases program.step_cases step with
  | inl steps =>
    obtain ⟨index, choice, call, shared, call', isTurn, found, next, rfl⟩ := steps
    have member := List.mem_of_getElem? found
    obtain ⟨kept, asserted⟩ :=
      own index choice call call' isTurn found (holds.calls call member) next
    refine ⟨kept, fun other otherMember => ?_⟩
    cases List.mem_or_eq_of_mem_set otherMember with
    | inl old => exact others other old (holds.calls other old)
    | inr new => exact new ▸ asserted
  | inr happens =>
    obtain ⟨event', shared, started, isTurn, happened, rfl⟩ := happens
    obtain ⟨kept, asserted⟩ := event event' started isTurn happened
    refine ⟨kept, fun other otherMember => ?_⟩
    cases List.mem_append.mp otherMember with
    | inl old => exact others other old (holds.calls other old)
    | inr new => exact asserted other new

end Pool.Holds

/-! ## Mutual exclusion -/

theorem eq_of_countP_le_one {α : Type} {counts : α → Bool} {entries : List α}
    (single : entries.countP counts ≤ 1) {index other : Nat} {entry otherEntry : α}
    (found : entries[index]? = some entry) (foundOther : entries[other]? = some otherEntry)
    (counted : counts entry = true) (countedOther : counts otherEntry = true) : index = other := by
  induction entries generalizing index other with
  | nil => simp at found
  | cons head rest inductionHypothesis =>
    -- a second one behind the head would be counted beside it
    have alone {place : Nat} {later : α} (isHead : counts head = true)
        (behind : rest[place]? = some later) (isCounted : counts later = true) : False := by
      have positive := List.countP_pos_iff.mpr ⟨later, List.mem_of_getElem? behind, isCounted⟩
      rw [List.countP_cons, if_pos isHead] at single
      omega
    cases index with
    | zero =>
      cases other with
      | zero => rfl
      | succ other =>
        cases found
        exact (alone counted foundOther countedOther).elim
    | succ index =>
      cases other with
      | zero =>
        cases foundOther
        exact (alone countedOther found counted).elim
      | succ other =>
        have singleRest : rest.countP counts ≤ 1 :=
          Nat.le_trans (List.Sublist.countP_le (List.sublist_cons_self head rest)) single
        exact congrArg _ (inductionHypothesis singleRest found foundOther)

/-- What the entries add up to when one of them is replaced. -/
theorem sum_map_set {α : Type} {entries : List α} {index : Nat} {entry : α}
    (found : entries[index]? = some entry) (measure : α → Nat) (entry' : α) :
    ((entries.set index entry').map measure).sum + measure entry =
      (entries.map measure).sum + measure entry' := by
  induction entries generalizing index with
  | nil => simp at found
  | cons head rest inductionHypothesis =>
    cases index with
    | zero =>
      cases found
      simp only [List.set_cons_zero, List.map_cons, List.sum_cons]
      omega
    | succ index =>
      have sumRest := inductionHypothesis (show rest[index]? = some entry from found)
      simp only [List.set_cons_succ, List.map_cons, List.sum_cons]
      omega

/-- A mutex is held by one call, or free and held by none. -/
def Pool.Exclusive {σ τ : Type} (pool : Pool σ τ) (locked : σ → Bool) (holder : τ → Bool) : Prop :=
  pool.calls.countP holder = (locked pool.shared).toNat

namespace Pool.Exclusive

variable {σ τ ι ε : Type} {program : Program σ τ ι ε} {before after : Pool σ τ} {turn : Turn ι ε}
  {locked : σ → Bool} {holder : τ → Bool}

/-- No two calls hold the mutex. -/
theorem unique (exclusive : before.Exclusive locked holder) {index other : Nat} {call otherCall : τ}
    (found : before.calls[index]? = some call) (foundOther : before.calls[other]? = some otherCall)
    (holds : holder call = true) (holdsOther : holder otherCall = true) : index = other := by
  refine eq_of_countP_le_one ?_ found foundOther holds holdsOther
  rw [exclusive]
  exact Bool.toNat_le _

theorem locked_of_holder (exclusive : before.Exclusive locked holder) {index : Nat} {call : τ}
    (found : before.calls[index]? = some call) (holds : holder call = true) :
    locked before.shared = true := by
  have positive := List.countP_pos_iff.mpr ⟨call, List.mem_of_getElem? found, holds⟩
  rw [exclusive] at positive
  cases isLocked : locked before.shared with
  | true => rfl
  | false => simp [isLocked] at positive

/-- A step takes the free mutex, releases the one it holds, or leaves the mutex alone. -/
theorem step (exclusive : before.Exclusive locked holder) (step : program.Step before turn after)
    (own : ∀ choice call call', (holder call = true → locked before.shared = true) →
      program.next before.shared call choice = some (after.shared, call') →
      (holder call').toNat + (locked before.shared).toNat =
        (holder call).toNat + (locked after.shared).toNat)
    (event : ∀ event started, program.event before.shared event = some (after.shared, started) →
      locked after.shared = locked before.shared ∧ ∀ call ∈ started, holder call = false) :
    after.Exclusive locked holder := by
  cases program.step_cases step with
  | inl steps =>
    obtain ⟨index, choice, call, shared, call', -, found, next, rfl⟩ := steps
    have balanced := own choice call call' (exclusive.locked_of_holder found) next
    obtain ⟨inRange, rfl⟩ := List.getElem?_eq_some_iff.mp found
    have positive : holder before.calls[index] = true → 0 < before.calls.countP holder :=
      fun holds => List.countP_pos_iff.mpr ⟨_, List.getElem_mem inRange, holds⟩
    simp only [Exclusive, List.countP_set inRange] at exclusive ⊢
    cases isHolder : holder before.calls[index] <;> cases becomes : holder call' <;>
      simp_all <;> omega
  | inr happens =>
    obtain ⟨event', shared, started, -, happened, rfl⟩ := happens
    obtain ⟨unchanged, outside⟩ := event event' started happened
    have none : started.countP holder = 0 := by simpa [List.countP_eq_zero] using outside
    simp only [Exclusive, List.countP_append, none] at exclusive ⊢
    rw [unchanged]
    exact exclusive

end Pool.Exclusive

namespace Pool.Holds

variable {σ τ ι ε : Type} {program : Program σ τ ι ε} {before after : Pool σ τ} {turn : Turn ι ε}
  {invariant invariant' : σ → Prop} {assertion assertion' : σ → τ → Prop} {locked : σ → Bool}
  {holder : τ → Bool}

/-- The rule for one step when the calls share a mutex: a call that holds it meets no interference from
    another one that does. -/
theorem step_of_exclusive (holds : before.Holds invariant assertion)
    (exclusive : before.Exclusive locked holder) (step : program.Step before turn after)
    (own : ∀ choice call call', assertion before.shared call →
      program.next before.shared call choice = some (after.shared, call') →
      invariant' after.shared ∧ assertion' after.shared call')
    (others : ∀ choice call call' other, assertion before.shared call →
      program.next before.shared call choice = some (after.shared, call') →
      assertion before.shared other → ¬ (holder call = true ∧ holder other = true) →
      assertion' after.shared other)
    (event : ∀ event started, program.event before.shared event = some (after.shared, started) →
      invariant' after.shared ∧ (∀ call ∈ started, assertion' after.shared call) ∧
      ∀ other, assertion before.shared other → assertion' after.shared other) :
    after.Holds invariant' assertion' := by
  cases program.step_cases step with
  | inl steps =>
    obtain ⟨index, choice, call, shared, call', -, found, next, rfl⟩ := steps
    have asserted := holds.calls call (List.mem_of_getElem? found)
    obtain ⟨kept, assertedAfter⟩ := own choice call call' asserted next
    refine ⟨kept, fun other member => ?_⟩
    obtain ⟨place, foundOther⟩ := List.mem_iff_getElem?.mp member
    by_cases same : index = place
    · subst same
      obtain ⟨inRange, -⟩ := List.getElem?_eq_some_iff.mp found
      rw [List.getElem?_set_self inRange] at foundOther
      cases foundOther
      exact assertedAfter
    · rw [List.getElem?_set_ne same] at foundOther
      have apart : ¬ (holder call = true ∧ holder other = true) := by
        rintro ⟨holdsMutex, otherHolds⟩
        exact same (exclusive.unique found foundOther holdsMutex otherHolds)
      exact others choice call call' other asserted next
        (holds.calls other (List.mem_of_getElem? foundOther)) apart
  | inr happens =>
    obtain ⟨event', shared, started, -, happened, rfl⟩ := happens
    obtain ⟨kept, assertedNew, assertedOld⟩ := event event' started happened
    refine ⟨kept, fun other member => ?_⟩
    cases List.mem_append.mp member with
    | inl old => exact assertedOld other (holds.calls other old)
    | inr new => exact assertedNew other new

end Pool.Holds

end Decentagram.Lib
