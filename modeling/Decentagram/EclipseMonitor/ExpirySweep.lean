import Decentagram.EclipseMonitor.Confirmation

/-! # The sweep of expired nodes

The range-for over the active nodes with its iterator: the loop reads the entry the iterator stands on,
may erase it, and then increments the iterator.
-/

namespace Decentagram.Eth

open Decentagram.Lib

namespace EclipseMonitor

variable {κ ω δ ε : Type} (parts : Parts κ ω δ ε) (now : TrustedTimestamp)

/-- The loop from an iterator on, with the keys of the entries it visits.  `fuel` bounds the
    iterations. -/
def sweepLoop : Nat → Option Bytes → Exec Exception (EclipseMonitor κ ω δ) (List Bytes)
  | _, none => pure []
  | 0, some _ => Exec.undefined
  | fuel + 1, some key => do
    let monitor ← Exec.get
    match (monitor.activeNodes.lookup key).bind monitor.deref with
    | none => Exec.undefined
    | some header =>
      let alive ← Exec.ofExcept (parts.diffChecker.checkEstDifficulty monitor.diffState header now)
      if !alive then
        Exec.modify fun monitor => { monitor with activeNodes := monitor.activeNodes.erase key }
      match (← Exec.get).activeNodes.increment key with
      | none => Exec.undefined
      | some iterator => return key :: (← sweepLoop fuel iterator)

/-- What the check says of the header a node holds. -/
def estimate (monitor : EclipseMonitor κ ω δ) (node : NodeAddr) : Option (Except Exception Bool) :=
  (monitor.deref node).map fun header => parts.diffChecker.checkEstDifficulty monitor.diffState header now

variable {before : EclipseMonitor κ ω δ}

/-- The entries left of the iterator make no difference, so the loop with its iterator is the sweep
    of the monitor. -/
theorem sweepLoop_eq_sweep {front entries : List (Sigma fun _ : Bytes => NodeAddr)}
    (split : before.activeNodes.entries = front ++ entries) {fuel : Nat}
    (enough : entries.length ≤ fuel) :
    sweepLoop parts now fuel (entries.head?.map Sigma.fst) before =
      ((fun _ => entries.map Sigma.fst) <$> sweep parts now entries) before := by
  induction entries generalizing front fuel with
  | nil => cases fuel <;> rfl
  | cons entry rest inductionHypothesis =>
    obtain ⟨key, node⟩ := entry
    cases fuel with
    | zero => simp at enough
    | succ fuel =>
      have stored : before.activeNodes.lookup key = some node := by
        apply AList.mem_lookup_iff.mpr
        simp [split]
      have onward := UnorderedMap.increment_eq split
      have others := @inductionHypothesis (front ++ [⟨key, node⟩]) (by simp [split]) _
        (Nat.le_of_succ_le_succ enough)
      cases owned : before.deref node with
      | none => simp [sweepLoop, sweep, stored, owned]
      | some header =>
        cases checked : parts.diffChecker.checkEstDifficulty before.diffState header now with
        | error error => simp [sweepLoop, sweep, stored, owned, checked, Exec.ofExcept]
        | ok alive =>
          cases alive with
          | false =>
            -- the entry is erased, and the iterator stands on nothing
            have nowhere := UnorderedMap.increment_erase before.activeNodes key
            simp [sweepLoop, sweep, stored, owned, checked, Exec.ofExcept, nowhere]
          | true =>
            simp only [Exec.map_apply] at others
            cases ended : sweep parts now rest before <;>
              simp [sweepLoop, sweep, stored, owned, checked, Exec.ofExcept, onward, others, ended]

theorem sweep_returns_iff (entries : List (Sigma fun _ : Bytes => NodeAddr)) :
    (∃ after, sweep parts now entries before = .ok () after) ↔
      ∀ entry ∈ entries, estimate parts now before entry.2 = some (.ok true) := by
  induction entries with
  | nil => simp [sweep]
  | cons entry rest inductionHypothesis =>
    rw [List.forall_mem_cons, ← inductionHypothesis]
    cases owned : before.deref entry.2 with
    | none => simp [sweep, estimate, owned]
    | some header =>
      cases checked : parts.diffChecker.checkEstDifficulty before.diffState header now with
      | error error => simp [sweep, estimate, owned, checked, Exec.ofExcept]
      | ok alive => cases alive <;> simp [sweep, estimate, owned, checked, Exec.ofExcept]

/-- Where every check has a result, one entry that expires is enough, wherever it stands. -/
theorem sweep_undefined {entries : List (Sigma fun _ : Bytes => NodeAddr)}
    (estimated : ∀ entry ∈ entries, ∃ alive, estimate parts now before entry.2 = some (.ok alive))
    (expired : ∃ entry ∈ entries, estimate parts now before entry.2 = some (.ok false)) :
    sweep parts now entries before = .undefined := by
  induction entries with
  | nil => simp at expired
  | cons entry rest inductionHypothesis =>
    obtain ⟨⟨alive, first⟩, others⟩ := List.forall_mem_cons.mp estimated
    simp only [estimate, Option.map_eq_some_iff] at first
    obtain ⟨header, owned, checked⟩ := first
    cases alive with
    | false => simp [sweep, owned, checked, Exec.ofExcept]
    | true =>
      obtain ⟨entry', member, expires⟩ := expired
      cases List.mem_cons.mp member with
      | inl same => simp [same, estimate, owned, checked] at expires
      | inr later =>
        simp [sweep, owned, checked, Exec.ofExcept, inductionHypothesis others ⟨entry', later, expires⟩]

/-- The sweep visits every entry, and removes exactly those whose header fails the check. -/
structure SweepsExpired (before : EclipseMonitor κ ω δ) (visited : List Bytes)
    (after : EclipseMonitor κ ω δ) : Prop where
  visits : visited = before.activeNodes.keys
  removes : ∀ entry, entry ∈ after.activeNodes.entries ↔
    entry ∈ before.activeNodes.entries ∧ estimate parts now before entry.2 ≠ some (.ok false)

/-- The loop returns, as it should, exactly where it has nothing to remove. -/
theorem sweepLoop_exact_iff (before : EclipseMonitor κ ω δ) :
    (∃ visited after,
      Exec.Returns (fun fuel => sweepLoop parts now fuel before.activeNodes.begin) before visited after ∧
        SweepsExpired parts now before visited after) ↔
      ∀ entry ∈ before.activeNodes.entries, estimate parts now before entry.2 = some (.ok true) := by
  have loops : ∀ fuel ≥ before.activeNodes.entries.length,
      sweepLoop parts now fuel before.activeNodes.begin before =
        ((fun _ => before.activeNodes.keys) <$> sweep parts now before.activeNodes.entries) before := by
    intro fuel enough
    exact sweepLoop_eq_sweep parts now (List.nil_append _).symm enough
  rw [← sweep_returns_iff]
  constructor
  -- any larger amount of fuel gives the same run, so compare the two at the larger of both
  · rintro ⟨visited, after, ⟨enough, returns⟩, -⟩
    have returned := (loops _ (Nat.le_max_right enough _)).symm.trans (returns _ (Nat.le_max_left _ _))
    rw [Exec.map_apply] at returned
    cases ended : sweep parts now before.activeNodes.entries before with
    | ok value after => exact ⟨after, rfl⟩
    | throws error after => simp [ended] at returned
    | undefined => simp [ended] at returned
  · rintro ⟨after, ended⟩
    have same : after = before := (sweep_keeps parts id now _ before).of_ok ended
    subst same
    refine ⟨_, after, ⟨after.activeNodes.entries.length, ?_⟩, ⟨rfl, ?_⟩⟩
    · intro fuel enough
      simp [loops fuel enough, ended]
    · intro entry
      have survive := (sweep_returns_iff parts now _).mp ⟨after, ended⟩
      constructor
      · intro member
        simp [member, survive entry member]
      · exact And.left

/-- A header from before the Paris fork, received long ago, under an iterator and alone in the map. -/
def withExpiredNode : EclipseMonitor Empty Unit MinDiff :=
  let header := { HeaderMgr.init with blkNum := 7000000, trustedTime := 1700000000 }
  { SampleChain.start with
    checkpoint := { SampleChain.start.checkpoint with
      lastNode := some { addr := 0, header, syncState := 0, children := .nil } }
    activeNodes := UnorderedMap.emplace ∅ header.hashObj 0
    nextAddr := 1 }

theorem sweep_of_expired_node :
    ¬ ∃ visited after, Exec.Returns (fun fuel => sweepLoop SampleChain.parts 1700000100 fuel
        withExpiredNode.activeNodes.begin) withExpiredNode visited after ∧
      SweepsExpired SampleChain.parts 1700000100 withExpiredNode visited after := by
  have erases : ∀ fuel, sweepLoop SampleChain.parts 1700000100 (fuel + 1)
      withExpiredNode.activeNodes.begin withExpiredNode = .undefined := fun _ => rfl
  rintro ⟨visited, after, ⟨enough, returns⟩, -⟩
  have returned := (erases enough).symm.trans (returns (enough + 1) (Nat.le_succ enough))
  cases returned

end EclipseMonitor

end Decentagram.Eth
