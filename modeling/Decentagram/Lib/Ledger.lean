import Mathlib.Algebra.Order.BigOperators.Group.List
import Mathlib.Algebra.Order.Group.Nat
import Mathlib.Algebra.GroupWithZero.Nat

/-! # Ledgers

The total of the accounts that a list names, and how it moves when an account changes or is opened. -/

namespace Decentagram.Lib.Ledger

variable {κ ν : Type}

def total (amount : ν → Nat) (accounts : List κ) (ledger : κ → ν) : Nat :=
  (accounts.map fun account => amount (ledger account)).sum

variable {amount : ν → Nat} {accounts : List κ} {ledger : κ → ν} {account : κ} {entry : ν}

theorem total_concat :
    total amount (accounts ++ [account]) ledger =
      total amount accounts ledger + amount (ledger account) := by
  simp [total]

theorem amount_le_total (known : account ∈ accounts) :
    amount (ledger account) ≤ total amount accounts ledger :=
  List.single_le_sum (by simp) _ (List.mem_map_of_mem known)

variable [DecidableEq κ]

theorem total_update_of_notMem (unknown : account ∉ accounts) :
    total amount accounts (Function.update ledger account entry) = total amount accounts ledger := by
  unfold total
  congr 1
  refine List.map_congr_left fun other known => ?_
  have different : other ≠ account := fun same => unknown (same ▸ known)
  rw [Function.update_of_ne different]

/-- The total moves by as much as the account does. -/
theorem total_update (known : account ∈ accounts) (nodup : accounts.Nodup) :
    total amount accounts (Function.update ledger account entry) + amount (ledger account) =
      total amount accounts ledger + amount entry := by
  induction accounts with
  | nil => simp at known
  | cons first rest inductionHypothesis =>
    have cons_total : ∀ entries : κ → ν,
        total amount (first :: rest) entries = amount (entries first) + total amount rest entries :=
      fun entries => List.sum_cons
    obtain ⟨unknown, nodupRest⟩ := List.nodup_cons.mp nodup
    rw [cons_total, cons_total]
    by_cases same : account = first
    · subst same
      rw [total_update_of_notMem unknown, Function.update_self]
      omega
    · have inRest : account ∈ rest := (List.mem_cons.mp known).resolve_left same
      rw [Function.update_of_ne (Ne.symm same)]
      have := inductionHypothesis inRest nodupRest
      omega

end Decentagram.Lib.Ledger
