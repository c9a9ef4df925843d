import Decentagram.RevokerOnChain.VoteCounting

/-! # The threshold and two thirds of the stakeholders

The constructor rounds the quotient up where the number of stakeholders is even, which is not where
the division by three leaves a remainder.
-/

namespace Decentagram.Revoker.RevokerByVoting

open Decentagram.Lib
open Decentagram.PubSub (Address Bytes Revert Uint256)

variable {n : Nat} {registered : Option Address} {stakeholders : List Address}
  {revoker : RevokerByVoting n}

theorem rounded_iff (length : Nat) :
    2 * length ≤ 3 * (length * 2 / 3 + (if length % 2 = 0 then 1 else 0)) ↔
      length % 2 = 0 ∨ length % 3 = 0 := by
  split <;> omega

theorem rounded_le {length : Nat} (enough : 3 ≤ length) :
    length * 2 / 3 + (if length % 2 = 0 then 1 else 0) ≤ length := by
  split <;> omega

/-! ## Everyone votes -/

/-- Nobody else acts while the notification is published. -/
def quietly (world : World n) : Option (World n) := some world

/-- The listed stakeholders vote for the identifier, one after the other. -/
def voteAll (id : Id n) (stakeholders : List Address) (world : World n) : World n :=
  stakeholders.foldl (fun world stakeholder => transact quietly stakeholder id world) world

theorem reaches_transact_quietly {start before : World n} (reached : Reaches start before)
    (sender : Address) (id : Id n) : Reaches start (transact quietly sender id before) := by
  apply Reaches.transact reached
  intro world inside ended
  cases ended
  exact .refl

theorem reaches_voteAll {start before : World n} (reached : Reaches start before) (id : Id n)
    (voting : List Address) : Reaches start (voteAll id voting before) := by
  induction voting generalizing before with
  | nil => exact reached
  | cons stakeholder later inductionHypothesis =>
    exact inductionHypothesis (reaches_transact_quietly reached stakeholder id)

section Deployed

variable (accepted : deploy registered stakeholders = .ok revoker)
include accepted

theorem card_voters_le {world : World n} (reached : Reaches (initial revoker) world) (id : Id n) :
    (voters world id).card ≤ stakeholders.length := by
  have subset := ((votes_exact accepted reached).2.1 id).2.1
  exact (Finset.card_le_card subset).trans (List.toFinset_card_le stakeholders)

/-- After its call a stakeholder is among the voters, also where the call reverts. -/
theorem voters_transact {world : World n} (reached : Reaches (initial revoker) world)
    {sender : Address} (entitled : sender ∈ stakeholders) (id : Id n) :
    voters (transact quietly sender id world) id = insert sender (voters world id) := by
  obtain ⟨-, unique, -, holders, -, -⟩ := deploy_ok accepted
  have tally := reaches_tally reached [] (tally_initial accepted)
  have holder : world.revoker.stakeHolders sender = true := by
    rw [tally.stakeHolders, holders]
    exact entitled
  have flagged := tally.counts.flagged sender id
  rw [List.append_nil, ← mem_voters] at flagged
  cases voted : (world.revoker.votes id).stakeholder sender with
  | true =>
    have undone : transact quietly sender id world = world := by
      simp [transact, revokeVote, require, holder, voted]
    rw [undone, Finset.insert_eq_of_mem (flagged.mp voted)]
  | false =>
    -- There are fewer stakeholders than the counter can count.
    have counted := ((votes_exact accepted reached).2.1 id).1
    have fewVoters := card_voters_le accepted reached id
    have fewStakeholders := length_le_of_nodup unique
    have increment : Checked.add (world.revoker.votes id).numVotes 1#256 =
        some ((world.revoker.votes id).numVotes + 1#256) := by
      rw [Checked.add_eq_some_iff, BitVec.toNat_add]
      simp only [BitVec.toNat_ofNat]
      omega
    have runs := revokeVote_counts quietly holder voted increment
    have succeeded : (transact quietly sender id world).succeeded =
        world.succeeded ++ [(sender, id)] := by
      split at runs <;> simp [transact, runs, notifySubscribers, quietly, revoking, recorded]
    ext voter
    simp [mem_voters, succeeded, or_comm]

theorem voters_voteAll {world : World n} (reached : Reaches (initial revoker) world)
    {voting : List Address} (entitled : voting ⊆ stakeholders) (id : Id n) :
    voters (voteAll id voting world) id = voting.toFinset ∪ voters world id := by
  induction voting generalizing world with
  | nil => simp [voteAll]
  | cons stakeholder later inductionHypothesis =>
    obtain ⟨first, others⟩ := List.cons_subset.mp entitled
    have rest := inductionHypothesis (reaches_transact_quietly reached stakeholder id) others
    rw [voters_transact accepted reached first] at rest
    rw [List.toFinset_cons, Finset.insert_union, ← Finset.union_insert]
    exact rest

theorem isRevoked_iff {world : World n} (reached : Reaches (initial revoker) world) (id : Id n) :
    isRevoked world.revoker id = true ↔
      stakeholders.length * 2 / 3 + (if stakeholders.length % 2 = 0 then 1 else 0) ≤
        (voters world id).card := by
  obtain ⟨threshold, votes, -, -⟩ := votes_exact accepted reached
  obtain ⟨counted, -, revoked_iff, -⟩ := votes id
  rw [revoked_iff, BitVec.le_def, threshold, counted]

/-- Any `count` of the stakeholders can be the voters of an identifier. -/
theorem exists_voters {count : Nat} (atMost : count ≤ stakeholders.length) (id : Id n) :
    ∃ world, Reaches (initial revoker) world ∧ (voters world id).card = count := by
  obtain ⟨-, unique, -⟩ := deploy_ok accepted
  refine ⟨voteAll id (stakeholders.take count) (initial revoker), reaches_voteAll .refl _ _, ?_⟩
  have none : voters (initial revoker) id = ∅ := by simp [voters, initial]
  rw [voters_voteAll accepted .refl (List.take_subset count stakeholders), none, Finset.union_empty,
    List.toFinset_card_of_nodup (unique.sublist (List.take_sublist count stakeholders)),
    List.length_take, Nat.min_eq_left atMost]

/-- All stakeholders together revoke whatever they vote for. -/
theorem isRevoked_voteAll {world : World n} (reached : Reaches (initial revoker) world) (id : Id n) :
    isRevoked (voteAll id stakeholders world).revoker id = true := by
  obtain ⟨enough, unique, -⟩ := deploy_ok accepted
  rw [isRevoked_iff accepted (reaches_voteAll reached id stakeholders)]
  apply (rounded_le enough).trans
  rw [← List.toFinset_card_of_nodup unique, voters_voteAll accepted reached (List.Subset.refl _)]
  exact Finset.card_le_card Finset.subset_union_left

end Deployed

/-! ## Two thirds -/

/-- The law of the threshold, and what it is for: in no state is an identifier revoked with the votes of
    fewer than two thirds, and in every state the votes of all stakeholders revoke it. -/
structure TwoThirdsMajority (stakeholders : List Address) (revoker : RevokerByVoting n) : Prop where
  threshold : 2 * stakeholders.length ≤ 3 * revoker.voteThreshold.toNat ∧
    revoker.voteThreshold.toNat ≤ stakeholders.length
  fewer : ∀ world, Reaches (initial revoker) world → ∀ id, isRevoked world.revoker id = true →
    2 * stakeholders.length ≤ 3 * (voters world id).card
  together : ∀ world, Reaches (initial revoker) world → ∀ id,
    isRevoked (voteAll id stakeholders world).revoker id = true

/-- For a number of stakeholders that is odd and no multiple of three the threshold is too low, and then
    a run exists in which fewer than two thirds of them revoke. -/
theorem two_thirds_iff (accepted : deploy registered stakeholders = .ok revoker) :
    (TwoThirdsMajority stakeholders revoker ↔
      stakeholders.length % 2 = 0 ∨ stakeholders.length % 3 = 0) ∧
    ((∃ world id, Reaches (initial revoker) world ∧ isRevoked world.revoker id = true ∧
        3 * (voters world id).card < 2 * stakeholders.length) ↔
      ¬ (stakeholders.length % 2 = 0 ∨ stakeholders.length % 3 = 0)) := by
  obtain ⟨enough, -, threshold, -⟩ := deploy_ok accepted
  have law := rounded_iff stakeholders.length
  constructor
  · constructor
    · intro majority
      rw [← law, ← threshold]
      exact majority.threshold.1
    · intro divisible
      have rounded := law.mpr divisible
      constructor
      · rw [threshold]
        exact ⟨rounded, rounded_le enough⟩
      · intro world reached id revoked
        have votes := (isRevoked_iff accepted reached id).mp revoked
        omega
      · intro world reached id
        exact isRevoked_voteAll accepted reached id
  · constructor
    · rintro ⟨world, id, reached, revoked, few⟩ divisible
      have votes := (isRevoked_iff accepted reached id).mp revoked
      have rounded := law.mpr divisible
      omega
    · intro indivisible
      -- Exactly as many stakeholders vote as the threshold asks for.
      obtain ⟨world, reached, votes⟩ := exists_voters accepted (rounded_le enough) (0 : Id n)
      refine ⟨world, 0, reached, (isRevoked_iff accepted reached 0).mpr votes.ge, ?_⟩
      have rounded := mt law.mp indivisible
      omega

theorem two_thirds_iff_sample :
    ∃ revoker : KeyRevokerByVoting, deploy (some 7) [1, 2, 3, 4] = .ok revoker ∧
      (TwoThirdsMajority [1, 2, 3, 4] revoker ↔ 4 % 2 = 0 ∨ 4 % 3 = 0) := by
  obtain ⟨revoker, accepted⟩ : ∃ revoker : KeyRevokerByVoting,
      deploy (some 7) [1, 2, 3, 4] = .ok revoker := ⟨_, rfl⟩
  exact ⟨revoker, accepted, (two_thirds_iff accepted).1⟩

/-- Three of five stakeholders revoke an enclave. -/
theorem three_of_five_revoke :
    ∃ revoker : EnclaveRevokerByVoting, deploy (some 7) [1, 2, 3, 4, 5] = .ok revoker ∧
      revoker.voteThreshold = 3 ∧ ¬ 2 * 5 ≤ 3 * revoker.voteThreshold.toNat ∧
      isRevoked (voteAll 9 [1, 2, 3] (initial revoker)).revoker 9 = true :=
  ⟨_, rfl, by decide, by decide, by rfl⟩

end Decentagram.Revoker.RevokerByVoting
