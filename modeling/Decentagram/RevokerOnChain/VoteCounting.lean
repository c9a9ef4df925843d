import Decentagram.Lib.Result
import Decentagram.RevokerOnChain.RevokerByVoting
import Mathlib.Data.Fintype.Card
import Mathlib.Data.List.Count

/-! # Votes are counted exactly

While a notification is published, the vote that caused it has been recorded and its identifier is
revoked, but the call has not succeeded yet.  The invariant `Tally` therefore has the list of such
pending votes as a parameter: at the end of a transaction it is empty.
-/

namespace Decentagram.Revoker.RevokerByVoting

open Decentagram.Lib
open Decentagram.PubSub (Address Bytes Revert Uint256)

variable {n : Nat}

/-! ## The bytes of an identifier -/

theorem encodePacked_injective : Function.Injective (encodePacked : Id n → Bytes) := by
  intro first second same
  apply BitVec.eq_of_getLsbD_eq
  intro bit inWord
  have position : n - 1 - bit / 8 < n := by omega
  have bytes := congrArg (fun bytes => bytes[n - 1 - bit / 8]?) same
  simp only [encodePacked, List.getElem?_map, List.getElem?_range position, Option.map_some,
    Option.some.injEq, UInt8.ofBitVec.injEq] at bytes
  have bits := congrArg (fun byte => byte.getLsbD (bit % 8)) bytes
  have back : 8 * (n - 1 - (n - 1 - bit / 8)) + bit % 8 = bit := by omega
  simpa [BitVec.getLsbD_extractLsb', back, Nat.mod_lt] using bits

/-! ## What one transaction does -/

def castVote (sender : Address) (numVotes : Uint256) (vote : VoteStruct) : VoteStruct where
  numVotes
  stakeholder := Function.update vote.stakeholder sender true

/-- The vote is recorded for the sender. -/
def recorded (sender : Address) (id : Id n) (numVotes : Uint256) (world : World n) : World n :=
  { world with revoker := setVote id (castVote sender numVotes) world.revoker }

def revoking (id : Id n) (world : World n) : World n :=
  let revoked := Function.update world.revoker.revoked id true
  { world with revoker := { world.revoker with revoked } }

section Evaluation

variable {sender : Address} {id : Id n} {before : World n}

theorem revokeVote_panics (others : World n → Option (World n))
    (entitled : before.revoker.stakeHolders sender = true)
    (voted : (before.revoker.votes id).stakeholder sender = false)
    (counted : Checked.add (before.revoker.votes id).numVotes 1#256 = none) :
    ∃ left, revokeVote others sender id before = .throws .panic left := by
  simp [revokeVote, require, entitled, voted, onRevoker, setVote, counted, Exec.ofOption]

theorem revokeVote_counts (others : World n → Option (World n)) {numVotes : Uint256}
    (entitled : before.revoker.stakeHolders sender = true)
    (voted : (before.revoker.votes id).stakeholder sender = false)
    (counted : Checked.add (before.revoker.votes id).numVotes 1#256 = some numVotes) :
    revokeVote others sender id before =
      if before.revoker.revoked id = false ∧ before.revoker.voteThreshold ≤ numVotes then
        notifySubscribers others (encodePacked id) (revoking id (recorded sender id numVotes before))
      else
        .ok () (recorded sender id numVotes before) := by
  simp [revokeVote, require, entitled, voted, onRevoker, setVote, counted, Exec.ofOption, recorded,
    castVote, revoking]

end Evaluation

theorem transact_cases (others : World n → Option (World n)) (sender : Address) (id : Id n)
    (before : World n) :
    transact others sender id before = before ∨
      before.revoker.stakeHolders sender = true ∧
      (before.revoker.votes id).stakeholder sender = false ∧
      ∃ numVotes, Checked.add (before.revoker.votes id).numVotes 1 = some numVotes ∧
        (((before.revoker.revoked id = true ∨ numVotes < before.revoker.voteThreshold) ∧
            transact others sender id before = { recorded sender id numVotes before with
              succeeded := before.succeeded ++ [(sender, id)] }) ∨
          (before.revoker.revoked id = false ∧ before.revoker.voteThreshold ≤ numVotes ∧
            ∃ inside, others (revoking id (recorded sender id numVotes before)) = some inside ∧
              transact others sender id before = { inside with
                published := inside.published ++ [encodePacked id]
                succeeded := inside.succeeded ++ [(sender, id)] })) := by
  by_cases entitled : before.revoker.stakeHolders sender = true
  · by_cases voted : (before.revoker.votes id).stakeholder sender = true
    · left
      simp [transact, revokeVote, require, entitled, voted]
    · simp only [Bool.not_eq_true] at voted
      cases counted : Checked.add (before.revoker.votes id).numVotes 1 with
      | none =>
        left
        obtain ⟨left, throws⟩ := revokeVote_panics others entitled voted counted
        simp only [transact, throws]
      | some numVotes =>
        have runs := revokeVote_counts others entitled voted counted
        by_cases enough : before.revoker.revoked id = false ∧ before.revoker.voteThreshold ≤ numVotes
        · rw [if_pos enough] at runs
          cases ended : others (revoking id (recorded sender id numVotes before)) with
          | none =>
            left
            simp only [transact, runs, notifySubscribers, ended]
          | some inside =>
            right
            refine ⟨entitled, voted, numVotes, rfl, .inr ⟨enough.1, enough.2, inside, ended, ?_⟩⟩
            simp only [transact, runs, notifySubscribers, ended]
        · rw [if_neg enough] at runs
          right
          refine ⟨entitled, voted, numVotes, rfl, .inl ⟨?_, ?_⟩⟩
          · simpa [imp_iff_not_or] using enough
          · simp only [transact, runs]
            rfl
  · left
    simp [transact, revokeVote, require, entitled]

/-! ## The invariant -/

/-- Flags and counters of the votes are those of the votes cast. -/
structure Counts (deployed : RevokerByVoting n) (cast : List (Address × Id n))
    (votes : Id n → VoteStruct) : Prop where
  once : cast.Nodup
  entitled : ∀ entry ∈ cast, deployed.stakeHolders entry.1 = true
  flagged : ∀ sender id, (votes id).stakeholder sender = true ↔ (sender, id) ∈ cast
  counted : ∀ id, (votes id).numVotes.toNat = cast.countP fun entry => entry.2 = id

/-- The books agree, where the votes of `pending` have been recorded and their notifications are still
    to be published. -/
structure Tally (deployed : RevokerByVoting n) (pending : List (Address × Id n)) (world : World n) :
    Prop where
  stakeHolders : world.revoker.stakeHolders = deployed.stakeHolders
  voteThreshold : world.revoker.voteThreshold = deployed.voteThreshold
  counts : Counts deployed (world.succeeded ++ pending) world.revoker.votes
  revoked : ∀ id, world.revoker.revoked id = true ↔
    deployed.voteThreshold ≤ (world.revoker.votes id).numVotes
  published : ∀ id, world.published.count (encodePacked id) +
    (pending.countP fun entry => entry.2 = id) = if world.revoker.revoked id then 1 else 0
  nothingElse : ∀ data ∈ world.published, ∃ id : Id n, data = encodePacked id

variable {deployed : RevokerByVoting n} {pending : List (Address × Id n)} {sender : Address} {id : Id n}

theorem Counts.record {cast cast' : List (Address × Id n)} {revoker : RevokerByVoting n}
    (counts : Counts deployed cast revoker.votes) (entitled : deployed.stakeHolders sender = true)
    (voted : (revoker.votes id).stakeholder sender = false) {numVotes : Uint256}
    (increment : Checked.add (revoker.votes id).numVotes 1 = some numVotes)
    (books : cast'.Perm ((sender, id) :: cast)) :
    Counts deployed cast' (setVote id (castVote sender numVotes) revoker).votes := by
  have new : (sender, id) ∉ cast := by
    rw [← counts.flagged, voted]
    exact Bool.false_ne_true
  refine ⟨books.nodup_iff.mpr (List.nodup_cons.mpr ⟨new, counts.once⟩), ?_, ?_, ?_⟩
  · intro entry member
    cases List.mem_cons.mp (books.mem_iff.mp member) with
    | inl same => rw [same, entitled]
    | inr old => exact counts.entitled entry old
  · intro sender' id'
    rw [books.mem_iff, List.mem_cons, ← counts.flagged]
    by_cases sameId : id' = id
    · subst sameId
      by_cases sameSender : sender' = sender
      · simp [setVote, castVote, sameSender]
      · simp [setVote, castVote, sameSender]
    · simp [setVote, sameId]
  · intro id'
    rw [books.countP_eq, List.countP_cons, ← counts.counted]
    by_cases sameId : id' = id
    · subst sameId
      have sum := Checked.add_eq_some_iff.mp increment
      simpa [setVote, castVote] using sum
    · simp [setVote, sameId, Ne.symm sameId]

/-- A vote that revokes nothing is in the books as one that has succeeded. -/
theorem Tally.recorded {before : World n} (tally : Tally deployed pending before)
    (entitled : before.revoker.stakeHolders sender = true)
    (voted : (before.revoker.votes id).stakeholder sender = false) {numVotes : Uint256}
    (increment : Checked.add (before.revoker.votes id).numVotes 1 = some numVotes)
    (noChange : before.revoker.revoked id = true ∨ numVotes < before.revoker.voteThreshold) :
    Tally deployed pending { recorded sender id numVotes before with
      succeeded := before.succeeded ++ [(sender, id)] } := by
  have books : (before.succeeded ++ [(sender, id)] ++ pending).Perm
      ((sender, id) :: (before.succeeded ++ pending)) := by
    simp only [List.append_assoc, List.singleton_append]
    exact List.perm_middle
  refine ⟨tally.stakeHolders, tally.voteThreshold,
    tally.counts.record (tally.stakeHolders ▸ entitled) voted increment books, ?_, tally.published,
    tally.nothingElse⟩
  intro id'
  by_cases same : id' = id
  · subst same
    have increased := Checked.add_eq_some_iff.mp increment
    have before_iff := tally.revoked id'
    rw [tally.voteThreshold] at noChange
    simp only [RevokerByVoting.recorded, setVote, castVote, Function.update_self, BitVec.le_def,
      BitVec.lt_def] at *
    rcases noChange with already | less
    · have held := before_iff.mp already
      simp only [already, true_iff]
      omega
    · constructor
      · intro already
        have held := before_iff.mp already
        omega
      · intro enough
        omega
  · simpa [RevokerByVoting.recorded, setVote, same] using tally.revoked id'

/-- A vote that revokes is in the books, and its notification is pending. -/
theorem Tally.revoking {before : World n} (tally : Tally deployed pending before)
    (entitled : before.revoker.stakeHolders sender = true)
    (voted : (before.revoker.votes id).stakeholder sender = false) {numVotes : Uint256}
    (increment : Checked.add (before.revoker.votes id).numVotes 1 = some numVotes)
    (notRevoked : before.revoker.revoked id = false)
    (enough : before.revoker.voteThreshold ≤ numVotes) :
    Tally deployed ((sender, id) :: pending)
      (revoking id (RevokerByVoting.recorded sender id numVotes before)) := by
  refine ⟨tally.stakeHolders, tally.voteThreshold,
    tally.counts.record (tally.stakeHolders ▸ entitled) voted increment List.perm_middle, ?_, ?_,
    tally.nothingElse⟩
  · intro id'
    by_cases same : id' = id
    · subst same
      simpa [RevokerByVoting.revoking, RevokerByVoting.recorded, setVote, castVote] using
        tally.voteThreshold ▸ enough
    · simpa [RevokerByVoting.revoking, RevokerByVoting.recorded, setVote, same] using tally.revoked id'
  · intro id'
    have publishedBefore := tally.published id'
    simp only [RevokerByVoting.revoking, RevokerByVoting.recorded, setVote, List.countP_cons]
    by_cases same : id' = id
    · subst same
      simp only [notRevoked, Bool.false_eq_true, if_false] at publishedBefore
      simp
      omega
    · simpa [same, Ne.symm same] using publishedBefore

/-- The notification is published and the call returns. -/
theorem Tally.publish {inside : World n} (tally : Tally deployed ((sender, id) :: pending) inside) :
    Tally deployed pending { inside with
      published := inside.published ++ [encodePacked id]
      succeeded := inside.succeeded ++ [(sender, id)] } := by
  refine ⟨tally.stakeHolders, tally.voteThreshold, ?_, tally.revoked, ?_, ?_⟩
  · simpa using tally.counts
  · intro id'
    rw [← tally.published id', List.count_append, List.countP_cons]
    by_cases same : id = id'
    · subst same
      simp
      omega
    · have different : encodePacked id ≠ encodePacked id' := fun equal =>
        same (encodePacked_injective equal)
      simp [different, same]
  · intro data member
    cases List.mem_append.mp member with
    | inl old => exact tally.nothingElse data old
    | inr new => exact ⟨id, List.mem_singleton.mp new⟩

theorem reaches_tally {start after : World n} (reaches : Reaches start after) :
    ∀ pending, Tally deployed pending start → Tally deployed pending after := by
  induction reaches with
  | refl => exact fun _ tally => tally
  | @transact start before others sender id _ _ reachedBefore nested =>
    intro pending tally
    have tallyBefore := reachedBefore pending tally
    rcases transact_cases others sender id before with undone |
      ⟨entitled, voted, numVotes, counts, ⟨noChange, equal⟩ | ⟨notRevoked, enough, inside, ended, equal⟩⟩
    · rw [undone]
      exact tallyBefore
    · rw [equal]
      exact tallyBefore.recorded entitled voted counts noChange
    · rw [equal]
      have marked := tallyBefore.revoking entitled voted counts notRevoked enough
      exact (nested _ _ ended _ marked).publish

/-- Nothing that happens un-revokes an identifier. -/
theorem reaches_revoked {start after : World n} (reaches : Reaches start after) {id : Id n}
    (revoked : start.revoker.revoked id = true) : after.revoker.revoked id = true := by
  induction reaches with
  | refl => exact revoked
  | @transact start before others sender id' _ _ reachedBefore nested =>
    have before_revoked := reachedBefore revoked
    rcases transact_cases others sender id' before with undone |
      ⟨-, -, numVotes, -, ⟨-, equal⟩ | ⟨-, -, inside, ended, equal⟩⟩
    · rw [undone]
      exact before_revoked
    · rw [equal]
      exact before_revoked
    · rw [equal]
      apply nested _ _ ended
      by_cases same : id = id'
      · simp [revoking, same]
      · simpa [revoking, recorded, setVote, same] using before_revoked

/-! ## From the constructor on -/

theorem threshold_spec {length threshold' : Uint256} (computed : threshold length = some threshold') :
    threshold'.toNat = length.toNat * 2 / 3 + if length.toNat % 2 = 0 then 1 else 0 := by
  simp only [threshold, Option.bind_eq_bind, Option.bind_eq_some_iff] at computed
  obtain ⟨product, multiplied, voteThreshold, divided, rest⟩ := computed
  rw [Checked.mul_eq_some_iff] at multiplied
  rw [Checked.div_eq_some_iff] at divided
  have even_iff : length % 2 = 0 ↔ length.toNat % 2 = 0 := by
    rw [← BitVec.toNat_inj, BitVec.toNat_umod]
    rfl
  simp only [even_iff] at rest
  split at rest
  · next even =>
    rw [Checked.add_eq_some_iff] at rest
    simp only [even, if_true, rest, divided.2, multiplied]
    rfl
  · next odd =>
    cases rest
    simp only [odd, if_false, divided.2, multiplied]
    rfl

theorem stakeHolders_iff (stakeholders : List Address) (start : Address → Bool) (addr : Address) :
    stakeholders.foldl (fun stakeHolders stakeholder => Function.update stakeHolders stakeholder true)
      start addr = true ↔ addr ∈ stakeholders ∨ start addr = true := by
  induction stakeholders generalizing start with
  | nil => simp
  | cons stakeholder later inductionHypothesis =>
    rw [List.foldl_cons, inductionHypothesis, List.mem_cons]
    by_cases same : addr = stakeholder
    · simp [same]
    · simp [same]

theorem requireUnique_ok {stakeholders : List Address} (accepted : requireUnique stakeholders = .ok ()) :
    stakeholders.Nodup := by
  induction stakeholders with
  | nil => exact List.nodup_nil
  | cons stakeholder later inductionHypothesis =>
    by_cases repeated : stakeholder ∈ later
    · simp [requireUnique, repeated] at accepted
    · simp only [requireUnique, repeated] at accepted
      exact List.nodup_cons.mpr ⟨repeated, inductionHypothesis (by simpa using accepted)⟩

theorem length_le_of_nodup {stakeholders : List Address} (unique : stakeholders.Nodup) :
    stakeholders.length ≤ 2 ^ 160 := by
  have words : (stakeholders.map BitVec.toFin).Nodup := unique.map BitVec.toFin_injective
  simpa using words.length_le_card

/-- What the constructor accepts, and the state it leaves. -/
theorem deploy_ok {registered : Option Address} {stakeholders : List Address}
    {revoker : RevokerByVoting n} (accepted : deploy registered stakeholders = .ok revoker) :
    3 ≤ stakeholders.length ∧ stakeholders.Nodup ∧
      revoker.voteThreshold.toNat =
        stakeholders.length * 2 / 3 + (if stakeholders.length % 2 = 0 then 1 else 0) ∧
      (∀ addr, revoker.stakeHolders addr = true ↔ addr ∈ stakeholders) ∧
      (∀ id, revoker.revoked id = false) ∧
      ∀ id, revoker.votes id = { numVotes := 0, stakeholder := fun _ => false } := by
  unfold deploy at accepted
  by_cases few : stakeholders.length < 3
  · simp [few] at accepted
  simp only [few, if_false, bind_eq_ok, exists_unit] at accepted
  obtain ⟨unique, accepted⟩ := accepted
  have nodup := requireUnique_ok unique
  cases computed : threshold (BitVec.ofNat 256 stakeholders.length) with
  | none => simp [computed] at accepted
  | some voteThreshold =>
    cases registered with
    | none => simp [computed] at accepted
    | some eventMgrAddr =>
      simp only [computed, pure_eq_ok] at accepted
      subst accepted
      have short := length_le_of_nodup nodup
      have length : (BitVec.ofNat 256 stakeholders.length).toNat = stakeholders.length := by
        rw [BitVec.toNat_ofNat, Nat.mod_eq_of_lt (by omega)]
      have reads := threshold_spec computed
      rw [length] at reads
      refine ⟨by omega, nodup, reads, ?_, fun _ => rfl, fun _ => rfl⟩
      intro addr
      simp [stakeHolders_iff]

/-- The world right after the constructor. -/
def initial (revoker : RevokerByVoting n) : World n := { revoker, published := [], succeeded := [] }

theorem tally_initial {registered : Option Address} {stakeholders : List Address}
    {revoker : RevokerByVoting n} (accepted : deploy registered stakeholders = .ok revoker) :
    Tally revoker [] (initial revoker) := by
  obtain ⟨enough, -, threshold, -, notRevoked, noVotes⟩ := deploy_ok accepted
  refine ⟨rfl, rfl, ⟨by simp [initial], by simp [initial], ?_, ?_⟩, ?_, ?_, by simp [initial]⟩
  · intro sender id
    simp [initial, noVotes]
  · intro id
    simp [initial, noVotes]
  · intro id
    simp only [initial, notRevoked, noVotes, BitVec.le_def]
    simp
    omega
  · intro id
    simp [initial, notRevoked]

theorem mem_voters {world : World n} {voter : Address} :
    voter ∈ voters world id ↔ (voter, id) ∈ world.succeeded := by
  simp [voters]

theorem Tally.card_voters {world : World n} (tally : Tally deployed [] world) (id : Id n) :
    (world.revoker.votes id).numVotes.toNat = (voters world id).card := by
  have counted := tally.counts.counted id
  have once := tally.counts.once
  rw [List.append_nil] at counted once
  have distinct : ((world.succeeded.filter fun entry => entry.2 = id).map Prod.fst).Nodup := by
    apply (once.filter _).map_on
    intro first inFirst second inSecond same
    simp only [List.mem_filter, decide_eq_true_eq] at inFirst inSecond
    exact Prod.ext same (inFirst.2.trans inSecond.2.symm)
  rw [counted, voters, List.toFinset_card_of_nodup distinct, List.length_map, List.countP_eq_length_filter]

/-- After each transaction, whatever other code does while notifications are published: the count of an
    identifier is the number of distinct stakeholders whose votes for it succeeded, it is revoked iff the
    count has reached the threshold, one notification is published for each revoked identifier and no
    other, and a revoked identifier stays revoked. -/
theorem votes_exact {registered : Option Address} {stakeholders : List Address}
    {revoker : RevokerByVoting n} (accepted : deploy registered stakeholders = .ok revoker)
    {world : World n} (reached : Reaches (initial revoker) world) :
    world.revoker.voteThreshold.toNat =
        stakeholders.length * 2 / 3 + (if stakeholders.length % 2 = 0 then 1 else 0) ∧
      (∀ id, (world.revoker.votes id).numVotes.toNat = (voters world id).card ∧
        voters world id ⊆ stakeholders.toFinset ∧
        (isRevoked world.revoker id = true ↔
          world.revoker.voteThreshold ≤ (world.revoker.votes id).numVotes) ∧
        world.published.count (encodePacked id) = (if isRevoked world.revoker id then 1 else 0)) ∧
      (∀ data ∈ world.published, ∃ id, data = encodePacked id ∧ isRevoked world.revoker id = true) ∧
      ∀ later, Reaches world later → ∀ id, isRevoked world.revoker id = true →
        isRevoked later.revoker id = true := by
  obtain ⟨-, -, threshold, stakeHolders_iff, -, -⟩ := deploy_ok accepted
  have tally := reaches_tally reached [] (tally_initial accepted)
  have published : ∀ id, world.published.count (encodePacked id) =
      if isRevoked world.revoker id then 1 else 0 := by
    intro id
    exact tally.published id
  refine ⟨tally.voteThreshold ▸ threshold, ?_, ?_, ?_⟩
  · intro id
    refine ⟨tally.card_voters id, ?_, ?_, published id⟩
    · intro voter member
      have cast := mem_voters.mp member
      have entitled := tally.counts.entitled (voter, id) (by simpa using cast)
      simpa [stakeHolders_iff] using entitled
    · rw [tally.voteThreshold]
      exact tally.revoked id
  · intro data member
    obtain ⟨id, rfl⟩ := tally.nothingElse data member
    refine ⟨id, rfl, ?_⟩
    by_contra notRevoked
    have none := published id
    rw [if_neg notRevoked] at none
    exact List.count_eq_zero.mp none member
  · intro later reachedLater id revoked
    exact reaches_revoked reachedLater revoked

/-- Two votes revoke an enclave; the third stakeholder votes while the notification is published. -/
theorem votes_exact_sample :
    ∃ (revoker : EnclaveRevokerByVoting) (world : World 32),
      deploy (some 7) [1, 2, 3] = .ok revoker ∧ Reaches (initial revoker) world ∧
        world.succeeded = [(1, 5), (3, 5), (2, 5)] ∧
        (world.revoker.votes 5).numVotes.toNat = (voters world 5).card ∧
        world.published.count (encodePacked (5 : Id 32)) =
          (if isRevoked world.revoker 5 then 1 else 0) := by
  let quietly : World 32 → Option (World 32) := some
  let voting : World 32 → Option (World 32) := fun world => some (transact quietly 3 5 world)
  have nested : ∀ world inside, voting world = some inside → Reaches world inside := by
    rintro world _ ⟨⟩
    exact .transact .refl (by rintro _ _ ⟨⟩; exact .refl)
  have first : ∀ revoker, Reaches (initial revoker) (transact quietly 1 5 (initial revoker)) :=
    fun _ => .transact .refl (by rintro _ _ ⟨⟩; exact .refl)
  have reached : ∀ revoker, Reaches (initial revoker)
      (transact voting 2 5 (transact quietly 1 5 (initial revoker))) :=
    fun revoker => .transact (first revoker) nested
  obtain ⟨revoker, accepted, succeeded⟩ : ∃ revoker, deploy (some 7) [1, 2, 3] = .ok revoker ∧
      (transact voting 2 5 (transact quietly 1 5 (initial revoker))).succeeded =
        [(1, 5), (3, 5), (2, 5)] := ⟨_, rfl, by rfl⟩
  have exact := (votes_exact accepted (reached revoker)).2.1 5
  exact ⟨revoker, _, accepted, reached revoker, succeeded, exact.1, exact.2.2.2⟩

end Decentagram.Revoker.RevokerByVoting
