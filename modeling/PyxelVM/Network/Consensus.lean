/-
  PyxelVM.Network.Consensus — `ComputeConsensus` (`open_pyxel/network/consensus.py`).

  `accepted` asks whether more than half of the entries of a job are valid. It reads
  neither the node nor the result hash of a vote, so it is not the majority of the
  nodes that voted, for one result (`Majority`).

  - `repeated_vote_decides`: one node of two decides a job by voting twice.
  - `tally_iff`: the count is of the nodes behind one result exactly where every valid
    vote of the job is its node's only one and names the same result.
  - `accepted_has_majority`: along a run whose votes keep to that, what is accepted has
    a majority.
-/

import Mathlib.Data.Finset.Card
import Mathlib.Data.List.Nodup

namespace PyxelVM.Network

structure ComputeVote where
  nodeId : String
  jobId : String
  resultHash : String
  valid : Bool
  deriving DecidableEq, Repr

structure ComputeConsensus where
  votes : List ComputeVote := []

namespace ComputeConsensus

def addVote (c : ComputeConsensus) (v : ComputeVote) : ComputeConsensus := { c with votes := c.votes ++ [v] }

def votesOn (c : ComputeConsensus) (jobId : String) : List ComputeVote := c.votes.filter fun v => v.jobId == jobId

/-- `accepted`; more than `len(votes) / 2` is more than half. -/
def accepted (c : ComputeConsensus) (jobId : String) : Bool :=
  let votes := c.votesOn jobId
  if votes = [] then false else decide (votes.length < 2 * (votes.filter (·.valid)).length)

/-- The state after the calls of `add_vote`. -/
def cast (votes : List ComputeVote) : ComputeConsensus := votes.foldl addVote {}

/-! ## What a majority is -/

/-- The valid votes of the job. -/
def validOn (c : ComputeConsensus) (jobId : String) : List ComputeVote := (c.votesOn jobId).filter (·.valid)

/-- The nodes that voted on the job. -/
def voters (c : ComputeConsensus) (jobId : String) : Finset String := ((c.votesOn jobId).map (·.nodeId)).toFinset

/-- The nodes with a valid vote for this result of the job. -/
def backers (c : ComputeConsensus) (jobId resultHash : String) : Finset String :=
  (((c.validOn jobId).filter fun v => v.resultHash == resultHash).map (·.nodeId)).toFinset

/-- More than half of the nodes that voted on the job stand behind one result. -/
def Majority (c : ComputeConsensus) (jobId : String) : Prop :=
  ∃ resultHash, (c.voters jobId).card < 2 * (c.backers jobId resultHash).card

/-- Two valid votes of different nodes for the same result. -/
def Agree (u v : ComputeVote) : Prop := u.nodeId ≠ v.nodeId ∧ u.resultHash = v.resultHash

/-! ## What is counted -/

theorem votes_cast (votes : List ComputeVote) : (cast votes).votes = votes := by
  have h (vs : List ComputeVote) (c : ComputeConsensus) : (vs.foldl addVote c).votes = c.votes ++ vs := by
    induction vs generalizing c with
    | nil => simp
    | cons v vs ih => rw [List.foldl_cons, ih]; simp [addVote]
  exact h votes {}

theorem card_backers_le (c : ComputeConsensus) (jobId resultHash : String) :
    (c.backers jobId resultHash).card ≤ ((c.validOn jobId).filter fun v => v.resultHash == resultHash).length := by
  have h := List.toFinset_card_le (((c.validOn jobId).filter fun v => v.resultHash == resultHash).map (·.nodeId))
  rwa [List.length_map] at h

theorem card_voters_le (c : ComputeConsensus) (jobId : String) : (c.voters jobId).card ≤ (c.votesOn jobId).length := by
  have h := List.toFinset_card_le ((c.votesOn jobId).map (·.nodeId))
  rwa [List.length_map] at h

/-- The valid entries are as many as the nodes behind one result exactly where no two are of one node or for
    different results. -/
theorem tally_iff (c : ComputeConsensus) (jobId : String) :
    (∃ resultHash, (c.validOn jobId).length = (c.backers jobId resultHash).card) ↔ (c.validOn jobId).Pairwise Agree := by
  constructor
  · rintro ⟨hash, h⟩
    -- nothing is lost by taking only the votes for the result, nor by counting each node once
    have hle := card_backers_le c jobId hash
    have hfl := List.length_filter_le (fun v : ComputeVote => v.resultHash == hash) (c.validOn jobId)
    have hall : ∀ v ∈ c.validOn jobId, (v.resultHash == hash) = true := List.length_filter_eq_length_iff.mp (by omega)
    rw [backers, List.filter_eq_self.mpr hall] at h
    have hnodup : ((c.validOn jobId).map (·.nodeId)).Nodup := by
      rw [List.card_toFinset, ← List.length_map (f := fun v : ComputeVote => v.nodeId)] at h
      exact List.dedup_eq_self.mp ((List.dedup_sublist _).eq_of_length h.symm)
    refine (List.pairwise_map.mp hnodup).imp_of_mem ?_
    intro u v hu hv hne
    exact ⟨hne, (eq_of_beq (hall u hu)).trans (eq_of_beq (hall v hv)).symm⟩
  · intro h
    cases hv : c.validOn jobId with
    | nil => exact ⟨"", by simp [backers, hv]⟩
    | cons v vs =>
      have hall : ∀ u ∈ c.validOn jobId, (u.resultHash == v.resultHash) = true := by
        rw [hv] at h ⊢
        intro u hu
        rcases List.mem_cons.mp hu with rfl | hu
        · simp
        · simp [((List.pairwise_cons.mp h).1 u hu).2]
      have hnodup : ((c.validOn jobId).map (·.nodeId)).Nodup := List.pairwise_map.mpr (h.imp fun hab => hab.1)
      refine ⟨v.resultHash, ?_⟩
      rw [← hv, backers, List.filter_eq_self.mpr hall, List.toFinset_card_of_nodup hnodup, List.length_map]

theorem majority_of_agree {c : ComputeConsensus} {jobId : String} (h : (c.validOn jobId).Pairwise Agree)
    (ha : c.accepted jobId = true) : c.Majority jobId := by
  obtain ⟨hash, hcount⟩ := (tally_iff c jobId).mpr h
  have hv := card_voters_le c jobId
  refine ⟨hash, ?_⟩
  simp only [accepted] at ha
  split at ha
  · cases ha
  · have hlt := of_decide_eq_true ha
    rw [← hcount]
    exact Nat.lt_of_le_of_lt hv hlt

/-! ## Runs -/

/-- The vote is not valid, or its node has no valid vote on the job yet and every valid vote there names its result. -/
def Fresh (c : ComputeConsensus) (v : ComputeVote) : Prop := v.valid = true → ∀ u ∈ c.validOn v.jobId, Agree u v

theorem validOn_snoc (votes : List ComputeVote) (v : ComputeVote) (jobId : String) :
    (cast (votes ++ [v])).validOn jobId =
      (cast votes).validOn jobId ++ if v.jobId = jobId ∧ v.valid = true then [v] else [] := by
  simp only [validOn, votesOn, votes_cast, List.filter_append]
  by_cases hj : v.jobId = jobId <;> by_cases hv : v.valid = true <;> simp [hj, hv]

theorem agree_of_fresh {votes : List ComputeVote} (h : ∀ a v b, votes = a ++ v :: b → (cast a).Fresh v) (jobId : String) :
    ((cast votes).validOn jobId).Pairwise Agree := by
  induction votes using List.reverseRecOn with
  | nil => exact .nil
  | append_singleton votes v ih =>
    have hvotes := ih fun a u b e => h a u (b ++ [v]) (by simp [e])
    have hv := h votes v [] rfl
    rw [validOn_snoc]
    split
    · rename_i e
      obtain ⟨rfl, hvalid⟩ := e
      apply List.pairwise_append.mpr
      refine ⟨hvotes, List.pairwise_singleton _ _, ?_⟩
      intro u hu w hw
      rw [List.mem_singleton.mp hw]
      exact hv hvalid u hu
    · rwa [List.append_nil]

/-- Along a run in which every valid vote is the first of its node on the job and names the result of the valid votes
    there, a job that is accepted has a majority, in every state. -/
theorem accepted_has_majority (votes : List ComputeVote) (h : ∀ a v b, votes = a ++ v :: b → (cast a).Fresh v)
    (a b : List ComputeVote) (e : votes = a ++ b) (jobId : String) (ha : (cast a).accepted jobId = true) :
    (cast a).Majority jobId :=
  majority_of_agree (agree_of_fresh (fun p v q hpq => h p v (q ++ b) (by simp [e, hpq])) jobId) ha

/-- Two of three nodes for one result. -/
theorem accepted_two_of_three :
    (cast [⟨"a", "job", "hash", true⟩, ⟨"b", "job", "", false⟩, ⟨"c", "job", "hash", true⟩]).Majority "job" := by
  apply accepted_has_majority
    [⟨"a", "job", "hash", true⟩, ⟨"b", "job", "", false⟩, ⟨"c", "job", "hash", true⟩] ?_ _ [] rfl "job"
  · decide
  · intro a v b e hv u hu
    rcases a with _ | ⟨x, _ | ⟨y, _ | ⟨z, a⟩⟩⟩
    · simp [cast, validOn, votesOn] at hu
    · simp at e; rw [← e.2.1] at hv; cases hv
    · simp at e
      obtain ⟨rfl, rfl, rfl, -⟩ := e
      simp [validOn, votesOn, votes_cast] at hu
      rw [hu]
      exact ⟨by decide, rfl⟩
    · simp at e

/-- Node `a` votes twice and node `b` against it: the job is accepted, though not more than half stand behind it. -/
theorem repeated_vote_decides :
    ¬∀ votes jobId, (cast votes).accepted jobId = true → (cast votes).Majority jobId := by
  intro h
  obtain ⟨hash, hm⟩ := h [⟨"a", "job", "hash", true⟩, ⟨"b", "job", "", false⟩, ⟨"a", "job", "hash", true⟩] "job" (by decide)
  have hvoters : ((cast [⟨"a", "job", "hash", true⟩, ⟨"b", "job", "", false⟩, ⟨"a", "job", "hash", true⟩]).voters
    "job").card = 2 := by decide
  have hbackers : (cast [⟨"a", "job", "hash", true⟩, ⟨"b", "job", "", false⟩, ⟨"a", "job", "hash", true⟩]).backers
      "job" hash ⊆ {"a"} := by
    intro n hn
    simp [backers, validOn, votesOn, votes_cast] at hn
    simp [hn]
  have := Finset.card_le_card hbackers
  rw [Finset.card_singleton] at this
  omega

end ComputeConsensus

end PyxelVM.Network
