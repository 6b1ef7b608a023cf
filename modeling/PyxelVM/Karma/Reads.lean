/-
  PyxelVM.Karma.Reads — what asking does to the memory.

  A query makes a fresh score for a node that has none, lifts a suspension older than a
  day, and may make a cluster's empty entry. `Reads now m m'` says that nothing else has
  happened from `m` to `m'`, at the clock reading `now`: the log, the queue and the
  rosters are as before, and a score is as before or its suspension was asked for. Every
  query reads: `reads_canParticipate`, `reads_getClusterInfo`, `reads_candidates`; so
  does a call of `join_cluster` up to where it enters the cluster: `joinCluster_cases`.
-/

import PyxelVM.Karma.System

namespace PyxelVM.Karma

open PyxelVM.Lib

/-! ## Reading a score and a roster -/

@[simp] theorem scoreOf_setScore (m : Memory) (n k : String) (sc : KarmaScore) :
    (m.setScore n sc).scoreOf k = if k = n then sc else m.scoreOf k := by
  unfold Memory.scoreOf Memory.setScore Dict.getD
  rw [Dict.get?_set]
  by_cases h : k = n <;> simp [h]

@[simp] theorem cluster_setScore (m : Memory) (n c : String) (sc : KarmaScore) : (m.setScore n sc).cluster c = m.cluster c := rfl

@[simp] theorem scoreOf_getScore (m : Memory) (n k : String) : (m.getScore n).scoreOf k = m.scoreOf k := by
  unfold Memory.getScore
  split
  · rfl
  · rename_i h
    have hn : m.scores.get? n = none := Dict.not_has_iff.mp (by simpa using h)
    unfold Memory.scoreOf Dict.getD
    rw [Dict.get?_set]
    by_cases e : k = n
    · simp [e, hn]
    · simp [e]

@[simp] theorem cluster_set (m : Memory) (c d : String) (ns : Finset String) :
    ({ m with clusters := m.clusters.set c ns } : Memory).cluster d = if d = c then ns else m.cluster d := by
  unfold Memory.cluster Dict.getD
  rw [Dict.get?_set]
  by_cases h : d = c <;> simp [h]

theorem scoreOf_of_not_has {m : Memory} {n : String} (h : m.scores.has n = false) : m.scoreOf n = { nodeId := n } := by
  have hn : m.scores.get? n = none := Dict.not_has_iff.mp h
  simp [Memory.scoreOf, Dict.getD, hn]

theorem scoreOf_of_get? {m : Memory} {n : String} {sc : KarmaScore} (h : m.scores.get? n = some sc) : m.scoreOf n = sc := by
  simp [Memory.scoreOf, Dict.getD, h]

/-! ## Asking for a suspension -/

/-- Asking answers the status and leaves it, or lifts a suspension that is over. -/
theorem isSuspended_cases (sc : KarmaScore) (now : Rat) :
    (¬(sc.suspensionStatus = true ∧ ∃ since, sc.suspensionTime = some since ∧ 86400 < now - since) ∧
        sc.isSuspended now = (sc.suspensionStatus, sc)) ∨
      sc.suspensionStatus = true ∧ ∃ since, sc.suspensionTime = some since ∧ 86400 < now - since ∧
        sc.isSuspended now = (false, { sc with suspensionStatus := false, consecutiveViolations := 0 }) := by
  cases hs : sc.suspensionStatus with
  | false => exact .inl ⟨fun h => absurd h.1 Bool.false_ne_true, by simp [KarmaScore.isSuspended, hs]⟩
  | true =>
    cases ht : sc.suspensionTime with
    | none => exact .inl ⟨by simp, by simp [KarmaScore.isSuspended, hs, ht]⟩
    | some since =>
      by_cases hover : now - since > 86400
      · exact .inr ⟨rfl, since, rfl, hover, by simp [KarmaScore.isSuspended, hs, ht, hover]⟩
      · refine .inl ⟨?_, by simp [KarmaScore.isSuspended, hs, ht, hover]⟩
        rintro ⟨-, since', h, hover'⟩
        exact hover (Option.some.inj h ▸ hover')

/-- What lifting leaves alone. -/
theorem isSuspended_score (sc : KarmaScore) (now : Rat) :
    ∃ status violations, (sc.isSuspended now).2 =
      { sc with suspensionStatus := status, consecutiveViolations := violations } := by
  rcases isSuspended_cases sc now with ⟨-, he⟩ | ⟨-, since, -, -, he⟩
  · exact ⟨_, _, congrArg Prod.snd he⟩
  · exact ⟨_, _, congrArg Prod.snd he⟩

@[simp] theorem isSuspended_memberships (sc : KarmaScore) (now : Rat) :
    (sc.isSuspended now).2.clusterMemberships = sc.clusterMemberships := by
  obtain ⟨_, _, h⟩ := isSuspended_score sc now
  rw [h]

/-- A suspension that is lifted once is lifted at every later time, so asking does not change a later answer. -/
theorem isSuspended_later (sc : KarmaScore) {now t : Rat} (h : now ≤ t) :
    ((sc.isSuspended now).2.isSuspended t).1 = (sc.isSuspended t).1 := by
  rcases isSuspended_cases sc now with ⟨-, he⟩ | ⟨hs, since, ht, hover, he⟩
  · rw [he]
  · have hlater : 86400 < t - since := lt_of_lt_of_le hover (sub_le_sub_right h since)
    rcases isSuspended_cases sc t with ⟨hnot, -⟩ | ⟨-, since', -, -, he'⟩
    · exact absurd ⟨hs, since, ht, hlater⟩ hnot
    · rw [he, he']
      rfl

theorem isSuspended_idem (sc : KarmaScore) (now : Rat) :
    ((sc.isSuspended now).2.isSuspended now).2 = (sc.isSuspended now).2 := by
  rcases isSuspended_cases sc now with ⟨-, he⟩ | ⟨-, since, -, -, he⟩
  · rw [he]
    exact congrArg Prod.snd he
  · rw [he]
    rfl

/-! ## Queries -/

/-- Nothing has happened from `m` to `m'` but questions asked at `now`. -/
structure Reads (now : Rat) (m m' : Memory) : Prop where
  score : ∀ n, m'.scoreOf n = m.scoreOf n ∨ m'.scoreOf n = ((m.scoreOf n).isSuspended now).2
  cluster : ∀ c, m'.cluster c = m.cluster c
  eventLog : m'.eventLog = m.eventLog
  queue : m'.evictionQueue = m.evictionQueue

variable {now : Rat}

theorem Reads.refl (m : Memory) : Reads now m m := ⟨fun _ => .inl rfl, fun _ => rfl, rfl, rfl⟩

theorem Reads.trans {a b c : Memory} (h : Reads now a b) (k : Reads now b c) : Reads now a c := by
  refine ⟨?_, fun d => (k.cluster d).trans (h.cluster d), k.eventLog.trans h.eventLog, k.queue.trans h.queue⟩
  intro n
  rcases h.score n with hn | hn <;> rcases k.score n with kn | kn
  · exact .inl (kn.trans hn)
  · exact .inr (by rw [kn, hn])
  · exact .inr (kn.trans hn)
  · exact .inr (by rw [kn, hn, isSuspended_idem])

/-- A relation to a memory that every question keeps is kept by a call that reads. -/
theorem Reads.of_score {m m' : Memory} (h : Reads now m m') {α : Type} (f : KarmaScore → α)
    (hf : ∀ sc, f (sc.isSuspended now).2 = f sc) (n : String) : f (m'.scoreOf n) = f (m.scoreOf n) := by
  rcases h.score n with hn | hn
  · rw [hn]
  · rw [hn, hf]

theorem reads_getScore (m : Memory) (n : String) : Reads now m (m.getScore n) := by
  refine ⟨fun k => .inl (scoreOf_getScore m n k), fun c => ?_, ?_, ?_⟩ <;> (unfold Memory.getScore; split <;> rfl)

/-- The score that was asked for, put back. -/
theorem reads_lift (m : Memory) (n : String) : Reads now m (m.setScore n ((m.scoreOf n).isSuspended now).2) := by
  refine ⟨?_, fun _ => rfl, rfl, rfl⟩
  intro k
  rw [scoreOf_setScore]
  split
  · rename_i e; exact .inr (by rw [e])
  · exact .inl rfl

theorem reads_setScore_self (m : Memory) (n : String) : Reads now m (m.setScore n (m.scoreOf n)) := by
  refine ⟨?_, fun _ => rfl, rfl, rfl⟩
  intro k
  rw [scoreOf_setScore]
  split
  · rename_i e; exact .inl (by rw [e])
  · exact .inl rfl

/-- `self.clusters[cluster_id]` makes the entry. -/
theorem reads_entry (m : Memory) (c : String) : Reads now m { m with clusters := m.clusters.set c (m.cluster c) } := by
  refine ⟨fun _ => .inl rfl, ?_, rfl, rfl⟩
  intro d
  rw [cluster_set]
  split
  · rename_i e; rw [e]
  · rfl

theorem reads_isSuspended (m : Memory) (n : String) :
    Reads now m ((m.getScore n).setScore n (((m.getScore n).scoreOf n).isSuspended now).2) :=
  (reads_getScore m n).trans (reads_lift _ n)

theorem reads_canParticipate (m : Memory) (n : String) : Reads now m (m.canParticipate n now).2 := by
  simp only [Memory.canParticipate]
  repeat' split
  all_goals first
    | exact reads_getScore m n
    | exact reads_isSuspended m n

theorem reads_candidateStep {κ : Type} (mass : KarmaScore → κ) (acc : List (Candidate κ) × Memory) (n : String) :
    Reads now acc.2 (candidateStep mass now acc n).2 := by
  simp only [candidateStep]
  repeat' split
  all_goals first
    | exact reads_getScore acc.2 n
    | exact reads_isSuspended acc.2 n

theorem reads_infoStep (acc : (Int × Rat × Int) × Memory) (n : String) : Reads now acc.2 (infoStep now acc n).2 := by
  have h : Reads now _ _ := reads_canParticipate acc.2 n
  simp only [infoStep]
  split <;> exact h

/-- A loop over nodes whose every turn reads, reads. -/
theorem reads_foldl {α : Type} (f : α × Memory → String → α × Memory) (hf : ∀ acc n, Reads now acc.2 (f acc n).2)
    (ns : List String) (acc : α × Memory) : Reads now acc.2 (ns.foldl f acc).2 := by
  induction ns generalizing acc with
  | nil => exact .refl _
  | cons n ns ih => exact (hf acc n).trans (ih _)

theorem reads_getClusterInfo (m : Memory) (ord : SetOrder) (c : String) : Reads now m (m.getClusterInfo ord c now).2 :=
  reads_foldl _ reads_infoStep _ ((0, 0, 0), m)

theorem reads_candidates (m : Memory) (ord : SetOrder) (c : String) (topN : Int) :
    Reads now m (m.getMasterNodeCandidates ord c topN now).2 := reads_foldl _ (reads_candidateStep _) _ ([], m)

/-- The clock reading of a call, if it takes one. -/
def Op.now? : Op → Option Rat
  | .reportEvent _ _ _ _ now | .applyInactivityDecay _ now | .registerClusterActivity _ _ _ now | .joinCluster _ _ now
  | .leaveCluster _ _ now | .isSuspended _ now | .canParticipate _ now | .getClusterInfo _ _ now
  | .getMasterNodeCandidates _ _ _ now | .electMasterNode _ _ now => some now
  | .getScore _ | .restart => none

def Op.isQuery : Op → Bool
  | .getScore _ | .isSuspended _ _ | .canParticipate _ _ | .getClusterInfo _ _ _ | .getMasterNodeCandidates _ _ _ _
  | .electMasterNode _ _ _ => true
  | _ => false

/-- A query reads at its clock reading, or at any if it takes none, and saves nothing. -/
theorem query_reads (s : System) {op : Op} (h : op.isQuery = true) (t : Rat) :
    Reads (op.now?.getD t) s.memory (step s op).2.memory ∧ (step s op).2.file = s.file := by
  cases op with
  | getScore n => exact ⟨reads_getScore _ n, rfl⟩
  | isSuspended n now => exact ⟨reads_isSuspended _ n, rfl⟩
  | canParticipate n now => exact ⟨reads_canParticipate _ n, rfl⟩
  | getClusterInfo ord c now => exact ⟨reads_getClusterInfo _ ord c, rfl⟩
  | getMasterNodeCandidates ord c topN now => exact ⟨reads_candidates _ ord c topN, rfl⟩
  | electMasterNode ord c now => exact ⟨reads_candidates _ ord c 100, rfl⟩
  | _ => cases h

/-! ## Taking part -/

/-- `can_participate` of a node in the eviction queue, or not in it. -/
def KarmaScore.participation (sc : KarmaScore) (evicted : Bool) (now : Rat) : Bool × Status :=
  if evicted then (false, .evicted)
  else if (sc.isSuspended now).1 then
    (false, .suspended (86400 - (now - match sc.suspensionTime with
      | some t => if t = 0 then now else t
      | none => now)))
  else if sc.karma ≤ 0 then (false, .criticalKarma sc.karma)
  else (true, .active)

theorem canParticipate_fst (m : Memory) (n : String) (now : Rat) :
    (m.canParticipate n now).1 = (m.scoreOf n).participation (decide (n ∈ m.evictionQueue)) now := by
  have hq : (m.getScore n).evictionQueue = m.evictionQueue := (reads_getScore m n : Reads now _ _).queue
  simp only [Memory.canParticipate, KarmaScore.participation, hq, scoreOf_getScore, decide_eq_true_eq]
  by_cases h1 : n ∈ m.evictionQueue
  · simp only [if_pos h1]
  · by_cases h2 : ((m.scoreOf n).isSuspended now).1 = true
    · cases (m.scoreOf n).suspensionTime <;> simp only [if_neg h1, if_pos h2]
    · by_cases h3 : (m.scoreOf n).karma ≤ 0
      · simp only [if_neg h1, if_neg h2, if_pos h3]
      · simp only [if_neg h1, if_neg h2, if_neg h3]

/-- Who may participate. -/
theorem canParticipate_iff (m : Memory) (n : String) (now : Rat) :
    (m.canParticipate n now).1.1 = true ↔
      n ∉ m.evictionQueue ∧ ((m.scoreOf n).isSuspended now).1 = false ∧ 0 < (m.scoreOf n).karma := by
  rw [canParticipate_fst, KarmaScore.participation]
  by_cases hq : n ∈ m.evictionQueue
  · simp [hq]
  · cases hs : ((m.scoreOf n).isSuspended now).1 with
    | true => simp [hq]
    | false =>
      by_cases hk : (m.scoreOf n).karma ≤ 0
      · simp [hq, hk]
      · simp [hq, hk, not_le.mp hk]

/-! ## Joining -/

/-- Whoever may participate is not evicted. -/
theorem not_evicted_of_canParticipate {m : Memory} {n : String} (h : (m.canParticipate n now).1.1 = true) :
    n ∉ m.evictionQueue := by
  intro hn
  have hn : n ∈ (m.getScore n).evictionQueue := by rwa [(reads_getScore m n : Reads now _ _).queue]
  simp [Memory.canParticipate, hn] at h

/-- `join_cluster` reads, or enters a node that is not evicted in a cluster that is not full and saves. -/
theorem joinCluster_cases (s : System) (n c : String) (now : Rat) :
    (Reads now s.memory (s.joinCluster n c now).2.memory ∧ (s.joinCluster n c now).2.file = s.file) ∨
      ∃ s' : System, Reads now s.memory s'.memory ∧ n ∉ s.memory.evictionQueue ∧ (s.memory.cluster c).card < clusterSize ∧
        (s'.memory.scoreOf n).clusterMemberships.has c = false ∧ (s.joinCluster n c now).2 = (s'.addMember n c now).save now := by
  have hp : Reads now _ _ := reads_canParticipate s.memory n
  have hc := hp.trans (reads_entry (s.memory.canParticipate n now).2 c)
  simp only [System.joinCluster]
  split
  · exact .inl ⟨hp, rfl⟩
  · rename_i hcan
    split
    · exact .inl ⟨hc, rfl⟩
    · rename_i hfull
      split
      · exact .inl ⟨hc, rfl⟩
      · rename_i hm
        refine .inr ⟨_, hc, not_evicted_of_canParticipate (by simpa using hcan), ?_, by simpa using hm, rfl⟩
        rw [← hc.cluster]
        simpa using hfull

end PyxelVM.Karma
