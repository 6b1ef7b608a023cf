/-
  PyxelVM.Karma.Standing — what each call does to the score of each node.

  The standing of a score is all of it but the memberships and the eviction mark: karma,
  experience, level, times and suspension. An event, a decay or registered activity
  changes the standing of its node, as functions of the score say (`reported`, `decayed`);
  to any other standing a call has at most lifted the suspension (`standing_other`). An
  event suspends its node when `suspends` holds of the adjusted score.
-/

import PyxelVM.Karma.Kept

namespace PyxelVM.Karma

open PyxelVM.Lib

/-! ## Standings -/

def KarmaScore.standing (sc : KarmaScore) : KarmaScore :=
  { sc with evictionPending := false, clusterMemberships := Dict.empty }

def Memory.standing (m : Memory) (nodeId : String) : KarmaScore := (m.scoreOf nodeId).standing

/-- Thresholds of suspension, asked of the adjusted score. -/
def KarmaScore.suspends (sc : KarmaScore) (severity : String) : Prop :=
  sc.karma ≤ 0 ∨ sc.consecutiveViolations ≥ 3 ∧ severity = "severe"

instance (sc : KarmaScore) (severity : String) : Decidable (sc.suspends severity) := inferInstanceAs (Decidable (_ ∨ _))

/-- The score after an event. -/
def KarmaScore.reported (sc : KarmaScore) (eventType : KarmaEvent) (severity : String) (now : Rat) : KarmaScore :=
  let sc := sc.adjusted eventType now
  if sc.suspends severity then { sc with suspensionStatus := true, suspensionTime := some now } else sc

/-- The whole decay periods a node has been idle. -/
def KarmaScore.idlePeriods (sc : KarmaScore) (now : Rat) : Nat :=
  ((now - sc.lastActivityTime) / inactivityDecayPeriod).floor.toNat

/-- The score after a decay call. -/
def KarmaScore.decayed (sc : KarmaScore) (now : Rat) : KarmaScore :=
  if now - sc.lastActivityTime < inactivityDecayPeriod then sc
  else
    let xp := decayOnce^[sc.idlePeriods now] sc.totalExperience
    { sc with totalExperience := xp, level := computeLevel xp }

/-- The node whose standing a call may change. -/
def Op.subject? : Op → Option String
  | .reportEvent nodeId _ _ _ _ | .applyInactivityDecay nodeId _ | .registerClusterActivity nodeId _ _ _ => some nodeId
  | _ => none

/-- The events reported of a node. -/
def events (nodeId : String) (ops : List Op) : List KarmaEvent :=
  ops.filterMap fun
    | .reportEvent n eventType _ _ _ => if n = nodeId then some eventType else none
    | _ => none

variable {m m' : Memory} {n k : String} {now : Rat}

theorem events_concat (n : String) (ops : List Op) (op : Op) : events n (ops ++ [op]) = events n ops ++ events n [op] :=
  List.filterMap_append

@[simp] theorem standing_setScore (m : Memory) (n k : String) (sc : KarmaScore) :
    (m.setScore n sc).standing k = if k = n then sc.standing else m.standing k := by
  unfold Memory.standing
  rw [scoreOf_setScore]
  split <;> rfl

theorem isSuspended_standing (sc : KarmaScore) (now : Rat) :
    sc.standing.isSuspended now = ((sc.isSuspended now).1, (sc.isSuspended now).2.standing) := by
  unfold KarmaScore.isSuspended KarmaScore.standing
  dsimp only
  split
  · rfl
  · split
    · rfl
    · split <;> rfl

/-- The standing is as it was, or its suspension has been asked for. -/
theorem Reads.standing (h : Reads now m m') (n : String) :
    m'.standing n = m.standing n ∨ m'.standing n = ((m.standing n).isSuspended now).2 := by
  unfold Memory.standing
  rcases h.score n with e | e
  · exact .inl (by rw [e])
  · exact .inr (by rw [e, isSuspended_standing])

theorem blind_standing : Blind KarmaScore.standing := fun _ _ => rfl

/-! ## Events -/

theorem standing_suspendNode {s : System} (h : s.memory.scores.has n = true) (k : String) (now : Rat) :
    (s.suspendNode n now).memory.standing k =
      if k = n then { s.memory.standing n with suspensionStatus := true, suspensionTime := some now } else s.memory.standing k := by
  have he : (s.suspendNode n now).memory.standing k = (s.memory.setScore n
      { s.memory.scoreOf n with suspensionStatus := true, suspensionTime := some now }).standing k := by
    rw [System.suspendNode, if_neg (by rw [h]; decide)]
    rfl
  rw [he, standing_setScore]
  rfl

theorem standing_adjust (s : System) (n k : String) (e : KarmaEvent) (severity : String) (now : Rat) :
    (s.adjust n e severity now).memory.standing k =
      if k = n then (s.memory.standing n).reported e severity now else s.memory.standing k := by
  have hset : (s.setScore n ((s.memory.scoreOf n).adjusted e now)).memory.standing k =
      if k = n then (s.memory.standing n).adjusted e now else s.memory.standing k := standing_setScore _ _ _ _
  have hsuspend : ((s.setScore n ((s.memory.scoreOf n).adjusted e now)).suspendNode n now).memory.standing k =
      if k = n then { (s.memory.standing n).adjusted e now with suspensionStatus := true, suspensionTime := some now }
      else s.memory.standing k := by
    have hn := standing_setScore s.memory n n ((s.memory.scoreOf n).adjusted e now)
    rw [if_pos rfl] at hn
    rw [standing_suspendNode (has_setScore _ _ _), hset]
    by_cases hk : k = n
    · rw [if_pos hk, if_pos hk]
      show { ((s.memory.setScore n ((s.memory.scoreOf n).adjusted e now)).standing n) with
        suspensionStatus := true, suspensionTime := some now } = _
      rw [hn]
      rfl
    · rw [if_neg hk, if_neg hk, if_neg hk]
  have hthresholds : ((s.memory.standing n).adjusted e now).suspends severity ↔
      ((s.memory.scoreOf n).adjusted e now).karma ≤ 0 ∨
        ((s.memory.scoreOf n).adjusted e now).consecutiveViolations ≥ 3 ∧ severity = "severe" := Iff.rfl
  simp only [System.adjust, KarmaScore.reported]
  by_cases h1 : ((s.memory.scoreOf n).adjusted e now).karma ≤ 0
  · rw [if_pos h1, if_pos (hthresholds.mpr (.inl h1)), hsuspend]
  · by_cases h2 : ((s.memory.scoreOf n).adjusted e now).consecutiveViolations ≥ 3 ∧ severity = "severe"
    · rw [if_neg h1, if_pos h2, if_pos (hthresholds.mpr (.inr h2)), hsuspend]
    · rw [if_neg h1, if_neg h2, if_neg (fun h => (hthresholds.mp h).elim h1 h2), hset]

theorem standing_reportEvent (s : System) (n k : String) (e : KarmaEvent) (reason severity : String) (now : Rat) :
    (s.reportEvent n e reason severity now).memory.standing k =
      if k = n then (s.memory.standing n).reported e severity now else s.memory.standing k := by
  rw [reportEvent_memory, ← standing_adjust]
  show Memory.standing _ k = _
  split
  · exact (kept_markEviction blind_standing (fun _ => rfl) _ n now).score k
  · rfl

/-! ## Decay -/

theorem decayOnce_zero (p : Nat) : decayOnce^[p] 0 = 0 := by
  induction p with
  | zero => rfl
  | succ p ih => rw [Function.iterate_succ_apply', ih]; decide

/-- A node without a score has nothing to lose. -/
theorem decayed_fresh (n : String) (now : Rat) : ({ nodeId := n } : KarmaScore).decayed now = { nodeId := n } := by
  unfold KarmaScore.decayed
  split
  · rfl
  · simp only [decayOnce_zero]
    rfl

theorem standing_applyInactivityDecay (s : System) (n k : String) (now : Rat) :
    (s.applyInactivityDecay n now).2.memory.standing k =
      if k = n then (s.memory.standing n).decayed now else s.memory.standing k := by
  simp only [System.applyInactivityDecay]
  cases hsc : s.memory.scores.get? n with
  | none =>
    have hn : s.memory.standing n = { nodeId := n } := by
      rw [Memory.standing, scoreOf_of_not_has (Dict.not_has_iff.mpr hsc)]
      rfl
    show s.memory.standing k = _
    rw [hn, decayed_fresh]
    split
    · rename_i e
      rw [e, hn]
    · rfl
  | some score =>
    have hn : s.memory.standing n = score.standing := by rw [Memory.standing, scoreOf_of_get? hsc]
    rw [hn]
    simp only [KarmaScore.decayed]
    by_cases hidle : now - score.lastActivityTime < inactivityDecayPeriod
    · have hidle' : now - score.standing.lastActivityTime < inactivityDecayPeriod := hidle
      rw [if_pos hidle, if_pos hidle']
      split
      · rename_i e
        rw [e, hn]
      · rfl
    · have hidle' : ¬now - score.standing.lastActivityTime < inactivityDecayPeriod := hidle
      rw [if_neg hidle, if_neg hidle']
      split <;> exact standing_setScore _ _ _ _

/-! ## Activity -/

/-- Registered activity, of a completed cycle or none. -/
theorem standing_registerClusterActivity (s : System) (n k c : String) (done : Bool) (now : Rat) :
    (s.registerClusterActivity n c done now).memory.standing k =
      if k = n then
        { (if done then (s.memory.standing n).reported .computeCycleCompleted "minor" now else s.memory.standing n) with
          lastActivityTime := now }
      else s.memory.standing k := by
  have ht (k : String) : ((s.enter n c now).touchMembership n c done now).memory.standing k = s.memory.standing k :=
    ((kept_enter blind_standing s n c now).trans (kept_touchMembership blind_standing (s.enter n c now) n c done now)).score k
  obtain ⟨s', hs', he⟩ := registerClusterActivity_eq s n c done now
  have hlast : (s.registerClusterActivity n c done now).memory.standing k =
      if k = n then { s'.memory.standing n with lastActivityTime := now } else s'.memory.standing k := by
    rw [he]
    exact standing_setScore _ _ _ _
  rw [hlast]
  cases done with
  | false =>
    obtain rfl := hs'
    rw [ht n, ht k]
    rfl
  | true =>
    obtain ⟨reason, rfl⟩ := hs'
    rw [standing_reportEvent, standing_reportEvent, if_pos rfl, ht n, ht k]
    by_cases hk : k = n
    · rw [if_pos hk, if_pos hk]
      rfl
    · rw [if_neg hk, if_neg hk, if_neg hk]

/-! ## Other calls -/

/-- A call that is no restart leaves any other standing as it was, or has asked for its suspension. -/
theorem standing_other (s : System) {op : Op} (hn : op.subject? ≠ some k) (hop : op ≠ .restart) :
    (step s op).2.memory.standing k = s.memory.standing k ∨
      ∃ now, (step s op).2.memory.standing k = ((s.memory.standing k).isSuspended now).2 := by
  have hread {now : Rat} {m' : Memory} (h : Reads now s.memory m') : m'.standing k = s.memory.standing k ∨
      ∃ now, m'.standing k = ((s.memory.standing k).isSuspended now).2 := (h.standing k).imp_right fun e => ⟨now, e⟩
  by_cases hquery : op.isQuery = true
  · exact hread (query_reads s hquery 0).1
  cases op with
  | reportEvent n e reason severity now =>
    exact .inl ((standing_reportEvent s n k e reason severity now).trans (if_neg fun e => hn (congrArg some e.symm)))
  | applyInactivityDecay n now =>
    exact .inl ((standing_applyInactivityDecay s n k now).trans (if_neg fun e => hn (congrArg some e.symm)))
  | registerClusterActivity n c done now =>
    exact .inl ((standing_registerClusterActivity s n k c done now).trans (if_neg fun e => hn (congrArg some e.symm)))
  | joinCluster n c now =>
    rcases joinCluster_cases s n c now with ⟨hr, -⟩ | ⟨s', hr, -, -, -, he⟩
    · exact hread hr
    · have hs : (step s (.joinCluster n c now)).2.memory.standing k = s'.memory.standing k := by
        show (s.joinCluster n c now).2.memory.standing k = _
        rw [he]
        exact (kept_addMember blind_standing s' n c now).score k
      rw [hs]
      exact hread hr
  | leaveCluster n c now => exact .inl ((kept_leaveCluster blind_standing s n c now).score k)
  | restart => exact absurd rfl hop
  | _ => exact absurd rfl hquery

end PyxelVM.Karma
