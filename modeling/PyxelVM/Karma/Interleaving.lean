/-
  PyxelVM.Karma.Interleaving — many nodes on one system.

  What the system keeps of a node, but for its clusters, are its books: its standing, its
  log and whether it is evicted. `Books.step` is a machine of one node, over the calls
  that name it. Until a restart the system is such a machine for each node, beside each
  other: a call that names a node steps its machine and no other (`books_step`), and a call
  on a whole cluster lifts suspensions that are over (`books_cluster`).

  - `interleaving_unseen`: two runs from one state that have the same calls of a node, in
    the same order, leave it the same karma, experience, level, times and log, and evict
    it or do not, whatever is called of other nodes and of clusters in between. If they
    call nothing of clusters, it is suspended alike and may participate alike.

  A call on a cluster asks whether its members are suspended. Where it lifts a suspension,
  it starts the node's count of violations again, and so a later violation may suspend the
  node or not.
-/

import PyxelVM.Karma.Decay
import PyxelVM.Karma.Suspension

namespace PyxelVM.Karma

open PyxelVM.Lib

/-! ## One node -/

/-- The node a call names. -/
def Op.node? : Op → Option String
  | .reportEvent nodeId _ _ _ _ | .applyInactivityDecay nodeId _ | .registerClusterActivity nodeId _ _ _
  | .joinCluster nodeId _ _ | .leaveCluster nodeId _ _ | .getScore nodeId | .isSuspended nodeId _
  | .canParticipate nodeId _ => some nodeId
  | .getClusterInfo _ _ _ | .getMasterNodeCandidates _ _ _ _ | .electMasterNode _ _ _ | .restart => none

def Op.names (nodeId : String) (op : Op) : Bool := decide (op.node? = some nodeId)

structure Books where
  standing : KarmaScore
  log : List KarmaEventRecord
  evicted : Bool
  deriving DecidableEq

def Memory.log (m : Memory) (nodeId : String) : List KarmaEventRecord := m.eventLog.getD nodeId []

def Memory.books (m : Memory) (nodeId : String) : Books := ⟨m.standing nodeId, m.log nodeId, decide (nodeId ∈ m.evictionQueue)⟩

/-- What a decay call logs. -/
def KarmaScore.decayRecords (sc : KarmaScore) (nodeId : String) (now : Rat) : List KarmaEventRecord :=
  let loss := sc.totalExperience - (sc.decayed now).totalExperience
  if loss > 0 then
    [⟨nodeId, KarmaEvent.inactivityDecay.value, 0, -loss, now,
      s!"Inactivity decay ({sc.idlePeriods now} period(s), {inactivityDecayPercent}% loss)", "moderate"⟩]
  else []

def Books.report (b : Books) (nodeId : String) (eventType : KarmaEvent) (reason severity : String) (now : Rat) : Books where
  standing := b.standing.reported eventType severity now
  log := b.log ++ [⟨nodeId, eventType.value, (karmaAdjustments eventType).karma, (karmaAdjustments eventType).xp, now,
    reason, severity⟩]
  evicted := b.evicted || decide (eventType = .revocationViolation)

/-- The suspension is asked for. -/
def Books.ask (b : Books) (now : Rat) : Books := { b with standing := (b.standing.isSuspended now).2 }

/-- A call that names the node. -/
def Books.step (b : Books) : Op → Books
  | .reportEvent nodeId eventType reason severity now => b.report nodeId eventType reason severity now
  | .applyInactivityDecay nodeId now =>
    { b with standing := b.standing.decayed now, log := b.log ++ b.standing.decayRecords nodeId now }
  | .registerClusterActivity nodeId clusterId cycleCompleted now =>
    let b := if cycleCompleted then
        b.report nodeId .computeCycleCompleted s!"Completed compute cycle in cluster {clusterId}" "minor" now
      else b
    { b with standing := { b.standing with lastActivityTime := now } }
  | .isSuspended _ now => b.ask now
  -- of an evicted node `can_participate` does not come to ask
  | .canParticipate _ now | .joinCluster _ _ now => if b.evicted then b else b.ask now
  | _ => b

def KarmaScore.unsuspended (sc : KarmaScore) : KarmaScore :=
  { sc with suspensionStatus := false, suspensionTime := none, consecutiveViolations := 0 }

/-- The books without the suspension, and without what is counted towards one. -/
def Books.settled (b : Books) : Books := { b with standing := b.standing.unsuspended }

variable {m m' : Memory} {n k : String} {now : Rat}

/-! ## The log -/

theorem log_logEvent (m : Memory) (n k : String) (r : KarmaEventRecord) :
    (m.logEvent n r).log k = if k = n then m.log n ++ [r] else m.log k := by
  unfold Memory.log Memory.logEvent Dict.getD
  rw [Dict.get?_set]
  split <;> rfl

theorem log_setScore (m : Memory) (n k : String) (sc : KarmaScore) : (m.setScore n sc).log k = m.log k := rfl

theorem Kept.log {α : Type} {f : KarmaScore → α} (h : Kept f m m') (k : String) : m'.log k = m.log k := by
  rw [Memory.log, h.eventLog, Memory.log]

theorem blind_unit : Blind fun _ => () := fun _ _ => rfl

theorem log_reportEvent (s : System) (n k : String) (e : KarmaEvent) (reason severity : String) (now : Rat) :
    (s.reportEvent n e reason severity now).memory.log k =
      if k = n then s.memory.log n ++
        [⟨n, e.value, (karmaAdjustments e).karma, (karmaAdjustments e).xp, now, reason, severity⟩]
      else s.memory.log k := by
  have hadjust : Kept (fun _ => ()) s.memory (s.adjust n e severity now).memory := by
    have hset : Kept (fun _ => ()) s.memory (s.setScore n ((s.memory.scoreOf n).adjusted e now)).memory :=
      kept_setScore s.memory n rfl
    simp only [System.adjust]
    repeat' split
    all_goals first
      | exact hset.trans (kept_suspendNode (fun _ => rfl) _ n)
      | exact hset
  have hevict : Kept (fun _ => ()) s.memory (if e = .revocationViolation then (s.adjust n e severity now).markEviction n now
      else s.adjust n e severity now).memory := by
    split
    · exact hadjust.trans (kept_markEviction blind_unit (fun _ => rfl) _ n now)
    · exact hadjust
  rw [reportEvent_memory, log_logEvent, hevict.log, hevict.log]

theorem log_applyInactivityDecay (s : System) (n k : String) (now : Rat) :
    (s.applyInactivityDecay n now).2.memory.log k =
      if k = n then s.memory.log n ++ (s.memory.standing n).decayRecords n now else s.memory.log k := by
  have hnothing : s.memory.log k = if k = n then s.memory.log n ++ [] else s.memory.log k := by
    rw [List.append_nil]
    split
    · rename_i e
      rw [e]
    · rfl
  simp only [System.applyInactivityDecay]
  cases hsc : s.memory.scores.get? n with
  | none =>
    have hn : s.memory.standing n = { nodeId := n } := by
      rw [Memory.standing, scoreOf_of_not_has (Dict.not_has_iff.mpr hsc)]
      rfl
    have hfresh : ({ nodeId := n } : KarmaScore).decayRecords n now = [] := by
      rw [KarmaScore.decayRecords, decayed_fresh]
      rfl
    rw [hn, hfresh]
    exact hnothing
  | some score =>
    have hn : s.memory.standing n = score.standing := by rw [Memory.standing, scoreOf_of_get? hsc]
    rw [hn]
    by_cases hidle : now - score.lastActivityTime < inactivityDecayPeriod
    · have hsame : score.standing.decayed now = score.standing := if_pos hidle
      have hrecords : score.standing.decayRecords n now = [] := by simp [KarmaScore.decayRecords, hsame]
      simp only [if_pos hidle, hrecords]
      exact hnothing
    · simp only [if_neg hidle, KarmaScore.decayRecords, decayed_experience]
      split
      · rename_i hloss
        -- the score and its standing lose the same
        rw [if_pos (show score.standing.totalExperience -
          decayOnce^[score.standing.idlePeriods now] score.standing.totalExperience > 0 from hloss)]
        exact log_logEvent _ _ _ _
      · rename_i hloss
        rw [if_neg (show ¬score.standing.totalExperience -
          decayOnce^[score.standing.idlePeriods now] score.standing.totalExperience > 0 from hloss)]
        exact hnothing

theorem log_registerClusterActivity (s : System) (n k c : String) (done : Bool) (now : Rat) :
    (s.registerClusterActivity n c done now).memory.log k =
      if k = n ∧ done then s.memory.log n ++
        [⟨n, KarmaEvent.computeCycleCompleted.value, (karmaAdjustments .computeCycleCompleted).karma,
          (karmaAdjustments .computeCycleCompleted).xp, now, s!"Completed compute cycle in cluster {c}", "minor"⟩]
      else s.memory.log k := by
  have ht := (kept_enter blind_unit s n c now).trans (kept_touchMembership blind_unit (s.enter n c now) n c done now)
  cases done with
  | false =>
    have h : (s.registerClusterActivity n c false now).memory.log k = s.memory.log k := ht.log k
    rw [h, if_neg fun h => Bool.false_ne_true h.2]
  | true =>
    obtain ⟨s', hs'⟩ : ∃ s', s' = ((s.enter n c now).touchMembership n c true now).reportEvent n .computeCycleCompleted
      s!"Completed compute cycle in cluster {c}" "minor" now := ⟨_, rfl⟩
    have he : (s.registerClusterActivity n c true now).memory =
        s'.memory.setScore n { s'.memory.scoreOf n with lastActivityTime := now } := by
      rw [hs']
      rfl
    rw [he, log_setScore, hs', log_reportEvent, ht.log, ht.log]
    simp only [and_true]

/-! ## Asking -/

theorem standing_isSuspended (m : Memory) (n k : String) (now : Rat) :
    ((m.getScore n).setScore n (((m.getScore n).scoreOf n).isSuspended now).2).standing k =
      if k = n then ((m.standing n).isSuspended now).2 else m.standing k := by
  rw [standing_setScore]
  unfold Memory.standing
  rw [scoreOf_getScore, scoreOf_getScore, isSuspended_standing]

theorem standing_canParticipate (m : Memory) (n k : String) (now : Rat) :
    (m.canParticipate n now).2.standing k =
      if k = n ∧ n ∉ m.evictionQueue then ((m.standing n).isSuspended now).2 else m.standing k := by
  have hg (k : String) : (m.getScore n).standing k = m.standing k := by rw [Memory.standing, scoreOf_getScore]; rfl
  have hq : (m.getScore n).evictionQueue = m.evictionQueue := (reads_getScore m n : Reads now _ _).queue
  simp only [Memory.canParticipate, hq]
  by_cases hn : n ∈ m.evictionQueue
  · rw [if_pos hn, if_neg (fun h => h.2 hn)]
    exact hg k
  · simp only [if_neg hn, and_iff_left hn]
    rw [← standing_isSuspended]
    repeat' split
    all_goals rfl

theorem standing_joinCluster (s : System) (n k c : String) (now : Rat) :
    (s.joinCluster n c now).2.memory.standing k = (s.memory.canParticipate n now).2.standing k := by
  simp only [System.joinCluster]
  repeat' split
  all_goals first
    | rfl
    | exact (kept_addMember blind_standing _ n c now).score k

theorem log_joinCluster (s : System) (n k c : String) (now : Rat) :
    (s.joinCluster n c now).2.memory.log k = s.memory.log k := by
  rcases joinCluster_cases s n c now with ⟨hr, -⟩ | ⟨s', hr, -, -, -, he⟩
  · rw [Memory.log, hr.eventLog, Memory.log]
  · rw [he]
    show (s'.addMember n c now).memory.log k = _
    rw [(kept_addMember blind_unit s' n c now).log, Memory.log, hr.eventLog, Memory.log]

theorem Reads.log (h : Reads now m m') (k : String) : m'.log k = m.log k := by rw [Memory.log, h.eventLog, Memory.log]

/-- What `can_participate` leaves. -/
theorem books_asked (m : Memory) (n k : String) (now : Rat) :
    (⟨if k = n ∧ n ∉ m.evictionQueue then ((m.standing n).isSuspended now).2 else m.standing k, m.log k,
        decide (k ∈ m.evictionQueue) || false⟩ : Books) =
      if k = n then (if (m.books n).evicted then m.books n else (m.books n).ask now) else m.books k := by
  by_cases hk : k = n
  · by_cases hq : n ∈ m.evictionQueue
    · simp [hk, hq, Memory.books]
    · simp [hk, hq, Memory.books, Books.ask]
  · simp [hk, Memory.books]

/-! ## Steps -/

theorem evicted_step {s : System} {op : Op} (hop : op ≠ .restart) (k : String) :
    decide (k ∈ (step s op).2.memory.evictionQueue) =
      (decide (k ∈ s.memory.evictionQueue) || decide (.revocationViolation ∈ events k [op])) := by
  rw [← Bool.decide_or]
  exact decide_eq_decide.mpr (queued_step hop k)

/-- A call that names a node steps its machine, and no other's. -/
theorem books_step (s : System) {op : Op} {n : String} (hn : op.node? = some n) (k : String) :
    (step s op).2.memory.books k = if k = n then (s.memory.books n).step op else s.memory.books k := by
  have hop : op ≠ .restart := by
    rintro rfl
    cases hn
  have hbooks : (step s op).2.memory.books k = ⟨(step s op).2.memory.standing k, (step s op).2.memory.log k,
      decide (k ∈ s.memory.evictionQueue) || decide (.revocationViolation ∈ events k [op])⟩ := by
    rw [Memory.books, evicted_step hop]
  rw [hbooks]
  cases op with
  | reportEvent n' e reason severity now =>
    obtain rfl : n' = n := Option.some.inj hn
    have hs : (step s (.reportEvent n' e reason severity now)).2.memory.standing k = _ :=
      standing_reportEvent s n' k e reason severity now
    have hl : (step s (.reportEvent n' e reason severity now)).2.memory.log k = _ :=
      log_reportEvent s n' k e reason severity now
    rw [hs, hl]
    by_cases hk : k = n'
    · simp [hk, Books.step, Books.report, Memory.books, events, eq_comm]
    · simp [hk, Memory.books, events, Ne.symm hk]
  | applyInactivityDecay n' now =>
    obtain rfl : n' = n := Option.some.inj hn
    have hs : (step s (.applyInactivityDecay n' now)).2.memory.standing k = _ := standing_applyInactivityDecay s n' k now
    have hl : (step s (.applyInactivityDecay n' now)).2.memory.log k = _ := log_applyInactivityDecay s n' k now
    rw [hs, hl]
    by_cases hk : k = n'
    · simp [hk, Books.step, Memory.books, events]
    · simp [hk, Memory.books, events]
  | registerClusterActivity n' c done now =>
    obtain rfl : n' = n := Option.some.inj hn
    have hs : (step s (.registerClusterActivity n' c done now)).2.memory.standing k = _ :=
      standing_registerClusterActivity s n' k c done now
    have hl : (step s (.registerClusterActivity n' c done now)).2.memory.log k = _ :=
      log_registerClusterActivity s n' k c done now
    rw [hs, hl]
    by_cases hk : k = n'
    · cases done with
      | false => simp [hk, Books.step, Memory.books, events]
      | true => simp [hk, Books.step, Books.report, Memory.books, events]
    · simp [hk, Memory.books, events]
  | joinCluster n' c now =>
    obtain rfl : n' = n := Option.some.inj hn
    have hs : (step s (.joinCluster n' c now)).2.memory.standing k = _ :=
      (standing_joinCluster s n' k c now).trans (standing_canParticipate s.memory n' k now)
    have hl : (step s (.joinCluster n' c now)).2.memory.log k = _ := log_joinCluster s n' k c now
    rw [hs, hl]
    exact books_asked s.memory n' k now
  | leaveCluster n' c now =>
    have hkept : Kept KarmaScore.standing s.memory (step s (.leaveCluster n' c now)).2.memory :=
      kept_leaveCluster blind_standing s n' c now
    have hs : (step s (.leaveCluster n' c now)).2.memory.standing k = s.memory.standing k := hkept.score k
    rw [hs, hkept.log]
    by_cases hk : k = n
    · simp [hk, Books.step, Memory.books, events]
    · simp [hk, Memory.books, events]
  | getScore n' =>
    have hs : (step s (.getScore n')).2.memory.standing k = s.memory.standing k :=
      congrArg KarmaScore.standing (scoreOf_getScore s.memory n' k)
    have hl : (step s (.getScore n')).2.memory.log k = s.memory.log k := (kept_getScore s.memory n' : Kept id _ _).log k
    rw [hs, hl]
    by_cases hk : k = n
    · simp [hk, Books.step, Memory.books, events]
    · simp [hk, Memory.books, events]
  | isSuspended n' now =>
    obtain rfl : n' = n := Option.some.inj hn
    have hs : (step s (.isSuspended n' now)).2.memory.standing k = _ := standing_isSuspended s.memory n' k now
    have hr : Reads now s.memory (step s (.isSuspended n' now)).2.memory := reads_isSuspended s.memory n'
    rw [hs, hr.log]
    by_cases hk : k = n'
    · simp [hk, Books.step, Books.ask, Memory.books, events]
    · simp [hk, Memory.books, events]
  | canParticipate n' now =>
    obtain rfl : n' = n := Option.some.inj hn
    have hs : (step s (.canParticipate n' now)).2.memory.standing k = _ := standing_canParticipate s.memory n' k now
    have hr : Reads now s.memory (step s (.canParticipate n' now)).2.memory := reads_canParticipate s.memory n'
    rw [hs, hr.log]
    exact books_asked s.memory n' k now
  | _ => cases hn

/-! ## Whole clusters -/

theorem unsuspended_reported (sc : KarmaScore) (e : KarmaEvent) (severity : String) (now : Rat) :
    (sc.reported e severity now).unsuspended = (sc.unsuspended.reported e severity now).unsuspended := by
  simp only [KarmaScore.reported]
  split <;> split <;> rfl

theorem unsuspended_decayed (sc : KarmaScore) (now : Rat) : (sc.decayed now).unsuspended = sc.unsuspended.decayed now := by
  unfold KarmaScore.decayed
  show KarmaScore.unsuspended (if now - sc.lastActivityTime < inactivityDecayPeriod then _ else _) =
    if now - sc.lastActivityTime < inactivityDecayPeriod then _ else _
  split <;> rfl

theorem unsuspended_asked (sc : KarmaScore) (now : Rat) : (sc.isSuspended now).2.unsuspended = sc.unsuspended := by
  obtain ⟨_, _, e⟩ := isSuspended_score sc now
  rw [e]
  rfl

theorem decayRecords_unsuspended (sc : KarmaScore) (n : String) (now : Rat) :
    sc.unsuspended.decayRecords n now = sc.decayRecords n now := by
  simp only [KarmaScore.decayRecords, decayed_experience]
  rfl

theorem settled_report (b : Books) (n : String) (e : KarmaEvent) (reason severity : String) (now : Rat) :
    (b.report n e reason severity now).settled = (b.settled.report n e reason severity now).settled := by
  simp only [Books.settled, Books.report, ← unsuspended_reported]

theorem settled_ask (b : Books) (now : Rat) : (b.ask now).settled = b.settled := by
  simp only [Books.settled, Books.ask, unsuspended_asked]

theorem settled_join (b : Books) (now : Rat) : (if b.evicted then b else b.ask now).settled =
    (if b.settled.evicted then b.settled else b.settled.ask now).settled := by
  show _ = (if b.evicted then b.settled else b.settled.ask now).settled
  split
  · rfl
  · rw [settled_ask, settled_ask]
    rfl

/-- The machine of a node does not look at the suspension but to suspend. -/
theorem settled_step (b : Books) (op : Op) : (b.step op).settled = (b.settled.step op).settled := by
  cases op with
  | reportEvent n e reason severity now => exact settled_report b n e reason severity now
  | applyInactivityDecay n now =>
    simp only [Books.step, Books.settled, decayRecords_unsuspended, unsuspended_decayed]
    rfl
  | registerClusterActivity n c done now =>
    cases done with
    | false => rfl
    | true =>
      have h := settled_report b n .computeCycleCompleted s!"Completed compute cycle in cluster {c}" "minor" now
      exact congrArg (fun b : Books => { b with standing := { b.standing with lastActivityTime := now } }) h
  | joinCluster n c now => exact settled_join b now
  | isSuspended n now =>
    simp only [Books.step, settled_ask]
    rfl
  | canParticipate n now => exact settled_join b now
  | _ => rfl

/-- A call on a whole cluster has at most lifted the node's suspension. -/
theorem books_cluster (s : System) {op : Op} (hn : op.node? = none) (hop : op ≠ .restart) (k : String) :
    ((step s op).2.memory.books k).settled = (s.memory.books k).settled := by
  have hquery : op.isQuery = true := by
    cases op with
    | getClusterInfo ord c now => rfl
    | getMasterNodeCandidates ord c topN now => rfl
    | electMasterNode ord c now => rfl
    | restart => exact absurd rfl hop
    | _ => cases hn
  have hr := (query_reads s hquery 0).1
  have hs : ((step s op).2.memory.standing k).unsuspended = (s.memory.standing k).unsuspended := by
    rcases hr.standing k with e | e
    · rw [e]
    · rw [e, unsuspended_asked]
  simp only [Memory.books, Books.settled, hs, hr.log, hr.queue]

/-! ## Interleavings -/

/-- Every call that names the node steps its machine, and no other call changes its books but for the suspension. -/
theorem settled_run (s : System) {ops : List Op} (hops : .restart ∉ ops) (n : String) :
    ((Trace.final step s ops).memory.books n).settled =
      (ops.filter (Op.names n)).foldl (fun b op => (b.step op).settled) (s.memory.books n).settled := by
  let view (s : System) : Books := (s.memory.books n).settled
  have hnamed (s : System) (op : Op) (_ : op ≠ .restart) (hn : op.names n = true) :
      view (step s op).2 = ((view s).step op).settled := by
    show ((step s op).2.memory.books n).settled = ((s.memory.books n).settled.step op).settled
    rw [books_step s (of_decide_eq_true hn), if_pos rfl, settled_step]
  have hother (s : System) (op : Op) (hop : op ≠ .restart) (hn : op.names n = false) : view (step s op).2 = view s := by
    have hne : op.node? ≠ some n := of_decide_eq_false hn
    show ((step s op).2.memory.books n).settled = (s.memory.books n).settled
    cases hnode : op.node? with
    | none => exact books_cluster s hnode hop n
    | some m => rw [books_step s hnode, if_neg fun e => hne (hnode.trans (congrArg some e.symm))]
  have hok : ∀ op ∈ ops, op ≠ .restart := by
    rintro op h rfl
    exact hops h
  exact Trace.project hnamed hother s hok

/-- Without calls on whole clusters, no other call changes anything of its books. -/
theorem books_run (s : System) {ops : List Op} (hops : ∀ op ∈ ops, op.node? ≠ none) (n : String) :
    (Trace.final step s ops).memory.books n = (ops.filter (Op.names n)).foldl Books.step (s.memory.books n) := by
  let view (s : System) : Books := s.memory.books n
  have hnamed (s : System) (op : Op) (_ : op.node? ≠ none) (hn : op.names n = true) : view (step s op).2 = (view s).step op :=
    (books_step s (of_decide_eq_true hn) n).trans (if_pos rfl)
  have hother (s : System) (op : Op) (hop : op.node? ≠ none) (hn : op.names n = false) : view (step s op).2 = view s := by
    have hne : op.node? ≠ some n := of_decide_eq_false hn
    obtain ⟨m, hnode⟩ := Option.ne_none_iff_exists'.mp hop
    exact (books_step s hnode n).trans (if_neg fun e => hne (hnode.trans (congrArg some e.symm)))
  exact Trace.project hnamed hother s hops

theorem participation_standing (sc : KarmaScore) (evicted : Bool) (now : Rat) :
    sc.standing.participation evicted now = sc.participation evicted now := by
  simp only [KarmaScore.participation, isSuspended_standing]
  rfl

theorem participation_books (m : Memory) (n : String) (now : Rat) :
    (m.canParticipate n now).1 = (m.books n).standing.participation (m.books n).evicted now := by
  rw [canParticipate_fst, ← participation_standing]
  rfl

/-- Two runs from one state with the same calls of a node, in the same order, leave its books alike but for the suspension,
    whatever is called of other nodes and of clusters in between; and if neither calls anything of clusters, they leave them
    alike and answer alike whether it may participate. -/
theorem interleaving_unseen (s : System) {ops ops' : List Op} (hops : .restart ∉ ops) (hops' : .restart ∉ ops') (n : String)
    (same : ops.filter (Op.names n) = ops'.filter (Op.names n)) :
    let m := (Trace.final step s ops).memory
    let m' := (Trace.final step s ops').memory
    (m.books n).settled = (m'.books n).settled ∧
      ((∀ op ∈ ops ++ ops', op.node? ≠ none) →
        m.books n = m'.books n ∧ ∀ now, (m.canParticipate n now).1 = (m'.canParticipate n now).1) := by
  refine ⟨by rw [settled_run s hops, settled_run s hops', same], ?_⟩
  intro hnamed
  have hbooks : (Trace.final step s ops).memory.books n = (Trace.final step s ops').memory.books n := by
    rw [books_run s fun op h => hnamed op (List.mem_append_left _ h),
      books_run s fun op h => hnamed op (List.mem_append_right _ h), same]
  exact ⟨hbooks, fun now => by rw [participation_books, participation_books, hbooks]⟩

/-- A node fails an authentication while its peer is evicted. -/
def besideEvicted : List Op :=
  [.reportEvent "node" .authFailure "" "minor" 0, .reportEvent "peer" .revocationViolation "" "severe" 1,
    .applyInactivityDecay "node" 700000]

/-- The same node while its peer is at work. -/
def besideWorking : List Op :=
  [.registerClusterActivity "peer" "cluster" true 0, .reportEvent "node" .authFailure "" "minor" 0,
    .applyInactivityDecay "node" 700000]

theorem interleaving_unseen_peer :
    (Trace.final step {} besideEvicted).memory.books "node" = (Trace.final step {} besideWorking).memory.books "node" :=
  ((@interleaving_unseen {} besideEvicted besideWorking (by simp [besideEvicted]) (by simp [besideWorking]) "node" rfl).2
    (by simp [besideEvicted, besideWorking, Op.node?])).1

end PyxelVM.Karma
