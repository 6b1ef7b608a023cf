/-
  PyxelVM.Karma.Suspension — which events suspend a node, and for how long.

  A report suspends its node if it leaves the karma at zero, or if it is severe and three
  violations are counted (`suspends`); a suspension that is older than a day counts no
  more, whether anybody has asked for it or not. So, along a run, a node is not suspended
  a day after the last report that suspended it, in the memory or in the file
  (`released_reached`).

  - `suspension_ends`: it may then participate exactly if it has karma.
  - `barred_without_karma`: without it may not, however long ago its last violation was.

  A good event does not set the counter of violations back; lifting the suspension does.
  So it counts the violations since the suspension was last lifted (`violations_counted`),
  which need not be consecutive.

  - `scattered_violations`: two violations, a contribution, and a violation suspend.
  - `consecutive_iff`: a suspension at positive karma ends three violations in a row
    exactly if no severe report finds three that are not.
-/

import PyxelVM.Karma.Eviction
import PyxelVM.Karma.Restart

namespace PyxelVM.Karma

open PyxelVM.Lib

variable {n : String} {t : Rat}

def suspensionDuration : Rat := 86400

/-! ## The eviction queue across restarts -/

/-- The file has the same queue as the memory. -/
theorem queue_load (ops : List Op) : (reached ops).load.memory.evictionQueue = (reached ops).memory.evictionQueue := by
  induction ops using List.reverseRecOn with
  | nil => rfl
  | append_singleton ops op ih =>
    rw [reached_snoc]
    by_cases hop : op = .restart
    · rw [hop]
      rfl
    · obtain ⟨-, ⟨hl, hq⟩ | hl⟩ := step_moves (reached ops) hop
      · rw [hl, hq, ih]
      · exact hl.queue

theorem queued_reached (ops more : List Op) (n : String) :
    n ∈ (reached (ops ++ more)).memory.evictionQueue ↔
      n ∈ (reached ops).memory.evictionQueue ∨ .revocationViolation ∈ events n more := by
  induction more using List.reverseRecOn with
  | nil => simp [events]
  | append_singleton more op ih =>
    rw [← List.append_assoc, events_concat, List.mem_append, ← or_assoc, ← ih]
    by_cases hop : op = .restart
    · rw [hop, reached_restart, queue_load]
      simp [events]
    · rw [reached_snoc, queued_step hop]

/-! ## Suspensions -/

/-- The time of the call, if it has suspended the node. -/
def Op.suspension (nodeId : String) : Op → Reply → List Rat
  | .reportEvent n _ _ severity now, .score sc => if n = nodeId ∧ sc.suspends severity then [now] else []
  | _, _ => []

/-- When the node was suspended. -/
def suspensions (nodeId : String) (ops : List Op) : List Rat := Trace.seen step (Op.suspension nodeId) {} ops

theorem suspensions_concat (n : String) (ops : List Op) (op : Op) :
    suspensions n (ops ++ [op]) = suspensions n ops ++ op.suspension n (step (reached ops) op).1 :=
  Trace.seen_concat _ ops op

/-- Asking suspends nobody. -/
theorem isSuspended_asked {sc : KarmaScore} (h : (sc.isSuspended t).1 = false) (now : Rat) :
    ((sc.isSuspended now).2.isSuspended t).1 = false := by
  rcases isSuspended_cases sc now with ⟨-, e⟩ | ⟨-, since, -, -, e⟩
  · rw [e, h]
  · rw [e]
    rfl

theorem suspends_reported (sc : KarmaScore) (e : KarmaEvent) (severity : String) (now : Rat) :
    (sc.reported e severity now).suspends severity ↔ (sc.adjusted e now).suspends severity := by
  simp only [KarmaScore.reported]
  split <;> exact Iff.rfl

/-- The thresholds of the score that a report returns are those it has compared. -/
theorem suspension_reportEvent (s : System) (n : String) (e : KarmaEvent) (reason severity : String) (now : Rat) :
    (Op.reportEvent n e reason severity now).suspension n (step s (.reportEvent n e reason severity now)).1 =
      if ((s.memory.standing n).adjusted e now).suspends severity then [now] else [] := by
  have hstep : (s.reportEvent n e reason severity now).memory.standing n = (s.memory.standing n).reported e severity now :=
    (standing_reportEvent s n n e reason severity now).trans (if_pos rfl)
  have hiff : (n = n ∧ ((s.reportEvent n e reason severity now).memory.scoreOf n).suspends severity) ↔
      ((s.memory.standing n).adjusted e now).suspends severity := by
    rw [and_iff_right rfl, ← suspends_reported, ← hstep]
    exact Iff.rfl
  exact if_congr hiff rfl rfl

/-- A report that does not suspend a node leaves it as free as it was; one that does, frees it after a day. -/
theorem isSuspended_reported {sc : KarmaScore} (h : (sc.isSuspended t).1 = false) {e : KarmaEvent} {severity : String}
    {now : Rat} (ht : (sc.adjusted e now).suspends severity → suspensionDuration < t - now) :
    ((sc.reported e severity now).isSuspended t).1 = false := by
  simp only [KarmaScore.reported]
  split
  · rename_i hs
    have hover : t - now > 86400 := ht hs
    simp [KarmaScore.isSuspended, hover]
  · exact (isSuspended_congr (a := sc.adjusted e now) (b := sc) rfl rfl t).trans h

theorem isSuspended_decayed (sc : KarmaScore) (now t : Rat) : ((sc.decayed now).isSuspended t).1 = (sc.isSuspended t).1 := by
  unfold KarmaScore.decayed
  split
  · rfl
  · exact isSuspended_congr (by rfl) (by rfl) t

/-- A completed cycle brings karma, so it suspends nobody. -/
theorem not_suspends_cycle {sc : KarmaScore} (h : 0 ≤ sc.karma) (now : Rat) :
    ¬(sc.adjusted .computeCycleCompleted now).suspends "minor" := by
  rintro (hk | ⟨-, hs⟩)
  · have : max 0 (min 100 (sc.karma + 8)) ≤ 0 := hk
    omega
  · exact absurd hs (by decide)

theorem released_step {s : System} (hb : (s.memory.account n).Balanced) {op : Op} (hop : op ≠ .restart)
    (h : ((s.memory.standing n).isSuspended t).1 = false)
    (ht : ∀ now ∈ op.suspension n (step s op).1, suspensionDuration < t - now) :
    (((step s op).2.memory.standing n).isSuspended t).1 = false := by
  by_cases hsubject : op.subject? = some n
  · cases op with
    | reportEvent k e reason severity now =>
      obtain rfl : k = n := Option.some.inj hsubject
      have hstep := (standing_reportEvent s k k e reason severity now).trans (if_pos rfl)
      show (((s.reportEvent k e reason severity now).memory.standing k).isSuspended t).1 = false
      rw [hstep]
      refine isSuspended_reported h fun hs => ht now ?_
      rw [suspension_reportEvent, if_pos hs]
      exact List.mem_singleton.mpr rfl
    | applyInactivityDecay k now =>
      obtain rfl : k = n := Option.some.inj hsubject
      have hstep := (standing_applyInactivityDecay s k k now).trans (if_pos rfl)
      show (((s.applyInactivityDecay k now).2.memory.standing k).isSuspended t).1 = false
      rw [hstep, isSuspended_decayed, h]
    | registerClusterActivity k c done now =>
      obtain rfl : k = n := Option.some.inj hsubject
      have hstep := (standing_registerClusterActivity s k k c done now).trans (if_pos rfl)
      have hcycle : (((s.memory.standing k).reported .computeCycleCompleted "minor" now).isSuspended t).1 = false :=
        isSuspended_reported h fun hs => absurd hs (not_suspends_cycle hb.bounds.1 now)
      show (((s.registerClusterActivity k c done now).memory.standing k).isSuspended t).1 = false
      rw [hstep]
      cases done with
      | false => exact (isSuspended_congr (by rfl) (by rfl) t).trans h
      | true => exact (isSuspended_congr (by rfl) (by rfl) t).trans hcycle
    | _ => cases hsubject
  · rcases standing_other s hsubject hop with e | ⟨now, e⟩
    · rw [e, h]
    · rw [e, isSuspended_asked h]

theorem released_file {s : System} (hb : ∀ k, (s.memory.account k).Balanced) {op : Op}
    (h : ((s.load.memory.standing n).isSuspended t).1 = false)
    (hstep : (((step s op).2.memory.standing n).isSuspended t).1 = false) :
    (((step s op).2.load.memory.standing n).isSuspended t).1 = false := by
  have hfile : SameReports (fun _ => ()) t _ _ ∨ _ := step_file hb op
  rcases hfile with hs | hl
  · have hreport := congrArg Report.suspended (hs.report n)
    simp only [Memory.report] at hreport
    rw [Memory.standing, isSuspended_standing] at hstep ⊢
    rw [← hreport, hstep]
  · rw [hl, h]

/-- A day after the last report that suspended it, a node is not suspended, nor after a restart. -/
theorem released_reached {ops : List Op} (ht : ∀ now ∈ suspensions n ops, suspensionDuration < t - now) :
    (((reached ops).memory.standing n).isSuspended t).1 = false ∧
      (((reached ops).load.memory.standing n).isSuspended t).1 = false := by
  induction ops using List.reverseRecOn with
  | nil => exact ⟨rfl, rfl⟩
  | append_singleton ops op ih =>
    rw [suspensions_concat] at ht
    obtain ⟨hm, hf⟩ := ih fun now h => ht now (List.mem_append_left _ h)
    rw [reached_snoc]
    by_cases hop : op = .restart
    · rw [hop]
      exact ⟨hf, hf⟩
    · have hstep := released_step ((balanced_reached ops).1 n) hop hm fun now h => ht now (List.mem_append_right _ h)
      exact ⟨hstep, released_file (balanced_reached ops).1 hf hstep⟩

/-- Of a node that is not evicted and is reported no violation from some point on: more than a day after the last report
    that suspended it, it may participate exactly if it has karma. -/
theorem suspension_ends (ops more : List Op) (n : String) (hq : n ∉ (reached ops).memory.evictionQueue)
    (hmore : ∀ e ∈ events n more, 0 ≤ (karmaAdjustments e).karma) (t : Rat)
    (ht : ∀ now ∈ suspensions n (ops ++ more), suspensionDuration < t - now) :
    ((reached (ops ++ more)).memory.canParticipate n t).1.1 = true ↔ 0 < ((reached (ops ++ more)).memory.scoreOf n).karma := by
  have hqueue : n ∉ (reached (ops ++ more)).memory.evictionQueue := by
    rw [queued_reached, not_or]
    exact ⟨hq, fun h => absurd (hmore _ h) (by decide)⟩
  have hfree := (released_reached ht).1
  rw [Memory.standing, isSuspended_standing] at hfree
  rw [canParticipate_iff]
  exact ⟨fun h => h.2.2, fun h => ⟨hqueue, hfree, h⟩⟩

/-- A node without karma, and a contribution of it. -/
theorem suspension_ends_redeemed :
    ((reached [.reportEvent "node" .stateCorruption "" "severe" 0,
        .reportEvent "node" .validContribution "" "minor" 10]).memory.canParticipate "node" 90000).1.1 = true ↔
      0 < ((reached [.reportEvent "node" .stateCorruption "" "severe" 0,
        .reportEvent "node" .validContribution "" "minor" 10]).memory.scoreOf "node").karma :=
  suspension_ends [.reportEvent "node" .stateCorruption "" "severe" 0]
    [.reportEvent "node" .validContribution "" "minor" 10] "node"
    (by decide +kernel) (by decide +kernel) 90000 (by decide +kernel)

/-- A heartbeat of a node without karma suspends it again. -/
example : ((reached [.reportEvent "node" .stateCorruption "" "severe" 0, .reportEvent "node" .heartbeat "" "minor" 50000,
    .reportEvent "node" .validContribution "" "minor" 50001]).memory.canParticipate "node" 86401).1.1 = false := by
  decide +kernel

def KarmaEvent.violates (e : KarmaEvent) : Bool := decide ((karmaAdjustments e).karma < 0)

/-- When the node was reported violations. -/
def violations (nodeId : String) (ops : List Op) : List Rat :=
  ops.filterMap fun
    | .reportEvent n e _ _ now => if n = nodeId ∧ e.violates then some now else none
    | _ => none

/-- Its karma is zero: it may not, a day and a second later. -/
theorem barred_without_karma : ¬∀ (ops more : List Op) (n : String) (now : Rat),
    (((reached ops).memory.scoreOf n).isSuspended now).1 = true → n ∉ (reached ops).memory.evictionQueue →
      (∀ e ∈ events n more, 0 ≤ (karmaAdjustments e).karma) →
        ∀ t, (∀ now ∈ violations n (ops ++ more), suspensionDuration < t - now) →
          ((reached (ops ++ more)).memory.canParticipate n t).1.1 = true := by
  intro h
  have hfree := h [.reportEvent "node" .stateCorruption "" "severe" 0] [] "node" 1 (by decide +kernel) (by decide +kernel)
    (by simp [events]) 86401 (by decide +kernel)
  exact absurd hfree (by decide +kernel)

/-! ## Consecutive violations -/

/-- How many violations in a row the events end with. -/
def streak (es : List KarmaEvent) : Nat := (es.reverse.takeWhile KarmaEvent.violates).length

/-- Three violations, but the last three events are not. -/
def Scattered (es : List KarmaEvent) : Prop := 3 ≤ es.countP KarmaEvent.violates ∧ streak es < 3

/-- The call is a report or a query. -/
def Op.observes : Op → Prop
  | .reportEvent .. => True
  | op => op.isQuery = true

/-- A report that suspends the node while it has karma comes as the third violation in a row. -/
def ConsecutiveRule (nodeId : String) (ops : List Op) : Prop :=
  ∀ past eventType reason severity now, past ++ [.reportEvent nodeId eventType reason severity now] <+: ops →
    let score := (reached (past ++ [.reportEvent nodeId eventType reason severity now])).memory.scoreOf nodeId
    score.suspends severity → 0 < score.karma → 3 ≤ streak (events nodeId past ++ [eventType])

/-- The events of the node since its suspension was last lifted, beside the system. -/
def watch (nodeId : String) (w : System × List KarmaEvent) (op : Op) : System × List KarmaEvent :=
  let s := (step w.1 op).2
  (s, if (w.1.memory.scoreOf nodeId).suspensionStatus && !(s.memory.scoreOf nodeId).suspensionStatus then []
    else w.2 ++ events nodeId [op])

def sinceLifted (nodeId : String) (ops : List Op) : List KarmaEvent := (ops.foldl (watch nodeId) ({}, [])).2

theorem sinceLifted_concat (n : String) (ops : List Op) (op : Op) :
    sinceLifted n (ops ++ [op]) =
      if ((reached ops).memory.standing n).suspensionStatus && !((step (reached ops) op).2.memory.standing n).suspensionStatus
      then [] else sinceLifted n ops ++ events n [op] := by
  have hsystem (ops : List Op) : (ops.foldl (watch n) ({}, [])).1 = reached ops := by
    induction ops using List.reverseRecOn with
    | nil => rfl
    | append_singleton ops op ih =>
      rw [List.foldl_append, reached_snoc, ← ih]
      rfl
  rw [sinceLifted, List.foldl_append, ← hsystem]
  rfl

theorem sinceLifted_suffix (n : String) (ops : List Op) : sinceLifted n ops <:+ events n ops := by
  induction ops using List.reverseRecOn with
  | nil => exact List.suffix_refl _
  | append_singleton ops op ih =>
    rw [sinceLifted_concat, events_concat]
    split
    · exact List.nil_suffix
    · exact (List.suffix_append_inj_of_length_eq rfl).mpr ⟨ih, rfl⟩

/-- A long enough end of the events shows whether they end three in a row. -/
theorem streak_suffix {es fs : List KarmaEvent} (h : es <:+ fs) (h3 : 3 ≤ es.length) : 3 ≤ streak fs ↔ 3 ≤ streak es := by
  obtain ⟨past, rfl⟩ := h
  unfold streak
  rw [List.reverse_append, List.takeWhile_append]
  split
  · rename_i hall
    rw [List.length_append, hall, List.length_reverse]
    omega
  · exact Iff.rfl

theorem reported_status (sc : KarmaScore) (e : KarmaEvent) (severity : String) (now : Rat) :
    (sc.suspensionStatus && !(sc.reported e severity now).suspensionStatus) = false := by
  simp only [KarmaScore.reported]
  split
  · exact Bool.and_false _
  · exact Bool.and_not_self _

theorem reported_violations (sc : KarmaScore) (e : KarmaEvent) (severity : String) (now : Rat) :
    (sc.reported e severity now).consecutiveViolations =
      if (karmaAdjustments e).karma < 0 then sc.consecutiveViolations + 1 else sc.consecutiveViolations := by
  simp only [KarmaScore.reported]
  split <;> rfl

theorem reported_karma (sc : KarmaScore) (e : KarmaEvent) (severity : String) (now : Rat) :
    (sc.reported e severity now).karma = max 0 (min 100 (sc.karma + (karmaAdjustments e).karma)) := by
  simp only [KarmaScore.reported]
  split <;> rfl

theorem standing_report (ops : List Op) (n : String) (e : KarmaEvent) (reason severity : String) (now : Rat) :
    (reached (ops ++ [.reportEvent n e reason severity now])).memory.standing n =
      ((reached ops).memory.standing n).reported e severity now := by
  rw [reached_snoc]
  exact (standing_reportEvent (reached ops) n n e reason severity now).trans (if_pos rfl)

theorem sinceLifted_report (ops : List Op) (n : String) (e : KarmaEvent) (reason severity : String) (now : Rat) :
    sinceLifted n (ops ++ [.reportEvent n e reason severity now]) = sinceLifted n ops ++ [e] := by
  have hstep := standing_report ops n e reason severity now
  rw [reached_snoc] at hstep
  have hevents : events n [.reportEvent n e reason severity now] = [e] := by simp [events]
  rw [sinceLifted_concat, hstep, reported_status, hevents]
  rfl

/-- Another call that observes leaves the events, and forgets them when it lifts the suspension. -/
theorem sinceLifted_other {ops : List Op} {op : Op} (hsubject : op.subject? ≠ some n) (hop : op ≠ .restart)
    (hevents : events n [op] = [])
    (ih : ((reached ops).memory.standing n).consecutiveViolations = (sinceLifted n ops).countP KarmaEvent.violates) :
    ((step (reached ops) op).2.memory.standing n).consecutiveViolations =
      (sinceLifted n (ops ++ [op])).countP KarmaEvent.violates := by
  rw [sinceLifted_concat, hevents, List.append_nil]
  rcases standing_other (reached ops) hsubject hop with e | ⟨now, e⟩
  · rw [e, Bool.and_not_self, ih]
    rfl
  · rcases isSuspended_cases ((reached ops).memory.standing n) now with ⟨-, hsame⟩ | ⟨hstatus, since, -, -, hlifted⟩
    · rw [e, hsame, Bool.and_not_self, ih]
      rfl
    · rw [e, hlifted, hstatus]
      rfl

/-- The counter is the number of violations since the suspension was last lifted. -/
theorem violations_counted {ops : List Op} (hops : ∀ op ∈ ops, op.observes) (n : String) :
    ((reached ops).memory.standing n).consecutiveViolations = (sinceLifted n ops).countP KarmaEvent.violates := by
  induction ops using List.reverseRecOn with
  | nil => rfl
  | append_singleton ops op ih =>
    have hpast := ih fun o ho => hops o (List.mem_append_left _ ho)
    have hop := hops op (by simp)
    by_cases hreport : ∃ e reason severity now, op = .reportEvent n e reason severity now
    · obtain ⟨e, reason, severity, now, rfl⟩ := hreport
      rw [standing_report, sinceLifted_report, reported_violations, hpast, List.countP_append, List.countP_singleton]
      by_cases he : (karmaAdjustments e).karma < 0
      · simp [he, KarmaEvent.violates]
      · simp [he, KarmaEvent.violates]
    · have hother (k : String) (hk : op.subject? = some k) : k ≠ n := by
        rintro rfl
        cases op with
        | reportEvent k' e reason severity now =>
          obtain rfl : k' = k := Option.some.inj hk
          exact hreport ⟨e, reason, severity, now, rfl⟩
        | applyInactivityDecay k' now => cases hop
        | registerClusterActivity k' c done now => cases hop
        | _ => cases hk
      rw [reached_snoc]
      refine sinceLifted_other (fun h => hother n h rfl) (by rintro rfl; cases hop) ?_ hpast
      cases op with
      | reportEvent k e reason severity now => simp [events, hother k rfl]
      | _ => rfl

/-- A suspension of a node that has karma comes as its third violation in a row exactly where no severe report finds three
    violations since the suspension was last lifted that are not the last three events. -/
theorem consecutive_iff (ops : List Op) (hops : ∀ op ∈ ops, op.observes) (n : String) :
    ConsecutiveRule n ops ↔
      ∀ past eventType reason now, past ++ [.reportEvent n eventType reason "severe" now] <+: ops →
        0 < ((reached past).memory.scoreOf n).karma + (karmaAdjustments eventType).karma →
          ¬Scattered (sinceLifted n past ++ [eventType]) := by
  have hscore {past : List Op} {e : KarmaEvent} {reason severity : String} {now : Rat}
      (hp : past ++ [.reportEvent n e reason severity now] <+: ops) :
      let score := (reached (past ++ [.reportEvent n e reason severity now])).memory.standing n
      score.consecutiveViolations = (sinceLifted n past ++ [e]).countP KarmaEvent.violates ∧
        (0 < score.karma ↔ 0 < ((reached past).memory.standing n).karma + (karmaAdjustments e).karma) := by
    have hcount := violations_counted (fun op h => hops op (hp.subset h)) n
    rw [sinceLifted_report] at hcount
    refine ⟨hcount, ?_⟩
    rw [standing_report, reported_karma]
    omega
  -- three violations counted make three events, so the last three events are the last three counted
  have hstreak {past : List Op} {e : KarmaEvent} (h3 : 3 ≤ (sinceLifted n past ++ [e]).countP KarmaEvent.violates) :
      3 ≤ streak (events n past ++ [e]) ↔ 3 ≤ streak (sinceLifted n past ++ [e]) := by
    refine streak_suffix ((List.suffix_append_inj_of_length_eq rfl).mpr ⟨sinceLifted_suffix n past, rfl⟩) ?_
    exact h3.trans List.countP_le_length
  constructor
  · intro h past e reason now hp hk hscattered
    obtain ⟨hcount, hkarma⟩ := hscore hp
    obtain ⟨h3, hlt⟩ := hscattered
    have hrule := h past e reason "severe" now hp (.inr ⟨?_, rfl⟩) (hkarma.mpr hk)
    · rw [hstreak h3] at hrule
      omega
    · show 3 ≤ (Memory.standing _ n).consecutiveViolations
      rw [hcount]
      exact_mod_cast h3
  · intro h past e reason severity now hp
    obtain ⟨hcount, hkarma⟩ := hscore hp
    intro score hsuspends hk
    rcases hsuspends with hle | ⟨hviolations, rfl⟩
    · exact absurd hk (not_lt.mpr hle)
    · change 3 ≤ (Memory.standing _ n).consecutiveViolations at hviolations
      rw [hcount] at hviolations
      have h3 : 3 ≤ (sinceLifted n past ++ [e]).countP KarmaEvent.violates := by exact_mod_cast hviolations
      rw [hstreak h3]
      by_contra hlt
      exact h past e reason now hp (hkarma.mp hk) ⟨h3, not_le.mp hlt⟩

/-- Three failed authentications in a row. -/
def intrusion : List Op :=
  [.reportEvent "node" .authFailure "" "minor" 0, .canParticipate "node" 1, .reportEvent "node" .authFailure "" "minor" 2,
    .reportEvent "node" .authFailure "" "severe" 3]

theorem consecutive_intrusion :
    ConsecutiveRule "node" intrusion ↔
      ∀ past eventType reason now, past ++ [.reportEvent "node" eventType reason "severe" now] <+: intrusion →
        0 < ((reached past).memory.scoreOf "node").karma + (karmaAdjustments eventType).karma →
          ¬Scattered (sinceLifted "node" past ++ [eventType]) :=
  consecutive_iff intrusion (by simp [intrusion, Op.observes, Op.isQuery]) "node"

/-- A node contributes between its violations, and is suspended for the third with 45 karma. -/
theorem scattered_violations : ¬∀ (ops : List Op) (n : String), (∀ op ∈ ops, op.observes) → ConsecutiveRule n ops := by
  intro h
  have hrule := h ([.reportEvent "node" .authFailure "" "minor" 0, .reportEvent "node" .validContribution "" "minor" 1,
    .reportEvent "node" .authFailure "" "minor" 2] ++ [.reportEvent "node" .authFailure "" "severe" 3]) "node"
    (by simp [Op.observes]) _ _ _ _ _ (List.prefix_refl _) (by decide +kernel) (by decide +kernel)
  exact absurd hrule (by decide +kernel)

end PyxelVM.Karma
