/-
  PyxelVM.Karma.Restart — what a restart forgets.

  A `Report` is what the system says of a node at a clock reading: karma, experience,
  level, memberships, whether it is suspended or to be evicted, and whether it may take
  part. How much of a membership is looked at is a parameter, the `view`: all of it, or
  that it is there. `Survives` says that after a run a new system on the same file
  reports the same of every node, and has the same rosters, at any clock reading that is
  not before one of the run.

  Every call but one saves what it has done, or has only read: `step_keeps`. Lifting a
  suspension is not saved, but the new system lifts it as well. The exception is
  `register_cluster_activity` of no completed cycle, which never comes to `save`.

  - `activity_forgotten`: a node that registered activity is in no cluster after a restart.
  - `survives_iff`: every state of a run survives a restart exactly when each such call
    changes nothing the view shows.
-/

import PyxelVM.Karma.Ledger

namespace PyxelVM.Karma

open PyxelVM.Lib

variable {β : Type} {view : ClusterMembership → β} {t : Rat}

/-! ## Reports -/

structure Report (β : Type) where
  karma : Int
  experience : Int
  level : NodeLevel
  memberships : String → Option β
  suspended : Bool
  evictionPending : Bool
  participation : Bool × Status

def Memory.report (m : Memory) (view : ClusterMembership → β) (nodeId : String) (now : Rat) : Report β where
  karma := (m.scoreOf nodeId).karma
  experience := (m.scoreOf nodeId).totalExperience
  level := (m.scoreOf nodeId).level
  memberships := fun clusterId => ((m.scoreOf nodeId).clusterMemberships.get? clusterId).map view
  suspended := ((m.scoreOf nodeId).isSuspended now).1
  evictionPending := (m.scoreOf nodeId).evictionPending
  participation := (m.canParticipate nodeId now).1

/-- The memories report the same of every node at `t`, and have the same rosters. -/
structure SameReports (view : ClusterMembership → β) (t : Rat) (m m' : Memory) : Prop where
  report : ∀ n, m'.report view n t = m.report view n t
  cluster : ∀ c, m'.cluster c = m.cluster c

/-- After the run a new system on the same file reports what the running one does, from then on. -/
def Survives (view : ClusterMembership → β) (ops : List Op) : Prop :=
  ∀ t, (∀ op ∈ ops, ∀ now ∈ op.now?, now ≤ t) → SameReports view t (reached (ops ++ [.restart])).memory (reached ops).memory

theorem SameReports.refl (m : Memory) : SameReports view t m m := ⟨fun _ => rfl, fun _ => rfl⟩

theorem SameReports.trans {a b c : Memory} (h : SameReports view t a b) (k : SameReports view t b c) :
    SameReports view t a c := ⟨fun n => (k.report n).trans (h.report n), fun d => (k.cluster d).trans (h.cluster d)⟩

/-! ## What a report depends on -/

/-- Two nodes are reported alike if their scores are alike and both are evicted or neither is. -/
theorem report_congr {m m' : Memory} {n : String} (hk : (m'.scoreOf n).karma = (m.scoreOf n).karma)
    (hx : (m'.scoreOf n).totalExperience = (m.scoreOf n).totalExperience) (hl : (m'.scoreOf n).level = (m.scoreOf n).level)
    (hm : ∀ c, ((m'.scoreOf n).clusterMemberships.get? c).map view = ((m.scoreOf n).clusterMemberships.get? c).map view)
    (hs : ((m'.scoreOf n).isSuspended t).1 = ((m.scoreOf n).isSuspended t).1)
    (ht : (m'.scoreOf n).suspensionTime = (m.scoreOf n).suspensionTime)
    (he : (m'.scoreOf n).evictionPending = (m.scoreOf n).evictionPending) (hq : m'.evictionQueue = m.evictionQueue) :
    m'.report view n t = m.report view n t := by
  have hp : (m'.canParticipate n t).1 = (m.canParticipate n t).1 := by
    simp only [canParticipate_fst, KarmaScore.participation, hk, hs, ht, hq]
  simp only [Memory.report, hk, hx, hl, hm, hs, he, hp]

theorem isSuspended_congr {a b : KarmaScore} (hs : a.suspensionStatus = b.suspensionStatus)
    (ht : a.suspensionTime = b.suspensionTime) (now : Rat) : (a.isSuspended now).1 = (b.isSuspended now).1 := by
  unfold KarmaScore.isSuspended
  rw [hs, ht]
  repeat' split
  all_goals rfl

theorem Reads.reports {now : Rat} {m m' : Memory} (h : Reads now m m') (ht : now ≤ t) : SameReports view t m m' := by
  refine ⟨?_, h.cluster⟩
  intro n
  rcases h.score n with e | e
  · exact report_congr (by rw [e]) (by rw [e]) (by rw [e]) (by simp [e]) (by rw [e]) (by rw [e]) (by rw [e]) h.queue
  · have hlater := isSuspended_later (m.scoreOf n) ht
    rw [← e] at hlater
    obtain ⟨_, _, hsc⟩ := isSuspended_score (m.scoreOf n) now
    rw [hsc] at e
    exact report_congr (by rw [e]) (by rw [e]) (by rw [e]) (by simp [e]) hlater (by rw [e]) (by rw [e]) h.queue

/-- A score that differs in its activity time, and in memberships where the view does not show it. -/
theorem reports_setScore (m : Memory) (n : String) (time : Rat) {d : Dict String ClusterMembership}
    (hd : ∀ c, (d.get? c).map view = ((m.scoreOf n).clusterMemberships.get? c).map view) :
    SameReports view t m (m.setScore n { m.scoreOf n with clusterMemberships := d, lastActivityTime := time }) := by
  refine ⟨?_, fun _ => rfl⟩
  intro k
  by_cases h : k = n
  · subst h
    have e := scoreOf_setScore m k k { m.scoreOf k with clusterMemberships := d, lastActivityTime := time }
    rw [if_pos rfl] at e
    exact report_congr (by rw [e]) (by rw [e]) (by rw [e]) (by rw [e]; exact hd)
      (isSuspended_congr (by rw [e]) (by rw [e]) t) (by rw [e]) (by rw [e]) rfl
  · have e := scoreOf_setScore m n k { m.scoreOf n with clusterMemberships := d, lastActivityTime := time }
    rw [if_neg h] at e
    exact report_congr (by rw [e]) (by rw [e]) (by rw [e]) (by simp [e]) (by rw [e]) (by rw [e]) (by rw [e]) rfl

/-! ## Activity without a cycle -/

/-- The membership that registered activity leaves. -/
def touched (cm : Option ClusterMembership) (clusterId : String) (now : Rat) : ClusterMembership :=
  { cm.getD ⟨clusterId, now, now, 0, 0⟩ with lastActive := now }

/-- In a cluster of the node, nothing changes but that membership and the activity time. -/
theorem registerClusterActivity_member {s : System} {n c : String} {cm : ClusterMembership}
    (h : (s.memory.scoreOf n).clusterMemberships.get? c = some cm) (now : Rat) :
    (s.registerClusterActivity n c false now).memory =
      let score := { s.memory.scoreOf n with
        clusterMemberships := (s.memory.scoreOf n).clusterMemberships.set c { cm with lastActive := now } }
      ((s.memory.getScore n).setScore n score).setScore n { score with lastActivityTime := now } := by
  have hh : (s.memory.scoreOf n).clusterMemberships.has c = true := Dict.has_iff.mpr ⟨cm, h⟩
  simp only [System.registerClusterActivity, scoreOf_getScore, hh, if_true, Bool.false_eq_true, if_false,
    System.touchMembership, System.setScore, scoreOf_setScore, Dict.modify, h]

theorem membership_registerClusterActivity (s : System) (n c : String) (now : Rat) :
    ((s.registerClusterActivity n c false now).memory.scoreOf n).clusterMemberships.get? c =
      some (touched ((s.memory.scoreOf n).clusterMemberships.get? c) c now) := by
  cases h : (s.memory.scoreOf n).clusterMemberships.get? c with
  | some cm =>
    rw [registerClusterActivity_member h]
    simp [touched]
  | none =>
    have hh : (s.memory.scoreOf n).clusterMemberships.has c = false := Dict.not_has_iff.mpr h
    have ha : (System.addMember { s with memory := s.memory.getScore n } n c now).memory.scoreOf n =
        { s.memory.scoreOf n with
          clusterMemberships := (s.memory.scoreOf n).clusterMemberships.set c ⟨c, now, now, 0, 0⟩ } := by
      show Memory.scoreOf (Memory.setScore (s.memory.getScore n) n _) n = _
      rw [scoreOf_setScore, if_pos rfl, scoreOf_getScore]
    simp [System.registerClusterActivity, hh, System.touchMembership, System.setScore, ha, Dict.get?_modify, touched]

/-- Activity in a cluster of the node is reported where the view shows the activity time of the membership. -/
theorem reports_registerClusterActivity {s : System} {n c : String} {cm : ClusterMembership}
    (h : (s.memory.scoreOf n).clusterMemberships.get? c = some cm) {now : Rat}
    (hv : view { cm with lastActive := now } = view cm) :
    SameReports view t s.memory (s.registerClusterActivity n c false now).memory := by
  have hg : SameReports view t s.memory (s.memory.getScore n) :=
    (reads_getScore s.memory n : Reads t _ _).reports (le_refl t)
  have hset (d : String) : (((s.memory.scoreOf n).clusterMemberships.set c { cm with lastActive := now }).get? d).map view =
      ((s.memory.scoreOf n).clusterMemberships.get? d).map view := by
    rw [Dict.get?_set]
    split
    · rename_i e; rw [e, h, Option.map_some, Option.map_some, hv]
    · rfl
  have h1 := reports_setScore (t := t) (s.memory.getScore n) n (s.memory.scoreOf n).lastActivityTime
    (d := (s.memory.scoreOf n).clusterMemberships.set c { cm with lastActive := now }) (by simpa using hset)
  rw [scoreOf_getScore] at h1
  rw [registerClusterActivity_member h]
  refine hg.trans (h1.trans ?_)
  have h2 : SameReports view t _ _ := reports_setScore ((s.memory.getScore n).setScore n { s.memory.scoreOf n with
    clusterMemberships := (s.memory.scoreOf n).clusterMemberships.set c { cm with lastActive := now } }) n now
    (d := (s.memory.scoreOf n).clusterMemberships.set c { cm with lastActive := now }) (by simp)
  simpa using h2

theorem load_registerClusterActivity (s : System) (n c : String) (now : Rat) :
    (s.registerClusterActivity n c false now).load.memory = s.load.memory := by
  obtain ⟨s', hs', he⟩ := registerClusterActivity_eq s n c false now
  obtain rfl := hs'
  rw [he]
  exact load_enter s n c now

/-! ## What each call saves -/

/-- Every other call leaves a file that reports what the memory does, or has only read. -/
theorem step_keeps {s : System} (h : ∀ n, (s.memory.account n).Balanced) {op : Op}
    (hop : ∀ n c now, op ≠ .registerClusterActivity n c false now) :
    SameReports view t (step s op).2.load.memory (step s op).2.memory ∨
      ((step s op).2.load.memory = s.load.memory ∧
        ((∀ now ∈ op.now?, now ≤ t) → SameReports view t s.memory (step s op).2.memory)) := by
  by_cases hquery : op.isQuery = true
  · obtain ⟨hr, hf⟩ := query_reads s hquery t
    refine .inr ⟨by rw [System.load, hf]; rfl, fun ht => hr.reports ?_⟩
    cases hnow : op.now? with
    | none => exact le_refl t
    | some now => exact ht now hnow
  cases op with
  | reportEvent n e reason severity now => exact .inl (.refl _)
  | applyInactivityDecay n now =>
    rcases applyInactivityDecay_cases s n now (h n) with ⟨hr, hf⟩ | ⟨_, hf⟩
    · exact .inr ⟨by simp only [step, System.load, hf], fun _ => (hr t).reports (le_refl t)⟩
    · refine .inl ?_
      show SameReports view t (s.applyInactivityDecay n now).2.load.memory (s.applyInactivityDecay n now).2.memory
      rw [hf]
      exact .refl _
  | registerClusterActivity n c done now =>
    cases done with
    | false => exact absurd rfl (hop n c now)
    | true =>
      -- saved within `report_event`; only the activity time is set after that
      obtain ⟨s', hs', he⟩ := registerClusterActivity_eq s n c true now
      obtain ⟨reason, rfl⟩ := hs'
      refine .inl ?_
      show SameReports view t (s.registerClusterActivity n c true now).load.memory
        (s.registerClusterActivity n c true now).memory
      rw [he]
      exact reports_setScore _ n now (d := (Memory.scoreOf _ n).clusterMemberships) fun _ => rfl
  | joinCluster n c now =>
    rcases joinCluster_cases s n c now with ⟨hr, hf⟩ | ⟨s', _, _, _, _, he⟩
    · exact .inr ⟨by simp only [step, System.load, hf], fun ht => hr.reports (ht now rfl)⟩
    · have hs : (step s (.joinCluster n c now)).2 = (s'.addMember n c now).save now := he
      rw [hs]
      exact .inl (.refl _)
  | leaveCluster n c now =>
    simp only [step, System.leaveCluster]
    repeat' split
    all_goals first
      | exact .inr ⟨rfl, fun _ => .refl _⟩
      | exact .inl (.refl _)
  | restart => exact .inl (.refl _)
  | _ => exact absurd rfl hquery

/-- What a restart would read reports what the memory does, or the call has not written it. -/
theorem step_file {s : System} (h : ∀ n, (s.memory.account n).Balanced) (op : Op) :
    SameReports view t (step s op).2.load.memory (step s op).2.memory ∨ (step s op).2.load.memory = s.load.memory := by
  by_cases hop : ∃ n c now, op = .registerClusterActivity n c false now
  · obtain ⟨n, c, now, rfl⟩ := hop
    exact .inr (load_registerClusterActivity s n c now)
  · exact (step_keeps h fun n c now e => hop ⟨n, c, now, e⟩).imp_right And.left

/-! ## Runs -/

theorem reached_restart (ops : List Op) : (reached (ops ++ [.restart])).memory = (reached ops).load.memory := by
  rw [reached_snoc]; rfl

/-- The call is not activity without a cycle that changes what the view shows. -/
def Op.saves (view : ClusterMembership → β) (s : System) : Op → Prop
  | .registerClusterActivity nodeId clusterId false now =>
    ∃ cm, (s.memory.scoreOf nodeId).clusterMemberships.get? clusterId = some cm ∧ view { cm with lastActive := now } = view cm
  | _ => True

theorem survives_of_saves {ops : List Op} (h : ∀ a op b, ops = a ++ op :: b → op.saves view (reached a)) :
    Survives view ops := by
  induction ops using List.reverseRecOn with
  | nil =>
    intro t _
    rw [reached_restart]
    exact .refl _
  | append_singleton ops op ih =>
    intro t ht
    have hops := ih (fun a o b e => h a o (b ++ [op]) (by simp [e])) t fun o ho => ht o (List.mem_append_left _ ho)
    rw [reached_restart] at hops ⊢
    rw [reached_snoc]
    by_cases hop : ∃ n c now, op = .registerClusterActivity n c false now
    · obtain ⟨n, c, now, rfl⟩ := hop
      obtain ⟨cm, hcm, hv⟩ := h ops _ [] rfl
      show SameReports view t ((reached ops).registerClusterActivity n c false now).load.memory
        ((reached ops).registerClusterActivity n c false now).memory
      rw [load_registerClusterActivity]
      exact hops.trans (reports_registerClusterActivity hcm hv)
    · have hne : ∀ n c now, op ≠ .registerClusterActivity n c false now := fun n c now e => hop ⟨n, c, now, e⟩
      have hkeeps : SameReports view t _ _ ∨ _ := step_keeps (balanced_reached ops).1 hne
      rcases hkeeps with hs | ⟨hl, hm⟩
      · exact hs
      · rw [hl]
        exact hops.trans (hm (ht op (by simp)))

theorem exists_later (ops : List Op) : ∃ t, ∀ op ∈ ops, ∀ now ∈ op.now?, now ≤ t := by
  induction ops with
  | nil => exact ⟨0, by simp⟩
  | cons op ops ih =>
    obtain ⟨t, ht⟩ := ih
    refine ⟨max t (op.now?.getD 0), ?_⟩
    intro o ho now hn
    rcases List.mem_cons.mp ho with rfl | ho
    · rw [Option.mem_def.mp hn]
      exact le_max_right _ _
    · exact (ht o ho now hn).trans (le_max_left _ _)

/-- Every state of the run survives a restart exactly when activity without a completed cycle is only registered where
    it changes nothing the view shows: for a member of the cluster, whose membership looks the same with the new time. -/
theorem survives_iff (view : ClusterMembership → β) (ops : List Op) :
    (∀ a b, ops = a ++ b → Survives view a) ↔
      ∀ a nodeId clusterId now b, ops = a ++ .registerClusterActivity nodeId clusterId false now :: b →
        ∃ cm, ((reached a).memory.scoreOf nodeId).clusterMemberships.get? clusterId = some cm ∧
          view { cm with lastActive := now } = view cm := by
  constructor
  · intro h a n c now b e
    obtain ⟨t, ht⟩ := exists_later (a ++ [.registerClusterActivity n c false now])
    have hbefore := (h a _ e t fun o ho => ht o (List.mem_append_left _ ho)).report n
    have hafter := (h (a ++ [.registerClusterActivity n c false now]) b (by simp [e]) t ht).report n
    rw [reached_restart] at hbefore hafter
    rw [reached_snoc] at hafter
    -- what the file says of the membership is what it said before the call
    have hmem : some (view (touched (((reached a).memory.scoreOf n).clusterMemberships.get? c) c now)) =
        (((reached a).memory.scoreOf n).clusterMemberships.get? c).map view := by
      have hb := congrArg (fun r => r.memberships c) hbefore
      have hf := congrArg (fun r => r.memberships c) hafter
      simp only [step, Memory.report, membership_registerClusterActivity, load_registerClusterActivity, Option.map_some]
        at hb hf
      rw [hf, hb]
    cases hcm : ((reached a).memory.scoreOf n).clusterMemberships.get? c with
    | none => rw [hcm] at hmem; cases hmem
    | some cm =>
      rw [hcm] at hmem
      exact ⟨cm, rfl, Option.some.inj hmem⟩
  · intro h a b e
    apply survives_of_saves
    intro p op q epq
    unfold Op.saves
    split
    · rename_i n c now
      exact h p n c now (q ++ b) (by rw [e, epq]; simp)
    · trivial

/-- A node registers activity in a cluster, and after a restart it is not there. -/
theorem activity_forgotten : ¬∀ ops, Survives (fun _ => ()) ops := by
  intro h
  have hs := h [.registerClusterActivity "node" "cluster" false 0] 0 (by
    intro op ho now hn
    rw [List.mem_singleton.mp ho] at hn
    exact (Option.some.inj hn).ge)
  have hc : (reached [.registerClusterActivity "node" "cluster" false 0, .restart]).memory.cluster "cluster" = ∅ := by decide
  have hr : (reached [.registerClusterActivity "node" "cluster" false 0]).memory.cluster "cluster" = {"node"} := by decide
  exact Finset.singleton_ne_empty _ ((hr.symm.trans (hs.cluster "cluster")).trans hc)

end PyxelVM.Karma
