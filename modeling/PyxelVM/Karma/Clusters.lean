/-
  PyxelVM.Karma.Clusters — what a call does to the clusters.

  A cluster is kept twice: in the memberships of its nodes, and as a roster. A call
  leaves both alone (`SameClusters`), or takes a node out of some clusters (`Leaves`), or
  enters one in a cluster (`Enters`). `step_moves` says which call does which, under what
  guard, and that the file is left alone or has the clusters of the memory; whatever
  holds of the clusters along a run is derived from it.
-/

import PyxelVM.Karma.Reads

namespace PyxelVM.Karma

open PyxelVM.Lib

/-! ## Memberships and rosters -/

/-- The node's own memberships name the cluster. -/
def Memory.member (m : Memory) (nodeId clusterId : String) : Bool := (m.scoreOf nodeId).clusterMemberships.has clusterId

/-- The two memories agree on memberships, rosters and evictions. -/
structure SameClusters (m m' : Memory) : Prop where
  member : ∀ n c, m'.member n c = m.member n c
  cluster : ∀ c, m'.cluster c = m.cluster c
  queue : m'.evictionQueue = m.evictionQueue

/-- Node `n` is taken out of those of its clusters of which `p` holds. -/
structure Leaves (n : String) (p : String → Bool) (m m' : Memory) : Prop where
  member : ∀ k d, m'.member k d = (m.member k d && !(decide (k = n) && p d))
  cluster : ∀ d, m'.cluster d = if p d && m.member n d then (m.cluster d).erase n else m.cluster d

/-- Node `n` is entered in cluster `c`. -/
structure Enters (n c : String) (m m' : Memory) : Prop where
  member : ∀ k d, m'.member k d = (m.member k d || (decide (k = n) && decide (d = c)))
  cluster : ∀ d, m'.cluster d = if d = c then insert n (m.cluster c) else m.cluster d

theorem member_iff {m : Memory} {n c : String} :
    m.member n c = true ↔ ∃ sc, m.scores.get? n = some sc ∧ sc.clusterMemberships.has c = true := by
  cases h : m.scores.get? n with
  | none => simp [Memory.member, Memory.scoreOf, Dict.getD, h, Dict.has]
  | some sc => simp [Memory.member, scoreOf_of_get? h]

theorem SameClusters.refl (m : Memory) : SameClusters m m := ⟨fun _ _ => rfl, fun _ => rfl, rfl⟩

theorem SameClusters.symm {a b : Memory} (h : SameClusters a b) : SameClusters b a :=
  ⟨fun n c => (h.member n c).symm, fun c => (h.cluster c).symm, h.queue.symm⟩

theorem SameClusters.trans {a b c : Memory} (h : SameClusters a b) (k : SameClusters b c) : SameClusters a c :=
  ⟨fun n d => (k.member n d).trans (h.member n d), fun d => (k.cluster d).trans (h.cluster d), k.queue.trans h.queue⟩

theorem SameClusters.leaves {a b c d : Memory} {n : String} {p : String → Bool} (h : SameClusters a b) (hl : Leaves n p b c)
    (k : SameClusters c d) : Leaves n p a d := by
  refine ⟨?_, ?_⟩
  · intro l e
    rw [k.member, hl.member, h.member]
  · intro e
    rw [k.cluster, hl.cluster, h.member, h.cluster]

theorem SameClusters.enters {a b c d : Memory} {n e : String} (h : SameClusters a b) (he : Enters n e b c)
    (k : SameClusters c d) : Enters n e a d := by
  refine ⟨?_, ?_⟩
  · intro l f
    rw [k.member, he.member, h.member]
  · intro f
    rw [k.cluster, he.cluster, h.cluster, h.cluster]

/-! ## Changes that leave the clusters alone -/

theorem member_setScore (m : Memory) (n k c : String) (sc : KarmaScore) :
    (m.setScore n sc).member k c = if k = n then sc.clusterMemberships.has c else m.member k c := by
  unfold Memory.member
  rw [scoreOf_setScore]
  split <;> rfl

/-- A score whose memberships name the same clusters changes no cluster. -/
theorem same_setScore_has (m : Memory) (n : String) {x : KarmaScore}
    (h : ∀ c, x.clusterMemberships.has c = (m.scoreOf n).clusterMemberships.has c) : SameClusters m (m.setScore n x) := by
  refine ⟨?_, fun _ => rfl, rfl⟩
  intro k c
  rw [member_setScore]
  split
  · rename_i e; rw [h, e]; rfl
  · rfl

theorem same_setScore (m : Memory) (n : String) {x : KarmaScore}
    (h : x.clusterMemberships = (m.scoreOf n).clusterMemberships) : SameClusters m (m.setScore n x) :=
  same_setScore_has m n fun _ => by rw [h]

theorem Reads.same {now : Rat} {m m' : Memory} (h : Reads now m m') : SameClusters m m' := by
  refine ⟨?_, h.cluster, h.queue⟩
  intro n c
  exact h.of_score (fun sc => sc.clusterMemberships.has c) (fun sc => by simp) n

theorem same_logEvent (m : Memory) (n : String) (r : KarmaEventRecord) : SameClusters m (m.logEvent n r) :=
  ⟨fun _ _ => rfl, fun _ => rfl, rfl⟩

theorem same_suspendNode (s : System) (n : String) (now : Rat) : SameClusters s.memory (s.suspendNode n now).memory := by
  unfold System.suspendNode
  split
  · exact .refl _
  · have h := same_setScore s.memory n
      (x := { s.memory.scoreOf n with suspensionStatus := true, suspensionTime := some now }) rfl
    exact ⟨h.member, h.cluster, h.queue⟩

theorem same_applyInactivityDecay (s : System) (n : String) (now : Rat) :
    SameClusters s.memory (s.applyInactivityDecay n now).2.memory := by
  unfold System.applyInactivityDecay
  split
  · exact .refl _
  · rename_i score hsc
    have h (xp : Int) (l : NodeLevel) :
        SameClusters s.memory (s.memory.setScore n { score with totalExperience := xp, level := l }) := by
      apply same_setScore
      rw [scoreOf_of_get? hsc]
    simp only
    split
    · exact .refl _
    · split
      · show SameClusters s.memory ((s.memory.setScore n _).logEvent n _)
        exact (h _ _).trans (same_logEvent _ _ _)
      · exact h _ _

/-- Touching a membership leaves every membership in place. -/
theorem same_touchMembership (s : System) (n c : String) (done : Bool) (now : Rat) :
    SameClusters s.memory (s.touchMembership n c done now).memory := by
  apply same_setScore_has
  intro d
  simp only [Dict.has, Dict.get?_modify]
  split
  · rename_i e; rw [e, Option.isSome_map]
  · rfl

/-! ## Leaving, entering, evicting -/

theorem member_of_not_has {m : Memory} {n : String} (h : m.scores.has n = false) (c : String) : m.member n c = false := by
  rw [Memory.member, scoreOf_of_not_has h]; rfl

theorem leaves_leaveCluster (s : System) (n c : String) (now : Rat) :
    Leaves n (fun d => decide (d = c)) s.memory (s.leaveCluster n c now).2.memory := by
  -- a node that is not in the cluster leaves nothing
  have hout (h : s.memory.member n c = false) : Leaves n (fun d => decide (d = c)) s.memory s.memory := by
    refine ⟨?_, ?_⟩
    · intro k d
      by_cases e : k = n ∧ d = c
      · simp [e.1, e.2, h]
      · have : (decide (k = n) && decide (d = c)) = false := by simpa using e
        simp [this]
    · intro d
      by_cases e : d = c <;> simp [e, h]
  simp only [System.leaveCluster]
  split
  · rename_i hn
    exact hout (member_of_not_has (by simpa using hn) c)
  · split
    · rename_i hc
      refine ⟨?_, ?_⟩
      · intro k d
        show Memory.member (s.memory.setScore n _) k d = _
        rw [member_setScore]
        by_cases hk : k = n
        · by_cases hd : d = c <;> simp [Dict.has, Dict.get?_erase, hk, hd, Memory.member]
        · simp [hk]
      · intro d
        have hm : s.memory.member n c = true := hc
        simp only [System.save, cluster_set, cluster_setScore]
        by_cases hd : d = c <;> simp [hd, hm]
    · rename_i hc
      exact hout (by simpa [Memory.member] using hc)

theorem queue_leaveCluster (s : System) (n c : String) (now : Rat) :
    (s.leaveCluster n c now).2.memory.evictionQueue = s.memory.evictionQueue := by
  simp only [System.leaveCluster]
  repeat' split
  all_goals rfl

theorem enters_addMember (s : System) (n c : String) (now : Rat) : Enters n c s.memory (s.addMember n c now).memory := by
  refine ⟨?_, ?_⟩
  · intro k d
    show Memory.member (s.memory.setScore n _) k d = _
    rw [member_setScore]
    by_cases hk : k = n
    · by_cases hd : d = c <;> simp [Dict.has, Dict.get?_set, hk, hd, Memory.member]
    · simp [hk]
  · intro d
    simp only [System.addMember, cluster_set, cluster_setScore]

/-- The loop of `_mark_eviction`. -/
def System.leaveAll (s : System) (n : String) (cs : List String) (now : Rat) : System :=
  cs.foldl (fun s c => (s.leaveCluster n c now).2) s

theorem queue_leaveAll (s : System) (n : String) (cs : List String) (now : Rat) :
    (s.leaveAll n cs now).memory.evictionQueue = s.memory.evictionQueue := by
  induction cs generalizing s with
  | nil => rfl
  | cons c cs ih => exact (ih _).trans (queue_leaveCluster s n c now)

theorem leaves_leaveAll (s : System) (n : String) (cs : List String) (now : Rat) :
    Leaves n (fun d => decide (d ∈ cs)) s.memory (s.leaveAll n cs now).memory := by
  induction cs generalizing s with
  | nil =>
    refine ⟨?_, ?_⟩
    · intro k d; simp [System.leaveAll]
    · intro d; simp [System.leaveAll]
  | cons c cs ih =>
    have h1 := leaves_leaveCluster s n c now
    have h2 := ih (s.leaveCluster n c now).2
    refine ⟨?_, ?_⟩
    · intro k d
      show Memory.member (System.leaveAll _ n cs now).memory k d = _
      rw [h2.member, h1.member]
      by_cases hk : k = n <;> by_cases hd : d = c <;> simp [hk, hd]
    · intro d
      show Memory.cluster (System.leaveAll _ n cs now).memory d = _
      rw [h2.cluster, h1.cluster, h1.member]
      by_cases hd : d = c
      · by_cases hm : s.memory.member n c = true <;> simp [hd, hm]
      · simp [hd]

/-- The system after `_mark_eviction` has set its two marks. -/
def System.marked (s : System) (n : String) : System :=
  let m := s.memory.setScore n { s.memory.scoreOf n with evictionPending := true }
  { s with memory := { m with evictionQueue := insert n m.evictionQueue } }

theorem markEviction_eq (s : System) (n : String) (now : Rat) :
    s.markEviction n now = if !s.memory.scores.has n then s
      else (s.marked n).leaveAll n ((s.marked n).memory.scoreOf n).clusterMemberships.keys now := rfl

/-- Evicting takes the node out of every cluster its memberships name. -/
theorem leaves_markEviction (s : System) {n : String} (hn : s.memory.scores.has n = true) (now : Rat) :
    Leaves n (fun _ => true) s.memory (s.markEviction n now).memory ∧
      (s.markEviction n now).memory.evictionQueue = insert n s.memory.evictionQueue := by
  have hmark (k d : String) : (s.marked n).memory.member k d = s.memory.member k d :=
    (same_setScore s.memory n (x := { s.memory.scoreOf n with evictionPending := true }) rfl).member k d
  have hkeys (d : String) : d ∈ ((s.marked n).memory.scoreOf n).clusterMemberships.keys ↔ s.memory.member n d = true := by
    rw [Dict.mem_keys, ← hmark]; rfl
  rw [markEviction_eq, if_neg (by simp [hn])]
  have h := leaves_leaveAll (s.marked n) n ((s.marked n).memory.scoreOf n).clusterMemberships.keys now
  refine ⟨⟨?_, ?_⟩, queue_leaveAll _ _ _ _⟩
  · intro k d
    rw [h.member, hmark]
    by_cases hk : k = n
    · subst hk
      by_cases hm : s.memory.member k d = true <;> simp [hkeys, hm]
    · simp [hk]
  · intro d
    rw [h.cluster, hmark]
    by_cases hm : s.memory.member n d = true
    · simp [hkeys, hm]; rfl
    · simp [hkeys, hm]; rfl

/-! ## Events and activity -/

/-- The system of `report_event` when it comes to the eviction. -/
def System.adjust (s : System) (n : String) (e : KarmaEvent) (severity : String) (now : Rat) : System :=
  let score := (s.memory.scoreOf n).adjusted e now
  let s := s.setScore n score
  if score.karma ≤ 0 then s.suspendNode n now
  else if score.consecutiveViolations ≥ 3 ∧ severity = "severe" then s.suspendNode n now
  else s

theorem adjusted_karma_nonneg (sc : KarmaScore) (e : KarmaEvent) (now : Rat) : 0 ≤ (sc.adjusted e now).karma :=
  le_max_left _ _

theorem same_adjust (s : System) (n : String) (e : KarmaEvent) (severity : String) (now : Rat) :
    SameClusters s.memory (s.adjust n e severity now).memory := by
  have h : SameClusters s.memory (s.setScore n ((s.memory.scoreOf n).adjusted e now)).memory := same_setScore _ _ rfl
  simp only [System.adjust]
  repeat' split
  all_goals first
    | exact h
    | exact h.trans (same_suspendNode _ _ _)

theorem has_setScore (m : Memory) (n : String) (sc : KarmaScore) : (m.setScore n sc).scores.has n = true := by
  simp [Memory.setScore, Dict.has]

theorem has_suspendNode {s : System} {n : String} (h : s.memory.scores.has n = true) (now : Rat) :
    (s.suspendNode n now).memory.scores.has n = true := by
  unfold System.suspendNode
  split
  · exact h
  · exact has_setScore _ _ _

theorem has_adjust (s : System) (n : String) (e : KarmaEvent) (severity : String) (now : Rat) :
    (s.adjust n e severity now).memory.scores.has n = true := by
  have h := has_setScore s.memory n ((s.memory.scoreOf n).adjusted e now)
  simp only [System.adjust]
  repeat' split
  all_goals first
    | exact h
    | exact has_suspendNode h now

/-- Karma is never below zero, so only a revocation violation evicts. -/
theorem reportEvent_memory (s : System) (n : String) (e : KarmaEvent) (reason severity : String) (now : Rat) :
    (s.reportEvent n e reason severity now).memory =
      (if e = .revocationViolation then (s.adjust n e severity now).markEviction n now
        else s.adjust n e severity now).memory.logEvent n
          ⟨n, e.value, (karmaAdjustments e).karma, (karmaAdjustments e).xp, now, reason, severity⟩ := by
  have hk : ¬((s.memory.scoreOf n).adjusted e now).karma ≤ -50 := by
    have := adjusted_karma_nonneg (s.memory.scoreOf n) e now
    omega
  simp only [System.reportEvent, hk, false_or]
  rfl

theorem same_reportEvent (s : System) (n : String) {e : KarmaEvent} (he : e ≠ .revocationViolation)
    (reason severity : String) (now : Rat) : SameClusters s.memory (s.reportEvent n e reason severity now).memory := by
  rw [reportEvent_memory, if_neg he]
  exact (same_adjust s n e severity now).trans (same_logEvent _ _ _)

theorem leaves_reportEvent (s : System) (n reason severity : String) (now : Rat) :
    Leaves n (fun _ => true) s.memory (s.reportEvent n .revocationViolation reason severity now).memory ∧
      (s.reportEvent n .revocationViolation reason severity now).memory.evictionQueue = insert n s.memory.evictionQueue := by
  have ha := same_adjust s n .revocationViolation severity now
  obtain ⟨hl, hq⟩ := leaves_markEviction _ (has_adjust s n .revocationViolation severity now) now
  rw [reportEvent_memory, if_pos rfl]
  exact ⟨ha.leaves hl (same_logEvent _ _ _), hq.trans (by rw [ha.queue])⟩

/-- The first half of `register_cluster_activity`: the node is in the cluster. -/
def System.enter (s : System) (n c : String) (now : Rat) : System :=
  let s := { s with memory := s.memory.getScore n }
  if (s.memory.scoreOf n).clusterMemberships.has c then s else s.addMember n c now

theorem registerClusterActivity_eq (s : System) (n c : String) (done : Bool) (now : Rat) :
    ∃ s' : System, (if done then ∃ reason, s' = ((s.enter n c now).touchMembership n c done now).reportEvent n
        .computeCycleCompleted reason "minor" now
      else s' = (s.enter n c now).touchMembership n c done now) ∧
      s.registerClusterActivity n c done now = s'.setScore n { s'.memory.scoreOf n with lastActivityTime := now } := by
  cases done with
  | false => exact ⟨_, rfl, rfl⟩
  | true => exact ⟨_, ⟨_, rfl⟩, rfl⟩

theorem load_enter (s : System) (n c : String) (now : Rat) : (s.enter n c now).load.memory = s.load.memory := by
  simp only [System.enter]
  split <;> rfl

theorem queue_enter (s : System) (n c : String) (now : Rat) : (s.enter n c now).memory.evictionQueue = s.memory.evictionQueue := by
  have hg : (s.memory.getScore n).evictionQueue = s.memory.evictionQueue := (reads_getScore s.memory n : Reads now _ _).queue
  simp only [System.enter]
  split <;> exact hg

/-- The second half of `register_cluster_activity` changes no cluster, and saves what it leaves or nothing. -/
theorem registerClusterActivity_enter (s : System) (n c : String) (done : Bool) (now : Rat) :
    SameClusters (s.enter n c now).memory (s.registerClusterActivity n c done now).memory ∧
      ((s.registerClusterActivity n c done now).load.memory = s.load.memory ∨
        SameClusters (s.registerClusterActivity n c done now).memory (s.registerClusterActivity n c done now).load.memory) := by
  have ht := same_touchMembership (s.enter n c now) n c done now
  obtain ⟨s', hs', he⟩ := registerClusterActivity_eq s n c done now
  have hl : SameClusters s'.memory (s'.setScore n { s'.memory.scoreOf n with lastActivityTime := now }).memory :=
    same_setScore _ n rfl
  rw [he]
  cases done with
  | false =>
    obtain rfl := hs'
    exact ⟨ht.trans hl, .inl (load_enter s n c now)⟩
  | true =>
    obtain ⟨reason, rfl⟩ := hs'
    have hr := same_reportEvent ((s.enter n c now).touchMembership n c true now) n (e := .computeCycleCompleted)
      (by decide) reason "minor" now
    exact ⟨ht.trans (hr.trans hl), .inr hl.symm⟩

/-- Activity in the node's own cluster changes no cluster; in another it enters the node there, full or not. -/
theorem registerClusterActivity_moves (s : System) (n c : String) (done : Bool) (now : Rat) :
    (s.memory.member n c = true ∧ SameClusters s.memory (s.registerClusterActivity n c done now).memory) ∨
      (s.memory.member n c = false ∧ Enters n c s.memory (s.registerClusterActivity n c done now).memory ∧
        (s.registerClusterActivity n c done now).memory.evictionQueue = s.memory.evictionQueue) := by
  have hg := (reads_getScore s.memory n : Reads now _ _).same
  have hs := (registerClusterActivity_enter s n c done now).1
  have hm : s.memory.member n c = (((s.memory.getScore n).scoreOf n).clusterMemberships.has c) := (hg.member n c).symm
  rw [hm]
  simp only [System.enter] at hs
  split at hs
  · rename_i h
    exact .inl ⟨h, hg.trans hs⟩
  · rename_i h
    refine .inr ⟨by simpa using h, hg.enters (enters_addMember { s with memory := s.memory.getScore n } n c now) hs, ?_⟩
    exact hs.queue.trans hg.queue

/-! ## What a call does -/

/-- The calls that move a node, each with the guard the code puts before it. -/
inductive Moves (m : Memory) : Op → Memory → Prop where
  | same {op : Op} {m' : Memory} (h : SameClusters m m') : Moves m op m'
  | evicted {n reason severity : String} {now : Rat} {m' : Memory} (h : Leaves n (fun _ => true) m m')
      (hq : m'.evictionQueue = insert n m.evictionQueue) : Moves m (.reportEvent n .revocationViolation reason severity now) m'
  | left {n c : String} {now : Rat} {m' : Memory} (h : Leaves n (fun d => decide (d = c)) m m')
      (hq : m'.evictionQueue = m.evictionQueue) : Moves m (.leaveCluster n c now) m'
  | joined {n c : String} {now : Rat} {m' : Memory} (h : Enters n c m m') (hq : m'.evictionQueue = m.evictionQueue)
      (hn : n ∉ m.evictionQueue) (hc : (m.cluster c).card < clusterSize) : Moves m (.joinCluster n c now) m'
  | registered {n c : String} {done : Bool} {now : Rat} {m' : Memory} (h : Enters n c m m')
      (hq : m'.evictionQueue = m.evictionQueue) (hm : m.member n c = false) : Moves m (.registerClusterActivity n c done now) m'

/-- A call that is no restart moves as `Moves` says. It leaves a file with the clusters of the memory, or the file as
    it was, and then it has evicted no one. -/
theorem step_moves (s : System) {op : Op} (hop : op ≠ .restart) :
    Moves s.memory op (step s op).2.memory ∧
      ((step s op).2.load.memory = s.load.memory ∧ (step s op).2.memory.evictionQueue = s.memory.evictionQueue ∨
        SameClusters (step s op).2.memory (step s op).2.load.memory) := by
  -- what a call leaves in the file is what was there, or the memory it returns
  have hfile {s' : System} (hq : s'.memory.evictionQueue = s.memory.evictionQueue)
      (hf : s'.load.memory = s.load.memory ∨ s'.load.memory = s'.memory) :
      s'.load.memory = s.load.memory ∧ s'.memory.evictionQueue = s.memory.evictionQueue ∨ SameClusters s'.memory s'.load.memory := by
    rcases hf with hf | hf
    · exact .inl ⟨hf, hq⟩
    · rw [hf]
      exact .inr (.refl _)
  by_cases hquery : op.isQuery = true
  · obtain ⟨hr, hf⟩ := query_reads s hquery 0
    exact ⟨.same hr.same, hfile hr.queue (.inl (by rw [System.load, hf]; rfl))⟩
  cases op with
  | reportEvent n e reason severity now =>
    refine ⟨?_, .inr (.refl _)⟩
    by_cases he : e = .revocationViolation
    · subst he
      obtain ⟨hl, hq⟩ := leaves_reportEvent s n reason severity now
      exact .evicted hl hq
    · exact .same (same_reportEvent s n he reason severity now)
  | applyInactivityDecay n now =>
    have hs := same_applyInactivityDecay s n now
    refine ⟨.same hs, hfile hs.queue ?_⟩
    simp only [step, System.applyInactivityDecay]
    repeat' split
    all_goals first
      | exact .inl rfl
      | exact .inr rfl
  | registerClusterActivity n c done now =>
    obtain ⟨-, hf⟩ := registerClusterActivity_enter s n c done now
    rcases registerClusterActivity_moves s n c done now with ⟨_, h⟩ | ⟨hm, h, hq⟩
    · exact ⟨.same h, hf.imp_left fun hf => ⟨hf, h.queue⟩⟩
    · exact ⟨.registered h hq hm, hf.imp_left fun hf => ⟨hf, hq⟩⟩
  | joinCluster n c now =>
    rcases joinCluster_cases s n c now with ⟨hr, hf⟩ | ⟨s', hr, hn, hc, _, he⟩
    · exact ⟨.same hr.same, .inl ⟨by simp only [step, System.load, hf], hr.queue⟩⟩
    · have hs : (step s (.joinCluster n c now)).2 = (s'.addMember n c now).save now := he
      rw [hs]
      exact ⟨.joined (hr.same.enters (enters_addMember s' n c now) (.refl _)) hr.queue hn hc, .inr (.refl _)⟩
  | leaveCluster n c now =>
    have hq := queue_leaveCluster s n c now
    refine ⟨.left (leaves_leaveCluster s n c now) hq, hfile hq ?_⟩
    simp only [step, System.leaveCluster]
    repeat' split
    all_goals first
      | exact .inl rfl
      | exact .inr rfl
  | restart => exact absurd rfl hop
  | _ => exact absurd rfl hquery

theorem reached_snoc (ops : List Op) (op : Op) : reached (ops ++ [op]) = (step (reached ops) op).2 :=
  Trace.final_concat _ ops op

/-- What holds of the empty memory and is kept by every change of the clusters that `allowed` calls make holds
    along every run of allowed calls, in the memory and in the file. -/
theorem clusters_reached {P : Memory → Prop} {A : System → Op → Prop} (hstart : P {})
    (hsame : ∀ m m', SameClusters m m' → P m → P m')
    (hmove : ∀ s op m', A s op → Moves s.memory op m' → P s.memory → P m') {ops : List Op}
    (h : ∀ a op b, ops = a ++ op :: b → A (reached a) op) :
    P (reached ops).memory ∧ P (reached ops).load.memory := by
  induction ops using List.reverseRecOn with
  | nil => exact ⟨hstart, hstart⟩
  | append_singleton ops op ih =>
    obtain ⟨hm, hf⟩ := ih fun a o b e => h a o (b ++ [op]) (by simp [e])
    rw [reached_snoc]
    by_cases hop : op = .restart
    · subst hop
      exact ⟨hf, hf⟩
    · obtain ⟨hmv, hl⟩ := step_moves (reached ops) hop
      have hm' := hmove _ op _ (h ops op [] rfl) hmv hm
      refine ⟨hm', ?_⟩
      rcases hl with ⟨hl, _⟩ | hl
      · rwa [hl]
      · exact hsame _ _ hl hm'

end PyxelVM.Karma
