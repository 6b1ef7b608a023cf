/-
  PyxelVM.Karma.Election — who is elected master of a cluster.

  An election asks the members in the order of the set, which of them are of level MASTER,
  not suspended, not to be evicted and have karma (`KarmaScore.candidate`), sorts them by
  mass and takes the first. `can_participate` looks for evicted nodes in the queue, an
  election at the mark in the score. In every reachable state the two agree
  (`marked_reached`).

  - `elects_heaviest`: a node is elected if any member is of level MASTER and may
    participate, and it is a heaviest of those.
  - `election_agrees_iff`: whatever the order, and however masses are computed and rounded,
    no node is elected or a heaviest candidate; always the same one exactly if there are
    no two.
  - `twins_elect_each`: of two heaviest, each process elects the one it comes to first.
-/

import PyxelVM.Karma.Suspension
import PyxelVM.Lib.Ranking

namespace PyxelVM.Karma

open PyxelVM.Lib

variable {m m' : Memory} {n c : String} {now : Rat}

/-! ## The eviction mark -/

def Memory.pending (m : Memory) (nodeId : String) : Bool := (m.scoreOf nodeId).evictionPending

/-- Marked are exactly the nodes of the eviction queue. -/
def Marked (m : Memory) : Prop := ∀ nodeId, m.pending nodeId = true ↔ nodeId ∈ m.evictionQueue

/-- The marks and the queue are as before. -/
structure SameMarks (m m' : Memory) : Prop where
  pending : ∀ n, m'.pending n = m.pending n
  queue : m'.evictionQueue = m.evictionQueue

theorem SameMarks.refl (m : Memory) : SameMarks m m := ⟨fun _ => rfl, rfl⟩

theorem SameMarks.trans {a b d : Memory} (h : SameMarks a b) (k : SameMarks b d) : SameMarks a d :=
  ⟨fun n => (k.pending n).trans (h.pending n), k.queue.trans h.queue⟩

theorem SameMarks.marked (h : SameMarks m m') (hm : Marked m) : Marked m' := by
  intro n
  rw [h.pending, h.queue]
  exact hm n

theorem blind_pending : Blind KarmaScore.evictionPending := fun _ _ => rfl

theorem Kept.marks (h : Kept KarmaScore.evictionPending m m') (hq : m'.evictionQueue = m.evictionQueue) : SameMarks m m' :=
  ⟨h.score, hq⟩

theorem Reads.marks (h : Reads now m m') : SameMarks m m' := by
  refine (h.kept fun sc => ?_).marks h.queue
  obtain ⟨_, _, e⟩ := isSuspended_score sc now
  rw [e]

theorem marks_addMember (s : System) (n c : String) (now : Rat) : SameMarks s.memory (s.addMember n c now).memory :=
  (kept_addMember blind_pending s n c now).marks rfl

theorem marks_adjust (s : System) (n : String) (e : KarmaEvent) (severity : String) (now : Rat) :
    SameMarks s.memory (s.adjust n e severity now).memory := by
  have hset : Kept KarmaScore.evictionPending s.memory (s.setScore n ((s.memory.scoreOf n).adjusted e now)).memory :=
    kept_setScore s.memory n rfl
  refine Kept.marks ?_ (same_adjust s n e severity now).queue
  simp only [System.adjust]
  repeat' split
  all_goals first
    | exact hset.trans (kept_suspendNode (fun _ => rfl) _ n)
    | exact hset

theorem marks_applyInactivityDecay (s : System) (n : String) (now : Rat) :
    SameMarks s.memory (s.applyInactivityDecay n now).2.memory := by
  refine ⟨?_, (same_applyInactivityDecay s n now).queue⟩
  simp only [System.applyInactivityDecay]
  cases hsc : s.memory.scores.get? n with
  | none => exact fun _ => rfl
  | some score =>
    have hset (xp : Int) : Kept KarmaScore.evictionPending s.memory
        (s.memory.setScore n { score with totalExperience := xp, level := computeLevel xp }) :=
      kept_setScore s.memory n (by rw [scoreOf_of_get? hsc])
    simp only
    split
    · exact fun _ => rfl
    · split <;> exact (hset _).score

/-! ## Marked memories -/

/-- `_mark_eviction` marks the score and enters the queue. -/
theorem marked_markEviction {s : System} (hn : s.memory.scores.has n = true) (h : Marked s.memory) (now : Rat) :
    Marked (s.markEviction n now).memory := by
  have hmarked : Marked (s.marked n).memory := by
    intro k
    have hp : (s.marked n).memory.pending k = if k = n then true else s.memory.pending k := by
      show (Memory.scoreOf (s.memory.setScore n _) k).evictionPending = _
      rw [scoreOf_setScore]
      split <;> rfl
    have hq : k ∈ (s.marked n).memory.evictionQueue ↔ k = n ∨ k ∈ s.memory.evictionQueue := Finset.mem_insert
    rw [hp, hq, ← h k]
    split
    · rename_i e
      simp [e]
    · rename_i e
      simp [e]
  rw [markEviction_eq, hn]
  exact ((kept_leaveAll blind_pending _ _ _ _).marks (queue_leaveAll _ _ _ _)).marked hmarked

theorem marked_reportEvent {s : System} (h : Marked s.memory) (n : String) (e : KarmaEvent) (reason severity : String)
    (now : Rat) : Marked (s.reportEvent n e reason severity now).memory := by
  have hadjust := (marks_adjust s n e severity now).marked h
  rw [reportEvent_memory]
  show Marked (if e = .revocationViolation then _ else _ : System).memory
  split
  · exact marked_markEviction (has_adjust s n e severity now) hadjust now
  · exact hadjust

theorem marked_registerClusterActivity {s : System} (h : Marked s.memory) (n c : String) (done : Bool) (now : Rat) :
    Marked (s.registerClusterActivity n c done now).memory := by
  have hkept : Kept KarmaScore.evictionPending s.memory ((s.enter n c now).touchMembership n c done now).memory :=
    (kept_enter blind_pending s n c now).trans (kept_touchMembership blind_pending (s.enter n c now) n c done now)
  have ht : SameMarks s.memory ((s.enter n c now).touchMembership n c done now).memory := hkept.marks (queue_enter s n c now)
  obtain ⟨s', hs', he⟩ := registerClusterActivity_eq s n c done now
  rw [he]
  have hlast : Kept KarmaScore.evictionPending s'.memory
      (s'.setScore n { s'.memory.scoreOf n with lastActivityTime := now }).memory := kept_setScore s'.memory n rfl
  refine (hlast.marks rfl).marked ?_
  cases done with
  | false =>
    obtain rfl := hs'
    exact ht.marked h
  | true =>
    obtain ⟨reason, rfl⟩ := hs'
    exact marked_reportEvent (ht.marked h) n _ reason "minor" now

theorem marked_step {s : System} (h : Marked s.memory) {op : Op} (hop : op ≠ .restart) : Marked (step s op).2.memory := by
  by_cases hquery : op.isQuery = true
  · exact (query_reads s hquery 0).1.marks.marked h
  cases op with
  | reportEvent n e reason severity now => exact marked_reportEvent h n e reason severity now
  | applyInactivityDecay n now => exact (marks_applyInactivityDecay s n now).marked h
  | registerClusterActivity n c done now => exact marked_registerClusterActivity h n c done now
  | joinCluster n c now =>
    rcases joinCluster_cases s n c now with ⟨hr, -⟩ | ⟨s', hr, -, -, -, he⟩
    · exact hr.marks.marked h
    · have hs : (step s (.joinCluster n c now)).2 = (s'.addMember n c now).save now := he
      rw [hs]
      exact (hr.marks.trans (marks_addMember s' n c now)).marked h
  | leaveCluster n c now =>
    exact ((kept_leaveCluster blind_pending s n c now).marks (queue_leaveCluster s n c now)).marked h
  | restart => exact absurd rfl hop
  | _ => exact absurd rfl hquery

/-- In every reachable state, and after a restart of it, exactly the nodes of the queue are marked. -/
theorem marked_reached (ops : List Op) : Marked (reached ops).memory ∧ Marked (reached ops).load.memory := by
  induction ops using List.reverseRecOn with
  | nil =>
    have h : Marked ({} : Memory) := fun n => by simp [Memory.pending, Memory.scoreOf, Dict.getD]
    exact ⟨h, h⟩
  | append_singleton ops op ih =>
    obtain ⟨hm, hf⟩ := ih
    have hqueue := queue_load (ops ++ [op])
    rw [reached_snoc] at hqueue ⊢
    by_cases hop : op = .restart
    · subst hop
      exact ⟨hf, hf⟩
    · have hstep := marked_step hm hop
      refine ⟨hstep, ?_⟩
      have hfile : SameReports (fun _ => ()) 0 _ _ ∨ _ := step_file (balanced_reached ops).1 op
      rcases hfile with hs | hl
      · intro n
        have hpending : (step (reached ops) op).2.load.memory.pending n = (step (reached ops) op).2.memory.pending n :=
          (congrArg Report.evictionPending (hs.report n)).symm
        rw [hpending, hqueue]
        exact hstep n
      · rw [hl]
        exact hf

/-! ## The candidates -/

variable {κ : Type} {mass : KarmaScore → κ}

/-- What an election makes of a member, by its score. -/
def KarmaScore.candidate (mass : KarmaScore → κ) (sc : KarmaScore) (nodeId : String) (now : Rat) : Option (Candidate κ) :=
  if sc.level = .master ∧ (sc.isSuspended now).1 = false ∧ sc.evictionPending = false ∧ 0 < sc.karma then
    some ⟨nodeId, mass (sc.isSuspended now).2, sc.level, sc.karma⟩
  else none

def Memory.candidate (m : Memory) (mass : KarmaScore → κ) (now : Rat) (nodeId : String) : Option (Candidate κ) :=
  (m.scoreOf nodeId).candidate mass nodeId now

/-- Asking first makes no difference. -/
theorem candidate_asked (mass : KarmaScore → κ) (sc : KarmaScore) (n : String) (now : Rat) :
    (sc.isSuspended now).2.candidate mass n now = sc.candidate mass n now := by
  unfold KarmaScore.candidate
  rw [isSuspended_later sc (le_refl now), isSuspended_idem]
  obtain ⟨_, _, e⟩ := isSuspended_score sc now
  rw [e]

theorem candidateStep_fst (acc : List (Candidate κ) × Memory) (n : String) :
    (candidateStep mass now acc n).1 = acc.1 ++ ((acc.2.scoreOf n).candidate mass n now).toList := by
  obtain ⟨_, _, e⟩ := isSuspended_score (acc.2.scoreOf n) now
  simp only [candidateStep, scoreOf_getScore, KarmaScore.candidate]
  by_cases hl : (acc.2.scoreOf n).level = .master
  · cases hs : ((acc.2.scoreOf n).isSuspended now).1 with
    | true => simp [hl]
    | false =>
      cases hp : (acc.2.scoreOf n).evictionPending with
      | true => simp [hl, e, hp]
      | false =>
        by_cases hk : (acc.2.scoreOf n).karma ≤ 0
        · simp [hl, e, hp, hk]
        · simp [hl, e, hp, hk, not_le.mp hk]
  · simp [hl]

theorem candidates_foldl (m : Memory) (ns : List String) {acc : List (Candidate κ) × Memory} (h : Reads now m acc.2) :
    (ns.foldl (candidateStep mass now) acc).1 = acc.1 ++ ns.filterMap (m.candidate mass now) := by
  induction ns generalizing acc with
  | nil => exact (List.append_nil _).symm
  | cons n ns ih =>
    have hn : (acc.2.scoreOf n).candidate mass n now = m.candidate mass now n :=
      h.of_score (fun sc => sc.candidate mass n now) (fun sc => candidate_asked mass sc n now) n
    rw [List.foldl_cons, ih (h.trans (reads_candidateStep mass acc n)), candidateStep_fst, hn, List.append_assoc]
    cases hc : m.candidate mass now n with
    | none => rw [List.filterMap_cons_none hc]; rfl
    | some cd => rw [List.filterMap_cons_some hc]; rfl

/-- The candidates of the cluster, in the order of the set. -/
def Memory.candidates (m : Memory) (mass : KarmaScore → κ) (ord : SetOrder) (clusterId : String) (now : Rat) :
    List (Candidate κ) := (ord.list (m.cluster clusterId)).filterMap (m.candidate mass now)

theorem mem_candidates_iff {ord : SetOrder} {cd : Candidate κ} :
    cd ∈ m.candidates mass ord c now ↔ ∃ n ∈ m.cluster c, m.candidate mass now n = some cd := by
  unfold Memory.candidates
  rw [List.mem_filterMap]
  exact exists_congr fun n => and_congr_left fun _ => ord.mem _ n

theorem candidate_nodeId {cd : Candidate κ} (h : m.candidate mass now n = some cd) : cd.nodeId = n := by
  unfold Memory.candidate KarmaScore.candidate at h
  split at h
  · rw [← Option.some.inj h]
  · cases h

variable [LinearOrder κ]

theorem electMasterNodeBy_fst (m : Memory) (mass : KarmaScore → κ) (ord : SetOrder) (c : String) (now : Rat) :
    (m.electMasterNodeBy mass ord c now).1 =
      (Ranking.ranked Candidate.mass (m.candidates mass ord c now)).head?.map Candidate.nodeId := by
  have heligible : (m.eligible mass ord c now).1 = m.candidates mass ord c now :=
    (candidates_foldl m _ (Reads.refl m)).trans (List.nil_append _)
  have htake : sliceTo (Ranking.ranked Candidate.mass (m.candidates mass ord c now)) 100 =
      (Ranking.ranked Candidate.mass (m.candidates mass ord c now)).take 100 := rfl
  show ((sliceTo (Ranking.ranked Candidate.mass (m.eligible mass ord c now).1) 100).head?).map Candidate.nodeId = _
  rw [heligible, htake, List.head?_take, if_neg (by decide)]

/-- The node is a candidate of the cluster, and none weighs more. -/
structure Heaviest (m : Memory) (mass : KarmaScore → κ) (clusterId : String) (now : Rat) (nodeId : String) : Prop where
  member : nodeId ∈ m.cluster clusterId
  candidate : ∃ cd, m.candidate mass now nodeId = some cd ∧
    ∀ k ∈ m.cluster clusterId, ∀ d, m.candidate mass now k = some d → d.mass ≤ cd.mass

theorem elected_none_iff (m : Memory) (mass : KarmaScore → κ) (ord : SetOrder) (c : String) (now : Rat) :
    (m.electMasterNodeBy mass ord c now).1 = none ↔ ∀ n ∈ m.cluster c, m.candidate mass now n = none := by
  rw [electMasterNodeBy_fst, Option.map_eq_none_iff, Ranking.first_none_iff, Memory.candidates, List.filterMap_eq_nil_iff]
  exact forall_congr' fun n => imp_congr_left (ord.mem _ n)

theorem elected_heaviest {ord : SetOrder} (h : (m.electMasterNodeBy mass ord c now).1 = some n) : Heaviest m mass c now n := by
  rw [electMasterNodeBy_fst, Option.map_eq_some_iff] at h
  obtain ⟨cd, hfirst, rfl⟩ := h
  have hbest := Ranking.first_heaviest hfirst
  obtain ⟨k, hk, hcd⟩ := mem_candidates_iff.mp hbest.mem
  rw [candidate_nodeId hcd]
  exact ⟨hk, cd, hcd, fun l hl d hd => hbest.le d (mem_candidates_iff.mpr ⟨l, hl, hd⟩)⟩

/-! ## Masters that may participate -/

/-- The node is a member of level MASTER that passes `can_participate`. -/
structure Eligible (m : Memory) (clusterId : String) (now : Rat) (nodeId : String) : Prop where
  member : nodeId ∈ m.cluster clusterId
  master : (m.scoreOf nodeId).level = .master
  participates : (m.canParticipate nodeId now).1.1 = true

/-- The mass of a node once `can_participate` has been asked of it. -/
def Memory.weight (m : Memory) (nodeId : String) (now : Rat) : Rat := ((m.canParticipate nodeId now).2.scoreOf nodeId).mass

theorem scoreOf_canParticipate (hq : n ∉ m.evictionQueue) :
    (m.canParticipate n now).2.scoreOf n = ((m.scoreOf n).isSuspended now).2 := by
  have hq' : n ∉ (m.getScore n).evictionQueue := by rwa [(reads_getScore m n : Reads now _ _).queue]
  simp only [Memory.canParticipate, if_neg hq']
  repeat' split
  all_goals simp only [scoreOf_setScore, if_true, scoreOf_getScore]

/-- Where the marks are those of the queue, the candidates are the eligible members, with their mass. -/
theorem candidate_eq_some_iff (hm : Marked m) {cd : Candidate Rat} :
    n ∈ m.cluster c ∧ m.candidate KarmaScore.mass now n = some cd ↔
      Eligible m c now n ∧ cd = ⟨n, m.weight n now, .master, (m.scoreOf n).karma⟩ := by
  have hmark : n ∉ m.evictionQueue ↔ (m.scoreOf n).evictionPending = false := by
    rw [← hm n, Bool.not_eq_true]
    rfl
  constructor
  · rintro ⟨hmember, hcd⟩
    unfold Memory.candidate KarmaScore.candidate at hcd
    split at hcd
    · rename_i h
      obtain ⟨hmaster, hfree, hpending, hkarma⟩ := h
      have hq := hmark.mpr hpending
      refine ⟨⟨hmember, hmaster, (canParticipate_iff m n now).mpr ⟨hq, hfree, hkarma⟩⟩, ?_⟩
      rw [← Option.some.inj hcd, Memory.weight, scoreOf_canParticipate hq, hmaster]
    · cases hcd
  · rintro ⟨⟨hmember, hmaster, hcan⟩, rfl⟩
    obtain ⟨hq, hfree, hkarma⟩ := (canParticipate_iff m n now).mp hcan
    refine ⟨hmember, ?_⟩
    rw [Memory.candidate, KarmaScore.candidate, if_pos ⟨hmaster, hfree, hmark.mp hq, hkarma⟩, Memory.weight,
      scoreOf_canParticipate hq, hmaster]

/-- In every reachable state, nobody is elected exactly if no member is of level MASTER and may participate; and who is
    elected is such a member, of at least the mass of every other. -/
theorem elects_heaviest (ops : List Op) (ord : SetOrder) (c : String) (now : Rat) :
    let m := (reached ops).memory
    ((m.electMasterNode ord c now).1 = none ↔ ∀ n, ¬Eligible m c now n) ∧
      ∀ n, (m.electMasterNode ord c now).1 = some n →
        Eligible m c now n ∧ ∀ k, Eligible m c now k → m.weight k now ≤ m.weight n now := by
  intro m
  have hm := (marked_reached ops).1
  refine ⟨?_, ?_⟩
  · rw [Memory.electMasterNode, elected_none_iff]
    constructor
    · intro h n he
      obtain ⟨hmember, hcd⟩ := (candidate_eq_some_iff hm).mpr ⟨he, rfl⟩
      rw [h n hmember] at hcd
      cases hcd
    · intro h n hmember
      cases hcd : m.candidate KarmaScore.mass now n with
      | none => rfl
      | some cd => exact absurd ((candidate_eq_some_iff hm).mp ⟨hmember, hcd⟩).1 (h n)
  · intro n h
    obtain ⟨hmember, cd, hcd, hle⟩ := elected_heaviest h
    obtain ⟨he, hmass⟩ := (candidate_eq_some_iff hm).mp ⟨hmember, hcd⟩
    refine ⟨he, ?_⟩
    intro k hk
    obtain ⟨hk, hd⟩ := (candidate_eq_some_iff hm).mpr ⟨hk, rfl⟩
    have := hle k hk _ hd
    rwa [hmass] at this

/-! ## Orders of the set -/

/-- An order that begins with the node, where the set has it. -/
noncomputable def SetOrder.front (nodeId : String) : SetOrder where
  list s := if nodeId ∈ s then nodeId :: (s.erase nodeId).toList else s.toList
  nodup s := by
    split
    · exact List.nodup_cons.mpr ⟨by simp, Finset.nodup_toList _⟩
    · exact Finset.nodup_toList _
  mem s n := by
    split
    · rename_i h
      by_cases e : n = nodeId
      · simp [e, h]
      · simp [e]
    · exact Finset.mem_toList

/-- Of the heaviest, the first in the order is elected. -/
theorem elected_front (h : Heaviest m mass c now n) : (m.electMasterNodeBy mass (.front n) c now).1 = some n := by
  obtain ⟨hmember, cd, hcd, hle⟩ := h
  have hlist : m.candidates mass (.front n) c now =
      cd :: ((m.cluster c).erase n).toList.filterMap (m.candidate mass now) := by
    have hfront : (SetOrder.front n).list (m.cluster c) = n :: ((m.cluster c).erase n).toList := if_pos hmember
    rw [Memory.candidates, hfront, List.filterMap_cons_some hcd]
  rw [electMasterNodeBy_fst, hlist, Ranking.first_cons, Option.map_some, candidate_nodeId hcd]
  intro d hd
  obtain ⟨k, hk, hkd⟩ := List.mem_filterMap.mp hd
  exact hle k (Finset.mem_of_mem_erase (Finset.mem_toList.mp hk)) d hkd

/-- Of two systems with the same scores and rosters, whatever the orders of their sets, and by masses of any kind that is
    ordered, so also by rounded ones: none elects anybody, or each elects a heaviest candidate; and they always elect the
    same node exactly if no two candidates are heaviest. -/
theorem election_agrees_iff (mass : KarmaScore → κ) (m m' : Memory) (hscores : m'.scores = m.scores)
    (hclusters : ∀ c, m'.cluster c = m.cluster c) (c : String) (now : Rat) :
    (∀ ord ord', ((m.electMasterNodeBy mass ord c now).1 = none ∧ (m'.electMasterNodeBy mass ord' c now).1 = none) ∨
      ∃ a b, (m.electMasterNodeBy mass ord c now).1 = some a ∧ (m'.electMasterNodeBy mass ord' c now).1 = some b ∧
        Heaviest m mass c now a ∧ Heaviest m mass c now b) ∧
    ((∀ ord ord', (m.electMasterNodeBy mass ord c now).1 = (m'.electMasterNodeBy mass ord' c now).1) ↔
      ∀ a b, Heaviest m mass c now a → Heaviest m mass c now b → a = b) := by
  have hcandidate : m'.candidate mass now = m.candidate mass now := by
    funext n
    simp only [Memory.candidate, Memory.scoreOf, hscores]
  have helect (ord : SetOrder) : (m'.electMasterNodeBy mass ord c now).1 = (m.electMasterNodeBy mass ord c now).1 := by
    simp only [electMasterNodeBy_fst, Memory.candidates, hcandidate, hclusters]
  have hcases (ord ord' : SetOrder) :
      ((m.electMasterNodeBy mass ord c now).1 = none ∧ (m'.electMasterNodeBy mass ord' c now).1 = none) ∨
      ∃ a b, (m.electMasterNodeBy mass ord c now).1 = some a ∧ (m'.electMasterNodeBy mass ord' c now).1 = some b ∧
        Heaviest m mass c now a ∧ Heaviest m mass c now b := by
    rw [helect]
    cases ha : (m.electMasterNodeBy mass ord c now).1 with
    | none => exact .inl ⟨rfl, (elected_none_iff m mass ord' c now).mpr ((elected_none_iff m mass ord c now).mp ha)⟩
    | some a =>
      cases hb : (m.electMasterNodeBy mass ord' c now).1 with
      | none =>
        rw [(elected_none_iff m mass ord c now).mpr ((elected_none_iff m mass ord' c now).mp hb)] at ha
        cases ha
      | some b => exact .inr ⟨a, b, rfl, rfl, elected_heaviest ha, elected_heaviest hb⟩
  refine ⟨hcases, ?_, ?_⟩
  · intro h a b ha hb
    have hab := h (.front a) (.front b)
    rw [helect, elected_front ha, elected_front hb] at hab
    exact Option.some.inj hab
  · intro h ord ord'
    rcases hcases ord ord' with ⟨ha, hb⟩ | ⟨a, b, ha, hb, hha, hhb⟩
    · rw [ha, hb]
    · rw [ha, hb, h a b hha hhb]

/-- A node that has just become a master. -/
def novice (nodeId : String) : KarmaScore := { nodeId := nodeId, totalExperience := 100000, level := .master }

/-- Two of them in one cluster. -/
def twins : Memory where
  scores := (Dict.empty.set "a" (novice "a")).set "b" (novice "b")
  clusters := Dict.empty.set "cluster" {"a", "b"}

theorem heaviest_twins (h : n ∈ twins.cluster "cluster") : Heaviest twins KarmaScore.mass "cluster" 0 n := by
  have hcluster : twins.cluster "cluster" = {"a", "b"} := by decide
  have hcandidate {k : String} (hk : k ∈ twins.cluster "cluster") :
      twins.candidate KarmaScore.mass 0 k = some ⟨k, (novice "a").mass, .master, 50⟩ := by
    rw [hcluster, Finset.mem_insert, Finset.mem_singleton] at hk
    rcases hk with rfl | rfl <;> rfl
  refine ⟨h, _, hcandidate h, ?_⟩
  intro k hk d hd
  rw [hcandidate hk] at hd
  rw [← Option.some.inj hd]

theorem election_agrees_twins :
    let elected (ord : SetOrder) := (twins.electMasterNodeBy KarmaScore.mass ord "cluster" 0).1
    let heaviest := Heaviest twins KarmaScore.mass "cluster" 0
    (∀ ord ord', (elected ord = none ∧ elected ord' = none) ∨
      ∃ a b, elected ord = some a ∧ elected ord' = some b ∧ heaviest a ∧ heaviest b) ∧
    ((∀ ord ord', elected ord = elected ord') ↔ ∀ a b, heaviest a → heaviest b → a = b) :=
  election_agrees_iff KarmaScore.mass twins twins rfl (fun _ => rfl) "cluster" 0

/-- The process that comes to one of them first elects that one. -/
theorem twins_elect_each : ¬∀ m m' : Memory, m'.scores = m.scores → m'.suspensionQueue = m.suspensionQueue →
    m'.evictionQueue = m.evictionQueue → (∀ c, m'.cluster c = m.cluster c) → ∀ ord ord' c now,
      (m.electMasterNode ord c now).1 = (m'.electMasterNode ord' c now).1 := by
  intro h
  have hab := h twins twins rfl rfl rfl (fun _ => rfl) (.front "a") (.front "b") "cluster" 0
  rw [Memory.electMasterNode, Memory.electMasterNode, elected_front (heaviest_twins (by decide)),
    elected_front (heaviest_twins (by decide))] at hab
  exact absurd hab (by decide)

end PyxelVM.Karma
