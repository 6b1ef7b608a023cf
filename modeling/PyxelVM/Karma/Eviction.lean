/-
  PyxelVM.Karma.Eviction — what an evicted node can still be in.

  `Out s n`: node `n` is in no cluster, in its own memberships or in a roster; it can
  not participate; and it is no candidate and elected nowhere, whatever the time and
  the order of the sets. `EvictionHolds ops`: along the run, a node that has entered
  the eviction queue is out in every later state.

  - `evicted_node_rejoins`: it fails. `register_cluster_activity` enters a node in a
    cluster without asking whether it may participate, as `join_cluster` does.
  - `eviction_holds_iff`: it holds of exactly the runs in which no call of
    `register_cluster_activity` names a node of the eviction queue.

  `Sound` is kept by every change of the clusters (`Moves`) but entering an evicted
  node: evicting removes the node from every cluster its memberships name, and no roster
  has it elsewhere. `Inv` adds that the saved file is sound and has every evicted node,
  so that a restart forgets none.

  - `threshold_unreached`: no karma evicts. Karma is clamped at zero before it is compared
    with the threshold of -50.
  - `threshold_evicts_iff`: penalties evict exactly if one is a revocation violation.
-/

import PyxelVM.Karma.Standing

namespace PyxelVM.Karma

open PyxelVM.Lib

/-! ## Sound memories -/

/-- A roster has a node only where its memberships do, and an evicted node has none. -/
structure Sound (m : Memory) : Prop where
  roster : ∀ n c, n ∈ m.cluster c → m.member n c = true
  evicted : ∀ n ∈ m.evictionQueue, ∀ c, m.member n c = false

theorem SameClusters.sound {m m' : Memory} (h : SameClusters m m') (hm : Sound m) : Sound m' := by
  refine ⟨?_, ?_⟩
  · intro n c hn
    rw [h.member]; rw [h.cluster] at hn; exact hm.roster n c hn
  · intro n hn c
    rw [h.member]; rw [h.queue] at hn; exact hm.evicted n hn c

theorem roster_leaves {m m' : Memory} {n : String} {p : String → Bool} (h : Leaves n p m m')
    (hm : ∀ k d, k ∈ m.cluster d → m.member k d = true) : ∀ k d, k ∈ m'.cluster d → m'.member k d = true := by
  intro k d hk
  rw [h.member]
  rw [h.cluster] at hk
  split at hk
  · obtain ⟨hne, hk⟩ := Finset.mem_erase.mp hk
    simp [hm k d hk, hne]
  · rename_i hp
    have hmk := hm k d hk
    rw [hmk, Bool.true_and]
    by_cases e : k = n
    · subst e
      simpa [hmk] using hp
    · simp [e]

theorem roster_enters {m m' : Memory} {n c : String} (h : Enters n c m m')
    (hm : ∀ k d, k ∈ m.cluster d → m.member k d = true) : ∀ k d, k ∈ m'.cluster d → m'.member k d = true := by
  intro k d hk
  rw [h.member]
  rw [h.cluster] at hk
  split at hk
  · rename_i e
    rcases Finset.mem_insert.mp hk with rfl | hk
    · simp [e]
    · simp [e, hm k c hk]
  · simp [hm k d hk]

/-- A node that is not evicted may enter. -/
theorem sound_enters {m m' : Memory} {n c : String} (h : Enters n c m m') (hq : m'.evictionQueue = m.evictionQueue)
    (hn : n ∉ m.evictionQueue) (hm : Sound m) : Sound m' := by
  refine ⟨roster_enters h hm.roster, ?_⟩
  intro k hk d
  rw [hq] at hk
  have hkn : k ≠ n := by rintro rfl; exact hn hk
  simp [h.member, hm.evicted k hk d, hkn]

/-! ## The invariant -/

/-- The memory is sound, and so is the one a restart reads, which has every evicted node. -/
structure Inv (s : System) : Prop where
  memory : Sound s.memory
  file : Sound s.load.memory
  evicted : s.memory.evictionQueue ⊆ s.load.memory.evictionQueue

theorem Inv.start : Inv {} := by
  have h : Sound ({} : Memory) := ⟨fun _ c hn => by simp [Memory.cluster, Dict.getD] at hn, fun n hn => by simp at hn⟩
  exact ⟨h, h, fun _ hn => hn⟩

/-- The call is not `register_cluster_activity` of an evicted node. -/
def Op.respects (s : System) : Op → Prop
  | .registerClusterActivity nodeId _ _ _ => nodeId ∉ s.memory.evictionQueue
  | _ => True

theorem sound_moves {s : System} {op : Op} {m' : Memory} (hop : op.respects s) (h : Moves s.memory op m')
    (hm : Sound s.memory) : Sound m' := by
  cases h with
  | same h => exact h.sound hm
  | evicted h hq =>
    refine ⟨roster_leaves h hm.roster, ?_⟩
    intro k hk d
    rw [h.member]
    rcases Finset.mem_insert.mp (hq ▸ hk) with rfl | hk
    · simp
    · rw [hm.evicted k hk d, Bool.false_and]
  | left h hq =>
    refine ⟨roster_leaves h hm.roster, ?_⟩
    intro k hk d
    rw [h.member, hm.evicted k (hq ▸ hk) d, Bool.false_and]
  | joined h hq hn _ => exact sound_enters h hq hn hm
  | registered h hq _ => exact sound_enters h hq hop hm

theorem inv_step {s : System} (h : Inv s) {op : Op} (hop : op.respects s) : Inv (step s op).2 := by
  by_cases hr : op = .restart
  · subst hr
    exact ⟨h.file, h.file, fun _ hn => hn⟩
  · obtain ⟨hmv, hl⟩ := step_moves s hr
    have hm := sound_moves hop hmv h.memory
    rcases hl with ⟨hl, hq⟩ | hl
    · exact ⟨hm, by rw [hl]; exact h.file, by rw [hl, hq]; exact h.evicted⟩
    · exact ⟨hm, hl.sound hm, hl.queue.superset⟩

/-- No call takes a node out of the eviction queue, and no restart does. -/
theorem queue_step {s : System} (h : Inv s) (op : Op) : s.memory.evictionQueue ⊆ (step s op).2.memory.evictionQueue := by
  by_cases hr : op = .restart
  · subst hr
    exact h.evicted
  · cases (step_moves s hr).1 with
    | same h => exact h.queue.superset
    | evicted _ hq => rw [hq]; exact Finset.subset_insert _ _
    | left _ hq => exact hq.superset
    | joined _ hq => exact hq.superset
    | registered _ hq => exact hq.superset

/-! ## Runs -/

/-- Every call of the run respects the evictions before it. -/
def Respectful (ops : List Op) : Prop := ∀ a op b, ops = a ++ op :: b → op.respects (reached a)

theorem inv_reached {ops : List Op} (h : Respectful ops) : Inv (reached ops) := by
  induction ops using List.reverseRecOn with
  | nil => exact .start
  | append_singleton ops op ih =>
    have hops : Inv (reached ops) := ih fun a o b e => h a o (b ++ [op]) (by simp [e])
    have hop : op.respects (reached ops) := h ops op [] rfl
    rw [reached_snoc]
    exact inv_step hops hop

theorem queue_reached {a : List Op} (b : List Op) (h : Respectful (a ++ b)) :
    (reached a).memory.evictionQueue ⊆ (reached (a ++ b)).memory.evictionQueue := by
  induction b using List.reverseRecOn with
  | nil => simp
  | append_singleton b op ih =>
    have hab : Respectful (a ++ b) := fun c o d e => h c o (d ++ [op]) (by rw [← List.append_assoc, e]; simp)
    apply (ih hab).trans
    rw [← List.append_assoc, reached_snoc]
    exact queue_step (inv_reached hab) op

theorem mem_candidateStep {now : Rat} {acc : List (Candidate Rat) × Memory} {n : String} {cd : Candidate Rat}
    (h : cd ∈ (candidateStep KarmaScore.mass now acc n).1) : cd ∈ acc.1 ∨ cd.nodeId = n := by
  simp only [candidateStep] at h
  repeat' split at h
  all_goals first
    | exact .inl h
    | (rcases List.mem_append.mp h with h | h
       · exact .inl h
       · exact .inr (by simp at h; rw [h]))

theorem mem_candidates {m : Memory} {ord : SetOrder} {c : String} {topN : Int} {now : Rat} {cd : Candidate Rat}
    (h : cd ∈ (m.getMasterNodeCandidates ord c topN now).1) : cd.nodeId ∈ m.cluster c := by
  have hfold (ns : List String) (acc : List (Candidate Rat) × Memory) (hc : cd ∈ (ns.foldl (candidateStep KarmaScore.mass now) acc).1) :
      cd ∈ acc.1 ∨ cd.nodeId ∈ ns := by
    induction ns generalizing acc with
    | nil => exact .inl hc
    | cons n ns ih =>
      rcases ih _ hc with h | h
      · exact (mem_candidateStep h).imp_right fun e => by simp [e]
      · exact .inr (List.mem_cons_of_mem _ h)
  have he : cd ∈ (m.eligible KarmaScore.mass ord c now).1 := by
    simp only [Memory.getMasterNodeCandidates, Memory.getMasterNodeCandidatesBy, sliceTo] at h
    split at h <;> exact List.mem_mergeSort.mp (List.mem_of_mem_take h)
  rcases hfold _ _ he with h | h
  · cases h
  · exact (ord.mem _ _).mp h

/-- The node is out of everything. -/
structure Out (s : System) (nodeId : String) : Prop where
  memberships : ∀ clusterId, s.memory.member nodeId clusterId = false
  rosters : ∀ clusterId, nodeId ∉ s.memory.cluster clusterId
  barred : ∀ now, (s.memory.canParticipate nodeId now).1.1 = false
  candidate : ∀ ord clusterId topN now, ∀ cd ∈ (s.memory.getMasterNodeCandidates ord clusterId topN now).1, cd.nodeId ≠ nodeId
  elected : ∀ ord clusterId now, (s.memory.electMasterNode ord clusterId now).1 ≠ some nodeId

theorem Sound.out {s : System} (h : Sound s.memory) {n : String} (hn : n ∈ s.memory.evictionQueue) : Out s n := by
  have hr (c : String) : n ∉ s.memory.cluster c := fun hc => by
    have := h.roster n c hc
    rw [h.evicted n hn c] at this
    cases this
  refine ⟨h.evicted n hn, hr, ?_, ?_, ?_⟩
  · intro now
    exact Bool.eq_false_iff.mpr fun hp => not_evicted_of_canParticipate hp hn
  · intro ord c topN now cd hcd e
    exact hr c (e ▸ mem_candidates hcd)
  · intro ord c now he
    simp only [Memory.electMasterNode, Memory.electMasterNodeBy, Option.map_eq_some_iff] at he
    obtain ⟨cd, hcd, e⟩ := he
    exact hr c (e ▸ mem_candidates (List.mem_of_mem_head? hcd))

/-- Along the run, a node that has entered the eviction queue is out from then on. -/
def EvictionHolds (ops : List Op) : Prop :=
  ∀ a b c, ops = a ++ b ++ c → ∀ n ∈ (reached a).memory.evictionQueue, Out (reached (a ++ b)) n

/-- Eviction holds of exactly the runs that register no activity of an evicted node. -/
theorem eviction_holds_iff (ops : List Op) :
    EvictionHolds ops ↔ ∀ a nodeId clusterId cycleCompleted now b,
      ops = a ++ .registerClusterActivity nodeId clusterId cycleCompleted now :: b →
        nodeId ∉ (reached a).memory.evictionQueue := by
  constructor
  · intro h a n c done now b e hn
    have hout := h a [.registerClusterActivity n c done now] b (by simp [e]) n hn
    have hm : (reached (a ++ [.registerClusterActivity n c done now])).memory.member n c = true := by
      rw [reached_snoc]
      rcases registerClusterActivity_moves (reached a) n c done now with ⟨hm, hs⟩ | ⟨_, he, _⟩
      · exact (hs.member n c).trans hm
      · exact (he.member n c).trans (by simp)
    rw [hout.memberships c] at hm
    cases hm
  · intro h a b c e n hn
    have hr : Respectful (a ++ b) := by
      intro p op q epq
      cases op with
      | registerClusterActivity n c' done now => exact h p n c' done now (q ++ c) (by rw [e, epq]; simp)
      | _ => trivial
    exact (inv_reached hr).memory.out (queue_reached b hr hn)

/-- A node evicted for a revocation violation is back in a cluster with its next activity. -/
theorem evicted_node_rejoins : ¬∀ ops, EvictionHolds ops := by
  intro h
  have hout := h [.reportEvent "node" .revocationViolation "" "severe" 0,
    .registerClusterActivity "node" "cluster" false 1] [.reportEvent "node" .revocationViolation "" "severe" 0]
    [.registerClusterActivity "node" "cluster" false 1] [] rfl "node" (by decide)
  have hin : (reached [.reportEvent "node" .revocationViolation "" "severe" 0,
    .registerClusterActivity "node" "cluster" false 1]).memory.member "node" "cluster" = true := by decide
  exact Bool.false_ne_true ((hout.memberships "cluster").symm.trans hin)

/-! ## The threshold -/

/-- Only a report of a revocation violation puts a node into the eviction queue. -/
theorem queued_step {s : System} {op : Op} (hop : op ≠ .restart) (n : String) :
    n ∈ (step s op).2.memory.evictionQueue ↔
      n ∈ s.memory.evictionQueue ∨ .revocationViolation ∈ events n [op] := by
  by_cases hrevoked : ∃ k reason severity now, op = .reportEvent k .revocationViolation reason severity now
  · obtain ⟨k, reason, severity, now, rfl⟩ := hrevoked
    have hq : (step s (.reportEvent k .revocationViolation reason severity now)).2.memory.evictionQueue =
        insert k s.memory.evictionQueue := (leaves_reportEvent s k reason severity now).2
    rw [hq, Finset.mem_insert, or_comm]
    by_cases hk : k = n
    · simp [events, hk]
    · simp [events, hk, Ne.symm hk]
  · have hq : (step s op).2.memory.evictionQueue = s.memory.evictionQueue := by
      cases (step_moves s hop).1 with
      | same h => exact h.queue
      | evicted _ _ => exact absurd ⟨_, _, _, _, rfl⟩ hrevoked
      | left _ hq => exact hq
      | joined _ hq => exact hq
      | registered _ hq => exact hq
    have hnone : .revocationViolation ∉ events n [op] := by
      intro h
      cases op with
      | reportEvent k e reason severity now =>
        have he : e = .revocationViolation := by
          by_cases hk : k = n
          · simpa [events, hk, eq_comm] using h
          · simp [events, hk] at h
        exact hrevoked ⟨k, reason, severity, now, by rw [he]⟩
      | _ => cases h
    rw [hq]
    exact ⟨.inl, fun h => h.resolve_right hnone⟩

theorem queued_run {ops : List Op} (hops : .restart ∉ ops) (s : System) (n : String) :
    n ∈ (Trace.final step s ops).memory.evictionQueue ↔
      n ∈ s.memory.evictionQueue ∨ .revocationViolation ∈ events n ops := by
  induction ops generalizing s with
  | nil => simp [events]
  | cons op ops ih =>
    obtain ⟨hop, hrest⟩ := not_or.mp (mt List.mem_cons.mpr hops)
    have hevents : events n (op :: ops) = events n [op] ++ events n ops := by
      rw [events, ← List.singleton_append, List.filterMap_append]
      rfl
    rw [Trace.final_cons, ih hrest, queued_step (Ne.symm hop), hevents, List.mem_append, or_assoc]

/-- How much karma the events would add, unclamped. -/
def karmaSum (es : List KarmaEvent) : Int := (es.map fun e => (karmaAdjustments e).karma).sum

/-- Of a node that is not evicted yet: events of -100 or less in all evict it exactly if there are none such, or one of
    the events is a revocation violation. -/
theorem threshold_evicts_iff (s : System) (n : String) (ops : List Op) (hfresh : n ∉ s.memory.evictionQueue)
    (hops : .restart ∉ ops) :
    (karmaSum (events n ops) ≤ -100 → n ∈ (Trace.final step s ops).memory.evictionQueue) ↔
      -100 < karmaSum (events n ops) ∨ .revocationViolation ∈ events n ops := by
  rw [queued_run hops, or_iff_right hfresh, imp_iff_not_or, not_le]

/-- Two events of state corruption. -/
def corruption : List Op :=
  [.reportEvent "node" .stateCorruption "" "severe" 0, .reportEvent "node" .stateCorruption "" "severe" 1]

theorem threshold_evicts_corruption :
    (karmaSum (events "node" corruption) ≤ -100 → "node" ∈ (Trace.final step {} corruption).memory.evictionQueue) ↔
      -100 < karmaSum (events "node" corruption) ∨ .revocationViolation ∈ events "node" corruption :=
  threshold_evicts_iff {} "node" corruption (by decide) (by simp [corruption])

/-- A node with -120 of karma is not evicted. -/
theorem threshold_unreached : ¬∀ (n : String) (ops : List Op), (∀ op ∈ ops, ∃ e reason severity now,
    op = .reportEvent n e reason severity now ∧ (karmaAdjustments e).karma < 0) → karmaSum (events n ops) ≤ -100 →
      n ∈ (Trace.final step {} ops).memory.evictionQueue := by
  intro h
  have hin := h "node" corruption (by simp [corruption, karmaAdjustments]) (by decide)
  exact absurd hin (by decide +kernel)

end PyxelVM.Karma
