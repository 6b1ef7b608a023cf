/-
  PyxelVM.Karma.Rosters — the two places a cluster is kept in, and how full it gets.

  - `rosters_agree`: in every state between calls a roster has a node exactly where the
    node has a score whose memberships name the cluster, in any order of calls and
    restarts.
  - `crowded_cluster`: a cluster can hold more than CLUSTER_SIZE nodes. `join_cluster`
    refuses a full cluster; `register_cluster_activity` enters the node without asking.
  - `capacity_holds_iff`: every cluster of every state of a run is within its size
    exactly when no call of `register_cluster_activity` enters a node in a full cluster.
-/

import PyxelVM.Karma.Clusters

namespace PyxelVM.Karma

open PyxelVM.Lib

/-! ## Agreement -/

/-- Rosters and memberships say the same. -/
def Agrees (m : Memory) : Prop := ∀ n c, n ∈ m.cluster c ↔ m.member n c = true

theorem Agrees.start : Agrees {} := by
  intro n c
  simp [Memory.cluster, Memory.member, Memory.scoreOf, Dict.getD, Dict.has]

theorem SameClusters.agrees {m m' : Memory} (h : SameClusters m m') (hm : Agrees m) : Agrees m' := by
  intro n c
  rw [h.member, h.cluster]
  exact hm n c

theorem agrees_leaves {m m' : Memory} {n : String} {p : String → Bool} (h : Leaves n p m m') (hm : Agrees m) : Agrees m' := by
  intro k d
  rw [h.member, h.cluster]
  by_cases hp : (p d && m.member n d) = true
  · have hpd : p d = true := (Bool.and_eq_true_iff.mp hp).1
    rw [if_pos hp, Finset.mem_erase, hm k d, hpd]
    by_cases hk : k = n <;> simp [hk]
  · rw [if_neg hp, hm k d]
    by_cases hk : k = n
    · subst hk
      cases hmk : m.member k d with
      | false => simp
      | true => simpa [hmk] using hp
    · simp [hk]

theorem agrees_enters {m m' : Memory} {n c : String} (h : Enters n c m m') (hm : Agrees m) : Agrees m' := by
  intro k d
  rw [h.member, h.cluster]
  by_cases hd : d = c
  · subst hd
    rw [if_pos rfl, Finset.mem_insert, hm k d]
    by_cases hk : k = n <;> simp [hk]
  · rw [if_neg hd, hm k d]
    simp [hd]

theorem agrees_moves {m m' : Memory} {op : Op} (h : Moves m op m') (hm : Agrees m) : Agrees m' := by
  cases h with
  | same h => exact h.agrees hm
  | evicted h _ => exact agrees_leaves h hm
  | left h _ => exact agrees_leaves h hm
  | joined h _ _ _ => exact agrees_enters h hm
  | registered h _ _ => exact agrees_enters h hm

theorem agrees_reached (ops : List Op) : Agrees (reached ops).memory :=
  (clusters_reached (P := Agrees) (A := fun _ _ => True) .start (fun _ _ h hm => h.agrees hm)
    (fun _ _ _ _ hmv hm => agrees_moves hmv hm) fun _ _ _ _ => trivial).1

/-- A roster has the node exactly where the node has a score whose memberships name the cluster. -/
theorem rosters_agree (ops : List Op) (nodeId clusterId : String) :
    nodeId ∈ (reached ops).memory.cluster clusterId ↔
      ∃ sc, (reached ops).memory.scores.get? nodeId = some sc ∧ sc.clusterMemberships.has clusterId = true := by
  rw [← member_iff]
  exact agrees_reached ops nodeId clusterId

/-! ## Capacity -/

def WithinCapacity (m : Memory) : Prop := ∀ c, (m.cluster c).card ≤ clusterSize

/-- The call is not `register_cluster_activity` of a new member of a full cluster. -/
def Op.spares (s : System) : Op → Prop
  | .registerClusterActivity nodeId clusterId _ _ =>
    s.memory.member nodeId clusterId = true ∨ (s.memory.cluster clusterId).card < clusterSize
  | _ => True

theorem SameClusters.within {m m' : Memory} (h : SameClusters m m') (hm : WithinCapacity m) : WithinCapacity m' := by
  intro c
  rw [h.cluster]
  exact hm c

theorem within_leaves {m m' : Memory} {n : String} {p : String → Bool} (h : Leaves n p m m') (hm : WithinCapacity m) :
    WithinCapacity m' := by
  intro d
  rw [h.cluster]
  split
  · exact (Finset.card_erase_le).trans (hm d)
  · exact hm d

theorem within_enters {m m' : Memory} {n c : String} (h : Enters n c m m') (hc : (m.cluster c).card < clusterSize)
    (hm : WithinCapacity m) : WithinCapacity m' := by
  intro d
  rw [h.cluster]
  split
  · exact (Finset.card_insert_le _ _).trans hc
  · exact hm d

theorem within_moves {s : System} {op : Op} {m' : Memory} (hop : op.spares s) (h : Moves s.memory op m')
    (hm : WithinCapacity s.memory) : WithinCapacity m' := by
  cases h with
  | same h => exact h.within hm
  | evicted h _ => exact within_leaves h hm
  | left h _ => exact within_leaves h hm
  | joined h _ _ hc => exact within_enters h hc hm
  | registered h _ hmem =>
    rcases hop with hin | hc
    · rw [hmem] at hin; cases hin
    · exact within_enters h hc hm

theorem within_reached {ops : List Op} (h : ∀ a op b, ops = a ++ op :: b → op.spares (reached a)) :
    WithinCapacity (reached ops).memory := by
  have hstart : WithinCapacity {} := by
    intro c
    simp [Memory.cluster, Dict.getD]
  exact (clusters_reached (P := WithinCapacity) hstart (fun _ _ h hm => h.within hm)
    (fun _ _ _ hop hmv hm => within_moves hop hmv hm) h).1

/-- Registered activity puts the node in the cluster's roster. -/
theorem cluster_registerClusterActivity {s : System} (h : Agrees s.memory) (n c : String) (done : Bool) (now : Rat) :
    (s.registerClusterActivity n c done now).memory.cluster c = insert n (s.memory.cluster c) := by
  rcases registerClusterActivity_moves s n c done now with ⟨hm, hs⟩ | ⟨_, he, _⟩
  · rw [hs.cluster, Finset.insert_eq_of_mem ((h n c).mpr hm)]
  · rw [he.cluster, if_pos rfl]

/-- Every cluster of every state of the run is within its size, exactly when no call of
    `register_cluster_activity` enters a node in a full cluster. -/
theorem capacity_holds_iff (ops : List Op) :
    (∀ a b, ops = a ++ b → WithinCapacity (reached a).memory) ↔
      ∀ a nodeId clusterId cycleCompleted now b,
        ops = a ++ .registerClusterActivity nodeId clusterId cycleCompleted now :: b →
          (reached a).memory.member nodeId clusterId = true ∨ ((reached a).memory.cluster clusterId).card < clusterSize := by
  constructor
  · intro h a n c done now b e
    by_contra hno
    obtain ⟨hm, hc⟩ := not_or.mp hno
    have hafter := h (a ++ [.registerClusterActivity n c done now]) b (by simp [e]) c
    have hn : n ∉ (reached a).memory.cluster c := fun hn => hm ((agrees_reached a n c).mp hn)
    have hcard : ((reached (a ++ [.registerClusterActivity n c done now])).memory.cluster c).card =
        ((reached a).memory.cluster c).card + 1 := by
      rw [reached_snoc]
      show ((reached a).registerClusterActivity n c done now |>.memory.cluster c).card = _
      rw [cluster_registerClusterActivity (agrees_reached a), Finset.card_insert_of_notMem hn]
    omega
  · intro h a b e
    apply within_reached
    intro p op q epq
    cases op with
    | registerClusterActivity n c done now => exact h p n c done now (q ++ b) (by rw [e, epq]; simp)
    | _ => trivial

/-- Node `i` of a crowd. -/
def crowdName (i : Nat) : String := String.ofList (List.replicate i 'n')

/-- So many nodes report activity in one cluster, one after another. -/
def crowd (k : Nat) : List Op := (List.range k).map fun i => .registerClusterActivity (crowdName i) "cluster" false i

theorem crowdName_injective : Function.Injective crowdName := by
  intro i j h
  have := congrArg (fun s => s.toList.length) h
  simpa [crowdName] using this

theorem cluster_crowd (k : Nat) : (reached (crowd k)).memory.cluster "cluster" = (Finset.range k).image crowdName := by
  induction k with
  | zero => rfl
  | succ k ih =>
    have hs : crowd (k + 1) = crowd k ++ [.registerClusterActivity (crowdName k) "cluster" false k] := by
      simp [crowd, List.range_succ]
    rw [hs, reached_snoc]
    show ((reached (crowd k)).registerClusterActivity (crowdName k) "cluster" false k).memory.cluster "cluster" = _
    rw [cluster_registerClusterActivity (agrees_reached _), ih, Finset.range_add_one, Finset.image_insert]

/-- A hundred and one nodes report activity in a cluster, and are all in it. -/
theorem crowded_cluster : ¬∀ ops c, ((reached ops).memory.cluster c).card ≤ clusterSize := by
  intro h
  have hc := h (crowd 101) "cluster"
  rw [cluster_crowd, Finset.card_image_of_injective _ crowdName_injective, Finset.card_range] at hc
  exact absurd hc (by decide)

end PyxelVM.Karma
