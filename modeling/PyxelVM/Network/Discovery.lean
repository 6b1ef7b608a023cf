/-
  PyxelVM.Network.Discovery — peers that come and go unseen (`zdx_discovery.py`).

  A `ZDXDiscovery` records when it last heard of a node. `active_nodes` leaves out who
  was not heard of for longer than the timeout; `remove_stale` forgets them for good. A
  call comes some time after the one before it, and reads the clock once.

  Is forgetting seen? A heartbeat brings a stale node back, unless the node is forgotten:
  then the heartbeat is lost, and the node stays away until it announces itself again.

  - `pruning_unseen_iff`: along every run `active_nodes` answers at all times as if
    nothing were ever removed, exactly if no heartbeat comes from a node that announced
    itself and was removed since.
-/

import Mathlib.Algebra.Order.Field.Rat
import Mathlib.Data.List.Induction
import Mathlib.Tactic.Linarith
import PyxelVM.Lib.Dict
import PyxelVM.Lib.PyJson
import PyxelVM.Lib.Trace

namespace PyxelVM.Network

open PyxelVM.Lib

variable {Address : Type}

structure DiscoveredNode (Address : Type) where
  address : Address
  capabilities : PyJson
  lastSeen : Rat

structure ZDXDiscovery (Address : Type) where
  timeoutSeconds : Rat := 120
  nodes : Dict String (DiscoveredNode Address) := .empty

namespace ZDXDiscovery

def announce (d : ZDXDiscovery Address) (now : Rat) (nodeId : String) (address : Address) (capabilities : PyJson := .null) :
    ZDXDiscovery Address :=
  { d with nodes := d.nodes.set nodeId ⟨address, if capabilities.truthy then capabilities else .obj [], now⟩ }

def heartbeat (d : ZDXDiscovery Address) (now : Rat) (nodeId : String) : ZDXDiscovery Address :=
  { d with nodes := d.nodes.modify nodeId fun node => { node with lastSeen := now } }

def activeNodes (d : ZDXDiscovery Address) (now : Rat) : Dict String (DiscoveredNode Address) :=
  d.nodes.filterValues fun node => decide (now - node.lastSeen ≤ d.timeoutSeconds)

def removeStale (d : ZDXDiscovery Address) (now : Rat) : ZDXDiscovery Address := { d with nodes := d.activeNodes now }

end ZDXDiscovery

/-! ## Runs -/

inductive DiscoveryCall (Address : Type) where
  | announce (nodeId : String) (address : Address) (capabilities : PyJson)
  | heartbeat (nodeId : String)
  | removeStale

/-- A call, and the time since the one before. -/
structure Timed (Address : Type) where
  elapsed : Rat
  call : DiscoveryCall Address

/-- A registry, and the time of the last call. -/
structure Discovery (Address : Type) where
  now : Rat
  registry : ZDXDiscovery Address

def Discovery.step (d : Discovery Address) (c : Timed Address) : Discovery Address :=
  let now := d.now + c.elapsed
  match c.call with
  | .announce nodeId address capabilities => ⟨now, d.registry.announce now nodeId address capabilities⟩
  | .heartbeat nodeId => ⟨now, d.registry.heartbeat now nodeId⟩
  | .removeStale => ⟨now, d.registry.removeStale now⟩

/-- The same call, if nothing is ever removed. -/
def Discovery.keep (d : Discovery Address) (c : Timed Address) : Discovery Address :=
  match c.call with
  | .removeStale => { d with now := d.now + c.elapsed }
  | _ => d.step c

def Discovery.start (timeoutSeconds now : Rat) : Discovery Address := ⟨now, { timeoutSeconds }⟩

/-- What `active_nodes` answers, now and at any later time. -/
def Discovery.SameViews (d e : Discovery Address) : Prop :=
  ∀ later ≥ d.now, ∀ nodeId, (d.registry.activeNodes later).get? nodeId = (e.registry.activeNodes later).get? nodeId

/-- The node announced itself in one of the calls. -/
def Announced (nodeId : String) (calls : List (Timed Address)) : Prop :=
  ∃ c ∈ calls, ∃ address capabilities, c.call = .announce nodeId address capabilities

/-! ## What a registry has of a node -/

theorem get?_heartbeat (d : ZDXDiscovery Address) (now : Rat) (nodeId k : String) : (d.heartbeat now nodeId).nodes.get? k =
    if k = nodeId then (d.nodes.get? nodeId).map fun node => { node with lastSeen := now } else d.nodes.get? k :=
  Dict.get?_modify _ _ _ _

theorem get?_activeNodes (d : ZDXDiscovery Address) (now : Rat) (k : String) : (d.activeNodes now).get? k =
    (d.nodes.get? k).filter fun node => decide (now - node.lastSeen ≤ d.timeoutSeconds) := Dict.get?_filterValues _ _ _

/-- Nothing was heard of a node after the last call. -/
def Discovery.Heard (d : Discovery Address) : Prop :=
  ∀ nodeId node, d.registry.nodes.get? nodeId = some node → node.lastSeen ≤ d.now

section

variable {d e : Discovery Address} {c : Timed Address}

theorem step_now (d : Discovery Address) (c : Timed Address) : (d.step c).now = d.now + c.elapsed := by
  unfold Discovery.step
  cases c.call <;> rfl

theorem keep_now (d : Discovery Address) (c : Timed Address) : (d.keep c).now = d.now + c.elapsed := by
  unfold Discovery.keep Discovery.step
  cases c.call <;> rfl

theorem step_timeout (d : Discovery Address) (c : Timed Address) :
    (d.step c).registry.timeoutSeconds = d.registry.timeoutSeconds := by
  unfold Discovery.step
  cases c.call <;> rfl

theorem keep_timeout (d : Discovery Address) (c : Timed Address) :
    (d.keep c).registry.timeoutSeconds = d.registry.timeoutSeconds := by
  unfold Discovery.keep Discovery.step
  cases c.call <;> rfl

theorem Discovery.Heard.step (h : d.Heard) (hc : 0 ≤ c.elapsed) : (d.step c).Heard := by
  intro k node hnode
  rw [step_now]
  have hold : ∀ node, d.registry.nodes.get? k = some node → node.lastSeen ≤ d.now + c.elapsed := by
    intro node hnode
    have hle := h k node hnode
    linarith
  unfold Discovery.step at hnode
  cases hcall : c.call with
  | announce nodeId address capabilities =>
    rw [hcall] at hnode
    simp only [ZDXDiscovery.announce, Dict.get?_set] at hnode
    split at hnode
    · cases hnode
      exact le_refl _
    · exact hold node hnode
  | heartbeat nodeId =>
    rw [hcall] at hnode
    simp only [get?_heartbeat] at hnode
    split at hnode
    · obtain ⟨before, -, rfl⟩ := Option.map_eq_some_iff.mp hnode
      exact le_refl _
    · exact hold node hnode
  | removeStale =>
    rw [hcall] at hnode
    simp only [ZDXDiscovery.removeStale, get?_activeNodes] at hnode
    exact hold node (Option.eq_some_of_filter_eq_some hnode)

theorem Discovery.Heard.keep (h : d.Heard) (hc : 0 ≤ c.elapsed) : (d.keep c).Heard := by
  unfold Discovery.keep
  split
  · intro k node hnode
    have hle := h k node hnode
    show node.lastSeen ≤ d.now + c.elapsed
    linarith
  · exact h.step hc

end

/-! ## With and without removing -/

/-- The two runs: a node has the same entry in both, or was removed from the first and is stale in the second. -/
structure Agree (s : Discovery Address × Discovery Address) : Prop where
  now : s.1.now = s.2.now
  timeout : s.1.registry.timeoutSeconds = s.2.registry.timeoutSeconds
  nodes : ∀ k, s.1.registry.nodes.get? k = s.2.registry.nodes.get? k ∨
    s.1.registry.nodes.get? k = none ∧
      ∃ node, s.2.registry.nodes.get? k = some node ∧ s.2.registry.timeoutSeconds < s.2.now - node.lastSeen

def both (s : Discovery Address × Discovery Address) (c : Timed Address) : Discovery Address × Discovery Address :=
  (s.1.step c, s.2.keep c)

/-- A heartbeat of a node that was removed. -/
def Finds (s : Discovery Address × Discovery Address) (c : Timed Address) : Prop :=
  ∀ nodeId, c.call = .heartbeat nodeId → s.2.registry.nodes.has nodeId = true → s.1.registry.nodes.has nodeId = true

section

variable {s : Discovery Address × Discovery Address} {c : Timed Address}

theorem Agree.views (h : Agree s) : s.1.SameViews s.2 := by
  intro later hlater k
  rw [get?_activeNodes, get?_activeNodes, h.timeout]
  rcases h.nodes k with hsame | ⟨hnone, node, hnode, hstale⟩
  · rw [hsame]
  · have hnow := h.now
    rw [hnone, hnode, Option.filter_none, Option.filter_some, if_neg]
    simp only [decide_eq_true_eq, not_le]
    linarith

/-- What the calls that find their nodes keep. -/
theorem Agree.kept (h : Agree s) (hc : 0 ≤ c.elapsed) (hfinds : Finds s c) : Agree (both s c) := by
  refine ⟨by rw [both, step_now, keep_now, h.now], by rw [both, step_timeout, keep_timeout, h.timeout], ?_⟩
  intro k
  simp only [both, keep_timeout, keep_now]
  -- an entry that neither run touches only gets older
  have hold : s.1.registry.nodes.get? k = s.2.registry.nodes.get? k ∨ s.1.registry.nodes.get? k = none ∧
      ∃ node, s.2.registry.nodes.get? k = some node ∧
        s.2.registry.timeoutSeconds < s.2.now + c.elapsed - node.lastSeen := by
    rcases h.nodes k with hsame | ⟨hnone, node, hnode, hstale⟩
    · exact .inl hsame
    · exact .inr ⟨hnone, node, hnode, by linarith⟩
  unfold Discovery.keep Discovery.step
  cases hcall : c.call with
  | announce nodeId address capabilities =>
    simp only [ZDXDiscovery.announce, Dict.get?_set, h.now]
    by_cases hk : k = nodeId
    · simp [hk]
    · simp only [if_neg hk]
      exact hold
  | heartbeat nodeId =>
    simp only [get?_heartbeat, h.now]
    by_cases hk : k = nodeId
    · subst hk
      simp only [if_true]
      rcases h.nodes k with hsame | ⟨hnone, node, hnode, -⟩
      · rw [hsame]
        exact .inl rfl
      · have hfound := hfinds k hcall (Dict.has_iff.mpr ⟨node, hnode⟩)
        rw [Dict.has, hnone] at hfound
        cases hfound
    · simp only [if_neg hk]
      exact hold
  | removeStale =>
    simp only [ZDXDiscovery.removeStale, get?_activeNodes, h.now, h.timeout]
    rcases hold with hsame | ⟨hnone, hstale⟩
    · rw [hsame]
      cases hnode : s.2.registry.nodes.get? k with
      | none => exact .inl rfl
      | some node =>
        rw [Option.filter_some]
        split
        · exact .inl rfl
        · rename_i hnot
          simp only [decide_eq_true_eq, not_le] at hnot
          exact .inr ⟨rfl, node, rfl, hnot⟩
    · rw [hnone]
      exact .inr ⟨rfl, hstale⟩

/-- A lost heartbeat is seen at once. -/
theorem Agree.finds (h : Agree s) (htimeout : 0 ≤ s.2.registry.timeoutSeconds) (hviews : (both s c).1.SameViews (both s c).2) :
    Finds s c := by
  intro nodeId hcall hhas
  obtain ⟨node, hnode⟩ := Dict.has_iff.mp hhas
  rcases h.nodes nodeId with hsame | ⟨hnone, -⟩
  · exact Dict.has_iff.mpr ⟨node, hsame.trans hnode⟩
  · have hview := hviews (both s c).1.now (le_refl _) nodeId
    rw [get?_activeNodes, get?_activeNodes] at hview
    simp only [both, Discovery.keep, Discovery.step, hcall, get?_heartbeat, if_true, hnone, hnode, Option.map_none,
      Option.map_some, Option.filter_none, h.now] at hview
    rw [Option.filter_some, if_pos] at hview
    · cases hview
    · simp only [ZDXDiscovery.heartbeat, sub_self, decide_eq_true_eq]
      exact htimeout

end

theorem foldl_both (s : Discovery Address × Discovery Address) (calls : List (Timed Address)) :
    calls.foldl both s = (calls.foldl Discovery.step s.1, calls.foldl Discovery.keep s.2) := by
  induction calls generalizing s with
  | nil => rfl
  | cons c calls ih => exact ih _

/-- Nothing was heard after the last call, and the timeout is negative. -/
structure Discovery.Silent (d : Discovery Address) : Prop where
  heard : d.Heard
  timeout : d.registry.timeoutSeconds < 0

theorem Discovery.Silent.inactive {d : Discovery Address} (h : d.Silent) {later : Rat} (hlater : later ≥ d.now) (k : String) :
    (d.registry.activeNodes later).get? k = none := by
  rw [get?_activeNodes, Option.filter_eq_none_iff]
  intro node hnode
  have hle := h.heard k node hnode
  have hneg := h.timeout
  simp only [decide_eq_true_eq, not_le]
  linarith

theorem foldl_now (d : Discovery Address) (calls : List (Timed Address)) :
    (calls.foldl Discovery.step d).now = (calls.foldl Discovery.keep d).now := by
  induction calls using List.reverseRecOn with
  | nil => rfl
  | append_singleton calls c ih => rw [List.foldl_concat, List.foldl_concat, step_now, keep_now, ih]

section

variable (timeoutSeconds now : Rat)

theorem start_heard : (Discovery.start timeoutSeconds now : Discovery Address).Heard := by
  intro k node hnode
  cases hnode

theorem foldl_keeps {P : Discovery Address → Prop} {f : Discovery Address → Timed Address → Discovery Address}
    (hf : ∀ d c, 0 ≤ c.elapsed → P d → P (f d c)) {d : Discovery Address} (hd : P d) (calls : List (Timed Address))
    (hclock : ∀ c ∈ calls, 0 ≤ c.elapsed) : P (calls.foldl f d) := by
  induction calls generalizing d with
  | nil => exact hd
  | cons c calls ih =>
    exact ih (hf d c (hclock c List.mem_cons_self) hd) fun c' hc' => hclock c' (List.mem_cons_of_mem c hc')

theorem keep_announced (calls : List (Timed Address)) (nodeId : String) :
    (calls.foldl Discovery.keep (.start timeoutSeconds now)).registry.nodes.has nodeId = true ↔ Announced nodeId calls := by
  induction calls using List.reverseRecOn with
  | nil =>
    constructor
    · intro h
      cases h
    · intro h
      obtain ⟨c, hc, -⟩ := h
      cases hc
  | append_singleton calls c ih =>
    have hsplit : Announced nodeId (calls ++ [c]) ↔ Announced nodeId calls ∨
        ∃ address capabilities, c.call = .announce nodeId address capabilities := by
      simp only [Announced, List.mem_append, List.mem_singleton, or_and_right, exists_or, exists_eq_left]
    rw [List.foldl_concat, hsplit, ← ih]
    generalize calls.foldl Discovery.keep (.start timeoutSeconds now) = d
    unfold Discovery.keep Discovery.step
    cases hcall : c.call with
    | announce other address capabilities =>
      simp only [ZDXDiscovery.announce, Dict.has, Dict.get?_set, DiscoveryCall.announce.injEq]
      by_cases hk : nodeId = other
      · simp [hk]
      · simp [hk, Ne.symm hk]
    | heartbeat other =>
      simp only [Dict.has, get?_heartbeat, reduceCtorEq, exists_false, or_false]
      by_cases hk : nodeId = other
      · simp [hk]
      · simp [hk]
    | removeStale => simp

/-- Removing the stale nodes is not seen at any time, exactly if every heartbeat of a node that announced itself finds
    it there. (With a negative timeout nobody is ever active.) -/
theorem pruning_unseen_iff (calls : List (Timed Address)) (hclock : ∀ c ∈ calls, 0 ≤ c.elapsed) :
    (∀ past, past <+: calls → (past.foldl Discovery.step (.start timeoutSeconds now)).SameViews
        (past.foldl Discovery.keep (.start timeoutSeconds now))) ↔
      (0 ≤ timeoutSeconds → ∀ past c nodeId, past ++ [c] <+: calls → c.call = .heartbeat nodeId → Announced nodeId past →
        (past.foldl Discovery.step (.start timeoutSeconds now)).registry.nodes.has nodeId = true) := by
  have htimeout (calls : List (Timed Address)) :
      (calls.foldl Discovery.keep (.start timeoutSeconds now)).registry.timeoutSeconds = timeoutSeconds := by
    induction calls using List.reverseRecOn with
    | nil => rfl
    | append_singleton calls c ih => rw [List.foldl_concat, keep_timeout, ih]
  rcases lt_or_ge timeoutSeconds 0 with hneg | hpos
  · refine ⟨fun _ h => absurd hneg (not_lt.mpr h), fun _ past hpast later hlater k => ?_⟩
    have hpast : ∀ c ∈ past, 0 ≤ c.elapsed := fun c hc => hclock c (hpast.subset hc)
    have hstart : (Discovery.start timeoutSeconds now : Discovery Address).Silent := ⟨start_heard _ _, hneg⟩
    have hpruned := foldl_keeps (fun d c hc (h : d.Silent) => ⟨h.heard.step hc, (step_timeout d c).trans_lt h.timeout⟩)
      hstart past hpast
    have hkept := foldl_keeps (fun d c hc (h : d.Silent) => ⟨h.heard.keep hc, (keep_timeout d c).trans_lt h.timeout⟩)
      hstart past hpast
    rw [hpruned.inactive hlater, hkept.inactive (by rw [← foldl_now]; exact hlater)]
  · have hstart : Agree ((Discovery.start timeoutSeconds now : Discovery Address), .start timeoutSeconds now) :=
      ⟨rfl, rfl, fun _ => .inl rfl⟩
    have hiff := Trace.prefixes_iff (f := both) (P := fun s => Agree s ∧ s.2.registry.timeoutSeconds = timeoutSeconds)
      (Q := fun s => s.1.SameViews s.2) (C := Finds) (fun _ h => h.1.views)
      (fun s c h hc => ⟨h.1.finds (h.2 ▸ hpos), fun hf => ⟨h.1.kept hc hf, by rw [both, keep_timeout, h.2]⟩⟩)
      ⟨hstart, rfl⟩ hclock
    simp only [foldl_both] at hiff
    rw [hiff]
    constructor
    · intro h _ past c nodeId hpast hcall hann
      exact h past c hpast nodeId hcall ((keep_announced timeoutSeconds now past nodeId).mpr hann)
    · intro h past c hpast nodeId hcall hhas
      exact h hpos past c nodeId hpast hcall ((keep_announced timeoutSeconds now past nodeId).mp hhas)

end

/-- A node announces itself, is silent for too long and removed, and calls again. -/
def lostHeartbeat : List (Timed String) :=
  [⟨0, .announce "pi" "10.0.0.2" .null⟩, ⟨121, .removeStale⟩, ⟨1, .heartbeat "pi"⟩]

theorem pruning_seen : ¬∀ past, past <+: lostHeartbeat → (past.foldl Discovery.step (.start 120 0)).SameViews
    (past.foldl Discovery.keep (.start 120 0)) := by
  intro h
  have hclock : ∀ c ∈ lostHeartbeat, 0 ≤ c.elapsed := by simp [lostHeartbeat]
  have hfinds := (pruning_unseen_iff 120 0 lostHeartbeat hclock).mp h (by norm_num)
    [⟨0, .announce "pi" "10.0.0.2" .null⟩, ⟨121, .removeStale⟩] ⟨1, .heartbeat "pi"⟩ "pi" (List.prefix_refl _) rfl
    ⟨_, List.mem_cons_self, "10.0.0.2", .null, rfl⟩
  exact absurd hfinds (by decide +kernel)

end PyxelVM.Network
