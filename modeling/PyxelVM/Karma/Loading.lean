/-
  PyxelVM.Karma.Loading — `load` of any file (`ZDXKarmaSystem.load`).

  Scores, event log, queues and clusters are restored one after the other inside one
  catch-all: a part that is malformed ends the loading, and what was restored before it
  stays. Field values are not looked at, so they are what the file has.

  - `partial_load_admits`: scores are restored and the eviction queue is not, so a node
    that is to be evicted may participate.
  - `loads_whole_iff`: the file is restored whole or not at all, and no node recorded as
    to be evicted may participate, exactly if every part is well-formed and bars these
    nodes, or there are none and nothing comes before the first malformed part.
-/

import Mathlib.Algebra.Field.Rat
import PyxelVM.Lib.Attempt
import PyxelVM.Lib.PyJson

namespace PyxelVM.Karma

open PyxelVM.Lib

/-! ## Values of the file -/

/-- What `load` finds at its path. -/
inductive StateFile where
  | missing
  | unreadable
  | document (value : PyJson)

def entriesOf (members : List (PyStr × PyJson)) : List (PyStr × PyJson) := (Dict.ofList members).entries

/-- `d.get(key, default)`. -/
def member (d : Dict PyStr PyJson) (key : String) (default : PyJson) : PyJson := d.getD (.ofText key) default

/-- The call `cls(**d)` of a dataclass: every keyword is a field, and no required one is missing. -/
def accepts (fields required : List String) (d : Dict PyStr PyJson) : Bool :=
  (d.keys.all fun k => k ∈ fields.map PyStr.ofText) && required.all fun k => d.has (.ofText k)

structure RawMembership where
  clusterId : PyJson
  joinedAt : PyJson
  lastActive : PyJson
  cyclesCompleted : PyJson
  cyclesInProgress : PyJson

structure RawScore where
  nodeId : PyJson
  karma : PyJson := .int 50
  totalExperience : PyJson := .int 0
  level : PyJson := .str (.ofText "TRUSTEE")
  lastEventTime : PyJson := .float (.finite 0)
  lastActivityTime : PyJson := .float (.finite 0)
  suspensionStatus : PyJson := .bool false
  suspensionTime : PyJson := .null
  evictionPending : PyJson := .bool false
  consecutiveViolations : PyJson := .int 0
  clusterMemberships : Dict PyStr RawMembership := Dict.empty

/-- `ClusterMembership(**cm_dict)`. -/
def restoreMembership : PyJson → Option RawMembership
  | .obj members =>
    let d := Dict.ofList members
    if accepts ["cluster_id", "joined_at", "last_active", "cycles_completed", "cycles_in_progress"]
        ["cluster_id", "joined_at", "last_active"] d then
      some ⟨member d "cluster_id" .null, member d "joined_at" .null, member d "last_active" .null,
        member d "cycles_completed" (.int 0), member d "cycles_in_progress" (.int 0)⟩
    else none
  | _ => none

def restoreMemberships : PyJson → Option (Dict PyStr RawMembership)
  | .obj members =>
    ((entriesOf members).mapM fun e => (restoreMembership e.2).map fun cm => (e.1, cm)).map Dict.ofList
  | _ => none

/-- `KarmaScore(**score_dict)` without the memberships, and then these. -/
def restoreScore : PyJson → Option RawScore
  | .obj members =>
    let d := Dict.ofList members
    let memberships := member d "cluster_memberships" (.obj [])
    let d := d.erase (.ofText "cluster_memberships")
    if accepts ["node_id", "karma", "total_experience", "level", "last_event_time", "last_activity_time",
        "suspension_status", "suspension_time", "eviction_pending", "consecutive_violations"] ["node_id"] d then
      (restoreMemberships memberships).map fun cms =>
        { nodeId := member d "node_id" .null
          karma := member d "karma" (.int 50)
          totalExperience := member d "total_experience" (.int 0)
          level := member d "level" (.str (.ofText "TRUSTEE"))
          lastEventTime := member d "last_event_time" (.float (.finite 0))
          lastActivityTime := member d "last_activity_time" (.float (.finite 0))
          suspensionStatus := member d "suspension_status" (.bool false)
          suspensionTime := member d "suspension_time" .null
          evictionPending := member d "eviction_pending" (.bool false)
          consecutiveViolations := member d "consecutive_violations" (.int 0)
          clusterMemberships := cms }
    else none
  | _ => none

/-! ## Loading -/

/-- The attributes `load` sets. A set is its elements, and the log the entries of its dict, as they come. -/
structure Restored where
  scores : Dict PyStr RawScore := Dict.empty
  eventLog : List (PyJson × PyJson) := []
  suspensionQueue : PyJson := .obj []
  evictionQueue : List PyJson := []
  clusters : Dict PyStr (List PyJson) := Dict.empty

def Restored.putScore (nodeId : PyStr) (sc : RawScore) (st : Restored) : Restored :=
  { st with scores := st.scores.set nodeId sc }

def Restored.putCluster (cid : PyStr) (nids : List PyJson) (st : Restored) : Restored :=
  { st with clusters := st.clusters.set cid nids }

/-- The loop over `v.items()`, which raises if there are none to be had. -/
def itemUpdates {α : Type} (restore : PyJson → Option α) (put : PyStr → α → Restored → Restored) :
    PyJson → List (Option (Restored → Restored))
  | .obj members => (entriesOf members).map fun e => (restore e.2).map (put e.1)
  | _ => [none]

/-- What `load` reads of the file's dict. -/
structure Parts where
  scores : PyJson
  eventLog : PyJson
  suspensionQueue : PyJson
  evictionQueue : PyJson
  clusters : PyJson

def partsOf (d : Dict PyStr PyJson) : Parts where
  scores := member d "scores" (.obj [])
  eventLog := member d "event_log" (.obj [])
  suspensionQueue := member d "suspension_queue" (.obj [])
  evictionQueue := member d "eviction_queue" (.arr [])
  clusters := member d "clusters" (.obj [])

/-- The log and the queues. -/
def Parts.middle (p : Parts) : List (Option (Restored → Restored)) :=
  [p.eventLog.dict?.map fun log st => { st with eventLog := log },
    some fun st => { st with suspensionQueue := p.suspensionQueue },
    p.evictionQueue.set?.map fun nids st => { st with evictionQueue := nids }]

/-- The assignments of `load`, in order. -/
def Parts.updates (p : Parts) : List (Option (Restored → Restored)) :=
  itemUpdates restoreScore Restored.putScore p.scores ++ p.middle ++ itemUpdates PyJson.set? Restored.putCluster p.clusters

/-- The parts, if the file has a dict. -/
def StateFile.parts? : StateFile → Option Parts
  | .document (.obj members) => some (partsOf (Dict.ofList members))
  | _ => none

/-- The constructor's `load`: without a dict `data.get` raises at once. -/
def load (file : StateFile) : Restored :=
  match file.parts? with
  | some p => attempt p.updates {}
  | none => {}

/-! ## Participation -/

/-- `is_suspended`; none if it raises. -/
def RawScore.isSuspended (sc : RawScore) (now : Rat) : Option Bool :=
  if sc.suspensionStatus.truthy then
    match sc.suspensionTime with
    | .null => some true
    | since => since.toFloat?.map fun since => !since.olderThan 86400 now
  else some false

/-- `can_participate` of a node that is not in the eviction queue; none if it raises. -/
def RawScore.canParticipate (sc : RawScore) (now : Rat) : Option Bool :=
  match sc.isSuspended now with
  | none => none
  | some true => some false
  | some false => sc.karma.nonpositive?.map (!·)

/-- `can_participate`'s answer; a node without a score gets a fresh one. -/
def Restored.canParticipate (st : Restored) (nodeId : PyStr) (now : Rat) : Option Bool :=
  if st.evictionQueue.any (·.isStr nodeId) then some false
  else (st.scores.getD nodeId { nodeId := .str nodeId }).canParticipate now

/-! ## What a file is loaded as -/

variable {α : Type} {restore : PyJson → Option α} {v : PyJson} {p : Parts} {n : PyStr}

/-- Every item of the value is restored under its key, in order, and nothing else. -/
def Records (restore : PyJson → Option α) (v : PyJson) (d : Dict PyStr α) : Prop :=
  ∃ members, v = .obj members ∧
    (entriesOf members).map (fun e => (e.1, restore e.2)) = d.entries.map fun e => (e.1, some e.2)

/-- Scores, log, queues and clusters are as recorded. -/
structure Complete (p : Parts) (st : Restored) : Prop where
  scores : Records restoreScore p.scores st.scores
  eventLog : p.eventLog.dict? = some st.eventLog
  suspensionQueue : st.suspensionQueue = p.suspensionQueue
  evictionQueue : p.evictionQueue.set? = some st.evictionQueue
  clusters : Records PyJson.set? p.clusters st.clusters

/-- There is a score recorded for the node that has `eviction_pending`. -/
def Parts.Pending (p : Parts) (nodeId : PyStr) : Prop :=
  ∃ members fields, p.scores = .obj members ∧ (nodeId, .obj fields) ∈ entriesOf members ∧
    (member (Dict.ofList fields) "eviction_pending" (.bool false)).truthy = true

/-- The file is restored whole or not at all, and whoever it records as to be evicted may not participate. -/
structure LoadsWhole (file : StateFile) : Prop where
  whole : load file = {} ∨ ∃ p, file.parts? = some p ∧ Complete p (load file)
  barred : ∀ p, file.parts? = some p → ∀ nodeId, p.Pending nodeId → ∀ now, (load file).canParticipate nodeId now ≠ some true

/-! ## Well-formed parts -/

def Valid (restore : PyJson → Option α) (v : PyJson) : Prop :=
  ∃ members, v = .obj members ∧ ∀ e ∈ entriesOf members, (restore e.2).isSome

/-- There are no items to be had, or already the first one is malformed. -/
def Broken (restore : PyJson → Option α) (v : PyJson) : Prop :=
  ∀ members, v = .obj members → ∃ e es, entriesOf members = e :: es ∧ restore e.2 = none

def NoItems (v : PyJson) : Prop := ∃ members, v = .obj members ∧ entriesOf members = []

structure Parts.WellFormed (p : Parts) : Prop where
  scores : Valid restoreScore p.scores
  eventLog : p.eventLog.dict?.isSome
  evictionQueue : p.evictionQueue.set?.isSome
  clusters : Valid PyJson.set? p.clusters

/-- Some part is malformed, and before the first such there is nothing to restore. -/
def Parts.BreaksAtOnce (p : Parts) : Prop :=
  Broken restoreScore p.scores ∨
    NoItems p.scores ∧ (p.eventLog.dict? = none ∨
      p.eventLog.dict? = some [] ∧ p.suspensionQueue = .obj [] ∧ (p.evictionQueue.set? = none ∨
        p.evictionQueue.set? = some [] ∧ Broken PyJson.set? p.clusters))

/-- The score itself bars its node at every time: for its karma, or a suspension that does not end. -/
def RawScore.Bars (sc : RawScore) : Prop :=
  sc.karma.nonpositive? ≠ some false ∨
    sc.suspensionStatus.truthy = true ∧ ∀ since, sc.suspensionTime.toFloat? = some since → since = .nan ∨ since = .inf false

/-- The recorded queue or the recorded score bars the node. -/
def Parts.Bars (p : Parts) (nodeId : PyStr) : Prop :=
  (∃ nids, p.evictionQueue.set? = some nids ∧ nids.any (·.isStr nodeId) = true) ∨
    ∃ members v sc, p.scores = .obj members ∧ (nodeId, v) ∈ entriesOf members ∧ restoreScore v = some sc ∧ sc.Bars

/-- Where the file has a dict: all of it is well-formed and bars whom it records as to be evicted, or it is malformed
    before there is anything to restore and records nobody so. -/
def StateFile.Whole (file : StateFile) : Prop :=
  ∀ p, file.parts? = some p →
    p.WellFormed ∧ (∀ nodeId, p.Pending nodeId → p.Bars nodeId) ∨ p.BreaksAtOnce ∧ ∀ nodeId, ¬p.Pending nodeId

/-! ## Items -/

theorem raised_items (put : PyStr → α → Restored → Restored) : none ∈ itemUpdates restore put v ↔ ¬Valid restore v := by
  cases v with
  | obj members =>
    simp [itemUpdates, Valid, Option.isSome_iff_ne_none]
  | null => simp [itemUpdates, Valid]
  | bool b => simp [itemUpdates, Valid]
  | int m => simp [itemUpdates, Valid]
  | float f => simp [itemUpdates, Valid]
  | str s => simp [itemUpdates, Valid]
  | arr items => simp [itemUpdates, Valid]

theorem items_broken (h : Broken restore v) (put : PyStr → α → Restored → Restored) :
    ∃ us, itemUpdates restore put v = none :: us := by
  cases v with
  | obj members =>
    obtain ⟨e, es, he, hnone⟩ := h members rfl
    exact ⟨es.map fun e => (restore e.2).map (put e.1), by simp [itemUpdates, he, hnone]⟩
  | null => exact ⟨[], rfl⟩
  | bool b => exact ⟨[], rfl⟩
  | int m => exact ⟨[], rfl⟩
  | float f => exact ⟨[], rfl⟩
  | str s => exact ⟨[], rfl⟩
  | arr items => exact ⟨[], rfl⟩

theorem items_none (h : NoItems v) (put : PyStr → α → Restored → Restored) : itemUpdates restore put v = [] := by
  obtain ⟨members, rfl, he⟩ := h
  rw [itemUpdates, he, List.map_nil]

/-- Updates that put items into a dict leave it empty only if the first one raises, or there is none. -/
theorem items_of_empty (put : PyStr → α → Restored → Restored) (dict : Restored → Dict PyStr α)
    (hput : ∀ k a st, dict (put k a st) = (dict st).set k a) {st : Restored}
    (h : (dict (attempt (itemUpdates restore put v) st)).entries = []) : Broken restore v ∨ NoItems v := by
  by_cases hv : ∃ members, v = .obj members
  · obtain ⟨members, rfl⟩ := hv
    cases he : entriesOf members with
    | nil => exact .inr ⟨members, rfl, he⟩
    | cons e es =>
      refine .inl fun members' hm => ?_
      obtain rfl : members' = members := (PyJson.obj.inj hm).symm
      refine ⟨e, es, he, ?_⟩
      cases hr : restore e.2 with
      | none => rfl
      | some a =>
        rw [itemUpdates, he, List.map_cons, hr] at h
        have hset (d : Dict PyStr α) (k : PyStr) (a : α) : (d.set k a).entries ≠ [] := by
          intro hnil
          have hhas := Dict.has_set_self d k a
          rw [← Dict.mem_keys, Dict.keys, hnil] at hhas
          cases hhas
        have hkeeps : (dict (attempt (es.map fun e => (restore e.2).map (put e.1)) (put e.1 a st))).entries ≠ [] := by
          refine attempt_keeps (P := fun st => (dict st).entries ≠ []) ?_ ?_
          · intro f hf st _
            obtain ⟨e', -, hf⟩ := List.mem_map.mp hf
            obtain ⟨a', -, rfl⟩ := Option.map_eq_some_iff.mp hf
            rw [hput]
            exact hset _ _ _
          · rw [hput]
            exact hset _ _ _
        exact absurd h hkeeps
  · exact .inl fun members hm => absurd ⟨members, hm⟩ hv

/-- Items that are all well-formed are all put. -/
theorem attempt_puts {es : List (PyStr × PyJson)} (h : ∀ e ∈ es, (restore e.2).isSome)
    (put : PyStr → α → Restored → Restored) (st : Restored) :
    ∃ as : List (PyStr × α), es.map (fun e => (e.1, restore e.2)) = as.map (fun e => (e.1, some e.2)) ∧
      attempt (es.map fun e => (restore e.2).map (put e.1)) st = as.foldl (fun st e => put e.1 e.2 st) st := by
  induction es generalizing st with
  | nil => exact ⟨[], rfl, rfl⟩
  | cons e es ih =>
    obtain ⟨he, hes⟩ := List.forall_mem_cons.mp h
    obtain ⟨a, ha⟩ := Option.isSome_iff_exists.mp he
    obtain ⟨as, hmap, hfold⟩ := ih hes (put e.1 a st)
    refine ⟨(e.1, a) :: as, ?_, ?_⟩
    · rw [List.map_cons, List.map_cons, hmap, ha]
    · rw [List.map_cons, ha, List.foldl_cons, ← hfold]
      rfl

theorem records_ofList {members : List (PyStr × PyJson)} {as : List (PyStr × α)}
    (h : (entriesOf members).map (fun e => (e.1, restore e.2)) = as.map (fun e => (e.1, some e.2))) :
    Records restore (.obj members) (Dict.ofList as) := by
  have hkeys : as.map (·.1) = (entriesOf members).map (·.1) := by
    have hfst := congrArg (List.map Prod.fst) h
    rw [List.map_map, List.map_map] at hfst
    exact hfst.symm
  refine ⟨members, rfl, ?_⟩
  rw [h, Dict.entries_ofList (by rw [hkeys]; exact (Dict.ofList members).nodup)]

theorem putScores_foldl (as : List (PyStr × RawScore)) (st : Restored) :
    as.foldl (fun st e => st.putScore e.1 e.2) st = { st with scores := as.foldl (fun d e => d.set e.1 e.2) st.scores } := by
  induction as generalizing st with
  | nil => rfl
  | cons a as ih => exact ih _

theorem putClusters_foldl (as : List (PyStr × List PyJson)) (st : Restored) :
    as.foldl (fun st e => st.putCluster e.1 e.2) st =
      { st with clusters := as.foldl (fun d e => d.set e.1 e.2) st.clusters } := by
  induction as generalizing st with
  | nil => rfl
  | cons a as ih => exact ih _

/-! ## Whole or not at all -/

theorem attempt_wellFormed (h : p.WellFormed) : Complete p (attempt p.updates {}) := by
  obtain ⟨⟨scores, hscores, hvalid⟩, hlog, hnids, ⟨clusters, hclusters, hvalid'⟩⟩ := h
  obtain ⟨log, hlog⟩ := Option.isSome_iff_exists.mp hlog
  obtain ⟨nids, hnids⟩ := Option.isSome_iff_exists.mp hnids
  obtain ⟨as, hmap, hfold⟩ := attempt_puts hvalid Restored.putScore {}
  have hraised : none ∉ itemUpdates restoreScore Restored.putScore p.scores := by
    rw [raised_items, not_not]
    exact ⟨scores, hscores, hvalid⟩
  have hmiddle : p.middle = [some fun st => { st with eventLog := log },
      some fun st => { st with suspensionQueue := p.suspensionQueue }, some fun st => { st with evictionQueue := nids }] := by
    rw [Parts.middle, hlog, hnids]
    rfl
  obtain ⟨bs, hmap', hfold'⟩ := attempt_puts hvalid' Restored.putCluster
    { ({} : Restored) with
      scores := Dict.ofList as
      eventLog := log
      suspensionQueue := p.suspensionQueue
      evictionQueue := nids }
  have hload : attempt p.updates {} = ⟨Dict.ofList as, log, p.suspensionQueue, nids, Dict.ofList bs⟩ := by
    rw [Parts.updates, List.append_assoc, attempt_append hraised, hscores, itemUpdates, hfold, putScores_foldl, hmiddle]
    show attempt (itemUpdates PyJson.set? Restored.putCluster p.clusters) _ = _
    rw [hclusters]
    refine hfold'.trans ?_
    rw [putClusters_foldl]
    rfl
  rw [hload]
  refine ⟨?_, hlog, rfl, hnids, ?_⟩
  · rw [hscores]
    exact records_ofList hmap
  · rw [hclusters]
    exact records_ofList hmap'

theorem valid_of_records {d : Dict PyStr α} (h : Records restore v d) : Valid restore v := by
  obtain ⟨members, rfl, hmap⟩ := h
  refine ⟨members, rfl, ?_⟩
  intro e he
  have hmem : (e.1, restore e.2) ∈ d.entries.map fun e => (e.1, some e.2) := by
    rw [← hmap]
    exact List.mem_map_of_mem he
  obtain ⟨e', -, heq⟩ := List.mem_map.mp hmem
  rw [← (Prod.mk.inj heq).2]
  rfl

theorem Complete.wellFormed {st : Restored} (h : Complete p st) : p.WellFormed where
  scores := valid_of_records h.scores
  eventLog := by rw [h.eventLog]; rfl
  evictionQueue := by rw [h.evictionQueue]; rfl
  clusters := valid_of_records h.clusters

theorem attempt_breaks (h : p.BreaksAtOnce) : attempt p.updates {} = {} := by
  unfold Parts.updates
  rcases h with h | ⟨hnone, h⟩
  · obtain ⟨us, hus⟩ := items_broken h Restored.putScore
    rw [hus]
    rfl
  · rw [items_none hnone, List.nil_append, Parts.middle]
    rcases h with hlog | ⟨hlog, hq, hnids | ⟨hnids, hclusters⟩⟩
    · rw [hlog]
      rfl
    · rw [hlog, hnids, hq]
      rfl
    · obtain ⟨us, hus⟩ := items_broken hclusters Restored.putCluster
      rw [hlog, hnids, hq, hus]
      rfl

/-- The loop over the clusters leaves the rest alone. -/
theorem attempt_clusters (v : PyJson) (st : Restored) :
    ∃ clusters, attempt (itemUpdates PyJson.set? Restored.putCluster v) st = { st with clusters := clusters } := by
  refine attempt_keeps (P := fun st' => ∃ clusters, st' = { st with clusters := clusters }) ?_ ⟨st.clusters, rfl⟩
  intro f hf st' hst'
  obtain ⟨clusters, rfl⟩ := hst'
  cases v with
  | obj members =>
    obtain ⟨e, -, hf⟩ := List.mem_map.mp hf
    obtain ⟨nids, -, rfl⟩ := Option.map_eq_some_iff.mp hf
    exact ⟨_, rfl⟩
  | _ => simp [itemUpdates] at hf

/-- What comes after the scores leaves them alone. -/
theorem attempt_rest_scores (p : Parts) (st : Restored) :
    (attempt (p.middle ++ itemUpdates PyJson.set? Restored.putCluster p.clusters) st).scores = st.scores := by
  have hclusters (st : Restored) :
      (attempt (itemUpdates PyJson.set? Restored.putCluster p.clusters) st).scores = st.scores := by
    obtain ⟨_, h⟩ := attempt_clusters p.clusters st
    rw [h]
  rw [Parts.middle]
  cases p.eventLog.dict? with
  | none => rfl
  | some log =>
    cases p.evictionQueue.set? with
    | none => rfl
    | some nids => exact hclusters _

theorem valid_of_noItems (h : NoItems v) (restore : PyJson → Option α) : Valid restore v := by
  obtain ⟨members, hv, he⟩ := h
  exact ⟨members, hv, by simp [he]⟩

/-- Where nothing is restored of a malformed file, the first part that is malformed comes before anything to restore. -/
theorem breaks_of_empty (h : attempt p.updates {} = {}) (hmalformed : ¬p.WellFormed) : p.BreaksAtOnce := by
  rw [Parts.updates, List.append_assoc] at h
  have hscores : Broken restoreScore p.scores ∨ NoItems p.scores := by
    have hempty : (attempt (itemUpdates restoreScore Restored.putScore p.scores) {}).scores.entries = [] := by
      by_cases hraised : none ∈ itemUpdates restoreScore Restored.putScore p.scores
      · rw [attempt_append_raised hraised] at h
        rw [h]
        rfl
      · rw [attempt_append hraised] at h
        rw [← attempt_rest_scores, h]
        rfl
    exact items_of_empty Restored.putScore Restored.scores (fun _ _ _ => rfl) hempty
  rcases hscores with hscores | hscores
  · exact .inl hscores
  · refine .inr ⟨hscores, ?_⟩
    rw [items_none hscores, List.nil_append, Parts.middle] at h
    cases hlog : p.eventLog.dict? with
    | none => exact .inl rfl
    | some log =>
      rw [hlog] at h
      cases hnids : p.evictionQueue.set? with
      | none =>
        rw [hnids] at h
        obtain rfl : log = [] := congrArg Restored.eventLog h
        exact .inr ⟨rfl, congrArg Restored.suspensionQueue h, .inl rfl⟩
      | some nids =>
        rw [hnids] at h
        change attempt (itemUpdates PyJson.set? Restored.putCluster p.clusters)
          { ({} : Restored) with eventLog := log, suspensionQueue := p.suspensionQueue, evictionQueue := nids } = {} at h
        have hclusters := items_of_empty Restored.putCluster Restored.clusters (fun _ _ _ => rfl)
          (congrArg (fun st => st.clusters.entries) h)
        obtain ⟨_, hframe⟩ := attempt_clusters p.clusters
          { ({} : Restored) with eventLog := log, suspensionQueue := p.suspensionQueue, evictionQueue := nids }
        rw [h] at hframe
        obtain rfl : [] = log := congrArg Restored.eventLog hframe
        obtain rfl : [] = nids := congrArg Restored.evictionQueue hframe
        refine .inr ⟨rfl, (congrArg Restored.suspensionQueue hframe).symm, .inr ⟨rfl, ?_⟩⟩
        rcases hclusters with hclusters | hclusters
        · exact hclusters
        · exact absurd ⟨valid_of_noItems hscores _, by rw [hlog]; rfl, by rw [hnids]; rfl, valid_of_noItems hclusters _⟩
            hmalformed

/-! ## Whom a file bars -/

theorem isSuspended_since {sc : RawScore} (hs : sc.suspensionStatus.truthy = true) {since : PyFloat}
    (ht : sc.suspensionTime.toFloat? = some since) (now : Rat) :
    sc.isSuspended now = some !since.olderThan 86400 now := by
  rw [RawScore.isSuspended, if_pos hs]
  cases htime : sc.suspensionTime with
  | null =>
    rw [htime] at ht
    cases ht
  | _ =>
    rw [htime] at ht
    simp only [ht, Option.map_some]

theorem isSuspended_no_since {sc : RawScore} (hs : sc.suspensionStatus.truthy = true)
    (ht : sc.suspensionTime.toFloat? = none) (now : Rat) : sc.isSuspended now ≠ some false := by
  rw [RawScore.isSuspended, if_pos hs]
  cases htime : sc.suspensionTime with
  | null => simp
  | _ =>
    rw [htime] at ht
    simp [ht]

/-- Who is neither suspended nor without karma. -/
theorem canParticipate_eq_true_iff (sc : RawScore) (now : Rat) :
    sc.canParticipate now = some true ↔ sc.isSuspended now = some false ∧ sc.karma.nonpositive? = some false := by
  unfold RawScore.canParticipate
  cases sc.isSuspended now with
  | none => simp
  | some suspended =>
    cases suspended with
    | true => simp
    | false =>
      cases sc.karma.nonpositive? with
      | none => simp
      | some b => simp

theorem score_bars_iff (sc : RawScore) : (∀ now, sc.canParticipate now ≠ some true) ↔ sc.Bars := by
  constructor
  · intro h
    by_cases hk : sc.karma.nonpositive? = some false
    · have hsuspended (now : Rat) : sc.isSuspended now ≠ some false := fun hs =>
        h now ((canParticipate_eq_true_iff sc now).mpr ⟨hs, hk⟩)
      cases hs : sc.suspensionStatus.truthy with
      | false => exact absurd (if_neg (by rw [hs]; decide)) (hsuspended 0)
      | true =>
        refine .inr ⟨hs, ?_⟩
        intro since ht
        cases since with
        | nan => exact .inl rfl
        | inf negative =>
          cases negative with
          | false => exact .inr rfl
          | true => exact absurd (isSuspended_since hs ht 0) (hsuspended 0)
        | finite q =>
          -- a day and a second after it
          refine absurd ((isSuspended_since hs ht (q + 86401)).trans ?_) (hsuspended (q + 86401))
          have hover : decide (q + 86401 - q > 86400) = true := by
            rw [add_sub_cancel_left]
            decide +kernel
          rw [PyFloat.olderThan, hover]
          rfl
    · exact .inl hk
  · rintro (hk | ⟨hs, ht⟩) now hcan
    · exact hk ((canParticipate_eq_true_iff sc now).mp hcan).2
    · have hfree := ((canParticipate_eq_true_iff sc now).mp hcan).1
      cases htime : sc.suspensionTime.toFloat? with
      | none => exact isSuspended_no_since hs htime now hfree
      | some since =>
        rw [isSuspended_since hs htime] at hfree
        rcases ht since htime with rfl | rfl
        · cases hfree
        · cases hfree

/-- A file records one score for a node, the last. -/
theorem recorded_bars_iff {members : List (PyStr × PyJson)} {v : PyJson} {sc : RawScore} (hscores : p.scores = .obj members)
    (hmem : (n, v) ∈ entriesOf members) (hrestore : restoreScore v = some sc) :
    (∃ members v sc, p.scores = .obj members ∧ (n, v) ∈ entriesOf members ∧ restoreScore v = some sc ∧ sc.Bars) ↔ sc.Bars := by
  constructor
  · rintro ⟨members', v', sc', hscores', hmem', hrestore', hbars⟩
    obtain rfl : members = members' := PyJson.obj.inj (hscores.symm.trans hscores')
    obtain rfl : v = v' := Option.some.inj ((Dict.mem_entries.mp hmem).symm.trans (Dict.mem_entries.mp hmem'))
    obtain rfl : sc = sc' := Option.some.inj (hrestore.symm.trans hrestore')
    exact hbars
  · intro hbars
    exact ⟨members, v, sc, hscores, hmem, hrestore, hbars⟩

/-- Of a node whose score is recorded, once everything is restored. -/
theorem complete_bars_iff {st : Restored} (h : Complete p st) (hn : p.Pending n) :
    (∀ now, st.canParticipate n now ≠ some true) ↔ p.Bars n := by
  obtain ⟨members, fields, hscores, hmem, -⟩ := hn
  obtain ⟨members', hscores', hmap⟩ := h.scores
  obtain rfl : members = members' := PyJson.obj.inj (hscores.symm.trans hscores')
  have hrecorded : (n, restoreScore (.obj fields)) ∈ st.scores.entries.map fun e => (e.1, some e.2) := by
    rw [← hmap]
    exact List.mem_map_of_mem (f := fun e => (e.1, restoreScore e.2)) hmem
  obtain ⟨⟨k, sc⟩, hsc, heq⟩ := List.mem_map.mp hrecorded
  obtain ⟨rfl, hrestore⟩ := Prod.mk.inj heq
  have hscore : st.scores.getD k { nodeId := .str k } = sc := by rw [Dict.getD, Dict.mem_entries.mp hsc, Option.getD_some]
  have hqueue : (∃ nids, p.evictionQueue.set? = some nids ∧ nids.any (·.isStr k) = true) ↔
      st.evictionQueue.any (·.isStr k) = true := by
    rw [h.evictionQueue]
    simp
  rw [Parts.Bars, hqueue, recorded_bars_iff hscores hmem hrestore.symm, ← score_bars_iff]
  simp only [Restored.canParticipate, hscore]
  by_cases hq : st.evictionQueue.any (·.isStr k) = true
  · simp [hq]
  · simp [hq]

/-! ## Files -/

theorem fresh_participates (n : PyStr) (now : Rat) : ({} : Restored).canParticipate n now = some true := rfl

theorem loadsWhole_none {file : StateFile} (hp : file.parts? = none) : LoadsWhole file := by
  refine ⟨.inl (by rw [load, hp]), ?_⟩
  intro p hp'
  rw [hp] at hp'
  cases hp'

theorem loadsWhole_some {file : StateFile} (hp : file.parts? = some p) :
    LoadsWhole file ↔ (attempt p.updates {} = {} ∨ Complete p (attempt p.updates {})) ∧
      ∀ n, p.Pending n → ∀ now, (attempt p.updates {}).canParticipate n now ≠ some true := by
  have hload : load file = attempt p.updates {} := by rw [load, hp]
  have hparts {p' : Parts} (hp' : file.parts? = some p') : p = p' := Option.some.inj (hp.symm.trans hp')
  rw [← hload]
  constructor
  · rintro ⟨hw, hbarred⟩
    refine ⟨hw.imp_right ?_, fun n hn => hbarred p hp n hn⟩
    rintro ⟨p', hp', hcomplete⟩
    rwa [hparts hp']
  · rintro ⟨hw, hbarred⟩
    refine ⟨hw.imp_right fun hcomplete => ⟨p, hp, hcomplete⟩, ?_⟩
    intro p' hp' n hn
    obtain rfl := hparts hp'
    exact hbarred n hn

theorem whole_some {file : StateFile} (hp : file.parts? = some p) :
    file.Whole ↔ p.WellFormed ∧ (∀ nodeId, p.Pending nodeId → p.Bars nodeId) ∨
      p.BreaksAtOnce ∧ ∀ nodeId, ¬p.Pending nodeId := by
  rw [StateFile.Whole, hp]
  simp

/-- A file is restored whole or not at all, and bars whom it records as to be evicted, exactly if all of it is well-formed
    and does so, or it is malformed before there is anything to restore and records nobody. -/
theorem loads_whole_iff (file : StateFile) : LoadsWhole file ↔ file.Whole := by
  cases hp : file.parts? with
  | none =>
    refine iff_of_true (loadsWhole_none hp) ?_
    intro p hp'
    rw [hp] at hp'
    cases hp'
  | some p =>
    rw [loadsWhole_some hp, whole_some hp]
    constructor
    · rintro ⟨hw, hbarred⟩
      by_cases hwf : p.WellFormed
      · have hcomplete := attempt_wellFormed hwf
        exact .inl ⟨hwf, fun n hn => (complete_bars_iff hcomplete hn).mp (hbarred n hn)⟩
      · have hempty : attempt p.updates {} = {} := hw.resolve_right fun hcomplete => hwf hcomplete.wellFormed
        refine .inr ⟨breaks_of_empty hempty hwf, fun n hn => ?_⟩
        refine hbarred n hn 0 ?_
        rw [hempty]
        exact fresh_participates n 0
    · rintro (⟨hwf, hbars⟩ | ⟨hbreaks, hnobody⟩)
      · have hcomplete := attempt_wellFormed hwf
        exact ⟨.inr hcomplete, fun n hn => (complete_bars_iff hcomplete hn).mpr (hbars n hn)⟩
      · exact ⟨.inl (attempt_breaks hbreaks), fun n hn => absurd hn (hnobody n)⟩

/-- A score with `eviction_pending`, and a number for the eviction queue. -/
def halfParts : Parts where
  scores := .obj [(.ofText "node", .obj [(.ofText "node_id", .str (.ofText "node")), (.ofText "eviction_pending", .bool true)])]
  eventLog := .obj []
  suspensionQueue := .obj []
  evictionQueue := .int 5
  clusters := .obj []

/-- The score is restored, the queue is not, and the node may participate. -/
theorem partial_load_admits : ¬∀ file, LoadsWhole file := by
  intro h
  have hparts : (StateFile.document (.obj [(.ofText "scores", halfParts.scores), (.ofText "eviction_queue", .int 5)])).parts? =
      some halfParts := rfl
  have hpending : halfParts.Pending (.ofText "node") :=
    ⟨_, [(.ofText "node_id", .str (.ofText "node")), (.ofText "eviction_pending", .bool true)], rfl,
      List.mem_singleton.mpr rfl, by decide +kernel⟩
  exact (h _).barred _ hparts _ hpending 0 (by decide +kernel)

end PyxelVM.Karma
