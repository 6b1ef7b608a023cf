/-
  PyxelVM.Karma.System — `ZDXKarmaSystem` (`zdx_karma_system.py`).

  A call reads the clock at `now`; all its readings are that one. Times and masses are
  exact rationals, but an election may be held by other masses too. A set of node ids is a `Finset`; a call that iterates over one takes
  the order its process gives (`SetOrder`). `Memory` is what the running system holds,
  `Saved` what `save` wrote last: JSON gives back what was stored, so a restart reads
  the saved memory. An `Op` is one call, or a restart; `reached` is the system after a
  run of them from an empty directory.

  `is_suspended` is a property with an effect: it lifts a suspension older than a day,
  so every reader of it returns the score or memory it leaves. `mass` has none, since it
  reads `is_suspended` of scores that are not suspended. What the calls print is left
  out: `print_leaderboard` changes nothing, and `print_node_status` and
  `print_cluster_leaderboard` change what `can_participate` and `get_score` change.
-/

import Mathlib.Data.Finset.Card
import PyxelVM.Lib.Decimal
import PyxelVM.Lib.Dict
import PyxelVM.Lib.Trace

namespace PyxelVM.Karma

open PyxelVM.Lib

/-! ## Events and levels -/

inductive KarmaEvent where
  | validContribution
  | correctComputation
  | computeCycleCompleted
  | uptimeHeartbeat
  | peerValidation
  | frameSyncSuccess
  | authFailure
  | replayAttackAttempt
  | signatureForgery
  | dosAttempt
  | revocationViolation
  | malformedPacket
  | timeoutViolation
  | enrollmentAbuse
  | computationFraud
  | stateCorruption
  | heartbeat
  | routineOperation
  | inactivityDecay
  deriving DecidableEq, Repr

def KarmaEvent.value : KarmaEvent → String
  | .validContribution => "valid_contribution"
  | .correctComputation => "correct_computation"
  | .computeCycleCompleted => "compute_cycle_completed"
  | .uptimeHeartbeat => "uptime_heartbeat"
  | .peerValidation => "peer_validation"
  | .frameSyncSuccess => "frame_sync_success"
  | .authFailure => "auth_failure"
  | .replayAttackAttempt => "replay_attack"
  | .signatureForgery => "signature_forgery"
  | .dosAttempt => "dos_attempt"
  | .revocationViolation => "revocation_violation"
  | .malformedPacket => "malformed_packet"
  | .timeoutViolation => "timeout_violation"
  | .enrollmentAbuse => "enrollment_abuse"
  | .computationFraud => "computation_fraud"
  | .stateCorruption => "state_corruption"
  | .heartbeat => "heartbeat"
  | .routineOperation => "routine_operation"
  | .inactivityDecay => "inactivity_decay"

structure Adjustment where
  karma : Int
  xp : Int
  deriving DecidableEq, Repr

/-- `KARMA_ADJUSTMENTS`, with the default of its `get`. -/
def karmaAdjustments : KarmaEvent → Adjustment
  | .validContribution => ⟨10, 15⟩
  | .correctComputation => ⟨5, 10⟩
  | .computeCycleCompleted => ⟨8, 20⟩
  | .uptimeHeartbeat => ⟨1, 1⟩
  | .peerValidation => ⟨3, 5⟩
  | .frameSyncSuccess => ⟨2, 3⟩
  | .authFailure => ⟨-5, 0⟩
  | .replayAttackAttempt => ⟨-20, -10⟩
  | .signatureForgery => ⟨-50, -25⟩
  | .dosAttempt => ⟨-30, -15⟩
  | .revocationViolation => ⟨-100, 0⟩
  | .malformedPacket => ⟨-3, 0⟩
  | .timeoutViolation => ⟨-2, 0⟩
  | .enrollmentAbuse => ⟨-25, -10⟩
  | .computationFraud => ⟨-40, -20⟩
  | .stateCorruption => ⟨-60, -30⟩
  | .heartbeat => ⟨0, 0⟩
  | .routineOperation => ⟨0, 0⟩
  | .inactivityDecay => ⟨0, 0⟩

inductive NodeLevel where
  | trustee
  | contributor
  | validator
  | sentinel
  | master
  deriving DecidableEq, Repr

def NodeLevel.minXp : NodeLevel → Int
  | .trustee => 0
  | .contributor => 100
  | .validator => 1000
  | .sentinel => 10000
  | .master => 100000

def NodeLevel.massMultiplier : NodeLevel → Rat
  | .trustee => 1
  | .contributor => 3 / 2
  | .validator => 5 / 2
  | .sentinel => 4
  | .master => 6

def inactivityDecayPeriod : Rat := 604800
/-- `INACTIVITY_DECAY_RATE`, in percent. -/
def inactivityDecayPercent : Int := 15
def clusterSize : Nat := 100

/-! ## Scores -/

structure ClusterMembership where
  clusterId : String
  joinedAt : Rat
  lastActive : Rat
  cyclesCompleted : Int := 0
  cyclesInProgress : Int := 0
  deriving DecidableEq

structure KarmaScore where
  nodeId : String
  karma : Int := 50
  totalExperience : Int := 0
  level : NodeLevel := .trustee
  lastEventTime : Rat := 0
  lastActivityTime : Rat := 0
  suspensionStatus : Bool := false
  suspensionTime : Option Rat := none
  evictionPending : Bool := false
  consecutiveViolations : Int := 0
  clusterMemberships : Dict String ClusterMembership := Dict.empty
  deriving DecidableEq

/-- `is_suspended`, and the score it leaves: a suspension older than a day is lifted. -/
def KarmaScore.isSuspended (sc : KarmaScore) (now : Rat) : Bool × KarmaScore :=
  if !sc.suspensionStatus then (false, sc)
  else
    match sc.suspensionTime with
    | none => (true, sc)
    | some t =>
      if now - t > 86400 then (false, { sc with suspensionStatus := false, consecutiveViolations := 0 })
      else (true, sc)

/-- `mass`, which reads `is_suspended` only where `suspension_status` is false. -/
def KarmaScore.mass (sc : KarmaScore) : Rat :=
  if sc.suspensionStatus then 0
  else sc.level.massMultiplier * sc.totalExperience * max (1 / 10) (sc.karma / 100)

structure KarmaEventRecord where
  nodeId : String
  eventType : String
  karmaDelta : Int
  xpDelta : Int
  timestamp : Rat
  reason : String
  severity : String
  deriving DecidableEq

/-! ## The system -/

structure Memory where
  scores : Dict String KarmaScore := Dict.empty
  eventLog : Dict String (List KarmaEventRecord) := Dict.empty
  suspensionQueue : Dict String Rat := Dict.empty
  evictionQueue : Finset String := ∅
  clusters : Dict String (Finset String) := Dict.empty

structure Saved where
  memory : Memory
  savedAt : Rat

structure System where
  memory : Memory := {}
  /-- The persistence file, if it exists. -/
  file : Option Saved := none

/-- The order in which a process iterates over its sets. -/
structure SetOrder where
  list : Finset String → List String
  nodup : ∀ s, (list s).Nodup
  mem : ∀ s n, n ∈ list s ↔ n ∈ s

/-- `self.clusters[cluster_id]`, read. -/
def Memory.cluster (m : Memory) (clusterId : String) : Finset String := m.clusters.getD clusterId ∅

/-- The node's score, or the fresh one its first use makes. -/
def Memory.scoreOf (m : Memory) (nodeId : String) : KarmaScore := m.scores.getD nodeId { nodeId := nodeId }

/-- `get_score`: the entry exists afterwards. -/
def Memory.getScore (m : Memory) (nodeId : String) : Memory :=
  if m.scores.has nodeId then m else { m with scores := m.scores.set nodeId { nodeId := nodeId } }

def Memory.setScore (m : Memory) (nodeId : String) (sc : KarmaScore) : Memory :=
  { m with scores := m.scores.set nodeId sc }

def System.setScore (s : System) (nodeId : String) (sc : KarmaScore) : System :=
  { s with memory := s.memory.setScore nodeId sc }

/-- `save`. -/
def System.save (s : System) (now : Rat) : System := { s with file := some ⟨s.memory, now⟩ }

/-- `load` by a new system on the same path. -/
def System.load (s : System) : System := { s with memory := s.file.elim {} Saved.memory }

def computeLevel (experience : Int) : NodeLevel :=
  (([.master, .sentinel, .validator, .contributor, .trustee] : List NodeLevel).find? fun l => l.minXp ≤ experience).getD
    .trustee

/-! ## Clusters -/

def System.leaveCluster (s : System) (nodeId clusterId : String) (now : Rat) : Bool × System :=
  if !s.memory.scores.has nodeId then (false, s)
  else
    let score := s.memory.scoreOf nodeId
    if score.clusterMemberships.has clusterId then
      let m := s.memory.setScore nodeId { score with clusterMemberships := score.clusterMemberships.erase clusterId }
      let m := { m with clusters := m.clusters.set clusterId ((m.cluster clusterId).erase nodeId) }
      (true, { s with memory := m }.save now)
    else (false, s)

/-! ## Suspension and eviction -/

def System.suspendNode (s : System) (nodeId : String) (now : Rat) : System :=
  if !s.memory.scores.has nodeId then s
  else
    let m := s.memory.setScore nodeId { s.memory.scoreOf nodeId with suspensionStatus := true, suspensionTime := some now }
    { s with memory := { m with suspensionQueue := m.suspensionQueue.set nodeId now } }

def System.markEviction (s : System) (nodeId : String) (now : Rat) : System :=
  if !s.memory.scores.has nodeId then s
  else
    let m := s.memory.setScore nodeId { s.memory.scoreOf nodeId with evictionPending := true }
    let s := { s with memory := { m with evictionQueue := insert nodeId m.evictionQueue } }
    (s.memory.scoreOf nodeId).clusterMemberships.keys.foldl (fun s clusterId => (s.leaveCluster nodeId clusterId now).2) s

inductive Status where
  | evicted
  | suspended (remaining : Rat)
  | criticalKarma (karma : Int)
  | active
  deriving DecidableEq

def Status.message : Status → String
  | .evicted => "EVICTED"
  | .suspended remaining => s!"SUSPENDED ({fixed 0 remaining}s remaining)"
  | .criticalKarma karma => s!"CRITICAL KARMA (karma={karma})"
  | .active => "ACTIVE"

/-- `can_participate`: the answer, its message, and the memory it leaves. -/
def Memory.canParticipate (m : Memory) (nodeId : String) (now : Rat) : (Bool × Status) × Memory :=
  let m := m.getScore nodeId
  let score := m.scoreOf nodeId
  if nodeId ∈ m.evictionQueue then ((false, .evicted), m)
  else
    let r := score.isSuspended now
    let m := m.setScore nodeId r.2
    if r.1 then
      -- `score.suspension_time or time.time()`: zero counts as no time
      let since := match score.suspensionTime with
        | some t => if t = 0 then now else t
        | none => now
      ((false, .suspended (86400 - (now - since))), m)
    else if score.karma ≤ 0 then ((false, .criticalKarma score.karma), m)
    else ((true, .active), m)

/-! ## Events -/

/-- Append to `event_log[node_id]`. -/
def Memory.logEvent (m : Memory) (nodeId : String) (r : KarmaEventRecord) : Memory :=
  { m with eventLog := m.eventLog.set nodeId (m.eventLog.getD nodeId [] ++ [r]) }

/-- The score after the event's adjustment, before suspension and eviction. -/
def KarmaScore.adjusted (sc : KarmaScore) (eventType : KarmaEvent) (now : Rat) : KarmaScore :=
  let adj := karmaAdjustments eventType
  let xp := max 0 (sc.totalExperience + adj.xp)
  { sc with
    karma := max 0 (min 100 (sc.karma + adj.karma))
    totalExperience := xp
    lastEventTime := now
    lastActivityTime := now
    level := computeLevel xp
    consecutiveViolations := if adj.karma < 0 then sc.consecutiveViolations + 1 else sc.consecutiveViolations }

def System.reportEvent (s : System) (nodeId : String) (eventType : KarmaEvent) (reason severity : String) (now : Rat) : System :=
  let adj := karmaAdjustments eventType
  let score := (s.memory.scoreOf nodeId).adjusted eventType now
  let s := s.setScore nodeId score
  let s := if score.karma ≤ 0 then s.suspendNode nodeId now
    else if score.consecutiveViolations ≥ 3 ∧ severity = "severe" then s.suspendNode nodeId now
    else s
  let s := if score.karma ≤ -50 ∨ eventType = .revocationViolation then s.markEviction nodeId now else s
  let m := s.memory.logEvent nodeId ⟨nodeId, eventType.value, adj.karma, adj.xp, now, reason, severity⟩
  { s with memory := m }.save now

/-- One period's loss: fifteen percent, rounded down; so is `int(xp * 0.15)` of any experience below 2^48. -/
def decayOnce (xp : Int) : Int := max 0 (xp - xp * inactivityDecayPercent / 100)

/-- The experience lost, and the system after. -/
def System.applyInactivityDecay (s : System) (nodeId : String) (now : Rat) : Int × System :=
  match s.memory.scores.get? nodeId with
  | none => (0, s)
  | some score =>
    let idle := now - score.lastActivityTime
    if idle < inactivityDecayPeriod then (0, s)
    else
      let periods := (idle / inactivityDecayPeriod).floor.toNat
      let xp := decayOnce^[periods] score.totalExperience
      let loss := score.totalExperience - xp
      let s := s.setScore nodeId { score with totalExperience := xp, level := computeLevel xp }
      if loss > 0 then
        let reason := s!"Inactivity decay ({periods} period(s), {inactivityDecayPercent}% loss)"
        let m := s.memory.logEvent nodeId ⟨nodeId, KarmaEvent.inactivityDecay.value, 0, -loss, now, reason, "moderate"⟩
        (loss, { s with memory := m }.save now)
      else (loss, s)

/-- Enter the cluster in both places: the score's memberships and the roster. -/
def System.addMember (s : System) (nodeId clusterId : String) (now : Rat) : System :=
  let score := s.memory.scoreOf nodeId
  let m := s.memory.setScore nodeId
    { score with clusterMemberships := score.clusterMemberships.set clusterId ⟨clusterId, now, now, 0, 0⟩ }
  { s with memory := { m with clusters := m.clusters.set clusterId (insert nodeId (m.cluster clusterId)) } }

/-- The membership's activity time, and its cycles if one was completed. -/
def System.touchMembership (s : System) (nodeId clusterId : String) (cycleCompleted : Bool) (now : Rat) : System :=
  let score := s.memory.scoreOf nodeId
  s.setScore nodeId { score with clusterMemberships := score.clusterMemberships.modify clusterId fun cm =>
    { cm with
      lastActive := now
      cyclesCompleted := if cycleCompleted then cm.cyclesCompleted + 1 else cm.cyclesCompleted } }

def System.registerClusterActivity (s : System) (nodeId clusterId : String) (cycleCompleted : Bool) (now : Rat) : System :=
  let s := { s with memory := s.memory.getScore nodeId }
  let s := if (s.memory.scoreOf nodeId).clusterMemberships.has clusterId then s else s.addMember nodeId clusterId now
  let s := s.touchMembership nodeId clusterId cycleCompleted now
  let s := if cycleCompleted then
      s.reportEvent nodeId .computeCycleCompleted s!"Completed compute cycle in cluster {clusterId}" "minor" now
    else s
  s.setScore nodeId { s.memory.scoreOf nodeId with lastActivityTime := now }

def System.joinCluster (s : System) (nodeId clusterId : String) (now : Rat) : Bool × System :=
  let r := s.memory.canParticipate nodeId now
  let s := { s with memory := r.2 }
  if !r.1.1 then (false, s)
  else
    -- reading the defaultdict makes the cluster's entry
    let s := { s with memory := { s.memory with clusters := s.memory.clusters.set clusterId (s.memory.cluster clusterId) } }
    if (s.memory.cluster clusterId).card ≥ clusterSize then (false, s)
    else if (s.memory.scoreOf nodeId).clusterMemberships.has clusterId then (true, s)
    else (true, (s.addMember nodeId clusterId now).save now)

/-! ## Queries -/

structure ClusterInfo where
  clusterId : String
  nodeCount : Nat
  capacity : Nat
  utilization : Rat
  activeNodes : Int
  totalMass : Rat
  averageKarma : Int
  deriving DecidableEq

/-- One node of `get_cluster_info`'s loop: the counts so far, and the memory. -/
def infoStep (now : Rat) (acc : (Int × Rat × Int) × Memory) (nodeId : String) : (Int × Rat × Int) × Memory :=
  let r := acc.2.canParticipate nodeId now
  if r.1.1 then
    let score := r.2.scoreOf nodeId
    ((acc.1.1 + 1, acc.1.2.1 + score.mass, acc.1.2.2 + score.karma), r.2)
  else (acc.1, r.2)

def Memory.getClusterInfo (m : Memory) (ord : SetOrder) (clusterId : String) (now : Rat) : ClusterInfo × Memory :=
  let nodes := m.cluster clusterId
  let r := (ord.list nodes).foldl (infoStep now) ((0, 0, 0), m)
  (⟨clusterId, nodes.card, clusterSize, nodes.card / clusterSize, r.1.1, r.1.2.1,
    if r.1.1 > 0 then r.1.2.2.fdiv r.1.1 else 0⟩, r.2)

/-! ### Elections

An election compares masses and does nothing else with them, so they may be of any linear
order: the exact ones, or what a floating point product makes of them. -/

structure Candidate (κ : Type) where
  nodeId : String
  mass : κ
  level : NodeLevel
  karma : Int
  deriving DecidableEq

variable {κ : Type}

/-- One node of `get_master_node_candidates`' loop. -/
def candidateStep (mass : KarmaScore → κ) (now : Rat) (acc : List (Candidate κ) × Memory) (nodeId : String) :
    List (Candidate κ) × Memory :=
  let m := acc.2.getScore nodeId
  let score := m.scoreOf nodeId
  if score.level ≠ .master then (acc.1, m)
  else
    let r := score.isSuspended now
    let m := m.setScore nodeId r.2
    if r.1 || r.2.evictionPending then (acc.1, m)
    else if r.2.karma ≤ 0 then (acc.1, m)
    else (acc.1 ++ [⟨nodeId, mass r.2, r.2.level, r.2.karma⟩], m)

/-- The candidates in iteration order, and the memory. -/
def Memory.eligible (m : Memory) (mass : KarmaScore → κ) (ord : SetOrder) (clusterId : String) (now : Rat) :
    List (Candidate κ) × Memory :=
  (ord.list (m.cluster clusterId)).foldl (candidateStep mass now) ([], m)

/-- `xs[:n]`: a negative bound counts from the end. -/
def sliceTo {α : Type} (xs : List α) (n : Int) : List α :=
  if 0 ≤ n then xs.take n.toNat else xs.take (xs.length - n.natAbs)

/-- `get_master_node_candidates`: a stable sort by mass, heaviest first. -/
def Memory.getMasterNodeCandidatesBy [LinearOrder κ] (m : Memory) (mass : KarmaScore → κ) (ord : SetOrder) (clusterId : String)
    (topN : Int) (now : Rat) : List (Candidate κ) × Memory :=
  let r := m.eligible mass ord clusterId now
  (sliceTo (r.1.mergeSort fun a b => decide (b.mass ≤ a.mass)) topN, r.2)

/-- `elect_master_node`. -/
def Memory.electMasterNodeBy [LinearOrder κ] (m : Memory) (mass : KarmaScore → κ) (ord : SetOrder) (clusterId : String)
    (now : Rat) : Option String × Memory :=
  let r := m.getMasterNodeCandidatesBy mass ord clusterId 100 now
  (r.1.head?.map Candidate.nodeId, r.2)

def Memory.getMasterNodeCandidates (m : Memory) (ord : SetOrder) (clusterId : String) (topN : Int) (now : Rat) :
    List (Candidate Rat) × Memory := m.getMasterNodeCandidatesBy KarmaScore.mass ord clusterId topN now

def Memory.electMasterNode (m : Memory) (ord : SetOrder) (clusterId : String) (now : Rat) : Option String × Memory :=
  m.electMasterNodeBy KarmaScore.mass ord clusterId now

/-! ## Runs -/

inductive Op where
  | reportEvent (nodeId : String) (eventType : KarmaEvent) (reason severity : String) (now : Rat)
  | applyInactivityDecay (nodeId : String) (now : Rat)
  | registerClusterActivity (nodeId clusterId : String) (cycleCompleted : Bool) (now : Rat)
  | joinCluster (nodeId clusterId : String) (now : Rat)
  | leaveCluster (nodeId clusterId : String) (now : Rat)
  | getScore (nodeId : String)
  | isSuspended (nodeId : String) (now : Rat)
  | canParticipate (nodeId : String) (now : Rat)
  | getClusterInfo (ord : SetOrder) (clusterId : String) (now : Rat)
  | getMasterNodeCandidates (ord : SetOrder) (clusterId : String) (topN : Int) (now : Rat)
  | electMasterNode (ord : SetOrder) (clusterId : String) (now : Rat)
  | restart

inductive Reply where
  | score (sc : KarmaScore)
  | lost (xp : Int)
  | done
  | bool (b : Bool)
  | participation (can : Bool) (status : Status)
  | info (i : ClusterInfo)
  | candidates (cs : List (Candidate Rat))
  | elected (nodeId : Option String)

def System.withMemory (s : System) (m : Memory) : System := { s with memory := m }

def step (s : System) : Op → Reply × System
  | .reportEvent nodeId eventType reason severity now =>
    let s := s.reportEvent nodeId eventType reason severity now
    (.score (s.memory.scoreOf nodeId), s)
  | .applyInactivityDecay nodeId now => let r := s.applyInactivityDecay nodeId now; (.lost r.1, r.2)
  | .registerClusterActivity nodeId clusterId cycleCompleted now =>
    (.done, s.registerClusterActivity nodeId clusterId cycleCompleted now)
  | .joinCluster nodeId clusterId now => let r := s.joinCluster nodeId clusterId now; (.bool r.1, r.2)
  | .leaveCluster nodeId clusterId now => let r := s.leaveCluster nodeId clusterId now; (.bool r.1, r.2)
  | .getScore nodeId => let m := s.memory.getScore nodeId; (.score (m.scoreOf nodeId), s.withMemory m)
  | .isSuspended nodeId now =>
    let m := s.memory.getScore nodeId
    let r := (m.scoreOf nodeId).isSuspended now
    (.bool r.1, s.withMemory (m.setScore nodeId r.2))
  | .canParticipate nodeId now =>
    let r := s.memory.canParticipate nodeId now
    (.participation r.1.1 r.1.2, s.withMemory r.2)
  | .getClusterInfo ord clusterId now =>
    let r := s.memory.getClusterInfo ord clusterId now
    (.info r.1, s.withMemory r.2)
  | .getMasterNodeCandidates ord clusterId topN now =>
    let r := s.memory.getMasterNodeCandidates ord clusterId topN now
    (.candidates r.1, s.withMemory r.2)
  | .electMasterNode ord clusterId now =>
    let r := s.memory.electMasterNode ord clusterId now
    (.elected r.1, s.withMemory r.2)
  | .restart => (.done, s.load)

/-- The system after `ops`, started in an empty directory. -/
def reached (ops : List Op) : System := Trace.final step {} ops

end PyxelVM.Karma
