/-
  PyxelVM.Network.Enrollment — `ZDXEnrollmentHandshake`, `ZDXEnrollment` (`zdx_enrollment_handshake.py`,
  `zdx_enrollment.py`, `zdx_node_signature.py`).

  Records and capabilities are dicts, passed by reference: a request makes a record, which it
  returns and `nodes` refers to, and the record refers to the caller's own capabilities; an
  approval changes the record that `nodes` refers to then, under whoever holds it. So
  records are numbered in the order of their requests and capabilities by their dicts.

  - `record_history`: an approval is of a request and not of a node. In every run
    record `k` is as the approvals after request `k` and before the node's next one have
    left it, the last of them giving the time; `status` is the record of the last request.
    Its hash is of the capabilities as they were at the request, whatever they are now.
-/

import Mathlib.Data.List.Induction
import PyxelVM.Network.FrameSync

namespace PyxelVM.Network

open Function (update)
open PyxelVM.Lib

/-! ## The objects -/

structure EnrollmentRecord where
  nodeId : String
  /-- Which dict the capabilities are. -/
  capabilities : Nat
  identityHash : String
  requested : Rat
  status : String := "pending"
  approved : Option Rat := none
  deriving DecidableEq

/-- `json.dumps(payload, sort_keys=True).encode()` of a node's id and its capabilities. -/
abbrev PayloadText := String → Json → List UInt8

/-- `payload_hash`. -/
def payloadHash (h : Hasher) (text : PayloadText) (nodeId : String) (capabilities : Json) : String :=
  h.digest (text nodeId capabilities)

/-- A handshake, with every record it has made, and what the capabilities' dicts are now. -/
structure ZDXEnrollment where
  records : List EnrollmentRecord := []
  nodes : Dict String Nat := .empty
  capabilities : Nat → Json

inductive EnrollmentEvent where
  /-- At a time, by a node, with one of the dicts. -/
  | request (now : Rat) (nodeId : String) (capabilities : Nat)
  | approve (now : Rat) (nodeId : String)
  /-- The owner of a dict changes it. -/
  | change (capabilities : Nat) (value : Json)

namespace ZDXEnrollment

variable (h : Hasher) (text : PayloadText)

def request (e : ZDXEnrollment) (now : Rat) (nodeId : String) (capabilities : Nat) : ZDXEnrollment :=
  let record : EnrollmentRecord :=
    { nodeId, capabilities
      identityHash := payloadHash h text nodeId (e.capabilities capabilities)
      requested := now }
  { e with records := e.records ++ [record], nodes := e.nodes.set nodeId e.records.length }

def approve (e : ZDXEnrollment) (now : Rat) (nodeId : String) : ZDXEnrollment :=
  match e.nodes.get? nodeId with
  | some k => { e with records := e.records.modify k fun r => { r with status := "approved", approved := some now } }
  | none => e

def status (e : ZDXEnrollment) (nodeId : String) : Option EnrollmentRecord := (e.nodes.get? nodeId).bind (e.records[·]?)

def step (e : ZDXEnrollment) : EnrollmentEvent → ZDXEnrollment
  | .request now nodeId capabilities => e.request h text now nodeId capabilities
  | .approve now nodeId => e.approve now nodeId
  | .change k value => { e with capabilities := update e.capabilities k value }

/-- After the events, where the dicts were as given at the start. -/
def after (capabilities : Nat → Json) (events : List EnrollmentEvent) : ZDXEnrollment :=
  events.foldl (step h text) { capabilities }

end ZDXEnrollment

/-! ## Histories -/

namespace EnrollmentEvent

def isRequest : EnrollmentEvent → Bool
  | request _ _ _ => true
  | _ => false

/-- A request by the node. -/
def requestsBy (nodeId : String) : EnrollmentEvent → Bool
  | request _ n _ => n == nodeId
  | _ => false

/-- The time of an approval of the node. -/
def approves? (nodeId : String) : EnrollmentEvent → Option Rat
  | approve now n => if n = nodeId then some now else none
  | _ => none

/-- What the dicts are after the event. -/
def changed (capabilities : Nat → Json) : EnrollmentEvent → Nat → Json
  | change k value => update capabilities k value
  | _ => capabilities

end EnrollmentEvent

/-- The approvals of a node before its next request. -/
def approvals (nodeId : String) (events : List EnrollmentEvent) : List Rat :=
  (events.takeWhile fun e => !e.requestsBy nodeId).filterMap (EnrollmentEvent.approves? nodeId)

def changedTo (capabilities : Nat → Json) (events : List EnrollmentEvent) : Nat → Json :=
  events.foldl EnrollmentEvent.changed capabilities

/-- The record after approvals. -/
def EnrollmentRecord.approvedAt (r : EnrollmentRecord) (times : List Rat) : EnrollmentRecord :=
  times.foldl (fun r now => { r with status := "approved", approved := some now }) r

@[simp] theorem approvedAt_nil (r : EnrollmentRecord) : r.approvedAt [] = r := rfl

theorem approvedAt_cons (r : EnrollmentRecord) (now : Rat) (times : List Rat) :
    r.approvedAt (now :: times) =
      ({ r with status := "approved", approved := some now } : EnrollmentRecord).approvedAt times := rfl

/-- The last approval gives the time. -/
theorem approvedAt_eq (r : EnrollmentRecord) (times : List Rat) : r.approvedAt times =
    { r with
      status := if times = [] then r.status else "approved"
      approved := times.getLast?.or r.approved } := by
  induction times generalizing r with
  | nil => rfl
  | cons now times ih =>
    rw [approvedAt_cons, ih, List.getLast?_cons]
    cases times with
    | nil => rfl
    | cons t ts => simp [List.getLast?_cons]

/-! ## One record -/

variable {h : Hasher} {text : PayloadText} {e : ZDXEnrollment} {k : Nat} {r : EnrollmentRecord} {n : String}

/-- Record `k` is `r`, and is the node's. -/
structure Live (e : ZDXEnrollment) (k : Nat) (r : EnrollmentRecord) (n : String) : Prop where
  record : e.records[k]? = some r
  nodes : ∀ m, e.nodes.get? m = some k ↔ m = n

/-- Record `k` is `r`, and nobody's. -/
structure Superseded (e : ZDXEnrollment) (k : Nat) (r : EnrollmentRecord) : Prop where
  record : e.records[k]? = some r
  nodes : ∀ m, e.nodes.get? m ≠ some k

theorem record_request (hk : e.records[k]? = some r) (now : Rat) (m : String) (c : Nat) :
    (e.request h text now m c).records[k]? = some r := by
  rw [ZDXEnrollment.request, List.getElem?_append_left (List.getElem?_eq_some_iff.mp hk).1, hk]

/-- A request is never given a number that is taken. -/
theorem nodes_request (hk : e.records[k]? = some r) (now : Rat) (m l : String) (c : Nat) :
    (e.request h text now m c).nodes.get? l = some k ↔ l ≠ m ∧ e.nodes.get? l = some k := by
  have hlt := (List.getElem?_eq_some_iff.mp hk).1
  rw [ZDXEnrollment.request, Dict.get?_set]
  by_cases hl : l = m
  · rw [if_pos hl, Option.some_inj]
    exact iff_of_false hlt.ne' fun hk => hk.1 hl
  · rw [if_neg hl, and_iff_right hl]

theorem nodes_approve (now : Rat) (m : String) : (e.approve now m).nodes = e.nodes := by
  unfold ZDXEnrollment.approve
  split <;> rfl

/-- Only an approval of the node that `nodes` has it under changes a record. -/
theorem record_approve (now : Rat) {m : String} (hm : e.nodes.get? m ≠ some k) :
    (e.approve now m).records[k]? = e.records[k]? := by
  unfold ZDXEnrollment.approve
  split
  · rename_i j hj
    have hne : j ≠ k := fun he => hm (he ▸ hj)
    simp [hne]
  · rfl

theorem Superseded.step (hs : Superseded e k r) (event : EnrollmentEvent) : Superseded (e.step h text event) k r := by
  cases event with
  | request now m c =>
    exact ⟨record_request hs.record now m c, fun l hl => hs.nodes l ((nodes_request hs.record now m l c).mp hl).2⟩
  | approve now m =>
    refine ⟨(record_approve now (hs.nodes m)).trans hs.record, ?_⟩
    intro l
    rw [ZDXEnrollment.step, nodes_approve]
    exact hs.nodes l
  | change c value => exact ⟨hs.record, hs.nodes⟩

theorem Superseded.run (hs : Superseded e k r) (events : List EnrollmentEvent) :
    Superseded (events.foldl (ZDXEnrollment.step h text) e) k r := by
  induction events generalizing e with
  | nil => exact hs
  | cons event events ih => exact ih (hs.step event)

/-- The node's next request leaves the record as it is, and to nobody. -/
theorem Live.superseded (hl : Live e k r n) {event : EnrollmentEvent} (hn : event.requestsBy n = true) :
    Superseded (e.step h text event) k r := by
  cases event with
  | request now m c =>
    obtain rfl : m = n := by simpa [EnrollmentEvent.requestsBy] using hn
    refine ⟨record_request hl.record now m c, ?_⟩
    intro l hk
    obtain ⟨hne, hk⟩ := (nodes_request hl.record now m l c).mp hk
    exact hne ((hl.nodes l).mp hk)
  | approve now m => cases hn
  | change c value => cases hn

/-- Any other event leaves it to the node, and an approval of the node is the record's. -/
theorem Live.step (hl : Live e k r n) {event : EnrollmentEvent} (hn : event.requestsBy n = false) :
    Live (e.step h text event) k (r.approvedAt (event.approves? n).toList) n := by
  cases event with
  | request now m c =>
    have hm : m ≠ n := by simpa [EnrollmentEvent.requestsBy] using hn
    refine ⟨record_request hl.record now m c, ?_⟩
    intro l
    rw [ZDXEnrollment.step, nodes_request hl.record, hl.nodes, and_iff_right_iff_imp]
    rintro rfl
    exact hm.symm
  | approve now m =>
    refine ⟨?_, fun l => by rw [ZDXEnrollment.step, nodes_approve]; exact hl.nodes l⟩
    by_cases hm : m = n
    · have hk := (hl.nodes n).mpr rfl
      simp [ZDXEnrollment.step, ZDXEnrollment.approve, hk, EnrollmentEvent.approves?, hm, hl.record, approvedAt_cons]
    · rw [ZDXEnrollment.step, record_approve now fun hk => hm ((hl.nodes m).mp hk), hl.record]
      simp [EnrollmentEvent.approves?, hm]
  | change c value => exact ⟨hl.record, hl.nodes⟩

theorem approvals_cons {event : EnrollmentEvent} (hn : event.requestsBy n = false) (events : List EnrollmentEvent) :
    approvals n (event :: events) = (event.approves? n).toList ++ approvals n events := by
  unfold approvals
  rw [List.takeWhile_cons, hn, Bool.not_false, if_pos rfl, List.filterMap_cons]
  cases event.approves? n <;> rfl

theorem approvedAt_append (r : EnrollmentRecord) (ts us : List Rat) :
    r.approvedAt (ts ++ us) = (r.approvedAt ts).approvedAt us := List.foldl_append

/-- A run leaves the record as the approvals before the node's next request make it, and then to nobody. -/
theorem Live.run (hl : Live e k r n) (events : List EnrollmentEvent) :
    let e' := events.foldl (ZDXEnrollment.step h text) e
    e'.records[k]? = some (r.approvedAt (approvals n events)) ∧
      (e'.nodes.get? n = some k ↔ ∀ event ∈ events, event.requestsBy n = false) := by
  induction events generalizing e r with
  | nil => exact ⟨hl.record, by simp [hl.nodes]⟩
  | cons event events ih =>
    cases hn : event.requestsBy n with
    | true =>
      have hs := @Superseded.run h text (e.step h text event) _ _ (hl.superseded hn) events
      have hnone : approvals n (event :: events) = [] := by simp [approvals, hn]
      rw [hnone]
      exact ⟨hs.record, iff_of_false (hs.nodes n) fun hall => by simp [hall event] at hn⟩
    | false =>
      obtain ⟨hrecord, hnodes⟩ := ih (hl.step hn)
      rw [approvals_cons hn, approvedAt_append]
      exact ⟨hrecord, hnodes.trans (by simp [hn])⟩

/-! ## Runs -/

theorem after_concat (capabilities : Nat → Json) (events : List EnrollmentEvent) (event : EnrollmentEvent) :
    ZDXEnrollment.after h text capabilities (events ++ [event]) =
      (ZDXEnrollment.after h text capabilities events).step h text event := by
  simp [ZDXEnrollment.after]

/-- The dicts are the owners', there is a record for each request, and `nodes` has records only. -/
theorem after_started (capabilities : Nat → Json) (events : List EnrollmentEvent) :
    let e := ZDXEnrollment.after h text capabilities events
    e.capabilities = changedTo capabilities events ∧ e.records.length = events.countP EnrollmentEvent.isRequest ∧
      ∀ m k, e.nodes.get? m = some k → k < e.records.length := by
  induction events using List.reverseRecOn with
  | nil => exact ⟨rfl, rfl, fun m k hk => by simp [ZDXEnrollment.after] at hk⟩
  | append_singleton events event ih =>
    obtain ⟨hc, hlen, hlt⟩ := ih
    have hchanged : changedTo capabilities (events ++ [event]) =
        event.changed (ZDXEnrollment.after h text capabilities events).capabilities := by
      rw [hc, changedTo, List.foldl_append]
      rfl
    rw [after_concat, hchanged, List.countP_append, ← hlen]
    cases event with
    | request now m c =>
      refine ⟨rfl, by simp [ZDXEnrollment.step, ZDXEnrollment.request, EnrollmentEvent.isRequest], ?_⟩
      intro l k hk
      simp only [ZDXEnrollment.step, ZDXEnrollment.request, Dict.get?_set, List.length_append, List.length_singleton] at hk ⊢
      split at hk
      · cases hk
        omega
      · have := hlt l k hk
        omega
    | approve now m =>
      have hsame : ((ZDXEnrollment.after h text capabilities events).approve now m).records.length =
          (ZDXEnrollment.after h text capabilities events).records.length := by
        unfold ZDXEnrollment.approve
        split <;> simp
      refine ⟨?_, hsame.trans (by simp [EnrollmentEvent.isRequest]), ?_⟩
      · simp only [ZDXEnrollment.step, ZDXEnrollment.approve]
        split <;> rfl
      · intro l k hk
        rw [ZDXEnrollment.step, nodes_approve] at hk
        rw [ZDXEnrollment.step, hsame]
        exact hlt l k hk
    | change c value => exact ⟨rfl, by simp [ZDXEnrollment.step, EnrollmentEvent.isRequest], hlt⟩

/-- The record of a request, after any events: its hash is of what the capabilities were at the request, and it is approved
    if and when the node was, before it requested again. `status` is of this record as long as it has not. -/
theorem record_history (h : Hasher) (text : PayloadText) (capabilities : Nat → Json) (before later : List EnrollmentEvent)
    (now : Rat) (n : String) (c : Nat) :
    let e := ZDXEnrollment.after h text capabilities (before ++ .request now n c :: later)
    let k := before.countP EnrollmentEvent.isRequest
    e.records[k]? = some
        { nodeId := n, capabilities := c
          identityHash := payloadHash h text n (changedTo capabilities before c)
          requested := now
          status := if approvals n later = [] then "pending" else "approved"
          approved := (approvals n later).getLast? } ∧
      (e.nodes.get? n = some k ↔ ∀ event ∈ later, event.requestsBy n = false) := by
  obtain ⟨hc, hlen, hlt⟩ := @after_started h text capabilities before
  have hlive : Live ((ZDXEnrollment.after h text capabilities before).request h text now n c)
      (before.countP EnrollmentEvent.isRequest)
      { nodeId := n, capabilities := c
        identityHash := payloadHash h text n (changedTo capabilities before c)
        requested := now } n := by
    refine ⟨by simp [ZDXEnrollment.request, ← hlen, hc], ?_⟩
    intro m
    rw [ZDXEnrollment.request, Dict.get?_set, ← hlen]
    by_cases hm : m = n
    · simp [hm]
    · rw [if_neg hm]
      exact iff_of_false (fun hk => (hlt m _ hk).ne rfl) hm
  have hrun := @Live.run h text _ _ _ _ hlive later
  rw [approvedAt_eq] at hrun
  simpa [ZDXEnrollment.after, ZDXEnrollment.step] using hrun

end PyxelVM.Network
