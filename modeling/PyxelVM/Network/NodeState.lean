/-
  PyxelVM.Network.NodeState — the node state over restarts (`zdx_state.py`, `zdx_server.py`).

  A node is restarted by making the server anew: `_load` reads the file, or begins a new
  state where there is none, and nothing is written before the first record. A run is the
  messages that the handlers of the server have handled, and the restarts. No save fails.

  `state_survives`: the state counts the heartbeats and has the last report of every
  address, of all processes together; and it was created by the process that first
  recorded anything.
-/

import PyxelVM.Network.Records

namespace PyxelVM.Network

open PyxelVM.Lib

/-- `_load`, at the time `now`. -/
def ZDXState.load (file : Option StateData) (now : String) : ZDXState := ⟨file.getD { created := now }, file⟩

inductive NodeEvent where
  | handled (h : Handled)
  | restarted (now : String)

/-- The server after an event. -/
def ZDXServer.event (json : JsonText) (s : ZDXServer) : NodeEvent → ZDXServer
  | .handled h => s.handled json h
  | .restarted now => { state := .load s.state.file now }

/-- After a run, the first process having been started at `now` with no file. -/
def lifetime (json : JsonText) (now : String) (es : List NodeEvent) : ZDXServer :=
  es.foldl (ZDXServer.event json) { state := .load none now }

namespace NodeEvent

def message? : NodeEvent → Option Handled
  | handled h => some h
  | restarted _ => none

/-- The message is a heartbeat. -/
def beats : NodeEvent → Bool
  | handled h => !h.message.registers && h.message.isKind "heartbeat"
  | restarted _ => false

/-- The message makes a record. -/
def records : NodeEvent → Bool
  | handled h => h.message.registers || h.message.isKind "heartbeat"
  | restarted _ => false

end NodeEvent

/-- When the process was started that made the first record, or the last one if there is none. -/
def born : String → List NodeEvent → String
  | now, [] => now
  | _, .restarted now :: es => born now es
  | now, .handled h :: es => if (NodeEvent.handled h).records then now else born now es

/-- The time of the last heartbeat. -/
def lastBeat (es : List NodeEvent) : Option String :=
  ((es.filter NodeEvent.beats).getLast?.bind NodeEvent.message?).map fun h => h.calls.now

variable {json : JsonText}

/-! ## One message -/

/-- What a message records. -/
def StateData.after (d : StateData) (h : Handled) : StateData :=
  match h.message.report? with
  | some r => { d with peers := d.peers.set h.address.text ⟨r.stored, h.calls.now⟩ }
  | none => if h.message.isKind "heartbeat" then { d with heartbeats := d.heartbeats + 1, lastHeartbeat := some h.calls.now } else d

theorem saved_state (calls : Calls) (hsaved : calls.saving = none) (a : Answer) (x : Exchange) (state : ZDXState) :
    ((x.withState (state.save calls)).bind (sendMessage json calls a)).state.server.state = ⟨state.data, some state.data⟩ := by
  obtain ⟨state', x', hserver, hstate, he⟩ := save_then_send json calls a x state
  rw [he, Outcome.state_ended, hserver]
  exact hstate hsaved

/-- A message that makes a record changes the state so, and saves it; another leaves it. -/
theorem handled_data (s : ZDXServer) {h : Handled} (hsaved : h.calls.saving = none) :
    (s.handled json h).state =
      if (NodeEvent.handled h).records then ⟨s.state.data.after h, some (s.state.data.after h)⟩ else s.state := by
  have hrecords : (NodeEvent.handled h).records =
      (h.message.isKind "identity" || h.message.isKind "capability_report" || h.message.isKind "heartbeat") := rfl
  rw [hrecords]
  unfold ZDXServer.handled Exchange.handle StateData.after Received.report?
  cases hidentity : h.message.isKind "identity" with
  | true =>
    simp only [if_true, Bool.true_or]
    exact saved_state h.calls hsaved _ _ _
  | false =>
    cases hcapability : h.message.isKind "capability_report" with
    | true =>
      simp only [if_true, Bool.false_eq_true, if_false, Bool.true_or, Bool.or_true]
      exact saved_state h.calls hsaved _ _ _
    | false =>
      cases hheartbeat : h.message.isKind "heartbeat" with
      | true =>
        simp only [if_true, Bool.false_eq_true, if_false, Bool.or_true]
        exact saved_state h.calls hsaved _ _ _
      | false =>
        obtain ⟨x', hserver, he⟩ := sendMessage_spec json h.calls ⟨"ack", .obj [(.ofText "received", h.message.kind)]⟩ ⟨s, []⟩
        simp only [Bool.false_eq_true, if_false, Bool.or_self]
        rw [he, Outcome.state_ended, hserver]

/-! ## Runs -/

/-- What the state is after a run. -/
structure Survived (now : String) (es : List NodeEvent) (s : ZDXState) : Prop where
  created : s.data.created = born now es
  heartbeats : s.data.heartbeats = (es.filter NodeEvent.beats).length
  lastHeartbeat : s.data.lastHeartbeat = lastBeat es
  peers : ∀ address, (s.data.peers.get? address.text).map PeerRecord.identity =
    ((reports address (es.filterMap NodeEvent.message?)).head?).map Report.stored

/-- The file has it, or nothing was recorded yet. -/
structure Saved (now : String) (es : List NodeEvent) (s : ZDXState) : Prop where
  survived : Survived now es s
  file : if es.any NodeEvent.records then s.file = some s.data else s.file = none ∧ s.data = { created := s.data.created }

theorem born_concat (now : String) (es : List NodeEvent) (e : NodeEvent) :
    born now (es ++ [e]) =
      if es.any NodeEvent.records then born now es
      else match e with
        | .restarted now' => now'
        | .handled _ => born now es := by
  induction es generalizing now with
  | nil =>
    cases e with
    | restarted now' => rfl
    | handled h =>
      simp only [List.nil_append, born, List.any_nil, Bool.false_eq_true, ite_self]
  | cons e' es ih =>
    cases e' with
    | restarted now' => exact ih now'
    | handled h =>
      rw [List.cons_append, born, born, List.any_cons]
      cases hrec : (NodeEvent.handled h).records with
      | true => rfl
      | false => exact ih now

theorem beats_concat (es : List NodeEvent) (e : NodeEvent) :
    ((es ++ [e]).filter NodeEvent.beats).length = (es.filter NodeEvent.beats).length + (if e.beats then 1 else 0) := by
  rw [List.filter_append, List.length_append]
  cases he : e.beats <;> simp [he]

theorem lastBeat_concat (es : List NodeEvent) (e : NodeEvent) :
    lastBeat (es ++ [e]) = if e.beats then e.message?.map fun h => h.calls.now else lastBeat es := by
  rw [lastBeat, List.filter_append]
  cases he : e.beats with
  | true => simp [he]
  | false => simp [he, lastBeat]

theorem message_concat (es : List NodeEvent) (e : NodeEvent) :
    (es ++ [e]).filterMap NodeEvent.message? = es.filterMap NodeEvent.message? ++ e.message?.toList := by
  rw [List.filterMap_append]
  cases e <;> rfl

theorem report?_isSome (m : Received) : m.report?.isSome = m.registers := by
  unfold Received.report? Received.registers
  cases m.isKind "identity" <;> cases m.isKind "capability_report" <;> rfl

/-- A restart finds what was saved. -/
theorem restarted_saved {now now' : String} {es : List NodeEvent} {s : ZDXState} (h : Saved now es s) :
    Saved now (es ++ [.restarted now']) (.load s.file now') := by
  have hfile := h.file
  have hany : (es ++ [NodeEvent.restarted now']).any NodeEvent.records = es.any NodeEvent.records := by
    rw [List.any_append]
    exact Bool.or_false _
  have hborn := born_concat now es (.restarted now')
  have hbeats : ((es ++ [NodeEvent.restarted now']).filter NodeEvent.beats).length = (es.filter NodeEvent.beats).length := beats_concat es _
  have hlast : lastBeat (es ++ [.restarted now']) = lastBeat es := lastBeat_concat es _
  have hmessages : (es ++ [NodeEvent.restarted now']).filterMap NodeEvent.message? = es.filterMap NodeEvent.message? :=
    (message_concat es _).trans (List.append_nil _)
  obtain ⟨hcreated, hcount, htime, hpeers⟩ := h.survived
  cases hrec : es.any NodeEvent.records with
  | true =>
    rw [hrec, if_pos rfl] at hfile hborn
    have hload : ZDXState.load s.file now' = s := by rw [hfile, ZDXState.load, Option.getD_some, ← hfile]
    rw [hload]
    refine ⟨⟨hcreated.trans hborn.symm, hcount.trans (congrArg Int.ofNat hbeats.symm), htime.trans hlast.symm, ?_⟩, ?_⟩
    · rw [hmessages]
      exact hpeers
    · rw [hany, hrec, if_pos rfl]
      exact hfile
  | false =>
    rw [hrec, if_neg Bool.false_ne_true] at hfile hborn
    obtain ⟨hnone, hdata⟩ := hfile
    rw [hnone]
    rw [hdata] at hcount htime hpeers
    refine ⟨⟨hborn.symm, hcount.trans (congrArg Int.ofNat hbeats.symm), htime.trans hlast.symm, ?_⟩, ?_⟩
    · rw [hmessages]
      exact hpeers
    · rw [hany, hrec, if_neg Bool.false_ne_true]
      exact ⟨rfl, rfl⟩

theorem handled_saved {now : String} {es : List NodeEvent} {s : ZDXServer} (h : Saved now es s.state) {m : Handled}
    (hsaved : m.calls.saving = none) : Saved now (es ++ [.handled m]) (s.handled json m).state := by
  obtain ⟨hcreated, hcount, htime, hpeers⟩ := h.survived
  have hfile := h.file
  have hany : (es ++ [NodeEvent.handled m]).any NodeEvent.records = (es.any NodeEvent.records || (NodeEvent.handled m).records) := by
    rw [List.any_append]
    simp
  have hborn : born now (es ++ [.handled m]) = born now es := (born_concat now es _).trans (ite_self _)
  have hbeats := beats_concat es (.handled m)
  have hlast := lastBeat_concat es (.handled m)
  have hmessages := message_concat es (.handled m)
  have hreports (address : Address) := reports_concat address (es.filterMap NodeEvent.message?) m
  rw [handled_data s hsaved]
  cases hrec : (NodeEvent.handled m).records with
  | false =>
    have hparts : m.message.registers = false ∧ m.message.isKind "heartbeat" = false := Bool.or_eq_false_iff.mp hrec
    have hnone : m.message.report? = none := by
      rw [← Option.isNone_iff_eq_none, ← Option.not_isSome, report?_isSome, hparts.1]
      rfl
    have hbeat : (NodeEvent.handled m).beats = false := by
      rw [NodeEvent.beats, hparts.2, Bool.and_false]
    rw [hbeat, if_neg Bool.false_ne_true] at hbeats hlast
    rw [if_neg Bool.false_ne_true]
    refine ⟨⟨hcreated.trans hborn.symm, hcount.trans (congrArg Int.ofNat hbeats.symm), htime.trans hlast.symm, fun address => ?_⟩, ?_⟩
    · rw [hmessages]
      refine (hpeers address).trans ?_
      rw [show (NodeEvent.handled m).message?.toList = [m] from rfl, hreports, hnone, ite_self]
      rfl
    · rw [hany, hrec, Bool.or_false]
      exact hfile
  | true =>
    rw [if_pos rfl]
    have hnew : ((es ++ [NodeEvent.handled m]).any NodeEvent.records) = true := by rw [hany, hrec, Bool.or_true]
    rw [show (NodeEvent.handled m).message?.toList = [m] from rfl] at hmessages
    cases hr : m.message.report? with
    | some r =>
      have hreg : m.message.registers = true := by rw [← report?_isSome, hr]; rfl
      have hbeat : (NodeEvent.handled m).beats = false := by rw [NodeEvent.beats, hreg]; rfl
      have hafter : s.state.data.after m = { s.state.data with peers := s.state.data.peers.set m.address.text ⟨r.stored, m.calls.now⟩ } := by
        rw [StateData.after, hr]
      rw [hbeat, if_neg Bool.false_ne_true] at hbeats hlast
      rw [hafter]
      refine ⟨⟨hcreated.trans hborn.symm, hcount.trans (congrArg Int.ofNat hbeats.symm), htime.trans hlast.symm, fun address => ?_⟩, ?_⟩
      · rw [hmessages, hreports, hr]
        by_cases ha : m.address = address
        · rw [if_pos ha, ha]
          exact congrArg _ (Dict.get?_set_self _ _ _)
        · rw [if_neg ha]
          refine (congrArg _ (Dict.get?_set_of_ne _ (fun e => ha (Address.text_injective e).symm) _)).trans ?_
          exact hpeers address
      · rw [hnew, if_pos rfl]
    | none =>
      have hreg : m.message.registers = false := by rw [← report?_isSome, hr]; rfl
      have hkind : m.message.isKind "heartbeat" = true := by
        have hor : (m.message.registers || m.message.isKind "heartbeat") = true := hrec
        rwa [hreg, Bool.false_or] at hor
      have hbeat : (NodeEvent.handled m).beats = true := by rw [NodeEvent.beats, hreg, hkind]; rfl
      have hafter : s.state.data.after m =
          { s.state.data with heartbeats := s.state.data.heartbeats + 1, lastHeartbeat := some m.calls.now } := by
        rw [StateData.after, hr, hkind]
        rfl
      rw [hbeat, if_pos rfl] at hbeats hlast
      rw [hafter]
      refine ⟨⟨hcreated.trans hborn.symm, ?_, hlast.symm, fun address => ?_⟩, ?_⟩
      · show s.state.data.heartbeats + 1 = _
        rw [hcount, hbeats]
        rfl
      · rw [hmessages, hreports, hr, ite_self]
        exact hpeers address
      · rw [hnew, if_pos rfl]

/-- Restarts lose nothing of the node state: after every run of messages and restarts it counts the heartbeats of
    all processes, has the time of the last one and what each address reported last, and was created by the process
    that made the first record. So has the file, once anything was recorded. -/
theorem state_survives (json : JsonText) (now : String) (es : List NodeEvent)
    (hsaved : ∀ h, .handled h ∈ es → h.calls.saving = none) : Saved now es (lifetime json now es).state := by
  induction es using List.reverseRecOn with
  | nil => exact ⟨⟨rfl, rfl, rfl, fun _ => rfl⟩, rfl, rfl⟩
  | append_singleton es e ih =>
    have hbefore := ih fun h hh => hsaved h (List.mem_append_left _ hh)
    have hlast : lifetime json now (es ++ [e]) = (lifetime json now es).event json e := List.foldl_concat ..
    rw [hlast]
    cases e with
    | restarted now' => exact restarted_saved hbefore
    | handled h => exact handled_saved hbefore (hsaved h List.mem_concat_self)

/-- A restart before anything is recorded, and one after a heartbeat. -/
theorem state_survives_heartbeat :
    let beat : Handled := ⟨localAddress, ⟨.str (.ofText "heartbeat"), .null⟩, someCalls⟩
    let data := (lifetime ackJson "t0" [.restarted "t1", .handled beat, .restarted "t2", .handled beat]).state.data
    data.created = "t1" ∧ data.heartbeats = 2 := by
  intro beat data
  have hsaved : ∀ h, NodeEvent.handled h ∈ [NodeEvent.restarted "t1", .handled beat, .restarted "t2", .handled beat] →
      h.calls.saving = none := by
    intro h hh
    simp only [List.mem_cons, List.not_mem_nil, or_false, reduceCtorEq, false_or, NodeEvent.handled.injEq, or_self] at hh
    rw [hh]
    rfl
  have h := (state_survives ackJson "t0" _ hsaved).survived
  exact ⟨h.created.trans (by decide), h.heartbeats.trans (by decide)⟩

end PyxelVM.Network
