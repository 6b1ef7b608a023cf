/-
  PyxelVM.Network.Records — what the node state has of each peer (`zdx_state.py`), over the
  messages that the handlers of a server have handled (`zdx_server.py`).

  A run is the messages in the order they are handled, on whatever connections, each as a
  whole. No save fails; an answer may. A peer has one record, under the text of its address.
  An identity stores its payload there, a capability report an object with its payload:
  each replaces what the other has stored (`record_after`).

  - `keepsReports_iff`: so the record has the last payload of both kinds exactly if the
    older of the two happens to be part of what the newer one stores (`Covered`).
  - `capabilities_replace_identity`: an identity and then a capability report.
-/

import PyxelVM.Network.Server

namespace PyxelVM.Network

open PyxelVM.Lib

/-- A message that a handler has read, and what its turn meets. -/
structure Handled where
  address : Address
  message : Received
  calls : Calls

variable (json : JsonText)

/-- The server after the message, whether or not the turn has raised. -/
def ZDXServer.handled (s : ZDXServer) (h : Handled) : ZDXServer :=
  (Exchange.handle json ⟨s, []⟩ h.calls h.address h.message).state.server

def ZDXServer.run (s : ZDXServer) (hs : List Handled) : ZDXServer := hs.foldl (ZDXServer.handled json) s

/-! ## Reports -/

inductive ReportKind where
  | identity
  | capabilities
  deriving DecidableEq, Repr

structure Report where
  kind : ReportKind
  payload : PyJson

/-- What `record_peer` is given. -/
def Report.stored (r : Report) : PyJson :=
  match r.kind with
  | .identity => r.payload
  | .capabilities => .obj [(.ofText "capabilities", r.payload)]

def Received.report? (m : Received) : Option Report :=
  if m.isKind "identity" then some ⟨.identity, m.payload⟩
  else if m.isKind "capability_report" then some ⟨.capabilities, m.payload⟩
  else none

/-- What the address has reported, the newest first. -/
def reports (address : Address) (hs : List Handled) : List Report :=
  hs.reverse.filterMap fun h => if h.address = address then h.message.report? else none

/-- The newest of its kind. -/
def newest (kind : ReportKind) (rs : List Report) : Option Report := rs.find? fun r => r.kind = kind

/-- The value is the other one, or occurs in it. -/
inductive Within (v : PyJson) : PyJson → Prop where
  | self : Within v v
  | item {items : List PyJson} {w : PyJson} (hw : w ∈ items) (h : Within v w) : Within v (.arr items)
  | member {members : List (PyStr × PyJson)} {k : PyStr} {w : PyJson} (hw : (Dict.ofList members).get? k = some w)
      (h : Within v w) : Within v (.obj members)

/-- The file has a record of the address, with the value in it. -/
def Persisted (s : ZDXState) (address : Address) (v : PyJson) : Prop :=
  ∃ data record, s.file = some data ∧ data.peers.get? address.text = some record ∧ Within v record.identity

/-- The record of each address has its newest identity and its newest capabilities. -/
def RecordLaw (s : ZDXState) (hs : List Handled) : Prop :=
  ∀ address kind r, newest kind (reports address hs) = some r → Persisted s address r.payload

/-- The law holds after each message. -/
def KeepsReports (s : ZDXServer) (hs : List Handled) : Prop :=
  ∀ past later, hs = past ++ later → RecordLaw (s.run json past).state past

/-- The newest report stores the newest one of the other kind as well. -/
def Covered (rs : List Report) : Prop :=
  ∀ last other, rs.head? = some last → newest other.kind rs = some other → other.kind ≠ last.kind →
    Within other.payload last.stored

variable {h : Handled} {hs : List Handled}

/-! ## What a message leaves -/

/-- A report is stored under its address; another message changes no record. -/
theorem handled_state (s : ZDXServer) (hsaved : h.calls.saving = none) :
    ((s.handled json h).state = s.state ∧ h.message.report? = none) ∨ ∃ data, (s.handled json h).state = ⟨data, some data⟩ ∧
      data.peers = match h.message.report? with
        | some r => s.state.data.peers.set h.address.text ⟨r.stored, h.calls.now⟩
        | none => s.state.data.peers := by
  have hsave (a : Answer) (x : Exchange) (state : ZDXState) :
      ((x.withState (state.save h.calls)).bind (sendMessage json h.calls a)).state.server.state =
        ⟨state.data, some state.data⟩ := by
    obtain ⟨state', x', hserver, hstate, he⟩ := save_then_send json h.calls a x state
    rw [he, Outcome.state_ended, hserver]
    exact hstate hsaved
  unfold ZDXServer.handled Exchange.handle Received.report?
  by_cases hidentity : h.message.isKind "identity"
  · simp only [if_pos hidentity]
    exact .inr ⟨_, hsave _ _ _, rfl⟩
  · simp only [if_neg hidentity]
    by_cases hcapability : h.message.isKind "capability_report"
    · simp only [if_pos hcapability]
      exact .inr ⟨_, hsave _ _ _, rfl⟩
    · simp only [if_neg hcapability]
      by_cases hheartbeat : h.message.isKind "heartbeat"
      · simp only [if_pos hheartbeat]
        exact .inr ⟨_, hsave _ _ _, rfl⟩
      · simp only [if_neg hheartbeat]
        obtain ⟨x', hserver, he⟩ := sendMessage_spec json h.calls ⟨"ack", .obj [(.ofText "received", h.message.kind)]⟩ ⟨s, []⟩
        rw [he, Outcome.state_ended, hserver]
        exact .inl ⟨rfl, trivial⟩

/-! ## The records -/

theorem reports_concat (address : Address) (hs : List Handled) (h : Handled) :
    reports address (hs ++ [h]) =
      (if h.address = address then h.message.report? else none).toList ++ reports address hs := by
  rw [reports, List.reverse_append, List.reverse_singleton, List.singleton_append, List.filterMap_cons]
  cases if h.address = address then h.message.report? else none <;> rfl

/-- The record of the address, in memory and in the file, is of this identity. -/
def Recorded (s : ZDXState) (address : Address) (v : PyJson) : Prop :=
  (∃ record, s.data.peers.get? address.text = some record ∧ record.identity = v) ∧
    ∃ data record, s.file = some data ∧ data.peers.get? address.text = some record ∧ record.identity = v

theorem recorded_saved {data : StateData} {address : Address} {v : PyJson} {record : PeerRecord}
    (h : data.peers.get? address.text = some record) (hv : record.identity = v) : Recorded ⟨data, some data⟩ address v :=
  ⟨⟨record, h, hv⟩, data, record, rfl, h, hv⟩

theorem run_concat (s : ZDXServer) (hs : List Handled) (h : Handled) :
    s.run json (hs ++ [h]) = (s.run json hs).handled json h := List.foldl_concat ..

/-- Whatever comes after it, the newest report of an address is what its record has. -/
theorem record_after (s : ZDXServer) (hsaved : ∀ h ∈ hs, h.calls.saving = none) {address : Address} {last : Report}
    (hlast : (reports address hs).head? = some last) : Recorded (s.run json hs).state address last.stored := by
  induction hs using List.reverseRecOn with
  | nil => cases hlast
  | append_singleton hs h ih =>
    have hbefore := ih fun h hh => hsaved h (List.mem_append_left _ hh)
    rw [run_concat]
    rw [reports_concat] at hlast
    rcases handled_state json (s.run json hs) (hsaved h List.mem_concat_self) with ⟨hstate, hnone⟩ | ⟨data, hstate, hpeers⟩
    · rw [hnone, ite_self] at hlast
      rw [hstate]
      exact hbefore hlast
    · rw [hstate]
      cases hreport : h.message.report? with
      | none =>
        rw [hreport] at hpeers hlast
        rw [ite_self] at hlast
        obtain ⟨⟨record, hget, hv⟩, -⟩ := hbefore hlast
        exact recorded_saved (hpeers ▸ hget) hv
      | some r =>
        rw [hreport] at hpeers hlast
        by_cases ha : h.address = address
        · rw [if_pos ha] at hlast
          obtain rfl : r = last := Option.some.inj hlast
          have hget : data.peers.get? address.text = some ⟨r.stored, h.calls.now⟩ := by
            rw [hpeers, ha]
            exact Dict.get?_set_self _ _ _
          exact recorded_saved hget rfl
        · rw [if_neg ha] at hlast
          obtain ⟨⟨record, hget, hv⟩, -⟩ := hbefore hlast
          refine recorded_saved ?_ hv
          rw [hpeers]
          exact (Dict.get?_set_of_ne _ (fun e => ha (Address.text_injective e).symm) _).trans hget

/-! ## Both kinds -/

theorem within_obj {v : PyJson} {members : List (PyStr × PyJson)} (h : Within v (.obj members)) :
    v = .obj members ∨ ∃ e ∈ members, Within v e.2 := by
  cases h with
  | self => exact .inl rfl
  | member hw h => exact .inr ⟨_, Dict.mem_of_get?_ofList hw, h⟩

theorem payload_within_stored (r : Report) : Within r.payload r.stored := by
  obtain ⟨kind, payload⟩ := r
  cases kind with
  | identity => exact .self
  | capabilities => exact .member (show (Dict.ofList [(PyStr.ofText "capabilities", payload)]).get? _ = some payload from
      Dict.get?_set_self _ _ _) .self

theorem recordLaw_iff (s : ZDXServer) (hsaved : ∀ h ∈ hs, h.calls.saving = none) :
    RecordLaw (s.run json hs).state hs ↔ ∀ address, Covered (reports address hs) := by
  constructor
  · intro hlaw address last other hlast hother _
    obtain ⟨data, record, hfile, hget, hwithin⟩ := hlaw address other.kind other hother
    obtain ⟨-, data', record', hfile', hget', hv⟩ := record_after json s hsaved hlast
    obtain rfl : data = data' := Option.some.inj (hfile.symm.trans hfile')
    obtain rfl : record = record' := Option.some.inj (hget.symm.trans hget')
    rwa [hv] at hwithin
  · intro hcovered address kind r hr
    have hkind : r.kind = kind := of_decide_eq_true (List.find?_some (p := fun r : Report => r.kind = kind) hr)
    subst hkind
    cases hlast : (reports address hs).head? with
    | none =>
      rw [List.head?_eq_none_iff] at hlast
      rw [hlast] at hr
      cases hr
    | some last =>
      obtain ⟨-, data, record, hfile, hget, hv⟩ := record_after json s hsaved hlast
      refine ⟨data, record, hfile, hget, ?_⟩
      rw [hv]
      by_cases hkind : r.kind = last.kind
      · have hnewest : newest last.kind (reports address hs) = some last := by
          obtain ⟨rs, hrs⟩ := List.head?_eq_some_iff.mp hlast
          rw [newest, hrs, List.find?_cons_of_pos (by simp)]
        rw [hkind] at hr
        obtain rfl : r = last := Option.some.inj (hr.symm.trans hnewest)
        exact payload_within_stored r
      · exact hcovered address last r hlast hr hkind

/-- Where one kind is all that is reported, nothing is to be covered. -/
theorem covered_of_one_kind (kind : ReportKind) {rs : List Report} (h : ∀ r ∈ rs, r.kind = kind) : Covered rs := by
  intro last other hlast hother hne
  exact absurd ((h other (List.mem_of_find?_eq_some hother)).trans (h last (List.mem_of_head? hlast)).symm) hne

/-- Of messages on any connections, where saving does not fail: each record keeps both kinds exactly if, after each
    message, the newest report of an address stores the newest of the other kind too. -/
theorem keepsReports_iff (json : JsonText) (s : ZDXServer) (hs : List Handled) (hsaved : ∀ h ∈ hs, h.calls.saving = none) :
    KeepsReports json s hs ↔ ∀ past later, hs = past ++ later → ∀ address, Covered (reports address past) := by
  refine forall_congr' fun past => forall_congr' fun later => forall_congr' fun hsplit => ?_
  have hpast : ∀ h ∈ past, h.calls.saving = none := fun h hh => hsaved h (hsplit ▸ List.mem_append_left later hh)
  exact recordLaw_iff json s hpast

/-- `{"node_id": "n"}`. -/
def identityMessage : Received := ⟨.str (.ofText "identity"), .obj [(.ofText "node_id", .str (.ofText "n"))]⟩

/-- `{"gpu": true}`. -/
def capabilityMessage : Received := ⟨.str (.ofText "capability_report"), .obj [(.ofText "gpu", .bool true)]⟩

/-- `{"node_id": "n", "capabilities": {"gpu": true}}`. -/
def fullIdentity : Received := ⟨.str (.ofText "identity"),
  .obj [(.ofText "node_id", .str (.ofText "n")), (.ofText "capabilities", capabilityMessage.payload)]⟩

/-- A capability report, and then an identity that contains it. -/
theorem keepsReports_iff_contained :
    KeepsReports ackJson newServer [⟨localAddress, capabilityMessage, someCalls⟩, ⟨localAddress, fullIdentity, someCalls⟩] := by
  refine (keepsReports_iff ackJson newServer _ (by decide)).mpr fun past later hsplit address => ?_
  by_cases ha : localAddress = address
  · subst ha
    rcases past with _ | ⟨first, _ | ⟨second, past⟩⟩
    · exact covered_of_one_kind .identity fun r hr => nomatch hr
    · obtain rfl := (List.cons.inj hsplit).1
      exact covered_of_one_kind .capabilities fun r hr => by rw [List.mem_singleton.mp hr]
    · obtain ⟨rfl, hrest⟩ := List.cons.inj hsplit
      obtain ⟨rfl, hnil⟩ := List.cons.inj hrest
      obtain ⟨rfl, -⟩ := List.append_eq_nil_iff.mp hnil.symm
      intro last other hlast hother hne
      obtain rfl := Option.some.inj hlast
      rcases List.mem_cons.mp (List.mem_of_find?_eq_some hother) with rfl | hmem
      · exact absurd rfl hne
      · obtain rfl := List.mem_singleton.mp hmem
        exact .member (k := .ofText "capabilities") rfl .self
  · refine covered_of_one_kind .identity fun r hr => ?_
    obtain ⟨h, hh, hreport⟩ := List.mem_filterMap.mp hr
    have hmem : h ∈ past ++ later := List.mem_append_left later (List.mem_reverse.mp hh)
    have haddress : h.address = localAddress := by
      rw [← hsplit] at hmem
      rcases List.mem_cons.mp hmem with rfl | hmem
      · rfl
      · rw [List.mem_singleton.mp hmem]
    rw [haddress, if_neg ha] at hreport
    cases hreport

/-- The capability report replaces the identity in the record. -/
theorem capabilities_replace_identity : ¬∀ (json : JsonText) (s : ZDXServer) (hs : List Handled),
    (∀ h ∈ hs, h.calls.fault json h.message = none) → KeepsReports json s hs := by
  intro h
  have hok : ∀ h ∈ [(⟨localAddress, identityMessage, someCalls⟩ : Handled), ⟨localAddress, capabilityMessage, someCalls⟩],
      h.calls.fault ackJson h.message = none := by decide +kernel
  have hlaw := h ackJson newServer _ hok _ [] (List.append_nil _).symm
  have hcovered := (recordLaw_iff ackJson newServer (by decide)).mp hlaw localAddress
  have hwithin := hcovered ⟨.capabilities, capabilityMessage.payload⟩ ⟨.identity, identityMessage.payload⟩ rfl rfl (by decide)
  rcases within_obj hwithin with heq | ⟨e, he, hwithin⟩
  · exact absurd (congrArg (·.map (·.1)) (PyJson.obj.inj heq)) (by decide)
  · obtain rfl := List.mem_singleton.mp he
    rcases within_obj hwithin with heq | ⟨e, he, hwithin⟩
    · exact absurd (congrArg (·.map (·.1)) (PyJson.obj.inj heq)) (by decide)
    · obtain rfl := List.mem_singleton.mp he
      cases hwithin

end PyxelVM.Network
