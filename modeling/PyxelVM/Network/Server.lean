/-
  PyxelVM.Network.Server — `ZDXServer.handle_client` (`zdx_server.py`), and the node state
  it writes (`ZDXState`, `zdx_state.py`).

  One connection: what its client sends until the stream ends, however it is cut. A reset
  is such an end too, since the handler catches it like one. Each turn of the loop comes
  with what it meets (`Turn`): whether the server still runs, what the handlers of other
  connections have done by then, and what the calls give or raise. `loads` and `dumps` are
  parameters (`JsonText`), so that a body may be read, or refused, in any way; where it is
  read as `Json` has it, `decode` is that of `Framing` (`decode_eq`).

  The handler takes its address out of `peers` and `capabilities` in the branch that
  catches ConnectionError and OSError, and nowhere else.

  - `handleClient_registered_iff`: so the address stays exactly if it was registered, now
    or before, and the connection does not end by one of these (`breaks`): the server is
    stopped, or a message is refused.
  - `malformed_keeps_peer`: an identity, and then a body that is not JSON.
-/

import PyxelVM.Lib.PyJson
import PyxelVM.Network.Framing

namespace PyxelVM.Network

open PyxelVM.Lib

inductive ServerError where
  | network (e : NetworkError)
  | os
  | other
  deriving DecidableEq, Repr

/-- It is a ConnectionError or an OSError. -/
def ServerError.caught : ServerError → Bool
  | .network .connection | .os => true
  | _ => false

/-- What the calls of one turn give: the time, as text and as a number, a new UUID, and
    what `save` and `sendall` raise. -/
structure Calls where
  now : String
  uuid : PyStr
  time : PyFloat
  saving : Option ServerError := none
  sending : Option ServerError := none

/-! ## The node state -/

structure PeerRecord where
  identity : PyJson
  lastSeen : String

structure StateData where
  created : String
  peers : Dict String PeerRecord := .empty
  heartbeats : Int := 0
  lastHeartbeat : Option String := none

structure ZDXState where
  data : StateData
  /-- What the file holds, if it exists. -/
  file : Option StateData := none

/-- `save`. What one that raises does to the file, no result here depends on. -/
def ZDXState.save (s : ZDXState) (calls : Calls) : Outcome ServerError ZDXState :=
  match calls.saving with
  | some e => .raised e s
  | none => .done { s with file := some s.data }

def ZDXState.recordPeer (s : ZDXState) (calls : Calls) (address : String) (identity : PyJson) : Outcome ServerError ZDXState :=
  ZDXState.save { s with data := { s.data with peers := s.data.peers.set address ⟨identity, calls.now⟩ } } calls

def ZDXState.recordHeartbeat (s : ZDXState) (calls : Calls) : Outcome ServerError ZDXState :=
  ZDXState.save { s with data := { s.data with heartbeats := s.data.heartbeats + 1, lastHeartbeat := some calls.now } } calls

/-! ## Messages -/

/-- `json.loads` of a body, none if that raises, and `json.dumps` with `encode`. -/
structure JsonText where
  loads : List UInt8 → Option PyJson
  dumps : PyJson → List UInt8

/-- What the handler looks at in a message. -/
structure Received where
  kind : PyJson
  payload : PyJson

/-- `message.kind == kind`. -/
def Received.isKind (m : Received) (kind : String) : Bool := m.kind.isStr (.ofText kind)

/-- The fields of `ZDXMessage`. -/
def messageFields : List PyStr := ["kind", "payload", "request_id", "version", "timestamp"].map .ofText

/-- `ZDXMessage(**data)`. -/
def Received.ofData : PyJson → Option Received
  | .obj members =>
    if members.all fun m => messageFields.contains m.1 then
      match (Dict.ofList members).get? (.ofText "kind"), (Dict.ofList members).get? (.ofText "payload") with
      | some kind, some payload => some ⟨kind, payload⟩
      | _, _ => none
    else none
  | _ => none

def JsonText.decode (json : JsonText) (body : List UInt8) : Except NetworkError Received :=
  match json.loads body with
  | none => .error .notJson
  | some data =>
    match Received.ofData data with
    | none => .error .fields
    | some m => .ok m

theorem ofData_ofMembers (float : FloatText → PyFloat) {members : List (String × Json)} (h : (members.map (·.1)).Nodup) :
    Received.ofData (.obj (ofMembers float members)) =
      (ZDXMessage.ofMembers members).map fun m => ⟨ofJson float m.kind, ofJson float m.payload⟩ := by
  have hkeys : ((ofMembers float members).map (·.1)).Nodup := by
    rw [ofMembers_eq_map, List.map_map]
    have hnodup := h.map PyStr.ofText_injective
    rwa [List.map_map] at hnodup
  have hget (k : String) : (Dict.ofList (ofMembers float members)).get? (.ofText k) = (members.lookup k).map (ofJson float) := by
    apply Option.ext
    intro w
    rw [← Dict.mem_entries, Dict.entries_ofList hkeys, ofMembers_eq_map, List.mem_map, Option.map_eq_some_iff]
    constructor
    · rintro ⟨⟨l, v⟩, hm, he⟩
      obtain ⟨hl, hv⟩ := Prod.mk.inj he
      obtain rfl := PyStr.ofText_injective hl
      exact ⟨v, Dict.mem_entries (d := ⟨members, h⟩) |>.mp hm, hv⟩
    · rintro ⟨v, hv, rfl⟩
      exact ⟨(k, v), Dict.mem_of_lookup hv, rfl⟩
  have hall : (ofMembers float members).all (fun m => messageFields.contains m.1) =
      members.all fun m => ["kind", "payload", "request_id", "version", "timestamp"].contains m.1 := by
    rw [ofMembers_eq_map, List.all_map]
    congr 1
    funext m
    simp [messageFields, PyStr.ofText_injective.eq_iff]
  rw [Received.ofData, ZDXMessage.ofMembers, hall, hget, hget]
  split
  · cases members.lookup "kind" with
    | none => rfl
    | some kind =>
      cases members.lookup "payload" with
      | none => rfl
      | some payload => rfl
  · rfl

/-- Of a body that `Json` reads as `json.loads` does, `decode` makes what `Framing` says. -/
theorem decode_eq {json : JsonText} {float : FloatText → PyFloat} {body : List UInt8}
    (h : json.loads body = (Json.loads body).map (ofJson float)) :
    json.decode body = (ZDXMessage.decode body).map fun m => ⟨ofJson float m.kind, ofJson float m.payload⟩ := by
  unfold JsonText.decode ZDXMessage.decode
  rw [h]
  cases hloads : Json.loads body with
  | none => rfl
  | some v =>
    cases v with
    | obj members =>
      have hdata := ofData_ofMembers float (Json.loads_members hloads)
      simp only [Option.map_some, ofJson, hdata]
      cases ZDXMessage.ofMembers members <;> rfl
    | _ => rfl

/-- `recv_message`, with any reader of bodies. -/
def recvMessageBy {M : Type} (decode : List UInt8 → Except NetworkError M) (sock : Socket) : Except NetworkError M × Socket :=
  match recvExact sock 4 with
  | .raised .closed r => (.error .connection, r.sock)
  | .done header =>
    let size := fromBytes header.bytes
    if maxMessageSize < size then (.error .tooLargeToReceive, header.sock)
    else
      match recvExact header.sock size with
      | .raised .closed r => (.error .connection, r.sock)
      | .done body => (decode body.bytes, body.sock)

theorem recvMessage_eq_by (sock : Socket) : recvMessage sock = recvMessageBy ZDXMessage.decode sock := rfl

structure Answer where
  kind : String
  payload : PyJson

/-- `encode`, which fills in the request id and the timestamp. -/
def Answer.encode (json : JsonText) (calls : Calls) (a : Answer) : Except ServerError (List UInt8) :=
  let body := json.dumps (.obj [(.ofText "kind", .str (.ofText a.kind)), (.ofText "payload", a.payload),
    (.ofText "request_id", .str calls.uuid), (.ofText "version", .int protocolVersion), (.ofText "timestamp", .float calls.time)])
  if maxMessageSize < body.length then .error (.network .tooLargeToSend) else .ok (bigEndian 4 body.length ++ body)

def acceptedPayload : PyJson := .obj [(.ofText "accepted", .bool true)]

/-- `heartbeat()`. -/
def heartbeatAnswer : Answer := ⟨"heartbeat", .obj [(.ofText "status", .str (.ofText "alive"))]⟩

/-! ## The server -/

/-- `(host, port)`, of an IPv4 connection. -/
structure Address where
  host : UInt8 × UInt8 × UInt8 × UInt8
  port : UInt16
  deriving DecidableEq

/-- `str(address)`. -/
def Address.text (a : Address) : String :=
  "('" ++ toString a.host.1.toNat ++ "." ++ toString a.host.2.1.toNat ++ "." ++ toString a.host.2.2.1.toNat ++ "." ++
    toString a.host.2.2.2.toNat ++ "', " ++ toString a.port.toNat ++ ")"

theorem Address.text_injective : Function.Injective Address.text := by
  rintro ⟨⟨a, b, c, d⟩, p⟩ ⟨⟨a', b', c', d'⟩, p'⟩ h
  have htext := congrArg String.toList h
  simp only [Address.text, String.toList_append, List.append_assoc] at htext
  replace htext := List.append_cancel_left htext
  obtain ⟨ha, htext⟩ := toString_append_injective (by decide) htext
  obtain ⟨hb, htext⟩ := toString_append_injective (by decide) htext
  obtain ⟨hc, htext⟩ := toString_append_injective (by decide) htext
  obtain ⟨hd, htext⟩ := toString_append_injective (by decide) htext
  obtain ⟨hp, -⟩ := toString_append_injective (by decide) (List.append_cancel_left htext)
  rw [UInt8.toNat_inj.mp ha, UInt8.toNat_inj.mp hb, UInt8.toNat_inj.mp hc, UInt8.toNat_inj.mp hd, UInt16.toNat_inj.mp hp]

structure ZDXServer where
  peers : Dict Address PyJson := .empty
  capabilities : Dict Address PyJson := .empty
  state : ZDXState

/-- The address is a key of `peers` or of `capabilities`. -/
def ZDXServer.registered (s : ZDXServer) (address : Address) : Bool := s.peers.has address || s.capabilities.has address

/-- `self.peers.pop(address, None)`, and of `capabilities`. -/
def ZDXServer.forget (s : ZDXServer) (address : Address) : ZDXServer :=
  { s with peers := s.peers.erase address, capabilities := s.capabilities.erase address }

/-- The server, and what was sent to the client. -/
structure Exchange where
  server : ZDXServer
  sent : List UInt8 := []

variable (json : JsonText)

/-- `send_message`. A `sendall` that raises may have sent a part of the frame. It is left out of `sent`: the handler
    ends, so nothing follows it, and whoever reads it finds the end of the stream inside a message, as without it. -/
def sendMessage (calls : Calls) (a : Answer) (x : Exchange) : Outcome ServerError Exchange :=
  match a.encode json calls with
  | .error e => .raised e x
  | .ok frame =>
    match calls.sending with
    | some e => .raised e x
    | none => .done { x with sent := x.sent ++ frame }

/-- The node state that a call leaves, raising or not. -/
def Exchange.withState (x : Exchange) (o : Outcome ServerError ZDXState) : Outcome ServerError Exchange :=
  o.map fun state => { x with server := { x.server with state } }

/-- The body of the loop, from the message on. -/
def Exchange.handle (x : Exchange) (calls : Calls) (address : Address) (m : Received) : Outcome ServerError Exchange :=
  if m.isKind "identity" then
    let x := { x with server := { x.server with peers := x.server.peers.set address m.payload } }
    (x.withState (x.server.state.recordPeer calls address.text m.payload)).bind
      (sendMessage json calls ⟨"identity_ack", acceptedPayload⟩)
  else if m.isKind "capability_report" then
    let x := { x with server := { x.server with capabilities := x.server.capabilities.set address m.payload } }
    (x.withState (x.server.state.recordPeer calls address.text (.obj [(.ofText "capabilities", m.payload)]))).bind
      (sendMessage json calls ⟨"capability_ack", acceptedPayload⟩)
  else if m.isKind "heartbeat" then
    (x.withState (x.server.state.recordHeartbeat calls)).bind (sendMessage json calls heartbeatAnswer)
  else sendMessage json calls ⟨"ack", .obj [(.ofText "received", m.kind)]⟩ x

/-- What one turn of the loop meets. -/
structure Turn (address : Address) extends Calls where
  /-- `self.running`, when the loop asks. -/
  running : Bool := true
  /-- What the handlers of other connections do to the server until the message is there. -/
  others : ZDXServer → ZDXServer := id
  keeps : ∀ s, (others s).registered address = s.registered address := by exact fun _ => rfl

structure Connection (address : Address) where
  exchange : Exchange
  sock : Socket
  /-- What the turns from here on meet. -/
  turns : Nat → Turn address

variable {address : Address}

def Connection.turn (c : Connection address) : Outcome ServerError (Connection address) :=
  let t := c.turns 0
  let x := { c.exchange with server := t.others c.exchange.server }
  match recvMessageBy json.decode c.sock with
  | (.error e, sock) => .raised (.network e) { c with exchange := x, sock }
  | (.ok m, sock) => (x.handle json t.toCalls address m).map fun x => ⟨x, sock, fun i => c.turns (i + 1)⟩

/-- `while self.running`. A message takes bytes of the stream, so there are no more turns than that. -/
def Connection.loop (c : Connection address) (n : Nat) : Outcome ServerError (Connection address) :=
  repeatWhile (fun c => (c.turns 0).running) (Connection.turn json) n c

def ZDXServer.handleClient (s : ZDXServer) (turns : Nat → Turn address) (sock : Socket) : Outcome ServerError ZDXServer :=
  match Connection.loop json ⟨⟨s, []⟩, sock, turns⟩ (sock.stream.length + 1) with
  | .done c => .done c.exchange.server
  | .raised e c => if e.caught then .done (c.exchange.server.forget address) else .raised e c.exchange.server

/-! ## What the client sends -/

section

variable {M : Type} (decode : List UInt8 → Except NetworkError M)

/-- The first message of the stream and what comes after it, or what reading it raises. -/
def nextMessage (stream : List UInt8) : Except NetworkError (M × List UInt8) :=
  let size := fromBytes (stream.take 4)
  if stream.length < 4 then .error .connection
  else if maxMessageSize < size then .error .tooLargeToReceive
  else if stream.length < 4 + size then .error .connection
  else (decode ((stream.drop 4).take size)).map fun m => (m, (stream.drop 4).drop size)

/-- The messages of the stream, so many at most, and what is raised after them. -/
def incoming : Nat → List UInt8 → List M × NetworkError
  | 0, _ => ([], .connection)
  | n + 1, stream =>
    match nextMessage decode stream with
    | .error e => ([], e)
    | .ok (m, rest) =>
      let later := incoming n rest
      (m :: later.1, later.2)

/-- However the stream is cut. -/
theorem recvMessageBy_eq (sock : Socket) : ∃ sock',
    recvMessageBy decode sock = ((nextMessage decode sock.stream).map (·.1), sock') ∧
      ∀ m rest, nextMessage decode sock.stream = .ok (m, rest) → sock'.stream = rest := by
  unfold recvMessageBy nextMessage
  by_cases h4 : sock.stream.length < 4
  · obtain ⟨r, he⟩ := recvExact_short sock h4
    refine ⟨r.sock, ?_, fun m rest h => ?_⟩
    · simp only [he, if_pos h4]
      rfl
    · simp only [if_pos h4] at h
      cases h
  · obtain ⟨sock1, hs1, he1⟩ := recvExact_enough sock (n := 4) (by omega)
    simp only [he1, if_neg h4]
    generalize fromBytes (sock.stream.take 4) = size
    by_cases hsize : maxMessageSize < size
    · simp only [if_pos hsize]
      exact ⟨sock1, rfl, fun m rest h => nomatch h⟩
    · simp only [if_neg hsize]
      have hlen : sock1.stream.length = sock.stream.length - 4 := by rw [hs1, List.length_drop]
      by_cases hbody : sock.stream.length < 4 + size
      · obtain ⟨r, he2⟩ := recvExact_short sock1 (n := size) (by omega)
        simp only [he2, if_pos hbody]
        exact ⟨r.sock, rfl, fun m rest h => nomatch h⟩
      · obtain ⟨sock2, hs2, he2⟩ := recvExact_enough sock1 (n := size) (by omega)
        simp only [he2, if_neg hbody, hs1] at hs2 ⊢
        refine ⟨sock2, ?_, fun m rest h => ?_⟩
        · cases decode ((sock.stream.drop 4).take size) <;> rfl
        · obtain ⟨m', -, hm⟩ := except_map_ok h
          rw [hs2]
          exact (Prod.mk.inj hm).2

variable {decode}

theorem nextMessage_shorter {stream rest : List UInt8} {m : M} (h : nextMessage decode stream = .ok (m, rest)) :
    rest.length < stream.length := by
  unfold nextMessage at h
  dsimp only at h
  split at h
  · cases h
  · split at h
    · cases h
    · split at h
      · cases h
      · obtain ⟨m', -, hm⟩ := except_map_ok h
        rw [← (Prod.mk.inj hm).2, List.length_drop, List.length_drop]
        omega

end

/-! ## How the handler ends -/

/-- The handler enters the address in one of the two dictionaries. -/
def Received.registers (m : Received) : Bool := m.isKind "identity" || m.isKind "capability_report"

def Received.answer (m : Received) : Answer :=
  if m.isKind "identity" then ⟨"identity_ack", acceptedPayload⟩
  else if m.isKind "capability_report" then ⟨"capability_ack", acceptedPayload⟩
  else if m.isKind "heartbeat" then heartbeatAnswer
  else ⟨"ack", .obj [(.ofText "received", m.kind)]⟩

/-- What making the answer or sending it raises. -/
def Calls.sendFault (calls : Calls) (a : Answer) : Option ServerError :=
  match a.encode json calls with
  | .error e => some e
  | .ok _ => calls.sending

/-- What handling the message raises. -/
def Calls.fault (calls : Calls) (m : Received) : Option ServerError :=
  (if m.registers || m.isKind "heartbeat" then calls.saving else none).or (calls.sendFault json m.answer)

/-- Of the messages, and what is raised after them: the handler ends by an exception that it catches. -/
def breaks : List Received → NetworkError → (Nat → Turn address) → Bool
  | [], e, turns => (turns 0).running && (ServerError.network e).caught
  | m :: ms, e, turns => (turns 0).running &&
    match (turns 0).fault json m with
    | some e => e.caught
    | none => breaks ms e fun i => turns (i + 1)

/-- The handler comes to a message that registers the address. -/
def registers : List Received → (Nat → Turn address) → Bool
  | [], _ => false
  | m :: ms, turns => (turns 0).running &&
    (m.registers || ((turns 0).fault json m).isNone && registers ms fun i => turns (i + 1))

theorem sendMessage_spec (calls : Calls) (a : Answer) (x : Exchange) :
    ∃ x', x'.server = x.server ∧ sendMessage json calls a x = .ended (calls.sendFault json a) x' := by
  unfold sendMessage Calls.sendFault
  cases a.encode json calls with
  | error e => exact ⟨x, rfl, rfl⟩
  | ok frame =>
    cases calls.sending with
    | some e => exact ⟨x, rfl, rfl⟩
    | none => exact ⟨{ x with sent := x.sent ++ frame }, rfl, rfl⟩

/-- A turn that saves the state first. -/
theorem save_then_send (calls : Calls) (a : Answer) (x : Exchange) (state : ZDXState) :
    ∃ state' x', x'.server = { x.server with state := state' } ∧
      (calls.saving = none → state' = ⟨state.data, some state.data⟩) ∧
      (x.withState (state.save calls)).bind (sendMessage json calls a) =
        .ended (calls.saving.or (calls.sendFault json a)) x' := by
  unfold ZDXState.save
  cases calls.saving with
  | some e => exact ⟨state, { x with server := { x.server with state } }, rfl, nofun, rfl⟩
  | none =>
    obtain ⟨x', hserver, he⟩ := sendMessage_spec json calls a
      { x with server := { x.server with state := { state with file := some state.data } } }
    exact ⟨_, x', hserver, fun _ => rfl, he⟩

/-- What one message does: it registers the address, or not, and raises the fault there is. -/
theorem handle_spec (x : Exchange) (calls : Calls) (address : Address) (m : Received) : ∃ x',
    x'.server.registered address = (x.server.registered address || m.registers) ∧
      x.handle json calls address m = .ended (calls.fault json m) x' := by
  unfold Exchange.handle Calls.fault Received.answer Received.registers
  cases hidentity : m.isKind "identity" with
  | true =>
    obtain ⟨state, x', hserver, -, he⟩ := save_then_send json calls ⟨"identity_ack", acceptedPayload⟩ _ _
    refine ⟨x', ?_, he⟩
    rw [hserver]
    simp [ZDXServer.registered, Dict.has_set_self]
  | false =>
    cases hcapability : m.isKind "capability_report" with
    | true =>
      obtain ⟨state, x', hserver, -, he⟩ := save_then_send json calls ⟨"capability_ack", acceptedPayload⟩ _ _
      refine ⟨x', ?_, he⟩
      rw [hserver]
      simp [ZDXServer.registered, Dict.has_set_self]
    | false =>
      cases hheartbeat : m.isKind "heartbeat" with
      | true =>
        obtain ⟨state, x', hserver, -, he⟩ := save_then_send json calls heartbeatAnswer x _
        refine ⟨x', ?_, he⟩
        rw [hserver]
        simp [ZDXServer.registered]
      | false =>
        obtain ⟨x', hserver, he⟩ := sendMessage_spec json calls ⟨"ack", .obj [(.ofText "received", m.kind)]⟩ x
        refine ⟨x', ?_, he⟩
        rw [hserver]
        simp

variable {json}

/-- A turn that reads no message raises what reading raises. -/
theorem turn_error {c : Connection address} {e : NetworkError} (h : nextMessage json.decode c.sock.stream = .error e) :
    ∃ c', c'.exchange.server.registered address = c.exchange.server.registered address ∧
      c.turn json = .raised (.network e) c' := by
  obtain ⟨sock, hrecv, -⟩ := recvMessageBy_eq json.decode c.sock
  rw [h] at hrecv
  unfold Connection.turn
  rw [hrecv]
  exact ⟨_, (c.turns 0).keeps _, rfl⟩

/-- A turn that reads a message. -/
theorem turn_ok {c : Connection address} {m : Received} {rest : List UInt8}
    (h : nextMessage json.decode c.sock.stream = .ok (m, rest)) :
    ∃ c', c'.exchange.server.registered address = (c.exchange.server.registered address || m.registers) ∧
      c'.sock.stream = rest ∧ c'.turns = (fun i => c.turns (i + 1)) ∧
      c.turn json = .ended ((c.turns 0).fault json m) c' := by
  obtain ⟨sock, hrecv, hrest⟩ := recvMessageBy_eq json.decode c.sock
  rw [h] at hrecv
  obtain ⟨x, hregistered, hhandle⟩ := handle_spec json
    { c.exchange with server := (c.turns 0).others c.exchange.server } (c.turns 0).toCalls address m
  refine ⟨⟨x, sock, fun i => c.turns (i + 1)⟩, ?_, hrest m rest h, rfl, ?_⟩
  · rw [hregistered, (c.turns 0).keeps]
  · unfold Connection.turn
    rw [hrecv]
    exact (congrArg _ hhandle).trans (Outcome.map_ended _ _ _)

theorem loop_succ (c : Connection address) (n : Nat) :
    c.loop json (n + 1) = if (c.turns 0).running then (c.turn json).bind fun c => c.loop json n else .done c := rfl

theorem registers_stopped {turns : Nat → Turn address} (h : (turns 0).running = false) (ms : List Received) :
    registers json ms turns = false := by
  cases ms with
  | nil => rfl
  | cons m ms => rw [registers, h, Bool.false_and]

theorem breaks_stopped {turns : Nat → Turn address} (h : (turns 0).running = false) (ms : List Received) (e : NetworkError) :
    breaks json ms e turns = false := by
  cases ms with
  | nil => rw [breaks, h, Bool.false_and]
  | cons m ms => rw [breaks, h, Bool.false_and]

/-- The loop ends because the server was stopped, or by an exception; and of the stream and the turns one can tell which,
    and whether it has registered the address. -/
theorem loop_spec (json : JsonText) {n : Nat} {c : Connection address} (hn : c.sock.stream.length < n) :
    ∃ c', c'.exchange.server.registered address = (c.exchange.server.registered address ||
        registers json (incoming json.decode n c.sock.stream).1 c.turns) ∧
      ((c.loop json n = .done c' ∧ (c'.turns 0).running = false ∧
          breaks json (incoming json.decode n c.sock.stream).1 (incoming json.decode n c.sock.stream).2 c.turns = false) ∨
        ∃ e, c.loop json n = .raised e c' ∧
          e.caught = breaks json (incoming json.decode n c.sock.stream).1 (incoming json.decode n c.sock.stream).2 c.turns) := by
  induction n generalizing c with
  | zero => exact absurd hn (Nat.not_lt_zero _)
  | succ n ih =>
    rw [loop_succ]
    cases hrunning : (c.turns 0).running with
    | false =>
      refine ⟨c, ?_, .inl ⟨rfl, hrunning, ?_⟩⟩
      · rw [registers_stopped hrunning, Bool.or_false]
      · exact breaks_stopped hrunning _ _
    | true =>
      rw [if_pos rfl, incoming]
      cases hnext : nextMessage json.decode c.sock.stream with
      | error e =>
        obtain ⟨c', hregistered, hturn⟩ := turn_error hnext
        rw [hturn]
        refine ⟨c', ?_, .inr ⟨.network e, rfl, ?_⟩⟩
        · rw [hregistered, registers, Bool.or_false]
        · rw [breaks, hrunning, Bool.true_and]
      | ok read =>
        obtain ⟨m, rest⟩ := read
        obtain ⟨c1, hregistered, hstream, hturns, hturn⟩ := turn_ok hnext
        rw [hturn]
        dsimp only
        rw [registers, breaks, hrunning, Bool.true_and, Bool.true_and]
        cases hfault : (c.turns 0).fault json m with
        | some e =>
          refine ⟨c1, ?_, .inr ⟨e, rfl, rfl⟩⟩
          rw [hregistered, Option.isNone_some, Bool.false_and, Bool.or_false]
        | none =>
          have hshorter := nextMessage_shorter hnext
          obtain ⟨c', hregistered', hend⟩ := ih (c := c1) (by rw [hstream]; omega)
          rw [hstream, hturns] at hregistered' hend
          refine ⟨c', ?_, hend⟩
          rw [hregistered', hregistered, Option.isNone_none, Bool.true_and, Bool.or_assoc]

/-- The messages of the stream, and what is raised after them. -/
def JsonText.received (json : JsonText) (stream : List UInt8) : List Received × NetworkError :=
  incoming json.decode (stream.length + 1) stream

theorem handleClient_registered (json : JsonText) (s : ZDXServer) (turns : Nat → Turn address) (sock : Socket) :
    (s.handleClient json turns sock).state.registered address =
      (!breaks json (json.received sock.stream).1 (json.received sock.stream).2 turns &&
        (s.registered address || registers json (json.received sock.stream).1 turns)) := by
  obtain ⟨c, hregistered, hend⟩ := loop_spec json (c := ⟨⟨s, []⟩, sock, turns⟩) (Nat.lt_succ_self _)
  unfold ZDXServer.handleClient JsonText.received
  rcases hend with ⟨hloop, -, hbreaks⟩ | ⟨e, hloop, hcaught⟩
  · rw [hloop, hbreaks]
    exact hregistered
  · rw [hloop, ← hcaught]
    dsimp only
    cases e.caught with
    | true => simp [Outcome.state, ZDXServer.registered, ZDXServer.forget, Dict.has_erase_self]
    | false =>
      rw [Bool.not_false, Bool.true_and]
      exact hregistered

/-- Whatever the client sends, however the server stops: the address is left in neither dictionary exactly if the
    connection breaks, or there was no registration and comes none. -/
theorem handleClient_registered_iff (json : JsonText) (s : ZDXServer) (address : Address) (turns : Nat → Turn address)
    (sock : Socket) :
    (s.handleClient json turns sock).state.registered address = false ↔
      breaks json (json.received sock.stream).1 (json.received sock.stream).2 turns = true ∨
        (s.registered address = false ∧ registers json (json.received sock.stream).1 turns = false) := by
  rw [handleClient_registered]
  cases breaks json (json.received sock.stream).1 (json.received sock.stream).2 turns <;> simp

def localAddress : Address := ⟨(127, 0, 0, 1), 54321⟩

/-- `{"kind":"identity","payload":{}}`. -/
def identityBody : List UInt8 := utf8 "\x7b\"kind\":\"identity\",\"payload\":\x7b\x7d\x7d"

/-- `json`, as far as `identityBody` and the answers to it and to a capability report go. -/
def ackJson : JsonText where
  loads body :=
    if body = identityBody then some (.obj [(.ofText "kind", .str (.ofText "identity")), (.ofText "payload", .obj [])])
    else none
  dumps v :=
    match v with
    | .obj ((_, .str kind) :: _) =>
      utf8 ("\x7b\"kind\":\"" ++ kind.text?.getD "" ++
        "\",\"payload\":\x7b\"accepted\":true\x7d,\"request_id\":\"7c0f\",\"version\":1,\"timestamp\":1.5\x7d")
    | _ => []

def someCalls : Calls := { now := "2025-01-01T00:00:00+00:00", uuid := .ofText "7c0f", time := .finite (3 / 2) }

def newServer : ZDXServer where
  state := { data := { created := "2025-01-01T00:00:00+00:00" } }

/-- An identity message, and a frame whose body is one brace. -/
def malformedStream : List UInt8 := bigEndian 4 identityBody.length ++ identityBody ++ [0, 0, 0, 1, 123]

/-- The body that is not JSON raises a ValueError, and the address stays. -/
theorem malformed_keeps_peer : ¬∀ (json : JsonText) (s : ZDXServer) (address : Address) (turns : Nat → Turn address)
    (sock : Socket), (s.handleClient json turns sock).state.registered address = false := by
  intro h
  have hgone := h ackJson newServer localAddress (fun _ => { toCalls := someCalls }) ⟨malformedStream, fun _ => 0⟩
  rw [handleClient_registered] at hgone
  exact absurd hgone (by decide +kernel)

end PyxelVM.Network
