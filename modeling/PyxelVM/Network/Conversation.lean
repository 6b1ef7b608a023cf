/-
  PyxelVM.Network.Conversation — what a client of `ZDXServer` reads (`zdx_server.py`,
  `zdx_network.py`).

  There are no request ids in the answers: a client that has sent several messages knows
  an answer by its place. `answers_in_order`: however the two streams are cut, what it reads
  are the answers to the first messages it sent, one each, up to the first that finds the
  server stopped or makes a call raise, and then the end of the stream.
-/

import PyxelVM.Network.Server

namespace PyxelVM.Network

open PyxelVM.Lib

variable {address : Address}

/-- What `encode` is given for an answer. -/
def Answer.object (calls : Calls) (a : Answer) : PyJson :=
  .obj [(.ofText "kind", .str (.ofText a.kind)), (.ofText "payload", a.payload), (.ofText "request_id", .str calls.uuid),
    (.ofText "version", .int protocolVersion), (.ofText "timestamp", .float calls.time)]

/-- The answer as it is read. -/
def Answer.asReceived (a : Answer) : Received := ⟨.str (.ofText a.kind), a.payload⟩

/-- The frame that is sent, or nothing where it is too large. -/
def Answer.frame (json : JsonText) (calls : Calls) (a : Answer) : List UInt8 := ((a.encode json calls).toOption).getD []

/-- The messages that are answered: those before one that finds the server stopped, or makes a call raise. -/
def answered (json : JsonText) : List Received → (Nat → Turn address) → List Received
  | [], _ => []
  | m :: ms, turns =>
    if (turns 0).running && ((turns 0).fault json m).isNone then m :: answered json ms fun i => turns (i + 1) else []

/-- What is sent to them. -/
def answerFrames (json : JsonText) : List Received → (Nat → Turn address) → List UInt8
  | [], _ => []
  | m :: ms, turns =>
    if (turns 0).running && ((turns 0).fault json m).isNone then
      m.answer.frame json (turns 0).toCalls ++ answerFrames json ms fun i => turns (i + 1)
    else []

/-- `json.loads` gives back every answer to one of the messages that `json.dumps` has written. -/
def ReadsBack (json : JsonText) (turns : Nat → Turn address) (ms : List Received) : Prop :=
  ∀ m ∈ ms, ∀ i, json.loads (json.dumps (m.answer.object (turns i).toCalls)) = some (m.answer.object (turns i).toCalls)

variable {json : JsonText}

/-! ## What is sent -/

theorem frame_eq {calls : Calls} {a : Answer} {frame : List UInt8} (h : a.encode json calls = .ok frame) : a.frame json calls = frame := by
  rw [Answer.frame, h]
  rfl

/-- A message that raises nothing has its answer sent; one that raises has not. -/
theorem sendMessage_sent (calls : Calls) (a : Answer) (x : Exchange) :
    (sendMessage json calls a x).state.sent =
      if (calls.sendFault json a).isNone then x.sent ++ a.frame json calls else x.sent := by
  unfold sendMessage Calls.sendFault
  cases he : a.encode json calls with
  | error e => rfl
  | ok frame =>
    rw [frame_eq he]
    cases calls.sending <;> rfl

theorem save_sent (calls : Calls) (a : Answer) (x : Exchange) (state : ZDXState) :
    ((x.withState (state.save calls)).bind (sendMessage json calls a)).state.sent =
      if (calls.saving.or (calls.sendFault json a)).isNone then x.sent ++ a.frame json calls else x.sent := by
  unfold ZDXState.save
  cases calls.saving with
  | some e => rfl
  | none => exact sendMessage_sent calls a _

theorem handle_sent (x : Exchange) (calls : Calls) (m : Received) :
    (x.handle json calls address m).state.sent =
      if (calls.fault json m).isNone then x.sent ++ m.answer.frame json calls else x.sent := by
  unfold Exchange.handle Calls.fault Received.answer Received.registers
  cases hidentity : m.isKind "identity" with
  | true => exact save_sent calls _ _ _
  | false =>
    cases hcapability : m.isKind "capability_report" with
    | true => exact save_sent calls _ _ _
    | false =>
      cases hheartbeat : m.isKind "heartbeat" with
      | true => exact save_sent calls _ _ _
      | false =>
        simp only [Bool.false_eq_true, if_false, Bool.or_self, Option.none_or]
        exact sendMessage_sent calls _ x

/-- A turn that reads no message sends nothing. -/
theorem turn_error_sent {c : Connection address} {e : NetworkError} (h : nextMessage json.decode c.sock.stream = .error e) :
    (c.turn json).state.exchange.sent = c.exchange.sent ∧ ∃ e c', c.turn json = .raised e c' := by
  obtain ⟨sock, hrecv, -⟩ := recvMessageBy_eq json.decode c.sock
  rw [h] at hrecv
  unfold Connection.turn
  rw [hrecv]
  exact ⟨rfl, _, _, rfl⟩

theorem turn_ok_sent {c : Connection address} {m : Received} {rest : List UInt8}
    (h : nextMessage json.decode c.sock.stream = .ok (m, rest)) :
    (c.turn json).state.exchange.sent =
      if ((c.turns 0).fault json m).isNone then c.exchange.sent ++ m.answer.frame json (c.turns 0).toCalls else c.exchange.sent := by
  obtain ⟨sock, hrecv, -⟩ := recvMessageBy_eq json.decode c.sock
  rw [h] at hrecv
  unfold Connection.turn
  rw [hrecv]
  simp only [Except.map, Outcome.state_map]
  exact handle_sent _ _ m

/-- What the whole connection sends. -/
theorem loop_sent {n : Nat} {c : Connection address} (hn : c.sock.stream.length < n) :
    (c.loop json n).state.exchange.sent =
      c.exchange.sent ++ answerFrames json (incoming json.decode n c.sock.stream).1 c.turns := by
  induction n generalizing c with
  | zero => exact absurd hn (Nat.not_lt_zero _)
  | succ n ih =>
    rw [loop_succ, incoming]
    cases hrunning : (c.turns 0).running with
    | false =>
      have hnone (ms : List Received) : answerFrames json ms c.turns = [] := by
        cases ms with
        | nil => rfl
        | cons m ms => rw [answerFrames, hrunning, Bool.false_and, if_neg Bool.false_ne_true]
      rw [hnone, List.append_nil]
      rfl
    | true =>
      rw [if_pos rfl]
      cases hnext : nextMessage json.decode c.sock.stream with
      | error e =>
        obtain ⟨hsent, e', c', hturn⟩ := turn_error_sent hnext
        rw [hturn] at hsent ⊢
        exact hsent.trans (List.append_nil _).symm
      | ok read =>
        obtain ⟨m, rest⟩ := read
        have hsent := turn_ok_sent hnext
        obtain ⟨c1, -, hstream, hturns, hturn⟩ := turn_ok hnext
        rw [hturn] at hsent ⊢
        rw [Outcome.state_ended] at hsent
        dsimp only
        rw [answerFrames, hrunning, Bool.true_and]
        cases hfault : (c.turns 0).fault json m with
        | some e =>
          rw [hfault] at hsent
          exact hsent.trans (List.append_nil _).symm
        | none =>
          have hshorter := nextMessage_shorter hnext
          rw [hfault, Option.isNone_none, if_pos rfl] at hsent
          rw [Option.isNone_none, if_pos rfl]
          refine (ih (c := c1) (by rw [hstream]; omega)).trans ?_
          rw [hsent, hstream, hturns, List.append_assoc]

/-! ## What is read -/

theorem ofData_object (calls : Calls) (a : Answer) : Received.ofData (a.object calls) = some a.asReceived := by
  have hall : ([(PyStr.ofText "kind", PyJson.str (.ofText a.kind)), (.ofText "payload", a.payload), (.ofText "request_id", .str calls.uuid),
      (.ofText "version", .int protocolVersion), (.ofText "timestamp", .float calls.time)].all
        fun m => messageFields.contains m.1) = true := by
    simp [messageFields, PyStr.ofText_injective.eq_iff]
  simp only [Answer.object, Received.ofData, hall, if_true]
  simp [Dict.get?_ofList, List.lookup_cons, Answer.asReceived, beq_eq_decide, PyStr.ofText_injective.eq_iff]

/-- A frame whose body is read back is one message, and what follows it is left. -/
theorem nextMessage_frame {calls : Calls} {a : Answer} {frame rest : List UInt8} (h : a.encode json calls = .ok frame)
    (hread : json.loads (json.dumps (a.object calls)) = some (a.object calls)) :
    nextMessage json.decode (frame ++ rest) = .ok (a.asReceived, rest) := by
  unfold Answer.encode at h
  dsimp only at h
  split at h
  · cases h
  · rename_i hsize
    obtain rfl := Except.ok.inj h
    change ¬maxMessageSize < (json.dumps (a.object calls)).length at hsize
    change nextMessage json.decode (bigEndian 4 (json.dumps (a.object calls)).length ++ json.dumps (a.object calls) ++ rest) = _
    generalize hbody : json.dumps (a.object calls) = body at hsize hread ⊢
    have hlen : (bigEndian 4 body.length).length = 4 := length_bigEndian 4 _
    have hheader : fromBytes ((bigEndian 4 body.length ++ body ++ rest).take 4) = body.length := by
      rw [List.append_assoc, List.take_left' hlen, header_length _ (Nat.le_of_not_lt hsize)]
    have hdrop : (bigEndian 4 body.length ++ body ++ rest).drop 4 = body ++ rest := by rw [List.append_assoc, List.drop_left' hlen]
    have hlong : 4 + body.length ≤ (bigEndian 4 body.length ++ body ++ rest).length := by
      rw [List.length_append, List.length_append, hlen]
      omega
    have hdecode : json.decode body = .ok a.asReceived := by
      unfold JsonText.decode
      rw [hread]
      dsimp only
      rw [ofData_object]
    unfold nextMessage
    rw [hheader, hdrop, if_neg (by omega), if_neg hsize, if_neg (by omega), List.take_left' rfl, List.drop_left' rfl, hdecode]
    rfl

theorem frame_ne_nil {calls : Calls} {a : Answer} {frame : List UInt8} (h : a.encode json calls = .ok frame) : 4 ≤ frame.length := by
  unfold Answer.encode at h
  dsimp only at h
  split at h
  · cases h
  · obtain rfl := Except.ok.inj h
    rw [List.length_append, length_bigEndian]
    omega

/-- An answer that is sent was not too large. -/
theorem encode_of_fault {calls : Calls} {m : Received} (h : calls.fault json m = none) :
    ∃ frame, m.answer.encode json calls = .ok frame := by
  have hsend := (Option.or_eq_none_iff.mp h).2
  unfold Calls.sendFault at hsend
  cases he : m.answer.encode json calls with
  | ok frame => exact ⟨frame, rfl⟩
  | error e =>
    rw [he] at hsend
    cases hsend

/-- The frames of the answers are read as the answers. -/
theorem incoming_answers {ms : List Received} {turns : Nat → Turn address} (hread : ReadsBack json turns ms) {n : Nat}
    (hn : (answerFrames json ms turns).length < n) :
    incoming json.decode n (answerFrames json ms turns) = ((answered json ms turns).map fun m => m.answer.asReceived, .connection) := by
  induction ms generalizing turns n with
  | nil =>
    obtain ⟨n, rfl⟩ : ∃ k, n = k + 1 := ⟨n - 1, by simp only [answerFrames] at hn; omega⟩
    rfl
  | cons m ms ih =>
    rw [answerFrames, answered] at *
    split
    · rename_i hok
      rw [if_pos hok] at hn
      obtain ⟨-, hfault⟩ := Bool.and_eq_true_iff.mp hok
      obtain ⟨frame, hframe⟩ := encode_of_fault (Option.isNone_iff_eq_none.mp hfault)
      rw [frame_eq hframe] at hn ⊢
      have h4 := frame_ne_nil hframe
      rw [List.length_append] at hn
      obtain ⟨n, rfl⟩ : ∃ k, n = k + 1 := ⟨n - 1, by omega⟩
      rw [incoming, nextMessage_frame hframe (hread m (List.mem_cons_self ..) 0)]
      dsimp only
      rw [ih (fun m' hm' i => hread m' (List.mem_cons_of_mem m hm') (i + 1)) (by omega)]
      rfl
    · obtain ⟨n, rfl⟩ : ∃ k, n = k + 1 := ⟨n - 1, by omega⟩
      rfl

/-- So many calls of `recv_message` by the client, up to one that raises. -/
def clientReads (json : JsonText) : Nat → Socket → List Received × NetworkError
  | 0, _ => ([], .connection)
  | n + 1, sock =>
    match recvMessageBy json.decode sock with
    | (.error e, _) => ([], e)
    | (.ok m, sock) =>
      let later := clientReads json n sock
      (m :: later.1, later.2)

theorem clientReads_eq (json : JsonText) (n : Nat) (sock : Socket) : clientReads json n sock = incoming json.decode n sock.stream := by
  induction n generalizing sock with
  | zero => rfl
  | succ n ih =>
    obtain ⟨sock', hrecv, hrest⟩ := recvMessageBy_eq json.decode sock
    rw [clientReads, incoming, hrecv]
    cases hnext : nextMessage json.decode sock.stream with
    | error e => rfl
    | ok read =>
      obtain ⟨m, rest⟩ := read
      simp only [Except.map, ih, hrest m rest hnext]

theorem answered_frames (json : JsonText) (ms : List Received) (turns : Nat → Turn address) : answered json ms turns <+: ms := by
  induction ms generalizing turns with
  | nil => exact List.nil_prefix
  | cons m ms ih =>
    rw [answered]
    split
    · exact List.cons_prefix_cons.mpr ⟨rfl, ih _⟩
    · exact List.nil_prefix

/-- Whatever a client sends, and however both streams are cut: what it reads are the answers to
    the first of its messages, one each and in their order, and then the end of the stream. -/
theorem answers_in_order (json : JsonText) (s : ZDXServer) (turns : Nat → Turn address) (sock : Socket)
    (hread : ReadsBack json turns (json.received sock.stream).1) (cuts : Nat → Nat) :
    let sent := (Connection.loop json ⟨⟨s, []⟩, sock, turns⟩ (sock.stream.length + 1)).state.exchange.sent
    let ms := answered json (json.received sock.stream).1 turns
    ms <+: (json.received sock.stream).1 ∧
      clientReads json (sent.length + 1) ⟨sent, cuts⟩ = (ms.map fun m => m.answer.asReceived, .connection) := by
  intro sent ms
  refine ⟨answered_frames json _ turns, ?_⟩
  have hsent : sent = answerFrames json (json.received sock.stream).1 turns := loop_sent (Nat.lt_succ_self _)
  rw [clientReads_eq, hsent]
  exact incoming_answers hread (Nat.lt_succ_self _)

/-- The answer to an identity, at `someCalls`. -/
def identityAck : PyJson := Answer.object someCalls ⟨"identity_ack", acceptedPayload⟩

/-- The answer to a capability report, at `someCalls`. -/
def capabilityAck : PyJson := Answer.object someCalls ⟨"capability_ack", acceptedPayload⟩

/-- `{"kind":"capability_report","payload":{}}`. -/
def capabilityBody : List UInt8 := utf8 "\x7b\"kind\":\"capability_report\",\"payload\":\x7b\x7d\x7d"

/-- `json`, as far as an identity, a capability report and their answers go. -/
def reportJson : JsonText where
  loads body :=
    if body = ackJson.dumps identityAck then some identityAck
    else if body = ackJson.dumps capabilityAck then some capabilityAck
    else if body = capabilityBody then
      some (.obj [(.ofText "kind", .str (.ofText "capability_report")), (.ofText "payload", .obj [])])
    else ackJson.loads body
  dumps := ackJson.dumps

/-- An identity and a capability report, and the stream ends. -/
def reportStream : List UInt8 :=
  bigEndian 4 identityBody.length ++ identityBody ++ (bigEndian 4 capabilityBody.length ++ capabilityBody)

theorem answers_in_order_two :
    let sent := (Connection.loop reportJson ⟨⟨newServer, []⟩, ⟨reportStream, fun _ => 1⟩,
      fun _ => ({ toCalls := someCalls } : Turn localAddress)⟩ (reportStream.length + 1)).state.exchange.sent
    clientReads reportJson (sent.length + 1) ⟨sent, fun _ => 1⟩ =
      ([⟨.str (.ofText "identity_ack"), acceptedPayload⟩, ⟨.str (.ofText "capability_ack"), acceptedPayload⟩], .connection) := by
  intro sent
  have hmessages : (reportJson.received reportStream).1 =
      [⟨.str (.ofText "identity"), .obj []⟩, ⟨.str (.ofText "capability_report"), .obj []⟩] := by rfl
  have hread : ReadsBack reportJson (fun _ => ({ toCalls := someCalls } : Turn localAddress))
      (reportJson.received reportStream).1 := by
    rw [hmessages]
    intro m hm _
    simp only [List.mem_cons, List.not_mem_nil, or_false] at hm
    rcases hm with rfl | rfl <;> rfl
  have h := (answers_in_order reportJson newServer (fun _ => ({ toCalls := someCalls } : Turn localAddress))
    ⟨reportStream, fun _ => 1⟩ hread fun _ => 1).2
  refine h.trans ?_
  rw [hmessages]
  rfl

end PyxelVM.Network
