/-
  PyxelVM.Network.NodeSession — a `ZDXNode` and its server (`zdx_node.py`, `zdx_server.py`).

  `connect` sends the node's identity and does not wait for the answer. Each `ping` sends a
  heartbeat and takes the next message for its answer. But the server answers an identity
  too, and answers have no request ids. `connect` gives the socket a timeout: a ping whose
  answer is late raises, and the answer stays in the stream for the next one.

  A ping is a step on the socket (`NodeSocket.ping`): what has been sent on it, and how much
  of the answers has been read. It comes with what it meets (`PingTurn`): a `sendall` that
  raises within the frame, and how many bytes arrive before a receive times out.

  - `pings_lag`: so a ping returns the first answer that no ping before it has returned: the
    first to return one the identity's, and every other the answer to a heartbeat before
    its own, the further before the more have timed out. What a ping returns says nothing
    of its own heartbeat. The run is one in which no receive has timed out inside a frame:
    `recv_exact` drops what it has read then, and the rest of the frame is read as one.
-/

import Mathlib.Data.List.Induction
import PyxelVM.Lib.Trace
import PyxelVM.Network.Conversation

namespace PyxelVM.Network

open PyxelVM.Lib
open PyxelVM.Lib.Trace

variable {address : Address}

structure ZDXNode where
  host : String := "127.0.0.1"
  port : Nat := 8765
  nodeId : String

/-- `identity()`. -/
def ZDXNode.identity (n : ZDXNode) : Answer :=
  ⟨"identity", .obj [(.ofText "node_id", .str (.ofText n.nodeId)), (.ofText "protocol", .int 1)]⟩

/-- The messages of a connection: what `connect` sends, and then the pings. -/
def ZDXNode.sends (n : ZDXNode) : Nat → Answer
  | 0 => n.identity
  | _ + 1 => heartbeatAnswer

/-- The other end of a connection. -/
structure ServerEnd (address : Address) where
  server : ZDXServer
  turns : Nat → Turn address
  cuts : Nat → Nat

/-- What the server has sent once it has read these bytes. -/
def ServerEnd.sends (json : JsonText) (e : ServerEnd address) (stream : List UInt8) : List UInt8 :=
  (Connection.loop json ⟨⟨e.server, []⟩, ⟨stream, e.cuts⟩, e.turns⟩ (stream.length + 1)).state.exchange.sent

/-- A connected socket: the bytes sent on it, and how many of the answers' bytes have been read. -/
structure NodeSocket where
  sent : List UInt8
  read : Nat := 0

/-- `connect`, and nothing where it raises. -/
def ZDXNode.connect (json : JsonText) (n : ZDXNode) (calls : Calls) : Option NodeSocket :=
  match n.identity.encode json calls, calls.sending with
  | .ok frame, none => some { sent := frame }
  | _, _ => none

/-- What a ping meets. -/
structure PingTurn where
  calls : Calls
  /-- After how many bytes `sendall` raises, if it does. -/
  sends : Option Nat := none
  /-- How many bytes that are not read yet arrive before a receive times out or finds the connection closed. -/
  arriving : Nat
  cuts : Nat → Nat

/-- `ping`, and nothing where it raises. What `recv_exact` has read when a receive raises is lost. -/
def NodeSocket.ping (json : JsonText) (e : ServerEnd address) (w : NodeSocket) (t : PingTurn) : Option Received × NodeSocket :=
  match heartbeatAnswer.encode json t.calls with
  | .error _ => (none, w)
  | .ok frame =>
    match t.sends with
    | some k => (none, { w with sent := w.sent ++ frame.take k })
    | none =>
      let sent := w.sent ++ frame
      let arrived := ((e.sends json sent).drop w.read).take t.arriving
      let r := recvMessageBy json.decode ⟨arrived, t.cuts⟩
      (r.1.toOption, ⟨sent, w.read + (arrived.length - r.2.stream.length)⟩)

/-- No ping has lost a part of a frame: one that returns nothing has read nothing. -/
def FramesWhole (json : JsonText) (e : ServerEnd address) (w : NodeSocket) (ts : List PingTurn) : Prop :=
  ∀ before t after, ts = before ++ t :: after →
    ((final (NodeSocket.ping json e) w before).ping json e t).1 = none →
      ((final (NodeSocket.ping json e) w before).ping json e t).2.read = (final (NodeSocket.ping json e) w before).read

/-- How many of the pings returned a message. -/
def returned (json : JsonText) (e : ServerEnd address) (w : NodeSocket) (ts : List PingTurn) : Nat :=
  (log (NodeSocket.ping json e) w ts).countP fun x => x.2.isSome

/-- The message is not too large, and `json.loads` gives it back. -/
structure Arrives (json : JsonText) (a : Answer) (calls : Calls) : Prop where
  fits : ∃ frame, a.encode json calls = .ok frame
  reads : json.loads (json.dumps (a.object calls)) = some (a.object calls)

variable {json : JsonText}

/-! ## Streams of frames -/

/-- Frames that arrive are read as the messages they are of. -/
theorem incoming_frames {as : List (Answer × Calls)} (h : ∀ p ∈ as, Arrives json p.1 p.2) {count : Nat}
    (hcount : (as.flatMap fun p => p.1.frame json p.2).length < count) :
    incoming json.decode count (as.flatMap fun p => p.1.frame json p.2) = (as.map fun p => p.1.asReceived, .connection) := by
  induction as generalizing count with
  | nil =>
    obtain ⟨count, rfl⟩ : ∃ k, count = k + 1 := ⟨count - 1, by simp only [List.flatMap_nil, List.length_nil] at hcount; omega⟩
    rfl
  | cons p as ih =>
    obtain ⟨⟨frame, hframe⟩, hreads⟩ := h p List.mem_cons_self
    rw [List.flatMap_cons, frame_eq hframe] at hcount ⊢
    have h4 := frame_ne_nil hframe
    rw [List.length_append] at hcount
    obtain ⟨count, rfl⟩ : ∃ k, count = k + 1 := ⟨count - 1, by omega⟩
    rw [incoming, nextMessage_frame hframe hreads]
    dsimp only
    rw [ih (fun q hq => h q (List.mem_cons_of_mem p hq)) (by omega)]
    rfl

/-- A message is answered if all up to it find the server running and make no call raise. -/
theorem answered_iff {ms : List Received} {turns : Nat → Turn address} {k : Nat} {m : Received} :
    (answered json ms turns)[k]? = some m ↔
      ms[k]? = some m ∧ ∀ i ≤ k, ∀ m, ms[i]? = some m → (turns i).running = true ∧ (turns i).fault json m = none := by
  induction ms generalizing turns k with
  | nil => simp [answered]
  | cons m' ms ih =>
    rw [answered]
    by_cases hok : ((turns 0).running && ((turns 0).fault json m').isNone) = true
    · obtain ⟨hrunning, hfault⟩ := Bool.and_eq_true_iff.mp hok
      rw [if_pos hok]
      cases k with
      | zero =>
        simp only [List.getElem?_cons_zero, Option.some.injEq]
        constructor
        · rintro rfl
          refine ⟨rfl, fun i hi m hm => ?_⟩
          obtain rfl := Nat.le_zero.mp hi
          cases hm
          exact ⟨hrunning, Option.isNone_iff_eq_none.mp hfault⟩
        · exact fun h => h.1
      | succ k =>
        rw [List.getElem?_cons_succ, List.getElem?_cons_succ, ih]
        constructor
        · intro h
          refine ⟨h.1, fun i hi m hm => ?_⟩
          cases i with
          | zero =>
            cases hm
            exact ⟨hrunning, Option.isNone_iff_eq_none.mp hfault⟩
          | succ i => exact h.2 i (by omega) m hm
        · intro h
          exact ⟨h.1, fun i hi m hm => h.2 (i + 1) (by omega) m hm⟩
    · rw [if_neg hok, List.getElem?_nil]
      constructor
      · intro h
        cases h
      · intro h
        obtain ⟨hrunning, hfault⟩ := h.2 0 (Nat.zero_le k) m' rfl
        exact absurd (by rw [hrunning, hfault]; rfl) hok

/-- A part of a frame is no message. -/
theorem nextMessage_part {calls : Calls} {a : Answer} {frame : List UInt8} (h : a.encode json calls = .ok frame) {k : Nat}
    (hk : k < frame.length) : nextMessage json.decode (frame.take k) = .error .connection := by
  unfold Answer.encode at h
  dsimp only at h
  split at h
  · cases h
  · rename_i hsize
    obtain rfl := Except.ok.inj h
    change ¬maxMessageSize < (json.dumps (a.object calls)).length at hsize
    change k < (bigEndian 4 (json.dumps (a.object calls)).length ++ json.dumps (a.object calls)).length at hk
    change nextMessage json.decode
      ((bigEndian 4 (json.dumps (a.object calls)).length ++ json.dumps (a.object calls)).take k) = _
    generalize json.dumps (a.object calls) = body at hsize hk ⊢
    have hlen : (bigEndian 4 body.length).length = 4 := length_bigEndian 4 _
    rw [List.length_append, hlen] at hk
    have htake : ((bigEndian 4 body.length ++ body).take k).length = k := by
      rw [List.length_take, List.length_append, hlen]
      omega
    unfold nextMessage
    dsimp only
    by_cases h4 : k < 4
    · rw [if_pos (by omega)]
    · have hheader : fromBytes (((bigEndian 4 body.length ++ body).take k).take 4) = body.length := by
        rw [List.take_take, Nat.min_eq_left (by omega), List.take_left' hlen, header_length _ (Nat.le_of_not_lt hsize)]
      rw [if_neg (by omega), hheader, if_neg hsize, if_pos (by omega)]

/-! ## What the server sends -/

/-- The messages up to number `m`, as they are read. -/
def ZDXNode.messages (n : ZDXNode) (m : Nat) : List Received := (List.range m).map fun i => (n.sends i).asReceived

/-- The answer to message number `i`. -/
def answerTo : Nat → Answer
  | 0 => ⟨"identity_ack", acceptedPayload⟩
  | _ + 1 => heartbeatAnswer

/-- The server, running, has met nothing that raises when it answers message number `i`. -/
def Serves (json : JsonText) (n : ZDXNode) (turns : Nat → Turn address) (i : Nat) : Prop :=
  (turns i).running = true ∧ (turns i).fault json (n.sends i).asReceived = none

/-- The bytes of the first answers. -/
def answerBytes (json : JsonText) (turns : Nat → Turn address) (count : Nat) : List UInt8 :=
  (List.range count).flatMap fun i => (answerTo i).frame json (turns i).toCalls

theorem answer_sends (n : ZDXNode) (i : Nat) : (n.sends i).asReceived.answer = answerTo i := by
  cases i with
  | zero => simp [ZDXNode.sends, ZDXNode.identity, Answer.asReceived, Received.answer, Received.isKind, PyJson.isStr, answerTo]
  | succ i =>
    simp [ZDXNode.sends, heartbeatAnswer, Answer.asReceived, Received.answer, Received.isKind, PyJson.isStr, answerTo,
      PyStr.ofText_injective.eq_iff]

theorem Serves.encode {n : ZDXNode} {turns : Nat → Turn address} {i : Nat} (h : Serves json n turns i) :
    ∃ frame, (answerTo i).encode json (turns i).toCalls = .ok frame := by
  rw [← answer_sends n i]
  exact encode_of_fault h.2

theorem answerFrames_range (f : Nat → Received) (turns : Nat → Turn address) (m : Nat) :
    answerFrames json ((List.range m).map f) turns =
      (List.range (answered json ((List.range m).map f) turns).length).flatMap fun i =>
        (f i).answer.frame json (turns i).toCalls := by
  induction m generalizing f turns with
  | zero => rfl
  | succ m ih =>
    rw [List.range_succ_eq_map, List.map_cons, List.map_map, answerFrames, answered]
    split
    · rw [List.length_cons, List.range_succ_eq_map, List.flatMap_cons, List.flatMap_map]
      exact congrArg _ (ih (f ∘ Nat.succ) fun i => turns (i + 1))
    · rfl

/-- How many of the first messages are answered. -/
def servedOf (json : JsonText) (n : ZDXNode) (turns : Nat → Turn address) (m : Nat) : Nat :=
  (answered json (n.messages m) turns).length

theorem lt_served_iff {n : ZDXNode} {turns : Nat → Turn address} {m k : Nat} (hk : k < m) :
    k < servedOf json n turns m ↔ ∀ i ≤ k, Serves json n turns i := by
  have hget : ∀ i < m, (n.messages m)[i]? = some (n.sends i).asReceived := by
    intro i hi
    rw [ZDXNode.messages, List.getElem?_map, List.getElem?_range hi, Option.map_some]
  have hsome (rs : List Received) : k < rs.length ↔ ∃ r, rs[k]? = some r :=
    ⟨fun h => ⟨_, List.getElem?_eq_getElem h⟩, fun ⟨_, h⟩ => (List.getElem?_eq_some_iff.mp h).1⟩
  rw [servedOf, hsome]
  simp only [answered_iff]
  constructor
  · rintro ⟨r, -, h⟩ i hi
    exact h i hi _ (hget i (by omega))
  · intro h
    refine ⟨_, hget k hk, fun i hi r hr => ?_⟩
    rw [hget i (by omega)] at hr
    cases hr
    exact h i hi

/-- The messages of a connection: the identity, and a heartbeat for each ping. -/
def sentMessages (n : ZDXNode) (calls : Calls) (ts : List PingTurn) : List (Answer × Calls) :=
  (n.identity, calls) :: ts.map fun t => (heartbeatAnswer, t.calls)

theorem arrives_before {n : ZDXNode} {calls : Calls} {ts : List PingTurn} {t : PingTurn}
    (h : ∀ p ∈ sentMessages n calls (ts ++ [t]), Arrives json p.1 p.2) : ∀ p ∈ sentMessages n calls ts, Arrives json p.1 p.2 := by
  intro p hp
  refine h p ?_
  rcases List.mem_cons.mp hp with rfl | hp
  · exact .head _
  · refine .tail _ ?_
    rw [List.map_append]
    exact List.mem_append_left _ hp

theorem sentMessages_received (n : ZDXNode) (calls : Calls) (ts : List PingTurn) :
    ((sentMessages n calls ts).map fun p => p.1.asReceived) = n.messages (ts.length + 1) := by
  rw [sentMessages, ZDXNode.messages, List.range_succ_eq_map, List.map_cons, List.map_map, List.map_cons, List.map_map]
  refine congrArg (_ :: ·) ?_
  show (ts.map fun _ => heartbeatAnswer.asReceived) = (List.range ts.length).map fun _ => heartbeatAnswer.asReceived
  rw [List.map_const', List.map_const', List.length_range]

/-- Of a stream of whole messages the server sends the answers to those it serves. -/
theorem serverSends_eq (e : ServerEnd address) {n : ZDXNode} {calls : Calls} {ts : List PingTurn}
    (h : ∀ p ∈ sentMessages n calls ts, Arrives json p.1 p.2) :
    e.sends json ((sentMessages n calls ts).flatMap fun p => p.1.frame json p.2) =
      answerBytes json e.turns (servedOf json n e.turns (ts.length + 1)) := by
  refine (loop_sent (Nat.lt_succ_self _)).trans ?_
  dsimp only
  rw [incoming_frames h (Nat.lt_succ_self _), sentMessages_received, List.nil_append, ZDXNode.messages, answerFrames_range]
  simp only [answer_sends]
  rfl

/-! ## Pings -/

/-- What is left of the answers after some of them. -/
theorem answerBytes_drop (json : JsonText) (turns : Nat → Turn address) {j count : Nat} (h : j < count) :
    ∃ rest, (answerBytes json turns count).drop (answerBytes json turns j).length =
      (answerTo j).frame json (turns j).toCalls ++ rest := by
  obtain ⟨d, rfl⟩ : ∃ d, count = j + 1 + d := ⟨count - (j + 1), by omega⟩
  refine ⟨((List.range' (j + 1) d).flatMap fun i => (answerTo i).frame json (turns i).toCalls), ?_⟩
  have hsplit : List.range (j + 1 + d) = List.range j ++ j :: List.range' (j + 1) d := by
    rw [List.range_eq_range', List.range_eq_range', Nat.add_assoc, ← List.range'_append_1, Nat.zero_add, Nat.add_comm 1 d,
      List.range'_succ]
  unfold answerBytes
  rw [hsplit, List.flatMap_append, List.flatMap_cons]
  exact List.drop_left' rfl

/-- After these pings: the messages are sent whole, and exactly the first `j` answers have been read, so they were given. -/
structure Lagging (json : JsonText) (e : ServerEnd address) (n : ZDXNode) (calls : Calls) (ts : List PingTurn) (w : NodeSocket)
    (j : Nat) : Prop where
  sent : w.sent = (sentMessages n calls ts).flatMap fun p => p.1.frame json p.2
  read : w.read = (answerBytes json e.turns j).length
  few : j ≤ ts.length
  served : ∀ i < j, Serves json n e.turns i

/-- Answer `j` comes in time. -/
def InTime (json : JsonText) (e : ServerEnd address) (n : ZDXNode) (j : Nat) (t : PingTurn) : Prop :=
  (∀ i ≤ j, Serves json n e.turns i) ∧ ((answerTo j).frame json (e.turns j).toCalls).length ≤ t.arriving

variable {e : ServerEnd address} {n : ZDXNode} {calls : Calls} {ts : List PingTurn} {w : NodeSocket} {j : Nat} {t : PingTurn}

theorem answerBytes_succ (turns : Nat → Turn address) (j : Nat) :
    answerBytes json turns (j + 1) = answerBytes json turns j ++ (answerTo j).frame json (turns j).toCalls := by
  simp [answerBytes, List.range_succ]

theorem answerBytes_mono (turns : Nat → Turn address) {i j : Nat} (h : i ≤ j) :
    (answerBytes json turns i).length ≤ (answerBytes json turns j).length := by
  induction j, h using Nat.le_induction with
  | base => exact le_refl _
  | succ j _ ih =>
    rw [answerBytes_succ, List.length_append]
    omega

/-- A ping whose heartbeat is sent reads from the answers that are left. -/
theorem ping_eq (hl : Lagging json e n calls ts w j) (hclient : ∀ p ∈ sentMessages n calls (ts ++ [t]), Arrives json p.1 p.2)
    (hsend : t.sends = none) :
    let arrived := ((answerBytes json e.turns (servedOf json n e.turns (ts.length + 2))).drop
      (answerBytes json e.turns j).length).take t.arriving
    let r := recvMessageBy json.decode ⟨arrived, t.cuts⟩
    w.ping json e t = (r.1.toOption, ⟨(sentMessages n calls (ts ++ [t])).flatMap fun p => p.1.frame json p.2,
      w.read + (arrived.length - r.2.stream.length)⟩) := by
  obtain ⟨frame, hframe⟩ := (hclient (heartbeatAnswer, t.calls) (by simp [sentMessages])).fits
  have hsent : w.sent ++ frame = (sentMessages n calls (ts ++ [t])).flatMap fun p => p.1.frame json p.2 := by
    rw [hl.sent]
    simp [sentMessages, frame_eq hframe]
  have hanswers := serverSends_eq e hclient
  rw [List.length_append, List.length_singleton] at hanswers
  unfold NodeSocket.ping
  rw [hframe, hsend]
  dsimp only
  rw [hsent, hanswers, hl.read]

/-- An answer that comes in time is returned. -/
theorem ping_inTime (hl : Lagging json e n calls ts w j)
    (hclient : ∀ p ∈ sentMessages n calls (ts ++ [t]), Arrives json p.1 p.2) (hsend : t.sends = none)
    (hserver : ReadsBack json e.turns [n.identity.asReceived, heartbeatAnswer.asReceived]) (ht : InTime json e n j t) :
    (w.ping json e t).1 = some (answerTo j).asReceived ∧ Lagging json e n calls (ts ++ [t]) (w.ping json e t).2 (j + 1) := by
  obtain ⟨hserves, harriving⟩ := ht
  have hj : j < servedOf json n e.turns (ts.length + 2) := (lt_served_iff (by have := hl.few; omega)).mpr hserves
  obtain ⟨frame, hframe⟩ := (hserves j (le_refl _)).encode
  have hread : json.loads (json.dumps ((answerTo j).object (e.turns j).toCalls)) =
      some ((answerTo j).object (e.turns j).toCalls) := by
    rw [← answer_sends n]
    refine hserver _ ?_ j
    cases j with
    | zero => exact .head _
    | succ j => exact .tail _ (.head _)
  obtain ⟨rest, hleft⟩ := answerBytes_drop json e.turns hj
  rw [frame_eq hframe] at hleft harriving
  have hping := ping_eq hl hclient hsend
  dsimp only at hping
  rw [hleft, List.take_append, List.take_of_length_le harriving] at hping
  obtain ⟨sock, hrecv, hrest⟩ := recvMessageBy_eq json.decode ⟨frame ++ rest.take (t.arriving - frame.length), t.cuts⟩
  have hnext : nextMessage json.decode (frame ++ rest.take (t.arriving - frame.length)) =
      .ok ((answerTo j).asReceived, rest.take (t.arriving - frame.length)) := nextMessage_frame hframe hread
  rw [hnext] at hrecv
  rw [hrecv, hrest _ _ hnext, List.length_append, Nat.add_sub_cancel] at hping
  rw [hping]
  refine ⟨rfl, rfl, ?_, ?_, fun i hi => hserves i (by omega)⟩
  · rw [answerBytes_succ, List.length_append, frame_eq hframe, hl.read]
  · rw [List.length_append, List.length_singleton]
    have := hl.few
    omega

/-- Otherwise the ping raises; and if it has read nothing, nothing is lost. -/
theorem ping_late (hl : Lagging json e n calls ts w j)
    (hclient : ∀ p ∈ sentMessages n calls (ts ++ [t]), Arrives json p.1 p.2) (hsend : t.sends = none)
    (ht : ¬InTime json e n j t) :
    (w.ping json e t).1 = none ∧
      ((w.ping json e t).2.read = w.read → Lagging json e n calls (ts ++ [t]) (w.ping json e t).2 j) := by
  have hping := ping_eq hl hclient hsend
  have hnext : nextMessage json.decode (((answerBytes json e.turns (servedOf json n e.turns (ts.length + 2))).drop
      (answerBytes json e.turns j).length).take t.arriving) = .error .connection := by
    by_cases hj : j < servedOf json n e.turns (ts.length + 2)
    · have hserves := (lt_served_iff (by have := hl.few; omega)).mp hj
      obtain ⟨frame, hframe⟩ := (hserves j (le_refl _)).encode
      obtain ⟨rest, hleft⟩ := answerBytes_drop json e.turns hj
      have hshort : t.arriving < frame.length := by
        by_contra hle
        exact ht ⟨hserves, by rw [frame_eq hframe]; omega⟩
      rw [hleft, frame_eq hframe, List.take_append_of_le_length (by omega)]
      exact nextMessage_part hframe hshort
    · rw [List.drop_eq_nil_of_le (answerBytes_mono e.turns (Nat.le_of_not_lt hj)), List.take_nil]
      rfl
  dsimp only at hping
  obtain ⟨sock, hrecv, -⟩ := recvMessageBy_eq json.decode
    ⟨((answerBytes json e.turns (servedOf json n e.turns (ts.length + 2))).drop
      (answerBytes json e.turns j).length).take t.arriving, t.cuts⟩
  rw [hnext] at hrecv
  rw [hrecv] at hping
  rw [hping]
  refine ⟨rfl, fun hread => ⟨rfl, ?_, ?_, hl.served⟩⟩
  · rw [hread, hl.read]
  · rw [List.length_append]
    exact hl.few.trans (Nat.le_add_right _ _)

/-! ## Runs of pings -/

theorem returned_concat (w : NodeSocket) (ts : List PingTurn) (t : PingTurn) : returned json e w (ts ++ [t]) =
    returned json e w ts + if ((final (NodeSocket.ping json e) w ts).ping json e t).1.isSome then 1 else 0 := by
  rw [returned, log_concat, List.countP_append, List.countP_singleton]
  rfl

theorem lagging_run (hconnect : n.connect json calls = some w)
    (hclient : ∀ p ∈ sentMessages n calls ts, Arrives json p.1 p.2) (hsends : ∀ t ∈ ts, t.sends = none)
    (hserver : ReadsBack json e.turns [n.identity.asReceived, heartbeatAnswer.asReceived]) (hwhole : FramesWhole json e w ts) :
    Lagging json e n calls ts (final (NodeSocket.ping json e) w ts) (returned json e w ts) := by
  induction ts using List.reverseRecOn with
  | nil =>
    have hsent : w.sent = n.identity.frame json calls ∧ w.read = 0 := by
      unfold ZDXNode.connect at hconnect
      split at hconnect
      · rename_i frame hframe _
        rw [frame_eq hframe, ← Option.some.inj hconnect]
        exact ⟨rfl, rfl⟩
      · cases hconnect
    refine ⟨?_, hsent.2, le_refl _, fun i hi => absurd hi (Nat.not_lt_zero i)⟩
    rw [final_nil, hsent.1]
    simp [sentMessages]
  | append_singleton ts t ih =>
    have hl := ih (arrives_before hclient) (fun t' h => hsends t' (List.mem_append_left _ h))
      (fun before t' after h => hwhole before t' (after ++ [t]) (by rw [h]; simp))
    have hsend := hsends t (by simp)
    rw [returned_concat, final_concat]
    by_cases ht : InTime json e n (returned json e w ts) t
    · obtain ⟨hsome, hnext⟩ := ping_inTime hl hclient hsend hserver ht
      rw [hsome]
      exact hnext
    · obtain ⟨hnone, hnext⟩ := ping_late hl hclient hsend ht
      rw [hnone]
      exact hnext (hwhole ts t [] rfl hnone)

/-- Of every connection, however both streams are cut, whatever the server meets and whichever pings time out, as long as
    none does inside a frame: a ping after others, of which some number `j` returned a message, returns exactly if the
    server has answered all messages up to number `j` and the whole of that answer comes in time; and then this answer. Its
    own heartbeat is a later message than `j`. -/
theorem pings_lag (e : ServerEnd address) (n : ZDXNode) (calls : Calls) (w : NodeSocket) (ts : List PingTurn) (t : PingTurn)
    (hconnect : n.connect json calls = some w) (hclient : ∀ p ∈ sentMessages n calls (ts ++ [t]), Arrives json p.1 p.2)
    (hsends : ∀ t' ∈ ts ++ [t], t'.sends = none)
    (hserver : ReadsBack json e.turns [n.identity.asReceived, heartbeatAnswer.asReceived]) (hwhole : FramesWhole json e w ts)
    (r : Received) :
    let j := returned json e w ts
    j ≤ ts.length ∧
      (((final (NodeSocket.ping json e) w ts).ping json e t).1 = some r ↔
        (∀ i ≤ j, Serves json n e.turns i) ∧ ((answerTo j).frame json (e.turns j).toCalls).length ≤ t.arriving ∧
          r = (answerTo j).asReceived) := by
  intro j
  have hl := lagging_run hconnect (arrives_before hclient) (fun t' h => hsends t' (List.mem_append_left _ h)) hserver hwhole
  have hsend := hsends t (by simp)
  refine ⟨hl.few, ?_⟩
  by_cases ht : InTime json e n j t
  · rw [(ping_inTime hl hclient hsend hserver ht).1, Option.some_inj, eq_comm (b := r)]
    exact ⟨fun h => ⟨ht.1, ht.2, h⟩, fun h => h.2.2⟩
  · rw [(ping_late hl hclient hsend ht).1]
    exact iff_of_false nofun fun h => ht ⟨h.1, h.2.1⟩

def localNode : ZDXNode := { nodeId := "7c0f" }

/-- The payloads of `localNode`'s messages and of the answers to them. -/
def sessionPayload : String → String
  | "identity" => "\x7b\"node_id\":\"7c0f\",\"protocol\":1\x7d"
  | "heartbeat" => "\x7b\"status\":\"alive\"\x7d"
  | _ => "\x7b\"accepted\":true\x7d"

/-- One of them, as `encode` writes it at `someCalls`. -/
def sessionText (kind : String) : List UInt8 :=
  utf8 ("\x7b\"kind\":\"" ++ kind ++ "\",\"payload\":" ++ sessionPayload kind ++
    ",\"request_id\":\"7c0f\",\"version\":1,\"timestamp\":1.5\x7d")

/-- `json`, as far as they go. -/
def sessionJson : JsonText where
  loads body :=
    if body = sessionText "identity" then some (localNode.identity.object someCalls)
    else if body = sessionText "heartbeat" then some (heartbeatAnswer.object someCalls)
    else if body = sessionText "identity_ack" then some identityAck
    else none
  dumps v :=
    match v with
    | .obj ((_, .str kind) :: _) => sessionText (kind.text?.getD "")
    | _ => []

/-- A server that meets nothing. -/
def sessionEnd : ServerEnd localAddress := ⟨newServer, fun _ => { toCalls := someCalls }, fun _ => 1⟩

/-- A ping whose answer is late, and one whose answer is not. -/
def latePing : PingTurn := { calls := someCalls, arriving := 0, cuts := fun _ => 1 }
def promptPing : PingTurn := { calls := someCalls, arriving := 1000, cuts := fun _ => 1 }

theorem session_arrives {ts : List PingTurn} (h : ∀ t ∈ ts, t.calls = someCalls) :
    ∀ p ∈ sentMessages localNode someCalls ts, Arrives sessionJson p.1 p.2 := by
  intro p hp
  rcases List.mem_cons.mp hp with rfl | hp
  · exact ⟨⟨_, rfl⟩, rfl⟩
  · obtain ⟨t, ht, rfl⟩ := List.mem_map.mp hp
    rw [h t ht]
    exact ⟨⟨_, rfl⟩, rfl⟩

theorem session_readsBack (turns : Nat → Turn localAddress) (h : ∀ i, (turns i).toCalls = someCalls) :
    ReadsBack sessionJson turns [localNode.identity.asReceived, heartbeatAnswer.asReceived] := by
  intro m hm i
  rw [h i]
  simp only [List.mem_cons, List.not_mem_nil, or_false] at hm
  rcases hm with rfl | rfl <;> rfl

theorem session_serves (i : Nat) : Serves sessionJson localNode sessionEnd.turns i := by
  refine ⟨rfl, ?_⟩
  cases i with
  | zero => rfl
  | succ i =>
    rw [ZDXNode.sends]
    rfl

/-- The first ping times out, and the second returns the identity's answer. -/
theorem pings_lag_late : ∃ w, localNode.connect sessionJson someCalls = some w ∧
    ((final (NodeSocket.ping sessionJson sessionEnd) w [latePing]).ping sessionJson sessionEnd promptPing).1 =
      some ⟨.str (.ofText "identity_ack"), acceptedPayload⟩ := by
  refine ⟨_, rfl, ?_⟩
  have hlate (w : NodeSocket) : (w.ping sessionJson sessionEnd latePing).1 = none ∧
      (w.ping sessionJson sessionEnd latePing).2.read = w.read := ⟨rfl, rfl⟩
  have hlag := pings_lag sessionEnd localNode someCalls _ [latePing] promptPing rfl
    (session_arrives (by simp [latePing, promptPing])) (by simp [latePing, promptPing])
    (session_readsBack sessionEnd.turns fun _ => rfl) ?_ ⟨.str (.ofText "identity_ack"), acceptedPayload⟩
  · have hnone (w : NodeSocket) : returned sessionJson sessionEnd w [latePing] = 0 := by
      rw [returned, log_cons, log_nil, List.countP_singleton]
      exact if_neg (by rw [(hlate _).1]; exact Bool.false_ne_true)
    rw [hnone] at hlag
    exact hlag.2.mpr ⟨fun i _ => session_serves i, by decide +kernel, rfl⟩
  · intro before t after h _
    cases before with
    | nil =>
      cases h
      exact (hlate _).2
    | cons t' before => simp at h

end PyxelVM.Network
