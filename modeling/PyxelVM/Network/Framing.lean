/-
  PyxelVM.Network.Framing — `ZDXMessage`, `recv_exact`, `recv_message` (`zdx_network.py`).

  A frame is a header of four bytes, the length, and the body, JSON text. The fields of
  a message are any JSON values, since the constructor checks none of them. `encode`
  fills in the request id and the timestamp if they are false in Python's sense; the
  values it draws, a new UUID and the time, come with the call (`Sending`).

  `framing_lossless`: however the transport cuts the frames of a list of messages, they
  are received as they were sent and nothing else is consumed; a stream that ends inside
  a frame raises a ConnectionError there; and `encode` refuses exactly the messages whose
  frames `recv_message` refuses as too large.
-/

import PyxelVM.Lib.Bytes
import PyxelVM.Lib.JsonRoundTrip
import PyxelVM.Lib.Stream

namespace PyxelVM.Network

open PyxelVM.Lib

def protocolVersion : Int := 1
def maxMessageSize : Nat := 16 * 1024 * 1024

inductive NetworkError where
  | connection
  | tooLargeToSend
  | tooLargeToReceive
  /-- The body is no JSON text in UTF-8. -/
  | notJson
  /-- The body is no object, or its members are not the fields of a message. -/
  | fields
  deriving DecidableEq, Repr

/-- The text, where it is the repository's. -/
def NetworkError.message : NetworkError → Option String
  | .connection => some "connection closed while receiving data"
  | .tooLargeToSend => some "message exceeds maximum size"
  | .tooLargeToReceive => some "incoming message exceeds maximum size"
  | .notJson | .fields => none

/-! ## Messages -/

structure ZDXMessage where
  kind : Json
  payload : Json
  requestId : Json := .str ""
  version : Json := .int protocolVersion
  timestamp : Json := .float ⟨['0', '.', '0'], by decide⟩
  deriving DecidableEq

/-- A value is true in Python's sense; a float is false if its digits are zeros. -/
def truthy : Json → Bool
  | .null => false
  | .bool b => b
  | .int n => n != 0
  | .float f => (f.chars.takeWhile fun c => c != 'e' && c != 'E').any fun c => c.isDigit && c != '0'
  | .str s => s != ""
  | .arr items => !items.isEmpty
  | .obj members => !members.isEmpty

/-- `json.dumps(asdict(self), separators=(",", ":")).encode("utf-8")`. -/
def ZDXMessage.toJson (m : ZDXMessage) : Json :=
  .obj [("kind", m.kind), ("payload", m.payload), ("request_id", m.requestId), ("version", m.version),
    ("timestamp", m.timestamp)]

/-- A call of `encode`: the message, and what a new UUID and the clock would be. -/
structure Sending where
  message : ZDXMessage
  uuid : String
  now : FloatText

/-- The message as `encode` leaves it. -/
def Sending.filled (s : Sending) : ZDXMessage :=
  { s.message with
    requestId := if truthy s.message.requestId then s.message.requestId else .str s.uuid
    timestamp := if truthy s.message.timestamp then s.message.timestamp else .float s.now }

def Sending.body (s : Sending) : List UInt8 := s.filled.toJson.dumps true

def Sending.frame (s : Sending) : List UInt8 := bigEndian 4 s.body.length ++ s.body

/-- `encode`. -/
def Sending.encode (s : Sending) : Except NetworkError (List UInt8) :=
  if maxMessageSize < s.body.length then .error .tooLargeToSend else .ok s.frame

/-- `ZDXMessage(**data)`: every member is a field, and the two without a default are there. -/
def ZDXMessage.ofMembers (members : List (String × Json)) : Option ZDXMessage :=
  if members.all fun m => ["kind", "payload", "request_id", "version", "timestamp"].contains m.1 then
    match members.lookup "kind", members.lookup "payload" with
    | some kind, some payload =>
      let defaults : ZDXMessage := { kind, payload }
      some { defaults with
        requestId := (members.lookup "request_id").getD defaults.requestId
        version := (members.lookup "version").getD defaults.version
        timestamp := (members.lookup "timestamp").getD defaults.timestamp }
    | _, _ => none
  else none

def ZDXMessage.decode (body : List UInt8) : Except NetworkError ZDXMessage :=
  match Json.loads body with
  | none => .error .notJson
  | some (.obj members) =>
    match ZDXMessage.ofMembers members with
    | some m => .ok m
    | none => .error .fields
  | some _ => .error .fields

/-- `heartbeat()`. -/
def heartbeat : ZDXMessage := { kind := .str "heartbeat", payload := .obj [("status", .str "alive")] }

/-! ## Receiving -/

/-- `recv_message`, and the socket it leaves. -/
def recvMessage (sock : Socket) : Except NetworkError ZDXMessage × Socket :=
  match recvExact sock 4 with
  | .raised .closed r => (.error .connection, r.sock)
  | .done header =>
    let size := fromBytes header.bytes
    if maxMessageSize < size then (.error .tooLargeToReceive, header.sock)
    else
      match recvExact header.sock size with
      | .raised .closed r => (.error .connection, r.sock)
      | .done body => (ZDXMessage.decode body.bytes, body.sock)

/-- So many calls of `recv_message`, up to one that raises. -/
def receive : Nat → Socket → Except NetworkError (List ZDXMessage) × Socket
  | 0, sock => (.ok [], sock)
  | n + 1, sock =>
    match recvMessage sock with
    | (.error e, sock) => (.error e, sock)
    | (.ok m, sock) =>
      match receive n sock with
      | (.error e, sock) => (.error e, sock)
      | (.ok ms, sock) => (.ok (m :: ms), sock)

/-! ## One message -/

/-- The fields are JSON values that `json.dumps` and `json.loads` carry over. -/
structure ZDXMessage.Normal (m : ZDXMessage) : Prop where
  kind : m.kind.Normal
  payload : m.payload.Normal
  requestId : m.requestId.Normal
  version : m.version.Normal
  timestamp : m.timestamp.Normal

theorem ZDXMessage.Normal.filled {s : Sending} (h : s.message.Normal) : s.filled.Normal := by
  refine ⟨h.kind, h.payload, ?_, h.version, ?_⟩
  · simp only [Sending.filled]
    split
    · exact h.requestId
    · trivial
  · simp only [Sending.filled]
    split
    · exact h.timestamp
    · trivial

theorem ZDXMessage.Normal.toJson {m : ZDXMessage} (h : m.Normal) : m.toJson.Normal :=
  ⟨by show (["kind", "payload", "request_id", "version", "timestamp"] : List String).Nodup; decide,
    h.kind, h.payload, h.requestId, h.version, h.timestamp, trivial⟩

theorem decode_toJson {m : ZDXMessage} (h : m.Normal) : ZDXMessage.decode (m.toJson.dumps true) = .ok m := by
  rw [ZDXMessage.decode, Json.loads_dumps true h.toJson]
  rfl

theorem header_length (n : Nat) (h : n ≤ maxMessageSize) : fromBytes (bigEndian 4 n) = n := by
  apply fromBytes_bigEndian
  unfold maxMessageSize at h
  omega

/-- A header whose length is too large ends the call. -/
theorem recvMessage_tooLarge {sock : Socket} (h4 : 4 ≤ sock.stream.length)
    (h : maxMessageSize < fromBytes (sock.stream.take 4)) : (recvMessage sock).1 = .error .tooLargeToReceive := by
  obtain ⟨sock', _, he⟩ := recvExact_enough sock h4
  simp only [recvMessage, he, if_pos h]

/-- A header and as many bytes as it says. -/
theorem recvMessage_whole {sock : Socket} {n : Nat} (hn : n ≤ maxMessageSize) {body rest : List UInt8}
    (hb : body.length = n) (hs : sock.stream = bigEndian 4 n ++ body ++ rest) :
    ∃ sock', recvMessage sock = (ZDXMessage.decode body, sock') ∧ sock'.stream = rest := by
  have hlen : (bigEndian 4 n).length = 4 := length_bigEndian 4 n
  have h4 : 4 ≤ sock.stream.length := by rw [hs, List.append_assoc, List.length_append, hlen]; omega
  obtain ⟨sock1, hs1, he1⟩ := recvExact_enough sock h4
  rw [hs, List.append_assoc, List.drop_left' hlen] at hs1
  rw [hs, List.append_assoc, List.take_left' hlen] at he1
  obtain ⟨sock2, hs2, he2⟩ := recvExact_enough sock1 (n := n) (by rw [hs1, List.length_append]; omega)
  rw [hs1, List.drop_left' hb] at hs2
  rw [hs1, List.take_left' hb] at he2
  refine ⟨sock2, ?_, hs2⟩
  simp only [recvMessage, he1, header_length n hn, if_neg (Nat.not_lt.mpr hn), he2]

/-- The stream ends inside the frame. -/
theorem recvMessage_partial {sock : Socket} {n : Nat} (hn : n ≤ maxMessageSize) {body : List UInt8} (hb : body.length = n)
    {k : Nat} (hk : k < 4 + n) (hs : sock.stream = (bigEndian 4 n ++ body).take k) :
    (recvMessage sock).1 = .error .connection := by
  have hlen : (bigEndian 4 n).length = 4 := length_bigEndian 4 n
  have hstream : sock.stream.length = k := by
    rw [hs, List.length_take, List.length_append, hlen, hb]
    omega
  by_cases h4 : k < 4
  · obtain ⟨r, he⟩ := recvExact_short sock (n := 4) (by omega)
    simp only [recvMessage, he]
  · obtain ⟨sock1, hs1, he1⟩ := recvExact_enough sock (n := 4) (by omega)
    have htake : sock.stream.take 4 = bigEndian 4 n := by
      rw [hs, List.take_take, Nat.min_eq_left (by omega), List.take_left' hlen]
    rw [htake] at he1
    obtain ⟨r, he2⟩ := recvExact_short sock1 (n := n) (by rw [hs1, List.length_drop]; omega)
    simp only [recvMessage, he1, header_length n hn, if_neg (Nat.not_lt.mpr hn), he2]

/-! ## A list of messages -/

/-- The message is JSON-normal, and its body not too large. -/
def Sending.Fits (s : Sending) : Prop := s.message.Normal ∧ s.body.length ≤ maxMessageSize

/-- The bytes of the frames, one after another. -/
def wire (ss : List Sending) : List UInt8 := ss.flatMap Sending.frame

theorem length_frame (s : Sending) : s.frame.length = 4 + s.body.length := by simp [Sending.frame]

theorem encode_fits {s : Sending} (h : s.Fits) : s.encode = .ok s.frame := if_neg (Nat.not_lt.mpr h.2)

theorem recvMessage_frame {s : Sending} (h : s.Fits) {sock : Socket} {rest : List UInt8} (hs : sock.stream = s.frame ++ rest) :
    ∃ sock', recvMessage sock = (.ok s.filled, sock') ∧ sock'.stream = rest := by
  obtain ⟨sock', he, hr⟩ := recvMessage_whole h.2 rfl hs
  exact ⟨sock', by rw [he, Sending.body, decode_toJson h.1.filled], hr⟩

theorem receive_all {ss : List Sending} (h : ∀ s ∈ ss, s.Fits) {sock : Socket} {rest : List UInt8}
    (hs : sock.stream = wire ss ++ rest) :
    ∃ sock', receive ss.length sock = (.ok (ss.map Sending.filled), sock') ∧ sock'.stream = rest := by
  induction ss generalizing sock with
  | nil => exact ⟨sock, rfl, hs⟩
  | cons s ss ih =>
    obtain ⟨sock1, h1, hs1⟩ := recvMessage_frame (h s (List.mem_cons_self ..)) 
      (show sock.stream = s.frame ++ (wire ss ++ rest) by rw [hs, wire, List.flatMap_cons, List.append_assoc]; rfl)
    obtain ⟨sock2, h2, hs2⟩ := ih (fun x hx => h x (List.mem_cons_of_mem s hx)) hs1
    exact ⟨sock2, by simp only [List.length_cons, receive, h1, h2, List.map_cons], hs2⟩

/-- A stream that ends inside a frame gives the frames before it, and then raises. -/
theorem receive_truncated {ss : List Sending} (h : ∀ s ∈ ss, s.Fits) {k : Nat} (hk : k < (wire ss).length)
    (hb : ∀ i, k ≠ (wire (ss.take i)).length) {sock : Socket} (hs : sock.stream = (wire ss).take k) :
    ∃ i < ss.length, ∃ sock', receive i sock = (.ok ((ss.take i).map Sending.filled), sock') ∧
      (recvMessage sock').1 = .error .connection := by
  induction ss generalizing k sock with
  | nil => exact absurd hk (Nat.not_lt_zero k)
  | cons s ss ih =>
    have hfit := h s (List.mem_cons_self ..)
    have hlen := length_frame s
    have hwire : wire (s :: ss) = s.frame ++ wire ss := rfl
    rw [hwire] at hs hk
    by_cases hf : k < s.frame.length
    · refine ⟨0, by simp, sock, rfl, ?_⟩
      rw [List.take_append_of_le_length (Nat.le_of_lt hf)] at hs
      exact recvMessage_partial hfit.2 rfl (by omega) hs
    · have hle : s.frame.length ≤ k := Nat.le_of_not_lt hf
      rw [List.take_append, List.take_of_length_le hle] at hs
      obtain ⟨sock1, h1, hs1⟩ := recvMessage_frame hfit hs
      have hb' : ∀ i, k - s.frame.length ≠ (wire (ss.take i)).length := by
        intro i e
        apply hb (i + 1)
        rw [List.take_succ_cons, show wire (s :: ss.take i) = s.frame ++ wire (ss.take i) from rfl, List.length_append]
        omega
      obtain ⟨i, hi, sock2, h2, he⟩ := ih (fun x hx => h x (List.mem_cons_of_mem s hx))
        (by rw [List.length_append] at hk; omega) hb' hs1
      exact ⟨i + 1, Nat.succ_lt_succ hi, sock2, by simp only [receive, h1, h2, List.take_succ_cons, List.map_cons], he⟩

theorem decode_ne_tooLarge (body : List UInt8) : ZDXMessage.decode body ≠ .error .tooLargeToReceive := by
  unfold ZDXMessage.decode
  repeat' split
  all_goals simp

/-- `encode` refuses exactly what `recv_message` refuses as too large, if it can be framed at all. -/
theorem encode_refuses_iff (s : Sending) :
    s.encode = .error .tooLargeToSend ↔ ∀ header, toBytes 4 s.body.length = some header → ∀ rest cuts,
      (recvMessage ⟨header ++ s.body ++ rest, cuts⟩).1 = .error .tooLargeToReceive := by
  constructor
  · intro h header hh rest cuts
    have hlarge : maxMessageSize < s.body.length := by
      by_contra hno
      rw [Sending.encode, if_neg hno] at h
      cases h
    have hlt : s.body.length < 256 ^ 4 := by
      by_contra hno
      rw [toBytes, if_neg hno] at hh
      cases hh
    have hheader : header = bigEndian 4 s.body.length := by
      rw [toBytes, if_pos hlt] at hh
      exact (Option.some.inj hh).symm
    subst hheader
    have hlen : (bigEndian 4 s.body.length).length = 4 := length_bigEndian 4 _
    apply recvMessage_tooLarge
    · rw [List.append_assoc, List.length_append, hlen]
      omega
    · rwa [List.append_assoc, List.take_left' hlen, fromBytes_bigEndian hlt]
  · intro h
    by_contra hno
    have hle : s.body.length ≤ maxMessageSize := by
      apply Nat.le_of_not_lt
      intro hlt
      exact hno (if_pos hlt)
    have hlt : s.body.length < 256 ^ 4 := by
      unfold maxMessageSize at hle
      omega
    obtain ⟨sock', he, -⟩ := recvMessage_whole hle rfl
      (show (⟨bigEndian 4 s.body.length ++ s.body ++ [], fun _ => 0⟩ : Socket).stream = _ from rfl)
    have hr := h _ (if_pos hlt) [] fun _ => 0
    rw [he] at hr
    exact decode_ne_tooLarge _ hr

/-- Framing is lossless under any cutting of the stream. The frames of messages that fit are received as sent, up to
    what `encode` fills in, and nothing after them is consumed; a stream that ends inside a frame gives the messages
    before it and then a ConnectionError; and the two limits agree. -/
theorem framing_lossless :
    (∀ ss : List Sending, (∀ s ∈ ss, s.Fits) →
      (∀ s ∈ ss, s.encode = .ok s.frame) ∧
      (∀ rest cuts, ∃ sock', receive ss.length ⟨wire ss ++ rest, cuts⟩ = (.ok (ss.map Sending.filled), sock') ∧
        sock'.stream = rest) ∧
      ∀ k cuts, k < (wire ss).length → (∀ i, k ≠ (wire (ss.take i)).length) →
        ∃ i < ss.length, ∃ sock', receive i ⟨(wire ss).take k, cuts⟩ = (.ok ((ss.take i).map Sending.filled), sock') ∧
          (recvMessage sock').1 = .error .connection) ∧
    ∀ s : Sending, s.encode = .error .tooLargeToSend ↔ ∀ header, toBytes 4 s.body.length = some header → ∀ rest cuts,
      (recvMessage ⟨header ++ s.body ++ rest, cuts⟩).1 = .error .tooLargeToReceive := by
  refine ⟨?_, encode_refuses_iff⟩
  intro ss h
  refine ⟨fun s hs => encode_fits (h s hs), fun rest cuts => receive_all h rfl, ?_⟩
  intro k cuts hk hb
  exact receive_truncated h hk hb rfl

/-- Two heartbeats, cut into single bytes: both are received; the first byte alone gives a ConnectionError. -/
theorem framing_lossless_heartbeats :
    let beat : Sending := ⟨heartbeat, "7c0f", ⟨['1', '.', '5'], by decide⟩⟩
    (∃ sock', receive 2 ⟨wire [beat, beat] ++ [0, 0], fun _ => 1⟩ = (.ok [beat.filled, beat.filled], sock') ∧
      sock'.stream = [0, 0]) ∧
    ∃ i < 2, ∃ sock',
      receive i ⟨(wire [beat, beat]).take 1, fun _ => 1⟩ = (.ok (([beat, beat].take i).map Sending.filled), sock') ∧
      (recvMessage sock').1 = .error .connection := by
  intro beat
  have hlen : beat.body.length ≤ maxMessageSize := by
    have hascii : (beat.filled.toJson.text true).all (fun c => c.toNat < 128) = true := by decide +kernel
    rw [Sending.body, Json.dumps, length_utf8_ascii fun c hc => by simpa using List.all_eq_true.mp hascii c hc]
    decide +kernel
  have hfits : ∀ s ∈ [beat, beat], s.Fits := by
    intro s hs
    obtain rfl : s = beat := by simpa using hs
    refine ⟨⟨trivial, ⟨by decide, trivial, trivial⟩, trivial, ?_, trivial⟩, hlen⟩
    show (Nat.toDigits 10 1).length ≤ 4300
    decide
  obtain ⟨-, hall, hcut⟩ := framing_lossless.1 [beat, beat] hfits
  have hwire (ss : List Sending) : (wire (beat :: ss)).length = 4 + beat.body.length + (wire ss).length := by
    rw [show wire (beat :: ss) = beat.frame ++ wire ss from rfl, List.length_append, length_frame]
  have hbound : ∀ i, 1 ≠ (wire ([beat, beat].take i)).length := by
    intro i
    rcases i with _ | i
    · decide
    · rw [List.take_succ_cons, hwire]
      omega
  exact ⟨hall [0, 0] fun _ => 1, hcut 1 (fun _ => 1) (by rw [hwire]; omega) hbound⟩

end PyxelVM.Network
