/-
  PyxelVM.Security.Session — the node session handshake: `SessionAuthenticator`
  (`security/session_auth.py`) over `MessageSigner` and `MessageVerifier`.

  Any number of authenticators, each with the key it signs with (`signer i`) and the
  key it verifies with (`trusted i`). The calls come in any order. Every envelope ever
  signed is in `signed`; the network holds all of them and presents any message to any
  authenticator. Signatures are ideal: one is good under a key for an envelope exactly
  when that key's holder made it for that envelope. The token of `secrets.token_hex` is
  the event's own. Code outside the handshake signs envelopes of its own (`envelope`).

  `verify_response` checks the signature, and never looks at what was signed. `Fresh`:
  a step sets `authenticated` only through a CHALLENGE_RESPONSE that carries the
  challenge its authenticator last issued.

  - `stale_response_authenticates`: it fails in the handshake as intended, with one
    call of each kind: the response carries the responder's own challenge.
  - `fresh_iff_only_current`: in every reachable state, it holds of whatever message is
    presented next to an authenticator exactly when that authenticator's trusted key
    has signed nothing but responses to its current challenge; and so it holds of every
    step of a run that verifies only in such states.
-/

import Mathlib.Logic.Function.Basic
import PyxelVM.Lib.Hex
import PyxelVM.Lib.Json
import PyxelVM.Lib.Trace

namespace PyxelVM.Security

open Function (update)
open PyxelVM.Lib PyxelVM.Lib.Trace

/-- A key pair: whoever holds it signs, whoever is given its public half verifies. -/
abbrev Key := Nat

abbrev Payload := List (String × Json)

/-- The fields `MessageSigner.envelope` signs. -/
structure Envelope where
  protocolVersion : Int
  timestamp : Int
  nonce : String
  sequence : Int
  nodeId : String
  payload : Payload
  deriving DecidableEq

/-- A message as presented: the envelope's fields, and its hexadecimal signature, if the
    key is there. A dictionary with other fields is one no key ever signed. -/
structure Message where
  envelope : Envelope
  signature : Option String
  deriving DecidableEq

structure Signed where
  key : Key
  envelope : Envelope
  signature : List UInt8
  deriving DecidableEq

/-! ## The parties -/

/-- The keys of the authenticators, and what the cryptography library computes. -/
structure Keys where
  signer : Nat → Key
  trusted : Nat → Key
  nodeId : Key → String
  sign : Key → Envelope → List UInt8

structure Authenticator where
  challenge : Option String
  authenticated : Bool
  deriving DecidableEq

structure World where
  parties : Nat → Authenticator
  signed : List Signed

def World.init : World := ⟨fun _ => ⟨none, false⟩, []⟩

inductive Event where
  /-- `create_hello` on party `i`, drawing `token`. -/
  | createHello (i : Nat) (token : String)
  /-- `create_response` on party `i`, drawing `nonce`. -/
  | createResponse (i : Nat) (nonce : String)
  /-- `verify_response` on party `i`. -/
  | verifyResponse (i : Nat) (m : Message)
  /-- `MessageSigner.envelope` for something else, by the holder of `key`. -/
  | envelope (key : Key) (payload : Payload) (timestamp : Int) (nonce : String) (sequence : Int)

inductive Raised where
  /-- `RuntimeError("No challenge available")`. -/
  | noChallenge
  /-- `KeyError('signature')`. -/
  | noSignature
  /-- `ValueError` of `bytes.fromhex`. -/
  | notHex
  | invalidSignature
  deriving DecidableEq, Repr

inductive Result where
  | hello (challenge : String)
  | message (m : Message)
  | verified
  | raised (e : Raised)
  deriving DecidableEq

/-- The payload of a response to `challenge`. -/
def challengeResponse (challenge : String) : Payload := [("type", .str "CHALLENGE_RESPONSE"), ("challenge", .str challenge)]

variable (keys : Keys)

/-- `MessageSigner.envelope`: the signed message, and the record that it was signed. -/
def signEnvelope (key : Key) (payload : Payload) (timestamp : Int) (nonce : String) (sequence : Int) : Message × Signed :=
  let e : Envelope := ⟨1, timestamp, nonce, sequence, keys.nodeId key, payload⟩
  let signature := keys.sign key e
  (⟨e, some (toHex signature)⟩, ⟨key, e, signature⟩)

/-- `MessageVerifier.verify` under `key`: none if it returns. -/
def verify (w : World) (key : Key) (m : Message) : Option Raised :=
  match m.signature with
  | none => some .noSignature
  | some hex =>
    match fromHex hex with
    | none => some .notHex
    | some signature => if ⟨key, m.envelope, signature⟩ ∈ w.signed then none else some .invalidSignature

def step (w : World) : Event → Result × World
  | .createHello i token => (.hello token, { w with parties := update w.parties i { w.parties i with challenge := some token } })
  | .createResponse i nonce =>
    match (w.parties i).challenge with
    | none => (.raised .noChallenge, w)
    | some challenge =>
      if challenge = "" then (.raised .noChallenge, w)
      else
        let r := signEnvelope keys (keys.signer i) (challengeResponse challenge) 0 nonce 0
        (.message r.1, { w with signed := w.signed ++ [r.2] })
  | .verifyResponse i m =>
    match verify w (keys.trusted i) m with
    | some e => (.raised e, w)
    | none => (.verified, { w with parties := update w.parties i { w.parties i with authenticated := true } })
  | .envelope key payload timestamp nonce sequence =>
    let r := signEnvelope keys key payload timestamp nonce sequence
    (.message r.1, { w with signed := w.signed ++ [r.2] })

/-- The state after a run of calls from the beginning. -/
def reached (es : List Event) : World := final (step keys) World.init es

/-! ## Freshness -/

/-- The payload is a CHALLENGE_RESPONSE carrying `challenge`. -/
def Carries (p : Payload) (challenge : String) : Prop :=
  p.lookup "type" = some (.str "CHALLENGE_RESPONSE") ∧ p.lookup "challenge" = some (.str challenge)

instance (p : Payload) (challenge : String) : Decidable (Carries p challenge) := inferInstanceAs (Decidable (_ ∧ _))

/-- The payload answers the challenge party `i` last issued. -/
def AnswersCurrent (w : World) (i : Nat) (p : Payload) : Prop := ∃ c, (w.parties i).challenge = some c ∧ Carries p c

/-- The event sets `authenticated` on a party only through a message that answers the
    challenge it last issued. -/
def Fresh (w : World) (e : Event) : Prop :=
  ∀ i, (w.parties i).authenticated = false → ((step keys w e).2.parties i).authenticated = true →
    ∃ m, e = .verifyResponse i m ∧ AnswersCurrent w i m.envelope.payload

/-- The key party `i` trusts has signed nothing but answers to its current challenge. -/
def OnlyCurrent (w : World) (i : Nat) : Prop :=
  ∀ r ∈ w.signed, r.key = keys.trusted i → AnswersCurrent w i r.envelope.payload

variable {keys}

/-- What a step can do to `authenticated`: nothing, or a verified message sets it on the
    party it was presented to. -/
theorem step_authenticates {w : World} {e : Event} {i : Nat} (h0 : (w.parties i).authenticated = false)
    (h1 : ((step keys w e).2.parties i).authenticated = true) :
    ∃ m, e = .verifyResponse i m ∧ verify w (keys.trusted i) m = none := by
  cases e with
  | createHello j token =>
    simp only [step, Function.update_apply] at h1
    split at h1 <;> simp_all
  | createResponse j nonce =>
    simp only [step] at h1
    split at h1
    · rw [h0] at h1; cases h1
    · split at h1 <;> (rw [h0] at h1; cases h1)
  | envelope key p t n q => rw [show ((step keys w (.envelope key p t n q)).2.parties i) = w.parties i from rfl, h0] at h1; cases h1
  | verifyResponse j m =>
    simp only [step] at h1
    split at h1
    · rw [h0] at h1; cases h1
    · rename_i hv
      by_cases hij : i = j
      · subst hij; exact ⟨m, rfl, hv⟩
      · simp only [Function.update_of_ne hij, h0] at h1; cases h1

/-- A verified message's envelope was signed by the key it was verified under. -/
theorem verify_signed {w : World} {key : Key} {m : Message} (h : verify w key m = none) :
    ∃ r ∈ w.signed, r.key = key ∧ r.envelope = m.envelope := by
  unfold verify at h
  split at h
  · cases h
  · split at h
    · cases h
    · split at h
      · exact ⟨_, ‹_›, rfl, rfl⟩
      · cases h

/-- Presented with an envelope its trusted key signed, an authenticator accepts it. -/
theorem signed_verifies {w : World} {r : Signed} (h : r ∈ w.signed) :
    verify w r.key ⟨r.envelope, some (toHex r.signature)⟩ = none := by
  simp [verify, fromHex_toHex, h]

theorem verify_fresh {w : World} {i : Nat} (h : OnlyCurrent keys w i) (m : Message) : Fresh keys w (.verifyResponse i m) := by
  intro j h0 h1
  obtain ⟨m', he, hv⟩ := step_authenticates h0 h1
  obtain ⟨rfl, rfl⟩ := Event.verifyResponse.inj he
  obtain ⟨r, hr, hk, hm⟩ := verify_signed hv
  exact ⟨m, rfl, hm ▸ h r hr hk⟩

theorem only_current_of_fresh {w : World} {i : Nat} (h0 : (w.parties i).authenticated = false)
    (h : ∀ m, Fresh keys w (.verifyResponse i m)) : OnlyCurrent keys w i := by
  intro r hr hk
  have hv := hk ▸ signed_verifies hr
  have h1 : ((step keys w (.verifyResponse i ⟨r.envelope, some (toHex r.signature)⟩)).2.parties i).authenticated = true := by
    simp [step, hv]
  obtain ⟨m, he, ha⟩ := h _ i h0 h1
  obtain ⟨-, rfl⟩ := Event.verifyResponse.inj he
  exact ha

/-- Whatever message comes next, freshness holds of an unauthenticated party exactly when
    its trusted key has signed nothing but answers to its current challenge; so it holds
    of every step of a run whose verifications all find that. -/
theorem fresh_iff_only_current (keys : Keys) :
    (∀ es i, ((reached keys es).parties i).authenticated = false →
      ((∀ m, Fresh keys (reached keys es) (.verifyResponse i m)) ↔ OnlyCurrent keys (reached keys es) i)) ∧
    (∀ es, (∀ before i m after, es = before ++ .verifyResponse i m :: after →
        ((reached keys before).parties i).authenticated = false → OnlyCurrent keys (reached keys before) i) →
      ∀ before e after, es = before ++ e :: after → Fresh keys (reached keys before) e) := by
  refine ⟨fun es i h0 => ⟨only_current_of_fresh h0, fun h m => verify_fresh h m⟩, ?_⟩
  intro es hok before e after he i h0 h1
  obtain ⟨m, rfl, -⟩ := step_authenticates h0 h1
  exact verify_fresh (hok before i m after he h0) m i h0 h1

/-- Party 0 trusts the key of party 1. -/
def twoParties : Keys := ⟨fun i => i, fun _ => 1, fun k => toString k, fun k e => [UInt8.ofNat k, UInt8.ofNat e.nonce.length]⟩

/-- The response party 1 makes, to its own challenge. -/
def ownResponse : Message := (signEnvelope twoParties 1 (challengeResponse "c1") 0 "n1" 0).1

/-- The handshake of two parties authenticates one through a response that carries the
    other's challenge. -/
theorem stale_response_authenticates :
    ¬ ∀ (keys : Keys) (es before : List Event) (e : Event) (after : List Event), es = before ++ e :: after →
      Fresh keys (reached keys before) e := by
  intro h
  have hfresh := h twoParties _ [.createHello 1 "c1", .createResponse 1 "n1", .createHello 0 "c0"]
    (.verifyResponse 0 ownResponse) [] rfl
  obtain ⟨m, he, c, hc, hcar⟩ := hfresh 0 (by decide +kernel) (by decide +kernel)
  obtain ⟨-, rfl⟩ := Event.verifyResponse.inj he
  have hcur : c = "c0" := by
    have : (((reached twoParties [.createHello 1 "c1", .createResponse 1 "n1", .createHello 0 "c0"]).parties 0).challenge) =
        some "c0" := by decide +kernel
    rw [this] at hc; exact (Option.some.inj hc).symm
  subst hcur
  exact absurd hcar (by decide +kernel)

end PyxelVM.Security
