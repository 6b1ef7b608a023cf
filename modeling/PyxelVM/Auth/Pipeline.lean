/-
  PyxelVM.Auth.Pipeline — `ZDXAuthenticationPipeline` (`zdx_auth_pipeline.py`).

  A call of `process_message` carries the fields the network delivers and the two
  clock readings it takes (`nowStamp` in stage 2, `nowRate` in stage 6). Stages 1 to
  5 read no pipeline state: `identityChecks`. Stage 6 reads and writes the sender's
  `ReplayGuardState` only: `answer`. The defaultdict of guards is a partial map, and
  `guardOf` is its access (the entry, or a fresh state).

  Times are exact rationals. A delivered timestamp is any number Python's JSON
  decoder can produce, so also NaN and the infinities, with the comparisons Python
  gives them. The payload is whatever the callbacks take. `verify_signature`,
  `check_revocation` and `check_enrollment` answer as functions of their arguments;
  the enrollment state that `check_enrollment` also returns is read by nobody.

  `process_fail` and `process_live` say all a call can do: a call that fails stages
  1 to 5 changes nothing, and any other changes the sender's guard alone, by `answer`.
-/

import Mathlib.Data.Finset.Insert
import Mathlib.Logic.Function.Basic
import PyxelVM.Lib.Decimal
import PyxelVM.Lib.Trace

namespace PyxelVM.Auth

open Function (update)

/-! ## Configuration -/

def maxMessageAge : Rat := 60
def sequenceWindow : Int := 100
def rateLimitWindow : Rat := 10
def rateLimitMaxMessages : Nat := 100
def supportedVersions : List Int := [1]

/-! ## Errors -/

inductive Stage where
  | protocolVersion
  | timestamp
  | signatureVerification
  | revocationCheck
  | enrollmentCheck
  | rateLimit
  | replayProtection
  deriving DecidableEq, Repr

/-- The stage's name in the error. -/
def Stage.name : Stage → String
  | .protocolVersion => "protocol_version"
  | .timestamp => "timestamp"
  | .signatureVerification => "signature_verification"
  | .revocationCheck => "revocation_check"
  | .enrollmentCheck => "enrollment_check"
  | .rateLimit => "rate_limit"
  | .replayProtection => "replay_protection"

structure AuthenticationError where
  stage : Stage
  reason : String
  peerId : String
  deriving DecidableEq, Repr

/-! ## Replay guard -/

structure ReplayGuardState where
  peerId : String
  lastSequence : Int := -1
  seenSequences : Finset Int := ∅
  lastMessageTime : Rat := 0
  messageCount : Nat := 0
  rateLimitWindowStart : Rat := 0
  deriving DecidableEq

/-- `check_and_update_rate_limit`, with the clock's reading. -/
def ReplayGuardState.checkAndUpdateRateLimit (g : ReplayGuardState) (now : Rat) : Bool × ReplayGuardState :=
  let g := if now - g.rateLimitWindowStart > rateLimitWindow
    then { g with rateLimitWindowStart := now, messageCount := 0 } else g
  let g := { g with messageCount := g.messageCount + 1 }
  (decide (g.messageCount ≤ rateLimitMaxMessages), g)

def ReplayGuardState.checkSequence (g : ReplayGuardState) (sequence : Int) : Bool × ReplayGuardState :=
  if sequence ≤ g.lastSequence then (false, g)
  else if sequence ∈ g.seenSequences then (false, g)
  else
    let seen := if sequence > g.lastSequence + sequenceWindow then ∅ else g.seenSequences
    (true, { g with seenSequences := insert sequence seen, lastSequence := sequence })

/-! ## Messages -/

/-- A number as Python's JSON decoder delivers it. -/
inductive Stamp where
  | finite (q : Rat)
  | nan
  | inf (negative : Bool)
  deriving DecidableEq, Repr

/-- `abs(now - timestamp)`. -/
def Stamp.age (now : Rat) : Stamp → Stamp
  | .finite q => .finite (now - q).abs
  | .nan => .nan
  | .inf _ => .inf false

/-- Python's `x > bound`: false for NaN. -/
def Stamp.exceeds (bound : Rat) : Stamp → Bool
  | .finite q => decide (bound < q)
  | .nan => false
  | .inf negative => !negative

/-- `f"{x:.1f}"`. -/
def Stamp.fixed1 : Stamp → String
  | .finite q => Lib.fixed 1 q
  | .nan => "nan"
  | .inf _ => "inf"

structure Call (Payload : Type) where
  peerId : String
  protocolVersion : Int
  timestamp : Stamp
  signature : String
  payload : Payload
  sequence : Option Int
  /-- `time.time()` in `_validate_timestamp`. -/
  nowStamp : Rat
  /-- `time.time()` in `check_and_update_rate_limit`. -/
  nowRate : Rat
  deriving DecidableEq

structure Callbacks (Payload : Type) where
  verifySignature : String → Payload → String → Bool
  checkRevocation : String → Bool
  checkEnrollment : String → Bool

/-- The replay guards by peer; `none` is a peer without an entry. -/
abbrev Guards := String → Option ReplayGuardState

inductive Verdict where
  | dispatched
  | rejected (e : AuthenticationError)
  deriving DecidableEq, Repr

variable {Payload : Type}

/-! ## Stages 1 to 5 -/

def validateProtocolVersion (peerId : String) (protocolVersion : Int) : Except AuthenticationError Unit :=
  if protocolVersion ∉ supportedVersions then
    .error ⟨.protocolVersion, s!"unsupported version {protocolVersion}", peerId⟩
  else .ok ()

def validateTimestamp (peerId : String) (timestamp : Stamp) (now : Rat) : Except AuthenticationError Unit :=
  let age := timestamp.age now
  if age.exceeds maxMessageAge then
    .error ⟨.timestamp, s!"message age {age.fixed1}s exceeds maximum {Lib.fixed 1 maxMessageAge}s", peerId⟩
  else .ok ()

def verifyEd25519Signature (cb : Callbacks Payload) (peerId signature : String) (payload : Payload) :
    Except AuthenticationError Unit :=
  if !cb.verifySignature peerId payload signature then
    .error ⟨.signatureVerification, "Ed25519 signature verification failed (forged or modified message)", peerId⟩
  else .ok ()

def checkRevoked (cb : Callbacks Payload) (peerId : String) : Except AuthenticationError Unit :=
  if cb.checkRevocation peerId then
    .error ⟨.revocationCheck, "peer is revoked (removed from network)", peerId⟩
  else .ok ()

def checkEnrollment (cb : Callbacks Payload) (peerId : String) : Except AuthenticationError Unit :=
  if !cb.checkEnrollment peerId then
    .error ⟨.enrollmentCheck, "peer is not enrolled (public key not registered)", peerId⟩
  else .ok ()

/-- Stages 1 to 5, in order. -/
def identityChecks (cb : Callbacks Payload) (c : Call Payload) : Except AuthenticationError Unit := do
  validateProtocolVersion c.peerId c.protocolVersion
  validateTimestamp c.peerId c.timestamp c.nowStamp
  verifyEd25519Signature cb c.peerId c.signature c.payload
  checkRevoked cb c.peerId
  checkEnrollment cb c.peerId

/-- The call gets past stage 5. -/
def passes (cb : Callbacks Payload) (c : Call Payload) : Bool := (identityChecks cb c).isOk

/-! ## Stage 6 -/

/-- `self._replay_guards[peer_id]`. -/
def guardOf (gs : Guards) (peerId : String) : ReplayGuardState := (gs peerId).getD { peerId := "" }

def checkRateLimit (gs : Guards) (peerId : String) (now : Rat) : Except AuthenticationError Unit × Guards :=
  let guard := { guardOf gs peerId with peerId := peerId }
  let r := guard.checkAndUpdateRateLimit now
  (if !r.1 then
      .error ⟨.rateLimit, s!"peer exceeds rate limit ({rateLimitMaxMessages} messages per {Lib.fixed 1 rateLimitWindow}s)", peerId⟩
    else .ok (), update gs peerId (some r.2))

def checkReplay (gs : Guards) (peerId : String) (sequence : Int) : Except AuthenticationError Unit × Guards :=
  let guard := { guardOf gs peerId with peerId := peerId }
  let r := guard.checkSequence sequence
  (if !r.1 then
      .error ⟨.replayProtection, s!"invalid or replayed sequence number {sequence}", peerId⟩
    else .ok (), update gs peerId (some r.2))

/-! ## The pipeline -/

def processMessage (cb : Callbacks Payload) (gs : Guards) (c : Call Payload) : Verdict × Guards :=
  match identityChecks cb c with
  | .error e => (.rejected e, gs)
  | .ok () =>
    match checkRateLimit gs c.peerId c.nowRate with
    | (.error e, gs) => (.rejected e, gs)
    | (.ok (), gs) =>
      match c.sequence with
      | none => (.dispatched, gs)
      | some sequence =>
        match checkReplay gs c.peerId sequence with
        | (.error e, gs) => (.rejected e, gs)
        | (.ok (), gs) => (.dispatched, gs)

def getReplayState (gs : Guards) (peerId : String) : ReplayGuardState := (gs peerId).getD { peerId := peerId }

/-- A pipeline as constructed. -/
def Guards.init : Guards := fun _ => none

/-! ## What a call can do -/

/-- Stage 6 and 7 on the sender's guard alone. -/
def ReplayGuardState.answer (guard : ReplayGuardState) (c : Call Payload) : Verdict × ReplayGuardState :=
  let r := { guard with peerId := c.peerId }.checkAndUpdateRateLimit c.nowRate
  if !r.1 then
    (.rejected ⟨.rateLimit, s!"peer exceeds rate limit ({rateLimitMaxMessages} messages per {Lib.fixed 1 rateLimitWindow}s)", c.peerId⟩, r.2)
  else
    match c.sequence with
    | none => (.dispatched, r.2)
    | some sequence =>
      let q := { r.2 with peerId := c.peerId }.checkSequence sequence
      if !q.1 then
        (.rejected ⟨.replayProtection, s!"invalid or replayed sequence number {sequence}", c.peerId⟩, q.2)
      else (.dispatched, q.2)

@[simp] theorem guardOf_update (gs : Guards) (p : String) (g : ReplayGuardState) :
    guardOf (update gs p (some g)) p = g := by simp [guardOf]

/-- A call that fails stages 1 to 5 is rejected there and touches no guard. -/
theorem process_fail {cb : Callbacks Payload} {c : Call Payload} (gs : Guards) (h : passes cb c = false) :
    ∃ e, processMessage cb gs c = (.rejected e, gs) ∧ identityChecks cb c = .error e := by
  unfold passes at h
  cases hc : identityChecks cb c with
  | error e => exact ⟨e, by simp [processMessage, hc], rfl⟩
  | ok u => simp [hc, Except.isOk, Except.toBool] at h

/-- Any other call is decided by the sender's guard, and changes that guard alone. -/
theorem process_live {cb : Callbacks Payload} {gs : Guards} {c : Call Payload} (h : passes cb c = true) :
    processMessage cb gs c =
      (((guardOf gs c.peerId).answer c).1, update gs c.peerId (some ((guardOf gs c.peerId).answer c).2)) := by
  unfold passes at h
  cases hc : identityChecks cb c with
  | error e => simp [hc, Except.isOk, Except.toBool] at h
  | ok u =>
    simp only [processMessage, hc, checkRateLimit, ReplayGuardState.answer]
    split
    · rename_i e gs' he
      obtain ⟨h1, rfl⟩ := Prod.mk.inj he
      split at h1 <;> simp_all
    · rename_i gs' he
      obtain ⟨h1, rfl⟩ := Prod.mk.inj he
      split at h1
      · simp at h1
      · rename_i hr
        simp only [hr, Bool.false_eq_true, if_false]
        cases c.sequence with
        | none => rfl
        | some q =>
          simp only [checkReplay, guardOf_update, Function.update_idem]
          split <;> rename_i hq <;> obtain ⟨h2, rfl⟩ := Prod.mk.inj hq <;> split at h2 <;> simp_all

end PyxelVM.Auth
