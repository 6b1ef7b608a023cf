/-
  PyxelVM.Auth.Gate — the pipeline over the signer and the revocation registry
  (`zdx_auth_pipeline.py`, `zdx_ed25519_signer.py`, `security/revocation.py`).

  The pipeline as its documentation wires it: `verify_signature` is `verify_message` of
  the node's `ZDXEd25519Signer`, `check_revocation` is `is_revoked` of a
  `RevocationRegistry`. Of these only the node's own keypair is on disk: a restart
  forgets the peers' keys, who is revoked, and every sequence.

  - `keyOf`, `revokedOf`, `acceptedOf`: what the events of a run say of a peer.
  - `records_after`: in every state reached the three parts hold just that.
  - `opens_iff`: so a message is dispatched exactly if it is well timed, the key last
    registered for its sender since the restart accepts it, the sender was not revoked
    since then and not restored, it is enrolled and in rate, and the sequence is above
    all accepted from it since its state was last forgotten.
-/

import PyxelVM.Auth.Isolation
import PyxelVM.Auth.Mediation
import PyxelVM.Security.Signer

namespace PyxelVM.Auth

open Function (update)
open PyxelVM.Lib
open PyxelVM.Security

/-! ## The registry -/

structure RevocationRegistry where
  revoked : Finset String := ∅

namespace RevocationRegistry

def revoke (r : RevocationRegistry) (nodeId : String) : RevocationRegistry := ⟨insert nodeId r.revoked⟩

def restore (r : RevocationRegistry) (nodeId : String) : RevocationRegistry := ⟨r.revoked.erase nodeId⟩

def isRevoked (r : RevocationRegistry) (nodeId : String) : Bool := decide (nodeId ∈ r.revoked)

end RevocationRegistry

/-! ## The gate -/

variable {Payload : Type} (crypto : Crypto Payload)

structure Gate where
  node : Node
  registry : RevocationRegistry
  guards : Guards

inductive GateEvent (Payload : Type) where
  | registerPeerPublicKey (peerId publicKeyPem : String)
  | rotateKeys (now : Rat) (drawn : Drawn)
  | revoke (nodeId : String)
  | restore (nodeId : String)
  | clearReplayState (peerId : String)
  /-- The process is started again on its key directory. -/
  | restarted (drawn : Drawn)
  /-- `process_message`, with the answers of `check_enrollment`. -/
  | processMessage (enrolled : String → Bool) (c : Call Payload)

namespace Gate

def create (nodeId : String) (drawn : Drawn) (keyPath : KeyPath) : Gate :=
  ⟨.create crypto nodeId drawn keyPath, {}, Guards.init⟩

def callbacks (g : Gate) (enrolled : String → Bool) : Callbacks Payload :=
  ⟨g.node.signer.verifyMessage crypto, g.registry.isRevoked, enrolled⟩

/-- The verdict, of a message, and the gate afterwards. -/
def step (g : Gate) : GateEvent Payload → Option Verdict × Gate
  | .registerPeerPublicKey peerId pem => (none, { g with node := g.node.step crypto (.registerPeerPublicKey peerId pem) })
  | .rotateKeys now drawn => (none, { g with node := g.node.step crypto (.rotateKeys now drawn) })
  | .revoke nodeId => (none, { g with registry := g.registry.revoke nodeId })
  | .restore nodeId => (none, { g with registry := g.registry.restore nodeId })
  | .clearReplayState peerId => (none, { g with guards := clearReplayState g.guards peerId })
  | .restarted drawn => (none, create crypto g.node.signer.nodeId drawn g.node.keyPath)
  | .processMessage enrolled c =>
    let processed := processMessage (g.callbacks crypto enrolled) g.guards c
    (some processed.1, { g with guards := processed.2 })

end Gate

/-! ## What the events say of a peer -/

variable (p : String)

/-- The key last registered for the peer since the restart. -/
def keyOf (key : Option String) : GateEvent Payload → Option String
  | .registerPeerPublicKey peerId pem => if peerId = p then some pem else key
  | .restarted _ => none
  | _ => key

/-- Revoked since the restart, and not restored. -/
def revokedOf (revoked : Bool) : GateEvent Payload → Bool
  | .revoke nodeId => if nodeId = p then true else revoked
  | .restore nodeId => if nodeId = p then false else revoked
  | .restarted _ => false
  | _ => revoked

/-- The sequences dispatched since the peer's state was last forgotten. -/
def acceptedOf (accepted : List Int) : GateEvent Payload × Option Verdict → List Int
  | (.clearReplayState peerId, _) => if peerId = p then [] else accepted
  | (.restarted _, _) => []
  | (.processMessage _ c, some .dispatched) => if c.peerId = p then accepted ++ c.sequence.toList else accepted
  | _ => accepted

/-- A guard that accepted these sequences. -/
structure Heard (s : ReplayGuardState) (accepted : List Int) : Prop where
  floor : -1 ≤ s.lastSequence
  last : s.lastSequence = -1 ∨ s.lastSequence ∈ accepted
  below : ∀ q ∈ accepted, q ≤ s.lastSequence
  seen : ∀ q ∈ s.seenSequences, q ≤ s.lastSequence

/-- What the gate holds of a peer. -/
structure Gate.Records (g : Gate) (p : String) (key : Option String) (revoked : Bool) (accepted : List Int) : Prop where
  key : g.node.signer.peerPublicKeys.get? p = key
  revoked : g.registry.isRevoked p = revoked
  heard : Heard (guardOf g.guards p) accepted

/-! ## The guard -/

section

variable {s t : ReplayGuardState} {accepted : List Int} {q : Int}

theorem heard_fresh (peerId : String) : Heard { peerId } [] :=
  ⟨le_refl (-1 : Int), .inl rfl, fun _ hq => absurd hq List.not_mem_nil, fun _ hq => absurd hq (Finset.notMem_empty _)⟩

theorem Heard.congr (h : Heard s accepted) (e : SameSequences t s) : Heard t accepted := by
  obtain ⟨hl, hs⟩ := e
  refine ⟨?_, ?_, ?_, ?_⟩
  · rw [hl]
    exact h.floor
  · rw [hl]
    exact h.last
  · rw [hl]
    exact h.below
  · rw [hl, hs]
    exact h.seen

/-- Fresh is what is above all that was accepted. -/
theorem Heard.fresh_iff (h : Heard s accepted) (q : Int) : (s.checkSequence q).1 = true ↔ 0 ≤ q ∧ ∀ a ∈ accepted, a < q := by
  have hfloor := h.floor
  constructor
  · intro hq
    have habove := (checkSequence_accepted hq).1
    refine ⟨by omega, ?_⟩
    intro a ha
    have hle := h.below a ha
    omega
  · intro hq
    have habove : s.lastSequence < q := by
      rcases h.last with hlast | hlast
      · omega
      · exact hq.2 _ hlast
    have hnew : q ∉ s.seenSequences := by
      intro hmem
      have hle := h.seen q hmem
      omega
    rw [ReplayGuardState.checkSequence, if_neg (by omega), if_neg hnew]

theorem Heard.accept (h : Heard s accepted) (hq : (s.checkSequence q).1 = true) :
    Heard (s.checkSequence q).2 (accepted ++ [q]) := by
  obtain ⟨habove, hlast⟩ := checkSequence_accepted hq
  have hseen : ∀ r ∈ (s.checkSequence q).2.seenSequences, r ≤ q := by
    intro r hr
    rw [ReplayGuardState.checkSequence] at hr
    split at hr
    · omega
    split at hr
    · have hle := h.seen r hr
      omega
    rcases Finset.mem_insert.mp hr with rfl | hr
    · exact le_refl r
    split at hr
    · exact absurd hr (Finset.notMem_empty r)
    · have hle := h.seen r hr
      omega
  have hfloor := h.floor
  refine ⟨by omega, ?_, ?_, ?_⟩
  · rw [hlast]
    exact .inr (List.mem_append_right _ (List.mem_singleton.mpr rfl))
  · intro a ha
    rw [hlast]
    rcases List.mem_append.mp ha with ha | ha
    · have hle := h.below a ha
      omega
    · exact (List.mem_singleton.mp ha).le
  · rw [hlast]
    exact hseen

/-- A message leaves the guard as it was, or is dispatched and its sequence accepted. -/
theorem Heard.answer {c : Call Payload} (h : Heard s accepted) :
    Heard (s.answer c).2 (if (s.answer c).1 = .dispatched then accepted ++ c.sequence.toList else accepted) := by
  rcases answer_cases s c with ⟨-, hn, -, hs⟩ | ⟨-, -, hn, -, hs⟩ | ⟨-, hf, hd, hs⟩
  · rw [if_neg hn]
    exact h.congr hs
  · rw [if_neg hn]
    exact h.congr hs
  · rw [if_pos hd]
    cases hq : c.sequence with
    | none =>
      rw [hq] at hs
      simpa using h.congr hs
    | some q =>
      rw [hq] at hf hs
      exact (h.accept hf).congr hs

end

/-! ## One event -/

section

variable {crypto} {p} {g : Gate} {key : Option String} {revoked : Bool} {accepted : List Int}

theorem create_records (nodeId : String) (drawn : Drawn) (keyPath : KeyPath) (p : String) :
    (Gate.create crypto nodeId drawn keyPath).Records p none false [] := by
  refine ⟨Dict.get?_empty _, ?_, heard_fresh _⟩
  simp [Gate.create, RevocationRegistry.isRevoked]

theorem isRevoked_revoke (r : RevocationRegistry) (nodeId p : String) :
    (r.revoke nodeId).isRevoked p = if nodeId = p then true else r.isRevoked p := by
  by_cases h : nodeId = p
  · simp [RevocationRegistry.isRevoked, RevocationRegistry.revoke, h]
  · simp [RevocationRegistry.isRevoked, RevocationRegistry.revoke, h, Ne.symm h]

theorem isRevoked_restore (r : RevocationRegistry) (nodeId p : String) :
    (r.restore nodeId).isRevoked p = if nodeId = p then false else r.isRevoked p := by
  by_cases h : nodeId = p
  · simp [RevocationRegistry.isRevoked, RevocationRegistry.restore, h]
  · simp [RevocationRegistry.isRevoked, RevocationRegistry.restore, h, Ne.symm h]

theorem guardOf_clear (gs : Guards) (peerId p : String) (h : Heard (guardOf gs p) accepted) :
    Heard (guardOf (clearReplayState gs peerId) p) (if peerId = p then [] else accepted) := by
  by_cases hp : peerId = p
  · rw [if_pos hp, clearReplayState, hp, guardOf, Function.update_self]
    exact heard_fresh ""
  · rw [if_neg hp, clearReplayState, guardOf, Function.update_of_ne (Ne.symm hp)]
    exact h

theorem guardOf_message {cb : Callbacks Payload} {gs : Guards} {c : Call Payload} (h : Heard (guardOf gs p) accepted) :
    Heard (guardOf (processMessage cb gs c).2 p)
      (acceptedOf p accepted (.processMessage cb.checkEnrollment c, some (processMessage cb gs c).1)) := by
  by_cases hp : c.peerId = p
  · cases hpasses : passes cb c with
    | false =>
      obtain ⟨e, he, -⟩ := process_fail gs hpasses
      rw [he]
      exact h
    | true =>
      rw [process_live hpasses, hp, guardOf_update]
      have hanswer := h.answer (c := c)
      cases hv : ((guardOf gs p).answer c).1 with
      | dispatched =>
        rw [hv, if_pos rfl] at hanswer
        rwa [acceptedOf, if_pos hp]
      | rejected e =>
        rw [hv, if_neg Verdict.noConfusion] at hanswer
        exact hanswer
  · rw [guardOf, process_other hp]
    cases (processMessage cb gs c).1 with
    | dispatched => rwa [acceptedOf, if_neg hp]
    | rejected e => exact h

theorem records_step (h : g.Records p key revoked accepted) (e : GateEvent Payload) :
    (g.step crypto e).2.Records p (keyOf p key e) (revokedOf p revoked e) (acceptedOf p accepted (e, (g.step crypto e).1)) := by
  obtain ⟨hkey, hrevoked, hheard⟩ := h
  cases e with
  | registerPeerPublicKey peerId pem =>
    refine ⟨?_, hrevoked, hheard⟩
    by_cases hp : peerId = p
    · subst hp
      simp [Gate.step, Node.step, ZDXEd25519Signer.registerPeerPublicKey, keyOf]
    · simp only [Gate.step, Node.step, ZDXEd25519Signer.registerPeerPublicKey, keyOf, if_neg hp]
      exact (Dict.get?_set_of_ne _ (Ne.symm hp) _).trans hkey
  | rotateKeys now drawn => exact ⟨hkey, hrevoked, hheard⟩
  | revoke nodeId =>
    refine ⟨hkey, ?_, hheard⟩
    rw [Gate.step, isRevoked_revoke, hrevoked, revokedOf]
  | restore nodeId =>
    refine ⟨hkey, ?_, hheard⟩
    rw [Gate.step, isRevoked_restore, hrevoked, revokedOf]
  | clearReplayState peerId => exact ⟨hkey, hrevoked, guardOf_clear g.guards peerId p hheard⟩
  | restarted drawn => exact create_records g.node.signer.nodeId drawn g.node.keyPath p
  | processMessage enrolled c => exact ⟨hkey, hrevoked, guardOf_message hheard⟩

end

/-! ## A run -/

section

variable (nodeId : String) (drawn : Drawn) (keyPath : KeyPath) (events : List (GateEvent Payload))

/-- The gate after the events, as constructed before them. -/
def gateAfter : Gate := Trace.final (Gate.step crypto) (Gate.create crypto nodeId drawn keyPath) events

/-- The sequences of a peer that were dispatched since its state was last forgotten. -/
def acceptedFrom : List Int :=
  (Trace.log (Gate.step crypto) (Gate.create crypto nodeId drawn keyPath) events).foldl (acceptedOf p) []

theorem records_after : (gateAfter crypto nodeId drawn keyPath events).Records p (events.foldl (keyOf p) none)
    (events.foldl (revokedOf p) false) (acceptedFrom crypto p nodeId drawn keyPath events) := by
  induction events using List.reverseRecOn with
  | nil => exact create_records nodeId drawn keyPath p
  | append_singleton events e ih =>
    rw [gateAfter, acceptedFrom, Trace.final_concat, Trace.log_concat, List.foldl_concat, List.foldl_concat, List.foldl_concat]
    exact records_step ih e

/-- What a message must be, after the events. -/
structure Admissible (enrolled : String → Bool) (c : Call Payload) : Prop where
  version : c.protocolVersion ∈ supportedVersions
  timed : c.timestamp = .nan ∨ ∃ q, c.timestamp = .finite q ∧ (c.nowStamp - q).abs ≤ maxMessageAge
  signed : ∃ pem bytes, events.foldl (keyOf c.peerId) none = some pem ∧ crypto.b64decode c.signature = some bytes ∧
    crypto.verify pem bytes (crypto.canonical c.payload) = true
  unrevoked : events.foldl (revokedOf c.peerId) false = false
  enrolled : enrolled c.peerId = true
  inRate : (guardOf (gateAfter crypto nodeId drawn keyPath events).guards c.peerId).rateOk c.nowRate = true
  newer : ∀ q, c.sequence = some q → 0 ≤ q ∧ ∀ a ∈ acceptedFrom crypto c.peerId nodeId drawn keyPath events, a < q

theorem verifyMessage_iff (s : ZDXEd25519Signer) (peerId : String) (payload : Payload) (signature : String) :
    s.verifyMessage crypto peerId payload signature = true ↔
      ∃ pem bytes, s.peerPublicKeys.get? peerId = some pem ∧ crypto.b64decode signature = some bytes ∧
        crypto.verify pem bytes (crypto.canonical payload) = true := by
  rw [ZDXEd25519Signer.verifyMessage]
  cases s.peerPublicKeys.get? peerId with
  | none => simp
  | some pem =>
    cases crypto.b64decode signature with
    | none => simp
    | some bytes => simp

/-- Which messages open the gate, after every run: those the run and the message itself say are in order. -/
theorem opens_iff (enrolled : String → Bool) (c : Call Payload) :
    ((gateAfter crypto nodeId drawn keyPath events).step crypto (.processMessage enrolled c)).1 = some .dispatched ↔
      Admissible crypto nodeId drawn keyPath events enrolled c := by
  have hrecords := records_after crypto c.peerId nodeId drawn keyPath events
  set g := gateAfter crypto nodeId drawn keyPath events with hg
  have hd := dispatched_iff g.guards ⟨g.callbacks crypto enrolled, c, fun _ _ => none⟩
  have hsigned := verifyMessage_iff crypto g.node.signer c.peerId c.payload c.signature
  rw [hrecords.key] at hsigned
  have hfresh : (guardOf g.guards c.peerId).fresh c.sequence = true ↔
      ∀ q, c.sequence = some q → 0 ≤ q ∧ ∀ a ∈ acceptedFrom crypto c.peerId nodeId drawn keyPath events, a < q := by
    cases c.sequence with
    | none => simp [ReplayGuardState.fresh]
    | some q => simpa [ReplayGuardState.fresh] using hrecords.heard.fresh_iff q
  rw [Gate.step, Option.some.injEq, hd]
  constructor
  · intro h
    obtain ⟨hp, htimed⟩ := h
    refine ⟨hp.version, htimed, hsigned.mp hp.signed, ?_, hp.enrolled, ?_, hfresh.mp hp.fresh⟩
    · rw [← hrecords.revoked]
      exact hp.unrevoked
    · rw [← hg]
      exact hp.inRate
  · intro h
    have hunrevoked : g.registry.isRevoked c.peerId = false := hrecords.revoked.trans h.unrevoked
    have hrate := h.inRate
    rw [← hg] at hrate
    exact ⟨⟨h.version, hsigned.mpr h.signed, hunrevoked, h.enrolled, hrate, hfresh.mpr h.newer⟩, h.timed⟩

end

end PyxelVM.Auth
