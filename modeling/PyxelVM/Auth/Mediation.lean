/-
  PyxelVM.Auth.Mediation — what a message that reaches the handler has passed
  (`zdx_auth_pipeline.py`).

  A `Journal` is the pipeline with the sequences it has accepted, which
  `clear_replay_state` forgets of its peer. `Vetted` says of a message all that the
  stages stand for, the finite timestamp near the clock included. `Mediates`: the
  handler is not called, or called once, with the message, and the message is vetted.

  - `nan_dispatched`: it fails. The age of a NaN timestamp is NaN, which does not exceed
    the maximum.
  - `mediates_iff`: it holds of a message exactly if its timestamp is not NaN, or one of
    the other stages refuses it.
-/

import PyxelVM.Auth.Lockout
import PyxelVM.Auth.Sequences

namespace PyxelVM.Auth

open Function (update)

variable {Payload : Type}

/-! ## The pipeline and what it has accepted -/

inductive PipelineCall (Payload : Type) where
  | processMessage (d : Delivery Payload)
  | clearReplayState (peerId : String)

def clearReplayState (gs : Guards) (peerId : String) : Guards := update gs peerId none

structure Journal where
  guards : Guards
  /-- The sequences accepted, with their peers, since a peer's state was last cleared. -/
  accepted : List (String × Int)

def Journal.init : Journal := ⟨Guards.init, []⟩

def Journal.step (j : Journal) : PipelineCall Payload → Journal
  | .processMessage d => ⟨(deliver j.guards d).2, j.accepted ++ reached d (deliver j.guards d).1⟩
  | .clearReplayState peerId => ⟨clearReplayState j.guards peerId, j.accepted.filter fun x => x.1 ≠ peerId⟩

/-- The pipeline after the calls, as constructed before them. -/
def journal (calls : List (PipelineCall Payload)) : Journal := calls.foldl Journal.step Journal.init

/-- No sequence accepted from a peer is above its guard's last one. -/
def Journal.Sound (j : Journal) : Prop := ∀ x ∈ j.accepted, x.2 ≤ lastOf j.guards x.1

theorem Journal.Sound.step {j : Journal} (h : j.Sound) (c : PipelineCall Payload) : (j.step c).Sound := by
  intro x hx
  cases c with
  | processMessage d =>
    rcases List.mem_append.mp hx with hx | hx
    · have hgrows : lastOf j.guards x.1 ≤ lastOf (processMessage d.callbacks j.guards d.call).2 x.1 := process_last_le _ _ _
      rw [← deliver_guards] at hgrows
      exact (h x hx).trans hgrows
    · exact (reached_above hx).2.2.ge
  | clearReplayState peerId =>
    obtain ⟨hx, hne⟩ := List.mem_filter.mp hx
    have hother : lastOf (clearReplayState j.guards peerId) x.1 = lastOf j.guards x.1 := by
      simp only [lastOf, guardOf, clearReplayState, Function.update_of_ne (of_decide_eq_true hne)]
    exact (h x hx).trans hother.ge

theorem journal_sound (calls : List (PipelineCall Payload)) : (journal calls).Sound := by
  induction calls using List.reverseRecOn with
  | nil => exact fun _ hx => nomatch hx
  | append_singleton calls c ih =>
    rw [journal, List.foldl_concat]
    exact ih.step c

/-! ## Mediation -/

/-- The calls of `dispatch_handler` that a call of `process_message` makes. -/
def handlerCalls (d : Delivery Payload) : Ending → List (String × Payload)
  | .rejected _ => []
  | .returned | .raised _ => [(d.call.peerId, d.call.payload)]

/-- All that the stages stand for. -/
structure Vetted (j : Journal) (d : Delivery Payload) : Prop where
  version : d.call.protocolVersion ∈ supportedVersions
  timely : ∃ q, d.call.timestamp = .finite q ∧ (d.call.nowStamp - q).abs ≤ maxMessageAge
  signed : d.callbacks.verifySignature d.call.peerId d.call.payload d.call.signature = true
  unrevoked : d.callbacks.checkRevocation d.call.peerId = false
  enrolled : d.callbacks.checkEnrollment d.call.peerId = true
  inRate : (guardOf j.guards d.call.peerId).rateOk d.call.nowRate = true
  newer : ∀ q, d.call.sequence = some q → ∀ x ∈ j.accepted, x.1 = d.call.peerId → x.2 < q

/-- The handler is called only with a vetted message, and then once. -/
def Mediates (j : Journal) (d : Delivery Payload) : Prop :=
  handlerCalls d (deliver j.guards d).1 = [] ∨
    handlerCalls d (deliver j.guards d).1 = [(d.call.peerId, d.call.payload)] ∧ Vetted j d

/-- Every stage but the second lets the message through. -/
structure PassesOthers (gs : Guards) (d : Delivery Payload) : Prop where
  version : d.call.protocolVersion ∈ supportedVersions
  signed : d.callbacks.verifySignature d.call.peerId d.call.payload d.call.signature = true
  unrevoked : d.callbacks.checkRevocation d.call.peerId = false
  enrolled : d.callbacks.checkEnrollment d.call.peerId = true
  inRate : (guardOf gs d.call.peerId).rateOk d.call.nowRate = true
  fresh : (guardOf gs d.call.peerId).fresh d.call.sequence = true

/-! ## What each stage lets through -/

section

variable {ε : Type}

theorem isOk_andThen (x y : Except ε Unit) : (x >>= fun _ => y).isOk = (x.isOk && y.isOk) := by
  cases x <;> rfl

theorem isOk_refuse (p : Prop) [Decidable p] (e : ε) : (if p then Except.error e else .ok ()).isOk = !decide p := by
  by_cases h : p
  · rw [if_pos h, decide_eq_true h]
    rfl
  · rw [if_neg h, decide_eq_false h]
    rfl

end

theorem passes_iff (cb : Callbacks Payload) (c : Call Payload) : passes cb c = true ↔
    c.protocolVersion ∈ supportedVersions ∧ (c.timestamp.age c.nowStamp).exceeds maxMessageAge = false ∧
      cb.verifySignature c.peerId c.payload c.signature = true ∧ cb.checkRevocation c.peerId = false ∧
        cb.checkEnrollment c.peerId = true := by
  have hstages : passes cb c = ((validateProtocolVersion c.peerId c.protocolVersion).isOk &&
      ((validateTimestamp c.peerId c.timestamp c.nowStamp).isOk &&
        ((verifyEd25519Signature cb c.peerId c.signature c.payload).isOk &&
          ((checkRevoked cb c.peerId).isOk && (checkEnrollment cb c.peerId).isOk)))) := by
    simp only [passes, identityChecks, isOk_andThen]
  simp only [hstages, Bool.and_eq_true, validateProtocolVersion, validateTimestamp, verifyEd25519Signature, checkRevoked,
    checkEnrollment, isOk_refuse, Bool.not_eq_true', decide_eq_false_iff_not, not_not, Bool.not_eq_true]
  simp

/-- A NaN passes for a recent timestamp. -/
theorem timely_iff (timestamp : Stamp) (now : Rat) : (timestamp.age now).exceeds maxMessageAge = false ↔
    timestamp = .nan ∨ ∃ q, timestamp = .finite q ∧ (now - q).abs ≤ maxMessageAge := by
  cases timestamp with
  | finite q =>
    simp only [Stamp.age, Stamp.exceeds, decide_eq_false_iff_not, not_lt, reduceCtorEq, false_or, Stamp.finite.injEq]
    constructor
    · intro h
      exact ⟨q, rfl, h⟩
    · intro h
      obtain ⟨q', rfl, h⟩ := h
      exact h
  | nan => simp [Stamp.age, Stamp.exceeds]
  | inf negative => simp [Stamp.age, Stamp.exceeds]

theorem handlerCalls_deliver (gs : Guards) (d : Delivery Payload) : handlerCalls d (deliver gs d).1 =
    if (processMessage d.callbacks gs d.call).1 = .dispatched then [(d.call.peerId, d.call.payload)] else [] := by
  unfold deliver
  split
  · rename_i h
    rw [h]
    rfl
  · rename_i h
    rw [h, if_pos rfl]
    cases d.dispatchHandler d.call.peerId d.call.payload <;> rfl

theorem dispatched_iff (gs : Guards) (d : Delivery Payload) : (processMessage d.callbacks gs d.call).1 = .dispatched ↔
    PassesOthers gs d ∧ (d.call.timestamp = .nan ∨
      ∃ q, d.call.timestamp = .finite q ∧ (d.call.nowStamp - q).abs ≤ maxMessageAge) := by
  rw [← timely_iff]
  constructor
  · intro h
    have hpasses := (process_dispatched h).1
    obtain ⟨hrate, hfresh⟩ := (process_dispatched_iff hpasses).mp h
    obtain ⟨hversion, hage, hverify, hrevoked, henrolled⟩ := (passes_iff d.callbacks d.call).mp hpasses
    exact ⟨⟨hversion, hverify, hrevoked, henrolled, hrate, hfresh⟩, hage⟩
  · intro h
    obtain ⟨hp, hage⟩ := h
    have hpasses := (passes_iff d.callbacks d.call).mpr ⟨hp.version, hage, hp.signed, hp.unrevoked, hp.enrolled⟩
    exact (process_dispatched_iff hpasses).mpr ⟨hp.inRate, hp.fresh⟩

/-- A fresh sequence is above all that were accepted. -/
theorem PassesOthers.vetted {j : Journal} {d : Delivery Payload} (hj : j.Sound) (h : PassesOthers j.guards d) {q : Rat}
    (hq : d.call.timestamp = .finite q) (hage : (d.call.nowStamp - q).abs ≤ maxMessageAge) : Vetted j d := by
  refine ⟨h.version, ⟨q, hq, hage⟩, h.signed, h.unrevoked, h.enrolled, h.inRate, ?_⟩
  intro sequence hs x hx hpeer
  have hfresh := h.fresh
  rw [hs] at hfresh
  have habove := (checkSequence_accepted hfresh).1
  rw [← hpeer] at habove
  exact lt_of_le_of_lt (hj x hx) habove

/-- In every state and for every message: the handler is called only with a vetted message, and then once, exactly if
    the timestamp is not NaN or another stage refuses the message. -/
theorem mediates_iff (past : List (PipelineCall Payload)) (d : Delivery Payload) :
    Mediates (journal past) d ↔ (d.call.timestamp = .nan → ¬PassesOthers (journal past).guards d) := by
  rw [Mediates, handlerCalls_deliver]
  constructor
  · intro h hnan hpasses
    rw [if_pos ((dispatched_iff _ d).mpr ⟨hpasses, .inl hnan⟩)] at h
    rcases h with h | ⟨-, h⟩
    · cases h
    · obtain ⟨q, hq, -⟩ := h.timely
      rw [hnan] at hq
      cases hq
  · intro h
    by_cases hd : (processMessage d.callbacks (journal past).guards d.call).1 = .dispatched
    · rw [if_pos hd]
      obtain ⟨hpasses, hnan | ⟨q, hq, hage⟩⟩ := (dispatched_iff _ d).mp hd
      · exact absurd hpasses (h hnan)
      · exact .inr ⟨rfl, hpasses.vetted (journal_sound past) hq hage⟩
    · rw [if_neg hd]
      exact .inl rfl

/-- A message from an enrolled peer whose timestamp is NaN is dispatched. -/
theorem nan_dispatched : ¬∀ (past : List (PipelineCall String)) (d : Delivery String), Mediates (journal past) d := by
  intro h
  have hnan := h [] ⟨⟨fun _ _ _ => true, fun _ => false, fun _ => true⟩, ⟨"alice", 1, .nan, "sig", "ping", none, 1000, 1000⟩,
    fun _ _ => none⟩
  exact (mediates_iff _ _).mp hnan rfl ⟨by decide, rfl, rfl, rfl, by decide +kernel, rfl⟩

end PyxelVM.Auth
