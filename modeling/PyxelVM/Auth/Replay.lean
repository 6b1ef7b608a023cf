/-
  PyxelVM.Auth.Replay — what a captured message can do when it is sent again.

  Signatures are ideal: `ideal sent` accepts exactly the triples (peer, payload,
  signature) some message of `sent` carries, each made by that peer's own
  `sign_message`. The signature covers the payload and nothing else, so the network
  may write any timestamp, sequence (also none) and version around a captured
  payload.

  `ReplaySafe`: no combination (peer, timestamp, sequence, payload) is dispatched more
  often than its peer sent it.

  - `replayed_without_sequence`: it fails. A captured message is sent again with its
    sequence left out, and both copies are dispatched.
  - `replay_safe`: it holds of every trace whose live messages have the fields their
    peer gave them, and in which a message without a sequence comes no more often
    than it was sent. A sequence is dispatched at most once, because the guard's last
    sequence only grows (`count_dispatches`).
-/

import PyxelVM.Auth.Pipeline

namespace PyxelVM.Auth

open Function (update)
open PyxelVM.Lib.Trace

variable {Payload : Type}

/-! ## Sent messages and ideal signatures -/

/-- The combination a message is known by. -/
structure Message (Payload : Type) where
  peerId : String
  timestamp : Stamp
  sequence : Option Int
  payload : Payload
  deriving DecidableEq

/-- A message its peer sent, with the signature `sign_message` gave for its payload. -/
structure Sent (Payload : Type) extends Message Payload where
  signature : String
  deriving DecidableEq

def Call.message (c : Call Payload) : Message Payload := ⟨c.peerId, c.timestamp, c.sequence, c.payload⟩

/-- The call with its signature, the fields the network may rewrite included. -/
def Call.delivered (c : Call Payload) : Sent Payload := ⟨c.message, c.signature⟩

/-- Nobody but the peer makes its signatures. -/
def idealVerify [DecidableEq Payload] (sent : List (Sent Payload)) (peerId : String) (payload : Payload) (signature : String) : Bool :=
  sent.any fun m => m.peerId == peerId && m.payload == payload && m.signature == signature

def ideal [DecidableEq Payload] (sent : List (Sent Payload)) (revoked enrolled : String → Bool) : Callbacks Payload :=
  ⟨idealVerify sent, revoked, enrolled⟩

/-- The combinations a trace dispatches, in order. -/
def dispatches (cb : Callbacks Payload) (gs : Guards) (calls : List (Call Payload)) : List (Message Payload) :=
  seen (processMessage cb) (fun c v => if v = .dispatched then [c.message] else []) gs calls

/-- The clock never goes back, neither inside a call nor from call to call. -/
def ClockOk (calls : List (Call Payload)) : Prop :=
  (calls.flatMap fun c => [c.nowStamp, c.nowRate]).Pairwise (· ≤ ·)

instance (calls : List (Call Payload)) : Decidable (ClockOk calls) := inferInstanceAs (Decidable (List.Pairwise _ _))

/-- No combination is dispatched more often than its peer sent it: each sent message
    at most once, and nothing its peer did not send. -/
def ReplaySafe [DecidableEq Payload] (sent : List (Sent Payload)) (dispatched : List (Message Payload)) : Prop :=
  ∀ m, dispatched.count m ≤ (sent.map (·.toMessage)).count m

/-! ## The guard -/

variable {cb : Callbacks Payload} {gs hs : Guards} {c : Call Payload}

/-- `check_and_update_rate_limit`'s answer. -/
def ReplayGuardState.rateOk (g : ReplayGuardState) (now : Rat) : Bool := (g.checkAndUpdateRateLimit now).1

/-- `check_sequence`'s answer, asked only of a message with a sequence. -/
def ReplayGuardState.fresh (g : ReplayGuardState) : Option Int → Bool
  | none => true
  | some sequence => (g.checkSequence sequence).1

@[simp] theorem rate_lastSequence (g : ReplayGuardState) (now : Rat) :
    (g.checkAndUpdateRateLimit now).2.lastSequence = g.lastSequence := by
  simp only [ReplayGuardState.checkAndUpdateRateLimit]; split <;> rfl

@[simp] theorem rate_seenSequences (g : ReplayGuardState) (now : Rat) :
    (g.checkAndUpdateRateLimit now).2.seenSequences = g.seenSequences := by
  simp only [ReplayGuardState.checkAndUpdateRateLimit]; split <;> rfl

theorem checkSequence_refused {g : ReplayGuardState} {q : Int} (h : (g.checkSequence q).1 = false) :
    (g.checkSequence q).2 = g := by
  unfold ReplayGuardState.checkSequence at h ⊢
  split
  · rfl
  · split
    · rfl
    · simp_all

/-- An accepted sequence is above the last one, and becomes the last one. -/
theorem checkSequence_accepted {g : ReplayGuardState} {q : Int} (h : (g.checkSequence q).1 = true) :
    g.lastSequence < q ∧ (g.checkSequence q).2.lastSequence = q := by
  unfold ReplayGuardState.checkSequence at h ⊢
  split at h
  · cases h
  · rename_i hq
    split at h
    · cases h
    · rename_i hs
      simp only [hq, hs, if_false]
      exact ⟨by omega, trivial⟩

/-- The sequence half of a guard decides `check_sequence` and what it leaves. -/
theorem checkSequence_congr {g h : ReplayGuardState} (hl : g.lastSequence = h.lastSequence)
    (hs : g.seenSequences = h.seenSequences) (q : Int) :
    (g.checkSequence q).1 = (h.checkSequence q).1 ∧
      (g.checkSequence q).2.lastSequence = (h.checkSequence q).2.lastSequence ∧
      (g.checkSequence q).2.seenSequences = (h.checkSequence q).2.seenSequences := by
  unfold ReplayGuardState.checkSequence
  rw [hl, hs]
  split
  · exact ⟨rfl, hl, hs⟩
  · split
    · exact ⟨rfl, hl, hs⟩
    · exact ⟨rfl, rfl, rfl⟩

/-- The half of a guard that `check_sequence` reads and writes. -/
def SameSequences (g h : ReplayGuardState) : Prop :=
  g.lastSequence = h.lastSequence ∧ g.seenSequences = h.seenSequences

/-- The guard `check_sequence` leaves a dispatched message. -/
def ReplayGuardState.afterSequence (g : ReplayGuardState) : Option Int → ReplayGuardState
  | none => g
  | some sequence => (g.checkSequence sequence).2

theorem SameSequences.fresh {g h : ReplayGuardState} (e : SameSequences g h) (s : Option Int) : g.fresh s = h.fresh s := by
  cases s with
  | none => rfl
  | some q => exact (checkSequence_congr e.1 e.2 q).1

theorem SameSequences.afterSequence {g h : ReplayGuardState} (e : SameSequences g h) (s : Option Int) :
    SameSequences (g.afterSequence s) (h.afterSequence s) := by
  cases s with
  | none => exact e
  | some q => exact (checkSequence_congr e.1 e.2 q).2

/-- Refused for its sequence, at the replay_protection stage. -/
def staleReject : Verdict → Bool
  | .rejected e => e.stage == .replayProtection
  | .dispatched => false

/-- Stage 6 by its two answers: over the rate; within it with a stale sequence; or
    dispatched. Only the last moves the sequences. -/
theorem answer_cases (g : ReplayGuardState) (c : Call Payload) :
    (g.rateOk c.nowRate = false ∧ (g.answer c).1 ≠ .dispatched ∧ staleReject (g.answer c).1 = false ∧
      SameSequences (g.answer c).2 g) ∨
    (g.rateOk c.nowRate = true ∧ g.fresh c.sequence = false ∧ (g.answer c).1 ≠ .dispatched ∧
      staleReject (g.answer c).1 = true ∧ SameSequences (g.answer c).2 g) ∨
    (g.rateOk c.nowRate = true ∧ g.fresh c.sequence = true ∧ (g.answer c).1 = .dispatched ∧
      SameSequences (g.answer c).2 (g.afterSequence c.sequence)) := by
  have hr : ({ g with peerId := c.peerId } : ReplayGuardState).rateOk c.nowRate = g.rateOk c.nowRate := by
    simp only [ReplayGuardState.rateOk, ReplayGuardState.checkAndUpdateRateLimit]
    split <;> rfl
  have hseq : SameSequences { ({ g with peerId := c.peerId } : ReplayGuardState).checkAndUpdateRateLimit c.nowRate |>.2
      with peerId := c.peerId } g := ⟨by simp, by simp⟩
  cases hrate : g.rateOk c.nowRate with
  | false =>
    rw [hrate, ReplayGuardState.rateOk] at hr
    left
    simp only [ReplayGuardState.answer, hr]
    exact ⟨trivial, by simp, rfl, by simp, by simp⟩
  | true =>
    rw [hrate, ReplayGuardState.rateOk] at hr
    right
    cases hs : c.sequence with
    | none =>
      right
      simp only [ReplayGuardState.answer, hr, hs]
      exact ⟨trivial, rfl, by simp, by simp [ReplayGuardState.afterSequence], by simp [ReplayGuardState.afterSequence]⟩
    | some q =>
      obtain ⟨h1, h2⟩ := checkSequence_congr hseq.1 hseq.2 q
      cases hq : (g.checkSequence q).1 with
      | false =>
        left
        have hk := checkSequence_refused hq
        rw [hk] at h2
        rw [hq] at h1
        simp only [ReplayGuardState.answer, hr, hs, h1]
        exact ⟨trivial, hq, by simp, rfl, h2⟩
      | true =>
        right
        rw [hq] at h1
        simp only [ReplayGuardState.answer, hr, hs, h1]
        exact ⟨trivial, hq, by simp, h2⟩

/-! ## Replay safety -/

/-- The last sequence accepted from a peer. -/
def lastOf (gs : Guards) (p : String) : Int := (guardOf gs p).lastSequence

theorem guardOf_process (gs : Guards) (c : Call Payload) (p : String) :
    guardOf (processMessage cb gs c).2 p =
      if passes cb c = true ∧ c.peerId = p then ((guardOf gs p).answer c).2 else guardOf gs p := by
  cases hp : passes cb c with
  | false => obtain ⟨e, he, -⟩ := process_fail gs hp; simp [he]
  | true =>
    rw [process_live hp]
    by_cases h : c.peerId = p
    · subst h; simp
    · simp [guardOf, h, Function.update_of_ne (Ne.symm h)]

/-- A dispatched message passed stages 1 to 5, and its sequence, if it has one, is above
    the last one accepted and becomes the last one. -/
theorem process_dispatched (h : (processMessage cb gs c).1 = .dispatched) :
    passes cb c = true ∧ ∀ q, c.sequence = some q →
      lastOf gs c.peerId < q ∧ lastOf (processMessage cb gs c).2 c.peerId = q := by
  cases hp : passes cb c with
  | false => obtain ⟨e, he, -⟩ := process_fail gs hp; rw [he] at h; cases h
  | true =>
    refine ⟨rfl, ?_⟩
    intro q hq
    rw [process_live hp] at h
    simp only [lastOf, guardOf_process, hp, true_and, if_true]
    rcases answer_cases (guardOf gs c.peerId) c with ⟨-, hn, -⟩ | ⟨-, -, hn, -⟩ | ⟨-, hf, -, hs⟩
    · exact absurd h hn
    · exact absurd h hn
    · rw [hq] at hf hs
      have := checkSequence_accepted hf
      exact ⟨this.1, hs.1.trans this.2⟩

theorem process_last_le (gs : Guards) (c : Call Payload) (p : String) :
    lastOf gs p ≤ lastOf (processMessage cb gs c).2 p := by
  simp only [lastOf, guardOf_process]
  split
  · rcases answer_cases (guardOf gs p) c with ⟨-, -, -, hs⟩ | ⟨-, -, -, -, hs⟩ | ⟨-, hf, -, hs⟩
    · exact hs.1.ge
    · exact hs.1.ge
    · rw [hs.1]
      cases hq : c.sequence with
      | none => exact le_refl _
      | some q =>
        rw [hq] at hf
        have h := checkSequence_accepted hf
        exact le_of_lt (h.1.trans_eq h.2.symm)
  · exact le_refl _

theorem dispatches_cons (gs : Guards) (c : Call Payload) (cs : List (Call Payload)) :
    dispatches cb gs (c :: cs) = (if (processMessage cb gs c).1 = .dispatched then [c.message] else []) ++
      dispatches cb (processMessage cb gs c).2 cs := seen_cons gs c cs

/-- What is dispatched is among what passes stages 1 to 5, in order. -/
theorem dispatches_sublist (cb : Callbacks Payload) (gs : Guards) (calls : List (Call Payload)) :
    (dispatches cb gs calls).Sublist ((calls.filter (passes cb)).map Call.message) := by
  induction calls generalizing gs with
  | nil => exact List.Sublist.slnil
  | cons c cs ih =>
    rw [dispatches_cons]
    by_cases hd : (processMessage cb gs c).1 = .dispatched
    · rw [if_pos hd, List.filter_cons_of_pos (process_dispatched hd).1]
      exact (ih _).cons_cons _
    · rw [if_neg hd, List.nil_append]
      refine (ih _).trans (List.Sublist.map _ ?_)
      exact (List.sublist_cons_self c cs).filter _

/-- A sequence at or below a peer's last one is never dispatched for it again. -/
theorem count_dispatches_old [DecidableEq Payload] {m : Message Payload} {q : Int} (hm : m.sequence = some q)
    (calls : List (Call Payload)) (gs : Guards) (h : q ≤ lastOf gs m.peerId) :
    (dispatches cb gs calls).count m = 0 := by
  induction calls generalizing gs with
  | nil => rfl
  | cons c cs ih =>
    rw [dispatches_cons, List.count_append, ih _ (h.trans (process_last_le gs c _)), Nat.add_zero]
    split
    · rename_i hd
      apply List.count_eq_zero.mpr
      intro hmem
      obtain rfl := List.mem_singleton.mp hmem
      have hq : q ≤ lastOf gs c.peerId := h
      have := ((process_dispatched hd).2 q hm).1
      omega
    · rfl

/-- A combination with a sequence is dispatched at most once. -/
theorem count_dispatches [DecidableEq Payload] (cb : Callbacks Payload) {m : Message Payload} {q : Int}
    (hm : m.sequence = some q) (calls : List (Call Payload)) (gs : Guards) : (dispatches cb gs calls).count m ≤ 1 := by
  induction calls generalizing gs with
  | nil => exact Nat.zero_le _
  | cons c cs ih =>
    rw [dispatches_cons, List.count_append]
    split
    · rename_i hd
      by_cases e : c.message = m
      · subst e
        have hl := ((process_dispatched hd).2 q hm).2
        rw [count_dispatches_old (m := c.message) hm cs _ (le_of_eq hl.symm)]
        simp
      · rw [List.count_singleton]
        have := ih (processMessage cb gs c).2
        simp only [beq_iff_eq, e, if_false]
        omega
    · simpa using ih _

/-- Every live message has the fields its peer gave it, and one without a sequence comes
    no more often than it was sent. -/
structure Unaltered [DecidableEq Payload] (cb : Callbacks Payload) (sent : List (Sent Payload))
    (calls : List (Call Payload)) : Prop where
  asSent : ∀ c ∈ calls, passes cb c = true → c.delivered ∈ sent
  unsequenced : ∀ m : Message Payload, m.sequence = none →
    ((calls.filter (passes cb)).map Call.message).count m ≤ (sent.map (·.toMessage)).count m

/-- A trace the network has not altered is replay safe, in whatever order and however
    often its sequenced messages come. -/
theorem replay_safe [DecidableEq Payload] (sent : List (Sent Payload)) (revoked enrolled : String → Bool) (gs : Guards)
    (calls : List (Call Payload)) (h : Unaltered (ideal sent revoked enrolled) sent calls) :
    ReplaySafe sent (dispatches (ideal sent revoked enrolled) gs calls) := by
  intro m
  have hsub := dispatches_sublist (ideal sent revoked enrolled) gs calls
  cases hm : m.sequence with
  | none => exact (hsub.count_le m).trans (h.unsequenced m hm)
  | some q =>
    rcases Nat.eq_zero_or_pos ((dispatches (ideal sent revoked enrolled) gs calls).count m) with h0 | hpos
    · omega
    · have hmem := hsub.subset (List.count_pos_iff.mp hpos)
      obtain ⟨c, hc, rfl⟩ := List.mem_map.mp hmem
      obtain ⟨hc, hp⟩ := List.mem_filter.mp hc
      have hs : c.message ∈ sent.map (·.toMessage) := List.mem_map.mpr ⟨c.delivered, h.asSent c hc hp, rfl⟩
      have := List.count_pos_iff.mpr hs
      have := count_dispatches (ideal sent revoked enrolled) hm calls gs
      omega

/-- One captured message. -/
def captured : Sent String := ⟨⟨"alice", .finite 1000, some 1, "pay bob 5"⟩, "sig(pay bob 5)"⟩

/-- The captured message, as it was sent or with another sequence, at the clock `now`. -/
def resend (sequence : Option Int) (now : Rat) : Call String :=
  ⟨captured.peerId, 1, captured.timestamp, captured.signature, captured.payload, sequence, now, now⟩

/-- Two live messages and a repeat of the first, none altered. -/
theorem replay_safe_repeated :
    ReplaySafe [captured, { captured with sequence := some 2 }]
      (dispatches (ideal [captured, { captured with sequence := some 2 }] (fun _ => false) (fun _ => true)) Guards.init
        [resend (some 1) 1000, resend (some 1) 1001, resend (some 2) 1002]) :=
  replay_safe _ _ _ _ _
    { asSent := by decide +kernel
      unsequenced := fun m hm => by
        have h : ∀ x ∈ ([resend (some 1) 1000, resend (some 1) 1001, resend (some 2) 1002].filter
            (passes (ideal [captured, { captured with sequence := some 2 }] (fun _ => false) (fun _ => true)))).map
            Call.message, x.sequence ≠ none := by decide +kernel
        rw [List.count_eq_zero.mpr fun hmem => h m hmem hm]
        exact Nat.zero_le _ }

/-- A captured message is dispatched as it was sent, and again with its sequence left out. -/
theorem replayed_without_sequence :
    ¬ ∀ (sent : List (Sent String)) (revoked enrolled : String → Bool) (calls : List (Call String)), ClockOk calls →
      ReplaySafe sent (dispatches (ideal sent revoked enrolled) Guards.init calls) := by
  intro h
  have hsafe := h [captured] (fun _ => false) (fun _ => true) [resend (some 1) 1000, resend none 1001] (by decide +kernel)
  exact absurd (hsafe (resend none 1001).message) (by decide +kernel)

end PyxelVM.Auth
