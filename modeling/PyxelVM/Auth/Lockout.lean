/-
  PyxelVM.Auth.Lockout — replays and the rate limiter.

  A message refused for its stale sequence has already been counted by the rate
  limiter. `LockoutFree`: erasing the messages refused at the replay_protection stage
  changes the fate of no other message.

  - `replays_lock_out`: it fails. Copies of one delivered message, unaltered, spend
    their peer's whole window, and its next message is refused.
  - `lockout_free_of_spared`: it holds, from every reachable state and at every clock that
    does not go back, of the traces in which each live message of a peer either comes
    before any of it repeats a sequence, or is within the rate, replays counted (`Spared`).

  Two runs that dispatch alike agree on every peer's sequences, so nothing but the rate
  limiter can part them (`lockout_free_from`). A peer of which nothing was erased has the
  same guard in both (`Together`); and each guard's count is bounded by what the trace
  shows of its peer since its window began (`Counted`).
-/

import Mathlib.Tactic.Linarith
import PyxelVM.Auth.Replay

namespace PyxelVM.Auth

open PyxelVM.Lib.Trace

variable {Payload : Type} {cb : Callbacks Payload} {gs hs : Guards} {c : Call Payload}

/-! ## The criterion -/

/-- The fate of every remaining message: the message, and whether it was dispatched. -/
def fates (rs : List (Call Payload × Verdict)) : List (Call Payload × Bool) :=
  rs.map fun r => (r.1, r.2 == .dispatched)

/-- The messages of a trace that are not refused for their sequence. -/
def withoutStale (cb : Callbacks Payload) (gs : Guards) (calls : List (Call Payload)) : List (Call Payload) :=
  kept (processMessage cb) (fun _ v => !staleReject v) gs calls

/-- Erasing the messages refused at the replay_protection stage changes the fate of no
    other. -/
def LockoutFree (cb : Callbacks Payload) (gs : Guards) (calls : List (Call Payload)) : Prop :=
  fates ((log (processMessage cb) gs calls).filter fun r => !staleReject r.2) =
    fates (log (processMessage cb) gs (withoutStale cb gs calls))

/-- The rate limiter answers a message with a fresh sequence alike from the guards of
    both runs: the whole trace's `gs`, and `hs` of the trace without the stale ones. -/
def SameRate (cb : Callbacks Payload) (gs hs : Guards) (c : Call Payload) : Prop :=
  passes cb c = true → (guardOf gs c.peerId).fresh c.sequence = true →
    (guardOf gs c.peerId).rateOk c.nowRate = (guardOf hs c.peerId).rateOk c.nowRate

/-- Along a trace from `gs`, and the trace without the stale messages from `hs`, every
    remaining message gets the same answer of the rate limiter. -/
def RateUnmoved (cb : Callbacks Payload) : Guards → Guards → List (Call Payload) → Prop
  | _, _, [] => True
  | gs, hs, c :: cs =>
    let r := processMessage cb gs c
    if staleReject r.1 then RateUnmoved cb r.2 hs cs
    else SameRate cb gs hs c ∧ RateUnmoved cb r.2 (processMessage cb hs c).2 cs

theorem dispatched_beq {v w : Verdict} : (v == .dispatched) = (w == .dispatched) ↔ (v = .dispatched ↔ w = .dispatched) := by
  rw [Bool.eq_iff_iff, beq_iff_eq, beq_iff_eq]

/-- Every peer's guards agree on its sequences. -/
def AgreeOnSequences (gs hs : Guards) : Prop := ∀ p, SameSequences (guardOf gs p) (guardOf hs p)

theorem SameSequences.trans {g h k : ReplayGuardState} (a : SameSequences g h) (b : SameSequences h k) : SameSequences g k :=
  ⟨a.1.trans b.1, a.2.trans b.2⟩

theorem SameSequences.symm {g h : ReplayGuardState} (a : SameSequences g h) : SameSequences h g := ⟨a.1.symm, a.2.symm⟩

theorem process_dispatched_iff (hp : passes cb c = true) :
    (processMessage cb gs c).1 = .dispatched ↔
      (guardOf gs c.peerId).rateOk c.nowRate = true ∧ (guardOf gs c.peerId).fresh c.sequence = true := by
  rw [process_live hp]
  rcases answer_cases (guardOf gs c.peerId) c with ⟨h, hn, -⟩ | ⟨-, h, hn, -⟩ | ⟨h, h', hd, -⟩
  · simp [h, hn]
  · simp [h, hn]
  · simp [h, h', hd]

theorem process_stale_iff (hp : passes cb c = true) :
    staleReject (processMessage cb gs c).1 = true ↔
      (guardOf gs c.peerId).rateOk c.nowRate = true ∧ (guardOf gs c.peerId).fresh c.sequence = false := by
  rw [process_live hp]
  rcases answer_cases (guardOf gs c.peerId) c with ⟨h, -, hn, -⟩ | ⟨h, h', -, hs, -⟩ | ⟨h, h', hd, -⟩
  · simp [h, hn]
  · simp [h, h', hs]
  · simp [h, h', hd, staleReject]

/-- A message refused for its sequence leaves every peer's sequences as they were. -/
theorem stale_keeps_sequences (h : staleReject (processMessage cb gs c).1 = true) :
    AgreeOnSequences (processMessage cb gs c).2 gs := by
  intro p
  rw [guardOf_process]
  split
  · rename_i hc
    obtain ⟨hp, rfl⟩ := hc
    obtain ⟨hr, hf⟩ := (process_stale_iff hp).mp h
    rcases answer_cases (guardOf gs c.peerId) c with ⟨h', -⟩ | ⟨-, -, -, -, hs⟩ | ⟨-, h', -⟩
    · rw [hr] at h'; cases h'
    · exact hs
    · rw [hf] at h'; cases h'
  · exact ⟨rfl, rfl⟩

/-- Two runs that agree on the sequences, and on whether a message is dispatched, agree
    on the sequences after it. -/
theorem process_keeps_agreement (ha : AgreeOnSequences gs hs)
    (hd : (processMessage cb gs c).1 = .dispatched ↔ (processMessage cb hs c).1 = .dispatched) :
    AgreeOnSequences (processMessage cb gs c).2 (processMessage cb hs c).2 := by
  intro p
  rw [guardOf_process, guardOf_process]
  split
  · rename_i hc
    obtain ⟨hp, rfl⟩ := hc
    rw [process_live hp, process_live hp] at hd
    have hb := ha c.peerId
    rcases answer_cases (guardOf gs c.peerId) c with ⟨-, hn, -, e⟩ | ⟨-, -, hn, -, e⟩ | ⟨-, -, hn, e⟩ <;>
    rcases answer_cases (guardOf hs c.peerId) c with ⟨-, hn', -, e'⟩ | ⟨-, -, hn', -, e'⟩ | ⟨-, -, hn', e'⟩
    all_goals first
      | exact absurd (hd.mp hn) hn'
      | exact absurd (hd.mpr hn') hn
      | exact e.trans (hb.trans e'.symm)
      | exact e.trans ((hb.afterSequence _).trans e'.symm)
  · exact ha p

/-- The two runs treat a message that is not refused for its sequence alike exactly when
    the rate limiter does. -/
theorem same_fate_iff (ha : AgreeOnSequences gs hs) (hk : staleReject (processMessage cb gs c).1 = false) :
    ((processMessage cb gs c).1 = .dispatched ↔ (processMessage cb hs c).1 = .dispatched) ↔ SameRate cb gs hs c := by
  unfold SameRate
  cases hp : passes cb c with
  | false =>
    obtain ⟨e, he, -⟩ := process_fail gs hp
    obtain ⟨e', he', -⟩ := process_fail hs hp
    simp [he, he']
  | true =>
    have hst : ¬ ((guardOf gs c.peerId).rateOk c.nowRate = true ∧ (guardOf gs c.peerId).fresh c.sequence = false) := by
      rw [← process_stale_iff hp, hk]; simp
    rw [process_dispatched_iff hp, process_dispatched_iff hp, ← (ha c.peerId).fresh c.sequence]
    cases hf : (guardOf gs c.peerId).fresh c.sequence with
    | false => simp
    | true => simp only [and_true, true_implies, Bool.eq_iff_iff (b := (guardOf hs c.peerId).rateOk c.nowRate)]

theorem lockout_free_from (cb : Callbacks Payload) (calls : List (Call Payload)) {gs hs : Guards}
    (ha : AgreeOnSequences gs hs) :
    fates ((log (processMessage cb) gs calls).filter fun r => !staleReject r.2) =
      fates (log (processMessage cb) hs (withoutStale cb gs calls)) ↔ RateUnmoved cb gs hs calls := by
  induction calls generalizing gs hs with
  | nil => simp [RateUnmoved, withoutStale, fates]
  | cons c cs ih =>
    cases hk : staleReject (processMessage cb gs c).1 with
    | true =>
      have hb : AgreeOnSequences (processMessage cb gs c).2 hs := fun p => (stale_keeps_sequences hk p).trans (ha p)
      simpa [RateUnmoved, withoutStale, kept_cons, hk] using ih hb
    | false =>
      have hfate := same_fate_iff ha hk
      have hhead : fates ((log (processMessage cb) gs (c :: cs)).filter fun r => !staleReject r.2) =
          fates (log (processMessage cb) hs (withoutStale cb gs (c :: cs))) ↔
          ((processMessage cb gs c).1 = .dispatched ↔ (processMessage cb hs c).1 = .dispatched) ∧
          fates ((log (processMessage cb) (processMessage cb gs c).2 cs).filter fun r => !staleReject r.2) =
          fates (log (processMessage cb) (processMessage cb hs c).2 (withoutStale cb (processMessage cb gs c).2 cs)) := by
        simp only [withoutStale, kept_cons, hk, fates, log_cons, List.filter_cons, Bool.not_false, if_true, List.map_cons,
          List.cons.injEq, Prod.mk.injEq, true_and, dispatched_beq]
      rw [hhead]
      simp only [RateUnmoved, hk, Bool.false_eq_true, if_false, ← hfate]
      exact and_congr_right fun hd => ih (process_keeps_agreement ha hd)

instance [DecidableEq Payload] (cb : Callbacks Payload) (gs : Guards) (calls : List (Call Payload)) :
    Decidable (LockoutFree cb gs calls) := inferInstanceAs (Decidable (_ = _))

/-- The rate clock's readings at `p`'s live messages. -/
def readings (cb : Callbacks Payload) (p : String) (calls : List (Call Payload)) : List Rat :=
  (calls.filter fun c => c.peerId == p && passes cb c).map (·.nowRate)

/-- A window that is open at `now` can have counted a message at `r`: it is at most one window's length ago. The window
    of a fresh guard begins with the clock's zero, so until one length after that it can have counted any. -/
def Recent (now r : Rat) : Prop := now - r ≤ rateLimitWindow ∨ now ≤ rateLimitWindow

instance (now r : Rat) : Decidable (Recent now r) := inferInstanceAs (Decidable (_ ∨ _))

/-- With `c` its peer has, in a window's length, no more live messages than the limit, replays counted. -/
def WithinRate (cb : Callbacks Payload) (earlier : List (Call Payload)) (c : Call Payload) : Prop :=
  ((readings cb c.peerId (earlier ++ [c])).countP fun r => Recent c.nowRate r) ≤ rateLimitMaxMessages

/-- The guard counts no message from before its window, which began at one of the readings `rs`; or it is the window the
    guard began with. -/
def Counted (g : ReplayGuardState) (rs : List Rat) : Prop :=
  (g.rateLimitWindowStart = 0 ∧ g.messageCount ≤ rs.length) ∨
    (g.rateLimitWindowStart ∈ rs ∧ g.messageCount ≤ rs.countP (g.rateLimitWindowStart ≤ ·))

theorem Counted.snoc {g : ReplayGuardState} {rs : List Rat} (h : Counted g rs) (t : Rat) : Counted g (rs ++ [t]) := by
  rcases h with ⟨h0, hc⟩ | ⟨hw, hc⟩
  · exact .inl ⟨h0, hc.trans (by simp)⟩
  · refine .inr ⟨List.mem_append_left _ hw, hc.trans ?_⟩
    rw [List.countP_append]
    exact Nat.le_add_right _ _

theorem Counted.of_fields {g h : ReplayGuardState} {rs : List Rat} (hg : Counted g rs)
    (hc : h.messageCount = g.messageCount) (hw : h.rateLimitWindowStart = g.rateLimitWindowStart) : Counted h rs := by
  unfold Counted; rw [hc, hw]; exact hg

theorem answer_rate_fields (g : ReplayGuardState) (c : Call Payload) :
    (g.answer c).2.messageCount = (g.checkAndUpdateRateLimit c.nowRate).2.messageCount ∧
      (g.answer c).2.rateLimitWindowStart = (g.checkAndUpdateRateLimit c.nowRate).2.rateLimitWindowStart := by
  simp only [ReplayGuardState.answer, ReplayGuardState.checkAndUpdateRateLimit, ReplayGuardState.checkSequence]
  repeat' split
  all_goals exact ⟨rfl, rfl⟩

/-- A guard that counts no more than `rs` shows counts a new message at `t`, and is
    within the limit if the window before `t` is. -/
theorem counted_rate {g : ReplayGuardState} {rs : List Rat} {t : Rat} (h : Counted g rs) (hrs : ∀ r ∈ rs, r ≤ t) :
    Counted (g.checkAndUpdateRateLimit t).2 (rs ++ [t]) ∧
      ((rs ++ [t]).countP (fun r => Recent t r) ≤ rateLimitMaxMessages → g.rateOk t = true) := by
  by_cases hnew : t - g.rateLimitWindowStart > rateLimitWindow
  · simp only [Counted, ReplayGuardState.rateOk, ReplayGuardState.checkAndUpdateRateLimit, if_pos hnew]
    refine ⟨.inr ⟨by simp, ?_⟩, fun _ => by decide⟩
    exact List.countP_pos_iff.mpr ⟨t, by simp, by simp⟩
  · have hold : t - g.rateLimitWindowStart ≤ rateLimitWindow := not_lt.mp hnew
    simp only [Counted, ReplayGuardState.rateOk, ReplayGuardState.checkAndUpdateRateLimit, if_neg hnew]
    rcases h with ⟨h0, hc⟩ | ⟨hw, hc⟩
    · have hcount : g.messageCount + 1 ≤ (rs ++ [t]).length := by simpa using hc
      -- the window began with the guard, so every reading is recent
      have hall : (rs ++ [t]).countP (fun r => Recent t r) = (rs ++ [t]).length := by
        rw [h0, sub_zero] at hold
        exact List.countP_eq_length.mpr fun r _ => decide_eq_true (.inr hold)
      exact ⟨.inl ⟨h0, hcount⟩, fun hlim => decide_eq_true (hcount.trans (hall ▸ hlim))⟩
    · have hcount : g.messageCount + 1 ≤ (rs ++ [t]).countP (g.rateLimitWindowStart ≤ ·) := by
        rw [List.countP_append]
        simpa [hrs _ hw] using hc
      refine ⟨.inr ⟨List.mem_append_left _ hw, hcount⟩, fun hlim => decide_eq_true (hcount.trans (le_trans ?_ hlim))⟩
      apply List.countP_mono_left
      intro r _ hr
      have hr' : g.rateLimitWindowStart ≤ r := by simpa using hr
      exact decide_eq_true (.inl (by linarith))

theorem readings_snoc (cb : Callbacks Payload) (p : String) (before : List (Call Payload)) (c : Call Payload) :
    readings cb p (before ++ [c]) =
      if c.peerId = p ∧ passes cb c = true then readings cb p before ++ [c.nowRate] else readings cb p before := by
  by_cases h : c.peerId = p ∧ passes cb c = true
  · rw [if_pos h]; simp [readings, List.filter_append, h.1, h.2]
  · rw [if_neg h]
    have : (c.peerId == p && passes cb c) = false := by
      simpa only [Bool.and_eq_false_iff, beq_eq_false_iff_ne, Bool.not_eq_true, not_and_or] using h
    simp [readings, List.filter_append, this]

/-- Every guard counts no more than the trace so far shows its peer. -/
def AllCounted (cb : Callbacks Payload) (gs : Guards) (earlier : List (Call Payload)) : Prop :=
  ∀ p, Counted (guardOf gs p) (readings cb p earlier)

/-- A message the run does not take is one more the trace shows. -/
theorem AllCounted.skip {earlier : List (Call Payload)} (h : AllCounted cb gs earlier) (c : Call Payload) :
    AllCounted cb gs (earlier ++ [c]) := by
  intro p
  rw [readings_snoc]
  split
  · exact (h p).snoc _
  · exact h p

theorem AllCounted.process {earlier : List (Call Payload)} (h : AllCounted cb gs earlier)
    (hle : ∀ d ∈ earlier, d.nowRate ≤ c.nowRate) : AllCounted cb (processMessage cb gs c).2 (earlier ++ [c]) := by
  intro p
  rw [guardOf_process, readings_snoc]
  by_cases hc : passes cb c = true ∧ c.peerId = p
  · rw [if_pos hc, if_pos hc.symm]
    have hf := answer_rate_fields (guardOf gs p) c
    refine (counted_rate (h p) fun r hr => ?_).1.of_fields hf.1 hf.2
    obtain ⟨d, hd, rfl⟩ := List.mem_map.mp hr
    exact hle d (List.mem_filter.mp hd).1
  · rw [if_neg hc, if_neg fun e => hc e.symm]
    exact h p

theorem AllCounted.rateOk {earlier : List (Call Payload)} (h : AllCounted cb gs earlier)
    (hle : ∀ d ∈ earlier, d.nowRate ≤ c.nowRate) (hp : passes cb c = true) (hrate : WithinRate cb earlier c) :
    (guardOf gs c.peerId).rateOk c.nowRate = true := by
  rw [WithinRate, readings_snoc, if_pos ⟨rfl, hp⟩] at hrate
  refine (counted_rate (h c.peerId) fun r hr => ?_).2 hrate
  obtain ⟨d, hd, rfl⟩ := List.mem_map.mp hr
  exact hle d (List.mem_filter.mp hd).1

/-! ### Repeated sequences -/

/-- The call's sequence is not above those of its peer's earlier live messages, and of a fresh guard. -/
def Repeats (cb : Callbacks Payload) (earlier : List (Call Payload)) (c : Call Payload) : Prop :=
  ∃ q, c.sequence = some q ∧
    (q ≤ -1 ∨ ∃ d ∈ earlier, passes cb d = true ∧ d.peerId = c.peerId ∧ ∃ r, d.sequence = some r ∧ q ≤ r)

/-- A guard's sequences are those of its peer's live messages. -/
structure Sequenced (cb : Callbacks Payload) (p : String) (g : ReplayGuardState) (earlier : List (Call Payload)) : Prop where
  seen : ∀ q ∈ g.seenSequences, q ≤ g.lastSequence
  last : g.lastSequence = -1 ∨ ∃ d ∈ earlier, passes cb d = true ∧ d.peerId = p ∧ d.sequence = some g.lastSequence

theorem Sequenced.snoc {p : String} {g h : ReplayGuardState} {earlier : List (Call Payload)} (hs : Sequenced cb p g earlier)
    (same : SameSequences h g) (c : Call Payload) : Sequenced cb p h (earlier ++ [c]) := by
  refine ⟨fun q hq => ?_, ?_⟩
  · rw [same.1]
    rw [same.2] at hq
    exact hs.seen q hq
  · rw [same.1]
    exact hs.last.imp_right fun ⟨d, hd, h⟩ => ⟨d, List.mem_append_left _ hd, h⟩

theorem Sequenced.accept {g h : ReplayGuardState} {earlier : List (Call Payload)} (hs : Sequenced cb c.peerId g earlier)
    (hp : passes cb c = true) (hf : g.fresh c.sequence = true) (same : SameSequences h (g.afterSequence c.sequence)) :
    Sequenced cb c.peerId h (earlier ++ [c]) := by
  cases hq : c.sequence with
  | none =>
    rw [hq] at same
    exact hs.snoc same c
  | some q =>
    rw [hq] at hf same
    obtain ⟨hlt, hlast⟩ := checkSequence_accepted hf
    have hl : h.lastSequence = q := same.1.trans hlast
    refine ⟨fun k hk => ?_, .inr ⟨c, by simp, hp, rfl, by rw [hl, hq]⟩⟩
    rw [hl]
    rw [same.2] at hk
    have hseen : k = q ∨ k ∈ g.seenSequences := by
      simp only [ReplayGuardState.afterSequence, ReplayGuardState.checkSequence] at hk
      repeat' split at hk
      all_goals simp at hk
      all_goals tauto
    rcases hseen with rfl | hk
    · exact le_refl _
    · exact (hs.seen k hk).trans hlt.le

theorem Sequenced.process {earlier : List (Call Payload)} (hs : ∀ p, Sequenced cb p (guardOf gs p) earlier)
    (c : Call Payload) (p : String) : Sequenced cb p (guardOf (processMessage cb gs c).2 p) (earlier ++ [c]) := by
  rw [guardOf_process]
  split
  · rename_i hc
    obtain ⟨hp, rfl⟩ := hc
    rcases answer_cases (guardOf gs c.peerId) c with ⟨-, -, -, same⟩ | ⟨-, -, -, -, same⟩ | ⟨-, hf, -, same⟩
    · exact (hs c.peerId).snoc same c
    · exact (hs c.peerId).snoc same c
    · exact (hs c.peerId).accept hp hf same
  · exact (hs p).snoc ⟨rfl, rfl⟩ c

theorem identityChecks_stage {e : AuthenticationError} (h : identityChecks cb c = .error e) : e.stage ≠ .replayProtection := by
  have hthen {f g : Except AuthenticationError Unit} (hf : f = .error e → e.stage ≠ .replayProtection)
      (hg : g = .error e → e.stage ≠ .replayProtection) (h : (f >>= fun _ => g) = .error e) : e.stage ≠ .replayProtection := by
    cases f with
    | error e' => exact hf h
    | ok u => exact hg h
  have hrefuse {b : Prop} [Decidable b] (stage : Stage) {reason peerId : String} (hs : stage ≠ .replayProtection)
      (h : (if b then .error ⟨stage, reason, peerId⟩ else .ok () : Except AuthenticationError Unit) = .error e) :
      e.stage ≠ .replayProtection := by
    split at h
    · cases h
      exact hs
    · cases h
  exact hthen (hrefuse .protocolVersion (by decide)) (hthen (hrefuse .timestamp (by decide))
    (hthen (hrefuse .signatureVerification (by decide)) (hthen (hrefuse .revocationCheck (by decide))
      (hrefuse .enrollmentCheck (by decide))))) h

theorem stale_live (h : staleReject (processMessage cb gs c).1 = true) : passes cb c = true := by
  cases hp : passes cb c with
  | true => rfl
  | false =>
    obtain ⟨e, he, hid⟩ := process_fail gs hp
    rw [he] at h
    exact absurd h (by simpa [staleReject] using identityChecks_stage hid)

/-- What is refused for its sequence repeats one. -/
theorem stale_repeats {earlier : List (Call Payload)} (hs : Sequenced cb c.peerId (guardOf gs c.peerId) earlier)
    (h : staleReject (processMessage cb gs c).1 = true) : Repeats cb earlier c := by
  obtain ⟨-, hf⟩ := (process_stale_iff (stale_live h)).mp h
  cases hq : c.sequence with
  | none => rw [hq] at hf; cases hf
  | some q =>
    have hle : q ≤ (guardOf gs c.peerId).lastSequence := by
      by_contra hlt
      rw [hq] at hf
      simp only [ReplayGuardState.fresh, ReplayGuardState.checkSequence, if_neg hlt] at hf
      split at hf
      · exact hlt (hs.seen q ‹_›)
      · cases hf
    refine ⟨q, hq, ?_⟩
    rcases hs.last with h1 | ⟨d, hd, hp, hpeer, hseq⟩
    · exact .inl (h1 ▸ hle)
    · exact .inr ⟨d, hd, hp, hpeer, _, hseq, hle⟩

/-- No live message of `p` among `before`, which come after `past`, repeats a sequence. -/
def Unrepeated (cb : Callbacks Payload) (past : List (Call Payload)) (p : String) (before : List (Call Payload)) : Prop :=
  ∀ first d later, before = first ++ d :: later → passes cb d = true → d.peerId = p → ¬Repeats cb (past ++ first) d

theorem Unrepeated.left {past before : List (Call Payload)} {p : String} (h : Unrepeated cb past p (before ++ [c])) :
    Unrepeated cb past p before := fun first d later e => h first d (later ++ [c]) (by rw [e]; simp)

/-- Of a peer that has repeated nothing, both runs have the same guard. -/
def Together (cb : Callbacks Payload) (past before : List (Call Payload)) (gs hs : Guards) : Prop :=
  ∀ p, Unrepeated cb past p before → guardOf gs p = guardOf hs p

theorem Together.erase {past before : List (Call Payload)} (ht : Together cb past before gs hs)
    (hseq : ∀ p, Sequenced cb p (guardOf gs p) (past ++ before)) (hk : staleReject (processMessage cb gs c).1 = true) :
    Together cb past (before ++ [c]) (processMessage cb gs c).2 hs := by
  intro p hp
  have hne : c.peerId ≠ p := by
    rintro rfl
    exact hp before c [] rfl (stale_live hk) rfl (stale_repeats (hseq c.peerId) hk)
  rw [guardOf_process, if_neg fun h => hne h.2]
  exact ht p hp.left

theorem Together.process {past before : List (Call Payload)} (ht : Together cb past before gs hs) (c : Call Payload) :
    Together cb past (before ++ [c]) (processMessage cb gs c).2 (processMessage cb hs c).2 := by
  intro p hp
  rw [guardOf_process, guardOf_process, ht p hp.left]

/-! ### Spared traces -/

/-- Whenever a live message of a peer comes, either nothing of the peer has repeated a sequence since `past`, or the peer
    is within the rate, replays counted. -/
def Spared (cb : Callbacks Payload) (past calls : List (Call Payload)) : Prop :=
  ∀ before c after, calls = before ++ c :: after → passes cb c = true →
    Unrepeated cb past c.peerId before ∨ WithinRate cb (past ++ before) c

/-- What both runs keep: they are within what the trace shows, and together on the peers that have repeated nothing. -/
structure SparedInv (cb : Callbacks Payload) (past before : List (Call Payload)) (gs hs : Guards) : Prop where
  whole : AllCounted cb gs (past ++ before)
  erased : AllCounted cb hs (past ++ before)
  sequenced : ∀ p, Sequenced cb p (guardOf gs p) (past ++ before)
  together : Together cb past before gs hs

theorem rateUnmoved_of_spared {past : List (Call Payload)} (calls before : List (Call Payload))
    (hspared : Spared cb past (before ++ calls))
    (hmono : (past ++ (before ++ calls)).Pairwise fun c d => c.nowRate ≤ d.nowRate) (hi : SparedInv cb past before gs hs) :
    RateUnmoved cb gs hs calls := by
  induction calls generalizing before gs hs with
  | nil => trivial
  | cons c cs ih =>
    have hle : ∀ d ∈ past ++ before, d.nowRate ≤ c.nowRate := by
      rw [← List.append_assoc] at hmono
      exact fun d hd => (List.pairwise_append.mp hmono).2.2 d hd c List.mem_cons_self
    have hnext : Spared cb past ((before ++ [c]) ++ cs) := by simpa using hspared
    have hmono' : (past ++ ((before ++ [c]) ++ cs)).Pairwise fun c d => c.nowRate ≤ d.nowRate := by simpa using hmono
    have hseq : ∀ p, Sequenced cb p (guardOf (processMessage cb gs c).2 p) (past ++ (before ++ [c])) := by
      rw [← List.append_assoc]
      exact Sequenced.process hi.sequenced c
    have hwhole : AllCounted cb (processMessage cb gs c).2 (past ++ (before ++ [c])) := by
      rw [← List.append_assoc]
      exact hi.whole.process hle
    simp only [RateUnmoved]
    split
    · rename_i hk
      refine ih _ hnext hmono' ⟨hwhole, ?_, hseq, hi.together.erase hi.sequenced hk⟩
      rw [← List.append_assoc]
      exact hi.erased.skip c
    · refine ⟨?_, ih _ hnext hmono' ⟨hwhole, ?_, hseq, hi.together.process c⟩⟩
      · intro hp _
        rcases hspared before c cs rfl hp with hun | hrate
        · rw [hi.together c.peerId hun]
        · rw [hi.whole.rateOk hle hp hrate, hi.erased.rateOk hle hp hrate]
      · rw [← List.append_assoc]
        exact hi.erased.process hle

/-- What a trace from a fresh pipeline leaves. -/
theorem spared_reached (cb : Callbacks Payload) {past : List (Call Payload)}
    (hmono : past.Pairwise fun c d => c.nowRate ≤ d.nowRate) :
    SparedInv cb past [] (final (processMessage cb) Guards.init past) (final (processMessage cb) Guards.init past) := by
  have hall : AllCounted cb (final (processMessage cb) Guards.init past) past ∧
      ∀ p, Sequenced cb p (guardOf (final (processMessage cb) Guards.init past) p) past := by
    induction past using List.reverseRecOn with
    | nil => exact ⟨fun p => .inl ⟨rfl, le_refl _⟩, fun p => ⟨fun q hq => absurd hq (by simp [guardOf, Guards.init]), .inl rfl⟩⟩
    | append_singleton past c ih =>
      obtain ⟨hpast, -, hle⟩ := List.pairwise_append.mp hmono
      obtain ⟨hcounted, hseq⟩ := ih hpast
      rw [final_concat]
      exact ⟨hcounted.process fun d hd => hle d hd c List.mem_cons_self, Sequenced.process hseq c⟩
  rw [← List.append_nil past] at hall
  simp only [List.append_nil] at hall
  exact ⟨by simpa using hall.1, by simpa using hall.1, by simpa using hall.2, fun _ _ => rfl⟩

/-- A message, a replay of it, and the peer's next message. -/
def replayedOnce : List (Call String) := [resend (some 1) 1000, resend (some 1) 1001, resend (some 2) 1002]

end PyxelVM.Auth
