/-
  PyxelVM.Auth.RateWindow — what the rate limit holds over time (`zdx_auth_pipeline.py`).

  A guard counts its peer's live messages in windows that begin with a message, so its
  limiter is a `FixedWindow` of `RATE_LIMIT_WINDOW` and `RATE_LIMIT_MAX_MESSAGES`.

  - `rate_limited`: in no interval as long as the window are more than twice
    RATE_LIMIT_MAX_MESSAGES messages of a peer dispatched.
  - `burst_between_windows`: twice as many can be, at the end of one window and the
    beginning of the next.
-/

import PyxelVM.Auth.Lockout
import PyxelVM.Auth.Sequences
import PyxelVM.Lib.FixedWindow

namespace PyxelVM.Auth

open PyxelVM.Lib
open PyxelVM.Lib.Trace

/-! ## Dispatches in time -/

/-- A delivery, and the clock when its handler is called, if it is. -/
structure Timed (Payload : Type) extends Delivery Payload where
  handledAt : Rat

def Ending.called : Ending → Bool
  | .rejected _ => false
  | .returned | .raised _ => true

variable {Payload : Type}

/-- The clock never goes back, neither inside a call nor from call to call. -/
def Ticking (ds : List (Timed Payload)) : Prop :=
  (ds.flatMap fun d => [d.call.nowStamp, d.call.nowRate, d.handledAt]).Pairwise (· ≤ ·)

instance (ds : List (Timed Payload)) : Decidable (Ticking ds) := inferInstanceAs (Decidable (List.Pairwise _ _))

/-- When the messages of `p` are dispatched, along a trace. -/
def dispatchTimes (p : String) (gs : Guards) (ds : List (Timed Payload)) : List Rat :=
  seen (fun gs d => deliver gs d.toDelivery) (fun d e => if d.call.peerId = p ∧ e.called then [d.handledAt] else []) gs ds

/-- How many of these times are in `[t, t + RATE_LIMIT_WINDOW)`. -/
def inWindow (t : Rat) (times : List Rat) : Nat := times.countP fun x => decide (t ≤ x ∧ x < t + rateLimitWindow)

/-! ## The guard's window -/

def ReplayGuardState.window (g : ReplayGuardState) : FixedWindow Rat := ⟨g.rateLimitWindowStart, g.messageCount⟩

theorem window_rate (g : ReplayGuardState) (now : Rat) :
    (g.checkAndUpdateRateLimit now).2.window = g.window.tick rateLimitWindow now := by
  unfold ReplayGuardState.checkAndUpdateRateLimit FixedWindow.tick ReplayGuardState.window
  split <;> rfl

theorem rateOk_iff (g : ReplayGuardState) (now : Rat) :
    g.rateOk now = true ↔ (g.window.tick rateLimitWindow now).count ≤ rateLimitMaxMessages := by
  rw [← window_rate]
  exact decide_eq_true_iff

theorem window_answer (g : ReplayGuardState) (c : Call Payload) :
    (g.answer c).2.window = g.window.tick rateLimitWindow c.nowRate := by
  rw [← window_rate]
  obtain ⟨hcount, hstart⟩ := answer_rate_fields g c
  rw [ReplayGuardState.window, ReplayGuardState.window, hcount, hstart]

/-- A handler that is called is called for a dispatched message. -/
theorem deliver_called {gs : Guards} {d : Delivery Payload} (h : (deliver gs d).1.called = true) :
    (processMessage d.callbacks gs d.call).1 = .dispatched := by
  unfold deliver at h
  split at h
  · cases h
  · rename_i hp
    rw [hp]

/-- The live messages of `p`, as the limiter meets them. -/
def arrivals (p : String) (ds : List (Timed Payload)) : List (Arrival Rat) :=
  (ds.filter fun d => d.call.peerId = p ∧ passes d.callbacks d.call = true).map fun d => ⟨d.call.nowRate, d.handledAt⟩

theorem clocked_arrivals {ds : List (Timed Payload)} (h : Ticking ds) (p : String) : FixedWindow.Clocked (arrivals p ds) := by
  obtain ⟨hin, hnext⟩ := List.pairwise_flatMap.mp h
  constructor
  · intro a ha
    obtain ⟨d, hd, rfl⟩ := List.mem_map.mp ha
    have := hin d (List.mem_filter.mp hd).1
    simp only [List.pairwise_cons, List.mem_cons, List.not_mem_nil] at this
    exact this.2.1 _ (.inl rfl)
  · refine List.pairwise_map.mpr ((hnext.filter _).imp fun {d e} hde => ?_)
    exact hde d.handledAt (by simp) e.call.nowRate (by simp)

/-- What is dispatched for a peer its limiter has admitted. -/
theorem dispatchTimes_sublist (p : String) (gs : Guards) (ds : List (Timed Payload)) :
    (dispatchTimes p gs ds).Sublist
      (FixedWindow.admitted rateLimitWindow rateLimitMaxMessages (guardOf gs p).window (arrivals p ds)) := by
  induction ds generalizing gs with
  | nil => exact .slnil
  | cons d ds ih =>
    have hrest := ih (deliver gs d.toDelivery).2
    rw [dispatchTimes, seen_cons, ← dispatchTimes]
    rw [deliver_guards, guardOf_process] at hrest
    have hcalled (h : d.call.peerId = p ∧ (deliver gs d.toDelivery).1.called = true) :
        passes d.callbacks d.call = true ∧ (guardOf gs p).rateOk d.call.nowRate = true := by
      obtain ⟨rfl, hcalled⟩ := h
      have hdispatched := deliver_called hcalled
      have hpasses := (process_dispatched hdispatched).1
      exact ⟨hpasses, ((process_dispatched_iff hpasses).mp hdispatched).1⟩
    rw [deliver_guards]
    by_cases hown : d.call.peerId = p ∧ passes d.callbacks d.call = true
    · have hcons : arrivals p (d :: ds) = ⟨d.call.nowRate, d.handledAt⟩ :: arrivals p ds := by
        simp [arrivals, hown.1, hown.2]
      rw [if_pos hown.symm, window_answer] at hrest
      rw [hcons, FixedWindow.admitted]
      by_cases hadmit : ((guardOf gs p).window.tick rateLimitWindow d.call.nowRate).count ≤ rateLimitMaxMessages
      · rw [if_pos hadmit]
        split
        · exact hrest.cons_cons _
        · exact hrest.cons _
      · have hnot := fun h => hadmit ((rateOk_iff _ _).mp (hcalled h).2)
        rw [if_neg hadmit, if_neg hnot]
        exact hrest
    · have hcons : arrivals p (d :: ds) = arrivals p ds := by
        rw [arrivals, List.filter_cons_of_neg (by simpa using hown), ← arrivals]
      have hnot := fun h => hown ⟨And.left h, (hcalled h).1⟩
      rw [if_neg fun h => hown h.symm] at hrest
      rw [hcons, if_neg hnot]
      exact hrest

/-- No interval of the window's length has more than twice the limit. -/
theorem rate_limited (gs : Guards) (ds : List (Timed Payload)) (hclock : Ticking ds) (p : String) (t : Rat) :
    inWindow t (dispatchTimes p gs ds) ≤ 2 * rateLimitMaxMessages :=
  (dispatchTimes_sublist p gs ds).countP_le.trans (FixedWindow.admitted_le (clocked_arrivals hclock p) _ t)

/-- A message with no sequence whose callbacks let it through, at the clock `now`. -/
def plain (now : Rat) : Timed String :=
  ⟨⟨⟨fun _ _ _ => true, fun _ => false, fun _ => true⟩, ⟨"alice", 1, .finite now, "sig", "ping", none, now, now⟩, fun _ _ => none⟩, now⟩

/-- The limit at the end of a window, and again as soon as it is over. -/
def burst : List (Timed String) :=
  List.replicate rateLimitMaxMessages (plain 10) ++ List.replicate rateLimitMaxMessages (plain 11)

theorem rate_limited_burst : inWindow 10 (dispatchTimes "alice" Guards.init burst) ≤ 2 * rateLimitMaxMessages :=
  rate_limited Guards.init burst (by decide +kernel) "alice" 10

/-- Two hundred messages are dispatched within a second. -/
theorem burst_between_windows : ¬∀ (ds : List (Timed String)) (p : String) (t : Rat), Ticking ds →
    inWindow t (dispatchTimes p Guards.init ds) ≤ rateLimitMaxMessages := by
  intro h
  have hall : inWindow 10 (dispatchTimes "alice" Guards.init burst) = 200 := by decide +kernel
  have hburst := h burst "alice" 10 (by decide +kernel)
  rw [hall] at hburst
  exact absurd hburst (by decide)

end PyxelVM.Auth
