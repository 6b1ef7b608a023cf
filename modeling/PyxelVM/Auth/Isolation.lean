/-
  PyxelVM.Auth.Isolation — a peer sees nothing of other peers, nor of messages that
  fail stages 1 to 5.

  The observer of peer `p` sees the payloads dispatched for `p`, and `p`'s guard at
  the end. `ownLive` are the messages that claim to come from `p` and pass stages 1
  to 5. Erasing all others from any trace, whatever the guards it starts from and
  whatever the clock reads, changes neither (`peer_isolation`). The relation of the
  two runs is that `p`'s entry is the same; the entries the defaultdict creates for
  other peers are not in it.
-/

import PyxelVM.Auth.Pipeline

namespace PyxelVM.Auth

open Function (update)
open PyxelVM.Lib.Trace

variable {Payload : Type} (cb : Callbacks Payload)

/-- The messages of `p` that pass stages 1 to 5. -/
def ownLive (p : String) (c : Call Payload) : Bool := c.peerId == p && passes cb c

/-- What a call shows `p`: the payload, if it is dispatched for `p`. -/
def shows (p : String) (c : Call Payload) (v : Verdict) : List Payload :=
  if c.peerId = p ∧ v = .dispatched then [c.payload] else []

/-- The payloads dispatched for `p`, in order. -/
def payloadsFor (gs : Guards) (p : String) (calls : List (Call Payload)) : List Payload :=
  seen (processMessage cb) (shows p) gs calls

/-- The guards at the end of a trace. -/
def guardsAfter (gs : Guards) (calls : List (Call Payload)) : Guards := final (processMessage cb) gs calls

variable {cb}

/-- A call leaves every peer's entry alone but its sender's. -/
theorem process_other {gs : Guards} {c : Call Payload} {p : String} (h : c.peerId ≠ p) :
    (processMessage cb gs c).2 p = gs p := by
  cases hp : passes cb c with
  | false => obtain ⟨e, he, -⟩ := process_fail gs hp; rw [he]
  | true => rw [process_live hp]; exact Function.update_of_ne (Ne.symm h) _ _

/-- A live call's verdict and its sender's next entry depend on the sender's entry only. -/
theorem process_own {gs hs : Guards} {c : Call Payload} (hp : passes cb c = true) (h : gs c.peerId = hs c.peerId) :
    (processMessage cb gs c).1 = (processMessage cb hs c).1 ∧
      (processMessage cb gs c).2 c.peerId = (processMessage cb hs c).2 c.peerId := by
  have hg : guardOf gs c.peerId = guardOf hs c.peerId := by simp [guardOf, h]
  rw [process_live hp, process_live hp, hg]
  simp

theorem process_fail_shows {c : Call Payload} (gs : Guards) (hp : passes cb c = false) (p : String) :
    (processMessage cb gs c).2 = gs ∧ shows p c (processMessage cb gs c).1 = [] := by
  obtain ⟨e, he, -⟩ := process_fail gs hp
  simp [he, shows]

/-- Erasing every message of other peers, and every message that fails one of stages 1
    to 5, changes neither the payloads dispatched for `p` nor `p`'s final guard. -/
theorem peer_isolation (cb : Callbacks Payload) (gs : Guards) (p : String) (calls : List (Call Payload)) :
    payloadsFor cb gs p calls = payloadsFor cb gs p (calls.filter (ownLive cb p)) ∧
      getReplayState (guardsAfter cb gs calls) p = getReplayState (guardsAfter cb gs (calls.filter (ownLive cb p))) p := by
  have h := erase_filter (processMessage cb) (shows p) (ownLive cb p) (fun s t => s p = t p) (s := gs) (t := gs) ?_ ?_ rfl calls
  · exact ⟨h.2, by unfold getReplayState guardsAfter; rw [h.1]⟩
  · intro s t c hst hk
    simp only [ownLive, Bool.and_eq_true, beq_iff_eq] at hk
    obtain ⟨rfl, hp⟩ := hk
    obtain ⟨hv, he⟩ := process_own hp hst
    exact ⟨he, by rw [hv]⟩
  · intro s t c hst hk
    by_cases hc : c.peerId = p
    · have hp : passes cb c = false := by simpa [ownLive, hc] using hk
      obtain ⟨hs, ho⟩ := process_fail_shows s hp p
      exact ⟨by rw [hs]; exact hst, ho⟩
    · exact ⟨by rw [process_other hc]; exact hst, by simp [shows, hc]⟩

end PyxelVM.Auth
