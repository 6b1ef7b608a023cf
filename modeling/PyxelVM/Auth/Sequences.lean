/-
  PyxelVM.Auth.Sequences — the sequence numbers of a peer (`zdx_auth_pipeline.py`).

  - `dispatched_once`: along every trace the numbers of each peer that reach the handler
    strictly increase, whatever the callbacks answer and the handler raises.
  - `seen_bounded_iff`: a guard tracks no more than `SEQUENCE_WINDOW` numbers exactly when
    no more than so many records in a row follow each other closely: only a larger step
    clears the set.
-/

import Mathlib.Data.Finset.Card
import PyxelVM.Auth.Replay
import PyxelVM.Lib.Runs

namespace PyxelVM.Auth

open PyxelVM.Lib
open PyxelVM.Lib.Trace

/-! ## Dispatch -/

/-- A call, with the answers its callbacks give and what the handler raises if it is reached. -/
structure Delivery (Payload : Type) where
  callbacks : Callbacks Payload
  call : Call Payload
  dispatchHandler : String → Payload → Option String

inductive Ending where
  | rejected (e : AuthenticationError)
  | returned
  | raised (exc : String)
  deriving DecidableEq, Repr

variable {Payload : Type}

/-- `process_message`, its last stage included. -/
def deliver (gs : Guards) (d : Delivery Payload) : Ending × Guards :=
  match processMessage d.callbacks gs d.call with
  | (.rejected e, gs) => (.rejected e, gs)
  | (.dispatched, gs) =>
    match d.dispatchHandler d.call.peerId d.call.payload with
    | none => (.returned, gs)
    | some exc => (.raised exc, gs)

/-- The peer and the sequence number with which a message reaches the handler. -/
def reached (d : Delivery Payload) : Ending → List (String × Int)
  | .rejected _ => []
  | .returned | .raised _ => d.call.sequence.toList.map fun q => (d.call.peerId, q)

/-- What reaches the handler with a sequence number, along a trace. -/
def handled (gs : Guards) (ds : List (Delivery Payload)) : List (String × Int) := seen deliver reached gs ds

def sequencesOf (p : String) (handled : List (String × Int)) : List Int := (handled.filter fun x => x.1 = p).map (·.2)

theorem deliver_guards (gs : Guards) (d : Delivery Payload) : (deliver gs d).2 = (processMessage d.callbacks gs d.call).2 := by
  unfold deliver
  split
  · rename_i h
    rw [h]
  · rename_i h
    rw [h]
    split <;> rfl

/-- What reaches the handler is above the peer's last number, and becomes it. -/
theorem reached_above {gs : Guards} {d : Delivery Payload} {x : String × Int} (h : x ∈ reached d (deliver gs d).1) :
    reached d (deliver gs d).1 = [x] ∧ lastOf gs x.1 < x.2 ∧ lastOf (deliver gs d).2 x.1 = x.2 := by
  have hdispatched : (processMessage d.callbacks gs d.call).1 = .dispatched := by
    cases hp : processMessage d.callbacks gs d.call with
    | mk v gs' =>
      cases v with
      | dispatched => rfl
      | rejected e =>
        simp only [deliver, hp, reached, List.not_mem_nil] at h
  have hreached : reached d (deliver gs d).1 = d.call.sequence.toList.map fun q => (d.call.peerId, q) := by
    cases hp : processMessage d.callbacks gs d.call with
    | mk v gs' =>
      rw [hp] at hdispatched
      subst hdispatched
      simp only [deliver, hp]
      cases d.dispatchHandler d.call.peerId d.call.payload <;> rfl
  rw [hreached] at h ⊢
  cases hq : d.call.sequence with
  | none =>
    rw [hq] at h
    cases h
  | some q =>
    rw [hq] at h
    obtain rfl : x = (d.call.peerId, q) := List.mem_singleton.mp h
    rw [deliver_guards]
    exact ⟨rfl, (process_dispatched hdispatched).2 q hq⟩

theorem handled_cons (gs : Guards) (d : Delivery Payload) (ds : List (Delivery Payload)) :
    handled gs (d :: ds) = reached d (deliver gs d).1 ++ handled (deliver gs d).2 ds := seen_cons gs d ds

/-- All that reaches the handler later is above the number a peer has. -/
theorem handled_above (gs : Guards) (ds : List (Delivery Payload)) : ∀ x ∈ handled gs ds, lastOf gs x.1 < x.2 := by
  induction ds generalizing gs with
  | nil => exact fun _ h => nomatch h
  | cons d ds ih =>
    intro x hx
    rw [handled_cons] at hx
    rcases List.mem_append.mp hx with hx | hx
    · exact (reached_above hx).2.1
    · have hgrows : lastOf gs x.1 ≤ lastOf (processMessage d.callbacks gs d.call).2 x.1 := process_last_le gs d.call x.1
      rw [← deliver_guards] at hgrows
      exact lt_of_le_of_lt hgrows (ih _ x hx)

theorem handled_increasing (gs : Guards) (ds : List (Delivery Payload)) :
    (handled gs ds).Pairwise fun x y => x.1 = y.1 → x.2 < y.2 := by
  induction ds generalizing gs with
  | nil => exact .nil
  | cons d ds ih =>
    rw [handled_cons]
    refine List.pairwise_append.mpr ⟨?_, ih _, ?_⟩
    · cases hr : reached d (deliver gs d).1 with
      | nil => exact .nil
      | cons x xs =>
        have hx := (reached_above (x := x) (by rw [hr]; exact List.mem_cons_self ..)).1
        rw [← hr, hx]
        exact List.pairwise_singleton _ _
    · intro x hx y hy hxy
      have habove := handled_above _ ds y hy
      rwa [← hxy, (reached_above hx).2.2] at habove

/-- Sequence numbers are dispatched at most once, and in order. -/
theorem dispatched_once (gs : Guards) (ds : List (Delivery Payload)) :
    (∀ p, (sequencesOf p (handled gs ds)).Pairwise (· < ·)) ∧ (handled gs ds).Nodup := by
  have hp := handled_increasing gs ds
  constructor
  · intro p
    rw [sequencesOf, List.pairwise_map]
    refine (hp.filter _).imp_of_mem fun {x y} hx hy hxy => ?_
    have hx1 := (List.mem_filter.mp hx).2
    have hy1 := (List.mem_filter.mp hy).2
    simp only [decide_eq_true_eq] at hx1 hy1
    exact hxy (hx1.trans hy1.symm)
  · refine hp.imp fun {x y} hxy e => ?_
    subst e
    exact lt_irrefl _ (hxy rfl)

/-! ## The tracked numbers -/

/-- The numbers above all those before them, and above `last`. -/
def records (last : Int) : List Int → List Int
  | [] => []
  | q :: qs => if q ≤ last then records last qs else q :: records q qs

/-- A number that does not clear the set when it follows `p`. -/
def Near (p q : Int) : Prop := q ≤ p + sequenceWindow

instance : DecidableRel Near := fun p q => inferInstanceAs (Decidable (q ≤ p + sequenceWindow))

/-- The guard after the calls. -/
def ReplayGuardState.after (g : ReplayGuardState) (qs : List Int) : ReplayGuardState :=
  qs.foldl (fun g q => (g.checkSequence q).2) g

/-- The guard has accepted these numbers, and tracks the last run of close ones. -/
structure Tracks (g : ReplayGuardState) (accepted : List Int) : Prop where
  last : ∀ a ∈ accepted.getLast?, a = g.lastSequence
  below : ∀ a ∈ accepted, a ≤ g.lastSequence
  sorted : accepted.Pairwise (· < ·)
  seen : g.seenSequences = (lastRun Near accepted).toFinset

variable {g : ReplayGuardState} {accepted : List Int} {q : Int}

theorem Tracks.mem (h : Tracks g accepted) (hq : q ∈ g.seenSequences) : q ≤ g.lastSequence := by
  rw [h.seen, List.mem_toFinset] at hq
  exact h.below q ((lastRun_suffix accepted).subset hq)

theorem Tracks.card (h : Tracks g accepted) : g.seenSequences.card = (lastRun Near accepted).length := by
  have hnodup : (lastRun Near accepted).Nodup := (h.sorted.sublist (lastRun_suffix accepted).sublist).imp fun hab => ne_of_lt hab
  rw [h.seen, List.toFinset_card_of_nodup hnodup]

theorem checkSequence_stale (h : q ≤ g.lastSequence) : (g.checkSequence q).2 = g := by
  rw [ReplayGuardState.checkSequence, if_pos h]

theorem Tracks.step (h : Tracks g accepted) (hq : ¬q ≤ g.lastSequence) : Tracks (g.checkSequence q).2 (accepted ++ [q]) := by
  have hnew : q ∉ g.seenSequences := fun hm => hq (h.mem hm)
  have hlast : (g.checkSequence q).2.lastSequence = q := by
    rw [ReplayGuardState.checkSequence, if_neg hq, if_neg hnew]
  have hseen : (g.checkSequence q).2.seenSequences =
      insert q (if q > g.lastSequence + sequenceWindow then ∅ else g.seenSequences) := by
    rw [ReplayGuardState.checkSequence, if_neg hq, if_neg hnew]
  refine ⟨?_, ?_, ?_, ?_⟩
  · intro a ha
    rw [List.getLast?_concat, Option.mem_some_iff] at ha
    rw [hlast, ha]
  · intro a ha
    rw [hlast]
    rcases List.mem_append.mp ha with ha | ha
    · have hle := h.below a ha
      omega
    · exact (List.mem_singleton.mp ha).le
  · refine List.pairwise_append.mpr ⟨h.sorted, List.pairwise_singleton _ _, ?_⟩
    intro a ha b hb
    rw [List.mem_singleton.mp hb]
    have hle := h.below a ha
    omega
  · rw [hseen, lastRun_concat, extend, h.seen]
    cases hl : (lastRun Near accepted).getLast? with
    | none =>
      rw [List.getLast?_eq_none_iff.mp hl]
      simp
    | some b =>
      -- the run ends with the last number
      have hb : b = g.lastSequence := by
        rcases lastRun_suffix (R := Near) accepted with ⟨past, hpast⟩
        apply h.last
        rw [← hpast, List.getLast?_append, hl]
        rfl
      by_cases hnear : Near b q
      · have hgap : ¬q > g.lastSequence + sequenceWindow := by rw [← hb]; exact not_lt.mpr hnear
        simp only [if_pos hnear, if_neg hgap]
        ext a
        simp
      · have hgap : q > g.lastSequence + sequenceWindow := by rw [← hb]; exact not_le.mp hnear
        simp only [if_neg hnear, if_pos hgap]
        simp

/-- A run accepts exactly the records. -/
theorem Tracks.after (h : Tracks g accepted) (qs : List Int) : Tracks (g.after qs) (accepted ++ records g.lastSequence qs) := by
  induction qs generalizing g accepted with
  | nil => rwa [records, List.append_nil]
  | cons q qs ih =>
    rw [records]
    change Tracks ((g.checkSequence q).2.after qs) _
    by_cases hq : q ≤ g.lastSequence
    · rw [if_pos hq, checkSequence_stale hq]
      exact ih h
    · have hnew : (g.checkSequence q).1 = true := by
        rw [ReplayGuardState.checkSequence, if_neg hq, if_neg fun hm => hq (h.mem hm)]
      have hrest := ih (h.step hq)
      rw [(checkSequence_accepted hnew).2, List.append_assoc] at hrest
      rwa [if_neg hq]

/-- The beginnings of the records are the records of the beginnings. -/
theorem prefix_records_iff {last : Int} {qs as : List Int} :
    as <+: records last qs ↔ ∃ past, past <+: qs ∧ records last past = as := by
  induction qs generalizing last as with
  | nil =>
    rw [records, List.prefix_nil]
    constructor
    · intro h
      exact ⟨[], List.prefix_refl [], h.symm⟩
    · intro h
      rcases h with ⟨past, hp, rfl⟩
      rw [List.prefix_nil.mp hp, records]
  | cons q qs ih =>
    rw [records]
    by_cases hq : q ≤ last
    · rw [if_pos hq, ih]
      constructor
      · intro h
        rcases h with ⟨past, hp, rfl⟩
        exact ⟨q :: past, List.cons_prefix_cons.mpr ⟨rfl, hp⟩, by rw [records, if_pos hq]⟩
      · intro h
        rcases h with ⟨past, hp, rfl⟩
        rcases List.prefix_cons_iff.mp hp with rfl | hp
        · exact ⟨[], List.nil_prefix, rfl⟩
        · rcases hp with ⟨rest, rfl, hrest⟩
          exact ⟨rest, hrest, by rw [records, if_pos hq]⟩
    · rw [if_neg hq, List.prefix_cons_iff]
      constructor
      · intro h
        rcases h with rfl | h
        · exact ⟨[], List.nil_prefix, rfl⟩
        · rcases h with ⟨as, rfl, has⟩
          rcases ih.mp has with ⟨past, hp, rfl⟩
          exact ⟨q :: past, List.cons_prefix_cons.mpr ⟨rfl, hp⟩, by rw [records, if_neg hq]⟩
      · intro h
        rcases h with ⟨past, hp, rfl⟩
        rcases List.prefix_cons_iff.mp hp with rfl | hp
        · exact .inl rfl
        · rcases hp with ⟨rest, rfl, hrest⟩
          exact .inr ⟨records q rest, by rw [records, if_neg hq], ih.mpr ⟨rest, hrest, rfl⟩⟩

/-- The guard of a peer that has not sent yet. -/
theorem tracks_fresh (peerId : String) : Tracks { peerId := peerId } [] :=
  ⟨fun _ h => (nomatch h), fun _ h => (nomatch h), .nil, rfl⟩

/-- What the guard tracks after the calls. -/
theorem card_after (peerId : String) (qs : List Int) :
    (({ peerId := peerId } : ReplayGuardState).after qs).seenSequences.card = (lastRun Near (records (-1) qs)).length := by
  have h := ((tracks_fresh peerId).after qs).card
  rwa [List.nil_append] at h

/-- The set stays within the window exactly when no more records than that in a row are each
    close to the one before. -/
theorem seen_bounded_iff (peerId : String) (qs : List Int) :
    (∀ past, past <+: qs → ((({ peerId := peerId } : ReplayGuardState).after past).seenSequences.card : Int) ≤ sequenceWindow) ↔
      ∀ run, run <:+: records (-1) qs → run.IsChain Near → (run.length : Int) ≤ sequenceWindow := by
  have hwindow : ∀ n : Nat, (n : Int) ≤ sequenceWindow ↔ n ≤ 100 := by
    intro n
    unfold sequenceWindow
    omega
  simp only [hwindow, card_after]
  rw [← lastRun_bounded_iff]
  constructor
  · intro h as has
    rcases prefix_records_iff.mp has with ⟨past, hp, rfl⟩
    exact h past hp
  · intro h past hp
    exact h _ (prefix_records_iff.mpr ⟨past, hp, rfl⟩)

/-- The numbers 0 to 100, one after another. -/
theorem seen_grows : ¬∀ (peerId : String) (qs : List Int),
    ((({ peerId := peerId } : ReplayGuardState).after qs).seenSequences.card : Int) ≤ sequenceWindow := by
  intro h
  exact absurd (h "alice" ((List.range 101).map fun n => (n : Int))) (by decide +kernel)

end PyxelVM.Auth
