/-
  PyxelVM.Karma.Decay — decay calls, and what they depend on.

  A decay call charges all the whole periods since the node's last activity, and records
  nothing: the next call charges them again. So between two activities the periods of
  all calls add up (`experience_polled`).

  - `decay_charged_again`: a second call at once takes experience again.
  - `decay_independent_iff`: the calls take what the last of them alone takes exactly if
    the earlier ones came within the first period, or the node has so little that
    nothing is left to take after the last one's periods.
-/

import Mathlib.Algebra.Order.Field.Basic
import PyxelVM.Karma.Ledger
import PyxelVM.Karma.Standing

namespace PyxelVM.Karma

open PyxelVM.Lib

/-! ## Periods -/

/-- The most experience that so many periods bring down to what a period takes nothing from. -/
def exhaustedIn : Nat → Int
  | 0 => 6
  | k + 1 => exhaustedIn k * 20 / 17

theorem exhaustedIn_nonneg (k : Nat) : 0 ≤ exhaustedIn k := by
  induction k with
  | zero => decide
  | succ k ih =>
    rw [exhaustedIn]
    omega

theorem decayOnce_le_iff {x b : Int} (hb : 0 ≤ b) : decayOnce x ≤ b ↔ x ≤ b * 20 / 17 := by
  unfold decayOnce inactivityDecayPercent
  omega

/-- Fifteen percent of six, rounded down, is nothing. -/
theorem decayOnce_lt_iff {x : Int} (hx : 0 ≤ x) : decayOnce x < x ↔ 6 < x := by
  unfold decayOnce inactivityDecayPercent
  omega

theorem exhausted_iff (k : Nat) (x : Int) : decayOnce^[k] x ≤ 6 ↔ x ≤ exhaustedIn k := by
  induction k generalizing x with
  | zero => exact Iff.rfl
  | succ k ih => rw [Function.iterate_succ_apply, ih, decayOnce_le_iff (exhaustedIn_nonneg k), exhaustedIn]

theorem decay_fixed_iff {x : Int} (hx : 0 ≤ x) {k : Nat} (hk : k ≠ 0) : decayOnce^[k] x = x ↔ x ≤ 6 := by
  obtain ⟨j, rfl⟩ := Nat.exists_eq_succ_of_ne_zero hk
  rw [Function.iterate_succ_apply]
  have hle := decay_le (decayOnce_le hx).1 j
  have hlt := decayOnce_lt_iff hx
  constructor
  · intro h
    by_contra hgt
    have := hlt.mpr (not_le.mp hgt)
    omega
  · intro h
    have hfix : decayOnce x = x := by
      have := (decayOnce_le hx).2
      have := mt hlt.mp (not_lt.mpr h)
      omega
    rw [hfix, Function.iterate_fixed hfix]

theorem decay_nonneg (x : Int) {k : Nat} (hk : k ≠ 0) : 0 ≤ decayOnce^[k] x := by
  obtain ⟨j, rfl⟩ := Nat.exists_eq_succ_of_ne_zero hk
  rw [Function.iterate_succ_apply']
  exact le_max_left _ _

theorem idlePeriods_eq_zero_iff (sc : KarmaScore) (now : Rat) :
    sc.idlePeriods now = 0 ↔ now - sc.lastActivityTime < inactivityDecayPeriod := by
  have hpos : (0 : Rat) < inactivityDecayPeriod := by decide +kernel
  unfold KarmaScore.idlePeriods
  rw [Int.toNat_eq_zero, ← Int.lt_add_one_iff, Rat.floor_lt_iff, zero_add, Int.cast_one, div_lt_one hpos]

theorem idlePeriods_mono (sc : KarmaScore) {t t' : Rat} (h : t ≤ t') : sc.idlePeriods t ≤ sc.idlePeriods t' := by
  have hpos : (0 : Rat) < inactivityDecayPeriod := by decide +kernel
  unfold KarmaScore.idlePeriods
  refine Int.toNat_le_toNat (Rat.floor_monotone ?_)
  exact (div_le_div_iff_of_pos_right hpos).mpr (sub_le_sub_right h _)

/-! ## Decay calls alone -/

/-- A call that is no activity of the node, and no restart. -/
def Op.idles (n : String) : Op → Prop
  | .reportEvent nodeId _ _ _ _ | .registerClusterActivity nodeId _ _ _ => nodeId ≠ n
  | .restart => False
  | _ => True

/-- When decay is called for the node. -/
def polls (n : String) (ops : List Op) : List Rat :=
  ops.filterMap fun
    | .applyInactivityDecay nodeId now => if nodeId = n then some now else none
    | _ => none

theorem decayed_experience (sc : KarmaScore) (now : Rat) :
    (sc.decayed now).totalExperience = decayOnce^[sc.idlePeriods now] sc.totalExperience := by
  unfold KarmaScore.decayed
  split
  · rename_i h
    rw [(idlePeriods_eq_zero_iff sc now).mpr h]
    rfl
  · rfl

theorem decayed_activity (sc : KarmaScore) (now : Rat) : (sc.decayed now).lastActivityTime = sc.lastActivityTime := by
  unfold KarmaScore.decayed
  split <;> rfl

/-- What such a call does to the experience and the activity time of the node. -/
theorem idles_step {s : System} {op : Op} {n : String} (h : op.idles n) :
    ((step s op).2.memory.standing n).lastActivityTime = (s.memory.standing n).lastActivityTime ∧
      ((step s op).2.memory.standing n).totalExperience =
        decayOnce^[((polls n [op]).map (s.memory.standing n).idlePeriods).sum] (s.memory.standing n).totalExperience := by
  by_cases hpoll : ∃ now, op = .applyInactivityDecay n now
  · obtain ⟨now, rfl⟩ := hpoll
    have hstep : (step s (.applyInactivityDecay n now)).2.memory.standing n = (s.memory.standing n).decayed now := by
      have hd := standing_applyInactivityDecay s n n now
      rwa [if_pos rfl] at hd
    have hpolls : polls n [.applyInactivityDecay n now] = [now] := by simp [polls]
    rw [hstep, hpolls, decayed_activity, decayed_experience]
    simp
  · have hpolls : polls n [op] = [] := by
      cases op with
      | applyInactivityDecay k now =>
        have hk : k ≠ n := fun e => hpoll ⟨now, by rw [e]⟩
        simp [polls, hk]
      | _ => rfl
    have hsubject : op.subject? ≠ some n := by
      cases op with
      | applyInactivityDecay k now => exact fun e => hpoll ⟨now, by rw [Option.some.inj e]⟩
      | reportEvent k e reason severity now => exact fun e => h (Option.some.inj e)
      | registerClusterActivity k c done now => exact fun e => h (Option.some.inj e)
      | _ => exact fun e => nomatch e
    have hrestart : op ≠ .restart := by
      rintro rfl
      exact h
    rw [hpolls]
    rcases standing_other s hsubject hrestart with e | ⟨now, e⟩
    · rw [e]
      exact ⟨rfl, rfl⟩
    · obtain ⟨_, _, hsc⟩ := isSuspended_score (s.memory.standing n) now
      rw [e, hsc]
      exact ⟨rfl, rfl⟩

/-- The periods of all decay calls add up. -/
theorem experience_polled {ops : List Op} {n : String} (h : ∀ op ∈ ops, op.idles n) (s : System) :
    ((Trace.final step s ops).memory.standing n).totalExperience =
      decayOnce^[((polls n ops).map (s.memory.standing n).idlePeriods).sum] (s.memory.standing n).totalExperience := by
  induction ops generalizing s with
  | nil => rfl
  | cons op ops ih =>
    obtain ⟨hop, hops⟩ := List.forall_mem_cons.mp h
    obtain ⟨htime, hxp⟩ := idles_step (s := s) hop
    have hperiods : ((step s op).2.memory.standing n).idlePeriods = (s.memory.standing n).idlePeriods := by
      funext now
      rw [KarmaScore.idlePeriods, htime, KarmaScore.idlePeriods]
    have hpolls : polls n (op :: ops) = polls n [op] ++ polls n ops := by
      rw [polls, ← List.singleton_append, List.filterMap_append]
      rfl
    rw [Trace.final_cons, ih hops, hxp, hperiods, ← Function.iterate_add_apply, hpolls, List.map_append, List.sum_append,
      Nat.add_comm]

/-! ## Independence -/

theorem periods_zero_iff (sc : KarmaScore) (ts : List Rat) :
    (ts.map sc.idlePeriods).sum = 0 ↔ ∀ t ∈ ts, t - sc.lastActivityTime < inactivityDecayPeriod := by
  rw [List.sum_eq_zero_iff_forall_eq_nat, List.forall_mem_map]
  exact forall₂_congr fun t _ => idlePeriods_eq_zero_iff sc t

/-- Whatever else happens, decay calls for a node that is not active take from it what the last one alone would have
    taken, exactly if the others came within its first idle period or it has no more than that one exhausts. -/
theorem decay_independent_iff (s : System) (n : String) (ops : List Op) (earlier : List Rat) (last : Rat)
    (hidle : ∀ op ∈ ops, op.idles n) (hpolls : polls n ops = earlier ++ [last]) (hclock : (earlier ++ [last]).Pairwise (· ≤ ·)) :
    ((Trace.final step s ops).memory.scoreOf n).totalExperience =
        ((step s (.applyInactivityDecay n last)).2.memory.scoreOf n).totalExperience ↔
      (∀ t ∈ earlier, t - (s.memory.scoreOf n).lastActivityTime < inactivityDecayPeriod) ∨
        (s.memory.scoreOf n).totalExperience ≤ exhaustedIn ((s.memory.scoreOf n).idlePeriods last) := by
  have hrun := experience_polled hidle s
  have hidles : ∀ op ∈ [Op.applyInactivityDecay n last], op.idles n := by simp [Op.idles]
  have hone := experience_polled hidles s
  rw [hpolls, List.map_append, List.sum_append, Function.iterate_add_apply] at hrun
  have hsingle : polls n [.applyInactivityDecay n last] = [last] := by simp [polls]
  rw [hsingle] at hone
  change (Memory.standing _ n).totalExperience = (Memory.standing _ n).totalExperience ↔
    (∀ t ∈ earlier, t - (s.memory.standing n).lastActivityTime < _) ∨
      (s.memory.standing n).totalExperience ≤ exhaustedIn ((s.memory.standing n).idlePeriods last)
  rw [Trace.final_cons, Trace.final_nil] at hone
  rw [hrun, hone, List.map_singleton, List.sum_singleton, ← periods_zero_iff]
  by_cases hzero : (earlier.map (s.memory.standing n).idlePeriods).sum = 0
  · rw [hzero]
    exact ⟨fun _ => .inl rfl, fun _ => rfl⟩
  · -- an earlier call came after a period, so the last one did
    have hlast : (s.memory.standing n).idlePeriods last ≠ 0 := by
      intro h
      refine hzero ((periods_zero_iff _ _).mpr fun t ht => (idlePeriods_eq_zero_iff _ t).mp ?_)
      have hle := (List.pairwise_append.mp hclock).2.2 t ht last (List.mem_singleton.mpr rfl)
      have := idlePeriods_mono (s.memory.standing n) hle
      omega
    rw [decay_fixed_iff (decay_nonneg _ hlast) hzero, exhausted_iff]
    exact ⟨.inr, fun h => h.resolve_left hzero⟩

/-- A node that has earned fifteen points. -/
def earner : System := reached [.reportEvent "node" .validContribution "" "minor" 0]

/-- It is asked for a day before its week is over, and then again. -/
theorem decay_independent_early :
    ((Trace.final step earner [.applyInactivityDecay "node" 518400, .applyInactivityDecay "node" 604800]).memory.scoreOf
        "node").totalExperience =
        ((step earner (.applyInactivityDecay "node" 604800)).2.memory.scoreOf "node").totalExperience ↔
      (∀ t ∈ [518400], t - (earner.memory.scoreOf "node").lastActivityTime < inactivityDecayPeriod) ∨
        (earner.memory.scoreOf "node").totalExperience ≤ exhaustedIn ((earner.memory.scoreOf "node").idlePeriods 604800) :=
  decay_independent_iff earner "node" [.applyInactivityDecay "node" 518400, .applyInactivityDecay "node" 604800] [518400]
    604800 (by simp [Op.idles]) (by decide +kernel) (by decide +kernel)

/-- A node with fifteen points loses two after a week, and one more as soon as it is asked for again. -/
theorem decay_charged_again : ¬∀ (s : System) (n : String) (ops : List Op) (earlier : List Rat) (last : Rat),
    (∀ op ∈ ops, op.idles n) → polls n ops = earlier ++ [last] → (earlier ++ [last]).Pairwise (· ≤ ·) →
      ((Trace.final step s ops).memory.scoreOf n).totalExperience =
        ((step s (.applyInactivityDecay n last)).2.memory.scoreOf n).totalExperience := by
  intro h
  have hagain := h earner "node" [.applyInactivityDecay "node" 604800, .applyInactivityDecay "node" 604800] [604800] 604800
    (by simp [Op.idles]) (by decide +kernel) (by decide +kernel)
  exact absurd hagain (by decide +kernel)

end PyxelVM.Karma
