/-
  PyxelVM.Lib.FixedWindow — a rate limiter that counts in fixed windows.

  A window is where it began and how much it has counted. A request more than `width`
  after the beginning opens the next one; it is admitted while the count is within
  `limit`. An `Arrival` is a request's clock reading and the time it is served if it is
  admitted, which is before the next one's reading (`Clocked`).

  - `admitted_le`: an interval no longer than a window meets two windows at most, so no
    more than twice the limit is served in it.
-/

import Mathlib.Algebra.Order.Group.Defs
import Mathlib.Data.List.Count
import Mathlib.Tactic.Abel

namespace PyxelVM.Lib

variable {K : Type} [LinearOrder K]

structure FixedWindow (K : Type) where
  start : K
  count : Nat

structure Arrival (K : Type) where
  now : K
  servedAt : K

namespace FixedWindow

/-- Every request is read before it is served, and served before the next one is read. -/
def Clocked (as : List (Arrival K)) : Prop :=
  (∀ a ∈ as, a.now ≤ a.servedAt) ∧ as.Pairwise fun a b => a.servedAt ≤ b.now

variable {a : Arrival K} {as : List (Arrival K)}

theorem Clocked.tail (h : Clocked (a :: as)) : Clocked as :=
  ⟨fun b hb => h.1 b (List.mem_cons_of_mem _ hb), (List.pairwise_cons.mp h.2).2⟩

theorem Clocked.head (h : Clocked (a :: as)) : a.now ≤ a.servedAt := h.1 a (List.mem_cons_self ..)

theorem Clocked.later (h : Clocked (a :: as)) : ∀ b ∈ as, a.servedAt ≤ b.now := (List.pairwise_cons.mp h.2).1

/-! ## Counting -/

section

variable [AddCommGroup K]

/-- The window after a request at `now`. -/
def tick (width : K) (w : FixedWindow K) (now : K) : FixedWindow K :=
  if width < now - w.start then ⟨now, 1⟩ else ⟨w.start, w.count + 1⟩

/-- When the admitted requests are served. -/
def admitted (width : K) (limit : Nat) : FixedWindow K → List (Arrival K) → List K
  | _, [] => []
  | w, a :: as =>
    let w' := w.tick width a.now
    if w'.count ≤ limit then a.servedAt :: admitted width limit w' as else admitted width limit w' as

/-- How much is served from `t` on, and before the length of a window has passed. -/
def servedIn (width t : K) (served : List K) : Nat := served.countP fun x => decide (t ≤ x ∧ x < t + width)

variable {width t : K} {limit : Nat} {w : FixedWindow K}

theorem mem_admitted {w : FixedWindow K} {x : K} (h : x ∈ admitted width limit w as) : ∃ a ∈ as, x = a.servedAt := by
  induction as generalizing w with
  | nil => cases h
  | cons a as ih =>
    rw [admitted] at h
    split at h
    · rcases List.mem_cons.mp h with rfl | h
      · exact ⟨a, List.mem_cons_self .., rfl⟩
      · obtain ⟨b, hb, e⟩ := ih h
        exact ⟨b, List.mem_cons_of_mem _ hb, e⟩
    · obtain ⟨b, hb, e⟩ := ih h
      exact ⟨b, List.mem_cons_of_mem _ hb, e⟩

theorem servedIn_cons (x : K) (xs : List K) :
    servedIn width t (x :: xs) = servedIn width t xs + if t ≤ x ∧ x < t + width then 1 else 0 := by
  simp [servedIn, List.countP_cons]

theorem servedIn_cons_le (width t x : K) (xs : List K) : servedIn width t (x :: xs) ≤ servedIn width t xs + 1 := by
  rw [servedIn_cons]
  split <;> omega

/-- A request is one more at most, and none if its window is full. -/
theorem servedIn_admitted_cons (width t : K) (limit : Nat) (w : FixedWindow K) (a : Arrival K) (as : List (Arrival K)) :
    ((w.tick width a.now).count ≤ limit ∧ servedIn width t (admitted width limit w (a :: as)) ≤
        servedIn width t (admitted width limit (w.tick width a.now) as) + 1) ∨
      limit < (w.tick width a.now).count ∧ servedIn width t (admitted width limit w (a :: as)) =
        servedIn width t (admitted width limit (w.tick width a.now) as) := by
  rw [admitted]
  split
  · exact .inl ⟨‹_›, servedIn_cons_le width t a.servedAt _⟩
  · exact .inr ⟨Nat.lt_of_not_le ‹_›, rfl⟩

theorem one_le_tick (width : K) (w : FixedWindow K) (now : K) : 1 ≤ (w.tick width now).count := by
  unfold tick
  split
  · exact le_refl 1
  · exact Nat.le_add_left ..

/-! ## The bound -/

/-- Nothing that is read after the interval is served in it. -/
theorem servedIn_after (h : ∀ a ∈ as, t + width ≤ a.now) (hc : Clocked as) (w : FixedWindow K) :
    servedIn width t (admitted width limit w as) = 0 := by
  rw [servedIn, List.countP_eq_zero]
  intro x hx
  obtain ⟨a, ha, rfl⟩ := mem_admitted hx
  have hserved : t + width ≤ a.servedAt := (h a ha).trans (hc.1 a ha)
  simpa using fun _ => hserved

variable [IsOrderedAddMonoid K]

/-- Of a window that began in the interval, what is left of its limit: the next one begins after it. -/
theorem servedIn_window (width : K) (limit : Nat) (hc : Clocked as) (hw : t ≤ w.start) :
    servedIn width t (admitted width limit w as) ≤ limit - w.count := by
  induction as generalizing w with
  | nil => exact Nat.zero_le _
  | cons a as ih =>
    by_cases hnext : width < a.now - w.start
    · have hafter : t + width ≤ a.now := by
        have hlt : w.start + width < a.now := lt_sub_iff_add_lt'.mp hnext
        exact (add_le_add_left hw width).trans hlt.le
      rw [servedIn_after (List.forall_mem_cons.mpr ⟨hafter, fun b hb => ?_⟩) hc]
      · exact Nat.zero_le _
      · exact hafter.trans (hc.head.trans (hc.later b hb))
    · have htick : w.tick width a.now = ⟨w.start, w.count + 1⟩ := if_neg hnext
      have hrest := ih (w := ⟨w.start, w.count + 1⟩) hc.tail hw
      have hcons := servedIn_admitted_cons width t limit w a as
      rw [htick] at hcons
      dsimp only at hrest hcons
      omega

/-- Of requests read in the interval, what is left of the window they find and one window more. -/
theorem servedIn_inside (width : K) (limit : Nat) (hc : Clocked as) (hin : ∀ a ∈ as, t ≤ a.now) :
    servedIn width t (admitted width limit w as) ≤ (limit - w.count) + limit := by
  induction as generalizing w with
  | nil => exact Nat.zero_le _
  | cons a as ih =>
    obtain ⟨ha, has⟩ := List.forall_mem_cons.mp hin
    have hcons := servedIn_admitted_cons width t limit w a as
    by_cases hnext : width < a.now - w.start
    · have htick : w.tick width a.now = ⟨a.now, 1⟩ := if_pos hnext
      have hrest := servedIn_window width limit (w := ⟨a.now, 1⟩) hc.tail ha
      rw [htick] at hcons
      dsimp only at hrest hcons
      omega
    · have htick : w.tick width a.now = ⟨w.start, w.count + 1⟩ := if_neg hnext
      have hrest := ih (w := ⟨w.start, w.count + 1⟩) hc.tail has
      rw [htick] at hcons
      dsimp only at hrest hcons
      omega

/-- No interval of a window's length has more than twice the limit. -/
theorem admitted_le (hc : Clocked as) (w : FixedWindow K) (t : K) :
    servedIn width t (admitted width limit w as) ≤ 2 * limit := by
  induction as generalizing w with
  | nil => exact Nat.zero_le _
  | cons a as ih =>
    rw [admitted]
    split
    · rename_i hadmit
      by_cases ht : t ≤ a.servedAt
      · -- the requests after this one are read in the interval
        have hrest := servedIn_inside width limit (w := w.tick width a.now) hc.tail fun b hb => ht.trans (hc.later b hb)
        have hcons := servedIn_cons_le width t a.servedAt (admitted width limit (w.tick width a.now) as)
        have hcount := one_le_tick width w a.now
        omega
      · rw [servedIn_cons, if_neg fun h => ht h.1]
        exact ih hc.tail _
    · exact ih hc.tail _

end

end FixedWindow

end PyxelVM.Lib
