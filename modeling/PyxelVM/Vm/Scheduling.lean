/-
  PyxelVM.Vm.Scheduling — which thread executes its cell when (`zdx_parallel_vm.py`).

  `Scheduling k` of a record is the law for the threads below `k` of the last visit and
  for all threads of the visits before it: a thread executes its cell unless it executed
  a HALT in an earlier visit of the frame, or an IF_A_EQ that failed in the visit before;
  the first JMP of a visit says where the next one is.

  - `scheduling_law`: it holds of every run, whatever the code, the initial state and
    the strict flag; only in a visit that raises do the threads after the one that raised
    not get their turn.
  - `suppresses`: a failed IF_A_EQ costs its thread one cell.
  - `raising_visit_unfinished`: in a visit that raises the law is not one of all threads.
-/

import Mathlib.Data.List.Pairwise
import PyxelVM.Vm.Visits

namespace PyxelVM.Vm

open PyxelVM.Lib

variable {n : Nat} {cfg : Config} {img : Raster} {m : Machine n} {s : Traced n}

/-- The column after `x`, by what the threads executed in visit `t`. -/
def NextColumn (cfg : Config) (img : Raster) (cells : List (Cell n)) (t x x' : Nat) : Prop :=
  (∃ c ∈ cells, c.t = t ∧ c.Jumps cfg img ∧ (∀ d ∈ cells, d.t = t → d.Jumps cfg img → c.y ≤ d.y) ∧ x' = c.p.g.toNat) ∨
    ((∀ c ∈ cells, c.t = t → ¬c.Jumps cfg img) ∧ x' = x + 1)

/-- The scheduling law of a record, with the turns of the last visit up to thread `k`'s. -/
structure Scheduling (cfg : Config) (img : Raster) (k : Nat) (s : Traced n) : Prop where
  executes : ∀ t < s.visits.length, ∀ y : Fin n, y < img.height → (t + 1 = s.visits.length → y < k) →
    (Executes s.cells t y ↔ ¬HaltedBefore cfg s.cells t y ∧ ¬FailedBefore cfg s.cells t y)
  /-- Of a thread that has a row, and in the column of the visit. -/
  own : ∀ c ∈ s.cells, c.y < img.height ∧ ∃ f, s.visits[c.t]? = some f ∧ c.before.x = f.x ∧ c.p = img.px c.y f.x
  ascending : s.cells.Pairwise fun c d => c.t < d.t ∨ c.t = d.t ∧ c.y < d.y
  next : ∀ t f g, s.visits[t]? = some f → s.visits[t + 1]? = some g → NextColumn cfg img s.cells t f.x g.x
  suppresses : ∀ c ∈ s.cells, c.Fails cfg → ¬Executes s.cells (c.t + 1) c.y ∧
    (c.t + 2 < s.visits.length → (c.t + 3 = s.visits.length → c.y < k) → Executes s.cells (c.t + 2) c.y)
  fixed : ∀ c ∈ s.cells, c.Halts cfg → ∀ t f, c.t < t → (s.visits ++ [s.frame])[t]? = some f → f.registers c.y = c.left

/-- Where the last visit goes on to. -/
def LastColumn (cfg : Config) (img : Raster) (s : Traced n) : Prop :=
  ∀ t f, t + 1 = s.visits.length → s.visits[t]? = some f → NextColumn cfg img s.cells t f.x s.frame.x

/-- In the order of the record, the first JMP of a visit is that of its lowest thread. -/
theorem nextColumn_firstJump {cells : List (Cell n)} (h : cells.Pairwise fun c d => Past d.t d.y c.t c.y) (t x : Nat) :
    NextColumn cfg img cells t x ((firstJump cfg img cells t).getD (x + 1)) := by
  unfold firstJump
  cases hf : cells.find? fun c => decide (c.t = t ∧ c.Jumps cfg img) with
  | none =>
    refine .inr ⟨fun c hc ht hj => ?_, rfl⟩
    have := List.find?_eq_none.mp hf c hc
    simp [ht, hj] at this
  | some c =>
    obtain ⟨hc, as, bs, rfl, has⟩ := List.find?_eq_some_iff_append.mp hf
    simp only [decide_eq_true_eq] at hc
    refine .inl ⟨c, by simp, hc.1, hc.2, fun d hd ht hj => ?_, rfl⟩
    rcases List.mem_append.mp hd with hd | hd
    · have := has d hd
      simp [ht, hj] at this
    rcases List.mem_cons.mp hd with rfl | hd
    · exact Nat.le_refl _
    · obtain ⟨-, hpair, -⟩ := List.pairwise_append.mp h
      rcases (List.pairwise_cons.mp hpair).1 d hd with hlt | ⟨-, hlt⟩
      · omega
      · exact Nat.le_of_lt hlt

/-- A thread executes at most one cell in a visit. -/
theorem Upto.unique {t k : Nat} (h : Upto cfg img m t k s) {c d : Cell n} (hc : c ∈ s.cells) (hd : d ∈ s.cells) (ht : c.t = d.t)
    (hy : c.y = d.y) : c = d := by
  have hapart : s.cells.Pairwise fun c d => ¬(c.t = d.t ∧ c.y = d.y) := h.ascending.imp fun {c d} hp e => by
    rcases hp with hp | ⟨-, hp⟩
    · omega
    · rw [e.2] at hp
      exact Nat.lt_irrefl _ hp
  have hsymm : Std.Symm fun c d : Cell n => ¬(c.t = d.t ∧ c.y = d.y) := ⟨fun _ _ h e => h ⟨e.1.symm, e.2.symm⟩⟩
  by_contra hne
  exact hapart.forall hc hd hne ⟨ht, hy⟩

theorem Upto.suppresses {t k : Nat} (h : Upto cfg img m t k s) {c : Cell n} (hc : c ∈ s.cells) (hf : c.Fails cfg) :
    ¬Executes s.cells (c.t + 1) c.y ∧ (Past t k (c.t + 2) c.y → Executes s.cells (c.t + 2) c.y) := by
  have hy := (h.inside c hc).1
  have hno : ¬Executes s.cells (c.t + 1) c.y := by
    intro he
    obtain ⟨d, hd, hdy, hdt⟩ := he
    have hpast : Past t k (c.t + 1) c.y := by
      have := h.past d hd
      rwa [hdt, hdy] at this
    exact ((h.executed (c.t + 1) c.y hy hpast).mp ⟨d, hd, hdy, hdt⟩).2 ⟨c, hc, rfl, rfl, hf⟩
  refine ⟨hno, fun hpast => (h.executed (c.t + 2) c.y hy hpast).mpr ⟨?_, ?_⟩⟩
  · intro he
    obtain ⟨d, hd, hdy, hdt, hh⟩ := he
    rcases Nat.lt_trichotomy d.t c.t with hlt | heq | hgt
    · exact ((h.executed c.t c.y hy (h.past c hc)).mp ⟨c, hc, rfl, rfl⟩).1 ⟨d, hd, hdy, hlt, hh⟩
    · obtain rfl := h.unique hd hc heq hdy
      rw [Cell.Halts, hf.1] at hh
      cases hh
    · exact hno ⟨d, hd, hdy, by omega⟩
  · intro he
    obtain ⟨d, hd, hdy, hdt, -⟩ := he
    exact hno ⟨d, hd, hdy, by omega⟩

/-- The law, when the threads of the last visit up to `k` have had their turn. -/
theorem Upto.scheduling {t k l : Nat} (h : Upto cfg img m t k s)
    (hpast : ∀ t' y, t' < s.visits.length → (t' + 1 = s.visits.length → y < l) → Past t k t' y)
    (hnext : ∀ t', t' + 1 < s.visits.length → t' < t) : Scheduling cfg img l s where
  executes t' ht y hy hlast := h.executed t' y hy (hpast t' y ht hlast)
  own := h.inside
  ascending := h.ascending
  next t' f g hf hg := by
    have hlt := (List.getElem?_eq_some_iff.mp hg).1
    have hcol := h.next t' (hnext t' hlt) f hf
    rw [Traced.frames, List.getElem?_append_left hlt, hg] at hcol
    have hx : g.x = (firstJump cfg img s.cells t').getD (f.x + 1) := Option.some.inj hcol
    rw [hx]
    exact nextColumn_firstJump h.ascending t' f.x
  suppresses c hc hf := (h.suppresses hc hf).imp_right fun hex ht hlast => hex (hpast _ _ ht fun e => hlast (by omega))
  fixed := h.fixed

theorem Between.scheduling (h : Between cfg img m s) : Scheduling cfg img n s :=
  Upto.scheduling h (fun _ _ ht _ => .inl ht) fun _ ht => by omega

theorem Between.lastColumn (h : Between cfg img m s) : LastColumn cfg img s := by
  intro t f ht hf
  have hcol := h.next t (by omega) f hf
  rw [ht, frames_last] at hcol
  have hx : s.frame.x = (firstJump cfg img s.cells t).getD (f.x + 1) := Option.some.inj hcol
  rw [hx]
  exact nextColumn_firstJump h.ascending t f.x

/-- How the law ends with a run: all threads have had their turn in every visit, or
    strict mode stopped the last visit at the cell executed last. -/
structure Stopped (cfg : Config) (img : Raster) (s : Traced n) (c : Cell n) : Prop where
  strict : cfg.strictMode = true
  last : s.cells.getLast? = some c
  visit : c.t + 1 = s.visits.length
  scheduling : Scheduling cfg img (c.y + 1) s
  unreached : ∀ y, c.y < y → ¬Executes s.cells c.t y

theorem Refused.stopped {e : Raised} {c : Cell n} (h : Refused cfg img m e s c) : Stopped cfg img s c where
  strict := h.strict
  last := h.last
  visit := h.within.visits.symm
  scheduling := by
    refine h.within.toUpto.scheduling (fun t' y ht hlast => ?_) fun t' ht => ?_
    · rw [h.within.visits] at ht hlast
      rcases Nat.lt_succ_iff_lt_or_eq.mp ht with ht | ht
      · exact .inl ht
      · exact .inr ⟨ht, hlast (congrArg (· + 1) ht)⟩
    · rw [h.within.visits] at ht
      omega
  unreached := by
    intro y hy he
    obtain ⟨d, hd, rfl, hdt⟩ := he
    rcases h.within.past d hd with hp | ⟨-, hp⟩
    · omega
    · exact absurd hp (by omega)

/-- The scheduling law of one frame. -/
theorem scheduling_law (cfg : Config) (path : String) (img : Raster) (m : Machine n) :
    (traceFrame cfg path img m).map Traced.machine = runFrame cfg path img m ∧
      (traceFrame cfg path img m).Ends (fun s => Scheduling cfg img n s ∧ LastColumn cfg img s)
        fun e s => (e.kind = .runtimeError ∧ Scheduling cfg img n s ∧ LastColumn cfg img s) ∨
          (e.kind = .valueError ∧ ∃ c, Stopped cfg img s c) := by
  refine ⟨traceFrame_machine cfg path img m, (traceFrame_ends cfg path img m).imp ?_ ?_⟩
  · intro s h
    obtain ⟨hb, -⟩ := h
    exact ⟨hb.scheduling, hb.lastColumn⟩
  · intro e s h
    rcases h with ⟨c, hc⟩ | ⟨rfl, hb, -⟩
    · exact .inr ⟨hc.kind, c, hc.stopped⟩
    · exact .inl ⟨rfl, hb.scheduling, hb.lastColumn⟩

/-- One column: the first thread's cell has an R that no map has, the second's is a SET_REG. -/
def unknownFirst : Raster := ⟨1, 2, fun y _ => if y = 0 then ⟨1, 0, 0⟩ else ⟨10, 0, 7⟩⟩

/-- In strict mode the second thread has not halted, and has nothing to skip, but does not execute. -/
theorem raising_visit_unfinished :
    ¬∀ (cfg : Config) (path : String) (img : Raster) (m : Machine 2), Scheduling cfg img 2 (traceFrame cfg path img m).state := by
  intro h
  have hlaw := (h { strictMode := true } "frame.png" unknownFirst {}).executes 0 (by decide +kernel) 1 (by decide) (by decide)
  exact absurd (hlaw.mpr (by decide +kernel)) (by decide +kernel)

end PyxelVM.Vm
