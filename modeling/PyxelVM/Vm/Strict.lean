/-
  PyxelVM.Vm.Strict — strict mode only checks (`zdx_parallel_vm.py`).

  The strict run and the other step together until the first cell that strict mode
  refuses is executed (`Checked`). There the strict run stops, in the state in which the
  cell was come upon; the other goes on.

  - `dispatch_allowed`, `dispatch_refused`: one cell.
  - `visit_parts`, `column_parts`, `frame_parts`: the two runs part at most there.
  - `strict_pure_check`: when the strict run raises, and what it leaves.
-/

import PyxelVM.Vm.Visits

namespace PyxelVM.Vm

open PyxelVM.Lib

variable {n : Nat} {cfg : Config} {img : Raster}

/-- The same VM with `strict_mode` on or off. -/
def Config.withStrict (cfg : Config) (strict : Bool) : Config := { cfg with strictMode := strict }

/-! ## One cell -/

theorem dispatch_allowed {p : Pixel} (h : ¬Bad cfg p) (y x : Nat) (c : Core) :
    dispatch (cfg.withStrict true) img y x p c = dispatch (cfg.withStrict false) img y x p c := by
  have hop (b : Bool) : (cfg.withStrict b).opcode p.r = cfg.opcode p.r := rfl
  unfold dispatch
  rw [hop, hop]
  cases hr : cfg.opcode p.r with
  | none =>
    simp only
    rw [if_neg fun hz => h (.inl ⟨hr, hz⟩), if_neg fun hz => h (.inl ⟨hr, hz⟩)]
  | some op =>
    cases op with
    | loadMem =>
      cases hs : slot? p.g with
      | some s => rfl
      | none => exact absurd (.inr ⟨.inl hr, slot?_eq_none.mp hs⟩) h
    | storeMem =>
      cases hs : slot? p.g with
      | some s => rfl
      | none => exact absurd (.inr ⟨.inr hr, slot?_eq_none.mp hs⟩) h
    | _ => rfl

theorem dispatch_refused (img : Raster) {p : Pixel} (h : Bad cfg p) (y x : Nat) (c : Core) :
    ∃ e, e.kind = .valueError ∧ dispatch (cfg.withStrict true) img y x p c = .raised e c := by
  have hop : (cfg.withStrict true).opcode p.r = cfg.opcode p.r := rfl
  unfold dispatch
  rw [hop]
  rcases h with ⟨hr, hz⟩ | ⟨hr | hr, hg⟩
  · rw [hr]
    simp only [if_pos hz]
    exact ⟨_, rfl, rfl⟩
  · rw [hr]
    simp only [slot?_eq_none.mpr hg]
    exact ⟨_, rfl, rfl⟩
  · rw [hr]
    simp only [slot?_eq_none.mpr hg]
    exact ⟨_, rfl, rfl⟩

/-! ## The two runs -/

/-- No cell executed so far is refused. -/
def Allowed (cfg : Config) (s : Traced n) : Prop := ∀ c ∈ s.cells, ¬Bad cfg c.p

/-- The first has stopped at the first cell that is refused; the second executed it too. -/
structure Checked (cfg : Config) (e : Raised) (s t : Traced n) : Prop where
  kind : e.kind = .valueError
  cell : ∃ before c, s.cells = before ++ [c] ∧ (∀ d ∈ before, ¬Bad cfg d.p) ∧ Bad cfg c.p ∧ s.frame = c.before.tick c.y
  further : s.cells <+: t.cells

theorem Checked.mono {e : Raised} {s t u : Traced n} (h : Checked cfg e s t) (hu : t.cells <+: u.cells) : Checked cfg e s u :=
  ⟨h.kind, h.cell, h.further.trans hu⟩

/-- A turn without a cell does not depend on the map or on strict mode. -/
theorem visit_no_cell (cfg cfg' : Config) {y : Fin n} {f : Frame n} (h : f.cell? img y = none) :
    visit cfg img y f = visit cfg' img y f := by
  unfold visit
  split
  · rfl
  split
  · rfl
  · rename_i hidle hskip
    rw [Frame.cell?, if_neg fun e => (or_assoc.mpr e).elim hidle hskip] at h
    rw [h]

theorem tracedVisit_extends (cfg : Config) (img : Raster) (y : Fin n) (s : Traced n) :
    s.cells <+: (tracedVisit cfg img y s).state.cells := by
  rw [tracedVisit, Outcome.state_map]
  exact List.prefix_append _ _

theorem visit_parts (y : Fin n) {s : Traced n} (hs : Allowed cfg s) :
    Outcome.Parts (Allowed cfg) (Checked cfg) (tracedVisit (cfg.withStrict true) img y s)
      (tracedVisit (cfg.withStrict false) img y s) := by
  cases hc : s.frame.cell? img y with
  | none =>
    have hsame : tracedVisit (cfg.withStrict true) img y s = tracedVisit (cfg.withStrict false) img y s := by
      rw [tracedVisit, tracedVisit, visit_no_cell (cfg.withStrict true) (cfg.withStrict false) hc]
    rw [hsame]
    refine .same ?_
    rw [tracedVisit, Outcome.state_map, Traced.next, hc]
    simpa [Allowed] using hs
  | some p =>
    have hnext : s.next img y = some ⟨s.visits.length - 1, y, p, s.frame⟩ := by rw [Traced.next, hc]; rfl
    by_cases hbad : Bad cfg p
    · obtain ⟨e, hkind, he⟩ := dispatch_refused img hbad y s.frame.x ((s.frame.tick y).core y)
      have hstrict : tracedVisit (cfg.withStrict true) img y s =
          .raised e { s with frame := s.frame.tick y, cells := s.cells ++ [⟨s.visits.length - 1, y, p, s.frame⟩] } := by
        rw [tracedVisit, visit_cell _ hc, he, hnext, Outcome.map_raised, withCore_core]
        rfl
      rw [hstrict]
      refine .stopped ⟨hkind, ⟨s.cells, _, rfl, hs, hbad, rfl⟩, ?_⟩
      rw [tracedVisit, Outcome.state_map, hnext]
      exact List.prefix_refl _
    · have hsame : tracedVisit (cfg.withStrict true) img y s = tracedVisit (cfg.withStrict false) img y s := by
        rw [tracedVisit, tracedVisit, visit_cell _ hc, visit_cell _ hc, dispatch_allowed hbad]
      rw [hsame]
      refine .same ?_
      rw [tracedVisit, Outcome.state_map, hnext]
      intro c hc
      rcases List.mem_append.mp hc with hc | hc
      · exact hs c hc
      · rw [List.mem_singleton.mp hc]
        exact hbad

theorem column_extends (cfg : Config) (img : Raster) (s : Traced n) : s.cells <+: (tracedColumn cfg img s).state.cells := by
  refine Outcome.state_bind (P := fun t : Traced n => s.cells <+: t.cells) ?_ fun _ h => h
  exact forEach_state (P := fun t : Traced n => s.cells <+: t.cells) _
    (fun y _ t ht => ht.trans (tracedVisit_extends cfg img y t)) (List.prefix_refl _)

theorem column_parts {s : Traced n} (hs : Allowed cfg s) :
    Outcome.Parts (Allowed cfg) (Checked cfg) (tracedColumn (cfg.withStrict true) img s)
      (tracedColumn (cfg.withStrict false) img s) := by
  refine Outcome.Parts.bind (forEach_parts _ (fun y _ t ht => visit_parts y ht) (fun y _ e t u h => ?_) (s := s.begin) hs)
    (fun t ht => .same ht) fun e t u h => ⟨h.kind, h.cell, h.further⟩
  exact h.mono (tracedVisit_extends _ img y u)

theorem frame_parts (cfg : Config) (path : String) (img : Raster) (m : Machine n) :
    Outcome.Parts (Allowed cfg) (Checked cfg) (traceFrame (cfg.withStrict true) path img m)
      (traceFrame (cfg.withStrict false) path img m) := by
  have hloop : Outcome.Parts (Allowed cfg) (Checked cfg) (traceLoop (cfg.withStrict true) img cfg.maxColSteps m)
      (traceLoop (cfg.withStrict false) img cfg.maxColSteps m) :=
    repeatWhile_parts (fun s hs _ => column_parts hs) (fun e s t h => h.mono (column_extends _ img t)) _
      (s := m.record) fun _ hc => nomatch hc
  refine hloop.bind (fun s hs => ?_) fun e s t h => ?_
  · -- the cap is that of both
    show Outcome.Parts _ _ (if s.frame.x < img.width then _ else _) (if s.frame.x < img.width then _ else _)
    split
    · exact .same hs
    · exact .same hs
  · split
    · exact h
    · exact h

/-! ## The check -/

/-- What the strict run is beside the other, whose record is `s`. -/
structure PureCheck (cfg : Config) (path : String) (img : Raster) (m : Machine n) (s : Traced n) : Prop where
  record : (traceFrame (cfg.withStrict false) path img m).map Traced.machine = runFrame (cfg.withStrict false) path img m
  raises : (∃ e m', runFrame (cfg.withStrict true) path img m = .raised e m' ∧ e.kind = .valueError) ↔
    ∃ c ∈ s.cells, Bad cfg c.p
  same : (∀ c ∈ s.cells, ¬Bad cfg c.p) →
    runFrame (cfg.withStrict true) path img m = runFrame (cfg.withStrict false) path img m
  /-- At the first cell refused, but for the T of its thread, which is set before the cell is looked at. -/
  stops : ∀ c, s.cells.find? (fun c => decide (Bad cfg c.p)) = some c →
    ∃ e, e.kind = .valueError ∧ runFrame (cfg.withStrict true) path img m = .raised e (c.before.tick c.y).toMachine

/-- The first has stopped at the first refused of the cells that the second executes. -/
theorem Checked.first {e : Raised} {s t : Traced n} (h : Checked cfg e s t) :
    ∃ c, t.cells.find? (fun c => decide (Bad cfg c.p)) = some c ∧ s.frame = c.before.tick c.y := by
  obtain ⟨before, c, hcells, hbefore, hbad, hframe⟩ := h.cell
  obtain ⟨after, hafter⟩ := h.further
  have hnone : before.find? (fun c => decide (Bad cfg c.p)) = none := by
    rw [List.find?_eq_none]
    intro d hd
    simpa using hbefore d hd
  refine ⟨c, ?_, hframe⟩
  rw [← hafter, hcells, List.append_assoc, List.find?_append, hnone, Option.none_or, List.singleton_append,
    List.find?_cons_of_pos (by simpa using hbad)]

/-- Without strict mode a frame raises nothing but its cap. -/
theorem not_valueError {path : String} {m m' : Machine n} {e : Raised}
    (h : runFrame (cfg.withStrict false) path img m = .raised e m') : e.kind ≠ .valueError := by
  have hends := traceFrame_ends (cfg.withStrict false) path img m
  have hmachine := (traceFrame_machine (cfg.withStrict false) path img m).trans h
  cases ho : traceFrame (cfg.withStrict false) path img m with
  | done s =>
    rw [ho] at hmachine
    cases hmachine
  | raised e' s =>
    rw [ho] at hmachine hends
    cases hmachine
    rcases hends with ⟨c, hc⟩ | ⟨hkind, -⟩
    · cases hc.strict
    · rw [hkind]
      exact ExceptionKind.noConfusion

/-- Strict mode is a pure check. -/
theorem strict_pure_check (cfg : Config) (path : String) (img : Raster) (m : Machine n) :
    PureCheck cfg path img m (traceFrame (cfg.withStrict false) path img m).state := by
  have hstrict := traceFrame_machine (cfg.withStrict true) path img m
  have hlenient := traceFrame_machine (cfg.withStrict false) path img m
  have hparts := frame_parts cfg path img m
  generalize traceFrame (cfg.withStrict true) path img m = o at hstrict hparts
  generalize hp : traceFrame (cfg.withStrict false) path img m = p at hlenient hparts
  cases hparts with
  | same hall =>
    have hsame : runFrame (cfg.withStrict true) path img m = runFrame (cfg.withStrict false) path img m :=
      hstrict.symm.trans hlenient
    refine ⟨hp ▸ hlenient, ⟨?_, ?_⟩, fun _ => hsame, ?_⟩
    · intro he
      obtain ⟨e, m', hrun, hkind⟩ := he
      exact absurd hkind (not_valueError (hsame.symm.trans hrun))
    · intro he
      obtain ⟨c, hc, hbad⟩ := he
      exact absurd hbad (hall c hc)
    · intro c hc
      have hbad := List.find?_some hc
      exact absurd (by simpa using hbad) (hall c (List.mem_of_find?_eq_some hc))
  | @stopped e s _ h =>
    obtain ⟨c, hfind, hframe⟩ := h.first
    have hmem := List.mem_of_find?_eq_some hfind
    have hbad : Bad cfg c.p := by simpa using List.find?_some hfind
    have hrun : runFrame (cfg.withStrict true) path img m = .raised e (c.before.tick c.y).toMachine := by
      rw [← hstrict, ← hframe]
      rfl
    refine ⟨hp ▸ hlenient, ⟨fun _ => ⟨c, hmem, hbad⟩, fun _ => ⟨e, _, hrun, h.kind⟩⟩,
      fun hall => absurd hbad (hall c hmem), ?_⟩
    intro d hd
    cases hfind.symm.trans hd
    exact ⟨e, h.kind, hrun⟩

end PyxelVM.Vm
