/-
  PyxelVM.Vm.Termination — how a frame's run ends (`zdx_parallel_vm.py`).

  Without strict mode it ends past the last column or at `max_col_steps`, having read
  nothing outside the frame (`frame_terminates`); where no JMP goes back it visits a
  column at most once and does not come to the cap.

  The cap does not ask who has halted. Halted threads go on column by column, so that a
  run may be stopped that has nothing to do any more (`halted_frame_capped`): it is not
  exactly if, from the visit in which the last scheduled thread halts, the columns left
  are no more than the visits left (`cap_spares_iff`).
-/

import PyxelVM.Vm.Dicts
import PyxelVM.Vm.Visits

namespace PyxelVM.Vm

open PyxelVM.Lib

variable {n : Nat} {cfg : Config} {img : Raster} {m : Machine n} {s : Traced n}

/-! ## Bounds -/

/-- The pixels that executing the cell reads, by row and column. -/
def Cell.reads (cfg : Config) (img : Raster) (c : Cell n) : List (Int × Int) :=
  (c.y, c.before.x) :: if c.op cfg = some .verifyFreq then [(c.y, img.width - 1 - c.before.x)] else []

theorem Upto.reads_inside {t k : Nat} (h : Upto cfg img m t k s) {c : Cell n} (hc : c ∈ s.cells) {q : Int × Int}
    (hq : q ∈ c.reads cfg img) : 0 ≤ q.1 ∧ q.1 < img.height ∧ 0 ≤ q.2 ∧ q.2 < img.width := by
  obtain ⟨hy, f, hf, hx, -⟩ := h.inside c hc
  have hlt : c.before.x < img.width := hx ▸ h.columns f (List.mem_of_getElem? hf)
  rcases List.mem_cons.mp hq with rfl | hq
  · refine ⟨?_, ?_, ?_, ?_⟩ <;> simp <;> omega
  · split at hq
    · rw [List.mem_singleton.mp hq]
      refine ⟨?_, ?_, ?_, ?_⟩ <;> simp <;> omega
    · cases hq

/-- How a run ends without strict mode. -/
structure Terminates (cfg : Config) (path : String) (img : Raster) (m : Machine n) (s : Traced n) : Prop where
  ends : traceFrame cfg path img m =
    if s.visits.length = cfg.maxColSteps ∧ s.frame.x < img.width then
      .raised (.maxColSteps cfg.maxColSteps path s.frame.x img.width) s
    else .done s
  machine : (traceFrame cfg path img m).map Traced.machine = runFrame cfg path img m
  bounded : s.visits.length ≤ cfg.maxColSteps
  reads : ∀ c ∈ s.cells, ∀ q ∈ c.reads cfg img, 0 ≤ q.1 ∧ q.1 < img.height ∧ 0 ≤ q.2 ∧ q.2 < img.width
  /-- With the registers and slots in dicts, none is asked for that is not there. -/
  registers : ∀ name t, dictRunFrame cfg path img m.view ≠ .raised (.key name) t

/-- Every JMP cell of a scheduled row has its target to the right of it. -/
def Forward (cfg : Config) (img : Raster) (n : Nat) : Prop :=
  ∀ y < n, y < img.height → ∀ x < img.width, cfg.opcode (img.px y x).r = some .jmp → x < (img.px y x).g.toNat

theorem Between.step_forward (h : Between cfg img m s) (hf : Forward cfg img n) {t : Nat} {f g : Frame n}
    (hv : s.visits[t]? = some f) (hg : s.frames[t + 1]? = some g) : f.x < g.x := by
  have hcol := h.next t (List.getElem?_eq_some_iff.mp hv).1 f hv
  rw [hg] at hcol
  have hx : g.x = (firstJump cfg img s.cells t).getD (f.x + 1) := Option.some.inj hcol
  unfold firstJump at hx
  cases hfind : s.cells.find? fun c => decide (c.t = t ∧ c.Jumps cfg img) with
  | none =>
    rw [hfind] at hx
    simp only [Option.map_none, Option.getD_none] at hx
    omega
  | some c =>
    rw [hfind] at hx
    simp only [Option.map_some, Option.getD_some] at hx
    have hc := List.find?_some hfind
    simp only [decide_eq_true_eq] at hc
    obtain ⟨rfl, hop, -⟩ := hc
    obtain ⟨hy, f', hf', -, hp⟩ := h.inside c (List.mem_of_find?_eq_some hfind)
    rw [hv] at hf'
    cases hf'
    rw [Cell.op, hp] at hop
    rw [hx, hp]
    exact hf c.y c.y.isLt hy f.x (h.columns f (List.mem_of_getElem? hv)) hop

/-- The columns grow, by one a visit at least. -/
theorem Between.forward (h : Between cfg img m s) (hf : Forward cfg img n) (d : Nat) {t : Nat} {f g : Frame n}
    (ht : s.frames[t]? = some f) (hg : s.frames[t + d]? = some g) : f.x + d ≤ g.x := by
  induction d generalizing g with
  | zero =>
    rw [Nat.add_zero, ht] at hg
    cases hg
    exact Nat.le_refl _
  | succ d ih =>
    have hlt : t + d < s.visits.length := by
      have := (List.getElem?_eq_some_iff.mp hg).1
      simp only [Traced.frames, List.length_append, List.length_singleton] at this
      omega
    have hv : s.frames[t + d]? = some s.visits[t + d] := by
      rw [Traced.frames, List.getElem?_append_left hlt, List.getElem?_eq_getElem hlt]
    have hle := ih hv
    have hstep := h.step_forward hf (List.getElem?_eq_getElem hlt) hg
    omega

theorem Between.visits_nodup (h : Between cfg img m s) (hf : Forward cfg img n) : (s.visits.map Frame.x).Nodup := by
  refine List.Pairwise.imp (R := (· < ·)) Nat.ne_of_lt (List.pairwise_iff_getElem.mpr fun i j hi hj hij => ?_)
  simp only [List.length_map] at hi hj
  have hat {i : Nat} (hi : i < s.visits.length) : s.frames[i]? = some s.visits[i] := by
    rw [Traced.frames, List.getElem?_append_left hi, List.getElem?_eq_getElem hi]
  have hle := h.forward hf (j - i) (hat hi) (by rw [Nat.add_sub_cancel' (Nat.le_of_lt hij)]; exact hat hj)
  simp only [List.getElem_map]
  omega

/-- A frame no wider than the cap is over before it. -/
theorem Between.not_capped (h : Between cfg img m s) (hf : Forward cfg img n) (hw : img.width ≤ cfg.maxColSteps)
    (hlen : s.visits.length = cfg.maxColSteps) (hx : s.frame.x < img.width) : False := by
  have hgrow := h.forward hf s.visits.length h.first (by rw [Nat.zero_add]; exact frames_last s)
  have hstart : m.enter.x = 0 := rfl
  omega

theorem registers_exist (cfg : Config) (path : String) (img : Raster) (m : Machine n) (name : String) (t : DictMachine n) :
    dictRunFrame cfg path img m.view ≠ .raised (.key name) t := by
  rw [runFrame_view]
  cases runFrame cfg path img m with
  | done s => simp [Outcome.lift]
  | raised e s => simp [Outcome.lift]

/-- Termination and bounds of a frame. -/
theorem frame_terminates (cfg : Config) (path : String) (img : Raster) (m : Machine n) (hs : cfg.strictMode = false) :
    ∃ s, Terminates cfg path img m s ∧
      (img.width ≤ cfg.maxColSteps → Forward cfg img n →
        traceFrame cfg path img m = .done s ∧ (s.visits.map Frame.x).Nodup) := by
  have hends := traceFrame_ends cfg path img m
  have hmachine := traceFrame_machine cfg path img m
  cases ho : traceFrame cfg path img m with
  | done s =>
    rw [ho] at hends
    obtain ⟨hb, hle, hx⟩ := hends
    refine ⟨s, ⟨?_, hmachine, hle, fun c hc q hq => hb.reads_inside hc hq, registers_exist cfg path img m⟩,
      fun _ hf => ⟨rfl, hb.visits_nodup hf⟩⟩
    rw [ho, if_neg fun e => Nat.not_lt.mpr hx e.2]
  | raised e s =>
    rw [ho] at hends
    rcases hends with ⟨c, hc⟩ | ⟨rfl, hb, hcap, hx⟩
    · have hstrict := hc.strict
      rw [hs] at hstrict
      cases hstrict
    refine ⟨s, ⟨?_, hmachine, Nat.le_of_eq hcap, fun c hc q hq => hb.reads_inside hc hq, registers_exist cfg path img m⟩,
      fun hw hf => ?_⟩
    · rw [ho, if_pos ⟨hcap, hx⟩]
    · exact (hb.not_capped hf hw hcap hx).elim

/-- Jumps to the right, over a HALT. -/
def jumpOver : Raster := ⟨3, 1, fun _ x => if x = 0 then ⟨70, 2, 0⟩ else ⟨255, 0, 0⟩⟩

theorem jump_over_terminates :
    ∃ s, Terminates {} "frame.png" jumpOver ({} : Machine 1) s ∧
      traceFrame {} "frame.png" jumpOver ({} : Machine 1) = .done s ∧ (s.visits.map Frame.x).Nodup := by
  obtain ⟨s, hs, hforward⟩ := frame_terminates {} "frame.png" jumpOver ({} : Machine 1) rfl
  exact ⟨s, hs, hforward (by decide) (by unfold Forward; decide +kernel)⟩

/-! ## The cap and the halted threads -/

/-- Every thread that has a row has halted. -/
def AllHalted (img : Raster) (f : Frame n) : Prop := ∀ y : Fin n, y < img.height → f.halted y = true

/-- The frame after `k` column visits, or fewer if the columns are over before. -/
def Machine.after (cfg : Config) (img : Raster) (m : Machine n) (k : Nat) : Outcome Raised (Frame n) :=
  repeatWhile (fun f => decide (f.x < img.width)) (column cfg img) k m.enter

/-- The last scheduled thread halts in the `k`-th visit, which leaves `f`; none is scheduled if `k` is 0. -/
structure LastHalt (cfg : Config) (img : Raster) (m : Machine n) (k : Nat) (f : Frame n) : Prop where
  run : m.after cfg img k = .done f
  all : AllHalted img f
  first : ∀ j < k, ∀ g, m.after cfg img j = .done g → ¬AllHalted img g

/-- A run in which every scheduled thread executes a HALT is not stopped by the cap. -/
def CapSpares (cfg : Config) (path : String) (img : Raster) (m : Machine n) : Prop :=
  (∀ y : Fin n, y < img.height → ∃ c ∈ (traceFrame cfg path img m).state.cells, c.y = y ∧ c.Halts cfg) →
    ∀ cap p x w m', runFrame cfg path img m ≠ .raised (.maxColSteps cap p x w) m'

theorem column_halted {f : Frame n} (h : AllHalted img f) :
    column cfg img f = .done { f with clock := f.x, jumpTo := none, x := f.x + 1 } := by
  obtain ⟨g, hg, rfl⟩ := forEach_keeps (P := fun g => g = { f with clock := f.x, jumpTo := none }) (f := visit cfg img)
    (List.finRange n) (fun y _ g hg => by
      refine ⟨g, ?_, hg⟩
      rw [visit, if_pos]
      rw [hg]
      rcases Nat.lt_or_ge y img.height with hy | hy
      · exact .inr (h y hy)
      · exact .inl hy) rfl
  rw [column, hg]
  rfl

/-- Halted threads go on by one column a visit. -/
theorem after_halted (cfg : Config) {f : Frame n} (h : AllHalted img f) (k : Nat) :
    ∃ g, repeatWhile (fun f => decide (f.x < img.width)) (column cfg img) k f = .done g ∧ AllHalted img g ∧
      g.x = max f.x (min img.width (f.x + k)) := by
  induction k generalizing f with
  | zero => exact ⟨f, rfl, h, by omega⟩
  | succ k ih =>
    simp only [repeatWhile]
    split
    · rename_i hx
      rw [column_halted h]
      obtain ⟨g, hg, hall, hgx⟩ := ih (f := { f with clock := f.x, jumpTo := none, x := f.x + 1 }) h
      refine ⟨g, hg, hall, ?_⟩
      simp only [decide_eq_true_eq] at hx
      rw [hgx]
      show max (f.x + 1) (min img.width (f.x + 1 + k)) = _
      omega
    · rename_i hx
      simp only [decide_eq_true_eq] at hx
      exact ⟨f, rfl, h, by omega⟩

/-- Where the whole run ends, from a visit after which all have halted. -/
theorem LastHalt.whole {k : Nat} {f : Frame n} (h : LastHalt cfg img m k f) (hk : k ≤ cfg.maxColSteps) :
    ∃ g, m.after cfg img cfg.maxColSteps = .done g ∧ AllHalted img g ∧
      g.x = max f.x (min img.width (f.x + (cfg.maxColSteps - k))) := by
  obtain ⟨g, hg, hall, hgx⟩ := after_halted cfg h.all (cfg.maxColSteps - k)
  refine ⟨g, ?_, hall, hgx⟩
  have hrun : repeatWhile (fun f => decide (f.x < img.width)) (column cfg img) k m.enter = .done f := h.run
  rw [Machine.after, ← Nat.add_sub_cancel' hk, repeatWhile_add, hrun]
  exact hg

/-- The record of a run whose visits do not raise. -/
theorem trace_of_after {g : Frame n} (h : m.after cfg img cfg.maxColSteps = .done g) (path : String) :
    ∃ s, (traceFrame cfg path img m).state = s ∧ s.frame = g ∧ Between cfg img m s := by
  have hends := traceLoop_ends cfg img cfg.maxColSteps m
  rw [Machine.after, traceLoop_frame] at h
  obtain ⟨s, hs, rfl⟩ := Outcome.map_eq_done h
  rw [hs] at hends
  refine ⟨s, ?_, rfl, hends.1⟩
  rw [traceFrame, hs, Outcome.bind_done]
  split <;> rfl

theorem runFrame_capped {g : Frame n} (h : m.after cfg img cfg.maxColSteps = .done g) (path : String) :
    runFrame cfg path img m =
      if g.x < img.width then .raised (.maxColSteps cfg.maxColSteps path g.x img.width) g.toMachine else .done g.toMachine := by
  rw [Machine.after] at h
  rw [runFrame, h, Outcome.bind_done]
  split <;> rfl

/-- All have halted at the end exactly if each has a HALT among the cells executed. -/
theorem allHalted_iff {g : Frame n} (h : m.after cfg img cfg.maxColSteps = .done g) (path : String) :
    AllHalted img g ↔
      ∀ y : Fin n, y < img.height → ∃ c ∈ (traceFrame cfg path img m).state.cells, c.y = y ∧ c.Halts cfg := by
  obtain ⟨s, hs, rfl, hb⟩ := trace_of_after h path
  rw [hs]
  exact forall₂_congr fun y _ => hb.halted y

/-- What strict mode raises is not the cap. -/
theorem after_of_capped {path p : String} {cap x w : Nat} {m' : Machine n}
    (h : runFrame cfg path img m = .raised (.maxColSteps cap p x w) m') : ∃ g, m.after cfg img cfg.maxColSteps = .done g := by
  rw [runFrame, traceLoop_frame] at h
  rw [Machine.after, traceLoop_frame]
  cases hloop : traceLoop cfg img cfg.maxColSteps m with
  | done s => exact ⟨s.frame, rfl⟩
  | raised e s =>
    have hends := traceLoop_ends cfg img cfg.maxColSteps m
    rw [hloop] at h hends
    obtain ⟨c, hc⟩ := hends
    cases h
    cases hc.kind

theorem exists_lastHalt {k : Nat} {g : Frame n} (h : m.after cfg img k = .done g) (hall : AllHalted img g) :
    ∃ j ≤ k, ∃ f, LastHalt cfg img m j f := by
  classical
  have hex : ∃ j f, m.after cfg img j = .done f ∧ AllHalted img f := ⟨k, g, h, hall⟩
  obtain ⟨f, hf, hfall⟩ := Nat.find_spec hex
  refine ⟨Nat.find hex, Nat.find_min' hex ⟨g, h, hall⟩, f, hf, hfall, fun j hj g' hg' hall' => ?_⟩
  exact Nat.find_min hex hj ⟨g', hg', hall'⟩

/-- The cap spares a run in which all halt exactly if, from the visit in which the last
    one halts, the columns left are no more than the visits left. -/
theorem cap_spares_iff (cfg : Config) (path : String) (img : Raster) (m : Machine n) :
    CapSpares cfg path img m ↔
      ∀ k ≤ cfg.maxColSteps, ∀ f, LastHalt cfg img m k f → img.width - f.x ≤ cfg.maxColSteps - k := by
  constructor
  · intro h k hk f hf
    by_contra hlt
    obtain ⟨g, hg, hall, hgx⟩ := hf.whole hk
    refine h ((allHalted_iff hg path).mp hall) _ _ _ _ _ ((runFrame_capped hg path).trans (if_pos ?_))
    omega
  · intro h hhalts cap p x w m' hrun
    obtain ⟨g, hg⟩ := after_of_capped hrun
    obtain ⟨k, hk, f, hf⟩ := exists_lastHalt hg ((allHalted_iff hg path).mpr hhalts)
    obtain ⟨g', hg', -, hgx⟩ := hf.whole hk
    cases hg.symm.trans hg'
    have hle := h k hk f hf
    rw [runFrame_capped hg] at hrun
    split at hrun
    · omega
    · cases hrun

/-- One thread halts in the first column of two, and the cap is one column. -/
def haltThenNop : Raster := ⟨2, 1, fun _ x => if x = 0 then ⟨255, 0, 0⟩ else .nop⟩

theorem halted_frame_capped : ¬∀ (cfg : Config) (path : String) (img : Raster) (m : Machine 1), CapSpares cfg path img m := by
  intro h
  have hhalts : ∀ y : Fin 1, (y : Nat) < haltThenNop.height →
      ∃ c ∈ (traceFrame { maxColSteps := 1 } "frame.png" haltThenNop ({} : Machine 1)).state.cells,
        c.y = y ∧ c.Halts { maxColSteps := 1 } := by
    decide +kernel
  have hraised : (runFrame { maxColSteps := 1 } "frame.png" haltThenNop ({} : Machine 1)).error? =
      some (.maxColSteps 1 "frame.png" 1 2) := by
    decide +kernel
  obtain ⟨m', hm'⟩ := Outcome.error?_eq_some.mp hraised
  exact h { maxColSteps := 1 } "frame.png" haltThenNop {} hhalts 1 "frame.png" 1 2 m' hm'

end PyxelVM.Vm
