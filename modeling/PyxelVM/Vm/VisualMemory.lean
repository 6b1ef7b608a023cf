/-
  PyxelVM.Vm.VisualMemory — `VisualMemoryManager` (`zdx_parallel_vm.py`).

  `update_decay` goes over the frames twice: it counts a turn for every frame whose
  effective score, the score over the root of its turns, is at least 0.5, and then prunes
  the others one by one. The file system is any (`Os`); where `os.remove` raises, the frames
  that were to be pruned after it stay for this time. The root is the exact one.

  - `decays_on_time`: a frame of score `s` survives `4 * s * s` calls, whatever other frames
    there are and whatever is raised, and not the next one that returns.
  - `undeletable_frame_spares`: a frame that cannot be deleted saves those behind it.
-/

import Mathlib.Analysis.Real.Sqrt
import Mathlib.Data.List.Induction
import Mathlib.Tactic.Linarith
import Mathlib.Tactic.Ring
import PyxelVM.Lib.Dict
import PyxelVM.Lib.Exec

namespace PyxelVM.Vm

open PyxelVM.Lib

structure FrameMeta where
  score : Int
  turns : Nat := 0
  deriving DecidableEq

noncomputable def FrameMeta.effectiveScore (m : FrameMeta) : ℝ := m.score / √(m.turns + 1)

/-- `effective_score < 0.5`. -/
def FrameMeta.Fades (m : FrameMeta) : Prop := m.effectiveScore < 0.5

/-- How many calls a frame of this score survives. -/
def lifetime (score : Int) : Nat := 4 * score.toNat * score.toNat

/-- The test in whole numbers. -/
theorem fades_iff (m : FrameMeta) : m.Fades ↔ lifetime m.score ≤ m.turns := by
  obtain ⟨s, t⟩ := m
  have hroot : (0 : ℝ) < √((t : ℝ) + 1) := Real.sqrt_pos.mpr (by positivity)
  have hquotient : (s : ℝ) / √((t : ℝ) + 1) < 0.5 ↔ 2 * (s : ℝ) < √((t : ℝ) + 1) := by
    rw [div_lt_iff₀ hroot]
    constructor
    · intro h
      linarith
    · intro h
      linarith
  show (s : ℝ) / √((t : ℝ) + 1) < 0.5 ↔ _
  rw [hquotient]
  rcases lt_or_ge s 0 with hs | hs
  · have hneg : (s : ℝ) < 0 := by exact_mod_cast hs
    refine iff_of_true (by linarith) ?_
    simp [lifetime, Int.toNat_of_nonpos hs.le]
  · obtain ⟨n, rfl⟩ := Int.eq_ofNat_of_zero_le hs
    rw [Real.lt_sqrt (by positivity), lifetime, Int.toNat_natCast]
    have hcast : (2 * (((n : ℕ) : ℤ) : ℝ)) ^ 2 < (t : ℝ) + 1 ↔ 4 * n * n < t + 1 := by
      rw [show (2 * (((n : ℕ) : ℤ) : ℝ)) ^ 2 = ((4 * n * n : ℕ) : ℝ) by push_cast; ring]
      exact_mod_cast Iff.rfl
    rw [hcast, Nat.lt_succ_iff]

instance (m : FrameMeta) : Decidable m.Fades := decidable_of_iff _ (fades_iff m).symm

/-! ## The manager -/

/-- `os.path.exists` and `os.remove`, which may raise an OSError. -/
structure Os (σ : Type) where
  pathExists : σ → String → Bool
  remove : σ → String → Option σ

inductive OsError where
  | osError
  deriving DecidableEq, Repr

/-- `os.path.join(a, b)`. -/
def joinPath (a b : String) : String :=
  if b.toList.head? = some '/' then b
  else if a = "" ∨ a.toList.getLast? = some '/' then a ++ b
  else a ++ "/" ++ b

structure VisualMemoryManager (σ : Type) where
  memoryMetadata : Dict String FrameMeta := .empty
  files : σ

namespace VisualMemoryManager

variable {σ : Type} (os : Os σ) (brainDir : String)

def registerFrame (name : String) (score : Int) (v : VisualMemoryManager σ) : VisualMemoryManager σ :=
  { v with memoryMetadata := v.memoryMetadata.set name ⟨score, 0⟩ }

def pruneFrame (frameName : String) (v : VisualMemoryManager σ) : Outcome OsError (VisualMemoryManager σ) :=
  let path := joinPath brainDir frameName
  if os.pathExists v.files path then
    match os.remove v.files path with
    | none => .raised .osError v
    | some files => .done ⟨v.memoryMetadata.erase frameName, files⟩
  else .done { v with memoryMetadata := v.memoryMetadata.erase frameName }

def frame? (v : VisualMemoryManager σ) (name : String) : Option FrameMeta := v.memoryMetadata.get? name

def toPrune (v : VisualMemoryManager σ) : List String :=
  (v.memoryMetadata.entries.filter fun e => decide e.2.Fades).map (·.1)

/-- The first pass. -/
def aged (v : VisualMemoryManager σ) : VisualMemoryManager σ :=
  { v with memoryMetadata := v.memoryMetadata.mapValues fun m => if m.Fades then m else { m with turns := m.turns + 1 } }

def updateDecay (v : VisualMemoryManager σ) : Outcome OsError (VisualMemoryManager σ) :=
  forEach (pruneFrame os brainDir) v.toPrune v.aged

inductive Call where
  | registerFrame (name : String) (score : Int)
  | updateDecay
  | pruneFrame (frameName : String)

def step (v : VisualMemoryManager σ) : Call → Outcome OsError (VisualMemoryManager σ)
  | .registerFrame name score => .done (v.registerFrame name score)
  | .updateDecay => v.updateDecay os brainDir
  | .pruneFrame frameName => v.pruneFrame os brainDir frameName

/-- The calls, one after another, whether they raise or not. -/
def after (v : VisualMemoryManager σ) (calls : List Call) : VisualMemoryManager σ :=
  calls.foldl (fun v c => (step os brainDir v c).state) v

/-- The call neither registers the frame again nor prunes it by name. -/
def Call.Spares (name : String) : Call → Prop
  | .registerFrame k _ | .pruneFrame k => k ≠ name
  | .updateDecay => True

/-- The calls of `update_decay`. -/
def updates (calls : List Call) : Nat :=
  calls.countP fun
    | .updateDecay => true
    | _ => false

/-! ## One call -/

section

variable {os brainDir} {v v' : VisualMemoryManager σ} {name : String} {m : FrameMeta}

/-- A frame that is pruned is gone, unless deleting it raises; then nothing has changed. -/
theorem pruneFrame_cases (os : Os σ) (brainDir k : String) (v : VisualMemoryManager σ) :
    (∃ files, v.pruneFrame os brainDir k = .done ⟨v.memoryMetadata.erase k, files⟩) ∨
      v.pruneFrame os brainDir k = .raised .osError v := by
  simp only [pruneFrame]
  split
  · cases os.remove v.files (joinPath brainDir k) with
    | none => exact .inr rfl
    | some files => exact .inl ⟨files, rfl⟩
  · exact .inl ⟨v.files, rfl⟩

theorem pruneFrame_other {k : String} (h : name ≠ k) :
    (v.pruneFrame os brainDir k).state.frame? name = v.frame? name := by
  rcases pruneFrame_cases os brainDir k v with ⟨files, he⟩ | he
  · rw [he]
    exact Dict.get?_erase_of_ne _ h
  · rw [he]
    rfl

theorem pruneFrame_none (k : String) (h : v.frame? name = none) :
    (v.pruneFrame os brainDir k).state.frame? name = none := by
  rcases pruneFrame_cases os brainDir k v with ⟨files, he⟩ | he
  · rw [he]
    show (v.memoryMetadata.erase k).get? name = none
    rw [Dict.get?_erase, ← frame?, h, ite_self]
  · rw [he]
    exact h

/-- The second pass prunes all its frames, if it does not raise. -/
theorem pruneAll_done {names : List String} (hname : name ∈ names) (h : forEach (pruneFrame os brainDir) names v = .done v') :
    v'.frame? name = none := by
  induction names generalizing v with
  | nil => cases hname
  | cons k names ih =>
    obtain ⟨u, hu, hrest⟩ := Outcome.bind_eq_done h
    by_cases hmem : name ∈ names
    · exact ih hmem hrest
    · obtain rfl : name = k := (List.mem_cons.mp hname).resolve_right hmem
      have hgone : u.frame? name = none := by
        rcases pruneFrame_cases os brainDir name v with ⟨files, he⟩ | he
        · rw [he] at hu
          cases hu
          exact Dict.get?_erase_self _ _
        · rw [he] at hu
          cases hu
      have hstays : (forEach (pruneFrame os brainDir) names u).state.frame? name = none :=
        forEach_state (P := fun u : VisualMemoryManager σ => u.frame? name = none) names
          (fun k _ _ hu => pruneFrame_none k hu) hgone
      rwa [hrest] at hstays

theorem mem_toPrune : name ∈ v.toPrune ↔ ∃ m, v.frame? name = some m ∧ m.Fades := by
  rw [toPrune, List.mem_map]
  constructor
  · rintro ⟨⟨k, m⟩, hmem, rfl⟩
    obtain ⟨hentry, hfades⟩ := List.mem_filter.mp hmem
    exact ⟨m, Dict.mem_entries.mp hentry, of_decide_eq_true hfades⟩
  · rintro ⟨m, hget, hfades⟩
    exact ⟨(name, m), List.mem_filter.mpr ⟨Dict.mem_entries.mpr hget, decide_eq_true hfades⟩, rfl⟩

theorem frame?_aged (v : VisualMemoryManager σ) (name : String) :
    v.aged.frame? name = (v.frame? name).map fun m => if m.Fades then m else { m with turns := m.turns + 1 } :=
  Dict.get?_mapValues _ _ _

/-- A frame that does not fade gets one turn older, whatever becomes of the others. -/
theorem updateDecay_ages (h : v.frame? name = some m) (hfades : ¬m.Fades) :
    (v.updateDecay os brainDir).state.frame? name = some { m with turns := m.turns + 1 } := by
  have haged : v.aged.frame? name = some { m with turns := m.turns + 1 } := by
    rw [frame?_aged, h, Option.map_some, if_neg hfades]
  refine forEach_state (P := fun u : VisualMemoryManager σ => u.frame? name = some { m with turns := m.turns + 1 }) v.toPrune ?_ haged
  intro k hk u hu
  have hne : name ≠ k := by
    rintro rfl
    obtain ⟨m', hm', hfades'⟩ := mem_toPrune.mp hk
    obtain rfl : m = m' := Option.some.inj (h.symm.trans hm')
    exact hfades hfades'
  rw [pruneFrame_other hne, hu]

/-- A frame that fades is as it was, or gone; if the call returns, it is gone. -/
theorem updateDecay_fades (h : v.frame? name = some m) (hfades : m.Fades) :
    (v.updateDecay os brainDir).state.frame? name = some m ∨
      (v.updateDecay os brainDir).state.frame? name = none := by
  have haged : v.aged.frame? name = some m := by
    rw [frame?_aged, h, Option.map_some, if_pos hfades]
  refine forEach_state (P := fun u : VisualMemoryManager σ => u.frame? name = some m ∨ u.frame? name = none) v.toPrune ?_
    (.inl haged)
  intro k _ u hu
  by_cases hne : name = k
  · subst hne
    rcases pruneFrame_cases os brainDir name u with ⟨files, he⟩ | he
    · rw [he]
      exact .inr (Dict.get?_erase_self _ _)
    · rw [he]
      exact hu
  · rw [pruneFrame_other hne]
    exact hu

theorem updateDecay_none (h : v.frame? name = none) :
    (v.updateDecay os brainDir).state.frame? name = none := by
  have haged : v.aged.frame? name = none := by rw [frame?_aged, h, Option.map_none]
  exact forEach_state (P := fun u : VisualMemoryManager σ => u.frame? name = none) v.toPrune (fun k _ _ hu => pruneFrame_none k hu) haged

theorem updateDecay_prunes (h : v.frame? name = some m) (hfades : m.Fades)
    (hdone : v.updateDecay os brainDir = .done v') : v'.frame? name = none :=
  pruneAll_done (mem_toPrune.mpr ⟨m, h, hfades⟩) hdone

theorem step_none {c : Call} (hc : c.Spares name) (h : v.frame? name = none) :
    (step os brainDir v c).state.frame? name = none := by
  cases c with
  | registerFrame k score => exact (Dict.get?_set_of_ne _ (Ne.symm hc) _).trans h
  | updateDecay => exact updateDecay_none h
  | pruneFrame k => exact pruneFrame_none k h

end

/-! ## A run -/

section

variable {v : VisualMemoryManager σ} {name : String} {score : Int} {calls : List Call}

theorem after_concat (v : VisualMemoryManager σ) (calls : List Call) (c : Call) :
    after os brainDir v (calls ++ [c]) = (step os brainDir (after os brainDir v calls) c).state := List.foldl_concat ..

theorem updates_concat (calls : List Call) (c : Call) : updates (calls ++ [c]) = updates calls + updates [c] := List.countP_append

/-- A frame has had a turn for every call up to its lifetime. Only after that it may be gone. -/
theorem frame_after (h : v.frame? name = some ⟨score, 0⟩) (hcalls : ∀ c ∈ calls, c.Spares name) :
    (after os brainDir v calls).frame? name = some ⟨score, min (updates calls) (lifetime score)⟩ ∨
      lifetime score < updates calls ∧ (after os brainDir v calls).frame? name = none := by
  induction calls using List.reverseRecOn with
  | nil => exact .inl h
  | append_singleton calls c ih =>
    obtain ⟨hcalls, hc⟩ := List.forall_mem_append.mp hcalls
    replace hc : c.Spares name := hc c (List.mem_singleton.mpr rfl)
    rw [after_concat, updates_concat]
    rcases ih hcalls with hframe | ⟨hlate, hgone⟩
    · cases c with
      | registerFrame k score' => exact .inl ((Dict.get?_set_of_ne _ (Ne.symm hc) _).trans hframe)
      | updateDecay =>
        show (updateDecay os brainDir _).state.frame? name = some ⟨score, min (updates calls + 1) (lifetime score)⟩ ∨
          lifetime score < updates calls + 1 ∧ (updateDecay os brainDir _).state.frame? name = none
        by_cases hlate : lifetime score ≤ updates calls
        · rw [Nat.min_eq_right hlate] at hframe
          rw [Nat.min_eq_right (Nat.le_succ_of_le hlate)]
          exact (updateDecay_fades hframe ((fades_iff _).mpr le_rfl)).imp_right fun hgone => ⟨Nat.lt_succ_of_le hlate, hgone⟩
        · rw [Nat.min_eq_left (Nat.le_of_not_le hlate)] at hframe
          rw [Nat.min_eq_left (Nat.lt_of_not_le hlate)]
          exact .inl (updateDecay_ages hframe fun hfades => hlate ((fades_iff _).mp hfades))
      | pruneFrame k => exact .inl ((pruneFrame_other (Ne.symm hc)).trans hframe)
    · exact .inr ⟨Nat.lt_of_lt_of_le hlate (Nat.le_add_right _ _), step_none hc hgone⟩

theorem gone_after (h : v.frame? name = none) (hcalls : ∀ c ∈ calls, c.Spares name) :
    (after os brainDir v calls).frame? name = none := by
  induction calls using List.reverseRecOn with
  | nil => exact h
  | append_singleton calls c ih =>
    obtain ⟨hcalls, hc⟩ := List.forall_mem_append.mp hcalls
    rw [after_concat]
    exact step_none (hc c (List.mem_singleton.mpr rfl)) (ih hcalls)

end

/-- A frame of score `s` is there for `4 * s * s` calls of `update_decay` (none, if `s` is negative), whatever else is
    registered, pruned or raised; and not after the next one that returns. -/
theorem decays_on_time (os : Os σ) (brainDir : String) (v : VisualMemoryManager σ) (name : String) (score : Int)
    (calls : List Call) (hcalls : ∀ c ∈ calls, c.Spares name) :
    (updates calls ≤ lifetime score →
      (after os brainDir (v.registerFrame name score) calls).frame? name = some ⟨score, updates calls⟩) ∧
    ∀ past later, calls = past ++ .updateDecay :: later → lifetime score ≤ updates past →
      (∃ v', (after os brainDir (v.registerFrame name score) past).updateDecay os brainDir = .done v') →
        (after os brainDir (v.registerFrame name score) calls).frame? name = none := by
  have hregistered : (v.registerFrame name score).frame? name = some ⟨score, 0⟩ := Dict.get?_set_self _ _ _
  refine ⟨fun hle => ?_, ?_⟩
  · rcases frame_after os brainDir hregistered hcalls with hframe | ⟨hlate, -⟩
    · rwa [Nat.min_eq_left hle] at hframe
    · exact absurd hle (Nat.not_le.mpr hlate)
  · rintro past later rfl hlate ⟨v', hdone⟩
    obtain ⟨hpast, hlater⟩ := List.forall_mem_append.mp hcalls
    have hgone : ((after os brainDir (v.registerFrame name score) past).updateDecay os brainDir).state.frame? name = none := by
      rcases frame_after os brainDir hregistered hpast with hframe | ⟨-, hgone⟩
      · rw [Nat.min_eq_right hlate] at hframe
        rw [hdone]
        exact updateDecay_prunes hframe ((fades_iff _).mpr le_rfl) hdone
      · exact updateDecay_none hgone
    rw [after, List.foldl_append, List.foldl_cons]
    exact gone_after os brainDir hgone fun c hc => hlater c (List.mem_cons_of_mem _ hc)

/-- No frame has a file. -/
def noFiles : Os Unit := ⟨fun _ _ => false, fun _ _ => none⟩

theorem noFiles_returns (brainDir : String) (v : VisualMemoryManager Unit) :
    ∃ v', v.updateDecay noFiles brainDir = .done v' := by
  obtain ⟨v', he, -⟩ := forEach_keeps (P := fun _ => True) (f := pruneFrame noFiles brainDir) v.toPrune
    (fun k _ u _ => ⟨_, rfl, trivial⟩) (s := v.aged) trivial
  exact ⟨v', he⟩

/-- The frame of a score of one, beside one of a score of zero. -/
theorem decays_on_time_one :
    let v : VisualMemoryManager Unit := ⟨(.empty : Dict String FrameMeta).set "b.png" ⟨0, 0⟩, ()⟩
    (after noFiles "brain_textures/" (v.registerFrame "a.png" 1) (List.replicate 4 .updateDecay)).frame? "a.png" = some ⟨1, 4⟩ ∧
      (after noFiles "brain_textures/" (v.registerFrame "a.png" 1) (List.replicate 5 .updateDecay)).frame? "a.png" = none := by
  intro v
  have hspares (k : Nat) : ∀ c ∈ List.replicate k Call.updateDecay, c.Spares "a.png" := by
    intro c hc
    rw [List.eq_of_mem_replicate hc]
    trivial
  refine ⟨(decays_on_time noFiles _ v "a.png" 1 _ (hspares 4)).1 (by decide), ?_⟩
  exact (decays_on_time noFiles _ v "a.png" 1 _ (hspares 5)).2 (List.replicate 4 .updateDecay) [] rfl (by decide)
    (noFiles_returns _ _)

/-- One name is that of a directory, which `os.remove` does not delete. -/
def directoryAt (path : String) : Os Unit := ⟨fun _ p => p = path, fun _ _ => none⟩

/-- The frame before it in the dict cannot be deleted: it is there after one call, with a score of zero. -/
theorem undeletable_frame_spares : ¬∀ (σ : Type) (os : Os σ) (brainDir : String) (v : VisualMemoryManager σ) (name : String)
    (score : Int) (calls : List Call), (∀ c ∈ calls, c = .updateDecay) →
      ((after os brainDir (v.registerFrame name score) calls).frame? name ≠ none ↔ updates calls ≤ lifetime score) := by
  intro h
  have hframe := h Unit (directoryAt "brain_textures/old.png") "brain_textures/"
    ((⟨.empty, ()⟩ : VisualMemoryManager Unit).registerFrame "old.png" 0) "new.png" 0 [.updateDecay] (by simp)
  exact absurd (hframe.mp (by decide +kernel)) (by decide)

end VisualMemoryManager

end PyxelVM.Vm
