/-
  PyxelVM.Lib.Attempt — updates of a state inside one catch-all.

  Each update is made or raises; the first that raises ends them, and what was made before
  it stays. Whether one raises does not depend on the state.

  - `attempt_append` / `attempt_append_raised`: updates that are all made are followed by
    the next ones; after one that raises nothing follows.
  - `attempt_keeps`: what every update keeps, however many are made.
-/

import Mathlib.Data.List.Basic

namespace PyxelVM.Lib

variable {σ : Type} {us vs : List (Option (σ → σ))} {s : σ}

def attempt : List (Option (σ → σ)) → σ → σ
  | [], s => s
  | none :: _, s => s
  | some f :: us, s => attempt us (f s)

theorem attempt_append (h : none ∉ us) (s : σ) : attempt (us ++ vs) s = attempt vs (attempt us s) := by
  induction us generalizing s with
  | nil => rfl
  | cons u us ih =>
    cases u with
    | none => exact absurd List.mem_cons_self h
    | some f => exact ih (fun hus => h (List.mem_cons_of_mem _ hus)) (f s)

theorem attempt_append_raised (h : none ∈ us) (s : σ) : attempt (us ++ vs) s = attempt us s := by
  induction us generalizing s with
  | nil => cases h
  | cons u us ih =>
    cases u with
    | none => rfl
    | some f => exact ih (List.mem_of_ne_of_mem (by simp) h) (f s)

theorem attempt_keeps {P : σ → Prop} (h : ∀ f, some f ∈ us → ∀ s, P s → P (f s)) (hs : P s) : P (attempt us s) := by
  induction us generalizing s with
  | nil => exact hs
  | cons u us ih =>
    cases u with
    | none => exact hs
    | some f =>
      have hrest : ∀ g, some g ∈ us → ∀ s, P s → P (g s) := fun g hg => h g (List.mem_cons_of_mem _ hg)
      exact ih hrest (h f List.mem_cons_self s hs)

end PyxelVM.Lib
