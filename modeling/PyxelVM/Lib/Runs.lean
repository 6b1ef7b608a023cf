/-
  PyxelVM.Lib.Runs — the last unbroken run of a list.

  Of a list read from left to right, `lastRun` keeps the elements since the last one that
  is not related to the one before it. It is the longest suffix in which each element is
  related to the next (`suffix_lastRun`), so it stays within a bound along the whole list
  exactly when no such run anywhere in the list is longer (`lastRun_bounded_iff`).
-/

import Mathlib.Data.List.Chain
import Mathlib.Data.List.Induction

namespace PyxelVM.Lib

variable {α : Type} (R : α → α → Prop) [DecidableRel R]

/-- The run with one more element, or that element alone if it breaks it. -/
def extend (run : List α) (a : α) : List α :=
  match run.getLast? with
  | none => [a]
  | some b => if R b a then run ++ [a] else [a]

def lastRun (as : List α) : List α := as.foldl (extend R) []

variable {R} {as run : List α} {a b : α} {n : Nat}

theorem lastRun_concat (as : List α) (a : α) : lastRun R (as ++ [a]) = extend R (lastRun R as) a := by
  rw [lastRun, List.foldl_append]
  rfl

theorem lastRun_suffix (as : List α) : lastRun R as <:+ as := by
  induction as using List.reverseRecOn with
  | nil => exact List.suffix_refl []
  | append_singleton as a ih =>
    rw [lastRun_concat, extend]
    split
    · exact List.suffix_append as [a]
    split
    · exact List.suffix_append_self_iff.mpr ih
    · exact List.suffix_append as [a]

theorem isChain_lastRun (as : List α) : (lastRun R as).IsChain R := by
  induction as using List.reverseRecOn with
  | nil => exact List.isChain_nil
  | append_singleton as a ih =>
    rw [lastRun_concat, extend]
    split
    · exact List.isChain_singleton a
    rename_i b hb
    split
    · rename_i hR
      refine ih.append (List.isChain_singleton a) ?_
      intro x hx y hy
      rw [hb, Option.mem_some_iff] at hx
      rw [List.head?_cons, Option.mem_some_iff] at hy
      rwa [← hx, ← hy]
    · exact List.isChain_singleton a

/-- The last run is the longest chain at the end. -/
theorem suffix_lastRun (hs : run <:+ as) (hc : run.IsChain R) : run <:+ lastRun R as := by
  induction as using List.reverseRecOn generalizing run with
  | nil => exact hs
  | append_singleton as a ih =>
    rcases List.suffix_concat_iff.mp hs with rfl | h
    · exact List.nil_suffix
    rcases h with ⟨run', rfl, hs'⟩
    rcases List.isChain_append.mp hc with ⟨hc', -, hlast⟩
    have hrun := ih hs' hc'
    rw [lastRun_concat, extend]
    split
    · rename_i hnil
      rw [List.getLast?_eq_none_iff.mp hnil, List.suffix_nil] at hrun
      rw [hrun]
      exact List.suffix_refl [a]
    rename_i b hb
    split
    · exact List.suffix_append_self_iff.mpr hrun
    · rename_i hR
      -- the run begins after the break
      cases hl : run'.getLast? with
      | none =>
        rw [List.getLast?_eq_none_iff.mp hl]
        exact List.suffix_refl [a]
      | some c =>
        rcases hrun with ⟨past, hpast⟩
        rw [← hpast, List.getLast?_append, hl, Option.some_or, Option.some_inj] at hb
        subst hb
        exact absurd (hlast c hl a rfl) hR

/-- No run anywhere is longer than the last runs of the beginnings. -/
theorem lastRun_bounded_iff : (∀ past, past <+: as → (lastRun R past).length ≤ n) ↔
    ∀ run, run <:+: as → run.IsChain R → run.length ≤ n := by
  constructor
  · intro h run hinfix hc
    rcases List.infix_iff_suffix_prefix.mp hinfix with ⟨past, hsuffix, hprefix⟩
    exact le_trans (suffix_lastRun hsuffix hc).length_le (h past hprefix)
  · intro h past hprefix
    exact h _ (List.infix_iff_suffix_prefix.mpr ⟨past, lastRun_suffix past, hprefix⟩) (isChain_lastRun past)

end PyxelVM.Lib
