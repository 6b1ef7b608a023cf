/-
  PyxelVM.Lib.Ranking — the first of a stable sort by weight, heaviest first.

  - `first_heaviest`: it is one of the elements, and none of them is heavier.
  - `first_cons`: of elements that begin with one of the heaviest, it is that one.
-/

import Mathlib.Order.Lattice

namespace PyxelVM.Lib.Ranking

variable {α κ : Type} [LinearOrder κ] {key : α → κ} {xs : List α} {a : α}

def ranked (key : α → κ) (xs : List α) : List α := xs.mergeSort fun a b => decide (key b ≤ key a)

/-- One of the elements, and none is heavier. -/
structure Heaviest (key : α → κ) (xs : List α) (a : α) : Prop where
  mem : a ∈ xs
  le : ∀ b ∈ xs, key b ≤ key a

theorem rank_trans (key : α → κ) (a b c : α) (hab : decide (key b ≤ key a) = true) (hbc : decide (key c ≤ key b) = true) :
    decide (key c ≤ key a) = true := by
  rw [decide_eq_true_eq] at hab hbc ⊢
  exact le_trans hbc hab

theorem rank_total (key : α → κ) (a b : α) : (decide (key b ≤ key a) || decide (key a ≤ key b)) = true := by
  rw [Bool.or_eq_true, decide_eq_true_eq, decide_eq_true_eq]
  exact le_total _ _

theorem first_none_iff : (ranked key xs).head? = none ↔ xs = [] := by
  rw [List.head?_eq_none_iff, ← List.length_eq_zero_iff, ranked, List.length_mergeSort, List.length_eq_zero_iff]

theorem first_heaviest (h : (ranked key xs).head? = some a) : Heaviest key xs a := by
  obtain ⟨rest, hrest⟩ := List.head?_eq_some_iff.mp h
  have hsorted := List.pairwise_mergeSort (rank_trans key) (rank_total key) xs
  change (ranked key xs).Pairwise _ at hsorted
  rw [hrest] at hsorted
  have hmem (b : α) : b ∈ xs ↔ b ∈ a :: rest := by rw [← hrest, ranked, List.mem_mergeSort]
  refine ⟨(hmem a).mpr List.mem_cons_self, ?_⟩
  intro b hb
  rcases List.mem_cons.mp ((hmem b).mp hb) with rfl | hb
  · exact le_refl _
  · exact of_decide_eq_true (List.rel_of_pairwise_cons hsorted hb)

/-- The sort is stable: what comes before the first is heavier. -/
theorem first_cons (h : ∀ b ∈ xs, key b ≤ key a) : (ranked key (a :: xs)).head? = some a := by
  obtain ⟨before, after, hsort, hrest, hbefore⟩ := List.mergeSort_cons (rank_trans key) (rank_total key) a xs
  rw [ranked, hsort]
  cases before with
  | nil => rfl
  | cons b before =>
    have hb : b ∈ xs := by
      have hsorted : b ∈ ranked key xs := by
        rw [ranked, hrest]
        exact List.mem_cons_self
      exact List.mem_mergeSort.mp hsorted
    have hlighter := hbefore b List.mem_cons_self
    rw [decide_eq_true (h b hb)] at hlighter
    exact absurd hlighter (by decide)

end PyxelVM.Lib.Ranking
