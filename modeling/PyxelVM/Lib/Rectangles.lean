/-
  PyxelVM.Lib.Rectangles — rectangles of cells.

  A rectangle is the product of two half-open intervals, of any order whose intervals are
  finite. Two that are not empty have no cell in common exactly when an edge of one lies
  at or before the opposite edge of the other (`disjoint_rect_iff`); one of `w` columns
  and `h` rows has `w * h` cells. Sets apart from each other within a set have no more
  elements together than it (`sum_card_le`).
-/

import Mathlib.Algebra.BigOperators.Group.List.Basic
import Mathlib.Algebra.GroupWithZero.Nat
import Mathlib.Data.Finset.Prod
import Mathlib.Order.Interval.Finset.Basic
import Mathlib.Order.Interval.Finset.Nat
import Mathlib.Order.Interval.Set.Disjoint

namespace PyxelVM.Lib

section

variable {α : Type} [LinearOrder α] [LocallyFiniteOrder α] {a₁ a₂ b₁ b₂ c₁ c₂ d₁ d₂ : α}

/-- Columns `a₁` to `a₂` and rows `b₁` to `b₂`, the last ones left out. -/
def rect (a₁ a₂ b₁ b₂ : α) : Finset (α × α) := Finset.Ico a₁ a₂ ×ˢ Finset.Ico b₁ b₂

theorem mem_rect {p : α × α} : p ∈ rect a₁ a₂ b₁ b₂ ↔ (a₁ ≤ p.1 ∧ p.1 < a₂) ∧ b₁ ≤ p.2 ∧ p.2 < b₂ := by
  rw [rect, Finset.mem_product, Finset.mem_Ico, Finset.mem_Ico]

theorem rect_nonempty_iff : (rect a₁ a₂ b₁ b₂).Nonempty ↔ a₁ < a₂ ∧ b₁ < b₂ := by
  rw [rect, Finset.nonempty_product, Finset.nonempty_Ico, Finset.nonempty_Ico]

theorem rect_subset_iff (ha : a₁ < a₂) (hb : b₁ < b₂) :
    rect a₁ a₂ b₁ b₂ ⊆ rect c₁ c₂ d₁ d₂ ↔ (c₁ ≤ a₁ ∧ a₂ ≤ c₂) ∧ d₁ ≤ b₁ ∧ b₂ ≤ d₂ := by
  have hA : (Finset.Ico a₁ a₂).Nonempty := Finset.nonempty_Ico.mpr ha
  have hB : (Finset.Ico b₁ b₂).Nonempty := Finset.nonempty_Ico.mpr hb
  rw [rect, rect, ← Finset.coe_subset, Finset.coe_product, Finset.coe_product, Set.prod_subset_prod_iff]
  simp only [Finset.coe_subset, Finset.Ico_subset_Ico_iff ha, Finset.Ico_subset_Ico_iff hb, Finset.coe_eq_empty,
    hA.ne_empty, hB.ne_empty, or_false]

theorem disjoint_Ico_iff (ha : a₁ < a₂) (hc : c₁ < c₂) : Disjoint (Finset.Ico a₁ a₂) (Finset.Ico c₁ c₂) ↔ a₂ ≤ c₁ ∨ c₂ ≤ a₁ := by
  rw [← Finset.disjoint_coe, Finset.coe_Ico, Finset.coe_Ico, Set.Ico_disjoint_Ico, min_le_iff, le_max_iff, le_max_iff]
  have h1 : ¬a₂ ≤ a₁ := not_le.mpr ha
  have h2 : ¬c₂ ≤ c₁ := not_le.mpr hc
  simp only [h1, h2, false_or, or_false]

theorem disjoint_rect_iff (ha : a₁ < a₂) (hb : b₁ < b₂) (hc : c₁ < c₂) (hd : d₁ < d₂) :
    Disjoint (rect a₁ a₂ b₁ b₂) (rect c₁ c₂ d₁ d₂) ↔ a₂ ≤ c₁ ∨ c₂ ≤ a₁ ∨ b₂ ≤ d₁ ∨ d₂ ≤ b₁ := by
  rw [rect, rect, Finset.disjoint_product, disjoint_Ico_iff ha hc, disjoint_Ico_iff hb hd, or_assoc]

end

theorem card_rect (x y w h : Nat) : (rect x (x + w) y (y + h)).card = w * h := by
  rw [rect, Finset.card_product, Nat.card_Ico, Nat.card_Ico, Nat.add_sub_cancel_left, Nat.add_sub_cancel_left]

theorem sum_card_le {α ι : Type} [DecidableEq α] {f : ι → Finset α} {is : List ι} {s : Finset α}
    (hd : is.Pairwise fun i j => Disjoint (f i) (f j)) (hs : ∀ i ∈ is, f i ⊆ s) : (is.map fun i => (f i).card).sum ≤ s.card := by
  induction is generalizing s with
  | nil => exact Nat.zero_le _
  | cons i is ih =>
    rcases List.pairwise_cons.mp hd with ⟨hi, his⟩
    rcases List.forall_mem_cons.mp hs with ⟨hsi, hsis⟩
    -- the others fit into what the first leaves
    have hrest : ∀ j ∈ is, f j ⊆ s \ f i := fun j hj => Finset.subset_sdiff.mpr ⟨hsis j hj, (hi j hj).symm⟩
    have hle := ih his hrest
    have hcard := Finset.card_sdiff_add_card_eq_card hsi
    rw [List.map_cons, List.sum_cons]
    omega

end PyxelVM.Lib
