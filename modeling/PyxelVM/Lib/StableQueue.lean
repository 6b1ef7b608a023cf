/-
  PyxelVM.Lib.StableQueue — a list that is sorted again after every element added to it,
  greatest first, and served from the front.

  `sorted` is `list.sort(reverse=True)`: stable, and all it asks of two elements is whether
  one is less. Where that ranks the elements (`Ranks`), there is one stable order, which
  any stable sort gives; where it does not, it is still a permutation.

  - `sorted_append`: sorting what is sorted, with one more element behind, is sorting all of
    it in the order of arrival.
  - `sorted_cons`: the front is the first to have arrived of the greatest, and behind it is
    what sorting the others gives.
-/

import Mathlib.Data.List.Sort

namespace PyxelVM.Lib.StableQueue

variable {α : Type} {lt : α → α → Bool} {P : α → Prop} {a b x : α} {q xs : List α}

def sorted (lt : α → α → Bool) (xs : List α) : List α := xs.insertionSort fun a b => lt a b = false

/-- Among the elements of `P`, "is less" is a strict weak order. -/
structure Ranks (lt : α → α → Bool) (P : α → Prop) : Prop where
  asymm : ∀ {a b}, P a → P b → lt a b = true → lt b a = false
  trans : ∀ {a b c}, P a → P b → P c → lt a b = false → lt b c = false → lt a c = false

/-- The first to have arrived of the greatest, with the others. -/
def Served (lt : α → α → Bool) (xs : List α) (a : α) (rest : List α) : Prop :=
  ∃ before after, xs = before ++ a :: after ∧ rest = before ++ after ∧
    (∀ b ∈ before, lt b a = true) ∧ ∀ c ∈ after, lt a c = false

theorem sorted_perm (lt : α → α → Bool) (xs : List α) : (sorted lt xs).Perm xs := List.perm_insertionSort _ xs

theorem mem_sorted : a ∈ sorted lt xs ↔ a ∈ xs := (sorted_perm lt xs).mem_iff

theorem sorted_eq_nil : sorted lt xs = [] ↔ xs = [] := by
  rw [← List.length_eq_zero_iff, (sorted_perm lt xs).length_eq, List.length_eq_zero_iff]

theorem Ranks.lt_trans (h : Ranks lt P) {a b c : α} (ha : P a) (hb : P b) (hc : P c) (hab : lt a b = true)
    (hbc : lt b c = true) : lt a c = true := by
  by_contra hac
  have hca : lt a b = false := h.trans ha hc hb (Bool.eq_false_of_not_eq_true hac) (h.asymm hb hc hbc)
  rw [hab] at hca
  cases hca

theorem Ranks.irrefl (h : Ranks lt P) (ha : P a) : lt a a = false := by
  cases e : lt a a with
  | false => rfl
  | true => exact e.symm.trans (h.asymm ha ha e)

/-! ## The front -/

theorem Served.le (h : Ranks lt P) (hxs : ∀ b ∈ xs, P b) {rest : List α} (hs : Served lt xs a rest) :
    ∀ b ∈ xs, lt a b = false := by
  obtain ⟨before, after, rfl, -, hbefore, hafter⟩ := hs
  have ha : P a := hxs a (List.mem_append_right _ List.mem_cons_self)
  intro b hb
  rcases List.mem_append.mp hb with hb | hb
  · exact h.asymm (hxs b (List.mem_append_left _ hb)) ha (hbefore b hb)
  · rcases List.mem_cons.mp hb with rfl | hb
    · exact h.irrefl ha
    · exact hafter b hb

/-- The others are what `list.remove` leaves, which looks for the first that is equal. -/
theorem Served.erase [DecidableEq α] (h : Ranks lt P) (ha : P a) {rest : List α} (hs : Served lt xs a rest) :
    xs.erase a = rest := by
  obtain ⟨before, after, rfl, rfl, hbefore, -⟩ := hs
  have hne : a ∉ before := by
    intro hmem
    have hlt := hbefore a hmem
    rw [h.irrefl ha] at hlt
    cases hlt
  rw [List.erase_append_right _ hne, List.erase_cons_head]

/-- By induction on the order of arrival: what arrived before all the others is inserted last. -/
theorem sorted_cons (h : Ranks lt P) (hxs : ∀ b ∈ xs, P b) {rest : List α} (hs : sorted lt xs = a :: rest) :
    ∃ others, Served lt xs a others ∧ rest = sorted lt others := by
  induction xs generalizing a rest with
  | nil => cases hs
  | cons x xs ih =>
    obtain ⟨hx, hxs'⟩ := List.forall_mem_cons.mp hxs
    rw [sorted, List.insertionSort_cons] at hs
    change (sorted lt xs).orderedInsert _ x = _ at hs
    cases hq : sorted lt xs with
    | nil =>
      rw [hq] at hs
      obtain ⟨rfl, rfl⟩ := List.cons.inj hs
      rw [sorted_eq_nil.mp hq]
      exact ⟨[], ⟨[], [], rfl, rfl, by simp, by simp⟩, rfl⟩
    | cons b q =>
      obtain ⟨others, hserved, hrest⟩ := ih hxs' hq
      rw [hq] at hs
      by_cases hlt : lt x b = false
      · rw [List.orderedInsert_cons, if_pos hlt] at hs
        obtain ⟨rfl, rfl⟩ := List.cons.inj hs
        have hb : P b := hxs' b (mem_sorted.mp (by rw [hq]; exact List.mem_cons_self))
        refine ⟨xs, ⟨[], xs, rfl, rfl, by simp, ?_⟩, hq.symm⟩
        intro c hc
        exact h.trans hx hb (hxs' c hc) hlt (hserved.le h hxs' c hc)
      · rw [List.orderedInsert_cons, if_neg hlt] at hs
        obtain ⟨rfl, rfl⟩ := List.cons.inj hs
        obtain ⟨before, after, rfl, rfl, hbefore, hafter⟩ := hserved
        refine ⟨x :: before ++ after, ⟨x :: before, after, rfl, rfl, ?_, hafter⟩, ?_⟩
        · exact List.forall_mem_cons.mpr ⟨by simpa using hlt, hbefore⟩
        · rw [hrest]
          rfl

/-! ## One more element -/

/-- Behind all that is not less. -/
def enqueue (lt : α → α → Bool) (a : α) : List α → List α
  | [] => [a]
  | b :: q => if lt b a = false then b :: enqueue lt a q else a :: b :: q

/-- What arrives first and what arrives last are inserted in either order. -/
theorem insert_enqueue (h : Ranks lt P) (hx : P x) (ha : P a) (hq : ∀ b ∈ q, P b) :
    (enqueue lt a q).orderedInsert (fun a b => lt a b = false) x = enqueue lt a (q.orderedInsert (fun a b => lt a b = false) x) := by
  induction q with
  | nil => simp only [enqueue, List.orderedInsert]
  | cons b q ih =>
    obtain ⟨hb, hq'⟩ := List.forall_mem_cons.mp hq
    by_cases hxb : lt x b = false
    · by_cases hba : lt b a = false
      · have hxa := h.trans hx hb ha hxb hba
        simp [enqueue, hxb, hba, hxa]
      · by_cases hxa : lt x a = false
        · simp [enqueue, hxb, hba, hxa]
        · simp [enqueue, hxb, hba, hxa]
    · by_cases hba : lt b a = false
      · simp [enqueue, hxb, hba, ih hq']
      · have hxa : lt x a = true := h.lt_trans hx hb ha (by simpa using hxb) (by simpa using hba)
        simp [enqueue, hxb, hba, hxa]

theorem sorted_concat (h : Ranks lt P) (hxs : ∀ b ∈ xs, P b) (ha : P a) : sorted lt (xs ++ [a]) = enqueue lt a (sorted lt xs) := by
  induction xs with
  | nil => rfl
  | cons x xs ih =>
    obtain ⟨hx, hxs'⟩ := List.forall_mem_cons.mp hxs
    have hq : ∀ b ∈ sorted lt xs, P b := fun b hb => hxs' b (mem_sorted.mp hb)
    show (sorted lt (xs ++ [a])).orderedInsert _ x = enqueue lt a ((sorted lt xs).orderedInsert _ x)
    rw [ih hxs', insert_enqueue h hx ha hq]

theorem insert_pairwise (h : Ranks lt P) (hx : P x) (hq : ∀ b ∈ q, P b) (hs : q.Pairwise fun a b => lt a b = false) :
    (q.orderedInsert (fun a b => lt a b = false) x).Pairwise fun a b => lt a b = false := by
  induction q with
  | nil => exact List.pairwise_singleton _ _
  | cons b q ih =>
    obtain ⟨hb, hq'⟩ := List.forall_mem_cons.mp hq
    obtain ⟨hbq, hs'⟩ := List.pairwise_cons.mp hs
    rw [List.orderedInsert_cons]
    split
    · rename_i hxb
      refine List.pairwise_cons.mpr ⟨List.forall_mem_cons.mpr ⟨hxb, ?_⟩, hs⟩
      exact fun c hc => h.trans hx hb (hq' c hc) hxb (hbq c hc)
    · rename_i hxb
      refine List.pairwise_cons.mpr ⟨?_, ih hq' hs'⟩
      intro c hc
      rcases (List.mem_orderedInsert _).mp hc with rfl | hc
      · exact h.asymm hx hb (by simpa using hxb)
      · exact hbq c hc

theorem sorted_pairwise (h : Ranks lt P) (hxs : ∀ b ∈ xs, P b) : (sorted lt xs).Pairwise fun a b => lt a b = false := by
  induction xs with
  | nil => exact .nil
  | cons x xs ih =>
    obtain ⟨hx, hxs'⟩ := List.forall_mem_cons.mp hxs
    exact insert_pairwise h hx (fun b hb => hxs' b (mem_sorted.mp hb)) (ih hxs')

theorem sorted_sorted (h : Ranks lt P) (hxs : ∀ b ∈ xs, P b) : sorted lt (sorted lt xs) = sorted lt xs :=
  (sorted_pairwise h hxs).insertionSort_eq

theorem sorted_append (h : Ranks lt P) (hxs : ∀ b ∈ xs, P b) (ha : P a) : sorted lt (sorted lt xs ++ [a]) = sorted lt (xs ++ [a]) := by
  have hq : ∀ b ∈ sorted lt xs, P b := fun b hb => hxs b (mem_sorted.mp hb)
  rw [sorted_concat h hq ha, sorted_sorted h hxs, sorted_concat h hxs ha]

end PyxelVM.Lib.StableQueue
