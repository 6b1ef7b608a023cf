/-
  PyxelVM.Lib.Post — postconditions of computations that may raise.

  `Ends P Q` of an outcome: it ended in a state of `P`, or raised an exception in a
  state `Q` allows with it. `Parts A S` of two outcomes: they are the same, in a state
  of `A`, or the first has stopped where `S` says and the second has gone on.

  - `forEach_ends`: what is known after each turn of a loop over a list may depend on
    how many turns there have been.
  - `repeatWhile_ends`: likewise, and a loop whose condition still holds has made every
    turn it may.
  - `forEach_parts`, `repeatWhile_parts`: loops whose turns part at most once part at
    most once, if what the second does after it is of no account.
  - `repeatWhile_add`: a loop of `j + k` turns is one of `j` and then one of `k`.
-/

import PyxelVM.Lib.Exec

namespace PyxelVM.Lib

variable {ε σ τ ι : Type}

namespace Outcome

def Ends (P : σ → Prop) (Q : ε → σ → Prop) : Outcome ε σ → Prop
  | done s => P s
  | raised e s => Q e s

theorem Ends.imp {P P' : σ → Prop} {Q Q' : ε → σ → Prop} {o : Outcome ε σ} (h : o.Ends P Q) (hP : ∀ s, P s → P' s)
    (hQ : ∀ e s, Q e s → Q' e s) : o.Ends P' Q' := by
  cases o with
  | done s => exact hP s h
  | raised e s => exact hQ e s h

theorem Ends.bind {P P' : σ → Prop} {Q : ε → σ → Prop} {o : Outcome ε σ} (h : o.Ends P Q) {k : σ → Outcome ε σ}
    (hk : ∀ s, P s → (k s).Ends P' Q) : (o.bind k).Ends P' Q := by
  cases o with
  | done s => exact hk s h
  | raised e s => exact h

/-- What was raised. -/
def error? : Outcome ε σ → Option ε
  | done _ => none
  | raised e _ => some e

theorem error?_eq_some {o : Outcome ε σ} {e : ε} : o.error? = some e ↔ ∃ s, o = .raised e s := by
  cases o with
  | done s => simp [error?]
  | raised e' s => simp [error?]

/-- Two computations of which the first may stop before the second does. -/
inductive Parts (A : σ → Prop) (S : ε → σ → σ → Prop) : Outcome ε σ → Outcome ε σ → Prop where
  | same {o : Outcome ε σ} (h : A o.state) : Parts A S o o
  | stopped {e : ε} {s : σ} {o : Outcome ε σ} (h : S e s o.state) : Parts A S (.raised e s) o

theorem Parts.bind {A : σ → Prop} {S : ε → σ → σ → Prop} {o p : Outcome ε σ} (h : Parts A S o p) {k l : σ → Outcome ε σ}
    (hk : ∀ s, A s → Parts A S (k s) (l s)) (hS : ∀ e s t, S e s t → S e s (l t).state) : Parts A S (o.bind k) (p.bind l) := by
  cases h with
  | same h =>
    cases o with
    | done s => exact hk s h
    | raised e s => exact .same h
  | stopped h =>
    cases p with
    | done t => exact .stopped (hS _ _ _ h)
    | raised e t => exact .stopped h

end Outcome

open Outcome

/-! ## Loops -/

theorem forEach_ends {f : ι → σ → Outcome ε σ} (is : List ι) {I : Nat → σ → Prop} {Q : ε → σ → Prop}
    (h : ∀ j i, is[j]? = some i → ∀ s, I j s → (f i s).Ends (I (j + 1)) Q) {s : σ} (hs : I 0 s) :
    (forEach f is s).Ends (I is.length) Q := by
  induction is generalizing I s with
  | nil => exact hs
  | cons i is ih =>
    refine (h 0 i rfl s hs).bind fun t ht => ?_
    exact ih (I := fun j => I (j + 1)) (fun j i' hi => h (j + 1) i' hi) ht

theorem repeatWhile_ends {c : σ → Bool} {f : σ → Outcome ε σ} (k : Nat) {I : Nat → σ → Prop} {Q : ε → σ → Prop}
    (h : ∀ i < k, ∀ s, I i s → c s = true → (f s).Ends (I (i + 1)) Q) {s : σ} (hs : I 0 s) :
    (repeatWhile c f k s).Ends (fun t => ∃ i ≤ k, I i t ∧ (c t = true → i = k)) Q := by
  induction k generalizing I s with
  | zero => exact ⟨0, Nat.le_refl 0, hs, fun _ => rfl⟩
  | succ k ih =>
    simp only [repeatWhile]
    split
    · rename_i hc
      refine (h 0 (Nat.succ_pos k) s hs hc).bind fun t ht => ?_
      refine (ih (I := fun i => I (i + 1)) (fun i hi => h (i + 1) (Nat.succ_lt_succ hi)) ht).imp ?_ fun _ _ hq => hq
      intro u he
      obtain ⟨i, hi, hu, hend⟩ := he
      exact ⟨i + 1, Nat.succ_le_succ hi, hu, fun hcu => congrArg (· + 1) (hend hcu)⟩
    · rename_i hc
      exact ⟨0, Nat.zero_le _, hs, fun ht => absurd ht hc⟩

theorem repeatWhile_add (c : σ → Bool) (f : σ → Outcome ε σ) (j k : Nat) (s : σ) :
    repeatWhile c f (j + k) s = (repeatWhile c f j s).bind (repeatWhile c f k) := by
  induction j generalizing s with
  | zero => rw [Nat.zero_add]; rfl
  | succ j ih =>
    rw [Nat.succ_add]
    simp only [repeatWhile]
    split
    · cases f s with
      | done t => exact ih t
      | raised e t => rfl
    · rename_i hc
      cases k with
      | zero => rfl
      | succ k => simp only [bind_done, repeatWhile, if_neg hc]

section

variable {A : σ → Prop} {S : ε → σ → σ → Prop}

theorem forEach_parts {f g : ι → σ → Outcome ε σ} (is : List ι) (h : ∀ i ∈ is, ∀ s, A s → Parts A S (f i s) (g i s))
    (hS : ∀ i ∈ is, ∀ e s t, S e s t → S e s (g i t).state) {s : σ} (hs : A s) : Parts A S (forEach f is s) (forEach g is s) := by
  induction is generalizing s with
  | nil => exact .same hs
  | cons i is ih =>
    have hrest : ∀ j ∈ is, ∀ e s t, S e s t → S e s (g j t).state := fun j hj => hS j (List.mem_cons_of_mem i hj)
    refine (h i (List.mem_cons_self ..) s hs).bind (fun t ht => ?_) fun e s t hst => ?_
    · exact ih (fun j hj => h j (List.mem_cons_of_mem i hj)) hrest ht
    · exact forEach_state (P := S e s) is (fun j hj t => hrest j hj e s t) hst

theorem repeatWhile_parts {c : σ → Bool} {f g : σ → Outcome ε σ} (h : ∀ s, A s → c s = true → Parts A S (f s) (g s))
    (hS : ∀ e s t, S e s t → S e s (g t).state) (k : Nat) {s : σ} (hs : A s) :
    Parts A S (repeatWhile c f k s) (repeatWhile c g k s) := by
  induction k generalizing s with
  | zero => exact .same hs
  | succ k ih =>
    simp only [repeatWhile]
    split
    · rename_i hc
      refine (h s hs hc).bind (fun t ht => ih ht) fun e s t hst => ?_
      exact repeatWhile_state (P := S e s) (fun t ht _ => hS e s t ht) k hst
    · exact .same hs

end

end PyxelVM.Lib
