/-
  PyxelVM.Lib.Order — loops whose steps commute, in any order.

  Of two outcomes `SameEnd` says that they ended in the same state, or raised exceptions
  of one kind: of a loop that an exception ends, the order decides which step raises it
  and which have come before.

  - `forEach_perm`: if any two different steps, one after the other, have the same end
    either way, the loop has it in every order.
  - `repeatWhileAt_sameEnd`: a loop each of whose turns may be another one.
-/

import Mathlib.Data.List.Basic
import PyxelVM.Lib.Post

namespace PyxelVM.Lib

variable {ε κ σ τ ι : Type}

namespace Outcome

/-- Both ended in the same state, or both raised, exceptions of one kind. -/
inductive SameEnd (kind : ε → κ) : Outcome ε σ → Outcome ε σ → Prop where
  | done (s : σ) : SameEnd kind (.done s) (.done s)
  | raised {e e' : ε} (h : kind e = kind e') (s s' : σ) : SameEnd kind (.raised e s) (.raised e' s')

variable {kind : ε → κ} {o p q : Outcome ε σ}

theorem SameEnd.refl (o : Outcome ε σ) : SameEnd kind o o := by
  cases o with
  | done s => exact .done s
  | raised e s => exact .raised rfl s s

theorem SameEnd.trans (h : SameEnd kind o p) (h' : SameEnd kind p q) : SameEnd kind o q := by
  cases h with
  | done s => exact h'
  | raised h s s' =>
    cases h' with
    | raised h' s' s'' => exact .raised (h.trans h') s s''

theorem SameEnd.eq_done {s : σ} (h : SameEnd kind o (.done s)) : o = .done s := by
  cases h
  rfl

theorem SameEnd.bind (h : SameEnd kind o p) {k l : σ → Outcome ε σ} (hk : ∀ s, o = .done s → SameEnd kind (k s) (l s)) :
    SameEnd kind (o.bind k) (p.bind l) := by
  cases h with
  | done s => exact hk s rfl
  | raised h s s' => exact .raised h s s'

theorem SameEnd.map (h : SameEnd kind o p) (f : σ → τ) : SameEnd kind (o.map f) (p.map f) := by
  cases h with
  | done s => exact .done (f s)
  | raised h s s' => exact .raised h (f s) (f s')

theorem bind_assoc (o : Outcome ε σ) (k l : σ → Outcome ε σ) : (o.bind k).bind l = o.bind fun s => (k s).bind l := by
  cases o <;> rfl

end Outcome

open Outcome

variable {kind : ε → κ}

/-- Two steps neither of which makes the other raise, or spares it, and that leave the same state in either order. -/
theorem sameEnd_swap {f g : σ → Outcome ε σ} {s : σ} {k : κ} {R S : Prop}
    (hf : (f s).Ends (fun _ => ¬R) fun e _ => kind e = k ∧ R) (hg : (g s).Ends (fun _ => ¬S) fun e _ => kind e = k ∧ S)
    (hf' : (f (g s).state).Ends (fun _ => ¬R) fun e _ => kind e = k ∧ R)
    (hg' : (g (f s).state).Ends (fun _ => ¬S) fun e _ => kind e = k ∧ S)
    (h : (g (f s).state).state = (f (g s).state).state) : SameEnd kind ((f s).bind g) ((g s).bind f) := by
  cases hfs : f s with
  | raised e t =>
    rw [hfs] at hf
    cases hgs : g s with
    | raised e' u =>
      rw [hgs] at hg
      exact .raised (hf.1.trans hg.1.symm) t u
    | done u =>
      rw [hgs] at hf'
      simp only [bind_raised, bind_done]
      cases hfu : f u with
      | done v =>
        rw [Outcome.state, hfu] at hf'
        exact absurd hf.2 hf'
      | raised e' v =>
        rw [Outcome.state, hfu] at hf'
        exact .raised (hf.1.trans hf'.1.symm) t v
  | done t =>
    rw [hfs] at hg' h
    simp only [bind_done]
    simp only [Outcome.state] at hg' h
    cases hgs : g s with
    | raised e u =>
      rw [hgs] at hg
      cases hgt : g t with
      | done v =>
        rw [hgt] at hg'
        exact absurd hg.2 hg'
      | raised e' v =>
        rw [hgt] at hg'
        exact .raised (hg'.1.trans hg.1.symm) v u
    | done u =>
      rw [hfs] at hf
      rw [hgs] at hg hf' h
      simp only [bind_done]
      simp only [Outcome.state] at hf' h
      cases hgt : g t with
      | raised e v =>
        rw [hgt] at hg'
        exact absurd hg'.2 hg
      | done v =>
        cases hfu : f u with
        | raised e w =>
          rw [hfu] at hf'
          exact absurd hf'.2 hf
        | done w =>
          rw [hgt, hfu] at h
          cases h
          exact .done _

/-- Steps any two of which commute, where `P` holds, make a loop whose order does not matter. -/
theorem forEach_perm {P : σ → Prop} {f : ι → σ → Outcome ε σ} {is js : List ι} (hp : is.Perm js)
    (hkeep : ∀ i ∈ is, ∀ s s', P s → f i s = .done s' → P s')
    (hcomm : ∀ i ∈ is, ∀ j ∈ is, i ≠ j → ∀ s, P s → SameEnd kind ((f i s).bind (f j)) ((f j s).bind (f i)))
    {s : σ} (hs : P s) : SameEnd kind (forEach f is s) (forEach f js s) := by
  induction hp generalizing s with
  | nil => exact .refl _
  | cons i _ ih =>
    refine (SameEnd.refl (f i s)).bind fun t ht => ih ?_ ?_ (hkeep i (List.mem_cons_self ..) s t hs ht)
    · exact fun j hj => hkeep j (List.mem_cons_of_mem i hj)
    · exact fun j hj k hk => hcomm j (List.mem_cons_of_mem i hj) k (List.mem_cons_of_mem i hk)
  | swap i j is =>
    by_cases hij : j = i
    · subst hij
      exact .refl _
    have hswap := hcomm j (List.mem_cons_self ..) i (List.mem_cons_of_mem j (List.mem_cons_self ..)) hij s hs
    have hrest := hswap.bind (k := forEach f is) (l := forEach f is) fun t _ => SameEnd.refl _
    rw [bind_assoc, bind_assoc] at hrest
    exact hrest
  | trans hp _ ih ih' =>
    refine (ih hkeep hcomm hs).trans (ih' ?_ ?_ hs)
    · exact fun i hi => hkeep i (hp.mem_iff.mpr hi)
    · exact fun i hi j hj => hcomm i (hp.mem_iff.mpr hi) j (hp.mem_iff.mpr hj)

/-- `repeatWhile`, where turn `i` has a body of its own. -/
def repeatWhileAt (cond : σ → Bool) (body : Nat → σ → Outcome ε σ) : Nat → σ → Outcome ε σ
  | 0, s => .done s
  | k + 1, s => if cond s then (body 0 s).bind (repeatWhileAt cond (fun i => body (i + 1)) k) else .done s

theorem repeatWhileAt_const (cond : σ → Bool) (body : σ → Outcome ε σ) (k : Nat) (s : σ) :
    repeatWhileAt cond (fun _ => body) k s = repeatWhile cond body k s := by
  induction k generalizing s with
  | zero => rfl
  | succ k ih =>
    rw [repeatWhileAt, repeatWhile]
    congr 2
    funext t
    exact ih t

theorem repeatWhileAt_sameEnd {cond : σ → Bool} {body : Nat → σ → Outcome ε σ} {g : σ → Outcome ε σ}
    (h : ∀ i s, cond s = true → SameEnd kind (body i s) (g s)) (k : Nat) (s : σ) :
    SameEnd kind (repeatWhileAt cond body k s) (repeatWhile cond g k s) := by
  induction k generalizing body s with
  | zero => exact .refl _
  | succ k ih =>
    simp only [repeatWhileAt, repeatWhile]
    split
    · exact (h 0 s ‹_›).bind fun t _ => ih (fun i => h (i + 1)) t
    · exact .refl _

end PyxelVM.Lib
