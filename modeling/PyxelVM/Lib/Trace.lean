/-
  PyxelVM.Lib.Trace — runs of a deterministic machine with outputs, and erasing
  inputs from a run.

  A machine is a step function from a state and an input to an output and the next
  state. `log` is every input of a run with the output it got; `final` is the state
  the run ends in. `kept` are the inputs a run leaves when those whose output the
  predicate `keep` refuses are erased; which they are may depend on the run.

  Proved:
  - `lockstep`: two machines that step alike answer alike along every run.
  - `erase`: unwinding. If a relation between two states is kept by an input both
    runs take and by an input only the first takes, and an erased input shows
    nothing, then the run and the run on what is kept show the same and end related.
  - `erase_filter`: the case where the input alone decides.
  - `project`: a run of a machine whose view is a machine of its own on the inputs `keep`.
  - `prefixes_iff`: if a step from a good state ends well exactly under a condition, the
    states of a run are all good exactly if each of its steps meets the condition.
-/

import Mathlib.Data.List.Basic

namespace PyxelVM.Lib.Trace

variable {σ ι ο α : Type}

/-- Every input of the run from `s`, with the output it got. -/
def log (step : σ → ι → ο × σ) : σ → List ι → List (ι × ο)
  | _, [] => []
  | s, i :: is => (i, (step s i).1) :: log step (step s i).2 is

/-- The state the run from `s` ends in. -/
def final (step : σ → ι → ο × σ) : σ → List ι → σ
  | s, [] => s
  | s, i :: is => final step (step s i).2 is

/-- The inputs left when those whose output `keep` refuses are erased. -/
def kept (step : σ → ι → ο × σ) (keep : ι → ο → Bool) (s : σ) (is : List ι) : List ι :=
  ((log step s is).filter fun x => keep x.1 x.2).map (·.1)

/-- What an observer sees of a run. -/
def seen (step : σ → ι → ο × σ) (obs : ι → ο → List α) (s : σ) (is : List ι) : List α :=
  (log step s is).flatMap fun x => obs x.1 x.2

variable {step : σ → ι → ο × σ} {keep : ι → ο → Bool} {obs : ι → ο → List α}

@[simp] theorem log_nil (s : σ) : log step s [] = [] := rfl
@[simp] theorem log_cons (s : σ) (i : ι) (is : List ι) :
    log step s (i :: is) = (i, (step s i).1) :: log step (step s i).2 is := rfl
@[simp] theorem final_nil (s : σ) : final step s [] = s := rfl
@[simp] theorem final_cons (s : σ) (i : ι) (is : List ι) :
    final step s (i :: is) = final step (step s i).2 is := rfl

@[simp] theorem kept_nil (s : σ) : kept step keep s [] = [] := rfl

theorem kept_cons (s : σ) (i : ι) (is : List ι) :
    kept step keep s (i :: is) =
      if keep i (step s i).1 then i :: kept step keep (step s i).2 is else kept step keep (step s i).2 is := by
  by_cases h : keep i (step s i).1 = true <;> simp [kept, h]

theorem seen_cons (s : σ) (i : ι) (is : List ι) :
    seen step obs s (i :: is) = obs i (step s i).1 ++ seen step obs (step s i).2 is := by
  simp [seen]

theorem final_append (s : σ) (is js : List ι) :
    final step s (is ++ js) = final step (final step s is) js := by
  induction is generalizing s with
  | nil => rfl
  | cons i is ih => simp [ih]

theorem log_append (s : σ) (is js : List ι) :
    log step s (is ++ js) = log step s is ++ log step (final step s is) js := by
  induction is generalizing s with
  | nil => rfl
  | cons i is ih => rw [List.cons_append, log_cons, ih, log_cons, final_cons, List.cons_append]

theorem mem_log_input {s : σ} {is : List ι} {x : ι × ο} (h : x ∈ log step s is) : x.1 ∈ is := by
  induction is generalizing s with
  | nil => cases h
  | cons i is ih =>
    rcases List.mem_cons.mp h with rfl | h
    · exact List.mem_cons_self
    · exact List.mem_cons_of_mem i (ih h)

theorem final_concat (s : σ) (is : List ι) (i : ι) : final step s (is ++ [i]) = (step (final step s is) i).2 :=
  final_append s is [i]

theorem log_concat (s : σ) (is : List ι) (i : ι) :
    log step s (is ++ [i]) = log step s is ++ [(i, (step (final step s is) i).1)] := log_append s is [i]

theorem seen_concat (s : σ) (is : List ι) (i : ι) :
    seen step obs s (is ++ [i]) = seen step obs s is ++ obs i (step (final step s is) i).1 := by
  rw [seen, log_concat, List.flatMap_append, List.flatMap_singleton, ← seen]

/-- Lockstep: two machines whose steps keep `R` and answer alike, up to `f`, answer alike along every run. -/
theorem lockstep {τ ο' : Type} {step' : τ → ι → ο' × τ} {R : σ → τ → Prop} {f : ο → ο'}
    (h : ∀ s t i, R s t → f (step s i).1 = (step' t i).1 ∧ R (step s i).2 (step' t i).2) {s : σ} {t : τ} (hR : R s t)
    (is : List ι) :
    (log step s is).map (fun x => f x.2) = (log step' t is).map (·.2) ∧ R (final step s is) (final step' t is) := by
  induction is generalizing s t with
  | nil => exact ⟨rfl, hR⟩
  | cons i is ih =>
    obtain ⟨hf, hR'⟩ := h s t i hR
    obtain ⟨hl, hR''⟩ := ih hR'
    exact ⟨by rw [log_cons, log_cons, List.map_cons, List.map_cons, hf, hl], hR''⟩

/-- Unwinding: `R` relates the run to the run on the inputs it keeps. -/
theorem erase {R : σ → σ → Prop}
    (hkeep : ∀ s t i, R s t → keep i (step s i).1 = true →
      R (step s i).2 (step t i).2 ∧ obs i (step s i).1 = obs i (step t i).1)
    (hdrop : ∀ s t i, R s t → keep i (step s i).1 = false → R (step s i).2 t ∧ obs i (step s i).1 = [])
    {s t : σ} (h : R s t) (is : List ι) :
    R (final step s is) (final step t (kept step keep s is)) ∧
      seen step obs s is = seen step obs t (kept step keep s is) := by
  induction is generalizing s t with
  | nil => exact ⟨h, rfl⟩
  | cons i is ih =>
    rw [kept_cons]
    cases hk : keep i (step s i).1 with
    | true =>
      obtain ⟨hR, ho⟩ := hkeep s t i h hk
      obtain ⟨hf, hs⟩ := ih hR
      refine ⟨by simpa using hf, ?_⟩
      rw [if_pos rfl, seen_cons, seen_cons, ho, hs]
    | false =>
      obtain ⟨hR, ho⟩ := hdrop s t i h hk
      obtain ⟨hf, hs⟩ := ih hR
      refine ⟨by simpa using hf, ?_⟩
      rw [if_neg (by simp), seen_cons, ho, hs, List.nil_append]

theorem kept_eq_filter (step : σ → ι → ο × σ) (keepI : ι → Bool) (s : σ) (is : List ι) :
    kept step (fun i _ => keepI i) s is = is.filter keepI := by
  induction is generalizing s with
  | nil => rfl
  | cons i is ih => rw [kept_cons, ih, List.filter_cons]

/-- Unwinding where the input alone decides whether it is erased. -/
theorem erase_filter (step : σ → ι → ο × σ) (obs : ι → ο → List α) (keepI : ι → Bool) (R : σ → σ → Prop)
    (hkeep : ∀ s t i, R s t → keepI i = true →
      R (step s i).2 (step t i).2 ∧ obs i (step s i).1 = obs i (step t i).1)
    (hdrop : ∀ s t i, R s t → keepI i = false → R (step s i).2 t ∧ obs i (step s i).1 = [])
    {s t : σ} (h : R s t) (is : List ι) :
    R (final step s is) (final step t (is.filter keepI)) ∧
      seen step obs s is = seen step obs t (is.filter keepI) := by
  rw [← kept_eq_filter step keepI s is]
  exact erase hkeep hdrop h is

/-- A view that the kept inputs change as `f` says, and the others do not change, is the run of `f` on those kept. -/
theorem project {β : Type} {view : σ → β} {f : β → ι → β} {keepI : ι → Bool} {ok : ι → Prop}
    (hkeep : ∀ s i, ok i → keepI i = true → view (step s i).2 = f (view s) i)
    (hdrop : ∀ s i, ok i → keepI i = false → view (step s i).2 = view s) (s : σ) {is : List ι} (his : ∀ i ∈ is, ok i) :
    view (final step s is) = (is.filter keepI).foldl f (view s) := by
  induction is generalizing s with
  | nil => rfl
  | cons i is ih =>
    obtain ⟨hi, his⟩ := List.forall_mem_cons.mp his
    rw [final_cons, ih _ his, List.filter_cons]
    cases hk : keepI i with
    | true => rw [if_pos rfl, List.foldl_cons, hkeep s i hi hk]
    | false => rw [if_neg Bool.false_ne_true, hdrop s i hi hk]

/-! ## Exact conditions -/

/-- A step from `P` ends in `Q` exactly under `C`, and then in `P` again: so the states a run from `P`
    comes to are all in `Q` exactly if all its steps meet `C`. -/
theorem prefixes_iff {f : σ → ι → σ} {P Q : σ → Prop} {ok : ι → Prop} {C : σ → ι → Prop}
    (hgood : ∀ s, P s → Q s)
    (hstep : ∀ s i, P s → ok i → (Q (f s i) → C s i) ∧ (C s i → P (f s i)))
    {s : σ} (hs : P s) {is : List ι} (his : ∀ i ∈ is, ok i) :
    (∀ past, past <+: is → Q (past.foldl f s)) ↔
      ∀ past i, past ++ [i] <+: is → C (past.foldl f s) i := by
  induction is generalizing s with
  | nil =>
    constructor
    · intro _ past i hp
      simp at hp
    · intro _ past hp
      rw [List.prefix_nil.mp hp]
      exact hgood s hs
  | cons i is ih =>
    obtain ⟨hi, his'⟩ := List.forall_mem_cons.mp his
    obtain ⟨hcond, hinv⟩ := hstep s i hs hi
    constructor
    · intro hall past j hp
      have hc := hcond (hall [i] (List.cons_prefix_cons.mpr ⟨rfl, List.nil_prefix⟩))
      cases past with
      | nil =>
        rw [(List.cons_prefix_cons.mp hp).1]
        exact hc
      | cons p ps =>
        obtain ⟨rfl, hps⟩ := List.cons_prefix_cons.mp hp
        exact (ih (hinv hc) his').mp (fun past' hp' => hall (p :: past') (List.cons_prefix_cons.mpr ⟨rfl, hp'⟩)) ps j hps
    · intro hall past hp
      cases past with
      | nil => exact hgood s hs
      | cons p ps =>
        obtain ⟨rfl, hps⟩ := List.cons_prefix_cons.mp hp
        have hc := hall [] p (List.cons_prefix_cons.mpr ⟨rfl, List.nil_prefix⟩)
        exact (ih (hinv hc) his').mpr
          (fun past' j hp' => hall (p :: past') j (List.cons_prefix_cons.mpr ⟨rfl, hp'⟩)) ps hps

end PyxelVM.Lib.Trace
