/-
  PyxelVM.Lib.Client — programs over an interface, and machines that are alike to them.

  An interface is its calls `ι`, with what each returns (`ο`). A machine answers a call or
  raises, and goes on in another state; a program makes calls by what the ones before
  returned, and ends where one raises.

  `Alike`: of two machines, one raises where the other does, else the answers are related,
  and so are the states left, as long as the call is allowed in the state of the second.
  `run_like`: then so it is of every program whose calls are allowed along its run on the
  second machine (`Meets`).
-/

import Mathlib.Data.List.Basic

namespace PyxelVM.Lib

/-- It is done, or makes a call and goes on by what that returns. -/
inductive Client (ι : Type) (ο : ι → Type) (α : Type) where
  | done (a : α)
  | call (i : ι) (next : ο i → Client ι ο α)

/-- A machine: what a call answers, and the state it leaves, raising or not. -/
abbrev CallStep (σ ε : Type) (ι : Type) (ο : ι → Type) := σ → (i : ι) → Except ε (ο i) × σ

namespace Client

variable {σ τ ε δ ι : Type} {ο : ι → Type} {α β : Type}

def run (step : CallStep σ ε ι ο) : Client ι ο α → σ → Except ε α × σ
  | .done a, s => (.ok a, s)
  | .call i next, s =>
    match step s i with
    | (.ok o, s) => (next o).run step s
    | (.error e, s) => (.error e, s)

/-- The calls one after the other, and then the program. -/
def each (is : List ι) (c : Client ι ο α) : Client ι ο α := is.foldr (fun i c => .call i fun _ => c) c

/-- Every call of the run is one that is allowed in the state it is made in. -/
def Meets (step : CallStep σ ε ι ο) (Ok : σ → ι → Prop) : Client ι ο α → σ → Prop
  | .done _, _ => True
  | .call i next, s => Ok s i ∧
    match step s i with
    | (.ok o, s) => (next o).Meets step Ok s
    | (.error _, _) => True

def decidableMeets (step : CallStep σ ε ι ο) (Ok : σ → ι → Prop) [∀ s i, Decidable (Ok s i)] :
    (c : Client ι ο α) → (s : σ) → Decidable (c.Meets step Ok s)
  | .done _, _ => isTrue trivial
  | .call i next, s =>
    match h : step s i with
    | (.ok o, s') =>
      have := decidableMeets step Ok (next o) s'
      decidable_of_iff (Ok s i ∧ (next o).Meets step Ok s') (by rw [Meets, h])
    | (.error _, _) => decidable_of_iff (Ok s i) (by rw [Meets, h]; exact (and_iff_left trivial).symm)

instance {step : CallStep σ ε ι ο} {Ok : σ → ι → Prop} [∀ s i, Decidable (Ok s i)] (c : Client ι ο α) (s : σ) :
    Decidable (c.Meets step Ok s) := decidableMeets step Ok c s

/-- Programs that make the same calls for as long as the answers are related, and then return related results. -/
inductive Same (A : ∀ i, ο i → ο i → Prop) (B : α → β → Prop) : Client ι ο α → Client ι ο β → Prop
  | done {a : α} {b : β} (h : B a b) : Same A B (.done a) (.done b)
  | call {i : ι} {next : ο i → Client ι ο α} {next' : ο i → Client ι ο β} (h : ∀ o o', A i o o' → Same A B (next o) (next' o')) :
    Same A B (.call i next) (.call i next')

/-- Both raise, or both answer, alike; the states left are related. -/
def Like (B : α → β → Prop) (R : σ → τ → Prop) (x : Except ε α × σ) (y : Except δ β × τ) : Prop :=
  R x.2 y.2 ∧
    match x.1, y.1 with
    | .ok a, .ok b => B a b
    | .error _, .error _ => True
    | _, _ => False

/-- The machines answer every allowed call alike. -/
def Alike (step : CallStep σ ε ι ο) (step' : CallStep τ δ ι ο) (Ok : τ → ι → Prop) (A : ∀ i, ο i → ο i → Prop)
    (R : σ → τ → Prop) : Prop :=
  ∀ s t i, R s t → Ok t i → Like (A i) R (step s i) (step' t i)

variable {step : CallStep σ ε ι ο} {step' : CallStep τ δ ι ο} {Ok Ok' : τ → ι → Prop} {A : ∀ i, ο i → ο i → Prop}
  {B : α → β → Prop} {R : σ → τ → Prop}

theorem meets_call {i : ι} {next : ο i → Client ι ο α} {t : τ} :
    (Client.call i next).Meets step' Ok t ↔ Ok t i ∧
      match step' t i with
      | (.ok o, t) => (next o).Meets step' Ok t
      | (.error _, _) => True := by
  rw [Meets]

theorem meets_of {i : ι} {next : ο i → Client ι ο α} {t : τ} (hok : Ok t i)
    (hnext : ∀ o t', step' t i = (.ok o, t') → (next o).Meets step' Ok t') : (Client.call i next).Meets step' Ok t := by
  refine meets_call.mpr ⟨hok, ?_⟩
  rcases hy : step' t i with ⟨y, t'⟩
  cases y with
  | ok o => exact hnext o t' hy
  | error d => trivial

/-- Calls that are allowed in every state. -/
theorem meets_each (Always : ι → Prop) {is : List ι} (h : ∀ i ∈ is, Always i) (a : α) (t : τ) :
    (each is (.done a) : Client ι ο α).Meets step' (fun _ i => Always i) t := by
  induction is generalizing t with
  | nil => trivial
  | cons i is ih =>
    obtain ⟨hi, his⟩ := List.forall_mem_cons.mp h
    exact meets_of hi fun _ _ _ => ih his _

theorem like_ok {a : α} {b : β} {s : σ} {t : τ} (h : B a b) (hR : R s t) :
    Like B R ((.ok a, s) : Except ε α × σ) ((.ok b, t) : Except δ β × τ) := ⟨hR, h⟩

theorem like_error {e : ε} {d : δ} {s : σ} {t : τ} (hR : R s t) :
    Like B R ((.error e, s) : Except ε α × σ) ((.error d, t) : Except δ β × τ) := ⟨hR, trivial⟩

/-- A program ends alike on machines that are alike. -/
theorem run_like (h : Alike step step' Ok A R) {c : Client ι ο α} {c' : Client ι ο β} (hc : Same A B c c') {s : σ} {t : τ}
    (hm : c'.Meets step' Ok t) (hR : R s t) : Like B R (c.run step s) (c'.run step' t) := by
  induction hc generalizing s t with
  | done hB => exact like_ok hB hR
  | @call i next next' hnext ih =>
    obtain ⟨hok, hrest⟩ := meets_call.mp hm
    have hlike := h s t i hR hok
    rw [run, run]
    rcases hx : step s i with ⟨x, s'⟩
    rcases hy : step' t i with ⟨y, t'⟩
    rw [hx, hy] at hlike
    rw [hy] at hrest
    obtain ⟨hR', hans⟩ := hlike
    cases x with
    | ok o =>
      cases y with
      | ok o' => exact ih o o' hans hrest hR'
      | error d => exact hans.elim
    | error e =>
      cases y with
      | ok o' => exact hans.elim
      | error d => exact like_error hR'

theorem Meets.mono {c : Client ι ο α} {t : τ} (h : ∀ t i, Ok t i → Ok' t i) (hm : c.Meets step' Ok t) : c.Meets step' Ok' t := by
  induction c generalizing t with
  | done a => trivial
  | call i next ih =>
    obtain ⟨hok, hrest⟩ := meets_call.mp hm
    refine meets_call.mpr ⟨h t i hok, ?_⟩
    rcases hy : step' t i with ⟨y, t'⟩
    rw [hy] at hrest
    cases y with
    | ok o => exact ih o hrest
    | error d => trivial

theorem Meets.and {c : Client ι ο α} {t : τ} (hm : c.Meets step' Ok t) (hm' : c.Meets step' Ok' t) :
    c.Meets step' (fun t i => Ok t i ∧ Ok' t i) t := by
  induction c generalizing t with
  | done a => trivial
  | call i next ih =>
    obtain ⟨hok, hrest⟩ := meets_call.mp hm
    obtain ⟨hok', hrest'⟩ := meets_call.mp hm'
    refine meets_call.mpr ⟨⟨hok, hok'⟩, ?_⟩
    rcases hy : step' t i with ⟨y, t'⟩
    rw [hy] at hrest hrest'
    cases y with
    | ok o => exact ih o hrest hrest'
    | error d => trivial

end Client

end PyxelVM.Lib
