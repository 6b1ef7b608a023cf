/-
  PyxelVM.Vm.Chain — the daisy chain of frames (`zdx_parallel_vm.py`).

  `chain` says which frames follow each other, whatever the cap: the next one is the
  registry entry of the last executed SAVE_STATE whose index is registered, run on the
  machine the frame before left. `traceTexture` is `execute_texture` with a record of the
  frames it ran.

  - `chain_reset`, `chain_next`: a frame of the chain begins with the registers and slots
    of the one before, and with no thread halted or to skip.
  - `traceFollow_ends`: what the loop has run when it ends, with `k` frames to go.
  - `daisy_chain_law`: the call returns if one of the first `max_chain` frames of the
    chain names no other, raises if a target is missing, and otherwise at the cap; each
    time it has run the frames of the chain up to there.
-/

import PyxelVM.Vm.Termination

namespace PyxelVM.Vm

open PyxelVM.Lib

variable {n : Nat}

/-! ## The chain -/

/-- A frame that was run: on the machine `start`, with the outcome recorded. -/
structure Ran (n : Nat) where
  path : String
  start : Machine n
  outcome : Outcome Raised (Traced n)

def Ran.run (r : Ran n) : Traced n := r.outcome.state

section

variable (cfg : Config) (files : String → File)

/-- The registry entry of the last executed SAVE_STATE whose index is registered. -/
def Ran.next (r : Ran n) : Option String := lastRegistered cfg r.run.cells

def ranAt (path : String) (m : Machine n) : Option (Ran n) :=
  match files path with
  | .image img => some ⟨path, m, traceFrame cfg path img m⟩
  | .missing | .notImage => none

/-- The frame `i` hops from the one at `path`, if the chain goes on that far. -/
def chain (path : String) (m : Machine n) : Nat → Option (Ran n)
  | 0 => ranAt cfg files path m
  | i + 1 => (chain path m i).bind fun r => (r.next cfg).bind fun next => ranAt cfg files next r.run.machine

/-! ## The call, recorded -/

structure Chained (n : Nat) where
  machine : Machine n
  ran : List (Ran n)

def tracedSingle (path : String) (s : Chained n) : Outcome Raised (Chained n) :=
  match files path with
  | .missing => .raised (.noFile path) s
  | .notImage => .raised (.noImage path) s
  | .image img =>
    let o := traceFrame cfg path img s.machine
    o.map fun r => ⟨r.machine, s.ran ++ [⟨path, s.machine, o⟩]⟩

def traceFollow : Nat → String → Chained n → Outcome Raised (Chained n)
  | 0, current, s => .raised (.maxChain cfg.maxChain current) s
  | k + 1, current, s =>
    (tracedSingle cfg files current s).bind fun s =>
      match s.machine.nextFrame with
      | none => .done s
      | some next =>
        match files next with
        | .missing => .raised (.chainedFile next) s
        | _ => traceFollow k next s

def traceTexture (path : String) (m : Machine n) : Outcome Raised (Chained n) :=
  (traceFollow cfg files cfg.maxChain path ⟨m, []⟩).bind fun s =>
    .done (if cfg.persistShared then { s with machine := { s.machine with savedShared := some s.machine.shared } } else s)

end

variable {cfg : Config} {files : String → File} {path : String} {m : Machine n}

theorem map_eq_lift (o : Outcome Raised (Chained n)) : o.map Chained.machine = o.lift id Chained.machine := by cases o <;> rfl

theorem tracedSingle_machine (path : String) (s : Chained n) :
    executeSingle cfg files path s.machine = (tracedSingle cfg files path s).lift id Chained.machine := by
  unfold tracedSingle executeSingle
  cases files path with
  | missing => rfl
  | notImage => rfl
  | image img =>
    simp only
    rw [← traceFrame_machine]
    cases traceFrame cfg path img s.machine <;> rfl

theorem traceFollow_machine (k : Nat) (path : String) (s : Chained n) :
    follow cfg files k path s.machine = (traceFollow cfg files k path s).lift id Chained.machine := by
  induction k generalizing path s with
  | zero => rfl
  | succ k ih =>
    rw [follow, tracedSingle_machine, traceFollow]
    refine Outcome.lift_bind id Chained.machine fun t => ?_
    cases t.machine.nextFrame with
    | none => rfl
    | some next =>
      simp only
      cases files next with
      | missing => rfl
      | notImage => exact ih next t
      | image img => exact ih next t

/-- The record of the call is the call. -/
theorem traceTexture_machine (cfg : Config) (files : String → File) (path : String) (m : Machine n) :
    (traceTexture cfg files path m).map Chained.machine = executeTexture cfg files path m := by
  rw [map_eq_lift, executeTexture, traceFollow_machine cfg.maxChain path ⟨m, []⟩, traceTexture]
  refine (Outcome.lift_bind id Chained.machine fun s => ?_).symm
  simp only [Outcome.lift]
  split <;> rfl

/-! ## One frame of the chain -/

theorem traceFrame_first (cfg : Config) (path : String) (img : Raster) (m : Machine n) :
    (traceFrame cfg path img m).state.frames[0]? = some m.enter := by
  have hends := traceFrame_ends cfg path img m
  cases ho : traceFrame cfg path img m with
  | done s =>
    rw [ho] at hends
    exact hends.1.first
  | raised e s =>
    rw [ho] at hends
    rcases hends with ⟨c, hc⟩ | ⟨-, hb, -⟩
    · exact hc.within.first
    · exact hb.first

theorem ranAt_eq_some {r : Ran n} (h : ranAt cfg files path m = some r) :
    r.path = path ∧ r.start = m ∧ ∃ img, files path = .image img ∧ r.outcome = traceFrame cfg path img m := by
  unfold ranAt at h
  cases hf : files path with
  | missing => simp [hf] at h
  | notImage => simp [hf] at h
  | image img =>
    simp only [hf, Option.some.injEq] at h
    subst h
    exact ⟨rfl, rfl, img, rfl, rfl⟩

/-- Where the chain begins, or goes on, it is at the frame of some path. -/
theorem chain_ranAt {i : Nat} {r : Ran n} (h : chain cfg files path m i = some r) : ∃ p m', ranAt cfg files p m' = some r := by
  cases i with
  | zero => exact ⟨path, m, h⟩
  | succ i =>
    obtain ⟨r', -, h⟩ := Option.bind_eq_some_iff.mp h
    obtain ⟨next, -, h⟩ := Option.bind_eq_some_iff.mp h
    exact ⟨next, r'.run.machine, h⟩

theorem chain_runs {i : Nat} {r : Ran n} (h : chain cfg files path m i = some r) :
    ∃ img, files r.path = .image img ∧ r.outcome = traceFrame cfg r.path img r.start := by
  obtain ⟨p, m', hr⟩ := chain_ranAt h
  obtain ⟨rfl, rfl, hrun⟩ := ranAt_eq_some hr
  exact hrun

theorem chain_begins {r : Ran n} (h : chain cfg files path m 0 = some r) : r.path = path ∧ r.start = m :=
  ⟨(ranAt_eq_some h).1, (ranAt_eq_some h).2.1⟩

/-- The flags are new, the registers and the slots are those it was run on. -/
theorem chain_reset {i : Nat} {r : Ran n} (h : chain cfg files path m i = some r) :
    ∃ f, r.run.frames[0]? = some f ∧ f.registers = r.start.registers ∧ f.shared = r.start.shared ∧
      ∀ y, f.halted y = false ∧ f.skipNext y = false := by
  obtain ⟨img, -, ho⟩ := chain_runs h
  refine ⟨r.start.enter, ?_, rfl, rfl, fun _ => ⟨rfl, rfl⟩⟩
  rw [Ran.run, ho]
  exact traceFrame_first cfg r.path img r.start

theorem chain_next {i : Nat} {r r' : Ran n} (h : chain cfg files path m i = some r)
    (h' : chain cfg files path m (i + 1) = some r') : r.next cfg = some r'.path ∧ r'.start = r.run.machine := by
  simp only [chain, h, Option.bind_some] at h'
  obtain ⟨next, hnext, h'⟩ := Option.bind_eq_some_iff.mp h'
  obtain ⟨hpath, hstart, -⟩ := ranAt_eq_some h'
  exact ⟨by rw [hnext, hpath], hstart⟩

/-- The chain after its first hop is the chain from there. -/
theorem chain_shift {r : Ran n} {next : String} (h : chain cfg files path m 0 = some r) (hnext : r.next cfg = some next) (i : Nat) :
    chain cfg files path m (i + 1) = chain cfg files next r.run.machine i := by
  induction i with
  | zero => simp only [chain] at h ⊢; simp [h, hnext]
  | succ i ih => rw [chain, ih, chain]

/-- A chain that has ended does not go on. -/
theorem chain_ended {i : Nat} (h : chain cfg files path m i = none) (d : Nat) : chain cfg files path m (i + d) = none := by
  induction d with
  | zero => exact h
  | succ d ih => rw [← Nat.add_assoc, chain, ih, Option.bind_none]

/-- No frame among the first `k` of the chain is stopped by its step cap. -/
def Uncapped (cfg : Config) (files : String → File) (path : String) (m : Machine n) (k : Nat) : Prop :=
  ∀ i < k, ∀ r, chain cfg files path m i = some r → ∀ cap p x w s, r.outcome ≠ .raised (.maxColSteps cap p x w) s

/-- Where JMPs only go forward, in frames no wider than the cap, it stops none. -/
theorem uncapped_of_forward (h : ∀ p img, files p = .image img → img.width ≤ cfg.maxColSteps ∧ Forward cfg img n) (k : Nat) :
    Uncapped cfg files path m k := by
  intro i _ r hr cap p x w s hcap
  obtain ⟨img, himg, ho⟩ := chain_runs hr
  have hends := traceFrame_ends cfg r.path img r.start
  rw [← ho, hcap] at hends
  rcases hends with ⟨c, hc⟩ | ⟨-, hb, hlen, hx⟩
  · cases hc.kind
  · exact hb.not_capped (h r.path img himg).2 (h r.path img himg).1 hlen hx

/-- A frame that is not stopped by its step cap hands over what its last SAVE_STATE says. -/
theorem Ran.completes (hs : cfg.strictMode = false) {img : Raster} (r : Ran n) (ho : r.outcome = traceFrame cfg r.path img r.start)
    (hcap : ∀ cap p x w s, r.outcome ≠ .raised (.maxColSteps cap p x w) s) :
    r.outcome = .done r.run ∧ r.run.machine.nextFrame = r.next cfg := by
  have hends := traceFrame_ends cfg r.path img r.start
  rw [← ho] at hends
  unfold Ran.run Ran.next Ran.run
  cases hout : r.outcome with
  | done s =>
    rw [hout] at hends
    exact ⟨rfl, hends.1.nextFrame⟩
  | raised e s =>
    rw [hout] at hends
    rcases hends with ⟨c, hc⟩ | ⟨rfl, -⟩
    · have := hc.strict
      rw [hs] at this
      cases this
    · exact absurd hout (hcap _ _ _ _ _)

/-! ## The loop -/

/-- The first `k` frames of the chain have been run after those before. -/
def RanChain (cfg : Config) (files : String → File) (path : String) (m : Machine n) (k : Nat) (before after : List (Ran n)) : Prop :=
  after.map some = before.map some ++ (List.range k).map (chain cfg files path m)

theorem RanChain.cons {r : Ran n} {next : String} (h : chain cfg files path m 0 = some r) (hnext : r.next cfg = some next)
    {k : Nat} {before after : List (Ran n)} (hran : RanChain cfg files next r.run.machine k (before ++ [r]) after) :
    RanChain cfg files path m (k + 1) before after := by
  unfold RanChain at hran ⊢
  have hshift : (chain cfg files path m) ∘ Nat.succ = chain cfg files next r.run.machine := funext (chain_shift h hnext)
  rw [hran, List.range_succ_eq_map, List.map_cons, List.map_map, hshift, h]
  simp

/-- The loop is over after frame `i`, which names no other. -/
def Ended (cfg : Config) (files : String → File) (path : String) (m : Machine n) (k : Nat) (before : List (Ran n))
    (s : Chained n) : Prop :=
  ∃ i < k, ∃ r, chain cfg files path m i = some r ∧ r.next cfg = none ∧ s.machine = r.run.machine ∧ s.machine.nextFrame = none ∧
    RanChain cfg files path m (i + 1) before s.ran

/-- Frame `i` names a file that is missing. -/
def Lost (cfg : Config) (files : String → File) (path : String) (m : Machine n) (k : Nat) (before : List (Ran n)) (e : Raised)
    (s : Chained n) : Prop :=
  ∃ i < k, ∃ r next, chain cfg files path m i = some r ∧ r.next cfg = some next ∧ files next = .missing ∧
    e = .chainedFile next ∧ RanChain cfg files path m (i + 1) before s.ran

/-- Each of the first `k` frames names another. -/
def Capped (cfg : Config) (files : String → File) (path : String) (m : Machine n) (k : Nat) (before : List (Ran n)) (e : Raised)
    (s : Chained n) : Prop :=
  (∃ last, e = .maxChain cfg.maxChain last) ∧
    (∀ i < k, ∃ r next, chain cfg files path m i = some r ∧ r.next cfg = some next ∧ files next ≠ .missing) ∧
    RanChain cfg files path m k before s.ran

theorem traceFollow_ends (hs : cfg.strictMode = false) (hvalid : ∀ p, files p ≠ .notImage) (k : Nat) (path : String)
    (s : Chained n) (hstart : files path ≠ .missing) (hcap : Uncapped cfg files path s.machine k) :
    (traceFollow cfg files k path s).Ends (Ended cfg files path s.machine k s.ran)
      fun e t => Lost cfg files path s.machine k s.ran e t ∨ Capped cfg files path s.machine k s.ran e t := by
  induction k generalizing path s with
  | zero =>
    have hnone : RanChain cfg files path s.machine 0 s.ran s.ran := by simp [RanChain]
    exact .inr ⟨⟨path, rfl⟩, fun i hi => (nomatch hi), hnone⟩
  | succ k ih =>
    obtain ⟨img, himg⟩ : ∃ img, files path = .image img := by
      cases hf : files path with
      | missing => exact absurd hf hstart
      | notImage => exact absurd hf (hvalid path)
      | image img => exact ⟨img, rfl⟩
    obtain ⟨r, hr⟩ : ∃ r : Ran n, r = ⟨path, s.machine, traceFrame cfg path img s.machine⟩ := ⟨_, rfl⟩
    have hchain : chain cfg files path s.machine 0 = some r := by rw [chain, ranAt, himg, hr]
    obtain ⟨hdone, hnextFrame⟩ := r.completes hs (by rw [hr]) (hcap 0 (Nat.succ_pos k) r hchain)
    have hsingle : tracedSingle cfg files path s = .done ⟨r.run.machine, s.ran ++ [r]⟩ := by
      have ho : traceFrame cfg path img s.machine = .done r.run := by rw [← hdone, hr]
      rw [tracedSingle, himg]
      simp only [ho, Outcome.map_done]
      rw [← ho, ← hr]
    have hran : RanChain cfg files path s.machine 1 s.ran (s.ran ++ [r]) := by
      simp [RanChain, hchain]
    rw [traceFollow, hsingle, Outcome.bind_done]
    simp only [hnextFrame]
    cases hnext : r.next cfg with
    | none => exact ⟨0, Nat.succ_pos k, r, hchain, hnext, rfl, hnextFrame.trans hnext, hran⟩
    | some next =>
      have hfurther (hf : files next ≠ .missing) : (traceFollow cfg files k next ⟨r.run.machine, s.ran ++ [r]⟩).Ends
          (Ended cfg files path s.machine (k + 1) s.ran)
          fun e t => Lost cfg files path s.machine (k + 1) s.ran e t ∨ Capped cfg files path s.machine (k + 1) s.ran e t := by
        have hshift := chain_shift hchain hnext
        refine (ih next ⟨r.run.machine, s.ran ++ [r]⟩ hf fun i hi r' hr' => ?_).imp ?_ ?_
        · exact hcap (i + 1) (Nat.succ_lt_succ hi) r' ((hshift i).trans hr')
        · intro t h
          obtain ⟨i, hi, r', hr', hnone, hm, hn, hrun⟩ := h
          exact ⟨i + 1, Nat.succ_lt_succ hi, r', (hshift i).trans hr', hnone, hm, hn, hrun.cons hchain hnext⟩
        · intro e t h
          rcases h with ⟨i, hi, r', next', hr', hn', hf', he, hrun⟩ | ⟨he, hall, hrun⟩
          · exact .inl ⟨i + 1, Nat.succ_lt_succ hi, r', next', (hshift i).trans hr', hn', hf', he, hrun.cons hchain hnext⟩
          · refine .inr ⟨he, fun i hi => ?_, hrun.cons hchain hnext⟩
            cases i with
            | zero => exact ⟨r, next, hchain, hnext, hf⟩
            | succ i =>
              obtain ⟨r', next', hr', hn', hf'⟩ := hall i (Nat.lt_of_succ_lt_succ hi)
              exact ⟨r', next', (hshift i).trans hr', hn', hf'⟩
      simp only
      cases hf : files next with
      | missing => exact .inl ⟨0, Nat.succ_pos k, r, next, hchain, hnext, hf, rfl, hran⟩
      | notImage => exact absurd hf (hvalid next)
      | image img => exact hfurther (by rw [hf]; exact File.noConfusion)

/-! ## The law -/

/-- The frame names no other, or one that is missing. -/
def Ran.Stops (cfg : Config) (files : String → File) (r : Ran n) : Prop :=
  r.next cfg = none ∨ ∃ next, r.next cfg = some next ∧ files next = .missing

theorem Ran.Stops.ends {i : Nat} {r : Ran n} (hstop : r.Stops cfg files) (h : chain cfg files path m i = some r) {j : Nat}
    (hj : i < j) : chain cfg files path m j = none := by
  have hnone : chain cfg files path m (i + 1) = none := by
    rw [chain, h, Option.bind_some]
    rcases hstop with hnext | ⟨next, hnext, hf⟩
    · rw [hnext, Option.bind_none]
    · rw [hnext, Option.bind_some, ranAt, hf]
  obtain ⟨d, rfl⟩ := Nat.exists_eq_add_of_lt hj
  rw [Nat.add_right_comm]
  exact chain_ended hnone d

/-- A chain stops at one frame at most. -/
theorem Ran.Stops.unique {i j : Nat} {r r' : Ran n} (hr : r.Stops cfg files) (hr' : r'.Stops cfg files)
    (h : chain cfg files path m i = some r) (h' : chain cfg files path m j = some r') : i = j ∧ r = r' := by
  rcases Nat.lt_trichotomy i j with hlt | rfl | hlt
  · rw [hr.ends h hlt] at h'
    cases h'
  · exact ⟨rfl, Option.some.inj (h.symm.trans h')⟩
  · rw [hr'.ends h' hlt] at h
    cases h

/-- What `execute_texture` does with a chain: `chain i` is the frame `i` hops from the first. -/
structure DaisyChain (cfg : Config) (files : String → File) (path : String) (m : Machine n) : Prop where
  record : (traceTexture cfg files path m).map Chained.machine = executeTexture cfg files path m
  begins : ∀ r, chain cfg files path m 0 = some r → r.path = path ∧ r.start = m
  runs : ∀ i r, chain cfg files path m i = some r → ∃ img, files r.path = .image img ∧
    r.outcome = traceFrame cfg r.path img r.start
  handover : ∀ i r r', chain cfg files path m i = some r → chain cfg files path m (i + 1) = some r' →
    r.next cfg = some r'.path ∧ r'.start = r.run.machine
  reset : ∀ i r, chain cfg files path m i = some r → ∃ f, r.run.frames[0]? = some f ∧ f.registers = r.start.registers ∧
    f.shared = r.start.shared ∧ ∀ y, f.halted y = false ∧ f.skipNext y = false
  returns : (∃ s, traceTexture cfg files path m = .done s) ↔
    ∃ i < cfg.maxChain, ∃ r, chain cfg files path m i = some r ∧ r.next cfg = none
  returned : ∀ s, traceTexture cfg files path m = .done s →
    ∀ i < cfg.maxChain, ∀ r, chain cfg files path m i = some r → r.next cfg = none →
      s.ran.map some = (List.range (i + 1)).map (chain cfg files path m) ∧
        s.machine.registers = r.run.machine.registers ∧ s.machine.shared = r.run.machine.shared ∧ s.machine.nextFrame = none
  missing : (∃ e s, traceTexture cfg files path m = .raised e s ∧ e.kind = .fileNotFoundError) ↔
    ∃ i < cfg.maxChain, ∃ r next, chain cfg files path m i = some r ∧ r.next cfg = some next ∧ files next = .missing
  lost : ∀ e s, traceTexture cfg files path m = .raised e s →
    ∀ i < cfg.maxChain, ∀ r next, chain cfg files path m i = some r → r.next cfg = some next → files next = .missing →
      e = .chainedFile next ∧ s.ran.map some = (List.range (i + 1)).map (chain cfg files path m)
  otherwise : (¬∃ s, traceTexture cfg files path m = .done s) →
    (¬∃ e s, traceTexture cfg files path m = .raised e s ∧ e.kind = .fileNotFoundError) →
      ∃ last s, traceTexture cfg files path m = .raised (.maxChain cfg.maxChain last) s ∧
        s.ran.map some = (List.range cfg.maxChain).map (chain cfg files path m)

theorem traceTexture_ends (hs : cfg.strictMode = false) (hvalid : ∀ p, files p ≠ .notImage) (hstart : files path ≠ .missing)
    (hcap : Uncapped cfg files path m cfg.maxChain) :
    (traceTexture cfg files path m).Ends
      (fun s => ∃ i < cfg.maxChain, ∃ r, chain cfg files path m i = some r ∧ r.next cfg = none ∧
        s.ran.map some = (List.range (i + 1)).map (chain cfg files path m) ∧
          s.machine.registers = r.run.machine.registers ∧ s.machine.shared = r.run.machine.shared ∧ s.machine.nextFrame = none)
      fun e s => Lost cfg files path m cfg.maxChain [] e s ∨ Capped cfg files path m cfg.maxChain [] e s := by
  refine (traceFollow_ends hs hvalid cfg.maxChain path ⟨m, []⟩ hstart hcap).bind ?_
  intro s h
  obtain ⟨i, hi, r, hr, hnext, hm, hn, hran⟩ := h
  have hregisters : s.machine.registers = r.run.machine.registers := congrArg Machine.registers hm
  have hshared : s.machine.shared = r.run.machine.shared := congrArg Machine.shared hm
  refine ⟨i, hi, r, hr, hnext, ?_⟩
  split
  · exact ⟨hran, hregisters, hshared, hn⟩
  · exact ⟨hran, hregisters, hshared, hn⟩

section

variable {s : Chained n} {e : Raised} {i : Nat} {r : Ran n}

/-- The law where the call returned. -/
theorem daisyChain_of_done (ho : traceTexture cfg files path m = .done s) (hi : i < cfg.maxChain)
    (hr : chain cfg files path m i = some r) (hnext : r.next cfg = none)
    (hran : s.ran.map some = (List.range (i + 1)).map (chain cfg files path m) ∧
      s.machine.registers = r.run.machine.registers ∧ s.machine.shared = r.run.machine.shared ∧ s.machine.nextFrame = none) :
    DaisyChain cfg files path m := by
  refine ⟨traceTexture_machine cfg files path m, fun _ => chain_begins, fun _ _ => chain_runs, fun _ _ _ => chain_next,
    fun _ _ => chain_reset, ?_, ?_, ?_, ?_, ?_⟩
  · exact ⟨fun _ => ⟨i, hi, r, hr, hnext⟩, fun _ => ⟨s, ho⟩⟩
  · intro s' hs' j _ r' hr' hnext'
    rw [ho] at hs'
    cases hs'
    obtain ⟨rfl, rfl⟩ := Ran.Stops.unique (.inl hnext) (.inl hnext') hr hr'
    exact hran
  · constructor
    · intro he
      obtain ⟨e, s', hs', -⟩ := he
      rw [ho] at hs'
      cases hs'
    · intro he
      obtain ⟨j, -, r', next, hr', hnext', hf⟩ := he
      obtain ⟨-, rfl⟩ := Ran.Stops.unique (.inl hnext) (.inr ⟨next, hnext', hf⟩) hr hr'
      rw [hnext] at hnext'
      cases hnext'
  · intro e s' hs'
    rw [ho] at hs'
    cases hs'
  · exact fun h => absurd ⟨s, ho⟩ h

theorem not_returned (ho : traceTexture cfg files path m = .raised e s) : ¬∃ s', traceTexture cfg files path m = .done s' := by
  intro h
  obtain ⟨s', hs'⟩ := h
  rw [ho] at hs'
  cases hs'

/-- The law where a target was missing. -/
theorem daisyChain_of_lost {next : String} (ho : traceTexture cfg files path m = .raised (.chainedFile next) s)
    (hi : i < cfg.maxChain) (hr : chain cfg files path m i = some r) (hnext : r.next cfg = some next)
    (hf : files next = .missing) (hran : s.ran.map some = (List.range (i + 1)).map (chain cfg files path m)) :
    DaisyChain cfg files path m := by
  have hstop : r.Stops cfg files := .inr ⟨next, hnext, hf⟩
  have hnot := not_returned ho
  refine ⟨traceTexture_machine cfg files path m, fun _ => chain_begins, fun _ _ => chain_runs, fun _ _ _ => chain_next,
    fun _ _ => chain_reset, ?_, ?_, ?_, ?_, ?_⟩
  · refine ⟨fun h => absurd h hnot, ?_⟩
    intro he
    obtain ⟨j, -, r', hr', hnext'⟩ := he
    obtain ⟨-, rfl⟩ := hstop.unique (.inl hnext') hr hr'
    rw [hnext] at hnext'
    cases hnext'
  · exact fun s' hs' => absurd ⟨s', hs'⟩ hnot
  · exact ⟨fun _ => ⟨i, hi, r, next, hr, hnext, hf⟩, fun _ => ⟨_, s, ho, rfl⟩⟩
  · intro e' s' hs' j _ r' next' hr' hnext' hf'
    rw [ho] at hs'
    cases hs'
    obtain ⟨rfl, rfl⟩ := hstop.unique (.inr ⟨next', hnext', hf'⟩) hr hr'
    rw [hnext] at hnext'
    cases hnext'
    exact ⟨rfl, hran⟩
  · exact fun _ h => absurd ⟨_, s, ho, rfl⟩ h

/-- No frame before the cap stops the chain. -/
theorem Capped.goes {k : Nat} {before : List (Ran n)} (h : Capped cfg files path m k before e s) {j : Nat} (hj : j < k)
    (hr : chain cfg files path m j = some r) : ¬r.Stops cfg files := by
  obtain ⟨r', next, hr', hnext, hf⟩ := h.2.1 j hj
  rw [hr] at hr'
  cases hr'
  intro he
  rcases he with hnone | ⟨next', hnext', hf'⟩
  · rw [hnext] at hnone
    cases hnone
  · rw [hnext] at hnext'
    cases hnext'
    exact hf hf'

/-- The law where the call came to the cap. -/
theorem daisyChain_of_capped (ho : traceTexture cfg files path m = .raised e s)
    (h : Capped cfg files path m cfg.maxChain [] e s) : DaisyChain cfg files path m := by
  have hnot := not_returned ho
  obtain ⟨last, rfl⟩ := h.1
  refine ⟨traceTexture_machine cfg files path m, fun _ => chain_begins, fun _ _ => chain_runs, fun _ _ _ => chain_next,
    fun _ _ => chain_reset, ?_, ?_, ?_, ?_, ?_⟩
  · refine ⟨fun h => absurd h hnot, ?_⟩
    intro he
    obtain ⟨j, hj, r', hr', hnext'⟩ := he
    exact absurd (.inl hnext') (h.goes hj hr')
  · exact fun s' hs' => absurd ⟨s', hs'⟩ hnot
  · constructor
    · intro he
      obtain ⟨e', s', hs', hkind⟩ := he
      rw [ho] at hs'
      cases hs'
      cases hkind
    · intro he
      obtain ⟨j, hj, r', next, hr', hnext', hf⟩ := he
      exact absurd (.inr ⟨next, hnext', hf⟩) (h.goes hj hr')
  · exact fun e' s' _ j hj r' next hr' hnext' hf => absurd (.inr ⟨next, hnext', hf⟩) (h.goes hj hr')
  · exact fun _ _ => ⟨last, s, ho, h.2.2⟩

end

/-- The daisy-chain law. -/
theorem daisy_chain_law (cfg : Config) (files : String → File) (path : String) (m : Machine n) (hs : cfg.strictMode = false)
    (hvalid : ∀ p, files p ≠ .notImage) (hstart : files path ≠ .missing) (hcap : Uncapped cfg files path m cfg.maxChain) :
    DaisyChain cfg files path m := by
  have hends := traceTexture_ends hs hvalid hstart hcap
  cases ho : traceTexture cfg files path m with
  | done s =>
    rw [ho] at hends
    obtain ⟨i, hi, r, hr, hnext, hran⟩ := hends
    exact daisyChain_of_done ho hi hr hnext hran
  | raised e s =>
    rw [ho] at hends
    rcases hends with ⟨i, hi, r, next, hr, hnext, hf, rfl, hran⟩ | hcapped
    · exact daisyChain_of_lost ho hi hr hnext hf hran
    · exact daisyChain_of_capped ho hcapped

/-- A frame that names frame 0 of the registry, which halts. -/
def twoFrames (path : String) : File :=
  if path = "frame.png" then .image ⟨1, 1, fun _ _ => ⟨60, 0, 0⟩⟩
  else if path = "whisperframe_B.png" then .image ⟨1, 1, fun _ _ => ⟨255, 0, 0⟩⟩
  else .missing

theorem daisy_chain_two_frames : DaisyChain {} twoFrames "frame.png" ({} : Machine 1) := by
  refine daisy_chain_law {} twoFrames "frame.png" {} rfl (fun p => ?_) (by simp [twoFrames])
    (uncapped_of_forward (fun p img hp => ?_) _)
  · unfold twoFrames
    repeat' split
    all_goals exact File.noConfusion
  · unfold twoFrames at hp
    split at hp
    · cases hp
      exact ⟨by decide, by unfold Forward; decide +kernel⟩
    split at hp
    · cases hp
      exact ⟨by decide, by unfold Forward; decide +kernel⟩
    · cases hp

end PyxelVM.Vm
