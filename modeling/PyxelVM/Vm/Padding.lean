/-
  PyxelVM.Vm.Padding — a frame set into the corner of a larger one has its result.

  The larger frame has NOP cells to the right and below. It is wider, so that it goes
  on after the other has ended, a JMP in it reaches further, and a skip that was pending
  at the last column is spent; its further rows run. `Padded` says when none of this is
  seen: no VERIFY_FREQ, which compares with a cell counted from the right edge, and no
  JMP beyond the smaller frame.

  - `dispatch_padded`, `visit_corner`, `column_padded`: a cell, a turn, a column step
    both (`InStep`), where the column is one of both.
  - `column_beyond`: a column to the right of the smaller frame changes no result.
  - `runFrame_padded`: two runs that complete leave the same result (`SameResult`).
-/

import PyxelVM.Vm.Machine

namespace PyxelVM.Vm

open Function (update)
open PyxelVM.Lib

variable {n : Nat} {cfg cfg' : Config} {img big : Raster}

/-- The image is the corner of `big` that does not consist of NOPs, and what it says
    does not depend on the size of the frame; rows past the threads do not count. -/
structure Padded (cfg : Config) (n : Nat) (img big : Raster) : Prop where
  width : img.width ≤ big.width
  height : img.height ≤ big.height
  corner : ∀ y < img.height, ∀ x < img.width, big.px y x = img.px y x
  around : ∀ y < n, ∀ x < big.width, img.height ≤ y ∨ img.width ≤ x → big.px y x = .nop
  nop : cfg.opcode Pixel.nop.r = none
  verify : ∀ y < img.height, ∀ x < img.width, cfg.opcode (img.px y x).r ≠ some .verifyFreq
  jump : ∀ y < img.height, ∀ x < img.width, cfg.opcode (img.px y x).r = some .jmp → (img.px y x).g.toNat < img.width

/-- The same map and registry; strictness and the step caps are free. -/
structure SameCode (cfg cfg' : Config) : Prop where
  opmap : cfg.opmap = cfg'.opmap
  frameRegistry : cfg.frameRegistry = cfg'.frameRegistry

/-! ## Results -/

/-- A, B and OUT. -/
def Regs.Same (r s : Regs) : Prop := r.a = s.a ∧ r.b = s.b ∧ r.out = s.out

/-- A, B and OUT of every thread, every slot, and the next frame. -/
structure SameResult (m m' : Machine n) : Prop where
  registers : ∀ y, (m.registers y).Same (m'.registers y)
  shared : m.shared = m'.shared
  nextFrame : m.nextFrame = m'.nextFrame

theorem SameResult.refl (m : Machine n) : SameResult m m := ⟨fun _ => ⟨rfl, rfl, rfl⟩, rfl, rfl⟩

theorem SameResult.trans {m m' m'' : Machine n} (h : SameResult m m') (h' : SameResult m' m'') : SameResult m m'' := by
  refine ⟨fun y => ?_, h.shared.trans h'.shared, h.nextFrame.trans h'.nextFrame⟩
  obtain ⟨ha, hb, ho⟩ := h.registers y
  obtain ⟨ha', hb', ho'⟩ := h'.registers y
  exact ⟨ha.trans ha', hb.trans hb', ho.trans ho'⟩

/-- Equal but for T. -/
structure Core.Same (c d : Core) : Prop where
  regs : c.regs.Same d.regs
  shared : c.shared = d.shared
  nextFrame : c.nextFrame = d.nextFrame
  halted : c.halted = d.halted
  skipNext : c.skipNext = d.skipNext
  jumpTo : c.jumpTo = d.jumpTo

/-- The state of a cell, without T. -/
def Core.untimed (c : Core) : Core := { c with regs := { c.regs with t := 0 } }

theorem Core.same_iff {c d : Core} : c.Same d ↔ c.untimed = d.untimed := by
  constructor
  · rintro ⟨⟨ha, hb, ho⟩, hs, hn, hh, hk, hj⟩
    simp only [Core.untimed, ha, hb, ho, hs, hn, hh, hk, hj]
  · intro h
    simp only [Core.untimed, Core.mk.injEq, Regs.mk.injEq, and_true] at h
    obtain ⟨hr, hs, hn, hh, hk, hj⟩ := h
    exact ⟨hr, hs, hn, hh, hk, hj⟩

/-! ## One cell -/

/-- T is not read. -/
theorem dispatch_untimed (cfg : Config) (img : Raster) (y x : Nat) (p : Pixel) (c : Core) :
    dispatch cfg img y x p c.untimed = (dispatch cfg img y x p c).map Core.untimed := by
  unfold dispatch
  cases cfg.opcode p.r with
  | none =>
    simp only
    repeat' split
    all_goals rfl
  | some op =>
    cases op with
    | loadMem =>
      cases slot? p.g with
      | none =>
        simp only
        split <;> rfl
      | some s => rfl
    | storeMem =>
      cases slot? p.g with
      | none =>
        simp only
        split <;> rfl
      | some s => rfl
    | verifyFreq => cases img.get? y (img.width - 1 - x) <;> rfl
    | saveState => cases cfg.frameRegistry.get? p.g.toNat <;> rfl
    | jmp =>
      obtain ⟨regs, shared, nextFrame, halted, skipNext, jumpTo⟩ := c
      cases jumpTo with
      | none =>
        simp only [Core.untimed]
        split <;> rfl
      | some t => rfl
    | ifAEq => by_cases h : c.regs.a = p.b.toNat <;> simp [Core.untimed, h]
    | _ => rfl

/-- What only strict mode refuses leaves the state, if it is not refused. -/
theorem lenient {strict : Bool} {e : Raised} {c c' : Core}
    (h : (if strict then Outcome.raised e c else .done c) = .done c') : c = c' := by
  split at h
  · cases h
  · exact Outcome.done.inj h

/-- Nor is the size of the frame, but by VERIFY_FREQ and by a JMP beyond the smaller one. -/
theorem dispatch_wider (hc : SameCode cfg cfg') (hw : img.width ≤ big.width) {y x : Nat} {p : Pixel}
    (hv : cfg.opcode p.r ≠ some .verifyFreq) (hj : cfg.opcode p.r = some .jmp → p.g.toNat < img.width) {c d d' : Core}
    (hf : dispatch cfg big y x p c = .done d) (hg : dispatch cfg' img y x p c = .done d') : d = d' := by
  have hop : cfg'.opcode p.r = cfg.opcode p.r := by rw [Config.opcode, Config.opcode, hc.opmap]
  unfold dispatch at hf hg
  rw [hop, ← hc.frameRegistry] at hg
  cases hr : cfg.opcode p.r with
  | none =>
    simp only [hr] at hf hg
    by_cases hz : p.r.toNat = 0
    · rw [if_neg (not_not.mpr hz)] at hf hg
      exact Outcome.done.inj (hf.symm.trans hg)
    · rw [if_pos hz] at hf hg
      exact (lenient hf).symm.trans (lenient hg)
  | some op =>
    simp only [hr] at hf hg
    cases op with
    | verifyFreq => exact absurd hr hv
    | jmp =>
      have hlt := hj hr
      simp only [if_pos (Nat.lt_of_lt_of_le hlt hw)] at hf
      simp only [if_pos hlt] at hg
      exact Outcome.done.inj (hf.symm.trans hg)
    | loadMem =>
      cases hs : slot? p.g with
      | none =>
        simp only [hs] at hf hg
        exact (lenient hf).symm.trans (lenient hg)
      | some s =>
        simp only [hs] at hf hg
        exact Outcome.done.inj (hf.symm.trans hg)
    | storeMem =>
      cases hs : slot? p.g with
      | none =>
        simp only [hs] at hf hg
        exact (lenient hf).symm.trans (lenient hg)
      | some s =>
        simp only [hs] at hf hg
        exact Outcome.done.inj (hf.symm.trans hg)
    | _ => exact Outcome.done.inj (hf.symm.trans hg)

theorem dispatch_padded (hc : SameCode cfg cfg') (hw : img.width ≤ big.width) {y x : Nat} {p : Pixel}
    (hv : cfg.opcode p.r ≠ some .verifyFreq) (hj : cfg.opcode p.r = some .jmp → p.g.toNat < img.width) {c d c' d' : Core}
    (h : c.Same d) (hf : dispatch cfg big y x p c = .done c') (hg : dispatch cfg' img y x p d = .done d') : c'.Same d' := by
  have hf' : dispatch cfg big y x p c.untimed = .done c'.untimed := by rw [dispatch_untimed, hf, Outcome.map_done]
  have hg' : dispatch cfg' img y x p d.untimed = .done d'.untimed := by rw [dispatch_untimed, hg, Outcome.map_done]
  rw [← Core.same_iff.mp h] at hg'
  exact Core.same_iff.mpr (dispatch_wider hc hw hv hj hf' hg')

/-! ## One turn -/

/-- Both frames are at one column, with the same result so far; the threads that have
    a row in the smaller have the same flags. -/
structure InStep (img : Raster) (f g : Frame n) : Prop where
  result : SameResult f.toMachine g.toMachine
  flags : ∀ y : Fin n, y < img.height → f.halted y = g.halted y ∧ f.skipNext y = g.skipNext y
  jumpTo : f.jumpTo = g.jumpTo
  x : f.x = g.x

/-- The turn on a NOP cell, or of a thread that has none. -/
theorem visit_nop {y : Fin n} {f f' : Frame n} (hnop : cfg.opcode Pixel.nop.r = none)
    (hp : y < big.height → f.x < big.width → big.px y f.x = .nop) (hf : visit cfg big y f = .done f') :
    SameResult f'.toMachine f.toMachine ∧ f'.jumpTo = f.jumpTo ∧ f'.x = f.x ∧
      ∀ z, z ≠ y → f'.halted z = f.halted z ∧ f'.skipNext z = f.skipNext z := by
  have hsame : ∀ r : Regs, r.Same r := fun _ => ⟨rfl, rfl, rfl⟩
  unfold visit at hf
  split at hf
  · cases hf
    exact ⟨⟨fun _ => hsame _, rfl, rfl⟩, rfl, rfl, fun _ _ => ⟨rfl, rfl⟩⟩
  split at hf
  · cases hf
    exact ⟨⟨fun _ => hsame _, rfl, rfl⟩, rfl, rfl, fun z hz => ⟨rfl, Function.update_of_ne hz _ _⟩⟩
  split at hf
  · cases hf
  rename_i p hget
  have hcell : p = .nop := by
    obtain ⟨⟨hy, hx⟩, rfl⟩ := get?_eq_some.mp hget
    exact hp hy hx
  have hd : dispatch cfg big y f.x p ((f.tick y).core y) = .done ((f.tick y).core y) := by
    rw [hcell, dispatch, hnop]
    rfl
  rw [hd] at hf
  cases hf
  refine ⟨⟨?_, rfl, rfl⟩, rfl, rfl, ?_⟩
  · intro z
    by_cases hz : z = y
    · subst hz
      simp [Frame.withCore, Frame.core, Frame.tick, Regs.Same]
    · simp [Frame.withCore, Frame.tick, hz, Regs.Same]
  · intro z hz
    simp [Frame.withCore, Frame.tick, hz]

/-- A thread whose row is below the smaller frame. -/
theorem visit_below (hp : Padded cfg n img big) {y : Fin n} (hy : img.height ≤ y) {f g f' g' : Frame n}
    (h : InStep img f g) (hf : visit cfg big y f = .done f') (hg : visit cfg' img y g = .done g') :
    InStep img f' g' ∧ f'.x = f.x := by
  rw [visit, if_pos (.inl hy)] at hg
  cases hg
  obtain ⟨hres, hj, hx, hflags⟩ := visit_nop hp.nop (fun _ hx => hp.around y y.isLt f.x hx (.inl hy)) hf
  refine ⟨⟨hres.trans h.result, ?_, hj.trans h.jumpTo, hx.trans h.x⟩, hx⟩
  intro z hz
  have hzy : z ≠ y := by
    rintro rfl
    omega
  exact ⟨(hflags z hzy).1.trans (h.flags z hz).1, (hflags z hzy).2.trans (h.flags z hz).2⟩

/-- A thread of the smaller frame, in a column of it. -/
theorem visit_corner (hc : SameCode cfg cfg') (hp : Padded cfg n img big) {y : Fin n} (hy : y < img.height)
    {f g f' g' : Frame n} (hx : f.x < img.width) (h : InStep img f g) (hf : visit cfg big y f = .done f')
    (hg : visit cfg' img y g = .done g') : InStep img f' g' ∧ f'.x = f.x := by
  obtain ⟨⟨hr, hs, hn⟩, hflags, hj, hgx⟩ := h
  obtain ⟨hh, hk⟩ := hflags y hy
  have hbig : ¬big.height ≤ y := by have := hp.height; omega
  have hget : big.get? y f.x = some (img.px y f.x) := by
    rw [get?_inside (Nat.lt_of_lt_of_le hy hp.height) (Nat.lt_of_lt_of_le hx hp.width), hp.corner y hy f.x hx]
  have hget' : img.get? y g.x = some (img.px y f.x) := by rw [← hgx, get?_inside hy hx]
  unfold visit at hf hg
  simp only [hbig, Nat.not_le.mpr hy, false_or, ← hh, ← hk, hget, hget'] at hf hg
  split at hf
  · rw [if_pos ‹_›] at hg
    cases hf
    cases hg
    exact ⟨⟨⟨hr, hs, hn⟩, hflags, hj, hgx⟩, rfl⟩
  rw [if_neg ‹_›] at hg
  split at hf
  · rw [if_pos ‹_›] at hg
    cases hf
    cases hg
    refine ⟨⟨⟨hr, hs, hn⟩, ?_, hj, hgx⟩, rfl⟩
    intro z hz
    refine ⟨(hflags z hz).1, ?_⟩
    simp only [Function.update_apply, (hflags z hz).2]
  rw [if_neg ‹_›] at hg
  obtain ⟨c, hcf, rfl⟩ := Outcome.map_eq_done hf
  obtain ⟨d, hdg, rfl⟩ := Outcome.map_eq_done hg
  have hcore : ((f.tick y).core y).Same ((g.tick y).core y) :=
    ⟨by simpa [Frame.core, Frame.tick, Regs.Same] using hr y, hs, hn, hh, hk, hj⟩
  rw [← hgx] at hdg
  obtain ⟨hcr, hcs, hcn, hch, hck, hcj⟩ := dispatch_padded hc hp.width (hp.verify y hy f.x hx)
    (hp.jump y hy f.x hx) hcore hcf hdg
  refine ⟨⟨⟨?_, hcs, hcn⟩, ?_, hcj, hgx⟩, rfl⟩
  · intro z
    by_cases hz : z = y
    · subst hz
      simpa [Frame.withCore] using hcr
    · simpa [Frame.withCore, Frame.tick, hz] using hr z
  · intro z hzh
    by_cases hz : z = y
    · subst hz
      simpa [Frame.withCore] using ⟨hch, hck⟩
    · simpa [Frame.withCore, Frame.tick, hz] using hflags z hzh

/-! ## The frame -/

theorem column_padded (hc : SameCode cfg cfg') (hp : Padded cfg n img big) {f g f' g' : Frame n} (hx : g.x < img.width)
    (h : InStep img f g) (hf : column cfg big f = .done f') (hg : column cfg' img g = .done g') : InStep img f' g' := by
  obtain ⟨u, hu, hf⟩ := Outcome.bind_eq_done hf
  obtain ⟨v, hv, hg⟩ := Outcome.bind_eq_done hg
  cases hf
  cases hg
  have hturn : ∀ y ∈ List.finRange n, ∀ s t s' t' : Frame n, InStep img s t ∧ s.x < img.width → visit cfg big y s = .done s' →
      visit cfg' img y t = .done t' → InStep img s' t' ∧ s'.x < img.width := by
    rintro y - s t s' t' ⟨hst, hsx⟩ hs ht
    have hstep : InStep img s' t' ∧ s'.x = s.x := by
      rcases Nat.lt_or_ge y img.height with hy | hy
      · exact visit_corner hc hp hy hsx hst hs ht
      · exact visit_below hp hy hst hs ht
    exact ⟨hstep.1, hstep.2 ▸ hsx⟩
  obtain ⟨⟨hres, hfl, hj, hxs⟩, -⟩ := forEach_both _ hturn
    (s := { f with clock := f.x, jumpTo := none }) (t := { g with clock := g.x, jumpTo := none })
    ⟨⟨⟨h.result.registers, h.result.shared, h.result.nextFrame⟩, h.flags, rfl, h.x⟩, h.x ▸ hx⟩ hu hv
  refine ⟨⟨hres.registers, hres.shared, hres.nextFrame⟩, hfl, hj, ?_⟩
  show u.jumpTo.getD (u.x + 1) = v.jumpTo.getD (v.x + 1)
  rw [hj, hxs]

/-- A column to the right of the smaller frame. -/
theorem column_beyond (hp : Padded cfg n img big) {f f' : Frame n} (hx : img.width ≤ f.x) (hf : column cfg big f = .done f') :
    SameResult f'.toMachine f.toMachine ∧ img.width ≤ f'.x := by
  obtain ⟨u, hu, hf⟩ := Outcome.bind_eq_done hf
  cases hf
  have hturn : ∀ y ∈ List.finRange n, ∀ s s' : Frame n, (SameResult s.toMachine f.toMachine ∧ s.jumpTo = none ∧ s.x = f.x) →
      visit cfg big y s = .done s' → SameResult s'.toMachine f.toMachine ∧ s'.jumpTo = none ∧ s'.x = f.x := by
    rintro y - s s' ⟨hres, hj, hsx⟩ hs
    obtain ⟨hres', hj', hx', -⟩ := visit_nop hp.nop (fun _ hlt => hp.around y y.isLt s.x hlt (.inr (hsx ▸ hx))) hs
    exact ⟨hres'.trans hres, hj'.trans hj, hx'.trans hsx⟩
  obtain ⟨hres, hj, hxu⟩ := forEach_done _ hturn (s := { f with clock := f.x, jumpTo := none })
    ⟨⟨fun _ => ⟨rfl, rfl, rfl⟩, rfl, rfl⟩, rfl, rfl⟩ hu
  refine ⟨⟨hres.registers, hres.shared, hres.nextFrame⟩, ?_⟩
  show img.width ≤ u.jumpTo.getD (u.x + 1)
  rw [hj, hxu]
  exact Nat.le_succ_of_le hx

/-- A frame that completes has gone past its last column. -/
theorem runFrame_done {path : String} {m m' : Machine n} (h : runFrame cfg path img m = .done m') :
    ∃ f, repeatWhile (fun f => decide (f.x < img.width)) (column cfg img) cfg.maxColSteps m.enter = .done f ∧
      img.width ≤ f.x ∧ Frame.toMachine f = m' := by
  obtain ⟨f, hf, rfl⟩ := Outcome.map_eq_done h
  obtain ⟨g, hg, hend⟩ := Outcome.bind_eq_done hf
  split at hend
  · cases hend
  · cases hend
    exact ⟨f, hg, by omega, rfl⟩

theorem runFrame_padded (hc : SameCode cfg cfg') (hp : Padded cfg n img big) {path path' : String} {m m₁ m₂ : Machine n}
    (hf : runFrame cfg path big m = .done m₁) (hg : runFrame cfg' path' img m = .done m₂) : SameResult m₁ m₂ := by
  obtain ⟨f, hloop, hfx, rfl⟩ := runFrame_done hf
  obtain ⟨g, hloop', hgx, rfl⟩ := runFrame_done hg
  have hw := hp.width
  -- the smaller frame ends first; the columns the larger one has left are NOPs
  have hrun := repeatWhile_outlasts (R := InStep img)
    (Q := fun f g : Frame n => SameResult f.toMachine g.toMachine ∧ img.width ≤ f.x)
    (c := fun f : Frame n => decide (f.x < big.width))
    (d := fun g : Frame n => decide (g.x < img.width)) (f := column cfg big) (g := column cfg' img)
    (fun f g h hg => by
      have hx := h.x
      simp only [decide_eq_true_eq] at hg ⊢
      omega)
    (fun f g f' g' h hx hf hg => column_padded hc hp (of_decide_eq_true hx) h hf hg)
    (fun f g h hg => ⟨h.result, by
      have hx := h.x
      simp only [decide_eq_false_iff_not] at hg
      omega⟩)
    (fun f g f' h _ hf => by
      obtain ⟨hres, hx⟩ := column_beyond hp h.2 hf
      exact ⟨hres.trans h.1, hx⟩)
    (s := m.enter) (t := m.enter) ⟨.refl _, fun _ _ => ⟨rfl, rfl⟩, rfl, rfl⟩ hloop hloop'
    (decide_eq_false (Nat.not_lt.mpr hfx)) (decide_eq_false (Nat.not_lt.mpr hgx))
  exact hrun.1

end PyxelVM.Vm
