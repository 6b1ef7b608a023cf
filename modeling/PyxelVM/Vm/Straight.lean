/-
  PyxelVM.Vm.Straight — frames without a JMP (`zdx_parallel_vm.py`).

  Without a JMP the columns come one after another (`column_next`), so what a row has at
  a column matters from there on only. Of two images that differ in one row, from column
  `i` on:

  - `run_until`: they run as one up to column `i`, or never come to it.
  - `runFrame_tail`: if the row's cells are confined from `i` on, in either image, the
    other threads and the slots come out the same.
  - `runFrame_idle`: if they are IF_A_EQs and NOPs, so do A, B and OUT of the thread itself.
  - `run_a`: as long as no cell of the row writes A, A stays as it was.
-/

import PyxelVM.Lib.Post
import PyxelVM.Vm.Confined
import PyxelVM.Vm.Padding
import PyxelVM.Vm.Rows

namespace PyxelVM.Vm

open Function (update)
open PyxelVM.Lib
open PyxelVM.Lib.Outcome

variable {n : Nat} {cfg : Config} {img img' : Raster}

/-- At most `k` columns, from the frame on. -/
def Frame.run (cfg : Config) (img : Raster) (k : Nat) (f : Frame n) : Outcome Raised (Frame n) :=
  repeatWhile (fun f => decide (f.x < img.width)) (column cfg img) k f

/-- The images differ in row `y`, from column `i` on, and before it a VERIFY_FREQ compares alike; there is no JMP. -/
structure DifferFrom (cfg : Config) (n y i : Nat) (img img' : Raster) : Prop where
  width : img.width = img'.width
  height : img.height = img'.height
  rows : ∀ z, z ≠ y → z < img.height → ∀ x < img.width, img.px z x = img'.px z x
  before : y < img.height → ∀ x < i, img.px y x = img'.px y x
  mirror : y < img.height → ∀ x < i, cfg.opcode (img.px y x).r = some .verifyFreq →
    (img.px y x = img.px y (img.width - 1 - x) ↔ img.px y x = img'.px y (img.width - 1 - x))
  straight : NoJmp cfg img n

/-! ## Columns in order -/

theorem visit_jumpTo (hj : NoJmp cfg img n) (y : Fin n) (f : Frame n) : (visit cfg img y f).state.jumpTo = f.jumpTo := by
  unfold visit
  split
  · rfl
  split
  · rfl
  split
  · rfl
  rename_i p hp
  have hop : ¬(cfg.opcode p.r = some .jmp ∧ p.g.toNat < img.width) := fun h => hj y y.isLt f.x p hp h.1
  have hflags := dispatch_flags cfg img y f.x p ((f.tick y).core y)
  rw [Outcome.state_map]
  refine hflags.jumpTo.trans ?_
  rw [if_neg hop, Option.or_none]
  rfl

theorem turns_state (hj : NoJmp cfg img n) (f : Frame n) :
    let o := forEach (visit cfg img) (List.finRange n) { f with clock := f.x, jumpTo := none }
    o.state.jumpTo = none ∧ o.state.x = f.x := by
  refine forEach_state (P := fun s : Frame n => s.jumpTo = none ∧ s.x = f.x) _ ?_ ⟨rfl, rfl⟩
  intro y _ s hs
  exact ⟨(visit_jumpTo hj y s).trans hs.1, (visit_x y s).trans hs.2⟩

theorem column_next (hj : NoJmp cfg img n) {f g : Frame n} (h : column cfg img f = .done g) : g.x = f.x + 1 := by
  have hturns := turns_state hj f
  obtain ⟨s, hs, hg⟩ := bind_eq_done h
  rw [hs] at hturns
  cases hg
  obtain ⟨hjump, hx⟩ := hturns
  simp only [state] at hjump hx
  simp only [Frame.advance, hjump, hx, Option.getD_none]

theorem column_x_le (hj : NoJmp cfg img n) (f : Frame n) : f.x ≤ (column cfg img f).state.x := by
  cases hc : column cfg img f with
  | done g =>
    have hnext := column_next hj hc
    simp only [state]
    omega
  | raised e g =>
    have hturns := turns_state hj f
    rw [column] at hc
    cases ho : forEach (visit cfg img) (List.finRange n) { f with clock := f.x, jumpTo := none } with
    | done s => simp [ho] at hc
    | raised e' s =>
      rw [ho] at hc hturns
      cases hc
      exact hturns.2.ge

/-! ## Up to the difference -/

/-- Of the image a cell reads its width, and VERIFY_FREQ the mirror cell. -/
theorem dispatch_image (hw : img.width = img'.width) {y x : Nat} {p : Pixel}
    (hmirror : cfg.opcode p.r = some .verifyFreq → (img.get? y (img.width - 1 - x)).map (fun q => decide (p = q)) =
      (img'.get? y (img.width - 1 - x)).map (fun q => decide (p = q))) (c : Core) :
    dispatch cfg img y x p c = dispatch cfg img' y x p c := by
  unfold dispatch
  rw [← hw]
  cases hop : cfg.opcode p.r with
  | none => rfl
  | some op =>
    cases op with
    | verifyFreq =>
      have hm := hmirror hop
      cases hget : img.get? y (img.width - 1 - x) with
      | none =>
        rw [hget] at hm
        rw [Option.map_eq_none_iff.mp hm.symm]
      | some q =>
        rw [hget] at hm
        obtain ⟨q', hget', hq⟩ := Option.map_eq_some_iff.mp hm.symm
        simp only [hget']
        simp only [decide_eq_decide] at hq
        simp only [hq]
    | _ => rfl

theorem DifferFrom.column {y i : Nat} (h : DifferFrom cfg n y i img img') (hi : i ≤ img.width) {f : Frame n} (hx : f.x < i) :
    column cfg img f = column cfg img' f := by
  have hturn : ∀ z ∈ List.finRange n, ∀ s t : Frame n, s = t ∧ s.x = f.x →
      Alike (fun s t => s = t ∧ s.x = f.x) (visit cfg img z s) (visit cfg img' z t) := by
    rintro z - s t ⟨rfl, hs⟩
    refine Alike.and_left ?_ ((visit_x z s).trans hs)
    have hsame : visit cfg img z s = visit cfg img' z s := by
      unfold visit
      rw [← h.height]
      split
      · rfl
      rename_i hstill
      have hrow : (z : Nat) < img.height := Nat.lt_of_not_le fun hle => hstill (.inl hle)
      have hin : ∀ x < img.width, img.get? z x = some (img.px z x) := fun x hx => get?_inside hrow hx
      have hin' : ∀ x < img.width, img'.get? z x = some (img'.px z x) := fun x hx => get?_inside (h.height ▸ hrow) (h.width ▸ hx)
      have hpx : img.px z s.x = img'.px z s.x := by
        by_cases hz : (z : Nat) = y
        · rw [hz]
          exact h.before (hz ▸ hrow) s.x (by omega)
        · exact h.rows z hz hrow s.x (by omega)
      rw [hin s.x (by omega), hin' s.x (by omega), ← hpx]
      simp only
      split
      · rfl
      rw [dispatch_image h.width]
      intro hop
      rw [hin _ (by omega), hin' _ (by omega)]
      by_cases hz : (z : Nat) = y
      · have hmirror := h.mirror (hz ▸ hrow) s.x (by omega) (hz ▸ hop)
        rw [hz]
        simp only [Option.map_some, Option.some.injEq, decide_eq_decide]
        exact hmirror
      · have hmirror := h.rows z hz hrow (img.width - 1 - s.x) (by omega)
        rw [hmirror]
    rw [hsame]
    exact Alike.refl (fun _ => rfl) _
  have hall := forEach_lockstep (List.finRange n) hturn (s := { f with clock := f.x, jumpTo := none }) ⟨rfl, rfl⟩
  rw [Vm.column, Vm.column, (hall.mono fun _ _ hst => hst.1).eq]

/-- The two runs are one, or one up to a frame at column `i`. -/
theorem run_until {y i : Nat} (h : DifferFrom cfg n y i img img') (hi : i ≤ img.width) {f : Frame n} (hx : f.x ≤ i) (k : Nat) :
    f.run cfg img k = f.run cfg img' k ∨
      ∃ (g : Frame n) (l : Nat), g.x = i ∧ f.run cfg img k = g.run cfg img l ∧ f.run cfg img' k = g.run cfg img' l := by
  induction k generalizing f with
  | zero => exact .inl rfl
  | succ k ih =>
    rcases Nat.lt_or_eq_of_le hx with hlt | heq
    · have hin : decide (f.x < img.width) = true := decide_eq_true (by omega)
      simp only [Frame.run, repeatWhile, ← h.width, ← h.column hi hlt, hin, if_true]
      cases hc : Vm.column cfg img f with
      | raised e g => exact .inl rfl
      | done g =>
        have hnext := column_next h.straight hc
        have hg := ih (f := g) (by omega)
        simp only [Frame.run, ← h.width] at hg
        exact hg
    · exact .inr ⟨f, k + 1, heq, rfl, rfl⟩

/-! ## From the difference on -/

/-- From column `i` on the cells of the row are such. -/
def FromOn (P : Pixel → Prop) (img : Raster) (y i : Nat) : Prop :=
  y < img.height → ∀ x, i ≤ x → x < img.width → P (img.px y x)

theorem run_hidden {y i : Nat} (h : DifferFrom cfg n y i img img') (hc : FromOn (Pixel.Confined cfg img.width) img y i)
    (hc' : FromOn (Pixel.Confined cfg img'.width) img' y i) {f g : Frame n} (hx : i ≤ f.x)
    (hfg : f.SameBut (fun z : Fin n => (z : Nat) = y) g) (k : Nat) :
    Alike (Frame.SameBut fun z : Fin n => (z : Nat) = y) (f.run cfg img k) (g.run cfg img' k) := by
  refine Alike.mono ?_ fun s t (hst : Frame.SameBut (fun z : Fin n => (z : Nat) = y) s t ∧ i ≤ s.x) => hst.1
  refine repeatWhile_lockstep ?_ ?_ k ⟨hfg, hx⟩
  · intro s t hst
    rw [hst.1.x, h.width]
  · intro s t hst hs
    obtain ⟨hst, hi⟩ := hst
    have hlt : s.x < img.width := of_decide_eq_true hs
    refine Alike.and_left ?_ (hi.trans (column_x_le h.straight s))
    refine column_hidden h.width (fun z hz => ⟨by rw [h.height], h.rows z hz⟩) hlt ?_ ?_ hst
    · rintro z rfl hin
      exact hc hin s.x hi hlt
    · rintro z rfl hin
      exact hc' hin s.x hi (h.width ▸ hlt)

/-- The run, with the step cap, of images whose columns run alike. -/
theorem runFrame_alike {S : Frame n → Frame n → Prop} {Q : Machine n → Machine n → Prop} (hw : img.width = img'.width)
    {path : String} {m m' : Machine n} (h : Alike S (m.enter.run cfg img cfg.maxColSteps) (m'.enter.run cfg img' cfg.maxColSteps))
    (hx : ∀ s t, S s t → s.x = t.x) (hQ : ∀ s t, S s t → Q s.toMachine t.toMachine) :
    Alike Q (runFrame cfg path img m) (runFrame cfg path img' m') := by
  refine (h.bind fun s t hst => ?_).map hQ
  rw [hx s t hst, hw]
  split
  · exact .raised _ hst
  · exact .done hst

/-- What a row has from column `i` on, confined in either image, only its own thread sees. -/
theorem runFrame_tail {y i : Nat} (h : DifferFrom cfg n y i img img') (hi : i ≤ img.width)
    (hc : FromOn (Pixel.Confined cfg img.width) img y i) (hc' : FromOn (Pixel.Confined cfg img'.width) img' y i)
    (path : String) (m : Machine n) :
    Alike (Machine.SameBut fun z : Fin n => (z : Nat) = y) (runFrame cfg path img m) (runFrame cfg path img' m) := by
  refine runFrame_alike (S := Frame.SameBut fun z : Fin n => (z : Nat) = y) h.width ?_ (fun _ _ hst => hst.x)
    fun _ _ hst => hst.toSameBut
  rcases run_until h hi (f := m.enter) (Nat.zero_le i) cfg.maxColSteps with heq | ⟨g, l, hg, heq, heq'⟩
  · rw [heq]
    exact Alike.refl Frame.SameBut.refl _
  · rw [heq, heq']
    exact run_hidden h hc hc' hg.ge (.refl g) l

/-! ## Idle rows -/

/-- An IF_A_EQ or a NOP. -/
def Pixel.Idle (cfg : Config) (p : Pixel) : Prop := cfg.opcode p.r = some .ifAEq ∨ cfg.opcode p.r = none ∧ p.r.toNat = 0

theorem Pixel.Idle.confined {p : Pixel} (h : p.Idle cfg) (width : Nat) : p.Confined cfg width := by
  rcases h with h | ⟨h, hr⟩
  · refine ⟨?_, ?_, ?_, ?_⟩
    · simp [h]
    · simp [h]
    · simp [h]
    · simp [Bad, h]
  · refine ⟨?_, ?_, ?_, ?_⟩
    · simp [h]
    · simp [h]
    · simp [h]
    · simp [Bad, h, hr]

theorem dispatch_idle {p : Pixel} (h : p.Idle cfg) (y x : Nat) (c : Core) :
    (dispatch cfg img y x p c).state.regs = c.regs := by
  unfold dispatch
  rcases h with h | ⟨h, hr⟩
  · simp only [h]
    split <;> rfl
  · simp only [h, hr, ne_eq, not_true_eq_false, if_false]
    rfl

/-- What a turn leaves of a thread's registers: what its cell leaves, or what another thread's turn does. -/
theorem visit_regs {Q : Regs → Prop} (y : Fin n) {z : Fin n} {f : Frame n} (hQ : Q (f.registers y))
    (htick : Q { f.registers y with t := f.x })
    (hcell : z = y → ∀ p, img.get? y f.x = some p → Q (dispatch cfg img y f.x p ((f.tick y).core y)).state.regs) :
    Q ((visit cfg img z f).state.registers y) := by
  unfold visit
  split
  · exact hQ
  split
  · exact hQ
  split
  · by_cases hz : z = y
    · subst hz
      simpa [state, Frame.tick] using htick
    · simpa [state, Frame.tick, Ne.symm hz] using hQ
  rename_i p hp
  rw [Outcome.state_map]
  by_cases hz : z = y
  · subst hz
    simpa [Frame.withCore] using hcell rfl p hp
  · simpa [Frame.withCore, Frame.tick, Ne.symm hz] using hQ

theorem Regs.Same.refl (r : Regs) : r.Same r := ⟨rfl, rfl, rfl⟩

theorem Regs.Same.trans {r s t : Regs} (h : r.Same s) (h' : s.Same t) : r.Same t :=
  ⟨h.1.trans h'.1, h.2.1.trans h'.2.1, h.2.2.trans h'.2.2⟩

theorem Regs.Same.symm {r s : Regs} (h : r.Same s) : s.Same r := ⟨h.1.symm, h.2.1.symm, h.2.2.symm⟩

theorem run_idle (hj : NoJmp cfg img n) {i : Nat} {y : Fin n} (hidle : FromOn (Pixel.Idle cfg) img y i) {f : Frame n}
    (hx : i ≤ f.x) (k : Nat) : ((f.run cfg img k).state.registers y).Same (f.registers y) := by
  have hrun := repeatWhile_state (c := fun s : Frame n => decide (s.x < img.width)) (f := Vm.column cfg img)
    (P := fun s : Frame n => (s.registers y).Same (f.registers y) ∧ i ≤ s.x) ?_ k (s := f) ⟨.refl _, hx⟩
  · exact hrun.1
  · intro s hs _
    refine ⟨?_, hs.2.trans (column_x_le hj s)⟩
    have hturns : ∀ t : Frame n, (t.registers y).Same (f.registers y) ∧ i ≤ t.x →
        ∀ z : Fin n, ((visit cfg img z t).state.registers y).Same (f.registers y) ∧ i ≤ (visit cfg img z t).state.x := by
      intro t ht z
      refine ⟨visit_regs (Q := fun r => r.Same (f.registers y)) y ht.1 ht.1 ?_, by rw [visit_x]; exact ht.2⟩
      intro _ p hp
      obtain ⟨⟨hrow, hlt⟩, rfl⟩ := get?_eq_some.mp hp
      rw [dispatch_idle (hidle hrow t.x ht.2 hlt)]
      simpa [Frame.core, Frame.tick, Regs.Same] using ht.1
    have hall := forEach_state (f := visit cfg img) (P := fun t : Frame n => (t.registers y).Same (f.registers y) ∧ i ≤ t.x)
      (List.finRange n) (fun z _ t ht => hturns t ht z) (s := { s with clock := s.x, jumpTo := none }) hs
    rw [Vm.column]
    exact state_bind (P := fun t : Frame n => (t.registers y).Same (f.registers y)) hall.1 fun t ht => ht

/-- As `Machine.SameBut`, and A, B and OUT of the threads that are not seen. -/
structure Machine.SameValues (hidden : Fin n → Prop) (m m' : Machine n) : Prop extends Machine.SameBut hidden m m' where
  values : ∀ y, hidden y → (m.registers y).Same (m'.registers y)

theorem runFrame_idle {y i : Nat} (h : DifferFrom cfg n y i img img') (hj : NoJmp cfg img' n) (hi : i ≤ img.width)
    (hc : FromOn (Pixel.Idle cfg) img y i) (hc' : FromOn (Pixel.Idle cfg) img' y i) (path : String) (m : Machine n) :
    Alike (Machine.SameValues fun z : Fin n => (z : Nat) = y) (runFrame cfg path img m) (runFrame cfg path img' m) := by
  let S (s t : Frame n) : Prop := s.SameBut (fun z : Fin n => (z : Nat) = y) t ∧
    ∀ z : Fin n, (z : Nat) = y → (s.registers z).Same (t.registers z)
  refine runFrame_alike (S := S) h.width ?_ (fun _ _ hst => hst.1.x) fun _ _ hst => ⟨hst.1.toSameBut, hst.2⟩
  rcases run_until h hi (f := m.enter) (Nat.zero_le i) cfg.maxColSteps with heq | ⟨g, l, hg, heq, heq'⟩
  · rw [heq]
    exact Alike.refl (fun s => ⟨.refl s, fun z _ => .refl _⟩) _
  · rw [heq, heq']
    have hhidden := run_hidden h (fun hy x hx hlt => (hc hy x hx hlt).confined _)
      (fun hy x hx hlt => (hc' hy x hx hlt).confined _) hg.ge (.refl g) l
    have hleft : ∀ z : Fin n, (z : Nat) = y → ((g.run cfg img l).state.registers z).Same (g.registers z) := by
      rintro z rfl
      exact run_idle h.straight hc hg.ge l
    have hright : ∀ z : Fin n, (z : Nat) = y → ((g.run cfg img' l).state.registers z).Same (g.registers z) := by
      rintro z rfl
      exact run_idle hj hc' hg.ge l
    generalize g.run cfg img l = o at hhidden hleft
    generalize g.run cfg img' l = p at hhidden hright
    cases hhidden with
    | done hst => exact .done ⟨hst, fun z hz => (hleft z hz).trans (hright z hz).symm⟩
    | raised e hst => exact .raised e ⟨hst, fun z hz => (hleft z hz).trans (hright z hz).symm⟩

/-! ## A register that is not written -/

/-- The opcodes that write A. -/
def Opcode.writesA : Opcode → Bool
  | .setReg | .loadMem | .verifyFreq | .not | .sub | .mul | .div | .copyOut => true
  | _ => false

theorem dispatch_a {p : Pixel} (h : ∀ op, cfg.opcode p.r = some op → op.writesA = false) (y x : Nat) (c : Core) :
    (dispatch cfg img y x p c).state.regs.a = c.regs.a := by
  unfold dispatch
  cases hop : cfg.opcode p.r with
  | none =>
    simp only
    repeat' split
    all_goals rfl
  | some op =>
    have hw := h op hop
    cases op <;> first | exact absurd hw (by decide) | skip
    all_goals
      simp only
      repeat' split
      all_goals rfl

theorem run_a (hj : NoJmp cfg img n) {y : Fin n} {f g : Frame n} {k : Nat} (h : f.run cfg img k = .done g)
    (hcells : ∀ x, f.x ≤ x → x < f.x + k → ∀ p, img.get? y x = some p → ∀ op, cfg.opcode p.r = some op → op.writesA = false) :
    (g.registers y).a = (f.registers y).a := by
  induction k generalizing f with
  | zero =>
    cases h
    rfl
  | succ k ih =>
    simp only [Frame.run, repeatWhile] at h
    split at h
    · obtain ⟨s, hs, h⟩ := bind_eq_done h
      have hnext := column_next hj hs
      refine (ih h fun x hx hlt => hcells x (by omega) (by omega)).trans ?_
      have hturn : ∀ z ∈ List.finRange n, ∀ t : Frame n, (t.registers y).a = (f.registers y).a ∧ t.x = f.x →
          ((visit cfg img z t).state.registers y).a = (f.registers y).a ∧ (visit cfg img z t).state.x = f.x := by
        intro z _ t ht
        refine ⟨visit_regs (Q := fun r => r.a = (f.registers y).a) y ht.1 ht.1 ?_, (visit_x z t).trans ht.2⟩
        intro _ p hp
        rw [dispatch_a (hcells t.x ht.2.ge (by omega) p hp)]
        simpa [Frame.core, Frame.tick] using ht.1
      have hall := forEach_state (P := fun t : Frame n => (t.registers y).a = (f.registers y).a ∧ t.x = f.x)
        (List.finRange n) hturn (s := { f with clock := f.x, jumpTo := none }) ⟨rfl, rfl⟩
      obtain ⟨t, ht, he⟩ := bind_eq_done hs
      rw [ht] at hall
      cases he
      exact hall.1
    · cases h
      rfl

end PyxelVM.Vm
