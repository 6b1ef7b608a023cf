/-
  PyxelVM.Vm.Rows — threads that share no slot run as if alone.

  The interpreter goes column by column through all threads, with one set of slots.
  Where no scheduled row has a JMP cell and no two of them name a slot in common,
  `parallel_refines_rows` gives thread `y` the registers it has after the frame made of
  row `y` alone, each slot the value it has after the row that names it, and the same
  results, permuted, to the frame with its rows permuted.

  The run of row `y` alone is followed along the parallel run: `Tracks` relates the two
  frames, `visit_other` keeps it while another thread has its turn (that thread touches
  its own registers and the slots its row names), and `visit_own` steps both.
-/

import PyxelVM.Vm.Machine

namespace PyxelVM.Vm

open Function (update)
open PyxelVM.Lib

variable {n : Nat} {cfg : Config} {img : Raster}

/-! ## What a cell names -/

/-- The cell is a LOAD_MEM or STORE_MEM of slot `s`. -/
def Pixel.names (cfg : Config) (p : Pixel) (s : Fin 8) : Prop :=
  (cfg.opcode p.r = some .loadMem ∨ cfg.opcode p.r = some .storeMem) ∧ slot? p.g = some s

/-- Some cell of row `y` names slot `s`. -/
def Names (cfg : Config) (img : Raster) (y : Nat) (s : Fin 8) : Prop := ∃ x p, img.get? y x = some p ∧ p.names cfg s

/-- No row that one of `n` threads runs has a JMP cell. -/
def NoJmp (cfg : Config) (img : Raster) (n : Nat) : Prop :=
  ∀ y < n, ∀ x p, img.get? y x = some p → cfg.opcode p.r ≠ some .jmp

/-- No slot is named in two rows that threads run. -/
def DisjointSlots (cfg : Config) (img : Raster) (n : Nat) : Prop :=
  ∀ y < n, ∀ y' < n, ∀ s, Names cfg img y s → Names cfg img y' s → y = y'

instance (p : Pixel) (s : Fin 8) : Decidable (p.names cfg s) := inferInstanceAs (Decidable (_ ∧ _))

theorem names_iff {y : Nat} {s : Fin 8} :
    Names cfg img y s ↔ y < img.height ∧ ∃ x < img.width, (img.px y x).names cfg s := by
  simp only [Names, get?_eq_some]
  exact ⟨fun ⟨x, _, ⟨⟨hy, hx⟩, rfl⟩, hn⟩ => ⟨hy, x, hx, hn⟩, fun ⟨hy, x, hx, hn⟩ => ⟨x, _, ⟨⟨hy, hx⟩, rfl⟩, hn⟩⟩

instance (y : Nat) (s : Fin 8) : Decidable (Names cfg img y s) := decidable_of_iff _ names_iff.symm

theorem noJmp_iff : NoJmp cfg img n ↔ ∀ y < n, y < img.height → ∀ x < img.width, cfg.opcode (img.px y x).r ≠ some .jmp := by
  simp only [NoJmp, get?_eq_some]
  exact ⟨fun h y hy hh x hx => h y hy x _ ⟨⟨hh, hx⟩, rfl⟩, fun h y hy x _ ⟨⟨hh, hx⟩, e⟩ => e ▸ h y hy hh x hx⟩

instance : Decidable (NoJmp cfg img n) := decidable_of_iff _ noJmp_iff.symm

instance : Decidable (DisjointSlots cfg img n) :=
  inferInstanceAs (Decidable (∀ y < n, ∀ y' < n, ∀ s, Names cfg img y s → Names cfg img y' s → y = y'))

theorem get?_row {y : Nat} (hy : y < img.height) (x : Nat) : (img.row y).get? 0 x = img.get? y x := by
  simp [Raster.get?, Raster.row, hy]

/-! ## One cell -/

/-- Equal but for `nextFrame` and the slots outside `S`. -/
structure Near (S : Fin 8 → Prop) (c d : Core) : Prop where
  regs : c.regs = d.regs
  halted : c.halted = d.halted
  skipNext : c.skipNext = d.skipNext
  jumpTo : c.jumpTo = d.jumpTo
  shared : ∀ s, S s → c.shared s = d.shared s

/-- A cell in the frame does not raise, leaves the slots it does not name, and jumps only by a JMP. -/
theorem dispatch_local (hs : cfg.strictMode = false) {y x : Nat} (hy : y < img.height) (hx : x < img.width) (p : Pixel)
    (c : Core) : ∃ d, dispatch cfg img y x p c = .done d ∧ (∀ s, ¬p.names cfg s → d.shared s = c.shared s) ∧
      (cfg.opcode p.r ≠ some .jmp → d.jumpTo = c.jumpTo) := by
  have hm := get?_inside hy (show img.width - 1 - x < img.width by omega)
  unfold dispatch
  cases ho : cfg.opcode p.r with
  | none =>
    simp only [hs]
    split <;> exact ⟨_, rfl, fun _ _ => rfl, fun _ => rfl⟩
  | some op =>
    cases op with
    | storeMem =>
      cases hg : slot? p.g with
      | none => exact ⟨c, by simp [hs], fun _ _ => rfl, fun _ => rfl⟩
      | some s =>
        refine ⟨_, rfl, ?_, fun _ => rfl⟩
        intro t ht
        have hts : t ≠ s := fun e => ht ⟨.inr ho, e ▸ hg⟩
        exact Function.update_of_ne hts _ _
    | loadMem =>
      cases hg : slot? p.g with
      | none => exact ⟨c, by simp [hs], fun _ _ => rfl, fun _ => rfl⟩
      | some s => exact ⟨_, rfl, fun _ _ => rfl, fun _ => rfl⟩
    | verifyFreq => simp only [hm]; exact ⟨_, rfl, fun _ _ => rfl, fun _ => rfl⟩
    | jmp =>
      simp only
      repeat' split
      all_goals exact ⟨_, rfl, fun _ _ => rfl, fun h => absurd rfl h⟩
    | saveState =>
      simp only
      split <;> exact ⟨_, rfl, fun _ _ => rfl, fun _ => rfl⟩
    | ifAEq =>
      simp only
      split <;> exact ⟨_, rfl, fun _ _ => rfl, fun _ => rfl⟩
    | _ => exact ⟨_, rfl, fun _ _ => rfl, fun _ => rfl⟩

/-- A cell does the same in a frame as in its row alone. -/
theorem dispatch_near (hs : cfg.strictMode = false) {S : Fin 8 → Prop} {y x : Nat} (hy : y < img.height)
    (hx : x < img.width) (p : Pixel) (hp : ∀ s, p.names cfg s → S s) {c d : Core} (h : Near S c d) :
    ∃ c' d', dispatch cfg img y x p c = .done c' ∧ dispatch cfg (img.row y) 0 x p d = .done d' ∧ Near S c' d' := by
  have hm := get?_inside hy (show img.width - 1 - x < img.width by omega)
  have hm' := (get?_row hy (img.width - 1 - x)).trans hm
  have hw : (img.row y).width = img.width := rfl
  obtain ⟨hr, hh, hk, hj, hsh⟩ := h
  unfold dispatch
  cases ho : cfg.opcode p.r with
  | none =>
    simp only [hs]
    split <;> exact ⟨_, _, rfl, rfl, hr, hh, hk, hj, hsh⟩
  | some op =>
    cases op with
    | storeMem =>
      cases hg : slot? p.g with
      | none => exact ⟨c, d, by simp [hs], by simp [hs], hr, hh, hk, hj, hsh⟩
      | some s =>
        refine ⟨_, _, rfl, rfl, hr, hh, hk, hj, ?_⟩
        intro t ht
        simp only [hr, Function.update_apply]
        split
        · rfl
        · exact hsh t ht
    | loadMem =>
      cases hg : slot? p.g with
      | none => exact ⟨c, d, by simp [hs], by simp [hs], hr, hh, hk, hj, hsh⟩
      | some s =>
        have hv := hsh s (hp s ⟨.inl ho, hg⟩)
        exact ⟨_, _, rfl, rfl, by simp only [hr, hv], hh, hk, hj, hsh⟩
    | verifyFreq =>
      simp only [hw, hm, hm']
      exact ⟨_, _, rfl, rfl, by simp only [hr], hh, hk, hj, hsh⟩
    | jmp =>
      simp only [hw, hj]
      repeat' split
      all_goals exact ⟨_, _, rfl, rfl, hr, hh, hk, by first | rfl | exact hj, hsh⟩
    | saveState =>
      simp only
      split <;> exact ⟨_, _, rfl, rfl, hr, hh, hk, hj, hsh⟩
    | ifAEq =>
      simp only [hr]
      split
      · exact ⟨_, _, rfl, rfl, rfl, hh, rfl, hj, hsh⟩
      · exact ⟨_, _, rfl, rfl, hr, hh, hk, hj, hsh⟩
    | halt => exact ⟨_, _, rfl, rfl, hr, rfl, hk, hj, hsh⟩
    | _ => exact ⟨_, _, rfl, rfl, by simp only [hr], hh, hk, hj, hsh⟩

/-! ## One turn -/

/-- What the turn of thread `y` leaves alone. -/
structure Local (cfg : Config) (img : Raster) (y : Fin n) (f f' : Frame n) : Prop where
  x : f'.x = f.x
  jumpTo : f'.jumpTo = f.jumpTo
  others : ∀ z, z ≠ y → f'.registers z = f.registers z ∧ f'.halted z = f.halted z ∧ f'.skipNext z = f.skipNext z
  idle : img.height ≤ y → f'.registers y = f.registers y
  shared : ∀ s, ¬(y < img.height ∧ Names cfg img y s) → f'.shared s = f.shared s

theorem Local.refl (y : Fin n) (f : Frame n) : Local cfg img y f f :=
  ⟨rfl, rfl, fun _ _ => ⟨rfl, rfl, rfl⟩, fun _ => rfl, fun _ _ => rfl⟩

theorem visit_local (hs : cfg.strictMode = false) (hj : NoJmp cfg img n) (y : Fin n) {f : Frame n}
    (hx : f.x < img.width) : ∃ f', visit cfg img y f = .done f' ∧ Local cfg img y f f' := by
  unfold visit
  split
  · exact ⟨f, rfl, .refl y f⟩
  · rename_i hrun
    have hy : (y : Nat) < img.height := by
      have := not_or.mp hrun
      omega
    split
    · refine ⟨_, rfl, rfl, rfl, fun z hz => ⟨rfl, rfl, Function.update_of_ne hz _ _⟩, ?_, fun _ _ => rfl⟩
      intro h
      omega
    · have hp := get?_inside hy hx
      simp only [hp]
      obtain ⟨d, hd, hsh, hjd⟩ := dispatch_local hs hy hx (img.px y f.x) ((f.tick y).core y)
      rw [hd]
      refine ⟨_, rfl, rfl, hjd (hj y y.isLt f.x _ hp), ?_, ?_, ?_⟩
      · intro z hz
        simp [Frame.withCore, Frame.tick, hz]
      · intro h
        omega
      · intro s hn
        exact hsh s fun hn' => hn ⟨hy, f.x, _, hp, hn'⟩

/-- The frame `g` of row `y` alone, followed in the parallel frame `f`. -/
structure Tracks (S : Fin 8 → Prop) (y : Fin n) (f : Frame n) (g : Frame 1) : Prop where
  core : Near S (f.core y) (g.core 0)
  x : f.x = g.x

/-- Another thread's turn does not disturb row `y`. -/
theorem visit_other (hs : cfg.strictMode = false) (hj : NoJmp cfg img n) {S : Fin 8 → Prop} {y z : Fin n} (hz : z ≠ y)
    (hS : ∀ s, z < img.height → Names cfg img z s → ¬S s) {f : Frame n} {g : Frame 1} (hx : f.x < img.width)
    (h : Tracks S y f g) : ∃ f', visit cfg img z f = .done f' ∧ Tracks S y f' g ∧ f'.x = f.x := by
  obtain ⟨f', he, hl⟩ := visit_local hs hj z hx
  obtain ⟨hr, hh, hk⟩ := hl.others y hz.symm
  refine ⟨f', he, ⟨⟨?_, ?_, ?_, ?_, ?_⟩, hl.x.trans h.x⟩, hl.x⟩
  · exact hr.trans h.core.regs
  · exact hh.trans h.core.halted
  · exact hk.trans h.core.skipNext
  · exact hl.jumpTo.trans h.core.jumpTo
  · intro s hsS
    exact (hl.shared s fun hn => hS s hn.1 hn.2 hsS).trans (h.core.shared s hsS)

/-- The turn of row `y` is a turn of the frame of row `y` alone. -/
theorem visit_own (hs : cfg.strictMode = false) {S : Fin 8 → Prop} {y : Fin n} (hy : y < img.height)
    (hS : ∀ s, Names cfg img y s → S s) {f : Frame n} {g : Frame 1} (hx : f.x < img.width) (h : Tracks S y f g) :
    ∃ f' g', visit cfg img y f = .done f' ∧ visit cfg (img.row y) 0 g = .done g' ∧ Tracks S y f' g' ∧ f'.x = f.x := by
  obtain ⟨⟨hr, hh, hk, hj, hsh⟩, hgx⟩ := h
  have hr : f.registers y = g.registers 0 := hr
  have hh : f.halted y = g.halted 0 := hh
  have hk : f.skipNext y = g.skipNext 0 := hk
  have hrow : ¬(img.row y).height ≤ ((0 : Fin 1) : Nat) := by simp [Raster.row]
  unfold visit
  simp only [hrow, Nat.not_le.mpr hy, false_or, ← hh, ← hk]
  split
  · exact ⟨f, g, rfl, rfl, ⟨⟨hr, hh, hk, hj, hsh⟩, hgx⟩, rfl⟩
  · split
    · refine ⟨_, _, rfl, rfl, ⟨⟨hr, hh, ?_, hj, hsh⟩, hgx⟩, rfl⟩
      simp [Frame.core]
    · have hp := get?_inside hy hx
      have hp' : (img.row y).get? ((0 : Fin 1) : Nat) g.x = some (img.px y f.x) := by
        rw [← hgx]; exact (get?_row hy f.x).trans hp
      simp only [hp, hp']
      have hnear : Near S ((f.tick y).core y) ((g.tick 0).core 0) :=
        ⟨by simp [Frame.core, Frame.tick, hr, hgx], hh, hk, hj, hsh⟩
      obtain ⟨c, d, hc, hd, hcd⟩ := dispatch_near hs hy hx (img.px y f.x) (fun s hn => hS s ⟨f.x, _, hp, hn⟩) hnear
      have hd : dispatch cfg (img.row y) ((0 : Fin 1) : Nat) g.x (img.px y f.x) ((g.tick 0).core 0) = .done d := by
        rw [← hgx]; exact hd
      rw [hc, hd]
      refine ⟨_, _, rfl, rfl, ⟨⟨?_, ?_, ?_, hcd.jumpTo, hcd.shared⟩, hgx⟩, rfl⟩
      · simp [Frame.core, Frame.withCore, hcd.regs]
      · simp [Frame.core, Frame.withCore, hcd.halted]
      · simp [Frame.core, Frame.withCore, hcd.skipNext]

/-! ## The frame -/

theorem column_tracks (hs : cfg.strictMode = false) (hj : NoJmp cfg img n) {S : Fin 8 → Prop} {y : Fin n}
    (hy : y < img.height) (hown : ∀ s, Names cfg img y s → S s)
    (hother : ∀ z : Fin n, z ≠ y → ∀ s, z < img.height → Names cfg img z s → ¬S s) {f : Frame n} {g : Frame 1}
    (hx : f.x < img.width) (h : Tracks S y f g) :
    ∃ f' g', column cfg img f = .done f' ∧ column cfg (img.row y) g = .done g' ∧ Tracks S y f' g' := by
  have hstart : Tracks S y { f with clock := f.x, jumpTo := none } { g with clock := g.x, jumpTo := none } :=
    ⟨⟨h.core.regs, h.core.halted, h.core.skipNext, rfl, h.core.shared⟩, h.x⟩
  obtain ⟨f', g', hf, hg, ht, -⟩ := forEach_focus (R := fun f' g' => Tracks S y f' g' ∧ f'.x < img.width)
    (f := visit cfg img) (g := visit cfg (img.row y) 0) (List.nodup_finRange n) (List.mem_finRange y)
    (fun z _ hz f' g' h => by
      obtain ⟨f'', he, ht, hx'⟩ := visit_other hs hj hz (hother z hz) h.2 h.1
      exact ⟨f'', he, ht, hx' ▸ h.2⟩)
    (fun f' g' h => by
      obtain ⟨f'', g'', he, he', ht, hx'⟩ := visit_own hs hy hown h.2 h.1
      exact ⟨f'', g'', he, he', ht, hx' ▸ h.2⟩)
    ⟨hstart, hx⟩
  have hone : List.finRange 1 = [0] := rfl
  refine ⟨f'.advance, g'.advance, by rw [column, hf]; rfl, by rw [column, hone, forEach_cons, hg]; rfl, ⟨ht.core, ?_⟩⟩
  have hjump : f'.jumpTo = g'.jumpTo := ht.core.jumpTo
  show f'.jumpTo.getD (f'.x + 1) = g'.jumpTo.getD (g'.x + 1)
  rw [hjump, ht.x]

/-- Threads without a row keep their registers, and slots that no scheduled row names their values. -/
structure Kept (cfg : Config) (img : Raster) (m : Machine n) (f : Frame n) : Prop where
  registers : ∀ z : Fin n, img.height ≤ z → f.registers z = m.registers z
  shared : ∀ s, (∀ z : Fin n, z < img.height → ¬Names cfg img z s) → f.shared s = m.shared s

theorem column_kept (hs : cfg.strictMode = false) (hj : NoJmp cfg img n) {m : Machine n} {f : Frame n}
    (hx : f.x < img.width) (h : Kept cfg img m f) :
    ∃ f', column cfg img f = .done f' ∧ Kept cfg img m f' ∧ f'.x = f.x + 1 := by
  obtain ⟨f', he, hk, hx', hj'⟩ := forEach_keeps (P := fun f' => Kept cfg img m f' ∧ f'.x = f.x ∧ f'.jumpTo = none)
    (f := visit cfg img) (List.finRange n)
    (fun z _ f' h => by
      obtain ⟨f'', he, hl⟩ := visit_local hs hj z (h.2.1 ▸ hx)
      refine ⟨f'', he, ⟨?_, ?_⟩, hl.x.trans h.2.1, hl.jumpTo.trans h.2.2⟩
      · intro y hy
        rw [← h.1.registers y hy]
        by_cases hyz : y = z
        · subst hyz; exact hl.idle hy
        · exact (hl.others y hyz).1
      · intro s hn
        rw [← h.1.shared s hn]
        exact hl.shared s fun hz => hn z hz.1 hz.2)
    (s := { f with clock := f.x, jumpTo := none }) ⟨⟨h.registers, h.shared⟩, rfl, rfl⟩
  refine ⟨f'.advance, by rw [column, he]; rfl, ⟨hk.registers, hk.shared⟩, ?_⟩
  show f'.jumpTo.getD (f'.x + 1) = f.x + 1
  rw [hj', hx']
  rfl

/-- Without a JMP and with steps enough, the frame runs to its last column. -/
theorem frame_done (hs : cfg.strictMode = false) (hw : img.width ≤ cfg.maxColSteps) (hj : NoJmp cfg img n) (m : Machine n) :
    ∃ f, repeatWhile (fun f => decide (f.x < img.width)) (column cfg img) cfg.maxColSteps m.enter = .done f ∧
      Kept cfg img m f ∧ img.width ≤ f.x := by
  obtain ⟨f, he, hk, hc⟩ := repeatWhile_exit (P := Kept cfg img m) (c := fun f : Frame n => decide (f.x < img.width))
    (f := column cfg img) (fun f : Frame n => img.width - f.x)
    (fun f hk hc => by
      have hx : f.x < img.width := by simpa using hc
      obtain ⟨f', he, hk', hx'⟩ := column_kept hs hj hx hk
      exact ⟨f', he, hk', by omega⟩)
    (k := cfg.maxColSteps) (s := m.enter) ⟨fun _ _ => rfl, fun _ _ => rfl⟩ (by simpa [Machine.enter] using hw)
  exact ⟨f, he, hk, by simpa using hc⟩

/-- The machine of thread `y` alone. -/
def Machine.alone (m : Machine n) (y : Fin n) : Machine 1 := { m with registers := fun _ => m.registers y }

/-- The frame's last state, and row `y`'s after running alone. -/
theorem frame_tracks (hs : cfg.strictMode = false) (hj : NoJmp cfg img n)
    (hd : DisjointSlots cfg img n) (m : Machine n) {f : Frame n}
    (hf : repeatWhile (fun f => decide (f.x < img.width)) (column cfg img) cfg.maxColSteps m.enter = .done f)
    (hx : img.width ≤ f.x) {y : Fin n} (hy : y < img.height) :
    ∃ g, (∀ path, runFrame cfg path (img.row y) (m.alone y) = .done (Frame.toMachine g)) ∧
      Tracks (Names cfg img y) y f g := by
  have hother : ∀ z : Fin n, z ≠ y → ∀ s, z < img.height → Names cfg img z s → ¬Names cfg img y s :=
    fun z hz s _ hzs hys => hz (Fin.ext (hd z z.isLt y y.isLt s hzs hys))
  have hrun := repeatWhile_lockstep (R := Tracks (Names cfg img y) y)
    (c := fun f : Frame n => decide (f.x < img.width)) (d := fun g : Frame 1 => decide (g.x < img.width))
    (f := column cfg img) (g := column cfg (img.row y)) (fun f g h => by simp only [h.x])
    (fun f g h hc => by
      obtain ⟨f', g', hf, hg, ht⟩ := column_tracks hs hj hy (fun _ h => h) hother (by simpa using hc) h
      rw [hf, hg]
      exact .done ht)
    cfg.maxColSteps (s := m.enter) (t := (m.alone y).enter) ⟨⟨rfl, rfl, rfl, rfl, fun _ _ => rfl⟩, rfl⟩
  rw [hf] at hrun
  generalize hg : repeatWhile (fun g : Frame 1 => decide (g.x < img.width)) (column cfg (img.row y)) cfg.maxColSteps
    (m.alone y).enter = o at hrun
  cases hrun with
  | @done _ g ht =>
    have hgx : ¬g.x < (img.row y).width := by have := ht.x; simp only [Raster.row]; omega
    have hg' : repeatWhile (fun g : Frame 1 => decide (g.x < (img.row y).width)) (column cfg (img.row y)) cfg.maxColSteps
        (m.alone y).enter = .done g := hg
    exact ⟨g, fun path => by rw [runFrame, hg', Outcome.bind_done, if_neg hgx]; rfl, ht⟩

/-! ## Rows alone, and rows permuted -/

/-- What the machine after the frame has to do with the rows run alone. -/
structure RefinesRows (cfg : Config) (img : Raster) (m m' : Machine n) : Prop where
  registers : ∀ y : Fin n, y < img.height → ∀ path, ∃ r,
    executeSingle cfg (fun _ => .image (img.row y)) path (m.alone y) = .done r ∧ m'.registers y = r.registers 0 ∧
      ∀ s, Names cfg img y s → m'.shared s = r.shared s
  unnamed : ∀ s, (∀ y : Fin n, y < img.height → ¬Names cfg img y s) → m'.shared s = m.shared s
  idle : ∀ y : Fin n, img.height ≤ y → m'.registers y = m.registers y

theorem refines_rows (hs : cfg.strictMode = false) (hw : img.width ≤ cfg.maxColSteps) (hj : NoJmp cfg img n)
    (hd : DisjointSlots cfg img n) (m : Machine n) :
    ∃ m', (∀ path, executeSingle cfg (fun _ => .image img) path m = .done m') ∧ RefinesRows cfg img m m' := by
  obtain ⟨f, hf, hk, hx⟩ := frame_done hs hw hj m
  refine ⟨f.toMachine, ?_, ?_, hk.shared, hk.registers⟩
  · intro path
    show runFrame cfg path img m = _
    rw [runFrame, hf, Outcome.bind_done, if_neg (by omega)]
    rfl
  · intro y hy path
    obtain ⟨g, hg, ht⟩ := frame_tracks hs hj hd m hf hx hy
    exact ⟨g.toMachine, hg path, ht.core.regs, ht.core.shared⟩

/-- The rows of the `n` threads, row `y` moved to `σ y`. -/
def Raster.permute (img : Raster) (σ : Equiv.Perm (Fin n)) : Raster :=
  { img with px := fun y x => if h : y < n then img.px (σ.symm ⟨y, h⟩) x else img.px y x }

def Machine.permute (m : Machine n) (σ : Equiv.Perm (Fin n)) : Machine n := { m with registers := m.registers ∘ σ.symm }

theorem row_permute (img : Raster) (σ : Equiv.Perm (Fin n)) (y : Fin n) : (img.permute σ).row (σ y) = img.row y := by
  simp [Raster.row, Raster.permute]

/-- The permutation moves rows of the image among themselves. -/
def Inside (img : Raster) (σ : Equiv.Perm (Fin n)) : Prop := ∀ y : Fin n, (σ y : Nat) < img.height ↔ (y : Nat) < img.height

section

variable {σ : Equiv.Perm (Fin n)}

theorem get?_permute (hσ : Inside img σ) (y : Fin n) (x : Nat) : (img.permute σ).get? (σ y) x = img.get? y x := by
  have h := hσ y
  simp [Raster.get?, Raster.permute, h]

theorem names_permute (hσ : Inside img σ) (y : Fin n) (s : Fin 8) :
    Names cfg (img.permute σ) (σ y) s ↔ Names cfg img y s := by
  simp only [Names, get?_permute hσ]

theorem exists_moved (σ : Equiv.Perm (Fin n)) {y : Nat} (hy : y < n) : ∃ z : Fin n, (σ z : Nat) = y :=
  ⟨σ.symm ⟨y, hy⟩, by simp⟩

theorem noJmp_permute (hσ : Inside img σ) (hj : NoJmp cfg img n) : NoJmp cfg (img.permute σ) n := by
  intro y hy x p hp
  obtain ⟨z, rfl⟩ := exists_moved σ hy
  rw [get?_permute hσ] at hp
  exact hj z z.isLt x p hp

theorem disjointSlots_permute (hσ : Inside img σ) (hd : DisjointSlots cfg img n) : DisjointSlots cfg (img.permute σ) n := by
  intro y hy y' hy' s h h'
  obtain ⟨z, rfl⟩ := exists_moved σ hy
  obtain ⟨z', rfl⟩ := exists_moved σ hy'
  rw [names_permute hσ] at h h'
  rw [Fin.ext (hd z z.isLt z' z'.isLt s h h')]

/-- A row run alone does not know where it was moved. -/
theorem permute_alone (m : Machine n) (σ : Equiv.Perm (Fin n)) (y : Fin n) : (m.permute σ).alone (σ y) = m.alone y := by
  simp [Machine.alone, Machine.permute]

theorem registers_permute (hσ : Inside img σ) {m m' m'' : Machine n} (hr : RefinesRows cfg img m m')
    (hr' : RefinesRows cfg (img.permute σ) (m.permute σ) m'') (z : Fin n) : m''.registers (σ z) = m'.registers z := by
  by_cases hh : (z : Nat) < img.height
  · obtain ⟨r, hrun, hreg, -⟩ := hr.registers z hh ""
    obtain ⟨r', hrun', hreg', -⟩ := hr'.registers (σ z) ((hσ z).mpr hh) ""
    rw [row_permute, permute_alone, hrun] at hrun'
    cases hrun'
    rw [hreg, hreg']
  · have hh' : ¬((σ z : Nat) < img.height) := mt (hσ z).mp hh
    rw [hr.idle z (by omega), hr'.idle (σ z) (by show img.height ≤ _; omega)]
    simp [Machine.permute]

theorem shared_permute (hσ : Inside img σ) {m m' m'' : Machine n} (hr : RefinesRows cfg img m m')
    (hr' : RefinesRows cfg (img.permute σ) (m.permute σ) m'') (s : Fin 8) : m''.shared s = m'.shared s := by
  by_cases hn : ∃ z : Fin n, (z : Nat) < img.height ∧ Names cfg img z s
  · obtain ⟨z, hh, hzs⟩ := hn
    obtain ⟨r, hrun, -, hsh⟩ := hr.registers z hh ""
    obtain ⟨r', hrun', -, hsh'⟩ := hr'.registers (σ z) ((hσ z).mpr hh) ""
    rw [row_permute, permute_alone, hrun] at hrun'
    cases hrun'
    rw [hsh s hzs, hsh' s ((names_permute hσ z s).mpr hzs)]
  · have hn' : ∀ z : Fin n, (z : Nat) < img.height → ¬Names cfg img z s := fun z hz h => hn ⟨z, hz, h⟩
    rw [hr.unnamed s hn', hr'.unnamed s]
    · rfl
    · intro y hy h
      obtain ⟨z, hz⟩ := exists_moved σ y.isLt
      obtain rfl : σ z = y := Fin.ext hz
      exact hn' z ((hσ z).mp hy) ((names_permute hσ z s).mp h)

end

/-- Threads that share no slot and do not jump run as if each were alone: whatever the
    initial registers and slots, the frame completes, thread `y`'s registers are those
    row `y` alone gives, and a slot's value is that of the row that names it, or else
    its initial one; permuted rows give permuted results. -/
theorem parallel_refines_rows (cfg : Config) (img : Raster) (path : String) (m : Machine n)
    (hs : cfg.strictMode = false) (hw : img.width ≤ cfg.maxColSteps) (hj : NoJmp cfg img n)
    (hd : DisjointSlots cfg img n) :
    ∃ m', executeSingle cfg (fun _ => .image img) path m = .done m' ∧ RefinesRows cfg img m m' ∧
      ∀ σ : Equiv.Perm (Fin n), (∀ y : Fin n, (σ y : Nat) < img.height ↔ (y : Nat) < img.height) →
        ∃ m'', executeSingle cfg (fun _ => .image (img.permute σ)) path (m.permute σ) = .done m'' ∧
          m''.registers = (m'.permute σ).registers ∧ m''.shared = m'.shared := by
  obtain ⟨m', he, hr⟩ := refines_rows hs hw hj hd m
  refine ⟨m', he path, hr, ?_⟩
  intro σ hσ
  have hw' : (img.permute σ).width ≤ cfg.maxColSteps := hw
  obtain ⟨m'', he', hr'⟩ := refines_rows hs hw' (noJmp_permute hσ hj) (disjointSlots_permute hσ hd) (m.permute σ)
  refine ⟨m'', he' path, funext ?_, funext fun s => shared_permute hσ hr hr' s⟩
  intro y
  obtain ⟨z, hz⟩ := exists_moved σ y.isLt
  obtain rfl : σ z = y := Fin.ext hz
  show m''.registers (σ z) = m'.registers (σ.symm (σ z))
  rw [Equiv.symm_apply_apply]
  exact registers_permute hσ hr hr' z

/-- One thread stores 9 in M0, the other reads M1 back. -/
def twoRows : Raster where
  width := 3
  height := 2
  px := fun y x => (([[⟨10, 0, 9⟩, ⟨41, 0, 0⟩, ⟨255, 0, 0⟩], [⟨10, 0, 7⟩, ⟨41, 1, 0⟩, ⟨40, 1, 0⟩]] : List (List Pixel)).getD y
    []).getD x .nop

theorem parallel_refines_two_rows :
    ∃ m', executeSingle {} (fun _ => .image twoRows) "frame.png" ({} : Machine 2) = .done m' ∧ RefinesRows {} twoRows {} m' ∧
      ∀ σ : Equiv.Perm (Fin 2), (∀ y : Fin 2, (σ y : Nat) < twoRows.height ↔ (y : Nat) < twoRows.height) →
        ∃ m'', executeSingle {} (fun _ => .image (twoRows.permute σ)) "frame.png" (Machine.permute {} σ) = .done m'' ∧
          m''.registers = (m'.permute σ).registers ∧ m''.shared = m'.shared :=
  parallel_refines_rows {} twoRows "frame.png" {} rfl (by decide) (by decide +kernel) (by decide +kernel)

end PyxelVM.Vm
