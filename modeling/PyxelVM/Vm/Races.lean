/-
  PyxelVM.Vm.Races — the order of the threads at a column (`zdx_parallel_vm.py`).

  The loop gives the threads their turns at a column one by one, from T0 on. A parallel
  machine gives them in any order, another one at each visit of each frame
  (`executeTextureBy`). Of two cells at one column the order shows where one stores a
  slot that the other stores or loads, where both jump, to different columns, and where
  both name a next frame, not the same.

  - `race_free_any_order`: if no frame has two such cells at one column, in rows that
    threads run, every order gives the registers, the slots and the frames of the loop;
    where the loop raises every order does, an exception of the same class.

  A turn is followed by what it leaves: `Turn` is what it does to the slots, the jump and
  the next frame, from the cell executed; what it does to its own registers and flags
  depends on these and on the slot loaded (`turn_own`).
-/

import Mathlib.Data.List.FinRange
import PyxelVM.Lib.Order
import PyxelVM.Vm.Confined
import PyxelVM.Vm.Visits

namespace PyxelVM.Vm

open Function (update)
open PyxelVM.Lib
open PyxelVM.Lib.Outcome (SameEnd)

variable {n : Nat}

/-! ## The parallel machine -/

/-- `column`, with the threads in an order of its own. -/
def columnBy (order : Equiv.Perm (Fin n)) (cfg : Config) (img : Raster) (f : Frame n) : Outcome Raised (Frame n) :=
  (forEach (visit cfg img) ((List.finRange n).map order) { f with clock := f.x, jumpTo := none }).bind fun f =>
    .done f.advance

/-- `runFrame`, with an order for each turn of its loop. -/
def runFrameBy (orders : Nat → Equiv.Perm (Fin n)) (cfg : Config) (path : String) (img : Raster) (m : Machine n) :
    Outcome Raised (Machine n) :=
  ((repeatWhileAt (fun f => decide (f.x < img.width)) (fun t => columnBy (orders t) cfg img) cfg.maxColSteps m.enter).bind fun f =>
    if f.x < img.width then .raised (.maxColSteps cfg.maxColSteps path f.x img.width) f else .done f).map Frame.toMachine

def executeSingleBy (orders : Nat → Equiv.Perm (Fin n)) (cfg : Config) (files : String → File) (path : String) (m : Machine n) :
    Outcome Raised (Machine n) :=
  match files path with
  | .missing => .raised (.noFile path) m
  | .notImage => .raised (.noImage path) m
  | .image img => runFrameBy orders cfg path img m

/-- `follow`, with the orders of each frame. -/
def followBy (orders : Nat → Nat → Equiv.Perm (Fin n)) (cfg : Config) (files : String → File) :
    Nat → String → Machine n → Outcome Raised (Machine n)
  | 0, current, m => .raised (.maxChain cfg.maxChain current) m
  | k + 1, current, m =>
    (executeSingleBy (orders 0) cfg files current m).bind fun m =>
      match m.nextFrame with
      | none => .done m
      | some next =>
        match files next with
        | .missing => .raised (.chainedFile next) m
        | _ => followBy (fun i => orders (i + 1)) cfg files k next m

def executeTextureBy (orders : Nat → Nat → Equiv.Perm (Fin n)) (cfg : Config) (files : String → File) (path : String) (m : Machine n) :
    Outcome Raised (Machine n) :=
  (followBy orders cfg files cfg.maxChain path m).bind fun m =>
    .done (if cfg.persistShared then { m with savedShared := some m.shared } else m)

variable {cfg : Config} {img : Raster}

/-- The loop's order is one of them. -/
theorem columnBy_refl (f : Frame n) : columnBy (Equiv.refl (Fin n)) cfg img f = column cfg img f := by
  rw [columnBy, Equiv.coe_refl, List.map_id]
  rfl

theorem runFrameBy_refl (path : String) (m : Machine n) : runFrameBy (fun _ => Equiv.refl (Fin n)) cfg path img m = runFrame cfg path img m := by
  have hbody : (fun _ : Nat => columnBy (Equiv.refl (Fin n)) cfg img) = fun _ => column cfg img :=
    funext fun _ => funext columnBy_refl
  rw [runFrameBy, runFrame, hbody, repeatWhileAt_const]

theorem executeTextureBy_refl (files : String → File) (path : String) (m : Machine n) :
    executeTextureBy (fun _ _ => Equiv.refl (Fin n)) cfg files path m = executeTexture cfg files path m := by
  have hsingle : ∀ (path : String) (m : Machine n),
      executeSingleBy (fun _ => Equiv.refl (Fin n)) cfg files path m = executeSingle cfg files path m := by
    intro path m
    unfold executeSingleBy executeSingle
    cases files path with
    | missing => rfl
    | notImage => rfl
    | image img => exact runFrameBy_refl path m
  have hfollow : ∀ (k : Nat) (path : String) (m : Machine n),
      followBy (fun _ _ => Equiv.refl (Fin n)) cfg files k path m = follow cfg files k path m := by
    intro k
    induction k with
    | zero => exact fun _ _ => rfl
    | succ k ih =>
      intro path m
      rw [followBy, follow, hsingle]
      congr 1
      funext m'
      cases m'.nextFrame with
      | none => rfl
      | some next =>
        simp only
        cases files next with
        | missing => rfl
        | notImage => exact ih next m'
        | image img => exact ih next m'
  rw [executeTextureBy, executeTexture, hfollow]

/-! ## Races -/

namespace Pixel

variable (cfg) (width : Nat) (p q : Pixel)

/-- The slot a STORE_MEM stores to. -/
def stores : Option (Fin 8) := if cfg.opcode p.r = some .storeMem then slot? p.g else none

/-- The slot a LOAD_MEM loads. -/
def loads : Option (Fin 8) := if cfg.opcode p.r = some .loadMem then slot? p.g else none

/-- The column of the frame a JMP goes to. -/
def jumps : Option Nat := if cfg.opcode p.r = some .jmp ∧ p.g.toNat < width then some p.g.toNat else none

/-- The frame a SAVE_STATE names. -/
def chains : Option String := if cfg.opcode p.r = some .saveState then cfg.frameRegistry.get? p.g.toNat else none

/-- What the first cell does is nothing to the second, and its jump and frame are the second's, if that has one. -/
structure Apart : Prop where
  slot : ∀ s ∈ p.stores cfg, s ∉ q.stores cfg ∧ s ∉ q.loads cfg
  jump : ∀ x ∈ p.jumps cfg width, ∀ x' ∈ q.jumps cfg width, x = x'
  frame : ∀ path ∈ p.chains cfg, ∀ path' ∈ q.chains cfg, path = path'

instance : Decidable (p.Apart cfg width q) :=
  decidable_of_iff ((∀ s ∈ p.stores cfg, s ∉ q.stores cfg ∧ s ∉ q.loads cfg) ∧
      (∀ x ∈ p.jumps cfg width, ∀ x' ∈ q.jumps cfg width, x = x') ∧
      ∀ path ∈ p.chains cfg, ∀ path' ∈ q.chains cfg, path = path')
    ⟨fun ⟨h₁, h₂, h₃⟩ => ⟨h₁, h₂, h₃⟩, fun ⟨h₁, h₂, h₃⟩ => ⟨h₁, h₂, h₃⟩⟩

end Pixel

/-- No two rows that threads run have cells at one column whose order shows. -/
def RaceFree (cfg : Config) (n : Nat) (img : Raster) : Prop :=
  ∀ x < img.width, ∀ y z : Fin n, y ≠ z → y < img.height → z < img.height → (img.px y x).Apart cfg img.width (img.px z x)

instance (cfg : Config) (img : Raster) : Decidable (RaceFree cfg n img) :=
  inferInstanceAs (Decidable (∀ x < img.width, ∀ y z : Fin n, y ≠ z → y < img.height → z < img.height → _))

/-! ## What a cell does -/

variable {y x : Nat} {p q : Pixel} {c d : Core}

/-- The slots after a cell. -/
def Pixel.stored (cfg : Config) (p : Pixel) (a : Int) (shared : Fin 8 → Int) : Fin 8 → Int :=
  match p.stores cfg with
  | some s => update shared s a
  | none => shared

theorem dispatch_stored (cfg : Config) (img : Raster) (y x : Nat) (p : Pixel) (c : Core) :
    (dispatch cfg img y x p c).state.shared = p.stored cfg c.regs.a c.shared := by
  unfold dispatch Pixel.stored Pixel.stores
  cases hop : cfg.opcode p.r with
  | none =>
    simp only
    repeat' split
    all_goals first | rfl | contradiction
  | some op =>
    cases op with
    | storeMem =>
      cases slot? p.g with
      | none =>
        simp only [if_true]
        split <;> rfl
      | some s =>
        simp only [if_true]
        rfl
    | _ =>
      simp only
      repeat' split
      all_goals first | rfl | (exfalso; simp_all)

/-- The registers a cell leaves depend on the registers and the slot loaded. -/
theorem dispatch_regs (cfg : Config) (img : Raster) (y x : Nat) (p : Pixel) (hr : c.regs = d.regs)
    (hs : ∀ s ∈ p.loads cfg, c.shared s = d.shared s) :
    (dispatch cfg img y x p c).state.regs = (dispatch cfg img y x p d).state.regs := by
  unfold dispatch
  rw [hr]
  cases hop : cfg.opcode p.r with
  | none =>
    simp only
    repeat' split
    all_goals exact hr
  | some op =>
    cases op with
    | loadMem =>
      cases hslot : slot? p.g with
      | none =>
        simp only
        split <;> exact hr
      | some s =>
        have hv := hs s (by simp [Pixel.loads, hop, hslot])
        simp only [Outcome.state, hv]
    | _ =>
      simp only
      repeat' split
      all_goals first | rfl | exact hr

/-! ## What a turn does -/

variable {y z : Fin n} {f g : Frame n}

/-- What the turn of thread `y` leaves to the others. -/
structure Turn (cfg : Config) (img : Raster) (y : Fin n) (f f' : Frame n) : Prop where
  x : f'.x = f.x
  clock : f'.clock = f.clock
  savedShared : f'.savedShared = f.savedShared
  others : ∀ z, z ≠ y → f'.registers z = f.registers z ∧ f'.halted z = f.halted z ∧ f'.skipNext z = f.skipNext z
  shared : f'.shared = ((f.cell? img y).elim f.shared fun p => p.stored cfg (f.registers y).a f.shared)
  jumpTo : f'.jumpTo = f.jumpTo.or ((f.cell? img y).bind (Pixel.jumps cfg img.width))
  nextFrame : f'.nextFrame = ((f.cell? img y).bind (Pixel.chains cfg)).or f.nextFrame

/-- Thread `y` is in the same state. -/
structure Frame.SameAt (y : Fin n) (f g : Frame n) : Prop where
  registers : f.registers y = g.registers y
  halted : f.halted y = g.halted y
  skipNext : f.skipNext y = g.skipNext y
  x : f.x = g.x

theorem Frame.SameAt.cell (h : f.SameAt y g) (img : Raster) : f.cell? img y = g.cell? img y := by
  simp only [Frame.cell?, h.halted, h.skipNext, h.x]

theorem Frame.SameAt.symm (h : f.SameAt y g) : g.SameAt y f :=
  ⟨h.registers.symm, h.halted.symm, h.skipNext.symm, h.x.symm⟩

theorem Frame.SameAt.trans {k : Frame n} (h : f.SameAt y g) (h' : g.SameAt y k) : f.SameAt y k :=
  ⟨h.registers.trans h'.registers, h.halted.trans h'.halted, h.skipNext.trans h'.skipNext, h.x.trans h'.x⟩

theorem Turn.sameAt {f' : Frame n} (h : Turn cfg img y f f') (hz : z ≠ y) : f'.SameAt z f :=
  ⟨(h.others z hz).1, (h.others z hz).2.1, (h.others z hz).2.2, h.x⟩

/-- A thread that executes no cell forgets its flag, unless it is outside or has halted. -/
theorem visit_idle (cfg : Config) (hx : f.x < img.width) (h : f.cell? img y = none) : visit cfg img y f =
    .done { f with skipNext := update f.skipNext y (f.skipNext y && (decide (img.height ≤ y) || f.halted y)) } := by
  unfold visit
  split
  · rename_i hidle
    have hflag : (decide (img.height ≤ y) || f.halted y) = true := by simpa using hidle
    rw [hflag, Bool.and_true, Function.update_eq_self]
  · rename_i hlive
    have hflag : (decide (img.height ≤ y) || f.halted y) = false := by simpa using hlive
    split
    · rw [hflag, Bool.and_false]
    · rename_i hskip
      have hy : (y : Nat) < img.height := by omega
      rw [Frame.cell?, if_neg (fun e => (or_assoc.mpr e).elim hlive hskip), get?_inside hy hx] at h
      cases h

theorem visit_turn (cfg : Config) (y : Fin n) (hx : f.x < img.width) : Turn cfg img y f (visit cfg img y f).state := by
  cases hc : f.cell? img y with
  | none =>
    rw [visit_idle cfg hx hc]
    refine ⟨rfl, rfl, rfl, fun z hz => ⟨rfl, rfl, Function.update_of_ne hz _ _⟩, ?_, ?_, ?_⟩ <;> simp [hc, Outcome.state]
  | some p =>
    have hflags := dispatch_flags cfg img y f.x p ((f.tick y).core y)
    have hstored := dispatch_stored cfg img y f.x p ((f.tick y).core y)
    have ha : ((f.tick y).core y).regs.a = (f.registers y).a := by simp [Frame.core, Frame.tick]
    rw [visit_cell cfg hc, Outcome.state_map]
    refine ⟨rfl, rfl, rfl, fun z hz => ?_, ?_, ?_, ?_⟩
    · simp [Frame.withCore, Frame.tick, hz]
    · rw [hc]
      exact hstored.trans (by rw [ha]; rfl)
    · rw [hc]
      exact hflags.jumpTo
    · rw [hc]
      exact hflags.nextFrame

/-- What a turn does to its thread depends on this thread, and on the slot it loads. -/
theorem turn_own (cfg : Config) (hx : f.x < img.width) (h : f.SameAt y g)
    (hs : ∀ p ∈ f.cell? img y, ∀ s ∈ p.loads cfg, f.shared s = g.shared s) :
    (visit cfg img y f).state.SameAt y (visit cfg img y g).state := by
  have hx' : g.x < img.width := h.x ▸ hx
  have hcell := h.cell img
  cases hc : f.cell? img y with
  | none =>
    rw [visit_idle cfg hx hc, visit_idle cfg hx' (hcell ▸ hc)]
    exact ⟨h.registers, h.halted, by simp [Outcome.state, h.skipNext, h.halted], h.x⟩
  | some p =>
    have hcore : ((f.tick y).core y).regs = ((g.tick y).core y).regs := by simp [Frame.core, Frame.tick, h.registers, h.x]
    have hregs := dispatch_regs cfg img y f.x p hcore (hs p hc)
    have hflags := dispatch_flags cfg img y f.x p ((f.tick y).core y)
    have hflags' := dispatch_flags cfg img y f.x p ((g.tick y).core y)
    rw [visit_cell cfg hc, visit_cell cfg (hcell ▸ hc), Outcome.state_map, Outcome.state_map, ← h.x]
    have hhalted : ((f.tick y).core y).halted = ((g.tick y).core y).halted := h.halted
    have hskip : ((f.tick y).core y).skipNext = ((g.tick y).core y).skipNext := h.skipNext
    refine ⟨?_, ?_, ?_, h.x⟩
    · simpa [Frame.withCore] using hregs
    · simp only [Frame.withCore, Function.update_self]
      rw [hflags.halted, hflags'.halted, hhalted]
    · simp only [Frame.withCore, Function.update_self]
      rw [hflags.skipNext, hflags'.skipNext, hskip, hcore]

/-- The cell of thread `y` is one that strict mode refuses. -/
def Frame.Refuses (cfg : Config) (img : Raster) (y : Fin n) (f : Frame n) : Prop :=
  ∃ p ∈ f.cell? img y, cfg.strictMode = true ∧ Bad cfg p

theorem visit_ends (cfg : Config) (y : Fin n) (hx : f.x < img.width) :
    (visit cfg img y f).Ends (fun _ => ¬f.Refuses cfg img y) fun e _ => e.kind = .valueError ∧ f.Refuses cfg img y := by
  cases hc : f.cell? img y with
  | none =>
    rw [visit_idle cfg hx hc]
    rintro ⟨p, hp, -⟩
    rw [hc] at hp
    cases hp
  | some p =>
    obtain ⟨⟨hy, -⟩, -⟩ := get?_eq_some.mp (Frame.cell?_pixel hc)
    have hends := dispatch_ends cfg hy hx p ((f.tick y).core y)
    rw [visit_cell cfg hc]
    cases hd : dispatch cfg img y f.x p ((f.tick y).core y) with
    | done c =>
      rw [hd] at hends
      rintro ⟨q, hq, hbad⟩
      rw [hc] at hq
      cases hq
      exact hends hbad
    | raised e c =>
      rw [hd] at hends
      exact ⟨hends.2.1, p, hc, hends.2.2⟩

/-! ## Two turns -/

theorem Frame.eq_of (hr : f.registers = g.registers) (hs : f.shared = g.shared) (hc : f.clock = g.clock)
    (hn : f.nextFrame = g.nextFrame) (hv : f.savedShared = g.savedShared) (hh : f.halted = g.halted)
    (hk : f.skipNext = g.skipNext) (hj : f.jumpTo = g.jumpTo) (hx : f.x = g.x) : f = g := by
  obtain ⟨⟨_, _, _, _, _⟩, _, _, _, _⟩ := f
  obtain ⟨⟨_, _, _, _, _⟩, _, _, _, _⟩ := g
  cases hr; cases hs; cases hc; cases hn; cases hv; cases hh; cases hk; cases hj; cases hx
  rfl

/-- The cells the two threads execute in the frame, if they do, are apart. -/
def Frame.Apart (cfg : Config) (img : Raster) (y z : Fin n) (f : Frame n) : Prop :=
  ∀ p ∈ f.cell? img y, ∀ q ∈ f.cell? img z, p.Apart cfg img.width q

theorem stored_of_apart {a : Int} {sh : Fin 8 → Int} (h : p.Apart cfg img.width q) {s : Fin 8} (hs : s ∈ q.loads cfg) :
    p.stored cfg a sh s = sh s := by
  unfold Pixel.stored
  cases hp : p.stores cfg with
  | none => rfl
  | some t =>
    have hne : s ≠ t := fun e => (h.slot t hp).2 (e ▸ hs)
    exact Function.update_of_ne hne _ _

theorem stored_comm {a b : Int} {sh : Fin 8 → Int} (h : p.Apart cfg img.width q) :
    p.stored cfg a (q.stored cfg b sh) = q.stored cfg b (p.stored cfg a sh) := by
  unfold Pixel.stored
  cases hp : p.stores cfg with
  | none => rfl
  | some s =>
    cases hq : q.stores cfg with
    | none => rfl
    | some t =>
      have hne : s ≠ t := fun e => (h.slot s hp).1 (e ▸ hq)
      exact Function.update_comm hne.symm _ _ _

theorem or_bind_comm {α β : Type} {k : α → Option β} {a b : Option α}
    (h : ∀ p ∈ a, ∀ q ∈ b, ∀ u ∈ k p, ∀ v ∈ k q, u = v) : (a.bind k).or (b.bind k) = (b.bind k).or (a.bind k) := by
  cases hu : a.bind k with
  | none => simp
  | some u =>
    cases hv : b.bind k with
    | none => simp
    | some v =>
      obtain ⟨p, hp, hpu⟩ := Option.bind_eq_some_iff.mp hu
      obtain ⟨q, hq, hqv⟩ := Option.bind_eq_some_iff.mp hv
      simp [h p hp q hq u hpu v hqv]

/-- The slot a thread loads is not stored to by a turn of a cell apart from its own. -/
theorem Turn.loaded {f' : Frame n} (h : Turn cfg img y f f') (hapart : f.Apart cfg img y z) :
    ∀ q ∈ f.cell? img z, ∀ s ∈ q.loads cfg, f'.shared s = f.shared s := by
  intro q hq s hs
  rw [h.shared]
  cases hc : f.cell? img y with
  | none => rfl
  | some p => exact stored_of_apart (hapart p hc q hq) hs

theorem turns_comm (hyz : y ≠ z) (hx : f.x < img.width) (h : f.Apart cfg img y z) (h' : f.Apart cfg img z y) :
    (visit cfg img z (visit cfg img y f).state).state = (visit cfg img y (visit cfg img z f).state).state := by
  have ty := visit_turn cfg y hx
  have tz := visit_turn cfg z hx
  have hxy : (visit cfg img y f).state.x < img.width := ty.x ▸ hx
  have hxz : (visit cfg img z f).state.x < img.width := tz.x ▸ hx
  have tyz := visit_turn cfg z hxy
  have tzy := visit_turn cfg y hxz
  have hz := turn_own cfg hx (ty.sameAt hyz.symm).symm fun q hq s hs => (ty.loaded h q hq s hs).symm
  have hy := turn_own cfg hx (tz.sameAt hyz).symm fun p hp s hs => (tz.loaded h' p hp s hs).symm
  have hsame : ∀ w, (visit cfg img z (visit cfg img y f).state).state.SameAt w
      (visit cfg img y (visit cfg img z f).state).state := by
    intro w
    by_cases hwz : w = z
    · rw [hwz]
      exact hz.symm.trans (tzy.sameAt hyz.symm).symm
    by_cases hwy : w = y
    · rw [hwy]
      exact (tyz.sameAt hyz).trans hy
    exact ((tyz.sameAt hwz).trans (ty.sameAt hwy)).trans ((tzy.sameAt hwy).trans (tz.sameAt hwz)).symm
  have hcz := (ty.sameAt hyz.symm).cell img
  have hcy := (tz.sameAt hyz).cell img
  refine Frame.eq_of (funext fun w => (hsame w).registers) ?_ ?_ ?_ ?_ (funext fun w => (hsame w).halted)
    (funext fun w => (hsame w).skipNext) ?_ (hsame y).x
  · rw [tyz.shared, tzy.shared, hcz, hcy, (ty.others z hyz.symm).1, (tz.others y hyz).1, ty.shared, tz.shared]
    cases hp : f.cell? img y with
    | none => rfl
    | some p =>
      cases hq : f.cell? img z with
      | none => rfl
      | some q => exact stored_comm (h' q hq p hp)
  · rw [tyz.clock, tzy.clock, ty.clock, tz.clock]
  · rw [tyz.nextFrame, tzy.nextFrame, hcz, hcy, ty.nextFrame, tz.nextFrame, ← Option.or_assoc, ← Option.or_assoc]
    rw [or_bind_comm fun q hq p hp => (h' q hq p hp).frame]
  · rw [tyz.savedShared, tzy.savedShared, ty.savedShared, tz.savedShared]
  · rw [tyz.jumpTo, tzy.jumpTo, hcz, hcy, ty.jumpTo, tz.jumpTo, Option.or_assoc, Option.or_assoc]
    rw [or_bind_comm fun p hp q hq => (h p hp q hq).jump]

/-- Two turns end the same in either order. -/
theorem visit_comm (hyz : y ≠ z) (hx : f.x < img.width) (h : f.Apart cfg img y z) (h' : f.Apart cfg img z y) :
    SameEnd Raised.kind ((visit cfg img y f).bind (visit cfg img z)) ((visit cfg img z f).bind (visit cfg img y)) := by
  have ty := visit_turn cfg y hx
  have tz := visit_turn cfg z hx
  have hcy := (tz.sameAt hyz).cell img
  have hcz := (ty.sameAt hyz.symm).cell img
  have hy := visit_ends cfg y (show (visit cfg img z f).state.x < img.width from tz.x ▸ hx)
  have hz := visit_ends cfg z (show (visit cfg img y f).state.x < img.width from ty.x ▸ hx)
  rw [Frame.Refuses, hcy] at hy
  rw [Frame.Refuses, hcz] at hz
  exact sameEnd_swap (visit_ends cfg y hx) (visit_ends cfg z hx) hy hz (turns_comm hyz hx h h')

/-! ## Whole runs -/

theorem RaceFree.apart (h : RaceFree cfg n img) (hyz : y ≠ z) (f : Frame n) : f.Apart cfg img y z := by
  intro p hp q hq
  obtain ⟨⟨hy, hx⟩, rfl⟩ := get?_eq_some.mp (Frame.cell?_pixel hp)
  obtain ⟨⟨hz, -⟩, rfl⟩ := get?_eq_some.mp (Frame.cell?_pixel hq)
  exact h f.x hx y z hyz hy hz

theorem columnBy_sameEnd (h : RaceFree cfg n img) (order : Equiv.Perm (Fin n)) (f : Frame n) (hx : f.x < img.width) :
    SameEnd Raised.kind (columnBy order cfg img f) (column cfg img f) := by
  refine SameEnd.bind ?_ fun s _ => .refl _
  refine forEach_perm (P := fun s => s.x = f.x) (Equiv.Perm.map_finRange_perm order) ?_ ?_ rfl
  · intro y _ s s' hs hv
    have hx' := @visit_x n cfg img y s
    rw [hv] at hx'
    exact hx'.trans hs
  · intro y _ z _ hyz s hs
    exact visit_comm hyz (hs ▸ hx) (h.apart hyz s) (h.apart hyz.symm s)

theorem runFrameBy_sameEnd (h : RaceFree cfg n img) (orders : Nat → Equiv.Perm (Fin n)) (path : String) (m : Machine n) :
    SameEnd Raised.kind (runFrameBy orders cfg path img m) (runFrame cfg path img m) := by
  refine SameEnd.map (SameEnd.bind ?_ fun s _ => .refl _) _
  exact repeatWhileAt_sameEnd (fun t f hf => columnBy_sameEnd h (orders t) f (of_decide_eq_true hf)) _ _

theorem executeSingleBy_sameEnd {files : String → File} (h : ∀ path img, files path = .image img → RaceFree cfg n img)
    (orders : Nat → Equiv.Perm (Fin n)) (path : String) (m : Machine n) :
    SameEnd Raised.kind (executeSingleBy orders cfg files path m) (executeSingle cfg files path m) := by
  unfold executeSingleBy executeSingle
  cases hf : files path with
  | missing => exact .refl _
  | notImage => exact .refl _
  | image img => exact runFrameBy_sameEnd (h path img hf) orders path m

theorem followBy_sameEnd {files : String → File} (h : ∀ path img, files path = .image img → RaceFree cfg n img)
    (orders : Nat → Nat → Equiv.Perm (Fin n)) (k : Nat) (path : String) (m : Machine n) :
    SameEnd Raised.kind (followBy orders cfg files k path m) (follow cfg files k path m) := by
  induction k generalizing orders path m with
  | zero => exact .refl _
  | succ k ih =>
    refine (executeSingleBy_sameEnd h (orders 0) path m).bind fun m' _ => ?_
    cases m'.nextFrame with
    | none => exact .refl _
    | some next =>
      simp only
      cases files next with
      | missing => exact .refl _
      | notImage => exact ih (fun i => orders (i + 1)) next m'
      | image img => exact ih (fun i => orders (i + 1)) next m'

/-- Whatever the orders: a run that ends normally ends in the state the loop leaves, in the registers of every thread,
    the slots, those written to the file and the next frame; and it raises exactly if the loop does, an exception of
    the same class. -/
theorem race_free_any_order (cfg : Config) (files : String → File)
    (h : ∀ path img, files path = .image img → RaceFree cfg n img) (orders : Nat → Nat → Equiv.Perm (Fin n)) (path : String)
    (m : Machine n) :
    SameEnd Raised.kind (executeTextureBy orders cfg files path m) (executeTexture cfg files path m) :=
  (followBy_sameEnd h orders cfg.maxChain path m).bind fun _ _ => .refl _

/-- T0 stores 9 in M0, and T1 loads it at the next column. -/
def handOver : Raster where
  width := 3
  height := 2
  px := fun y x => (([[⟨10, 0, 9⟩, ⟨41, 0, 0⟩, ⟨255, 0, 0⟩], [.nop, .nop, ⟨40, 0, 0⟩]] : List (List Pixel)).getD y []).getD x .nop

theorem race_free_any_order_handOver :
    ∃ m', executeTextureBy (fun _ _ => Equiv.swap 0 1) {} (fun _ => .image handOver) "a.png" ({} : Machine 2) = .done m' ∧
      (m'.registers 1).a = 9 := by
  have h := race_free_any_order (n := 2) {} (fun _ => .image handOver) (fun path img hf => by
    cases hf
    decide) (fun _ _ => Equiv.swap 0 1) "a.png" {}
  obtain ⟨m', hm', ha⟩ : ∃ m', executeTexture {} (fun _ => .image handOver) "a.png" ({} : Machine 2) = .done m' ∧
      (m'.registers 1).a = 9 := ⟨_, rfl, rfl⟩
  rw [hm'] at h
  exact ⟨m', h.eq_done, ha⟩

end PyxelVM.Vm
