/-
  PyxelVM.Compiler.Reserved — is R=0 reserved (`zdx_parallel_vm.py`)?

  The VM's comment says that R=0 is always NOP, whatever the map, and `SimpleCompiler`
  pads short rows with (0, 0, 0). But the lookup in the map comes first, and a map may
  have an opcode at 0: then that is executed (`zero_halts`).

  - `zero_is_nop_iff`: cells with R=0, and so the padding, are without effect exactly
    under the maps that look 0 up to no opcode.
-/

import PyxelVM.Compiler.Simple
import PyxelVM.Vm.Padding
import PyxelVM.Vm.Visits

namespace PyxelVM.Compiler

open PyxelVM.Lib
open PyxelVM.Vm

variable {n : Nat}

/-- Nothing has changed but T and the clock. -/
structure NoEffect (f f' : Frame n) : Prop where
  registers : ∀ y, (f'.registers y).Same (f.registers y)
  shared : f'.shared = f.shared
  halted : f'.halted = f.halted
  skipNext : f'.skipNext = f.skipNext
  jumpTo : f'.jumpTo = f.jumpTo
  nextFrame : f'.nextFrame = f.nextFrame

/-- The cell of the compiled image that thread `y` comes to is padding. -/
def Pads (compilerMap : OpMap) (program : Program) (img : Raster) (y x : Nat) : Prop :=
  compile compilerMap program = some img ∧ cell? (expand program) y x = none

/-- Under the map a cell with R=0 is without effect, on every VM that has the map, and so is the padding. -/
structure ZeroIsNop (opmap : OpMap) : Prop where
  cell : ∀ (cfg : Config), cfg.opmap = opmap → ∀ (n : Nat) (img : Raster) (y : Fin n) (f : Frame n) (p : Pixel),
    f.cell? img y = some p → p.r = 0 → ∃ f', visit cfg img y f = .done f' ∧ NoEffect f f'
  padding : ∀ (cfg : Config), cfg.opmap = opmap → ∀ (compilerMap : OpMap) (program : Program) (img : Raster) (n : Nat)
    (y : Fin n) (f : Frame n) (p : Pixel), Pads compilerMap program img y f.x → f.cell? img y = some p →
      ∃ f', visit cfg img y f = .done f' ∧ NoEffect f f'

/-- The opcode of the cells with R=0. -/
def zeroOpcode (opmap : OpMap) : Option Opcode := (opmap.rev.get? 0).bind Opcode.ofName?

theorem noEffect_tick (f : Frame n) (y : Fin n) : NoEffect f (f.tick y) := by
  refine ⟨fun z => ?_, rfl, rfl, rfl, rfl, rfl⟩
  by_cases hz : z = y
  · subst hz
    simp [Frame.tick, Regs.Same]
  · simp [Frame.tick, hz, Regs.Same]

theorem visit_zero {cfg : Config} {img : Raster} {y : Fin n} {f : Frame n} {p : Pixel} (h : f.cell? img y = some p)
    (hr : p.r = 0) (hop : zeroOpcode cfg.opmap = none) : visit cfg img y f = .done (f.tick y) := by
  have hnone : cfg.opcode p.r = none := by rw [hr]; exact hop
  have hd : dispatch cfg img y f.x p ((f.tick y).core y) = .done ((f.tick y).core y) := by
    rw [dispatch, hnone]
    simp [hr]
  rw [visit_cell cfg h, hd, Outcome.map_done, withCore_core]

/-- The pixel of a padding cell. -/
theorem Pads.pixel {compilerMap : OpMap} {program : Program} {img : Raster} {y x : Nat} (h : Pads compilerMap program img y x)
    {p : Pixel} (hp : img.get? y x = some p) : p = .nop := by
  obtain ⟨hc, hcell⟩ := h
  unfold compile at hc
  simp only at hc
  split at hc
  · cases hc
  · cases hc
    obtain ⟨-, rfl⟩ := get?_eq_some.mp hp
    simp [hcell]

/-! ## Where 0 is an opcode -/

/-- One cell, whose R is 0. -/
def zeroCell : Raster := ⟨1, 1, fun _ _ => ⟨0, 0, 1⟩⟩

/-- A machine on which every opcode can be seen, at the cell. -/
def watch : Frame 1 :=
  { Machine.enter { registers := fun _ => { a := 5, b := 3, out := 9 }, shared := fun _ => 7 } with x := 0 }

theorem watch_cell : watch.cell? zeroCell 0 = some ⟨0, 0, 1⟩ := by decide

/-- Whichever opcode R=0 has, executing the cell is seen. -/
theorem dispatch_watch {cfg : Config} {op : Opcode} (hop : cfg.opcode 0 = some op)
    (hreg : cfg.frameRegistry.get? 0 = some "whisperframe_B.png") {c : Core}
    (hc : dispatch cfg zeroCell 0 0 ⟨0, 0, 1⟩ ((watch.tick 0).core 0) = .done c) : ¬NoEffect watch ((watch.tick 0).withCore 0 c) := by
  have hslot : slot? 0 = some 0 := rfl
  intro h
  have ha : c.regs.a = 5 := (h.registers 0).1
  have hb : c.regs.b = 3 := (h.registers 0).2.1
  have hout : c.regs.out = 9 := (h.registers 0).2.2
  have hshared : c.shared 0 = 7 := congrFun h.shared 0
  have hhalted : c.halted = false := congrFun h.halted 0
  have hskip : c.skipNext = false := congrFun h.skipNext 0
  have hjump : c.jumpTo = none := h.jumpTo
  have hnext : c.nextFrame = none := h.nextFrame
  rw [dispatch, hop] at hc
  cases op with
  | halt =>
    cases hc
    cases hhalted
  | saveState =>
    simp only [show ((⟨0, 0, 1⟩ : Pixel).g.toNat : Int) = 0 from rfl, hreg] at hc
    cases hc
    cases hnext
  | ifAEq =>
    cases hc
    cases hskip
  | jmp =>
    cases hc
    cases hjump
  | storeMem =>
    cases hc
    exact absurd hshared (by decide)
  | setB =>
    cases hc
    exact absurd hb (by decide)
  | addThread | cmp =>
    cases hc
    exact absurd hout (by decide)
  | _ =>
    cases hc
    exact absurd ha (by decide)

/-- R=0 is a no-op under exactly the maps that look it up to no opcode. -/
theorem zero_is_nop_iff (opmap : OpMap) : ZeroIsNop opmap ↔ zeroOpcode opmap = none := by
  constructor
  · intro h
    cases hop : zeroOpcode opmap with
    | none => rfl
    | some op =>
      obtain ⟨f', hf', hno⟩ := h.cell { opmap := opmap } rfl 1 zeroCell 0 watch ⟨0, 0, 1⟩ watch_cell rfl
      rw [visit_cell _ watch_cell] at hf'
      obtain ⟨c, hc, rfl⟩ := Outcome.map_eq_done hf'
      have hopcode : ({ opmap := opmap } : Config).opcode 0 = some op := hop
      have hreg : ({ opmap := opmap } : Config).frameRegistry.get? 0 = some "whisperframe_B.png" := rfl
      exact absurd hno (dispatch_watch hopcode hreg hc)
  · intro hop
    refine ⟨fun cfg he n img y f p hcell hr => ?_, fun cfg he compilerMap program img n y f p hpads hcell => ?_⟩
    · exact ⟨f.tick y, visit_zero hcell hr (he ▸ hop), noEffect_tick f y⟩
    · have hr : p.r = 0 := by rw [hpads.pixel (Frame.cell?_pixel hcell)]; rfl
      exact ⟨f.tick y, visit_zero hcell hr (he ▸ hop), noEffect_tick f y⟩

/-- With HALT at 0, a row halts where its padding begins. -/
def haltAtZero : OpMap := Dict.ofList [("HALT", (0, 0, 0))]

theorem zero_halts : ¬∀ opmap, ZeroIsNop opmap := by
  intro h
  obtain ⟨f', hf', hno⟩ := (h haltAtZero).cell { opmap := haltAtZero } rfl 1 zeroCell 0 watch ⟨0, 0, 1⟩ watch_cell rfl
  have hhalted : (visit { opmap := haltAtZero } zeroCell 0 watch).state.halted 0 = true := by decide +kernel
  rw [hf'] at hhalted
  have hkept := congrFun hno.halted 0
  rw [show f'.halted 0 = true from hhalted] at hkept
  cases hkept

end PyxelVM.Compiler
