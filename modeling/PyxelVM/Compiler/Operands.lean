/-
  PyxelVM.Compiler.Operands — which slot, column or frame an operand reaches
  (`zdx_parallel_vm.py`).

  The compiler clamps an operand to a byte, the machine checks the byte once more: a slot
  is below 8, a column inside the frame, a frame registered. So below the range the operand
  is 0 and passes (`negative_operand_redirected`), above it is 255, which a wide frame or
  a registry may have.

  - `operand_clamped`: LOAD_MEM, STORE_MEM, JMP and SAVE_STATE act on the clamped operand,
    or not at all, in lax and in strict mode.
-/

import Mathlib.Data.List.MinMax
import PyxelVM.Compiler.Correct
import PyxelVM.Vm.Visits

namespace PyxelVM.Compiler

open Function (update)
open PyxelVM.Lib
open PyxelVM.Vm

/-! ## What an address does -/

/-- The opcodes whose operand is a slot, a column or a frame. -/
def addressing : List Opcode := [.loadMem, .storeMem, .jmp, .saveState]

/-- The line of an instruction with its operand. -/
def line (op : Opcode) (k : Int) : String := op.name ++ " " ++ toString k

/-- The opcode acts on exactly slot, column or frame index `target`, in a frame of `width` columns. -/
def Acts (cfg : Config) (width : Nat) (op : Opcode) (target : Int) (c c' : Core) : Prop :=
  match op with
  | .loadMem => ∃ s : Fin 8, (s : Int) = target ∧ c' = { c with regs := { c.regs with a := c.shared s } }
  | .storeMem => ∃ s : Fin 8, (s : Int) = target ∧ c' = { c with shared := update c.shared s c.regs.a }
  | .jmp => ∃ column : Nat, (column : Int) = target ∧ column < width ∧ c.jumpTo = none ∧ c' = { c with jumpTo := some column }
  | .saveState => ∃ path, cfg.frameRegistry.get? target = some path ∧ c' = { c with nextFrame := some path }
  | _ => False

/-- A cell compiled from `op k` under the default map acts on exactly `target k`, or changes
    nothing but T: whatever the program around it, the frame, the machine and the thread. -/
def OperandLaw (target : Int → Int) : Prop :=
  ∀ (cfg : Config), cfg.opmap = map → ∀ (program : Program) (img : Raster), compile map program = some img →
    ∀ op ∈ addressing, ∀ (k : Int) (n : Nat) (y : Fin n) (f : Frame n) (p : Pixel),
      cell? program y f.x = some (line op k) → f.cell? img y = some p →
        ∃ c', (visit cfg img y f).state = (f.tick y).withCore y c' ∧
          (c' = (f.tick y).core y ∨ Acts cfg img.width op (target k) ((f.tick y).core y) c')

variable {cfg : Config} {img : Raster} {y x : Nat} {p : Pixel}

/-- In the machine the four act on what G says, raising or not. -/
theorem dispatch_acts {op : Opcode} (ho : op ∈ addressing) (hop : cfg.opcode p.r = some op) (c : Core) :
    (dispatch cfg img y x p c).state = c ∨ Acts cfg img.width op p.g.toNat c (dispatch cfg img y x p c).state := by
  unfold dispatch
  rw [hop]
  simp only [addressing, List.mem_cons, List.not_mem_nil, or_false] at ho
  rcases ho with rfl | rfl | rfl | rfl
  · simp only
    cases hs : slot? p.g with
    | some s => exact .inr ⟨s, by rw [slot?_eq_some hs], rfl⟩
    | none =>
      left
      simp only
      split <;> rfl
  · simp only
    cases hs : slot? p.g with
    | some s => exact .inr ⟨s, by rw [slot?_eq_some hs], rfl⟩
    | none =>
      left
      simp only
      split <;> rfl
  · simp only
    cases hj : c.jumpTo with
    | some t => exact .inl rfl
    | none =>
      simp only
      split
      · rename_i hw
        exact .inr ⟨p.g.toNat, rfl, hw, hj, rfl⟩
      · exact .inl rfl
  · simp only
    cases hr : cfg.frameRegistry.get? p.g.toNat with
    | some path => exact .inr ⟨path, hr, rfl⟩
    | none => exact .inl rfl

/-! ## What a line with an address compiles to -/

/-- The text is an instruction with the operand, or, with more digits than `int` takes, no instruction. -/
theorem ofLine_line {op : Opcode} (ho : op ∈ addressing) (k : Int) :
    Instr.ofLine (line op k) = .nop ∨
      (Instr.ofLine (line op k)).opcode? = some op ∧ (Instr.ofLine (line op k)).channels = (k, 0) := by
  have hname : Keyword op.name := by
    simp only [addressing, List.mem_cons, List.not_mem_nil, or_false] at ho
    rcases ho with rfl | rfl | rfl | rfl <;> decide +kernel
  have hread : ∃ instr, Instr.ofWords op.name [toString k] = operand [toString k] instr ∧
      (instr k).opcode? = some op ∧ (instr k).channels = (k, 0) := by
    simp only [addressing, List.mem_cons, List.not_mem_nil, or_false] at ho
    rcases ho with rfl | rfl | rfl | rfl <;> exact ⟨_, rfl, rfl, rfl⟩
  obtain ⟨instr, hof, hinstr⟩ := hread
  rw [line, ofLine_number hname, hof, operand_number]
  split
  · exact .inr hinstr
  · exact .inl rfl

/-- The pixel of an operand has it clamped. -/
theorem pixel_clamped {m : OpMap} {i : Instr} {op : Opcode} {k : Int} (ho : i.opcode? = some op) (hk : i.channels = (k, 0)) :
    ((i.pixel m).g.toNat : Int) = clamp k := by
  have hb : 0 ≤ clamp k ∧ clamp k ≤ 255 := by
    unfold clamp
    omega
  simp only [Instr.pixel, ho, hk, Option.map_some, Option.getD_some, pixelOf]
  rw [← clamp_clamp, toNat_ofNat_clamp hb, clamp_clamp]

theorem dispatch_nop (h : Unambiguous cfg.opmap) (c : Core) : dispatch cfg img y x .nop c = .done c := by
  rw [dispatch, h.opcode_nop]
  rfl

theorem columns_pos {program : Program} {y x : Nat} {l : String} (h : cell? program y x = some l) : columns program ≠ 0 := by
  obtain ⟨row, hrow, hl⟩ := Option.bind_eq_some_iff.mp h
  have hx : x < row.length := (List.getElem?_eq_some_iff.mp hl).1
  have hcols : row.length ≤ columns program :=
    List.le_max_of_le' 0 (List.mem_map_of_mem (List.mem_of_getElem? hrow)) le_rfl
  omega

/-- The pixel where the program has a line. -/
theorem pixel_of_line {m : OpMap} (hm : Complete m) {program : Program} (h : compile m program = some img) {l : String}
    (hline : cell? program y x = some l) (hp : img.get? y x = some p) : p = (Instr.ofLine l).pixel m := by
  obtain ⟨img', he, -, -, hpx⟩ := compile_image hm (columns_pos hline)
  rw [h] at he
  cases he
  obtain ⟨⟨hy, hx⟩, -⟩ := get?_eq_some.mp hp
  have hpx' := hpx y x hy hx
  rw [hp, instrAt, hline] at hpx'
  exact Option.some.inj hpx'

/-- LOAD_MEM, STORE_MEM, JMP and SAVE_STATE act on exactly the operand clamped to a byte, or not
    at all: an operand in the range is never redirected, one below it becomes 0, one above it 255. -/
theorem operand_clamped :
    OperandLaw clamp ∧
      ∀ k : Int, (0 ≤ k ∧ k ≤ 255 → clamp k = k) ∧ (k < 0 → clamp k = 0) ∧ (255 < k → clamp k = 255) := by
  constructor
  · intro cfg hmap program img himg op ho k n y f p hline hcell
    have hm : Complete cfg.opmap := by
      rw [hmap]
      decide +kernel
    have hp : p = (Instr.ofLine (line op k)).pixel cfg.opmap := pixel_of_line hm (hmap ▸ himg) hline (f.cell?_pixel hcell)
    refine ⟨(dispatch cfg img y f.x p ((f.tick y).core y)).state, ?_, ?_⟩
    · rw [visit_cell cfg hcell]
      cases dispatch cfg img y f.x p ((f.tick y).core y) <;> rfl
    · rcases ofLine_line ho k with hnop | ⟨hop, hk⟩
      · left
        rw [hp, hnop]
        exact congrArg Outcome.state (dispatch_nop hm.unambiguous _)
      · rw [← pixel_clamped hop hk, ← hp]
        refine dispatch_acts ho ?_ _
        rw [hp, opcode_pixel hm, hop]
  · intro k
    unfold clamp
    omega

/-- `LOAD_MEM -1` reads M0. -/
def belowZero : Program := [["LOAD_MEM -1"]]

theorem negative_operand_redirected : ¬OperandLaw id := by
  intro h
  have hcompile : (compile map belowZero).isSome = true := by decide +kernel
  obtain ⟨img, himg⟩ := Option.isSome_iff_exists.mp hcompile
  let f : Frame 1 := Machine.enter { registers := fun _ => { a := 5 }, shared := fun _ => 7 }
  have hcell : ((compile map belowZero).bind fun img => f.cell? img 0) = some ⟨40, 0, 0⟩ := by decide +kernel
  have hstate : ((compile map belowZero).map fun img => ((visit {} img 0 f).state.registers 0).a) = some 7 := by decide +kernel
  rw [himg] at hcell hstate
  obtain ⟨c, hc, hlaw⟩ := h {} rfl belowZero img himg .loadMem (List.mem_cons_self ..) (-1) 1 0 f ⟨40, 0, 0⟩ (by decide +kernel) hcell
  have ha : c.regs.a = 7 := by
    rw [Option.map_some, hc] at hstate
    exact Option.some.inj hstate
  rcases hlaw with rfl | ⟨s, hs, -⟩
  · cases ha
  · simp only [id] at hs
    omega

end PyxelVM.Compiler
