/-
  PyxelVM.Compiler.Thought — `ThoughtCompiler` (`zdx_parallel_vm.py`).

  The other compiler knows no operands and no mnemonics: a cell names an opcode of the
  map, and gets all three channels as the map has them; what the map does not have is
  NOP. So the operands are the map's. `meaning` says what a name stands for in the
  language of `SimpleCompiler`, and `Instr.line` writes it as a line of that language.

  - `ofLine_written`: a line written for an instruction reads as the instruction.
  - `thought_correct`: under a complete map whose entries have a byte in the operand's
    channel and 0 in the others, both compilers write the same image for a matrix of
    names and for the lines they stand for, and running it does what the lines say.
-/

import PyxelVM.Compiler.Patterns

namespace PyxelVM.Compiler

open PyxelVM.Lib
open PyxelVM.Vm

/-! ## The compiler -/

/-- `self.mapkey`: `map` goes before `mapkey`, and `MAP` is for neither. -/
def thoughtMap (mapkey map : Option OpMap) : OpMap := (map.or mapkey).getD Vm.map

/-- `compile_thought_matrix`: the image written, if the matrix is not empty. -/
def compileThoughtMatrix (m : OpMap) (rows : List (List String)) : Option Raster :=
  if rows.length = 0 ∨ columns rows = 0 then none
  else some ⟨columns rows, rows.length, fun y x =>
    ((cell? rows y x).map fun instr => pixelOf (m.getD instr (0, 0, 0))).getD .nop⟩

/-- `compile_thought_matrix(rows, out_path)`: the files afterwards. -/
def compileThoughtTo (m : OpMap) (rows : List (List String)) (outPath : String) (files : String → File) : String → File :=
  match compileThoughtMatrix m rows with
  | none => files
  | some img => Function.update files outPath (.image img)

/-! ## What a name stands for -/

/-- The instruction of a pixel with the opcode. -/
def instrOf (g b : Int) : Opcode → Instr
  | .setReg => .setA b
  | .setB => .setB b
  | .not => .not
  | .addThread => .add
  | .sub => .sub
  | .mul => .mul
  | .div => .div
  | .ifAEq => .ifAEq b
  | .cmp => .cmp
  | .loadMem => .loadMem g
  | .storeMem => .storeMem g
  | .verifyFreq => .verifyFreq
  | .saveState => .saveState g
  | .jmp => .jmp g
  | .copyOut => .copyOut
  | .halt => .halt

def meaning (m : OpMap) (name : String) : Instr :=
  match m.get? name with
  | some v => ((Opcode.ofName? name).map (instrOf v.2.1 v.2.2)).getD .nop
  | none => .nop

def withNumber (name : String) (v : Int) : String := name ++ " " ++ toString v

/-- A line for the instruction. -/
def Instr.line : Instr → String
  | .nop => ""
  | .setA v => withNumber "SET_A" v
  | .setB v => withNumber "SET_B" v
  | .add => "ADD"
  | .sub => "SUB"
  | .mul => "MUL"
  | .div => "DIV"
  | .not => "NOT"
  | .cmp => "CMP"
  | .copyOut => "COPY_OUT"
  | .loadMem v => withNumber "LOAD_MEM" v
  | .storeMem v => withNumber "STORE_MEM" v
  | .ifAEq v => withNumber "IF_A_EQ" v
  | .verifyFreq => "VERIFY_FREQ"
  | .saveState v => withNumber "SAVE_STATE" v
  | .jmp v => withNumber "JMP" v
  | .halt => "HALT"

/-- The matrix in the language of `SimpleCompiler`. -/
def spelled (m : OpMap) (rows : List (List String)) : Program := rows.map fun row => row.map fun name => (meaning m name).line

/-- The map's entries are as `SimpleCompiler` would write them: an operand that is a byte, and 0 in the other channels. -/
def Written (m : OpMap) : Prop :=
  ∀ op ∈ Opcode.all, ∀ v ∈ m.get? op.name, (instrOf v.2.1 v.2.2 op).InRange ∧ (instrOf v.2.1 v.2.2 op).channels = v.2

instance (m : OpMap) : Decidable (Written m) :=
  inferInstanceAs (Decidable (∀ op ∈ Opcode.all, ∀ v ∈ m.get? op.name, _ ∧ _))

/-! ## Lines -/

theorem digits_byte {v : Int} (h : 0 ≤ v ∧ v ≤ 255) : (Nat.toDigits 10 v.natAbs).length ≤ 4300 := by
  have hall : ∀ k < 256, (Nat.toDigits 10 k).length ≤ 4300 := by decide +kernel
  exact hall v.natAbs (by omega)

/-- A mnemonic that takes an operand, with a byte. -/
theorem ofLine_withNumber {name : String} {instr : Int → Instr} {v : Int} (hname : Keyword name) (h : 0 ≤ v ∧ v ≤ 255)
    (hof : Instr.ofWords name [toString v] = operand [toString v] instr) : Instr.ofLine (withNumber name v) = instr v := by
  rw [withNumber, ofLine_number hname, hof, operand_number, if_pos (digits_byte h)]

/-- Reading the line of an instruction gives the instruction. -/
theorem ofLine_written {i : Instr} (h : i.InRange) : Instr.ofLine i.line = i := by
  cases i with
  | setA v => exact ofLine_withNumber (by decide +kernel) (h v rfl) rfl
  | setB v => exact ofLine_withNumber (by decide +kernel) (h v rfl) rfl
  | loadMem v => exact ofLine_withNumber (by decide +kernel) (h v rfl) rfl
  | storeMem v => exact ofLine_withNumber (by decide +kernel) (h v rfl) rfl
  | ifAEq v => exact ofLine_withNumber (by decide +kernel) (h v rfl) rfl
  | saveState v => exact ofLine_withNumber (by decide +kernel) (h v rfl) rfl
  | jmp v => exact ofLine_withNumber (by decide +kernel) (h v rfl) rfl
  | _ => decide +kernel

/-! ## Cells -/

variable {m : OpMap}

theorem meaning_of_entry {op : Opcode} {v : Int × Int × Int} (hv : m.get? op.name = some v) :
    meaning m op.name = instrOf v.2.1 v.2.2 op := by
  rw [meaning, hv]
  simp only [ofName?_name, Option.map_some, Option.getD_some]

theorem opcode?_instrOf (g b : Int) (op : Opcode) : (instrOf g b op).opcode? = some op := by cases op <;> rfl

/-- A name is of no entry, or of the entry of an opcode. -/
theorem name_cases (h : Complete m) (name : String) :
    m.get? name = none ∨ ∃ (op : Opcode) (v : Int × Int × Int), op.name = name ∧ m.get? op.name = some v := by
  cases hv : m.get? name with
  | none => exact .inl rfl
  | some v =>
    obtain ⟨op, rfl⟩ := (h.names name).mp (Dict.has_iff.mpr ⟨v, hv⟩)
    exact .inr ⟨op, v, rfl, hv⟩

theorem Written.entry (hw : Written m) {op : Opcode} {v : Int × Int × Int} (hv : m.get? op.name = some v) :
    (instrOf v.2.1 v.2.2 op).InRange ∧ (instrOf v.2.1 v.2.2 op).channels = v.2 :=
  hw op (by cases op <;> decide) v hv

theorem meaning_inRange (h : Complete m) (hw : Written m) (name : String) : (meaning m name).InRange := by
  rcases name_cases h name with hnone | ⟨op, v, rfl, hv⟩
  · rw [meaning, hnone]
    exact fun v hv => by cases hv
  · rw [meaning_of_entry hv]
    exact (hw.entry hv).1

/-- The map's channels are the pixel of what the name stands for. -/
theorem meaning_pixel (h : Complete m) (hw : Written m) (name : String) :
    pixelOf (m.getD name (0, 0, 0)) = (meaning m name).pixel m := by
  rcases name_cases h name with hnone | ⟨op, v, rfl, hv⟩
  · rw [meaning, hnone, Dict.getD, hnone]
    rfl
  · have hred : red m op = v.1 := by simp [red, hv]
    rw [meaning_of_entry hv, Dict.getD, hv, Instr.pixel, opcode?_instrOf, (hw.entry hv).2, Option.map_some,
      Option.getD_some, Option.getD_some, hred]

/-! ## Images -/

theorem length_spelled (m : OpMap) (rows : List (List String)) : (spelled m rows).length = rows.length := List.length_map ..

theorem columns_spelled (m : OpMap) (rows : List (List String)) : columns (spelled m rows) = columns rows := by
  simp [columns, spelled, Function.comp_def]

/-- `SimpleCompiler` makes of the lines the pixels that `ThoughtCompiler` makes of the names. -/
theorem spelled_pixels (h : Complete m) (hw : Written m) (rows : List (List String)) :
    (expand (spelled m rows)).map (fun row => row.map fun l => pixelOf (parseOne m l)) =
      rows.map fun row => row.map fun name => pixelOf (m.getD name (0, 0, 0)) := by
  have hcell : (fun name => (Instr.ofLine (meaning m name).line).pixel m) = fun name => pixelOf (m.getD name (0, 0, 0)) := by
    funext name
    rw [ofLine_written (meaning_inRange h hw name), meaning_pixel h hw]
  rw [compile_pixels h, spelled, List.map_map]
  congr 1
  funext row
  show (row.map _).map _ = _
  rw [List.map_map]
  exact congrArg (row.map ·) hcell

theorem compileThoughtMatrix_eq (h : Complete m) (hw : Written m) (rows : List (List String)) :
    compileThoughtMatrix m rows = compile m (spelled m rows) := by
  simp only [compileThoughtMatrix, compile, length_expand, columns_expand, length_spelled, columns_spelled]
  split
  · rfl
  · have hcells : (fun y x => ((cell? rows y x).map fun name => pixelOf (m.getD name (0, 0, 0))).getD .nop) =
        fun y x => ((cell? (expand (spelled m rows)) y x).map fun l => pixelOf (parseOne m l)).getD .nop := by
      funext y x
      rw [← cell?_map, ← cell?_map, spelled_pixels h hw]
    rw [hcells]

/-! ## Runs -/

/-- The two compilers write the same file for the names and for the lines they stand for, and the VM does what the lines
    say. -/
theorem thought_correct {n : Nat} (cfg : Config) (hm : Complete cfg.opmap) (hw : Written cfg.opmap)
    (hs : cfg.strictMode = false) (rows : List (List String)) (hne : columns rows ≠ 0) (outPath : String)
    (files : String → File) (m : Machine n) (hb : m.Bytes) :
    compileThoughtTo cfg.opmap rows outPath files = compileTo cfg.opmap (spelled cfg.opmap rows) outPath files ∧
      executeSingle cfg (compileThoughtTo cfg.opmap rows outPath files) outPath m =
        interpret cfg.frameRegistry cfg.maxColSteps outPath (spelled cfg.opmap rows) m := by
  have hfiles : compileThoughtTo cfg.opmap rows outPath files = compileTo cfg.opmap (spelled cfg.opmap rows) outPath files := by
    have himage := compileThoughtMatrix_eq hm hw rows
    cases he : compile cfg.opmap (spelled cfg.opmap rows) with
    | none => simp only [compileThoughtTo, compileTo, himage, he]
    | some img => simp only [compileThoughtTo, compileTo, himage, he]
  have hrange : (spelled cfg.opmap rows).InRange := by
    intro row hrow line hline
    obtain ⟨names, -, rfl⟩ := List.mem_map.mp hrow
    obtain ⟨name, -, rfl⟩ := List.mem_map.mp hline
    have hname := meaning_inRange hm hw name
    rwa [ofLine_written hname]
  have hcolumns : columns (spelled cfg.opmap rows) ≠ 0 := by rwa [columns_spelled]
  obtain ⟨img, he, hwidth, hheight, hpx⟩ := compile_image hm hcolumns
  have hfile : compileTo cfg.opmap (spelled cfg.opmap rows) outPath files outPath = .image img := by
    rw [compileTo, he]
    exact Function.update_self ..
  have hbm : (m.enter).toMachine.Bytes := ⟨hb.registers, hb.shared⟩
  have hrun := frame_steps hm hs hrange hwidth hheight hpx cfg.maxColSteps hbm
  refine ⟨hfiles, ?_⟩
  rw [hfiles]
  simp only [executeSingle, hfile, runFrame, hrun, Outcome.bind_done, interpret]
  rw [hwidth]
  split <;> rfl

/-- A thread that inverts A, and one whose second cell names nothing. -/
def inverter : List (List String) := [["SET_REG", "NOT", "STORE_MEM", "HALT"], ["LOAD_MEM", "SET_A 5"]]

theorem thought_correct_inverter :
    compileThoughtTo (thoughtMap none none) inverter "thought.png" (fun _ => .missing) =
        compileTo map [["SET_A 0", "NOT", "STORE_MEM 0", "HALT"], ["LOAD_MEM 0", ""]] "thought.png" (fun _ => .missing) ∧
      executeSingle {} (compileThoughtTo (thoughtMap none none) inverter "thought.png" fun _ => .missing) "thought.png"
          ({} : Machine 2) =
        interpret (Dict.ofList [(0, "whisperframe_B.png")]) 4096 "thought.png"
          [["SET_A 0", "NOT", "STORE_MEM 0", "HALT"], ["LOAD_MEM 0", ""]] {} := by
  have hspelled : spelled map inverter = [["SET_A 0", "NOT", "STORE_MEM 0", "HALT"], ["LOAD_MEM 0", ""]] := by decide +kernel
  rw [← hspelled]
  exact thought_correct {} (by decide +kernel) (by decide +kernel) rfl inverter (by decide) "thought.png" (fun _ => .missing) {}
    ⟨by decide, by decide⟩

end PyxelVM.Compiler
