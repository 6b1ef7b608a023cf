/-
  PyxelVM.Compiler.Simple — `SimpleCompiler` (`zdx_parallel_vm.py`).

  A program is a matrix of instructions, a row for each thread. `expand` replaces the
  synthetic ones, `parseOne` gives an instruction its pixel under an opcode map, `compile`
  is the image that is written. The warnings `debug` prints are left out.
-/

import PyxelVM.Lib.Text
import PyxelVM.Vm.Machine

namespace PyxelVM.Compiler

open PyxelVM.Lib
open PyxelVM.Vm

abbrev Program := List (List String)

/-- How a channel is built from the arguments. -/
inductive Channel where
  | zero
  | first
  | firstOrZero
  deriving DecidableEq, Repr

/-- The builder's value; nothing where it raises an IndexError or a ValueError. -/
def Channel.build (args : List String) : Channel → Option Int
  | .zero => some 0
  | .first => args.head?.bind parseInt
  | .firstOrZero =>
    match args with
    | [] => some 0
    | a :: _ => parseInt a

structure InstrSpec where
  opcode : Opcode
  g : Channel := .zero
  b : Channel := .zero
  deriving DecidableEq, Repr

/-- `_INSTR_SPECS`. -/
def instrSpecs : List (String × InstrSpec) :=
  [("SET_A", { opcode := .setReg, b := .first }),
    ("SET_B", { opcode := .setB, b := .first }),
    ("ADD", { opcode := .addThread }),
    ("IF_A_EQ", { opcode := .ifAEq, b := .first }),
    ("LOAD_MEM", { opcode := .loadMem, g := .first }),
    ("STORE_MEM", { opcode := .storeMem, g := .first }),
    ("VERIFY_FREQ", { opcode := .verifyFreq }),
    ("SAVE_STATE", { opcode := .saveState, g := .firstOrZero }),
    ("HALT", { opcode := .halt }),
    ("NOT", { opcode := .not }),
    ("SUB", { opcode := .sub }),
    ("MUL", { opcode := .mul }),
    ("DIV", { opcode := .div }),
    ("CMP", { opcode := .cmp }),
    ("JMP", { opcode := .jmp, g := .first }),
    ("COPY_OUT", { opcode := .copyOut })]

/-- `_SYNTHETIC`. -/
def synthetic : List (String × List String) := [("OUT_TO_A", ["COPY_OUT"])]

/-- The first word in upper case, or the empty string. -/
def opOf (instr : String) : String := ((words instr).head?.map upper).getD ""

def expandOne (instr : String) : List String := (synthetic.lookup (opOf instr)).getD [instr]

/-- `_expand`. -/
def expand (program : Program) : Program := program.map fun row => row.flatMap expandOne

/-- `max(0, min(255, v))`. -/
def clamp (v : Int) : Int := max 0 (min 255 v)

/-- `_parse_one`. -/
def parseOne (m : OpMap) (instr : String) : Int × Int × Int :=
  match words instr with
  | [] => (0, 0, 0)
  | op :: args =>
    match instrSpecs.lookup (upper op) with
    | none => (0, 0, 0)
    | some spec =>
      match m.get? spec.opcode.name with
      | none => (0, 0, 0)
      | some v =>
        match spec.g.build args, spec.b.build args with
        | some g, some b => (v.1, clamp g, clamp b)
        | _, _ => (0, 0, 0)

/-- The stored pixel: each channel is clipped to a byte. -/
def pixelOf (rgb : Int × Int × Int) : Pixel :=
  ⟨UInt8.ofNat (clamp rgb.1).toNat, UInt8.ofNat (clamp rgb.2.1).toNat, UInt8.ofNat (clamp rgb.2.2).toNat⟩

theorem clamp_of_byte {v : Int} (h : 0 ≤ v ∧ v ≤ 255) : clamp v = v := by simp only [clamp]; omega

theorem toNat_ofNat_clamp {v : Int} (h : 0 ≤ v ∧ v ≤ 255) : ((UInt8.ofNat (clamp v).toNat).toNat : Int) = v := by
  rw [clamp_of_byte h, UInt8.toNat_ofNat']
  omega

/-- The longest row. -/
def columns {α : Type} (rows : List (List α)) : Nat := (rows.map List.length).foldr max 0

/-- The cell of a matrix at row `y`, column `x`. -/
def cell? {α : Type} (rows : List (List α)) (y x : Nat) : Option α := rows[y]?.bind fun row => row[x]?

/-- `compile`: the image written, if the program is not empty. -/
def compile (m : OpMap) (program : Program) : Option Raster :=
  let rows := expand program
  if rows.length = 0 ∨ columns rows = 0 then none
  else some ⟨columns rows, rows.length, fun y x => ((cell? rows y x).map fun instr => pixelOf (parseOne m instr)).getD .nop⟩

/-- `compile(program, out_path)`: the files afterwards. -/
def compileTo (m : OpMap) (program : Program) (outPath : String) (files : String → File) : String → File :=
  match compile m program with
  | none => files
  | some img => Function.update files outPath (.image img)

end PyxelVM.Compiler
