/-
  PyxelVM.Compiler.Source — what an instruction matrix means.

  This is the language `SimpleCompiler` compiles, said without opcodes or pixels. A line
  is an `Instr`; unknown and malformed lines are `nop`. Rows are threads, shorter ones
  go on with `nop` to the longest. `turn` is a thread at a column, `step` all threads in
  ascending order, `run` columns until the last or the step cap.
-/

import PyxelVM.Compiler.Simple

namespace PyxelVM.Compiler

open PyxelVM.Lib
open PyxelVM.Vm

/-! ## Instructions -/

inductive Instr where
  | nop
  | setA (value : Int)
  | setB (value : Int)
  | add
  | sub
  | mul
  | div
  | not
  | cmp
  | copyOut
  | loadMem (slot : Int)
  | storeMem (slot : Int)
  | ifAEq (value : Int)
  | verifyFreq
  | saveState (index : Int)
  | jmp (column : Int)
  | halt
  deriving DecidableEq, Repr

/-- An instruction with one operand, if the operand is there. -/
def operand (args : List String) (instr : Int → Instr) : Instr := ((args.head?.bind parseInt).map instr).getD .nop

/-- What a mnemonic says with its operands. -/
def Instr.ofWords (op : String) (args : List String) : Instr :=
  match op with
  | "SET_A" => operand args .setA
  | "SET_B" => operand args .setB
  | "ADD" => .add
  | "SUB" => .sub
  | "MUL" => .mul
  | "DIV" => .div
  | "NOT" => .not
  | "CMP" => .cmp
  | "COPY_OUT" => .copyOut
  | "OUT_TO_A" => .copyOut
  | "LOAD_MEM" => operand args .loadMem
  | "STORE_MEM" => operand args .storeMem
  | "IF_A_EQ" => operand args .ifAEq
  | "VERIFY_FREQ" => .verifyFreq
  | "SAVE_STATE" => if args = [] then .saveState 0 else operand args .saveState
  | "JMP" => operand args .jmp
  | "HALT" => .halt
  | _ => .nop

/-- What the line says: a mnemonic in any letter case, and its operands. -/
def Instr.ofLine (line : String) : Instr :=
  match words line with
  | [] => .nop
  | op :: args => .ofWords (upper op) args

def Instr.operand? : Instr → Option Int
  | .setA v | .setB v | .loadMem v | .storeMem v | .ifAEq v | .saveState v | .jmp v => some v
  | _ => none

/-- The operand, if there is one, is a byte. -/
def Instr.InRange (i : Instr) : Prop := ∀ v ∈ i.operand?, 0 ≤ v ∧ v ≤ 255

instance (i : Instr) : Decidable i.InRange := inferInstanceAs (Decidable (∀ v ∈ i.operand?, 0 ≤ v ∧ v ≤ 255))

/-! ## Lines with a number -/

/-- A word that a compiler reads as it is written. -/
def Keyword (name : String) : Prop := name.toList.any isSpace = false ∧ name.toList ≠ [] ∧ upper name = name

instance (name : String) : Decidable (Keyword name) := inferInstanceAs (Decidable (_ ∧ _ ∧ _))

theorem ofLine_number {name : String} (h : Keyword name) (n : Int) :
    Instr.ofLine (name ++ " " ++ toString n) = .ofWords name [toString n] := by
  obtain ⟨hany, hne, hup⟩ := h
  have hs : ∀ c ∈ name.toList, isSpace c = false := fun c hc => Bool.eq_false_iff.mpr (List.any_eq_false.mp hany c hc)
  rw [Instr.ofLine, words_pair hs (isSpace_toString n) hne (toString_ne_nil n)]
  exact congrArg (Instr.ofWords · _) hup

/-- A number is an operand, unless it has more digits than `int` takes. -/
theorem operand_number (n : Int) (instr : Int → Instr) :
    operand [toString n] instr = if (Nat.toDigits 10 n.natAbs).length ≤ 4300 then instr n else .nop := by
  rw [operand, List.head?_cons, Option.bind_some, parseInt_toString]
  split <;> rfl

/-! ## Running -/

/-- The instruction at a cell of the padded matrix. -/
def instrAt (program : Program) (y x : Nat) : Instr := ((cell? program y x).map Instr.ofLine).getD .nop

def slotOf? (slot : Int) : Option (Fin 8) := if h : 0 ≤ slot ∧ slot ≤ 7 then some ⟨slot.toNat, by omega⟩ else none

/-- One instruction, in a matrix of `width` columns whose mirror instruction is `mirror`. -/
def Instr.exec (registry : Dict Int String) (width : Nat) (i mirror : Instr) (c : Core) : Core :=
  match i with
  | .nop => c
  | .setA v => { c with regs := { c.regs with a := v } }
  | .setB v => { c with regs := { c.regs with b := v } }
  | .add => { c with regs := { c.regs with out := (c.regs.a + c.regs.b) % 256 } }
  | .sub => { c with regs := { c.regs with a := (c.regs.a - c.regs.b) % 256 } }
  | .mul => { c with regs := { c.regs with a := (c.regs.a * c.regs.b) % 256 } }
  | .div => { c with regs := { c.regs with a := if c.regs.b = 0 then 0 else c.regs.a.fdiv c.regs.b } }
  | .not => { c with regs := { c.regs with a := 255 - c.regs.a } }
  | .cmp => { c with regs := { c.regs with out := if c.regs.a = c.regs.b then 1 else 0 } }
  | .copyOut => { c with regs := { c.regs with a := c.regs.out } }
  | .loadMem slot =>
    match slotOf? slot with
    | some s => { c with regs := { c.regs with a := c.shared s } }
    | none => c
  | .storeMem slot =>
    match slotOf? slot with
    | some s => { c with shared := Function.update c.shared s c.regs.a }
    | none => c
  | .ifAEq v => if c.regs.a = v then c else { c with skipNext := true }
  | .verifyFreq => { c with regs := { c.regs with a := if mirror = .verifyFreq then 1 else 0 } }
  | .saveState index =>
    match registry.get? index with
    | some path => { c with nextFrame := some path }
    | none => c
  -- the first thread of the column that jumps inside the matrix decides
  | .jmp column => if c.jumpTo = none ∧ 0 ≤ column ∧ column < width then { c with jumpTo := some column.toNat } else c
  | .halt => { c with halted := true }

variable {n : Nat}

/-- Thread `y` at the current column. -/
def turn (registry : Dict Int String) (program : Program) (f : Frame n) (y : Fin n) : Frame n :=
  if program.length ≤ y ∨ f.halted y then f
  else if f.skipNext y then { f with skipNext := Function.update f.skipNext y false }
  else
    let mirror := instrAt program y (columns program - 1 - f.x)
    (f.tick y).withCore y ((instrAt program y f.x).exec registry (columns program) mirror ((f.tick y).core y))

/-- All threads at the current column, in ascending order, and the next column. -/
def step (registry : Dict Int String) (program : Program) (f : Frame n) : Frame n :=
  ((List.finRange n).foldl (turn registry program) { f with clock := f.x, jumpTo := none }).advance

/-- At most so many columns, to the end of the matrix. -/
def steps (registry : Dict Int String) (program : Program) : Nat → Frame n → Frame n
  | 0, f => f
  | k + 1, f => if f.x < columns program then steps registry program k (step registry program f) else f

/-- The matrix run on a machine: it comes to its end, or to the step cap below it. -/
def interpret (registry : Dict Int String) (cap : Nat) (path : String) (program : Program) (m : Machine n) :
    Outcome Raised (Machine n) :=
  let f := steps registry program cap m.enter
  if f.x < columns program then .raised (.maxColSteps cap path f.x (columns program)) f.toMachine else .done f.toMachine

end PyxelVM.Compiler
