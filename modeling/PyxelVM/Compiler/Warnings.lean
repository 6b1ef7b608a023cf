/-
  PyxelVM.Compiler.Warnings — are the compiler's warnings right (`zdx_parallel_vm.py`)?

  `SimpleCompiler._validate` goes through each row as if its instructions were executed
  one after another. It warns of a last IF_A_EQ, which has no effect; of an ADD whose
  result no STORE_MEM of the row stores; and of a STORE_MEM that stores the A of before
  the ADD. `Warning.Right` says so of the compiled program on every machine: with the
  warned line blanked the frame runs alike.

  - `warnings_right`: every warning is right of a program without a JMP. Of an ADD that
    holds as far as the slots and the other threads go, in lenient mode and if the row
    chains no frame later: the result can still reach A, and so a guard.
-/

import PyxelVM.Compiler.Correct
import PyxelVM.Vm.Straight
import PyxelVM.Vm.Termination

namespace PyxelVM.Compiler

open PyxelVM.Lib
open PyxelVM.Lib.Outcome
open PyxelVM.Vm

/-! ## Warnings -/

inductive Warning where
  | ifLast (y : Nat)
  | storesOld (y j : Nat)
  | neverStored (y i : Nat)
  deriving DecidableEq, Repr

/-- The text printed. -/
def Warning.message : Warning → String
  | .ifLast y => s!"[WARN] Compiler: T{y} IF_A_EQ is last instruction — no effect (nothing to skip/execute)"
  | .storesOld y j =>
    s!"[WARN] Compiler: T{y} STORE_MEM at position {j} follows ADD " ++
      "without modifying A — STORE_MEM writes A (not OUT). " ++ "OUT=\x7b\x7d, A still holds its pre-ADD value."
  | .neverStored y i => s!"[WARN] Compiler: T{y} ADD at position {i} — OUT result is never stored to shared memory"

/-- `_a_writers`. -/
def aWriters : List String := ["SET_A", "LOAD_MEM", "VERIFY_FREQ", "NOT", "SUB", "MUL", "DIV", "COPY_OUT"]

/-- After an ADD: the position of the first STORE_MEM, and whether A was written before it. -/
def scan : List String → Nat → Bool → Option (Nat × Bool)
  | [], _, _ => none
  | op :: ops, j, aModified =>
    let aModified := aModified || decide (op ∈ aWriters)
    if op = "STORE_MEM" then some (j, aModified) else scan ops (j + 1) aModified

/-- The warnings of a row, by its operations. -/
def rowWarnings (y : Nat) (ops : List String) : List Warning :=
  (if ops.getLast? = some "IF_A_EQ" then [.ifLast y] else []) ++
    (List.range ops.length).flatMap fun i =>
      if ops[i]? = some "ADD" then
        match scan (ops.drop (i + 1)) (i + 1) false with
        | none => [.neverStored y i]
        | some (j, false) => [.storesOld y j]
        | some (_, true) => []
      else []

/-- `_validate`, of the expanded program. -/
def validate (program : Program) (debug : Bool) : List Warning :=
  if debug then program.zipIdx.flatMap fun e => rowWarnings e.2 (e.1.map opOf) else []

/-! ## What they say -/

/-- The program with a line blanked. -/
def blank (program : Program) (y i : Nat) : Program := program.modify y fun row => row.set i ""

/-- The operation of a line after expansion. -/
def shownOp (line : String) : String := opOf (if opOf line = "OUT_TO_A" then "COPY_OUT" else line)

/-- The program compiled to a path and executed from there. -/
def executed {n : Nat} (cfg : Config) (program : Program) (path : String) (files : String → File) (m : Machine n) :
    Outcome Raised (Machine n) :=
  executeSingle cfg (compileTo cfg.opmap program path files) path m

/-- The warning is right, whatever machine the program is executed on. -/
def Warning.Right (cfg : Config) (program : Program) : Warning → Prop
  | .ifLast y => ∃ i, program[y]?.map List.length = some (i + 1) ∧
      ∀ (n : Nat) (m : Machine n) (path : String) (files : String → File),
        Alike (Machine.SameValues fun z : Fin n => (z : Nat) = y) (executed cfg program path files m)
          (executed cfg (blank program y i) path files m)
  | .neverStored y i => cfg.strictMode = false →
      (∀ row, program[y]? = some row → ∀ line ∈ row.drop (i + 1), opOf line ≠ "SAVE_STATE") →
        ∀ (n : Nat) (m : Machine n) (path : String) (files : String → File),
          Alike (Machine.SameBut fun z : Fin n => (z : Nat) = y) (executed cfg program path files m)
            (executed cfg (blank program y i) path files m)
  | .storesOld y j => ∃ i < j, (cell? program y i).map shownOp = some "ADD" ∧ (cell? program y j).map shownOp = some "STORE_MEM" ∧
      ∀ (n : Nat) (m : Machine n) (img : Raster), compile cfg.opmap program = some img → ∀ z : Fin n, (z : Nat) = y →
        ∀ f g, m.after cfg img i = .done f → m.after cfg img j = .done g → (g.registers z).a = (f.registers z).a

/-! ## Scanning a row -/

theorem scan_none {ops : List String} {j : Nat} {b : Bool} (h : scan ops j b = none) : "STORE_MEM" ∉ ops := by
  induction ops generalizing j b with
  | nil => exact List.not_mem_nil
  | cons op ops ih =>
    rw [scan] at h
    split at h
    · cases h
    · rename_i hne
      exact fun hmem => (List.mem_cons.mp hmem).elim (fun e => hne e.symm) (ih h)

/-- Nothing between the ADD and the STORE_MEM found writes A. -/
theorem scan_some {ops : List String} {j k : Nat} {b : Bool} (h : scan ops j b = some (k, false)) :
    b = false ∧ ∃ d, k = j + d ∧ ops[d]? = some "STORE_MEM" ∧ ∀ e < d, ∀ op, ops[e]? = some op → op ∉ aWriters := by
  induction ops generalizing j b with
  | nil => cases h
  | cons op ops ih =>
    rw [scan] at h
    split at h
    · rename_i hop
      simp only [Option.some.injEq, Prod.mk.injEq, Bool.or_eq_false_iff] at h
      exact ⟨h.2.1, 0, h.1.symm, by rw [hop]; rfl, fun e he => absurd he (Nat.not_lt_zero e)⟩
    · obtain ⟨hb, d, hk, hstore, hno⟩ := ih h
      simp only [Bool.or_eq_false_iff, decide_eq_false_iff_not] at hb
      refine ⟨hb.1, d + 1, by omega, hstore, ?_⟩
      intro e he op' hop'
      cases e with
      | zero =>
        cases hop'
        exact hb.2
      | succ e => exact hno e (by omega) op' hop'

/-! ## Lines and cells -/

variable {n : Nat} {cfg : Config} {program : Program}

def mnemonic : Opcode → String
  | .setReg => "SET_A"
  | .setB => "SET_B"
  | .not => "NOT"
  | .addThread => "ADD"
  | .sub => "SUB"
  | .mul => "MUL"
  | .div => "DIV"
  | .ifAEq => "IF_A_EQ"
  | .cmp => "CMP"
  | .loadMem => "LOAD_MEM"
  | .storeMem => "STORE_MEM"
  | .verifyFreq => "VERIFY_FREQ"
  | .saveState => "SAVE_STATE"
  | .jmp => "JMP"
  | .copyOut => "COPY_OUT"
  | .halt => "HALT"

theorem operand_opcode {args : List String} {instr : Int → Instr} {op op' : Opcode} (hi : ∀ v, (instr v).opcode? = some op')
    (h : (operand args instr).opcode? = some op) : op = op' := by
  unfold operand at h
  cases hv : args.head?.bind parseInt with
  | none =>
    rw [hv] at h
    cases h
  | some v =>
    rw [hv] at h
    exact Option.some.inj (h.symm.trans (hi v))

/-- A line that compiles to an opcode has its mnemonic. -/
theorem shownOp_of_opcode {line : String} {op : Opcode} (h : (Instr.ofLine line).opcode? = some op) :
    shownOp line = mnemonic op := by
  unfold Instr.ofLine at h
  cases hw : words line with
  | nil =>
    rw [hw] at h
    cases h
  | cons w args =>
    rw [hw] at h
    have hop : opOf line = upper w := by simp [opOf, hw]
    have hcopy : opOf "COPY_OUT" = "COPY_OUT" := by decide +kernel
    rw [shownOp, hop]
    simp only at h
    generalize upper w = u at h hop
    unfold Instr.ofWords at h
    split at h
    case h_10 =>
      cases h
      exact hcopy
    case h_15 =>
      rw [if_neg (by decide), hop]
      split at h
      · cases h
        rfl
      · rw [operand_opcode (fun _ => rfl) h]
        rfl
    case h_18 => cases h
    all_goals
      rw [if_neg (by decide), hop]
      first
        | cases h
          rfl
        | rw [operand_opcode (fun _ => rfl) h]
          rfl

theorem instrAt_opcode {y x : Nat} {op : Opcode} (h : (instrAt program y x).opcode? = some op) :
    (cell? program y x).map shownOp = some (mnemonic op) := by
  unfold instrAt at h
  cases hc : cell? program y x with
  | none =>
    rw [hc] at h
    cases h
  | some line =>
    rw [hc] at h
    rw [Option.map_some, shownOp_of_opcode h]

theorem expand_rows (program : Program) (y : Nat) :
    (expand program)[y]?.map (List.map opOf) = program[y]?.map (List.map shownOp) := by
  have hrow (row : List String) : (row.flatMap expandOne).map opOf = row.map shownOp := by
    induction row with
    | nil => rfl
    | cons line row ih =>
      rw [List.flatMap_cons, List.map_append, ih, expandOne_eq]
      rfl
  rw [expand, List.getElem?_map, Option.map_map]
  cases program[y]? with
  | none => rfl
  | some row => exact congrArg some (hrow row)

theorem cell?_blank (program : Program) (y i z x : Nat) :
    cell? (blank program y i) z x =
      if z = y ∧ x = i then (cell? program z x).map fun _ => "" else cell? program z x := by
  unfold cell? blank
  rw [List.getElem?_modify]
  cases program[z]? with
  | none => simp
  | some row =>
    by_cases hz : y = z
    · subst hz
      by_cases hx : i = x
      · subst hx
        by_cases hlt : i < row.length
        · simp [hlt]
        · simp [hlt]
      · simp [hx, Ne.symm hx]
    · simp [hz, Ne.symm hz]

theorem instrAt_blank (program : Program) (y i z x : Nat) :
    instrAt (blank program y i) z x = if z = y ∧ x = i then .nop else instrAt program z x := by
  unfold instrAt
  rw [cell?_blank]
  split
  · have hempty : Instr.ofLine "" = .nop := by decide +kernel
    cases cell? program z x with
    | none => rfl
    | some line => exact hempty
  · rfl

theorem columns_blank (program : Program) (y i : Nat) : columns (blank program y i) = columns program := by
  have hlengths : (blank program y i).map List.length = program.map List.length := by
    apply List.ext_getElem?
    intro z
    rw [List.getElem?_map, List.getElem?_map, blank, List.getElem?_modify]
    cases program[z]? with
    | none => rfl
    | some row =>
      simp only [Option.map_eq_map, Option.map_some]
      split
      · rw [List.length_set]
      · rfl
  rw [columns, hlengths, columns]

theorem length_blank (program : Program) (y i : Nat) : (blank program y i).length = program.length := List.length_modify ..

theorem cell?_columns {y x : Nat} {line : String} (h : cell? program y x = some line) : x < columns program := by
  unfold cell? at h
  obtain ⟨row, hrow, hline⟩ := Option.bind_eq_some_iff.mp h
  have hlt : x < row.length := (List.getElem?_eq_some_iff.mp hline).1
  have hle : row.length ≤ columns program := by
    have hmem : row.length ∈ program.map List.length := List.mem_map_of_mem (List.mem_of_getElem? hrow)
    unfold columns
    generalize program.map List.length = lengths at hmem
    induction lengths with
    | nil => cases hmem
    | cons a as ih =>
      rw [List.foldr_cons]
      rcases List.mem_cons.mp hmem with rfl | hmem
      · exact le_max_left ..
      · exact (ih hmem).trans (le_max_right ..)
  omega

/-! ## The compiled frames -/

/-- No line of the program is a JMP. -/
def NoJump (program : Program) : Prop := ∀ row ∈ program, ∀ line ∈ row, opOf line ≠ "JMP"

instance (program : Program) : Decidable (NoJump program) :=
  inferInstanceAs (Decidable (∀ row ∈ program, ∀ line ∈ row, opOf line ≠ "JMP"))

theorem NoJump.instrAt (h : NoJump program) (y x : Nat) : (instrAt program y x).opcode? ≠ some .jmp := by
  intro hjmp
  obtain ⟨line, hline, hop⟩ := Option.map_eq_some_iff.mp (instrAt_opcode hjmp)
  obtain ⟨row, hrow, hcell⟩ := Option.bind_eq_some_iff.mp hline
  refine h row (List.mem_of_getElem? hrow) line (List.mem_of_getElem? hcell) ?_
  unfold shownOp at hop
  split at hop
  · exact absurd hop (by decide +kernel)
  · exact hop

/-- The image a program without a JMP compiles to. -/
structure Compiled (cfg : Config) (program : Program) (img : Raster) : Prop where
  compile : compile cfg.opmap program = some img
  width : img.width = columns program
  height : img.height = program.length
  px : ∀ y x, y < img.height → x < img.width → img.px y x = (instrAt program y x).pixel cfg.opmap

theorem exists_compiled (hm : Complete cfg.opmap) (hne : columns program ≠ 0) : ∃ img, Compiled cfg program img := by
  obtain ⟨img, hc, hw, hh, hpx⟩ := compile_image hm hne
  refine ⟨img, hc, hw, hh, ?_⟩
  intro y x hy hx
  have hget := hpx y x hy hx
  rw [get?_inside hy hx] at hget
  exact Option.some.inj hget

theorem Compiled.opcode {img : Raster} (hm : Complete cfg.opmap) (h : Compiled cfg program img) {y x : Nat} (hy : y < img.height)
    (hx : x < img.width) : cfg.opcode (img.px y x).r = (instrAt program y x).opcode? := by
  rw [h.px y x hy hx, opcode_pixel hm]

theorem Compiled.noJmp {img : Raster} (hm : Complete cfg.opmap) (h : Compiled cfg program img)
    (hjump : ∀ y x, (instrAt program y x).opcode? ≠ some .jmp) : NoJmp cfg img n := by
  rw [noJmp_iff]
  intro y _ hy x hx
  rw [h.opcode hm hy hx]
  exact hjump y x

/-- With a line blanked that is no VERIFY_FREQ, the frame differs at its cell. -/
theorem Compiled.differFrom {img img' : Raster} (hm : Complete cfg.opmap) (hj : NoJump program) {y i : Nat}
    (hi : i < columns program) (h : Compiled cfg program img) (h' : Compiled cfg (blank program y i) img')
    (hverify : (instrAt program y i).opcode? ≠ some .verifyFreq) : DifferFrom cfg n y i img img' := by
  have hw : img.width = img'.width := by rw [h.width, h'.width, columns_blank]
  have hi : i < img.width := h.width ▸ hi
  have hh : img.height = img'.height := by rw [h.height, h'.height, length_blank]
  have hpx : ∀ z x, ¬(z = y ∧ x = i) → z < img.height → x < img.width → img.px z x = img'.px z x := by
    intro z x hne hz hx
    rw [h.px z x hz hx, h'.px z x (hh ▸ hz) (hw ▸ hx), instrAt_blank, if_neg hne]
  refine ⟨hw, hh, ?_, ?_, ?_, h.noJmp hm hj.instrAt⟩
  · intro z hz hrow x hx
    exact hpx z x (fun e => hz e.1) hrow hx
  · intro hrow x hx
    exact hpx y x (fun e => by omega) hrow (by omega)
  · intro hrow x hx hop
    rw [h.opcode hm hrow (by omega)] at hop
    have hself : instrAt program y x = .verifyFreq := by
      cases hi : instrAt program y x <;> rw [hi] at hop <;> first | rfl | cases hop
    by_cases hmir : img.width - 1 - x = i
    · -- the mirror cell is the one that differs, and a VERIFY_FREQ in neither image
      have hne : instrAt program y i ≠ .verifyFreq := fun e => hverify (by rw [e]; rfl)
      rw [hmir, h.px y x hrow (by omega), h.px y i hrow (by omega), h'.px y i (hh ▸ hrow) (by omega), hself,
        pixel_eq_verifyFreq hm, pixel_eq_verifyFreq hm, instrAt_blank, if_pos ⟨rfl, rfl⟩]
      exact ⟨fun e => absurd e hne, fun e => absurd e Instr.noConfusion⟩
    · rw [hpx y _ (fun e => hmir e.2) hrow (by omega)]

/-! ## What is warned of -/

theorem executed_compiled {img : Raster} (h : Compiled cfg program img) (path : String) (files : String → File) (m : Machine n) :
    executed cfg program path files m = runFrame cfg path img m := by
  have hfile : compileTo cfg.opmap program path files path = .image img := by
    rw [compileTo, h.compile]
    exact Function.update_self ..
  rw [executed, executeSingle, hfile]

theorem pixel_idle (hm : Complete cfg.opmap) {i : Instr} (h : ∀ op, i.opcode? = some op → op = .ifAEq) :
    (i.pixel cfg.opmap).Idle cfg := by
  unfold Pixel.Idle
  rw [opcode_pixel hm]
  cases ho : i.opcode? with
  | none =>
    refine .inr ⟨rfl, ?_⟩
    rw [Instr.pixel, ho]
    rfl
  | some op =>
    rw [h op ho]
    exact .inl rfl

theorem pixel_confined (hm : Complete cfg.opmap) (hs : cfg.strictMode = false) {i : Instr}
    (h : ∀ op, i.opcode? = some op → op ≠ .storeMem ∧ op ≠ .jmp ∧ op ≠ .saveState) (width : Nat) :
    (i.pixel cfg.opmap).Confined cfg width := by
  refine ⟨fun hop => ?_, fun hop => ?_, fun hop => ?_, fun hstrict => ?_⟩
  · rw [opcode_pixel hm] at hop
    exact absurd rfl (h _ hop).1
  · rw [opcode_pixel hm] at hop
    exact absurd rfl (h _ hop).2.1
  · rw [opcode_pixel hm] at hop
    exact absurd rfl (h _ hop).2.2
  · rw [hs] at hstrict
    cases hstrict

/-- A warning is of a row, by the operations it has after expansion. -/
theorem validate_row {w : Warning} {debug : Bool} (h : w ∈ validate (expand program) debug) :
    ∃ y row, program[y]? = some row ∧ w ∈ rowWarnings y (row.map shownOp) := by
  unfold validate at h
  split at h
  · obtain ⟨⟨expanded, y⟩, hmem, hw⟩ := List.mem_flatMap.mp h
    have hget : (expand program)[y]? = some expanded := List.mem_zipIdx_iff_getElem?.mp hmem
    have hrows := expand_rows program y
    rw [hget] at hrows
    obtain ⟨row, hrow, hops⟩ := Option.map_eq_some_iff.mp hrows.symm
    exact ⟨y, row, hrow, hops ▸ hw⟩
  · cases h

theorem mem_rowWarnings {y : Nat} {ops : List String} {w : Warning} (h : w ∈ rowWarnings y ops) :
    (w = .ifLast y ∧ ops.getLast? = some "IF_A_EQ") ∨ ∃ i, ops[i]? = some "ADD" ∧
      ((w = .neverStored y i ∧ scan (ops.drop (i + 1)) (i + 1) false = none) ∨
        ∃ j, w = .storesOld y j ∧ scan (ops.drop (i + 1)) (i + 1) false = some (j, false)) := by
  rcases List.mem_append.mp h with h | h
  · split at h
    · rename_i hlast
      exact .inl ⟨List.mem_singleton.mp h, hlast⟩
    · cases h
  · obtain ⟨i, -, h⟩ := List.mem_flatMap.mp h
    split at h
    · rename_i hadd
      refine .inr ⟨i, hadd, ?_⟩
      split at h
      · rename_i hscan
        exact .inl ⟨List.mem_singleton.mp h, hscan⟩
      · rename_i j hscan
        exact .inr ⟨j, List.mem_singleton.mp h, hscan⟩
      · cases h
    · cases h

section

variable {y i : Nat} {row : List String}

theorem shownOp_cell (hrow : program[y]? = some row) (x : Nat) : (row.map shownOp)[x]? = (cell? program y x).map shownOp := by
  rw [List.getElem?_map, cell?, hrow, Option.bind_some]

/-- The opcode at a cell whose operation is known. -/
theorem opcode_of_shownOp (hrow : program[y]? = some row) {x : Nat} {name : String} (hop : (row.map shownOp)[x]? = some name)
    {op : Opcode} (h : (instrAt program y x).opcode? = some op) : mnemonic op = name := by
  have hcell := instrAt_opcode h
  rw [← shownOp_cell hrow, hop] at hcell
  exact (Option.some.inj hcell).symm

theorem column_of_shownOp (hrow : program[y]? = some row) {x : Nat} {name : String} (hop : (row.map shownOp)[x]? = some name) :
    x < columns program := by
  rw [shownOp_cell hrow] at hop
  obtain ⟨line, hline, -⟩ := Option.map_eq_some_iff.mp hop
  exact cell?_columns hline

theorem ifLast_right (hm : Complete cfg.opmap) (hj : NoJump program) (hrow : program[y]? = some row)
    (hlast : (row.map shownOp).getLast? = some "IF_A_EQ") : (Warning.ifLast y).Right cfg program := by
  have hlength : row.length = (row.length - 1) + 1 := by
    cases row with
    | nil => cases hlast
    | cons line row => rfl
  have hop : (row.map shownOp)[row.length - 1]? = some "IF_A_EQ" := by
    rw [List.getLast?_eq_getElem?, List.length_map] at hlast
    exact hlast
  have hi := column_of_shownOp hrow hop
  refine ⟨row.length - 1, by rw [hrow, Option.map_some, ← hlength], ?_⟩
  intro n m path files
  have hne : columns program ≠ 0 := by omega
  obtain ⟨img, h⟩ := exists_compiled hm hne
  obtain ⟨img', h'⟩ := @exists_compiled cfg (blank program y (row.length - 1)) hm
    (by rwa [columns_blank])
  have hself : ∀ op, (instrAt program y (row.length - 1)).opcode? = some op → op = .ifAEq := by
    intro op ho
    have hname := opcode_of_shownOp hrow hop ho
    cases op <;> first | rfl | exact absurd hname (by decide)
  -- beyond the line there is padding, and where it is blanked there is a NOP
  have hidle : ∀ x, row.length - 1 ≤ x → ∀ op, (instrAt program y x).opcode? = some op → op = .ifAEq := by
    intro x hx op ho
    rcases Nat.eq_or_lt_of_le hx with rfl | hlt
    · exact hself op ho
    · have hcell := instrAt_opcode ho
      rw [cell?, hrow, Option.bind_some, List.getElem?_eq_none (by omega)] at hcell
      cases hcell
  have hblank : ∀ x, row.length - 1 ≤ x → ∀ op, (instrAt (blank program y (row.length - 1)) y x).opcode? = some op →
      op = .ifAEq := by
    intro x hx op ho
    rw [instrAt_blank] at ho
    split at ho
    · cases ho
    · exact hidle x hx op ho
  have hverify : (instrAt program y (row.length - 1)).opcode? ≠ some .verifyFreq := fun e => absurd (hself _ e) (by decide)
  have hdiffer := h.differFrom (n := n) hm hj hi h' hverify
  rw [executed_compiled h, executed_compiled h']
  refine runFrame_idle hdiffer (h'.noJmp hm ?_) (by rw [h.width]; omega) ?_ ?_ path m
  · intro z x
    rw [instrAt_blank]
    split
    · exact fun e => by cases e
    · exact hj.instrAt z x
  · intro hy x hx hlt
    rw [h.px y x hy hlt]
    exact pixel_idle hm (hidle x hx)
  · intro hy x hx hlt
    rw [h'.px y x hy hlt]
    exact pixel_idle hm (hblank x hx)

theorem neverStored_right (hm : Complete cfg.opmap) (hj : NoJump program) (hrow : program[y]? = some row)
    (hadd : (row.map shownOp)[i]? = some "ADD") (hscan : scan ((row.map shownOp).drop (i + 1)) (i + 1) false = none) :
    (Warning.neverStored y i).Right cfg program := by
  intro hs hsave n m path files
  have hi := column_of_shownOp hrow hadd
  have hne : columns program ≠ 0 := by omega
  obtain ⟨img, h⟩ := exists_compiled hm hne
  obtain ⟨img', h'⟩ := @exists_compiled cfg (blank program y i) hm (by rwa [columns_blank])
  have hself : ∀ op, (instrAt program y i).opcode? = some op → op = .addThread := by
    intro op ho
    have hname := opcode_of_shownOp hrow hadd ho
    cases op <;> first | rfl | exact absurd hname (by decide)
  have hquiet : ∀ x, i ≤ x → ∀ op, (instrAt program y x).opcode? = some op → op ≠ .storeMem ∧ op ≠ .jmp ∧ op ≠ .saveState := by
    intro x hx op ho
    rcases Nat.eq_or_lt_of_le hx with rfl | hlt
    · rw [hself op ho]
      decide
    · obtain ⟨line, hline, hop⟩ := Option.map_eq_some_iff.mp (instrAt_opcode ho)
      rw [cell?, hrow, Option.bind_some] at hline
      have hrest : (row.drop (i + 1))[x - (i + 1)]? = some line := by
        rw [List.getElem?_drop, show i + 1 + (x - (i + 1)) = x by omega]
        exact hline
      have hmem := List.mem_of_getElem? hrest
      refine ⟨?_, ?_, ?_⟩
      · rintro rfl
        have hin := List.mem_map_of_mem (f := shownOp) hmem
        rw [hop, List.map_drop] at hin
        exact scan_none hscan hin
      · rintro rfl
        exact hj.instrAt y x ho
      · rintro rfl
        refine hsave row hrow line hmem ?_
        unfold shownOp at hop
        split at hop
        · exact absurd hop (by decide +kernel)
        · exact hop
  have hverify : (instrAt program y i).opcode? ≠ some .verifyFreq := fun e => absurd (hself _ e) (by decide)
  have hdiffer := h.differFrom (n := n) hm hj hi h' hverify
  rw [executed_compiled h, executed_compiled h']
  refine runFrame_tail hdiffer (by rw [h.width]; omega) ?_ ?_ path m
  · intro hy x hx hlt
    rw [h.px y x hy hlt]
    exact pixel_confined hm hs (hquiet x hx) _
  · intro hy x hx hlt
    rw [h'.px y x hy hlt]
    refine pixel_confined hm hs (fun op ho => ?_) _
    rw [instrAt_blank] at ho
    split at ho
    · cases ho
    · exact hquiet x hx op ho

theorem writesA_mnemonic {op : Opcode} (h : mnemonic op ∉ aWriters) : op.writesA = false := by
  cases op <;> first | rfl | exact absurd (by decide) h

theorem storesOld_right (hm : Complete cfg.opmap) (hj : NoJump program) (hrow : program[y]? = some row)
    (hadd : (row.map shownOp)[i]? = some "ADD") {j : Nat}
    (hscan : scan ((row.map shownOp).drop (i + 1)) (i + 1) false = some (j, false)) :
    (Warning.storesOld y j).Right cfg program := by
  obtain ⟨-, d, rfl, hstore, hno⟩ := scan_some hscan
  rw [List.getElem?_drop] at hstore
  refine ⟨i, by omega, by rw [← shownOp_cell hrow, hadd], by rw [← shownOp_cell hrow, hstore], ?_⟩
  intro n m img hc z hz f g hf hg
  have hi := column_of_shownOp hrow hadd
  have hlast := column_of_shownOp hrow hstore
  have hne : columns program ≠ 0 := by omega
  obtain ⟨img', h⟩ := exists_compiled hm hne
  obtain rfl := Option.some.inj (hc.symm.trans h.compile)
  have hjmp : NoJmp cfg img n := h.noJmp hm hj.instrAt
  have hx : ∀ k g, k ≤ columns program → m.after cfg img k = .done g → g.x = k := by
    intro k
    induction k with
    | zero =>
      intro g _ hg
      cases hg
      rfl
    | succ k ih =>
      intro g hk hg
      rw [Machine.after, repeatWhile_add] at hg
      obtain ⟨s, hs, hg⟩ := bind_eq_done hg
      have hsx := ih s (by omega) hs
      have hw := h.width
      simp only [repeatWhile] at hg
      rw [if_pos (decide_eq_true (by omega))] at hg
      obtain ⟨t, ht, he⟩ := bind_eq_done hg
      cases he
      rw [column_next hjmp ht, hsx]
  have hfx := hx i f (by omega) hf
  rw [Machine.after, show i + 1 + d = i + (d + 1) by omega, repeatWhile_add] at hg
  rw [Machine.after] at hf
  rw [hf, bind_done] at hg
  refine run_a hjmp (y := z) hg ?_
  intro x hxf hlt p hp op hop
  obtain ⟨⟨hy, hin⟩, rfl⟩ := get?_eq_some.mp hp
  rw [h.opcode hm hy hin, hz] at hop
  apply writesA_mnemonic
  rcases Nat.eq_or_lt_of_le hxf with heq | hgt
  · rw [← heq, hfx] at hop
    rw [opcode_of_shownOp hrow hadd hop]
    decide
  · have hcell := instrAt_opcode hop
    rw [← shownOp_cell hrow] at hcell
    refine hno (x - (i + 1)) (by omega) _ ?_
    rw [List.getElem?_drop, show i + 1 + (x - (i + 1)) = x by omega]
    exact hcell

end

/-- Every warning is right, of a program without a JMP. -/
theorem warnings_right (cfg : Config) (hm : Complete cfg.opmap) (program : Program) (hj : NoJump program) (debug : Bool)
    (w : Warning) (hw : w ∈ validate (expand program) debug) : w.Right cfg program := by
  obtain ⟨y, row, hrow, hmem⟩ := validate_row hw
  rcases mem_rowWarnings hmem with ⟨rfl, hlast⟩ | ⟨i, hadd, ⟨rfl, hscan⟩ | ⟨j, rfl, hscan⟩⟩
  · exact ifLast_right hm hj hrow hlast
  · exact neverStored_right hm hj hrow hadd hscan
  · exact storesOld_right hm hj hrow hadd hscan

/-- Of a sum that only a guard at the end could use. -/
theorem warnings_right_sum : (Warning.neverStored 0 1).Right {} [["SET_A 3", "add", "OUT_TO_A", "IF_A_EQ 3"], ["STORE_MEM 0"]] :=
  warnings_right {} (by decide +kernel) _ (by decide +kernel) true _ (by decide +kernel)

end PyxelVM.Compiler
