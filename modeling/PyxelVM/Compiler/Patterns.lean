/-
  PyxelVM.Compiler.Patterns — the program pattern helpers (`zdx_parallel_vm.py`).

  Each helper writes a matrix of one thread. A frame of one row is a run of thread 0
  alone: `coreTurn` is its turn at a column, `lone` the machine with it inside
  the frame, and `column_lone` makes the one a column of the other.

  - `ofLine_operand`: an operand the helper could format is the operand that is read.
  - `patterns_run`: what each of the three leaves, compiled and executed, for all
    arguments, on every machine that may make four steps. STORE_MEM stores A as it was
    before the ADD; the conditional write writes no slot; the validation pattern compares
    VERIFY_FREQ with the HALT at the other end, so that it never matches and never halts.
-/

import PyxelVM.Compiler.Correct

namespace PyxelVM.Compiler

open Function (update)
open PyxelVM.Lib
open PyxelVM.Vm

/-! ## The helpers -/

/-- `str(n)`; it raises ValueError on more digits than `int` takes. -/
def formatInt (k : Int) : Option String := if (Nat.toDigits 10 k.natAbs).length ≤ 4300 then some (toString k) else none

/-- `f"{name} {k}"`. -/
def withOperand (name : String) (k : Int) : Option String := (formatInt k).map (name ++ " " ++ ·)

def buildComputeAndStore (a b memIdx : Int) : Option Program := do
  let setA ← withOperand "SET_A" a
  let setB ← withOperand "SET_B" b
  let storeMem ← withOperand "STORE_MEM" memIdx
  return [[setA, setB, "ADD", storeMem]]

def buildConditionalWrite (memIdx compareVal : Int) : Option Program := do
  let loadMem ← withOperand "LOAD_MEM" memIdx
  let ifAEq ← withOperand "IF_A_EQ" compareVal
  return [[loadMem, ifAEq, "SET_A 1", "HALT"]]

def buildValidationPattern : Program := [["VERIFY_FREQ", "IF_A_EQ 1", "HALT"]]

/-! ## Lines -/

/-- A mnemonic with an operand that could be formatted. -/
theorem ofLine_operand {name line : String} {instr : Int → Instr} {k : Int} (h : withOperand name k = some line)
    (hname : Keyword name) (hof : Instr.ofWords name [toString k] = operand [toString k] instr) :
    Instr.ofLine line = instr k := by
  obtain ⟨text, hf, rfl⟩ := Option.map_eq_some_iff.mp h
  rw [formatInt] at hf
  split at hf
  · rename_i hlen
    cases hf
    rw [ofLine_number hname, hof, operand_number, if_pos hlen]
  · cases hf

/-! ## A frame of one row -/

section

variable {n : Nat} {cfg : Config} {img : Raster}

/-- The turn of thread 0 at a column. -/
def coreTurn (cfg : Config) (img : Raster) (x : Nat) (c : Core) : Outcome Raised Core :=
  if c.halted then .done c
  else if c.skipNext then .done { c with skipNext := false }
  else
    match img.get? 0 x with
    | none => .raised (.index 0 x) { c with regs := { c.regs with t := x } }
    | some p => dispatch cfg img 0 x p { c with regs := { c.regs with t := x } }

/-- The machine inside a frame, with that state of thread 0; the others have done nothing. -/
def lone (m : Machine (n + 1)) (x clock : Nat) (c : Core) : Frame (n + 1) :=
  { m with
    registers := update m.registers 0 c.regs
    shared := c.shared
    clock := clock
    nextFrame := c.nextFrame
    halted := update (fun _ => false) 0 c.halted
    skipNext := update (fun _ => false) 0 c.skipNext
    jumpTo := c.jumpTo
    x := x }

theorem visit_lone (m : Machine (n + 1)) (x clock : Nat) (c : Core) : visit cfg img 0 (lone m x clock c) =
    if img.height = 0 then .done (lone m x clock c) else (coreTurn cfg img x c).map (lone m x clock) := by
  have hregs : (lone m x clock c).registers 0 = c.regs := by simp [lone]
  have hhalted : (lone m x clock c).halted 0 = c.halted := by simp [lone]
  have hskip : (lone m x clock c).skipNext 0 = c.skipNext := by simp [lone]
  have htick : (lone m x clock c).tick 0 = lone m x clock { c with regs := { c.regs with t := x } } := by
    simp [Frame.tick, lone]
  have hcore : ∀ d : Core, (lone m x clock d).core 0 = d := by
    intro d
    simp [Frame.core, lone]
  have hwith : ∀ d : Core, (lone m x clock d).withCore 0 = lone m x clock := by
    intro d
    funext e
    simp [Frame.withCore, lone]
  by_cases hz : img.height = 0
  · rw [visit, if_pos (.inl (by simp [hz])), if_pos hz]
  rw [if_neg hz, visit, coreTurn, hhalted, hskip, htick, hcore, hwith]
  have hin : ¬img.height ≤ ((0 : Fin (n + 1)) : Nat) := by simpa using hz
  simp only [hin, false_or]
  by_cases hh : c.halted = true
  · rw [if_pos hh, if_pos hh]
    rfl
  rw [if_neg hh, if_neg hh]
  by_cases hk : c.skipNext = true
  · rw [if_pos hk, if_pos hk]
    simp [lone]
  rw [if_neg hk, if_neg hk]
  simp only [Fin.val_zero, show (lone m x clock c).x = x from rfl]
  cases img.get? 0 x <;> rfl

/-- A column of a frame of one row. -/
theorem column_lone (hh : img.height = 1) (m : Machine (n + 1)) (x clock : Nat) {c : Core} (hj : c.jumpTo = none) :
    column cfg img (lone m x clock c) = ((coreTurn cfg img x c).map (lone m x x)).bind fun f => .done f.advance := by
  have hstart : ({ lone m x clock c with clock := (lone m x clock c).x, jumpTo := none } : Frame (n + 1)) = lone m x x c := by
    simp [lone, hj]
  rw [column, hstart, List.finRange_succ, forEach_cons, visit_lone, if_neg (by omega)]
  cases coreTurn cfg img x c with
  | raised e d => rfl
  | done d =>
    have hidle := forEach_keeps (P := fun f => f = lone m x x d) (f := visit cfg img) ((List.finRange n).map Fin.succ)
      (fun y hy f hf => ⟨f, by
        obtain ⟨z, -, rfl⟩ := List.mem_map.mp hy
        rw [visit, if_pos (.inl (by simp [hh]))], hf⟩) rfl
    obtain ⟨f, hf, rfl⟩ := hidle
    simp only [Outcome.map_done, Outcome.bind_done, hf]

/-- One turn of the loop. -/
theorem loop_lone (hh : img.height = 1) (m : Machine (n + 1)) {x : Nat} (clock : Nat) {c d : Core} (hx : x < img.width)
    (hj : c.jumpTo = none) (h : coreTurn cfg img x c = .done d) (k : Nat) :
    repeatWhile (fun f : Frame (n + 1) => decide (f.x < img.width)) (column cfg img) (k + 1) (lone m x clock c) =
      repeatWhile (fun f : Frame (n + 1) => decide (f.x < img.width)) (column cfg img) k
        (lone m (d.jumpTo.getD (x + 1)) x d) := by
  rw [repeatWhile, if_pos (decide_eq_true (show (lone m x clock c).x < _ from hx)), column_lone hh m x clock hj, h]
  rfl

theorem loop_lone_raised (hh : img.height = 1) (m : Machine (n + 1)) {x : Nat} (clock : Nat) {c d : Core} {e : Raised}
    (hx : x < img.width) (hj : c.jumpTo = none) (h : coreTurn cfg img x c = .raised e d) (k : Nat) :
    repeatWhile (fun f : Frame (n + 1) => decide (f.x < img.width)) (column cfg img) (k + 1) (lone m x clock c) =
      .raised e (lone m x x d) := by
  rw [repeatWhile, if_pos (decide_eq_true (show (lone m x clock c).x < _ from hx)), column_lone hh m x clock hj, h]
  rfl

theorem loop_lone_end (m : Machine (n + 1)) {x : Nat} (clock : Nat) (c : Core) (hx : img.width ≤ x) (k : Nat) :
    repeatWhile (fun f : Frame (n + 1) => decide (f.x < img.width)) (column cfg img) k (lone m x clock c) =
      .done (lone m x clock c) := by
  cases k with
  | zero => rfl
  | succ k =>
    have hlt : ¬(lone m x clock c).x < img.width := Nat.not_lt.mpr hx
    rw [repeatWhile, if_neg fun h => hlt (of_decide_eq_true h)]

/-- What the frame leaves of a thread that ran through it. -/
theorem runFrame_lone {path : String} {m : Machine (n + 1)} {x clock : Nat} {c : Core} (hx : img.width ≤ x)
    (h : repeatWhile (fun f : Frame (n + 1) => decide (f.x < img.width)) (column cfg img) cfg.maxColSteps
      (lone m 0 m.clock ⟨m.registers 0, m.shared, none, false, false, none⟩) = .done (lone m x clock c)) :
    runFrame cfg path img m = .done { m with
      registers := update m.registers 0 c.regs
      shared := c.shared
      clock := clock
      nextFrame := c.nextFrame } := by
  have henter : m.enter = lone m 0 m.clock ⟨m.registers 0, m.shared, none, false, false, none⟩ := by
    simp [Machine.enter, lone]
  rw [runFrame, henter, h, Outcome.bind_done, if_neg (by simp [lone, hx])]
  rfl

theorem runFrame_lone_raised {path : String} {m : Machine (n + 1)} {f : Frame (n + 1)} {e : Raised}
    (h : repeatWhile (fun f : Frame (n + 1) => decide (f.x < img.width)) (column cfg img) cfg.maxColSteps
      (lone m 0 m.clock ⟨m.registers 0, m.shared, none, false, false, none⟩) = .raised e f) :
    runFrame cfg path img m = .raised e f.toMachine := by
  have henter : m.enter = lone m 0 m.clock ⟨m.registers 0, m.shared, none, false, false, none⟩ := by
    simp [Machine.enter, lone]
  rw [runFrame, henter, h]
  rfl

/-- The turn of a thread that is neither halted nor to skip. -/
theorem coreTurn_cell {x : Nat} {p : Pixel} (hp : img.get? 0 x = some p) {c : Core} (hh : c.halted = false)
    (hk : c.skipNext = false) : coreTurn cfg img x c = dispatch cfg img 0 x p { c with regs := { c.regs with t := x } } := by
  rw [coreTurn, hh, hk, hp]
  rfl

theorem coreTurn_skip {x : Nat} {c : Core} (hh : c.halted = false) (hk : c.skipNext = true) :
    coreTurn cfg img x c = .done { c with skipNext := false } := by
  rw [coreTurn, hh, hk]
  rfl

/-! ## The cells of a compiled line -/

theorem pixel_channels {m : OpMap} {i : Instr} {op : Opcode} (ho : i.opcode? = some op) :
    ((i.pixel m).g.toNat : Int) = clamp i.channels.1 ∧ ((i.pixel m).b.toNat : Int) = clamp i.channels.2 := by
  have hb (v : Int) : 0 ≤ clamp v ∧ clamp v ≤ 255 := by
    unfold clamp
    omega
  simp only [Instr.pixel, ho, Option.map_some, Option.getD_some, pixelOf]
  have hbyte (v : Int) : ((UInt8.ofNat (clamp v).toNat).toNat : Int) = clamp v := by
    rw [← clamp_clamp, toNat_ofNat_clamp (hb v), clamp_clamp]
  exact ⟨hbyte _, hbyte _⟩

theorem slot_pixel {m : OpMap} {i : Instr} {op : Opcode} (ho : i.opcode? = some op) :
    slot? (i.pixel m).g = slotOf? (clamp i.channels.1) := by
  have hg := (pixel_channels (m := m) ho).1
  rw [slot?, slotOf?]
  by_cases h : (i.pixel m).g.toNat < 8
  · rw [dif_pos h, dif_pos (by omega)]
    congr 2
    omega
  · rw [dif_neg h, dif_neg (by omega)]

variable (hm : Complete cfg.opmap) (y x : Nat) (c : Core)
include hm

theorem dispatch_setA (v : Int) :
    dispatch cfg img y x (Instr.pixel cfg.opmap (.setA v)) c = .done { c with regs := { c.regs with a := clamp v } } := by
  have hb := (pixel_channels (m := cfg.opmap) (i := .setA v) rfl).2
  simp only [dispatch, opcode_pixel hm, Instr.opcode?, hb, Instr.channels]

theorem dispatch_setB (v : Int) :
    dispatch cfg img y x (Instr.pixel cfg.opmap (.setB v)) c = .done { c with regs := { c.regs with b := clamp v } } := by
  have hb := (pixel_channels (m := cfg.opmap) (i := .setB v) rfl).2
  simp only [dispatch, opcode_pixel hm, Instr.opcode?, hb, Instr.channels]

theorem dispatch_add : dispatch cfg img y x (Instr.pixel cfg.opmap .add) c =
    .done { c with regs := { c.regs with out := (c.regs.a + c.regs.b) % 256 } } := by
  simp only [dispatch, opcode_pixel hm, Instr.opcode?]

theorem dispatch_halt : dispatch cfg img y x (Instr.pixel cfg.opmap .halt) c = .done { c with halted := true } := by
  simp only [dispatch, opcode_pixel hm, Instr.opcode?]

theorem dispatch_ifAEq (v : Int) : dispatch cfg img y x (Instr.pixel cfg.opmap (.ifAEq v)) c =
    if c.regs.a ≠ clamp v then .done { c with skipNext := true } else .done c := by
  have hb := (pixel_channels (m := cfg.opmap) (i := .ifAEq v) rfl).2
  simp only [dispatch, opcode_pixel hm, Instr.opcode?, hb, Instr.channels]

theorem dispatch_storeMem (v : Int) : dispatch cfg img y x (Instr.pixel cfg.opmap (.storeMem v)) c =
    match slotOf? (clamp v) with
    | some s => .done { c with shared := update c.shared s c.regs.a }
    | none => if cfg.strictMode then .raised (.badAddress .storeMem (clamp v).toNat x y) c else .done c := by
  have hs := slot_pixel (m := cfg.opmap) (i := .storeMem v) rfl
  have hg : (Instr.pixel cfg.opmap (.storeMem v)).g.toNat = (clamp v).toNat :=
    (Int.toNat_natCast _).symm.trans (congrArg Int.toNat (pixel_channels (m := cfg.opmap) (i := .storeMem v) rfl).1)
  cases hslot : slotOf? (clamp v) <;>
    simp only [dispatch, opcode_pixel hm, Instr.opcode?, hs, Instr.channels, hg, hslot]

theorem dispatch_loadMem (v : Int) : dispatch cfg img y x (Instr.pixel cfg.opmap (.loadMem v)) c =
    match slotOf? (clamp v) with
    | some s => .done { c with regs := { c.regs with a := c.shared s } }
    | none => if cfg.strictMode then .raised (.badAddress .loadMem (clamp v).toNat x y) c else .done c := by
  have hs := slot_pixel (m := cfg.opmap) (i := .loadMem v) rfl
  have hg : (Instr.pixel cfg.opmap (.loadMem v)).g.toNat = (clamp v).toNat :=
    (Int.toNat_natCast _).symm.trans (congrArg Int.toNat (pixel_channels (m := cfg.opmap) (i := .loadMem v) rfl).1)
  cases hslot : slotOf? (clamp v) <;>
    simp only [dispatch, opcode_pixel hm, Instr.opcode?, hs, Instr.channels, hg, hslot]

theorem dispatch_verifyFreq {i : Instr} (hi : i ≠ .verifyFreq)
    (hmirror : img.get? y (img.width - 1 - x) = some (i.pixel cfg.opmap)) :
    dispatch cfg img y x (Instr.pixel cfg.opmap .verifyFreq) c = .done { c with regs := { c.regs with a := 0 } } := by
  have hne : ¬Instr.pixel cfg.opmap .verifyFreq = i.pixel cfg.opmap := fun e => hi ((pixel_eq_verifyFreq hm i).mp e)
  simp only [dispatch, opcode_pixel hm, Instr.opcode?, hmirror, if_neg hne]

/-- A matrix of one row, compiled and executed. -/
theorem execute_row (row : List String) (hne : row ≠ []) (files : String → File) (outPath : String) :
    ∃ img : Raster, img.width = row.length ∧ img.height = 1 ∧
      (∀ x line, row[x]? = some line → img.get? 0 x = some ((Instr.ofLine line).pixel cfg.opmap)) ∧
      ∀ m : Machine (n + 1),
        executeSingle cfg (compileTo cfg.opmap [row] outPath files) outPath m = runFrame cfg outPath img m := by
  have hcols : columns [row] = row.length := by simp [columns]
  obtain ⟨img, hcomp, hw, hh, hpx⟩ := @compile_image cfg.opmap hm [row]
    (by rw [hcols]; exact fun h => hne (List.length_eq_zero_iff.mp h))
  rw [hcols] at hw
  refine ⟨img, hw, hh, fun x line hline => ?_, fun m => ?_⟩
  · have hx : x < img.width := by rw [hw]; exact (List.getElem?_eq_some_iff.mp hline).1
    rw [hpx 0 x (by rw [hh]; exact Nat.one_pos) hx]
    simp [instrAt, cell?, hline]
  · rw [executeSingle, compileTo, hcomp]
    simp only [Function.update_self]

omit hm

end

/-! ## The patterns -/

/-- Strict mode refuses the address. -/
def Refused (cfg : Config) (memIdx : Int) : Prop := cfg.strictMode = true ∧ slotOf? (clamp memIdx) = none

/-- The slots after a STORE_MEM. -/
def stored (memIdx v : Int) (shared : Fin 8 → Int) : Fin 8 → Int :=
  match slotOf? (clamp memIdx) with
  | some s => update shared s v
  | none => shared

/-- A after a LOAD_MEM. -/
def loaded (memIdx a : Int) (shared : Fin 8 → Int) : Int :=
  match slotOf? (clamp memIdx) with
  | some s => shared s
  | none => a

section

variable {n : Nat} (cfg : Config) (hm : Complete cfg.opmap) (hcap : 4 ≤ cfg.maxColSteps) (files : String → File)
  (outPath : String) (m : Machine (n + 1))
include hm hcap

theorem computeAndStore_runs {a b memIdx : Int} {program : Program} (h : buildComputeAndStore a b memIdx = some program) :
    let ran := executeSingle cfg (compileTo cfg.opmap program outPath files) outPath m
    (¬Refused cfg memIdx → ran = .done { m with
      registers := update m.registers 0 ⟨clamp a, clamp b, (clamp a + clamp b) % 256, 3⟩
      shared := stored memIdx (clamp a) m.shared
      clock := 3
      nextFrame := none }) ∧
    (Refused cfg memIdx → ∃ m', ran = .raised (.badAddress .storeMem (clamp memIdx).toNat 3 0) m') := by
  intro ran
  obtain ⟨setA, hA, h⟩ := Option.bind_eq_some_iff.mp h
  obtain ⟨setB, hB, h⟩ := Option.bind_eq_some_iff.mp h
  obtain ⟨storeMem, hS, h⟩ := Option.bind_eq_some_iff.mp h
  cases h
  obtain ⟨img, hw, hh, hpx, hrun⟩ := execute_row (n := n) hm [setA, setB, "ADD", storeMem] (List.cons_ne_nil _ _) files outPath
  have hw : img.width = 4 := hw
  have hpA := hpx 0 setA rfl
  have hpB := hpx 1 setB rfl
  have hpAdd := hpx 2 "ADD" rfl
  have hpS := hpx 3 storeMem rfl
  rw [ofLine_operand hA (by decide +kernel) rfl] at hpA
  rw [ofLine_operand hB (by decide +kernel) rfl] at hpB
  rw [show Instr.ofLine "ADD" = .add by decide +kernel] at hpAdd
  rw [ofLine_operand hS (by decide +kernel) rfl] at hpS
  obtain ⟨k, hk⟩ := Nat.exists_eq_add_of_le' hcap
  have turn₀ := (coreTurn_cell hpA (c := ⟨m.registers 0, m.shared, none, false, false, none⟩) rfl rfl).trans
    (dispatch_setA hm _ _ _ a)
  have turn₁ := (coreTurn_cell hpB (c := ⟨⟨clamp a, (m.registers 0).b, (m.registers 0).out, 0⟩, m.shared, none, false, false,
    none⟩) rfl rfl).trans (dispatch_setB hm _ _ _ b)
  have turn₂ := (coreTurn_cell hpAdd (c := ⟨⟨clamp a, clamp b, (m.registers 0).out, 1⟩, m.shared, none, false, false,
    none⟩) rfl rfl).trans (dispatch_add hm _ _ _)
  have turn₃ := (coreTurn_cell hpS (c := ⟨⟨clamp a, clamp b, (clamp a + clamp b) % 256, 2⟩, m.shared, none, false, false,
    none⟩) rfl rfl).trans (dispatch_storeMem hm _ _ _ memIdx)
  have hloop (j : Nat) := (loop_lone hh m (x := 0) m.clock (by omega) rfl turn₀ (j + 3)).trans
    ((loop_lone hh m (x := 1) 0 (by omega) rfl turn₁ (j + 2)).trans (loop_lone hh m (x := 2) 1 (by omega) rfl turn₂ (j + 1)))
  rw [show ran = runFrame cfg outPath img m from hrun m, Refused, stored]
  cases hslot : slotOf? (clamp memIdx) with
  | some s =>
    rw [hslot] at turn₃
    refine ⟨fun _ => ?_, fun hr => nomatch hr.2⟩
    have hend := (hloop k).trans ((loop_lone hh m 2 (by omega) rfl turn₃ k).trans (loop_lone_end m 3 _ (by simp [hw]) k))
    exact runFrame_lone (by simp [hw]) (hk ▸ hend)
  | none =>
    rw [hslot] at turn₃
    by_cases hs : cfg.strictMode = true
    · refine ⟨fun hr => absurd ⟨hs, rfl⟩ hr, fun _ => ?_⟩
      simp only [if_pos hs] at turn₃
      exact ⟨_, runFrame_lone_raised (hk ▸ (hloop k).trans (loop_lone_raised hh m 2 (by omega) rfl turn₃ k))⟩
    · refine ⟨fun _ => ?_, fun hr => absurd hr.1 hs⟩
      simp only [if_neg hs] at turn₃
      have hend := (hloop k).trans ((loop_lone hh m 2 (by omega) rfl turn₃ k).trans (loop_lone_end m 3 _ (by simp [hw]) k))
      exact runFrame_lone (by simp [hw]) (hk ▸ hend)

theorem conditionalWrite_runs {memIdx compareVal : Int} {program : Program}
    (h : buildConditionalWrite memIdx compareVal = some program) :
    let ran := executeSingle cfg (compileTo cfg.opmap program outPath files) outPath m
    let a := loaded memIdx (m.registers 0).a m.shared
    (¬Refused cfg memIdx → ran = .done { m with
      registers := update m.registers 0 { m.registers 0 with a := if a = clamp compareVal then 1 else a, t := 3 }
      clock := 3
      nextFrame := none }) ∧
    (Refused cfg memIdx → ∃ m', ran = .raised (.badAddress .loadMem (clamp memIdx).toNat 0 0) m') := by
  intro ran a
  obtain ⟨loadMem, hL, h⟩ := Option.bind_eq_some_iff.mp h
  obtain ⟨ifAEq, hI, h⟩ := Option.bind_eq_some_iff.mp h
  cases h
  obtain ⟨img, hw, hh, hpx, hrun⟩ := execute_row (n := n) hm [loadMem, ifAEq, "SET_A 1", "HALT"] (List.cons_ne_nil _ _)
    files outPath
  have hw : img.width = 4 := hw
  have hpL := hpx 0 loadMem rfl
  have hpI := hpx 1 ifAEq rfl
  have hpA := hpx 2 "SET_A 1" rfl
  have hpH := hpx 3 "HALT" rfl
  rw [ofLine_operand hL (by decide +kernel) rfl] at hpL
  rw [ofLine_operand hI (by decide +kernel) rfl] at hpI
  rw [show Instr.ofLine "SET_A 1" = .setA 1 by decide +kernel] at hpA
  rw [show Instr.ofLine "HALT" = .halt by decide +kernel] at hpH
  obtain ⟨k, hk⟩ := Nat.exists_eq_add_of_le' hcap
  have turn₀ := (coreTurn_cell hpL (c := ⟨m.registers 0, m.shared, none, false, false, none⟩) rfl rfl).trans
    (dispatch_loadMem hm _ _ _ memIdx)
  have turn₁ := (coreTurn_cell hpI (c := ⟨{ m.registers 0 with a := a, t := 0 }, m.shared, none, false, false, none⟩)
    rfl rfl).trans (dispatch_ifAEq hm _ _ _ compareVal)
  -- from the comparison on, which column 2 obeys, and the HALT
  have hrest : coreTurn cfg img 0 ⟨m.registers 0, m.shared, none, false, false, none⟩ =
      .done ⟨{ m.registers 0 with a := a, t := 0 }, m.shared, none, false, false, none⟩ → ran = .done { m with
      registers := update m.registers 0 { m.registers 0 with a := if a = clamp compareVal then 1 else a, t := 3 }
      clock := 3
      nextFrame := none } := by
    intro turn₀
    rw [show ran = runFrame cfg outPath img m from hrun m]
    by_cases ha : a = clamp compareVal
    · rw [if_neg (not_not.mpr ha)] at turn₁
      have turn₂ := (coreTurn_cell hpA (c := ⟨{ m.registers 0 with a := a, t := 1 }, m.shared, none, false, false, none⟩)
        rfl rfl).trans (dispatch_setA hm _ _ _ 1)
      have turn₃ := (coreTurn_cell hpH (c := ⟨{ m.registers 0 with a := 1, t := 2 }, m.shared, none, false, false, none⟩)
        rfl rfl).trans (dispatch_halt hm _ _ _)
      have hend := (loop_lone hh m (x := 0) m.clock (by omega) rfl turn₀ (k + 3)).trans
        ((loop_lone hh m (x := 1) 0 (by omega) rfl turn₁ (k + 2)).trans
        ((loop_lone hh m (x := 2) 1 (by omega) rfl turn₂ (k + 1)).trans
        ((loop_lone hh m (x := 3) 2 (by omega) rfl turn₃ k).trans (loop_lone_end m 3 _ (by simp [hw]) k))))
      rw [if_pos ha]
      exact runFrame_lone (by simp [hw]) (hk ▸ hend)
    · rw [if_pos ha] at turn₁
      have turn₂ := @coreTurn_skip cfg img 2
        ⟨{ m.registers 0 with a := a, t := 1 }, m.shared, none, false, true, none⟩ rfl rfl
      have turn₃ := (coreTurn_cell hpH (c := ⟨{ m.registers 0 with a := a, t := 1 }, m.shared, none, false, false, none⟩)
        rfl rfl).trans (dispatch_halt hm _ _ _)
      have hend := (loop_lone hh m (x := 0) m.clock (by omega) rfl turn₀ (k + 3)).trans
        ((loop_lone hh m (x := 1) 0 (by omega) rfl turn₁ (k + 2)).trans
        ((loop_lone hh m (x := 2) 1 (by omega) rfl turn₂ (k + 1)).trans
        ((loop_lone hh m (x := 3) 2 (by omega) rfl turn₃ k).trans (loop_lone_end m 3 _ (by simp [hw]) k))))
      rw [if_neg ha]
      exact runFrame_lone (by simp [hw]) (hk ▸ hend)
  rw [Refused]
  cases hslot : slotOf? (clamp memIdx) with
  | some s =>
    rw [hslot] at turn₀
    have ha : a = m.shared s := by simp only [a, loaded, hslot]
    exact ⟨fun _ => hrest (by rw [ha]; exact turn₀), fun hr => nomatch hr.2⟩
  | none =>
    rw [hslot] at turn₀
    by_cases hs : cfg.strictMode = true
    · refine ⟨fun hr => absurd ⟨hs, rfl⟩ hr, fun _ => ?_⟩
      simp only [if_pos hs] at turn₀
      rw [show ran = runFrame cfg outPath img m from hrun m]
      exact ⟨_, runFrame_lone_raised (hk ▸ loop_lone_raised hh m m.clock (by omega) rfl turn₀ (k + 3))⟩
    · simp only [if_neg hs] at turn₀
      have ha : a = (m.registers 0).a := by simp only [a, loaded, hslot]
      exact ⟨fun _ => hrest (by rw [ha]; exact turn₀), fun hr => absurd hr.1 hs⟩

theorem validation_runs :
    executeSingle cfg (compileTo cfg.opmap buildValidationPattern outPath files) outPath m = .done { m with
      registers := update m.registers 0 { m.registers 0 with a := 0, t := 1 }
      clock := 2
      nextFrame := none } := by
  obtain ⟨img, hw, hh, hpx, hrun⟩ := execute_row (n := n) hm ["VERIFY_FREQ", "IF_A_EQ 1", "HALT"] (List.cons_ne_nil _ _)
    files outPath
  have hw : img.width = 3 := hw
  have hpV := hpx 0 "VERIFY_FREQ" rfl
  have hpI := hpx 1 "IF_A_EQ 1" rfl
  have hpH := hpx 2 "HALT" rfl
  rw [show Instr.ofLine "VERIFY_FREQ" = .verifyFreq by decide +kernel] at hpV
  rw [show Instr.ofLine "IF_A_EQ 1" = .ifAEq 1 by decide +kernel] at hpI
  rw [show Instr.ofLine "HALT" = .halt by decide +kernel] at hpH
  obtain ⟨k, hk⟩ := Nat.exists_eq_add_of_le' hcap
  have hmirror : img.get? 0 (img.width - 1 - 0) = some (Instr.pixel cfg.opmap .halt) := by rw [hw]; exact hpH
  have turn₀ := (coreTurn_cell hpV (c := ⟨m.registers 0, m.shared, none, false, false, none⟩) rfl rfl).trans
    (dispatch_verifyFreq hm _ _ _ (by decide) hmirror)
  have turn₁ := (coreTurn_cell hpI (c := ⟨{ m.registers 0 with a := 0, t := 0 }, m.shared, none, false, false, none⟩)
    rfl rfl).trans (dispatch_ifAEq hm _ _ _ 1)
  rw [if_pos (show (0 : Int) ≠ clamp 1 by decide)] at turn₁
  have turn₂ := @coreTurn_skip cfg img 2
    ⟨{ m.registers 0 with a := 0, t := 1 }, m.shared, none, false, true, none⟩ rfl rfl
  have hend := (loop_lone hh m (x := 0) m.clock (by omega) rfl turn₀ (k + 3)).trans
    ((loop_lone hh m (x := 1) 0 (by omega) rfl turn₁ (k + 2)).trans
    ((loop_lone hh m (x := 2) 1 (by omega) rfl turn₂ (k + 1)).trans (loop_lone_end m 2 _ (by simp [hw]) (k + 1))))
  exact (hrun m).trans (runFrame_lone (by simp [hw]) (hk ▸ hend))

/-- What the three patterns do. Under every complete opcode map, for all integers a
    helper can format and on every machine with a thread, compiled and executed with
    `max_col_steps` at least 4, the length of the longest:
    - compute and store: A and B get the operands, clamped to bytes, OUT their sum, and
      the slot A, not the sum;
    - conditional write: A becomes 1 exactly if what was loaded is the compared value,
      and no slot changes;
    - validation: A is 0 and the HALT is skipped, whatever the state.
    Strict mode raises instead where the clamped index names no slot. The other threads
    keep their registers. -/
theorem patterns_run :
    let ran (program : Program) := executeSingle cfg (compileTo cfg.opmap program outPath files) outPath m
    (∀ a b memIdx program, buildComputeAndStore a b memIdx = some program →
      (¬Refused cfg memIdx → ran program = .done { m with
        registers := update m.registers 0 ⟨clamp a, clamp b, (clamp a + clamp b) % 256, 3⟩
        shared := stored memIdx (clamp a) m.shared
        clock := 3
        nextFrame := none }) ∧
      (Refused cfg memIdx → ∃ m', ran program = .raised (.badAddress .storeMem (clamp memIdx).toNat 3 0) m')) ∧
    (∀ memIdx compareVal program, buildConditionalWrite memIdx compareVal = some program →
      let a := loaded memIdx (m.registers 0).a m.shared
      (¬Refused cfg memIdx → ran program = .done { m with
        registers := update m.registers 0 { m.registers 0 with a := if a = clamp compareVal then 1 else a, t := 3 }
        clock := 3
        nextFrame := none }) ∧
      (Refused cfg memIdx → ∃ m', ran program = .raised (.badAddress .loadMem (clamp memIdx).toNat 0 0) m')) ∧
    ran buildValidationPattern = .done { m with
      registers := update m.registers 0 { m.registers 0 with a := 0, t := 1 }
      clock := 2
      nextFrame := none } :=
  ⟨fun _ _ _ _ h => computeAndStore_runs cfg hm hcap files outPath m h,
    fun _ _ _ h => conditionalWrite_runs cfg hm hcap files outPath m h, validation_runs cfg hm hcap files outPath m⟩

end

/-- 300 is clamped, and what is stored is not 260. -/
theorem patterns_run_clamped : ∃ program m', buildComputeAndStore 300 5 2 = some program ∧
    executeSingle {} (compileTo map program "p.png" fun _ => .missing) "p.png" ({} : Machine 1) = .done m' ∧
      m'.shared 2 = 255 := by
  obtain ⟨hcompute, -, -⟩ := patterns_run {} (by decide +kernel) (by decide) (fun _ => .missing) "p.png" ({} : Machine 1)
  obtain ⟨program, hp⟩ := Option.isSome_iff_exists.mp (by decide +kernel : (buildComputeAndStore 300 5 2).isSome)
  exact ⟨program, _, hp, (hcompute 300 5 2 program hp).1 (by rintro ⟨hs, -⟩; cases hs), by decide⟩

end PyxelVM.Compiler
