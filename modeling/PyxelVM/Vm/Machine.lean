/-
  PyxelVM.Vm.Machine — `ParallelPyxelVM` (`zdx_parallel_vm.py`).

  A frame is a raster of RGB cells; thread `y` runs row `y`. `visit` is one turn of the
  inner loop (a thread at a column), `column` one turn of the outer loop, `runFrame`
  the loop up to the step cap, `executeSingle` that on a file, `executeTexture` the
  daisy chain. A run ends in an `Outcome`: what it raised, if it did, and the machine
  as it left it either way.

  `dispatch` works on a `Core`: the registers and flags of one thread, and what the
  threads share. Registers and slots are Python integers. `self.next_frame` and the
  local `next_frame` are reset and set together, so that there is one. Reading a pixel
  outside the raster raises, as NumPy does. What the VM prints is left out.
-/

import Mathlib.Data.List.FinRange
import Mathlib.Logic.Function.Basic
import PyxelVM.Lib.Dict
import PyxelVM.Lib.Exec

namespace PyxelVM.Vm

open Function (update)
open PyxelVM.Lib

/-! ## Opcodes -/

inductive Opcode where
  | setReg
  | setB
  | not
  | addThread
  | sub
  | mul
  | div
  | ifAEq
  | cmp
  | loadMem
  | storeMem
  | verifyFreq
  | saveState
  | jmp
  | copyOut
  | halt
  deriving DecidableEq, Repr

def Opcode.all : List Opcode :=
  [.setReg, .setB, .not, .addThread, .sub, .mul, .div, .ifAEq, .cmp, .loadMem, .storeMem, .verifyFreq, .saveState, .jmp,
    .copyOut, .halt]

def Opcode.name : Opcode → String
  | .setReg => "SET_REG"
  | .setB => "SET_B"
  | .not => "NOT"
  | .addThread => "ADD_THREAD"
  | .sub => "SUB"
  | .mul => "MUL"
  | .div => "DIV"
  | .ifAEq => "IF_A_EQ"
  | .cmp => "CMP"
  | .loadMem => "LOAD_MEM"
  | .storeMem => "STORE_MEM"
  | .verifyFreq => "VERIFY_FREQ"
  | .saveState => "SAVE_STATE"
  | .jmp => "JMP"
  | .copyOut => "COPY_OUT"
  | .halt => "HALT"

/-- The opcode whose branch of the dispatch takes the name. -/
def Opcode.ofName? (name : String) : Option Opcode := Opcode.all.find? fun op => op.name == name

/-- Names to channel values; the R channel is the dispatch key. -/
abbrev OpMap := Dict String (Int × Int × Int)

/-- `MAP`. -/
def map : OpMap := Dict.ofList
  [("SET_REG", (10, 0, 0)), ("SET_B", (11, 0, 0)), ("NOT", (12, 0, 0)), ("ADD_THREAD", (20, 0, 0)), ("SUB", (21, 0, 0)),
    ("MUL", (22, 0, 0)), ("DIV", (23, 0, 0)), ("IF_A_EQ", (30, 0, 0)), ("CMP", (31, 0, 0)), ("LOAD_MEM", (40, 0, 0)),
    ("STORE_MEM", (41, 0, 0)), ("VERIFY_FREQ", (50, 0, 0)), ("SAVE_STATE", (60, 0, 0)), ("JMP", (70, 0, 0)),
    ("COPY_OUT", (24, 0, 0)), ("HALT", (255, 0, 0))]

/-- `_rev_opmap`: of two names with one R, the later one. -/
def OpMap.rev (m : OpMap) : Dict Int String := Dict.ofList (m.entries.map fun e => (e.2.1, e.1))

/-! ## Rasters -/

structure Pixel where
  r : UInt8
  g : UInt8
  b : UInt8
  deriving DecidableEq, Repr

def Pixel.nop : Pixel := ⟨0, 0, 0⟩

/-- A decoded RGB image; `px y x` counts only inside. -/
structure Raster where
  width : Nat
  height : Nat
  px : Nat → Nat → Pixel

/-- `arr[y, x]`. -/
def Raster.get? (img : Raster) (y x : Nat) : Option Pixel := if y < img.height ∧ x < img.width then some (img.px y x) else none

theorem get?_inside {img : Raster} {y x : Nat} (hy : y < img.height) (hx : x < img.width) :
    img.get? y x = some (img.px y x) := if_pos ⟨hy, hx⟩

theorem get?_eq_some {img : Raster} {y x : Nat} {p : Pixel} :
    img.get? y x = some p ↔ (y < img.height ∧ x < img.width) ∧ img.px y x = p := by
  unfold Raster.get?
  split <;> simp [*]

/-- The image made of row `y` alone. -/
def Raster.row (img : Raster) (y : Nat) : Raster := ⟨img.width, 1, fun _ x => img.px y x⟩

/-! ## State -/

structure Regs where
  a : Int := 0
  b : Int := 0
  out : Int := 0
  t : Int := 0
  deriving DecidableEq, Repr

structure Config where
  strictMode : Bool := false
  persistShared : Bool := false
  opmap : OpMap := map
  frameRegistry : Dict Int String := Dict.ofList [(0, "whisperframe_B.png")]
  maxChain : Nat := 100
  maxColSteps : Nat := 4096
  maxChain_pos : 1 ≤ maxChain := by decide
  maxColSteps_pos : 1 ≤ maxColSteps := by decide

/-- The arguments the constructor accepts: the thread count, and the rest. -/
def Config.create (threads maxChain maxColSteps : Int) (strictMode persistShared : Bool) (opmap : OpMap) :
    Except String (Nat × Config) :=
  if threads < 1 then .error s!"ParallelPyxelVM: threads must be >= 1, got {threads}"
  else if hc : maxChain < 1 then .error s!"ParallelPyxelVM: max_chain must be >= 1, got {maxChain}"
  else if hs : maxColSteps < 1 then .error s!"ParallelPyxelVM: max_col_steps must be >= 1, got {maxColSteps}"
  else .ok (threads.toNat,
    { strictMode, persistShared, opmap
      maxChain := maxChain.toNat
      maxColSteps := maxColSteps.toNat
      maxChain_pos := by omega
      maxColSteps_pos := by omega })

/-- The opcode a cell's R stands for. -/
def Config.opcode (cfg : Config) (r : UInt8) : Option Opcode := (cfg.opmap.rev.get? r.toNat).bind Opcode.ofName?

/-- What survives a frame; `savedShared` is what `_save_shared` wrote last. -/
structure Machine (n : Nat) where
  registers : Fin n → Regs := fun _ => {}
  shared : Fin 8 → Int := fun _ => 0
  clock : Nat := 0
  nextFrame : Option String := none
  savedShared : Option (Fin 8 → Int) := none

/-- A machine inside a frame, at column `x`. -/
structure Frame (n : Nat) extends Machine n where
  halted : Fin n → Bool
  skipNext : Fin n → Bool
  jumpTo : Option Nat
  x : Nat

/-- What the execution of a cell works on. -/
structure Core where
  regs : Regs
  shared : Fin 8 → Int
  nextFrame : Option String
  halted : Bool
  skipNext : Bool
  jumpTo : Option Nat

variable {n : Nat}

def Frame.core (f : Frame n) (y : Fin n) : Core :=
  ⟨f.registers y, f.shared, f.nextFrame, f.halted y, f.skipNext y, f.jumpTo⟩

def Frame.withCore (f : Frame n) (y : Fin n) (c : Core) : Frame n :=
  { f with
    registers := update f.registers y c.regs
    shared := c.shared
    nextFrame := c.nextFrame
    halted := update f.halted y c.halted
    skipNext := update f.skipNext y c.skipNext
    jumpTo := c.jumpTo }

/-- `thread["T"] = x`. -/
def Frame.tick (f : Frame n) (y : Fin n) : Frame n :=
  { f with registers := update f.registers y { f.registers y with t := f.x } }

/-- The next column: where the first JMP goes, or one further. -/
def Frame.advance (f : Frame n) : Frame n := { f with x := f.jumpTo.getD (f.x + 1) }

/-! ## Exceptions -/

inductive ExceptionKind where
  | fileNotFoundError
  | unidentifiedImageError
  | valueError
  | indexError
  | runtimeError
  deriving DecidableEq, Repr

inductive Raised where
  | noFile (path : String)
  | noImage (path : String)
  | index (y x : Nat)
  | badAddress (op : Opcode) (g x y : Nat)
  | unknownOpcode (r g b x y : Nat)
  | maxColSteps (cap : Nat) (path : String) (x width : Nat)
  | chainedFile (path : String)
  | maxChain (cap : Nat) (path : String)
  | frameSize (size layout : Nat × Nat)
  deriving DecidableEq, Repr

def Raised.kind : Raised → ExceptionKind
  | .noFile _ => .fileNotFoundError
  | .noImage _ => .unidentifiedImageError
  | .index _ _ => .indexError
  | .badAddress _ _ _ _ => .valueError
  | .unknownOpcode _ _ _ _ _ => .valueError
  | .maxColSteps _ _ _ _ => .runtimeError
  | .chainedFile _ => .fileNotFoundError
  | .maxChain _ _ => .runtimeError
  | .frameSize _ _ => .valueError

/-- The text, where it is the repository's. -/
def Raised.message : Raised → Option String
  | .noFile _ | .noImage _ | .index _ _ => none
  | .badAddress op g x y =>
    let name := op.name
    some s!"{name} invalid address M{g} at x={x} T{y}"
  | .unknownOpcode r g b x y => some s!"Unknown opcode R={r} G={g} B={b} at x={x} T{y}"
  | .maxColSteps cap path x width =>
    some (s!"max_col_steps ({cap}) reached in frame '{path}' at column {x}/{width}. " ++
      "Likely a JMP loop with no exit; raise max_col_steps on the VM constructor if this is intentional.")
  | .chainedFile path =>
    some s!"SAVE_STATE chained to '{path}' but the file does not exist. Check frame_registry entries."
  | .maxChain cap path =>
    some (s!"max_chain ({cap}) reached while following SAVE_STATE daisy-chain. Last frame: '{path}'. " ++
      "Raise max_chain on the VM constructor if this is intentional.")
  | .frameSize size layout =>
    let shown := s!"({size.1}, {size.2})"
    some s!"frame size {shown} does not match spatial layout {layout.1}x{layout.2}"

/-! ## One frame -/

def slot? (g : UInt8) : Option (Fin 8) := if h : g.toNat < 8 then some ⟨g.toNat, h⟩ else none

theorem slot?_eq_none {g : UInt8} : slot? g = none ↔ 8 ≤ g.toNat := by
  unfold slot?
  split <;> simp_all

theorem slot?_eq_some {g : UInt8} {s : Fin 8} (h : slot? g = some s) : g.toNat = s := by
  unfold slot? at h
  split at h
  · cases h
    rfl
  · cases h

/-- The body of the opcode dispatch, for thread `y` at column `x` whose cell is `p`. -/
def dispatch (cfg : Config) (img : Raster) (y x : Nat) (p : Pixel) (c : Core) : Outcome Raised Core :=
  let a := c.regs.a
  let b := c.regs.b
  let setA (v : Int) : Outcome Raised Core := .done { c with regs := { c.regs with a := v } }
  let setOut (v : Int) : Outcome Raised Core := .done { c with regs := { c.regs with out := v } }
  let badAddress (op : Opcode) : Outcome Raised Core :=
    if cfg.strictMode then .raised (.badAddress op p.g.toNat x y) c else .done c
  match cfg.opcode p.r with
  | some .halt => .done { c with halted := true }
  | some .saveState =>
    match cfg.frameRegistry.get? p.g.toNat with
    | some path => .done { c with nextFrame := some path }
    | none => .done c
  | some .verifyFreq =>
    match img.get? y (img.width - 1 - x) with
    | none => .raised (.index y (img.width - 1 - x)) c
    | some mirror => setA (if p = mirror then 1 else 0)
  | some .setReg => setA p.b.toNat
  | some .setB => .done { c with regs := { c.regs with b := p.b.toNat } }
  | some .addThread => setOut ((a + b) % 256)
  | some .ifAEq => if a ≠ p.b.toNat then .done { c with skipNext := true } else .done c
  | some .loadMem =>
    match slot? p.g with
    | some s => setA (c.shared s)
    | none => badAddress .loadMem
  | some .storeMem =>
    match slot? p.g with
    | some s => .done { c with shared := update c.shared s a }
    | none => badAddress .storeMem
  -- `(~a) & 0xFF` of a Python integer is `-a - 1` modulo 256
  | some .not => setA ((-a - 1) % 256)
  | some .sub => setA ((a - b) % 256)
  | some .mul => setA ((a * b) % 256)
  | some .div => setA (if b ≠ 0 then a.fdiv b else 0)
  | some .cmp => setOut (if a = b then 1 else 0)
  | some .copyOut => setA c.regs.out
  | some .jmp =>
    match c.jumpTo with
    | some _ => .done c
    | none => if p.g.toNat < img.width then .done { c with jumpTo := some p.g.toNat } else .done c
  | none =>
    if p.r.toNat ≠ 0 then
      if cfg.strictMode then .raised (.unknownOpcode p.r.toNat p.g.toNat p.b.toNat x y) c else .done c
    else .done c

/-- Thread `y` at the current column. -/
def visit (cfg : Config) (img : Raster) (y : Fin n) (f : Frame n) : Outcome Raised (Frame n) :=
  if img.height ≤ y ∨ f.halted y then .done f
  else if f.skipNext y then .done { f with skipNext := update f.skipNext y false }
  else
    match img.get? y f.x with
    | none => .raised (.index y f.x) (f.tick y)
    | some p => (dispatch cfg img y f.x p ((f.tick y).core y)).map ((f.tick y).withCore y)

/-- All threads at the current column, and the next column. -/
def column (cfg : Config) (img : Raster) (f : Frame n) : Outcome Raised (Frame n) :=
  (forEach (visit cfg img) (List.finRange n) { f with clock := f.x, jumpTo := none }).bind fun f =>
    .done f.advance

/-- The frame before its first column. -/
def Machine.enter (m : Machine n) : Frame n :=
  { m with nextFrame := none, halted := fun _ => false, skipNext := fun _ => false, jumpTo := none, x := 0 }

/-- `_execute_single` once the image is open. The loop has made `max_col_steps` turns
    and still has a column exactly when it stopped below the width. -/
def runFrame (cfg : Config) (path : String) (img : Raster) (m : Machine n) : Outcome Raised (Machine n) :=
  ((repeatWhile (fun f => decide (f.x < img.width)) (column cfg img) cfg.maxColSteps m.enter).bind fun f =>
    if f.x < img.width then .raised (.maxColSteps cfg.maxColSteps path f.x img.width) f else .done f).map Frame.toMachine

/-! ## Chains of frames -/

/-- What there is at a path. -/
inductive File where
  | missing
  | notImage
  | image (img : Raster)

/-- `_execute_single`; the frame it returns is the machine's `nextFrame`. -/
def executeSingle (cfg : Config) (files : String → File) (path : String) (m : Machine n) : Outcome Raised (Machine n) :=
  match files path with
  | .missing => .raised (.noFile path) m
  | .notImage => .raised (.noImage path) m
  | .image img => runFrame cfg path img m

/-- The loop of `execute_texture`, with `k` frames to go. -/
def follow (cfg : Config) (files : String → File) : Nat → String → Machine n → Outcome Raised (Machine n)
  | 0, current, m => .raised (.maxChain cfg.maxChain current) m
  | k + 1, current, m =>
    (executeSingle cfg files current m).bind fun m =>
      match m.nextFrame with
      | none => .done m
      | some next =>
        match files next with
        | .missing => .raised (.chainedFile next) m
        | _ => follow cfg files k next m

def executeTexture (cfg : Config) (files : String → File) (path : String) (m : Machine n) : Outcome Raised (Machine n) :=
  (follow cfg files cfg.maxChain path m).bind fun m =>
    .done (if cfg.persistShared then { m with savedShared := some m.shared } else m)

end PyxelVM.Vm
