/-
  PyxelVM.Vm.Dicts — the registers and slots as `ParallelPyxelVM` keeps them
  (`zdx_parallel_vm.py`).

  `self.registers` is a dict of threads by name, each a dict of its four registers;
  `self.shared` is a dict of slots by name. A name that is missing raises a KeyError,
  but for LOAD_MEM and STORE_MEM, which ask first. This is the interpreter of
  `Vm.Machine` once more, with these dicts, and each function is shown to be the other
  one seen through `Machine.view`: so no KeyError is ever raised, and no name added
  (`executeTexture_view`).

  `_save_shared` writes the slots as JSON text, with a blank after `,` and `:`.
-/

import PyxelVM.Lib.JsonRoundTrip
import PyxelVM.Vm.Machine

namespace PyxelVM.Vm

open PyxelVM.Lib

/-! ## Names -/

/-- `f"M{g}"`. -/
def memKey (g : Nat) : String := s!"M{g}"

/-- `f"T{y}"`. -/
def threadKey (y : Nat) : String := s!"T{y}"

theorem toString_injective : Function.Injective (toString : Nat → String) := by
  intro a b h
  have hd : Nat.toDigits 10 a = Nat.toDigits 10 b := by
    have := congrArg String.toList h
    simpa using this
  rw [← Nat.ofDigitChars_ten_toDigits (n := a), hd, Nat.ofDigitChars_ten_toDigits]

theorem memKey_injective : Function.Injective memKey := by
  intro a b h
  apply toString_injective
  simpa [memKey] using h

theorem threadKey_injective : Function.Injective threadKey := by
  intro a b h
  apply toString_injective
  simpa [threadKey] using h

/-! ## State -/

/-- The file's text: `json.dump(self.shared, f)`. -/
def slotsText : List (String × Int) → List Char
  | [] => []
  | [(k, v)] => Json.stringText true k ++ ':' :: ' ' :: Json.intText v
  | (k, v) :: ms => Json.stringText true k ++ ':' :: ' ' :: (Json.intText v ++ ',' :: ' ' :: slotsText ms)

def sharedText (shared : Dict String Int) : List UInt8 := utf8 (String.ofList ('{' :: (slotsText shared.entries ++ ['}'])))

/-- `saved` is what `_save_shared` wrote last. -/
structure DictMachine (n : Nat) where
  registers : Dict String (Dict String Int)
  shared : Dict String Int
  clock : Nat
  nextFrame : Option String
  saved : Option (List UInt8)

structure DictFrame (n : Nat) extends DictMachine n where
  halted : Fin n → Bool
  skipNext : Fin n → Bool
  jumpTo : Option Nat
  x : Nat

structure DictCore where
  thread : Dict String Int
  shared : Dict String Int
  nextFrame : Option String
  halted : Bool
  skipNext : Bool
  jumpTo : Option Nat

/-- A KeyError, or what the interpreter raises. -/
inductive DictRaised where
  | key (name : String)
  | vm (e : Raised)
  deriving DecidableEq, Repr

variable {n : Nat}

/-- `self.registers[f"T{y}"]` has changed in place. -/
def DictFrame.withThread (f : DictFrame n) (y : Fin n) (thread : Dict String Int) : DictFrame n :=
  { f with registers := f.registers.set (threadKey y) thread }

def DictFrame.core (f : DictFrame n) (y : Fin n) (thread : Dict String Int) : DictCore :=
  ⟨thread, f.shared, f.nextFrame, f.halted y, f.skipNext y, f.jumpTo⟩

def DictFrame.withCore (f : DictFrame n) (y : Fin n) (c : DictCore) : DictFrame n :=
  { f with
    registers := f.registers.set (threadKey y) c.thread
    shared := c.shared
    nextFrame := c.nextFrame
    halted := Function.update f.halted y c.halted
    skipNext := Function.update f.skipNext y c.skipNext
    jumpTo := c.jumpTo }

/-! ## Execution -/

namespace DictCore

/-- `thread[name]`. -/
def get (c : DictCore) (name : String) (k : Int → Outcome DictRaised DictCore) : Outcome DictRaised DictCore :=
  match c.thread.get? name with
  | some v => k v
  | none => .raised (.key name) c

/-- `thread[name] = v`. -/
def set (c : DictCore) (name : String) (v : Int) : Outcome DictRaised DictCore := .done { c with thread := c.thread.set name v }

end DictCore

def dictDispatch (cfg : Config) (img : Raster) (y x : Nat) (p : Pixel) (c : DictCore) : Outcome DictRaised DictCore :=
  let badAddress (op : Opcode) : Outcome DictRaised DictCore :=
    if cfg.strictMode then .raised (.vm (.badAddress op p.g.toNat x y)) c else .done c
  let key := memKey p.g.toNat
  match cfg.opcode p.r with
  | some .halt => .done { c with halted := true }
  | some .saveState =>
    match cfg.frameRegistry.get? p.g.toNat with
    | some path => .done { c with nextFrame := some path }
    | none => .done c
  | some .verifyFreq =>
    match img.get? y (img.width - 1 - x) with
    | none => .raised (.vm (.index y (img.width - 1 - x))) c
    | some mirror => c.set "A" (if p = mirror then 1 else 0)
  | some .setReg => c.set "A" p.b.toNat
  | some .setB => c.set "B" p.b.toNat
  | some .addThread => c.get "A" fun a => c.get "B" fun b => c.set "OUT" ((a + b) % 256)
  | some .ifAEq => c.get "A" fun a => if a ≠ p.b.toNat then .done { c with skipNext := true } else .done c
  | some .loadMem =>
    match c.shared.get? key with
    | some v => c.set "A" v
    | none => badAddress .loadMem
  | some .storeMem =>
    if c.shared.has key then c.get "A" fun a => .done { c with shared := c.shared.set key a } else badAddress .storeMem
  | some .not => c.get "A" fun a => c.set "A" ((-a - 1) % 256)
  | some .sub => c.get "A" fun a => c.get "B" fun b => c.set "A" ((a - b) % 256)
  | some .mul => c.get "A" fun a => c.get "B" fun b => c.set "A" ((a * b) % 256)
  | some .div => c.get "B" fun b => if b ≠ 0 then c.get "A" fun a => c.set "A" (a.fdiv b) else c.set "A" 0
  | some .cmp => c.get "A" fun a => c.get "B" fun b => c.set "OUT" (if a = b then 1 else 0)
  | some .copyOut => c.get "OUT" fun out => c.set "A" out
  | some .jmp =>
    match c.jumpTo with
    | some _ => .done c
    | none => if p.g.toNat < img.width then .done { c with jumpTo := some p.g.toNat } else .done c
  | none =>
    if p.r.toNat ≠ 0 then
      if cfg.strictMode then .raised (.vm (.unknownOpcode p.r.toNat p.g.toNat p.b.toNat x y)) c else .done c
    else .done c

def dictVisit (cfg : Config) (img : Raster) (y : Fin n) (f : DictFrame n) : Outcome DictRaised (DictFrame n) :=
  if img.height ≤ y ∨ f.halted y then .done f
  else if f.skipNext y then .done { f with skipNext := Function.update f.skipNext y false }
  else
    match f.registers.get? (threadKey y) with
    | none => .raised (.key (threadKey y)) f
    | some thread =>
      let thread := thread.set "T" f.x
      match img.get? y f.x with
      | none => .raised (.vm (.index y f.x)) (f.withThread y thread)
      | some p => (dictDispatch cfg img y f.x p (f.core y thread)).map ((f.withThread y thread).withCore y)

def dictColumn (cfg : Config) (img : Raster) (f : DictFrame n) : Outcome DictRaised (DictFrame n) :=
  (forEach (dictVisit cfg img) (List.finRange n) { f with clock := f.x, jumpTo := none }).bind fun f =>
    .done { f with x := f.jumpTo.getD (f.x + 1) }

def DictMachine.enter (m : DictMachine n) : DictFrame n :=
  { m with nextFrame := none, halted := fun _ => false, skipNext := fun _ => false, jumpTo := none, x := 0 }

def dictRunFrame (cfg : Config) (path : String) (img : Raster) (m : DictMachine n) : Outcome DictRaised (DictMachine n) :=
  ((repeatWhile (fun f => decide (f.x < img.width)) (dictColumn cfg img) cfg.maxColSteps m.enter).bind fun f =>
    if f.x < img.width then .raised (.vm (.maxColSteps cfg.maxColSteps path f.x img.width)) f else .done f).map
    DictFrame.toDictMachine

def dictExecuteSingle (cfg : Config) (files : String → File) (path : String) (m : DictMachine n) :
    Outcome DictRaised (DictMachine n) :=
  match files path with
  | .missing => .raised (.vm (.noFile path)) m
  | .notImage => .raised (.vm (.noImage path)) m
  | .image img => dictRunFrame cfg path img m

def dictFollow (cfg : Config) (files : String → File) : Nat → String → DictMachine n → Outcome DictRaised (DictMachine n)
  | 0, current, m => .raised (.vm (.maxChain cfg.maxChain current)) m
  | k + 1, current, m =>
    (dictExecuteSingle cfg files current m).bind fun m =>
      match m.nextFrame with
      | none => .done m
      | some next =>
        match files next with
        | .missing => .raised (.vm (.chainedFile next)) m
        | _ => dictFollow cfg files k next m

def dictExecuteTexture (cfg : Config) (files : String → File) (path : String) (m : DictMachine n) :
    Outcome DictRaised (DictMachine n) :=
  (dictFollow cfg files cfg.maxChain path m).bind fun m =>
    .done (if cfg.persistShared then { m with saved := some (sharedText m.shared) } else m)

/-! ## The other interpreter, seen -/

/-- `{"A": a, "B": b, "OUT": out, "T": t}`. -/
def Regs.view (r : Regs) : Dict String Int where
  entries := [("A", r.a), ("B", r.b), ("OUT", r.out), ("T", r.t)]
  nodup := by
    show (["A", "B", "OUT", "T"] : List String).Nodup
    decide

theorem memKeys_nodup : ((List.finRange 8).map fun s : Fin 8 => memKey s).Nodup :=
  (List.nodup_finRange 8).map fun _ _ h => Fin.ext (memKey_injective h)

theorem threadKeys_nodup (n : Nat) : ((List.finRange n).map fun y : Fin n => threadKey y).Nodup :=
  (List.nodup_finRange n).map fun _ _ h => Fin.ext (threadKey_injective h)

def sharedView (shared : Fin 8 → Int) : Dict String Int := .tabulate (List.finRange 8) (fun s => memKey s) memKeys_nodup shared

def registersView (registers : Fin n → Regs) : Dict String (Dict String Int) :=
  .tabulate (List.finRange n) (fun y => threadKey y) (threadKeys_nodup n) fun y => (registers y).view

def Core.view (c : Core) : DictCore := ⟨c.regs.view, sharedView c.shared, c.nextFrame, c.halted, c.skipNext, c.jumpTo⟩

def Machine.view (m : Machine n) : DictMachine n :=
  ⟨registersView m.registers, sharedView m.shared, m.clock, m.nextFrame, m.savedShared.map fun s => sharedText (sharedView s)⟩

def Frame.view (f : Frame n) : DictFrame n :=
  { f.toMachine.view with halted := f.halted, skipNext := f.skipNext, jumpTo := f.jumpTo, x := f.x }

variable {cfg : Config} {img : Raster} {y x : Nat} {p : Pixel}

@[simp] theorem view_setA (r : Regs) (v : Int) : r.view.set "A" v = Regs.view { r with a := v } := rfl
@[simp] theorem view_setB (r : Regs) (v : Int) : r.view.set "B" v = Regs.view { r with b := v } := rfl
@[simp] theorem view_setOut (r : Regs) (v : Int) : r.view.set "OUT" v = Regs.view { r with out := v } := rfl
@[simp] theorem view_setT (r : Regs) (v : Int) : r.view.set "T" v = Regs.view { r with t := v } := rfl

section

variable (c : Core) (k : Int → Outcome DictRaised DictCore)

@[simp] theorem view_getA : c.view.get "A" k = k c.regs.a := rfl
@[simp] theorem view_getB : c.view.get "B" k = k c.regs.b := rfl
@[simp] theorem view_getOut : c.view.get "OUT" k = k c.regs.out := rfl

end

theorem sharedView_get (shared : Fin 8 → Int) (g : UInt8) :
    (sharedView shared).get? (memKey g.toNat) = (slot? g).map shared := by
  unfold slot?
  split
  · rename_i h
    exact Dict.get?_tabulate (i := (⟨g.toNat, h⟩ : Fin 8)) (List.mem_finRange _)
  · rename_i h
    apply Dict.get?_tabulate_none
    intro hm
    obtain ⟨s, -, e⟩ := List.mem_map.mp hm
    have hs := s.isLt
    have hg := memKey_injective e
    omega

theorem sharedView_has (shared : Fin 8 → Int) (g : UInt8) : (sharedView shared).has (memKey g.toNat) = (slot? g).isSome := by
  rw [Dict.has, sharedView_get, Option.isSome_map]

theorem slot_get (shared : Fin 8 → Int) (i : Fin 8) : (sharedView shared).get? (memKey i) = some (shared i) :=
  Dict.get?_tabulate (i := i) (List.mem_finRange i)

theorem slot_has (shared : Fin 8 → Int) (i : Fin 8) : (sharedView shared).has (memKey i) = true :=
  Dict.has_iff.mpr ⟨_, slot_get shared i⟩

theorem sharedView_slot (shared : Fin 8 → Int) (s : Fin 8) (v : Int) :
    (sharedView shared).set (memKey s) v = sharedView (Function.update shared s v) := by
  rw [sharedView, Dict.set_tabulate (List.mem_finRange s)]
  congr 1
  funext t
  simp only [Function.update_apply]

theorem sharedView_set {shared : Fin 8 → Int} {g : UInt8} {s : Fin 8} (h : slot? g = some s) (v : Int) :
    (sharedView shared).set (memKey g.toNat) v = sharedView (Function.update shared s v) := by
  rw [slot?_eq_some h, sharedView_slot]

theorem registersView_get (registers : Fin n → Regs) (y : Fin n) :
    (registersView registers).get? (threadKey y) = some (registers y).view := by
  show (registersView registers).get? ((fun y : Fin n => threadKey y) y) = _
  exact Dict.get?_tabulate (List.mem_finRange y)

theorem registersView_set (registers : Fin n → Regs) (y : Fin n) (r : Regs) :
    (registersView registers).set (threadKey y) r.view = registersView (Function.update registers y r) := by
  rw [registersView, Dict.set_tabulate (List.mem_finRange y)]
  congr 1
  funext z
  simp only [Function.update_apply]
  split <;> rfl

theorem dispatch_view (c : Core) : dictDispatch cfg img y x p c.view = (dispatch cfg img y x p c).lift .vm Core.view := by
  unfold dictDispatch dispatch
  cases cfg.opcode p.r with
  | none =>
    simp only
    repeat' split
    all_goals rfl
  | some op =>
    cases op with
    | loadMem =>
      simp only [Core.view, sharedView_get]
      cases slot? p.g with
      | some s => rfl
      | none =>
        simp only [Option.map_none]
        split <;> rfl
    | storeMem =>
      have hhas : c.view.shared.has (memKey p.g.toNat) = (slot? p.g).isSome := sharedView_has c.shared p.g
      simp only [hhas]
      cases hs : slot? p.g with
      | some s =>
        have hset : c.view.shared.set (memKey p.g.toNat) c.regs.a = _ := sharedView_set hs c.regs.a
        simp only [Option.isSome_some, if_true, view_getA, hset]
        rfl
      | none =>
        simp only [Option.isSome_none, Bool.false_eq_true, if_false]
        split <;> rfl
    | saveState =>
      simp only
      cases cfg.frameRegistry.get? p.g.toNat <;> rfl
    | verifyFreq =>
      simp only
      cases img.get? y (img.width - 1 - x) <;> rfl
    | ifAEq =>
      simp only [view_getA]
      split <;> rfl
    | div =>
      simp only [view_getA, view_getB]
      split <;> rfl
    | jmp =>
      show (match c.jumpTo with | some _ => _ | none => _) = _
      cases c.jumpTo with
      | some j => rfl
      | none =>
        simp only
        split <;> rfl
    | _ => rfl

theorem withCore_view (f : Frame n) (y : Fin n) (c : Core) : (f.withCore y c).view = f.view.withCore y c.view := by
  simp only [Frame.view, Machine.view, Frame.withCore, DictFrame.withCore, Core.view, registersView_set]

theorem tick_view (f : Frame n) (y : Fin n) :
    f.view.withThread y ((f.registers y).view.set "T" f.x) = (f.tick y).view := by
  simp only [view_setT, Frame.view, Machine.view, DictFrame.withThread, Frame.tick, registersView_set]

theorem core_view (f : Frame n) (y : Fin n) :
    f.view.core y ((f.registers y).view.set "T" f.x) = ((f.tick y).core y).view := by
  simp [Core.view, Frame.core, Frame.tick, DictFrame.core, Frame.view, Machine.view]

theorem lift_withCore {f : Frame n} {y : Fin n} (o : Outcome Raised Core) :
    (o.lift DictRaised.vm Core.view).map (f.view.withCore y) = (o.map (f.withCore y)).lift .vm Frame.view := by
  cases o with
  | done c => exact congrArg Outcome.done (withCore_view f y c).symm
  | raised e c => exact congrArg (Outcome.raised _) (withCore_view f y c).symm

theorem visit_view (y : Fin n) (f : Frame n) : dictVisit cfg img y f.view = (visit cfg img y f).lift .vm Frame.view := by
  have hget : f.view.registers.get? (threadKey y) = some (f.registers y).view := registersView_get f.registers y
  have hhalted : f.view.halted = f.halted := rfl
  have hskip : f.view.skipNext = f.skipNext := rfl
  have hx : f.view.x = f.x := rfl
  unfold dictVisit visit
  simp only [hhalted, hskip, hx, hget, tick_view, core_view, dispatch_view]
  split
  · rfl
  split
  · rfl
  · cases img.get? y f.x with
    | none => rfl
    | some p => exact lift_withCore _

theorem column_view (f : Frame n) : dictColumn cfg img f.view = (column cfg img f).lift .vm Frame.view := by
  have hstart : { f.view with clock := f.view.x, jumpTo := none } = Frame.view { f with clock := f.x, jumpTo := none } := rfl
  rw [dictColumn, column, hstart, forEach_lift visit_view]
  exact Outcome.lift_bind DictRaised.vm Frame.view fun f => rfl

theorem lift_toMachine (o : Outcome Raised (Frame n)) :
    (o.lift DictRaised.vm Frame.view).map DictFrame.toDictMachine = (o.map Frame.toMachine).lift .vm Machine.view := by
  cases o <;> rfl

theorem runFrame_view (path : String) (m : Machine n) :
    dictRunFrame cfg path img m.view = (runFrame cfg path img m).lift .vm Machine.view := by
  have henter : m.view.enter = m.enter.view := rfl
  rw [dictRunFrame, runFrame, henter, repeatWhile_lift (fun _ => rfl) column_view, Outcome.lift_bind DictRaised.vm Frame.view]
  · exact lift_toMachine _
  · intro f
    show (if f.x < img.width then _ else _) = _
    split <;> rfl

theorem executeSingle_view (files : String → File) (path : String) (m : Machine n) :
    dictExecuteSingle cfg files path m.view = (executeSingle cfg files path m).lift .vm Machine.view := by
  unfold dictExecuteSingle executeSingle
  cases files path with
  | missing => rfl
  | notImage => rfl
  | image img => exact runFrame_view path m

theorem follow_view (files : String → File) (k : Nat) (path : String) (m : Machine n) :
    dictFollow cfg files k path m.view = (follow cfg files k path m).lift .vm Machine.view := by
  induction k generalizing path m with
  | zero => rfl
  | succ k ih =>
    rw [dictFollow, follow, executeSingle_view]
    apply Outcome.lift_bind DictRaised.vm Machine.view
    intro m
    have hnext : m.view.nextFrame = m.nextFrame := rfl
    simp only [hnext]
    cases m.nextFrame with
    | none => rfl
    | some next =>
      simp only
      cases files next with
      | missing => rfl
      | notImage => exact ih next m
      | image img => exact ih next m

/-- The machine over dicts does what the other one does, and raises no KeyError. -/
theorem executeTexture_view (files : String → File) (path : String) (m : Machine n) :
    dictExecuteTexture cfg files path m.view = (executeTexture cfg files path m).lift .vm Machine.view := by
  rw [dictExecuteTexture, executeTexture, follow_view]
  apply Outcome.lift_bind DictRaised.vm Machine.view
  intro m
  split <;> rfl

end PyxelVM.Vm
