/-
  PyxelVM.Vm.Visits — what one run of `_execute_single` did (`zdx_parallel_vm.py`).

  `traceFrame` is `runFrame` with a record: the frame as each column visit found it, and
  every cell executed, with the number of its visit and the frame it was executed on. The
  record of a run is the run (`traceFrame_machine`).

  `Upto t k` says how the flags of a frame come from the record, when in visit `t` the
  threads below `k` have had their turn: who has halted, who is to skip, where the next
  column is, which frame comes next. Every turn keeps it (`Upto.turn`), raising or not.

  - `traceFrame_ends`: how the run ends. A visit that raises has executed, last, the cell
    that strict mode refuses.
-/

import PyxelVM.Lib.Post
import PyxelVM.Vm.Machine

namespace PyxelVM.Vm

open Function (update)
open PyxelVM.Lib

variable {n : Nat}

/-! ## The record -/

/-- An executed cell: in visit `t`, by thread `y`, on the frame `before`. -/
structure Cell (n : Nat) where
  t : Nat
  y : Fin n
  p : Pixel
  before : Frame n

/-- A run so far; `visits` are the frames at the start of each column visit. -/
structure Traced (n : Nat) where
  frame : Frame n
  visits : List (Frame n)
  cells : List (Cell n)

/-- The cell thread `y` executes when its turn comes, if it executes one. -/
def Frame.cell? (img : Raster) (y : Fin n) (f : Frame n) : Option Pixel :=
  if img.height ≤ y ∨ f.halted y ∨ f.skipNext y then none else img.get? y f.x

/-- The cell thread `y` executes at its turn; the visit under way is the last one begun. -/
def Traced.next (img : Raster) (y : Fin n) (s : Traced n) : Option (Cell n) :=
  (s.frame.cell? img y).map fun p => ⟨s.visits.length - 1, y, p, s.frame⟩

theorem Frame.cell?_pixel {img : Raster} {y : Fin n} {f : Frame n} {p : Pixel} (h : f.cell? img y = some p) :
    img.get? y f.x = some p := by
  unfold Frame.cell? at h
  split at h
  · cases h
  · exact h

/-- What is recorded is what is executed. -/
theorem visit_cell (cfg : Config) {img : Raster} {y : Fin n} {f : Frame n} {p : Pixel} (h : f.cell? img y = some p) :
    visit cfg img y f = (dispatch cfg img y f.x p ((f.tick y).core y)).map ((f.tick y).withCore y) := by
  unfold Frame.cell? at h
  split at h
  · cases h
  · rename_i hnot
    rw [visit, if_neg fun e => hnot (or_assoc.mp (.inl e)), if_neg fun e => hnot (.inr (.inr e)), h]

def tracedVisit (cfg : Config) (img : Raster) (y : Fin n) (s : Traced n) : Outcome Raised (Traced n) :=
  (visit cfg img y s.frame).map fun f => { s with frame := f, cells := s.cells ++ (s.next img y).toList }

/-- A column visit begins. -/
def Traced.begin (s : Traced n) : Traced n :=
  { s with frame := { s.frame with clock := s.frame.x, jumpTo := none }, visits := s.visits ++ [s.frame] }

def Traced.advance (s : Traced n) : Traced n := { s with frame := s.frame.advance }

def tracedColumn (cfg : Config) (img : Raster) (s : Traced n) : Outcome Raised (Traced n) :=
  (forEach (tracedVisit cfg img) (List.finRange n) s.begin).bind fun s => .done s.advance

/-- The record of a run that has not begun. -/
def Machine.record (m : Machine n) : Traced n := ⟨m.enter, [], []⟩

def traceLoop (cfg : Config) (img : Raster) (k : Nat) (m : Machine n) : Outcome Raised (Traced n) :=
  repeatWhile (fun s => decide (s.frame.x < img.width)) (tracedColumn cfg img) k m.record

def traceFrame (cfg : Config) (path : String) (img : Raster) (m : Machine n) : Outcome Raised (Traced n) :=
  (traceLoop cfg img cfg.maxColSteps m).bind fun s =>
    if s.frame.x < img.width then .raised (.maxColSteps cfg.maxColSteps path s.frame.x img.width) s else .done s

/-- The machine a run has come to. -/
def Traced.machine (s : Traced n) : Machine n := s.frame.toMachine

theorem traceLoop_frame (cfg : Config) (img : Raster) (k : Nat) (m : Machine n) :
    repeatWhile (fun f => decide (f.x < img.width)) (column cfg img) k m.enter =
      (traceLoop cfg img k m).map Traced.frame := by
  have hlift (o : Outcome Raised (Traced n)) : o.lift id Traced.frame = o.map Traced.frame := by cases o <;> rfl
  rw [traceLoop, ← hlift]
  refine repeatWhile_lift (v := Traced.frame) (s := m.record) (fun _ => rfl) (fun s => ?_) k
  have hvisit (y : Fin n) (s : Traced n) : visit cfg img y s.frame = (tracedVisit cfg img y s).lift id Traced.frame := by
    rw [tracedVisit]
    cases visit cfg img y s.frame <;> rfl
  rw [tracedColumn, column]
  refine Eq.trans (congrArg (Outcome.bind · _) (forEach_lift hvisit (List.finRange n) s.begin)) ?_
  exact Outcome.lift_bind id Traced.frame fun _ => rfl

/-- The record of the run is the run. -/
theorem traceFrame_machine (cfg : Config) (path : String) (img : Raster) (m : Machine n) :
    (traceFrame cfg path img m).map Traced.machine = runFrame cfg path img m := by
  rw [runFrame, traceLoop_frame, traceFrame]
  cases traceLoop cfg img cfg.maxColSteps m with
  | raised e s => rfl
  | done s =>
    simp only [Outcome.bind_done, Outcome.map_done]
    split <;> rfl

/-! ## Executed cells -/

namespace Cell

variable (cfg : Config) (img : Raster) (c : Cell n)

def op : Option Opcode := cfg.opcode c.p.r

/-- A HALT. -/
def Halts : Prop := c.op cfg = some .halt

/-- An IF_A_EQ whose comparison failed. -/
def Fails : Prop := c.op cfg = some .ifAEq ∧ (c.before.registers c.y).a ≠ c.p.b.toNat

/-- A JMP to a column of the frame. -/
def Jumps : Prop := c.op cfg = some .jmp ∧ c.p.g.toNat < img.width

/-- The frame that a SAVE_STATE whose index is registered names. -/
def registered : Option String := if c.op cfg = some .saveState then cfg.frameRegistry.get? c.p.g.toNat else none

instance : Decidable (c.Halts cfg) := inferInstanceAs (Decidable (_ = _))
instance : Decidable (c.Fails cfg) := inferInstanceAs (Decidable (_ ∧ _))
instance : Decidable (c.Jumps cfg img) := inferInstanceAs (Decidable (_ ∧ _))

end Cell

/-- A cell strict mode refuses. -/
def Bad (cfg : Config) (p : Pixel) : Prop :=
  (cfg.opcode p.r = none ∧ p.r.toNat ≠ 0) ∨
    ((cfg.opcode p.r = some .loadMem ∨ cfg.opcode p.r = some .storeMem) ∧ 8 ≤ p.g.toNat)

instance (cfg : Config) (p : Pixel) : Decidable (Bad cfg p) := inferInstanceAs (Decidable (_ ∨ _))

/-- The frame that the last SAVE_STATE to name one names. -/
def lastRegistered (cfg : Config) (cells : List (Cell n)) : Option String := (cells.filterMap (Cell.registered cfg)).getLast?

/-- Where the first JMP of visit `t` goes. -/
def firstJump (cfg : Config) (img : Raster) (cells : List (Cell n)) (t : Nat) : Option Nat :=
  ((cells.find? fun c => decide (c.t = t ∧ c.Jumps cfg img)).map fun c => c.p.g.toNat)

/-! ## What executing a cell does -/

variable {cfg : Config} {img : Raster} {y x : Nat} {p : Pixel} {c : Core}

/-- The flags and the next frame after a cell, raising or not. -/
structure Flags (cfg : Config) (img : Raster) (p : Pixel) (c c' : Core) : Prop where
  halted : c'.halted = (c.halted || decide (cfg.opcode p.r = some .halt))
  skipNext : c'.skipNext = (c.skipNext || decide (cfg.opcode p.r = some .ifAEq ∧ c.regs.a ≠ p.b.toNat))
  jumpTo : c'.jumpTo = c.jumpTo.or (if cfg.opcode p.r = some .jmp ∧ p.g.toNat < img.width then some p.g.toNat else none)
  nextFrame : c'.nextFrame = (if cfg.opcode p.r = some .saveState then cfg.frameRegistry.get? p.g.toNat else none).or c.nextFrame
  regs : cfg.opcode p.r = some .halt → c'.regs = c.regs

theorem Flags.same (h : ∀ op, cfg.opcode p.r = some op → op ≠ .halt ∧ op ≠ .ifAEq ∧ op ≠ .jmp ∧ op ≠ .saveState) {c' : Core}
    (hh : c'.halted = c.halted) (hs : c'.skipNext = c.skipNext) (hj : c'.jumpTo = c.jumpTo) (hn : c'.nextFrame = c.nextFrame) :
    Flags cfg img p c c' := by
  cases hop : cfg.opcode p.r with
  | none => exact ⟨by simp [hh, hop], by simp [hs, hop], by simp [hj, hop], by simp [hn, hop], by simp [hop]⟩
  | some op =>
    obtain ⟨h₁, h₂, h₃, h₄⟩ := h op hop
    exact ⟨by simp [hh, hop, h₁], by simp [hs, hop, h₂], by simp [hj, hop, h₃], by simp [hn, hop, h₄], by simp [hop, h₁]⟩

theorem dispatch_flags (cfg : Config) (img : Raster) (y x : Nat) (p : Pixel) (c : Core) :
    Flags cfg img p c (dispatch cfg img y x p c).state := by
  unfold dispatch
  cases hop : cfg.opcode p.r with
  | none =>
    have hne : ∀ op, cfg.opcode p.r = some op → op ≠ .halt ∧ op ≠ .ifAEq ∧ op ≠ .jmp ∧ op ≠ .saveState := by simp [hop]
    simp only
    repeat' split
    all_goals exact .same hne rfl rfl rfl rfl
  | some op =>
    cases op with
    | halt => exact ⟨by simp [hop, Outcome.state], by simp [hop, Outcome.state], by simp [hop, Outcome.state],
        by simp [hop, Outcome.state], fun _ => rfl⟩
    | saveState =>
      simp only
      cases hr : cfg.frameRegistry.get? p.g.toNat <;>
        exact ⟨by simp [hop, Outcome.state], by simp [hop, Outcome.state], by simp [hop, Outcome.state],
          by simp [hop, hr, Outcome.state], by simp [hop]⟩
    | ifAEq =>
      simp only
      split <;> rename_i ha <;>
        exact ⟨by simp [hop, Outcome.state], by simp [hop, ha, Outcome.state], by simp [hop, Outcome.state],
          by simp [hop, Outcome.state], by simp [hop]⟩
    | jmp =>
      simp only
      cases hj : c.jumpTo with
      | some t => exact ⟨by simp [hop, Outcome.state], by simp [hop, Outcome.state], by simp [hop, hj, Outcome.state],
          by simp [hop, Outcome.state], by simp [hop]⟩
      | none =>
        simp only
        split <;> rename_i hg <;>
          exact ⟨by simp [hop, Outcome.state], by simp [hop, Outcome.state], by simp [hop, hj, hg, Outcome.state],
            by simp [hop, Outcome.state], by simp [hop]⟩
    | _ =>
      have hne : ∀ op', cfg.opcode p.r = some op' → op' ≠ .halt ∧ op' ≠ .ifAEq ∧ op' ≠ .jmp ∧ op' ≠ .saveState := by simp [hop]
      simp only
      repeat' split
      all_goals exact .same hne rfl rfl rfl rfl

theorem bad_unmapped {p : Pixel} (hop : cfg.opcode p.r = none) : Bad cfg p ↔ p.r.toNat ≠ 0 := by simp [Bad, hop]

theorem bad_mapped {p : Pixel} {op : Opcode} (hop : cfg.opcode p.r = some op) :
    Bad cfg p ↔ (op = .loadMem ∨ op = .storeMem) ∧ slot? p.g = none := by simp [Bad, hop, slot?_eq_none]

/-- What a refused cell does. -/
theorem refused_ends {p : Pixel} (h : Bad cfg p) {e : Raised} (he : e.kind = .valueError) (c : Core) :
    (if cfg.strictMode then Outcome.raised e c else .done c).Ends (fun _ => ¬(cfg.strictMode = true ∧ Bad cfg p))
      fun e c' => c' = c ∧ e.kind = .valueError ∧ cfg.strictMode = true ∧ Bad cfg p := by
  split
  · rename_i hs
    exact ⟨rfl, he, hs, h⟩
  · rename_i hs
    exact fun h => hs h.1

/-- A cell inside the frame raises exactly when strict mode refuses it, and leaves all as it was. -/
theorem dispatch_ends (cfg : Config) (hy : y < img.height) (hx : x < img.width) (p : Pixel) (c : Core) :
    (dispatch cfg img y x p c).Ends (fun _ => ¬(cfg.strictMode = true ∧ Bad cfg p))
      fun e c' => c' = c ∧ e.kind = .valueError ∧ cfg.strictMode = true ∧ Bad cfg p := by
  unfold dispatch
  cases hop : cfg.opcode p.r with
  | none =>
    simp only
    split
    · rename_i hr
      exact refused_ends ((bad_unmapped hop).mpr hr) rfl c
    · rename_i hr
      exact fun h => hr ((bad_unmapped hop).mp h.2)
  | some op =>
    have hbad := bad_mapped hop
    cases op with
    | loadMem =>
      simp only
      cases hs : slot? p.g with
      | some s => exact fun h => absurd (hs.symm.trans (hbad.mp h.2).2) (by simp)
      | none => exact refused_ends (hbad.mpr ⟨.inl rfl, hs⟩) rfl c
    | storeMem =>
      simp only
      cases hs : slot? p.g with
      | some s => exact fun h => absurd (hs.symm.trans (hbad.mp h.2).2) (by simp)
      | none => exact refused_ends (hbad.mpr ⟨.inr rfl, hs⟩) rfl c
    | verifyFreq =>
      simp only [get?_inside hy (show img.width - 1 - x < img.width by omega)]
      exact fun h => absurd (hbad.mp h.2).1 (by simp)
    | _ =>
      have hgood : ¬Bad cfg p := fun h => absurd (hbad.mp h).1 (by simp)
      simp only
      repeat' split
      all_goals exact fun h => hgood h.2

/-! ## The record and the flags -/

section

variable (cfg : Config) (img : Raster)

def Executes (cells : List (Cell n)) (t : Nat) (y : Fin n) : Prop := ∃ c ∈ cells, c.y = y ∧ c.t = t

/-- Before visit `t`, thread `y` executed a HALT. -/
def HaltedBefore (cells : List (Cell n)) (t : Nat) (y : Fin n) : Prop := ∃ c ∈ cells, c.y = y ∧ c.t < t ∧ c.Halts cfg

/-- In the visit before `t`, thread `y` executed an IF_A_EQ that failed. -/
def FailedBefore (cells : List (Cell n)) (t : Nat) (y : Fin n) : Prop := ∃ c ∈ cells, c.y = y ∧ c.t + 1 = t ∧ c.Fails cfg

instance (cells : List (Cell n)) (t : Nat) (y : Fin n) : Decidable (Executes cells t y) :=
  inferInstanceAs (Decidable (∃ c ∈ cells, _))

instance (cells : List (Cell n)) (t : Nat) (y : Fin n) : Decidable (HaltedBefore cfg cells t y) :=
  inferInstanceAs (Decidable (∃ c ∈ cells, _))

instance (cells : List (Cell n)) (t : Nat) (y : Fin n) : Decidable (FailedBefore cfg cells t y) :=
  inferInstanceAs (Decidable (∃ c ∈ cells, _))

/-- The turn of thread `y` in visit `t'` is over, when in visit `t` it is thread `k`'s. -/
def Past (t k t' y : Nat) : Prop := t' < t ∨ t' = t ∧ y < k

/-- The registers of the thread as a HALT leaves them. -/
def Cell.left (c : Cell n) : Regs := { c.before.registers c.y with t := c.before.x }

def Traced.frames (s : Traced n) : List (Frame n) := s.visits ++ [s.frame]

/-- The flags and the record of a run from `m`, when in visit `t` it is thread `k`'s turn. -/
structure Upto (m : Machine n) (t k : Nat) (s : Traced n) : Prop where
  first : s.frames[0]? = some m.enter
  past : ∀ c ∈ s.cells, Past t k c.t c.y
  inside : ∀ c ∈ s.cells, c.y < img.height ∧ ∃ f, s.visits[c.t]? = some f ∧ c.before.x = f.x ∧ c.p = img.px c.y f.x
  columns : ∀ f ∈ s.visits, f.x < img.width
  ascending : s.cells.Pairwise fun c d => Past d.t d.y c.t c.y
  executed : ∀ t' (y : Fin n), y < img.height → Past t k t' y →
    (Executes s.cells t' y ↔ ¬HaltedBefore cfg s.cells t' y ∧ ¬FailedBefore cfg s.cells t' y)
  next : ∀ t' < t, ∀ f, s.visits[t']? = some f →
    s.frames[t' + 1]?.map Frame.x = some ((firstJump cfg img s.cells t').getD (f.x + 1))
  halted : ∀ y, s.frame.halted y = true ↔ ∃ c ∈ s.cells, c.y = y ∧ c.Halts cfg
  skipNext : ∀ y : Fin n, s.frame.skipNext y = true ↔ FailedBefore cfg s.cells (if y < k then t + 1 else t) y
  apart : ∀ y, s.frame.halted y = true → s.frame.skipNext y = false
  nextFrame : s.frame.nextFrame = lastRegistered cfg s.cells
  fixed : ∀ c ∈ s.cells, c.Halts cfg → ∀ t' f, c.t < t' → s.frames[t']? = some f → f.registers c.y = c.left

/-- The same within visit `t`. -/
structure Within (m : Machine n) (t k : Nat) (s : Traced n) : Prop extends Upto cfg img m t k s where
  visits : s.visits.length = t + 1
  column : s.visits[t]?.map Frame.x = some s.frame.x
  jumpTo : s.frame.jumpTo = firstJump cfg img s.cells t

end

theorem executes_snoc {cells : List (Cell n)} {c : Cell n} {t : Nat} {y : Fin n} :
    Executes (cells ++ [c]) t y ↔ Executes cells t y ∨ (c.y = y ∧ c.t = t) := by
  simp only [Executes, List.mem_append, List.mem_singleton, or_and_right, exists_or, exists_eq_left]

theorem haltedBefore_snoc {cells : List (Cell n)} {c : Cell n} {t : Nat} {y : Fin n} :
    HaltedBefore cfg (cells ++ [c]) t y ↔ HaltedBefore cfg cells t y ∨ (c.y = y ∧ c.t < t ∧ c.Halts cfg) := by
  simp only [HaltedBefore, List.mem_append, List.mem_singleton, or_and_right, exists_or, exists_eq_left]

theorem failedBefore_snoc {cells : List (Cell n)} {c : Cell n} {t : Nat} {y : Fin n} :
    FailedBefore cfg (cells ++ [c]) t y ↔ FailedBefore cfg cells t y ∨ (c.y = y ∧ c.t + 1 = t ∧ c.Fails cfg) := by
  simp only [FailedBefore, List.mem_append, List.mem_singleton, or_and_right, exists_or, exists_eq_left]

theorem lastRegistered_snoc (cells : List (Cell n)) (c : Cell n) :
    lastRegistered cfg (cells ++ [c]) = (c.registered cfg).or (lastRegistered cfg cells) := by
  rw [lastRegistered, List.filterMap_append, List.getLast?_append]
  cases h : c.registered cfg <;> simp [h, lastRegistered]

theorem firstJump_snoc (cells : List (Cell n)) (c : Cell n) (t : Nat) :
    firstJump cfg img (cells ++ [c]) t =
      (firstJump cfg img cells t).or (if c.t = t ∧ c.Jumps cfg img then some c.p.g.toNat else none) := by
  rw [firstJump, List.find?_append, firstJump]
  cases cells.find? fun c => decide (c.t = t ∧ c.Jumps cfg img) with
  | some d => rfl
  | none =>
    by_cases h : c.t = t ∧ c.Jumps cfg img <;> simp [h]

theorem getElem?_snoc {α : Type} {l : List α} {a b : α} {t : Nat} (h : (l ++ [a])[t]? = some b) :
    l[t]? = some b ∨ (t = l.length ∧ b = a) := by
  rcases Nat.lt_or_ge t l.length with ht | ht
  · exact .inl (by rwa [List.getElem?_append_left ht] at h)
  · rw [List.getElem?_append_right ht, List.getElem?_singleton] at h
    split at h
    · exact .inr ⟨by omega, (Option.some.inj h).symm⟩
    · cases h

/-- The frames of two records of the same visits differ at most at the end. -/
theorem frames_kept {s s' : Traced n} (hv : s'.visits = s.visits) {t : Nat} (ht : t < s.visits.length) :
    s'.frames[t]? = s.frames[t]? := by
  rw [Traced.frames, Traced.frames, hv, List.getElem?_append_left ht, List.getElem?_append_left ht]

theorem frames_cases {s s' : Traced n} (hv : s'.visits = s.visits) {t : Nat} {f : Frame n} (h : s'.frames[t]? = some f) :
    (t < s.visits.length ∧ s.frames[t]? = some f) ∨ (t = s.visits.length ∧ f = s'.frame) := by
  rw [Traced.frames, hv] at h
  refine (getElem?_snoc h).imp_left fun h => ?_
  have hlt := (List.getElem?_eq_some_iff.mp h).1
  exact ⟨hlt, (List.getElem?_append_left hlt).trans h⟩

theorem frames_last (s : Traced n) : s.frames[s.visits.length]? = some s.frame := by simp [Traced.frames]

section

variable {m : Machine n} {t : Nat} {s : Traced n}

theorem upto_start (m : Machine n) : Upto cfg img m 0 0 m.record where
  first := rfl
  past _ hc := nomatch hc
  inside _ hc := nomatch hc
  columns _ hf := nomatch hf
  ascending := .nil
  executed t' y _ hp := by
    rcases hp with h | ⟨-, h⟩
    all_goals cases h
  next t' ht := nomatch ht
  halted y := by simp [Machine.record, Machine.enter]
  skipNext y := by simp [Machine.record, Machine.enter, FailedBefore]
  apart _ _ := rfl
  nextFrame := rfl
  fixed _ hc := nomatch hc

/-- A thread whose turn has not come has its cells in earlier visits. -/
theorem Upto.earlier {k : Nat} (h : Upto cfg img m t k s) {c : Cell n} (hc : c ∈ s.cells) (hk : k ≤ c.y) : c.t < t := by
  rcases h.past c hc with hp | ⟨-, hp⟩
  · exact hp
  · exact absurd hp (Nat.not_lt.mpr hk)

theorem Upto.fixed_now {k : Nat} (h : Upto cfg img m t k s) {c : Cell n} (hc : c ∈ s.cells) (hh : c.Halts cfg)
    (ht : c.t < s.visits.length) : s.frame.registers c.y = c.left :=
  h.fixed c hc hh s.visits.length s.frame ht (frames_last s)

/-- A thread whose turn has not come has failed no IF_A_EQ in this visit. -/
theorem Upto.not_failed {y : Fin n} (h : Upto cfg img m t y s) : ¬FailedBefore cfg s.cells (t + 1) y := by
  intro hx
  obtain ⟨c, hc, hcy, hct, -⟩ := hx
  have := h.earlier hc (hcy ▸ Nat.le_refl _)
  omega

theorem Upto.not_halts {y : Fin n} {k : Nat} (h : Upto cfg img m t k s) (hhalted : s.frame.halted y = false) {c : Cell n}
    (hc : c ∈ s.cells) (hh : c.Halts cfg) : c.y ≠ y := by
  intro e
  have := (h.halted y).mpr ⟨c, hc, e, hh⟩
  rw [hhalted] at this
  cases this

/-- The turn that is over next is thread `y`'s, or was over before. -/
theorem past_succ {y z : Fin n} {t t' : Nat} (h : Past t (y + 1) t' z) : (t' = t ∧ z = y) ∨ Past t y t' z := by
  rcases h with hp | ⟨hp, hlt⟩
  · exact .inr (.inl hp)
  · rcases Nat.lt_succ_iff_lt_or_eq.mp hlt with hlt | he
    · exact .inr (.inr ⟨hp, hlt⟩)
    · exact .inl ⟨hp, Fin.ext he⟩

theorem lt_succ_of_ne {y z : Fin n} (h : z ≠ y) : (z : Nat) < y + 1 ↔ (z : Nat) < y := by
  have hne : (z : Nat) ≠ y := fun e => h (Fin.ext e)
  omega

/-- A visit begins. -/
theorem Upto.begin (h : Upto cfg img m t 0 s) (hlen : s.visits.length = t) (hx : s.frame.x < img.width) :
    Within cfg img m t 0 s.begin := by
  have hold {t' : Nat} (ht : t' ≤ t) : s.begin.frames[t']? = s.frames[t']? := by
    have hb : s.begin.frames = s.frames ++ [s.begin.frame] := rfl
    rw [hb, List.getElem?_append_left (by simp [Traced.frames]; omega)]
  have hnow : ∀ c ∈ s.cells, c.t < t := fun c hc => h.earlier hc (Nat.zero_le _)
  refine ⟨⟨?_, h.past, ?_, ?_, h.ascending, h.executed, ?_, h.halted, h.skipNext, h.apart, h.nextFrame, ?_⟩, ?_, ?_, ?_⟩
  · rw [hold (Nat.zero_le t)]
    exact h.first
  · intro c hc
    obtain ⟨hy, f, hf, hcell⟩ := h.inside c hc
    exact ⟨hy, f, (List.getElem?_append_left (List.getElem?_eq_some_iff.mp hf).1).trans hf, hcell⟩
  · intro f hf
    rcases List.mem_append.mp hf with hf | hf
    · exact h.columns f hf
    · rw [List.mem_singleton.mp hf]
      exact hx
  · intro t' ht f hf
    rw [hold ht]
    exact h.next t' ht f (by rw [← hf]; exact (List.getElem?_append_left (by omega)).symm)
  · intro c hc hh t' f ht hf
    rcases getElem?_snoc (l := s.frames) hf with hf | ⟨-, rfl⟩
    · exact h.fixed c hc hh t' f ht hf
    · exact h.fixed_now hc hh (hlen ▸ hnow c hc)
  · simp [Traced.begin, hlen]
  · simp [Traced.begin, ← hlen]
  · -- no cell of the visit yet
    have hnone : s.cells.find? (fun c => decide (c.t = t ∧ c.Jumps cfg img)) = none := by
      rw [List.find?_eq_none]
      intro c hc
      simp only [decide_eq_true_eq]
      intro he
      obtain ⟨rfl, -⟩ := he
      exact Nat.lt_irrefl _ (hnow c hc)
    show none = firstJump cfg img s.cells t
    rw [firstJump, hnone]
    rfl

/-- The visit is over, and the next column known. -/
theorem Within.advance (h : Within cfg img m t n s) : Upto cfg img m (t + 1) 0 s.advance := by
  have hpast {t' : Nat} (y : Fin n) (hp : Past (t + 1) 0 t' y) : Past t n t' y := by
    rcases hp with hp | ⟨-, hp⟩
    · rcases Nat.lt_succ_iff_lt_or_eq.mp hp with hp | hp
      · exact .inl hp
      · exact .inr ⟨hp, y.isLt⟩
    · cases hp
  have hvisits : s.advance.visits = s.visits := rfl
  refine ⟨?_, ?_, h.inside, h.columns, h.ascending, ?_, ?_, h.halted, ?_, h.apart, h.nextFrame, ?_⟩
  · rw [frames_kept hvisits (by rw [h.visits]; omega)]
    exact h.first
  · intro c hc
    refine .inl ?_
    rcases h.past c hc with hp | ⟨hp, -⟩ <;> omega
  · intro t' y hy hp
    exact h.executed t' y hy (hpast y hp)
  · intro t' ht f hf
    rcases Nat.lt_succ_iff_lt_or_eq.mp ht with ht | rfl
    · rw [frames_kept hvisits (by rw [h.visits]; omega)]
      exact h.next t' ht f hf
    · have hcol : f.x = s.frame.x := by
        have := h.column
        rw [show s.visits[t']? = some f from hf] at this
        exact Option.some.inj this
      have hlast : s.advance.frames[t' + 1]? = some s.advance.frame := by
        rw [← h.visits, ← hvisits, frames_last]
      rw [hlast, hcol]
      show some (s.frame.jumpTo.getD (s.frame.x + 1)) = some ((firstJump cfg img s.cells t').getD (s.frame.x + 1))
      rw [h.jumpTo]
  · intro y
    have hy : ¬(y : Nat) < 0 := Nat.not_lt_zero _
    rw [if_neg hy]
    have := h.skipNext y
    rwa [if_pos y.isLt] at this
  · intro c hc hh t' f ht hf
    rcases frames_cases hvisits hf with ⟨-, hf⟩ | ⟨rfl, rfl⟩
    · exact h.fixed c hc hh t' f ht hf
    · exact h.fixed_now hc hh ht

/-- The turn of a thread that executes nothing; a skip that was pending is spent. -/
theorem Within.skip {y : Fin n} (h : Within cfg img m t y s)
    (hnot : img.height ≤ y ∨ s.frame.halted y = true ∨ s.frame.skipNext y = true) :
    Within cfg img m t (y + 1) { s with frame := { s.frame with skipNext := update s.frame.skipNext y false } } := by
  have hnow : ∀ c ∈ s.cells, c.y = y → c.t < t := fun c hc hcy => h.earlier hc (hcy ▸ Nat.le_refl _)
  refine ⟨⟨?_, ?_, h.inside, h.columns, h.ascending, ?_, ?_, h.halted, ?_, ?_, h.nextFrame, ?_⟩, h.visits, h.column, h.jumpTo⟩
  · exact (frames_kept (by rfl) (by rw [h.visits]; omega)).trans h.first
  · intro c hc
    exact (h.past c hc).imp_right fun hp => ⟨hp.1, Nat.lt_succ_of_lt hp.2⟩
  · intro t' z hz hp
    rcases past_succ hp with ⟨rfl, rfl⟩ | hp
    · have hno : ¬Executes s.cells t' z := by
        intro hx
        obtain ⟨c, hc, hcy, hct⟩ := hx
        exact absurd (hnow c hc hcy) (by omega)
      refine ⟨fun he => absurd he hno, fun ⟨hh, hf⟩ => ?_⟩
      rcases hnot with hnot | hnot | hnot
      · omega
      · obtain ⟨c, hc, hcy, hch⟩ := (h.halted z).mp hnot
        exact absurd ⟨c, hc, hcy, hnow c hc hcy, hch⟩ hh
      · have := (h.skipNext z).mp hnot
        rw [if_neg (Nat.lt_irrefl _)] at this
        exact absurd this hf
    · exact h.executed t' z hz hp
  · intro t' ht f hf
    exact (congrArg _ (frames_kept (by rfl) (by rw [h.visits]; omega))).trans (h.next t' ht f hf)
  · intro z
    by_cases hz : z = y
    · subst hz
      simp only [Function.update_self, Bool.false_eq_true, false_iff, if_pos (Nat.lt_succ_self _)]
      exact h.not_failed
    · simp only [Function.update_of_ne hz, lt_succ_of_ne hz]
      exact h.skipNext z
  · intro z hz
    by_cases hzy : z = y
    · subst hzy
      exact Function.update_self ..
    · exact (Function.update_of_ne hzy ..).trans (h.apart z hz)
  · intro c hc hh t' f ht hf
    rcases frames_cases (s := s) (by rfl) hf with ⟨-, hf⟩ | ⟨rfl, rfl⟩
    · exact h.fixed c hc hh t' f ht hf
    · exact h.fixed_now hc hh ht

/-- Where a thread executes its cell, the record says so of that turn too. -/
theorem Upto.executed_snoc {y : Fin n} (h : Upto cfg img m t y s) (hhalted : s.frame.halted y = false)
    (hskip : s.frame.skipNext y = false) {d : Cell n} (hdt : d.t = t) (hdy : d.y = y) {t' : Nat} {z : Fin n}
    (hz : z < img.height) (hp : Past t (y + 1) t' z) : Executes (s.cells ++ [d]) t' z ↔
      ¬HaltedBefore cfg (s.cells ++ [d]) t' z ∧ ¬FailedBefore cfg (s.cells ++ [d]) t' z := by
  rw [executes_snoc, haltedBefore_snoc, failedBefore_snoc, hdt, hdy]
  rcases past_succ hp with ⟨rfl, rfl⟩ | hp
  · refine ⟨fun _ => ⟨?_, ?_⟩, fun _ => .inr ⟨rfl, rfl⟩⟩
    · intro hx
      rcases hx with ⟨c, hc, hcy, -, hch⟩ | ⟨-, hlt, -⟩
      · exact h.not_halts hhalted hc hch hcy
      · exact Nat.lt_irrefl _ hlt
    · intro hx
      rcases hx with hf | ⟨-, hlt, -⟩
      · have := (h.skipNext z).mpr (by rwa [if_neg (Nat.lt_irrefl _)])
        rw [hskip] at this
        cases this
      · omega
  · -- a turn that was over before is not of the new cell
    have hle : t' ≤ t := by rcases hp with hp | ⟨hp, -⟩ <;> omega
    have hnot : ¬(y = z ∧ t = t') := by
      intro hx
      obtain ⟨rfl, rfl⟩ := hx
      rcases hp with hp | ⟨-, hp⟩ <;> exact Nat.lt_irrefl _ hp
    have hlt : ¬(y = z ∧ t < t' ∧ d.Halts cfg) := fun e => by omega
    have hsucc : ¬(y = z ∧ t + 1 = t' ∧ d.Fails cfg) := fun e => by omega
    simp only [hnot, hlt, hsucc, or_false]
    exact h.executed t' z hz hp

section

variable {y : Fin n} {c' : Core} (hflags : Flags cfg img (img.px y s.frame.x) ((s.frame.tick y).core y) c')
include hflags

theorem Upto.halted_snoc {k : Nat} (h : Upto cfg img m t k s) (hhalted : s.frame.halted y = false) (z : Fin n) :
    ((s.frame.tick y).withCore y c').halted z = true ↔
      ∃ c ∈ s.cells ++ [⟨t, y, img.px y s.frame.x, s.frame⟩], c.y = z ∧ c.Halts cfg := by
  simp only [List.mem_append, List.mem_singleton, or_and_right, exists_or, exists_eq_left, ← h.halted z]
  by_cases hz : z = y
  · subst hz
    simp only [Frame.withCore, Function.update_self, hflags.halted, true_and]
    show (s.frame.halted z || decide _) = true ↔ _ ∨ cfg.opcode (img.px z s.frame.x).r = some .halt
    simp [hhalted]
  · simp only [Frame.withCore, Function.update_of_ne hz, Ne.symm hz, false_and, or_false]
    exact Iff.rfl

theorem Upto.skipNext_snoc (h : Upto cfg img m t y s) (hskip : s.frame.skipNext y = false) (z : Fin n) :
    ((s.frame.tick y).withCore y c').skipNext z = true ↔
      FailedBefore cfg (s.cells ++ [⟨t, y, img.px y s.frame.x, s.frame⟩]) (if (z : Nat) < y + 1 then t + 1 else t) z := by
  rw [failedBefore_snoc]
  by_cases hz : z = y
  · subst hz
    simp only [Frame.withCore, Function.update_self, hflags.skipNext, if_pos (Nat.lt_succ_self _), h.not_failed, false_or,
      true_and, Cell.Fails, Cell.op]
    show (s.frame.skipNext z || _) = true ↔ _
    rw [hskip, Bool.false_or, decide_eq_true_iff]
    simp [Frame.tick, Frame.core]
  · simp only [Frame.withCore, Function.update_of_ne hz, Ne.symm hz, false_and, or_false, lt_succ_of_ne hz]
    exact h.skipNext z

/-- One opcode either halts or skips. -/
theorem Upto.apart_snoc {k : Nat} (h : Upto cfg img m t k s) (hhalted : s.frame.halted y = false)
    (hskip : s.frame.skipNext y = false) {z : Fin n} (hzh : ((s.frame.tick y).withCore y c').halted z = true) :
    ((s.frame.tick y).withCore y c').skipNext z = false := by
  by_cases hz : z = y
  · subst hz
    simp only [Frame.withCore, Function.update_self, hflags.halted, hflags.skipNext] at hzh ⊢
    have hopcode : cfg.opcode (img.px z s.frame.x).r = some .halt := by
      have : (s.frame.halted z || decide (cfg.opcode (img.px z s.frame.x).r = some .halt)) = true := hzh
      simpa [hhalted] using this
    show (s.frame.skipNext z || _) = false
    simp [hskip, hopcode]
  · simp only [Frame.withCore, Function.update_of_ne hz] at hzh ⊢
    exact h.apart z hzh

/-- A halted thread's registers are not the thread's that executes, or are as its HALT leaves them. -/
theorem Upto.left_snoc {k : Nat} (h : Upto cfg img m t k s) (hhalted : s.frame.halted y = false)
    {c : Cell n} (hc : c ∈ s.cells ++ [⟨t, y, img.px y s.frame.x, s.frame⟩]) (hh : c.Halts cfg) (ht : c.t < s.visits.length) :
    ((s.frame.tick y).withCore y c').registers c.y = c.left := by
  rcases List.mem_append.mp hc with hc | hc
  · have hreg : ((s.frame.tick y).withCore y c').registers c.y = s.frame.registers c.y := by
      simp [Frame.withCore, Frame.tick, h.not_halts hhalted hc hh]
    exact hreg.trans (h.fixed_now hc hh ht)
  · rw [List.mem_singleton.mp hc] at hh ⊢
    have hreg : ((s.frame.tick y).withCore y c').registers y = c'.regs := by simp [Frame.withCore]
    rw [hreg, hflags.regs hh]
    simp [Cell.left, Frame.tick, Frame.core]

end

/-- The turn of a thread that executes its cell, whether it raises or not. -/
theorem Within.exec {y : Fin n} (h : Within cfg img m t y s) (hy : y < img.height) (hhalted : s.frame.halted y = false)
    (hskip : s.frame.skipNext y = false) {c' : Core}
    (hflags : Flags cfg img (img.px y s.frame.x) ((s.frame.tick y).core y) c') :
    Within cfg img m t (y + 1) { s with
      frame := (s.frame.tick y).withCore y c'
      cells := s.cells ++ [⟨t, y, img.px y s.frame.x, s.frame⟩] } := by
  refine ⟨⟨?_, ?_, ?_, h.columns, ?_, ?_, ?_, h.halted_snoc hflags hhalted, h.skipNext_snoc hflags hskip, ?_, ?_, ?_⟩,
    h.visits, h.column, ?_⟩
  · exact (frames_kept (by rfl) (by rw [h.visits]; omega)).trans h.first
  · intro c hc
    rcases List.mem_append.mp hc with hc | hc
    · exact (h.past c hc).imp_right fun hp => ⟨hp.1, Nat.lt_succ_of_lt hp.2⟩
    · rw [List.mem_singleton.mp hc]
      exact .inr ⟨rfl, Nat.lt_succ_self _⟩
  · intro c hc
    rcases List.mem_append.mp hc with hc | hc
    · exact h.inside c hc
    · obtain ⟨f, hf, hfx⟩ := Option.map_eq_some_iff.mp h.column
      rw [List.mem_singleton.mp hc]
      exact ⟨hy, f, hf, hfx.symm, congrArg (img.px y) hfx.symm⟩
  · refine List.pairwise_append.mpr ⟨h.ascending, List.pairwise_singleton .., ?_⟩
    intro c hc e he
    rw [List.mem_singleton.mp he]
    exact h.past c hc
  · intro t' z hz hp
    exact h.executed_snoc hhalted hskip rfl rfl hz hp
  · intro t' ht f hf
    refine (congrArg (Option.map Frame.x) (frames_kept (s := s) (by rfl) (by rw [h.visits]; omega))).trans ?_
    have hne : t ≠ t' := by omega
    rw [firstJump_snoc, if_neg (not_and_of_not_left _ hne), Option.or_none]
    exact h.next t' ht f hf
  · intro z hzh
    exact h.apart_snoc hflags hhalted hskip hzh
  · rw [lastRegistered_snoc, ← h.nextFrame]
    exact hflags.nextFrame
  · intro c hc hh t' f ht hf
    rcases frames_cases (s := s) (by rfl) hf with ⟨hlt, hf⟩ | ⟨rfl, rfl⟩
    · rcases List.mem_append.mp hc with hc | hc
      · exact h.fixed c hc hh t' f ht hf
      · rw [List.mem_singleton.mp hc] at ht
        rw [h.visits] at hlt
        exact absurd ht (Nat.not_lt.mpr (Nat.le_of_lt_succ hlt))
    · exact h.left_snoc hflags hhalted hc hh ht
  · rw [firstJump_snoc, ← h.jumpTo, if_congr (and_iff_right rfl) rfl rfl]
    exact hflags.jumpTo

theorem Within.x_lt {k : Nat} (h : Within cfg img m t k s) : s.frame.x < img.width := by
  obtain ⟨f, hf, hfx⟩ := Option.map_eq_some_iff.mp h.column
  exact hfx ▸ h.columns f (List.mem_of_getElem? hf)

end

/-! ## The run -/

theorem withCore_core (f : Frame n) (y : Fin n) : f.withCore y (f.core y) = f := by
  simp [Frame.withCore, Frame.core, Function.update_eq_self]

/-- The run has been stopped by strict mode at the cell it executed last. -/
structure Refused (cfg : Config) (img : Raster) (m : Machine n) (e : Raised) (s : Traced n) (c : Cell n) : Prop where
  within : Within cfg img m c.t (c.y + 1) s
  last : s.cells.getLast? = some c
  strict : cfg.strictMode = true
  bad : Bad cfg c.p
  kind : e.kind = .valueError
  frame : s.frame = c.before.tick c.y

/-- A run between two visits, or after its last one. -/
def Between (cfg : Config) (img : Raster) (m : Machine n) (s : Traced n) : Prop := Upto cfg img m s.visits.length 0 s

section

variable {m : Machine n} {t : Nat} {s : Traced n}

theorem Within.turn {y : Fin n} (h : Within cfg img m t y s) :
    (tracedVisit cfg img y s).Ends (Within cfg img m t (y + 1)) fun e s => ∃ c, Refused cfg img m e s c := by
  have hx := h.x_lt
  by_cases hnot : img.height ≤ y ∨ s.frame.halted y = true ∨ s.frame.skipNext y = true
  · -- the turn is that of a spent skip, also where there is none
    have hcell : s.next img y = none := by
      rw [Traced.next, Frame.cell?, if_pos hnot]
      rfl
    have hvisit : visit cfg img y s.frame = .done { s.frame with skipNext := update s.frame.skipNext y false } := by
      unfold visit
      split
      · rename_i hidle
        have hskip : s.frame.skipNext y = false := by
          rcases hidle with hy | hh
          · refine Bool.eq_false_iff.mpr fun hs => ?_
            obtain ⟨c, hc, rfl, -⟩ := (h.skipNext y).mp hs
            exact absurd (h.inside c hc).1 (Nat.not_lt.mpr hy)
          · exact h.apart y hh
        rw [← hskip, Function.update_eq_self]
      · rename_i hidle
        rcases hnot with hy | hh | hs
        · exact absurd (.inl hy) hidle
        · exact absurd (.inr hh) hidle
        · rw [if_pos hs]
    rw [tracedVisit, hvisit, hcell]
    simpa [Outcome.Ends] using h.skip hnot
  · obtain ⟨hy, hh, hs⟩ : y < img.height ∧ s.frame.halted y = false ∧ s.frame.skipNext y = false := by simpa using hnot
    have hget := get?_inside hy hx
    have hcell? : s.frame.cell? img y = some (img.px y s.frame.x) := by rw [Frame.cell?, if_neg hnot, hget]
    have hcell : s.next img y = some ⟨t, y, img.px y s.frame.x, s.frame⟩ := by
      rw [Traced.next, hcell?, h.visits]
      rfl
    have hexec := h.exec hy hh hs (dispatch_flags cfg img y s.frame.x (img.px y s.frame.x) ((s.frame.tick y).core y))
    have hends := dispatch_ends cfg hy hx (img.px y s.frame.x) ((s.frame.tick y).core y)
    rw [tracedVisit, visit_cell cfg hcell?, hcell]
    cases hd : dispatch cfg img y s.frame.x (img.px y s.frame.x) ((s.frame.tick y).core y) with
    | done c =>
      rw [hd] at hexec
      exact hexec
    | raised e c =>
      rw [hd] at hexec hends
      obtain ⟨rfl, hkind, hstrict, hbad⟩ := hends
      exact ⟨⟨t, y, img.px y s.frame.x, s.frame⟩, hexec, by simp [Option.toList], hstrict, hbad, hkind, withCore_core _ y⟩

theorem Between.column (h : Between cfg img m s) (hx : s.frame.x < img.width) :
    (tracedColumn cfg img s).Ends (fun s' => Between cfg img m s' ∧ s'.visits.length = s.visits.length + 1)
      fun e s => ∃ c, Refused cfg img m e s c := by
  have hloop := forEach_ends (List.finRange n) (f := tracedVisit cfg img) (I := fun k s' => Within cfg img m s.visits.length k s')
    (Q := fun e s => ∃ c, Refused cfg img m e s c) (fun j y hj s' hs' => by
      have hjy : (y : Nat) = j := by
        obtain ⟨hlt, rfl⟩ := List.getElem?_eq_some_iff.mp hj
        simp
      subst hjy
      exact hs'.turn) (Upto.begin h rfl hx)
  refine hloop.bind fun s' hs' => ?_
  rw [List.length_finRange] at hs'
  have hlen : s'.advance.visits.length = s.visits.length + 1 := hs'.visits
  exact ⟨by rw [Between, hlen]; exact hs'.advance, hlen⟩

/-- How the loop ends, after `k` turns at most. -/
theorem traceLoop_ends (cfg : Config) (img : Raster) (k : Nat) (m : Machine n) :
    (traceLoop cfg img k m).Ends
      (fun s => Between cfg img m s ∧ s.visits.length ≤ k ∧ (s.frame.x < img.width → s.visits.length = k))
      fun e s => ∃ c, Refused cfg img m e s c := by
  have hloop := repeatWhile_ends (c := fun s : Traced n => decide (s.frame.x < img.width)) (f := tracedColumn cfg img) k
    (I := fun i s => Between cfg img m s ∧ s.visits.length = i) (Q := fun e s => ∃ c, Refused cfg img m e s c)
    (fun i _ s hs hc => by
      obtain ⟨hb, rfl⟩ := hs
      exact hb.column (by simpa using hc)) (s := m.record) ⟨upto_start m, rfl⟩
  refine hloop.imp ?_ fun _ _ h => h
  intro s he
  obtain ⟨i, hi, ⟨hb, rfl⟩, hend⟩ := he
  exact ⟨hb, hi, fun hx => hend (by simpa using hx)⟩

/-- How a run ends: past the last column, at the step cap, or refused. -/
theorem traceFrame_ends (cfg : Config) (path : String) (img : Raster) (m : Machine n) :
    (traceFrame cfg path img m).Ends
      (fun s => Between cfg img m s ∧ s.visits.length ≤ cfg.maxColSteps ∧ img.width ≤ s.frame.x)
      fun e s => (∃ c, Refused cfg img m e s c) ∨ (e = .maxColSteps cfg.maxColSteps path s.frame.x img.width ∧
        Between cfg img m s ∧ s.visits.length = cfg.maxColSteps ∧ s.frame.x < img.width) := by
  refine ((traceLoop_ends cfg img cfg.maxColSteps m).imp (fun _ h => h) fun _ _ h => .inl h).bind ?_
  intro s he
  obtain ⟨hb, hle, hend⟩ := he
  split
  · rename_i hx
    exact .inr ⟨rfl, hb, hend hx, hx⟩
  · rename_i hx
    exact ⟨hb, hle, Nat.not_lt.mp hx⟩

end

end PyxelVM.Vm
