/-
  PyxelVM.Vm.Bytes — registers and slots that are bytes stay bytes.

  Registers and slots are Python integers; every operation masks its result, copies a
  byte, or divides one: `dispatch_bytes`, under any opcode map. `Machine.Bytes.core` and
  `Machine.Bytes.withCore` go from the machine to a thread's turn and back.
-/

import PyxelVM.Vm.Machine

namespace PyxelVM.Vm

open PyxelVM.Lib

def IsByte (v : Int) : Prop := 0 ≤ v ∧ v ≤ 255

instance (v : Int) : Decidable (IsByte v) := inferInstanceAs (Decidable (_ ∧ _))

structure Core.Bytes (c : Core) : Prop where
  a : IsByte c.regs.a
  b : IsByte c.regs.b
  out : IsByte c.regs.out
  shared : ∀ s, IsByte (c.shared s)

structure Machine.Bytes {n : Nat} (m : Machine n) : Prop where
  registers : ∀ y, IsByte (m.registers y).a ∧ IsByte (m.registers y).b ∧ IsByte (m.registers y).out
  shared : ∀ s, IsByte (m.shared s)

theorem isByte_mod (v : Int) : IsByte (v % 256) := by unfold IsByte; omega

theorem isByte_toNat (v : UInt8) : IsByte v.toNat := by
  have := v.toNat_lt
  unfold IsByte
  omega

theorem isByte_bit (p : Prop) [Decidable p] : IsByte (if p then 1 else 0) := by
  split <;> decide

/-- Python's floor division of bytes. -/
theorem isByte_fdiv {a b : Int} (ha : IsByte a) (hb : IsByte b) : IsByte (if b ≠ 0 then a.fdiv b else 0) := by
  obtain ⟨ha0, ha1⟩ := ha
  split
  · rw [Int.fdiv_eq_ediv_of_nonneg a hb.1]
    exact ⟨Int.ediv_nonneg ha0 hb.1, (Int.ediv_le_self b ha0).trans ha1⟩
  · decide

namespace Core.Bytes

variable {c : Core} {v : Int}

theorem setA (h : c.Bytes) (hv : IsByte v) : Core.Bytes { c with regs := { c.regs with a := v } } := ⟨hv, h.b, h.out, h.shared⟩

theorem setB (h : c.Bytes) (hv : IsByte v) : Core.Bytes { c with regs := { c.regs with b := v } } := ⟨h.a, hv, h.out, h.shared⟩

theorem setOut (h : c.Bytes) (hv : IsByte v) : Core.Bytes { c with regs := { c.regs with out := v } } :=
  ⟨h.a, h.b, hv, h.shared⟩

theorem store (h : c.Bytes) (s : Fin 8) (hv : IsByte v) : Core.Bytes { c with shared := Function.update c.shared s v } := by
  refine ⟨h.a, h.b, h.out, ?_⟩
  intro t
  simp only [Function.update_apply]
  split
  · exact hv
  · exact h.shared t

theorem sameValues (h : c.Bytes) {d : Core} (hr : d.regs = c.regs) (hs : d.shared = c.shared) : d.Bytes :=
  ⟨hr ▸ h.a, hr ▸ h.b, hr ▸ h.out, hs ▸ h.shared⟩

end Core.Bytes

variable {n : Nat}

theorem dispatch_bytes (cfg : Config) (img : Raster) (y x : Nat) (p : Pixel) {c : Core} (h : c.Bytes) :
    (dispatch cfg img y x p c).state.Bytes := by
  unfold dispatch
  cases ho : cfg.opcode p.r with
  | none =>
    simp only
    repeat' split
    all_goals exact h
  | some op =>
    cases op with
    | setReg => exact h.setA (isByte_toNat _)
    | setB => exact h.setB (isByte_toNat _)
    | not => exact h.setA (isByte_mod _)
    | addThread => exact h.setOut (isByte_mod _)
    | sub => exact h.setA (isByte_mod _)
    | mul => exact h.setA (isByte_mod _)
    | div => exact h.setA (isByte_fdiv h.a h.b)
    | ifAEq =>
      simp only
      split
      · exact h.sameValues rfl rfl
      · exact h
    | cmp => exact h.setOut (isByte_bit _)
    | loadMem =>
      simp only
      repeat' split
      · exact h.setA (h.shared _)
      all_goals exact h
    | storeMem =>
      simp only
      repeat' split
      · exact h.store _ h.a
      all_goals exact h
    | verifyFreq =>
      simp only
      split
      · exact h
      · exact h.setA (isByte_bit _)
    | saveState =>
      simp only
      split
      · exact h.sameValues rfl rfl
      · exact h
    | jmp =>
      simp only
      repeat' split
      · exact h
      · exact h.sameValues rfl rfl
      · exact h
    | copyOut => exact h.setA h.out
    | halt => exact h.sameValues rfl rfl

theorem Machine.Bytes.core {f : Frame n} (h : f.toMachine.Bytes) (y : Fin n) : ((f.tick y).core y).Bytes := by
  obtain ⟨ha, hb, ho⟩ := h.registers y
  refine ⟨?_, ?_, ?_, h.shared⟩ <;> simpa [Frame.core, Frame.tick]

theorem Machine.Bytes.withCore {f : Frame n} (h : f.toMachine.Bytes) (y : Fin n) {c : Core} (hc : c.Bytes) :
    ((f.tick y).withCore y c).toMachine.Bytes := by
  refine ⟨?_, hc.shared⟩
  intro z
  by_cases hz : z = y
  · subst hz; simpa [Frame.withCore] using ⟨hc.a, hc.b, hc.out⟩
  · simpa [Frame.withCore, Frame.tick, hz] using h.registers z

end PyxelVM.Vm
