/-
  PyxelVM.Spatial.Embedding — a program in a spatial frame has the result it has alone.

  `SpatialCompiler` puts the rows that `SimpleCompiler` would save as an image of their
  own into the executable rows of a larger one, with its payloads below. Where these
  leave the executable rows alone, the image is `Padded` with NOPs to the frame
  (`compiled_padded`), so that the two run to the same result:
  `embedding_keeps_result`, for programs without VERIFY_FREQ whose JMPs go to columns of
  their own.
-/

import Mathlib.Data.List.MinMax
import PyxelVM.Compiler.Correct
import PyxelVM.Spatial.Payloads
import PyxelVM.Vm.Padding

namespace PyxelVM.Spatial

open PyxelVM.Lib
open PyxelVM.Vm
open PyxelVM.Compiler (Program Unambiguous Complete columns cell? opOf instrSpecs expand expandOne parseOne pixelOf compileTo
  toNat_ofNat_clamp)

/-! ## What the program's cells hold -/

variable {m : OpMap} {program : Program} {cfg cfg' : Config}

/-- An instruction is a NOP, or its mnemonic's opcode with operands. -/
theorem parseOne_cases (m : OpMap) (line : String) :
    parseOne m line = (0, 0, 0) ∨ ∃ spec v g b, instrSpecs.lookup (opOf line) = some spec ∧
      m.get? spec.opcode.name = some v ∧ parseOne m line = (v.1, g, b) := by
  unfold parseOne opOf
  cases words line with
  | nil => exact .inl rfl
  | cons op args =>
    simp only [List.head?_cons, Option.map_some, Option.getD_some]
    cases hs : instrSpecs.lookup (upper op) with
    | none => exact .inl rfl
    | some spec =>
      simp only
      cases hv : m.get? spec.opcode.name with
      | none => exact .inl rfl
      | some v =>
        simp only
        cases spec.g.build args with
        | none => exact .inl rfl
        | some g =>
          cases spec.b.build args with
          | none => exact .inl rfl
          | some b => exact .inr ⟨spec, v, _, _, rfl, hv, rfl⟩

theorem opcode_line (hm : Unambiguous cfg.opmap) {line : String} (hin : SpatialFrame.InChannels (parseOne cfg.opmap line))
    {op : Opcode} (h : cfg.opcode (pixelOf (parseOne cfg.opmap line)).r = some op) :
    ∃ spec, (opOf line, spec) ∈ instrSpecs ∧ spec.opcode = op := by
  rcases parseOne_cases cfg.opmap line with hnop | ⟨spec, v, g, b, hs, hv, he⟩
  · rw [hnop] at h
    exact absurd h (by rw [show (pixelOf (0, 0, 0)).r = Pixel.nop.r from rfl, hm.opcode_nop]; exact nofun)
  · rw [he] at h hin
    have hr : cfg.opcode (pixelOf (v.1, g, b)).r = some spec.opcode := hm.opcode_red hv (toNat_ofNat_clamp hin.1)
    rw [hr] at h
    exact ⟨spec, Dict.mem_of_lookup hs, Option.some.inj h⟩

/-- COPY_OUT, VERIFY_FREQ and JMP are the mnemonics of their own opcodes only. -/
theorem instrSpecs_names : ∀ e ∈ instrSpecs, (e.1 = "COPY_OUT" → e.2.opcode = .copyOut) ∧
    (e.2.opcode = .verifyFreq → e.1 = "VERIFY_FREQ") ∧ (e.2.opcode = .jmp → e.1 = "JMP") := by decide

/-- The lines of the program whose mnemonic has the opcode: COPY_OUT has two. -/
theorem opcode_cell (hm : Unambiguous cfg.opmap)
    (hin : ∀ row ∈ expand program, ∀ instr ∈ row, SpatialFrame.InChannels (parseOne cfg.opmap instr)) {y x : Nat} {op : Opcode}
    (h : cfg.opcode (programPixel cfg.opmap program y x).r = some op) (hop : op ≠ .copyOut) :
    ∃ row ∈ program, ∃ line ∈ row, (∃ spec, (opOf line, spec) ∈ instrSpecs ∧ spec.opcode = op) ∧
      programPixel cfg.opmap program y x = pixelOf (parseOne cfg.opmap line) := by
  unfold programPixel at h ⊢
  cases hc : cell? (expand program) y x with
  | none =>
    rw [hc] at h
    exact absurd h (by rw [show (Option.map _ none).getD Pixel.nop = .nop from rfl, hm.opcode_nop]; exact nofun)
  | some instr =>
    rw [hc] at h
    obtain ⟨row', hrow', hinstr⟩ := Option.bind_eq_some_iff.mp hc
    have hinstr := List.mem_of_getElem? hinstr
    have hrow' := List.mem_of_getElem? hrow'
    obtain ⟨spec, hs, hspec⟩ := opcode_line hm (hin row' hrow' instr hinstr) h
    obtain ⟨row, hrow, rfl⟩ := List.mem_map.mp hrow'
    obtain ⟨line, hline, hmem⟩ := List.mem_flatMap.mp hinstr
    rw [Compiler.expandOne_eq, List.mem_singleton] at hmem
    split at hmem
    -- an OUT_TO_A has been replaced by a COPY_OUT
    · subst hmem
      have hcopy : opOf "COPY_OUT" = "COPY_OUT" := by decide +kernel
      exact absurd (hspec.symm.trans ((instrSpecs_names _ hs).1 hcopy)) hop
    · subst hmem
      exact ⟨row, hrow, instr, hline, ⟨spec, hs, hspec⟩, rfl⟩

theorem cell?_eq_none {α : Type} {rows : List (List α)} {y x : Nat} (h : rows.length ≤ y ∨ columns rows ≤ x) :
    cell? rows y x = none := by
  unfold cell?
  cases hr : rows[y]? with
  | none => rfl
  | some row =>
    have hy : y < rows.length := (List.getElem?_eq_some_iff.mp hr).1
    have hrow : row.length ≤ columns rows :=
      List.le_max_of_le' 0 (List.mem_map_of_mem (List.mem_of_getElem? hr)) (Nat.le_refl _)
    exact List.getElem?_eq_none (by omega)

/-! ## The frame -/

section

variable {layout : SpatialLayout} {payloads : Dict String Payload} {f : SpatialFrame layout}

theorem pixel_eq {p q : Pixel} (h : ∀ c : Fin 3, channel p c = channel q c) : p = q := by
  obtain ⟨r, g, b⟩ := p
  obtain ⟨r', g', b'⟩ := q
  obtain rfl : r = r' := h 0
  obtain rfl : g = g' := h 1
  obtain rfl : b = b' := h 2
  rfl

/-- Undisturbed, the executable cells are the program's. -/
theorem executable_cell (hf : SpatialCompiler.compile m layout program payloads = .ok f)
    (hu : Undisturbed m program payloads layout) {y x : Nat} (hy : y < layout.executionRows) (hx : x < layout.width) :
    f.image.px y x = programPixel m program y x := by
  obtain ⟨-, -, -, hbytes, -⟩ := SpatialCompiler.compile_ok hf
  exact pixel_eq fun c => (byteOf_program_iff hbytes ⟨y, x, c⟩).mpr (hu.cells ⟨y, x, c⟩ hx hy)

/-- What `SimpleCompiler` saves, with NOPs around it, is what `SpatialCompiler` does. -/
theorem compiled_padded (hm : Unambiguous cfg.opmap)
    (hf : SpatialCompiler.compile cfg.opmap layout program payloads = .ok f)
    (hu : Undisturbed cfg.opmap program payloads layout) (hne : columns program ≠ 0)
    (hverify : ∀ row ∈ program, ∀ line ∈ row, opOf line ≠ "VERIFY_FREQ")
    (hjump : ∀ row ∈ program, ∀ line ∈ row, opOf line = "JMP" →
      (pixelOf (parseOne cfg.opmap line)).g.toNat < columns program) :
    ∃ img, Compiler.compile cfg.opmap program = some img ∧ Padded cfg layout.executionRows img f.image := by
  obtain ⟨hrows, hcols, hin, -, -⟩ := SpatialCompiler.compile_ok hf
  have hcell := fun y hy x hx => executable_cell (y := y) (x := x) hf hu hy hx
  have hlen : program.length ≠ 0 := by
    intro hz
    rw [List.length_eq_zero_iff] at hz
    exact hne (by rw [hz]; rfl)
  rw [Compiler.length_expand] at hrows
  rw [Compiler.columns_expand] at hcols
  refine ⟨⟨columns program, program.length, programPixel cfg.opmap program⟩, ?_, ?_, ?_, ?_, ?_, hm.opcode_nop, ?_, ?_⟩
  · simp only [Compiler.compile, Compiler.length_expand, Compiler.columns_expand]
    rw [if_neg (by omega)]
    rfl
  · rw [f.size.1]
    exact hcols
  · rw [f.size.2]
    exact hrows.trans layout.rows_le
  · intro y hy x hx
    exact hcell y (Nat.lt_of_lt_of_le hy hrows) x (Nat.lt_of_lt_of_le hx hcols)
  · intro y hy x hx hout
    rw [f.size.1] at hx
    rw [hcell y hy x hx, programPixel, cell?_eq_none (by rwa [Compiler.length_expand, Compiler.columns_expand])]
    rfl
  · intro y hy x hx ho
    obtain ⟨row, hrow, line, hline, ⟨spec, hs, hspec⟩, -⟩ := opcode_cell hm hin ho (by decide)
    exact hverify row hrow line hline ((instrSpecs_names _ hs).2.1 hspec)
  · intro y hy x hx ho
    obtain ⟨row, hrow, line, hline, ⟨spec, hs, hspec⟩, he⟩ := opcode_cell hm hin ho (by decide)
    show (programPixel cfg.opmap program y x).g.toNat < columns program
    rw [he]
    exact hjump row hrow line hline ((instrSpecs_names _ hs).2.2 hspec)

/-- Embedding a program in a spatial frame does not change its result: with payloads in
    declared data regions only, no VERIFY_FREQ, and every JMP to a column of the
    program, the frame that `SpatialCompiler` saves and the image that `SimpleCompiler`
    does, if both complete, leave the same A, B and OUT, slots and next frame. -/
theorem embedding_keeps_result (hc : SameCode cfg cfg') (hm : Unambiguous cfg.opmap) (layout : SpatialLayout)
    (program : Program) (payloads : Dict String Payload) (hd : Declared layout payloads) (hne : columns program ≠ 0)
    (hverify : ∀ row ∈ program, ∀ line ∈ row, opOf line ≠ "VERIFY_FREQ")
    (hjump : ∀ row ∈ program, ∀ line ∈ row, opOf line = "JMP" →
      (pixelOf (parseOne cfg.opmap line)).g.toNat < columns program)
    {f : SpatialFrame layout} (hf : SpatialCompiler.compile cfg.opmap layout program payloads = .ok f)
    {files files' : String → File} {path path' : String} (hfile : files path = .image f.image)
    {m m₁ m₂ : Machine layout.executionRows} (h₁ : executeSingle cfg files path m = .done m₁)
    (h₂ : executeSingle cfg' (compileTo cfg.opmap program path' files') path' m = .done m₂) : SameResult m₁ m₂ := by
  obtain ⟨img, hi, hp⟩ := compiled_padded hm hf (undisturbed_declared hf hd) hne hverify hjump
  have hfile' : compileTo cfg.opmap program path' files' path' = .image img := by
    rw [compileTo, hi]
    exact Function.update_self ..
  rw [executeSingle, hfile] at h₁
  rw [executeSingle, hfile'] at h₂
  exact runFrame_padded hc hp h₁ h₂

end

/-- Two executable rows of three cells, and a region below them. -/
def notes : SpatialLayout where
  width := 3
  height := 3
  executionRows := 2
  regions := [⟨"notes", 1, 2, 2, 1, "data"⟩]
  width_pos := by decide
  height_pos := by decide
  rows_le := by decide
  names := by decide
  inside := by decide
  data := by decide
  apart := List.pairwise_singleton _ _

def jumpAndSet : Program := [["JMP 1", "SET_A 7"]]

/-- One thread; the frame has a column and a row more that run, and a payload. -/
theorem embedding_keeps_result_notes : ∃ (f : SpatialFrame notes) (m₁ m₂ : Machine 2),
    SpatialCompiler.compile map notes jumpAndSet (Dict.ofList [("notes", .bytes [7])]) = .ok f ∧
      executeSingle {} (fun _ => .image f.image) "spatial.png" ({} : Machine 2) = .done m₁ ∧
      executeSingle {} (compileTo map jumpAndSet "simple.png" fun _ => .missing) "simple.png" ({} : Machine 2) = .done m₂ ∧
      SameResult m₁ m₂ := by
  have hd : Declared notes (Dict.ofList [("notes", .bytes [7])]) := by
    intro e he
    obtain rfl : e = ("notes", .bytes [7]) := List.mem_singleton.mp he
    exact ⟨by decide, by decide, _, List.mem_singleton.mpr rfl, rfl, by decide⟩
  have hrun : (match SpatialCompiler.compile map notes jumpAndSet (Dict.ofList [("notes", .bytes [7])]) with
      | .ok f => match executeSingle {} (fun _ => .image f.image) "spatial.png" ({} : Machine 2) with
        | .done _ => true
        | .raised _ _ => false
      | .error _ => false) = true := by decide +kernel
  have hrun' : (match executeSingle {} (compileTo map jumpAndSet "simple.png" fun _ => .missing) "simple.png"
      ({} : Machine 2) with
      | .done _ => true
      | .raised _ _ => false) = true := by decide +kernel
  cases hf : SpatialCompiler.compile map notes jumpAndSet (Dict.ofList [("notes", .bytes [7])]) with
  | error e =>
    rw [hf] at hrun
    cases hrun
  | ok f =>
    simp only [hf] at hrun
    cases h₁ : executeSingle {} (fun _ => .image f.image) "spatial.png" ({} : Machine 2) with
    | raised e s =>
      rw [h₁] at hrun
      cases hrun
    | done m₁ =>
      cases h₂ : executeSingle {} (compileTo map jumpAndSet "simple.png" fun _ => .missing) "simple.png" ({} : Machine 2) with
      | raised e s =>
        rw [h₂] at hrun'
        cases hrun'
      | done m₂ =>
        refine ⟨f, m₁, m₂, rfl, h₁, rfl, ?_⟩
        exact embedding_keeps_result ⟨rfl, rfl⟩ (Complete.unambiguous (by decide +kernel)) notes jumpAndSet _ hd
          (by decide) (by decide +kernel) (by decide +kernel) hf rfl h₁ h₂

end PyxelVM.Spatial
