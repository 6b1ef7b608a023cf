/-
  PyxelVM.Compiler.Correct — compiling keeps the meaning, under every opcode map.

  The compiler looks a name's R up in the map; the machine looks an R up in the reverse
  of it. Under a map with exactly the sixteen names and distinct R in 1..255 (`Complete`)
  the two agree: `opcode_pixel`. So a line's pixel does in the machine what the line
  says: `dispatch_pixel`, on byte registers, which every instruction keeps. A turn, a
  column and a frame follow: `visit_turn`, `column_step`, `compile_correct`.
-/

import PyxelVM.Compiler.Source
import PyxelVM.Vm.Bytes

namespace PyxelVM.Compiler

open PyxelVM.Lib
open PyxelVM.Vm

/-! ## Maps -/

/-- R = 0 is reserved for NOP, and no two names of the map share an R. -/
structure Unambiguous (m : OpMap) : Prop where
  zero : ∀ k v, m.get? k = some v → v.1 ≠ 0
  distinct : ∀ k k' v v', m.get? k = some v → m.get? k' = some v' → v.1 = v'.1 → k = k'

/-- The map has exactly the sixteen names, with distinct R in 1..255. -/
structure Complete (m : OpMap) : Prop where
  names : ∀ k, m.has k = true ↔ ∃ op : Opcode, op.name = k
  byte : ∀ k v, m.get? k = some v → 1 ≤ v.1 ∧ v.1 ≤ 255
  distinct : ∀ k k' v v', m.get? k = some v → m.get? k' = some v' → v.1 = v'.1 → k = k'

theorem complete_iff {m : OpMap} :
    Complete m ↔ (∀ k ∈ m.keys, ∃ op ∈ Opcode.all, op.name = k) ∧ (∀ op ∈ Opcode.all, m.has op.name = true) ∧
      (∀ e ∈ m.entries, 1 ≤ e.2.1 ∧ e.2.1 ≤ 255) ∧ ∀ e ∈ m.entries, ∀ e' ∈ m.entries, e.2.1 = e'.2.1 → e.1 = e'.1 := by
  have hall : ∀ op : Opcode, op ∈ Opcode.all := fun op => by cases op <;> decide
  constructor
  · intro h
    refine ⟨fun k hk => ?_, fun op _ => (h.names _).mpr ⟨op, rfl⟩, fun e he => h.byte _ _ (Dict.mem_entries.mp he),
      fun e he e' he' => h.distinct _ _ _ _ (Dict.mem_entries.mp he) (Dict.mem_entries.mp he')⟩
    obtain ⟨op, ho⟩ := (h.names k).mp (Dict.mem_keys.mp hk)
    exact ⟨op, hall op, ho⟩
  · rintro ⟨h1, h2, h3, h4⟩
    refine ⟨fun k => ⟨fun hk => ?_, fun ⟨op, ho⟩ => ho ▸ h2 op (hall op)⟩, fun k v hv => h3 (k, v) (Dict.mem_entries.mpr hv),
      fun k k' v v' hv hv' => h4 (k, v) (Dict.mem_entries.mpr hv) (k', v') (Dict.mem_entries.mpr hv')⟩
    obtain ⟨op, -, ho⟩ := h1 k (Dict.mem_keys.mpr hk)
    exact ⟨op, ho⟩

instance (m : OpMap) : Decidable (Complete m) := decidable_of_iff _ complete_iff.symm

/-- The R of an opcode. -/
def red (m : OpMap) (op : Opcode) : Int := ((m.get? op.name).map (·.1)).getD 0

variable {m : OpMap}

theorem Complete.get? (h : Complete m) (op : Opcode) : ∃ v, m.get? op.name = some v ∧ v.1 = red m op := by
  obtain ⟨v, hv⟩ := Dict.has_iff.mp ((h.names op.name).mpr ⟨op, rfl⟩)
  exact ⟨v, hv, by simp [red, hv]⟩

theorem Complete.red_byte (h : Complete m) (op : Opcode) : 1 ≤ red m op ∧ red m op ≤ 255 := by
  obtain ⟨v, hv, e⟩ := h.get? op
  exact e ▸ h.byte _ v hv

theorem ofName?_name (op : Opcode) : Opcode.ofName? op.name = some op := by cases op <;> decide

/-- What the reverse map answers is an entry of the map. -/
theorem rev_get? {r : Int} {k : String} (h : m.rev.get? r = some k) : ∃ v, m.get? k = some v ∧ v.1 = r := by
  rw [OpMap.rev, Dict.get?_ofList] at h
  have hmem := Dict.mem_of_lookup h
  rw [List.mem_reverse, List.mem_map] at hmem
  obtain ⟨⟨k', v⟩, he, e⟩ := hmem
  cases e
  exact ⟨v, Dict.mem_entries.mp he, rfl⟩

theorem rev_has {k : String} {v : Int × Int × Int} (h : m.get? k = some v) : ∃ k', m.rev.get? v.1 = some k' := by
  refine Option.isSome_iff_exists.mp (Option.ne_none_iff_isSome.mp fun hn => ?_)
  rw [OpMap.rev, Dict.get?_ofList, Dict.lookup_eq_none, List.map_reverse, List.mem_reverse, List.map_map] at hn
  exact hn (List.mem_map.mpr ⟨(k, v), Dict.mem_entries.mpr h, rfl⟩)

theorem Unambiguous.rev_zero (h : Unambiguous m) : m.rev.get? 0 = none := by
  apply Option.eq_none_iff_forall_ne_some.mpr
  intro k hk
  obtain ⟨v, hv, e⟩ := rev_get? hk
  exact h.zero k v hv e

theorem Unambiguous.rev_red (h : Unambiguous m) {k : String} {v : Int × Int × Int} (hv : m.get? k = some v) :
    m.rev.get? v.1 = some k := by
  obtain ⟨k', hk⟩ := rev_has hv
  obtain ⟨v', hv', e⟩ := rev_get? hk
  rw [hk, h.distinct k' k v' v hv' hv e]

theorem Complete.unambiguous (h : Complete m) : Unambiguous m :=
  ⟨fun k v hv => by have := (h.byte k v hv).1; omega, h.distinct⟩

/-! ## Pixels -/

/-- The opcode an instruction compiles to. -/
def Instr.opcode? : Instr → Option Opcode
  | .nop => none
  | .setA _ => some .setReg
  | .setB _ => some .setB
  | .add => some .addThread
  | .sub => some .sub
  | .mul => some .mul
  | .div => some .div
  | .not => some .not
  | .cmp => some .cmp
  | .copyOut => some .copyOut
  | .loadMem _ => some .loadMem
  | .storeMem _ => some .storeMem
  | .ifAEq _ => some .ifAEq
  | .verifyFreq => some .verifyFreq
  | .saveState _ => some .saveState
  | .jmp _ => some .jmp
  | .halt => some .halt

/-- The channels that carry the operand: G for an address, B for a value. -/
def Instr.channels : Instr → Int × Int
  | .setA v | .setB v | .ifAEq v => (0, v)
  | .loadMem v | .storeMem v | .saveState v | .jmp v => (v, 0)
  | _ => (0, 0)

def Instr.pixel (m : OpMap) (i : Instr) : Pixel := (i.opcode?.map fun op => pixelOf (red m op, i.channels)).getD .nop

theorem Instr.channels_byte {i : Instr} (h : i.InRange) :
    (0 ≤ i.channels.1 ∧ i.channels.1 ≤ 255) ∧ 0 ≤ i.channels.2 ∧ i.channels.2 ≤ 255 := by
  cases i <;> simp_all [Instr.channels, Instr.InRange, Instr.operand?]

theorem Unambiguous.opcode_nop {cfg : Config} (h : Unambiguous cfg.opmap) : cfg.opcode Pixel.nop.r = none := by
  show (cfg.opmap.rev.get? 0).bind _ = none
  rw [h.rev_zero]
  rfl

/-- The machine finds a name's opcode at its R. -/
theorem Unambiguous.opcode_red {cfg : Config} (h : Unambiguous cfg.opmap) {op : Opcode} {v : Int × Int × Int} {r : UInt8}
    (hv : cfg.opmap.get? op.name = some v) (hr : (r.toNat : Int) = v.1) : cfg.opcode r = some op := by
  rw [Config.opcode, hr, h.rev_red hv, Option.bind_some, ofName?_name]

/-- The machine finds in a pixel the opcode the compiler put there. -/
theorem opcode_pixel {cfg : Config} (h : Complete cfg.opmap) (i : Instr) : cfg.opcode (i.pixel cfg.opmap).r = i.opcode? := by
  unfold Instr.pixel
  cases ho : i.opcode? with
  | none => exact h.unambiguous.opcode_nop
  | some op =>
    obtain ⟨v, hv, e⟩ := h.get? op
    have hb := h.red_byte op
    rw [Option.map_some, Option.getD_some]
    refine h.unambiguous.opcode_red hv ?_
    rw [e]
    exact toNat_ofNat_clamp (by omega)

/-- Only a VERIFY_FREQ compiles to the pixel of one. -/
theorem pixel_eq_verifyFreq {cfg : Config} (h : Complete cfg.opmap) (i : Instr) :
    Instr.pixel cfg.opmap .verifyFreq = i.pixel cfg.opmap ↔ i = .verifyFreq := by
  refine ⟨?_, fun e => e ▸ rfl⟩
  intro e
  have ho := opcode_pixel h i
  rw [← e, opcode_pixel h] at ho
  cases i <;> first | rfl | cases ho

/-! ## Lines -/

theorem clamp_clamp (v : Int) : clamp (clamp v) = clamp v := by simp only [clamp]; omega

theorem expandOne_eq (line : String) : expandOne line = [if opOf line = "OUT_TO_A" then "COPY_OUT" else line] := by
  unfold expandOne synthetic
  rw [Dict.lookup_cons]
  split <;> rfl

/-- A line with a known mnemonic: its pixel has the opcode's R and what the channels build. -/
theorem pixelOf_parseOne (h : Complete m) {line op : String} {args : List String} {spec : InstrSpec}
    (hw : words line = op :: args) (hs : instrSpecs.lookup (upper op) = some spec) :
    pixelOf (parseOne m line) = (((spec.g.build args).bind fun g => (spec.b.build args).map fun b =>
      pixelOf (red m spec.opcode, g, b))).getD .nop := by
  obtain ⟨v, hv, e⟩ := h.get? spec.opcode
  simp only [parseOne, hw, hs, hv]
  cases spec.g.build args with
  | none => rfl
  | some g =>
    cases spec.b.build args with
    | none => rfl
    | some b => simp [pixelOf, clamp_clamp, e]

/-- What the compiler makes of a mnemonic is the pixel of what it says. -/
theorem parseOne_ofWords (h : Complete m) {line op : String} {args : List String} (hw : words line = op :: args)
    (hn : upper op ≠ "OUT_TO_A") : pixelOf (parseOne m line) = (Instr.ofWords (upper op) args).pixel m := by
  have hp := @pixelOf_parseOne m h line op args
  generalize hu : upper op = w at hp hn ⊢
  unfold Instr.ofWords
  split
  case h_10 => exact absurd rfl hn
  case h_15 =>
    rw [hp hw rfl]
    cases args with
    | nil => rfl
    | cons a as =>
      simp only [Channel.build, operand, List.head?_cons, Option.bind_some, reduceCtorEq, if_false]
      cases parseInt a <;> rfl
  case h_18 =>
    have hs : instrSpecs.lookup w = none := by
      rw [Dict.lookup_eq_none]
      simp only [instrSpecs, List.map_cons, List.map_nil, List.mem_cons, List.not_mem_nil, or_false, not_or]
      and_intros <;> assumption
    simp only [parseOne, hw, hu, hs]
    rfl
  all_goals
    rw [hp hw rfl]
    simp only [Channel.build, operand]
    first
      | rfl
      | cases args.head?.bind parseInt <;> rfl

/-- The compiler's pixel for a line is the pixel of what the line says. -/
theorem expandOne_pixel (h : Complete m) (line : String) :
    (expandOne line).map (fun l => pixelOf (parseOne m l)) = [(Instr.ofLine line).pixel m] := by
  rw [expandOne_eq, List.map_singleton]
  unfold Instr.ofLine
  cases hw : words line with
  | nil =>
    have ho : opOf line = "" := by simp [opOf, hw]
    rw [ho, if_neg (by decide), parseOne, hw]
    rfl
  | cons op args =>
    have ho : opOf line = upper op := by simp [opOf, hw]
    show _ = [(Instr.ofWords (upper op) args).pixel m]
    rw [ho]
    by_cases hn : upper op = "OUT_TO_A"
    · have hc : words "COPY_OUT" = ["COPY_OUT"] := by decide +kernel
      have hc' : upper "COPY_OUT" = "COPY_OUT" := by decide +kernel
      rw [if_pos hn, hn, parseOne_ofWords h hc (by rw [hc']; decide), hc']
      rfl
    · rw [if_neg hn, parseOne_ofWords h hw hn]

/-! ## Cells -/

variable {n : Nat} {cfg : Config}

theorem slot?_of_byte {g : UInt8} {v : Int} (h : (g.toNat : Int) = v) : slot? g = slotOf? v := by
  subst h
  unfold slot? slotOf?
  by_cases hg : g.toNat < 8
  · rw [dif_pos hg, dif_pos (by omega)]
    simp
  · rw [dif_neg hg, dif_neg (by omega)]

/-- The channels of an instruction's pixel. -/
theorem channels_pixel {i : Instr} {op : Opcode} (ho : i.opcode? = some op) (hi : i.InRange) :
    ((i.pixel m).g.toNat : Int) = i.channels.1 ∧ ((i.pixel m).b.toNat : Int) = i.channels.2 := by
  obtain ⟨hg, hb⟩ := Instr.channels_byte hi
  simp only [Instr.pixel, ho, Option.map_some, Option.getD_some]
  exact ⟨toNat_ofNat_clamp hg, toNat_ofNat_clamp hb⟩

/-- `(~a) & 0xFF` of a byte. -/
theorem not_byte {a : Int} (h : IsByte a) : (-a - 1) % 256 = 255 - a := by
  obtain ⟨h0, h1⟩ := h
  omega

/-- A line's pixel does in the machine what the line says. -/
theorem dispatch_pixel (hm : Complete cfg.opmap) (hs : cfg.strictMode = false) {img : Raster} {y x : Nat} {i mirror : Instr}
    (hi : i.InRange) (hmir : img.get? y (img.width - 1 - x) = some (mirror.pixel cfg.opmap)) {c : Core} (hc : c.Bytes) :
    dispatch cfg img y x (i.pixel cfg.opmap) c = .done (i.exec cfg.frameRegistry img.width mirror c) := by
  have ho := opcode_pixel hm i
  unfold dispatch
  rw [ho]
  cases i with
  | nop => rfl
  | verifyFreq =>
    simp only [Instr.opcode?, hmir, Instr.exec, pixel_eq_verifyFreq hm]
  | not =>
    simp only [Instr.opcode?, Instr.exec, not_byte hc.a]
  | div =>
    simp only [Instr.opcode?, Instr.exec, ne_eq, ite_not]
  | setA v =>
    have hb := (channels_pixel (m := cfg.opmap) rfl hi).2
    simp only [Instr.opcode?, Instr.exec, hb, Instr.channels]
  | setB v =>
    have hb := (channels_pixel (m := cfg.opmap) rfl hi).2
    simp only [Instr.opcode?, Instr.exec, hb, Instr.channels]
  | ifAEq v =>
    have hb := (channels_pixel (m := cfg.opmap) rfl hi).2
    simp only [Instr.opcode?, Instr.exec, hb, Instr.channels, ne_eq, ite_not]
    split <;> rfl
  | saveState v =>
    have hg := (channels_pixel (m := cfg.opmap) rfl hi).1
    simp only [Instr.opcode?, Instr.exec, hg, Instr.channels]
    cases cfg.frameRegistry.get? v <;> rfl
  | loadMem v =>
    have hg := slot?_of_byte (channels_pixel (m := cfg.opmap) rfl hi).1
    simp only [Instr.opcode?, Instr.exec, hg, Instr.channels, hs]
    cases slotOf? v <;> rfl
  | storeMem v =>
    have hg := slot?_of_byte (channels_pixel (m := cfg.opmap) rfl hi).1
    simp only [Instr.opcode?, Instr.exec, hg, Instr.channels, hs]
    cases slotOf? v <;> rfl
  | jmp v =>
    have hg : (((Instr.jmp v).pixel cfg.opmap).g.toNat : Int) = v := (channels_pixel (m := cfg.opmap) rfl hi).1
    simp only [Instr.opcode?, Instr.exec]
    cases hj : c.jumpTo with
    | some t => simp
    | none =>
      have hv : ((Instr.jmp v).pixel cfg.opmap).g.toNat = v.toNat := by omega
      have hlt : 0 ≤ v ∧ v < img.width ↔ v.toNat < img.width := by omega
      simp only [hlt, hv, true_and]
      split <;> rfl
  | _ => rfl

/-! ## Frames -/

/-- Every operand of the program is a byte. -/
def Program.InRange (program : Program) : Prop := ∀ row ∈ program, ∀ line ∈ row, (Instr.ofLine line).InRange

instance (program : Program) : Decidable program.InRange :=
  inferInstanceAs (Decidable (∀ row ∈ program, ∀ line ∈ row, (Instr.ofLine line).InRange))

theorem instrAt_inRange {program : Program} (h : program.InRange) (y x : Nat) : (instrAt program y x).InRange := by
  unfold instrAt cell?
  cases hr : program[y]? with
  | none => exact fun v hv => by cases hv
  | some row =>
    cases hl : row[x]? with
    | none => simp only [Option.bind_some, hl]; exact fun v hv => by cases hv
    | some line =>
      simp only [Option.bind_some, hl]
      exact h row (List.mem_of_getElem? hr) line (List.mem_of_getElem? hl)

/-- A line and the pixel the compiler makes of it. -/
theorem compile_pixels (h : Complete m) (program : Program) :
    (expand program).map (fun row => row.map fun l => pixelOf (parseOne m l)) =
      program.map fun row => row.map fun l => (Instr.ofLine l).pixel m := by
  rw [expand, List.map_map]
  congr 1
  funext row
  show (row.flatMap expandOne).map _ = _
  induction row with
  | nil => rfl
  | cons l ls ih => rw [List.flatMap_cons, List.map_append, ih, expandOne_pixel h]; rfl

theorem cell?_map {α β : Type} (f : α → β) (rows : List (List α)) (y x : Nat) :
    cell? (rows.map fun row => row.map f) y x = (cell? rows y x).map f := by
  unfold cell?
  rw [List.getElem?_map]
  cases rows[y]? with
  | none => rfl
  | some row => simp

theorem length_expand (program : Program) : (expand program).length = program.length := List.length_map ..

theorem columns_expand (program : Program) : columns (expand program) = columns program := by
  have hone : ∀ line, (expandOne line).length = 1 := fun line => by rw [expandOne_eq, List.length_singleton]
  simp [columns, expand, List.length_flatMap, hone, Function.comp_def]

/-- The compiled image: its size, and each of its cells the pixel of the instruction there. -/
theorem compile_image (h : Complete m) {program : Program} (hne : columns program ≠ 0) :
    ∃ img, compile m program = some img ∧ img.width = columns program ∧ img.height = program.length ∧
      ∀ y x, y < img.height → x < img.width → img.get? y x = some ((instrAt program y x).pixel m) := by
  have hp := compile_pixels h program
  have hlen : program.length ≠ 0 := by
    intro hz
    rw [List.length_eq_zero_iff] at hz
    exact hne (by rw [hz]; rfl)
  simp only [compile, length_expand, columns_expand]
  rw [if_neg (by omega)]
  refine ⟨_, rfl, rfl, rfl, ?_⟩
  intro y x hy hx
  rw [get?_inside hy hx]
  show some (((cell? (expand program) y x).map fun l => pixelOf (parseOne m l)).getD .nop) = _
  rw [← cell?_map, hp, cell?_map, instrAt]
  cases cell? program y x <;> rfl

/-- One thread's turn on the compiled image is its turn on the matrix. -/
theorem visit_turn (hm : Complete cfg.opmap) (hs : cfg.strictMode = false) {program : Program} (hr : program.InRange)
    {img : Raster} (hw : img.width = columns program) (hh : img.height = program.length)
    (hpx : ∀ y x, y < img.height → x < img.width → img.get? y x = some ((instrAt program y x).pixel cfg.opmap))
    (y : Fin n) {f : Frame n} (hx : f.x < columns program) (hb : f.toMachine.Bytes) :
    visit cfg img y f = .done (turn cfg.frameRegistry program f y) ∧
      (turn cfg.frameRegistry program f y).toMachine.Bytes ∧ (turn cfg.frameRegistry program f y).x = f.x := by
  unfold visit turn
  rw [hh]
  split
  · exact ⟨rfl, hb, rfl⟩
  · rename_i hrun
    split
    · exact ⟨rfl, ⟨hb.registers, hb.shared⟩, rfl⟩
    · have hy : (y : Nat) < img.height := by have := not_or.mp hrun; omega
      have hcell := hpx y f.x hy (by omega)
      have hmir := hpx y (img.width - 1 - f.x) hy (by omega)
      have hd := dispatch_pixel (y := y) (x := f.x) hm hs (instrAt_inRange hr y f.x) hmir (hb.core y)
      have hbytes := dispatch_bytes cfg img y f.x ((instrAt program y f.x).pixel cfg.opmap) (hb.core y)
      rw [hd] at hbytes
      simp only [hcell, hd, Outcome.map_done, hw] at hbytes ⊢
      exact ⟨trivial, hb.withCore y hbytes, rfl⟩

theorem column_step (hm : Complete cfg.opmap) (hs : cfg.strictMode = false) {program : Program} (hr : program.InRange)
    {img : Raster} (hw : img.width = columns program) (hh : img.height = program.length)
    (hpx : ∀ y x, y < img.height → x < img.width → img.get? y x = some ((instrAt program y x).pixel cfg.opmap))
    {f : Frame n} (hx : f.x < columns program) (hb : f.toMachine.Bytes) :
    column cfg img f = .done (step cfg.frameRegistry program f) ∧ (step cfg.frameRegistry program f).toMachine.Bytes := by
  obtain ⟨he, hb', -⟩ := forEach_eq_foldl (P := fun g : Frame n => g.toMachine.Bytes ∧ g.x = f.x) (f := visit cfg img)
    (g := turn cfg.frameRegistry program) (List.finRange n)
    (fun y _ g hg => by
      obtain ⟨hv, hb, hx'⟩ := visit_turn hm hs hr hw hh hpx y (hg.2 ▸ hx) hg.1
      exact ⟨hv, hb, hx'.trans hg.2⟩)
    (s := { f with clock := f.x, jumpTo := none }) ⟨⟨hb.registers, hb.shared⟩, rfl⟩
  refine ⟨by rw [column, he]; rfl, ?_⟩
  exact ⟨hb'.registers, hb'.shared⟩

theorem frame_steps (hm : Complete cfg.opmap) (hs : cfg.strictMode = false) {program : Program} (hr : program.InRange)
    {img : Raster} (hw : img.width = columns program) (hh : img.height = program.length)
    (hpx : ∀ y x, y < img.height → x < img.width → img.get? y x = some ((instrAt program y x).pixel cfg.opmap)) (k : Nat)
    {f : Frame n} (hb : f.toMachine.Bytes) :
    repeatWhile (fun f => decide (f.x < img.width)) (column cfg img) k f = .done (steps cfg.frameRegistry program k f) := by
  induction k generalizing f with
  | zero => rfl
  | succ k ih =>
    simp only [repeatWhile, steps, hw, decide_eq_true_eq]
    split
    · rename_i hx
      obtain ⟨he, hb'⟩ := column_step hm hs hr hw hh hpx hx hb
      rw [he, Outcome.bind_done, ← ih hb', hw]
    · rfl

/-- Compilation preserves meaning: under every map with exactly the sixteen names and
    distinct R in 1..255, running the compiled image ends as running the matrix does,
    in the same machine, at the end or at the step cap. -/
theorem compile_correct (cfg : Config) (hm : Complete cfg.opmap) (hs : cfg.strictMode = false) (program : Program)
    (hne : columns program ≠ 0) (hr : program.InRange) (outPath : String) (files : String → File) (m : Machine n)
    (hb : m.Bytes) :
    executeSingle cfg (compileTo cfg.opmap program outPath files) outPath m =
      interpret cfg.frameRegistry cfg.maxColSteps outPath program m := by
  obtain ⟨img, he, hw, hh, hpx⟩ := compile_image hm hne
  have hfile : compileTo cfg.opmap program outPath files outPath = .image img := by
    rw [compileTo, he]
    exact Function.update_self ..
  have hbm : (m.enter).toMachine.Bytes := ⟨hb.registers, hb.shared⟩
  have hrun := frame_steps hm hs hr hw hh hpx cfg.maxColSteps hbm
  simp only [executeSingle, hfile, runFrame, hrun, Outcome.bind_done, interpret]
  rw [hw]
  split <;> rfl

/-- Two threads under the default map: one adds and stores, the other reads and jumps. -/
def adder : Program := [["set_a 5", "SET_B 3", "ADD", "Out_To_A", "STORE_MEM 0"], ["frobnicate", "NOT", "LOAD_MEM 0", "JMP 4"]]

theorem compile_correct_adder :
    executeSingle {} (compileTo map adder "adder.png" fun _ => .missing) "adder.png" ({} : Machine 2) =
      interpret (Dict.ofList [(0, "whisperframe_B.png")]) 4096 "adder.png" adder {} :=
  compile_correct {} (by decide +kernel) rfl adder (by decide) (by decide +kernel) "adder.png" (fun _ => .missing) {}
    ⟨by decide, by decide⟩

end PyxelVM.Compiler
