/-
  PyxelVM.Spatial.Compiler — `SpatialCompiler` (`zdx_spatial_frame.py`).

  `compile` writes the program's cells into a blank frame, a row a thread, and then the
  payloads in the order of the mapping, each at the start of the region its name
  resolves to. A name resolves to a declared region, but also to the plane below the
  executable rows ("storage") and to these rows ("execution").

  A frame is a picture of bytes (`byteOf`), and a payload a patch: `compile_ok` says that
  the frame returned is the program's picture with the payloads over it, the last to
  reach a byte showing.
-/

import PyxelVM.Compiler.Simple
import PyxelVM.Lib.Exec
import PyxelVM.Lib.Overlay
import PyxelVM.Spatial.Frame

namespace PyxelVM.Spatial

open PyxelVM.Lib
open PyxelVM.Vm
open PyxelVM.Compiler (Program expand columns parseOne pixelOf cell? clamp)

/-! ## Cells -/

inductive CellError where
  | coordinate (x y : Int) (width height : Nat)
  | channels
  deriving DecidableEq, Repr

/-- The ValueError's text. -/
def CellError.message : CellError → String
  | .coordinate x y width height =>
    let shown := s!"({x},{y})"
    s!"coordinate {shown} outside {width}x{height} frame"
  | .channels => "RGB cell values must each be in range 0..255"

namespace SpatialFrame

variable {layout : SpatialLayout}

/-- `_check_coordinate`. -/
def checkCoordinate (layout : SpatialLayout) (x y : Int) : Except CellError Unit :=
  if 0 ≤ x ∧ x < layout.width ∧ 0 ≤ y ∧ y < layout.height then .ok () else .error (.coordinate x y layout.width layout.height)

def readCell (f : SpatialFrame layout) (x y : Int) : Except CellError (Int × Int × Int) :=
  match checkCoordinate layout x y with
  | .error e => .error e
  | .ok () =>
    let p := f.image.px y.toNat x.toNat
    .ok (p.r.toNat, p.g.toNat, p.b.toNat)

def InChannels (rgb : Int × Int × Int) : Prop :=
  (0 ≤ rgb.1 ∧ rgb.1 ≤ 255) ∧ (0 ≤ rgb.2.1 ∧ rgb.2.1 ≤ 255) ∧ 0 ≤ rgb.2.2 ∧ rgb.2.2 ≤ 255

instance (rgb : Int × Int × Int) : Decidable (InChannels rgb) := inferInstanceAs (Decidable (_ ∧ _))

/-- `putpixel`. -/
def put (f : SpatialFrame layout) (x y : Nat) (p : Pixel) : SpatialFrame layout :=
  ⟨{ f.image with px := fun y' x' => if y' = y ∧ x' = x then p else f.image.px y' x' }, f.size⟩

def writeCell (f : SpatialFrame layout) (x y : Int) (rgb : Int × Int × Int) : Except CellError (SpatialFrame layout) :=
  match checkCoordinate layout x y with
  | .error e => .error e
  | .ok () => if InChannels rgb then .ok (f.put x.toNat y.toNat (pixelOf rgb)) else .error .channels

end SpatialFrame

/-! ## Compiling -/

/-- A value of the mapping: bytes, or anything else, which is written as JSON. -/
inductive Payload where
  | bytes (data : List UInt8)
  | json (value : { v : Json // v.Normal })

inductive CompileError where
  | threads (count allowed : Nat)
  | columns (count width : Nat)
  | cell (e : CellError)
  | payload (e : FrameError)
  deriving DecidableEq, Repr

/-- The exception's text; `repr` and `exc` as in `FrameError.message`. -/
def CompileError.message (repr : String → String) (exc : String) : CompileError → String
  | .threads count allowed => s!"program has {count} threads but layout allows {allowed} executable rows"
  | .columns count width => s!"program width {count} exceeds spatial frame width {width}"
  | .cell e => e.message
  | .payload e => e.message repr exc

namespace SpatialCompiler

variable {layout : SpatialLayout}

/-- The cells of row `y`, from column `x`. -/
def writeRow (m : OpMap) (y : Nat) : Nat → List String → SpatialFrame layout → Except CellError (SpatialFrame layout)
  | _, [], f => .ok f
  | x, instr :: row, f => (f.writeCell x y (parseOne m instr)).bind (writeRow m y (x + 1) row)

/-- The rows, from row `y`. -/
def writeRows (m : OpMap) : Nat → Program → SpatialFrame layout → Except CellError (SpatialFrame layout)
  | _, [], f => .ok f
  | y, row :: rows, f => (writeRow m y 0 row f).bind (writeRows m (y + 1) rows)

def writePayload (f : SpatialFrame layout) (name : String) : Payload → Except FrameError (SpatialFrame layout)
  | .bytes data => f.writeBytes data (some name) 0
  | .json v => f.writeJson v.1 (some name)

def writePayloads : List (String × Payload) → SpatialFrame layout → Except FrameError (SpatialFrame layout)
  | [], f => .ok f
  | e :: es, f => (writePayload f e.1 e.2).bind (writePayloads es)

/-- `compile`: the frame it saves. -/
def compile (m : OpMap) (layout : SpatialLayout) (program : Program) (payloads : Dict String Payload) :
    Except CompileError (SpatialFrame layout) :=
  let rows := expand program
  if layout.executionRows < rows.length then .error (.threads rows.length layout.executionRows)
  else if layout.width < columns rows then .error (.columns (columns rows) layout.width)
  else
    match writeRows m 0 rows (.blank layout) with
    | .error e => .error (.cell e)
    | .ok f =>
      match writePayloads payloads.entries f with
      | .error e => .error (.payload e)
      | .ok f => .ok f

end SpatialCompiler

/-! ## Sites -/

/-- A byte of a frame. -/
@[ext]
structure Site where
  y : Nat
  x : Nat
  c : Fin 3
  deriving DecidableEq

def byteOf (img : Raster) (s : Site) : UInt8 := channel (img.px s.y s.x) s.c

/-- The site of byte `i` of the region. -/
def SpatialRegion.site (r : SpatialRegion) (i : Nat) : Site :=
  ⟨r.y + i / 3 / r.width, r.x + i / 3 % r.width, i % 3, Nat.mod_lt i (by decide)⟩

/-- The index in the region of the site, if it is there. -/
def SpatialRegion.index? (r : SpatialRegion) (s : Site) : Option Nat :=
  if r.contains s.x s.y then some (((s.y - r.y) * r.width + (s.x - r.x)) * 3 + s.c) else none

/-- What the bytes, put at the region's start, have at a site. -/
def patchOf (r : SpatialRegion) (bs : List UInt8) : Patch Site UInt8 := fun s => (r.index? s).bind fun i => bs[i]?

variable {r : SpatialRegion} {img : Raster} {s : Site} {i : Nat} {bs : List UInt8}

theorem byteAt_eq (img : Raster) (r : SpatialRegion) (i : Nat) : byteAt img r i = byteOf img (r.site i) := rfl

theorem index?_some (h : r.index? s = some i) : i < r.capacityBytes ∧ r.site i = s := by
  obtain ⟨y, x, c⟩ := s
  have hc := c.isLt
  unfold SpatialRegion.index? at h
  split at h
  · rename_i hin
    rw [contains_iff] at hin
    obtain ⟨h1, h2, h3, h4⟩ := hin
    obtain rfl := Option.some.inj h
    simp only at h1 h2 h3 h4 ⊢
    generalize hj : (y - r.y) * r.width + (x - r.x) = j
    have h3i : (j * 3 + c) / 3 = j := by omega
    have hw : 0 < r.width := by omega
    have hrow : j / r.width = y - r.y := by
      rw [← hj, Nat.mul_comm, Nat.mul_add_div hw, Nat.div_eq_of_lt (by omega), Nat.add_zero]
    have hcol : j % r.width = x - r.x := by
      rw [← hj, Nat.mul_comm, Nat.mul_add_mod, Nat.mod_eq_of_lt (by omega)]
    have hlt : j < r.width * r.height := by
      rw [Nat.mul_comm, ← Nat.div_lt_iff_lt_mul hw]
      omega
    constructor
    · show j * 3 + c < r.width * r.height * 3
      omega
    · ext
      · simp only [SpatialRegion.site, h3i, hrow]
        omega
      · simp only [SpatialRegion.site, h3i, hcol]
        omega
      · simp only [SpatialRegion.site]
        omega
  · cases h

theorem index?_site (h : i < r.capacityBytes) : r.index? (r.site i) = some i := by
  have hcell := cell_of_byte h
  simp only [SpatialRegion.index?, SpatialRegion.site, hcell, if_true, Nat.add_sub_cancel_left, Nat.div_add_mod']

theorem patchOf_site (h : i < r.capacityBytes) : patchOf r bs (r.site i) = bs[i]? := by
  rw [patchOf, index?_site h, Option.bind_some]

theorem contains_of_index?_none (h : r.index? s = none) : r.contains s.x s.y = false := by
  by_contra hin
  rw [SpatialRegion.index?, if_pos (by simpa using hin)] at h
  cases h

/-- Writing bytes at a region's start is putting their patch. -/
theorem byteOf_withBlock (img : Raster) (h : bs.length ≤ r.capacityBytes) :
    byteOf (withBlock img r (splice (block img r) 0 bs)) = (patchOf r bs).put (byteOf img) := by
  funext s
  cases hs : r.index? s with
  | none =>
    have hout := contains_of_index?_none hs
    simp only [byteOf, outside_unchanged hout, Patch.put, patchOf, hs, Option.bind_none, Option.getD_none]
  | some i =>
    obtain ⟨hi, rfl⟩ := index?_some hs
    have hbyte := byteAt_written (r := r) img (show 0 + bs.length ≤ r.capacityBytes by omega) hi
    simp only [Nat.zero_le, true_and, Nat.zero_add, Nat.sub_zero] at hbyte
    rw [Patch.put, patchOf_site hi, ← byteAt_eq, ← byteAt_eq]
    by_cases hlt : i < bs.length
    · rw [if_pos hlt] at hbyte
      rw [← hbyte]
      rfl
    · rw [if_neg hlt, Option.some_inj] at hbyte
      rw [List.getElem?_eq_none (Nat.le_of_not_lt hlt), hbyte]
      rfl

/-! ## What the program leaves -/

/-- The cell of the program's picture. -/
def programPixel (m : OpMap) (program : Program) (y x : Nat) : Pixel :=
  ((cell? (expand program) y x).map fun instr => pixelOf (parseOne m instr)).getD .nop

def programByte (m : OpMap) (program : Program) (s : Site) : UInt8 := channel (programPixel m program s.y s.x) s.c

namespace SpatialCompiler

variable {layout : SpatialLayout} {m : OpMap} {f f' : SpatialFrame layout}

theorem writeCell_ok {x y : Nat} {rgb : Int × Int × Int} (h : f.writeCell x y rgb = .ok f') :
    SpatialFrame.InChannels rgb ∧ f' = f.put x y (pixelOf rgb) := by
  unfold SpatialFrame.writeCell at h
  split at h
  · cases h
  · split at h
    · cases h
      exact ⟨‹_›, rfl⟩
    · cases h

theorem writeRow_ok {y x : Nat} {row : List String} (h : writeRow m y x row f = .ok f') :
    (∀ instr ∈ row, SpatialFrame.InChannels (parseOne m instr)) ∧ ∀ y' x', f'.image.px y' x' =
      if y' = y ∧ x ≤ x' then (row[x' - x]?.map fun instr => pixelOf (parseOne m instr)).getD (f.image.px y' x')
      else f.image.px y' x' := by
  induction row generalizing x f with
  | nil =>
    cases h
    exact ⟨fun _ hm => (nomatch hm), fun y' x' => by simp⟩
  | cons instr row ih =>
    obtain ⟨g, hc, h⟩ := except_bind_ok h
    obtain ⟨hin, rfl⟩ := writeCell_ok hc
    obtain ⟨hrow, hpx⟩ := ih h
    refine ⟨List.forall_mem_cons.mpr ⟨hin, hrow⟩, ?_⟩
    intro y' x'
    rw [hpx]
    simp only [SpatialFrame.put]
    by_cases hy : y' = y
    · rcases Nat.lt_trichotomy x' x with hx | rfl | hx
      · have h1 : ¬x + 1 ≤ x' := by omega
        have h2 : ¬x ≤ x' := by omega
        have h3 : x' ≠ x := by omega
        simp only [h1, h2, h3, and_false, if_false]
      · have h1 : ¬x' + 1 ≤ x' := by omega
        simp [hy]
      · have h1 : x + 1 ≤ x' := hx
        have h2 : x ≤ x' := by omega
        have h3 : x' ≠ x := by omega
        have h4 : x' - x = x' - (x + 1) + 1 := by omega
        simp only [h1, h2, h3, hy, and_true, and_false, if_true, if_false, h4, List.getElem?_cons_succ]
    · simp only [hy, false_and, if_false]

theorem writeRows_ok {y : Nat} {rows : Program} (h : writeRows m y rows f = .ok f') :
    (∀ row ∈ rows, ∀ instr ∈ row, SpatialFrame.InChannels (parseOne m instr)) ∧ ∀ y' x', f'.image.px y' x' =
      if y ≤ y' then ((cell? rows (y' - y) x').map fun instr => pixelOf (parseOne m instr)).getD (f.image.px y' x')
      else f.image.px y' x' := by
  induction rows generalizing y f with
  | nil =>
    cases h
    exact ⟨fun _ hm => (nomatch hm), fun y' x' => by simp [cell?]⟩
  | cons row rows ih =>
    obtain ⟨g, hr, h⟩ := except_bind_ok h
    obtain ⟨hrow, hg⟩ := writeRow_ok hr
    obtain ⟨hrows, hpx⟩ := ih h
    refine ⟨List.forall_mem_cons.mpr ⟨hrow, hrows⟩, ?_⟩
    intro y' x'
    rw [hpx, hg]
    rcases Nat.lt_trichotomy y' y with hy | rfl | hy
    · have h1 : ¬y + 1 ≤ y' := by omega
      have h2 : ¬y ≤ y' := by omega
      have h3 : y' ≠ y := by omega
      simp only [h1, h2, h3, false_and, if_false]
    · simp [cell?]
    · have h1 : y + 1 ≤ y' := hy
      have h2 : y ≤ y' := by omega
      have h3 : y' ≠ y := by omega
      have h4 : y' - y = y' - (y + 1) + 1 := by omega
      simp only [h1, h2, h3, false_and, if_true, if_false, h4, cell?, List.getElem?_cons_succ]

end SpatialCompiler

/-! ## What the payloads leave -/

/-- The bytes a payload puts at its region's start. -/
def Payload.raw : Payload → List UInt8
  | .bytes data => data
  | .json v => SpatialFrame.encoded v.1

/-- The payload goes into the region. -/
def Payload.Fits (r : SpatialRegion) : Payload → Prop
  | .bytes data => data.length ≤ r.capacityBytes
  | .json v => SpatialFrame.Fits r v.1

theorem Payload.Fits.length_le {r : SpatialRegion} {p : Payload} (h : p.Fits r) : p.raw.length ≤ r.capacityBytes := by
  cases p with
  | bytes data => exact h
  | json v =>
    rw [Payload.raw, SpatialFrame.length_encoded]
    exact h.1

/-- An entry of the mapping as a patch. -/
def patch (layout : SpatialLayout) (e : String × Payload) : Patch Site UInt8 := fun s =>
  match layout.region (some e.1) with
  | .ok r => patchOf r e.2.raw s
  | .error _ => none

namespace SpatialCompiler

variable {layout : SpatialLayout} {m : OpMap} {f f' : SpatialFrame layout}

theorem writePayload_ok {name : String} {p : Payload} (h : writePayload f name p = .ok f') :
    ∃ r, layout.region (some name) = .ok r ∧ p.Fits r ∧
      byteOf f'.image = (patchOf r p.raw).put (byteOf f.image) := by
  cases hr : layout.region (some name) with
  | error e =>
    cases p with
    | bytes data => simp only [writePayload, SpatialFrame.writeBytes, hr] at h; cases h
    | json v =>
      simp only [writePayload, SpatialFrame.writeJson, SpatialFrame.writeBytes, hr] at h
      split at h <;> cases h
  | ok r =>
    refine ⟨r, rfl, ?_⟩
    cases p with
    | bytes data =>
      simp only [writePayload, SpatialFrame.writeBytes, hr] at h
      split at h
      · cases h
      · cases h
        have hfit : data.length ≤ r.capacityBytes := by omega
        exact ⟨hfit, byteOf_withBlock f.image hfit⟩
    | json v =>
      rw [writePayload, SpatialFrame.writeJson_eq f hr] at h
      split at h
      · cases h
      split at h
      · cases h
      · cases h
        have henc := SpatialFrame.length_encoded v.1
        exact ⟨⟨by omega, by omega⟩, byteOf_withBlock f.image (by omega)⟩

theorem writePayloads_overlay {es : List (String × Payload)} (h : writePayloads es f = .ok f') :
    byteOf f'.image = overlay (byteOf f.image) (es.map (patch layout)) ∧
      ∀ e ∈ es, ∃ r, layout.region (some e.1) = .ok r ∧ e.2.Fits r := by
  induction es generalizing f with
  | nil =>
    cases h
    exact ⟨rfl, fun _ hm => nomatch hm⟩
  | cons e es ih =>
    obtain ⟨g, hw, h⟩ := except_bind_ok h
    obtain ⟨r, hr, hfit, hg⟩ := writePayload_ok hw
    obtain ⟨hf, hes⟩ := ih h
    have hpatch : patch layout e = patchOf r e.2.raw := by
      funext s
      simp only [patch, hr]
    refine ⟨?_, List.forall_mem_cons.mpr ⟨⟨r, hr, hfit⟩, hes⟩⟩
    rw [hf, hg, ← hpatch]
    rfl

/-- What there is to know of a frame that `compile` returns. -/
theorem compile_ok {program : Program} {payloads : Dict String Payload} (h : compile m layout program payloads = .ok f) :
    (expand program).length ≤ layout.executionRows ∧ columns (expand program) ≤ layout.width ∧
      (∀ row ∈ expand program, ∀ instr ∈ row, SpatialFrame.InChannels (parseOne m instr)) ∧
      byteOf f.image = overlay (programByte m program) (payloads.entries.map (patch layout)) ∧
      ∀ e ∈ payloads.entries, ∃ r, layout.region (some e.1) = .ok r ∧ e.2.Fits r := by
  unfold compile at h
  simp only at h
  split at h
  · cases h
  rename_i hrows
  split at h
  · cases h
  rename_i hcols
  split at h
  · cases h
  rename_i g hg
  split at h
  · cases h
  rename_i f' hf
  cases h
  obtain ⟨hin, hpx⟩ := writeRows_ok hg
  obtain ⟨hbytes, hregions⟩ := writePayloads_overlay hf
  have hprogram : byteOf g.image = programByte m program := by
    funext s
    simp only [byteOf, hpx, Nat.zero_le, if_true, Nat.sub_zero]
    rfl
  exact ⟨Nat.le_of_not_lt hrows, Nat.le_of_not_lt hcols, hin, by rw [hbytes, hprogram], hregions⟩

end SpatialCompiler

end PyxelVM.Spatial
