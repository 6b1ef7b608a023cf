/-
  PyxelVM.Spatial.Frame — `SpatialFrame` (`zdx_spatial_frame.py`): a region's bytes, and
  the JSON value it holds.

  A frame is an image of its layout's size. `read_bytes` and `write_bytes` take the cells
  of a region row by row, three bytes a cell; `write_json` puts a header of four bytes
  and the payload at the region's start, whatever longer payload was there.

  - `block_withBlock`: the bytes put back are the region's bytes.
  - `outside_unchanged`: the cells outside it are as before.
  - `readJson_written`: the value written is read back.
-/

import PyxelVM.Lib.Bytes
import PyxelVM.Lib.JsonRoundTrip
import PyxelVM.Spatial.Layout
import PyxelVM.Vm.Machine

namespace PyxelVM.Spatial

open PyxelVM.Lib
open PyxelVM.Vm

/-! ## Regions as bytes -/

def channel (p : Pixel) : Nat → UInt8
  | 0 => p.r
  | 1 => p.g
  | _ => p.b

/-- Byte `i` of the region, its rows one after another. -/
def byteAt (img : Raster) (r : SpatialRegion) (i : Nat) : UInt8 :=
  channel (img.px (r.y + i / 3 / r.width) (r.x + i / 3 % r.width)) (i % 3)

/-- `arr[y : y + height, x : x + width, :].reshape(-1)`. -/
def block (img : Raster) (r : SpatialRegion) : List UInt8 := (List.range r.capacityBytes).map (byteAt img r)

/-- The image with `flat.reshape(height, width, 3)` in the region. -/
def withBlock (img : Raster) (r : SpatialRegion) (flat : List UInt8) : Raster :=
  { img with
    px := fun y x =>
      if r.contains x y then
        let i := ((y - r.y) * r.width + (x - r.x)) * 3
        ⟨flat.getD i 0, flat.getD (i + 1) 0, flat.getD (i + 2) 0⟩
      else img.px y x }

variable {img : Raster} {r : SpatialRegion}

@[simp] theorem length_block (img : Raster) (r : SpatialRegion) : (block img r).length = r.capacityBytes := by simp [block]

theorem contains_iff {x y : Nat} : r.contains x y = true ↔ r.x ≤ x ∧ x < r.x + r.width ∧ r.y ≤ y ∧ y < r.y + r.height := by
  simp only [SpatialRegion.contains, Bool.and_eq_true, decide_eq_true_eq]
  omega

theorem outside_unchanged {x y : Nat} (h : r.contains x y = false) (flat : List UInt8) :
    (withBlock img r flat).px y x = img.px y x := by
  simp [withBlock, h]

/-- Byte `i` is in the region, and where it is. -/
theorem cell_of_byte {i : Nat} (h : i < r.capacityBytes) : r.contains ↑(r.x + i / 3 % r.width) ↑(r.y + i / 3 / r.width) = true := by
  have hc : i / 3 < r.width * r.height := by
    have : i < r.width * r.height * 3 := h
    omega
  have hw : 0 < r.width := Nat.pos_of_ne_zero fun e => by rw [e, Nat.zero_mul] at hc; omega
  have hx := Nat.mod_lt (i / 3) hw
  have hy : i / 3 / r.width < r.height := Nat.div_lt_of_lt_mul hc
  generalize i / 3 / r.width = row at hy
  generalize i / 3 % r.width = column at hx
  rw [contains_iff]
  omega

theorem byteAt_withBlock {flat : List UInt8} {i : Nat} (h : i < r.capacityBytes) :
    byteAt (withBlock img r flat) r i = flat.getD i 0 := by
  have hcell : (i / 3 / r.width * r.width + i / 3 % r.width) * 3 = i / 3 * 3 := by rw [Nat.div_add_mod']
  simp only [byteAt, withBlock, cell_of_byte h, if_true, Nat.add_sub_cancel_left, hcell]
  have hm : i % 3 = 0 ∨ i % 3 = 1 ∨ i % 3 = 2 := by omega
  rcases hm with e | e | e
  · have hi : i / 3 * 3 = i := by omega
    rw [e, hi]; rfl
  · have hi : i / 3 * 3 + 1 = i := by omega
    rw [e, hi]; rfl
  · have hi : i / 3 * 3 + 2 = i := by omega
    rw [e, hi]; rfl

theorem block_withBlock {flat : List UInt8} (h : flat.length = r.capacityBytes) : block (withBlock img r flat) r = flat := by
  apply List.ext_getElem (by simp [h])
  intro i hi _
  have hi' : i < r.capacityBytes := by simpa using hi
  simp only [block, List.getElem_map, List.getElem_range, byteAt_withBlock hi']
  rw [List.getD_eq_getElem?_getD, List.getElem?_eq_getElem (by omega), Option.getD_some]

theorem getElem?_block {i : Nat} (h : i < r.capacityBytes) : (block img r)[i]? = some (byteAt img r i) := by
  rw [block, List.getElem?_map, List.getElem?_range h, Option.map_some]

theorem slice_one {i : Nat} (h : i < r.capacityBytes) : slice (block img r) i 1 = [byteAt img r i] := by
  have hl : (slice (block img r) i 1).length = 1 := length_slice (by rw [length_block]; omega)
  apply List.ext_getElem?
  intro j
  rcases Nat.eq_zero_or_pos j with rfl | hj
  · rw [slice, List.getElem?_take_of_lt Nat.one_pos, List.getElem?_drop, Nat.add_zero, getElem?_block h]
    rfl
  · rw [List.getElem?_eq_none (by omega), List.getElem?_eq_none (by rw [List.length_singleton]; omega)]

/-- What the region holds depends on its cells only. -/
theorem block_local {img' : Raster} (h : ∀ x y : Nat, r.contains x y = true → img'.px y x = img.px y x) :
    block img' r = block img r := by
  apply List.map_congr_left
  intro i hi
  rw [byteAt, byteAt, h _ _ (cell_of_byte (List.mem_range.mp hi))]

/-- A byte after a write: one of those written, or the byte it was. -/
theorem byteAt_written (img : Raster) {data : List UInt8} {offset : Nat} (hfit : offset + data.length ≤ r.capacityBytes) {i : Nat}
    (hi : i < r.capacityBytes) :
    some (byteAt (withBlock img r (splice (block img r) offset data)) r i) =
      if offset ≤ i ∧ i < offset + data.length then data[i - offset]? else some (byteAt img r i) := by
  have hlen : (splice (block img r) offset data).length = r.capacityBytes := by
    rw [length_splice (by rwa [length_block]), length_block]
  rw [← getElem?_block hi, block_withBlock hlen, getElem?_splice (by rwa [length_block]), getElem?_block hi]

/-! ## Frames -/

structure SpatialFrame (layout : SpatialLayout) where
  image : Raster
  size : image.width = layout.width ∧ image.height = layout.height

inductive FrameError where
  | region (e : SpatialLayout.RegionError)
  | read
  | write (length : Nat) (offset : Int) (name : String) (capacity : Nat)
  | overflow
  | tooSmall
  | declared (length capacity : Nat)
  | corrupt
  deriving DecidableEq, Repr

/-- The exception's text; `repr` is Python's of a string, `exc` the text of what the reader of JSON raised. -/
def FrameError.message (repr : String → String) (exc : String) : FrameError → String
  | .region .noStorage => "layout has no storage rows"
  | .region (.unknown name) => s!"unknown spatial region: {name}"
  | .read => "spatial byte read exceeds region capacity"
  | .write length offset name capacity =>
    s!"payload of {length} bytes at offset {offset} exceeds region {repr name} capacity {capacity}"
  | .overflow => "int too big to convert"
  | .tooSmall => "spatial region is too small for a JSON length header"
  | .declared length capacity => s!"declared spatial JSON payload length {length} exceeds region capacity {capacity}"
  | .corrupt => s!"corrupt spatial JSON payload: {exc}"

namespace SpatialFrame

variable {layout : SpatialLayout}

def blank (layout : SpatialLayout) : SpatialFrame layout := ⟨⟨layout.width, layout.height, fun _ _ => .nop⟩, rfl, rfl⟩

/-- `SpatialFrame.open`. -/
def openAt (layout : SpatialLayout) (files : String → File) (path : String) : Except Raised (SpatialFrame layout) :=
  match files path with
  | .missing => .error (.noFile path)
  | .notImage => .error (.noImage path)
  | .image img =>
    if h : img.width = layout.width ∧ img.height = layout.height then .ok ⟨img, h⟩
    else .error (.frameSize (img.width, img.height) (layout.width, layout.height))

def readBytes (f : SpatialFrame layout) (length : Int) (region : Option String) (offset : Int) :
    Except FrameError (List UInt8) :=
  match layout.region region with
  | .error e => .error (.region e)
  | .ok r =>
    if length < 0 ∨ offset < 0 ∨ offset + length > r.capacityBytes then .error .read
    else .ok (slice (block f.image r) offset.toNat length.toNat)

def writeBytes (f : SpatialFrame layout) (data : List UInt8) (region : Option String) (offset : Int) :
    Except FrameError (SpatialFrame layout) :=
  match layout.region region with
  | .error e => .error (.region e)
  | .ok r =>
    if offset < 0 ∨ offset + data.length > r.capacityBytes then .error (.write data.length offset r.name r.capacityBytes)
    else .ok ⟨withBlock f.image r (splice (block f.image r) offset.toNat data), f.size⟩

def writeJson (f : SpatialFrame layout) (obj : Json) (region : Option String) : Except FrameError (SpatialFrame layout) :=
  let payload := obj.dumps false
  match toBytes 4 payload.length with
  | none => .error .overflow
  | some header => f.writeBytes (header ++ payload) region 0

/-- `read_json`, where Python's None is `null`. -/
def readJson (f : SpatialFrame layout) (region : Option String) : Except FrameError Json :=
  match layout.region region with
  | .error e => .error (.region e)
  | .ok r =>
    if r.capacityBytes < 4 then .error .tooSmall
    else do
      let header ← f.readBytes 4 region 0
      let length := fromBytes header
      if length = 0 then return .null
      if length > r.capacityBytes - 4 then throw (.declared length (r.capacityBytes - 4))
      let payload ← f.readBytes length region 4
      match Json.loads payload with
      | some v => return v
      | none => throw .corrupt

/-- `read_json` with any reader in the place of `json.loads`. -/
def readJsonBy (loads : List UInt8 → Option Json) (f : SpatialFrame layout) (region : Option String) : Except FrameError Json :=
  match layout.region region with
  | .error e => .error (.region e)
  | .ok r =>
    if r.capacityBytes < 4 then .error .tooSmall
    else do
      let header ← f.readBytes 4 region 0
      let length := fromBytes header
      if length = 0 then return .null
      if length > r.capacityBytes - 4 then throw (.declared length (r.capacityBytes - 4))
      let payload ← f.readBytes length region 4
      match loads payload with
      | some v => return v
      | none => throw .corrupt

/-! ## What is written is read -/

variable {region : Option String}

theorem openAt_image {files : String → File} {path : String} {img : Raster} (hf : files path = .image img)
    (hs : img.width = layout.width ∧ img.height = layout.height) : openAt layout files path = .ok ⟨img, hs⟩ := by
  simp only [openAt, hf, dif_pos hs]

theorem readBytes_inside (f : SpatialFrame layout) (hr : layout.region region = .ok r) {n i : Nat}
    (h : i + n ≤ r.capacityBytes) : f.readBytes n region i = .ok (slice (block f.image r) i n) := by
  have hc : ¬((n : Int) < 0 ∨ (i : Int) < 0 ∨ (i : Int) + n > r.capacityBytes) := by omega
  simp only [readBytes, hr, if_neg hc, Int.toNat_natCast]

/-- The encoded value fits the region, and its length the header. -/
def Fits (r : SpatialRegion) (v : Json) : Prop :=
  4 + (v.dumps false).length ≤ r.capacityBytes ∧ (v.dumps false).length < 2 ^ 32

instance (r : SpatialRegion) (v : Json) : Decidable (Fits r v) := inferInstanceAs (Decidable (_ ∧ _))

/-- The bytes `write_json` puts at the region's start. -/
def encoded (v : Json) : List UInt8 := bigEndian 4 (v.dumps false).length ++ v.dumps false

theorem length_encoded (v : Json) : (encoded v).length = 4 + (v.dumps false).length := by simp [encoded]

theorem writeJson_eq (f : SpatialFrame layout) (hr : layout.region region = .ok r) (v : Json) :
    f.writeJson v region =
      if 2 ^ 32 ≤ (v.dumps false).length then .error .overflow
      else if r.capacityBytes < 4 + (v.dumps false).length then
        .error (.write (4 + (v.dumps false).length) 0 r.name r.capacityBytes)
      else .ok ⟨withBlock f.image r (splice (block f.image r) 0 (encoded v)), f.size⟩ := by
  by_cases hlen : 2 ^ 32 ≤ (v.dumps false).length
  · have hb : toBytes 4 (v.dumps false).length = none := if_neg (by omega)
    rw [if_pos hlen]
    simp only [writeJson, hb]
  · have hb : toBytes 4 (v.dumps false).length = some (bigEndian 4 (v.dumps false).length) := if_pos (by omega)
    rw [if_neg hlen]
    simp only [writeJson, hb, writeBytes, hr]
    have henc := length_encoded v
    unfold encoded at henc
    rw [henc]
    by_cases hcap : r.capacityBytes < 4 + (v.dumps false).length
    · rw [if_pos hcap, if_pos (by omega)]
    · rw [if_neg hcap, if_neg (by omega)]
      rfl

/-- `write_json` raises exactly where the value does not fit. -/
theorem writeJson_raises_iff (f : SpatialFrame layout) (hr : layout.region region = .ok r) (v : Json) :
    (∃ e, f.writeJson v region = .error e) ↔ ¬Fits r v := by
  rw [writeJson_eq f hr, Fits]
  split
  · exact ⟨fun _ h => by omega, fun _ => ⟨_, rfl⟩⟩
  split
  · exact ⟨fun _ h => by omega, fun _ => ⟨_, rfl⟩⟩
  · exact ⟨fun ⟨e, h⟩ => (nomatch h), fun h => absurd ⟨by omega, by omega⟩ h⟩

theorem readJson_eq_by (f : SpatialFrame layout) (region : Option String) : f.readJson region = f.readJsonBy Json.loads region := rfl

/-- The length in the region's header. -/
def header (f : SpatialFrame layout) (r : SpatialRegion) : Nat := fromBytes (slice (block f.image r) 0 4)

/-- All that reading does: the header, and as many bytes after it as it says. -/
theorem readJsonBy_eq (loads : List UInt8 → Option Json) (f : SpatialFrame layout) (hr : layout.region region = .ok r)
    (h4 : 4 ≤ r.capacityBytes) : f.readJsonBy loads region =
      if f.header r = 0 then .ok .null
      else if f.header r > r.capacityBytes - 4 then .error (.declared (f.header r) (r.capacityBytes - 4))
      else match loads (slice (block f.image r) 4 (f.header r)) with
        | some v => .ok v
        | none => .error .corrupt := by
  have hheader : f.readBytes 4 region 0 = .ok (slice (block f.image r) 0 4) := f.readBytes_inside hr (n := 4) (i := 0) (by omega)
  have ht : ¬r.capacityBytes < 4 := by omega
  have hn : fromBytes (slice (block f.image r) 0 4) = f.header r := rfl
  simp only [readJsonBy, hr, if_neg ht, hheader, bind, Except.bind, hn]
  by_cases h0 : f.header r = 0
  · rw [if_pos h0, if_pos h0]
    rfl
  by_cases hc : f.header r > r.capacityBytes - 4
  · rw [if_neg h0, if_neg h0, if_pos hc, if_pos hc]
    rfl
  · have hpayload : f.readBytes (f.header r) region 4 = .ok (slice (block f.image r) 4 (f.header r)) :=
      f.readBytes_inside hr (n := f.header r) (i := 4) (by omega)
    rw [if_neg h0, if_neg h0, if_neg hc, if_neg hc]
    simp only [hpayload]
    cases loads (slice (block f.image r) 4 (f.header r)) <;> rfl

/-- A header and a text after it, whoever wrote them. -/
theorem readJson_framed (f : SpatialFrame layout) (hr : layout.region region = .ok r) {text : List UInt8}
    (hlen : text.length < 2 ^ 32) (hcap : 4 + text.length ≤ r.capacityBytes)
    (hb : slice (block f.image r) 0 (4 + text.length) = bigEndian 4 text.length ++ text) :
    f.readJson region =
      if text = [] then .ok .null
      else match Json.loads text with
        | some v => .ok v
        | none => .error .corrupt := by
  rw [slice_add, Nat.zero_add] at hb
  have hl4 : (slice (block f.image r) 0 4).length = (bigEndian 4 text.length).length := by
    rw [length_slice (by rw [length_block]; omega), length_bigEndian]
  obtain ⟨hbytes, htext⟩ := List.append_inj hb hl4
  have hheader : f.header r = text.length := by rw [header, hbytes, fromBytes_bigEndian (w := 4) hlen]
  have hc : ¬text.length > r.capacityBytes - 4 := by omega
  rw [readJson_eq_by, readJsonBy_eq Json.loads f hr (by omega), hheader, htext, if_neg hc]
  simp only [List.length_eq_zero_iff]

/-- The text is one of the value; no text at all is Python's None. -/
def Spells (text : List UInt8) (v : Json) : Prop := if text = [] then v = .null else Json.loads text = some v

theorem framed_ok_iff {text : List UInt8} {v : Json} :
    (if text = [] then (.ok .null : Except FrameError Json)
      else match Json.loads text with
        | some v => .ok v
        | none => .error .corrupt) = .ok v ↔ Spells text v := by
  unfold Spells
  split
  · rw [Except.ok.injEq, eq_comm]
  · cases Json.loads text <;> simp

/-- `read_json` gives the value exactly when the region begins with a header and a text of it. -/
theorem readJson_ok_iff (f : SpatialFrame layout) (hr : layout.region region = .ok r) {v : Json} :
    f.readJson region = .ok v ↔ ∃ text, Spells text v ∧ text.length < 2 ^ 32 ∧ 4 + text.length ≤ r.capacityBytes ∧
      slice (block f.image r) 0 (4 + text.length) = bigEndian 4 text.length ++ text := by
  constructor
  · intro h
    have ht : ¬r.capacityBytes < 4 := by
      intro ht
      simp only [readJson, hr, if_pos ht] at h
      cases h
    have hl4 : (slice (block f.image r) 0 4).length = 4 := length_slice (by rw [length_block]; omega)
    have hlt : f.header r < 256 ^ 4 := hl4 ▸ fromBytes_lt (slice (block f.image r) 0 4)
    have hbig : bigEndian 4 (f.header r) = slice (block f.image r) 0 4 := by
      have hbytes := bigEndian_fromBytes (slice (block f.image r) 0 4)
      rwa [hl4] at hbytes
    have hc : ¬f.header r > r.capacityBytes - 4 := by
      intro hc
      rw [readJson_eq_by, readJsonBy_eq Json.loads f hr (by omega), if_neg (by omega), if_pos hc] at h
      cases h
    have hlen : (slice (block f.image r) 4 (f.header r)).length = f.header r := length_slice (by rw [length_block]; omega)
    have hb : slice (block f.image r) 0 (4 + f.header r) = bigEndian 4 (f.header r) ++ slice (block f.image r) 4 (f.header r) := by
      rw [slice_add, hbig]
    refine ⟨slice (block f.image r) 4 (f.header r), ?_, by omega, by omega, by rw [hlen, hb]⟩
    have hframed := readJson_framed f hr (by rw [hlen]; omega) (by rw [hlen]; omega) (by rw [hlen, hb])
    rwa [hframed, framed_ok_iff] at h
  · rintro ⟨text, hs, hlen, hcap, hb⟩
    rwa [readJson_framed f hr hlen hcap hb, framed_ok_iff]

theorem readJson_encoded (f : SpatialFrame layout) (hr : layout.region region = .ok r) {v : Json} (hv : v.Normal)
    (hfit : Fits r v) (hb : slice (block f.image r) 0 (4 + (v.dumps false).length) = encoded v) :
    f.readJson region = .ok v := by
  have hspells : Spells (v.dumps false) v := by rw [Spells, if_neg (Json.dumps_ne_nil false hv), Json.loads_dumps false hv]
  exact (readJson_ok_iff f hr).mpr ⟨_, hspells, hfit.2, hfit.1, hb⟩

/-- A region that begins with a header of zeros holds nothing. -/
theorem readJson_zeros (f : SpatialFrame layout) (hr : layout.region region = .ok r) (h : 4 ≤ r.capacityBytes)
    (hb : slice (block f.image r) 0 4 = List.replicate 4 0) : f.readJson region = .ok .null :=
  (readJson_ok_iff f hr).mpr ⟨[], by simp [Spells], by decide, h, hb⟩

/-- What `write_json` leaves: the value is read back from the region, and no cell outside it has changed. -/
theorem writeJson_done (f : SpatialFrame layout) (hr : layout.region region = .ok r) {v : Json} (hv : v.Normal)
    (hfit : Fits r v) : ∃ f', f.writeJson v region = .ok f' ∧ f'.readJson region = .ok v ∧
      ∀ x y : Nat, r.contains x y = false → f'.image.px y x = f.image.px y x := by
  have hlen := length_encoded v
  have hin : 0 + (encoded v).length ≤ (block f.image r).length := by rw [length_block, hlen]; have := hfit.1; omega
  have h1 : ¬2 ^ 32 ≤ (v.dumps false).length := by have := hfit.2; omega
  have h2 : ¬r.capacityBytes < 4 + (v.dumps false).length := by have := hfit.1; omega
  refine ⟨_, by rw [writeJson_eq f hr, if_neg h1, if_neg h2], readJson_encoded _ hr hv hfit ?_,
    fun x y h => outside_unchanged h _⟩
  rw [block_withBlock (by rw [length_splice hin, length_block]), ← hlen, slice_splice hin]

end SpatialFrame

end PyxelVM.Spatial
