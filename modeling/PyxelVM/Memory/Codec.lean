/-
  PyxelVM.Memory.Codec — `zdx_pixel_memory/codec.py`: a JSON value as a PNG of its own.

  The image is 64 pixels wide: four bytes for the payload's length, the payload, zeros
  to the end of the last row. Decoding gives back the value, and of any other image
  either raises or parses the bytes its header declares (`codec_round_trip`).
-/

import Mathlib.Order.Bounds.Basic
import PyxelVM.Spatial.Frame

namespace PyxelVM.Memory

open PyxelVM.Lib
open PyxelVM.Spatial (block block_withBlock length_block withBlock SpatialRegion)
open PyxelVM.Vm (Raster)

namespace Codec

/-- `_WIDTH`. -/
def width : Nat := 64

/-- The image as one region. -/
def whole (width height : Nat) : SpatialRegion := ⟨"", 0, 0, width, height, "data"⟩

/-- `np.array(img).reshape(-1, 3).tobytes()`. -/
def rasterBytes (img : Raster) : List UInt8 := block img (whole img.width img.height)

/-- The image whose bytes these are. -/
def rasterOf (width height : Nat) (bytes : List UInt8) : Raster :=
  withBlock ⟨width, height, fun _ _ => .nop⟩ (whole width height) bytes

def zeros (n : Nat) : List UInt8 := List.replicate n 0

/-- To whole pixels. -/
def padPixels (raw : List UInt8) : List UInt8 := raw ++ zeros ((3 - raw.length % 3) % 3)

/-- `math.ceil(pixels / _WIDTH)`. -/
def rows (pixels : Nat) : Nat := (pixels + 63) / width

/-- Whole pixels, to whole rows. -/
def padRows (raw : List UInt8) : List UInt8 := raw ++ zeros ((width * rows (raw.length / 3) - raw.length / 3) * 3)

/-- Nothing where the payload's length does not fit its header. -/
def encode (obj : Json) : Option Raster :=
  let payload := obj.dumps true
  (toBytes 4 payload.length).map fun header =>
    let raw := padPixels (header ++ payload)
    rasterOf width (rows (raw.length / 3)) (padRows raw)

theorem encode_isSome_iff {v : Json} : (encode v).isSome ↔ (v.dumps true).length < 2 ^ 32 := by
  simp [encode, toBytes]

inductive DecodeError where
  | tooSmall
  | declared (length available : Nat)
  | corrupt
  deriving DecidableEq, Repr

/-- The ValueError's text; `exc` is the text of what the reader of JSON raised. -/
def DecodeError.message (exc : String) : DecodeError → String
  | .tooSmall => "codec.decode: image too small to contain a length header"
  | .declared length available =>
    s!"codec.decode: declared payload length {length} exceeds available data ({available} bytes)"
  | .corrupt => s!"codec.decode: corrupt payload — {exc}"

def decode (img : Raster) : Except DecodeError Json :=
  let raw := rasterBytes img
  if raw.length < 4 then .error .tooSmall
  else
    let length := fromBytes (slice raw 0 4)
    if raw.length < 4 + length then .error (.declared length (raw.length - 4))
    else
      match Json.loads (slice raw 4 length) with
      | some v => .ok v
      | none => .error .corrupt

theorem rasterBytes_rasterOf {width height : Nat} {bytes : List UInt8} (h : bytes.length = width * height * 3) :
    rasterBytes (rasterOf width height bytes) = bytes := block_withBlock h

/-- Decoding looks at no byte past the payload. -/
theorem decode_prefix {img : Raster} {v : Json} {payload : List UInt8} (hlen : payload.length < 2 ^ 32)
    (hb : bigEndian 4 payload.length ++ payload <+: rasterBytes img) (hv : Json.loads payload = some v) :
    decode img = .ok v := by
  obtain ⟨rest, hb⟩ := hb
  have hn : (rasterBytes img).length = 4 + payload.length + rest.length := by
    rw [← hb, List.length_append, List.length_append, length_bigEndian]
  have hheader : slice (rasterBytes img) 0 4 = bigEndian 4 payload.length := by
    rw [← hb, List.append_assoc]
    exact List.take_left' (length_bigEndian 4 _)
  have hpayload : slice (rasterBytes img) 4 payload.length = payload := by
    rw [← hb, List.append_assoc, slice, List.drop_left' (length_bigEndian 4 _), List.take_left' rfl]
  have h1 : ¬(rasterBytes img).length < 4 := by omega
  have h2 : ¬(rasterBytes img).length < 4 + payload.length := by omega
  simp only [decode, if_neg h1, hheader, fromBytes_bigEndian (w := 4) hlen, if_neg h2, hpayload, hv]

theorem length_padPixels (raw : List UInt8) : (padPixels raw).length % 3 = 0 := by
  simp only [padPixels, zeros, List.length_append, List.length_replicate]
  omega

theorem length_padRows {raw : List UInt8} (h : raw.length % 3 = 0) :
    (padRows raw).length = width * rows (raw.length / 3) * 3 := by
  simp only [padRows, zeros, List.length_append, List.length_replicate, rows, width]
  omega

theorem zeros_append (m n : Nat) : zeros m ++ zeros n = zeros (m + n) := List.replicate_append_replicate

/-- The image of a value: its width and height, and the header, the payload and zeros. -/
theorem encode_some {v : Json} {img : Raster} (h : encode v = some img) : (v.dumps true).length < 2 ^ 32 ∧
    img.width = width ∧ img.height = rows ((4 + (v.dumps true).length + 2) / 3) ∧
      ∃ n, rasterBytes img = bigEndian 4 (v.dumps true).length ++ v.dumps true ++ zeros n := by
  by_cases hlen : (v.dumps true).length < 2 ^ 32
  · have hb : toBytes 4 (v.dumps true).length = some (bigEndian 4 (v.dumps true).length) := if_pos hlen
    simp only [encode, hb, Option.map_some, Option.some_inj] at h
    subst h
    generalize hraw : padPixels (bigEndian 4 (v.dumps true).length ++ v.dumps true) = raw
    have h3 : raw.length % 3 = 0 := by rw [← hraw]; exact length_padPixels _
    have hpixels : raw.length / 3 = (4 + (v.dumps true).length + 2) / 3 := by
      rw [← hraw]
      simp only [padPixels, zeros, List.length_append, List.length_replicate, length_bigEndian]
      omega
    refine ⟨hlen, rfl, congrArg rows hpixels, ?_⟩
    rw [rasterBytes_rasterOf (length_padRows h3), padRows]
    generalize width * rows (raw.length / 3) - raw.length / 3 = missing
    rw [← hraw, padPixels, List.append_assoc _ (zeros _), zeros_append]
    exact ⟨_, rfl⟩
  · have hb : toBytes 4 (v.dumps true).length = none := if_neg hlen
    simp only [encode, hb, Option.map_none] at h
    cases h

theorem decode_encode {v : Json} (hv : v.Normal) {img : Raster} (h : encode v = some img) : decode img = .ok v := by
  obtain ⟨hlen, -, -, n, hb⟩ := encode_some h
  exact decode_prefix hlen ⟨zeros n, hb.symm⟩ (Json.loads_dumps true hv)

/-! ## Every image -/

/-- `decode` with any reader in the place of `json.loads`. -/
def decodeBy (loads : List UInt8 → Option Json) (img : Raster) : Except DecodeError Json :=
  let raw := rasterBytes img
  if raw.length < 4 then .error .tooSmall
  else
    let length := fromBytes (slice raw 0 4)
    if raw.length < 4 + length then .error (.declared length (raw.length - 4))
    else
      match loads (slice raw 4 length) with
      | some v => .ok v
      | none => .error .corrupt

/-- The payload's length, as the image declares it. -/
def header (img : Raster) : Nat := fromBytes (slice (rasterBytes img) 0 4)

/-- The image of a value, of the fewest rows that have room for it. -/
structure Holds (v : Json) (img : Raster) : Prop where
  decoded : decode img = .ok v
  width : img.width = 64
  height : IsLeast {h | 4 + (v.dumps true).length ≤ 64 * h * 3} img.height
  bytes : ∃ n, rasterBytes img = bigEndian 4 (v.dumps true).length ++ v.dumps true ++ zeros n
  padding : ∀ img', (rasterBytes img').take (4 + (v.dumps true).length) = (rasterBytes img).take (4 + (v.dumps true).length) →
    decode img' = .ok v

theorem rows_least (n : Nat) : IsLeast {h | n ≤ 64 * h * 3} (rows ((n + 2) / 3)) := by
  constructor
  · simp only [Set.mem_ofPred_eq, rows, width]
    omega
  · intro h hn
    simp only [Set.mem_ofPred_eq] at hn
    simp only [rows, width]
    omega

theorem encode_holds {v : Json} (hv : v.Normal) {img : Raster} (h : encode v = some img) : Holds v img := by
  obtain ⟨hlen, hwidth, hheight, n, hb⟩ := encode_some h
  refine ⟨decode_encode hv h, hwidth, hheight ▸ rows_least _, ⟨n, hb⟩, ?_⟩
  intro img' htake
  have hframe : (bigEndian 4 (v.dumps true).length ++ v.dumps true).length = 4 + (v.dumps true).length := by
    rw [List.length_append, length_bigEndian]
  rw [hb, List.take_left' hframe] at htake
  exact decode_prefix hlen (htake ▸ List.take_prefix _ _) (Json.loads_dumps true hv)

/-- An error, or what the reader makes of the bytes the header declares. -/
theorem decodeBy_cases (loads : List UInt8 → Option Json) (img : Raster) : (∃ e, decodeBy loads img = .error e) ∨
    ∃ v, decodeBy loads img = .ok v ∧ 4 + header img ≤ (rasterBytes img).length ∧
      loads (slice (rasterBytes img) 4 (header img)) = some v := by
  simp only [decodeBy, header]
  split
  · exact .inl ⟨_, rfl⟩
  split
  · exact .inl ⟨_, rfl⟩
  rename_i hn
  split
  · rename_i v hv
    exact .inr ⟨v, rfl, Nat.le_of_not_lt hn, hv⟩
  · exact .inl ⟨_, rfl⟩

/-- Every value comes back from an image of the least height, and no image is read past its end. -/
theorem codec_round_trip :
    (∀ v : Json, v.Normal → (v.dumps true).length < 2 ^ 32 → ∃ img, encode v = some img ∧ Holds v img) ∧
      (∀ img, decode img = decodeBy Json.loads img) ∧
      ∀ (loads : List UInt8 → Option Json) (img : Raster), (∃ e, decodeBy loads img = .error e) ∨
        ∃ v, decodeBy loads img = .ok v ∧ 4 + header img ≤ (rasterBytes img).length ∧
          loads (slice (rasterBytes img) 4 (header img)) = some v := by
  refine ⟨?_, fun img => rfl, decodeBy_cases⟩
  intro v hv hlen
  obtain ⟨img, himg⟩ := Option.isSome_iff_exists.mp (encode_isSome_iff.mpr hlen)
  exact ⟨img, himg, encode_holds hv himg⟩

end Codec

end PyxelVM.Memory
