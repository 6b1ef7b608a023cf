/-
  PyxelVM.Spatial.Access — cells and bytes of one frame (`zdx_spatial_frame.py`).

  `read_cell`, `write_cell` and the 24-bit pair go by coordinates, `read_bytes` and
  `write_bytes` by a region and an offset, `address` and `coordinates` by a number for
  each cell. A cell of a region is three bytes of it, whichever way it is written
  (`views_agree`).
-/

import PyxelVM.Spatial.Writes

namespace PyxelVM.Spatial

open PyxelVM.Lib
open PyxelVM.Vm
open PyxelVM.Compiler (pixelOf clamp clamp_of_byte)

/-! ## Addresses -/

/-- The address that `coordinates` was given. -/
structure AddressError where
  address : Int
  deriving DecidableEq, Repr

def AddressError.message (e : AddressError) : String := s!"spatial address out of range: {e.address}"

namespace SpatialLayout

def address (l : SpatialLayout) (x y : Int) : Except CellError Int :=
  match SpatialFrame.checkCoordinate l x y with
  | .error e => .error e
  | .ok () => .ok (y * l.width + x)

def coordinates (l : SpatialLayout) (address : Int) : Except AddressError (Int × Int) :=
  if 0 ≤ address ∧ address < l.totalCells then .ok (address % l.width, address / l.width) else .error ⟨address⟩

end SpatialLayout

section

variable {layout : SpatialLayout}

theorem checkCoordinate_ok_iff {x y : Int} :
    SpatialFrame.checkCoordinate layout x y = .ok () ↔ 0 ≤ x ∧ x < layout.width ∧ 0 ≤ y ∧ y < layout.height := by
  unfold SpatialFrame.checkCoordinate
  split
  · rename_i h
    exact ⟨fun _ => h, fun _ => rfl⟩
  · rename_i h
    exact ⟨fun e => (nomatch e), fun e => absurd e h⟩

theorem address_ok_iff {x y a : Int} :
    layout.address x y = .ok a ↔ (0 ≤ x ∧ x < layout.width ∧ 0 ≤ y ∧ y < layout.height) ∧ y * layout.width + x = a := by
  rw [← checkCoordinate_ok_iff, SpatialLayout.address]
  cases SpatialFrame.checkCoordinate layout x y with
  | error e => simp
  | ok u => simp

theorem coordinates_ok_iff {x y a : Int} : layout.coordinates a = .ok (x, y) ↔
    (0 ≤ a ∧ a < layout.totalCells) ∧ a % layout.width = x ∧ a / layout.width = y := by
  unfold SpatialLayout.coordinates
  split <;> simp_all

/-- The number of a cell, row by row, and the cell of a number. -/
theorem address_coordinates {x y a : Int} : layout.address x y = .ok a ↔ layout.coordinates a = .ok (x, y) := by
  rw [address_ok_iff, coordinates_ok_iff]
  have hw : (0 : Int) < layout.width := by have := layout.width_pos; omega
  have hcells : (layout.totalCells : Int) = layout.height * layout.width := by
    rw [SpatialLayout.totalCells, Int.natCast_mul, Int.mul_comm]
  rw [hcells]
  constructor
  · intro h
    rcases h with ⟨⟨hx, hx', hy, hy'⟩, rfl⟩
    have hrow : 0 ≤ y * layout.width := Int.mul_nonneg hy (by omega)
    have hlast : (y + 1) * layout.width ≤ layout.height * layout.width := Int.mul_le_mul_of_nonneg_right (by omega) (by omega)
    rw [Int.add_mul, Int.one_mul] at hlast
    refine ⟨⟨by omega, by omega⟩, ?_, ?_⟩
    · rw [Int.add_comm, Int.add_mul_emod_self_right, Int.emod_eq_of_lt hx hx']
    · rw [Int.add_comm, Int.add_mul_ediv_right _ _ (by omega), Int.ediv_eq_zero_of_lt hx hx', Int.zero_add]
  · intro h
    rcases h with ⟨⟨ha, ha'⟩, rfl, rfl⟩
    exact ⟨⟨Int.emod_nonneg _ (by omega), Int.emod_lt_of_pos _ hw, Int.ediv_nonneg ha (by omega),
      Int.ediv_lt_of_lt_mul hw ha'⟩, Int.ediv_mul_add_emod a layout.width⟩

end

/-! ## 24-bit cells -/

inductive U24Error where
  | range
  | cell (e : CellError)
  deriving DecidableEq, Repr

/-- The ValueError's text. -/
def U24Error.message : U24Error → String
  | .range => "24-bit cell value must be in range 0..0xFFFFFF"
  | .cell e => e.message

namespace SpatialFrame

variable {layout : SpatialLayout}

def readU24 (f : SpatialFrame layout) (x y : Int) : Except CellError Int :=
  match f.readCell x y with
  | .error e => .error e
  | .ok (r, g, b) => .ok ((r.toNat <<< 16 ||| g.toNat <<< 8 ||| b.toNat : Nat) : Int)

def writeU24 (f : SpatialFrame layout) (x y value : Int) : Except U24Error (SpatialFrame layout) :=
  if 0 ≤ value ∧ value ≤ 0xFFFFFF then
    let v := value.toNat
    match f.writeCell x y ((v >>> 16 &&& 0xFF : Nat), (v >>> 8 &&& 0xFF : Nat), (v &&& 0xFF : Nat)) with
    | .error e => .error (.cell e)
    | .ok f' => .ok f'
  else .error .range

end SpatialFrame

/-! ## Pixels as bytes -/

def bytesOf (p : Pixel) : List UInt8 := [p.r, p.g, p.b]

def ofBytes (bs : List UInt8) : Pixel := ⟨bs.getD 0 0, bs.getD 1 0, bs.getD 2 0⟩

/-- What `read_cell` returns of a pixel. -/
def rgb (p : Pixel) : Int × Int × Int := (p.r.toNat, p.g.toNat, p.b.toNat)

def withChannel (p : Pixel) (c : Fin 3) (v : UInt8) : Pixel :=
  match c with
  | 0 => { p with r := v }
  | 1 => { p with g := v }
  | 2 => { p with b := v }

theorem getElem?_bytesOf (p : Pixel) (c : Fin 3) : (bytesOf p)[c.val]? = some (channel p c) := by
  match c with
  | 0 => rfl
  | 1 => rfl
  | 2 => rfl

theorem channel_ofBytes (bs : List UInt8) (c : Fin 3) : channel (ofBytes bs) c = bs.getD c 0 := by
  match c with
  | 0 => rfl
  | 1 => rfl
  | 2 => rfl

theorem ofBytes_splice_all (p p' : Pixel) : ofBytes (splice (bytesOf p) 0 (bytesOf p')) = p' := rfl

theorem ofBytes_splice_one (p : Pixel) (c : Fin 3) (v : UInt8) : ofBytes (splice (bytesOf p) c [v]) = withChannel p c v := by
  match c with
  | 0 => rfl
  | 1 => rfl
  | 2 => rfl

theorem pixelOf_rgb (p : Pixel) : pixelOf (rgb p) = p := by
  have hbyte : ∀ b : UInt8, UInt8.ofNat (clamp (b.toNat : Int)).toNat = b := by
    intro b
    have hb := b.toNat_lt
    rw [clamp_of_byte (by omega), Int.toNat_natCast, UInt8.ofNat_toNat]
  simp only [pixelOf, rgb, hbyte]

theorem inChannels_rgb (p : Pixel) : SpatialFrame.InChannels (rgb p) := by
  have hr := p.r.toNat_lt
  have hg := p.g.toNat_lt
  have hb := p.b.toNat_lt
  simp only [SpatialFrame.InChannels, rgb]
  omega

/-- The shifts and the bitwise or of three bytes. -/
theorem u24_eq (p : Pixel) : p.r.toNat <<< 16 ||| p.g.toNat <<< 8 ||| p.b.toNat = fromBytes (bytesOf p) := by
  have hg := p.g.toNat_lt
  have hb := p.b.toNat_lt
  have hlow : p.g.toNat <<< 8 < 2 ^ 16 := by rw [Nat.shiftLeft_eq]; omega
  have hhigh : p.r.toNat <<< 16 + p.g.toNat <<< 8 = (p.r.toNat * 256 + p.g.toNat) <<< 8 := by
    rw [Nat.shiftLeft_eq, Nat.shiftLeft_eq, Nat.shiftLeft_eq]
    omega
  rw [← Nat.shiftLeft_add_eq_or_of_lt hlow, hhigh, ← Nat.shiftLeft_add_eq_or_of_lt (by omega), Nat.shiftLeft_eq]
  simp only [fromBytes, bytesOf, List.foldl_cons, List.foldl_nil]
  omega

/-- The shifts and the masks of a value give the digits of it. -/
theorem bytesOf_masks (v : Nat) : bytesOf (pixelOf ((v >>> 16 &&& 0xFF : Nat), (v >>> 8 &&& 0xFF : Nat), (v &&& 0xFF : Nat))) =
    bigEndian 3 v := by
  have hmask : ∀ n : Nat, n &&& 0xFF = n % 256 := fun n => Nat.and_two_pow_sub_one_eq_mod n 8
  have hbyte : ∀ n : Nat, UInt8.ofNat (clamp ((n % 256 : Nat) : Int)).toNat = UInt8.ofNat (n % 256) := by
    intro n
    rw [clamp_of_byte (by omega), Int.toNat_natCast]
  simp only [bytesOf, pixelOf, hmask, hbyte, Nat.shiftRight_eq_div_pow, bigEndian, List.nil_append, List.cons_append,
    Nat.div_div_eq_div_mul]

/-! ## Bytes of a cell -/

section

variable {layout : SpatialLayout} {f f' : SpatialFrame layout} {r : SpatialRegion} {region : Option String}

theorem pixel_ext {p p' : Pixel} (h : ∀ c : Fin 3, channel p c = channel p' c) : p = p' := by
  rcases p with ⟨r, g, b⟩
  rcases p' with ⟨r', g', b'⟩
  rw [Pixel.mk.injEq]
  exact ⟨h 0, h 1, h 2⟩

/-- Frames with the same bytes are the same. -/
theorem frame_ext (h : ∀ s, byteOf f.image s = byteOf f'.image s) : f = f' := by
  have himage : f.image = f'.image := by
    have hpx : f.image.px = f'.image.px := by
      funext y x
      exact pixel_ext fun c => h ⟨y, x, c⟩
    rw [Raster.mk.injEq]
    exact ⟨f.size.1.trans f'.size.1.symm, f.size.2.trans f'.size.2.symm, hpx⟩
  rw [SpatialFrame.mk.injEq]
  exact himage

theorem byteOf_put (x y : Nat) (p : Pixel) (s : Site) :
    byteOf (f.put x y p).image s = if s.y = y ∧ s.x = x then channel p s.c else byteOf f.image s := by
  simp only [byteOf, SpatialFrame.put]
  split <;> rfl

/-- The place of a cell in its region. -/
def SpatialRegion.cell (r : SpatialRegion) (x y : Nat) : Nat := (y - r.y) * r.width + (x - r.x)

theorem index?_cell {x y : Nat} (h : r.contains x y = true) (c : Fin 3) : r.index? ⟨y, x, c⟩ = some (r.cell x y * 3 + c) := by
  rw [SpatialRegion.index?, if_pos h]
  rfl

theorem cell_lt {x y : Nat} (h : r.contains x y = true) : r.cell x y * 3 + 3 ≤ r.capacityBytes := by
  have hlast := (index?_some (index?_cell h 2)).1
  exact hlast

theorem site_cell {x y : Nat} (h : r.contains x y = true) (c : Fin 3) : r.site (r.cell x y * 3 + c) = ⟨y, x, c⟩ :=
  (index?_some (index?_cell h c)).2

/-- Bytes put within a cell are the cell written with them. -/
theorem writeBytes_cell (hr : layout.region region = .ok r) {x y : Nat} (h : r.contains x y = true) {c : Nat}
    {data : List UInt8} (hc : c + data.length ≤ 3) :
    f.writeBytes data region ((r.cell x y * 3 + c : Nat) : Int) =
      .ok (f.put x y (ofBytes (splice (bytesOf (f.image.px y x)) c data))) := by
  have hfit : r.cell x y * 3 + c + data.length ≤ r.capacityBytes := by have := cell_lt h; omega
  rw [SpatialFrame.writeBytes_eq f hr, if_neg (by omega)]
  congr 1
  apply frame_ext
  intro s
  rw [byteOf_put]
  by_cases hs : s.y = y ∧ s.x = x
  · rcases s with ⟨y', x', k⟩
    change y' = y ∧ x' = x at hs
    rcases hs with ⟨rfl, rfl⟩
    have hk := k.isLt
    have hin := cell_lt h
    have hbyte := byteAt_written f.image hfit (i := r.cell x' y' * 3 + k) (by omega)
    rw [byteAt_eq, site_cell h, byteAt_eq, site_cell h] at hbyte
    have hcond : (r.cell x' y' * 3 + c ≤ r.cell x' y' * 3 + k ∧ r.cell x' y' * 3 + k < r.cell x' y' * 3 + c + data.length) ↔
        c ≤ k ∧ k < c + data.length := by omega
    have hsub : r.cell x' y' * 3 + k - (r.cell x' y' * 3 + c) = k - c := by omega
    simp only [hcond, hsub] at hbyte
    rw [if_pos ⟨rfl, rfl⟩, channel_ofBytes, List.getD_eq_getElem?_getD, getElem?_splice (by exact hc), getElem?_bytesOf]
    exact congrArg (·.getD 0) hbyte
  · rw [if_neg hs]
    cases hi : r.index? s with
    | none =>
      simp only [byteOf, outside_unchanged (contains_of_index?_none hi)]
    | some i =>
      rcases index?_some hi with ⟨hlt, rfl⟩
      have hbyte := byteAt_written f.image hfit hlt
      -- a byte of another cell
      have hne : ¬(r.cell x y * 3 + c ≤ i ∧ i < r.cell x y * 3 + c + data.length) := by
        intro e
        have hm : i = r.cell x y * 3 + (i - r.cell x y * 3) := by omega
        have hsite := site_cell h ⟨i - r.cell x y * 3, by omega⟩
        rw [← hm] at hsite
        exact hs (by rw [hsite]; exact ⟨rfl, rfl⟩)
      rw [if_neg hne, Option.some.injEq] at hbyte
      exact hbyte

theorem readBytes_channel (hr : layout.region region = .ok r) {x y : Nat} (h : r.contains x y = true) (c : Fin 3) :
    f.readBytes 1 region ((r.cell x y * 3 + c : Nat) : Int) = .ok [channel (f.image.px y x) c] := by
  have hin := cell_lt h
  have hread := f.readBytes_inside hr (n := 1) (i := r.cell x y * 3 + c) (by omega)
  rw [slice_one (by omega), byteAt_eq, site_cell h] at hread
  exact hread

theorem readBytes_cell (hr : layout.region region = .ok r) {x y : Nat} (h : r.contains x y = true) :
    f.readBytes 3 region ((r.cell x y * 3 : Nat) : Int) = .ok (bytesOf (f.image.px y x)) := by
  have hin := cell_lt h
  have hbyte : ∀ c : Fin 3, slice (block f.image r) (r.cell x y * 3 + c) 1 = [channel (f.image.px y x) c] := by
    intro c
    rw [slice_one (by omega), byteAt_eq, site_cell h]
    rfl
  have h0 := hbyte 0
  have h1 := hbyte 1
  have h2 := hbyte 2
  have hread := f.readBytes_inside hr (n := 1 + (1 + 1)) (i := r.cell x y * 3) (by omega)
  rw [slice_add, slice_add, Nat.add_assoc] at hread
  rw [show slice (block f.image r) (r.cell x y * 3) 1 = _ from h0, show slice (block f.image r) (r.cell x y * 3 + 1) 1 = _ from h1,
    show slice (block f.image r) (r.cell x y * 3 + (1 + 1)) 1 = _ from h2] at hread
  exact hread

theorem region_inside (hr : layout.region region = .ok r) : r.x + r.width ≤ layout.width ∧ r.y + r.height ≤ layout.height := by
  have hrows := layout.rows_le
  rcases SpatialLayout.region_cases hr with ⟨-, rfl⟩ | ⟨-, rfl⟩ | ⟨hmem, -⟩
  · simp only [SpatialLayout.storageRegion]
    omega
  · simp only [SpatialLayout.executionRegion]
    omega
  · exact (layout.inside r hmem).2.2

theorem checkCoordinate_inside (hr : layout.region region = .ok r) {x y : Nat} (h : r.contains x y = true) :
    SpatialFrame.checkCoordinate layout x y = .ok () := by
  have hin := region_inside hr
  rw [contains_iff] at h
  exact checkCoordinate_ok_iff.mpr (by omega)

theorem readCell_inside (hr : layout.region region = .ok r) {x y : Nat} (h : r.contains x y = true) :
    f.readCell x y = .ok (rgb (f.image.px y x)) := by
  simp only [SpatialFrame.readCell, checkCoordinate_inside hr h, Int.toNat_natCast, rgb]

theorem writeCell_inside (hr : layout.region region = .ok r) {x y : Nat} (h : r.contains x y = true) {c : Int × Int × Int}
    (hc : SpatialFrame.InChannels c) : f.writeCell x y c = .ok (f.put x y (pixelOf c)) := by
  simp only [SpatialFrame.writeCell, checkCoordinate_inside hr h, if_pos hc, Int.toNat_natCast]

theorem readU24_inside (hr : layout.region region = .ok r) {x y : Nat} (h : r.contains x y = true) :
    f.readU24 x y = .ok (fromBytes (bytesOf (f.image.px y x)) : Int) := by
  simp only [SpatialFrame.readU24, readCell_inside hr h, rgb, Int.toNat_natCast, u24_eq]

theorem writeU24_inside (hr : layout.region region = .ok r) {x y : Nat} (h : r.contains x y = true) {v : Nat} (hv : v ≤ 0xFFFFFF) :
    ∃ p, bytesOf p = bigEndian 3 v ∧ f.writeU24 x y v = .ok (f.put x y p) := by
  have hmask : ∀ n : Nat, ((n &&& 0xFF : Nat) : Int) ≤ 255 := fun n => by
    have := Nat.and_le_right (n := n) (m := 0xFF)
    omega
  have hc : SpatialFrame.InChannels ((v >>> 16 &&& 0xFF : Nat), (v >>> 8 &&& 0xFF : Nat), (v &&& 0xFF : Nat)) :=
    ⟨⟨Int.natCast_nonneg _, hmask _⟩, ⟨Int.natCast_nonneg _, hmask _⟩, Int.natCast_nonneg _, hmask _⟩
  refine ⟨_, bytesOf_masks v, ?_⟩
  have hrange : 0 ≤ (v : Int) ∧ (v : Int) ≤ 0xFFFFFF := by omega
  simp only [SpatialFrame.writeU24, if_pos hrange, Int.toNat_natCast, writeCell_inside hr h hc]

/-! ## Both views -/

/-- The first byte of the region's cell at a coordinate. -/
def SpatialRegion.offset (r : SpatialRegion) (x y : Int) : Int := 3 * ((y - r.y) * r.width + (x - r.x))

/-- A cell, its bytes and its number are the same three channels. -/
structure SameCell (f : SpatialFrame layout) (region : Option String) (r : SpatialRegion) (x y : Int) : Prop where
  read : ∃ p, f.readCell x y = .ok (rgb p) ∧
    ∀ c : Fin 3, f.readBytes 1 region (r.offset x y + c.val) = .ok [channel p c]
  writeByte : ∃ p, f.readCell x y = .ok (rgb p) ∧ ∀ (c : Fin 3) (v : UInt8), ∃ f',
    f.writeBytes [v] region (r.offset x y + c.val) = .ok f' ∧ f.writeCell x y (rgb (withChannel p c v)) = .ok f'
  writeCell : ∀ p, ∃ f', f.writeCell x y (rgb p) = .ok f' ∧ f.writeBytes (bytesOf p) region (r.offset x y) = .ok f'
  u24 : ∀ v : Int, 0 ≤ v → v ≤ 0xFFFFFF → ∃ f', f.writeU24 x y v = .ok f' ∧
    f'.readBytes 3 region (r.offset x y) = .ok (bigEndian 3 v.toNat) ∧ f'.readU24 x y = .ok v

theorem offset_eq {x y : Nat} (h : r.contains x y = true) : r.offset x y = ((r.cell x y * 3 : Nat) : Int) := by
  rw [contains_iff] at h
  rw [SpatialRegion.offset, SpatialRegion.cell, Int.natCast_mul, Int.natCast_add, Int.natCast_mul, Int.natCast_sub (by omega),
    Int.natCast_sub (by omega), Int.mul_comm]
  rfl

theorem same_cell (hr : layout.region region = .ok r) {x y : Int} (h : r.contains x y = true) : SameCell f region r x y := by
  have hpos : 0 ≤ x ∧ 0 ≤ y := by
    simp only [SpatialRegion.contains, Bool.and_eq_true, decide_eq_true_eq] at h
    omega
  rcases Int.eq_ofNat_of_zero_le hpos.1 with ⟨x, rfl⟩
  rcases Int.eq_ofNat_of_zero_le hpos.2 with ⟨y, rfl⟩
  have hcell := readCell_inside (f := f) hr h
  refine ⟨⟨_, hcell, ?_⟩, ⟨_, hcell, ?_⟩, ?_, ?_⟩
  · intro c
    rw [offset_eq h, ← Int.natCast_add]
    exact readBytes_channel hr h c
  · intro c v
    refine ⟨_, ?_, writeCell_inside hr h (inChannels_rgb _)⟩
    rw [offset_eq h, ← Int.natCast_add, writeBytes_cell hr h (by rw [List.length_singleton]; omega), ofBytes_splice_one, pixelOf_rgb]
  · intro p
    refine ⟨_, writeCell_inside hr h (inChannels_rgb p), ?_⟩
    have hlen : 0 + (bytesOf p).length ≤ 3 := le_refl 3
    have hwrite := writeBytes_cell (f := f) hr h hlen
    rw [offset_eq h, pixelOf_rgb]
    rwa [ofBytes_splice_all] at hwrite
  · intro v h0 hv
    rcases Int.eq_ofNat_of_zero_le h0 with ⟨v, rfl⟩
    rcases writeU24_inside (f := f) hr h (v := v) (by omega) with ⟨p, hp, hw⟩
    have hpx : (f.put x y p).image.px y x = p := by simp only [SpatialFrame.put, and_self, if_true]
    refine ⟨_, hw, ?_, ?_⟩
    · rw [offset_eq h, readBytes_cell hr h, hpx, hp, Int.toNat_natCast]
    · rw [readU24_inside hr h, hpx, hp, fromBytes_bigEndian (by omega)]

/-- The cells of the storage plane follow those of the executable rows. -/
theorem storage_cell {k : Nat} (hk : k < layout.storageRegion.cells) : ∃ x y : Int,
    layout.coordinates (layout.executionRows * layout.width + k) = .ok (x, y) ∧ layout.storageRegion.contains x y = true ∧
      layout.storageRegion.offset x y = 3 * k := by
  have hk' : k < layout.width * (layout.height - layout.executionRows) := hk
  have hcolumn := Nat.mod_lt k layout.width_pos
  have hrow : k / layout.width < layout.height - layout.executionRows := Nat.div_lt_of_lt_mul hk'
  have hsplit : k / layout.width * layout.width + k % layout.width = k := Nat.div_add_mod' k layout.width
  generalize k % layout.width = column at hcolumn hsplit
  generalize k / layout.width = row at hrow hsplit
  refine ⟨column, (layout.executionRows + row : Nat), address_coordinates.mp ?_, ?_, ?_⟩
  · refine address_ok_iff.mpr ⟨by omega, ?_⟩
    rw [Int.natCast_add, Int.add_mul, ← hsplit, Int.natCast_add, Int.natCast_mul]
    omega
  · rw [contains_iff]
    simp only [SpatialLayout.storageRegion]
    omega
  · have hy : ((layout.executionRows + row : Nat) : Int) - layout.executionRows = row := by omega
    simp only [SpatialRegion.offset, SpatialLayout.storageRegion, hy]
    rw [← hsplit, Int.natCast_add, Int.natCast_mul]
    omega

/-- Cell view and byte view agree. -/
theorem views_agree (layout : SpatialLayout) :
    (∀ (f : SpatialFrame layout) (region : Option String) (r : SpatialRegion), layout.region region = .ok r →
        ∀ x y : Int, r.contains x y = true → SameCell f region r x y) ∧
      (∀ k < layout.storageRegion.cells, ∃ x y : Int,
        layout.coordinates (layout.executionRows * layout.width + k) = .ok (x, y) ∧
          layout.storageRegion.contains x y = true ∧ layout.storageRegion.offset x y = 3 * k) ∧
      (∀ x y a : Int, layout.address x y = .ok a ↔ layout.coordinates a = .ok (x, y)) ∧
      (∀ x y : Int, (∃ e, layout.address x y = .error e) ↔ ¬(0 ≤ x ∧ x < layout.width ∧ 0 ≤ y ∧ y < layout.height)) ∧
      ∀ a : Int, (∃ e, layout.coordinates a = .error e) ↔ ¬(0 ≤ a ∧ a < layout.totalCells) := by
  refine ⟨fun f region r hr x y h => same_cell hr h, fun k hk => storage_cell hk, fun x y a => address_coordinates, ?_, ?_⟩
  · intro x y
    rw [← checkCoordinate_ok_iff, SpatialLayout.address]
    cases SpatialFrame.checkCoordinate layout x y with
    | error e => exact ⟨fun _ h => (nomatch h), fun _ => ⟨e, rfl⟩⟩
    | ok u => exact ⟨fun e => (nomatch e.choose_spec), fun h => absurd rfl h⟩
  · intro a
    unfold SpatialLayout.coordinates
    split
    · rename_i h
      exact ⟨fun e => (nomatch e.choose_spec), fun hn => absurd h hn⟩
    · rename_i h
      exact ⟨fun _ => h, fun _ => ⟨_, rfl⟩⟩

end

end PyxelVM.Spatial
