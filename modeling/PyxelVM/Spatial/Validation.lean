/-
  PyxelVM.Spatial.Validation — what `SpatialLayout.__post_init__` accepts
  (`zdx_spatial_frame.py`).

  The constructor compares edges; `Valid` is the law it enforces, in terms of cells. It
  accepts exactly what is valid, and the data regions it accepts have no more bytes
  together than the storage plane (`layout_valid_iff`).
-/

import Mathlib.Algebra.BigOperators.Ring.List
import Mathlib.Data.Int.Interval
import PyxelVM.Lib.Rectangles
import PyxelVM.Spatial.Frame

namespace PyxelVM.Spatial

open PyxelVM.Lib

/-! ## The law -/

/-- `contains`, of a region that is asked for. -/
def RegionSpec.contains (r : RegionSpec) (x y : Int) : Bool :=
  r.x ≤ x && x < r.x + r.width && (r.y ≤ y && y < r.y + r.height)

/-- What a layout must be, by the cells of its regions. -/
structure Valid (width height rows : Int) (regions : List RegionSpec) : Prop where
  width_pos : 1 ≤ width
  height_pos : 1 ≤ height
  rows_le : 0 ≤ rows ∧ rows ≤ height
  named : ∀ r ∈ regions, r.name ≠ ""
  distinct : (regions.map (·.name)).Nodup
  nonempty : ∀ r ∈ regions, ∃ x y, r.contains x y = true
  inside : ∀ r ∈ regions, ∀ x y, r.contains x y = true → (0 ≤ x ∧ x < width) ∧ 0 ≤ y ∧ y < height
  data : ∀ r ∈ regions, r.kind ≠ "execution" → ∀ x y, r.contains x y = true → rows ≤ y
  apart : regions.Pairwise fun a b => ∀ x y, ¬(a.contains x y = true ∧ b.contains x y = true)

def RegionSpec.cellSet (r : RegionSpec) : Finset (Int × Int) := rect r.x (r.x + r.width) r.y (r.y + r.height)

variable {width height rows : Int} {regions : List RegionSpec}

theorem RegionSpec.contains_iff {r : RegionSpec} {x y : Int} : r.contains x y = true ↔ (x, y) ∈ r.cellSet := by
  rw [RegionSpec.cellSet, mem_rect]
  simp only [RegionSpec.contains, Bool.and_eq_true, decide_eq_true_eq]

theorem RegionSpec.nonempty_iff {r : RegionSpec} : (∃ x y, r.contains x y = true) ↔ 1 ≤ r.width ∧ 1 ≤ r.height := by
  have hset : (∃ x y, r.contains x y = true) ↔ r.cellSet.Nonempty := by
    simp only [RegionSpec.contains_iff, Finset.Nonempty, Prod.exists]
  rw [hset, RegionSpec.cellSet, rect_nonempty_iff]
  omega

/-- What the loop checks of a region, by its cells. -/
theorem RegionSpec.fits_iff {r : RegionSpec} :
    r.Fits width height rows ↔ r.name ≠ "" ∧ (∃ x y, r.contains x y = true) ∧
      (∀ x y, r.contains x y = true → (0 ≤ x ∧ x < width) ∧ 0 ≤ y ∧ y < height) ∧
      (r.kind ≠ "execution" → ∀ x y, r.contains x y = true → rows ≤ y) := by
  have hin : ∀ x y, r.contains x y = true ↔ (r.x ≤ x ∧ x < r.x + r.width) ∧ r.y ≤ y ∧ y < r.y + r.height := by
    intro x y
    rw [RegionSpec.contains_iff, RegionSpec.cellSet, mem_rect]
  constructor
  · intro h
    refine ⟨h.named, RegionSpec.nonempty_iff.mpr ⟨h.width_pos, h.height_pos⟩, ?_, ?_⟩
    · intro x y hxy
      have hcell := (hin x y).mp hxy
      have h1 := h.x_nonneg
      have h2 := h.y_nonneg
      have h3 := h.right
      have h4 := h.bottom
      omega
    · intro hk x y hxy
      exact le_trans (h.data hk) ((hin x y).mp hxy).2.1
  · intro h
    rcases h with ⟨hname, hne, hinside, hdata⟩
    rcases RegionSpec.nonempty_iff.mp hne with ⟨hw, hh⟩
    -- the first and the last cell
    have hfirst := (hin r.x r.y).mpr (by omega)
    have hlast := hinside _ _ ((hin (r.x + r.width - 1) (r.y + r.height - 1)).mpr (by omega))
    have hframe := hinside _ _ hfirst
    exact ⟨hname, hw, hh, hframe.1.1, hframe.2.1, by omega, by omega, fun hk => hdata hk _ _ hfirst⟩

/-- The four comparisons of `_regions_overlap`. -/
theorem RegionSpec.overlaps_iff {a b : RegionSpec} (ha : a.Fits width height rows) (hb : b.Fits width height rows) :
    ¬a.overlaps b ↔ ∀ x y, ¬(a.contains x y = true ∧ b.contains x y = true) := by
  have ha1 := ha.width_pos
  have ha2 := ha.height_pos
  have hb1 := hb.width_pos
  have hb2 := hb.height_pos
  have hdisjoint : (∀ x y, ¬(a.contains x y = true ∧ b.contains x y = true)) ↔ Disjoint a.cellSet b.cellSet := by
    simp only [RegionSpec.contains_iff, Finset.disjoint_left, Prod.forall, not_and]
  rw [hdisjoint, RegionSpec.cellSet, RegionSpec.cellSet,
    disjoint_rect_iff (by omega) (by omega) (by omega) (by omega), RegionSpec.overlaps, not_not]

/-! ## The constructor -/

theorem create_ok_iff : (∃ l, SpatialLayout.create width height rows regions = .ok l) ↔
    ¬(width < 1 ∨ height < 1) ∧ (0 ≤ rows ∧ rows ≤ height) ∧ checkRegions width height rows [] regions = .ok () ∧
      checkOverlaps regions = .ok () := by
  unfold SpatialLayout.create
  split
  · rename_i hd
    exact ⟨fun h => (nomatch h.choose_spec), fun h => absurd hd h.1⟩
  rename_i hd
  split
  · rename_i he
    exact ⟨fun h => (nomatch h.choose_spec), fun h => absurd h.2.1 he⟩
  rename_i he
  split
  · rename_i e hr
    exact ⟨fun h => (nomatch h.choose_spec), fun h => (nomatch hr.symm.trans h.2.2.1)⟩
  rename_i hr
  split
  · rename_i e ho
    exact ⟨fun h => (nomatch h.choose_spec), fun h => (nomatch ho.symm.trans h.2.2.2)⟩
  · rename_i ho
    exact ⟨fun _ => ⟨hd, not_not.mp he, hr, ho⟩, fun _ => ⟨_, rfl⟩⟩

theorem create_accepts_iff : (∃ l, SpatialLayout.create width height rows regions = .ok l) ↔ Valid width height rows regions := by
  rw [create_ok_iff, checkRegions_ok_iff, checkOverlaps_ok_iff]
  constructor
  · intro h
    rcases h with ⟨hd, he, ⟨hr, hn⟩, ho⟩
    have hfit := fun r hr' => RegionSpec.fits_iff.mp (hr r hr').2
    refine ⟨by omega, by omega, he, fun r hr' => (hfit r hr').1, hn, fun r hr' => (hfit r hr').2.1,
      fun r hr' => (hfit r hr').2.2.1, fun r hr' => (hfit r hr').2.2.2, ?_⟩
    exact ho.imp_of_mem fun {a b} ha hb hab => (RegionSpec.overlaps_iff (hr a ha).2 (hr b hb).2).mp hab
  · intro h
    have hfit : ∀ r ∈ regions, r.Fits width height rows := fun r hr =>
      RegionSpec.fits_iff.mpr ⟨h.named r hr, h.nonempty r hr, h.inside r hr, h.data r hr⟩
    have h1 := h.width_pos
    have h2 := h.height_pos
    refine ⟨by omega, h.rows_le, ⟨fun r hr => ⟨List.not_mem_nil, hfit r hr⟩, h.distinct⟩, ?_⟩
    exact h.apart.imp_of_mem fun {a b} ha hb hab => (RegionSpec.overlaps_iff (hfit a ha) (hfit b hb)).mpr hab

/-! ## Capacity -/

def SpatialRegion.cellSet (r : SpatialRegion) : Finset (Nat × Nat) := rect r.x (r.x + r.width) r.y (r.y + r.height)

theorem SpatialRegion.card_cellSet (r : SpatialRegion) : r.cellSet.card = r.cells := card_rect ..

/-- The data regions lie in the storage plane, apart from each other. -/
theorem data_capacity_le (l : SpatialLayout) :
    ((l.regions.filter fun r => r.kind ≠ "execution").map SpatialRegion.capacityBytes).sum ≤ l.storageCapacityBytes := by
  have hd : (l.regions.filter fun r => r.kind ≠ "execution").Pairwise fun a b => Disjoint a.cellSet b.cellSet := by
    refine (l.apart.filter _).imp_of_mem fun {a b} ha hb hab => ?_
    rcases l.inside a (List.mem_of_mem_filter ha) with ⟨ha1, ha2, -⟩
    rcases l.inside b (List.mem_of_mem_filter hb) with ⟨hb1, hb2, -⟩
    rw [SpatialRegion.overlaps, not_not] at hab
    exact (disjoint_rect_iff (by omega) (by omega) (by omega) (by omega)).mpr hab
  have hs : ∀ r ∈ l.regions.filter fun r => r.kind ≠ "execution", r.cellSet ⊆ l.storageRegion.cellSet := by
    intro r hr
    rcases List.mem_filter.mp hr with ⟨hmem, hkind⟩
    rcases l.inside r hmem with ⟨h1, h2, h3, h4⟩
    have h5 := l.data r hmem (by simpa using hkind)
    refine (rect_subset_iff (by omega) (by omega)).mpr ?_
    simp only [SpatialLayout.storageRegion]
    omega
  have hcells := sum_card_le hd hs
  simp only [SpatialRegion.card_cellSet] at hcells
  have hsum : ((l.regions.filter fun r => r.kind ≠ "execution").map SpatialRegion.capacityBytes).sum =
      ((l.regions.filter fun r => r.kind ≠ "execution").map SpatialRegion.cells).sum * 3 := List.sum_map_mul_right ..
  rw [hsum]
  exact Nat.mul_le_mul_right 3 hcells

/-- Layout validation is exact. -/
theorem layout_valid_iff (width height rows : Int) (regions : List RegionSpec) :
    ((∃ l, SpatialLayout.create width height rows regions = .ok l) ↔ Valid width height rows regions) ∧
      ∀ l, SpatialLayout.create width height rows regions = .ok l →
        ((l.regions.filter fun r => r.kind ≠ "execution").map SpatialRegion.capacityBytes).sum ≤ l.storageCapacityBytes :=
  ⟨create_accepts_iff, fun l _ => data_capacity_le l⟩

end PyxelVM.Spatial
