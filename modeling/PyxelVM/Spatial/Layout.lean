/-
  PyxelVM.Spatial.Layout — `SpatialRegion` and `SpatialLayout` (`zdx_spatial_frame.py`).

  A `RegionSpec` and the integers beside it are what the caller asks for; `create` is
  the constructor with the checks of `__post_init__`, in their order. A `SpatialLayout`
  is one the constructor accepted: its dimensions are natural numbers, and what was
  checked are its fields. A `SpatialRegion` is a rectangle of cells of three bytes each;
  `region` resolves a name.
-/

import Mathlib.Data.List.Nodup

namespace PyxelVM.Spatial

/-! ## Regions -/

structure RegionSpec where
  name : String
  x : Int
  y : Int
  width : Int
  height : Int
  kind : String := "data"
  deriving DecidableEq, Repr

structure SpatialRegion where
  name : String
  x : Nat
  y : Nat
  width : Nat
  height : Nat
  kind : String := "data"
  deriving DecidableEq, Repr

namespace SpatialRegion

def cells (r : SpatialRegion) : Nat := r.width * r.height

def capacityBytes (r : SpatialRegion) : Nat := r.cells * 3

def contains (r : SpatialRegion) (x y : Int) : Bool := r.x ≤ x && x < r.x + r.width && (r.y ≤ y && y < r.y + r.height)

end SpatialRegion

def RegionSpec.overlaps (a b : RegionSpec) : Prop :=
  ¬(a.x + a.width ≤ b.x ∨ b.x + b.width ≤ a.x ∨ a.y + a.height ≤ b.y ∨ b.y + b.height ≤ a.y)

instance (a b : RegionSpec) : Decidable (a.overlaps b) := inferInstanceAs (Decidable (¬_))

def SpatialRegion.overlaps (a b : SpatialRegion) : Prop :=
  ¬(a.x + a.width ≤ b.x ∨ b.x + b.width ≤ a.x ∨ a.y + a.height ≤ b.y ∨ b.y + b.height ≤ a.y)

def RegionSpec.toRegion (r : RegionSpec) : SpatialRegion :=
  ⟨r.name, r.x.toNat, r.y.toNat, r.width.toNat, r.height.toNat, r.kind⟩

/-! ## Checks -/

inductive LayoutError where
  | dimensions
  | executionRows
  | emptyName
  | duplicateName (name : String)
  | notPositive (name : String)
  | negativeOrigin (name : String)
  | outOfBounds (name : String)
  | overExecution (name : String) (rows : Int)
  | overlap (left right : String)
  deriving DecidableEq, Repr

/-- The ValueError's text; `repr` is Python's, of a string. -/
def LayoutError.message (repr : String → String) : LayoutError → String
  | .dimensions => "SpatialLayout width/height must be >= 1"
  | .executionRows => "execution_rows must be between 0 and image height"
  | .emptyName => "SpatialRegion name must not be empty"
  | .duplicateName name => s!"duplicate spatial region name: {name}"
  | .notPositive name => s!"region {repr name} must have positive dimensions"
  | .negativeOrigin name => s!"region {repr name} has a negative origin"
  | .outOfBounds name => s!"region {repr name} exceeds frame bounds"
  | .overExecution name rows => s!"data region {repr name} overlaps executable rows 0..{rows - 1}"
  | .overlap left right => s!"spatial regions overlap: {repr left} and {repr right}"

variable {width height rows : Int}

/-- One turn of the loop over the regions, after those with `names`. -/
def RegionSpec.check (width height rows : Int) (names : List String) (r : RegionSpec) : Except LayoutError Unit :=
  if r.name = "" then .error .emptyName
  else if r.name ∈ names then .error (.duplicateName r.name)
  else if r.width < 1 ∨ r.height < 1 then .error (.notPositive r.name)
  else if r.x < 0 ∨ r.y < 0 then .error (.negativeOrigin r.name)
  else if r.x + r.width > width ∨ r.y + r.height > height then .error (.outOfBounds r.name)
  else if r.kind ≠ "execution" ∧ r.y < rows then .error (.overExecution r.name rows)
  else .ok ()

def checkRegions (width height rows : Int) : List String → List RegionSpec → Except LayoutError Unit
  | _, [] => .ok ()
  | names, r :: rs =>
    match r.check width height rows names with
    | .error e => .error e
    | .ok () => checkRegions width height rows (r.name :: names) rs

/-- Every region against the later ones. -/
def checkOverlaps : List RegionSpec → Except LayoutError Unit
  | [] => .ok ()
  | r :: rs =>
    match rs.find? fun q => decide (r.overlaps q) with
    | some q => .error (.overlap r.name q.name)
    | none => checkOverlaps rs

/-- What the loop has checked of a region. -/
structure RegionSpec.Fits (width height rows : Int) (r : RegionSpec) : Prop where
  named : r.name ≠ ""
  width_pos : 1 ≤ r.width
  height_pos : 1 ≤ r.height
  x_nonneg : 0 ≤ r.x
  y_nonneg : 0 ≤ r.y
  right : r.x + r.width ≤ width
  bottom : r.y + r.height ≤ height
  data : r.kind ≠ "execution" → rows ≤ r.y

theorem check_ok_iff {names : List String} {r : RegionSpec} :
    r.check width height rows names = .ok () ↔ r.name ∉ names ∧ r.Fits width height rows := by
  constructor
  · intro h
    unfold RegionSpec.check at h
    repeat' split at h
    all_goals first
      | cases h; done
      | exact ⟨‹_›, ‹_›, by omega, by omega, by omega, by omega, by omega, by omega, fun hk => by
          have := not_and.mp ‹¬(r.kind ≠ "execution" ∧ r.y < rows)› hk
          omega⟩
  · rintro ⟨hn, hf⟩
    have h1 : ¬(r.width < 1 ∨ r.height < 1) := by have := hf.width_pos; have := hf.height_pos; omega
    have h2 : ¬(r.x < 0 ∨ r.y < 0) := by have := hf.x_nonneg; have := hf.y_nonneg; omega
    have h3 : ¬(r.x + r.width > width ∨ r.y + r.height > height) := by have := hf.right; have := hf.bottom; omega
    have h4 : ¬(r.kind ≠ "execution" ∧ r.y < rows) := fun ⟨hk, hy⟩ => by have := hf.data hk; omega
    rw [RegionSpec.check, if_neg hf.named, if_neg hn, if_neg h1, if_neg h2, if_neg h3, if_neg h4]

theorem checkRegions_ok_iff {names : List String} {rs : List RegionSpec} :
    checkRegions width height rows names rs = .ok () ↔
      (∀ r ∈ rs, r.name ∉ names ∧ r.Fits width height rows) ∧ (rs.map (·.name)).Nodup := by
  induction rs generalizing names with
  | nil => simp [checkRegions]
  | cons r rs ih =>
    have hcons : checkRegions width height rows names (r :: rs) = .ok () ↔
        r.check width height rows names = .ok () ∧ checkRegions width height rows (r.name :: names) rs = .ok () := by
      simp only [checkRegions]
      cases r.check width height rows names with
      | error e => simp
      | ok u => simp
    rw [hcons, check_ok_iff, ih, List.map_cons, List.nodup_cons, List.forall_mem_cons]
    constructor
    · rintro ⟨hr, hrs, hn⟩
      refine ⟨⟨hr, fun q hq => ⟨fun h => (hrs q hq).1 (List.mem_cons_of_mem _ h), (hrs q hq).2⟩⟩, ?_, hn⟩
      intro h
      obtain ⟨q, hq, e⟩ := List.mem_map.mp h
      exact (hrs q hq).1 (e ▸ List.mem_cons_self ..)
    · rintro ⟨⟨hr, hrs⟩, hnot, hn⟩
      refine ⟨hr, fun q hq => ⟨?_, (hrs q hq).2⟩, hn⟩
      intro h
      rcases List.mem_cons.mp h with e | h
      · exact hnot (e ▸ List.mem_map.mpr ⟨q, hq, rfl⟩)
      · exact (hrs q hq).1 h

theorem checkOverlaps_ok_iff {rs : List RegionSpec} :
    checkOverlaps rs = .ok () ↔ rs.Pairwise fun a b => ¬a.overlaps b := by
  induction rs with
  | nil => simp [checkOverlaps]
  | cons r rs ih =>
    rw [List.pairwise_cons, ← ih, checkOverlaps]
    cases h : rs.find? fun q => decide (r.overlaps q) with
    | none =>
      have hn : ∀ q ∈ rs, ¬r.overlaps q := fun q hq => by simpa using List.find?_eq_none.mp h q hq
      exact ⟨fun hc => ⟨hn, hc⟩, fun hc => hc.2⟩
    | some q =>
      have hq : r.overlaps q := by simpa using List.find?_some h
      exact ⟨(nomatch ·), fun hc => absurd hq (hc.1 q (List.mem_of_find?_eq_some h))⟩

/-! ## Layouts -/

structure SpatialLayout where
  width : Nat
  height : Nat
  executionRows : Nat
  regions : List SpatialRegion
  width_pos : 1 ≤ width
  height_pos : 1 ≤ height
  rows_le : executionRows ≤ height
  names : (regions.map (·.name)).Nodup ∧ ∀ r ∈ regions, r.name ≠ ""
  inside : ∀ r ∈ regions, 1 ≤ r.width ∧ 1 ≤ r.height ∧ r.x + r.width ≤ width ∧ r.y + r.height ≤ height
  data : ∀ r ∈ regions, r.kind ≠ "execution" → executionRows ≤ r.y
  apart : regions.Pairwise fun a b => ¬a.overlaps b

theorem overlaps_toRegion {a b : RegionSpec} (ha : a.Fits width height rows) (hb : b.Fits width height rows) :
    a.toRegion.overlaps b.toRegion ↔ a.overlaps b := by
  obtain ⟨-, h1, h2, h3, h4, -, -, -⟩ := ha
  obtain ⟨-, k1, k2, k3, k4, -, -, -⟩ := hb
  simp only [SpatialRegion.overlaps, RegionSpec.overlaps, RegionSpec.toRegion]
  omega

/-- The constructor. -/
def SpatialLayout.create (width height rows : Int) (regions : List RegionSpec) : Except LayoutError SpatialLayout :=
  if hd : width < 1 ∨ height < 1 then .error .dimensions
  else if he : ¬(0 ≤ rows ∧ rows ≤ height) then .error .executionRows
  else
    match hr : checkRegions width height rows [] regions with
    | .error e => .error e
    | .ok () =>
      match ho : checkOverlaps regions with
      | .error e => .error e
      | .ok () =>
        have hfit := fun r hr' => ((checkRegions_ok_iff.mp hr).1 r hr').2
        .ok {
          width := width.toNat
          height := height.toNat
          executionRows := rows.toNat
          regions := regions.map RegionSpec.toRegion
          width_pos := by omega
          height_pos := by omega
          rows_le := by omega
          names := by
            rw [List.map_map, List.forall_mem_map]
            exact ⟨(checkRegions_ok_iff.mp hr).2, fun r hr' => (hfit r hr').named⟩
          inside := by
            rw [List.forall_mem_map]
            intro r hr'
            obtain ⟨-, h1, h2, h3, h4, h5, h6, -⟩ := hfit r hr'
            simp only [RegionSpec.toRegion]
            omega
          data := by
            rw [List.forall_mem_map]
            intro r hr' hk
            have := (hfit r hr').data hk
            simp only [RegionSpec.toRegion]
            omega
          apart := by
            rw [List.pairwise_map]
            apply (checkOverlaps_ok_iff.mp ho).imp_of_mem
            intro a b ha hb hab
            rwa [overlaps_toRegion (hfit _ ha) (hfit _ hb)] }

namespace SpatialLayout

def executionRegion (l : SpatialLayout) : SpatialRegion := ⟨"execution", 0, 0, l.width, l.executionRows, "execution"⟩

def storageRegion (l : SpatialLayout) : SpatialRegion :=
  ⟨"storage", 0, l.executionRows, l.width, l.height - l.executionRows, "data"⟩

def totalCells (l : SpatialLayout) : Nat := l.width * l.height

def rawCapacityBytes (l : SpatialLayout) : Nat := l.totalCells * 3

def storageCapacityBytes (l : SpatialLayout) : Nat := l.storageRegion.capacityBytes

inductive RegionError where
  | noStorage
  | unknown (name : String)
  deriving DecidableEq, Repr

/-- `region(name)`, where no name means the storage plane. -/
def region (l : SpatialLayout) (name : Option String) : Except RegionError SpatialRegion :=
  if name = none ∨ name = some "storage" then
    if l.storageRegion.height = 0 then .error .noStorage else .ok l.storageRegion
  else if name = some "execution" then .ok l.executionRegion
  else
    match l.regions.find? fun r => some r.name = name with
    | some r => .ok r
    | none => .error (.unknown (name.getD ""))

/-- What a name can resolve to. -/
theorem region_cases {l : SpatialLayout} {name : Option String} {r : SpatialRegion} (h : l.region name = .ok r) :
    ((name = none ∨ name = some "storage") ∧ r = l.storageRegion) ∨ (name = some "execution" ∧ r = l.executionRegion) ∨
      (r ∈ l.regions ∧ some r.name = name) := by
  unfold region at h
  split at h
  · rename_i hs
    split at h
    · cases h
    · exact .inl ⟨hs, (Except.ok.inj h).symm⟩
  split at h
  · rename_i he
    exact .inr (.inl ⟨he, (Except.ok.inj h).symm⟩)
  split at h
  · rename_i q hq
    cases h
    exact .inr (.inr ⟨List.mem_of_find?_eq_some hq, by simpa using List.find?_some hq⟩)
  · cases h

end SpatialLayout

/-- The layout without declared regions. -/
def SpatialLayout.bare (width height executionRows : Nat) (hw : 1 ≤ width) (hh : 1 ≤ height) (hr : executionRows ≤ height) :
    SpatialLayout where
  width := width
  height := height
  executionRows := executionRows
  regions := []
  width_pos := hw
  height_pos := hh
  rows_le := hr
  names := ⟨List.nodup_nil, fun _ h => nomatch h⟩
  inside := fun _ h => nomatch h
  data := fun _ h => nomatch h
  apart := .nil

/-- Two rows of two cells, the first executable. -/
def oneRow : SpatialLayout := .bare 2 2 1 (by decide) (by decide) (by decide)

end PyxelVM.Spatial
