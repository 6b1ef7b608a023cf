/-
  PyxelVM.Spatial.Writes — what a write into a region changes (`zdx_spatial_frame.py`).

  - `writes_exactly`: `write_bytes` raises exactly where the bytes do not fit, and changes
    those bytes only; declared data regions do not see each other's writes.
  - `resolves_iff`: every declared region is what its name resolves to exactly when none
    is under the name of a plane that it is not.
  - `SpatialFrame.json_region`: `write_json` leaves its value whatever was there, and `read_json`
    looks at the bytes its header declares and at no others.
-/

import PyxelVM.Spatial.Payloads

namespace PyxelVM.Spatial

open PyxelVM.Lib
open PyxelVM.Vm

/-! ## Writes -/

namespace SpatialFrame

variable {layout : SpatialLayout}

/-- The frame after a call: one that raises has not assigned `self.image`. -/
def after (f : SpatialFrame layout) {ε : Type} : Except ε (SpatialFrame layout) → SpatialFrame layout
  | .ok f' => f'
  | .error _ => f

/-- Bytes put at an offset of the region are there, and nothing else has changed. -/
structure Wrote (r : SpatialRegion) (region : Option String) (offset : Nat) (data : List UInt8) (f f' : SpatialFrame layout) :
    Prop where
  back : f'.readBytes data.length region offset = .ok data
  others : ∀ i : Nat, i < r.capacityBytes → i < offset ∨ offset + data.length ≤ i →
    f'.readBytes 1 region i = f.readBytes 1 region i
  outside : ∀ x y : Int, r.contains x y = false → f'.readCell x y = f.readCell x y

variable {r : SpatialRegion} {region : Option String} {f f' : SpatialFrame layout} {offset : Nat} {data : List UInt8}

theorem writeBytes_eq (f : SpatialFrame layout) (hr : layout.region region = .ok r) (data : List UInt8) (offset : Nat) :
    f.writeBytes data region offset =
      if r.capacityBytes < offset + data.length then .error (.write data.length offset r.name r.capacityBytes)
      else .ok ⟨withBlock f.image r (splice (block f.image r) offset data), f.size⟩ := by
  simp only [writeBytes, hr, Int.toNat_natCast]
  by_cases h : r.capacityBytes < offset + data.length
  · rw [if_pos h, if_pos (by omega)]
  · rw [if_neg h, if_neg (by omega)]

/-- Frames with the same cells in a region have the same bytes there. -/
theorem readBytes_local (hr : layout.region region = .ok r)
    (h : ∀ x y : Nat, r.contains x y = true → f'.image.px y x = f.image.px y x) (n i : Int) :
    f'.readBytes n region i = f.readBytes n region i := by
  simp only [readBytes, hr, block_local h]

theorem wrote (hr : layout.region region = .ok r) (hfit : offset + data.length ≤ r.capacityBytes) :
    Wrote r region offset data f ⟨withBlock f.image r (splice (block f.image r) offset data), f.size⟩ := by
  have hin : offset + data.length ≤ (block f.image r).length := by rwa [length_block]
  refine ⟨?_, ?_, ?_⟩
  · rw [readBytes_inside _ hr hfit, block_withBlock (by rw [length_splice hin, length_block]), slice_splice hin]
  · intro i hi hout
    rw [show (1 : Int) = (1 : Nat) from rfl, readBytes_inside _ hr (by omega), readBytes_inside _ hr (by omega), slice_one hi,
      slice_one hi]
    have hbyte := byteAt_written f.image hfit hi
    rw [if_neg (by omega), Option.some.injEq] at hbyte
    rw [hbyte]
  · intro x y hxy
    unfold readCell
    cases hc : checkCoordinate layout x y with
    | error e => rfl
    | ok u =>
      have hpos : 0 ≤ x ∧ 0 ≤ y := by
        unfold checkCoordinate at hc
        split at hc
        · omega
        · cases hc
      have hxy' : r.contains (x.toNat : Int) (y.toNat : Int) = false := by
        rwa [Int.toNat_of_nonneg hpos.1, Int.toNat_of_nonneg hpos.2]
      simp only [outside_unchanged hxy']

end SpatialFrame

/-! ## Names -/

section

variable {layout : SpatialLayout} {r : SpatialRegion}

theorem find_declared (h : r ∈ layout.regions) : (layout.regions.find? fun q => some q.name = some r.name) = some r := by
  cases hq : layout.regions.find? fun q => some q.name = some r.name with
  | none => exact absurd (decide_eq_true rfl) (List.find?_eq_none.mp hq r h)
  | some q =>
    have hname : q.name = r.name := by simpa using List.find?_some hq
    rw [List.inj_on_of_nodup_map layout.names.1 (List.mem_of_find?_eq_some hq) h hname]

/-- The names of the planes come first. -/
theorem resolves_self_iff (h : r ∈ layout.regions) : layout.region (some r.name) = .ok r ↔
    (r.name = "storage" → r = layout.storageRegion) ∧ (r.name = "execution" → r = layout.executionRegion) := by
  unfold SpatialLayout.region
  by_cases hs : r.name = "storage"
  · have hne : r.name ≠ "execution" := by rw [hs]; decide
    rw [if_pos (.inr (congrArg some hs))]
    constructor
    · intro e
      split at e
      · cases e
      · exact ⟨fun _ => (Except.ok.inj e).symm, fun he => absurd he hne⟩
    · intro hc
      have hr := hc.1 hs
      have hpos : ¬layout.storageRegion.height = 0 := by have := (layout.inside r h).2.1; rw [← hr]; omega
      rw [if_neg hpos, hr]
  · have hs' : ¬(some r.name = none ∨ some r.name = some "storage") := by simpa using hs
    rw [if_neg hs']
    by_cases he : r.name = "execution"
    · rw [if_pos (congrArg some he), Except.ok.injEq]
      exact ⟨fun e => ⟨fun h => absurd h hs, fun _ => e.symm⟩, fun hc => (hc.2 he).symm⟩
    · have he' : ¬some r.name = some "execution" := by simpa using he
      rw [if_neg he', find_declared h]
      exact ⟨fun _ => ⟨fun h => absurd h hs, fun h => absurd h he⟩, fun _ => rfl⟩

theorem resolves_declared (h : r ∈ layout.regions) (h1 : r.name ≠ "storage") (h2 : r.name ≠ "execution") :
    layout.region (some r.name) = .ok r :=
  (resolves_self_iff h).mpr ⟨fun e => absurd e h1, fun e => absurd e h2⟩

end

namespace SpatialFrame

variable {layout : SpatialLayout} {r : SpatialRegion} {region : Option String} {f f' : SpatialFrame layout}

theorem writeBytes_ok {data : List UInt8} {offset : Int} (hr : layout.region region = .ok r)
    (h : f.writeBytes data region offset = .ok f') : offset.toNat + data.length ≤ r.capacityBytes ∧
      f' = ⟨withBlock f.image r (splice (block f.image r) offset.toNat data), f.size⟩ := by
  simp only [writeBytes, hr] at h
  split at h
  · cases h
  · cases h
    exact ⟨by omega, rfl⟩

/-- Cells outside the region are as before the call, whether it returns or raises. -/
theorem readCell_after (hr : layout.region region = .ok r) (data : List UInt8) (offset : Int) {x y : Int}
    (hxy : r.contains x y = false) : (f.after (f.writeBytes data region offset)).readCell x y = f.readCell x y := by
  cases h : f.writeBytes data region offset with
  | error e => rfl
  | ok f' =>
    rcases writeBytes_ok hr h with ⟨hfit, rfl⟩
    exact (wrote hr hfit).outside x y hxy

/-- What a region that shares no cell with it holds is as before the call. -/
theorem readBytes_after {r' : SpatialRegion} {region' : Option String} (hr : layout.region region = .ok r)
    (hr' : layout.region region' = .ok r') (hd : ∀ x y : Nat, r'.contains x y = true → r.contains x y = false)
    (data : List UInt8) (offset n i : Int) :
    (f.after (f.writeBytes data region offset)).readBytes n region' i = f.readBytes n region' i := by
  cases h : f.writeBytes data region offset with
  | error e => rfl
  | ok f' =>
    rcases writeBytes_ok hr h with ⟨-, rfl⟩
    exact readBytes_local hr' (fun x y hxy => outside_unchanged (hd x y hxy) _) n i

end SpatialFrame

/-! ## Results -/

section

variable {layout : SpatialLayout} {a b r : SpatialRegion}

theorem contains_data (h : r ∈ layout.regions) (hk : r.kind ≠ "execution") {x y : Int} (hxy : r.contains x y = true) :
    layout.executionRows ≤ y := by
  have hrows := layout.data r h hk
  simp only [SpatialRegion.contains, Bool.and_eq_true, decide_eq_true_eq] at hxy
  omega

/-- The name is not that of a plane, and the region is not executable. -/
structure OwnName (r : SpatialRegion) : Prop where
  kind : r.kind ≠ "execution"
  storage : r.name ≠ "storage"
  execution : r.name ≠ "execution"

/-- Data regions under names of their own are apart from each other and from the executable rows. -/
theorem write_isolated (ha : a ∈ layout.regions) (hb : b ∈ layout.regions) (hne : a ≠ b) (ha' : OwnName a) (hb' : OwnName b)
    (f : SpatialFrame layout) (data : List UInt8) (offset : Int) :
    (∀ n i : Int, (f.after (f.writeBytes data (some a.name) offset)).readBytes n (some b.name) i =
        f.readBytes n (some b.name) i) ∧
      ∀ x y : Int, y < layout.executionRows →
        (f.after (f.writeBytes data (some a.name) offset)).readCell x y = f.readCell x y := by
  have hra := resolves_declared ha ha'.storage ha'.execution
  have hrb := resolves_declared hb hb'.storage hb'.execution
  constructor
  · intro n i
    refine SpatialFrame.readBytes_after hra hrb ?_ data offset n i
    intro x y hxy
    by_contra hin
    rw [Bool.not_eq_false] at hin
    exact layout.apart.forall ha hb hne (overlaps_of_contains hin hxy)
  · intro x y hy
    apply SpatialFrame.readCell_after hra
    by_contra hin
    rw [Bool.not_eq_false] at hin
    have hrows := contains_data ha ha'.kind hin
    omega

/-- Byte writes touch exactly their bytes. -/
theorem writes_exactly (layout : SpatialLayout) :
    (∀ (f : SpatialFrame layout) (region : Option String) (r : SpatialRegion) (offset : Nat) (data : List UInt8),
      layout.region region = .ok r →
        if r.capacityBytes < offset + data.length then
          f.writeBytes data region offset = .error (.write data.length offset r.name r.capacityBytes) ∧
            f.after (f.writeBytes data region offset) = f
        else ∃ f', f.writeBytes data region offset = .ok f' ∧ SpatialFrame.Wrote r region offset data f f') ∧
      ∀ a ∈ layout.regions, ∀ b ∈ layout.regions, a ≠ b → OwnName a → OwnName b →
        ∀ (f : SpatialFrame layout) (data : List UInt8) (offset : Int),
          (∀ n i : Int, (f.after (f.writeBytes data (some a.name) offset)).readBytes n (some b.name) i =
              f.readBytes n (some b.name) i) ∧
            ∀ x y : Int, y < layout.executionRows →
              (f.after (f.writeBytes data (some a.name) offset)).readCell x y = f.readCell x y := by
  refine ⟨?_, fun a ha b hb hne ha' hb' => write_isolated ha hb hne ha' hb'⟩
  intro f region r offset data hr
  rw [SpatialFrame.writeBytes_eq f hr]
  split
  · exact ⟨rfl, rfl⟩
  · exact ⟨_, rfl, SpatialFrame.wrote hr (by omega)⟩

/-! ## Declared regions -/

/-- Every declared region is what its name resolves to, and what is written under the
    name of a data region changes cells of that region only, none of them executable. -/
structure Resolves (layout : SpatialLayout) : Prop where
  self : ∀ r ∈ layout.regions, layout.region (some r.name) = .ok r
  lands : ∀ r ∈ layout.regions, r.kind ≠ "execution" → ∀ (f f' : SpatialFrame layout) (data : List UInt8) (offset : Int),
    f.writeBytes data (some r.name) offset = .ok f' → ∀ x y : Int, f'.readCell x y ≠ f.readCell x y →
      r.contains x y = true ∧ layout.executionRows ≤ y

/-- The validator knows nothing of the names that `region` looks at first. -/
theorem resolves_iff (layout : SpatialLayout) : Resolves layout ↔
    ∀ r ∈ layout.regions, (r.name = "storage" → r = layout.storageRegion) ∧ (r.name = "execution" → r = layout.executionRegion) := by
  constructor
  · intro h r hr
    exact (resolves_self_iff hr).mp (h.self r hr)
  · intro h
    have hself : ∀ r ∈ layout.regions, layout.region (some r.name) = .ok r := fun r hr => (resolves_self_iff hr).mpr (h r hr)
    refine ⟨hself, ?_⟩
    intro r hr hk f f' data offset hw x y hne
    have hin : r.contains x y = true := by
      by_contra hout
      have hsame := SpatialFrame.readCell_after (f := f) (hself r hr) data offset (Bool.not_eq_true _ ▸ hout)
      rw [hw] at hsame
      exact hne hsame
    exact ⟨hin, contains_data hr hk hin⟩

/-- A data region under the executable rows, by the name of these. -/
theorem execution_shadows : ∃ l, SpatialLayout.create 2 2 1 [⟨"execution", 0, 1, 1, 1, "data"⟩] = .ok l ∧ ¬Resolves l := by
  have hregions : (SpatialLayout.create 2 2 1 [⟨"execution", 0, 1, 1, 1, "data"⟩]).map (·.regions) =
      .ok [⟨"execution", 0, 1, 1, 1, "data"⟩] := by rfl
  cases hl : SpatialLayout.create 2 2 1 [⟨"execution", 0, 1, 1, 1, "data"⟩] with
  | error e =>
    rw [hl] at hregions
    cases hregions
  | ok l =>
    rw [hl] at hregions
    refine ⟨l, rfl, ?_⟩
    intro h
    have hl' : l.regions = [⟨"execution", 0, 1, 1, 1, "data"⟩] := Except.ok.inj hregions
    have hmem : ⟨"execution", 0, 1, 1, 1, "data"⟩ ∈ l.regions := by
      rw [hl']
      exact List.mem_singleton.mpr rfl
    have hkind := congrArg SpatialRegion.kind (((resolves_self_iff hmem).mp (h.self _ hmem)).2 rfl)
    exact absurd hkind (by decide : ¬"data" = "execution")

end

/-! ## JSON -/

namespace SpatialFrame

variable {layout : SpatialLayout} {r : SpatialRegion} {region : Option String}

/-- What `write_json` leaves in a region, and what `read_json` makes of it. -/
structure JsonRegion (r : SpatialRegion) (region : Option String) (f : SpatialFrame layout) : Prop where
  written : ∀ v : Json, v.Normal → (v.dumps false).length < 2 ^ 32 →
    if r.capacityBytes < 4 + (v.dumps false).length then
      (∃ e, f.writeJson v region = .error e) ∧ f.after (f.writeJson v region) = f
    else ∃ f', f.writeJson v region = .ok f' ∧ f'.readJson region = .ok v
  confined : ∀ (loads : List UInt8 → Option Json) (f' : SpatialFrame layout),
    (∀ x y : Nat, r.contains x y = true → f'.image.px y x = f.image.px y x) →
      f'.readJsonBy loads region = f.readJsonBy loads region
  empty : ∀ loads, f.header r = 0 → f.readJsonBy loads region = .ok .null
  declared : ∀ loads, f.header r > r.capacityBytes - 4 →
    f.readJsonBy loads region = .error (.declared (f.header r) (r.capacityBytes - 4))
  parsed : ∀ loads, f.header r ≠ 0 → f.header r ≤ r.capacityBytes - 4 →
    f.readJsonBy loads region = match loads (slice (block f.image r) 4 (f.header r)) with
      | some v => .ok v
      | none => .error .corrupt
  reader : f.readJson region = f.readJsonBy Json.loads region

/-- The last write wins, and a damaged region is read no further than its end. -/
theorem json_region (f : SpatialFrame layout) (hr : layout.region region = .ok r) (h4 : 4 ≤ r.capacityBytes) :
    JsonRegion r region f := by
  refine ⟨?_, ?_, ?_, ?_, ?_, rfl⟩
  · intro v hv hlen
    split
    · rename_i hcap
      rw [writeJson_eq f hr, if_neg (by omega), if_pos hcap]
      exact ⟨⟨_, rfl⟩, rfl⟩
    · rcases writeJson_done f hr hv ⟨by omega, hlen⟩ with ⟨f', hw, hread, -⟩
      exact ⟨f', hw, hread⟩
  · intro loads f' h
    have hheader : f'.header r = f.header r := by rw [header, header, block_local h]
    rw [readJsonBy_eq loads f hr h4, readJsonBy_eq loads f' hr h4, hheader, block_local h]
  · intro loads h0
    rw [readJsonBy_eq loads f hr h4, if_pos h0]
  · intro loads hc
    rw [readJsonBy_eq loads f hr h4, if_neg (by omega), if_pos hc]
  · intro loads h0 hc
    have hread := readJsonBy_eq loads f hr h4
    rw [if_neg h0, if_neg (by omega)] at hread
    exact hread

/-- The storage row of two cells. -/
theorem json_region_oneRow : JsonRegion oneRow.storageRegion none (blank oneRow) :=
  json_region (blank oneRow) (by rfl) (by decide)

end SpatialFrame

end PyxelVM.Spatial
