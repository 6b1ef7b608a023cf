/-
  PyxelVM.Network.Workload — workload manifests and the features they ask of a node
  (`zdx_workload_manifest.py`, `zdx_frame_manifest.py`, `zdx_capabilities.py`).

  Python values are `Json` values, None is `null`. A frame manifest is a
  `ZDXFrameManifest`, another object with `payload()` (known by what that gives, the same
  at every call), or a value carried as it is, such as a dict. A key of a dict that
  `dict()` makes is known by the text `json.dumps` writes for it.

  A workload is spatial if its payload has a layout, or its execution model or that of
  its frame manifest is `spatial-png`. It is `Gated` if then no node is accepted that
  does not advertise `spatial-png-v1`.

  - `gated_iff`: exactly when that holds of the payload, by what the caller passed.
  - `inferred_gated`: of what is inferred from a frame manifest alone it always holds.
  - `layout_ungated`: it can fail. A layout is no reason to ask for the feature, and an
    explicit execution model outweighs the one of the frame manifest.
-/

import Mathlib.Algebra.Order.Field.Rat
import PyxelVM.Lib.Dict
import PyxelVM.Lib.Exec
import PyxelVM.Lib.Json
import PyxelVM.Lib.JsonText

namespace PyxelVM.Network

open PyxelVM.Lib

/-! ## Python's `dict` -/

/-- The text of a key; an array or an object is none. -/
def keyText : Json → Option String
  | .null => some "null"
  | .bool b => some (if b then "true" else "false")
  | .int n => some (toString n)
  | .float f => some (String.ofList f.chars)
  | .str s => some s
  | .arr _ | .obj _ => none

/-- An element of a sequence as key and value: anything of two parts. -/
def pairOf : Json → Option (String × Json)
  | .arr [k, v] => (keyText k).map fun k => (k, v)
  | .obj [k, v] => some (k.1, .str v.1)
  | .str s =>
    match s.toList with
    | [a, b] => some (String.singleton a, .str (String.singleton b))
    | _ => none
  | _ => none

/-- `dict(v)`, and nothing where it raises a TypeError or a ValueError. -/
def dictOf : Json → Option (Dict String Json)
  | .obj members => some (Dict.ofList members)
  | .arr items => (items.mapM pairOf).map Dict.ofList
  | .str s => if s = "" then some Dict.empty else none
  | _ => none

/-- `v.get(key)` of a dict; other values have no entries here. -/
def field (v : Json) (key : String) : Json :=
  match v with
  | .obj members => (members.lookup key).getD .null
  | _ => .null

/-! ## Layouts and frame manifests -/

/-- What is passed as `spatial_layout`. -/
inductive LayoutArg where
  | none
  | object (toDict : Json)
  | dict (members : Dict String Json)
  | other

inductive ManifestError where
  | layoutType
  | notMapping
  deriving DecidableEq, Repr

/-- The text, where it is the repository's. -/
def ManifestError.message : ManifestError → Option String
  | .layoutType => some "spatial_layout must be a dict, expose to_dict(), or be None"
  | .notMapping => none

/-- `_normalize_layout`. -/
def normalizeLayout : LayoutArg → Except ManifestError Json
  | .none => .ok .null
  | .object v => .ok v
  | .dict d => .ok (.obj d.entries)
  | .other => .error .layoutType

/-- `dict(v)` of a layout. -/
def layoutDict (v : Json) : Except ManifestError (Dict String Json) :=
  match dictOf v with
  | some d => .ok d
  | none => .error .notMapping

/-- `ZDXFrameManifest`; the hash and the creation time are given. -/
structure ZDXFrameManifest where
  frameHash : String
  size : Nat
  created : FloatText
  frameFormat : String
  spatialLayout : Json
  spatialVersion : Json
  executionModel : String

def ZDXFrameManifest.create (frameHash : String) (size : Nat) (created : FloatText) (frameFormat : String) (layout : LayoutArg)
    (spatialVersion : Int) : Except ManifestError ZDXFrameManifest := do
  let spatialLayout ← normalizeLayout layout
  return {
    frameHash, size, created, frameFormat, spatialLayout
    spatialVersion := if spatialLayout = .null then .null else .int spatialVersion
    executionModel := if spatialLayout = .null then "pixel-frame" else "spatial-png" }

def ZDXFrameManifest.payload (m : ZDXFrameManifest) : Except ManifestError Json :=
  let base : List (String × Json) := [("hash", .str m.frameHash), ("size", .int m.size), ("created", .float m.created),
    ("frame_format", .str m.frameFormat), ("execution_model", .str m.executionModel)]
  if m.spatialLayout = .null then .ok (.obj base)
  else (layoutDict m.spatialLayout).map fun layout =>
    .obj (base ++ [("spatial_version", m.spatialVersion), ("spatial_layout", .obj layout.entries)])

inductive FrameManifest where
  | manifest (m : ZDXFrameManifest)
  | object (payload : Json)
  | value (v : Json)

/-- `_frame_payload`. -/
def FrameManifest.payload : FrameManifest → Except ManifestError Json
  | .manifest m => m.payload
  | .object payload => .ok payload
  | .value v => .ok v

/-! ## Workload manifests -/

def spatialFeature : String := "spatial-png-v1"

structure ZDXWorkloadManifest where
  workloadId : String
  frameManifest : FrameManifest
  created : FloatText
  executionModel : Json
  requiredVmFeatures : List String
  spatialLayout : Json

/-- The execution model that counts: the caller's, or else the frame manifest's. -/
def chosenModel (executionModel frame : Json) : Json :=
  if executionModel = .null then field frame "execution_model" else executionModel

/-- The caller's layout, or else a copy of the frame manifest's. -/
def chosenLayout (layout frame : Json) : Except ManifestError Json :=
  if layout = .null then
    if field frame "spatial_layout" = .null then .ok .null
    else (layoutDict (field frame "spatial_layout")).map fun d => .obj d.entries
  else .ok layout

/-- The constructor; an absent execution model is `null`, absent features are the empty list. -/
def ZDXWorkloadManifest.create (workloadId : String) (frameManifest : FrameManifest) (created : FloatText)
    (executionModel : Json) (requiredVmFeatures : List String) (layout : LayoutArg) :
    Except ManifestError ZDXWorkloadManifest := do
  let spatialLayout ← normalizeLayout layout
  let frame ← frameManifest.payload
  let executionModel := chosenModel executionModel frame
  let spatialLayout ← chosenLayout spatialLayout frame
  let requiredVmFeatures :=
    if executionModel = .str "spatial-png" ∧ spatialFeature ∉ requiredVmFeatures then requiredVmFeatures ++ [spatialFeature]
    else requiredVmFeatures
  return { workloadId, frameManifest, created, executionModel, requiredVmFeatures, spatialLayout }

/-- What `payload()` gives; entries that are left out of the dict are none. -/
structure WorkloadPayload where
  workloadId : String
  frameManifest : Json
  created : FloatText
  executionModel : Option Json
  requiredVmFeatures : Option (List String)
  spatialLayout : Option (Dict String Json)

/-- The copy of the layout in the payload. -/
def ZDXWorkloadManifest.payloadLayout (w : ZDXWorkloadManifest) : Except ManifestError (Option (Dict String Json)) :=
  if w.spatialLayout = .null then .ok none else (layoutDict w.spatialLayout).map some

def ZDXWorkloadManifest.payload (w : ZDXWorkloadManifest) : Except ManifestError WorkloadPayload := do
  let frame ← w.frameManifest.payload
  let spatialLayout ← w.payloadLayout
  return {
    workloadId := w.workloadId
    frameManifest := frame
    created := w.created
    executionModel := if w.executionModel = .null then none else some w.executionModel
    requiredVmFeatures := if w.requiredVmFeatures = [] then none else some w.requiredVmFeatures
    spatialLayout }

/-! ## Capabilities -/

structure NodeCapabilities where
  nodeId : String
  os : String
  architecture : String
  cpuCount : Nat
  gpu : Bool
  npu : Bool
  vmFeatures : List String

/-- What is asked for its features; a dict or an object may have none. -/
inductive Capabilities where
  | node (c : NodeCapabilities)
  | dict (vmFeatures : Option (List String))
  | object (vmFeatures : Option (List String))

def Capabilities.available : Capabilities → List String
  | .node c => c.vmFeatures
  | .dict vmFeatures | .object vmFeatures => vmFeatures.getD []

def supportsRequiredFeatures (c : Capabilities) (required : Option (List String)) : Bool :=
  (required.getD []).all fun f => c.available.contains f

/-! ## Gating -/

/-- The payload has a layout, or its execution model or its frame manifest's is the spatial one. -/
def WorkloadPayload.Spatial (p : WorkloadPayload) : Prop :=
  p.spatialLayout.isSome = true ∨ p.executionModel = some (.str "spatial-png") ∨
    field p.frameManifest "execution_model" = .str "spatial-png"

/-- A spatial workload is refused by every node that does not advertise the feature. -/
def WorkloadPayload.Gated (p : WorkloadPayload) : Prop :=
  p.Spatial → ∀ c : Capabilities, spatialFeature ∉ c.available → supportsRequiredFeatures c p.requiredVmFeatures = false

theorem supports_iff (c : Capabilities) (required : Option (List String)) :
    supportsRequiredFeatures c required = true ↔ ∀ f ∈ required.getD [], f ∈ c.available := by
  simp [supportsRequiredFeatures]

/-- The nodes without the feature are refused exactly where the feature is asked for: a node may advertise all else. -/
theorem refused_iff (required : Option (List String)) :
    (∀ c : Capabilities, spatialFeature ∉ c.available → supportsRequiredFeatures c required = false) ↔
      spatialFeature ∈ required.getD [] := by
  constructor
  · intro h
    by_contra hno
    have hc := h (.dict (some ((required.getD []).filter (· ≠ spatialFeature)))) (by simp [Capabilities.available])
    have hs := (supports_iff (.dict (some ((required.getD []).filter (· ≠ spatialFeature)))) required).mpr (by
      intro f hf
      have hne : f ≠ spatialFeature := by rintro rfl; exact hno hf
      simp [Capabilities.available, hf, hne])
    rw [hs] at hc
    cases hc
  · intro h c hc
    exact Bool.eq_false_iff.mpr fun hs => hc ((supports_iff c required).mp hs _ h)

/-- Neither the caller nor the frame manifest has a layout. -/
def NoLayout (layout : LayoutArg) (frame : Json) : Prop :=
  normalizeLayout layout = .ok .null ∧ field frame "spatial_layout" = .null

section

variable {workloadId : String} {frameManifest : FrameManifest} {created : FloatText} {executionModel : Json}
  {features : List String} {layout : LayoutArg} {w : ZDXWorkloadManifest} {p : WorkloadPayload} {frame : Json}

theorem chosenLayout_null {given v : Json} (h : chosenLayout given frame = .ok v) :
    v = .null ↔ given = .null ∧ field frame "spatial_layout" = .null := by
  unfold chosenLayout at h
  split at h
  · rename_i hg
    split at h
    · rename_i hfl
      cases h
      exact ⟨fun _ => ⟨hg, hfl⟩, fun _ => rfl⟩
    · rename_i hfl
      obtain ⟨d, -, rfl⟩ := except_map_ok h
      exact ⟨fun hv => (nomatch hv), fun hv => absurd hv.2 hfl⟩
  · rename_i hg
    cases h
    exact ⟨fun hv => absurd hv hg, fun hv => absurd hv.1 hg⟩

/-- What the constructor has made of its arguments. -/
theorem create_fields (hf : frameManifest.payload = .ok frame)
    (hw : ZDXWorkloadManifest.create workloadId frameManifest created executionModel features layout = .ok w) :
    w.frameManifest = frameManifest ∧ w.executionModel = chosenModel executionModel frame ∧
      (spatialFeature ∈ w.requiredVmFeatures ↔
        spatialFeature ∈ features ∨ chosenModel executionModel frame = .str "spatial-png") ∧
      (w.spatialLayout = .null ↔ NoLayout layout frame) := by
  obtain ⟨given, hl, hw⟩ := except_bind_ok hw
  obtain ⟨frame', hf', hw⟩ := except_bind_ok hw
  obtain rfl : frame' = frame := Except.ok.inj (hf'.symm.trans hf)
  obtain ⟨v, hc, hw⟩ := except_bind_ok hw
  cases hw
  refine ⟨rfl, rfl, ?_, ?_⟩
  · by_cases h1 : chosenModel executionModel frame' = .str "spatial-png" <;> by_cases h2 : spatialFeature ∈ features <;>
      simp [h1, h2]
  · rw [NoLayout, hl, Except.ok.injEq]
    exact chosenLayout_null hc

theorem payloadLayout_some {v : Option (Dict String Json)} (h : w.payloadLayout = .ok v) :
    v.isSome = true ↔ w.spatialLayout ≠ .null := by
  unfold ZDXWorkloadManifest.payloadLayout at h
  split at h
  · rename_i hn
    cases h
    simp [hn]
  · rename_i hn
    obtain ⟨l, -, rfl⟩ := except_map_ok h
    simp [hn]

/-- What `payload` makes of a manifest. -/
theorem payload_fields (hf : w.frameManifest.payload = .ok frame) (hp : w.payload = .ok p) :
    p.frameManifest = frame ∧ (p.executionModel = some (.str "spatial-png") ↔ w.executionModel = .str "spatial-png") ∧
      p.requiredVmFeatures.getD [] = w.requiredVmFeatures ∧ (p.spatialLayout.isSome = true ↔ w.spatialLayout ≠ .null) := by
  obtain ⟨frame', hf', hp⟩ := except_bind_ok hp
  obtain rfl : frame' = frame := Except.ok.inj (hf'.symm.trans hf)
  obtain ⟨v, hl, hp⟩ := except_bind_ok hp
  cases hp
  refine ⟨rfl, ?_, ?_, payloadLayout_some hl⟩
  · by_cases h : w.executionModel = .null <;> simp [h]
  · by_cases h : w.requiredVmFeatures = [] <;> simp [h]

theorem spatial_iff (hf : frameManifest.payload = .ok frame)
    (hw : ZDXWorkloadManifest.create workloadId frameManifest created executionModel features layout = .ok w)
    (hp : w.payload = .ok p) :
    p.Spatial ↔ ¬NoLayout layout frame ∨ chosenModel executionModel frame = .str "spatial-png" ∨
      field frame "execution_model" = .str "spatial-png" := by
  obtain ⟨hframe, hmodel, -, hlayout⟩ := create_fields hf hw
  obtain ⟨hpframe, hpmodel, -, hplayout⟩ := payload_fields (hframe ▸ hf) hp
  unfold WorkloadPayload.Spatial
  rw [hplayout, hpmodel, hpframe, hmodel, ne_eq, hlayout]

/-- The feature is asked for by the caller, or added for the spatial model. -/
theorem gated_iff_asked (hf : frameManifest.payload = .ok frame)
    (hw : ZDXWorkloadManifest.create workloadId frameManifest created executionModel features layout = .ok w)
    (hp : w.payload = .ok p) :
    p.Gated ↔ (p.Spatial → spatialFeature ∈ features ∨ chosenModel executionModel frame = .str "spatial-png") := by
  obtain ⟨hframe, -, hfeat, -⟩ := create_fields hf hw
  obtain ⟨-, -, hpfeat, -⟩ := payload_fields (hframe ▸ hf) hp
  unfold WorkloadPayload.Gated
  rw [refused_iff, hpfeat, hfeat]

/-- The workload is gated exactly when the caller asks for the feature, or the execution model that counts is the
    spatial one, or there is no layout and the frame manifest's execution model is not the spatial one. -/
theorem gated_iff (hf : frameManifest.payload = .ok frame)
    (hw : ZDXWorkloadManifest.create workloadId frameManifest created executionModel features layout = .ok w)
    (hp : w.payload = .ok p) :
    p.Gated ↔ spatialFeature ∈ features ∨ chosenModel executionModel frame = .str "spatial-png" ∨
      (NoLayout layout frame ∧ field frame "execution_model" ≠ .str "spatial-png") := by
  rw [gated_iff_asked hf hw hp, spatial_iff hf hw hp]
  by_cases h1 : spatialFeature ∈ features
  · simp [h1]
  · by_cases h2 : chosenModel executionModel frame = .str "spatial-png"
    · simp [h2]
    · by_cases h3 : NoLayout layout frame <;> simp [h1, h2, h3]

/-- A frame manifest names the spatial model exactly where it has a layout, and passes both on. -/
theorem frame_fields {frameHash frameFormat : String} {size : Nat} {spatialVersion : Int} {m : ZDXFrameManifest}
    (hm : ZDXFrameManifest.create frameHash size created frameFormat layout spatialVersion = .ok m)
    (hf : m.payload = .ok frame) :
    field frame "execution_model" = .str "spatial-png" ∨
      (field frame "execution_model" = .str "pixel-frame" ∧ field frame "spatial_layout" = .null) := by
  obtain ⟨v, -, hm⟩ := except_bind_ok hm
  cases hm
  simp only [ZDXFrameManifest.payload] at hf
  split at hf
  · rename_i hn
    cases hf
    exact .inr ⟨by simp [field, Dict.lookup_cons], by simp [field, Dict.lookup_cons]⟩
  · rename_i hn
    obtain ⟨d, -, rfl⟩ := except_map_ok hf
    exact .inl (by simp [field, Dict.lookup_cons])

/-- What is inferred from a frame manifest alone is gated. -/
theorem inferred_gated {frameHash frameFormat : String} {size : Nat} {spatialVersion : Int} {m : ZDXFrameManifest}
    (hm : ZDXFrameManifest.create frameHash size created frameFormat layout spatialVersion = .ok m)
    (hf : m.payload = .ok frame)
    (hw : ZDXWorkloadManifest.create workloadId (.manifest m) created .null features .none = .ok w)
    (hp : w.payload = .ok p) : p.Gated := by
  have hframe : FrameManifest.payload (.manifest m) = .ok frame := hf
  rw [gated_iff_asked hframe hw hp, spatial_iff hframe hw hp]
  rcases frame_fields hm hf with hmodel | ⟨hmodel, hlayout⟩
  · exact fun _ => .inr hmodel
  · rintro (hno | hchosen | hspatial)
    · exact absurd ⟨rfl, hlayout⟩ hno
    · exact .inr hchosen
    · rw [hmodel] at hspatial
      exact absurd hspatial (by decide)

end

def zeroTime : FloatText := ⟨['0', '.', '0'], rfl⟩

/-- A layout as a dict. -/
def wireLayout : Dict String Json := Dict.ofList [("width", .int 8), ("height", .int 8), ("execution_rows", .int 2)]

/-- The manifest of a frame without a layout. -/
def pixelFrame : ZDXFrameManifest := ⟨"00", 1, zeroTime, "png", .null, .null, "pixel-frame"⟩

/-- With the execution model given beside the layout. -/
theorem layout_gated : ∃ w p, ZDXWorkloadManifest.create "work" (.manifest pixelFrame) zeroTime (.str "spatial-png") []
    (.dict wireLayout) = .ok w ∧ w.payload = .ok p ∧ p.Gated := by
  refine ⟨_, _, rfl, rfl, ?_⟩
  have hf : FrameManifest.payload (.manifest pixelFrame) = .ok _ := rfl
  have hw : ZDXWorkloadManifest.create "work" (.manifest pixelFrame) zeroTime (.str "spatial-png") [] (.dict wireLayout) =
      .ok _ := rfl
  exact (gated_iff hf hw rfl).mpr (.inr (.inl (by decide)))

/-- A layout for a frame whose manifest has none: the workload carries it and asks for nothing. -/
theorem layout_ungated : ¬∀ workloadId frameManifest created executionModel features layout w p,
    ZDXWorkloadManifest.create workloadId frameManifest created executionModel features layout = .ok w →
      w.payload = .ok p → p.Gated := by
  intro h
  have hp := h "work" (.manifest pixelFrame) zeroTime .null [] (.dict wireLayout) _ _ rfl rfl
  have hs := hp (.inl rfl) (.dict none) (by simp [Capabilities.available])
  exact absurd hs (by decide)

end PyxelVM.Network
