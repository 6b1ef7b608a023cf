/-
  PyxelVM.Memory.SpatialStore — `SpatialPixelStore` (`zdx_pixel_memory/spatial_store.py`):
  a dictionary in the storage plane of one PNG.

  A store object is a path and a layout; every call reads the dictionary from the file
  and, if it changes it, writes it back whole. A file holds the raster it was saved
  with. A call that raises has not saved.

  `Call.onDict` is the call on a plain dictionary, `Call.bounded` that on one that only
  takes what fits. `refines_dict`: through any number of store objects on one path, in
  any order of calls, every call answers as the bounded dictionary does, and raises
  where it refuses; the executable rows keep their pixels. A payload of 2^32 bytes does
  not fit its header, however large the plane: `long_payload_raises`.
-/

import PyxelVM.Lib.Text
import PyxelVM.Lib.Trace
import PyxelVM.Spatial.Frame

namespace PyxelVM.Memory

open Function (update)
open PyxelVM.Lib
open PyxelVM.Spatial
open PyxelVM.Vm (File Raised Raster Pixel)

abbrev Files := String → File

/-- A JSON value that reads back as itself. -/
abbrev NormalJson := { v : Json // v.Normal }

/-! ## The store -/

inductive StoreError where
  | file (e : Raised)
  | frame (e : FrameError)
  | notDictionary
  deriving DecidableEq, Repr

/-- The text, where it is the repository's. -/
def StoreError.message (repr : String → String) (exc : String) : StoreError → Option String
  | .file e => e.message
  | .frame e => some (e.message repr exc)
  | .notDictionary => some "SpatialPixelStore root payload is not a dictionary"

structure SpatialPixelStore where
  path : String
  layout : SpatialLayout

namespace SpatialPixelStore

/-- The constructor once the layout is made: the file is made if there is none. -/
def attach (path : String) (layout : SpatialLayout) (files : Files) : SpatialPixelStore × Files :=
  (⟨path, layout⟩,
    match files path with
    | .missing => update files path (.image (SpatialFrame.blank layout).image)
    | _ => files)

/-- The constructor. -/
def create (files : Files) (path : String := "zdx_memory.spatial.png") (width height : Int := 256)
    (executionRows : Int := 0) : Except LayoutError (SpatialPixelStore × Files) :=
  (SpatialLayout.create width height executionRows []).map fun layout => attach path layout files

def capacityBytes (s : SpatialPixelStore) : Nat := s.layout.storageCapacityBytes

def readAll (s : SpatialPixelStore) (files : Files) : Except StoreError (Dict String Json) := do
  let frame ← (SpatialFrame.openAt s.layout files s.path).mapError .file
  let value ← (frame.readJson none).mapError .frame
  match value with
  | .null => return .empty
  | .obj members => return .ofList members
  | _ => throw .notDictionary

def writeAll (s : SpatialPixelStore) (values : Dict String Json) (files : Files) : Except StoreError Files := do
  let frame ← (SpatialFrame.openAt s.layout files s.path).mapError .file
  let frame ← (frame.writeJson (.obj values.entries) none).mapError .frame
  return update files s.path (.image frame.image)

def write (s : SpatialPixelStore) (key : String) (value : Json) (files : Files) : Except StoreError (String × Files) := do
  let values ← s.readAll files
  let files ← s.writeAll (values.set key value) files
  return (s.path, files)

def read (s : SpatialPixelStore) (key : String) (default : Json) (files : Files) : Except StoreError Json := do
  let values ← s.readAll files
  return values.getD key default

def delete (s : SpatialPixelStore) (key : String) (files : Files) : Except StoreError (Bool × Files) := do
  let values ← s.readAll files
  if values.has key then
    let files ← s.writeAll (values.erase key) files
    return (true, files)
  else return (false, files)

/-- `exists`. -/
def existsKey (s : SpatialPixelStore) (key : String) (files : Files) : Except StoreError Bool := do
  let values ← s.readAll files
  return values.has key

def keys (s : SpatialPixelStore) (files : Files) : Except StoreError (List String) := do
  let values ← s.readAll files
  return sorted values.keys

def all (s : SpatialPixelStore) (files : Files) : Except StoreError (Dict String Json) := s.readAll files

def clear (s : SpatialPixelStore) (files : Files) : Except StoreError Files := s.writeAll .empty files

end SpatialPixelStore

/-! ## Calls -/

inductive Call where
  | write (key : String) (value : NormalJson)
  | read (key : String) (default : Json)
  | delete (key : String)
  | existsKey (key : String)
  | keys
  | all
  | clear

/-- What a call returns. -/
inductive Answer where
  | path (p : String)
  | value (v : Json)
  | bool (b : Bool)
  | keys (ks : List String)
  | dict (d : Dict String Json)
  | none
  deriving DecidableEq

def Call.run (s : SpatialPixelStore) (files : Files) : Call → Except StoreError (Answer × Files)
  | .write key value => (s.write key value files).map fun r => (.path r.1, r.2)
  | .read key default => (s.read key default files).map fun v => (.value v, files)
  | .delete key => (s.delete key files).map fun r => (.bool r.1, r.2)
  | .existsKey key => (s.existsKey key files).map fun b => (.bool b, files)
  | .keys => (s.keys files).map fun ks => (.keys ks, files)
  | .all => (s.all files).map fun d => (.dict d, files)
  | .clear => (s.clear files).map fun files => (.none, files)

/-- The store objects made so far, and the files. -/
structure World where
  stores : List SpatialPixelStore
  files : Files

/-- An object is made on the path, or the object numbered `i` is called. -/
inductive Event where
  | attach
  | call (i : Nat) (c : Call)

/-- The call's answer or exception; nothing if no object was called. -/
def World.step (path : String) (layout : SpatialLayout) (w : World) : Event → Option (Except StoreError Answer) × World
  | .attach =>
    let r := SpatialPixelStore.attach path layout w.files
    (none, ⟨w.stores ++ [r.1], r.2⟩)
  | .call i c =>
    match w.stores[i]? with
    | none => (none, w)
    | some s =>
      match c.run s w.files with
      | .ok (a, files) => (some (.ok a), { w with files := files })
      | .error e => (some (.error e), w)

/-! ## The dictionary it refines -/

/-- The call on a plain dictionary. -/
def Call.onDict (path : String) (d : Dict String Json) : Call → Answer × Dict String Json
  | .write key value => (.path path, d.set key value)
  | .read key default => (.value (d.getD key default), d)
  | .delete key => if d.has key then (.bool true, d.erase key) else (.bool false, d)
  | .existsKey key => (.bool (d.has key), d)
  | .keys => (.keys (sorted d.keys), d)
  | .all => (.dict d, d)
  | .clear => (.none, .empty)

/-- The dictionary can be written to the plane: with its header it is no larger, and the header holds its length. -/
def Storable (layout : SpatialLayout) (d : Dict String Json) : Prop := SpatialFrame.Fits layout.storageRegion (.obj d.entries)

instance (layout : SpatialLayout) (d : Dict String Json) : Decidable (Storable layout d) :=
  inferInstanceAs (Decidable (SpatialFrame.Fits _ _))

/-- The call on a dictionary that stays as it is where it would not be storable. -/
def Call.bounded (path : String) (layout : SpatialLayout) (d : Dict String Json) (c : Call) : Option Answer × Dict String Json :=
  let r := c.onDict path d
  if Storable layout r.2 then (some r.1, r.2) else (none, d)

/-- How many objects there are, and the dictionary. -/
structure Spec where
  stores : Nat
  dict : Dict String Json

def Spec.step (path : String) (layout : SpatialLayout) (t : Spec) : Event → Option (Option Answer) × Spec
  | .attach => (none, { t with stores := t.stores + 1 })
  | .call i c =>
    if i < t.stores then
      let r := c.bounded path layout t.dict
      (some r.1, { t with dict := r.2 })
    else (none, t)

/-! ## What the file holds -/

variable {path : String} {layout : SpatialLayout} {start : Raster} {d : Dict String Json}

/-- The image is the layout's, its plane holds `d`, and its executable rows are those of `start`. -/
structure Holds (layout : SpatialLayout) (start img : Raster) (d : Dict String Json) : Prop where
  size : img.width = layout.width ∧ img.height = layout.height
  json : (SpatialFrame.mk img size).readJson none = .ok (.obj d.entries) ∨
    (SpatialFrame.mk img size).readJson none = .ok .null ∧ d = .empty
  normal : ∀ m ∈ d.entries, m.2.Normal
  storable : Storable layout d
  rows : ∀ y < layout.executionRows, ∀ x < layout.width, img.px y x = start.px y x

theorem region_none (h : 0 < layout.storageCapacityBytes) : layout.region none = .ok layout.storageRegion := by
  have hh : layout.storageRegion.height ≠ 0 := by
    intro e
    rw [SpatialLayout.storageCapacityBytes, SpatialRegion.capacityBytes, SpatialRegion.cells, e] at h
    omega
  simp [SpatialLayout.region, hh]

/-- A plane of at least four bytes has six. -/
theorem storable_empty (h : 4 ≤ layout.storageCapacityBytes) : Storable layout .empty := by
  have hl : (Json.dumps false (.obj (Dict.empty : Dict String Json).entries)).length = 2 := by decide +kernel
  have h3 : layout.storageCapacityBytes = layout.storageRegion.cells * 3 := rfl
  show 4 + (Json.dumps false (.obj (Dict.empty : Dict String Json).entries)).length ≤ layout.storageCapacityBytes ∧ _
  rw [hl]
  omega

theorem readAll_holds {files : Files} {img : Raster} (h : Holds layout start img d) (hf : files path = .image img) :
    SpatialPixelStore.readAll ⟨path, layout⟩ files = .ok d := by
  rw [SpatialPixelStore.readAll, SpatialFrame.openAt_image hf h.size]
  rcases h.json with hj | ⟨hj, hd⟩
  · simp only [Except.mapError, bind, Except.bind, hj, pure, Except.pure, Dict.ofList_entries]
  · simp only [Except.mapError, bind, Except.bind, hj, pure, Except.pure, hd]

/-- Writing a dictionary: it is stored, or does not fit and nothing is written. -/
theorem writeAll_holds {files : Files} {img : Raster} (hpos : 0 < layout.storageCapacityBytes) (h : Holds layout start img d)
    (hf : files path = .image img) {e : Dict String Json} (he : ∀ m ∈ e.entries, m.2.Normal) :
    if Storable layout e then
      ∃ img', SpatialPixelStore.writeAll ⟨path, layout⟩ e files = .ok (update files path (.image img')) ∧
        Holds layout start img' e
    else ∃ err, SpatialPixelStore.writeAll ⟨path, layout⟩ e files = .error err := by
  have hr := region_none hpos
  simp only [SpatialPixelStore.writeAll, SpatialFrame.openAt_image hf h.size]
  split
  · rename_i hfit
    have hn : (Json.obj e.entries).Normal := by rw [Json.Normal, Json.normalMembers_iff]; exact ⟨e.nodup, he⟩
    obtain ⟨f, hw, hj, hout⟩ := SpatialFrame.writeJson_done ⟨img, h.size⟩ hr hn hfit
    simp only [Except.mapError, bind, Except.bind, hw, pure, Except.pure]
    refine ⟨f.image, rfl, f.size, .inl hj, he, hfit, ?_⟩
    intro y hy x hx
    have hc : layout.storageRegion.contains x y = false := by
      rw [Bool.eq_false_iff, ne_eq, contains_iff]
      simp only [SpatialLayout.storageRegion]
      omega
    rw [hout x y hc, h.rows y hy x hx]
  · rename_i hfit
    obtain ⟨err, hw⟩ := (SpatialFrame.writeJson_raises_iff ⟨img, h.size⟩ hr _).mpr hfit
    simp only [Except.mapError, bind, Except.bind, hw]
    exact ⟨_, rfl⟩

theorem normal_set (h : ∀ m ∈ d.entries, m.2.Normal) (key : String) {v : Json} (hv : v.Normal) :
    ∀ m ∈ (d.set key v).entries, m.2.Normal := by
  rintro ⟨l, w⟩ hm
  rw [Dict.mem_entries, Dict.get?_set] at hm
  split at hm
  · cases hm; exact hv
  · exact h (l, w) (Dict.mem_entries.mpr hm)

theorem normal_erase (h : ∀ m ∈ d.entries, m.2.Normal) (key : String) : ∀ m ∈ (d.erase key).entries, m.2.Normal :=
  fun m hm => h m (List.mem_of_mem_filter hm)

/-- The call ended as the dictionary's answer and next state say: with that answer and
    the file holding the next state if it is storable, else with an exception. -/
def Meets (path : String) (layout : SpatialLayout) (start : Raster) (r : Answer × Dict String Json)
    (o : Except StoreError (Answer × Files)) : Prop :=
  if Storable layout r.2 then
    ∃ files img, o = .ok (r.1, files) ∧ files path = .image img ∧ Holds layout start img r.2
  else ∃ err, o = .error err

theorem meets_kept {files : Files} {img : Raster} (h : Holds layout start img d) (hf : files path = .image img) (a : Answer) :
    Meets path layout start (a, d) (.ok (a, files)) := by
  rw [Meets, if_pos h.storable]
  exact ⟨files, img, rfl, hf, h⟩

theorem meets_written {files : Files} {img : Raster} (hpos : 0 < layout.storageCapacityBytes) (h : Holds layout start img d)
    (hf : files path = .image img) {e : Dict String Json} (he : ∀ m ∈ e.entries, m.2.Normal) (a : Answer) :
    Meets path layout start (a, e) ((SpatialPixelStore.writeAll ⟨path, layout⟩ e files).map fun files => (a, files)) := by
  have hw := writeAll_holds hpos h hf he
  unfold Meets
  split at hw
  · rename_i hfit
    obtain ⟨img', hw, h'⟩ := hw
    rw [if_pos hfit, hw]
    exact ⟨_, img', rfl, Function.update_self .., h'⟩
  · rename_i hfit
    obtain ⟨err, hw⟩ := hw
    rw [if_neg hfit, hw]
    exact ⟨err, rfl⟩

/-- One call on the store and on the dictionary it holds. -/
theorem call_run {files : Files} {img : Raster} (hpos : 0 < layout.storageCapacityBytes) (h : Holds layout start img d)
    (hf : files path = .image img) (c : Call) :
    Meets path layout start (c.onDict path d) (c.run ⟨path, layout⟩ files) := by
  have hread := readAll_holds h hf
  cases c with
  | write key value =>
    have hrun : Call.run ⟨path, layout⟩ files (.write key value) =
        (SpatialPixelStore.writeAll ⟨path, layout⟩ (d.set key value) files).map fun files => (.path path, files) := by
      simp only [Call.run, SpatialPixelStore.write, hread, bind, Except.bind]
      cases SpatialPixelStore.writeAll ⟨path, layout⟩ (d.set key value) files <;> rfl
    rw [hrun]
    exact meets_written hpos h hf (normal_set h.normal key value.2) (.path path)
  | read key default =>
    simp only [Call.run, SpatialPixelStore.read, hread]
    exact meets_kept h hf _
  | delete key =>
    cases hk : d.has key with
    | false =>
      have hd : Call.onDict path d (.delete key) = (.bool false, d) := by simp only [Call.onDict, hk]; rfl
      simp only [hd, Call.run, SpatialPixelStore.delete, hread, bind, Except.bind, hk]
      exact meets_kept h hf _
    | true =>
      have hrun : Call.run ⟨path, layout⟩ files (.delete key) =
          (SpatialPixelStore.writeAll ⟨path, layout⟩ (d.erase key) files).map fun files => (.bool true, files) := by
        simp only [Call.run, SpatialPixelStore.delete, hread, bind, Except.bind, hk, if_true]
        cases SpatialPixelStore.writeAll ⟨path, layout⟩ (d.erase key) files <;> rfl
      have hd : Call.onDict path d (.delete key) = (.bool true, d.erase key) := by simp only [Call.onDict, hk, if_true]
      rw [hrun, hd]
      exact meets_written hpos h hf (normal_erase h.normal key) (.bool true)
  | existsKey key =>
    simp only [Call.run, SpatialPixelStore.existsKey, hread]
    exact meets_kept h hf _
  | keys =>
    simp only [Call.run, SpatialPixelStore.keys, hread]
    exact meets_kept h hf _
  | all =>
    simp only [Call.run, SpatialPixelStore.all, hread]
    exact meets_kept h hf _
  | clear => exact meets_written hpos h hf (fun m hm => absurd hm List.not_mem_nil) .none

/-! ## Runs -/

/-- The world and the dictionary: as many objects, all on the path; the file is not there
    yet, and no object either, or it holds the dictionary. -/
structure Refines (path : String) (layout : SpatialLayout) (start : Raster) (w : World) (t : Spec) : Prop where
  stores : w.stores = List.replicate t.stores ⟨path, layout⟩
  file : (∃ img, w.files path = .image img ∧ Holds layout start img t.dict) ∨
    w.files path = .missing ∧ t.stores = 0 ∧ Holds layout start (SpatialFrame.blank layout).image t.dict

theorem step_refines (hpos : 0 < layout.storageCapacityBytes) {w : World} {t : Spec} (h : Refines path layout start w t)
    (e : Event) :
    (w.step path layout e).1.map Except.toOption = (t.step path layout e).1 ∧
      Refines path layout start (w.step path layout e).2 (t.step path layout e).2 := by
  cases e with
  | attach =>
    have hstores : w.stores ++ [⟨path, layout⟩] = List.replicate (t.stores + 1) ⟨path, layout⟩ := by
      rw [h.stores, List.replicate_succ']
    refine ⟨rfl, hstores, .inl ?_⟩
    rcases h.file with ⟨img, hf, hh⟩ | ⟨hf, -, hh⟩
    · exact ⟨img, by simp only [World.step, SpatialPixelStore.attach, hf], hh⟩
    · exact ⟨_, by simp only [World.step, SpatialPixelStore.attach, hf, Function.update_self], hh⟩
  | call i c =>
    by_cases hi : i < t.stores
    · have hs : w.stores[i]? = some ⟨path, layout⟩ := by rw [h.stores]; simp [hi]
      rcases h.file with ⟨img, hf, hh⟩ | ⟨-, h0, -⟩
      · have hrun := call_run hpos hh hf c
        simp only [World.step, Spec.step, Call.bounded, hs, if_pos hi]
        unfold Meets at hrun
        split at hrun
        · rename_i hfit
          obtain ⟨files', img', hrun, hf', hh'⟩ := hrun
          rw [if_pos hfit, hrun]
          exact ⟨rfl, h.stores, .inl ⟨img', hf', hh'⟩⟩
        · rename_i hfit
          obtain ⟨err, hrun⟩ := hrun
          rw [if_neg hfit, hrun]
          exact ⟨rfl, h.stores, .inl ⟨img, hf, hh⟩⟩
      · omega
    · have hs : w.stores[i]? = none := by rw [h.stores]; simp; omega
      simp only [World.step, Spec.step, hs, if_neg hi]
      exact ⟨rfl, h⟩

/-- An image of the layout's size whose storage rows are blank. -/
structure BlankStorage (layout : SpatialLayout) (img : Raster) : Prop where
  size : img.width = layout.width ∧ img.height = layout.height
  px : ∀ y, layout.executionRows ≤ y → y < layout.height → ∀ x < layout.width, img.px y x = .nop

theorem blankStorage_blank (layout : SpatialLayout) : BlankStorage layout (SpatialFrame.blank layout).image :=
  ⟨(SpatialFrame.blank layout).size, fun _ _ _ _ _ => rfl⟩

theorem holds_blank (hpos : 4 ≤ layout.storageCapacityBytes) (h : BlankStorage layout start) :
    Holds layout start start .empty := by
  have hzero : ∀ i < layout.storageRegion.capacityBytes, byteAt start layout.storageRegion i = 0 := by
    intro i hi
    obtain ⟨-, hx, hy, hy'⟩ := contains_iff.mp (cell_of_byte hi)
    simp only [SpatialLayout.storageRegion, Nat.zero_add] at hx hy hy'
    have hnop := h.px _ hy (by have := layout.rows_le; omega) _ hx
    rw [byteAt, SpatialLayout.storageRegion, Nat.zero_add, hnop]
    have hm : i % 3 = 0 ∨ i % 3 = 1 ∨ i % 3 = 2 := by omega
    rcases hm with e | e | e <;> rw [e] <;> rfl
  have hheader : slice (block start layout.storageRegion) 0 4 = List.replicate 4 0 := by
    refine List.eq_replicate_iff.mpr ⟨length_slice (by rw [length_block]; exact hpos), ?_⟩
    intro b hb
    obtain ⟨i, hi, rfl⟩ := List.mem_map.mp (List.mem_of_mem_drop (List.mem_of_mem_take hb))
    exact hzero i (List.mem_range.mp hi)
  exact {
    size := h.size
    json := .inr ⟨SpatialFrame.readJson_zeros ⟨start, h.size⟩ (region_none (by omega)) hpos hheader, rfl⟩
    normal := fun m hm => absurd hm List.not_mem_nil
    storable := storable_empty hpos
    rows := fun _ _ _ _ => rfl }

/-- The stores on one path are one dictionary: along any run of calls through any
    number of objects, from a file whose storage rows are blank or from none, every
    call answers as the dictionary does, and raises exactly where the dictionary it
    would write is not storable; that leaves the dictionary as it was. No run changes
    the executable rows. -/
theorem refines_dict (path : String) (layout : SpatialLayout) (hpos : 4 ≤ layout.storageCapacityBytes) (files : Files)
    (start : Raster) (hblank : BlankStorage layout start)
    (hfile : files path = .image start ∨ files path = .missing ∧ start = (SpatialFrame.blank layout).image) (es : List Event) :
    ((Trace.log (World.step path layout) ⟨[], files⟩ es).map fun x => x.2.map Except.toOption) =
        (Trace.log (Spec.step path layout) ⟨0, .empty⟩ es).map (·.2) ∧
      ∀ img, (Trace.final (World.step path layout) ⟨[], files⟩ es).files path = .image img →
        ∀ y < layout.executionRows, ∀ x < layout.width, img.px y x = start.px y x := by
  have hstart : Refines path layout start ⟨[], files⟩ ⟨0, .empty⟩ := by
    refine ⟨rfl, ?_⟩
    rcases hfile with hf | ⟨hf, rfl⟩
    · exact .inl ⟨start, hf, holds_blank hpos hblank⟩
    · exact .inr ⟨hf, rfl, holds_blank hpos hblank⟩
  obtain ⟨hlog, hend⟩ := Trace.lockstep (R := Refines path layout start) (fun w t e h => step_refines (by omega) h e) hstart es
  refine ⟨hlog, ?_⟩
  intro img himg
  rcases hend.file with ⟨img', hf, hh⟩ | ⟨hf, -, -⟩
  · rw [hf] at himg
    cases himg
    exact hh.rows
  · rw [hf] at himg
    cases himg

/-- A plane of 21 bytes under four executable rows. -/
def smallPlane : SpatialLayout := .bare 7 5 4 (by decide) (by decide) (by decide)

/-- It holds a key; a longer value is refused, and the key stays; another store deletes it. -/
theorem refines_dict_small :
    ((Trace.log (World.step "m.png" smallPlane) ⟨[], fun _ => .missing⟩
        [.attach, .attach, .call 0 (.write "k" ⟨.null, trivial⟩), .call 1 (.read "k" (.bool true)),
          .call 1 (.write "k" ⟨.str "a longer text", trivial⟩), .call 0 .all, .call 1 (.delete "k"), .call 0 .keys]).map
          fun x => x.2.map Except.toOption) =
      [none, none, some (some (.path "m.png")), some (some (.value .null)), some none,
        some (some (.dict (Dict.empty.set "k" .null))), some (some (.bool true)), some (some (.keys []))] :=
  (refines_dict "m.png" smallPlane (by decide) (fun _ => .missing) (SpatialFrame.blank smallPlane).image
    (blankStorage_blank smallPlane) (.inr ⟨rfl, rfl⟩) _).1.trans (by decide +kernel)

/-! ## A payload too long for its header -/

theorem writeAll_overflow {files : Files} {img : Raster} (hpos : 0 < layout.storageCapacityBytes) (h : Holds layout start img d)
    (hf : files path = .image img) {e : Dict String Json} (he : 2 ^ 32 ≤ (Json.dumps false (.obj e.entries)).length) :
    SpatialPixelStore.writeAll ⟨path, layout⟩ e files = .error (.frame .overflow) := by
  simp only [SpatialPixelStore.writeAll, SpatialFrame.openAt_image hf h.size, Except.mapError, bind, Except.bind,
    SpatialFrame.writeJson_eq _ (region_none hpos), if_pos he]

/-- The string of `n` letters. -/
def letters (n : Nat) : NormalJson := ⟨.str (String.ofList (List.replicate n 'a')), trivial⟩

/-- The dictionary of one such string. -/
def lettersDict (n : Nat) : Dict String Json := Dict.empty.set "k" (letters n)

theorem length_letters (n : Nat) : (Json.dumps false (.obj (lettersDict n).entries)).length = n + 8 := by
  have hesc : (List.replicate n 'a').flatMap (Json.escapeChar false) = List.replicate n 'a' := by
    have ha : Json.escapeChar false 'a' = ['a'] := by decide
    rw [List.flatMap_replicate, ha]
    induction n with
    | zero => rfl
    | succ n ih => rw [List.replicate_succ, List.flatten_cons, ih]; rfl
  have hset : (lettersDict n).entries = [("k", (letters n).1)] := rfl
  have htext : Json.text false (.obj (lettersDict n).entries) =
      ['{', '"', 'k', '"', ':', '"'] ++ (List.replicate n 'a' ++ ['"', '}']) := by
    simp only [hset, letters, Json.text, Json.membersText, Json.stringText, String.toList_ofList, hesc]
    simp [Json.escapeChar]
  rw [Json.dumps, htext, length_utf8_ascii]
  · simp
  · intro c hc
    simp only [List.mem_append, List.mem_replicate, List.mem_cons, List.not_mem_nil, or_false] at hc
    rcases hc with (rfl | rfl | rfl | rfl | rfl | rfl) | ⟨-, rfl⟩ | rfl | rfl <;> decide

/-- A plane of six billion bytes. -/
def wide : SpatialLayout := .bare 65536 32768 0 (by decide) (by decide) (by decide)

/-- It is blank. -/
def wideFiles : Files := fun _ => .image (SpatialFrame.blank wide).image

theorem write_letters (hpos : 4 ≤ layout.storageCapacityBytes) {files : Files}
    (hf : files path = .image (SpatialFrame.blank layout).image) {n : Nat} (hn : 2 ^ 32 ≤ n) :
    (Trace.log (World.step path layout) ⟨[], files⟩ [.attach, .call 0 (.write "k" (letters n))]).map (·.2) =
      [none, some (.error (.frame .overflow))] := by
  have hh := holds_blank hpos (blankStorage_blank layout)
  have hread := readAll_holds hh hf
  have hover := writeAll_overflow (e := lettersDict n) (by omega) hh hf (by rw [length_letters]; omega)
  have hrun : Call.run ⟨path, layout⟩ files (.write "k" (letters n)) = .error (.frame .overflow) := by
    simp only [Call.run, SpatialPixelStore.write, hread, bind, Except.bind]
    rw [lettersDict] at hover
    rw [hover]
    rfl
  simp only [Trace.log_cons, Trace.log_nil, World.step, SpatialPixelStore.attach, hf, List.nil_append,
    List.getElem?_cons_zero, hrun, List.map_cons, List.map_nil]

/-- The encoded dictionary is smaller than the plane, and the call raises. -/
theorem long_payload_raises :
    (SpatialFrame.encoded (.obj (lettersDict (2 ^ 32)).entries)).length ≤ wide.storageCapacityBytes ∧
      (Trace.log (World.step "m.png" wide) ⟨[], wideFiles⟩ [.attach, .call 0 (.write "k" (letters (2 ^ 32)))]).map (·.2) =
        [none, some (.error (.frame .overflow))] := by
  refine ⟨?_, write_letters (by decide) rfl (Nat.le_refl _)⟩
  rw [SpatialFrame.length_encoded, length_letters]
  decide

end PyxelVM.Memory
