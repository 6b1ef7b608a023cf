/-
  PyxelVM.Spatial.Machine — `SpatialPyxelVM` (`zdx_spatial_frame.py`): storage never runs.

  The machine has as many threads as the layout has executable rows, and
  `execute_spatial` runs the chain of frames once the first has the layout's size; the
  later ones are of any size.

  - `visit_congr`, `column_congr`, `runFrame_congr`: a turn, a column, a frame come out
    the same on two images that agree on the rows of the threads.
  - `follow_congr`: so does a chain over two families of files that agree so on every
    frame the chain comes to (`Opened`).
  - `storage_never_runs`: so does `execute_spatial`, exception and all.
-/

import PyxelVM.Spatial.Frame

namespace PyxelVM.Spatial

open PyxelVM.Lib
open PyxelVM.Vm

def executeSpatial (cfg : Config) (layout : SpatialLayout) (files : String → File) (path : String)
    (m : Machine layout.executionRows) : Outcome Raised (Machine layout.executionRows) :=
  match SpatialFrame.openAt layout files path with
  | .error e => .raised e m
  | .ok _ => executeTexture cfg files path m

/-! ## What a frame reads -/

variable {n : Nat} {cfg : Config} {img img' : Raster}

/-- The images agree on their width, on how many of the first `n` rows they have, and on those rows. -/
structure SameRows (n : Nat) (img img' : Raster) : Prop where
  width : img.width = img'.width
  rows : min n img.height = min n img'.height
  px : ∀ y < min n img.height, ∀ x < img.width, img.px y x = img'.px y x

theorem SameRows.get? (h : SameRows n img img') {y : Nat} (hy : y < n) (x : Nat) : img.get? y x = img'.get? y x := by
  have hr := h.rows
  have hh : y < img.height ↔ y < img'.height := by omega
  unfold Raster.get?
  by_cases hin : y < img.height ∧ x < img.width
  · rw [if_pos hin, if_pos ⟨hh.mp hin.1, h.width ▸ hin.2⟩, h.px y (by omega) x hin.2]
  · rw [if_neg hin, if_neg fun h' => hin ⟨hh.mpr h'.1, h.width ▸ h'.2⟩]

theorem dispatch_congr (h : SameRows n img img') {y : Nat} (hy : y < n) (x : Nat) (p : Pixel) (c : Core) :
    dispatch cfg img y x p c = dispatch cfg img' y x p c := by
  unfold dispatch
  rw [h.get? hy, h.width]

theorem visit_congr (h : SameRows n img img') (y : Fin n) (f : Frame n) : visit cfg img y f = visit cfg img' y f := by
  have hr := h.rows
  have hy := y.isLt
  have hh : img.height ≤ y ↔ img'.height ≤ y := by omega
  simp only [visit, hh, h.get? hy, dispatch_congr h hy]

theorem column_congr (h : SameRows n img img') (f : Frame n) : column cfg img f = column cfg img' f := by
  unfold column
  rw [forEach_congr fun y _ f => visit_congr h y f]

theorem runFrame_congr (h : SameRows n img img') (path : String) (m : Machine n) :
    runFrame cfg path img m = runFrame cfg path img' m := by
  have hc : (column cfg img : Frame n → _) = column cfg img' := funext (column_congr h)
  unfold runFrame
  rw [hc, h.width]

/-! ## What a chain reads -/

/-- The files agree for `n` threads: both missing, both unreadable, or images with the same rows. -/
inductive SameFile (n : Nat) : File → File → Prop where
  | missing : SameFile n .missing .missing
  | notImage : SameFile n .notImage .notImage
  | image {img img' : Raster} (h : SameRows n img img') : SameFile n (.image img) (.image img')

/-- The run from `start` comes to the frame at `path`, with the machine `m`: it is the
    first, or the one that a SAVE_STATE of a frame before it named. -/
inductive Opened (cfg : Config) (files : String → File) (start : String) (m₀ : Machine n) : String → Machine n → Prop where
  | start : Opened cfg files start m₀ start m₀
  | next {path path' : String} {m m' : Machine n} (h : Opened cfg files start m₀ path m)
      (hrun : executeSingle cfg files path m = .done m') (hnext : m'.nextFrame = some path') : Opened cfg files start m₀ path' m'

theorem executeSingle_congr {files files' : String → File} {path : String} (h : SameFile n (files path) (files' path))
    (m : Machine n) : executeSingle cfg files path m = executeSingle cfg files' path m := by
  unfold executeSingle
  generalize files path = f at h
  generalize files' path = f' at h
  cases h with
  | missing => rfl
  | notImage => rfl
  | image h => exact runFrame_congr h path m

theorem follow_congr {files files' : String → File} {start : String} {m₀ : Machine n}
    (h : ∀ path m, Opened cfg files start m₀ path m → SameFile n (files path) (files' path)) (k : Nat) {path : String}
    {m : Machine n} (hp : Opened cfg files start m₀ path m) : follow cfg files k path m = follow cfg files' k path m := by
  induction k generalizing path m with
  | zero => rfl
  | succ k ih =>
    simp only [follow, ← executeSingle_congr (h path m hp)]
    cases hrun : executeSingle cfg files path m with
    | raised e m' => rfl
    | done m' =>
      simp only [Outcome.bind_done]
      cases hnext : m'.nextFrame with
      | none => rfl
      | some path' =>
        have hp' : Opened cfg files start m₀ path' m' := hp.next hrun hnext
        have hf := h path' m' hp'
        simp only
        generalize files path' = f at hf ⊢
        generalize files' path' = f' at hf ⊢
        cases hf with
        | missing => rfl
        | notImage => exact ih hp'
        | image => exact ih hp'

/-- Storage pixels never influence execution: two families of files that agree, for
    every frame the run comes to, on its width and its rows up to `execution_rows` give
    `execute_spatial` the same outcome, the exception and the machine it leaves. -/
theorem storage_never_runs (cfg : Config) (layout : SpatialLayout) (files files' : String → File) (path : String)
    (m : Machine layout.executionRows) {img img' : Raster} (hf : files path = .image img) (hf' : files' path = .image img')
    (hsize : img.width = layout.width ∧ img.height = layout.height)
    (hsize' : img'.width = layout.width ∧ img'.height = layout.height)
    (hsame : ∀ p q, Opened cfg files path m p q → SameFile layout.executionRows (files p) (files' p)) :
    executeSpatial cfg layout files path m = executeSpatial cfg layout files' path m := by
  simp only [executeSpatial, SpatialFrame.openAt, hf, hf', dif_pos hsize, dif_pos hsize', executeTexture]
  rw [follow_congr hsame cfg.maxChain .start]

/-- The executable row sets A and halts; `below` is in storage. -/
def overStorage (below : Pixel) : Raster :=
  ⟨2, 2, fun y x => if y = 0 then if x = 0 then ⟨10, 0, 9⟩ else ⟨255, 0, 0⟩ else below⟩

/-- A live opcode in storage, and none. -/
theorem storage_never_runs_once :
    executeSpatial {} oneRow (fun _ => .image (overStorage ⟨70, 0, 0⟩)) "frame.png" {} =
      executeSpatial {} oneRow (fun _ => .image (overStorage .nop)) "frame.png" {} :=
  storage_never_runs {} oneRow _ _ "frame.png" {} rfl rfl ⟨rfl, rfl⟩ ⟨rfl, rfl⟩ fun _ _ _ =>
    .image ⟨rfl, rfl, fun y hy x _ => by
      have hy : y = 0 := by simp [oneRow, SpatialLayout.bare, overStorage] at hy; omega
      simp [overStorage, hy]⟩

end PyxelVM.Spatial
