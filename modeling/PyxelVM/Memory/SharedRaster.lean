/-
  PyxelVM.Memory.SharedRaster — a program and a memory in one raster: `SpatialPyxelVM`
  executes the rows above (`zdx_spatial_frame.py`), `SpatialPixelStore` objects keep a
  dictionary in the rows below (`zdx_pixel_memory/spatial_store.py`).

  Both go by the file. The machine never writes it; a store writes it whole, but leaves
  the executable rows as they were. So neither sees the other, in whatever order they come:
  `neither_seen`.
-/

import PyxelVM.Memory.SpatialStore
import PyxelVM.Spatial.Machine

namespace PyxelVM.Memory

open PyxelVM.Lib
open PyxelVM.Spatial
open PyxelVM.Vm

/-- The stores with the files, and the machine. -/
structure SharedRaster (layout : SpatialLayout) where
  world : World
  machine : Machine layout.executionRows

/-- A store is made on the raster or called, or the machine executes a frame. -/
inductive RasterEvent where
  | store (e : Event)
  | execute (frame : String)

namespace RasterEvent

/-- What a call of a store returns or raises, or how an execution ends. -/
inductive Report (layout : SpatialLayout) where
  | store (answer : Option (Except StoreError Answer))
  | ran (end_ : Outcome Raised (Machine layout.executionRows))

def step (cfg : Config) (path : String) (layout : SpatialLayout) (s : SharedRaster layout) : RasterEvent → Report layout × SharedRaster layout
  | store e =>
    let r := s.world.step path layout e
    (.store r.1, { s with world := r.2 })
  | execute frame =>
    let o := executeSpatial cfg layout s.world.files frame s.machine
    (.ran o, { s with machine := o.state })

def isExecute : RasterEvent → Bool
  | execute _ => true
  | store _ => false

def storeEvent? : RasterEvent → Option Event
  | store e => some e
  | execute _ => none

/-- What the user of the machine sees. -/
def runs {layout : SpatialLayout} (_ : RasterEvent) : Report layout → List (Outcome Raised (Machine layout.executionRows))
  | .ran o => [o]
  | .store _ => []

/-- What the users of the stores see: answers, and that a call raised. -/
def answers {layout : SpatialLayout} (_ : RasterEvent) : Report layout → List (Option (Option Answer))
  | .store a => [a.map Except.toOption]
  | .ran _ => []

end RasterEvent

variable {cfg : Config} {path : String} {layout : SpatialLayout} {start : Raster}

/-- The files as the machine finds them: on the path the layout's image with the executable rows
    of `start`, everywhere else what was there. -/
structure Executable (path : String) (layout : SpatialLayout) (start : Raster) (files₀ files : Files) : Prop where
  image : ∃ img d, files path = .image img ∧ Holds layout start img d
  others : ∀ p, p ≠ path → files p = files₀ p

theorem sameRows_holds {img : Raster} {d : Dict String Json} (h : Holds layout start img d)
    (hsize : start.width = layout.width ∧ start.height = layout.height) : SameRows layout.executionRows start img := by
  have hw : start.width = img.width := by rw [hsize.1, h.size.1]
  have hh : start.height = img.height := by rw [hsize.2, h.size.2]
  refine ⟨hw, by rw [hh], ?_⟩
  intro y hy x hx
  exact (h.rows y (by omega) x (hsize.1 ▸ hx)).symm

/-- An execution comes out as on the files at the beginning. -/
theorem execute_executable {files₀ files : Files} (h₀ : files₀ path = .image start)
    (hsize : start.width = layout.width ∧ start.height = layout.height) (h : Executable path layout start files₀ files)
    (frame : String) (m : Machine layout.executionRows) :
    executeSpatial cfg layout files frame m = executeSpatial cfg layout files₀ frame m := by
  obtain ⟨img, d, hf, hh⟩ := h.image
  have hsame (p : String) : SameFile layout.executionRows (files₀ p) (files p) := by
    by_cases hp : p = path
    · rw [hp, h₀, hf]
      exact .image (sameRows_holds hh hsize)
    · rw [h.others p hp]
      cases files₀ p with
      | missing => exact .missing
      | notImage => exact .notImage
      | image img => exact .image ⟨rfl, rfl, fun _ _ _ _ => rfl⟩
  have hchain : executeTexture cfg files₀ frame m = executeTexture cfg files frame m := by
    rw [executeTexture, executeTexture, follow_congr (fun p _ _ => hsame p) cfg.maxChain .start]
  rw [executeSpatial, executeSpatial]
  by_cases hp : frame = path
  · rw [hp] at hchain ⊢
    rw [SpatialFrame.openAt_image hf hh.size, SpatialFrame.openAt_image h₀ hsize, hchain]
  · rw [SpatialFrame.openAt, SpatialFrame.openAt, h.others frame hp, hchain]

/-! ## What a store writes -/

theorem writeAll_others {s : SpatialPixelStore} {values : Dict String Json} {files files' : Files}
    (h : s.writeAll values files = .ok files') {p : String} (hp : p ≠ s.path) : files' p = files p := by
  obtain ⟨frame, -, h⟩ := except_bind_ok h
  obtain ⟨written, -, h⟩ := except_bind_ok h
  rw [← Except.ok.inj h, Function.update_of_ne hp]

/-- A call writes no file but its own. -/
theorem call_others {s : SpatialPixelStore} {files files' : Files} {c : Call} {a : Answer} (h : c.run s files = .ok (a, files'))
    {p : String} (hp : p ≠ s.path) : files' p = files p := by
  cases c with
  | write key value =>
    obtain ⟨r, hr, he⟩ := except_map_ok h
    obtain ⟨values, -, hr⟩ := except_bind_ok hr
    obtain ⟨written, hw, hr⟩ := except_bind_ok hr
    rw [← (Prod.mk.inj he).2, ← Except.ok.inj hr]
    exact writeAll_others hw hp
  | delete key =>
    obtain ⟨r, hr, he⟩ := except_map_ok h
    obtain ⟨values, -, hr⟩ := except_bind_ok hr
    rw [← (Prod.mk.inj he).2]
    split at hr
    · obtain ⟨written, hw, hr⟩ := except_bind_ok hr
      rw [← Except.ok.inj hr]
      exact writeAll_others hw hp
    · rw [← Except.ok.inj hr]
  | clear =>
    obtain ⟨written, hw, he⟩ := except_map_ok h
    rw [← (Prod.mk.inj he).2]
    exact writeAll_others hw hp
  | read key default =>
    obtain ⟨v, -, he⟩ := except_map_ok h
    rw [← (Prod.mk.inj he).2]
  | existsKey key =>
    obtain ⟨v, -, he⟩ := except_map_ok h
    rw [← (Prod.mk.inj he).2]
  | keys =>
    obtain ⟨v, -, he⟩ := except_map_ok h
    rw [← (Prod.mk.inj he).2]
  | all =>
    obtain ⟨v, -, he⟩ := except_map_ok h
    rw [← (Prod.mk.inj he).2]

theorem step_others {w : World} {t : Spec} (hw : Refines path layout start w t) (e : Event) {p : String} (hp : p ≠ path) :
    (w.step path layout e).2.files p = w.files p := by
  cases e with
  | attach =>
    simp only [World.step, SpatialPixelStore.attach]
    cases w.files path with
    | missing => exact Function.update_of_ne hp _ _
    | notImage => rfl
    | image img => rfl
  | call i c =>
    simp only [World.step]
    cases hs : w.stores[i]? with
    | none => rfl
    | some s =>
      have hpath : s = ⟨path, layout⟩ := by
        rw [hw.stores] at hs
        exact List.eq_of_mem_replicate (List.mem_of_getElem? hs)
      cases hrun : c.run s w.files with
      | error err => simp only [hrun]
      | ok r =>
        obtain ⟨a, files'⟩ := r
        simp only [hrun]
        exact call_others hrun (by rw [hpath]; exact hp)

/-! ## Neither sees the other -/

/-- The raster holds the dictionary below, and above what the machine found at the beginning. -/
structure Coexist (path : String) (layout : SpatialLayout) (start : Raster) (files₀ : Files) (s : SharedRaster layout) (t : Spec) : Prop where
  refines : Refines path layout start s.world t
  executable : Executable path layout start files₀ s.world.files

/-- A raster that is there stays there. -/
theorem image_stays (hpos : 0 < layout.storageCapacityBytes) {files₀ : Files} {s : SharedRaster layout} {t : Spec} (h : Coexist path layout start files₀ s t) (e : Event) :
    (s.world.step path layout e).2.files path ≠ .missing := by
  obtain ⟨img, d, hf, -⟩ := h.executable.image
  cases e with
  | attach => simp [World.step, SpatialPixelStore.attach, hf]
  | call i c =>
    rcases (step_refines hpos h.refines (.call i c)).2.file with ⟨img', hf', -⟩ | ⟨-, h0, -⟩
    · rw [hf']
      exact File.noConfusion
    · have hstores : t.stores = 0 := by
        simp only [Spec.step] at h0
        split at h0 <;> exact h0
      have hnone : s.world.stores[i]? = none := by
        rw [h.refines.stores, hstores]
        rfl
      simp [World.step, hnone, hf]

theorem coexist_store (hpos : 0 < layout.storageCapacityBytes) {files₀ : Files} {s : SharedRaster layout} {t : Spec}
    (h : Coexist path layout start files₀ s t) (e : Event) :
    (s.world.step path layout e).1.map Except.toOption = (t.step path layout e).1 ∧
      Coexist path layout start files₀ { s with world := (s.world.step path layout e).2 } (t.step path layout e).2 := by
  obtain ⟨hans, hrefines⟩ := step_refines hpos h.refines e
  refine ⟨hans, hrefines, ?_, fun p hp => (step_others h.refines e hp).trans (h.executable.others p hp)⟩
  rcases hrefines.file with ⟨img, hf, hh⟩ | ⟨hf, -, -⟩
  · exact ⟨img, _, hf, hh⟩
  · exact absurd hf (image_stays hpos h e)

theorem answers_run (hpos : 0 < layout.storageCapacityBytes) {files₀ : Files} {s : SharedRaster layout} {t : Spec}
    (h : Coexist path layout start files₀ s t) (es : List RasterEvent) :
    Trace.seen (RasterEvent.step cfg path layout) RasterEvent.answers s es =
      (Trace.log (Spec.step path layout) t (es.filterMap RasterEvent.storeEvent?)).map (·.2) := by
  induction es generalizing s t with
  | nil => rfl
  | cons e es ih =>
    rw [Trace.seen_cons]
    cases e with
    | store e =>
      obtain ⟨hans, hnext⟩ := coexist_store hpos h e
      have hfm : (RasterEvent.store e :: es).filterMap RasterEvent.storeEvent? = e :: es.filterMap RasterEvent.storeEvent? := rfl
      rw [hfm, Trace.log_cons, List.map_cons, ← hans, ← ih hnext]
      rfl
    | execute frame =>
      have hfm : (RasterEvent.execute frame :: es).filterMap RasterEvent.storeEvent? = es.filterMap RasterEvent.storeEvent? := rfl
      rw [hfm, ← ih (s := ((RasterEvent.execute frame).step cfg path layout s).2) ⟨h.refines, h.executable⟩]
      rfl

/-- Where the storage has 4 bytes or more and starts blank, the users of the machine see what they saw
    without the stores, and those of the stores see a dictionary: whatever is executed in between, and
    whatever the stores hold by then. -/
theorem neither_seen (cfg : Config) (path : String) (layout : SpatialLayout) (hpos : 4 ≤ layout.storageCapacityBytes) (files : Files)
    (start : Raster) (hblank : BlankStorage layout start) (hfile : files path = .image start) (m : Machine layout.executionRows)
    (es : List RasterEvent) :
    let step := RasterEvent.step cfg path layout
    Trace.seen step RasterEvent.runs ⟨⟨[], files⟩, m⟩ es =
        Trace.seen step RasterEvent.runs ⟨⟨[], files⟩, m⟩ (es.filter RasterEvent.isExecute) ∧
      Trace.seen step RasterEvent.answers ⟨⟨[], files⟩, m⟩ es =
        (Trace.log (Spec.step path layout) ⟨0, .empty⟩ (es.filterMap RasterEvent.storeEvent?)).map (·.2) := by
  intro step
  have hrefines : Refines path layout start ⟨[], files⟩ ⟨0, .empty⟩ := ⟨rfl, .inl ⟨start, hfile, holds_blank hpos hblank⟩⟩
  have hcoexist : Coexist path layout start files ⟨⟨[], files⟩, m⟩ ⟨0, .empty⟩ :=
    ⟨hrefines, ⟨start, .empty, hfile, holds_blank hpos hblank⟩, fun _ _ => rfl⟩
  constructor
  · exact (Trace.erase_filter step RasterEvent.runs RasterEvent.isExecute
      (fun s s' => s.machine = s'.machine ∧ (∃ t, Coexist path layout start files s t) ∧ s'.world.files = files)
      (by
        rintro s s' e ⟨hm, ⟨t, ht⟩, hf⟩ he
        cases e with
        | store e => cases he
        | execute frame =>
          have hrun : (RasterEvent.execute frame).step cfg path layout s =
              (.ran (executeSpatial cfg layout files frame s'.machine),
                { s with machine := (executeSpatial cfg layout files frame s'.machine).state }) := by
            rw [RasterEvent.step, execute_executable hfile hblank.size ht.executable frame s.machine, hm]
          have hrun' : (RasterEvent.execute frame).step cfg path layout s' =
              (.ran (executeSpatial cfg layout files frame s'.machine),
                { s' with machine := (executeSpatial cfg layout files frame s'.machine).state }) := by
            rw [RasterEvent.step, hf]
          show _ ∧ RasterEvent.runs _ ((RasterEvent.execute frame).step cfg path layout s).1 =
            RasterEvent.runs _ ((RasterEvent.execute frame).step cfg path layout s').1
          simp only [step, hrun, hrun']
          exact ⟨⟨trivial, ⟨t, ht.refines, ht.executable⟩, hf⟩, trivial⟩)
      (by
        rintro s s' e ⟨hm, ⟨t, ht⟩, hf⟩ he
        cases e with
        | execute frame => cases he
        | store e => exact ⟨⟨hm, ⟨_, (coexist_store (by omega) ht e).2⟩, hf⟩, rfl⟩)
      ⟨rfl, ⟨_, hcoexist⟩, rfl⟩ es).2
  · exact answers_run (by omega) hcoexist es

/-- A thread that stores 9 in slot 0, and idle ones over a blank plane. -/
def storingRaster : Raster :=
  ⟨7, 5, fun y x => if y = 0 then if x = 0 then ⟨10, 0, 9⟩ else if x = 1 then ⟨41, 0, 0⟩ else ⟨255, 0, 0⟩ else .nop⟩

/-- A key is stored, read after an execution, and cleared before the next. -/
def between : List RasterEvent :=
  [.store .attach, .store (.call 0 (.write "k" ⟨.null, trivial⟩)), .execute "m.png", .store (.call 0 (.read "k" (.bool true))),
    .store (.call 0 .clear), .execute "m.png"]

theorem neither_seen_between :
    let step := RasterEvent.step {} "m.png" smallPlane
    let s : SharedRaster smallPlane := ⟨⟨[], fun _ => .image storingRaster⟩, {}⟩
    Trace.seen step RasterEvent.runs s between = Trace.seen step RasterEvent.runs s [.execute "m.png", .execute "m.png"] ∧
      Trace.seen step RasterEvent.answers s between =
          [none, some (some (.path "m.png")), some (some (.value .null)), some (some .none)] ∧
        (Trace.final step s between).machine.shared 0 = 9 := by
  intro step s
  have hblank : BlankStorage smallPlane storingRaster := by
    refine ⟨⟨rfl, rfl⟩, fun y (hy : 4 ≤ y) _ x _ => ?_⟩
    rw [storingRaster]
    exact if_neg (by omega)
  have h := neither_seen {} "m.png" smallPlane (by decide) (fun _ => .image storingRaster) _ hblank rfl {} between
  exact ⟨h.1, h.2.trans (by decide +kernel), by decide +kernel⟩

end PyxelVM.Memory
