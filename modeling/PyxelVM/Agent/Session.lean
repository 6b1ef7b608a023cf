/-
  PyxelVM.Agent.Session — an agent at work (`zdx_agent_runtime.py`, `pyxel_registry.py`).

  A registry that things are registered in and removed from, one `SpatialPyxelVM`, one
  spatial memory on a file, and the files, to which frames are saved. A `run` executes
  a frame on the VM as the run before has left it, and remembers the VM's dicts: as JSON
  text, in the storage rows of the memory's PNG.

  - `recalls_last_run`: whatever came before a run that returned, and whatever comes after
    it, short of a call on these keys: what the memory recalls are the slots and registers
    that the VM had at the end of that run, and the layout after a spatial one, also where
    later runs raised and have left the VM itself in another state. No frame is saved over
    the memory's own PNG.
-/

import PyxelVM.Agent.Runtime
import PyxelVM.Memory.Agent
import PyxelVM.Spatial.Machine
import PyxelVM.Vm.Dicts

namespace PyxelVM.Agent

open Function (update)
open PyxelVM.Lib
open PyxelVM.Memory
open PyxelVM.Spatial
open PyxelVM.Vm

/-! ## The registry -/

abbrev PyxelRegistry (α : Type) := Dict String α

namespace PyxelRegistry

variable {α : Type}

/-- A name that is no string is out of the question here. -/
def register (r : PyxelRegistry α) (name : String) (obj : α) : Except String (PyxelRegistry α) :=
  if r.has name then
    .error s!"PyxelRegistry: '{name}' is already registered. Call unregister('{name}') first to replace it."
  else .ok (r.set name obj)

def unregister (r : PyxelRegistry α) (name : String) : Except String (PyxelRegistry α) :=
  if r.has name then .ok (r.erase name) else .error s!"PyxelRegistry: '{name}' is not registered."

def get (r : PyxelRegistry α) (name : String) : Except String α :=
  match r.get? name with
  | some obj => .ok obj
  | none => .error s!"PyxelRegistry: '{name}' is not registered."

def registered (r : PyxelRegistry α) : List String := sorted r.keys

end PyxelRegistry

/-! ## The values remembered -/

mutual

def decidableNormal : (v : Json) → Decidable v.Normal
  | .int n => inferInstanceAs (Decidable ((Nat.toDigits 10 n.natAbs).length ≤ 4300))
  | .arr items => decidableNormalItems items
  | .obj members =>
    have := decidableNormalMembers members
    inferInstanceAs (Decidable ((members.map (·.1)).Nodup ∧ Json.NormalMembers members))
  | .null | .bool _ | .float _ | .str _ => isTrue trivial

def decidableNormalItems : (vs : List Json) → Decidable (Json.NormalItems vs)
  | [] => isTrue trivial
  | v :: vs =>
    have := decidableNormal v
    have := decidableNormalItems vs
    inferInstanceAs (Decidable (v.Normal ∧ Json.NormalItems vs))

def decidableNormalMembers : (ms : List (String × Json)) → Decidable (Json.NormalMembers ms)
  | [] => isTrue trivial
  | (_, v) :: ms =>
    have := decidableNormal v
    have := decidableNormalMembers ms
    inferInstanceAs (Decidable (v.Normal ∧ Json.NormalMembers ms))

end

instance (v : Json) : Decidable v.Normal := decidableNormal v

/-- A dict of integers, as `remember` is given it. -/
def jsonDict (d : Dict String Int) : Json := .obj (d.mapValues Json.int).entries

/-- `dict(vm.shared)`. -/
def sharedState {n : Nat} (m : Machine n) : Json := jsonDict (sharedView m.shared)

/-- `{k: dict(v) for k, v in vm.registers.items()}`. -/
def registerState {n : Nat} (m : Machine n) : Json := .obj ((registersView m.registers).mapValues jsonDict).entries

def regionDict (r : SpatialRegion) : Json :=
  .obj [("name", .str r.name), ("x", .int r.x), ("y", .int r.y), ("width", .int r.width), ("height", .int r.height),
    ("kind", .str r.kind), ("capacity_bytes", .int r.capacityBytes)]

/-- `SpatialLayout.to_dict`. -/
def layoutDict (l : SpatialLayout) : Json :=
  .obj [("width", .int l.width), ("height", .int l.height), ("execution_rows", .int l.executionRows),
    ("raw_capacity_bytes", .int l.rawCapacityBytes), ("storage_capacity_bytes", .int l.storageCapacityBytes),
    ("regions", .arr (l.regions.map regionDict))]

/-! ## The session -/

/-- What is registered: the VM, the memory, or an object that is neither. -/
inductive Registered where
  | vm
  | memory
  | other
  deriving DecidableEq

structure Session (layout : SpatialLayout) where
  registry : PyxelRegistry Registered := .empty
  machine : Machine layout.executionRows := {}
  files : Files

inductive SessionEvent where
  | register (name : String) (obj : Registered)
  | unregister (name : String)
  | clear
  /-- A compiler saves a frame. -/
  | save (path : String) (img : Raster)
  /-- `run`, or `run_spatial`. -/
  | run (spatial : Bool) (path : String)
  /-- A call of the agent's on its memory. -/
  | memory (c : AgentCall)

/-- What an event returns, or raises: a `KeyError` or `ValueError` of the registry, a `TypeError`, an `AttributeError`,
    what the VM raises, or what the memory does. -/
inductive SessionReport (layout : SpatialLayout) where
  | none
  | registry (message : String)
  | type (message : String)
  | attribute (name : String)
  | vm (e : Raised)
  | refused
  | returned (registers : Fin layout.executionRows → Regs)
  | shown (s : Shown)

def SessionReport.isReturned {layout : SpatialLayout} : SessionReport layout → Bool
  | .returned _ => true
  | _ => false

theorem exists_of_isReturned {layout : SpatialLayout} {report : SessionReport layout} (h : report.isReturned = true) :
    ∃ registers, report = .returned registers := by
  cases report with
  | returned registers => exact ⟨registers, rfl⟩
  | _ => cases h

namespace Session

variable {layout : SpatialLayout}

/-- `mem.remember(key, value)`: `json.dumps` raises for an integer that has too many digits. -/
def remember (mem : SpatialPixelStore) (key : String) (value : Json) (files : Files) : Shown × Files :=
  if h : value.Normal then AgentCall.step (StoreCall.onSpatial mem) true files (.remember key ⟨value, h⟩) else (.raised, files)

/-- One after the other, up to one that raises. -/
def rememberAll (mem : SpatialPixelStore) : List (String × Json) → Files → Bool × Files
  | [], files => (true, files)
  | (key, value) :: ps, files =>
    match remember mem key value files with
    | (.raised, files) => (false, files)
    | (_, files) => rememberAll mem ps files

/-- What `_persist_state` remembers. -/
def payloads (layout : SpatialLayout) (spatial : Bool) (m : Machine layout.executionRows) : List (String × Json) :=
  [("shared_state", sharedState m), ("register_state", registerState m)] ++
    if spatial then [("spatial_layout", layoutDict layout)] else []

def persistState (mem : SpatialPixelStore) (spatial : Bool) (s : Session layout) : SessionReport layout × Session layout :=
  match s.registry.get? "memory" with
  | none => (.returned s.machine.registers, s)
  | some .memory =>
    match rememberAll mem (payloads layout spatial s.machine) s.files with
    | (true, files) => (.returned s.machine.registers, { s with files })
    | (false, files) => (.refused, { s with files })
  | some _ => (.attribute "remember", s)

def execute (cfg : Config) (spatial : Bool) (path : String) (s : Session layout) : Outcome Raised (Machine layout.executionRows) :=
  if spatial then executeSpatial cfg layout s.files path s.machine else executeTexture cfg s.files path s.machine

/-- `run` and `run_spatial`. -/
def run (cfg : Config) (mem : SpatialPixelStore) (spatial : Bool) (path : String) (s : Session layout) :
    SessionReport layout × Session layout :=
  match s.registry.get "vm" with
  | .error message => (.registry message, s)
  | .ok .vm =>
    match s.execute cfg spatial path with
    | .raised e machine => (.vm e, { s with machine })
    | .done machine => persistState mem spatial { s with machine }
  | .ok _ =>
    (if spatial then .type "registered VM does not support spatial PNG execution" else .attribute "execute_texture", s)

def step (cfg : Config) (mem : SpatialPixelStore) (s : Session layout) : SessionEvent → SessionReport layout × Session layout
  | .register name obj =>
    match s.registry.register name obj with
    | .ok registry => (.none, { s with registry })
    | .error message => (.registry message, s)
  | .unregister name =>
    match s.registry.unregister name with
    | .ok registry => (.none, { s with registry })
    | .error message => (.registry message, s)
  | .clear => (.none, { s with registry := .empty })
  | .save path img => (.none, { s with files := update s.files path (.image img) })
  | .run spatial path => s.run cfg mem spatial path
  | .memory c =>
    let r := c.step (StoreCall.onSpatial mem) true s.files
    (.shown r.1, { s with files := r.2 })

end Session

/-! ## What is kept -/

/-- A call that leaves a key as it is. -/
def Leaves (k : String) : AgentCall → Prop
  | .remember key _ | .forget key | .append key _ => k ≠ key
  | .update data => data.has k = false
  | .clear => False
  | _ => True

/-- An event, with its report, after which a key is as before: no call that changes it, and no run that has come to
    `remember`. -/
def Keeps {layout : SpatialLayout} (k : String) : SessionEvent × SessionReport layout → Prop
  | (.memory c, _) => Leaves k c
  | (.run _ _, .returned _) | (.run _ _, .refused) => False
  | _ => True

instance (k : String) : (c : AgentCall) → Decidable (Leaves k c)
  | .remember key _ | .forget key | .append key _ => inferInstanceAs (Decidable (k ≠ key))
  | .update data => inferInstanceAs (Decidable (data.has k = false))
  | .clear => isFalse id
  | .recall _ _ | .existsKey _ | .keys | .snapshot | .recallList _ => isTrue trivial

instance {layout : SpatialLayout} (k : String) : (x : SessionEvent × SessionReport layout) → Decidable (Keeps k x)
  | (.memory c, _) => inferInstanceAs (Decidable (Leaves k c))
  | (.run _ _, .returned _) | (.run _ _, .refused) => isFalse id
  | (.run _ _, .none) | (.run _ _, .registry _) | (.run _ _, .type _) | (.run _ _, .attribute _) | (.run _ _, .vm _)
  | (.run _ _, .shown _) | (.register _ _, _) | (.unregister _, _) | (.clear, _) | (.save _ _, _) => isTrue trivial

variable {layout : SpatialLayout} {path : String} {plane : SpatialLayout} {start : Raster} {files : Files} {d : Dict String Json}

theorem remember_bounded (P : Dict String Json → Prop) [DecidablePred P] (d : Dict String Json) (key : String) (value : NormalJson) :
    (AgentCall.remember key value).step (StoreCall.bounded P) true d =
      if P (d.set key value.1) then (.path, d.set key value.1) else (.raised, d) := by
  have hset : ((StoreCall.write key value.1).onDict d).2 = d.set key value.1 := rfl
  unfold AgentCall.step
  rw [AgentCall.method, ZDXAgentMemory.remember, run_bounded, hset]
  split <;> rfl

/-- A value is remembered, or there is an exception and memory is as it was. -/
theorem remember_inFile (hpos : 0 < plane.storageCapacityBytes) (h : InFile path plane start files d) (key : String) (value : Json) :
    let r := Session.remember ⟨path, plane⟩ key value files
    (r.1 = .raised ∧ InFile path plane start r.2 d) ∨ (r.1 = .path ∧ InFile path plane start r.2 (d.set key value)) := by
  intro r
  by_cases hn : value.Normal
  · have hr : r = AgentCall.step (StoreCall.onSpatial ⟨path, plane⟩) true files (.remember key ⟨value, hn⟩) := dif_pos hn
    obtain ⟨hans, hin⟩ := spatial_bounded hpos h (.remember key ⟨value, hn⟩)
    rw [← hr, remember_bounded] at hans hin
    split at hans
    · rename_i hfit
      rw [if_pos hfit] at hin
      exact .inr ⟨hans, hin⟩
    · rename_i hfit
      rw [if_neg hfit] at hin
      exact .inl ⟨hans, hin⟩
  · have hr : r = (.raised, files) := dif_neg hn
    rw [hr]
    exact .inl ⟨rfl, h⟩

theorem rememberAll_inFile (hpos : 0 < plane.storageCapacityBytes) (ps : List (String × Json)) {files : Files} {d : Dict String Json}
    (h : InFile path plane start files d) :
    let r := Session.rememberAll ⟨path, plane⟩ ps files
    ∃ d', InFile path plane start r.2 d' ∧ (r.1 = true → d' = ps.foldl (fun d p => d.set p.1 p.2) d) := by
  induction ps generalizing files d with
  | nil => exact ⟨d, h, fun _ => rfl⟩
  | cons p ps ih =>
    obtain ⟨key, value⟩ := p
    have hp := remember_inFile hpos h key value
    unfold Session.rememberAll
    generalize Session.remember ⟨path, plane⟩ key value files = r at hp
    obtain ⟨shown, files'⟩ := r
    rcases hp with ⟨rfl, hin⟩ | ⟨rfl, hin⟩
    · refine ⟨d, hin, fun he => ?_⟩
      cases he
    · exact ih hin

theorem told_leaves {k : String} {c : AgentCall} (h : Leaves k c) (shown : Shown) (v : Option Json) :
    AgentCall.told k v (c, shown) = v ∧ AgentCall.Whole k (c, shown) := by
  cases c with
  | update data =>
    have hhas : data.has k = false := h
    have hnone : data.get? k = none := Dict.not_has_iff.mp hhas
    cases shown <;> simp [AgentCall.told, AgentCall.Whole, hnone, hhas]
  | clear => exact h.elim
  | remember key value => cases shown <;> simp [AgentCall.told, AgentCall.Whole, show k ≠ key from h]
  | forget key => cases shown <;> simp [AgentCall.told, AgentCall.Whole, show k ≠ key from h]
  | append key item => cases shown <;> simp [AgentCall.told, AgentCall.Whole, show k ≠ key from h]
  | _ => cases shown <;> exact ⟨rfl, trivial⟩

/-- What a call leaves is under the key afterwards, whether it raised or not. -/
theorem leaves_bounded (P : Dict String Json → Prop) [DecidablePred P] {k : String} {c : AgentCall} (h : Leaves k c)
    (d : Dict String Json) : (c.step (StoreCall.bounded P) true d).2.get? k = d.get? k := by
  obtain ⟨htold, hwhole⟩ := told_leaves h (c.step (StoreCall.bounded P) true d).1 (d.get? k)
  rw [told_step d c k hwhole, htold]

/-! ## Sessions -/

/-- What `_persist_state` did, by its report. -/
def Persisted (s : Session layout) (spatial : Bool) (d d' : Dict String Json) : SessionReport layout → Prop
  | .returned registers => registers = s.machine.registers ∧ (s.registry.get? "memory" = some .memory →
      d' = (Session.payloads layout spatial s.machine).foldl (fun d p => d.set p.1 p.2) d)
  | .refused => True
  | _ => d' = d

theorem persistState_inFile (hpos : 0 < plane.storageCapacityBytes) (spatial : Bool) {s : Session layout}
    (h : InFile path plane start s.files d) :
    let r := s.persistState ⟨path, plane⟩ spatial
    r.2.machine = s.machine ∧ ∃ d', InFile path plane start r.2.files d' ∧ Persisted s spatial d d' r.1 := by
  intro r
  cases hm : s.registry.get? "memory" with
  | none =>
    have hr : r = (.returned s.machine.registers, s) := by simp only [r, Session.persistState, hm]
    rw [hr]
    refine ⟨rfl, d, h, rfl, fun he => ?_⟩
    rw [hm] at he
    cases he
  | some obj =>
    cases obj with
    | memory =>
      obtain ⟨d', hin, hall⟩ := rememberAll_inFile hpos (Session.payloads layout spatial s.machine) h
      generalize hrem : Session.rememberAll ⟨path, plane⟩ (Session.payloads layout spatial s.machine) s.files = o at hin hall
      obtain ⟨ok, files'⟩ := o
      cases ok with
      | true =>
        have hr : r = (.returned s.machine.registers, { s with files := files' }) := by simp only [r, Session.persistState, hm, hrem]
        rw [hr]
        exact ⟨rfl, d', hin, rfl, fun _ => hall rfl⟩
      | false =>
        have hr : r = (.refused, { s with files := files' }) := by simp only [r, Session.persistState, hm, hrem]
        rw [hr]
        exact ⟨rfl, d', hin, trivial⟩
    | vm | other =>
      have hr : r = (.attribute "remember", s) := by simp only [r, Session.persistState, hm]
      rw [hr]
      exact ⟨rfl, d, h, rfl⟩

/-- The files a session saves frames to are not memory's. -/
def Elsewhere (path : String) : SessionEvent → Prop
  | .save path' _ => path' ≠ path
  | _ => True

theorem step_inFile (cfg : Config) (hpos : 0 < plane.storageCapacityBytes) {s : Session layout} (h : InFile path plane start s.files d)
    {e : SessionEvent} (he : Elsewhere path e) :
    let r := s.step cfg ⟨path, plane⟩ e
    ∃ d', InFile path plane start r.2.files d' ∧ ∀ k, Keeps k (e, r.1) → d'.get? k = d.get? k := by
  intro r
  cases e with
  | register name obj =>
    refine ⟨d, ?_, fun k _ => rfl⟩
    simp only [r, Session.step]
    split <;> exact h
  | unregister name =>
    refine ⟨d, ?_, fun k _ => rfl⟩
    simp only [r, Session.step]
    split <;> exact h
  | clear => exact ⟨d, h, fun k _ => rfl⟩
  | save path' img =>
    obtain ⟨img', hf, hh⟩ := h
    exact ⟨d, ⟨img', (Function.update_of_ne (Ne.symm he) _ _).trans hf, hh⟩, fun k _ => rfl⟩
  | memory c =>
    obtain ⟨-, hin⟩ := spatial_bounded hpos h c
    exact ⟨_, hin, fun k hk => leaves_bounded _ hk d⟩
  | run spatial path' =>
    have hr : r = s.run cfg ⟨path, plane⟩ spatial path' := rfl
    unfold Session.run at hr
    split at hr
    · rw [hr]
      exact ⟨d, h, fun k _ => rfl⟩
    · split at hr
      · rw [hr]
        exact ⟨d, h, fun k _ => rfl⟩
      · rename_i machine _
        obtain ⟨-, d', hin, hpersisted⟩ := @persistState_inFile layout path plane start d hpos spatial { s with machine } h
        refine ⟨d', hr ▸ hin, fun k hk => ?_⟩
        rw [hr] at hk
        generalize (Session.persistState _ _ _).1 = report at hk hpersisted
        cases report with
        | returned registers => exact hk.elim
        | refused => exact hk.elim
        | _ => exact congrArg (Dict.get? · k) hpersisted
    · rw [hr]
      exact ⟨d, h, fun k _ => rfl⟩

/-- Memory is kept along a session. -/
theorem session_inFile (cfg : Config) (hpos : 0 < plane.storageCapacityBytes) (events : List SessionEvent) {s : Session layout}
    {d : Dict String Json} (h : InFile path plane start s.files d) (he : ∀ e ∈ events, Elsewhere path e) :
    ∃ d', InFile path plane start (Trace.final (Session.step cfg ⟨path, plane⟩) s events).files d' ∧
      ∀ k, (∀ x ∈ Trace.log (Session.step cfg ⟨path, plane⟩) s events, Keeps k x) → d'.get? k = d.get? k := by
  induction events generalizing s d with
  | nil => exact ⟨d, h, fun k _ => rfl⟩
  | cons e es ih =>
    obtain ⟨he, hes⟩ := List.forall_mem_cons.mp he
    obtain ⟨d₁, hin₁, hkeep₁⟩ := step_inFile cfg hpos h he
    obtain ⟨d₂, hin₂, hkeep₂⟩ := ih hin₁ hes
    refine ⟨d₂, hin₂, fun k hk => ?_⟩
    obtain ⟨hk₁, hk₂⟩ := List.forall_mem_cons.mp hk
    exact (hkeep₂ k hk₂).trans (hkeep₁ k hk₁)

/-- A run that returned has executed the frame to its end, and then remembered. -/
theorem run_returned {cfg : Config} {mem : SpatialPixelStore} {spatial : Bool} {frame : String} {s : Session layout}
    {registers : Fin layout.executionRows → Regs} (h : (s.run cfg mem spatial frame).1 = .returned registers) :
    ∃ machine, s.execute cfg spatial frame = .done machine ∧
      s.run cfg mem spatial frame = Session.persistState mem spatial { s with machine } := by
  unfold Session.run at h ⊢
  cases hvm : s.registry.get "vm" with
  | error message =>
    rw [hvm] at h
    cases h
  | ok obj =>
    rw [hvm] at h
    cases obj with
    | vm =>
      simp only at h ⊢
      cases hex : s.execute cfg spatial frame with
      | raised e machine =>
        rw [hex] at h
        cases h
      | done machine => exact ⟨machine, rfl, rfl⟩
    | memory | other =>
      simp only at h
      split at h <;> cases h

/-- The entries a run leaves. -/
theorem get?_payloads (spatial : Bool) (m : Machine layout.executionRows) (d : Dict String Json) :
    let d' := (Session.payloads layout spatial m).foldl (fun d p => d.set p.1 p.2) d
    d'.get? "shared_state" = some (sharedState m) ∧ d'.get? "register_state" = some (registerState m) ∧
      (spatial = true → d'.get? "spatial_layout" = some (layoutDict layout)) := by
  cases spatial <;> simp [Session.payloads, Dict.get?_set]

/-- What memory recalls. -/
def Session.recalls (mem : SpatialPixelStore) (s : Session layout) (key : String) (default : Json) : Shown :=
  (AgentCall.step (StoreCall.onSpatial mem) true s.files (.«recall» key default)).1

/-- After a run that returned with the memory registered, and whatever events that keep its keys, no frame
    being saved over the memory's own PNG: the VM had executed the frame to its end, what `run` returned are
    its registers, and what memory recalls are its slots, its registers and, of a spatial run, its layout. -/
theorem recalls_last_run (cfg : Config) {layout : SpatialLayout} (path : String) {plane : SpatialLayout}
    (hpos : 4 ≤ plane.storageCapacityBytes) {files : Files}
    (hfile : (∃ img, files path = .image img ∧ BlankStorage plane img) ∨ files path = .missing)
    (before after : List SessionEvent) (helse : ∀ e ∈ before ++ after, Elsewhere path e) (spatial : Bool) (frame : String) :
    let mem := SpatialPixelStore.attach path plane files
    let step : Session layout → SessionEvent → SessionReport layout × Session layout := Session.step cfg mem.1
    let s := Trace.final step { files := mem.2 } before
    let r := step s (.run spatial frame)
    let later := Trace.final step r.2 after
    ∀ registers, r.1 = .returned registers → s.registry.get? "memory" = some .memory →
      (∀ x ∈ Trace.log step r.2 after, ∀ k ∈ snapshotKeys, Keeps k x) →
      s.execute cfg spatial frame = .done r.2.machine ∧ registers = r.2.machine.registers ∧
        ∀ default, later.recalls mem.1 "shared_state" default = .value (sharedState r.2.machine) ∧
          later.recalls mem.1 "register_state" default = .value (registerState r.2.machine) ∧
          (spatial = true → later.recalls mem.1 "spatial_layout" default = .value (layoutDict layout)) := by
  intro mem step s r later registers hret hmem hkeep
  have hpos' : 0 < plane.storageCapacityBytes := by omega
  obtain ⟨start, hin₀⟩ := inFile_attach hpos hfile
  obtain ⟨d, hin, -⟩ := session_inFile (s := ({ files := mem.2 } : Session layout)) cfg hpos' before hin₀ fun e he =>
    helse e (List.mem_append_left _ he)
  obtain ⟨machine, hex, hrun⟩ := run_returned hret
  obtain ⟨hmachine, d', hin', hpersisted⟩ := persistState_inFile hpos' spatial (s := { s with machine }) hin
  have hr : r = Session.persistState mem.1 spatial { s with machine } := hrun
  have hreport : (Session.persistState mem.1 spatial { s with machine }).1 = .returned registers := hr ▸ hret
  have hm : r.2.machine = machine := (congrArg (fun r => r.2.machine) hr).trans hmachine
  obtain ⟨d'', hin'', hkept⟩ := session_inFile (s := r.2) cfg hpos' after (hr ▸ hin') fun e he => helse e (List.mem_append_right _ he)
  have hrecall : ∀ k ∈ snapshotKeys, ∀ v, d'.get? k = some v → ∀ default, later.recalls mem.1 k default = .value v := by
    intro k hk v hv default
    obtain ⟨hread, -⟩ := spatial_reads hin'' k
    refine (hread default).trans ?_
    rw [Dict.getD, hkept k fun x hx => hkeep x hx k hk, hv]
    rfl
  have hpersisted : Persisted { s with machine } spatial d d' (.returned registers) := hreport ▸ hpersisted
  obtain ⟨hregisters, hall⟩ := hpersisted
  obtain ⟨hshared, hregs, hlayout⟩ := @get?_payloads layout spatial machine d
  rw [← hall hmem] at hshared hregs hlayout
  rw [hm]
  refine ⟨hex, hregisters, fun default => ⟨?_, ?_, fun hspatial => ?_⟩⟩
  · exact hrecall _ (by simp [snapshotKeys]) _ hshared default
  · exact hrecall _ (by simp [snapshotKeys]) _ hregs default
  · exact hrecall _ (by simp [snapshotKeys]) _ (hlayout hspatial) default

/-- A frame that stores 9 in M0. -/
def storing : Raster := ⟨4, 1, fun _ x => ([⟨10, 0, 9⟩, ⟨41, 0, 0⟩, ⟨255, 0, 0⟩] : List Pixel).getD x .nop⟩

def prepared : List SessionEvent := [.register "vm" .vm, .register "memory" .memory, .save "a.png" storing]

/-- A run after it finds no frame. -/
theorem recalls_last_run_storing :
    let mem := SpatialPixelStore.attach "m.png" small fun _ => .missing
    let ran : Session oneRow := Trace.final (Session.step {} mem.1) { files := mem.2 } (prepared ++ [.run false "a.png"])
    (Trace.final (Session.step {} mem.1) ran [.run false "b.png"]).recalls mem.1 "shared_state" .null =
      .value (jsonDict (sharedView fun s => if s = 0 then 9 else 0)) := by
  intro mem ran
  have hran : ran = (Session.step {} mem.1 (Trace.final (Session.step {} mem.1) { files := mem.2 } prepared) (.run false "a.png")).2 :=
    Trace.final_concat ..
  have hreturned : (Session.step {} mem.1 (Trace.final (Session.step {} mem.1) ({ files := mem.2 } : Session oneRow) prepared)
    (.run false "a.png")).1.isReturned = true := by decide +kernel
  obtain ⟨registers, hret⟩ := exists_of_isReturned hreturned
  have helse : ∀ e ∈ prepared ++ [.run false "b.png"], Elsewhere "m.png" e := by simp [prepared, Elsewhere]
  have h := @recalls_last_run {} oneRow "m.png" small (by decide) (fun _ => .missing) (.inr rfl) prepared [.run false "b.png"] helse
    false "a.png" registers hret (by decide +kernel) (by decide +kernel)
  rw [hran]
  refine (h.2.2 .null).1.trans (congrArg Shown.value ?_)
  decide +kernel

end PyxelVM.Agent
