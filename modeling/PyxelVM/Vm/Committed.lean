/-
  PyxelVM.Vm.Committed — shared memory over a sequence of processes
  (`zdx_parallel_vm.py`).

  Each process makes a VM with `persist_shared` on one `shared_path` and calls
  `execute_texture` once (`launch`): the constructor reads the file, and a call that
  comes to its end writes it. What passes from process to process is the file alone.

  - `follow_saved`: no frame of a chain writes the file, however it ends.
  - `launch_holds`: one process. It starts from the slots the file holds, and either
    leaves the file or writes the slots it ended with.
  - `committed_by_normal_runs`: so over every sequence of processes a run starts from
    where the last normal one ended, and a run that raises leaves the file as it was.
-/

import PyxelVM.Lib.Post
import PyxelVM.Lib.Trace
import PyxelVM.Vm.EightBit

namespace PyxelVM.Vm

open PyxelVM.Lib

/-! ## Processes -/

/-- The constructor's arguments, the frames registered, the files there are, and the texture. -/
structure Launch where
  threads : Int
  maxChain : Int
  maxColSteps : Int
  strictMode : Bool
  opmap : OpMap
  registered : List (Int × String)
  files : String → File
  path : String

/-- The VM's thread count and settings, or the text of the constructor's ValueError. -/
def Launch.create (l : Launch) : Except String (Nat × Config) :=
  match Config.create l.threads l.maxChain l.maxColSteps l.strictMode true l.opmap with
  | .error message => .error message
  | .ok (n, cfg) => .ok (n, { cfg with frameRegistry := l.registered.foldl (fun frames e => frames.set e.1 e.2) cfg.frameRegistry })

/-- How a process went: its arguments were refused, its file held no object, or it ran, from
    the slots `start`, and raised, or ended normally in the slots `final`. -/
inductive Report where
  | refused (message : String)
  | unloaded
  | raised (start : Dict String Int) (e : DictRaised)
  | normal (start final : Dict String Int)

def Report.start? : Report → Option (Dict String Int)
  | .raised start _ | .normal start _ => some start
  | .refused _ | .unloaded => none

def Report.final? : Report → Option (Dict String Int)
  | .normal _ final => some final
  | .refused _ | .unloaded | .raised _ _ => none

/-- One process, and the file after it. -/
def launch (truncate : FloatText → Int) (file : Option (List UInt8)) (l : Launch) : Report × Option (List UInt8) :=
  match l.create with
  | .error message => (.refused message, file)
  | .ok (n, cfg) =>
    match DictMachine.restored n truncate file with
    | none => (.unloaded, file)
    | some vm =>
      match dictExecuteTexture cfg l.files l.path vm with
      | .raised e vm' => (.raised vm.shared e, vm'.saved)
      | .done vm' => (.normal vm.shared vm'.shared, vm'.saved)

/-- The reports of a sequence of processes, the first of which found no file. -/
def reports (truncate : FloatText → Int) (ls : List Launch) : List Report :=
  (Trace.log (launch truncate) none ls).map (·.2)

/-- The file after a sequence of processes. -/
def fileAfter (truncate : FloatText → Int) (ls : List Launch) : Option (List UInt8) := Trace.final (launch truncate) none ls

/-- `{f"M{i}": 0 for i in range(8)}`. -/
def zeroSlots : Dict String Int := Dict.ofList ((List.range 8).map fun i => (memKey i, 0))

/-- The slots in which the last run that ended normally did, or zeros. -/
def committed (rs : List Report) : Dict String Int := (rs.filterMap Report.final?).getLast?.getD zeroSlots

/-- How process `l` goes after the processes `earlier`. -/
structure CommitLaw (truncate : FloatText → Int) (earlier : List Launch) (l : Launch) : Prop where
  start : ∀ s, (launch truncate (fileAfter truncate earlier) l).1.start? = some s → s = committed (reports truncate earlier)
  loads : (launch truncate (fileAfter truncate earlier) l).1 ≠ .unloaded
  keeps : (launch truncate (fileAfter truncate earlier) l).1.final? = none →
    (launch truncate (fileAfter truncate earlier) l).2 = fileAfter truncate earlier

/-! ## A chain does not write the file -/

variable {n : Nat} {cfg : Config} {img : Raster}

theorem visit_saved (y : Fin n) (f : Frame n) : (visit cfg img y f).state.savedShared = f.savedShared := by
  unfold visit
  split
  · rfl
  split
  · rfl
  split
  · rfl
  · rw [Outcome.state_map]
    rfl

theorem column_saved (f : Frame n) : (column cfg img f).state.savedShared = f.savedShared := by
  refine Outcome.state_bind (P := fun g : Frame n => g.savedShared = f.savedShared) ?_ fun g hg => hg
  exact forEach_state (P := fun g : Frame n => g.savedShared = f.savedShared) _ (fun y _ g hg => (visit_saved y g).trans hg) rfl

theorem runFrame_saved (path : String) (m : Machine n) : (runFrame cfg path img m).state.savedShared = m.savedShared := by
  rw [runFrame, Outcome.state_map]
  refine Outcome.state_bind (P := fun f : Frame n => f.savedShared = m.savedShared) ?_ ?_
  · exact repeatWhile_state (P := fun f : Frame n => f.savedShared = m.savedShared) (fun f hf _ => (column_saved f).trans hf) _ rfl
  · intro f hf
    split <;> exact hf

theorem executeSingle_saved (cfg : Config) (files : String → File) (path : String) (m : Machine n) :
    (executeSingle cfg files path m).state.savedShared = m.savedShared := by
  unfold executeSingle
  cases files path with
  | missing => rfl
  | notImage => rfl
  | image img => exact runFrame_saved path m

theorem follow_saved (cfg : Config) (files : String → File) (k : Nat) (path : String) (m : Machine n) :
    (follow cfg files k path m).state.savedShared = m.savedShared := by
  induction k generalizing path m with
  | zero => rfl
  | succ k ih =>
    have hsingle := executeSingle_saved cfg files path m
    rw [follow]
    refine Outcome.state_bind (P := fun m' : Machine n => m'.savedShared = m.savedShared) hsingle ?_
    intro m' hm'
    cases m'.nextFrame with
    | none => exact hm'
    | some next =>
      simp only
      cases files next with
      | missing => exact hm'
      | notImage => exact (ih next m').trans hm'
      | image _ => exact (ih next m').trans hm'

/-- What `execute_texture` writes, if it writes. -/
theorem executeTexture_saved (hp : cfg.persistShared = true) (files : String → File) (path : String) (m : Machine n) :
    (executeTexture cfg files path m).Ends (fun m' => m'.savedShared = some m'.shared)
      fun _ m' => m'.savedShared = m.savedShared := by
  have hfollow := follow_saved cfg files cfg.maxChain path m
  rw [executeTexture, hp]
  cases hrun : follow cfg files cfg.maxChain path m with
  | done m' => rfl
  | raised e m' =>
    rw [hrun] at hfollow
    exact hfollow

/-! ## One process -/

/-- The file holds these slots; where there is none they are zeros. -/
structure Holds (file : Option (List UInt8)) (slots : Fin 8 → Int) : Prop where
  bytes : ∀ i, IsByte (slots i)
  file : (file = none ∧ slots = fun _ => 0) ∨ file = some (sharedText (sharedView slots))

theorem zeroSlots_eq : zeroSlots = sharedView fun _ => 0 := by
  have h := congrArg DictMachine.shared (fresh_view 1)
  exact h

theorem Launch.create_persists {l : Launch} {n : Nat} {cfg : Config} (h : l.create = .ok (n, cfg)) : cfg.persistShared = true := by
  unfold Launch.create Config.create at h
  split_ifs at h
  cases h
  rfl

/-- A new VM has the slots the file holds. -/
theorem restored_holds (truncate : FloatText → Int) {file : Option (List UInt8)} {slots : Fin 8 → Int} (h : Holds file slots)
    (n : Nat) : ∃ m : Machine n, DictMachine.restored n truncate file = some m.view ∧ m.view.saved = file ∧ m.shared = slots ∧
      Sound [] m := by
  have hnew (savedShared : Option (Fin 8 → Int)) : Machine.Bytes ({ shared := slots, savedShared } : Machine n) :=
    ⟨fun _ => ⟨isByte_zero, isByte_zero, isByte_zero⟩, h.bytes⟩
  rcases h.file with ⟨rfl, rfl⟩ | rfl
  · refine ⟨{}, ?_, rfl, rfl, ⟨hnew none, fun _ => .inl rfl, fun _ hs => (nomatch hs)⟩⟩
    rw [DictMachine.restored, fresh_view]
    rfl
  · refine ⟨{ shared := slots, savedShared := some slots }, ?_, rfl, rfl, ⟨hnew _, fun _ => .inl rfl, ?_⟩⟩
    · have hfresh : (DictMachine.fresh n).shared = sharedView fun _ => 0 := zeroSlots_eq
      rw [DictMachine.restored, hfresh, loadShared_saved truncate h.bytes, Option.map_some, fresh_view]
      rfl
    · intro s hs
      exact Option.some.inj hs ▸ h.bytes

/-- One process: it starts from what the file holds, and leaves the file, or writes the slots it ended with. -/
theorem launch_holds (truncate : FloatText → Int) {file : Option (List UInt8)} {slots : Fin 8 → Int} (h : Holds file slots)
    (l : Launch) :
    (∀ s, (launch truncate file l).1.start? = some s → s = sharedView slots) ∧ (launch truncate file l).1 ≠ .unloaded ∧
      ((launch truncate file l).1.final? = none → (launch truncate file l).2 = file) ∧
      ∀ d, (launch truncate file l).1.final? = some d → ∃ slots', d = sharedView slots' ∧ Holds (launch truncate file l).2 slots' := by
  unfold launch
  cases hc : l.create with
  | error message => exact ⟨fun _ hs => (nomatch hs), nofun, fun _ => rfl, fun _ hd => (nomatch hd)⟩
  | ok made =>
    obtain ⟨n, cfg⟩ := made
    obtain ⟨m, hm, hfile, hshared, hsound⟩ := restored_holds truncate h n
    have hstart : m.view.shared = sharedView slots := congrArg sharedView hshared
    have hends := executeTexture_saved (Launch.create_persists hc) l.files l.path m
    have hbytes := (executeTexture_sound (List.Subset.refl (framesOf (executeSingle cfg l.files) Machine.nextFrame l.files
      cfg.maxChain l.path m)) (hsound.mono (List.nil_subset _))).bytes.shared
    simp only [hm, executeTexture_view]
    cases hrun : executeTexture cfg l.files l.path m with
    | raised e m' =>
      rw [hrun] at hends
      have hsaved : m'.view.saved = m.view.saved := congrArg (Option.map fun s => sharedText (sharedView s)) hends
      refine ⟨fun s hs => ?_, nofun, fun _ => hsaved.trans hfile, fun _ hd => (nomatch hd)⟩
      cases hs
      exact hstart
    | done m' =>
      rw [hrun] at hends hbytes
      have hsaved : m'.view.saved = some (sharedText (sharedView m'.shared)) :=
        congrArg (Option.map fun s => sharedText (sharedView s)) hends
      refine ⟨fun s hs => ?_, nofun, fun hn => (nomatch hn), fun d hd => ?_⟩
      · cases hs
        exact hstart
      · cases hd
        exact ⟨m'.shared, rfl, hbytes, .inr hsaved⟩

/-! ## Every sequence of processes -/

theorem launches_hold (truncate : FloatText → Int) (ls : List Launch) {file : Option (List UInt8)} {slots : Fin 8 → Int}
    (h : Holds file slots) :
    ∃ slots', Holds (Trace.final (launch truncate) file ls) slots' ∧
      ((((Trace.log (launch truncate) file ls).map (·.2)).filterMap Report.final?).getLast?.getD (sharedView slots)) =
        sharedView slots' := by
  induction ls generalizing file slots with
  | nil => exact ⟨slots, h, rfl⟩
  | cons l ls ih =>
    obtain ⟨-, -, hkeeps, hwrites⟩ := launch_holds truncate h l
    rw [Trace.final_cons, Trace.log_cons, List.map_cons]
    cases hf : (launch truncate file l).1.final? with
    | none =>
      rw [List.filterMap_cons_none hf, hkeeps hf]
      exact ih h
    | some d =>
      obtain ⟨slots₁, rfl, h₁⟩ := hwrites d hf
      rw [List.filterMap_cons_some hf, List.getLast?_cons, Option.getD_some]
      exact ih h₁

/-- Shared memory is committed by the runs that end normally, and by these alone. -/
theorem committed_by_normal_runs (truncate : FloatText → Int) (earlier : List Launch) (l : Launch) :
    CommitLaw truncate earlier l := by
  have hzero : Holds none fun _ => 0 := ⟨fun _ => isByte_zero, .inl ⟨rfl, rfl⟩⟩
  obtain ⟨slots, h, hcommitted⟩ := launches_hold truncate earlier hzero
  obtain ⟨hstart, hloads, hkeeps, -⟩ := launch_holds truncate h l
  refine ⟨fun s hs => ?_, hloads, hkeeps⟩
  rw [hstart s hs, ← hcommitted, ← zeroSlots_eq]
  rfl

end PyxelVM.Vm
