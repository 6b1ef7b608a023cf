/-
  PyxelVM.Memory.Failures — a `PixelStore.write` that raises
  (`zdx_pixel_memory/store.py`).

  `write` puts a new key into the index and saves it before `codec.encode` has looked at
  the value. What raises for a key that is in the index leaves everything as it was;
  what raises for another leaves a key without a file. `no_trace_iff`: along every run,
  so, no write that raises leaves a trace exactly if each is of a key in the index.
-/

import PyxelVM.Memory.PixelStore

namespace PyxelVM.Memory

open Function (update)
open PyxelVM.Lib
open PyxelVM.Vm (Raster)

/-! ## Values -/

/-- A Python object: one that `json.dumps` takes, as the JSON it is written as, or one it
    refuses, with the text of what it raises. -/
inductive PyObject where
  | json (value : Json)
  | refused (exc : String)

inductive ObjectError where
  | refused (exc : String)
  | overflow
  deriving DecidableEq, Repr

/-- The exception's text. -/
def ObjectError.message : ObjectError → String
  | .refused exc => exc
  | .overflow => "int too big to convert"

/-- `codec.encode`. -/
def encodeObject : PyObject → Except ObjectError Raster
  | .refused exc => .error (.refused exc)
  | .json value =>
    match Codec.encode value with
    | none => .error .overflow
    | some img => .ok img

/-! ## Calls -/

variable (word : Char → Bool)

/-- `write`, of any object. -/
def PixelStore.writeObject (s : PixelStore) (key : String) (value : PyObject) (dir : Directory) :
    Except ObjectError String × PixelStore × Directory :=
  let new := { s with index := s.index.set key (makeFilename word key) }
  let (s, dir) := if s.index.has key then (s, dir) else (new, { dir with index := .saved new.index })
  let name := s.index.getD key ""
  match encodeObject value with
  | .error e => (.error e, s, dir)
  | .ok img => (.ok (joinPath s.storeDir name), s, { dir with files := update dir.files name (.image img) })

/-- Of what `json.dumps` takes it is `write`. -/
theorem writeObject_json (s : PixelStore) (key : String) (value : Json) (dir : Directory) :
    s.writeObject word key (.json value) dir =
      ((s.write word key value dir).1.mapError fun _ => .overflow, (s.write word key value dir).2) := by
  simp only [PixelStore.writeObject, PixelStore.write, encodeObject]
  cases Codec.encode value <;> rfl

/-- A call that can change something. -/
inductive ObjectCall where
  | write (key : String) (value : PyObject)
  | delete (key : String)
  | reopen

namespace Handle

/-- A store opened on the directory now. -/
def reopened (w : Handle) : Handle := ⟨.create w.dir w.store.storeDir, w.dir⟩

def step (w : Handle) : ObjectCall → Handle
  | .write key value =>
    let r := w.store.writeObject word key value w.dir
    ⟨r.2.1, r.2.2⟩
  | .delete key =>
    let r := w.store.delete word key w.dir
    ⟨r.2.1, r.2.2⟩
  | .reopen => w.reopened

/-- The write raises. -/
def Fails (w : Handle) (key : String) (value : PyObject) : Prop :=
  ∃ e, (w.store.writeObject word key value w.dir).1 = .error e

/-- What the handle answers. -/
structure SameAnswers (w w' : Handle) : Prop where
  keys : w'.store.keys = w.store.keys
  existsKey : ∀ k, w'.store.existsKey word k w'.dir = w.store.existsKey word k w.dir
  read : ∀ k default, w'.store.read word k default w'.dir = w.store.read word k default w.dir
  all : w'.store.all word w'.dir = w.store.all word w.dir

/-- This store answers as before, and so does one opened on the directory. -/
structure NoTrace (w w' : Handle) : Prop where
  here : SameAnswers word w w'
  reopened : SameAnswers word w.reopened w'.reopened

variable {word : Char → Bool} {w : Handle} {key : String} {value : PyObject}

theorem fails_iff : w.Fails word key value ↔ ∃ e, encodeObject value = .error e := by
  unfold Fails PixelStore.writeObject
  cases encodeObject value with
  | error e => exact ⟨fun _ => ⟨e, rfl⟩, fun _ => ⟨e, rfl⟩⟩
  | ok img => exact ⟨fun h => (nomatch h.choose_spec), fun h => (nomatch h.choose_spec)⟩

/-- A write that raises has put a new key into the index, and the index on disk. -/
theorem step_failed (h : w.Fails word key value) : w.step word (.write key value) =
    if w.store.index.has key then w
    else
      let index := w.store.index.set key (PixelStore.makeFilename word key)
      ⟨{ w.store with index := index }, { w.dir with index := .saved index }⟩ := by
  rcases fails_iff.mp h with ⟨e, he⟩
  simp only [step, PixelStore.writeObject, he]
  split <;> rfl

theorem no_trace_step_iff (h : w.Fails word key value) :
    NoTrace word w (w.step word (.write key value)) ↔ w.store.index.has key = true := by
  rw [step_failed h]
  by_cases hkey : w.store.index.has key = true
  · rw [if_pos hkey]
    exact ⟨fun _ => hkey, fun _ => ⟨⟨rfl, fun _ => rfl, fun _ _ => rfl, rfl⟩, ⟨rfl, fun _ => rfl, fun _ _ => rfl, rfl⟩⟩⟩
  · rw [if_neg hkey]
    refine ⟨?_, fun hk => absurd hk hkey⟩
    intro hno
    -- the key is listed now
    have hkeys := hno.here.keys
    simp only [PixelStore.keys] at hkeys
    have hlisted : key ∈ sorted (w.store.index.set key (PixelStore.makeFilename word key)).keys := by
      rw [mem_sorted, Dict.mem_keys, Dict.has_set_self]
    rwa [hkeys, mem_sorted, Dict.mem_keys] at hlisted

/-- The handle after the calls. -/
def run (word : Char → Bool) (w : Handle) (calls : List ObjectCall) : Handle := calls.foldl (step word) w

/-- No write of the run that raises leaves a trace exactly if each is of a key in the index. -/
theorem no_trace_iff (word : Char → Bool) (w : Handle) (calls : List ObjectCall) :
    (∀ past key value, past ++ [.write key value] <+: calls → (w.run word past).Fails word key value →
        NoTrace word (w.run word past) (w.run word (past ++ [.write key value]))) ↔
      ∀ past key value, past ++ [.write key value] <+: calls → (w.run word past).Fails word key value →
        (w.run word past).store.index.has key = true := by
  have hlast : ∀ past key value, w.run word (past ++ [.write key value]) = (w.run word past).step word (.write key value) := by
    intro past key value
    rw [run, List.foldl_append]
    rfl
  apply forall₃_congr
  intro past key value
  apply forall₂_congr
  intro _ hfails
  rw [hlast, no_trace_step_iff hfails]

/-- The first write to an empty directory, of a set. -/
theorem failed_write_listed : ¬∀ (word : Char → Bool) (w : Handle) (key : String) (value : PyObject),
    w.Fails word key value → NoTrace word w (w.step word (.write key value)) := by
  intro h
  have hfails : (Handle.mk (.create {}) {}).Fails asciiWord "a" (.refused "Object of type set is not JSON serializable") := ⟨_, rfl⟩
  have hkeys := (h asciiWord _ "a" _ hfails).here.keys
  rw [step_failed hfails] at hkeys
  exact absurd hkeys (by decide +kernel)

end Handle

end PyxelVM.Memory
