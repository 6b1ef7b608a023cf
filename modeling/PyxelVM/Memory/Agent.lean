/-
  PyxelVM.Memory.Agent — `ZDXAgentMemory` (`zdx_pixel_memory/agent_memory.py`) over its two
  stores.

  A method is a program over the calls that the stores have in common (`StoreCall`), and
  `clear`, which only `SpatialPixelStore` has. It runs on a store object with its directory
  or files, and on a dictionary (`bounded`), which stays as it is where it would not fit.
  `AgentCall.onDict` is what each method is to a dictionary.

  - `backends_agree`: as long as everything fits, both memories answer every call as the
    dictionary does, but for the path that `remember` returns and the order of a snapshot.
  - `answers_tell_all`: a spatial memory holds what its answers say it was left with,
    whatever it refused.
-/

import PyxelVM.Lib.Client
import PyxelVM.Lib.Trace
import PyxelVM.Memory.PixelStore

namespace PyxelVM.Memory

open Function (update)
open PyxelVM.Lib
open PyxelVM.Spatial
open PyxelVM.Vm (File Raster)

/-! ## The two stores behind one interface -/

inductive StoreCall where
  | write (key : String) (value : Json)
  | read (key : String) (default : Json)
  | delete (key : String)
  | existsKey (key : String)
  | keys
  | all
  | clear

namespace StoreCall

abbrev Returns : StoreCall → Type
  | write _ _ => String
  | read _ _ => Json
  | delete _ | existsKey _ => Bool
  | keys => List String
  | all => Dict String Json
  | clear => Unit

/-- What a `PixelStore` raises; it has no `clear`. -/
inductive PixelError where
  | write (e : WriteError)
  | read (e : ReadError)
  | attribute (name : String)

def onPixel (word : Char → Bool) : CallStep Handle PixelError StoreCall Returns
  | w, write key value =>
    let r := w.store.write word key value w.dir
    (r.1.mapError .write, ⟨r.2.1, r.2.2⟩)
  | w, read key default => ((w.store.read word key default w.dir).mapError .read, w)
  | w, delete key =>
    let r := w.store.delete word key w.dir
    (.ok r.1, ⟨r.2.1, r.2.2⟩)
  | w, existsKey key => (.ok (w.store.existsKey word key w.dir), w)
  | w, keys => (.ok w.store.keys, w)
  | w, all => ((w.store.all word w.dir).mapError .read, w)
  | w, clear => (.error (.attribute "clear"), w)

/-- The files are as they were where the call raises. -/
def kept {α : Type} (files : Files) : Except StoreError (α × Files) → Except StoreError α × Files
  | .ok (a, files) => (.ok a, files)
  | .error e => (.error e, files)

def onSpatial (s : SpatialPixelStore) : CallStep Files StoreError StoreCall Returns
  | files, write key value => kept files (s.write key value files)
  | files, read key default => (s.read key default files, files)
  | files, delete key => kept files (s.delete key files)
  | files, existsKey key => (s.existsKey key files, files)
  | files, keys => (s.keys files, files)
  | files, all => (s.all files, files)
  | files, clear => kept files ((s.clear files).map fun files => ((), files))

/-- The call on a plain dictionary. -/
def onDict (d : Dict String Json) : (i : StoreCall) → i.Returns × Dict String Json
  | write key value => ("", d.set key value)
  | read key default => (d.getD key default, d)
  | delete key => (d.has key, d.erase key)
  | existsKey key => (d.has key, d)
  | keys => (sorted d.keys, d)
  | all => (d, d)
  | clear => ((), .empty)

/-- On one that stays as it is where it would not be as `P` says. -/
def bounded (P : Dict String Json → Prop) [DecidablePred P] : CallStep (Dict String Json) Unit StoreCall Returns
  | d, i => if P (i.onDict d).2 then (.ok (i.onDict d).1, (i.onDict d).2) else (.error (), d)

/-- Answers that are the same to an agent: equal, but for paths, and for the order of a dict. -/
def Same : (i : StoreCall) → i.Returns → i.Returns → Prop
  | write _ _, _, _ => True
  | read _ _, v, w => v = w
  | delete _, a, b => a = b
  | existsKey _, a, b => a = b
  | keys, ks, ls => ks = ls
  | all, d, e => ∀ k, d.get? k = e.get? k
  | clear, _, _ => True

end StoreCall

/-! ## The methods -/

/-- A method's program: it returns, or raises the TypeError of a key that is not a list. -/
abbrev Method := Client StoreCall StoreCall.Returns (Except String Answer)

/-- The TypeError's text. -/
def notList (key : String) : String := s!"Memory key '{key}' is not a list"

namespace ZDXAgentMemory

def remember (key : String) (value : Json) : Method := .call (.write key value) fun path => .done (.ok (.path path))

def «recall» (key : String) (default : Json) : Method := .call (.read key default) fun v => .done (.ok (.value v))

def forget (key : String) : Method := .call (.delete key) fun b => .done (.ok (.bool b))

/-- `exists`. -/
def existsKey (key : String) : Method := .call (.existsKey key) fun b => .done (.ok (.bool b))

def keys : Method := .call .keys fun ks => .done (.ok (.keys ks))

def snapshot : Method := .call .all fun d => .done (.ok (.dict d))

/-- `update`. -/
def updateAll (data : Dict String Json) : Method :=
  Client.each (data.entries.map fun m => .write m.1 m.2) (.done (.ok .none))

/-- `hasClear` is `hasattr(self._store, "clear")`. -/
def clear (hasClear : Bool) : Method :=
  if hasClear then .call .clear fun _ => .done (.ok .none)
  else .call .keys fun ks => Client.each (ks.map .delete) (.done (.ok .none))

def append (key : String) (item : Json) : Method :=
  .call (.read key (.arr [])) fun
    | .arr items => .call (.write key (.arr (items ++ [item]))) fun _ => .done (.ok .none)
    | _ => .done (.error (notList key))

def recallList (key : String) : Method :=
  .call (.read key (.arr [])) fun
    | .arr items => .done (.ok (.value (.arr items)))
    | _ => .done (.error (notList key))

end ZDXAgentMemory

/-- A call, with values that JSON gives back as they are. -/
inductive AgentCall where
  | remember (key : String) (value : NormalJson)
  | «recall» (key : String) (default : Json)
  | forget (key : String)
  | existsKey (key : String)
  | keys
  | snapshot
  | update (data : Dict String NormalJson)
  | clear
  | append (key : String) (item : NormalJson)
  | recallList (key : String)

/-- What a caller sees: not the path, and of a dict what it has under each key. -/
inductive Shown where
  | path
  | value (v : Json)
  | bool (b : Bool)
  | keys (ks : List String)
  | dict (d : String → Option Json)
  | none
  | typeError (message : String)
  | raised

def Answer.shown : Answer → Shown
  | .path _ => .path
  | .value v => .value v
  | .bool b => .bool b
  | .keys ks => .keys ks
  | .dict d => .dict d.get?
  | .none => .none

/-- What a method returned, or its TypeError. -/
def shownResult : Except String Answer → Shown
  | .ok a => a.shown
  | .error message => .typeError message

/-- That, or that the store raised. -/
def shownEnd {ε : Type} : Except ε (Except String Answer) → Shown
  | .ok r => shownResult r
  | .error _ => .raised

namespace AgentCall

def method (hasClear : Bool) : AgentCall → Method
  | remember key value => ZDXAgentMemory.remember key value.1
  | «recall» key default => ZDXAgentMemory.recall key default
  | forget key => ZDXAgentMemory.forget key
  | existsKey key => ZDXAgentMemory.existsKey key
  | keys => ZDXAgentMemory.keys
  | snapshot => ZDXAgentMemory.snapshot
  | update data => ZDXAgentMemory.updateAll (data.mapValues (·.1))
  | clear => ZDXAgentMemory.clear hasClear
  | append key item => ZDXAgentMemory.append key item.1
  | recallList key => ZDXAgentMemory.recallList key

/-- A call on a memory whose store is any machine. -/
def step {σ ε : Type} (store : CallStep σ ε StoreCall StoreCall.Returns) (hasClear : Bool) (s : σ) (c : AgentCall) : Shown × σ :=
  let r := (c.method hasClear).run store s
  (shownEnd r.1, r.2)

/-- What a call is to a dictionary. -/
def onDict (d : Dict String Json) : AgentCall → Shown × Dict String Json
  | remember key value => (.path, d.set key value)
  | «recall» key default => (.value (d.getD key default), d)
  | forget key => (.bool (d.has key), d.erase key)
  | existsKey key => (.bool (d.has key), d)
  | keys => (.keys (sorted d.keys), d)
  | snapshot => (.dict d.get?, d)
  | update data => (.none, data.entries.foldl (fun d m => d.set m.1 m.2) d)
  | clear => (.none, .empty)
  | append key item =>
    match d.getD key (.arr []) with
    | .arr items => (.none, d.set key (.arr (items ++ [item.1])))
    | _ => (.typeError (notList key), d)
  | recallList key =>
    match d.getD key (.arr []) with
    | .arr items => (.value (.arr items), d)
    | _ => (.typeError (notList key), d)

/-- The keys it names. -/
def On (K : Set String) : AgentCall → Prop
  | remember key _ | «recall» key _ | forget key | existsKey key | append key _ | recallList key => key ∈ K
  | update data => ∀ key ∈ data.keys, key ∈ K
  | keys | snapshot | clear => True

end AgentCall

/-! ## On a plain dictionary -/

section

variable {d : Dict String Json}

/-- The dictionary that takes everything. -/
abbrev plain : CallStep (Dict String Json) Unit StoreCall StoreCall.Returns := StoreCall.bounded fun _ => True

theorem plain_eq (d : Dict String Json) (i : StoreCall) : plain d i = (.ok (i.onDict d).1, (i.onDict d).2) := by
  rw [plain, StoreCall.bounded, if_pos trivial]

theorem run_plain {α : Type} (i : StoreCall) (next : i.Returns → Client StoreCall StoreCall.Returns α) (d : Dict String Json) :
    (Client.call i next).run plain d = (next (i.onDict d).1).run plain (i.onDict d).2 := by
  rw [Client.run, plain_eq]

theorem run_each {α : Type} (is : List StoreCall) (c : Client StoreCall StoreCall.Returns α) (d : Dict String Json) :
    (Client.each is c).run plain d = c.run plain (is.foldl (fun d i => (i.onDict d).2) d) := by
  induction is generalizing d with
  | nil => rfl
  | cons i is ih => exact (run_plain i _ d).trans (ih _)

/-- `for key in keys: del d[key]`. -/
theorem erase_keys (d : Dict String Json) (ks : List String) (h : ∀ k, d.has k = true → k ∈ ks) :
    (ks.map StoreCall.delete).foldl (fun d i => (i.onDict d).2) d = .empty := by
  have hget : ∀ (ks : List String) (d : Dict String Json) (k : String),
      ((ks.map StoreCall.delete).foldl (fun d i => (i.onDict d).2) d).get? k = if k ∈ ks then none else d.get? k := by
    intro ks
    induction ks with
    | nil => intro d k; simp
    | cons l ks ih =>
      intro d k
      rw [List.map_cons, List.foldl_cons, ih, StoreCall.onDict, Dict.get?_erase]
      by_cases hk : k ∈ ks <;> by_cases hl : k = l <;> simp [hk, hl]
  have hnone (k : String) : ((ks.map StoreCall.delete).foldl (fun d i => (i.onDict d).2) d).get? k = none := by
    rw [hget]
    split
    · rfl
    · rename_i hk
      exact Dict.not_has_iff.mp (Bool.eq_false_iff.mpr fun hh => hk (h k hh))
  generalize (ks.map StoreCall.delete).foldl (fun d i => (i.onDict d).2) d = e at hnone
  obtain ⟨entries, hn⟩ := e
  cases entries with
  | nil => rfl
  | cons m ms =>
    obtain ⟨k, v⟩ := m
    have hk : Dict.get? ⟨(k, v) :: ms, hn⟩ k = some v := Dict.mem_entries.mp (List.mem_cons_self ..)
    rw [hnone k] at hk
    cases hk

/-- On the dictionary that takes everything a method is what `onDict` says. -/
theorem step_plain (hasClear : Bool) (d : Dict String Json) (c : AgentCall) : c.step plain hasClear d = c.onDict d := by
  unfold AgentCall.step
  cases c with
  | update data =>
    rw [AgentCall.method, ZDXAgentMemory.updateAll, run_each, List.foldl_map, Dict.mapValues, List.foldl_map]
    rfl
  | clear =>
    rw [AgentCall.method, ZDXAgentMemory.clear]
    split
    · rw [run_plain]
      rfl
    · rw [run_plain, run_each, erase_keys]
      · rfl
      · intro k hk
        rw [StoreCall.onDict, mem_sorted, Dict.mem_keys]
        exact hk
  | append key item =>
    rw [AgentCall.method, ZDXAgentMemory.append, run_plain, AgentCall.onDict, StoreCall.onDict]
    dsimp only
    cases d.getD key (.arr []) with
    | arr items => exact congrArg (fun r => (shownEnd r.1, r.2)) (run_plain _ _ _)
    | _ => rfl
  | recallList key =>
    rw [AgentCall.method, ZDXAgentMemory.recallList, run_plain, AgentCall.onDict, StoreCall.onDict]
    dsimp only
    cases d.getD key (.arr []) <;> rfl
  | _ =>
    exact congrArg (fun r => (shownEnd r.1, r.2)) (run_plain _ _ _)

end

/-! ## On either store -/

section

variable {word : Char → Bool} {K : Set String} {path : String} {layout : SpatialLayout} {start : Raster}

theorem same_refl : ∀ (i : StoreCall) (o : i.Returns), StoreCall.Same i o o
  | .write _ _, _ => trivial
  | .read _ _, _ => rfl
  | .delete _, _ => rfl
  | .existsKey _, _ => rfl
  | .keys, _ => rfl
  | .all, _ => fun _ => rfl
  | .clear, _ => trivial

/-- A call that a `PixelStore` serves: on a key of `K`, with a value that encodes. -/
def StoreCall.Served (K : Set String) : StoreCall → Prop
  | write key value => key ∈ K ∧ value.Normal ∧ (Codec.encode value).isSome
  | read key _ | delete key | existsKey key => key ∈ K
  | keys | all => True
  | clear => False

theorem sorted_keys_eq {α β : Type} {d : Dict String α} {e : Dict String β} (h : ∀ k, d.has k = e.has k) :
    sorted d.keys = sorted e.keys := by
  refine sorted_perm ((List.perm_ext_iff_of_nodup d.nodup e.nodup).mpr ?_)
  intro k
  have hk : k ∈ d.keys ↔ k ∈ e.keys := by rw [Dict.mem_keys, Dict.mem_keys, h]
  exact hk

/-- What a delete answers. -/
theorem Stored.deleted {w : Handle} {d : Dict String Json} (h : Stored word K w d) (hK : Apart word K) {key : String} (hkey : key ∈ K) :
    (w.store.delete word key w.dir).1 = d.has key := by
  have hold := h.old_missing hK hkey
  unfold PixelStore.delete Dict.has
  cases hv : d.get? key with
  | none => simp only [h.index_none hv, hold, Bool.false_eq_true, if_false, Option.isSome_none]
  | some v =>
    have hload := Directory.has_of_load (h.value key v hv)
    have hold' : (w.dir.remove (PixelStore.makeFilename word key)).has (PixelStore.oldFilename word key) = false := by simp [hold]
    simp only [h.index_some hv, hload, Option.isSome_some]
    split
    · rfl
    · rfl

theorem alike_pixel (hinj : Set.InjOn PixelStore.suffix K) (hK : Apart word K) :
    Client.Alike (StoreCall.onPixel word) plain (fun _ i => i.Served K) StoreCall.Same (Stored word K) := by
  intro w d i h hi
  have hinj' := makeFilename_injOn word hinj
  rw [plain_eq]
  cases i with
  | write key value =>
    obtain ⟨hkey, hn, he⟩ := hi
    obtain ⟨img, himg⟩ := Option.isSome_iff_exists.mp he
    have hst := h.write hinj' hkey (v := ⟨value, hn⟩) he
    have hans : ∃ p, (w.store.write word key value w.dir).1 = .ok p := by
      simp only [PixelStore.write, himg]
      exact ⟨_, rfl⟩
    obtain ⟨p, hp⟩ := hans
    simp only [StoreCall.onPixel, hp, Except.mapError]
    exact Client.like_ok trivial hst
  | read key default =>
    simp only [StoreCall.onPixel, h.read hK hi, Except.mapError]
    exact Client.like_ok rfl h
  | delete key => exact Client.like_ok (h.deleted hK hi) (h.delete hinj' hK hi)
  | existsKey key => exact Client.like_ok (h.existsKey hK hi) h
  | keys =>
    refine Client.like_ok (sorted_keys_eq fun k => ?_) h
    rw [Dict.has, Dict.has, h.index, Option.isSome_map]
  | all =>
    have hall := h.all hK
    cases ha : w.store.all word w.dir with
    | ok e =>
      simp only [StoreCall.onPixel, ha, Except.mapError]
      rw [ha] at hall
      exact Client.like_ok (fun k => Except.ok.inj (hall k)) h
    | error e =>
      rw [ha] at hall
      cases hall ""
  | clear => exact hi.elim

/-- The file holds the dictionary. -/
def InFile (path : String) (layout : SpatialLayout) (start : Raster) (files : Files) (d : Dict String Json) : Prop :=
  ∃ img, files path = .image img ∧ Holds layout start img d

/-- A value to be written reads back as it is. -/
def StoreCall.Normal : StoreCall → Prop
  | write _ value => value.Normal
  | _ => True

/-- The store's calls, as those of the interface. -/
theorem like_of_meets {α : Type} {files : Files} {d e : Dict String Json} (hd : InFile path layout start files d) {a : Answer}
    {x : Except StoreError (α × Files)} (f : α → Answer)
    (h : Meets path layout start (a, e) (x.map fun r => (f r.1, r.2))) {A : α → α → Prop} {b : α}
    (hA : ∀ r, f r = a → A r b) :
    Client.Like A (InFile path layout start) (StoreCall.kept files x)
      (if Storable layout e then (.ok b, e) else (.error (), d) : Except Unit α × Dict String Json) := by
  unfold Meets at h
  cases x with
  | ok r =>
    split at h
    · rename_i hfit
      obtain ⟨files', img, hr, hf, hh⟩ := h
      obtain ⟨hra, hrf⟩ := Prod.mk.inj (Except.ok.inj hr)
      rw [if_pos hfit]
      exact Client.like_ok (hA r.1 hra) ⟨img, hrf ▸ hf, hh⟩
    · obtain ⟨err, hr⟩ := h
      cases hr
  | error err =>
    split at h
    · obtain ⟨files', img, hr, -⟩ := h
      cases hr
    · rename_i hfit
      rw [if_neg hfit]
      exact Client.like_error hd

/-- A call that reads. -/
theorem like_reading {files : Files} {d : Dict String Json} (hd : InFile path layout start files d) (hfits : Storable layout d)
    {i : StoreCall} (hi : (i.onDict d).2 = d) {o : i.Returns}
    (ho : StoreCall.onSpatial ⟨path, layout⟩ files i = (.ok o, files)) (hs : StoreCall.Same i o (i.onDict d).1) :
    Client.Like (StoreCall.Same i) (InFile path layout start) (StoreCall.onSpatial ⟨path, layout⟩ files i)
      (StoreCall.bounded (Storable layout) d i) := by
  have hb : Storable layout (i.onDict d).2 := by rwa [hi]
  rw [ho, StoreCall.bounded, if_pos hb, hi]
  exact Client.like_ok hs hd

theorem alike_spatial (hpos : 0 < layout.storageCapacityBytes) :
    Client.Alike (StoreCall.onSpatial ⟨path, layout⟩) (StoreCall.bounded (Storable layout)) (fun _ i => i.Normal) StoreCall.Same
      (InFile path layout start) := by
  intro files d i hd hi
  obtain ⟨img, hf, hh⟩ := hd
  have hread := readAll_holds hh hf
  have hfits : Storable layout d := hh.storable
  cases i with
  | write key value =>
    have hrun := call_run hpos hh hf (.write key ⟨value, hi⟩)
    exact like_of_meets ⟨img, hf, hh⟩ Answer.path hrun fun r hr => trivial
  | delete key =>
    have hrun := call_run hpos hh hf (.delete key)
    have hd : Call.onDict path d (.delete key) = (.bool (d.has key), d.erase key) := by
      cases hk : d.has key with
      | true => simp only [Call.onDict, hk, if_true]
      | false => simp only [Call.onDict, hk, Bool.false_eq_true, if_false, Dict.erase_of_absent (Dict.not_has_iff.mp hk)]
    rw [hd] at hrun
    exact like_of_meets ⟨img, hf, hh⟩ Answer.bool hrun fun r hr => Answer.bool.inj hr
  | clear =>
    have hrun := call_run hpos hh hf .clear
    have hmap : Call.run ⟨path, layout⟩ files .clear =
        ((SpatialPixelStore.clear ⟨path, layout⟩ files).map fun files => ((), files)).map fun r => (Answer.none, r.2) := by
      rw [Call.run]
      cases SpatialPixelStore.clear ⟨path, layout⟩ files <;> rfl
    rw [hmap] at hrun
    exact like_of_meets ⟨img, hf, hh⟩ (fun _ => Answer.none) hrun fun r hr => trivial
  | read key default =>
    refine like_reading ⟨img, hf, hh⟩ hfits rfl (o := StoreCall.onDict d (.read key default) |>.1) ?_ (same_refl _ _)
    simp only [StoreCall.onSpatial, SpatialPixelStore.read, hread]
    rfl
  | existsKey key =>
    refine like_reading ⟨img, hf, hh⟩ hfits rfl (o := StoreCall.onDict d (.existsKey key) |>.1) ?_ (same_refl _ _)
    simp only [StoreCall.onSpatial, SpatialPixelStore.existsKey, hread]
    rfl
  | keys =>
    refine like_reading ⟨img, hf, hh⟩ hfits rfl (o := StoreCall.onDict d (.keys) |>.1) ?_ (same_refl _ _)
    simp only [StoreCall.onSpatial, SpatialPixelStore.keys, hread]
    rfl
  | all =>
    refine like_reading ⟨img, hf, hh⟩ hfits rfl (o := StoreCall.onDict d (.all) |>.1) ?_ (same_refl _ _)
    simp only [StoreCall.onSpatial, SpatialPixelStore.all, hread]
    rfl

/-! ## Methods -/

theorem each_same (is : List StoreCall) {c c' : Method} (h : Client.Same StoreCall.Same (fun r r' => shownResult r = shownResult r') c c') :
    Client.Same StoreCall.Same (fun r r' => shownResult r = shownResult r') (Client.each is c) (Client.each is c') := by
  induction is with
  | nil => exact h
  | cons i is ih => exact .call fun _ _ _ => ih

/-- A method asks and returns the same of answers that are the same. -/
theorem method_same (hasClear : Bool) (c : AgentCall) :
    Client.Same StoreCall.Same (fun r r' => shownResult r = shownResult r') (c.method hasClear) (c.method hasClear) := by
  cases c with
  | remember key value => exact .call fun _ _ _ => .done rfl
  | «recall» key default => exact .call fun v w h => .done (congrArg Shown.value h)
  | forget key => exact .call fun a b h => .done (congrArg Shown.bool h)
  | existsKey key => exact .call fun a b h => .done (congrArg Shown.bool h)
  | keys => exact .call fun ks ls h => .done (congrArg Shown.keys h)
  | snapshot => exact .call fun d e h => .done (congrArg Shown.dict (funext h))
  | update data => exact each_same _ (.done rfl)
  | clear =>
    cases hasClear with
    | true => exact .call fun _ _ _ => .done rfl
    | false =>
      refine .call fun ks ls h => ?_
      obtain rfl : ks = ls := h
      exact each_same _ (.done rfl)
  | append key item =>
    refine .call fun v w h => ?_
    obtain rfl : v = w := h
    cases v with
    | arr items => exact .call fun _ _ _ => .done rfl
    | _ => exact .done rfl
  | recallList key =>
    refine .call fun v w h => ?_
    obtain rfl : v = w := h
    cases v <;> exact .done rfl

/-- Machines that are alike to programs are alike to the methods. -/
theorem step_like {σ τ ε δ : Type} {store : CallStep σ ε StoreCall StoreCall.Returns} {store' : CallStep τ δ StoreCall StoreCall.Returns}
    {Ok : τ → StoreCall → Prop} {R : σ → τ → Prop} (h : Client.Alike store store' Ok StoreCall.Same R) {s : σ} {t : τ} (hR : R s t)
    {hasClear : Bool} {c : AgentCall} (hm : (c.method hasClear).Meets store' Ok t) :
    (c.step store hasClear s).1 = (c.step store' hasClear t).1 ∧ R (c.step store hasClear s).2 (c.step store' hasClear t).2 := by
  have hlike := Client.run_like h (method_same hasClear c) hm hR
  obtain ⟨hR', hans⟩ := hlike
  refine ⟨?_, hR'⟩
  show shownEnd ((c.method hasClear).run store s).1 = shownEnd ((c.method hasClear).run store' t).1
  cases hx : ((c.method hasClear).run store s).1 with
  | ok r =>
    cases hy : ((c.method hasClear).run store' t).1 with
    | ok r' =>
      rw [hx, hy] at hans
      exact hans
    | error d =>
      rw [hx, hy] at hans
      exact hans.elim
  | error e =>
    cases hy : ((c.method hasClear).run store' t).1 with
    | ok r' =>
      rw [hx, hy] at hans
      exact hans.elim
    | error d => rfl

end

/-! ## The calls a method makes -/

section

variable {K : Set String} {P : Dict String Json → Prop} [DecidablePred P] {layout : SpatialLayout}

/-- A call on a key of `K`, with a value that reads back as it is; `clear` only where there is one. -/
def StoreCall.Names (K : Set String) (hasClear : Bool) : StoreCall → Prop
  | write key value => key ∈ K ∧ value.Normal
  | read key _ | delete key | existsKey key => key ∈ K
  | keys | all => True
  | clear => hasClear = true

/-- The value, if there is one, encodes. -/
def StoreCall.Encodes : StoreCall → Prop
  | write _ value => (Codec.encode value).isSome
  | _ => True

instance : (i : StoreCall) → Decidable i.Encodes
  | .write _ value => inferInstanceAs (Decidable ((Codec.encode value).isSome = true))
  | .read _ _ | .delete _ | .existsKey _ | .keys | .all | .clear => isTrue trivial

/-- The dictionary the call leaves fits the plane, and the value that is written fits an image of its own. -/
def StoreCall.Fits (layout : SpatialLayout) (d : Dict String Json) (i : StoreCall) : Prop := Storable layout (i.onDict d).2 ∧ i.Encodes

instance (d : Dict String Json) (i : StoreCall) : Decidable (i.Fits layout d) :=
  inferInstanceAs (Decidable (Storable layout (i.onDict d).2 ∧ i.Encodes))

/-- Along the calls everything fits. -/
def FitsAlong (layout : SpatialLayout) : Dict String Json → List AgentCall → Prop
  | _, [] => True
  | d, c :: cs => (c.method true).Meets plain (StoreCall.Fits layout) d ∧ FitsAlong layout (c.onDict d).2 cs

def decidableFitsAlong (layout : SpatialLayout) : (d : Dict String Json) → (calls : List AgentCall) →
    Decidable (FitsAlong layout d calls)
  | _, [] => isTrue trivial
  | d, c :: cs =>
    have := decidableFitsAlong layout (c.onDict d).2 cs
    inferInstanceAs (Decidable ((c.method true).Meets plain (StoreCall.Fits layout) d ∧ _))

instance (d : Dict String Json) (calls : List AgentCall) : Decidable (FitsAlong layout d calls) := decidableFitsAlong layout d calls

/-- The keys are of `K`, and the values read back as they are. -/
structure Plain (K : Set String) (d : Dict String Json) : Prop where
  inside : ∀ k, d.has k = true → k ∈ K
  normal : ∀ m ∈ d.entries, m.2.Normal

theorem meets_bounded {α : Type} {Ok : Dict String Json → StoreCall → Prop} {i : StoreCall} {d : Dict String Json}
    {next : i.Returns → Client StoreCall StoreCall.Returns α} (hok : Ok d i)
    (hnext : P (i.onDict d).2 → (next (i.onDict d).1).Meets (StoreCall.bounded P) Ok (i.onDict d).2) :
    (Client.call i next).Meets (StoreCall.bounded P) Ok d := by
  refine Client.meets_call.mpr ⟨hok, ?_⟩
  rw [StoreCall.bounded]
  split
  · rename_i heq
    split at heq
    · rename_i hP
      cases heq
      exact hnext hP
    · cases heq
  · trivial

theorem normalItems_iff {vs : List Json} : Json.NormalItems vs ↔ ∀ v ∈ vs, v.Normal := by
  induction vs with
  | nil => simp [Json.NormalItems]
  | cons v vs ih => simp [Json.NormalItems, ih]

theorem normal_append {items : List Json} {item : Json} (h : (Json.arr items).Normal) (hi : item.Normal) :
    (Json.arr (items ++ [item])).Normal := by
  rw [Json.Normal, normalItems_iff] at *
  intro v hv
  rcases List.mem_append.mp hv with hv | hv
  · exact h v hv
  · rw [List.mem_singleton.mp hv]
    exact hi

namespace Plain

variable {d : Dict String Json}

theorem getD (h : Plain K d) (key : String) {default : Json} (hd : default.Normal) : (d.getD key default).Normal := by
  rw [Dict.getD]
  cases hv : d.get? key with
  | some v => exact h.normal (key, v) (Dict.mem_entries.mpr hv)
  | none => exact hd

theorem set (h : Plain K d) {key : String} (hkey : key ∈ K) {v : Json} (hv : v.Normal) : Plain K (d.set key v) := by
  refine ⟨fun k hk => ?_, normal_set h.normal key hv⟩
  by_cases hkk : k = key
  · rw [hkk]
    exact hkey
  · rw [Dict.has_set_of_ne d hkk] at hk
    exact h.inside k hk

theorem erase (h : Plain K d) (key : String) : Plain K (d.erase key) := by
  refine ⟨fun k hk => h.inside k ?_, normal_erase h.normal key⟩
  by_cases hkk : k = key
  · rw [hkk, Dict.has_erase_self] at hk
    cases hk
  · rwa [Dict.has_erase_of_ne d hkk] at hk

theorem empty (K : Set String) : Plain K .empty := ⟨fun _ hk => (nomatch hk), fun _ hm => absurd hm List.not_mem_nil⟩

/-- Every call keeps it. -/
theorem onDict (h : Plain K d) {c : AgentCall} (hc : c.On K) : Plain K (c.onDict d).2 := by
  cases c with
  | remember key value => exact h.set hc value.2
  | forget key => exact h.erase key
  | update data =>
    have hall : ∀ es : List (String × NormalJson), (∀ e ∈ es, e.1 ∈ K) → ∀ d, Plain K d →
        Plain K (es.foldl (fun d m => d.set m.1 m.2) d) := by
      intro es
      induction es with
      | nil => exact fun _ d hd => hd
      | cons e es ih =>
        intro hes d hd
        obtain ⟨he, hes⟩ := List.forall_mem_cons.mp hes
        exact ih hes _ (hd.set he e.2.2)
    exact hall data.entries (fun e he => hc e.1 (List.mem_map_of_mem he)) d h
  | clear => exact Plain.empty K
  | append key item =>
    have hv : (d.getD key (.arr [])).Normal := h.getD key trivial
    rw [AgentCall.onDict]
    generalize d.getD key (.arr []) = v at hv ⊢
    cases v with
    | arr items => exact h.set hc (normal_append hv item.2)
    | _ => exact h
  | recallList key =>
    rw [AgentCall.onDict]
    cases d.getD key (.arr []) <;> exact h
  | _ => exact h

end Plain

/-- A method on keys of `K` makes calls on keys of `K`, where the store knows of no others and what it reads is normal. -/
theorem meets_names {τ δ : Type} {store : CallStep τ δ StoreCall StoreCall.Returns} {t : τ}
    (hread : ∀ key v t', store t (.read key (.arr [])) = (.ok v, t') → v.Normal)
    (hkeys : ∀ ks t', store t .keys = (.ok ks, t') → ∀ k ∈ ks, k ∈ K) {c : AgentCall} (hc : c.On K) (hasClear : Bool) :
    (c.method hasClear).Meets store (fun _ i => i.Names K hasClear) t := by
  cases c with
  | remember key value => exact Client.meets_of ⟨hc, value.2⟩ fun _ _ _ => trivial
  | «recall» key default => exact Client.meets_of hc fun _ _ _ => trivial
  | forget key => exact Client.meets_of hc fun _ _ _ => trivial
  | existsKey key => exact Client.meets_of hc fun _ _ _ => trivial
  | keys => exact Client.meets_of trivial fun _ _ _ => trivial
  | snapshot => exact Client.meets_of trivial fun _ _ _ => trivial
  | update data =>
    refine Client.meets_each (StoreCall.Names K hasClear) ?_ _ _
    intro i hi
    obtain ⟨m, hm, rfl⟩ := List.mem_map.mp hi
    obtain ⟨e, he, rfl⟩ := List.mem_map.mp hm
    exact ⟨hc e.1 (List.mem_map_of_mem he), e.2.2⟩
  | clear =>
    cases hasClear with
    | true => exact Client.meets_of rfl fun _ _ _ => trivial
    | false =>
      refine Client.meets_of trivial fun ks t' hks => Client.meets_each (StoreCall.Names K false) ?_ _ _
      intro i hi
      obtain ⟨k, hk, rfl⟩ := List.mem_map.mp hi
      exact hkeys ks t' hks k hk
  | append key item =>
    refine Client.meets_of hc fun v t' hv => ?_
    have hn := hread key v t' hv
    cases v with
    | arr items => exact Client.meets_of ⟨hc, normal_append hn item.2⟩ fun _ _ _ => trivial
    | _ => trivial
  | recallList key =>
    refine Client.meets_of hc fun v _ _ => ?_
    cases v <;> trivial

theorem bounded_ok {d e : Dict String Json} {i : StoreCall} {o : i.Returns} (h : StoreCall.bounded P d i = (.ok o, e)) :
    o = (i.onDict d).1 := by
  rw [StoreCall.bounded] at h
  by_cases hP : P (i.onDict d).2
  · rw [if_pos hP] at h
    exact (Except.ok.inj (Prod.mk.inj h).1).symm
  · rw [if_neg hP] at h
    cases (Prod.mk.inj h).1

/-- The same on a dictionary. -/
theorem Plain.meets_names {d : Dict String Json} (h : Plain K d) {c : AgentCall} (hc : c.On K) (hasClear : Bool) :
    (c.method hasClear).Meets (StoreCall.bounded P) (fun _ i => i.Names K hasClear) d := by
  refine Memory.meets_names (fun key v t' hv => ?_) (fun ks t' hks k hk => ?_) hc hasClear
  · rw [bounded_ok hv]
    exact h.getD key trivial
  · rw [bounded_ok hks] at hk
    exact h.inside k (Dict.mem_keys.mp (mem_sorted.mp hk))

/-- `clear` without the store's own writes nothing. -/
theorem meets_encodes {d : Dict String Json} {c : AgentCall} (h : (c.method true).Meets plain (StoreCall.Fits layout) d) :
    (c.method false).Meets plain (fun _ i => i.Encodes) d := by
  cases c with
  | clear =>
    refine meets_bounded trivial fun _ => Client.meets_each StoreCall.Encodes ?_ _ _
    intro i hi
    obtain ⟨k, -, rfl⟩ := List.mem_map.mp hi
    trivial
  | _ => exact h.mono fun _ _ hi => hi.2

end

/-! ## Both memories -/

section

variable {word : Char → Bool} {K : Set String} {path : String} {layout : SpatialLayout} {start : Raster}

theorem served_of_names {i : StoreCall} (h : i.Names K false) (he : i.Encodes) : i.Served K := by
  cases i with
  | write key value => exact ⟨h.1, h.2, he⟩
  | clear => cases h
  | keys => trivial
  | all => trivial
  | _ => exact h

theorem normal_of_names {i : StoreCall} {hasClear : Bool} (h : i.Names K hasClear) : i.Normal := by
  cases i with
  | write key value => exact h.2
  | _ => trivial

/-- One call on a `PixelStore` memory. -/
theorem pixel_step (hinj : Set.InjOn PixelStore.suffix K) (hK : Apart word K) {w : Handle} {d : Dict String Json}
    (h : Stored word K w d) (hd : Plain K d) {c : AgentCall} (hc : c.On K)
    (hfit : (c.method true).Meets plain (StoreCall.Fits layout) d) :
    (c.step (StoreCall.onPixel word) false w).1 = (c.onDict d).1 ∧
      Stored word K (c.step (StoreCall.onPixel word) false w).2 (c.onDict d).2 := by
  have hmeets := ((hd.meets_names hc false).and (meets_encodes hfit)).mono fun _ i hi => served_of_names hi.1 hi.2
  have hstep := step_like (alike_pixel hinj hK) h hmeets
  rwa [step_plain] at hstep

/-- One call on a spatial memory. -/
theorem spatial_step (hpos : 0 < layout.storageCapacityBytes) {files : Files} {d : Dict String Json}
    (h : InFile path layout start files d) (hd : Plain K d) {c : AgentCall} (hc : c.On K)
    (hfit : (c.method true).Meets plain (StoreCall.Fits layout) d) :
    (c.step (StoreCall.onSpatial ⟨path, layout⟩) true files).1 = (c.onDict d).1 ∧
      InFile path layout start (c.step (StoreCall.onSpatial ⟨path, layout⟩) true files).2 (c.onDict d).2 := by
  have halike : Client.Alike (StoreCall.onSpatial ⟨path, layout⟩) plain
      (fun d i => i.Names K true ∧ StoreCall.Fits layout d i) StoreCall.Same (InFile path layout start) := by
    intro files d i hfile hi
    have hlike := alike_spatial hpos files d i hfile (normal_of_names hi.1)
    rwa [StoreCall.bounded, if_pos hi.2.1, ← plain_eq] at hlike
  have hstep := step_like halike h ((hd.meets_names hc true).and hfit)
  rwa [step_plain] at hstep

/-- A file that is not there yet, or an image whose storage rows are blank. -/
theorem inFile_attach (hpos : 4 ≤ layout.storageCapacityBytes) {files : Files}
    (hfile : (∃ img, files path = .image img ∧ BlankStorage layout img) ∨ files path = .missing) :
    ∃ start, InFile path layout start (SpatialPixelStore.attach path layout files).2 .empty := by
  rcases hfile with ⟨img, hf, hblank⟩ | hf
  · refine ⟨img, img, ?_, holds_blank hpos hblank⟩
    simp only [SpatialPixelStore.attach, hf]
  · refine ⟨_, _, ?_, holds_blank hpos (blankStorage_blank layout)⟩
    simp only [SpatialPixelStore.attach, hf, Function.update_self]

theorem backends_run (hinj : Set.InjOn PixelStore.suffix K) (hK : Apart word K) (hpos : 0 < layout.storageCapacityBytes)
    {calls : List AgentCall} (hcalls : ∀ c ∈ calls, c.On K) {w : Handle} {files : Files} {d : Dict String Json}
    (hstored : Stored word K w d) (hin : InFile path layout start files d) (hd : Plain K d) (hfit : FitsAlong layout d calls) :
    (Trace.log (AgentCall.step (StoreCall.onPixel word) false) w calls).map (·.2) = (Trace.log AgentCall.onDict d calls).map (·.2) ∧
      (Trace.log (AgentCall.step (StoreCall.onSpatial ⟨path, layout⟩) true) files calls).map (·.2) =
        (Trace.log AgentCall.onDict d calls).map (·.2) := by
  induction calls generalizing w files d with
  | nil => exact ⟨rfl, rfl⟩
  | cons c cs ih =>
    obtain ⟨hc, hcs⟩ := List.forall_mem_cons.mp hcalls
    obtain ⟨hfit, hfits⟩ := hfit
    obtain ⟨hp, hstored'⟩ := pixel_step hinj hK hstored hd hc hfit
    obtain ⟨hq, hin'⟩ := spatial_step hpos hin hd hc hfit
    obtain ⟨hp', hq'⟩ := ih hcs hstored' hin' (hd.onDict hc) hfits
    simp only [Trace.log_cons, List.map_cons, hp, hp', hq, hq', and_self]

/-- The two memories of an agent agree. Of keys whose file names do not meet, with values that
    fit, every call of a run is answered by the memory over one PNG a key and by that over one
    spatial PNG as by a dictionary. -/
theorem backends_agree (word : Char → Bool) {K : Set String} (hinj : Set.InjOn PixelStore.suffix K) (hK : Apart word K)
    (storeDir path : String) {layout : SpatialLayout} (hpos : 4 ≤ layout.storageCapacityBytes) {files : Files}
    (hfile : (∃ img, files path = .image img ∧ BlankStorage layout img) ∨ files path = .missing) {calls : List AgentCall}
    (hcalls : ∀ c ∈ calls, c.On K) (hfit : FitsAlong layout .empty calls) :
    let spatial := SpatialPixelStore.attach path layout files
    let asDict := (Trace.log AgentCall.onDict .empty calls).map (·.2)
    (Trace.log (AgentCall.step (StoreCall.onPixel word) false) ⟨.create {} storeDir, {}⟩ calls).map (·.2) = asDict ∧
      (Trace.log (AgentCall.step (StoreCall.onSpatial spatial.1) true) spatial.2 calls).map (·.2) = asDict := by
  have hstored : Stored word K ⟨.create {} storeDir, {}⟩ .empty :=
    ⟨fun _ => rfl, fun _ hk => (nomatch hk), fun _ _ hk => (nomatch hk), fun _ _ => rfl⟩
  obtain ⟨start, hin⟩ := inFile_attach hpos hfile
  exact backends_run hinj hK (by omega) hcalls hstored hin (Plain.empty K) hfit

/-- A plane of 192 bytes. -/
def small : SpatialLayout := .bare 8 8 0 (by decide) (by decide) (by decide)

/-- A list is begun, continued and read. -/
def listing : List AgentCall :=
  [.append "log" ⟨.null, trivial⟩, .append "log" ⟨.bool true, trivial⟩, .recallList "log", .clear, .keys]

theorem backends_agree_listing :
    let answers := [Shown.none, .none, .value (.arr [.null, .bool true]), .none, .keys []]
    (Trace.log (AgentCall.step (StoreCall.onPixel asciiWord) false) ⟨.create {} "zdx_memory/", {}⟩ listing).map (·.2) = answers ∧
      (Trace.log (AgentCall.step (StoreCall.onSpatial (SpatialPixelStore.attach "m.png" small fun _ => .missing).1) true)
        (SpatialPixelStore.attach "m.png" small fun _ => .missing).2 listing).map (·.2) = answers := by
  have hinj : Set.InjOn PixelStore.suffix {k | k = "log"} := by
    rintro k rfl l rfl -
    rfl
  have hK : Apart asciiWord {k | k = "log"} := by
    rintro k rfl l rfl
    exact oldFilename_ne_own asciiWord "log"
  have hfit : FitsAlong small .empty listing := by decide +kernel
  have hcalls : ∀ c ∈ listing, c.On {k | k = "log"} := by
    simp [listing, AgentCall.On]
  exact backends_agree asciiWord hinj hK "zdx_memory/" "m.png" (by decide) (.inr rfl) hcalls hfit

end

/-! ## What the answers tell -/

section

variable {P : Dict String Json → Prop} [DecidablePred P] {path : String} {layout : SpatialLayout}

namespace AgentCall

/-- The list with the item, where there is one or none. -/
def appended (v : Option Json) (item : Json) : Json :=
  match v.getD (.arr []) with
  | .arr items => .arr (items ++ [item])
  | other => other

/-- What is under `k` after a call, to one who knows what was before and sees the answer:
    a call that raised has left all as it was. -/
def told (k : String) (v : Option Json) : AgentCall × Shown → Option Json
  | (_, .raised) | (_, .typeError _) => v
  | (remember key value, _) => if k = key then some value.1 else v
  | (forget key, _) => if k = key then none else v
  | (update data, _) => ((data.get? k).map (·.1)).or v
  | (clear, _) => none
  | (append key item, _) => if k = key then some (appended v item.1) else v
  | (_, _) => v

/-- An update that raised may have written some of its entries. -/
def Whole (k : String) : AgentCall × Shown → Prop
  | (update data, .raised) => data.has k = false
  | _ => True

end AgentCall

theorem run_bounded {α : Type} (i : StoreCall) (next : i.Returns → Client StoreCall StoreCall.Returns α) (d : Dict String Json) :
    (Client.call i next).run (StoreCall.bounded P) d =
      if P (i.onDict d).2 then (next (i.onDict d).1).run (StoreCall.bounded P) (i.onDict d).2 else (.error (), d) := by
  rw [Client.run, StoreCall.bounded]
  by_cases h : P (i.onDict d).2
  · rw [if_pos h, if_pos h]
  · rw [if_neg h, if_neg h]

/-- The writes of an update: all of them, or some and then one that raises. -/
theorem run_writes (es : List (String × Json)) (d : Dict String Json) :
    let r := (Client.each (es.map fun m => .write m.1 m.2) (.done (.ok .none)) : Method).run (StoreCall.bounded P) d
    r = (.ok (.ok .none), es.foldl (fun d m => d.set m.1 m.2) d) ∨
      r.1 = .error () ∧ ∀ k, k ∉ es.map (·.1) → r.2.get? k = d.get? k := by
  induction es generalizing d with
  | nil => exact .inl rfl
  | cons e es ih =>
    intro r
    have hr : r = _ := run_bounded (P := P) (.write e.1 e.2) _ d
    split at hr
    · rcases ih (d.set e.1 e.2) with h | ⟨he, hk⟩
      · exact .inl (hr.trans h)
      · refine .inr ⟨(congrArg Prod.fst hr).trans he, fun k hks => ?_⟩
        rw [List.map_cons, List.mem_cons, not_or] at hks
        rw [hr]
        exact (hk k hks.2).trans (Dict.get?_set_of_ne d hks.1 _)
    · rw [hr]
      exact .inr ⟨rfl, fun _ _ => rfl⟩

/-- What an update of a dictionary leaves. -/
theorem get?_update (data d : Dict String Json) (k : String) :
    (data.entries.foldl (fun d m => d.set m.1 m.2) d).get? k = (data.get? k).or (d.get? k) := by
  rw [Dict.get?_foldl_set, ← Dict.get?_ofList, Dict.ofList_entries]

/-- One call on a dictionary that takes only what fits. -/
theorem told_step (d : Dict String Json) (c : AgentCall) (k : String)
    (h : AgentCall.Whole k (c, (c.step (StoreCall.bounded P) true d).1)) :
    (c.step (StoreCall.bounded P) true d).2.get? k = AgentCall.told k (d.get? k) (c, (c.step (StoreCall.bounded P) true d).1) := by
  unfold AgentCall.step at h ⊢
  cases c with
  | remember key value =>
    rw [AgentCall.method, ZDXAgentMemory.remember, run_bounded]
    split
    · exact Dict.get?_set d key k value.1
    · rfl
  | forget key =>
    rw [AgentCall.method, ZDXAgentMemory.forget, run_bounded]
    split
    · exact Dict.get?_erase d key k
    · rfl
  | clear =>
    rw [AgentCall.method, ZDXAgentMemory.clear, if_pos rfl, run_bounded]
    split <;> rfl
  | update data =>
    rw [AgentCall.method, ZDXAgentMemory.updateAll] at h ⊢
    rcases run_writes (P := P) (data.mapValues (·.1)).entries d with hr | ⟨he, hk⟩
    · rw [hr]
      show Dict.get? _ k = ((data.get? k).map (·.1)).or (d.get? k)
      rw [get?_update, Dict.get?_mapValues]
    · dsimp only at h ⊢
      rw [he] at h ⊢
      refine hk k fun hmem => ?_
      have hhas : (data.mapValues (·.1)).has k = true := Dict.mem_keys.mp hmem
      rw [Dict.has, Dict.get?_mapValues, Option.isSome_map] at hhas
      exact Bool.false_ne_true (Eq.trans (Eq.symm h) hhas)
  | append key item =>
    rw [AgentCall.method, ZDXAgentMemory.append, run_bounded]
    split
    · rw [StoreCall.onDict]
      dsimp only
      cases hv : d.getD key (.arr []) with
      | arr items =>
        dsimp only
        rw [run_bounded]
        split
        · refine (Dict.get?_set d key k _).trans ?_
          by_cases hk : k = key
          · have happ : AgentCall.appended (d.get? k) item.1 = .arr (items ++ [item.1]) := by
              rw [Dict.getD] at hv
              rw [AgentCall.appended, hk, hv]
            rw [if_pos hk, ← happ]
            exact (if_pos hk).symm
          · rw [if_neg hk]
            exact (if_neg hk).symm
        · rfl
      | _ => rfl
    · rfl
  | recallList key =>
    rw [AgentCall.method, ZDXAgentMemory.recallList, run_bounded]
    split
    · rw [StoreCall.onDict]
      dsimp only
      cases d.getD key (.arr []) <;> rfl
    · rfl
  | «recall» key default =>
    rw [AgentCall.method, ZDXAgentMemory.recall, run_bounded]
    split <;> rfl
  | existsKey key =>
    rw [AgentCall.method, ZDXAgentMemory.existsKey, run_bounded]
    split <;> rfl
  | keys =>
    rw [AgentCall.method, ZDXAgentMemory.keys, run_bounded]
    split <;> rfl
  | snapshot =>
    rw [AgentCall.method, ZDXAgentMemory.snapshot, run_bounded]
    split <;> rfl

/-- A call on a spatial memory is the one on the dictionary it holds, if that takes only what fits. -/
theorem spatial_bounded (hpos : 0 < layout.storageCapacityBytes) {start : Raster} {files : Files} {d : Dict String Json}
    (h : InFile path layout start files d) (c : AgentCall) :
    (c.step (StoreCall.onSpatial ⟨path, layout⟩) true files).1 = (c.step (StoreCall.bounded (Storable layout)) true d).1 ∧
      InFile path layout start (c.step (StoreCall.onSpatial ⟨path, layout⟩) true files).2
        (c.step (StoreCall.bounded (Storable layout)) true d).2 := by
  obtain ⟨img, hf, hh⟩ := h
  have hplain : Plain Set.univ d := ⟨fun _ _ => Set.mem_univ _, hh.normal⟩
  have hon : c.On Set.univ := by cases c <;> simp [AgentCall.On]
  have hmeets := (hplain.meets_names (P := Storable layout) hon true).mono fun _ _ hi => normal_of_names hi
  exact step_like (alike_spatial hpos) ⟨img, hf, hh⟩ hmeets

/-- One call on a spatial memory, and what its answer tells. -/
theorem spatial_told (hpos : 0 < layout.storageCapacityBytes) {start : Raster} {files : Files} {d : Dict String Json}
    (h : InFile path layout start files d) (c : AgentCall) (k : String)
    (hw : AgentCall.Whole k (c, (c.step (StoreCall.onSpatial ⟨path, layout⟩) true files).1)) :
    ∃ d', InFile path layout start (c.step (StoreCall.onSpatial ⟨path, layout⟩) true files).2 d' ∧
      d'.get? k = AgentCall.told k (d.get? k) (c, (c.step (StoreCall.onSpatial ⟨path, layout⟩) true files).1) := by
  obtain ⟨hans, hin⟩ := spatial_bounded hpos h c
  rw [hans] at hw ⊢
  exact ⟨_, hin, told_step d c k hw⟩

/-- What a spatial memory answers of a key. -/
theorem spatial_reads {start : Raster} {files : Files} {d : Dict String Json} (h : InFile path layout start files d) (k : String) :
    (∀ default, (AgentCall.step (StoreCall.onSpatial ⟨path, layout⟩) true files (.«recall» k default)).1 = .value (d.getD k default)) ∧
      (AgentCall.step (StoreCall.onSpatial ⟨path, layout⟩) true files (.existsKey k)).1 = .bool (d.has k) ∧
      (AgentCall.step (StoreCall.onSpatial ⟨path, layout⟩) true files .snapshot).1 = .dict d.get? := by
  obtain ⟨img, hf, hh⟩ := h
  have hread := readAll_holds hh hf
  have hr (default : Json) : SpatialPixelStore.read ⟨path, layout⟩ k default files = .ok (d.getD k default) := by
    simp only [SpatialPixelStore.read, hread]
    rfl
  have he : SpatialPixelStore.existsKey ⟨path, layout⟩ k files = .ok (d.has k) := by
    simp only [SpatialPixelStore.existsKey, hread]
    rfl
  have ha : SpatialPixelStore.all ⟨path, layout⟩ files = .ok d := hread
  refine ⟨fun default => ?_, ?_, ?_⟩
  · simp only [AgentCall.step, AgentCall.method, ZDXAgentMemory.recall, Client.run, StoreCall.onSpatial, hr]
    rfl
  · simp only [AgentCall.step, AgentCall.method, ZDXAgentMemory.existsKey, Client.run, StoreCall.onSpatial, he]
    rfl
  · simp only [AgentCall.step, AgentCall.method, ZDXAgentMemory.snapshot, Client.run, StoreCall.onSpatial, ha]
    rfl

theorem spatial_told_run (hpos : 0 < layout.storageCapacityBytes) {start : Raster} {k : String} {calls : List AgentCall} {files : Files}
    {d : Dict String Json} (h : InFile path layout start files d)
    (hw : ∀ x ∈ Trace.log (AgentCall.step (StoreCall.onSpatial ⟨path, layout⟩) true) files calls, AgentCall.Whole k x) :
    ∃ d', InFile path layout start (Trace.final (AgentCall.step (StoreCall.onSpatial ⟨path, layout⟩) true) files calls) d' ∧
      d'.get? k =
        (Trace.log (AgentCall.step (StoreCall.onSpatial ⟨path, layout⟩) true) files calls).foldl (AgentCall.told k) (d.get? k) := by
  induction calls generalizing files d with
  | nil => exact ⟨d, h, rfl⟩
  | cons c cs ih =>
    obtain ⟨hc, hcs⟩ := List.forall_mem_cons.mp hw
    obtain ⟨d', hin, hd'⟩ := spatial_told hpos h c k hc
    rw [Trace.log_cons, List.foldl_cons, ← hd', Trace.final_cons]
    exact ih hin hcs

/-- A spatial memory of 4 bytes or more, on a file whose storage is blank or on none, holds under every
    key what the answers to its calls tell, also where some of them raised: a call that raised has left
    nothing of it, as long as it is no update. -/
theorem answers_tell_all (path : String) {layout : SpatialLayout} (hpos : 4 ≤ layout.storageCapacityBytes) {files : Files}
    (hfile : (∃ img, files path = .image img ∧ BlankStorage layout img) ∨ files path = .missing) (calls : List AgentCall) (k : String) :
    let spatial := SpatialPixelStore.attach path layout files
    let step := AgentCall.step (StoreCall.onSpatial spatial.1) true
    let log := Trace.log step spatial.2 calls
    let files' := Trace.final step spatial.2 calls
    let told := log.foldl (AgentCall.told k) none
    (∀ x ∈ log, AgentCall.Whole k x) →
      (∀ default, (step files' (.«recall» k default)).1 = .value (told.getD default)) ∧
        (step files' (.existsKey k)).1 = .bool told.isSome ∧
        ∃ snapshot, (step files' .snapshot).1 = .dict snapshot ∧ snapshot k = told := by
  intro spatial step log files' told hw
  obtain ⟨start, hin⟩ := inFile_attach hpos hfile
  obtain ⟨d, hin', hd⟩ := spatial_told_run (by omega) hin hw
  obtain ⟨hrecall, hexists, hall⟩ := spatial_reads hin' k
  have htold : d.get? k = told := hd
  refine ⟨fun default => ?_, ?_, d.get?, hall, htold⟩
  · rw [← htold]
    exact hrecall default
  · rw [← htold]
    exact hexists

/-- Of 24 bytes. -/
def tiny : SpatialLayout := .bare 8 1 0 (by decide) (by decide) (by decide)

/-- The second item does not fit any more. -/
def overfull : List AgentCall := [.append "k" ⟨.null, trivial⟩, .append "k" ⟨.str "a long text", trivial⟩]

theorem answers_tell_all_overfull :
    let spatial := SpatialPixelStore.attach "m.png" tiny fun _ => .missing
    let step := AgentCall.step (StoreCall.onSpatial spatial.1) true
    (step (Trace.final step spatial.2 overfull) (.«recall» "k" .null)).1 = .value (.arr [.null]) := by
  intro spatial step
  have htold : (Trace.log step spatial.2 overfull).foldl (AgentCall.told "k") none = some (.arr [.null]) := by decide +kernel
  have hwhole : ∀ x ∈ Trace.log step spatial.2 overfull, AgentCall.Whole "k" x := by
    intro x hx
    have hcall : x.1 ∈ overfull := Trace.mem_log_input hx
    obtain ⟨c, shown⟩ := x
    simp only [overfull, List.mem_cons, List.not_mem_nil, or_false] at hcall
    rcases hcall with rfl | rfl <;> trivial
  have h := (answers_tell_all "m.png" (by decide) (.inr rfl) overfull "k" hwhole).1 .null
  rwa [htold] at h

end

end PyxelVM.Memory
