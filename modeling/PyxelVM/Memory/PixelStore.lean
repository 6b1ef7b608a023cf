/-
  PyxelVM.Memory.PixelStore — `PixelStore` (`zdx_pixel_memory/store.py`): one PNG a key,
  in one directory with `keys.json`.

  A store object holds the index it loaded; the directory holds the PNG files by name,
  and the index last saved. Which characters `\w` takes (`word`) is a parameter; the file
  system takes every name.

  New files are named by the key's slug and its digest, and the fallback for files of
  the old scheme by the slug alone. `Stored`: the directory holds a dictionary. As long
  as no key's old name is another's new one (`Apart`), every call keeps it
  (`step_stored`), and reading, `exists` and `all` answer from it.

  - `isolated_iff`: keys are isolated exactly when no old name is a new one.
  - `deleted_by_other_key`: deleting `a_0cc175b9` deletes the file of `a`.
-/

import Mathlib.Data.Set.Function
import PyxelVM.Lib.Md5
import PyxelVM.Lib.Text
import PyxelVM.Memory.Codec
import PyxelVM.Memory.SpatialStore

namespace PyxelVM.Memory

open Function (update)
open PyxelVM.Lib
open PyxelVM.Vm (File Raster)

/-! ## The directory -/

/-- `keys.json`. -/
inductive IndexFile where
  | missing
  | unreadable
  | saved (index : Dict String String)

structure Directory where
  index : IndexFile := .missing
  files : Files := fun _ => .missing

inductive ReadError where
  | noFile (name : String)
  | noImage (name : String)
  | decode (e : Codec.DecodeError)
  deriving DecidableEq, Repr

namespace Directory

/-- `os.path.exists`. -/
def has (dir : Directory) (name : String) : Bool :=
  match dir.files name with
  | .missing => false
  | _ => true

/-- `codec.decode(Image.open(path))`. -/
def load (dir : Directory) (name : String) : Except ReadError Json :=
  match dir.files name with
  | .missing => .error (.noFile name)
  | .notImage => .error (.noImage name)
  | .image img => (Codec.decode img).mapError .decode

/-- `os.remove`. -/
def remove (dir : Directory) (name : String) : Directory := { dir with files := update dir.files name .missing }

end Directory

/-- `os.path.join(dir, name)`. -/
def joinPath (dir name : String) : String :=
  if name.toList.head? = some '/' then name
  else if dir = "" ∨ dir.toList.getLast? = some '/' then dir ++ name
  else dir ++ "/" ++ name

/-! ## The store -/

/-- The OverflowError of a payload too long for its header. -/
inductive WriteError where
  | overflow
  deriving DecidableEq, Repr

structure PixelStore where
  storeDir : String := "zdx_memory/"
  index : Dict String String

namespace PixelStore

def loadIndex (dir : Directory) : Dict String String :=
  match dir.index with
  | .saved index => index
  | _ => .empty

/-- The constructor. -/
def create (dir : Directory) (storeDir : String := "zdx_memory/") : PixelStore := ⟨storeDir, loadIndex dir⟩

/-- `_SAFE_KEY.sub("_", key)`. -/
def safeKey (word : Char → Bool) (key : String) : String :=
  String.ofList (key.toList.map fun c => if word c || c == '-' || c == '.' then c else '_')

/-- `hashlib.md5(key.encode()).hexdigest()[:8]`. -/
def suffix (key : String) : String := String.ofList ((Md5.hexdigest (utf8 key)).toList.take 8)

def makeFilename (word : Char → Bool) (key : String) : String := safeKey word key ++ "_" ++ suffix key ++ ".px.png"

def oldFilename (word : Char → Bool) (key : String) : String := safeKey word key ++ ".px.png"

variable (word : Char → Bool)

/-- A new key is in the index, and the index saved, before its value is encoded. -/
def write (s : PixelStore) (key : String) (value : Json) (dir : Directory) :
    Except WriteError String × PixelStore × Directory :=
  let new := { s with index := s.index.set key (makeFilename word key) }
  let (s, dir) := if s.index.has key then (s, dir) else (new, { dir with index := .saved new.index })
  let name := s.index.getD key ""
  match Codec.encode value with
  | none => (.error .overflow, s, dir)
  | some img => (.ok (joinPath s.storeDir name), s, { dir with files := update dir.files name (.image img) })

def read (s : PixelStore) (key : String) (default : Json) (dir : Directory) : Except ReadError Json :=
  match (s.index.get? key).filter dir.has with
  | some name => dir.load name
  | none =>
    let old := oldFilename word key
    if dir.has old then dir.load old else .ok default

def delete (s : PixelStore) (key : String) (dir : Directory) : Bool × PixelStore × Directory :=
  let (removed, s, dir) :=
    match s.index.get? key with
    | some name =>
      let s' := { s with index := s.index.erase key }
      (dir.has name, s', { dir.remove name with index := .saved s'.index })
    | none => (false, s, dir)
  let old := oldFilename word key
  if dir.has old then (true, s, dir.remove old) else (removed, s, dir)

/-- `exists`. -/
def existsKey (s : PixelStore) (key : String) (dir : Directory) : Bool :=
  match s.index.get? key with
  | some name => dir.has name
  | none => dir.has (oldFilename word key)

def keys (s : PixelStore) : List String := sorted s.index.keys

/-- The loop of `all`. -/
def readKeys (s : PixelStore) (dir : Directory) : List String → Dict String Json → Except ReadError (Dict String Json)
  | [], d => .ok d
  | k :: ks, d =>
    match s.read word k .null dir with
    | .ok v => readKeys s dir ks (d.set k v)
    | .error e => .error e

def all (s : PixelStore) (dir : Directory) : Except ReadError (Dict String Json) := s.readKeys word dir s.keys .empty

end PixelStore

/-! ## Calls -/

variable (word : Char → Bool)

/-- A store object and its directory. -/
structure Handle where
  store : PixelStore
  dir : Directory

inductive Op where
  | write (key : String) (value : NormalJson)
  | read (key : String) (default : Json)
  | delete (key : String)
  | existsKey (key : String)

namespace Op

def key : Op → String
  | write key _ | read key _ | delete key | existsKey key => key

/-- The value, if there is one, encodes. -/
def Encodes : Op → Prop
  | write _ value => (Codec.encode value.1).isSome
  | _ => True

/-- What a call leaves; reading leaves all as it is. -/
def run (w : Handle) : Op → Handle
  | write key value =>
    let r := w.store.write word key value w.dir
    ⟨r.2.1, r.2.2⟩
  | delete key =>
    let r := w.store.delete word key w.dir
    ⟨r.2.1, r.2.2⟩
  | read _ _ | existsKey _ => w

/-- The call on a plain dictionary. -/
def onDict (d : Dict String Json) : Op → Dict String Json
  | write key value => d.set key value
  | delete key => d.erase key
  | read _ _ | existsKey _ => d

/-- Whether `k` is present after the call, if it was before. -/
def presence (k : String) (before : Bool) : Op → Bool
  | write key _ => key == k || before
  | delete key => key != k && before
  | read _ _ | existsKey _ => before

end Op

/-- The store on the empty directory after the calls. -/
def after (ops : List Op) : Handle := ops.foldl (Op.run word) ⟨.create {}, {}⟩

/-- The last write or delete of `k` was a write. -/
def present (k : String) (ops : List Op) : Bool := ops.foldl (Op.presence k) false

/-- The handles report the same of `k`. -/
structure SameReport (w w' : Handle) (k : String) : Prop where
  read : ∀ default, w.store.read word k default w.dir = w'.store.read word k default w'.dir
  existsKey : w.store.existsKey word k w.dir = w'.store.existsKey word k w'.dir
  all : (w.store.all word w.dir).map (·.get? k) = (w'.store.all word w'.dir).map (·.get? k)

/-- Every call is on a key of `K`, with a value that encodes. -/
def Allowed (K : Set String) (ops : List Op) : Prop := ∀ o ∈ ops, o.key ∈ K ∧ o.Encodes

/-- Along every run of calls on the keys of `K`: a call changes nothing that is reported
    of another key, and a key never written, or deleted since, is not there. -/
structure Isolated (K : Set String) : Prop where
  apart : ∀ ops, Allowed K ops → ∀ o : Op, o.key ∈ K → o.Encodes → ∀ k ∈ K, k ≠ o.key →
    SameReport word (after word ops) (o.run word (after word ops)) k
  absent : ∀ ops, Allowed K ops → ∀ k ∈ K, present k ops = false → ∀ default,
    (after word ops).store.read word k default (after word ops).dir = .ok default ∧
      (after word ops).store.existsKey word k (after word ops).dir = false

/-! ## Names -/

/-- No key's old name is another's new one. -/
def Apart (K : Set String) : Prop :=
  ∀ k ∈ K, ∀ l ∈ K, PixelStore.oldFilename word k ≠ PixelStore.makeFilename word l

theorem length_suffix (key : String) : (PixelStore.suffix key).toList.length = 8 := by
  rw [PixelStore.suffix, String.toList_ofList, List.length_take, Md5.length_hexdigest]
  rfl

theorem oldFilename_ne_own (k : String) : PixelStore.oldFilename word k ≠ PixelStore.makeFilename word k := by
  intro e
  have hl := congrArg (fun s => s.toList.length) e
  simp only [PixelStore.oldFilename, PixelStore.makeFilename, String.toList_append, List.length_append, length_suffix] at hl
  omega

theorem makeFilename_injOn {K : Set String} (hinj : Set.InjOn PixelStore.suffix K) :
    Set.InjOn (PixelStore.makeFilename word) K := by
  intro k hk l hl e
  have e' := congrArg String.toList e
  simp only [PixelStore.makeFilename, String.toList_append] at e'
  have hs := List.append_inj_right' (List.append_cancel_right e') (by rw [length_suffix, length_suffix])
  exact hinj hk hl (String.toList_inj.mp hs)

/-! ## The dictionary the directory holds -/

/-- The directory holds `d`: the index has its keys under their new names, the files of
    those names decode to its values, and there is no other file. -/
structure Stored (K : Set String) (w : Handle) (d : Dict String Json) : Prop where
  index : ∀ k, w.store.index.get? k = (d.get? k).map fun _ => PixelStore.makeFilename word k
  inside : ∀ k, d.has k = true → k ∈ K
  value : ∀ k v, d.get? k = some v → w.dir.load (PixelStore.makeFilename word k) = .ok v
  others : ∀ name, (∀ k, d.has k = true → name ≠ PixelStore.makeFilename word k) → w.dir.has name = false

variable {word : Char → Bool} {K : Set String} {w : Handle} {d : Dict String Json}

theorem Directory.has_of_load {dir : Directory} {name : String} {v : Json} (h : dir.load name = .ok v) : dir.has name = true := by
  unfold Directory.load at h
  unfold Directory.has
  split at h <;> simp_all

theorem Directory.has_false_iff {dir : Directory} {name : String} : dir.has name = false ↔ dir.files name = .missing := by
  unfold Directory.has
  split <;> simp_all

@[simp] theorem Directory.has_remove (dir : Directory) (name n : String) :
    (dir.remove name).has n = (decide (n ≠ name) && dir.has n) := by
  by_cases h : n = name
  · subst h; simp [Directory.has, Directory.remove]
  · simp [Directory.has, Directory.remove, h]

namespace Stored

theorem index_none (h : Stored word K w d) {k : String} (hk : d.get? k = none) : w.store.index.get? k = none := by
  rw [h.index, hk]; rfl

theorem index_some (h : Stored word K w d) {k : String} {v : Json} (hk : d.get? k = some v) :
    w.store.index.get? k = some (PixelStore.makeFilename word k) := by
  rw [h.index, hk]; rfl

/-- No file has an old name. -/
theorem old_missing (h : Stored word K w d) (hK : Apart word K) {k : String} (hk : k ∈ K) :
    w.dir.has (PixelStore.oldFilename word k) = false :=
  h.others _ fun l hl => hK k hk l (h.inside l hl)

theorem read (h : Stored word K w d) (hK : Apart word K) {k : String} (hk : k ∈ K) (default : Json) :
    w.store.read word k default w.dir = .ok (d.getD k default) := by
  unfold PixelStore.read Dict.getD
  cases hv : d.get? k with
  | some v =>
    have hload := h.value k v hv
    rw [h.index_some hv, Option.filter_some_pos (Directory.has_of_load hload), Option.getD_some]
    exact hload
  | none => simp [h.index_none hv, h.old_missing hK hk]

theorem existsKey (h : Stored word K w d) (hK : Apart word K) {k : String} (hk : k ∈ K) :
    w.store.existsKey word k w.dir = d.has k := by
  unfold PixelStore.existsKey Dict.has
  cases hv : d.get? k with
  | some v => simp [h.index_some hv, Directory.has_of_load (h.value k v hv)]
  | none => simp [h.index_none hv, h.old_missing hK hk]

theorem readKeys (h : Stored word K w d) (hK : Apart word K) {ks : List String} (hks : ∀ k ∈ ks, k ∈ K) (e : Dict String Json) :
    w.store.readKeys word w.dir ks e = .ok (ks.foldl (fun e k => e.set k (d.getD k .null)) e) := by
  induction ks generalizing e with
  | nil => rfl
  | cons k ks ih =>
    rw [PixelStore.readKeys, h.read hK (hks k (List.mem_cons_self ..))]
    exact ih (fun l hl => hks l (List.mem_cons_of_mem k hl)) _

/-- `all` reports of every key what the dictionary has. -/
theorem all (h : Stored word K w d) (hK : Apart word K) (k : String) :
    (w.store.all word w.dir).map (·.get? k) = .ok (d.get? k) := by
  have hmem : ∀ l, l ∈ w.store.keys ↔ d.has l = true := by
    intro l
    rw [PixelStore.keys, mem_sorted, Dict.mem_keys, Dict.has, Dict.has, h.index, Option.isSome_map]
  rw [PixelStore.all, h.readKeys hK fun l hl => h.inside l ((hmem l).mp hl)]
  apply congrArg Except.ok
  beta_reduce
  rw [Dict.get?_foldl_assign w.store.keys fun k => d.getD k .null]
  simp only [hmem, Dict.get?_empty]
  cases hv : d.get? k with
  | some v => simp [Dict.has, Dict.getD, hv]
  | none => simp [Dict.has, hv]

/-- A change of one key: of its entry in the index and of the file of its new name. -/
theorem change (h : Stored word K w d) (hinj : Set.InjOn (PixelStore.makeFilename word) K) {key : String} (hkey : key ∈ K) {w' : Handle}
    {d' : Dict String Json} {new : Option Json} (hd : ∀ k, d'.get? k = if k = key then new else d.get? k)
    (hindex : ∀ k, w'.store.index.get? k =
      if k = key then new.map fun _ => PixelStore.makeFilename word key else w.store.index.get? k)
    (hload : ∀ v, new = some v → w'.dir.load (PixelStore.makeFilename word key) = .ok v)
    (hnone : new = none → w'.dir.has (PixelStore.makeFilename word key) = false)
    (hfiles : ∀ name, name ≠ PixelStore.makeFilename word key → w'.dir.files name = w.dir.files name) : Stored word K w' d' := by
  refine ⟨?_, ?_, ?_, ?_⟩
  · intro k
    rw [hindex, hd, h.index]
    split
    · rename_i e; rw [e]
    · rfl
  · intro k hk
    rw [Dict.has, hd] at hk
    split at hk
    · rename_i e; rw [e]; exact hkey
    · exact h.inside k hk
  · intro k u hk
    rw [hd] at hk
    split at hk
    · rename_i e; rw [e]; exact hload u hk
    · rename_i hne
      have hK : k ∈ K := h.inside k (Dict.has_iff.mpr ⟨u, hk⟩)
      have hmk : PixelStore.makeFilename word k ≠ PixelStore.makeFilename word key := fun e =>
        hne (hinj hK hkey e)
      rw [Directory.load, hfiles _ hmk]
      exact h.value k u hk
  · intro name hname
    by_cases hmk : name = PixelStore.makeFilename word key
    · rw [hmk]
      refine hnone (Option.eq_none_iff_forall_not_mem.mpr fun v hv => ?_)
      exact hname key (by rw [Dict.has, hd, if_pos rfl, hv]; rfl) hmk
    · rw [Directory.has, hfiles name hmk]
      apply h.others name
      intro k hk e
      by_cases hkk : k = key
      · exact hmk (hkk ▸ e)
      · exact hname k (by rw [Dict.has, hd, if_neg hkk]; exact hk) e

/-- What a write leaves: the key under its new name, and the file of that name. -/
theorem run_write (h : Stored word K w d) {key : String} {v : NormalJson} {img : Raster} (he : Codec.encode v.1 = some img) :
    (∀ k, ((Op.write key v).run word w).store.index.get? k =
        if k = key then some (PixelStore.makeFilename word key) else w.store.index.get? k) ∧
      ((Op.write key v).run word w).dir.files = update w.dir.files (PixelStore.makeFilename word key) (.image img) := by
  simp only [Op.run, PixelStore.write, he]
  cases hh : w.store.index.has key with
  | true =>
    obtain ⟨name, hname⟩ := Dict.has_iff.mp hh
    have hmk : name = PixelStore.makeFilename word key := by
      have hi := h.index key
      rw [hname] at hi
      obtain ⟨_, -, e⟩ := Option.map_eq_some_iff.mp hi.symm
      exact e.symm
    simp only [if_true, Dict.getD, hname, Option.getD_some, hmk, and_true]
    intro k
    split
    · rename_i e; rw [e, hname, hmk]
    · rfl
  | false =>
    simp only [Bool.false_eq_true, if_false, Dict.getD, Dict.get?_set_self, Option.getD_some, and_true]
    exact fun k => Dict.get?_set _ _ _ _

theorem write (h : Stored word K w d) (hinj : Set.InjOn (PixelStore.makeFilename word) K) {key : String} (hkey : key ∈ K) {v : NormalJson}
    (he : (Op.write key v).Encodes) : Stored word K ((Op.write key v).run word w) (d.set key v) := by
  obtain ⟨img, he⟩ := Option.isSome_iff_exists.mp he
  obtain ⟨hindex, hfiles⟩ := h.run_write he
  refine h.change hinj hkey (fun k => Dict.get?_set d key k v.1) hindex (fun u hu => ?_) (fun hu => nomatch hu) fun name hne => ?_
  · cases hu
    rw [Directory.load, hfiles, Function.update_self]
    simp only [Codec.decode_encode v.2 he, Except.mapError]
  · rw [hfiles, Function.update_of_ne hne]

/-- What a delete leaves: neither the key nor the file of its new name; there was none of its old name. -/
theorem run_delete (h : Stored word K w d) (hinj : Set.InjOn (PixelStore.makeFilename word) K) (hK : Apart word K) {key : String}
    (hkey : key ∈ K) :
    (∀ k, ((Op.delete key).run word w).store.index.get? k = if k = key then none else w.store.index.get? k) ∧
      ((Op.delete key).run word w).dir.files = update w.dir.files (PixelStore.makeFilename word key) .missing := by
  have hold := h.old_missing hK hkey
  cases hv : d.get? key with
  | none =>
    have hrun : (Op.delete key).run word w = w := by
      simp only [Op.run, PixelStore.delete, h.index_none hv, hold]
      rfl
    have hmiss : w.dir.has (PixelStore.makeFilename word key) = false := by
      apply h.others _
      intro k hk e
      have hkk := hinj hkey (h.inside k hk) e
      rw [← hkk, Dict.has, hv] at hk
      cases hk
    rw [hrun, ← Directory.has_false_iff.mp hmiss, Function.update_eq_self]
    refine ⟨?_, rfl⟩
    intro k
    split
    · rename_i e; rw [e, h.index_none hv]
    · rfl
  | some v =>
    have hold' : (w.dir.remove (PixelStore.makeFilename word key)).has (PixelStore.oldFilename word key) = false := by simp [hold]
    simp only [Op.run, PixelStore.delete, h.index_some hv]
    rw [if_neg (by simpa [Directory.has] using hold')]
    exact ⟨fun k => Dict.get?_erase _ _ _, rfl⟩

theorem delete (h : Stored word K w d) (hinj : Set.InjOn (PixelStore.makeFilename word) K) (hK : Apart word K) {key : String} (hkey : key ∈ K) :
    Stored word K ((Op.delete key).run word w) (d.erase key) := by
  obtain ⟨hindex, hfiles⟩ := h.run_delete hinj hK hkey
  refine h.change hinj hkey (fun k => Dict.get?_erase d key k) hindex (fun u hu => nomatch hu) (fun _ => ?_) fun name hne => ?_
  · rw [Directory.has_false_iff, hfiles, Function.update_self]
  · rw [hfiles, Function.update_of_ne hne]

/-- One call on the store and on the dictionary it holds. -/
theorem run (h : Stored word K w d) (hinj : Set.InjOn (PixelStore.makeFilename word) K) (hK : Apart word K) {o : Op} (ho : o.key ∈ K)
    (he : o.Encodes) : Stored word K (o.run word w) (o.onDict d) := by
  cases o with
  | write key value => exact h.write hinj ho he
  | delete key => exact h.delete hinj hK ho
  | read key default => exact h
  | existsKey key => exact h

end Stored

theorem stored_empty (word : Char → Bool) (K : Set String) : Stored word K ⟨.create {}, {}⟩ .empty :=
  ⟨fun _ => rfl, fun _ hk => (nomatch hk), fun _ _ hk => (nomatch hk), fun _ _ => rfl⟩

theorem stored_after (hinj : Set.InjOn (PixelStore.makeFilename word) K) (hK : Apart word K) {ops : List Op} (h : Allowed K ops) :
    Stored word K (after word ops) (ops.foldl Op.onDict .empty) := by
  unfold after
  generalize hw : (⟨.create {}, {}⟩ : Handle) = w
  have hs : Stored word K w .empty := hw ▸ stored_empty word K
  clear hw
  generalize (Dict.empty : Dict String Json) = d at hs ⊢
  induction ops generalizing w d with
  | nil => exact hs
  | cons o ops ih =>
    obtain ⟨ho, hops⟩ := List.forall_mem_cons.mp h
    exact ih hops _ _ (hs.run hinj hK ho.1 ho.2)

/-! ## Isolation -/

theorem has_onDict (d : Dict String Json) (k : String) (o : Op) : (o.onDict d).has k = o.presence k (d.has k) := by
  cases o with
  | write key value =>
    rw [Op.onDict, Op.presence, Dict.has, Dict.get?_set]
    by_cases h : k = key
    · simp [h]
    · simp [h, Ne.symm h, Dict.has]
  | delete key =>
    rw [Op.onDict, Op.presence, Dict.has, Dict.get?_erase]
    by_cases h : k = key
    · simp [h]
    · simp [h, Ne.symm h, Dict.has]
  | read key default => rfl
  | existsKey key => rfl

theorem has_after (ops : List Op) (d : Dict String Json) (k : String) :
    (ops.foldl Op.onDict d).has k = ops.foldl (Op.presence k) (d.has k) := by
  induction ops generalizing d with
  | nil => rfl
  | cons o ops ih => rw [List.foldl_cons, ih, has_onDict, List.foldl_cons]

theorem get?_onDict_of_ne (d : Dict String Json) {k : String} {o : Op} (h : k ≠ o.key) : (o.onDict d).get? k = d.get? k := by
  cases o with
  | write key value => exact Dict.get?_set_of_ne d h _
  | delete key => exact Dict.get?_erase_of_ne d h
  | read key default => rfl
  | existsKey key => rfl

theorem isolated_of_apart (hinj : Set.InjOn PixelStore.suffix K) (hK : Apart word K) : Isolated word K where
  apart ops hops o ho he k hk hne := by
    have hinj' := makeFilename_injOn word hinj
    have h := stored_after hinj' hK hops
    have h' := h.run hinj' hK ho he
    have hget := get?_onDict_of_ne (ops.foldl Op.onDict .empty) hne
    refine ⟨?_, ?_, ?_⟩
    · intro default
      rw [h.read hK hk, h'.read hK hk, Dict.getD, Dict.getD, hget]
    · rw [h.existsKey hK hk, h'.existsKey hK hk, Dict.has, Dict.has, hget]
    · rw [h.all hK, h'.all hK, hget]
  absent ops hops k hk hp default := by
    have h := stored_after (makeFilename_injOn word hinj) hK hops
    have hhas : (ops.foldl Op.onDict .empty).has k = false := by rw [has_after]; exact hp
    exact ⟨by rw [h.read hK hk, Dict.getD, Dict.not_has_iff.mp hhas]; rfl, by rw [h.existsKey hK hk, hhas]⟩

/-- `json.dumps(None)` fits any header. -/
theorem encodes_null (key : String) : (Op.write key ⟨.null, trivial⟩).Encodes := by
  show (Codec.encode .null).isSome
  rw [Codec.encode_isSome_iff]
  decide +kernel

theorem apart_of_isolated (h : Isolated word K) : Apart word K := by
  intro k hk l hl e
  have hne : l ≠ k := fun e' => oldFilename_ne_own word k (e' ▸ e)
  have hops : Allowed K [.write l ⟨.null, trivial⟩] := by simpa [Allowed, Op.key, hl] using encodes_null l
  have habs := (h.absent _ hops k hk (by simp [present, Op.presence, hne]) .null).2
  obtain ⟨img, himg⟩ := Option.isSome_iff_exists.mp (encodes_null l)
  obtain ⟨hindex, hfiles⟩ := (stored_empty word K).run_write himg
  have hnone : (after word [.write l ⟨.null, trivial⟩]).store.index.get? k = none := by
    apply (hindex k).trans
    rw [if_neg (Ne.symm hne)]
    rfl
  have hhas : (after word [.write l ⟨.null, trivial⟩]).dir.has (PixelStore.oldFilename word k) = true := by
    apply (congrArg (fun f => (Directory.mk .missing f).has (PixelStore.oldFilename word k)) hfiles).trans
    simp [Directory.has, e]
  rw [PixelStore.existsKey, hnone, hhas] at habs
  cases habs

/-- Keys are isolated exactly when no old name is a new one. -/
theorem isolated_iff (word : Char → Bool) (K : Set String) (hinj : Set.InjOn PixelStore.suffix K) :
    Isolated word K ↔ ∀ k ∈ K, ∀ l ∈ K, PixelStore.oldFilename word k ≠ PixelStore.makeFilename word l :=
  ⟨apart_of_isolated, isolated_of_apart hinj⟩

/-- `\w` on ASCII. -/
def asciiWord (c : Char) : Bool := c.isAlphanum || c == '_'

/-- Two keys of one slug. -/
theorem isolated_one_slug : Isolated asciiWord {k | k = "a b" ∨ k = "a_b"} := by
  have hinj : Set.InjOn PixelStore.suffix {k | k = "a b" ∨ k = "a_b"} := by
    rintro k (rfl | rfl) l (rfl | rfl) e
    · rfl
    · exact absurd e (by decide +kernel)
    · exact absurd e (by decide +kernel)
    · rfl
  apply (isolated_iff asciiWord _ hinj).mpr
  rintro k (rfl | rfl) l (rfl | rfl) <;> decide +kernel

/-- The key `a` is written; the key `a_0cc175b9`, whose old name is the new name of `a`,
    exists then though it never was written, and deleting it deletes `a`. -/
theorem deleted_by_other_key :
    PixelStore.suffix "a" ≠ PixelStore.suffix "a_0cc175b9" ∧
      let w := after asciiWord [.write "a" ⟨.bool true, trivial⟩]
      let w' := (Op.delete "a_0cc175b9").run asciiWord w
      w.store.existsKey asciiWord "a_0cc175b9" w.dir = true ∧
        w.store.existsKey asciiWord "a" w.dir = true ∧ w'.store.existsKey asciiWord "a" w'.dir = false ∧
        (w.store.read asciiWord "a" .null w.dir).toOption = some (.bool true) ∧
        (w'.store.read asciiWord "a" .null w'.dir).toOption = some .null := by
  decide +kernel

end PyxelVM.Memory
