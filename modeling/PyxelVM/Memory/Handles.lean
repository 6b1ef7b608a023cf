/-
  PyxelVM.Memory.Handles — several `PixelStore` objects on one directory
  (`zdx_pixel_memory/store.py`).

  Each object has the index it loaded when it was opened, and a call that changes its
  index writes the whole of it to `keys.json`. So an object that has not seen what
  another wrote undoes it (`lost_update`); `SpatialPixelStore` reads its directory again
  before it writes.

  `Sharing.step` is one call through one of the objects, `Step.onDict` what the call is to
  leave, and `Coherent` that a store opened now shows that. From a directory that is in
  step with the calls a call leaves it in step exactly if it `Meets` a condition on its
  own index and the one on disk (`step_exact`).

  - `no_lost_update_iff`: along every run, so, the directory is in step after every call
    exactly if every call meets the condition.
-/

import PyxelVM.Lib.Trace
import PyxelVM.Memory.PixelStore

namespace PyxelVM.Memory

open Function (update)
open PyxelVM.Lib

/-! ## Objects and calls -/

/-- The directory, and the objects open on it. -/
structure Sharing (ι : Type) where
  dir : Directory
  stores : ι → PixelStore

/-- An object is opened, again if it was before, or a whole call is made through it. -/
inductive Step (ι : Type) where
  | opened (i : ι)
  | call (i : ι) (op : Op)

variable {ι : Type} (word : Char → Bool)

/-- The objects when the directory is still empty. -/
def Sharing.start (ι : Type) (storeDir : String) : Sharing ι := ⟨{}, fun _ => .create {} storeDir⟩

def Sharing.step [DecidableEq ι] (w : Sharing ι) : Step ι → Sharing ι
  | .opened i => { w with stores := update w.stores i (.create w.dir (w.stores i).storeDir) }
  | .call i op =>
    let h := op.run word ⟨w.stores i, w.dir⟩
    ⟨h.dir, update w.stores i h.store⟩

/-- The values last written, of the keys not deleted since; a write that raises is not completed. -/
def Step.onDict (d : Dict String Json) : Step ι → Dict String Json
  | .opened _ => d
  | .call _ (.write key value) => if (Codec.encode value.1).isSome then d.set key value else d
  | .call _ op => op.onDict d

/-- The calls as they are made, and what they are to leave. -/
def advance [DecidableEq ι] (s : Sharing ι × Dict String Json) (e : Step ι) : Sharing ι × Dict String Json :=
  (s.1.step word e, e.onDict s.2)

def afterCalls [DecidableEq ι] (storeDir : String) (events : List (Step ι)) : Sharing ι × Dict String Json :=
  events.foldl (advance word) (.start ι storeDir, .empty)

/-- The call is on a key of `K`. -/
def Step.On (K : Set String) : Step ι → Prop
  | .opened _ => True
  | .call _ op => op.key ∈ K

/-- No two keys have a file name in common: a new one with a new one, or an old one with a new one. -/
structure Distinct (K : Set String) : Prop where
  new : Set.InjOn (PixelStore.makeFilename word) K
  old : Apart word K

/-- A store opened now reads what was written last, and lists exactly the keys that are present. -/
structure Coherent (K : Set String) (dir : Directory) (d : Dict String Json) : Prop where
  read : ∀ k ∈ K, ∀ default, (PixelStore.create dir).read word k default dir = .ok (d.getD k default)
  keys : ∀ k, k ∈ (PixelStore.create dir).keys ↔ d.has k = true

/-- Where a call through an object with this index meets the index on disk: a call that saves the
    index has every other key in it that is saved, and no more; a write that does not save it has
    its key saved, and a delete that does not has not. -/
def Op.Meets (index saved : Dict String String) : Op → Prop
  | .write key value =>
    if index.has key then (Codec.encode value.1).isSome → saved.has key = true
    else (∀ k, k ≠ key → index.has k = saved.has k) ∧ ((Codec.encode value.1).isSome ∨ saved.has key = true)
  | .delete key => if index.has key then ∀ k, k ≠ key → index.has k = saved.has k else saved.has key = false
  | .read _ _ | .existsKey _ => True

def Step.Meets (w : Sharing ι) : Step ι → Prop
  | .opened _ => True
  | .call i op => op.Meets (w.stores i).index (PixelStore.loadIndex w.dir)

/-! ## What a call does to the directory -/

/-- The names in an index are those the store makes. -/
def Named (index : Dict String String) : Prop := ∀ k name, index.get? k = some name → name = PixelStore.makeFilename word k

variable {word : Char → Bool} {K : Set String} {w : Sharing ι} {d : Dict String Json}

theorem Named.get? {index : Dict String String} (h : Named word index) (k : String) :
    index.get? k = if index.has k then some (PixelStore.makeFilename word k) else none := by
  unfold Dict.has
  cases hk : index.get? k with
  | none => rfl
  | some name => rw [h k name hk]; rfl

/-- Indices with the same keys. -/
theorem Named.agree {index saved : Dict String String} (h : Named word index) (h' : Named word saved) {k : String}
    (hk : index.has k = saved.has k) : index.get? k = saved.get? k := by rw [h.get?, h'.get?, hk]

theorem Named.set {index : Dict String String} (h : Named word index) (key : String) :
    Named word (index.set key (PixelStore.makeFilename word key)) := by
  intro k name hk
  rw [Dict.get?_set] at hk
  split at hk
  · rename_i e
    rw [e, Option.some.inj hk]
  · exact h k name hk

theorem Named.erase {index : Dict String String} (h : Named word index) (key : String) : Named word (index.erase key) := by
  intro k name hk
  rw [Dict.get?_erase] at hk
  split at hk
  · cases hk
  · exact h k name hk

/-- A write through an object that has the key leaves both indices. -/
theorem write_known {s : PixelStore} {dir : Directory} {key : String} (value : NormalJson) (hs : Named word s.index)
    (hkey : s.index.has key = true) :
    (Op.write key value).run word ⟨s, dir⟩ =
      ⟨s, { dir with files := match Codec.encode value.1 with
        | none => dir.files
        | some img => update dir.files (PixelStore.makeFilename word key) (.image img) }⟩ := by
  have hget : s.index.getD key "" = PixelStore.makeFilename word key := by
    rw [Dict.getD, hs.get?, if_pos hkey, Option.getD_some]
  simp only [Op.run, PixelStore.write, hkey, if_true, hget]
  cases Codec.encode value.1 <;> rfl

/-- A write of a key that is new to the object saves its index with it. -/
theorem write_new {s : PixelStore} {dir : Directory} {key : String} (value : NormalJson) (hkey : s.index.has key = false) :
    let index := s.index.set key (PixelStore.makeFilename word key)
    (Op.write key value).run word ⟨s, dir⟩ =
      ⟨{ s with index }, ⟨.saved index, match Codec.encode value.1 with
        | none => dir.files
        | some img => update dir.files (PixelStore.makeFilename word key) (.image img)⟩⟩ := by
  simp only [Op.run, PixelStore.write, hkey, Bool.false_eq_true, if_false, Dict.getD, Dict.get?_set_self, Option.getD_some]
  cases Codec.encode value.1 <;> rfl

/-- A delete of a key the object has saves its index without it. -/
theorem delete_known {s : PixelStore} {dir : Directory} {key : String} (hs : Named word s.index) (hkey : s.index.has key = true)
    (hold : dir.has (PixelStore.oldFilename word key) = false) :
    (Op.delete key).run word ⟨s, dir⟩ =
      ⟨{ s with index := s.index.erase key },
        ⟨.saved (s.index.erase key), update dir.files (PixelStore.makeFilename word key) .missing⟩⟩ := by
  have hget : s.index.get? key = some (PixelStore.makeFilename word key) := by rw [hs.get?, if_pos hkey]
  have hold' : (dir.remove (PixelStore.makeFilename word key)).has (PixelStore.oldFilename word key) = false := by simp [hold]
  simp only [Op.run, PixelStore.delete, hget]
  rw [if_neg (by simpa [Directory.has] using hold')]
  rfl

/-- A delete of a key the object does not have leaves all as it is. -/
theorem delete_unknown {s : PixelStore} {dir : Directory} {key : String} (hkey : s.index.has key = false)
    (hold : dir.has (PixelStore.oldFilename word key) = false) : (Op.delete key).run word ⟨s, dir⟩ = ⟨s, dir⟩ := by
  simp only [Op.run, PixelStore.delete, Dict.not_has_iff.mp hkey, hold, Bool.false_eq_true, if_false]

/-! ## One call -/

/-- A directory that is in step with the calls, as a store opened now finds it. -/
def InStep (word : Char → Bool) (K : Set String) (dir : Directory) (d : Dict String Json) : Prop :=
  Stored word K ⟨.create dir, dir⟩ d

theorem mem_keys_create {dir : Directory} {k : String} :
    k ∈ (PixelStore.create dir).keys ↔ (PixelStore.loadIndex dir).has k = true := by
  rw [PixelStore.keys, mem_sorted, Dict.mem_keys]
  rfl

/-- What a directory holds depends on its files and on what the index answers. -/
theorem Stored.congr {u u' : Handle} {d' : Dict String Json} (h : Stored word K u d)
    (hindex : ∀ k, u'.store.index.get? k = u.store.index.get? k) (hfiles : u'.dir.files = u.dir.files)
    (hd : ∀ k, d'.get? k = d.get? k) : Stored word K u' d' := by
  have hhas (k : String) : d'.has k = d.has k := by rw [Dict.has, hd, Dict.has]
  refine ⟨fun k => ?_, fun k hk => h.inside k (hhas k ▸ hk), fun k v hk => ?_, fun name hname => ?_⟩
  · rw [hindex, hd]
    exact h.index k
  · rw [Directory.load, hfiles]
    exact h.value k v (hd k ▸ hk)
  · rw [Directory.has, hfiles]
    exact h.others name fun k hk => hname k (hhas k ▸ hk)

namespace InStep

variable {dir : Directory} (h : InStep word K dir d)

include h

theorem named : Named word (PixelStore.loadIndex dir) := by
  intro k name hk
  have hi := h.index k
  rw [show (PixelStore.create dir).index.get? k = some name from hk] at hi
  obtain ⟨-, -, e⟩ := Option.map_eq_some_iff.mp hi.symm
  exact e.symm

theorem has_saved (k : String) : (PixelStore.loadIndex dir).has k = d.has k := by
  rw [Dict.has, Dict.has, show (PixelStore.loadIndex dir).get? k = _ from h.index k, Option.isSome_map]

theorem coherent (hK : Distinct word K) : Coherent word K dir d :=
  ⟨fun _ hk default => h.read hK.old hk default, fun k => by rw [mem_keys_create, h.has_saved]⟩

theorem write_exact (hK : Distinct word K) {s : PixelStore} (hs : Named word s.index) {key : String} (hkey : key ∈ K)
    (value : NormalJson) (i : ι) :
    let after := (Op.write key value).run word ⟨s, dir⟩
    let d' := (Step.call i (.write key value)).onDict d
    ((Coherent word K after.dir d' → (Op.write key value).Meets s.index (PixelStore.loadIndex dir)) ∧
      ((Op.write key value).Meets s.index (PixelStore.loadIndex dir) → InStep word K after.dir d')) ∧
      Named word after.store.index := by
  have hfresh := h.named
  simp only [Step.onDict, Op.Meets]
  cases hX : s.index.has key with
  | true =>
    rw [write_known value hs hX]
    simp only [if_true]
    refine ⟨⟨fun hc henc => ?_, fun hmeets => ?_⟩, hs⟩
    · have hlist := (hc.keys key).mpr (by rw [if_pos henc, Dict.has_set_self])
      exact mem_keys_create.mp hlist
    · cases he : Codec.encode value.1 with
      | none => exact h
      | some img =>
        have henc : (Op.write key value).Encodes := by rw [Op.Encodes, he]; rfl
        have hsaved := hmeets henc
        have hw := Stored.write h hK.new hkey henc
        rw [write_known value hfresh hsaved, he] at hw
        exact hw
  | false =>
    rw [write_new value hX]
    simp only [Bool.false_eq_true, if_false]
    refine ⟨⟨fun hc => ⟨fun k hne => ?_, ?_⟩, fun hmeets => ?_⟩, hs.set key⟩
    · have hlist := mem_keys_create.symm.trans (hc.keys k)
      rw [PixelStore.loadIndex, Dict.has_set_of_ne _ hne] at hlist
      rw [h.has_saved, Bool.eq_iff_iff, hlist]
      split
      · rw [Dict.has_set_of_ne _ hne]
      · rfl
    · by_cases henc : (Codec.encode value.1).isSome = true
      · exact .inl henc
      · have hlist := (hc.keys key).mp (mem_keys_create.mpr (Dict.has_set_self ..))
        rw [if_neg henc, ← h.has_saved] at hlist
        exact .inr hlist
    · obtain ⟨hagree, hor⟩ := hmeets
      have hindex (k : String) : (s.index.set key (PixelStore.makeFilename word key)).get? k =
          if k = key then some (PixelStore.makeFilename word key) else (PixelStore.loadIndex dir).get? k := by
        rw [Dict.get?_set]
        split
        · rfl
        · rename_i hne
          exact hs.agree hfresh (hagree k hne)
      cases he : Codec.encode value.1 with
      | none =>
        have hsaved : (PixelStore.loadIndex dir).has key = true := hor.resolve_left (by simp [he])
        refine Stored.congr h (fun k => ?_) rfl fun _ => rfl
        show (s.index.set key (PixelStore.makeFilename word key)).get? k = _
        rw [hindex]
        split
        · rename_i e
          subst e
          exact ((hfresh.get? k).trans (if_pos hsaved)).symm
        · rfl
      | some img =>
        have henc : (Op.write key value).Encodes := by rw [Op.Encodes, he]; rfl
        obtain ⟨hi, hf⟩ := Stored.run_write h he
        refine Stored.congr (Stored.write h hK.new hkey henc) (fun k => ?_) hf.symm fun _ => rfl
        rw [hi]
        exact hindex k

theorem delete_exact (hK : Distinct word K) {s : PixelStore} (hs : Named word s.index) {key : String} (hkey : key ∈ K) (i : ι) :
    let after := (Op.delete key).run word ⟨s, dir⟩
    let d' := (Step.call i (.delete key)).onDict d
    ((Coherent word K after.dir d' → (Op.delete key).Meets s.index (PixelStore.loadIndex dir)) ∧
      ((Op.delete key).Meets s.index (PixelStore.loadIndex dir) → InStep word K after.dir d')) ∧
      Named word after.store.index := by
  have hold : dir.has (PixelStore.oldFilename word key) = false := h.old_missing hK.old hkey
  simp only [Step.onDict, Op.onDict, Op.Meets]
  cases hX : s.index.has key with
  | true =>
    rw [delete_known hs hX hold]
    simp only [if_true]
    refine ⟨⟨fun hc k hne => ?_, fun hagree => ?_⟩, hs.erase key⟩
    · have hlist := mem_keys_create.symm.trans (hc.keys k)
      rw [PixelStore.loadIndex, Dict.has_erase_of_ne _ hne, Dict.has_erase_of_ne _ hne, ← h.has_saved] at hlist
      exact Bool.eq_iff_iff.mpr hlist
    · obtain ⟨hi, hf⟩ := Stored.run_delete h hK.new hK.old hkey
      refine Stored.congr (Stored.delete h hK.new hK.old hkey) (fun k => ?_) hf.symm fun _ => rfl
      rw [hi]
      show (s.index.erase key).get? k = _
      rw [Dict.get?_erase]
      split
      · rfl
      · rename_i hne
        exact hs.agree h.named (hagree k hne)
  | false =>
    rw [delete_unknown hX hold]
    simp only [Bool.false_eq_true, if_false]
    refine ⟨⟨fun hc => ?_, fun hsaved => ?_⟩, hs⟩
    · have hlist := mem_keys_create.symm.trans (hc.keys key)
      rw [Dict.has_erase_self] at hlist
      exact Bool.eq_false_iff.mpr fun e => Bool.false_ne_true (hlist.mp e)
    · refine Stored.congr h (fun _ => rfl) rfl fun k => ?_
      rw [Dict.get?_erase]
      split
      · rename_i e
        rw [e, Dict.not_has_iff.mp ((h.has_saved key).symm.trans hsaved)]
      · rfl

end InStep

/-! ## Every run -/

/-- The directory is in step with the calls, and every object's index has the names the store makes. -/
structure Kept (word : Char → Bool) (K : Set String) (s : Sharing ι × Dict String Json) : Prop where
  dir : InStep word K s.1.dir s.2
  named : ∀ i, Named word (s.1.stores i).index

/-- One call or opening: afterwards the directory is in step exactly if the call met its condition. -/
theorem step_exact [DecidableEq ι] (hK : Distinct word K) {s : Sharing ι × Dict String Json} (h : Kept word K s) {e : Step ι}
    (he : e.On K) :
    (Coherent word K (advance word s e).1.dir (advance word s e).2 → e.Meets s.1) ∧
      (e.Meets s.1 → Kept word K (advance word s e)) := by
  cases e with
  | opened i =>
    refine ⟨fun _ => trivial, fun _ => ⟨h.dir, fun j => ?_⟩⟩
    by_cases hj : j = i
    · subst hj
      simp only [advance, Sharing.step, Function.update_self]
      exact h.dir.named
    · simp only [advance, Sharing.step, Function.update_of_ne hj]
      exact h.named j
  | call i op =>
    have hcall : ((Coherent word K (op.run word ⟨s.1.stores i, s.1.dir⟩).dir ((Step.call i op).onDict s.2) → (Step.call i op).Meets s.1) ∧
        ((Step.call i op).Meets s.1 → InStep word K (op.run word ⟨s.1.stores i, s.1.dir⟩).dir ((Step.call i op).onDict s.2))) ∧
        Named word (op.run word ⟨s.1.stores i, s.1.dir⟩).store.index := by
      cases op with
      | write key value => exact h.dir.write_exact hK (h.named i) he value i
      | delete key => exact h.dir.delete_exact hK (h.named i) he i
      | read key default => exact ⟨⟨fun _ => trivial, fun _ => h.dir⟩, h.named i⟩
      | existsKey key => exact ⟨⟨fun _ => trivial, fun _ => h.dir⟩, h.named i⟩
    obtain ⟨⟨hmeets, hdir⟩, hnamed⟩ := hcall
    refine ⟨hmeets, fun hm => ⟨hdir hm, fun j => ?_⟩⟩
    by_cases hj : j = i
    · subst hj
      simp only [advance, Sharing.step, Function.update_self]
      exact hnamed
    · simp only [advance, Sharing.step, Function.update_of_ne hj]
      exact h.named j

theorem kept_start (word : Char → Bool) (K : Set String) (ι : Type) (storeDir : String) :
    Kept word K (Sharing.start ι storeDir, .empty) :=
  ⟨stored_empty word K, fun _ k name hk => by cases hk⟩

/-- However many objects are open on the directory: a store opened after any of the calls reads what
    was written last and lists what is there, exactly if every call meets its condition. -/
theorem no_lost_update_iff [DecidableEq ι] (word : Char → Bool) (K : Set String) (hK : Distinct word K) (storeDir : String)
    (events : List (Step ι)) (hon : ∀ e ∈ events, e.On K) :
    (∀ past, past <+: events → Coherent word K (afterCalls word storeDir past).1.dir (afterCalls word storeDir past).2) ↔
      ∀ past e, past ++ [e] <+: events → e.Meets (afterCalls word storeDir past).1 :=
  Trace.prefixes_iff (f := advance word) (P := Kept word K)
    (Q := fun s => Coherent word K s.1.dir s.2) (C := fun s e => e.Meets s.1) (fun _ h => h.dir.coherent hK) (fun _ _ h he => step_exact hK h he)
    (kept_start word K ι storeDir) hon

/-- Two objects on the empty directory write a key each. -/
def twoWrites : List (Step Bool) :=
  [.call false (.write "a" ⟨.bool true, trivial⟩), .call true (.write "b" ⟨.bool true, trivial⟩)]

theorem distinct_a_b : Distinct asciiWord {k | k = "a" ∨ k = "b"} := by
  constructor
  · rintro k (rfl | rfl) l (rfl | rfl) e
    · rfl
    · exact absurd e (by decide +kernel)
    · exact absurd e (by decide +kernel)
    · rfl
  · rintro k (rfl | rfl) l (rfl | rfl) <;> decide +kernel

theorem no_lost_update_two :
    (∀ past, past <+: twoWrites → Coherent asciiWord {k | k = "a" ∨ k = "b"} (afterCalls asciiWord "m/" past).1.dir
        (afterCalls asciiWord "m/" past).2) ↔
      ∀ past e, past ++ [e] <+: twoWrites → e.Meets (afterCalls asciiWord "m/" past).1 :=
  no_lost_update_iff asciiWord {k | k = "a" ∨ k = "b"} distinct_a_b "m/" twoWrites (by simp [twoWrites, Step.On, Op.key])

/-- The second object saves its index without the first one's key. -/
theorem lost_update :
    ¬∀ (word : Char → Bool) (K : Set String), Distinct word K → ∀ (storeDir : String) (events : List (Step Bool)),
      (∀ e ∈ events, e.On K) →
        Coherent word K (afterCalls word storeDir events).1.dir (afterCalls word storeDir events).2 := by
  intro h
  have hc := h asciiWord _ distinct_a_b "m/" twoWrites (by simp [twoWrites, Step.On, Op.key])
  have hkeys := (hc.keys "a").mpr (by decide +kernel)
  exact absurd hkeys (by decide +kernel)

end PyxelVM.Memory
