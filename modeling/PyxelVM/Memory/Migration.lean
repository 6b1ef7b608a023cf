/-
  PyxelVM.Memory.Migration — an agent's memory on a directory of the old scheme
  (`zdx_pixel_memory/store.py`, `agent_memory.py`).

  A file of the old scheme is named by the key's slug alone, so that keys of one slug have
  one such file between them, and no index knows of it. It is read where the index has no
  file for the key, hidden by a write, and removed with the key.

  `Legacy` is what such a directory holds: values under keys, and old ones under slugs.
  `migrates`: along every run of an agent's calls and restarts the memory answers as its
  calls on these two.
-/

import PyxelVM.Memory.Agent
import PyxelVM.Memory.Handles

namespace PyxelVM.Memory

open Function (update)
open PyxelVM.Lib
open PyxelVM.Vm (Raster)

/-! ## What the directory holds -/

/-- The values under the keys of the index, and those of old files, by the names of these. -/
structure Legacy where
  new : Dict String Json
  old : String → Option Json

namespace Legacy

variable (word : Char → Bool)

/-- The value under the key, or else that of its old file. -/
def lookup (s : Legacy) (key : String) : Option Json := (s.new.get? key).or (s.old (PixelStore.oldFilename word key))

/-- What each call of a store is to them; there is no `clear`. -/
def answer : CallStep Legacy Unit StoreCall StoreCall.Returns
  | s, .write key value => (.ok "", { s with new := s.new.set key value })
  | s, .read key default => (.ok ((s.lookup word key).getD default), s)
  | s, .delete key => (.ok (s.lookup word key).isSome, ⟨s.new.erase key, update s.old (PixelStore.oldFilename word key) none⟩)
  | s, .existsKey key => (.ok (s.lookup word key).isSome, s)
  | s, .keys => (.ok (sorted s.new.keys), s)
  | s, .all => (.ok s.new, s)
  | s, .clear => (.error (), s)

end Legacy

/-- The file of the name holds the value, or there is none. -/
def Directory.Holds (dir : Directory) (name : String) : Option Json → Prop
  | some v => dir.load name = .ok v
  | none => dir.has name = false

/-- The store and its directory hold `s`: the index, saved as it is, has the keys under
    their new names. -/
structure Migrating (word : Char → Bool) (K : Set String) (w : Handle) (s : Legacy) : Prop where
  saved : PixelStore.loadIndex w.dir = w.store.index
  index : ∀ k, w.store.index.get? k = (s.new.get? k).map fun _ => PixelStore.makeFilename word k
  inside : ∀ k, s.new.has k = true → k ∈ K
  new : ∀ k v, s.new.get? k = some v → w.dir.load (PixelStore.makeFilename word k) = .ok v
  old : ∀ k ∈ K, w.dir.Holds (PixelStore.oldFilename word k) (s.old (PixelStore.oldFilename word k))
  newNormal : ∀ k v, s.new.get? k = some v → v.Normal
  oldNormal : ∀ k v, s.old k = some v → v.Normal

variable {word : Char → Bool} {K : Set String} {w : Handle} {s : Legacy}

theorem Directory.Holds.has {dir : Directory} {name : String} {v : Option Json} (h : dir.Holds name v) : dir.has name = v.isSome := by
  cases v with
  | some v => exact Directory.has_of_load h
  | none => exact h

/-- It depends on the file alone. -/
theorem Directory.Holds.congr {dir dir' : Directory} {name : String} {v : Option Json} (h : dir.Holds name v)
    (hf : dir'.files name = dir.files name) : dir'.Holds name v := by
  cases v with
  | some v =>
    show dir'.load name = .ok v
    rw [Directory.load, hf]
    exact h
  | none =>
    show dir'.has name = false
    rw [Directory.has, hf]
    exact h

namespace Migrating

theorem named (h : Migrating word K w s) : Named word w.store.index := by
  intro k name hk
  rw [h.index] at hk
  obtain ⟨-, -, e⟩ := Option.map_eq_some_iff.mp hk
  exact e.symm

theorem index_none (h : Migrating word K w s) {k : String} (hk : s.new.get? k = none) : w.store.index.get? k = none := by
  rw [h.index, hk]; rfl

theorem index_some (h : Migrating word K w s) {k : String} {v : Json} (hk : s.new.get? k = some v) :
    w.store.index.get? k = some (PixelStore.makeFilename word k) := by
  rw [h.index, hk]; rfl

theorem read (h : Migrating word K w s) {k : String} (hk : k ∈ K) (default : Json) :
    w.store.read word k default w.dir = .ok ((s.lookup word k).getD default) := by
  unfold PixelStore.read Legacy.lookup
  have hold := h.old k hk
  cases hv : s.new.get? k with
  | some v =>
    have hload := h.new k v hv
    rw [h.index_some hv, Option.filter_some_pos (Directory.has_of_load hload)]
    exact hload
  | none =>
    rw [h.index_none hv, Option.filter_none, Option.none_or]
    dsimp only
    rw [hold.has]
    cases ho : s.old (PixelStore.oldFilename word k) with
    | some v =>
      rw [ho] at hold
      exact hold
    | none => rfl

theorem existsKey (h : Migrating word K w s) {k : String} (hk : k ∈ K) :
    w.store.existsKey word k w.dir = (s.lookup word k).isSome := by
  unfold PixelStore.existsKey Legacy.lookup
  cases hv : s.new.get? k with
  | some v => simp [h.index_some hv, Directory.has_of_load (h.new k v hv)]
  | none => simp [h.index_none hv, (h.old k hk).has]

theorem has_index (h : Migrating word K w s) (k : String) : w.store.index.has k = s.new.has k := by
  rw [Dict.has, Dict.has, h.index, Option.isSome_map]

/-- `all` reads the keys of the index. -/
theorem all (h : Migrating word K w s) : ∃ d, w.store.all word w.dir = .ok d ∧ ∀ k, d.get? k = s.new.get? k := by
  have hmem (k : String) : k ∈ w.store.keys ↔ s.new.has k = true := by rw [PixelStore.keys, mem_sorted, Dict.mem_keys, h.has_index]
  have hrun : ∀ (ks : List String) (e : Dict String Json), (∀ k ∈ ks, s.new.has k = true) →
      w.store.readKeys word w.dir ks e = .ok (ks.foldl (fun e k => e.set k (s.new.getD k .null)) e) := by
    intro ks
    induction ks with
    | nil => exact fun _ _ => rfl
    | cons k ks ih =>
      intro e hks
      obtain ⟨hk, hks⟩ := List.forall_mem_cons.mp hks
      obtain ⟨v, hv⟩ := Dict.has_iff.mp hk
      have hread : w.store.read word k .null w.dir = .ok (s.new.getD k .null) := by
        rw [h.read (h.inside k hk), Legacy.lookup, Dict.getD, hv]
        rfl
      rw [PixelStore.readKeys, hread]
      exact ih _ hks
  refine ⟨_, hrun w.store.keys .empty fun k hk => (hmem k).mp hk, fun k => ?_⟩
  rw [Dict.get?_foldl_assign w.store.keys fun k => s.new.getD k .null]
  simp only [hmem, Dict.get?_empty]
  cases hv : s.new.get? k with
  | some v => simp [Dict.has, Dict.getD, hv]
  | none => simp [Dict.has, hv]

/-- A write: the key is in the index, that is saved, and the file of its new name is the value's. -/
theorem run_write (h : Migrating word K w s) (key : String) (value : NormalJson) {img : Raster} (he : Codec.encode value.1 = some img) :
    let w' := (Op.write key value).run word w
    PixelStore.loadIndex w'.dir = w'.store.index ∧
      (∀ k, w'.store.index.get? k = if k = key then some (PixelStore.makeFilename word key) else w.store.index.get? k) ∧
      w'.dir.files = update w.dir.files (PixelStore.makeFilename word key) (.image img) := by
  obtain ⟨store, dir⟩ := w
  cases hkey : store.index.has key with
  | true =>
    rw [write_known value h.named hkey, he]
    refine ⟨h.saved, fun k => ?_, rfl⟩
    show store.index.get? k = if k = key then _ else store.index.get? k
    by_cases e : k = key
    · rw [if_pos e, e]
      exact (h.named.get? key).trans (if_pos hkey)
    · rw [if_neg e]
  | false =>
    rw [write_new value hkey, he]
    exact ⟨rfl, fun k => Dict.get?_set _ _ _ _, rfl⟩

theorem write (h : Migrating word K w s) (hK : Distinct word K) {key : String} (hkey : key ∈ K) (value : NormalJson)
    (he : (Codec.encode value.1).isSome) :
    Migrating word K ((Op.write key value).run word w) { s with new := s.new.set key value } := by
  obtain ⟨img, he⟩ := Option.isSome_iff_exists.mp he
  obtain ⟨hsaved, hindex, hfiles⟩ := h.run_write key value he
  refine ⟨hsaved, fun k => ?_, fun k hk => ?_, fun k v hk => ?_, fun k hk => ?_, fun k v hk => ?_, h.oldNormal⟩
  · rw [hindex, Dict.get?_set, h.index]
    split
    · rename_i e; rw [e]; rfl
    · rfl
  · by_cases hkk : k = key
    · rw [hkk]; exact hkey
    · rw [Dict.has_set_of_ne _ hkk] at hk
      exact h.inside k hk
  · rw [Directory.load, hfiles]
    rw [Dict.get?_set] at hk
    split at hk
    · rename_i e
      obtain rfl := Option.some.inj hk
      rw [e, Function.update_self]
      simp only [Codec.decode_encode value.2 he, Except.mapError]
    · rename_i hne
      have hkK : k ∈ K := h.inside k (Dict.has_iff.mpr ⟨v, hk⟩)
      rw [Function.update_of_ne fun e => hne (hK.new hkK hkey e)]
      exact h.new k v hk
  · refine (h.old k hk).congr ?_
    rw [hfiles, Function.update_of_ne (hK.old k hk key hkey)]
  · rw [Dict.get?_set] at hk
    split at hk
    · rw [← Option.some.inj hk]
      exact value.2
    · exact h.newNormal k v hk

/-- What a delete leaves: neither the key nor its files, new or old. -/
theorem run_delete (h : Migrating word K w s) (hK : Distinct word K) {key : String} (hkey : key ∈ K) :
    let r := w.store.delete word key w.dir
    r.1 = (s.lookup word key).isSome ∧ PixelStore.loadIndex r.2.2 = r.2.1.index ∧
      (∀ k, r.2.1.index.get? k = if k = key then none else w.store.index.get? k) ∧
      (∀ name, name ≠ PixelStore.makeFilename word key → name ≠ PixelStore.oldFilename word key →
        r.2.2.files name = w.dir.files name) ∧
      r.2.2.has (PixelStore.oldFilename word key) = false := by
  have hold := (h.old key hkey).has
  unfold PixelStore.delete Legacy.lookup
  cases hv : s.new.get? key with
  | none =>
    simp only [h.index_none hv, Option.none_or]
    have hindex (k : String) : w.store.index.get? k = if k = key then none else w.store.index.get? k := by
      split
      · rename_i e; rw [e, h.index_none hv]
      · rfl
    cases ho : w.dir.has (PixelStore.oldFilename word key) with
    | true =>
      rw [if_pos rfl]
      refine ⟨ho.symm.trans hold, h.saved, hindex, fun name _ hne => Function.update_of_ne hne _ _, ?_⟩
      simp
    | false =>
      rw [if_neg Bool.false_ne_true]
      exact ⟨ho.symm.trans hold, h.saved, hindex, fun _ _ _ => rfl, ho⟩
  | some v =>
    have hload := Directory.has_of_load (h.new key v hv)
    have hne : PixelStore.oldFilename word key ≠ PixelStore.makeFilename word key := hK.old key hkey key hkey
    have hold' (index : IndexFile) : Directory.has { w.dir.remove (PixelStore.makeFilename word key) with index := index }
        (PixelStore.oldFilename word key) = w.dir.has (PixelStore.oldFilename word key) := by
      show (w.dir.remove (PixelStore.makeFilename word key)).has _ = _
      simp [hne]
    simp only [h.index_some hv, hload, Option.some_or, Option.isSome_some]
    cases ho : w.dir.has (PixelStore.oldFilename word key) with
    | true =>
      rw [if_pos ((hold' _).trans ho)]
      refine ⟨rfl, rfl, fun k => Dict.get?_erase _ _ _, fun name hnew hold => ?_, ?_⟩
      · exact (Function.update_of_ne hold _ _).trans (Function.update_of_ne hnew _ _)
      · simp
    | false =>
      rw [if_neg (by rw [hold', ho]; exact Bool.false_ne_true)]
      exact ⟨rfl, rfl, fun k => Dict.get?_erase _ _ _, fun name hnew _ => Function.update_of_ne hnew _ _, (hold' _).trans ho⟩

/-- Keys that are distinct have old names that are the same, or that are no new names. -/
theorem delete (h : Migrating word K w s) (hK : Distinct word K) {key : String} (hkey : key ∈ K) :
    Migrating word K ⟨(w.store.delete word key w.dir).2.1, (w.store.delete word key w.dir).2.2⟩
      ⟨s.new.erase key, update s.old (PixelStore.oldFilename word key) none⟩ := by
  obtain ⟨-, hsaved, hindex, hfiles, hgone⟩ := h.run_delete hK hkey
  refine ⟨hsaved, fun k => ?_, fun k hk => ?_, fun k v hk => ?_, fun k hk => ?_, fun k v hk => ?_, fun k v hk => ?_⟩
  · rw [hindex, Dict.get?_erase, h.index]
    split <;> rfl
  · by_cases hkk : k = key
    · rw [hkk]; exact hkey
    · rw [Dict.has_erase_of_ne _ hkk] at hk
      exact h.inside k hk
  · rw [Dict.get?_erase] at hk
    split at hk
    · cases hk
    · rename_i hne
      have hkK : k ∈ K := h.inside k (Dict.has_iff.mpr ⟨v, hk⟩)
      rw [Directory.load, hfiles _ (fun e => hne (hK.new hkK hkey e)) (Ne.symm (hK.old key hkey k hkK))]
      exact h.new k v hk
  · dsimp only
    by_cases he : PixelStore.oldFilename word k = PixelStore.oldFilename word key
    · rw [he, Function.update_self]
      exact hgone
    · rw [Function.update_of_ne he]
      exact (h.old k hk).congr (hfiles _ (hK.old k hk key hkey) he)
  · rw [Dict.get?_erase] at hk
    split at hk
    · cases hk
    · exact h.newNormal k v hk
  · dsimp only at hk
    by_cases he : k = PixelStore.oldFilename word key
    · rw [he, Function.update_self] at hk
      cases hk
    · rw [Function.update_of_ne he] at hk
      exact h.oldNormal k v hk

end Migrating

/-- Call for call, the store answers as its calls on what the directory holds. -/
theorem alike_legacy (hK : Distinct word K) :
    Client.Alike (StoreCall.onPixel word) (Legacy.answer word) (fun _ i => i.Served K) StoreCall.Same (Migrating word K) := by
  intro w s i h hi
  cases i with
  | write key value =>
    obtain ⟨hkey, hn, he⟩ := hi
    obtain ⟨img, himg⟩ := Option.isSome_iff_exists.mp he
    have hans : ∃ p, (w.store.write word key value w.dir).1 = .ok p := by
      simp only [PixelStore.write, himg]
      exact ⟨_, rfl⟩
    obtain ⟨p, hp⟩ := hans
    simp only [StoreCall.onPixel, hp, Except.mapError]
    exact Client.like_ok trivial (h.write hK hkey ⟨value, hn⟩ he)
  | read key default =>
    simp only [StoreCall.onPixel, h.read hi, Except.mapError]
    exact Client.like_ok rfl h
  | delete key => exact Client.like_ok (h.run_delete hK hi).1 (h.delete hK hi)
  | existsKey key => exact Client.like_ok (h.existsKey hi) h
  | keys => exact Client.like_ok (sorted_keys_eq h.has_index) h
  | all =>
    obtain ⟨d, hd, hget⟩ := h.all
    simp only [StoreCall.onPixel, hd, Except.mapError]
    exact Client.like_ok hget h
  | clear => exact hi.elim

/-! ## Sessions -/

/-- A process ends and another makes a memory on the same directory, or a call is made. -/
inductive Session where
  | restarted
  | call (c : AgentCall)

namespace Session

def step (word : Char → Bool) (w : Handle) : Session → Option Shown × Handle
  | restarted => (none, ⟨.create w.dir w.store.storeDir, w.dir⟩)
  | call c =>
    let r := c.step (StoreCall.onPixel word) false w
    (some r.1, r.2)

/-- On what the directory holds. -/
def onLegacy (word : Char → Bool) (s : Legacy) : Session → Option Shown × Legacy
  | restarted => (none, s)
  | call c =>
    let r := c.step (Legacy.answer word) false s
    (some r.1, r.2)

def On (K : Set String) : Session → Prop
  | restarted => True
  | call c => c.On K

/-- Every value that is written fits an image. -/
def Encodes (word : Char → Bool) (s : Legacy) : Session → Prop
  | restarted => True
  | call c => (c.method false).Meets (Legacy.answer word) (fun _ i => i.Encodes) s

instance (word : Char → Bool) (s : Legacy) : (e : Session) → Decidable (e.Encodes word s)
  | restarted => isTrue trivial
  | call c => inferInstanceAs (Decidable ((c.method false).Meets (Legacy.answer word) (fun _ i => i.Encodes) s))

/-- The same along a run. -/
def EncodesAlong (word : Char → Bool) : Legacy → List Session → Prop
  | _, [] => True
  | s, e :: es => e.Encodes word s ∧ EncodesAlong word (e.onLegacy word s).2 es

def decidableEncodesAlong (word : Char → Bool) : (s : Legacy) → (es : List Session) → Decidable (EncodesAlong word s es)
  | _, [] => isTrue trivial
  | s, e :: es =>
    have := decidableEncodesAlong word (e.onLegacy word s).2 es
    inferInstanceAs (Decidable (e.Encodes word s ∧ _))

instance (word : Char → Bool) (s : Legacy) (es : List Session) : Decidable (EncodesAlong word s es) := decidableEncodesAlong word s es

end Session

/-- The same store, opened again. -/
theorem Migrating.reopened (h : Migrating word K w s) (storeDir : String) : Migrating word K ⟨.create w.dir storeDir, w.dir⟩ s :=
  ⟨rfl, fun k => (congrArg (·.get? k) h.saved).trans (h.index k), h.inside, h.new, h.old, h.newNormal, h.oldNormal⟩

theorem session_step (hK : Distinct word K) (h : Migrating word K w s) {e : Session} (he : e.On K) (hfit : e.Encodes word s) :
    (e.step word w).1 = (e.onLegacy word s).1 ∧ Migrating word K (e.step word w).2 (e.onLegacy word s).2 := by
  cases e with
  | restarted => exact ⟨rfl, h.reopened _⟩
  | call c =>
    have hnames : (c.method false).Meets (Legacy.answer word) (fun _ i => i.Names K false) s := by
      refine meets_names (fun key v t' hv => ?_) (fun ks t' hks k hk => ?_) he false
      · obtain rfl := Except.ok.inj (Prod.mk.inj hv).1
        rw [Legacy.lookup]
        cases hnew : s.new.get? key with
        | some v => exact h.newNormal key v hnew
        | none =>
          rw [Option.none_or]
          cases hold : s.old (PixelStore.oldFilename word key) with
          | some v => exact h.oldNormal _ v hold
          | none => trivial
      · obtain rfl := Except.ok.inj (Prod.mk.inj hks).1
        exact h.inside k (Dict.mem_keys.mp (mem_sorted.mp hk))
    have hserved := (hnames.and hfit).mono fun _ i hi => served_of_names hi.1 hi.2
    obtain ⟨hans, hrel⟩ := step_like (alike_legacy hK) h hserved
    exact ⟨congrArg some hans, hrel⟩

/-- A directory of the old scheme is taken over as it is. Of keys whose file names do not meet
    and values that encode, along every run of an agent's calls and restarts, a memory on the
    directory answers as its calls on what the directory holds: the values under the keys of the
    index, and below them those of the old files, one for all the keys of a slug. -/
theorem migrates (word : Char → Bool) {K : Set String} (hK : Distinct word K) (dir : Directory) (storeDir : String) {s : Legacy}
    (h : Migrating word K ⟨.create dir storeDir, dir⟩ s) {es : List Session} (hes : ∀ e ∈ es, e.On K)
    (hfit : Session.EncodesAlong word s es) :
    (Trace.log (Session.step word) ⟨.create dir storeDir, dir⟩ es).map (·.2) = (Trace.log (Session.onLegacy word) s es).map (·.2) := by
  generalize (⟨.create dir storeDir, dir⟩ : Handle) = w at h ⊢
  induction es generalizing w s with
  | nil => rfl
  | cons e es ih =>
    obtain ⟨he, hes⟩ := List.forall_mem_cons.mp hes
    obtain ⟨hfit, hfits⟩ := hfit
    obtain ⟨hans, h'⟩ := session_step hK h he hfit
    simp only [Trace.log_cons, List.map_cons, hans, ih hes hfits _ h']

/-- A list of one, as an image. -/
def oneItem : Vm.File :=
  match Codec.encode (.arr [.null]) with
  | some img => .image img
  | none => .missing

/-- It is in the old file of `a b`, which is that of `a_b`. -/
def oldDirectory : Directory := { files := fun name => if name = "a_b.px.png" then oneItem else .missing }

/-- The list goes on under `a b`; the one under `a_b` is the old one, until that is removed with `a b`. -/
def takenOver : List Session :=
  [.call .keys, .call (.append "a b" ⟨.bool true, trivial⟩), .restarted, .call (.recallList "a b"), .call (.recallList "a_b"),
    .call (.forget "a b"), .call (.existsKey "a_b")]

theorem load_oldDirectory : oldDirectory.load "a_b.px.png" = .ok (.arr [.null]) := by
  obtain ⟨img, himg⟩ := Option.isSome_iff_exists.mp
    (Codec.encode_isSome_iff.mpr (by decide +kernel) : (Codec.encode (.arr [.null])).isSome)
  have hfile : oldDirectory.files "a_b.px.png" = .image img := by
    show (if "a_b.px.png" = "a_b.px.png" then oneItem else Vm.File.missing) = _
    rw [if_pos rfl, oneItem, himg]
  rw [Directory.load, hfile]
  simp only [Codec.decode_encode (v := .arr [.null]) ⟨trivial, trivial⟩ himg, Except.mapError]

/-- Two keys of one slug. -/
theorem distinct_one_slug : Distinct asciiWord {k | k = "a b" ∨ k = "a_b"} := by
  constructor
  · rintro k (rfl | rfl) l (rfl | rfl) e
    · rfl
    · exact absurd e (by decide +kernel)
    · exact absurd e (by decide +kernel)
    · rfl
  · rintro k (rfl | rfl) l (rfl | rfl) <;> decide +kernel

theorem migrating_oldDirectory : Migrating asciiWord {k | k = "a b" ∨ k = "a_b"} ⟨.create oldDirectory "m/", oldDirectory⟩
    ⟨.empty, fun name => if name = "a_b.px.png" then some (.arr [.null]) else none⟩ := by
  refine ⟨rfl, fun _ => rfl, fun _ hk => (nomatch hk), fun _ _ hk => (nomatch hk), ?_, fun _ _ hk => (nomatch hk), ?_⟩
  · have hname : ∀ k, k = "a b" ∨ k = "a_b" → PixelStore.oldFilename asciiWord k = "a_b.px.png" := by
      rintro k (rfl | rfl) <;> decide +kernel
    intro k hk
    rw [hname k hk]
    exact load_oldDirectory
  · intro k v hk
    dsimp only at hk
    split at hk
    · rw [← Option.some.inj hk]
      exact ⟨trivial, trivial⟩
    · cases hk

theorem migrates_oldDirectory :
    (Trace.log (Session.step asciiWord) ⟨.create oldDirectory "m/", oldDirectory⟩ takenOver).map (·.2) =
      [some (.keys []), some .none, none, some (.value (.arr [.null, .bool true])), some (.value (.arr [.null])),
        some (.bool true), some (.bool false)] := by
  have hon : ∀ e ∈ takenOver, e.On {k | k = "a b" ∨ k = "a_b"} := by
    simp [takenOver, Session.On, AgentCall.On]
  have hfit : Session.EncodesAlong asciiWord
      ⟨.empty, fun name => if name = "a_b.px.png" then some (.arr [.null]) else none⟩ takenOver := by decide +kernel
  exact (migrates asciiWord distinct_one_slug oldDirectory "m/" migrating_oldDirectory hon hfit).trans (by rfl)

end PyxelVM.Memory
