/-
  PyxelVM.Lib.Dict — insertion-ordered dictionaries, as Python's dict.

  The entries are in insertion order; `set` on a present key changes its value in
  place, on an absent one appends. That no key occurs twice is part of the type.

  `get?` of each operation is a simp lemma, so that no proof over dictionaries unfolds
  them; `mem_keys` is what there is to know of the key list.
-/

import Mathlib.Data.Finset.Dedup
import Mathlib.Data.List.Nodup

namespace PyxelVM.Lib

@[ext]
structure Dict (κ α : Type) where
  entries : List (κ × α)
  nodup : (entries.map (·.1)).Nodup
  deriving DecidableEq

namespace Dict

variable {κ α β : Type} [DecidableEq κ]

def empty : Dict κ α := ⟨[], List.nodup_nil⟩

instance : Inhabited (Dict κ α) := ⟨empty⟩

def keys (d : Dict κ α) : List κ := d.entries.map (·.1)

def get? (d : Dict κ α) (k : κ) : Option α := d.entries.lookup k

/-- `k in d`. -/
def has (d : Dict κ α) (k : κ) : Bool := (d.get? k).isSome

/-- `d.get(k, default)`. -/
def getD (d : Dict κ α) (k : κ) (default : α) : α := (d.get? k).getD default

def setEntries (es : List (κ × α)) (k : κ) (v : α) : List (κ × α) :=
  if k ∈ es.map (·.1) then es.map fun e => if e.1 = k then (k, v) else e else es ++ [(k, v)]

theorem setEntries_keys (es : List (κ × α)) (k : κ) (v : α) :
    (setEntries es k v).map (·.1) = if k ∈ es.map (·.1) then es.map (·.1) else es.map (·.1) ++ [k] := by
  unfold setEntries
  split
  · rw [List.map_map]
    apply List.map_congr_left
    intro e _
    by_cases h : e.1 = k <;> simp [h]
  · simp

/-- `d[k] = v`. -/
def set (d : Dict κ α) (k : κ) (v : α) : Dict κ α where
  entries := setEntries d.entries k v
  nodup := by
    rw [setEntries_keys]
    split
    · exact d.nodup
    · exact List.nodup_append'.mpr ⟨d.nodup, List.nodup_singleton k, List.disjoint_singleton.mpr ‹_›⟩

/-- `del d[k]`, and nothing if `k` is absent. -/
def erase (d : Dict κ α) (k : κ) : Dict κ α where
  entries := d.entries.filter fun e => e.1 ≠ k
  nodup := d.nodup.sublist (List.Sublist.map _ List.filter_sublist)

/-- `d[k] = f(d[k])`, and nothing if `k` is absent. -/
def modify (d : Dict κ α) (k : κ) (f : α → α) : Dict κ α :=
  match d.get? k with
  | some v => d.set k (f v)
  | none => d

/-- `f` of every value, in place. -/
def mapValues (d : Dict κ α) (f : α → β) : Dict κ β where
  entries := d.entries.map fun e => (e.1, f e.2)
  nodup := by
    rw [List.map_map]
    exact d.nodup

/-- `{k: v for k, v in d.items() if p(v)}`. -/
def filterValues (d : Dict κ α) (p : α → Bool) : Dict κ α where
  entries := d.entries.filter fun e => p e.2
  nodup := d.nodup.sublist (List.Sublist.map _ List.filter_sublist)

/-- `dict(es)`: the last entry of a key counts. -/
def ofList (es : List (κ × α)) : Dict κ α := es.foldl (fun d e => d.set e.1 e.2) empty

/-! ## What each operation answers -/

@[simp] theorem get?_empty (k : κ) : (empty : Dict κ α).get? k = none := rfl

theorem lookup_cons (l k : κ) (v : α) (es : List (κ × α)) :
    ((l, v) :: es).lookup k = if k = l then some v else es.lookup k := by
  rw [List.lookup_cons]
  by_cases h : k = l
  · simp [h]
  · rw [beq_false_of_ne h, if_neg h]

theorem lookup_eq_none {es : List (κ × α)} {k : κ} : es.lookup k = none ↔ k ∉ es.map (·.1) := by
  induction es with
  | nil => simp
  | cons e es ih =>
    rw [lookup_cons]
    by_cases h : k = e.1
    · simp [h]
    · rw [if_neg h, ih, List.map_cons, List.mem_cons, not_or]
      exact ⟨fun hn => ⟨h, hn⟩, fun hn => hn.2⟩

theorem lookup_append {es fs : List (κ × α)} {k : κ} : (es ++ fs).lookup k = (es.lookup k).or (fs.lookup k) := by
  induction es with
  | nil => rfl
  | cons e es ih =>
    rw [List.cons_append, lookup_cons, lookup_cons]
    split
    · rfl
    · exact ih

theorem lookup_replace (es : List (κ × α)) (k l : κ) (v : α) :
    (es.map fun e => if e.1 = k then (k, v) else e).lookup l =
      if l = k ∧ k ∈ es.map (·.1) then some v else es.lookup l := by
  induction es with
  | nil => simp
  | cons e es ih =>
    obtain ⟨m, w⟩ := e
    rw [List.map_cons]
    by_cases hm : m = k
    · subst hm
      simp only [if_true, lookup_cons, ih, List.map_cons, List.mem_cons, true_or, and_true]
      by_cases hl : l = m <;> simp [hl]
    · simp only [hm, if_false, lookup_cons, ih, List.map_cons, List.mem_cons, Ne.symm hm, false_or]
      by_cases hlm : l = m
      · have hl : l ≠ k := by rw [hlm]; exact hm
        simp [hlm, hm]
      · simp only [hlm, if_false]

theorem get?_set (d : Dict κ α) (k l : κ) (v : α) : (d.set k v).get? l = if l = k then some v else d.get? l := by
  show (setEntries d.entries k v).lookup l = if l = k then some v else d.entries.lookup l
  unfold setEntries
  split
  · rename_i h; rw [lookup_replace]; simp [h]
  · rename_i h
    rw [lookup_append]
    by_cases hl : l = k
    · subst hl; simp [lookup_eq_none.mpr h]
    · simp [hl, lookup_cons]

@[simp] theorem get?_set_self (d : Dict κ α) (k : κ) (v : α) : (d.set k v).get? k = some v := by simp [get?_set]

theorem get?_set_of_ne (d : Dict κ α) {k l : κ} (h : l ≠ k) (v : α) : (d.set k v).get? l = d.get? l := by
  simp [get?_set, h]

theorem get?_erase (d : Dict κ α) (k l : κ) : (d.erase k).get? l = if l = k then none else d.get? l := by
  show (d.entries.filter fun e => e.1 ≠ k).lookup l = if l = k then none else d.entries.lookup l
  induction d.entries with
  | nil => simp
  | cons e es ih =>
    obtain ⟨m, w⟩ := e
    by_cases hm : m = k
    · subst hm
      rw [List.filter_cons_of_neg (by simp), ih, lookup_cons]
      by_cases hl : l = m <;> simp [hl]
    · rw [List.filter_cons_of_pos (by simpa using hm), lookup_cons, lookup_cons, ih]
      by_cases hlm : l = m
      · subst hlm; simp [hm]
      · simp [hlm]

@[simp] theorem get?_erase_self (d : Dict κ α) (k : κ) : (d.erase k).get? k = none := by simp [get?_erase]

theorem get?_erase_of_ne (d : Dict κ α) {k l : κ} (h : l ≠ k) : (d.erase k).get? l = d.get? l := by
  simp [get?_erase, h]

theorem get?_modify (d : Dict κ α) (k l : κ) (f : α → α) :
    (d.modify k f).get? l = if l = k then (d.get? k).map f else d.get? l := by
  unfold modify
  cases h : d.get? k with
  | some v => simp only [get?_set, Option.map_some]
  | none => by_cases hl : l = k <;> simp [hl, h]

@[simp] theorem get?_mapValues (d : Dict κ α) (f : α → β) (k : κ) : (d.mapValues f).get? k = (d.get? k).map f := by
  show (d.entries.map fun e => (e.1, f e.2)).lookup k = (d.entries.lookup k).map f
  induction d.entries with
  | nil => rfl
  | cons e es ih =>
    obtain ⟨l, v⟩ := e
    rw [List.map_cons, lookup_cons, lookup_cons]
    split
    · rfl
    · exact ih

theorem get?_filterValues (d : Dict κ α) (p : α → Bool) (k : κ) : (d.filterValues p).get? k = (d.get? k).filter p := by
  obtain ⟨es, hn⟩ := d
  show (es.filter fun e => p e.2).lookup k = (es.lookup k).filter p
  induction es with
  | nil => rfl
  | cons e es ih =>
    obtain ⟨l, v⟩ := e
    obtain ⟨hl, hn⟩ := List.nodup_cons.mp hn
    rw [lookup_cons, List.filter_cons]
    by_cases hk : k = l
    · have habsent : (es.filter fun e => p e.2).lookup k = none := by
        rw [lookup_eq_none, hk]
        exact fun h => hl ((List.Sublist.map _ List.filter_sublist).subset h)
      rw [if_pos hk, Option.filter_some]
      split
      · rw [lookup_cons, if_pos hk]
      · exact habsent
    · rw [if_neg hk, ← ih hn]
      split
      · rw [lookup_cons, if_neg hk]
      · rfl

theorem get?_foldl_set (es : List (κ × α)) (d : Dict κ α) (k : κ) :
    (es.foldl (fun d e => d.set e.1 e.2) d).get? k = (es.reverse.lookup k).or (d.get? k) := by
  induction es generalizing d with
  | nil => simp
  | cons e es ih =>
    obtain ⟨l, v⟩ := e
    rw [List.foldl_cons, ih, List.reverse_cons, lookup_append, get?_set, lookup_cons]
    by_cases h : k = l
    · cases es.reverse.lookup k <;> simp [h]
    · cases es.reverse.lookup k <;> simp [h]

/-- `for k in ks: d[k] = f(k)`. -/
theorem get?_foldl_assign (ks : List κ) (f : κ → α) (d : Dict κ α) (l : κ) :
    (ks.foldl (fun d k => d.set k (f k)) d).get? l = if l ∈ ks then some (f l) else d.get? l := by
  induction ks generalizing d with
  | nil => simp
  | cons k ks ih =>
    rw [List.foldl_cons, ih, get?_set]
    by_cases hl : l ∈ ks
    · simp [hl]
    · by_cases hk : l = k <;> simp [hl, hk]

theorem get?_ofList (es : List (κ × α)) (k : κ) : (ofList es).get? k = es.reverse.lookup k := by
  rw [ofList, get?_foldl_set, get?_empty, Option.or_none]

theorem foldl_set_entries {es : List (κ × α)} {d : Dict κ α} (h : ((d.entries ++ es).map (·.1)).Nodup) :
    (es.foldl (fun d e => d.set e.1 e.2) d).entries = d.entries ++ es := by
  induction es generalizing d with
  | nil => simp
  | cons e es ih =>
    have hne : e.1 ∉ d.entries.map (·.1) := by
      intro he
      rw [List.map_append, List.map_cons] at h
      exact (List.nodup_append.mp h).2.2 e.1 he e.1 (List.mem_cons_self ..) rfl
    have hset : (d.set e.1 e.2).entries = d.entries ++ [e] := if_neg hne
    rw [List.foldl_cons, ih (by rwa [hset, List.append_assoc]), hset, List.append_assoc, List.singleton_append]

/-- A list that has no key twice is the entries of its dictionary. -/
theorem entries_ofList {es : List (κ × α)} (h : (es.map (·.1)).Nodup) : (ofList es).entries = es := foldl_set_entries h

theorem ofList_entries (d : Dict κ α) : ofList d.entries = d := Dict.ext (entries_ofList d.nodup)

theorem mem_of_lookup {es : List (κ × α)} {k : κ} {v : α} (h : es.lookup k = some v) : (k, v) ∈ es := by
  induction es with
  | nil => cases h
  | cons e es ih =>
    obtain ⟨l, w⟩ := e
    rw [lookup_cons] at h
    split at h
    · rename_i e; cases h; rw [e]; exact List.mem_cons_self ..
    · exact List.mem_cons_of_mem _ (ih h)

/-- The entries are what `get?` answers. -/
theorem mem_entries {d : Dict κ α} {k : κ} {v : α} : (k, v) ∈ d.entries ↔ d.get? k = some v := by
  refine ⟨?_, mem_of_lookup⟩
  intro h
  obtain ⟨es, hn⟩ := d
  show es.lookup k = some v
  replace h : (k, v) ∈ es := h
  induction es with
  | nil => cases h
  | cons e es ih =>
    obtain ⟨l, w⟩ := e
    obtain ⟨hl, hn⟩ := List.nodup_cons.mp hn
    rw [lookup_cons]
    rcases List.mem_cons.mp h with e | hm
    · cases e; simp
    · have hkl : k ≠ l := fun e => hl (List.mem_map.mpr ⟨(k, v), hm, e⟩)
      rw [if_neg hkl, ih hn hm]

/-- The first entry counts where no later one has its key. -/
theorem get?_ofList_cons (l : κ) (v : α) (es : List (κ × α)) (k : κ) :
    (ofList ((l, v) :: es)).get? k = ((ofList es).get? k).or (if k = l then some v else none) := by
  rw [get?_ofList, get?_ofList, List.reverse_cons, lookup_append, lookup_cons]
  rfl

theorem mem_of_get?_ofList {es : List (κ × α)} {k : κ} {v : α} (h : (ofList es).get? k = some v) : (k, v) ∈ es := by
  rw [get?_ofList] at h
  exact List.mem_reverse.mp (mem_of_lookup h)

/-- Of entries that all have values of their own, the dictionary has every value exactly if no key is there twice. -/
theorem ofList_keeps_iff {es : List (κ × α)} (h : (es.map (·.2)).Nodup) :
    (∀ e ∈ es, ∃ k, (ofList es).get? k = some e.2) ↔ (es.map (·.1)).Nodup := by
  constructor
  · intro hkept
    induction es with
    | nil => exact List.nodup_nil
    | cons e es ih =>
      obtain ⟨l, v⟩ := e
      obtain ⟨hv, hes⟩ := List.nodup_cons.mp h
      have hvalue {e : κ × α} (he : e ∈ es) : e.2 ≠ v := fun e' => hv (List.mem_map.mpr ⟨e, he, e'⟩)
      refine List.nodup_cons.mpr ⟨?_, ih hes fun e he => ?_⟩
      · obtain ⟨k, hk⟩ := hkept (l, v) List.mem_cons_self
        rw [get?_ofList_cons] at hk
        cases hlater : (ofList es).get? k with
        | some w =>
          rw [hlater] at hk
          exact absurd (Option.some.inj hk) (hvalue (mem_of_get?_ofList hlater))
        | none =>
          rw [hlater, Option.none_or] at hk
          obtain rfl : k = l := by
            by_contra hne
            rw [if_neg hne] at hk
            cases hk
          rwa [get?_ofList, lookup_eq_none, List.map_reverse, List.mem_reverse] at hlater
      · obtain ⟨k, hk⟩ := hkept e (List.mem_cons_of_mem _ he)
        rw [get?_ofList_cons] at hk
        cases hlater : (ofList es).get? k with
        | some w =>
          rw [hlater] at hk
          exact ⟨k, hlater.trans hk⟩
        | none =>
          rw [hlater, Option.none_or] at hk
          split at hk
          · exact absurd (Option.some.inj hk).symm (hvalue he)
          · cases hk
  · intro hkeys e he
    refine ⟨e.1, mem_entries.mp ?_⟩
    rw [entries_ofList hkeys]
    exact he

/-- What has the same entries answers the same. -/
theorem entries_toFinset_eq_iff [DecidableEq α] {d e : Dict κ α} :
    d.entries.toFinset = e.entries.toFinset ↔ ∀ k, d.get? k = e.get? k := by
  constructor
  · intro h k
    apply Option.ext
    intro v
    rw [← mem_entries, ← mem_entries, ← List.mem_toFinset, h, List.mem_toFinset]
  · intro h
    apply Finset.ext
    intro x
    rw [List.mem_toFinset, List.mem_toFinset, mem_entries, mem_entries, h]

/-- An absent key has nothing to erase. -/
theorem erase_of_absent {d : Dict κ α} {k : κ} (h : d.get? k = none) : d.erase k = d := by
  apply Dict.ext
  show d.entries.filter (fun e => e.1 ≠ k) = d.entries
  rw [List.filter_eq_self]
  intro e he
  have hne : e.1 ≠ k := fun e' => lookup_eq_none.mp h (List.mem_map.mpr ⟨e, he, e'⟩)
  exact decide_eq_true hne

theorem erase_eq_self {d : Dict κ α} {k : κ} : d.erase k = d ↔ d.get? k = none :=
  ⟨fun h => h ▸ get?_erase_self d k, erase_of_absent⟩

/-- Erasing a key undoes that it was added. -/
theorem erase_set {d : Dict κ α} {k : κ} (h : d.get? k = none) (v : α) : (d.set k v).erase k = d := by
  have hset : (d.set k v).entries = d.entries ++ [(k, v)] := if_neg (lookup_eq_none.mp h)
  apply Dict.ext
  show (d.set k v).entries.filter (fun e => e.1 ≠ k) = d.entries
  rw [hset, List.filter_append, List.filter_cons_of_neg (by simp), List.filter_nil, List.append_nil]
  exact congrArg Dict.entries (erase_of_absent h)

/-! ## A value for each of some keys -/

/-- `{key(i): f(i) for i in is}`, of keys that differ. -/
def tabulate {ι : Type} (is : List ι) (key : ι → κ) (hn : (is.map key).Nodup) (f : ι → α) : Dict κ α where
  entries := is.map fun i => (key i, f i)
  nodup := by rwa [List.map_map]

section

variable {ι : Type} {is : List ι} {key : ι → κ} {hn : (is.map key).Nodup} {f : ι → α}

omit [DecidableEq κ] in
@[simp] theorem keys_tabulate : (tabulate is key hn f).keys = is.map key := by
  rw [keys, tabulate, List.map_map]
  rfl

theorem get?_tabulate {i : ι} (hi : i ∈ is) : (tabulate is key hn f).get? (key i) = some (f i) :=
  mem_entries.mp (List.mem_map.mpr ⟨i, hi, rfl⟩)

theorem get?_tabulate_none {k : κ} (hk : k ∉ is.map key) : (tabulate is key hn f).get? k = none := by
  rw [get?, lookup_eq_none]
  intro h
  rw [tabulate, List.map_map] at h
  exact hk h

theorem set_tabulate [DecidableEq ι] {i : ι} (hi : i ∈ is) (v : α) :
    (tabulate is key hn f).set (key i) v = tabulate is key hn fun j => if j = i then v else f j := by
  have hmem : key i ∈ (is.map fun i => (key i, f i)).map (·.1) := by
    rw [List.map_map]
    exact List.mem_map_of_mem hi
  apply Dict.ext
  show setEntries _ _ _ = _
  rw [setEntries, tabulate, if_pos hmem, tabulate, List.map_map]
  apply List.map_congr_left
  intro j hj
  simp only [Function.comp_apply]
  by_cases h : j = i
  · rw [h, if_pos rfl, if_pos rfl]
  · have hkey : key j ≠ key i := fun e => h (List.inj_on_of_nodup_map hn hj hi e)
    rw [if_neg hkey, if_neg h]

end

/-! ## Keys -/

theorem mem_keys {d : Dict κ α} {k : κ} : k ∈ d.keys ↔ d.has k = true := by
  rw [has, Option.isSome_iff_ne_none, ne_eq, get?, lookup_eq_none, not_not, keys]

theorem has_iff {d : Dict κ α} {k : κ} : d.has k = true ↔ ∃ v, d.get? k = some v := Option.isSome_iff_exists

theorem not_has_iff {d : Dict κ α} {k : κ} : d.has k = false ↔ d.get? k = none := by
  rw [has, Option.isSome_eq_false_iff, Option.isNone_iff_eq_none]

theorem has_set_self (d : Dict κ α) (k : κ) (v : α) : (d.set k v).has k = true := by rw [has, get?_set_self, Option.isSome_some]

theorem has_set_of_ne (d : Dict κ α) {k l : κ} (h : l ≠ k) (v : α) : (d.set k v).has l = d.has l := by
  rw [has, get?_set_of_ne d h, has]

theorem has_erase_self (d : Dict κ α) (k : κ) : (d.erase k).has k = false := by rw [has, get?_erase_self, Option.isSome_none]

theorem has_erase_of_ne (d : Dict κ α) {k l : κ} (h : l ≠ k) : (d.erase k).has l = d.has l := by rw [has, get?_erase_of_ne d h, has]

end Dict

end PyxelVM.Lib
