/-
  PyxelVM.Vm.Loading — `_load_shared` of any file (`zdx_parallel_vm.py`).

  The file is missing, or `json.load` raises, which is caught, or it gives a value of any
  shape. What raises then is not caught: a value that is no dict has no `items`, and
  `int` of an infinity overflows. An integer that is loaded is not masked.

  `loads_safely_iff`: a machine is made, and stays within bytes, exactly when the file
  gives no value or a dict that has under M0 to M7 no infinity and no integer outside a
  byte.
-/

import PyxelVM.Lib.PyJson
import PyxelVM.Vm.EightBit

namespace PyxelVM.Vm

open PyxelVM.Lib

/-! ## The file -/

/-- What `_load_shared` finds at its path. -/
inductive Content where
  | missing
  | unreadable
  | document (value : PyJson)

/-- What it raises. -/
inductive LoadError where
  | attribute (typeName : String)
  | overflow
  deriving DecidableEq, Repr

/-- The exception's text. -/
def LoadError.message : LoadError → String
  | .attribute typeName => s!"'{typeName}' object has no attribute 'items'"
  | .overflow => "cannot convert float infinity to integer"

/-- `data.items()` of the dict that is read. -/
def itemsOf (members : List (PyStr × PyJson)) : List (PyStr × PyJson) := (Dict.ofList members).entries

/-- The loop: a value that `int` refuses is left out, if it refuses it with what is caught. -/
def loadItems : List (PyStr × PyJson) → Dict String Int → Except LoadError (Dict String Int)
  | [], shared => .ok shared
  | (k, v) :: items, shared =>
    match k.text?.filter shared.has with
    | none => loadItems items shared
    | some key =>
      match v.toInt with
      | .ok n => loadItems items (shared.set key n)
      | .error .overflowError => .error .overflow
      | .error _ => loadItems items shared

def loadContent (content : Content) (shared : Dict String Int) : Except LoadError (Dict String Int) :=
  match content with
  | .missing | .unreadable => .ok shared
  | .document (.obj members) => loadItems (itemsOf members) shared
  | .document v => .error (.attribute v.typeName)

/-- The constructor with `persist_shared`. -/
def DictMachine.loaded (n : Nat) (content : Content) : Except LoadError (DictMachine n) :=
  (loadContent content (DictMachine.fresh n).shared).map fun shared => { DictMachine.fresh n with shared }

/-! ## One item -/

section

variable {k : PyStr} {v : PyJson} {items : List (PyStr × PyJson)} {shared shared' : Fin 8 → Int} {i : Fin 8}

theorem slot_of_has {key : String} (h : (sharedView shared).has key = true) : ∃ i : Fin 8, key = memKey i := by
  have hmem := Dict.mem_keys.mpr h
  rw [sharedView, Dict.keys_tabulate] at hmem
  rcases List.mem_map.mp hmem with ⟨i, -, e⟩
  exact ⟨i, e.symm⟩

/-- An item under the name of a slot. -/
theorem loadItems_slot (hk : k.text? = some (memKey i)) (v : PyJson) (items : List (PyStr × PyJson)) (shared : Fin 8 → Int) :
    loadItems ((k, v) :: items) (sharedView shared) =
      match v.toInt with
      | .ok n => loadItems items (sharedView (Function.update shared i n))
      | .error .overflowError => .error .overflow
      | .error _ => loadItems items (sharedView shared) := by
  rw [loadItems, hk, Option.filter_some_pos (slot_has shared i)]
  cases v.toInt with
  | ok n => simp only [sharedView_slot]
  | error e => cases e <;> rfl

/-- Any other. -/
theorem loadItems_other (hk : ∀ i : Fin 8, k.text? ≠ some (memKey i)) (v : PyJson) (items : List (PyStr × PyJson))
    (shared : Fin 8 → Int) : loadItems ((k, v) :: items) (sharedView shared) = loadItems items (sharedView shared) := by
  have hnone : k.text?.filter (sharedView shared).has = none := by
    cases hkey : k.text? with
    | none => rfl
    | some key =>
      refine Option.filter_some_neg (Bool.eq_false_iff.mpr fun hhas => ?_)
      rcases slot_of_has hhas with ⟨i, rfl⟩
      exact hk i hkey
  rw [loadItems, hnone]

/-- The value can be loaded into a slot. -/
structure Loadable (v : PyJson) : Prop where
  finite : ∀ negative, v ≠ .float (.inf negative)
  byte : ∀ n, v.toInt = .ok n → IsByte n

theorem loadable_of_ok {n : Int} (h : v.toInt = .ok n) (hn : IsByte n) : Loadable v := by
  constructor
  · intro negative hinf
    rw [hinf] at h
    cases h
  · intro m hm
    rw [hm] at h
    rwa [Except.ok.inj h]

theorem loadable_of_error {e : IntError} (h : v.toInt = .error e) (he : e ≠ .overflowError) : Loadable v := by
  constructor
  · intro negative hinf
    exact he (Except.error.inj (h.symm.trans (PyJson.toInt_overflow_iff.mpr ⟨negative, hinf⟩)))
  · intro m hm
    rw [hm] at h
    cases h

/-- Under the name of a slot there is a value that can be loaded. -/
def Harmless (e : PyStr × PyJson) : Prop := ∀ i : Fin 8, e.1.text? = some (memKey i) → Loadable e.2

theorem loads_harmless (h : ∀ e ∈ items, Harmless e) (hb : ∀ i, IsByte (shared i)) :
    ∃ shared', loadItems items (sharedView shared) = .ok (sharedView shared') ∧ ∀ i, IsByte (shared' i) := by
  induction items generalizing shared with
  | nil => exact ⟨shared, rfl, hb⟩
  | cons e items ih =>
    rcases e with ⟨k, v⟩
    rcases List.forall_mem_cons.mp h with ⟨he, hitems⟩
    by_cases hk : ∃ i : Fin 8, k.text? = some (memKey i)
    · rcases hk with ⟨i, hk⟩
      have hv := he i hk
      rw [loadItems_slot hk]
      cases hint : v.toInt with
      | ok n =>
        refine ih hitems ?_
        intro j
        by_cases hj : j = i
        · rw [hj, Function.update_self]
          exact hv.byte n hint
        · rw [Function.update_of_ne hj]
          exact hb j
      | error e =>
        cases e with
        | typeError => exact ih hitems hb
        | valueError => exact ih hitems hb
        | overflowError =>
          rcases PyJson.toInt_overflow_iff.mp hint with ⟨negative, hinf⟩
          exact absurd hinf (hv.finite negative)
    · rw [loadItems_other (not_exists.mp hk)]
      exact ih hitems hb

theorem sharedView_injective (h : sharedView shared = sharedView shared') : shared = shared' := by
  funext i
  have hi := slot_get shared i
  rw [h, slot_get, Option.some_inj] at hi
  exact hi.symm

/-- A slot that no item names stays. -/
theorem loadItems_keeps (hi : ∀ e ∈ items, e.1.text? ≠ some (memKey i))
    (h : loadItems items (sharedView shared) = .ok (sharedView shared')) : shared' i = shared i := by
  induction items generalizing shared with
  | nil => rw [sharedView_injective (Except.ok.inj h)]
  | cons e items ih =>
    rcases e with ⟨k, v⟩
    rcases List.forall_mem_cons.mp hi with ⟨he, hitems⟩
    by_cases hk : ∃ j : Fin 8, k.text? = some (memKey j)
    · rcases hk with ⟨j, hk⟩
      have hne : i ≠ j := by
        intro e
        subst e
        exact he hk
      rw [loadItems_slot hk] at h
      split at h
      · rw [ih hitems h, Function.update_of_ne hne]
      · cases h
      · exact ih hitems h
    · rw [loadItems_other (not_exists.mp hk)] at h
      exact ih hitems h

/-- Where a value cannot be loaded, loading raises or leaves a slot that is no byte. -/
theorem harmless_of_loads (hn : (items.map (·.1)).Nodup) (h : loadItems items (sharedView shared) = .ok (sharedView shared'))
    (hb : ∀ i, IsByte (shared' i)) : ∀ e ∈ items, Harmless e := by
  induction items generalizing shared with
  | nil => exact fun _ hm => nomatch hm
  | cons e items ih =>
    rcases e with ⟨k, v⟩
    rw [List.map_cons, List.nodup_cons] at hn
    rcases hn with ⟨hnew, hn⟩
    by_cases hk : ∃ i : Fin 8, k.text? = some (memKey i)
    · rcases hk with ⟨i, hk⟩
      -- no later item is under this name
      have hrest : ∀ e ∈ items, e.1.text? ≠ some (memKey i) := by
        intro e he hei
        apply hnew
        exact List.mem_map.mpr ⟨e, he, (PyStr.ofText_text? hei).symm.trans (PyStr.ofText_text? hk)⟩
      rw [loadItems_slot hk] at h
      cases hint : v.toInt with
      | ok n =>
        rw [hint] at h
        have hi := hb i
        rw [loadItems_keeps hrest h, Function.update_self] at hi
        exact List.forall_mem_cons.mpr ⟨fun _ _ => loadable_of_ok hint hi, ih hn h⟩
      | error e =>
        rw [hint] at h
        have hne : e ≠ .overflowError := by
          intro he
          subst he
          cases h
        have hload : loadItems items (sharedView shared) = .ok (sharedView shared') := by
          cases e with
          | typeError => exact h
          | valueError => exact h
          | overflowError => exact absurd rfl hne
        exact List.forall_mem_cons.mpr ⟨fun _ _ => loadable_of_error hint hne, ih hn hload⟩
    · rw [loadItems_other (not_exists.mp hk)] at h
      exact List.forall_mem_cons.mpr ⟨fun i hi => absurd ⟨i, hi⟩ hk, ih hn h⟩

/-- What is loaded are slots again. -/
theorem loadItems_ok {loaded : Dict String Int} (h : loadItems items (sharedView shared) = .ok loaded) :
    ∃ shared', loaded = sharedView shared' := by
  induction items generalizing shared with
  | nil => exact ⟨shared, (Except.ok.inj h).symm⟩
  | cons e items ih =>
    rcases e with ⟨k, v⟩
    by_cases hk : ∃ i : Fin 8, k.text? = some (memKey i)
    · rcases hk with ⟨i, hk⟩
      rw [loadItems_slot hk] at h
      split at h
      · exact ih h
      · cases h
      · exact ih h
    · rw [loadItems_other (not_exists.mp hk)] at h
      exact ih h

/-! ## JSON without infinities -/

variable {float : FloatText → PyFloat} {truncate : FloatText → Int}

theorem toInt_ofJson (hfloat : ∀ f, (float f).toInt = .ok (truncate f)) (v : Json) :
    match pyInt truncate v with
    | some n => (ofJson float v).toInt = .ok n
    | none => (ofJson float v).toInt = .error .typeError ∨ (ofJson float v).toInt = .error .valueError := by
  cases v with
  | null => exact .inl rfl
  | bool b => rfl
  | int n => rfl
  | float f => exact hfloat f
  | str s =>
    simp only [pyInt, ofJson, PyJson.toInt, PyStr.text?_ofText, Option.bind_some]
    cases parseInt s with
    | none => exact .inr rfl
    | some n => rfl
  | arr items => exact .inl rfl
  | obj members => exact .inl rfl

/-- Where no float is an infinity or NaN it is the loop of a file that a machine wrote. -/
theorem loadItems_ofMembers (hfloat : ∀ f, (float f).toInt = .ok (truncate f)) (members : List (String × Json))
    (shared : Dict String Int) : loadItems (ofMembers float members) shared = .ok (loadMembers truncate members shared) := by
  induction members generalizing shared with
  | nil => rfl
  | cons m members ih =>
    rcases m with ⟨k, v⟩
    have hint := toInt_ofJson hfloat v
    rw [ofMembers, loadItems, PyStr.text?_ofText, loadMembers]
    by_cases hk : shared.has k = true
    · rw [Option.filter_some_pos hk, if_pos hk]
      cases hv : pyInt truncate v with
      | some n =>
        rw [hv] at hint
        simp only [hint, ih]
      | none =>
        rw [hv] at hint
        rcases hint with hint | hint
        · simp only [hint, ih]
        · simp only [hint, ih]
    · rw [Option.filter_some_neg (Bool.eq_false_iff.mpr hk), if_neg hk]
      exact ih shared

end

/-! ## Machines -/

/-- `execute_texture` with its configuration, again and again. -/
def DictMachine.afterCalls {n : Nat} (vm : DictMachine n) (calls : List (Config × (String → File) × String)) : DictMachine n :=
  calls.foldl (fun vm c => (dictExecuteTexture c.1 c.2.1 c.2.2 vm).state) vm

/-- The slots are M0 to M7 and bytes, and A is a byte in every thread from now on. -/
structure StaysByte {n : Nat} (vm : DictMachine n) : Prop where
  slots : vm.shared.keys = (List.range 8).map memKey
  bytes : ∀ e ∈ vm.shared.entries, IsByte e.2
  later : ∀ calls, ∀ thread ∈ (vm.afterCalls calls).registers.entries, ∀ a, thread.2.get? "A" = some a → IsByte a

/-- The constructor returns, and its machine is safe. -/
def LoadsSafely (n : Nat) (content : Content) : Prop := ∃ vm, DictMachine.loaded n content = .ok vm ∧ StaysByte vm

/-- No value, or a dict of what can be loaded. -/
def Content.Loadable : Content → Prop
  | .missing | .unreadable => True
  | .document (.obj members) => ∀ e ∈ itemsOf members, Harmless e
  | .document _ => False

section

variable {n : Nat}

theorem loaded_view (n : Nat) (s : Fin 8 → Int) :
    ({ DictMachine.fresh n with shared := sharedView s } : DictMachine n) = Machine.view { shared := s } := by
  rw [fresh_view]
  rfl

theorem afterCalls_sound {m : Machine n} {frames : List Raster} (h : Sound frames m)
    (calls : List (Config × (String → File) × String)) :
    ∃ m' frames', m.view.afterCalls calls = Machine.view m' ∧ Sound frames' m' := by
  induction calls generalizing m frames with
  | nil => exact ⟨m, frames, rfl, h⟩
  | cons c calls ih =>
    rcases c with ⟨cfg, files, path⟩
    rcases call_sound cfg files path h with ⟨m', hview, hm'⟩
    rw [DictMachine.afterCalls, List.foldl_cons, hview]
    exact ih hm'

theorem staysByte_view {s : Fin 8 → Int} (hs : ∀ i, IsByte (s i)) :
    StaysByte ({ DictMachine.fresh n with shared := sharedView s } : DictMachine n) := by
  rw [loaded_view]
  have hsound : Sound [] ({ shared := s } : Machine n) :=
    ⟨⟨fun _ => ⟨isByte_zero, isByte_zero, isByte_zero⟩, hs⟩, fun _ => .inl rfl, fun _ hsaved => nomatch hsaved⟩
  refine ⟨keys_sharedView s, isByte_sharedView hs, ?_⟩
  intro calls thread ht a ha
  rcases afterCalls_sound hsound calls with ⟨m, frames, hview, hm⟩
  rw [hview] at ht
  rcases List.mem_map.mp ht with ⟨y, -, rfl⟩
  cases ha
  exact (hm.bytes.registers y).1

theorem loaded_eq (n : Nat) (content : Content) : DictMachine.loaded n content =
    (loadContent content (sharedView fun _ => 0)).map fun shared => { DictMachine.fresh n with shared } := by
  have hshared : (DictMachine.fresh n).shared = sharedView fun _ => 0 := by
    rw [fresh_view]
    rfl
  rw [DictMachine.loaded, hshared]

theorem safe_of_loadable {content : Content} (h : content.Loadable) : LoadsSafely n content := by
  have hload : ∃ s, loadContent content (sharedView fun _ => 0) = .ok (sharedView s) ∧ ∀ i, IsByte (s i) := by
    cases content with
    | missing => exact ⟨_, rfl, fun _ => isByte_zero⟩
    | unreadable => exact ⟨_, rfl, fun _ => isByte_zero⟩
    | document v =>
      cases v with
      | obj members => exact loads_harmless h fun _ => isByte_zero
      | null => cases h
      | bool b => cases h
      | int m => cases h
      | float f => cases h
      | str s => cases h
      | arr items => cases h
  rcases hload with ⟨s, hs, hb⟩
  exact ⟨_, by rw [loaded_eq, hs]; rfl, staysByte_view hb⟩

theorem loadable_of_safe {content : Content} (h : LoadsSafely n content) : content.Loadable := by
  rcases h with ⟨vm, hvm, hsafe⟩
  rw [loaded_eq] at hvm
  rcases except_map_ok hvm with ⟨shared, hload, rfl⟩
  cases content with
  | missing => trivial
  | unreadable => trivial
  | document v =>
    cases v with
    | obj members =>
      rcases loadItems_ok hload with ⟨s, rfl⟩
      refine harmless_of_loads (Dict.ofList members).nodup hload ?_
      intro i
      exact hsafe.bytes (memKey i, s i) (List.mem_map.mpr ⟨i, List.mem_finRange i, rfl⟩)
    | null => cases hload
    | bool b => cases hload
    | int m => cases hload
    | float f => cases hload
    | str s => cases hload
    | arr items => cases hload

/-- Loading is safe exactly where the file has no value or a dict of what can be loaded. -/
theorem loads_safely_iff (n : Nat) (content : Content) : LoadsSafely n content ↔ content.Loadable :=
  ⟨loadable_of_safe, safe_of_loadable⟩

/-- A list; an integer above a byte; an infinity. -/
theorem loads_unsafely : ¬LoadsSafely 1 (.document (.arr [])) ∧
    ¬LoadsSafely 1 (.document (.obj [(.ofText "M0", .int 300)])) ∧
    ¬LoadsSafely 1 (.document (.obj [(.ofText "M0", .float (.inf false))])) := by
  have hkey : PyStr.text? (PyStr.ofText "M0") = some (memKey (0 : Fin 8)) := PyStr.text?_ofText _
  refine ⟨fun h => loadable_of_safe h, ?_, ?_⟩
  · intro h
    have hv := loadable_of_safe h (.ofText "M0", .int 300) (List.mem_singleton.mpr rfl) 0 hkey
    exact absurd (hv.byte 300 rfl) (by decide)
  · intro h
    have hv := loadable_of_safe h (.ofText "M0", .float (.inf false)) (List.mem_singleton.mpr rfl) 0 hkey
    exact hv.finite false rfl

end

end PyxelVM.Vm
