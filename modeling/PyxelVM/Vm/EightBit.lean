/-
  PyxelVM.Vm.EightBit — the VM is an 8-bit machine on every reachable state.

  A machine is new, or new with the slots of a file that a machine wrote, and goes on by
  calls of `execute_texture`, over any files and maps, raising or not (`Reached`). In
  every state it comes to the slots are M0 to M7 and bytes, the threads are those it was
  made with, their registers A, B, OUT and T, the first three bytes and T a column of a
  frame executed so far (`eight_bit`).

  The states are dicts; the invariant is proved of the machine they show
  (`Vm.Dicts`): `dispatch_bytes` is the step, and the loops keep what their turns keep.
-/

import PyxelVM.Lib.Text
import PyxelVM.Vm.Bytes
import PyxelVM.Vm.Dicts

namespace PyxelVM.Vm

open PyxelVM.Lib

/-! ## The file -/

/-- `int(v)` of a JSON value, where it does not raise; `truncate` is `int` of a float. -/
def pyInt (truncate : FloatText → Int) : Json → Option Int
  | .bool b => some (if b then 1 else 0)
  | .int n => some n
  | .float f => some (truncate f)
  | .str s => parseInt s
  | .null | .arr _ | .obj _ => none

/-- The loop of `_load_shared`. -/
def loadMembers (truncate : FloatText → Int) : List (String × Json) → Dict String Int → Dict String Int
  | [], shared => shared
  | m :: ms, shared =>
    loadMembers truncate ms
      (if shared.has m.1 then
        match pyInt truncate m.2 with
        | some v => shared.set m.1 v
        | none => shared
      else shared)

/-- `_load_shared` from a file, if there is one; an AttributeError if it holds no object. -/
def loadShared (truncate : FloatText → Int) (file : Option (List UInt8)) (shared : Dict String Int) : Option (Dict String Int) :=
  match file with
  | none => some shared
  | some text =>
    match Json.loads text with
    | none => some shared
    | some (.obj members) => some (loadMembers truncate members shared)
    | some _ => none

theorem slotsText_begins (e : String × Int) (es : List (String × Int)) : Json.Begins (slotsText (e :: es)) := by
  obtain ⟨k, v⟩ := e
  cases es with
  | nil => exact ⟨_, _, rfl, by decide⟩
  | cons e es => exact ⟨_, _, rfl, by decide⟩

theorem skip_blank (cs : List Char) : Json.skip (' ' :: cs) = Json.skip cs := rfl

/-- The slots written are read. -/
theorem readMembers_slotsText (es : List (String × Int)) (k : Nat) (rest : List Char) (hne : es ≠ [])
    (hn : ∀ e ∈ es, (Json.int e.2).Normal) (hk : (slotsText es).length + 1 < k) :
    Json.readMembers k (slotsText es ++ '}' :: rest) = some (es.map fun e => (e.1, .int e.2), rest) := by
  induction es generalizing k with
  | nil => exact absurd rfl hne
  | cons e es ih =>
    obtain ⟨key, v⟩ := e
    obtain ⟨hv, hvs⟩ := List.forall_mem_cons.mp hn
    cases k with
    | zero => omega
    | succ k =>
      have hint : Json.text true (.int v) = Json.intText v := rfl
      cases es with
      | nil =>
        have hlen : (Json.text true (.int v)).length < k := by
          simp only [slotsText, Json.stringText, List.length_append, List.length_cons] at hk
          rw [hint]
          omega
        have hs := ((Json.text_begins true (.int v)).append ('}' :: rest)).skip
        simp only [slotsText, Json.stringText, List.cons_append, List.append_assoc, List.nil_append, Json.readMembers,
          Json.readString_text, Option.bind_some]
        show (Json.readValue k (Json.skip (' ' :: (Json.text true (.int v) ++ '}' :: rest)))).bind _ = _
        rw [skip_blank, hs, Json.readValue_text true (.int v) k _ hv hlen (Json.stops_cons rfl), Option.bind_some]
        show some ([(String.ofList key.toList, Json.int v)], rest) = _
        rw [String.ofList_toList]
        rfl
      | cons e es =>
        have hlen : (Json.text true (.int v)).length + (slotsText (e :: es)).length + 2 < k + 1 := by
          simp only [slotsText, List.length_append, List.length_cons] at hk
          rw [hint]
          omega
        have hs := ((Json.text_begins true (.int v)).append (',' :: ' ' :: (slotsText (e :: es) ++ '}' :: rest))).skip
        have hs' := ((slotsText_begins e es).append ('}' :: rest)).skip
        have hread := ih k (List.cons_ne_nil e es) hvs (by omega)
        simp only [slotsText, Json.stringText, List.cons_append, List.append_assoc, List.nil_append, Json.readMembers,
          Json.readString_text, Option.bind_some]
        show (Json.readValue k
          (Json.skip (' ' :: (Json.text true (.int v) ++ ',' :: ' ' :: (slotsText (e :: es) ++ '}' :: rest))))).bind
          _ = _
        rw [skip_blank, hs, Json.readValue_text true (.int v) k _ hv (by omega) (Json.stops_cons rfl), Option.bind_some]
        show (Json.readMembers k (Json.skip (' ' :: (slotsText (e :: es) ++ '}' :: rest)))).map _ = _
        rw [skip_blank, hs', hread, Option.map_some, String.ofList_toList]
        rfl

theorem loads_sharedText {shared : Dict String Int} (hne : shared.entries ≠ [])
    (hn : ∀ e ∈ shared.entries, (Json.int e.2).Normal) :
    Json.loads (sharedText shared) = some (.obj (shared.entries.map fun e => (e.1, .int e.2))) := by
  obtain ⟨e, es, hes⟩ := List.exists_cons_of_ne_nil hne
  have hbegins := (slotsText_begins e es).append ['}']
  rw [← hes] at hbegins
  have hread := readMembers_slotsText shared.entries ('{' :: (slotsText shared.entries ++ ['}'])).length [] hne hn (by simp)
  have hnodup : ((shared.entries.map fun e => (e.1, Json.int e.2)).map (·.1)).Nodup := by
    rw [List.map_map]
    exact shared.nodup
  have hskip : Json.skip ('{' :: (slotsText shared.entries ++ ['}'])) = '{' :: (slotsText shared.entries ++ ['}']) := rfl
  rw [Json.loads, sharedText, ofUtf8_utf8, Option.bind_some, String.toList_ofList, Json.parse, hskip,
    Json.readValue_obj hbegins, hread,
    Option.map_some, Option.bind_some, Dict.entries_ofList hnodup]
  rfl

/-- What was written of some slots is loaded into them. -/
theorem loadMembers_slots (truncate : FloatText → Int) (s : Fin 8 → Int) (is : List (Fin 8)) (shared : Fin 8 → Int) :
    loadMembers truncate (is.map fun i : Fin 8 => (memKey i, Json.int (s i))) (sharedView shared) =
      sharedView fun i => if i ∈ is then s i else shared i := by
  induction is generalizing shared with
  | nil => simp [loadMembers]
  | cons i is ih =>
    rw [List.map_cons, loadMembers, if_pos (slot_has shared i)]
    show loadMembers truncate _ ((sharedView shared).set (memKey i) (s i)) = _
    rw [sharedView_slot, ih]
    congr 1
    funext j
    by_cases hj : j = i
    · subst hj
      simp
    · simp [hj]

/-- A file of bytes gives the slots it was written from. -/
theorem loadShared_saved (truncate : FloatText → Int) {s : Fin 8 → Int} (hs : ∀ i, IsByte (s i)) (shared : Fin 8 → Int) :
    loadShared truncate (some (sharedText (sharedView s))) (sharedView shared) = some (sharedView s) := by
  have hn : ∀ e ∈ (sharedView s).entries, (Json.int e.2).Normal := by
    intro e he
    obtain ⟨i, -, rfl⟩ := List.mem_map.mp he
    have hlt : (s i).natAbs < 10 ^ 3 := by
      have h := hs i
      unfold IsByte at h
      omega
    exact ((Nat.length_toDigits_le_iff (by decide) (by decide)).mpr hlt).trans (by decide)
  have hmap : (sharedView s).entries.map (fun e => (e.1, Json.int e.2)) =
      (List.finRange 8).map fun i : Fin 8 => (memKey i, .int (s i)) := by
    rw [sharedView, Dict.tabulate, List.map_map]
    rfl
  simp only [loadShared, loads_sharedText (List.cons_ne_nil _ _) hn, hmap, loadMembers_slots]
  simp

/-! ## Machines over time -/

/-- A new machine. -/
def DictMachine.fresh (n : Nat) : DictMachine n where
  registers := Dict.ofList ((List.range n).map fun i => (threadKey i, Dict.ofList [("A", 0), ("B", 0), ("OUT", 0), ("T", 0)]))
  shared := Dict.ofList ((List.range 8).map fun i => (memKey i, 0))
  clock := 0
  nextFrame := none
  saved := none

/-- A new machine with `persist_shared`, where there is a file or none. -/
def DictMachine.restored (n : Nat) (truncate : FloatText → Int) (file : Option (List UInt8)) : Option (DictMachine n) :=
  (loadShared truncate file (DictMachine.fresh n).shared).map fun shared => { DictMachine.fresh n with shared, saved := file }

/-- The images a chain of frames comes to execute, from the one at `current`. -/
def framesOf {σ ε : Type} (single : String → σ → Outcome ε σ) (next : σ → Option String) (files : String → File) :
    Nat → String → σ → List Raster
  | 0, _, _ => []
  | k + 1, current, s =>
    match files current with
    | .missing | .notImage => []
    | .image img =>
      img :: match single current s with
        | .raised _ _ => []
        | .done s =>
          match next s with
          | none => []
          | some path =>
            match files path with
            | .missing => []
            | _ => framesOf single next files k path s

/-- The images `execute_texture` executes. -/
def DictMachine.frames {n : Nat} (cfg : Config) (files : String → File) (path : String) (m : DictMachine n) : List Raster :=
  framesOf (dictExecuteSingle cfg files) DictMachine.nextFrame files cfg.maxChain path m

/-- The machine is a state of some run, and the frames executed in it so far are these. -/
inductive Reached (truncate : FloatText → Int) : {n : Nat} → DictMachine n → List Raster → Prop where
  | fresh (n : Nat) : Reached truncate (DictMachine.fresh n) []
  | restored {k n : Nat} {m : DictMachine k} {m' : DictMachine n} {frames : List Raster} {text : List UInt8}
      (h : Reached truncate m frames) (hsaved : m.saved = some text)
      (hload : DictMachine.restored n truncate (some text) = some m') : Reached truncate m' []
  | call {n : Nat} {m : DictMachine n} {frames : List Raster} (cfg : Config) (files : String → File) (path : String)
      (h : Reached truncate m frames) :
      Reached truncate (dictExecuteTexture cfg files path m).state (frames ++ m.frames cfg files path)

theorem finRange_map {α : Type} (n : Nat) (f : Nat → α) :
    (List.finRange n).map (fun i : Fin n => f i) = (List.range n).map f := by
  rw [← List.map_coe_finRange_eq_range, List.map_map]
  rfl

theorem keys_sharedView (s : Fin 8 → Int) : (sharedView s).keys = (List.range 8).map memKey := by
  rw [sharedView, Dict.keys_tabulate, finRange_map 8 memKey]

theorem isByte_sharedView {s : Fin 8 → Int} (hs : ∀ i, IsByte (s i)) : ∀ e ∈ (sharedView s).entries, IsByte e.2 := by
  intro e he
  obtain ⟨i, -, rfl⟩ := List.mem_map.mp he
  exact hs i

theorem fresh_view (n : Nat) : DictMachine.fresh n = Machine.view {} := by
  have hthread : Dict.ofList [("A", (0 : Int)), ("B", 0), ("OUT", 0), ("T", 0)] = Regs.view {} := rfl
  have hshared : Dict.ofList ((List.range 8).map fun i => (memKey i, (0 : Int))) = sharedView fun _ => 0 := by
    apply Dict.ext
    rw [Dict.entries_ofList]
    · exact (finRange_map 8 _).symm
    · rw [List.map_map]
      exact (List.nodup_range).map memKey_injective
  have hregisters : Dict.ofList ((List.range n).map fun i => (threadKey i, Regs.view {})) =
      registersView fun _ : Fin n => {} := by
    apply Dict.ext
    rw [Dict.entries_ofList]
    · exact (finRange_map n _).symm
    · rw [List.map_map]
      exact (List.nodup_range).map threadKey_injective
  simp only [DictMachine.fresh, hthread, hshared, hregisters]
  rfl

theorem framesOf_lift {σ τ ε δ : Type} {e : ε → δ} {v : σ → τ} {single : String → σ → Outcome ε σ} {next : σ → Option String}
    {single' : String → τ → Outcome δ τ} {next' : τ → Option String}
    (hs : ∀ path s, single' path (v s) = (single path s).lift e v)
    (hn : ∀ s, next' (v s) = next s) (files : String → File) (k : Nat) (path : String) (s : σ) :
    framesOf single' next' files k path (v s) = framesOf single next files k path s := by
  induction k generalizing path s with
  | zero => rfl
  | succ k ih =>
    simp only [framesOf, hs]
    cases files path with
    | missing => rfl
    | notImage => rfl
    | image img =>
      cases single path s with
      | raised x s => rfl
      | done s =>
        simp only [Outcome.lift, hn]
        cases next s with
        | none => rfl
        | some p => cases files p <;> simp only [ih]

/-! ## The invariant -/

/-- A column of one of the frames, or 0. -/
def Tick (frames : List Raster) (t : Int) : Prop := t = 0 ∨ ∃ img ∈ frames, 0 ≤ t ∧ t < img.width

structure Sound {n : Nat} (frames : List Raster) (m : Machine n) : Prop where
  bytes : m.Bytes
  ticks : ∀ y, Tick frames (m.registers y).t
  saved : ∀ s, m.savedShared = some s → ∀ i, IsByte (s i)

variable {n : Nat} {cfg : Config} {img : Raster} {frames : List Raster}

theorem Sound.mono {m : Machine n} (h : Sound frames m) {frames' : List Raster} (hsub : frames ⊆ frames') : Sound frames' m :=
  ⟨h.bytes, fun y => (h.ticks y).imp_right fun ⟨img, hm, ht⟩ => ⟨img, hsub hm, ht⟩, h.saved⟩

/-- No instruction writes T. -/
theorem dispatch_t (y x : Nat) (p : Pixel) (c : Core) : (dispatch cfg img y x p c).state.regs.t = c.regs.t := by
  unfold dispatch
  cases cfg.opcode p.r with
  | none =>
    simp only
    repeat' split
    all_goals rfl
  | some op =>
    cases op with
    | setReg | setB | not | addThread | sub | mul | div | cmp | copyOut | halt => rfl
    | _ =>
      simp only
      repeat' split
      all_goals rfl

theorem visit_sound (y : Fin n) {f : Frame n} (himg : img ∈ frames) (hx : f.x < img.width) (h : Sound frames f.toMachine) :
    Sound frames (visit cfg img y f).state.toMachine ∧ (visit cfg img y f).state.x = f.x := by
  have htick : Sound frames (f.tick y).toMachine := by
    refine ⟨⟨?_, h.bytes.shared⟩, ?_, h.saved⟩
    · intro z
      by_cases hz : z = y
      · subst hz
        simpa [Frame.tick] using h.bytes.registers z
      · simpa [Frame.tick, hz] using h.bytes.registers z
    · intro z
      by_cases hz : z = y
      · subst hz
        refine .inr ⟨img, himg, ?_⟩
        simp [Frame.tick, hx]
      · simpa [Frame.tick, hz] using h.ticks z
  unfold visit
  split
  · exact ⟨h, rfl⟩
  split
  · exact ⟨⟨h.bytes, h.ticks, h.saved⟩, rfl⟩
  split
  · exact ⟨htick, rfl⟩
  · rename_i p _
    rw [Outcome.state_map]
    have hbytes := dispatch_bytes cfg img y f.x p (h.bytes.core y)
    have ht : (dispatch cfg img y f.x p ((f.tick y).core y)).state.regs.t = ((f.tick y).core y).regs.t := dispatch_t ..
    refine ⟨⟨h.bytes.withCore y hbytes, ?_, h.saved⟩, rfl⟩
    intro z
    have hz := htick.ticks z
    by_cases hzy : z = y
    · subst hzy
      have hcore : ((f.tick z).core z).regs.t = ((f.tick z).registers z).t := rfl
      rw [← hcore, ← ht] at hz
      simpa [Frame.withCore] using hz
    · simpa [Frame.withCore, hzy] using hz

theorem column_sound {f : Frame n} (himg : img ∈ frames) (hx : f.x < img.width) (h : Sound frames f.toMachine) :
    Sound frames (column cfg img f).state.toMachine := by
  refine Outcome.state_bind (P := fun f : Frame n => Sound frames f.toMachine) ?_ fun f hf => ⟨hf.bytes, hf.ticks, hf.saved⟩
  have hstart : Sound frames ({ f with clock := f.x, jumpTo := none } : Frame n).toMachine :=
    ⟨⟨h.bytes.registers, h.bytes.shared⟩, h.ticks, h.saved⟩
  refine (forEach_state (P := fun g : Frame n => Sound frames g.toMachine ∧ g.x < img.width) _ ?_ ⟨hstart, hx⟩).1
  intro y _ g hg
  obtain ⟨hs, hgx⟩ : Sound frames (visit cfg img y g).state.toMachine ∧ (visit cfg img y g).state.x = g.x :=
    visit_sound y himg hg.2 hg.1
  exact ⟨hs, hgx ▸ hg.2⟩

theorem runFrame_sound {m : Machine n} (himg : img ∈ frames) (path : String) (h : Sound frames m) :
    Sound frames (runFrame cfg path img m).state := by
  rw [runFrame, Outcome.state_map]
  refine Outcome.state_bind (P := fun f : Frame n => Sound frames f.toMachine) ?_ ?_
  · refine repeatWhile_state (P := fun f : Frame n => Sound frames f.toMachine) ?_ _
      ⟨⟨h.bytes.registers, h.bytes.shared⟩, h.ticks, h.saved⟩
    intro f hf hc
    exact column_sound himg (by simpa using hc) hf
  · intro f hf
    split <;> exact hf

theorem executeSingle_sound {m : Machine n} {files : String → File} {path : String}
    (himg : ∀ img, files path = .image img → img ∈ frames) (h : Sound frames m) :
    Sound frames (executeSingle cfg files path m).state := by
  unfold executeSingle
  cases hf : files path with
  | missing => exact h
  | notImage => exact h
  | image img => exact runFrame_sound (himg img hf) path h

theorem follow_sound {files : String → File} (k : Nat) {path : String} {m : Machine n}
    (hframes : framesOf (executeSingle cfg files) Machine.nextFrame files k path m ⊆ frames) (h : Sound frames m) :
    Sound frames (follow cfg files k path m).state := by
  induction k generalizing path m with
  | zero => exact h
  | succ k ih =>
    have hsingle : Sound frames (executeSingle cfg files path m).state := by
      apply executeSingle_sound _ h
      intro img hf
      apply hframes
      simp only [framesOf, hf]
      exact List.mem_cons_self ..
    unfold follow
    cases hrun : executeSingle cfg files path m with
    | raised e m' =>
      rw [hrun] at hsingle
      exact hsingle
    | done m' =>
      rw [hrun] at hsingle
      simp only [Outcome.bind_done]
      cases hnext : m'.nextFrame with
      | none => exact hsingle
      | some next =>
        have hrest : ∀ img, files path = .image img → ∀ file, files next = file → file ≠ .missing →
            framesOf (executeSingle cfg files) Machine.nextFrame files k next m' ⊆ frames := by
          intro img hf file hn hne
          refine List.Subset.trans ?_ hframes
          simp only [framesOf, hf, hrun, hnext, hn]
          cases file with
          | missing => exact absurd rfl hne
          | notImage => exact List.subset_cons_self _ _
          | image _ => exact List.subset_cons_self _ _
        have himg : ∃ img, files path = .image img := by
          unfold executeSingle at hrun
          cases hf : files path with
          | missing => rw [hf] at hrun; cases hrun
          | notImage => rw [hf] at hrun; cases hrun
          | image img => exact ⟨img, rfl⟩
        obtain ⟨img, himg⟩ := himg
        simp only
        cases hn : files next with
        | missing => exact hsingle
        | notImage => exact ih (hrest img himg _ hn (by simp)) hsingle
        | image _ => exact ih (hrest img himg _ hn (by simp)) hsingle

theorem executeTexture_sound {files : String → File} {path : String} {m : Machine n}
    (hframes : framesOf (executeSingle cfg files) Machine.nextFrame files cfg.maxChain path m ⊆ frames) (h : Sound frames m) :
    Sound frames (executeTexture cfg files path m).state := by
  refine Outcome.state_bind (follow_sound cfg.maxChain hframes h) ?_
  intro m hm
  show Sound frames (if cfg.persistShared then _ else m)
  split
  · exact ⟨⟨hm.bytes.registers, hm.bytes.shared⟩, hm.ticks, fun s hs => Option.some.inj hs ▸ hm.bytes.shared⟩
  · exact hm

/-! ## Every reachable state -/

theorem isByte_zero : IsByte 0 := by decide

/-- One call, of the dicts and of the machine they show. -/
theorem call_sound {m : Machine n} (cfg : Config) (files : String → File) (path : String) (h : Sound frames m) :
    ∃ m' : Machine n, (dictExecuteTexture cfg files path m.view).state = m'.view ∧ Sound (frames ++ m.view.frames cfg files path) m' := by
  refine ⟨(executeTexture cfg files path m).state, by rw [executeTexture_view, Outcome.state_lift], ?_⟩
  apply executeTexture_sound _ (h.mono (List.subset_append_left _ _))
  rw [DictMachine.frames, framesOf_lift (executeSingle_view files) fun _ => rfl]
  exact List.subset_append_right _ _

theorem reached_sound {truncate : FloatText → Int} {vm : DictMachine n} (h : Reached truncate vm frames) :
    ∃ m : Machine n, vm = m.view ∧ Sound frames m := by
  induction h with
  | fresh n =>
    exact ⟨{}, fresh_view n, ⟨fun _ => ⟨isByte_zero, isByte_zero, isByte_zero⟩, fun _ => isByte_zero⟩, fun _ => .inl rfl,
      fun _ hs => nomatch hs⟩
  | @restored k n _ m' frames text _ hsaved hload ih =>
    obtain ⟨m, rfl, hm⟩ := ih
    obtain ⟨s, hs, rfl⟩ := Option.map_eq_some_iff.mp hsaved
    have hbytes := hm.saved s hs
    have hfresh : (DictMachine.fresh n).shared = sharedView fun _ => 0 := by
      rw [fresh_view]
      rfl
    rw [DictMachine.restored, hfresh, loadShared_saved truncate hbytes, Option.map_some, fresh_view] at hload
    refine ⟨{ shared := s, savedShared := some s }, (Option.some.inj hload).symm,
      ⟨fun _ => ⟨isByte_zero, isByte_zero, isByte_zero⟩, hbytes⟩, fun _ => .inl rfl, ?_⟩
    intro s' hs'
    exact Option.some.inj hs' ▸ hbytes
  | @call n _ frames cfg files path _ ih =>
    obtain ⟨m, rfl, hm⟩ := ih
    exact call_sound cfg files path hm

/-- The dicts of an 8-bit machine. -/
structure EightBit {n : Nat} (frames : List Raster) (vm : DictMachine n) : Prop where
  slots : vm.shared.keys = (List.range 8).map memKey
  shared : ∀ e ∈ vm.shared.entries, IsByte e.2
  threads : vm.registers.keys = (List.range n).map threadKey
  names : ∀ thread ∈ vm.registers.entries, thread.2.keys = ["A", "B", "OUT", "T"]
  registers : ∀ thread ∈ vm.registers.entries, ∀ e ∈ thread.2.entries, if e.1 = "T" then Tick frames e.2 else IsByte e.2

/-- The VM is an 8-bit machine on every reachable state. -/
theorem eight_bit {truncate : FloatText → Int} {vm : DictMachine n} (h : Reached truncate vm frames) : EightBit frames vm := by
  obtain ⟨m, rfl, hm⟩ := reached_sound h
  refine ⟨keys_sharedView m.shared, isByte_sharedView hm.bytes.shared, ?_, ?_, ?_⟩
  · show (registersView m.registers).keys = _
    rw [registersView, Dict.keys_tabulate, finRange_map n threadKey]
  · intro thread ht
    obtain ⟨y, -, rfl⟩ := List.mem_map.mp ht
    rfl
  · intro thread ht e he
    obtain ⟨y, -, rfl⟩ := List.mem_map.mp ht
    obtain ⟨ha, hb, ho⟩ := hm.bytes.registers y
    simp only [Regs.view, List.mem_cons, List.not_mem_nil, or_false] at he
    rcases he with rfl | rfl | rfl | rfl
    · exact ha
    · exact hb
    · exact ho
    · exact hm.ticks y

/-- A cell that is a NOT. -/
def oneNot : Raster := ⟨1, 1, fun _ _ => ⟨12, 0, 0⟩⟩

/-- One thread runs a NOT. -/
theorem eight_bit_not : EightBit ((DictMachine.fresh 1).frames {} (fun _ => .image oneNot) "frame.png")
    (dictExecuteTexture {} (fun _ => .image oneNot) "frame.png" (.fresh 1)).state :=
  eight_bit (.call {} (fun _ => .image oneNot) "frame.png" (.fresh 1 : Reached (fun _ => 0) _ _))

end PyxelVM.Vm
