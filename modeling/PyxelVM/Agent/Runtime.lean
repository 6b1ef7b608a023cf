/-
  PyxelVM.Agent.Runtime — `ZDXAgentRuntime` (`zdx_agent_runtime.py`).

  A call executes the VM that is registered and remembers what it left: the slots, the
  registers and, after `run_spatial`, the layout, each with a `remember` of its own. The VM
  is any object: what executing a path leaves, and whether that can be copied, is the
  call's. So is which `remember` raises; one that raises leaves the entries as they were,
  as a full `SpatialPixelStore` does (`spatial_remember`). Entries carry the number of the
  call that wrote them.

  There is no snapshot of the three: `Untorn` says that those found are of one call.
  - `answer_memory`: a call overwrites the entries before the first `remember` that raises.
  - `untorn_iff`: along every sequence of calls, so, no state is torn exactly if each call
    that writes an entry overwrites all three as far as memory has them.
  - `torn_by_refusal`: a second run whose registers are refused leaves those of the first.
-/

import PyxelVM.Lib.Exec
import PyxelVM.Lib.Trace
import PyxelVM.Memory.SpatialStore

namespace PyxelVM.Agent

open PyxelVM.Lib
open PyxelVM.Memory (NormalJson SpatialPixelStore)
open PyxelVM.Spatial (SpatialLayout)
open PyxelVM.Vm (Raster)

/-! ## Objects -/

/-- A KeyError, a TypeError, an AttributeError, or what the VM or the memory raised. -/
inductive RuntimeError (ε : Type) where
  | key (message : String)
  | type (message : String)
  | attribute (name : String)
  | raised (e : ε)

/-- A VM after an execution: `vm.registers`, the two copies, and the layout's payload if there is a layout. -/
structure Left (V ε : Type) where
  registers : V
  sharedCopy : Except ε V
  registersCopy : Except ε V
  layout : Option (Except ε V)

structure Vm (V ε : Type) where
  executeTexture : String → Except ε (Left V ε)
  executeSpatial : Option (String → Except ε (Left V ε))

/-- What a registry has under a name. -/
inductive Obj (V ε : Type) where
  | vm (vm : Vm V ε)
  | memory
  | null
  | other

/-- An entry, and the call that wrote it. -/
structure Entry (V : Type) where
  run : Nat
  value : V
  deriving DecidableEq, Repr

abbrev AgentMemory (V : Type) := Dict String (Entry V)

variable {V ε : Type}

/-- `PyxelRegistry.get`. -/
def getObj (registry : Dict String (Obj V ε)) (name : String) : Except (RuntimeError ε) (Obj V ε) :=
  match registry.get? name with
  | some obj => .ok obj
  | none => .error (.key s!"PyxelRegistry: '{name}' is not registered.")

/-- `_memory`. -/
def getMemory (registry : Dict String (Obj V ε)) : Option (Obj V ε) := (getObj registry "memory").toOption

/-! ## Persisting -/

/-- `mem.remember(key, value)` in call `run`, where `fails` says which keys are refused. -/
def remember (fails : String → Option ε) (run : Nat) (key : String) (value : V) (m : AgentMemory V) :
    Outcome (RuntimeError ε) (AgentMemory V) :=
  match fails key with
  | some e => .raised (.raised e) m
  | none => .done (m.set key ⟨run, value⟩)

/-- The same of a value that is computed first. -/
def rememberPayload (fails : String → Option ε) (run : Nat) (p : String × Except ε V) (m : AgentMemory V) :
    Outcome (RuntimeError ε) (AgentMemory V) :=
  match p.2 with
  | .error e => .raised (.raised e) m
  | .ok value => remember fails run p.1 value m

/-- `_persist_state`. -/
def persistState (fails : String → Option ε) (run : Nat) (left : Left V ε) (mem : Option (Obj V ε))
    (spatialLayout : Option (Except ε V)) (m : AgentMemory V) : Outcome (RuntimeError ε) (AgentMemory V) :=
  match mem with
  | none | some .null => .done m
  | some .memory =>
    ((rememberPayload fails run ("shared_state", left.sharedCopy) m).bind fun m =>
      rememberPayload fails run ("register_state", left.registersCopy) m).bind fun m =>
        match spatialLayout with
        | none => .done m
        | some payload => rememberPayload fails run ("spatial_layout", payload) m
  | some _ => .raised (.attribute "remember") m

/-! ## Calls -/

/-- A call of `run` or `run_spatial`, with the registry as it is then. -/
structure Call (V ε : Type) where
  spatial : Bool
  path : String
  registry : Dict String (Obj V ε)
  fails : String → Option ε

/-- The registers, or what is raised, once the VM was executed. -/
def Call.persisted (c : Call V ε) (number : Nat) (m : AgentMemory V) (layout : Left V ε → Option (Except ε V)) :
    Except ε (Left V ε) → Except (RuntimeError ε) V × AgentMemory V
  | .error e => (.error (.raised e), m)
  | .ok left =>
    match persistState c.fails number left (getMemory c.registry) (layout left) m with
    | .done m => (.ok left.registers, m)
    | .raised e m => (.error e, m)

/-- `run`. -/
def Call.run (c : Call V ε) (number : Nat) (m : AgentMemory V) : Except (RuntimeError ε) V × AgentMemory V :=
  match getObj c.registry "vm" with
  | .error e => (.error e, m)
  | .ok (.vm vm) => c.persisted number m (fun _ => none) (vm.executeTexture c.path)
  | .ok _ => (.error (.attribute "execute_texture"), m)

/-- `run_spatial`. -/
def Call.runSpatial (c : Call V ε) (number : Nat) (m : AgentMemory V) : Except (RuntimeError ε) V × AgentMemory V :=
  let unsupported := (.error (.type "registered VM does not support spatial PNG execution"), m)
  match getObj c.registry "vm" with
  | .error e => (.error e, m)
  | .ok (.vm vm) =>
    match vm.executeSpatial with
    | none => unsupported
    | some executeSpatial => c.persisted number m Left.layout (executeSpatial c.path)
  | .ok _ => unsupported

def Call.answer (c : Call V ε) (number : Nat) (m : AgentMemory V) : Except (RuntimeError ε) V × AgentMemory V :=
  if c.spatial then c.runSpatial number m else c.run number m

/-- The number of calls made, and memory after them. -/
def advance (s : Nat × AgentMemory V) (c : Call V ε) : Nat × AgentMemory V := (s.1 + 1, (c.answer s.1 s.2).2)

def afterCalls (calls : List (Call V ε)) : Nat × AgentMemory V := calls.foldl advance (0, .empty)

/-! ## Snapshots -/

def snapshotKeys : List String := ["shared_state", "register_state", "spatial_layout"]

/-- The entries found come from one call. -/
def Untorn (m : AgentMemory V) : Prop := ∃ run, ∀ key ∈ snapshotKeys, ∀ e, m.get? key = some e → e.run = run

/-- What the VM left, if it was executed. -/
def Call.left? (c : Call V ε) : Option (Left V ε) :=
  match c.registry.get? "vm" with
  | some (.vm vm) =>
    if c.spatial then vm.executeSpatial.bind fun executeSpatial => (executeSpatial c.path).toOption
    else (vm.executeTexture c.path).toOption
  | _ => none

/-- What is to be remembered, in its order. -/
def toRemember (mem : Option (Obj V ε)) (left : Left V ε) (spatialLayout : Option (Except ε V)) : List (String × Except ε V) :=
  match mem with
  | some .memory =>
    ("shared_state", left.sharedCopy) :: ("register_state", left.registersCopy) ::
      (spatialLayout.map fun payload => ("spatial_layout", payload)).toList
  | _ => []

def Call.payloads (c : Call V ε) : List (String × Except ε V) :=
  match c.left? with
  | some left => toRemember (getMemory c.registry) left (if c.spatial then left.layout else none)
  | none => []

/-- A payload that is computed and not refused. -/
def accepted (fails : String → Option ε) (p : String × Except ε V) : Bool := (fails p.1).isNone && p.2.isOk

/-- The entries the call writes. -/
def Call.written (c : Call V ε) : List String := (c.payloads.takeWhile (accepted c.fails)).map (·.1)

/-- The call writes nothing, or every one of the three entries that memory has. -/
def Call.Overwrites (c : Call V ε) (m : AgentMemory V) : Prop :=
  c.written = [] ∨ ∀ key ∈ snapshotKeys, m.has key = true → key ∈ c.written

/-! ## What a call writes -/

theorem persistState_state (fails : String → Option ε) (run : Nat) (left : Left V ε) (mem : Option (Obj V ε))
    (spatialLayout : Option (Except ε V)) (m : AgentMemory V) :
    (persistState fails run left mem spatialLayout m).state =
      (forEach (rememberPayload fails run) (toRemember mem left spatialLayout) m).state := by
  cases mem with
  | none => rfl
  | some obj =>
    cases obj with
    | memory =>
      simp only [persistState, toRemember, forEach]
      cases rememberPayload fails run ("shared_state", left.sharedCopy) m with
      | raised e m => rfl
      | done m =>
        simp only [Outcome.bind_done]
        cases rememberPayload fails run ("register_state", left.registersCopy) m with
        | raised e m => rfl
        | done m =>
          cases spatialLayout with
          | none => rfl
          | some payload =>
            simp only [Outcome.bind_done, Option.map_some, Option.toList_some, forEach]
            cases rememberPayload fails run ("spatial_layout", payload) m <;> rfl
    | _ => rfl

theorem persisted_memory (c : Call V ε) (number : Nat) (m : AgentMemory V) (layout : Left V ε → Option (Except ε V))
    (o : Except ε (Left V ε)) :
    (c.persisted number m layout o).2 = (forEach (rememberPayload c.fails number)
      ((o.toOption.map fun left => toRemember (getMemory c.registry) left (layout left)).getD []) m).state := by
  cases o with
  | error e => rfl
  | ok left =>
    have h := persistState_state c.fails number left (getMemory c.registry) (layout left) m
    simp only [Call.persisted, Except.toOption, Option.map_some, Option.getD_some, ← h]
    cases persistState c.fails number left (getMemory c.registry) (layout left) m <;> rfl

/-- A call remembers its payloads up to the first that raises. -/
theorem answer_memory (c : Call V ε) (number : Nat) (m : AgentMemory V) :
    (c.answer number m).2 = (forEach (rememberPayload c.fails number) c.payloads m).state := by
  have hpayloads : c.payloads = (c.left?.map fun left =>
      toRemember (getMemory c.registry) left (if c.spatial then left.layout else none)).getD [] := by
    unfold Call.payloads
    cases c.left? <;> rfl
  rw [hpayloads]
  unfold Call.answer Call.left? Call.run Call.runSpatial getObj
  cases c.registry.get? "vm" with
  | none => split <;> rfl
  | some obj =>
    cases obj with
    | vm vm =>
      cases c.spatial with
      | false => exact persisted_memory c number m (fun _ => none) _
      | true =>
        cases he : vm.executeSpatial with
        | none => simp only [he]; rfl
        | some executeSpatial =>
          simp only [he]
          exact persisted_memory c number m Left.layout _
    | _ => split <;> rfl

/-- A payload that is accepted becomes the entry; else there is an exception, and no change. -/
theorem rememberPayload_accepted (fails : String → Option ε) (run : Nat) (p : String × Except ε V) (m : AgentMemory V) :
    if accepted fails p then ∃ value, rememberPayload fails run p m = .done (m.set p.1 ⟨run, value⟩)
    else ∃ e, rememberPayload fails run p m = .raised e m := by
  obtain ⟨key, payload⟩ := p
  unfold accepted rememberPayload remember
  cases payload with
  | error e =>
    rw [if_neg (by simp [Except.isOk, Except.toBool])]
    exact ⟨_, rfl⟩
  | ok value =>
    simp only [Except.isOk, Except.toBool, Bool.and_true]
    cases fails key with
    | none => exact ⟨value, rfl⟩
    | some e => exact ⟨_, rfl⟩

/-- The entries written are of this call, the others are as they were. -/
theorem get?_remembered (fails : String → Option ε) (run : Nat) (ps : List (String × Except ε V)) (m : AgentMemory V)
    (key : String) :
    (key ∈ (ps.takeWhile (accepted fails)).map (·.1) →
        ∃ value, (forEach (rememberPayload fails run) ps m).state.get? key = some ⟨run, value⟩) ∧
      (key ∉ (ps.takeWhile (accepted fails)).map (·.1) →
        (forEach (rememberPayload fails run) ps m).state.get? key = m.get? key) := by
  induction ps generalizing m with
  | nil => exact ⟨fun h => (nomatch h), fun _ => rfl⟩
  | cons p ps ih =>
    have hp := rememberPayload_accepted fails run p m
    by_cases ha : accepted fails p = true
    · rw [if_pos ha] at hp
      obtain ⟨value, hrun⟩ := hp
      obtain ⟨hin, hout⟩ := ih (m.set p.1 ⟨run, value⟩)
      rw [List.takeWhile_cons_of_pos ha, List.map_cons, forEach, hrun, Outcome.bind_done]
      refine ⟨fun hk => ?_, fun hk => ?_⟩
      · by_cases hrest : key ∈ (ps.takeWhile (accepted fails)).map (·.1)
        · exact hin hrest
        · obtain rfl := (List.mem_cons.mp hk).resolve_right hrest
          exact ⟨value, (hout hrest).trans (Dict.get?_set_self ..)⟩
      · obtain ⟨hne, hrest⟩ := not_or.mp (List.mem_cons.not.mp hk)
        exact (hout hrest).trans (Dict.get?_set_of_ne m hne _)
    · rw [if_neg ha] at hp
      obtain ⟨e, hrun⟩ := hp
      rw [List.takeWhile_cons_of_neg ha, forEach, hrun]
      exact ⟨fun h => (nomatch h), fun _ => rfl⟩

theorem written_subset (c : Call V ε) {key : String} (h : key ∈ c.written) : key ∈ snapshotKeys := by
  have hkeys : ∀ p ∈ c.payloads, p.1 ∈ snapshotKeys := by
    unfold Call.payloads toRemember
    intro p hp
    split at hp
    · split at hp
      · simp only [List.mem_cons, Option.mem_toList, Option.map_eq_some_iff] at hp
        rcases hp with rfl | rfl | ⟨payload, -, rfl⟩ <;> simp [snapshotKeys]
      · cases hp
    · cases hp
  obtain ⟨p, hp, rfl⟩ := List.mem_map.mp h
  exact hkeys p (List.takeWhile_subset _ hp)

/-! ## A memory -/

/-- The store's file holds memory's values. -/
def Shows (path : String) (layout : SpatialLayout) (start : Raster) (files : Memory.Files) (m : AgentMemory Json) : Prop :=
  ∃ img d, files path = .image img ∧ Memory.Holds layout start img d ∧ ∀ key, d.get? key = (m.get? key).map Entry.value

/-- `SpatialPixelStore.write` is a `remember`: it sets its key, or it raises and there is no new file. -/
theorem spatial_remember {path : String} {layout : SpatialLayout} {start : Raster} {files : Memory.Files} {m : AgentMemory Json}
    (hpos : 0 < layout.storageCapacityBytes) (h : Shows path layout start files m) (run : Nat) (key : String)
    (value : NormalJson) :
    ∃ fails : String → Option Memory.StoreError,
      match SpatialPixelStore.write ⟨path, layout⟩ key value.1 files with
      | .ok (_, files') => fails key = none ∧ Shows path layout start files' (remember fails run key value.1 m).state
      | .error e => fails key = some e ∧ Shows path layout start files (remember fails run key value.1 m).state := by
  obtain ⟨img, d, hf, hd, hget⟩ := h
  have hrun : Memory.Meets path layout start (.path path, d.set key value.1)
      ((SpatialPixelStore.write ⟨path, layout⟩ key value.1 files).map fun r => (.path r.1, r.2)) :=
    Memory.call_run hpos hd hf (.write key value)
  unfold Memory.Meets at hrun
  cases hw : SpatialPixelStore.write ⟨path, layout⟩ key value.1 files with
  | error e => exact ⟨fun _ => some e, rfl, img, d, hf, hd, hget⟩
  | ok r =>
    obtain ⟨p, files'⟩ := r
    rw [hw] at hrun
    split at hrun
    · obtain ⟨files₁, img', hok, hf', hd'⟩ := hrun
      cases hok
      refine ⟨fun _ => none, rfl, img', d.set key value.1, hf', hd', fun k => ?_⟩
      show _ = ((m.set key ⟨run, value.1⟩).get? k).map Entry.value
      rw [Dict.get?_set, Dict.get?_set]
      split
      · rfl
      · exact hget k
    · obtain ⟨e, he⟩ := hrun
      cases he

/-! ## Every sequence of calls -/

/-- Memory is not torn, and its entries are of calls that were made. -/
structure Numbered (s : Nat × AgentMemory V) : Prop where
  untorn : Untorn s.2
  made : ∀ key e, s.2.get? key = some e → e.run < s.1

/-- After a call memory is not torn exactly if the call overwrote what it had to. -/
theorem step_untorn {s : Nat × AgentMemory V} (h : Numbered s) (c : Call V ε) :
    (Untorn (advance s c).2 → c.Overwrites s.2) ∧ (c.Overwrites s.2 → Numbered (advance s c)) := by
  obtain ⟨number, m⟩ := s
  have hget (key : String) := get?_remembered c.fails number c.payloads m key
  simp only [← answer_memory c number m] at hget
  refine ⟨fun huntorn => ?_, fun hover => ⟨?_, fun key e he => ?_⟩⟩
  · obtain ⟨run, hrun⟩ := huntorn
    by_contra hnot
    obtain ⟨hne, hleft⟩ := not_or.mp hnot
    push Not at hleft
    obtain ⟨key, hkey, hhas, hkept⟩ := hleft
    obtain ⟨first, hfirst⟩ := List.exists_mem_of_ne_nil _ hne
    obtain ⟨value, hvalue⟩ := (hget first).1 hfirst
    obtain ⟨e, he⟩ := Dict.has_iff.mp hhas
    have hnew : number = run := hrun first (written_subset c hfirst) _ hvalue
    have hold : e.run = run := hrun key hkey e (((hget key).2 hkept).trans he)
    have hmade : e.run < number := h.made key e he
    omega
  · rcases hover with hnone | hall
    · obtain ⟨run, hrun⟩ := h.untorn
      refine ⟨run, fun key hkey e he => hrun key hkey e ?_⟩
      have hkept : key ∉ c.written := by simp [hnone]
      exact ((hget key).2 hkept).symm.trans he
    · refine ⟨number, fun key hkey e he => ?_⟩
      by_cases hw : key ∈ c.written
      · obtain ⟨value, hvalue⟩ := (hget key).1 hw
        rw [show (c.answer number m).2.get? key = some e from he] at hvalue
        cases hvalue
        rfl
      · have hm : m.get? key = some e := ((hget key).2 hw).symm.trans he
        exact absurd (hall key hkey (Dict.has_iff.mpr ⟨e, hm⟩)) hw
  · show e.run < number + 1
    by_cases hw : key ∈ c.written
    · obtain ⟨value, hvalue⟩ := (hget key).1 hw
      rw [show (c.answer number m).2.get? key = some e from he] at hvalue
      cases hvalue
      exact Nat.lt_succ_self _
    · have hm : m.get? key = some e := ((hget key).2 hw).symm.trans he
      exact Nat.lt_succ_of_lt (h.made key e hm)

theorem numbered_start : Numbered ((0, .empty) : Nat × AgentMemory V) :=
  ⟨⟨0, fun _ _ _ he => (nomatch he)⟩, fun _ _ he => (nomatch he)⟩

/-- Along every sequence of `run` and `run_spatial`: no state is torn exactly if each call writes
    nothing, or all of the three entries that memory has. -/
theorem untorn_iff (calls : List (Call V ε)) :
    (∀ past, past <+: calls → Untorn (afterCalls past).2) ↔
      ∀ past c, past ++ [c] <+: calls → c.Overwrites (afterCalls past).2 :=
  Trace.prefixes_iff (f := advance) (P := Numbered) (Q := fun s => Untorn s.2) (C := fun s c => c.Overwrites s.2)
    (fun _ h => h.untorn) (fun _ c h _ => step_untorn h c) numbered_start (fun _ _ => trivial : ∀ c ∈ calls, True)

/-- A VM that leaves the number, and has a layout for `run_spatial`. -/
def counter (left : Nat) : Vm Nat Unit :=
  let shown : Left Nat Unit := ⟨left, .ok left, .ok left, some (.ok left)⟩
  ⟨fun _ => .ok shown, some fun _ => .ok shown⟩

/-- A run of the VM, in which memory refuses the keys. -/
def runOf (left : Nat) (refused : List String) : Call Nat Unit where
  spatial := false
  path := "frame.png"
  registry := Dict.ofList [("vm", .vm (counter left)), ("memory", .memory)]
  fails key := if key ∈ refused then some () else none

/-- Of two runs the second's registers are refused: its slots are found beside the first one's registers. -/
theorem torn_by_refusal : ¬∀ calls : List (Call Nat Unit), Untorn (afterCalls calls).2 := by
  intro h
  obtain ⟨run, hrun⟩ := h [runOf 7 [], runOf 8 ["register_state"]]
  have hshared := hrun "shared_state" (by decide) ⟨1, 8⟩ (by decide +kernel)
  have hregisters := hrun "register_state" (by decide) ⟨0, 7⟩ (by decide +kernel)
  simp only at hshared hregisters
  omega

end PyxelVM.Agent
