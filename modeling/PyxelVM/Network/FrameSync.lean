/-
  PyxelVM.Network.FrameSync — frames known by their hash (`zdx_sync.py`).

  Nodes have files of their own, which change, and a `FrameSync` each. A node registers
  a frame by its path; an announcement also sends the hash to the others, where it is
  delivered late, again and out of order. SHA-256 is a parameter: a state that takes
  bytes in pieces (`Hasher`), as `checksum` reads the file in pieces.

  - `checksum_eq`: the pieces do not matter, so `checksum` is the hash of the bytes.
  - `accepts_iff`: under a hash a node has the path of its last call for a file that had
    this hash then, a call that raised for its layout included (`frames_after`); and it
    accepts an announced frame exactly if it has itself registered the same bytes before,
    whatever became of the files since.
-/

import Mathlib.Data.List.Induction
import PyxelVM.Lib.Hex
import PyxelVM.Lib.Trace
import PyxelVM.Network.Framing
import PyxelVM.Network.Workload

namespace PyxelVM.Network

open Function (update)
open PyxelVM.Lib

/-! ## The hash -/

/-- `hashlib.sha256()`. -/
structure Hasher where
  State : Type
  init : State
  update : State → List UInt8 → State
  hexdigest : State → String

/-- Feeding two pieces is feeding them joined. -/
structure Hasher.Streams (h : Hasher) : Prop where
  nil : ∀ s, h.update s [] = s
  append : ∀ s a b, h.update (h.update s a) b = h.update s (a ++ b)

/-- `hashlib.sha256(data).hexdigest()`. -/
def Hasher.digest (h : Hasher) (data : List UInt8) : String := h.hexdigest (h.update h.init data)

def chunkSize : Nat := 1024 * 1024

/-- `for chunk in iter(lambda: f.read(1024 * 1024), b"")`. -/
def readChunks (h : Hasher) (s : h.State) (data : List UInt8) : h.State :=
  if data = [] then s else readChunks h (h.update s (data.take chunkSize)) (data.drop chunkSize)
termination_by data.length
decreasing_by
  rename_i hne
  have hpos := List.length_pos_iff.mpr hne
  rw [List.length_drop, chunkSize]
  omega

def checksum (h : Hasher) (data : List UInt8) : String := h.hexdigest (readChunks h h.init data)

theorem readChunks_eq {h : Hasher} (hs : h.Streams) (s : h.State) (data : List UInt8) :
    readChunks h s data = h.update s data := by
  induction s, data using readChunks.induct h with
  | case1 s =>
    rw [readChunks, if_pos rfl, hs.nil]
  | case2 s data hne ih =>
    rw [readChunks, if_neg hne, ih, hs.append, List.take_append_drop]

theorem checksum_eq {h : Hasher} (hs : h.Streams) (data : List UInt8) : checksum h data = h.digest data := by
  rw [checksum, readChunks_eq hs, Hasher.digest]

/-! ## `FrameSync` -/

structure FrameMetadata where
  executionModel : String
  spatialLayout : Json
  deriving DecidableEq

structure FrameSync where
  frames : Dict String String := .empty
  frameMetadata : Dict String FrameMetadata := .empty

/-- The file cannot be opened, `_normalize_layout` raised, or a KeyError. -/
inductive SyncError where
  | noFile (path : String)
  | manifest (e : ManifestError)
  | key (digest : String)
  deriving DecidableEq

abbrev Files := String → Option (List UInt8)

/-- `os.path.basename(path)`. -/
def basename (path : String) : String := String.ofList (path.toList.reverse.takeWhile (· ≠ '/')).reverse

namespace FrameSync

def register (h : Hasher) (files : Files) (path : String) (layout : LayoutArg) (s : FrameSync) :
    Except SyncError String × FrameSync :=
  match files path with
  | none => (.error (.noFile path), s)
  | some data =>
    let digest := checksum h data
    let s := { s with frames := s.frames.set digest path }
    match normalizeLayout layout with
    | .error e => (.error (.manifest e), s)
    | .ok v =>
      let metadata : FrameMetadata := ⟨if v = .null then "pixel-frame" else "spatial-png", v⟩
      (.ok digest, { s with frameMetadata := s.frameMetadata.set digest metadata })

theorem zero_isFloatText : isFloatText ['0', '.', '0'] = true := by decide

/-- `ZDXMessage(kind, payload)`, before it is filled in. -/
def messageOf (kind : String) (payload : Json) : ZDXMessage where
  kind := .str kind
  payload := payload
  timestamp := .float ⟨['0', '.', '0'], zero_isFloatText⟩

/-- The message of a registered frame. -/
def announcement (path digest : String) (metadata : FrameMetadata) : ZDXMessage :=
  messageOf "frame_announce" (.obj ([("sha256", .str digest), ("filename", .str (basename path)),
      ("execution_model", .str metadata.executionModel)] ++
    if metadata.spatialLayout = .null then [] else [("spatial_version", .int 1), ("spatial_layout", metadata.spatialLayout)]))

def announce (h : Hasher) (files : Files) (path : String) (layout : LayoutArg) (s : FrameSync) :
    Except SyncError ZDXMessage × FrameSync :=
  match s.register h files path layout with
  | (.error e, s) => (.error e, s)
  | (.ok digest, s) =>
    match s.frameMetadata.get? digest with
    | none => (.error (.key digest), s)
    | some metadata => (.ok (announcement path digest metadata), s)

def verify (h : Hasher) (files : Files) (path expectedHash : String) : Except SyncError Bool :=
  match files path with
  | none => .error (.noFile path)
  | some data => .ok (checksum h data = expectedHash)

def requestMissing (sha256 : String) : ZDXMessage := messageOf "frame_request" (.obj [("sha256", .str sha256)])

/-- A payload that is no dict raises an AttributeError, a hash that is a list or a dict a TypeError. -/
def accept (s : FrameSync) (message : ZDXMessage) : Option Bool :=
  if message.kind ≠ .str "frame_announce" then some false
  else
    match message.payload with
    | .obj members =>
      match members.lookup "sha256" with
      | some (.str digest) => some (s.frames.has digest)
      | some (.arr _) | some (.obj _) => none
      | _ => some false
    | _ => none

end FrameSync

/-! ## Nodes -/

structure SyncNode where
  sync : FrameSync := {}
  files : Files := fun _ => none

/-- The nodes by their ids, and what they have announced. -/
structure SyncNet where
  nodes : String → SyncNode := fun _ => {}
  sent : List ZDXMessage := []

inductive SyncEvent where
  | write (node path : String) (data : List UInt8)
  | remove (node path : String)
  | register (node path : String) (layout : LayoutArg)
  | announce (node path : String) (layout : LayoutArg)
  /-- A message that was sent reaches the node; it may again. -/
  | deliver (node : String) (message : Nat)

/-- What `accept` answers a message that is delivered, and the nodes then. -/
def SyncNet.step (h : Hasher) (net : SyncNet) : SyncEvent → Option Bool × SyncNet
  | .write node path data =>
    let n := net.nodes node
    (none, { net with nodes := update net.nodes node { n with files := update n.files path (some data) } })
  | .remove node path =>
    let n := net.nodes node
    (none, { net with nodes := update net.nodes node { n with files := update n.files path none } })
  | .register node path layout =>
    let n := net.nodes node
    (none, { net with nodes := update net.nodes node { n with sync := (n.sync.register h n.files path layout).2 } })
  | .announce node path layout =>
    let n := net.nodes node
    let r := n.sync.announce h n.files path layout
    (none, ⟨update net.nodes node { n with sync := r.2 }, net.sent ++ r.1.toOption.toList⟩)
  | .deliver node message => ((net.sent[message]?).bind (net.nodes node).sync.accept, net)

def netAfter (h : Hasher) (events : List SyncEvent) : SyncNet := Trace.final (SyncNet.step h) {} events

/-! ## What was registered -/

/-- A call for a file: the node, the path, and the bytes there then. -/
structure Registration where
  node : String
  path : String
  data : List UInt8
  deriving DecidableEq

/-- The files, what was registered, and the bytes of the frames announced. -/
structure SyncHistory where
  files : String → Files := fun _ _ => none
  registered : List Registration := []
  announced : List (List UInt8) := []

def SyncHistory.step (t : SyncHistory) : SyncEvent → SyncHistory
  | .write node path data => { t with files := update t.files node (update (t.files node) path (some data)) }
  | .remove node path => { t with files := update t.files node (update (t.files node) path none) }
  | .register node path _ =>
    { t with registered := t.registered ++ (t.files node path).toList.map fun data => ⟨node, path, data⟩ }
  | .announce node path layout =>
    { t with
      registered := t.registered ++ (t.files node path).toList.map fun data => ⟨node, path, data⟩
      announced := t.announced ++ if (normalizeLayout layout).isOk then (t.files node path).toList else [] }
  | .deliver _ _ => t

def historyOf (events : List SyncEvent) : SyncHistory := events.foldl SyncHistory.step {}

/-- The path under which a node last registered bytes with this hash. -/
def pathOf (h : Hasher) (registered : List Registration) (node digest : String) : Option String :=
  ((registered.filter fun r => r.node = node ∧ h.digest r.data = digest).getLast?).map Registration.path

/-- The message announces these bytes. -/
structure Announces (h : Hasher) (message : ZDXMessage) (data : List UInt8) : Prop where
  kind : message.kind = .str "frame_announce"
  hash : ∃ members, message.payload = .obj members ∧ members.lookup "sha256" = some (.str (h.digest data))

/-- The nodes have recorded what was registered. -/
structure FramesRecorded (h : Hasher) (net : SyncNet) (t : SyncHistory) : Prop where
  files : ∀ node, (net.nodes node).files = t.files node
  frames : ∀ node digest, (net.nodes node).sync.frames.get? digest = pathOf h t.registered node digest
  sent : List.Forall₂ (Announces h) net.sent t.announced

/-! ## One event -/

section

variable {h : Hasher} {net : SyncNet} {t : SyncHistory}

theorem pathOf_concat (registered : List Registration) (r : Registration) (node digest : String) :
    pathOf h (registered ++ [r]) node digest =
      if r.node = node ∧ h.digest r.data = digest then some r.path else pathOf h registered node digest := by
  unfold pathOf
  rw [List.filter_append]
  by_cases hr : r.node = node ∧ h.digest r.data = digest
  · rw [if_pos hr, List.filter_cons_of_pos (by simpa using hr), List.filter_nil, List.getLast?_concat, Option.map_some]
  · rw [if_neg hr, List.filter_cons_of_neg (by simpa using hr), List.filter_nil, List.append_nil]

theorem register_frames (hs : h.Streams) (files : Files) (path : String) (layout : LayoutArg) (s : FrameSync) :
    (s.register h files path layout).2.frames =
      match files path with
      | none => s.frames
      | some data => s.frames.set (h.digest data) path := by
  unfold FrameSync.register
  cases files path with
  | none => rfl
  | some data =>
    simp only [checksum_eq hs]
    cases normalizeLayout layout <;> rfl

theorem announce_sync (files : Files) (path : String) (layout : LayoutArg) (s : FrameSync) :
    (s.announce h files path layout).2 = (s.register h files path layout).2 := by
  unfold FrameSync.announce
  obtain ⟨e | digest, s'⟩ := s.register h files path layout
  · rfl
  · simp only
    split <;> rfl

/-- What is announced are the bytes that are registered, with the layout of the call. -/
theorem announce_message (hs : h.Streams) (files : Files) (path : String) (layout : LayoutArg) (s : FrameSync) :
    List.Forall₂ (Announces h) (s.announce h files path layout).1.toOption.toList
      (if (normalizeLayout layout).isOk then (files path).toList else []) := by
  unfold FrameSync.announce FrameSync.register
  cases files path with
  | none =>
    simp only [Option.toList_none, ite_self]
    exact .nil
  | some data =>
    cases normalizeLayout layout with
    | error e => exact .nil
    | ok v =>
      -- the metadata looked up has just been recorded
      simp only [Dict.get?_set_self]
      exact .cons ⟨rfl, _, rfl, by rw [← checksum_eq hs]; rfl⟩ .nil

/-- A call for a file is recorded at its node. -/
theorem frames_registered (hs : h.Streams) (hr : FramesRecorded h net t) (node path : String) (layout : LayoutArg)
    (other digest : String) :
    ((update net.nodes node { net.nodes node with
        sync := ((net.nodes node).sync.register h (net.nodes node).files path layout).2 }) other).sync.frames.get? digest =
      pathOf h (t.registered ++ (t.files node path).toList.map fun data => ⟨node, path, data⟩) other digest := by
  have hframes := register_frames hs (net.nodes node).files path layout (net.nodes node).sync
  rw [hr.files node] at hframes
  by_cases ho : other = node
  · subst ho
    rw [Function.update_self, hr.files other, hframes]
    cases hdata : t.files other path with
    | none => simpa using hr.frames other digest
    | some data =>
      simp only [Option.toList_some, List.map_cons, List.map_nil, pathOf_concat, true_and, Dict.get?_set, eq_comm (a := digest),
        hr.frames]
  · rw [Function.update_of_ne ho, hr.frames]
    cases t.files node path with
    | none => simp
    | some data =>
      simp only [Option.toList_some, List.map_cons, List.map_nil, pathOf_concat, Ne.symm ho, false_and, if_false]

theorem update_files (hr : FramesRecorded h net t) (node path : String) (entry : Option (List UInt8)) (other : String) :
    ((update net.nodes node { net.nodes node with files := update (net.nodes node).files path entry }) other).files =
      (update t.files node (update (t.files node) path entry)) other := by
  by_cases ho : other = node
  · subst ho
    simp [hr.files]
  · simp [ho, hr.files]

theorem update_sync (node : String) (sync : FrameSync) (other : String) :
    ((update net.nodes node { net.nodes node with sync }) other).files = (net.nodes other).files := by
  by_cases ho : other = node
  · subst ho
    simp
  · simp [ho]

theorem update_frames (node : String) (files : Files) (other : String) :
    ((update net.nodes node { net.nodes node with files }) other).sync = (net.nodes other).sync := by
  by_cases ho : other = node
  · subst ho
    simp
  · simp [ho]

theorem framesRecorded_step (hs : h.Streams) (hr : FramesRecorded h net t) (e : SyncEvent) :
    FramesRecorded h (net.step h e).2 (t.step e) := by
  cases e with
  | write node path data =>
    refine ⟨update_files hr node path (some data), fun other digest => ?_, hr.sent⟩
    simp only [SyncNet.step, update_frames]
    exact hr.frames other digest
  | remove node path =>
    refine ⟨update_files hr node path none, fun other digest => ?_, hr.sent⟩
    simp only [SyncNet.step, update_frames]
    exact hr.frames other digest
  | register node path layout =>
    refine ⟨fun other => ?_, frames_registered hs hr node path layout, hr.sent⟩
    simp only [SyncNet.step, update_sync]
    exact hr.files other
  | announce node path layout =>
    refine ⟨fun other => ?_, fun other digest => ?_, ?_⟩
    · simp only [SyncNet.step, update_sync]
      exact hr.files other
    · simp only [SyncNet.step, announce_sync]
      exact frames_registered hs hr node path layout other digest
    · refine List.rel_append hr.sent ?_
      rw [← hr.files node]
      exact announce_message hs (net.nodes node).files path layout (net.nodes node).sync
  | deliver node message => exact hr

end

/-! ## Every run -/

section

variable {h : Hasher}

theorem framesRecorded_after (hs : h.Streams) (events : List SyncEvent) :
    FramesRecorded h (netAfter h events) (historyOf events) := by
  induction events using List.reverseRecOn with
  | nil => exact ⟨fun _ => rfl, fun _ _ => rfl, .nil⟩
  | append_singleton events e ih =>
    rw [netAfter, historyOf, Trace.final_concat, List.foldl_concat]
    exact framesRecorded_step hs ih e

/-- Under a hash a node has the path of its last call for bytes of this hash. -/
theorem frames_after (hs : h.Streams) (events : List SyncEvent) (node digest : String) :
    ((netAfter h events).nodes node).sync.frames.get? digest = pathOf h (historyOf events).registered node digest :=
  (framesRecorded_after hs events).frames node digest

theorem pathOf_isSome (registered : List Registration) (node digest : String) :
    (pathOf h registered node digest).isSome = true ↔ ∃ r ∈ registered, r.node = node ∧ h.digest r.data = digest := by
  rw [pathOf, Option.isSome_map, List.getLast?_isSome, ne_eq, List.filter_eq_nil_iff]
  simp

/-- Announcements are about contents: whatever happens to the files and in whatever order messages arrive, a node has
    under a hash the path of its last call for bytes of this hash, and it accepts an announced frame exactly if it has
    registered the same bytes before, if none of what it registered has their hash by chance. -/
theorem accepts_iff (hs : h.Streams) (events : List SyncEvent) (node : String) :
    (∀ digest, ((netAfter h events).nodes node).sync.frames.get? digest = pathOf h (historyOf events).registered node digest) ∧
      ∀ (message : Nat) (data : List UInt8), (historyOf events).announced[message]? = some data →
        (∀ r ∈ (historyOf events).registered, r.node = node → h.digest r.data = h.digest data → r.data = data) →
          (((netAfter h events).step h (.deliver node message)).1 = some true ↔
            ∃ r ∈ (historyOf events).registered, r.node = node ∧ r.data = data) := by
  refine ⟨frames_after hs events node, ?_⟩
  intro message data hsent hdiffer
  have hr := framesRecorded_after hs events
  obtain ⟨hlt, hget⟩ := List.getElem?_eq_some_iff.mp hsent
  have hlength := hr.sent.length_eq
  have hann := hr.sent.get (i := message) (by omega) hlt
  simp only [List.get_eq_getElem, hget] at hann
  obtain ⟨members, hpayload, hhash⟩ := hann.hash
  have haccept : ((netAfter h events).nodes node).sync.accept (netAfter h events).sent[message] =
      some (((netAfter h events).nodes node).sync.frames.has (h.digest data)) := by
    rw [FrameSync.accept, if_neg (by rw [hann.kind]; exact not_not.mpr rfl), hpayload]
    simp only [hhash]
  rw [SyncNet.step, List.getElem?_eq_getElem (by omega), Option.bind_some, haccept, Option.some.injEq, Dict.has,
    hr.frames, pathOf_isSome]
  constructor
  · intro hreg
    obtain ⟨r, hmem, hnode, hdigest⟩ := hreg
    exact ⟨r, hmem, hnode, hdiffer r hmem hnode hdigest⟩
  · intro hreg
    obtain ⟨r, hmem, hnode, hdata⟩ := hreg
    exact ⟨r, hmem, hnode, by rw [hdata]⟩

end

/-- A hash that is the hexadecimal text of the bytes. -/
def plainHasher : Hasher := ⟨List UInt8, [], fun s a => s ++ a, toHex⟩

theorem plainHasher_streams : plainHasher.Streams := ⟨fun s => List.append_nil s, fun s a b => List.append_assoc s a b⟩

/-- The receiver has overwritten the frame it had registered. -/
theorem accepts_overwritten :
    let events := [.write "a" "f.png" [1], .write "b" "g.png" [1], .register "b" "g.png" .none, .write "b" "g.png" [2],
      .announce "a" "f.png" .none]
    ((netAfter plainHasher events).nodes "b").sync.frames.get? (plainHasher.digest [1]) = some "g.png" ∧
      ((netAfter plainHasher events).step plainHasher (.deliver "b" 0)).1 = some true := by
  intro events
  obtain ⟨hframes, haccepts⟩ := accepts_iff plainHasher_streams events "b"
  refine ⟨(hframes _).trans (by decide +kernel), (haccepts 0 [1] (by decide +kernel) (by decide +kernel)).mpr ?_⟩
  exact ⟨⟨"b", "g.png", [1]⟩, by decide +kernel, rfl, rfl⟩

end PyxelVM.Network
