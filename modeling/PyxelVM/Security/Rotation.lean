/-
  PyxelVM.Security.Rotation — the keys of a node over its rotations and restarts
  (`zdx_ed25519_signer.py`).

  A rotation writes the keypair it replaces to a file named after the second. All that a
  run leaves in those files is `rotatedAway`, the pairs of second and keypair, as a dict
  (`backup_after`).

  - `history_iff`: no keypair is lost exactly if no two rotations fall in one second; the
    key on disk is the one in memory in any case; and the version never grows, since the
    generator writes 1.
  - `same_second_loses_key`: the second rotation of a second overwrites the backup.
-/

import PyxelVM.Security.Signer

namespace PyxelVM.Security

open PyxelVM.Lib

variable {Payload : Type} (crypto : Crypto Payload)

/-- The keypairs the node has had, from the first on. -/
def Node.held : Node → List SignerOp → List Ed25519KeyPair
  | n, [] => [n.signer.keypair]
  | n, op :: ops => n.signer.keypair :: Node.held (n.step crypto op) ops

/-- The private keys that are generated, the first one among them. -/
def generatedKeys (drawn : Drawn) (ops : List SignerOp) : List String :=
  drawn.privateKeyPem :: ops.filterMap fun
    | .rotateKeys _ drawn => some drawn.privateKeyPem
    | _ => none

/-- The seconds in which keys are rotated. -/
def rotationSeconds (ops : List SignerOp) : List Int :=
  ops.filterMap fun
    | .rotateKeys now _ => some (truncate now)
    | _ => none

/-- Every keypair the node has had is its keypair, or in a backup file. -/
def KeepsHistory (n : Node) (ops : List SignerOp) : Prop :=
  ∀ keypair ∈ n.held crypto ops, (n.after crypto ops).signer.keypair = keypair ∨
    ∃ second, (n.after crypto ops).keyPath.get? (backupFile n.signer.nodeId second) = some keypair

/-- The key on disk is the key in memory. -/
def OnDisk (n : Node) (ops : List SignerOp) : Prop :=
  (n.after crypto ops).keyPath.get? (keyFile n.signer.nodeId) = some (n.after crypto ops).signer.keypair

/-- Every rotation raises the version. -/
def VersionsGrow (n : Node) (ops : List SignerOp) : Prop :=
  ∀ past now drawn later, ops = past ++ .rotateKeys now drawn :: later →
    (n.after crypto past).signer.getKeyVersion < ((n.after crypto past).rotateKeys crypto now drawn).2.signer.getKeyVersion

structure KeyLaw (n : Node) (ops : List SignerOp) : Prop where
  kept : KeepsHistory crypto n ops
  onDisk : OnDisk crypto n ops
  versions : VersionsGrow crypto n ops

/-- What the clock reads, from the first key on. -/
def clockReadings (drawn : Drawn) (ops : List SignerOp) : List Rat :=
  drawn.time :: ops.flatMap fun
    | .rotateKeys now drawn => [now, drawn.time]
    | _ => []

/-! ## What rotations write -/

/-- What is written to the backup files: the second in the name, and the keypair. -/
def Node.rotatedAway : Node → List SignerOp → List (Int × Ed25519KeyPair)
  | _, [] => []
  | n, .rotateKeys now drawn :: ops =>
    (truncate now, n.signer.keypair) :: Node.rotatedAway (n.step crypto (.rotateKeys now drawn)) ops
  | n, op :: ops => Node.rotatedAway (n.step crypto op) ops

variable {crypto} {n : Node}

theorem after_cons (n : Node) (op : SignerOp) (ops : List SignerOp) :
    n.after crypto (op :: ops) = (n.step crypto op).after crypto ops := rfl

theorem rotatedAway_seconds (n : Node) (ops : List SignerOp) : (n.rotatedAway crypto ops).map (·.1) = rotationSeconds ops := by
  induction ops generalizing n with
  | nil => rfl
  | cons op ops ih =>
    cases op with
    | rotateKeys now drawn => exact congrArg _ (ih _)
    | registerPeerPublicKey peerId pem => exact ih _
    | restart drawn => exact ih _

/-- A restart finds the keypair on disk. -/
theorem restart_same (h : n.Current crypto) (drawn : Drawn) :
    (n.step crypto (.restart drawn)).signer.keypair = n.signer.keypair ∧ (n.step crypto (.restart drawn)).keyPath = n.keyPath := by
  rw [Node.step, create_of_file h.onDisk]
  exact ⟨rfl, rfl⟩

theorem rotate_backup (h : n.Current crypto) (now : Rat) (drawn : Drawn) (second : Int) :
    (n.step crypto (.rotateKeys now drawn)).keyPath.get? (backupFile n.signer.nodeId second) =
      if second = truncate now then some n.signer.keypair else n.keyPath.get? (backupFile n.signer.nodeId second) := by
  simp only [Node.step, Node.rotateKeys, h.onDisk, generateKeypair]
  rw [Dict.get?_set_of_ne _ (keyFile_ne_backupFile _ _ _).symm, Dict.get?_set]
  exact if_congr (backupFile_injective _).eq_iff rfl rfl

/-- The backup files have the last keypair written under each name. -/
theorem backup_after (h : n.Current crypto) (ops : List SignerOp) (second : Int) :
    (n.after crypto ops).keyPath.get? (backupFile n.signer.nodeId second) =
      ((Dict.ofList (n.rotatedAway crypto ops)).get? second).or (n.keyPath.get? (backupFile n.signer.nodeId second)) := by
  induction ops generalizing n with
  | nil => rfl
  | cons op ops ih =>
    have hnext := ih (current_step h op)
    rw [nodeId_step] at hnext
    rw [after_cons, hnext]
    cases op with
    | rotateKeys now drawn =>
      rw [rotate_backup h, Node.rotatedAway, Dict.get?_ofList_cons, Option.or_assoc]
      congr 1
      split <;> rfl
    | registerPeerPublicKey peerId pem => rfl
    | restart drawn =>
      rw [(restart_same h drawn).2]
      rfl

theorem mem_held_self (n : Node) (ops : List SignerOp) : n.signer.keypair ∈ n.held crypto ops := by
  cases ops <;> exact List.mem_cons_self

/-- A keypair the node has had was rotated away, or is its keypair. -/
theorem mem_held (h : n.Current crypto) (ops : List SignerOp) (keypair : Ed25519KeyPair) :
    keypair ∈ n.held crypto ops ↔
      keypair ∈ (n.rotatedAway crypto ops).map (·.2) ∨ keypair = (n.after crypto ops).signer.keypair := by
  induction ops generalizing n with
  | nil => simp [Node.held, Node.rotatedAway, Node.after]
  | cons op ops ih =>
    have hnext := ih (current_step h op)
    -- what keeps the keypair adds none
    have hsame (he : (n.step crypto op).signer.keypair = n.signer.keypair) :
        keypair ∈ n.held crypto (op :: ops) ↔ keypair ∈ (n.step crypto op).held crypto ops := by
      rw [Node.held, List.mem_cons, ← he]
      exact or_iff_right_of_imp fun e => e ▸ mem_held_self _ ops
    cases op with
    | rotateKeys now drawn =>
      rw [Node.held, List.mem_cons, hnext, Node.rotatedAway, List.map_cons, List.mem_cons, or_assoc]
      rfl
    | registerPeerPublicKey peerId pem =>
      rw [hsame rfl, hnext]
      rfl
    | restart drawn =>
      rw [hsame (restart_same h drawn).1, hnext]
      rfl

/-- The keypairs rotated away, and then the node's, have the keys in the order they were generated. -/
theorem keys_rotatedAway (h : n.Current crypto) (ops : List SignerOp) (drawn : Drawn)
    (hkey : n.signer.keypair.privateKeyPem = drawn.privateKeyPem) :
    ((n.rotatedAway crypto ops).map (·.2) ++ [(n.after crypto ops).signer.keypair]).map (·.privateKeyPem) =
      generatedKeys drawn ops := by
  induction ops generalizing n drawn with
  | nil => simp [Node.rotatedAway, Node.after, generatedKeys, hkey]
  | cons op ops ih =>
    cases op with
    | rotateKeys now drawn' =>
      have hnext := ih (current_step h (.rotateKeys now drawn')) drawn' rfl
      rw [Node.rotatedAway, List.map_cons, List.cons_append, List.map_cons, after_cons, hnext, hkey]
      rfl
    | registerPeerPublicKey peerId pem => exact ih (current_step h (.registerPeerPublicKey peerId pem)) drawn hkey
    | restart drawn' => exact ih (current_step h (.restart drawn')) drawn ((congrArg _ (restart_same h drawn').1).trans hkey)

/-! ## The exact conditions -/

theorem keepsHistory_iff (h : n.Current crypto) {drawn : Drawn} (hkey : n.signer.keypair.privateKeyPem = drawn.privateKeyPem)
    (hfresh : ∀ second, n.keyPath.get? (backupFile n.signer.nodeId second) = none) {ops : List SignerOp}
    (hdistinct : (generatedKeys drawn ops).Nodup) : KeepsHistory crypto n ops ↔ (rotationSeconds ops).Nodup := by
  rw [← keys_rotatedAway h ops drawn hkey] at hdistinct
  obtain ⟨haway, -, hcurrent⟩ := List.nodup_append'.mp (List.Nodup.of_map _ hdistinct)
  have hbackup (second : Int) : (n.after crypto ops).keyPath.get? (backupFile n.signer.nodeId second) =
      (Dict.ofList (n.rotatedAway crypto ops)).get? second := by
    rw [backup_after h ops, hfresh, Option.or_none]
  rw [← rotatedAway_seconds, ← Dict.ofList_keeps_iff haway]
  constructor
  · intro hkept e he
    have hmem := List.mem_map_of_mem (f := fun e : Int × Ed25519KeyPair => e.2) he
    rcases hkept e.2 ((mem_held h ops e.2).mpr (.inl hmem)) with hlast | ⟨second, hsecond⟩
    · exact absurd (List.mem_singleton.mpr hlast.symm) (hcurrent hmem)
    · exact ⟨second, hbackup second ▸ hsecond⟩
  · intro hall keypair hheld
    rcases (mem_held h ops keypair).mp hheld with hmem | hlast
    · obtain ⟨e, he, rfl⟩ := List.mem_map.mp hmem
      obtain ⟨second, hsecond⟩ := hall e he
      exact .inr ⟨second, (hbackup second).trans hsecond⟩
    · exact .inl hlast.symm

/-- The generator writes version 1, always. -/
theorem version_after (h : n.Current crypto) (hv : n.signer.getKeyVersion = 1) (ops : List SignerOp) :
    (n.after crypto ops).signer.getKeyVersion = 1 := by
  induction ops generalizing n with
  | nil => exact hv
  | cons op ops ih =>
    refine ih (current_step h op) ?_
    cases op with
    | rotateKeys now drawn => rfl
    | registerPeerPublicKey peerId pem => exact hv
    | restart drawn => exact (congrArg Ed25519KeyPair.keyVersion (restart_same h drawn).1).trans hv

theorem versionsGrow_iff (h : n.Current crypto) (hv : n.signer.getKeyVersion = 1) (ops : List SignerOp) :
    VersionsGrow crypto n ops ↔ rotationSeconds ops = [] := by
  constructor
  · intro hgrow
    by_contra hne
    obtain ⟨second, hmem⟩ := List.exists_mem_of_ne_nil _ hne
    obtain ⟨op, hop, hsecond⟩ := List.mem_filterMap.mp hmem
    obtain ⟨past, later, rfl⟩ := List.append_of_mem hop
    cases op with
    | rotateKeys now drawn =>
      have hlt := hgrow past now drawn later rfl
      rw [version_after h hv] at hlt
      exact absurd hlt (Int.lt_irrefl 1)
    | registerPeerPublicKey peerId pem => cases hsecond
    | restart drawn => cases hsecond
  · rintro hnone past now drawn later rfl
    rw [rotationSeconds, List.filterMap_append, List.filterMap_cons] at hnone
    cases (List.append_eq_nil_iff.mp hnone).2

/-- A node that begins with an empty directory. -/
theorem created_current (crypto : Crypto Payload) (nodeId : String) (drawn : Drawn) :
    (Node.create crypto nodeId drawn .empty).Current crypto :=
  create_current nodeId drawn fun _ h => nomatch h

theorem created_keepsHistory_iff (crypto : Crypto Payload) (nodeId : String) {drawn : Drawn} {ops : List SignerOp}
    (hdistinct : (generatedKeys drawn ops).Nodup) :
    KeepsHistory crypto (.create crypto nodeId drawn .empty) ops ↔ (rotationSeconds ops).Nodup := by
  have hfresh (second : Int) :
      (Node.create crypto nodeId drawn .empty).keyPath.get? (backupFile nodeId second) = none :=
    Dict.get?_set_of_ne _ (keyFile_ne_backupFile _ _ _).symm _
  exact keepsHistory_iff (created_current crypto nodeId drawn) rfl hfresh hdistinct

/-- Of a node that begins with an empty directory, and keys that differ: its history is kept exactly if no two rotations
    fall in one second, its key on disk is its key, and all of the law holds exactly if there is no rotation. -/
theorem history_iff (crypto : Crypto Payload) (nodeId : String) (drawn : Drawn) (ops : List SignerOp)
    (hdistinct : (generatedKeys drawn ops).Nodup) :
    (KeyLaw crypto (.create crypto nodeId drawn .empty) ops ↔ rotationSeconds ops = []) ∧
      (KeepsHistory crypto (.create crypto nodeId drawn .empty) ops ↔ (rotationSeconds ops).Nodup) ∧
      OnDisk crypto (.create crypto nodeId drawn .empty) ops := by
  have hkept := created_keepsHistory_iff crypto nodeId hdistinct
  have hdisk : OnDisk crypto (.create crypto nodeId drawn .empty) ops := by
    have h := (current_after (created_current crypto nodeId drawn) ops).onDisk
    rwa [nodeId_after] at h
  have hversions := versionsGrow_iff (created_current crypto nodeId drawn) rfl ops
  refine ⟨⟨fun h => hversions.mp h.versions, fun h => ⟨?_, hdisk, hversions.mpr h⟩⟩, hkept, hdisk⟩
  rw [hkept, h]
  exact List.nodup_nil

/-- Two rotations, in different seconds, and a restart. -/
theorem history_iff_rotated :
    let ops : List SignerOp := [.rotateKeys 100 ⟨"second", 100⟩, .restart ⟨"unused", 200⟩, .rotateKeys 300 ⟨"third", 300⟩]
    KeepsHistory plainCrypto (.create plainCrypto "node" ⟨"first", 0⟩ .empty) ops :=
  (history_iff plainCrypto "node" ⟨"first", 0⟩ _ (by decide)).2.1.mpr (by decide +kernel)

/-- Two rotations in one second: the second's backup overwrites the first's, and the first key is neither the node's nor
    in a backup file. -/
theorem same_second_loses_key : ¬∀ (Payload : Type) (crypto : Crypto Payload) (nodeId : String) (drawn : Drawn)
    (ops : List SignerOp), (generatedKeys drawn ops).Nodup → (clockReadings drawn ops).Pairwise (· ≤ ·) →
      KeyLaw crypto (.create crypto nodeId drawn .empty) ops := by
  intro h
  have hlaw := h _ plainCrypto "node" ⟨"first", 0⟩ [.rotateKeys 100 ⟨"second", 100⟩, .rotateKeys (201 / 2) ⟨"third", 101⟩]
    (by decide) (by decide +kernel)
  exact absurd ((created_keepsHistory_iff plainCrypto "node" (by decide)).mp hlaw.kept) (by decide +kernel)

end PyxelVM.Security
