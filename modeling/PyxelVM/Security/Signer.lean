/-
  PyxelVM.Security.Signer — `ZDXEd25519Signer` (`zdx_ed25519_signer.py`).

  A node is a signer object and its key directory, whose files are keypairs. A restart is
  a new object on the same directory: it loads the keypair, and knows no peers. What the
  `cryptography` package computes is a parameter, by the PEM texts of the keys.

  - `current_after`: the keypair in memory is always the one on disk, and its two halves match.
  - `rejects_own_signatures`: a node has no public key under its own id unless one is
    registered by hand, so it never accepts a signature of its own.
  - `accepts_registered`: once its own public key is registered, it does.
-/

import PyxelVM.Lib.Hex
import PyxelVM.Lib.PyJson

namespace PyxelVM.Security

open PyxelVM.Lib

/-- What the signer calls: the `cryptography` package, `json.dumps` with sorted keys, and base64. -/
structure Crypto (Payload : Type) where
  /-- The PEM of the public half. -/
  publicPem : String → String
  sign : String → List UInt8 → List UInt8
  /-- The public key loads, and accepts the signature of the message. -/
  verify : String → List UInt8 → List UInt8 → Bool
  canonical : Payload → List UInt8
  b64encode : List UInt8 → String
  b64decode : String → Option (List UInt8)

/-- A public key accepts exactly what the matching private key signed. -/
structure Crypto.Ideal {Payload : Type} (crypto : Crypto Payload) : Prop where
  verify_iff : ∀ key signature message,
    crypto.verify (crypto.publicPem key) signature message = true ↔ signature = crypto.sign key message
  decode : ∀ bytes, crypto.b64decode (crypto.b64encode bytes) = some bytes

structure Ed25519KeyPair where
  nodeId : String
  privateKeyPem : String
  publicKeyPem : String
  createdAt : Rat
  keyVersion : Int := 1
  deriving DecidableEq

/-- The files of a directory by name. Each is the JSON of a keypair. -/
abbrev KeyPath := Dict String Ed25519KeyPair

structure ZDXEd25519Signer where
  nodeId : String
  keypair : Ed25519KeyPair
  peerPublicKeys : Dict String String := .empty

structure Node where
  signer : ZDXEd25519Signer
  keyPath : KeyPath

/-- The private key that `generate()` draws, and the time then. -/
structure Drawn where
  privateKeyPem : String
  time : Rat

/-- `f"{node_id}.json"`. -/
def keyFile (nodeId : String) : String := nodeId ++ ".json"

/-- `f"{node_id}.{int(time.time())}.bak"`. -/
def backupFile (nodeId : String) (second : Int) : String := nodeId ++ "." ++ toString second ++ ".bak"

variable {Payload : Type} (crypto : Crypto Payload)

def generateKeypair (nodeId : String) (drawn : Drawn) (keyPath : KeyPath) : Ed25519KeyPair × KeyPath :=
  let keypair : Ed25519KeyPair := ⟨nodeId, drawn.privateKeyPem, crypto.publicPem drawn.privateKeyPem, drawn.time, 1⟩
  (keypair, keyPath.set (keyFile nodeId) keypair)

def loadOrGenerateKeys (nodeId : String) (drawn : Drawn) (keyPath : KeyPath) : Ed25519KeyPair × KeyPath :=
  match keyPath.get? (keyFile nodeId) with
  | some keypair => (keypair, keyPath)
  | none => generateKeypair crypto nodeId drawn keyPath

/-- `ZDXEd25519Signer(node_id, key_path)`. -/
def Node.create (nodeId : String) (drawn : Drawn) (keyPath : KeyPath) : Node :=
  let loaded := loadOrGenerateKeys crypto nodeId drawn keyPath
  ⟨⟨nodeId, loaded.1, .empty⟩, loaded.2⟩

def ZDXEd25519Signer.registerPeerPublicKey (s : ZDXEd25519Signer) (peerId publicKeyPem : String) : ZDXEd25519Signer :=
  { s with peerPublicKeys := s.peerPublicKeys.set peerId publicKeyPem }

def ZDXEd25519Signer.signMessage (s : ZDXEd25519Signer) (payload : Payload) : String :=
  crypto.b64encode (crypto.sign s.keypair.privateKeyPem (crypto.canonical payload))

def ZDXEd25519Signer.verifyMessage (s : ZDXEd25519Signer) (peerId : String) (payload : Payload) (signature : String) : Bool :=
  match s.peerPublicKeys.get? peerId with
  | none => false
  | some publicKeyPem =>
    match crypto.b64decode signature with
    | none => false
    | some bytes => crypto.verify publicKeyPem bytes (crypto.canonical payload)

def ZDXEd25519Signer.verifySelfSignature (s : ZDXEd25519Signer) (payload : Payload) (signature : String) : Bool :=
  s.verifyMessage crypto s.nodeId payload signature

def ZDXEd25519Signer.getKeyVersion (s : ZDXEd25519Signer) : Int := s.keypair.keyVersion

/-- The name of the backup, and the node with its new keypair. -/
def Node.rotateKeys (n : Node) (now : Rat) (drawn : Drawn) : String × Node :=
  let backup := backupFile n.signer.nodeId (truncate now)
  let saved := match n.keyPath.get? (keyFile n.signer.nodeId) with
    | some old => n.keyPath.set backup old
    | none => n.keyPath
  let generated := generateKeypair crypto n.signer.nodeId drawn saved
  (backup, ⟨{ n.signer with keypair := generated.1 }, generated.2⟩)

/-- What happens to a node; a restart draws a key in case the directory has none. -/
inductive SignerOp where
  | registerPeerPublicKey (peerId publicKeyPem : String)
  | rotateKeys (now : Rat) (drawn : Drawn)
  | restart (drawn : Drawn)

def Node.step (n : Node) : SignerOp → Node
  | .registerPeerPublicKey peerId publicKeyPem => { n with signer := n.signer.registerPeerPublicKey peerId publicKeyPem }
  | .rotateKeys now drawn => (n.rotateKeys crypto now drawn).2
  | .restart drawn => .create crypto n.signer.nodeId drawn n.keyPath

def Node.after (n : Node) (ops : List SignerOp) : Node := ops.foldl (Node.step crypto) n

/-! ## The keypair -/

variable {crypto} {n : Node} {nodeId : String} {keyPath : KeyPath}

theorem keyFile_ne_backupFile (nodeId other : String) (second : Int) : keyFile nodeId ≠ backupFile other second := by
  have hkey : (keyFile nodeId).toList.getLast? = some 'n' := by
    rw [keyFile, String.toList_append, List.getLast?_append]
    rfl
  have hbackup : (backupFile other second).toList.getLast? = some 'k' := by
    rw [backupFile, String.toList_append, List.getLast?_append]
    rfl
  intro h
  rw [h, hbackup] at hkey
  exact absurd hkey (by decide)

theorem backupFile_injective (nodeId : String) : Function.Injective (backupFile nodeId) := by
  intro a b h
  apply toString_int_injective
  simpa [backupFile] using h

@[simp] theorem nodeId_step (n : Node) (op : SignerOp) : (n.step crypto op).signer.nodeId = n.signer.nodeId := by cases op <;> rfl

@[simp] theorem nodeId_after (n : Node) (ops : List SignerOp) : (n.after crypto ops).signer.nodeId = n.signer.nodeId := by
  induction ops generalizing n with
  | nil => rfl
  | cons op ops ih => exact (ih _).trans (nodeId_step n op)

/-- The keypair is the one on disk, and its halves match. -/
structure Node.Current (crypto : Crypto Payload) (n : Node) : Prop where
  onDisk : n.keyPath.get? (keyFile n.signer.nodeId) = some n.signer.keypair
  matching : n.signer.keypair.publicKeyPem = crypto.publicPem n.signer.keypair.privateKeyPem

theorem create_of_file {keypair : Ed25519KeyPair} (h : keyPath.get? (keyFile nodeId) = some keypair) (drawn : Drawn) :
    Node.create crypto nodeId drawn keyPath = ⟨⟨nodeId, keypair, .empty⟩, keyPath⟩ := by
  rw [Node.create, loadOrGenerateKeys, h]

theorem create_current (nodeId : String) (drawn : Drawn)
    (h : ∀ keypair, keyPath.get? (keyFile nodeId) = some keypair → keypair.publicKeyPem = crypto.publicPem keypair.privateKeyPem) :
    (Node.create crypto nodeId drawn keyPath).Current crypto := by
  cases hfile : keyPath.get? (keyFile nodeId) with
  | some keypair =>
    rw [create_of_file hfile]
    exact ⟨hfile, h keypair hfile⟩
  | none =>
    rw [Node.create, loadOrGenerateKeys, hfile]
    exact ⟨Dict.get?_set_self _ _ _, rfl⟩

theorem rotate_current (n : Node) (now : Rat) (drawn : Drawn) : (n.rotateKeys crypto now drawn).2.Current crypto :=
  ⟨Dict.get?_set_self _ _ _, rfl⟩

theorem current_step (h : n.Current crypto) (op : SignerOp) : (n.step crypto op).Current crypto := by
  cases op with
  | registerPeerPublicKey peerId publicKeyPem => exact ⟨h.onDisk, h.matching⟩
  | rotateKeys now drawn => exact rotate_current n now drawn
  | restart drawn =>
    rw [Node.step, create_of_file h.onDisk]
    exact ⟨h.onDisk, h.matching⟩

theorem current_after (h : n.Current crypto) (ops : List SignerOp) : (n.after crypto ops).Current crypto := by
  induction ops generalizing n with
  | nil => exact h
  | cons op ops ih => exact ih (current_step h op)

/-! ## Its own signatures -/

/-- Registered by hand, the node's own public key accepts. -/
theorem accepts_registered (hideal : crypto.Ideal) (h : n.Current crypto)
    (hown : n.signer.peerPublicKeys.get? n.signer.nodeId = some n.signer.keypair.publicKeyPem) (payload : Payload) :
    n.signer.verifySelfSignature crypto payload (n.signer.signMessage crypto payload) = true := by
  simp only [ZDXEd25519Signer.verifySelfSignature, ZDXEd25519Signer.verifyMessage, hown, ZDXEd25519Signer.signMessage,
    hideal.decode, h.matching]
  exact (hideal.verify_iff _ _ _).mpr rfl

theorem unregistered_step {op : SignerOp} (hop : ∀ peerId pem, op = .registerPeerPublicKey peerId pem → peerId ≠ n.signer.nodeId)
    (h : n.signer.peerPublicKeys.get? n.signer.nodeId = none) :
    (n.step crypto op).signer.peerPublicKeys.get? n.signer.nodeId = none := by
  cases op with
  | registerPeerPublicKey peerId pem => exact (Dict.get?_set_of_ne _ (Ne.symm (hop peerId pem rfl)) _).trans h
  | rotateKeys now drawn => exact h
  | restart drawn => rfl

theorem unregistered_after {ops : List SignerOp}
    (hops : ∀ peerId pem, .registerPeerPublicKey peerId pem ∈ ops → peerId ≠ n.signer.nodeId)
    (h : n.signer.peerPublicKeys.get? n.signer.nodeId = none) :
    (n.after crypto ops).signer.peerPublicKeys.get? n.signer.nodeId = none := by
  induction ops generalizing n with
  | nil => exact h
  | cons op ops ih =>
    have hid : (n.step crypto op).signer.nodeId = n.signer.nodeId := nodeId_step n op
    have hstep : (n.step crypto op).signer.peerPublicKeys.get? n.signer.nodeId = none :=
      unregistered_step (fun peerId pem e => hops peerId pem (e ▸ List.mem_cons_self)) h
    rw [← hid] at hops hstep ⊢
    exact ih (fun peerId pem hmem => hops peerId pem (List.mem_cons_of_mem _ hmem)) hstep

/-- Whatever it signs, and however its peers' keys came: a node that has not registered itself refuses its own
    signatures. -/
theorem rejects_own_signatures (crypto : Crypto Payload) (nodeId : String) (drawn : Drawn) (keyPath : KeyPath)
    (ops : List SignerOp) (hops : ∀ peerId pem, .registerPeerPublicKey peerId pem ∈ ops → peerId ≠ nodeId) (payload : Payload) :
    ((Node.create crypto nodeId drawn keyPath).after crypto ops).signer.verifySelfSignature crypto payload
      (((Node.create crypto nodeId drawn keyPath).after crypto ops).signer.signMessage crypto payload) = false := by
  have hnone : ((Node.create crypto nodeId drawn keyPath).after crypto ops).signer.peerPublicKeys.get? nodeId = none :=
    unregistered_after (n := .create crypto nodeId drawn keyPath) hops rfl
  rw [ZDXEd25519Signer.verifySelfSignature, ZDXEd25519Signer.verifyMessage, nodeId_after,
    show (Node.create crypto nodeId drawn keyPath).signer.nodeId = nodeId from rfl, hnone]

/-- A signature that is the key and the message. -/
def plainCrypto : Crypto (List UInt8) where
  publicPem key := key
  sign key message := key.toList.map (fun c => UInt8.ofNat c.toNat) ++ message
  verify key signature message := signature = key.toList.map (fun c => UInt8.ofNat c.toNat) ++ message
  canonical payload := payload
  b64encode := toHex
  b64decode := fromHex

theorem plainCrypto_ideal : plainCrypto.Ideal where
  verify_iff _ _ _ := decide_eq_true_iff
  decode := fromHex_toHex

/-- After a peer is registered, and a rotation. -/
theorem rejects_own_signatures_rotated :
    let n := (Node.create plainCrypto "node" ⟨"first", 0⟩ .empty).after plainCrypto
      [.registerPeerPublicKey "peer" "theirs", .rotateKeys 7 ⟨"second", 7⟩]
    n.signer.verifySelfSignature plainCrypto [1] (n.signer.signMessage plainCrypto [1]) = false := by
  refine rejects_own_signatures plainCrypto "node" ⟨"first", 0⟩ .empty _ ?_ [1]
  intro peerId pem hmem
  rcases List.mem_cons.mp hmem with h | h
  · obtain ⟨rfl, rfl⟩ := SignerOp.registerPeerPublicKey.inj h
    decide
  · cases List.mem_singleton.mp h

/-- A new node, under ideal signatures. -/
theorem own_signature_refused : ¬∀ (Payload : Type) (crypto : Crypto Payload), crypto.Ideal →
    ∀ (nodeId : String) (drawn : Drawn) (keyPath : KeyPath) (ops : List SignerOp),
      (∀ peerId pem, .registerPeerPublicKey peerId pem ∈ ops → peerId ≠ nodeId) → ∀ payload,
        ((Node.create crypto nodeId drawn keyPath).after crypto ops).signer.verifySelfSignature crypto payload
          (((Node.create crypto nodeId drawn keyPath).after crypto ops).signer.signMessage crypto payload) = true := by
  intro h
  have haccepts := h _ plainCrypto plainCrypto_ideal "node" ⟨"first", 0⟩ .empty [] (by simp) [1]
  exact absurd haccepts (by decide +kernel)

end PyxelVM.Security
