/-
  PyxelVM.Security.Verifier — `MessageSigner` and `MessageVerifier` (`security/signer.py`,
  `security/verifier.py`), on messages as the dictionaries they are.

  `verify` is given a dictionary and changes it: it takes the signature out. So it answers
  with a verdict and with the message as it leaves it. Signatures are ideal: one is good
  for a text exactly when it was made for it (`signed`), and a signature made for one text
  was made for no other (`Ideal`).

  - `verify_takes_signature`: the envelope is accepted, and what is changed in it is refused,
    but for the spelling of the hexadecimal signature; no message that has a signature is
    left as it was, and none that is accepted is accepted again.
  - `accepted_once`: an envelope that is verified twice.
  - `verify_none_iff`: the handshake's messages (`Session`) are accepted as their dictionaries are.
-/

import Mathlib.Logic.Function.Iterate
import PyxelVM.Lib.Hex
import PyxelVM.Lib.PyJson
import PyxelVM.Security.Session

namespace PyxelVM.Security

open PyxelVM.Lib

/-- A value in a message: an integer, a string, or one of the others, dictionaries among them. -/
inductive Value (Other : Type) where
  | int (n : Int)
  | str (s : PyStr)
  | other (v : Other)
  deriving DecidableEq

abbrev MessageDict (Other : Type) := Dict PyStr (Value Other)

/-- A signature that was made, and the text it was made for. -/
structure SignedText (Text : Type) where
  key : Key
  text : Text
  signature : List UInt8
  deriving DecidableEq

/-- What the two classes call: `json.dumps` with sorted keys and `encode`, and `private_key.sign`. -/
structure Signing (Other Text : Type) where
  canonical : MessageDict Other → Text
  sign : Key → Text → List UInt8

structure NodeIdentity where
  privateKey : Key
  nodeId : PyStr

structure MessageSigner where
  identity : NodeIdentity

structure MessageVerifier where
  publicKey : Key

inductive VerifyError where
  /-- `KeyError('signature')`. -/
  | keyError
  /-- The signature is not a string. -/
  | typeError
  /-- `bytes.fromhex` refuses it. -/
  | valueError
  | invalidSignature
  deriving DecidableEq, Repr

def signatureKey : PyStr := .ofText "signature"

variable {Other Text : Type} (lib : Signing Other Text)

def MessageSigner.sign (s : MessageSigner) (message : MessageDict Other) : SignedText Text :=
  ⟨s.identity.privateKey, lib.canonical message, lib.sign s.identity.privateKey (lib.canonical message)⟩

/-- The message without its signature. -/
def MessageSigner.fields (s : MessageSigner) (payload : Value Other) (timestamp : Int) (nonce : PyStr) (sequence : Int) :
    MessageDict Other :=
  .ofList [(.ofText "protocol_version", .int 1), (.ofText "timestamp", .int timestamp), (.ofText "nonce", .str nonce),
    (.ofText "sequence", .int sequence), (.ofText "node_id", .str s.identity.nodeId), (.ofText "payload", payload)]

def MessageSigner.envelope (s : MessageSigner) (payload : Value Other) (timestamp : Int) (nonce : PyStr) (sequence : Int) :
    MessageDict Other :=
  let message := s.fields payload timestamp nonce sequence
  message.set signatureKey (.str (.ofText (toHex (s.sign lib message).signature)))

variable [DecidableEq Text]

/-- The verdict, and the message that the caller has then. -/
def MessageVerifier.verify (v : MessageVerifier) (signed : List (SignedText Text)) (message : MessageDict Other) :
    Except VerifyError Unit × MessageDict Other :=
  match message.get? signatureKey with
  | none => (.error .keyError, message)
  | some value =>
    let message := message.erase signatureKey
    match value with
    | .str hex =>
      match hex.text?.bind fromHex with
      | none => (.error .valueError, message)
      | some signature =>
        (if ⟨v.publicKey, lib.canonical message, signature⟩ ∈ signed then .ok () else .error .invalidSignature, message)
    | _ => (.error .typeError, message)

/-- The message after so many verifications. -/
def MessageVerifier.verified (v : MessageVerifier) (signed : List (SignedText Text)) (n : Nat) (message : MessageDict Other) :
    MessageDict Other :=
  (fun m => (v.verify lib signed m).2)^[n] message

/-! ## The law -/

/-- The messages differ in one field. -/
def Changed (m m' : MessageDict Other) : Prop := ∃ k, m'.get? k ≠ m.get? k ∧ ∀ l, l ≠ k → m'.get? l = m.get? l

def Unchanged (v : MessageVerifier) (signed : List (SignedText Text)) (m : MessageDict Other) : Prop :=
  (v.verify lib signed m).2 = m

/-- Every verification of the message accepts it, or none does. -/
def Repeatable (v : MessageVerifier) (signed : List (SignedText Text)) (m : MessageDict Other) : Prop :=
  ∀ n, (v.verify lib signed (v.verified lib signed n m)).1 = .ok () ↔ (v.verify lib signed m).1 = .ok ()

structure EnvelopeLaw (v : MessageVerifier) (signed : List (SignedText Text)) (m : MessageDict Other) : Prop where
  accepted : (v.verify lib signed m).1 = .ok ()
  tampered : ∀ m', Changed m m' → (v.verify lib signed m').1 ≠ .ok ()
  unchanged : ∀ m', m' = m ∨ Changed m m' → Unchanged lib v signed m'
  repeatable : ∀ m', m' = m ∨ Changed m m' → Repeatable lib v signed m'

/-- Messages have one text exactly if they have the same fields: the order is sorted away. -/
def Signing.Canonical (lib : Signing Other Text) : Prop :=
  ∀ m m', lib.canonical m = lib.canonical m' ↔ ∀ k, m.get? k = m'.get? k

omit [DecidableEq Text] in
/-- One key's signatures of different texts differ, and a text has one signature. -/
def Ideal (signed : List (SignedText Text)) : Prop :=
  ∀ a ∈ signed, ∀ b ∈ signed, a.key = b.key → (a.text = b.text ↔ a.signature = b.signature)

/-- The bytes of the signature, if it can be read. -/
def signature? (m : MessageDict Other) : Option (List UInt8) :=
  match m.get? signatureKey with
  | some (.str hex) => hex.text?.bind fromHex
  | _ => none

variable {lib} {v : MessageVerifier} {signed : List (SignedText Text)} {m m' : MessageDict Other}

/-! ## One verification -/

/-- It takes the signature out, whatever the verdict. -/
theorem verify_message (m : MessageDict Other) : (v.verify lib signed m).2 = m.erase signatureKey := by
  unfold MessageVerifier.verify
  split
  · rename_i h
    exact (Dict.erase_of_absent h).symm
  · dsimp only
    split
    · split <;> rfl
    · rfl

theorem verify_ok_iff : (v.verify lib signed m).1 = .ok () ↔
    ∃ signature, signature? m = some signature ∧ ⟨v.publicKey, lib.canonical (m.erase signatureKey), signature⟩ ∈ signed := by
  unfold MessageVerifier.verify signature?
  cases m.get? signatureKey with
  | none => simp
  | some value =>
    cases value with
    | int n => simp
    | other o => simp
    | str hex =>
      dsimp only
      cases hex.text?.bind fromHex with
      | none => simp
      | some signature => simp

theorem verify_absent (h : m.get? signatureKey = none) : (v.verify lib signed m).1 = .error .keyError := by
  rw [MessageVerifier.verify, h]

theorem verified_succ (n : Nat) (m : MessageDict Other) : v.verified lib signed (n + 1) m = m.erase signatureKey := by
  induction n generalizing m with
  | zero => exact verify_message m
  | succ n ih =>
    rw [MessageVerifier.verified, Function.iterate_succ_apply, verify_message]
    exact (ih _).trans (Dict.erase_of_absent (Dict.get?_erase_self _ _))

theorem unchanged_iff : Unchanged lib v signed m ↔ m.get? signatureKey = none := by
  rw [Unchanged, verify_message, Dict.erase_eq_self]

/-- What is accepted is not accepted again. -/
theorem repeatable_iff : Repeatable lib v signed m ↔ (v.verify lib signed m).1 ≠ .ok () := by
  have hagain (n : Nat) : (v.verify lib signed (v.verified lib signed (n + 1) m)).1 = .error .keyError := by
    rw [verified_succ]
    exact verify_absent (Dict.get?_erase_self _ _)
  constructor
  · intro h hok
    have hsecond := (h 1).mpr hok
    rw [hagain] at hsecond
    cases hsecond
  · intro h n
    cases n with
    | zero => rfl
    | succ n =>
      rw [hagain]
      exact iff_of_false (by simp) h

/-! ## The envelope -/

variable {s : MessageSigner} {payload : Value Other} {timestamp sequence : Int} {nonce : PyStr}

theorem fields_signature : (s.fields payload timestamp nonce sequence).get? signatureKey = none := by
  rw [MessageSigner.fields, Dict.get?_ofList, Dict.lookup_eq_none, List.map_reverse, List.mem_reverse]
  simp only [List.map_cons, List.map_nil]
  decide +kernel

omit [DecidableEq Text] in
theorem envelope_fields (lib : Signing Other Text) : (s.envelope lib payload timestamp nonce sequence).erase signatureKey =
    s.fields payload timestamp nonce sequence := Dict.erase_set fields_signature _

omit [DecidableEq Text] in
theorem envelope_signature : signature? (s.envelope lib payload timestamp nonce sequence) =
    some (s.sign lib (s.fields payload timestamp nonce sequence)).signature := by
  rw [signature?, MessageSigner.envelope, Dict.get?_set_self]
  show (PyStr.text? _).bind fromHex = _
  rw [PyStr.text?_ofText, Option.bind_some, fromHex_toHex]

theorem envelope_accepted_iff :
    (MessageVerifier.verify lib ⟨s.identity.privateKey⟩ signed (s.envelope lib payload timestamp nonce sequence)).1 = .ok () ↔
      s.sign lib (s.fields payload timestamp nonce sequence) ∈ signed := by
  rw [verify_ok_iff, envelope_signature, envelope_fields]
  constructor
  · rintro ⟨signature, hread, hmem⟩
    obtain rfl := Option.some.inj hread
    exact hmem
  · exact fun hmem => ⟨_, rfl, hmem⟩

/-- Of the messages that differ from an envelope in one field, those are accepted whose signature reads as the same bytes,
    in other digits. -/
theorem changed_accepted_iff (hcanonical : lib.Canonical) (hideal : Ideal signed)
    (hmade : s.sign lib (s.fields payload timestamp nonce sequence) ∈ signed)
    (hchanged : Changed (s.envelope lib payload timestamp nonce sequence) m') :
    (MessageVerifier.verify lib ⟨s.identity.privateKey⟩ signed m').1 = .ok () ↔
      (∀ k, k ≠ signatureKey → m'.get? k = (s.envelope lib payload timestamp nonce sequence).get? k) ∧
        signature? m' = signature? (s.envelope lib payload timestamp nonce sequence) := by
  have hrest : (∀ k, k ≠ signatureKey → m'.get? k = (s.envelope lib payload timestamp nonce sequence).get? k) ↔
      lib.canonical (m'.erase signatureKey) = lib.canonical (s.fields payload timestamp nonce sequence) := by
    rw [hcanonical, ← envelope_fields lib]
    refine forall_congr' fun k => ?_
    by_cases hk : k = signatureKey
    · simp [hk]
    · rw [Dict.get?_erase_of_ne _ hk, Dict.get?_erase_of_ne _ hk]
      exact ⟨fun h => h hk, fun h _ => h⟩
  rw [verify_ok_iff, hrest, envelope_signature]
  constructor
  · rintro ⟨signature, hread, hmem⟩
    have hone := hideal _ hmem _ hmade rfl
    obtain ⟨k, hk, hothers⟩ := hchanged
    by_cases hkey : k = signatureKey
    · have htext := hrest.mp fun l hl => hothers l (hkey ▸ hl)
      exact ⟨htext, hread.trans (congrArg some (hone.mp htext))⟩
    · -- the signature is the envelope's, so it is no signature of the changed text
      have hsame : signature? m' = signature? (s.envelope lib payload timestamp nonce sequence) := by
        rw [signature?, hothers _ (Ne.symm hkey), ← signature?]
      rw [hread, envelope_signature] at hsame
      exact absurd (hrest.mpr (hone.mpr (Option.some.inj hsame)) k hkey) hk
  · rintro ⟨htext, hread⟩
    refine ⟨_, hread, ?_⟩
    rw [htext]
    exact hmade

/-- An envelope that was signed is accepted, and changed in one field refused unless its signature is the same bytes; but
    verifying leaves no message as it was that has a signature, and accepts none a second time. -/
theorem verify_takes_signature (lib : Signing Other Text) (hcanonical : lib.Canonical) (signed : List (SignedText Text))
    (hideal : Ideal signed) (s : MessageSigner) (payload : Value Other) (timestamp : Int) (nonce : PyStr) (sequence : Int)
    (hmade : s.sign lib (s.fields payload timestamp nonce sequence) ∈ signed) :
    let m := s.envelope lib payload timestamp nonce sequence
    let v : MessageVerifier := ⟨s.identity.privateKey⟩
    ¬EnvelopeLaw lib v signed m ∧ (v.verify lib signed m).1 = .ok () ∧
      (∀ m', Changed m m' → ((v.verify lib signed m').1 = .ok () ↔
        (∀ k, k ≠ signatureKey → m'.get? k = m.get? k) ∧ signature? m' = signature? m)) ∧
      ∀ m', (Unchanged lib v signed m' ↔ m'.get? signatureKey = none) ∧
        (Repeatable lib v signed m' ↔ (v.verify lib signed m').1 ≠ .ok ()) := by
  intro m v
  have haccepted : (v.verify lib signed m).1 = .ok () := envelope_accepted_iff.mpr hmade
  refine ⟨fun hlaw => ?_, haccepted, fun m' => changed_accepted_iff hcanonical hideal hmade,
    fun m' => ⟨unchanged_iff, repeatable_iff⟩⟩
  exact repeatable_iff.mp (hlaw.repeatable m (.inl rfl)) haccepted

/-- The fields as a set are the text, and a signature is its key. -/
def plainSigning : Signing Unit (Finset (PyStr × Value Unit)) := ⟨fun m => m.entries.toFinset, fun key _ => [UInt8.ofNat key]⟩

theorem plainSigning_canonical : plainSigning.Canonical := fun _ _ => Dict.entries_toFinset_eq_iff

def plainSigner : MessageSigner := ⟨⟨7, .ofText "node"⟩⟩

/-- All that was signed is one envelope. -/
def oneSigned : List (SignedText (Finset (PyStr × Value Unit))) :=
  [plainSigner.sign plainSigning (plainSigner.fields (.other ()) 0 (.ofText "n") 1)]

theorem oneSigned_ideal : Ideal oneSigned := by
  intro a ha b hb _
  rw [List.mem_singleton.mp ha, List.mem_singleton.mp hb]
  exact iff_of_true rfl rfl

/-- The only envelope that was signed. -/
theorem verify_takes_signature_one :
    let m := plainSigner.envelope plainSigning (.other ()) 0 (.ofText "n") 1
    (MessageVerifier.verify plainSigning ⟨7⟩ oneSigned m).1 = .ok () ∧ ¬Unchanged plainSigning ⟨7⟩ oneSigned m := by
  intro m
  obtain ⟨-, haccepted, -, hafter⟩ := verify_takes_signature plainSigning plainSigning_canonical oneSigned oneSigned_ideal
    plainSigner (.other ()) 0 (.ofText "n") 1 List.mem_cons_self
  refine ⟨haccepted, fun h => ?_⟩
  have habsent : m.get? signatureKey = none := (hafter m).1.mp h
  rw [show m = plainSigner.envelope plainSigning (.other ()) 0 (.ofText "n") 1 from rfl, MessageSigner.envelope,
    Dict.get?_set_self] at habsent
  cases habsent

/-- The envelope is accepted, and the second time its signature is missing. -/
theorem accepted_once : ¬∀ (Other Text : Type) (_ : DecidableEq Text) (lib : Signing Other Text), lib.Canonical →
    ∀ signed : List (SignedText Text), Ideal signed → ∀ (s : MessageSigner) (payload : Value Other) (timestamp : Int)
      (nonce : PyStr) (sequence : Int), s.sign lib (s.fields payload timestamp nonce sequence) ∈ signed →
        EnvelopeLaw lib ⟨s.identity.privateKey⟩ signed (s.envelope lib payload timestamp nonce sequence) := by
  intro h
  have hlaw := h _ _ inferInstance plainSigning plainSigning_canonical oneSigned oneSigned_ideal plainSigner (.other ()) 0
    (.ofText "n") 1 List.mem_cons_self
  exact repeatable_iff.mp (hlaw.repeatable _ (.inl rfl)) hlaw.accepted

/-! ## The handshake's envelopes -/

/-- The fields as the dictionary that is signed. -/
def Envelope.toDict (e : Envelope) : MessageDict Payload :=
  .ofList [(.ofText "protocol_version", .int e.protocolVersion), (.ofText "timestamp", .int e.timestamp),
    (.ofText "nonce", .str (.ofText e.nonce)), (.ofText "sequence", .int e.sequence), (.ofText "node_id", .str (.ofText e.nodeId)),
    (.ofText "payload", .other e.payload)]

def Message.toDict (m : Message) : MessageDict Payload :=
  match m.signature with
  | none => m.envelope.toDict
  | some hex => m.envelope.toDict.set signatureKey (.str (.ofText hex))

/-- The dictionary by its names. -/
theorem get?_toDict (e : Envelope) (name : String) :
    e.toDict.get? (.ofText name) = [("payload", Value.other e.payload), ("node_id", .str (.ofText e.nodeId)),
      ("sequence", .int e.sequence), ("nonce", .str (.ofText e.nonce)), ("timestamp", .int e.timestamp),
      ("protocol_version", .int e.protocolVersion)].lookup name := by
  simp only [Envelope.toDict, Dict.get?_ofList, List.reverse_cons, List.reverse_nil, List.nil_append, List.cons_append,
    Dict.lookup_cons, PyStr.ofText_injective.eq_iff, List.lookup_nil]

theorem Envelope.toDict_injective {e e' : Envelope} (h : ∀ k, e.toDict.get? k = e'.toDict.get? k) : e = e' := by
  have hfield (name : String) := h (.ofText name)
  simp only [get?_toDict] at hfield
  have hversion := hfield "protocol_version"
  have htimestamp := hfield "timestamp"
  have hnonce := hfield "nonce"
  have hsequence := hfield "sequence"
  have hnodeId := hfield "node_id"
  have hpayload := hfield "payload"
  cases e
  cases e'
  simp [Dict.lookup_cons, PyStr.ofText_injective.eq_iff] at hversion htimestamp hnonce hsequence hnodeId hpayload
  simp [*]

theorem toDict_signature (e : Envelope) : e.toDict.get? signatureKey = none := by
  rw [signatureKey, get?_toDict]
  simp [Dict.lookup_cons]

theorem Message.toDict_erase (m : Message) : m.toDict.erase signatureKey = m.envelope.toDict := by
  unfold Message.toDict
  cases m.signature with
  | none => exact Dict.erase_of_absent (toDict_signature _)
  | some hex => exact Dict.erase_set (toDict_signature _) _

theorem Message.signature?_toDict (m : Message) : signature? m.toDict = m.signature.bind fromHex := by
  unfold signature? Message.toDict
  cases m.signature with
  | none =>
    dsimp only
    rw [toDict_signature]
    rfl
  | some hex =>
    dsimp only
    rw [Dict.get?_set_self]
    show (PyStr.text? _).bind fromHex = _
    rw [PyStr.text?_ofText]

section

variable {Text : Type} [DecidableEq Text] (lib : Signing Payload Text)

def Signed.onText (r : Signed) : SignedText Text := ⟨r.key, lib.canonical r.envelope.toDict, r.signature⟩

omit [DecidableEq Text] in
theorem onText_mem (hcanonical : lib.Canonical) (signed : List Signed) (r : Signed) :
    r.onText lib ∈ signed.map (Signed.onText lib) ↔ r ∈ signed := by
  refine ⟨fun h => ?_, fun h => List.mem_map_of_mem h⟩
  obtain ⟨r', hr', he⟩ := List.mem_map.mp h
  obtain ⟨hkey, htext, hsignature⟩ := SignedText.mk.inj he
  have henvelope := Envelope.toDict_injective ((hcanonical _ _).mp htext)
  obtain ⟨key, envelope, signature⟩ := r
  obtain ⟨key', envelope', signature'⟩ := r'
  dsimp only at hkey hsignature henvelope
  subst hkey hsignature henvelope
  exact hr'

/-- What the handshake accepts is what the dictionary's verification accepts. -/
theorem verify_none_iff (hcanonical : lib.Canonical) (w : World) (key : Key) (m : Message) :
    verify w key m = none ↔ (MessageVerifier.verify lib ⟨key⟩ (w.signed.map (Signed.onText lib)) m.toDict).1 = .ok () := by
  rw [verify_ok_iff, m.signature?_toDict, m.toDict_erase, verify]
  cases m.signature with
  | none => simp
  | some hex =>
    dsimp only [Option.bind_some]
    cases fromHex hex with
    | none => simp
    | some signature =>
      have hmem := onText_mem lib hcanonical w.signed ⟨key, m.envelope, signature⟩
      simpa [Signed.onText] using hmem.symm

omit [DecidableEq Text] in
/-- What the handshake signs is the envelope as a dictionary. -/
theorem signEnvelope_toDict (keys : Keys) (hsign : ∀ key (e : Envelope), lib.sign key (lib.canonical e.toDict) = keys.sign key e)
    (key : Key) (payload : Payload) (timestamp : Int) (nonce : String) (sequence : Int) :
    (signEnvelope keys key payload timestamp nonce sequence).1.toDict =
      MessageSigner.envelope lib ⟨⟨key, .ofText (keys.nodeId key)⟩⟩ (.other payload) timestamp (.ofText nonce) sequence := by
  simp only [signEnvelope, ← hsign]
  rfl

end

end PyxelVM.Security
