import NemoMessenger.Wire.Cbor
import NemoMessenger.Wire.Envelope

/-!
# Cryptographic primitives

SHA-256, Ed25519 and HPKE come from other crates. `Crypto` collects the functions the protocol calls
as parameters: nothing is assumed of them beyond being functions of their arguments. Identifiers,
domain-separated signatures and sealed envelopes are built on top, as the wire crate builds them.
-/

namespace NemoMessenger.Wire

/-- The functions taken from the cryptographic crates. Secret keys are the 32 bytes they are stored
as; `hpkeSeal` takes the randomness it would draw. -/
structure Crypto where
  sha256 : Bytes → Key
  /-- `VerifyingKey::from_bytes` accepts the key. -/
  isVerifyingKey : Key → Bool
  /-- `SigningKey::verifying_key`. -/
  verifyingKey : Key → Key
  sign : Key → Bytes → Signature
  verify : Key → Bytes → Signature → Bool
  /-- `single_shot_open` on the receiver's secret key, the encapsulated key, the rest of the
  ciphertext and the associated data. -/
  hpkeOpen : Key → Key → Bytes → Bytes → Except WireError Bytes
  hpkeSeal : Key → Key → Bytes → Bytes → Except WireError Bytes

namespace Crypto

variable (crypto : Crypto)

/-! ## Identifiers -/

/-- `ids::identity_id`. -/
def identityId (identityPublicKey : Key) : IdentityId := crypto.sha256 identityPublicKey.data

/-- `ids::server_id`. -/
def serverId (serverHpkePublicKey : Key) : ServerId := crypto.sha256 serverHpkePublicKey.data

/-! ## Domain-separated signatures -/

/-- The signature contexts. -/
inductive Context
  | homeServerBinding
  | prekey
  | revocation
  | groupInvite
  | groupAdmit
  | inviteeProof
  | removeSidecar
  | signingKeyReplace
  | serverBundle
  | serverSignRotate
  | mailboxOwner
  | capabilityIntro
  | serverResponse
  deriving DecidableEq, Repr

/-- The text of a context. -/
def Context.text : Context → String
  | homeServerBinding => "home-server-binding"
  | prekey => "prekey"
  | revocation => "revocation"
  | groupInvite => "group-invite"
  | groupAdmit => "group-admit"
  | inviteeProof => "invitee-proof"
  | removeSidecar => "remove-sidecar"
  | signingKeyReplace => "signing-key-replace"
  | serverBundle => "server-bundle"
  | serverSignRotate => "server-sign-rotate"
  | mailboxOwner => "mailbox-owner"
  | capabilityIntro => "capability-intro"
  | serverResponse => "server-response"

/-- `sign::message`. Its check on the context always passes: no context above is empty, holds a
slash or leaves ASCII. -/
def message (context : Context) (payload : Bytes) : Bytes :=
  Cbor.textBytes "nemo-v1/" ++ (Cbor.textBytes context.text ++ 0 :: payload)

/-- `sign::sign`. -/
def signContext (secret : Key) (context : Context) (payload : Bytes) : Signature :=
  crypto.sign secret (message context payload)

/-- `sign::verify`. -/
def verifyContext (publicKey : Key) (context : Context) (payload : Bytes) (signature : Signature) :
    Except WireError Unit :=
  if crypto.verify publicKey (message context payload) signature then .ok ()
  else .error .signature

/-! ## Sealed envelopes -/

end Crypto

/-- `HpkeKeypair`. -/
structure HpkeKeypair where
  publicKey : Key
  secret : Key
  deriving DecidableEq

/-- `HpkeKeypair::server_id`. -/
def HpkeKeypair.serverId (keys : HpkeKeypair) (crypto : Crypto) : ServerId :=
  crypto.serverId keys.publicKey

/-- `ENCAP_LEN`. -/
def encapLen : ℕ := 32

/-- `encap_key`. -/
def encapKey (ciphertext : Bytes) : Except WireError Key :=
  if ciphertext.length < encapLen then .error (.hpke "truncated enc")
  else copyFixed 32 (ciphertext.take encapLen)

namespace Crypto

variable (crypto : Crypto)

/-- `hpke::aad`. -/
def aad (destinationServerId : ServerId) : Bytes := protocolVersion :: destinationServerId.data

/-- `hpke::open`. -/
def openSealed (secret : Key) (destinationServerId : ServerId) (ciphertext : Bytes) :
    Except WireError Bytes := do
  let enc ← encapKey ciphertext
  crypto.hpkeOpen secret enc (ciphertext.drop encapLen) (aad destinationServerId)

/-- `open_outer`. -/
def openOuter (recipient : HpkeKeypair) (outer : OuterEnvelope) :
    Except WireError InnerEnvelope :=
  if outer.destinationServerId ≠ recipient.serverId crypto then .error .serverIdMismatch
  else do
    let plaintext ← crypto.openSealed recipient.secret outer.destinationServerId outer.hpkeCiphertext
    InnerEnvelope.decodePadded plaintext

/-- `seal_to_server`. -/
def sealToServer (entropy : Key) (recipient : Key) (inner : InnerEnvelope) :
    Except WireError OuterEnvelope := do
  let destination := crypto.serverId recipient
  let plaintext ← inner.encodePadded
  let ciphertext ← crypto.hpkeSeal entropy recipient (aad destination) plaintext
  .ok ⟨destination, ciphertext⟩

/-- Whether HPKE can seal is decided by the key it seals to. -/
def SealsByKey (usable : Key → Prop) : Prop :=
  ∀ entropy recipient aad plaintext,
    (∃ ciphertext, crypto.hpkeSeal entropy recipient aad plaintext = .ok ciphertext) ↔
      usable recipient

theorem exists_sealToServer_iff {usable : Key → Prop} (hseals : crypto.SealsByKey usable)
    (entropy recipient : Key) {inner : InnerEnvelope} {plaintext : Bytes}
    (hinner : inner.encodePadded = .ok plaintext) :
    (∃ outer, crypto.sealToServer entropy recipient inner = .ok outer) ↔ usable recipient := by
  rw [← hseals entropy recipient (aad (crypto.serverId recipient)) plaintext]
  constructor
  · rintro ⟨outer, houter⟩
    obtain ⟨bytes, hbytes, houter⟩ := bind_eq_ok.mp houter
    obtain ⟨ciphertext, hciphertext, -⟩ := bind_eq_ok.mp houter
    rw [hinner] at hbytes
    cases hbytes
    exact ⟨ciphertext, hciphertext⟩
  · rintro ⟨ciphertext, hciphertext⟩
    exact ⟨_, bind_eq_ok.mpr ⟨plaintext, hinner, bind_eq_ok.mpr ⟨ciphertext, hciphertext, rfl⟩⟩⟩

/-- HPKE opens what it sealed to a key pair: a sealed text is the encapsulated key, which comes from
the entropy alone, and a rest. No other key has the id of that pair. -/
structure Opens (keys : HpkeKeypair) (encap : Key → Key) : Prop where
  opens : ∀ entropy recipient aad plaintext ciphertext,
    crypto.hpkeSeal entropy recipient aad plaintext = .ok ciphertext →
      ∃ sealed, ciphertext = (encap entropy).data ++ sealed ∧ (recipient = keys.publicKey →
        crypto.hpkeOpen keys.secret (encap entropy) sealed aad = .ok plaintext)
  id : ∀ key, crypto.serverId key = keys.serverId crypto → key = keys.publicKey

theorem encapKey_append (enc : Key) (sealed : Bytes) : encapKey (enc.data ++ sealed) = .ok enc := by
  rw [encapKey, if_neg (by simp [encapLen]), List.take_left' (by simp [encapLen]), copyFixed_data]

/-- An envelope sealed to a key with the id of the server opens there to what was sealed. -/
theorem openOuter_of_sealToServer {keys : HpkeKeypair} {encap : Key → Key}
    (hopens : crypto.Opens keys encap) {entropy recipient : Key} {inner : InnerEnvelope}
    {outer : OuterEnvelope} (hid : crypto.serverId recipient = keys.serverId crypto)
    (h : crypto.sealToServer entropy recipient inner = .ok outer) :
    ∃ plaintext, inner.encodePadded = .ok plaintext ∧
      encapKey outer.hpkeCiphertext = .ok (encap entropy) ∧
      crypto.openOuter keys outer = InnerEnvelope.decodePadded plaintext := by
  obtain ⟨plaintext, hplaintext, h⟩ := bind_eq_ok.mp h
  obtain ⟨ciphertext, hciphertext, h⟩ := bind_eq_ok.mp h
  cases h
  obtain ⟨sealed, rfl, hopen⟩ := hopens.opens _ _ _ _ _ hciphertext
  refine ⟨plaintext, hplaintext, encapKey_append _ _, ?_⟩
  rw [openOuter, if_neg (not_not.mpr hid), openSealed]
  simp only [encapKey_append, bind, Except.bind]
  rw [List.drop_left' (by simp [encapLen]), hopen (hopens.id _ hid)]

/-- An envelope that comes out of a sealed one has been through `decode_padded`. -/
theorem canonical_of_openOuter {recipient : HpkeKeypair} {outer : OuterEnvelope}
    {inner : InnerEnvelope} (h : crypto.openOuter recipient outer = .ok inner) :
    inner.Canonical := by
  unfold openOuter at h
  split at h
  · cases h
  · obtain ⟨plaintext, -, h⟩ := bind_eq_ok.mp h
    exact InnerEnvelope.canonical_of_decodePadded h

/-- Primitives without secrets, for concrete runs: a digest is the first bytes, every signature is
accepted, and sealing puts the encapsulated key in front of the plaintext. -/
def transparent : Crypto where
  sha256 bytes := ⟨(bytes ++ List.replicate 32 0).take 32, by simp⟩
  isVerifyingKey _ := true
  verifyingKey secret := secret
  sign _ _ := .replicate 64 0
  verify _ _ _ := true
  hpkeOpen _ _ body _ := .ok body
  hpkeSeal entropy _ _ plaintext := .ok (entropy.data ++ plaintext)

end Crypto

/-- A blank envelope to a server, as the transparent primitives seal it. -/
def OuterEnvelope.blank (key : Key) : OuterEnvelope where
  destinationServerId := key
  hpkeCiphertext := key.data ++ (InnerEnvelope.blank key key).encodePadded.toOption.getD []

end NemoMessenger.Wire
