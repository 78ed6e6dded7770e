import NemoMessenger.Wire.Signed

/-!
# Objects of the group host

Invites and admissions are signed CBOR maps; the bodies a host reads from its group streams are
fixed-width frames in front of padding. The commit inside a `RemoveBundle` is opaque to the host.
-/

namespace NemoMessenger.Wire

open Cbor (Value)

/-- `allowed_intro_ttl`: five minutes, half an hour or an hour. -/
def allowedIntroTtl (ttlSecs : UInt64) : Bool :=
  ttlSecs == 300 || ttlSecs == 1800 || ttlSecs == 3600

/-! ## Joining -/

/-- `GroupInvite`. -/
structure GroupInvite where
  groupId : Key
  nonce : Key
  ttlSecs : UInt64
  inviteeBinding : Option Key
  salt : Option Key
  signature : Signature
  deriving DecidableEq

namespace GroupInvite

/-- `payload_map`. -/
def payloadMap (invite : GroupInvite) : List (UInt64 × Value) :=
  [(0, versionValue), (1, .bytes invite.groupId.data), (2, .bytes invite.nonce.data),
    (3, .uint invite.ttlSecs)] ++
    (invite.inviteeBinding.toList.map fun b ↦ (4, .bytes b.data)) ++
    invite.salt.toList.map fun s ↦ (5, .bytes s.data)

/-- `GroupInvite::verify`. -/
def verify (crypto : Crypto) (invite : GroupInvite) (memberKey : Key) : Except WireError Unit :=
  if !allowedIntroTtl invite.ttlSecs then .error (.cbor "intro ttl must be 5m, 30m, or 1h")
  else if invite.inviteeBinding.isSome ≠ invite.salt.isSome then
    .error (.cbor "bound invite needs binding and salt")
  else
    crypto.verifyContext memberKey .groupInvite (Cbor.encode (.map invite.payloadMap))
      invite.signature

end GroupInvite

/-- `GroupAdmit`. -/
structure GroupAdmit where
  groupId : Key
  pendingId : Key
  signature : Signature
  deriving DecidableEq

namespace GroupAdmit

/-- `GroupAdmit::payload`. -/
def payload (groupId pendingId : Key) : Bytes :=
  Cbor.encode (.map [(0, versionValue), (1, .bytes groupId.data), (2, .bytes pendingId.data),
    (3, .text "admit")])

/-- `GroupAdmit::verify`. -/
def verify (crypto : Crypto) (admission : GroupAdmit) (memberKey : Key) : Except WireError Unit :=
  crypto.verifyContext memberKey .groupAdmit (payload admission.groupId admission.pendingId)
    admission.signature

end GroupAdmit

/-! ## Stream bodies -/

/-- `RemoveBundle`. -/
structure RemoveBundle where
  credentialId : Key
  sidecarSignature : Signature
  mlsCommit : Bytes
  deriving DecidableEq

namespace RemoveBundle

/-- `sidecar_payload`: binds the credential to one group and one commit. -/
def sidecarPayload (crypto : Crypto) (groupId credentialId : Key) (mlsCommit : Bytes) : Bytes :=
  Cbor.encode (.map [(0, .bytes credentialId.data), (1, .text "revoke"), (2, .bytes groupId.data),
    (3, .bytes (crypto.sha256 mlsCommit).data)])

/-- `verify_sidecar`. -/
def verifySidecar (crypto : Crypto) (bundle : RemoveBundle) (appenderKey groupId : Key) :
    Except WireError Unit :=
  crypto.verifyContext appenderKey .removeSidecar
    (sidecarPayload crypto groupId bundle.credentialId bundle.mlsCommit) bundle.sidecarSignature

/-- `HDR`. -/
def headerLen : ℕ := 32 + 64 + 4

/-- `RemoveBundle::encode`. -/
def encode (bundle : RemoveBundle) : Except WireError Bytes :=
  if bundle.mlsCommit.length < 2 ^ 32 then
    .ok (bundle.credentialId.data ++ (bundle.sidecarSignature.data ++
      (toBeBytes 4 bundle.mlsCommit.length ++ bundle.mlsCommit)))
  else .error .noBucket

/-- `RemoveBundle::decode`. -/
def decode (body : Bytes) : Except WireError RemoveBundle := do
  if body.length < headerLen then .error .badEnvelope
  else do
    let credentialId ← copyFixed 32 (body.take 32)
    let sidecarSignature ← copyFixed 64 ((body.drop 32).take 64)
    let n := fromBeBytes ((body.drop 96).take 4)
    if body.length < headerLen + n then .error .badEnvelope
    else .ok { credentialId, sidecarSignature, mlsCommit := (body.drop headerLen).take n }

end RemoveBundle

/-- `SigningKeyReplace`. -/
structure SigningKeyReplace where
  newPublicKey : Key
  signature : Signature
  deriving DecidableEq

namespace SigningKeyReplace

/-- `SigningKeyReplace::payload`. -/
def payload (newPublicKey : Key) : Bytes := Cbor.encode (.map [(0, .bytes newPublicKey.data)])

/-- `SigningKeyReplace::verify`. -/
def verify (crypto : Crypto) (replace : SigningKeyReplace) (currentKey : Key) :
    Except WireError Unit :=
  crypto.verifyContext currentKey .signingKeyReplace (payload replace.newPublicKey)
    replace.signature

/-- `SigningKeyReplace::decode`. -/
def decode (body : Bytes) : Except WireError SigningKeyReplace := do
  if body.length < 32 + 64 then .error .badEnvelope
  else do
    let newPublicKey ← copyFixed 32 (body.take 32)
    let signature ← copyFixed 64 ((body.drop 32).take 64)
    .ok { newPublicKey, signature }

end SigningKeyReplace

/-- `AttachmentSizeBucket`. -/
inductive AttachmentSizeBucket
  | a1
  | a2
  | a3
  | a4
  deriving DecidableEq, Repr

namespace AttachmentSizeBucket

/-- The discriminants. -/
def toU8 : AttachmentSizeBucket → UInt8
  | a1 => 1
  | a2 => 2
  | a3 => 3
  | a4 => 4

/-- `AttachmentSizeBucket::from_u8`. -/
def fromU8 (v : UInt8) : Except WireError AttachmentSizeBucket :=
  if v = 1 then .ok a1
  else if v = 2 then .ok a2
  else if v = 3 then .ok a3
  else if v = 4 then .ok a4
  else .error .badEnvelope

/-- `inner_len`. -/
def innerLen : AttachmentSizeBucket → ℕ
  | a1 => Wire.a1
  | a2 => Wire.a2
  | a3 => Wire.a3
  | a4 => Wire.a4

end AttachmentSizeBucket

/-- `AttachmentReserve`. -/
structure AttachmentReserve where
  fetchToken : Key
  sizeBucket : AttachmentSizeBucket
  ttlBucket : TtlBucket
  deriving DecidableEq

/-- `AttachmentReserve::encode`. -/
def AttachmentReserve.encode (reserve : AttachmentReserve) : Bytes :=
  reserve.fetchToken.data ++ [reserve.sizeBucket.toU8, reserve.ttlBucket.bucket]

/-- `AttachmentReserve::decode`. -/
def AttachmentReserve.decode (body : Bytes) : Except WireError AttachmentReserve := do
  if body.length < 32 + 2 then .error .badEnvelope
  else do
    let fetchToken ← copyFixed 32 (body.take 32)
    let sizeBucket ← AttachmentSizeBucket.fromU8 (body.getD 32 0)
    let ttlBucket ← TtlBucket.fromU8 (body.getD 33 0)
    .ok { fetchToken, sizeBucket, ttlBucket }

end NemoMessenger.Wire
