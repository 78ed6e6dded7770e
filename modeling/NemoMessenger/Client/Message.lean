import NemoMessenger.Client.State

/-!
# Application messages and discovery records

What travels inside the ratchets, and the checks a client makes on the discovery records and on the
introductions of its peers.
-/

namespace NemoMessenger.Client

open NemoMessenger.Data NemoMessenger.Wire

open Cbor (Value)

/-! ## Application messages -/

/-- `AppHeader`. -/
structure AppHeader where
  convSeq : UInt64
  sentAt : UInt64
  replyTo : Option UInt64
  deriving DecidableEq

/-- `FileMeta`. -/
structure FileMeta where
  name : String
  mime : String
  size : UInt64
  deriving DecidableEq

/-- `CapabilityIntro`. -/
structure CapabilityIntro where
  identityId : IdentityId
  identityPublicKey : Key
  revocationPublicKey : Key
  destHpke : Key
  bindingSeq : UInt64
  sessionKey : Bytes
  recipient : IdentityId
  signature : Signature
  deriving DecidableEq

/-- `AppBody`. -/
inductive AppBody
  | text (text : String)
  | attachment (encFile : Bytes) (file : FileMeta) (fetchToken : Option Key)
  | reaction (target : UInt64) (emoji : String)
  | delete (target : UInt64)
  | protocolAck (upto : UInt64)
  | read (upto : UInt64)
  | capability (contactCapability : Key) (intro : Option CapabilityIntro)
  | bindingGossip (identityId : IdentityId) (seq : UInt64) (serverId : ServerId)
  | disappear (seconds : UInt64)
  | groupName (groupId : Key) (name : String)
  | callInvite (signal : LocalSignal) (expiresAt : UInt64)
  | callRinging (callId : FixedBytes 16)
  | callAnswer (signal : LocalSignal)
  | callIce (callId : FixedBytes 16) (ice : List String)
  | callReject (callId : FixedBytes 16)
  | callCancel (callId : FixedBytes 16)
  | callEnd (callId : FixedBytes 16)
  | unknown (msgType : String)
  deriving DecidableEq

/-- `AppMessage`. -/
structure AppMessage where
  header : AppHeader
  body : AppBody
  deriving DecidableEq

/-- A message that answers no other. -/
def AppMessage.fresh (convSeq sentAt : UInt64) (body : AppBody) : AppMessage where
  header := { convSeq, sentAt, replyTo := none }
  body

namespace CapabilityIntro

/-- `signed_payload`. -/
def signedPayload (intro : CapabilityIntro) (contactCapability : Key) : Bytes :=
  Cbor.encode (.map
    [(0, versionValue), (1, .bytes intro.recipient.data), (2, .bytes intro.sessionKey),
      (3, .bytes contactCapability.data), (4, .bytes intro.identityPublicKey.data),
      (5, .bytes intro.revocationPublicKey.data), (6, .bytes intro.destHpke.data),
      (7, .uint intro.bindingSeq)])

/-- `verify`. -/
def verify (crypto : Crypto) (intro : CapabilityIntro) (contactCapability : Key)
    (recipient : IdentityId) : Except CoreError Unit :=
  if intro.recipient ≠ recipient then .error .badIntro
  else if crypto.identityId intro.identityPublicKey ≠ intro.identityId then .error .badIntro
  else if !crypto.isVerifyingKey intro.identityPublicKey then .error .badIntro
  else match crypto.verifyContext intro.identityPublicKey .capabilityIntro
      (intro.signedPayload contactCapability) intro.signature with
    | .ok () => .ok ()
    | .error _ => .error .badIntro

end CapabilityIntro

/-- Hand an error of the wire formats on. -/
def liftWire {α : Type} : Except WireError α → Except CoreError α
  | .ok a => .ok a
  | .error e => .error (.wire e)

theorem eq_ok_of_liftWire {α : Type} {result : Except WireError α} {a : α}
    (h : liftWire result = .ok a) : result = .ok a := by
  cases result with
  | ok _ =>
    cases h
    rfl
  | error e => cases h

/-! ## Discovery -/

/-- `Discovery`. -/
structure Discovery where
  identityPublicKey : Key
  revocationPublicKey : Key
  binding : HomeServerBinding
  revocation : Option RevocationStatement
  deriving DecidableEq

/-- `SignedPrekey`. -/
structure SignedPrekey where
  identityPublicKey : Key
  prekeyId : UInt64
  libsignalPrekey : Bytes
  signature : Signature
  deriving DecidableEq

namespace SignedPrekey

/-- The signed fields. -/
def unsignedPairs (blob : SignedPrekey) : List (UInt64 × Value) :=
  [(0, versionValue), (1, .bytes blob.identityPublicKey.data), (2, .uint blob.prekeyId),
    (3, .bytes blob.libsignalPrekey)]

/-- `sign`. -/
def sign (crypto : Crypto) (identity : Key) (prekeyId : UInt64) (libsignalPrekey : Bytes) :
    SignedPrekey :=
  let blob : SignedPrekey :=
    { identityPublicKey := crypto.verifyingKey identity, prekeyId, libsignalPrekey,
      signature := .replicate 64 0 }
  { blob with
    signature := crypto.signContext identity .prekey (Cbor.encode (.map blob.unsignedPairs)) }

/-- `verify`. -/
def verify (crypto : Crypto) (blob : SignedPrekey) (pinnedIdentity : Key) :
    Except WireError Unit :=
  if blob.identityPublicKey ≠ pinnedIdentity then .error .signature
  else
    crypto.verifyContext pinnedIdentity .prekey (Cbor.encode (.map blob.unsignedPairs))
      blob.signature

end SignedPrekey

/-- `InviteeProof`. -/
structure InviteeProof where
  groupId : Key
  pendingId : Key
  signature : Signature
  deriving DecidableEq

namespace InviteeProof

/-- `payload`. -/
def payload (groupId pendingId : Key) : Bytes :=
  Cbor.encode (.map [(0, versionValue), (1, .bytes groupId.data), (2, .bytes pendingId.data)])

/-- `sign`. -/
def sign (crypto : Crypto) (identity groupId pendingId : Key) : InviteeProof where
  groupId
  pendingId
  signature := crypto.signContext identity .inviteeProof (payload groupId pendingId)

/-- `verify`. -/
def verify (crypto : Crypto) (proof : InviteeProof) (invitee : Key) : Except WireError Unit :=
  crypto.verifyContext invitee .inviteeProof (payload proof.groupId proof.pendingId)
    proof.signature

end InviteeProof

/-- `JoinRequest`. -/
structure JoinRequest where
  groupId : Key
  pendingId : Key
  keyPackage : Bytes
  signingPk : Key
  cap : Key
  hpke : Key
  credentialId : Key
  nonce : Key
  proof : Option InviteeProof
  inviteeBinding : Option Key
  deriving DecidableEq

/-- `DISCOVERY_REFRESH_SECS`. -/
def discoveryRefreshSecs : ℕ := 12 * 3600

namespace Discovery

/-- `verify`. -/
def verify (crypto : Crypto) (disc : Discovery) (now : ℕ) : Except CoreError Unit := do
  if !crypto.isVerifyingKey disc.identityPublicKey then .error (.wire .signature)
  else
    liftWire (disc.binding.verify crypto disc.identityPublicKey now)
    match disc.revocation with
    | none => .ok ()
    | some stmt =>
      if !crypto.isVerifyingKey disc.revocationPublicKey then .error (.wire .signature)
      else
        liftWire (stmt.verify crypto disc.revocationPublicKey)
        if stmt.identityId ≠ crypto.identityId disc.identityPublicKey then
          .error .identityMismatch
        else .ok ()

/-- `check_not_revoked`. -/
def checkNotRevoked (disc : Discovery) : Except CoreError Unit :=
  if disc.revocation.isSome then .error .revoked else .ok ()

end Discovery

/-- `resolve_contact`. -/
def resolveContact (crypto : Crypto) (card : ContactCard) (disc : Discovery) (now : ℕ) :
    Except CoreError HomeServerBinding := do
  liftWire (card.verify crypto now)
  disc.verify crypto now
  if disc.identityPublicKey ≠ card.identityPublicKey then .error .identityMismatch
  else if disc.revocationPublicKey ≠ card.revocationPublicKey then .error .identityMismatch
  else
    disc.checkNotRevoked
    if disc.binding.seq < card.binding.seq then .error .bindingDowngrade else .ok disc.binding

namespace ContactPin

/-- `from_card`. -/
def fromCard (crypto : Crypto) (card : ContactCard) : ContactPin where
  identityId := card.identityId crypto
  identityPublicKey := card.identityPublicKey
  revocationPublicKey := card.revocationPublicKey
  seq := card.binding.seq

/-- `refresh`. -/
def refresh (crypto : Crypto) (pin : ContactPin) (disc : Discovery) (now : ℕ) :
    Except CoreError (HomeServerBinding × ContactPin) := do
  disc.verify crypto now
  if disc.identityPublicKey ≠ pin.identityPublicKey then .error .identityMismatch
  else
    disc.checkNotRevoked
    if disc.binding.seq < pin.seq then .error .bindingDowngrade
    else .ok (disc.binding, { pin with seq := disc.binding.seq })

end ContactPin

/-- `BindingGossipCheck`. -/
inductive BindingGossipCheck
  | matches_
  | ahead
  | conflict
  deriving DecidableEq, Repr

/-- `classify_binding_gossip`. -/
def classifyBindingGossip (pinSeq : UInt64) (pinServer : ServerId) (gossipSeq : UInt64)
    (gossipServer : ServerId) : BindingGossipCheck :=
  if gossipSeq = pinSeq ∧ gossipServer = pinServer then .matches_
  else if gossipSeq > pinSeq then .ahead
  else .conflict

end NemoMessenger.Client
