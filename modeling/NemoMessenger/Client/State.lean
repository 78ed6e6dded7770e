import NemoMessenger.Data.FiniteMap
import NemoMessenger.Wire.Signed
import NemoMessenger.Wire.GroupObject

/-!
# State of a client

What an installation holds in memory: its keys with the Double Ratchet sessions, the session with
its home server, its MLS groups, and the conversations it shows. The serialised forms libsignal and
OpenMLS keep of their objects stand for those objects.
-/

namespace NemoMessenger.Client

open NemoMessenger.Data NemoMessenger.Wire

/-- `CoreError`, and `text` for the errors of the shell's interface that have a text of their
own. -/
inductive CoreError
  | wire (e : WireError)
  | signal (message : String)
  | emptyPrekeyStock
  | identityMismatch
  | badKey
  | badCiphertext
  | textTooLong
  | emojiTooLong
  | directIceForbidden
  | dtlsFingerprintMismatch
  | call (message : String)
  | mls (message : String)
  | mlsWrongEpoch
  | staleMlsUpdate
  | unframedRemove
  | externalMlsJoin
  | mlsReinit
  | wrongCiphersuite
  | badRemoveBundle
  | pendingCommit
  | leafExtensionViolation
  | unannouncedSignerChange
  | credentialIdMismatch
  | badIntro
  | unsignedResponse
  | wrongMailboxType
  | callsUnavailable
  | revoked
  | boundInvite
  | bindingDowngrade
  | denied
  | alreadyRegistered
  | homeHttp (status : ℕ)
  | transport (message : String)
  | unknownContact
  | notRegistered
  | vaultCorrupt
  | vaultIo (message : String)
  | vaultDetached
  | text (message : String)
  deriving DecidableEq, Repr

/-- `mls_retryable`: the ciphertext is for a live group that cannot apply it yet. -/
def CoreError.mlsRetryable : CoreError → Bool
  | mlsWrongEpoch | pendingCommit | unframedRemove | badRemoveBundle | externalMlsJoin | mlsReinit
  | leafExtensionViolation | credentialIdMismatch | wrongCiphersuite | unannouncedSignerChange =>
    true
  | _ => false

/-! ## Conversations -/

/-- The texts `kind` takes in a row. -/
inductive RowKind
  | text
  | file
  | reaction
  | disappear
  | callInvite
  | callRinging
  | callAnswer
  | callReject
  | callCancel
  | callEnd
  | callIce
  | bindingConflict
  | lost
  | revoked
  | expired
  | deleted
  | removed
  | reactionRemoved
  | other (name : String)
  deriving DecidableEq, Repr

/-- `kind`. -/
def RowKind.name : RowKind → String
  | text => ""
  | file => "file"
  | reaction => "reaction"
  | disappear => "disappear"
  | callInvite => "call_invite"
  | callRinging => "call_ringing"
  | callAnswer => "call_answer"
  | callReject => "call_reject"
  | callCancel => "call_cancel"
  | callEnd => "call_end"
  | callIce => "call_ice"
  | bindingConflict => "binding_conflict"
  | lost => "lost"
  | revoked => "revoked"
  | expired => "expired"
  | deleted => "deleted"
  | removed => "removed"
  | reactionRemoved => "reaction_removed"
  | other name => name

/-- `DisplayRow`, and `InboxRow` with the same fields in the vault. -/
structure DisplayRow where
  convId : String
  convSeq : UInt64
  text : String
  sentAt : UInt64
  fileName : String
  fileMime : String
  fileBytes : Bytes
  fetchToken : String
  kind : RowKind
  emoji : String
  target : UInt64
  hidden : Bool
  displayedAt : UInt64
  outgoing : Bool
  senderId : String
  senderName : String
  replyTo : UInt64
  deriving DecidableEq

/-! ## The home server as the client knows it -/

/-- `HostCred`. -/
structure HostCred where
  credentialId : Key
  credentialSecret : Key
  deriving DecidableEq

/-- `HostGroup`. -/
structure HostGroup where
  groupId : Key
  cred : HostCred
  hostBase : String
  deriving DecidableEq

/-- `HostAccept`. -/
structure HostAccept where
  pendingId : Key
  cred : HostCred
  inviteeBinding : Option Key
  salt : Option Key
  deriving DecidableEq

/-- `PendingLookup`. -/
structure PendingLookup where
  credentialId : Key
  inviteeBinding : Option Key
  salt : Option Key
  deriving DecidableEq

/-- `ContactPin`. -/
structure ContactPin where
  identityId : IdentityId
  identityPublicKey : Key
  revocationPublicKey : Key
  seq : UInt64
  deriving DecidableEq

/-- `StoredContact`. -/
structure StoredContact where
  pin : ContactPin
  deliveryCapability : Key
  destHpke : Key
  lastDiscoveryUnix : UInt64
  revoked : Bool
  homeOrigin : String
  deriving DecidableEq

/-- `PrivacyMode`. -/
inductive PrivacyMode
  | normal
  | private_
  | high
  | maximum
  deriving DecidableEq, Repr

/-- `PrivacyMode::High | PrivacyMode::Maximum`. -/
def PrivacyMode.anonymous : PrivacyMode → Bool
  | high | maximum => true
  | normal | private_ => false

/-- `HomeState`. -/
structure HomeState where
  bundle : ServerBundle
  cursor : UInt64
  contacts : FiniteMap IdentityId StoredContact
  groups : List HostGroup
  homeBase : String
  privacy : PrivacyMode
  deriving DecidableEq

/-! ## Double Ratchet sessions -/

/-- What `SignalStore` keeps under the address of a peer. -/
structure PeerRecord where
  session : Option Bytes
  identity : Option Bytes
  deriving DecidableEq

/-- The prekey stores of `SignalStore`. -/
structure PreKeyStores where
  preKeys : FiniteMap ℕ Bytes
  signedPreKeys : FiniteMap ℕ Bytes
  kyberPreKeys : FiniteMap ℕ Bytes
  kyberUsed : FiniteMap (ℕ × ℕ) (List Bytes)
  deriving DecidableEq

/-- `SignalStore`. Every address is that of an identity id. -/
structure SignalStore where
  keyPair : Bytes
  registrationId : ℕ
  known : FiniteMap IdentityId Bytes
  preKeyStores : PreKeyStores
  sessions : FiniteMap IdentityId Bytes
  deriving DecidableEq

/-- What `encode_snapshot` writes of an `Installation`. -/
structure Snapshot where
  identity : Key
  revocationPublicKey : Key
  store : SignalStore
  nextPreKeyId : UInt32
  nextKyberId : UInt32
  signedPreKeyId : UInt32
  signedPreKeyAt : UInt64
  bindingSeq : UInt64
  deriving DecidableEq

/-! ## MLS groups -/

/-- A leaf of the ratchet tree: the identity of its basic credential, its signature key and the
extensions `0xF001` and `0xF002`. -/
structure Leaf where
  index : ℕ
  identity : Bytes
  signatureKey : Bytes
  credentialIdExt : Option Bytes
  groupSigningExt : Option Bytes
  deriving DecidableEq

/-- `StagedCommit`: the proposals of a validated commit, and the group once it is merged. -/
structure StagedCommit where
  updates : List (ℕ × Leaf)
  adds : List Leaf
  removes : List ℕ
  pathLeaf : Option Leaf
  external : Bool
  leaves : List Leaf
  secrets : Bytes
  deriving DecidableEq

/-- An MLS group in which nothing is staged. -/
structure MlsTree where
  epoch : ℕ
  leaves : List Leaf
  ownIndex : ℕ
  secrets : Bytes
  deriving DecidableEq

/-- `MlsGroup`, as OpenMLS keeps it in the storage of its provider. -/
structure MlsGroup extends MlsTree where
  pendingCommit : Option StagedCommit
  deriving DecidableEq

/-- The storage of the MLS provider: the groups by id, and key packages and signature keys. -/
structure MlsStorage where
  groups : FiniteMap Bytes MlsGroup
  keys : FiniteMap Bytes Bytes
  deriving DecidableEq

/-- `PendingKind`. -/
inductive PendingKind
  | update
  | add
  | remove
  | signingKeyRotate
  deriving DecidableEq, Repr

/-- `PendingOwn`. -/
structure PendingOwn where
  kind : PendingKind
  newSigner : Option Key
  deriving DecidableEq

/-- `Group` without its `MlsGroup`, which is the one under `mlsGroupId` in the storage. `mls_signer`
is the key pair of `group_signing`, and `credential_ids` is read off the tree. -/
structure GroupRecord where
  mlsGroupId : Bytes
  groupSigning : Key
  credentialId : Key
  lastOwnUpdate : ℕ
  pending : Option PendingOwn
  announcedKeys : FiniteMap Bytes Key
  deriving DecidableEq

/-- `PendingJoin`. -/
structure PendingJoin where
  credentialId : Key
  groupSigning : Key
  keyPackage : Bytes
  deriving DecidableEq

/-- `Installation`. -/
structure Installation extends Snapshot where
  mlsStorage : MlsStorage
  deriving DecidableEq

/-! ## The memory of the client -/

/-- `LiveGroup`. -/
structure LiveGroup where
  host : HostGroup
  mls : GroupRecord
  nickname : String
  deriving DecidableEq

/-- `PendingEntry`. -/
structure PendingEntry where
  pending : PendingJoin
  host : HostAccept
  deriving DecidableEq

/-- `LocalSignal`. -/
structure LocalSignal where
  callId : FixedBytes 16
  sdp : String
  dtlsFp : String
  ice : List String
  deriving DecidableEq

/-- `PendingInvite`. -/
structure PendingInvite where
  peer : String
  signal : LocalSignal
  expiresAt : UInt64
  deriving DecidableEq

/-- What a peer connection is told of the other side. -/
inductive RemoteInput
  | description (sdp : String)
  | candidate (ice : String)
  deriving DecidableEq, Repr

/-- `Call`, as far as messages reach it: its id, and what its peer connection has taken of the other
side so far. -/
structure LiveCall where
  callId : FixedBytes 16
  remote : List RemoteInput
  deriving DecidableEq

/-- `Call::answer_with` tells the peer connection what the invite brought. -/
def LiveCall.answering (signal : LocalSignal) (callId : FixedBytes 16) : LiveCall where
  callId
  remote := .description signal.sdp :: signal.ice.map .candidate

end NemoMessenger.Client
