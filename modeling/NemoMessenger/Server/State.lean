import NemoMessenger.Data.FiniteMap
import NemoMessenger.Wire.Frame
import NemoMessenger.Wire.GroupObject

/-!
# The state of a home server

Mailboxes, directory, capability tokens, prekey queues, federation peers and the outbound queue,
together with the journal of what changed since the database last matched memory. Hash maps are
`FiniteMap`s and hash sets are lists without duplicates; capability tokens stay the ordered list the
source scans.
-/

namespace NemoMessenger.Server

open NemoMessenger.Data NemoMessenger.Wire

/-- `ServerError`. -/
inductive ServerError
  | wire (error : WireError)
  | denied
  | ownerAuth
  | alreadyRegistered
  | fetchLimit
  | notPinned
  | peerRefused
  | counterGap
  | helloMismatch
  | outboundExpired
  deriving DecidableEq, Repr

/-- `GroupId`. -/
structure GroupId where
  key : Key
  deriving DecidableEq

/-! ## Mailboxes and directory -/

/-- `Limits`. -/
structure Limits where
  mailboxMaxBytes : ℕ
  mailboxMaxAgeSecs : ℕ
  deriving DecidableEq

/-- `Limits::default`. -/
def Limits.default : Limits where
  mailboxMaxBytes := 500 * 1024 * 1024
  mailboxMaxAgeSecs := 14 * 24 * 3600

/-- `StoredEnvelope`. -/
structure StoredEnvelope where
  seq : ℕ
  receivedAt : ℕ
  expiresAt : ℕ
  inner : InnerEnvelope
  deriving DecidableEq

/-- `Mailbox`. -/
structure Mailbox where
  ownerPk : Key
  nextSeq : ℕ
  rows : FiniteMap ℕ StoredEnvelope
  idempotency : FiniteMap Key ℕ
  bytes : ℕ
  disabled : Bool

/-- `DirectoryRow`. -/
structure DirectoryRow where
  identityPublicKey : Key
  revocationPublicKey : Key
  binding : HomeServerBinding
  bindingSeq : UInt64
  revocation : Option RevocationStatement
  deriving DecidableEq

/-! ## Capability tokens -/

/-- `TokenKind`. -/
inductive TokenKind
  | share (mailbox : IdentityId) (expiresAt : ℕ) (burned : Bool) (reservedPrekey : Option Bytes)
  | contact (mailbox : IdentityId) (graceUntil : Option ℕ) (windowStart windowCount : ℕ)
  deriving DecidableEq

/-- `token_mailbox`. -/
def TokenKind.mailbox : TokenKind → IdentityId
  | share mailbox _ _ _ => mailbox
  | contact mailbox _ _ _ => mailbox

/-- `Vec<([u8; KEY_LEN], TokenKind)>`. -/
abbrev Tokens := List (Key × TokenKind)

namespace Tokens

/-- `token`: the last entry under a key. -/
def find (tokens : Tokens) (want : Key) : Option TokenKind :=
  (tokens.reverse.find? fun entry ↦ entry.1 = want).map Prod.snd

/-- A write through `token_mut`: replace the last entry under a key. -/
def set (want : Key) (kind : TokenKind) : Tokens → Tokens
  | [] => []
  | entry :: rest =>
    if entry.1 = want ∧ ∀ other ∈ rest, other.1 ≠ want then (entry.1, kind) :: rest
    else entry :: set want kind rest

/-- The keys in list order. -/
def keys (tokens : Tokens) : List Key := tokens.map Prod.fst

end Tokens

/-! ## Federation -/

/-- `PeerState`. -/
structure PeerState where
  bundle : ServerBundle
  refused : Bool
  lastRx : ℕ
  nextTx : ℕ
  helloDone : Bool
  windowSec : ℕ
  windowOk : ℕ
  seenEnc : FiniteMap Key ℕ

/-- `PeerState::restore`. -/
def PeerState.restore (bundle : ServerBundle) (refused : Bool) (lastRx nextTx : ℕ) : PeerState where
  bundle := bundle
  refused := refused
  lastRx := lastRx
  nextTx := nextTx
  helloDone := decide (lastRx > 0) || decide (nextTx > 1)
  windowSec := 0
  windowOk := 0
  seenEnc := ∅

/-- `PeerState::new`. -/
def PeerState.new (bundle : ServerBundle) : PeerState :=
  { PeerState.restore bundle false 0 1 with helloDone := false }

/-- `OutboundRow`. -/
structure OutboundRow where
  dest : ServerId
  outer : OuterEnvelope
  enqueuedAt : ℕ
  nextAttempt : ℕ
  backoffSecs : ℕ
  deriving DecidableEq

/-- `Enqueue`. -/
inductive Enqueue
  | localSeq (seq : ℕ)
  | queued
  deriving DecidableEq

/-- `PumpStats`. -/
structure PumpStats where
  delivered : ℕ := 0
  failed : ℕ := 0
  deferred : ℕ := 0
  expired : ℕ := 0
  deriving DecidableEq

/-! ## The journal -/

/-- `HomeDirty`. -/
structure HomeDirty where
  serverIdentity : Bool := false
  identities : List IdentityId := []
  mailboxNew : List (IdentityId × ℕ) := []
  mailboxAcked : FiniteMap IdentityId ℕ := ∅
  mailboxDropped : List (IdentityId × ℕ) := []
  mailboxCleared : List IdentityId := []
  tokens : List Key := []
  tokensDropped : List IdentityId := []
  tokensDroppedExact : List Key := []
  prekeys : List IdentityId := []
  memberships : List IdentityId := []
  peers : List ServerId := []
  outboundDirty : Bool := false
  seenEncNew : List Key := []
  seenEncCleared : Bool := false

namespace HomeDirty

/-- `is_clean`. -/
def isClean (dirty : HomeDirty) : Bool :=
  !dirty.serverIdentity && dirty.identities.isEmpty && dirty.mailboxNew.isEmpty &&
    dirty.mailboxAcked.entries.isEmpty && dirty.mailboxDropped.isEmpty &&
    dirty.mailboxCleared.isEmpty && dirty.tokens.isEmpty && dirty.tokensDropped.isEmpty &&
    dirty.tokensDroppedExact.isEmpty && dirty.prekeys.isEmpty && dirty.memberships.isEmpty &&
    dirty.peers.isEmpty && !dirty.outboundDirty && dirty.seenEncNew.isEmpty &&
    !dirty.seenEncCleared

/-- `ack_upto`: raise the mark of one owner. -/
def raiseMark (marks : FiniteMap IdentityId ℕ) (owner : IdentityId) (upto : ℕ) :
    FiniteMap IdentityId ℕ :=
  marks.insert owner (match marks.lookup owner with
    | some mark => max mark upto
    | none => upto)

/-- `absorb`. -/
def absorb (dirty other : HomeDirty) : HomeDirty where
  serverIdentity := dirty.serverIdentity || other.serverIdentity
  identities := dirty.identities ∪ other.identities
  mailboxNew := dirty.mailboxNew ++ other.mailboxNew
  mailboxAcked :=
    other.mailboxAcked.entries.foldl (fun marks e ↦ raiseMark marks e.1 e.2) dirty.mailboxAcked
  mailboxDropped := dirty.mailboxDropped ++ other.mailboxDropped
  mailboxCleared := dirty.mailboxCleared ∪ other.mailboxCleared
  tokens := dirty.tokens ∪ other.tokens
  tokensDropped := dirty.tokensDropped ∪ other.tokensDropped
  tokensDroppedExact := dirty.tokensDroppedExact ∪ other.tokensDroppedExact
  prekeys := dirty.prekeys ∪ other.prekeys
  memberships := dirty.memberships ∪ other.memberships
  peers := dirty.peers ∪ other.peers
  outboundDirty := dirty.outboundDirty || other.outboundDirty
  seenEncNew := dirty.seenEncNew ++ other.seenEncNew
  seenEncCleared := dirty.seenEncCleared || other.seenEncCleared

end HomeDirty

/-! ## The server -/

/-- What has happened to the server, for stating properties of whole runs. The source has no such
field and no operation reads it. -/
structure History where
  /-- Every row ever appended, with the mailbox its capability named. -/
  appended : List (IdentityId × StoredEnvelope) := []
  /-- Every envelope `ingest` ever answered with a sequence number. -/
  ingested : List (OuterEnvelope × ℕ) := []
  /-- Every row garbage collection ever dropped. -/
  evicted : List (IdentityId × ℕ) := []

/-- Record what garbage collection drops from a mailbox. -/
def History.evict (history : History) (owner : IdentityId) (dropped : List ℕ) : History :=
  { history with evicted := history.evicted ++ dropped.map fun seq ↦ (owner, seq) }

/-- `HomeServer`. The signing key is the 32 bytes of the secret. -/
structure HomeServer where
  hpke : HpkeKeypair
  sign : Key
  bundle : ServerBundle
  now : ℕ
  limits : Limits
  mailboxes : FiniteMap IdentityId Mailbox
  directory : FiniteMap IdentityId DirectoryRow
  memberships : FiniteMap IdentityId (List GroupId)
  tokens : Tokens
  prekeys : FiniteMap IdentityId (List Bytes)
  seenEnc : FiniteMap Key ℕ
  peers : FiniteMap ServerId PeerState
  outbound : List OutboundRow
  lastTokenSweep : ℕ
  dirty : HomeDirty
  ownerNonces : FiniteMap Key ℕ
  history : History

namespace HomeServer

variable (crypto : Crypto)

/-- `server_id`. -/
def serverId (home : HomeServer) : ServerId := home.hpke.serverId crypto

/-- The bundle a server signs for its own keys. -/
def signedBundle (hpke : HpkeKeypair) (sign : Key) (host : Text) (s2sPort : UInt16) :
    ServerBundle :=
  ServerBundle.sign crypto sign
    { serverId := hpke.serverId crypto
      serverHpkePublicKey := hpke.publicKey
      serverSignPublicKey := crypto.verifyingKey sign
      host := host
      s2sPort := s2sPort.toUInt64
      signature := .replicate 64 0 }

/-- `from_identity`. -/
def fromIdentity (hpke : HpkeKeypair) (sign : Key) (host : Text) (s2sPort : UInt16) :
    HomeServer where
  hpke := hpke
  sign := sign
  bundle := signedBundle crypto hpke sign host s2sPort
  now := 1700000000
  limits := .default
  mailboxes := ∅
  directory := ∅
  memberships := ∅
  tokens := []
  prekeys := ∅
  seenEnc := ∅
  peers := ∅
  outbound := []
  lastTokenSweep := 0
  dirty := {}
  ownerNonces := ∅
  history := {}

/-- `new`, with the key pairs it would generate. -/
def new (hpke : HpkeKeypair) (sign : Key) : HomeServer :=
  fromIdentity crypto hpke sign ⟨"local", Text.local_size⟩ 8443

/-- `with_limits`. -/
def withLimits (hpke : HpkeKeypair) (sign : Key) (limits : Limits) : HomeServer :=
  { new crypto hpke sign with limits }

/-- `rebind_host`. -/
def rebindHost (home : HomeServer) (host : Text) (s2sPort : UInt16) : HomeServer :=
  { home with
    bundle := signedBundle crypto home.hpke home.sign host s2sPort
    dirty := { home.dirty with serverIdentity := true } }

/-- `advertise`. -/
def advertise (hpke : HpkeKeypair) (sign : Key) (host : Text) (s2sPort : UInt16) : HomeServer :=
  (new crypto hpke sign).rebindHost crypto host s2sPort

end HomeServer

end NemoMessenger.Server
