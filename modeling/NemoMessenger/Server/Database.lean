import NemoMessenger.Data.Journal
import NemoMessenger.Server.Home
import NemoMessenger.Server.Group

/-!
# The database

The tables of the schema, the transaction that replays a journal on them, and the reload that builds
a home server and a group host from them. Keys are columns of 32 bytes; a table with a primary key
is a `FiniteMap`, and a table read back in insertion order is a list. A violated primary key,
unique index or foreign key fails the statement and with it the transaction.
-/

namespace NemoMessenger.Server

open NemoMessenger.Data NemoMessenger.Wire

/-- `PersistError`. -/
inductive PersistError
  | sqlx
  | corrupt (what : String)
  | identity (what : String)
  deriving DecidableEq, Repr

/-! ## Tables -/

/-- A row of `server_identity`. -/
structure ServerIdentityRow where
  hpkeSecret : Option Bytes
  hpkePublic : Bytes
  signSecret : Option Bytes
  host : Text
  s2sPort : UInt64
  deriving DecidableEq

/-- A row of `identities`. -/
structure IdentityRow where
  identityPublicKey : Key
  revocationPublicKey : Key
  bindingCbor : Bytes
  bindingSeq : UInt64
  revocationCbor : Option Bytes
  mailboxDisabled : Bool
  mailboxNextSeq : ℕ
  mailboxBytes : ℕ
  deriving DecidableEq

/-- A row of `mailbox_rows`. -/
structure MailboxRow where
  receivedAt : ℕ
  expiresAt : ℕ
  innerPadded : Bytes
  idempotencyToken : Key
  deriving DecidableEq

/-- A row of `tokens`. -/
structure TokenRow where
  kind : ℕ
  mailbox : IdentityId
  expiresAt : Option ℕ
  burned : Bool
  reservedPrekey : Option Bytes
  graceUntil : Option ℕ
  windowStart : Option ℕ
  windowCount : ℕ
  deriving DecidableEq

/-- A row of `peers`. -/
structure PeerRow where
  bundleCbor : Bytes
  refused : Bool
  lastRecvCounter : ℕ
  lastSendCounter : ℕ
  deriving DecidableEq

/-- A row of `outbound`. -/
structure OutboundRecord where
  dest : ServerId
  outerCbor : Bytes
  enqueuedAt : ℕ
  nextAttempt : ℕ
  backoffSecs : ℕ
  deriving DecidableEq

/-- A row of `groups`. -/
structure GroupRow where
  nextSeq : ℕ
  bytes : ℕ
  creator : Option Key
  deriving DecidableEq

/-- A row of `group_creds`. -/
structure CredRow where
  credentialSecret : Key
  live : Bool
  signingPk : Option Key
  fanoutCapability : Option Key
  fanoutHpke : Option Key
  deriving DecidableEq

/-- A row of `group_stream`. -/
structure StreamRecord where
  type : UInt8
  body : Bytes
  receivedAt : ℕ
  deriving DecidableEq

/-- The database. Invites, pending joins and file slots have the columns of the records in memory. -/
structure Database where
  serverIdentity : Option ServerIdentityRow
  identities : FiniteMap IdentityId IdentityRow
  mailboxRows : FiniteMap (IdentityId × ℕ) MailboxRow
  tokens : FiniteMap Key TokenRow
  prekeys : List (IdentityId × Bytes)
  memberships : List (IdentityId × GroupId)
  peers : FiniteMap ServerId PeerRow
  outbound : List OutboundRecord
  hpkeSeen : FiniteMap Key ℕ
  groups : FiniteMap GroupId GroupRow
  groupCreds : FiniteMap (GroupId × Key) CredRow
  groupInvites : FiniteMap (GroupId × Key) StoredInvite
  groupPending : FiniteMap (GroupId × Key) PendingRecord
  groupStream : FiniteMap (GroupId × ℕ) StreamRecord
  groupFiles : FiniteMap Key FileSlot

/-- The tables as the migrations create them. -/
def Database.empty : Database where
  serverIdentity := none
  identities := ∅
  mailboxRows := ∅
  tokens := ∅
  prekeys := []
  memberships := []
  peers := ∅
  outbound := []
  hpkeSeen := ∅
  groups := ∅
  groupCreds := ∅
  groupInvites := ∅
  groupPending := ∅
  groupStream := ∅
  groupFiles := ∅

/-! ## Rows of memory -/

/-- `encode_binding`. -/
def encodeBinding (binding : HomeServerBinding) : Bytes := Cbor.encode binding.toCborValue

/-- `decode_binding`. -/
def decodeBinding (bytes : Bytes) : Except PersistError HomeServerBinding :=
  match Cbor.decode bytes with
  | .error _ => .error (.corrupt "binding cbor")
  | .ok value =>
    match HomeServerBinding.fromCborValue value with
    | .error _ => .error (.corrupt "binding")
    | .ok binding => .ok binding

/-- `upsert_server_identity`: the secrets stay out of the database. -/
def serverIdentityRow (home : HomeServer) : ServerIdentityRow where
  hpkeSecret := none
  hpkePublic := home.hpke.publicKey.data
  signSecret := none
  host := home.bundle.host
  s2sPort := home.bundle.s2sPort

/-- `identity_row`. -/
def identityRow (home : HomeServer) (id : IdentityId) : IdentityRow :=
  let dir := home.directory.lookup id
  let box := home.mailboxes.lookup id
  { identityPublicKey :=
      ((dir.map (·.identityPublicKey)).or (box.map (·.ownerPk))).getD (.replicate 32 0)
    revocationPublicKey := (dir.map (·.revocationPublicKey)).getD (.replicate 32 0)
    bindingCbor := (dir.map fun d ↦ encodeBinding d.binding).getD []
    bindingSeq := (dir.map (·.bindingSeq)).getD 0
    revocationCbor := dir.bind fun d ↦ d.revocation.map RevocationStatement.encode
    mailboxDisabled := (box.map (·.disabled)).getD false
    mailboxNextSeq := (box.map (·.nextSeq)).getD 0
    mailboxBytes := (box.map (·.bytes)).getD 0 }

/-- The values `upsert_peer` binds. -/
def peerRow (p : PeerState) : PeerRow where
  bundleCbor := p.bundle.encode
  refused := p.refused
  lastRecvCounter := p.lastRx
  lastSendCounter := p.nextTx

/-- The values `rewrite_outbound` binds. -/
def outboundRecord (row : OutboundRow) : OutboundRecord where
  dest := row.dest
  outerCbor := row.outer.encode
  enqueuedAt := row.enqueuedAt
  nextAttempt := row.nextAttempt
  backoffSecs := row.backoffSecs

/-- The values `upsert_group` binds. -/
def groupRow (g : GroupState) : GroupRow where
  nextSeq := g.nextSeq
  bytes := g.bytes
  creator := g.creator

/-- The values `upsert_cred` binds. -/
def credRow (record : CredRecord) : CredRow where
  credentialSecret := record.secret
  live := record.live
  signingPk := record.signingPk
  fanoutCapability := record.fanout.map (·.deliveryCapability)
  fanoutHpke := record.fanout.map (·.homeHpkePublic)

/-- The values `insert_stream_new` binds. -/
def streamRecord (row : StreamRow) : StreamRecord where
  type := row.type.toU8
  body := row.body
  receivedAt := row.receivedAt

/-! ## Statements -/

namespace Database

/-- `delete_mailbox_all`. -/
def deleteMailboxAll (rows : FiniteMap (IdentityId × ℕ) MailboxRow) (owner : IdentityId) :
    FiniteMap (IdentityId × ℕ) MailboxRow :=
  FiniteMap.retain (fun key _ ↦ key.1 ≠ owner) rows

/-- `delete_mailbox_exact`. -/
def deleteMailboxExact (rows : FiniteMap (IdentityId × ℕ) MailboxRow) (key : IdentityId × ℕ) :
    FiniteMap (IdentityId × ℕ) MailboxRow :=
  FiniteMap.retain (fun key' _ ↦ key' ≠ key) rows

/-- `delete_mailbox_acked`. The bound is compared as the `BIGINT` it is bound as. -/
def deleteMailboxAcked (rows : FiniteMap (IdentityId × ℕ) MailboxRow)
    (mark : Sigma fun _ : IdentityId ↦ ℕ) : FiniteMap (IdentityId × ℕ) MailboxRow :=
  FiniteMap.retain (fun key _ ↦ ¬ (key.1 = mark.1 ∧ (key.2 : ℤ) ≤ asI64 mark.2)) rows

/-- The values `insert_mailbox_rows` collects: rows that are still in memory. -/
def newMailboxRows (home : HomeServer) (newRows : List (IdentityId × ℕ)) :
    Except PersistError (List ((IdentityId × ℕ) × MailboxRow)) :=
  (newRows.filterMap fun key ↦
    (home.mailboxes.lookup key.1).bind fun box ↦
      (box.rows.lookup key.2).map fun row ↦ (key.1, row)).mapM fun (owner, row) ↦
        match row.inner.encodePadded with
        | .error _ => .error (.corrupt "inner encode")
        | .ok padded => .ok ((owner, row.seq),
          { receivedAt := row.receivedAt
            expiresAt := row.expiresAt
            innerPadded := padded
            idempotencyToken := row.inner.idempotencyToken })

/-- The foreign key and the index `mailbox_idempotency`. -/
def mailboxRowOk (identities : FiniteMap IdentityId IdentityRow)
    (rows : FiniteMap (IdentityId × ℕ) MailboxRow) (key : IdentityId × ℕ) (row : MailboxRow) :
    Bool :=
  (identities.lookup key.1).isSome &&
    rows.entries.all fun e ↦
      decide (e.1.1 ≠ key.1) || decide (e.2.idempotencyToken ≠ row.idempotencyToken)

/-- `insert_mailbox_rows`. -/
def insertMailboxRows (identities : FiniteMap IdentityId IdentityRow) (home : HomeServer)
    (newRows : List (IdentityId × ℕ)) (rows : FiniteMap (IdentityId × ℕ) MailboxRow) :
    Except PersistError (FiniteMap (IdentityId × ℕ) MailboxRow) := do
  FiniteMap.insertAll .sqlx (mailboxRowOk identities) (← newMailboxRows home newRows) rows

/-- `delete_tokens_owner`. -/
def deleteTokensOwner (tokens : FiniteMap Key TokenRow) (owner : IdentityId) :
    FiniteMap Key TokenRow :=
  FiniteMap.retain (fun _ row ↦ row.mailbox ≠ owner) tokens

/-- `delete_token_exact`. -/
def deleteTokenExact (tokens : FiniteMap Key TokenRow) (token : Key) : FiniteMap Key TokenRow :=
  FiniteMap.retain (fun key _ ↦ key ≠ token) tokens

/-- The row an upsert of a token leaves: a conflict keeps the kind and the columns of the other
kind. -/
def tokenRow (old : Option TokenRow) : TokenKind → TokenRow
  | .share mailbox expiresAt burned reservedPrekey =>
    { kind := (old.map (·.kind)).getD 1
      mailbox := mailbox
      expiresAt := some expiresAt
      burned := burned
      reservedPrekey := reservedPrekey
      graceUntil := old.bind (·.graceUntil)
      windowStart := old.bind (·.windowStart)
      windowCount := (old.map (·.windowCount)).getD 0 }
  | .contact mailbox graceUntil windowStart windowCount =>
    { kind := (old.map (·.kind)).getD 2
      mailbox := mailbox
      expiresAt := old.bind (·.expiresAt)
      burned := (old.map (·.burned)).getD false
      reservedPrekey := old.bind (·.reservedPrekey)
      graceUntil := graceUntil
      windowStart := some windowStart
      windowCount := windowCount }

/-- `upsert_token`: the first entry under the key. -/
def upsertToken (identities : FiniteMap IdentityId IdentityRow) (home : HomeServer)
    (tokens : FiniteMap Key TokenRow) (token : Key) : Except PersistError (FiniteMap Key TokenRow) :=
  match home.tokens.find? fun entry ↦ entry.1 = token with
  | none => .ok tokens
  | some (_, kind) =>
    if (identities.lookup kind.mailbox).isSome then
      .ok (tokens.insert token (tokenRow (tokens.lookup token) kind))
    else .error .sqlx

/-- `rewrite_prekeys`. -/
def rewritePrekeys (identities : FiniteMap IdentityId IdentityRow) (home : HomeServer)
    (prekeys : List (IdentityId × Bytes)) (owner : IdentityId) :
    Except PersistError (List (IdentityId × Bytes)) :=
  let kept := prekeys.filter fun row ↦ row.1 ≠ owner
  match home.prekeys.lookup owner with
  | none | some [] => .ok kept
  | some queue =>
    if (identities.lookup owner).isSome then .ok (kept ++ queue.map fun blob ↦ (owner, blob))
    else .error .sqlx

/-- `rewrite_memberships`; the primary key is the pair. -/
def rewriteMemberships (identities : FiniteMap IdentityId IdentityRow) (home : HomeServer)
    (memberships : List (IdentityId × GroupId)) (owner : IdentityId) :
    Except PersistError (List (IdentityId × GroupId)) :=
  let kept := memberships.filter fun row ↦ row.1 ≠ owner
  match home.memberships.lookup owner with
  | none | some [] => .ok kept
  | some list =>
    if (identities.lookup owner).isSome ∧ list.Nodup then
      .ok (kept ++ list.map fun groupId ↦ (owner, groupId))
    else .error .sqlx

/-- `upsert_peer`. -/
def upsertPeer (home : HomeServer) : FiniteMap ServerId PeerRow → ServerId →
    FiniteMap ServerId PeerRow :=
  upsertLive fun peer ↦ (home.peers.lookup peer).map peerRow

/-- `insert_seen_new`. -/
def insertSeenNew (home : HomeServer) (newEncs : List Key) (seen : FiniteMap Key ℕ) :
    Except PersistError (FiniteMap Key ℕ) :=
  FiniteMap.insertAll .sqlx (fun _ _ _ ↦ true)
    (newEncs.filterMap fun enc ↦ (home.seenEnc.lookup enc).map fun seq ↦ (enc, seq)) seen

/-- Rewrite `hpke_seen` after a wrap of the window (`rewrite_seen`), or append to it. -/
def writeSeen (home : HomeServer) (hd : HomeDirty) (seen : FiniteMap Key ℕ) :
    Except PersistError (FiniteMap Key ℕ) :=
  if hd.seenEncCleared then .ok home.seenEnc else insertSeenNew home hd.seenEncNew seen

/-- `upsert_group`. -/
def upsertGroup (host : GroupHost) : FiniteMap GroupId GroupRow → GroupId →
    FiniteMap GroupId GroupRow :=
  upsertLive fun groupId ↦ (host.groups.lookup groupId).map groupRow

/-- `upsert_cred`. -/
def upsertCred (groups : FiniteMap GroupId GroupRow) (host : GroupHost)
    (creds : FiniteMap (GroupId × Key) CredRow) (key : GroupId × Key) :
    Except PersistError (FiniteMap (GroupId × Key) CredRow) :=
  match (host.groups.lookup key.1).bind fun g ↦ g.creds.lookup key.2 with
  | none => .ok creds
  | some record =>
    if (groups.lookup key.1).isSome then .ok (creds.insert key (credRow record))
    else .error .sqlx

/-- `rewrite_invites` and `rewrite_pending`: the rows of one group replaced by those in memory. -/
def rewriteGroupRows {V : Type} (groups : FiniteMap GroupId GroupRow) (host : GroupHost)
    (rowsOf : GroupState → FiniteMap Key V) (rows : FiniteMap (GroupId × Key) V)
    (groupId : GroupId) : Except PersistError (FiniteMap (GroupId × Key) V) :=
  let kept := FiniteMap.retain (fun key _ ↦ key.1 ≠ groupId) rows
  match host.groups.lookup groupId with
  | none => .ok kept
  | some g =>
    if (rowsOf g).entries.isEmpty then .ok kept
    else
      FiniteMap.insertAll .sqlx (fun _ key _ ↦ (groups.lookup key.1).isSome)
        ((rowsOf g).entries.map fun e ↦ ((groupId, e.1), e.2)) kept

/-- `insert_stream_new`. -/
def insertStreamNew (groups : FiniteMap GroupId GroupRow) (host : GroupHost)
    (newRows : List (GroupId × ℕ)) (stream : FiniteMap (GroupId × ℕ) StreamRecord) :
    Except PersistError (FiniteMap (GroupId × ℕ) StreamRecord) :=
  FiniteMap.insertAll .sqlx (fun _ key _ ↦ (groups.lookup key.1).isSome)
    (newRows.filterMap fun key ↦
      ((host.groups.lookup key.1).bind fun g ↦ g.stream.find? fun row ↦ row.seq = key.2).map
        fun row ↦ ((key.1, row.seq), streamRecord row)) stream

/-- `upsert_file`. -/
def upsertFile (groups : FiniteMap GroupId GroupRow) (host : GroupHost)
    (files : FiniteMap Key FileSlot) (token : Key) : Except PersistError (FiniteMap Key FileSlot) :=
  match host.files.lookup token with
  | none => .ok files
  | some slot =>
    if (groups.lookup slot.groupId).isSome then .ok (files.insert token slot)
    else .error .sqlx

/-- The statements of `persist_inner` on the tables of the home server, in the order of the source.
Each names the tables its foreign keys look at. -/
def persistHome (home : HomeServer) (hd : HomeDirty) (db : Database) :
    Except PersistError Database := do
  let serverIdentity :=
    if hd.serverIdentity then some (serverIdentityRow home) else db.serverIdentity
  let identities := FiniteMap.upsertAll (identityRow home) hd.identities db.identities
  let mailboxRows := hd.mailboxCleared.foldl deleteMailboxAll db.mailboxRows
  let mailboxRows := hd.mailboxDropped.foldl deleteMailboxExact mailboxRows
  let mailboxRows := hd.mailboxAcked.entries.foldl deleteMailboxAcked mailboxRows
  let mailboxRows ← insertMailboxRows identities home hd.mailboxNew mailboxRows
  let tokens := hd.tokensDropped.foldl deleteTokensOwner db.tokens
  let tokens := hd.tokensDroppedExact.foldl deleteTokenExact tokens
  let tokens ← hd.tokens.foldlM (upsertToken identities home) tokens
  let prekeys ← hd.prekeys.foldlM (rewritePrekeys identities home) db.prekeys
  let memberships ← hd.memberships.foldlM (rewriteMemberships identities home) db.memberships
  let peers := hd.peers.foldl (upsertPeer home) db.peers
  let outbound := if hd.outboundDirty then home.outbound.map outboundRecord else db.outbound
  let hpkeSeen ← writeSeen home hd db.hpkeSeen
  .ok
    { db with
      serverIdentity, identities, mailboxRows, tokens, prekeys, memberships, peers, outbound,
      hpkeSeen }

/-- The statements of `persist_inner` on the tables of the group host. -/
def persistGroups (host : GroupHost) (gd : GroupDirty) (db : Database) :
    Except PersistError Database := do
  let groups := gd.groups.foldl (upsertGroup host) db.groups
  let groupCreds ← gd.creds.foldlM (upsertCred groups host) db.groupCreds
  let groupInvites ←
    gd.invites.foldlM (rewriteGroupRows groups host GroupState.invites) db.groupInvites
  let groupPending ←
    gd.pending.foldlM (rewriteGroupRows groups host GroupState.pending) db.groupPending
  let groupStream ← insertStreamNew groups host gd.streamNew db.groupStream
  let groupFiles ← gd.files.foldlM (upsertFile groups host) db.groupFiles
  .ok { db with groups, groupCreds, groupInvites, groupPending, groupStream, groupFiles }

/-- `persist_inner`. -/
def persistInner (home : HomeServer) (host : GroupHost) (hd : HomeDirty) (gd : GroupDirty)
    (db : Database) : Except PersistError Database := do
  persistGroups host gd (← persistHome home hd db)

end Database

/-- `persist`, with `fault` for a connection that fails on the way: the transaction is rolled back
and the drained journals are merged back. -/
def persist (fault : Bool) (home : HomeServer) (host : GroupHost) (db : Database) :
    Except PersistError Unit × HomeServer × GroupHost × Database :=
  if home.dirty.isClean && host.dirty.isClean then (.ok (), home, host, db)
  else
    let drained := { home with dirty := {} }
    let drainedHost := { host with dirty := {} }
    match if fault then .error .sqlx else
        Database.persistInner drained drainedHost home.dirty host.dirty db with
    | .error e => (.error e, { drained with dirty := drained.dirty.absorb home.dirty },
        { drainedHost with dirty := drainedHost.dirty.absorb host.dirty }, db)
    | .ok db => (.ok (), drained, drainedHost, db)

/-! ## Reload -/

/-- The mailbox an identity row stands for, still without rows. -/
def loadMailbox (row : IdentityRow) : Option Mailbox :=
  if row.mailboxNextSeq > 0 then
    some
      { ownerPk := row.identityPublicKey
        nextSeq := row.mailboxNextSeq
        rows := ∅
        idempotency := ∅
        bytes := row.mailboxBytes
        disabled := row.mailboxDisabled }
  else none

/-- The directory row an identity row stands for. -/
def loadDirectory (row : IdentityRow) : Except PersistError (Option DirectoryRow) :=
  if row.bindingCbor.isEmpty then .ok none
  else do
    let binding ← decodeBinding row.bindingCbor
    let revocation ←
      match row.revocationCbor with
      | none | some [] => .ok none
      | some bytes =>
        match RevocationStatement.decode bytes with
        | .error _ => .error (.corrupt "revocation")
        | .ok stmt => .ok (some stmt)
    .ok (some
      { identityPublicKey := row.identityPublicKey
        revocationPublicKey := row.revocationPublicKey
        binding := binding
        bindingSeq := row.bindingSeq
        revocation := revocation })

/-- A stored envelope from its row. -/
def loadEnvelope (key : IdentityId × ℕ) (row : MailboxRow) : Except PersistError StoredEnvelope :=
  match InnerEnvelope.decodePadded row.innerPadded with
  | .error _ => .error (.corrupt "inner")
  | .ok inner => .ok
    { seq := key.2
      receivedAt := row.receivedAt
      expiresAt := row.expiresAt
      inner := inner }

/-- A mailbox with its rows, read in the order of their numbers. -/
def Mailbox.withRows (box : Mailbox) (rows : FiniteMap ℕ StoredEnvelope) : Mailbox :=
  { box with
    rows := rows
    idempotency := ((FiniteMap.sortedKeys rows).filterMap rows.lookup).foldl
      (fun map row ↦ map.insert row.inner.idempotencyToken row.seq) ∅ }

/-- A token from its row. -/
def loadToken (row : TokenRow) : Except PersistError TokenKind :=
  if row.kind = 1 then
    .ok (.share row.mailbox (row.expiresAt.getD 0) row.burned row.reservedPrekey)
  else if row.kind = 2 then
    .ok (.contact row.mailbox row.graceUntil (row.windowStart.getD 0) row.windowCount)
  else .error (.corrupt "token kind")

/-- A peer from its row. -/
def loadPeer (row : PeerRow) : Except PersistError PeerState :=
  match ServerBundle.decode row.bundleCbor with
  | .error _ => .error (.corrupt "peer bundle")
  | .ok bundle => .ok (.restore bundle row.refused row.lastRecvCounter row.lastSendCounter)

/-- An outbound row from its record. -/
def loadOutbound (record : OutboundRecord) : Except PersistError OutboundRow :=
  match OuterEnvelope.decode record.outerCbor with
  | .error _ => .error (.corrupt "outer")
  | .ok outer => .ok
    { dest := record.dest
      outer := outer
      enqueuedAt := record.enqueuedAt
      nextAttempt := record.nextAttempt
      backoffSecs := record.backoffSecs }

/-- A credential record from its row. -/
def loadCred (row : CredRow) : CredRecord where
  secret := row.credentialSecret
  live := row.live
  signingPk := row.signingPk
  fanout :=
    match row.fanoutCapability, row.fanoutHpke with
    | some deliveryCapability, some homeHpkePublic => some { deliveryCapability, homeHpkePublic }
    | _, _ => none

/-- A stream row from its record. -/
def loadStreamRow (key : GroupId × ℕ) (record : StreamRecord) : Except PersistError StreamRow :=
  match MessageType.fromU8 record.type with
  | .error _ => .error (.corrupt "stream type")
  | .ok type => .ok { seq := key.2, type, body := record.body, receivedAt := record.receivedAt }

namespace Database

/-- The home half of `load_keys`. -/
def loadHome (crypto : Crypto) (db : Database) (hpke : HpkeKeypair) (sign : Key)
    (ident : ServerIdentityRow) : Except PersistError HomeServer := do
  let directory ← FiniteMap.traverse (fun _ row ↦ loadDirectory row) db.identities
  let envelopes ← FiniteMap.traverse
    (fun key row ↦ (loadEnvelope key row).map some) db.mailboxRows
  let tokens ← db.tokens.entries.mapM fun e ↦ (loadToken e.2).map fun kind ↦ (e.1, kind)
  let peers ← FiniteMap.traverse (fun _ row ↦ (loadPeer row).map some) db.peers
  let outbound ← db.outbound.mapM loadOutbound
  .ok
    { HomeServer.fromIdentity crypto hpke sign ident.host ident.s2sPort.toUInt16 with
      mailboxes := FiniteMap.filterMap
        (fun id row ↦ (loadMailbox row).map (·.withRows (FiniteMap.slice envelopes id)))
        db.identities
      directory := directory
      tokens := tokens
      prekeys := FiniteMap.collect db.prekeys
      memberships := FiniteMap.collect db.memberships
      peers := peers
      outbound := outbound
      seenEnc := db.hpkeSeen }

/-- The group half of `load_keys`. -/
def loadGroups (db : Database) : Except PersistError GroupHost := do
  let stream ← FiniteMap.traverse (fun key record ↦ (loadStreamRow key record).map some)
    db.groupStream
  .ok
    { GroupHost.new with
      groups := FiniteMap.filterMap
        (fun groupId row ↦
          let rows := FiniteMap.slice stream groupId
          some
            { nextSeq := row.nextSeq
              creds := FiniteMap.filterMap (fun _ cred ↦ some (loadCred cred))
                (FiniteMap.slice db.groupCreds groupId)
              invites := FiniteMap.slice db.groupInvites groupId
              pending := FiniteMap.slice db.groupPending groupId
              bytes := row.bytes
              stream := (FiniteMap.sortedKeys rows).filterMap rows.lookup
              creator := row.creator })
        db.groups
      files := db.groupFiles }

/-- `key32`. -/
def key32 (bytes : Bytes) : Except PersistError Key :=
  match copyFixed 32 bytes with
  | .error _ => .error (.corrupt "key length")
  | .ok key => .ok key

/-- The secrets of a row written before they moved to the identity file. -/
def rowKeys (ident : ServerIdentityRow) : Except PersistError (HpkeKeypair × Key) :=
  match ident.hpkeSecret.filter (!·.isEmpty), ident.signSecret.filter (!·.isEmpty) with
  | some secret, some signBytes => do
    let publicKey ← key32 ident.hpkePublic
    let secret ← key32 secret
    let sign ← key32 signBytes
    .ok ({ publicKey, secret }, sign)
  | _, _ => .error (.corrupt "server identity secrets missing")

/-- `load_keys`. -/
def loadKeys (crypto : Crypto) (db : Database) (keys : Option (HpkeKeypair × Key)) :
    Except PersistError (Option (HomeServer × GroupHost)) :=
  match db.serverIdentity with
  | none => .ok none
  | some ident => do
    let (hpke, sign) ←
      match keys with
      | some (hpke, sign) =>
        if hpke.publicKey.data ≠ ident.hpkePublic then
          .error (.corrupt "identity file hpke does not match row")
        else .ok (hpke, sign)
      | none => rowKeys ident
    let home ← db.loadHome crypto hpke sign ident
    let host ← db.loadGroups
    .ok (some (home, host))

end Database

end NemoMessenger.Server
