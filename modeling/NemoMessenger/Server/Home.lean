import NemoMessenger.Server.State

/-!
# Home-server operations

The operations of `HomeServer` as state transformers. An operation that can fail returns its result
beside the state it leaves, because several of them change the state before they fail. Randomness is
an argument: where the source draws a token, the model takes the drawn value.
-/

namespace NemoMessenger.Server

open NemoMessenger.Data NemoMessenger.Wire

/-- What an operation answers and the state it leaves. -/
abbrev Outcome (α : Type) := Except ServerError α × HomeServer

/-- `FETCH_LIMIT_MAX`. -/
def fetchLimitMax : ℕ := 256

/-- `SHARE_TTL_DEFAULT`. -/
def shareTtlDefault : UInt64 := 1800

/-- `HPKE_ENC_WINDOW`. -/
def hpkeEncWindow : ℕ := 1024

/-- `CONTACT_GRACE_SECS`. -/
def contactGraceSecs : ℕ := 72 * 3600

/-- `CONTACT_CAP_IDLE_SECS`. -/
def contactCapIdleSecs : ℕ := 30 * 24 * 3600

/-- `SHARE_EXPIRED_BUFFER_SECS`. -/
def shareExpiredBufferSecs : ℕ := 24 * 3600

/-- `SHARE_RESERVED_BUFFER_SECS`. -/
def shareReservedBufferSecs : ℕ := 7 * 24 * 3600

/-- `RATE_PER_MIN`. -/
def ratePerMin : ℕ := 30

/-! ## Mailbox rows -/

/-- `encode_padded().map(|b| b.len()).unwrap_or(0)`. -/
def encodedLen (inner : InnerEnvelope) : ℕ :=
  match inner.encodePadded with
  | .ok bytes => bytes.length
  | .error _ => 0

/-- `envelope_expiry`. -/
def envelopeExpiry (now : ℕ) (ttl : TtlBucket) (maxAge : ℕ) : ℕ :=
  let cap := saturatingAdd now maxAge
  match ttl.ttlSecs with
  | some secs => min (saturatingAdd now secs) cap
  | none => cap

namespace Mailbox

/-- The mailbox `register` creates. -/
def new (ownerPk : Key) : Mailbox where
  ownerPk := ownerPk
  nextSeq := 1
  rows := ∅
  idempotency := ∅
  bytes := 0
  disabled := false

/-- `remove_row`. -/
def removeRow (box : Mailbox) (seq : ℕ) : Mailbox :=
  match box.rows.lookup seq with
  | none => box
  | some row =>
    { box with
      rows := box.rows.erase seq
      bytes := box.bytes - encodedLen row.inner
      idempotency := FiniteMap.retain (fun _ s ↦ s ≠ seq) box.idempotency }

/-- The removal `ack` makes: the idempotency entry stays. -/
def ackRow (box : Mailbox) (seq : ℕ) : Mailbox :=
  match box.rows.lookup seq with
  | none => box
  | some row =>
    { box with rows := box.rows.erase seq, bytes := box.bytes - encodedLen row.inner }

/-- The row `append_inner` stores and the counters it moves. -/
def push (box : Mailbox) (now maxAge : ℕ) (inner : InnerEnvelope) (size : ℕ) : Mailbox :=
  { box with
    nextSeq := box.nextSeq + 1
    idempotency := box.idempotency.insert inner.idempotencyToken box.nextSeq
    bytes := box.bytes + size
    rows := box.rows.insert box.nextSeq
      { seq := box.nextSeq
        receivedAt := now
        expiresAt := envelopeExpiry now inner.ttlBucket maxAge
        inner := inner } }

/-- The expiry test of `gc_mailbox`. -/
def expired (now maxAge : ℕ) (row : StoredEnvelope) : Bool :=
  decide (row.expiresAt ≤ now) || decide (now - row.receivedAt > maxAge)

/-- The rows `gc_mailbox` drops for their age. -/
def expiredSeqs (box : Mailbox) (now maxAge : ℕ) : List ℕ :=
  (FiniteMap.sortedKeys box.rows).filter fun seq ↦ (box.rows.lookup seq).any (expired now maxAge)

/-- The `while` loop of `gc_mailbox`. Every turn removes a row, so the number of rows bounds the
turns. -/
def evictLoop (maxBytes : ℕ) : ℕ → Mailbox → List ℕ → Mailbox × List ℕ
  | 0, box, dropped => (box, dropped)
  | turns + 1, box, dropped =>
    if box.bytes > maxBytes then
      match (FiniteMap.sortedKeys box.rows).head? with
      | none => (box, dropped)
      | some oldest => evictLoop maxBytes turns (box.removeRow oldest) (dropped ++ [oldest])
    else (box, dropped)

/-- `gc_mailbox` on one mailbox: what is left and which rows were dropped. -/
def gc (box : Mailbox) (now maxAge maxBytes : ℕ) : Mailbox × List ℕ :=
  let expired := box.expiredSeqs now maxAge
  let box := expired.foldl removeRow box
  evictLoop maxBytes (FiniteMap.sortedKeys box.rows).length box expired

/-- The wipe in `disable_mailbox`. -/
def disable (box : Mailbox) : Mailbox :=
  { (FiniteMap.sortedKeys box.rows).foldl removeRow box with disabled := true }

end Mailbox

/-! ## Token policies -/

/-- `share_token_dead`. -/
def shareTokenDead (expiresAt : ℕ) (reservedPrekey : Option Bytes) (now : ℕ) : Bool :=
  now > saturatingAdd expiresAt
    (if reservedPrekey.isSome then shareReservedBufferSecs else shareExpiredBufferSecs)

/-- `contact_token_dead`. -/
def contactTokenDead (windowStart now : ℕ) : Bool := now - windowStart > contactCapIdleSecs

/-- The part of a sweep that looks at one token of a live mailbox. -/
def tokenDead (kind : TokenKind) (survives : Bool) (now : ℕ) : Bool :=
  match kind with
  | .share _ expiresAt _ reservedPrekey => shareTokenDead expiresAt reservedPrekey now
  | .contact _ graceUntil windowStart _ =>
    if survives then false
    else if graceUntil.any (now < ·) then false
    else contactTokenDead windowStart now

namespace HomeServer

/-! ## Queries -/

/-- `require_mailbox`. -/
def requireMailbox (home : HomeServer) (owner : IdentityId) : Except ServerError Unit :=
  match home.mailboxes.lookup owner with
  | some box => if box.disabled then .error .denied else .ok ()
  | none => .error .denied

/-- `mailbox_disabled`. -/
def mailboxDisabled (home : HomeServer) (owner : IdentityId) : Bool :=
  (home.mailboxes.lookup owner).any (·.disabled)

/-- `mailbox_head`. -/
def mailboxHead (home : HomeServer) (owner : IdentityId) : ℕ :=
  ((home.mailboxes.lookup owner).map (·.nextSeq - 1)).getD 0

/-- `capability_mailbox`. -/
def capabilityMailbox (home : HomeServer) (token : Key) : Option IdentityId :=
  (home.tokens.find token).map TokenKind.mailbox

/-- `peer_refused`. -/
def peerRefused (home : HomeServer) (peer : ServerId) : Bool :=
  (home.peers.lookup peer).any (·.refused)

/-! ## Capability tokens -/

/-- `tokens.push` with its journal entry. -/
def pushToken (home : HomeServer) (token : Key) (kind : TokenKind) : HomeServer :=
  { home with
    tokens := home.tokens ++ [(token, kind)]
    dirty := { home.dirty with tokens := home.dirty.tokens.insert token } }

/-- A write through `token_mut` with its journal entry. -/
def setToken (home : HomeServer) (token : Key) (kind : TokenKind) : HomeServer :=
  { home with
    tokens := home.tokens.set token kind
    dirty := { home.dirty with tokens := home.dirty.tokens.insert token } }

/-- `register_share_token`. -/
def registerShareToken (home : HomeServer) (owner : IdentityId) (token : Key)
    (ttlSecs : Option UInt64) : Outcome Unit :=
  match home.requireMailbox owner with
  | .error e => (.error e, home)
  | .ok () =>
    let ttl := ttlSecs.getD shareTtlDefault
    if !allowedIntroTtl ttl then (.error .denied, home)
    else (.ok (),
      home.pushToken token (.share owner (wrappingAdd home.now ttl.toNat) false none))

/-- `mint_share_token`. -/
def mintShareToken (home : HomeServer) (owner : IdentityId) (ttlSecs : Option UInt64)
    (random : Key) : Outcome Key :=
  match home.registerShareToken owner random ttlSecs with
  | (.error e, home) => (.error e, home)
  | (.ok (), home) => (.ok random, home)

/-- `drop_tokens_exact`. -/
def dropTokensExact (home : HomeServer) (dead : List Key) : ℕ × HomeServer :=
  if dead.isEmpty then (0, home)
  else (dead.length,
    { home with
      tokens := home.tokens.filter fun entry ↦ entry.1 ∉ dead
      dirty :=
        { home.dirty with
          tokens := home.dirty.tokens.filter (· ∉ dead)
          tokensDroppedExact := home.dirty.tokensDroppedExact ∪ dead } })

/-- `newest_contact_idx_for`. -/
def newestContactIdxFor (home : HomeServer) (owner : IdentityId) : Option ℕ :=
  let visit (best : Option (ℕ × ℕ)) (entry : (Key × TokenKind) × ℕ) : Option (ℕ × ℕ) :=
    match entry.1.2 with
    | .contact mailbox _ windowStart _ =>
      if mailbox ≠ owner then best
      else
        match best with
        | none => some (entry.2, windowStart)
        | some (bestIdx, bestStart) =>
          if windowStart > bestStart ∨ (windowStart = bestStart ∧ entry.2 > bestIdx) then
            some (entry.2, windowStart)
          else best
    | .share .. => best
  (home.tokens.zipIdx.foldl visit none).map Prod.fst

/-- `sweep_dead_tokens_for`. -/
def sweepDeadTokensFor (home : HomeServer) (owner : IdentityId) : ℕ × HomeServer :=
  let survivor := home.newestContactIdxFor owner
  let dead := home.tokens.zipIdx.filterMap fun entry ↦
    let ((token, kind), idx) := entry
    if kind.mailbox ≠ owner then none
    else if (home.mailboxes.lookup owner).all (·.disabled) then some token
    else if tokenDead kind (some idx = survivor) home.now then some token
    else none
  home.dropTokensExact dead

/-- The survivors `sweep_dead_tokens` keeps, with the window start each was kept for. -/
def sweepSurvivors (tokens : Tokens) : FiniteMap IdentityId ℕ × FiniteMap IdentityId ℕ :=
  let visit (acc : FiniteMap IdentityId ℕ × FiniteMap IdentityId ℕ)
      (entry : (Key × TokenKind) × ℕ) : FiniteMap IdentityId ℕ × FiniteMap IdentityId ℕ :=
    match entry.1.2 with
    | .contact mailbox _ windowStart _ =>
      let keep := match acc.2.lookup mailbox with
        | none => true
        | some start => decide (windowStart > start) || decide (windowStart = start)
      if keep then (acc.1.insert mailbox entry.2, acc.2.insert mailbox windowStart) else acc
    | .share .. => acc
  tokens.zipIdx.foldl visit (∅, ∅)

/-- `sweep_dead_tokens`. -/
def sweepDeadTokens (home : HomeServer) : ℕ × HomeServer :=
  let survivors := (sweepSurvivors home.tokens).1
  let dead := home.tokens.zipIdx.filterMap fun entry ↦
    let ((token, kind), idx) := entry
    if (home.mailboxes.lookup kind.mailbox).all (·.disabled) then some token
    else if tokenDead kind (survivors.lookup kind.mailbox = some idx) home.now then some token
    else none
  home.dropTokensExact dead

/-- `record_token_sweep`. -/
def recordTokenSweep (home : HomeServer) : HomeServer := { home with lastTokenSweep := home.now }

/-- `mint_contact_capability`. -/
def mintContactCapability (home : HomeServer) (owner : IdentityId) (random : Key) : Outcome Key :=
  match home.requireMailbox owner with
  | .error e => (.error e, home)
  | .ok () =>
    let home := (home.sweepDeadTokensFor owner).2
    (.ok random, home.pushToken random (.contact owner none home.now 0))

/-- `rotate_contact`. -/
def rotateContact (home : HomeServer) (owner : IdentityId) (old : Key) (confirm : Bool)
    (random : Key) : Outcome Key :=
  match home.mintContactCapability owner random with
  | (.error e, home) => (.error e, home)
  | (.ok token, home) =>
    if confirm then
      match home.tokens.find old with
      | some (.contact mailbox _ windowStart windowCount) =>
        if mailbox = owner then
          (.ok token, home.setToken old (.contact mailbox
            (some (wrappingAdd home.now contactGraceSecs)) windowStart windowCount))
        else (.ok token, home)
      | _ => (.ok token, home)
    else (.ok token, home)

/-! ## Registration and directory -/

/-- Insert an empty mailbox and journal its identity. -/
def addMailbox (home : HomeServer) (identityId : IdentityId) (ownerPk : Key) : HomeServer :=
  { home with
    mailboxes := home.mailboxes.insert identityId (.new ownerPk)
    dirty := { home.dirty with identities := home.dirty.identities.insert identityId } }

/-- `register`. -/
def register (home : HomeServer) (identityId : IdentityId) (ownerPk : Key) : Outcome Unit :=
  if (home.mailboxes.lookup identityId).isSome then (.error .alreadyRegistered, home)
  else (.ok (), home.addMailbox identityId ownerPk)

/-- `register_from_card`. -/
def registerFromCard (crypto : Crypto) (home : HomeServer) (card : ContactCard) :
    Outcome IdentityId :=
  match card.verify crypto home.now with
  | .error e => (.error (.wire e), home)
  | .ok () =>
    if card.binding.serverId ≠ home.serverId crypto then (.error .denied, home)
    else
      let id := card.identityId crypto
      match home.register id card.identityPublicKey with
      | (.error e, home) => (.error e, home)
      | (.ok (), home) =>
        let home :=
          { home with
            directory := home.directory.insert id
              { identityPublicKey := card.identityPublicKey
                revocationPublicKey := card.revocationPublicKey
                binding := card.binding
                bindingSeq := card.binding.seq
                revocation := none } }
        match home.registerShareToken id card.shareToken none with
        | (.error e, home) => (.error e, home)
        | (.ok (), home) => (.ok id, home)

/-- `disable_mailbox`. -/
def disableMailbox (home : HomeServer) (owner : IdentityId) : HomeServer :=
  { home with
    mailboxes :=
      match home.mailboxes.lookup owner with
      | some box => home.mailboxes.insert owner box.disable
      | none => home.mailboxes
    prekeys := home.prekeys.erase owner
    tokens := home.tokens.filter fun entry ↦ entry.2.mailbox ≠ owner
    dirty :=
      { home.dirty with
        mailboxCleared := home.dirty.mailboxCleared.insert owner
        tokensDropped := home.dirty.tokensDropped.insert owner
        prekeys := home.dirty.prekeys.insert owner
        identities := home.dirty.identities.insert owner } }

/-- The key `observe_binding` checks a binding against. -/
def bindingKey (home : HomeServer) (identityId : IdentityId) : Option Key :=
  match home.directory.lookup identityId with
  | some row => some row.identityPublicKey
  | none => (home.mailboxes.lookup identityId).map (·.ownerPk)

/-- Insert a directory row and journal its identity. -/
def putDirectory (home : HomeServer) (identityId : IdentityId) (row : DirectoryRow) : HomeServer :=
  { home with
    directory := home.directory.insert identityId row
    dirty := { home.dirty with identities := home.dirty.identities.insert identityId } }

/-- The directory row after a newer binding: the stored one updated, or a new one. -/
def boundRow (home : HomeServer) (identityId : IdentityId) (pk : Key)
    (binding : HomeServerBinding) : DirectoryRow :=
  match home.directory.lookup identityId with
  | some row => { row with binding := binding, bindingSeq := binding.seq }
  | none =>
    { identityPublicKey := pk
      revocationPublicKey := .replicate 32 0
      binding := binding
      bindingSeq := binding.seq
      revocation := none }

/-- `observe_binding`. -/
def observeBinding (crypto : Crypto) (home : HomeServer) (identityId : IdentityId)
    (binding : HomeServerBinding) : Outcome Unit :=
  match home.bindingKey identityId with
  | none => (.error .denied, home)
  | some pk =>
    if !crypto.isVerifyingKey pk then (.error .denied, home)
    else if crypto.identityId pk ≠ identityId then (.error .denied, home)
    else
      match binding.verify crypto pk home.now with
      | .error _ => (.error .denied, home)
      | .ok () =>
        let storedSeq := ((home.directory.lookup identityId).map (·.bindingSeq)).getD 0
        if binding.seq ≤ storedSeq then (.ok (), home)
        else
          let home := home.putDirectory identityId (home.boundRow identityId pk binding)
          if binding.serverId ≠ home.serverId crypto then (.ok (), home.disableMailbox identityId)
          else (.ok (), home)

/-- `note_group_membership`. -/
def noteGroupMembership (home : HomeServer) (identityId : IdentityId) (groupId : GroupId) :
    HomeServer :=
  let list := (home.memberships.lookup identityId).getD []
  if groupId ∈ list then { home with memberships := home.memberships.insert identityId list }
  else
    { home with
      memberships := home.memberships.insert identityId (list ++ [groupId])
      dirty := { home.dirty with memberships := home.dirty.memberships.insert identityId } }

/-- The end of `ingest_revocation`: forget the memberships and return them. -/
def takeMemberships (home : HomeServer) (identityId : IdentityId) : List GroupId × HomeServer :=
  match home.memberships.lookup identityId with
  | none => ([], home)
  | some list => (list,
    { home with
      memberships := home.memberships.erase identityId
      dirty := { home.dirty with memberships := home.dirty.memberships.insert identityId } })

/-- `ingest_revocation`. -/
def ingestRevocation (crypto : Crypto) (home : HomeServer) (stmt : RevocationStatement) :
    Outcome (List GroupId) :=
  match home.directory.lookup stmt.identityId with
  | none => (.error .denied, home)
  | some row =>
    if !crypto.isVerifyingKey row.revocationPublicKey then (.error .denied, home)
    else
      match stmt.verify crypto row.revocationPublicKey with
      | .error _ => (.error .denied, home)
      | .ok () =>
        if stmt.identityId ≠ crypto.identityId row.identityPublicKey then (.error .denied, home)
        else
          let home := home.putDirectory stmt.identityId { row with revocation := some stmt }
          let (groups, home) := (home.disableMailbox stmt.identityId).takeMemberships stmt.identityId
          (.ok groups, home)

/-! ## Prekeys -/

/-- Replace a prekey queue and journal the change. -/
def setPrekeys (home : HomeServer) (owner : IdentityId) (queue : List Bytes) : HomeServer :=
  { home with
    prekeys := home.prekeys.insert owner queue
    dirty := { home.dirty with prekeys := home.dirty.prekeys.insert owner } }

/-- `publish_prekey`. -/
def publishPrekey (home : HomeServer) (owner : IdentityId) (blob : Bytes) : Outcome Unit :=
  match home.requireMailbox owner with
  | .error e => (.error e, home)
  | .ok () =>
    (.ok (), home.setPrekeys owner ((home.prekeys.lookup owner).getD [] ++ [blob]))

/-- Take the front of a prekey queue and reserve it for a share token. -/
def reservePrekey (home : HomeServer) (token : Key) (mailbox : IdentityId) (expiresAt : ℕ)
    (burned : Bool) : Outcome Bytes :=
  match home.prekeys.lookup mailbox with
  | some (blob :: rest) => (.ok blob,
    (home.setPrekeys mailbox rest).setToken token (.share mailbox expiresAt burned (some blob)))
  | _ => (.error .denied, home)

/-- `fetch_prekey`. -/
def fetchPrekey (home : HomeServer) (token : Key) : Outcome Bytes :=
  match home.tokens.find token with
  | some (.share mailbox expiresAt burned reservedPrekey) =>
    if !burned && decide (home.now < expiresAt) then
      match reservedPrekey with
      | some blob => (.ok blob, home)
      | none => home.reservePrekey token mailbox expiresAt burned
    else (.error .denied, home)
  | _ => (.error .denied, home)

/-! ## Append -/

/-- `authorize_append`. -/
def authorizeAppend (home : HomeServer) (token : Key) : Outcome IdentityId :=
  let finish (home : HomeServer) (mailbox : IdentityId) : Outcome IdentityId :=
    if home.mailboxDisabled mailbox then (.error .denied, home) else (.ok mailbox, home)
  match home.tokens.find token with
  | some (.share mailbox expiresAt burned _) =>
    if !burned && decide (home.now < expiresAt) then finish home mailbox
    else (.error .denied, home)
  | some (.contact mailbox graceUntil windowStart windowCount) =>
    if graceUntil.any (home.now ≥ ·) then (.error .denied, home)
    else
      let (start, count) :=
        if home.now - windowStart ≥ 60 then (home.now, 0) else (windowStart, windowCount)
      if count ≥ ratePerMin then (.error .denied, home)
      else finish (home.setToken token (.contact mailbox graceUntil start (count + 1))) mailbox
  | none => (.error .denied, home)

/-- `burn_if_share`. -/
def burnIfShare (home : HomeServer) (token : Key) : HomeServer :=
  match home.tokens.find token with
  | some (.share mailbox expiresAt burned reservedPrekey) =>
    if burned then home else home.setToken token (.share mailbox expiresAt true reservedPrekey)
  | _ => home

/-- `gc_mailbox`. -/
def gcMailbox (home : HomeServer) (owner : IdentityId) : HomeServer :=
  match home.mailboxes.lookup owner with
  | none => home
  | some box =>
    let (box, dropped) := box.gc home.now home.limits.mailboxMaxAgeSecs home.limits.mailboxMaxBytes
    let home :=
      { home with
        mailboxes := home.mailboxes.insert owner box
        history := home.history.evict owner dropped }
    if dropped.isEmpty then home
    else
      { home with
        dirty :=
          { home.dirty with
            mailboxDropped := home.dirty.mailboxDropped ++ dropped.map fun seq ↦ (owner, seq)
            identities := home.dirty.identities.insert owner } }

/-- The row `append_inner` stores. -/
def newRow (home : HomeServer) (box : Mailbox) (inner : InnerEnvelope) : StoredEnvelope where
  seq := box.nextSeq
  receivedAt := home.now
  expiresAt := envelopeExpiry home.now inner.ttlBucket home.limits.mailboxMaxAgeSecs
  inner := inner

/-- Store a new row in a mailbox and journal it. -/
def storeRow (home : HomeServer) (mailbox : IdentityId) (box : Mailbox) (inner : InnerEnvelope)
    (size : ℕ) : HomeServer :=
  let pushed := box.push home.now home.limits.mailboxMaxAgeSecs inner size
  { home with
    mailboxes := home.mailboxes.insert mailbox pushed
    dirty :=
      { home.dirty with
        mailboxNew := home.dirty.mailboxNew ++ [(mailbox, box.nextSeq)]
        identities := home.dirty.identities.insert mailbox }
    history :=
      { home.history with
        appended := home.history.appended ++ [(mailbox, home.newRow box inner)] } }

/-- `append_inner`. -/
def appendInner (home : HomeServer) (inner : InnerEnvelope) : Outcome ℕ :=
  match home.authorizeAppend inner.deliveryCapability with
  | (.error e, home) => (.error e, home)
  | (.ok mailbox, home) =>
    match home.mailboxes.lookup mailbox with
    | none => (.error .denied, home)
    | some box =>
      match box.idempotency.lookup inner.idempotencyToken with
      | some seq => (.ok seq, home)
      | none =>
        match inner.encodePadded with
        | .error e => (.error (.wire e), home)
        | .ok padded => (.ok box.nextSeq,
          ((home.storeRow mailbox box inner padded.length).burnIfShare
            inner.deliveryCapability).gcMailbox mailbox)

/-- The end of `ingest`: remember the encapsulated key, wrapping the window when it is full. -/
def rememberEnc (home : HomeServer) (enc : Key) (seq : ℕ) : HomeServer :=
  let full := decide (home.seenEnc.entries.length ≥ hpkeEncWindow)
  let cleared := home.dirty.seenEncCleared || full
  { home with
    seenEnc := (if full then ∅ else home.seenEnc).insert enc seq
    dirty :=
      { home.dirty with
        seenEncCleared := cleared
        seenEncNew := if cleared then home.dirty.seenEncNew else home.dirty.seenEncNew ++ [enc] } }

/-- Record an answer of `ingest` in the history. -/
def noteIngested (home : HomeServer) (outer : OuterEnvelope) (seq : ℕ) : HomeServer :=
  { home with
    history := { home.history with ingested := home.history.ingested ++ [(outer, seq)] } }

/-- `ingest`. -/
def ingest (crypto : Crypto) (home : HomeServer) (outer : OuterEnvelope) : Outcome ℕ :=
  match encapKey outer.hpkeCiphertext with
  | .error e => (.error (.wire e), home)
  | .ok enc =>
    match home.seenEnc.lookup enc with
    | some seq => (.ok seq, home.noteIngested outer seq)
    | none =>
      match crypto.openOuter home.hpke outer with
      | .error e => (.error (.wire e), home)
      | .ok inner =>
        match home.appendInner inner with
        | (.error e, home) => (.error e, home)
        | (.ok seq, home) => (.ok seq, (home.rememberEnc enc seq).noteIngested outer seq)

/-! ## Owner requests -/

/-- `check_owner`. -/
def checkOwner (crypto : Crypto) (home : HomeServer) (owner : IdentityId) (auth : MailboxOwnerAuth)
    (nowUnix : ℕ) (expect : AuthScope) : Outcome Unit :=
  match home.mailboxes.lookup owner with
  | none => (.error .ownerAuth, home)
  | some box =>
    if box.disabled then (.error .ownerAuth, home)
    else if auth.mailboxHint ≠ owner.data then (.error .ownerAuth, home)
    else if !crypto.isVerifyingKey box.ownerPk then (.error .ownerAuth, home)
    else
      match auth.verify crypto box.ownerPk nowUnix expect with
      | .error _ => (.error .ownerAuth, home)
      | .ok () =>
        let nonces := FiniteMap.retain
          (fun _ ts ↦ nowUnix - ts ≤ MailboxOwnerAuth.maxAgeSecs) home.ownerNonces
        if (nonces.lookup auth.nonce).isSome then
          (.error .ownerAuth, { home with ownerNonces := nonces })
        else (.ok (), { home with ownerNonces := nonces.insert auth.nonce auth.ts.toNat })

/-- `fetch`. -/
def fetch (crypto : Crypto) (home : HomeServer) (owner : IdentityId) (auth : MailboxOwnerAuth)
    (nowUnix : ℕ) : Outcome (List StoredEnvelope) :=
  let scope := AuthScope.body (home.serverId crypto) "POST" "/v1/mailbox/fetch"
  match home.checkOwner crypto owner auth nowUnix scope with
  | (.error e, home) => (.error e, home)
  | (.ok (), home) =>
    if auth.limit.toNat = 0 ∨ auth.limit.toNat > fetchLimitMax then (.error .fetchLimit, home)
    else
      let home := home.gcMailbox owner
      match home.mailboxes.lookup owner with
      | none => (.error .ownerAuth, home)
      | some box =>
        let rows := (FiniteMap.sortedKeys box.rows).filterMap box.rows.lookup
        (.ok ((rows.filter fun row ↦
          decide (row.seq > auth.cursor.toNat) && decide (row.expiresAt > home.now)).take
            auth.limit.toNat), home)

/-- The body of `ack` behind the authentication. -/
def ackRows (home : HomeServer) (owner : IdentityId) (box : Mailbox) (upto : ℕ) : HomeServer :=
  let drop := (FiniteMap.sortedKeys box.rows).filter (· ≤ upto)
  if drop.isEmpty then home
  else
    { home with
      mailboxes := home.mailboxes.insert owner (drop.foldl Mailbox.ackRow box)
      dirty :=
        { home.dirty with
          mailboxAcked := HomeDirty.raiseMark home.dirty.mailboxAcked owner upto
          identities := home.dirty.identities.insert owner } }

/-- `ack`. -/
def ack (crypto : Crypto) (home : HomeServer) (owner : IdentityId) (auth : MailboxOwnerAuth)
    (nowUnix : ℕ) : Outcome Unit :=
  let scope := AuthScope.body (home.serverId crypto) "POST" "/v1/mailbox/ack"
  match home.checkOwner crypto owner auth nowUnix scope with
  | (.error e, home) => (.error e, home)
  | (.ok (), home) =>
    match home.mailboxes.lookup owner with
    | none => (.error .ownerAuth, home)
    | some box => (.ok (), home.ackRows owner box auth.cursor.toNat)

/-! ## Outbound queue -/

/-- Replace the outbound queue and journal the change. -/
def setOutbound (home : HomeServer) (outbound : List OutboundRow) : HomeServer :=
  { home with
    outbound := outbound
    dirty := { home.dirty with outboundDirty := true } }

/-- `enqueue`. -/
def enqueue (crypto : Crypto) (home : HomeServer) (outer : OuterEnvelope) : Outcome Enqueue :=
  if outer.destinationServerId = home.serverId crypto then
    match home.ingest crypto outer with
    | (.error e, home) => (.error e, home)
    | (.ok seq, home) => (.ok (.localSeq seq), home)
  else
    (.ok .queued, home.setOutbound (home.outbound ++
      [{ dest := outer.destinationServerId
         outer := outer
         enqueuedAt := home.now
         nextAttempt := home.now
         backoffSecs := 1 }]))

/-- `enqueue_from_owner`. -/
def enqueueFromOwner (crypto : Crypto) (home : HomeServer) (owner : IdentityId)
    (auth : MailboxOwnerAuth) (nowUnix : ℕ) (outer : OuterEnvelope) : Outcome Enqueue :=
  let scope := AuthScope.header crypto (home.serverId crypto) "POST" "/v1/envelopes" outer.encode
  match home.checkOwner crypto owner auth nowUnix scope with
  | (.error e, home) => (.error e, home)
  | (.ok (), home) =>
    match home.requireMailbox owner with
    | .error e => (.error e, home)
    | .ok () => home.enqueue crypto outer

/-- `defer_outbound`. -/
def deferOutbound (home : HomeServer) (time : ℕ) : HomeServer :=
  if home.outbound.isEmpty then home
  else home.setOutbound (home.outbound.map fun row ↦ { row with nextAttempt := time })

end HomeServer

end NemoMessenger.Server
