import NemoMessenger.Client.Device

/-!
# Sessions with a home

The operations of `HomeSession` and of `Installation` as programs: contacts and their discovery,
prekeys, one-to-one messages with the delays of the private modes, the mailbox and the hosted groups.
-/

namespace NemoMessenger.Client

open NemoMessenger.Data NemoMessenger.Wire
open Program (act attempt ofExcept forEach fail)

/-! ## Single actions -/

def memory : SessionM Inner := act .memory

/-- `inner.registered()?`. -/
def session : SessionM HomeSession := do
  ofExcept (← memory).registered

def update (u : SessionUpdate) : SessionM Unit := act (.session u)

def onShell (f : Shell → Shell) : SessionM Unit := act (.shell f)

/-- Use the ratchets; they belong to a session. -/
def ratchet {β : Type} (op : RatchetOp β) : SessionM β := do
  match ← act (.ratchet op) with
  | none => fail .notRegistered
  | some answer => pure answer

/-- Use the installation; without a state there is none. -/
def onInstall {β : Type} (op : InstallOp β) : SessionM β := do
  match ← act (.install op) with
  | none => fail (.text "busy")
  | some answer => pure answer

/-- Use the group of the live group at a position. -/
def onGroup {β : Type} (i : ℕ) (op : GroupOp β) : SessionM β := do
  match ← act (.group i op) with
  | none => fail (.text "unknown group")
  | some answer => pure answer

/-- `now_ms()`, and the time of MLS. -/
def nowMs : SessionM ℕ := act .clock

/-- `now_unix()`. -/
def nowUnix : SessionM UInt64 := do
  let ms ← nowMs
  pure (UInt64.ofNat (ms / 1000))

/-- Random bytes as a key. -/
def keyOf (bytes : Bytes) : Key := ⟨resize bytes 32, length_resize bytes 32⟩

def drawKey : SessionM Key := do
  let bytes ← act .draw
  pure (keyOf bytes)

/-- A request to a transport with an origin. -/
def send (origin : String) (request : Request) : SessionM request.Answer := do
  ofExcept (← act (.send origin request))

/-- A request to the home of the session. -/
def sendHome (request : Request) : SessionM request.Answer := do
  let s ← session
  send s.homeBase request

/-! ## Cards and prekeys -/

section
variable (p : Outside)

/-- `CARD_TTL_SECS`. -/
def cardTtlSecs : ℕ := 30 * 24 * 3600

/-- `saturating_add` on `u64`. -/
def saturatingAddU64 (a : UInt64) (b : ℕ) : UInt64 := UInt64.ofNat (saturatingAdd a.toNat b)

/-- `HomeServerBinding::sign`. -/
def signBinding (identity : Key) (binding : HomeServerBinding) :
    Except CoreError HomeServerBinding := do
  liftWire (validateHost binding.host)
  if binding.serverId ≠ p.crypto.serverId binding.serverHpkePublicKey then
    .error (.wire .serverIdMismatch)
  else .ok { binding with
    signature := p.crypto.signContext identity .homeServerBinding
      (Cbor.encode (.map binding.unsignedPairs)) }

/-- `card_with_share`. -/
def cardWithShare (install : Installation) (bundle : ServerBundle) (expiresAt : UInt64)
    (shareToken : Key) : Except CoreError ContactCard := do
  let binding ← signBinding p install.identity
    { serverId := p.crypto.serverId bundle.serverHpkePublicKey
      serverHpkePublicKey := bundle.serverHpkePublicKey
      host := bundle.host
      seq := install.bindingSeq
      expiresAt
      signature := .replicate 64 0 }
  .ok { identityPublicKey := p.crypto.verifyingKey install.identity
        revocationPublicKey := install.revocationPublicKey
        shareToken
        binding }

/-- The identity of an installation. -/
def Installation.identityId (install : Installation) : IdentityId :=
  p.crypto.identityId (p.crypto.verifyingKey install.identity)

/-- `mint_card`. -/
def mintCard (bundle : ServerBundle) (now : UInt64) : SessionM ContactCard := do
  let shareToken ← drawKey
  onInstall .bumpBindingSeq
  let install ← ofExcept (← memory).install
  ofExcept (cardWithShare p install bundle (saturatingAddU64 now cardTtlSecs) shareToken)

/-- `SIGNED_PREKEY_ROTATE_SECS`. -/
def signedPrekeyRotateSecs : ℕ := 48 * 3600

/-- `maybe_rotate_signed_prekey`. -/
def maybeRotateSignedPrekey (now : UInt64) : SessionM Unit := do
  let s ← session
  if now.toNat - s.install.signedPreKeyAt.toNat < signedPrekeyRotateSecs then pure ()
  else
    let ms ← nowMs
    ofExcept (← onInstall (.rotateSignedPrekey ms))

/-- `publish_prekey`. -/
def publishPrekey : SessionM Unit := do
  let blob ← ofExcept (← onInstall .mintPrekey)
  sendHome (.publishPrekey blob)

/-- The loop of `restock_publish_upto`: every turn stores one prekey more, as long as ids last. -/
def restockLoop (target : ℕ) : ℕ → SessionM Unit
  | 0 => pure ()
  | turns + 1 => do
    let s ← session
    if s.install.store.preKeyStores.preKeys.entries.length < target then
      publishPrekey
      restockLoop target turns
    else pure ()

/-- `restock_publish_upto`, without the number it returns. -/
def restockPublishUpto (target : ℕ) : SessionM Unit := do
  let now ← nowUnix
  maybeRotateSignedPrekey now
  restockLoop target target

/-- `PREKEY_RESTOCK_BELOW`. -/
def prekeyRestockBelow : ℕ := 25

/-- `restock_publish`. -/
def restockPublish : SessionM Unit := restockPublishUpto prekeyRestockBelow

/-- `mint_share_card`. -/
def mintShareCard (now : UInt64) : SessionM ContactCard := do
  let shareToken ← sendHome .mintShare
  let s ← session
  ofExcept (cardWithShare p s.install s.bundle (saturatingAddU64 now cardTtlSecs) shareToken)

/-! ## Contacts -/

/-- `origin_for_binding`. -/
def originForBinding (s : HomeSession) (binding : HomeServerBinding) : String :=
  peerHttpOrigin p.build binding.host.chars binding.serverId s.bundle.serverId s.homeBase

/-- `call_on`. -/
def callOn (origin : String) (request : Request) : SessionM request.Answer := do
  let s ← session
  let origin := trimSlashes origin
  if origin = "" ∨ origin = s.homeBase then send s.homeBase request
  else match p.formats.checkBase origin with
    | .ok () => send origin request
    | .error _ => fail (.transport ("no transport for " ++ origin))

/-- `start_session`. -/
def startSession (card : ContactCard) (prekey : SignedPrekey) (now : UInt64) : SessionM Unit := do
  ofExcept (liftWire (card.verify p.crypto now.toNat))
  ofExcept (liftWire (prekey.verify p.crypto card.identityPublicKey))
  match p.libsignal.readBundle prekey.libsignalPrekey with
  | .error message => fail (.signal message)
  | .ok (_, false) => fail .emptyPrekeyStock
  | .ok (theirs, true) =>
    let s ← session
    let peer := card.identityId p.crypto
    if (s.install.store.known.lookup peer).any (· ≠ theirs) then fail .identityMismatch
    else ofExcept (← ratchet (.processPrekeyBundle peer prekey.libsignalPrekey))

/-- `add_contact`. -/
def addContactToSession (card : ContactCard) (deliveryCapability : Key) (now : UInt64) :
    SessionM Unit := do
  let s ← session
  let peer := card.identityId p.crypto
  let disc ← callOn p (originForBinding p s card.binding) (.discovery peer)
  let binding ← ofExcept (resolveContact p.crypto card disc now.toNat)
  let liveOrigin := originForBinding p s binding
  let prekey ← callOn p liveOrigin (.fetchPrekey card.shareToken)
  startSession p card prekey now
  update (.contact peer
    { pin := { ContactPin.fromCard p.crypto card with seq := binding.seq }
      deliveryCapability
      destHpke := binding.serverHpkePublicKey
      lastDiscoveryUnix := now
      revoked := false
      homeOrigin := liveOrigin })

/-- `verify_capability_intro`. -/
def verifyCapabilityIntro (install : Installation) (sessionPeer : IdentityId) (capability : Key)
    (intro : CapabilityIntro) : Except CoreError Unit := do
  intro.verify p.crypto capability (install.identityId p)
  if install.store.known.lookup sessionPeer = some intro.sessionKey then .ok ()
  else .error .badIntro

/-- The upgrade of a provisional peer in `apply_contact_capability`. -/
def upgradePeer (sessionPeer : IdentityId) (intro : CapabilityIntro) : SessionM Unit := do
  let s ← session
  let real := intro.identityId
  if sessionPeer = real then pure ()
  else if (s.install.store.known.lookup real).any (· ≠ intro.sessionKey) then
    fail .identityMismatch
  else
    ratchet (.rematerializePeer sessionPeer real)
    match s.contacts.lookup sessionPeer with
    | none => pure ()
    | some prev =>
      update (.forget sessionPeer)
      if (s.contacts.lookup real).isSome then pure () else update (.contact real prev)

/-- `apply_contact_capability`. -/
def applyContactCapability (sessionPeer : IdentityId) (capability : Key)
    (intro : Option CapabilityIntro) (now : UInt64) : SessionM IdentityId := do
  let s ← session
  match intro with
  | none =>
    match s.contacts.lookup sessionPeer with
    | none => fail .unknownContact
    | some contact =>
      update (.contact sessionPeer { contact with deliveryCapability := capability })
      pure sessionPeer
  | some intro =>
    ofExcept (verifyCapabilityIntro p s.install sessionPeer capability intro)
    upgradePeer sessionPeer intro
    let s ← session
    let real := intro.identityId
    let known := s.contacts.lookup real
    if known.any (·.pin.identityPublicKey ≠ intro.identityPublicKey) then fail .identityMismatch
    else
      update (.contact real
        { pin :=
            { identityId := real
              identityPublicKey := intro.identityPublicKey
              revocationPublicKey :=
                (known.map (·.pin.revocationPublicKey)).getD intro.revocationPublicKey
              seq := (known.map fun c ↦ max c.pin.seq intro.bindingSeq).getD intro.bindingSeq }
          deliveryCapability := capability
          destHpke := intro.destHpke
          lastDiscoveryUnix := now
          revoked := false
          homeOrigin := (known.map (·.homeOrigin)).getD "" })
      pure real

/-- `refresh_contact`. -/
def refreshContact (peer : IdentityId) (now : UInt64) : SessionM Unit := do
  let s ← session
  let disc ← callOn p (((s.contacts.lookup peer).map (·.homeOrigin)).getD "") (.discovery peer)
  ofExcept (disc.verify p.crypto now.toNat)
  match s.contacts.lookup peer with
  | none => fail .unknownContact
  | some contact =>
    if disc.revocation.isSome then
      update (.contact peer { contact with revoked := true })
      fail .revoked
    else
      let (binding, pin) ← ofExcept (contact.pin.refresh p.crypto disc now.toNat)
      update (.contact peer { contact with
        pin
        destHpke := binding.serverHpkePublicKey
        homeOrigin := originForBinding p s binding
        lastDiscoveryUnix := now })

/-- `check_discovery_not_revoked`. -/
def checkDiscoveryNotRevoked (identity : IdentityId) (now : UInt64) : SessionM Unit := do
  let s ← session
  let origin := ((s.contacts.lookup identity).map (·.homeOrigin)).getD ""
  match ← (callOn p origin (.discovery identity)).attempt with
  | .ok disc =>
    ofExcept (disc.verify p.crypto now.toNat)
    ofExcept disc.checkNotRevoked
  | .error .denied => if origin = "" then pure () else fail .denied
  | .error e => fail e

/-- A record is older than `DISCOVERY_REFRESH_SECS`. -/
def isStale (last now : UInt64) : Bool := now.toNat - last.toNat ≥ discoveryRefreshSecs

/-- `refresh_idle_discovery`: the contacts newly marked revoked. -/
def refreshIdleDiscovery (now : UInt64) : List IdentityId → SessionM (List IdentityId)
  | [] => pure []
  | id :: ids => do
    let s ← session
    match s.contacts.lookup id with
    | none => refreshIdleDiscovery now ids
    | some c =>
      if id = s.install.identityId p ∨ c.revoked ∨ !isStale c.lastDiscoveryUnix now then
        refreshIdleDiscovery now ids
      else
        match ← (refreshContact p id now).attempt with
        | .error .revoked => do
          let newly ← refreshIdleDiscovery now ids
          pure (id :: newly)
        | _ => refreshIdleDiscovery now ids

/-- `identity_is_revoked`. -/
def identityIsRevoked (identity : IdentityId) (now : UInt64) : SessionM Bool := do
  match ← (checkDiscoveryNotRevoked p identity now).attempt with
  | .error .revoked => pure true
  | _ => pure false

/-- `refresh_mls_identities`. -/
def refreshMlsIdentities (ids : List IdentityId) (now : UInt64) : SessionM Unit :=
  forEach (fun id ↦ do
    let s ← session
    if id = s.install.identityId p then pure ()
    else match s.contacts.lookup id with
      | some c =>
        if c.revoked then fail .revoked
        else if isStale c.lastDiscoveryUnix now then refreshContact p id now
        else pure ()
      | none => checkDiscoveryNotRevoked p id now) ids

/-! ## Envelopes -/

/-- `mailbox::wrap`, as far as it can fail. -/
def wrap (destHpke deliveryCapability : Key) (ttlBucket : TtlBucket) (type : MessageType)
    (body : Bytes) : SessionM Outgoing := do
  let idempotencyToken ← drawKey
  let paddedMessage ← ofExcept (liftWire (PaddedMessage.pad type body))
  let entropy ← drawKey
  let _ ← ofExcept (liftWire (p.crypto.sealToServer entropy destHpke
    { deliveryCapability, ttlBucket, idempotencyToken, paddedMessage }))
  pure { destHpke, deliveryCapability, ttlBucket, type, body }

/-- `encrypt_to_mailbox`, and `encrypt_attachment_to_mailbox` with the other type. -/
def encryptToMailbox (type : MessageType) (peer : IdentityId) (destHpke capability : Key)
    (ttlBucket : TtlBucket) (plaintext : Bytes) : SessionM Outgoing := do
  let body ← ofExcept (← ratchet (.encrypt peer plaintext))
  wrap p destHpke capability ttlBucket type body

/-- `post_one_envelope`. A request that got no signed answer does not count as traffic. -/
def postOneEnvelope (outer : Outgoing) (cover : Bool) : SessionM (Option UInt64) := do
  let s ← session
  match ← act (.send s.homeBase (.postEnvelope outer)) with
  | .error (.transport message) => fail (.transport message)
  | .error .unsignedResponse => fail .unsignedResponse
  | answer =>
    if cover then ofExcept answer
    else
      let ms ← nowMs
      update (.lastReal ms)
      ofExcept answer

/-- The loop of `flush_private_outbox`. -/
def postAll : List Outgoing → Option UInt64 → SessionM (Option UInt64)
  | [], last => pure last
  | outer :: outers, _ => do
    let last ← postOneEnvelope outer false
    postAll outers last

/-- `flush_private_outbox`. -/
def flushPrivateOutbox : SessionM (Option UInt64) := do
  let s ← session
  update (.pendingOuters [])
  postAll s.pendingOuters none

/-- `PrivacyMode::Private | PrivacyMode::High`. -/
def PrivacyMode.batches : PrivacyMode → Bool
  | private_ | high => true
  | normal | maximum => false

/-- `post_envelope_maybe_batch`. Its delay leaves nothing behind. -/
def postEnvelopeMaybeBatch (outer : Outgoing) (batch : Bool) : SessionM (Option UInt64) := do
  let s ← session
  if batch && s.privacy.batches then
    update (.pendingOuters (s.pendingOuters ++ [outer]))
    flushPrivateOutbox
  else postOneEnvelope outer false

/-- `send_to`; `send_to_now` does not batch, `send_attachment` sends the other type. -/
def sendVia (type : MessageType) (batch : Bool) (peer : IdentityId) (ttlBucket : TtlBucket)
    (plaintext : Bytes) (now : UInt64) : SessionM Unit := do
  let s ← session
  match s.contacts.lookup peer with
  | none => fail .unknownContact
  | some contact =>
    if contact.revoked then fail .revoked
    else
      if isStale contact.lastDiscoveryUnix now then refreshContact p peer now
      let s ← session
      match s.contacts.lookup peer with
      | none => fail .unknownContact
      | some contact =>
        if contact.revoked then fail .revoked
        else
          let outer ← encryptToMailbox p type peer contact.destHpke contact.deliveryCapability
            ttlBucket plaintext
          let _ ← postEnvelopeMaybeBatch outer batch

def sendTo (peer : IdentityId) (ttlBucket : TtlBucket) (plaintext : Bytes) (now : UInt64) :
    SessionM Unit := sendVia p .doubleRatchet true peer ttlBucket plaintext now

def sendToNow (peer : IdentityId) (ttlBucket : TtlBucket) (plaintext : Bytes) (now : UInt64) :
    SessionM Unit := sendVia p .doubleRatchet false peer ttlBucket plaintext now

def sendAttachment (peer : IdentityId) (ttlBucket : TtlBucket) (plaintext : Bytes)
    (now : UInt64) : SessionM Unit := sendVia p .attachmentDr true peer ttlBucket plaintext now

/-- `HIGH_COVER_MIN_MS`, `HIGH_COVER_MAX_MS` and `MAXIMUM_SLOT_MS`. -/
def highCoverMinMs : ℕ := 8000

def highCoverMaxMs : ℕ := 30000

def maximumSlotMs : ℕ := 2000

/-- `cover_interval_ms`. -/
def coverIntervalMs : PrivacyMode → SessionM (Option ℕ)
  | .normal | .private_ => pure none
  | .high => do
    let wait ← act (.uniform highCoverMinMs highCoverMaxMs)
    pure (some wait)
  | .maximum => pure (some maximumSlotMs)

/-- `pump_cover`. -/
def pumpCover : SessionM Unit := do
  let s ← session
  match ← coverIntervalMs s.privacy with
  | none => pure ()
  | some wait =>
    let now ← nowMs
    if now < s.coverNextMs then pure ()
    else
      update (.coverNext (now + wait))
      if s.privacy = .maximum ∧ now - s.lastRealMs < maximumSlotMs then pure ()
      else match s.contacts.entries.find? fun e ↦ !e.2.revoked with
        | none => pure ()
        | some e =>
          let dummy ← wrap p e.2.destHpke e.2.deliveryCapability .default .doubleRatchet []
          let _ ← postOneEnvelope dummy true

/-- `set_privacy`. -/
def setPrivacy (mode : PrivacyMode) : SessionM Unit := do
  let _ ← session
  update (.privacy mode)
  match ← coverIntervalMs mode with
  | none => pure ()
  | some wait =>
    let now ← nowMs
    update (.coverNext (now + wait))

/-! ## The mailbox -/

/-- `fetch_mailbox`. -/
def fetchMailbox : SessionM (List MailboxRow) := do
  let s ← session
  let rows ← send s.homeBase (.fetchMailbox s.cursor)
  update (.cursor (cursorAfter s.cursor rows))
  pure rows

/-- `ack`. -/
def ackMailbox : ClientM Unit := do
  let s ← session
  ofExcept (← act (.ack s.homeBase s.cursor))

/-- `parse_padded_dr`: zeros behind a message are not part of it. -/
def parsePaddedDr (body : Bytes) : Except CoreError Bytes :=
  if p.libsignal.isCiphertext body then .ok body
  else
    let last := body.length - (body.reverse.takeWhile (· == 0)).length
    match (List.range' last (body.length + 1 - last)).find? fun n ↦
        p.libsignal.isCiphertext (body.take n) with
    | some n => .ok (body.take n)
    | none => .error .badCiphertext

/-- The last loop of `decrypt_incoming`. -/
def decryptAny (ciphertext : Bytes) :
    List IdentityId → CoreError → SessionM (IdentityId × Bytes)
  | [], last => fail last
  | peer :: peers, _ => do
    match ← ratchet (.decrypt peer ciphertext) with
    | .ok plaintext => pure (peer, plaintext)
    | .error e => decryptAny ciphertext peers e

/-- `Ord` on identity ids. -/
def idLe (a b : IdentityId) : Bool := compare (a.data.map (·.toNat)) (b.data.map (·.toNat)) != .gt

/-- The candidates of `decrypt_incoming`, sorted and without repetitions. -/
def incomingPeers (install : Installation) (extraPeers : List IdentityId) : List IdentityId :=
  ((extraPeers ++ install.store.sessions.keys ++ install.store.known.keys).mergeSort idLe).dedup

/-- `decrypt_incoming`. -/
def decryptIncoming (inner : InnerEnvelope) (extraPeers : List IdentityId) :
    SessionM (IdentityId × Bytes) := do
  if inner.paddedMessage.type ≠ .doubleRatchet ∧ inner.paddedMessage.type ≠ .attachmentDr then
    fail .wrongMailboxType
  else
    let ciphertext ← ofExcept (parsePaddedDr p inner.paddedMessage.body)
    let s ← session
    let peers := incomingPeers s.install extraPeers
    match p.libsignal.preKeyIdentity ciphertext with
    | some theirs =>
      let peer := (peers.find? fun peer ↦ s.install.store.known.lookup peer = some theirs).getD
        (p.crypto.sha256 theirs)
      let plaintext ← ofExcept (← ratchet (.decrypt peer ciphertext))
      pure (peer, plaintext)
    | none => decryptAny ciphertext peers .unknownContact

/-! ## Hosted groups -/

/-- The transport of `call_group`. -/
def groupOrigin (s : HomeSession) (groupId : Key) : String :=
  let origin := ((s.groups.find? fun g ↦ g.groupId = groupId).map (·.hostBase)).getD ""
  if trimSlashes origin ≠ "" ∧ (p.formats.checkBase (trimSlashes origin)).toOption.isSome then
    trimSlashes origin
  else s.homeBase

/-- `call_group`. -/
def callGroup (groupId : Key) (request : Request) : SessionM request.Answer := do
  let s ← session
  send (groupOrigin p s groupId) request

/-- `group_append`. -/
def groupAppend (host : HostGroup) (type : MessageType) (body : Bytes) : SessionM Unit := do
  let _ ← callGroup p host.groupId (.groupAppend host.groupId host.cred type body)

/-- The loop of `rehome` over the groups. -/
def moveFanouts (old : String) : SessionM Unit := do
  let moved ← session
  forEach (fun g ↦ do
    match ← (sendHome .mintContact).attempt with
    | .error _ => pure ()
    | .ok capability =>
      let _ ← (send old (.refreshFanout g.groupId g.cred capability
        moved.bundle.serverHpkePublicKey)).attempt) moved.groups

/-- `HomeSession::rehome`. -/
def rehome (base : String) (now : UInt64) : ClientM Unit := do
  let bundle ← send (trimSlashes base) .bundle
  let s ← session
  if bundle.serverId = s.bundle.serverId then fail .alreadyRegistered
  else
    let card ← mintCard p bundle now
    send (trimSlashes base) (.register card)
    act (.move bundle base)
    restockPublish
    moveFanouts s.homeBase
    let _ ← (send s.homeBase (.binding card)).attempt

end

end NemoMessenger.Client
