import NemoMessenger.Client.Transport

/-!
# The requests of a session

The methods of `HomeSession` that ask a home for something, each with its path, its headers and what
it reads from the answer. The encodings of cards, prekeys, envelopes and invites are parameters.
-/

namespace NemoMessenger.Client

open NemoMessenger.Data NemoMessenger.Wire
open Program (act attempt ofExcept forEach fail)

/-- The encodings requests and answers are made of. -/
structure Codec where
  card : ContactCard → Except CoreError Bytes
  prekey : SignedPrekey → Bytes
  outer : Outgoing → Bytes
  invite : GroupInvite → Bytes
  admission : GroupAdmit → Bytes
  readDiscovery : Bytes → Except WireError Discovery
  readPrekey : Bytes → Except WireError SignedPrekey

/-- `TurnConfig`, but for the address it binds. -/
structure TurnConfig where
  url : String
  username : String
  credential : String
  deriving DecidableEq

/-- `EnqueueResult`. -/
inductive EnqueueResult
  | stored (seq : UInt64)
  | queued
  deriving DecidableEq

variable (p : Outside) (codec : Codec)

/-! ## Authorisation -/

/-- `now_unix()`. -/
def unixNow : NetM UInt64 := do
  let ms ← act .clock
  pure (UInt64.ofNat (ms / 1000))

/-- `mailbox_owner_auth`. -/
def mailboxOwnerAuth (install : Installation) (cursor limit : UInt64) (scope : AuthScope) :
    NetM MailboxOwnerAuth := do
  let ts ← unixNow
  let nonce ← drawNonce
  let auth : MailboxOwnerAuth :=
    { mailboxHint := (install.identityId p).data, cursor, limit, ts, scope, nonce,
      signature := .replicate 64 0 }
  pure { auth with
    signature := p.crypto.signContext install.identity .mailboxOwner
      (Cbor.encode (.map auth.unsignedPairs)) }

/-- The headers that show a credential of a group. -/
def HostCred.headers (cred : HostCred) : List (String × String) :=
  [("nemo-cred-id", toHex cred.credentialId.data),
    ("nemo-cred-secret", toHex cred.credentialSecret.data)]

/-- The pairs that show a credential of a group in a body. -/
def HostCred.pairs (cred : HostCred) : List (UInt64 × Cbor.Value) :=
  [(0, .bytes cred.credentialId.data), (1, .bytes cred.credentialSecret.data)]

/-- An optional key of an answer. -/
def readKeyOpt (m : List (UInt64 × Cbor.Value)) (k : UInt64) : Except CoreError (Option Key) :=
  match Cbor.mapGetOpt m k with
  | none => .ok none
  | some value => liftWire (do some <$> copyFixed 32 (← Cbor.expectBytes value))

/-- `read_key` for the two halves of a credential. -/
def readCred (m : List (UInt64 × Cbor.Value)) (k : UInt64) : Except CoreError HostCred := do
  .ok { credentialId := ← readKey m k, credentialSecret := ← readKey m (k + 1) }

/-- The path of a group, or of a part of it. -/
def groupPath (groupId : Key) (rest : String) : String :=
  "/v1/groups/" ++ toHex groupId.data ++ rest

namespace Link

variable (self : Link)

/-- `owner_header`. -/
def ownerHeader (method path : String) (body : Bytes) : NetM String := do
  let auth ← mailboxOwnerAuth p self.session.install 0 1
    (.header p.crypto self.session.bundle.serverId method path body)
  pure (toHex auth.encode)

/-- `mailbox_body_auth`. -/
def mailboxBodyAuth (path : String) (cursor limit : UInt64) : NetM MailboxOwnerAuth :=
  mailboxOwnerAuth p self.session.install cursor limit
    (.body self.session.bundle.serverId "POST" path)

/-- A request the owner of the mailbox signs in a header. -/
def ownerPost (path : String) (body : Bytes) : NetM HttpResponse := do
  let auth ← self.ownerHeader p "POST" path body
  signedCall p self.transport self.session.bundle
    { method := "POST", path, headers := [("nemo-owner", auth)], body }

/-! ## Other identities -/

/-- `discovery_at`. -/
def discoveryAt (origin : String) (identity : IdentityId) : NetM Discovery := do
  let res ← self.callOn p origin
    { method := "GET", path := "/v1/discovery/" ++ toHex identity.data, headers := [], body := [] }
  let body ← ofExcept (checkBody res)
  ofExcept (liftWire (codec.readDiscovery body))

/-- `fetch_prekey_at`. -/
def fetchPrekeyAt (origin : String) (shareToken : Key) : NetM SignedPrekey := do
  let res ← self.callOn p origin
    { method := "GET", path := "/v1/prekeys", headers := [("nemo-token", toHex shareToken.data)],
      body := [] }
  let body ← ofExcept (checkBody res)
  ofExcept (liftWire (codec.readPrekey body))

/-! ## The own mailbox -/

/-- `issue_turn`. -/
def issueTurn : NetM TurnConfig := do
  let res ← self.ownerPost p "/v1/turn" []
  let m ← ofExcept (checkBody res >>= expectMap)
  ofExcept (liftWire (do
    .ok { url := (← Cbor.mapGet m 0 >>= Cbor.expectText)
          username := (← Cbor.mapGet m 1 >>= Cbor.expectText)
          credential := (← Cbor.mapGet m 2 >>= Cbor.expectText) }))

/-- `submit_revocation`. -/
def submitRevocation (stmt : RevocationStatement) : NetM Unit := do
  let res ← signedCall p self.transport self.session.bundle
    { method := "POST", path := "/v1/revocation", headers := [], body := stmt.encode }
  ofExcept (checkStatus res)

/-- The link with its installation changed. -/
def withInstall (install : Installation) : Link :=
  { self with session := { self.session with install } }

/-- `publish_prekey`. -/
def publishPrekey : NetM Link := do
  let seed ← act .draw
  let self' := self.withInstall (self.session.install.mintPrekey p seed).2
  act (.put self')
  let blob ← ofExcept (self.session.install.mintPrekey p seed).1
  let res ← self'.ownerPost p "/v1/prekeys" (codec.prekey blob)
  ofExcept (checkStatus res)
  pure self'

/-- `maybe_rotate_signed_prekey`. -/
def maybeRotateSignedPrekey (now : UInt64) : NetM Link := do
  if now.toNat - self.session.install.signedPreKeyAt.toNat < signedPrekeyRotateSecs then
    pure self
  else
    let ms ← act .clock
    let seed ← act .draw
    let self' := self.withInstall (self.session.install.rotateSignedPrekey p ms seed).2
    act (.put self')
    ofExcept (self.session.install.rotateSignedPrekey p ms seed).1
    pure self'

/-- The loop of `restock_publish_upto`. -/
def restockLoop (target : ℕ) : ℕ → Link → NetM Link
  | 0, self => pure self
  | turns + 1, self =>
    if self.session.install.store.preKeyStores.preKeys.entries.length < target then do
      let self ← self.publishPrekey p codec
      restockLoop target turns self
    else pure self

/-- `restock_publish_upto`. -/
def restockPublishUpto (target : ℕ) : NetM Link := do
  let now ← unixNow
  let self ← self.maybeRotateSignedPrekey p now
  restockLoop p codec target target self

/-- `mint_token`. -/
def mintToken (path : String) : NetM Key := do
  let res ← self.ownerPost p path []
  let m ← ofExcept (checkBody res >>= expectMap)
  ofExcept (readKey m 0)

/-- `mint_contact`. -/
def mintContact : NetM Key := self.mintToken p "/v1/tokens/contact"

/-- `mint_share`. -/
def mintShare : NetM Key := self.mintToken p "/v1/tokens/share"

/-- What `post_one_envelope` reads from an answer. -/
def readEnqueued (res : HttpResponse) : Except CoreError EnqueueResult := do
  let m ← checkBody res >>= expectMap
  match ← liftWire (Cbor.mapGet m 0 >>= Cbor.expectText) with
  | "ok" => .ok (.stored (← liftWire (Cbor.getUint m 1)))
  | "queued" => .ok .queued
  | _ => .error (.homeHttp res.status)

/-- `post_one_envelope`. -/
def postOneEnvelope (outer : Outgoing) (cover : Bool) : NetM EnqueueResult := do
  let res ← self.ownerPost p "/v1/envelopes" (codec.outer outer)
  if cover then ofExcept (readEnqueued res)
  else
    let ms ← act .clock
    act (.put { self with session := { self.session with lastRealMs := ms } })
    ofExcept (readEnqueued res)

/-- What `fetch_mailbox` reads from an answer. -/
def readRows (body : Bytes) : Except CoreError (List MailboxRow) := do
  match ← liftWire (Cbor.decode body) with
  | .array items => liftWire (items.mapM readRow)
  | _ => .error (.wire (.cbor "fetch must be an array"))

/-- `fetch_mailbox`. -/
def fetchMailbox : NetM (List MailboxRow) := do
  let auth ← self.mailboxBodyAuth p "/v1/mailbox/fetch" self.session.cursor fetchLimit
  let res ← signedCall p self.transport self.session.bundle
    { method := "POST", path := "/v1/mailbox/fetch", headers := [], body := auth.encode }
  let rows ← ofExcept (checkBody res >>= readRows)
  match rows.getLast? with
  | some last =>
    act (.put { self with session := { self.session with cursor := last.seq } })
    pure rows
  | none => pure rows

/-- `ack`. -/
def ack : NetM Unit := do
  let auth ← self.mailboxBodyAuth p "/v1/mailbox/ack" self.session.cursor 1
  let res ← signedCall p self.transport self.session.bundle
    { method := "POST", path := "/v1/mailbox/ack", headers := [], body := auth.encode }
  ofExcept (checkStatus res)

/-! ## Hosted groups -/

/-- `create_group`. -/
def createGroup (signingPk deliveryCapability : Key) : NetM HostGroup := do
  let body := Cbor.encode (.map [(0, .bytes signingPk.data), (1, .bytes deliveryCapability.data),
    (2, .bytes self.session.bundle.serverHpkePublicKey.data)])
  let res ← self.ownerPost p "/v1/groups" body
  let m ← ofExcept (checkBody res >>= expectMap)
  ofExcept (do
    .ok { groupId := ← readKey m 0, cred := ← readCred m 1, hostBase := self.session.homeBase })

/-- What goes to the host of a group. -/
def groupPost (groupId : Key) (rest : String) (pairs : List (UInt64 × Cbor.Value)) :
    NetM HttpResponse :=
  self.callGroup p groupId
    { method := "POST", path := groupPath groupId rest, headers := [],
      body := Cbor.encode (.map pairs) }

/-- `group_append`. -/
def groupAppend (groupId : Key) (cred : HostCred) (type : MessageType) (body : Bytes) :
    NetM UInt64 := do
  let res ← self.groupPost p groupId "/append"
    (cred.pairs ++ [(2, .uint type.toU8.toUInt64), (3, .bytes body)])
  let m ← ofExcept (checkBody res >>= expectMap)
  ofExcept (liftWire (Cbor.getUint m 0))

/-- `store_invite`. -/
def storeInvite (groupId : Key) (cred : HostCred) (invite : GroupInvite) : NetM Unit := do
  let res ← self.groupPost p groupId "/invites" (cred.pairs ++ [(2, .bytes (codec.invite invite))])
  ofExcept (checkStatus res)

/-- `accept_invite`. -/
def acceptInvite (groupId nonce : Key) : NetM HostAccept := do
  let res ← signedCall p self.transport self.session.bundle
    { method := "POST", path := groupPath groupId "/accept", headers := [],
      body := Cbor.encode (.map [(0, .bytes nonce.data)]) }
  let m ← ofExcept (checkBody res >>= expectMap)
  ofExcept (do
    let inviteeBinding ← readKeyOpt m 3
    let salt ← readKeyOpt m 4
    .ok { pendingId := ← readKey m 0, cred := ← readCred m 1, inviteeBinding, salt })

/-- `lookup_pending`. -/
def lookupPending (groupId : Key) (cred : HostCred) (pendingId : Key) : NetM PendingLookup := do
  let res ← self.groupPost p groupId "/pending-lookup" (cred.pairs ++ [(2, .bytes pendingId.data)])
  let m ← ofExcept (checkBody res >>= expectMap)
  ofExcept (do
    .ok { credentialId := ← readKey m 0, inviteeBinding := ← readKeyOpt m 1,
          salt := ← readKeyOpt m 2 })

/-- `admit`. -/
def admitPending (groupId : Key) (admitter : HostCred) (admission : GroupAdmit)
    (signingPk capability hpke : Key) : NetM Key := do
  let res ← self.groupPost p groupId "/admit"
    (admitter.pairs ++ [(2, .bytes (codec.admission admission)), (3, .bytes signingPk.data),
      (4, .bytes capability.data), (5, .bytes hpke.data)])
  let m ← ofExcept (checkBody res >>= expectMap)
  ofExcept (readKey m 0)

/-- `upload_file`. -/
def uploadFile (groupId : Key) (cred : HostCred) (fetchToken : Key) (body : Bytes) :
    NetM Unit := do
  let res ← self.callGroup p groupId
    { method := "POST", path := groupPath groupId ("/files/" ++ toHex fetchToken.data),
      headers := cred.headers, body }
  ofExcept (checkStatus res)

/-- `fetch_file`. -/
def fetchFile (groupId : Key) (cred : HostCred) (fetchToken : Key) : NetM Bytes := do
  let res ← self.callGroup p groupId
    { method := "GET", path := groupPath groupId ("/files/" ++ toHex fetchToken.data),
      headers := cred.headers, body := [] }
  ofExcept (checkBody res)

end Link

/-- `post_fanout`. -/
def postFanout (home : HttpHome) (groupId : Key) (cred : HostCred) (capability hpke : Key) :
    NetM Unit := do
  let res ← call home
    { method := "POST", path := groupPath groupId "/fanout", headers := [],
      body := Cbor.encode (.map
        (cred.pairs ++ [(2, .bytes capability.data), (3, .bytes hpke.data)])) }
  ofExcept (checkStatus res)

/-- `refresh_fanout`. -/
def Link.refreshFanout (self : Link) (groupId : Key) (cred : HostCred) (capability hpke : Key) :
    NetM Unit :=
  match self.transport.redirect p (self.groupOrigin groupId) with
  | some alt => postFanout alt groupId cred capability hpke
  | none => postFanout self.transport groupId cred capability hpke

/-- `post_binding`. -/
def postBinding (home : HttpHome) (card : ContactCard) : NetM Unit := do
  let body ← ofExcept (codec.card card)
  let res ← call home { method := "POST", path := "/v1/binding", headers := [], body }
  ofExcept (checkStatus res)

/-! ## Registration -/

/-- The installation once `mint_card` has counted. -/
def Installation.bumped (install : Installation) : Installation :=
  { install with bindingSeq := install.bindingSeq + 1 }

/-- `HomeSession::register`. -/
def HomeSession.register (home : HttpHome) (install : Installation) (now : UInt64) : NetM Link := do
  let bundle ← fetchBundle p home
  let shareToken ← drawNonce
  let card ← ofExcept (cardWithShare p install.bumped bundle (saturatingAddU64 now cardTtlSecs)
    shareToken)
  let body ← ofExcept (codec.card card)
  let res ← signedCall p home bundle { method := "POST", path := "/v1/register", headers := [], body }
  ofExcept (checkStatus res)
  pure
    { transport := home
      session := .resume install.bumped
        { bundle, cursor := 0, contacts := ∅, groups := [], homeBase := "", privacy := .normal } }

namespace Link

variable (self : Link)

/-- The groups of a session that leaves its home say where they are. -/
def anchoredGroups : List HostGroup :=
  self.session.groups.map fun g ↦
    if g.hostBase = "" then { g with hostBase := self.session.homeBase } else g

/-- The session on its new home. -/
def movedTo (home : HttpHome) (bundle : ServerBundle) (base : String) : Link where
  transport := home
  session := { self.session with
    bundle, cursor := 0, groups := self.anchoredGroups, homeBase := trimSlashes base
    anonymous := home.anonymous }

/-- The loop of `rehome` over the groups. -/
def moveFanouts (old : HttpHome) : NetM Unit :=
  forEach (fun g ↦ do
    match ← (self.mintContact p).attempt with
    | .error _ => pure ()
    | .ok capability =>
      let _ ← (postFanout old g.groupId g.cred capability
        self.session.bundle.serverHpkePublicKey).attempt) self.session.groups

/-- `rehome` up to the request that registers: the bundle of the new home, and the card for it. -/
def prepareMove (home : HttpHome) (now : UInt64) : NetM (ServerBundle × ContactCard) := do
  let bundle ← fetchBundle p home
  if bundle.serverId = self.session.bundle.serverId then fail .alreadyRegistered
  else
    let shareToken ← drawNonce
    act (.put (self.withInstall self.session.install.bumped))
    let card ← ofExcept (cardWithShare p self.session.install.bumped bundle
      (saturatingAddU64 now cardTtlSecs) shareToken)
    pure (bundle, card)

/-- `rehome` from the answer to the registration on. -/
def adopt (home : HttpHome) (base : String) (bundle : ServerBundle) (card : ContactCard)
    (res : HttpResponse) : NetM ContactCard := do
  ofExcept (checkStatus res)
  let moved := (self.withInstall self.session.install.bumped).movedTo home bundle base
  act (.put moved)
  let moved ← moved.restockPublishUpto p codec prekeyRestockBelow
  moved.moveFanouts p self.transport
  let _ ← (postBinding codec self.transport card).attempt
  pure card

/-- `rehome`. -/
def rehome (home : HttpHome) (base : String) (now : UInt64) : NetM ContactCard := do
  let made ← self.prepareMove p home now
  let body ← ofExcept (codec.card made.2)
  let res ← call home { method := "POST", path := "/v1/register", headers := [], body }
  self.adopt p codec home base made.1 made.2 res

end Link

/-! ## All of them -/

/-- The methods that ask a home. -/
inductive HomeOp : Type → Type
  | register (home : HttpHome) (install : Installation) (now : UInt64) : HomeOp Link
  | rehome (home : HttpHome) (base : String) (now : UInt64) : HomeOp ContactCard
  | discoveryAt (origin : String) (identity : IdentityId) : HomeOp Discovery
  | fetchPrekeyAt (origin : String) (shareToken : Key) : HomeOp SignedPrekey
  | issueTurn : HomeOp TurnConfig
  | submitRevocation (stmt : RevocationStatement) : HomeOp Unit
  | publishPrekey : HomeOp Link
  | restockPublishUpto (target : ℕ) : HomeOp Link
  | mintContact : HomeOp Key
  | mintShare : HomeOp Key
  | postOneEnvelope (outer : Outgoing) (cover : Bool) : HomeOp EnqueueResult
  | fetchMailbox : HomeOp (List MailboxRow)
  | ack : HomeOp Unit
  | createGroup (signingPk deliveryCapability : Key) : HomeOp HostGroup
  | groupAppend (groupId : Key) (cred : HostCred) (type : MessageType) (body : Bytes) :
    HomeOp UInt64
  | storeInvite (groupId : Key) (cred : HostCred) (invite : GroupInvite) : HomeOp Unit
  | acceptInvite (groupId nonce : Key) : HomeOp HostAccept
  | lookupPending (groupId : Key) (cred : HostCred) (pendingId : Key) : HomeOp PendingLookup
  | admitPending (groupId : Key) (admitter : HostCred) (admission : GroupAdmit)
      (signingPk capability hpke : Key) : HomeOp Key
  | refreshFanout (groupId : Key) (cred : HostCred) (capability hpke : Key) : HomeOp Unit
  | uploadFile (groupId : Key) (cred : HostCred) (fetchToken : Key) (body : Bytes) : HomeOp Unit
  | fetchFile (groupId : Key) (cred : HostCred) (fetchToken : Key) : HomeOp Bytes

/-- A method, called on a session. -/
def HomeOp.perform (self : Link) : {α : Type} → HomeOp α → NetM α
  | _, register home install now => HomeSession.register p codec home install now
  | _, rehome home base now => self.rehome p codec home base now
  | _, discoveryAt origin identity => self.discoveryAt p codec origin identity
  | _, fetchPrekeyAt origin shareToken => self.fetchPrekeyAt p codec origin shareToken
  | _, issueTurn => self.issueTurn p
  | _, submitRevocation stmt => self.submitRevocation p stmt
  | _, publishPrekey => self.publishPrekey p codec
  | _, restockPublishUpto target => self.restockPublishUpto p codec target
  | _, mintContact => self.mintContact p
  | _, mintShare => self.mintShare p
  | _, postOneEnvelope outer cover => self.postOneEnvelope p codec outer cover
  | _, fetchMailbox => self.fetchMailbox p
  | _, ack => self.ack p
  | _, createGroup signingPk deliveryCapability => self.createGroup p signingPk deliveryCapability
  | _, groupAppend groupId cred type body => self.groupAppend p groupId cred type body
  | _, storeInvite groupId cred invite => self.storeInvite p codec groupId cred invite
  | _, acceptInvite groupId nonce => self.acceptInvite p groupId nonce
  | _, lookupPending groupId cred pendingId => self.lookupPending p groupId cred pendingId
  | _, admitPending groupId admitter admission signingPk capability hpke =>
    self.admitPending p codec groupId admitter admission signingPk capability hpke
  | _, refreshFanout groupId cred capability hpke =>
    self.refreshFanout p groupId cred capability hpke
  | _, uploadFile groupId cred fetchToken body => self.uploadFile p groupId cred fetchToken body
  | _, fetchFile groupId cred fetchToken => self.fetchFile p groupId cred fetchToken

end NemoMessenger.Client
