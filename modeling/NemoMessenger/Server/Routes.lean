import NemoMessenger.Wire.Objects
import NemoMessenger.Server.Drain
import NemoMessenger.Server.Node

/-!
# Routes

The router, what every handler reads from a request before it takes a lock, what it does under the
locks, and the layers around the handlers that save the server and sign the answer.
-/

namespace NemoMessenger.Server

open NemoMessenger.Data NemoMessenger.Wire

/-! ## Requests -/

/-- The methods the router tells apart. -/
inductive Method
  | get
  | head
  | post
  | other
  deriving DecidableEq, Repr

/-- A request: the path of its URI, and its header fields under names in lower case. -/
structure Request where
  method : Method
  path : Bytes
  headers : List (String × Bytes)
  body : Bytes
  /-- What `WebSocketUpgrade` makes of it. -/
  upgrade : Except ℕ Unit

/-- `HeaderValue::to_str`: nothing but visible ASCII. -/
def toStr (value : Bytes) : Option Bytes :=
  if value.all fun b ↦ b = 0x09 || 0x20 ≤ b && b < 0x7f then some value else none

/-- `headers.get(name)`. -/
def Request.header (req : Request) (name : String) : Option Bytes :=
  (req.headers.find? fun field ↦ field.1 = name).map Prod.snd

/-- `parse_key_hex`. -/
def parseKeyHex (s : Bytes) : Option Key := (fromHex s >>= copyFixed 32).toOption

/-- `header_token`. -/
def Request.headerToken (req : Request) (name : String) : Option Key :=
  req.header name >>= toStr >>= parseKeyHex

/-- `header_cred`. -/
def Request.headerCred (req : Request) : Option MemberCred := do
  let credentialId ← req.headerToken "nemo-cred-id"
  let credentialSecret ← req.headerToken "nemo-cred-secret"
  some { credentialId, credentialSecret }

/-- `header_owner`. -/
def Request.headerOwner (req : Request) : Option MailboxOwnerAuth := do
  let raw ← req.header "nemo-owner" >>= toStr
  let bytes ← (fromHex raw).toOption
  (MailboxOwnerAuth.decode bytes).toOption

/-- An identity and the authorisation it shows. -/
structure Owner where
  id : IdentityId
  auth : MailboxOwnerAuth

/-- An option, or the status of its absence. -/
def orStatus {α : Type} (code : ℕ) : Option α → Except ℕ α
  | some a => .ok a
  | none => .error code

/-- `require_owner`. -/
def Request.requireOwner (req : Request) : Except ℕ Owner := do
  let auth ← orStatus 401 req.headerOwner
  let id ← orStatus 400 (ownerId auth)
  .ok { id, auth }

/-- The `Bytes` extractor under `DefaultBodyLimit`. -/
def Request.bytes (req : Request) : Except ℕ Bytes :=
  if req.body.length > bodyLimit then .error 413 else .ok req.body

/-! ## Paths -/

/-- The escapes of a path segment resolved. -/
def percentDecode : Bytes → Bytes
  | 0x25 :: hi :: lo :: rest =>
    match hexNibble hi, hexNibble lo with
    | .ok h, .ok l => (h <<< 4 ||| l) :: percentDecode rest
    | _, _ => 0x25 :: percentDecode (hi :: lo :: rest)
  | b :: rest => b :: percentDecode rest
  | [] => []

/-- The `Path<String>` extractor on a segment. -/
def pathParam (segment : Bytes) : Except ℕ Bytes :=
  if (Cbor.fromUtf8 (percentDecode segment)).isSome then .ok (percentDecode segment)
  else .error 400

/-- A segment of a route. -/
inductive Segment
  | lit (text : String)
  | param

/-- The parameters of a path that has the form of a route. -/
def matchSegments : List Segment → List Bytes → Option (List Bytes)
  | [], [] => some []
  | .lit text :: route, segment :: path =>
    if segment = Cbor.textBytes text then matchSegments route path else none
  | .param :: route, segment :: path =>
    if segment = [] then none else (matchSegments route path).map (segment :: ·)
  | _, _ => none

/-- The handlers. -/
inductive Endpoint
  | bundle
  | register
  | observeCardBinding
  | discovery
  | fetchPrekey
  | uploadPrekey
  | postEnvelope
  | mailboxFetch
  | mailboxAck
  | mintShare
  | mintContact
  | revocation
  | wakeup
  | issueTurn
  | createGroup
  | groupAppend
  | groupInvite
  | groupAccept
  | groupAdmit
  | groupFanout
  | groupPendingLookup
  | groupFetchFile
  | groupUploadFile
  deriving DecidableEq, Repr

/-- `MethodRouter`. -/
abbrev MethodRouter := Method → Option Endpoint

/-- `get(handler)`, which answers `HEAD` as well. -/
def MethodRouter.get (endpoint : Endpoint) : MethodRouter
  | .get | .head => some endpoint
  | _ => none

/-- `.post(handler)` on what is there already. -/
def MethodRouter.post (endpoint : Endpoint) (router : MethodRouter) : MethodRouter
  | .post => some endpoint
  | method => router method

/-- `post(handler)`. -/
def MethodRouter.onlyPost (endpoint : Endpoint) : MethodRouter :=
  MethodRouter.post endpoint fun _ ↦ none

/-- `router`. -/
def router : List (List Segment × MethodRouter) :=
  [([.lit "v1", .lit "bundle"], .get .bundle),
    ([.lit "v1", .lit "register"], .onlyPost .register),
    ([.lit "v1", .lit "binding"], .onlyPost .observeCardBinding),
    ([.lit "v1", .lit "discovery", .param], .get .discovery),
    ([.lit "v1", .lit "prekeys"], .post .uploadPrekey (.get .fetchPrekey)),
    ([.lit "v1", .lit "envelopes"], .onlyPost .postEnvelope),
    ([.lit "v1", .lit "mailbox", .lit "fetch"], .onlyPost .mailboxFetch),
    ([.lit "v1", .lit "mailbox", .lit "ack"], .onlyPost .mailboxAck),
    ([.lit "v1", .lit "tokens", .lit "share"], .onlyPost .mintShare),
    ([.lit "v1", .lit "tokens", .lit "contact"], .onlyPost .mintContact),
    ([.lit "v1", .lit "revocation"], .onlyPost .revocation),
    ([.lit "v1", .lit "wakeup"], .get .wakeup),
    ([.lit "v1", .lit "turn"], .onlyPost .issueTurn),
    ([.lit "v1", .lit "groups"], .onlyPost .createGroup),
    ([.lit "v1", .lit "groups", .param, .lit "append"], .onlyPost .groupAppend),
    ([.lit "v1", .lit "groups", .param, .lit "invites"], .onlyPost .groupInvite),
    ([.lit "v1", .lit "groups", .param, .lit "accept"], .onlyPost .groupAccept),
    ([.lit "v1", .lit "groups", .param, .lit "admit"], .onlyPost .groupAdmit),
    ([.lit "v1", .lit "groups", .param, .lit "fanout"], .onlyPost .groupFanout),
    ([.lit "v1", .lit "groups", .param, .lit "pending-lookup"], .onlyPost .groupPendingLookup),
    ([.lit "v1", .lit "groups", .param, .lit "files", .param],
      .post .groupUploadFile (.get .groupFetchFile))]

/-- The segments of a path behind its first slash. -/
def pathSegments (path : Bytes) : Option (List Bytes) :=
  match path.splitOn 0x2f with
  | [] :: segments => some segments
  | _ => none

/-- The route of a path, with the parameters. -/
def findRoute (path : Bytes) : Option (MethodRouter × List Bytes) := do
  let segments ← pathSegments path
  router.findSome? fun route ↦ (matchSegments route.1 segments).map (route.2, ·)

/-- The handler of a request, with the parameters of its path. -/
def Request.endpoint (req : Request) : Except ℕ (Endpoint × List Bytes) := do
  let (methods, params) ← orStatus 404 (findRoute req.path)
  let endpoint ← orStatus 405 (methods req.method)
  .ok (endpoint, params)

/-! ## What the handlers read -/

/-- `read_key`, without the error. -/
def readKey (m : List (UInt64 × Cbor.Value)) (k : UInt64) : Option Key :=
  (Cbor.getFixed 32 m k).toOption

/-- `read_bytes`, without the error. -/
def readBytes (m : List (UInt64 × Cbor.Value)) (k : UInt64) : Option Bytes :=
  (Cbor.mapGet m k >>= Cbor.expectBytes).toOption

/-- `read_cred`, without the error. -/
def readCred (m : List (UInt64 × Cbor.Value)) : Option MemberCred := do
  let credentialId ← readKey m 0
  let credentialSecret ← readKey m 1
  some { credentialId, credentialSecret }

/-- What a handler has read from a request before it takes a lock. -/
inductive Call
  | bundle
  | register (card : ContactCard)
  | observeCardBinding (card : ContactCard)
  | discovery (identityId : IdentityId)
  | fetchPrekey (token : Key)
  | uploadPrekey (owner : Owner) (blob : Bytes)
  | postEnvelope (owner : Owner) (outer : OuterEnvelope)
  | mailboxFetch (owner : Owner)
  | mailboxAck (owner : Owner)
  | mintShare (owner : Owner)
  | mintContact (owner : Owner)
  | revocation (stmt : RevocationStatement)
  | wakeup (owner : Owner)
  | issueTurn (owner : Owner)
  | createGroup (owner : Owner) (body : Bytes) (signingPk cap hpke : Key)
  | groupAppend (req : AppendRequest)
  | groupInvite (groupId : GroupId) (cred : MemberCred) (invite : GroupInvite)
  | groupAccept (groupId : GroupId) (nonce : Key)
  | groupAdmit (groupId : GroupId) (admitter : MemberCred) (admission : GroupAdmit)
      (joinerPk cap hpke : Key)
  | groupFanout (groupId : GroupId) (cred : MemberCred) (cap hpke : Key)
  | groupPendingLookup (groupId : GroupId) (cred : MemberCred) (pendingId : Key)
  | groupFetchFile (groupId : GroupId) (fetchToken : Key) (cred : MemberCred)
  | groupUploadFile (groupId : GroupId) (fetchToken : Key) (cred : MemberCred) (body : Bytes)

namespace Call

/-- What `create_group` reads from its body. -/
def readCreateGroup (owner : Owner) (body : Bytes) : Option Call := do
  let m ← decodeMap body
  some (.createGroup owner body (← readKey m 0) (← readKey m 1) (← readKey m 2))

/-- What `group_invite` reads from path and body. -/
def readInvite (id body : Bytes) : Option Call := do
  let groupId ← parseGroupId id
  let m ← decodeMap body
  let cred ← readCred m
  let invite ← (GroupInvite.decode (← readBytes m 2)).toOption
  some (.groupInvite groupId cred invite)

/-- What `group_accept` reads from path and body. -/
def readAccept (id body : Bytes) : Option Call := do
  let groupId ← parseGroupId id
  let m ← decodeMap body
  some (.groupAccept groupId (← readKey m 0))

/-- What `group_admit` reads from path and body. -/
def readAdmit (id body : Bytes) : Option Call := do
  let groupId ← parseGroupId id
  let m ← decodeMap body
  let admitter ← readCred m
  let admission ← (GroupAdmit.decode (← readBytes m 2)).toOption
  some (.groupAdmit groupId admitter admission (← readKey m 3) (← readKey m 4) (← readKey m 5))

/-- What `group_fanout` reads from path and body. -/
def readFanout (id body : Bytes) : Option Call := do
  let groupId ← parseGroupId id
  let m ← decodeMap body
  let cred ← readCred m
  some (.groupFanout groupId cred (← readKey m 2) (← readKey m 3))

/-- What `group_pending_lookup` reads from path and body. -/
def readPendingLookup (id body : Bytes) : Option Call := do
  let groupId ← parseGroupId id
  let m ← decodeMap body
  let cred ← readCred m
  some (.groupPendingLookup groupId cred (← readKey m 2))

end Call

/-- What `mailbox_fetch` and `mailbox_ack` read from a body. -/
def readOwner (body : Bytes) : Option Owner := do
  let auth ← (MailboxOwnerAuth.decode body).toOption
  let id ← ownerId auth
  some { id, auth }

/-- The group, the token and the credential of a file request. -/
def Request.readFile (req : Request) (id token : Bytes) :
    Except ℕ (GroupId × Key × MemberCred) := do
  let groupId ← orStatus 400 (parseGroupId id)
  let fetchToken ← orStatus 400 (parseKeyHex token)
  let cred ← orStatus 403 req.headerCred
  .ok (groupId, fetchToken, cred)

/-- What the extractors and a handler read from a request, or the status it is refused with. -/
def Endpoint.read (req : Request) : Endpoint → List Bytes → Except ℕ Call
  | bundle, _ => .ok .bundle
  | register, _ => do
    let card ← orStatus 400 (ContactCard.decode (← req.bytes)).toOption
    .ok (.register card)
  | observeCardBinding, _ => do
    let card ← orStatus 400 (ContactCard.decode (← req.bytes)).toOption
    .ok (.observeCardBinding card)
  | discovery, [id] => do
    let identityId ← orStatus 400 (parseKeyHex (← pathParam id))
    .ok (.discovery identityId)
  | fetchPrekey, _ => do .ok (.fetchPrekey (← orStatus 403 (req.headerToken "nemo-token")))
  | uploadPrekey, _ => do
    let body ← req.bytes
    .ok (.uploadPrekey (← req.requireOwner) body)
  | postEnvelope, _ => do
    let body ← req.bytes
    let owner ← req.requireOwner
    let outer ← orStatus 400 (OuterEnvelope.decode body).toOption
    .ok (.postEnvelope owner outer)
  | mailboxFetch, _ => do .ok (.mailboxFetch (← orStatus 400 (readOwner (← req.bytes))))
  | mailboxAck, _ => do .ok (.mailboxAck (← orStatus 400 (readOwner (← req.bytes))))
  | mintShare, _ => do .ok (.mintShare (← req.requireOwner))
  | mintContact, _ => do .ok (.mintContact (← req.requireOwner))
  | revocation, _ => do
    let stmt ← orStatus 400 (RevocationStatement.decode (← req.bytes)).toOption
    .ok (.revocation stmt)
  | wakeup, _ => do
    req.upgrade
    .ok (.wakeup (← req.requireOwner))
  | issueTurn, _ => do .ok (.issueTurn (← req.requireOwner))
  | createGroup, _ => do
    let body ← req.bytes
    let owner ← req.requireOwner
    orStatus 400 (Call.readCreateGroup owner body)
  | groupAppend, [id] => do
    let id ← pathParam id
    let read ← orStatus 400 (AppendRequest.read id (← req.bytes))
    .ok (.groupAppend read)
  | groupInvite, [id] => do
    let id ← pathParam id
    orStatus 400 (Call.readInvite id (← req.bytes))
  | groupAccept, [id] => do
    let id ← pathParam id
    orStatus 400 (Call.readAccept id (← req.bytes))
  | groupAdmit, [id] => do
    let id ← pathParam id
    orStatus 400 (Call.readAdmit id (← req.bytes))
  | groupFanout, [id] => do
    let id ← pathParam id
    orStatus 400 (Call.readFanout id (← req.bytes))
  | groupPendingLookup, [id] => do
    let id ← pathParam id
    orStatus 400 (Call.readPendingLookup id (← req.bytes))
  | groupFetchFile, [id, token] => do
    let id ← pathParam id
    let token ← pathParam token
    let (groupId, fetchToken, cred) ← req.readFile id token
    .ok (.groupFetchFile groupId fetchToken cred)
  | groupUploadFile, [id, token] => do
    let id ← pathParam id
    let token ← pathParam token
    let body ← req.bytes
    let (groupId, fetchToken, cred) ← req.readFile id token
    .ok (.groupUploadFile groupId fetchToken cred body)
  | _, _ => .error 500

/-- What is read from a request. -/
def Request.call (req : Request) : Except ℕ Call := do
  let (endpoint, params) ← req.endpoint
  endpoint.read req params

/-! ## What the handlers do -/

/-- `TurnCred`. -/
structure TurnCred where
  url : Text
  username : Text
  credential : Text
  ttlSecs : UInt64

/-- What a request meets outside the state: the readings of the clock, the keys and the seals it
draws, and the credential `turn::issue` makes. -/
structure Env where
  clock : ℕ → UInt64
  key : ℕ → Key
  seals : ℕ → ℕ → Key × Key
  turn : TurnCred

namespace AppState

variable {α : Type} (st : AppState) (reply : α → Response)

/-- The end of a handler, from what an operation of the home server answered. -/
def answerHome : Outcome α → Response × AppState
  | (.error e, home) => (.status (mapErr e), { st with home })
  | (.ok a, home) => (reply a, { st with home })

/-- The end of a handler, from what an operation of the group host answered. -/
def answerGroups : GroupOutcome α → Response × AppState
  | (.error e, groups) => (.status (mapErr e), { st with groups })
  | (.ok a, groups) => (reply a, { st with groups })

end AppState

/-- `StatusCode::NO_CONTENT`. -/
def noContent {α : Type} (_ : α) : Response := .status 204

/-- `cbor_ok` on a map. -/
def cborMap (pairs : List (UInt64 × Cbor.Value)) : Response := .cbor (Cbor.encode (.map pairs))

/-- `encode_discovery`. -/
def encodeDiscovery (row : DirectoryRow) : Bytes :=
  Cbor.encode (.map ([(0, versionValue), (1, .bytes row.identityPublicKey.data),
    (2, .bytes row.revocationPublicKey.data), (3, row.binding.toCborValue)] ++
    row.revocation.toList.map fun stmt ↦ (4, .bytes stmt.encode)))

/-- The answer of `post_envelope`. -/
def enqueued : Enqueue → Response
  | .localSeq seq => cborMap [(0, .text "ok"), (1, .uint (UInt64.ofNat seq))]
  | .queued => cborMap [(0, .text "queued")]

/-- The answer of `mailbox_fetch`. -/
def fetched (rows : List StoredEnvelope) : Response :=
  .cbor (Cbor.encode (.array (rows.filterMap fetchItem)))

/-- The answer of `mint_token`. -/
def minted (token : Key) : Response := cborMap [(0, .bytes token.data)]

/-- The answer of `create_group`. -/
def created (group : CreatedGroup) : Response :=
  cborMap [(0, .bytes group.groupId.key.data), (1, .bytes group.cred.credentialId.data),
    (2, .bytes group.cred.credentialSecret.data)]

/-- An optional key of an answer. -/
def optionalKey (k : UInt64) (key : Option Key) : List (UInt64 × Cbor.Value) :=
  key.toList.map fun key ↦ (k, .bytes key.data)

/-- The answer of `group_accept`. -/
def accepted (pending : PendingJoin) : Response :=
  cborMap ([(0, .bytes pending.pendingId.data), (1, .bytes pending.cred.credentialId.data),
    (2, .bytes pending.cred.credentialSecret.data)] ++ optionalKey 3 pending.inviteeBinding ++
      optionalKey 4 pending.salt)

/-- The answer of `group_pending_lookup`. -/
def looked (found : PendingLookup) : Response :=
  cborMap ([(0, .bytes found.credentialId.data)] ++ optionalKey 1 found.inviteeBinding ++
    optionalKey 2 found.salt)

namespace HomeServer

/-- `fanout_hpke_allowed`. -/
def fanoutHpkeAllowed (home : HomeServer) (hpke : Key) : Bool :=
  decide (home.hpke.publicKey = hpke) ||
    home.peers.entries.any fun peer ↦ decide (peer.2.bundle.serverHpkePublicKey = hpke)

/-- `fanout_ok`. -/
def fanoutOk (home : HomeServer) (cap hpke : Key) : Bool :=
  match home.capabilityMailbox cap with
  | some _ => decide (hpke = home.hpke.publicKey)
  | none => decide (hpke ≠ home.hpke.publicKey) && home.fanoutHpkeAllowed hpke

end HomeServer

section Handlers

variable (crypto : Crypto) (env : Env) (st : AppState)

/-- The home server with its clock set, as most handlers set it first. -/
def AppState.homeAt (now : UInt64) : HomeServer := { st.home with now := now.toNat }

/-- The group host with its clock set. -/
def AppState.groupsAt (now : UInt64) : GroupHost := { st.groups with now := now.toNat }

namespace Handler

/-- `discovery`. -/
def discovery (identityId : IdentityId) : Response :=
  match st.home.directory.lookup identityId with
  | some row => .cbor (encodeDiscovery row)
  | none => .status 403

/-- `fetch_prekey`. -/
def fetchPrekey (token : Key) : Response × AppState :=
  match (st.homeAt (env.clock 0)).fetchPrekey token with
  | (.error _, home) => (.status 403, { st with home })
  | (.ok blob, home) => (.octets blob, { st with home })

/-- `upload_prekey`. -/
def uploadPrekey (owner : Owner) (blob : Bytes) : Response × AppState :=
  let home := st.homeAt (env.clock 0)
  match home.checkOwner crypto owner.id owner.auth (env.clock 1).toNat
      (.header crypto (home.serverId crypto) "POST" "/v1/prekeys" blob) with
  | (.error e, home) => (.status (mapErr e), { st with home })
  | (.ok (), home) => st.answerHome noContent (home.publishPrekey owner.id blob)

/-- `mint_token`. -/
def mintToken (owner : Owner) (share : Bool) : Response × AppState :=
  let home := st.homeAt (env.clock 0)
  let path := if share then "/v1/tokens/share" else "/v1/tokens/contact"
  match home.checkOwner crypto owner.id owner.auth (env.clock 1).toNat
      (.header crypto (home.serverId crypto) "POST" path []) with
  | (.error e, home) => (.status (mapErr e), { st with home })
  | (.ok (), home) => st.answerHome minted
      (if share then home.mintShareToken owner.id none (env.key 0)
        else home.mintContactCapability owner.id (env.key 0))

/-- `issue_turn`; the clock of the server stays as it is. -/
def issueTurn (owner : Owner) : Response × AppState :=
  st.answerHome
    (fun () ↦ cborMap [(0, .text env.turn.url.chars), (1, .text env.turn.username.chars),
      (2, .text env.turn.credential.chars), (3, .uint env.turn.ttlSecs)])
    (st.home.checkOwner crypto owner.id owner.auth (env.clock 0).toNat
      (.header crypto (st.home.serverId crypto) "POST" "/v1/turn" []))

/-- `wakeup` up to the upgrade; the clock of the server stays as it is. -/
def wakeup (owner : Owner) : Response × AppState :=
  st.answerHome (fun () ↦ .status 101)
    (st.home.checkOwner crypto owner.id owner.auth (env.clock 0).toNat
      (.header crypto (st.home.serverId crypto) "GET" "/v1/wakeup" []))

/-- `create_group`; only the clock of the groups is set. -/
def createGroup (owner : Owner) (body : Bytes) (signingPk cap hpke : Key) :
    Response × AppState :=
  match st.home.checkOwner crypto owner.id owner.auth (env.clock 0).toNat
      (.header crypto (st.home.serverId crypto) "POST" "/v1/groups" body) with
  | (.error e, home) => (.status (mapErr e), { st with home })
  | (.ok (), home) =>
    if home.capabilityMailbox cap ≠ some owner.id ∨ !home.fanoutOk cap hpke then
      (.status 403, { st with home })
    else
      AppState.answerGroups { st with home } created
        ((st.groupsAt (env.clock 1)).createGroupFor crypto signingPk ⟨cap, hpke⟩ (some owner.id)
          ⟨env.key 0⟩ ⟨env.key 1, env.key 2⟩)

/-- `group_append` behind what it reads. -/
def groupAppend (req : AppendRequest) : Response × AppState :=
  match req.appendRow crypto (env.clock 0) (env.seals 0) st.groups with
  | (.error e, groups) => (.status (mapErr e), { st with groups })
  | (.ok appended, groups) => (cborMap [(0, .uint (UInt64.ofNat appended.seq))],
      { home := st.home.deliverCopies crypto (env.clock 1) appended.outers, groups })

/-- `revocation` behind what it reads. -/
def revocation (stmt : RevocationStatement) : Response × AppState :=
  match (st.homeAt (env.clock 0)).ingestRevocation crypto stmt with
  | (.error e, home) => (.status (mapErr e), { st with home })
  | (.ok ids, home) => (.status 204,
      { home
        groups := (st.groupsAt (env.clock 1)).appendRevocations crypto stmt env.seals ids })

/-- `group_admit`; only the clock of the groups is set. -/
def groupAdmit (groupId : GroupId) (admitter : MemberCred) (admission : GroupAdmit)
    (joinerPk cap hpke : Key) : Response × AppState :=
  if !st.home.fanoutOk cap hpke then (.status 403, st)
  else
    st.answerGroups minted
      ((st.groupsAt (env.clock 0)).admitJoiner crypto groupId admitter admission joinerPk ⟨cap, hpke⟩)

/-- `group_fanout`; only the clock of the groups is set. -/
def groupFanout (groupId : GroupId) (cred : MemberCred) (cap hpke : Key) : Response × AppState :=
  if !st.home.fanoutOk cap hpke then (.status 403, st)
  else
    st.answerGroups noContent
      ((st.groupsAt (env.clock 0)).refreshFanout crypto groupId cred ⟨cap, hpke⟩)

/-- `group_fetch_file`; the clock of the groups stays as it is. -/
def groupFetchFile (groupId : GroupId) (fetchToken : Key) (cred : MemberCred) : Response :=
  match st.groups.fetchFile crypto groupId cred fetchToken with
  | .error e => .status (mapErr e)
  | .ok blob => .octets blob

/-- `group_pending_lookup`; the clock of the groups stays as it is. -/
def groupPendingLookup (groupId : GroupId) (cred : MemberCred) (pendingId : Key) : Response :=
  match st.groups.lookupPending crypto groupId cred pendingId with
  | .error e => .status (mapErr e)
  | .ok found => looked found

end Handler

/-- What a handler does with what it has read. -/
def Call.handle : Call → Response × AppState
  | bundle => (.cbor st.home.bundle.encode, st)
  | register card =>
    st.answerHome noContent ((st.homeAt (env.clock 0)).registerFromCard crypto card)
  | observeCardBinding card => st.answerHome noContent
      ((st.homeAt (env.clock 0)).observeBinding crypto (card.identityId crypto) card.binding)
  | discovery identityId => (Handler.discovery st identityId, st)
  | fetchPrekey token => Handler.fetchPrekey env st token
  | uploadPrekey owner blob => Handler.uploadPrekey crypto env st owner blob
  | postEnvelope owner outer => st.answerHome enqueued
      ((st.homeAt (env.clock 0)).enqueueFromOwner crypto owner.id owner.auth (env.clock 1).toNat
        outer)
  | mailboxFetch owner => st.answerHome fetched
      ((st.homeAt (env.clock 0)).fetch crypto owner.id owner.auth (env.clock 1).toNat)
  | mailboxAck owner => st.answerHome noContent
      ((st.homeAt (env.clock 0)).ack crypto owner.id owner.auth (env.clock 1).toNat)
  | mintShare owner => Handler.mintToken crypto env st owner true
  | mintContact owner => Handler.mintToken crypto env st owner false
  | revocation stmt => Handler.revocation crypto env st stmt
  | wakeup owner => Handler.wakeup crypto env st owner
  | issueTurn owner => Handler.issueTurn crypto env st owner
  | createGroup owner body signingPk cap hpke =>
    Handler.createGroup crypto env st owner body signingPk cap hpke
  | groupAppend req => Handler.groupAppend crypto env st req
  | groupInvite groupId cred invite => st.answerGroups noContent
      ((st.groupsAt (env.clock 0)).storeInvite crypto groupId cred invite)
  | groupAccept groupId nonce => st.answerGroups accepted
      ((st.groupsAt (env.clock 0)).accept crypto groupId nonce ⟨env.key 0, env.key 1⟩ (env.key 2))
  | groupAdmit groupId admitter admission joinerPk cap hpke =>
    Handler.groupAdmit crypto env st groupId admitter admission joinerPk cap hpke
  | groupFanout groupId cred cap hpke => Handler.groupFanout crypto env st groupId cred cap hpke
  | groupPendingLookup groupId cred pendingId =>
    (Handler.groupPendingLookup crypto st groupId cred pendingId, st)
  | groupFetchFile groupId fetchToken cred =>
    (Handler.groupFetchFile crypto st groupId fetchToken cred, st)
  | groupUploadFile groupId fetchToken cred body => st.answerGroups noContent
      ((st.groupsAt (env.clock 0)).uploadFile crypto groupId cred fetchToken body)

/-- A request behind the layers: what it reads, then what its handler does. -/
def Request.handle (req : Request) : Response × AppState :=
  match req.call with
  | .error code => (.status code, st)
  | .ok call => call.handle crypto env st

end Handlers

/-! ## Layers -/

/-- `status.is_success()`. -/
def Response.isSuccess (response : Response) : Bool := 200 ≤ response.code && response.code < 300

/-- The condition of `persist_after` on the request. -/
def Request.mutating (req : Request) : Bool :=
  (req.method ≠ .get || req.path = Cbor.textBytes "/v1/prekeys") &&
    req.path ≠ Cbor.textBytes "/v1/turn"

/-- A node with its state replaced. -/
def Node.withState (node : Node) (st : AppState) : Node :=
  { node with home := st.home, host := st.groups }

/-- The state a node has in memory. -/
def Node.state (node : Node) : AppState := ⟨node.home, node.host⟩

/-- An answer without its body, as `HEAD` is answered. -/
def SignedResponse.strip (answer : SignedResponse) : SignedResponse :=
  { answer with response := .status answer.response.code }

section Layers

variable (crypto : Crypto) (env : Env) (fault : Bool) (req : Request) (node : Node)

/-- `persist_after`. -/
def Node.persistAfter : Response × Node :=
  let (response, st) := req.handle crypto env node.state
  let node := node.withState st
  if req.mutating && response.isSuccess then (response, (node.persist fault).2)
  else (response, node)

/-- A request through all layers. -/
def Node.serve : SignedResponse × Node :=
  let (response, after) := node.persistAfter crypto env fault req
  let answer := signAfter crypto after.home.sign (req.headerToken "nemo-nonce") response
  (if req.method = .head then answer.strip else answer, after)

end Layers

end NemoMessenger.Server
