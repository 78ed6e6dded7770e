import NemoMessenger.Server.GroupAppend
import NemoMessenger.Server.Federation

/-!
# Requests that append to a group

The handlers of `/v1/groups/{id}/append` and `/v1/revocation`. A handler takes the lock of the home
server and the lock of the groups one after the other, and what it does under one lock is a function
here: other requests can run in between.
-/

namespace NemoMessenger.Server

open NemoMessenger.Data NemoMessenger.Wire

/-! ## Reading requests -/

/-- `decode_map`. -/
def decodeMap (body : Bytes) : Option (List (UInt64 × Cbor.Value)) :=
  match Cbor.decode body with
  | .ok (.map m) => some m
  | _ => none

/-- `parse_group_id`, on the bytes of the path segment. -/
def parseGroupId (id : Bytes) : Option GroupId :=
  ((fromHex id >>= copyFixed 32).toOption).map GroupId.mk

/-- What `group_append` reads from path and body. -/
structure AppendRequest where
  groupId : GroupId
  cred : MemberCred
  type : MessageType
  body : Bytes

/-- The first part of `group_append`; whatever cannot be read is answered alike. -/
def AppendRequest.read (id body : Bytes) : Option AppendRequest := do
  let groupId ← parseGroupId id
  let m ← decodeMap body
  let credentialId ← (Cbor.getFixed 32 m 0).toOption
  let credentialSecret ← (Cbor.getFixed 32 m 1).toOption
  let type ← (Cbor.getUint m 2).toOption
  if type.toNat > 255 then none
  else do
    let type ← (MessageType.fromU8 type.toUInt8).toOption
    let body ← (Cbor.mapGet m 3 >>= Cbor.expectBytes).toOption
    some { groupId, cred := { credentialId, credentialSecret }, type, body }

/-! ## Answers -/

/-- A status without a body, a body of CBOR, or a body that was stored as it came. -/
inductive Response
  | status (code : ℕ)
  | cbor (body : Bytes)
  | octets (body : Bytes)

/-- `map_err`. -/
def mapErr : ServerError → ℕ
  | .alreadyRegistered => 409
  | .ownerAuth => 401
  | .fetchLimit => 400
  | .wire _ => 400
  | _ => 403

/-! ## Under the locks -/

namespace AppendRequest

variable (crypto : Crypto)

/-- What `group_append` does under the lock of the groups. -/
def appendRow (req : AppendRequest) (now : UInt64) (draws : ℕ → Key × Key) (groups : GroupHost) :
    GroupOutcome StreamAppend :=
  { groups with now := now.toNat }.append crypto req.groupId req.cred req.type req.body draws

end AppendRequest

namespace HomeServer

variable (crypto : Crypto)

/-- The loop of `group_append` over the copies; what `enqueue` answers is dropped. -/
def enqueueAll (home : HomeServer) (outers : List OuterEnvelope) : HomeServer :=
  outers.foldl (fun home outer ↦ (home.enqueue crypto outer).2) home

/-- What `group_append` does under the lock of the home server. -/
def deliverCopies (now : UInt64) (outers : List OuterEnvelope) (home : HomeServer) : HomeServer :=
  { home with now := now.toNat }.enqueueAll crypto outers

end HomeServer

/-- The loop of `revocation` over the groups; what `append_host_revocation` answers, the copies of
the row with it, is dropped. -/
def GroupHost.appendRevocations (crypto : Crypto) (stmt : RevocationStatement)
    (draws : ℕ → ℕ → Key × Key) (ids : List GroupId) (groups : GroupHost) : GroupHost :=
  ids.zipIdx.foldl
    (fun host id ↦ (host.appendHostRevocation crypto id.1 stmt (draws id.2)).2) groups

/-! ## Handlers -/

/-- `AppState` without the database and the wake-ups. -/
structure AppState where
  home : HomeServer
  groups : GroupHost

/-- `group_append`; the clock is read under each lock. -/
def groupAppend (crypto : Crypto) (clock : UInt64 × UInt64) (draws : ℕ → Key × Key)
    (id body : Bytes) (st : AppState) : Response × AppState :=
  match AppendRequest.read id body with
  | none => (.status 400, st)
  | some req =>
    match req.appendRow crypto clock.1 draws st.groups with
    | (.error e, groups) => (.status (mapErr e), { st with groups })
    | (.ok appended, groups) =>
      (.cbor (Cbor.encode (.map [(0, .uint (UInt64.ofNat appended.seq))])),
        { home := st.home.deliverCopies crypto clock.2 appended.outers, groups })

/-- `revocation`. -/
def revocation (crypto : Crypto) (clock : UInt64 × UInt64) (draws : ℕ → ℕ → Key × Key)
    (body : Bytes) (st : AppState) : Response × AppState :=
  match RevocationStatement.decode body with
  | .error _ => (.status 400, st)
  | .ok stmt =>
    match { st.home with now := clock.1.toNat }.ingestRevocation crypto stmt with
    | (.error e, home) => (.status (mapErr e), { st with home })
    | (.ok ids, home) => (.status 204,
      { home, groups := { st.groups with now := clock.2.toNat }.appendRevocations crypto stmt draws ids })

end NemoMessenger.Server
