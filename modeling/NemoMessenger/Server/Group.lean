import NemoMessenger.Server.State

/-!
# The group host

Group streams with their credentials, invites, pending joins and file slots, and the journal of what
changed in them. The host checks credentials and signatures and keeps the streams; it does not read
the commits in them. Randomness is an argument, as in the home server.
-/

namespace NemoMessenger.Server

open NemoMessenger.Data NemoMessenger.Wire

/-- `STREAM_MAX_BYTES`. -/
def streamMaxBytes : ℕ := 2 * 1024 * 1024 * 1024

/-- `FILE_BUDGET_BYTES`. -/
def fileBudgetBytes : ℕ := 4 * 1024 * 1024 * 1024

/-- `STREAM_MAX_AGE_SECS`. -/
def streamMaxAgeSecs : ℕ := 30 * 24 * 3600

/-- `GROUPS_PER_OWNER`. -/
def groupsPerOwner : ℕ := 64

/-! ## State -/

/-- `FanoutTarget`. -/
structure FanoutTarget where
  deliveryCapability : Key
  homeHpkePublic : Key
  deriving DecidableEq

/-- `MemberCred`. -/
structure MemberCred where
  credentialId : Key
  credentialSecret : Key
  deriving DecidableEq

/-- `CredRecord`. -/
structure CredRecord where
  secret : Key
  live : Bool
  signingPk : Option Key
  fanout : Option FanoutTarget
  deriving DecidableEq

/-- `StoredInvite`. -/
structure StoredInvite where
  expiresAt : ℕ
  inviteeBinding : Option Key
  salt : Option Key
  deriving DecidableEq

/-- `PendingRecord`. -/
structure PendingRecord where
  cred : MemberCred
  expiresAt : ℕ
  inviteeBinding : Option Key
  salt : Option Key
  deriving DecidableEq

/-- `FileSlot`. -/
structure FileSlot where
  groupId : GroupId
  owner : Key
  size : ℕ
  expiresAt : ℕ
  bytes : Option Bytes
  deriving DecidableEq

/-- `StreamRow`. -/
structure StreamRow where
  seq : ℕ
  type : MessageType
  body : Bytes
  receivedAt : ℕ
  deriving DecidableEq

/-- `GroupState`. -/
structure GroupState where
  nextSeq : ℕ
  creds : FiniteMap Key CredRecord
  invites : FiniteMap Key StoredInvite
  pending : FiniteMap Key PendingRecord
  bytes : ℕ
  stream : List StreamRow
  creator : Option Key

/-- `GroupDirty`. -/
structure GroupDirty where
  groups : List GroupId := []
  creds : List (GroupId × Key) := []
  invites : List GroupId := []
  pending : List GroupId := []
  streamNew : List (GroupId × ℕ) := []
  files : List Key := []

namespace GroupDirty

/-- `is_clean`. -/
def isClean (dirty : GroupDirty) : Bool :=
  dirty.groups.isEmpty && dirty.creds.isEmpty && dirty.invites.isEmpty && dirty.pending.isEmpty &&
    dirty.streamNew.isEmpty && dirty.files.isEmpty

/-- `absorb`. -/
def absorb (dirty other : GroupDirty) : GroupDirty where
  groups := dirty.groups ∪ other.groups
  creds := dirty.creds ∪ other.creds
  invites := dirty.invites ∪ other.invites
  pending := dirty.pending ∪ other.pending
  streamNew := dirty.streamNew ++ other.streamNew
  files := dirty.files ∪ other.files

end GroupDirty

/-- `GroupHost`. -/
structure GroupHost where
  now : ℕ
  groups : FiniteMap GroupId GroupState
  files : FiniteMap Key FileSlot
  fileBudget : ℕ
  dirty : GroupDirty

/-- `GroupHost::new`. -/
def GroupHost.new : GroupHost where
  now := 1700000000
  groups := ∅
  files := ∅
  fileBudget := fileBudgetBytes
  dirty := {}

/-- `CreatedGroup`. -/
structure CreatedGroup where
  groupId : GroupId
  cred : MemberCred

/-- `PendingJoin`. -/
structure PendingJoin where
  pendingId : Key
  cred : MemberCred
  inviteeBinding : Option Key
  salt : Option Key

/-- `PendingLookup`. -/
structure PendingLookup where
  credentialId : Key
  inviteeBinding : Option Key
  salt : Option Key

/-- `StreamAppend`. -/
structure StreamAppend where
  seq : ℕ
  outers : List OuterEnvelope

/-- What a group operation answers and the host it leaves. -/
abbrev GroupOutcome (α : Type) := Except ServerError α × GroupHost

namespace GroupHost

variable (crypto : Crypto)

/-- `hash_secret`. -/
def hashSecret (secret : Key) : Key := crypto.sha256 secret.data

/-! ## Queries -/

/-- `authorize_live`. -/
def authorizeLive (host : GroupHost) (groupId : GroupId) (cred : MemberCred) :
    Except ServerError Unit :=
  match host.groups.lookup groupId with
  | none => .error .denied
  | some g =>
    match g.creds.lookup cred.credentialId with
    | some record =>
      if record.live && decide (record.secret = hashSecret crypto cred.credentialSecret) then .ok ()
      else .error .denied
    | none => .error .denied

/-- `signing_pk`. -/
def signingPk (host : GroupHost) (groupId : GroupId) (credentialId : Key) : Option Key :=
  (host.groups.lookup groupId).bind fun g ↦
    (g.creds.lookup credentialId).bind CredRecord.signingPk

/-- The signing key of a member, if it is one a signature can be checked with. -/
def memberKey (host : GroupHost) (groupId : GroupId) (credentialId : Key) :
    Except ServerError Key :=
  match host.signingPk groupId credentialId with
  | none => .error .denied
  | some pk => if crypto.isVerifyingKey pk then .ok pk else .error .denied

/-- `live_file_bytes`. -/
def liveFileBytes (host : GroupHost) (groupId : GroupId) : ℕ :=
  FiniteMap.sumBy FileSlot.size
    (FiniteMap.retain (fun _ slot ↦
      decide (slot.groupId = groupId) && decide (host.now < slot.expiresAt)) host.files)

/-- `lookup_pending`. -/
def lookupPending (host : GroupHost) (groupId : GroupId) (cred : MemberCred) (pendingId : Key) :
    Except ServerError PendingLookup := do
  host.authorizeLive crypto groupId cred
  match (host.groups.lookup groupId).bind fun g ↦ g.pending.lookup pendingId with
  | none => .error .denied
  | some p =>
    if host.now ≥ p.expiresAt then .error .denied
    else
      .ok
        { credentialId := p.cred.credentialId
          inviteeBinding := p.inviteeBinding
          salt := p.salt }

/-- `fetch_file`. -/
def fetchFile (host : GroupHost) (groupId : GroupId) (cred : MemberCred) (fetchToken : Key) :
    Except ServerError Bytes := do
  host.authorizeLive crypto groupId cred
  match host.files.lookup fetchToken with
  | none => .error .denied
  | some slot =>
    if slot.groupId = groupId ∧ host.now < slot.expiresAt then
      match slot.bytes with
      | some bytes => .ok bytes
      | none => .error .denied
    else .error .denied

/-! ## Writes -/

/-- Replace the state of a group. -/
def putGroup (host : GroupHost) (groupId : GroupId) (g : GroupState) : GroupHost :=
  { host with groups := host.groups.insert groupId g }

/-- Journal a credential. -/
def markCred (host : GroupHost) (groupId : GroupId) (credentialId : Key) : GroupHost :=
  { host with dirty := { host.dirty with creds := host.dirty.creds.insert (groupId, credentialId) } }

/-- Journal the invites of a group. -/
def markInvites (host : GroupHost) (groupId : GroupId) : GroupHost :=
  { host with dirty := { host.dirty with invites := host.dirty.invites.insert groupId } }

/-- Journal the pending joins of a group. -/
def markPending (host : GroupHost) (groupId : GroupId) : GroupHost :=
  { host with dirty := { host.dirty with pending := host.dirty.pending.insert groupId } }

/-- Store a file slot and journal it. -/
def putFile (host : GroupHost) (fetchToken : Key) (slot : FileSlot) : GroupHost :=
  { host with
    files := host.files.insert fetchToken slot
    dirty := { host.dirty with files := host.dirty.files.insert fetchToken } }

/-- `creds.get_mut` on a group, with `update` applied to the record if there is one. -/
def modifyCred (host : GroupHost) (groupId : GroupId) (credentialId : Key)
    (update : CredRecord → CredRecord) : GroupHost :=
  match host.groups.lookup groupId with
  | none => host
  | some g =>
    match g.creds.lookup credentialId with
    | none => host
    | some record =>
      host.putGroup groupId { g with creds := g.creds.insert credentialId (update record) }

/-! ## Creating and joining -/

/-- `create_group_for`. -/
def createGroupFor (host : GroupHost) (signingPk : Key) (fanout : FanoutTarget)
    (creator : Option Key) (groupId : GroupId) (cred : MemberCred) : GroupOutcome CreatedGroup :=
  let owned := (FiniteMap.retain (fun _ g ↦ decide (g.creator = creator)) host.groups).entries.length
  if creator.isSome && decide (owned ≥ groupsPerOwner) then (.error .denied, host)
  else (.ok { groupId, cred },
    { host with
      groups := host.groups.insert groupId
        { nextSeq := 1
          creds := AList.insert cred.credentialId
            { secret := hashSecret crypto cred.credentialSecret
              live := true
              signingPk := some signingPk
              fanout := some fanout } ∅
          invites := ∅
          pending := ∅
          bytes := 0
          stream := []
          creator := creator }
      dirty :=
        { host.dirty with
          groups := host.dirty.groups.insert groupId
          creds := host.dirty.creds.insert (groupId, cred.credentialId) } })

/-- `store_invite`. -/
def storeInvite (host : GroupHost) (groupId : GroupId) (cred : MemberCred) (invite : GroupInvite) :
    GroupOutcome Unit :=
  match host.authorizeLive crypto groupId cred with
  | .error e => (.error e, host)
  | .ok () =>
    if invite.groupId ≠ groupId.key then (.error .denied, host)
    else
      match host.memberKey crypto groupId cred.credentialId with
      | .error e => (.error e, host)
      | .ok pk =>
        match invite.verify crypto pk with
        | .error _ => (.error .denied, host)
        | .ok () =>
          match host.groups.lookup groupId with
          | none => (.error .denied, host)
          | some g => (.ok (),
            (host.putGroup groupId
              { g with
                invites := g.invites.insert invite.nonce
                  { expiresAt := saturatingAdd host.now invite.ttlSecs.toNat
                    inviteeBinding := invite.inviteeBinding
                    salt := invite.salt } }).markInvites groupId)

/-- `accept`. The invite is taken before its expiry is looked at, and the journal is written only
when the join goes on. -/
def accept (host : GroupHost) (groupId : GroupId) (nonce : Key) (cred : MemberCred)
    (pendingId : Key) : GroupOutcome PendingJoin :=
  match host.groups.lookup groupId with
  | none => (.error .denied, host)
  | some g =>
    match g.invites.lookup nonce with
    | none => (.error .denied, host)
    | some stored =>
      let g := { g with invites := g.invites.erase nonce }
      if host.now ≥ stored.expiresAt then (.error .denied, host.putGroup groupId g)
      else
        let record : CredRecord :=
          { secret := hashSecret crypto cred.credentialSecret
            live := false
            signingPk := none
            fanout := none }
        let reserved : PendingRecord :=
          { cred :=
              { credentialId := cred.credentialId
                credentialSecret := hashSecret crypto cred.credentialSecret }
            expiresAt := stored.expiresAt
            inviteeBinding := stored.inviteeBinding
            salt := stored.salt }
        (.ok { pendingId, cred, inviteeBinding := stored.inviteeBinding, salt := stored.salt },
          (((host.putGroup groupId
            { g with
              creds := g.creds.insert cred.credentialId record
              pending := g.pending.insert pendingId reserved }).markInvites groupId).markPending
                groupId).markCred groupId cred.credentialId)

/-- `gc_pending`. -/
def gcPending (host : GroupHost) (groupId : GroupId) : GroupHost :=
  match host.groups.lookup groupId with
  | none => host
  | some g =>
    host.putGroup groupId
      { g with
        pending := FiniteMap.retain (fun _ p ↦ decide (p.expiresAt > host.now)) g.pending
        invites := FiniteMap.retain (fun _ i ↦ decide (i.expiresAt > host.now)) g.invites }

/-- The part of `admit` behind the checks on the admitter. -/
def admitPending (host : GroupHost) (groupId : GroupId) (pendingId joinerSigningPk : Key)
    (fanout : FanoutTarget) : GroupOutcome Key :=
  match host.groups.lookup groupId with
  | none => (.error .denied, host)
  | some g =>
    match g.pending.lookup pendingId with
    | none => (.error .denied, host)
    | some reserved =>
      let g := { g with pending := g.pending.erase pendingId }
      let host := host.putGroup groupId g
      if host.now ≥ reserved.expiresAt then (.error .denied, host)
      else
        match g.creds.lookup reserved.cred.credentialId with
        | none => (.error .denied, host)
        | some record => (.ok reserved.cred.credentialId,
          (host.putGroup groupId
            { g with
              creds := g.creds.insert reserved.cred.credentialId
                { record with
                  live := true
                  signingPk := some joinerSigningPk
                  fanout := some fanout } }).markCred groupId reserved.cred.credentialId)

/-- `admit`. -/
def admitJoiner (host : GroupHost) (groupId : GroupId) (admitter : MemberCred)
    (admission : GroupAdmit) (joinerSigningPk : Key) (fanout : FanoutTarget) : GroupOutcome Key :=
  match host.authorizeLive crypto groupId admitter with
  | .error e => (.error e, host)
  | .ok () =>
    if admission.groupId ≠ groupId.key then (.error .denied, host)
    else
      match host.memberKey crypto groupId admitter.credentialId with
      | .error e => (.error e, host)
      | .ok pk =>
        match admission.verify crypto pk with
        | .error _ => (.error .denied, host)
        | .ok () =>
          (((host.gcPending groupId).markInvites groupId).markPending groupId).admitPending groupId
            admission.pendingId joinerSigningPk fanout

/-- `refresh_fanout`. -/
def refreshFanout (host : GroupHost) (groupId : GroupId) (cred : MemberCred)
    (fanout : FanoutTarget) : GroupOutcome Unit :=
  match host.authorizeLive crypto groupId cred with
  | .error e => (.error e, host)
  | .ok () => (.ok (),
    (host.modifyCred groupId cred.credentialId
      fun record ↦ { record with fanout := some fanout }).markCred groupId cred.credentialId)

/-! ## Streams -/

/-- The stream row and the counters of `fanout_copy`. -/
def pushRow (host : GroupHost) (groupId : GroupId) (g : GroupState) (type : MessageType)
    (body : Bytes) : GroupHost :=
  { host with
    groups := host.groups.insert groupId
      { g with
        nextSeq := g.nextSeq + 1
        bytes := saturatingAdd g.bytes body.length
        stream := g.stream ++ [{ seq := g.nextSeq, type, body, receivedAt := host.now }] }
    dirty :=
      { host.dirty with
        groups := host.dirty.groups.insert groupId
        streamNew := host.dirty.streamNew ++ [(groupId, g.nextSeq)] } }

/-- The targets `fanout_copy` collects. -/
def fanoutTargets (g : GroupState) : List FanoutTarget :=
  g.creds.entries.filterMap fun e ↦ if e.2.live then e.2.fanout else none

/-- The copy sealed for one target. `draw` is the idempotency token and the HPKE entropy. -/
def sealCopy (type : MessageType) (body : Bytes) (target : FanoutTarget) (draw : Key × Key) :
    Except WireError OuterEnvelope := do
  let paddedMessage ← PaddedMessage.pad type body
  crypto.sealToServer draw.2 target.homeHpkePublic
    { deliveryCapability := target.deliveryCapability
      ttlBucket := .default
      idempotencyToken := draw.1
      paddedMessage := paddedMessage }

/-- `fanout_copy`. The row is in the stream before the first copy is sealed. -/
def fanoutCopy (host : GroupHost) (groupId : GroupId) (type : MessageType) (body : Bytes)
    (draws : ℕ → Key × Key) : GroupOutcome StreamAppend :=
  match host.groups.lookup groupId with
  | none => (.error .denied, host)
  | some g =>
    if saturatingAdd g.bytes body.length > streamMaxBytes then (.error .denied, host)
    else
      let host := host.pushRow groupId g type body
      match (fanoutTargets g).zipIdx.mapM fun t ↦ sealCopy crypto type body t.1 (draws t.2) with
      | .error e => (.error (.wire e), host)
      | .ok outers => (.ok { seq := g.nextSeq, outers }, host)

/-- `append_host_revocation`. -/
def appendHostRevocation (host : GroupHost) (groupId : GroupId) (stmt : RevocationStatement)
    (draws : ℕ → Key × Key) : GroupOutcome StreamAppend :=
  if (host.groups.lookup groupId).isNone then (.error .denied, host)
  else host.fanoutCopy crypto groupId .revocationStatement stmt.encode draws

/-- `append_remove`: the named credential still gets this copy. -/
def appendRemove (host : GroupHost) (groupId : GroupId) (cred : MemberCred) (body : Bytes)
    (draws : ℕ → Key × Key) : GroupOutcome StreamAppend :=
  match RemoveBundle.decode body with
  | .error e => (.error (.wire e), host)
  | .ok bundle =>
    match host.memberKey crypto groupId cred.credentialId with
    | .error e => (.error e, host)
    | .ok pk =>
      match bundle.verifySidecar crypto pk groupId.key with
      | .error e => (.error (.wire e), host)
      | .ok () =>
        match host.fanoutCopy crypto groupId .removeBundle body draws with
        | (.error e, host) => (.error e, host)
        | (.ok out, host) => (.ok out,
          (host.modifyCred groupId bundle.credentialId
            fun record ↦ { record with live := false, fanout := none }).markCred groupId
              bundle.credentialId)

/-- `append_reserve`. -/
def appendReserve (host : GroupHost) (groupId : GroupId) (cred : MemberCred) (body : Bytes)
    (draws : ℕ → Key × Key) : GroupOutcome StreamAppend :=
  match AttachmentReserve.decode body with
  | .error e => (.error (.wire e), host)
  | .ok reserve =>
    if (host.files.lookup reserve.fetchToken).isSome then (.error .denied, host)
    else if saturatingAdd (host.liveFileBytes groupId) reserve.sizeBucket.innerLen >
        host.fileBudget then (.error .denied, host)
    else
      let slot : FileSlot :=
        { groupId := groupId
          owner := cred.credentialId
          size := reserve.sizeBucket.innerLen
          expiresAt := saturatingAdd host.now (reserve.ttlBucket.ttlSecs.getD streamMaxAgeSecs)
          bytes := none }
      match host.fanoutCopy crypto groupId .attachmentReserve body draws with
      | (.error e, host) => (.error e, host)
      | (.ok out, host) => (.ok out, host.putFile reserve.fetchToken slot)

/-- `apply_signing_replace`. -/
def applySigningReplace (host : GroupHost) (groupId : GroupId) (cred : MemberCred) (body : Bytes) :
    GroupOutcome Unit :=
  match SigningKeyReplace.decode body with
  | .error e => (.error (.wire e), host)
  | .ok replace =>
    match host.memberKey crypto groupId cred.credentialId with
    | .error e => (.error e, host)
    | .ok pk =>
      match replace.verify crypto pk with
      | .error e => (.error (.wire e), host)
      | .ok () => (.ok (),
        (host.modifyCred groupId cred.credentialId
          fun record ↦ { record with signingPk := some replace.newPublicKey }).markCred groupId
            cred.credentialId)

/-- `append`. -/
def append (host : GroupHost) (groupId : GroupId) (cred : MemberCred) (type : MessageType)
    (body : Bytes) (draws : ℕ → Key × Key) : GroupOutcome StreamAppend :=
  match host.authorizeLive crypto groupId cred with
  | .error e => (.error e, host)
  | .ok () =>
    match type with
    | .removeBundle => host.appendRemove crypto groupId cred body draws
    | .signingKeyReplace =>
      match host.applySigningReplace crypto groupId cred body with
      | (.error e, host) => (.error e, host)
      | (.ok (), host) => host.fanoutCopy crypto groupId .signingKeyReplace body draws
    | .mlsHandshake | .mlsApp | .revocationStatement =>
      host.fanoutCopy crypto groupId type body draws
    | .attachmentReserve => host.appendReserve crypto groupId cred body draws
    | .doubleRatchet | .attachmentDr => (.error .denied, host)

/-- `upload_file`. -/
def uploadFile (host : GroupHost) (groupId : GroupId) (cred : MemberCred) (fetchToken : Key)
    (body : Bytes) : GroupOutcome Unit :=
  match host.authorizeLive crypto groupId cred with
  | .error e => (.error e, host)
  | .ok () =>
    match host.files.lookup fetchToken with
    | none => (.error .denied, host)
    | some slot =>
      if slot.groupId ≠ groupId ∨ slot.owner ≠ cred.credentialId ∨ host.now ≥ slot.expiresAt then
        (.error .denied, host)
      else if slot.bytes.isSome ∨ body.length ≠ slot.size then (.error .denied, host)
      else (.ok (), host.putFile fetchToken { slot with bytes := some body })

end GroupHost

end NemoMessenger.Server
