import NemoMessenger.Client.Session

/-!
# What the methods of a client share

Saving, the messages that go along with others, calls, and the upkeep of the groups.
-/

namespace NemoMessenger.Client

open NemoMessenger.Data NemoMessenger.Wire
open Program (act attempt ofExcept forEach fail)

/-- Change the part of the memory the shell shows, with an answer. -/
def withShell {α : Type} (f : Shell → α × Shell) : SessionM α := do
  let inner ← memory
  onShell fun shell ↦ (f shell).2
  pure (f inner.shell).1

/-! ## Saving -/

/-- One write of `persist`. -/
def putEntry (entry : Entry) : ClientM Unit := do
  ofExcept (← act (.put entry))

/-- `persist`. -/
def persist : ClientM Unit := do
  let inner ← memory
  if inner.vault then
    if inner.state.isSome then forEach putEntry inner.writes else fail (.text "busy")
  else pure ()

/-- A method whose last step is to save. -/
def saving {α : Type} (body : SessionM α) : ClientM α := do
  let a ← body
  persist
  pure a

section
variable (p : Outside)

/-! ## Messages that go along with others -/

/-- `app::encode`. -/
def encode (message : AppMessage) : SessionM Bytes := ofExcept (p.formats.encode message)

/-- `parse_identity_id`. -/
def identityOf (hex : String) : SessionM IdentityId := ofExcept (liftWire (parseIdentityId hex))

/-- `sign_capability_intro`. -/
def signCapabilityIntro (s : HomeSession) (recipient : IdentityId) (capability : Key) :
    CapabilityIntro :=
  let intro : CapabilityIntro :=
    { identityId := s.install.identityId p
      identityPublicKey := p.crypto.verifyingKey s.install.identity
      revocationPublicKey := s.install.revocationPublicKey
      destHpke := s.bundle.serverHpkePublicKey
      bindingSeq := s.install.bindingSeq
      sessionKey := p.libsignal.identityKey s.install.store
      recipient
      signature := .replicate 64 0 }
  { intro with
    signature := p.crypto.signContext s.install.identity .capabilityIntro
      (intro.signedPayload capability) }

/-- `send_own_contact_capability`. -/
def sendOwnContactCapability (peer : IdentityId) (now : UInt64) : SessionM Unit := do
  let capability ← sendHome .mintContact
  let s ← session
  let ptext ← encode p (.fresh 0 now
    (.capability capability (some (signCapabilityIntro p s peer capability))))
  sendTo p peer .default ptext now

/-- `ensure_intro_sent`. -/
def ensureIntroSent (peer : IdentityId) (now : UInt64) : SessionM Unit := do
  let inner ← memory
  if inner.shell.introSent.contains peer then pure ()
  else
    sendOwnContactCapability p peer now
    onShell fun shell ↦ { shell with introSent := peer :: shell.introSent }

/-- `send_own_binding_gossip`. -/
def sendOwnBindingGossip (peer : IdentityId) (now : UInt64) : SessionM Unit := do
  let s ← session
  let ptext ← encode p (.fresh 0 now
    (.bindingGossip (s.install.identityId p) s.install.bindingSeq s.bundle.serverId))
  sendTo p peer .default ptext now

/-- `send_cached_binding_gossip`. -/
def sendCachedBindingGossip (peer : IdentityId) (now : UInt64) : SessionM Unit := do
  let inner ← memory
  let s ← session
  let binding := (s.install.bindingSeq, s.bundle.serverId)
  if inner.shell.gossipSent.lookup peer = some binding then pure ()
  else
    sendOwnBindingGossip p peer now
    onShell fun shell ↦ { shell with gossipSent := shell.gossipSent.insert peer binding }

/-- `apply_binding_gossip`. -/
def applyBindingGossip (fromPeer : Key) (identity : IdentityId) (seq : UInt64)
    (server : ServerId) (convSeq sentAt : UInt64) : SessionM (Option DisplayRow) := do
  let s ← session
  let check (s : HomeSession) : Option BindingGossipCheck :=
    (s.contacts.lookup identity).map fun contact ↦
      classifyBindingGossip contact.pin.seq (p.crypto.serverId contact.destHpke) seq server
  let conflict : SessionM (Option DisplayRow) := do
    let row ← withShell fun shell ↦ shell.pushControl (toHex fromPeer.data) convSeq sentAt
      .bindingConflict (toHex identity.data) 0 false
    pure (some row)
  match check s with
  | none | some .matches_ => pure none
  | some .conflict => conflict
  | some .ahead =>
    let now ← nowUnix
    let _ ← (refreshContact p identity now).attempt
    let s ← session
    if check s = some .matches_ then pure none else conflict

/-! ## Calls -/

/-- The id a row about a call shows. -/
def callIdHex : AppBody → String
  | .callRinging callId | .callReject callId | .callCancel callId | .callEnd callId
  | .callIce callId _ => toHex callId.data
  | _ => ""

/-- `invite_ttl_bucket`. -/
def inviteTtlBucket : TtlBucket := ⟨1⟩

/-- `emit_call`. -/
def emitCall (peerHex : String) (body : AppBody) (kind : RowKind) (now : UInt64) (echo : Bool) :
    SessionM DisplayRow := do
  let seq ← withShell fun shell ↦ shell.bumpSeq peerHex
  let ptext ← encode p (.fresh seq now body)
  let peer ← identityOf peerHex
  sendToNow p peer inviteTtlBucket ptext now
  if echo then
    withShell fun shell ↦ shell.pushControl peerHex seq now kind (callIdHex body) 0 true
  else
    pure { Shell.blankRow peerHex seq now true with text := callIdHex body, kind }

/-- `send_call_body`. -/
def sendCallBody (peerHex : String) (body : AppBody) (kind : RowKind) (now : UInt64) :
    SessionM DisplayRow := do
  let _ ← session
  emitCall p peerHex body kind now true

/-! ## Groups -/

/-- `groups.iter_mut().find(..)`. -/
def liveGroupAt (groupId : Key) : SessionM (ℕ × LiveGroup) := do
  let inner ← memory
  match inner.groups.findIdx? fun g ↦ g.host.groupId = groupId with
  | none => fail (.text "unknown group")
  | some i =>
    match inner.groups[i]? with
    | none => fail (.text "unknown group")
    | some live => pure (i, live)

/-- `find_group_mut`. -/
def findGroupMut (groupIdHex : String) : SessionM (ℕ × LiveGroup) := do
  let id ← identityOf groupIdHex
  liveGroupAt id

/-- `flush_mls_update`. -/
def flushMlsUpdate (i : ℕ) (live : LiveGroup) : SessionM Unit := do
  let inner ← memory
  if (inner.groups[i]?).any (·.mls.pending.isSome) then pure ()
  else
    let ms ← nowMs
    match ← ofExcept (← onGroup i (.maybeSelfUpdate ms)) with
    | none => pure ()
    | some commit =>
      groupAppend p live.host .mlsHandshake commit
      let ms ← nowMs
      let _ ← ofExcept (← onGroup i (.applyHandshake commit ms))

/-- `refresh_group_members`. -/
def refreshGroupMembers (i : ℕ) : SessionM Unit := do
  let inner ← memory
  let now ← nowUnix
  refreshMlsIdentities p
    (((inner.groupAt i).map fun g ↦ g.memberIdentityIds p.crypto).getD []) now

/-- The identities of group members that are neither the client nor a contact. -/
def extraMembers (inner : Inner) (s : HomeSession) : List IdentityId :=
  ((List.range inner.groups.length).flatMap fun i ↦
    ((inner.groupAt i).map fun g ↦ g.memberIdentityIds p.crypto).getD []).filter fun id ↦
      id ≠ s.install.identityId p ∧ s.contacts.lookup id = none

/-- The first loop of `idle_maintenance`: the members newly found revoked. -/
def checkExtras (now : UInt64) : List IdentityId → SessionM (List IdentityId)
  | [] => pure []
  | id :: ids => do
    let inner ← memory
    if (inner.shell.groupDiscoveryAt.lookup id).any fun t ↦ !isStale t now then
      checkExtras now ids
    else
      let revoked ← identityIsRevoked p id now
      onShell fun shell ↦
        { shell with groupDiscoveryAt := shell.groupDiscoveryAt.insert id now }
      let newly ← checkExtras now ids
      pure (if revoked then id :: newly else newly)

/-- The body of the second loop of `idle_maintenance`: remove a revoked identity from a group. -/
def removeRevoked (id : IdentityId) (i : ℕ) : SessionM Unit := do
  let inner ← memory
  match inner.groups[i]?, inner.groupAt i with
  | some live, some g =>
    match g.credentialIdForIdentity p.crypto id with
    | none => pure ()
    | some cred =>
      if cred = g.credentialId then pure ()
      else
        match ← onGroup i (.remove live.host.groupId cred) with
        | .error _ => pure ()
        | .ok bundle =>
          let body ← ofExcept (liftWire bundle.encode)
          match ← (groupAppend p live.host .removeBundle body).attempt with
          | .ok () =>
            let ms ← nowMs
            let _ ← onGroup i (.applyRemoveBundle live.host.groupId bundle ms)
          | .error _ => onGroup i .discardPending
  | _, _ => pure ()

/-- The body of the last loop of `idle_maintenance`. -/
def tryFlush (i : ℕ) : SessionM Unit := do
  let inner ← memory
  match inner.groups[i]? with
  | none => pure ()
  | some live =>
    let _ ← (flushMlsUpdate p i live).attempt

/-- `idle_maintenance`. -/
def idleMaintenance : SessionM (List DisplayRow) := do
  let now ← nowUnix
  let s ← session
  let stale ← refreshIdleDiscovery p now (s.contacts.entries.map (·.1))
  let s ← session
  let revoked := (s.contacts.entries.filter fun e ↦ e.2.revoked).map (·.1)
  let inner ← memory
  let extras ← checkExtras p now (extraMembers p inner s)
  let positions := List.range inner.groups.length
  forEach (fun id ↦ forEach (removeRevoked p id) positions) (stale ++ revoked ++ extras).eraseDups
  let rows ← rowsFor now (stale ++ extras)
  forEach (tryFlush p) positions
  pure rows
where
  rowsFor (now : UInt64) : List IdentityId → SessionM (List DisplayRow)
    | [] => pure []
    | id :: ids => do
      let row ← withShell fun shell ↦
        shell.pushControl (toHex id.data) 0 now .revoked "" 0 false
      let rows ← rowsFor now ids
      pure (row :: rows)

/-! ## Reactions, deletions and timers -/

/-- `transmit_app`. -/
def transmitApp (convId : String) (body : AppBody) (now seq : UInt64) : SessionM Unit := do
  let ptext ← encode p (.fresh seq now body)
  let inner ← memory
  let ttl := Shell.ttlFor inner.shell.disappear convId
  let _ ← session
  let id ← identityOf convId
  if inner.groups.any fun g ↦ g.host.groupId = id then
    let (i, live) ← findGroupMut convId
    let ms ← nowMs
    let cipher ← ofExcept (← onGroup i (.encrypt ptext ms))
    groupAppend p live.host .mlsApp cipher
  else sendTo p id ttl ptext now

end

end NemoMessenger.Client
