import NemoMessenger.Client.Fetch

/-!
# The methods of a client

The exported methods of `NemoClient` that change its memory or answer from it, as programs. A call
that negotiates with the media stack gives the lock up in between; its two halves are methods here.
-/

namespace NemoMessenger.Client

open NemoMessenger.Data NemoMessenger.Wire
open Program (act attempt ofExcept forEach fail)

section
variable (p : Outside)

/-! ## Identity and settings -/

/-- `identity_id_hex`. -/
def identityIdHex : SessionM String := do
  let install ← ofExcept (← memory).install
  pure (toHex (install.identityId p).data)

/-- `fingerprint`. -/
def fingerprint : SessionM String := do
  let install ← ofExcept (← memory).install
  pure (p.formats.fingerprint (install.identityId p))

/-- `set_privacy_mode`. -/
def setPrivacyMode (mode : String) : ClientM Unit := saving do
  match p.formats.parsePrivacy mode with
  | none => fail (.text "privacy mode")
  | some mode => setPrivacy mode

/-- `privacy_mode`. -/
def privacyMode : SessionM PrivacyMode := do
  let s ← session
  pure s.privacy

/-- `take_revocation_mnemonic`. -/
def takeRevocationMnemonic : SessionM (Option String) := act .mnemonic

/-- `save`. -/
def save : ClientM Unit := do
  let inner ← memory
  if inner.vault then persist else fail .vaultDetached

/-! ## Registering -/

/-- `SYNC_PREKEY_STOCK`. -/
def syncPrekeyStock : ℕ := 5

/-- `HomeSession::register`, and what `register` adds to it. -/
def registerSession (base : String) (now : UInt64) : ClientM Unit := do
  let bundle ← send (trimSlashes base) .bundle
  let card ← mintCard p bundle now
  send (trimSlashes base) (.register card)
  act (.begin_ bundle base)
  restockPublishUpto syncPrekeyStock

/-- What goes out to the contacts after a move. -/
def announceMove (now : UInt64) : SessionM Unit := do
  let s ← session
  forEach (fun peer ↦ do
    let _ ← (sendOwnContactCapability p peer now).attempt
    let _ ← (sendCachedBindingGossip p peer now).attempt) (s.contacts.entries.map (·.1))

/-- `register`. A state that is not put back is lost. -/
def register (base : String) : ClientM Unit := do
  let inner ← memory
  let now ← nowUnix
  match inner.state with
  | none => fail (.text "busy")
  | some (.local_ _) =>
    act .take
    ofExcept (p.formats.checkBase base)
    match ← (registerSession p base now).attempt with
    | .ok () =>
      act .restore
      persist
    | .error e =>
      if inner.vault then
        let install ← act .loadInstallation
        act (.replace (some (.local_ install)))
      else act (.replace none)
      fail e
  | some (.registered s) =>
    act .take
    if s.homeBase ≠ "" ∧ trimSlashes s.homeBase = trimSlashes base then
      act .restore
      fail .alreadyRegistered
    else
      ofExcept (p.formats.checkBase base)
      match ← (rehome p base now).attempt with
      | .ok () =>
        act .relocate
        announceMove p now
        act .restore
        persist
      | .error e =>
        act .restore
        fail e

/-- The thread `spawn_restock` starts. -/
def restockThread : ClientM Unit := do
  let before ← session
  let done ← restockPublish.attempt
  let after ← session
  match done with
  | .ok () =>
    if before.install.nextPreKeyId = after.install.nextPreKeyId then pure ()
    else
      let _ ← persist.attempt
  | .error _ => pure ()

/-! ## Contacts -/

/-- `mint_share_uri`. -/
def mintShareUri : ClientM String := do
  let (card, capability) ← saving do
    let now ← nowUnix
    let card ← mintShareCard p now
    let capability ← sendHome .mintContact
    pure (card, capability)
  let uri ← ofExcept (p.formats.cardUri card)
  pure (uri ++ "#" ++ toHex capability.data)

/-- `add_contact`. -/
def addContact (cardOrUri nickname : String) : ClientM String := saving do
  let card ← ofExcept (p.formats.parseCard cardOrUri)
  let capability ← ofExcept (p.formats.parseDeliveryCap cardOrUri card)
  let peer := card.identityId p.crypto
  let now ← nowUnix
  addContactToSession p card capability now
  let _ ← (ensureIntroSent p peer now).attempt
  if nickname ≠ "" then
    onShell fun shell ↦
      { shell with nicknames := shell.nicknames.insert (toHex peer.data) nickname }
  pure (toHex peer.data)

/-- `list_contacts`. -/
def listContacts : SessionM (List (String × String)) := do
  let inner ← memory
  pure (inner.shell.nicknames.entries.map fun e ↦ (e.1, e.2))

/-- `set_nickname`. -/
def setNickname (identityHex nickname : String) : ClientM Unit := saving do
  let _ ← identityOf identityHex
  onShell fun shell ↦ { shell with
    nicknames := if nickname = "" then shell.nicknames.erase identityHex
      else shell.nicknames.insert identityHex nickname }

/-! ## One-to-one messages -/

/-- `if reply_to == 0 { None } else { Some(reply_to) }`. -/
def replyOpt (replyTo : UInt64) : Option UInt64 := if replyTo = 0 then none else some replyTo

/-- `inner.inbox.push(row.clone())`. -/
def pushOutgoing (row : DisplayRow) : SessionM Unit :=
  onShell fun shell ↦ { shell with inbox := shell.inbox ++ [row] }

/-- `send_text_with_reply`. -/
def sendTextWithReply (peerHex text : String) (replyTo : UInt64) : ClientM DisplayRow := saving do
  let peer ← identityOf peerHex
  let now ← nowUnix
  let seq ← withShell fun shell ↦ shell.bumpSeq peerHex
  let ptext ← encode p
    { header := { convSeq := seq, sentAt := now, replyTo := replyOpt replyTo }
      body := .text text }
  let inner ← memory
  sendTo p peer (Shell.ttlFor inner.shell.disappear peerHex) ptext now
  let _ ← (ensureIntroSent p peer now).attempt
  let _ ← (sendCachedBindingGossip p peer now).attempt
  let row := { Shell.blankRow peerHex seq now true with text, replyTo }
  pushOutgoing row
  pure row

/-- `send_file_with_reply`. -/
def sendFileWithReply (peerHex name mime : String) (bytes : Bytes) (replyTo : UInt64) :
    ClientM DisplayRow := saving do
  let peer ← identityOf peerHex
  let now ← nowUnix
  let seq ← withShell fun shell ↦ shell.bumpSeq peerHex
  let ptext ← encode p
    { header := { convSeq := seq, sentAt := now, replyTo := replyOpt replyTo }
      body := .attachment bytes { name, mime, size := UInt64.ofNat bytes.length } none }
  sendAttachment p peer .default ptext now
  let _ ← (ensureIntroSent p peer now).attempt
  let _ ← (sendCachedBindingGossip p peer now).attempt
  let row ← withShell fun shell ↦
    shell.pushFile peerHex seq now name mime bytes "" replyTo true
  pure row

/-! ## Groups -/

/-- `Installation::create_group`, for a random credential id. -/
def createMlsGroup : SessionM NewGroup := do
  let credentialId ← drawKey
  let groupSigning ← drawKey
  let ms ← nowMs
  onInstall (.createGroup credentialId groupSigning ms)

/-- `create_group`. -/
def createGroup (nickname : String) : ClientM String := saving do
  let _ ← session
  let g ← createMlsGroup
  let capability ← sendHome .mintContact
  let s ← session
  let (groupId, cred) ← sendHome
    (.createGroup (p.crypto.verifyingKey g.groupSigning) capability s.bundle.serverHpkePublicKey)
  act (.enroll { groupId, cred, hostBase := s.homeBase } g nickname)
  pure (toHex groupId.data)

/-- `INTRO_TTL_30_MIN`. -/
def introTtl30Min : UInt64 := 1800

/-- `Group::sign_invite`. -/
def signInvite (groupSigning hostGroupId nonce : Key) (bind : Option (Key × Key)) : GroupInvite :=
  let invite : GroupInvite :=
    { groupId := hostGroupId, nonce, ttlSecs := introTtl30Min
      inviteeBinding := bind.map (·.1), salt := bind.map (·.2), signature := .replicate 64 0 }
  { invite with
    signature := p.crypto.signContext groupSigning .groupInvite
      (Cbor.encode (.map invite.payloadMap)) }

/-- `invitee_binding`. -/
def inviteeBinding (identityPublicKey salt : Key) : Key :=
  p.crypto.sha256 (identityPublicKey.data ++ salt.data)

/-- `mint_invite`, and the two methods that call it. -/
def mintInvite (groupIdHex : String) (bindIdentity : Option IdentityId) : ClientM String :=
  saving do
  let s ← session
  let bindPk : Option Key ← match bindIdentity with
    | none => pure none
    | some id =>
      match s.contacts.lookup id with
      | none => fail .unknownContact
      | some contact => pure (some contact.pin.identityPublicKey)
  let (_, live) ← findGroupMut groupIdHex
  let nonce ← drawKey
  let salt ← drawKey
  let invite := signInvite p live.mls.groupSigning live.host.groupId nonce
    (bindPk.map fun pk ↦ (inviteeBinding p pk salt, salt))
  callGroup p live.host.groupId (.storeInvite live.host.groupId live.host.cred invite)
  if invite.inviteeBinding.isSome then act (.minted invite)
  pure (p.formats.inviteUri invite)

/-- `mint_group_invite`. -/
def mintGroupInvite (groupIdHex : String) : ClientM String := mintInvite p groupIdHex none

/-- `mint_bound_group_invite`. -/
def mintBoundGroupInvite (groupIdHex identityHex : String) : ClientM String := do
  let id ← identityOf identityHex
  mintInvite p groupIdHex (some id)

/-- `accept_group_invite`. -/
def acceptGroupInvite (inviteUri : String) : ClientM String := saving do
  let invite ← ofExcept (p.formats.parseGroupInvite inviteUri)
  let accepted ← sendHome (.acceptInvite invite.groupId invite.nonce)
  let groupSigning ← drawKey
  let join ← ofExcept (← onInstall (.prepareJoin accepted.cred.credentialId groupSigning))
  let capability ← sendHome .mintContact
  let s ← session
  let proof := if invite.inviteeBinding.isSome then
      some (InviteeProof.sign p.crypto s.install.identity invite.groupId accepted.pendingId)
    else none
  act (.pending fun pending ↦ pending.insert invite.groupId { pending := join, host := accepted })
  pure (p.formats.joinRequestUri
    { groupId := invite.groupId
      pendingId := accepted.pendingId
      keyPackage := join.keyPackage
      signingPk := p.crypto.verifyingKey join.groupSigning
      cap := capability
      hpke := s.bundle.serverHpkePublicKey
      credentialId := accepted.cred.credentialId
      nonce := invite.nonce
      proof
      inviteeBinding := accepted.inviteeBinding })

/-- The checks of `admit_join` on a bound invite. -/
def verifyBoundInvite (req : JoinRequest) (looked : PendingLookup) (inviteePk : Key) :
    Except CoreError Unit :=
  match looked.inviteeBinding with
  | none => .ok ()
  | some want =>
    match req.proof, looked.salt with
    | some proof, some salt =>
      if proof.pendingId ≠ req.pendingId then .error .boundInvite
      else if inviteeBinding p inviteePk salt ≠ want then .error .boundInvite
      else if !p.crypto.isVerifyingKey inviteePk then .error (.text "invitee key")
      else liftWire (proof.verify p.crypto inviteePk)
    | _, _ => .error .boundInvite

/-- `Group::key_package_identity_pk`. -/
def keyPackageIdentityPk (keyPackage : Bytes) : Except CoreError Key :=
  match p.openMls.readKeyPackage keyPackage with
  | .error message => .error (.mls message)
  | .ok (leaf, suite) =>
    if !suite then .error .wrongCiphersuite
    else match copyFixed 32 leaf.identity with
      | .ok pk => .ok pk
      | .error _ => .error (.mls "identity must be 32 bytes")

/-- The part of `admit_join` that adds the joiner. -/
def admitMember (req : JoinRequest) (looked : PendingLookup) : SessionM Unit := do
  let (i, live) ← liveGroupAt req.groupId
  flushMlsUpdate p i live
  let (_, live) ← liveGroupAt req.groupId
  let admission : GroupAdmit :=
    { groupId := req.groupId, pendingId := req.pendingId
      signature := p.crypto.signContext live.mls.groupSigning .groupAdmit
        (GroupAdmit.payload req.groupId req.pendingId) }
  let (commit, welcome) ← ofExcept
    (← onGroup i (.admitMember req.keyPackage looked.credentialId))
  let _ ← callGroup p req.groupId (.admitPending req.groupId live.host.cred admission
    req.signingPk req.cap req.hpke)
  groupAppend p live.host .mlsHandshake commit
  let ms ← nowMs
  let _ ← ofExcept (← onGroup i (.applyHandshake commit ms))
  let outer ← wrap p req.hpke req.cap .default .mlsHandshake welcome
  let _ ← postEnvelopeMaybeBatch outer true

/-- The part of `admit_join` that tells the joiner the name of the group. -/
def sendGroupName (groupId : Key) (invitee : IdentityId) : SessionM Unit := do
  let inner ← memory
  let name := ((inner.groups.find? fun g ↦ g.host.groupId = groupId).map (·.nickname)).getD ""
  if name = "" then pure ()
  else
    let conv := toHex invitee.data
    let seq ← withShell fun shell ↦ shell.bumpSeq conv
    let now ← nowUnix
    match p.formats.encode (.fresh seq now (.groupName groupId name)) with
    | .error _ => pure ()
    | .ok ptext =>
      let now ← nowUnix
      let _ ← (sendTo p invitee (Shell.ttlFor inner.shell.disappear conv) ptext now).attempt

/-- `admit_join`. -/
def admitJoin (joinRequestUri : String) : ClientM String := saving do
  let req ← ofExcept (p.formats.parseJoinRequest joinRequestUri)
  let _ ← session
  let inviteePk ← ofExcept (keyPackageIdentityPk p req.keyPackage)
  let invitee := p.crypto.identityId inviteePk
  let now ← nowUnix
  checkDiscoveryNotRevoked p invitee now
  let (_, live) ← liveGroupAt req.groupId
  let looked ← callGroup p req.groupId (.lookupPending req.groupId live.host.cred req.pendingId)
  if looked.credentialId ≠ req.credentialId then fail .credentialIdMismatch
  else
    ofExcept (verifyBoundInvite p req looked inviteePk)
    admitMember p req looked
    sendGroupName p req.groupId invitee
    pure (toHex req.credentialId.data)

/-- `send_group_text_with_reply`. -/
def sendGroupTextWithReply (groupIdHex text : String) (replyTo : UInt64) :
    ClientM DisplayRow := saving do
  let now ← nowUnix
  let seq ← withShell fun shell ↦ shell.bumpSeq groupIdHex
  let ptext ← encode p
    { header := { convSeq := seq, sentAt := now, replyTo := replyOpt replyTo }
      body := .text text }
  let _ ← session
  let (i, live) ← findGroupMut groupIdHex
  refreshGroupMembers p i
  flushMlsUpdate p i live
  let ms ← nowMs
  let body ← ofExcept (← onGroup i (.encrypt ptext ms))
  groupAppend p live.host .mlsApp body
  let row := { Shell.blankRow groupIdHex seq now true with text, replyTo }
  pushOutgoing row
  pure row

/-- `remove_group_member`. -/
def removeGroupMember (groupIdHex credentialIdHex : String) : ClientM Unit := saving do
  let cred ← identityOf credentialIdHex
  let _ ← session
  let (i, live) ← findGroupMut groupIdHex
  let bundle ← ofExcept (← onGroup i (.remove live.host.groupId cred))
  let body ← ofExcept (liftWire bundle.encode)
  groupAppend p live.host .removeBundle body
  let ms ← nowMs
  let _ ← ofExcept (← onGroup i (.applyRemoveBundle live.host.groupId bundle ms))

/-- `send_group_file_with_reply`. -/
def sendGroupFileWithReply (groupIdHex name mime : String) (bytes : Bytes) (replyTo : UInt64) :
    ClientM DisplayRow := saving do
  let now ← nowUnix
  let token ← drawKey
  let fileSeed ← act .draw
  let (key, bucket, blob) ← ofExcept (p.formats.sealGroupFile bytes fileSeed)
  let seq ← withShell fun shell ↦ shell.bumpSeq groupIdHex
  let _ ← session
  let (i, live) ← findGroupMut groupIdHex
  refreshGroupMembers p i
  flushMlsUpdate p i live
  let reserve : AttachmentReserve :=
    { fetchToken := token, sizeBucket := bucket, ttlBucket := .default }
  groupAppend p live.host .attachmentReserve reserve.encode
  callGroup p live.host.groupId (.uploadFile live.host.groupId live.host.cred token blob)
  let ptext ← encode p
    { header := { convSeq := seq, sentAt := now, replyTo := replyOpt replyTo }
      body := .attachment key { name, mime, size := UInt64.ofNat bytes.length } (some token) }
  let ms ← nowMs
  let body ← ofExcept (← onGroup i (.encrypt ptext ms))
  groupAppend p live.host .mlsApp body
  let row := { Shell.blankRow groupIdHex seq now true with
    text := name, fileName := name, fileMime := mime, fileBytes := bytes,
    fetchToken := toHex token.data, kind := .file, replyTo }
  pushOutgoing row
  pure row

/-- `fetch_group_file`. -/
def fetchGroupFile (groupIdHex tokenHex : String) : SessionM Bytes := do
  let groupId ← identityOf groupIdHex
  let token ← identityOf tokenHex
  let _ ← session
  let (_, live) ← liveGroupAt groupId
  callGroup p groupId (.fetchFile groupId live.host.cred token)

/-- `list_groups`. -/
def listGroups : SessionM (List (String × String × ℕ)) := do
  let inner ← memory
  pure ((List.range inner.groups.length).filterMap fun i ↦ do
    let live ← inner.groups[i]?
    let g ← inner.groupAt i
    some (toHex live.host.groupId.data, live.nickname, g.mls.leaves.length))

/-- `group_member_ids`, without the sorting. -/
def groupMemberIds (groupIdHex : String) : SessionM (List String) := do
  let (i, _) ← findGroupMut groupIdHex
  let inner ← memory
  pure ((((inner.groupAt i).map fun g ↦ credentialIds g.mls.leaves).getD []).map fun entry ↦
    toHex entry.2.data)

/-! ## Rows -/

/-- `react`. -/
def react (convId : String) (target : UInt64) (emoji : String) : ClientM DisplayRow := saving do
  let now ← nowUnix
  let toggledOff ← withShell fun shell ↦ shell.takeMatchingReaction convId target emoji true ""
  let seq ← withShell fun shell ↦ shell.bumpSeq convId
  transmitApp p convId (.reaction target emoji) now seq
  if toggledOff then pure (Shell.reactionRemovedMarker convId target emoji now true)
  else
    let row := { Shell.blankRow convId seq now true with kind := .reaction, emoji, target }
    pushOutgoing row
    pure row

/-- `delete_message`. The removal stands when the broadcast fails. -/
def deleteMessage (convId : String) (target : UInt64) : ClientM DisplayRow := do
  let now ← nowUnix
  let answer ← saving do
    onShell fun shell ↦ { shell with inbox := Shell.removeTarget shell.inbox convId target }
    let seq ← withShell fun shell ↦ shell.bumpSeq convId
    (transmitApp p convId (.delete target) now seq).attempt
  ofExcept answer
  pure (Shell.removedMarker convId target now true)

/-- `delete_message_for_me`. -/
def deleteMessageForMe (convId : String) (target : UInt64) : ClientM DisplayRow := saving do
  let now ← nowUnix
  onShell fun shell ↦ { shell with inbox := Shell.removeTarget shell.inbox convId target }
  pure (Shell.removedMarker convId target now true)

/-- `set_disappear`. -/
def setDisappear (convId : String) (seconds : UInt64) : ClientM DisplayRow := saving do
  onShell fun shell ↦ { shell with disappear := shell.disappear.insert convId seconds }
  let now ← nowUnix
  let seq ← withShell fun shell ↦ shell.bumpSeq convId
  transmitApp p convId (.disappear seconds) now seq
  withShell fun shell ↦ shell.pushControl convId seq now .disappear (toString seconds) 0 true

/-- `disappear_secs`. -/
def disappearSecs (convId : String) : SessionM UInt64 := do
  let inner ← memory
  pure ((inner.shell.disappear.lookup convId).getD 0)

/-- `expire_now`. -/
def expireNow : ClientM (List DisplayRow) := saving do
  let now ← nowUnix
  let expired ← withShell fun shell ↦
    ((shell.inbox.filter (Shell.elapsed shell.disappear now)).map Shell.expireRow,
      { shell with
        inbox := Shell.expireInbox shell.disappear now shell.inbox
        pendingInvites := FiniteMap.retain (fun _ invite ↦ invite.expiresAt > now)
          shell.pendingInvites })
  let inner ← memory
  let extra ← match inner.state with
    | some (.registered _) => idleMaintenance p
    | _ => pure []
  pure (expired ++ extra)

/-- `inbox`. -/
def inboxRows : SessionM (List DisplayRow) := do
  let inner ← memory
  pure inner.shell.inbox

/-! ## Receipts -/

/-- `acked_upto`. -/
def ackedUpto (convId : String) : SessionM UInt64 := do
  let inner ← memory
  pure ((inner.shell.acked.lookup convId).getD 0)

/-- `read_upto`. -/
def readUpto (convId : String) : SessionM UInt64 := do
  let inner ← memory
  pure ((inner.shell.read.lookup convId).getD 0)

/-- `group_view`: the other members, and what those who read have read. -/
def groupView (groupIdHex : String) : SessionM (ℕ × List (String × UInt64)) := do
  let (i, _) ← findGroupMut groupIdHex
  let inner ← memory
  let install ← ofExcept inner.install
  let members := ((((inner.groupAt i).map fun g ↦ g.memberIdentityIds p.crypto).getD []).filter
    (· ≠ install.identityId p)).map fun id ↦ toHex id.data
  let marks := (inner.shell.groupRead.lookup groupIdHex).getD ∅
  pure (members.length, members.filterMap fun id ↦
    ((marks.lookup id).filter (· ≠ 0)).map fun upto ↦ (id, upto))

/-- The group branch of `mark_read`. -/
def markGroupRead (groupIdHex : String) (upto now : UInt64) : ClientM Unit := do
  let inner ← memory
  let upto := min upto (inner.shell.seqOf groupIdHex)
  if upto = 0 then pure ()
  else
    let _ ← session
    let (i, live) ← findGroupMut groupIdHex
    let inner ← memory
    if ((inner.groupAt i).map fun g ↦ g.mls.leaves.length).getD 0 ≤ 1 then pure ()
    else
      refreshGroupMembers p i
      flushMlsUpdate p i live
      let ptext ← encode p (.fresh 0 now (.read upto))
      let ms ← nowMs
      let body ← ofExcept (← onGroup i (.encrypt ptext ms))
      groupAppend p live.host .mlsApp body
      persist

/-- The one-to-one branch of `mark_read`. It ends without a save. -/
def markPeerRead (peer : IdentityId) (upto now : UInt64) : SessionM Unit := do
  let s ← session
  match s.contacts.lookup peer with
  | none => fail .unknownContact
  | some contact =>
    if contact.revoked then fail .revoked
    else
      let ptext ← encode p (.fresh 0 now (.read upto))
      let outer ← encryptToMailbox p .doubleRatchet peer contact.destHpke
        contact.deliveryCapability .default ptext
      let _ ← postEnvelopeMaybeBatch outer true

/-- `mark_read`. -/
def markRead (convId : String) (upto : UInt64) : ClientM Unit := do
  let peer ← identityOf convId
  let now ← nowUnix
  let inner ← memory
  if inner.groups.any fun g ↦ g.host.groupId = peer then markGroupRead p convId upto now
  else markPeerRead p peer upto now

/-! ## Calls -/

/-- The first half of `start_call`. -/
def checkCall : SessionM Unit := do
  let inner ← memory
  if inner.shell.liveCall.isSome then fail (.text "call already live")
  else match inner.state with
    | some (.registered s) =>
      if s.privacy = .maximum then fail .callsUnavailable
      else
        let _ ← (sendHome .issueTurn).attempt
    | _ => pure ()

/-- The second half of `start_call`, with the offer of the media stack. -/
def startCall (peerHex : String) (offer : LocalSignal) : SessionM DisplayRow := do
  let now ← nowUnix
  let seq ← withShell fun shell ↦ shell.bumpSeq peerHex
  let ptext ← encode p (.fresh seq now (.callInvite offer (now + 60)))
  let peer ← identityOf peerHex
  let _ ← session
  sendToNow p peer inviteTtlBucket ptext now
  onShell fun shell ↦
    { shell with
      liveCall := some ⟨offer.callId, []⟩, callPeer := some peerHex, callConnected := false }
  withShell fun shell ↦
    shell.pushControl peerHex seq now .callInvite (toHex offer.callId.data) 0 true

/-- The first half of `answer_call`. -/
def takeInvite (callIdHex : String) : SessionM PendingInvite := do
  let invite ← withShell fun shell ↦
    (shell.pendingInvites.lookup callIdHex,
      { shell with pendingInvites := shell.pendingInvites.erase callIdHex })
  match invite with
  | none => fail (.text "unknown call")
  | some invite =>
    let inner ← memory
    match inner.state with
    | some (.registered s) =>
      let _ ← (sendHome .issueTurn).attempt
      if s.privacy = .maximum then fail .callsUnavailable else pure invite
    | _ => pure invite

/-- The second half of `answer_call`, with the answer of the media stack. -/
def answerCall (invite : PendingInvite) (answer : LocalSignal) : SessionM DisplayRow := do
  let now ← nowUnix
  let seq ← withShell fun shell ↦ shell.bumpSeq invite.peer
  let ptext ← encode p (.fresh seq now (.callAnswer answer))
  let peer ← identityOf invite.peer
  let _ ← session
  sendToNow p peer inviteTtlBucket ptext now
  onShell fun shell ↦
    { shell with
      liveCall := some (.answering invite.signal answer.callId), callPeer := some invite.peer,
      callConnected := true }
  withShell fun shell ↦
    shell.pushControl invite.peer seq now .callAnswer (toHex answer.callId.data) 0 true

/-- A pending invite is rejected. -/
def rejectInvite (callIdHex : String) (missing : CoreError) : SessionM DisplayRow := do
  let invite ← withShell fun shell ↦
    (shell.pendingInvites.lookup callIdHex,
      { shell with pendingInvites := shell.pendingInvites.erase callIdHex })
  match invite with
  | none => fail missing
  | some invite =>
    let now ← nowUnix
    sendCallBody p invite.peer (.callReject invite.signal.callId) .callReject now

/-- `reject_call`. -/
def rejectCall (callIdHex : String) : SessionM DisplayRow :=
  rejectInvite p callIdHex (.text "unknown call")

/-- `end_call`. -/
def endCall : SessionM DisplayRow := do
  let inner ← memory
  let now ← nowUnix
  match inner.shell.liveCall with
  | some live =>
    onShell Shell.hangupLive
    match inner.shell.callPeer with
    | none => fail (.text "no live call")
    | some peerHex =>
      if peerHex = "" then fail (.text "no live call")
      else if inner.shell.callConnected then
        sendCallBody p peerHex (.callEnd live.callId) .callEnd now
      else sendCallBody p peerHex (.callCancel live.callId) .callCancel now
  | none =>
    match inner.shell.pendingInvites.entries.head? with
    | none => fail (.text "no live call")
    | some entry => rejectInvite p entry.1 (.text "no live call")

/-- A turn of `pump_trickle` that has candidates to send. -/
def trickle (peerHex : String) (callId : FixedBytes 16) (ice : List String) : SessionM Unit := do
  let inner ← memory
  let now ← nowUnix
  if inner.shell.liveCall.any (·.callId = callId) then
    let _ ← session
    let _ ← (emitCall p peerHex (.callIce callId ice) .callIce now false).attempt
  else pure ()

/-- `call_state`. -/
def callState : SessionM String := do
  let inner ← memory
  if inner.shell.liveCall.isSome then
    pure (if inner.shell.callConnected then "live" else "calling")
  else if inner.shell.pendingInvites.entries = [] then pure "idle"
  else pure "ringing"

end

end NemoMessenger.Client
