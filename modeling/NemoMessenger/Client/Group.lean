import NemoMessenger.Client.State
import NemoMessenger.Wire.GroupObject

/-!
# The MLS application profile

What a member does with its MLS group: stage a commit of its own, merge it or the commit of another
member, check the leaves a commit brings, and seal and open application messages. OpenMLS is a
parameter. Its functions read the group; which parts of the group they change shows in their types,
and in what is asked of a merge.
-/

namespace NemoMessenger.Client

open NemoMessenger.Data NemoMessenger.Wire

/-! ## OpenMLS -/

/-- `ProcessedMessageContent`. -/
inductive Processed
  | ownPendingCommit
  | ownPrivateMessage
  | stagedCommit (commit : StagedCommit)
  | externalJoinProposal
  | proposal (reinit : Bool)
  | application (plaintext : Bytes)

/-- The errors of `process_message` the client tells apart. -/
inductive ProcessError
  | wrongEpoch
  | other (message : String)

/-- The group once it is in the epoch a commit has prepared. Nothing is pending in it. -/
def MlsGroup.merged (g : MlsGroup) (commit : StagedCommit) : MlsGroup :=
  { g with epoch := g.epoch + 1, leaves := commit.leaves, secrets := commit.secrets,
           pendingCommit := none }

theorem MlsGroup.eq_elim_of_ok {g g' : MlsGroup}
    (h : (.ok (g.pendingCommit.elim g g.merged) : Except String MlsGroup) = .ok g') :
    g' = g.pendingCommit.elim g g.merged := (Except.ok.inj h).symm

theorem MlsGroup.eq_merged_of_ok {g g' : MlsGroup} {commit : StagedCommit}
    (h : (.ok (g.merged commit) : Except String MlsGroup) = .ok g') : g' = g.merged commit :=
  (Except.ok.inj h).symm

/-- The functions taken from OpenMLS, with the randomness they would draw as their last argument,
and what is asked of a merge that succeeds. A signer is the secret key of the member. -/
structure OpenMls where
  /-- The epoch of a protocol message, when the bytes hold one. -/
  messageEpoch : Bytes → Option ℕ
  isWelcome : Bytes → Bool
  /-- The sender, when it is a member, and the content of a message; and the secrets afterwards. -/
  process : MlsGroup → Bytes → Except ProcessError (Option ℕ × Processed) × Bytes
  createMessage : MlsGroup → Key → Bytes → Bytes → Except String (Bytes × Bytes)
  selfUpdate : MlsGroup → Key → Leaf → Bytes → Except String (Bytes × StagedCommit)
  addMember : MlsGroup → Key → Leaf → Bytes → Except String (Bytes × Bytes × StagedCommit)
  removeMember : MlsGroup → Key → ℕ → Bytes → Except String (Bytes × StagedCommit)
  /-- The leaf of a valid key package, and whether the suite is the one in use. -/
  readKeyPackage : Bytes → Except String (Leaf × Bool)
  /-- A group of one, and its random id. -/
  newGroup : Leaf → Bytes → Bytes × MlsTree
  /-- A key package for a leaf, and what the storage keeps of it. -/
  buildKeyPackage : Leaf → Key → Bytes → Except String (Bytes × Bytes)
  welcomeMatches : Bytes → Bytes → Bool
  /-- The group a Welcome lets in to, on the storage, for a key package, and whether the suite is the
  one in use. -/
  join : MlsStorage → Bytes → Bytes → Except String (Bytes × Bool × MlsTree)
  /-- `merge_pending_commit`, which is `Ok` also when nothing is pending. -/
  mergePending : MlsGroup → Except String MlsGroup
  /-- `merge_staged_commit`. -/
  mergeStaged : MlsGroup → StagedCommit → Except String MlsGroup
  mergePending_ok : ∀ {g g' : MlsGroup}, mergePending g = .ok g' →
    g' = g.pendingCommit.elim g g.merged
  mergeStaged_ok : ∀ {g g' : MlsGroup} {commit : StagedCommit}, mergeStaged g commit = .ok g' →
    g' = g.merged commit

/-! ## Leaves -/

/-- `check_new_leaf`. -/
def checkNewLeaf (leaf : Leaf) : Except CoreError Key :=
  match leaf.credentialIdExt.map (copyFixed 32), leaf.groupSigningExt with
  | some (.ok cid), some gsk =>
    if gsk ≠ leaf.signatureKey then .error .leafExtensionViolation
    else if leaf.identity.length ≠ 32 then .error (.mls "identity must be 32 bytes")
    else .ok cid
  | _, _ => .error .leafExtensionViolation

/-- The `0xF001` of the leaf with a signature key; `sync_credential_ids` collects the leaves into a
map by that key. -/
def credentialIdBySig (leaves : List Leaf) (signatureKey : Bytes) : Option Key :=
  (leaves.reverse.find? fun leaf ↦ leaf.signatureKey = signatureKey ∧
    (leaf.credentialIdExt.bind fun ext ↦ (copyFixed 32 ext).toOption).isSome).bind fun leaf ↦
      leaf.credentialIdExt.bind fun ext ↦ (copyFixed 32 ext).toOption

/-- `credential_ids`, in the order of the members. -/
def credentialIds (leaves : List Leaf) : List (ℕ × Key) :=
  leaves.filterMap fun leaf ↦ (credentialIdBySig leaves leaf.signatureKey).map (leaf.index, ·)

/-- The identity ids of the members. -/
def identityIdOf (crypto : Crypto) (leaf : Leaf) : Option IdentityId :=
  ((copyFixed 32 leaf.identity).toOption).map crypto.identityId

/-! ## Groups -/

/-- `Group`. -/
structure Group extends GroupRecord where
  mls : MlsGroup

/-- `HandshakeOutcome`. -/
inductive HandshakeOutcome
  | applied
  | ownCommitMerged
  | ownCommitSuperseded
  deriving DecidableEq, Repr

/-- The answer of an operation on a group, and the group afterwards. -/
abbrev GroupResult (α : Type) := Except CoreError α × Group

namespace Group

variable (crypto : Crypto) (openMls : OpenMls)

/-- `member_identity_ids`, without the sorting. -/
def memberIdentityIds (g : Group) : List IdentityId :=
  (g.mls.leaves.filterMap (identityIdOf crypto)).dedup

/-- `credential_id_for_identity`. -/
def credentialIdForIdentity (g : Group) (identity : IdentityId) : Option Key :=
  (g.mls.leaves.find? fun leaf ↦ identityIdOf crypto leaf = some identity).bind fun leaf ↦
    (credentialIds g.mls.leaves).lookup leaf.index

/-- `sync_credential_ids`: announcements for keys that left the tree are stale. -/
def syncCredentialIds (g : Group) : Group :=
  let live (old : Bytes) : Bool := g.mls.leaves.any fun leaf ↦ leaf.signatureKey == old
  { g with announcedKeys := FiniteMap.retain (fun old _ ↦ live old) g.announcedKeys }

/-- `discard_pending`. -/
def discardPending (g : Group) : Group :=
  { g with pending := none, mls := { g.mls with pendingCommit := none } }

/-- `ensure_no_pending`. -/
def ensureNoPending (g : Group) : Except CoreError Unit :=
  if g.pending.isSome then .error .pendingCommit else .ok ()

/-- `process`. -/
def process (g : Group) (message : Bytes) : GroupResult (Option ℕ × Processed) :=
  let (answer, secrets) := openMls.process g.mls message
  let g := { g with mls := { g.mls with secrets } }
  match answer with
  | .ok processed => (.ok processed, g)
  | .error .wrongEpoch => (.error .mlsWrongEpoch, g)
  | .error (.other message) => (.error (.mls message), g)

/-- `finish_own_commit`. -/
def finishOwnCommit (g : Group) (now : ℕ) : GroupResult HandshakeOutcome :=
  match openMls.mergePending g.mls with
  | .error message => (.error (.mls message), g)
  | .ok mls =>
    let signing := (g.pending.bind (·.newSigner)).getD g.groupSigning
    (.ok .ownCommitMerged, syncCredentialIds
      { g with mls, groupSigning := signing, pending := none, lastOwnUpdate := now })

/-- `merge_foreign`. -/
def mergeForeign (g : Group) (commit : StagedCommit) : GroupResult HandshakeOutcome :=
  match openMls.mergeStaged g.mls commit with
  | .error message => (.error (.mls message), g)
  | .ok mls =>
    (.ok (if g.pending.isSome then .ownCommitSuperseded else .applied),
      syncCredentialIds { g with mls, pending := none })

/-- `check_leaf_update`. -/
def checkLeafUpdate (g : Group) (index : ℕ) (leaf : Leaf) : Except CoreError Unit := do
  let cid ← checkNewLeaf leaf
  if ((credentialIds g.mls.leaves).lookup index).any (· ≠ cid) then .error .leafExtensionViolation
  else match g.mls.leaves.find? fun member ↦ member.index = index with
    | none => .error .leafExtensionViolation
    | some member =>
      if member.signatureKey = leaf.signatureKey then .ok ()
      else match copyFixed 32 leaf.signatureKey with
        | .error _ => .error .leafExtensionViolation
        | .ok new =>
          if g.announcedKeys.lookup member.signatureKey = some new then .ok ()
          else .error .unannouncedSignerChange

/-- The part of `validate_commit` on an added key package. -/
def checkAdd (g : Group) (leaf : Leaf) : Except CoreError Unit := do
  let cid ← checkNewLeaf leaf
  if (credentialIds g.mls.leaves).any fun entry ↦ entry.2 = cid then .error .leafExtensionViolation
  else .ok ()

/-- `validate_commit`. -/
def validateCommit (g : Group) (commit : StagedCommit) (sender : Option ℕ) :
    Except CoreError Unit := do
  commit.updates.forM fun update ↦ g.checkLeafUpdate update.1 update.2
  match commit.pathLeaf, sender with
    | some leaf, some index => g.checkLeafUpdate index leaf
    | some _, none => .error .externalMlsJoin
    | none, _ => .ok ()
  commit.adds.forM g.checkAdd

/-- `staged_remove_matches`. -/
def stagedRemoveMatches (g : Group) (commit : StagedCommit) (credentialId : Key) : Bool :=
  commit.removes.all (fun index ↦
    (credentialIds g.mls.leaves).lookup index == some credentialId) && commit.removes.length == 1

/-- `group_signing_at`. -/
def groupSigningAt (g : Group) (index : ℕ) : Option Key := do
  let member ← g.mls.leaves.find? fun member ↦ member.index = index
  let key ← (copyFixed 32 member.signatureKey).toOption
  if crypto.isVerifyingKey key then some key else none

/-- `apply_handshake`. -/
def applyHandshake (g : Group) (message : Bytes) (now : ℕ) : GroupResult HandshakeOutcome :=
  match g.process openMls message with
  | (.error e, g) => (.error e, g)
  | (.ok (sender, content), g) =>
    match content with
    | .ownPendingCommit => g.finishOwnCommit openMls now
    | .ownPrivateMessage =>
      if g.pending.isSome then g.finishOwnCommit openMls now
      else (.error (.mls "own private message in handshake path"), g)
    | .stagedCommit commit =>
      if commit.external then (.error .externalMlsJoin, g)
      else if commit.removes.length > 0 then (.error .unframedRemove, g)
      else match g.validateCommit commit sender with
        | .error e => (.error e, g)
        | .ok () => g.mergeForeign openMls commit
    | .externalJoinProposal => (.error .externalMlsJoin, g)
    | .proposal reinit =>
      (.error (if reinit then .mlsReinit else .mls "standalone proposal is not used in v1"), g)
    | .application _ => (.error (.mls "handshake path got an application message"), g)

/-- `apply_remove_bundle`. -/
def applyRemoveBundle (g : Group) (hostGroupId : Key) (bundle : RemoveBundle) (now : ℕ) :
    GroupResult HandshakeOutcome :=
  match g.process openMls bundle.mlsCommit with
  | (.error e, g) => (.error e, g)
  | (.ok (sender, content), g) =>
    match content, g.pending.isSome with
    | .ownPendingCommit, true => g.finishOwnCommit openMls now
    | .ownPrivateMessage, true => g.finishOwnCommit openMls now
    | content, _ =>
      match sender with
      | none => (.error .externalMlsJoin, g)
      | some index =>
        match g.groupSigningAt crypto index with
        | none => (.error .badRemoveBundle, g)
        | some senderKey =>
          match bundle.verifySidecar crypto senderKey hostGroupId with
          | .error e => (.error (.wire e), g)
          | .ok () =>
            match content with
            | .stagedCommit commit =>
              if commit.external then (.error .externalMlsJoin, g)
              else if commit.removes.length ≠ 1 then (.error .badRemoveBundle, g)
              else if !g.stagedRemoveMatches commit bundle.credentialId then
                (.error .badRemoveBundle, g)
              else match g.validateCommit commit sender with
                | .error e => (.error e, g)
                | .ok () => g.mergeForeign openMls commit
            | _ => (.error (.mls "RemoveBundle body is not a Commit"), g)

/-- `apply_signing_key_replace`. -/
def applySigningKeyReplace (g : Group) (body : Bytes) : GroupResult Unit :=
  match SigningKeyReplace.decode body with
  | .error e => (.error (.wire e), g)
  | .ok replace =>
    let signer := g.mls.leaves.find? fun leaf ↦
      match copyFixed 32 leaf.signatureKey with
      | .error _ => false
      | .ok key => crypto.isVerifyingKey key && (replace.verify crypto key).toOption.isSome
    match signer with
    | some leaf =>
      let announcedKeys := g.announcedKeys.insert leaf.signatureKey replace.newPublicKey
      (.ok (), { g with announcedKeys })
    | none => (.error .unannouncedSignerChange, g)

/-! ## Commits of one's own -/

/-- The leaf `leaf_extensions` describes, for an identity. -/
def newLeaf (index : ℕ) (identityPublicKey credentialId signing : Key) : Leaf where
  index
  identity := identityPublicKey.data
  signatureKey := (crypto.verifyingKey signing).data
  credentialIdExt := some credentialId.data
  groupSigningExt := some (crypto.verifyingKey signing).data

/-- The own leaf, on another signing key. -/
def ownLeaf (g : Group) (signing : Key) : Except CoreError Leaf :=
  match g.mls.leaves.find? fun leaf ↦ leaf.index = g.mls.ownIndex with
  | none => .error (.mls "own leaf missing")
  | some own =>
    match copyFixed 32 own.identity with
    | .error _ => .error (.mls "identity must be 32 bytes")
    | .ok identity => .ok (newLeaf crypto g.mls.ownIndex identity g.credentialId signing)

/-- The commit is staged; it is merged when the host echoes it. -/
def stage (g : Group) (commit : StagedCommit) (pending : PendingOwn) : Group :=
  { g with pending := some pending, mls := { g.mls with pendingCommit := some commit } }

/-- `self_update`. -/
def selfUpdate (g : Group) (now : ℕ) (seed : Bytes) : GroupResult Bytes :=
  match g.ensureNoPending, g.ownLeaf crypto g.groupSigning with
  | .error e, _ => (.error e, g)
  | _, .error e => (.error e, g)
  | .ok (), .ok leaf =>
    match openMls.selfUpdate g.mls g.groupSigning leaf seed with
    | .error message => (.error (.mls message), g)
    | .ok (commit, staged) =>
      (.ok commit, { g.stage staged ⟨.update, none⟩ with lastOwnUpdate := now })

/-- `rotate_signing_key`. -/
def rotateSigningKey (g : Group) (newSigning : Key) (seed : Bytes) :
    GroupResult (SigningKeyReplace × Bytes) :=
  match g.ensureNoPending, g.ownLeaf crypto newSigning with
  | .error e, _ => (.error e, g)
  | _, .error e => (.error e, g)
  | .ok (), .ok leaf =>
    let newPublicKey := crypto.verifyingKey newSigning
    let replace : SigningKeyReplace :=
      { newPublicKey
        signature := crypto.signContext g.groupSigning .signingKeyReplace
          (SigningKeyReplace.payload newPublicKey) }
    match openMls.selfUpdate g.mls newSigning leaf seed with
    | .error message => (.error (.mls message), g)
    | .ok (commit, staged) =>
      (.ok (replace, commit), g.stage staged ⟨.signingKeyRotate, some newSigning⟩)

/-- `UPDATE_BEFORE_SEND`, in milliseconds. -/
def updateBeforeSend : ℕ := 72 * 3600 * 1000

/-- `UPDATE_INTERVAL`, in milliseconds. -/
def updateInterval : ℕ := 7 * 24 * 3600 * 1000

/-- `UPDATE_ON_ONLINE`, in milliseconds. -/
def updateOnOnline : ℕ := 24 * 3600 * 1000

/-- `duration_since` fails for a time in the future, and an update is then due. -/
def updateDue (g : Group) (now interval : ℕ) : Bool :=
  now < g.lastOwnUpdate || now - g.lastOwnUpdate ≥ interval

/-- `maybe_self_update`. -/
def maybeSelfUpdate (g : Group) (now : ℕ) (seed : Bytes) : GroupResult (Option Bytes) :=
  if g.pending.isSome then (.ok none, g)
  else if g.updateDue now updateInterval || g.updateDue now updateOnOnline then
    let (answer, g) := g.selfUpdate crypto openMls now seed
    (answer.map some, g)
  else (.ok none, g)

/-- `admit`. -/
def admitMember (g : Group) (keyPackage : Bytes) (expectedCredentialId : Key) (seed : Bytes) :
    GroupResult (Bytes × Bytes) :=
  match g.ensureNoPending, openMls.readKeyPackage keyPackage with
  | .error e, _ => (.error e, g)
  | _, .error message => (.error (.mls message), g)
  | .ok (), .ok (leaf, suite) =>
    if !suite then (.error .wrongCiphersuite, g)
    else match checkNewLeaf leaf with
      | .error e => (.error e, g)
      | .ok cid =>
        if cid ≠ expectedCredentialId then (.error .credentialIdMismatch, g)
        else if (credentialIds g.mls.leaves).any fun entry ↦ entry.2 = cid then
          (.error .credentialIdMismatch, g)
        else match openMls.addMember g.mls g.groupSigning leaf seed with
          | .error message => (.error (.mls message), g)
          | .ok (commit, welcome, staged) => (.ok (commit, welcome), g.stage staged ⟨.add, none⟩)

/-- `leaf_index_for`. The source searches a hash map; a credential has one leaf. -/
def leafIndexFor (g : Group) (credentialId : Key) : Option ℕ :=
  ((credentialIds g.mls.leaves).find? fun entry ↦ entry.2 = credentialId).map (·.1)

/-- `remove`. -/
def remove (g : Group) (hostGroupId credentialId : Key) (seed : Bytes) :
    GroupResult RemoveBundle :=
  match g.ensureNoPending, g.leafIndexFor credentialId with
  | .error e, _ => (.error e, g)
  | _, none => (.error .badRemoveBundle, g)
  | .ok (), some index =>
    match openMls.removeMember g.mls g.groupSigning index seed with
    | .error message => (.error (.mls message), g)
    | .ok (mlsCommit, staged) =>
      let sidecarSignature := crypto.signContext g.groupSigning .removeSidecar
        (RemoveBundle.sidecarPayload crypto hostGroupId credentialId mlsCommit)
      (.ok { credentialId, sidecarSignature, mlsCommit }, g.stage staged ⟨.remove, none⟩)

/-! ## Application messages -/

/-- `encrypt`. -/
def encrypt (g : Group) (plaintext : Bytes) (now : ℕ) (seed : Bytes) : GroupResult Bytes :=
  if now - g.lastOwnUpdate > updateBeforeSend then (.error .staleMlsUpdate, g)
  else match openMls.createMessage g.mls g.groupSigning plaintext seed with
    | .error message => (.error (.mls message), g)
    | .ok (ciphertext, secrets) => (.ok ciphertext, { g with mls := { g.mls with secrets } })

/-- `decrypt_with_sender`. -/
def decryptWithSender (g : Group) (ciphertext : Bytes) : GroupResult (Bytes × IdentityId) :=
  match g.process openMls ciphertext with
  | (.error e, g) => (.error e, g)
  | (.ok (none, _), g) => (.error .externalMlsJoin, g)
  | (.ok (some index, content), g) =>
    match g.mls.leaves.find? fun member ↦ member.index = index with
    | none => (.error (.mls "unknown message sender"), g)
    | some member =>
      match copyFixed 32 member.identity with
      | .error _ => (.error (.mls "identity must be 32 bytes"), g)
      | .ok identity =>
        match content with
        | .application plaintext => (.ok (plaintext, crypto.identityId identity), g)
        | _ => (.error (.mls "expected application message"), g)

end Group

/-! ## Sidecars -/

/-- What `encode_sidecar` writes of a group. -/
structure Sidecar where
  mlsGroupId : Bytes
  groupSigning : Key
  credentialId : Key
  lastOwnUpdate : ℕ
  pendingKind : Option PendingKind
  newSigner : Option Key
  announcedKeys : FiniteMap Bytes Key
  deriving DecidableEq

/-- `encode_sidecar`. -/
def GroupRecord.sidecar (record : GroupRecord) : Sidecar where
  mlsGroupId := record.mlsGroupId
  groupSigning := record.groupSigning
  credentialId := record.credentialId
  lastOwnUpdate := record.lastOwnUpdate
  pendingKind := record.pending.map (·.kind)
  newSigner := record.pending.bind (·.newSigner)
  announcedKeys := record.announcedKeys

/-- `load_sidecar`. A staged commit whose kind is not on record is dropped. -/
def Sidecar.load (sidecar : Sidecar) (storage : MlsStorage) : Except CoreError Group :=
  match storage.groups.lookup sidecar.mlsGroupId with
  | none => .error .vaultCorrupt
  | some mls =>
    let pending := if mls.pendingCommit.isSome then
        sidecar.pendingKind.map fun kind ↦ { kind, newSigner := sidecar.newSigner }
      else none
    let record : GroupRecord :=
      { mlsGroupId := sidecar.mlsGroupId, groupSigning := sidecar.groupSigning,
        credentialId := sidecar.credentialId, lastOwnUpdate := sidecar.lastOwnUpdate, pending,
        announcedKeys := sidecar.announcedKeys }
    .ok <| Group.syncCredentialIds <| if pending.isNone then
        { record with mls := { mls with pendingCommit := none } }
      else { record with mls }

end NemoMessenger.Client
