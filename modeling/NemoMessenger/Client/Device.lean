import NemoMessenger.Data.Program
import NemoMessenger.Client.Mailbox
import NemoMessenger.Client.Message
import NemoMessenger.Client.Origin
import NemoMessenger.Client.Vault

/-!
# The device a client runs on

The methods of a client are programs over the actions of this module: they read and change its
memory, use its ratchets and its groups, send requests, write entries to the vault, read the clock
and draw randomness. A world is the memory, the vault and what has happened so far; the environment
answers requests and decides which writes fail. A program that is cut off leaves one of the worlds it
visits, of which only the vault survives.
-/

namespace NemoMessenger.Client

open NemoMessenger.Data NemoMessenger.Wire

/-! ## What is taken from outside -/

/-- The functions taken from libsignal, with the randomness they would draw as their last argument.
What they change is the record of the peer and, where they consume prekeys, the stores of those. -/
structure Libsignal where
  /-- `message_encrypt`. -/
  encrypt : SignalStore → IdentityId → Bytes → Bytes → Except String (Bytes × PeerRecord)
  /-- `message_decrypt`. -/
  decrypt : SignalStore → IdentityId → Bytes → Bytes →
    Except String Bytes × PeerRecord × PreKeyStores
  /-- `process_prekey_bundle`. -/
  processPrekeyBundle : SignalStore → IdentityId → Bytes → Bytes → Except String PeerRecord
  /-- The identity key of a prekey bundle, and whether it has a one-time prekey. -/
  readBundle : Bytes → Except String (Bytes × Bool)
  /-- `parse_ciphertext` accepts the bytes. -/
  isCiphertext : Bytes → Bool
  /-- The identity key of a `PreKeySignalMessage`, when the bytes are one. -/
  preKeyIdentity : Bytes → Option Bytes
  newPreKey : ℕ → Bytes → Bytes
  newKyberPreKey : SignalStore → ℕ → Bytes → Except String Bytes
  newSignedPreKey : SignalStore → ℕ → ℕ → Bytes → Except String Bytes
  /-- The bundle of a one-time prekey, a Kyber prekey and the signed prekey in use. -/
  newBundle : SignalStore → ℕ → ℕ → ℕ → Except String Bytes
  identityKey : SignalStore → Bytes

/-- The texts and encodings the methods only pass values through. -/
structure Formats where
  /-- `app::encode`. -/
  encode : AppMessage → Except CoreError Bytes
  /-- `app::decode`. -/
  decode : Bytes → Except CoreError AppMessage
  /-- `parse_card`. -/
  parseCard : String → Except CoreError ContactCard
  /-- `parse_delivery_cap`. -/
  parseDeliveryCap : String → ContactCard → Except CoreError Key
  cardUri : ContactCard → Except CoreError String
  parseGroupInvite : String → Except CoreError GroupInvite
  inviteUri : GroupInvite → String
  parseJoinRequest : String → Except CoreError JoinRequest
  joinRequestUri : JoinRequest → String
  parsePrivacy : String → Option PrivacyMode
  /-- `HttpHome::new` accepts the base. -/
  checkBase : String → Except CoreError Unit
  fingerprint : IdentityId → String
  /-- `seal_group_file`, with the randomness it would draw. -/
  sealGroupFile : Bytes → Bytes → Except CoreError (Bytes × AttachmentSizeBucket × Bytes)
  /-- `open_group_file`. -/
  openGroupFile : Bytes → Bytes → Except CoreError Bytes

/-- What a client takes from outside. -/
structure Outside where
  build : Build
  crypto : Crypto
  openMls : OpenMls
  libsignal : Libsignal
  formats : Formats

/-! ## Requests -/

/-- The requests of a client to a home server, but for the ack of its mailbox. -/
inductive Request
  | bundle
  | register (card : ContactCard)
  | binding (card : ContactCard)
  | discovery (identity : IdentityId)
  | fetchPrekey (shareToken : Key)
  | publishPrekey (blob : SignedPrekey)
  | mintContact
  | mintShare
  | postEnvelope (outer : Outgoing)
  | fetchMailbox (cursor : UInt64)
  | createGroup (signingPk deliveryCapability hpke : Key)
  | groupAppend (groupId : Key) (cred : HostCred) (type : MessageType) (body : Bytes)
  | storeInvite (groupId : Key) (cred : HostCred) (invite : GroupInvite)
  | acceptInvite (groupId nonce : Key)
  | lookupPending (groupId : Key) (cred : HostCred) (pendingId : Key)
  | admitPending (groupId : Key) (cred : HostCred) (admission : GroupAdmit)
      (signingPk capability hpke : Key)
  | refreshFanout (groupId : Key) (cred : HostCred) (capability hpke : Key)
  | uploadFile (groupId : Key) (cred : HostCred) (fetchToken : Key) (body : Bytes)
  | fetchFile (groupId : Key) (cred : HostCred) (fetchToken : Key)
  | issueTurn
  | wakeup
  deriving DecidableEq

/-- What the client reads from a successful answer. A group comes back without its origin, and an
envelope with the number it was stored under, or queued. -/
abbrev Request.Answer : Request → Type
  | bundle => ServerBundle
  | discovery _ => Discovery
  | fetchPrekey _ => SignedPrekey
  | mintContact => Key
  | mintShare => Key
  | postEnvelope _ => Option UInt64
  | fetchMailbox _ => List MailboxRow
  | createGroup .. => Key × HostCred
  | groupAppend .. => UInt64
  | acceptInvite .. => HostAccept
  | lookupPending .. => PendingLookup
  | admitPending .. => Key
  | fetchFile .. => Bytes
  | wakeup => Bytes
  | _ => Unit

/-- What has happened: requests and acks that have left the process, messages the ratchet of a peer
has sealed, with the session that sealed them, entries written, and the vault opened. -/
inductive Event
  | sent (origin : String) (request : Request)
  | acked (origin : String) (cursor : UInt64)
  | sealed_ (peer : IdentityId) (session : Option Bytes) (ciphertext : Bytes)
  | wrote (key : VaultKey)
  | opened
  deriving DecidableEq

/-! ## Ratchets -/

namespace SignalStore

/-- What is kept under the address of a peer. -/
def peer (store : SignalStore) (id : IdentityId) : PeerRecord where
  session := store.sessions.lookup id
  identity := store.known.lookup id

/-- Put an entry where there is a value, and none where there is none. -/
def setOrErase {V : Type} (m : FiniteMap IdentityId V) (id : IdentityId) :
    Option V → FiniteMap IdentityId V
  | some v => m.insert id v
  | none => m.erase id

/-- Replace what is kept under the address of a peer. -/
def setPeer (store : SignalStore) (id : IdentityId) (record : PeerRecord) : SignalStore :=
  { store with sessions := setOrErase store.sessions id record.session
               known := setOrErase store.known id record.identity }

/-- The entry under `source` moves to `target`, where one that is there already wins. -/
def moveEntry {V : Type} (m : FiniteMap IdentityId V) (source target : IdentityId) :
    FiniteMap IdentityId V :=
  match m.lookup source with
  | none => m
  | some v =>
    let rest := m.erase source
    if (rest.lookup target).isSome then rest else rest.insert target v

/-- `rematerialize_peer`. -/
def rematerializePeer (store : SignalStore) (source target : IdentityId) : SignalStore :=
  if source = target then store
  else { store with sessions := moveEntry store.sessions source target
                    known := moveEntry store.known source target }

end SignalStore

/-- What a session does with its ratchets. -/
inductive RatchetOp : Type → Type
  | encrypt (peer : IdentityId) (plaintext : Bytes) : RatchetOp (Except CoreError Bytes)
  | decrypt (peer : IdentityId) (ciphertext : Bytes) : RatchetOp (Except CoreError Bytes)
  | processPrekeyBundle (peer : IdentityId) (bundle : Bytes) : RatchetOp (Except CoreError Unit)
  | rematerializePeer (source target : IdentityId) : RatchetOp Unit

/-- The answer of an operation, and the store afterwards. -/
def RatchetOp.run (p : Outside) (seed : Bytes) :
    {β : Type} → RatchetOp β → SignalStore → β × SignalStore
  | _, encrypt peer plaintext, store =>
    match p.libsignal.encrypt store peer plaintext seed with
    | .error message => (.error (.signal message), store)
    | .ok (ciphertext, record) => (.ok ciphertext, store.setPeer peer record)
  | _, decrypt peer ciphertext, store =>
    match p.libsignal.decrypt store peer ciphertext seed with
    | (answer, record, stores) =>
      (answer.mapError .signal, { store.setPeer peer record with preKeyStores := stores })
  | _, processPrekeyBundle peer bundle, store =>
    match p.libsignal.processPrekeyBundle store peer bundle seed with
    | .error message => (.error (.signal message), store)
    | .ok record => (.ok (), store.setPeer peer record)
  | _, rematerializePeer source target, store => ((), store.rematerializePeer source target)

/-- What an operation adds to the record of what has happened. -/
def RatchetOp.events : {β : Type} → RatchetOp β → SignalStore → β → List Event
  | _, encrypt peer _, store, .ok ciphertext =>
    [.sealed_ peer (store.sessions.lookup peer) ciphertext]
  | _, _, _, _ => []

/-! ## Installations -/

/-- A `Group` that has just been founded or joined. -/
structure NewGroup where
  mlsGroupId : Bytes
  groupSigning : Key
  credentialId : Key
  lastOwnUpdate : ℕ
  mls : MlsTree

/-- Nothing is staged in it, and no key has been announced. -/
def NewGroup.record (g : NewGroup) : GroupRecord where
  mlsGroupId := g.mlsGroupId
  groupSigning := g.groupSigning
  credentialId := g.credentialId
  lastOwnUpdate := g.lastOwnUpdate
  pending := none
  announcedKeys := ∅

/-- What the methods do with the keys and the MLS storage of an installation. -/
inductive InstallOp : Type → Type
  | mintPrekey : InstallOp (Except CoreError SignedPrekey)
  | rotateSignedPrekey (nowMs : ℕ) : InstallOp (Except CoreError Unit)
  | bumpBindingSeq : InstallOp Unit
  | createGroup (credentialId groupSigning : Key) (nowMs : ℕ) : InstallOp NewGroup
  | prepareJoin (credentialId groupSigning : Key) : InstallOp (Except CoreError PendingJoin)
  | join (pending : PendingJoin) (welcome : Bytes) (nowMs : ℕ) :
    InstallOp (Except CoreError NewGroup)

namespace Installation

/-- `Installation::mint_prekey`. What it stores stays stored when it fails half way. -/
def mintPrekey (p : Outside) (install : Installation) (seed : Bytes) :
    Except CoreError SignedPrekey × Installation :=
  let otpkId := install.nextPreKeyId.toNat
  let kyberId := install.nextKyberId.toNat
  let stores := install.store.preKeyStores
  let stores := { stores with
    preKeys := stores.preKeys.insert otpkId (p.libsignal.newPreKey otpkId seed) }
  let install := { install with
    nextPreKeyId := UInt32.ofNat (min (otpkId + 1) (2 ^ 32 - 1))
    nextKyberId := UInt32.ofNat (min (kyberId + 1) (2 ^ 32 - 1))
    store := { install.store with preKeyStores := stores } }
  match p.libsignal.newKyberPreKey install.store kyberId seed with
  | .error message => (.error (.signal message), install)
  | .ok kyber =>
    let stores := { stores with kyberPreKeys := stores.kyberPreKeys.insert kyberId kyber }
    let install := { install with store := { install.store with preKeyStores := stores } }
    match p.libsignal.newBundle install.store otpkId kyberId install.signedPreKeyId.toNat with
    | .error message => (.error (.signal message), install)
    | .ok bundle =>
      (.ok (SignedPrekey.sign p.crypto install.identity (UInt64.ofNat otpkId) bundle), install)

/-- `rotate_signed_prekey`, under the next id. -/
def rotateSignedPrekey (p : Outside) (install : Installation) (nowMs : ℕ) (seed : Bytes) :
    Except CoreError Unit × Installation :=
  let signedId := min (install.signedPreKeyId.toNat + 1) (2 ^ 32 - 1)
  let install := { install with signedPreKeyId := UInt32.ofNat signedId }
  match p.libsignal.newSignedPreKey install.store signedId nowMs seed with
  | .error message => (.error (.signal message), install)
  | .ok record =>
    let stores := install.store.preKeyStores
    let stores := { stores with signedPreKeys := stores.signedPreKeys.insert signedId record }
    (.ok (), { install with
      store := { install.store with preKeyStores := stores }
      signedPreKeyAt := UInt64.ofNat (nowMs / 1000) })

/-- Keep a group in the storage of the provider. -/
def storeMls (install : Installation) (id : Bytes) (mls : MlsGroup) : Installation :=
  { install with
    mlsStorage := { install.mlsStorage with groups := install.mlsStorage.groups.insert id mls } }

/-- Change the key packages in the storage of the provider. -/
def mapKeyPackages (install : Installation) (f : FiniteMap Bytes Bytes → FiniteMap Bytes Bytes) :
    Installation :=
  { install with mlsStorage := { install.mlsStorage with keys := f install.mlsStorage.keys } }

/-- `Installation::create_group`. The leaf gets the credential id the client has drawn. -/
def createGroup (p : Outside) (install : Installation) (credentialId groupSigning : Key)
    (nowMs : ℕ) (seed : Bytes) : NewGroup × Installation :=
  let leaf := Group.newLeaf p.crypto 0 (p.crypto.verifyingKey install.identity) credentialId
    groupSigning
  let (id, mls) := p.openMls.newGroup leaf seed
  ({ mlsGroupId := id, groupSigning, credentialId, lastOwnUpdate := nowMs, mls },
    install.storeMls id { mls with pendingCommit := none })

/-- `Installation::prepare_join`. -/
def prepareJoin (p : Outside) (install : Installation) (credentialId groupSigning : Key)
    (seed : Bytes) : Except CoreError PendingJoin × Installation :=
  let leaf := Group.newLeaf p.crypto 0 (p.crypto.verifyingKey install.identity) credentialId
    groupSigning
  match p.openMls.buildKeyPackage leaf groupSigning seed with
  | .error message => (.error (.mls message), install)
  | .ok (keyPackage, stored) =>
    (.ok { credentialId, groupSigning, keyPackage },
      install.mapKeyPackages fun keys ↦ keys.insert keyPackage stored)

/-- The checks of `PendingJoin::join`: the own leaf has the reserved id, and all leaves are well
formed. -/
def checkJoined (credentialId : Key) (mls : MlsTree) : Except CoreError Unit :=
  match mls.leaves.find? fun leaf ↦ leaf.index = mls.ownIndex with
  | none => .error .credentialIdMismatch
  | some own =>
    match checkNewLeaf own with
    | .error _ => .error .credentialIdMismatch
    | .ok cid =>
      if cid ≠ credentialId then .error .credentialIdMismatch
      else mls.leaves.forM fun leaf ↦ (checkNewLeaf leaf).map fun _ ↦ ()

/-- `PendingJoin::join`. A group that fails the checks stays in the storage. -/
def joinGroup (p : Outside) (install : Installation) (pending : PendingJoin) (welcome : Bytes)
    (nowMs : ℕ) : Except CoreError NewGroup × Installation :=
  match p.openMls.join install.mlsStorage pending.keyPackage welcome with
  | .error message => (.error (.mls message), install)
  | .ok (id, suite, mls) =>
    let install := (install.storeMls id { mls with pendingCommit := none }).mapKeyPackages
      (AList.erase pending.keyPackage)
    if !suite then (.error .wrongCiphersuite, install)
    else match checkJoined pending.credentialId mls with
      | .error e => (.error e, install)
      | .ok () =>
        (.ok { mlsGroupId := id, groupSigning := pending.groupSigning,
               credentialId := pending.credentialId, lastOwnUpdate := nowMs, mls }, install)

end Installation

/-- The answer of an operation, and the installation afterwards. -/
def InstallOp.run (p : Outside) (seed : Bytes) :
    {β : Type} → InstallOp β → Installation → β × Installation
  | _, mintPrekey, install => install.mintPrekey p seed
  | _, rotateSignedPrekey nowMs, install => install.rotateSignedPrekey p nowMs seed
  | _, bumpBindingSeq, install => ((), { install with bindingSeq := install.bindingSeq + 1 })
  | _, createGroup credentialId groupSigning nowMs, install =>
    install.createGroup p credentialId groupSigning nowMs seed
  | _, prepareJoin credentialId groupSigning, install =>
    install.prepareJoin p credentialId groupSigning seed
  | _, join pending welcome nowMs, install => install.joinGroup p pending welcome nowMs

/-! ## Groups -/

/-- What the methods do with an MLS group. -/
inductive GroupOp : Type → Type
  | maybeSelfUpdate (nowMs : ℕ) : GroupOp (Except CoreError (Option Bytes))
  | admitMember (keyPackage : Bytes) (credentialId : Key) :
    GroupOp (Except CoreError (Bytes × Bytes))
  | remove (hostGroupId credentialId : Key) : GroupOp (Except CoreError RemoveBundle)
  | discardPending : GroupOp Unit
  | applyHandshake (message : Bytes) (nowMs : ℕ) : GroupOp (Except CoreError HandshakeOutcome)
  | applyRemoveBundle (hostGroupId : Key) (bundle : RemoveBundle) (nowMs : ℕ) :
    GroupOp (Except CoreError HandshakeOutcome)
  | applySigningKeyReplace (body : Bytes) : GroupOp (Except CoreError Unit)
  | encrypt (plaintext : Bytes) (nowMs : ℕ) : GroupOp (Except CoreError Bytes)
  | decryptWithSender (ciphertext : Bytes) : GroupOp (Except CoreError (Bytes × IdentityId))

/-- The answer of an operation, and the group afterwards. -/
def GroupOp.run (p : Outside) (seed : Bytes) : {β : Type} → GroupOp β → Group → β × Group
  | _, maybeSelfUpdate nowMs, g => g.maybeSelfUpdate p.crypto p.openMls nowMs seed
  | _, admitMember keyPackage credentialId, g =>
    g.admitMember p.openMls keyPackage credentialId seed
  | _, remove hostGroupId credentialId, g =>
    g.remove p.crypto p.openMls hostGroupId credentialId seed
  | _, discardPending, g => ((), g.discardPending)
  | _, applyHandshake message nowMs, g => g.applyHandshake p.openMls message nowMs
  | _, applyRemoveBundle hostGroupId bundle nowMs, g =>
    g.applyRemoveBundle p.crypto p.openMls hostGroupId bundle nowMs
  | _, applySigningKeyReplace body, g => g.applySigningKeyReplace p.crypto body
  | _, encrypt plaintext nowMs, g => g.encrypt p.openMls plaintext nowMs seed
  | _, decryptWithSender ciphertext, g => g.decryptWithSender p.crypto p.openMls ciphertext

namespace Inner

/-- The group of the live group at a position, read from the storage of the installation. -/
def groupAt (inner : Inner) (i : ℕ) : Option Group := do
  let live ← inner.groups[i]?
  let state ← inner.state
  let mls ← state.install.mlsStorage.groups.lookup live.mls.mlsGroupId
  some { live.mls with mls }

/-- Replace the group of the live group at a position. -/
def setGroupAt (inner : Inner) (i : ℕ) (g : Group) : Inner :=
  { inner.mapInstall fun install ↦ install.storeMls g.mlsGroupId g.mls with
    groups := inner.groups.modify i fun live ↦ { live with mls := g.toGroupRecord } }

/-- Name the first live group of a host group. -/
def setNickname (inner : Inner) (groupId : Key) (name : String) : Inner :=
  match inner.groups.findIdx? fun g ↦ g.host.groupId = groupId with
  | some i =>
    { inner with groups := inner.groups.modify i fun live ↦ { live with nickname := name } }
  | none => inner

/-- `remember_group`, and the live group that goes with it. Its MLS state is in the storage. -/
def enroll (inner : Inner) (host : HostGroup) (g : NewGroup) (nickname : String) : Inner :=
  match inner.session? with
  | none => inner
  | some _ =>
    let inner := inner.mapSession fun session ↦ session.rememberGroup host
    let inner := inner.mapInstall fun install ↦
      install.storeMls g.mlsGroupId { g.mls with pendingCommit := none }
    { inner with groups := inner.groups ++ [{ host, mls := g.record, nickname }] }

/-- The session `HomeSession::register` returns. -/
def beginSession (inner : Inner) (bundle : ServerBundle) (base : String) : Inner :=
  match inner.state with
  | some (.local_ install) =>
    let home : HomeState :=
      { bundle, cursor := 0, contacts := ∅, groups := [], homeBase := trimSlashes base,
        privacy := .normal }
    { inner with state := some (.registered (.resume install home)) }
  | _ => inner

/-- What `register` copies back after a `rehome`. -/
def relocate (inner : Inner) : Inner :=
  match inner.session? with
  | none => inner
  | some session =>
    { inner with groups := inner.groups.map fun live ↦
        match session.groups.find? fun g ↦ g.groupId = live.host.groupId with
        | some host => { live with host }
        | none => live }

end Inner

/-! ## Sessions with a home -/

/-- The fields of a session the methods assign. -/
inductive SessionUpdate
  | cursor (cursor : UInt64)
  | contact (id : IdentityId) (contact : StoredContact)
  | forget (id : IdentityId)
  | pendingOuters (outers : List Outgoing)
  | coverNext (ms : ℕ)
  | lastReal (ms : ℕ)
  | privacy (mode : PrivacyMode)

/-- The session afterwards. -/
def SessionUpdate.apply : SessionUpdate → HomeSession → HomeSession
  | cursor seq, session => { session with cursor := seq }
  | contact id stored, session => { session with contacts := session.contacts.insert id stored }
  | forget id, session => { session with contacts := session.contacts.erase id }
  | pendingOuters outers, session => { session with pendingOuters := outers }
  | coverNext ms, session => { session with coverNextMs := ms }
  | lastReal ms, session => { session with lastRealMs := ms }
  | privacy mode, session =>
    { session with
      privacy := mode, anonymous := mode.anonymous && !isLoopbackOrigin session.homeBase }

/-- The part of `rehome` between the two registrations: groups that were on the old home keep its
origin. -/
def HomeSession.moveTo (session : HomeSession) (bundle : ServerBundle) (base : String) :
    HomeSession :=
  { session with
    bundle
    cursor := 0
    homeBase := trimSlashes base
    anonymous := false
    groups := session.groups.map fun g ↦
      if g.hostBase = "" then { g with hostBase := session.homeBase } else g }

/-! ## Actions -/

/-- What a method does to the memory, and what it asks of the world outside. `enroll` remembers a
host group and keeps the live group that goes with it; `media` tells the peer connection of the live
call something of the other side. -/
inductive Op : Type → Type 1
  | memory : Op Inner
  | shell (f : Shell → Shell) : Op Unit
  | session (update : SessionUpdate) : Op Unit
  | ratchet {β : Type} (op : RatchetOp β) : Op (Option β)
  | install {β : Type} (op : InstallOp β) : Op (Option β)
  | group {β : Type} (i : ℕ) (op : GroupOp β) : Op (Option β)
  | nickname (groupId : Key) (name : String) : Op Unit
  | enroll (host : HostGroup) (g : NewGroup) (nickname : String) : Op Unit
  | pending (f : FiniteMap Key PendingEntry → FiniteMap Key PendingEntry) : Op Unit
  | minted (invite : GroupInvite) : Op Unit
  | mnemonic : Op (Option String)
  | send (origin : String) (request : Request) : Op (Except CoreError request.Answer)
  | media (input : RemoteInput) : Op (Except CoreError Unit)
  | clock : Op ℕ
  | draw : Op Bytes
  | uniform (min max : ℕ) : Op ℕ

/-- What else a method does: it acks its mailbox, writes entries to the vault and reads them. `take`,
`restore` and `replace` move the state of the client out of its place and back, `begin_` makes a
session of it, `move` changes its home, and `relocate` copies the origins of the host groups into the
live ones. -/
inductive Act : Type → Type 1
  | op {β : Type} (op : Op β) : Act β
  | ack (origin : String) (cursor : UInt64) : Act (Except CoreError Unit)
  | put (entry : Entry) : Act (Except CoreError Unit)
  | reload : Act Unit
  | loadInstallation : Act Installation
  | take : Act Unit
  | begin_ (bundle : ServerBundle) (base : String) : Act Unit
  | move (bundle : ServerBundle) (base : String) : Act Unit
  | relocate : Act Unit
  | restore : Act Unit
  | replace (state : Option ClientState) : Act Unit

/-- A part of a method that neither acks nor writes to the vault. -/
abbrev SessionM := Program Op CoreError

/-- A method of a client. -/
abbrev ClientM := Program Act CoreError

instance : MonadLift SessionM ClientM where
  monadLift q := q.hoist Act.op

/-- The memory, the vault and what has happened. `taken` says that the state is out of its place,
`bonds` which MLS group was created or joined for which host group; `tick` counts actions. -/
structure World where
  inner : Inner
  taken : Bool
  vault : Vault
  log : List Event
  bonds : List (Key × Bytes)
  tick : ℕ

/-- What happens outside, at each action. -/
structure Environment where
  answer : ℕ → String → (request : Request) → Except CoreError request.Answer
  ack : ℕ → Except CoreError Unit
  fault : ℕ → Option CoreError
  media : ℕ → RemoteInput → Except CoreError Unit
  clock : ℕ → ℕ
  draw : ℕ → Bytes
  uniform : ℕ → ℕ → ℕ → ℕ

/-- The answer to an action and the world it leaves, but for the count of actions. -/
def Op.effect (p : Outside) (env : Environment) : {β : Type} → Op β → World → β × World
  | _, memory, w => (w.inner, w)
  | _, shell f, w => ((), { w with inner := { w.inner with shell := f w.inner.shell } })
  | _, session update, w => ((), { w with inner := w.inner.mapSession update.apply })
  | _, ratchet op, w =>
    match w.inner.session? with
    | none => (none, w)
    | some s =>
      let (answer, store) := op.run p (env.draw w.tick) s.install.store
      (some answer, { w with
        inner := w.inner.mapInstall fun i ↦ { i with store }
        log := w.log ++ op.events s.install.store answer })
  | _, install op, w =>
    match w.inner.state with
    | none => (none, w)
    | some state =>
      let (answer, left) := op.run p (env.draw w.tick) state.install
      (some answer, { w with inner := w.inner.mapInstall fun _ ↦ left })
  | _, group i op, w =>
    match w.inner.groupAt i with
    | none => (none, w)
    | some g =>
      let (answer, g) := op.run p (env.draw w.tick) g
      (some answer, { w with inner := w.inner.setGroupAt i g })
  | _, nickname groupId name, w =>
    ((), { w with inner := w.inner.setNickname groupId name })
  | _, enroll host g name, w =>
    ((), { w with
      inner := w.inner.enroll host g name
      bonds := w.bonds ++ [(host.groupId, g.mlsGroupId)] })
  | _, pending f, w => ((), { w with inner := { w.inner with pending := f w.inner.pending } })
  | _, minted invite, w =>
    ((), { w with inner :=
      { w.inner with minted := w.inner.minted.insert invite.nonce invite } })
  | _, mnemonic, w =>
    (w.inner.revocationMnemonic, { w with inner := { w.inner with revocationMnemonic := none } })
  | _, send origin request, w =>
    (env.answer w.tick origin request, { w with log := w.log ++ [.sent origin request] })
  | _, media input, w => (env.media w.tick input, w)
  | _, clock, w => (env.clock w.tick, w)
  | _, draw, w => (env.draw w.tick, w)
  | _, uniform min max, w => (env.uniform w.tick min max, w)

/-- The answer to an action and the world it leaves, but for the count of actions. -/
def Act.effect (p : Outside) (env : Environment) : {β : Type} → Act β → World → β × World
  | _, op o, w => o.effect p env w
  | _, ack origin cursor, w => (env.ack w.tick, { w with log := w.log ++ [.acked origin cursor] })
  | _, put entry, w =>
    match env.fault w.tick with
    | some e => (.error e, w)
    | none => (.ok (), { w with vault := w.vault.put entry, log := w.log ++ [.wrote entry.key] })
  | _, reload, w =>
    ((), { w with inner := w.vault.load.inner, taken := false, log := w.log ++ [.opened] })
  | _, loadInstallation, w => (w.vault.loadInstallation, w)
  | _, take, w => ((), { w with taken := true })
  | _, begin_ bundle base, w => ((), { w with inner := w.inner.beginSession bundle base })
  | _, move bundle base, w =>
    ((), { w with inner := w.inner.mapSession fun session ↦ session.moveTo bundle base })
  | _, relocate, w => ((), { w with inner := w.inner.relocate })
  | _, restore, w => ((), { w with taken := false })
  | _, replace state, w => ((), { w with inner := { w.inner with state }, taken := false })

/-- One action more. -/
def World.ticked (w : World) : World := { w with tick := w.tick + 1 }

/-- The device. -/
def device (p : Outside) (env : Environment) : Machine Act World where
  step action w := ((action.effect p env w).1, (action.effect p env w).2.ticked)

/-! ## Concrete runs -/

/-- Functions without secrets, for concrete runs: a session counts what it has sealed and opened,
every ciphertext is its plaintext, every message is a short text, and no group has ever a message to
process. -/
def Outside.transparent : Outside where
  build := .release
  crypto := .transparent
  libsignal :=
    { encrypt := fun store peer plaintext _ ↦
        match store.sessions.lookup peer with
        | none => .error "session not found"
        | some session => .ok (plaintext, ⟨some (session ++ [1]), store.known.lookup peer⟩)
      decrypt := fun store peer ciphertext _ ↦
        match store.sessions.lookup peer with
        | none => (.error "session not found", store.peer peer, store.preKeyStores)
        | some session =>
          (.ok ciphertext, ⟨some (session ++ [2]), store.known.lookup peer⟩, store.preKeyStores)
      processPrekeyBundle := fun _ _ bundle seed ↦ .ok ⟨some seed, some bundle⟩
      readBundle := fun bundle ↦ .ok (bundle, true)
      isCiphertext := fun _ ↦ true
      preKeyIdentity := fun _ ↦ none
      newPreKey := fun _ seed ↦ seed
      newKyberPreKey := fun _ _ seed ↦ .ok seed
      newSignedPreKey := fun _ _ _ seed ↦ .ok seed
      newBundle := fun _ _ _ _ ↦ .ok []
      identityKey := fun store ↦ store.keyPair }
  openMls :=
    { messageEpoch := fun _ ↦ none
      isWelcome := fun _ ↦ false
      process := fun g _ ↦ (.error (.other "no message"), g.secrets)
      createMessage := fun g _ plaintext _ ↦ .ok (plaintext, g.secrets)
      selfUpdate := fun _ _ _ _ ↦ .error "no commit"
      addMember := fun _ _ _ _ ↦ .error "no commit"
      removeMember := fun _ _ _ _ ↦ .error "no commit"
      readKeyPackage := fun _ ↦ .error "no key package"
      newGroup := fun leaf seed ↦ (seed, ⟨0, [leaf], 0, []⟩)
      buildKeyPackage := fun _ _ _ ↦ .error "no key package"
      welcomeMatches := fun _ _ ↦ false
      join := fun _ _ _ ↦ .error "no welcome"
      mergePending := fun g ↦ .ok (g.pendingCommit.elim g g.merged)
      mergeStaged := fun g commit ↦ .ok (g.merged commit)
      mergePending_ok := @MlsGroup.eq_elim_of_ok
      mergeStaged_ok := @MlsGroup.eq_merged_of_ok }
  formats :=
    { encode := fun _ ↦ .ok [0]
      decode := fun _ ↦ .ok (.fresh 1 0 (.text "hello"))
      parseCard := fun _ ↦ .error (.text "card")
      parseDeliveryCap := fun _ _ ↦ .error (.text "capability")
      cardUri := fun _ ↦ .ok ""
      parseGroupInvite := fun _ ↦ .error (.text "invite")
      inviteUri := fun _ ↦ ""
      parseJoinRequest := fun _ ↦ .error (.text "join request")
      joinRequestUri := fun _ ↦ ""
      parsePrivacy := fun _ ↦ none
      checkBase := fun _ ↦ .ok ()
      fingerprint := fun _ ↦ ""
      sealGroupFile := fun _ _ ↦ .error (.text "file")
      openGroupFile := fun _ _ ↦ .error (.text "file") }

/-- An outside world in which every write succeeds and no request is answered. -/
def Environment.silent : Environment where
  answer _ _ _ := .error (.transport "no answer")
  ack _ := .ok ()
  fault _ := none
  media _ _ := .error (.call "no media")
  clock _ := 0
  draw tick := List.replicate tick 0
  uniform _ min _ := min

end NemoMessenger.Client
