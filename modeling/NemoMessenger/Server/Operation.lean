import NemoMessenger.Data.Run
import NemoMessenger.Server.Federation

/-!
# Operations as chains of edits

`HomeOp` lists everything that can happen to a running home server, and `HomeOp.apply` is the step
function of its runs. Every operation decomposes into edits, each of which touches one part of the
state and its journal entry; what holds of every edit holds of every operation.
-/

namespace NemoMessenger.Server

open NemoMessenger.Data NemoMessenger.Wire

/-- Everything a home server can be asked to do. The two `pump` operations name the server at the
other end. -/
inductive HomeOp
  | setNow (now : UInt64)
  | rebindHost (host : Text) (s2sPort : UInt16)
  | register (identityId : IdentityId) (ownerPk : Key)
  | registerFromCard (card : ContactCard)
  | observeBinding (identityId : IdentityId) (binding : HomeServerBinding)
  | ingestRevocation (stmt : RevocationStatement)
  | noteGroupMembership (identityId : IdentityId) (groupId : GroupId)
  | registerShareToken (owner : IdentityId) (token : Key) (ttlSecs : Option UInt64)
  | mintShareToken (owner : IdentityId) (ttlSecs : Option UInt64) (random : Key)
  | mintContactCapability (owner : IdentityId) (random : Key)
  | rotateContact (owner : IdentityId) (old : Key) (confirm : Bool) (random : Key)
  | sweepDeadTokensFor (owner : IdentityId)
  | sweepDeadTokens
  | recordTokenSweep
  | publishPrekey (owner : IdentityId) (blob : Bytes)
  | fetchPrekey (token : Key)
  | ingest (outer : OuterEnvelope)
  | appendInner (inner : InnerEnvelope)
  | checkOwner (owner : IdentityId) (auth : MailboxOwnerAuth) (nowUnix : ℕ) (expect : AuthScope)
  | fetch (owner : IdentityId) (auth : MailboxOwnerAuth) (nowUnix : ℕ)
  | ack (owner : IdentityId) (auth : MailboxOwnerAuth) (nowUnix : ℕ)
  | enqueue (outer : OuterEnvelope)
  | enqueueFromOwner (owner : IdentityId) (auth : MailboxOwnerAuth) (nowUnix : ℕ)
      (outer : OuterEnvelope)
  | deferOutbound (time : ℕ)
  | removeMatchingOutbound (row : OutboundRow)
  | purgeExpired (dest : ServerId)
  | backoffRow (row : OutboundRow)
  | pin (bundle : ServerBundle)
  | refuse (peer : ServerId)
  | applySignRotate (peer : ServerId) (rotate : ServerSignRotate)
  | resetLink (peer : ServerId)
  | noteHello (peer : ServerId)
  | takeFrame (peer : ServerId) (payload : Bytes)
  | acceptFrame (peer : ServerId) (frame : S2sFrame)
  | pumpTo (target : HomeServer)
  | pumpFrom (source : HomeServer)

/-- The state an operation leaves, whether or not it succeeds. -/
def HomeOp.apply (crypto : Crypto) (home : HomeServer) : HomeOp → HomeServer
  | setNow now => { home with now := now.toNat }
  | rebindHost host s2sPort => home.rebindHost crypto host s2sPort
  | register identityId ownerPk => (home.register identityId ownerPk).2
  | registerFromCard card => (home.registerFromCard crypto card).2
  | observeBinding identityId binding => (home.observeBinding crypto identityId binding).2
  | ingestRevocation stmt => (home.ingestRevocation crypto stmt).2
  | noteGroupMembership identityId groupId => home.noteGroupMembership identityId groupId
  | registerShareToken owner token ttlSecs => (home.registerShareToken owner token ttlSecs).2
  | mintShareToken owner ttlSecs random => (home.mintShareToken owner ttlSecs random).2
  | mintContactCapability owner random => (home.mintContactCapability owner random).2
  | rotateContact owner old confirm random => (home.rotateContact owner old confirm random).2
  | sweepDeadTokensFor owner => (home.sweepDeadTokensFor owner).2
  | sweepDeadTokens => home.sweepDeadTokens.2
  | recordTokenSweep => home.recordTokenSweep
  | publishPrekey owner blob => (home.publishPrekey owner blob).2
  | fetchPrekey token => (home.fetchPrekey token).2
  | ingest outer => (home.ingest crypto outer).2
  | appendInner inner => (home.appendInner inner).2
  | checkOwner owner auth nowUnix expect => (home.checkOwner crypto owner auth nowUnix expect).2
  | fetch owner auth nowUnix => (home.fetch crypto owner auth nowUnix).2
  | ack owner auth nowUnix => (home.ack crypto owner auth nowUnix).2
  | enqueue outer => (home.enqueue crypto outer).2
  | enqueueFromOwner owner auth nowUnix outer =>
    (home.enqueueFromOwner crypto owner auth nowUnix outer).2
  | deferOutbound time => home.deferOutbound time
  | removeMatchingOutbound row => home.removeMatchingOutbound row
  | purgeExpired dest => (home.purgeExpired dest).2
  | backoffRow row => home.backoffRow row
  | pin bundle => (home.pin crypto bundle).2
  | refuse peer => home.refuse peer
  | applySignRotate peer rotate => (home.applySignRotate crypto peer rotate).2
  | resetLink peer => home.resetLink peer
  | noteHello peer => home.noteHello peer
  | takeFrame peer payload => (home.takeFrame peer payload).2
  | acceptFrame peer frame => (home.acceptFrame crypto peer frame).2
  | pumpTo target => (pump crypto home target).2.1
  | pumpFrom source => (pump crypto source home).2.2

/-- The conditions under which the persistence of an operation is promised: new token keys are
fresh, acks stay within the mailbox, and envelopes have come through the decoders. -/
def HomeOp.Admissible (home : HomeServer) : HomeOp → Prop
  | registerFromCard card => card.shareToken ∉ home.tokens.keys
  | registerShareToken _ token _ => token ∉ home.tokens.keys
  | mintShareToken _ _ random => random ∉ home.tokens.keys
  | mintContactCapability _ random => random ∉ home.tokens.keys
  | rotateContact _ _ _ random => random ∉ home.tokens.keys
  | noteGroupMembership identityId _ => (home.mailboxes.lookup identityId).isSome
  | ack _ auth _ => auth.cursor.toNat < 2 ^ 63
  | appendInner inner => ∃ bytes, InnerEnvelope.decodePadded bytes = .ok inner
  | enqueue outer => ∃ bytes, OuterEnvelope.decode bytes = .ok outer
  | enqueueFromOwner _ _ _ outer => ∃ bytes, OuterEnvelope.decode bytes = .ok outer
  | _ => True

/-- What a run may promise about its operations beyond what the code checks. -/
structure Promises where
  /-- The tokens a new one joins, its key and its mailbox. -/
  registers : Tokens → Key → IdentityId → Prop
  knownMembers : Prop
  smallAcks : Prop
  decoded : Prop

/-- No promise at all. -/
def Promises.none : Promises := ⟨fun _ _ _ ↦ True, False, False, False⟩

/-- The promises persistence rests on. -/
def Promises.all : Promises := ⟨fun tokens token _ ↦ token ∉ tokens.keys, True, True, True⟩

/-- An operation keeps the promises in the state it is applied to. Only a token that is about to be
registered is promised anything. -/
def HomeOp.Meets (crypto : Crypto) (promises : Promises) (home : HomeServer) : HomeOp → Prop
  | registerFromCard card =>
    card.verify crypto home.now = .ok () → card.binding.serverId = home.serverId crypto →
      home.mailboxes.lookup (card.identityId crypto) = none →
        promises.registers home.tokens card.shareToken (card.identityId crypto)
  | registerShareToken owner token ttlSecs =>
    home.requireMailbox owner = .ok () → allowedIntroTtl (ttlSecs.getD shareTtlDefault) = true →
      promises.registers home.tokens token owner
  | mintShareToken owner ttlSecs random =>
    home.requireMailbox owner = .ok () → allowedIntroTtl (ttlSecs.getD shareTtlDefault) = true →
      promises.registers home.tokens random owner
  | mintContactCapability owner random =>
    home.requireMailbox owner = .ok () →
      promises.registers (home.sweepDeadTokensFor owner).2.tokens random owner
  | rotateContact owner _ _ random =>
    home.requireMailbox owner = .ok () →
      promises.registers (home.sweepDeadTokensFor owner).2.tokens random owner
  | noteGroupMembership identityId _ =>
    promises.knownMembers → (home.mailboxes.lookup identityId).isSome
  | ack _ auth _ => promises.smallAcks → auth.cursor.toNat < 2 ^ 63
  | appendInner inner => promises.decoded → ∃ bytes, InnerEnvelope.decodePadded bytes = .ok inner
  | enqueue outer => promises.decoded → ∃ bytes, OuterEnvelope.decode bytes = .ok outer
  | enqueueFromOwner _ _ _ outer =>
    promises.decoded → ∃ bytes, OuterEnvelope.decode bytes = .ok outer
  | _ => True

theorem HomeOp.meets_none (crypto : Crypto) (op : HomeOp) (home : HomeServer) :
    op.Meets crypto .none home := by
  cases op <;> simp [Meets, Promises.none]

/-! ## Edits -/

/-- The part of a peer the database keeps. -/
def PeerState.durable (p : PeerState) : ServerBundle × Bool × ℕ × ℕ :=
  (p.bundle, p.refused, p.lastRx, p.nextTx)

/-- A token value changes without changing its kind or its mailbox. -/
def TokenKind.SameKind : TokenKind → TokenKind → Prop
  | .share mailbox _ _ _, .share mailbox' _ _ _ => mailbox = mailbox'
  | .contact mailbox _ _ _, .contact mailbox' _ _ _ => mailbox = mailbox'
  | _, _ => False

/-- What `gc_mailbox` does to a mailbox and its journal, whether or not it drops a row. -/
def HomeServer.gcBox (home : HomeServer) (owner : IdentityId) (box : Mailbox) : HomeServer :=
  let (kept, dropped) := box.gc home.now home.limits.mailboxMaxAgeSecs home.limits.mailboxMaxBytes
  { home with
    mailboxes := home.mailboxes.insert owner kept
    dirty :=
      { home.dirty with
        mailboxDropped := home.dirty.mailboxDropped ++ dropped.map fun seq ↦ (owner, seq)
        identities :=
          if dropped.isEmpty then home.dirty.identities else home.dirty.identities.insert owner }
    history := home.history.evict owner dropped }

/-- What `ack` does to a mailbox and its journal when it drops a row. -/
def HomeServer.ackBox (home : HomeServer) (owner : IdentityId) (box : Mailbox) (upto : ℕ) :
    HomeServer :=
  { home with
    mailboxes := home.mailboxes.insert owner
      (((FiniteMap.sortedKeys box.rows).filter (· ≤ upto)).foldl Mailbox.ackRow box)
    dirty :=
      { home.dirty with
        mailboxAcked := HomeDirty.raiseMark home.dirty.mailboxAcked owner upto
        identities := home.dirty.identities.insert owner } }

/-- What registration does to mailboxes, directory and journal, with or without a card. -/
def HomeServer.addEntry (home : HomeServer) (identityId : IdentityId) (ownerPk : Key)
    (entry : Option DirectoryRow) : HomeServer :=
  { home.addMailbox identityId ownerPk with
    directory := match entry with
      | some row => home.directory.insert identityId row
      | none => home.directory }

@[simp] theorem HomeServer.mailboxes_addEntry (home : HomeServer) (identityId : IdentityId)
    (ownerPk : Key) (entry : Option DirectoryRow) :
    (home.addEntry identityId ownerPk entry).mailboxes =
      home.mailboxes.insert identityId (.new ownerPk) := rfl

theorem HomeServer.lookup_directory_addEntry (home : HomeServer) (identityId : IdentityId)
    (ownerPk : Key) (entry : Option DirectoryRow) (id : IdentityId) :
    (home.addEntry identityId ownerPk entry).directory.lookup id =
      if id = identityId then entry.or (home.directory.lookup id)
      else home.directory.lookup id := by
  cases entry with
  | none => rw [Option.none_or, ite_self, addEntry]
  | some row => rw [addEntry, FiniteMap.lookup_insert_ite, Option.some_or]

/-- The edits that append nothing, with what is promised about new tokens, acks and outbound rows. -/
inductive Edit (crypto : Crypto) (promises : Promises) : HomeServer → HomeServer → Prop
  | clock (home : HomeServer) (now : ℕ) : Edit crypto promises home { home with now }
  | nonces (home : HomeServer) (ownerNonces : FiniteMap Key ℕ) :
    Edit crypto promises home { home with ownerNonces }
  | sweepTime (home : HomeServer) : Edit crypto promises home home.recordTokenSweep
  | rebind (home : HomeServer) (host : Text) (s2sPort : UInt16) :
    Edit crypto promises home (home.rebindHost crypto host s2sPort)
  | pushToken (home : HomeServer) (token : Key) (kind : TokenKind)
    (hmailbox : home.requireMailbox kind.mailbox = .ok ())
    (hregisters : promises.registers home.tokens token kind.mailbox) :
    Edit crypto promises home (home.pushToken token kind)
  | setToken (home : HomeServer) (token : Key) (old kind : TokenKind)
    (hold : home.tokens.find token = some old) (hkind : old.SameKind kind) :
    Edit crypto promises home (home.setToken token kind)
  | dropTokens (home : HomeServer) (dead : List Key) :
    Edit crypto promises home
      { home with
        tokens := home.tokens.filter fun entry ↦ entry.1 ∉ dead
        dirty :=
          { home.dirty with
            tokens := home.dirty.tokens.filter (· ∉ dead)
            tokensDroppedExact := home.dirty.tokensDroppedExact ∪ dead } }
  | register (home : HomeServer) (identityId : IdentityId) (ownerPk : Key)
    (entry : Option DirectoryRow) (hnew : home.mailboxes.lookup identityId = none)
    (hentry : ∀ row ∈ entry, row.identityPublicKey = ownerPk) :
    Edit crypto promises home (home.addEntry identityId ownerPk entry)
  | putDirectory (home : HomeServer) (identityId : IdentityId) (row : DirectoryRow)
    (hkey : (∃ old, home.directory.lookup identityId = some old ∧
        old.identityPublicKey = row.identityPublicKey ∧ old.bindingSeq ≤ row.bindingSeq) ∨
      home.directory.lookup identityId = none ∧
        ∃ box, home.mailboxes.lookup identityId = some box ∧
          box.ownerPk = row.identityPublicKey) :
    Edit crypto promises home (home.putDirectory identityId row)
  | disable (home : HomeServer) (owner : IdentityId) :
    Edit crypto promises home (home.disableMailbox owner)
  | joinGroup (home : HomeServer) (identityId : IdentityId) (groupId : GroupId)
    (hknown : promises.knownMembers → (home.mailboxes.lookup identityId).isSome) :
    Edit crypto promises home
      { home with
        memberships := (home.noteGroupMembership identityId groupId).memberships
        dirty :=
          { home.dirty with
            memberships := (home.noteGroupMembership identityId groupId).dirty.memberships } }
  | leaveGroups (home : HomeServer) (identityId : IdentityId) :
    Edit crypto promises home
      { home with
        memberships := (home.takeMemberships identityId).2.memberships
        dirty :=
          { home.dirty with
            memberships := (home.takeMemberships identityId).2.dirty.memberships } }
  | setPrekeys (home : HomeServer) (owner : IdentityId) (queue : List Bytes)
    (hknown : home.requireMailbox owner = .ok () ∨
      ∃ old, home.prekeys.lookup owner = some old ∧ old ≠ []) :
    Edit crypto promises home (home.setPrekeys owner queue)
  | peers (home : HomeServer) (peers : FiniteMap ServerId PeerState) (marked : List ServerId)
    (hmarked : home.dirty.peers ⊆ marked)
    (hkept : ∀ p, (home.peers.lookup p).isSome → (peers.lookup p).isSome)
    (hsame : ∀ p ∉ marked,
      (peers.lookup p).map PeerState.durable = (home.peers.lookup p).map PeerState.durable) :
    Edit crypto promises home { home with peers, dirty := { home.dirty with peers := marked } }
  | gc (home : HomeServer) (owner : IdentityId) (box : Mailbox)
    (hbox : home.mailboxes.lookup owner = some box) :
    Edit crypto promises home (home.gcBox owner box)
  | ack (home : HomeServer) (owner : IdentityId) (box : Mailbox) (upto : ℕ)
    (hbox : home.mailboxes.lookup owner = some box) (hrange : promises.smallAcks → upto < 2 ^ 63) :
    Edit crypto promises home (home.ackBox owner box upto)
  | outbound (home : HomeServer) (rows : List OutboundRow)
    (hsmall : promises.decoded → ∀ row ∈ rows, (∃ old ∈ home.outbound, old.outer = row.outer) ∨
      row.outer.hpkeCiphertext.length < 2 ^ 32) :
    Edit crypto promises home (home.setOutbound rows)

/-- All edits: those that append a row, remember an encapsulated key or note an answer, and the
others. -/
inductive LoudEdit (crypto : Crypto) (promises : Promises) : HomeServer → HomeServer → Prop
  | quiet {home home' : HomeServer} (h : Edit crypto promises home home') :
    LoudEdit crypto promises home home'
  | store (home : HomeServer) (mailbox : IdentityId) (box : Mailbox) (inner : InnerEnvelope)
    (padded : Bytes) (hbox : home.mailboxes.lookup mailbox = some box)
    (hlive : home.mailboxDisabled mailbox = false)
    (hidem : box.idempotency.lookup inner.idempotencyToken = none)
    (hencode : inner.encodePadded = .ok padded) (hcanonical : promises.decoded → inner.Canonical) :
    LoudEdit crypto promises home (home.storeRow mailbox box inner padded.length)
  | remember (home : HomeServer) (enc : Key) (seq : ℕ) (hnew : home.seenEnc.lookup enc = none) :
    LoudEdit crypto promises home (home.rememberEnc enc seq)
  | note (home : HomeServer) (outer : OuterEnvelope) (seq : ℕ) :
    LoudEdit crypto promises home (home.noteIngested outer seq)

abbrev Edits (crypto : Crypto) (promises : Promises) := Chain (Edit crypto promises)

abbrev LoudEdits (crypto : Crypto) (promises : Promises) := Chain (LoudEdit crypto promises)

theorem Edits.loud {crypto : Crypto} {promises : Promises} {home home' : HomeServer}
    (h : Edits crypto promises home home') : LoudEdits crypto promises home home' :=
  h.lift id fun _ _ hedit ↦ .quiet hedit

namespace HomeServer

variable (crypto : Crypto) (promises : Promises)

/-! ## Tokens -/

theorem dropTokensExact_edits (home : HomeServer) (dead : List Key) :
    Edits crypto promises home (home.dropTokensExact dead).2 := by
  unfold dropTokensExact
  split
  · exact .refl
  · exact .single (.dropTokens home dead)

theorem keys_dropTokensExact_subset (home : HomeServer) (dead : List Key) :
    (home.dropTokensExact dead).2.tokens.keys ⊆ home.tokens.keys := by
  unfold dropTokensExact
  split
  · exact fun _ h ↦ h
  · exact List.Sublist.subset (List.Sublist.map _ List.filter_sublist)

theorem registerShareToken_edits (home : HomeServer) (owner : IdentityId) (token : Key)
    (ttlSecs : Option UInt64)
    (hregisters : home.requireMailbox owner = .ok () →
      allowedIntroTtl (ttlSecs.getD shareTtlDefault) = true →
        promises.registers home.tokens token owner) :
    Edits crypto promises home (home.registerShareToken owner token ttlSecs).2 := by
  unfold registerShareToken
  split
  · exact .refl
  · rename_i howner
    dsimp only
    split
    · exact .refl
    · rename_i httl
      exact .single (.pushToken home token _ howner (hregisters howner (by simpa using httl)))

theorem mintShareToken_edits (home : HomeServer) (owner : IdentityId) (ttlSecs : Option UInt64)
    (random : Key)
    (hregisters : home.requireMailbox owner = .ok () →
      allowedIntroTtl (ttlSecs.getD shareTtlDefault) = true →
        promises.registers home.tokens random owner) :
    Edits crypto promises home (home.mintShareToken owner ttlSecs random).2 := by
  have h := registerShareToken_edits crypto promises home owner random ttlSecs hregisters
  unfold mintShareToken
  split <;> rename_i heq <;> rw [heq] at h <;> exact h

@[simp] theorem mailboxes_dropTokensExact (home : HomeServer) (dead : List Key) :
    (home.dropTokensExact dead).2.mailboxes = home.mailboxes := by
  unfold dropTokensExact
  split <;> rfl

theorem requireMailbox_dropTokensExact (home : HomeServer) (dead : List Key) (owner : IdentityId) :
    (home.dropTokensExact dead).2.requireMailbox owner = home.requireMailbox owner := by
  rw [requireMailbox, requireMailbox, mailboxes_dropTokensExact]

theorem mintContactCapability_edits (home : HomeServer) (owner : IdentityId) (random : Key)
    (hregisters : home.requireMailbox owner = .ok () →
      promises.registers (home.sweepDeadTokensFor owner).2.tokens random owner) :
    Edits crypto promises home (home.mintContactCapability owner random).2 := by
  unfold mintContactCapability
  split
  · exact .refl
  · rename_i howner
    refine .tail (dropTokensExact_edits crypto promises home _) (.pushToken _ random _ ?_ (hregisters howner))
    exact (requireMailbox_dropTokensExact home _ owner).trans howner

theorem rotateContact_edits (home : HomeServer) (owner : IdentityId) (old : Key) (confirm : Bool)
    (random : Key)
    (hregisters : home.requireMailbox owner = .ok () →
      promises.registers (home.sweepDeadTokensFor owner).2.tokens random owner) :
    Edits crypto promises home (home.rotateContact owner old confirm random).2 := by
  have h := mintContactCapability_edits crypto promises home owner random hregisters
  unfold rotateContact
  split
  · rename_i heq
    rwa [heq] at h
  · rename_i heq
    rw [heq] at h
    split
    · split
      · rename_i hold
        split
        · exact h.tail (.setToken _ old _ _ hold rfl)
        · exact h
      · exact h
    · exact h

/-! ## Registration and directory -/

theorem register_edits (home : HomeServer) (identityId : IdentityId) (ownerPk : Key) :
    Edits crypto promises home (home.register identityId ownerPk).2 := by
  unfold register
  split
  · exact .refl
  · rename_i hnew
    exact .single (.register home identityId ownerPk none (by simpa using hnew)
      fun _ h ↦ by cases h)

theorem registerFromCard_edits (home : HomeServer) (card : ContactCard)
    (hregisters : card.verify crypto home.now = .ok () →
      card.binding.serverId = home.serverId crypto →
        home.mailboxes.lookup (card.identityId crypto) = none →
          promises.registers home.tokens card.shareToken (card.identityId crypto)) :
    Edits crypto promises home (home.registerFromCard crypto card).2 := by
  unfold registerFromCard
  split
  · exact .refl
  · rename_i hverify
    split
    · exact .refl
    · rename_i hserver
      dsimp only
      unfold register
      by_cases hnew : home.mailboxes.lookup (card.identityId crypto) = none
      · rw [hnew, if_neg (by simp)]
        dsimp only
        set row : DirectoryRow :=
          { identityPublicKey := card.identityPublicKey
            revocationPublicKey := card.revocationPublicKey
            binding := card.binding
            bindingSeq := card.binding.seq
            revocation := none }
        have hentry : Edit crypto promises home
            { home.addMailbox (card.identityId crypto) card.identityPublicKey with
              directory := (home.addMailbox (card.identityId crypto)
                card.identityPublicKey).directory.insert (card.identityId crypto) row } := by
          refine .register home _ card.identityPublicKey (some row) hnew ?_
          rintro _ ⟨⟩
          rfl
        have htoken := (Relation.ReflTransGen.single hentry).trans
          (registerShareToken_edits crypto promises _ (card.identityId crypto) card.shareToken none
            fun _ _ ↦ hregisters hverify (not_not.mp hserver) hnew)
        split <;> rename_i heq <;> rw [heq] at htoken <;> exact htoken
      · have hsome : (home.mailboxes.lookup (card.identityId crypto)).isSome := by
          simpa [Option.isSome_iff_ne_none] using hnew
        simp only [if_pos hsome]
        exact .refl

theorem putDirectory_boundRow_edit {home : HomeServer} {identityId : IdentityId} {pk : Key}
    (hpk : home.bindingKey identityId = some pk) {binding : HomeServerBinding}
    (hnewer : ¬ binding.seq ≤ ((home.directory.lookup identityId).map (·.bindingSeq)).getD 0) :
    Edit crypto promises home
      (home.putDirectory identityId (home.boundRow identityId pk binding)) := by
  refine .putDirectory home identityId _ ?_
  unfold bindingKey at hpk
  unfold boundRow
  split at hpk
  · rename_i old hold
    rw [hold] at hnewer
    exact .inl ⟨old, hold, rfl, UInt64.le_of_lt (UInt64.not_le.mp hnewer)⟩
  · rename_i hnone
    obtain ⟨box, hbox, hkey⟩ := Option.map_eq_some_iff.mp hpk
    exact .inr ⟨hnone, box, hbox, hkey⟩

theorem observeBinding_edits (home : HomeServer) (identityId : IdentityId)
    (binding : HomeServerBinding) :
    Edits crypto promises home (home.observeBinding crypto identityId binding).2 := by
  unfold observeBinding
  split
  · exact .refl
  · rename_i pk hpk
    split
    · exact .refl
    · split
      · exact .refl
      · split
        · exact .refl
        · dsimp only
          by_cases hold : binding.seq ≤
              ((home.directory.lookup identityId).map (·.bindingSeq)).getD 0
          · rw [if_pos hold]
          · have hput := putDirectory_boundRow_edit crypto promises hpk hold
            rw [if_neg hold]
            split_ifs
            · exact (Relation.ReflTransGen.single hput).tail (.disable _ identityId)
            · exact .single hput

theorem takeMemberships_edits (home : HomeServer) (identityId : IdentityId) :
    Edits crypto promises home (home.takeMemberships identityId).2 := by
  have hedit : Edit crypto promises home _ := .leaveGroups home identityId
  unfold takeMemberships at hedit ⊢
  split at hedit <;> exact .single hedit

theorem noteGroupMembership_edits (home : HomeServer) (identityId : IdentityId) (groupId : GroupId)
    (hknown : promises.knownMembers → (home.mailboxes.lookup identityId).isSome) :
    Edits crypto promises home (home.noteGroupMembership identityId groupId) := by
  have hedit : Edit crypto promises home _ := .joinGroup home identityId groupId hknown
  unfold noteGroupMembership at hedit ⊢
  dsimp only at hedit ⊢
  split at hedit <;> rename_i h
  · rw [if_pos h]
    exact .single hedit
  · rw [if_neg h]
    exact .single hedit

theorem ingestRevocation_edits (home : HomeServer) (stmt : RevocationStatement) :
    Edits crypto promises home (home.ingestRevocation crypto stmt).2 := by
  unfold ingestRevocation
  split
  · exact .refl
  · rename_i row hrow
    split
    · exact .refl
    · split
      · exact .refl
      · split
        · exact .refl
        · have hput : Edit crypto promises home
              (home.putDirectory stmt.identityId { row with revocation := some stmt }) :=
            .putDirectory home _ _ (.inl ⟨row, hrow, rfl, UInt64.le_refl _⟩)
          exact ((Relation.ReflTransGen.single hput).tail (.disable _ stmt.identityId)).trans
            (takeMemberships_edits crypto promises _ stmt.identityId)

/-! ## Prekeys -/

theorem isSome_of_requireMailbox {home : HomeServer} {owner : IdentityId}
    (h : home.requireMailbox owner = .ok ()) : (home.mailboxes.lookup owner).isSome := by
  unfold requireMailbox at h
  split at h
  · rename_i hbox
    rw [hbox]
    rfl
  · cases h

theorem publishPrekey_edits (home : HomeServer) (owner : IdentityId) (blob : Bytes) :
    Edits crypto promises home (home.publishPrekey owner blob).2 := by
  unfold publishPrekey
  split
  · exact .refl
  · rename_i howner
    exact .single (.setPrekeys home owner _ (.inl howner))

theorem fetchPrekey_edits (home : HomeServer) (token : Key) :
    Edits crypto promises home (home.fetchPrekey token).2 := by
  unfold fetchPrekey
  split
  · rename_i mailbox expiresAt burned reserved htoken
    split_ifs
    · split
      · exact .refl
      · unfold reservePrekey
        split
        · rename_i blob rest hqueue
          have hset : Edit crypto promises home (home.setPrekeys mailbox rest) :=
            .setPrekeys home mailbox rest (.inr ⟨_, hqueue, List.cons_ne_nil _ _⟩)
          exact (Relation.ReflTransGen.single hset).tail (.setToken _ token _ _ htoken rfl)
        · exact .refl
    · exact .refl
  · exact .refl

/-! ## Appends -/

theorem authorizeAppend_edits (home : HomeServer) (token : Key) :
    Edits crypto promises home (home.authorizeAppend token).2 := by
  unfold authorizeAppend
  dsimp only
  split
  · split_ifs <;> exact .refl
  · rename_i htoken
    split_ifs
    all_goals first
      | exact .refl
      | exact .single (.setToken home token _ _ htoken rfl)
  · exact .refl

theorem burnIfShare_edits (home : HomeServer) (token : Key) :
    Edits crypto promises home (home.burnIfShare token) := by
  unfold burnIfShare
  split
  · rename_i htoken
    split_ifs
    · exact .refl
    · exact .single (.setToken home token _ _ htoken rfl)
  · exact .refl

/-- An authorised append names a mailbox that is not disabled. -/
theorem authorizeAppend_eq_ok {home home' : HomeServer} {token : Key} {mailbox : IdentityId}
    (h : home.authorizeAppend token = (.ok mailbox, home')) :
    home'.mailboxDisabled mailbox = false ∧ home.capabilityMailbox token = some mailbox := by
  unfold authorizeAppend at h
  dsimp only at h
  split at h
  · rename_i htoken
    split_ifs at h with hlive hdisabled
    all_goals cases h
    exact ⟨by simpa using hdisabled, by rw [capabilityMailbox, htoken]; rfl⟩
  · rename_i htoken
    split_ifs at h with hgrace hwindow hrate hdisabled hrate hdisabled
    all_goals cases h
    all_goals exact ⟨by simpa using hdisabled, by rw [capabilityMailbox, htoken]; rfl⟩
  · cases h

theorem gcMailbox_edits (home : HomeServer) (owner : IdentityId) :
    Edits crypto promises home (home.gcMailbox owner) := by
  unfold gcMailbox
  split
  · exact .refl
  · rename_i box hbox
    have hedit : Edit crypto promises home (home.gcBox owner box) := .gc home owner box hbox
    unfold gcBox at hedit
    dsimp only at hedit ⊢
    split at hedit <;> rename_i hempty
    · rw [if_pos hempty]
      rw [List.isEmpty_iff.mp hempty, List.map_nil, List.append_nil] at hedit
      rw [List.isEmpty_iff.mp hempty]
      exact .single hedit
    · rw [if_neg hempty]
      exact .single hedit

theorem ackRows_edits {home : HomeServer} {owner : IdentityId} {box : Mailbox} {upto : ℕ}
    (hbox : home.mailboxes.lookup owner = some box) (hrange : promises.smallAcks → upto < 2 ^ 63) :
    Edits crypto promises home (home.ackRows owner box upto) := by
  unfold ackRows
  dsimp only
  split
  · exact .refl
  · exact .single (.ack home owner box upto hbox hrange)

theorem appendInner_edits (home : HomeServer) (inner : InnerEnvelope)
    (hcanonical : promises.decoded → inner.Canonical) :
    LoudEdits crypto promises home (home.appendInner inner).2 := by
  have hauth := (authorizeAppend_edits crypto promises home
    inner.deliveryCapability).loud
  unfold appendInner
  split
  · rename_i heq
    rwa [heq] at hauth
  · rename_i mailbox home' heq
    rw [heq] at hauth
    dsimp only at hauth
    split
    · exact hauth
    · rename_i box hbox
      split
      · exact hauth
      · rename_i hidem
        split
        · exact hauth
        · rename_i padded hencode
          have hstore : LoudEdit crypto promises home'
              (home'.storeRow mailbox box inner padded.length) :=
            .store home' mailbox box inner padded hbox (authorizeAppend_eq_ok heq).1 hidem hencode
              hcanonical
          exact ((hauth.tail hstore).trans (burnIfShare_edits crypto promises _ _).loud).trans
            (gcMailbox_edits crypto promises _ _).loud

/-- Authorising an append touches tokens and their journal only. -/
theorem authorizeAppend_frame (home : HomeServer) (token : Key) :
    ∃ tokens dirty, (home.authorizeAppend token).2 = { home with tokens, dirty } := by
  unfold authorizeAppend
  dsimp only
  split
  · split_ifs <;> exact ⟨_, _, rfl⟩
  · split_ifs <;> exact ⟨_, _, rfl⟩
  · exact ⟨_, _, rfl⟩

theorem burnIfShare_frame (home : HomeServer) (token : Key) :
    ∃ tokens dirty, home.burnIfShare token = { home with tokens, dirty } := by
  unfold burnIfShare
  split
  · split_ifs <;> exact ⟨_, _, rfl⟩
  · exact ⟨_, _, rfl⟩

/-- Garbage collection right after a row was stored. -/
theorem gcMailbox_insert (home : HomeServer) (owner : IdentityId) (box : Mailbox) :
    ∃ dirty, gcMailbox { home with mailboxes := home.mailboxes.insert owner box } owner =
      { home with
        mailboxes := home.mailboxes.insert owner
          (box.gc home.now home.limits.mailboxMaxAgeSecs home.limits.mailboxMaxBytes).1
        dirty
        history := home.history.evict owner
          (box.gc home.now home.limits.mailboxMaxAgeSecs home.limits.mailboxMaxBytes).2 } := by
  unfold gcMailbox
  rw [AList.lookup_insert]
  dsimp only
  rw [AList.insert_insert]
  split_ifs <;> exact ⟨_, rfl⟩

/-- The three outcomes of `append_inner`: refused, answered from the idempotency map, or stored. -/
theorem appendInner_cases (home : HomeServer) (inner : InnerEnvelope) :
    (∃ e tokens dirty, home.appendInner inner = (.error e, { home with tokens, dirty })) ∨
    ∃ mailbox box tokens dirty, home.capabilityMailbox inner.deliveryCapability = some mailbox ∧
      home.mailboxes.lookup mailbox = some box ∧ box.disabled = false ∧
      ((∃ seq, box.idempotency.lookup inner.idempotencyToken = some seq ∧
          home.appendInner inner = (.ok seq, { home with tokens, dirty })) ∨
        ∃ padded, box.idempotency.lookup inner.idempotencyToken = none ∧
          inner.encodePadded = .ok padded ∧
          home.appendInner inner = (.ok box.nextSeq,
            { home with
              mailboxes := home.mailboxes.insert mailbox
                ((box.push home.now home.limits.mailboxMaxAgeSecs inner padded.length).gc home.now
                  home.limits.mailboxMaxAgeSecs home.limits.mailboxMaxBytes).1
              tokens
              dirty
              history :=
                History.evict
                  { home.history with
                    appended := home.history.appended ++ [(mailbox, home.newRow box inner)] }
                  mailbox
                  ((box.push home.now home.limits.mailboxMaxAgeSecs inner padded.length).gc
                    home.now home.limits.mailboxMaxAgeSecs
                    home.limits.mailboxMaxBytes).2 })) := by
  obtain ⟨tokens, dirty, hauth⟩ := authorizeAppend_frame home inner.deliveryCapability
  unfold appendInner
  split
  · rename_i heq
    rw [heq] at hauth
    exact .inl ⟨_, tokens, dirty, by rw [← hauth]⟩
  · rename_i mailbox home' heq
    obtain ⟨hlive, hcap⟩ := authorizeAppend_eq_ok heq
    rw [heq] at hauth
    obtain rfl : home' = { home with tokens, dirty } := hauth
    split
    · exact .inl ⟨_, tokens, dirty, rfl⟩
    · rename_i box hbox
      have hdisabled : box.disabled = false := by
        rw [mailboxDisabled, hbox] at hlive
        exact hlive
      split
      · rename_i seq hseq
        exact .inr ⟨mailbox, box, tokens, dirty, hcap, hbox, hdisabled, .inl ⟨seq, hseq, rfl⟩⟩
      · rename_i hnone
        split
        · exact .inl ⟨_, tokens, dirty, rfl⟩
        · rename_i padded hpadded
          obtain ⟨tokens', dirty', hburn⟩ := burnIfShare_frame
            (storeRow { home with tokens, dirty } mailbox box inner padded.length)
            inner.deliveryCapability
          obtain ⟨dirty'', hgc⟩ := gcMailbox_insert
            { home with
              tokens := tokens'
              dirty := dirty'
              history :=
                { home.history with
                  appended := home.history.appended ++ [(mailbox, home.newRow box inner)] } }
            mailbox (box.push home.now home.limits.mailboxMaxAgeSecs inner padded.length)
          refine .inr ⟨mailbox, box, tokens', dirty'', hcap, hbox, hdisabled,
            .inr ⟨padded, hnone, hpadded, ?_⟩⟩
          rw [hburn]
          exact congrArg (Prod.mk _) hgc

theorem seenEnc_appendInner (home : HomeServer) (inner : InnerEnvelope) :
    (home.appendInner inner).2.seenEnc = home.seenEnc := by
  rcases appendInner_cases home inner with
    ⟨_, _, _, h⟩ | ⟨_, _, _, _, -, -, -, ⟨_, -, h⟩ | ⟨_, -, -, h⟩⟩ <;> rw [h]

theorem ingest_edits (home : HomeServer) (outer : OuterEnvelope) :
    LoudEdits crypto promises home (home.ingest crypto outer).2 := by
  unfold ingest
  split
  · exact .refl
  · rename_i enc _
    split
    · exact .single (.note home outer _)
    · rename_i hnew
      split
      · exact .refl
      · rename_i inner hopen
        have happend := appendInner_edits crypto promises home inner
          fun _ ↦ crypto.canonical_of_openOuter hopen
        have hseen := seenEnc_appendInner home inner
        split
        · rename_i heq
          rwa [heq] at happend
        · rename_i seq home' heq
          rw [heq] at happend hseen
          exact (happend.tail (.remember home' enc seq (hseen ▸ hnew))).tail (.note _ outer seq)

/-- The outcomes of `ingest`: refused, answered from the replay window, or opened and appended. -/
theorem ingest_cases (home : HomeServer) (outer : OuterEnvelope) :
    (∃ e tokens dirty, home.ingest crypto outer = (.error e, { home with tokens, dirty })) ∨
    ∃ enc, encapKey outer.hpkeCiphertext = .ok enc ∧
      ((∃ seq, home.seenEnc.lookup enc = some seq ∧
          home.ingest crypto outer = (.ok seq, home.noteIngested outer seq)) ∨
        ∃ inner seq home', home.seenEnc.lookup enc = none ∧
          crypto.openOuter home.hpke outer = .ok inner ∧
          home.appendInner inner = (.ok seq, home') ∧
          home.ingest crypto outer =
            (.ok seq, (home'.rememberEnc enc seq).noteIngested outer seq)) := by
  unfold ingest
  split
  · exact .inl ⟨_, home.tokens, home.dirty, rfl⟩
  · rename_i enc henc
    split
    · rename_i seq hseq
      exact .inr ⟨enc, henc, .inl ⟨seq, hseq, rfl⟩⟩
    · rename_i hnew
      split
      · exact .inl ⟨_, home.tokens, home.dirty, rfl⟩
      · rename_i inner hopen
        split
        · rename_i e home' heq
          rcases appendInner_cases home inner with
            ⟨e', tokens, dirty, h⟩ | ⟨_, _, _, _, -, -, -, ⟨_, -, h⟩ | ⟨_, -, -, h⟩⟩
          · rw [h] at heq
            cases heq
            exact .inl ⟨_, tokens, dirty, rfl⟩
          · rw [h] at heq
            cases heq
          · rw [h] at heq
            cases heq
        · rename_i seq home' heq
          exact .inr ⟨enc, henc, .inr ⟨inner, seq, home', hnew, hopen, heq, rfl⟩⟩

end HomeServer

/-! ## Steps -/

/-- A quiet edit, or an append or ingest as a whole. -/
inductive Step (crypto : Crypto) (promises : Promises) : HomeServer → HomeServer → Prop
  | quiet {home home' : HomeServer} (h : Edit crypto promises home home') :
    Step crypto promises home home'
  | append (home : HomeServer) (inner : InnerEnvelope) (hcanonical : promises.decoded → inner.Canonical) :
    Step crypto promises home (home.appendInner inner).2
  | ingest (home : HomeServer) (outer : OuterEnvelope) :
    Step crypto promises home (home.ingest crypto outer).2

abbrev Steps (crypto : Crypto) (promises : Promises) := Chain (Step crypto promises)

theorem Edits.steps {crypto : Crypto} {promises : Promises} {home home' : HomeServer}
    (h : Edits crypto promises home home') : Steps crypto promises home home' :=
  h.lift id fun _ _ hedit ↦ .quiet hedit

theorem Steps.loud {crypto : Crypto} {promises : Promises} {home home' : HomeServer}
    (h : Steps crypto promises home home') : LoudEdits crypto promises home home' := by
  induction h with
  | refl => exact .refl
  | tail _ hlast ih =>
    apply ih.trans
    cases hlast with
    | quiet h => exact .single (.quiet h)
    | append inner hcanonical => exact HomeServer.appendInner_edits crypto promises _ inner hcanonical
    | ingest outer => exact HomeServer.ingest_edits crypto promises _ outer

namespace HomeServer

variable (crypto : Crypto) (promises : Promises)

/-! ## Owner requests -/

theorem checkOwner_edits (home : HomeServer) (owner : IdentityId) (auth : MailboxOwnerAuth)
    (nowUnix : ℕ) (expect : AuthScope) :
    Edits crypto promises home (home.checkOwner crypto owner auth nowUnix expect).2 := by
  unfold checkOwner
  split
  · exact .refl
  · split
    · exact .refl
    · split
      · exact .refl
      · split
        · exact .refl
        · split
          · exact .refl
          · dsimp only
            split <;> exact .single (.nonces home _)

theorem fetch_edits (home : HomeServer) (owner : IdentityId) (auth : MailboxOwnerAuth)
    (nowUnix : ℕ) : Edits crypto promises home (home.fetch crypto owner auth nowUnix).2 := by
  have howner := checkOwner_edits crypto promises home owner auth nowUnix
    (AuthScope.body (home.serverId crypto) "POST" "/v1/mailbox/fetch")
  unfold fetch
  dsimp only
  split
  · rename_i heq
    rwa [heq] at howner
  · rename_i heq
    rw [heq] at howner
    split
    · exact howner
    · split
      · exact howner.trans (gcMailbox_edits crypto promises _ owner)
      · exact howner.trans (gcMailbox_edits crypto promises _ owner)

theorem ack_edits (home : HomeServer) (owner : IdentityId) (auth : MailboxOwnerAuth) (nowUnix : ℕ)
    (hrange : promises.smallAcks → auth.cursor.toNat < 2 ^ 63) :
    Edits crypto promises home (home.ack crypto owner auth nowUnix).2 := by
  have howner := checkOwner_edits crypto promises home owner auth nowUnix
    (AuthScope.body (home.serverId crypto) "POST" "/v1/mailbox/ack")
  unfold ack
  dsimp only
  split
  · rename_i heq
    rwa [heq] at howner
  · rename_i heq
    rw [heq] at howner
    split
    · exact howner
    · rename_i box hbox
      exact howner.trans (ackRows_edits crypto promises hbox hrange)

/-! ## Outbound queue -/

theorem enqueue_steps (home : HomeServer) (outer : OuterEnvelope)
    (hsmall : promises.decoded → outer.hpkeCiphertext.length < 2 ^ 32) :
    Steps crypto promises home (home.enqueue crypto outer).2 := by
  have hingest : Steps crypto promises home (home.ingest crypto outer).2 := .single (.ingest home outer)
  unfold enqueue
  split
  · split <;> rename_i heq <;> rw [heq] at hingest <;> exact hingest
  · refine .single (.quiet (.outbound home _ ?_))
    intro hstrict row hrow
    rcases List.mem_append.mp hrow with hold | hnew
    · exact .inl ⟨row, hold, rfl⟩
    · obtain rfl := List.mem_singleton.mp hnew
      exact .inr (hsmall hstrict)

theorem enqueueFromOwner_steps (home : HomeServer) (owner : IdentityId) (auth : MailboxOwnerAuth)
    (nowUnix : ℕ) (outer : OuterEnvelope)
    (hsmall : promises.decoded → outer.hpkeCiphertext.length < 2 ^ 32) :
    Steps crypto promises home (home.enqueueFromOwner crypto owner auth nowUnix outer).2 := by
  have howner := (checkOwner_edits crypto promises home owner auth nowUnix
    (AuthScope.header crypto (home.serverId crypto) "POST" "/v1/envelopes" outer.encode)).steps
  unfold enqueueFromOwner
  dsimp only
  split
  · rename_i heq
    rwa [heq] at howner
  · rename_i heq
    rw [heq] at howner
    split
    · exact howner
    · exact howner.trans (enqueue_steps crypto promises _ outer hsmall)

/-- A queue whose envelopes were all queued before. -/
theorem setOutbound_edit {home : HomeServer} {rows : List OutboundRow}
    (h : ∀ row ∈ rows, ∃ old ∈ home.outbound, old.outer = row.outer) :
    Edit crypto promises home (home.setOutbound rows) :=
  .outbound home rows fun _ row hrow ↦ .inl (h row hrow)

theorem exists_outer_of_mem_modify {rows : List OutboundRow} {i now : ℕ} {row : OutboundRow}
    (h : row ∈ rows.modify i (·.backoff now)) : ∃ old ∈ rows, old.outer = row.outer := by
  obtain ⟨j, hj, rfl⟩ := List.mem_iff_getElem.mp h
  rw [List.length_modify] at hj
  refine ⟨rows[j], List.getElem_mem hj, ?_⟩
  rw [List.getElem_modify]
  split <;> rfl

/-! ## Peers and frames -/

/-- A peer's state may change in any way when the change is journaled. -/
theorem markedPeer_edit (home : HomeServer) (peer : ServerId) (state : PeerState) :
    Edit crypto promises home ((home.putPeer peer state).markPeerDirty peer) := by
  refine .peers home _ _ (fun _ h ↦ List.mem_insert_of_mem h) ?_ ?_
  · intro p hp
    rw [putPeer, FiniteMap.lookup_insert_ite]
    split
    · rfl
    · exact hp
  · intro p hp
    have hne : p ≠ peer := fun h ↦ hp (h ▸ List.mem_insert_self)
    rw [putPeer, FiniteMap.lookup_insert_ite, if_neg hne]

/-- Without a journal entry only what the database does not keep may change. -/
theorem putPeer_edit {home : HomeServer} {peer : ServerId} {old state : PeerState}
    (hold : home.peers.lookup peer = some old) (hsame : state.durable = old.durable) :
    Edit crypto promises home (home.putPeer peer state) := by
  refine .peers home _ home.dirty.peers (fun _ h ↦ h) ?_ ?_
  · intro p hp
    rw [FiniteMap.lookup_insert_ite]
    split
    · rfl
    · exact hp
  · intro p _
    rw [FiniteMap.lookup_insert_ite]
    split_ifs with hp
    · rw [hp, hold, Option.map_some, Option.map_some, hsame]
    · rfl

end HomeServer

theorem durable_rollWindow (p : PeerState) (now : ℕ) :
    (p.rollWindow now).durable = p.durable := by
  unfold PeerState.rollWindow
  split <;> rfl

/-- What holds between two states when peers or queued rows have changed, and over any number of such
changes. -/
structure Links (R : HomeServer → HomeServer → Prop) : Prop where
  refl : ∀ home, R home home
  trans : ∀ home mid home', R home mid → R mid home' → R home home'
  marked : ∀ (home : HomeServer) (peer : ServerId) (state : PeerState),
    R home ((home.putPeer peer state).markPeerDirty peer)
  put : ∀ (home : HomeServer) (peer : ServerId) (old state : PeerState),
    home.peers.lookup peer = some old → state.durable = old.durable → R home (home.putPeer peer state)
  queue : ∀ (home : HomeServer) (rows : List OutboundRow),
    (∀ row ∈ rows, ∃ old ∈ home.outbound, old.outer = row.outer) → R home (home.setOutbound rows)

/-- The same, when ciphertexts are ingested too. -/
structure Carries (crypto : Crypto) (R : HomeServer → HomeServer → Prop) : Prop extends Links R where
  ingest : ∀ (home : HomeServer) (outer : OuterEnvelope), R home (home.ingest crypto outer).2

theorem carries_steps (crypto : Crypto) (promises : Promises) :
    Carries crypto (Steps crypto promises) where
  refl _ := .refl
  trans _ _ _ h h' := h.trans h'
  marked home peer state := .single (.quiet (home.markedPeer_edit crypto promises peer state))
  put _ _ _ _ hold hsame := .single (.quiet (HomeServer.putPeer_edit crypto promises hold hsame))
  queue _ _ h := .single (.quiet (HomeServer.setOutbound_edit crypto promises h))
  ingest home outer := .single (.ingest home outer)

namespace Links

variable {R : HomeServer → HomeServer → Prop} (h : Links R)

include h

theorem queue_of_subset {home : HomeServer} {rows : List OutboundRow} (hrows : rows ⊆ home.outbound) :
    R home (home.setOutbound rows) :=
  h.queue home rows fun row hrow ↦ ⟨row, hrows hrow, rfl⟩

theorem deferOutbound (home : HomeServer) (time : ℕ) : R home (home.deferOutbound time) := by
  unfold HomeServer.deferOutbound
  split
  · exact h.refl home
  · refine h.queue home _ fun row hrow ↦ ?_
    obtain ⟨old, hold, rfl⟩ := List.mem_map.mp hrow
    exact ⟨old, hold, rfl⟩

theorem removeMatchingOutbound (home : HomeServer) (row : OutboundRow) :
    R home (home.removeMatchingOutbound row) := by
  unfold HomeServer.removeMatchingOutbound
  split
  · exact h.queue_of_subset List.eraseP_subset
  · exact h.refl home

theorem purgeExpired (home : HomeServer) (dest : ServerId) :
    R home (home.purgeExpired dest).2 := by
  unfold HomeServer.purgeExpired
  dsimp only
  split
  · exact h.queue_of_subset (List.filter_subset_self _)
  · exact h.refl home

theorem backoffRow (home : HomeServer) (row : OutboundRow) : R home (home.backoffRow row) := by
  unfold HomeServer.backoffRow
  split
  · exact h.refl home
  · exact h.queue home _ fun _ hmem ↦ HomeServer.exists_outer_of_mem_modify hmem

theorem pin (crypto : Crypto) (home : HomeServer) (bundle : ServerBundle) :
    R home (home.pin crypto bundle).2 := by
  unfold HomeServer.pin
  split
  · exact h.refl home
  · dsimp only
    split
    · exact h.refl home
    · exact h.marked home _ _

theorem refuse (home : HomeServer) (peer : ServerId) : R home (home.refuse peer) := by
  unfold HomeServer.refuse
  split
  · exact h.refl home
  · exact h.marked home _ _

theorem applySignRotate (crypto : Crypto) (home : HomeServer) (peer : ServerId)
    (rotate : ServerSignRotate) : R home (home.applySignRotate crypto peer rotate).2 := by
  unfold HomeServer.applySignRotate
  split
  · exact h.refl home
  · split
    · exact h.refl home
    · split
      · exact h.refl home
      · exact h.marked home _ _

theorem resetLink (home : HomeServer) (peer : ServerId) : R home (home.resetLink peer) := by
  unfold HomeServer.resetLink
  split
  · exact h.refl home
  · exact h.marked home _ _

theorem noteHello (home : HomeServer) (peer : ServerId) : R home (home.noteHello peer) := by
  unfold HomeServer.noteHello
  split
  · exact h.refl home
  · rename_i hpeer
    exact h.put home peer _ _ hpeer rfl

theorem takeFrame (home : HomeServer) (peer : ServerId) (payload : Bytes) :
    R home (home.takeFrame peer payload).2 := by
  unfold HomeServer.takeFrame
  split
  · exact h.refl home
  · split
    · exact h.refl home
    · exact h.marked home _ _

end Links

namespace Carries

variable {crypto : Crypto} {R : HomeServer → HomeServer → Prop} (h : Carries crypto R)

include h

theorem handleCiphertext (home : HomeServer) (from_ : ServerId) (ct : Bytes) :
    R home (home.handleCiphertext crypto from_ ct).2 := by
  unfold HomeServer.handleCiphertext
  split
  · exact h.refl home
  · split
    · exact h.refl home
    · rename_i p hp
      dsimp only
      have hwindow : R home (home.putPeer from_ (p.rollWindow home.now)) :=
        h.put home from_ p _ hp (durable_rollWindow p home.now)
      split
      · exact hwindow
      · split
        · exact hwindow
        · have hingest := h.trans _ _ _ hwindow
            (h.ingest (home.putPeer from_ (p.rollWindow home.now))
              ⟨(home.putPeer from_ (p.rollWindow home.now)).serverId crypto, ct⟩)
          split
          · rename_i heq
            rwa [heq] at hingest
          · rename_i heq
            rw [heq] at hingest
            split
            · exact hingest
            · rename_i hpeer
              exact h.trans _ _ _ hingest (h.put _ from_ _ _ hpeer rfl)

theorem acceptPayload (home : HomeServer) (from_ : ServerId) (payload : Bytes) :
    R home (home.acceptPayload crypto from_ payload).2 := by
  unfold HomeServer.acceptPayload
  split
  · exact h.refl home
  · split <;> exact h.refl home
  · exact h.refl home
  · exact h.refl home
  · exact h.handleCiphertext home from_ _

theorem acceptFrame (home : HomeServer) (from_ : ServerId) (frame : S2sFrame) :
    R home (home.acceptFrame crypto from_ frame).2 := by
  unfold HomeServer.acceptFrame
  split
  · exact h.refl home
  · split
    · exact h.refl home
    · split
      · exact h.refl home
      · split
        · exact h.refl home
        · exact h.trans _ _ _ (h.marked home _ _) (h.acceptPayload _ from_ _)

/-! ## The in-process hop -/

theorem ensureHello (source target : HomeServer) :
    R source (ensureHello crypto source target).2.1 ∧
      R target (ensureHello crypto source target).2.2 := by
  unfold Server.ensureHello
  dsimp only
  split
  · exact ⟨h.refl source, h.refl target⟩
  · have hsource := h.takeFrame source (target.serverId crypto)
      (helloPayload (source.serverId crypto) (target.serverId crypto))
    split
    · rename_i heq
      rw [heq] at hsource
      exact ⟨hsource, h.refl target⟩
    · rename_i aHello source' heq
      rw [heq] at hsource
      have htarget := h.takeFrame target (source.serverId crypto)
        (helloPayload (target.serverId crypto) (source.serverId crypto))
      split
      · rename_i heq
        rw [heq] at htarget
        exact ⟨hsource, htarget⟩
      · rename_i bHello target' heq
        rw [heq] at htarget
        have haccept := h.trans _ _ _ htarget
          (h.acceptFrame target' (source.serverId crypto) aHello)
        split
        · rename_i heq
          rw [heq] at haccept
          exact ⟨hsource, haccept⟩
        · rename_i heq
          rw [heq] at haccept
          have hback := h.trans _ _ _ hsource
            (h.acceptFrame source' (target.serverId crypto) bHello)
          split
          · rename_i heq
            rw [heq] at hback
            exact ⟨hback, haccept⟩
          · rename_i heq
            rw [heq] at hback
            exact ⟨h.trans _ _ _ hback (h.noteHello _ _),
              h.trans _ _ _ haccept (h.noteHello _ _)⟩

theorem forwardOne (source target : HomeServer) (row : OutboundRow) :
    R source (forwardOne crypto source target row).2.1 ∧
      R target (forwardOne crypto source target row).2.2 := by
  have hsource := h.takeFrame source (target.serverId crypto) row.outer.hpkeCiphertext
  unfold Server.forwardOne
  dsimp only
  split
  · rename_i heq
    rw [heq] at hsource
    exact ⟨hsource, h.refl target⟩
  · rename_i frame source' heq
    rw [heq] at hsource
    have htarget := h.acceptFrame target (source'.serverId crypto) frame
    split
    · rename_i heq
      rw [heq] at htarget
      exact ⟨hsource, htarget⟩
    · rename_i reply target' heq
      rw [heq] at htarget
      have htake := h.trans _ _ _ htarget
        (h.takeFrame target' (source'.serverId crypto) reply)
      split
      · rename_i heq
        rw [heq] at htake
        exact ⟨hsource, htake⟩
      · rename_i replyFrame target'' heq
        rw [heq] at htake
        have haccept := h.trans _ _ _ hsource
          (h.acceptFrame source' (target.serverId crypto) replyFrame)
        split
        · rename_i heq
          rw [heq] at haccept
          exact ⟨haccept, htake⟩
        · rename_i heq
          rw [heq] at haccept
          split <;> exact ⟨haccept, htake⟩

theorem pumpLoop (dest : ServerId) (now turns i : ℕ) (source target : HomeServer)
    (stats : PumpStats) : R source (pumpLoop crypto dest now turns i source target stats).2.1 ∧
      R target (pumpLoop crypto dest now turns i source target stats).2.2 := by
  induction turns generalizing i source target stats with
  | zero => exact ⟨h.refl source, h.refl target⟩
  | succ turns ih =>
    have hafter {source' target' source'' : HomeServer}
        (hbefore : R source source' ∧ R target target') (hqueue : R source' source'') (i : ℕ)
        (stats : PumpStats) :
        R source (Server.pumpLoop crypto dest now turns i source'' target' stats).2.1 ∧
          R target (Server.pumpLoop crypto dest now turns i source'' target' stats).2.2 :=
      ⟨h.trans _ _ _ (h.trans _ _ _ hbefore.1 hqueue) (ih i source'' target' stats).1,
        h.trans _ _ _ hbefore.2 (ih i source'' target' stats).2⟩
    have hstart : R source source ∧ R target target := ⟨h.refl source, h.refl target⟩
    unfold Server.pumpLoop
    split
    · exact hstart
    · rename_i row hrow
      split
      · exact ih _ _ _ _
      · split
        · exact hafter hstart (h.queue_of_subset (List.eraseIdx_subset ..)) _ _
        · split
          · exact ih _ _ _ _
          · have hforward := h.forwardOne source target row
            split <;> rename_i heq <;> rw [heq] at hforward
            · exact hafter hforward (h.queue_of_subset (List.eraseIdx_subset ..)) _ _
            · exact hafter hforward (h.queue_of_subset (List.eraseIdx_subset ..)) _ _
            · exact hafter hforward (h.queue_of_subset (List.eraseIdx_subset ..)) _ _
            · exact hafter ⟨h.trans _ _ _ hforward.1 (h.resetLink _ _),
                h.trans _ _ _ hforward.2 (h.resetLink _ _)⟩
                (h.queue _ _ fun _ hmem ↦ HomeServer.exists_outer_of_mem_modify hmem) _ _
            · exact hafter hforward
                (h.queue _ _ fun _ hmem ↦ HomeServer.exists_outer_of_mem_modify hmem) _ _

theorem pump (source target : HomeServer) :
    R source (pump crypto source target).2.1 ∧ R target (pump crypto source target).2.2 := by
  unfold Server.pump
  dsimp only
  split
  · exact ⟨h.refl source, h.refl target⟩
  · split
    · exact ⟨h.refl source, h.refl target⟩
    · have hhello := h.ensureHello source target
      split
      · rename_i heq
        rw [heq] at hhello
        exact hhello
      · rename_i source' target' heq
        rw [heq] at hhello
        have hloop := h.pumpLoop (target.serverId crypto) source'.now source'.outbound.length 0
          source' target' {}
        exact ⟨h.trans _ _ _ hhello.1 hloop.1, h.trans _ _ _ hhello.2 hloop.2⟩

end Carries

/-! ## Operations -/

theorem HomeOp.Admissible.meets {home : HomeServer} {op : HomeOp} (h : op.Admissible home)
    (crypto : Crypto) : op.Meets crypto .all home := by
  have hswept (owner : IdentityId) {random : Key} (hfresh : random ∉ home.tokens.keys) :
      random ∉ (home.sweepDeadTokensFor owner).2.tokens.keys :=
    fun hmem ↦ hfresh (home.keys_dropTokensExact_subset _ hmem)
  cases op with
  | registerFromCard => exact fun _ _ _ ↦ h
  | registerShareToken => exact fun _ _ ↦ h
  | mintShareToken => exact fun _ _ ↦ h
  | mintContactCapability owner => exact fun _ ↦ hswept owner h
  | rotateContact owner => exact fun _ ↦ hswept owner h
  | noteGroupMembership | ack | appendInner | enqueue | enqueueFromOwner => exact fun _ ↦ h
  | _ => trivial

/-- Every operation is a chain of steps that carry the promises it meets. -/
theorem HomeOp.apply_steps (crypto : Crypto) (promises : Promises) (home : HomeServer) (op : HomeOp)
    (hmeets : op.Meets crypto promises home) :
    Steps crypto promises home (op.apply crypto home) := by
  cases op with
  | setNow now => exact .single (.quiet (.clock home _))
  | rebindHost host s2sPort => exact .single (.quiet (.rebind home host s2sPort))
  | register identityId ownerPk => exact (home.register_edits crypto promises identityId ownerPk).steps
  | registerFromCard card => exact (home.registerFromCard_edits crypto promises card hmeets).steps
  | observeBinding identityId binding =>
    exact (home.observeBinding_edits crypto promises identityId binding).steps
  | ingestRevocation stmt => exact (home.ingestRevocation_edits crypto promises stmt).steps
  | noteGroupMembership identityId groupId =>
    exact (home.noteGroupMembership_edits crypto promises identityId groupId hmeets).steps
  | registerShareToken owner token ttlSecs =>
    exact (home.registerShareToken_edits crypto promises owner token ttlSecs hmeets).steps
  | mintShareToken owner ttlSecs random =>
    exact (home.mintShareToken_edits crypto promises owner ttlSecs random hmeets).steps
  | mintContactCapability owner random =>
    exact (home.mintContactCapability_edits crypto promises owner random hmeets).steps
  | rotateContact owner old confirm random =>
    exact (home.rotateContact_edits crypto promises owner old confirm random hmeets).steps
  | sweepDeadTokensFor owner => exact (home.dropTokensExact_edits crypto promises _).steps
  | sweepDeadTokens => exact (home.dropTokensExact_edits crypto promises _).steps
  | recordTokenSweep => exact .single (.quiet (.sweepTime home))
  | publishPrekey owner blob => exact (home.publishPrekey_edits crypto promises owner blob).steps
  | fetchPrekey token => exact (home.fetchPrekey_edits crypto promises token).steps
  | ingest outer => exact .single (.ingest home outer)
  | appendInner inner =>
    refine .single (.append home inner fun hdecoded ↦ ?_)
    obtain ⟨bytes, hbytes⟩ := hmeets hdecoded
    exact InnerEnvelope.canonical_of_decodePadded hbytes
  | checkOwner owner auth nowUnix expect =>
    exact (home.checkOwner_edits crypto promises owner auth nowUnix expect).steps
  | fetch owner auth nowUnix => exact (home.fetch_edits crypto promises owner auth nowUnix).steps
  | ack owner auth nowUnix =>
    exact (home.ack_edits crypto promises owner auth nowUnix hmeets).steps
  | enqueue outer =>
    refine home.enqueue_steps crypto promises outer fun hdecoded ↦ ?_
    obtain ⟨bytes, hbytes⟩ := hmeets hdecoded
    exact OuterEnvelope.length_lt_of_decode hbytes
  | enqueueFromOwner owner auth nowUnix outer =>
    refine home.enqueueFromOwner_steps crypto promises owner auth nowUnix outer fun hdecoded ↦ ?_
    obtain ⟨bytes, hbytes⟩ := hmeets hdecoded
    exact OuterEnvelope.length_lt_of_decode hbytes
  | deferOutbound time => exact (carries_steps crypto promises).deferOutbound home time
  | removeMatchingOutbound row =>
    exact (carries_steps crypto promises).removeMatchingOutbound home row
  | purgeExpired dest => exact (carries_steps crypto promises).purgeExpired home dest
  | backoffRow row => exact (carries_steps crypto promises).backoffRow home row
  | pin bundle => exact (carries_steps crypto promises).pin crypto home bundle
  | refuse peer => exact (carries_steps crypto promises).refuse home peer
  | applySignRotate peer rotate =>
    exact (carries_steps crypto promises).applySignRotate crypto home peer rotate
  | resetLink peer => exact (carries_steps crypto promises).resetLink home peer
  | noteHello peer => exact (carries_steps crypto promises).noteHello home peer
  | takeFrame peer payload => exact (carries_steps crypto promises).takeFrame home peer payload
  | acceptFrame peer frame => exact (carries_steps crypto promises).acceptFrame home peer frame
  | pumpTo target => exact ((carries_steps crypto promises).pump home target).1
  | pumpFrom source => exact ((carries_steps crypto promises).pump source home).2

theorem HomeOp.apply_edits (crypto : Crypto) (promises : Promises) (home : HomeServer) (op : HomeOp)
    (hmeets : op.Meets crypto promises home) :
    LoudEdits crypto promises home (op.apply crypto home) :=
  (op.apply_steps crypto promises home hmeets).loud

end NemoMessenger.Server
