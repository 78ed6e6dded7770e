import NemoMessenger.Server.Drain
import NemoMessenger.Server.Sweep

/-!
# What operations are made of

Every operation but the clock's is a sequence of a few primitive changes to capabilities, prekeys,
mailboxes and nonces, and of changes that leave all of them alone. A relation that each primitive
keeps to is kept to by every operation.
-/

namespace NemoMessenger.Server

open NemoMessenger.Data NemoMessenger.Wire

/-- What a new capability looks like. -/
def TokenKind.New (now : ℕ) : TokenKind → Prop
  | share _ _ burned reservedPrekey => burned = false ∧ reservedPrekey = none
  | contact _ _ windowStart windowCount => windowStart = now ∧ windowCount = 0

/-- The time and the rows stored so far are the same. -/
structure HomeServer.Beside (home home' : HomeServer) : Prop where
  now : home'.now = home.now
  appended : home'.history.appended = home.history.appended

/-- So are capabilities, prekeys, mailboxes and nonces. -/
structure HomeServer.Aside (home home' : HomeServer) : Prop extends home.Beside home' where
  tokens : home'.tokens = home.tokens
  prekeys : home'.prekeys = home.prekeys
  mailboxes : home'.mailboxes = home.mailboxes
  ownerNonces : home'.ownerNonces = home.ownerNonces

/-- A call of `check_owner`. -/
structure OwnerCall where
  owner : IdentityId
  auth : MailboxOwnerAuth
  nowUnix : ℕ
  expect : AuthScope

/-- The call of `check_owner` an operation starts with. -/
def HomeOp.ownerCall (crypto : Crypto) (home : HomeServer) : HomeOp → Option OwnerCall
  | checkOwner owner auth nowUnix expect => some ⟨owner, auth, nowUnix, expect⟩
  | fetch owner auth nowUnix =>
    some ⟨owner, auth, nowUnix, .body (home.serverId crypto) "POST" "/v1/mailbox/fetch"⟩
  | ack owner auth nowUnix =>
    some ⟨owner, auth, nowUnix, .body (home.serverId crypto) "POST" "/v1/mailbox/ack"⟩
  | enqueueFromOwner owner auth nowUnix outer =>
    some ⟨owner, auth, nowUnix,
      .header crypto (home.serverId crypto) "POST" "/v1/envelopes" outer.encode⟩
  | _ => none

/-- `R` holds over each change that issues no capability, and `S` over changes one of which may. -/
structure Manages (crypto : Crypto) (promises : Promises) (R S : HomeServer → HomeServer → Prop) :
    Prop where
  trans : ∀ {home mid home' : HomeServer}, R home mid → R mid home' → R home home'
  aside : ∀ {home home' : HomeServer}, home.Aside home' → R home home'
  drop : ∀ (home : HomeServer) (keeps : Key × TokenKind → Bool) (dirty : HomeDirty),
    R home { home with tokens := home.tokens.filter keeps, dirty }
  disable : ∀ (home : HomeServer) (owner : IdentityId), R home (home.disableMailbox owner)
  append : ∀ (home : HomeServer) (inner : InnerEnvelope), R home (home.appendInner inner).2
  publish : ∀ (home : HomeServer) (owner : IdentityId) (blob : Bytes),
    R home (home.publishPrekey owner blob).2
  fetch : ∀ (home : HomeServer) (token : Key), R home (home.fetchPrekey token).2
  enter : ∀ (home : HomeServer) (identityId : IdentityId) (ownerPk : Key)
    (entry : Option DirectoryRow), home.mailboxes.lookup identityId = none →
      R home (home.addEntry identityId ownerPk entry)
  weaken : ∀ {home home' : HomeServer}, R home home' → S home home'
  register : ∀ {home mid : HomeServer} (token : Key) (kind : TokenKind), R home mid →
    promises.registers mid.tokens token kind.mailbox → kind.New mid.now →
      S home (mid.pushToken token kind)
  regrace : ∀ {home mid : HomeServer} {token : Key} {mailbox : IdentityId} {grace : Option ℕ}
    {start count : ℕ} (grace' : Option ℕ), S home mid →
      mid.tokens.find token = some (.contact mailbox grace start count) →
        S home (mid.setToken token (.contact mailbox grace' start count))

/-- The same, when owners are checked, fetch and acknowledge too. -/
structure ManagesOwners (crypto : Crypto) (promises : Promises)
    (R S : HomeServer → HomeServer → Prop) : Prop extends Manages crypto promises R S where
  check : ∀ (home : HomeServer) (owner : IdentityId) (auth : MailboxOwnerAuth) (nowUnix : ℕ)
    (expect : AuthScope), R home (home.checkOwner crypto owner auth nowUnix expect).2
  gc : ∀ (home : HomeServer) (owner : IdentityId), R home (home.gcMailbox owner)
  ack : ∀ (home : HomeServer) (owner : IdentityId) (box : Mailbox) (upto : ℕ),
    home.mailboxes.lookup owner = some box → R home (home.ackRows owner box upto)

namespace Manages

variable {crypto : Crypto} {promises : Promises} {R S : HomeServer → HomeServer → Prop}
  {home mid home' : HomeServer} (h : Manages crypto promises R S)

include h

theorem refl (home : HomeServer) : R home home := h.aside ⟨⟨rfl, rfl⟩, rfl, rfl, rfl, rfl⟩

theorem issueRefl (home : HomeServer) : S home home := h.weaken (h.refl home)

theorem ingest (home : HomeServer) (outer : OuterEnvelope) : R home (home.ingest crypto outer).2 := by
  unfold HomeServer.ingest
  split
  · exact h.refl home
  · split
    · exact h.aside ⟨⟨rfl, rfl⟩, rfl, rfl, rfl, rfl⟩
    · split
      · exact h.refl home
      · rename_i inner _
        have happend : R home (home.appendInner inner).2 := h.append home inner
        split
        · rename_i heq
          rwa [heq] at happend
        · rename_i heq
          rw [heq] at happend
          exact h.trans happend (h.aside ⟨⟨rfl, rfl⟩, rfl, rfl, rfl, rfl⟩)

/-- Frames, peers and queued rows have nothing to do with capabilities and mailboxes. -/
theorem carries : Carries crypto R where
  refl home := h.refl home
  trans _ _ _ := h.trans
  marked _ _ _ := h.aside ⟨⟨rfl, rfl⟩, rfl, rfl, rfl, rfl⟩
  put _ _ _ _ _ _ := h.aside ⟨⟨rfl, rfl⟩, rfl, rfl, rfl, rfl⟩
  queue _ _ _ := h.aside ⟨⟨rfl, rfl⟩, rfl, rfl, rfl, rfl⟩
  ingest := h.ingest

theorem dropTokensExact (home : HomeServer) (dead : List Key) :
    R home (home.dropTokensExact dead).2 := by
  unfold HomeServer.dropTokensExact
  split
  · exact h.refl home
  · exact h.drop home _ _

theorem registerShareToken (hmid : R home mid) (owner : IdentityId) {token : Key}
    (ttlSecs : Option UInt64) (hregisters : mid.requireMailbox owner = .ok () →
      allowedIntroTtl (ttlSecs.getD shareTtlDefault) = true →
        promises.registers mid.tokens token owner) :
    S home (mid.registerShareToken owner token ttlSecs).2 := by
  unfold HomeServer.registerShareToken
  split
  · exact h.weaken hmid
  · rename_i howner
    dsimp only
    split_ifs with httl
    · exact h.weaken hmid
    · exact h.register token _ hmid (hregisters howner (by simpa using httl)) ⟨rfl, rfl⟩

theorem mintContactCapability (home : HomeServer) (owner : IdentityId) {random : Key}
    (hregisters : home.requireMailbox owner = .ok () →
      promises.registers (home.sweepDeadTokensFor owner).2.tokens random owner) :
    S home (home.mintContactCapability owner random).2 := by
  unfold HomeServer.mintContactCapability
  split
  · exact h.issueRefl home
  · rename_i howner
    exact h.register random _ (h.dropTokensExact home _) (hregisters howner) ⟨rfl, rfl⟩

theorem rotateContact (home : HomeServer) (owner : IdentityId) (old : Key) (confirm : Bool)
    {random : Key} (hregisters : home.requireMailbox owner = .ok () →
      promises.registers (home.sweepDeadTokensFor owner).2.tokens random owner) :
    S home (home.rotateContact owner old confirm random).2 := by
  have hmint := h.mintContactCapability home owner hregisters
  unfold HomeServer.rotateContact
  split
  · rename_i heq
    rwa [heq] at hmint
  · rename_i token minted heq
    rw [heq] at hmint
    split_ifs
    · split
      · rename_i hfind
        split_ifs
        · exact h.regrace _ hmint hfind
        · exact hmint
      · exact hmint
    · exact hmint

theorem registerFromCard (home : HomeServer) (card : ContactCard)
    (hregisters : card.verify crypto home.now = .ok () →
      card.binding.serverId = home.serverId crypto →
        home.mailboxes.lookup (card.identityId crypto) = none →
          promises.registers home.tokens card.shareToken (card.identityId crypto)) :
    S home (home.registerFromCard crypto card).2 := by
  unfold HomeServer.registerFromCard
  split
  · exact h.issueRefl home
  · rename_i hverify
    split
    · exact h.issueRefl home
    · rename_i hserver
      rw [not_not] at hserver
      dsimp only
      unfold HomeServer.register
      by_cases hknown : (home.mailboxes.lookup (card.identityId crypto)).isSome
      · rw [if_pos hknown]
        exact h.issueRefl home
      · rw [if_neg hknown]
        have hnone : home.mailboxes.lookup (card.identityId crypto) = none := by simpa using hknown
        dsimp only
        set row : DirectoryRow :=
          { identityPublicKey := card.identityPublicKey
            revocationPublicKey := card.revocationPublicKey
            binding := card.binding
            bindingSeq := card.binding.seq
            revocation := none }
        have hshared := h.registerShareToken
          (h.enter home (card.identityId crypto) card.identityPublicKey (some row) hnone)
          (card.identityId crypto) none fun _ _ ↦ hregisters hverify hserver hnone
        split
        · rename_i heq
          rw [← show _ = _ from congrArg Prod.snd heq]
          exact hshared
        · rename_i heq
          rw [← show _ = _ from congrArg Prod.snd heq]
          exact hshared

theorem observeBinding (home : HomeServer) (identityId : IdentityId) (binding : HomeServerBinding) :
    R home (home.observeBinding crypto identityId binding).2 := by
  unfold HomeServer.observeBinding
  split
  · exact h.refl home
  · rename_i pk _
    split
    · exact h.refl home
    · split
      · exact h.refl home
      · split
        · exact h.refl home
        · have hput : R home
              (home.putDirectory identityId (home.boundRow identityId pk binding)) :=
            h.aside ⟨⟨rfl, rfl⟩, rfl, rfl, rfl, rfl⟩
          dsimp only
          split
          · exact h.refl home
          · split
            · exact h.trans hput (h.disable _ identityId)
            · exact hput

theorem ingestRevocation (home : HomeServer) (stmt : RevocationStatement) :
    R home (home.ingestRevocation crypto stmt).2 := by
  unfold HomeServer.ingestRevocation
  split
  · exact h.refl home
  · rename_i row _
    split
    · exact h.refl home
    · split
      · exact h.refl home
      · split
        · exact h.refl home
        · have hput : R home (home.putDirectory stmt.identityId { row with revocation := some stmt }) :=
            h.aside ⟨⟨rfl, rfl⟩, rfl, rfl, rfl, rfl⟩
          have hdisabled := h.trans hput (h.disable _ stmt.identityId)
          unfold HomeServer.takeMemberships
          dsimp only
          split <;> exact h.trans hdisabled (h.aside ⟨⟨rfl, rfl⟩, rfl, rfl, rfl, rfl⟩)

theorem enqueue (home : HomeServer) (outer : OuterEnvelope) :
    R home (home.enqueue crypto outer).2 := by
  have hingest := h.ingest home outer
  unfold HomeServer.enqueue
  split
  · split <;> rename_i heq <;> rwa [heq] at hingest
  · exact h.aside ⟨⟨rfl, rfl⟩, rfl, rfl, rfl, rfl⟩

/-- Every operation that neither sets the clock nor checks an owner keeps to the relation. -/
theorem apply_ownerless {op : HomeOp} (hmeets : op.Meets crypto promises home)
    (hclock : ∀ now, op ≠ .setNow now) (hnone : op.ownerCall crypto home = none) :
    S home (op.apply crypto home) := by
  have hlinks := h.carries
  cases op with
  | setNow now => exact absurd rfl (hclock now)
  | rebindHost | recordTokenSweep =>
    exact h.weaken (h.aside ⟨⟨rfl, rfl⟩, rfl, rfl, rfl, rfl⟩)
  | register identityId ownerPk =>
    change S home (home.register identityId ownerPk).2
    unfold HomeServer.register
    split
    · exact h.issueRefl home
    · rename_i hnew
      exact h.weaken (h.enter home identityId ownerPk none (by simpa using hnew))
  | registerFromCard card => exact h.registerFromCard home card hmeets
  | observeBinding identityId binding => exact h.weaken (h.observeBinding home identityId binding)
  | ingestRevocation stmt => exact h.weaken (h.ingestRevocation home stmt)
  | noteGroupMembership identityId groupId =>
    change S home (home.noteGroupMembership identityId groupId)
    unfold HomeServer.noteGroupMembership
    dsimp only
    split <;> exact h.weaken (h.aside ⟨⟨rfl, rfl⟩, rfl, rfl, rfl, rfl⟩)
  | registerShareToken owner token ttlSecs =>
    exact h.registerShareToken (h.refl home) owner ttlSecs hmeets
  | mintShareToken owner ttlSecs random =>
    have hregister := h.registerShareToken (h.refl home) owner ttlSecs hmeets
    change S home (home.mintShareToken owner ttlSecs random).2
    unfold HomeServer.mintShareToken
    split <;> rename_i heq <;> rwa [heq] at hregister
  | mintContactCapability owner random => exact h.mintContactCapability home owner hmeets
  | rotateContact owner old confirm random => exact h.rotateContact home owner old confirm hmeets
  | sweepDeadTokensFor owner => exact h.weaken (h.dropTokensExact home _)
  | sweepDeadTokens => exact h.weaken (h.dropTokensExact home _)
  | publishPrekey owner blob => exact h.weaken (h.publish home owner blob)
  | fetchPrekey token => exact h.weaken (h.fetch home token)
  | ingest outer => exact h.weaken (h.ingest home outer)
  | appendInner inner => exact h.weaken (h.append home inner)
  | checkOwner | fetch | ack | enqueueFromOwner => cases hnone
  | enqueue outer => exact h.weaken (h.enqueue home outer)
  | deferOutbound time => exact h.weaken (hlinks.deferOutbound home time)
  | removeMatchingOutbound row => exact h.weaken (hlinks.removeMatchingOutbound home row)
  | purgeExpired dest => exact h.weaken (hlinks.purgeExpired home dest)
  | backoffRow row => exact h.weaken (hlinks.backoffRow home row)
  | pin bundle => exact h.weaken (hlinks.pin crypto home bundle)
  | refuse peer => exact h.weaken (hlinks.refuse home peer)
  | applySignRotate peer rotate => exact h.weaken (hlinks.applySignRotate crypto home peer rotate)
  | resetLink peer => exact h.weaken (hlinks.resetLink home peer)
  | noteHello peer => exact h.weaken (hlinks.noteHello home peer)
  | takeFrame peer payload => exact h.weaken (hlinks.takeFrame home peer payload)
  | acceptFrame peer frame => exact h.weaken (hlinks.acceptFrame home peer frame)
  | pumpTo target => exact h.weaken (hlinks.pump home target).1
  | pumpFrom source => exact h.weaken (hlinks.pump source home).2

end Manages

namespace ManagesOwners

variable {crypto : Crypto} {promises : Promises} {R S : HomeServer → HomeServer → Prop}
  {home : HomeServer} (h : ManagesOwners crypto promises R S)

include h

theorem fetchMailbox (home : HomeServer) (owner : IdentityId) (auth : MailboxOwnerAuth)
    (nowUnix : ℕ) : R home (home.fetch crypto owner auth nowUnix).2 := by
  have howner := h.check home owner auth nowUnix
    (AuthScope.body (home.serverId crypto) "POST" "/v1/mailbox/fetch")
  unfold HomeServer.fetch
  dsimp only
  split
  · rename_i heq
    rwa [heq] at howner
  · rename_i checked heq
    rw [heq] at howner
    split
    · exact howner
    · have hgc := h.trans howner (h.gc checked owner)
      split <;> exact hgc

theorem ackMailbox (home : HomeServer) (owner : IdentityId) (auth : MailboxOwnerAuth)
    (nowUnix : ℕ) : R home (home.ack crypto owner auth nowUnix).2 := by
  have howner := h.check home owner auth nowUnix
    (AuthScope.body (home.serverId crypto) "POST" "/v1/mailbox/ack")
  unfold HomeServer.ack
  dsimp only
  split
  · rename_i heq
    rwa [heq] at howner
  · rename_i checked heq
    rw [heq] at howner
    split
    · exact howner
    · rename_i hbox
      exact h.trans howner (h.ack checked owner _ _ hbox)

theorem enqueueFromOwner (home : HomeServer) (owner : IdentityId) (auth : MailboxOwnerAuth)
    (nowUnix : ℕ) (outer : OuterEnvelope) :
    R home (home.enqueueFromOwner crypto owner auth nowUnix outer).2 := by
  have howner := h.check home owner auth nowUnix
    (AuthScope.header crypto (home.serverId crypto) "POST" "/v1/envelopes" outer.encode)
  unfold HomeServer.enqueueFromOwner
  dsimp only
  split
  · rename_i heq
    rwa [heq] at howner
  · rename_i checked heq
    rw [heq] at howner
    split
    · exact howner
    · exact h.trans howner (h.toManages.enqueue checked outer)

/-- Every operation but the clock's keeps to the relation. -/
theorem apply {op : HomeOp} (hmeets : op.Meets crypto promises home)
    (hclock : ∀ now, op ≠ .setNow now) : S home (op.apply crypto home) := by
  cases hcall : op.ownerCall crypto home with
  | none => exact h.apply_ownerless hmeets hclock hcall
  | some call =>
    cases op <;> try cases hcall
    · exact h.weaken (h.check home _ _ _ _)
    · exact h.weaken (h.fetchMailbox home _ _ _)
    · exact h.weaken (h.ackMailbox home _ _ _)
    · exact h.weaken (h.enqueueFromOwner home _ _ _ _)

end ManagesOwners

end NemoMessenger.Server
