import NemoMessenger.Server.Reachable

/-!
# Disabled mailboxes

A mailbox that a revocation or a move to another server has disabled is a tombstone: it keeps its
place, so that nobody registers it again, and holds nothing. No operation brings it back or succeeds
for it; `ingest` may still repeat an answer it gave before.
-/

namespace NemoMessenger.Server

open NemoMessenger.Data NemoMessenger.Wire

/-- A disabled mailbox without rows, prekeys or tokens. -/
structure HomeServer.Buried (home : HomeServer) (m : IdentityId) : Prop where
  mailbox : ∃ box, home.mailboxes.lookup m = some box ∧ box.disabled = true ∧
    ∀ seq, box.rows.lookup seq = none
  prekeys : (home.prekeys.lookup m).getD [] = []
  tokens : ∀ entry ∈ home.tokens, entry.2.mailbox ≠ m

/-- Every disabled mailbox is buried. -/
def HomeServer.Tombstones (home : HomeServer) : Prop :=
  ∀ m, home.mailboxDisabled m = true → home.Buried m

/-- The binding of an identity is there and at least as new. -/
def HomeServer.BindingsKept (home home' : HomeServer) : Prop :=
  ∀ id row, home.directory.lookup id = some row →
    ∃ row', home'.directory.lookup id = some row' ∧ row.bindingSeq ≤ row'.bindingSeq

section Edits

variable {crypto : Crypto} {promises : Promises} {home home' : HomeServer} {m : IdentityId}

theorem HomeServer.Buried.requireMailbox (h : home.Buried m) :
    home.requireMailbox m = .error .denied := by
  obtain ⟨box, hbox, hdisabled, -⟩ := h.mailbox
  rw [HomeServer.requireMailbox, hbox]
  exact if_pos hdisabled

theorem HomeServer.Buried.mailboxDisabled (h : home.Buried m) : home.mailboxDisabled m = true := by
  obtain ⟨box, hbox, hdisabled, -⟩ := h.mailbox
  rw [HomeServer.mailboxDisabled, hbox]
  exact hdisabled

/-- An empty disabled mailbox stays one under every quiet edit. -/
theorem BoxEdit.disabled {evicted : ℕ → Prop} {box : Mailbox} {after : Option Mailbox}
    (h : BoxEdit evicted (some box) after) (hdisabled : box.disabled = true)
    (hrows : ∀ seq, box.rows.lookup seq = none) :
    ∃ box', after = some box' ∧ box'.disabled = true ∧ ∀ seq, box'.rows.lookup seq = none := by
  cases h with
  | same => exact ⟨box, rfl, hdisabled, hrows⟩
  | drop _ seqs _ =>
    refine ⟨_, rfl, ?_, fun seq ↦ ?_⟩
    · rw [Mailbox.foldl_removeRow_eq Mailbox.removeRow_disabled, hdisabled]
    · rw [Mailbox.lookup_foldl_removeRow, hrows, ite_self]
  | disable => exact ⟨_, rfl, rfl, Mailbox.lookup_disable box⟩
  | ack _ seqs =>
    obtain ⟨-, -, hkept, -⟩ := Mailbox.foldl_ackRow_fields seqs box
    refine ⟨_, rfl, hkept.trans hdisabled, fun seq ↦ ?_⟩
    rw [Mailbox.lookup_foldl_ackRow, hrows, ite_self]

theorem LoudEdit.buried_mailbox (h : LoudEdit crypto promises home home') (hm : home.Buried m) :
    ∃ box, home'.mailboxes.lookup m = some box ∧ box.disabled = true ∧
      ∀ seq, box.rows.lookup seq = none := by
  obtain ⟨box, hbox, hdisabled, hrows⟩ := hm.mailbox
  cases h with
  | quiet h =>
    have hedit := h.boxEdit m
    rw [hbox] at hedit
    exact hedit.disabled hdisabled hrows
  | store mailbox box₀ inner padded hbox₀ hlive hidem hencode hcanonical =>
    have hne : m ≠ mailbox := by
      rintro rfl
      rw [hm.mailboxDisabled] at hlive
      cases hlive
    refine ⟨box, ?_, hdisabled, hrows⟩
    rw [HomeServer.storeRow, FiniteMap.lookup_insert_ite, if_neg hne, hbox]
  | remember | note => exact ⟨box, hbox, hdisabled, hrows⟩

theorem LoudEdit.buried_prekeys (h : LoudEdit crypto promises home home') (hm : home.Buried m) :
    (home'.prekeys.lookup m).getD [] = [] := by
  cases h with
  | store | remember | note => exact hm.prekeys
  | quiet h =>
    cases h with
    | clock | nonces | sweepTime | rebind | pushToken | setToken | dropTokens | register |
      putDirectory | joinGroup | leaveGroups | peers | gc | ack | outbound => exact hm.prekeys
    | disable owner =>
      rw [HomeServer.disableMailbox, FiniteMap.lookup_erase_ite]
      split_ifs
      · rfl
      · exact hm.prekeys
    | setPrekeys owner queue hknown =>
      rw [HomeServer.setPrekeys, FiniteMap.lookup_insert_ite]
      split_ifs with howner
      · subst howner
        rcases hknown with hlive | ⟨old, hold, hne⟩
        · rw [hm.requireMailbox] at hlive
          cases hlive
        · have hempty := hm.prekeys
          rw [hold] at hempty
          exact absurd hempty hne
      · exact hm.prekeys

theorem LoudEdit.buried (h : LoudEdit crypto promises home home') (hm : home.Buried m) :
    home'.Buried m := by
  refine ⟨h.buried_mailbox hm, h.buried_prekeys hm, ?_⟩
  refine h.tokenEdit.forall_mem (P := fun _ owner ↦ owner ≠ m) ?_ hm.tokens
  rintro _ _ owner - hlive rfl
  rw [hm.requireMailbox] at hlive
  cases hlive

theorem HomeServer.buried_disableMailbox {box : Mailbox}
    (hbox : home.mailboxes.lookup m = some box) : (home.disableMailbox m).Buried m := by
  refine ⟨⟨box.disable, ?_, rfl, box.lookup_disable⟩, ?_, fun entry hentry ↦ ?_⟩
  · rw [lookup_disableMailbox, if_pos rfl, hbox]
    rfl
  · rw [disableMailbox, FiniteMap.lookup_erase_ite, if_pos rfl]
    rfl
  · simpa using (List.mem_filter.mp hentry).2

/-- A mailbox is disabled by burying it. -/
theorem Edit.disabled_cases (h : Edit crypto promises home home')
    (hm : home'.mailboxDisabled m = true) : home.mailboxDisabled m = true ∨ home'.Buried m := by
  have hkept {mailbox : IdentityId} {box box' : Mailbox}
      (hbox : home.mailboxes.lookup mailbox = some box) (hsame : box'.disabled = box.disabled)
      (hm : ((home.mailboxes.insert mailbox box').lookup m).any (·.disabled) = true) :
      home.mailboxDisabled m = true := by
    rw [FiniteMap.lookup_insert_ite] at hm
    split_ifs at hm with hmailbox
    · rw [HomeServer.mailboxDisabled, hmailbox, hbox]
      exact hsame.symm.trans hm
    · exact hm
  cases h with
  | clock | nonces | sweepTime | rebind | pushToken | setToken | dropTokens | putDirectory |
    joinGroup | leaveGroups | setPrekeys | peers | outbound => exact .inl hm
  | register identityId ownerPk entry hnew hentry =>
    left
    rw [HomeServer.mailboxDisabled, HomeServer.mailboxes_addEntry,
      FiniteMap.lookup_insert_ite] at hm
    split_ifs at hm
    · cases hm
    · exact hm
  | disable owner =>
    by_cases howner : m = owner
    · subst howner
      cases hbox : home.mailboxes.lookup m with
      | none =>
        rw [HomeServer.mailboxDisabled, lookup_disableMailbox, if_pos rfl, hbox] at hm
        cases hm
      | some box => exact .inr (HomeServer.buried_disableMailbox hbox)
    · rw [HomeServer.mailboxDisabled, lookup_disableMailbox, if_neg howner] at hm
      exact .inl hm
  | gc owner box hbox =>
    obtain ⟨hgc, -⟩ := Mailbox.gc_spec box home.now home.limits.mailboxMaxAgeSecs
      home.limits.mailboxMaxBytes
    have hsame : (box.gc home.now home.limits.mailboxMaxAgeSecs
        home.limits.mailboxMaxBytes).1.disabled = box.disabled := by
      rw [hgc, Mailbox.foldl_removeRow_eq Mailbox.removeRow_disabled]
    exact .inl (hkept hbox hsame hm)
  | ack owner box upto hbox _ =>
    obtain ⟨-, -, hsame, -⟩ := Mailbox.foldl_ackRow_fields
      ((FiniteMap.sortedKeys box.rows).filter (· ≤ upto)) box
    exact .inl (hkept hbox hsame hm)

theorem LoudEdit.tombstones (h : LoudEdit crypto promises home home') (hhome : home.Tombstones) :
    home'.Tombstones := by
  intro m hm
  have hcases : home.mailboxDisabled m = true ∨ home'.Buried m := by
    cases h with
    | quiet h => exact h.disabled_cases hm
    | store mailbox box inner padded hbox hlive hidem hencode hcanonical =>
      left
      rw [HomeServer.mailboxDisabled, HomeServer.storeRow, FiniteMap.lookup_insert_ite] at hm
      split_ifs at hm with hmailbox
      · rw [HomeServer.mailboxDisabled, hmailbox, hbox]
        exact hm
      · exact hm
    | remember | note => exact .inl hm
  rcases hcases with hbefore | hburied
  · exact h.buried (hhome m hbefore)
  · exact hburied

theorem LoudEdit.bindingsKept (h : LoudEdit crypto promises home home')
    (hdir : home.DirectoryKeys) : home.BindingsKept home' := by
  intro id row hrow
  have hsame (heq : home'.directory.lookup id = home.directory.lookup id) :
      ∃ row', home'.directory.lookup id = some row' ∧ row.bindingSeq ≤ row'.bindingSeq :=
    ⟨row, heq.trans hrow, UInt64.le_refl _⟩
  cases h with
  | store | remember | note => exact hsame rfl
  | quiet h =>
    cases h with
    | clock | nonces | sweepTime | rebind | pushToken | setToken | dropTokens | disable |
      joinGroup | leaveGroups | setPrekeys | peers | gc | ack | outbound => exact hsame rfl
    | register identityId ownerPk entry hnew hentry =>
      obtain ⟨box, hbox, -⟩ := hdir id row hrow
      have hid : id ≠ identityId := by
        rintro rfl
        rw [hnew] at hbox
        cases hbox
      refine hsame ?_
      rw [HomeServer.lookup_directory_addEntry, if_neg hid]
    | putDirectory identityId row' hkey =>
      rw [HomeServer.putDirectory, FiniteMap.lookup_insert_ite]
      split_ifs with hid
      · subst hid
        rcases hkey with ⟨old, hold, -, hle⟩ | ⟨hnone, -⟩
        · rw [hrow] at hold
          cases hold
          exact ⟨row', rfl, hle⟩
        · rw [hrow] at hnone
          cases hnone
      · exact ⟨row, hrow, UInt64.le_refl _⟩

end Edits

/-! ## What is refused -/

/-- Nothing succeeds for a mailbox. An append, an ingest or a fetched prekey is for the mailbox that
the capability names; `ingest` may repeat the answer it remembers for an encapsulated key. -/
structure HomeServer.Refuses (home : HomeServer) (crypto : Crypto) (m : IdentityId) : Prop where
  register : ∀ ownerPk, (home.register m ownerPk).1 ≠ .ok ()
  registerFromCard : ∀ card, card.identityId crypto = m →
    ∀ id, (home.registerFromCard crypto card).1 ≠ .ok id
  registerShareToken : ∀ token ttlSecs, (home.registerShareToken m token ttlSecs).1 ≠ .ok ()
  mintShareToken : ∀ ttlSecs random token, (home.mintShareToken m ttlSecs random).1 ≠ .ok token
  mintContactCapability : ∀ random token, (home.mintContactCapability m random).1 ≠ .ok token
  rotateContact : ∀ old confirm random token,
    (home.rotateContact m old confirm random).1 ≠ .ok token
  publishPrekey : ∀ blob, (home.publishPrekey m blob).1 ≠ .ok ()
  fetchPrekey : ∀ token blob, (home.fetchPrekey token).1 = .ok blob →
    ∃ m', home.capabilityMailbox token = some m' ∧ m' ≠ m
  fetch : ∀ auth nowUnix rows, (home.fetch crypto m auth nowUnix).1 ≠ .ok rows
  ack : ∀ auth nowUnix, (home.ack crypto m auth nowUnix).1 ≠ .ok ()
  append : ∀ inner seq, (home.appendInner inner).1 = .ok seq →
    ∃ m', home.capabilityMailbox inner.deliveryCapability = some m' ∧ m' ≠ m
  ingest : ∀ outer seq, (home.ingest crypto outer).1 = .ok seq →
    (∃ enc, encapKey outer.hpkeCiphertext = .ok enc ∧ home.seenEnc.lookup enc = some seq) ∨
      ∃ inner m', crypto.openOuter home.hpke outer = .ok inner ∧
        home.capabilityMailbox inner.deliveryCapability = some m' ∧ m' ≠ m

section Refuses

variable {crypto : Crypto} {home : HomeServer} {m : IdentityId}

/-- No capability names a buried mailbox. -/
theorem HomeServer.Buried.capability_ne (h : home.Buried m) {token : Key} {m' : IdentityId}
    (hcap : home.capabilityMailbox token = some m') : m' ≠ m := by
  obtain ⟨kind, hkind, rfl⟩ := Option.map_eq_some_iff.mp hcap
  exact h.tokens (token, kind) (Tokens.mem_of_find hkind)

theorem HomeServer.Buried.register (h : home.Buried m) (ownerPk : Key) :
    home.register m ownerPk = (.error .alreadyRegistered, home) := by
  obtain ⟨box, hbox, -⟩ := h.mailbox
  rw [HomeServer.register, hbox]
  rfl

theorem HomeServer.Buried.registerFromCard (h : home.Buried m) {card : ContactCard}
    (hcard : card.identityId crypto = m) (id : IdentityId) :
    (home.registerFromCard crypto card).1 ≠ .ok id := by
  unfold HomeServer.registerFromCard
  split
  · exact nofun
  · split_ifs
    · exact nofun
    · dsimp only
      rw [hcard, h.register]
      exact nofun

theorem HomeServer.Buried.checkOwner (h : home.Buried m) (auth : MailboxOwnerAuth) (nowUnix : ℕ)
    (expect : AuthScope) :
    home.checkOwner crypto m auth nowUnix expect = (.error .ownerAuth, home) := by
  obtain ⟨box, hbox, hdisabled, -⟩ := h.mailbox
  rw [HomeServer.checkOwner, hbox]
  exact if_pos hdisabled

theorem HomeServer.Buried.appendInner (h : home.Buried m) {inner : InnerEnvelope} {seq : ℕ}
    (happend : (home.appendInner inner).1 = .ok seq) :
    ∃ m', home.capabilityMailbox inner.deliveryCapability = some m' ∧ m' ≠ m := by
  rcases home.appendInner_cases inner with
    ⟨e, tokens, dirty, hcase⟩ | ⟨mailbox, box, tokens, dirty, hcap, -⟩
  · rw [hcase] at happend
    cases happend
  · exact ⟨mailbox, hcap, h.capability_ne hcap⟩

theorem HomeServer.Buried.fetchPrekey (h : home.Buried m) {token : Key} {blob : Bytes}
    (hfetch : (home.fetchPrekey token).1 = .ok blob) :
    ∃ m', home.capabilityMailbox token = some m' ∧ m' ≠ m := by
  unfold HomeServer.fetchPrekey at hfetch
  split at hfetch
  · rename_i mailbox expiresAt burned reserved htoken
    have hcap : home.capabilityMailbox token = some mailbox := by
      rw [HomeServer.capabilityMailbox, htoken]
      rfl
    exact ⟨mailbox, hcap, h.capability_ne hcap⟩
  · cases hfetch

theorem HomeServer.Buried.ingest (h : home.Buried m) {outer : OuterEnvelope} {seq : ℕ}
    (hingest : (home.ingest crypto outer).1 = .ok seq) :
    (∃ enc, encapKey outer.hpkeCiphertext = .ok enc ∧ home.seenEnc.lookup enc = some seq) ∨
      ∃ inner m', crypto.openOuter home.hpke outer = .ok inner ∧
        home.capabilityMailbox inner.deliveryCapability = some m' ∧ m' ≠ m := by
  rcases home.ingest_cases crypto outer with ⟨e, tokens, dirty, hcase⟩ |
    ⟨enc, henc, ⟨seq', hseen, hcase⟩ | ⟨inner, seq', mid, -, hopen, happend, hcase⟩⟩
  · rw [hcase] at hingest
    cases hingest
  · rw [hcase] at hingest
    cases hingest
    exact .inl ⟨enc, henc, hseen⟩
  · obtain ⟨m', hcap, hne⟩ := h.appendInner (congrArg Prod.fst happend)
    exact .inr ⟨inner, m', hopen, hcap, hne⟩

theorem HomeServer.Buried.refuses (h : home.Buried m) (crypto : Crypto) :
    home.Refuses crypto m where
  register ownerPk := by
    rw [h.register]
    exact nofun
  registerFromCard card hcard := h.registerFromCard hcard
  registerShareToken token ttlSecs := by
    rw [HomeServer.registerShareToken, h.requireMailbox]
    exact nofun
  mintShareToken ttlSecs random token := by
    rw [HomeServer.mintShareToken, HomeServer.registerShareToken, h.requireMailbox]
    exact nofun
  mintContactCapability random token := by
    rw [HomeServer.mintContactCapability, h.requireMailbox]
    exact nofun
  rotateContact old confirm random token := by
    rw [HomeServer.rotateContact, HomeServer.mintContactCapability, h.requireMailbox]
    exact nofun
  publishPrekey blob := by
    rw [HomeServer.publishPrekey, h.requireMailbox]
    exact nofun
  fetchPrekey _ _ := h.fetchPrekey
  fetch auth nowUnix rows := by
    unfold HomeServer.fetch
    dsimp only
    rw [h.checkOwner]
    exact nofun
  ack auth nowUnix := by
    unfold HomeServer.ack
    dsimp only
    rw [h.checkOwner]
    exact nofun
  append _ _ := h.appendInner
  ingest _ _ := h.ingest

end Refuses

/-! ## Every reachable server -/

section Reachable

variable {crypto : Crypto} {promises : Promises} {home home' : HomeServer}

theorem HomeServer.SameDurable.tombstones (h : home.SameDurable home')
    (hhome : home.Tombstones) : home'.Tombstones := by
  intro m hm
  obtain ⟨box', hbox', hdisabled'⟩ : ∃ box', home'.mailboxes.lookup m = some box' ∧
      box'.disabled = true := by
    rw [HomeServer.mailboxDisabled, Option.any_eq_true] at hm
    exact hm
  obtain ⟨box, hbox, hsame⟩ := h.lookup_eq_some hbox'
  have hdisabled : home.mailboxDisabled m = true := by
    rw [HomeServer.mailboxDisabled, hbox]
    exact hsame.disabled.symm.trans hdisabled'
  have hburied := hhome m hdisabled
  refine ⟨⟨box', hbox', hdisabled', fun seq ↦ ?_⟩, ?_, fun entry hentry ↦ ?_⟩
  · obtain ⟨box₀, hbox₀, -, hrows⟩ := hburied.mailbox
    rw [hbox] at hbox₀
    cases hbox₀
    rw [hsame.rows, hrows]
  · rw [h.prekeys, hburied.prekeys]
  · exact hburied.tokens entry (h.tokens.mem_iff.mp hentry)

theorem Steps.tombstones (h : Steps crypto promises home home') (hhome : home.Tombstones) :
    home'.Tombstones :=
  Chain.keeps HomeServer.Tombstones (fun _ _ hedit hs ↦ hedit.tombstones hs) h.loud hhome

theorem lasting_tombstones (crypto : Crypto) : Lasting crypto HomeServer.Tombstones where
  steps _ _ hsteps _ h := hsteps.tombstones h
  records _ _ _ h m hm := ⟨(h m hm).mailbox, (h m hm).prekeys, (h m hm).tokens⟩
  reload _ _ hreloads h := hreloads.toSameDurable.tombstones h

/-- Disabled mailboxes of a reachable server are buried, and directory entries have mailboxes. -/
theorem Reachable.tombstones (h : Reachable crypto home) :
    home.Tombstones ∧ home.DirectoryKeys := by
  induction h with
  | fresh hpke sign limits => exact ⟨fun _ h ↦ (by cases h), fun _ _ h ↦ by cases h⟩
  | restarted hpke sign host s2sPort ops hops =>
    have hvalid := (Node.Recoverable.run hops
      (Node.recoverable_first crypto hpke sign host s2sPort)).homeValid
    have htombstones := (lasting_tombstones crypto).run hops fun _ h ↦ by cases h
    exact ⟨fun m hm ↦ (lasting_tombstones crypto).records _ _ _ htombstones m hm,
      hvalid.directoryKeys⟩
  | @step before op _ ih =>
    have hsteps := op.apply_steps crypto .none before (op.meets_none crypto before)
    refine ⟨hsteps.tombstones ih.1, ?_⟩
    exact Chain.keeps HomeServer.DirectoryKeys (fun _ _ hedit hs ↦ hedit.directoryKeys hs)
      hsteps.loud ih.2

theorem HomeOp.buried_run (ops : List HomeOp) {m : IdentityId} (h : home.Buried m) :
    (run (HomeOp.apply crypto) home ops).Buried m :=
  run_keeps (fun s ↦ s.Buried m) (fun s op hs ↦
    Chain.keeps (fun s ↦ s.Buried m) (fun _ _ hedit hs ↦ hedit.buried hs)
      (op.apply_edits crypto .none s (op.meets_none crypto s)) hs) h ops

theorem HomeOp.bindingsKept_run (ops : List HomeOp) (hdir : home.DirectoryKeys) :
    home.BindingsKept (run (HomeOp.apply crypto) home ops) := by
  have hedits {s s' : HomeServer} (hedit : LoudEdit crypto .none s s')
      (hs : s.DirectoryKeys ∧ home.BindingsKept s) :
      s'.DirectoryKeys ∧ home.BindingsKept s' := by
    refine ⟨hedit.directoryKeys hs.1, fun id row hrow ↦ ?_⟩
    obtain ⟨row', hrow', hle⟩ := hs.2 id row hrow
    obtain ⟨row'', hrow'', hle'⟩ := hedit.bindingsKept hs.1 id row' hrow'
    exact ⟨row'', hrow'', UInt64.le_trans hle hle'⟩
  refine (run_keeps (fun s ↦ s.DirectoryKeys ∧ home.BindingsKept s) (fun s op hs ↦ ?_)
    ⟨hdir, fun id row hrow ↦ ⟨row, hrow, UInt64.le_refl _⟩⟩ ops).2
  exact Chain.keeps (fun s ↦ s.DirectoryKeys ∧ home.BindingsKept s) (fun _ _ ↦ hedits)
    (op.apply_edits crypto .none s (op.meets_none crypto s)) hs

/-- On every reachable server directory entries have mailboxes; and over any further operations
bindings never get older, and what is disabled stays buried and is refused everything. -/
theorem tombstones_of_reachable (crypto : Crypto) (home : HomeServer) (h : Reachable crypto home) :
    (∀ id row, home.directory.lookup id = some row → (home.mailboxes.lookup id).isSome) ∧
      ∀ ops, home.BindingsKept (run (HomeOp.apply crypto) home ops) ∧
        ∀ m, home.mailboxDisabled m = true →
          (run (HomeOp.apply crypto) home ops).Buried m ∧
            (run (HomeOp.apply crypto) home ops).Refuses crypto m := by
  obtain ⟨htombstones, hdir⟩ := h.tombstones
  refine ⟨fun id row hrow ↦ ?_, fun ops ↦ ⟨HomeOp.bindingsKept_run ops hdir, fun m hm ↦ ?_⟩⟩
  · obtain ⟨box, hbox, -⟩ := hdir id row hrow
    rw [hbox]
    rfl
  · have hburied : (run (HomeOp.apply crypto) home ops).Buried m :=
      HomeOp.buried_run ops (htombstones m hm)
    exact ⟨hburied, hburied.refuses crypto⟩

/-- A mailbox whose owner has moved away is buried, and stays so. -/
theorem tombstones_of_moved_mailbox :
    let crypto := Crypto.transparent
    let key : Key := .replicate 32 1
    let moved : HomeServerBinding :=
      { serverId := .replicate 32 2
        serverHpkePublicKey := .replicate 32 2
        host := ⟨"away", by decide⟩
        seq := 1
        expiresAt := 1700000001
        signature := .replicate 64 0 }
    let home := run (HomeOp.apply crypto) (.withLimits crypto ⟨key, key⟩ key .default)
      [.register key key, .observeBinding key moved]
    home.mailboxDisabled key = true ∧
      (run (HomeOp.apply crypto) home [.register key key]).Buried key := by
  intro crypto key moved home
  have hreachable : Reachable crypto home := (Reachable.fresh ⟨key, key⟩ key .default).run _
  have hdisabled : home.mailboxDisabled key = true := by decide +kernel
  obtain ⟨-, hlater⟩ := tombstones_of_reachable crypto home hreachable
  exact ⟨hdisabled, ((hlater [.register key key]).2 key hdisabled).1⟩

set_option maxRecDepth 100000 in
/-- An envelope is stored, the owner moves away, and a retry of the envelope is still answered. -/
theorem ingest_succeeds_for_moved_mailbox :
    let crypto := Crypto.transparent
    let key : Key := .replicate 32 1
    let moved : HomeServerBinding :=
      { serverId := .replicate 32 2
        serverHpkePublicKey := .replicate 32 2
        host := ⟨"away", by decide⟩
        seq := 1
        expiresAt := 1700000001
        signature := .replicate 64 0 }
    let home := run (HomeOp.apply crypto) (.withLimits crypto ⟨key, key⟩ key .default)
      [.register key key, .mintContactCapability key key, .ingest (.blank key),
        .observeBinding key moved]
    Reachable crypto home ∧
      home.history.appended.map (fun entry ↦ (entry.1, entry.2.seq)) = [(key, 1)] ∧
      home.mailboxDisabled key = true ∧ (home.ingest crypto (.blank key)).1 = .ok 1 := by
  intro crypto key moved home
  exact ⟨(Reachable.fresh ⟨key, key⟩ key .default).run _, by decide +kernel⟩

end Reachable

end NemoMessenger.Server
