import NemoMessenger.Server.Reachable

/-!
# Persists and restarts without promises

What `persist` and a restart do to tokens, envelopes and the replay window, whatever operations came
before. Nothing here assumes that memory and database are in step: `persist` writes what is in memory
or leaves what was stored, and a restart reads what is stored.
-/

namespace NemoMessenger.Server

open NemoMessenger.Data NemoMessenger.Wire

/-- The node of a server without a database entry yet, with any limits. -/
def Node.fresh (crypto : Crypto) (hpke : HpkeKeypair) (sign : Key) (limits : Limits) : Node where
  home := .withLimits crypto hpke sign limits
  host := .new
  db := .empty

/-! ## Persist -/

/-- The tables `persist` writes for the home server, row by row: a new row comes from memory. -/
structure Database.WrittenFrom (db' : Database) (home : HomeServer) (db : Database) : Prop where
  tokens : ∀ token row, db'.tokens.lookup token = some row →
    (∃ old, db.tokens.lookup token = some old ∧ old.mailbox = row.mailbox) ∨
      ∃ kind, (token, kind) ∈ home.tokens ∧ kind.mailbox = row.mailbox
  mailboxRows : ∀ key row, db'.mailboxRows.lookup key = some row →
    db.mailboxRows.lookup key = some row ∨
      ∃ box seq stored, home.mailboxes.lookup key.1 = some box ∧
        box.rows.lookup seq = some stored ∧ stored.seq = key.2 ∧
        stored.inner.encodePadded = .ok row.innerPadded
  hpkeSeen : ∀ enc seq, db'.hpkeSeen.lookup enc = some seq →
    db.hpkeSeen.lookup enc = some seq ∨ home.seenEnc.lookup enc = some seq

section Persist

variable {home : HomeServer} {host : GroupHost} {hd : HomeDirty} {gd : GroupDirty}
  {db₀ db db' : Database}

theorem Database.writtenFrom_refl (home : HomeServer) (db : Database) : db.WrittenFrom home db :=
  ⟨fun _ row h ↦ .inl ⟨row, h, rfl⟩, fun _ _ h ↦ .inl h, fun _ _ h ↦ .inl h⟩

theorem upsertToken_writes {identities : FiniteMap IdentityId IdentityRow}
    {tokens tokens' : FiniteMap Key TokenRow} {marked : Key}
    (h : Database.upsertToken identities home tokens marked = .ok tokens')
    {token : Key} {row : TokenRow} (hrow : tokens'.lookup token = some row) :
    tokens.lookup token = some row ∨
      ∃ kind, (token, kind) ∈ home.tokens ∧ kind.mailbox = row.mailbox := by
  unfold Database.upsertToken at h
  split at h
  · cases h
    exact .inl hrow
  · rename_i key kind hfind
    split_ifs at h
    cases h
    rw [FiniteMap.lookup_insert_ite] at hrow
    split_ifs at hrow with htoken
    · obtain rfl : key = marked := by simpa using List.find?_some hfind
      cases hrow
      refine .inr ⟨kind, htoken ▸ List.mem_of_find?_eq_some hfind, ?_⟩
      cases kind <;> rfl
    · exact .inl hrow

theorem newMailboxRows_writes {newRows : List (IdentityId × ℕ)}
    {entries : List ((IdentityId × ℕ) × MailboxRow)}
    (h : Database.newMailboxRows home newRows = .ok entries) {key : IdentityId × ℕ}
    {row : MailboxRow} (hentry : (key, row) ∈ entries) :
    ∃ box seq stored, home.mailboxes.lookup key.1 = some box ∧
      box.rows.lookup seq = some stored ∧ stored.seq = key.2 ∧
      stored.inner.encodePadded = .ok row.innerPadded := by
  obtain ⟨⟨owner, stored⟩, hlive, hencode⟩ := FiniteMap.exists_of_mem_mapM h hentry
  obtain ⟨⟨owner', seq⟩, -, hlive⟩ := List.mem_filterMap.mp hlive
  obtain ⟨box, hbox, hlive⟩ := Option.bind_eq_some_iff.mp hlive
  obtain ⟨stored', hstored, heq⟩ := Option.map_eq_some_iff.mp hlive
  cases heq
  dsimp only at hencode
  split at hencode
  · cases hencode
  · rename_i padded hpadded
    cases hencode
    exact ⟨box, seq, stored, hbox, hstored, rfl, hpadded⟩

theorem persistHome_writtenFrom (h : Database.persistHome home hd db = .ok db') :
    db'.WrittenFrom home db := by
  unfold Database.persistHome at h
  obtain ⟨mailboxRows, hmailboxRows, h⟩ := bind_eq_ok.mp h
  obtain ⟨tokens, htokens, h⟩ := bind_eq_ok.mp h
  obtain ⟨prekeys, -, h⟩ := bind_eq_ok.mp h
  obtain ⟨memberships, -, h⟩ := bind_eq_ok.mp h
  obtain ⟨hpkeSeen, hseen, h⟩ := bind_eq_ok.mp h
  cases h
  refine ⟨?_, ?_, ?_⟩
  · refine foldlM_invariant (fun rows ↦ ∀ token row, rows.lookup token = some row →
      (∃ old, db.tokens.lookup token = some old ∧ old.mailbox = row.mailbox) ∨
        ∃ kind, (token, kind) ∈ home.tokens ∧ kind.mailbox = row.mailbox) ?_ htokens ?_
    · intro rows marked rows' _ hwrite hrows token row hrow
      rcases upsertToken_writes hwrite hrow with hold | hnew
      · exact hrows token row hold
      · exact .inr hnew
    · intro token row hrow
      exact .inl ⟨row, FiniteMap.lookup_of_foldl_retain (FiniteMap.lookup_of_foldl_retain hrow), rfl⟩
  · intro key row hrow
    obtain ⟨entries, hentries, hinsert⟩ := bind_eq_ok.mp hmailboxRows
    rcases FiniteMap.lookup_of_insertAll hinsert hrow with hold | hnew
    · exact .inl (FiniteMap.lookup_of_foldl_retain
        (FiniteMap.lookup_of_foldl_retain (FiniteMap.lookup_of_foldl_retain hold)))
    · exact .inr (newMailboxRows_writes hentries hnew)
  · intro enc seq hrow
    unfold Database.writeSeen at hseen
    split_ifs at hseen
    · cases hseen
      exact .inr hrow
    · rcases FiniteMap.lookup_of_insertAll hseen hrow with hold | hnew
      · exact .inl hold
      · obtain ⟨enc', -, hlive⟩ := List.mem_filterMap.mp hnew
        obtain ⟨seq', hlive, heq⟩ := Option.map_eq_some_iff.mp hlive
        cases heq
        exact .inr hlive

/-- The group half of `persist_inner` leaves the tables of the home server alone. -/
theorem persistGroups_writtenFrom (hdb : db.WrittenFrom home db₀)
    (h : Database.persistGroups host gd db = .ok db') : db'.WrittenFrom home db₀ := by
  unfold Database.persistGroups at h
  obtain ⟨groupCreds, -, h⟩ := bind_eq_ok.mp h
  obtain ⟨groupInvites, -, h⟩ := bind_eq_ok.mp h
  obtain ⟨groupPending, -, h⟩ := bind_eq_ok.mp h
  obtain ⟨groupStream, -, h⟩ := bind_eq_ok.mp h
  obtain ⟨groupFiles, -, h⟩ := bind_eq_ok.mp h
  cases h
  exact ⟨hdb.tokens, hdb.mailboxRows, hdb.hpkeSeen⟩

/-- Whatever `persist` answers, memory keeps everything but its journal, and new rows come from
memory. -/
theorem Node.persist_writes (node : Node) (fault : Bool) :
    (∃ dirty, (node.persist fault).2.home = { node.home with dirty }) ∧
      (node.persist fault).2.db.WrittenFrom node.home node.db := by
  unfold Node.persist Server.persist
  split_ifs
  · exact ⟨⟨node.home.dirty, rfl⟩, Database.writtenFrom_refl _ _⟩
  · exact ⟨⟨_, rfl⟩, Database.writtenFrom_refl _ _⟩
  · dsimp only
    split
    · exact ⟨⟨_, rfl⟩, Database.writtenFrom_refl _ _⟩
    · rename_i db hdb
      unfold Database.persistInner at hdb
      obtain ⟨mid, hhome, hgroups⟩ := bind_eq_ok.mp hdb
      exact ⟨⟨_, rfl⟩, persistGroups_writtenFrom (persistHome_writtenFrom hhome) hgroups⟩

/-- What `persist` does to journal, identities and envelopes: nothing, a transaction that fails and
leaves the journal for the next one, or the transaction. -/
theorem Node.persist_outcome (node : Node) (fault : Bool) :
    (node.home.dirty = {} ∧ (node.persist fault).2.home = node.home ∧
      (node.persist fault).2.db = node.db) ∨
    ((node.persist fault).1 ≠ .ok () ∧
      (node.persist fault).2.home =
        { node.home with dirty := HomeDirty.absorb {} node.home.dirty } ∧
      (node.persist fault).2.db = node.db) ∨
    ∃ mid, Database.persistHome node.home node.home.dirty node.db = .ok mid ∧
      (node.persist fault).1 = .ok () ∧
      (node.persist fault).2.home = { node.home with dirty := {} } ∧
      (node.persist fault).2.db.identities = mid.identities ∧
      (node.persist fault).2.db.mailboxRows = mid.mailboxRows := by
  unfold Node.persist Server.persist
  split_ifs with hclean
  · rw [Bool.and_eq_true, HomeDirty.isClean_iff] at hclean
    exact .inl ⟨hclean.1, rfl, rfl⟩
  · exact .inr (.inl ⟨nofun, rfl, rfl⟩)
  · dsimp only
    split
    · exact .inr (.inl ⟨nofun, rfl, rfl⟩)
    · rename_i db hdb
      unfold Database.persistInner at hdb
      obtain ⟨mid, hhome, hgroups⟩ := bind_eq_ok.mp hdb
      unfold Database.persistGroups at hgroups
      obtain ⟨groupCreds, -, hgroups⟩ := bind_eq_ok.mp hgroups
      obtain ⟨groupInvites, -, hgroups⟩ := bind_eq_ok.mp hgroups
      obtain ⟨groupPending, -, hgroups⟩ := bind_eq_ok.mp hgroups
      obtain ⟨groupStream, -, hgroups⟩ := bind_eq_ok.mp hgroups
      obtain ⟨groupFiles, -, hgroups⟩ := bind_eq_ok.mp hgroups
      cases hgroups
      exact .inr (.inr ⟨mid, hhome, rfl, rfl, rfl, rfl⟩)

end Persist

/-! ## Restarts -/

/-- A server read back from the database, table by table. -/
structure HomeServer.ReadFrom (loaded : HomeServer) (db : Database) : Prop where
  tokens : (db.tokens.entries.mapM fun e ↦ (loadToken e.2).map fun kind ↦ (e.1, kind)) =
    .ok loaded.tokens
  mailboxes : ∃ envelopes, FiniteMap.traverse
      (fun key row ↦ (loadEnvelope key row).map some) db.mailboxRows = .ok envelopes ∧
    loaded.mailboxes = FiniteMap.filterMap
      (fun id row ↦ (loadMailbox row).map (·.withRows (FiniteMap.slice envelopes id))) db.identities
  seenEnc : loaded.seenEnc = db.hpkeSeen
  dirty : loaded.dirty = {}

section Restart

variable {crypto : Crypto} {loaded : HomeServer} {db : Database}

theorem loadHome_readFrom {hpke : HpkeKeypair} {sign : Key} {ident : ServerIdentityRow}
    (h : db.loadHome crypto hpke sign ident = .ok loaded) : loaded.ReadFrom db := by
  unfold Database.loadHome at h
  obtain ⟨directory, -, h⟩ := bind_eq_ok.mp h
  obtain ⟨envelopes, henvelopes, h⟩ := bind_eq_ok.mp h
  obtain ⟨tokens, htokens, h⟩ := bind_eq_ok.mp h
  obtain ⟨peers, -, h⟩ := bind_eq_ok.mp h
  obtain ⟨outbound, -, h⟩ := bind_eq_ok.mp h
  cases h
  exact ⟨htokens, ⟨envelopes, henvelopes, rfl⟩, rfl, rfl⟩

/-- The home half of what `load_keys` reads. -/
theorem exists_loadHome_of_loadKeys {keys : Option (HpkeKeypair × Key)} {host : GroupHost}
    (h : db.loadKeys crypto keys = .ok (some (loaded, host))) :
    ∃ hpke sign ident, db.loadHome crypto hpke sign ident = .ok loaded := by
  unfold Database.loadKeys at h
  split at h
  · cases h
  · rename_i ident _
    have hrest {found : Except PersistError (HpkeKeypair × Key)}
        (h : (do
          let keys ← found
          let home ← Database.loadHome crypto db keys.1 keys.2 ident
          let host ← db.loadGroups
          .ok (some (home, host))) = .ok (some (loaded, host))) :
        ∃ hpke sign ident, db.loadHome crypto hpke sign ident = .ok loaded := by
      obtain ⟨keys, -, h⟩ := bind_eq_ok.mp h
      obtain ⟨home, hhome, h⟩ := bind_eq_ok.mp h
      obtain ⟨groups, -, h⟩ := bind_eq_ok.mp h
      cases h
      exact ⟨keys.1, keys.2, ident, hhome⟩
    dsimp only at h
    split at h
    · split_ifs at h <;> exact hrest h
    · exact hrest h

theorem loadKeys_readFrom {keys : Option (HpkeKeypair × Key)} {host : GroupHost}
    (h : db.loadKeys crypto keys = .ok (some (loaded, host))) : loaded.ReadFrom db := by
  obtain ⟨hpke, sign, ident, hhome⟩ := exists_loadHome_of_loadKeys h
  exact loadHome_readFrom hhome

/-- A restart changes nothing, or memory is what the database holds; the history goes on. -/
theorem Node.reload_reads (crypto : Crypto) (node : Node) :
    node.reload crypto = node ∨ ∃ (loaded : HomeServer) (host : GroupHost), loaded.ReadFrom node.db ∧
      node.reload crypto =
        { node with home := { loaded with history := node.home.history }, host } := by
  unfold Node.reload
  split
  · rename_i loaded host hload
    exact .inr ⟨loaded, host, loadKeys_readFrom hload, rfl⟩
  · exact .inl rfl

theorem loadToken_mailbox {row : TokenRow} {kind : TokenKind} (h : loadToken row = .ok kind) :
    kind.mailbox = row.mailbox := by
  unfold loadToken at h
  split_ifs at h <;> cases h <;> rfl

/-- Every token read back is at the mailbox of its row. -/
theorem HomeServer.ReadFrom.mem_tokens (h : loaded.ReadFrom db) {entry : Key × TokenKind}
    (hentry : entry ∈ loaded.tokens) :
    ∃ row, db.tokens.lookup entry.1 = some row ∧ row.mailbox = entry.2.mailbox := by
  obtain ⟨e, he, hload⟩ := FiniteMap.exists_of_mem_mapM h.tokens hentry
  cases hkind : loadToken e.2 with
  | error e' =>
    rw [hkind] at hload
    cases hload
  | ok kind =>
    rw [hkind] at hload
    cases hload
    exact ⟨e.2, FiniteMap.lookup_eq_some_iff.mpr he, (loadToken_mailbox hkind).symm⟩

/-- The table has one row for every key. -/
theorem HomeServer.ReadFrom.nodup_keys (h : loaded.ReadFrom db) : loaded.tokens.keys.Nodup := by
  have hkeys : loaded.tokens.keys = db.tokens.keys := by
    refine FiniteMap.map_of_mapM (fun e entry hload ↦ ?_) h.tokens
    cases hkind : loadToken e.2 with
    | error e' =>
      rw [hkind] at hload
      cases hload
    | ok kind =>
      rw [hkind] at hload
      cases hload
      rfl
  rw [hkeys]
  exact db.tokens.keys_nodup

/-- The mailboxes read back: what the identity row says, with the rows that could be read. -/
theorem HomeServer.ReadFrom.lookup_mailbox (h : loaded.ReadFrom db)
    {m : IdentityId} {box : Mailbox} (hbox : loaded.mailboxes.lookup m = some box) :
    ∃ ident rows, db.identities.lookup m = some ident ∧ 0 < ident.mailboxNextSeq ∧
      box.disabled = ident.mailboxDisabled ∧ (∃ blank : Mailbox, box = blank.withRows rows) ∧
      ∀ seq, rows.lookup seq = (db.mailboxRows.lookup (m, seq)).bind fun row ↦
        (loadEnvelope (m, seq) row).toOption := by
  obtain ⟨envelopes, henvelopes, hmailboxes⟩ := h.mailboxes
  rw [hmailboxes, FiniteMap.lookup_filterMap] at hbox
  obtain ⟨ident, hident, hload⟩ := Option.bind_eq_some_iff.mp hbox
  obtain ⟨blank, hblank, rfl⟩ := Option.map_eq_some_iff.mp hload
  unfold loadMailbox at hblank
  split_ifs at hblank with hnext
  cases hblank
  refine ⟨ident, _, hident, hnext, rfl, ⟨_, rfl⟩, fun seq ↦ ?_⟩
  rw [FiniteMap.lookup_slice, FiniteMap.lookup_of_traverse henvelopes]
  congr 1
  funext row
  cases loadEnvelope (m, seq) row <;> rfl

/-- An identity with a mailbox gets it back. -/
theorem HomeServer.ReadFrom.isSome_mailbox (h : loaded.ReadFrom db) {m : IdentityId}
    {ident : IdentityRow} (hident : db.identities.lookup m = some ident)
    (hnext : 0 < ident.mailboxNextSeq) : (loaded.mailboxes.lookup m).isSome := by
  obtain ⟨envelopes, -, hmailboxes⟩ := h.mailboxes
  rw [hmailboxes, FiniteMap.lookup_filterMap, hident, Option.bind_some, loadMailbox, if_pos hnext]
  rfl

theorem loadEnvelope_eq_some {key : IdentityId × ℕ} {row : MailboxRow} {stored : StoredEnvelope}
    (h : (loadEnvelope key row).toOption = some stored) :
    stored.seq = key.2 ∧ InnerEnvelope.decodePadded row.innerPadded = .ok stored.inner := by
  unfold loadEnvelope at h
  cases hdecode : InnerEnvelope.decodePadded row.innerPadded with
  | error e =>
    rw [hdecode] at h
    cases h
  | ok inner =>
    rw [hdecode] at h
    cases h
    exact ⟨rfl, rfl⟩

end Restart

end NemoMessenger.Server
