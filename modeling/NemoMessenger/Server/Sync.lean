import NemoMessenger.Server.Database
import NemoMessenger.Server.Valid

/-!
# Memory, journal and database in step

`Synced` relates a home server to the database: replaying the journal on the database yields what
memory holds. Each table has its own condition, matched to how its statements replay the journal.
Strict edits keep all of them, and so does merging a drained journal back.
-/

namespace NemoMessenger.Server

open NemoMessenger.Data NemoMessenger.Wire

/-! ## The conditions, table by table -/

/-- What memory holds about an identity: the columns of its mailbox and its directory row. -/
def HomeServer.identityView (home : HomeServer) (id : IdentityId) :
    Option (Key × ℕ × ℕ × Bool) × Option DirectoryRow :=
  ((home.mailboxes.lookup id).map fun box ↦ (box.ownerPk, box.nextSeq, box.bytes, box.disabled),
    home.directory.lookup id)

/-- The row stored for an identity is the one memory would write; memory may have nothing to write. -/
def IdentityStored (home : HomeServer) (id : IdentityId) (row : Option IdentityRow) : Prop :=
  row = some (identityRow home id) ∨ row = none ∧ home.identityView id = (none, none)

/-- The row of memory under a key of `mailbox_rows`. -/
def HomeServer.memoryRow (home : HomeServer) (key : IdentityId × ℕ) : Option StoredEnvelope :=
  (home.mailboxes.lookup key.1).bind fun box ↦ box.rows.lookup key.2

/-- Every row of memory can be encoded. -/
def HomeServer.Encodes (home : HomeServer) : Prop :=
  ∀ key row, home.memoryRow key = some row → ∃ bytes, row.inner.encodePadded = .ok bytes

/-- The stored form of a row. -/
def mailboxRowOf (row : StoredEnvelope) : MailboxRow where
  receivedAt := row.receivedAt
  expiresAt := row.expiresAt
  innerPadded := match row.inner.encodePadded with
    | .ok padded => padded
    | .error _ => []
  idempotencyToken := row.inner.idempotencyToken

/-- The deletions of a journal spare a key of `mailbox_rows`. -/
def HomeDirty.SparesRow (dirty : HomeDirty) (key : IdentityId × ℕ) : Prop :=
  key.1 ∉ dirty.mailboxCleared ∧ key ∉ dirty.mailboxDropped ∧
    ∀ mark, dirty.mailboxAcked.lookup key.1 = some mark → mark < key.2

/-- The condition on `mailbox_rows`. -/
structure RowsSynced (home : HomeServer) (rows : FiniteMap (IdentityId × ℕ) MailboxRow) : Prop where
  newNodup : home.dirty.mailboxNew.Nodup
  newAbsent : ∀ key ∈ home.dirty.mailboxNew, home.dirty.SparesRow key → rows.lookup key = none
  newBelow : ∀ key ∈ home.dirty.mailboxNew,
    ∃ box, home.mailboxes.lookup key.1 = some box ∧ key.2 < box.nextSeq
  storedBelow : ∀ key, (rows.lookup key).isSome →
    ∃ box, home.mailboxes.lookup key.1 = some box ∧ key.2 < box.nextSeq
  marks : ∀ o mark, home.dirty.mailboxAcked.lookup o = some mark → mark < 2 ^ 63
  gone : ∀ key ∉ home.dirty.mailboxNew, ¬ home.dirty.SparesRow key → home.memoryRow key = none
  kept : ∀ key ∉ home.dirty.mailboxNew, home.dirty.SparesRow key →
    rows.lookup key = (home.memoryRow key).map mailboxRowOf

/-- The kind column of a token. -/
def TokenKind.tag : TokenKind → ℕ
  | .share .. => 1
  | .contact .. => 2

/-- A stored token row is of the token's kind and mailbox. -/
def TokenRow.Fits (row : TokenRow) (kind : TokenKind) : Prop :=
  row.kind = kind.tag ∧ row.mailbox = kind.mailbox

section

theorem lawfulBEq_key : LawfulBEq Key := inferInstance

attribute [local instance] lawfulBEq_key

/-- The row the token deletions of a journal leave under a key. -/
def TokenState.spared (s : TokenState) (rows : FiniteMap Key TokenRow) (token : Key) :
    Option TokenRow :=
  (rows.lookup token).filter fun row ↦
    decide (row.mailbox ∉ s.droppedOwners) && decide (token ∉ s.droppedExact)

end

/-- Stored token rows fit the tokens of memory, and off the marks they are the same tokens. -/
structure TokenTable (tokens : Tokens) (marked : List Key) (rows : Key → Option TokenRow) :
    Prop where
  fits : ∀ token row, rows token = some row → ∃ kind, tokens.find token = some kind ∧ row.Fits kind
  loads : ∀ token ∉ marked, (rows token).map loadToken = (tokens.find token).map Except.ok

/-- The condition on `hpke_seen`, for a window that was not wrapped. -/
structure SeenTable (live : FiniteMap Key ℕ) (new : List Key) (rows : FiniteMap Key ℕ) : Prop where
  newNodup : new.Nodup
  newAbsent : ∀ enc ∈ new, rows.lookup enc = none
  newLive : ∀ enc ∈ new, (live.lookup enc).isSome
  kept : ∀ enc ∉ new, rows.lookup enc = live.lookup enc

/-- The journal replayed on the database gives what memory holds. -/
structure Synced (home : HomeServer) (db : Database) : Prop where
  serverIdentity : home.dirty.serverIdentity = false →
    db.serverIdentity = some (serverIdentityRow home)
  identities : ∀ id ∉ home.dirty.identities, IdentityStored home id (db.identities.lookup id)
  mailboxRows : RowsSynced home db.mailboxRows
  tokens : TokenTable home.tokens home.dirty.tokens (home.tokenState.spared db.tokens)
  prekeys : InStep home.dirty.prekeys (rowsUnder db.prekeys)
    fun o ↦ (home.prekeys.lookup o).getD []
  memberships : InStep home.dirty.memberships (rowsUnder db.memberships)
    fun o ↦ (home.memberships.lookup o).getD []
  peers : InStep home.dirty.peers db.peers.lookup fun p ↦ (home.peers.lookup p).map peerRow
  peersKnown : ∀ p, (db.peers.lookup p).isSome → (home.peers.lookup p).isSome
  outbound : home.dirty.outboundDirty = false → db.outbound = home.outbound.map outboundRecord
  hpkeSeen : home.dirty.seenEncCleared = false →
    SeenTable home.seenEnc home.dirty.seenEncNew db.hpkeSeen

/-- In step with nothing marked: every table is what memory holds. -/
structure Stored (home : HomeServer) (db : Database) : Prop where
  serverIdentity : db.serverIdentity = some (serverIdentityRow home)
  identities : ∀ id, IdentityStored home id (db.identities.lookup id)
  mailboxRows : ∀ key, db.mailboxRows.lookup key = (home.memoryRow key).map mailboxRowOf
  tokens : ∀ token, (db.tokens.lookup token).map loadToken =
    (home.tokens.find token).map Except.ok
  prekeys : ∀ o, rowsUnder db.prekeys o = (home.prekeys.lookup o).getD []
  memberships : ∀ o, rowsUnder db.memberships o = (home.memberships.lookup o).getD []
  peers : ∀ p, db.peers.lookup p = (home.peers.lookup p).map peerRow
  outbound : db.outbound = home.outbound.map outboundRecord
  hpkeSeen : ∀ enc, db.hpkeSeen.lookup enc = home.seenEnc.lookup enc

theorem Stored.drain {home : HomeServer} {db : Database} (h : Stored home db) (dirty : HomeDirty)
    (history : History) : Stored { home with dirty, history } db :=
  ⟨h.serverIdentity, h.identities, h.mailboxRows, h.tokens, h.prekeys, h.memberships, h.peers,
    h.outbound, h.hpkeSeen⟩

section Edits

variable {crypto : Crypto} {promises : Promises} {home home' : HomeServer}

/-! ## Identities -/

theorem identityRow_congr {id : IdentityId} (h : home'.identityView id = home.identityView id) :
    identityRow home' id = identityRow home id := by
  obtain ⟨hbox, hdir⟩ := Prod.ext_iff.mp h
  simp only [HomeServer.identityView] at hbox hdir
  unfold identityRow
  rw [hdir]
  cases hb : home.mailboxes.lookup id <;> cases hb' : home'.mailboxes.lookup id <;>
    simp_all

/-- An edit marks every identity whose columns it changes. -/
theorem LoudEdit.identityView (h : LoudEdit crypto promises home home') :
    home.dirty.identities ⊆ home'.dirty.identities ∧
      ∀ id ∉ home'.dirty.identities, home'.identityView id = home.identityView id := by
  have hsame (hmarks : home'.dirty.identities = home.dirty.identities)
      (hview : home'.identityView = home.identityView) :
      home.dirty.identities ⊆ home'.dirty.identities ∧
        ∀ id ∉ home'.dirty.identities, home'.identityView id = home.identityView id :=
    ⟨fun _ hid ↦ hmarks ▸ hid, fun id _ ↦ congrFun hview id⟩
  have hinsert (owner : IdentityId)
      (hmarks : home'.dirty.identities = home.dirty.identities.insert owner)
      (hview : ∀ id ≠ owner, home'.identityView id = home.identityView id) :
      home.dirty.identities ⊆ home'.dirty.identities ∧
        ∀ id ∉ home'.dirty.identities, home'.identityView id = home.identityView id := by
    rw [hmarks]
    refine ⟨fun _ hid ↦ List.mem_insert_of_mem hid, fun id hid ↦ hview id ?_⟩
    rintro rfl
    exact hid List.mem_insert_self
  have hother {mailboxes : FiniteMap IdentityId Mailbox} {owner id : IdentityId} {box : Mailbox}
      (hid : id ≠ owner) : (mailboxes.insert owner box).lookup id = mailboxes.lookup id := by
    rw [FiniteMap.lookup_insert_ite, if_neg hid]
  cases h with
  | remember | note => exact hsame rfl rfl
  | store mailbox box inner padded hbox hlive hidem hencode hcanonical =>
    refine hinsert mailbox rfl fun id hid ↦ ?_
    rw [HomeServer.identityView, HomeServer.storeRow, hother hid]
    rfl
  | quiet h =>
    cases h with
    | clock | nonces | sweepTime | rebind | pushToken | setToken | dropTokens | joinGroup |
      leaveGroups | setPrekeys | peers | outbound => exact hsame rfl rfl
    | register identityId ownerPk entry hnew hentry =>
      refine hinsert identityId rfl fun id hid ↦ ?_
      rw [HomeServer.identityView, HomeServer.mailboxes_addEntry, hother hid,
        HomeServer.lookup_directory_addEntry, if_neg hid]
      rfl
    | putDirectory identityId row hkey =>
      refine hinsert identityId rfl fun id hid ↦ ?_
      rw [HomeServer.identityView, HomeServer.putDirectory, FiniteMap.lookup_insert_ite,
        if_neg hid]
      rfl
    | disable owner =>
      refine hinsert owner rfl fun id hid ↦ ?_
      rw [HomeServer.identityView, lookup_disableMailbox, if_neg hid]
      rfl
    | ack owner box upto hbox _ =>
      refine hinsert owner rfl fun id hid ↦ ?_
      rw [HomeServer.identityView, HomeServer.ackBox, hother hid]
      rfl
    | gc owner box hbox =>
      obtain ⟨hgc, -⟩ := Mailbox.gc_spec box home.now home.limits.mailboxMaxAgeSecs
        home.limits.mailboxMaxBytes
      by_cases hempty : (box.gc home.now home.limits.mailboxMaxAgeSecs
          home.limits.mailboxMaxBytes).2.isEmpty
      · refine hsame (by rw [HomeServer.gcBox]; exact if_pos hempty) ?_
        funext id
        rw [HomeServer.identityView, HomeServer.gcBox, FiniteMap.lookup_insert_ite]
        split_ifs with hid
        · -- nothing was dropped, so the mailbox is the old one
          rw [hgc, List.isEmpty_iff.mp hempty, hid, HomeServer.identityView, hbox]
          rfl
        · rfl
      · refine hinsert owner (by rw [HomeServer.gcBox]; exact if_neg hempty) fun id hid ↦ ?_
        rw [HomeServer.identityView, HomeServer.gcBox, hother hid]
        rfl

theorem LoudEdit.identityStored (h : LoudEdit crypto promises home home') {db : Database}
    (hdb : ∀ id ∉ home.dirty.identities, IdentityStored home id (db.identities.lookup id)) :
    ∀ id ∉ home'.dirty.identities, IdentityStored home' id (db.identities.lookup id) := by
  obtain ⟨hmarks, hview⟩ := h.identityView
  intro id hid
  rcases hdb id fun hold ↦ hid (hmarks hold) with hrow | ⟨hrow, hnone⟩
  · exact .inl (by rw [hrow, identityRow_congr (hview id hid)])
  · exact .inr ⟨hrow, by rw [hview id hid, hnone]⟩

/-! ## Mailbox rows -/

theorem memoryRow_congr {key : IdentityId × ℕ}
    (h : home'.mailboxes.lookup key.1 = home.mailboxes.lookup key.1) :
    home'.memoryRow key = home.memoryRow key := by
  rw [HomeServer.memoryRow, h, HomeServer.memoryRow]

/-- Rows below the counters stay below them along an edit. -/
theorem LoudEdit.below (h : LoudEdit crypto promises home home') {key : IdentityId × ℕ}
    (hkey : ∃ box, home.mailboxes.lookup key.1 = some box ∧ key.2 < box.nextSeq) :
    ∃ box, home'.mailboxes.lookup key.1 = some box ∧ key.2 < box.nextSeq := by
  obtain ⟨box, hbox, hlt⟩ := hkey
  obtain ⟨box', hbox', -, hle⟩ := h.mailbox_kept hbox
  exact ⟨box', hbox', hlt.trans_le hle⟩

/-- An edit that appends nothing keeps the condition on rows when the rows it drops from memory are
the ones its journal deletes. -/
theorem RowsSynced.drop {rows : FiniteMap (IdentityId × ℕ) MailboxRow} (h : RowsSynced home rows)
    (hedit : LoudEdit crypto promises home home')
    (hnew : home'.dirty.mailboxNew = home.dirty.mailboxNew)
    (hmarks : ∀ o mark, home'.dirty.mailboxAcked.lookup o = some mark → mark < 2 ^ 63)
    (dropped : IdentityId × ℕ → Prop)
    (hdropped : ∀ key, dropped key → home'.memoryRow key = none)
    (hkept : ∀ key, ¬ dropped key → home'.memoryRow key = home.memoryRow key)
    (hspares : ∀ key, home'.dirty.SparesRow key ↔ home.dirty.SparesRow key ∧ ¬ dropped key) :
    RowsSynced home' rows where
  newNodup := hnew ▸ h.newNodup
  newAbsent key hkey hspared := h.newAbsent key (hnew ▸ hkey) ((hspares key).mp hspared).1
  newBelow key hkey := hedit.below (h.newBelow key (hnew ▸ hkey))
  storedBelow key hkey := hedit.below (h.storedBelow key hkey)
  marks := hmarks
  gone key hkey hgone := by
    rw [hnew] at hkey
    by_cases hdrop : dropped key
    · exact hdropped key hdrop
    · rw [hkept key hdrop]
      exact h.gone key hkey fun hold ↦ hgone ((hspares key).mpr ⟨hold, hdrop⟩)
  kept key hkey hspared := by
    rw [hnew] at hkey
    obtain ⟨hold, hdrop⟩ := (hspares key).mp hspared
    rw [hkept key hdrop]
    exact h.kept key hkey hold

theorem memoryRow_insert (mailboxes : FiniteMap IdentityId Mailbox) (owner : IdentityId)
    (box : Mailbox) (key : IdentityId × ℕ) :
    ((mailboxes.insert owner box).lookup key.1).bind (fun b ↦ b.rows.lookup key.2) =
      if key.1 = owner then box.rows.lookup key.2
      else (mailboxes.lookup key.1).bind fun b ↦ b.rows.lookup key.2 := by
  rw [FiniteMap.lookup_insert_ite]
  split_ifs <;> rfl

theorem lookup_raiseMark (marks : FiniteMap IdentityId ℕ) (owner o : IdentityId) (upto : ℕ) :
    (HomeDirty.raiseMark marks owner upto).lookup o =
      if o = owner then some (max ((marks.lookup o).getD 0) upto) else marks.lookup o := by
  rw [HomeDirty.raiseMark, FiniteMap.lookup_insert_ite]
  split_ifs with ho
  · rw [ho]
    cases marks.lookup owner <;> simp
  · rfl

/-- Whether `gc_mailbox` drops the row under a key. -/
def HomeServer.GcDrops (home : HomeServer) (owner : IdentityId) (box : Mailbox)
    (key : IdentityId × ℕ) : Prop :=
  key.1 = owner ∧
    key.2 ∈ (box.gc home.now home.limits.mailboxMaxAgeSecs home.limits.mailboxMaxBytes).2

theorem memoryRow_gcBox {owner : IdentityId} {box : Mailbox}
    (hbox : home.mailboxes.lookup owner = some box) (key : IdentityId × ℕ) :
    (home.GcDrops owner box key → (home.gcBox owner box).memoryRow key = none) ∧
      (¬ home.GcDrops owner box key →
        (home.gcBox owner box).memoryRow key = home.memoryRow key) := by
  rw [HomeServer.memoryRow, HomeServer.gcBox, memoryRow_insert, Mailbox.lookup_gc]
  constructor
  · rintro ⟨howner, hmem⟩
    rw [if_pos howner, if_pos hmem]
  · intro hdrop
    by_cases howner : key.1 = owner
    · rw [if_pos howner, if_neg fun hmem ↦ hdrop ⟨howner, hmem⟩, HomeServer.memoryRow, howner, hbox]
      rfl
    · rw [if_neg howner]
      rfl

theorem sparesRow_gcBox (home : HomeServer) (owner : IdentityId) (box : Mailbox)
    (key : IdentityId × ℕ) : (home.gcBox owner box).dirty.SparesRow key ↔
      home.dirty.SparesRow key ∧ ¬ home.GcDrops owner box key := by
  have hdropped : key ∈ (home.gcBox owner box).dirty.mailboxDropped ↔
      key ∈ home.dirty.mailboxDropped ∨ home.GcDrops owner box key := by
    rw [HomeServer.gcBox, List.mem_append, List.mem_map]
    refine or_congr_right ⟨?_, ?_⟩
    · rintro ⟨seq, hmem, rfl⟩
      exact ⟨rfl, hmem⟩
    · intro hdrops
      exact ⟨key.2, hdrops.2, Prod.ext hdrops.1.symm rfl⟩
  rw [HomeDirty.SparesRow, hdropped, not_or, HomeDirty.SparesRow]
  constructor
  · rintro ⟨hcleared, ⟨hold, hgc⟩, hacked⟩
    exact ⟨⟨hcleared, hold, hacked⟩, hgc⟩
  · rintro ⟨⟨hcleared, hold, hacked⟩, hgc⟩
    exact ⟨hcleared, ⟨hold, hgc⟩, hacked⟩

theorem memoryRow_ackBox {owner : IdentityId} {box : Mailbox} {upto : ℕ}
    (hbox : home.mailboxes.lookup owner = some box) (key : IdentityId × ℕ) :
    (key.1 = owner ∧ key.2 ≤ upto → (home.ackBox owner box upto).memoryRow key = none) ∧
      (¬ (key.1 = owner ∧ key.2 ≤ upto) →
        (home.ackBox owner box upto).memoryRow key = home.memoryRow key) := by
  rw [HomeServer.memoryRow, HomeServer.ackBox, memoryRow_insert, Mailbox.lookup_foldl_ackRow]
  constructor
  · rintro ⟨howner, hle⟩
    rw [if_pos howner]
    cases hrow : box.rows.lookup key.2 <;> simp [FiniteMap.mem_sortedKeys, hrow, hle]
  · intro hdrop
    by_cases howner : key.1 = owner
    · have hle : ¬ key.2 ≤ upto := fun hle ↦ hdrop ⟨howner, hle⟩
      rw [if_pos howner, if_neg (by simp [hle]), HomeServer.memoryRow, howner, hbox]
      rfl
    · rw [if_neg howner]
      rfl

theorem sparesRow_ackBox (home : HomeServer) (owner : IdentityId) (box : Mailbox) (upto : ℕ)
    (key : IdentityId × ℕ) : (home.ackBox owner box upto).dirty.SparesRow key ↔
      home.dirty.SparesRow key ∧ ¬ (key.1 = owner ∧ key.2 ≤ upto) := by
  have hmark : (∀ mark, (home.ackBox owner box upto).dirty.mailboxAcked.lookup key.1 = some mark →
      mark < key.2) ↔ (∀ mark, home.dirty.mailboxAcked.lookup key.1 = some mark → mark < key.2) ∧
        ¬ (key.1 = owner ∧ key.2 ≤ upto) := by
    rw [HomeServer.ackBox, lookup_raiseMark]
    by_cases howner : key.1 = owner
    · rw [if_pos howner]
      cases home.dirty.mailboxAcked.lookup key.1 <;> simp [howner]
    · simp [howner]
  rw [HomeDirty.SparesRow, hmark, HomeDirty.SparesRow]
  constructor
  · rintro ⟨hcleared, hdropped, hacked, hack⟩
    exact ⟨⟨hcleared, hdropped, hacked⟩, hack⟩
  · rintro ⟨⟨hcleared, hdropped, hacked⟩, hack⟩
    exact ⟨hcleared, hdropped, hacked, hack⟩

theorem marks_ackBox {owner : IdentityId} {box : Mailbox} {upto : ℕ}
    (hrange : upto < 2 ^ 63)
    (hmarks : ∀ o mark, home.dirty.mailboxAcked.lookup o = some mark → mark < 2 ^ 63)
    (o : IdentityId) (mark : ℕ)
    (hmark : (home.ackBox owner box upto).dirty.mailboxAcked.lookup o = some mark) :
    mark < 2 ^ 63 := by
  rw [HomeServer.ackBox, lookup_raiseMark] at hmark
  split_ifs at hmark with ho
  · cases hmark
    refine max_lt ?_ hrange
    cases hold : home.dirty.mailboxAcked.lookup o with
    | none => simp
    | some old => exact hmarks o old hold
  · exact hmarks o mark hmark

theorem Edit.rowsSynced (h : Edit crypto promises home home') (hsmall : promises.smallAcks)
    {rows : FiniteMap (IdentityId × ℕ) MailboxRow} (hrows : RowsSynced home rows) :
    RowsSynced home' rows := by
  have hedit : LoudEdit crypto promises home home' := .quiet h
  have hsame (hboxes : ∀ key, home'.memoryRow key = home.memoryRow key)
      (hnew : home'.dirty.mailboxNew = home.dirty.mailboxNew)
      (hspares : home'.dirty.SparesRow = home.dirty.SparesRow)
      (hacked : home'.dirty.mailboxAcked = home.dirty.mailboxAcked) : RowsSynced home' rows := by
    refine hrows.drop hedit hnew (hacked ▸ hrows.marks) (fun _ ↦ False) (fun _ ↦ False.elim)
      (fun key _ ↦ hboxes key) fun key ↦ ?_
    rw [hspares]
    simp
  cases h with
  | clock | nonces | sweepTime | rebind | pushToken | setToken | dropTokens | putDirectory |
    joinGroup | leaveGroups | setPrekeys | peers | outbound => exact hsame (fun _ ↦ rfl) rfl rfl rfl
  | register identityId ownerPk entry hnew hentry =>
    refine hsame (fun key ↦ ?_) rfl rfl rfl
    rw [HomeServer.memoryRow, HomeServer.mailboxes_addEntry, memoryRow_insert]
    split_ifs with howner
    · rw [HomeServer.memoryRow, howner, hnew]
      rfl
    · rfl
  | disable owner =>
    refine hrows.drop hedit rfl hrows.marks (fun key ↦ key.1 = owner) ?_ ?_ ?_
    · intro key howner
      rw [HomeServer.memoryRow, lookup_disableMailbox, if_pos howner]
      cases home.mailboxes.lookup key.1 with
      | none => rfl
      | some box => exact Mailbox.lookup_disable box key.2
    · intro key howner
      exact memoryRow_congr (by rw [lookup_disableMailbox, if_neg howner])
    · intro key
      have hcleared : key.1 ∈ (home.disableMailbox owner).dirty.mailboxCleared ↔
          key.1 = owner ∨ key.1 ∈ home.dirty.mailboxCleared := List.mem_insert_iff
      rw [HomeDirty.SparesRow, hcleared, not_or, HomeDirty.SparesRow]
      exact ⟨fun ⟨⟨howner, hold⟩, hrest⟩ ↦ ⟨⟨hold, hrest⟩, howner⟩,
        fun ⟨⟨hold, hrest⟩, howner⟩ ↦ ⟨⟨howner, hold⟩, hrest⟩⟩
  | gc owner box hbox =>
    exact hrows.drop hedit rfl hrows.marks (home.GcDrops owner box)
      (fun key ↦ (memoryRow_gcBox hbox key).1) (fun key ↦ (memoryRow_gcBox hbox key).2)
      (sparesRow_gcBox home owner box)
  | ack owner box upto hbox hrange =>
    exact hrows.drop hedit rfl (marks_ackBox (hrange hsmall) hrows.marks)
      (fun key ↦ key.1 = owner ∧ key.2 ≤ upto) (fun key ↦ (memoryRow_ackBox hbox key).1)
      (fun key ↦ (memoryRow_ackBox hbox key).2) (sparesRow_ackBox home owner box upto)

/-- A stored row goes under a number that neither journal nor database has used. -/
theorem RowsSynced.store {rows : FiniteMap (IdentityId × ℕ) MailboxRow} (h : RowsSynced home rows)
    {mailbox : IdentityId} {box : Mailbox} (hbox : home.mailboxes.lookup mailbox = some box)
    (inner : InnerEnvelope) (size : ℕ)
    (hedit : LoudEdit crypto promises home (home.storeRow mailbox box inner size)) :
    RowsSynced (home.storeRow mailbox box inner size) rows := by
  have hunused : ¬ ∃ box', home.mailboxes.lookup mailbox = some box' ∧
      box.nextSeq < box'.nextSeq := by
    rintro ⟨box', hbox', hlt⟩
    rw [hbox] at hbox'
    cases hbox'
    exact lt_irrefl _ hlt
  have hfresh : (mailbox, box.nextSeq) ∉ home.dirty.mailboxNew :=
    fun hmem ↦ hunused (h.newBelow _ hmem)
  have habsent : rows.lookup (mailbox, box.nextSeq) = none := by
    rw [← Option.not_isSome_iff_eq_none]
    exact fun hsome ↦ hunused (h.storedBelow _ hsome)
  have hrow (key : IdentityId × ℕ) (hkey : key ≠ (mailbox, box.nextSeq)) :
      (home.storeRow mailbox box inner size).memoryRow key = home.memoryRow key := by
    rw [HomeServer.memoryRow, HomeServer.storeRow, memoryRow_insert]
    split_ifs with howner
    · rw [Mailbox.push, FiniteMap.lookup_insert_ite, if_neg, HomeServer.memoryRow, howner, hbox]
      · rfl
      · exact fun hseq ↦ hkey (Prod.ext howner hseq)
    · rfl
  have hother {key : IdentityId × ℕ}
      (hkey : key ∉ (home.storeRow mailbox box inner size).dirty.mailboxNew) :
      key ∉ home.dirty.mailboxNew ∧ key ≠ (mailbox, box.nextSeq) := by
    rw [HomeServer.storeRow, List.mem_append, not_or, List.mem_singleton] at hkey
    exact hkey
  refine ⟨?_, ?_, ?_, fun key hkey ↦ hedit.below (h.storedBelow key hkey), h.marks, ?_, ?_⟩
  · exact h.newNodup.append (List.nodup_singleton _) (by simpa using hfresh)
  · intro key hkey hspared
    rcases List.mem_append.mp hkey with hold | hnew
    · exact h.newAbsent key hold hspared
    · rw [List.mem_singleton.mp hnew, habsent]
  · intro key hkey
    rcases List.mem_append.mp hkey with hold | hnew
    · exact hedit.below (h.newBelow key hold)
    · obtain rfl := List.mem_singleton.mp hnew
      refine ⟨box.push home.now home.limits.mailboxMaxAgeSecs inner size, ?_, Nat.lt_succ_self _⟩
      rw [HomeServer.storeRow, FiniteMap.lookup_insert_ite, if_pos rfl]
  · intro key hkey hspares
    rw [hrow key (hother hkey).2]
    exact h.gone key (hother hkey).1 hspares
  · intro key hkey hspares
    rw [hrow key (hother hkey).2]
    exact h.kept key (hother hkey).1 hspares

theorem LoudEdit.rowsSynced (h : LoudEdit crypto promises home home') (hsmall : promises.smallAcks)
    {rows : FiniteMap (IdentityId × ℕ) MailboxRow} (hrows : RowsSynced home rows) :
    RowsSynced home' rows := by
  have hedit := h
  cases h with
  | quiet h => exact h.rowsSynced hsmall hrows
  | store mailbox box inner padded hbox hlive hidem hencode hcanonical =>
    exact hrows.store hbox inner _ hedit
  | remember | note => exact ⟨hrows.newNodup, hrows.newAbsent, hrows.newBelow, hrows.storedBelow,
      hrows.marks, hrows.gone, hrows.kept⟩

/-! ## Tokens -/

theorem fits_of_loadToken {row : TokenRow} {kind : TokenKind} (h : loadToken row = .ok kind) :
    row.Fits kind := by
  unfold loadToken at h
  split_ifs at h with hshare hcontact
  · cases h
    exact ⟨hshare, rfl⟩
  · cases h
    exact ⟨hcontact, rfl⟩

theorem TokenRow.Fits.sameKind {row : TokenRow} {old kind : TokenKind} (h : row.Fits old)
    (hkind : old.SameKind kind) : row.Fits kind := by
  cases old <;> cases kind <;>
    simp_all [TokenKind.SameKind, TokenRow.Fits, TokenKind.tag, TokenKind.mailbox]

/-- A row that no token of memory claims is not spared. -/
theorem TokenTable.eq_none {tokens : Tokens} {marked : List Key} {rows : Key → Option TokenRow}
    (h : TokenTable tokens marked rows) {token : Key} (hfind : tokens.find token = none) :
    rows token = none := by
  cases hrow : rows token with
  | none => rfl
  | some row =>
    obtain ⟨kind, hkind, -⟩ := h.fits token row hrow
    rw [hfind] at hkind
    cases hkind

theorem TokenEdit.tokenTable {registers : Tokens → Key → IdentityId → Prop}
    {known : IdentityId → Prop} {s s' : TokenState} (h : TokenEdit registers known s s')
    (hfresh : ∀ tokens token owner, registers tokens token owner → token ∉ tokens.keys)
    (hkeys : s.tokens.keys.Nodup)
    {rows : FiniteMap Key TokenRow} (htable : TokenTable s.tokens s.marked (s.spared rows)) :
    TokenTable s'.tokens s'.marked (s'.spared rows) := by
  cases h with
  | same => exact htable
  | push token kind hmailbox hregisters =>
    have hnone : s.spared rows token = none :=
      htable.eq_none (Tokens.find_eq_none_iff.mpr (hfresh _ _ _ hregisters))
    constructor
    · intro token' row hrow
      have hne : token' ≠ token := by
        rintro rfl
        have hrow : s.spared rows token' = some row := hrow
        rw [hnone] at hrow
        cases hrow
      rw [Tokens.find_push, if_neg hne]
      exact htable.fits token' row hrow
    · intro token' htoken'
      rw [List.mem_insert_iff, not_or] at htoken'
      rw [Tokens.find_push, if_neg htoken'.1]
      exact htable.loads token' htoken'.2
  | set token old kind hold hkind =>
    constructor
    · intro token' row hrow
      obtain ⟨kind', hkind', hfits⟩ := htable.fits token' row hrow
      rw [Tokens.find_set]
      split_ifs with htoken
      · rw [htoken, hold] at hkind'
        cases hkind'
        rw [hold]
        exact ⟨kind, rfl, hfits.sameKind hkind⟩
      · exact ⟨kind', hkind', hfits⟩
    · intro token' htoken'
      rw [List.mem_insert_iff, not_or] at htoken'
      rw [Tokens.find_set, if_neg htoken'.1]
      exact htable.loads token' htoken'.2
  | drop dead =>
    have hspared (token : Key) : ({ s with
        tokens := s.tokens.filter fun entry ↦ entry.1 ∉ dead
        marked := s.marked.filter (· ∉ dead)
        droppedExact := s.droppedExact ∪ dead } : TokenState).spared rows token =
        if token ∈ dead then none else s.spared rows token := by
      unfold TokenState.spared
      split_ifs with hdead <;> cases rows.lookup token <;> simp [hdead]
    constructor
    · intro token row hrow
      rw [hspared] at hrow
      split_ifs at hrow with hdead
      rw [Tokens.find_filter_keys, if_neg hdead]
      exact htable.fits token row hrow
    · intro token htoken
      rw [hspared, Tokens.find_filter_keys]
      split_ifs with hdead
      · rfl
      · refine htable.loads token fun hmem ↦ htoken ?_
        exact List.mem_filter.mpr ⟨hmem, by simpa using hdead⟩
  | disable owner =>
    have hspared (token : Key) : ({ s with
        tokens := s.tokens.filter fun entry ↦ entry.2.mailbox ≠ owner
        droppedOwners := s.droppedOwners.insert owner } : TokenState).spared rows token =
        (s.spared rows token).filter fun row ↦ row.mailbox ≠ owner := by
      unfold TokenState.spared
      rw [Option.filter_filter]
      congr 1
      funext row
      by_cases howner : row.mailbox = owner <;> simp [howner]
    constructor
    · intro token row hrow
      rw [hspared, Option.filter_eq_some_iff] at hrow
      obtain ⟨kind, hkind, hfits⟩ := htable.fits token row hrow.1
      refine ⟨kind, ?_, hfits⟩
      rw [Tokens.find_filter_mailbox hkeys, hkind, Option.filter_eq_some_iff, ← hfits.2]
      exact ⟨rfl, hrow.2⟩
    · intro token htoken
      rw [hspared, Tokens.find_filter_mailbox hkeys]
      have hloads := htable.loads token htoken
      cases hrow : s.spared rows token with
      | none =>
        rw [hrow] at hloads
        cases hfind : s.tokens.find token with
        | none => rfl
        | some kind =>
          rw [hfind] at hloads
          cases hloads
      | some row =>
        obtain ⟨kind, hkind, hfits⟩ := htable.fits token row hrow
        rw [hrow, hkind] at hloads
        rw [hkind]
        by_cases howner : kind.mailbox = owner
        · rw [Option.filter_some_neg (by simp [hfits.2, howner]),
            Option.filter_some_neg (by simp [howner])]
          rfl
        · rw [Option.filter_some_pos (by simp [hfits.2, howner]),
            Option.filter_some_pos (by simp [howner])]
          exact hloads

/-! ## The other tables -/

theorem LoudEdit.serverIdentitySynced (h : LoudEdit crypto promises home home')
    {row : Option ServerIdentityRow}
    (hrow : home.dirty.serverIdentity = false → row = some (serverIdentityRow home)) :
    home'.dirty.serverIdentity = false → row = some (serverIdentityRow home') := by
  cases h with
  | store | remember | note => exact hrow
  | quiet h =>
    cases h with
    | clock | nonces | sweepTime | pushToken | setToken | dropTokens | register | putDirectory |
      disable | joinGroup | leaveGroups | setPrekeys | peers | gc | ack | outbound => exact hrow
    | rebind host s2sPort =>
      intro hclean
      cases hclean

theorem LoudEdit.prekeysSynced (h : LoudEdit crypto promises home home')
    {stored : IdentityId → List Bytes}
    (hstored : InStep home.dirty.prekeys stored fun o ↦ (home.prekeys.lookup o).getD []) :
    InStep home'.dirty.prekeys stored fun o ↦ (home'.prekeys.lookup o).getD [] := by
  cases h with
  | store | remember | note => exact hstored
  | quiet h =>
    cases h with
    | clock | nonces | sweepTime | rebind | pushToken | setToken | dropTokens | register |
      putDirectory | joinGroup | leaveGroups | peers | gc | ack | outbound => exact hstored
    | disable owner =>
      refine hstored.insert fun o ho ↦ ?_
      rw [HomeServer.disableMailbox, FiniteMap.lookup_erase_ite, if_neg ho]
    | setPrekeys owner queue hknown =>
      refine hstored.insert fun o ho ↦ ?_
      rw [HomeServer.setPrekeys, FiniteMap.lookup_insert_ite, if_neg ho]

theorem LoudEdit.membershipsSynced (h : LoudEdit crypto promises home home')
    {stored : IdentityId → List GroupId}
    (hstored : InStep home.dirty.memberships stored fun o ↦ (home.memberships.lookup o).getD []) :
    InStep home'.dirty.memberships stored fun o ↦ (home'.memberships.lookup o).getD [] := by
  cases h with
  | store | remember | note => exact hstored
  | quiet h =>
    cases h with
    | clock | nonces | sweepTime | rebind | pushToken | setToken | dropTokens | register |
      putDirectory | disable | setPrekeys | peers | gc | ack | outbound => exact hstored
    | leaveGroups identityId =>
      dsimp only
      unfold HomeServer.takeMemberships
      split
      · exact hstored
      · refine hstored.insert fun o ho ↦ ?_
        rw [FiniteMap.lookup_erase_ite, if_neg ho]
    | joinGroup identityId groupId hknown =>
      dsimp only
      by_cases hmem : groupId ∈ (home.memberships.lookup identityId).getD []
      · have hmarks : (home.noteGroupMembership identityId groupId).dirty.memberships =
            home.dirty.memberships := by
          rw [HomeServer.noteGroupMembership, if_pos hmem]
        rw [hmarks]
        refine hstored.edit (fun _ h ↦ h) fun o _ ↦ ?_
        rw [lookup_noteGroupMembership]
        split_ifs with ho hold
        · rfl
        · exact absurd (ho ▸ hmem) hold
        · rfl
      · have hmarks : (home.noteGroupMembership identityId groupId).dirty.memberships =
            home.dirty.memberships.insert identityId := by
          rw [HomeServer.noteGroupMembership, if_neg hmem]
        rw [hmarks]
        refine hstored.insert fun o ho ↦ ?_
        rw [lookup_noteGroupMembership, if_neg ho]

theorem peerRow_congr {p q : Option PeerState}
    (h : p.map PeerState.durable = q.map PeerState.durable) : p.map peerRow = q.map peerRow := by
  cases p <;> cases q <;> simp_all [PeerState.durable, peerRow]

theorem LoudEdit.peersSynced (h : LoudEdit crypto promises home home')
    {stored : ServerId → Option PeerRow}
    (hstored : InStep home.dirty.peers stored fun p ↦ (home.peers.lookup p).map peerRow) :
    InStep home'.dirty.peers stored fun p ↦ (home'.peers.lookup p).map peerRow := by
  cases h with
  | store | remember | note => exact hstored
  | quiet h =>
    cases h with
    | clock | nonces | sweepTime | rebind | pushToken | setToken | dropTokens | register |
      putDirectory | disable | joinGroup | leaveGroups | setPrekeys | gc | ack | outbound =>
      exact hstored
    | peers peers marked hmarked hkept hsame =>
      exact hstored.edit hmarked fun p hp ↦ peerRow_congr (hsame p hp)

theorem LoudEdit.peer_kept (h : LoudEdit crypto promises home home') {p : ServerId}
    (hp : (home.peers.lookup p).isSome) : (home'.peers.lookup p).isSome := by
  cases h with
  | store | remember | note => exact hp
  | quiet h =>
    cases h with
    | clock | nonces | sweepTime | rebind | pushToken | setToken | dropTokens | register |
      putDirectory | disable | joinGroup | leaveGroups | setPrekeys | gc | ack | outbound => exact hp
    | peers peers marked hmarked hkept hsame => exact hkept p hp

theorem LoudEdit.outboundSynced (h : LoudEdit crypto promises home home')
    {stored : List OutboundRecord}
    (hstored : home.dirty.outboundDirty = false → stored = home.outbound.map outboundRecord) :
    home'.dirty.outboundDirty = false → stored = home'.outbound.map outboundRecord := by
  cases h with
  | store | remember | note => exact hstored
  | quiet h =>
    cases h with
    | clock | nonces | sweepTime | rebind | pushToken | setToken | dropTokens | register |
      putDirectory | disable | joinGroup | leaveGroups | setPrekeys | peers | gc | ack =>
      exact hstored
    | outbound rows hsmall =>
      intro hclean
      cases hclean

theorem LoudEdit.seenSynced (h : LoudEdit crypto promises home home') {stored : FiniteMap Key ℕ}
    (hstored : home.dirty.seenEncCleared = false →
      SeenTable home.seenEnc home.dirty.seenEncNew stored) :
    home'.dirty.seenEncCleared = false →
      SeenTable home'.seenEnc home'.dirty.seenEncNew stored := by
  cases h with
  | store | note => exact hstored
  | quiet h =>
    cases h with
    | clock | nonces | sweepTime | rebind | pushToken | setToken | dropTokens | register |
      putDirectory | disable | joinGroup | leaveGroups | setPrekeys | peers | gc | ack |
      outbound => exact hstored
  | remember enc seq hnew =>
    intro hclean
    have hcleared : (home.dirty.seenEncCleared ||
        decide (home.seenEnc.entries.length ≥ hpkeEncWindow)) = false := hclean
    obtain ⟨hold, hfull⟩ := Bool.or_eq_false_iff.mp hcleared
    have htable := hstored hold
    have hunseen : enc ∉ home.dirty.seenEncNew := by
      intro hmem
      have := htable.newLive enc hmem
      rw [hnew] at this
      cases this
    unfold HomeServer.rememberEnc
    simp only [hold, hfull, Bool.or_false, Bool.false_eq_true, if_false]
    refine ⟨?_, ?_, ?_, ?_⟩
    · exact htable.newNodup.append (List.nodup_singleton _) (by simpa using hunseen)
    · intro enc' henc'
      rcases List.mem_append.mp henc' with hmem | hmem
      · exact htable.newAbsent enc' hmem
      · rw [List.mem_singleton.mp hmem, htable.kept enc hunseen, hnew]
    · intro enc' henc'
      rw [FiniteMap.lookup_insert_ite]
      split_ifs with heq
      · rfl
      · rcases List.mem_append.mp henc' with hmem | hmem
        · exact htable.newLive enc' hmem
        · exact absurd (List.mem_singleton.mp hmem) heq
    · intro enc' henc'
      rw [List.mem_append, not_or, List.mem_singleton] at henc'
      rw [FiniteMap.lookup_insert_ite, if_neg henc'.2]
      exact htable.kept enc' henc'.1

/-- Strict edits of a well-formed server keep journal and database in step with it. -/
theorem LoudEdit.synced (h : LoudEdit crypto promises home home') (hstrict : promises.Strict)
    (hvalid : home.Valid) {db : Database} (hsynced : Synced home db) : Synced home' db where
  serverIdentity := h.serverIdentitySynced hsynced.serverIdentity
  identities := h.identityStored hsynced.identities
  mailboxRows := h.rowsSynced hstrict.smallAcks hsynced.mailboxRows
  tokens := h.tokenEdit.tokenTable hstrict.fresh hvalid.tokenKeys hsynced.tokens
  prekeys := h.prekeysSynced hsynced.prekeys
  memberships := h.membershipsSynced hsynced.memberships
  peers := h.peersSynced hsynced.peers
  peersKnown p hp := h.peer_kept (hsynced.peersKnown p hp)
  outbound := h.outboundSynced hsynced.outbound
  hpkeSeen := h.seenSynced hsynced.hpkeSeen

theorem LoudEdits.synced (h : LoudEdits crypto promises home home') (hstrict : promises.Strict)
    {db : Database} (hstart : home.Valid ∧ Synced home db) : home'.Valid ∧ Synced home' db :=
  Chain.keeps (fun s ↦ s.Valid ∧ Synced s db)
    (fun _ _ hedit hs ↦ ⟨hedit.valid hstrict hs.1, hedit.synced hstrict hs.1 hs.2⟩) h hstart

end Edits

/-! ## Clean journals -/

section Clean

variable {home : HomeServer} {db : Database}

theorem HomeDirty.isClean_iff {dirty : HomeDirty} : dirty.isClean = true ↔ dirty = {} := by
  constructor
  · intro h
    simp only [HomeDirty.isClean, Bool.and_eq_true, Bool.not_eq_true', List.isEmpty_iff] at h
    obtain ⟨⟨⟨⟨⟨⟨⟨⟨⟨⟨⟨⟨⟨⟨h₁, h₂⟩, h₃⟩, h₄⟩, h₅⟩, h₆⟩, h₇⟩, h₈⟩, h₉⟩, h₁₀⟩, h₁₁⟩, h₁₂⟩, h₁₃⟩,
      h₁₄⟩, h₁₅⟩ := h
    have h₄ : dirty.mailboxAcked = ∅ := AList.ext h₄
    cases dirty
    simp_all
  · rintro rfl
    rfl

theorem spared_clean (hclean : home.dirty = {}) (rows : FiniteMap Key TokenRow) (token : Key) :
    home.tokenState.spared rows token = rows.lookup token := by
  unfold TokenState.spared HomeServer.tokenState
  rw [hclean]
  cases rows.lookup token <;> simp [Option.filter]

theorem sparesRow_clean (hclean : home.dirty = {}) (key : IdentityId × ℕ) :
    home.dirty.SparesRow key := by
  rw [hclean]
  exact ⟨List.not_mem_nil, List.not_mem_nil, by simp⟩

theorem Synced.stored (h : Synced home db) (hclean : home.dirty = {}) : Stored home db where
  serverIdentity := h.serverIdentity (by rw [hclean])
  identities id := h.identities id (by simp [hclean])
  mailboxRows key := h.mailboxRows.kept key (by simp [hclean]) (sparesRow_clean hclean key)
  tokens token := by
    rw [← spared_clean hclean]
    exact h.tokens.loads token (by simp [hclean])
  prekeys o := h.prekeys o (by simp [hclean])
  memberships o := h.memberships o (by simp [hclean])
  peers p := h.peers p (by simp [hclean])
  outbound := h.outbound (by rw [hclean])
  hpkeSeen enc := (h.hpkeSeen (by rw [hclean])).kept enc (by simp [hclean])

/-- Stored rows are rows of memory, under numbers that were given out. -/
theorem Stored.row_below (h : Stored home db) (hvalid : home.Valid) {key : IdentityId × ℕ}
    (hkey : (db.mailboxRows.lookup key).isSome) :
    ∃ box, home.mailboxes.lookup key.1 = some box ∧ key.2 < box.nextSeq := by
  rw [h.mailboxRows, Option.isSome_map] at hkey
  obtain ⟨row, hrow⟩ := Option.isSome_iff_exists.mp hkey
  obtain ⟨box, hbox, hin⟩ := Option.bind_eq_some_iff.mp hrow
  exact ⟨box, hbox, (hvalid.mailbox _ box hbox).seq_lt _ row hin⟩

theorem Stored.token_fits (h : Stored home db) {token : Key} {row : TokenRow}
    (hrow : db.tokens.lookup token = some row) :
    ∃ kind, home.tokens.find token = some kind ∧ loadToken row = .ok kind ∧ row.Fits kind := by
  have hloads := h.tokens token
  rw [hrow, Option.map_some] at hloads
  cases hfind : home.tokens.find token with
  | none =>
    rw [hfind] at hloads
    cases hloads
  | some kind =>
    rw [hfind, Option.map_some, Option.some_inj] at hloads
    exact ⟨kind, rfl, hloads, fits_of_loadToken hloads⟩

theorem Stored.synced (h : Stored home db) (hclean : home.dirty = {}) (hvalid : home.Valid) :
    Synced home db where
  serverIdentity _ := h.serverIdentity
  identities id _ := h.identities id
  mailboxRows :=
    { newNodup := by simp [hclean]
      newAbsent := by simp [hclean]
      newBelow := by simp [hclean]
      storedBelow := fun _ hkey ↦ h.row_below hvalid hkey
      marks := by simp [hclean]
      gone := fun key _ hgone ↦ absurd (sparesRow_clean hclean key) hgone
      kept := fun key _ _ ↦ h.mailboxRows key }
  tokens :=
    { fits := by
        intro token row hrow
        rw [spared_clean hclean] at hrow
        obtain ⟨kind, hfind, -, hfits⟩ := h.token_fits hrow
        exact ⟨kind, hfind, hfits⟩
      loads := by
        intro token _
        rw [spared_clean hclean]
        exact h.tokens token }
  prekeys o _ := h.prekeys o
  memberships o _ := h.memberships o
  peers p _ := h.peers p
  peersKnown p hp := by
    rw [h.peers, Option.isSome_map] at hp
    exact hp
  outbound _ := h.outbound
  hpkeSeen _ := by
    rw [hclean]
    exact ⟨List.nodup_nil, by simp, by simp, fun enc _ ↦ h.hpkeSeen enc⟩

end Clean

end NemoMessenger.Server
