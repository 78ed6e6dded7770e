import NemoMessenger.Server.Sync

/-!
# Replaying the journal

From a well-formed server in step with the database, the home half of `persist_inner` meets no
violated constraint and leaves in the database what memory holds. A drained journal that is
merged back after a failure is as good as the one that was drained.
-/

namespace NemoMessenger.Server

open NemoMessenger.Data NemoMessenger.Wire

variable {home : HomeServer} {db : Database}

/-! ## Merging back -/

theorem lookup_foldl_raiseMark {entries : List (Sigma fun _ : IdentityId ↦ ℕ)}
    (hnodup : entries.NodupKeys) (marks : FiniteMap IdentityId ℕ)
    (hnew : ∀ e ∈ entries, marks.lookup e.1 = none) (o : IdentityId) :
    (entries.foldl (fun marks e ↦ HomeDirty.raiseMark marks e.1 e.2) marks).lookup o =
      (marks.lookup o).or (entries.dlookup o) := by
  induction entries generalizing marks with
  | nil => simp
  | cons e entries ih =>
    obtain ⟨owner, upto⟩ := e
    obtain ⟨hnotin, hrest⟩ := List.nodupKeys_cons.mp hnodup
    have howner : marks.lookup owner = none := hnew ⟨owner, upto⟩ List.mem_cons_self
    have hfresh : ∀ e ∈ entries, (HomeDirty.raiseMark marks owner upto).lookup e.1 = none := by
      intro e he
      have hne : e.1 ≠ owner := by
        rintro rfl
        exact hnotin (List.mem_keys.mpr ⟨e.2, he⟩)
      rw [lookup_raiseMark, if_neg hne]
      exact hnew e (List.mem_cons_of_mem _ he)
    rw [List.foldl_cons, ih hrest _ hfresh, lookup_raiseMark]
    by_cases ho : o = owner
    · subst ho
      simp [howner]
    · rw [if_neg ho, List.dlookup_cons_ne _ _ ho]

theorem lookup_absorb_mailboxAcked (dirty : HomeDirty) (o : IdentityId) :
    (HomeDirty.absorb {} dirty).mailboxAcked.lookup o = dirty.mailboxAcked.lookup o := by
  have h := lookup_foldl_raiseMark dirty.mailboxAcked.nodupKeys ∅ (by simp) o
  rw [AList.lookup_empty, Option.none_or] at h
  exact h

theorem HomeDirty.sparesRow_absorb (dirty : HomeDirty) :
    (HomeDirty.absorb {} dirty).SparesRow = dirty.SparesRow := by
  funext key
  unfold HomeDirty.SparesRow
  rw [lookup_absorb_mailboxAcked]
  rfl

theorem RowsSynced.absorb {rows : FiniteMap (IdentityId × ℕ) MailboxRow}
    (h : RowsSynced home rows) :
    RowsSynced { home with dirty := HomeDirty.absorb {} home.dirty } rows := by
  have hspares := home.dirty.sparesRow_absorb
  refine ⟨h.newNodup, ?_, h.newBelow, h.storedBelow, ?_, ?_, ?_⟩
  · intro key hkey hspared
    rw [hspares] at hspared
    exact h.newAbsent key hkey hspared
  · intro o mark hmark
    rw [lookup_absorb_mailboxAcked] at hmark
    exact h.marks o mark hmark
  · intro key hkey hgone
    rw [hspares] at hgone
    exact h.gone key hkey hgone
  · intro key hkey hspared
    rw [hspares] at hspared
    exact h.kept key hkey hspared

/-- A drained journal merged back into an empty one keeps the server in step. -/
theorem Synced.absorb (h : Synced home db) :
    Synced { home with dirty := HomeDirty.absorb {} home.dirty } db :=
  ⟨h.serverIdentity, h.identities, h.mailboxRows.absorb, h.tokens, h.prekeys, h.memberships,
    h.peers, h.peersKnown, h.outbound, h.hpkeSeen⟩

/-! ## Mailbox rows -/

/-- The rows the deletions of a journal leave. -/
def sparedRows (hd : HomeDirty) (rows : FiniteMap (IdentityId × ℕ) MailboxRow) :
    FiniteMap (IdentityId × ℕ) MailboxRow :=
  hd.mailboxAcked.entries.foldl Database.deleteMailboxAcked
    (hd.mailboxDropped.foldl Database.deleteMailboxExact
      (hd.mailboxCleared.foldl Database.deleteMailboxAll rows))

theorem lookup_sparedRows {hd : HomeDirty}
    (hmarks : ∀ o mark, hd.mailboxAcked.lookup o = some mark → mark < 2 ^ 63)
    (rows : FiniteMap (IdentityId × ℕ) MailboxRow) (key : IdentityId × ℕ) :
    (hd.SparesRow key → (sparedRows hd rows).lookup key = rows.lookup key) ∧
      (¬ hd.SparesRow key → (sparedRows hd rows).lookup key = none) := by
  have hacked : (∀ e ∈ hd.mailboxAcked.entries, ¬ (key.1 = e.1 ∧ (key.2 : ℤ) ≤ asI64 e.2)) ↔
      ∀ mark, hd.mailboxAcked.lookup key.1 = some mark → mark < key.2 := by
    constructor
    · intro h mark hmark
      have := h _ (FiniteMap.lookup_eq_some_iff.mp hmark)
      rw [asI64_of_lt (hmarks _ mark hmark)] at this
      simpa using this
    · rintro h ⟨owner, mark⟩ he ⟨rfl, hle⟩
      have hmark := FiniteMap.lookup_eq_some_iff.mpr he
      have hlt := h mark hmark
      rw [asI64_of_lt (hmarks _ mark hmark)] at hle
      omega
  have hfold : (sparedRows hd rows).lookup key =
      (((rows.lookup key).filter fun _ ↦ hd.mailboxCleared.all fun o ↦ decide (key.1 ≠ o)).filter
        fun _ ↦ hd.mailboxDropped.all fun k ↦ decide (key ≠ k)).filter
          fun _ ↦ hd.mailboxAcked.entries.all fun e ↦
            decide (¬ (key.1 = e.1 ∧ (key.2 : ℤ) ≤ asI64 e.2)) := by
    unfold sparedRows Database.deleteMailboxAcked Database.deleteMailboxExact
      Database.deleteMailboxAll
    rw [FiniteMap.lookup_foldl_retain, FiniteMap.lookup_foldl_retain,
      FiniteMap.lookup_foldl_retain]
  have hspares : hd.SparesRow key ↔
      ((hd.mailboxCleared.all fun o ↦ decide (key.1 ≠ o)) = true ∧
        (hd.mailboxDropped.all fun k ↦ decide (key ≠ k)) = true ∧
        (hd.mailboxAcked.entries.all fun e ↦
          decide (¬ (key.1 = e.1 ∧ (key.2 : ℤ) ≤ asI64 e.2))) = true) := by
    simp only [List.all_eq_true, decide_eq_true_eq]
    rw [hacked, HomeDirty.SparesRow]
    refine and_congr ⟨?_, ?_⟩ (and_congr ⟨?_, ?_⟩ Iff.rfl)
    · exact fun h o ho heq ↦ h (heq ▸ ho)
    · exact fun h hmem ↦ h _ hmem rfl
    · exact fun h k hk heq ↦ h (heq ▸ hk)
    · exact fun h hmem ↦ h _ hmem rfl
  rw [hfold, hspares]
  constructor
  · rintro ⟨hcleared, hdropped, hack⟩
    rw [hcleared, hdropped, hack]
    cases rows.lookup key <;> rfl
  · intro hnot
    cases hrow : rows.lookup key with
    | none => rfl
    | some row =>
      rw [← Option.not_isSome_iff_eq_none]
      intro hsome
      obtain ⟨v, hv⟩ := Option.isSome_iff_exists.mp hsome
      simp only [Option.filter_eq_some_iff] at hv
      exact hnot ⟨hv.1.1.2, hv.1.2, hv.2⟩

theorem HomeServer.Valid.encodes (hvalid : home.Valid) : home.Encodes := by
  intro key row h
  obtain ⟨box, hbox, hrow⟩ := Option.bind_eq_some_iff.mp h
  obtain ⟨bytes, hencode, -⟩ :=
    InnerEnvelope.decodePadded_encodePadded ((hvalid.mailbox _ box hbox).canonical _ row hrow)
  exact ⟨bytes, hencode⟩

theorem encodePadded_of_memoryRow (hlog : home.LogInv) (hencodes : home.Encodes)
    {key : IdentityId × ℕ} {row : StoredEnvelope} (h : home.memoryRow key = some row) :
    row.seq = key.2 ∧ row.inner.encodePadded = .ok (mailboxRowOf row).innerPadded := by
  obtain ⟨box, hbox, hrow⟩ := Option.bind_eq_some_iff.mp h
  obtain ⟨bytes, hbytes⟩ := hencodes key row h
  have hpadded : (mailboxRowOf row).innerPadded = bytes := by
    rw [mailboxRowOf, hbytes]
  rw [hpadded]
  exact ⟨(hlog _ box hbox).seq_eq _ row hrow, hbytes⟩

/-- The rows collected for insertion are the marked rows that are still in memory. -/
theorem newMailboxRows_eq (hlog : home.LogInv) (hencodes : home.Encodes)
    (newRows : List (IdentityId × ℕ)) :
    Database.newMailboxRows home newRows = .ok (newRows.filterMap fun key ↦
      (home.memoryRow key).map fun row ↦ (key, mailboxRowOf row)) := by
  unfold Database.newMailboxRows
  induction newRows with
  | nil => rfl
  | cons key newRows ih =>
    have hrow : ((home.mailboxes.lookup key.1).bind fun box ↦
        (box.rows.lookup key.2).map fun row ↦ (key.1, row)) =
        (home.memoryRow key).map fun row ↦ (key.1, row) := by
      rw [HomeServer.memoryRow, Option.map_bind]
      rfl
    rw [List.filterMap_cons, List.filterMap_cons, hrow]
    cases hmem : home.memoryRow key with
    | none => exact ih
    | some row =>
      obtain ⟨hseq, hencode⟩ := encodePadded_of_memoryRow hlog hencodes hmem
      simp only [Option.map_some, List.mapM_cons, hencode, ih, hseq]
      rfl

/-- A row of memory violates neither the foreign key nor the unique index among other rows of
memory. -/
theorem mailboxRowOk_of_memory (hlog : home.LogInv)
    {identities : FiniteMap IdentityId IdentityRow}
    (hknown : ∀ o, (home.mailboxes.lookup o).isSome → (identities.lookup o).isSome)
    {sub : FiniteMap (IdentityId × ℕ) MailboxRow} {key : IdentityId × ℕ} {row : MailboxRow}
    (hsub : ∀ k v, sub.lookup k = some v → (home.memoryRow k).map mailboxRowOf = some v)
    (hnone : sub.lookup key = none) (hrow : (home.memoryRow key).map mailboxRowOf = some row) :
    Database.mailboxRowOk identities sub key row := by
  obtain ⟨stored, hstored, rfl⟩ := Option.map_eq_some_iff.mp hrow
  obtain ⟨box, hbox, hin⟩ := Option.bind_eq_some_iff.mp hstored
  unfold Database.mailboxRowOk
  rw [Bool.and_eq_true, List.all_eq_true]
  refine ⟨hknown _ (by rw [hbox]; rfl), ?_⟩
  rintro ⟨⟨o, s⟩, other⟩ hother
  rw [Bool.or_eq_true, decide_eq_true_eq, decide_eq_true_eq]
  by_contra! hclash
  obtain ⟨howner, htoken⟩ := hclash
  have hlookup := FiniteMap.lookup_eq_some_iff.mpr hother
  obtain ⟨stored', hstored', rfl⟩ := Option.map_eq_some_iff.mp (hsub _ _ hlookup)
  obtain ⟨box', hbox', hin'⟩ := Option.bind_eq_some_iff.mp hstored'
  dsimp only at howner hbox' hin'
  rw [howner, hbox] at hbox'
  cases hbox'
  -- one token in one mailbox: the two rows are one row, which `sub` would already hold
  have hseq : s = key.2 := (hlog _ box hbox).seq_unique hin' hin htoken
  rw [howner, hseq] at hlookup
  rw [hnone] at hlookup
  cases hlookup

/-- `insert_mailbox_rows` leaves exactly the rows of memory. -/
theorem insertMailboxRows_eq_ok (hlog : home.LogInv) (hencodes : home.Encodes)
    (hsynced : RowsSynced home db.mailboxRows)
    {identities : FiniteMap IdentityId IdentityRow}
    (hknown : ∀ o, (home.mailboxes.lookup o).isSome → (identities.lookup o).isSome) :
    ∃ rows, Database.insertMailboxRows identities home home.dirty.mailboxNew
        (sparedRows home.dirty db.mailboxRows) = .ok rows ∧
      ∀ key, rows.lookup key = (home.memoryRow key).map mailboxRowOf := by
  have hspared := lookup_sparedRows hsynced.marks db.mailboxRows
  have hnew {key : IdentityId × ℕ} (hkey : key ∈ home.dirty.mailboxNew) :
      (sparedRows home.dirty db.mailboxRows).lookup key = none := by
    by_cases h : home.dirty.SparesRow key
    · rw [(hspared key).1 h, hsynced.newAbsent key hkey h]
    · exact (hspared key).2 h
  have hold {key : IdentityId × ℕ} (hkey : key ∉ home.dirty.mailboxNew) :
      (sparedRows home.dirty db.mailboxRows).lookup key =
        (home.memoryRow key).map mailboxRowOf := by
    by_cases h : home.dirty.SparesRow key
    · rw [(hspared key).1 h, hsynced.kept key hkey h]
    · rw [(hspared key).2 h, hsynced.gone key hkey h]
      rfl
  set entries := home.dirty.mailboxNew.filterMap fun key ↦
    (home.memoryRow key).map fun row ↦ (key, mailboxRowOf row) with hentries
  have hentry (key : IdentityId × ℕ) (row : MailboxRow) : (key, row) ∈ entries ↔
      key ∈ home.dirty.mailboxNew ∧ (home.memoryRow key).map mailboxRowOf = some row := by
    rw [hentries, List.mem_filterMap]
    constructor
    · rintro ⟨key', hkey', hrow⟩
      obtain ⟨stored, hmem, heq⟩ := Option.map_eq_some_iff.mp hrow
      cases heq
      exact ⟨hkey', by rw [hmem]; rfl⟩
    · rintro ⟨hkey, hrow⟩
      obtain ⟨stored, hmem, rfl⟩ := Option.map_eq_some_iff.mp hrow
      exact ⟨key, hkey, by rw [hmem]; rfl⟩
  have hnodup : (entries.map Prod.fst).Nodup := by
    have hsub : (entries.map Prod.fst).Sublist home.dirty.mailboxNew := by
      rw [hentries, List.map_filterMap]
      generalize home.dirty.mailboxNew = keys
      induction keys with
      | nil => simp
      | cons key keys ih =>
        cases hrow : home.memoryRow key with
        | none => simpa [hrow] using ih.cons key
        | some row => simpa [hrow] using ih.cons_cons key
    exact hsynced.newNodup.sublist hsub
  obtain ⟨rows, hrows, hlookup⟩ := FiniteMap.insertAll_eq_ok PersistError.sqlx
    (Database.mailboxRowOk identities) (fun key ↦ (home.memoryRow key).map mailboxRowOf) hnodup
    (fun e he ↦ hnew ((hentry e.1 e.2).mp he).1) (fun e he ↦ ((hentry e.1 e.2).mp he).2)
    (fun key row hrow ↦ by
      by_cases hkey : key ∈ home.dirty.mailboxNew
      · rw [hnew hkey] at hrow
        cases hrow
      · rw [← hold hkey, hrow])
    fun sub key row he hsub hnone ↦
      mailboxRowOk_of_memory hlog hknown hsub hnone ((hentry key row).mp he).2
  refine ⟨rows, ?_, fun key ↦ ?_⟩
  · rw [Database.insertMailboxRows, newMailboxRows_eq hlog hencodes]
    exact hrows
  · rw [hlookup]
    split_ifs with hkey
    · rfl
    · by_cases hmarked : key ∈ home.dirty.mailboxNew
      · -- a marked row that memory no longer has
        rw [hnew hmarked]
        cases hrow : home.memoryRow key with
        | none => rfl
        | some row =>
          refine absurd (List.mem_map.mpr ⟨(key, mailboxRowOf row), ?_, rfl⟩) hkey
          exact (hentry _ _).mpr ⟨hmarked, by rw [hrow]; rfl⟩
      · exact hold hmarked

/-! ## Tokens -/

theorem loadToken_tokenRow {old : Option TokenRow} {kind : TokenKind}
    (hold : ∀ row, old = some row → row.Fits kind) :
    loadToken (Database.tokenRow old kind) = .ok kind := by
  cases old with
  | none => cases kind <;> rfl
  | some row =>
    have hkind := (hold row rfl).1
    cases kind <;> simp_all [loadToken, Database.tokenRow, TokenKind.tag]

theorem fits_tokenRow {old : Option TokenRow} {kind : TokenKind}
    (hold : ∀ row, old = some row → row.Fits kind) : (Database.tokenRow old kind).Fits kind :=
  fits_of_loadToken (loadToken_tokenRow hold)

/-- With distinct keys the first entry under a key is the last one. -/
theorem find?_tokens (hvalid : home.Valid) (token : Key) :
    (home.tokens.find? fun entry ↦ entry.1 = token).map Prod.snd = home.tokens.find token := by
  cases hfirst : home.tokens.find? fun entry ↦ entry.1 = token with
  | none =>
    symm
    rw [Option.map_none, Tokens.find_eq_none_iff]
    intro hmem
    obtain ⟨entry, hentry, hkey⟩ := List.mem_map.mp hmem
    simpa [hkey] using List.find?_eq_none.mp hfirst entry hentry
  | some entry =>
    have hkey : entry.1 = token := by simpa using List.find?_some hfirst
    rw [Option.map_some, Tokens.find_eq_some_of_mem hvalid.tokenKeys]
    exact hkey ▸ List.mem_of_find?_eq_some hfirst

/-- One upsert takes one mark off the table. -/
theorem TokenTable.upsert (hvalid : home.Valid) {identities : FiniteMap IdentityId IdentityRow}
    (hknown : ∀ o, (home.mailboxes.lookup o).isSome → (identities.lookup o).isSome)
    {token : Key} {marked : List Key} {rows : FiniteMap Key TokenRow}
    (h : TokenTable home.tokens (token :: marked) rows.lookup) :
    ∃ rows', Database.upsertToken identities home rows token = .ok rows' ∧
      TokenTable home.tokens marked rows'.lookup := by
  have hfirst := find?_tokens hvalid token
  have hothers {token' : Key} (hmarked : token' ∉ marked) (hne : token' ≠ token) :
      token' ∉ token :: marked := by
    rw [List.mem_cons, not_or]
    exact ⟨hne, hmarked⟩
  unfold Database.upsertToken
  split
  · rename_i hnone
    rw [hnone, Option.map_none] at hfirst
    refine ⟨rows, rfl, h.fits, fun token' hmarked ↦ ?_⟩
    by_cases heq : token' = token
    · rw [heq, ← hfirst, h.eq_none hfirst.symm]
      rfl
    · exact h.loads token' (hothers hmarked heq)
  · rename_i kind hsome
    rw [hsome, Option.map_some] at hfirst
    have hmailbox : (identities.lookup kind.mailbox).isSome :=
      hknown _ (hvalid.tokenMailbox _ (Tokens.mem_of_find hfirst.symm))
    have hold : ∀ row, rows.lookup token = some row → row.Fits kind := by
      intro row hrow
      obtain ⟨kind', hkind', hfits⟩ := h.fits token row hrow
      rw [← hfirst] at hkind'
      cases hkind'
      exact hfits
    rw [if_pos hmailbox]
    refine ⟨_, rfl, ?_, ?_⟩
    · intro token' row hrow
      rw [FiniteMap.lookup_insert_ite] at hrow
      split_ifs at hrow with heq
      · cases hrow
        exact ⟨kind, heq ▸ hfirst.symm, fits_tokenRow hold⟩
      · exact h.fits token' row hrow
    · intro token' hmarked
      rw [FiniteMap.lookup_insert_ite]
      split_ifs with heq
      · rw [heq, ← hfirst, Option.map_some, loadToken_tokenRow hold]
        rfl
      · exact h.loads token' (hothers hmarked heq)

theorem TokenTable.foldlM (hvalid : home.Valid) {identities : FiniteMap IdentityId IdentityRow}
    (hknown : ∀ o, (home.mailboxes.lookup o).isSome → (identities.lookup o).isSome)
    {marked : List Key} {rows : FiniteMap Key TokenRow}
    (h : TokenTable home.tokens marked rows.lookup) :
    ∃ rows', marked.foldlM (Database.upsertToken identities home) rows = .ok rows' ∧
      TokenTable home.tokens [] rows'.lookup := by
  induction marked generalizing rows with
  | nil => exact ⟨rows, rfl, h⟩
  | cons token marked ih =>
    obtain ⟨rows', hrows', h'⟩ := h.upsert hvalid hknown
    rw [List.foldlM_cons, hrows']
    exact ih h'

theorem lookup_sparedTokens (s : TokenState) (rows : FiniteMap Key TokenRow) (token : Key) :
    (s.droppedExact.foldl Database.deleteTokenExact
      (s.droppedOwners.foldl Database.deleteTokensOwner rows)).lookup token =
        s.spared rows token := by
  unfold Database.deleteTokenExact Database.deleteTokensOwner TokenState.spared
  rw [FiniteMap.lookup_foldl_retain, FiniteMap.lookup_foldl_retain, Option.filter_filter]
  congr 1
  funext row
  have howner : (s.droppedOwners.all fun o ↦ decide (row.mailbox ≠ o)) =
      decide (row.mailbox ∉ s.droppedOwners) := by
    rw [Bool.eq_iff_iff, List.all_eq_true, decide_eq_true_eq]
    simp only [decide_eq_true_eq]
    exact ⟨fun h hmem ↦ h _ hmem rfl, fun h o ho heq ↦ h (heq ▸ ho)⟩
  have hexact : (s.droppedExact.all fun t ↦ decide (token ≠ t)) =
      decide (token ∉ s.droppedExact) := by
    rw [Bool.eq_iff_iff, List.all_eq_true, decide_eq_true_eq]
    simp only [decide_eq_true_eq]
    exact ⟨fun h hmem ↦ h _ hmem rfl, fun h t ht heq ↦ h (heq ▸ ht)⟩
  rw [howner, hexact]

/-! ## The other tables -/

theorem rewritePrekeys_eq_ok (hvalid : home.Valid)
    {identities : FiniteMap IdentityId IdentityRow}
    (hknown : ∀ o, (home.mailboxes.lookup o).isSome → (identities.lookup o).isSome)
    (rows : List (IdentityId × Bytes)) (owner : IdentityId) :
    Database.rewritePrekeys identities home rows owner =
      .ok (rewriteRows (fun o ↦ (home.prekeys.lookup o).getD []) rows owner) := by
  unfold Database.rewritePrekeys rewriteRows
  dsimp only
  split
  · rename_i hnone
    simp [hnone]
  · rename_i hnil
    simp [hnil]
  · rename_i queue hne hqueue
    rw [if_pos (hknown _ (hvalid.prekeyOwner owner queue hqueue hne)), hqueue]
    rfl

theorem rewriteMemberships_eq_ok (hvalid : home.Valid)
    {identities : FiniteMap IdentityId IdentityRow}
    (hknown : ∀ o, (home.mailboxes.lookup o).isSome → (identities.lookup o).isSome)
    (rows : List (IdentityId × GroupId)) (owner : IdentityId) :
    Database.rewriteMemberships identities home rows owner =
      .ok (rewriteRows (fun o ↦ (home.memberships.lookup o).getD []) rows owner) := by
  unfold Database.rewriteMemberships rewriteRows
  dsimp only
  split
  · rename_i hnone
    simp [hnone]
  · rename_i hnil
    simp [hnil]
  · rename_i list hne hlist
    obtain ⟨hnodup, hmember⟩ := hvalid.member owner list hlist
    rw [if_pos ⟨hknown _ (hmember hne), hnodup⟩, hlist]
    rfl

theorem insertSeenNew_eq_ok (hseen : SeenTable home.seenEnc home.dirty.seenEncNew db.hpkeSeen) :
    ∃ rows, Database.insertSeenNew home home.dirty.seenEncNew db.hpkeSeen = .ok rows ∧
      ∀ enc, rows.lookup enc = home.seenEnc.lookup enc := by
  have hkeys : (home.dirty.seenEncNew.filterMap fun enc ↦
      (home.seenEnc.lookup enc).map fun seq ↦ (enc, seq)).map Prod.fst =
        home.dirty.seenEncNew := by
    have hlive := hseen.newLive
    generalize home.dirty.seenEncNew = encs at hlive
    induction encs with
    | nil => rfl
    | cons enc encs ih =>
      obtain ⟨seq, hseq⟩ := Option.isSome_iff_exists.mp (hlive enc List.mem_cons_self)
      rw [List.filterMap_cons, hseq]
      exact congrArg (List.cons enc) (ih fun e he ↦ hlive e (List.mem_cons_of_mem _ he))
  have hentry {e : Key × ℕ} (he : e ∈ home.dirty.seenEncNew.filterMap fun enc ↦
      (home.seenEnc.lookup enc).map fun seq ↦ (enc, seq)) :
      e.1 ∈ home.dirty.seenEncNew ∧ home.seenEnc.lookup e.1 = some e.2 := by
    obtain ⟨enc, henc, hseq⟩ := List.mem_filterMap.mp he
    obtain ⟨seq, hlookup, rfl⟩ := Option.map_eq_some_iff.mp hseq
    exact ⟨henc, hlookup⟩
  obtain ⟨rows, hrows, hlookup⟩ := FiniteMap.insertAll_eq_ok PersistError.sqlx (fun _ _ _ ↦ true)
    home.seenEnc.lookup (by rw [hkeys]; exact hseen.newNodup)
    (fun e he ↦ hseen.newAbsent _ (hentry he).1) (fun e he ↦ (hentry he).2)
    (fun enc seq h ↦ by
      by_cases hnew : enc ∈ home.dirty.seenEncNew
      · rw [hseen.newAbsent enc hnew] at h
        cases h
      · rw [← hseen.kept enc hnew, h])
    fun _ _ _ _ _ _ ↦ rfl
  refine ⟨rows, hrows, fun enc ↦ ?_⟩
  rw [hlookup, hkeys]
  split_ifs with hnew
  · rfl
  · exact hseen.kept enc hnew

/-! ## The home half of the transaction -/

/-- The tables of the group host are the same. -/
def Database.SameGroups (db db' : Database) : Prop :=
  db'.groups = db.groups ∧ db'.groupCreds = db.groupCreds ∧ db'.groupInvites = db.groupInvites ∧
    db'.groupPending = db.groupPending ∧ db'.groupStream = db.groupStream ∧
    db'.groupFiles = db.groupFiles

/-- From a well-formed server in step with the database the home half of `persist_inner` succeeds,
and the database it leaves holds what memory holds. -/
theorem persistHome_eq_ok (hvalid : home.Valid) (hsynced : Synced home db) :
    ∃ db', Database.persistHome home home.dirty db = .ok db' ∧ Stored home db' ∧
      db.SameGroups db' := by
  have hidentity (id : IdentityId) : IdentityStored home id
      ((FiniteMap.upsertAll (identityRow home) home.dirty.identities db.identities).lookup id) := by
    rw [FiniteMap.lookup_upsertAll]
    split_ifs with hmarked
    · exact .inl rfl
    · exact hsynced.identities id hmarked
  have hknown (o : IdentityId) (ho : (home.mailboxes.lookup o).isSome) :
      ((FiniteMap.upsertAll (identityRow home) home.dirty.identities
        db.identities).lookup o).isSome := by
    rcases hidentity o with hrow | ⟨-, hnone⟩
    · rw [hrow]
      rfl
    · have hbox := (Prod.ext_iff.mp hnone).1
      rw [HomeServer.identityView, Option.map_eq_none_iff] at hbox
      rw [hbox] at ho
      cases ho
  obtain ⟨mailboxRows, hmailboxRows, hrows⟩ :=
    insertMailboxRows_eq_ok hvalid.logInv hvalid.encodes hsynced.mailboxRows hknown
  have htable : TokenTable home.tokens home.dirty.tokens
      (home.dirty.tokensDroppedExact.foldl Database.deleteTokenExact
        (home.dirty.tokensDropped.foldl Database.deleteTokensOwner db.tokens)).lookup := by
    have hspared := lookup_sparedTokens home.tokenState db.tokens
    exact ⟨fun token row hrow ↦ hsynced.tokens.fits token row (hspared token ▸ hrow),
      fun token hmarked ↦ (hspared token).symm ▸ hsynced.tokens.loads token hmarked⟩
  obtain ⟨tokens, htokens, htable'⟩ := htable.foldlM hvalid hknown
  have hprekeys := foldlM_eq_ok home.dirty.prekeys
    (fun rows o _ ↦ rewritePrekeys_eq_ok hvalid hknown rows o) db.prekeys
  have hmemberships := foldlM_eq_ok home.dirty.memberships
    (fun rows o _ ↦ rewriteMemberships_eq_ok hvalid hknown rows o) db.memberships
  have hseen : ∃ rows, Database.writeSeen home home.dirty db.hpkeSeen = .ok rows ∧
      ∀ enc, rows.lookup enc = home.seenEnc.lookup enc := by
    unfold Database.writeSeen
    cases hcleared : home.dirty.seenEncCleared with
    | true => exact ⟨home.seenEnc, rfl, fun _ ↦ rfl⟩
    | false => exact insertSeenNew_eq_ok (hsynced.hpkeSeen hcleared)
  obtain ⟨hpkeSeen, hhpkeSeen, hseenRows⟩ := hseen
  refine ⟨{ db with
    serverIdentity :=
      if home.dirty.serverIdentity then some (serverIdentityRow home) else db.serverIdentity
    identities := FiniteMap.upsertAll (identityRow home) home.dirty.identities db.identities
    mailboxRows := mailboxRows
    tokens := tokens
    prekeys := home.dirty.prekeys.foldl
      (rewriteRows fun o ↦ (home.prekeys.lookup o).getD []) db.prekeys
    memberships := home.dirty.memberships.foldl
      (rewriteRows fun o ↦ (home.memberships.lookup o).getD []) db.memberships
    peers := home.dirty.peers.foldl (Database.upsertPeer home) db.peers
    outbound :=
      if home.dirty.outboundDirty then home.outbound.map outboundRecord else db.outbound
    hpkeSeen := hpkeSeen }, ?_, ?_, ⟨rfl, rfl, rfl, rfl, rfl, rfl⟩⟩
  · unfold Database.persistHome
    unfold sparedRows at hmailboxRows
    simp only [hmailboxRows, htokens, hprekeys, hmemberships, hhpkeSeen, bind, Except.bind]
  · have hpeers (p : ServerId) := lookup_foldl_upsertLive hsynced.peers
      (fun p hp ↦ by rw [Option.isSome_map]; exact hsynced.peersKnown p hp) p
    refine ⟨?_, hidentity, hrows, fun token ↦ htable'.loads token List.not_mem_nil, fun o ↦ ?_,
      fun o ↦ ?_, hpeers, ?_, hseenRows⟩
    · cases hdirty : home.dirty.serverIdentity with
      | true => rfl
      | false => exact hsynced.serverIdentity hdirty
    · exact rowsUnder_foldl_rewriteRows hsynced.prekeys o
    · exact rowsUnder_foldl_rewriteRows hsynced.memberships o
    · cases hdirty : home.dirty.outboundDirty with
      | true => rfl
      | false => exact hsynced.outbound hdirty

end NemoMessenger.Server
