import NemoMessenger.Server.Restart
import Mathlib.Data.UInt

/-!
# Removed envelopes

A row that has left a mailbox is journaled in one of three ways, and the next `persist` that succeeds
deletes it from the database. An acknowledgement is journaled by its cursor, which memory compares
as an unsigned number and the database as a signed one; for cursors both read alike, what is removed
and persisted never comes back, over any operations, persists and restarts.
-/

namespace NemoMessenger.Server

open NemoMessenger.Data NemoMessenger.Wire

/-- Acknowledgements have cursors that are the same number to memory and database. -/
def NodeOp.SmallAcks : NodeOp → Prop
  | home (.ack _ auth _) => auth.cursor.toNat < 2 ^ 63
  | _ => True

/-- The only promise about home operations. -/
def Promises.smallCursors : Promises := ⟨fun _ _ _ ↦ True, False, True, False⟩

theorem HomeOp.meets_smallCursors (crypto : Crypto) {op : HomeOp} (home : HomeServer)
    (h : NodeOp.SmallAcks (.home op)) : op.Meets crypto .smallCursors home := by
  cases op with
  | ack owner auth nowUnix => exact fun _ ↦ h
  | _ => simp [HomeOp.Meets, Promises.smallCursors]

/-! ## Counters and rows -/

/-- The counters of a mailbox: the next number and the bytes. -/
def HomeServer.columns (home : HomeServer) (m : IdentityId) : Option (ℕ × ℕ) :=
  (home.mailboxes.lookup m).map fun box ↦ (box.nextSeq, box.bytes)

/-- The counters a restart would give a mailbox. -/
def Database.columns (db : Database) (m : IdentityId) : Option (ℕ × ℕ) :=
  ((db.identities.lookup m).bind loadMailbox).map fun box ↦ (box.nextSeq, box.bytes)

/-- Logs that can be written, with a first number. -/
structure HomeServer.Writable (home : HomeServer) : Prop where
  log : home.LogInv
  encodes : home.Encodes
  pos : ∀ m box, home.mailboxes.lookup m = some box → 0 < box.nextSeq

/-- The mailboxes of a server are what the database holds. -/
structure RowsSaved (home : HomeServer) (db : Database) : Prop extends home.Writable where
  columns : ∀ m, db.columns m = home.columns m
  rows : ∀ key, db.mailboxRows.lookup key = (home.memoryRow key).map mailboxRowOf

/-- The mailboxes of a server are in step with the database, which was saved from some server. -/
structure RowsSafe (home : HomeServer) (db : Database) : Prop extends home.Writable where
  columns : ∀ m ∉ home.dirty.identities, db.columns m = home.columns m
  rows : RowsSynced home db.mailboxRows
  saved : ∃ home₀, RowsSaved home₀ db

section Edits

variable {crypto : Crypto} {promises : Promises} {home home' : HomeServer} {db : Database}

/-- Quiet edits add no rows. -/
theorem BoxEdit.rows_subset {evicted : ℕ → Prop} {before after : Option Mailbox}
    (h : BoxEdit evicted before after) {box' : Mailbox} (hbox' : after = some box') {seq : ℕ}
    {row : StoredEnvelope} (hrow : box'.rows.lookup seq = some row) :
    ∃ box, before = some box ∧ box.rows.lookup seq = some row := by
  cases h with
  | same => exact ⟨box', hbox', hrow⟩
  | new ownerPk =>
    cases hbox'
    cases hrow
  | drop box seqs _ =>
    cases hbox'
    rw [Mailbox.lookup_foldl_removeRow] at hrow
    split_ifs at hrow
    exact ⟨box, rfl, hrow⟩
  | disable box =>
    cases hbox'
    rw [Mailbox.lookup_disable] at hrow
    cases hrow
  | ack box seqs =>
    cases hbox'
    rw [Mailbox.lookup_foldl_ackRow] at hrow
    split_ifs at hrow
    exact ⟨box, rfl, hrow⟩

theorem LoudEdit.encodes (h : LoudEdit crypto promises home home') (hhome : home.Encodes) :
    home'.Encodes := by
  intro key row hrow
  obtain ⟨box', hbox', hin⟩ := Option.bind_eq_some_iff.mp hrow
  cases h with
  | quiet h =>
    obtain ⟨box, hbox, hin⟩ := (h.boxEdit key.1).rows_subset hbox' hin
    exact hhome key row (Option.bind_eq_some_iff.mpr ⟨box, hbox, hin⟩)
  | store mailbox box inner padded hbox hlive hidem hencode hcanonical =>
    rw [HomeServer.storeRow, FiniteMap.lookup_insert_ite] at hbox'
    split_ifs at hbox' with hm
    · cases hbox'
      rw [Mailbox.push, FiniteMap.lookup_insert_ite] at hin
      split_ifs at hin
      · cases hin
        exact ⟨padded, hencode⟩
      · exact hhome key row (Option.bind_eq_some_iff.mpr ⟨box, hm ▸ hbox, hin⟩)
    · exact hhome key row (Option.bind_eq_some_iff.mpr ⟨box', hbox', hin⟩)
  | remember | note => exact hhome key row hrow

theorem LoudEdit.writable (h : LoudEdit crypto promises home home') (hhome : home.Writable) :
    home'.Writable := by
  refine ⟨LoudEdits.logInv (.single h) hhome.log, h.encodes hhome.encodes, fun m box' hbox' ↦ ?_⟩
  cases hbox : home.mailboxes.lookup m with
  | some box =>
    obtain ⟨b, hb, -, hle⟩ := h.mailbox_kept hbox
    rw [hbox'] at hb
    cases hb
    exact (hhome.pos m box hbox).trans_le hle
  | none =>
    have hedit := h.boxEdit m
    rw [hbox, hbox'] at hedit
    cases hedit with
    | quiet _ hedit =>
      cases hedit
      exact Nat.one_pos

theorem HomeServer.columns_eq (home : HomeServer) (m : IdentityId) :
    home.columns m = (home.identityView m).1.map fun view ↦ (view.2.1, view.2.2.1) := by
  rw [columns, identityView, Option.map_map]
  rfl

theorem LoudEdit.rowsSafe (h : LoudEdit crypto promises home home') (hsmall : promises.smallAcks)
    (hhome : RowsSafe home db) : RowsSafe home' db := by
  refine ⟨h.writable hhome.toWritable, fun m hm ↦ ?_, h.rowsSynced hsmall hhome.rows, hhome.saved⟩
  obtain ⟨hmarks, hview⟩ := h.identityView
  rw [HomeServer.columns_eq, hview m hm, ← HomeServer.columns_eq]
  exact hhome.columns m fun hmarked ↦ hm (hmarks hmarked)

end Edits

/-! ## Persists -/

section Persist

variable {home : HomeServer} {db mid : Database}

theorem columns_identityRow (hpos : ∀ m box, home.mailboxes.lookup m = some box → 0 < box.nextSeq)
    (m : IdentityId) :
    (loadMailbox (identityRow home m)).map (fun box ↦ (box.nextSeq, box.bytes)) =
      home.columns m := by
  unfold loadMailbox HomeServer.columns identityRow
  cases hbox : home.mailboxes.lookup m with
  | none => rfl
  | some box =>
    dsimp only [Option.map_some, Option.getD_some]
    rw [if_pos (hpos m box hbox)]
    rfl

/-- A transaction that goes through saves the mailboxes. -/
theorem RowsSafe.persistHome (h : RowsSafe home db)
    (hpersist : Database.persistHome home home.dirty db = .ok mid) : RowsSaved home mid := by
  unfold Database.persistHome at hpersist
  obtain ⟨mailboxRows, hmailboxRows, hpersist⟩ := bind_eq_ok.mp hpersist
  obtain ⟨tokens, -, hpersist⟩ := bind_eq_ok.mp hpersist
  obtain ⟨prekeys, -, hpersist⟩ := bind_eq_ok.mp hpersist
  obtain ⟨memberships, -, hpersist⟩ := bind_eq_ok.mp hpersist
  obtain ⟨hpkeSeen, -, hpersist⟩ := bind_eq_ok.mp hpersist
  have hcolumns (m : IdentityId) : (((FiniteMap.upsertAll (identityRow home) home.dirty.identities
      db.identities).lookup m).bind loadMailbox).map (fun box ↦ (box.nextSeq, box.bytes)) =
        home.columns m := by
    rw [FiniteMap.lookup_upsertAll]
    split_ifs with hmarked
    · exact columns_identityRow h.pos m
    · exact h.columns m hmarked
  have hknown (o : IdentityId) (ho : (home.mailboxes.lookup o).isSome) :
      ((FiniteMap.upsertAll (identityRow home) home.dirty.identities
        db.identities).lookup o).isSome := by
    obtain ⟨box, hbox⟩ := Option.isSome_iff_exists.mp ho
    have hrow := hcolumns o
    rw [HomeServer.columns, hbox] at hrow
    cases hlookup : (FiniteMap.upsertAll (identityRow home) home.dirty.identities
        db.identities).lookup o with
    | some row => rfl
    | none =>
      rw [hlookup] at hrow
      cases hrow
  obtain ⟨rows, hrows, hlookup⟩ := insertMailboxRows_eq_ok h.log h.encodes h.rows hknown
  unfold sparedRows at hrows
  rw [hrows] at hmailboxRows
  cases hmailboxRows
  cases hpersist
  exact ⟨h.toWritable, hcolumns, hlookup⟩

theorem RowsSaved.congr {db' : Database} (h : RowsSaved home mid)
    (hidentities : db'.identities = mid.identities) (hrows : db'.mailboxRows = mid.mailboxRows) :
    RowsSaved home db' := by
  refine ⟨h.toWritable, fun m ↦ ?_, fun key ↦ ?_⟩
  · rw [Database.columns, hidentities]
    exact h.columns m
  · rw [hrows]
    exact h.rows key

/-- With an empty journal, being saved is being in step. -/
theorem RowsSaved.rowsSafe (h : RowsSaved home db) (hclean : home.dirty = {}) :
    RowsSafe home db := by
  refine ⟨h.toWritable, fun m _ ↦ h.columns m, ?_, home, h⟩
  refine ⟨?_, ?_, ?_, fun key hkey ↦ ?_, ?_, fun key _ hgone ↦ ?_, fun key _ _ ↦ h.rows key⟩
  · rw [hclean]
    exact List.nodup_nil
  · rw [hclean]
    exact fun _ hkey ↦ by cases hkey
  · rw [hclean]
    exact fun _ hkey ↦ by cases hkey
  · rw [h.rows, Option.isSome_map] at hkey
    obtain ⟨row, hrow⟩ := Option.isSome_iff_exists.mp hkey
    obtain ⟨box, hbox, hin⟩ := Option.bind_eq_some_iff.mp hrow
    exact ⟨box, hbox, (h.log _ box hbox).seq_lt _ row hin⟩
  · rw [hclean]
    exact fun _ _ hmark ↦ by cases hmark
  · exact absurd (sparesRow_clean hclean key) hgone

theorem RowsSafe.persist {node : Node} (h : RowsSafe node.home node.db) (fault : Bool) :
    RowsSafe (node.persist fault).2.home (node.persist fault).2.db := by
  rcases node.persist_outcome fault with
    ⟨-, hhome, hdb⟩ | ⟨-, hhome, hdb⟩ | ⟨mid, hpersist, -, hhome, hidentities, hrows⟩
  · rw [hhome, hdb]
    exact h
  · rw [hhome, hdb]
    exact ⟨⟨h.log, h.encodes, h.pos⟩, h.columns, h.rows.absorb, h.saved⟩
  · have hsaved := (h.persistHome hpersist).congr hidentities hrows
    rw [hhome]
    exact RowsSaved.rowsSafe ⟨⟨hsaved.log, hsaved.encodes, hsaved.pos⟩, hsaved.columns,
      hsaved.rows⟩ rfl

/-- After a `persist` that succeeds the database holds the mailboxes. -/
theorem RowsSafe.saved_of_persist {node : Node} (h : RowsSafe node.home node.db) {fault : Bool}
    (hok : (node.persist fault).1 = .ok ()) : RowsSaved node.home (node.persist fault).2.db := by
  rcases node.persist_outcome fault with
    ⟨hclean, -, hdb⟩ | ⟨hfailed, -⟩ | ⟨mid, hpersist, -, -, hidentities, hrows⟩
  · rw [hdb]
    refine ⟨h.toWritable, fun m ↦ h.columns m (by rw [hclean]; exact List.not_mem_nil),
      fun key ↦ ?_⟩
    exact h.rows.kept key (by rw [hclean]; exact List.not_mem_nil) (sparesRow_clean hclean key)
  · exact absurd hok hfailed
  · exact (h.persistHome hpersist).congr hidentities hrows

end Persist

/-! ## Restarts -/

section Restart

variable {home loaded : HomeServer} {db : Database}

theorem HomeServer.ReadFrom.columns (h : loaded.ReadFrom db) (m : IdentityId) :
    loaded.columns m = db.columns m := by
  obtain ⟨envelopes, -, hmailboxes⟩ := h.mailboxes
  rw [HomeServer.columns, hmailboxes, FiniteMap.lookup_filterMap, Database.columns]
  cases db.identities.lookup m with
  | none => rfl
  | some row => cases hbox : loadMailbox row <;> simp [hbox, Mailbox.withRows]

theorem length_innerPadded (row : StoredEnvelope) :
    (mailboxRowOf row).innerPadded.length = encodedLen row.inner := by
  unfold mailboxRowOf encodedLen
  cases row.inner.encodePadded <;> rfl

/-- What is read back of an encoded row is stored as the same row. -/
theorem mailboxRowOf_loadEnvelope {key : IdentityId × ℕ} {row loadedRow : StoredEnvelope}
    {bytes : Bytes} (hencode : row.inner.encodePadded = .ok bytes)
    (hload : loadEnvelope key (mailboxRowOf row) = .ok loadedRow) :
    loadedRow.seq = key.2 ∧ loadedRow.inner.encodePadded = .ok bytes ∧
      mailboxRowOf loadedRow = mailboxRowOf row := by
  have hpadded : (mailboxRowOf row).innerPadded = bytes := by
    rw [mailboxRowOf, hencode]
  unfold loadEnvelope at hload
  rw [hpadded] at hload
  split at hload
  · cases hload
  · rename_i inner hdecode
    cases hload
    have hagain := InnerEnvelope.encodePadded_of_decodePadded hencode hdecode
    have htoken := InnerEnvelope.idempotencyToken_of_decodePadded hencode hdecode
    refine ⟨rfl, hagain, ?_⟩
    simp only [mailboxRowOf, hagain, hencode, htoken]

/-- The rows of a mailbox that was saved come back as the rows that were saved. -/
theorem RowsSaved.lookup_loaded (h : RowsSaved home db) (hloaded : loaded.ReadFrom db)
    {m : IdentityId} {box : Mailbox} (hbox : loaded.mailboxes.lookup m = some box) (seq : ℕ) :
    (box.rows.lookup seq).map mailboxRowOf = db.mailboxRows.lookup (m, seq) ∧
      ∀ row, box.rows.lookup seq = some row →
        row.seq = seq ∧ ∃ bytes, row.inner.encodePadded = .ok bytes := by
  obtain ⟨ident, rows, -, -, -, ⟨blank, rfl⟩, hrows⟩ := hloaded.lookup_mailbox hbox
  have hlookup : (blank.withRows rows).rows.lookup seq =
      (db.mailboxRows.lookup (m, seq)).bind fun row ↦ (loadEnvelope (m, seq) row).toOption :=
    hrows seq
  rw [hlookup, h.rows]
  cases hrow : home.memoryRow (m, seq) with
  | none => exact ⟨rfl, fun _ h ↦ by cases h⟩
  | some row =>
    obtain ⟨bytes, hencode⟩ := h.encodes (m, seq) row hrow
    obtain ⟨envelopes, htraverse, -⟩ := hloaded.mailboxes
    obtain ⟨read, hread⟩ := FiniteMap.eq_ok_of_traverse htraverse
      (show db.mailboxRows.lookup (m, seq) = some (mailboxRowOf row) by rw [h.rows, hrow]; rfl)
    cases hload : loadEnvelope (m, seq) (mailboxRowOf row) with
    | error e =>
      rw [hload] at hread
      cases hread
    | ok loadedRow =>
      obtain ⟨hseq, hagain, hsame⟩ := mailboxRowOf_loadEnvelope hencode hload
      rw [Option.map_some, Option.bind_some, hload]
      refine ⟨congrArg some hsame, ?_⟩
      rintro _ ⟨⟩
      exact ⟨hseq, bytes, hagain⟩

/-- The mailbox read back, the one it was saved from, and their rows. -/
theorem RowsSaved.mailbox_loaded (h : RowsSaved home db) (hloaded : loaded.ReadFrom db)
    {m : IdentityId} {box : Mailbox} (hbox : loaded.mailboxes.lookup m = some box) :
    ∃ old, home.mailboxes.lookup m = some old ∧ box.nextSeq = old.nextSeq ∧ box.bytes = old.bytes ∧
      ∀ seq, (box.rows.lookup seq).map mailboxRowOf = (old.rows.lookup seq).map mailboxRowOf := by
  have hcolumns := (hloaded.columns m).trans (h.columns m)
  rw [HomeServer.columns, hbox, HomeServer.columns] at hcolumns
  obtain ⟨old, hold, heq⟩ := Option.map_eq_some_iff.mp hcolumns.symm
  refine ⟨old, hold, (congrArg Prod.fst heq).symm, (congrArg Prod.snd heq).symm, fun seq ↦ ?_⟩
  rw [(h.lookup_loaded hloaded hbox seq).1, h.rows, HomeServer.memoryRow, hold]
  rfl

theorem RowsSaved.logInv_loaded (h : RowsSaved home db) (hloaded : loaded.ReadFrom db) :
    loaded.LogInv := by
  intro m box hbox
  obtain ⟨old, hold, hnext, hbytes, hrows⟩ := h.mailbox_loaded hloaded hbox
  have hlog := h.log m old hold
  have hread := h.lookup_loaded hloaded hbox
  have hsaved {seq : ℕ} {row : StoredEnvelope} (hrow : box.rows.lookup seq = some row) :
      ∃ oldRow, old.rows.lookup seq = some oldRow ∧ mailboxRowOf oldRow = mailboxRowOf row := by
    have hsame := hrows seq
    rw [hrow] at hsame
    exact Option.map_eq_some_iff.mp hsame.symm
  refine ⟨?_, fun seq row hrow ↦ ((hread seq).2 row hrow).1, fun seq row hrow ↦ ?_, ?_⟩
  · rw [hbytes, hlog.bytes_eq]
    refine FiniteMap.sumBy_congr fun seq ↦ ?_
    have hsizes := congrArg (Option.map fun row ↦ row.innerPadded.length) (hrows seq)
    rw [Option.map_map, Option.map_map] at hsizes
    simp only [Function.comp_def, length_innerPadded] at hsizes
    exact hsizes.symm
  · obtain ⟨oldRow, holdRow, -⟩ := hsaved hrow
    rw [hnext]
    exact hlog.seq_lt seq oldRow holdRow
  · intro seq row hrow
    obtain ⟨ident, rows, -, -, -, ⟨blank, rfl⟩, -⟩ := hloaded.lookup_mailbox hbox
    refine Mailbox.idempotency_withRows blank (fun seq row hrow ↦ ((hread seq).2 row hrow).1) hrow
      fun seq' row' hrow' htoken ↦ ?_
    obtain ⟨oldRow, holdRow, hsame⟩ := hsaved hrow
    obtain ⟨oldRow', holdRow', hsame'⟩ := hsaved hrow'
    have hold := congrArg MailboxRow.idempotencyToken hsame
    have hold' := congrArg MailboxRow.idempotencyToken hsame'
    exact hlog.seq_unique holdRow' holdRow (hold'.trans (htoken.trans hold.symm))

theorem RowsSaved.reload (h : RowsSaved home db) (hloaded : loaded.ReadFrom db) :
    RowsSaved loaded db := by
  refine ⟨⟨h.logInv_loaded hloaded, fun key row hrow ↦ ?_, fun m box hbox ↦ ?_⟩,
    fun m ↦ (hloaded.columns m).symm, fun key ↦ ?_⟩
  · obtain ⟨box, hbox, hin⟩ := Option.bind_eq_some_iff.mp hrow
    exact ((h.lookup_loaded hloaded hbox key.2).2 row hin).2
  · obtain ⟨old, hold, hnext, -⟩ := h.mailbox_loaded hloaded hbox
    rw [hnext]
    exact h.pos m old hold
  · cases hbox : loaded.mailboxes.lookup key.1 with
    | some box =>
      rw [HomeServer.memoryRow, hbox]
      exact (h.lookup_loaded hloaded hbox key.2).1.symm
    | none =>
      -- no mailbox comes back where none was saved, so there are no rows either
      have hcolumns := (h.columns key.1).symm.trans (hloaded.columns key.1).symm
      rw [HomeServer.columns, HomeServer.columns, hbox, Option.map_none,
        Option.map_eq_none_iff] at hcolumns
      rw [h.rows, HomeServer.memoryRow, hcolumns, HomeServer.memoryRow, hbox]

end Restart

/-! ## Runs -/

/-- The number was given to a row, and the mailbox has no row under it. -/
def HomeServer.Removed (home : HomeServer) (m : IdentityId) (seq : ℕ) : Prop :=
  ∃ box, home.mailboxes.lookup m = some box ∧ seq < box.nextSeq ∧ box.rows.lookup seq = none

/-- Removed from memory and database. -/
structure Node.Gone (node : Node) (m : IdentityId) (seq : ℕ) : Prop where
  safe : RowsSafe node.home node.db
  memory : node.home.Removed m seq
  stored : node.db.mailboxRows.lookup (m, seq) = none
  counter : ∃ nextSeq bytes, node.db.columns m = some (nextSeq, bytes) ∧ seq < nextSeq

section Runs

variable {crypto : Crypto} {promises : Promises} {home home' : HomeServer} {m : IdentityId}
  {seq : ℕ} {node : Node}

theorem LoudEdit.removed (h : LoudEdit crypto promises home home') (hrow : home.Removed m seq) :
    home'.Removed m seq := by
  obtain ⟨box, hbox, hlt, hnone⟩ := hrow
  obtain ⟨box', hbox', -, hle⟩ := h.mailbox_kept hbox
  refine ⟨box', hbox', hlt.trans_le hle, ?_⟩
  cases h with
  | quiet h =>
    cases hin : box'.rows.lookup seq with
    | none => rfl
    | some row =>
      obtain ⟨old, hold, hin⟩ := (h.boxEdit m).rows_subset hbox' hin
      rw [hbox] at hold
      cases hold
      rw [hnone] at hin
      cases hin
  | store mailbox box₀ inner padded hbox₀ hlive hidem hencode hcanonical =>
    rw [HomeServer.storeRow, FiniteMap.lookup_insert_ite] at hbox'
    split_ifs at hbox' with hm
    · subst hm
      rw [hbox] at hbox₀
      cases hbox₀
      cases hbox'
      rw [Mailbox.push, FiniteMap.lookup_insert_ite, if_neg hlt.ne, hnone]
    · rw [hbox] at hbox'
      cases hbox'
      exact hnone
  | remember | note =>
    obtain rfl : box' = box := Option.some.inj (hbox'.symm.trans hbox)
    exact hnone

theorem HomeOp.removed_apply (crypto : Crypto) (op : HomeOp) (hrow : home.Removed m seq) :
    (op.apply crypto home).Removed m seq :=
  Chain.keeps (fun s ↦ s.Removed m seq) (fun _ _ hedit hs ↦ hedit.removed hs)
    (op.apply_edits crypto .none home (op.meets_none crypto home)) hrow

/-- Whatever takes a row out of a mailbox, its number stays taken. -/
theorem HomeOp.removed_of_apply (crypto : Crypto) (op : HomeOp) (hlog : home.LogInv)
    {row : StoredEnvelope} (hbefore : home.memoryRow (m, seq) = some row)
    (hafter : (op.apply crypto home).memoryRow (m, seq) = none) :
    (op.apply crypto home).Removed m seq := by
  obtain ⟨box, hbox, hin⟩ := Option.bind_eq_some_iff.mp hbefore
  obtain ⟨box', hbox', hle⟩ := LoudEdits.nextSeq_le
    (op.apply_edits crypto .none home (op.meets_none crypto home)) hbox
  refine ⟨box', hbox', ((hlog m box hbox).seq_lt seq row hin).trans_le hle, ?_⟩
  rw [HomeServer.memoryRow, hbox'] at hafter
  exact hafter

theorem RowsSafe.apply (op : NodeOp) (hop : op.SmallAcks) (h : RowsSafe node.home node.db) :
    RowsSafe (op.apply crypto node).home (op.apply crypto node).db := by
  cases op with
  | home op =>
    exact Chain.keeps (fun s ↦ RowsSafe s node.db) (fun _ _ hedit hs ↦ hedit.rowsSafe trivial hs)
      (op.apply_edits crypto .smallCursors node.home (op.meets_smallCursors crypto _ hop)) h
  | group op => exact h
  | persist fault => exact h.persist fault
  | reload =>
    rw [NodeOp.apply]
    rcases node.reload_reads crypto with hsame | ⟨loaded, host, hloaded, heq⟩
    · rw [hsame]
      exact h
    · rw [heq]
      obtain ⟨home₀, hsaved⟩ := h.saved
      have hloadedSaved := hsaved.reload hloaded
      exact RowsSaved.rowsSafe ⟨⟨hloadedSaved.log, hloadedSaved.encodes, hloadedSaved.pos⟩,
        hloadedSaved.columns, hloadedSaved.rows⟩ hloaded.dirty

theorem rowsSafe_fresh (crypto : Crypto) (hpke : HpkeKeypair) (sign : Key) (limits : Limits) :
    RowsSafe (Node.fresh crypto hpke sign limits).home (Node.fresh crypto hpke sign limits).db :=
  RowsSaved.rowsSafe ⟨⟨fun _ _ h ↦ (by cases h), fun _ _ h ↦ (by cases h),
    fun _ _ h ↦ by cases h⟩, fun _ ↦ rfl, fun _ ↦ rfl⟩ rfl

/-- A `persist` that succeeds makes a removal final. -/
theorem RowsSafe.gone_of_persist (h : RowsSafe node.home node.db) {fault : Bool}
    (hok : (node.persist fault).1 = .ok ()) (hrow : node.home.Removed m seq) :
    (node.persist fault).2.Gone m seq := by
  have hsaved := h.saved_of_persist hok
  obtain ⟨⟨dirty, hhome⟩, -⟩ := node.persist_writes fault
  obtain ⟨box, hbox, hlt, hnone⟩ := hrow
  refine ⟨h.persist fault, ?_, ?_, box.nextSeq, box.bytes, ?_, hlt⟩
  · rw [hhome]
    exact ⟨box, hbox, hlt, hnone⟩
  · rw [hsaved.rows, HomeServer.memoryRow, hbox, Option.bind_some, hnone]
    rfl
  · rw [hsaved.columns, HomeServer.columns, hbox]
    rfl

/-- A server read back after a removal became final does not have the row. -/
theorem Node.Gone.removed_loaded (h : node.Gone m seq) {loaded : HomeServer}
    (hloaded : loaded.ReadFrom node.db) : loaded.Removed m seq := by
  obtain ⟨home₀, hsaved⟩ := h.safe.saved
  obtain ⟨nextSeq, bytes, hcolumns, hlt⟩ := h.counter
  rw [← hloaded.columns, HomeServer.columns] at hcolumns
  obtain ⟨box, hbox, heq⟩ := Option.map_eq_some_iff.mp hcolumns
  cases heq
  refine ⟨box, hbox, hlt, ?_⟩
  have hrows := (hsaved.lookup_loaded hloaded hbox seq).1
  rw [h.stored, Option.map_eq_none_iff] at hrows
  exact hrows

theorem Node.Gone.apply (op : NodeOp) (hop : op.SmallAcks) (h : node.Gone m seq) :
    (op.apply crypto node).Gone m seq := by
  have hsafe : RowsSafe (op.apply crypto node).home (op.apply crypto node).db := h.safe.apply op hop
  cases op with
  | home op => exact ⟨hsafe, op.removed_apply crypto h.memory, h.stored, h.counter⟩
  | group op => exact ⟨hsafe, h.memory, h.stored, h.counter⟩
  | persist fault =>
    rw [NodeOp.apply] at hsafe ⊢
    obtain ⟨⟨dirty, hhome⟩, -⟩ := node.persist_writes fault
    have hmemory : (node.persist fault).2.home.Removed m seq := by
      rw [hhome]
      exact h.memory
    rcases node.persist_outcome fault with ⟨-, -, hdb⟩ | ⟨-, -, hdb⟩ | ⟨mid, -, hok, -⟩
    · exact ⟨hsafe, hmemory, hdb ▸ h.stored, hdb ▸ h.counter⟩
    · exact ⟨hsafe, hmemory, hdb ▸ h.stored, hdb ▸ h.counter⟩
    · exact h.safe.gone_of_persist hok h.memory
  | reload =>
    rw [NodeOp.apply] at hsafe ⊢
    rcases node.reload_reads crypto with hsame | ⟨loaded, host, hloaded, heq⟩
    · rw [hsame]
      exact h
    · have hremoved := h.removed_loaded hloaded
      rw [heq] at hsafe ⊢
      exact ⟨hsafe, hremoved, h.stored, h.counter⟩

/-- In every run whose acknowledgements have small cursors: what an operation takes out of a mailbox
is removed and stays removed, and once a `persist` succeeds, no server read back later has the row;
the bytes read back are those of the rows. -/
theorem removed_rows_stay_removed (crypto : Crypto) (hpke : HpkeKeypair) (sign : Key)
    (limits : Limits) (ops later : List NodeOp) (fault : Bool) (hops : ∀ op ∈ ops, op.SmallAcks)
    (hlater : ∀ op ∈ later, op.SmallAcks) :
    let node := run (NodeOp.apply crypto) (Node.fresh crypto hpke sign limits) ops
    (∀ (op : HomeOp) m seq row, node.home.memoryRow (m, seq) = some row →
        (op.apply crypto node.home).memoryRow (m, seq) = none →
        (op.apply crypto node.home).Removed m seq) ∧
      (∀ (op : HomeOp) m seq, node.home.Removed m seq → (op.apply crypto node.home).Removed m seq) ∧
      ((node.persist fault).1 = .ok () → ∀ m seq, node.home.Removed m seq →
        ∀ keys loaded host,
          (run (NodeOp.apply crypto) (node.persist fault).2 later).db.loadKeys crypto keys =
            .ok (some (loaded, host)) → loaded.memoryRow (m, seq) = none) ∧
      ∀ keys loaded host, node.db.loadKeys crypto keys = .ok (some (loaded, host)) →
        ∀ m box, loaded.mailboxes.lookup m = some box →
          box.bytes = FiniteMap.sumBy (fun row ↦ encodedLen row.inner) box.rows := by
  intro node
  have hallowed {s : Node} {list : List NodeOp} (h : ∀ op ∈ list, op.SmallAcks) :
      Allowed (NodeOp.apply crypto) (fun _ op ↦ op.SmallAcks) s list := by
    induction list generalizing s with
    | nil => trivial
    | cons op list ih =>
      exact ⟨h op List.mem_cons_self, ih fun op hop ↦ h op (List.mem_cons_of_mem _ hop)⟩
  have hsafe : RowsSafe node.home node.db :=
    run_invariant (fun node : Node ↦ RowsSafe node.home node.db) (fun _ op hop hs ↦ hs.apply op hop)
      (hallowed hops) (rowsSafe_fresh crypto hpke sign limits)
  refine ⟨fun op m seq row ↦ op.removed_of_apply crypto hsafe.log,
    fun op m seq ↦ op.removed_apply crypto, fun hok m seq hrow keys loaded host hload ↦ ?_,
    fun keys loaded host hload m box hbox ↦ ?_⟩
  · have hgone := run_invariant (fun node : Node ↦ node.Gone m seq)
      (fun _ op hop hs ↦ hs.apply op hop) (hallowed hlater) (hsafe.gone_of_persist hok hrow)
    obtain ⟨box, hbox, -, hnone⟩ := hgone.removed_loaded (loadKeys_readFrom hload)
    rw [HomeServer.memoryRow, hbox]
    exact hnone
  · obtain ⟨home₀, hsaved⟩ := hsafe.saved
    exact (hsaved.logInv_loaded (loadKeys_readFrom hload) m box hbox).bytes_eq

/-- The request of an owner to acknowledge everything up to a cursor. -/
def ackRequest (key : Key) (cursor : UInt64) : MailboxOwnerAuth where
  mailboxHint := key.data
  cursor := cursor
  limit := 1
  ts := 1700000000
  scope := .body key "POST" "/v1/mailbox/ack"
  nonce := key
  signature := .replicate 64 0

/-- A mailbox takes two envelopes, the server is persisted, and the first one is acknowledged. -/
def NodeOp.acking (key : Key) : List NodeOp :=
  [.home (.rebindHost ⟨"local", Text.local_size⟩ 8443), .home (.register key key),
    .home (.mintContactCapability key key), .home (.appendInner (.blank key key)),
    .home (.appendInner (.blank key (.replicate 32 2))), .persist false,
    .home (.ack key (ackRequest key 1) 1700000000)]

set_option maxRecDepth 100000 in
theorem NodeOp.acking_facts (key : Key) (hkey : key = .replicate 32 1) :
    let node := run (NodeOp.apply .transparent) (Node.fresh .transparent ⟨key, key⟩ key .default)
      (NodeOp.acking key)
    (node.home.mailboxes.lookup key).any (fun box ↦
        decide (1 < box.nextSeq) && (box.rows.lookup 1).isNone) = true ∧
      (node.persist false).1.toOption = some () ∧
      ((run (NodeOp.apply .transparent) (node.persist false).2 [.reload]).db.loadKeys .transparent
        (some (⟨key, key⟩, key))).toOption.join.any
          (fun found ↦ (found.1.memoryRow (key, 2)).isSome) = true := by
  subst hkey
  decide +kernel

/-- The first row is persisted as removed: the server that is read back after a restart has the second
row, and not the first. -/
theorem removed_rows_stay_removed_of_ack :
    let key : Key := .replicate 32 1
    let node := run (NodeOp.apply .transparent) (Node.fresh .transparent ⟨key, key⟩ key .default)
      (NodeOp.acking key)
    node.home.Removed key 1 ∧ ∃ loaded host,
      (run (NodeOp.apply .transparent) (node.persist false).2 [.reload]).db.loadKeys .transparent
        (some (⟨key, key⟩, key)) = .ok (some (loaded, host)) ∧
      (loaded.memoryRow (key, 2)).isSome ∧ loaded.memoryRow (key, 1) = none := by
  intro key
  have hfacts := NodeOp.acking_facts key rfl
  have hrun := removed_rows_stay_removed .transparent ⟨key, key⟩ key .default (NodeOp.acking key)
    [.reload] false (by simp [NodeOp.acking, NodeOp.SmallAcks, ackRequest])
    (by simp [NodeOp.SmallAcks])
  generalize run (NodeOp.apply .transparent) (Node.fresh .transparent ⟨key, key⟩ key .default)
    (NodeOp.acking key) = node at hfacts hrun ⊢
  obtain ⟨hbox, hok, hloaded⟩ := hfacts
  have hremoved : node.home.Removed key 1 := by
    rw [Option.any_eq_true] at hbox
    obtain ⟨box, hbox, hdata⟩ := hbox
    rw [Bool.and_eq_true, decide_eq_true_eq, Option.isNone_iff_eq_none] at hdata
    exact ⟨box, hbox, hdata⟩
  have hpersist : (node.persist false).1 = .ok () := by
    cases hresult : (node.persist false).1 with
    | error e =>
      rw [hresult] at hok
      cases hok
    | ok u => rfl
  obtain ⟨⟨loaded, host⟩, hfound, hrow⟩ := (Option.any_eq_true _ _).mp hloaded
  have hload : (run (NodeOp.apply .transparent) (node.persist false).2 [.reload]).db.loadKeys
      .transparent (some (⟨key, key⟩, key)) = .ok (some (loaded, host)) := by
    cases hresult : (run (NodeOp.apply .transparent) (node.persist false).2 [.reload]).db.loadKeys
        .transparent (some (⟨key, key⟩, key)) with
    | error e =>
      rw [hresult] at hfound
      cases hfound
    | ok result =>
      rw [hresult] at hfound
      exact congrArg _ hfound
  exact ⟨hremoved, loaded, host, hload, hrow,
    hrun.2.2.1 hpersist key 1 hremoved _ loaded host hload⟩

set_option maxRecDepth 100000 in
/-- A row is persisted and then acknowledged with a cursor beyond the signed range: memory drops it,
the next `persist` succeeds, and a restart brings it back. -/
theorem acked_row_comes_back :
    let crypto := Crypto.transparent
    let key : Key := .replicate 32 1
    let node := run (NodeOp.apply crypto) (Node.fresh crypto ⟨key, key⟩ key .default)
      [.home (.rebindHost ⟨"local", Text.local_size⟩ 8443), .home (.register key key),
        .home (.mintContactCapability key key), .home (.appendInner (.blank key key)),
        .persist false, .home (.ack key (ackRequest key (2 ^ 63)) 1700000000)]
    (node.home.memoryRow (key, 1)).isNone ∧ (node.persist false).1.toOption = some () ∧
      (((node.persist false).2.db.loadKeys crypto (some (⟨key, key⟩, key))).toOption.join.bind
        fun found ↦ found.1.memoryRow (key, 1)).isSome := by
  decide +kernel

end Runs

end NemoMessenger.Server
