import NemoMessenger.Server.Persist

/-!
# Reloading a home server

What `load_keys` rebuilds from a database that is in step with an empty journal: the same mailboxes,
directory, tokens, prekeys, memberships, peers, outbound queue and replay window. The rebuilt server
is well formed and in step again, so that runs may continue across restarts.
-/

namespace NemoMessenger.Server

open NemoMessenger.Data NemoMessenger.Wire

/-! ## Equality on the durable fields -/

/-- Two mailboxes agree on what the database keeps of them. -/
structure Mailbox.SameDurable (box box' : Mailbox) : Prop where
  ownerPk : box'.ownerPk = box.ownerPk
  nextSeq : box'.nextSeq = box.nextSeq
  bytes : box'.bytes = box.bytes
  disabled : box'.disabled = box.disabled
  rows : ∀ seq, box'.rows.lookup seq = box.rows.lookup seq

/-- Two servers agree on every durable field. Tokens and memberships are read back as sets. -/
structure HomeServer.SameDurable (home home' : HomeServer) : Prop where
  mailboxes : ∀ m, Option.Rel Mailbox.SameDurable (home.mailboxes.lookup m)
    (home'.mailboxes.lookup m)
  directory : ∀ id, home'.directory.lookup id = home.directory.lookup id
  tokens : home'.tokens.Perm home.tokens
  prekeys : ∀ o, (home'.prekeys.lookup o).getD [] = (home.prekeys.lookup o).getD []
  memberships : ∀ o, ((home'.memberships.lookup o).getD []).Perm
    ((home.memberships.lookup o).getD [])
  peers : ∀ p, (home'.peers.lookup p).map PeerState.durable =
    (home.peers.lookup p).map PeerState.durable
  outbound : home'.outbound = home.outbound
  seenEnc : ∀ enc, home'.seenEnc.lookup enc = home.seenEnc.lookup enc

namespace HomeServer.SameDurable

variable {home home' : HomeServer}

theorem lookup_eq_some (h : home.SameDurable home') {m : IdentityId} {box' : Mailbox}
    (hbox' : home'.mailboxes.lookup m = some box') :
    ∃ box, home.mailboxes.lookup m = some box ∧ box.SameDurable box' := by
  have hrel := h.mailboxes m
  rw [hbox'] at hrel
  cases hbox : home.mailboxes.lookup m with
  | none =>
    rw [hbox] at hrel
    cases hrel
  | some box =>
    rw [hbox] at hrel
    cases hrel with
    | some hsame => exact ⟨box, rfl, hsame⟩

theorem lookup_some (h : home.SameDurable home') {m : IdentityId} {box : Mailbox}
    (hbox : home.mailboxes.lookup m = some box) :
    ∃ box', home'.mailboxes.lookup m = some box' ∧ box.SameDurable box' := by
  have hrel := h.mailboxes m
  rw [hbox] at hrel
  cases hbox' : home'.mailboxes.lookup m with
  | none =>
    rw [hbox'] at hrel
    cases hrel
  | some box' =>
    rw [hbox'] at hrel
    cases hrel with
    | some hsame => exact ⟨box', rfl, hsame⟩

theorem isSome_mailbox (h : home.SameDurable home') {m : IdentityId}
    (hm : (home.mailboxes.lookup m).isSome) : (home'.mailboxes.lookup m).isSome := by
  obtain ⟨box, hbox⟩ := Option.isSome_iff_exists.mp hm
  obtain ⟨box', hbox', -⟩ := h.lookup_some hbox
  rw [hbox']
  rfl

theorem memoryRow (h : home.SameDurable home') (key : IdentityId × ℕ) :
    home'.memoryRow key = home.memoryRow key := by
  unfold HomeServer.memoryRow
  cases hbox : home.mailboxes.lookup key.1 with
  | none =>
    cases hbox' : home'.mailboxes.lookup key.1 with
    | none => rfl
    | some box' =>
      obtain ⟨box, hsome, -⟩ := h.lookup_eq_some hbox'
      rw [hbox] at hsome
      cases hsome
  | some box =>
    obtain ⟨box', hbox', hsame⟩ := h.lookup_some hbox
    rw [hbox']
    exact hsame.rows key.2

theorem identityView (h : home.SameDurable home') (id : IdentityId) :
    home'.identityView id = home.identityView id := by
  unfold HomeServer.identityView
  rw [h.directory]
  cases hbox : home.mailboxes.lookup id with
  | none =>
    cases hbox' : home'.mailboxes.lookup id with
    | none => rfl
    | some box' =>
      obtain ⟨box, hsome, -⟩ := h.lookup_eq_some hbox'
      rw [hbox] at hsome
      cases hsome
  | some box =>
    obtain ⟨box', hbox', hsame⟩ := h.lookup_some hbox
    rw [hbox', Option.map_some, Option.map_some, hsame.ownerPk, hsame.nextSeq, hsame.bytes,
      hsame.disabled]

theorem find_tokens (h : home.SameDurable home') (hkeys : home.tokens.keys.Nodup) (token : Key) :
    home'.tokens.find token = home.tokens.find token := by
  have hkeys' : home'.tokens.keys.Nodup := ((h.tokens.map Prod.fst).nodup_iff).mpr hkeys
  apply Option.ext
  intro kind
  constructor
  · intro hfind
    exact Tokens.find_eq_some_of_mem hkeys (h.tokens.subset (Tokens.mem_of_find hfind))
  · intro hfind
    exact Tokens.find_eq_some_of_mem hkeys' (h.tokens.symm.subset (Tokens.mem_of_find hfind))

/-- A server that agrees with a well-formed one is well formed once its idempotency maps lead to its
rows. -/
theorem valid (h : home.SameDurable home') (hvalid : home.Valid)
    (hport : home'.bundle.s2sPort = home.bundle.s2sPort)
    (hidem : ∀ m box, home'.mailboxes.lookup m = some box →
      ∀ seq row, box.rows.lookup seq = some row →
        box.idempotency.lookup row.inner.idempotencyToken = some seq) : home'.Valid where
  mailbox m box' hbox' := by
    obtain ⟨box, hbox, hsame⟩ := h.lookup_eq_some hbox'
    have hold := hvalid.mailbox m box hbox
    refine ⟨⟨?_, ?_, ?_, hidem m box' hbox'⟩, ?_, ?_⟩
    · rw [hsame.bytes, hold.bytes_eq]
      exact FiniteMap.sumBy_congr fun seq ↦ by rw [hsame.rows]
    · exact fun seq row hrow ↦ hold.seq_eq seq row (hsame.rows seq ▸ hrow)
    · exact fun seq row hrow ↦ hsame.nextSeq ▸ hold.seq_lt seq row (hsame.rows seq ▸ hrow)
    · exact hsame.nextSeq ▸ hold.nextSeq_pos
    · exact fun seq row hrow ↦ hold.canonical seq row (hsame.rows seq ▸ hrow)
  tokenKeys := ((h.tokens.map Prod.fst).nodup_iff).mpr hvalid.tokenKeys
  tokenMailbox entry hentry :=
    h.isSome_mailbox (hvalid.tokenMailbox entry (h.tokens.subset hentry))
  directoryKeys id row hrow := by
    rw [h.directory] at hrow
    obtain ⟨box, hbox, hkey⟩ := hvalid.directoryKeys id row hrow
    obtain ⟨box', hbox', hsame⟩ := h.lookup_some hbox
    exact ⟨box', hbox', hsame.ownerPk.trans hkey⟩
  prekeyOwner o queue hqueue hne := by
    have hsame := h.prekeys o
    rw [hqueue, Option.getD_some] at hsame
    cases hold : home.prekeys.lookup o with
    | none =>
      rw [hold] at hsame
      exact absurd hsame hne
    | some old =>
      rw [hold, Option.getD_some] at hsame
      exact h.isSome_mailbox (hvalid.prekeyOwner o old hold (hsame ▸ hne))
  member o list hlist := by
    have hperm := h.memberships o
    rw [hlist, Option.getD_some] at hperm
    cases hold : home.memberships.lookup o with
    | none =>
      rw [hold] at hperm
      obtain rfl : list = [] := hperm.eq_nil
      exact ⟨List.nodup_nil, fun hne ↦ absurd rfl hne⟩
    | some old =>
      rw [hold, Option.getD_some] at hperm
      obtain ⟨hnodup, hmember⟩ := hvalid.member o old hold
      refine ⟨hperm.nodup_iff.mpr hnodup, fun hne ↦ h.isSome_mailbox (hmember ?_)⟩
      rintro rfl
      exact hne hperm.eq_nil
  outboundSmall row hrow := hvalid.outboundSmall row (h.outbound ▸ hrow)
  port := hport ▸ hvalid.port

end HomeServer.SameDurable

/-! ## Rows read back -/

section Load

variable {home : HomeServer} {db : Database}

theorem decodeBinding_encodeBinding (binding : HomeServerBinding) :
    decodeBinding (encodeBinding binding) = .ok binding := by
  unfold decodeBinding encodeBinding
  rw [Cbor.decode_encode binding.wf_toCborValue]
  dsimp only
  rw [HomeServerBinding.fromCborValue_toCborValue]

theorem encodeBinding_ne_nil (binding : HomeServerBinding) : encodeBinding binding ≠ [] :=
  List.ne_nil_of_length_pos (Cbor.encode_length_pos _)

theorem loadDirectory_identityRow (home : HomeServer) (id : IdentityId) :
    loadDirectory (identityRow home id) = .ok (home.directory.lookup id) := by
  cases hdir : home.directory.lookup id with
  | none => simp [loadDirectory, identityRow, hdir]
  | some row =>
    have hbinding : (encodeBinding row.binding).isEmpty = false := by
      simpa using encodeBinding_ne_nil row.binding
    cases hrev : row.revocation with
    | none =>
      simp [loadDirectory, identityRow, hdir, hbinding, hrev, decodeBinding_encodeBinding, bind,
        Except.bind]
      rw [← hrev]
    | some stmt =>
      obtain ⟨byte, bytes, hbytes⟩ := List.exists_cons_of_ne_nil stmt.encode_ne_nil
      have hdecode := stmt.decode_encode
      rw [hbytes] at hdecode
      simp [loadDirectory, identityRow, hdir, hbinding, hrev, decodeBinding_encodeBinding, bind,
        Except.bind, hbytes, hdecode]
      rw [← hrev]

/-- The mailbox an identity row stands for is the one in memory, without its rows. -/
theorem loadMailbox_identityRow (hvalid : home.Valid) (id : IdentityId) :
    loadMailbox (identityRow home id) = (home.mailboxes.lookup id).map fun box ↦
      { box with rows := ∅, idempotency := ∅ } := by
  cases hbox : home.mailboxes.lookup id with
  | none => simp [loadMailbox, identityRow, hbox]
  | some box =>
    have hpos := (hvalid.mailbox id box hbox).nextSeq_pos
    cases hdir : home.directory.lookup id with
    | none => simp [loadMailbox, identityRow, hbox, hdir, hpos]
    | some row =>
      obtain ⟨box', hbox', hkey⟩ := hvalid.directoryKeys id row hdir
      rw [hbox] at hbox'
      cases hbox'
      simp [loadMailbox, identityRow, hbox, hdir, hpos, hkey]

theorem loadEnvelope_mailboxRowOf (hvalid : home.Valid) {key : IdentityId × ℕ}
    {row : StoredEnvelope} (h : home.memoryRow key = some row) :
    loadEnvelope key (mailboxRowOf row) = .ok row := by
  obtain ⟨hseq, hencode⟩ := encodePadded_of_memoryRow hvalid.logInv hvalid.encodes h
  obtain ⟨box, hbox, hrow⟩ := Option.bind_eq_some_iff.mp h
  obtain ⟨bytes, hbytes, -, hdecode⟩ :=
    InnerEnvelope.decodePadded_encodePadded ((hvalid.mailbox _ box hbox).canonical _ row hrow)
  rw [hencode] at hbytes
  cases hbytes
  unfold loadEnvelope
  rw [hdecode, ← hseq]
  rfl

theorem loadPeer_peerRow (p : PeerState) :
    loadPeer (peerRow p) = .ok (.restore p.bundle p.refused p.lastRx p.nextTx) := by
  unfold loadPeer peerRow
  rw [ServerBundle.decode_encode]

theorem mapM_loadOutbound {rows : List OutboundRow}
    (hsmall : ∀ row ∈ rows, row.outer.hpkeCiphertext.length < 2 ^ 32) :
    (rows.map outboundRecord).mapM loadOutbound = .ok rows := by
  induction rows with
  | nil => rfl
  | cons row rows ih =>
    have hrow : loadOutbound (outboundRecord row) = .ok row := by
      unfold loadOutbound outboundRecord
      rw [OuterEnvelope.decode_encode (hsmall row List.mem_cons_self)]
    rw [List.map_cons, List.mapM_cons, hrow, ih fun r hr ↦ hsmall r (List.mem_cons_of_mem _ hr)]
    rfl

/-- The tokens read back are those of memory, in some order. -/
theorem mapM_loadToken (hvalid : home.Valid) (hstored : Stored home db) :
    ∃ tokens, (db.tokens.entries.mapM fun e ↦ (loadToken e.2).map fun kind ↦ (e.1, kind)) =
      .ok tokens ∧ tokens.Perm home.tokens := by
  have hentry (e : Sigma fun _ : Key ↦ TokenRow) (he : e ∈ db.tokens.entries) :
      ∃ kind, home.tokens.find e.1 = some kind ∧ loadToken e.2 = .ok kind := by
    have hload := hstored.tokens e.1
    rw [FiniteMap.lookup_eq_some_iff.mpr he, Option.map_some] at hload
    obtain ⟨kind, hfind, heq⟩ := Option.map_eq_some_iff.mp hload.symm
    exact ⟨kind, hfind, heq.symm⟩
  obtain ⟨tokens, htokens, hmap⟩ := FiniteMap.exists_mapM_eq_ok
    (f := fun e : Sigma fun _ : Key ↦ TokenRow ↦ (loadToken e.2).map fun kind ↦ (e.1, kind))
    (l := db.tokens.entries) fun e he ↦ by
      obtain ⟨kind, -, hload⟩ := hentry e he
      exact ⟨(e.1, kind), by rw [hload]; rfl⟩
  have hmem (token : Key) (kind : TokenKind) :
      (token, kind) ∈ tokens ↔ home.tokens.find token = some kind := by
    have hok : (token, kind) ∈ tokens ↔
        (Except.ok (token, kind) : Except PersistError _) ∈ tokens.map Except.ok := by
      simp
    rw [hok, ← hmap, List.mem_map]
    constructor
    · rintro ⟨e, he, heq⟩
      obtain ⟨kind', hfind, hload⟩ := hentry e he
      rw [hload] at heq
      cases heq
      exact hfind
    · intro hfind
      have hload := hstored.tokens token
      rw [hfind, Option.map_some] at hload
      obtain ⟨row, hrow, heq⟩ := Option.map_eq_some_iff.mp hload
      exact ⟨⟨token, row⟩, FiniteMap.lookup_eq_some_iff.mp hrow, by dsimp only; rw [heq]; rfl⟩
  have hkeys : tokens.map (some ∘ Prod.fst) = db.tokens.keys.map some := by
    have hfst := congrArg (List.map fun r ↦ r.toOption.map Prod.fst) hmap
    rw [List.map_map, List.map_map] at hfst
    rw [AList.keys, List.keys, List.map_map]
    refine hfst.symm.trans (List.map_congr_left fun e he ↦ ?_)
    obtain ⟨kind, -, hload⟩ := hentry e he
    simp only [Function.comp_apply, hload]
    rfl
  have hnodup : tokens.Nodup := by
    apply List.Nodup.of_map (some ∘ Prod.fst)
    rw [hkeys]
    exact db.tokens.nodupKeys.map (Option.some_injective _)
  refine ⟨tokens, htokens, (List.perm_ext_iff_of_nodup hnodup hvalid.tokenKeys.of_map).mpr ?_⟩
  rintro ⟨token, kind⟩
  rw [hmem]
  exact ⟨Tokens.mem_of_find, Tokens.find_eq_some_of_mem hvalid.tokenKeys⟩

/-! ## The server read back -/

/-- The idempotency map built along the rows leads from the token of every row to its number. -/
theorem Mailbox.idempotency_withRows (box : Mailbox) {rows : FiniteMap ℕ StoredEnvelope}
    (hseq : ∀ seq row, rows.lookup seq = some row → row.seq = seq) {seq : ℕ} {row : StoredEnvelope}
    (hrow : rows.lookup seq = some row)
    (hunique : ∀ seq' row', rows.lookup seq' = some row' →
      row'.inner.idempotencyToken = row.inner.idempotencyToken → seq' = seq) :
    (box.withRows rows).idempotency.lookup row.inner.idempotencyToken = some seq := by
  have hmem : row ∈ (FiniteMap.sortedKeys rows).filterMap rows.lookup :=
    List.mem_filterMap.mpr ⟨seq, FiniteMap.mem_sortedKeys.mpr (by rw [hrow]; rfl), hrow⟩
  have hsame : ∀ other ∈ (FiniteMap.sortedKeys rows).filterMap rows.lookup,
      other.inner.idempotencyToken = row.inner.idempotencyToken → other.seq = row.seq := by
    intro other hother htoken
    obtain ⟨seq', -, hlookup⟩ := List.mem_filterMap.mp hother
    rw [hseq seq' other hlookup, hseq seq row hrow]
    exact hunique seq' other hlookup htoken
  have hlookup := FiniteMap.lookup_foldl_insert (fun row : StoredEnvelope ↦
    row.inner.idempotencyToken) StoredEnvelope.seq hmem hsame ∅
  rw [hseq seq row hrow] at hlookup
  exact hlookup

/-- Nothing else is in the idempotency map built along the rows. -/
theorem Mailbox.exists_row_of_idempotency_withRows (box : Mailbox)
    {rows : FiniteMap ℕ StoredEnvelope}
    (hseq : ∀ seq row, rows.lookup seq = some row → row.seq = seq) {token : Key} {seq : ℕ}
    (h : (box.withRows rows).idempotency.lookup token = some seq) :
    ∃ row, rows.lookup seq = some row ∧ row.inner.idempotencyToken = token := by
  have hfold : ∀ (list : List StoredEnvelope) (map : FiniteMap Key ℕ),
      (list.foldl (fun map row ↦ map.insert row.inner.idempotencyToken row.seq) map).lookup token =
        some seq → map.lookup token = some seq ∨
          ∃ row ∈ list, row.inner.idempotencyToken = token ∧ row.seq = seq := by
    intro list
    induction list with
    | nil => exact fun map h ↦ .inl h
    | cons first rest ih =>
      intro map h
      rcases ih _ h with hold | ⟨row, hrow, hdata⟩
      · rw [FiniteMap.lookup_insert_ite] at hold
        split_ifs at hold with htoken
        · exact .inr ⟨first, List.mem_cons_self, htoken.symm, Option.some.inj hold⟩
        · exact .inl hold
      · exact .inr ⟨row, List.mem_cons_of_mem _ hrow, hdata⟩
  rcases hfold _ _ h with hnone | ⟨row, hrow, htoken, rfl⟩
  · cases hnone
  · obtain ⟨seq', -, hlookup⟩ := List.mem_filterMap.mp hrow
    rw [hseq seq' row hlookup]
    exact ⟨row, hlookup, htoken⟩

/-- What a reload leaves of a server: its durable fields, restored peers, idempotency maps that know
the stored rows only, and an empty journal. -/
structure HomeServer.Reloads (home loaded : HomeServer) : Prop extends
    home.SameDurable loaded where
  hpke : loaded.hpke = home.hpke
  sign : loaded.sign = home.sign
  host : loaded.bundle.host = home.bundle.host
  s2sPort : loaded.bundle.s2sPort = home.bundle.s2sPort
  limits : loaded.limits = .default
  dirty : loaded.dirty = {}
  history : loaded.history = {}
  restored : ∀ p, loaded.peers.lookup p = (home.peers.lookup p).map fun p ↦
    .restore p.bundle p.refused p.lastRx p.nextTx
  idempotency : ∀ m box, loaded.mailboxes.lookup m = some box → ∀ token seq,
    box.idempotency.lookup token = some seq →
      ∃ row, box.rows.lookup seq = some row ∧ row.inner.idempotencyToken = token

/-- The mailbox read back for an identity. -/
def loadedBox (home : HomeServer) (envelopes : FiniteMap (IdentityId × ℕ) StoredEnvelope)
    (id : IdentityId) : Option Mailbox :=
  (home.mailboxes.lookup id).map fun box ↦
    { box with rows := ∅, idempotency := ∅ }.withRows (FiniteMap.slice envelopes id)

theorem lookup_loadedMailboxes (hvalid : home.Valid) (hstored : Stored home db)
    (envelopes : FiniteMap (IdentityId × ℕ) StoredEnvelope) (id : IdentityId) :
    (FiniteMap.filterMap (fun id row ↦
      (loadMailbox row).map (·.withRows (FiniteMap.slice envelopes id))) db.identities).lookup id =
        loadedBox home envelopes id := by
  rw [FiniteMap.lookup_filterMap, loadedBox]
  rcases hstored.identities id with hrow | ⟨hrow, hnone⟩
  · rw [hrow, Option.bind_some, loadMailbox_identityRow hvalid, Option.map_map]
    rfl
  · have hbox := (Prod.ext_iff.mp hnone).1
    rw [HomeServer.identityView, Option.map_eq_none_iff] at hbox
    rw [hrow, hbox]
    rfl

theorem lookup_loadedDirectory (hstored : Stored home db) :
    ∃ directory, FiniteMap.traverse (fun _ row ↦ loadDirectory row) db.identities =
      .ok directory ∧ ∀ id, directory.lookup id = home.directory.lookup id := by
  obtain ⟨directory, hload, hlookup⟩ := FiniteMap.traverse_eq_ok
    (f := fun _ row ↦ loadDirectory row) (g := fun id _ ↦ home.directory.lookup id)
    (m := db.identities) fun id row hrow ↦ by
      rcases hstored.identities id with hsome | ⟨hnone, -⟩
      · rw [hrow] at hsome
        cases hsome
        exact loadDirectory_identityRow home id
      · rw [hrow] at hnone
        cases hnone
  refine ⟨directory, hload, fun id ↦ ?_⟩
  rw [hlookup]
  rcases hstored.identities id with hsome | ⟨hnone, hview⟩
  · rw [hsome]
    rfl
  · rw [hnone]
    exact (Prod.ext_iff.mp hview).2.symm

theorem lookup_loadedEnvelopes (hvalid : home.Valid) (hstored : Stored home db) :
    ∃ envelopes, FiniteMap.traverse (fun key row ↦ (loadEnvelope key row).map some)
      db.mailboxRows = .ok envelopes ∧ ∀ key, envelopes.lookup key = home.memoryRow key := by
  obtain ⟨envelopes, hload, hlookup⟩ := FiniteMap.traverse_eq_ok
    (f := fun key row ↦ (loadEnvelope key row).map some) (g := fun key _ ↦ home.memoryRow key)
    (m := db.mailboxRows) fun key row hrow ↦ by
      rw [hstored.mailboxRows] at hrow
      obtain ⟨stored, hmem, rfl⟩ := Option.map_eq_some_iff.mp hrow
      rw [loadEnvelope_mailboxRowOf hvalid hmem, hmem]
      rfl
  refine ⟨envelopes, hload, fun key ↦ ?_⟩
  rw [hlookup, hstored.mailboxRows]
  cases home.memoryRow key <;> rfl

theorem lookup_loadedPeers (hstored : Stored home db) :
    ∃ peers, FiniteMap.traverse (fun _ row ↦ (loadPeer row).map some) db.peers = .ok peers ∧
      ∀ p, peers.lookup p = (home.peers.lookup p).map fun p ↦
        .restore p.bundle p.refused p.lastRx p.nextTx := by
  obtain ⟨peers, hload, hlookup⟩ := FiniteMap.traverse_eq_ok
    (f := fun _ row ↦ (loadPeer row).map some)
    (g := fun p _ ↦ (home.peers.lookup p).map fun p ↦
      .restore p.bundle p.refused p.lastRx p.nextTx)
    (m := db.peers) fun p row hrow ↦ by
      rw [hstored.peers] at hrow
      obtain ⟨state, hstate, rfl⟩ := Option.map_eq_some_iff.mp hrow
      rw [loadPeer_peerRow, hstate]
      rfl
  refine ⟨peers, hload, fun p ↦ ?_⟩
  rw [hlookup, hstored.peers]
  cases home.peers.lookup p <;> rfl

/-- What is stored for a server is stored for every server that agrees with it. -/
theorem Stored.sameDurable {loaded : HomeServer} (hstored : Stored home db)
    (h : home.SameDurable loaded) (hrow : serverIdentityRow loaded = serverIdentityRow home)
    (hkeys : home.tokens.keys.Nodup)
    (hmemberships : ∀ o, rowsUnder db.memberships o = (loaded.memberships.lookup o).getD []) :
    Stored loaded db where
  serverIdentity := by rw [hrow, hstored.serverIdentity]
  identities id := by
    unfold IdentityStored
    rw [identityRow_congr (h.identityView id), h.identityView]
    exact hstored.identities id
  mailboxRows key := by rw [hstored.mailboxRows, h.memoryRow]
  tokens token := by rw [hstored.tokens, h.find_tokens hkeys]
  prekeys o := by rw [hstored.prekeys, h.prekeys]
  memberships := hmemberships
  peers p := by rw [hstored.peers, peerRow_congr (h.peers p)]
  outbound := by rw [hstored.outbound, h.outbound]
  hpkeSeen enc := by rw [hstored.hpkeSeen, h.seenEnc]

/-- `load_keys` rebuilds the durable fields from what a server stored. -/
theorem loadHome_eq_ok (crypto : Crypto) (hvalid : home.Valid) (hstored : Stored home db) :
    ∃ loaded, db.loadHome crypto home.hpke home.sign (serverIdentityRow home) = .ok loaded ∧
      home.Reloads loaded ∧ loaded.Valid ∧ Stored loaded db := by
  obtain ⟨directory, hdirectory, hdirectoryRows⟩ := lookup_loadedDirectory hstored
  obtain ⟨envelopes, henvelopes, henvelopeRows⟩ := lookup_loadedEnvelopes hvalid hstored
  obtain ⟨tokens, htokens, htokensPerm⟩ := mapM_loadToken hvalid hstored
  obtain ⟨peers, hpeers, hpeerRows⟩ := lookup_loadedPeers hstored
  have houtbound : db.outbound.mapM loadOutbound = .ok home.outbound := by
    rw [hstored.outbound]
    exact mapM_loadOutbound hvalid.outboundSmall
  have hboxes := lookup_loadedMailboxes hvalid hstored envelopes
  set loaded : HomeServer :=
    { HomeServer.fromIdentity crypto home.hpke home.sign home.bundle.host
        home.bundle.s2sPort.toUInt16 with
      mailboxes := FiniteMap.filterMap
        (fun id row ↦ (loadMailbox row).map (·.withRows (FiniteMap.slice envelopes id)))
        db.identities
      directory := directory
      tokens := tokens
      prekeys := FiniteMap.collect db.prekeys
      memberships := FiniteMap.collect db.memberships
      peers := peers
      outbound := home.outbound
      seenEnc := db.hpkeSeen } with hloaded
  have hload : db.loadHome crypto home.hpke home.sign (serverIdentityRow home) = .ok loaded := by
    unfold Database.loadHome
    rw [hdirectory, henvelopes, htokens, hpeers, houtbound]
    rfl
  have hlookup (m : IdentityId) : loaded.mailboxes.lookup m = loadedBox home envelopes m := hboxes m
  have hrows (m : IdentityId) (seq : ℕ) :
      (FiniteMap.slice envelopes m).lookup seq = home.memoryRow (m, seq) := by
    rw [FiniteMap.lookup_slice, henvelopeRows]
  have hbox {m : IdentityId} {box' : Mailbox} (h : loaded.mailboxes.lookup m = some box') :
      ∃ box, home.mailboxes.lookup m = some box ∧
        { box with rows := ∅, idempotency := ∅ }.withRows (FiniteMap.slice envelopes m) = box' ∧
        ∀ seq, (FiniteMap.slice envelopes m).lookup seq = box.rows.lookup seq := by
    rw [hlookup, loadedBox] at h
    obtain ⟨box, hbox, heq⟩ := Option.map_eq_some_iff.mp h
    refine ⟨box, hbox, heq, fun seq ↦ ?_⟩
    rw [hrows, HomeServer.memoryRow, hbox]
    rfl
  have hmemberships (o : IdentityId) :
      rowsUnder db.memberships o = (loaded.memberships.lookup o).getD [] :=
    (FiniteMap.getD_lookup_collect db.memberships o).symm
  have hport : loaded.bundle.s2sPort = home.bundle.s2sPort := by
    obtain ⟨s2sPort, hport⟩ := hvalid.port
    have hcast : loaded.bundle.s2sPort = home.bundle.s2sPort.toUInt16.toUInt64 := rfl
    rw [hcast, hport, UInt16.toUInt16_toUInt64]
  have hrow : serverIdentityRow loaded = serverIdentityRow home := by
    unfold serverIdentityRow
    rw [hport]
    rfl
  have hsame : home.SameDurable loaded := by
    refine ⟨fun m ↦ ?_, hdirectoryRows, htokensPerm, fun o ↦ ?_, fun o ↦ ?_, fun p ↦ ?_, rfl,
      hstored.hpkeSeen⟩
    · rw [hlookup, loadedBox]
      cases hm : home.mailboxes.lookup m with
      | none => exact .none
      | some box =>
        refine .some ⟨rfl, rfl, rfl, rfl, fun seq ↦ ?_⟩
        have hrow := hrows m seq
        rw [HomeServer.memoryRow, hm] at hrow
        exact hrow
    · exact (FiniteMap.getD_lookup_collect db.prekeys o).trans (hstored.prekeys o)
    · rw [← hmemberships, hstored.memberships]
    · have hpeer : loaded.peers.lookup p = _ := hpeerRows p
      rw [hpeer, Option.map_map]
      rfl
  have hidem : ∀ m box, loaded.mailboxes.lookup m = some box → ∀ seq row,
      box.rows.lookup seq = some row →
        box.idempotency.lookup row.inner.idempotencyToken = some seq := by
    intro m box' hbox' seq row hrow
    obtain ⟨box, hm, rfl, hsameRows⟩ := hbox hbox'
    have hlog := (hvalid.mailbox m box hm).toLogInv
    refine Mailbox.idempotency_withRows _ ?_ hrow ?_
    · exact fun seq row hrow ↦ hlog.seq_eq seq row (hsameRows seq ▸ hrow)
    · intro seq' row' hrow' htoken
      exact hlog.seq_unique (hsameRows seq' ▸ hrow') (hsameRows seq ▸ hrow) htoken
  refine ⟨loaded, hload, ⟨hsame, rfl, rfl, rfl, hport, rfl, rfl, rfl, hpeerRows, ?_⟩,
    hsame.valid hvalid hport hidem, hstored.sameDurable hsame hrow hvalid.tokenKeys hmemberships⟩
  intro m box' hbox' token seq hseq
  obtain ⟨box, hm, rfl, hsameRows⟩ := hbox hbox'
  have hlog := (hvalid.mailbox m box hm).toLogInv
  exact Mailbox.exists_row_of_idempotency_withRows _
    (fun seq row hrow ↦ hlog.seq_eq seq row (hsameRows seq ▸ hrow)) hseq

end Load

end NemoMessenger.Server
