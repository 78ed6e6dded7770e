import NemoMessenger.Server.Restart

/-!
# Capabilities and prekeys over restarts

As long as new capability keys are free, a `persist` that succeeds stores the capabilities and the
prekey queues of memory, whatever else the run has done, and a restart finds what was stored last.
-/

namespace NemoMessenger.Server

open NemoMessenger.Data NemoMessenger.Wire

/-- The database holds these capabilities and prekey queues. -/
structure Database.Issued (db : Database) (find : Key → Option TokenKind)
    (queue : IdentityId → List Bytes) : Prop where
  tokens : ∀ token, (db.tokens.lookup token).map loadToken = (find token).map Except.ok
  prekeys : ∀ owner, rowsUnder db.prekeys owner = queue owner

/-- The prekeys of a mailbox that are not reserved. -/
def HomeServer.queue (home : HomeServer) (owner : IdentityId) : List Bytes :=
  (home.prekeys.lookup owner).getD []

/-- Capability keys are distinct, and the journal replayed on the database gives the capabilities and
prekey queues of memory. -/
structure IssuedSynced (home : HomeServer) (db : Database) : Prop where
  nodup : home.tokens.keys.Nodup
  tokens : TokenTable home.tokens home.dirty.tokens (home.tokenState.spared db.tokens)
  prekeys : InStep home.dirty.prekeys (rowsUnder db.prekeys) home.queue

/-- The database and the keys of the server can be loaded. -/
def Database.Loads (crypto : Crypto) (db : Database) (home : HomeServer) : Bool :=
  match db.loadKeys crypto (some (home.hpke, home.sign)) with
  | .ok (some _) => true
  | _ => false

section Synced

variable {crypto : Crypto} {promises : Promises} {home home' : HomeServer} {db mid : Database}

theorem LoudEdit.issuedSynced (h : LoudEdit crypto promises home home')
    (hfresh : ∀ tokens token owner, promises.registers tokens token owner → token ∉ tokens.keys)
    (hhome : IssuedSynced home db) : IssuedSynced home' db where
  nodup := h.tokenEdit.nodup_keys hfresh hhome.nodup
  tokens := h.tokenEdit.tokenTable hfresh hhome.nodup hhome.tokens
  prekeys := h.prekeysSynced hhome.prekeys

theorem IssuedSynced.edits (hhome : IssuedSynced home db)
    (hfresh : ∀ tokens token owner, promises.registers tokens token owner → token ∉ tokens.keys)
    (h : LoudEdits crypto promises home home') : IssuedSynced home' db :=
  h.keeps (fun s ↦ IssuedSynced s db) (fun _ _ hedit hs ↦ hedit.issuedSynced hfresh hs) hhome

theorem IssuedSynced.absorb (h : IssuedSynced home db) :
    IssuedSynced { home with dirty := HomeDirty.absorb {} home.dirty } db :=
  ⟨h.nodup, h.tokens, h.prekeys⟩

/-- With nothing to write the database holds what memory does. -/
theorem IssuedSynced.issued (h : IssuedSynced home db) (hclean : home.dirty = {}) :
    db.Issued home.tokens.find home.queue where
  tokens token := by
    rw [← spared_clean hclean]
    exact h.tokens.loads token (by simp [hclean])
  prekeys owner := h.prekeys owner (by simp [hclean])

theorem Database.Issued.synced (h : db.Issued home.tokens.find home.queue)
    (hnodup : home.tokens.keys.Nodup) (hclean : home.dirty = {}) : IssuedSynced home db where
  nodup := hnodup
  tokens := by
    rw [hclean, funext (spared_clean hclean db.tokens)]
    refine ⟨fun token row hrow ↦ ?_, fun token _ ↦ h.tokens token⟩
    have hload := h.tokens token
    rw [hrow, Option.map_some] at hload
    obtain ⟨kind, hkind, hok⟩ := Option.map_eq_some_iff.mp hload.symm
    exact ⟨kind, hkind, fits_of_loadToken hok.symm⟩
  prekeys owner _ := h.prekeys owner

/-! ## Writing -/

/-- An upsert that goes through takes one mark off the table. -/
theorem TokenTable.of_upsertToken (hnodup : home.tokens.keys.Nodup)
    {identities : FiniteMap IdentityId IdentityRow} {token : Key} {marked : List Key}
    {rows rows' : FiniteMap Key TokenRow}
    (hupsert : Database.upsertToken identities home rows token = .ok rows')
    (h : TokenTable home.tokens (token :: marked) rows.lookup) :
    TokenTable home.tokens marked rows'.lookup := by
  have hothers {token' : Key} (hmarked : token' ∉ marked) (hne : token' ≠ token) :
      token' ∉ token :: marked := by
    rw [List.mem_cons, not_or]
    exact ⟨hne, hmarked⟩
  unfold Database.upsertToken at hupsert
  split at hupsert
  · rename_i hnone
    cases hupsert
    have hfind : home.tokens.find token = none := by
      rw [Tokens.find_eq_none_iff]
      intro hmem
      obtain ⟨entry, hentry, hkey⟩ := List.mem_map.mp hmem
      simpa [hkey] using List.find?_eq_none.mp hnone entry hentry
    refine ⟨h.fits, fun token' hmarked ↦ ?_⟩
    by_cases heq : token' = token
    · rw [heq, h.eq_none hfind, hfind]
      rfl
    · exact h.loads token' (hothers hmarked heq)
  · rename_i key kind hsome
    split_ifs at hupsert
    cases hupsert
    have hkey : key = token := by simpa using List.find?_some hsome
    have hfind : home.tokens.find token = some kind :=
      Tokens.find_eq_some_of_mem hnodup (hkey ▸ List.mem_of_find?_eq_some hsome)
    have hold (row : TokenRow) (hrow : rows.lookup token = some row) : row.Fits kind := by
      obtain ⟨kind', hkind', hfits⟩ := h.fits token row hrow
      rw [hfind] at hkind'
      cases hkind'
      exact hfits
    refine ⟨fun token' row hrow ↦ ?_, fun token' hmarked ↦ ?_⟩
    · rw [FiniteMap.lookup_insert_ite] at hrow
      split_ifs at hrow with heq
      · cases hrow
        exact ⟨kind, heq ▸ hfind, fits_tokenRow hold⟩
      · exact h.fits token' row hrow
    · rw [FiniteMap.lookup_insert_ite]
      split_ifs with heq
      · rw [heq, hfind, Option.map_some, loadToken_tokenRow hold]
        rfl
      · exact h.loads token' (hothers hmarked heq)

theorem TokenTable.of_foldlM (hnodup : home.tokens.keys.Nodup)
    {identities : FiniteMap IdentityId IdentityRow} {marked : List Key}
    {rows rows' : FiniteMap Key TokenRow}
    (hupserts : marked.foldlM (Database.upsertToken identities home) rows = .ok rows')
    (h : TokenTable home.tokens marked rows.lookup) : TokenTable home.tokens [] rows'.lookup := by
  induction marked generalizing rows with
  | nil =>
    cases hupserts
    exact h
  | cons token marked ih =>
    rw [List.foldlM_cons] at hupserts
    obtain ⟨next, hnext, hupserts⟩ := bind_eq_ok.mp hupserts
    exact ih hupserts (h.of_upsertToken hnodup hnext)

/-- A rewrite that goes through writes the queue of memory. -/
theorem rewritePrekeys_of_eq_ok {identities : FiniteMap IdentityId IdentityRow}
    {rows rows' : List (IdentityId × Bytes)} {owner : IdentityId}
    (h : Database.rewritePrekeys identities home rows owner = .ok rows') :
    rows' = rewriteRows home.queue rows owner := by
  unfold Database.rewritePrekeys at h
  dsimp only at h
  unfold rewriteRows HomeServer.queue
  split at h
  · rename_i hnone
    cases h
    simp [hnone]
  · rename_i hnil
    cases h
    simp [hnil]
  · rename_i queue hne hqueue
    split_ifs at h
    cases h
    rw [hqueue, Option.getD_some]

theorem inStep_of_rewritePrekeys {identities : FiniteMap IdentityId IdentityRow}
    {marked : List IdentityId} {rows rows' : List (IdentityId × Bytes)}
    (hrewrites : marked.foldlM (Database.rewritePrekeys identities home) rows = .ok rows')
    (h : InStep marked (rowsUnder rows) home.queue) : rowsUnder rows' = home.queue := by
  have hfold : rows' = marked.foldl (rewriteRows home.queue) rows := by
    clear h
    induction marked generalizing rows with
    | nil =>
      cases hrewrites
      rfl
    | cons owner marked ih =>
      rw [List.foldlM_cons] at hrewrites
      obtain ⟨next, hnext, hrewrites⟩ := bind_eq_ok.mp hrewrites
      rw [List.foldl_cons, ← rewritePrekeys_of_eq_ok hnext]
      exact ih hrewrites
  rw [hfold]
  exact funext (rowsUnder_foldl_rewriteRows h)

theorem IssuedSynced.issued_of_persistHome (h : IssuedSynced home db)
    (hpersist : Database.persistHome home home.dirty db = .ok mid) :
    mid.Issued home.tokens.find home.queue := by
  unfold Database.persistHome at hpersist
  obtain ⟨mailboxRows, -, hpersist⟩ := bind_eq_ok.mp hpersist
  obtain ⟨tokens, htokens, hpersist⟩ := bind_eq_ok.mp hpersist
  obtain ⟨prekeys, hprekeys, hpersist⟩ := bind_eq_ok.mp hpersist
  obtain ⟨memberships, -, hpersist⟩ := bind_eq_ok.mp hpersist
  obtain ⟨hpkeSeen, -, hpersist⟩ := bind_eq_ok.mp hpersist
  cases hpersist
  have htable : TokenTable home.tokens home.dirty.tokens
      (home.dirty.tokensDroppedExact.foldl Database.deleteTokenExact
        (home.dirty.tokensDropped.foldl Database.deleteTokensOwner db.tokens)).lookup := by
    have hspared := funext (lookup_sparedTokens home.tokenState db.tokens)
    exact hspared ▸ h.tokens
  have hstored := htable.of_foldlM h.nodup htokens
  exact ⟨fun token ↦ hstored.loads token List.not_mem_nil,
    congrFun (inStep_of_rewritePrekeys hprekeys h.prekeys)⟩

end Synced

/-! ## Persists and restarts -/

section Nodes

variable {crypto : Crypto} {node : Node}

/-- What `persist` does to the journal and to what was issued. -/
theorem Node.persist_issues (node : Node) (fault : Bool) :
    (node.home.dirty = {} ∧ (node.persist fault).1 = .ok () ∧
      (node.persist fault).2.home = node.home ∧ (node.persist fault).2.db = node.db) ∨
    ((node.persist fault).1 ≠ .ok () ∧
      (node.persist fault).2.home =
        { node.home with dirty := HomeDirty.absorb {} node.home.dirty } ∧
      (node.persist fault).2.db = node.db) ∨
    ∃ mid, Database.persistHome node.home node.home.dirty node.db = .ok mid ∧
      (node.persist fault).1 = .ok () ∧
      (node.persist fault).2.home = { node.home with dirty := {} } ∧
      (node.persist fault).2.db.tokens = mid.tokens ∧
      (node.persist fault).2.db.prekeys = mid.prekeys := by
  unfold Node.persist Server.persist
  split_ifs with hclean
  · rw [Bool.and_eq_true, HomeDirty.isClean_iff] at hclean
    exact .inl ⟨hclean.1, rfl, rfl, rfl⟩
  · exact .inr (.inl ⟨nofun, rfl, rfl⟩)
  · dsimp only
    split
    · exact .inr (.inl ⟨nofun, rfl, rfl⟩)
    · rename_i db hdb
      unfold Database.persistInner at hdb
      obtain ⟨mid, hhome, hgroups⟩ := bind_eq_ok.mp hdb
      unfold Database.persistGroups at hgroups
      obtain ⟨groupCreds, -, hgroups⟩ := bind_eq_ok.mp hgroups
      obtain ⟨groupInvites, -, hgroups⟩ := bind_eq_ok.mp hgroups
      obtain ⟨groupPending, -, hgroups⟩ := bind_eq_ok.mp hgroups
      obtain ⟨groupStream, -, hgroups⟩ := bind_eq_ok.mp hgroups
      obtain ⟨groupFiles, -, hgroups⟩ := bind_eq_ok.mp hgroups
      cases hgroups
      exact .inr (.inr ⟨mid, hhome, rfl, rfl, rfl, rfl⟩)

/-- A `persist` stores what memory has issued, or it fails and the database stays as it was. -/
theorem IssuedSynced.persist (h : IssuedSynced node.home node.db) (fault : Bool) :
    IssuedSynced (node.persist fault).2.home (node.persist fault).2.db ∧
      (node.persist fault).2.home.tokens = node.home.tokens ∧
      (node.persist fault).2.home.queue = node.home.queue ∧
      (((node.persist fault).1 = .ok () ∧
          (node.persist fault).2.db.Issued node.home.tokens.find node.home.queue) ∨
        ((node.persist fault).1 ≠ .ok () ∧ (node.persist fault).2.db = node.db)) := by
  rcases node.persist_issues fault with ⟨hclean, hok, hhome, hdb⟩ | ⟨hfailed, hhome, hdb⟩ |
    ⟨mid, hpersist, hok, hhome, htokens, hprekeys⟩
  · rw [hhome, hdb]
    exact ⟨h, rfl, rfl, .inl ⟨hok, h.issued hclean⟩⟩
  · rw [hhome, hdb]
    exact ⟨h.absorb, rfl, rfl, .inr ⟨hfailed, rfl⟩⟩
  · have hissued := h.issued_of_persistHome hpersist
    have hstored : (node.persist fault).2.db.Issued node.home.tokens.find node.home.queue :=
      ⟨fun token ↦ htokens ▸ hissued.tokens token, fun owner ↦ hprekeys ▸ hissued.prekeys owner⟩
    rw [hhome]
    exact ⟨@Database.Issued.synced { node.home with dirty := {} } _ hstored h.nodup rfl,
      rfl, rfl, .inl ⟨hok, hstored⟩⟩

theorem prekeys_loadHome {db : Database} {hpke : HpkeKeypair} {sign : Key}
    {ident : ServerIdentityRow} {loaded : HomeServer}
    (h : db.loadHome crypto hpke sign ident = .ok loaded) :
    loaded.prekeys = FiniteMap.collect db.prekeys := by
  unfold Database.loadHome at h
  obtain ⟨directory, -, h⟩ := bind_eq_ok.mp h
  obtain ⟨envelopes, -, h⟩ := bind_eq_ok.mp h
  obtain ⟨tokens, -, h⟩ := bind_eq_ok.mp h
  obtain ⟨peers, -, h⟩ := bind_eq_ok.mp h
  obtain ⟨outbound, -, h⟩ := bind_eq_ok.mp h
  cases h
  rfl

/-- A restart finds the capabilities and queues that are stored. -/
theorem find_of_readFrom {db : Database} {loaded : HomeServer} (h : loaded.ReadFrom db)
    {find : Key → Option TokenKind} {queue : IdentityId → List Bytes} (hissued : db.Issued find queue) :
    loaded.tokens.find = find := by
  funext token
  apply Option.ext
  intro kind
  constructor
  · intro hfind
    obtain ⟨e, he, hload⟩ := FiniteMap.exists_of_mem_mapM h.tokens (Tokens.mem_of_find hfind)
    cases hkind : loadToken e.2 with
    | error e' =>
      rw [hkind] at hload
      cases hload
    | ok kind' =>
      rw [hkind] at hload
      cases hload
      have hstored := hissued.tokens e.1
      rw [FiniteMap.lookup_eq_some_iff.mpr he, Option.map_some, hkind] at hstored
      obtain ⟨kind'', hfind', heq⟩ := Option.map_eq_some_iff.mp hstored.symm
      cases heq
      exact hfind'
  · intro hfind
    have hstored := hissued.tokens token
    rw [hfind, Option.map_some] at hstored
    obtain ⟨row, hrow, hload⟩ := Option.map_eq_some_iff.mp hstored
    have hmem : (⟨token, row⟩ : Sigma fun _ : Key ↦ TokenRow) ∈ db.tokens.entries :=
      FiniteMap.lookup_eq_some_iff.mp hrow
    have hentry := @List.mem_map_of_mem _ _ _ _ (fun e : Sigma fun _ : Key ↦ TokenRow ↦
      (loadToken e.2).map fun kind ↦ (e.1, kind)) hmem
    rw [FiniteMap.map_eq_of_mapM h.tokens, hload] at hentry
    obtain ⟨entry, hentry, heq⟩ := List.mem_map.mp hentry
    cases heq
    exact Tokens.find_eq_some_of_mem h.nodup_keys hentry

theorem queue_of_loadHome {db : Database} {hpke : HpkeKeypair} {sign : Key}
    {ident : ServerIdentityRow} {loaded : HomeServer}
    (h : db.loadHome crypto hpke sign ident = .ok loaded) {find : Key → Option TokenKind}
    {queue : IdentityId → List Bytes} (hissued : db.Issued find queue) : loaded.queue = queue := by
  funext owner
  calc
    loaded.queue owner = rowsUnder db.prekeys owner := by
      rw [HomeServer.queue, prekeys_loadHome h, FiniteMap.getD_lookup_collect]
      rfl
    _ = queue owner := hissued.prekeys owner

/-- A restart changes nothing, or it finds what was stored. -/
theorem IssuedSynced.reload (h : IssuedSynced node.home node.db) {find : Key → Option TokenKind}
    {queue : IdentityId → List Bytes} (hissued : node.db.Issued find queue) :
    IssuedSynced (node.reload crypto).home (node.reload crypto).db ∧
      (node.reload crypto).db = node.db ∧
      ((node.db.Loads crypto node.home = false ∧ node.reload crypto = node) ∨
        (node.db.Loads crypto node.home = true ∧ (node.reload crypto).home.tokens.find = find ∧
          (node.reload crypto).home.queue = queue)) := by
  unfold Node.reload Database.Loads
  cases hload : node.db.loadKeys crypto (some (node.home.hpke, node.home.sign)) with
  | error e => exact ⟨h, rfl, .inl ⟨rfl, rfl⟩⟩
  | ok found =>
    cases found with
    | none => exact ⟨h, rfl, .inl ⟨rfl, rfl⟩⟩
    | some pair =>
      obtain ⟨loaded, host⟩ := pair
      obtain ⟨hpke, sign, ident, hhome⟩ := exists_loadHome_of_loadKeys hload
      have hreads := loadHome_readFrom hhome
      have hfind := find_of_readFrom hreads hissued
      have hqueue := queue_of_loadHome hhome hissued
      refine ⟨?_, rfl, .inr ⟨rfl, hfind, hqueue⟩⟩
      refine @Database.Issued.synced { loaded with history := node.home.history } _ ?_
        hreads.nodup_keys hreads.dirty
      exact ⟨fun token ↦ hfind ▸ hissued.tokens token, fun owner ↦ hqueue ▸ hissued.prekeys owner⟩

/-! ## Ledgers -/

/-- What holds of what memory has issued, and of what is stored. -/
structure Saves (node : Node)
    (Memory Stored : (Key → Option TokenKind) → (IdentityId → List Bytes) → Prop) : Prop where
  synced : IssuedSynced node.home node.db
  memory : Memory node.home.tokens.find node.home.queue
  stored : ∃ find queue, node.db.Issued find queue ∧ Stored find queue

section Saves

variable {Memory Stored : (Key → Option TokenKind) → (IdentityId → List Bytes) → Prop}

theorem saves_fresh (crypto : Crypto) (hpke : HpkeKeypair) (sign : Key) (limits : Limits)
    (h : Memory (fun _ ↦ none) fun _ ↦ []) :
    Saves (.fresh crypto hpke sign limits) Memory Memory := by
  have hissued : Database.empty.Issued (fun _ ↦ none) (fun _ ↦ []) :=
    ⟨fun _ ↦ rfl, fun _ ↦ rfl⟩
  exact ⟨Database.Issued.synced hissued List.nodup_nil rfl, h, _, _, hissued, h⟩

theorem Saves.persist (h : Saves node Memory Stored) (fault : Bool) :
    ((node.persist fault).1 = .ok () ∧ Saves (node.persist fault).2 Memory Memory) ∨
      ((node.persist fault).1 ≠ .ok () ∧ Saves (node.persist fault).2 Memory Stored) := by
  obtain ⟨hsynced, htokens, hqueue, ⟨hok, hissued⟩ | ⟨hfailed, hdb⟩⟩ := h.synced.persist fault
  · exact .inl ⟨hok, hsynced, htokens ▸ hqueue ▸ h.memory, _, _, hissued, h.memory⟩
  · exact .inr ⟨hfailed, hsynced, htokens ▸ hqueue ▸ h.memory, hdb ▸ h.stored⟩

theorem Saves.reload (crypto : Crypto) (h : Saves node Memory Stored) :
    (node.db.Loads crypto node.home = false ∧ node.reload crypto = node) ∨
      (node.db.Loads crypto node.home = true ∧ Saves (node.reload crypto) Stored Stored) := by
  obtain ⟨find, queue, hissued, hstored⟩ := h.stored
  obtain ⟨hsynced, hdb, hsame | ⟨hloads, hfind, hqueue⟩⟩ :=
    @IssuedSynced.reload crypto node h.synced find queue hissued
  · exact .inl hsame
  · exact .inr ⟨hloads, hsynced, hfind ▸ hqueue ▸ hstored, find, queue, hdb ▸ hissued, hstored⟩

end Saves

end Nodes

/-- What a run has done and the capability keys it has issued, with what of them is saved. A restart
forgets what is not. -/
structure Ledger (α : Type) where
  log : List α
  keys : List Key
  savedLog : List α
  savedKeys : List Key

namespace Ledger

variable {α : Type} {crypto : Crypto} {node : Node} {ledger : Ledger α}

/-- A server that has done nothing. -/
def blank : Ledger α := ⟨[], [], [], []⟩

/-- A new capability has a key that was never issued. -/
def newKeys (ledger : Ledger α) : Promises :=
  { Promises.none with registers := fun tokens token _ ↦ token ∉ tokens.keys ∧ token ∉ ledger.keys }

/-- After an operation of the home server. -/
def record (ledger : Ledger α) (log : List α) (home : HomeServer) : Ledger α :=
  { ledger with log := ledger.log ++ log, keys := ledger.keys ++ home.tokens.keys }

/-- After a `persist`. -/
def save (ledger : Ledger α) (result : Except PersistError Unit) : Ledger α :=
  match result with
  | .ok _ => { ledger with savedLog := ledger.log, savedKeys := ledger.keys }
  | .error _ => ledger

/-- After a restart, which goes on with the server it has when nothing can be loaded. -/
def restart (ledger : Ledger α) (loads : Bool) : Ledger α :=
  if loads then { ledger with log := ledger.savedLog, keys := ledger.savedKeys } else ledger

/-- Capabilities have keys that were issued, and together with the prekey queues they agree with the
log. -/
structure Agrees (Holds : List α → List Key → (Key → Option TokenKind) →
      (IdentityId → List Bytes) → Prop) (log : List α) (keys : List Key)
    (find : Key → Option TokenKind) (queue : IdentityId → List Bytes) : Prop where
  known : ∀ token, (find token).isSome → token ∈ keys
  holds : Holds log keys find queue

/-- Memory agrees with the ledger, and so does what is stored with what is saved. -/
def Keeps (Holds : List α → List Key → (Key → Option TokenKind) → (IdentityId → List Bytes) → Prop)
    (ledger : Ledger α) (node : Node) : Prop :=
  Saves node (Agrees Holds ledger.log ledger.keys) (Agrees Holds ledger.savedLog ledger.savedKeys)

variable {Holds : List α → List Key → (Key → Option TokenKind) → (IdentityId → List Bytes) → Prop}

theorem keeps_blank (crypto : Crypto) (hpke : HpkeKeypair) (sign : Key) (limits : Limits)
    (h : Holds [] [] (fun _ ↦ none) fun _ ↦ []) :
    Keeps Holds blank (.fresh crypto hpke sign limits) :=
  saves_fresh crypto hpke sign limits ⟨nofun, h⟩

theorem Keeps.imp (h : Keeps Holds ledger node)
    {Holds' : List α → List Key → (Key → Option TokenKind) → (IdentityId → List Bytes) → Prop}
    (himp : ∀ log keys find queue, Holds log keys find queue → Holds' log keys find queue) :
    Keeps Holds' ledger node := by
  obtain ⟨find, queue, hissued, hknown, hholds⟩ := h.stored
  exact ⟨h.synced, ⟨h.memory.known, himp _ _ _ _ h.memory.holds⟩, find, queue, hissued, hknown,
    himp _ _ _ _ hholds⟩

theorem Keeps.subset (h : Keeps Holds ledger node) : node.home.tokens.keys ⊆ ledger.keys := by
  intro token hmem
  apply h.memory.known
  rwa [Option.isSome_iff_ne_none, ne_eq, Tokens.find_eq_none_iff, not_not]

theorem Keeps.home (h : Keeps Holds ledger node) {op : HomeOp} {log : List α}
    (hmeets : op.Meets crypto ledger.newKeys node.home)
    (hholds : Holds (ledger.log ++ log)
      (ledger.keys ++ (op.apply crypto node.home).tokens.keys)
      (op.apply crypto node.home).tokens.find (op.apply crypto node.home).queue) :
    Keeps Holds (ledger.record log (op.apply crypto node.home))
      { node with home := op.apply crypto node.home } := by
  have hfresh (tokens : Tokens) (token : Key) (owner : IdentityId)
      (hnew : ledger.newKeys.registers tokens token owner) : token ∉ tokens.keys := hnew.1
  refine ⟨h.synced.edits hfresh (op.apply_edits crypto ledger.newKeys _ hmeets),
    ⟨fun token hsome ↦ List.mem_append_right _ ?_, hholds⟩, h.stored⟩
  rwa [Option.isSome_iff_ne_none, ne_eq, Tokens.find_eq_none_iff, not_not] at hsome

theorem Keeps.persist (h : Keeps Holds ledger node) (fault : Bool) :
    Keeps Holds (ledger.save (node.persist fault).1) (node.persist fault).2 := by
  rcases Saves.persist h fault with ⟨hok, hsaves⟩ | ⟨hfailed, hsaves⟩
  · rw [hok]
    exact hsaves
  · cases hresult : (node.persist fault).1 with
    | ok => exact absurd hresult hfailed
    | error => exact hsaves

theorem Keeps.reload (h : Keeps Holds ledger node) :
    Keeps Holds (ledger.restart (node.db.Loads crypto node.home)) (node.reload crypto) := by
  rcases Saves.reload crypto h with ⟨hloads, hsame⟩ | ⟨hloads, hsaves⟩
  · rw [hloads, hsame]
    exact h
  · rw [hloads]
    exact hsaves

end Ledger

end NemoMessenger.Server
