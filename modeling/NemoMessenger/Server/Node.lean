import NemoMessenger.Server.Reload
import NemoMessenger.Server.GroupReload

/-!
# A server and its database

A node is a home server, a group host and the database behind them. Its runs interleave operations,
calls of `persist` that may fail, and restarts from `load_keys`. Memory, journals and database stay
in step along every admissible run, so whatever is stored last is what a restart finds.
-/

namespace NemoMessenger.Server

open NemoMessenger.Data NemoMessenger.Wire

/-- A running server and its database. -/
structure Node where
  home : HomeServer
  host : GroupHost
  db : Database

/-- `persist`; `fault` is a connection that fails on the way. -/
def Node.persist (node : Node) (fault : Bool) : Except PersistError Unit × Node :=
  match Server.persist fault node.home node.host node.db with
  | (result, home, host, db) => (result, { home, host, db })

/-- A restart from `load_keys` with the keys of the identity file. What was not stored is lost; what
happened is not. A database that cannot be loaded starts no server. -/
def Node.reload (crypto : Crypto) (node : Node) : Node :=
  match node.db.loadKeys crypto (some (node.home.hpke, node.home.sign)) with
  | .ok (some (home, host)) =>
    { node with home := { home with history := node.home.history }, host }
  | _ => node

/-- Everything that can happen to a node. -/
inductive NodeOp
  | home (op : HomeOp)
  | group (op : GroupOp)
  | persist (fault : Bool)
  | reload

/-- The node after an operation. -/
def NodeOp.apply (crypto : Crypto) (node : Node) : NodeOp → Node
  | home op => { node with home := op.apply crypto node.home }
  | group op => { node with host := op.apply crypto node.host }
  | persist fault => (node.persist fault).2
  | reload => node.reload crypto

/-- The conditions under which the persistence of an operation is promised. -/
def NodeOp.Admissible (node : Node) : NodeOp → Prop
  | home op => op.Admissible node.home
  | group op => op.Admissible node.host
  | persist _ | reload => True

/-- The node before its first `persist`, with freshly generated keys. -/
def Node.first (crypto : Crypto) (hpke : HpkeKeypair) (sign : Key) (host : Text)
    (s2sPort : UInt16) : Node where
  home := .advertise crypto hpke sign host s2sPort
  host := .new
  db := .empty

/-! ## Memory, journals and database in step -/

/-- Home server and group host are well formed and in step with the database. -/
structure Node.InStep (node : Node) : Prop where
  homeValid : node.home.Valid
  homeSynced : Synced node.home node.db
  hostValid : node.host.Valid
  hostSynced : GroupSynced node.host node.db

/-- The database holds what a well-formed server stored. -/
structure Saved (home : HomeServer) (host : GroupHost) (db : Database) : Prop where
  homeValid : home.Valid
  homeStored : Stored home db
  hostValid : host.Valid
  hostStored : GroupStored host db

/-- A node in step whose database, once it has a server identity, is one a server with the same keys
stored. -/
structure Node.Recoverable (node : Node) : Prop extends node.InStep where
  checkpoint : node.db.serverIdentity = none ∨ ∃ home host, Saved home host node.db ∧
    home.hpke = node.home.hpke ∧ home.sign = node.home.sign

section InStep

variable {crypto : Crypto} {node : Node}

theorem Node.inStep_first (crypto : Crypto) (hpke : HpkeKeypair) (sign : Key) (host : Text)
    (s2sPort : UInt16) : (Node.first crypto hpke sign host s2sPort).InStep where
  homeValid := by
    have h := HomeServer.valid_fromIdentity crypto hpke sign host s2sPort
    exact ⟨h.mailbox, h.tokenKeys, h.tokenMailbox, h.directoryKeys, h.prekeyOwner, h.member,
      h.outboundSmall, h.port⟩
  homeSynced :=
    { serverIdentity := fun h ↦ by cases h
      identities := fun id _ ↦ .inr ⟨rfl, rfl⟩
      mailboxRows :=
        { newNodup := List.nodup_nil
          newAbsent := fun _ h ↦ by cases h
          newBelow := fun _ h ↦ by cases h
          storedBelow := fun _ h ↦ by cases h
          marks := fun _ _ h ↦ by cases h
          gone := fun _ _ _ ↦ rfl
          kept := fun _ _ _ ↦ rfl }
      tokens := ⟨fun _ _ h ↦ (by cases h), fun _ _ ↦ rfl⟩
      prekeys := fun _ _ ↦ rfl
      memberships := fun _ _ ↦ rfl
      peers := fun _ _ ↦ rfl
      peersKnown := fun _ h ↦ by cases h
      outbound := fun _ ↦ rfl
      hpkeSeen := fun _ ↦ ⟨List.nodup_nil, fun _ h ↦ (by cases h), fun _ h ↦ (by cases h),
        fun _ _ ↦ rfl⟩ }
  hostValid := ⟨fun _ _ h ↦ (by cases h), fun _ _ h ↦ (by cases h), fun _ _ h ↦ by cases h⟩
  hostSynced :=
    { groups := fun _ _ ↦ rfl
      groupsKnown := fun _ h ↦ by cases h
      creds := fun _ _ ↦ rfl
      credsKnown := fun _ h ↦ by cases h
      invites := fun _ _ ↦ rfl
      pending := fun _ _ ↦ rfl
      stream := ⟨List.nodup_nil, fun _ h ↦ (by cases h), fun _ h ↦ (by cases h),
        fun _ h ↦ (by cases h), fun _ _ ↦ rfl⟩
      files := fun _ _ ↦ rfl
      filesKnown := fun _ h ↦ by cases h }

theorem Node.recoverable_first (crypto : Crypto) (hpke : HpkeKeypair) (sign : Key) (host : Text)
    (s2sPort : UInt16) : (Node.first crypto hpke sign host s2sPort).Recoverable :=
  ⟨Node.inStep_first crypto hpke sign host s2sPort, .inl rfl⟩

/-- A server that has just been saved goes on with empty journals, in step. -/
theorem Saved.inStep {home : HomeServer} {host : GroupHost} {db : Database}
    (h : Saved home host db) (hhome : home.dirty = {}) (hhost : host.dirty = {}) :
    Node.InStep { home, host, db } :=
  ⟨h.homeValid, h.homeStored.synced hhome h.homeValid, h.hostValid,
    h.hostStored.synced hhost h.hostValid⟩

/-- Journals and ghost history are not part of what is saved. -/
theorem Saved.drain {home : HomeServer} {host : GroupHost} {db : Database}
    (h : Saved home host db) (hd : HomeDirty) (gd : GroupDirty) (history : History) :
    Saved { home with dirty := hd, history } { host with dirty := gd } db where
  homeValid := h.homeValid.drain hd history
  homeStored := h.homeStored.drain hd history
  hostValid := h.hostValid.drain gd
  hostStored := ⟨h.hostStored.toTablesStored.drain gd, h.hostStored.invites⟩

/-- From a home server and groups in step with their tables the transaction goes through; the invites
of the groups that are not marked stay as they were. -/
theorem persistInner_tables (hvalid : node.home.Valid) (hsynced : Synced node.home node.db)
    (hhost : node.host.Valid) (htables : TablesSynced node.host node.db) :
    ∃ db, Database.persistInner node.home node.host node.home.dirty node.host.dirty node.db =
        .ok db ∧
      Stored node.home db ∧ TablesStored node.host db ∧
      ∀ id key, db.groupInvites.lookup (id, key) =
        if id ∈ node.host.dirty.invites then node.host.memberRow GroupState.invites id key
        else node.db.groupInvites.lookup (id, key) := by
  obtain ⟨db, hhome, hstored, hgroups, hcreds, hinvites, hpending, hstream, hfiles⟩ :=
    persistHome_eq_ok hvalid hsynced
  have htables' : TablesSynced node.host db :=
    { groups := hgroups ▸ htables.groups
      groupsKnown := hgroups ▸ htables.groupsKnown
      creds := hcreds ▸ htables.creds
      credsKnown := hcreds ▸ htables.credsKnown
      pending := hpending ▸ htables.pending
      stream := hstream ▸ htables.stream
      files := hfiles ▸ htables.files
      filesKnown := hfiles ▸ htables.filesKnown }
  obtain ⟨db', hdb', htablesStored, hrows, hsame⟩ := persistTables_eq_ok hhost htables'
  have hstored' : Stored node.home db' := by
    rw [hsame]
    exact ⟨hstored.serverIdentity, hstored.identities, hstored.mailboxRows, hstored.tokens,
      hstored.prekeys, hstored.memberships, hstored.peers, hstored.outbound, hstored.hpkeSeen⟩
  refine ⟨db', ?_, hstored', htablesStored, fun id key ↦ ?_⟩
  · unfold Database.persistInner
    rw [hhome]
    exact hdb'
  · rw [hrows, hinvites]

/-- From a node in step the transaction saves the server. -/
theorem persistInner_eq_ok (h : node.InStep) :
    ∃ db, Database.persistInner node.home node.host node.home.dirty node.host.dirty node.db =
      .ok db ∧ Saved node.home node.host db := by
  obtain ⟨db, hdb, hstored, htables, hinvites⟩ :=
    persistInner_tables h.homeValid h.homeSynced h.hostValid h.hostSynced.toTablesSynced
  refine ⟨db, hdb, h.homeValid, hstored, h.hostValid, htables, fun id key ↦ ?_⟩
  rw [hinvites]
  split_ifs with hid
  · rfl
  · exact congrFun (h.hostSynced.invites id hid) key

/-- Where the transaction would go through, `persist` commits it, or the connection failed and
nothing but the journals' layout has changed. -/
theorem Node.persist_of_inner {Holds : Database → Prop}
    (hclean : node.home.dirty = {} → node.host.dirty = {} → Holds node.db)
    (hinner : ∃ db, Database.persistInner node.home node.host node.home.dirty node.host.dirty
      node.db = .ok db ∧ Holds db) (fault : Bool) :
    (∃ db, node.persist fault = (.ok (),
        ⟨{ node.home with dirty := {} }, { node.host with dirty := {} }, db⟩) ∧ Holds db) ∨
    fault = true ∧ node.persist fault = (.error .sqlx,
      ⟨{ node.home with dirty := HomeDirty.absorb {} node.home.dirty },
        { node.host with dirty := GroupDirty.absorb {} node.host.dirty }, node.db⟩) := by
  unfold Node.persist Server.persist
  by_cases hboth : (node.home.dirty.isClean && node.host.dirty.isClean) = true
  · left
    obtain ⟨hhome, hhost⟩ := Bool.and_eq_true_iff.mp hboth
    rw [HomeDirty.isClean_iff] at hhome
    rw [GroupDirty.isClean_iff] at hhost
    rw [if_pos hboth]
    refine ⟨node.db, ?_, hclean hhome hhost⟩
    rw [← hhome, ← hhost]
  · rw [if_neg hboth]
    dsimp only
    cases fault with
    | true => exact .inr ⟨rfl, rfl⟩
    | false =>
      left
      obtain ⟨db, hdb, hholds⟩ := hinner
      have hdb' : Database.persistInner { node.home with dirty := {} }
          { node.host with dirty := {} } node.home.dirty node.host.dirty node.db = .ok db := hdb
      rw [if_neg (by decide), hdb']
      exact ⟨db, rfl, hholds⟩

/-- `persist` from a node in step saves the server, or the connection failed. -/
theorem Node.persist_cases (h : node.InStep) (fault : Bool) :
    (∃ db, node.persist fault = (.ok (),
        ⟨{ node.home with dirty := {} }, { node.host with dirty := {} }, db⟩) ∧
      Saved node.home node.host db) ∨
    fault = true ∧ node.persist fault = (.error .sqlx,
      ⟨{ node.home with dirty := HomeDirty.absorb {} node.home.dirty },
        { node.host with dirty := GroupDirty.absorb {} node.host.dirty }, node.db⟩) :=
  node.persist_of_inner
    (fun hhome hhost ↦ ⟨h.homeValid, h.homeSynced.stored hhome, h.hostValid,
      h.hostSynced.stored hhost⟩)
    (persistInner_eq_ok h) fault

/-- `load_keys` reads a stored home server and the groups. -/
theorem loadKeys_of_stored {home home' : HomeServer} {host' : GroupHost} {db : Database}
    (hstored : Stored home db)
    (hhome : db.loadHome crypto home.hpke home.sign (serverIdentityRow home) = .ok home')
    (hhost : db.loadGroups = .ok host') :
    db.loadKeys crypto (some (home.hpke, home.sign)) = .ok (some (home', host')) := by
  unfold Database.loadKeys
  rw [hstored.serverIdentity]
  dsimp only
  rw [if_neg (by simp [serverIdentityRow])]
  simp only [bind, Except.bind, hhome, hhost]

/-- What `load_keys` makes of a saved server. -/
theorem loadKeys_eq_ok (crypto : Crypto) {home : HomeServer} {host : GroupHost} {db : Database}
    (h : Saved home host db) :
    ∃ home' host', db.loadKeys crypto (some (home.hpke, home.sign)) = .ok (some (home', host')) ∧
      home.Reloads home' ∧ host.SameDurable host' ∧ host'.dirty = {} ∧ Saved home' host' db := by
  obtain ⟨home', hload, hreloads, hvalid, hstored⟩ := loadHome_eq_ok crypto h.homeValid h.homeStored
  obtain ⟨host', hload', hsame, hdirty⟩ := loadGroups_eq_ok h.hostValid h.hostStored
  exact ⟨home', host', loadKeys_of_stored h.homeStored hload hload', hreloads, hsame, hdirty, hvalid,
    hstored, hsame.valid h.hostValid, h.hostStored.sameDurable hsame⟩

/-! ## Runs -/

theorem LoudEdit.keys {promises : Promises} {home home' : HomeServer}
    (h : LoudEdit crypto promises home home') :
    home'.hpke = home.hpke ∧ home'.sign = home.sign := by
  cases h with
  | store | remember | note => exact ⟨rfl, rfl⟩
  | quiet h => cases h <;> exact ⟨rfl, rfl⟩

theorem HomeOp.keys_apply (crypto : Crypto) (op : HomeOp) (home : HomeServer) :
    (op.apply crypto home).hpke = home.hpke ∧ (op.apply crypto home).sign = home.sign :=
  Chain.keeps (fun s ↦ s.hpke = home.hpke ∧ s.sign = home.sign)
    (fun _ _ hedit hs ↦ ⟨hedit.keys.1.trans hs.1, hedit.keys.2.trans hs.2⟩)
    (op.apply_edits crypto .none home (op.meets_none crypto home)) ⟨rfl, rfl⟩

theorem keys_loadKeys {db : Database} {hpke : HpkeKeypair} {sign : Key} {home : HomeServer}
    {host : GroupHost} (h : db.loadKeys crypto (some (hpke, sign)) = .ok (some (home, host))) :
    home.hpke = hpke ∧ home.sign = sign := by
  unfold Database.loadKeys at h
  split at h
  · cases h
  · dsimp only at h
    split at h
    · cases h
    · obtain ⟨keys, hkeys, h⟩ := bind_eq_ok.mp h
      cases hkeys
      obtain ⟨loaded, hload, h⟩ := bind_eq_ok.mp h
      obtain ⟨groups, -, h⟩ := bind_eq_ok.mp h
      cases h
      unfold Database.loadHome at hload
      obtain ⟨directory, -, hload⟩ := bind_eq_ok.mp hload
      obtain ⟨envelopes, -, hload⟩ := bind_eq_ok.mp hload
      obtain ⟨tokens, -, hload⟩ := bind_eq_ok.mp hload
      obtain ⟨peers, -, hload⟩ := bind_eq_ok.mp hload
      obtain ⟨outbound, -, hload⟩ := bind_eq_ok.mp hload
      cases hload
      exact ⟨rfl, rfl⟩

/-- No operation changes the keys of a server. -/
theorem NodeOp.keys_run (crypto : Crypto) (ops : List NodeOp) (node : Node) :
    (run (NodeOp.apply crypto) node ops).home.hpke = node.home.hpke ∧
      (run (NodeOp.apply crypto) node ops).home.sign = node.home.sign := by
  have hstep (n : Node) (op : NodeOp) :
      (op.apply crypto n).home.hpke = n.home.hpke ∧ (op.apply crypto n).home.sign = n.home.sign := by
    cases op with
    | home op => exact op.keys_apply crypto n.home
    | group op => exact ⟨rfl, rfl⟩
    | persist fault =>
      unfold NodeOp.apply Node.persist Server.persist
      split_ifs
      · exact ⟨rfl, rfl⟩
      · dsimp only
        split <;> exact ⟨rfl, rfl⟩
    | reload =>
      unfold NodeOp.apply Node.reload
      dsimp only
      split
      · rename_i hload
        obtain ⟨hhpke, hsign⟩ := keys_loadKeys hload
        exact ⟨hhpke, hsign⟩
      · exact ⟨rfl, rfl⟩
  induction ops generalizing node with
  | nil => exact ⟨rfl, rfl⟩
  | cons op ops ih =>
    obtain ⟨hhpke, hsign⟩ := ih (op.apply crypto node)
    exact ⟨hhpke.trans (hstep node op).1, hsign.trans (hstep node op).2⟩

/-- Operations keep memory, journals and database in step. -/
theorem Node.Recoverable.apply (op : NodeOp) (hop : op.Admissible node)
    (h : node.Recoverable) : (op.apply crypto node).Recoverable := by
  cases op with
  | home op =>
    obtain ⟨hvalid, hsynced⟩ := LoudEdits.synced (op.apply_edits crypto .all node.home
      (hop.meets crypto)) Promises.strict_all ⟨h.homeValid, h.homeSynced⟩
    refine ⟨⟨hvalid, hsynced, h.hostValid, h.hostSynced⟩, ?_⟩
    obtain ⟨hhpke, hsign⟩ := op.keys_apply crypto node.home
    refine h.checkpoint.imp_right fun ⟨home, host, hsaved, hkeys⟩ ↦ ⟨home, host, hsaved, ?_, ?_⟩
    · exact hkeys.1.trans hhpke.symm
    · exact hkeys.2.trans hsign.symm
  | group op =>
    obtain ⟨hvalid, hsynced⟩ := GroupEdits.synced (op.apply_edits crypto .admissible node.host
      hop.meets) ⟨h.hostValid, h.hostSynced⟩
    exact ⟨⟨h.homeValid, h.homeSynced, hvalid, hsynced⟩, h.checkpoint⟩
  | persist fault =>
    rcases Node.persist_cases h.toInStep fault with ⟨db, heq, hsaved⟩ | ⟨-, heq⟩
    · have hdrained := hsaved.drain {} {} node.home.history
      rw [NodeOp.apply, heq]
      exact ⟨hdrained.inStep rfl rfl, .inr ⟨_, _, hdrained, rfl, rfl⟩⟩
    · rw [NodeOp.apply, heq]
      exact ⟨⟨h.homeValid.drain _ node.home.history, h.homeSynced.absorb, h.hostValid.drain _,
        h.hostSynced.absorb⟩, h.checkpoint⟩
  | reload =>
    rw [NodeOp.apply, Node.reload]
    rcases h.checkpoint with hnone | ⟨home, host, hsaved, hhpke, hsign⟩
    · rw [Database.loadKeys, hnone]
      exact h
    · obtain ⟨home', host', hload, hreloads, -, hdirty, hsaved'⟩ := loadKeys_eq_ok crypto hsaved
      rw [← hhpke, ← hsign, hload]
      have hdrained := hsaved'.drain {} {} node.home.history
      have hhome : { home' with dirty := {}, history := node.home.history } =
          { home' with history := node.home.history } := by
        rw [← hreloads.dirty]
      have hhost : { host' with dirty := {} } = host' := by
        rw [← hdirty]
      rw [hhome, hhost] at hdrained
      exact ⟨hdrained.inStep hreloads.dirty hdirty, .inr ⟨_, _, hdrained, rfl, rfl⟩⟩

/-- Along every admissible run. -/
theorem Node.Recoverable.run {ops : List NodeOp}
    (hops : Allowed (NodeOp.apply crypto) NodeOp.Admissible node ops) (h : node.Recoverable) :
    (run (NodeOp.apply crypto) node ops).Recoverable :=
  run_invariant Node.Recoverable (fun _ op hop hs ↦ hs.apply op hop) hops h

/-- After every successful `persist` of an admissible run, `load_keys` rebuilds what memory holds; and
`persist` succeeds unless the connection fails. -/
theorem loadKeys_sameDurable_of_persist (crypto : Crypto) (hpke : HpkeKeypair) (sign : Key)
    (host : Text) (s2sPort : UInt16) (ops : List NodeOp)
    (hops : Allowed (NodeOp.apply crypto) NodeOp.Admissible
      (Node.first crypto hpke sign host s2sPort) ops) :
    let node := run (NodeOp.apply crypto) (Node.first crypto hpke sign host s2sPort) ops
    (node.persist false).1 = .ok () ∧
      ∀ fault node', node.persist fault = (.ok (), node') →
        ∃ home' host', node'.db.loadKeys crypto (some (node'.home.hpke, node'.home.sign)) =
            .ok (some (home', host')) ∧
          node'.home.SameDurable home' ∧ node'.host.SameDurable host' := by
  intro node
  have hnode : node.InStep :=
    (Node.Recoverable.run hops (Node.recoverable_first crypto hpke sign host s2sPort)).toInStep
  constructor
  · rcases node.persist_cases hnode false with ⟨db, heq, -⟩ | ⟨hfault, -⟩
    · rw [heq]
    · cases hfault
  · intro fault node' hpersist
    rcases node.persist_cases hnode fault with ⟨db, heq, hsaved⟩ | ⟨-, heq⟩
    · rw [heq] at hpersist
      cases hpersist
      obtain ⟨home', host', hload, hreloads, hsame, -⟩ :=
        loadKeys_eq_ok crypto (hsaved.drain {} {} node.home.history)
      exact ⟨home', host', hload, hreloads.toSameDurable, hsame⟩
    · rw [heq] at hpersist
      cases hpersist

/-- A mailbox is registered, a `persist` fails, a token is minted, and the next `persist` stores
both. -/
theorem loadKeys_sameDurable_of_two_persists :
    let crypto := Crypto.transparent
    let key : Key := .replicate 32 7
    let node := run (NodeOp.apply crypto)
      (Node.first crypto ⟨key, key⟩ key ⟨"local", by decide⟩ 8443)
      [.home (.register key key), .persist true, .home (.mintShareToken key none key)]
    (node.persist false).1 = .ok () ∧ ∃ home' host',
      (node.persist false).2.db.loadKeys crypto
          (some ((node.persist false).2.home.hpke, (node.persist false).2.home.sign)) =
        .ok (some (home', host')) ∧ (node.persist false).2.home.SameDurable home' := by
  intro crypto key node
  obtain ⟨hok, hload⟩ := loadKeys_sameDurable_of_persist crypto ⟨key, key⟩ key
    ⟨"local", by decide⟩ 8443 [.home (.register key key), .persist true,
      .home (.mintShareToken key none key)] ⟨trivial, trivial, List.not_mem_nil, trivial⟩
  obtain ⟨home', host', hload', hsame, -⟩ := hload false (node.persist false).2 (Prod.ext hok rfl)
  exact ⟨hok, home', host', hload', hsame⟩

end InStep

end NemoMessenger.Server
