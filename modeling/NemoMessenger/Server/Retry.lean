import NemoMessenger.Server.Node

/-!
# Persisting again after a lost reply

A transaction can be committed although `persist` reports an error. The journals then merge back and
the next `persist` replays them on a database that has them already. Upserts and rewrites do not
mind; a plain insertion meets its own row, and from then on nothing is persisted.
-/

namespace NemoMessenger.Server

open NemoMessenger.Data NemoMessenger.Wire

/-- `persist` whose transaction is committed while the reply to the commit is lost: the caller sees
an error and the journals are merged back. -/
def persistLost (home : HomeServer) (host : GroupHost) (db : Database) :
    Except PersistError Unit × HomeServer × GroupHost × Database :=
  if home.dirty.isClean && host.dirty.isClean then (.ok (), home, host, db)
  else
    let drained := { home with dirty := {} }
    let drainedHost := { host with dirty := {} }
    let absorbed := { drained with dirty := drained.dirty.absorb home.dirty }
    let absorbedHost := { drainedHost with dirty := drainedHost.dirty.absorb host.dirty }
    match Database.persistInner drained drainedHost home.dirty host.dirty db with
    | .error e => (.error e, absorbed, absorbedHost, db)
    | .ok db => (.error .sqlx, absorbed, absorbedHost, db)

/-- The node after `persistLost`. -/
def Node.persistLost (node : Node) : Except PersistError Unit × Node :=
  match Server.persistLost node.home node.host node.db with
  | (result, home, host, db) => (result, { home, host, db })

/-- Whatever is done next, the next `persist` succeeds and stores what memory holds. -/
def Node.CanPersist (crypto : Crypto) (node : Node) : Prop :=
  ∀ ops, Allowed (NodeOp.apply crypto) NodeOp.Admissible node ops →
    let node' := run (NodeOp.apply crypto) node ops
    ∃ db, node'.persist false = (.ok (),
        ⟨{ node'.home with dirty := {} }, { node'.host with dirty := {} }, db⟩) ∧
      Stored node'.home db ∧ GroupStored node'.host db

/-- The journals insert no row but those they delete first. -/
structure Node.Replayable (node : Node) : Prop where
  mailboxRows : ∀ key ∈ node.home.dirty.mailboxNew, (node.home.memoryRow key).isSome →
    ¬ node.home.dirty.SparesRow key
  hpkeSeen : node.home.dirty.seenEncCleared = false → node.home.dirty.seenEncNew = []
  groupStream : ∀ key ∈ node.host.dirty.streamNew, node.host.streamRow key = none

/-! ## Journals on tables that have them already -/

section Replay

variable {home : HomeServer} {host : GroupHost} {db db' : Database}

theorem TokenTable.replay {s : TokenState} {tokens : Tokens} {marked : List Key}
    {old new : FiniteMap Key TokenRow} (h : TokenTable tokens marked (s.spared old))
    (hfits : ∀ token row, new.lookup token = some row →
      ∃ kind, tokens.find token = some kind ∧ row.Fits kind)
    (hloads : ∀ token, (new.lookup token).map loadToken = (tokens.find token).map Except.ok) :
    TokenTable tokens marked (s.spared new) where
  fits token row hrow := hfits token row (Option.filter_eq_some_iff.mp hrow).1
  loads token htoken := by
    have hspared : s.spared new token = new.lookup token := by
      rw [TokenState.spared]
      cases hrow : new.lookup token with
      | none => rfl
      | some row =>
        obtain ⟨kind, hkind, -, hmailbox⟩ := hfits token row hrow
        have hold := h.loads token htoken
        rw [hkind, Option.map_some] at hold
        obtain ⟨oldRow, holdRow, hload⟩ := Option.map_eq_some_iff.mp hold
        rw [Option.filter_some, if_pos]
        rw [hmailbox, ← (fits_of_loadToken hload).2]
        exact (Option.filter_eq_some_iff.mp holdRow).2
    rw [hspared]
    exact hloads token

/-- The journal of the home server can be replayed on the tables it was stored in. -/
theorem Synced.replay (h : Synced home db) (hvalid : home.Valid) (hstored : Stored home db')
    (hrows : ∀ key ∈ home.dirty.mailboxNew, (home.memoryRow key).isSome →
      ¬ home.dirty.SparesRow key)
    (hseen : home.dirty.seenEncCleared = false → home.dirty.seenEncNew = []) : Synced home db' where
  serverIdentity _ := hstored.serverIdentity
  identities id _ := hstored.identities id
  mailboxRows :=
    { newNodup := h.mailboxRows.newNodup
      newAbsent := by
        intro key hkey hspared
        rw [hstored.mailboxRows, Option.map_eq_none_iff, ← Option.not_isSome_iff_eq_none]
        exact fun hrow ↦ hrows key hkey hrow hspared
      newBelow := h.mailboxRows.newBelow
      storedBelow := fun _ hkey ↦ hstored.row_below hvalid hkey
      marks := h.mailboxRows.marks
      gone := h.mailboxRows.gone
      kept := fun key _ _ ↦ hstored.mailboxRows key }
  tokens := h.tokens.replay
    (fun token row hrow ↦ by
      obtain ⟨kind, hkind, -, hfits⟩ := hstored.token_fits hrow
      exact ⟨kind, hkind, hfits⟩)
    hstored.tokens
  prekeys o _ := hstored.prekeys o
  memberships o _ := hstored.memberships o
  peers p _ := hstored.peers p
  peersKnown p hp := by
    rw [hstored.peers, Option.isSome_map] at hp
    exact hp
  outbound _ := hstored.outbound
  hpkeSeen hcleared := by
    rw [hseen hcleared]
    exact ⟨List.nodup_nil, fun _ hmem ↦ (by cases hmem), fun _ hmem ↦ (by cases hmem),
      fun enc _ ↦ hstored.hpkeSeen enc⟩

/-- The journal of the groups can be replayed on the tables it was stored in. -/
theorem GroupSynced.replay (h : GroupSynced host db) (hvalid : host.Valid)
    (hstored : GroupStored host db')
    (hstream : ∀ key ∈ host.dirty.streamNew, host.streamRow key = none) : GroupSynced host db' where
  groups id _ := hstored.groups id
  groupsKnown _ hid := hstored.group_known hid
  creds key _ := hstored.creds key
  credsKnown _ hkey := hstored.cred_known hkey
  pending id _ := funext fun key ↦ hstored.pending id key
  stream :=
    { newNodup := h.stream.newNodup
      newAbsent := by
        intro key hkey
        rw [hstored.stream, hstream key hkey]
        rfl
      newBelow := h.stream.newBelow
      storedBelow := fun _ hkey ↦ hstored.stream_below hvalid hkey
      kept := fun key _ ↦ hstored.stream key }
  files token _ := hstored.files token
  filesKnown _ htoken := hstored.file_known htoken
  invites id _ := funext fun key ↦ hstored.invites id key

end Replay

/-! ## After a lost reply -/

section Lost

variable {crypto : Crypto} {node : Node}

/-- Nothing was to be persisted, or the database holds what memory does and the journals are
back. -/
theorem Node.persistLost_cases (h : node.InStep) :
    (node.home.dirty = {} ∧ node.host.dirty = {} ∧ node.persistLost = (.ok (), node)) ∨
    ∃ db, Saved node.home node.host db ∧ node.persistLost = (.error .sqlx,
      ⟨{ node.home with dirty := HomeDirty.absorb {} node.home.dirty },
        { node.host with dirty := GroupDirty.absorb {} node.host.dirty }, db⟩) := by
  unfold Node.persistLost Server.persistLost
  by_cases hclean : (node.home.dirty.isClean && node.host.dirty.isClean) = true
  · left
    obtain ⟨hhome, hhost⟩ := Bool.and_eq_true_iff.mp hclean
    rw [if_pos hclean]
    exact ⟨HomeDirty.isClean_iff.mp hhome, GroupDirty.isClean_iff.mp hhost, rfl⟩
  · right
    obtain ⟨db, hdb, hsaved⟩ := persistInner_eq_ok h
    have hdb' : Database.persistInner { node.home with dirty := {} }
        { node.host with dirty := {} } node.home.dirty node.host.dirty node.db = .ok db := hdb
    rw [if_neg hclean]
    dsimp only
    rw [hdb']
    exact ⟨db, hsaved, rfl⟩

theorem Node.replayable_of_nil (hmailboxNew : node.home.dirty.mailboxNew = [])
    (hseenNew : node.home.dirty.seenEncNew = []) (hstreamNew : node.host.dirty.streamNew = []) :
    node.Replayable where
  mailboxRows := by simp [hmailboxNew]
  hpkeSeen _ := hseenNew
  groupStream := by simp [hstreamNew]

/-- Replayable journals leave the node recoverable. -/
theorem Node.Recoverable.persistLost (h : node.Recoverable) (hreplay : node.Replayable) :
    node.persistLost.2.Recoverable := by
  rcases node.persistLost_cases h.toInStep with ⟨-, -, heq⟩ | ⟨db, hsaved, heq⟩
  · rw [heq]
    exact h
  · have hhome : Synced node.home db :=
      h.homeSynced.replay h.homeValid hsaved.homeStored hreplay.mailboxRows hreplay.hpkeSeen
    have hhost : GroupSynced node.host db :=
      h.hostSynced.replay h.hostValid hsaved.hostStored hreplay.groupStream
    rw [heq]
    exact ⟨⟨h.homeValid.drain _ node.home.history, hhome.absorb, h.hostValid.drain _, hhost.absorb⟩,
      .inr ⟨node.home, node.host, hsaved, rfl, rfl⟩⟩

theorem Node.Recoverable.canPersist (h : node.Recoverable) : node.CanPersist crypto := by
  intro ops hops node'
  have hlater : node'.InStep := (Node.Recoverable.run hops h).toInStep
  rcases node'.persist_cases hlater false with ⟨db, heq, hsaved⟩ | ⟨hfault, -⟩
  · exact ⟨db, heq, hsaved.homeStored, hsaved.hostStored⟩
  · cases hfault

/-- `persist` succeeds with nothing to do or with a transaction that goes through. -/
theorem Node.persist_eq_ok {fault : Bool} {node' : Node}
    (h : node.persist fault = (.ok (), node')) :
    (node.home.dirty = {} ∧ node.host.dirty = {}) ∨
      ∃ db, Database.persistInner node.home node.host node.home.dirty node.host.dirty node.db =
        .ok db := by
  unfold Node.persist Server.persist at h
  by_cases hclean : (node.home.dirty.isClean && node.host.dirty.isClean) = true
  · obtain ⟨hhome, hhost⟩ := Bool.and_eq_true_iff.mp hclean
    exact .inl ⟨HomeDirty.isClean_iff.mp hhome, GroupDirty.isClean_iff.mp hhost⟩
  · right
    rw [if_neg hclean] at h
    dsimp only at h
    cases fault with
    | true => cases h
    | false =>
      rw [if_neg (by decide)] at h
      cases hinner : Database.persistInner { node.home with dirty := {} }
          { node.host with dirty := {} } node.home.dirty node.host.dirty node.db with
      | error e =>
        rw [hinner] at h
        cases h
      | ok db => exact ⟨db, hinner⟩

/-- A transaction that goes through has made its insertions. -/
theorem insertions_of_persistInner {home : HomeServer} {host : GroupHost} {hd : HomeDirty}
    {gd : GroupDirty} {db db' : Database}
    (h : Database.persistInner home host hd gd db = .ok db') :
    (∃ identities rows, Database.insertMailboxRows identities home hd.mailboxNew
      (sparedRows hd db.mailboxRows) = .ok rows) ∧
    (∃ rows, Database.writeSeen home hd db.hpkeSeen = .ok rows) ∧
    ∃ groups rows, Database.insertStreamNew groups host gd.streamNew db.groupStream = .ok rows := by
  obtain ⟨mid, hhome, hhost⟩ := bind_eq_ok.mp h
  unfold Database.persistHome at hhome
  obtain ⟨mailboxRows, hmailboxRows, hhome⟩ := bind_eq_ok.mp hhome
  obtain ⟨tokens, -, hhome⟩ := bind_eq_ok.mp hhome
  obtain ⟨prekeys, -, hhome⟩ := bind_eq_ok.mp hhome
  obtain ⟨memberships, -, hhome⟩ := bind_eq_ok.mp hhome
  obtain ⟨hpkeSeen, hseen, hhome⟩ := bind_eq_ok.mp hhome
  cases hhome
  unfold Database.persistGroups at hhost
  obtain ⟨creds, -, hhost⟩ := bind_eq_ok.mp hhost
  obtain ⟨invites, -, hhost⟩ := bind_eq_ok.mp hhost
  obtain ⟨pending, -, hhost⟩ := bind_eq_ok.mp hhost
  obtain ⟨stream, hstream, -⟩ := bind_eq_ok.mp hhost
  exact ⟨⟨_, mailboxRows, hmailboxRows⟩, ⟨hpkeSeen, hseen⟩, _, stream, hstream⟩

/-- Journals that go through on a database that has them already are replayable. -/
theorem Node.replayable_of_persistInner (h : node.InStep) {db db' : Database}
    (hsaved : Saved node.home node.host db)
    (hinner : Database.persistInner node.home node.host (HomeDirty.absorb {} node.home.dirty)
      (GroupDirty.absorb {} node.host.dirty) db = .ok db') : node.Replayable := by
  obtain ⟨⟨identities, rows, hrows⟩, ⟨seen, hseen⟩, groups, stream, hstream⟩ :=
    insertions_of_persistInner hinner
  refine ⟨fun key hkey hsome hspared ↦ ?_, fun hcleared ↦ ?_, fun key hkey ↦ ?_⟩
  · obtain ⟨row, hrow⟩ := Option.isSome_iff_exists.mp hsome
    have hvalid := h.homeValid
    rw [Database.insertMailboxRows, newMailboxRows_eq hvalid.logInv hvalid.encodes] at hrows
    have hentry : (key, mailboxRowOf row) ∈ node.home.dirty.mailboxNew.filterMap fun key ↦
        (node.home.memoryRow key).map fun row ↦ (key, mailboxRowOf row) :=
      List.mem_filterMap.mpr ⟨key, hkey, by rw [hrow]; rfl⟩
    have habsent := FiniteMap.lookup_eq_none_of_insertAll hrows hentry
    have hmarks (o : IdentityId) (mark : ℕ)
        (hmark : (HomeDirty.absorb {} node.home.dirty).mailboxAcked.lookup o = some mark) :
        mark < 2 ^ 63 := by
      rw [lookup_absorb_mailboxAcked] at hmark
      exact h.homeSynced.mailboxRows.marks o mark hmark
    rw [(lookup_sparedRows hmarks db.mailboxRows key).1 (by rwa [HomeDirty.sparesRow_absorb]),
      hsaved.homeStored.mailboxRows, hrow] at habsent
    cases habsent
  · have hmerged : (HomeDirty.absorb {} node.home.dirty).seenEncCleared = false := hcleared
    rw [Database.writeSeen, hmerged] at hseen
    have htable := h.homeSynced.hpkeSeen hcleared
    by_contra hnew
    obtain ⟨enc, henc⟩ := List.exists_mem_of_ne_nil _ hnew
    obtain ⟨seq, hseq⟩ := Option.isSome_iff_exists.mp (htable.newLive enc henc)
    have hentry : (enc, seq) ∈ (HomeDirty.absorb {} node.home.dirty).seenEncNew.filterMap
        fun enc ↦ (node.home.seenEnc.lookup enc).map fun seq ↦ (enc, seq) :=
      List.mem_filterMap.mpr ⟨enc, henc, by rw [hseq]; rfl⟩
    have habsent := FiniteMap.lookup_eq_none_of_insertAll hseen hentry
    rw [hsaved.homeStored.hpkeSeen, hseq] at habsent
    cases habsent
  · by_contra hsome
    obtain ⟨row, hrow⟩ := Option.ne_none_iff_exists'.mp hsome
    obtain ⟨g, hg, hfind⟩ := Option.bind_eq_some_iff.mp hrow
    have hseq : (key.1, row.seq) = key := Prod.ext rfl (by simpa using List.find?_some hfind)
    have hentry : ((key.1, row.seq), streamRecord row) ∈
        (GroupDirty.absorb {} node.host.dirty).streamNew.filterMap fun key ↦
          ((node.host.groups.lookup key.1).bind fun g ↦
            g.stream.find? fun row ↦ row.seq = key.2).map
              fun row ↦ ((key.1, row.seq), streamRecord row) :=
      List.mem_filterMap.mpr ⟨key, hkey, by rw [hg, Option.bind_some, hfind]; rfl⟩
    have habsent := FiniteMap.lookup_eq_none_of_insertAll hstream hentry
    rw [hseq, hsaved.hostStored.stream, hrow] at habsent
    cases habsent

theorem Node.not_canPersist (h : (node.persist false).1.toOption.isNone = true) :
    ¬ node.CanPersist crypto := by
  intro hcan
  obtain ⟨db, hok, -⟩ := hcan [] trivial
  have hfirst : (node.persist false).1 = .ok () := congrArg Prod.fst hok
  rw [hfirst] at h
  cases h

/-- After a commit whose reply is lost, persistence goes on, whatever is done in between, exactly
when the journals can be replayed. -/
theorem Node.Recoverable.canPersist_iff (h : node.Recoverable) :
    node.persistLost.2.CanPersist crypto ↔ node.Replayable := by
  constructor
  · intro hcan
    rcases node.persistLost_cases h.toInStep with ⟨hhome, hhost, -⟩ | ⟨db, hsaved, heq⟩
    · exact node.replayable_of_nil (by rw [hhome]) (by rw [hhome]) (by rw [hhost])
    · obtain ⟨db', hok, -⟩ := hcan [] trivial
      rw [heq] at hok
      rcases Node.persist_eq_ok hok with ⟨hhome, hhost⟩ | ⟨db'', hinner⟩
      · have hmailboxNew : node.home.dirty.mailboxNew = [] := congrArg HomeDirty.mailboxNew hhome
        have hseenNew : node.home.dirty.seenEncNew = [] := congrArg HomeDirty.seenEncNew hhome
        have hstreamNew : node.host.dirty.streamNew = [] := congrArg GroupDirty.streamNew hhost
        exact node.replayable_of_nil hmailboxNew hseenNew hstreamNew
      · exact node.replayable_of_persistInner h.toInStep hsaved hinner
  · intro hreplay
    exact (h.persistLost hreplay).canPersist

end Lost

/-! ## Runs -/

/-- In every state that an admissible run reaches: persistence survives a commit whose reply is lost
exactly when the journals of that state can be replayed. -/
theorem canPersist_after_lost_reply_iff (crypto : Crypto) (hpke : HpkeKeypair) (sign : Key)
    (host : Text) (s2sPort : UInt16) (ops : List NodeOp)
    (hops : Allowed (NodeOp.apply crypto) NodeOp.Admissible
      (Node.first crypto hpke sign host s2sPort) ops) :
    let node := run (NodeOp.apply crypto) (Node.first crypto hpke sign host s2sPort) ops
    node.persistLost.2.CanPersist crypto ↔ node.Replayable :=
  (Node.Recoverable.run hops (Node.recoverable_first crypto hpke sign host s2sPort)).canPersist_iff

/-- A new mailbox without rows can be persisted again. -/
theorem canPersist_after_register :
    let key : Key := .replicate 32 7
    let node := run (NodeOp.apply .transparent)
      (Node.first .transparent ⟨key, key⟩ key ⟨"local", by decide⟩ 8443)
      [.home (.register key key)]
    node.persistLost.2.CanPersist .transparent := by
  intro key node
  have hiff := canPersist_after_lost_reply_iff .transparent ⟨key, key⟩ key ⟨"local", by decide⟩ 8443
    [.home (.register key key)] ⟨trivial, trivial⟩
  exact hiff.mpr (Node.replayable_of_nil rfl rfl rfl)

set_option maxRecDepth 100000 in
/-- A row in a mailbox is inserted once more: the commit was lost, and the next `persist` fails. -/
theorem persist_fails_after_lost_reply :
    let key : Key := .replicate 32 7
    let node := run (NodeOp.apply .transparent)
      (Node.first .transparent ⟨key, key⟩ key ⟨"local", by decide⟩ 8443)
      [.home (.register key key), .home (.mintContactCapability key key),
        .home (.appendInner (.blank key key))]
    (∃ e, node.persistLost = (.error e, node.persistLost.2)) ∧
      ¬ node.persistLost.2.CanPersist .transparent := by
  intro key node
  have hlost : node.persistLost.1.toOption.isNone = true := by decide +kernel
  have hnext : (node.persistLost.2.persist false).1.toOption.isNone = true := by decide +kernel
  exact ⟨exists_error_of_isNone hlost, Node.not_canPersist hnext⟩

end NemoMessenger.Server
