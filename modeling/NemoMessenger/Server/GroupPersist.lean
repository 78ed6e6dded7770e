import NemoMessenger.Server.Node

/-!
# What persistence keeps of the groups

An invite that is found expired goes away in memory only, so the rows of `group_invites` may hold
more than memory does. They never hold more that has not expired: as long as the clock does not go
back, groups and files are rebuilt from the tables up to expired invites.
-/

namespace NemoMessenger.Server

open NemoMessenger.Data NemoMessenger.Wire

/-! ## Invites that have not expired -/

/-- The invites that have not expired at `now`. -/
def unexpiredAt (now : ℕ) (invites : Key → Option StoredInvite) (nonce : Key) :
    Option StoredInvite :=
  (invites nonce).filter fun stored ↦ now < stored.expiresAt

/-- What has not expired later has not expired before. -/
theorem unexpiredAt_unexpiredAt {now now' : ℕ} (hle : now ≤ now')
    (invites : Key → Option StoredInvite) :
    unexpiredAt now' (unexpiredAt now invites) = unexpiredAt now' invites := by
  funext nonce
  rw [unexpiredAt, unexpiredAt, unexpiredAt, Option.filter_filter]
  congr 1
  funext stored
  rw [Bool.and_eq_right_iff_imp, decide_eq_true_eq, decide_eq_true_eq]
  exact hle.trans_lt

theorem unexpiredAt_of_le {now now' : ℕ} (hle : now ≤ now')
    {invites invites' : Key → Option StoredInvite}
    (h : unexpiredAt now invites = unexpiredAt now invites') :
    unexpiredAt now' invites = unexpiredAt now' invites' := by
  calc
    unexpiredAt now' invites = unexpiredAt now' (unexpiredAt now invites) :=
      (unexpiredAt_unexpiredAt hle invites).symm
    _ = unexpiredAt now' (unexpiredAt now invites') := by rw [h]
    _ = unexpiredAt now' invites' := unexpiredAt_unexpiredAt hle invites'

theorem unexpiredAt_eq_some_iff {now : ℕ} (invites : Key → Option StoredInvite) {nonce : Key}
    {stored : StoredInvite} (hlive : now < stored.expiresAt) :
    unexpiredAt now invites nonce = some stored ↔ invites nonce = some stored := by
  rw [unexpiredAt, Option.filter_eq_some_iff]
  exact and_iff_left (decide_eq_true hlive)

/-- Invites that are kept but for expired ones. -/
theorem GroupPromises.KeepInvites.unexpiredAt_eq {promises : GroupPromises} {now : ℕ}
    {g g' : GroupState} (h : promises.KeepInvites now g g') :
    unexpiredAt now g'.invites.lookup = unexpiredAt now g.invites.lookup := by
  funext nonce
  rw [unexpiredAt, unexpiredAt]
  rcases h nonce with hsame | ⟨-, hnone, stored, hstored, hexpired⟩
  · rw [hsame]
  · rw [hnone, hstored, Option.filter_none, Option.filter_some, if_neg]
    rw [decide_eq_true_eq]
    exact Nat.not_lt.mpr hexpired

/-! ## Groups backed by their tables -/

/-- The row of `group_invites` under a nonce. -/
def Database.inviteRow (db : Database) (groupId : GroupId) (nonce : Key) : Option StoredInvite :=
  db.groupInvites.lookup (groupId, nonce)

/-- The journal replayed on the tables gives what the group host holds, up to expired invites. -/
structure GroupBacked (host : GroupHost) (db : Database) : Prop extends TablesSynced host db where
  valid : host.Valid
  invites : InStep host.dirty.invites
    (fun id ↦ unexpiredAt host.now (db.inviteRow id))
    fun id ↦ unexpiredAt host.now (host.memberRow GroupState.invites id)

section Edits

variable {promises : GroupPromises} {host host' : GroupHost} {db : Database}

theorem GroupEdit.now_le (h : GroupEdit promises host host') (hsteady : promises.steady) :
    host.now ≤ host'.now := by
  cases h with
  | clock now hle => exact hle hsteady
  | create | members | pushRow | putFile => exact le_rfl

theorem GroupEdit.invites_marked (h : GroupEdit promises host host') :
    host.dirty.invites ⊆ host'.dirty.invites := by
  cases h with
  | members groups groupId g g' creds invites pending _ _ _ _ _ _ hinvites =>
    exact hinvites.1
  | clock | create | pushRow | putFile => exact fun _ hmem ↦ hmem

/-- Off the marks an edit takes nothing from the invites but expired ones. -/
theorem GroupEdit.unexpiredAt_eq (h : GroupEdit promises host host') (hfresh : promises.fresh)
    {id : GroupId} (hid : id ∉ host'.dirty.invites) :
    unexpiredAt host'.now (host'.memberRow GroupState.invites id) =
      unexpiredAt host'.now (host.memberRow GroupState.invites id) := by
  cases h with
  | clock | putFile => rfl
  | create groupId g credentialId hnone _ hempty =>
    congr 1
    funext nonce
    dsimp only [GroupHost.memberRow]
    rw [FiniteMap.lookup_insert_ite]
    split_ifs with heq
    · rw [heq, hnone hfresh, Option.bind_some, hempty]
      rfl
    · rfl
  | members groups groupId g g' creds invites pending hold hnew hothers _ _ _ hinvites =>
    by_cases heq : id = groupId
    · subst heq
      have hrows (host' : GroupHost) (g' : GroupState) (hg' : host'.groups.lookup id = some g') :
          host'.memberRow GroupState.invites id = g'.invites.lookup := by
        funext nonce
        rw [GroupHost.memberRow, hg', Option.bind_some]
      rw [hrows host g hold, hrows _ g' hnew]
      exact (hinvites.2 hid).unexpiredAt_eq
    · congr 1
      funext nonce
      dsimp only [GroupHost.memberRow]
      rw [hothers id heq]
  | pushRow groupId g type body hold =>
    congr 1
    funext nonce
    dsimp only [GroupHost.memberRow, GroupHost.pushRow]
    rw [FiniteMap.lookup_insert_ite]
    split_ifs with heq
    · rw [heq, hold]
      rfl
    · rfl

theorem GroupBacked.edit (h : GroupBacked host db) (hedit : GroupEdit .steadily host host') :
    GroupBacked host' db where
  toTablesSynced := hedit.tablesSynced trivial h.toTablesSynced
  valid := hedit.valid trivial h.valid
  invites id hid :=
    calc
      unexpiredAt host'.now (db.inviteRow id) =
          unexpiredAt host'.now (host.memberRow GroupState.invites id) :=
        unexpiredAt_of_le (hedit.now_le trivial)
          (h.invites id fun hmem ↦ hid (hedit.invites_marked hmem))
      _ = unexpiredAt host'.now (host'.memberRow GroupState.invites id) :=
        (hedit.unexpiredAt_eq trivial hid).symm

theorem GroupBacked.apply (crypto : Crypto) (h : GroupBacked host db) (op : GroupOp)
    (hop : op.Steady host) : GroupBacked (op.apply crypto host) db :=
  Chain.keeps (fun s ↦ GroupBacked s db) (fun _ _ hedit hs ↦ hs.edit hedit)
    (op.apply_edits crypto .steadily host hop.meets) h

end Edits

/-! ## Stored groups -/

/-- The tables hold what the group host holds, up to expired invites. -/
structure GroupKept (host : GroupHost) (db : Database) : Prop extends TablesStored host db where
  valid : host.Valid
  invites : ∀ id, unexpiredAt host.now (db.inviteRow id) =
    unexpiredAt host.now (host.memberRow GroupState.invites id)

/-- Two states of a group agree on everything durable but expired invites. -/
structure GroupState.SameUnexpired (now : ℕ) (g g' : GroupState) : Prop where
  nextSeq : g'.nextSeq = g.nextSeq
  bytes : g'.bytes = g.bytes
  creator : g'.creator = g.creator
  creds : ∀ key, g'.creds.lookup key = g.creds.lookup key
  stream : g'.stream = g.stream
  invites : ∀ nonce stored, now < stored.expiresAt →
    (g'.invites.lookup nonce = some stored ↔ g.invites.lookup nonce = some stored)
  pending : ∀ key, g'.pending.lookup key = g.pending.lookup key

/-- Two group hosts agree on everything durable but the expired invites of their groups. -/
structure GroupHost.SameUnexpired (host host' : GroupHost) : Prop where
  groups : ∀ id, Option.Rel (GroupState.SameUnexpired host.now) (host.groups.lookup id)
    (host'.groups.lookup id)
  files : ∀ token, host'.files.lookup token = host.files.lookup token

section Stored

variable {host : GroupHost} {db : Database}

theorem GroupBacked.kept (h : GroupBacked host db) (hclean : host.dirty = {}) :
    GroupKept host db where
  toTablesStored := h.toTablesSynced.stored hclean
  valid := h.valid
  invites id := h.invites id (by simp [hclean])

theorem GroupKept.backed (h : GroupKept host db) (hclean : host.dirty = {}) :
    GroupBacked host db where
  toTablesSynced := h.toTablesStored.synced hclean h.valid
  valid := h.valid
  invites id _ := h.invites id

theorem GroupKept.drain (h : GroupKept host db) (dirty : GroupDirty) :
    GroupKept { host with dirty } db :=
  ⟨h.toTablesStored.drain dirty, h.valid.drain dirty, h.invites⟩

theorem GroupBacked.absorb (h : GroupBacked host db) :
    GroupBacked { host with dirty := GroupDirty.absorb {} host.dirty } db :=
  ⟨h.toTablesSynced.absorb, h.valid.drain _, h.invites⟩

/-- `load_keys` rebuilds the groups that are kept. -/
theorem GroupKept.loadGroups (h : GroupKept host db) :
    ∃ loaded, db.loadGroups = .ok loaded ∧ host.SameUnexpired loaded := by
  obtain ⟨loaded, hload, -, hfiles, hgroups⟩ := loadTables_eq_ok h.valid h.toTablesStored
  refine ⟨loaded, hload, ⟨fun id ↦ ?_, hfiles⟩⟩
  have hgroup := hgroups id
  have hinvites := h.invites id
  generalize hold : host.groups.lookup id = old at hgroup ⊢
  generalize loaded.groups.lookup id = new at hgroup ⊢
  cases hgroup with
  | none => exact .none
  | @some g g' hread =>
    refine .some ⟨hread.nextSeq, hread.bytes, hread.creator, hread.creds, hread.stream, ?_,
      hread.pending⟩
    intro nonce stored hlive
    have hrow := congrFun hinvites nonce
    calc
      g'.invites.lookup nonce = some stored ↔ db.inviteRow id nonce = some stored := by
        rw [hread.invites, Database.inviteRow]
      _ ↔ unexpiredAt host.now (db.inviteRow id) nonce = some stored :=
        (unexpiredAt_eq_some_iff _ hlive).symm
      _ ↔ unexpiredAt host.now (host.memberRow GroupState.invites id) nonce = some stored := by
        rw [hrow]
      _ ↔ host.memberRow GroupState.invites id nonce = some stored :=
        unexpiredAt_eq_some_iff _ hlive
      _ ↔ g.invites.lookup nonce = some stored := by
        rw [GroupHost.memberRow, hold, Option.bind_some]

end Stored

/-! ## Runs -/

/-- The steps of a run of group operations: the clock does not go back, new groups have fresh
numbers, and the home server behaves. -/
def NodeOp.Steady (node : Node) : NodeOp → Prop
  | home op => op.Admissible node.home
  | group op => op.Steady node.host
  | persist _ => True
  | reload => False

/-- Home server and groups are in step with the database, the groups up to expired invites. -/
structure Node.Backed (node : Node) : Prop where
  homeValid : node.home.Valid
  homeSynced : Synced node.home node.db
  groups : GroupBacked node.host node.db

section Runs

variable {crypto : Crypto} {node : Node}

theorem Node.InStep.backed (h : node.InStep) : node.Backed where
  homeValid := h.homeValid
  homeSynced := h.homeSynced
  groups :=
    { toTablesSynced := h.hostSynced.toTablesSynced
      valid := h.hostValid
      invites := fun id hid ↦ by
        exact congrArg (unexpiredAt node.host.now) (h.hostSynced.invites id hid) }

/-- `persist` stores home server and groups, or the connection failed. -/
theorem Node.Backed.persist_cases (h : node.Backed) (fault : Bool) :
    (∃ db, node.persist fault = (.ok (),
        ⟨{ node.home with dirty := {} }, { node.host with dirty := {} }, db⟩) ∧
      Stored node.home db ∧ GroupKept node.host db) ∨
    fault = true ∧ node.persist fault = (.error .sqlx,
      ⟨{ node.home with dirty := HomeDirty.absorb {} node.home.dirty },
        { node.host with dirty := GroupDirty.absorb {} node.host.dirty }, node.db⟩) := by
  apply node.persist_of_inner
  · exact fun hhome hhost ↦ ⟨h.homeSynced.stored hhome, h.groups.kept hhost⟩
  · obtain ⟨db, hdb, hstored, htables, hinvites⟩ :=
      persistInner_tables h.homeValid h.homeSynced h.groups.valid h.groups.toTablesSynced
    refine ⟨db, hdb, hstored, htables, h.groups.valid, fun id ↦ ?_⟩
    have hrows (nonce : Key) := hinvites id nonce
    by_cases hid : id ∈ node.host.dirty.invites
    · congr 1
      funext nonce
      exact (hrows nonce).trans (if_pos hid)
    · have hsame : db.inviteRow id = node.db.inviteRow id := by
        funext nonce
        exact (hrows nonce).trans (if_neg hid)
      rw [hsame]
      exact h.groups.invites id hid

/-- Operations of the groups, `persist` and an admissible home server keep the groups backed. -/
theorem Node.Backed.apply (h : node.Backed) (op : NodeOp) (hop : op.Steady node) :
    (op.apply crypto node).Backed := by
  cases op with
  | home op =>
    obtain ⟨hvalid, hsynced⟩ := LoudEdits.synced (op.apply_edits crypto .all node.home
      (hop.meets crypto)) Promises.strict_all ⟨h.homeValid, h.homeSynced⟩
    exact ⟨hvalid, hsynced, h.groups⟩
  | group op => exact ⟨h.homeValid, h.homeSynced, h.groups.apply crypto op hop⟩
  | persist fault =>
    rw [NodeOp.apply]
    rcases h.persist_cases fault with ⟨db, heq, hstored, hkept⟩ | ⟨-, heq⟩
    · have hvalid := h.homeValid.drain {} node.home.history
      rw [heq]
      exact ⟨hvalid, (hstored.drain {} node.home.history).synced rfl hvalid,
        (hkept.drain {}).backed rfl⟩
    · rw [heq]
      exact ⟨h.homeValid.drain _ node.home.history, h.homeSynced.absorb, h.groups.absorb⟩
  | reload => exact hop.elim

/-- After every successful `persist` of a run of group operations, `load_keys` rebuilds groups and
files, up to invites that have expired; and `persist` succeeds unless the connection fails. -/
theorem loadKeys_sameUnexpired_of_persist (crypto : Crypto) (hpke : HpkeKeypair) (sign : Key)
    (host : Text) (s2sPort : UInt16) (ops : List NodeOp)
    (hops : Allowed (NodeOp.apply crypto) NodeOp.Steady
      (Node.first crypto hpke sign host s2sPort) ops) :
    let node := run (NodeOp.apply crypto) (Node.first crypto hpke sign host s2sPort) ops
    (node.persist false).1 = .ok () ∧
      ∀ fault node', node.persist fault = (.ok (), node') →
        ∃ home' host', node'.db.loadKeys crypto (some (node'.home.hpke, node'.home.sign)) =
            .ok (some (home', host')) ∧ node'.host.SameUnexpired host' := by
  intro node
  have hnode : node.Backed := run_invariant Node.Backed (fun _ op hop hs ↦ hs.apply op hop) hops
    (Node.inStep_first crypto hpke sign host s2sPort).backed
  constructor
  · rcases hnode.persist_cases false with ⟨db, heq, -⟩ | ⟨hfault, -⟩
    · rw [heq]
    · cases hfault
  · intro fault node' hpersist
    rcases hnode.persist_cases fault with ⟨db, heq, hstored, hkept⟩ | ⟨-, heq⟩
    · rw [heq] at hpersist
      cases hpersist
      have hstored' := hstored.drain {} node.home.history
      obtain ⟨host', hgroups, hsame⟩ := (hkept.drain {}).loadGroups
      obtain ⟨home', hhome, -⟩ :=
        loadHome_eq_ok crypto (hnode.homeValid.drain {} node.home.history) hstored'
      exact ⟨home', host', loadKeys_of_stored hstored' hhome hgroups, hsame⟩
    · rw [heq] at hpersist
      cases hpersist

/-- The clock is set, a group is made, a `persist` fails, and the next one stores the group. -/
theorem loadKeys_sameUnexpired_of_two_persists :
    let crypto := Crypto.transparent
    let key : Key := .replicate 32 7
    let node := run (NodeOp.apply crypto)
      (Node.first crypto ⟨key, key⟩ key ⟨"local", by decide⟩ 8443)
      [.group (.setNow 1700000005), .group (.createGroupFor key ⟨key, key⟩ none ⟨key⟩ ⟨key, key⟩),
        .persist true]
    (node.persist false).1 = .ok () ∧ ∃ home' host',
      (node.persist false).2.db.loadKeys crypto
          (some ((node.persist false).2.home.hpke, (node.persist false).2.home.sign)) =
        .ok (some (home', host')) ∧ (node.persist false).2.host.SameUnexpired host' := by
  intro crypto key node
  have hclock : GroupOp.Steady .new (.setNow 1700000005) := by
    show 1700000000 ≤ UInt64.toNat 1700000005
    decide
  obtain ⟨hok, hload⟩ := loadKeys_sameUnexpired_of_persist crypto ⟨key, key⟩ key
    ⟨"local", by decide⟩ 8443 [.group (.setNow 1700000005),
      .group (.createGroupFor key ⟨key, key⟩ none ⟨key⟩ ⟨key, key⟩), .persist true]
    ⟨hclock, rfl, trivial, trivial⟩
  exact ⟨hok, hload false (node.persist false).2 (Prod.ext hok rfl)⟩

end Runs

end NemoMessenger.Server
