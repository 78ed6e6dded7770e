import NemoMessenger.Server.Database
import NemoMessenger.Server.GroupOperation

/-!
# The group host and the database in step

`GroupSynced` relates a group host to the tables of its groups, as `Synced` does for the home server.
Strict edits keep it, the group half of `persist_inner` succeeds from it, and `load_keys` reads the
same groups back.
-/

namespace NemoMessenger.Server

open NemoMessenger.Data NemoMessenger.Wire

/-! ## Views of memory -/

/-- A row of one of the tables a group keeps in memory. -/
def GroupHost.memberRow {V : Type} (rowsOf : GroupState → FiniteMap Key V) (host : GroupHost)
    (groupId : GroupId) (key : Key) : Option V :=
  (host.groups.lookup groupId).bind fun g ↦ (rowsOf g).lookup key

/-- The row of memory under a key of `group_stream`. -/
def GroupHost.streamRow (host : GroupHost) (key : GroupId × ℕ) : Option StreamRow :=
  (host.groups.lookup key.1).bind fun g ↦ g.stream.find? fun row ↦ row.seq = key.2

/-- What a group host in memory satisfies: streams are in the order of their numbers, and files
belong to groups. -/
structure GroupHost.Valid (host : GroupHost) : Prop where
  sorted : ∀ id g, host.groups.lookup id = some g → (g.stream.map StreamRow.seq).Pairwise (· < ·)
  below : ∀ id g, host.groups.lookup id = some g → ∀ row ∈ g.stream, row.seq < g.nextSeq
  fileGroup : ∀ token slot, host.files.lookup token = some slot →
    (host.groups.lookup slot.groupId).isSome

/-- The condition on `group_stream`, to which rows are only ever added. -/
structure StreamSynced (host : GroupHost) (rows : FiniteMap (GroupId × ℕ) StreamRecord) :
    Prop where
  newNodup : host.dirty.streamNew.Nodup
  newAbsent : ∀ key ∈ host.dirty.streamNew, rows.lookup key = none
  newBelow : ∀ key ∈ host.dirty.streamNew,
    ∃ g, host.groups.lookup key.1 = some g ∧ key.2 < g.nextSeq
  storedBelow : ∀ key, (rows.lookup key).isSome →
    ∃ g, host.groups.lookup key.1 = some g ∧ key.2 < g.nextSeq
  kept : ∀ key ∉ host.dirty.streamNew,
    rows.lookup key = (host.streamRow key).map streamRecord

/-- The journal replayed on the tables other than `group_invites` gives what the group host holds. -/
structure TablesSynced (host : GroupHost) (db : Database) : Prop where
  groups : InStep host.dirty.groups db.groups.lookup fun id ↦ (host.groups.lookup id).map groupRow
  groupsKnown : ∀ id, (db.groups.lookup id).isSome → (host.groups.lookup id).isSome
  creds : InStep host.dirty.creds db.groupCreds.lookup fun key ↦
    (host.memberRow GroupState.creds key.1 key.2).map credRow
  credsKnown : ∀ key, (db.groupCreds.lookup key).isSome →
    (host.memberRow GroupState.creds key.1 key.2).isSome
  pending : InStep host.dirty.pending (fun id key ↦ db.groupPending.lookup (id, key))
    (host.memberRow GroupState.pending)
  stream : StreamSynced host db.groupStream
  files : InStep host.dirty.files db.groupFiles.lookup host.files.lookup
  filesKnown : ∀ token, (db.groupFiles.lookup token).isSome → (host.files.lookup token).isSome

/-- The journal replayed on the tables gives what the group host holds. -/
structure GroupSynced (host : GroupHost) (db : Database) : Prop extends TablesSynced host db where
  invites : InStep host.dirty.invites (fun id key ↦ db.groupInvites.lookup (id, key))
    (host.memberRow GroupState.invites)

/-- The tables other than `group_invites`, in step with nothing marked. -/
structure TablesStored (host : GroupHost) (db : Database) : Prop where
  groups : ∀ id, db.groups.lookup id = (host.groups.lookup id).map groupRow
  creds : ∀ key, db.groupCreds.lookup key =
    (host.memberRow GroupState.creds key.1 key.2).map credRow
  pending : ∀ id key, db.groupPending.lookup (id, key) = host.memberRow GroupState.pending id key
  stream : ∀ key, db.groupStream.lookup key = (host.streamRow key).map streamRecord
  files : ∀ token, db.groupFiles.lookup token = host.files.lookup token

theorem GroupHost.Valid.drain {host : GroupHost} (h : host.Valid) (dirty : GroupDirty) :
    { host with dirty }.Valid := ⟨h.sorted, h.below, h.fileGroup⟩

theorem TablesStored.drain {host : GroupHost} {db : Database} (h : TablesStored host db)
    (dirty : GroupDirty) : TablesStored { host with dirty } db :=
  ⟨h.groups, h.creds, h.pending, h.stream, h.files⟩

/-- In step with nothing marked. -/
structure GroupStored (host : GroupHost) (db : Database) : Prop extends TablesStored host db where
  invites : ∀ id key, db.groupInvites.lookup (id, key) = host.memberRow GroupState.invites id key

/-! ## Edits -/

section Edits

variable {promises : GroupPromises} {host host' : GroupHost}

/-- A group never goes away and its counter never falls. -/
theorem GroupEdit.group_kept (h : GroupEdit promises host host') (hfresh : promises.fresh) {id : GroupId}
    {g : GroupState} (hg : host.groups.lookup id = some g) :
    ∃ g', host'.groups.lookup id = some g' ∧ g.nextSeq ≤ g'.nextSeq := by
  cases h with
  | clock | putFile => exact ⟨g, hg, le_rfl⟩
  | create groupId new credentialId hnone =>
    refine ⟨g, ?_, le_rfl⟩
    rw [FiniteMap.lookup_insert_ite, if_neg, hg]
    rintro rfl
    rw [hnone hfresh] at hg
    cases hg
  | members groups groupId old new creds invites pending hold hnew hothers hstream =>
    by_cases hid : id = groupId
    · subst hid
      rw [hold] at hg
      cases hg
      exact ⟨new, hnew, hstream.1.ge⟩
    · exact ⟨g, (hothers id hid).trans hg, le_rfl⟩
  | pushRow groupId old type body hold =>
    rw [GroupHost.pushRow, FiniteMap.lookup_insert_ite]
    split_ifs with hid
    · subst hid
      rw [hold] at hg
      cases hg
      exact ⟨_, rfl, Nat.le_succ _⟩
    · exact ⟨g, hg, le_rfl⟩

theorem GroupEdit.isSome_group (h : GroupEdit promises host host') (hfresh : promises.fresh) {id : GroupId}
    (hid : (host.groups.lookup id).isSome) : (host'.groups.lookup id).isSome := by
  obtain ⟨g, hg⟩ := Option.isSome_iff_exists.mp hid
  obtain ⟨g', hg', -⟩ := h.group_kept hfresh hg
  rw [hg']
  rfl

theorem GroupEdit.stream_valid (h : GroupEdit promises host host')
    (hvalid : ∀ id g, host.groups.lookup id = some g →
      (g.stream.map StreamRow.seq).Pairwise (· < ·) ∧ ∀ row ∈ g.stream, row.seq < g.nextSeq)
    (id : GroupId) (g : GroupState) (hg : host'.groups.lookup id = some g) :
    (g.stream.map StreamRow.seq).Pairwise (· < ·) ∧ ∀ row ∈ g.stream, row.seq < g.nextSeq := by
  cases h with
  | clock | putFile => exact hvalid id g hg
  | create groupId new credentialId hnone hcreds hinvites hpending hstream =>
    rw [FiniteMap.lookup_insert_ite] at hg
    split_ifs at hg
    · cases hg
      rw [hstream]
      simp
    · exact hvalid id g hg
  | members groups groupId old new creds invites pending hold hnew hothers hstream =>
    by_cases hid : id = groupId
    · subst hid
      have hgnew : some g = some new := hg.symm.trans hnew
      cases hgnew
      rw [hstream.1, hstream.2.2.1]
      exact hvalid id old hold
    · exact hvalid id g ((hothers id hid).symm.trans hg)
  | pushRow groupId old type body hold =>
    rw [GroupHost.pushRow, FiniteMap.lookup_insert_ite] at hg
    split_ifs at hg
    · cases hg
      obtain ⟨hsorted, hbelow⟩ := hvalid groupId old hold
      constructor
      · rw [List.map_append, List.pairwise_append]
        refine ⟨hsorted, List.pairwise_singleton _ _, ?_⟩
        intro seq hseq seq' hseq'
        obtain ⟨row, hrow, rfl⟩ := List.mem_map.mp hseq
        simp only [List.map_cons, List.map_nil, List.mem_singleton] at hseq'
        exact hseq' ▸ hbelow row hrow
      · intro row hrow
        rcases List.mem_append.mp hrow with hrow | hrow
        · exact (hbelow row hrow).trans (Nat.lt_succ_self _)
        · rw [List.mem_singleton.mp hrow]
          exact Nat.lt_succ_self _
    · exact hvalid id g hg

theorem GroupEdit.valid (h : GroupEdit promises host host') (hfresh : promises.fresh)
    (hvalid : host.Valid) : host'.Valid := by
  have hstream := h.stream_valid fun id g hg ↦ ⟨hvalid.sorted id g hg, hvalid.below id g hg⟩
  refine ⟨fun id g hg ↦ (hstream id g hg).1, fun id g hg ↦ (hstream id g hg).2, ?_⟩
  intro token slot hslot
  apply h.isSome_group hfresh
  cases h with
  | clock | create | members | pushRow => exact hvalid.fileGroup token slot hslot
  | putFile fetchToken new hknown =>
    rw [GroupHost.putFile, FiniteMap.lookup_insert_ite] at hslot
    split_ifs at hslot
    · cases hslot
      exact hknown
    · exact hvalid.fileGroup token slot hslot

theorem GroupEdit.groupsSynced (h : GroupEdit promises host host')
    {stored : GroupId → Option GroupRow}
    (hstored : InStep host.dirty.groups stored fun id ↦ (host.groups.lookup id).map groupRow) :
    InStep host'.dirty.groups stored fun id ↦ (host'.groups.lookup id).map groupRow := by
  cases h with
  | clock | putFile => exact hstored
  | create groupId new =>
    refine hstored.insert fun id hid ↦ ?_
    rw [FiniteMap.lookup_insert_ite, if_neg hid]
  | members groups groupId old new creds invites pending hold hnew hothers hstream =>
    refine hstored.edit (fun _ h ↦ h) fun id _ ↦ ?_
    by_cases hid : id = groupId
    · obtain ⟨hnext, hbytes, -, hcreator⟩ := hstream
      subst hid
      dsimp only
      rw [hnew, hold, Option.map_some, Option.map_some, groupRow, groupRow, hnext, hbytes, hcreator]
    · dsimp only
      rw [hothers id hid]
  | pushRow groupId old type body hold =>
    refine hstored.insert fun id hid ↦ ?_
    rw [GroupHost.pushRow, FiniteMap.lookup_insert_ite, if_neg hid]

theorem GroupEdit.credsSynced (h : GroupEdit promises host host') (hfresh : promises.fresh)
    {stored : GroupId × Key → Option CredRow}
    (hstored : InStep host.dirty.creds stored fun key ↦
      (host.memberRow GroupState.creds key.1 key.2).map credRow) :
    InStep host'.dirty.creds stored fun key ↦
      (host'.memberRow GroupState.creds key.1 key.2).map credRow := by
  cases h with
  | clock | putFile => exact hstored
  | create groupId new credentialId hnone hcreds =>
    refine hstored.insert fun key hkey ↦ ?_
    dsimp only [GroupHost.memberRow]
    rw [FiniteMap.lookup_insert_ite]
    split_ifs with hid
    · have hother : key.2 ≠ credentialId := fun hc ↦ hkey (Prod.ext hid hc)
      rw [hid, hnone hfresh, Option.bind_some, hcreds _ hother]
      rfl
    · rfl
  | members groups groupId old new creds invites pending hold hnew hothers _ hcreds =>
    refine hstored.edit hcreds.1 fun key hkey ↦ ?_
    dsimp only [GroupHost.memberRow]
    by_cases hid : key.1 = groupId
    · have heq : key = (groupId, key.2) := Prod.ext hid rfl
      rw [hid, hnew, hold, Option.bind_some, Option.bind_some, hcreds.2]
      exact fun hmem ↦ hkey (heq ▸ hmem)
    · rw [hothers _ hid]
  | pushRow groupId old type body hold =>
    refine hstored.edit (fun _ h ↦ h) fun key _ ↦ ?_
    dsimp only [GroupHost.memberRow, GroupHost.pushRow]
    rw [FiniteMap.lookup_insert_ite]
    split_ifs with hid
    · rw [hid, hold]
      rfl
    · rfl

theorem GroupEdit.credsKnown (h : GroupEdit promises host host') (hfresh : promises.fresh)
    {key : GroupId × Key} (hkey : (host.memberRow GroupState.creds key.1 key.2).isSome) :
    (host'.memberRow GroupState.creds key.1 key.2).isSome := by
  obtain ⟨record, hrecord⟩ := Option.isSome_iff_exists.mp hkey
  obtain ⟨g, hg, hcred⟩ := Option.bind_eq_some_iff.mp hrecord
  cases h with
  | clock | putFile => exact hkey
  | create groupId new credentialId hnone =>
    dsimp only [GroupHost.memberRow]
    rw [FiniteMap.lookup_insert_ite, if_neg]
    · exact hkey
    · intro hid
      rw [hid, hnone hfresh] at hg
      cases hg
  | members groups groupId old new creds invites pending hold hnew hothers _ _ hcredsKept =>
    dsimp only [GroupHost.memberRow]
    by_cases hid : key.1 = groupId
    · rw [hid, hold] at hg
      cases hg
      rw [hid, hnew, Option.bind_some]
      exact hcredsKept _ (by rw [hcred]; rfl)
    · rw [hothers _ hid]
      exact hkey
  | pushRow groupId old type body hold =>
    dsimp only [GroupHost.memberRow, GroupHost.pushRow]
    rw [FiniteMap.lookup_insert_ite]
    split_ifs with hid
    · rw [hid, hold] at hg
      cases hg
      rw [Option.bind_some, hcred]
      rfl
    · exact hkey

theorem GroupEdit.invitesSynced (h : GroupEdit promises host host') (hfresh : promises.fresh)
    (hunexpired : promises.unexpired) {stored : GroupId → Key → Option StoredInvite}
    (hstored : InStep host.dirty.invites stored (host.memberRow GroupState.invites)) :
    InStep host'.dirty.invites stored (host'.memberRow GroupState.invites) := by
  cases h with
  | clock | putFile => exact hstored
  | create groupId new credentialId hnone _ hinvites =>
    refine hstored.edit (fun _ h ↦ h) fun id _ ↦ funext fun key ↦ ?_
    dsimp only [GroupHost.memberRow]
    rw [FiniteMap.lookup_insert_ite]
    split_ifs with hid
    · rw [hid, hnone hfresh, Option.bind_some, hinvites]
      rfl
    · rfl
  | members groups groupId old new creds invites pending hold hnew hothers _ _ _ hinvites =>
    refine hstored.edit hinvites.1 fun id hid' ↦ funext fun key ↦ ?_
    dsimp only [GroupHost.memberRow]
    by_cases hid : id = groupId
    · subst hid
      rw [hnew, hold, Option.bind_some, Option.bind_some]
      exact (hinvites.2 hid' key).resolve_right fun hlost ↦ hlost.1 hunexpired
    · rw [hothers _ hid]
  | pushRow groupId old type body hold =>
    refine hstored.edit (fun _ h ↦ h) fun id _ ↦ funext fun key ↦ ?_
    dsimp only [GroupHost.memberRow, GroupHost.pushRow]
    rw [FiniteMap.lookup_insert_ite]
    split_ifs with hid
    · rw [hid, hold]
      rfl
    · rfl

theorem GroupEdit.pendingSynced (h : GroupEdit promises host host') (hfresh : promises.fresh)
    {stored : GroupId → Key → Option PendingRecord}
    (hstored : InStep host.dirty.pending stored (host.memberRow GroupState.pending)) :
    InStep host'.dirty.pending stored (host'.memberRow GroupState.pending) := by
  cases h with
  | clock | putFile => exact hstored
  | create groupId new credentialId hnone _ _ hpending =>
    refine hstored.edit (fun _ h ↦ h) fun id _ ↦ funext fun key ↦ ?_
    dsimp only [GroupHost.memberRow]
    rw [FiniteMap.lookup_insert_ite]
    split_ifs with hid
    · rw [hid, hnone hfresh, Option.bind_some, hpending]
      rfl
    · rfl
  | members groups groupId old new creds invites pending hold hnew hothers _ _ _ _ hpending =>
    refine hstored.edit hpending.1 fun id hid' ↦ funext fun key ↦ ?_
    dsimp only [GroupHost.memberRow]
    by_cases hid : id = groupId
    · subst hid
      rw [hnew, hold, Option.bind_some, Option.bind_some, hpending.2 hid']
    · rw [hothers _ hid]
  | pushRow groupId old type body hold =>
    refine hstored.edit (fun _ h ↦ h) fun id _ ↦ funext fun key ↦ ?_
    dsimp only [GroupHost.memberRow, GroupHost.pushRow]
    rw [FiniteMap.lookup_insert_ite]
    split_ifs with hid
    · rw [hid, hold]
      rfl
    · rfl

/-- The stream keeps its rows under every edit except the one that adds a row. -/
theorem StreamSynced.same {rows : FiniteMap (GroupId × ℕ) StreamRecord}
    (h : StreamSynced host rows) (hedit : GroupEdit promises host host') (hfresh : promises.fresh)
    (hnew : host'.dirty.streamNew = host.dirty.streamNew)
    (hrow : ∀ key, host'.streamRow key = host.streamRow key) : StreamSynced host' rows := by
  have hbelow {key : GroupId × ℕ}
      (hkey : ∃ g, host.groups.lookup key.1 = some g ∧ key.2 < g.nextSeq) :
      ∃ g, host'.groups.lookup key.1 = some g ∧ key.2 < g.nextSeq := by
    obtain ⟨g, hg, hlt⟩ := hkey
    obtain ⟨g', hg', hle⟩ := hedit.group_kept hfresh hg
    exact ⟨g', hg', hlt.trans_le hle⟩
  exact
    { newNodup := hnew ▸ h.newNodup
      newAbsent := hnew ▸ h.newAbsent
      newBelow := fun key hkey ↦ hbelow (h.newBelow key (hnew ▸ hkey))
      storedBelow := fun key hkey ↦ hbelow (h.storedBelow key hkey)
      kept := fun key hkey ↦ by
        rw [hrow]
        exact h.kept key (hnew ▸ hkey) }

theorem StreamSynced.pushRow {rows : FiniteMap (GroupId × ℕ) StreamRecord}
    (h : StreamSynced host rows) {groupId : GroupId} {g : GroupState}
    (hold : host.groups.lookup groupId = some g) (type : MessageType) (body : Bytes) :
    StreamSynced (host.pushRow groupId g type body) rows := by
  have hunused : ¬ ∃ g', host.groups.lookup groupId = some g' ∧ g.nextSeq < g'.nextSeq := by
    rintro ⟨g', hg', hlt⟩
    rw [hold] at hg'
    cases hg'
    exact lt_irrefl _ hlt
  have hbelow {key : GroupId × ℕ}
      (hkey : ∃ g, host.groups.lookup key.1 = some g ∧ key.2 < g.nextSeq) :
      ∃ g', (host.pushRow groupId g type body).groups.lookup key.1 = some g' ∧
        key.2 < g'.nextSeq := by
    obtain ⟨g', hg', hlt⟩ := hkey
    have hedit : GroupEdit .admissible host (host.pushRow groupId g type body) :=
      .pushRow host groupId g type body hold
    obtain ⟨g'', hg'', hle⟩ := hedit.group_kept trivial hg'
    exact ⟨g'', hg'', hlt.trans_le hle⟩
  have hrow {key : GroupId × ℕ} (hkey : key ≠ (groupId, g.nextSeq)) :
      (host.pushRow groupId g type body).streamRow key = host.streamRow key := by
    dsimp only [GroupHost.streamRow, GroupHost.pushRow]
    rw [FiniteMap.lookup_insert_ite]
    split_ifs with hid
    · have hseq : g.nextSeq ≠ key.2 := fun heq ↦ hkey (Prod.ext hid heq.symm)
      rw [hid, hold, Option.bind_some, Option.bind_some, List.find?_append]
      simp [hseq]
    · rfl
  refine ⟨?_, ?_, ?_, fun key hkey ↦ hbelow (h.storedBelow key hkey), ?_⟩
  · refine h.newNodup.append (List.nodup_singleton _) ?_
    rw [List.disjoint_singleton]
    exact fun hmem ↦ hunused (h.newBelow _ hmem)
  · intro key hkey
    rcases List.mem_append.mp hkey with hmem | hmem
    · exact h.newAbsent key hmem
    · rw [List.mem_singleton.mp hmem, ← Option.not_isSome_iff_eq_none]
      exact fun hsome ↦ hunused (h.storedBelow _ hsome)
  · intro key hkey
    rcases List.mem_append.mp hkey with hmem | hmem
    · exact hbelow (h.newBelow key hmem)
    · obtain rfl := List.mem_singleton.mp hmem
      exact ⟨_, AList.lookup_insert _, Nat.lt_succ_self _⟩
  · intro key hkey
    rw [GroupHost.pushRow, List.mem_append, not_or, List.mem_singleton] at hkey
    rw [hrow hkey.2]
    exact h.kept key hkey.1

theorem GroupEdit.streamSynced (h : GroupEdit promises host host') (hfresh : promises.fresh)
    {rows : FiniteMap (GroupId × ℕ) StreamRecord} (hrows : StreamSynced host rows) :
    StreamSynced host' rows := by
  have hedit := h
  cases h with
  | clock | putFile => exact hrows.same hedit hfresh rfl fun _ ↦ rfl
  | create groupId new credentialId hnone hcreds hinvites hpending hstream =>
    refine hrows.same hedit hfresh rfl fun key ↦ ?_
    dsimp only [GroupHost.streamRow]
    rw [FiniteMap.lookup_insert_ite]
    split_ifs with hid
    · rw [hid, hnone hfresh, Option.bind_some, hstream]
      rfl
    · rfl
  | members groups groupId old new creds invites pending hold hnew hothers hstream =>
    refine hrows.same hedit hfresh rfl fun key ↦ ?_
    dsimp only [GroupHost.streamRow]
    by_cases hid : key.1 = groupId
    · rw [hid, hnew, hold, Option.bind_some, Option.bind_some, hstream.2.2.1]
    · rw [hothers _ hid]
  | pushRow groupId old type body hold => exact hrows.pushRow hold type body

theorem GroupEdit.filesSynced (h : GroupEdit promises host host') {stored : Key → Option FileSlot}
    (hstored : InStep host.dirty.files stored host.files.lookup) :
    InStep host'.dirty.files stored host'.files.lookup := by
  cases h with
  | clock | create | members | pushRow => exact hstored
  | putFile fetchToken slot =>
    refine hstored.insert fun token htoken ↦ ?_
    rw [GroupHost.putFile, FiniteMap.lookup_insert_ite, if_neg htoken]

theorem GroupEdit.file_kept (h : GroupEdit promises host host') {token : Key}
    (htoken : (host.files.lookup token).isSome) : (host'.files.lookup token).isSome := by
  cases h with
  | clock | create | members | pushRow => exact htoken
  | putFile fetchToken slot =>
    rw [GroupHost.putFile, FiniteMap.lookup_insert_ite]
    split_ifs
    · rfl
    · exact htoken

theorem GroupEdit.tablesSynced (h : GroupEdit promises host host') (hfresh : promises.fresh)
    {db : Database} (hsynced : TablesSynced host db) : TablesSynced host' db where
  groups := h.groupsSynced hsynced.groups
  groupsKnown id hid := h.isSome_group hfresh (hsynced.groupsKnown id hid)
  creds := h.credsSynced hfresh hsynced.creds
  credsKnown key hkey := h.credsKnown hfresh (hsynced.credsKnown key hkey)
  pending := h.pendingSynced hfresh hsynced.pending
  stream := h.streamSynced hfresh hsynced.stream
  files := h.filesSynced hsynced.files
  filesKnown token htoken := h.file_kept (hsynced.filesKnown token htoken)

theorem GroupEdits.synced (h : GroupEdits .admissible host host') {db : Database}
    (hstart : host.Valid ∧ GroupSynced host db) : host'.Valid ∧ GroupSynced host' db :=
  Chain.keeps (fun s ↦ s.Valid ∧ GroupSynced s db)
    (fun _ _ hedit hs ↦ ⟨hedit.valid trivial hs.1, hedit.tablesSynced trivial hs.2.toTablesSynced,
      hedit.invitesSynced trivial trivial hs.2.invites⟩) h hstart

end Edits

end NemoMessenger.Server
