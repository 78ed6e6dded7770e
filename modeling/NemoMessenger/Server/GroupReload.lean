import NemoMessenger.Server.GroupSync

/-!
# Replaying and reloading the groups

The group half of `persist_inner` succeeds on a host in step with its tables and stores what memory
holds; `load_keys` reads it back.
-/

namespace NemoMessenger.Server

open NemoMessenger.Data NemoMessenger.Wire

variable {host : GroupHost} {db : Database}

/-! ## Clean journals -/

theorem GroupDirty.isClean_iff {dirty : GroupDirty} : dirty.isClean = true ↔ dirty = {} := by
  constructor
  · intro h
    simp only [GroupDirty.isClean, Bool.and_eq_true, List.isEmpty_iff] at h
    obtain ⟨⟨⟨⟨⟨h₁, h₂⟩, h₃⟩, h₄⟩, h₅⟩, h₆⟩ := h
    cases dirty
    simp_all
  · rintro rfl
    rfl

/-- A drained journal merged back into an empty one keeps the tables in step. -/
theorem TablesSynced.absorb (h : TablesSynced host db) :
    TablesSynced { host with dirty := GroupDirty.absorb {} host.dirty } db :=
  ⟨h.groups, h.groupsKnown, h.creds, h.credsKnown, h.pending,
    ⟨h.stream.newNodup, h.stream.newAbsent, h.stream.newBelow, h.stream.storedBelow,
      h.stream.kept⟩, h.files, h.filesKnown⟩

theorem GroupSynced.absorb (h : GroupSynced host db) :
    GroupSynced { host with dirty := GroupDirty.absorb {} host.dirty } db :=
  ⟨h.toTablesSynced.absorb, h.invites⟩

theorem TablesSynced.stored (h : TablesSynced host db) (hclean : host.dirty = {}) :
    TablesStored host db where
  groups id := h.groups id (by simp [hclean])
  creds key := h.creds key (by simp [hclean])
  pending id key := congrFun (h.pending id (by simp [hclean])) key
  stream key := h.stream.kept key (by simp [hclean])
  files token := h.files token (by simp [hclean])

theorem GroupSynced.stored (h : GroupSynced host db) (hclean : host.dirty = {}) :
    GroupStored host db where
  toTablesStored := h.toTablesSynced.stored hclean
  invites id key := congrFun (h.invites id (by simp [hclean])) key

/-- Stored stream rows are rows of memory, under numbers that were given out. -/
theorem TablesStored.stream_below (h : TablesStored host db) (hvalid : host.Valid)
    {key : GroupId × ℕ} (hkey : (db.groupStream.lookup key).isSome) :
    ∃ g, host.groups.lookup key.1 = some g ∧ key.2 < g.nextSeq := by
  rw [h.stream, Option.isSome_map] at hkey
  obtain ⟨row, hrow⟩ := Option.isSome_iff_exists.mp hkey
  obtain ⟨g, hg, hfind⟩ := Option.bind_eq_some_iff.mp hrow
  have hseq : row.seq = key.2 := by simpa using List.find?_some hfind
  exact ⟨g, hg, hseq ▸ hvalid.below key.1 g hg row (List.mem_of_find?_eq_some hfind)⟩

theorem TablesStored.group_known (h : TablesStored host db) {id : GroupId}
    (hid : (db.groups.lookup id).isSome) : (host.groups.lookup id).isSome := by
  rw [h.groups, Option.isSome_map] at hid
  exact hid

theorem TablesStored.cred_known (h : TablesStored host db) {key : GroupId × Key}
    (hkey : (db.groupCreds.lookup key).isSome) :
    (host.memberRow GroupState.creds key.1 key.2).isSome := by
  rw [h.creds, Option.isSome_map] at hkey
  exact hkey

theorem TablesStored.file_known (h : TablesStored host db) {token : Key}
    (htoken : (db.groupFiles.lookup token).isSome) : (host.files.lookup token).isSome := by
  rw [h.files] at htoken
  exact htoken

theorem TablesStored.synced (h : TablesStored host db) (hclean : host.dirty = {})
    (hvalid : host.Valid) : TablesSynced host db where
  groups id _ := h.groups id
  groupsKnown _ hid := h.group_known hid
  creds key _ := h.creds key
  credsKnown _ hkey := h.cred_known hkey
  pending id _ := funext fun key ↦ h.pending id key
  stream :=
    { newNodup := by simp [hclean]
      newAbsent := by simp [hclean]
      newBelow := by simp [hclean]
      storedBelow := fun _ hkey ↦ h.stream_below hvalid hkey
      kept := fun key _ ↦ h.stream key }
  files token _ := h.files token
  filesKnown _ htoken := h.file_known htoken

theorem GroupStored.synced (h : GroupStored host db) (hclean : host.dirty = {})
    (hvalid : host.Valid) : GroupSynced host db where
  toTablesSynced := h.toTablesStored.synced hclean hvalid
  invites id _ := funext fun key ↦ h.invites id key

/-! ## Statements -/

theorem upsertCred_eq_ok {groups : FiniteMap GroupId GroupRow}
    (hknown : ∀ id, (host.groups.lookup id).isSome → (groups.lookup id).isSome)
    (rows : FiniteMap (GroupId × Key) CredRow) (key : GroupId × Key) :
    Database.upsertCred groups host rows key = .ok (upsertLive
      (fun key ↦ (host.memberRow GroupState.creds key.1 key.2).map credRow) rows key) := by
  unfold Database.upsertCred upsertLive GroupHost.memberRow
  dsimp only
  cases hrecord : (host.groups.lookup key.1).bind fun g ↦ g.creds.lookup key.2 with
  | none => rfl
  | some record =>
    obtain ⟨g, hg, -⟩ := Option.bind_eq_some_iff.mp hrecord
    dsimp only [Option.map_some]
    rw [if_pos (hknown _ (by rw [hg]; rfl))]

theorem upsertFile_eq_ok (hvalid : host.Valid) {groups : FiniteMap GroupId GroupRow}
    (hknown : ∀ id, (host.groups.lookup id).isSome → (groups.lookup id).isSome)
    (files : FiniteMap Key FileSlot) (token : Key) :
    Database.upsertFile groups host files token = .ok (upsertLive host.files.lookup files token) := by
  unfold Database.upsertFile upsertLive
  dsimp only
  cases hslot : host.files.lookup token with
  | none => rfl
  | some slot =>
    dsimp only
    rw [if_pos (hknown _ (hvalid.fileGroup token slot hslot))]

/-- The rows of one group are replaced, those of the others stay. -/
theorem rewriteGroupRows_eq_ok {V : Type} {groups : FiniteMap GroupId GroupRow}
    (hknown : ∀ id, (host.groups.lookup id).isSome → (groups.lookup id).isSome)
    (rowsOf : GroupState → FiniteMap Key V) (rows : FiniteMap (GroupId × Key) V)
    (groupId : GroupId) :
    ∃ rows', Database.rewriteGroupRows groups host rowsOf rows groupId = .ok rows' ∧
      ∀ id, (fun key ↦ rows'.lookup (id, key)) =
        if id = groupId then host.memberRow rowsOf groupId else fun key ↦ rows.lookup (id, key) := by
  have hkept (id : GroupId) (key : Key) :
      (FiniteMap.retain (fun key _ ↦ key.1 ≠ groupId) rows).lookup (id, key) =
        if id = groupId then none else rows.lookup (id, key) := by
    rw [FiniteMap.lookup_retain]
    split_ifs with hid <;> cases rows.lookup (id, key) <;> simp [hid]
  unfold Database.rewriteGroupRows
  dsimp only
  cases hg : host.groups.lookup groupId with
  | none =>
    refine ⟨_, rfl, fun id ↦ funext fun key ↦ ?_⟩
    rw [hkept]
    split_ifs
    · rw [GroupHost.memberRow, hg]
      rfl
    · rfl
  | some g =>
    have hrow (key : Key) : host.memberRow rowsOf groupId key = (rowsOf g).lookup key := by
      rw [GroupHost.memberRow, hg]
      rfl
    dsimp only
    split
    · rename_i hempty
      refine ⟨_, rfl, fun id ↦ funext fun key ↦ ?_⟩
      rw [hkept]
      split_ifs
      · have hnone : rowsOf g = ∅ := AList.ext (List.isEmpty_iff.mp hempty)
        rw [hrow, hnone]
        rfl
      · rfl
    · set entries := (rowsOf g).entries.map fun e ↦ ((groupId, e.1), e.2) with hentries
      have hentry (id : GroupId) (key : Key) (v : V) : ((id, key), v) ∈ entries ↔
          id = groupId ∧ (rowsOf g).lookup key = some v := by
        rw [hentries, List.mem_map, FiniteMap.lookup_eq_some_iff]
        constructor
        · rintro ⟨e, he, heq⟩
          cases heq
          exact ⟨rfl, he⟩
        · rintro ⟨rfl, he⟩
          exact ⟨_, he, rfl⟩
      have hnodup : (entries.map Prod.fst).Nodup := by
        have hfst : entries.map Prod.fst = (rowsOf g).keys.map fun key ↦ (groupId, key) := by
          rw [hentries, List.map_map, AList.keys, List.keys, List.map_map]
          rfl
        rw [hfst]
        exact (rowsOf g).nodupKeys.map fun _ _ heq ↦ (Prod.ext_iff.mp heq).2
      obtain ⟨rows', hrows', hlookup⟩ := FiniteMap.insertAll_eq_ok PersistError.sqlx
        (fun _ key _ ↦ (groups.lookup key.1).isSome)
        (m := FiniteMap.retain (fun key _ ↦ key.1 ≠ groupId) rows)
        (fun key ↦ if key.1 = groupId then (rowsOf g).lookup key.2 else rows.lookup key) hnodup
        (by
          rintro ⟨⟨id, key⟩, v⟩ he
          rw [hkept, if_pos ((hentry id key v).mp he).1])
        (by
          rintro ⟨⟨id, key⟩, v⟩ he
          obtain ⟨hid, hv⟩ := (hentry id key v).mp he
          rw [if_pos hid, hv])
        (by
          rintro ⟨id, key⟩ v hv
          rw [hkept] at hv
          split_ifs at hv with hid
          rw [if_neg hid, hv])
        (by
          rintro sub ⟨id, key⟩ v he _ _
          rw [((hentry id key v).mp he).1]
          exact hknown groupId (by rw [hg]; rfl))
      refine ⟨rows', hrows', fun id ↦ funext fun key ↦ ?_⟩
      rw [hlookup, hkept]
      by_cases hid : id = groupId
      · subst hid
        rw [if_pos rfl, if_pos rfl, if_pos rfl, hrow]
        split_ifs with hmem
        · rfl
        · cases hv : (rowsOf g).lookup key with
          | none => rfl
          | some v =>
            exact absurd (List.mem_map.mpr ⟨_, (hentry id key v).mpr ⟨rfl, hv⟩, rfl⟩) hmem
      · rw [if_neg hid, if_neg hid, if_neg hid]
        split_ifs <;> rfl

/-- The marked rows are added to the stream, and then it holds what memory holds. -/
theorem insertStreamNew_eq_ok {groups : FiniteMap GroupId GroupRow}
    (hknown : ∀ id, (host.groups.lookup id).isSome → (groups.lookup id).isSome)
    (hsynced : StreamSynced host db.groupStream) :
    ∃ rows, Database.insertStreamNew groups host host.dirty.streamNew db.groupStream = .ok rows ∧
      ∀ key, rows.lookup key = (host.streamRow key).map streamRecord := by
  set entries := host.dirty.streamNew.filterMap fun key ↦
    ((host.groups.lookup key.1).bind fun g ↦ g.stream.find? fun row ↦ row.seq = key.2).map
      fun row ↦ ((key.1, row.seq), streamRecord row) with hentries
  have hseq {key : GroupId × ℕ} {row : StreamRow} (h : host.streamRow key = some row) :
      (key.1, row.seq) = key := by
    obtain ⟨g, -, hfind⟩ := Option.bind_eq_some_iff.mp h
    have hseq : row.seq = key.2 := by simpa using List.find?_some hfind
    exact Prod.ext rfl hseq
  have hentry (key : GroupId × ℕ) (record : StreamRecord) : (key, record) ∈ entries ↔
      key ∈ host.dirty.streamNew ∧ (host.streamRow key).map streamRecord = some record := by
    rw [hentries, List.mem_filterMap]
    constructor
    · rintro ⟨key', hkey', heq⟩
      obtain ⟨row, hrow, heq⟩ := Option.map_eq_some_iff.mp heq
      have hrow : host.streamRow key' = some row := hrow
      rw [hseq hrow] at heq
      cases heq
      exact ⟨hkey', by rw [hrow]; rfl⟩
    · rintro ⟨hkey, heq⟩
      obtain ⟨row, hrow, rfl⟩ := Option.map_eq_some_iff.mp heq
      have hbind : ((host.groups.lookup key.1).bind fun g ↦
          g.stream.find? fun row ↦ row.seq = key.2) = some row := hrow
      exact ⟨key, hkey, by rw [hbind, Option.map_some, hseq hrow]⟩
  have hnodup : (entries.map Prod.fst).Nodup := by
    have hsub : (entries.map Prod.fst).Sublist host.dirty.streamNew := by
      rw [hentries, List.map_filterMap]
      generalize host.dirty.streamNew = keys
      induction keys with
      | nil => simp
      | cons key keys ih =>
        have hrow : ((host.groups.lookup key.1).bind fun g ↦
          g.stream.find? fun row ↦ row.seq = key.2) = host.streamRow key := rfl
        rw [List.filterMap_cons, hrow]
        cases hfound : host.streamRow key with
        | none => exact ih.cons key
        | some row =>
          dsimp only [Option.map_some]
          rw [hseq hfound]
          exact ih.cons_cons key
    exact hsynced.newNodup.sublist hsub
  obtain ⟨rows, hrows, hlookup⟩ := FiniteMap.insertAll_eq_ok PersistError.sqlx
    (fun _ key _ ↦ (groups.lookup key.1).isSome) (m := db.groupStream)
    (fun key ↦ (host.streamRow key).map streamRecord) hnodup
    (fun e he ↦ hsynced.newAbsent e.1 ((hentry e.1 e.2).mp he).1)
    (fun e he ↦ ((hentry e.1 e.2).mp he).2)
    (fun key record hrecord ↦ by
      by_cases hmem : key ∈ host.dirty.streamNew
      · rw [hsynced.newAbsent key hmem] at hrecord
        cases hrecord
      · rw [← hsynced.kept key hmem, hrecord])
    (fun sub key record he _ _ ↦ by
      obtain ⟨g, hg, -⟩ := hsynced.newBelow key ((hentry key record).mp he).1
      exact hknown _ (by rw [hg]; rfl))
  refine ⟨rows, hrows, fun key ↦ ?_⟩
  rw [hlookup]
  split_ifs with hmem
  · rfl
  · by_cases hmarked : key ∈ host.dirty.streamNew
    · -- a marked key without an entry has no row in memory
      rw [hsynced.newAbsent key hmarked]
      cases hrow : host.streamRow key with
      | none => rfl
      | some row =>
        refine absurd (List.mem_map.mpr ⟨(key, streamRecord row), ?_, rfl⟩) hmem
        exact (hentry _ _).mpr ⟨hmarked, by rw [hrow]; rfl⟩
    · exact hsynced.kept key hmarked

/-- The tables of the home server are the same. -/
def Database.SameHome (db db' : Database) : Prop :=
  db' = { db with
    groups := db'.groups
    groupCreds := db'.groupCreds
    groupInvites := db'.groupInvites
    groupPending := db'.groupPending
    groupStream := db'.groupStream
    groupFiles := db'.groupFiles }

/-- From a host in step with its tables the group half of `persist_inner` succeeds and stores what
memory holds; the invites of the groups that are not marked stay as they were. -/
theorem persistTables_eq_ok (hvalid : host.Valid) (hsynced : TablesSynced host db) :
    ∃ db', Database.persistGroups host host.dirty db = .ok db' ∧ TablesStored host db' ∧
      (∀ id key, db'.groupInvites.lookup (id, key) =
        if id ∈ host.dirty.invites then host.memberRow GroupState.invites id key
        else db.groupInvites.lookup (id, key)) ∧ db.SameHome db' := by
  have hgroups (id : GroupId) := lookup_foldl_upsertLive hsynced.groups
    (fun id hid ↦ by rw [Option.isSome_map]; exact hsynced.groupsKnown id hid) id
  have hknown (id : GroupId) (hid : (host.groups.lookup id).isSome) :
      ((host.dirty.groups.foldl (Database.upsertGroup host) db.groups).lookup id).isSome := by
    rw [Database.upsertGroup, hgroups, Option.isSome_map]
    exact hid
  have hcreds := foldlM_eq_ok host.dirty.creds
    (fun rows key _ ↦ upsertCred_eq_ok hknown rows key) db.groupCreds
  obtain ⟨invites, hinvites, hinviteRows⟩ := InStep.foldlM_of_not_mem
    (fun rows id (_ : id ∈ host.dirty.invites) ↦
      rewriteGroupRows_eq_ok hknown GroupState.invites rows id) db.groupInvites
  obtain ⟨pending, hpending, hpendingRows⟩ := InStep.foldlM
    (fun rows id _ ↦ rewriteGroupRows_eq_ok hknown GroupState.pending rows id) hsynced.pending
  obtain ⟨stream, hstream, hstreamRows⟩ := insertStreamNew_eq_ok hknown hsynced.stream
  have hfiles := foldlM_eq_ok host.dirty.files
    (fun files token _ ↦ upsertFile_eq_ok hvalid hknown files token) db.groupFiles
  refine ⟨{ db with
    groups := host.dirty.groups.foldl (Database.upsertGroup host) db.groups
    groupCreds := host.dirty.creds.foldl (upsertLive fun key ↦
      (host.memberRow GroupState.creds key.1 key.2).map credRow) db.groupCreds
    groupInvites := invites
    groupPending := pending
    groupStream := stream
    groupFiles := host.dirty.files.foldl (upsertLive host.files.lookup) db.groupFiles },
    ?_, ⟨hgroups, fun key ↦ ?_, fun id key ↦ ?_, hstreamRows, fun token ↦ ?_⟩, fun id key ↦ ?_, rfl⟩
  · unfold Database.persistGroups
    simp only [hcreds, hinvites, hpending, hstream, hfiles, bind, Except.bind]
  · exact lookup_foldl_upsertLive hsynced.creds
      (fun key hkey ↦ by rw [Option.isSome_map]; exact hsynced.credsKnown key hkey) key
  · exact congrFun (congrFun hpendingRows id) key
  · exact lookup_foldl_upsertLive hsynced.files hsynced.filesKnown token
  · have hrow := congrFun (hinviteRows id) key
    split_ifs at hrow ⊢ <;> exact hrow

/-! ## Reload -/

/-- Two states of a group agree on what the database keeps of it. -/
structure GroupState.SameDurable (g g' : GroupState) : Prop where
  nextSeq : g'.nextSeq = g.nextSeq
  bytes : g'.bytes = g.bytes
  creator : g'.creator = g.creator
  stream : g'.stream = g.stream
  creds : ∀ key, g'.creds.lookup key = g.creds.lookup key
  invites : ∀ key, g'.invites.lookup key = g.invites.lookup key
  pending : ∀ key, g'.pending.lookup key = g.pending.lookup key

/-- Two group hosts agree on every durable field. -/
structure GroupHost.SameDurable (host host' : GroupHost) : Prop where
  groups : ∀ id, Option.Rel GroupState.SameDurable (host.groups.lookup id) (host'.groups.lookup id)
  files : ∀ token, host'.files.lookup token = host.files.lookup token

theorem loadCred_credRow (record : CredRecord) : loadCred (credRow record) = record := by
  obtain ⟨secret, live, signingPk, fanout⟩ := record
  cases fanout <;> rfl

theorem loadStreamRow_streamRecord {key : GroupId × ℕ} {row : StreamRow} (h : row.seq = key.2) :
    loadStreamRow key (streamRecord row) = .ok row := by
  unfold loadStreamRow streamRecord
  rw [MessageType.fromU8_toU8, ← h]

theorem lookup_loadedStream (hstored : TablesStored host db) :
    ∃ stream, FiniteMap.traverse (fun key record ↦ (loadStreamRow key record).map some)
      db.groupStream = .ok stream ∧ ∀ key, stream.lookup key = host.streamRow key := by
  obtain ⟨stream, hload, hlookup⟩ := FiniteMap.traverse_eq_ok
    (f := fun key record ↦ (loadStreamRow key record).map some)
    (g := fun key _ ↦ host.streamRow key) (m := db.groupStream) fun key record hrecord ↦ by
      rw [hstored.stream] at hrecord
      obtain ⟨row, hrow, rfl⟩ := Option.map_eq_some_iff.mp hrecord
      obtain ⟨g, -, hfind⟩ := Option.bind_eq_some_iff.mp hrow
      have hseq : row.seq = key.2 := by simpa using List.find?_some hfind
      rw [loadStreamRow_streamRecord hseq, hrow]
      rfl
  refine ⟨stream, hload, fun key ↦ ?_⟩
  rw [hlookup, hstored.stream]
  cases host.streamRow key <;> rfl

theorem GroupHost.SameDurable.lookup_eq_some {host' : GroupHost} (h : host.SameDurable host')
    {id : GroupId} {g' : GroupState} (hg' : host'.groups.lookup id = some g') :
    ∃ g, host.groups.lookup id = some g ∧ g.SameDurable g' := by
  have hrel := h.groups id
  rw [hg'] at hrel
  cases hg : host.groups.lookup id with
  | none =>
    rw [hg] at hrel
    cases hrel
  | some g =>
    rw [hg] at hrel
    cases hrel with
    | some hsame => exact ⟨g, rfl, hsame⟩

theorem GroupHost.SameDurable.map_eq {host' : GroupHost} (h : host.SameDurable host')
    {V : Type} {f : GroupState → V} (hf : ∀ g g', g.SameDurable g' → f g' = f g) (id : GroupId) :
    (host'.groups.lookup id).map f = (host.groups.lookup id).map f := by
  have hrel := h.groups id
  generalize host.groups.lookup id = old at hrel ⊢
  generalize host'.groups.lookup id = new at hrel ⊢
  cases hrel with
  | none => rfl
  | some hsame => exact congrArg some (hf _ _ hsame)

theorem GroupHost.SameDurable.bind_eq {host' : GroupHost} (h : host.SameDurable host')
    {V : Type} {f : GroupState → Option V} (hf : ∀ g g', g.SameDurable g' → f g' = f g)
    (id : GroupId) : (host'.groups.lookup id).bind f = (host.groups.lookup id).bind f := by
  have hmap := congrArg Option.join (h.map_eq hf id)
  cases hnew : host'.groups.lookup id <;> cases hold : host.groups.lookup id <;> simp_all

theorem GroupHost.SameDurable.valid {host' : GroupHost} (h : host.SameDurable host')
    (hvalid : host.Valid) : host'.Valid where
  sorted id g' hg' := by
    obtain ⟨g, hg, hsame⟩ := h.lookup_eq_some hg'
    rw [hsame.stream]
    exact hvalid.sorted id g hg
  below id g' hg' := by
    obtain ⟨g, hg, hsame⟩ := h.lookup_eq_some hg'
    rw [hsame.stream, hsame.nextSeq]
    exact hvalid.below id g hg
  fileGroup token slot hslot := by
    rw [h.files] at hslot
    have hknown := hvalid.fileGroup token slot hslot
    rw [← Option.isSome_map (f := fun _ ↦ ())] at hknown ⊢
    rw [h.map_eq fun _ _ _ ↦ rfl]
    exact hknown

theorem GroupStored.sameDurable {host' : GroupHost} (hstored : GroupStored host db)
    (h : host.SameDurable host') : GroupStored host' db where
  groups id := by
    rw [hstored.groups, h.map_eq]
    intro g g' hsame
    rw [groupRow, groupRow, hsame.nextSeq, hsame.bytes, hsame.creator]
  creds key := by
    rw [hstored.creds, GroupHost.memberRow, GroupHost.memberRow,
      h.bind_eq fun _ _ hsame ↦ hsame.creds key.2]
  invites id key := by
    rw [hstored.invites, GroupHost.memberRow, GroupHost.memberRow,
      h.bind_eq fun _ _ hsame ↦ hsame.invites key]
  pending id key := by
    rw [hstored.pending, GroupHost.memberRow, GroupHost.memberRow,
      h.bind_eq fun _ _ hsame ↦ hsame.pending key]
  stream key := by
    rw [hstored.stream, GroupHost.streamRow, GroupHost.streamRow, h.bind_eq]
    intro g g' hsame
    rw [hsame.stream]
  files token := by rw [hstored.files, h.files]

/-- A group as its tables have it, with the invites of `group_invites`. -/
structure GroupState.ReadAs (invites : Key → Option StoredInvite) (g g' : GroupState) : Prop where
  nextSeq : g'.nextSeq = g.nextSeq
  bytes : g'.bytes = g.bytes
  creator : g'.creator = g.creator
  stream : g'.stream = g.stream
  creds : ∀ key, g'.creds.lookup key = g.creds.lookup key
  invites : ∀ key, g'.invites.lookup key = invites key
  pending : ∀ key, g'.pending.lookup key = g.pending.lookup key

/-- `load_keys` rebuilds the groups from what a host stored in the other tables. -/
theorem loadTables_eq_ok (hvalid : host.Valid) (hstored : TablesStored host db) :
    ∃ loaded, db.loadGroups = .ok loaded ∧ loaded.dirty = {} ∧
      (∀ token, loaded.files.lookup token = host.files.lookup token) ∧
      ∀ id, Option.Rel (GroupState.ReadAs fun key ↦ db.groupInvites.lookup (id, key))
        (host.groups.lookup id) (loaded.groups.lookup id) := by
  obtain ⟨stream, hstream, hrows⟩ := lookup_loadedStream hstored
  refine ⟨_, by unfold Database.loadGroups; rw [hstream]; rfl, rfl, hstored.files, fun id ↦ ?_⟩
  dsimp only
  rw [FiniteMap.lookup_filterMap, hstored.groups]
  cases hg : host.groups.lookup id with
  | none => exact .none
  | some g =>
    have hmember {V : Type} (rowsOf : GroupState → FiniteMap Key V) (key : Key) :
        host.memberRow rowsOf id key = (rowsOf g).lookup key := by
      rw [GroupHost.memberRow, hg]
      rfl
    refine .some ⟨rfl, rfl, rfl, ?_, fun key ↦ ?_, fun key ↦ ?_, fun key ↦ ?_⟩
    · refine FiniteMap.filterMap_sortedKeys (hvalid.sorted id g hg) fun seq ↦ ?_
      rw [FiniteMap.lookup_slice, hrows, GroupHost.streamRow, hg]
      rfl
    · dsimp only
      rw [FiniteMap.lookup_filterMap, FiniteMap.lookup_slice, hstored.creds, hmember]
      cases g.creds.lookup key with
      | none => rfl
      | some record => exact congrArg some (loadCred_credRow record)
    · exact FiniteMap.lookup_slice _ _ _
    · exact (FiniteMap.lookup_slice _ _ _).trans ((hstored.pending id key).trans (hmember _ key))

/-- With the invites stored as well, the groups read back are those of memory. -/
theorem loadGroups_eq_ok (hvalid : host.Valid) (hstored : GroupStored host db) :
    ∃ loaded, db.loadGroups = .ok loaded ∧ host.SameDurable loaded ∧ loaded.dirty = {} := by
  obtain ⟨loaded, hload, hdirty, hfiles, hgroups⟩ := loadTables_eq_ok hvalid hstored.toTablesStored
  refine ⟨loaded, hload, ⟨fun id ↦ ?_, hfiles⟩, hdirty⟩
  have hgroup := hgroups id
  generalize hold : host.groups.lookup id = old at hgroup ⊢
  generalize loaded.groups.lookup id = new at hgroup ⊢
  cases hgroup with
  | none => exact .none
  | @some g g' hread =>
    refine .some ⟨hread.nextSeq, hread.bytes, hread.creator, hread.stream, hread.creds,
      fun key ↦ ?_, hread.pending⟩
    rw [hread.invites, hstored.invites, GroupHost.memberRow, hold]
    rfl

end NemoMessenger.Server
