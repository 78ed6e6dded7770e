import Mathlib.Data.List.Induction
import NemoMessenger.Server.GroupAppend
import NemoMessenger.Server.Restart

/-!
# Rows that the host frames

Four types of rows are framed for the host, which checks each of them before it is appended. Every
such row, in memory or read back from the database, has passed the check of its type in the state in
which it was appended, as long as no member sends a revocation statement and no reservation is left
without its file slot.
-/

namespace NemoMessenger.Server

open NemoMessenger.Data NemoMessenger.Wire

/-! ## Streams -/

namespace GroupHost

/-- The stream of a group. -/
def streamOf (host : GroupHost) (id : GroupId) : Option (List StreamRow) :=
  (host.groups.lookup id).map GroupState.stream

/-- Both hosts have the same streams. -/
def SameStreams (host host' : GroupHost) : Prop := ∀ id, host'.streamOf id = host.streamOf id

variable {crypto : Crypto} {host host' host'' : GroupHost} {groupId : GroupId}

theorem SameStreams.refl (host : GroupHost) : host.SameStreams host := fun _ ↦ rfl

theorem SameStreams.of_groups (h : host'.groups = host.groups) : host.SameStreams host' := by
  intro id
  rw [streamOf, streamOf, h]

theorem SameStreams.trans (h : host.SameStreams host') (h' : host'.SameStreams host'') :
    host.SameStreams host'' := fun id ↦ (h' id).trans (h id)

/-- A group is replaced by one with the same stream. -/
theorem sameStreams_insert {g g' : GroupState} (hg : host.groups.lookup groupId = some g)
    (hgroups : host'.groups = host.groups.insert groupId g') (hstream : g'.stream = g.stream) :
    host.SameStreams host' := by
  intro id
  rw [streamOf, hgroups, FiniteMap.lookup_insert_ite]
  split_ifs with hid
  · rw [hid, streamOf, hg]
    exact congrArg some hstream
  · rfl

theorem sameStreams_modifyCred (host : GroupHost) (groupId : GroupId) (credentialId : Key)
    (update : CredRecord → CredRecord) :
    host.SameStreams (host.modifyCred groupId credentialId update) := by
  unfold modifyCred
  split
  · exact .refl _
  · rename_i g hg
    split
    · exact .refl _
    · exact sameStreams_insert hg rfl rfl

theorem sameStreams_storeInvite (host : GroupHost) (groupId : GroupId) (cred : MemberCred)
    (invite : GroupInvite) :
    host.SameStreams (host.storeInvite crypto groupId cred invite).2 := by
  unfold storeInvite
  split
  · exact .refl _
  · split_ifs
    · exact .refl _
    · split
      · exact .refl _
      · split
        · exact .refl _
        · split
          · exact .refl _
          · rename_i g hg
            exact sameStreams_insert hg rfl rfl

theorem sameStreams_accept (host : GroupHost) (groupId : GroupId) (nonce : Key) (cred : MemberCred)
    (pendingId : Key) :
    host.SameStreams (host.accept crypto groupId nonce cred pendingId).2 := by
  unfold accept
  split
  · exact .refl _
  · rename_i g hg
    split
    · exact .refl _
    · dsimp only
      split_ifs
      · exact sameStreams_insert hg rfl rfl
      · exact sameStreams_insert hg rfl rfl

theorem sameStreams_gcPending (host : GroupHost) (groupId : GroupId) :
    host.SameStreams (host.gcPending groupId) := by
  unfold gcPending
  split
  · exact .refl _
  · rename_i g hg
    exact sameStreams_insert hg rfl rfl

theorem sameStreams_admitPending (host : GroupHost) (groupId : GroupId)
    (pendingId joinerSigningPk : Key) (fanout : FanoutTarget) :
    host.SameStreams (host.admitPending groupId pendingId joinerSigningPk fanout).2 := by
  unfold admitPending
  split
  · exact .refl _
  · rename_i g hg
    split
    · exact .refl _
    · rename_i reserved hreserved
      dsimp only
      split_ifs
      · exact sameStreams_insert hg rfl rfl
      · split
        · exact sameStreams_insert hg rfl rfl
        · intro id
          rw [streamOf, markCred, putGroup, putGroup, FiniteMap.lookup_insert_ite,
            FiniteMap.lookup_insert_ite]
          split_ifs with hid
          · rw [hid, streamOf, hg]
            rfl
          · rfl

theorem sameStreams_admitJoiner (host : GroupHost) (groupId : GroupId) (admitter : MemberCred)
    (admission : GroupAdmit) (joinerSigningPk : Key) (fanout : FanoutTarget) :
    host.SameStreams
      (host.admitJoiner crypto groupId admitter admission joinerSigningPk fanout).2 := by
  unfold admitJoiner
  split
  · exact .refl _
  · split_ifs
    · exact .refl _
    · split
      · exact .refl _
      · split
        · exact .refl _
        · have hmarked : host.SameStreams
            (((host.gcPending groupId).markInvites groupId).markPending groupId) :=
            (sameStreams_gcPending host groupId).trans (.of_groups rfl)
          exact hmarked.trans (sameStreams_admitPending _ _ _ _ _)

theorem sameStreams_refreshFanout (host : GroupHost) (groupId : GroupId) (cred : MemberCred)
    (fanout : FanoutTarget) :
    host.SameStreams (host.refreshFanout crypto groupId cred fanout).2 := by
  unfold refreshFanout
  split
  · exact .refl _
  · exact (sameStreams_modifyCred _ _ _ _).trans (.of_groups rfl)

theorem sameStreams_uploadFile (host : GroupHost) (groupId : GroupId) (cred : MemberCred)
    (fetchToken : Key) (body : Bytes) :
    host.SameStreams (host.uploadFile crypto groupId cred fetchToken body).2 := by
  unfold uploadFile
  split
  · exact .refl _
  · split
    · exact .refl _
    · split_ifs
      · exact .refl _
      · exact .refl _
      · exact .of_groups rfl

theorem sameStreams_readied (host : GroupHost) (groupId : GroupId) (cred : MemberCred)
    (body : Bytes) (type : MessageType) : host.SameStreams (host.readied groupId cred body type) := by
  cases type with
  | signingKeyReplace =>
    dsimp only [readied]
    split
    · exact .refl _
    · exact (sameStreams_modifyCred _ _ _ _).trans (.of_groups rfl)
  | _ => exact .refl _

theorem sameStreams_settled (host : GroupHost) (now : ℕ) (groupId : GroupId) (cred : MemberCred)
    (body : Bytes) (type : MessageType) :
    host.SameStreams (host.settled now groupId cred body type) := by
  cases type with
  | removeBundle =>
    dsimp only [settled]
    split
    · exact .refl _
    · exact (sameStreams_modifyCred _ _ _ _).trans (.of_groups rfl)
  | attachmentReserve =>
    dsimp only [settled]
    split
    · exact .refl _
    · exact .of_groups rfl
  | _ => exact .refl _

/-- The row is the last one of the stream, and was not there before. -/
def Gains (host host' : GroupHost) (groupId : GroupId) (row : StreamRow) : Prop :=
  ∃ rows, host.streamOf groupId = some rows ∧ host'.streamOf groupId = some (rows ++ [row]) ∧
    ∀ id ≠ groupId, host'.streamOf id = host.streamOf id

theorem gains_pushRow {g : GroupState} (hg : host.groups.lookup groupId = some g)
    (type : MessageType) (body : Bytes) :
    host.Gains (host.pushRow groupId g type body) groupId
      { seq := g.nextSeq, type, body, receivedAt := host.now } := by
  refine ⟨g.stream, ?_, ?_, fun id hid ↦ ?_⟩
  · rw [streamOf, hg]
    rfl
  · rw [streamOf, pushRow, AList.lookup_insert]
    rfl
  · rw [streamOf, pushRow, FiniteMap.lookup_insert_ite, if_neg hid, streamOf]

theorem Gains.of_same {before after : GroupHost} {row : StreamRow}
    (h : host.Gains host' groupId row) (hbefore : before.SameStreams host)
    (hafter : host'.SameStreams after) : before.Gains after groupId row := by
  obtain ⟨rows, hold, hnew, hothers⟩ := h
  refine ⟨rows, (hbefore groupId).symm.trans hold, (hafter groupId).trans hnew, fun id hid ↦ ?_⟩
  exact (hafter id).trans ((hothers id hid).trans (hbefore id))

/-! ## What an append adds -/

/-- `fanout_copy` adds its row, whether or not the copies can be sealed, or nothing. -/
theorem fanoutCopy_gains {g : GroupState} (hg : host.groups.lookup groupId = some g)
    (type : MessageType) (body : Bytes) (draws : ℕ → Key × Key) :
    (host.fanoutCopy crypto groupId type body draws).2 = host ∨
      saturatingAdd g.bytes body.length ≤ streamMaxBytes ∧
        (host.fanoutCopy crypto groupId type body draws).2 = host.pushRow groupId g type body := by
  rw [fanoutCopy_of_group crypto hg]
  split_ifs with hfull
  · exact .inl rfl
  · refine .inr ⟨Nat.not_lt.mp hfull, ?_⟩
    split <;> rfl

theorem streams_appendHostRevocation (host : GroupHost) (groupId : GroupId)
    (stmt : RevocationStatement) (draws : ℕ → Key × Key) :
    host.SameStreams (host.appendHostRevocation crypto groupId stmt draws).2 ∨
      ∃ seq receivedAt, host.Gains (host.appendHostRevocation crypto groupId stmt draws).2 groupId
        { seq, type := .revocationStatement, body := stmt.encode, receivedAt } := by
  unfold appendHostRevocation
  cases hg : host.groups.lookup groupId with
  | none => exact .inl (.refl _)
  | some g =>
    rw [if_neg (by simp)]
    rcases fanoutCopy_gains hg .revocationStatement stmt.encode draws with hsame | ⟨-, hpush⟩
    · rw [hsame]
      exact .inl (.refl _)
    · rw [hpush]
      exact .inr ⟨_, _, gains_pushRow hg _ _⟩

/-- The group as `append` hands it to `fanout_copy`. -/
theorem exists_readied {cred : MemberCred} {type : MessageType} {body : Bytes}
    (hpass : host.ChecksPass crypto groupId cred body type) {g : GroupState}
    (hg : host.groups.lookup groupId = some g) :
    ∃ g', (host.readied groupId cred body type).groups.lookup groupId = some g' ∧
      g'.bytes = g.bytes := by
  rcases readied_group hpass hg with ⟨-, hsame⟩ | ⟨replace, record, -, -, -, hready⟩
  · rw [hsame]
    exact ⟨g, hg, rfl⟩
  · rw [hready]
    exact ⟨_, AList.lookup_insert _, rfl⟩

/-- Only a body that has passed its check gets into a stream, below the cap of the stream. -/
theorem streams_append (host : GroupHost) (groupId : GroupId) (cred : MemberCred)
    (type : MessageType) (body : Bytes) (draws : ℕ → Key × Key) :
    host.SameStreams (host.append crypto groupId cred type body draws).2 ∨
      host.authorizeLive crypto groupId cred = .ok () ∧
      host.ChecksPass crypto groupId cred body type ∧
      (∃ g, host.groups.lookup groupId = some g ∧
        saturatingAdd g.bytes body.length ≤ streamMaxBytes) ∧
      ∃ seq receivedAt, host.Gains (host.append crypto groupId cred type body draws).2 groupId
        { seq, type, body, receivedAt } := by
  by_cases h : host.authorizeLive crypto groupId cred = .ok () ∧
      host.ChecksPass crypto groupId cred body type
  · obtain ⟨hlive, hpass⟩ := h
    obtain ⟨g, hg⟩ := exists_group_of_authorizeLive crypto hlive
    obtain ⟨g', hg', hbytes⟩ := exists_readied hpass hg
    have hready := sameStreams_readied host groupId cred body type
    have hlast : (host.append crypto groupId cred type body draws).2 =
          ((host.readied groupId cred body type).fanoutCopy crypto groupId type body draws).2 ∨
        (host.append crypto groupId cred type body draws).2 =
          ((host.readied groupId cred body type).fanoutCopy crypto groupId type body
            draws).2.settled host.now groupId cred body type := by
      rw [append_passed draws hlive hpass]
      rcases (host.readied groupId cred body type).fanoutCopy crypto groupId type body draws with
        ⟨_ | _, after⟩
      · exact .inl rfl
      · exact .inr rfl
    have hsettle : ((host.readied groupId cred body type).fanoutCopy crypto groupId type body
        draws).2.SameStreams (host.append crypto groupId cred type body draws).2 := by
      rcases hlast with heq | heq
      · rw [heq]
        exact .refl _
      · rw [heq]
        exact sameStreams_settled _ _ _ _ _ _
    rcases fanoutCopy_gains hg' type body draws with hsame | ⟨hfits, hpush⟩
    · rw [hsame] at hsettle
      exact .inl (hready.trans hsettle)
    · rw [hpush] at hsettle
      rw [hbytes] at hfits
      exact .inr ⟨hlive, hpass, ⟨g, hg, hfits⟩, _, _,
        (gains_pushRow hg' type body).of_same hready hsettle⟩
  · obtain ⟨e, he⟩ := append_refused draws fun hlive hpass ↦ h ⟨hlive, hpass⟩
    rw [he]
    exact .inl (.refl _)

/-- A reservation whose copies can be sealed makes its file slot. -/
theorem files_append_reserve {cred : MemberCred} {body : Bytes} {draws : ℕ → Key × Key}
    {g : GroupState} {outers : List OuterEnvelope}
    (hlive : host.authorizeLive crypto groupId cred = .ok ())
    (hpass : host.ChecksPass crypto groupId cred body .attachmentReserve)
    (hg : host.groups.lookup groupId = some g)
    (hfits : saturatingAdd g.bytes body.length ≤ streamMaxBytes)
    (hseals : sealCopies crypto g .attachmentReserve body draws = .ok outers) :
    ∃ reserve slot, AttachmentReserve.decode body = .ok reserve ∧
      host.files.lookup reserve.fetchToken = none ∧ slot.groupId = groupId ∧
      slot.owner = cred.credentialId ∧
      (host.append crypto groupId cred .attachmentReserve body draws).2.files =
        host.files.insert reserve.fetchToken slot := by
  obtain ⟨reserve, hreserve, hfree, -⟩ := id hpass
  rw [append_passed draws hlive hpass]
  dsimp only [readied]
  rw [fanoutCopy_of_group crypto hg, if_neg (Nat.not_lt.mpr hfits), hseals]
  dsimp only [settled]
  rw [hreserve]
  exact ⟨reserve, _, rfl, hfree, rfl, rfl, rfl⟩

end GroupHost

/-! ## What an operation adds -/

/-- The operation adds the row to the stream of the group, for a member or for the host. -/
inductive GroupOp.Adds (crypto : Crypto) (host : GroupHost) : GroupOp → GroupId → StreamRow → Prop
  | append {groupId : GroupId} {cred : MemberCred} {type : MessageType} {body : Bytes}
    {draws : ℕ → Key × Key} {g : GroupState} (seq receivedAt : ℕ)
    (hlive : host.authorizeLive crypto groupId cred = .ok ())
    (hpass : host.ChecksPass crypto groupId cred body type)
    (hg : host.groups.lookup groupId = some g)
    (hfits : saturatingAdd g.bytes body.length ≤ streamMaxBytes) :
    Adds crypto host (.append groupId cred type body draws) groupId { seq, type, body, receivedAt }
  | revocation {groupId : GroupId} {stmt : RevocationStatement} {draws : ℕ → Key × Key}
    (seq receivedAt : ℕ) :
    Adds crypto host (.appendHostRevocation groupId stmt draws) groupId
      { seq, type := .revocationStatement, body := stmt.encode, receivedAt }

/-- The host has a new group, with an empty stream. -/
def GroupHost.Founds (host host' : GroupHost) : Prop :=
  ∃ groupId, host'.streamOf groupId = some [] ∧
    ∀ id ≠ groupId, host'.streamOf id = host.streamOf id

/-- What an operation does to the streams: nothing, a new one, or one row more. -/
theorem GroupOp.streams (crypto : Crypto) (host : GroupHost) (op : GroupOp) :
    host.SameStreams (op.apply crypto host) ∨ host.Founds (op.apply crypto host) ∨
      ∃ groupId row, op.Adds crypto host groupId row ∧
        host.Gains (op.apply crypto host) groupId row := by
  cases op with
  | setNow now => exact .inl (.of_groups rfl)
  | createGroupFor signingPk fanout creator groupId cred =>
    by_cases howned : (creator.isSome && decide ((FiniteMap.retain
        (fun _ g ↦ decide (g.creator = creator)) host.groups).entries.length ≥
          groupsPerOwner)) = true
    · refine .inl ?_
      dsimp only [GroupOp.apply, GroupHost.createGroupFor]
      rw [if_pos howned]
      exact .refl _
    · refine .inr (.inl ⟨groupId, ?_, fun id hid ↦ ?_⟩)
      · dsimp only [GroupOp.apply, GroupHost.createGroupFor]
        rw [if_neg howned, GroupHost.streamOf, AList.lookup_insert]
        rfl
      · dsimp only [GroupOp.apply, GroupHost.createGroupFor]
        rw [if_neg howned, GroupHost.streamOf, FiniteMap.lookup_insert_ite, if_neg hid]
        rfl
  | storeInvite groupId cred invite => exact .inl (host.sameStreams_storeInvite groupId cred invite)
  | accept groupId nonce cred pendingId =>
    exact .inl (host.sameStreams_accept groupId nonce cred pendingId)
  | admitJoiner groupId admitter admission joinerSigningPk fanout =>
    exact .inl (host.sameStreams_admitJoiner groupId admitter admission joinerSigningPk fanout)
  | refreshFanout groupId cred fanout =>
    exact .inl (host.sameStreams_refreshFanout groupId cred fanout)
  | uploadFile groupId cred fetchToken body =>
    exact .inl (host.sameStreams_uploadFile groupId cred fetchToken body)
  | append groupId cred type body draws =>
    rcases host.streams_append groupId cred type body draws with
      hsame | ⟨hlive, hpass, ⟨g, hg, hfits⟩, seq, receivedAt, hgains⟩
    · exact .inl hsame
    · exact .inr (.inr ⟨groupId, _, .append seq receivedAt hlive hpass hg hfits, hgains⟩)
  | appendHostRevocation groupId stmt draws =>
    rcases host.streams_appendHostRevocation groupId stmt draws with
      hsame | ⟨seq, receivedAt, hgains⟩
    · exact .inl hsame
    · exact .inr (.inr ⟨groupId, _, .revocation seq receivedAt, hgains⟩)

/-- A row of a stream was there before, or the operation adds it. -/
theorem GroupOp.mem_or_adds {crypto : Crypto} {host : GroupHost} {op : GroupOp} {id : GroupId}
    {rows : List StreamRow} {row : StreamRow}
    (hrows : (op.apply crypto host).streamOf id = some rows) (hrow : row ∈ rows) :
    (∃ rows', host.streamOf id = some rows' ∧ row ∈ rows') ∨
      op.Adds crypto host id row ∧ host.Gains (op.apply crypto host) id row := by
  rcases op.streams crypto host with
    hsame | ⟨groupId, hnew, hothers⟩ | ⟨groupId, last, hadds, hgains⟩
  · exact .inl ⟨rows, (hsame id).symm.trans hrows, hrow⟩
  · by_cases hid : id = groupId
    · rw [hid, hnew] at hrows
      cases hrows
      cases hrow
    · exact .inl ⟨rows, (hothers id hid).symm.trans hrows, hrow⟩
  · have hgained := hgains
    obtain ⟨rows', hold, hnew, hothers⟩ := hgained
    by_cases hid : id = groupId
    · subst hid
      rw [hnew] at hrows
      cases hrows
      rcases List.mem_append.mp hrow with hearlier | hlast
      · exact .inl ⟨rows', hold, hearlier⟩
      · rw [List.mem_singleton.mp hlast]
        exact .inr ⟨hadds, hgains⟩
    · exact .inl ⟨rows, (hothers id hid).symm.trans hrows, hrow⟩

/-! ## Rows of a node -/

/-- The row is in the stream of the group, in memory or in the database. -/
def Node.Holds (node : Node) (id : GroupId) (row : StreamRow) : Prop :=
  (∃ rows, node.host.streamOf id = some rows ∧ row ∈ rows) ∨
    node.db.groupStream.lookup (id, row.seq) = some (streamRecord row)

section Node

variable {crypto : Crypto} {node : Node} {id : GroupId} {row : StreamRow}

theorem streamRecord_of_load {key : GroupId × ℕ} {record : StreamRecord} {row : StreamRow}
    (h : loadStreamRow key record = .ok row) : row.seq = key.2 ∧ streamRecord row = record := by
  unfold loadStreamRow at h
  split at h
  · cases h
  · rename_i type htype
    cases h
    refine ⟨rfl, ?_⟩
    rw [streamRecord, MessageType.toU8_of_fromU8 htype]

/-- What a transaction leaves in the stream table was there or is in memory. -/
theorem groupStream_of_persistInner {home : HomeServer} {host : GroupHost} {hd : HomeDirty}
    {gd : GroupDirty} {db db' : Database} (h : Database.persistInner home host hd gd db = .ok db')
    {key : GroupId × ℕ} {record : StreamRecord}
    (hrecord : db'.groupStream.lookup key = some record) :
    db.groupStream.lookup key = some record ∨
      ∃ rows row, host.streamOf key.1 = some rows ∧ row ∈ rows ∧ row.seq = key.2 ∧
        streamRecord row = record := by
  unfold Database.persistInner at h
  obtain ⟨mid, hhome, h⟩ := bind_eq_ok.mp h
  have hmid : mid.groupStream = db.groupStream := by
    unfold Database.persistHome at hhome
    obtain ⟨mailboxRows, -, hhome⟩ := bind_eq_ok.mp hhome
    obtain ⟨tokens, -, hhome⟩ := bind_eq_ok.mp hhome
    obtain ⟨prekeys, -, hhome⟩ := bind_eq_ok.mp hhome
    obtain ⟨memberships, -, hhome⟩ := bind_eq_ok.mp hhome
    obtain ⟨hpkeSeen, -, hhome⟩ := bind_eq_ok.mp hhome
    cases hhome
    rfl
  unfold Database.persistGroups at h
  obtain ⟨groupCreds, -, h⟩ := bind_eq_ok.mp h
  obtain ⟨groupInvites, -, h⟩ := bind_eq_ok.mp h
  obtain ⟨groupPending, -, h⟩ := bind_eq_ok.mp h
  obtain ⟨groupStream, hstream, h⟩ := bind_eq_ok.mp h
  obtain ⟨groupFiles, -, h⟩ := bind_eq_ok.mp h
  cases h
  rw [← hmid]
  rcases FiniteMap.lookup_of_insertAll hstream hrecord with hold | hnew
  · exact .inl hold
  · obtain ⟨key', -, hlive⟩ := List.mem_filterMap.mp hnew
    obtain ⟨row, hrow, heq⟩ := Option.map_eq_some_iff.mp hlive
    obtain ⟨g, hg, hfind⟩ := Option.bind_eq_some_iff.mp hrow
    rw [Prod.mk.injEq] at heq
    obtain ⟨rfl, hsame⟩ := heq
    refine .inr ⟨g.stream, row, ?_, List.mem_of_find?_eq_some hfind, rfl, hsame⟩
    rw [GroupHost.streamOf, hg]
    rfl

theorem streamRow_eq {row row' : StreamRow} (hseq : row'.seq = row.seq)
    (h : streamRecord row' = streamRecord row) : row' = row := by
  obtain ⟨seq, type, body, receivedAt⟩ := row
  obtain ⟨seq', type', body', receivedAt'⟩ := row'
  simp only [streamRecord, StreamRecord.mk.injEq] at h
  obtain ⟨htype, rfl, rfl⟩ := h
  have hsame : (.ok type' : Except WireError MessageType) = .ok type := by
    rw [← MessageType.fromU8_toU8, htype, MessageType.fromU8_toU8]
  cases hsame
  cases hseq
  rfl

theorem holds_of_persist {fault : Bool} (h : (node.persist fault).2.Holds id row) :
    node.Holds id row := by
  unfold Node.persist Server.persist at h
  split_ifs at h
  · exact h
  · exact h
  · dsimp only at h
    split at h
    · exact h
    · rename_i db hdb
      rcases h with hmemory | hstored
      · exact .inl hmemory
      · rcases groupStream_of_persistInner hdb hstored with
          hold | ⟨rows, row', hrows, hmem, hseq, hrow⟩
        · exact .inr hold
        · rw [← streamRow_eq hseq hrow]
          exact .inl ⟨rows, hrows, hmem⟩

theorem loadGroups_of_loadKeys {db : Database} {keys : HpkeKeypair × Key} {home : HomeServer}
    {host : GroupHost} (h : db.loadKeys crypto (some keys) = .ok (some (home, host))) :
    db.loadGroups = .ok host := by
  unfold Database.loadKeys at h
  split at h
  · cases h
  · dsimp only at h
    split_ifs at h
    · cases h
    · obtain ⟨keys, -, h⟩ := bind_eq_ok.mp h
      obtain ⟨home', -, h⟩ := bind_eq_ok.mp h
      obtain ⟨host', hhost, h⟩ := bind_eq_ok.mp h
      cases h
      exact hhost

/-- A stream that is read back has rows of the table only. -/
theorem holds_of_reload (h : (node.reload crypto).Holds id row) : node.Holds id row := by
  unfold Node.reload at h
  split at h
  · rename_i home host hload
    rcases h with ⟨rows, hrows, hmem⟩ | hstored
    · have hhost := loadGroups_of_loadKeys hload
      unfold Database.loadGroups at hhost
      obtain ⟨stream, hstream, hhost⟩ := bind_eq_ok.mp hhost
      cases hhost
      obtain ⟨g, hg, rfl⟩ := Option.map_eq_some_iff.mp hrows
      rw [FiniteMap.lookup_filterMap] at hg
      obtain ⟨group, -, hg⟩ := Option.bind_eq_some_iff.mp hg
      cases hg
      obtain ⟨seq, -, hrow⟩ := List.mem_filterMap.mp hmem
      rw [FiniteMap.lookup_slice, FiniteMap.lookup_of_traverse hstream] at hrow
      obtain ⟨record, hrecord, hrow⟩ := Option.bind_eq_some_iff.mp hrow
      cases hloaded : loadStreamRow (id, seq) record with
      | error e =>
        rw [hloaded] at hrow
        cases hrow
      | ok row' =>
        rw [hloaded] at hrow
        cases hrow
        obtain ⟨hseq, hsame⟩ := streamRecord_of_load hloaded
        refine .inr ?_
        rw [hseq, hsame]
        exact hrecord
    · exact .inr hstored
  · exact h

/-- A row is held already, or the operation is one of the group host that adds it. -/
theorem holds_or_adds {op : NodeOp} (h : (op.apply crypto node).Holds id row) :
    node.Holds id row ∨ ∃ gop, op = .group gop ∧ gop.Adds crypto node.host id row ∧
      node.host.Gains (gop.apply crypto node.host) id row := by
  cases op with
  | home hop => exact .inl h
  | persist fault => exact .inl (holds_of_persist h)
  | reload => exact .inl (holds_of_reload h)
  | group gop =>
    rcases h with ⟨rows, hrows, hmem⟩ | hstored
    · rcases GroupOp.mem_or_adds hrows hmem with hold | hadds
      · exact .inl (.inl hold)
      · exact .inr ⟨gop, rfl, hadds⟩
    · exact .inl (.inr hstored)

end Node

/-! ## Revocations that are handled -/

/-- A node with the statements its home server has verified, each with a group it is for. -/
structure Hosting where
  node : Node
  verified : List (GroupId × RevocationStatement)

/-- What `ingest_revocation` answers to `revocation`. -/
def NodeOp.verified (crypto : Crypto) (node : Node) : NodeOp → List (GroupId × RevocationStatement)
  | home (.ingestRevocation stmt) =>
    match (node.home.ingestRevocation crypto stmt).1 with
    | .ok ids => ids.map fun id ↦ (id, stmt)
    | .error _ => []
  | _ => []

/-- One operation of the node. -/
def Hosting.apply (crypto : Crypto) (s : Hosting) (op : NodeOp) : Hosting where
  node := op.apply crypto s.node
  verified := s.verified ++ op.verified crypto s.node

/-- A node before its first operation. -/
def Hosting.first (crypto : Crypto) (hpke : HpkeKeypair) (sign : Key) (host : Text)
    (s2sPort : UInt16) : Hosting := ⟨.first crypto hpke sign host s2sPort, []⟩

/-- `revocation` is the only caller of `append_host_revocation`, for the groups `ingest_revocation`
has answered. -/
def NodeOp.Handled (s : Hosting) : NodeOp → Prop
  | group (.appendHostRevocation id stmt _) => (id, stmt) ∈ s.verified
  | _ => True

/-- No member gets a revocation statement into a stream, and a reservation that gets there has its
copies sealed. -/
def NodeOp.Guarded (crypto : Crypto) (s : Hosting) : NodeOp → Prop
  | group (.append id cred type body draws) => s.node.host.authorizeLive crypto id cred = .ok () →
      s.node.host.ChecksPass crypto id cred body type → ∀ g, s.node.host.groups.lookup id = some g →
      saturatingAdd g.bytes body.length ≤ streamMaxBytes → type ≠ .revocationStatement ∧
        (type = .attachmentReserve →
          ∃ outers, GroupHost.sealCopies crypto g .attachmentReserve body draws = .ok outers)
  | _ => True

/-! ## Authentic rows -/

/-- The statement is signed by the revocation key the directory has for its identity, which is that
of the identity's own key. -/
def HomeServer.Verifies (crypto : Crypto) (home : HomeServer) (stmt : RevocationStatement) : Prop :=
  ∃ row, home.directory.lookup stmt.identityId = some row ∧
    crypto.isVerifyingKey row.revocationPublicKey = true ∧
    stmt.verify crypto row.revocationPublicKey = .ok () ∧
    stmt.identityId = crypto.identityId row.identityPublicKey

/-- The operations before this one have verified the statement, for the group. -/
def Ingested (crypto : Crypto) (start : Hosting) (before : List NodeOp) (id : GroupId)
    (stmt : RevocationStatement) : Prop :=
  ∃ earlier later, before = earlier ++ .home (.ingestRevocation stmt) :: later ∧
    let home := (run (Hosting.apply crypto) start earlier).node.home
    home.Verifies crypto stmt ∧
      ∃ ids, (home.ingestRevocation crypto stmt).1 = .ok ids ∧ id ∈ ids

/-- The operation makes the row the last one of the group, and it has passed the check of its type
in the state the operation is applied to. -/
def GroupOp.Frames (crypto : Crypto) (start : Hosting) (before : List NodeOp) (op : GroupOp)
    (id : GroupId) (row : StreamRow) : Prop :=
  let host := (run (Hosting.apply crypto) start before).node.host
  host.Gains (op.apply crypto host) id row ∧
    match row.type with
    | .removeBundle => ∃ cred draws bundle pk,
        op = .append id cred .removeBundle row.body draws ∧
        host.authorizeLive crypto id cred = .ok () ∧ RemoveBundle.decode row.body = .ok bundle ∧
        host.memberKey crypto id cred.credentialId = .ok pk ∧
        bundle.verifySidecar crypto pk id.key = .ok ()
    | .signingKeyReplace => ∃ cred draws replace pk,
        op = .append id cred .signingKeyReplace row.body draws ∧
        host.authorizeLive crypto id cred = .ok () ∧
        SigningKeyReplace.decode row.body = .ok replace ∧
        host.memberKey crypto id cred.credentialId = .ok pk ∧ replace.verify crypto pk = .ok ()
    | .attachmentReserve => ∃ cred draws reserve slot,
        op = .append id cred .attachmentReserve row.body draws ∧
        host.authorizeLive crypto id cred = .ok () ∧
        AttachmentReserve.decode row.body = .ok reserve ∧
        host.files.lookup reserve.fetchToken = none ∧ slot.groupId = id ∧
        slot.owner = cred.credentialId ∧
        (op.apply crypto host).files = host.files.insert reserve.fetchToken slot
    | .revocationStatement => ∃ stmt draws, op = .appendHostRevocation id stmt draws ∧
        row.body = stmt.encode ∧ Ingested crypto start before id stmt
    | _ => True

section Authentic

variable {crypto : Crypto} {start : Hosting} {ops : List NodeOp} {id : GroupId} {row : StreamRow}

theorem ingestRevocation_verifies {home : HomeServer} {stmt : RevocationStatement}
    {ids : List GroupId} (h : (home.ingestRevocation crypto stmt).1 = .ok ids) :
    home.Verifies crypto stmt := by
  unfold HomeServer.ingestRevocation at h
  split at h
  · cases h
  · rename_i row hrow
    split at h
    · cases h
    · rename_i hkey
      split at h
      · cases h
      · rename_i hverify
        split at h
        · cases h
        · rename_i hidentity
          exact ⟨row, hrow, by simpa using hkey, hverify, not_not.mp hidentity⟩

/-- What is verified later does not matter. -/
theorem Ingested.append {before : List NodeOp} {stmt : RevocationStatement}
    (h : Ingested crypto start before id stmt) (op : NodeOp) :
    Ingested crypto start (before ++ [op]) id stmt := by
  obtain ⟨earlier, later, rfl, hverified⟩ := h
  exact ⟨earlier, later ++ [op], by simp, hverified⟩

/-- Every statement a run has verified was ingested in it. -/
theorem ingested_of_verified (hstart : start.verified = []) {stmt : RevocationStatement}
    (h : (id, stmt) ∈ (run (Hosting.apply crypto) start ops).verified) :
    Ingested crypto start ops id stmt := by
  induction ops using List.reverseRecOn with
  | nil =>
    rw [run, List.foldl_nil, hstart] at h
    cases h
  | append_singleton ops op ih =>
    rw [run_append_cons] at h
    rcases List.mem_append.mp h with hold | hnew
    · exact (ih hold).append op
    · unfold NodeOp.verified at hnew
      split at hnew
      · rename_i stmt'
        split at hnew
        · rename_i ids hids
          obtain ⟨id', hid', heq⟩ := List.mem_map.mp hnew
          cases heq
          exact ⟨ops, [], rfl, ingestRevocation_verifies hids, ids, hids, hid'⟩
        · cases hnew
      · cases hnew

/-- An operation that adds a row under the guard has checked it. -/
theorem frames_of_adds {gop : GroupOp} (hstart : start.verified = [])
    (hhandled : (NodeOp.group gop).Handled (run (Hosting.apply crypto) start ops))
    (hguarded : (NodeOp.group gop).Guarded crypto (run (Hosting.apply crypto) start ops))
    (hadds : gop.Adds crypto (run (Hosting.apply crypto) start ops).node.host id row)
    (hgains : (run (Hosting.apply crypto) start ops).node.host.Gains
      (gop.apply crypto (run (Hosting.apply crypto) start ops).node.host) id row) :
    gop.Frames crypto start ops id row := by
  refine ⟨hgains, ?_⟩
  cases hadds with
  | revocation seq receivedAt => exact ⟨_, _, rfl, rfl, ingested_of_verified hstart hhandled⟩
  | @append _ cred type body draws g seq receivedAt hlive hpass hg hfits =>
    obtain ⟨hmember, hsealed⟩ := hguarded hlive hpass g hg hfits
    cases type with
    | removeBundle =>
      obtain ⟨bundle, pk, hbundle, hpk, hsidecar⟩ := hpass
      exact ⟨cred, draws, bundle, pk, rfl, hlive, hbundle, hpk, hsidecar⟩
    | signingKeyReplace =>
      obtain ⟨replace, pk, hreplace, hpk, hverify⟩ := hpass
      exact ⟨cred, draws, replace, pk, rfl, hlive, hreplace, hpk, hverify⟩
    | attachmentReserve =>
      obtain ⟨outers, houters⟩ := hsealed rfl
      obtain ⟨reserve, slot, hreserve, hfree, hgroup, howner, hfiles⟩ :=
        GroupHost.files_append_reserve hlive hpass hg hfits houters
      exact ⟨cred, draws, reserve, slot, rfl, hlive, hreserve, hfree, hgroup, howner, hfiles⟩
    | revocationStatement => exact absurd rfl hmember
    | doubleRatchet | attachmentDr | mlsHandshake | mlsApp => trivial

/-- Every row a node comes to hold in a run was added and checked by one of its operations. -/
theorem framed_of_holds (hstart : start.verified = []) (hempty : ∀ id row, ¬start.node.Holds id row)
    (hallowed : Allowed (Hosting.apply crypto) (fun s op ↦ op.Handled s ∧ op.Guarded crypto s) start
      ops) (h : (run (Hosting.apply crypto) start ops).node.Holds id row) :
    ∃ before gop later, ops = before ++ .group gop :: later ∧
      gop.Frames crypto start before id row := by
  induction ops using List.reverseRecOn with
  | nil => exact absurd h (hempty id row)
  | append_singleton ops op ih =>
    obtain ⟨hearlier, hlast⟩ := allowed_append.mp hallowed
    rw [run_append_cons] at h
    rcases holds_or_adds h with hold | ⟨gop, rfl, hadds, hgains⟩
    · obtain ⟨before, gop, later, rfl, hframes⟩ := ih hearlier hold
      exact ⟨before, gop, later ++ [op], by simp, hframes⟩
    · exact ⟨ops, gop, [], rfl, frames_of_adds hstart hlast.1.1 hlast.1.2 hadds hgains⟩

end Authentic

/-- In every group of a node, at any time, each row was appended by an operation that has checked
it, as long as every operation before was guarded. -/
theorem framed_of_run (crypto : Crypto) (hpke : HpkeKeypair) (sign : Key) (host : Text)
    (s2sPort : UInt16) (ops : List NodeOp)
    (hallowed : Allowed (Hosting.apply crypto) (fun s op ↦ op.Handled s ∧ op.Guarded crypto s)
      (.first crypto hpke sign host s2sPort) ops) :
    let start := Hosting.first crypto hpke sign host s2sPort
    ∀ id g row, (run (Hosting.apply crypto) start ops).node.host.groups.lookup id = some g →
      row ∈ g.stream → ∃ before gop later, ops = before ++ .group gop :: later ∧
        gop.Frames crypto start before id row := by
  intro start id g row hg hrow
  refine framed_of_holds rfl (fun id row h ↦ ?_) hallowed (.inl ⟨g.stream, ?_, hrow⟩)
  · rcases h with ⟨rows, hrows, -⟩ | hstored
    · cases hrows
    · cases hstored
  · rw [GroupHost.streamOf, hg]
    rfl

/-- A group of one member, which appends a body of a type. -/
def appendAlone (type : MessageType) (body : Bytes) : List NodeOp :=
  let key : Key := .replicate 32 1
  [.group (.createGroupFor key ⟨key, key⟩ none ⟨key⟩ ⟨key, key⟩),
    .group (.append ⟨key⟩ ⟨key, key⟩ type body fun _ ↦ (key, key))]

/-- The server it is on. -/
def Hosting.local_ : Hosting :=
  .first .transparent ⟨.replicate 32 1, .replicate 32 1⟩ (.replicate 32 1) ⟨"local", Text.local_size⟩ 8443

set_option maxRecDepth 100000 in
theorem framed_of_run_of_reserve :
    let body := AttachmentReserve.encode ⟨.replicate 32 7, .a1, .default⟩
    ∃ before gop later, appendAlone .attachmentReserve body = before ++ .group gop :: later ∧
      gop.Frames .transparent .local_ before ⟨.replicate 32 1⟩
        { seq := 1, type := .attachmentReserve, body, receivedAt := 1700000000 } := by
  intro body
  have hrow : (run (Hosting.apply .transparent) .local_
      (appendAlone .attachmentReserve body)).node.host.streamOf ⟨.replicate 32 1⟩ =
      some [{ seq := 1, type := .attachmentReserve, body, receivedAt := 1700000000 }] := by
    decide +kernel
  obtain ⟨g, hg, hstream⟩ := Option.map_eq_some_iff.mp hrow
  have hseals : Crypto.transparent.SealsByKey fun _ ↦ True :=
    fun _ _ _ _ ↦ ⟨fun _ ↦ trivial, fun _ ↦ ⟨_, rfl⟩⟩
  have hallowed : Allowed (Hosting.apply .transparent)
      (fun s op ↦ op.Handled s ∧ op.Guarded .transparent s) .local_
      (appendAlone .attachmentReserve body) := by
    refine ⟨⟨trivial, trivial⟩, ⟨trivial, fun _ _ g' _ _ ↦ ⟨nofun, fun _ ↦ ?_⟩⟩, trivial⟩
    exact (GroupHost.exists_sealCopies_iff .transparent hseals rfl g' body _).mpr
      fun _ _ ↦ ⟨by decide +kernel, trivial⟩
  refine framed_of_run .transparent _ _ _ _ _ hallowed _ g _ hg ?_
  rw [hstream]
  exact List.mem_singleton_self _

set_option maxRecDepth 100000 in
/-- A member appends a revocation statement that nobody has signed. -/
theorem member_revocation_not_framed :
    let ops := appendAlone .revocationStatement []
    Allowed (Hosting.apply .transparent) (fun s op ↦ op.Handled s) .local_ ops ∧
      ∃ g row, (run (Hosting.apply .transparent) .local_ ops).node.host.groups.lookup
          ⟨.replicate 32 1⟩ = some g ∧
        row ∈ g.stream ∧ row.type = .revocationStatement ∧
        ¬∃ before gop later, ops = before ++ .group gop :: later ∧
          gop.Frames .transparent .local_ before ⟨.replicate 32 1⟩ row := by
  intro ops
  have hrow : (run (Hosting.apply .transparent) .local_ ops).node.host.streamOf ⟨.replicate 32 1⟩ =
      some [{ seq := 1, type := .revocationStatement, body := [], receivedAt := 1700000000 }] := by
    decide +kernel
  obtain ⟨g, hg, hstream⟩ := Option.map_eq_some_iff.mp hrow
  have hmem := List.mem_singleton_self
    ({ seq := 1, type := .revocationStatement, body := [], receivedAt := 1700000000 } : StreamRow)
  rw [← hstream] at hmem
  refine ⟨⟨trivial, trivial, trivial⟩, g, _, hg, hmem, rfl, ?_⟩
  rintro ⟨before, gop, later, heq, -, stmt, draws, rfl, -⟩
  have hmem : NodeOp.group (.appendHostRevocation ⟨.replicate 32 1⟩ stmt draws) ∈ ops := by
    rw [heq]
    exact List.mem_append_right _ List.mem_cons_self
  simp [ops, appendAlone] at hmem

end NemoMessenger.Server
