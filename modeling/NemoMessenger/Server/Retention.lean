import NemoMessenger.Server.Files
import NemoMessenger.Server.Framed

/-!
# Group streams over time

A stream is numbered from one without gaps, and its byte counter is the sum of the lengths of its
bodies. Nothing takes a row out of a stream again: what has been appended stays, in its order, and a
group whose stream has no room for a body never has room for it again.
-/

namespace NemoMessenger.Server

open NemoMessenger.Data NemoMessenger.Wire

namespace GroupHost

variable {crypto : Crypto} {host host' host'' : GroupHost} {groupId : GroupId}

/-- The stream of a group with its counters. -/
def countedOf (host : GroupHost) (id : GroupId) : Option (List StreamRow × ℕ × ℕ) :=
  (host.groups.lookup id).map GroupState.counted

/-- Both hosts have the same streams with the same counters. -/
def SameCounts (host host' : GroupHost) : Prop := ∀ id, host'.countedOf id = host.countedOf id

/-- One row is pushed to the stream of a group, under its next number and below its cap. -/
def Pushes (host host' : GroupHost) (groupId : GroupId) (body : Bytes) : Prop :=
  ∃ rows n bytes row, host.countedOf groupId = some (rows, n, bytes) ∧
    bytes + body.length ≤ streamMaxBytes ∧ row.seq = n ∧ row.body = body ∧
    host'.countedOf groupId = some (rows ++ [row], n + 1, bytes + body.length) ∧
    ∀ id ≠ groupId, host'.countedOf id = host.countedOf id

theorem SameCounts.refl (host : GroupHost) : host.SameCounts host := fun _ ↦ rfl

theorem SameCounts.of_groups (h : host'.groups = host.groups) : host.SameCounts host' := by
  intro id
  rw [countedOf, countedOf, h]

theorem SameCounts.trans (h : host.SameCounts host') (h' : host'.SameCounts host'') :
    host.SameCounts host'' := fun id ↦ (h' id).trans (h id)

theorem Quiet.sameCounts (h : host.Quiet host') : host.SameCounts host' := h.streams

theorem Pushes.of_same {before after : GroupHost} {body : Bytes}
    (hbefore : before.SameCounts host) (h : host.Pushes host' groupId body)
    (hafter : host'.SameCounts after) : before.Pushes after groupId body := by
  obtain ⟨rows, n, bytes, row, hold, hfits, hseq, hbody, hnew, hothers⟩ := h
  refine ⟨rows, n, bytes, row, (hbefore groupId).symm.trans hold, hfits, hseq, hbody,
    (hafter groupId).trans hnew, fun id hid ↦ ?_⟩
  exact (hafter id).trans ((hothers id hid).trans (hbefore id))

theorem saturatingAdd_le_streamMaxBytes {a b : ℕ} :
    saturatingAdd a b ≤ streamMaxBytes ↔ a + b ≤ streamMaxBytes := by
  have hlt : streamMaxBytes < u64Max := by decide
  rw [saturatingAdd, min_le_iff]
  exact or_iff_left (Nat.not_le.mpr hlt)

theorem pushes_pushRow {g : GroupState} (hg : host.groups.lookup groupId = some g)
    (type : MessageType) {body : Bytes} (hfits : saturatingAdd g.bytes body.length ≤ streamMaxBytes) :
    host.Pushes (host.pushRow groupId g type body) groupId body := by
  have hsum := saturatingAdd_le_streamMaxBytes.mp hfits
  have hexact : saturatingAdd g.bytes body.length = g.bytes + body.length :=
    min_eq_left (hsum.trans (by decide))
  refine ⟨g.stream, g.nextSeq, g.bytes, { seq := g.nextSeq, type, body, receivedAt := host.now }, ?_,
    hsum, rfl, rfl, ?_, fun id hid ↦ ?_⟩
  · rw [countedOf, hg]
    rfl
  · rw [countedOf, pushRow, AList.lookup_insert, hexact]
    rfl
  · rw [countedOf, pushRow, FiniteMap.lookup_insert_ite, if_neg hid, countedOf]

theorem pushes_fanoutCopy (host : GroupHost) (groupId : GroupId) (type : MessageType)
    (body : Bytes) (draws : ℕ → Key × Key) :
    host.SameCounts (host.fanoutCopy crypto groupId type body draws).2 ∧
        (∀ out, (host.fanoutCopy crypto groupId type body draws).1 ≠ .ok out) ∨
      host.Pushes (host.fanoutCopy crypto groupId type body draws).2 groupId body := by
  cases hg : host.groups.lookup groupId with
  | none =>
    unfold fanoutCopy
    rw [hg]
    exact .inl ⟨.refl host, nofun⟩
  | some g =>
    rw [fanoutCopy_of_group crypto hg]
    split_ifs with hfull
    · exact .inl ⟨.refl host, nofun⟩
    · have hpush := pushes_pushRow hg type (Nat.not_lt.mp hfull)
      split <;> exact .inr hpush

theorem sameCounts_readied (host : GroupHost) (groupId : GroupId) (cred : MemberCred) (body : Bytes)
    (type : MessageType) : host.SameCounts (host.readied groupId cred body type) := by
  cases type with
  | signingKeyReplace =>
    dsimp only [readied]
    split
    · exact .refl host
    · exact (quiet_modifyCred _ _ _ _).sameCounts
  | _ => exact .refl host

theorem sameCounts_settled (host : GroupHost) (now : ℕ) (groupId : GroupId) (cred : MemberCred)
    (body : Bytes) (type : MessageType) :
    host.SameCounts (host.settled now groupId cred body type) := by
  cases type with
  | removeBundle =>
    dsimp only [settled]
    split
    · exact .refl host
    · exact (quiet_modifyCred _ _ _ _).sameCounts
  | attachmentReserve =>
    dsimp only [settled]
    split
    · exact .refl host
    · exact .of_groups rfl
  | _ => exact .refl host

theorem pushes_append (host : GroupHost) (groupId : GroupId) (cred : MemberCred)
    (type : MessageType) (body : Bytes) (draws : ℕ → Key × Key) :
    host.SameCounts (host.append crypto groupId cred type body draws).2 ∧
        (∀ out, (host.append crypto groupId cred type body draws).1 ≠ .ok out) ∨
      host.Pushes (host.append crypto groupId cred type body draws).2 groupId body := by
  by_cases h : host.authorizeLive crypto groupId cred = .ok () ∧
      host.ChecksPass crypto groupId cred body type
  · obtain ⟨hlive, hpass⟩ := h
    have hready := host.sameCounts_readied groupId cred body type
    have hcopy := @pushes_fanoutCopy crypto (host.readied groupId cred body type) groupId type body
      draws
    rw [append_passed draws hlive hpass]
    revert hcopy
    rcases (host.readied groupId cred body type).fanoutCopy crypto groupId type body draws with
      ⟨_ | out, after⟩
    · rintro (⟨hsame, -⟩ | hpush)
      · exact .inl ⟨hready.trans hsame, nofun⟩
      · exact .inr (.of_same hready hpush (.refl after))
    · rintro (⟨-, herror⟩ | hpush)
      · exact absurd rfl (herror out)
      · exact .inr (.of_same hready hpush (sameCounts_settled _ _ _ _ _ _))
  · obtain ⟨e, he⟩ := append_refused draws fun hlive hpass ↦ h ⟨hlive, hpass⟩
    rw [he]
    exact .inl ⟨.refl host, nofun⟩

theorem pushes_appendHostRevocation (host : GroupHost) (groupId : GroupId)
    (stmt : RevocationStatement) (draws : ℕ → Key × Key) :
    host.SameCounts (host.appendHostRevocation crypto groupId stmt draws).2 ∧
        (∀ out, (host.appendHostRevocation crypto groupId stmt draws).1 ≠ .ok out) ∨
      host.Pushes (host.appendHostRevocation crypto groupId stmt draws).2 groupId stmt.encode := by
  unfold appendHostRevocation
  split_ifs
  · exact .inl ⟨.refl host, nofun⟩
  · exact host.pushes_fanoutCopy groupId .revocationStatement stmt.encode draws

theorem sameCounts_uploadFile (host : GroupHost) (groupId : GroupId) (cred : MemberCred)
    (fetchToken : Key) (body : Bytes) :
    host.SameCounts (host.uploadFile crypto groupId cred fetchToken body).2 := by
  unfold uploadFile
  split
  · exact .refl host
  · split
    · exact .refl host
    · split_ifs
      · exact .refl host
      · exact .refl host
      · exact .of_groups rfl

end GroupHost

/-! ## One operation -/

/-- All that is promised is that a new group has a fresh number. -/
def GroupPromises.freshly : GroupPromises := ⟨True, False, False⟩

/-- The host has a new group, with an empty stream, and no other group changes its stream. -/
def GroupHost.Starts (host host' : GroupHost) : Prop :=
  ∃ groupId, host.countedOf groupId = none ∧ host'.countedOf groupId = some ([], 1, 0) ∧
    ∀ id ≠ groupId, host'.countedOf id = host.countedOf id

/-- What an operation does to the streams and their counters. -/
theorem GroupOp.counts (crypto : Crypto) (host : GroupHost) (op : GroupOp)
    (hfresh : op.Meets .freshly host) :
    host.SameCounts (op.apply crypto host) ∨ host.Starts (op.apply crypto host) ∨
      ∃ groupId body, host.Pushes (op.apply crypto host) groupId body := by
  cases op with
  | setNow now => exact .inl (.of_groups rfl)
  | createGroupFor signingPk fanout creator groupId cred =>
    have hnone := hfresh trivial
    dsimp only [apply, GroupHost.createGroupFor]
    split_ifs
    · exact .inl (.refl host)
    · refine .inr (.inl ⟨groupId, ?_, ?_, fun id hid ↦ ?_⟩)
      · rw [GroupHost.countedOf, hnone, Option.map_none]
      · rw [GroupHost.countedOf, AList.lookup_insert]
        rfl
      · rw [GroupHost.countedOf, FiniteMap.lookup_insert_ite, if_neg hid, GroupHost.countedOf]
  | storeInvite groupId cred invite =>
    exact .inl (host.quiet_storeInvite groupId cred invite).sameCounts
  | accept groupId nonce cred pendingId =>
    exact .inl (host.quiet_accept groupId nonce cred pendingId).sameCounts
  | admitJoiner groupId admitter admission joinerSigningPk fanout =>
    exact .inl (host.quiet_admitJoiner groupId admitter admission joinerSigningPk fanout).sameCounts
  | refreshFanout groupId cred fanout =>
    exact .inl (host.quiet_refreshFanout groupId cred fanout).sameCounts
  | uploadFile groupId cred fetchToken body =>
    exact .inl (host.sameCounts_uploadFile groupId cred fetchToken body)
  | append groupId cred type body draws =>
    rcases host.pushes_append groupId cred type body draws with ⟨hsame, -⟩ | hpush
    · exact .inl hsame
    · exact .inr (.inr ⟨groupId, body, hpush⟩)
  | appendHostRevocation groupId stmt draws =>
    rcases host.pushes_appendHostRevocation groupId stmt draws with ⟨hsame, -⟩ | hpush
    · exact .inl hsame
    · exact .inr (.inr ⟨groupId, stmt.encode, hpush⟩)

/-! ## Runs -/

/-- The bytes of the bodies of a stream. -/
def bodyBytes (rows : List StreamRow) : ℕ := (rows.map (·.body.length)).sum

/-- The rows are numbered from one, and the counters say how many there are and what they weigh. -/
structure Numbered (counted : List StreamRow × ℕ × ℕ) : Prop where
  seqs : counted.1.map (·.seq) = List.range' 1 counted.1.length
  next : counted.2.1 = counted.1.length + 1
  bytes : counted.2.2 = bodyBytes counted.1
  cap : counted.2.2 ≤ streamMaxBytes

theorem numbered_nil : Numbered ([], 1, 0) := ⟨rfl, rfl, rfl, Nat.zero_le _⟩

theorem Numbered.push {rows : List StreamRow} {n bytes : ℕ} (h : Numbered (rows, n, bytes))
    {row : StreamRow} (hseq : row.seq = n) (hfits : bytes + row.body.length ≤ streamMaxBytes) :
    Numbered (rows ++ [row], n + 1, bytes + row.body.length) where
  seqs := by
    have hnext : n = rows.length + 1 := h.next
    calc
      (rows ++ [row]).map (·.seq) = List.range' 1 rows.length ++ [row.seq] := by
        rw [List.map_append, h.seqs, List.map_singleton]
      _ = List.range' 1 (rows.length + 1) := by
        rw [List.range'_concat, hseq, hnext, Nat.one_mul, Nat.add_comm 1]
      _ = List.range' 1 (rows ++ [row]).length := by
        rw [List.length_append, List.length_singleton]
  next := by
    have hnext : n = rows.length + 1 := h.next
    rw [hnext, List.length_append, List.length_singleton]
  bytes := by
    have hbytes : bytes = bodyBytes rows := h.bytes
    rw [hbytes, bodyBytes, bodyBytes, List.map_append, List.sum_append, List.map_singleton,
      List.sum_singleton]
  cap := hfits

/-- Every stream is numbered, and the stream of the group begins with these rows. -/
structure GroupHost.Extends (groupId : GroupId) (rows : List StreamRow) (host : GroupHost) :
    Prop where
  numbered : ∀ id counted, host.countedOf id = some counted → Numbered counted
  starts : ∃ more n bytes, host.countedOf groupId = some (rows ++ more, n, bytes)

section Run

variable {crypto : Crypto} {host : GroupHost} {op : GroupOp} {groupId : GroupId}
  {rows : List StreamRow}

theorem numbered_apply (hfresh : op.Meets .freshly host)
    (h : ∀ id counted, host.countedOf id = some counted → Numbered counted) (id : GroupId)
    (counted : List StreamRow × ℕ × ℕ) (hid : (op.apply crypto host).countedOf id = some counted) :
    Numbered counted := by
  rcases op.counts crypto host hfresh with
    hsame | ⟨groupId, -, hnew, hothers⟩ |
      ⟨groupId, body, rows, n, bytes, row, hold, hfits, hseq, rfl, hnew, hothers⟩
  · exact h id counted ((hsame id).symm.trans hid)
  · by_cases heq : id = groupId
    · rw [heq, hnew] at hid
      cases hid
      exact numbered_nil
    · exact h id counted ((hothers id heq).symm.trans hid)
  · by_cases heq : id = groupId
    · rw [heq, hnew] at hid
      cases hid
      exact (h groupId _ hold).push hseq hfits
    · exact h id counted ((hothers id heq).symm.trans hid)

theorem extends_apply (hfresh : op.Meets .freshly host) (h : host.Extends groupId rows) :
    (op.apply crypto host).Extends groupId rows := by
  refine ⟨numbered_apply hfresh h.numbered, ?_⟩
  obtain ⟨more, n, bytes, hstart⟩ := h.starts
  rcases op.counts crypto host hfresh with
    hsame | ⟨id, hnone, -, hothers⟩ |
      ⟨id, body, rows', n', bytes', row, hold, -, -, -, hnew, hothers⟩
  · exact ⟨more, n, bytes, (hsame groupId).trans hstart⟩
  · have hne : groupId ≠ id := by
      rintro rfl
      rw [hnone] at hstart
      cases hstart
    exact ⟨more, n, bytes, (hothers groupId hne).trans hstart⟩
  · by_cases heq : groupId = id
    · subst heq
      rw [hstart] at hold
      cases hold
      exact ⟨more ++ [row], _, _, by rw [hnew, List.append_assoc]⟩
    · exact ⟨more, n, bytes, (hothers groupId heq).trans hstart⟩

theorem extends_run {ops later : List GroupOp}
    (hfresh : Allowed (GroupOp.apply crypto) (GroupOp.Meets .freshly) .new (ops ++ later))
    (hrows : (run (GroupOp.apply crypto) .new ops).streamOf groupId = some rows) :
    (run (GroupOp.apply crypto) .new (ops ++ later)).Extends groupId rows := by
  obtain ⟨hops, hlater⟩ := allowed_append.mp hfresh
  have hnumbered := run_invariant
    (fun host : GroupHost ↦ ∀ id counted, host.countedOf id = some counted → Numbered counted)
    (fun _ _ hop hall ↦ numbered_apply hop hall) hops (fun _ _ h ↦ nomatch h)
  obtain ⟨g, hg, rfl⟩ := Option.map_eq_some_iff.mp hrows
  rw [run_append]
  refine run_invariant (GroupHost.Extends groupId g.stream) (fun _ _ ↦ extends_apply) hlater
    ⟨hnumbered, [], g.nextSeq, g.bytes, ?_⟩
  rw [GroupHost.countedOf, hg, List.append_nil]
  rfl

/-- What is in a stream stays in it, with its numbers, its order and its bodies, through every later
operation: rows are only added behind, under the numbers that follow. -/
theorem stream_run (crypto : Crypto) (ops later : List GroupOp)
    (hfresh : Allowed (GroupOp.apply crypto) (GroupOp.Meets .freshly) .new (ops ++ later))
    (groupId : GroupId) (rows : List StreamRow)
    (hrows : (run (GroupOp.apply crypto) .new ops).streamOf groupId = some rows) :
    ∃ more, (run (GroupOp.apply crypto) .new (ops ++ later)).streamOf groupId =
        some (rows ++ more) ∧
      (rows ++ more).map (·.seq) = List.range' 1 (rows ++ more).length ∧
      bodyBytes (rows ++ more) ≤ streamMaxBytes := by
  obtain ⟨hnumbered, more, n, bytes, hcounted⟩ := extends_run hfresh hrows
  have hall := hnumbered groupId _ hcounted
  obtain ⟨g, hg, heq⟩ := Option.map_eq_some_iff.mp hcounted
  refine ⟨more, ?_, hall.seqs, hall.bytes ▸ hall.cap⟩
  rw [GroupHost.streamOf, hg, Option.map_some]
  exact congrArg (fun counted ↦ some counted.1) heq

/-- The row of that reservation. -/
def reservedRow : StreamRow where
  seq := 1
  type := .attachmentReserve
  body := AttachmentReserve.encode ⟨.replicate 32 7, .a1, .default⟩
  receivedAt := 1700000000

set_option maxRecDepth 100000 in
theorem stream_run_reservedAlone :
    ∃ more, (run (GroupOp.apply .transparent) .new
        (reservedAlone ++ [.setNow 1800000000])).streamOf ⟨.replicate 32 1⟩ =
        some ([reservedRow] ++ more) ∧
      ([reservedRow] ++ more).map (·.seq) = List.range' 1 ([reservedRow] ++ more).length ∧
      bodyBytes ([reservedRow] ++ more) ≤ streamMaxBytes :=
  stream_run .transparent reservedAlone [.setNow 1800000000]
    ⟨fun _ ↦ rfl, trivial, False.elim, trivial⟩ ⟨.replicate 32 1⟩ _ (by decide +kernel)

/-- Once a body does not fit into what is left of a stream, no later append of a body as long
succeeds or adds a row, neither for a member nor for the host, however much time passes. -/
theorem refused_for_ever (crypto : Crypto) (ops later : List GroupOp)
    (hfresh : Allowed (GroupOp.apply crypto) (GroupOp.Meets .freshly) .new (ops ++ later))
    (groupId : GroupId) (rows : List StreamRow)
    (hrows : (run (GroupOp.apply crypto) .new ops).streamOf groupId = some rows) (size : ℕ)
    (hfull : streamMaxBytes < bodyBytes rows + size) :
    let host := run (GroupOp.apply crypto) .new (ops ++ later)
    (∀ cred type body draws, size ≤ body.length →
      (∀ out, (host.append crypto groupId cred type body draws).1 ≠ .ok out) ∧
        (host.append crypto groupId cred type body draws).2.countedOf groupId =
          host.countedOf groupId) ∧
      ∀ stmt : RevocationStatement, size ≤ stmt.encode.length → ∀ draws,
        (∀ out, (host.appendHostRevocation crypto groupId stmt draws).1 ≠ .ok out) ∧
          (host.appendHostRevocation crypto groupId stmt draws).2.countedOf groupId =
            host.countedOf groupId := by
  intro host
  obtain ⟨hnumbered, more, n, bytes, hcounted⟩ := extends_run hfresh hrows
  have hbytes : bytes = bodyBytes rows + bodyBytes more := by
    refine (hnumbered groupId _ hcounted).bytes.trans ?_
    rw [bodyBytes, List.map_append, List.sum_append]
    rfl
  have hpushes (after : GroupHost) (body : Bytes) (hsize : size ≤ body.length) :
      ¬host.Pushes after groupId body := by
    rintro ⟨rows', n', bytes', row, hold, hfits, -⟩
    cases hold.symm.trans hcounted
    omega
  constructor
  · intro cred type body draws hsize
    rcases @GroupHost.pushes_append crypto host groupId cred type body draws with
      ⟨hsame, herror⟩ | hpush
    · exact ⟨herror, hsame groupId⟩
    · exact absurd hpush (hpushes _ body hsize)
  · intro stmt hsize draws
    rcases @GroupHost.pushes_appendHostRevocation crypto host groupId stmt draws with
      ⟨hsame, herror⟩ | hpush
    · exact ⟨herror, hsame groupId⟩
    · exact absurd hpush (hpushes _ _ hsize)

set_option maxRecDepth 100000 in
theorem refused_for_ever_reservedAlone :
    let host := run (GroupOp.apply .transparent) .new (reservedAlone ++ [.setNow 1800000000])
    (∀ cred type (body : Bytes) draws, streamMaxBytes ≤ body.length →
      (∀ out, (host.append .transparent ⟨.replicate 32 1⟩ cred type body draws).1 ≠ .ok out) ∧
        (host.append .transparent ⟨.replicate 32 1⟩ cred type body draws).2.countedOf
          ⟨.replicate 32 1⟩ = host.countedOf ⟨.replicate 32 1⟩) ∧
      ∀ stmt : RevocationStatement, streamMaxBytes ≤ stmt.encode.length → ∀ draws,
        (∀ out, (host.appendHostRevocation .transparent ⟨.replicate 32 1⟩ stmt draws).1 ≠ .ok out) ∧
          (host.appendHostRevocation .transparent ⟨.replicate 32 1⟩ stmt draws).2.countedOf
            ⟨.replicate 32 1⟩ = host.countedOf ⟨.replicate 32 1⟩ :=
  refused_for_ever .transparent reservedAlone [.setNow 1800000000]
    ⟨fun _ ↦ rfl, trivial, False.elim, trivial⟩ ⟨.replicate 32 1⟩ [reservedRow] (by decide +kernel)
    streamMaxBytes (by decide +kernel)

end Run

end NemoMessenger.Server
