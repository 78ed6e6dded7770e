import NemoMessenger.Server.GroupOperation

/-!
# Appends to a group stream

`append` checks what it is given and refuses, or it hands the body to `fanout_copy`, which stops at
the cap of the stream, fails while it seals the copies, or sends them all. The row is in the stream
before the first copy is sealed, and a replaced signing key is in place before that. A refused
append therefore leaves the group as it was exactly when none of the late exits is taken.
-/

namespace NemoMessenger.Server

open NemoMessenger.Data NemoMessenger.Wire

namespace GroupHost

variable (crypto : Crypto)

/-! ## Sealing the copies -/

theorem mem_fanoutTargets {g : GroupState} {target : FanoutTarget} :
    target ∈ fanoutTargets g ↔ ∃ c record, g.creds.lookup c = some record ∧ record.live = true ∧
      record.fanout = some target := by
  unfold fanoutTargets
  rw [List.mem_filterMap]
  constructor
  · rintro ⟨e, he, htarget⟩
    split_ifs at htarget with hlive
    exact ⟨e.1, e.2, FiniteMap.lookup_eq_some_iff.mpr he, hlive, htarget⟩
  · rintro ⟨c, record, hrecord, hlive, htarget⟩
    refine ⟨⟨c, record⟩, FiniteMap.lookup_eq_some_iff.mp hrecord, ?_⟩
    rw [if_pos hlive, htarget]

/-- Every live target can be sent the body: it fits a text bucket and HPKE accepts the key. -/
def CanCopy (usable : Key → Prop) (g : GroupState) (body : Bytes) : Prop :=
  ∀ target ∈ fanoutTargets g, 2 + body.length ≤ t3 ∧ usable target.homeHpkePublic

/-- The copies `fanout_copy` seals. -/
def sealCopies (g : GroupState) (type : MessageType) (body : Bytes) (draws : ℕ → Key × Key) :
    Except WireError (List OuterEnvelope) :=
  (fanoutTargets g).zipIdx.mapM fun t ↦ sealCopy crypto type body t.1 (draws t.2)

theorem exists_sealCopy_iff {usable : Key → Prop} (hseals : crypto.SealsByKey usable)
    {type : MessageType} (htype : type.isAttachment = false) (body : Bytes) (target : FanoutTarget)
    (draw : Key × Key) :
    (∃ outer, sealCopy crypto type body target draw = .ok outer) ↔
      2 + body.length ≤ t3 ∧ usable target.homeHpkePublic := by
  rw [← PaddedMessage.exists_pad_iff htype]
  have hencode {message : PaddedMessage} (hpad : PaddedMessage.pad type body = .ok message) :
      ∃ bytes, InnerEnvelope.encodePadded ⟨target.deliveryCapability, .default, draw.1, message⟩ =
        .ok bytes := by
    obtain ⟨hmessage, hlen⟩ := PaddedMessage.innerLen_of_pad hpad
    rw [innerBuckets, htype] at hlen
    apply InnerEnvelope.exists_encodePadded
    · rw [hmessage, htype]
    · exact hlen
  constructor
  · rintro ⟨outer, houter⟩
    obtain ⟨message, hpad, houter⟩ := bind_eq_ok.mp houter
    obtain ⟨bytes, hbytes⟩ := hencode hpad
    refine ⟨⟨message, hpad⟩, ?_⟩
    exact (crypto.exists_sealToServer_iff hseals draw.2 target.homeHpkePublic hbytes).mp
      ⟨outer, houter⟩
  · rintro ⟨⟨message, hpad⟩, husable⟩
    obtain ⟨bytes, hbytes⟩ := hencode hpad
    obtain ⟨outer, houter⟩ :=
      (crypto.exists_sealToServer_iff hseals draw.2 target.homeHpkePublic hbytes).mpr husable
    exact ⟨outer, bind_eq_ok.mpr ⟨message, hpad, houter⟩⟩

theorem exists_sealCopies_iff {usable : Key → Prop} (hseals : crypto.SealsByKey usable)
    {type : MessageType} (htype : type.isAttachment = false) (g : GroupState) (body : Bytes)
    (draws : ℕ → Key × Key) :
    (∃ outers, sealCopies crypto g type body draws = .ok outers) ↔ CanCopy usable g body := by
  have hcopy (t : FanoutTarget × ℕ) := exists_sealCopy_iff crypto hseals htype body t.1 (draws t.2)
  constructor
  · rintro ⟨outers, houters⟩ target htarget
    obtain ⟨i, hi⟩ := List.mem_iff_getElem?.mp htarget
    have hmem : (target, i) ∈ (fanoutTargets g).zipIdx := List.mk_mem_zipIdx_iff_getElem?.mpr hi
    have hsealed := List.mem_map_of_mem
      (f := fun t : FanoutTarget × ℕ ↦ sealCopy crypto type body t.1 (draws t.2)) hmem
    rw [FiniteMap.map_eq_of_mapM houters, List.mem_map] at hsealed
    obtain ⟨outer, -, houter⟩ := hsealed
    exact (hcopy (target, i)).mp ⟨outer, houter.symm⟩
  · intro hcan
    obtain ⟨outers, houters, -⟩ := FiniteMap.exists_mapM_eq_ok
      (f := fun t : FanoutTarget × ℕ ↦ sealCopy crypto type body t.1 (draws t.2))
      (l := (fanoutTargets g).zipIdx)
      fun t ht ↦ (hcopy t).mpr (hcan t.1 (List.fst_mem_of_mem_zipIdx ht))
    exact ⟨outers, houters⟩

theorem fanoutCopy_of_group {host : GroupHost} {groupId : GroupId} {g : GroupState}
    (hg : host.groups.lookup groupId = some g) (type : MessageType) (body : Bytes)
    (draws : ℕ → Key × Key) :
    host.fanoutCopy crypto groupId type body draws =
      if saturatingAdd g.bytes body.length > streamMaxBytes then (.error .denied, host)
      else
        match sealCopies crypto g type body draws with
        | .error e => (.error (.wire e), host.pushRow groupId g type body)
        | .ok outers => (.ok { seq := g.nextSeq, outers }, host.pushRow groupId g type body) := by
  unfold fanoutCopy
  rw [hg]
  rfl

/-! ## The paths of an append -/

/-- The checks `append` makes on a body of each type before anything is written. -/
def ChecksPass (host : GroupHost) (groupId : GroupId) (cred : MemberCred) (body : Bytes) :
    MessageType → Prop
  | .removeBundle => ∃ bundle pk, RemoveBundle.decode body = .ok bundle ∧
      host.memberKey crypto groupId cred.credentialId = .ok pk ∧
      bundle.verifySidecar crypto pk groupId.key = .ok ()
  | .signingKeyReplace => ∃ replace pk, SigningKeyReplace.decode body = .ok replace ∧
      host.memberKey crypto groupId cred.credentialId = .ok pk ∧ replace.verify crypto pk = .ok ()
  | .attachmentReserve => ∃ reserve, AttachmentReserve.decode body = .ok reserve ∧
      host.files.lookup reserve.fetchToken = none ∧
      saturatingAdd (host.liveFileBytes groupId) reserve.sizeBucket.innerLen ≤ host.fileBudget
  | .mlsHandshake | .mlsApp | .revocationStatement => True
  | .doubleRatchet | .attachmentDr => False

/-- The host `append` hands to `fanout_copy`: a new signing key is already in place. -/
def readied (host : GroupHost) (groupId : GroupId) (cred : MemberCred) (body : Bytes) :
    MessageType → GroupHost
  | .signingKeyReplace =>
    match SigningKeyReplace.decode body with
    | .error _ => host
    | .ok replace =>
      (host.modifyCred groupId cred.credentialId
        fun record ↦ { record with signingPk := some replace.newPublicKey }).markCred groupId
          cred.credentialId
  | _ => host

/-- What `append` still writes once all copies are sealed. -/
def settled (host : GroupHost) (now : ℕ) (groupId : GroupId) (cred : MemberCred) (body : Bytes) :
    MessageType → GroupHost
  | .removeBundle =>
    match RemoveBundle.decode body with
    | .error _ => host
    | .ok bundle =>
      (host.modifyCred groupId bundle.credentialId
        fun record ↦ { record with live := false, fanout := none }).markCred groupId
          bundle.credentialId
  | .attachmentReserve =>
    match AttachmentReserve.decode body with
    | .error _ => host
    | .ok reserve =>
      host.putFile reserve.fetchToken
        { groupId := groupId
          owner := cred.credentialId
          size := reserve.sizeBucket.innerLen
          expiresAt := saturatingAdd now (reserve.ttlBucket.ttlSecs.getD streamMaxAgeSecs)
          bytes := none }
  | _ => host

section Paths

variable {crypto} {host : GroupHost} {groupId : GroupId} {cred : MemberCred} {type : MessageType}
  {body : Bytes}

/-- Without the checks nothing is written. -/
theorem append_refused (draws : ℕ → Key × Key)
    (h : host.authorizeLive crypto groupId cred = .ok () →
      ¬ host.ChecksPass crypto groupId cred body type) :
    ∃ e, host.append crypto groupId cred type body draws = (.error e, host) := by
  unfold append
  split
  · exact ⟨_, rfl⟩
  · rename_i hlive
    have hfails := h hlive
    cases type with
    | doubleRatchet | attachmentDr => exact ⟨_, rfl⟩
    | mlsHandshake | mlsApp | revocationStatement => exact absurd trivial hfails
    | removeBundle =>
      dsimp only
      unfold appendRemove
      split
      · exact ⟨_, rfl⟩
      · split
        · exact ⟨_, rfl⟩
        · split
          · exact ⟨_, rfl⟩
          · exact absurd ⟨_, _, ‹_›, ‹_›, ‹_›⟩ hfails
    | signingKeyReplace =>
      dsimp only
      unfold applySigningReplace
      split
      · rename_i heq
        split at heq
        · cases heq
          exact ⟨_, rfl⟩
        · split at heq
          · cases heq
            exact ⟨_, rfl⟩
          · split at heq
            · cases heq
              exact ⟨_, rfl⟩
            · cases heq
      · rename_i heq
        split at heq
        · cases heq
        · split at heq
          · cases heq
          · split at heq
            · cases heq
            · exact absurd ⟨_, _, ‹_›, ‹_›, ‹_›⟩ hfails
    | attachmentReserve =>
      dsimp only
      unfold appendReserve
      split
      · exact ⟨_, rfl⟩
      · rename_i reserve hreserve
        split
        · exact ⟨_, rfl⟩
        · rename_i hfree
          split
          · exact ⟨_, rfl⟩
          · rename_i hbudget
            refine absurd ⟨reserve, hreserve, ?_, Nat.not_lt.mp hbudget⟩ hfails
            simpa using hfree

/-- Behind the checks every type goes through `fanout_copy`. -/
theorem append_passed (draws : ℕ → Key × Key)
    (hlive : host.authorizeLive crypto groupId cred = .ok ())
    (hpass : host.ChecksPass crypto groupId cred body type) :
    host.append crypto groupId cred type body draws =
      match (host.readied groupId cred body type).fanoutCopy crypto groupId type body draws with
      | (.error e, after) => (.error e, after)
      | (.ok out, after) => (.ok out, after.settled host.now groupId cred body type) := by
  unfold append
  rw [hlive]
  cases type with
  | doubleRatchet | attachmentDr => cases hpass
  | mlsHandshake | mlsApp | revocationStatement =>
    dsimp only [readied, settled]
    split <;> rename_i heq <;> rw [heq]
  | removeBundle =>
    obtain ⟨bundle, pk, hbundle, hpk, hsidecar⟩ := hpass
    dsimp only [readied, settled]
    unfold appendRemove
    rw [hbundle]
    dsimp only
    rw [hpk]
    dsimp only
    rcases host.fanoutCopy crypto groupId .removeBundle body draws with ⟨_ | _, _⟩ <;>
      simp only [hsidecar]
  | signingKeyReplace =>
    obtain ⟨replace, pk, hreplace, hpk, hverify⟩ := hpass
    dsimp only [readied, settled]
    unfold applySigningReplace
    rw [hreplace]
    dsimp only
    rw [hpk]
    dsimp only
    rw [hverify]
    dsimp only
    split <;> rename_i heq <;> rw [heq]
  | attachmentReserve =>
    obtain ⟨reserve, hreserve, hfree, hbudget⟩ := hpass
    dsimp only [readied, settled]
    unfold appendReserve
    rw [hreserve]
    dsimp only
    rcases host.fanoutCopy crypto groupId .attachmentReserve body draws with ⟨_ | _, _⟩ <;>
      simp [hfree, Nat.not_lt.mpr hbudget]

/-- A member whose key can be looked up has a record. -/
theorem exists_record_of_memberKey {pk : Key}
    (h : host.memberKey crypto groupId cred.credentialId = .ok pk) {g : GroupState}
    (hg : host.groups.lookup groupId = some g) :
    ∃ record, g.creds.lookup cred.credentialId = some record ∧ record.signingPk = some pk := by
  unfold memberKey at h
  split at h
  · cases h
  · rename_i found hfound
    split at h
    · cases h
      rw [signingPk, hg, Option.bind_some] at hfound
      exact Option.bind_eq_some_iff.mp hfound
    · cases h

/-- Before the fan-out only a signing key may have changed. -/
theorem readied_group (hpass : host.ChecksPass crypto groupId cred body type) {g : GroupState}
    (hg : host.groups.lookup groupId = some g) :
    (type ≠ .signingKeyReplace ∧ host.readied groupId cred body type = host) ∨
      ∃ replace record, type = .signingKeyReplace ∧ SigningKeyReplace.decode body = .ok replace ∧
        g.creds.lookup cred.credentialId = some record ∧
        host.readied groupId cred body type = (host.putGroup groupId
          { g with
            creds := g.creds.insert cred.credentialId
              { record with signingPk := some replace.newPublicKey } }).markCred groupId
                cred.credentialId := by
  by_cases htype : type = .signingKeyReplace
  · subst htype
    obtain ⟨replace, pk, hreplace, hpk, -⟩ := hpass
    obtain ⟨record, hrecord, -⟩ := exists_record_of_memberKey hpk hg
    refine .inr ⟨replace, record, rfl, hreplace, hrecord, ?_⟩
    dsimp only [readied]
    rw [hreplace]
    dsimp only
    unfold modifyCred
    rw [hg]
    dsimp only
    rw [hrecord]
  · refine .inl ⟨htype, ?_⟩
    cases type with
    | signingKeyReplace => exact absurd rfl htype
    | _ => rfl

/-- The record of a member keeps its target when only its key changes. -/
theorem canCopy_replaceKey {usable : Key → Prop} {g : GroupState} {c key : Key}
    {record : CredRecord} (hrecord : g.creds.lookup c = some record) :
    CanCopy usable
        { g with creds := g.creds.insert c { record with signingPk := some key } } body ↔
      CanCopy usable g body := by
  have htargets (target : FanoutTarget) :
      target ∈ fanoutTargets
          { g with creds := g.creds.insert c { record with signingPk := some key } } ↔
        target ∈ fanoutTargets g := by
    rw [mem_fanoutTargets, mem_fanoutTargets]
    constructor
    · rintro ⟨c', record', hrecord', hlive, hfanout⟩
      rw [FiniteMap.lookup_insert_ite] at hrecord'
      split_ifs at hrecord' with hc
      · cases hrecord'
        exact ⟨c, record, hrecord, hlive, hfanout⟩
      · exact ⟨c', record', hrecord', hlive, hfanout⟩
    · rintro ⟨c', record', hrecord', hlive, hfanout⟩
      by_cases hc : c' = c
      · subst hc
        rw [hrecord] at hrecord'
        cases hrecord'
        exact ⟨c', _, AList.lookup_insert _, hlive, hfanout⟩
      · refine ⟨c', record', ?_, hlive, hfanout⟩
        rw [FiniteMap.lookup_insert_ite, if_neg hc, hrecord']
  unfold CanCopy
  simp only [htargets]

end Paths

/-! ## Failed appends -/

/-- The stream, the counters and the credentials of a group. -/
def records (g : GroupState) : List StreamRow × ℕ × ℕ × (Key → Option CredRecord) :=
  (g.stream, g.nextSeq, g.bytes, g.creds.lookup)

/-- Two hosts agree on the streams, counters and credentials of their groups and on the files. -/
structure SameRecords (host host' : GroupHost) : Prop where
  groups : ∀ id, (host'.groups.lookup id).map records = (host.groups.lookup id).map records
  files : ∀ token, host'.files.lookup token = host.files.lookup token

theorem sameRecords_refl (host : GroupHost) : host.SameRecords host :=
  ⟨fun _ ↦ rfl, fun _ ↦ rfl⟩

theorem SameRecords.nextSeq {host host' : GroupHost} (h : host.SameRecords host') (id : GroupId) :
    (host'.groups.lookup id).map GroupState.nextSeq =
      (host.groups.lookup id).map GroupState.nextSeq := by
  have hnext := congrArg (Option.map fun r ↦ r.2.1) (h.groups id)
  rw [Option.map_map, Option.map_map] at hnext
  exact hnext

/-- A row in the stream is a change, whatever else happened to the group. -/
theorem not_sameRecords_pushRow {host ready : GroupHost} {groupId : GroupId} {g g' : GroupState}
    (hg : host.groups.lookup groupId = some g) (hseq : g'.nextSeq = g.nextSeq) (type : MessageType)
    (body : Bytes) : ¬ host.SameRecords (ready.pushRow groupId g' type body) := by
  intro hsame
  have hnext := hsame.nextSeq groupId
  rw [pushRow, AList.lookup_insert, hg, Option.map_some, Option.map_some, Option.some_inj] at hnext
  dsimp only at hnext
  omega

/-- What a state and a body must satisfy for a failing append to leave no trace: below the cap all
copies can be sealed, and at the cap the signing key that `append` has put in place is the old
one. -/
def LeavesNoTrace (usable : Key → Prop) (host : GroupHost) (groupId : GroupId) (cred : MemberCred)
    (type : MessageType) (body : Bytes) (g : GroupState) : Prop :=
  if saturatingAdd g.bytes body.length > streamMaxBytes then
    type = .signingKeyReplace → ∀ replace, SigningKeyReplace.decode body = .ok replace →
      host.signingPk groupId cred.credentialId = some replace.newPublicKey
  else CanCopy usable g body

/-- The exits of `fanout_copy` after the first write. -/
theorem fanoutCopy_keeps_iff {usable : Key → Prop} (hseals : crypto.SealsByKey usable)
    {host ready : GroupHost} {groupId : GroupId} {g g' : GroupState}
    (hg : host.groups.lookup groupId = some g) (hg' : ready.groups.lookup groupId = some g')
    (hseq : g'.nextSeq = g.nextSeq) (hbytes : g'.bytes = g.bytes) {type : MessageType}
    (htype : type.isAttachment = false) (body : Bytes) (draws : ℕ → Key × Key) :
    (∀ e after, ready.fanoutCopy crypto groupId type body draws = (.error e, after) →
        host.SameRecords after) ↔
      if saturatingAdd g.bytes body.length > streamMaxBytes then host.SameRecords ready
      else CanCopy usable g' body := by
  rw [fanoutCopy_of_group crypto hg', hbytes]
  split_ifs with hcap
  · constructor
    · exact fun h ↦ h _ _ rfl
    · intro h e after heq
      cases heq
      exact h
  · rw [← exists_sealCopies_iff crypto hseals htype g' body draws]
    cases hcopies : sealCopies crypto g' type body draws with
    | ok outers =>
      refine ⟨fun _ ↦ ⟨outers, rfl⟩, fun _ e after heq ↦ ?_⟩
      cases heq
    | error e =>
      constructor
      · intro h
        exact absurd (h _ _ rfl) (not_sameRecords_pushRow hg hseq type body)
      · rintro ⟨outers, houters⟩
        cases houters

/-- Replacing a signing key shows exactly when the key is a new one. -/
theorem sameRecords_replaceKey_iff {host : GroupHost} {groupId : GroupId} {g : GroupState}
    {c key : Key} {record : CredRecord} (hg : host.groups.lookup groupId = some g)
    (hrecord : g.creds.lookup c = some record) :
    host.SameRecords ((host.putGroup groupId
        { g with creds := g.creds.insert c { record with signingPk := some key } }).markCred
          groupId c) ↔ host.signingPk groupId c = some key := by
  have hpk : host.signingPk groupId c = record.signingPk := by
    rw [signingPk, hg, Option.bind_some, hrecord, Option.bind_some]
  rw [hpk]
  constructor
  · intro hsame
    have hgroup := hsame.groups groupId
    dsimp only [markCred, putGroup] at hgroup
    rw [AList.lookup_insert, hg, Option.map_some, Option.map_some, Option.some_inj] at hgroup
    have hcreds := congrFun (congrArg (fun r ↦ r.2.2.2) hgroup) c
    dsimp only [records] at hcreds
    rw [AList.lookup_insert, hrecord, Option.some_inj] at hcreds
    exact (congrArg CredRecord.signingPk hcreds).symm
  · intro hkey
    refine ⟨fun id ↦ ?_, fun _ ↦ rfl⟩
    dsimp only [markCred, putGroup]
    rw [FiniteMap.lookup_insert_ite]
    split_ifs with hid
    · rw [hid, hg, Option.map_some, Option.map_some, records, records, Option.some_inj]
      refine congrArg (fun creds ↦ (g.stream, g.nextSeq, g.bytes, creds)) (funext fun c' ↦ ?_)
      rw [FiniteMap.lookup_insert_ite]
      split_ifs with hc
      · rw [hc, hrecord, ← hkey]
      · rfl
    · rfl

section Failed

variable {crypto} {usable : Key → Prop} {host : GroupHost} {groupId : GroupId} {cred : MemberCred}
  {type : MessageType} {body : Bytes} {g : GroupState}

/-- An append that passes its checks fails as `fanout_copy` fails. -/
theorem append_error_iff (draws : ℕ → Key × Key)
    (hlive : host.authorizeLive crypto groupId cred = .ok ())
    (hpass : host.ChecksPass crypto groupId cred body type) (e : ServerError) (after : GroupHost) :
    host.append crypto groupId cred type body draws = (.error e, after) ↔
      (host.readied groupId cred body type).fanoutCopy crypto groupId type body draws =
        (.error e, after) := by
  rw [append_passed draws hlive hpass]
  split
  · rename_i heq
    rw [heq]
  · rename_i heq
    rw [heq]
    simp

theorem append_passed_keeps_iff (hseals : crypto.SealsByKey usable) (draws : ℕ → Key × Key)
    (hlive : host.authorizeLive crypto groupId cred = .ok ())
    (hpass : host.ChecksPass crypto groupId cred body type)
    (hg : host.groups.lookup groupId = some g) :
    (∀ e after, host.append crypto groupId cred type body draws = (.error e, after) →
        host.SameRecords after) ↔ host.LeavesNoTrace usable groupId cred type body g := by
  have htype : type.isAttachment = false := by
    cases type with
    | attachmentDr => cases hpass
    | _ => rfl
  simp only [append_error_iff draws hlive hpass]
  unfold LeavesNoTrace
  rcases readied_group hpass hg with ⟨hother, hready⟩ | ⟨replace, record, hreplaces, hreplace,
    hrecord, hready⟩
  · rw [hready, fanoutCopy_keeps_iff crypto hseals hg hg rfl rfl htype]
    split_ifs
    · exact ⟨fun _ h ↦ absurd h hother, fun _ ↦ host.sameRecords_refl⟩
    · rfl
  · have hg' : (host.readied groupId cred body type).groups.lookup groupId = some
        { g with
          creds := g.creds.insert cred.credentialId
            { record with signingPk := some replace.newPublicKey } } := by
      rw [hready]
      exact AList.lookup_insert _
    rw [fanoutCopy_keeps_iff crypto hseals hg hg' rfl rfl htype]
    split_ifs
    · rw [hready, sameRecords_replaceKey_iff hg hrecord]
      constructor
      · intro hkey _ replace' hreplace'
        rw [hreplace] at hreplace'
        cases hreplace'
        exact hkey
      · exact fun h ↦ h hreplaces replace hreplace
    · exact canCopy_replaceKey hrecord

theorem appendHostRevocation_keeps_iff (hseals : crypto.SealsByKey usable)
    (stmt : RevocationStatement) (draws : ℕ → Key × Key) :
    (∀ e after, host.appendHostRevocation crypto groupId stmt draws = (.error e, after) →
        host.SameRecords after) ↔
      ∀ g, host.groups.lookup groupId = some g →
        saturatingAdd g.bytes stmt.encode.length ≤ streamMaxBytes →
          CanCopy usable g stmt.encode := by
  unfold appendHostRevocation
  cases hg : host.groups.lookup groupId with
  | none =>
    refine ⟨fun _ g hsome ↦ (by cases hsome), fun _ e after heq ↦ ?_⟩
    cases heq
    exact host.sameRecords_refl
  | some g =>
    rw [if_neg (by simp), fanoutCopy_keeps_iff crypto hseals hg hg rfl rfl rfl]
    constructor
    · intro h g' hg' hcap
      cases hg'
      rwa [if_neg (Nat.not_lt.mpr hcap)] at h
    · intro h
      split_ifs with hcap
      · exact host.sameRecords_refl
      · exact h g rfl (Nat.not_lt.mp hcap)

end Failed

/-- A failing append leaves streams, counters, credentials and files as they were exactly when it is
refused before it writes, or leaves no trace on the way; the same for the host's own revocations. -/
theorem append_keeps_iff {usable : Key → Prop} (hseals : crypto.SealsByKey usable)
    (host : GroupHost) (groupId : GroupId) (cred : MemberCred) (type : MessageType) (body : Bytes)
    (stmt : RevocationStatement) (draws : ℕ → Key × Key) :
    ((∀ e after, host.append crypto groupId cred type body draws = (.error e, after) →
        host.SameRecords after) ↔
      (host.authorizeLive crypto groupId cred = .ok () →
        host.ChecksPass crypto groupId cred body type →
        ∀ g, host.groups.lookup groupId = some g →
          host.LeavesNoTrace usable groupId cred type body g)) ∧
    ((∀ e after, host.appendHostRevocation crypto groupId stmt draws = (.error e, after) →
        host.SameRecords after) ↔
      ∀ g, host.groups.lookup groupId = some g →
        saturatingAdd g.bytes stmt.encode.length ≤ streamMaxBytes →
          CanCopy usable g stmt.encode) := by
  refine ⟨?_, appendHostRevocation_keeps_iff hseals stmt draws⟩
  by_cases hpasses : host.authorizeLive crypto groupId cred = .ok () ∧
      host.ChecksPass crypto groupId cred body type
  · obtain ⟨hlive, hpass⟩ := hpasses
    obtain ⟨g, hg⟩ := exists_group_of_authorizeLive crypto hlive
    rw [append_passed_keeps_iff hseals draws hlive hpass hg]
    constructor
    · intro h _ _ g' hg'
      rw [hg] at hg'
      cases hg'
      exact h
    · exact fun h ↦ h hlive hpass g hg
  · obtain ⟨refusal, heq⟩ := append_refused draws fun hlive hpass ↦ hpasses ⟨hlive, hpass⟩
    constructor
    · exact fun _ hlive hpass ↦ absurd ⟨hlive, hpass⟩ hpasses
    · intro _ e after hafter
      rw [heq] at hafter
      cases hafter
      exact host.sameRecords_refl

/-- A host with one group of one member, whose group, credential and keys are all the same bytes. -/
def single (key : Key) : GroupHost :=
  (GroupHost.new.createGroupFor .transparent key ⟨key, key⟩ none ⟨key⟩ ⟨key, key⟩).2

set_option maxRecDepth 100000 in
/-- A `RemoveBundle` that is too short is refused, and the group is as it was. -/
theorem append_keeps_of_short_bundle :
    let key : Key := .replicate 32 7
    let result := (single key).append .transparent ⟨key⟩ ⟨key, key⟩ .removeBundle [1]
      fun _ ↦ (key, key)
    Crypto.transparent.SealsByKey (fun _ ↦ True) ∧ result.1.toOption.isNone = true ∧
      (single key).SameRecords result.2 := by
  intro key result
  have hseals : Crypto.transparent.SealsByKey fun _ ↦ True :=
    fun _ _ _ _ ↦ ⟨fun _ ↦ trivial, fun _ ↦ ⟨_, rfl⟩⟩
  have hfails : result.1.toOption.isNone = true := by decide +kernel
  obtain ⟨e, he⟩ := exists_error_of_isNone hfails
  refine ⟨hseals, hfails, ?_⟩
  refine (append_keeps_iff .transparent hseals (single key) ⟨key⟩ ⟨key, key⟩ .removeBundle [1]
    ⟨key, 0, .replicate 64 0⟩ fun _ ↦ (key, key)).1.mpr ?_ e result.2 he
  rintro _ ⟨bundle, pk, hbundle, -⟩
  cases hbundle

set_option maxRecDepth 100000 in
/-- A message too long for every text bucket is answered with an error and stays in the stream. -/
theorem append_fails_with_row :
    let key : Key := .replicate 32 7
    ¬ ∀ e after, (single key).append .transparent ⟨key⟩ ⟨key, key⟩ .mlsApp (List.replicate 16383 0)
      (fun _ ↦ (key, key)) = (.error e, after) → (single key).SameRecords after := by
  intro key hkeeps
  obtain ⟨hfails, hseq⟩ : ((single key).append .transparent ⟨key⟩ ⟨key, key⟩ .mlsApp
        (List.replicate 16383 0) fun _ ↦ (key, key)).1.toOption.isNone = true ∧
      (((single key).append .transparent ⟨key⟩ ⟨key, key⟩ .mlsApp
        (List.replicate 16383 0) fun _ ↦ (key, key)).2.groups.lookup ⟨key⟩).map
          GroupState.nextSeq ≠ ((single key).groups.lookup ⟨key⟩).map GroupState.nextSeq := by
    decide +kernel
  obtain ⟨e, he⟩ := exists_error_of_isNone hfails
  have hsame := hkeeps e _ he
  exact hseq (hsame.nextSeq ⟨key⟩)

end GroupHost

end NemoMessenger.Server
