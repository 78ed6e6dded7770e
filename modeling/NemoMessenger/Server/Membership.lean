import NemoMessenger.Server.GroupAppend

/-!
# Membership of a group

The events of a run are the operations that succeeded, with what they answered. `Effect` says what
an operation does to the groups and which event it leaves; every operation has one of the effects.
-/

namespace NemoMessenger.Server

open NemoMessenger.Data NemoMessenger.Wire

/-! ## Events -/

/-- What a successful operation did. Uploads, refreshed targets and the clock leave no event. -/
inductive GroupEvent
  | created (groupId : GroupId) (credentialId : Key)
  | invited (groupId : GroupId) (nonce : Key)
  | accepted (groupId : GroupId) (nonce pendingId credentialId : Key) (expiresAt : ℕ)
  | admitted (groupId : GroupId) (pendingId credentialId : Key)
  | appended (groupId : GroupId) (type : MessageType) (body : Bytes) (out : StreamAppend)

namespace GroupEvent

/-- The random ids of an event. -/
def drawn : GroupEvent → List Key
  | created groupId credentialId => [groupId.key, credentialId]
  | accepted _ _ pendingId credentialId _ => [pendingId, credentialId]
  | invited .. | admitted .. | appended .. => []

/-- An invite stored under a nonce of a group. -/
def isInvited (groupId : GroupId) (nonce : Key) : GroupEvent → Bool
  | invited groupId' nonce' => decide (groupId' = groupId) && decide (nonce' = nonce)
  | _ => false

/-- A pending join created from a nonce of a group. -/
def isAccepted (groupId : GroupId) (nonce : Key) : GroupEvent → Bool
  | accepted groupId' nonce' .. => decide (groupId' = groupId) && decide (nonce' = nonce)
  | _ => false

/-- A pending join of a group activated. -/
def isAdmitted (groupId : GroupId) (pendingId : Key) : GroupEvent → Bool
  | admitted groupId' pendingId' _ => decide (groupId' = groupId) && decide (pendingId' = pendingId)
  | _ => false

/-- The number given to a row of a group. -/
def seqIn (groupId : GroupId) : GroupEvent → Option ℕ
  | appended groupId' _ _ out => if groupId' = groupId then some out.seq else none
  | _ => none

end GroupEvent

/-- The event of an operation, if it succeeds. -/
def GroupOp.event (crypto : Crypto) (host : GroupHost) : GroupOp → Option GroupEvent
  | createGroupFor signingPk fanout creator groupId cred =>
    (host.createGroupFor crypto signingPk fanout creator groupId cred).1.toOption.map
      fun made ↦ .created made.groupId made.cred.credentialId
  | storeInvite groupId cred invite =>
    (host.storeInvite crypto groupId cred invite).1.toOption.map
      fun _ ↦ .invited groupId invite.nonce
  | accept groupId nonce cred pendingId =>
    (host.accept crypto groupId nonce cred pendingId).1.toOption.bind fun join ↦
      (((host.groups.lookup groupId).bind fun g ↦ g.invites.lookup nonce).map fun stored ↦
        .accepted groupId nonce join.pendingId join.cred.credentialId stored.expiresAt)
  | admitJoiner groupId admitter admission joinerSigningPk fanout =>
    (host.admitJoiner crypto groupId admitter admission joinerSigningPk fanout).1.toOption.map
      fun credentialId ↦ .admitted groupId admission.pendingId credentialId
  | append groupId cred type body draws =>
    (host.append crypto groupId cred type body draws).1.toOption.map
      fun out ↦ .appended groupId type body out
  | appendHostRevocation groupId stmt draws =>
    (host.appendHostRevocation crypto groupId stmt draws).1.toOption.map
      fun out ↦ .appended groupId .revocationStatement stmt.encode out
  | setNow _ | refreshFanout .. | uploadFile .. => none

/-- A group host and the events so far. -/
structure GroupLog where
  host : GroupHost
  events : List GroupEvent

/-- One operation, logged. -/
def GroupLog.step (crypto : Crypto) (s : GroupLog) (op : GroupOp) : GroupLog where
  host := op.apply crypto s.host
  events := s.events ++ (op.event crypto s.host).toList

/-- A new group host. -/
def GroupLog.start : GroupLog := ⟨.new, []⟩

/-! ## Effects -/

/-- What later checks can see of a record: whether it is live, and the target it kept if not. -/
def CredRecord.standing (record : CredRecord) : Bool × Option FanoutTarget :=
  (record.live, if record.live then none else record.fanout)

/-- Two sets of credentials of the same standing. -/
def SameStanding (creds creds' : FiniteMap Key CredRecord) : Prop :=
  ∀ c, (creds'.lookup c).map CredRecord.standing = (creds.lookup c).map CredRecord.standing

/-- One group is rewritten. -/
structure GroupHost.Rewrites (host host' : GroupHost) (groupId : GroupId) (g g' : GroupState) :
    Prop where
  old : host.groups.lookup groupId = some g
  new : host'.groups.lookup groupId = some g'
  others : ∀ id ≠ groupId, host'.groups.lookup id = host.groups.lookup id

/-- Invites and pending joins only go away. -/
structure GroupState.Prunes (g g' : GroupState) : Prop where
  pending : ∀ pendingId p, g'.pending.lookup pendingId = some p → g.pending.lookup pendingId = some p
  invites : ∀ nonce, (g'.invites.lookup nonce).isSome → (g.invites.lookup nonce).isSome

/-- The copies of a row: one for every credential that is live and has a target. -/
def GroupState.CopiedOnce (crypto : Crypto) (g : GroupState) (type : MessageType) (body : Bytes)
    (outers : List OuterEnvelope) : Prop :=
  ∃ members : List Key, members.Nodup ∧
    (∀ c, c ∈ members ↔ ∃ record target, g.creds.lookup c = some record ∧ record.live = true ∧
      record.fanout = some target) ∧
    List.Forall₂ (fun c outer ↦ ∃ record target draw, g.creds.lookup c = some record ∧
      record.fanout = some target ∧
      GroupHost.sealCopy crypto type body target draw = .ok outer) members outers

/-- The credential a row removes. -/
def removedBy (type : MessageType) (body : Bytes) : Option Key :=
  if type = .removeBundle then (RemoveBundle.decode body).toOption.map RemoveBundle.credentialId
  else none

/-- What an operation does to the groups of a host, and its event. A row that is in the stream
without an event is one whose copies could not be sealed. -/
inductive Effect (crypto : Crypto) (copies : Prop) (host : GroupHost) :
    GroupHost → Option GroupEvent → Prop
  | still {host' : GroupHost} (hsame : ∀ id, host'.groups.lookup id = host.groups.lookup id) :
    Effect crypto copies host host' none
  | create {host' : GroupHost} {groupId : GroupId} {g : GroupState} {c : Key}
    (hnew : host'.groups.lookup groupId = some g)
    (hothers : ∀ id ≠ groupId, host'.groups.lookup id = host.groups.lookup id)
    (hcreds : ∀ c' ≠ c, g.creds.lookup c' = none) (hpending : g.pending = ∅)
    (hinvites : g.invites = ∅) (hseq : g.nextSeq = 1) :
    Effect crypto copies host host' (some (.created groupId c))
  | invite {host' : GroupHost} {groupId : GroupId} {g g' : GroupState} {nonce : Key}
    (hwrite : host.Rewrites host' groupId g g') (hcreds : g'.creds = g.creds)
    (hpending : g'.pending = g.pending) (hseq : g'.nextSeq = g.nextSeq)
    (hinvites : ∀ nonce' ≠ nonce, g'.invites.lookup nonce' = g.invites.lookup nonce') :
    Effect crypto copies host host' (some (.invited groupId nonce))
  | prune {host' : GroupHost} {groupId : GroupId} {g g' : GroupState}
    (hwrite : host.Rewrites host' groupId g g') (hcreds : SameStanding g.creds g'.creds)
    (hprunes : g.Prunes g') (hseq : g'.nextSeq = g.nextSeq) : Effect crypto copies host host' none
  | accept {host' : GroupHost} {groupId : GroupId} {g g' : GroupState} {nonce pendingId c : Key}
    {stored : StoredInvite} (hwrite : host.Rewrites host' groupId g g')
    (hstored : g.invites.lookup nonce = some stored)
    (hinvites : g'.invites = g.invites.erase nonce)
    (hcreds : ∃ record : CredRecord, record.live = false ∧ g'.creds = g.creds.insert c record)
    (hpending : ∃ p : PendingRecord, p.cred.credentialId = c ∧ p.expiresAt = stored.expiresAt ∧
      g'.pending = g.pending.insert pendingId p) (hseq : g'.nextSeq = g.nextSeq) :
    Effect crypto copies host host' (some (.accepted groupId nonce pendingId c stored.expiresAt))
  | admission {host' : GroupHost} {groupId : GroupId} {g g' : GroupState} {pendingId : Key}
    {p : PendingRecord} (hwrite : host.Rewrites host' groupId g g')
    (hp : g.pending.lookup pendingId = some p) (hnow : host.now < p.expiresAt)
    (hcreds : ∀ c ≠ p.cred.credentialId, g'.creds.lookup c = g.creds.lookup c)
    (hprunes : g.Prunes g') (htaken : g'.pending.lookup pendingId = none)
    (hseq : g'.nextSeq = g.nextSeq) :
    Effect crypto copies host host' (some (.admitted groupId pendingId p.cred.credentialId))
  | fail {host' : GroupHost} {groupId : GroupId} {g g' : GroupState}
    (hwrite : host.Rewrites host' groupId g g') (hcreds : SameStanding g.creds g'.creds)
    (hprunes : g.Prunes g') (hstuck : ¬ copies) : Effect crypto copies host host' none
  | append {host' : GroupHost} {groupId : GroupId} {g g' : GroupState} {type : MessageType}
    {body : Bytes} {out : StreamAppend} (hwrite : host.Rewrites host' groupId g g')
    (hout : out.seq = g.nextSeq) (hseq : g'.nextSeq = g.nextSeq + 1)
    (hcopied : g.CopiedOnce crypto type body out.outers) (hprunes : g.Prunes g')
    (hcreds : ∀ c, removedBy type body ≠ some c →
      (g'.creds.lookup c).map CredRecord.standing = (g.creds.lookup c).map CredRecord.standing)
    (hremoved : ∀ c, removedBy type body = some c →
      (g'.creds.lookup c).map CredRecord.standing =
        (g.creds.lookup c).map fun _ ↦ (false, none)) :
    Effect crypto copies host host' (some (.appended groupId type body out))

/-- Every row an operation adds to a stream can be copied to all targets. -/
def GroupOp.Copies (crypto : Crypto) (usable : Key → Prop) (host : GroupHost) : GroupOp → Prop
  | append groupId cred type body _ => host.authorizeLive crypto groupId cred = .ok () →
      host.ChecksPass crypto groupId cred body type → ∀ g, host.groups.lookup groupId = some g →
        saturatingAdd g.bytes body.length ≤ streamMaxBytes → GroupHost.CanCopy usable g body
  | appendHostRevocation groupId stmt _ => ∀ g, host.groups.lookup groupId = some g →
      saturatingAdd g.bytes stmt.encode.length ≤ streamMaxBytes →
        GroupHost.CanCopy usable g stmt.encode
  | _ => True

theorem SameStanding.refl (creds : FiniteMap Key CredRecord) : SameStanding creds creds :=
  fun _ ↦ rfl

theorem GroupState.Prunes.of_eq {g g' : GroupState} (hpending : g'.pending = g.pending)
    (hinvites : g'.invites = g.invites) : g.Prunes g' := by
  constructor
  · intro pendingId p hp
    rwa [hpending] at hp
  · intro nonce hnonce
    rwa [hinvites] at hnonce

namespace GroupHost

variable {crypto : Crypto} {copies : Prop} {host host' : GroupHost} {groupId : GroupId}

theorem rewrites_putGroup {g : GroupState} (hg : host.groups.lookup groupId = some g)
    (g' : GroupState) : host.Rewrites (host.putGroup groupId g') groupId g g' where
  old := hg
  new := AList.lookup_insert _
  others id hid := by rw [putGroup, FiniteMap.lookup_insert_ite, if_neg hid]

/-- Only the groups count. -/
theorem Rewrites.of_groups {after : GroupHost} {g g' : GroupState}
    (h : host.Rewrites after groupId g g') (hgroups : host'.groups = after.groups) :
    host.Rewrites host' groupId g g' :=
  ⟨h.old, hgroups ▸ h.new, hgroups ▸ h.others⟩

theorem createGroupFor_effect {signingPk : Key} {fanout : FanoutTarget} {creator : Option Key}
    {cred : MemberCred} {result : Except ServerError CreatedGroup}
    (h : host.createGroupFor crypto signingPk fanout creator groupId cred = (result, host')) :
    Effect crypto copies host host' (result.toOption.map
      fun made ↦ .created made.groupId made.cred.credentialId) := by
  unfold createGroupFor at h
  dsimp only at h
  split at h
  · cases h
    exact .still fun _ ↦ rfl
  · cases h
    refine .create (AList.lookup_insert _) ?_ ?_ rfl rfl rfl
    · intro id hid
      rw [FiniteMap.lookup_insert_ite, if_neg hid]
    · intro c hc
      rw [FiniteMap.lookup_insert_ite, if_neg hc]
      rfl

theorem storeInvite_effect {cred : MemberCred} {invite : GroupInvite}
    {result : Except ServerError Unit}
    (h : host.storeInvite crypto groupId cred invite = (result, host')) :
    Effect crypto copies host host' (result.toOption.map fun _ ↦ .invited groupId invite.nonce) := by
  unfold storeInvite at h
  split at h
  · cases h
    exact .still fun _ ↦ rfl
  · split at h
    · cases h
      exact .still fun _ ↦ rfl
    · split at h
      · cases h
        exact .still fun _ ↦ rfl
      · split at h
        · cases h
          exact .still fun _ ↦ rfl
        · split at h
          · cases h
            exact .still fun _ ↦ rfl
          · rename_i g hg
            cases h
            refine .invite ((rewrites_putGroup hg _).of_groups rfl) rfl rfl rfl ?_
            intro nonce hnonce
            rw [FiniteMap.lookup_insert_ite, if_neg hnonce]

theorem accept_effect {nonce pendingId : Key} {cred : MemberCred}
    {result : Except ServerError PendingJoin}
    (h : host.accept crypto groupId nonce cred pendingId = (result, host')) :
    Effect crypto copies host host' (result.toOption.bind fun join ↦
      (((host.groups.lookup groupId).bind fun g ↦ g.invites.lookup nonce).map fun stored ↦
        .accepted groupId nonce join.pendingId join.cred.credentialId stored.expiresAt)) := by
  unfold accept at h
  split at h
  · cases h
    exact .still fun _ ↦ rfl
  · rename_i g hg
    split at h
    · cases h
      exact .still fun _ ↦ rfl
    · rename_i stored hstored
      dsimp only at h
      split at h
      · cases h
        refine .prune (rewrites_putGroup hg _) (.refl _) ⟨fun _ _ hp ↦ hp, fun nonce' hsome ↦ ?_⟩ rfl
        rw [FiniteMap.lookup_erase_ite] at hsome
        split_ifs at hsome
        · cases hsome
        · exact hsome
      · cases h
        have hfound : ((host.groups.lookup groupId).bind fun g ↦ g.invites.lookup nonce) =
            some stored := by
          rw [hg, Option.bind_some, hstored]
        rw [hfound]
        exact .accept ((rewrites_putGroup hg _).of_groups rfl) hstored rfl ⟨_, rfl, rfl⟩
          ⟨_, rfl, rfl, rfl⟩ rfl

theorem Rewrites.trans {mid : GroupHost} {g g' g'' : GroupState}
    (h : host.Rewrites mid groupId g g') (h' : mid.Rewrites host' groupId g' g'') :
    host.Rewrites host' groupId g g'' :=
  ⟨h.old, h'.new, fun id hid ↦ (h'.others id hid).trans (h.others id hid)⟩

theorem gcPending_group {g : GroupState} (hg : host.groups.lookup groupId = some g) :
    (host.gcPending groupId).now = host.now ∧
      ∃ g', host.Rewrites (host.gcPending groupId) groupId g g' ∧ g'.creds = g.creds ∧
        g'.nextSeq = g.nextSeq ∧ g.Prunes g' := by
  unfold gcPending
  rw [hg]
  refine ⟨rfl, _, rewrites_putGroup hg _, rfl, rfl, fun pendingId p hp ↦ ?_, fun nonce hsome ↦ ?_⟩
  · rw [FiniteMap.lookup_retain, Option.filter_eq_some_iff] at hp
    exact hp.1
  · obtain ⟨stored, hstored⟩ := Option.isSome_iff_exists.mp hsome
    rw [FiniteMap.lookup_retain, Option.filter_eq_some_iff] at hstored
    rw [hstored.1]
    rfl

/-- `admit` behind its checks: the pending join is taken, and the credential it reserved is live. -/
theorem admitPending_effect {mid : GroupHost} {g g' : GroupState} {pendingId joinerSigningPk : Key}
    {fanout : FanoutTarget} {result : Except ServerError Key}
    (h : mid.admitPending groupId pendingId joinerSigningPk fanout = (result, host'))
    (hmid : host.Rewrites mid groupId g g') (hnow : mid.now = host.now)
    (hcreds : g'.creds = g.creds) (hseq : g'.nextSeq = g.nextSeq) (hprunes : g.Prunes g') :
    Effect crypto copies host host'
      (result.toOption.map fun credentialId ↦ .admitted groupId pendingId credentialId) := by
  have hstanding : SameStanding g.creds g'.creds := hcreds ▸ .refl _
  unfold admitPending at h
  rw [hmid.new] at h
  dsimp only at h
  split at h
  · cases h
    exact .prune hmid hstanding hprunes hseq
  · rename_i reserved hreserved
    have htaken : g.Prunes { g' with pending := g'.pending.erase pendingId } := by
      refine ⟨fun id p hp ↦ hprunes.pending id p ?_, hprunes.invites⟩
      rw [FiniteMap.lookup_erase_ite] at hp
      split_ifs at hp
      exact hp
    have htake := hmid.trans (rewrites_putGroup hmid.new
      { g' with pending := g'.pending.erase pendingId })
    split at h
    · cases h
      exact .prune htake hstanding htaken hseq
    · rename_i hlate
      split at h
      · cases h
        exact .prune htake hstanding htaken hseq
      · rename_i record hrecord
        cases h
        refine .admission ((htake.trans (rewrites_putGroup htake.new _)).of_groups rfl)
          (hprunes.pending _ _ hreserved) ?_ ?_ ⟨htaken.pending, htaken.invites⟩ ?_ hseq
        · have hlate : ¬ mid.now ≥ reserved.expiresAt := hlate
          omega
        · intro c hc
          rw [FiniteMap.lookup_insert_ite, if_neg hc, hcreds]
        · rw [FiniteMap.lookup_erase_ite, if_pos rfl]

theorem admitJoiner_effect {admitter : MemberCred} {admission : GroupAdmit} {joinerSigningPk : Key}
    {fanout : FanoutTarget} {result : Except ServerError Key}
    (h : host.admitJoiner crypto groupId admitter admission joinerSigningPk fanout =
      (result, host')) :
    Effect crypto copies host host'
      (result.toOption.map fun credentialId ↦
        .admitted groupId admission.pendingId credentialId) := by
  unfold admitJoiner at h
  split at h
  · cases h
    exact .still fun _ ↦ rfl
  · rename_i hlive
    obtain ⟨g, hg⟩ := exists_group_of_authorizeLive crypto hlive
    split at h
    · cases h
      exact .still fun _ ↦ rfl
    · split at h
      · cases h
        exact .still fun _ ↦ rfl
      · split at h
        · cases h
          exact .still fun _ ↦ rfl
        · obtain ⟨hnow, g', hgc, hcreds, hseq, hprunes⟩ := gcPending_group hg
          exact admitPending_effect h (hgc.of_groups rfl) hnow hcreds hseq hprunes

/-- A record of a live credential may change its target and keys, nothing else may. -/
theorem sameStanding_insert {creds : FiniteMap Key CredRecord} {c : Key}
    {record record' : CredRecord} (hrecord : creds.lookup c = some record)
    (hstanding : record'.standing = record.standing) :
    SameStanding creds (creds.insert c record') := by
  intro c'
  rw [FiniteMap.lookup_insert_ite]
  split_ifs with hc
  · rw [hc, hrecord, Option.map_some, Option.map_some, hstanding]
  · rfl

theorem refreshFanout_effect {cred : MemberCred} {fanout : FanoutTarget}
    {result : Except ServerError Unit}
    (h : host.refreshFanout crypto groupId cred fanout = (result, host')) :
    Effect crypto copies host host' none := by
  unfold refreshFanout at h
  split at h
  · cases h
    exact .still fun _ ↦ rfl
  · rename_i hlive
    cases h
    unfold authorizeLive at hlive
    split at hlive
    · cases hlive
    · rename_i g hg
      split at hlive
      · rename_i record hrecord
        split at hlive
        · rename_i hsecret
          have hrecordLive : record.live = true := (Bool.and_eq_true_iff.mp hsecret).1
          unfold modifyCred
          rw [hg]
          dsimp only
          rw [hrecord]
          refine .prune ((rewrites_putGroup hg _).of_groups rfl) (sameStanding_insert hrecord ?_)
            (.of_eq rfl rfl) rfl
          simp [CredRecord.standing, hrecordLive]
        · cases hlive
      · cases hlive

/-! ## Appends -/

/-- The credentials behind the targets of `fanout_copy`. -/
def membersWithTarget (g : GroupState) : List (Key × FanoutTarget) :=
  g.creds.entries.filterMap fun e ↦ if e.2.live then e.2.fanout.map fun t ↦ (e.1, t) else none

theorem map_snd_membersWithTarget (g : GroupState) :
    (membersWithTarget g).map Prod.snd = fanoutTargets g := by
  rw [membersWithTarget, fanoutTargets, List.map_filterMap]
  refine List.filterMap_congr fun e _ ↦ ?_
  split_ifs
  · rw [Option.map_map]
    exact Option.map_id'
  · rfl

theorem mem_membersWithTarget {g : GroupState} {c : Key} {target : FanoutTarget} :
    (c, target) ∈ membersWithTarget g ↔ ∃ record, g.creds.lookup c = some record ∧
      record.live = true ∧ record.fanout = some target := by
  rw [membersWithTarget, List.mem_filterMap]
  constructor
  · rintro ⟨e, he, heq⟩
    split_ifs at heq with hlive
    obtain ⟨target', htarget, heq⟩ := Option.map_eq_some_iff.mp heq
    cases heq
    exact ⟨e.2, FiniteMap.lookup_eq_some_iff.mpr he, hlive, htarget⟩
  · rintro ⟨record, hrecord, hlive, htarget⟩
    refine ⟨⟨c, record⟩, FiniteMap.lookup_eq_some_iff.mp hrecord, ?_⟩
    rw [if_pos hlive, htarget]
    rfl

theorem nodup_membersWithTarget (g : GroupState) :
    ((membersWithTarget g).map Prod.fst).Nodup := by
  have hsub : ((membersWithTarget g).map Prod.fst).Sublist g.creds.keys := by
    rw [membersWithTarget, AList.keys, List.keys]
    generalize g.creds.entries = entries
    induction entries with
    | nil => exact .slnil
    | cons e entries ih =>
      rw [List.filterMap_cons, List.map_cons]
      split
      · exact ih.cons _
      · rename_i pair heq
        split_ifs at heq
        obtain ⟨target, -, rfl⟩ := Option.map_eq_some_iff.mp heq
        exact ih.cons_cons _
  exact g.creds.keys_nodup.sublist hsub

/-- Each copy is sealed for the target at its place. -/
theorem forall₂_of_sealCopies {f : FanoutTarget × ℕ → Except WireError OuterEnvelope}
    {P : Key × FanoutTarget → Prop} {pairs : List (Key × FanoutTarget)} (hP : ∀ pair ∈ pairs, P pair)
    {n : ℕ} {outers : List OuterEnvelope}
    (h : ((pairs.map Prod.snd).zipIdx n).mapM f = .ok outers) :
    List.Forall₂ (fun pair outer ↦ P pair ∧ ∃ i, f (pair.2, i) = .ok outer) pairs outers := by
  induction pairs generalizing n outers with
  | nil =>
    cases h
    exact .nil
  | cons pair pairs ih =>
    rw [List.map_cons, List.zipIdx_cons, List.mapM_cons] at h
    obtain ⟨outer, houter, h⟩ := bind_eq_ok.mp h
    obtain ⟨rest, hrest, h⟩ := bind_eq_ok.mp h
    cases h
    exact .cons ⟨hP pair List.mem_cons_self, n, houter⟩
      (ih (fun pair hpair ↦ hP pair (List.mem_cons_of_mem _ hpair)) hrest)

theorem copiedOnce_of_sealCopies {g : GroupState} {type : MessageType} {body : Bytes}
    {draws : ℕ → Key × Key} {outers : List OuterEnvelope}
    (h : sealCopies crypto g type body draws = .ok outers) :
    g.CopiedOnce crypto type body outers := by
  unfold sealCopies at h
  rw [← map_snd_membersWithTarget] at h
  refine ⟨(membersWithTarget g).map Prod.fst, nodup_membersWithTarget g, fun c ↦ ?_, ?_⟩
  · rw [List.mem_map]
    constructor
    · rintro ⟨⟨c', target⟩, hmem, rfl⟩
      obtain ⟨record, hrecord⟩ := mem_membersWithTarget.mp hmem
      exact ⟨record, target, hrecord⟩
    · rintro ⟨record, target, hrecord⟩
      exact ⟨(c, target), mem_membersWithTarget.mpr ⟨record, hrecord⟩, rfl⟩
  · rw [List.forall₂_map_left_iff]
    refine List.Forall₂.imp ?_ (forall₂_of_sealCopies (P := fun pair ↦ pair ∈ membersWithTarget g)
      (fun _ hpair ↦ hpair) h)
    rintro ⟨c, target⟩ outer ⟨hmem, i, houter⟩
    obtain ⟨record, hrecord, -, htarget⟩ := mem_membersWithTarget.mp hmem
    exact ⟨record, target, draws i, hrecord, htarget, houter⟩

/-- Keys and secrets do not matter to the copies. -/
theorem copiedOnce_congr {g g' : GroupState} {type : MessageType} {body : Bytes}
    {outers : List OuterEnvelope}
    (hsame : ∀ c, (g'.creds.lookup c).map (fun r ↦ (r.live, r.fanout)) =
      (g.creds.lookup c).map fun r ↦ (r.live, r.fanout))
    (h : g'.CopiedOnce crypto type body outers) : g.CopiedOnce crypto type body outers := by
  have hrecord {c : Key} {record : CredRecord} {creds creds' : FiniteMap Key CredRecord}
      (hsame : (creds'.lookup c).map (fun r ↦ (r.live, r.fanout)) =
        (creds.lookup c).map fun r ↦ (r.live, r.fanout))
      (hrecord : creds.lookup c = some record) : ∃ record', creds'.lookup c = some record' ∧
        record'.live = record.live ∧ record'.fanout = record.fanout := by
    rw [hrecord, Option.map_some] at hsame
    obtain ⟨record', hrecord', heq⟩ := Option.map_eq_some_iff.mp hsame
    exact ⟨record', hrecord', congrArg Prod.fst heq, congrArg Prod.snd heq⟩
  obtain ⟨members, hnodup, hmembers, hcopies⟩ := h
  refine ⟨members, hnodup, fun c ↦ ?_, hcopies.imp ?_⟩
  · rw [hmembers]
    constructor
    · rintro ⟨record, target, hr, hlive, hfanout⟩
      obtain ⟨record', hr', hlive', hfanout'⟩ := hrecord (hsame c).symm hr
      exact ⟨record', target, hr', hlive'.trans hlive, hfanout'.trans hfanout⟩
    · rintro ⟨record, target, hr, hlive, hfanout⟩
      obtain ⟨record', hr', hlive', hfanout'⟩ := hrecord (hsame c) hr
      exact ⟨record', target, hr', hlive'.trans hlive, hfanout'.trans hfanout⟩
  · rintro c outer ⟨record, target, draw, hr, hfanout, hsealed⟩
    obtain ⟨record', hr', -, hfanout'⟩ := hrecord (hsame c).symm hr
    exact ⟨record', target, draw, hr', hfanout'.trans hfanout, hsealed⟩

/-- A row in the stream changes nothing about the members. -/
theorem rewrites_pushRow {ready : GroupHost} {g g' : GroupState}
    (hready : host.Rewrites ready groupId g g') (type : MessageType) (body : Bytes) :
    host.Rewrites (ready.pushRow groupId g' type body) groupId g
      { g' with
        nextSeq := g'.nextSeq + 1
        bytes := saturatingAdd g'.bytes body.length
        stream := g'.stream ++ [{ seq := g'.nextSeq, type, body, receivedAt := ready.now }] } where
  old := hready.old
  new := AList.lookup_insert _
  others id hid := by
    rw [pushRow, FiniteMap.lookup_insert_ite, if_neg hid]
    exact hready.others id hid

/-- What `settled` does to the records of a group. -/
theorem settled_group {after : GroupHost} {now : ℕ} {g : GroupState} {cred : MemberCred}
    {type : MessageType} {body : Bytes} (hg : after.groups.lookup groupId = some g) :
    ∃ g', after.Rewrites (after.settled now groupId cred body type) groupId g g' ∧
      g'.nextSeq = g.nextSeq ∧ g.Prunes g' ∧
      (∀ c, removedBy type body ≠ some c → g'.creds.lookup c = g.creds.lookup c) ∧
      ∀ c, removedBy type body = some c → (g'.creds.lookup c).map CredRecord.standing =
        (g.creds.lookup c).map fun _ ↦ (false, none) := by
  have hsame {after' : GroupHost} (hgroups : after'.groups = after.groups)
      (hnone : removedBy type body = none) :
      ∃ g', after.Rewrites after' groupId g g' ∧ g'.nextSeq = g.nextSeq ∧ g.Prunes g' ∧
        (∀ c, removedBy type body ≠ some c → g'.creds.lookup c = g.creds.lookup c) ∧
        ∀ c, removedBy type body = some c → (g'.creds.lookup c).map CredRecord.standing =
          (g.creds.lookup c).map fun _ ↦ (false, none) := by
    refine ⟨g, ⟨hg, hgroups ▸ hg, fun id _ ↦ by rw [hgroups]⟩, rfl, .of_eq rfl rfl, fun _ _ ↦ rfl,
      fun c hc ↦ ?_⟩
    rw [hnone] at hc
    cases hc
  cases type with
  | doubleRatchet | mlsApp | attachmentDr | signingKeyReplace | revocationStatement |
    mlsHandshake => exact hsame rfl rfl
  | attachmentReserve =>
    dsimp only [settled]
    split
    · exact hsame rfl rfl
    · exact hsame rfl rfl
  | removeBundle =>
    dsimp only [settled]
    split
    · rename_i hbundle
      exact hsame rfl (by rw [removedBy, if_pos rfl, hbundle]; rfl)
    · rename_i bundle hbundle
      have hnamed : removedBy .removeBundle body = some bundle.credentialId := by
        rw [removedBy, if_pos rfl, hbundle]
        rfl
      rw [hnamed]
      unfold modifyCred
      rw [hg]
      dsimp only
      split
      · rename_i hnone
        refine ⟨g, ⟨hg, hg, fun _ _ ↦ rfl⟩, rfl, .of_eq rfl rfl, fun _ _ ↦ rfl, fun c hc ↦ ?_⟩
        rw [← Option.some.inj hc, hnone]
        rfl
      · rename_i record hrecord
        refine ⟨_, (rewrites_putGroup hg _).of_groups rfl, rfl, .of_eq rfl rfl, fun c hc ↦ ?_,
          fun c hc ↦ ?_⟩
        · rw [FiniteMap.lookup_insert_ite, if_neg]
          rintro rfl
          exact hc rfl
        · rw [← Option.some.inj hc, AList.lookup_insert, hrecord]
          rfl

/-- What `fanout_copy` leaves, seen from the host before the append. -/
theorem fanoutCopy_effect {usable : Key → Prop} (hseals : crypto.SealsByKey usable)
    {ready : GroupHost} {g g' : GroupState} {type : MessageType} {body : Bytes}
    {draws : ℕ → Key × Key} (htype : type.isAttachment = false)
    (hready : host.Rewrites ready groupId g g') (hseq : g'.nextSeq = g.nextSeq)
    (hprunes : g.Prunes g') (hkeeps : ∀ c, (g'.creds.lookup c).map (fun r ↦ (r.live, r.fanout)) =
      (g.creds.lookup c).map fun r ↦ (r.live, r.fanout))
    (hcopies : copies → saturatingAdd g'.bytes body.length ≤ streamMaxBytes →
      CanCopy usable g' body)
    {result : Except ServerError StreamAppend} {after : GroupHost}
    (h : ready.fanoutCopy crypto groupId type body draws = (result, after)) :
    (∀ e, result = .error e → Effect crypto copies host after none) ∧
      ∀ out, result = .ok out → out.seq = g.nextSeq ∧ g.CopiedOnce crypto type body out.outers ∧
        ∃ g'', host.Rewrites after groupId g g'' ∧ g''.nextSeq = g.nextSeq + 1 ∧ g.Prunes g'' ∧
          SameStanding g.creds g''.creds := by
  have hstanding : SameStanding g.creds g'.creds := by
    intro c
    have hc := congrArg
      (Option.map fun r : Bool × Option FanoutTarget ↦ (r.1, if r.1 then none else r.2)) (hkeeps c)
    rw [Option.map_map, Option.map_map] at hc
    exact hc
  have hpush := rewrites_pushRow hready type body
  rw [fanoutCopy_of_group crypto hready.new] at h
  split_ifs at h with hcap
  · cases h
    refine ⟨fun _ _ ↦ .prune hready hstanding hprunes hseq, fun out hout ↦ ?_⟩
    cases hout
  · split at h
    · rename_i e hfails
      cases h
      refine ⟨fun _ _ ↦ .fail hpush hstanding ⟨hprunes.pending, hprunes.invites⟩ fun hcopy ↦ ?_,
        fun out hout ↦ ?_⟩
      · obtain ⟨outers, houters⟩ := (exists_sealCopies_iff crypto hseals htype g' body draws).mpr
          (hcopies hcopy (Nat.not_lt.mp hcap))
        rw [hfails] at houters
        cases houters
      · cases hout
    · rename_i outers houters
      cases h
      refine ⟨fun e he ↦ (by cases he), fun out hout ↦ ?_⟩
      cases hout
      exact ⟨hseq, copiedOnce_congr hkeeps (copiedOnce_of_sealCopies houters), _, hpush,
        congrArg (· + 1) hseq, ⟨hprunes.pending, hprunes.invites⟩, hstanding⟩

theorem append_effect {usable : Key → Prop} (hseals : crypto.SealsByKey usable) {cred : MemberCred}
    {type : MessageType} {body : Bytes} {draws : ℕ → Key × Key}
    {result : Except ServerError StreamAppend}
    (h : host.append crypto groupId cred type body draws = (result, host')) :
    Effect crypto ((GroupOp.append groupId cred type body draws).Copies crypto usable host) host
      host' (result.toOption.map fun out ↦ .appended groupId type body out) := by
  by_cases hpasses : host.authorizeLive crypto groupId cred = .ok () ∧
      host.ChecksPass crypto groupId cred body type
  · obtain ⟨hlive, hpass⟩ := hpasses
    obtain ⟨g, hg⟩ := exists_group_of_authorizeLive crypto hlive
    have htype : type.isAttachment = false := by
      cases type with
      | attachmentDr => cases hpass
      | _ => rfl
    have hcan : (GroupOp.append groupId cred type body draws).Copies crypto usable host →
        saturatingAdd g.bytes body.length ≤ streamMaxBytes → CanCopy usable g body :=
      fun hcopies ↦ hcopies hlive hpass g hg
    -- the host that goes into `fanout_copy` has at most a new signing key
    obtain ⟨g', hready, hseq, hbytes, hprunes, hkeeps, hcopy⟩ : ∃ g',
        host.Rewrites (host.readied groupId cred body type) groupId g g' ∧
          g'.nextSeq = g.nextSeq ∧ g'.bytes = g.bytes ∧ g.Prunes g' ∧
          (∀ c, (g'.creds.lookup c).map (fun r ↦ (r.live, r.fanout)) =
            (g.creds.lookup c).map fun r ↦ (r.live, r.fanout)) ∧
          (CanCopy usable g' body ↔ CanCopy usable g body) := by
      rcases readied_group hpass hg with ⟨-, hsame⟩ | ⟨replace, record, -, -, hrecord, hreplaced⟩
      · rw [hsame]
        exact ⟨g, ⟨hg, hg, fun _ _ ↦ rfl⟩, rfl, rfl, .of_eq rfl rfl, fun _ ↦ rfl, Iff.rfl⟩
      · rw [hreplaced]
        refine ⟨_, (rewrites_putGroup hg _).of_groups rfl, rfl, rfl, .of_eq rfl rfl, fun c ↦ ?_,
          canCopy_replaceKey hrecord⟩
        rw [FiniteMap.lookup_insert_ite]
        split_ifs with hc
        · rw [hc, hrecord]
          rfl
        · rfl
    rw [append_passed draws hlive hpass] at h
    split at h
    · rename_i e after heq
      cases h
      refine (fanoutCopy_effect hseals htype hready hseq hprunes hkeeps ?_ heq).1 e rfl
      exact fun hcopies hcap ↦ hcopy.mpr (hcan hcopies (hbytes ▸ hcap))
    · rename_i out after heq
      cases h
      obtain ⟨hout, hcopied, g'', hafter, hnext, hprunes', hstanding⟩ :=
        (fanoutCopy_effect hseals htype hready hseq hprunes hkeeps False.elim heq).2 out rfl
      obtain ⟨g₃, hsettled, hseq₃, hprunes₃, hothers, hnamed⟩ := settled_group hafter.new
      refine .append (hafter.trans hsettled) hout (hseq₃.trans hnext) hcopied
        ⟨fun id p hp ↦ hprunes'.pending id p (hprunes₃.pending id p hp),
          fun nonce hsome ↦ hprunes'.invites nonce (hprunes₃.invites nonce hsome)⟩ ?_ ?_
      · intro c hc
        rw [hothers c hc, hstanding c]
      · intro c hc
        have hknown := congrArg (Option.map fun _ ↦ (false, (none : Option FanoutTarget)))
          (hstanding c)
        rw [Option.map_map, Option.map_map] at hknown
        exact (hnamed c hc).trans hknown
  · obtain ⟨e, heq⟩ := append_refused draws fun hlive hpass ↦ hpasses ⟨hlive, hpass⟩
    rw [heq] at h
    cases h
    exact .still fun _ ↦ rfl

theorem appendHostRevocation_effect {usable : Key → Prop} (hseals : crypto.SealsByKey usable)
    {stmt : RevocationStatement} {draws : ℕ → Key × Key} {result : Except ServerError StreamAppend}
    (h : host.appendHostRevocation crypto groupId stmt draws = (result, host')) :
    Effect crypto ((GroupOp.appendHostRevocation groupId stmt draws).Copies crypto usable host) host
      host' (result.toOption.map
        fun out ↦ .appended groupId .revocationStatement stmt.encode out) := by
  unfold appendHostRevocation at h
  cases hg : host.groups.lookup groupId with
  | none =>
    rw [hg] at h
    cases h
    exact .still fun _ ↦ rfl
  | some g =>
    rw [hg, if_neg (by simp)] at h
    have hcan (hcopies : (GroupOp.appendHostRevocation groupId stmt draws).Copies crypto usable
        host) := hcopies g hg
    obtain ⟨herror, hok⟩ := fanoutCopy_effect hseals rfl ⟨hg, hg, fun _ _ ↦ rfl⟩ rfl (.of_eq rfl rfl)
      (fun _ ↦ rfl) hcan h
    cases result with
    | error e => exact herror e rfl
    | ok out =>
      obtain ⟨hout, hcopied, g', hafter, hnext, hprunes, hstanding⟩ := hok out rfl
      exact .append hafter hout hnext hcopied hprunes (fun c _ ↦ hstanding c) fun c hc ↦ by cases hc

theorem groups_uploadFile (crypto : Crypto) (host : GroupHost) (groupId : GroupId)
    (cred : MemberCred) (fetchToken : Key) (body : Bytes) :
    (host.uploadFile crypto groupId cred fetchToken body).2.groups = host.groups := by
  unfold uploadFile
  split
  · rfl
  · split
    · rfl
    · split_ifs <;> rfl

end GroupHost

/-- Every operation has one of the effects. -/
theorem GroupOp.effect {crypto : Crypto} {usable : Key → Prop} (hseals : crypto.SealsByKey usable)
    (host : GroupHost) (op : GroupOp) :
    Effect crypto (op.Copies crypto usable host) host (op.apply crypto host)
      (op.event crypto host) := by
  cases op with
  | setNow now => exact .still fun _ ↦ rfl
  | createGroupFor signingPk fanout creator groupId cred =>
    exact GroupHost.createGroupFor_effect (Prod.eta _).symm
  | storeInvite groupId cred invite => exact GroupHost.storeInvite_effect (Prod.eta _).symm
  | accept groupId nonce cred pendingId => exact GroupHost.accept_effect (Prod.eta _).symm
  | admitJoiner groupId admitter admission joinerSigningPk fanout =>
    exact GroupHost.admitJoiner_effect (Prod.eta _).symm
  | refreshFanout groupId cred fanout => exact GroupHost.refreshFanout_effect (Prod.eta _).symm
  | append groupId cred type body draws =>
    exact GroupHost.append_effect hseals (Prod.eta _).symm
  | appendHostRevocation groupId stmt draws =>
    exact GroupHost.appendHostRevocation_effect hseals (Prod.eta _).symm
  | uploadFile groupId cred fetchToken body =>
    refine .still fun id ↦ ?_
    rw [GroupOp.apply, GroupHost.groups_uploadFile]

end NemoMessenger.Server
