import NemoMessenger.Data.Run
import NemoMessenger.Server.Group

/-!
# Operations of the group host

`GroupOp` lists everything a group host can be asked to do and `GroupOp.apply` is the step function
of its runs. As for the home server, every operation is a chain of edits, each with the journal
entries it makes.
-/

namespace NemoMessenger.Server

open NemoMessenger.Data NemoMessenger.Wire

/-- Everything that changes a group host. -/
inductive GroupOp
  | setNow (now : UInt64)
  | createGroupFor (signingPk : Key) (fanout : FanoutTarget) (creator : Option Key)
      (groupId : GroupId) (cred : MemberCred)
  | storeInvite (groupId : GroupId) (cred : MemberCred) (invite : GroupInvite)
  | accept (groupId : GroupId) (nonce : Key) (cred : MemberCred) (pendingId : Key)
  | admitJoiner (groupId : GroupId) (admitter : MemberCred) (admission : GroupAdmit)
      (joinerSigningPk : Key) (fanout : FanoutTarget)
  | refreshFanout (groupId : GroupId) (cred : MemberCred) (fanout : FanoutTarget)
  | append (groupId : GroupId) (cred : MemberCred) (type : MessageType) (body : Bytes)
      (draws : ℕ → Key × Key)
  | appendHostRevocation (groupId : GroupId) (stmt : RevocationStatement) (draws : ℕ → Key × Key)
  | uploadFile (groupId : GroupId) (cred : MemberCred) (fetchToken : Key) (body : Bytes)

/-- The host an operation leaves, whether or not it succeeds. -/
def GroupOp.apply (crypto : Crypto) (host : GroupHost) : GroupOp → GroupHost
  | setNow now => { host with now := now.toNat }
  | createGroupFor signingPk fanout creator groupId cred =>
    (host.createGroupFor crypto signingPk fanout creator groupId cred).2
  | storeInvite groupId cred invite => (host.storeInvite crypto groupId cred invite).2
  | accept groupId nonce cred pendingId => (host.accept crypto groupId nonce cred pendingId).2
  | admitJoiner groupId admitter admission joinerSigningPk fanout =>
    (host.admitJoiner crypto groupId admitter admission joinerSigningPk fanout).2
  | refreshFanout groupId cred fanout => (host.refreshFanout crypto groupId cred fanout).2
  | append groupId cred type body draws => (host.append crypto groupId cred type body draws).2
  | appendHostRevocation groupId stmt draws =>
    (host.appendHostRevocation crypto groupId stmt draws).2
  | uploadFile groupId cred fetchToken body =>
    (host.uploadFile crypto groupId cred fetchToken body).2

/-- The conditions under which the persistence of an operation is promised: a new group has a fresh
number, and an invite that is accepted has not expired. -/
def GroupOp.Admissible (host : GroupHost) : GroupOp → Prop
  | createGroupFor _ _ _ groupId _ => host.groups.lookup groupId = none
  | accept groupId nonce _ _ => ∀ g stored, host.groups.lookup groupId = some g →
      g.invites.lookup nonce = some stored → host.now < stored.expiresAt
  | _ => True

/-- A new group has a fresh number, and the clock does not go back. -/
def GroupOp.Steady (host : GroupHost) : GroupOp → Prop
  | createGroupFor _ _ _ groupId _ => host.groups.lookup groupId = none
  | setNow now => host.now ≤ now.toNat
  | _ => True

/-- What the operations of a run promise: fresh group ids, no late accepts, a clock that does not go
back. -/
structure GroupPromises where
  fresh : Prop
  unexpired : Prop
  steady : Prop

namespace GroupPromises

/-- What `GroupOp.Admissible` promises. -/
def admissible : GroupPromises := ⟨True, True, False⟩

/-- What `GroupOp.Steady` promises. -/
def steadily : GroupPromises := ⟨True, False, True⟩

end GroupPromises

/-- The conditions on an operation that promises ask for. -/
def GroupOp.Meets (promises : GroupPromises) (host : GroupHost) : GroupOp → Prop
  | createGroupFor _ _ _ groupId _ => promises.fresh → host.groups.lookup groupId = none
  | accept groupId nonce _ _ => promises.unexpired → ∀ g stored,
      host.groups.lookup groupId = some g → g.invites.lookup nonce = some stored →
        host.now < stored.expiresAt
  | setNow now => promises.steady → host.now ≤ now.toNat
  | _ => True

theorem GroupOp.Admissible.meets {host : GroupHost} {op : GroupOp} (h : op.Admissible host) :
    op.Meets .admissible host := by
  cases op with
  | createGroupFor | accept => exact fun _ ↦ h
  | setNow now => exact False.elim
  | _ => trivial

theorem GroupOp.Steady.meets {host : GroupHost} {op : GroupOp} (h : op.Steady host) :
    op.Meets .steadily host := by
  cases op with
  | createGroupFor | setNow => exact fun _ ↦ h
  | accept => exact False.elim
  | _ => trivial

/-! ## Edits -/

/-- Two states of a group have the same stream and counters. -/
def GroupState.SameStream (g g' : GroupState) : Prop :=
  g'.nextSeq = g.nextSeq ∧ g'.bytes = g.bytes ∧ g'.stream = g.stream ∧ g'.creator = g.creator

/-- Invites of a group are the old ones, but for an expired one that went away without a promise. -/
def GroupPromises.KeepInvites (promises : GroupPromises) (now : ℕ) (g g' : GroupState) : Prop :=
  ∀ nonce, g'.invites.lookup nonce = g.invites.lookup nonce ∨
    ¬ promises.unexpired ∧ g'.invites.lookup nonce = none ∧
      ∃ stored, g.invites.lookup nonce = some stored ∧ stored.expiresAt ≤ now

theorem GroupPromises.keepInvites_refl (promises : GroupPromises) {now : ℕ} {g g' : GroupState}
    (h : g'.invites = g.invites) : promises.KeepInvites now g g' := fun _ ↦ .inl (by rw [h])

/-- An edit of a group host, with what was promised of it. -/
inductive GroupEdit (promises : GroupPromises) : GroupHost → GroupHost → Prop
  | clock (host : GroupHost) (now : ℕ) (hsteady : promises.steady → host.now ≤ now) :
    GroupEdit promises host { host with now }
  | create (host : GroupHost) (groupId : GroupId) (g : GroupState) (credentialId : Key)
    (hfresh : promises.fresh → host.groups.lookup groupId = none)
    (hcreds : ∀ c ≠ credentialId, g.creds.lookup c = none) (hinvites : g.invites = ∅)
    (hpending : g.pending = ∅) (hstream : g.stream = []) :
    GroupEdit promises host
      { host with
        groups := host.groups.insert groupId g
        dirty :=
          { host.dirty with
            groups := host.dirty.groups.insert groupId
            creds := host.dirty.creds.insert (groupId, credentialId) } }
  | members (host : GroupHost) (groups : FiniteMap GroupId GroupState) (groupId : GroupId)
    (g g' : GroupState) (creds : List (GroupId × Key)) (invites pending : List GroupId)
    (hold : host.groups.lookup groupId = some g) (hnew : groups.lookup groupId = some g')
    (hothers : ∀ id ≠ groupId, groups.lookup id = host.groups.lookup id)
    (hstream : g.SameStream g')
    (hcreds : host.dirty.creds ⊆ creds ∧
      ∀ c, (groupId, c) ∉ creds → g'.creds.lookup c = g.creds.lookup c)
    (hcredsKept : ∀ c, (g.creds.lookup c).isSome → (g'.creds.lookup c).isSome)
    (hinvites : host.dirty.invites ⊆ invites ∧
      (groupId ∉ invites → promises.KeepInvites host.now g g'))
    (hpending : host.dirty.pending ⊆ pending ∧
      (groupId ∉ pending → g'.pending = g.pending)) :
    GroupEdit promises host
      { host with groups, dirty := { host.dirty with creds, invites, pending } }
  | pushRow (host : GroupHost) (groupId : GroupId) (g : GroupState) (type : MessageType)
    (body : Bytes) (hold : host.groups.lookup groupId = some g) :
    GroupEdit promises host (host.pushRow groupId g type body)
  | putFile (host : GroupHost) (fetchToken : Key) (slot : FileSlot)
    (hknown : (host.groups.lookup slot.groupId).isSome) :
    GroupEdit promises host (host.putFile fetchToken slot)

abbrev GroupEdits (promises : GroupPromises) := Chain (GroupEdit promises)

namespace GroupHost

variable (crypto : Crypto) (promises : GroupPromises)

theorem createGroupFor_edits (host : GroupHost) (signingPk : Key) (fanout : FanoutTarget)
    (creator : Option Key) (groupId : GroupId) (cred : MemberCred)
    (hfresh : promises.fresh → host.groups.lookup groupId = none) :
    GroupEdits promises host (host.createGroupFor crypto signingPk fanout creator groupId cred).2 := by
  unfold createGroupFor
  dsimp only
  split
  · exact .refl
  · refine .single (.create host groupId _ cred.credentialId hfresh ?_ rfl rfl rfl)
    intro c hc
    rw [FiniteMap.lookup_insert_ite, if_neg hc]
    rfl

/-- Replacing members of a group, with the journal entries made for it. -/
theorem putGroup_edit {host : GroupHost} {groupId : GroupId} {g g' : GroupState}
    {creds : List (GroupId × Key)} {invites pending : List GroupId}
    (hold : host.groups.lookup groupId = some g) (hstream : g.SameStream g')
    (hcreds : host.dirty.creds ⊆ creds ∧
      ∀ c, (groupId, c) ∉ creds → g'.creds.lookup c = g.creds.lookup c)
    (hcredsKept : ∀ c, (g.creds.lookup c).isSome → (g'.creds.lookup c).isSome)
    (hinvites : host.dirty.invites ⊆ invites ∧
      (groupId ∉ invites → promises.KeepInvites host.now g g'))
    (hpending : host.dirty.pending ⊆ pending ∧
      (groupId ∉ pending → g'.pending = g.pending)) :
    GroupEdit promises host
      { host.putGroup groupId g' with dirty := { host.dirty with creds, invites, pending } } := by
  refine .members host _ groupId g g' creds invites pending hold ?_ ?_ hstream hcreds hcredsKept
    hinvites hpending
  · exact AList.lookup_insert _
  · intro id hid
    rw [putGroup, FiniteMap.lookup_insert_ite, if_neg hid]

/-- Journal entries for a known group change nothing else. -/
theorem marks_edit {host : GroupHost} {groupId : GroupId} {g : GroupState}
    {creds : List (GroupId × Key)} {invites pending : List GroupId}
    (hold : host.groups.lookup groupId = some g) (hcreds : host.dirty.creds ⊆ creds)
    (hinvites : host.dirty.invites ⊆ invites) (hpending : host.dirty.pending ⊆ pending) :
    GroupEdit promises host { host with dirty := { host.dirty with creds, invites, pending } } :=
  .members host host.groups groupId g g creds invites pending hold hold (fun _ _ ↦ rfl)
    ⟨rfl, rfl, rfl, rfl⟩ ⟨hcreds, fun _ _ ↦ rfl⟩ (fun _ h ↦ h)
    ⟨hinvites, fun _ ↦ promises.keepInvites_refl rfl⟩ ⟨hpending, fun _ ↦ rfl⟩

theorem storeInvite_edits (host : GroupHost) (groupId : GroupId) (cred : MemberCred)
    (invite : GroupInvite) :
    GroupEdits promises host (host.storeInvite crypto groupId cred invite).2 := by
  unfold storeInvite
  split
  · exact .refl
  · split
    · exact .refl
    · split
      · exact .refl
      · split
        · exact .refl
        · split
          · exact .refl
          · rename_i g hg
            refine .single (putGroup_edit promises hg ⟨rfl, rfl, rfl, rfl⟩
              ⟨fun _ h ↦ h, fun _ _ ↦ rfl⟩ (fun _ h ↦ h)
              ⟨fun _ h ↦ List.mem_insert_of_mem h, fun hnot ↦ absurd List.mem_insert_self hnot⟩
              ⟨fun _ h ↦ h, fun _ ↦ rfl⟩)

theorem accept_edits (host : GroupHost) (groupId : GroupId) (nonce : Key) (cred : MemberCred)
    (pendingId : Key)
    (hlive : promises.unexpired → ∀ g stored, host.groups.lookup groupId = some g →
      g.invites.lookup nonce = some stored → host.now < stored.expiresAt) :
    GroupEdits promises host (host.accept crypto groupId nonce cred pendingId).2 := by
  unfold accept
  split
  · exact .refl
  · rename_i g hg
    split
    · exact .refl
    · rename_i stored hstored
      dsimp only
      split
      · -- the expired invite is gone from memory and nothing says so to the journal
        rename_i hexpired
        refine .single (putGroup_edit promises hg ⟨rfl, rfl, rfl, rfl⟩
          ⟨fun _ h ↦ h, fun _ _ ↦ rfl⟩ (fun _ h ↦ h)
          ⟨fun _ h ↦ h, fun _ nonce' ↦ ?_⟩ ⟨fun _ h ↦ h, fun _ ↦ rfl⟩)
        rw [FiniteMap.lookup_erase_ite]
        split_ifs with hnonce
        · refine .inr ⟨fun hpromise ↦ ?_, rfl, stored, hnonce ▸ hstored, hexpired⟩
          exact absurd (hlive hpromise g stored hg hstored) (Nat.not_lt.mpr hexpired)
        · exact .inl rfl
      · refine .single (putGroup_edit promises hg ⟨rfl, rfl, rfl, rfl⟩
          ⟨fun _ h ↦ List.mem_insert_of_mem h, ?_⟩ ?_
          ⟨fun _ h ↦ List.mem_insert_of_mem h, fun hnot ↦ absurd List.mem_insert_self hnot⟩
          ⟨fun _ h ↦ List.mem_insert_of_mem h, fun hnot ↦ absurd List.mem_insert_self hnot⟩)
        · intro c hc
          rw [FiniteMap.lookup_insert_ite, if_neg]
          rintro rfl
          exact hc List.mem_insert_self
        · intro c hc
          rw [FiniteMap.lookup_insert_ite]
          split_ifs
          · rfl
          · exact hc

theorem exists_group_of_authorizeLive {host : GroupHost} {groupId : GroupId} {cred : MemberCred}
    (h : host.authorizeLive crypto groupId cred = .ok ()) :
    ∃ g, host.groups.lookup groupId = some g := by
  unfold authorizeLive at h
  split at h
  · cases h
  · rename_i g hg
    exact ⟨g, hg⟩

theorem admitPending_edits {host : GroupHost} {groupId : GroupId}
    (hmarked : groupId ∈ host.dirty.pending) (pendingId joinerSigningPk : Key)
    (fanout : FanoutTarget) :
    GroupEdits promises host (host.admitPending groupId pendingId joinerSigningPk fanout).2 := by
  unfold admitPending
  split
  · exact .refl
  · rename_i g hg
    split
    · exact .refl
    · rename_i reserved hreserved
      have htake : GroupEdit promises host
          (host.putGroup groupId { g with pending := g.pending.erase pendingId }) :=
        putGroup_edit promises hg ⟨rfl, rfl, rfl, rfl⟩ ⟨fun _ h ↦ h, fun _ _ ↦ rfl⟩ (fun _ h ↦ h)
          ⟨fun _ h ↦ h, fun _ ↦ promises.keepInvites_refl rfl⟩
          ⟨fun _ h ↦ h, fun hnot ↦ absurd hmarked hnot⟩
      dsimp only
      split
      · exact .single htake
      · split
        · exact .single htake
        · refine (Relation.ReflTransGen.single htake).tail (putGroup_edit promises
            (AList.lookup_insert _) ⟨rfl, rfl, rfl, rfl⟩
            ⟨fun _ h ↦ List.mem_insert_of_mem h, ?_⟩ ?_
            ⟨fun _ h ↦ h, fun _ ↦ promises.keepInvites_refl rfl⟩ ⟨fun _ h ↦ h, fun _ ↦ rfl⟩)
          · intro c hc
            rw [FiniteMap.lookup_insert_ite, if_neg]
            rintro rfl
            exact hc List.mem_insert_self
          · intro c hc
            rw [FiniteMap.lookup_insert_ite]
            split_ifs
            · rfl
            · exact hc

theorem admitJoiner_edits (host : GroupHost) (groupId : GroupId) (admitter : MemberCred)
    (admission : GroupAdmit) (joinerSigningPk : Key) (fanout : FanoutTarget) :
    GroupEdits promises host
      (host.admitJoiner crypto groupId admitter admission joinerSigningPk fanout).2 := by
  unfold admitJoiner
  split
  · exact .refl
  · rename_i hlive
    obtain ⟨g, hg⟩ := exists_group_of_authorizeLive crypto hlive
    split
    · exact .refl
    · split
      · exact .refl
      · split
        · exact .refl
        · have hgc : GroupEdit promises host
              (((host.gcPending groupId).markInvites groupId).markPending groupId) := by
            unfold gcPending
            rw [hg]
            exact putGroup_edit promises hg ⟨rfl, rfl, rfl, rfl⟩ ⟨fun _ h ↦ h, fun _ _ ↦ rfl⟩
              (fun _ h ↦ h)
              ⟨fun _ h ↦ List.mem_insert_of_mem h, fun hnot ↦ absurd List.mem_insert_self hnot⟩
              ⟨fun _ h ↦ List.mem_insert_of_mem h, fun hnot ↦ absurd List.mem_insert_self hnot⟩
          exact (Relation.ReflTransGen.single hgc).trans
            (admitPending_edits promises List.mem_insert_self _ _ _)

/-- A record of a known group is changed and journalled; without a record only the journal is
written. -/
theorem modifyCred_edit {host : GroupHost} {groupId : GroupId} {g : GroupState}
    (hold : host.groups.lookup groupId = some g) (credentialId : Key)
    (update : CredRecord → CredRecord) :
    GroupEdit promises host
      ((host.modifyCred groupId credentialId update).markCred groupId credentialId) := by
  unfold modifyCred
  rw [hold]
  dsimp only
  split
  · exact marks_edit promises hold (fun _ h ↦ List.mem_insert_of_mem h) (fun _ h ↦ h) fun _ h ↦ h
  · refine putGroup_edit promises hold ⟨rfl, rfl, rfl, rfl⟩ ⟨fun _ h ↦ List.mem_insert_of_mem h, ?_⟩
      ?_ ⟨fun _ h ↦ h, fun _ ↦ promises.keepInvites_refl rfl⟩ ⟨fun _ h ↦ h, fun _ ↦ rfl⟩
    · intro c hc
      rw [FiniteMap.lookup_insert_ite, if_neg]
      rintro rfl
      exact hc List.mem_insert_self
    · intro c hc
      rw [FiniteMap.lookup_insert_ite]
      split_ifs
      · rfl
      · exact hc

theorem refreshFanout_edits (host : GroupHost) (groupId : GroupId) (cred : MemberCred)
    (fanout : FanoutTarget) :
    GroupEdits promises host (host.refreshFanout crypto groupId cred fanout).2 := by
  unfold refreshFanout
  split
  · exact .refl
  · rename_i hlive
    obtain ⟨g, hg⟩ := exists_group_of_authorizeLive crypto hlive
    exact .single (modifyCred_edit promises hg _ _)

/-! ## Streams -/

theorem fanoutCopy_edits (host : GroupHost) (groupId : GroupId) (type : MessageType) (body : Bytes)
    (draws : ℕ → Key × Key) :
    GroupEdits promises host (host.fanoutCopy crypto groupId type body draws).2 := by
  unfold fanoutCopy
  split
  · exact .refl
  · rename_i g hg
    split
    · exact .refl
    · dsimp only
      split <;> exact .single (.pushRow host groupId g type body hg)

/-- A copy goes out to a known group only, which stays known. -/
theorem isSome_fanoutCopy {host host' : GroupHost} {groupId : GroupId} {type : MessageType}
    {body : Bytes} {draws : ℕ → Key × Key} {out : StreamAppend}
    (h : host.fanoutCopy crypto groupId type body draws = (.ok out, host')) :
    (host'.groups.lookup groupId).isSome := by
  unfold fanoutCopy at h
  split at h
  · cases h
  · split at h
    · cases h
    · dsimp only at h
      split at h
      · cases h
      · cases h
        rw [pushRow, AList.lookup_insert]
        rfl

theorem appendHostRevocation_edits (host : GroupHost) (groupId : GroupId)
    (stmt : RevocationStatement) (draws : ℕ → Key × Key) :
    GroupEdits promises host (host.appendHostRevocation crypto groupId stmt draws).2 := by
  unfold appendHostRevocation
  split
  · exact .refl
  · exact fanoutCopy_edits crypto promises host groupId _ _ draws

theorem appendRemove_edits (host : GroupHost) (groupId : GroupId) (cred : MemberCred) (body : Bytes)
    (draws : ℕ → Key × Key) :
    GroupEdits promises host (host.appendRemove crypto groupId cred body draws).2 := by
  have hcopy := fanoutCopy_edits crypto promises host groupId .removeBundle body draws
  unfold appendRemove
  split
  · exact .refl
  · split
    · exact .refl
    · split
      · exact .refl
      · split
        · rename_i heq
          rw [heq] at hcopy
          exact hcopy
        · rename_i out host' heq
          rw [heq] at hcopy
          obtain ⟨g, hg⟩ := Option.isSome_iff_exists.mp (isSome_fanoutCopy crypto heq)
          exact hcopy.tail (modifyCred_edit promises hg _ _)

theorem appendReserve_edits (host : GroupHost) (groupId : GroupId) (cred : MemberCred)
    (body : Bytes) (draws : ℕ → Key × Key) :
    GroupEdits promises host (host.appendReserve crypto groupId cred body draws).2 := by
  have hcopy := fanoutCopy_edits crypto promises host groupId .attachmentReserve body draws
  unfold appendReserve
  split
  · exact .refl
  · split
    · exact .refl
    · split
      · exact .refl
      · dsimp only
        split
        · rename_i heq
          rw [heq] at hcopy
          exact hcopy
        · rename_i out host' heq
          rw [heq] at hcopy
          exact hcopy.tail (.putFile _ _ _ (isSome_fanoutCopy crypto heq))

theorem applySigningReplace_edits (host : GroupHost) (groupId : GroupId) (cred : MemberCred)
    (body : Bytes) (hknown : (host.groups.lookup groupId).isSome) :
    GroupEdits promises host (host.applySigningReplace crypto groupId cred body).2 := by
  obtain ⟨g, hg⟩ := Option.isSome_iff_exists.mp hknown
  unfold applySigningReplace
  split
  · exact .refl
  · split
    · exact .refl
    · split
      · exact .refl
      · exact .single (modifyCred_edit promises hg _ _)

theorem append_edits (host : GroupHost) (groupId : GroupId) (cred : MemberCred) (type : MessageType)
    (body : Bytes) (draws : ℕ → Key × Key) :
    GroupEdits promises host (host.append crypto groupId cred type body draws).2 := by
  unfold append
  split
  · exact .refl
  · rename_i hlive
    obtain ⟨g, hg⟩ := exists_group_of_authorizeLive crypto hlive
    cases type with
    | removeBundle => exact appendRemove_edits crypto promises host groupId cred body draws
    | signingKeyReplace =>
      have hreplace := applySigningReplace_edits crypto promises host groupId cred body
        (by rw [hg]; rfl)
      dsimp only
      split
      · rename_i heq
        rw [heq] at hreplace
        exact hreplace
      · rename_i heq
        rw [heq] at hreplace
        exact hreplace.trans (fanoutCopy_edits crypto promises _ groupId _ _ draws)
    | mlsHandshake | mlsApp | revocationStatement =>
      exact fanoutCopy_edits crypto promises host groupId _ body draws
    | attachmentReserve => exact appendReserve_edits crypto promises host groupId cred body draws
    | doubleRatchet | attachmentDr => exact .refl

theorem uploadFile_edits (host : GroupHost) (groupId : GroupId) (cred : MemberCred)
    (fetchToken : Key) (body : Bytes) :
    GroupEdits promises host (host.uploadFile crypto groupId cred fetchToken body).2 := by
  unfold uploadFile
  split
  · exact .refl
  · rename_i hlive
    obtain ⟨g, hg⟩ := exists_group_of_authorizeLive crypto hlive
    split
    · exact .refl
    · rename_i slot hslot
      split
      · exact .refl
      · rename_i howner
        split
        · exact .refl
        · refine .single (.putFile host fetchToken _ ?_)
          have hgroup : slot.groupId = groupId := by
            by_contra hne
            exact howner (.inl hne)
          rw [hgroup, hg]
          rfl

end GroupHost

/-- Every operation is a chain of edits that keep the promises of the operation. -/
theorem GroupOp.apply_edits (crypto : Crypto) (promises : GroupPromises) (host : GroupHost)
    (op : GroupOp) (hop : op.Meets promises host) : GroupEdits promises host (op.apply crypto host) := by
  cases op with
  | setNow now => exact .single (.clock host now.toNat hop)
  | createGroupFor signingPk fanout creator groupId cred =>
    exact host.createGroupFor_edits crypto promises signingPk fanout creator groupId cred hop
  | storeInvite groupId cred invite => exact host.storeInvite_edits crypto promises groupId cred invite
  | accept groupId nonce cred pendingId =>
    exact host.accept_edits crypto promises groupId nonce cred pendingId hop
  | admitJoiner groupId admitter admission joinerSigningPk fanout =>
    exact host.admitJoiner_edits crypto promises groupId admitter admission joinerSigningPk fanout
  | refreshFanout groupId cred fanout =>
    exact host.refreshFanout_edits crypto promises groupId cred fanout
  | append groupId cred type body draws =>
    exact host.append_edits crypto promises groupId cred type body draws
  | appendHostRevocation groupId stmt draws =>
    exact host.appendHostRevocation_edits crypto promises groupId stmt draws
  | uploadFile groupId cred fetchToken body =>
    exact host.uploadFile_edits crypto promises groupId cred fetchToken body

end NemoMessenger.Server
