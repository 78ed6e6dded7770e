import NemoMessenger.Server.GroupAppend

/-!
# What one group operation does

To streams and files an operation of the group host does one of a few things: nothing, set the clock,
start an empty stream, push one row, reserve a file slot along with a row, or fill a slot.
-/

namespace NemoMessenger.Server

open NemoMessenger.Data NemoMessenger.Wire

/-- The stream of a group with its counters. -/
def GroupState.counted (g : GroupState) : List StreamRow × ℕ × ℕ := (g.stream, g.nextSeq, g.bytes)

/-- Clock, files and streams are the same. -/
structure GroupHost.Quiet (host host' : GroupHost) : Prop where
  now : host'.now = host.now
  fileBudget : host'.fileBudget = host.fileBudget
  files : host'.files = host.files
  streams : ∀ id, (host'.groups.lookup id).map GroupState.counted =
    (host.groups.lookup id).map GroupState.counted

namespace GroupHost

variable {crypto : Crypto} {host mid host' : GroupHost} {groupId : GroupId}

theorem Quiet.refl (host : GroupHost) : host.Quiet host := ⟨rfl, rfl, rfl, fun _ ↦ rfl⟩

theorem Quiet.trans (h : host.Quiet mid) (h' : mid.Quiet host') : host.Quiet host' :=
  ⟨h'.now.trans h.now, h'.fileBudget.trans h.fileBudget, h'.files.trans h.files,
    fun id ↦ (h'.streams id).trans (h.streams id)⟩

theorem Quiet.of_groups (hnow : host'.now = host.now) (hbudget : host'.fileBudget = host.fileBudget)
    (hfiles : host'.files = host.files) (hgroups : host'.groups = host.groups) :
    host.Quiet host' :=
  ⟨hnow, hbudget, hfiles, fun id ↦ by rw [hgroups]⟩

theorem quiet_putGroup {g g' : GroupState} (hg : host.groups.lookup groupId = some g)
    (hsame : g'.counted = g.counted) : host.Quiet (host.putGroup groupId g') := by
  refine ⟨rfl, rfl, rfl, fun id ↦ ?_⟩
  rw [putGroup, FiniteMap.lookup_insert_ite]
  split_ifs with hid
  · rw [hid, hg, Option.map_some, Option.map_some, hsame]
  · rfl

theorem Quiet.markCred (h : host.Quiet host') (groupId : GroupId) (credentialId : Key) :
    host.Quiet (host'.markCred groupId credentialId) :=
  h.trans (.of_groups rfl rfl rfl rfl)

theorem Quiet.markInvites (h : host.Quiet host') (groupId : GroupId) :
    host.Quiet (host'.markInvites groupId) := h.trans (.of_groups rfl rfl rfl rfl)

theorem Quiet.markPending (h : host.Quiet host') (groupId : GroupId) :
    host.Quiet (host'.markPending groupId) := h.trans (.of_groups rfl rfl rfl rfl)

theorem quiet_modifyCred (host : GroupHost) (groupId : GroupId) (credentialId : Key)
    (update : CredRecord → CredRecord) :
    host.Quiet ((host.modifyCred groupId credentialId update).markCred groupId credentialId) := by
  refine .markCred ?_ groupId credentialId
  unfold modifyCred
  split
  · exact .refl host
  · rename_i g hg
    split
    · exact .refl host
    · exact quiet_putGroup hg rfl

theorem quiet_storeInvite (host : GroupHost) (groupId : GroupId) (cred : MemberCred)
    (invite : GroupInvite) : host.Quiet (host.storeInvite crypto groupId cred invite).2 := by
  unfold storeInvite
  split
  · exact .refl host
  · split_ifs
    · exact .refl host
    · split
      · exact .refl host
      · split
        · exact .refl host
        · split
          · exact .refl host
          · rename_i g hg
            refine .markInvites (quiet_putGroup hg ?_) groupId
            rfl

theorem quiet_accept (host : GroupHost) (groupId : GroupId) (nonce : Key) (cred : MemberCred)
    (pendingId : Key) : host.Quiet (host.accept crypto groupId nonce cred pendingId).2 := by
  unfold accept
  split
  · exact .refl host
  · rename_i g hg
    split
    · exact .refl host
    · dsimp only
      split_ifs
      · exact quiet_putGroup hg rfl
      · refine .markCred (.markPending (.markInvites (quiet_putGroup hg ?_) groupId) groupId) groupId
          cred.credentialId
        rfl

theorem quiet_gcPending (host : GroupHost) (groupId : GroupId) :
    host.Quiet (host.gcPending groupId) := by
  unfold gcPending
  split
  · exact .refl host
  · rename_i g hg
    exact quiet_putGroup hg rfl

theorem quiet_admitPending (host : GroupHost) (groupId : GroupId) (pendingId joinerSigningPk : Key)
    (fanout : FanoutTarget) :
    host.Quiet (host.admitPending groupId pendingId joinerSigningPk fanout).2 := by
  unfold admitPending
  split
  · exact .refl host
  · rename_i g hg
    split
    · exact .refl host
    · have htake : host.Quiet
          (host.putGroup groupId { g with pending := g.pending.erase pendingId }) :=
        quiet_putGroup hg rfl
      dsimp only
      split_ifs
      · exact htake
      · split
        · exact htake
        · refine .markCred (htake.trans (quiet_putGroup (AList.lookup_insert _) ?_)) groupId _
          rfl

theorem quiet_admitJoiner (host : GroupHost) (groupId : GroupId) (admitter : MemberCred)
    (admission : GroupAdmit) (joinerSigningPk : Key) (fanout : FanoutTarget) :
    host.Quiet (host.admitJoiner crypto groupId admitter admission joinerSigningPk fanout).2 := by
  unfold admitJoiner
  split
  · exact .refl host
  · split_ifs
    · exact .refl host
    · split
      · exact .refl host
      · split
        · exact .refl host
        · exact (((host.quiet_gcPending groupId).markInvites groupId).markPending groupId).trans
            (quiet_admitPending _ _ _ _ _)

theorem quiet_refreshFanout (host : GroupHost) (groupId : GroupId) (cred : MemberCred)
    (fanout : FanoutTarget) : host.Quiet (host.refreshFanout crypto groupId cred fanout).2 := by
  unfold refreshFanout
  split
  · exact .refl host
  · exact quiet_modifyCred _ _ _ _

end GroupHost

end NemoMessenger.Server
