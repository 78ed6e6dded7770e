import NemoMessenger.Client.Leaves
import NemoMessenger.Data.Run

/-!
# Freshness of the own leaf

A member may send to a group while its own leaf is fresh: refreshed by a commit of its own not long
ago, or in a commit that is on its way. What a group remembers is the time such a commit was last
issued or merged, and the sidecar remembers it over a restart.
-/

namespace NemoMessenger.Client

open NemoMessenger.Data NemoMessenger.Wire

/-! ## Commits of one's own -/

/-- Each commit of one's own refreshes the own leaf: OpenMLS makes it with a path. It recognises a
commit as the pending one only when one is pending. -/
structure OpenMls.Refreshing (openMls : OpenMls) : Prop where
  selfUpdate : ∀ {g signer leaf seed message commit},
    openMls.selfUpdate g signer leaf seed = .ok (message, commit) → commit.pathLeaf.isSome
  addMember : ∀ {g signer leaf seed message welcome commit},
    openMls.addMember g signer leaf seed = .ok (message, welcome, commit) → commit.pathLeaf.isSome
  removeMember : ∀ {g signer index seed message commit},
    openMls.removeMember g signer index seed = .ok (message, commit) → commit.pathLeaf.isSome
  ownPendingCommit : ∀ {g message sender secrets},
    openMls.process g message = (.ok (sender, .ownPendingCommit), secrets) → g.pendingCommit.isSome

/-- What becomes of the own updates of a group. -/
structure Course where
  mlsGroupId : Bytes
  updatedAt : ℕ
  kind : Option PendingKind
  staged : Option StagedCommit

/-- The course of a group. -/
def Group.course (g : Group) : Course :=
  ⟨g.mlsGroupId, g.lastOwnUpdate, g.pending.map (·.kind), g.mls.pendingCommit⟩

/-- The course a sidecar takes up with a stored group. -/
def Sidecar.course (sidecar : Sidecar) (mls : MlsGroup) : Course where
  mlsGroupId := sidecar.mlsGroupId
  updatedAt := sidecar.lastOwnUpdate
  kind := if mls.pendingCommit.isSome then sidecar.pendingKind else none
  staged := if sidecar.pendingKind.isSome then mls.pendingCommit else none

namespace Course

/-- What is pending is staged. -/
def Paired (c : Course) : Prop := c.kind.isSome → c.staged.isSome

/-- A commit is staged. -/
def stage (c : Course) (now : ℕ) (kind : PendingKind) (commit : StagedCommit) : Course :=
  { c with updatedAt := if kind = .update then now else c.updatedAt, kind := some kind,
           staged := some commit }

/-- The staged commit is gone, merged or not. -/
def settle (c : Course) (updatedAt : ℕ) : Course :=
  { c with updatedAt, kind := none, staged := none }

/-- How a course goes on; what is staged is only dropped on a condition. -/
inductive Turned (now : ℕ) (drops : Prop) (c : Course) : Option HandshakeOutcome → Course → Prop
  | same {outcome} (h : outcome ≠ some .ownCommitMerged) : Turned now drops c outcome c
  | staged (kind : PendingKind) (commit : StagedCommit) (hfree : c.kind = none)
      (hpath : commit.pathLeaf.isSome) : Turned now drops c none (c.stage now kind commit)
  | merged (commit : StagedCommit) (h : c.staged = some commit) :
      Turned now drops c (some .ownCommitMerged) (c.settle now)
  | dropped {outcome} (hdrops : drops) (h : outcome ≠ some .ownCommitMerged) :
      Turned now drops c outcome (c.settle c.updatedAt)

end Course

namespace Group

variable {g : Group}

@[simp] theorem course_syncCredentialIds : g.syncCredentialIds.course = g.course := rfl

@[simp] theorem course_withSecrets (secrets : Bytes) : (g.withSecrets secrets).course = g.course :=
  rfl

theorem kind_course_of_ensureNoPending (h : g.ensureNoPending = .ok ()) : g.course.kind = none := by
  rw [ensureNoPending] at h
  split_ifs at h with hpending
  rw [Option.not_isSome_iff_eq_none] at hpending
  rw [course, hpending, Option.map_none]

end Group

/-! ## Commits that come in -/

/-- What is checked of the commit of another member besides its leaves. -/
def Framing.Admits (p : Outside) (g : Group) (sender : Option ℕ) (commit : StagedCommit) :
    Framing → Prop
  | unframed _ => commit.removes = []
  | bundled hostGroupId bundle =>
    g.stagedRemoveMatches commit bundle.credentialId = true ∧
      ∃ index ∈ sender, ∃ key ∈ g.groupSigningAt p.crypto index,
        bundle.verifySidecar p.crypto key hostGroupId = .ok ()

/-- The commit of another member that comes in passes every check. -/
structure Framing.Brings (p : Outside) (g : Group) (framing : Framing) (sender : Option ℕ)
    (commit : StagedCommit) : Prop where
  process : ∃ secrets, p.openMls.process g.mls framing.message =
    (.ok (sender, .stagedCommit commit), secrets)
  internal : commit.external = false
  admitted : framing.Admits p g sender commit
  valid : g.validateCommit commit sender = .ok ()

/-- What comes in is the commit of another member, and passes. -/
def Framing.Foreign (p : Outside) (g : Group) (framing : Framing) : Prop :=
  ∃ sender commit, framing.Brings p g sender commit

section

variable {p : Outside} {g : Group} {now : ℕ} {drops : Prop}

/-- The own commit that is staged is merged, or stays. -/
theorem turned_finishOwnCommit (hstaged : g.course.staged.isSome) :
    g.course.Turned now drops (g.finishOwnCommit p.openMls now).1.toOption
      (g.finishOwnCommit p.openMls now).2.course := by
  unfold Group.finishOwnCommit
  cases hmerge : p.openMls.mergePending g.mls with
  | error message => exact .same nofun
  | ok mls =>
    obtain ⟨commit, hcommit⟩ := Option.isSome_iff_exists.mp hstaged
    have hpending : g.mls.pendingCommit = some commit := hcommit
    have hmls := p.openMls.mergePending_ok hmerge
    rw [hpending, Option.elim_some] at hmls
    subst hmls
    exact .merged commit hcommit

/-- The staged commit of another member is merged, or nothing changes. -/
theorem turned_mergeForeign {commit : StagedCommit} (hdrops : drops) :
    g.course.Turned now drops (g.mergeForeign p.openMls commit).1.toOption
      (g.mergeForeign p.openMls commit).2.course := by
  unfold Group.mergeForeign
  cases hmerge : p.openMls.mergeStaged g.mls commit with
  | error message => exact .same nofun
  | ok mls =>
    rw [p.openMls.mergeStaged_ok hmerge]
    refine .dropped hdrops fun h ↦ ?_
    dsimp only at h
    split_ifs at h <;> cases h

variable (hopen : p.openMls.Refreshing)
include hopen

section

variable (hpaired : g.course.Paired)
include hpaired

theorem turned_applyHandshake (message : Bytes) :
    g.course.Turned now ((Framing.unframed message).Foreign p g)
      (g.applyHandshake p.openMls message now).1.toOption
      (g.applyHandshake p.openMls message now).2.course := by
  unfold Group.applyHandshake
  rcases Group.process_cases g message with
    ⟨e, secrets, h⟩ | ⟨sender, content, secrets, hprocess, h⟩
  · rw [h]
    exact .same nofun
  · rw [h, ← Group.course_withSecrets secrets]
    cases content with
    | ownPendingCommit =>
      have hstaged := hopen.ownPendingCommit hprocess
      exact turned_finishOwnCommit hstaged
    | ownPrivateMessage =>
      dsimp only
      split
      · next hpending =>
        exact turned_finishOwnCommit (hpaired (Option.isSome_map.trans hpending))
      · exact .same nofun
    | stagedCommit commit =>
      dsimp only
      split_ifs with hexternal hremoves
      · exact .same nofun
      · exact .same nofun
      · cases hvalid : (g.withSecrets secrets).validateCommit commit sender with
        | error e => exact .same nofun
        | ok =>
          refine turned_mergeForeign ⟨sender, commit, ⟨secrets, hprocess⟩, ?_, ?_, hvalid⟩
          · simpa using hexternal
          · exact List.length_eq_zero_iff.mp (Nat.eq_zero_of_not_pos hremoves)
    | externalJoinProposal => exact .same nofun
    | proposal reinit => exact .same nofun
    | application plaintext => exact .same nofun

omit hopen in
theorem turned_applyRemoveBundle (hostGroupId : Key) (bundle : RemoveBundle) :
    g.course.Turned now ((Framing.bundled hostGroupId bundle).Foreign p g)
      (g.applyRemoveBundle p.crypto p.openMls hostGroupId bundle now).1.toOption
      (g.applyRemoveBundle p.crypto p.openMls hostGroupId bundle now).2.course := by
  unfold Group.applyRemoveBundle
  rcases Group.process_cases g bundle.mlsCommit with
    ⟨e, secrets, h⟩ | ⟨sender, content, secrets, hprocess, h⟩
  · rw [h]
    exact .same nofun
  · rw [h, ← Group.course_withSecrets secrets]
    dsimp only
    split
    · next hpending => exact turned_finishOwnCommit (hpaired (Option.isSome_map.trans hpending))
    · next hpending => exact turned_finishOwnCommit (hpaired (Option.isSome_map.trans hpending))
    · split
      · exact .same nofun
      · next index =>
        split
        · exact .same nofun
        · next key hkey =>
          split
          · exact .same nofun
          · next hsidecar =>
            split
            · next commit _ _ =>
              split_ifs with hexternal hlength hmatches
              · exact .same nofun
              · exact .same nofun
              · exact .same nofun
              · split
                · exact .same nofun
                · next hvalid =>
                  refine turned_mergeForeign
                    ⟨some index, commit, ⟨secrets, hprocess⟩, ?_, ?_, hvalid⟩
                  · simpa using hexternal
                  · have hmatches' : g.stagedRemoveMatches commit bundle.credentialId = true :=
                      Bool.of_not_eq_false fun h ↦ hmatches (Bool.not_eq_true' _ ▸ h)
                    exact ⟨hmatches', index, rfl, key, hkey, hsidecar⟩
            · exact .same nofun

/-- What comes in merges the own commit, drops it for the commit of another, or changes nothing. -/
theorem turned_apply (framing : Framing) :
    g.course.Turned now (framing.Foreign p g) (framing.apply p g now).1.toOption
      (framing.apply p g now).2.course := by
  cases framing with
  | unframed message => exact turned_applyHandshake hopen hpaired message
  | bundled hostGroupId bundle => exact turned_applyRemoveBundle hpaired hostGroupId bundle

end

/-! ## Operations on a group -/

/-- What a member does with its group. -/
inductive GroupAct
  | selfUpdate (seed : Bytes)
  | rotateSigningKey (newSigning : Key) (seed : Bytes)
  | admitMember (keyPackage : Bytes) (credentialId : Key) (seed : Bytes)
  | remove (hostGroupId credentialId : Key) (seed : Bytes)
  | discardPending
  | apply (framing : Framing)
  | applySigningKeyReplace (body : Bytes)
  | encrypt (plaintext seed : Bytes)
  | decryptWithSender (ciphertext : Bytes)

namespace GroupAct

/-- The outcome, when what came in was taken, and the group afterwards. -/
def run (p : Outside) (now : ℕ) (g : Group) : GroupAct → Option HandshakeOutcome × Group
  | selfUpdate seed => (none, (g.selfUpdate p.crypto p.openMls now seed).2)
  | rotateSigningKey newSigning seed =>
    (none, (g.rotateSigningKey p.crypto p.openMls newSigning seed).2)
  | admitMember keyPackage credentialId seed =>
    (none, (g.admitMember p.openMls keyPackage credentialId seed).2)
  | remove hostGroupId credentialId seed =>
    (none, (g.remove p.crypto p.openMls hostGroupId credentialId seed).2)
  | discardPending => (none, g.discardPending)
  | apply framing => ((framing.apply p g now).1.toOption, (framing.apply p g now).2)
  | applySigningKeyReplace body => (none, (g.applySigningKeyReplace p.crypto body).2)
  | encrypt plaintext seed => (none, (g.encrypt p.openMls plaintext now seed).2)
  | decryptWithSender ciphertext => (none, (g.decryptWithSender p.crypto p.openMls ciphertext).2)

/-- What is staged is dropped without being merged. -/
def Drops (p : Outside) (g : Group) : GroupAct → Prop
  | discardPending => True
  | apply framing => framing.Foreign p g
  | _ => False

end GroupAct

theorem turned_selfUpdate (seed : Bytes) :
    g.course.Turned now drops none (g.selfUpdate p.crypto p.openMls now seed).2.course := by
  unfold Group.selfUpdate
  split
  · exact .same nofun
  · exact .same nofun
  · next hfree _ =>
    split
    · exact .same nofun
    · next commit hcommit =>
      exact .staged .update commit (Group.kind_course_of_ensureNoPending hfree)
        (hopen.selfUpdate hcommit)

theorem turned_rotateSigningKey (newSigning : Key) (seed : Bytes) :
    g.course.Turned now drops none
      (g.rotateSigningKey p.crypto p.openMls newSigning seed).2.course := by
  unfold Group.rotateSigningKey
  split
  · exact .same nofun
  · exact .same nofun
  · next hfree _ =>
    dsimp only
    split
    · exact .same nofun
    · next commit hcommit =>
      exact .staged .signingKeyRotate commit (Group.kind_course_of_ensureNoPending hfree)
        (hopen.selfUpdate hcommit)

theorem turned_admitMember (keyPackage : Bytes) (credentialId : Key) (seed : Bytes) :
    g.course.Turned now drops none
      (g.admitMember p.openMls keyPackage credentialId seed).2.course := by
  unfold Group.admitMember
  split
  · exact .same nofun
  · exact .same nofun
  · next hfree _ =>
    split_ifs
    · exact .same nofun
    · split
      · exact .same nofun
      · split_ifs
        · exact .same nofun
        · exact .same nofun
        · split
          · exact .same nofun
          · next commit hcommit =>
            exact .staged .add commit (Group.kind_course_of_ensureNoPending hfree)
              (hopen.addMember hcommit)

theorem turned_remove (hostGroupId credentialId : Key) (seed : Bytes) :
    g.course.Turned now drops none
      (g.remove p.crypto p.openMls hostGroupId credentialId seed).2.course := by
  unfold Group.remove
  split
  · exact .same nofun
  · exact .same nofun
  · next hfree _ =>
    split
    · exact .same nofun
    · next commit hcommit =>
      exact .staged .remove commit (Group.kind_course_of_ensureNoPending hfree)
        (hopen.removeMember hcommit)

omit hopen in
theorem course_applySigningKeyReplace (body : Bytes) :
    (g.applySigningKeyReplace p.crypto body).2.course = g.course := by
  unfold Group.applySigningKeyReplace
  split
  · rfl
  · dsimp only
    split <;> rfl

omit hopen in
theorem course_encrypt (plaintext : Bytes) (seed : Bytes) :
    (g.encrypt p.openMls plaintext now seed).2.course = g.course := by
  unfold Group.encrypt
  split_ifs
  · rfl
  · split <;> rfl

omit hopen in
theorem course_decryptWithSender (ciphertext : Bytes) :
    (g.decryptWithSender p.crypto p.openMls ciphertext).2.course = g.course := by
  unfold Group.decryptWithSender
  rcases Group.process_cases g ciphertext with
    ⟨e, secrets, h⟩ | ⟨sender, content, secrets, -, h⟩
  · rw [h, Group.course_withSecrets]
  · rw [h]
    cases sender with
    | none => rfl
    | some index =>
      dsimp only
      split
      · rfl
      · split
        · rfl
        · split <;> rfl

/-- How each operation turns the course of a group. -/
theorem GroupAct.turned (hpaired : g.course.Paired) (act : GroupAct) :
    g.course.Turned now (act.Drops p g) (act.run p now g).1 (act.run p now g).2.course := by
  cases act with
  | selfUpdate seed => exact turned_selfUpdate hopen seed
  | rotateSigningKey newSigning seed => exact turned_rotateSigningKey hopen newSigning seed
  | admitMember keyPackage credentialId seed =>
    exact turned_admitMember hopen keyPackage credentialId seed
  | remove hostGroupId credentialId seed => exact turned_remove hopen hostGroupId credentialId seed
  | discardPending => exact .dropped trivial nofun
  | apply framing => exact turned_apply hopen hpaired framing
  | applySigningKeyReplace body =>
    rw [run, course_applySigningKeyReplace]
    exact .same nofun
  | encrypt plaintext seed =>
    rw [run, course_encrypt]
    exact .same nofun
  | decryptWithSender ciphertext =>
    rw [run, course_decryptWithSender]
    exact .same nofun

end

/-! ## Memberships -/

/-- A group of a client over time, and what is stored of it. The own leaf of the one and of the
other was last refreshed at two times: it was new then, or an own commit with a path was merged. -/
structure Membership where
  group : Option Group
  refreshedAt : ℕ
  storage : MlsStorage
  sidecar : Option Sidecar
  storedAt : ℕ
  now : ℕ

/-- A step of a membership. A save that is not complete writes the storage only, which is written
first. -/
inductive Move
  | wait (ms : ℕ)
  | act (act : GroupAct)
  | save (complete : Bool)
  | restart

/-- The time of the last refresh, once an operation has this outcome. -/
def Course.refreshed (c : Course) (refreshedAt now : ℕ) (outcome : Option HandshakeOutcome) : ℕ :=
  if outcome = some .ownCommitMerged ∧ c.staged.any (·.pathLeaf.isSome) then now else refreshedAt

namespace Membership

/-- A group that has just been created or joined. -/
def entered (g : NewGroup) : Membership where
  group := some g.group
  refreshedAt := g.lastOwnUpdate
  storage := ⟨∅, ∅⟩
  sidecar := none
  storedAt := 0
  now := g.lastOwnUpdate

def step (p : Outside) (s : Membership) (move : Move) : Membership :=
  match move, s.group with
  | .wait ms, _ => { s with now := s.now + ms }
  | .act act, some g =>
    let (outcome, g') := act.run p s.now g
    { s with group := some g', refreshedAt := g.course.refreshed s.refreshedAt s.now outcome }
  | .save complete, some g =>
    { s with storage := { s.storage with groups := s.storage.groups.insert g.mlsGroupId g.mls },
             storedAt := s.refreshedAt,
             sidecar := if complete then some g.sidecar else s.sidecar }
  | .restart, _ =>
    { s with group := s.sidecar.bind fun sidecar ↦ (sidecar.load s.storage).toOption,
             refreshedAt := s.storedAt }
  | _, none => s

/-- The own leaf has been refreshed recently enough, or a commit that refreshes it is staged. -/
def Fresh (s : Membership) (g : Group) : Prop :=
  s.now - s.refreshedAt ≤ Group.updateBeforeSend ∨
    ∃ commit ∈ g.mls.pendingCommit, commit.pathLeaf.isSome

/-- A staged Update is not dropped: neither discarded nor passed over for a foreign commit. -/
def Spares (p : Outside) (s : Membership) (move : Move) : Prop :=
  ∀ g ∈ s.group, ∀ act, move = .act act → act.Drops p g → g.course.kind ≠ some .update

end Membership

/-! ## What the times account for -/

/-- The time on record is one of a refresh, or of the Update that is staged. -/
structure Course.Accounted (c : Course) (refreshedAt now : ℕ) : Prop where
  paired : c.Paired
  clock : c.updatedAt ≤ now
  path : ∀ commit ∈ c.staged, commit.pathLeaf.isSome
  counted : c.updatedAt ≤ refreshedAt ∨ c.kind = some .update ∧ c.staged.isSome

/-- So is the time of the sidecar. -/
structure Sidecar.Follows (sidecar : Sidecar) (c : Course) (refreshedAt now : ℕ) : Prop where
  id : sidecar.mlsGroupId = c.mlsGroupId
  clock : sidecar.lastOwnUpdate ≤ now
  counted : sidecar.lastOwnUpdate ≤ refreshedAt ∨
    sidecar.pendingKind = some .update ∧ c.kind = some .update ∧ c.staged.isSome

section

variable {c c' : Course} {refreshedAt now later : ℕ} {drops : Prop}
  {outcome : Option HandshakeOutcome} {sidecar : Sidecar} {storage : MlsStorage} {mls : MlsGroup}
  {g : Group}

theorem Course.refreshed_of_ne (h : outcome ≠ some .ownCommitMerged) :
    c.refreshed refreshedAt now outcome = refreshedAt := if_neg fun hand ↦ h hand.1

@[simp] theorem Course.refreshed_none : c.refreshed refreshedAt now none = refreshedAt :=
  refreshed_of_ne nofun

theorem Course.refreshed_merged {commit : StagedCommit} (h : c.staged = some commit)
    (hpath : commit.pathLeaf.isSome) :
    c.refreshed refreshedAt now (some .ownCommitMerged) = now := by
  refine if_pos ⟨rfl, ?_⟩
  rw [h]
  exact hpath

namespace Course.Accounted

variable (h : c.Accounted refreshedAt now)
include h

theorem wait (hnow : now ≤ later) : c.Accounted refreshedAt later :=
  ⟨h.paired, h.clock.trans hnow, h.path, h.counted⟩

/-- An operation that does not drop an Update keeps account. -/
theorem turned (hturned : c.Turned now drops outcome c')
    (hspares : drops → c.kind ≠ some .update) :
    c'.Accounted (c.refreshed refreshedAt now outcome) now := by
  cases hturned with
  | same hne => rwa [refreshed_of_ne hne]
  | staged kind commit hfree hpath =>
    rw [refreshed_none]
    have hcounted : c.updatedAt ≤ refreshedAt := by
      refine h.counted.resolve_right fun hupdate ↦ ?_
      cases hfree.symm.trans hupdate.1
    refine ⟨fun _ ↦ rfl, ?_, by simpa [stage] using hpath, ?_⟩
    · unfold stage
      split_ifs
      · exact le_rfl
      · exact h.clock
    · by_cases hkind : kind = .update
      · exact .inr ⟨congrArg some hkind, rfl⟩
      · exact .inl (by simpa [stage, hkind] using hcounted)
  | merged commit hstaged =>
    rw [refreshed_merged hstaged (h.path commit hstaged)]
    exact ⟨nofun, le_rfl, nofun, .inl le_rfl⟩
  | dropped hdrops hne =>
    rw [refreshed_of_ne hne]
    exact ⟨nofun, h.clock, nofun, .inl (h.counted.resolve_right fun hupdate ↦ hspares hdrops hupdate.1)⟩

/-- The sidecar of a group follows it. -/
theorem follows_sidecar (hg : g.course = c) : g.sidecar.Follows c refreshedAt now := by
  subst hg
  exact ⟨rfl, h.clock, h.counted.imp_right fun hupdate ↦ ⟨hupdate.1, hupdate⟩⟩

end Course.Accounted

namespace Sidecar

theorem load_eq_ok (h : sidecar.load storage = .ok g) :
    ∃ mls, storage.groups.lookup sidecar.mlsGroupId = some mls ∧ g.course = sidecar.course mls := by
  unfold load at h
  split at h
  · cases h
  · next mls hmls =>
    refine ⟨mls, hmls, ?_⟩
    cases h
    rw [Group.course_syncCredentialIds]
    cases hcommit : mls.pendingCommit <;> cases hkind : sidecar.pendingKind <;>
      simp [course, Group.course, hcommit, hkind]

theorem follows_course (h : (sidecar.course mls).Accounted refreshedAt now) :
    sidecar.Follows (sidecar.course mls) refreshedAt now := by
  refine ⟨rfl, h.clock, h.counted.imp_right fun hupdate ↦ ⟨?_, hupdate⟩⟩
  have hkind := hupdate.1
  simp only [course] at hkind
  split_ifs at hkind
  exact hkind

namespace Follows

variable (h : sidecar.Follows c refreshedAt now)
include h

theorem wait (hnow : now ≤ later) : sidecar.Follows c refreshedAt later :=
  ⟨h.id, h.clock.trans hnow, h.counted⟩

theorem turned (hc : c.Accounted refreshedAt now) (hturned : c.Turned now drops outcome c')
    (hspares : drops → c.kind ≠ some .update) :
    sidecar.Follows c' (c.refreshed refreshedAt now outcome) now := by
  cases hturned with
  | same hne => rwa [Course.refreshed_of_ne hne]
  | staged kind commit hfree hpath =>
    rw [Course.refreshed_none]
    refine ⟨h.id, h.clock, .inl (h.counted.resolve_right fun hupdate ↦ ?_)⟩
    cases hfree.symm.trans hupdate.2.1
  | merged commit hstaged =>
    rw [Course.refreshed_merged hstaged (hc.path commit hstaged)]
    exact ⟨h.id, h.clock, .inl h.clock⟩
  | dropped hdrops hne =>
    rw [Course.refreshed_of_ne hne]
    exact ⟨h.id, h.clock,
      .inl (h.counted.resolve_right fun hupdate ↦ hspares hdrops hupdate.2.1)⟩

/-- The course that a sidecar would take up with the group it follows. -/
theorem accounted (hc : c.Accounted refreshedAt now) (hg : g.course = c) :
    (sidecar.course g.mls).Accounted refreshedAt now := by
  subst hg
  refine ⟨fun hkind ↦ ?_, h.clock, fun commit hcommit ↦ ?_,
    h.counted.imp_right fun hupdate ↦ ?_⟩
  · unfold course at hkind ⊢
    dsimp only at hkind ⊢
    split_ifs at hkind with hstaged
    · rwa [if_pos hkind]
    · cases hkind
  · simp only [course] at hcommit
    split_ifs at hcommit
    · exact hc.path commit hcommit
    · cases hcommit
  · have hstaged : g.mls.pendingCommit.isSome := hupdate.2.2
    unfold course
    simp [hupdate.1, hstaged]

end Follows

end Sidecar

end

/-- Every time that is on record is accounted for. -/
structure Membership.Accounted (s : Membership) : Prop where
  live : ∀ g ∈ s.group, g.course.Accounted s.refreshedAt s.now
  stored : ∀ sidecar ∈ s.sidecar, ∀ mls, s.storage.groups.lookup sidecar.mlsGroupId = some mls →
    (sidecar.course mls).Accounted s.storedAt s.now
  between : ∀ g ∈ s.group, ∀ sidecar ∈ s.sidecar,
    sidecar.Follows g.course s.refreshedAt s.now

namespace Membership.Accounted

variable {p : Outside} {s : Membership} {g : Group}

theorem entered (g : NewGroup) : (Membership.entered g).Accounted where
  live _ h := by
    cases h
    exact ⟨nofun, le_rfl, nofun, .inl le_rfl⟩
  stored _ h := by cases h
  between _ _ _ h := by cases h

variable (h : s.Accounted)
include h

theorem act (hopen : p.openMls.Refreshing) (hg : s.group = some g) {act : GroupAct}
    (hspares : act.Drops p g → g.course.kind ≠ some .update) : (s.step p (.act act)).Accounted := by
  have hlive := h.live g hg
  have hturned := @GroupAct.turned p g s.now hopen hlive.paired act
  unfold step
  rw [hg]
  refine ⟨?_, h.stored, ?_⟩
  · rintro _ ⟨⟩
    exact hlive.turned hturned hspares
  · rintro _ ⟨⟩ sidecar hsidecar
    exact (h.between g hg sidecar hsidecar).turned hlive hturned hspares

theorem save (hg : s.group = some g) (complete : Bool) :
    (s.step p (.save complete)).Accounted := by
  have hlive := h.live g hg
  have hfollows : ∀ sidecar ∈ (if complete then some g.sidecar else s.sidecar),
      sidecar.Follows g.course s.refreshedAt s.now := by
    cases complete with
    | true =>
      rintro _ ⟨⟩
      exact hlive.follows_sidecar rfl
    | false => exact h.between g hg
  unfold step
  simp only [hg]
  refine ⟨?_, fun sidecar hsidecar mls hmls ↦ ?_, ?_⟩
  · rintro _ ⟨⟩
    exact hlive
  · have hfollow := hfollows sidecar hsidecar
    have hid : sidecar.mlsGroupId = g.mlsGroupId := hfollow.id
    dsimp only at hmls
    rw [hid, FiniteMap.lookup_insert_ite, if_pos rfl] at hmls
    cases hmls
    exact hfollow.accounted hlive rfl
  · rintro _ ⟨⟩
    exact hfollows

theorem restart : (s.step p .restart).Accounted := by
  have hloaded : ∀ g ∈ s.sidecar.bind fun sidecar ↦ (sidecar.load s.storage).toOption,
      ∃ sidecar, s.sidecar = some sidecar ∧ ∃ mls,
        g.course = sidecar.course mls ∧ (sidecar.course mls).Accounted s.storedAt s.now := by
    intro g hg
    obtain ⟨sidecar, hsidecar, hload⟩ := Option.bind_eq_some_iff.mp hg
    have hok : sidecar.load s.storage = .ok g := by
      cases h : sidecar.load s.storage with
      | ok g' =>
        rw [h] at hload
        exact congrArg Except.ok (Option.some.inj hload)
      | error e =>
        rw [h] at hload
        cases hload
    obtain ⟨mls, hmls, hcourse⟩ := Sidecar.load_eq_ok hok
    exact ⟨sidecar, hsidecar, mls, hcourse, h.stored sidecar hsidecar mls hmls⟩
  unfold step
  refine ⟨fun g hg ↦ ?_, h.stored, fun g hg sidecar hsidecar ↦ ?_⟩
  · obtain ⟨sidecar, -, mls, hcourse, haccounted⟩ := hloaded g hg
    exact hcourse ▸ haccounted
  · obtain ⟨sidecar', hsidecar', mls, hcourse, haccounted⟩ := hloaded g hg
    cases hsidecar'.symm.trans hsidecar
    exact hcourse ▸ Sidecar.follows_course haccounted

theorem step (hopen : p.openMls.Refreshing) {move : Move} (hspares : s.Spares p move) :
    (s.step p move).Accounted := by
  cases move with
  | wait ms =>
    have hnow : s.now ≤ s.now + ms := Nat.le_add_right _ _
    exact ⟨fun g hg ↦ (h.live g hg).wait hnow,
      fun sidecar hsidecar mls hmls ↦ (h.stored sidecar hsidecar mls hmls).wait hnow,
      fun g hg sidecar hsidecar ↦ (h.between g hg sidecar hsidecar).wait hnow⟩
  | act act =>
    cases hg : s.group with
    | none => simpa only [Membership.step, hg] using h
    | some g => exact h.act hopen hg (hspares g hg act rfl)
  | save complete =>
    cases hg : s.group with
    | none => simpa only [Membership.step, hg] using h
    | some g => exact h.save hg complete
  | restart => exact h.restart

end Membership.Accounted

/-! ## Sending -/

namespace Membership

variable {p : Outside} {g₀ : NewGroup} {moves : List Move} {g : Group}
  {plaintext seed ciphertext : Bytes}

theorem lastOwnUpdate_of_encrypt {now : ℕ}
    (h : (g.encrypt p.openMls plaintext now seed).1 = .ok ciphertext) :
    now - g.lastOwnUpdate ≤ Group.updateBeforeSend := by
  unfold Group.encrypt at h
  split_ifs at h with hage
  exact Nat.le_of_not_gt hage

/-- A member that drops no Update sends only while its own leaf is fresh. -/
theorem fresh_of_encrypt (hopen : p.openMls.Refreshing)
    (hspares : Allowed (step p) (Spares p) (entered g₀) moves)
    (hg : (run (step p) (entered g₀) moves).group = some g)
    (hok : (g.encrypt p.openMls plaintext (run (step p) (entered g₀) moves).now seed).1 =
      .ok ciphertext) : (run (step p) (entered g₀) moves).Fresh g := by
  have haccounted : (run (step p) (entered g₀) moves).Accounted :=
    run_invariant Accounted (fun _ _ hspares h ↦ h.step hopen hspares) hspares (.entered g₀)
  have hlive := haccounted.live g hg
  have hage := lastOwnUpdate_of_encrypt hok
  rcases hlive.counted with hcounted | ⟨-, hstaged⟩
  · exact .inl ((Nat.sub_le_sub_left hcounted _).trans hage)
  · obtain ⟨commit, hcommit⟩ := Option.isSome_iff_exists.mp hstaged
    exact .inr ⟨commit, hcommit, hlive.path commit hcommit⟩

end Membership

/-- A member can only update its own leaf, and no message of another comes in. -/
def OpenMls.updating : OpenMls :=
  { Outside.transparent.openMls with
    selfUpdate := fun g _ leaf _ ↦ .ok ([], ⟨[], [], [], some leaf, false, g.leaves, g.secrets⟩) }

theorem OpenMls.refreshing_updating : updating.Refreshing where
  selfUpdate h := by
    cases h
    rfl
  addMember h := by cases h
  removeMember h := by cases h
  ownPendingCommit h := by cases h

/-- A client of such a group. -/
def Outside.updating : Outside := { Outside.transparent with openMls := .updating }

/-- A group of one, created at time zero. -/
def NewGroup.lone : NewGroup where
  mlsGroupId := []
  groupSigning := .replicate 32 0
  credentialId := .replicate 32 1
  lastOwnUpdate := 0
  mls := ⟨0, [Group.newLeaf .transparent 0 (.replicate 32 2) (.replicate 32 1) (.replicate 32 0)],
    0, []⟩

/-- An update that was issued after eighty hours. -/
def Membership.updated : List Move := [.wait (80 * 3600 * 1000), .act (.selfUpdate [])]

/-- It is saved, and the client starts again. -/
def Membership.restarted : Membership :=
  run (step .updating) (entered .lone) (updated ++ [.save true, .restart])

/-- The host refuses it, and the client drops it. -/
def Membership.refused : Membership :=
  run (step .updating) (entered .lone) (updated ++ [.act .discardPending])

/-- An update is still on its way after a restart, and the group can be sent to. -/
theorem Membership.fresh_of_encrypt_restarted : ∃ g, restarted.group = some g ∧
    (g.encrypt Outside.updating.openMls [1] restarted.now []).1 = .ok [1] ∧ restarted.Fresh g := by
  refine ⟨_, rfl, rfl, ?_⟩
  refine @fresh_of_encrypt .updating .lone _ _ [1] [] [1] OpenMls.refreshing_updating ?_ rfl rfl
  refine ⟨?_, ?_, ?_, ?_, trivial⟩
  · rintro _ - _ ⟨⟩
  · rintro _ - _ ⟨⟩ ⟨⟩
  · rintro _ - _ ⟨⟩
  · rintro _ - _ ⟨⟩

/-- An update that the host refuses counts all the same. -/
theorem Membership.refused_not_fresh : ∃ g, refused.group = some g ∧
    (g.encrypt Outside.updating.openMls [1] refused.now []).1 = .ok [1] ∧ ¬refused.Fresh g := by
  refine ⟨_, rfl, rfl, ?_⟩
  rintro (hage | ⟨commit, hcommit, -⟩)
  · exact absurd hage (by decide)
  · cases hcommit

end NemoMessenger.Client
