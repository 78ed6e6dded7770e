import NemoMessenger.Client.Inside
import NemoMessenger.Client.Tree

/-!
# Leaves under foreign commits

A member takes the commits of others, unframed or in a `RemoveBundle`. What stays of the tree is
the same members under the same ids, but for two things nobody compares: the identity in the
credential of a leaf that is replaced, and the ids of two key packages that one commit adds.
-/

namespace NemoMessenger.Client

open NemoMessenger.Data NemoMessenger.Wire

/-! ## Framings -/

/-- How a commit comes in. -/
inductive Framing
  | unframed (message : Bytes)
  | bundled (hostGroupId : Key) (bundle : RemoveBundle)

namespace Framing

/-- The bytes of the commit. -/
def message : Framing → Bytes
  | unframed message => message
  | bundled _ bundle => bundle.mlsCommit

/-- `apply_handshake` or `apply_remove_bundle`. -/
def apply (p : Outside) (g : Group) (now : ℕ) : Framing → GroupResult HandshakeOutcome
  | unframed message => g.applyHandshake p.openMls message now
  | bundled hostGroupId bundle => g.applyRemoveBundle p.crypto p.openMls hostGroupId bundle now

/-- The leaf is the one the sidecar names. -/
def Names : Framing → Leaf → Prop
  | unframed _, _ => False
  | bundled _ bundle, leaf => leaf.credentialId? = some bundle.credentialId

theorem names_congr (framing : Framing) {a b : Leaf} (h : a.credentialId? = b.credentialId?) :
    framing.Names a ↔ framing.Names b := by
  cases framing with
  | unframed message => rfl
  | bundled hostGroupId bundle => simp only [Names, h]

end Framing

variable {p : Outside} {g : Group} {framing : Framing} {commit : StagedCommit} {sender : Option ℕ}
  {secrets : Bytes} {now : ℕ} {outcome : HandshakeOutcome} {leaf : Leaf}

/-! ## Stable trees -/

/-- A leaf is still the one it was: it may only be on the signing key that was announced for its
old one, by a `SigningKeyReplace` that verified. -/
structure Group.Same (crypto : Crypto) (g : Group) (old new : Leaf) : Prop where
  index : new.index = old.index
  credentialId : new.credentialId? = old.credentialId?
  identity : new.identity = old.identity
  signatureKey : new.signatureKey = old.signatureKey ∨
    ∃ key, g.announcedKeys.lookup old.signatureKey = some key ∧ new.signatureKey = key.data ∧
      Announced crypto old.signatureKey key

/-- The leaves of a group are stable over a commit. -/
structure Stable (crypto : Crypto) (framing : Framing) (g g' : Group) : Prop where
  /-- A member is gone exactly when the sidecar names it. -/
  removed : ∀ leaf ∈ g.mls.leaves,
    leaf.credentialId? ∉ g'.mls.leaves.map Leaf.credentialId? ↔ framing.Names leaf
  /-- The sidecar names a member. -/
  named : ∀ hostGroupId bundle, framing = .bundled hostGroupId bundle →
    ∃ leaf ∈ g.mls.leaves, framing.Names leaf
  survives : ∀ leaf ∈ g.mls.leaves, ¬framing.Names leaf →
    ∃ leaf' ∈ g'.mls.leaves, g.Same crypto leaf leaf'
  distinct : (g'.mls.leaves.map Leaf.credentialId?).Nodup

/-- Nothing collides in a commit, and the leaves that are replaced keep their identity. -/
structure StagedCommit.Regular (commit : StagedCommit) (sender : Option ℕ) (leaves : List Leaf) :
    Prop where
  ids : (leaves.map Leaf.credentialId?).Nodup
  added : (commit.adds.map Leaf.credentialId?).Nodup
  identities : ∀ leaf ∈ leaves, leaf.index ∉ commit.removes → ∀ new,
    commit.replacement sender leaf.index = some new → new.identity = leaf.identity

/-! ## Accepted commits -/

/-- A bundle that matches removes one member. -/
theorem removes_of_matches (hg : Profiled g.mls.leaves) {credentialId : Key}
    (h : g.stagedRemoveMatches commit credentialId = true) :
    ∃ leaf ∈ g.mls.leaves,
      commit.removes = [leaf.index] ∧ leaf.credentialId? = some credentialId := by
  rw [Group.stagedRemoveMatches, Bool.and_eq_true, List.all_eq_true, beq_iff_eq,
    List.length_eq_one_iff] at h
  obtain ⟨hall, index, hone⟩ := h
  have hlookup : (credentialIds g.mls.leaves).lookup index = some credentialId :=
    beq_iff_eq.mp (hall index (by simp [hone]))
  obtain ⟨before, after, happend, -⟩ := List.lookup_eq_some_iff.mp hlookup
  have hmem : (index, credentialId) ∈ credentialIds g.mls.leaves := by simp [happend]
  obtain ⟨leaf, hleaf, hentry⟩ := List.mem_filterMap.mp hmem
  rw [hg.credentialIdBySig hleaf] at hentry
  obtain ⟨id, hid, hpair⟩ := Option.map_eq_some_iff.mp hentry
  cases hpair
  exact ⟨leaf, hleaf, hone, hid⟩

/-- What has been checked of a commit that is accepted. -/
structure Framing.Accepted (framing : Framing) (g : Group) (commit : StagedCommit)
    (sender : Option ℕ) : Prop where
  validated : g.Validated commit sender
  removes : ∀ leaf ∈ g.mls.leaves, leaf.index ∈ commit.removes → framing.Names leaf
  named : ∀ hostGroupId bundle, framing = .bundled hostGroupId bundle →
    ∃ leaf ∈ g.mls.leaves, leaf.index ∈ commit.removes
  one : ∀ i ∈ commit.removes, ∀ j ∈ commit.removes, i = j

/-- The leaves of a group that has merged a commit are those of the commit. -/
theorem leaves_mergeForeign (hok : (g.mergeForeign p.openMls commit).1 = .ok outcome) :
    (g.mergeForeign p.openMls commit).2.mls.leaves = commit.leaves := by
  unfold Group.mergeForeign at hok ⊢
  cases hmerge : p.openMls.mergeStaged g.mls commit with
  | error message => simp [hmerge] at hok
  | ok mls =>
    rw [p.openMls.mergeStaged_ok hmerge]
    rfl

theorem accepted_unframed (hg : Profiled g.mls.leaves) {message : Bytes}
    (hprocess : p.openMls.process g.mls message = (.ok (sender, .stagedCommit commit), secrets))
    (hok : (g.applyHandshake p.openMls message now).1 = .ok outcome) :
    (Framing.unframed message).Accepted g commit sender ∧
      (g.applyHandshake p.openMls message now).2.mls.leaves = commit.leaves := by
  have hprocess' : g.process p.openMls message =
      (.ok (sender, .stagedCommit commit), g.withSecrets secrets) := by
    simp only [Group.process, hprocess, Group.withSecrets]
  simp only [Group.applyHandshake, hprocess'] at hok ⊢
  split_ifs at hok ⊢ with hexternal hremoves
  have hnil : commit.removes = [] := List.length_eq_zero_iff.mp (Nat.eq_zero_of_not_pos hremoves)
  cases hvalid : (g.withSecrets secrets).validateCommit commit sender with
  | error e => simp [hvalid] at hok
  | ok =>
    rw [hvalid] at hok
    refine ⟨⟨Group.validateCommit_eq_ok hg hvalid, ?_, ?_, ?_⟩, leaves_mergeForeign hok⟩ <;>
      simp [hnil]

theorem accepted_bundled (hg : Profiled g.mls.leaves) {hostGroupId : Key} {bundle : RemoveBundle}
    (hprocess : p.openMls.process g.mls bundle.mlsCommit =
      (.ok (sender, .stagedCommit commit), secrets))
    (hok : (g.applyRemoveBundle p.crypto p.openMls hostGroupId bundle now).1 = .ok outcome) :
    (Framing.bundled hostGroupId bundle).Accepted g commit sender ∧
      (g.applyRemoveBundle p.crypto p.openMls hostGroupId bundle now).2.mls.leaves =
        commit.leaves := by
  have hprocess' : g.process p.openMls bundle.mlsCommit =
      (.ok (sender, .stagedCommit commit), g.withSecrets secrets) := by
    simp only [Group.process, hprocess, Group.withSecrets]
  simp only [Group.applyRemoveBundle, hprocess'] at hok ⊢
  cases sender with
  | none => cases hok
  | some index =>
    dsimp only at hok ⊢
    cases hkey : (g.withSecrets secrets).groupSigningAt p.crypto index with
    | none => simp [hkey] at hok
    | some senderKey =>
      simp only [hkey] at hok ⊢
      cases hsidecar : bundle.verifySidecar p.crypto senderKey hostGroupId with
      | error e => simp [hsidecar] at hok
      | ok =>
        simp only [hsidecar] at hok ⊢
        split_ifs at hok ⊢ with hexternal hlength hmatches
        cases hvalid : (g.withSecrets secrets).validateCommit commit (some index) with
        | error e => simp [hvalid] at hok
        | ok =>
          have hmatches' : g.stagedRemoveMatches commit bundle.credentialId = true :=
            Bool.of_not_eq_false fun hfalse ↦ hmatches (by rw [Bool.not_eq_true']; exact hfalse)
          obtain ⟨removed, hmem, hone, hid⟩ := removes_of_matches hg hmatches'
          rw [hvalid] at hok
          refine ⟨⟨Group.validateCommit_eq_ok hg hvalid, ?_, ?_, ?_⟩, leaves_mergeForeign hok⟩
          · intro leaf hleaf hindex
            rw [hone, List.mem_singleton] at hindex
            rw [hg.eq_of_index hleaf hmem hindex]
            exact hid
          · exact fun _ _ _ ↦ ⟨removed, hmem, by simp [hone]⟩
          · simp [hone]

theorem accepted (hg : Profiled g.mls.leaves)
    (hprocess : p.openMls.process g.mls framing.message =
      (.ok (sender, .stagedCommit commit), secrets))
    (hok : (framing.apply p g now).1 = .ok outcome) :
    framing.Accepted g commit sender ∧
      (framing.apply p g now).2.mls.leaves = commit.leaves := by
  cases framing with
  | unframed message => exact accepted_unframed hg hprocess hok
  | bundled hostGroupId bundle => exact accepted_bundled hg hprocess hok

/-! ## What an accepted commit leaves -/

namespace Framing.Accepted

variable (h : framing.Accepted g commit sender) (hg : g.Sound p.crypto)
  (hmerges : commit.Merges sender g.mls.leaves)
include h hg

omit hg in
/-- The id of a leaf that stays is the one it had. -/
theorem credentialId_successor (hleaf : leaf ∈ g.mls.leaves) :
    (commit.successor sender leaf).credentialId? = leaf.credentialId? := by
  cases hnew : commit.replacement sender leaf.index with
  | none => rw [StagedCommit.successor_of_none hnew]
  | some new =>
    rw [StagedCommit.successor_of_some hnew, Leaf.credentialId?_at]
    exact (h.validated.continues leaf hleaf new hnew).credentialId

/-- A leaf that stays and keeps its identity is the same. -/
theorem same_successor (hleaf : leaf ∈ g.mls.leaves)
    (hidentity : ∀ new, commit.replacement sender leaf.index = some new →
      new.identity = leaf.identity) :
    g.Same p.crypto leaf (commit.successor sender leaf) := by
  have hid := h.credentialId_successor hleaf
  cases hnew : commit.replacement sender leaf.index with
  | none =>
    rw [StagedCommit.successor_of_none hnew]
    exact ⟨rfl, rfl, rfl, .inl rfl⟩
  | some new =>
    rw [StagedCommit.successor_of_some hnew] at hid ⊢
    refine ⟨rfl, hid, hidentity new hnew, ?_⟩
    rcases (h.validated.continues leaf hleaf new hnew).signatureKey with hkey | ⟨key, hkey, hnew⟩
    · exact .inl hkey
    · exact .inr ⟨key, hkey, hnew, hg.announced _ _ hkey⟩

include hmerges

omit hg in
/-- The ids after the commit: those of the leaves that stay, and those it adds. -/
theorem ids_perm : (commit.leaves.map Leaf.credentialId?).Perm
    ((commit.survivors g.mls.leaves).map Leaf.credentialId? ++
      commit.adds.map Leaf.credentialId?) := by
  have hsame : (commit.survivors g.mls.leaves).map
      (fun leaf ↦ (commit.successor sender leaf).credentialId?) =
        (commit.survivors g.mls.leaves).map Leaf.credentialId? :=
    List.map_congr_left fun leaf hleaf ↦
      h.credentialId_successor (StagedCommit.mem_survivors.mp hleaf).1
  rw [← hsame]
  exact hmerges.credentialIds_perm

omit hg in
/-- An id stays in the tree when a leaf that has it stays. -/
theorem id_mem_iff (hleaf : leaf ∈ g.mls.leaves) :
    leaf.credentialId? ∈ commit.leaves.map Leaf.credentialId? ↔
      ∃ other ∈ g.mls.leaves, other.index ∉ commit.removes ∧
        other.credentialId? = leaf.credentialId? := by
  have hadds : leaf.credentialId? ∉ commit.adds.map Leaf.credentialId? := by
    intro hmem
    obtain ⟨new, hnew, hid⟩ := List.mem_map.mp hmem
    exact (h.validated.adds new hnew).2 (hid ▸ List.mem_map_of_mem hleaf)
  rw [(h.ids_perm hmerges).mem_iff, List.mem_append, or_iff_left hadds, List.mem_map]
  simp only [StagedCommit.mem_survivors, and_assoc]

theorem stable (hregular : commit.Regular sender g.mls.leaves) {g' : Group}
    (hleaves : g'.mls.leaves = commit.leaves) : Stable p.crypto framing g g' := by
  have hinj := List.inj_on_of_nodup_map hregular.ids
  have hnames : ∀ leaf ∈ g.mls.leaves, leaf.index ∈ commit.removes ↔ framing.Names leaf := by
    refine fun leaf hleaf ↦ ⟨h.removes leaf hleaf, fun hnamed ↦ ?_⟩
    cases framing with
    | unframed message => exact hnamed.elim
    | bundled hostGroupId bundle =>
      obtain ⟨removed, hmem, hindex⟩ := h.named hostGroupId bundle rfl
      rwa [hinj hleaf hmem (hnamed.trans (h.removes removed hmem hindex).symm)]
  refine ⟨fun leaf hleaf ↦ ?_, ?_, fun leaf hleaf hstays ↦ ?_, ?_⟩
  · rw [hleaves, h.id_mem_iff hmerges hleaf, ← hnames leaf hleaf, not_iff_comm]
    constructor
    · exact fun hstays ↦ ⟨leaf, hleaf, hstays, rfl⟩
    · rintro ⟨other, hother, hstays, hid⟩
      rwa [← hinj hother hleaf hid]
  · intro hostGroupId bundle hframing
    obtain ⟨leaf, hleaf, hindex⟩ := h.named hostGroupId bundle hframing
    exact ⟨leaf, hleaf, h.removes leaf hleaf hindex⟩
  · rw [← hnames leaf hleaf] at hstays
    exact ⟨_, hleaves ▸ hmerges.successor_mem hleaf hstays,
      h.same_successor hg hleaf (hregular.identities leaf hleaf hstays)⟩
  · rw [hleaves, (h.ids_perm hmerges).nodup_iff, List.nodup_append]
    have hsublist : (commit.survivors g.mls.leaves).Sublist g.mls.leaves := List.filter_sublist
    refine ⟨(hsublist.map _).nodup hregular.ids, hregular.added, ?_⟩
    rintro id hold _ hnew rfl
    obtain ⟨new, hadd, rfl⟩ := List.mem_map.mp hnew
    exact (h.validated.adds new hadd).2 ((hsublist.map _).subset hold)

theorem regular {g' : Group} (hleaves : g'.mls.leaves = commit.leaves)
    (hstable : Stable p.crypto framing g g') : commit.Regular sender g.mls.leaves := by
  have hremoved : ∀ leaf ∈ g.mls.leaves, framing.Names leaf → leaf.index ∈ commit.removes := by
    intro leaf hleaf hnames
    by_contra hstays
    refine (hstable.removed leaf hleaf).mpr hnames ?_
    rw [hleaves, h.id_mem_iff hmerges hleaf]
    exact ⟨leaf, hleaf, hstays, rfl⟩
  have hdistinct := hstable.distinct
  rw [hleaves, (h.ids_perm hmerges).nodup_iff, List.nodup_append] at hdistinct
  refine ⟨?_, hdistinct.2.1, fun leaf hleaf hstays new hnew ↦ ?_⟩
  · refine List.Nodup.map_on (fun a ha b hb hab ↦ ?_) (.of_map _ hg.profiled.indices)
    have hnames : framing.Names a ↔ framing.Names b := framing.names_congr hab
    by_cases hstays : a.index ∈ commit.removes
    · -- A commit removes one member at most.
      have hb' := hremoved b hb (hnames.mp (h.removes a ha hstays))
      exact hg.profiled.eq_of_index ha hb (h.one _ hstays _ hb')
    · have hstays' : b.index ∉ commit.removes := fun hb' ↦
        hstays (hremoved a ha (hnames.mpr (h.removes b hb hb')))
      exact List.inj_on_of_nodup_map hdistinct.1 (StagedCommit.mem_survivors.mpr ⟨ha, hstays⟩)
        (StagedCommit.mem_survivors.mpr ⟨hb, hstays'⟩) hab
  · obtain ⟨leaf', hleaf', hsame⟩ := hstable.survives leaf hleaf fun hnames ↦
      hstays (hremoved leaf hleaf hnames)
    have hmem := hmerges.successor_mem hleaf hstays
    rw [StagedCommit.successor_of_some hnew] at hmem
    rw [hleaves] at hleaf'
    have heq : leaf' = new.at leaf.index :=
      List.inj_on_of_nodup_map (hmerges.valid hg.profiled.toTreeValid).indices hleaf' hmem hsame.index
    rw [← hsame.identity, heq, Leaf.identity_at]

end Framing.Accepted

/-- The leaves are stable over a foreign commit exactly when nothing in it collides and no leaf it
replaces takes another identity. -/
theorem leaves_stable_iff (hopen : p.openMls.Faithful) (hg : g.Reached p)
    (hprocess : p.openMls.process g.mls framing.message =
      (.ok (sender, .stagedCommit commit), secrets))
    (hok : (framing.apply p g now).1 = .ok outcome) :
    Stable p.crypto framing g (framing.apply p g now).2 ↔
      commit.Regular sender g.mls.leaves := by
  have hsound := hg.sound hopen
  obtain ⟨haccepted, hleaves⟩ := accepted hsound.profiled hprocess hok
  have hmerges := hopen.process hprocess
  constructor
  · exact haccepted.regular hsound hmerges hleaves
  · exact fun hregular ↦ haccepted.stable hsound hmerges hregular hleaves

/-! ## A leaf that changes hands -/

/-- Two members. -/
def Leaf.pair : List Leaf :=
  [0, 1].map fun index ↦
    { index
      identity := .replicate 32 (UInt8.ofNat index)
      signatureKey := .replicate 32 (UInt8.ofNat (index + 2))
      credentialIdExt := some (.replicate 32 (UInt8.ofNat (index + 4)))
      groupSigningExt := some (.replicate 32 (UInt8.ofNat (index + 2))) }

/-- The commit of the second member whose path leaf has this identity. -/
def StagedCommit.pathOf (identity : Bytes) : StagedCommit :=
  let leaves := Leaf.pair.modify 1 fun leaf ↦ { leaf with identity }
  { updates := [], adds := [], removes := [], pathLeaf := leaves[1]?, external := false, leaves,
    secrets := [] }

/-- Every message of two members holds a commit: the message is the identity on its path. -/
def OpenMls.ofPair : OpenMls where
  messageEpoch _ := none
  isWelcome _ := true
  process g message :=
    if g.leaves = Leaf.pair then (.ok (some 1, .stagedCommit (.pathOf message)), g.secrets)
    else (.error .wrongEpoch, g.secrets)
  createMessage _ _ _ _ := .error ""
  selfUpdate _ _ _ _ := .error ""
  addMember _ _ _ _ := .error ""
  removeMember _ _ _ _ := .error ""
  readKeyPackage _ := .error ""
  newGroup leaf _ := ([], ⟨0, [leaf], 0, []⟩)
  buildKeyPackage _ _ _ := .error ""
  welcomeMatches _ _ := true
  join _ _ _ := .ok ([], true, ⟨0, Leaf.pair, 0, []⟩)
  mergePending g := .ok (g.pendingCommit.elim g g.merged)
  mergeStaged g commit := .ok (g.merged commit)
  mergePending_ok := @MlsGroup.eq_elim_of_ok
  mergeStaged_ok := @MlsGroup.eq_merged_of_ok

theorem StagedCommit.merges_pathOf (identity : Bytes) :
    (pathOf identity).Merges (some 1) Leaf.pair where
  merged := ⟨[], List.Perm.of_eq rfl, rfl⟩
  valid h := ⟨h.indices, h.keys⟩

theorem TreeValid.pair : TreeValid Leaf.pair := ⟨by decide, by decide⟩

theorem OpenMls.faithful_ofPair : ofPair.Faithful where
  process {g message sender commit secrets} h := by
    simp only [ofPair] at h
    by_cases hleaves : g.leaves = Leaf.pair
    · rw [if_pos hleaves] at h
      cases h
      rw [hleaves]
      exact StagedCommit.merges_pathOf message
    · rw [if_neg hleaves] at h
      cases h
  selfUpdate h := by cases h
  addMember h := by cases h
  removeMember h := by cases h
  newGroup _ _ := rfl
  join h := by
    cases h
    exact .pair

/-- The client of one of two members. -/
def Outside.ofPair : Outside := { Outside.transparent with openMls := .ofPair }

/-- The group of two members, when one of them has just joined it. -/
def Group.ofPair : Group :=
  NewGroup.group
    { mlsGroupId := [], groupSigning := .replicate 32 0, credentialId := .replicate 32 4,
      lastOwnUpdate := 0, mls := ⟨0, Leaf.pair, 0, []⟩ }

theorem Group.reached_ofPair : Group.ofPair.Reached .ofPair := by
  have hjoin : (HomeSession.acquainted.install.joinGroup .ofPair
      ⟨.replicate 32 4, .replicate 32 0, []⟩ [] 0).1 =
        .ok ⟨[], .replicate 32 0, .replicate 32 4, 0, ⟨0, Leaf.pair, 0, []⟩⟩ := rfl
  exact .joined hjoin

/-- The leaves are stable over the commit of a member that stays itself. -/
theorem leaves_stable_iff_pair : Stable Outside.ofPair.crypto (.unframed (.replicate 32 1)) .ofPair
    (Framing.apply .ofPair .ofPair 0 (.unframed (.replicate 32 1))).2 :=
  (leaves_stable_iff OpenMls.faithful_ofPair Group.reached_ofPair rfl rfl).mpr
    ⟨by decide, by decide, by decide⟩

/-- A commit is accepted in which a member becomes another. -/
theorem Leaf.identity_not_stable :
    Group.ofPair.Reached .ofPair ∧
      (Framing.apply .ofPair .ofPair 0 (.unframed (.replicate 32 9))).1 = .ok .applied ∧
      ¬Stable Outside.ofPair.crypto (.unframed (.replicate 32 9)) .ofPair
        (Framing.apply .ofPair .ofPair 0 (.unframed (.replicate 32 9))).2 := by
  refine ⟨Group.reached_ofPair, rfl, fun h ↦ ?_⟩
  obtain ⟨leaf', hleaf', hsame⟩ := h.survives Leaf.pair[1] (List.getElem_mem _) id
  have hidentity : ∀ leaf ∈ (StagedCommit.pathOf (.replicate 32 9)).leaves, leaf.index = 1 →
      leaf.identity ≠ .replicate 32 1 := by
    decide
  exact hidentity leaf' hleaf' hsame.index hsame.identity

end NemoMessenger.Client
