import NemoMessenger.Client.Device

/-!
# The ratchet tree under commits

What a commit does to the leaves of a group, as OpenMLS merges it, and what a client can rely on in
every group it is in: leaves of the v1 profile, one for each index and each signature key, and
announcements that their old key has signed.
-/

namespace NemoMessenger.Client

open NemoMessenger.Data NemoMessenger.Wire

/-! ## Leaves -/

/-- The id in `0xF001`. -/
def Leaf.credentialId? (leaf : Leaf) : Option Key :=
  leaf.credentialIdExt.bind fun ext ↦ (copyFixed 32 ext).toOption

/-- The leaf is of the v1 profile. -/
def Leaf.Conforms (leaf : Leaf) : Prop := ∃ cid, checkNewLeaf leaf = .ok cid

/-- The leaf at another place of the tree. -/
def Leaf.at (leaf : Leaf) (index : ℕ) : Leaf := { leaf with index }

@[simp] theorem Leaf.index_at (leaf : Leaf) (i : ℕ) : (leaf.at i).index = i := rfl

@[simp] theorem Leaf.identity_at (leaf : Leaf) (i : ℕ) : (leaf.at i).identity = leaf.identity := rfl

@[simp] theorem Leaf.credentialId?_at (leaf : Leaf) (i : ℕ) :
    (leaf.at i).credentialId? = leaf.credentialId? := rfl

theorem Leaf.Conforms.at {leaf : Leaf} (h : leaf.Conforms) (i : ℕ) : (leaf.at i).Conforms := h

theorem checkNewLeaf_eq_ok {leaf : Leaf} {cid : Key} (h : checkNewLeaf leaf = .ok cid) :
    leaf.credentialId? = some cid := by
  unfold checkNewLeaf at h
  split at h
  · next id gsk hid hgsk =>
    split_ifs at h
    cases h
    obtain ⟨ext, hext, hcopy⟩ := Option.map_eq_some_iff.mp hid
    simp [Leaf.credentialId?, hext, hcopy, Except.toOption]
  · cases h

theorem Leaf.Conforms.isSome {leaf : Leaf} (h : leaf.Conforms) : leaf.credentialId?.isSome := by
  obtain ⟨cid, hcid⟩ := h
  rw [checkNewLeaf_eq_ok hcid, Option.isSome_some]

theorem Group.conforms_newLeaf (crypto : Crypto) (index : ℕ) (identity cid signing : Key) :
    (Group.newLeaf crypto index identity cid signing).Conforms := by
  refine ⟨cid, ?_⟩
  simp [checkNewLeaf, Group.newLeaf, identity.size_eq]

/-! ## Trees -/

/-- A tree that is valid under the rules of MLS: no two members share a place or a signature key. -/
structure TreeValid (leaves : List Leaf) : Prop where
  indices : (leaves.map (·.index)).Nodup
  keys : (leaves.map (·.signatureKey)).Nodup

/-- A tree of the v1 profile. -/
structure Profiled (leaves : List Leaf) : Prop extends TreeValid leaves where
  conform : ∀ leaf ∈ leaves, leaf.Conforms

variable {leaves : List Leaf} {leaf : Leaf}

theorem Profiled.eq_of_index (h : Profiled leaves) {a b : Leaf} (ha : a ∈ leaves) (hb : b ∈ leaves)
    (hab : a.index = b.index) : a = b :=
  List.inj_on_of_nodup_map h.indices ha hb hab

theorem Profiled.find?_index (h : Profiled leaves) (hleaf : leaf ∈ leaves) :
    leaves.find? (fun other ↦ other.index = leaf.index) = some leaf := by
  cases hfind : leaves.find? fun other ↦ other.index = leaf.index with
  | none => simpa using List.find?_eq_none.mp hfind leaf hleaf
  | some other =>
    have hindex := List.find?_some hfind
    rw [decide_eq_true_eq] at hindex
    rw [h.eq_of_index (List.mem_of_find?_eq_some hfind) hleaf hindex]

/-- The map by signature key answers with the id of the leaf that has the key. -/
theorem Profiled.credentialIdBySig (h : Profiled leaves) (hleaf : leaf ∈ leaves) :
    credentialIdBySig leaves leaf.signatureKey = leaf.credentialId? := by
  have hfind : leaves.reverse.find? (fun other ↦ other.signatureKey = leaf.signatureKey ∧
      (other.credentialIdExt.bind fun ext ↦ (copyFixed 32 ext).toOption).isSome) = some leaf := by
    rw [List.find?_eq_some_iff_append]
    obtain ⟨before, after, happend⟩ := List.append_of_mem (List.mem_reverse.mpr hleaf)
    have hid : leaf.credentialId?.isSome := (h.conform leaf hleaf).isSome
    refine ⟨decide_eq_true ⟨rfl, hid⟩, before, after, happend, ?_⟩
    intro other hother
    have hne : other.signatureKey ≠ leaf.signatureKey := by
      have hkeys := List.nodup_reverse.mpr h.keys
      rw [← List.map_reverse, happend, List.map_append, List.nodup_append] at hkeys
      exact hkeys.2.2 _ (List.mem_map_of_mem hother) _ (by simp)
    simp [hne]
  rw [Client.credentialIdBySig, hfind, Option.bind_some]
  rfl

/-- Where no two elements share a key, the one with a key answers for it. -/
theorem lookup_filterMap {α β : Type} {l : List α} (key : α → ℕ) (f : α → Option β)
    (h : (l.map key).Nodup) {a : α} (ha : a ∈ l) :
    (l.filterMap fun x ↦ (f x).map (key x, ·)).lookup (key a) = f a := by
  induction l with
  | nil => cases ha
  | cons x l ih =>
    obtain ⟨hx, hl⟩ := List.nodup_cons.mp h
    rcases List.mem_cons.mp ha with rfl | ha
    · cases hf : f a with
      | some b => simp [hf]
      | none =>
        simp only [List.filterMap_cons, hf, Option.map_none, List.lookup_eq_none_iff,
          List.mem_filterMap, Option.map_eq_some_iff]
        rintro _ ⟨y, hy, b, -, rfl⟩
        have hne : key a ≠ key y := fun hab ↦ hx (hab ▸ List.mem_map_of_mem hy)
        simpa using hne
    · have hne : key a ≠ key x := fun hab ↦ hx (hab ▸ List.mem_map_of_mem ha)
      cases hf : f x with
      | none => simpa [hf] using ih hl ha
      | some b => simpa [hf, List.lookup_cons, beq_false_of_ne hne] using ih hl ha

theorem Profiled.lookup_credentialIds (h : Profiled leaves) (hleaf : leaf ∈ leaves) :
    (credentialIds leaves).lookup leaf.index = leaf.credentialId? := by
  have hids : credentialIds leaves =
      leaves.filterMap fun leaf ↦ leaf.credentialId?.map (leaf.index, ·) :=
    List.filterMap_congr fun leaf hleaf ↦ by rw [h.credentialIdBySig hleaf]
  rw [hids, lookup_filterMap (·.index) Leaf.credentialId? h.indices hleaf]

theorem Profiled.mem_credentialIds (h : Profiled leaves) {cid : Key} :
    ((credentialIds leaves).any fun entry ↦ entry.2 = cid) ↔
      some cid ∈ leaves.map Leaf.credentialId? := by
  simp only [List.any_eq_true, decide_eq_true_eq, List.mem_map]
  constructor
  · rintro ⟨entry, hentry, rfl⟩
    obtain ⟨leaf, hleaf, hid⟩ := List.mem_filterMap.mp hentry
    rw [h.credentialIdBySig hleaf] at hid
    obtain ⟨cid, hcid, rfl⟩ := Option.map_eq_some_iff.mp hid
    exact ⟨leaf, hleaf, hcid⟩
  · rintro ⟨leaf, hleaf, hcid⟩
    refine ⟨(leaf.index, cid), List.mem_filterMap.mpr ⟨leaf, hleaf, ?_⟩, rfl⟩
    rw [h.credentialIdBySig hleaf, hcid, Option.map_some]

/-! ## Commits -/

namespace StagedCommit

variable (commit : StagedCommit) (sender : Option ℕ)

/-- The leaf that takes the place of the one at an index: of an update, or of the path of the
committer. -/
def replacement (index : ℕ) : Option Leaf :=
  (commit.updates.lookup index).or (if sender = some index then commit.pathLeaf else none)

/-- What becomes of a leaf that stays. -/
def successor (leaf : Leaf) : Leaf :=
  ((commit.replacement sender leaf.index).map (·.at leaf.index)).getD leaf

/-- The leaves that stay. -/
def survivors (leaves : List Leaf) : List Leaf :=
  leaves.filter fun leaf ↦ leaf.index ∉ commit.removes

/-- OpenMLS reports a commit as it merges it: the leaves that stay are replaced as reported, those
of the added key packages take free places, and a valid tree stays valid. -/
structure Merges (leaves : List Leaf) : Prop where
  merged : ∃ slots, commit.leaves.Perm ((commit.survivors leaves).map (commit.successor sender) ++
    List.zipWith Leaf.at commit.adds slots) ∧ slots.length = commit.adds.length
  valid : TreeValid leaves → TreeValid commit.leaves

variable {commit sender}

theorem successor_of_none (h : commit.replacement sender leaf.index = none) :
    commit.successor sender leaf = leaf := by
  rw [successor, h, Option.map_none, Option.getD_none]

theorem successor_of_some {new : Leaf} (h : commit.replacement sender leaf.index = some new) :
    commit.successor sender leaf = new.at leaf.index := by
  rw [successor, h, Option.map_some, Option.getD_some]

theorem mem_survivors : leaf ∈ commit.survivors leaves ↔ leaf ∈ leaves ∧ leaf.index ∉ commit.removes := by
  simp [survivors]

theorem map_at (adds : List Leaf) (slots : List ℕ) (h : slots.length = adds.length) :
    (List.zipWith Leaf.at adds slots).map Leaf.credentialId? = adds.map Leaf.credentialId? := by
  rw [List.map_zipWith]
  induction adds generalizing slots with
  | nil => rfl
  | cons leaf adds ih =>
    cases slots with
    | nil => cases h
    | cons slot slots => simpa using ih slots (Nat.succ.inj h)

namespace Merges

variable (h : commit.Merges sender leaves)
include h

/-- The ids of the tree after a commit. -/
theorem credentialIds_perm : (commit.leaves.map Leaf.credentialId?).Perm
    ((commit.survivors leaves).map (fun leaf ↦ (commit.successor sender leaf).credentialId?) ++
      commit.adds.map Leaf.credentialId?) := by
  obtain ⟨slots, hperm, hlength⟩ := h.merged
  have hmap := hperm.map Leaf.credentialId?
  rwa [List.map_append, List.map_map, map_at _ _ hlength] at hmap

theorem successor_mem (hleaf : leaf ∈ leaves) (hstays : leaf.index ∉ commit.removes) :
    commit.successor sender leaf ∈ commit.leaves := by
  obtain ⟨slots, hperm, -⟩ := h.merged
  exact hperm.mem_iff.mpr (List.mem_append_left _
    (List.mem_map_of_mem (mem_survivors.mpr ⟨hleaf, hstays⟩)))

theorem mem_cases {new : Leaf} (hnew : new ∈ commit.leaves) :
    (∃ leaf ∈ leaves, leaf.index ∉ commit.removes ∧ new = commit.successor sender leaf) ∨
      ∃ leaf ∈ commit.adds, ∃ slot, new = leaf.at slot := by
  obtain ⟨slots, hperm, -⟩ := h.merged
  rcases List.mem_append.mp (hperm.mem_iff.mp hnew) with hmem | hmem
  · obtain ⟨leaf, hleaf, rfl⟩ := List.mem_map.mp hmem
    obtain ⟨hleaf, hstays⟩ := mem_survivors.mp hleaf
    exact .inl ⟨leaf, hleaf, hstays, rfl⟩
  · obtain ⟨i, hi, rfl⟩ := List.mem_iff_getElem.mp hmem
    rw [List.length_zipWith] at hi
    refine .inr ⟨commit.adds[i], List.getElem_mem _, slots[i], List.getElem_zipWith⟩

/-- A tree stays of the profile when the leaves a commit brings are. -/
theorem profiled (hold : Profiled leaves)
    (hreplace : ∀ index new, commit.replacement sender index = some new → new.Conforms)
    (hadds : ∀ leaf ∈ commit.adds, leaf.Conforms) : Profiled commit.leaves where
  toTreeValid := h.valid hold.toTreeValid
  conform new hnew := by
    rcases h.mem_cases hnew with ⟨leaf, hleaf, -, rfl⟩ | ⟨leaf, hleaf, slot, rfl⟩
    · cases hnew : commit.replacement sender leaf.index with
      | none =>
        rw [successor_of_none hnew]
        exact hold.conform leaf hleaf
      | some new =>
        rw [successor_of_some hnew]
        exact (hreplace _ _ hnew).at leaf.index
    · exact (hadds leaf hleaf).at slot

end Merges

/-- Only a path comes with the commit of a member that proposes nothing else. -/
theorem replacement_path (hupdates : commit.updates = []) {index : ℕ} {new : Leaf}
    (h : commit.replacement sender index = some new) : commit.pathLeaf = some new := by
  rw [replacement, hupdates, List.lookup_nil, Option.none_or] at h
  split_ifs at h
  exact h

end StagedCommit

/-- What the client relies on OpenMLS for: commits merge as they are reported, its own commits hold
what it asked for, and the trees it founds and joins are valid. -/
structure OpenMls.Faithful (openMls : OpenMls) : Prop where
  process : ∀ {g message sender commit secrets},
    openMls.process g message = (.ok (sender, .stagedCommit commit), secrets) →
      commit.Merges sender g.leaves
  selfUpdate : ∀ {g signer leaf seed message commit},
    openMls.selfUpdate g signer leaf seed = .ok (message, commit) →
      commit.Merges (some g.ownIndex) g.leaves ∧ commit.updates = [] ∧ commit.adds = [] ∧
        commit.pathLeaf = some leaf
  addMember : ∀ {g signer leaf seed message welcome commit},
    openMls.addMember g signer leaf seed = .ok (message, welcome, commit) →
      commit.Merges (some g.ownIndex) g.leaves ∧ commit.updates = [] ∧ commit.adds = [leaf] ∧
        ∀ own ∈ commit.pathLeaf, own ∈ g.leaves
  removeMember : ∀ {g signer index seed message commit},
    openMls.removeMember g signer index seed = .ok (message, commit) →
      commit.Merges (some g.ownIndex) g.leaves ∧ commit.updates = [] ∧ commit.adds = [] ∧
        ∀ own ∈ commit.pathLeaf, own ∈ g.leaves
  newGroup : ∀ leaf seed, (openMls.newGroup leaf seed).2.leaves = [leaf]
  join : ∀ {storage keyPackage welcome id suite mls},
    openMls.join storage keyPackage welcome = .ok (id, suite, mls) → TreeValid mls.leaves

/-! ## Checks -/

/-- A `SigningKeyReplace` the old key has signed names the new one. -/
def Announced (crypto : Crypto) (old : Bytes) (new : Key) : Prop :=
  ∃ (replace : SigningKeyReplace) (key : Key),
    key.data = old ∧ replace.newPublicKey = new ∧ replace.verify crypto key = .ok ()

namespace Group

variable {crypto : Crypto} {openMls : OpenMls} {g : Group}

/-- What a leaf in the place of another is checked for. -/
structure Continues (g : Group) (old new : Leaf) : Prop where
  credentialId : new.credentialId? = old.credentialId?
  signatureKey : new.signatureKey = old.signatureKey ∨
    ∃ key, g.announcedKeys.lookup old.signatureKey = some key ∧ new.signatureKey = key.data

theorem ownLeaf_conforms {signing : Key} {leaf : Leaf} (h : g.ownLeaf crypto signing = .ok leaf) :
    leaf.Conforms := by
  unfold ownLeaf at h
  split at h
  · cases h
  · split at h
    · cases h
    · cases h
      exact conforms_newLeaf ..

theorem checkLeafUpdate_eq_ok (hg : Profiled g.mls.leaves) {index : ℕ} {new : Leaf}
    (h : g.checkLeafUpdate index new = .ok ()) :
    new.Conforms ∧ ∀ old ∈ g.mls.leaves, old.index = index → g.Continues old new := by
  unfold checkLeafUpdate at h
  obtain ⟨cid, hcid, h⟩ := bind_eq_ok.mp h
  refine ⟨⟨cid, hcid⟩, ?_⟩
  rintro old hold rfl
  rw [hg.lookup_credentialIds hold] at h
  split_ifs at h with hid
  simp only [hg.find?_index hold] at h
  refine ⟨?_, ?_⟩
  · obtain ⟨prev, hprev⟩ := Option.isSome_iff_exists.mp (hg.conform old hold).isSome
    rw [hprev, Option.any_some, decide_eq_true_eq, not_not] at hid
    rw [checkNewLeaf_eq_ok hcid, hprev, hid]
  · split_ifs at h with hkey
    · exact .inl hkey.symm
    · split at h
      · cases h
      · next key hcopy =>
        split_ifs at h with hannounced
        exact .inr ⟨key, hannounced, (copyFixed_eq_ok hcopy).symm⟩

theorem checkAdd_eq_ok (hg : Profiled g.mls.leaves) {new : Leaf} (h : g.checkAdd new = .ok ()) :
    new.Conforms ∧ new.credentialId? ∉ g.mls.leaves.map Leaf.credentialId? := by
  obtain ⟨cid, hcid, h⟩ := bind_eq_ok.mp h
  refine ⟨⟨cid, hcid⟩, ?_⟩
  rw [checkNewLeaf_eq_ok hcid, ← hg.mem_credentialIds]
  split_ifs at h with hany
  exact hany

/-- What a commit that has been checked brings. -/
structure Validated (g : Group) (commit : StagedCommit) (sender : Option ℕ) : Prop where
  conforms : ∀ index new, commit.replacement sender index = some new → new.Conforms
  continues : ∀ old ∈ g.mls.leaves, ∀ new, commit.replacement sender old.index = some new →
    g.Continues old new
  adds : ∀ new ∈ commit.adds,
    new.Conforms ∧ new.credentialId? ∉ g.mls.leaves.map Leaf.credentialId?

theorem validateCommit_eq_ok (hg : Profiled g.mls.leaves) {commit : StagedCommit}
    {sender : Option ℕ} (h : g.validateCommit commit sender = .ok ()) :
    g.Validated commit sender := by
  obtain ⟨⟨⟩, hupdates, h⟩ := bind_eq_ok.mp h
  have ⟨hpath, hadds⟩ : (∀ leaf index, commit.pathLeaf = some leaf → sender = some index →
      g.checkLeafUpdate index leaf = .ok ()) ∧ commit.adds.forM g.checkAdd = .ok () := by
    cases hleaf : commit.pathLeaf with
    | none =>
      simp only [hleaf] at h
      obtain ⟨⟨⟩, -, hadds⟩ := bind_eq_ok.mp h
      exact ⟨by simp, hadds⟩
    | some leaf =>
      cases hsender : sender with
      | none => simp [hleaf, hsender, bind, Except.bind] at h
      | some index =>
        simp only [hleaf, hsender] at h
        obtain ⟨⟨⟩, hcheck, hadds⟩ := bind_eq_ok.mp h
        exact ⟨by simpa using hcheck, hadds⟩
  have hreplaced : ∀ index new, commit.replacement sender index = some new →
      g.checkLeafUpdate index new = .ok () := by
    intro index new hnew
    rcases Option.or_eq_some_iff.mp hnew with hupdate | ⟨-, hnew⟩
    · obtain ⟨before, after, happend, -⟩ := List.lookup_eq_some_iff.mp hupdate
      exact forM_eq_ok.mp hupdates (index, new) (by simp [happend])
    · split_ifs at hnew with hsender
      exact hpath new index hnew hsender
  exact ⟨fun index new hnew ↦ (checkLeafUpdate_eq_ok hg (hreplaced index new hnew)).1,
    fun old hold new hnew ↦
      (checkLeafUpdate_eq_ok hg (hreplaced _ new hnew)).2 old hold rfl,
    fun new hnew ↦ checkAdd_eq_ok hg (forM_eq_ok.mp hadds new hnew)⟩

/-! ## Groups a client is in -/

/-- What holds of every group of a client. -/
structure Sound (crypto : Crypto) (g : Group) : Prop where
  profiled : Profiled g.mls.leaves
  pending : ∀ commit ∈ g.mls.pendingCommit, Profiled commit.leaves
  announced : ∀ old new, g.announcedKeys.lookup old = some new → Announced crypto old new

/-- A group on other secrets. -/
def withSecrets (g : Group) (secrets : Bytes) : Group := { g with mls := { g.mls with secrets } }

theorem process_cases (g : Group) (message : Bytes) :
    (∃ e secrets, g.process openMls message = (.error e, g.withSecrets secrets)) ∨
      ∃ sender content secrets,
        openMls.process g.mls message = (.ok (sender, content), secrets) ∧
          g.process openMls message = (.ok (sender, content), g.withSecrets secrets) := by
  unfold process
  cases h : openMls.process g.mls message with
  | mk answer secrets =>
    cases answer with
    | ok processed => exact .inr ⟨processed.1, processed.2, secrets, rfl, rfl⟩
    | error e => cases e <;> exact .inl ⟨_, _, rfl⟩

namespace Sound

variable (hg : g.Sound crypto)
include hg

theorem withSecrets (secrets : Bytes) : (g.withSecrets secrets).Sound crypto :=
  ⟨hg.profiled, hg.pending, hg.announced⟩

theorem syncCredentialIds : g.syncCredentialIds.Sound crypto where
  profiled := hg.profiled
  pending := hg.pending
  announced old new h := by
    rw [Group.syncCredentialIds, FiniteMap.lookup_retain, Option.filter_eq_some_iff] at h
    exact hg.announced old new h.1

theorem discardPending : g.discardPending.Sound crypto :=
  ⟨hg.profiled, by simp [Group.discardPending], hg.announced⟩

theorem finishOwnCommit (now : ℕ) : (g.finishOwnCommit openMls now).2.Sound crypto := by
  unfold Group.finishOwnCommit
  cases hmerge : openMls.mergePending g.mls with
  | error message => exact hg
  | ok mls =>
    rw [openMls.mergePending_ok hmerge]
    cases h : g.mls.pendingCommit with
    | none => exact syncCredentialIds ⟨hg.profiled, hg.pending, hg.announced⟩
    | some commit =>
      exact syncCredentialIds ⟨hg.pending commit h, by simp [MlsGroup.merged], hg.announced⟩

theorem mergeForeign {commit : StagedCommit} (hcommit : Profiled commit.leaves) :
    (g.mergeForeign openMls commit).2.Sound crypto := by
  unfold Group.mergeForeign
  cases hmerge : openMls.mergeStaged g.mls commit with
  | error message => exact hg
  | ok mls =>
    rw [openMls.mergeStaged_ok hmerge]
    exact syncCredentialIds ⟨hcommit, by simp [MlsGroup.merged], hg.announced⟩

theorem stage {commit : StagedCommit} (hcommit : Profiled commit.leaves) (pending : PendingOwn) :
    (g.stage commit pending).Sound crypto :=
  ⟨hg.profiled, by simpa [Group.stage] using hcommit, hg.announced⟩

theorem applySigningKeyReplace (body : Bytes) :
    (g.applySigningKeyReplace crypto body).2.Sound crypto := by
  unfold Group.applySigningKeyReplace
  split
  · exact hg
  · next replace _ =>
    dsimp only
    split
    · next leaf hfind =>
      refine ⟨hg.profiled, hg.pending, fun old new h ↦ ?_⟩
      rw [FiniteMap.lookup_insert_ite] at h
      split_ifs at h with hold
      · cases h
        have hverify := List.find?_some hfind
        split at hverify
        · cases hverify
        · next key hcopy =>
          rw [Bool.and_eq_true] at hverify
          cases hanswer : replace.verify crypto key with
          | error e => simp [hanswer, Except.toOption] at hverify
          | ok => exact ⟨replace, key, hold ▸ copyFixed_eq_ok hcopy, rfl, hanswer⟩
      · exact hg.announced old new h
    · exact hg

variable (hopen : openMls.Faithful)
include hopen

/-- A foreign commit that has been checked keeps the tree of the profile. -/
theorem merge {message : Bytes} {sender : Option ℕ} {commit : StagedCommit} {secrets : Bytes}
    (hprocess : openMls.process g.mls message = (.ok (sender, .stagedCommit commit), secrets))
    (hok : g.validateCommit commit sender = .ok ()) : Profiled commit.leaves := by
  have hvalid := validateCommit_eq_ok hg.profiled hok
  exact (hopen.process hprocess).profiled hg.profiled hvalid.conforms fun leaf h ↦
    (hvalid.adds leaf h).1

theorem applyHandshake (message : Bytes) (now : ℕ) :
    (g.applyHandshake openMls message now).2.Sound crypto := by
  unfold Group.applyHandshake
  rcases process_cases g message with
    ⟨e, secrets, h⟩ | ⟨sender, content, secrets, hprocess, h⟩
  · rw [h]
    exact hg.withSecrets secrets
  · rw [h]
    have hg' := hg.withSecrets secrets
    cases content with
    | ownPendingCommit => exact hg'.finishOwnCommit now
    | ownPrivateMessage =>
      dsimp only
      split
      · exact hg'.finishOwnCommit now
      · exact hg'
    | stagedCommit commit =>
      dsimp only
      split_ifs
      · exact hg'
      · exact hg'
      · split
        · exact hg'
        · next hok => exact hg'.mergeForeign (hg.merge hopen hprocess hok)
    | externalJoinProposal => exact hg'
    | proposal reinit => exact hg'
    | application plaintext => exact hg'

theorem applyRemoveBundle (hostGroupId : Key) (bundle : RemoveBundle) (now : ℕ) :
    (g.applyRemoveBundle crypto openMls hostGroupId bundle now).2.Sound crypto := by
  unfold Group.applyRemoveBundle
  rcases process_cases g bundle.mlsCommit with
    ⟨e, secrets, h⟩ | ⟨sender, content, secrets, hprocess, h⟩
  · rw [h]
    exact hg.withSecrets secrets
  · rw [h]
    have hg' := hg.withSecrets secrets
    dsimp only
    split
    · exact hg'.finishOwnCommit now
    · exact hg'.finishOwnCommit now
    · split
      · exact hg'
      · split
        · exact hg'
        · split
          · exact hg'
          · split
            · next commit _ _ _ =>
              split_ifs
              · exact hg'
              · exact hg'
              · exact hg'
              · split
                · exact hg'
                · next hok => exact hg'.mergeForeign (hg.merge hopen hprocess hok)
            · exact hg'

omit hopen in
/-- So does a commit of one's own, which brings a path and what is added. -/
theorem own {commit : StagedCommit}
    (hmerges : commit.Merges (some g.mls.ownIndex) g.mls.leaves) (hupdates : commit.updates = [])
    (hpath : ∀ leaf ∈ commit.pathLeaf, leaf.Conforms)
    (hadds : ∀ leaf ∈ commit.adds, leaf.Conforms) : Profiled commit.leaves :=
  hmerges.profiled hg.profiled
    (fun _ _ hnew ↦ hpath _ (StagedCommit.replacement_path hupdates hnew)) hadds

theorem selfUpdate (now : ℕ) (seed : Bytes) :
    (g.selfUpdate crypto openMls now seed).2.Sound crypto := by
  unfold Group.selfUpdate
  split
  · exact hg
  · exact hg
  · next leaf _ hleaf =>
    split
    · exact hg
    · next message commit hcommit =>
      obtain ⟨hmerges, hupdates, hadds, hpath⟩ := hopen.selfUpdate hcommit
      have hstaged := hg.stage (hg.own hmerges hupdates
        (by simpa [hpath] using ownLeaf_conforms hleaf) (by simp [hadds])) ⟨.update, none⟩
      exact ⟨hstaged.profiled, hstaged.pending, hstaged.announced⟩

theorem maybeSelfUpdate (now : ℕ) (seed : Bytes) :
    (g.maybeSelfUpdate crypto openMls now seed).2.Sound crypto := by
  unfold Group.maybeSelfUpdate
  split_ifs
  · exact hg
  · exact hg.selfUpdate hopen now seed
  · exact hg

theorem rotateSigningKey (newSigning : Key) (seed : Bytes) :
    (g.rotateSigningKey crypto openMls newSigning seed).2.Sound crypto := by
  unfold Group.rotateSigningKey
  split
  · exact hg
  · exact hg
  · next leaf _ hleaf =>
    dsimp only
    split
    · exact hg
    · next message commit hcommit =>
      obtain ⟨hmerges, hupdates, hadds, hpath⟩ := hopen.selfUpdate hcommit
      exact hg.stage (hg.own hmerges hupdates
        (by simpa [hpath] using ownLeaf_conforms hleaf) (by simp [hadds])) _

theorem admitMember (keyPackage : Bytes) (expected : Key) (seed : Bytes) :
    (g.admitMember openMls keyPackage expected seed).2.Sound crypto := by
  unfold Group.admitMember
  split
  · exact hg
  · exact hg
  · split_ifs
    · exact hg
    · split
      · exact hg
      · next cid hcid =>
        split_ifs
        · exact hg
        · exact hg
        · split
          · exact hg
          · next message welcome commit hcommit =>
            obtain ⟨hmerges, hupdates, hadds, hpath⟩ := hopen.addMember hcommit
            exact hg.stage (hg.own hmerges hupdates
              (fun leaf h ↦ hg.profiled.conform leaf (hpath leaf h))
              (by simpa [hadds] using ⟨cid, hcid⟩)) _

theorem remove (hostGroupId credentialId : Key) (seed : Bytes) :
    (g.remove crypto openMls hostGroupId credentialId seed).2.Sound crypto := by
  unfold Group.remove
  split
  · exact hg
  · exact hg
  · split
    · exact hg
    · next message commit hcommit =>
      obtain ⟨hmerges, hupdates, hadds, hpath⟩ := hopen.removeMember hcommit
      exact hg.stage (hg.own hmerges hupdates
        (fun leaf h ↦ hg.profiled.conform leaf (hpath leaf h)) (by simp [hadds])) _

omit hopen in
theorem encrypt (plaintext : Bytes) (now : ℕ) (seed : Bytes) :
    (g.encrypt openMls plaintext now seed).2.Sound crypto := by
  unfold Group.encrypt
  split_ifs
  · exact hg
  · split
    · exact hg
    · exact hg.withSecrets _

omit hopen in
theorem decryptWithSender (ciphertext : Bytes) :
    (g.decryptWithSender crypto openMls ciphertext).2.Sound crypto := by
  unfold Group.decryptWithSender
  rcases process_cases g ciphertext with
    ⟨e, secrets, h⟩ | ⟨sender, content, secrets, -, h⟩
  · rw [h]
    exact hg.withSecrets secrets
  · rw [h]
    have hg' := hg.withSecrets secrets
    cases sender with
    | none => exact hg'
    | some index =>
      dsimp only
      split
      · exact hg'
      · split
        · exact hg'
        · split
          · exact hg'
          · exact hg'

omit hopen in
/-- A group is loaded as its sidecar was written of it; what was staged may be dropped. -/
theorem load {storage : MlsStorage} {g' : Group}
    (hgroups : storage.groups.lookup g.mlsGroupId = some g.mls)
    (h : g.sidecar.load storage = .ok g') : g'.Sound crypto := by
  unfold Sidecar.load at h
  split at h
  · cases h
  · next mls hmls =>
    obtain rfl : mls = g.mls := Option.some.inj (hmls.symm.trans hgroups)
    cases h
    generalize (if g.mls.pendingCommit.isSome then _ else none : Option PendingOwn) = pending
    refine syncCredentialIds ?_
    split
    · exact ⟨hg.profiled, by simp, hg.announced⟩
    · exact ⟨hg.profiled, hg.pending, hg.announced⟩

end Sound

end Group

/-- The group, when nothing is staged in it. -/
def NewGroup.group (g : NewGroup) : Group :=
  { g.record with mls := { g.mls with pendingCommit := none } }

variable {p : Outside}

theorem NewGroup.sound {g : NewGroup} (h : Profiled g.mls.leaves) : g.group.Sound p.crypto :=
  ⟨h, by simp [group], fun old new hnew ↦ by simp [group, record] at hnew⟩

/-- The groups a client can be in. -/
inductive Group.Reached (p : Outside) : Group → Prop
  | created (install : Installation) (credentialId groupSigning : Key) (nowMs : ℕ) (seed : Bytes) :
    Reached p (install.createGroup p credentialId groupSigning nowMs seed).1.group
  | joined {install : Installation} {pending : PendingJoin} {welcome : Bytes} {nowMs : ℕ}
      {g : NewGroup} (h : (install.joinGroup p pending welcome nowMs).1 = .ok g) :
    Reached p g.group
  | operated {g : Group} {β : Type} (hg : Reached p g) (op : GroupOp β) (seed : Bytes) :
    Reached p (op.run p seed g).2
  | rotated {g : Group} (hg : Reached p g) (newSigning : Key) (seed : Bytes) :
    Reached p (g.rotateSigningKey p.crypto p.openMls newSigning seed).2
  | loaded {g g' : Group} {storage : MlsStorage} (hg : Reached p g)
      (hgroups : storage.groups.lookup g.mlsGroupId = some g.mls)
      (h : g.sidecar.load storage = .ok g') : Reached p g'

theorem conforms_of_checkJoined {credentialId : Key} {mls : MlsTree}
    (h : Installation.checkJoined credentialId mls = .ok ()) :
    ∀ leaf ∈ mls.leaves, leaf.Conforms := by
  unfold Installation.checkJoined at h
  split at h
  · cases h
  · split at h
    · cases h
    · split_ifs at h
      intro leaf hleaf
      have hcheck := forM_eq_ok.mp h leaf hleaf
      cases hnew : checkNewLeaf leaf with
      | error e => simp [hnew, Except.map] at hcheck
      | ok cid => exact ⟨cid, hnew⟩

namespace Group

variable {g : Group} (hopen : p.openMls.Faithful)
include hopen

theorem Sound.operate (hg : g.Sound p.crypto) {β : Type} (op : GroupOp β) (seed : Bytes) :
    (op.run p seed g).2.Sound p.crypto := by
  cases op with
  | maybeSelfUpdate now => exact hg.maybeSelfUpdate hopen now seed
  | admitMember keyPackage expected => exact hg.admitMember hopen keyPackage expected seed
  | remove hostGroupId credentialId => exact hg.remove hopen hostGroupId credentialId seed
  | discardPending => exact hg.discardPending
  | applyHandshake message now => exact hg.applyHandshake hopen message now
  | applyRemoveBundle hostGroupId bundle now =>
    exact hg.applyRemoveBundle hopen hostGroupId bundle now
  | applySigningKeyReplace body => exact hg.applySigningKeyReplace body
  | encrypt plaintext now => exact hg.encrypt plaintext now seed
  | decryptWithSender ciphertext => exact hg.decryptWithSender ciphertext

theorem profiled_create (install : Installation) (credentialId groupSigning : Key) (nowMs : ℕ)
    (seed : Bytes) :
    Profiled (install.createGroup p credentialId groupSigning nowMs seed).1.mls.leaves := by
  simp only [Installation.createGroup, hopen.newGroup]
  refine ⟨⟨List.nodup_singleton _, List.nodup_singleton _⟩, fun leaf hleaf ↦ ?_⟩
  rw [List.mem_singleton.mp hleaf]
  exact conforms_newLeaf ..

theorem profiled_join {install : Installation} {pending : PendingJoin} {welcome : Bytes}
    {nowMs : ℕ} {g : NewGroup} (h : (install.joinGroup p pending welcome nowMs).1 = .ok g) :
    Profiled g.mls.leaves := by
  unfold Installation.joinGroup at h
  split at h
  · cases h
  · next id suite mls hjoin =>
    dsimp only at h
    split_ifs at h
    split at h
    · cases h
    · next hcheck =>
      cases h
      exact ⟨hopen.join hjoin, conforms_of_checkJoined hcheck⟩

/-- Every group a client can be in is sound. -/
theorem Reached.sound (h : g.Reached p) : g.Sound p.crypto := by
  induction h with
  | created install credentialId groupSigning nowMs seed =>
    exact NewGroup.sound (profiled_create hopen ..)
  | joined h => exact NewGroup.sound (profiled_join hopen h)
  | operated _ op seed ih => exact ih.operate hopen op seed
  | rotated _ newSigning seed ih => exact ih.rotateSigningKey hopen newSigning seed
  | loaded _ hgroups h ih => exact ih.load hgroups h

end Group

end NemoMessenger.Client
