import NemoMessenger.Client.Leaves
import NemoMessenger.Data.Run

/-!
# Agreement on commits

The host puts the handshakes of a group in one order, and a member merges nothing but what comes back
from it. A ledger is kept of the stream: the first commit that is valid where the group stands moves
it on, and what is not valid there changes nothing. A member that takes the rows in order follows the
ledger, whatever it stages in between, as long as a commit of its own comes back as it was sent; so
members that have taken the same rows have merged the same commits.
-/

namespace NemoMessenger.Client

open NemoMessenger.Data NemoMessenger.Wire

/-! ## What the members of a group share -/

/-- The commit as all members read it: what it brings a single one is left out. -/
def StagedCommit.shared (commit : StagedCommit) : StagedCommit := { commit with secrets := [] }

/-- The tree a commit leads to. -/
def StagedCommit.tree (commit : StagedCommit) (tree : MlsTree) : MlsTree where
  epoch := tree.epoch + 1
  leaves := commit.leaves
  ownIndex := tree.ownIndex
  secrets := commit.secrets

/-- What OpenMLS promises the members of one group. The context is what they share in an epoch. A
message holds at most one commit in a context; it leads every member to the same next context, and
is reported as staged to all but its sender. An update is proposed by reference, and no member keeps
proposals. `delivers` and `process` are idealised: a private message whose ratchet secret is used up,
as that of a row which was refused and comes once more, opens all the same, and processing never
leaves the context. -/
structure Consensus (openMls : OpenMls) where
  Context : Type
  context : MlsTree → Context
  read : Context → Bytes → Option (Option ℕ × StagedCommit × Context)
  shares : ∀ {a b}, context a = context b → a.epoch = b.epoch ∧ a.leaves = b.leaves
  process : ∀ (g : MlsGroup) (message : Bytes),
    context { g.toMlsTree with secrets := (openMls.process g message).2 } = context g.toMlsTree
  createMessage : ∀ {g signer plaintext seed ciphertext secrets},
    openMls.createMessage g signer plaintext seed = .ok (ciphertext, secrets) →
      context { g.toMlsTree with secrets } = context g.toMlsTree
  staged : ∀ {g message sender commit secrets},
    openMls.process g message = (.ok (sender, .stagedCommit commit), secrets) →
      sender ≠ some g.ownIndex ∧ read (context g.toMlsTree) message =
        some (sender, commit.shared, context (commit.tree g.toMlsTree))
  own : ∀ {g message sender secrets},
    openMls.process g message = (.ok (sender, .ownPendingCommit), secrets) →
      ∃ commit next, read (context g.toMlsTree) message = some (some g.ownIndex, commit, next)
  delivers : ∀ {g : MlsGroup} {message sender commit next},
    read (context g.toMlsTree) message = some (sender, commit, next) → sender ≠ some g.ownIndex →
      ∃ staged secrets, openMls.process g message = (.ok (sender, .stagedCommit staged), secrets)
  epochs : ∀ {tree message result}, read (context tree) message = some result →
    openMls.messageEpoch message = some tree.epoch
  updates : ∀ {c message sender commit next}, read c message = some (sender, commit, next) →
    commit.updates = []

/-! ## Checks -/

/-- The checks of a staged commit in its framing. -/
def Framing.accepts (crypto : Crypto) (g : Group) (sender : Option ℕ) (commit : StagedCommit) :
    Framing → Bool
  | unframed _ =>
    !commit.external && commit.removes.length = 0 && (g.validateCommit commit sender).isOk
  | bundled hostGroupId bundle =>
    match sender.bind fun index ↦ g.groupSigningAt crypto index with
    | none => false
    | some senderKey =>
      (bundle.verifySidecar crypto senderKey hostGroupId).isOk && !commit.external &&
        commit.removes.length = 1 && g.stagedRemoveMatches commit bundle.credentialId &&
        (g.validateCommit commit sender).isOk

section Checks

variable {p : Outside} {g : Group} {framing : Framing} {sender : Option ℕ} {commit : StagedCommit}
  {secrets : Bytes} {now : ℕ}

theorem process_staged
    (hprocess : p.openMls.process g.mls framing.message = (.ok (sender, .stagedCommit commit), secrets)) :
    g.process p.openMls framing.message =
      (.ok (sender, .stagedCommit commit), g.withSecrets secrets) := by
  simp only [Group.process, hprocess, Group.withSecrets]

/-- A staged commit is merged exactly when it passes the checks. -/
theorem apply_staged
    (hprocess : p.openMls.process g.mls framing.message = (.ok (sender, .stagedCommit commit), secrets)) :
    (framing.accepts p.crypto g sender commit = true →
      framing.apply p g now = (g.withSecrets secrets).mergeForeign p.openMls commit) ∧
    (framing.accepts p.crypto g sender commit = false →
      ∃ e, framing.apply p g now = (.error e, g.withSecrets secrets)) := by
  have hfirst := process_staged hprocess
  cases framing with
  | unframed message =>
    dsimp only [Framing.accepts, Framing.apply, Group.applyHandshake, Framing.message] at hfirst ⊢
    rw [hfirst]
    dsimp only
    have hvalid : (g.withSecrets secrets).validateCommit commit sender =
        g.validateCommit commit sender := rfl
    rw [hvalid]
    cases commit.external <;> cases commit.removes <;>
      cases g.validateCommit commit sender <;> simp [Except.isOk, Except.toBool]
  | bundled hostGroupId bundle =>
    dsimp only [Framing.accepts, Framing.apply, Group.applyRemoveBundle, Framing.message] at hfirst ⊢
    rw [hfirst]
    dsimp only
    cases sender with
    | none => simp
    | some index =>
      have hkey : (g.withSecrets secrets).groupSigningAt p.crypto index =
          g.groupSigningAt p.crypto index := rfl
      have hmatch : (g.withSecrets secrets).stagedRemoveMatches commit bundle.credentialId =
          g.stagedRemoveMatches commit bundle.credentialId := rfl
      have hvalid : (g.withSecrets secrets).validateCommit commit (some index) =
          g.validateCommit commit (some index) := rfl
      dsimp only [Option.bind_some]
      rw [hkey, hmatch, hvalid]
      cases g.groupSigningAt p.crypto index with
      | none => simp
      | some senderKey =>
        dsimp only
        cases bundle.verifySidecar p.crypto senderKey hostGroupId with
        | error e => simp [Except.isOk, Except.toBool]
        | ok =>
          dsimp only
          by_cases hone : commit.removes.length = 1 <;> cases commit.external <;>
            cases g.stagedRemoveMatches commit bundle.credentialId <;>
            cases g.validateCommit commit (some index) <;>
            simp [hone, Except.isOk, Except.toBool]

/-- A commit of one's own that comes back while it is staged is merged, without another check. -/
theorem apply_own {content : Processed}
    (hprocess : p.openMls.process g.mls framing.message = (.ok (sender, content), secrets))
    (hcontent : content = .ownPendingCommit ∨ content = .ownPrivateMessage)
    (hpending : g.pending.isSome = true) :
    framing.apply p g now = (g.withSecrets secrets).finishOwnCommit p.openMls now := by
  have hfirst : g.process p.openMls framing.message = (.ok (sender, content), g.withSecrets secrets) := by
    simp only [Group.process, hprocess, Group.withSecrets]
  have hstaged : (g.withSecrets secrets).pending.isSome = true := hpending
  cases framing with
  | unframed message =>
    dsimp only [Framing.apply, Group.applyHandshake, Framing.message] at hfirst ⊢
    rw [hfirst]
    rcases hcontent with rfl | rfl
    · rfl
    · dsimp only
      rw [if_pos hstaged]
  | bundled hostGroupId bundle =>
    dsimp only [Framing.apply, Group.applyRemoveBundle, Framing.message] at hfirst ⊢
    rw [hfirst]
    dsimp only
    rw [hstaged]
    rcases hcontent with rfl | rfl <;> rfl

/-- Processing a message changes nothing but the secrets. -/
theorem group_process (g : Group) (message : Bytes) :
    (g.process p.openMls message).2 = g.withSecrets (p.openMls.process g.mls message).2 := by
  unfold Group.process
  rcases p.openMls.process g.mls message with ⟨answer, secrets⟩
  rcases answer with (_ | _) | _ <;> rfl

/-- What holds neither a commit of another member nor one that is staged here is refused. -/
theorem apply_quiet
    (hother : ∀ sender commit secrets,
      p.openMls.process g.mls framing.message ≠ (.ok (sender, .stagedCommit commit), secrets))
    (hown : ∀ sender secrets,
      p.openMls.process g.mls framing.message ≠ (.ok (sender, .ownPendingCommit), secrets))
    (hprivate : ∀ sender secrets,
      p.openMls.process g.mls framing.message = (.ok (sender, .ownPrivateMessage), secrets) →
        g.pending.isSome = false) :
    ∃ e, framing.apply p g now =
      (.error e, g.withSecrets (p.openMls.process g.mls framing.message).2) := by
  have hsecrets := group_process (p := p) g framing.message
  rcases @Group.process_cases p.openMls g framing.message with
    ⟨e, secrets, hfirst⟩ | ⟨sender, content, secrets, hprocess, hfirst⟩
  · rw [← hsecrets, hfirst]
    cases framing with
    | unframed message =>
      refine ⟨e, ?_⟩
      dsimp only [Framing.apply, Group.applyHandshake, Framing.message] at hfirst ⊢
      rw [hfirst]
    | bundled hostGroupId bundle =>
      refine ⟨e, ?_⟩
      dsimp only [Framing.apply, Group.applyRemoveBundle, Framing.message] at hfirst ⊢
      rw [hfirst]
  · rw [← hsecrets, hfirst]
    cases framing with
    | unframed message =>
      dsimp only [Framing.apply, Group.applyHandshake, Framing.message] at hfirst hprocess hprivate ⊢
      rw [hfirst]
      cases content with
      | ownPendingCommit => exact absurd hprocess (hown _ _)
      | ownPrivateMessage =>
        have hidle : (g.withSecrets secrets).pending.isSome = false := hprivate _ _ hprocess
        dsimp only
        rw [hidle]
        exact ⟨_, rfl⟩
      | stagedCommit commit => exact absurd hprocess (hother _ _ _)
      | externalJoinProposal | proposal | application => exact ⟨_, rfl⟩
    | bundled hostGroupId bundle =>
      dsimp only [Framing.apply, Group.applyRemoveBundle, Framing.message] at hfirst hprocess hprivate ⊢
      rw [hfirst]
      cases content
      case ownPendingCommit => exact absurd hprocess (hown _ _)
      case stagedCommit commit => exact absurd hprocess (hother _ _ _)
      case' ownPrivateMessage =>
        have hidle : (g.withSecrets secrets).pending.isSome = false := hprivate _ _ hprocess
        dsimp only
        rw [hidle]
      all_goals
        cases sender with
        | none => exact ⟨_, rfl⟩
        | some index =>
          dsimp only
          cases (g.withSecrets secrets).groupSigningAt p.crypto index with
          | none => exact ⟨_, rfl⟩
          | some senderKey =>
            dsimp only
            cases bundle.verifySidecar p.crypto senderKey hostGroupId <;> exact ⟨_, rfl⟩

end Checks

/-! ## Commits of one's own -/

/-- A signature verifies under the key of its signer. -/
structure SignaturesVerify (crypto : Crypto) : Prop where
  isVerifyingKey : ∀ secret, crypto.isVerifyingKey (crypto.verifyingKey secret) = true
  verify : ∀ secret message,
    crypto.verify (crypto.verifyingKey secret) message (crypto.sign secret message) = true

/-- A commit OpenMLS makes holds what it was asked for and nothing else, and one that is staged can be
merged. -/
structure OpenMls.Exact (openMls : OpenMls) : Prop extends openMls.Faithful where
  selfUpdate_only : ∀ {g signer leaf seed message commit},
    openMls.selfUpdate g signer leaf seed = .ok (message, commit) →
      commit.external = false ∧ commit.removes = []
  addMember_only : ∀ {g signer leaf seed message welcome commit},
    openMls.addMember g signer leaf seed = .ok (message, welcome, commit) →
      commit.external = false ∧ commit.removes = [] ∧
        ∀ own ∈ commit.pathLeaf, own.index = g.ownIndex
  removeMember_only : ∀ {g signer index seed message commit},
    openMls.removeMember g signer index seed = .ok (message, commit) →
      commit.external = false ∧ commit.removes = [index] ∧ index ≠ g.ownIndex ∧
        ∀ own ∈ commit.pathLeaf, own.index = g.ownIndex
  mergePending_of_pending : ∀ {g : MlsGroup} {commit}, g.pendingCommit = some commit →
    openMls.mergePending g = .ok (g.merged commit)
  mergeStaged_of_staged : ∀ (g : MlsGroup) (commit : StagedCommit),
    openMls.mergeStaged g commit = .ok (g.merged commit)

namespace Group

/-- A group of which only the leaves and the announcements are known. -/
def onlooker (leaves : List Leaf) (announcedKeys : FiniteMap Bytes Key) : Group where
  mlsGroupId := []
  groupSigning := .replicate 32 0
  credentialId := .replicate 32 0
  lastOwnUpdate := 0
  pending := none
  announcedKeys
  mls := { epoch := 0, leaves, ownIndex := 0, secrets := [], pendingCommit := none }

/-- The leaf of the member itself is among the leaves, with the id it was admitted under and the key
it signs with. -/
def OwnsIn (crypto : Crypto) (g : Group) (leaves : List Leaf) : Prop :=
  ∃ own ∈ leaves, own.index = g.mls.ownIndex ∧ own.credentialId? = some g.credentialId ∧
    own.signatureKey = (crypto.verifyingKey g.groupSigning).data

end Group

/-- Every member of the tree takes the commit of the one at the index, whatever has been announced. -/
def Framing.Passes (crypto : Crypto) (leaves : List Leaf) (index : ℕ) (commit : StagedCommit)
    (framing : Framing) : Prop :=
  ∀ announcedKeys,
    framing.accepts crypto (.onlooker leaves announcedKeys) (some index) commit = true

section Own

variable {crypto : Crypto} {openMls : OpenMls} {g : Group} {leaf own : Leaf} {commit : StagedCommit}
  {framing : Framing}

/-- The checks read the leaves and the announcements. -/
theorem accepts_onlooker (crypto : Crypto) (g : Group) (sender : Option ℕ) (commit : StagedCommit)
    (framing : Framing) :
    framing.accepts crypto g sender commit.shared =
      framing.accepts crypto (.onlooker g.mls.leaves g.announcedKeys) sender commit := by
  cases framing <;> rfl

theorem Framing.Passes.accepts (h : framing.Passes crypto g.mls.leaves g.mls.ownIndex commit) :
    framing.accepts crypto g (some g.mls.ownIndex) commit.shared = true :=
  (accepts_onlooker ..).trans (h _)

/-- A leaf on the same key and under the same id is taken. -/
theorem checkLeafUpdate_same {leaves : List Leaf} (hleaves : Profiled leaves) (hown : own ∈ leaves)
    (hleaf : leaf.Conforms) (hid : leaf.credentialId? = own.credentialId?)
    (hkey : leaf.signatureKey = own.signatureKey) (announcedKeys : FiniteMap Bytes Key) :
    (Group.onlooker leaves announcedKeys).checkLeafUpdate own.index leaf = .ok () := by
  obtain ⟨cid, hcid⟩ := hleaf
  have hlookup : (credentialIds leaves).lookup own.index = some cid := by
    rw [hleaves.lookup_credentialIds hown, ← hid]
    exact checkNewLeaf_eq_ok hcid
  have hfind := hleaves.find?_index hown
  have hsame : own.signatureKey = leaf.signatureKey := hkey.symm
  simp only [Group.checkLeafUpdate, Group.onlooker, hcid, hlookup, hfind, hsame]
  simp [bind, Except.bind]

/-- So is an added leaf whose id is new. -/
theorem checkAdd_new {leaves : List Leaf} {cid : Key} (hcid : checkNewLeaf leaf = .ok cid)
    (hnew : (credentialIds leaves).any (fun entry ↦ entry.2 = cid) = false)
    (announcedKeys : FiniteMap Bytes Key) :
    (Group.onlooker leaves announcedKeys).checkAdd leaf = .ok () := by
  simp only [Group.checkAdd, Group.onlooker, hcid]
  simp [bind, Except.bind, hnew]

/-- What a commit of one's own brings is taken: a path on the own leaf, and added leaves. -/
theorem validateCommit_own {leaves : List Leaf} (hleaves : Profiled leaves) (hown : own ∈ leaves)
    (hupdates : commit.updates = [])
    (hpath : ∀ leaf ∈ commit.pathLeaf, leaf.Conforms ∧ leaf.credentialId? = own.credentialId? ∧
      leaf.signatureKey = own.signatureKey)
    (hadds : ∀ leaf ∈ commit.adds, ∃ cid, checkNewLeaf leaf = .ok cid ∧
      (credentialIds leaves).any (fun entry ↦ entry.2 = cid) = false)
    (announcedKeys : FiniteMap Bytes Key) :
    (Group.onlooker leaves announcedKeys).validateCommit commit (some own.index) = .ok () := by
  have hforM : commit.adds.forM (Group.onlooker leaves announcedKeys).checkAdd = .ok () := by
    generalize commit.adds = adds at hadds
    induction adds with
    | nil => rfl
    | cons leaf adds ih =>
      obtain ⟨cid, hcid, hnew⟩ := hadds leaf List.mem_cons_self
      have hrest := ih fun leaf hleaf ↦ hadds leaf (List.mem_cons_of_mem _ hleaf)
      change (Group.onlooker leaves announcedKeys).checkAdd leaf >>= (fun _ ↦ adds.forM _) = _
      rw [checkAdd_new hcid hnew]
      exact hrest
  unfold Group.validateCommit
  rw [hupdates, hforM]
  cases hleaf : commit.pathLeaf with
  | none => rfl
  | some leaf =>
    obtain ⟨hconforms, hid, hkey⟩ := hpath leaf hleaf
    have hcheck := checkLeafUpdate_same hleaves hown hconforms hid hkey announcedKeys
    change (Group.onlooker leaves announcedKeys).checkLeafUpdate own.index leaf >>= _ = _
    rw [hcheck]
    rfl

/-- A commit without removals goes unframed. -/
theorem passes_unframed {leaves : List Leaf} (hexternal : commit.external = false)
    (hremoves : commit.removes = []) {index : ℕ}
    (hvalid : ∀ announcedKeys,
      (Group.onlooker leaves announcedKeys).validateCommit commit (some index) = .ok ())
    (message : Bytes) : (Framing.unframed message).Passes crypto leaves index commit := by
  intro announcedKeys
  dsimp only [Framing.accepts]
  rw [hexternal, hremoves, hvalid]
  rfl

/-- What `maybe_self_update` stages. -/
theorem maybeSelfUpdate_cases (g : Group) (now : ℕ) (seed : Bytes) :
    ((g.maybeSelfUpdate crypto openMls now seed).2 = g ∧
        ∀ message, (g.maybeSelfUpdate crypto openMls now seed).1 ≠ .ok (some message)) ∨
      ∃ leaf message staged, g.ownLeaf crypto g.groupSigning = .ok leaf ∧
        openMls.selfUpdate g.mls g.groupSigning leaf seed = .ok (message, staged) ∧
        g.maybeSelfUpdate crypto openMls now seed =
          (.ok (some message), { g.stage staged ⟨.update, none⟩ with lastOwnUpdate := now }) := by
  unfold Group.maybeSelfUpdate
  split_ifs
  · exact .inl ⟨rfl, by simp⟩
  · unfold Group.selfUpdate
    cases g.ensureNoPending with
    | error e => exact .inl ⟨rfl, by simp [Except.map]⟩
    | ok =>
      cases hleaf : g.ownLeaf crypto g.groupSigning with
      | error e => exact .inl ⟨rfl, by simp [Except.map]⟩
      | ok leaf =>
        dsimp only
        cases hupdate : openMls.selfUpdate g.mls g.groupSigning leaf seed with
        | error message => exact .inl ⟨rfl, by simp [Except.map]⟩
        | ok result => exact .inr ⟨leaf, result.1, result.2, rfl, hupdate, rfl⟩
  · exact .inl ⟨rfl, by simp⟩

/-- What `admit` stages. -/
theorem admitMember_cases (g : Group) (keyPackage : Bytes) (expected : Key) (seed : Bytes) :
    ((g.admitMember openMls keyPackage expected seed).2 = g ∧
        ∀ out, (g.admitMember openMls keyPackage expected seed).1 ≠ .ok out) ∨
      ∃ leaf cid message welcome staged, checkNewLeaf leaf = .ok cid ∧
        (credentialIds g.mls.leaves).any (fun entry ↦ entry.2 = cid) = false ∧
        openMls.addMember g.mls g.groupSigning leaf seed = .ok (message, welcome, staged) ∧
        g.admitMember openMls keyPackage expected seed =
          (.ok (message, welcome), g.stage staged ⟨.add, none⟩) := by
  unfold Group.admitMember
  split
  · exact .inl ⟨rfl, by simp⟩
  · exact .inl ⟨rfl, by simp⟩
  · rename_i leaf suite _ _
    split_ifs
    · exact .inl ⟨rfl, by simp⟩
    · cases hcid : checkNewLeaf leaf with
      | error e => exact .inl ⟨rfl, by simp⟩
      | ok cid =>
        dsimp only
        split_ifs with hne hany
        · exact .inl ⟨rfl, by simp⟩
        · exact .inl ⟨rfl, by simp⟩
        · cases hadd : openMls.addMember g.mls g.groupSigning leaf seed with
          | error message => exact .inl ⟨rfl, by simp⟩
          | ok result =>
            exact .inr ⟨leaf, cid, result.1, result.2.1, result.2.2, hcid,
              Bool.of_not_eq_true hany, hadd, rfl⟩

/-- What `remove` stages, and the bundle it sends. -/
theorem remove_cases (g : Group) (hostGroupId credentialId : Key) (seed : Bytes) :
    ((g.remove crypto openMls hostGroupId credentialId seed).2 = g ∧
        ∀ bundle, (g.remove crypto openMls hostGroupId credentialId seed).1 ≠ .ok bundle) ∨
      ∃ index message staged, g.leafIndexFor credentialId = some index ∧
        openMls.removeMember g.mls g.groupSigning index seed = .ok (message, staged) ∧
        g.remove crypto openMls hostGroupId credentialId seed =
          (.ok { credentialId
                 sidecarSignature := crypto.signContext g.groupSigning .removeSidecar
                   (RemoveBundle.sidecarPayload crypto hostGroupId credentialId message)
                 mlsCommit := message }, g.stage staged ⟨.remove, none⟩) := by
  unfold Group.remove
  split
  · exact .inl ⟨rfl, by simp⟩
  · exact .inl ⟨rfl, by simp⟩
  · rename_i index _ hindex
    cases hremove : openMls.removeMember g.mls g.groupSigning index seed with
    | error message => exact .inl ⟨rfl, by simp⟩
    | ok result => exact .inr ⟨index, result.1, result.2, hindex, hremove, rfl⟩

/-- The own leaf stays under the commit of another member that does not remove it. -/
theorem ownsIn_other (howns : g.OwnsIn crypto g.mls.leaves) {sender : Option ℕ}
    (hmerges : commit.Merges sender g.mls.leaves) (hupdates : commit.updates = [])
    (hsender : sender ≠ some g.mls.ownIndex) (hstays : g.mls.ownIndex ∉ commit.removes) :
    g.OwnsIn crypto commit.leaves := by
  obtain ⟨own, hown, hindex, hid, hkey⟩ := howns
  have hnone : commit.replacement sender own.index = none := by
    rw [StagedCommit.replacement, hupdates, List.lookup_nil, Option.none_or, hindex, if_neg hsender]
  have hmem := hmerges.successor_mem hown (hindex ▸ hstays)
  rw [StagedCommit.successor_of_none hnone] at hmem
  exact ⟨own, hmem, hindex, hid, hkey⟩

/-- It stays under a commit of one's own, also on a path of the same id and key. -/
theorem ownsIn_own (howns : g.OwnsIn crypto g.mls.leaves)
    (hmerges : commit.Merges (some g.mls.ownIndex) g.mls.leaves) (hupdates : commit.updates = [])
    (hstays : g.mls.ownIndex ∉ commit.removes)
    (hpath : ∀ leaf ∈ commit.pathLeaf, leaf.credentialId? = some g.credentialId ∧
      leaf.signatureKey = (crypto.verifyingKey g.groupSigning).data) :
    g.OwnsIn crypto commit.leaves := by
  obtain ⟨own, hown, hindex, hid, hkey⟩ := howns
  have hmem := hmerges.successor_mem hown (hindex ▸ hstays)
  cases hnew : commit.replacement (some g.mls.ownIndex) own.index with
  | none =>
    rw [StagedCommit.successor_of_none hnew] at hmem
    exact ⟨own, hmem, hindex, hid, hkey⟩
  | some leaf =>
    rw [StagedCommit.successor_of_some hnew] at hmem
    obtain ⟨hid', hkey'⟩ := hpath leaf (StagedCommit.replacement_path hupdates hnew)
    exact ⟨leaf.at own.index, hmem, hindex, hid', hkey'⟩

/-- A commit of one's own, ready to be sent: it passes the checks of the others, and the own leaf is
in the tree it leads to. -/
def Prepared (crypto : Crypto) (g : Group) (framing : Framing) (staged : StagedCommit) : Prop :=
  framing.Passes crypto g.mls.leaves g.mls.ownIndex staged ∧ g.OwnsIn crypto staged.leaves

/-- The leaf an update brings is under the own id, on the key that signs it. -/
theorem ownLeaf_keeps {signing : Key} (h : g.ownLeaf crypto signing = .ok leaf) :
    leaf.credentialId? = some g.credentialId ∧ leaf.signatureKey = (crypto.verifyingKey signing).data := by
  unfold Group.ownLeaf at h
  split at h
  · cases h
  · split at h
    · cases h
    · rename_i identity _
      obtain rfl := Except.ok.inj h
      refine ⟨checkNewLeaf_eq_ok ?_, rfl⟩
      simp [checkNewLeaf, Group.newLeaf, identity.size_eq]

theorem prepared_selfUpdate (hexact : openMls.Exact) (hg : g.Sound crypto)
    (howns : g.OwnsIn crypto g.mls.leaves) {leaf : Leaf} {message seed : Bytes}
    (hleaf : g.ownLeaf crypto g.groupSigning = .ok leaf)
    (hupdate : openMls.selfUpdate g.mls g.groupSigning leaf seed = .ok (message, commit)) :
    Prepared crypto g (.unframed message) commit := by
  obtain ⟨hmerges, hupdates, hadds, hpathLeaf⟩ := hexact.selfUpdate hupdate
  obtain ⟨hexternal, hremoves⟩ := hexact.selfUpdate_only hupdate
  have hconforms := Group.ownLeaf_conforms hleaf
  have hnew := ownLeaf_keeps hleaf
  obtain ⟨own, hown, hindex, hid, hkey⟩ := id howns
  constructor
  · refine passes_unframed hexternal hremoves (fun announcedKeys ↦ ?_) message
    rw [← hindex]
    refine validateCommit_own hg.profiled hown hupdates ?_ (by simp [hadds]) announcedKeys
    rintro new hnew'
    obtain rfl : leaf = new := Option.some.inj (hpathLeaf.symm.trans hnew')
    exact ⟨hconforms, hnew.1.trans hid.symm, hnew.2.trans hkey.symm⟩
  · refine ownsIn_own howns hmerges hupdates (by simp [hremoves]) fun new hnew' ↦ ?_
    obtain rfl : leaf = new := Option.some.inj (hpathLeaf.symm.trans hnew')
    exact hnew

theorem prepared_addMember (hexact : openMls.Exact) (hg : g.Sound crypto)
    (howns : g.OwnsIn crypto g.mls.leaves) {leaf : Leaf} {cid : Key} {message welcome seed : Bytes}
    (hcid : checkNewLeaf leaf = .ok cid)
    (hnew : (credentialIds g.mls.leaves).any (fun entry ↦ entry.2 = cid) = false)
    (hadd : openMls.addMember g.mls g.groupSigning leaf seed = .ok (message, welcome, commit)) :
    Prepared crypto g (.unframed message) commit := by
  obtain ⟨hmerges, hupdates, hadds, hpathLeaf⟩ := hexact.addMember hadd
  obtain ⟨hexternal, hremoves, hpathIndex⟩ := hexact.addMember_only hadd
  obtain ⟨own, hown, hindex, hid, hkey⟩ := id howns
  have hpath (new : Leaf) (hnew : new ∈ commit.pathLeaf) : new = own :=
    hg.profiled.eq_of_index (hpathLeaf new hnew) hown ((hpathIndex new hnew).trans hindex.symm)
  constructor
  · refine passes_unframed hexternal hremoves (fun announcedKeys ↦ ?_) message
    rw [← hindex]
    refine validateCommit_own hg.profiled hown hupdates ?_ ?_ announcedKeys
    · intro new hnew
      rw [hpath new hnew]
      exact ⟨hg.profiled.conform own hown, rfl, rfl⟩
    · rw [hadds]
      exact List.forall_mem_singleton.mpr ⟨cid, hcid, hnew⟩
  · refine ownsIn_own howns hmerges hupdates (by simp [hremoves]) fun new hnew ↦ ?_
    rw [hpath new hnew]
    exact ⟨hid, hkey⟩

theorem verifyContext_own (hverifies : SignaturesVerify crypto) (secret : Key)
    (context : Crypto.Context) (payload : Bytes) :
    crypto.verifyContext (crypto.verifyingKey secret) context payload
      (crypto.signContext secret context payload) = .ok () := by
  rw [Crypto.verifyContext, Crypto.signContext, hverifies.verify, if_pos rfl]

/-- The others find the key of the member at its leaf. -/
theorem groupSigningAt_own (hverifies : SignaturesVerify crypto) (hprofiled : Profiled g.mls.leaves)
    {own : Leaf} (hown : own ∈ g.mls.leaves) (hindex : own.index = g.mls.ownIndex)
    (hkey : own.signatureKey = (crypto.verifyingKey g.groupSigning).data) :
    g.groupSigningAt crypto g.mls.ownIndex = some (crypto.verifyingKey g.groupSigning) := by
  have hfind := hprofiled.find?_index hown
  rw [hindex] at hfind
  simp [Group.groupSigningAt, hfind, hkey, Except.toOption, hverifies.isVerifyingKey]

/-- A leaf that was found by its id has the id. -/
theorem lookup_of_leafIndexFor (hprofiled : Profiled g.mls.leaves) {credentialId : Key} {index : ℕ}
    (h : g.leafIndexFor credentialId = some index) :
    (credentialIds g.mls.leaves).lookup index = some credentialId := by
  obtain ⟨entry, hfind, rfl⟩ := Option.map_eq_some_iff.mp h
  have hid : entry.2 = credentialId := by
    have hfound := List.find?_some hfind
    exact of_decide_eq_true hfound
  obtain ⟨leaf, hleaf, hentry⟩ := List.mem_filterMap.mp (List.mem_of_find?_eq_some hfind)
  rw [hprofiled.credentialIdBySig hleaf] at hentry
  obtain ⟨cid, hcid, rfl⟩ := Option.map_eq_some_iff.mp hentry
  rw [hprofiled.lookup_credentialIds hleaf, hcid]
  exact congrArg some hid

theorem prepared_removeMember (hexact : openMls.Exact) (hverifies : SignaturesVerify crypto)
    (hg : g.Sound crypto) (howns : g.OwnsIn crypto g.mls.leaves) {hostGroupId credentialId : Key}
    {index : ℕ} {message seed : Bytes} (hindexFor : g.leafIndexFor credentialId = some index)
    (hremove : openMls.removeMember g.mls g.groupSigning index seed = .ok (message, commit)) :
    Prepared crypto g
      (.bundled hostGroupId
        { credentialId
          sidecarSignature := crypto.signContext g.groupSigning .removeSidecar
            (RemoveBundle.sidecarPayload crypto hostGroupId credentialId message)
          mlsCommit := message }) commit := by
  obtain ⟨hmerges, hupdates, hadds, hpathLeaf⟩ := hexact.removeMember hremove
  obtain ⟨hexternal, hremoves, hother, hpathIndex⟩ := hexact.removeMember_only hremove
  obtain ⟨own, hown, hindex, hid, hkey⟩ := id howns
  have hpath (new : Leaf) (hnew : new ∈ commit.pathLeaf) : new = own :=
    hg.profiled.eq_of_index (hpathLeaf new hnew) hown ((hpathIndex new hnew).trans hindex.symm)
  constructor
  · intro announcedKeys
    have hvalid : (Group.onlooker g.mls.leaves announcedKeys).validateCommit commit
        (some g.mls.ownIndex) = .ok () := by
      rw [← hindex]
      refine validateCommit_own hg.profiled hown hupdates ?_ (by simp [hadds]) announcedKeys
      intro new hnew
      rw [hpath new hnew]
      exact ⟨hg.profiled.conform own hown, rfl, rfl⟩
    have hsigner : (Group.onlooker g.mls.leaves announcedKeys).groupSigningAt crypto g.mls.ownIndex =
        some (crypto.verifyingKey g.groupSigning) :=
      groupSigningAt_own hverifies hg.profiled hown hindex hkey
    have hmatches : (Group.onlooker g.mls.leaves announcedKeys).stagedRemoveMatches commit
        credentialId = true := by
      have hlookup := lookup_of_leafIndexFor hg.profiled hindexFor
      simp only [Group.stagedRemoveMatches, Group.onlooker, hremoves, List.all_cons, List.all_nil,
        hlookup]
      simp
    dsimp only [Framing.accepts, Option.bind_some]
    rw [hsigner]
    dsimp only
    rw [hexternal, hremoves, hmatches, hvalid, RemoveBundle.verifySidecar,
      verifyContext_own hverifies]
    rfl
  · refine ownsIn_own howns hmerges hupdates ?_ fun new hnew ↦ ?_
    · rw [hremoves, List.mem_singleton]
      exact hother.symm
    · rw [hpath new hnew]
      exact ⟨hid, hkey⟩

end Own

/-! ## The ledger of a stream -/

/-- A row of the stream of a group, as a member takes it. -/
inductive GroupRow
  | commit (framing : Framing)
  | signingKeyReplace (body : Bytes)
  | mlsApp (ciphertext : Bytes)

/-- Where a group stands after some rows of its stream, and the messages whose commits have led
there. -/
structure Ledger {openMls : OpenMls} (consensus : Consensus openMls) where
  context : consensus.Context
  leaves : List Leaf
  announced : FiniteMap Bytes Key
  merged : List Bytes

namespace Ledger

variable {openMls : OpenMls} {consensus : Consensus openMls}

/-- The group, for someone who is not in it. -/
def onlooker (l : Ledger consensus) : Group := .onlooker l.leaves l.announced

/-- The commit of a message has led on. -/
def moved (l : Ledger consensus) (message : Bytes) (commit : StagedCommit)
    (next : consensus.Context) : Ledger consensus where
  context := next
  leaves := commit.leaves
  announced := (Group.onlooker commit.leaves l.announced).syncCredentialIds.announcedKeys
  merged := l.merged ++ [message]

/-- A valid commit that passes the checks leads on; an announcement is noted. -/
def take (crypto : Crypto) (l : Ledger consensus) : GroupRow → Ledger consensus
  | .commit framing =>
    match consensus.read l.context framing.message with
    | none => l
    | some (sender, commit, next) =>
      if framing.accepts crypto l.onlooker sender commit then l.moved framing.message commit next
      else l
  | .signingKeyReplace body =>
    { l with announced := (l.onlooker.applySigningKeyReplace crypto body).2.announcedKeys }
  | .mlsApp _ => l

end Ledger

/-! ## Members -/

/-- A member of the group; what it has sent last, and what it has merged, is recorded. -/
structure Member where
  group : Group
  sent : Option Framing
  merged : List Bytes

/-- What a member does: it takes a row, also once more, stages a commit to send, drops it, or writes
a message. A commit of its own that the host has put in its place is taken before it comes back. -/
inductive MemberStep
  | row (row : GroupRow) (now : ℕ)
  | again (framing : Framing) (now : ℕ)
  | maybeSelfUpdate (now : ℕ) (seed : Bytes)
  | admitMember (keyPackage : Bytes) (credentialId : Key) (seed : Bytes)
  | remove (hostGroupId credentialId : Key) (seed : Bytes)
  | discardPending
  | encrypt (plaintext : Bytes) (now : ℕ) (seed : Bytes)

namespace Member

variable (p : Outside)

/-- A row is applied as the mailbox brings it. -/
def takeRow (m : Member) (now : ℕ) : GroupRow → Member
  | .commit framing =>
    let (answer, group) := framing.apply p m.group now
    { m with group, merged := m.merged ++ if answer.isOk then [framing.message] else [] }
  | .signingKeyReplace body => { m with group := (m.group.applySigningKeyReplace p.crypto body).2 }
  | .mlsApp ciphertext =>
    { m with group := (m.group.decryptWithSender p.crypto p.openMls ciphertext).2 }

/-- An update that is due goes out unframed. -/
def update (m : Member) (now : ℕ) (seed : Bytes) : Member :=
  let (answer, group) := m.group.maybeSelfUpdate p.crypto p.openMls now seed
  { m with group, sent := match answer with
      | .ok (some message) => some (.unframed message)
      | _ => m.sent }

/-- So does an addition. -/
def admitKey (m : Member) (keyPackage : Bytes) (credentialId : Key) (seed : Bytes) : Member :=
  let (answer, group) := m.group.admitMember p.openMls keyPackage credentialId seed
  { m with group, sent := match answer with
      | .ok (message, _) => some (.unframed message)
      | .error _ => m.sent }

/-- A removal goes out in its bundle. -/
def remove (m : Member) (hostGroupId credentialId : Key) (seed : Bytes) : Member :=
  let (answer, group) := m.group.remove p.crypto p.openMls hostGroupId credentialId seed
  { m with group, sent := match answer with
      | .ok bundle => some (.bundled hostGroupId bundle)
      | .error _ => m.sent }

end Member

def MemberStep.apply (p : Outside) (m : Member) : MemberStep → Member
  | row taken now => m.takeRow p now taken
  | again framing now => m.takeRow p now (.commit framing)
  | maybeSelfUpdate now seed => m.update p now seed
  | admitMember keyPackage credentialId seed => m.admitKey p keyPackage credentialId seed
  | remove hostGroupId credentialId seed => m.remove p hostGroupId credentialId seed
  | discardPending => { m with group := m.group.discardPending }
  | encrypt plaintext now seed => { m with group := (m.group.encrypt p.openMls plaintext now seed).2 }

/-- The row a step takes. -/
def MemberStep.row? : MemberStep → Option GroupRow
  | row taken _ => some taken
  | _ => none

/-- The rows a member has taken. -/
def rowsTaken (steps : List MemberStep) : List GroupRow := steps.filterMap MemberStep.row?

/-! ## Following the ledger -/

/-- The condition of a row that brings a commit: if it is the own one, it is the one that is staged,
as it was sent, and OpenMLS knows it again; nothing else of one's own passes for it; and the member
is not removed. -/
structure Hears {p : Outside} (consensus : Consensus p.openMls) (m : Member) (framing : Framing) :
    Prop where
  own : ∀ commit next, consensus.read (consensus.context m.group.mls.toMlsTree) framing.message =
      some (some m.group.mls.ownIndex, commit, next) →
    m.group.pending.isSome = true ∧ m.sent = some framing ∧
      (∃ staged ∈ m.group.mls.pendingCommit, staged.shared = commit ∧
        consensus.context (staged.tree m.group.mls.toMlsTree) = next) ∧
      ∃ sender content secrets,
        p.openMls.process m.group.mls framing.message = (.ok (sender, content), secrets) ∧
          (content = .ownPendingCommit ∨ content = .ownPrivateMessage)
  stray : consensus.read (consensus.context m.group.mls.toMlsTree) framing.message = none →
    ∀ sender secrets,
      p.openMls.process m.group.mls framing.message = (.ok (sender, .ownPrivateMessage), secrets) →
        m.group.pending.isSome = false
  stays : ∀ sender commit next,
    consensus.read (consensus.context m.group.mls.toMlsTree) framing.message =
      some (sender, commit, next) → m.group.mls.ownIndex ∉ commit.removes

/-- The condition of a step; what is taken again is of an epoch that is past. -/
def MemberStep.Settled {p : Outside} (consensus : Consensus p.openMls) (m : Member) :
    MemberStep → Prop
  | row (.commit framing) _ => Hears consensus m framing
  | again framing _ => Hears consensus m framing ∧
    (p.openMls.messageEpoch framing.message).any (· < m.group.mls.epoch) = true
  | _ => True

/-- The member stands where the ledger does, and what it has staged is ready to be sent. -/
structure Member.InStep {p : Outside} {consensus : Consensus p.openMls} (m : Member)
    (l : Ledger consensus) : Prop where
  context : consensus.context m.group.mls.toMlsTree = l.context
  leaves : m.group.mls.leaves = l.leaves
  announced : m.group.announcedKeys = l.announced
  merged : m.merged = l.merged
  sound : m.group.Sound p.crypto
  owns : m.group.OwnsIn p.crypto m.group.mls.leaves
  signer : ∀ pending ∈ m.group.pending, pending.newSigner = none
  staged : ∀ staged ∈ m.group.mls.pendingCommit,
    ∃ framing, m.sent = some framing ∧ Prepared p.crypto m.group framing staged

section Follow

variable {p : Outside} {consensus : Consensus p.openMls} {m : Member} {l : Ledger consensus}

/-- Other secrets in the same context, and announcements that the ledger has noted, change nothing. -/
theorem Member.InStep.withSecrets (h : m.InStep l) {secrets : Bytes}
    (hcontext : consensus.context { m.group.mls.toMlsTree with secrets } =
      consensus.context m.group.mls.toMlsTree) :
    Member.InStep { m with group := m.group.withSecrets secrets } l where
  context := hcontext.trans h.context
  leaves := h.leaves
  announced := h.announced
  merged := h.merged
  sound := h.sound.withSecrets secrets
  owns := h.owns
  signer := h.signer
  staged := h.staged

/-- A commit that is staged changes nothing else. -/
theorem Member.InStep.stage (h : m.InStep l) {group : Group} {framing : Framing}
    {staged : StagedCommit} {kind : PendingKind} {now : ℕ} (hsound : group.Sound p.crypto)
    (hgroup : group = { m.group.stage staged ⟨kind, none⟩ with lastOwnUpdate := now })
    (hprepared : Prepared p.crypto m.group framing staged) :
    Member.InStep { m with group, sent := some framing } l := by
  subst hgroup
  exact {
    context := h.context
    leaves := h.leaves
    announced := h.announced
    merged := h.merged
    sound := hsound
    owns := h.owns
    signer := fun pending hpending ↦ by
      obtain rfl := Option.some.inj hpending
      rfl
    staged := fun other hother ↦ by
      obtain rfl := Option.some.inj hother
      exact ⟨framing, rfl, hprepared⟩ }

theorem inStep_update (hexact : p.openMls.Exact) (h : m.InStep l) (now : ℕ) (seed : Bytes) :
    (m.update p now seed).InStep l := by
  have hsound := h.sound.maybeSelfUpdate hexact.toFaithful now seed
  rcases @maybeSelfUpdate_cases p.crypto p.openMls m.group now seed with
    ⟨hgroup, hanswer⟩ | ⟨leaf, message, staged, hleaf, hupdate, heq⟩
  · have hsame : m.update p now seed = m := by
      unfold Member.update
      revert hgroup hanswer
      rcases m.group.maybeSelfUpdate p.crypto p.openMls now seed with ⟨_ | _ | message, group⟩
      · intro hgroup _
        obtain rfl : group = m.group := hgroup
        rfl
      · intro hgroup _
        obtain rfl : group = m.group := hgroup
        rfl
      · intro _ hanswer
        exact absurd rfl (hanswer message)
    rw [hsame]
    exact h
  · unfold Member.update
    rw [heq] at hsound ⊢
    exact h.stage hsound rfl (prepared_selfUpdate hexact h.sound h.owns hleaf hupdate)

theorem inStep_admitKey (hexact : p.openMls.Exact) (h : m.InStep l) (keyPackage : Bytes)
    (credentialId : Key) (seed : Bytes) : (m.admitKey p keyPackage credentialId seed).InStep l := by
  have hsound := h.sound.admitMember hexact.toFaithful keyPackage credentialId seed
  rcases @admitMember_cases p.openMls m.group keyPackage credentialId seed with
    ⟨hgroup, hanswer⟩ | ⟨leaf, cid, message, welcome, staged, hcid, hnew, hadd, heq⟩
  · have hsame : m.admitKey p keyPackage credentialId seed = m := by
      unfold Member.admitKey
      revert hgroup hanswer
      rcases m.group.admitMember p.openMls keyPackage credentialId seed with ⟨_ | out, group⟩
      · intro hgroup _
        obtain rfl : group = m.group := hgroup
        rfl
      · intro _ hanswer
        exact absurd rfl (hanswer out)
    rw [hsame]
    exact h
  · unfold Member.admitKey
    rw [heq] at hsound ⊢
    exact h.stage hsound rfl (prepared_addMember hexact h.sound h.owns hcid hnew hadd)

theorem inStep_remove (hexact : p.openMls.Exact) (hverifies : SignaturesVerify p.crypto)
    (h : m.InStep l) (hostGroupId credentialId : Key) (seed : Bytes) :
    (m.remove p hostGroupId credentialId seed).InStep l := by
  have hsound := h.sound.remove hexact.toFaithful hostGroupId credentialId seed
  rcases @remove_cases p.crypto p.openMls m.group hostGroupId credentialId seed with
    ⟨hgroup, hanswer⟩ | ⟨index, message, staged, hindex, hremove, heq⟩
  · have hsame : m.remove p hostGroupId credentialId seed = m := by
      unfold Member.remove
      revert hgroup hanswer
      rcases m.group.remove p.crypto p.openMls hostGroupId credentialId seed with ⟨_ | out, group⟩
      · intro hgroup _
        obtain rfl : group = m.group := hgroup
        rfl
      · intro _ hanswer
        exact absurd rfl (hanswer out)
    rw [hsame]
    exact h
  · unfold Member.remove
    rw [heq] at hsound ⊢
    exact h.stage hsound rfl (prepared_removeMember hexact hverifies h.sound h.owns hindex hremove)

theorem inStep_discardPending (h : m.InStep l) :
    Member.InStep { m with group := m.group.discardPending } l where
  context := h.context
  leaves := h.leaves
  announced := h.announced
  merged := h.merged
  sound := h.sound.discardPending
  owns := h.owns
  signer := fun _ hpending ↦ (by cases hpending)
  staged := fun _ hstaged ↦ (by cases hstaged)

theorem inStep_encrypt (h : m.InStep l) (plaintext : Bytes) (now : ℕ) (seed : Bytes) :
    Member.InStep { m with group := (m.group.encrypt p.openMls plaintext now seed).2 } l := by
  unfold Group.encrypt
  split_ifs
  · exact h
  · cases hcreate : p.openMls.createMessage m.group.mls m.group.groupSigning plaintext seed with
    | error message => exact h
    | ok result => exact h.withSecrets (consensus.createMessage hcreate)

theorem inStep_mlsApp (h : m.InStep l) (ciphertext : Bytes) (now : ℕ) :
    (m.takeRow p now (.mlsApp ciphertext)).InStep l := by
  have hgroup : (m.group.decryptWithSender p.crypto p.openMls ciphertext).2 =
      m.group.withSecrets (p.openMls.process m.group.mls ciphertext).2 := by
    rw [← group_process]
    unfold Group.decryptWithSender
    rcases m.group.process p.openMls ciphertext with ⟨_ | ⟨_ | index, content⟩, group⟩
    · rfl
    · rfl
    · dsimp only
      split
      · rfl
      · split
        · rfl
        · split <;> rfl
  dsimp only [Member.takeRow]
  rw [hgroup]
  exact h.withSecrets (consensus.process _ _)

/-- An announcement is noted by all alike. -/
theorem inStep_signingKeyReplace (h : m.InStep l) (body : Bytes) (now : ℕ) :
    (m.takeRow p now (.signingKeyReplace body)).InStep
      (l.take p.crypto (.signingKeyReplace body)) := by
  have hsound := h.sound.applySigningKeyReplace body
  have hnoted : (m.group.applySigningKeyReplace p.crypto body).2 = { m.group with
      announcedKeys := (l.onlooker.applySigningKeyReplace p.crypto body).2.announcedKeys } := by
    unfold Group.applySigningKeyReplace Ledger.onlooker Group.onlooker
    rw [← h.leaves, ← h.announced]
    dsimp only
    cases SigningKeyReplace.decode body with
    | error e => rfl
    | ok replace =>
      dsimp only
      split <;> rfl
  dsimp only [Member.takeRow]
  rw [hnoted] at hsound ⊢
  exact {
    context := h.context
    leaves := h.leaves
    announced := rfl
    merged := h.merged
    sound := hsound
    owns := h.owns
    signer := h.signer
    staged := h.staged }

theorem takeRow_ok {framing : Framing} {now : ℕ} {outcome : HandshakeOutcome} {group : Group}
    (happly : framing.apply p m.group now = (.ok outcome, group)) :
    m.takeRow p now (.commit framing) =
      { m with group, merged := m.merged ++ [framing.message] } := by
  dsimp only [Member.takeRow]
  rw [happly]
  rfl

theorem takeRow_error {framing : Framing} {now : ℕ} {e : CoreError} {group : Group}
    (happly : framing.apply p m.group now = (.error e, group)) :
    m.takeRow p now (.commit framing) = { m with group } := by
  dsimp only [Member.takeRow]
  rw [happly]
  exact congrArg (Member.mk group m.sent) (List.append_nil _)

theorem take_commit {framing : Framing} {sender : Option ℕ} {commit : StagedCommit}
    {next : consensus.Context}
    (hread : consensus.read l.context framing.message = some (sender, commit, next)) :
    l.take p.crypto (.commit framing) =
      if framing.accepts p.crypto l.onlooker sender commit then l.moved framing.message commit next
      else l := by
  dsimp only [Ledger.take]
  rw [hread]

theorem take_none {framing : Framing}
    (hread : consensus.read l.context framing.message = none) :
    l.take p.crypto (.commit framing) = l := by
  dsimp only [Ledger.take]
  rw [hread]

theorem sound_apply (hexact : p.openMls.Exact) {g : Group} (hg : g.Sound p.crypto)
    (framing : Framing) (now : ℕ) : (framing.apply p g now).2.Sound p.crypto := by
  cases framing with
  | unframed message => exact hg.applyHandshake hexact.toFaithful message now
  | bundled hostGroupId bundle =>
    exact hg.applyRemoveBundle hexact.toFaithful hostGroupId bundle now

/-- A commit is merged: the member and the ledger have moved to the same place. -/
theorem Member.InStep.move (h : m.InStep l) {group : Group} {commit : StagedCommit}
    {message : Bytes} {now : ℕ} (hsound : group.Sound p.crypto)
    (howns : m.group.OwnsIn p.crypto commit.leaves)
    (hgroup : group = Group.syncCredentialIds { m.group with
      mls := m.group.mls.merged commit, pending := none, lastOwnUpdate := now }) :
    Member.InStep { m with group, merged := m.merged ++ [message] }
      (l.moved message commit.shared (consensus.context (commit.tree m.group.mls.toMlsTree))) := by
  subst hgroup
  exact {
    context := rfl
    leaves := rfl
    announced := by rw [Ledger.moved, ← h.announced]; rfl
    merged := by rw [Ledger.moved, ← h.merged]
    sound := hsound
    owns := howns
    signer := fun _ hpending ↦ (by cases hpending)
    staged := fun _ hstaged ↦ (by cases hstaged) }

theorem onlooker_eq (h : m.InStep l) :
    l.onlooker = .onlooker m.group.mls.leaves m.group.announcedKeys := by
  rw [h.leaves, h.announced]
  rfl

/-- The own commit comes back: the ledger moves too, as it passes the checks. -/
theorem inStep_own (hexact : p.openMls.Exact) (h : m.InStep l) {framing : Framing} (now : ℕ)
    (hhears : Hears consensus m framing) {commit : StagedCommit} {next : consensus.Context}
    (hread : consensus.read l.context framing.message =
      some (some m.group.mls.ownIndex, commit, next)) :
    (m.takeRow p now (.commit framing)).InStep (l.take p.crypto (.commit framing)) := by
  obtain ⟨hpending, hsent, ⟨staged, hstaged, rfl, rfl⟩, sender, content, secrets, hprocess,
    hcontent⟩ := hhears.own commit next (h.context ▸ hread)
  obtain ⟨framing', hsent', hpasses, howns⟩ := h.staged staged hstaged
  obtain rfl : framing = framing' := Option.some.inj (hsent.symm.trans hsent')
  have haccepts : framing.accepts p.crypto l.onlooker (some m.group.mls.ownIndex) staged.shared =
      true := by
    rw [onlooker_eq h]
    exact hpasses _
  have hfinish : (m.group.withSecrets secrets).finishOwnCommit p.openMls now =
      (.ok .ownCommitMerged, Group.syncCredentialIds { m.group with
        mls := m.group.mls.merged staged, pending := none, lastOwnUpdate := now }) := by
    have hpendingCommit : (m.group.withSecrets secrets).mls.pendingCommit = some staged := hstaged
    have hsigning : ((m.group.withSecrets secrets).pending.bind (·.newSigner)).getD
        (m.group.withSecrets secrets).groupSigning = m.group.groupSigning := by
      obtain ⟨own, hown⟩ := Option.isSome_iff_exists.mp hpending
      have hnone := h.signer own hown
      change (m.group.pending.bind (·.newSigner)).getD m.group.groupSigning = _
      rw [hown, Option.bind_some, hnone]
      rfl
    unfold Group.finishOwnCommit
    rw [hexact.mergePending_of_pending hpendingCommit]
    dsimp only
    rw [hsigning]
    rfl
  have happly := @apply_own p m.group framing _ secrets now _ hprocess hcontent hpending
  have hsound := sound_apply hexact h.sound framing now
  rw [happly, hfinish] at hsound
  rw [takeRow_ok (happly.trans hfinish), take_commit hread, if_pos haccepts]
  exact h.move hsound howns rfl

/-- The commit of another member is merged by both or by neither. -/
theorem inStep_other (hexact : p.openMls.Exact) (h : m.InStep l) {framing : Framing} (now : ℕ)
    (hhears : Hears consensus m framing) {sender : Option ℕ} {commit : StagedCommit}
    {next : consensus.Context}
    (hread : consensus.read l.context framing.message = some (sender, commit, next))
    (hsender : sender ≠ some m.group.mls.ownIndex) :
    (m.takeRow p now (.commit framing)).InStep (l.take p.crypto (.commit framing)) := by
  rw [← h.context] at hread
  obtain ⟨staged, secrets, hprocess⟩ := consensus.delivers hread hsender
  have hstays := hhears.stays sender commit next hread
  have hupdates := consensus.updates hread
  have heq := Option.some.inj (hread.symm.trans (consensus.staged hprocess).2)
  obtain ⟨-, rfl, rfl⟩ : _ ∧ commit = staged.shared ∧
      next = consensus.context (staged.tree m.group.mls.toMlsTree) := by
    rw [Prod.mk.injEq, Prod.mk.injEq] at heq
    exact heq
  have haccepts : framing.accepts p.crypto l.onlooker sender staged.shared =
      framing.accepts p.crypto m.group sender staged := by
    rw [onlooker_eq h]
    exact (accepts_onlooker ..).symm
  have happly := @apply_staged p m.group framing sender staged secrets now hprocess
  have hsound := sound_apply hexact h.sound framing now
  rw [take_commit (h.context ▸ hread), haccepts]
  cases hpass : framing.accepts p.crypto m.group sender staged with
  | false =>
    obtain ⟨e, herror⟩ := happly.2 hpass
    have hsecrets := consensus.process m.group.mls framing.message
    rw [hprocess] at hsecrets
    rw [takeRow_error herror]
    exact h.withSecrets hsecrets
  | true =>
    have hok := happly.1 hpass
    rw [Group.mergeForeign, hexact.mergeStaged_of_staged] at hok
    rw [hok] at hsound
    have howns := ownsIn_other h.owns (hexact.process hprocess) hupdates hsender hstays
    rw [takeRow_ok hok]
    exact h.move hsound howns rfl

/-- What holds no valid commit changes neither. -/
theorem inStep_quiet (h : m.InStep l) {framing : Framing} (now : ℕ)
    (hhears : Hears consensus m framing)
    (hread : consensus.read l.context framing.message = none) :
    (m.takeRow p now (.commit framing)).InStep (l.take p.crypto (.commit framing)) := by
  rw [← h.context] at hread
  have hother (sender : Option ℕ) (commit : StagedCommit) (secrets : Bytes) :
      p.openMls.process m.group.mls framing.message ≠
        (.ok (sender, .stagedCommit commit), secrets) := by
    intro hprocess
    cases hread.symm.trans (consensus.staged hprocess).2
  have hown (sender : Option ℕ) (secrets : Bytes) :
      p.openMls.process m.group.mls framing.message ≠
        (.ok (sender, .ownPendingCommit), secrets) := by
    intro hprocess
    obtain ⟨commit, next, hsome⟩ := consensus.own hprocess
    cases hread.symm.trans hsome
  obtain ⟨e, happly⟩ := @apply_quiet p m.group framing now hother hown (hhears.stray hread)
  rw [takeRow_error happly, take_none (h.context ▸ hread)]
  exact h.withSecrets (consensus.process m.group.mls framing.message)

/-- One step of a member, with the row it takes. -/
theorem inStep_apply (hexact : p.openMls.Exact) (hverifies : SignaturesVerify p.crypto)
    (h : m.InStep l) {step : MemberStep} (hsettled : step.Settled consensus m) :
    (step.apply p m).InStep (run (Ledger.take p.crypto) l step.row?.toList) := by
  cases step with
  | row taken now =>
    cases taken with
    | commit framing =>
      cases hread : consensus.read l.context framing.message with
      | none => exact inStep_quiet h now hsettled hread
      | some result =>
        obtain ⟨sender, commit, next⟩ := result
        by_cases hsender : sender = some m.group.mls.ownIndex
        · subst hsender
          exact inStep_own hexact h now hsettled hread
        · exact inStep_other hexact h now hsettled hread hsender
    | signingKeyReplace body => exact inStep_signingKeyReplace h body now
    | mlsApp ciphertext => exact inStep_mlsApp h ciphertext now
  | again framing now =>
    obtain ⟨hhears, hpast⟩ := hsettled
    have hread : consensus.read l.context framing.message = none := by
      rw [← h.context]
      by_contra hsome
      obtain ⟨result, hresult⟩ := Option.ne_none_iff_exists'.mp hsome
      rw [consensus.epochs hresult, Option.any_some, decide_eq_true_eq] at hpast
      exact lt_irrefl _ hpast
    have hstep := inStep_quiet h now hhears hread
    rw [take_none hread] at hstep
    exact hstep
  | maybeSelfUpdate now seed => exact inStep_update hexact h now seed
  | admitMember keyPackage credentialId seed => exact inStep_admitKey hexact h keyPackage credentialId seed
  | remove hostGroupId credentialId seed =>
    exact inStep_remove hexact hverifies h hostGroupId credentialId seed
  | discardPending => exact inStep_discardPending h
  | encrypt plaintext now seed => exact inStep_encrypt h plaintext now seed

/-- A member that takes the rows in order follows the ledger. -/
theorem inStep_run (hexact : p.openMls.Exact) (hverifies : SignaturesVerify p.crypto)
    (h : m.InStep l) {steps : List MemberStep}
    (hsettled : Allowed (MemberStep.apply p) (MemberStep.Settled consensus) m steps) :
    (run (MemberStep.apply p) m steps).InStep
      (run (Ledger.take p.crypto) l (rowsTaken steps)) := by
  induction steps generalizing m l with
  | nil => exact h
  | cons step steps ih =>
    have hrest := ih (inStep_apply hexact hverifies h hsettled.1) hsettled.2
    have hrows : rowsTaken (step :: steps) = step.row?.toList ++ rowsTaken steps := by
      rw [rowsTaken, List.filterMap_cons]
      cases step.row? <;> rfl
    rw [hrows, run_append]
    exact hrest

/-- What has been merged stays merged, in its order. -/
theorem merged_prefix (crypto : Crypto) (l : Ledger consensus) (rows : List GroupRow) :
    l.merged <+: (run (Ledger.take crypto) l rows).merged := by
  refine run_keeps (fun l' : Ledger consensus ↦ l.merged <+: l'.merged) ?_ (List.prefix_refl _) rows
  intro l' row hprefix
  cases row with
  | commit framing =>
    dsimp only [Ledger.take]
    split
    · exact hprefix
    · split
      · exact hprefix.trans (List.prefix_append _ _)
      · exact hprefix
  | signingKeyReplace body => exact hprefix
  | mlsApp ciphertext => exact hprefix

end Follow

/-- Any number of members that start at one place and take the stream of the host in its order, each
as far as it has come, have merged the same commits: those of the ledger, the first valid one in
each context. Those that have come equally far are in the same epoch with the same tree, and the
checks of each let through what another has staged. -/
theorem commits_agree {p : Outside} (consensus : Consensus p.openMls) (hexact : p.openMls.Exact)
    (hverifies : SignaturesVerify p.crypto) {ι : Type} (members : ι → Member)
    (start : Ledger consensus) (hstart : ∀ i, (members i).InStep start)
    (steps : ι → List MemberStep)
    (hsettled : ∀ i,
      Allowed (MemberStep.apply p) (MemberStep.Settled consensus) (members i) (steps i))
    (stream : List GroupRow) (hstream : ∀ i, rowsTaken (steps i) <+: stream) :
    let final (i : ι) := run (MemberStep.apply p) (members i) (steps i)
    (∀ i, (final i).merged =
      (run (Ledger.take p.crypto) start (stream.take (rowsTaken (steps i)).length)).merged) ∧
    ∀ i j, (rowsTaken (steps i)).length ≤ (rowsTaken (steps j)).length →
      (final i).merged <+: (final j).merged ∧
        ((rowsTaken (steps i)).length = (rowsTaken (steps j)).length →
          (final i).group.mls.epoch = (final j).group.mls.epoch ∧
          (final i).group.mls.leaves = (final j).group.mls.leaves ∧
          (final i).group.announcedKeys = (final j).group.announcedKeys ∧
          ∀ staged ∈ (final i).group.mls.pendingCommit, ∃ framing, (final i).sent = some framing ∧
            framing.accepts p.crypto (final j).group (some (final i).group.mls.ownIndex)
              staged.shared = true) := by
  intro final
  have hfinal (i : ι) : (final i).InStep
      (run (Ledger.take p.crypto) start (stream.take (rowsTaken (steps i)).length)) := by
    rw [← List.prefix_iff_eq_take.mp (hstream i)]
    exact inStep_run hexact hverifies (hstart i) (hsettled i)
  refine ⟨fun i ↦ (hfinal i).merged, fun i j hle ↦ ⟨?_, fun hlength ↦ ?_⟩⟩
  · obtain ⟨more, hmore⟩ := List.take_prefix_take_left hle (l := stream)
    rw [(hfinal i).merged, (hfinal j).merged, ← hmore, run_append]
    exact merged_prefix _ _ _
  · have hi := hfinal i
    rw [hlength] at hi
    obtain ⟨hepoch, hleaves⟩ := consensus.shares (hi.context.trans (hfinal j).context.symm)
    refine ⟨hepoch, hleaves, hi.announced.trans (hfinal j).announced.symm, fun staged hstaged ↦ ?_⟩
    obtain ⟨framing, hsent, hpasses, -⟩ := (hfinal i).staged staged hstaged
    rw [hleaves] at hpasses
    exact ⟨framing, hsent, (accepts_onlooker ..).trans (hpasses _)⟩

/-! ## Two members -/

/-- The update of the second of two members: its leaf stays as it is. -/
def StagedCommit.refresh : StagedCommit := .pathOf (.replicate 32 1)

/-- Two members of which the second can update its leaf, once. -/
def OpenMls.ofTwo : OpenMls where
  messageEpoch _ := some 0
  isWelcome _ := false
  process g message :=
    if g.epoch = 0 ∧ g.leaves = Leaf.pair ∧ message = [7] then
      if g.ownIndex = 1 then (.ok (some 1, .ownPrivateMessage), g.secrets)
      else (.ok (some 1, .stagedCommit .refresh), g.secrets)
    else (.error .wrongEpoch, g.secrets)
  createMessage _ _ _ _ := .error ""
  selfUpdate g _ leaf _ :=
    if g.epoch = 0 ∧ g.leaves = Leaf.pair ∧ g.ownIndex = 1 ∧ StagedCommit.refresh.pathLeaf = some leaf
    then .ok ([7], .refresh) else .error ""
  addMember _ _ _ _ := .error ""
  removeMember _ _ _ _ := .error ""
  readKeyPackage _ := .error ""
  newGroup leaf _ := ([], ⟨0, [leaf], 0, []⟩)
  buildKeyPackage _ _ _ := .error ""
  welcomeMatches _ _ := false
  join _ _ _ := .error ""
  mergePending g := .ok (g.pendingCommit.elim g g.merged)
  mergeStaged g commit := .ok (g.merged commit)
  mergePending_ok := @MlsGroup.eq_elim_of_ok
  mergeStaged_ok := @MlsGroup.eq_merged_of_ok

theorem OpenMls.exact_ofTwo : ofTwo.Exact where
  process {g message sender commit secrets} h := by
    dsimp only [ofTwo] at h
    split_ifs at h with hat hown
    · cases h
    · cases h
      rw [hat.2.1]
      exact StagedCommit.merges_pathOf _
    · cases h
  selfUpdate {g signer leaf seed message commit} h := by
    dsimp only [ofTwo] at h
    split_ifs at h with hat
    cases h
    obtain ⟨-, hleaves, hown, hpath⟩ := hat
    rw [hleaves, hown]
    exact ⟨StagedCommit.merges_pathOf _, rfl, rfl, hpath⟩
  addMember h := by cases h
  removeMember h := by cases h
  newGroup _ _ := rfl
  join h := by cases h
  selfUpdate_only {g signer leaf seed message commit} h := by
    dsimp only [ofTwo] at h
    split_ifs at h
    cases h
    exact ⟨rfl, rfl⟩
  addMember_only h := by cases h
  removeMember_only h := by cases h
  mergePending_of_pending {g commit} h := by
    dsimp only [ofTwo]
    rw [h]
    rfl
  mergeStaged_of_staged _ _ := rfl

/-- They share the epoch and the leaves. -/
def Consensus.ofTwo : Consensus .ofTwo where
  Context := ℕ × List Leaf
  context tree := (tree.epoch, tree.leaves)
  read c message :=
    if c.1 = 0 ∧ c.2 = Leaf.pair ∧ message = [7] then some (some 1, .refresh, (1, Leaf.pair)) else none
  shares h := Prod.mk.inj h
  process _ _ := rfl
  createMessage h := by cases h
  staged {g message sender commit secrets} h := by
    dsimp only [OpenMls.ofTwo] at h
    split_ifs at h with hat hown
    · cases h
    · cases h
      refine ⟨fun heq ↦ hown (Option.some.inj heq).symm, ?_⟩
      rw [if_pos hat, StagedCommit.tree, hat.1]
      rfl
    · cases h
  own {g message sender secrets} h := by
    dsimp only [OpenMls.ofTwo] at h
    split_ifs at h <;> cases h
  delivers {g message sender commit next} h hsender := by
    split_ifs at h with hat
    cases h
    refine ⟨.refresh, g.secrets, ?_⟩
    dsimp only [OpenMls.ofTwo]
    rw [if_pos hat, if_neg fun hown ↦ hsender (by rw [hown])]
  epochs {tree message result} h := by
    split_ifs at h with hat
    exact congrArg some hat.1.symm
  updates {c message sender commit next} h := by
    split_ifs at h
    cases h
    rfl

def Outside.ofTwo : Outside := { Outside.transparent with openMls := .ofTwo }

/-- One of the two members. -/
def Member.ofTwo (second : Bool) : Member where
  group :=
    { mlsGroupId := []
      groupSigning := .replicate 32 (if second then 3 else 2)
      credentialId := .replicate 32 (if second then 5 else 4)
      lastOwnUpdate := 0
      pending := none
      announcedKeys := ∅
      mls := ⟨⟨0, Leaf.pair, if second then 1 else 0, []⟩, none⟩ }
  sent := none
  merged := []

/-- Where they start. -/
def Ledger.ofTwo : Ledger Consensus.ofTwo := ⟨(0, Leaf.pair), Leaf.pair, ∅, []⟩

theorem Leaf.profiled_pair : Profiled Leaf.pair where
  toTreeValid := .pair
  conform leaf hleaf := by
    rcases List.mem_pair.mp hleaf with rfl | rfl
    · exact ⟨.replicate 32 4, rfl⟩
    · exact ⟨.replicate 32 5, rfl⟩

theorem Member.inStep_ofTwo (second : Bool) :
    (Member.ofTwo second).InStep (p := .ofTwo) Ledger.ofTwo where
  context := rfl
  leaves := rfl
  announced := rfl
  merged := rfl
  sound := ⟨Leaf.profiled_pair, fun _ h ↦ (by cases h), fun _ _ h ↦ (by cases h)⟩
  owns := by
    cases second with
    | false => exact ⟨Leaf.pair[0], List.getElem_mem _, rfl, rfl, rfl⟩
    | true => exact ⟨Leaf.pair[1], List.getElem_mem _, rfl, rfl, rfl⟩
  signer _ h := by cases h
  staged _ h := by cases h

/-- The second updates its leaf, and takes the update before it comes back; the first takes it. -/
def stepsOfTwo : Bool → List MemberStep
  | true => [.maybeSelfUpdate 1000000000 [], .row (.commit (.unframed [7])) 0, .again (.unframed [7]) 0]
  | false => [.row (.commit (.unframed [7])) 0]

theorem hears_of_tree {m : Member} {framing : Framing} (hepoch : m.group.mls.epoch ≠ 0) :
    Hears (p := .ofTwo) Consensus.ofTwo m framing := by
  have hnone : Consensus.ofTwo.read (Consensus.ofTwo.context m.group.mls.toMlsTree)
      framing.message = none := if_neg fun h ↦ hepoch h.1
  refine ⟨fun _ _ h ↦ ?_, fun _ _ _ h ↦ ?_, fun _ _ _ h ↦ ?_⟩
  · cases hnone.symm.trans h
  · dsimp only [Outside.ofTwo, OpenMls.ofTwo] at h
    rw [if_neg fun h ↦ hepoch h.1] at h
    cases h
  · cases hnone.symm.trans h

/-- The second member, with its update on the way. -/
def Member.updating : Member where
  group :=
    { (Member.ofTwo true).group.stage .refresh ⟨.update, none⟩ with lastOwnUpdate := 1000000000 }
  sent := some (.unframed [7])
  merged := []

theorem settled_ofTwo (second : Bool) :
    Allowed (MemberStep.apply .ofTwo) (MemberStep.Settled (p := .ofTwo) Consensus.ofTwo)
      (.ofTwo second) (stepsOfTwo second) := by
  cases second with
  | false =>
    refine ⟨⟨fun _ _ h ↦ ?_, fun h ↦ ?_, fun _ _ _ h ↦ ?_⟩, trivial⟩
    · cases h
    · cases h
    · cases h
      exact List.not_mem_nil
  | true =>
    have hupdate : (MemberStep.maybeSelfUpdate 1000000000 []).apply .ofTwo (.ofTwo true) =
        .updating := rfl
    have hmerged : ((MemberStep.row (.commit (.unframed [7])) 0).apply .ofTwo
        .updating).group.mls.epoch = 1 := rfl
    dsimp only [stepsOfTwo]
    rw [Allowed, hupdate]
    refine ⟨trivial, ⟨fun _ _ h ↦ ?_, fun h ↦ ?_, fun _ _ _ h ↦ ?_⟩, ⟨?_, ?_⟩, trivial⟩
    · cases h
      exact ⟨rfl, rfl, ⟨.refresh, rfl, rfl, rfl⟩, some 1, .ownPrivateMessage, [], rfl, .inr rfl⟩
    · cases h
    · cases h
      exact List.not_mem_nil
    · exact hears_of_tree (by rw [hmerged]; decide)
    · rw [hmerged]
      rfl

theorem commits_agree_ofTwo :
    let final (second : Bool) :=
      run (MemberStep.apply .ofTwo) (.ofTwo second) (stepsOfTwo second)
    (final false).merged <+: (final true).merged ∧
      (final false).group.mls.epoch = (final true).group.mls.epoch := by
  intro final
  have hagree := (commits_agree (p := .ofTwo) Consensus.ofTwo OpenMls.exact_ofTwo
    ⟨fun _ ↦ rfl, fun _ _ ↦ rfl⟩ Member.ofTwo Ledger.ofTwo Member.inStep_ofTwo stepsOfTwo settled_ofTwo
    [.commit (.unframed [7])] (fun second ↦ by cases second <;> exact List.prefix_refl _)).2 false true
    (le_refl 1)
  exact ⟨hagree.1, (hagree.2 rfl).1⟩

end NemoMessenger.Client
