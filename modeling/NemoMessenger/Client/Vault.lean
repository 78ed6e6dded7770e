import NemoMessenger.Client.Memory

/-!
# The vault

A table with one entry under each of eight keys. One save of the client's memory is a list of
writes, each of one entry, so a save that is cut off has made the first few of them. Opening a vault
reads every key; an entry stands for the bytes that encode it, and a stored sidecar is `none` where
they do not decode.
-/

namespace NemoMessenger.Client

open NemoMessenger.Data NemoMessenger.Wire

/-! ## Entries -/

/-- The keys of the table. -/
inductive VaultKey
  | installation
  | mlsStorage
  | groups
  | home
  | display
  | inbox
  | pendingJoins
  | mintedInvites
  deriving DecidableEq, Repr

/-- `SNAPSHOT_KEY` and its siblings. -/
def VaultKey.name : VaultKey → String
  | installation => "installation"
  | mlsStorage => "mls_storage"
  | groups => "groups"
  | home => "home"
  | display => "display"
  | inbox => "inbox"
  | pendingJoins => "pending_joins"
  | mintedInvites => "minted_invites"

/-- What `save_display` encodes. -/
structure DisplayEntry where
  nicknames : FiniteMap String String
  disappear : FiniteMap String UInt64
  groupNames : FiniteMap String String
  deriving DecidableEq

/-- What `save_inbox` encodes. -/
structure InboxEntry where
  rows : List DisplayRow
  nextSeq : FiniteMap String UInt64
  acked : FiniteMap String UInt64
  read : FiniteMap String UInt64
  groupRead : FiniteMap String (FiniteMap String UInt64)
  deriving DecidableEq

/-- The content of the table. -/
structure Vault where
  installation : Snapshot
  mlsStorage : Option MlsStorage
  groups : Option (List (Option Sidecar))
  home : Option HomeState
  display : Option DisplayEntry
  inbox : Option InboxEntry
  pendingJoins : Option (List (Key × PendingEntry))
  mintedInvites : Option (List GroupInvite)
  deriving DecidableEq

/-- A value for one key. -/
inductive Entry
  | installation (snapshot : Snapshot)
  | mlsStorage (storage : MlsStorage)
  | groups (sidecars : List (Option Sidecar))
  | home (state : HomeState)
  | display (entry : DisplayEntry)
  | inbox (entry : InboxEntry)
  | pendingJoins (entries : List (Key × PendingEntry))
  | mintedInvites (invites : List GroupInvite)
  deriving DecidableEq

/-- The key an entry is written under. -/
def Entry.key : Entry → VaultKey
  | installation _ => .installation
  | mlsStorage _ => .mlsStorage
  | groups _ => .groups
  | home _ => .home
  | display _ => .display
  | inbox _ => .inbox
  | pendingJoins _ => .pendingJoins
  | mintedInvites _ => .mintedInvites

namespace Vault

/-- `put`. -/
def put (vault : Vault) : Entry → Vault
  | .installation snapshot => { vault with installation := snapshot }
  | .mlsStorage storage => { vault with mlsStorage := some storage }
  | .groups sidecars => { vault with groups := some sidecars }
  | .home state => { vault with home := some state }
  | .display entry => { vault with display := some entry }
  | .inbox entry => { vault with inbox := some entry }
  | .pendingJoins entries => { vault with pendingJoins := some entries }
  | .mintedInvites invites => { vault with mintedInvites := some invites }

/-- `get_opt`. -/
def get (vault : Vault) : VaultKey → Option Entry
  | .installation => some (.installation vault.installation)
  | .mlsStorage => vault.mlsStorage.map .mlsStorage
  | .groups => vault.groups.map .groups
  | .home => vault.home.map .home
  | .display => vault.display.map .display
  | .inbox => vault.inbox.map .inbox
  | .pendingJoins => vault.pendingJoins.map .pendingJoins
  | .mintedInvites => vault.mintedInvites.map .mintedInvites

/-- Writes in order. -/
def putAll (vault : Vault) (entries : List Entry) : Vault := entries.foldl put vault

theorem get_put (vault : Vault) (entry : Entry) (key : VaultKey) :
    (vault.put entry).get key = if key = entry.key then some entry else vault.get key := by
  cases entry <;> cases key <;> rfl

/-- A key that is not written keeps its entry. -/
theorem get_putAll_of_notMem {vault : Vault} {entries : List Entry} {key : VaultKey}
    (h : key ∉ entries.map Entry.key) : (vault.putAll entries).get key = vault.get key := by
  induction entries generalizing vault with
  | nil => rfl
  | cons entry entries ih =>
    rw [List.map_cons, List.mem_cons, not_or] at h
    calc
      ((vault.put entry).putAll entries).get key = (vault.put entry).get key := ih h.2
      _ = vault.get key := by rw [get_put, if_neg h.1]

/-- A key that is always written with one entry has it afterwards. -/
theorem get_putAll_of_mem {vault : Vault} {entries : List Entry} {entry : Entry}
    (hmem : entry ∈ entries) (hsame : ∀ e ∈ entries, e.key = entry.key → e = entry) :
    (vault.putAll entries).get entry.key = some entry := by
  induction entries generalizing vault with
  | nil => cases hmem
  | cons first entries ih =>
    have hrest : ∀ e ∈ entries, e.key = entry.key → e = entry :=
      fun e he ↦ hsame e (List.mem_cons_of_mem _ he)
    by_cases hlater : entry ∈ entries
    · exact ih hlater hrest
    · have hfirst : entry = first := (List.mem_cons.mp hmem).resolve_right hlater
      have hkey : entry.key ∉ entries.map Entry.key := by
        intro hkey
        obtain ⟨e, he, heq⟩ := List.mem_map.mp hkey
        exact hlater (hrest e he heq ▸ he)
      calc
        ((vault.put first).putAll entries).get entry.key = (vault.put first).get entry.key :=
          get_putAll_of_notMem hkey
        _ = some entry := by rw [get_put, ← hfirst, if_pos rfl]

end Vault

/-! ## Saving -/

/-- The writes of `save`. -/
def saveInstall (install : Installation) : List Entry :=
  [.installation install.toSnapshot, .mlsStorage install.mlsStorage]

/-- The writes of `save_home`. -/
def saveHome (install : Installation) (state : HomeState) : List Entry :=
  saveInstall install ++ [.home state]

/-- The writes of `save_groups`. -/
def saveGroups (install : Installation) (groups : List GroupRecord) : List Entry :=
  saveInstall install ++ [.groups (groups.map fun g ↦ some g.sidecar)]

/-- The write of `save_display`. -/
def saveDisplay (shell : Shell) (groupNames : FiniteMap String String) : List Entry :=
  [.display { nicknames := shell.nicknames, disappear := shell.disappear, groupNames }]

/-- The write of `save_inbox`. -/
def saveInbox (shell : Shell) : List Entry :=
  [.inbox { rows := shell.inbox, nextSeq := shell.nextSeq, acked := shell.acked,
            read := shell.read, groupRead := shell.groupRead }]

/-- The write of `save_pending`. -/
def savePending (pending : FiniteMap Key PendingEntry) : List Entry :=
  [.pendingJoins (pending.entries.map fun e ↦ (e.1, e.2))]

/-- The write of `save_invites`. -/
def saveInvites (minted : FiniteMap Key GroupInvite) : List Entry :=
  [.mintedInvites (minted.entries.map fun e ↦ e.2)]

/-- The writes of `persist`, in the state of the client it runs in. -/
def ClientState.writes (inner : Inner) : ClientState → List Entry
  | registered session =>
    saveHome session.install session.snapshot ++
      (saveGroups session.install (inner.groups.map (·.mls)) ++
        (saveDisplay inner.shell (Inner.groupNames inner.groups) ++
          (saveInbox inner.shell ++ (savePending inner.pending ++ saveInvites inner.minted))))
  | local_ install => saveInstall install ++ (saveDisplay inner.shell ∅ ++ saveInbox inner.shell)

/-- The writes of `persist` on an attached vault; without a state it writes nothing and fails. -/
def Inner.writes (inner : Inner) : List Entry :=
  match inner.state with
  | some state => state.writes inner
  | none => []

/-! ## Loading -/

/-- `load_groups`, with what it does to the storage of the provider: a staged commit whose kind was
not recorded is cleared there. The first sidecar that fails to load fails the whole. -/
def loadGroups (storage : MlsStorage) :
    List (Option Sidecar) → Except CoreError (List GroupRecord) × MlsStorage
  | [] => (.ok [], storage)
  | none :: _ => (.error .vaultCorrupt, storage)
  | some sidecar :: rest =>
    match sidecar.load storage with
    | .error e => (.error e, storage)
    | .ok group =>
      match loadGroups { storage with groups := storage.groups.insert group.mlsGroupId group.mls }
        rest with
      | (.error e, storage) => (.error e, storage)
      | (.ok groups, storage) => (.ok (group.toGroupRecord :: groups), storage)

/-- What the loaders of a vault return. -/
structure Loaded where
  install : Installation
  home : Option HomeState
  groups : Except CoreError (List GroupRecord) × MlsStorage
  display : DisplayEntry
  inbox : InboxEntry
  pendingJoins : List (Key × PendingEntry)
  mintedInvites : List GroupInvite

namespace Vault

/-- `load_installation`, which `open_bound` repeats. -/
def loadInstallation (vault : Vault) : Installation :=
  { vault.installation with mlsStorage := vault.mlsStorage.getD ⟨∅, ∅⟩ }

/-- All loaders. -/
def load (vault : Vault) : Loaded where
  install := vault.loadInstallation
  home := vault.home
  groups := loadGroups vault.loadInstallation.mlsStorage (vault.groups.getD [])
  display := vault.display.getD ⟨∅, ∅, ∅⟩
  inbox := vault.inbox.getD ⟨[], ∅, ∅, ∅, ∅⟩
  pendingJoins := vault.pendingJoins.getD []
  mintedInvites := vault.mintedInvites.getD []

end Vault

/-! ## Content

Maps are compared by what they answer: the order of their entries is not part of their content. -/

def SignalStore.content (store : SignalStore) :=
  ({ store with known := ∅, preKeyStores := ⟨∅, ∅, ∅, ∅⟩, sessions := ∅ },
    (store.known.lookup ·), (store.preKeyStores.preKeys.lookup ·),
    (store.preKeyStores.signedPreKeys.lookup ·), (store.preKeyStores.kyberPreKeys.lookup ·),
    (store.preKeyStores.kyberUsed.lookup ·), (store.sessions.lookup ·))

def Snapshot.content (snapshot : Snapshot) :=
  ({ snapshot with store := ⟨[], 0, ∅, ⟨∅, ∅, ∅, ∅⟩, ∅⟩ }, snapshot.store.content)

def MlsStorage.content (storage : MlsStorage) :=
  ((storage.groups.lookup ·), (storage.keys.lookup ·))

def HomeState.content (state : HomeState) :=
  ({ state with contacts := ∅ }, (state.contacts.lookup ·))

def GroupRecord.content (record : GroupRecord) :=
  ({ record with announcedKeys := ∅ }, (record.announcedKeys.lookup ·))

def DisplayEntry.content (entry : DisplayEntry) :=
  ((entry.nicknames.lookup ·), (entry.disappear.lookup ·), (entry.groupNames.lookup ·))

def InboxEntry.content (entry : InboxEntry) :=
  (entry.rows, (entry.nextSeq.lookup ·), (entry.acked.lookup ·), (entry.read.lookup ·),
    fun conv ↦ (entry.groupRead.lookup conv).map fun marks member ↦ marks.lookup member)

/-- `open_at` collects the joins into a map. -/
def pendingMap (entries : List (Key × PendingEntry)) : FiniteMap Key PendingEntry :=
  entries.foldl (fun m entry ↦ m.insert entry.1 entry.2) ∅

/-- `open_at` collects the invites into a map. -/
def mintedMap (invites : List GroupInvite) : FiniteMap Key GroupInvite :=
  invites.foldl (fun m invite ↦ m.insert invite.nonce invite) ∅

/-- The content of what `load_groups` returns and leaves. -/
def groupsContent (loaded : Except CoreError (List GroupRecord) × MlsStorage) :=
  (loaded.1.map (·.map GroupRecord.content), loaded.2.content)

def Loaded.content (loaded : Loaded) :=
  (loaded.install.toSnapshot.content, loaded.install.mlsStorage.content,
    loaded.home.map HomeState.content, groupsContent loaded.groups, loaded.display.content,
    loaded.inbox.content, ((pendingMap loaded.pendingJoins).lookup ·),
    ((mintedMap loaded.mintedInvites).lookup ·))

/-- `load_groups` only looks groups up in the storage. -/
theorem groupsContent_loadGroups {storage storage' : MlsStorage}
    (h : storage.content = storage'.content) (sidecars : List (Option Sidecar)) :
    groupsContent (loadGroups storage sidecars) = groupsContent (loadGroups storage' sidecars) := by
  induction sidecars generalizing storage storage' with
  | nil => simp only [loadGroups, groupsContent, h]
  | cons first rest ih =>
    cases first with
    | none => simp only [loadGroups, groupsContent, h]
    | some sidecar =>
      have hlookup : ∀ id, storage.groups.lookup id = storage'.groups.lookup id :=
        congrFun (congrArg Prod.fst h)
      have hload : sidecar.load storage = sidecar.load storage' := by
        simp only [Sidecar.load, hlookup]
      simp only [loadGroups, hload]
      cases sidecar.load storage' with
      | error e => simp only [groupsContent, h]
      | ok group =>
        have hinsert : MlsStorage.content
              { storage with groups := storage.groups.insert group.mlsGroupId group.mls } =
            MlsStorage.content
              { storage' with groups := storage'.groups.insert group.mlsGroupId group.mls } := by
          have hkeys := congrArg Prod.snd h
          simp only [MlsStorage.content, FiniteMap.lookup_insert_ite, hlookup] at hkeys ⊢
          rw [hkeys]
        have hrest := ih hinsert
        simp only
        generalize loadGroups
          { storage with groups := storage.groups.insert group.mlsGroupId group.mls } rest = l
          at hrest ⊢
        generalize loadGroups
          { storage' with groups := storage'.groups.insert group.mlsGroupId group.mls } rest = l'
          at hrest ⊢
        obtain ⟨groups, left⟩ := l
        obtain ⟨groups', left'⟩ := l'
        simp only [groupsContent, Prod.mk.injEq] at hrest
        cases groups <;> cases groups' <;>
          simp_all [groupsContent, Except.map]

/-- `load_live_groups`: hosts and groups are paired by their position. -/
def liveGroups (loaded : Loaded) (hosts : List HostGroup) : List LiveGroup :=
  let mls := match loaded.groups.1 with | .ok groups => groups | .error _ => []
  hosts.zipWith (fun host mls ↦ { host, mls, nickname := "" }) mls

/-- The memory `open_at` builds from what it loaded, before it applies the timers. -/
def Loaded.inner (loaded : Loaded) : Inner :=
  let install := { loaded.install with mlsStorage := loaded.groups.2 }
  let (state, groups) := match loaded.home with
    | some home =>
      if home.homeBase ≠ "" then
        (ClientState.registered (.resume install home), liveGroups loaded home.groups)
      else (ClientState.local_ loaded.install, [])
    | none => (ClientState.local_ loaded.install, [])
  let names := loaded.display.groupNames
  { Inner.empty (some state) true none with
    groups := groups.map fun g ↦
      { g with nickname := (names.lookup (toHex g.host.groupId.data)).getD g.nickname }
    shell :=
      { Shell.empty with
        nicknames := loaded.display.nicknames
        disappear := loaded.display.disappear
        inbox := Shell.dropLegacyTombstones loaded.inbox.rows
        nextSeq := loaded.inbox.nextSeq
        acked := loaded.inbox.acked
        read := loaded.inbox.read
        groupRead := loaded.inbox.groupRead }
    minted := mintedMap loaded.mintedInvites
    pending := pendingMap loaded.pendingJoins }

end NemoMessenger.Client
