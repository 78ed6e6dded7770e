import NemoMessenger.Client.Vault

/-!
# Saves that are cut off

One save writes its entries one after the other, with no transaction around them, and the loaders
take whatever is there. A save that is cut off after some of its writes loads as the old state or as
the new one exactly when nothing that has been written differs, or nothing that is still to be
written does. Sidecars are compared as the new storage loads them.
-/

namespace NemoMessenger.Client

open NemoMessenger.Data NemoMessenger.Wire

/-! ## Writes of one save -/

/-- The entry a save writes under a key, where it writes one. -/
def Inner.entryAt (inner : Inner) : ClientState → VaultKey → Option Entry
  | state, .installation => some (.installation state.install.toSnapshot)
  | state, .mlsStorage => some (.mlsStorage state.install.mlsStorage)
  | .registered _, .groups => some (.groups (inner.groups.map fun g ↦ some g.mls.sidecar))
  | .registered session, .home => some (.home session.snapshot)
  | .registered _, .display =>
    some (.display
      { nicknames := inner.shell.nicknames, disappear := inner.shell.disappear,
        groupNames := Inner.groupNames inner.groups })
  | .local_ _, .display =>
    some (.display
      { nicknames := inner.shell.nicknames, disappear := inner.shell.disappear, groupNames := ∅ })
  | _, .inbox =>
    some (.inbox
      { rows := inner.shell.inbox, nextSeq := inner.shell.nextSeq, acked := inner.shell.acked,
        read := inner.shell.read, groupRead := inner.shell.groupRead })
  | .registered _, .pendingJoins =>
    some (.pendingJoins (inner.pending.entries.map fun e ↦ (e.1, e.2)))
  | .registered _, .mintedInvites => some (.mintedInvites (inner.minted.entries.map fun e ↦ e.2))
  | .local_ _, _ => none

theorem ClientState.eq_entryAt_of_mem {inner : Inner} {state : ClientState} {e : Entry}
    (he : e ∈ state.writes inner) : some e = inner.entryAt state e.key := by
  cases state with
  | local_ install =>
    simp only [ClientState.writes, saveInstall, saveDisplay, saveInbox, List.cons_append,
      List.nil_append, List.mem_cons, List.not_mem_nil, or_false] at he
    rcases he with rfl | rfl | rfl | rfl <;> rfl
  | registered session =>
    simp only [ClientState.writes, saveHome, saveGroups, saveInstall, saveDisplay, saveInbox,
      savePending, saveInvites, List.cons_append, List.nil_append, List.mem_cons,
      List.not_mem_nil, or_false, List.map_map] at he
    rcases he with rfl | rfl | rfl | rfl | rfl | rfl | rfl | rfl | rfl | rfl <;> rfl

/-- Every key is written with one entry, though some are written twice. -/
theorem Inner.writes_consistent (inner : Inner) {e e' : Entry} (he : e ∈ inner.writes)
    (he' : e' ∈ inner.writes) (hkey : e.key = e'.key) : e = e' := by
  unfold Inner.writes at he he'
  cases hstate : inner.state with
  | none => simp [hstate] at he
  | some state =>
    rw [hstate] at he he'
    apply Option.some.inj
    calc
      some e = inner.entryAt state e.key := ClientState.eq_entryAt_of_mem he
      _ = inner.entryAt state e'.key := by rw [hkey]
      _ = some e' := (ClientState.eq_entryAt_of_mem he').symm

/-- The sidecars are written after the storage they refer to. -/
theorem Inner.mem_take_mlsStorage {inner : Inner} {k : ℕ}
    (h : VaultKey.groups ∈ (inner.writes.take k).map Entry.key) :
    VaultKey.mlsStorage ∈ (inner.writes.take k).map Entry.key := by
  unfold Inner.writes at h ⊢
  cases hstate : inner.state with
  | none => simp [hstate] at h
  | some state =>
    rw [hstate] at h
    cases state with
    | local_ install =>
      have hsub := List.map_subset Entry.key
        (List.take_subset k (ClientState.writes inner (.local_ install)))
      have hmem := hsub h
      simp [ClientState.writes, saveInstall, saveDisplay, saveInbox, Entry.key] at hmem
    | registered session =>
      rcases k with _ | _ | k
      · simp at h
      · simp [ClientState.writes, saveHome, saveInstall, Entry.key] at h
      · simp [ClientState.writes, saveHome, saveInstall, Entry.key]

namespace Vault

/-- What a write leaves alone, and what it changes. -/
theorem get_putAll_take {vault : Vault} {inner : Inner} {k : ℕ} (key : VaultKey) :
    (vault.putAll (inner.writes.take k)).get key =
      if key ∈ (inner.writes.take k).map Entry.key then (vault.putAll inner.writes).get key
      else vault.get key := by
  split_ifs with hkey
  · obtain ⟨e, he, rfl⟩ := List.mem_map.mp hkey
    have hmem : e ∈ inner.writes := List.mem_of_mem_take he
    calc
      (vault.putAll (inner.writes.take k)).get e.key = some e :=
        get_putAll_of_mem he fun e' he' hkey' ↦
          inner.writes_consistent (List.mem_of_mem_take he') hmem hkey'
      _ = (vault.putAll inner.writes).get e.key :=
        (get_putAll_of_mem hmem fun e' he' hkey' ↦ inner.writes_consistent he' hmem hkey').symm
  · exact get_putAll_of_notMem hkey

/-! ## What is loaded from a key -/

/-- The two vaults load the same from a key. Sidecars are loaded on the storage of the second. -/
def Agree (v w : Vault) : VaultKey → Prop
  | .installation => v.installation.content = w.installation.content
  | .mlsStorage =>
    v.loadInstallation.mlsStorage.content = w.loadInstallation.mlsStorage.content
  | .groups =>
    groupsContent (loadGroups w.loadInstallation.mlsStorage (v.groups.getD [])) =
      groupsContent w.load.groups
  | .home => v.home.map HomeState.content = w.home.map HomeState.content
  | .display => v.load.display.content = w.load.display.content
  | .inbox => v.load.inbox.content = w.load.inbox.content
  | .pendingJoins =>
    ((pendingMap v.load.pendingJoins).lookup ·) = ((pendingMap w.load.pendingJoins).lookup ·)
  | .mintedInvites =>
    ((mintedMap v.load.mintedInvites).lookup ·) = ((mintedMap w.load.mintedInvites).lookup ·)

theorem Agree.refl (v : Vault) (key : VaultKey) : v.Agree v key := by
  cases key <;> rfl

/-- Agreement on a key depends on what the vaults hold under it and, for the sidecars, on the
storage of the second. -/
theorem agree_congr {u u' v v' : Vault} {key : VaultKey} (hu : u.get key = u'.get key)
    (hv : v.get key = v'.get key) (hstorage : key = .groups →
      v.loadInstallation.mlsStorage = v'.loadInstallation.mlsStorage) :
    u.Agree v key ↔ u'.Agree v' key := by
  have hmap {α : Type} {f : α → Entry} (hf : Function.Injective f) {x y : Option α}
      (hxy : x.map f = y.map f) : x = y := Option.map_injective hf hxy
  cases key with
  | installation =>
    have heq {x y : Vault} (h : x.get .installation = y.get .installation) :
        x.installation = y.installation := Entry.installation.inj (Option.some.inj h)
    simp only [Agree, heq hu, heq hv]
  | mlsStorage =>
    have heq {x y : Vault} (h : x.get .mlsStorage = y.get .mlsStorage) :
        x.mlsStorage = y.mlsStorage := hmap (fun _ _ ↦ Entry.mlsStorage.inj) h
    simp only [Agree, loadInstallation, heq hu, heq hv]
  | groups =>
    have heq {x y : Vault} (h : x.get .groups = y.get .groups) : x.groups = y.groups :=
      hmap (fun _ _ ↦ Entry.groups.inj) h
    simp only [Agree, load, heq hu, heq hv, hstorage rfl]
  | home =>
    have heq {x y : Vault} (h : x.get .home = y.get .home) : x.home = y.home :=
      hmap (fun _ _ ↦ Entry.home.inj) h
    simp only [Agree, heq hu, heq hv]
  | display =>
    have heq {x y : Vault} (h : x.get .display = y.get .display) : x.display = y.display :=
      hmap (fun _ _ ↦ Entry.display.inj) h
    simp only [Agree, load, heq hu, heq hv]
  | inbox =>
    have heq {x y : Vault} (h : x.get .inbox = y.get .inbox) : x.inbox = y.inbox :=
      hmap (fun _ _ ↦ Entry.inbox.inj) h
    simp only [Agree, load, heq hu, heq hv]
  | pendingJoins =>
    have heq {x y : Vault} (h : x.get .pendingJoins = y.get .pendingJoins) :
        x.pendingJoins = y.pendingJoins := hmap (fun _ _ ↦ Entry.pendingJoins.inj) h
    simp only [Agree, load, heq hu, heq hv]
  | mintedInvites =>
    have heq {x y : Vault} (h : x.get .mintedInvites = y.get .mintedInvites) :
        x.mintedInvites = y.mintedInvites := hmap (fun _ _ ↦ Entry.mintedInvites.inj) h
    simp only [Agree, load, heq hu, heq hv]

/-- Vaults that agree on every key load the same, and no others do. -/
theorem content_load_eq_iff {v w : Vault} :
    v.load.content = w.load.content ↔ ∀ key, v.Agree w key := by
  have hgroups (hstorage : v.loadInstallation.mlsStorage.content =
      w.loadInstallation.mlsStorage.content) : groupsContent v.load.groups =
        groupsContent (loadGroups w.loadInstallation.mlsStorage (v.groups.getD [])) :=
    groupsContent_loadGroups hstorage _
  simp only [Loaded.content, Prod.mk.injEq]
  constructor
  · rintro ⟨hinstall, hstorage, hhome, hg, hdisplay, hinbox, hpending, hminted⟩ key
    cases key with
    | installation => exact hinstall
    | mlsStorage => exact hstorage
    | groups => exact (hgroups hstorage).symm.trans hg
    | home => exact hhome
    | display => exact hdisplay
    | inbox => exact hinbox
    | pendingJoins => exact hpending
    | mintedInvites => exact hminted
  · intro h
    exact ⟨h .installation, h .mlsStorage, h .home, (hgroups (h .mlsStorage)).trans (h .groups),
      h .display, h .inbox, h .pendingJoins, h .mintedInvites⟩

/-- An entry brings nothing new to what the vault loads under its key. Sidecars are loaded on the
storage that is being saved. -/
def Holds (vault : Vault) (storage : MlsStorage) : Entry → Prop
  | .installation snapshot => vault.installation.content = snapshot.content
  | .mlsStorage saved => vault.loadInstallation.mlsStorage.content = saved.content
  | .groups sidecars =>
    groupsContent (loadGroups storage (vault.groups.getD [])) =
      groupsContent (loadGroups storage sidecars)
  | .home state => vault.home.map HomeState.content = some state.content
  | .display entry => vault.load.display.content = entry.content
  | .inbox entry => vault.load.inbox.content = entry.content
  | .pendingJoins entries =>
    ((pendingMap vault.load.pendingJoins).lookup ·) = ((pendingMap entries).lookup ·)
  | .mintedInvites invites =>
    ((mintedMap vault.load.mintedInvites).lookup ·) = ((mintedMap invites).lookup ·)

end Vault

/-! ## Cutting a save off -/

/-- The MLS storage of the client. -/
def Inner.storage (inner : Inner) : MlsStorage :=
  match inner.state with
  | some state => state.install.mlsStorage
  | none => ⟨∅, ∅⟩

namespace Vault

variable {v : Vault} {inner : Inner} {k : ℕ}

theorem get_putAll_writes {e : Entry} (he : e ∈ inner.writes) :
    (v.putAll inner.writes).get e.key = some e :=
  get_putAll_of_mem he fun _ he' hkey' ↦ inner.writes_consistent he' he hkey'

/-- A full save leaves the storage of the client. -/
theorem mlsStorage_putAll_writes {e : Entry} (he : e ∈ inner.writes) :
    (v.putAll inner.writes).loadInstallation.mlsStorage = inner.storage := by
  have hmem : Entry.mlsStorage inner.storage ∈ inner.writes := by
    unfold Inner.writes at he ⊢
    unfold Inner.storage
    cases hstate : inner.state with
    | none => simp [hstate] at he
    | some state => cases state <;> simp [ClientState.writes, saveHome, saveInstall,
        ClientState.install]
  have hget := get_putAll_writes (v := v) hmem
  have heq : (v.putAll inner.writes).mlsStorage = some inner.storage :=
    Option.map_injective (fun _ _ ↦ Entry.mlsStorage.inj) hget
  simp only [loadInstallation, heq, Option.getD_some]

/-- To hold an entry of a save is to agree with the saved vault on its key. -/
theorem agree_writes_iff {e : Entry} (he : e ∈ inner.writes) :
    v.Agree (v.putAll inner.writes) e.key ↔ v.Holds inner.storage e := by
  have hget := get_putAll_writes (v := v) he
  have hstorage := mlsStorage_putAll_writes (v := v) he
  set w := v.putAll inner.writes with hw
  have hmap {α : Type} {f : α → Entry} (hf : Function.Injective f) {x : Option α} {a : α}
      (hxy : x.map f = some (f a)) : x = some a := Option.map_injective hf hxy
  cases e with
  | installation snapshot =>
    have heq : w.installation = snapshot := Entry.installation.inj (Option.some.inj hget)
    simp only [Entry.key, Agree, Holds, heq]
  | mlsStorage saved =>
    have heq : w.mlsStorage = some saved := hmap (fun _ _ ↦ Entry.mlsStorage.inj) hget
    simp only [Entry.key, Agree, Holds, loadInstallation, heq, Option.getD_some]
  | groups sidecars =>
    have heq : w.groups = some sidecars := hmap (fun _ _ ↦ Entry.groups.inj) hget
    simp only [Entry.key, Agree, Holds, load, heq, hstorage, Option.getD_some]
  | home state =>
    have heq : w.home = some state := hmap (fun _ _ ↦ Entry.home.inj) hget
    simp only [Entry.key, Agree, Holds, heq, Option.map_some]
  | display entry =>
    have heq : w.display = some entry := hmap (fun _ _ ↦ Entry.display.inj) hget
    simp only [Entry.key, Agree, Holds, load, heq, Option.getD_some]
  | inbox entry =>
    have heq : w.inbox = some entry := hmap (fun _ _ ↦ Entry.inbox.inj) hget
    simp only [Entry.key, Agree, Holds, load, heq, Option.getD_some]
  | pendingJoins entries =>
    have heq : w.pendingJoins = some entries := hmap (fun _ _ ↦ Entry.pendingJoins.inj) hget
    simp only [Entry.key, Agree, Holds, load, heq, Option.getD_some]
  | mintedInvites invites =>
    have heq : w.mintedInvites = some invites := hmap (fun _ _ ↦ Entry.mintedInvites.inj) hget
    simp only [Entry.key, Agree, Holds, load, heq, Option.getD_some]

/-- A write that was made is the one of the full save. -/
theorem get_take_of_mem {e : Entry} (he : e ∈ inner.writes.take k) :
    (v.putAll (inner.writes.take k)).get e.key = (v.putAll inner.writes).get e.key :=
  (get_putAll_take e.key).trans (if_pos (List.mem_map_of_mem he))

/-- A save that is cut off loads as the new state when what is missing is held already. -/
theorem content_load_take_eq_new_iff :
    (v.putAll (inner.writes.take k)).load.content = (v.putAll inner.writes).load.content ↔
      ∀ e ∈ inner.writes.drop k, e ∉ inner.writes.take k → v.Holds inner.storage e := by
  rw [content_load_eq_iff]
  constructor
  · intro h e he hnot
    have hmem : e ∈ inner.writes := List.mem_of_mem_drop he
    have hkey : e.key ∉ (inner.writes.take k).map Entry.key := by
      intro hkey
      obtain ⟨e', he', heq⟩ := List.mem_map.mp hkey
      exact hnot (inner.writes_consistent (List.mem_of_mem_take he') hmem heq ▸ he')
    rw [← agree_writes_iff hmem, ← agree_congr (get_putAll_of_notMem hkey) rfl fun _ ↦ rfl]
    exact h e.key
  · intro h key
    by_cases hkey : key ∈ (inner.writes.take k).map Entry.key
    · obtain ⟨e, he, rfl⟩ := List.mem_map.mp hkey
      rw [agree_congr (get_take_of_mem he) rfl fun _ ↦ rfl]
      exact Agree.refl _ _
    · rw [agree_congr (get_putAll_of_notMem hkey) rfl fun _ ↦ rfl]
      by_cases hlater : key ∈ inner.writes.map Entry.key
      · obtain ⟨e, he, rfl⟩ := List.mem_map.mp hlater
        have hnot : e ∉ inner.writes.take k :=
          fun hmem ↦ hkey (List.mem_map_of_mem hmem)
        have hdrop : e ∈ inner.writes.drop k := by
          have happend : e ∈ inner.writes.take k ++ inner.writes.drop k := by
            rw [List.take_append_drop]
            exact he
          exact (List.mem_append.mp happend).resolve_left hnot
        exact (agree_writes_iff he).mpr (h e hdrop hnot)
      · rw [← agree_congr (get_putAll_of_notMem hlater) rfl fun _ ↦ rfl]
        exact Agree.refl _ _

/-- A save that is cut off loads as the old state when what it wrote was held already. -/
theorem content_load_take_eq_old_iff :
    (v.putAll (inner.writes.take k)).load.content = v.load.content ↔
      ∀ e ∈ inner.writes.take k, v.Holds inner.storage e := by
  set u := v.putAll (inner.writes.take k) with hu
  have hagree : ∀ e ∈ inner.writes.take k, (v.Agree u e.key ↔ v.Holds inner.storage e) := by
    intro e he
    have hstorage : e.key = .groups →
        u.loadInstallation.mlsStorage = (v.putAll inner.writes).loadInstallation.mlsStorage := by
      intro hgroups
      have hmem : e.key ∈ (inner.writes.take k).map Entry.key := List.mem_map_of_mem he
      rw [hgroups] at hmem
      have hkey := Inner.mem_take_mlsStorage hmem
      have hget : u.get .mlsStorage = (v.putAll inner.writes).get .mlsStorage :=
        (get_putAll_take .mlsStorage).trans (if_pos hkey)
      have heq : u.mlsStorage = (v.putAll inner.writes).mlsStorage :=
        Option.map_injective (fun _ _ ↦ Entry.mlsStorage.inj) hget
      simp only [loadInstallation, heq]
    rw [agree_congr rfl (get_take_of_mem he) hstorage]
    exact agree_writes_iff (List.mem_of_mem_take he)
  rw [eq_comm, content_load_eq_iff]
  constructor
  · exact fun h e he ↦ (hagree e he).mp (h e.key)
  · intro h key
    by_cases hkey : key ∈ (inner.writes.take k).map Entry.key
    · obtain ⟨e, he, rfl⟩ := List.mem_map.mp hkey
      exact (hagree e he).mpr (h e he)
    · rw [← agree_congr (get_putAll_of_notMem hkey) rfl fun _ ↦ rfl]
      exact Agree.refl _ _

/-- A save that is cut off after some of its writes loads as the old state or as the new one exactly
when nothing it wrote differs from what was there, or nothing it did not write does. -/
theorem load_cut_off_iff :
    ((v.putAll (inner.writes.take k)).load.content = v.load.content ∨
        (v.putAll (inner.writes.take k)).load.content = (v.putAll inner.writes).load.content) ↔
      (∀ e ∈ inner.writes.take k, v.Holds inner.storage e) ∨
        ∀ e ∈ inner.writes.drop k, e ∉ inner.writes.take k → v.Holds inner.storage e :=
  or_congr content_load_take_eq_old_iff content_load_take_eq_new_iff

/-- A registered client that has received nothing. -/
def beforeFetch : Vault where
  installation :=
    { identity := .replicate 32 0, revocationPublicKey := .replicate 32 0,
      store := ⟨[], 0, ∅, ⟨∅, ∅, ∅, ∅⟩, ∅⟩, nextPreKeyId := 1, nextKyberId := 1,
      signedPreKeyId := 1, signedPreKeyAt := 0, bindingSeq := 1 }
  mlsStorage := some ⟨∅, ∅⟩
  groups := some []
  home := some
    { bundle :=
        { serverId := .replicate 32 0, serverHpkePublicKey := .replicate 32 0,
          serverSignPublicKey := .replicate 32 0, host := ⟨"home", Text.home_size⟩, s2sPort := 443,
          signature := .replicate 64 0 }
      cursor := 0, contacts := ∅, groups := [], homeBase := "https://home", privacy := .normal }
  display := some ⟨∅, ∅, ∅⟩
  inbox := some ⟨[], ∅, ∅, ∅, ∅⟩
  pendingJoins := some []
  mintedInvites := some []

/-- The memory of that client once it has received its first message. -/
def afterFetch : Inner :=
  let inner := beforeFetch.load.inner
  let inner := inner.mapSession fun session ↦ { session with cursor := 1 }
  { inner with shell := (inner.shell.pushText "ab" 1 "hello" 7 0 false).2 }

/-- Cut off after its third write, the save has moved the cursor past a message it has not stored. -/
theorem load_cut_off_mixes :
    ¬((beforeFetch.putAll (afterFetch.writes.take 3)).load.content = beforeFetch.load.content ∨
      (beforeFetch.putAll (afterFetch.writes.take 3)).load.content =
        (beforeFetch.putAll afterFetch.writes).load.content) := by
  rintro (h | h)
  · have hhome := congrArg (fun c ↦ c.2.2.1.map fun home ↦ home.1.cursor) h
    revert hhome
    decide
  · have hinbox := congrArg (fun c ↦ c.2.2.2.2.2.1.1) h
    revert hinbox
    decide

end Vault

end NemoMessenger.Client
