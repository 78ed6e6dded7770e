import Mathlib.Data.List.Dedup
import NemoMessenger.Client.Inside
import NemoMessenger.Client.Fetch
import NemoMessenger.Client.Save

/-!
# Rows that leave no trace

A row that no group takes and no session opens changes nothing of what is saved but the cursor, though
the ratchets and groups that refuse it are written back. Which rows of a batch are such rows is read
off the batch, the sessions and the groups of before the fetch.
-/

namespace NemoMessenger.Client

open NemoMessenger.Data NemoMessenger.Wire
open Program (Keeps Only run run_bind act attempt ofExcept forEach fail)

variable {p : Outside} {env : Environment}

/-! ## Memories that are saved alike -/

/-- A session without what its ratchets and groups keep, and without the time of its next cover
message. -/
def HomeSession.frame (s : HomeSession) : HomeSession :=
  { s with
    coverNextMs := 0
    install := { s.install with store := ⟨[], 0, ∅, ⟨∅, ∅, ∅, ∅⟩, ∅⟩, mlsStorage := ⟨∅, ∅⟩ } }

/-- Sessions whose ratchets and groups have the same content. -/
structure HomeSession.Alike (s t : HomeSession) : Prop where
  frame : t.frame = s.frame
  store : t.install.store.content = s.install.store.content
  storage : t.install.mlsStorage.content = s.install.mlsStorage.content

/-- The memory has the groups, joins and invites of another one, a session like this one, and these
conversations. -/
structure Inner.Idle (inner : Inner) (s : HomeSession) (shell : Shell) (after : Inner) : Prop where
  session : ∃ t, after.session? = some t ∧ s.Alike t
  groups : after.groups = inner.groups
  shell : after.shell = shell
  pending : after.pending = inner.pending
  minted : after.minted = inner.minted

theorem HomeSession.Alike.refl (s : HomeSession) : s.Alike s := ⟨rfl, rfl, rfl⟩

theorem Inner.Idle.refl {inner : Inner} {s : HomeSession} (hs : inner.session? = some s) :
    inner.Idle s inner.shell inner := ⟨⟨s, hs, .refl s⟩, rfl, rfl, rfl, rfl⟩

namespace HomeSession.Alike

variable {s t : HomeSession}

theorem snapshot (h : s.Alike t) :
    t.install.toSnapshot.content = s.install.toSnapshot.content := by
  have hframe := congrArg (fun s ↦ s.install.toSnapshot) h.frame
  exact Prod.ext hframe h.store

end HomeSession.Alike

namespace Inner.Idle

variable {inner after : Inner} {s : HomeSession} {shell : Shell}

theorem groupAt (hs : inner.session?.map (·.install) = some s.install) (h : inner.Idle s shell after) (i : ℕ) :
    after.groupAt i = inner.groupAt i := by
  obtain ⟨t, ht, halike⟩ := h.session
  obtain ⟨s₀, hs₀, hinstall⟩ := Option.map_eq_some_iff.mp hs
  have hlookup (id : Bytes) : t.install.mlsStorage.groups.lookup id =
      s.install.mlsStorage.groups.lookup id :=
    congrFun (congrArg Prod.fst halike.storage) id
  simp only [Inner.groupAt, h.groups, session?_eq_some.mp hs₀, session?_eq_some.mp ht,
    Option.bind_eq_bind, Option.bind_some, ClientState.install, hinstall, hlookup]

/-- The cursor moves. -/
theorem cursor (h : inner.Idle s shell after) (seq : UInt64) :
    inner.Idle { s with cursor := seq } shell (after.mapSession (SessionUpdate.cursor seq).apply) := by
  obtain ⟨t, ht, halike⟩ := h.session
  refine ⟨⟨{ t with cursor := seq }, by rw [session?_mapSession, ht]; rfl, ?_, halike.store,
    halike.storage⟩, ?_, ?_, ?_, ?_⟩
  · exact congrArg (fun s : HomeSession ↦ { s with cursor := seq }) halike.frame
  all_goals unfold mapSession
  all_goals rw [session?_eq_some.mp ht]
  exacts [h.groups, h.shell, h.pending, h.minted]

/-- So does the time of the next cover message. -/
theorem coverNext (h : inner.Idle s shell after) (ms : ℕ) :
    inner.Idle s shell (after.mapSession (SessionUpdate.coverNext ms).apply) := by
  obtain ⟨t, ht, halike⟩ := h.session
  refine ⟨⟨{ t with coverNextMs := ms }, by rw [session?_mapSession, ht]; rfl, halike.frame,
    halike.store, halike.storage⟩, ?_, ?_, ?_, ?_⟩
  all_goals unfold mapSession
  all_goals rw [session?_eq_some.mp ht]
  exacts [h.groups, h.shell, h.pending, h.minted]

/-- The ratchets are written back as they were. -/
theorem store (h : inner.Idle s shell after) {store : SignalStore}
    (hstore : store.content = s.install.store.content) :
    inner.Idle s shell (after.mapInstall fun install ↦ { install with store }) := by
  obtain ⟨t, ht, halike⟩ := h.session
  exact ⟨⟨{ t with install := { t.install with store } }, by rw [session?_mapInstall, ht]; rfl,
    halike.frame, hstore, halike.storage⟩, h.groups, h.shell, h.pending, h.minted⟩

/-- A group is written back as it was. -/
theorem setGroupAt (hs : inner.session?.map (·.install) = some s.install) (h : inner.Idle s shell after) {i : ℕ} {g : Group}
    (hg : inner.groupAt i = some g) : inner.Idle s shell (after.setGroupAt i g) := by
  obtain ⟨t, ht, halike⟩ := h.session
  have hafter : after.groupAt i = some g := (h.groupAt hs i).trans hg
  obtain ⟨-, state, -, hstate, -, hmls⟩ := groupAt_eq_some.mp hafter
  rw [session?_eq_some.mp ht] at hstate
  cases hstate
  have hsame := same_setGroupAt hafter
  refine ⟨⟨{ t with install := t.install.storeMls g.mlsGroupId g.mls }, ?_, halike.frame,
    halike.store, ?_⟩, hsame.groups.trans h.groups, hsame.shell.trans h.shell, h.pending, h.minted⟩
  · have hmap := session?_mapInstall after fun install ↦ install.storeMls g.mlsGroupId g.mls
    rw [ht] at hmap
    exact hmap
  · calc
      (t.install.storeMls g.mlsGroupId g.mls).mlsStorage.content = t.install.mlsStorage.content := by
        refine Prod.ext ?_ rfl
        funext id
        simp only [Installation.storeMls, MlsStorage.content, FiniteMap.lookup_insert_ite]
        split_ifs with hid
        · rw [hid]
          exact hmls.symm
        · rfl
      _ = s.install.mlsStorage.content := halike.storage

/-- The conversations change. -/
theorem onShell (h : inner.Idle s shell after) (f : Shell → Shell) :
    inner.Idle s (f shell) { after with shell := f after.shell } :=
  ⟨h.session, h.groups, congrArg f h.shell, h.pending, h.minted⟩

end Inner.Idle

/-! ## Rows and groups -/

/-- The row is a Welcome. -/
def MailboxRow.IsWelcome (p : Outside) (row : MailboxRow) : Prop :=
  row.inner.paddedMessage.type = .mlsHandshake ∧
    p.openMls.isWelcome row.inner.paddedMessage.body = true

/-- The row is shown to every group. -/
def MailboxRow.Asks (p : Outside) (row : MailboxRow) : Prop :=
  match row.inner.paddedMessage.type with
  | .mlsHandshake => p.openMls.isWelcome row.inner.paddedMessage.body = false
  | .removeBundle => ∃ bundle, RemoveBundle.decode row.inner.paddedMessage.body = .ok bundle
  | .signingKeyReplace | .mlsApp => True
  | _ => False

/-- The group refuses the row with an error, and stays as it is. -/
def Group.Refuses (p : Outside) (g : Group) (groupId : Key) (row : MailboxRow) (e : CoreError) :
    Prop :=
  let body := row.inner.paddedMessage.body
  match row.inner.paddedMessage.type with
  | .mlsHandshake => ∀ ms, g.applyHandshake p.openMls body ms = (.error e, g)
  | .signingKeyReplace => g.applySigningKeyReplace p.crypto body = (.error e, g)
  | .mlsApp => g.decryptWithSender p.crypto p.openMls body = (.error e, g)
  | .removeBundle => ∀ bundle, RemoveBundle.decode body = .ok bundle →
    ∀ ms, g.applyRemoveBundle p.crypto p.openMls groupId bundle ms = (.error e, g)
  | _ => True

/-- The message is of an epoch of the group that is over. -/
def Group.IsOver (p : Outside) (g : Group) (message : Bytes) : Prop :=
  (p.openMls.messageEpoch message).any (· < g.mls.epoch) = true

/-- The error says that the group may take the row later. -/
def Group.Lasting (p : Outside) (g : Group) (row : MailboxRow) (e : CoreError) : Prop :=
  match row.inner.paddedMessage.type with
  | .mlsHandshake =>
    e.mlsRetryable = true ∧ ¬(e = .mlsWrongEpoch ∧ g.IsOver p row.inner.paddedMessage.body)
  | .mlsApp | .removeBundle => e.mlsRetryable = true
  | _ => False

namespace Inner

/-- Every group refuses the row when it is shown to them, and no pending join opens it. -/
structure Refuses (p : Outside) (inner : Inner) (install : Installation) (row : MailboxRow) :
    Prop where
  groups : row.Asks p → ∀ i < inner.groups.length, ∃ live g e, inner.groups[i]? = some live ∧
    inner.groupAt i = some g ∧ g.Refuses p live.host.groupId row e
  joins : row.IsWelcome p → ∀ entry ∈ inner.pending.entries,
    p.openMls.welcomeMatches entry.2.pending.keyPackage row.inner.paddedMessage.body = true →
    ∀ storage : MlsStorage, storage.content = install.mlsStorage.content →
      ∃ text, p.openMls.join storage entry.2.pending.keyPackage row.inner.paddedMessage.body =
        .error text

/-- The group of a live group refuses the row for now. -/
def PutsOff (p : Outside) (inner : Inner) (row : MailboxRow) (i : ℕ) : Prop :=
  ∃ live g e, inner.groups[i]? = some live ∧ inner.groupAt i = some g ∧
    g.Refuses p live.host.groupId row e ∧ g.Lasting p row e

/-- A group may take the row later, or a pending join that it is for. -/
def Waits (p : Outside) (inner : Inner) (row : MailboxRow) : Prop :=
  (row.Asks p ∧ ∃ i < inner.groups.length, inner.PutsOff p row i) ∨
  (row.IsWelcome p ∧ ∃ entry ∈ inner.pending.entries,
    p.openMls.welcomeMatches entry.2.pending.keyPackage row.inner.paddedMessage.body = true)

end Inner

/-- A group answers a row with one error. -/
theorem Group.Refuses.unique {g : Group} {groupId : Key} {row : MailboxRow} {e e' : CoreError}
    (hasks : row.Asks p) (h : g.Refuses p groupId row e) (h' : g.Refuses p groupId row e') :
    e' = e := by
  unfold MailboxRow.Asks at hasks
  unfold Group.Refuses at h h'
  cases htype : row.inner.paddedMessage.type <;> simp only [htype] at hasks h h'
  case mlsApp => exact Except.error.inj (congrArg Prod.fst (h'.symm.trans h))
  case signingKeyReplace => exact Except.error.inj (congrArg Prod.fst (h'.symm.trans h))
  case mlsHandshake => exact Except.error.inj (congrArg Prod.fst ((h' 0).symm.trans (h 0)))
  case removeBundle =>
    obtain ⟨bundle, hdecode⟩ := hasks
    exact Except.error.inj
      (congrArg Prod.fst ((h' bundle hdecode 0).symm.trans (h bundle hdecode 0)))

section

variable {inner : Inner} {s : HomeSession} {shell : Shell} {w : World} {row : MailboxRow}

end

/-! ## Rows and sessions -/

/-- A message could be from the peer: it has the identity key of a first message, or it is one of the
peers that are tried one after the other. -/
def HomeSession.MayBeFrom (p : Outside) (s : HomeSession) (ciphertext : Bytes)
    (peer : IdentityId) : Prop :=
  match p.libsignal.preKeyIdentity ciphertext with
  | some theirs =>
    s.install.store.known.lookup peer = some theirs ∨ peer = p.crypto.sha256 theirs
  | none => peer ∈ s.contacts ∨ peer ∈ s.install.store.sessions ∨ peer ∈ s.install.store.known

/-- No session opens what the row brings, and those that are tried stay as they are. -/
def HomeSession.Unread (p : Outside) (s : HomeSession) (row : MailboxRow) : Prop :=
  row.inner.paddedMessage.type = .doubleRatchet ∨ row.inner.paddedMessage.type = .attachmentDr →
    ∀ ciphertext, parsePaddedDr p row.inner.paddedMessage.body = .ok ciphertext →
    ∀ peer, s.MayBeFrom p ciphertext peer →
    ∀ store : SignalStore, store.content = s.install.store.content → ∀ seed, ∃ text,
      p.libsignal.decrypt store peer ciphertext seed =
        (.error text, store.peer peer, store.preKeyStores)

section

variable {inner : Inner} {s : HomeSession} {shell : Shell} {w : World} {row : MailboxRow}

end

/-! ## The first pass -/

/-- How often a row has been put off. -/
def Shell.triesOf (shell : Shell) (seq : UInt64) : UInt8 := (shell.mailboxRetries.lookup seq).getD 0

/-- The groups are done with the first rows of a batch and put the next one off, not for the eighth
time; what is acked then is not behind a gap and brings nothing a session opens. -/
structure Inner.Spares (p : Outside) (inner : Inner) (s : HomeSession)
    (done waiting : List MailboxRow) : Prop where
  refused : ∀ row ∈ done, inner.Refuses p s.install row ∧ ¬inner.Waits p row
  putOff : ∀ row ∈ waiting.head?, inner.Refuses p s.install row ∧ inner.Waits p row ∧
    (inner.shell.triesOf row.seq).toNat + 1 < mailboxMlsRetries.toNat
  near : ∀ first ∈ done.head?, messagesLost s.cursor first.seq = false
  unread : done ≠ [] → ∀ row ∈ done ++ waiting, row.seq ≤ cursorAfter s.cursor done →
    s.Unread p row

section

variable {inner : Inner} {s : HomeSession} {shell : Shell} {w : World} {selfHex : String}

end

/-! ## The whole batch -/

section

variable {inner : Inner} {s : HomeSession} {shell : Shell} {w : World}

/-- The operations of a cover message: what it draws and sends, and when the next one is due. -/
def Op.Covers : ∀ γ : Type, Op γ → Prop
  | _, .memory | _, .clock | _, .draw | _, .uniform .. | _, .send .. => True
  | _, .session (.coverNext _) => True
  | _, _ => False

end

end NemoMessenger.Client
