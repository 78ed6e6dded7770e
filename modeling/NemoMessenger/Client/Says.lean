import NemoMessenger.Client.Accounts
import NemoMessenger.Client.Edit
import NemoMessenger.Client.Refusal

/-!
# What the mailbox says

A row of the mailbox says a message if a group or a ratchet opens it. In what state they are when a
fetch comes to the row depends on the rows before it, but the groups are known from the start: the
client has them, or is about to join them.
-/

namespace NemoMessenger.Client

open NemoMessenger.Data NemoMessenger.Wire
open Program (Keeps Only act attempt ofExcept forEach run)

variable {p : Outside} {env : Environment} {w t : World}

/-! ## Groups -/

/-- The client has the MLS group for the host group, or is about to join one for it. -/
def World.Hosts (w : World) (id : Key) (mlsId : Bytes) : Prop :=
  (∃ live ∈ w.inner.groups, live.host.groupId = id ∧ live.mls.mlsGroupId = mlsId) ∨
    (w.inner.pending.lookup id).isSome

/-- The host group and the MLS group. -/
def LiveGroup.ids (live : LiveGroup) : Key × Bytes := (live.host.groupId, live.mls.mlsGroupId)

/-- The groups and joins of the world `t` go back to those of `w`. -/
structure World.Traces (w t : World) : Prop where
  groups : ∀ live ∈ t.inner.groups, w.Hosts live.host.groupId live.mls.mlsGroupId
  pending : ∀ id, (t.inner.pending.lookup id).isSome → (w.inner.pending.lookup id).isSome

/-- Any operation but those that take groups and joins in. -/
def Op.Steady : (β : Type) → Op β → Prop
  | _, enroll .. => False
  | _, pending _ => False
  | _, _ => True

/-- The program takes no groups and joins in. -/
abbrev Steady {α : Type} (q : SessionM α) : Prop := Only Op.Steady q

namespace Inner

variable (inner : Inner)

theorem groups_mapSession (f : HomeSession → HomeSession) :
    (inner.mapSession f).groups = inner.groups := by
  unfold mapSession
  split <;> rfl

theorem pending_mapSession (f : HomeSession → HomeSession) :
    (inner.mapSession f).pending = inner.pending := by
  unfold mapSession
  split <;> rfl

theorem pending_setNickname (groupId : Key) (name : String) :
    (inner.setNickname groupId name).pending = inner.pending := by
  unfold setNickname
  split <;> rfl

end Inner

/-- An element of a list with a change at one position, where the change keeps something. -/
theorem exists_of_mem_modify {α β : Type} (key : α → β) {l : List α} {i : ℕ} {f : α → α} {b : α}
    (hkey : ∀ a, l[i]? = some a → key (f a) = key a) (h : b ∈ l.modify i f) :
    ∃ a ∈ l, key b = key a := by
  obtain ⟨j, hj⟩ := List.getElem?_of_mem h
  rw [List.getElem?_modify] at hj
  obtain ⟨a, ha, hb⟩ := Option.map_eq_some_iff.mp hj
  refine ⟨a, List.mem_of_getElem? ha, ?_⟩
  rw [← hb]
  split_ifs with hij
  · exact hkey a (hij ▸ ha)
  · rfl

namespace World.Traces

theorem refl (w : World) : w.Traces w where
  groups live hlive := .inl ⟨live, hlive, rfl, rfl⟩
  pending _ hid := hid

/-- A world with the same groups, but for what does not tell which they are, and the same joins. -/
theorem of_ids {u : World} (h : w.Traces t) (hpending : u.inner.pending = t.inner.pending)
    (hgroups : ∀ live ∈ u.inner.groups, ∃ old ∈ t.inner.groups, live.ids = old.ids) :
    w.Traces u where
  groups live hlive := by
    obtain ⟨old, hold, hids⟩ := hgroups live hlive
    have hhost : live.host.groupId = old.host.groupId := congrArg Prod.fst hids
    have hmls : live.mls.mlsGroupId = old.mls.mlsGroupId := congrArg Prod.snd hids
    rw [hhost, hmls]
    exact h.groups old hold
  pending id hid := h.pending id (hpending ▸ hid)

theorem of_same {u : World} (h : w.Traces t) (hgroups : u.inner.groups = t.inner.groups)
    (hpending : u.inner.pending = t.inner.pending) : w.Traces u :=
  h.of_ids hpending fun live hlive ↦ ⟨live, hgroups ▸ hlive, rfl⟩

/-- What takes no groups and joins in leaves groups that go back to those there were. -/
theorem effect (h : w.Traces t) {β : Type} {o : Op β} (ho : o.Steady) :
    w.Traces (o.effect p env t).2 := by
  cases o with
  | enroll | pending => exact ho.elim
  | session update =>
    exact h.of_same (t.inner.groups_mapSession _) (t.inner.pending_mapSession _)
  | nickname groupId name =>
    refine h.of_ids (t.inner.pending_setNickname _ _) fun live hlive ↦ ?_
    simp only [Op.effect, Inner.setNickname] at hlive
    split at hlive
    · refine exists_of_mem_modify LiveGroup.ids ?_ hlive
      exact fun _ _ ↦ rfl
    · exact ⟨live, hlive, rfl⟩
  | group i op =>
    simp only [Op.effect]
    cases hg : t.inner.groupAt i with
    | none => exact h
    | some g =>
      refine h.of_ids rfl fun live hlive ↦ exists_of_mem_modify LiveGroup.ids (fun old hold ↦ ?_) hlive
      obtain ⟨live', _, hlive', -, hrecord, -⟩ := Inner.groupAt_eq_some.mp hg
      rw [hlive'] at hold
      cases hold
      rw [LiveGroup.ids, LiveGroup.ids, hrecord]
      exact congrArg (old.host.groupId, ·) (op.mlsGroupId_run _ g)
  | ratchet op =>
    simp only [Op.effect]
    split
    · exact h
    · exact h.of_same rfl rfl
  | install op =>
    simp only [Op.effect]
    split
    · exact h
    · exact h.of_same rfl rfl
  | _ => exact h.of_same rfl rfl

/-- A group that is joined is one of the joins. -/
theorem enroll (h : w.Traces t) {u : World} {host : HostGroup} {g : NewGroup} {name : String}
    (hhost : (w.inner.pending.lookup host.groupId).isSome)
    (hu : u.inner = t.inner.enroll host g name) : w.Traces u := by
  unfold Inner.enroll at hu
  split at hu
  · exact h.of_same (congrArg Inner.groups hu) (congrArg Inner.pending hu)
  · refine ⟨fun live hlive ↦ ?_, fun id hid ↦ h.pending id ?_⟩
    · rw [hu] at hlive
      rcases List.mem_append.mp hlive with hlive | hlive
      · exact h.groups live (by rwa [← t.inner.groups_mapSession])
      · rw [List.mem_singleton.mp hlive]
        exact .inr hhost
    · rw [hu] at hid
      rwa [← t.inner.pending_mapSession]

theorem keeps {α : Type} {q : SessionM α} (hq : Steady q) : Keeps (inside p env) w.Traces q :=
  hq.keeps fun _ _ ho ht ↦ (ht.effect ho).of_same rfl rfl

end World.Traces

/-! ## Programs that take no groups in -/

section

@[grind ←] theorem Messaging.steady {α : Type} {q : SessionM α} (h : Messaging q) : Steady q :=
  h.mono fun _ op hop ↦ by
    cases op <;> trivial

end

/-! ## Welcomes -/

/-- The row says the message: a group opens it, or a ratchet does, whatever state they are in. -/
inductive MailboxRow.Says (p : Outside) (w : World) (row : MailboxRow) : Opened → Prop
  | group {g : Group} {id : Key} {sender : IdentityId} {plaintext : Bytes} {message : AppMessage}
      (htype : row.inner.paddedMessage.type = .mlsApp) (hhosts : w.Hosts id g.mlsGroupId)
      (hopens : (g.decryptWithSender p.crypto p.openMls row.inner.paddedMessage.body).1 =
        .ok (plaintext, sender))
      (hdecode : p.formats.decode plaintext = .ok message) :
      Says p w row ⟨true, toHex id.data, toHex sender.data, message⟩
  | peer {store : SignalStore} {peer : IdentityId} {ciphertext seed plaintext : Bytes}
      {message : AppMessage} (htype : row.inner.paddedMessage.type ≠ .mlsApp)
      (hciphertext : parsePaddedDr p row.inner.paddedMessage.body = .ok ciphertext)
      (hopens : (p.libsignal.decrypt store peer ciphertext seed).1 = .ok plaintext)
      (hdecode : p.formats.decode plaintext = .ok message) :
      Says p w row ⟨false, toHex peer.data, toHex peer.data, message⟩

/-- The row is one for the groups. -/
def MailboxRow.ofGroup (row : MailboxRow) : Bool := row.inner.paddedMessage.type = .mlsApp

/-- The message introduces the peer as another identity. -/
def AppBody.Introduces : AppBody → Prop
  | .capability _ intro => intro.isSome
  | _ => False

namespace Opened

/-- A text or a file of a group. -/
def Signed (m : Opened) : Prop :=
  m.group = true ∧ match m.message.body with
    | .text _ | .attachment _ _ (some _) => True
    | _ => False

/-- The message has the number or quotes it, or reacts to the message that has it. -/
def RefersTo (m : Opened) (target : UInt64) : Prop :=
  match m.message.body with
  | .reaction about _ => about = target
  | .delete _ => False
  | _ => m.message.header.convSeq = target ∨ m.message.header.replyTo = some target ∧ target ≠ 0

/-- A later message of the conversation leaves what the message shows as it is: reactions have numbers
of their own, nobody reacts twice in the same way to the same message, and what is deleted is something
else. -/
structure Spares (m later : Opened) : Prop where
  number : ∀ target emoji target' emoji', m.message.body = .reaction target emoji →
    later.message.body = .reaction target' emoji' →
      m.message.header.convSeq ≠ later.message.header.convSeq
  reaction : ∀ target emoji, m.message.body = .reaction target emoji →
    later.message.body = .reaction target emoji → m.sender ≠ later.sender
  deletion : ∀ target, later.message.body = .delete target → ¬m.RefersTo target

end Opened

/-- Messages of one conversation, or of two that an introduction may make one. -/
def Opened.Meets (introduced : Prop) (m m' : Opened) : Prop := m.conv = m'.conv ∨ introduced

/-- The rows of a page in the order in which they are opened: those for the groups first. -/
def inOrder (page : List MailboxRow) : List MailboxRow :=
  page.filter (·.ofGroup) ++ page.filter (!·.ofGroup)

/-- The page introduces a peer as another identity. -/
def World.Introduces (p : Outside) (w : World) (page : List MailboxRow) : Prop :=
  ∃ row ∈ page, ∃ m, row.Says p w m ∧ m.message.body.Introduces

/-- What is known before a fetch: the rows of the inbox, what the rows of the mailbox say, and whether one
of them introduces a peer as another identity. -/
structure Outset where
  before : List DisplayRow
  carries : MailboxRow → Opened → Prop
  introduced : Prop

/-- The messages of the rows are stored as they are returned: none is a text or a file of a group, no
reaction has the number of another of its conversation, in the inbox or among them, and none has what it
shows taken away by a later one. -/
structure Outset.Spared (o : Outset) (said : List MailboxRow) : Prop where
  content : ∀ row ∈ said, ∀ m, o.carries row m → ¬m.Signed
  numbers : ∀ row ∈ said, ∀ m, o.carries row m → ∀ target emoji,
    m.message.body = .reaction target emoji → ∀ r ∈ o.before, r.kind = .reaction →
      (r.convId = m.conv ∨ o.introduced) → r.convSeq ≠ m.message.header.convSeq
  later : said.Pairwise fun row row' ↦ ∀ m m', o.carries row m → o.carries row' m' →
    m.Meets o.introduced m' → m.Spares m'

/-- What is known before a fetch that is answered with the page. -/
def World.outset (p : Outside) (w : World) (page : List MailboxRow) : Outset where
  before := w.inner.shell.inbox
  carries := MailboxRow.Says p w
  introduced := w.Introduces p page

/-- Whatever rows the home answers the next fetch with, and whatever opens them, their messages are stored
as they are returned. -/
def World.Spared (p : Outside) (env : Environment) (w : World) : Prop :=
  ∀ s tick page, w.inner.session? = some s →
    env.answer tick s.homeBase (.fetchMailbox s.cursor) = .ok page →
      (w.outset p page).Spared (inOrder page)

end NemoMessenger.Client
