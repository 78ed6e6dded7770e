import NemoMessenger.Client.Ack
import NemoMessenger.Client.Counter
import NemoMessenger.Client.Watch

/-!
# The numbers of a conversation

Over a run of calls with messages of any content, a record is kept of every change to the shell. Every
number that is taken up is larger than all there were in its conversation, and no mark exceeds a counter
or goes back, as long as counters do not run over, a conversation that goes on as another has no marks
and is not used again, and the vault is not opened with less than was last in memory.
-/

namespace NemoMessenger.Client

open NemoMessenger.Data NemoMessenger.Wire
open Program (Keeps act attempt ofExcept)

/-! ## The record -/

/-- How the shell was changed, unless it was loaded, and what it was then. -/
structure Moment where
  change : Option (Shell → Shell)
  shell : Shell

/-- The shells there were, the last first. -/
def shells : List Moment → List Shell
  | [] => [.empty]
  | m :: past => m.shell :: shells past

def standing : List Moment → Shell
  | [] => .empty
  | m :: _ => m.shell

/-- What an action adds to the record. -/
def noted : {γ : Type} → Act γ → World → γ → List Moment → List Moment
  | _, .op (.shell f), w, _, past => ⟨some f, f w.inner.shell⟩ :: past
  | _, .reload, w, _, past => ⟨none, w.vault.load.inner.shell⟩ :: past
  | _, _, _, _, past => past

/-- Every moment of the record has a property, which may depend on the moments before it. -/
def Throughout (P : Moment → List Moment → Prop) : List Moment → Prop
  | [] => True
  | m :: past => P m past ∧ Throughout P past

/-- The counter of a conversation has been taken away when it stood at a number: the conversation went
on as another, or the vault was opened with less. -/
inductive Lost (conv : String) : List Moment → UInt64 → Prop
  | upgraded {m : Moment} {past : List Moment} {f : Shell → Shell} (hf : m.change = some f)
    (h : Upgrades f conv) : Lost conv (m :: past) ((standing past).seqOf conv)
  | reopened {m : Moment} {past : List Moment} (hm : m.change = none)
    (h : m.shell.seqOf conv < (standing past).seqOf conv) :
    Lost conv (m :: past) ((standing past).seqOf conv)
  | before {m : Moment} {past : List Moment} {n : UInt64} (h : Lost conv past n) :
    Lost conv (m :: past) n

/-- The condition on a moment. A counter that is taken up has not run over and is not behind one that
was taken away, a conversation that goes on as another has no marks, and the marks in a vault that is
opened are those that were last in memory. -/
structure Moment.Spares (m : Moment) (past : List Moment) : Prop where
  bears : ∀ f, m.change = some f → (standing past).Bears f
  regained : ∀ f conv, m.change = some f → Allocates f conv → ∀ n, Lost conv past n →
    n ≤ (standing past).seqOf conv
  saved : m.change = none → ∀ conv kind, m.shell.mark conv kind = (standing past).mark conv kind

/-- A number that is taken up is larger than all numbers and marks of its conversation, and no mark
exceeds its counter or goes back. -/
structure Moment.Rises (m : Moment) (past : List Moment) : Prop where
  counters : ∀ f conv, m.change = some f → Allocates f conv → ∀ s ∈ shells past,
    s.seqOf conv < m.shell.seqOf conv
  rows : ∀ f conv, m.change = some f → Allocates f conv → ∀ s ∈ shells past, ∀ row ∈ s.inbox,
    row.convId = conv → row.convSeq < m.shell.seqOf conv
  unseen : ∀ f conv, m.change = some f → Allocates f conv → ∀ kind,
    m.shell.mark conv kind < m.shell.seqOf conv
  clamped : ∀ conv kind, m.shell.mark conv kind ≤ m.shell.seqOf conv
  onward : ∀ conv kind, (standing past).mark conv kind ≤ m.shell.mark conv kind

/-! ## The invariant -/

/-- The shell that has what was saved. -/
def InboxEntry.shell (entry : InboxEntry) : Shell :=
  { Shell.empty with
    inbox := entry.rows, nextSeq := entry.nextSeq, acked := entry.acked, read := entry.read,
    groupRead := entry.groupRead }

/-- The record rises, nothing in memory or in the vault was ever beyond its counter, and a counter is
only behind what it was where it was taken away. -/
structure Tallied (saved : Option InboxEntry) (record : List Moment) : Prop where
  rises : Throughout Moment.Rises record
  counted : ∀ s ∈ shells record, s.Counted
  saved : ∀ entry ∈ saved, entry.shell.Counted
  bounded : ∀ conv, ∀ s ∈ shells record, s.seqOf conv ≤ (standing record).seqOf conv ∨
    ∃ n, Lost conv record n ∧ s.seqOf conv ≤ n

theorem standing_mem_shells (record : List Moment) : standing record ∈ shells record := by
  cases record <;> exact List.mem_cons_self

theorem counted_saved_shell {s : Shell} (h : s.Counted) : s.saved.shell.Counted :=
  (@Shell.Counted.clamp s s.saved.shell h rfl rfl fun conv kind ↦
    .inl (Shell.mark_congr rfl rfl rfl conv kind)).2

theorem counted_load {vault : Vault} (h : ∀ entry ∈ vault.inbox, entry.shell.Counted) :
    vault.load.inner.shell.Counted := by
  have hentry : (vault.inbox.getD ⟨[], ∅, ∅, ∅, ∅⟩).shell.Counted := by
    cases hsaved : vault.inbox with
    | none => exact ⟨nofun, fun conv kind ↦ by cases kind <;> exact UInt64.le_refl _⟩
    | some entry => exact h entry hsaved
  refine ⟨fun row hrow ↦ ?_, fun conv kind ↦ ?_⟩
  · obtain ⟨old, hold, rfl⟩ := List.mem_map.mp (hrow :
      row ∈ Shell.dropLegacyTombstones (vault.inbox.getD ⟨[], ∅, ∅, ∅, ∅⟩).rows)
    have hle := hentry.rows old (List.mem_filter.mp hold).1
    split_ifs <;> exact hle
  · have hmark : vault.load.inner.shell.mark conv kind =
        (vault.inbox.getD ⟨[], ∅, ∅, ∅, ∅⟩).shell.mark conv kind :=
      Shell.mark_congr rfl rfl rfl conv kind
    rw [hmark]
    exact hentry.marks conv kind

namespace Tallied

variable {saved : Option InboxEntry} {record : List Moment} {f : Shell → Shell}

theorem change (h : Tallied saved record) (hgrown : (standing record).Grown f)
    (hspares : Moment.Spares ⟨some f, f (standing record)⟩ record) :
    Tallied saved (⟨some f, f (standing record)⟩ :: record) where
  rises := by
    have hnext {f' : Shell → Shell} {conv : String} (hf : some f = some f') (ha : Allocates f' conv) :
        (standing record).seqOf conv < (f (standing record)).seqOf conv := by
      have hmax := (hspares.bears f rfl).allocates conv (Option.some.inj hf ▸ ha)
      rw [Option.some.inj hf, ha, Shell.seqOf_bumpSeq, if_pos rfl]
      exact UInt64.lt_add_one hmax
    have hcounters {f' : Shell → Shell} {conv : String} (hf : some f = some f')
        (ha : Allocates f' conv) {s : Shell} (hs : s ∈ shells record) :
        s.seqOf conv ≤ (standing record).seqOf conv := by
      rcases h.bounded conv s hs with hle | ⟨n, hlost, hle⟩
      · exact hle
      · exact UInt64.le_trans hle (hspares.regained f' conv hf ha n hlost)
    refine ⟨⟨fun f' conv hf ha s hs ↦ ?_, fun f' conv hf ha s hs row hrow hconv ↦ ?_,
      fun f' conv hf ha kind ↦ ?_, hgrown.counted.marks, hgrown.marks⟩, h.rises⟩
    · exact UInt64.lt_of_le_of_lt (hcounters hf ha hs) (hnext hf ha)
    · have hle := (h.counted s hs).rows row hrow
      rw [hconv] at hle
      exact UInt64.lt_of_le_of_lt (UInt64.le_trans hle (hcounters hf ha hs)) (hnext hf ha)
    · have hmark : (f (standing record)).mark conv kind = (standing record).mark conv kind := by
        rw [Option.some.inj hf, ha]
        exact Shell.mark_congr rfl rfl rfl conv kind
      dsimp only
      rw [hmark]
      exact UInt64.lt_of_le_of_lt ((h.counted _ (standing_mem_shells record)).marks conv kind)
        (hnext hf ha)
  counted := List.forall_mem_cons.mpr ⟨hgrown.counted, h.counted⟩
  saved := h.saved
  bounded conv s hs := by
    rcases List.mem_cons.mp hs with rfl | hs
    · exact .inl (UInt64.le_refl _)
    · rcases h.bounded conv s hs with hle | ⟨n, hlost, hle⟩
      · rcases hgrown.counters conv with hup | hup
        · exact .inl (UInt64.le_trans hle hup)
        · exact .inr ⟨_, .upgraded rfl hup, hle⟩
      · exact .inr ⟨n, .before hlost, hle⟩

theorem reload {vault : Vault} (h : Tallied vault.inbox record)
    (hspares : Moment.Spares ⟨none, vault.load.inner.shell⟩ record) :
    Tallied vault.inbox (⟨none, vault.load.inner.shell⟩ :: record) where
  rises := by
    have hcounted := counted_load h.saved
    refine ⟨⟨nofun, nofun, nofun, hcounted.marks, fun conv kind ↦ ?_⟩, h.rises⟩
    rw [← hspares.saved rfl]
    exact UInt64.le_refl _
  counted := List.forall_mem_cons.mpr ⟨counted_load h.saved, h.counted⟩
  saved := h.saved
  bounded conv s hs := by
    rcases List.mem_cons.mp hs with rfl | hs
    · exact .inl (UInt64.le_refl _)
    · rcases h.bounded conv s hs with hle | ⟨n, hlost, hle⟩
      · by_cases hup : (standing record).seqOf conv ≤ vault.load.inner.shell.seqOf conv
        · exact .inl (UInt64.le_trans hle hup)
        · exact .inr ⟨_, .reopened rfl (UInt64.not_le.mp hup), hle⟩
      · exact .inr ⟨n, .before hlost, hle⟩

end Tallied

theorem tallied_start {saved : Option InboxEntry}
    (h : ∀ entry ∈ saved, entry = Shell.empty.saved) : Tallied saved [] := by
  have hempty : Shell.empty.Counted :=
    ⟨nofun, fun conv kind ↦ by cases kind <;> exact UInt64.le_refl _⟩
  refine ⟨trivial, List.forall_mem_singleton.mpr hempty, fun entry hentry ↦ ?_, fun conv s hs ↦ ?_⟩
  · rw [h entry hentry]
    exact counted_saved_shell hempty
  · rw [List.mem_singleton.mp hs]
    exact .inl (UInt64.le_refl _)

/-! ## The methods -/

section

variable {p : Outside} {env : Environment} {α β : Type} {conv : String} {n : UInt64}

/-- The invariant, as long as the moments meet the condition. -/
def Good (saved : Option InboxEntry) (record : List Moment) : Prop :=
  Throughout Moment.Spares record → Tallied saved record

/-- The last moment left the shell that is in memory. -/
def Standing (shell : Shell) (saved : Option InboxEntry) (record : List Moment) : Prop :=
  shell = standing record ∧ Good saved record

def Current (s : World × List Moment) : Prop := Standing s.1.inner.shell s.1.vault.inbox s.2

theorem Current.change {f : Shell → Shell} {w : World} {record : List Moment}
    (h : Current (w, record))
    (hgrown : Moment.Spares ⟨some f, f (standing record)⟩ record → (standing record).Counted →
      (standing record).Grown f) :
    Current ({ w with inner := { w.inner with shell := f w.inner.shell } },
      ⟨some f, f w.inner.shell⟩ :: record) := by
  obtain ⟨hshell, hgood⟩ := h
  dsimp only at hshell
  rw [hshell]
  refine ⟨rfl, fun hspares ↦ ?_⟩
  have htallied := hgood hspares.2
  exact htallied.change (hgrown hspares.1 (htallied.counted _ (standing_mem_shells record)))
    hspares.1

theorem guards_current : Guards p env noted (Shell.Change False True) Current := by
  refine .of_shell ?_ ?_ ?_ ?_
  · intro f hf w record h
    exact Current.change h fun hspares hcounted ↦ hf.grown hcounted (hspares.bears f rfl)
  · intro β action w answer record hoff
    cases action with
    | op o =>
      cases o with
      | shell f => exact absurd trivial hoff
      | _ => rfl
    | reload => exact absurd trivial hoff
    | _ => rfl
  · rintro shell saved record ⟨rfl, h⟩
    refine ⟨rfl, fun hspares ↦ ?_⟩
    have htallied := h hspares
    refine ⟨htallied.rises, htallied.counted, ?_, htallied.bounded⟩
    rintro entry ⟨⟩
    exact counted_saved_shell (htallied.counted _ (standing_mem_shells record))
  · intro w record h
    exact ⟨rfl, fun hspares ↦ (h.2 hspares.2).reload hspares.1⟩

/-! ## Rows of one's own

Between taking up a number and appending the row under it, the counter stays. -/

/-- The counter of the conversation stands at a number. -/
def At (conv : String) (n : UInt64) (s : World × List Moment) : Prop :=
  Current s ∧ s.1.inner.shell.seqOf conv = n

/-- Wherever it is cut off, the program has appended rows under that number at most. -/
def AppendsAt (p : Outside) (env : Environment) (conv : String) (n : UInt64) (q : SessionM α) : Prop :=
  ∀ s t, At conv n s → Program.Visits ((watch p env noted).comap Act.op) q s t → Current t

theorem keeps_at {q : SessionM α} (hq : Within Shell.SetsAside q) :
    Keeps ((watch p env noted).comap Act.op) (At conv n) q := by
  refine hq.keeps fun {γ} o s ho hs ↦ ⟨?_, ?_⟩
  · refine guards_current.op o s ?_ hs.1
    cases o with
    | shell f => exact .edit fun s ↦ .aside (ho s)
    | _ => trivial
  · have hframes : Op.Frames Shell.nextSeq γ o := by
      cases o with
      | shell f => exact fun s ↦ (ho s).nextSeq
      | _ => trivial
    have hnext : (o.effect p env s.1).2.inner.shell.nextSeq = s.1.inner.shell.nextSeq :=
      Op.view_effect hframes s.1
    change ((o.effect p env s.1).2.inner.shell.nextSeq.lookup conv).getD 0 = n
    rw [hnext]
    exact hs.2

namespace AppendsAt

theorem bind {q : SessionM α} {f : α → SessionM β} (hq : Within Shell.SetsAside q)
    (hf : ∀ a, AppendsAt p env conv n (f a)) : AppendsAt p env conv n (q >>= f) :=
  fun _ _ hs ht ↦ (keeps_at hq).visits_bind (fun _ h ↦ h.1) (fun a s t ↦ hf a s t) hs ht

theorem pure (a : α) : AppendsAt p env conv n (Pure.pure a : SessionM α) := by
  intro s t hs ht
  rw [Program.visits_pure.mp ht]
  exact hs.1

theorem append {row : DisplayRow} (a : α) (hconv : row.convId = conv) (hseq : row.convSeq = n) :
    AppendsAt p env conv n (do pushOutgoing row; Pure.pure a) := by
  rintro ⟨w, record⟩ t ⟨hs, hn⟩ ht
  have hrow : row.convSeq ≤ (standing record).seqOf row.convId := by
    rw [hconv, hseq, ← hs.1, ← hn]
    exact UInt64.le_refl _
  have hpushed := hs.change fun _ hcounted ↦ hcounted.append hrow
  rcases Program.visits_bind.mp ht with hpush | ⟨_, s', hpush, hlater⟩
  · rcases Program.visits_act.mp hpush with rfl | rfl
    exacts [hs, hpushed]
  · rw [Program.visits_pure.mp hlater]
    cases hpush
    exact hpushed

end AppendsAt

/-- A number is taken up. -/
theorem keeps_bumpSeq {f : UInt64 → SessionM α} (hf : ∀ n, AppendsAt p env conv n (f n)) :
    Keeps ((watch p env noted).comap Act.op) Current
      (withShell (fun shell ↦ shell.bumpSeq conv) >>= f) := by
  intro s t hs ht
  have hkeeps : Keeps ((watch p env noted).comap Act.op) Current
      (withShell fun shell ↦ shell.bumpSeq conv) := guards_current.session (edits_bumpSeq conv)
  rcases Program.visits_bind.mp ht with hbump | ⟨k, s', hrun, hlater⟩
  · exact hkeeps s t hs hbump
  · have hs' : Current s' := by
      have hend := hkeeps.run_end hs
      rwa [hrun] at hend
    refine hf k s' t ⟨hs', ?_⟩ hlater
    cases hrun
    exact (Shell.seqOf_bumpSeq ..).trans (if_pos rfl)

/-- What such a body keeps, its save keeps too. -/
theorem current_saving {body : SessionM α}
    (hbody : Keeps ((watch p env noted).comap Act.op) Current body) :
    Keeps (watch p env noted) Current (saving body) :=
  .bind (fun s t hs ht ↦ hbody s t hs (Program.visits_hoist.mp ht)) fun _ ↦
    .bind guards_current.persist fun _ ↦ .pure _

theorem current_sendTextWithReply (peerHex text : String) (replyTo : UInt64) :
    Keeps (watch p env noted) Current (sendTextWithReply p peerHex text replyTo) :=
  current_saving <| .bind (.ofExcept _) fun _ ↦ .bind (guards_current.session silent_nowUnix) fun _ ↦
    keeps_bumpSeq fun _ ↦ .bind (.ofExcept _) fun _ ↦ .bind silent_memory fun _ ↦
    .bind (silent_sendVia ..) fun _ ↦ .bind (aside_ensureIntroSent _ _).attempt fun _ ↦
    .bind (aside_sendCachedBindingGossip _ _).attempt fun _ ↦ .append _ rfl rfl

theorem current_sendGroupTextWithReply (groupIdHex text : String) (replyTo : UInt64) :
    Keeps (watch p env noted) Current (sendGroupTextWithReply p groupIdHex text replyTo) := by
  refine current_saving <| .bind (guards_current.session silent_nowUnix) fun _ ↦
    keeps_bumpSeq fun _ ↦ .bind (.ofExcept _) fun _ ↦ .bind silent_session fun _ ↦
    .bind (silent_findGroupMut _) fun found ↦ ?_
  exact .bind (silent_refreshGroupMembers _) fun _ ↦ .bind (silent_flushMlsUpdate _ _) fun _ ↦
    .bind silent_nowMs fun _ ↦ .bind (silent_onGroup _ _) fun _ ↦ .bind (.ofExcept _) fun _ ↦
    .bind (silent_groupAppend ..) fun _ ↦ .append _ rfl rfl

theorem current_sendGroupFileWithReply (groupIdHex name mime : String) (bytes : Bytes)
    (replyTo : UInt64) : Keeps (watch p env noted) Current
      (sendGroupFileWithReply p groupIdHex name mime bytes replyTo) := by
  refine current_saving <| .bind (guards_current.session silent_nowUnix) fun _ ↦
    .bind (guards_current.session silent_drawKey) fun _ ↦
    .bind (guards_current.session (.act trivial)) fun _ ↦ .bind (.ofExcept _) fun sealed ↦ ?_
  refine keeps_bumpSeq fun _ ↦ .bind silent_session fun _ ↦ .bind (silent_findGroupMut _) fun found ↦ ?_
  exact .bind (silent_refreshGroupMembers _) fun _ ↦ .bind (silent_flushMlsUpdate _ _) fun _ ↦
    .bind (silent_groupAppend ..) fun _ ↦ .bind (silent_callGroup _ _) fun _ ↦
    .bind (.ofExcept _) fun _ ↦ .bind silent_nowMs fun _ ↦ .bind (silent_onGroup _ _) fun _ ↦
    .bind (.ofExcept _) fun _ ↦ .bind (silent_groupAppend ..) fun _ ↦ .append _ rfl rfl

theorem current_react (convId : String) (target : UInt64) (emoji : String) :
    Keeps (watch p env noted) Current (react p convId target emoji) := by
  refine current_saving <| .bind (guards_current.session silent_nowUnix) fun _ ↦
    .bind (guards_current.session (edits_takeMatchingReaction ..)) fun off ↦
    keeps_bumpSeq fun _ ↦ .bind (silent_transmitApp ..) fun _ ↦ ?_
  split_ifs
  exacts [.pure _, .append _ rfl rfl]

/-- A method, on a client whose memory is on record. -/
theorem current_method (m : Method) : Keeps (watch p env noted) Current (m.program p) := by
  have hdiscard {α : Type} {q : ClientM α} (hq : Keeps (watch p env noted) Current q) :
      Keeps (watch p env noted) Current (do let _ ← q) := .bind hq fun _ ↦ .pure _
  by_cases happends : m.Appends
  · cases m with
    | sendTextWithReply => exact hdiscard (current_sendTextWithReply _ _ _)
    | sendGroupTextWithReply => exact hdiscard (current_sendGroupTextWithReply _ _ _)
    | sendGroupFileWithReply => exact hdiscard (current_sendGroupFileWithReply _ _ _ _ _)
    | react => exact hdiscard (current_react _ _ _)
    | _ => exact happends.elim
  · exact guards_current.composed (Method.composed (fun h ↦ absurd h happends) fun _ ↦ trivial)

/-! ## Runs -/

/-- A call on the watched client. -/
abbrev numberStep (p : Outside) (env : Environment) :
    World × List Moment → Call → World × List Moment := watchStep p env noted id

/-- A method is called on a client. Where there is none, because the process has ended, the vault is
opened. -/
def OnClient (s : World × List Moment) (call : Call) : Prop :=
  call.method = .openAt ∨ s.1.inner ≠ Inner.empty none false none

/-- There is no client, or its memory is on record. -/
def Booked (s : World × List Moment) : Prop :=
  Good s.1.vault.inbox s.2 ∧
    (s.1.inner = Inner.empty none false none ∨ s.1.inner.shell = standing s.2)

theorem Current.booked {s : World × List Moment} (h : Current s) : Booked s := ⟨h.2, .inr h.1⟩

theorem booked_openAt {s t : World × List Moment} (hs : Booked s)
    (ht : Program.Visits (watch p env noted) (Method.openAt.program p) s t) : Booked t := by
  rcases ht with rfl | ht
  · exact hs
  · -- What the memory was before it is loaded does not matter.
    let w : World := { s.1 with inner := { s.1.inner with shell := standing s.2 } }
    have hcurrent : Current (w, s.2) := ⟨rfl, hs.1⟩
    exact (current_method .openAt (w, s.2) t hcurrent (.inr ht)).booked

theorem booked_step {s : World × List Moment} {call : Call} (hs : Booked s)
    (hcall : OnClient s call) : Booked (numberStep p env s call) := by
  refine watchStep_keeps (fun t ht ↦ ?_) (fun t ht ↦ ⟨ht.1, .inl rfl⟩) (fun t ht ↦ ?_)
  · rcases hcall with hopen | hclient
    · rw [hopen] at ht
      exact booked_openAt hs ht
    · have hcurrent : Current s := ⟨hs.2.resolve_left hclient, hs.1⟩
      exact (current_method _ s t hcurrent ht).booked
  · unfold World.settle
    split_ifs
    · refine ⟨ht.1, ht.2.imp_left fun hclosed ↦ ?_⟩
      rw [hclosed]
      rfl
    · exact ht

/-- In a run whose moments meet the condition, from a client that has shown nothing, numbers and marks
rise. -/
theorem rises_of_spares {w : World} (hshell : w.inner.shell = .empty)
    (hvault : ∀ entry ∈ w.vault.inbox, entry = Shell.empty.saved) {calls : List Call}
    (hcalls : Allowed (numberStep p env) OnClient (w, []) calls)
    (hspares : Throughout Moment.Spares (run (numberStep p env) (w, []) calls).2) :
    Throughout Moment.Rises (run (numberStep p env) (w, []) calls).2 := by
  have hstart : Booked (w, []) := ⟨fun _ ↦ tallied_start hvault, .inr hshell⟩
  have hend := run_invariant Booked (fun _ _ hcall hs ↦ booked_step hs hcall) hcalls hstart
  exact (hend.1 hspares).rises

/-! ## The largest number -/

theorem Throughout.of_suffix {P : Moment → List Moment → Prop} {record earlier : List Moment}
    (h : Throughout P record) (hsuffix : earlier <:+ record) : Throughout P earlier := by
  induction record with
  | nil => rwa [List.suffix_nil.mp hsuffix]
  | cons m past ih =>
    rcases List.suffix_cons_iff.mp hsuffix with rfl | hpast
    exacts [h, ih h.2 hpast]

/-- The record only grows. -/
theorem suffix_run (q : ClientM α) (s : World × List Moment) :
    s.2 <:+ (Program.run (watch p env noted) q s).2.2 := by
  have hkeeps : Keeps (watch p env noted) (fun t ↦ s.2 <:+ t.2) q := by
    refine .of_act (fun {γ} action t ht ↦ ht.trans ?_) q
    cases action with
    | op o =>
      cases o with
      | shell f => exact List.suffix_cons _ _
      | _ => exact List.suffix_refl _
    | reload => exact List.suffix_cons _ _
    | _ => exact List.suffix_refl _
  exact hkeeps.run_end (List.suffix_refl _)

theorem snd_numberStep (s : World × List Moment) (m : Method) :
    (numberStep p env s (.done m)).2 = (Program.run (watch p env noted) (m.program p) s).2.2 := by
  unfold numberStep watchStep
  dsimp only
  split
  · next heq => rw [heq]; rfl
  · next heq => rw [heq]

/-- A timer that is set takes up a number, whatever becomes of the message then. -/
theorem suffix_setDisappear (s : World × List Moment) (conv : String) (secs : UInt64) :
    let set (shell : Shell) : Shell := { shell with disappear := shell.disappear.insert conv secs }
    let timed := set s.1.inner.shell
    ⟨some fun shell ↦ (shell.bumpSeq conv).2, (timed.bumpSeq conv).2⟩ :: ⟨some set, timed⟩ :: s.2 <:+
      (numberStep p env s (.done (.setDisappear conv secs))).2 := by
  intro set timed
  let rest (now seq : UInt64) : SessionM DisplayRow := do
    transmitApp p conv (.disappear secs) now seq
    withShell fun shell ↦ shell.pushControl conv seq now .disappear (toString secs) 0 true
  let w : World :=
    { s.1 with inner := { s.1.inner with shell := (timed.bumpSeq conv).2 }, tick := s.1.tick + 4 }
  rw [snd_numberStep]
  exact @suffix_run p env _ (do let _ ← saving (rest (env.unix (s.1.tick + 1)) (timed.bumpSeq conv).1))
    (w, ⟨some fun shell ↦ (shell.bumpSeq conv).2, (timed.bumpSeq conv).2⟩ :: ⟨some set, timed⟩ :: s.2)

end

/-- The outside world of `Outside.transparent`, where every message is a text with the largest
number. -/
def Outside.last : Outside :=
  { Outside.transparent with
    formats := { Outside.transparent.formats with
      decode := fun _ ↦ .ok (.fresh (UInt64.ofNat (2 ^ 64 - 1)) 0 (.text "hello")) } }

/-- The conversation with the peer of `World.waiting`. -/
def theirs : String := toHex (FixedBytes.replicate 32 1).data

/-- The client takes in such a text. -/
def World.overtaken (p : Outside) : World × List Moment :=
  run (numberStep p .oneRow) (.waiting, []) [.done .fetchNow]

set_option maxRecDepth 100000 in
theorem World.seqOf_overtaken :
    (overtaken .last).1.inner.shell.seqOf theirs = UInt64.ofNat (2 ^ 64 - 1) := by
  decide +kernel

/-- The next number that is taken up there is zero. -/
theorem World.overtaken_not_rises : ¬Throughout Moment.Rises (run (numberStep .last .oneRow)
    (.waiting, []) [.done .fetchNow, .done (.setDisappear theirs 60)]).2 := by
  intro h
  have hrises := (h.of_suffix (suffix_setDisappear (World.overtaken .last) theirs 60)).1
  have hlt := hrises.counters _ theirs rfl rfl _ List.mem_cons_self
  rw [Shell.seqOf_bumpSeq, if_pos rfl] at hlt
  change (World.overtaken .last).1.inner.shell.seqOf theirs <
    (World.overtaken .last).1.inner.shell.seqOf theirs + 1 at hlt
  rw [World.seqOf_overtaken] at hlt
  exact absurd hlt (by decide)

/-! ## A reopened client -/

theorem Lost.mem {conv : String} {record : List Moment} {n : UInt64} (h : Lost conv record n) :
    ∃ s ∈ shells record, n = s.seqOf conv := by
  induction h with
  | upgraded | reopened => exact ⟨_, List.mem_cons_of_mem _ (standing_mem_shells _), rfl⟩
  | before _ ih =>
    obtain ⟨s, hs, hn⟩ := ih
    exact ⟨s, List.mem_cons_of_mem _ hs, hn⟩

/-- Where nothing is marked, the condition is that counters only rise and do not run over. -/
theorem spares_of_unmarked {record : List Moment}
    (hmarks : ∀ s ∈ shells record, ∀ conv kind, s.mark conv kind = 0)
    (hcounters : ∀ s ∈ shells record, ∀ conv, s.seqOf conv ≠ UInt64.ofNat (2 ^ 64 - 1))
    (hrising : (shells record).Pairwise fun s t ↦ ∀ conv, t.seqOf conv ≤ s.seqOf conv) :
    Throughout Moment.Spares record := by
  induction record with
  | nil => trivial
  | cons m past ih =>
    obtain ⟨-, hpast⟩ := List.pairwise_cons.mp hrising
    have hstanding := List.mem_cons_of_mem m.shell (standing_mem_shells past)
    refine ⟨⟨fun f _ ↦ ⟨fun conv _ ↦ hcounters _ hstanding conv, fun conv _ ↦ hmarks _ hstanding conv⟩,
      fun f conv _ _ n hlost ↦ ?_, fun _ conv kind ↦ ?_⟩,
      ih (fun s hs ↦ hmarks s (List.mem_cons_of_mem _ hs))
        (fun s hs ↦ hcounters s (List.mem_cons_of_mem _ hs)) hpast⟩
    · obtain ⟨s, hs, rfl⟩ := hlost.mem
      cases past with
      | nil =>
        rw [List.mem_singleton.mp hs]
        exact UInt64.le_refl _
      | cons m' past =>
        rcases List.mem_cons.mp hs with rfl | hs
        · exact UInt64.le_refl _
        · exact (List.pairwise_cons.mp hpast).1 s hs conv
    · rw [hmarks _ List.mem_cons_self, hmarks _ hstanding]

/-- Nothing is marked, and only one conversation has a counter. -/
def Shell.countsOnly (conv : String) (s : Shell) : Bool :=
  s.acked.keys.isEmpty && s.read.keys.isEmpty && s.groupRead.keys.isEmpty &&
    s.nextSeq.keys.all (· = conv)

namespace Shell

variable {s : Shell} {conv : String}

theorem lookup_of_isEmpty {K V : Type} [DecidableEq K] {m : FiniteMap K V} (h : m.keys.isEmpty)
    (k : K) : m.lookup k = none :=
  AList.lookup_eq_none.mpr fun hk ↦ by
    rw [AList.mem_keys, List.isEmpty_iff.mp h] at hk
    cases hk

theorem mark_of_countsOnly (h : s.countsOnly conv) (c : String) (kind : Mark) : s.mark c kind = 0 := by
  simp only [countsOnly, Bool.and_eq_true] at h
  cases kind with
  | acked => rw [mark, lookup_of_isEmpty h.1.1.1]; rfl
  | read => rw [mark, lookup_of_isEmpty h.1.1.2]; rfl
  | readBy member => rw [mark, lookup_of_isEmpty h.1.2]; rfl

theorem seqOf_of_countsOnly (h : s.countsOnly conv) {c : String} (hne : c ≠ conv) : s.seqOf c = 0 := by
  simp only [countsOnly, Bool.and_eq_true] at h
  have hnone : s.nextSeq.lookup c = none := AList.lookup_eq_none.mpr fun hc ↦
    hne (of_decide_eq_true (List.all_eq_true.mp h.2 c (AList.mem_keys.mp hc)))
  rw [seqOf, hnone]
  rfl

end Shell

/-- A client fetches a text and is opened again. -/
def openingCalls : List Call := [.done .fetchNow, .done .openAt]

/-- Then it sets a timer. -/
def reopeningCalls : List Call := openingCalls ++ [.done (.setDisappear theirs 60)]

/-- The record of these calls. -/
def World.reopened : World × List Moment :=
  run (numberStep .transparent .oneRow) (.waiting, []) reopeningCalls

set_option maxRecDepth 100000 in
theorem World.countsOnly_reopened : (shells reopened.2).all (Shell.countsOnly theirs) = true := by
  decide +kernel

set_option maxRecDepth 100000 in
theorem World.seqOf_reopened : (shells reopened.2).map (·.seqOf theirs) = [2, 1, 1, 1, 0, 0] := by
  decide +kernel

set_option maxRecDepth 100000 in
theorem World.inner_reopening : (run (numberStep .transparent .oneRow) (.waiting, [])
    openingCalls).1.inner ≠ Inner.empty none false none := by decide +kernel

theorem World.allowed_opening :
    Allowed (numberStep .transparent .oneRow) OnClient (.waiting, []) openingCalls :=
  ⟨.inr (by decide +kernel), .inl rfl, trivial⟩

theorem World.allowed_reopening :
    Allowed (numberStep .transparent .oneRow) OnClient (.waiting, []) reopeningCalls :=
  allowed_append.mpr ⟨allowed_opening, .inr inner_reopening, trivial⟩

theorem ne_last_of_le {n : UInt64} (h : n.toNat ≤ 2) : n ≠ UInt64.ofNat (2 ^ 64 - 1) := by
  rintro rfl
  rw [UInt64.toNat_ofNat'] at h
  omega

theorem World.spares_reopened : Throughout Moment.Spares reopened.2 := by
  have honly (s : Shell) (hs : s ∈ shells reopened.2) := List.all_eq_true.mp countsOnly_reopened s hs
  have hsmall : ∀ n ∈ (shells reopened.2).map (·.seqOf theirs), n.toNat ≤ 2 := by
    rw [seqOf_reopened]
    simp
  have hrising : ((shells reopened.2).map (·.seqOf theirs)).Pairwise fun m n ↦ n ≤ m := by
    rw [seqOf_reopened]
    decide
  generalize reopened.2 = record at honly hsmall hrising ⊢
  refine spares_of_unmarked (fun s hs ↦ Shell.mark_of_countsOnly (honly s hs)) (fun s hs conv ↦ ?_)
    ((List.pairwise_map.mp hrising).imp_of_mem fun {s t} _ ht hle conv ↦ ?_)
  · by_cases hconv : conv = theirs
    · rw [hconv]
      exact ne_last_of_le (hsmall _ (List.mem_map_of_mem hs))
    · rw [Shell.seqOf_of_countsOnly (honly s hs) hconv]
      exact ne_last_of_le (Nat.zero_le _)
  · by_cases hconv : conv = theirs
    · rwa [hconv]
    · rw [Shell.seqOf_of_countsOnly (honly t ht) hconv]
      exact UInt64.zero_le

/-- The number of the timer is behind that of the text, which was taken in before the client was
opened again. -/
theorem rises_of_spares_reopened :
    (shells World.reopened.2).map (·.seqOf theirs) = [2, 1, 1, 1, 0, 0] ∧
      Throughout Moment.Rises World.reopened.2 := by
  have hvault : ∀ entry ∈ World.waiting.vault.inbox, entry = Shell.empty.saved := by
    rintro entry ⟨⟩
    rfl
  exact ⟨World.seqOf_reopened, @rises_of_spares .transparent .oneRow .waiting rfl hvault reopeningCalls
    World.allowed_reopening World.spares_reopened⟩

end NemoMessenger.Client
