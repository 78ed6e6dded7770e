import NemoMessenger.Client.Says
import NemoMessenger.Client.Vanish

/-!
# What a fetch returns

The rows a fetch returns are followed together with the rows it puts in the inbox and with the messages
the mailbox says. Each message shows as one row at most, and the messages come in the order of the rows
of the mailbox, those for the groups first; so what is known of the messages tells which of the rows are
stored as they are returned.
-/

namespace NemoMessenger.Client

open NemoMessenger.Data NemoMessenger.Wire
open Program (act attempt ofExcept forEach run)

/-! ## Rows that show messages -/

theorem toHex_ne_system (key : Key) : toHex key.data ≠ "system" := by
  intro h
  have hbytes := congrArg Cbor.textBytes h
  rw [Cbor.textBytes_toHex] at hbytes
  have hread := Cbor.fromHex_hexBytes key.data
  rw [hbytes] at hread
  cases hread

/-- The row has the number, or reacts to it, or quotes it. -/
def DisplayRow.RefersTo (row : DisplayRow) (target : UInt64) : Prop :=
  Shell.survivesRemoval row.convId target row = false ∨ row.replyTo = target ∧ target ≠ 0

/-- The kind is that of a row that is stored and is no reaction. -/
def RowKind.Lasting : RowKind → Prop
  | .removed | .reactionRemoved | .reaction | .deleted => False
  | _ => True

/-- The row shows the message. -/
structure Opened.Shows (introduced : Prop) (m : Opened) (row : DisplayRow) : Prop where
  conv : row.convId = m.conv ∨ introduced
  named : row.convId ≠ "system"
  content : ¬m.Signed → row.Content → row.Anonymous
  reaction : row.kind = .reaction → m.message.body = .reaction row.target row.emoji ∧
    row.convSeq = m.message.header.convSeq ∧ row.senderId = m.sender
  removed : row.kind = .removed → m.message.body = .delete row.target
  takenBack : row.kind = .reactionRemoved → m.message.body = .reaction row.target row.emoji
  refers : ¬row.Transient → ∀ target, row.RefersTo target → m.RefersTo target

/-- The row shows its message, or tells that messages were lost. -/
def Listed.Of (introduced : Prop) (s : Listed) : Prop :=
  match s.source with
  | some m => m.Shows introduced s.row
  | none => s.row.kind = .lost ∧ s.row.convId = "system"

section

variable {introduced : Prop} {m m' : Opened} {row marker : DisplayRow} {target : UInt64}

theorem RowKind.Lasting.ne {kind : RowKind} (h : row.kind.Lasting) (hkind : ¬kind.Lasting) :
    row.kind ≠ kind := by
  rintro rfl
  exact hkind h

theorem DisplayRow.refersTo_moved {source goal : String} :
    (row.moved source goal).RefersTo target ↔ row.RefersTo target := by
  rw [moved_eq, RefersTo, RefersTo]
  simp only [Shell.survivesRemoval, ne_eq, not_true_eq_false, if_false]

theorem Opened.Shows.moved (h : m.Shows introduced row) (hintro : introduced) (source : String)
    (goal : Key) : m.Shows introduced (row.moved source (toHex goal.data)) := by
  have hnamed : (row.moved source (toHex goal.data)).convId ≠ "system" := by
    rw [DisplayRow.moved_eq, DisplayRow.movedId]
    split_ifs
    exacts [toHex_ne_system goal, h.named]
  refine ⟨.inr hintro, hnamed, ?_, ?_, ?_, ?_, fun htransient n hn ↦ ?_⟩
  · rw [DisplayRow.moved_eq]
    exact h.content
  · rw [DisplayRow.moved_eq]
    exact h.reaction
  · rw [DisplayRow.moved_eq]
    exact h.removed
  · rw [DisplayRow.moved_eq]
    exact h.takenBack
  · rw [DisplayRow.moved_eq] at htransient
    exact h.refers htransient n (DisplayRow.refersTo_moved.mp hn)

theorem Listed.Of.moved {s : Listed} (h : s.Of introduced) (hintro : introduced) (source goal : Key) :
    (s.moved (toHex source.data) (toHex goal.data)).Of introduced := by
  obtain ⟨row, source'⟩ := s
  cases source' with
  | some m => exact Opened.Shows.moved h hintro _ _
  | none =>
    obtain ⟨hkind, hconv⟩ := h
    have hsame : row.moved (toHex source.data) (toHex goal.data) = row := by
      unfold DisplayRow.moved
      exact if_neg fun hsource ↦ toHex_ne_system source (hsource.symm.trans hconv)
    unfold Listed.moved Listed.Of
    dsimp only
    rw [hsame]
    exact ⟨hkind, hconv⟩

/-! ## Messages that leave each other alone show as clean rows -/

/-- A marker leaves the row alone if its message leaves that of the row alone. -/
theorem Opened.Shows.spared {clash : String → UInt64 → Prop} {s marker : Listed} {m m' : Opened}
    (hmarker : marker.source = some m') (h : m.Shows introduced s.row)
    (h' : m'.Shows introduced marker.row) (hspares : m.Meets introduced m' → m.Spares m')
    (hapart : s.row.kind = .reaction → ¬clash s.row.convId s.row.convSeq)
    (hlasting : ¬s.row.Transient) :
    ¬marker.Takes clash s.row ∧ ¬marker.row.Unquotes s.row := by
  have hmeets (hconv : s.row.convId = marker.row.convId) : m.Meets introduced m' := by
    rcases h.conv with hm | hintro
    · rcases h'.conv with hm' | hintro
      · exact .inl (hm.symm.trans (hconv.trans hm'))
      · exact .inr hintro
    · exact .inr hintro
  refine ⟨?_, fun ⟨hkind, hconv, hquotes, hne⟩ ↦ ?_⟩
  · rintro (⟨hkind, htaken⟩ | ⟨hkind, hreaction, hconv, htarget, hemoji, hwho⟩)
    · have hconv := DisplayRow.convId_of_survivesRemoval htaken
      refine (hspares (hmeets hconv)).deletion _ (h'.removed hkind) (h.refers hlasting _ (.inl ?_))
      rwa [hconv]
    · obtain ⟨hbody, -, hsender⟩ := h.reaction hreaction
      have hbody' := h'.takenBack hkind
      rw [← htarget, ← hemoji] at hbody'
      rcases hwho with ⟨m'', hm'', hsame⟩ | hclash
      · cases hmarker.symm.trans hm''
        exact (hspares (hmeets hconv)).reaction _ _ hbody hbody' (hsender.symm.trans hsame)
      · exact hapart hreaction hclash
  · exact (hspares (hmeets hconv)).deletion _ (h'.removed hkind)
      (h.refers hlasting _ (.inr ⟨hquotes, hne⟩))

end

/-- The rows that are returned and the inbox, when some rows of the mailbox have been opened: those that
show a message come of different rows of the mailbox, in their order. -/
structure Outset.Records (o : Outset) (said : List MailboxRow) (renames : List (String × String))
    (shown : List Listed) (inbox : List DisplayRow) : Prop where
  moved : renames ≠ [] → o.introduced
  accounts : Accounts (renamed renames o.before) shown inbox
  ofMessage : ∀ s ∈ shown, s.Of o.introduced
  heard : ∃ pairs : List (MailboxRow × Opened), (pairs.map Prod.fst).Sublist said ∧
    (∀ e ∈ pairs, o.carries e.1 e.2) ∧ pairs.map Prod.snd = shown.filterMap Listed.source

/-- The rows are returned when some rows of the mailbox have been opened. -/
def Outset.Tells (o : Outset) (said : List MailboxRow) (rows inbox : List DisplayRow) : Prop :=
  ∃ renames shown, shown.map Listed.row = rows ∧ o.Records said renames shown inbox

namespace Outset.Records

variable {o : Outset} {said : List MailboxRow} {renames : List (String × String)}
  {shown : List Listed} {inbox : List DisplayRow} {s : Listed} {m : Opened}

end Outset.Records

namespace Outset.Tells

variable {o : Outset} {said said' : List MailboxRow} {rows inbox inbox' : List DisplayRow}
  {row : DisplayRow} {m : Opened} {opened : MailboxRow}

theorem start (inbox : List DisplayRow) (carries : MailboxRow → Opened → Prop) (introduced : Prop) :
    Tells ⟨inbox, carries, introduced⟩ [] [] inbox :=
  ⟨[], [], rfl, fun h ↦ (h rfl).elim, .start inbox, fun _ hs ↦ (by cases hs),
    [], .slnil, fun _ he ↦ (by cases he), rfl⟩

theorem mono (h : o.Tells said rows inbox) (hsaid : said.Sublist said') : o.Tells said' rows inbox := by
  obtain ⟨renames, shown, hrows, hrecords⟩ := h
  obtain ⟨pairs, hsub, hpairs⟩ := hrecords.heard
  exact ⟨renames, shown, hrows, hrecords.moved, hrecords.accounts, hrecords.ofMessage,
    pairs, hsub.trans hsaid, hpairs⟩

theorem pass (h : o.Tells said rows inbox) : o.Tells (said ++ [opened]) rows inbox :=
  h.mono (List.sublist_append_left _ _)

/-- A row of the mailbox shows as a row. -/
theorem display (h : o.Tells said rows inbox) (hcarries : o.carries opened m)
    (hshows : m.Shows o.introduced row) (haccounts : ∀ before shown, Accounts before shown inbox →
      Accounts before (shown ++ [⟨row, some m⟩]) inbox') :
    o.Tells (said ++ [opened]) (rows ++ [row]) inbox' := by
  obtain ⟨renames, shown, rfl, hrecords⟩ := h
  obtain ⟨pairs, hsub, hpairs, hshown⟩ := hrecords.heard
  refine ⟨renames, shown ++ [⟨row, some m⟩], List.map_append, hrecords.moved,
    haccounts _ _ hrecords.accounts, fun s hs ↦ ?_, pairs ++ [(opened, m)], ?_, fun e he ↦ ?_, ?_⟩
  · rcases List.mem_append.mp hs with hs | hs
    · exact hrecords.ofMessage s hs
    · rw [List.mem_singleton.mp hs]
      exact hshows
  · rw [List.map_append]
    exact hsub.append_right _
  · rcases List.mem_append.mp he with he | he
    · exact hpairs e he
    · rw [List.mem_singleton.mp he]
      exact hcarries
  · rw [List.map_append, List.filterMap_append, hshown]
    rfl

/-- After an introduction, what is shown in a conversation is shown in another. -/
theorem remap (h : o.Tells said rows inbox) (source goal : Key) (hintro : o.introduced) :
    o.Tells said (rows.map (DisplayRow.moved (toHex source.data) (toHex goal.data)))
      (inbox.map (DisplayRow.moved (toHex source.data) (toHex goal.data))) := by
  obtain ⟨renames, shown, rfl, hrecords⟩ := h
  obtain ⟨pairs, hsub, hpairs, hshown⟩ := hrecords.heard
  refine ⟨renames ++ [(toHex source.data, toHex goal.data)], _, Accounts.map_row_moved _ _ _,
    fun _ ↦ hintro, ?_, fun s hs ↦ ?_, pairs, hsub, hpairs, ?_⟩
  · rw [renamed_append]
    exact hrecords.accounts.remap _ _
  · obtain ⟨s', hs', rfl⟩ := List.mem_map.mp hs
    exact (hrecords.ofMessage s' hs').moved hintro source goal
  · rw [hshown, List.filterMap_map]
    rfl

end Outset.Tells

/-! ## Programs -/

section

variable {p : Outside} {env : Environment} {T T' T'' : List DisplayRow → List DisplayRow → Prop}
  {rows : List DisplayRow} {α β : Type}

/-- The function leaves the inbox alone. -/
def Shell.KeepsInbox (f : Shell → Shell) : Prop := ∀ s : Shell, (f s).inbox = s.inbox

/-- From rows that are returned and an inbox that are as one says, the program comes to such as the other
says. -/
structure Leads (p : Outside) (env : Environment) (T T' : List DisplayRow → List DisplayRow → Prop)
    (rows : List DisplayRow) (q : SessionM α) (rows' : α → List DisplayRow) : Prop where
  tells : ∀ w a t, T rows w.inner.shell.inbox → run (inside p env) q w = (.ok a, t) →
    T' (rows' a) t.inner.shell.inbox

theorem keeps_inbox {q : SessionM α} (hq : Within Shell.KeepsInbox q) (inbox : List DisplayRow) :
    Program.Keeps (inside p env) (fun t ↦ t.inner.shell.inbox = inbox) q := by
  refine hq.keeps fun o t ho ht ↦ ?_
  rcases @Op.shell_effect p env _ _ _ ho t with hsame | ⟨f, hf, hinner⟩
  · exact (congrArg Shell.inbox hsame).trans ht
  · exact (congrArg (·.shell.inbox) hinner).trans ((hf _).trans ht)

theorem inbox_run {q : SessionM α} (hq : Within Shell.KeepsInbox q) (w : World) :
    (run (inside p env) q w).2.inner.shell.inbox = w.inner.shell.inbox :=
  (keeps_inbox hq _).run_end rfl

namespace Leads

variable {mid : α → List DisplayRow} {rows' : β → List DisplayRow}

/-- The program ends, and nothing more is returned. -/
theorem rest {b : β} (hT : ∀ inbox, T rows inbox → T' rows inbox) (h : rows' b = rows) :
    Leads p env T T' rows (Pure.pure b) rows' := by
  constructor
  rintro w a t hw ⟨⟩
  rw [h]
  exact hT _ hw

theorem pure {b : β} (h : rows' b = rows) : Leads p env T T rows (Pure.pure b) rows' :=
  rest (fun _ ↦ id) h

theorem fail (e : CoreError) : Leads p env T T' rows (Program.fail e) rows' := by
  constructor
  intro w b t _ hrun
  cases congrArg Prod.fst hrun

theorem bind {q : SessionM α} {f : α → SessionM β} (hq : Leads p env T T' rows q mid)
    (hf : ∀ a, Leads p env T' T'' (mid a) (f a) rows') : Leads p env T T'' rows (q >>= f) rows' := by
  constructor
  intro w b t hw hrun
  obtain ⟨a, s, hfirst, hnext⟩ := Program.run_bind_eq_ok.mp hrun
  exact (hf a).tells s b t (hq.tells w a s hw hfirst) hnext

/-- What leaves the inbox alone, when something is known of its answer. -/
theorem kept_of {q : SessionM α} {f : α → SessionM β} (answers : α → Prop)
    (hq : Within Shell.KeepsInbox q)
    (hanswers : ∀ w a t, run (inside p env) q w = (.ok a, t) → answers a)
    (hf : ∀ a, answers a → Leads p env T T' rows (f a) rows') :
    Leads p env T T' rows (q >>= f) rows' := by
  constructor
  intro w b t hw hrun
  obtain ⟨a, s, hfirst, hnext⟩ := Program.run_bind_eq_ok.mp hrun
  have hsame := @inbox_run p env _ _ hq w
  rw [hfirst] at hsame
  rw [← hsame] at hw
  exact (hf a (hanswers w a s hfirst)).tells s b t hw hnext

/-- What leaves the inbox alone. -/
theorem kept {q : SessionM α} {f : α → SessionM β} (hq : Within Shell.KeepsInbox q)
    (hf : ∀ a, Leads p env T T' rows (f a) rows') : Leads p env T T' rows (q >>= f) rows' :=
  kept_of (fun _ ↦ True) hq (fun _ _ _ _ ↦ trivial) fun a _ ↦ hf a

theorem withShell {f : Shell → β × Shell}
    (h : ∀ s : Shell, T rows s.inbox → T' (rows' (f s).1) (f s).2.inbox) :
    Leads p env T T' rows (withShell f) rows' := by
  constructor
  rintro w a t hw ⟨⟩
  exact h _ hw

theorem onShell {f : Shell → Shell} {rows' : List DisplayRow}
    (h : ∀ s : Shell, T rows s.inbox → T' rows' (f s).inbox) :
    Leads p env T T' rows (onShell f) fun _ ↦ rows' := by
  constructor
  rintro w a t hw ⟨⟩
  exact h _ hw

/-- A row is put in, and returned as the function says. -/
theorem pushRow {row : DisplayRow} {f : DisplayRow → DisplayRow}
    (h : ∀ inbox, T rows inbox → T' (rows ++ [f row]) (inbox ++ [row])) :
    Leads p env T T' rows (Client.withShell fun shell ↦ shell.pushRow row)
      fun r ↦ rows ++ [f r] := by
  refine .withShell fun s hs ↦ ?_
  rw [Shell.inbox_pushRow]
  exact h _ hs

end Leads

end

/-! ## Messages -/

section

variable {p : Outside} {env : Environment} {o : Outset} {said : List MailboxRow}
  {opened : MailboxRow} {rows : List DisplayRow} {m : Opened} {group : Bool} {conv sender : String}
  {message : AppMessage}

end

/-! ## Passes over the mailbox -/

section

variable {p : Outside} {env : Environment} {w₀ w t : World} {page said : List MailboxRow}
  {row : MailboxRow} {rows : List DisplayRow}

theorem Leads.weaken {T T' T'' : List DisplayRow → List DisplayRow → Prop} {α : Type}
    {q : SessionM α} {rows' : α → List DisplayRow} (h : Leads p env T T' rows q rows')
    (hT : ∀ rows inbox, T' rows inbox → T'' rows inbox) : Leads p env T T'' rows q rows' where
  tells w a t hw hrun := hT _ _ (h.tells w a t hw hrun)

variable {T : List DisplayRow → List DisplayRow → Prop}

theorem Mirrors.append {before rows after : List DisplayRow} (h : Mirrors before rows after)
    (more : List DisplayRow) : Mirrors before (rows ++ more) (after ++ more) where
  stored row hrow hlasting := by
    rcases List.mem_append.mp hrow with hrow | hrow
    · exact List.mem_append_left _ (h.stored row hrow hlasting)
    · exact List.mem_append_right _ hrow
  returned := by
    obtain ⟨renames, old, added, rfl, hold, hadded⟩ := h.returned
    refine ⟨renames, old, added ++ more, List.append_assoc _ _ _, hold, fun row hrow ↦ ?_⟩
    rcases List.mem_append.mp hrow with hrow | hrow
    · exact List.mem_append_left _ (hadded row hrow)
    · exact List.mem_append_right _ hrow

theorem Accounts.append {before inbox more : List DisplayRow} {shown : List Listed}
    (h : Accounts before shown inbox) (hmore : ∀ row ∈ more, row.kind = .revoked) :
    Accounts before (shown ++ more.map fun row ↦ ⟨row, none⟩) (inbox ++ more) := by
  induction more generalizing shown inbox with
  | nil => simpa using h
  | cons row more ih =>
    obtain ⟨hrow, hmore⟩ := List.forall_mem_cons.mp hmore
    have hlasting : ¬row.Transient := by
      rintro (hkind | hkind) <;> cases hrow.symm.trans hkind
    have hpushed := h.push_same (s := ⟨row, none⟩) hlasting
      fun hcontent ↦ by rcases hcontent with hkind | hkind <;> cases hrow.symm.trans hkind
    have hrest := ih hpushed hmore
    rwa [List.append_assoc, List.append_assoc] at hrest

/-! ## The whole fetch -/

theorem keeps_inbox_inside {α : Type} {q : SessionM α} (hq : Within Shell.KeepsInbox q)
    (inbox : List DisplayRow) : Program.Keeps (device p env)
      (fun t ↦ t.inner.shell.inbox = inbox) (q.hoist Act.op) :=
  fun s t hs ht ↦ keeps_inbox hq inbox s t hs (Program.visits_hoist.mp ht)

theorem inbox_persist (w : World) :
    (run (device p env) persist w).2.inner.shell.inbox = w.inner.shell.inbox := by
  have hput (entry : Entry) : Program.Keeps (device p env)
      (fun t ↦ t.inner.shell.inbox = w.inner.shell.inbox) (putEntry entry) := by
    refine .bind (.act fun t ht ↦ ?_) fun _ ↦ .ofExcept _
    change (t.after p env (.put entry)).inner.shell.inbox = w.inner.shell.inbox
    rw [t.inner_after_put]
    exact ht
  have hkeeps : Program.Keeps (device p env)
      (fun t ↦ t.inner.shell.inbox = w.inner.shell.inbox) persist := by
    refine .bind (keeps_inbox_inside silent_memory _) fun inner ↦ ?_
    split_ifs
    · exact .forEach fun entry _ ↦ hput entry
    · exact .fail _
    · exact .pure _
  exact hkeeps.run_end rfl

end

/-! ## A message of a group -/

/-- Every message of a group is opened, sent by the member its length tells: the first has sent a text,
the last sets the timer, and the others react. -/
def Outside.chatting : Outside :=
  { Outside.transparent with
    openMls := { Outside.transparent.openMls with
      process := fun g bytes ↦ (.ok (some bytes.length, .application bytes), g.secrets) }
    formats := { Outside.transparent.formats with
      decode := fun bytes ↦ .ok (.fresh 1 0 (match bytes.length with
        | 0 => .text "hello"
        | 3 => .disappear 60
        | _ => .reaction 5 "+")) } }

/-- A member of a group. -/
def Leaf.member (index : ℕ) : Leaf where
  index
  identity := .replicate 32 (UInt8.ofNat index)
  signatureKey := []
  credentialIdExt := none
  groupSigningExt := none

/-- The client of `World.grouped`, whose group has four members. -/
def World.chatting : World :=
  { World.grouped with
    inner := Inner.grouped.setGroupAt 0
      { Group.second with mls := { Group.second.mls with leaves := (List.range 4).map .member } } }

/-- A home with messages of a group in the mailbox. -/
def Environment.holding (bodies : List Bytes) : Environment :=
  { Environment.silent with
    answer := fun _ _ request ↦ match request with
      | .fetchMailbox _ => .ok (bodies.zipIdx.map fun (body, i) ↦
          { MailboxRow.ofNobody .mlsApp with
            seq := UInt64.ofNat (i + 1)
            inner := { InnerEnvelope.blank (.replicate 32 0) (.replicate 32 0) with
              paddedMessage := ⟨.mlsApp, body, 1024⟩ } })
      | _ => .error (.transport "no answer") }

/-- What a fetch answers there, and the world then. -/
def World.refreshed (bodies : List Bytes) : Except CoreError (List DisplayRow) × World :=
  run (device .chatting (.holding bodies)) (fetchNow .chatting) .chatting

/-- Whoever opens a message there reads its bytes. -/
theorem MailboxRow.Says.decode {row : MailboxRow} {w : World} {m : Opened}
    (h : row.Says .chatting w m) :
    Outside.chatting.formats.decode row.inner.paddedMessage.body = .ok m.message := by
  cases h with
  | group _ _ hopens hdecode =>
    unfold Group.decryptWithSender Group.process at hopens
    simp only [Outside.chatting] at hopens
    split at hopens
    · cases hopens
    · split at hopens
      · cases hopens
      · cases hopens
        exact hdecode
  | peer _ hciphertext hopens hdecode =>
    cases hciphertext
    simp only [Outside.chatting, Outside.transparent] at hopens
    split at hopens
    · cases hopens
    · cases hopens
      exact hdecode

end NemoMessenger.Client
