import NemoMessenger.Client.Ack
import NemoMessenger.Client.Watch

/-!
# Messages that disappear

A conversation may have a timer. Its rows are hidden once the timer has run since they were displayed,
and what the timers hide is emptied. A row takes the time its sender claims for the time it was
displayed at, and the name of a file and an emoji are left in it.
-/

namespace NemoMessenger.Client

open NemoMessenger.Data NemoMessenger.Wire
open Program (Keeps visits_bind)

variable {p : Outside} {env : Environment}

/-! ## Rows -/

namespace DisplayRow

/-- The row but for its conversation, its author and its quote, which may change. -/
def core (row : DisplayRow) : DisplayRow :=
  { row with convId := "", senderId := "", senderName := "", replyTo := 0 }

/-- The row shows a message that has come in, and no note of the client. -/
def received (row : DisplayRow) : Bool := !row.outgoing && row.kind != .lost && row.kind != .revoked

/-- The row has no content. -/
structure Blank (row : DisplayRow) : Prop where
  text : row.text = ""
  fileBytes : row.fileBytes = []
  fileName : row.fileName = ""
  emoji : row.emoji = ""

end DisplayRow

section

variable {row row' : DisplayRow} (h : row'.core = row.core)
include h

theorem DisplayRow.hidden_of_core : row'.hidden = row.hidden :=
  (congrArg hidden h).trans rfl

theorem DisplayRow.sentAt_of_core : row'.sentAt = row.sentAt :=
  (congrArg sentAt h).trans rfl

theorem DisplayRow.displayedAt_of_core : row'.displayedAt = row.displayedAt :=
  (congrArg displayedAt h).trans rfl

theorem DisplayRow.received_of_core : row'.received = row.received :=
  (congrArg received h).trans rfl

theorem DisplayRow.Blank.of_core (hrow : row.Blank) : row'.Blank where
  text := (congrArg DisplayRow.text h).trans hrow.text
  fileBytes := (congrArg DisplayRow.fileBytes h).trans hrow.fileBytes
  fileName := (congrArg DisplayRow.fileName h).trans hrow.fileName
  emoji := (congrArg DisplayRow.emoji h).trans hrow.emoji

end

/-! ## Timers -/

namespace Shell

/-- A timer that is set for the conversation has run since a time. -/
def Due (timers : FiniteMap String UInt64) (now : UInt64) (conv : String) (since : UInt64) : Prop :=
  ∃ secs, timers.lookup conv = some secs ∧ 0 < secs ∧ since.toNat + secs.toNat ≤ now.toNat

theorem elapsed_iff {timers : FiniteMap String UInt64} {now : UInt64} {row : DisplayRow}
    (h : row.hidden = false) :
    elapsed timers now row = true ↔ Due timers now row.convId row.displayedAt := by
  unfold elapsed Due
  cases hsecs : timers.lookup row.convId with
  | none => simp
  | some secs =>
    simp only [h, Option.getD_some, Bool.not_false, Bool.true_and, Bool.and_eq_true,
      decide_eq_true_eq, Option.some.injEq, exists_eq_left']
    refine and_congr_right fun hpos ↦ ?_
    have hpos' : 0 < secs.toNat := UInt64.lt_iff_toNat_lt.mp hpos
    omega

/-- The timers hide a row in time, whenever they run and whatever they are then, exactly when it
claims the time it was displayed at. -/
theorem elapsed_iff_due_iff {row : DisplayRow} {since : UInt64} (h : row.hidden = false) :
    (∀ timers now, since ≤ now →
      (elapsed timers now row = true ↔ Due timers now row.convId since)) ↔
        row.displayedAt = since := by
  constructor
  · intro hall
    by_contra hne
    have hone {now shownAt : UInt64} : Due (AList.insert row.convId 1 ∅) now row.convId shownAt ↔
        shownAt.toNat + 1 ≤ now.toNat := by
      unfold Due
      rw [AList.lookup_insert]
      simp
    have hiff {now : UInt64} (hnow : since ≤ now) :
        row.displayedAt.toNat + 1 ≤ now.toNat ↔ since.toNat + 1 ≤ now.toNat := by
      rw [← hone, ← hone, ← elapsed_iff h]
      exact hall _ now hnow
    rcases Nat.lt_or_gt_of_ne fun heq ↦ hne (UInt64.toNat_inj.mp heq) with hlt | hgt
    · exact absurd ((hiff UInt64.le_rfl).mp hlt) (Nat.not_succ_le_self _)
    · have hle : since ≤ row.displayedAt := UInt64.le_iff_toNat_le.mpr hgt.le
      exact absurd ((hiff hle).mpr hgt) (Nat.not_succ_le_self _)
  · rintro rfl timers now -
    exact elapsed_iff h

end Shell

/-! ## The record -/

/-- A row that has been put in, and the time then. -/
structure Shown where
  row : DisplayRow
  time : UInt64

/-- What an action adds to the record: the rows that stand behind those there were. -/
def shown (env : Environment) : {γ : Type} → Act γ → World → γ → List Shown → List Shown
  | _, .op (.shell f), w, _, log =>
    log ++ ((f w.inner.shell).inbox.drop w.inner.shell.inbox.length).map fun row ↦
      ⟨row, env.unix w.tick⟩
  | _, _, _, _, log => log

/-- The rows in the vault. -/
def rowsIn (saved : Option InboxEntry) : List DisplayRow := (saved.map (·.rows)).getD []

/-- A row that is seen has been put in as it is, and one that is hidden has no content. -/
structure Kept (log : List Shown) (row : DisplayRow) : Prop where
  seen : row.hidden = false → row.displayedAt = row.sentAt ∧ ∃ e ∈ log, row.core = e.row.core
  blank : row.hidden = true → row.Blank

/-- All rows, in memory and in the vault. -/
structure Stored (shell : Shell) (saved : Option InboxEntry) (log : List Shown) : Prop where
  memory : ∀ row ∈ shell.inbox, Kept log row
  vault : ∀ row ∈ rowsIn saved, Kept log row

namespace Kept

variable {log log' : List Shown} {row row' : DisplayRow}

theorem of_core (h : Kept log row) (hcore : row'.core = row.core) : Kept log row' where
  seen hseen := by
    rw [DisplayRow.hidden_of_core hcore] at hseen
    obtain ⟨htime, e, he, horigin⟩ := h.seen hseen
    refine ⟨?_, e, he, hcore.trans horigin⟩
    rw [DisplayRow.displayedAt_of_core hcore, DisplayRow.sentAt_of_core hcore, htime]
  blank hhidden := by
    rw [DisplayRow.hidden_of_core hcore] at hhidden
    exact (h.blank hhidden).of_core hcore

theorem mono (h : Kept log row) (hsub : log ⊆ log') : Kept log' row where
  seen hseen :=
    have ⟨htime, e, he, horigin⟩ := h.seen hseen
    ⟨htime, e, hsub he, horigin⟩
  blank := h.blank

/-- A row that has just been put in. -/
theorem of_fresh (h : row.Fresh) {e : Shown} (he : e ∈ log) (hrow : e.row = row) : Kept log row where
  seen _ := ⟨h.displayedAt, e, he, congrArg _ hrow.symm⟩
  blank hhidden := by
    rw [h.hidden] at hhidden
    cases hhidden

/-- The timers keep a row, when those they hide have no name and no emoji. -/
theorem expire (hbare : row.fileName = "" ∧ row.emoji = "") :
    Kept log (Shell.expireRow row) where
  seen hseen := by cases hseen
  blank _ := ⟨rfl, rfl, hbare.1, hbare.2⟩

end Kept

/-! ## What the changes keep -/

/-- A row afterwards is one there was, or has been put in. -/
def Continues (s s' : Shell) : Prop :=
  ∀ row ∈ s'.inbox, (∃ old ∈ s.inbox, row.core = old.core) ∨
    (row.Fresh ∧ row ∈ s'.inbox.drop s.inbox.length)

theorem Continues.of_sublist {s s' : Shell} (h : s'.inbox.Sublist s.inbox) : Continues s s' :=
  fun row hrow ↦ .inl ⟨row, h.subset hrow, rfl⟩

theorem Continues.of_append {s s' : Shell} {row : DisplayRow} (hrow : row.Fresh)
    (h : s'.inbox = s.inbox ++ [row]) : Continues s s' := by
  intro r hr
  rw [h] at hr ⊢
  rcases List.mem_append.mp hr with hold | hnew
  · exact .inl ⟨r, hold, rfl⟩
  · rw [List.mem_singleton.mp hnew]
    exact .inr ⟨hrow, by simp⟩

theorem mem_drop_of_getElem? {l : List DisplayRow} {i n : ℕ} {row : DisplayRow}
    (h : l[i]? = some row) (hn : n ≤ i) : row ∈ l.drop n := by
  refine List.mem_of_getElem? (i := i - n) ?_
  rw [List.getElem?_drop, Nat.add_sub_of_le hn, h]

theorem continues_of_edit {s s' : Shell} (h : Edit s s') : Continues s s' := by
  cases h with
  | aside h => exact .of_sublist (h.inbox ▸ .refl _)
  | push hrow => exact .of_append hrow (s.inbox_pushRow _)
  | @sign row hrow i id name =>
    intro r hr
    obtain ⟨j, hj⟩ := List.mem_iff_getElem?.mp hr
    have hread := hj
    rw [List.getElem?_modify, Shell.inbox_pushRow] at hread
    obtain ⟨old, hold, rfl⟩ := Option.map_eq_some_iff.mp hread
    rcases Nat.lt_or_ge j s.inbox.length with hlt | hge
    · rw [List.getElem?_append_left hlt] at hold
      refine .inl ⟨old, List.mem_of_getElem? hold, ?_⟩
      split_ifs <;> rfl
    · rw [List.getElem?_append_right hge] at hold
      have hnew : old = row := List.mem_singleton.mp (List.mem_of_getElem? hold)
      refine .inr ⟨?_, ?_⟩
      · rw [hnew]
        split_ifs
        exacts [⟨hrow.hidden, hrow.displayedAt⟩, hrow]
      · exact mem_drop_of_getElem? hj hge
  | trim h conv seq =>
    refine .of_sublist ?_
    rw [Shell.inbox_raiseSeq]
    exact h
  | remove conv target seq =>
    intro row hrow
    rw [Shell.inbox_raiseSeq] at hrow
    obtain ⟨old, hold, rfl⟩ := List.mem_map.mp hrow
    refine .inl ⟨old, (List.mem_filter.mp hold).1, ?_⟩
    split_ifs <;> rfl
  | timer conv secs => exact .of_sublist (.refl _)
  | setTimer conv secs hrow => exact .of_append hrow (Shell.inbox_pushRow ..)
  | acked conv upto => exact .of_sublist (.refl _)
  | read conv upto => exact .of_sublist (.refl _)
  | groupRead conv sender upto =>
    refine .of_sublist ?_
    unfold Shell.raiseGroupRead
    dsimp only
    split_ifs <;> exact .refl _

theorem continues_of_change {a : Prop} {f : Shell → Shell} (h : Shell.Change a False f) (s : Shell) :
    Continues s (f s) := by
  cases h with
  | edit h => exact continues_of_edit (h s)
  | bump conv h =>
    subst h
    exact .of_sublist (.refl _)
  | remap source target h =>
    subst h
    unfold Shell.remapConvId
    split_ifs
    · exact .of_sublist (.refl _)
    · intro row hrow
      obtain ⟨old, hold, rfl⟩ := List.mem_map.mp hrow
      refine .inl ⟨old, hold, ?_⟩
      split_ifs <;> rfl
  | append ha hrow h =>
    subst h
    exact .of_append hrow rfl
  | expire he => exact he.elim

/-- What a change leaves is stored, with what it has put in on record. -/
theorem Stored.change {a : Prop} {f : Shell → Shell} (hf : Shell.Change a False f) {w : World}
    {log : List Shown} (h : Stored w.inner.shell w.vault.inbox log) :
    Stored (f w.inner.shell) w.vault.inbox (shown env (.op (.shell f)) w () log) where
  memory row hrow := by
    rcases continues_of_change hf _ row hrow with ⟨old, hold, hcore⟩ | ⟨hfresh, hnew⟩
    · exact ((h.memory old hold).of_core hcore).mono (List.subset_append_left _ _)
    · exact .of_fresh hfresh (List.mem_append_right _ (List.mem_map_of_mem hnew)) rfl
  vault row hrow := (h.vault row hrow).mono (List.subset_append_left _ _)

theorem Stored.mono {shell : Shell} {saved : Option InboxEntry} {log log' : List Shown}
    (h : Stored shell saved log) (hsub : log ⊆ log') : Stored shell saved log' :=
  ⟨fun row hrow ↦ (h.memory row hrow).mono hsub, fun row hrow ↦ (h.vault row hrow).mono hsub⟩

/-- A world and its record in which all rows are stored. -/
def Recorded (s : World × List Shown) : Prop := Stored s.1.inner.shell s.1.vault.inbox s.2

theorem Stored.reload {shell : Shell} {vault : Vault} {log : List Shown}
    (h : Stored shell vault.inbox log) : Stored vault.load.inner.shell vault.inbox log where
  memory row hrow := by
    have hloaded : ∃ old ∈ rowsIn vault.inbox, row.core = old.core := by
      obtain ⟨old, hold, rfl⟩ := List.mem_map.mp (hrow :
        row ∈ Shell.dropLegacyTombstones (vault.inbox.getD ⟨[], ∅, ∅, ∅, ∅⟩).rows)
      have hmem : old ∈ (vault.inbox.getD ⟨[], ∅, ∅, ∅, ∅⟩).rows := (List.mem_filter.mp hold).1
      refine ⟨old, ?_, by split_ifs <;> rfl⟩
      cases hsaved : vault.inbox with
      | none =>
        rw [hsaved] at hmem
        cases hmem
      | some saved =>
        rw [hsaved] at hmem
        exact hmem
    obtain ⟨old, hold, hcore⟩ := hloaded
    exact (h.vault old hold).of_core hcore
  vault := h.vault

theorem shown_of_off {β : Type} {action : Act β} {w : World} {answer : β} {log : List Shown}
    (h : ¬action.OnShell) : shown env action w answer log = log := by
  cases action with
  | op o =>
    cases o with
    | shell f => exact absurd trivial h
    | _ => rfl
  | reload => exact absurd trivial h
  | _ => rfl

theorem guards_recorded : Guards p env (shown env) (Shell.Change True False) Recorded :=
  .of_shell (fun _ hf _ _ h ↦ h.change hf) (fun _ _ _ _ hoff ↦ shown_of_off hoff)
    (fun _ _ _ h ↦ ⟨h.memory, h.memory⟩) fun _ _ h ↦ h.reload

/-! ## The two methods that run the timers -/

/-- The rows whose timer has run out when a call runs the timers, at the start of the call. -/
def Method.due (env : Environment) (w : World) : Method → List DisplayRow
  | expireNow =>
    w.inner.shell.inbox.filter (Shell.elapsed w.inner.shell.disappear (env.unix w.tick))
  | openAt =>
    let shell := w.vault.load.inner.shell
    shell.inbox.filter (Shell.elapsed shell.disappear (env.unix (w.tick + 2)))
  | _ => []

/-- The rows have no file name and no emoji. -/
def Bare (rows : List DisplayRow) : Prop := ∀ row ∈ rows, row.fileName = "" ∧ row.emoji = ""

theorem Stored.expire {shell : Shell} {saved : Option InboxEntry} {log : List Shown} {now : UInt64}
    (h : Stored shell saved log)
    (hbare : Bare (shell.inbox.filter (Shell.elapsed shell.disappear now)))
    (invites : FiniteMap String PendingInvite) :
    Stored { shell with inbox := Shell.expireInbox shell.disappear now shell.inbox,
                        pendingInvites := invites } saved log where
  memory row hrow := by
    obtain ⟨old, hold, rfl⟩ := List.mem_map.mp hrow
    split_ifs with helapsed
    · exact .expire (hbare old (List.mem_filter.mpr ⟨hold, helapsed⟩))
    · exact h.memory old hold
  vault := h.vault

theorem composed_saveExpired (expired : List DisplayRow) : Composed (Shell.Change True False) (do
    let _ ← saving do
      let inner ← memory
      let extra ← match inner.state with
        | some (.registered _) => idleMaintenance p
        | _ => pure []
      pure (expired ++ extra)) := by
  refine .discard (.saving (.bind silent_memory fun inner ↦ ?_))
  split
  exacts [.bind edits_idleMaintenance fun _ ↦ .pure _, .pure _]

theorem recorded_expireNow {s t : World × List Shown} (hs : Recorded s)
    (hbare : Bare (Method.expireNow.due env s.1))
    (ht : Program.Visits (watch p env (shown env)) (Method.expireNow.program p) s t) :
    Recorded t := by
  rcases ht with rfl | rfl | rfl | ht
  · exact hs
  · exact hs
  · exact hs
  · refine guards_recorded.composed (composed_saveExpired _) _ t ?_ ht
    exact (hs.expire hbare _).mono (List.subset_append_left _ _)

theorem recorded_timers {w : World} {log : List Shown} {t : World × List Shown}
    (session : Option HomeSession) (hloaded : Recorded (w, log))
    (hbare : Bare (w.inner.shell.inbox.filter
      (Shell.elapsed w.inner.shell.disappear (env.unix w.tick))))
    (ht : Program.Visits (watch p env (shown env)) (do
      let now ← nowUnix
      if w.inner.shell.inbox.any (Shell.elapsed w.inner.shell.disappear now) then
        saving (expireRows now)
      match session with
      | none => pure ()
      | some _ => do let _ ← (restockPublishUpto syncPrekeyStock).attempt : ClientM Unit)
      (w, log) t) : Recorded t := by
  have htail := composed_restock (K := Shell.Change True False) session
  rcases ht with rfl | ht
  · exact hloaded
  · change Program.Visits _ (if w.inner.shell.inbox.any
        (Shell.elapsed w.inner.shell.disappear (env.unix w.tick)) then _ else _)
      (w.ticked, log) t at ht
    split_ifs at ht
    · rcases ht with rfl | ht
      · exact hloaded
      · have hsaved := (@guards_recorded p env).composed
          (.bind (.bind .persist fun _ ↦ .pure ()) fun _ ↦ htail)
        refine hsaved _ t ?_ ht
        exact (hloaded.expire hbare _).mono (List.subset_append_left _ _)
    · refine (@guards_recorded p env).composed htail _ t ?_ ht
      exact hloaded

/-- What `openAt` does with a vault it has loaded. -/
def openLoaded (p : Outside) (inner : Inner) : ClientM Unit := do
  match inner.session? with
  | none => pure ()
  | some s => Program.ofExcept (p.formats.checkBase s.homeBase)
  let now ← nowUnix
  if inner.shell.inbox.any (Shell.elapsed inner.shell.disappear now) then
    saving (expireRows now)
  match inner.session? with
  | none => pure ()
  | some _ =>
    let _ ← (restockPublishUpto syncPrekeyStock).attempt

theorem recorded_openAt {s t : World × List Shown} (hs : Recorded s)
    (hbare : Bare (Method.openAt.due env s.1))
    (ht : Program.Visits (watch p env (shown env)) (Method.openAt.program p) s t) :
    Recorded t := by
  let w : World :=
    { s.1 with inner := s.1.vault.load.inner, taken := false, log := s.1.log ++ [.opened],
               tick := s.1.tick + 2 }
  have hloaded : Recorded (w, s.2) := hs.reload
  rcases ht with rfl | rfl | ht
  · exact hs
  · exact hloaded
  · change Program.Visits _ (openLoaded p w.inner) (w, s.2) t at ht
    unfold openLoaded at ht
    split at ht
    · exact recorded_timers none hloaded hbare ht
    · rename_i session _
      rcases visits_bind.mp ht with hcheck | ⟨_, s', hcheck, hlater⟩
      · exact (Keeps.ofExcept _) (w, s.2) t hloaded hcheck
      · obtain ⟨-, rfl⟩ := Program.run_ofExcept_eq_ok.mp hcheck
        exact recorded_timers (some session) hloaded hbare hlater

/-! ## Runs -/

/-- A call on the watched client. -/
abbrev shownStep (p : Outside) (env : Environment) :
    World × List Shown → Call → World × List Shown := watchStep p env (shown env) id

theorem recorded_step {s : World × List Shown} {call : Call} (hs : Recorded s)
    (hbare : Bare (call.method.due env s.1)) : Recorded (shownStep p env s call) := by
  refine watchStep_keeps (fun t ht ↦ ?_) (fun t ht ↦ ?_) (fun t ht ↦ ?_)
  · by_cases hopen : call.method = .openAt
    · rw [hopen] at hbare ht
      exact recorded_openAt hs hbare ht
    · by_cases hexpire : call.method = .expireNow
      · rw [hexpire] at hbare ht
        exact recorded_expireNow hs hbare ht
      · have hexpires : ¬call.method.Expires := by
          cases h : call.method <;> simp_all [Method.Expires]
        exact guards_recorded.composed (Method.composed (fun _ ↦ trivial) hexpires) _ t hs ht
  · exact ⟨nofun, ht.vault⟩
  · refine ⟨?_, ?_⟩ <;> unfold World.settle <;> split_ifs
    exacts [ht.memory, ht.memory, ht.vault, ht.vault]

/-- A message that has come in was sent, as its sender claims, when it was put in. -/
def Timely (log : List Shown) : Prop := ∀ e ∈ log, e.row.received = true → e.row.sentAt = e.time

/-- The call puts in no message that claims another time, and the timers hide no row with the name of
a file or an emoji. -/
structure Honest (p : Outside) (env : Environment) (s : World × List Shown) (call : Call) : Prop where
  timely : Timely (shownStep p env s call).2
  bare : Bare (call.method.due env s.1)

/-- The timers, whenever they run and whatever they are then, hide a message exactly when they have
run since it was displayed, and nothing is left of what is hidden, in memory or in the vault. -/
structure Vanishing (s : World × List Shown) : Prop where
  due : ∀ (i : ℕ) (row : DisplayRow), s.1.inner.shell.inbox[i]? = some row → row.received = true → row.hidden = false →
    ∃ e ∈ s.2, row.core = e.row.core ∧ ∀ timers (now : UInt64),
      ((Shell.expireInbox timers now s.1.inner.shell.inbox)[i]?.any (·.hidden)) = true ↔
        Shell.Due timers now row.convId e.time
  blank : ∀ row ∈ s.1.inner.shell.inbox ++ rowsIn s.1.vault.inbox, row.hidden = true → row.Blank

theorem hidden_expireInbox {timers : FiniteMap String UInt64} {now : UInt64}
    {inbox : List DisplayRow} {i : ℕ} {row : DisplayRow} (hrow : inbox[i]? = some row)
    (hseen : row.hidden = false) :
    ((Shell.expireInbox timers now inbox)[i]?.any (·.hidden)) = true ↔
      Shell.Due timers now row.convId row.displayedAt := by
  rw [← Shell.elapsed_iff hseen, Shell.expireInbox, List.getElem?_map, hrow]
  cases helapsed : Shell.elapsed timers now row <;> simp [helapsed, Shell.expireRow, hseen]

theorem Recorded.vanishing {s : World × List Shown} (h : Recorded s) (htimely : Timely s.2) :
    Vanishing s where
  due i row hrow hreceived hseen := by
    obtain ⟨htime, e, he, hcore⟩ := (h.memory row (List.mem_of_getElem? hrow)).seen hseen
    have hclaimed : row.displayedAt = e.time := calc
      row.displayedAt = row.sentAt := htime
      _ = e.row.sentAt := DisplayRow.sentAt_of_core hcore
      _ = e.time := htimely e he (by rw [← DisplayRow.received_of_core hcore, hreceived])
    refine ⟨e, he, hcore, fun timers now ↦ ?_⟩
    rw [← hclaimed]
    exact hidden_expireInbox hrow hseen
  blank row hrow hhidden := by
    rcases List.mem_append.mp hrow with hmem | hmem
    · exact (h.memory row hmem).blank hhidden
    · exact (h.vault row hmem).blank hhidden

/-- Over calls that put in honest times and let no name or emoji expire, messages vanish in time and
without a trace. -/
theorem vanishing_of_honest {w : World} (hinbox : w.inner.shell.inbox = [])
    (hvault : rowsIn w.vault.inbox = []) {calls : List Call}
    (hcalls : Allowed (shownStep p env) (Honest p env) (w, []) calls) :
    Vanishing (run (shownStep p env) (w, []) calls) := by
  have hstart : Recorded (w, []) ∧ Timely [] := by
    refine ⟨⟨?_, ?_⟩, nofun⟩
    · rw [hinbox]
      nofun
    · rw [hvault]
      nofun
  obtain ⟨hrecorded, htimely⟩ := run_invariant (fun s ↦ Recorded s ∧ Timely s.2)
    (fun _ _ hok hs ↦ ⟨recorded_step hs.1 hok.bare, hok.timely⟩) hcalls hstart
  exact hrecorded.vanishing htimely

/-! ## A message that claims to be old -/

/-- The home of `Environment.oneRow`, at a later time. -/
def Environment.oneRowAt (ms : ℕ) : Environment := { Environment.oneRow with clock := fun _ ↦ ms }

/-- The client takes in a text that claims to have been sent at time zero. -/
def World.fetched (ms : ℕ) : World × List Shown :=
  run (shownStep .transparent (.oneRowAt ms)) (.waiting, []) [.done .fetchNow]

set_option maxRecDepth 100000 in
/-- A text that comes in when it claims to have been sent vanishes in time. -/
theorem vanishing_of_honest_fetched : Vanishing (World.fetched 0) := by
  have htimely : ∀ e ∈ (World.fetched 0).2, e.row.received = true → e.row.sentAt = e.time := by
    decide +kernel
  exact @vanishing_of_honest .transparent (.oneRowAt 0) .waiting rfl rfl [.done .fetchNow]
    ⟨⟨htimely, nofun⟩, trivial⟩

set_option maxRecDepth 100000 in
theorem World.fetched_facts :
    ((fetched 100000).1.inner.shell.inbox[0]?.any fun row ↦
      row.received && !row.hidden && row.displayedAt == 0) = true ∧
      ∀ e ∈ (fetched 100000).2, e.time = 100 := by
  decide +kernel

/-- A text that comes in a hundred seconds later is hidden before its timer has run. -/
theorem World.fetched_not_vanishing : ¬Vanishing (World.fetched 100000) := by
  intro h
  obtain ⟨hrow, htimes⟩ := World.fetched_facts
  obtain ⟨row, hfirst, hfacts⟩ := (Option.any_eq_true _ _).mp hrow
  obtain ⟨⟨hreceived, hseen⟩, hzero⟩ : (row.received = true ∧ row.hidden = false) ∧
      row.displayedAt = 0 := by
    simpa using hfacts
  obtain ⟨e, he, -, hdue⟩ := h.due 0 row hfirst hreceived hseen
  have hhidden := (@hidden_expireInbox (AList.insert row.convId 1 ∅) 100 _ 0 row hfirst hseen).mpr
    ⟨1, AList.lookup_insert _, by decide, by rw [hzero]; decide⟩
  obtain ⟨secs, hsecs, -, hlate⟩ := (hdue _ 100).mp hhidden
  rw [AList.lookup_insert] at hsecs
  cases hsecs
  rw [htimes e he] at hlate
  exact absurd hlate (by decide)

end NemoMessenger.Client
