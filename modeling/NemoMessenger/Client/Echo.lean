import NemoMessenger.Client.Inside
import NemoMessenger.Client.Fetch

/-!
# Echoes of own commits

A commit of the client is merged as soon as the host has it, and comes back with the other rows of the
group. By then its epoch is over.
-/

namespace NemoMessenger.Client

open NemoMessenger.Data NemoMessenger.Wire
open Program (run run_bind act attempt ofExcept forEach fail)

variable {p : Outside} {env : Environment} {w : World} {row : MailboxRow} {selfHex : String}
  {body : Bytes}

/-! ## Commits that do not apply -/

/-- The message is of an epoch of the group that is over, and OpenMLS says so. -/
structure PastEpoch (p : Outside) (message : Bytes) (g : Group) : Prop where
  epoch : (p.openMls.messageEpoch message).any (· < g.mls.epoch)
  process : p.openMls.process g.mls message = (.error .wrongEpoch, g.mls.secrets)

/-- The message is of another group, which OpenMLS notices before it looks at the epoch. -/
def ForeignGroup (p : Outside) (message : Bytes) (g : Group) : Prop :=
  ∃ text, p.openMls.process g.mls message = (.error (.other text), g.mls.secrets)

/-- No group applies the message. -/
def TurnedDown (p : Outside) (message : Bytes) (inner : Inner) (i : ℕ) : Prop :=
  ∃ g, inner.groupAt i = some g ∧ (PastEpoch p message g ∨ ForeignGroup p message g)

theorem Inner.Same.turnedDown {inner inner' : Inner} {i : ℕ} (h : inner.Same inner')
    (hdown : TurnedDown p body inner i) : TurnedDown p body inner' i := by
  unfold TurnedDown
  rw [h.mls i]
  exact hdown

theorem PastEpoch.process_eq {g : Group} (h : PastEpoch p body g) :
    g.process p.openMls body = (.error .mlsWrongEpoch, g) := by
  simp only [Group.process, h.process]

theorem ForeignGroup.process_eq {g : Group} (h : ForeignGroup p body g) :
    ∃ text, g.process p.openMls body = (.error (.mls text), g) := by
  obtain ⟨text, h⟩ := h
  exact ⟨text, by simp only [Group.process, h]⟩

/-! ## The loops over the groups -/

/-- One group turns a handshake down. -/
theorem run_applyHandshakeAny_cons {i : ℕ} {is : List ℕ} {retry : Bool}
    (hdown : TurnedDown p body w.inner i) :
    ∃ w', run (inside p env) (applyHandshakeAny p body (i :: is) retry) w =
        run (inside p env) (applyHandshakeAny p body is retry) w' ∧ w.inner.Same w'.inner := by
  obtain ⟨g, hg, hdown⟩ := hdown
  have hsame := Inner.same_setGroupAt hg
  rw [applyHandshakeAny, run_bind, run_nowMs]
  dsimp only
  rw [run_bind, run_onGroup (w := w.ticked) hg]
  rcases hdown with hpast | hforeign
  · simp only [GroupOp.run, Group.applyHandshake, hpast.process_eq]
    rw [run_memory_bind]
    have hat : (w.inner.setGroupAt i g).groupAt i = some g := (hsame.mls i).trans hg
    simp only [World.inner_ticked, hat, Option.map_some, Option.getD_some, hpast.epoch, and_self,
      if_true]
    exact ⟨_, rfl, hsame⟩
  · obtain ⟨text, hprocess⟩ := hforeign.process_eq
    simp only [GroupOp.run, Group.applyHandshake, hprocess]
    rw [run_memory_bind]
    simp only [reduceCtorEq, false_and, if_false, CoreError.mlsRetryable, Bool.or_false]
    exact ⟨_, rfl, hsame⟩

/-- A handshake that every group turns down is done with. -/
theorem run_applyHandshakeAny {is : List ℕ} {retry : Bool} (w : World)
    (hdown : ∀ i ∈ is, TurnedDown p body w.inner i) :
    ∃ w', run (inside p env) (applyHandshakeAny p body is retry) w = (.ok (.of retry), w') ∧
      w.inner.Same w'.inner := by
  induction is generalizing w with
  | nil => exact ⟨w, rfl, .refl _⟩
  | cons i is ih =>
    obtain ⟨w', hrun, hsame⟩ :=
      @run_applyHandshakeAny_cons _ env _ _ _ is retry
        (hdown i List.mem_cons_self)
    obtain ⟨w'', hrun', hsame'⟩ := ih w' fun j hj ↦
      hsame.turnedDown (hdown j (List.mem_cons_of_mem _ hj))
    exact ⟨w'', hrun.trans hrun', hsame.trans hsame'⟩

/-- One group turns a RemoveBundle down. -/
theorem run_applyRemoveAny_cons {i : ℕ} {is : List ℕ} {retry : Bool} {bundle : RemoveBundle}
    {g : Group} (hdecode : RemoveBundle.decode body = .ok bundle) (hg : w.inner.groupAt i = some g)
    (hdown : PastEpoch p bundle.mlsCommit g ∨ ForeignGroup p bundle.mlsCommit g) :
    ∃ w' retry', run (inside p env) (applyRemoveAny body (i :: is) retry) w =
        run (inside p env) (applyRemoveAny body is retry') w' ∧ w.inner.Same w'.inner ∧
      (retry = true ∨ PastEpoch p bundle.mlsCommit g → retry' = true) := by
  have hsame := Inner.same_setGroupAt hg
  obtain ⟨live, state, hlive, -, -, -⟩ := Inner.groupAt_eq_some.mp hg
  rw [applyRemoveAny, run_memory_bind, run_bind, run_nowMs]
  simp only [hlive, hdecode]
  rw [run_bind, run_onGroup (w := w.ticked.ticked) hg]
  rcases hdown with hpast | hforeign
  · simp only [GroupOp.run, Group.applyRemoveBundle, hpast.process_eq, CoreError.mlsRetryable,
      Bool.or_true]
    exact ⟨_, _, rfl, hsame, fun _ ↦ rfl⟩
  · obtain ⟨text, hprocess⟩ := hforeign.process_eq
    simp only [GroupOp.run, Group.applyRemoveBundle, hprocess, CoreError.mlsRetryable,
      Bool.or_false]
    refine ⟨_, _, rfl, hsame, fun h ↦ h.resolve_right fun hpast ↦ ?_⟩
    obtain ⟨text', hforeign⟩ := hforeign
    rw [hpast.process] at hforeign
    cases hforeign

/-- A RemoveBundle of a past epoch is put off, whatever the groups after it say. -/
theorem run_applyRemoveAny {is : List ℕ} {retry : Bool} {bundle : RemoveBundle} (w : World)
    (hdecode : RemoveBundle.decode body = .ok bundle)
    (hdown : ∀ i ∈ is, TurnedDown p bundle.mlsCommit w.inner i)
    (hpast : retry = true ∨ ∃ i ∈ is, ∃ g, w.inner.groupAt i = some g ∧
      PastEpoch p bundle.mlsCommit g) :
    (run (inside p env) (applyRemoveAny body is retry) w).1 = .ok .retry := by
  induction is generalizing w retry with
  | nil =>
    have hretry : retry = true := hpast.resolve_right fun ⟨i, hi, _⟩ ↦ nomatch hi
    rw [hretry]
    rfl
  | cons i is ih =>
    obtain ⟨g, hg, hdowng⟩ := hdown i List.mem_cons_self
    obtain ⟨w', retry', hrun, hsame, hretry⟩ :=
      @run_applyRemoveAny_cons _ env _ _ _ is retry _ _ hdecode hg hdowng
    rw [hrun]
    refine ih w' (fun j hj ↦ hsame.turnedDown (hdown j (List.mem_cons_of_mem _ hj))) ?_
    rcases hpast with hfirst | ⟨j, hj, g', hg', hpast⟩
    · exact .inl (hretry (.inl hfirst))
    · rcases List.mem_cons.mp hj with rfl | hj
      · cases hg.symm.trans hg'
        exact .inl (hretry (.inr hpast))
      · exact .inr ⟨j, hj, g', (hsame.mls j).trans hg', hpast⟩

/-! ## Rows -/

/-- The row brings a commit of the client back, framed as a handshake or as a RemoveBundle: the group
it was made for is past its epoch, and the other groups do not know it. -/
structure Echo (p : Outside) (inner : Inner) (row : MailboxRow) (commit : Bytes) : Prop where
  framed : row.inner.paddedMessage.type = .mlsHandshake ∧ row.inner.paddedMessage.body = commit ∧
      p.openMls.isWelcome commit = false ∨
    row.inner.paddedMessage.type = .removeBundle ∧ ∃ bundle,
      RemoveBundle.decode row.inner.paddedMessage.body = .ok bundle ∧ bundle.mlsCommit = commit
  groups : ∀ i < inner.groups.length, TurnedDown p commit inner i
  own : ∃ i < inner.groups.length, ∃ g, inner.groupAt i = some g ∧ PastEpoch p commit g

/-- The row is done with at once, shows nothing, and leaves the groups and the conversations as they
are; the first pass goes on with the rows after it. -/
structure Neutral (p : Outside) (env : Environment) (w : World) (selfHex : String)
    (row : MailboxRow) : Prop where
  done : (run (inside p env) (applyGroupMailboxRow p selfHex row) w).1 = .ok (.done, [])
  same : w.inner.Same (run (inside p env) (applyGroupMailboxRow p selfHex row) w).2.inner
  goesOn : ∀ rows ackUpto newRows, ∃ w',
    run (inside p env) (firstPass p selfHex (row :: rows) ackUpto newRows) w =
        run (inside p env) (firstPass p selfHex rows row.seq newRows) w' ∧
      w'.inner.groups = w.inner.groups ∧ (∀ i, w'.inner.groupAt i = w.inner.groupAt i) ∧
      w'.inner.shell = { w.inner.shell with
        mailboxRetries := w.inner.shell.mailboxRetries.erase row.seq }

/-- What a row that is done with at once leaves for the rows after it. -/
theorem neutral_of_run {w' : World}
    (hrun : run (inside p env) (applyGroupMailboxRow p selfHex row) w = (.ok (.done, []), w'))
    (hsame : w.inner.Same w'.inner) : Neutral p env w selfHex row where
  done := by rw [hrun]
  same := by rw [hrun]; exact hsame
  goesOn rows ackUpto newRows := by
    rw [firstPass, run_bind, hrun]
    dsimp only
    rw [run_onShell_bind, List.append_nil]
    exact ⟨_, rfl, hsame.groups, hsame.mls, by rw [World.inner_ticked, hsame.shell]⟩

theorem Echo.turnedDown {commit : Bytes} (h : Echo p w.inner row commit) :
    ∀ i ∈ List.range w.inner.groups.length, TurnedDown p commit w.inner i :=
  fun i hi ↦ h.groups i (List.mem_range.mp hi)

/-- An own commit that comes back as a RemoveBundle is put off. -/
theorem Echo.retry {commit : Bytes} (h : Echo p w.inner row commit)
    (hframed : row.inner.paddedMessage.type = .removeBundle) :
    (run (inside p env) (applyGroupMailboxRow p selfHex row) w).1 = .ok (.retry, []) := by
  obtain ⟨-, bundle, hdecode, rfl⟩ := h.framed.resolve_left fun hhandshake ↦ by
    simp [hframed] at hhandshake
  obtain ⟨i, hi, hown⟩ := h.own
  have hretry := @run_applyRemoveAny _ env _ (List.range w.inner.groups.length) false _ w.ticked hdecode h.turnedDown
    (.inr ⟨i, List.mem_range.mpr hi, hown⟩)
  rw [applyGroupMailboxRow, run_memory_bind]
  simp only [hframed]
  rw [run_bind]
  generalize run (inside p env) (applyRemoveAny row.inner.paddedMessage.body
    (List.range w.inner.groups.length) false) w.ticked = r at hretry ⊢
  obtain ⟨answer, w'⟩ := r
  cases hretry
  rfl

/-- An own commit that comes back as a handshake is neutral. -/
theorem Echo.neutral {commit : Bytes} (h : Echo p w.inner row commit)
    (hframed : row.inner.paddedMessage.type ≠ .removeBundle) : Neutral p env w selfHex row := by
  obtain ⟨hhandshake, rfl, hwelcome⟩ := h.framed.resolve_right fun hbundle ↦ hframed hbundle.1
  obtain ⟨w', hrun, hsame⟩ := @run_applyHandshakeAny _ env _ (List.range w.inner.groups.length) false w.ticked h.turnedDown
  refine @neutral_of_run _ _ _ _ _ w' ?_ hsame
  rw [applyGroupMailboxRow, run_memory_bind]
  simp only [hhandshake, hwelcome, Bool.false_eq_true, if_false]
  rw [run_bind, hrun]
  rfl

/-- An own commit that comes back is neutral exactly when it is not framed as a RemoveBundle. -/
theorem echo_neutral_iff {commit : Bytes} (h : Echo p w.inner row commit) :
    Neutral p env w selfHex row ↔ row.inner.paddedMessage.type ≠ .removeBundle := by
  constructor
  · intro hneutral hframed
    have hdone := hneutral.done
    rw [h.retry hframed] at hdone
    cases hdone
  · exact h.neutral

/-- Every message is a commit of the first epoch, and too late. -/
def Outside.belated : Outside :=
  { Outside.transparent with
    openMls := { Outside.transparent.openMls with
      messageEpoch := fun _ ↦ some 0
      process := fun g _ ↦ (.error .wrongEpoch, g.secrets) } }

/-- A group in its second epoch, of nobody. -/
def Group.second : Group where
  mlsGroupId := [7]
  groupSigning := .replicate 32 0
  credentialId := .replicate 32 0
  lastOwnUpdate := 0
  pending := none
  announcedKeys := ∅
  mls := { epoch := 1, leaves := [], ownIndex := 0, secrets := [], pendingCommit := none }

/-- The client of `World.acquainted` with that group. -/
def Inner.grouped : Inner :=
  { Inner.empty (some (.registered { HomeSession.acquainted with
      install := HomeSession.acquainted.install.storeMls [7] Group.second.mls })) true none with
    groups := [{ host := ⟨.replicate 32 5, ⟨.replicate 32 0, .replicate 32 0⟩, ""⟩,
                 mls := Group.second.toGroupRecord, nickname := "" }] }

def World.grouped : World := { World.acquainted with inner := .grouped }

/-- A RemoveBundle around a commit of one byte, by nobody. -/
def RemoveBundle.ofNobody : Bytes := .replicate 99 0 ++ [1, 9]

/-- A row with these bytes. -/
def MailboxRow.ofNobody (type : MessageType) : MailboxRow where
  seq := 1
  inner := { InnerEnvelope.blank (.replicate 32 0) (.replicate 32 0) with
    paddedMessage := ⟨type, RemoveBundle.ofNobody, 1024⟩ }

theorem Inner.groupAt_grouped : Inner.grouped.groupAt 0 = some .second := by rfl

theorem Group.pastEpoch_second (commit : Bytes) : PastEpoch .belated commit .second :=
  ⟨rfl, rfl⟩

/-- Whatever comes back is an echo for that client. -/
theorem echo_grouped {row : MailboxRow} {commit : Bytes}
    (hframed : row.inner.paddedMessage.type = .mlsHandshake ∧ row.inner.paddedMessage.body = commit ∧
        Outside.belated.openMls.isWelcome commit = false ∨
      row.inner.paddedMessage.type = .removeBundle ∧ ∃ bundle,
        RemoveBundle.decode row.inner.paddedMessage.body = .ok bundle ∧ bundle.mlsCommit = commit) :
    Echo .belated .grouped row commit where
  framed := hframed
  groups i hi := by
    obtain rfl : i = 0 := Nat.lt_one_iff.mp hi
    exact ⟨_, Inner.groupAt_grouped, .inl (Group.pastEpoch_second commit)⟩
  own := ⟨0, Nat.one_pos, _, Inner.groupAt_grouped, Group.pastEpoch_second commit⟩

/-- A handshake that comes back is neutral. -/
theorem echo_neutral_iff_handshake :
    Neutral .belated .silent .grouped "" (.ofNobody .mlsHandshake) :=
  (echo_neutral_iff (w := .grouped)
    (echo_grouped (.inl ⟨rfl, rfl, rfl⟩))).mpr (by decide)

set_option maxRecDepth 10000 in
theorem RemoveBundle.toOption_decode_ofNobody : (RemoveBundle.decode ofNobody).toOption =
    some ⟨.replicate 32 0, .replicate 64 0, [9]⟩ := by
  decide +kernel

theorem RemoveBundle.decode_ofNobody :
    RemoveBundle.decode ofNobody = .ok ⟨.replicate 32 0, .replicate 64 0, [9]⟩ := by
  have htoOption := toOption_decode_ofNobody
  generalize RemoveBundle.decode ofNobody = answer at htoOption ⊢
  cases answer with
  | error e => cases htoOption
  | ok bundle => exact congrArg Except.ok (Option.some_injective _ htoOption)

/-- A RemoveBundle that comes back is not neutral. -/
theorem RemoveBundle.echo_not_neutral :
    Echo .belated .grouped (.ofNobody .removeBundle) [9] ∧
      ¬Neutral .belated .silent .grouped "" (.ofNobody .removeBundle) := by
  have hecho : Echo .belated .grouped (.ofNobody .removeBundle) [9] :=
    echo_grouped (.inr ⟨rfl, _, RemoveBundle.decode_ofNobody, rfl⟩)
  refine ⟨hecho, fun h ↦ ?_⟩
  have hdone := h.done
  rw [hecho.retry (w := .grouped) rfl] at hdone
  cases hdone

end NemoMessenger.Client
