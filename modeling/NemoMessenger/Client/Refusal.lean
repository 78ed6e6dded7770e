import NemoMessenger.Client.Frame
import NemoMessenger.Client.Method
import NemoMessenger.Data.Run

/-!
# Commits the host refuses

A commit of one's own is staged, offered to the host of the group, and merged once the host has it.
Where the host refuses it, it is to be discarded, as a group with a staged commit makes no other. An
observer watches the device: which commits have been refused, and what has become of their groups.
-/

namespace NemoMessenger.Client

open NemoMessenger.Data NemoMessenger.Wire
open Program (Only Keeps run run_bind act attempt ofExcept forEach fail)

/-! ## Refusals -/

/-- What `check_status` makes of an error status. -/
def CoreError.isStatus : CoreError → Bool
  | denied | alreadyRegistered | homeHttp _ => true
  | _ => false

/-- The request is answered with an error status. -/
def Environment.refuses (env : Environment) (tick : ℕ) (origin : String) (request : Request) :
    Bool :=
  match env.answer tick origin request with
  | .ok _ => false
  | .error e => e.isStatus

/-- The request is the append of a removal. -/
def Request.isRemoval : Request → Bool
  | groupAppend _ _ type _ => type = .removeBundle
  | _ => false

/-- A commit that has been refused: the live group it was staged for, and its epoch then. -/
structure Refusal where
  group : ℕ
  epoch : ℕ
  deriving DecidableEq, Repr

/-- The commit is not staged any more, the group is where it was, and can make another commit. -/
structure Refusal.Withdrawn (r : Refusal) (g : Group) : Prop where
  record : g.pending = none
  mls : g.mls.pendingCommit = none
  free : g.ensureNoPending = .ok ()
  epoch : g.mls.epoch = r.epoch

/-! ## The observer -/

/-- The id of the MLS group of a live group. -/
def Inner.mlsIdAt (inner : Inner) (i : ℕ) : Option Bytes := (inner.groupAt i).map (·.mlsGroupId)

/-- Between the two worlds a commit has been staged for a live group. -/
def World.stages (before after : World) (i : ℕ) : Bool :=
  (before.inner.groupAt i).any (·.pending.isNone) && (after.inner.groupAt i).any (·.pending.isSome)

/-- A world, the live group a commit was staged for last, the refused commits whose MLS groups have
had no other commit staged since, and the requests refused in the call under way. -/
structure Watched where
  world : World
  staging : Option ℕ
  refusals : List Refusal
  refused : List Request

namespace Watched

/-- The refusal of the commit that was staged last. -/
def refusal (s : Watched) : List Refusal :=
  (s.staging.bind fun i ↦ (s.world.inner.groupAt i).map fun g ↦ ⟨i, g.mls.epoch⟩).toList

/-- What an operation adds to the record, and the world it leaves. -/
def note (env : Environment) (s : Watched) (after : World) : {β : Type} → Op β → Watched
  | _, .group i _ =>
    if s.world.stages after i then
      { world := after
        staging := some i
        refusals := s.refusals.filter fun r ↦
          s.world.inner.mlsIdAt r.group ≠ s.world.inner.mlsIdAt i
        refused := s.refused }
    else { s with world := after }
  | _, .send origin request =>
    if request.offersCommit && env.refuses s.world.tick origin request then
      { s with
        world := after
        refusals := s.refusals ++ s.refusal
        refused := s.refused ++ [request] }
    else { s with world := after }
  | _, _ => { s with world := after }

/-- What an action adds to the record, and the world it leaves. -/
def noteAct (env : Environment) (s : Watched) (after : World) : {β : Type} → Act β → Watched
  | _, .op o => s.note env after o
  | _, _ => { s with world := after }

end Watched

/-- The device, watched. -/
def observer (p : Outside) (env : Environment) : Machine Act Watched where
  step action s :=
    let (answer, after) := (device p env).step action s.world
    (answer, s.noteAct env after action)

/-- The operations of the device, watched. -/
abbrev watching (p : Outside) (env : Environment) : Machine Op Watched :=
  (observer p env).comap Act.op

variable {p : Outside} {env : Environment} {α β : Type}

theorem watching_step (o : Op β) (s : Watched) : (watching p env).step o s =
    ((o.effect p env s.world).1, s.note env (o.effect p env s.world).2.ticked o) := rfl

namespace Watched

@[simp] theorem world_note (s : Watched) (after : World) (o : Op β) :
    (s.note env after o).world = after := by
  cases o with
  | group i op =>
    simp only [note]
    split_ifs <;> rfl
  | send origin request =>
    simp only [note]
    split_ifs <;> rfl
  | _ => rfl

theorem world_noteAct (s : Watched) (after : World) (action : Act β) :
    (s.noteAct env after action).world = after := by
  cases action with
  | op o => exact s.world_note after o
  | _ => rfl

end Watched

/-- Watching changes nothing. -/
theorem run_observer (q : ClientM α) (s : Watched) :
    (run (observer p env) q s).1 = (run (device p env) q s.world).1 ∧
      (run (observer p env) q s).2.world = (run (device p env) q s.world).2 :=
  Program.run_related (R := fun (s : Watched) w ↦ s.world = w)
    (fun {_} action {s _} h ↦ h ▸ ⟨rfl, s.world_noteAct _ action⟩) q rfl

/-! ## Groups -/

namespace Group

variable (crypto : Crypto) (openMls : OpenMls) {g : Group}

theorem mlsGroupId_process (g : Group) (message : Bytes) :
    (g.process openMls message).2.mlsGroupId = g.mlsGroupId := by
  simp only [process]
  split <;> rfl

theorem mlsGroupId_finishOwnCommit (g : Group) (now : ℕ) :
    (g.finishOwnCommit openMls now).2.mlsGroupId = g.mlsGroupId := by
  unfold finishOwnCommit
  split <;> rfl

theorem mlsGroupId_mergeForeign (g : Group) (commit : StagedCommit) :
    (g.mergeForeign openMls commit).2.mlsGroupId = g.mlsGroupId := by
  unfold mergeForeign
  split <;> rfl

theorem mlsGroupId_applyHandshake (g : Group) (message : Bytes) (now : ℕ) :
    (g.applyHandshake openMls message now).2.mlsGroupId = g.mlsGroupId := by
  have hprocess := g.mlsGroupId_process openMls message
  unfold applyHandshake
  grind [mlsGroupId_finishOwnCommit, mlsGroupId_mergeForeign]

theorem mlsGroupId_applyRemoveBundle (g : Group) (hostGroupId : Key) (bundle : RemoveBundle)
    (now : ℕ) : (g.applyRemoveBundle crypto openMls hostGroupId bundle now).2.mlsGroupId =
      g.mlsGroupId := by
  have hprocess := g.mlsGroupId_process openMls bundle.mlsCommit
  unfold applyRemoveBundle
  split
  · next e g' hg =>
    rw [hg] at hprocess
    exact hprocess
  · next sender content g' hg =>
    rw [hg] at hprocess
    split
    · exact (g'.mlsGroupId_finishOwnCommit openMls now).trans hprocess
    · exact (g'.mlsGroupId_finishOwnCommit openMls now).trans hprocess
    · refine Eq.trans ?_ hprocess
      repeat' split
      any_goals rfl
      exact g'.mlsGroupId_mergeForeign openMls _

theorem ensureNoPending_of_none (h : g.pending = none) : g.ensureNoPending = .ok () := by
  simp [ensureNoPending, h]

theorem pending_of_ensureNoPending (h : g.ensureNoPending = .ok ()) : g.pending = none := by
  unfold ensureNoPending at h
  split_ifs at h with hpending
  simpa using hpending

end Group

/-- An operation that stages a commit when it succeeds, and otherwise leaves the group as it is. -/
def Group.StagesOr (g : Group) (r : GroupResult α) : Prop :=
  (∃ a, r.1 = .ok a ∧ g.pending = none ∧ r.2.pending.isSome) ∨ ∃ e, r = (.error e, g)

namespace Group

variable (g : Group) (seed : Bytes)

theorem stagesOr_selfUpdate (now : ℕ) :
    g.StagesOr (g.selfUpdate p.crypto p.openMls now seed) := by
  unfold selfUpdate
  split
  · exact .inr ⟨_, rfl⟩
  · exact .inr ⟨_, rfl⟩
  · next leaf hfree _ =>
    split
    · exact .inr ⟨_, rfl⟩
    · exact .inl ⟨_, rfl, pending_of_ensureNoPending hfree, rfl⟩

theorem stagesOr_admitMember (keyPackage : Bytes) (credentialId : Key) :
    g.StagesOr (g.admitMember p.openMls keyPackage credentialId seed) := by
  unfold admitMember
  split
  · exact .inr ⟨_, rfl⟩
  · exact .inr ⟨_, rfl⟩
  · next leaf suite hfree _ =>
    split_ifs
    · exact .inr ⟨_, rfl⟩
    · split
      · exact .inr ⟨_, rfl⟩
      · split_ifs
        · exact .inr ⟨_, rfl⟩
        · exact .inr ⟨_, rfl⟩
        · split
          · exact .inr ⟨_, rfl⟩
          · exact .inl ⟨_, rfl, pending_of_ensureNoPending hfree, rfl⟩

theorem stagesOr_remove (hostGroupId credentialId : Key) :
    g.StagesOr (g.remove p.crypto p.openMls hostGroupId credentialId seed) := by
  unfold remove
  split
  · exact .inr ⟨_, rfl⟩
  · exact .inr ⟨_, rfl⟩
  · next index hfree _ =>
    split
    · exact .inr ⟨_, rfl⟩
    · exact .inl ⟨_, rfl, pending_of_ensureNoPending hfree, rfl⟩

end Group

/-- The operation stages a commit, as `took` says of its answer, or leaves the group as it is. -/
def GroupOp.Stages (p : Outside) (op : GroupOp β) (took : β → Prop) : Prop :=
  ∀ seed g, took (op.run p seed g).1 ∧ g.pending = none ∧ (op.run p seed g).2.pending.isSome ∨
    ¬took (op.run p seed g).1 ∧ (op.run p seed g).2 = g

namespace GroupOp

theorem stages_of_stagesOr {op : GroupOp (Except CoreError α)}
    (h : ∀ seed g, Group.StagesOr g (op.run p seed g)) : op.Stages p fun a ↦ ∃ b, a = .ok b := by
  intro seed g
  rcases h seed g with ⟨a, hanswer, hpending, hstaged⟩ | ⟨e, herror⟩
  · exact .inl ⟨⟨a, hanswer⟩, hpending, hstaged⟩
  · simp [herror]

theorem stages_maybeSelfUpdate (now : ℕ) :
    (maybeSelfUpdate now).Stages p fun a ↦ ∃ commit, a = .ok (some commit) := by
  intro seed g
  simp only [run, Group.maybeSelfUpdate]
  split_ifs
  · simp
  · rcases g.stagesOr_selfUpdate seed now with ⟨a, hanswer, hpending, hstaged⟩ | ⟨e, herror⟩
    · exact .inl ⟨⟨a, by rw [hanswer]; rfl⟩, hpending, hstaged⟩
    · simp [herror, Except.map]
  · simp

theorem stages_admitMember (keyPackage : Bytes) (credentialId : Key) :
    (admitMember keyPackage credentialId).Stages p fun a ↦ ∃ b, a = .ok b :=
  stages_of_stagesOr fun seed g ↦ g.stagesOr_admitMember seed keyPackage credentialId

theorem stages_remove (hostGroupId credentialId : Key) :
    (remove hostGroupId credentialId).Stages p fun a ↦ ∃ b, a = .ok b :=
  stages_of_stagesOr fun seed g ↦ g.stagesOr_remove seed hostGroupId credentialId

/-- No operation moves a record to another MLS group. -/
theorem mlsGroupId_run (op : GroupOp β) (seed : Bytes) (g : Group) :
    (op.run p seed g).2.mlsGroupId = g.mlsGroupId := by
  cases op with
  | maybeSelfUpdate now =>
    simp only [run, Group.maybeSelfUpdate, Group.selfUpdate]
    grind [Group.stage]
  | admitMember keyPackage credentialId =>
    simp only [run, Group.admitMember]
    grind [Group.stage]
  | remove hostGroupId credentialId =>
    simp only [run, Group.remove]
    grind [Group.stage]
  | discardPending => rfl
  | applyHandshake message now => exact g.mlsGroupId_applyHandshake p.openMls message now
  | applyRemoveBundle id bundle now =>
    exact g.mlsGroupId_applyRemoveBundle p.crypto p.openMls id bundle now
  | applySigningKeyReplace body =>
    simp only [run, Group.applySigningKeyReplace]
    grind
  | encrypt plaintext now =>
    simp only [run, Group.encrypt]
    grind
  | decryptWithSender ciphertext =>
    have hprocess := g.mlsGroupId_process p.openMls ciphertext
    simp only [run, Group.decryptWithSender]
    grind

end GroupOp

/-! ## What changes the groups -/

namespace Inner

variable {inner : Inner} {i j : ℕ} {g g' : Group}

theorem mlsIdAt_of_groupAt (h : inner.groupAt i = some g) :
    inner.mlsIdAt i = some g.mlsGroupId := by
  simp [mlsIdAt, h]

theorem groupAt_congr {inner inner' : Inner} (hgroups : inner'.groups = inner.groups)
    (hstorage : inner'.state.map (·.install.mlsStorage.groups) =
      inner.state.map (·.install.mlsStorage.groups)) (i : ℕ) :
    inner'.groupAt i = inner.groupAt i := by
  unfold groupAt
  rw [hgroups]
  cases hstate : inner.state <;> cases hstate' : inner'.state <;> simp_all

theorem groupAt_mapSession (inner : Inner) {f : HomeSession → HomeSession}
    (hf : ∀ s, (f s).install = s.install) (i : ℕ) :
    (inner.mapSession f).groupAt i = inner.groupAt i := by
  unfold mapSession
  split
  · next s hs =>
    refine groupAt_congr ?_ ?_ i
    · rfl
    · simp [hs, ClientState.install, hf]
  · rfl

theorem groupAt_setGroupAt (h : inner.groupAt i = some g) :
    (inner.setGroupAt i g').groupAt i = some g' := by
  obtain ⟨live, state, hlive, hstate, -, -⟩ := groupAt_eq_some.mp h
  refine groupAt_eq_some.mpr ⟨{ live with mls := g'.toGroupRecord },
    state.mapInstall fun install ↦ install.storeMls g'.mlsGroupId g'.mls, ?_, ?_, rfl, ?_⟩
  · simp [setGroupAt, hlive]
  · simp [setGroupAt, mapInstall, hstate]
  · cases state <;> simp [ClientState.mapInstall, ClientState.install, Installation.storeMls]

/-- The live groups of other MLS groups stay as they are. -/
theorem groupAt_setGroupAt_of_ne (h : inner.groupAt j = some g) (hne : j ≠ i)
    (hid : g.mlsGroupId ≠ g'.mlsGroupId) : (inner.setGroupAt i g').groupAt j = some g := by
  obtain ⟨live, state, hlive, hstate, hrecord, hmls⟩ := groupAt_eq_some.mp h
  refine groupAt_eq_some.mpr ⟨live,
    state.mapInstall fun install ↦ install.storeMls g'.mlsGroupId g'.mls, ?_, ?_, hrecord, ?_⟩
  · simp [setGroupAt, hlive, hne.symm]
  · simp [setGroupAt, mapInstall, hstate]
  · rw [← hmls]
    cases state <;>
      simp [ClientState.mapInstall, ClientState.install, Installation.storeMls, hid]

end Inner

theorem Op.Plain.groupAt_effect {o : Op β} (h : o.Plain) (w : World) (i : ℕ) :
    (o.effect p env w).2.inner.groupAt i = w.inner.groupAt i := by
  cases o with
  | session update => exact w.inner.groupAt_mapSession (by cases update <;> exact fun _ ↦ rfl) i
  | ratchet op =>
    simp only [Op.effect]
    split
    · rfl
    · refine Inner.groupAt_congr ?_ ?_ i
      · rfl
      · simp only [Inner.mapInstall, Option.map_map]
        congr 1
        funext state
        cases state <;> rfl
  | install op => exact h.elim
  | group i op => exact h.elim
  | nickname groupId name => exact h.elim
  | enroll host g name => exact h.elim
  | pending f => exact h.elim
  | minted invite => exact h.elim
  | mnemonic => exact h.elim
  | media => exact h.elim
  | _ => rfl

/-! ## What is to hold of the record -/

namespace Watched

/-- The refused commit has been withdrawn. -/
def Settled (s : Watched) (r : Refusal) : Prop :=
  ∃ g, s.world.inner.groupAt r.group = some g ∧ r.Withdrawn g

/-- No refused commit is staged. -/
def Unwedged (s : Watched) : Prop := ∀ r ∈ s.refusals, s.Settled r

/-- Moreover, none was for the MLS group of a live group. -/
def Apart (s : Watched) (i : ℕ) : Prop :=
  ∀ r ∈ s.refusals, s.Settled r ∧ s.world.inner.mlsIdAt r.group ≠ s.world.inner.mlsIdAt i

/-- Only requests that may be refused have been. -/
def Spared (s : Watched) (ok : Request → Bool) : Prop := ∀ request ∈ s.refused, ok request = true

/-- No refused commit is staged, if only requests that may be refused have been. -/
def Sound (ok : Request → Bool) (s : Watched) : Prop := s.Spared ok → s.Unwedged

/-- Then, moreover, none was for the MLS group of a live group. -/
def Fresh (ok : Request → Bool) (i : ℕ) (s : Watched) : Prop := s.Spared ok → s.Apart i

variable {s t : Watched} {ok : Request → Bool} {i : ℕ}

theorem Apart.unwedged (h : s.Apart i) : s.Unwedged := fun r hr ↦ (h r hr).1

theorem Fresh.sound (h : s.Fresh ok i) : s.Sound ok := fun hspared ↦ (h hspared).unwedged

/-- The record is the same, and so are the groups. -/
structure Alike (s t : Watched) : Prop where
  groups : ∀ i, t.world.inner.groupAt i = s.world.inner.groupAt i
  staging : t.staging = s.staging
  refusals : t.refusals = s.refusals
  refused : t.refused = s.refused

theorem Alike.settled (h : s.Alike t) {r : Refusal} (hr : s.Settled r) : t.Settled r := by
  obtain ⟨g, hg, hwithdrawn⟩ := hr
  exact ⟨g, (h.groups _).trans hg, hwithdrawn⟩

theorem Alike.spared (h : s.Alike t) (ht : t.Spared ok) : s.Spared ok := by
  unfold Spared at ht
  rwa [h.refused] at ht

theorem Alike.sound (h : s.Alike t) (hs : s.Sound ok) : t.Sound ok := by
  intro hspared r hr
  rw [h.refusals] at hr
  exact h.settled (hs (h.spared hspared) r hr)

theorem Alike.fresh (h : s.Alike t) (hs : s.Fresh ok i) : t.Fresh ok i := by
  intro hspared r hr
  rw [h.refusals] at hr
  obtain ⟨hsettled, hid⟩ := hs (h.spared hspared) r hr
  refine ⟨h.settled hsettled, ?_⟩
  unfold Inner.mlsIdAt
  rwa [h.groups, h.groups]

/-! ## Plain actions -/

theorem note_of_plain {o : Op β} (h : o.Plain) (s : Watched) (after : World) :
    s.note env after o = { s with world := after } := by
  cases o with
  | send origin request =>
    have hrequest : request.offersCommit = false := Request.offersCommit_of_entrusts h
    simp [note, hrequest]
  | group i op => exact h.elim
  | _ => rfl

theorem alike_of_plain {o : Op β} (h : o.Plain) (s : Watched) :
    s.Alike ((watching p env).step o s).2 := by
  have hstep : ((watching p env).step o s).2 =
      { s with world := (o.effect p env s.world).2.ticked } := note_of_plain h s _
  rw [hstep]
  exact ⟨fun i ↦ h.groupAt_effect s.world i, rfl, rfl, rfl⟩

/-! ## Actions on a group -/

/-- The group of a live group has changed, and no refused commit was for its MLS group. -/
theorem apart_of_setGroupAt {g g' : Group} {after : World} {refusals : List Refusal}
    (hg : s.world.inner.groupAt i = some g) (hid : g'.mlsGroupId = g.mlsGroupId)
    (hafter : after.inner = s.world.inner.setGroupAt i g')
    (h : ∀ r ∈ refusals, s.Settled r ∧ s.world.inner.mlsIdAt r.group ≠ s.world.inner.mlsIdAt i)
    {staging : Option ℕ} {refused : List Request} :
    Apart ⟨after, staging, refusals, refused⟩ i := by
  intro r hr
  obtain ⟨⟨h', hh', hwithdrawn⟩, hne⟩ := h r hr
  rw [Inner.mlsIdAt_of_groupAt hh', Inner.mlsIdAt_of_groupAt hg, ne_eq, Option.some.injEq] at hne
  have hri : r.group ≠ i := by
    intro hri
    rw [hri, hg] at hh'
    exact hne (congrArg (·.mlsGroupId) (Option.some_injective _ hh').symm)
  have hleft : after.inner.groupAt r.group = some h' := by
    rw [hafter]
    exact Inner.groupAt_setGroupAt_of_ne hh' hri (hid ▸ hne)
  have hi : after.inner.groupAt i = some g' := by
    rw [hafter]
    exact Inner.groupAt_setGroupAt hg
  refine ⟨⟨h', hleft, hwithdrawn⟩, ?_⟩
  rw [Inner.mlsIdAt_of_groupAt hleft, Inner.mlsIdAt_of_groupAt hi, hid, ne_eq, Option.some.injEq]
  exact hne

/-- An operation on the group of a live group keeps its MLS group clear of refused commits, or makes
it clear of them by staging another. -/
theorem apart_group (op : GroupOp β) (hs : s.Unwedged)
    (h : s.world.stages ((watching p env).step (.group i op) s).2.world i = true ∨ s.Apart i) :
    ((watching p env).step (.group i op) s).2.Apart i := by
  cases hg : s.world.inner.groupAt i with
  | none =>
    have hstep : ((watching p env).step (.group i op) s).2 =
        { s with world := s.world.ticked } := by
      simp [watching_step, Op.effect, hg, note, World.stages]
    have happart : s.Apart i := by
      rcases h with h | h
      · simp [World.stages, hg] at h
      · exact h
    rw [hstep]
    exact happart
  | some g =>
    have hid := op.mlsGroupId_run (p := p) (env.draw s.world.tick) g
    have hinner : (Op.effect p env (.group i op) s.world).2.ticked.inner =
        s.world.inner.setGroupAt i (op.run p (env.draw s.world.tick) g).2 := by
      simp [Op.effect, hg]
    simp only [watching_step, world_note] at h ⊢
    simp only [note]
    split_ifs with hstages
    · refine apart_of_setGroupAt hg hid hinner fun r hr ↦ ?_
      obtain ⟨hmem, hne⟩ := List.mem_filter.mp hr
      exact ⟨hs r hmem, of_decide_eq_true hne⟩
    · exact apart_of_setGroupAt hg hid hinner (h.resolve_left hstages)

theorem spared_of_note {o : Op β} {after : World} (h : (s.note env after o).Spared ok) :
    s.Spared ok := by
  cases o with
  | group i op =>
    simp only [note] at h
    split_ifs at h <;> exact h
  | send origin request =>
    simp only [note] at h
    split_ifs at h
    · exact fun r hr ↦ h r (List.mem_append_left _ hr)
    · exact h
  | _ => exact h

end Watched

/-- What a part of a method does that has staged a commit for a live group: none of its requests
that offer the commit may be refused. -/
def Op.Closing (ok : Request → Bool) (i : ℕ) : (β : Type) → Op β → Prop
  | _, send _ request => request.offersCommit = true → ok request = false
  | _, group j _ => j = i
  | _, o => o.Plain

abbrev Closing (ok : Request → Bool) (i : ℕ) (q : SessionM α) : Prop := Only (Op.Closing ok i) q

variable {ok : Request → Bool} {i : ℕ} {s : Watched}

theorem Op.Plain.closing {o : Op β} (h : o.Plain) : o.Closing ok i := by
  cases o with
  | send origin request =>
    have hrequest : request.offersCommit = false := Request.offersCommit_of_entrusts h
    exact fun hoffers ↦ by simp [hrequest] at hoffers
  | group j op => exact h.elim
  | _ => exact h

/-- Such an action keeps the MLS group clear of refused commits. -/
theorem Op.Closing.fresh {o : Op β} (h : o.Closing ok i) (hs : s.Fresh ok i) :
    ((watching p env).step o s).2.Fresh ok i := by
  cases o with
  | send origin request =>
    by_cases hrefuses : request.offersCommit = true ∧
        env.refuses s.world.tick origin request = true
    · intro hspared
      have hok := hspared request (by simp [watching_step, Watched.note, hrefuses])
      rw [h hrefuses.1] at hok
      cases hok
    · have hnote (after : World) : s.note env after (.send origin request) =
          { s with world := after } := by
        simp only [Watched.note, Bool.and_eq_true, hrefuses, if_false]
      rw [watching_step, hnote]
      exact Watched.Alike.fresh ⟨fun _ ↦ rfl, rfl, rfl, rfl⟩ hs
  | group j op =>
    obtain rfl : j = i := h
    intro hspared
    have happart := hs (Watched.spared_of_note hspared)
    exact Watched.apart_group op happart.unwedged (.inr happart)
  | _ =>
    refine (Watched.alike_of_plain ?_ s).fresh hs
    exact h

theorem keeps_sound {q : SessionM α} (h : Plain q) :
    Keeps (watching p env) (fun s ↦ s.Sound ok) q :=
  h.keeps fun _ s ho hs ↦ (Watched.alike_of_plain ho s).sound hs

theorem keeps_fresh {q : SessionM α} (h : Closing ok i q) :
    Keeps (watching p env) (fun s ↦ s.Fresh ok i) q :=
  h.keeps fun _ _ ho hs ↦ ho.fresh hs

/-! ## Parts of methods that leave no refused commit -/

/-- Run from a sound record, the program leaves a sound record. -/
abbrev Settles (p : Outside) (env : Environment) (ok : Request → Bool) (q : SessionM α) : Prop :=
  Program.Leaves (watching p env) (Watched.Sound ok) q

theorem Plain.settles {q : SessionM α} (h : Plain q) : Settles p env ok q :=
  (keeps_sound h).leaves

/-- The answer of an operation on a live group, where there is one. -/
theorem run_watching_onGroup {g : Group} (hg : s.world.inner.groupAt i = some g) (op : GroupOp β) :
    run (watching p env) (onGroup i op) s =
      (.ok (op.run p (env.draw s.world.tick) g).1, ((watching p env).step (.group i op) s).2) := by
  have hanswer : ((watching p env).step (.group i op) s).1 =
      some (op.run p (env.draw s.world.tick) g).1 := by
    simp [watching_step, Op.effect, hg]
  rw [onGroup, run_bind, Program.run_act, hanswer]
  rfl

theorem run_watching_onGroup_of_none (hg : s.world.inner.groupAt i = none) (op : GroupOp β) :
    ∃ t, run (watching p env) (onGroup i op) s = (.error (.text "unknown group"), t) ∧
      s.Alike t := by
  refine ⟨{ s with world := s.world.ticked }, ?_, fun _ ↦ rfl, rfl, rfl, rfl⟩
  have hstep : (watching p env).step (.group i op) s =
      (none, { s with world := s.world.ticked }) := by
    simp [watching_step, Op.effect, hg, Watched.note, World.stages]
  rw [onGroup, run_bind, Program.run_act, hstep]
  rfl

/-- The group afterwards. -/
theorem groupAt_step {g : Group} (hg : s.world.inner.groupAt i = some g) (op : GroupOp β) :
    ((watching p env).step (.group i op) s).2.world.inner.groupAt i =
      some (op.run p (env.draw s.world.tick) g).2 := by
  rw [watching_step, Watched.world_note]
  simp only [Op.effect, hg]
  exact Inner.groupAt_setGroupAt hg

/-- An operation that stages a commit for a live group, and what it leaves where it does not. -/
theorem GroupOp.Stages.step {op : GroupOp β} {took : β → Prop} (hop : op.Stages p took) {g : Group}
    (hg : s.world.inner.groupAt i = some g) (hs : s.Sound ok) :
    took (op.run p (env.draw s.world.tick) g).1 ∧
        ((watching p env).step (.group i op) s).2.Fresh ok i ∧
        ((watching p env).step (.group i op) s).2.staging = some i ∨
      ¬took (op.run p (env.draw s.world.tick) g).1 ∧
        s.Alike ((watching p env).step (.group i op) s).2 := by
  have hinner : (Op.effect p env (.group i op) s.world).2.ticked.inner =
      s.world.inner.setGroupAt i (op.run p (env.draw s.world.tick) g).2 := by
    simp [Op.effect, hg]
  rcases hop (env.draw s.world.tick) g with ⟨htook, hnone, hsome⟩ | ⟨hnot, hsame⟩
  · have hstages : s.world.stages (Op.effect p env (.group i op) s.world).2.ticked i = true := by
      rw [World.stages, hinner, Inner.groupAt_setGroupAt hg, hg]
      simp [hnone, hsome]
    refine .inl ⟨htook, fun hspared ↦ ?_, ?_⟩
    · refine Watched.apart_group op (hs (Watched.spared_of_note hspared)) (.inl ?_)
      rwa [watching_step, Watched.world_note]
    · simp only [watching_step, Watched.note, hstages, if_true]
  · rw [hsame] at hinner
    have hstages : s.world.stages (Op.effect p env (.group i op) s.world).2.ticked i = false := by
      rw [World.stages, hinner, Inner.groupAt_setGroupAt hg, hg]
      cases hpending : g.pending <;> simp [hpending]
    refine .inr ⟨hnot, ?_⟩
    rw [watching_step]
    simp only [Watched.note, hstages, Bool.false_eq_true, if_false]
    refine ⟨fun j ↦ ?_, rfl, rfl, rfl⟩
    dsimp only
    rw [hinner]
    exact (Inner.same_setGroupAt hg).mls j

/-- A part of a method that stages a commit, and goes on from there as it should. -/
theorem settles_onGroup {op : GroupOp β} {took : β → Prop} (hop : op.Stages p took)
    {f : β → SessionM α} (hnot : ∀ a, ¬took a → Plain (f a)) (hclosing : ∀ a, Closing ok i (f a)) :
    Settles p env ok (onGroup i op >>= f) := by
  intro s hs
  cases hg : s.world.inner.groupAt i with
  | none =>
    obtain ⟨t, hrun, halike⟩ := @run_watching_onGroup_of_none p env _ _ _ hg op
    rw [Program.run_bind_of_error hrun]
    exact halike.sound hs
  | some g =>
    rw [Program.run_bind_of_ok (run_watching_onGroup hg op)]
    rcases hop.step hg hs with ⟨-, hfresh, -⟩ | ⟨hnone, halike⟩
    · exact ((keeps_fresh (hclosing _)).run_end hfresh).sound
    · exact (hnot _ hnone).settles _ (halike.sound hs)

/-! ## The parts that offer commits -/

theorem Plain.closing {q : SessionM α} (h : Plain q) : Closing ok i q :=
  h.mono fun _ _ ↦ Op.Plain.closing

theorem closing_onGroup (op : GroupOp β) : Closing ok i (onGroup i op) := by
  refine .bind (.act rfl) fun answer ↦ ?_
  cases answer
  exacts [.fail _, .pure _]

theorem closing_callGroup {groupId : Key} {request : Request} (h : ok request = false) :
    Closing ok i (callGroup p groupId request) :=
  .bind messaging_session.plain.closing fun _ ↦ .bind (.act fun _ ↦ h) fun _ ↦ .ofExcept _

theorem closing_groupAppend {host : HostGroup} {type : MessageType} {body : Bytes}
    (h : ok (.groupAppend host.groupId host.cred type body) = false) :
    Closing ok i (groupAppend p host type body) :=
  .bind (closing_callGroup h) fun _ ↦ .pure _

/-- Only appends of removals may be refused. -/
def OnlyRemovals (ok : Request → Bool) : Prop :=
  ∀ request, request.isRemoval = false → ok request = false

theorem settles_flushMlsUpdate (hok : OnlyRemovals ok) (i : ℕ) (live : LiveGroup) :
    Settles p env ok (flushMlsUpdate p i live) := by
  refine Program.Leaves.bind messaging_memory.plain.settles fun inner ↦ ?_
  split_ifs
  · exact Plain.settles (.pure _)
  · refine Program.Leaves.bind messaging_nowMs.plain.settles fun ms ↦ ?_
    refine settles_onGroup (GroupOp.stages_maybeSelfUpdate ms) (fun a hnot ↦ ?_) fun a ↦ ?_
    · rcases a with e | _ | commit
      · exact .fail e
      · exact .pure _
      · exact absurd ⟨commit, rfl⟩ hnot
    · refine .bind (.ofExcept a) fun commit ↦ ?_
      cases commit with
      | none => exact .pure _
      | some commit =>
        exact .bind (closing_groupAppend (hok _ rfl)) fun _ ↦
          .bind messaging_nowMs.plain.closing fun _ ↦ .bind (closing_onGroup _) fun _ ↦
            .bind (.ofExcept _) fun _ ↦ .pure _

theorem plain_liveGroupAt (groupId : Key) : Plain (liveGroupAt groupId) := by
  refine .bind messaging_memory.plain fun inner ↦ ?_
  split
  · exact .fail _
  · split
    · exact .fail _
    · exact .pure _

theorem plain_findGroupMut (groupIdHex : String) : Plain (findGroupMut groupIdHex) :=
  .bind (.ofExcept _) fun _ ↦ plain_liveGroupAt _

theorem settles_admitMember (hok : OnlyRemovals ok) (req : JoinRequest) (looked : PendingLookup) :
    Settles p env ok (admitMember p req looked) := by
  refine (plain_liveGroupAt _).settles.bind fun ⟨i, live⟩ ↦
    (settles_flushMlsUpdate hok i live).bind fun _ ↦
      (plain_liveGroupAt _).settles.bind fun ⟨_, live⟩ ↦ ?_
  refine settles_onGroup (GroupOp.stages_admitMember _ _) (fun a hnot ↦ ?_) fun a ↦ ?_
  · cases a with
    | error e => exact .fail e
    | ok b => exact absurd ⟨b, rfl⟩ hnot
  · exact .bind (.ofExcept a) fun ⟨commit, welcome⟩ ↦
      .bind (closing_callGroup (hok _ rfl)) fun _ ↦
        .bind (closing_groupAppend (hok _ rfl)) fun _ ↦
          .bind messaging_nowMs.plain.closing fun _ ↦ .bind (closing_onGroup _) fun _ ↦
            .bind (.ofExcept _) fun _ ↦ .bind (messaging_wrap ..).plain.closing fun _ ↦
              .bind (messaging_postEnvelopeMaybeBatch ..).plain.closing fun _ ↦ .pure _

theorem plain_sendGroupName (groupId : Key) (invitee : IdentityId) :
    Plain (sendGroupName p groupId invitee) := by
  refine .bind messaging_memory.plain fun inner ↦ ?_
  dsimp only
  split_ifs
  · exact .pure _
  · refine .bind (plain_withShell _) fun seq ↦ .bind messaging_nowUnix.plain fun now ↦ ?_
    split
    · exact .pure _
    · exact .bind messaging_nowUnix.plain fun _ ↦
        .bind (messaging_sendVia ..).plain.attempt fun _ ↦ .pure _

theorem settles_tryFlush (hok : OnlyRemovals ok) (i : ℕ) : Settles p env ok (tryFlush p i) := by
  refine messaging_memory.plain.settles.bind fun inner ↦ ?_
  split
  · exact Plain.settles (.pure _)
  · exact (settles_flushMlsUpdate hok i _).attempt.bind fun _ ↦ Plain.settles (.pure _)

theorem plain_checkExtras (now : UInt64) (ids : List IdentityId) :
    Plain (checkExtras p now ids) := by
  induction ids with
  | nil => exact .pure _
  | cons id ids ih =>
    refine .bind messaging_memory.plain fun inner ↦ ?_
    split_ifs
    · exact ih
    · exact .bind (messaging_identityIsRevoked _ _).plain fun _ ↦ .bind (.act trivial) fun _ ↦
        .bind ih fun _ ↦ .pure _

theorem plain_rowsFor (now : UInt64) (ids : List IdentityId) :
    Plain (idleMaintenance.rowsFor now ids) := by
  induction ids with
  | nil => exact .pure _
  | cons id ids ih => exact .bind (plain_withShell _) fun _ ↦ .bind ih fun _ ↦ .pure _

/-! ## Removals by `idle_maintenance` -/

/-- The refused commits have been withdrawn, but for one that is still staged for a live group. -/
def Watched.Offered (ok : Request → Bool) (i : ℕ) (s : Watched) : Prop :=
  ∃ g, s.world.inner.groupAt i = some g ∧ (s.Spared ok → ∀ r ∈ s.refusals,
    r = ⟨i, g.mls.epoch⟩ ∨
      s.Settled r ∧ s.world.inner.mlsIdAt r.group ≠ s.world.inner.mlsIdAt i)

theorem Watched.Fresh.offered {g : Group} (h : s.Fresh ok i)
    (hg : s.world.inner.groupAt i = some g) : s.Offered ok i :=
  ⟨g, hg, fun hspared r hr ↦ .inr (h hspared r hr)⟩

theorem Watched.Alike.offered {t : Watched} (h : s.Alike t) (hs : s.Offered ok i) :
    t.Offered ok i := by
  obtain ⟨g, hg, hrefusals⟩ := hs
  refine ⟨g, (h.groups i).trans hg, fun hspared r hr ↦ ?_⟩
  rw [h.refusals] at hr
  unfold Inner.mlsIdAt
  rw [h.groups, h.groups]
  exact (hrefusals (h.spared hspared) r hr).imp_right fun hr ↦ ⟨h.settled hr.1, hr.2⟩

/-- The host answers a request that offers the commit staged last. -/
theorem Watched.Fresh.send {g : Group} (hs : s.Fresh ok i) (hstaging : s.staging = some i)
    (hg : s.world.inner.groupAt i = some g) (origin : String) (request : Request) :
    ((watching p env).step (.send origin request) s).2.Offered ok i ∧
      ∀ a, env.answer s.world.tick origin request = .ok a →
        ((watching p env).step (.send origin request) s).2.Fresh ok i := by
  by_cases hrefuses : request.offersCommit = true ∧
      env.refuses s.world.tick origin request = true
  · constructor
    · refine ⟨g, ?_, fun hspared r hr ↦ ?_⟩
      · rw [watching_step, world_note]
        exact hg
      · have hbefore : s.Spared ok := spared_of_note hspared
        simp only [watching_step, note, hrefuses, Bool.and_self, if_true] at hr ⊢
        rcases List.mem_append.mp hr with hr | hr
        · exact .inr (hs hbefore r hr)
        · simp only [refusal, hstaging, hg, Option.bind_some, Option.map_some, Option.toList_some,
            List.mem_singleton] at hr
          exact .inl hr
    · intro a ha
      simp [Environment.refuses, ha] at hrefuses
  · have hnote (after : World) : s.note env after (.send origin request) =
        { s with world := after } := by
      simp only [note, Bool.and_eq_true, hrefuses, if_false]
    have halike : s.Alike ((watching p env).step (.send origin request) s).2 := by
      rw [watching_step, hnote]
      exact ⟨fun _ ↦ rfl, rfl, rfl, rfl⟩
    exact ⟨halike.offered (hs.offered hg), fun _ _ ↦ halike.fresh hs⟩

theorem run_watching_groupAppend {g : Group} {host : HostGroup} {type : MessageType} {body : Bytes}
    (hs : s.Fresh ok i) (hstaging : s.staging = some i) (hg : s.world.inner.groupAt i = some g) :
    (run (watching p env) (groupAppend p host type body) s).2.Offered ok i ∧
      ∀ a, (run (watching p env) (groupAppend p host type body) s).1 = .ok a →
        (run (watching p env) (groupAppend p host type body) s).2.Fresh ok i := by
  have halike := @Watched.alike_of_plain p env _ .memory trivial s
  have hsession : run (watching p env) session s =
      (s.world.inner.registered, ((watching p env).step .memory s).2) := Program.run_ofExcept _ _
  unfold groupAppend callGroup
  cases hregistered : s.world.inner.registered with
  | error e =>
    rw [hregistered] at hsession
    rw [Program.run_bind_of_error (Program.run_bind_of_error hsession)]
    exact ⟨halike.offered (hs.offered hg), fun _ h ↦ by cases h⟩
  | ok session =>
    rw [hregistered] at hsession
    have hsend (origin : String) (request : Request) (t : Watched) :
        run (watching p env) (send origin request) t = (env.answer t.world.tick origin request,
          ((watching p env).step (.send origin request) t).2) := Program.run_ofExcept _ _
    rw [run_bind, Program.run_bind_of_ok hsession, hsend]
    have hoffered := @Watched.Fresh.send p env _ _ _ _ (halike.fresh hs)
      (halike.staging.trans hstaging) ((halike.groups i).trans hg)
      (groupOrigin p session host.groupId)
      (.groupAppend host.groupId host.cred type body)
    cases hanswer : env.answer _ _ _ with
    | ok a => exact ⟨hoffered.1, fun _ _ ↦ hoffered.2 a hanswer⟩
    | error e => exact ⟨hoffered.1, fun _ h ↦ by cases h⟩

/-- A commit that is discarded is withdrawn. -/
theorem Watched.Offered.discard (hs : s.Offered ok i) :
    ((watching p env).step (.group i .discardPending) s).2.Sound ok := by
  obtain ⟨g, hg, hrefusals⟩ := hs
  intro hspared r hr
  have hbefore : s.Spared ok := Watched.spared_of_note hspared
  have hinner : (Op.effect p env (.group i .discardPending) s.world).2.ticked.inner =
      s.world.inner.setGroupAt i g.discardPending := by
    simp [Op.effect, hg, GroupOp.run]
  have hleft : (Op.effect p env (.group i .discardPending) s.world).2.ticked.inner.groupAt i =
      some g.discardPending := by
    rw [hinner]
    exact Inner.groupAt_setGroupAt hg
  have hstages : s.world.stages
      (Op.effect p env (.group i .discardPending) s.world).2.ticked i = false := by
    rw [World.stages, hleft]
    exact Bool.and_false _
  simp only [watching_step, Watched.note, hstages, Bool.false_eq_true, if_false] at hr ⊢
  rcases hrefusals hbefore r hr with rfl | happart
  · exact ⟨g.discardPending, hleft, rfl, rfl, Group.ensureNoPending_of_none rfl, rfl⟩
  · have hid : g.discardPending.mlsGroupId = g.mlsGroupId := rfl
    have hapart : Watched.Apart ⟨_, none, [r], []⟩ i :=
      Watched.apart_of_setGroupAt hg hid hinner fun r' hr' ↦ List.mem_singleton.mp hr' ▸ happart
    exact (hapart r List.mem_cons_self).1

/-- The commit of a removal is offered, and discarded where the host does not take it. -/
theorem sound_offerRemoval {g : Group} (bundle : RemoveBundle) (body : Bytes) {host : HostGroup}
    (hs : s.Fresh ok i) (hstaging : s.staging = some i) (hg : s.world.inner.groupAt i = some g) :
    (run (watching p env) (do
      match ← (groupAppend p host .removeBundle body).attempt with
      | .ok () =>
        let ms ← nowMs
        let _ ← onGroup i (.applyRemoveBundle host.groupId bundle ms)
      | .error _ => onGroup i .discardPending) s).2.Sound ok := by
  have happend := @run_watching_groupAppend p env _ _ _ _ host .removeBundle body hs hstaging hg
  rw [Program.run_bind_of_ok (Program.run_attempt _ s)]
  generalize run (watching p env) (groupAppend p host .removeBundle body) s = r at happend ⊢
  obtain ⟨answer, t⟩ := r
  obtain ⟨hoffered, hfresh⟩ := happend
  cases answer with
  | ok a =>
    have hclosing : Closing ok i (do
        let ms ← nowMs
        let _ ← onGroup i (.applyRemoveBundle host.groupId bundle ms)) :=
      .bind messaging_nowMs.plain.closing fun _ ↦ .bind (closing_onGroup _) fun _ ↦ .pure _
    exact ((keeps_fresh hclosing).run_end (hfresh a rfl)).sound
  | error e =>
    obtain ⟨g', hg', -⟩ := id hoffered
    dsimp only
    rw [run_watching_onGroup hg']
    exact hoffered.discard

/-- The end of the body of the loop: the commit of a removal is staged, offered, and merged or
discarded. -/
theorem settles_removal (ok : Request → Bool) (i : ℕ) (live : LiveGroup) (cred : Key) :
    Settles p env ok (do
      match ← onGroup i (.remove live.host.groupId cred) with
      | .error _ => pure ()
      | .ok bundle =>
        let body ← ofExcept (liftWire bundle.encode)
        match ← (groupAppend p live.host .removeBundle body).attempt with
        | .ok () =>
          let ms ← nowMs
          let _ ← onGroup i (.applyRemoveBundle live.host.groupId bundle ms)
        | .error _ => onGroup i .discardPending) := by
  intro s hs
  cases hg : s.world.inner.groupAt i with
  | none =>
    obtain ⟨t, hrun, halike⟩ := @run_watching_onGroup_of_none p env _ _ _ hg
      (.remove live.host.groupId cred)
    rw [Program.run_bind_of_error hrun]
    exact halike.sound hs
  | some g =>
    rw [Program.run_bind_of_ok (run_watching_onGroup hg _)]
    have hleft := @groupAt_step p env _ _ _ _ hg (.remove live.host.groupId cred)
    rcases (GroupOp.stages_remove live.host.groupId cred).step hg hs with
      ⟨⟨bundle, hanswer⟩, hfresh, hstaging⟩ | ⟨hnot, halike⟩
    · rw [hanswer]
      generalize ((watching p env).step (.group i (.remove live.host.groupId cred)) s).2 = t at *
      cases hbody : liftWire bundle.encode with
      | error e =>
        simp only [hbody]
        exact hfresh.sound
      | ok body =>
        simp only [hbody]
        exact sound_offerRemoval bundle body hfresh hstaging hleft
    · cases hanswer : (GroupOp.run p (env.draw s.world.tick)
        (.remove live.host.groupId cred) g).1 with
      | error e => exact halike.sound hs
      | ok bundle => exact absurd ⟨bundle, hanswer⟩ hnot

theorem settles_removeRevoked (ok : Request → Bool) (id : IdentityId) (i : ℕ) :
    Settles p env ok (removeRevoked p id i) := by
  refine messaging_memory.plain.settles.bind fun inner ↦ ?_
  split
  · next live g hlive hg =>
    split
    · exact Plain.settles (.pure _)
    · next cred hcred =>
      split_ifs
      · exact Plain.settles (.pure _)
      · exact settles_removal ok i live cred
  · exact Plain.settles (.pure _)

theorem settles_idleMaintenance (hok : OnlyRemovals ok) :
    Settles p env ok (idleMaintenance p) := by
  refine messaging_nowUnix.plain.settles.bind fun now ↦ messaging_session.plain.settles.bind fun s ↦
    (messaging_refreshIdleDiscovery _ _).plain.settles.bind fun stale ↦
    messaging_session.plain.settles.bind fun s ↦ messaging_memory.plain.settles.bind fun inner ↦
    (plain_checkExtras _ _).settles.bind fun extras ↦ ?_
  refine Program.Leaves.bind
    (.forEach fun id ↦ .forEach fun i ↦ settles_removeRevoked ok id i) fun _ ↦
    (plain_rowsFor _ _).settles.bind fun rows ↦
      (Program.Leaves.forEach fun i ↦ settles_tryFlush hok i).bind fun _ ↦ Plain.settles (.pure _)

/-! ## Calls -/

/-- The calls that make commits; `flush_mls_update` is called for a live group. -/
inductive CommitCall
  | flushMlsUpdate (i : ℕ)
  | admitJoin (joinRequestUri : String)
  | removeGroupMember (groupIdHex credentialIdHex : String)
  | idleMaintenance
  deriving DecidableEq

/-- `flush_mls_update`, for the live group at a position. -/
def flushAt (p : Outside) (i : ℕ) : SessionM Unit := do
  let inner ← memory
  match inner.groups[i]? with
  | none => pure ()
  | some live => flushMlsUpdate p i live

namespace CommitCall

/-- A call, but for what it answers. -/
def program (p : Outside) : CommitCall → ClientM Unit
  | flushMlsUpdate i => flushAt p i
  | admitJoin joinRequestUri => do let _ ← Client.admitJoin p joinRequestUri
  | removeGroupMember groupIdHex credentialIdHex =>
    Client.removeGroupMember p groupIdHex credentialIdHex
  | idleMaintenance => do let _ ← Client.idleMaintenance p

/-- The refusals the call copes with: `idle_maintenance` discards a removal that is refused. -/
def copes : CommitCall → Request → Bool
  | idleMaintenance => Request.isRemoval
  | _ => fun _ ↦ false

end CommitCall

/-- The record before a run. -/
def Watched.start (w : World) : Watched := ⟨w, none, [], []⟩

/-- A call of a run. -/
def Watched.call (p : Outside) (env : Environment) (s : Watched) (c : CommitCall) : Watched :=
  (run (observer p env) (c.program p) { s with refused := [] }).2

/-- A run that is watched goes through the worlds of the run. -/
theorem Watched.world_run_call (s : Watched) (calls : List CommitCall) :
    (Data.run (Watched.call p env) s calls).world =
      Data.run (fun w (c : CommitCall) ↦ (run (device p env) (c.program p) w).2) s.world calls :=
  (List.foldl_hom Watched.world fun s c ↦
    (run_observer (c.program p) { s with refused := [] }).2.symm).symm

/-- The host refuses no request of the call but those it copes with. -/
def Watched.Copes (p : Outside) (env : Environment) (s : Watched) (c : CommitCall) : Prop :=
  (s.call p env c).Spared c.copes

theorem run_observer_op (q : SessionM α) (s : Watched) :
    run (observer p env) (q : ClientM α) s = run (watching p env) q s := Program.run_hoist q s

/-- What a call answers does not matter to what it leaves. -/
theorem run_bind_ignore (q : ClientM α) (s : Watched) :
    (run (observer p env) (q >>= fun _ ↦ pure ()) s).2 = (run (observer p env) q s).2 := by
  rw [run_bind]
  split
  · next a t h =>
    rw [h]
    rfl
  · next e t h => rw [h]

/-- A save changes no group. -/
theorem keeps_sound_persist : Keeps (observer p env) (fun s ↦ s.Sound ok) persist := by
  refine .bind (.act fun s hs ↦ (Watched.alike_of_plain (o := .memory) trivial s).sound hs)
    fun inner ↦ ?_
  split_ifs
  · refine .forEach fun entry _ ↦ .bind (.act fun s hs ↦ ?_) fun _ ↦ .ofExcept _
    refine Watched.Alike.sound (s := s) ⟨fun i ↦ ?_, rfl, rfl, rfl⟩ hs
    change (Act.effect p env (.put entry) s.world).2.inner.groupAt i = _
    simp only [Act.effect]
    split <;> rfl
  · exact .fail _
  · exact .pure _

theorem Settles.saving {body : SessionM α} (h : Settles p env ok body) (hs : s.Sound ok) :
    (run (observer p env) (saving body) s).2.Sound ok := by
  have hbody := h s hs
  unfold Client.saving
  rw [run_bind, run_observer_op]
  generalize run (watching p env) body s = r at hbody ⊢
  obtain ⟨answer, t⟩ := r
  cases answer with
  | ok a => exact (keeps_sound_persist.bind fun _ ↦ .pure _).run_end hbody
  | error e => exact hbody

theorem settles_flushAt (hok : OnlyRemovals ok) (i : ℕ) : Settles p env ok (flushAt p i) := by
  refine messaging_memory.plain.settles.bind fun inner ↦ ?_
  split
  · exact Plain.settles (.pure _)
  · exact settles_flushMlsUpdate hok i _

theorem settles_admitJoin (hok : OnlyRemovals ok) (joinRequestUri : String) :
    s.Sound ok → (run (observer p env) (admitJoin p joinRequestUri) s).2.Sound ok := by
  refine Settles.saving ?_
  refine Plain.settles (.ofExcept _) |>.bind fun req ↦ messaging_session.plain.settles.bind fun _ ↦
    Plain.settles (.ofExcept _) |>.bind fun inviteePk ↦
    messaging_nowUnix.plain.settles.bind fun now ↦
    (messaging_checkDiscoveryNotRevoked _ _).plain.settles.bind fun _ ↦
    (plain_liveGroupAt _).settles.bind fun ⟨_, live⟩ ↦
    (messaging_callGroup rfl).plain.settles.bind fun looked ↦ ?_
  split_ifs
  · exact Plain.settles (.fail _)
  · exact Plain.settles (.ofExcept _) |>.bind fun _ ↦
      (settles_admitMember hok req looked).bind fun _ ↦
        (plain_sendGroupName _ _).settles.bind fun _ ↦ Plain.settles (.pure _)

theorem settles_removeGroupMember (hok : ∀ request, ok request = false)
    (groupIdHex credentialIdHex : String) :
    s.Sound ok → (run (observer p env)
      (removeGroupMember p groupIdHex credentialIdHex) s).2.Sound ok := by
  refine Settles.saving ?_
  refine Plain.settles (.ofExcept _) |>.bind fun cred ↦ messaging_session.plain.settles.bind fun _ ↦
    (plain_findGroupMut _).settles.bind fun ⟨i, live⟩ ↦ ?_
  refine settles_onGroup (GroupOp.stages_remove _ _) (fun a hnot ↦ ?_) fun a ↦ ?_
  · cases a with
    | error e => exact .fail e
    | ok b => exact absurd ⟨b, rfl⟩ hnot
  · exact .bind (.ofExcept a) fun bundle ↦ .bind (.ofExcept _) fun body ↦
      .bind (closing_groupAppend (hok _)) fun _ ↦ .bind messaging_nowMs.plain.closing fun _ ↦
        .bind (closing_onGroup _) fun _ ↦ .bind (.ofExcept _) fun _ ↦ .pure _

/-- A call that copes with what the host refuses leaves no refused commit staged. -/
theorem Watched.unwedged_call {c : CommitCall} (hs : s.Unwedged) (hc : s.Copes p env c) :
    (s.call p env c).Unwedged := by
  have hstart : Sound c.copes { s with refused := [] } := fun _ ↦ hs
  have hsound : (s.call p env c).Sound c.copes := by
    cases c with
    | flushMlsUpdate i =>
      rw [call, CommitCall.program, run_observer_op]
      exact settles_flushAt (fun _ _ ↦ rfl) i _ hstart
    | admitJoin joinRequestUri =>
      rw [call, CommitCall.program, run_bind_ignore]
      exact settles_admitJoin (fun _ _ ↦ rfl) joinRequestUri hstart
    | removeGroupMember groupIdHex credentialIdHex =>
      exact settles_removeGroupMember (fun _ ↦ rfl) groupIdHex credentialIdHex hstart
    | idleMaintenance =>
      rw [call, CommitCall.program, run_bind_ignore, run_observer_op]
      exact settles_idleMaintenance (fun _ h ↦ h) _ hstart
  exact hsound hc

/-! ## Runs -/

/-- Functions for concrete runs, with commits that change no leaf. -/
def Outside.committing : Outside :=
  let staged (g : MlsGroup) : StagedCommit := ⟨[], [], [], none, false, g.leaves, g.secrets⟩
  { Outside.transparent with
    openMls := { Outside.transparent.openMls with
      selfUpdate := fun g _ _ _ ↦ .ok ([1], staged g)
      removeMember := fun g _ _ _ ↦ .ok ([1], staged g) } }

/-- A world in which every request is refused, at some time. -/
def Environment.refusing (ms : ℕ) : Environment :=
  { Environment.silent with answer := fun _ _ _ ↦ .error (.homeHttp 503), clock := fun _ ↦ ms }

/-- A leaf with bytes of one kind. -/
def Leaf.of (index : ℕ) (byte : UInt8) : Leaf where
  index
  identity := List.replicate 32 byte
  signatureKey := List.replicate 32 byte
  credentialIdExt := some (List.replicate 32 byte)
  groupSigningExt := some (List.replicate 32 byte)

/-- A group of the client of `World.acquainted` and its contact. -/
def Group.pair : Group where
  mlsGroupId := [7]
  groupSigning := .replicate 32 0
  credentialId := .replicate 32 0
  lastOwnUpdate := 0
  pending := none
  announcedKeys := ∅
  mls := { epoch := 1, leaves := [.of 0 0, .of 1 1], ownIndex := 0, secrets := [],
           pendingCommit := none }

/-- The client of `World.acquainted` with that group, after its contact was revoked. -/
def World.paired : World :=
  let s := HomeSession.acquainted
  let contact := { StoredContact.blank (.replicate 32 1) (.replicate 32 0) with revoked := true }
  { World.acquainted with
    inner :=
      { Inner.empty (some (.registered { s with
          contacts := s.contacts.insert (.replicate 32 1) contact
          install := s.install.storeMls [7] Group.pair.mls })) true none with
        groups := [{ host := ⟨.replicate 32 5, ⟨.replicate 32 0, .replicate 32 0⟩, ""⟩,
                     mls := Group.pair.toGroupRecord, nickname := "" }] } }

/-- In a run whose calls cope with what the host refuses, no refused commit stays staged. -/
theorem unwedged_of_copes (w : World) (calls : List CommitCall)
    (h : Allowed (Watched.call p env) (Watched.Copes p env) (.start w) calls) :
    (Data.run (Watched.call p env) (.start w) calls).Unwedged :=
  run_invariant Watched.Unwedged (fun _ _ hc hs ↦ Watched.unwedged_call hs hc) h
    fun _ hr ↦ by cases hr

set_option maxRecDepth 100000 in
/-- A removal by `idle_maintenance` that is refused is discarded. -/
theorem unwedged_of_copes_removal :
    (Data.run (Watched.call .committing (.refusing 0)) (.start .paired)
        [.idleMaintenance]).refusals = [⟨0, 1⟩] ∧
      (Data.run (Watched.call .committing (.refusing 0)) (.start .paired)
        [.idleMaintenance]).Unwedged := by
  refine ⟨by decide +kernel, unwedged_of_copes .paired [.idleMaintenance] ⟨?_, trivial⟩⟩
  have hrefused : ∀ request ∈ ((Watched.start .paired).call .committing (.refusing 0)
      .idleMaintenance).refused, request.isRemoval = true := by decide +kernel
  exact hrefused

set_option maxRecDepth 100000 in
/-- An own update that is refused stays staged. -/
theorem flushMlsUpdate_wedges :
    ¬(Data.run (Watched.call .committing (.refusing 86400000)) (.start .paired)
      [.flushMlsUpdate 0]).Unwedged := by
  intro h
  have hrefused : ⟨0, 1⟩ ∈ (Data.run (Watched.call .committing (.refusing 86400000))
      (.start .paired) [.flushMlsUpdate 0]).refusals := by decide +kernel
  have hstaged : ((Data.run (Watched.call .committing (.refusing 86400000)) (.start .paired)
      [.flushMlsUpdate 0]).world.inner.groupAt 0).any (·.pending.isSome) = true := by
    decide +kernel
  obtain ⟨g, hg, hwithdrawn⟩ := h _ hrefused
  rw [hg] at hstaged
  simp [hwithdrawn.record] at hstaged

end NemoMessenger.Client
