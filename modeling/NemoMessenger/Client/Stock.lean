import NemoMessenger.Client.Frame
import NemoMessenger.Client.Registration
import NemoMessenger.Data.Run

/-!
# The stock of one-time prekeys

A client counts the one-time prekeys in its own store, and mints and uploads others until there are
enough. A record beside the device keeps which of them a home has accepted. The two counts agree as
long as no upload fails and the client changes its home with an empty store.
-/

namespace NemoMessenger.Client

open NemoMessenger.Data NemoMessenger.Wire
open Program (Only Keeps Leaves run run_bind act attempt ofExcept forEach fail)

/-! ## The record -/

/-- The one-time prekeys in the store of an installation. -/
def Installation.preKeys (install : Installation) : FiniteMap ℕ Bytes :=
  install.store.preKeyStores.preKeys

/-- The one-time prekeys of the client. -/
def World.preKeys (w : World) : FiniteMap ℕ Bytes := (w.inner.state.map (·.install.preKeys)).getD ∅

/-- The id the next one-time prekey gets. -/
def World.nextPreKeyId (w : World) : ℕ := (w.inner.state.map (·.install.nextPreKeyId.toNat)).getD 0

/-- The prekeys the homes have accepted, with their origins; and whether a prekey has been left in
the store that the home does not have. -/
structure Shelf where
  accepted : List (String × ℕ × Bytes)
  slipped : Bool

namespace Shelf

/-- A prekey that is minted half way is left in the store. Where an id is used again, another
goes. -/
def mint (w : World) (answer : Option (Except CoreError SignedPrekey)) (shelf : Shelf) : Shelf :=
  { shelf with slipped := shelf.slipped || answer.any (fun a ↦ a.toOption.isNone) ||
      (w.preKeys.lookup w.nextPreKeyId).isSome }

/-- A prekey whose upload fails is left in the store. -/
def upload (origin : String) (blob : SignedPrekey) (w : World) (answer : Except CoreError Unit)
    (shelf : Shelf) : Shelf :=
  match answer with
  | .ok () =>
    { shelf with accepted := shelf.accepted ++
        ((w.preKeys.lookup blob.prekeyId.toNat).map fun half ↦
          (origin, blob.prekeyId.toNat, half)).toList }
  | .error _ => { shelf with slipped := true }

/-- All prekeys are left in the store where the client gets another home. -/
def move (w : World) (shelf : Shelf) : Shelf :=
  { shelf with slipped := shelf.slipped || !w.preKeys.entries.isEmpty }

/-- What an action adds to the record. -/
def note : {β : Type} → Act β → World → β → Shelf → Shelf
  | _, .op (.install .mintPrekey), w, answer, shelf => shelf.mint w answer
  | _, .op (.send origin (.publishPrekey blob)), w, answer, shelf =>
    shelf.upload origin blob w answer
  | _, .begin_ .., w, _, shelf | _, .move .., w, _, shelf => shelf.move w
  | _, _, _, _, shelf => shelf

end Shelf

/-- The device, with the record. -/
def stocking (p : Outside) (env : Environment) : Machine Act (World × Shelf) :=
  (device p env).watched Shelf.note

/-- Its operations. -/
abbrev stockingOps (p : Outside) (env : Environment) : Machine Op (World × Shelf) :=
  (stocking p env).comap Act.op

/-- The home of the session has accepted every prekey in the store. -/
def Shelf.Covers (shelf : Shelf) (w : World) : Prop :=
  ∀ s, w.inner.session? = some s → ∀ id half, s.install.preKeys.lookup id = some half →
    (s.homeBase, id, half) ∈ shelf.accepted

/-- It has, unless a prekey was left behind. -/
def Accounted (s : World × Shelf) : Prop := s.2.slipped = false → s.2.Covers s.1

/-- At least `n` one-time prekeys have been accepted by the home of the session and not been
consumed: they are still in the store. -/
def Shelf.Stocked (shelf : Shelf) (n : ℕ) (w : World) : Prop :=
  ∃ s, w.inner.session? = some s ∧
    n ≤ (s.install.preKeys.entries.filter fun e ↦ (s.homeBase, e.1, e.2) ∈ shelf.accepted).length

/-- A message that is opened takes prekeys out of the store, and puts none in. -/
def Libsignal.Consumes (libsignal : Libsignal) : Prop :=
  ∀ store peer ciphertext seed id half,
    (libsignal.decrypt store peer ciphertext seed).2.2.preKeys.lookup id = some half →
      store.preKeyStores.preKeys.lookup id = some half

variable {p : Outside} {env : Environment} {α β : Type}

/-! ## What leaves the stock alone -/

/-- Any operation but the minting and the upload of a prekey. -/
def Op.Shelved : (β : Type) → Op β → Prop
  | _, install .mintPrekey => False
  | _, send _ (.publishPrekey _) => False
  | _, _ => True

theorem Op.Messaging.shelved {o : Op β} (h : o.Messaging) : o.Shelved := by
  cases o with
  | send origin request =>
    cases request with
    | publishPrekey blob => cases h
    | _ => trivial
  | install op => exact h.elim
  | _ => trivial

theorem Op.Plain.shelved {o : Op β} (h : o.Plain) : o.Shelved := by
  cases o with
  | shell f => trivial
  | _ => exact Op.Messaging.shelved h

/-- A session afterwards is at the same home, with no prekey that was not there before. -/
def Inner.Shrinks (inner inner' : Inner) : Prop :=
  ∀ s', inner'.session? = some s' → ∃ s, inner.session? = some s ∧ s'.homeBase = s.homeBase ∧
    ∀ id half, s'.install.preKeys.lookup id = some half → s.install.preKeys.lookup id = some half

namespace Inner

variable {inner : Inner}

theorem Shrinks.refl (inner : Inner) : inner.Shrinks inner :=
  fun s hs ↦ ⟨s, hs, rfl, fun _ _ h ↦ h⟩

theorem Shrinks.trans {inner' inner'' : Inner} (h : inner.Shrinks inner')
    (h' : inner'.Shrinks inner'') : inner.Shrinks inner'' := by
  intro s'' hs''
  obtain ⟨s', hs', hbase', hkeys'⟩ := h' s'' hs''
  obtain ⟨s, hs, hbase, hkeys⟩ := h s' hs'
  exact ⟨s, hs, hbase'.trans hbase, fun id half hlookup ↦ hkeys id half (hkeys' id half hlookup)⟩

theorem Shrinks.mapSession (inner : Inner) {f : HomeSession → HomeSession}
    (hf : ∀ s, (f s).homeBase = s.homeBase ∧ (f s).install.preKeys = s.install.preKeys) :
    inner.Shrinks (inner.mapSession f) := by
  intro s' hs'
  rw [session?_mapSession, Option.map_eq_some_iff] at hs'
  obtain ⟨s, hs, rfl⟩ := hs'
  exact ⟨s, hs, (hf s).1, fun _ _ h ↦ (hf s).2 ▸ h⟩

theorem Shrinks.mapInstall (inner : Inner) {f : Installation → Installation}
    (hf : ∀ s, inner.session? = some s → ∀ id half,
      (f s.install).preKeys.lookup id = some half → s.install.preKeys.lookup id = some half) :
    inner.Shrinks (inner.mapInstall f) := by
  intro s' hs'
  rw [session?_mapInstall, Option.map_eq_some_iff] at hs'
  obtain ⟨s, hs, rfl⟩ := hs'
  exact ⟨s, hs, rfl, hf s hs⟩

end Inner

theorem InstallOp.preKeys_run {op : InstallOp β} (h : Op.Shelved _ (.install op)) (seed : Bytes)
    (install : Installation) : (op.run p seed install).2.preKeys = install.preKeys := by
  cases op with
  | mintPrekey => exact h.elim
  | rotateSignedPrekey ms =>
    simp only [run, Installation.rotateSignedPrekey]
    split <;> rfl
  | bumpBindingSeq => rfl
  | createGroup credentialId groupSigning ms => rfl
  | prepareJoin credentialId groupSigning =>
    simp only [run, Installation.prepareJoin]
    split <;> rfl
  | join pending welcome ms =>
    simp only [run, Installation.joinGroup]
    grind [Installation.mapKeyPackages, Installation.storeMls, Installation.preKeys]

theorem RatchetOp.preKeys_run (hconsumes : p.libsignal.Consumes) (op : RatchetOp β) (seed : Bytes)
    (store : SignalStore) {id : ℕ} {half : Bytes}
    (h : (op.run p seed store).2.preKeyStores.preKeys.lookup id = some half) :
    store.preKeyStores.preKeys.lookup id = some half := by
  cases op with
  | encrypt peer plaintext =>
    simp only [run] at h
    split at h <;> exact h
  | decrypt peer ciphertext => exact hconsumes _ _ _ _ _ _ h
  | processPrekeyBundle peer bundle =>
    simp only [run] at h
    split at h <;> exact h
  | rematerializePeer source target =>
    simp only [run, SignalStore.rematerializePeer] at h
    split_ifs at h <;> exact h

theorem Op.Shelved.shrinks (hconsumes : p.libsignal.Consumes) {o : Op β} (h : o.Shelved)
    (w : World) : w.inner.Shrinks (o.effect p env w).2.inner := by
  cases o with
  | session update =>
    refine .mapSession _ fun s ↦ ?_
    cases update <;> exact ⟨rfl, rfl⟩
  | ratchet op =>
    simp only [Op.effect]
    split
    · exact .refl _
    · next s hs =>
      refine .mapInstall _ fun s' hs' id half hlookup ↦ ?_
      obtain rfl : s' = s := Option.some_injective _ (hs'.symm.trans hs)
      exact op.preKeys_run hconsumes _ _ hlookup
  | install op =>
    simp only [Op.effect]
    split
    · exact .refl _
    · next state hstate =>
      refine .mapInstall _ fun s hs id half hlookup ↦ ?_
      rw [Inner.session?_eq_some.mp hs, Option.some.injEq] at hstate
      subst hstate
      rwa [op.preKeys_run h] at hlookup
  | group i op =>
    simp only [Op.effect]
    split
    · exact .refl _
    · exact .mapInstall _ fun _ _ _ _ h ↦ h
  | nickname groupId name =>
    simp only [Op.effect, Inner.setNickname]
    split <;> exact .refl _
  | enroll host g name =>
    simp only [Op.effect, Inner.enroll]
    split
    · exact .refl _
    · refine Inner.Shrinks.trans (.mapSession _ fun s ↦ ?_) (.mapInstall _ fun _ _ _ _ h ↦ h)
      exact ⟨rfl, rfl⟩
  | _ => exact .refl _

/-! ## Keeping the account -/

theorem Shelf.Covers.shrink {shelf : Shelf} {w w' : World} (h : shelf.Covers w)
    (hshrinks : w.inner.Shrinks w'.inner) : shelf.Covers w' := by
  intro s' hs' id half hlookup
  obtain ⟨s, hs, hbase, hkeys⟩ := hshrinks s' hs'
  rw [hbase]
  exact h s hs id half (hkeys id half hlookup)

theorem Shelf.note_of_shelved {o : Op β} (h : o.Shelved) (w : World) (answer : β) (shelf : Shelf) :
    shelf.note (.op o) w answer = shelf := by
  cases o with
  | send origin request =>
    cases request with
    | publishPrekey blob => exact h.elim
    | _ => rfl
  | install op =>
    cases op with
    | mintPrekey => exact h.elim
    | _ => rfl
  | _ => rfl

/-- What slips, has slipped. -/
theorem Shelf.slipped_note (action : Act β) (w : World) (answer : β) {shelf : Shelf}
    (h : shelf.slipped = true) : (Shelf.note action w answer shelf).slipped = true := by
  cases action with
  | op o =>
    cases o with
    | send origin request =>
      cases request with
      | publishPrekey blob =>
        change (shelf.upload origin blob w answer).slipped = true
        unfold upload
        split
        · exact h
        · rfl
      | _ => exact h
    | install op =>
      cases op with
      | mintPrekey =>
        change (shelf.mint w answer).slipped = true
        simp [mint, h]
      | _ => exact h
    | _ => exact h
  | begin_ bundle base =>
    change (shelf.move w).slipped = true
    simp [Shelf.move, h]
  | move bundle base =>
    change (shelf.move w).slipped = true
    simp [Shelf.move, h]
  | _ => exact h

theorem keeps_accounted (hconsumes : p.libsignal.Consumes) {q : SessionM α}
    (h : Only Op.Shelved q) : Keeps (stockingOps p env) Accounted q := by
  refine h.keeps fun o s ho hs ↦ ?_
  have hstep : ((stockingOps p env).step o s).2 =
      ((o.effect p env s.1).2.ticked, s.2) :=
    congrArg (Prod.mk _) (Shelf.note_of_shelved ho s.1 _ s.2)
  rw [hstep]
  exact fun hslipped ↦ (hs hslipped).shrink (ho.shrinks hconsumes s.1)

theorem Installation.preKeys_mintPrekey (install : Installation) (seed : Bytes) :
    (install.mintPrekey p seed).2.preKeys = install.preKeys.insert install.nextPreKeyId.toNat
      (p.libsignal.newPreKey install.nextPreKeyId.toNat seed) := by
  simp only [mintPrekey]
  split
  · rfl
  · split <;> rfl

theorem Installation.prekeyId_mintPrekey {install : Installation} {seed : Bytes}
    {blob : SignedPrekey} (h : (install.mintPrekey p seed).1 = .ok blob) :
    blob.prekeyId.toNat = install.nextPreKeyId.toNat := by
  have hid : blob.prekeyId = UInt64.ofNat install.nextPreKeyId.toNat := by
    simp only [mintPrekey] at h
    split at h
    · cases h
    · split at h
      · cases h
      · rw [← Except.ok.inj h]
        rfl
  have hlt : install.nextPreKeyId.toNat < 2 ^ 64 :=
    install.nextPreKeyId.toNat_lt.trans (by decide)
  rw [hid, UInt64.toNat_ofNat', Nat.mod_eq_of_lt hlt]

/-! ## Minting and uploading -/

theorem stockingOps_step (o : Op β) (s : World × Shelf) : (stockingOps p env).step o s =
    ((o.effect p env s.1).1,
      ((o.effect p env s.1).2.ticked, s.2.note (.op o) s.1 (o.effect p env s.1).1)) := rfl

/-- A prekey is minted where there is an installation. -/
theorem run_mint {w : World} {shelf : Shelf} {state : ClientState}
    (h : w.inner.state = some state) :
    run (stockingOps p env) (onInstall .mintPrekey) (w, shelf) =
      (.ok (state.install.mintPrekey p (env.draw w.tick)).1,
        (World.ticked { w with inner := w.inner.mapInstall fun _ ↦
            (state.install.mintPrekey p (env.draw w.tick)).2 },
          shelf.mint w (some (state.install.mintPrekey p (env.draw w.tick)).1))) := by
  have heffect : Op.effect p env (.install .mintPrekey) w =
      (some (state.install.mintPrekey p (env.draw w.tick)).1,
        { w with inner := w.inner.mapInstall fun _ ↦
            (state.install.mintPrekey p (env.draw w.tick)).2 }) := by
    simp only [Op.effect, h]
    rfl
  rw [onInstall, run_bind, Program.run_act, stockingOps_step, heffect]
  rfl

theorem run_mint_of_none {w : World} {shelf : Shelf} (h : w.inner.state = none) :
    run (stockingOps p env) (onInstall .mintPrekey) (w, shelf) =
      (.error (.text "busy"), (w.ticked, shelf.mint w none)) := by
  have heffect : Op.effect p env (.install .mintPrekey) w = (none, w) := by
    simp only [Op.effect, h]
  rw [onInstall, run_bind, Program.run_act, stockingOps_step, heffect]
  rfl

theorem World.preKeys_of_session {w : World} {s : HomeSession} (h : w.inner.session? = some s) :
    w.preKeys = s.install.preKeys := by
  simp [preKeys, Inner.session?_eq_some.mp h, ClientState.install]

theorem run_stocking_session (s : World × Shelf) : run (stockingOps p env) session s =
    (s.1.inner.registered, (s.1.ticked, s.2)) := Program.run_ofExcept _ _

theorem run_upload_of_none {w : World} {shelf : Shelf} (h : w.inner.session? = none)
    (blob : SignedPrekey) : ∃ e,
      run (stockingOps p env) (sendHome (.publishPrekey blob)) (w, shelf) =
        (.error e, (w.ticked, shelf)) := by
  have hsession := @run_stocking_session p env (w, shelf)
  unfold sendHome
  cases hregistered : (w, shelf).1.inner.registered with
  | error e =>
    rw [hregistered] at hsession
    exact ⟨e, Program.run_bind_of_error hsession⟩
  | ok s =>
    rw [Inner.registered_eq_ok, h] at hregistered
    cases hregistered

/-- The record after an upload to the home of a session. -/
theorem run_upload {w : World} {shelf : Shelf} {s : HomeSession} (h : w.inner.session? = some s)
    (blob : SignedPrekey) :
    run (stockingOps p env) (sendHome (.publishPrekey blob)) (w, shelf) =
      (env.answer (w.tick + 1) s.homeBase (.publishPrekey blob),
        (World.ticked { w.ticked with
            log := w.log ++ [.sent s.homeBase (.publishPrekey blob)] },
          shelf.upload s.homeBase blob w.ticked
            (env.answer (w.tick + 1) s.homeBase (.publishPrekey blob)))) := by
  have hsession := @run_stocking_session p env (w, shelf)
  rw [show (w, shelf).1.inner.registered = .ok s from Inner.registered_eq_ok.mpr h] at hsession
  rw [sendHome, Program.run_bind_of_ok hsession]
  exact Program.run_ofExcept _ _

/-- What minting and uploading a prekey does to the account of `n` prekeys in the store. -/
structure Uploaded (n : ℕ) (slipped : Bool) (r : Except CoreError Unit × World × Shelf) : Prop where
  accounted : Accounted r.2
  slips : slipped = true → r.2.2.slipped = true
  more : r.1 = .ok () → r.2.2.slipped = false → r.2.1.preKeys.entries.length = n + 1

/-- The prekey minted last is uploaded. -/
theorem uploaded_sendHome {w : World} {shelf : Shelf} {s : HomeSession} {blob : SignedPrekey}
    {keys : FiniteMap ℕ Bytes} {half : Bytes} (hs : w.inner.session? = some s)
    (hkeys : s.install.preKeys = keys.insert blob.prekeyId.toNat half)
    (hshelf : shelf.slipped = false → keys.lookup blob.prekeyId.toNat = none ∧
      ∀ id half, keys.lookup id = some half → (s.homeBase, id, half) ∈ shelf.accepted) :
    Uploaded keys.entries.length shelf.slipped
      (run (stockingOps p env) (sendHome (.publishPrekey blob)) (w, shelf)) := by
  rw [run_upload hs]
  have hstock : w.ticked.preKeys = s.install.preKeys := World.preKeys_of_session hs
  cases hanswer : env.answer (w.tick + 1) s.homeBase (.publishPrekey blob) with
  | error e =>
    refine ⟨fun h ↦ ?_, fun _ ↦ rfl, fun h ↦ by cases h⟩
    exact absurd (show true = false from h) (by decide)
  | ok a =>
    have haccepted : (shelf.upload s.homeBase blob w.ticked (.ok a)).accepted =
        shelf.accepted ++ [(s.homeBase, blob.prekeyId.toNat, half)] := by
      simp [Shelf.upload, hstock, hkeys]
    refine ⟨fun h ↦ ?_, id, fun _ h ↦ ?_⟩
    · intro s' hs' id half' hhalf
      obtain rfl : s = s' := Option.some_injective _ (hs.symm.trans hs')
      rw [hkeys, FiniteMap.lookup_insert_ite] at hhalf
      rw [haccepted]
      split_ifs at hhalf with hid
      · rw [hid, Option.some_injective _ hhalf]
        exact List.mem_append_right _ List.mem_cons_self
      · exact List.mem_append_left _ ((hshelf h).2 id half' hhalf)
    · calc
        w.preKeys.entries.length = (keys.insert blob.prekeyId.toNat half).entries.length := by
          rw [World.preKeys_of_session hs, hkeys]
        _ = keys.entries.length + 1 := FiniteMap.length_entries_insert (hshelf h).1 half

theorem uploaded_publishPrekey {w : World} {shelf : Shelf} (hs : Accounted (w, shelf)) :
    Uploaded w.preKeys.entries.length shelf.slipped
      (run (stockingOps p env) publishPrekey (w, shelf)) := by
  unfold publishPrekey
  cases hstate : w.inner.state with
  | none =>
    have hshelf : shelf.mint w none = shelf := by
      simp [Shelf.mint, World.preKeys, hstate]
    rw [Program.run_bind_of_error (run_mint_of_none hstate), hshelf]
    exact ⟨hs, id, fun h ↦ by cases h⟩
  | some state =>
    have hstock : w.preKeys = state.install.preKeys := by
      simp [World.preKeys, hstate]
    have hnext : w.nextPreKeyId = state.install.nextPreKeyId.toNat := by
      simp [World.nextPreKeyId, hstate]
    rw [Program.run_bind_of_ok (run_mint hstate), hstock]
    have hkeys := state.install.preKeys_mintPrekey (p := p) (env.draw w.tick)
    have hid := @Installation.prekeyId_mintPrekey p state.install (env.draw w.tick)
    generalize state.install.mintPrekey p (env.draw w.tick) = minted at hkeys hid ⊢
    obtain ⟨answer, left⟩ := minted
    cases answer with
    | error e =>
      have hslipped : (shelf.mint w (some (.error e))).slipped = true := by
        simp [Shelf.mint, Except.toOption]
      refine ⟨fun h ↦ ?_, fun _ ↦ hslipped, fun h ↦ by cases h⟩
      exact absurd (hslipped.symm.trans h) (by decide)
    | ok blob =>
      have hblob : blob.prekeyId.toNat = state.install.nextPreKeyId.toNat := hid rfl
      have hmint : (shelf.mint w (some (.ok blob))).slipped = false → shelf.slipped = false ∧
          state.install.preKeys.lookup blob.prekeyId.toNat = none := by
        rw [hblob, ← hnext, ← hstock]
        simp [Shelf.mint, Except.toOption]
      have hslips : shelf.slipped = true → (shelf.mint w (some (.ok blob))).slipped = true := by
        intro h
        simp [Shelf.mint, h]
      change Uploaded _ _ (run (stockingOps p env) (sendHome (.publishPrekey blob)) _)
      cases hsession : w.inner.session? with
      | none =>
        have hnone : (w.inner.mapInstall fun _ ↦ left).session? = none := by
          rw [Inner.session?_mapInstall, hsession]
          rfl
        obtain ⟨e, hrun⟩ := @run_upload_of_none p env
          (World.ticked { w with inner := w.inner.mapInstall fun _ ↦ left })
          (shelf.mint w (some (.ok blob))) hnone blob
        rw [hrun]
        refine ⟨fun _ s hs ↦ ?_, hslips, fun h ↦ by cases h⟩
        exact absurd (hnone.symm.trans hs) (by simp)
      | some s =>
        rw [Inner.session?_eq_some.mp hsession, Option.some.injEq] at hstate
        subst hstate
        have hleft : (w.inner.mapInstall fun _ ↦ left).session? =
            some { s with install := left } := by
          rw [Inner.session?_mapInstall, hsession]
          rfl
        have huploaded := @uploaded_sendHome p env
          (World.ticked { w with inner := w.inner.mapInstall fun _ ↦ left })
          (shelf.mint w (some (.ok blob))) _ blob _ _ hleft (hblob ▸ hkeys) fun h ↦
            ⟨(hmint h).2, hs (hmint h).1 s hsession⟩
        exact ⟨huploaded.accounted, fun h ↦ huploaded.slips (hslips h), huploaded.more⟩

/-! ## Restocking -/

/-- A session stays a session. -/
theorem keeps_session (q : SessionM α) :
    Keeps (stockingOps p env) (fun s ↦ ∃ session, s.1.inner.session? = some session) q := by
  refine .of_act (fun o s hs ↦ ?_) q
  obtain ⟨session, hsession⟩ := hs
  obtain ⟨state', hstate', hfollows⟩ :=
    (@Op.follows_effect p env False _ o False.elim s.1).exists_state
      (Inner.session?_eq_some.mp hsession)
  cases hfollows with
  | registered => exact ⟨_, Inner.session?_eq_some.mpr hstate'⟩

theorem keeps_slipped (q : SessionM α) :
    Keeps (stockingOps p env) (fun s ↦ s.2.slipped = true) q :=
  .of_act (fun o s hs ↦ Shelf.slipped_note (.op o) s.1 _ hs) q

/-- What restocking does to the account, when there were `n` prekeys in the store and `turns` more
can be minted. -/
structure Restocked (target n turns : ℕ) (r : Except CoreError Unit × World × Shelf) : Prop where
  accounted : Accounted r.2
  enough : r.1 = .ok () → r.2.2.slipped = false →
    target ≤ r.2.1.preKeys.entries.length ∨ n + turns ≤ r.2.1.preKeys.entries.length

theorem restocked_restockLoop (target turns : ℕ) {w : World} {shelf : Shelf}
    (hs : Accounted (w, shelf)) :
    Restocked target w.preKeys.entries.length turns
      (run (stockingOps p env) (restockLoop target turns) (w, shelf)) := by
  induction turns generalizing w shelf with
  | zero => exact ⟨hs, fun _ _ ↦ .inr le_rfl⟩
  | succ turns ih =>
    have hsession := @run_stocking_session p env (w, shelf)
    unfold restockLoop
    cases hregistered : w.inner.registered with
    | error e =>
      rw [hregistered] at hsession
      rw [Program.run_bind_of_error hsession]
      exact ⟨hs, fun h ↦ by cases h⟩
    | ok s =>
      rw [hregistered] at hsession
      rw [Program.run_bind_of_ok hsession]
      have hstock := World.preKeys_of_session (Inner.registered_eq_ok.mp hregistered)
      split_ifs with hfew
      · have huploaded := @uploaded_publishPrekey p env w.ticked shelf hs
        rw [run_bind]
        generalize run (stockingOps p env) publishPrekey (w.ticked, shelf) = r at huploaded ⊢
        obtain ⟨answer, t, shelf'⟩ := r
        cases answer with
        | error e => exact ⟨huploaded.accounted, fun h ↦ by cases h⟩
        | ok _ =>
          have hrest := ih huploaded.accounted
          refine ⟨hrest.accounted, fun hok hslipped ↦
            (hrest.enough hok hslipped).imp_right fun h ↦ ?_⟩
          have hbefore : shelf'.slipped = false := by
            by_contra hslips
            have hend := Keeps.run_end (@keeps_slipped p env _ (restockLoop target turns))
              (by simpa using hslips : (t, shelf').2.slipped = true)
            exact absurd (hend.symm.trans hslipped) (by decide)
          have hmore : t.preKeys.entries.length = w.preKeys.entries.length + 1 :=
            huploaded.more rfl hbefore
          refine le_trans ?_ h
          omega
      · refine ⟨hs, fun _ _ ↦ .inl ?_⟩
        change target ≤ w.preKeys.entries.length
        rw [hstock]
        exact not_lt.mp hfew

theorem shelved_maybeRotateSignedPrekey (now : UInt64) :
    Only Op.Shelved (maybeRotateSignedPrekey now) := by
  refine .bind (messaging_session.mono fun _ _ ↦ Op.Messaging.shelved) fun s ↦ ?_
  split_ifs
  · exact .pure _
  · refine .bind (messaging_nowMs.mono fun _ _ ↦ Op.Messaging.shelved) fun ms ↦ .bind ?_ fun _ ↦
      .ofExcept _
    refine .bind (.act trivial) fun answer ↦ ?_
    cases answer
    exacts [.fail _, .pure _]

/-- `maybe_rotate_signed_prekey` needs a session. -/
theorem session_of_maybeRotate {now : UInt64} {s t : World × Shelf} {a : Unit}
    (h : run (stockingOps p env) (maybeRotateSignedPrekey now) s = (.ok a, t)) :
    ∃ session, s.1.inner.session? = some session := by
  obtain ⟨session, s', hrun, -⟩ := Program.run_bind_eq_ok.mp h
  rw [run_stocking_session, Prod.mk.injEq, Inner.registered_eq_ok] at hrun
  exact ⟨session, hrun.1⟩

/-- Every prekey in the store has been accepted, so as many have as are there. -/
theorem Shelf.Covers.stocked {shelf : Shelf} {w : World} {s : HomeSession} {n : ℕ}
    (h : shelf.Covers w) (hs : w.inner.session? = some s) (hn : n ≤ w.preKeys.entries.length) :
    shelf.Stocked n w := by
  refine ⟨s, hs, ?_⟩
  have hall : (s.install.preKeys.entries.filter fun e ↦
      (s.homeBase, e.1, e.2) ∈ shelf.accepted) = s.install.preKeys.entries := by
    refine List.filter_eq_self.mpr fun e he ↦ decide_eq_true ?_
    exact h s hs e.1 e.2 (FiniteMap.lookup_eq_some_iff.mpr he)
  rwa [hall, ← World.preKeys_of_session hs]

/-- Restocking that succeeds leaves enough prekeys that the home has accepted. -/
theorem stocked_restockPublishUpto (hconsumes : p.libsignal.Consumes) (target : ℕ)
    {s : World × Shelf} (hs : Accounted s) :
    Accounted (run (stockingOps p env) (restockPublishUpto target) s).2 ∧
      ((run (stockingOps p env) (restockPublishUpto target) s).1 = .ok () →
        (run (stockingOps p env) (restockPublishUpto target) s).2.2.slipped = false →
        (run (stockingOps p env) (restockPublishUpto target) s).2.2.Stocked target
          (run (stockingOps p env) (restockPublishUpto target) s).2.1) := by
  have hnow : run (stockingOps p env) nowUnix s =
      (.ok (env.unix s.1.tick), (s.1.ticked, s.2)) := rfl
  have hrotate := Keeps.run_end (@keeps_accounted p env _ hconsumes _
    (shelved_maybeRotateSignedPrekey (env.unix s.1.tick)))
    (show Accounted (s.1.ticked, s.2) from hs)
  have hsession := @keeps_session p env _ (maybeRotateSignedPrekey (env.unix s.1.tick))
  unfold restockPublishUpto
  rw [Program.run_bind_of_ok hnow, run_bind]
  generalize hr : run (stockingOps p env) (maybeRotateSignedPrekey (env.unix s.1.tick))
    (s.1.ticked, s.2) = r at hrotate ⊢
  obtain ⟨answer, t, shelf⟩ := r
  cases answer with
  | error e => exact ⟨hrotate, fun h ↦ by cases h⟩
  | ok a =>
    have hleft := hsession.run_end (session_of_maybeRotate hr)
    rw [hr] at hleft
    obtain ⟨session, hend⟩ := (keeps_session (restockLoop target target)).run_end hleft
    have hloop := @restocked_restockLoop p env target target t shelf hrotate
    refine ⟨hloop.accounted, fun hok hslipped ↦ (hloop.accounted hslipped).stocked hend ?_⟩
    rcases hloop.enough hok hslipped with h | h
    · exact h
    · exact le_trans (Nat.le_add_left _ _) h

/-! ## What keeps the stock -/

/-- The home of the session, and the prekeys in the store. -/
def Inner.shelves (inner : Inner) : Option (String × FiniteMap ℕ Bytes) :=
  inner.session?.map fun s ↦ (s.homeBase, s.install.preKeys)

theorem Shelf.Stocked.of_shelves {shelf : Shelf} {n : ℕ} {w w' : World} (h : shelf.Stocked n w)
    (hshelves : w'.inner.shelves = w.inner.shelves) : shelf.Stocked n w' := by
  obtain ⟨s, hs, hn⟩ := h
  rw [Inner.shelves, Inner.shelves, hs, Option.map_some, Option.map_eq_some_iff] at hshelves
  obtain ⟨s', hs', heq⟩ := hshelves
  obtain ⟨hbase, hkeys⟩ := Prod.mk.inj heq
  refine ⟨s', hs', ?_⟩
  rwa [hbase, hkeys]

theorem Op.Plain.shelves_effect {o : Op β} (h : o.Plain) (w : World) :
    (o.effect p env w).2.inner.shelves = w.inner.shelves := by
  cases o with
  | session update =>
    rw [Op.effect, Inner.shelves, Inner.session?_mapSession, Option.map_map]
    cases update <;> rfl
  | ratchet op =>
    cases op with
    | encrypt peer plaintext =>
      simp only [Op.effect]
      split
      · rfl
      · next s hs =>
        have hkeys : (RatchetOp.run p (env.draw w.tick) (.encrypt peer plaintext)
            s.install.store).2.preKeyStores = s.install.store.preKeyStores := by
          simp only [RatchetOp.run]
          split <;> rfl
        simp only [Inner.shelves, Inner.session?_mapInstall, hs, Option.map_some,
          Installation.preKeys, hkeys]
    | _ => exact h.elim
  | shell f => rfl
  | memory => rfl
  | clock => rfl
  | draw => rfl
  | uniform min max => rfl
  | send origin request => rfl
  | _ => exact h.elim

theorem keeps_stocked {q : SessionM α} (h : Plain q) (n : ℕ) :
    Keeps (stockingOps p env) (fun s ↦ s.2.Stocked n s.1) q := by
  refine h.keeps fun o s ho hs ↦ ?_
  rw [stockingOps_step, Shelf.note_of_shelved ho.shelved]
  exact hs.of_shelves (ho.shelves_effect s.1)

theorem plain_moveFanouts (old : String) : Plain (moveFanouts old) := by
  refine .bind messaging_session.plain fun moved ↦ .forEach fun g ↦
    .bind (messaging_sendHome rfl).plain.attempt fun answer ↦ ?_
  cases answer with
  | error e => exact .pure _
  | ok capability => exact .bind (messaging_send _ rfl).plain.attempt fun _ ↦ .pure _

theorem plain_announceMove (now : UInt64) : Plain (announceMove p now) := by
  refine .bind messaging_session.plain fun s ↦ .forEach fun peer ↦
    .bind (Only.attempt ?_) fun _ ↦ .bind (Only.attempt ?_) fun _ ↦ .pure _
  · exact .bind (messaging_sendHome rfl).plain fun _ ↦ .bind messaging_session.plain fun _ ↦
      .bind (.ofExcept _) fun _ ↦ (messaging_sendVia ..).plain
  · refine .bind messaging_memory.plain fun inner ↦ .bind messaging_session.plain fun s ↦ ?_
    dsimp only
    split_ifs
    · exact .pure _
    · exact .bind (.bind messaging_session.plain fun _ ↦ .bind (.ofExcept _) fun _ ↦
        (messaging_sendVia ..).plain) fun _ ↦ .act trivial

/-! ## Calls -/

/-- The calls that mint, upload and consume prekeys, and that change the home. `register` registers
a client, or moves a registered one. -/
inductive StockCall
  | register (base : String)
  | publishPrekey
  | restockPublish
  | restockPublishUpto (target : ℕ)
  | restockThread
  | decrypt (peer : IdentityId) (ciphertext : Bytes)

/-- A call, but for what it answers. -/
def StockCall.program (p : Outside) : StockCall → ClientM Unit
  | register base => Client.register p base
  | publishPrekey => Client.publishPrekey
  | restockPublish => Client.restockPublish
  | restockPublishUpto target => Client.restockPublishUpto target
  | restockThread => Client.restockThread
  | decrypt peer ciphertext => do let _ ← ratchet (.decrypt peer ciphertext)

/-- A call of a run. -/
def stockCall (p : Outside) (env : Environment) (s : World × Shelf) (c : StockCall) :
    World × Shelf := (run (stocking p env) (c.program p) s).2

/-- The client gets a home with nothing in its store. -/
theorem accounted_move {w w' : World} (shelf : Shelf) (h : w'.preKeys = w.preKeys) :
    Accounted (w', shelf.move w) := by
  intro hslipped s hs id half hlookup
  have hempty : w.preKeys.entries = [] := by
    simp only [Shelf.move, Bool.or_eq_false_iff, Bool.not_eq_false', List.isEmpty_iff] at hslipped
    exact hslipped.2
  rw [← World.preKeys_of_session hs, h, FiniteMap.lookup_eq_some_iff, hempty] at hlookup
  cases hlookup

theorem accounted_begin_ (s : World × Shelf) (bundle : ServerBundle) (base : String) :
    Accounted ((stocking p env).step (.begin_ bundle base) s).2 := by
  refine accounted_move s.2 ?_
  change ((s.1.inner.beginSession bundle base).state.map (·.install.preKeys)).getD ∅ = s.1.preKeys
  unfold Inner.beginSession
  split
  · next install hstate => simp [World.preKeys, hstate, ClientState.install, HomeSession.resume]
  · rfl

theorem accounted_moveTo (s : World × Shelf) (bundle : ServerBundle) (base : String) :
    Accounted ((stocking p env).step (.move bundle base) s).2 := by
  refine accounted_move s.2 ?_
  change ((s.1.inner.mapSession fun session ↦ session.moveTo bundle base).state.map
    (·.install.preKeys)).getD ∅ = s.1.preKeys
  unfold Inner.mapSession
  split
  · next session hstate => simp [World.preKeys, hstate, ClientState.install, HomeSession.moveTo]
  · rfl

theorem Inner.session?_relocate (inner : Inner) : inner.relocate.session? = inner.session? := by
  unfold relocate
  split <;> rfl

/-- An action that leaves the session and the record alone. -/
theorem Accounted.same {s t : World × Shelf} (hs : Accounted s)
    (hsession : t.1.inner.session? = s.1.inner.session?) (hshelf : t.2 = s.2) : Accounted t := by
  intro hslipped
  rw [hshelf] at hslipped ⊢
  exact (hs hslipped).shrink fun s' hs' ↦ ⟨s', hsession ▸ hs', rfl, fun _ _ h ↦ h⟩

theorem Shelf.Stocked.same {n : ℕ} {s t : World × Shelf} (hs : s.2.Stocked n s.1)
    (hsession : t.1.inner.session? = s.1.inner.session?) (hshelf : t.2 = s.2) :
    t.2.Stocked n t.1 := by
  rw [hshelf]
  exact hs.of_shelves (congrArg (Option.map _) hsession)

/-- What a save keeps. -/
theorem keeps_persist {Inv : World × Shelf → Prop} (h : ∀ {s t : World × Shelf}, Inv s →
    t.1.inner.session? = s.1.inner.session? → t.2 = s.2 → Inv t) :
    Keeps (stocking p env) Inv persist := by
  refine .bind (.act fun s hs ↦ h hs rfl rfl) fun inner ↦ ?_
  split_ifs
  · refine .forEach fun entry _ ↦ .bind (.act fun s hs ↦ h hs ?_ rfl) fun _ ↦ .ofExcept _
    exact congrArg Inner.session? (World.inner_after_put s.1 entry)
  · exact .fail _
  · exact .pure _

theorem run_stocking (q : SessionM α) (s : World × Shelf) :
    run (stocking p env) (q : ClientM α) s = run (stockingOps p env) q s := Program.run_hoist q s

theorem leaves_inside {q : SessionM α} (h : Leaves (stockingOps p env) Accounted q) :
    Leaves (stocking p env) Accounted (q : ClientM α) := by
  intro s hs
  rw [run_stocking]
  exact h s hs

theorem leaves_shelved (hconsumes : p.libsignal.Consumes) {q : SessionM α} (h : Only Op.Shelved q) :
    Leaves (stocking p env) Accounted (q : ClientM α) :=
  leaves_inside (keeps_accounted hconsumes h).leaves

theorem leaves_restockPublishUpto (hconsumes : p.libsignal.Consumes) (target : ℕ) :
    Leaves (stockingOps p env) Accounted (restockPublishUpto target) :=
  fun _ hs ↦ (stocked_restockPublishUpto hconsumes target hs).1

theorem shelved_mintCard (bundle : ServerBundle) (now : UInt64) :
    Only Op.Shelved (mintCard p bundle now) := by
  refine .bind (messaging_drawKey.mono fun _ _ ↦ Op.Messaging.shelved) fun _ ↦
    .bind (.bind (.act trivial) fun answer ↦ ?_) fun _ ↦
    .bind (messaging_memory.mono fun _ _ ↦ Op.Messaging.shelved) fun _ ↦
    .bind (.ofExcept _) fun _ ↦ .ofExcept _
  cases answer
  exacts [.fail _, .pure _]

theorem Messaging.shelved {q : SessionM α} (h : Messaging q) : Only Op.Shelved q :=
  h.mono fun _ _ ↦ Op.Messaging.shelved

theorem Plain.shelved {q : SessionM α} (h : Plain q) : Only Op.Shelved q :=
  h.mono fun _ _ ↦ Op.Plain.shelved

theorem leaves_registerSession (hconsumes : p.libsignal.Consumes) (base : String) (now : UInt64) :
    Leaves (stocking p env) Accounted (registerSession p base now) :=
  .bind (leaves_shelved hconsumes (messaging_send _ rfl).shelved) fun _ ↦
    .bind (leaves_shelved hconsumes (shelved_mintCard _ _)) fun _ ↦
    .bind (leaves_shelved hconsumes (messaging_send _ rfl).shelved) fun _ ↦
    .bind (fun s _ ↦ accounted_begin_ s _ _) fun _ ↦
    leaves_inside (leaves_restockPublishUpto hconsumes _)

theorem leaves_rehome (hconsumes : p.libsignal.Consumes) (base : String) (now : UInt64) :
    Leaves (stocking p env) Accounted (rehome p base now) := by
  refine .bind (leaves_shelved hconsumes (messaging_send _ rfl).shelved) fun bundle ↦
    .bind (leaves_shelved hconsumes messaging_session.shelved) fun s ↦ ?_
  split_ifs
  · exact fun _ hs ↦ hs
  · exact .bind (leaves_shelved hconsumes (shelved_mintCard _ _)) fun _ ↦
      .bind (leaves_shelved hconsumes (messaging_send _ rfl).shelved) fun _ ↦
      .bind (fun s _ ↦ accounted_moveTo s _ _) fun _ ↦
      .bind (leaves_inside (leaves_restockPublishUpto hconsumes _)) fun _ ↦
      .bind (leaves_shelved hconsumes (plain_moveFanouts _).shelved) fun _ ↦
      .bind (leaves_shelved hconsumes (Messaging.shelved (.attempt (messaging_send _ rfl))))
        fun _ _ hs ↦ hs

theorem leaves_persist : Leaves (stocking p env) Accounted persist :=
  (keeps_persist fun hs hsession hshelf ↦ hs.same hsession hshelf).leaves

/-- An action that leaves the session alone. -/
theorem leaves_act {action : Act β}
    (hsession : ∀ w : World, (w.after p env action).inner.session? = w.inner.session?)
    (hnote : ∀ w answer shelf, Shelf.note action w answer shelf = shelf) :
    Leaves (stocking p env) Accounted (act action : ClientM β) :=
  fun s hs ↦ hs.same (hsession s.1) (hnote s.1 _ s.2)

/-- A state without a session has nothing to account for. -/
theorem leaves_replace {state : Option ClientState} (h : ∀ s, state ≠ some (.registered s)) :
    Leaves (stocking p env) Accounted (act (.replace state) : ClientM Unit) := by
  intro s _ _ session hsession
  exact absurd (Inner.session?_eq_some.mp hsession) (h session)

theorem leaves_register (hconsumes : p.libsignal.Consumes) (base : String) :
    Leaves (stocking p env) Accounted (register p base) := by
  refine .bind (leaves_shelved hconsumes messaging_memory.shelved) fun inner ↦
    .bind (leaves_shelved hconsumes messaging_nowUnix.shelved) fun now ↦ ?_
  split
  · exact fun _ hs ↦ hs
  · refine .bind (leaves_act (fun _ ↦ rfl) fun _ _ _ ↦ rfl) fun _ ↦
      .bind (Keeps.ofExcept _).leaves fun _ ↦
      .bind (leaves_registerSession hconsumes _ _).attempt fun answer ↦ ?_
    cases answer with
    | ok _ => exact .bind (leaves_act (fun _ ↦ rfl) fun _ _ _ ↦ rfl) fun _ ↦ leaves_persist
    | error e =>
      dsimp only
      split_ifs
      · exact .bind (leaves_act (fun _ ↦ rfl) fun _ _ _ ↦ rfl) fun install ↦
          .bind (leaves_replace nofun) fun _ _ hs ↦ hs
      · exact .bind (leaves_replace nofun) fun _ _ hs ↦ hs
  · refine .bind (leaves_act (fun _ ↦ rfl) fun _ _ _ ↦ rfl) fun _ ↦ ?_
    split_ifs
    · exact .bind (leaves_act (fun _ ↦ rfl) fun _ _ _ ↦ rfl) fun _ _ hs ↦ hs
    · refine .bind (Keeps.ofExcept _).leaves fun _ ↦
        .bind (leaves_rehome hconsumes _ _).attempt fun answer ↦ ?_
      cases answer with
      | ok _ =>
        exact .bind (leaves_act (fun w ↦ w.inner.session?_relocate) fun _ _ _ ↦ rfl) fun _ ↦
          .bind (leaves_shelved hconsumes (plain_announceMove _).shelved)
            fun _ ↦ .bind (leaves_act (fun _ ↦ rfl) fun _ _ _ ↦ rfl) fun _ ↦ leaves_persist
      | error e => exact .bind (leaves_act (fun _ ↦ rfl) fun _ _ _ ↦ rfl) fun _ _ hs ↦ hs

theorem leaves_program (hconsumes : p.libsignal.Consumes) (c : StockCall) :
    Leaves (stocking p env) Accounted (c.program p) := by
  cases c with
  | register base => exact leaves_register hconsumes base
  | publishPrekey => exact leaves_inside fun s hs ↦ (uploaded_publishPrekey hs).accounted
  | restockPublish => exact leaves_inside (leaves_restockPublishUpto hconsumes _)
  | restockPublishUpto target => exact leaves_inside (leaves_restockPublishUpto hconsumes _)
  | restockThread =>
    refine .bind (leaves_shelved hconsumes messaging_session.shelved) fun before ↦
      .bind (leaves_inside (leaves_restockPublishUpto hconsumes _).attempt) fun done ↦
      .bind (leaves_shelved hconsumes messaging_session.shelved) fun after ↦ ?_
    cases done with
    | error e => exact fun _ hs ↦ hs
    | ok _ =>
      dsimp only
      split_ifs
      · exact fun _ hs ↦ hs
      · exact .bind leaves_persist.attempt fun _ _ hs ↦ hs
  | decrypt peer ciphertext =>
    refine .bind (leaves_shelved hconsumes ?_) fun _ _ hs ↦ hs
    refine .bind (.act trivial) fun answer ↦ ?_
    cases answer
    exacts [.fail _, .pure _]

/-- The calls that succeed when `restock_publish` does: itself, and a change of home. -/
def StockCall.Restocks (w : World) : StockCall → Prop
  | restockPublish => True
  | register _ => w.inner.session?.isSome
  | _ => False

/-- No prekey is left in the store that the home does not have. -/
def NothingSlips (p : Outside) (env : Environment) (s : World × Shelf) (c : StockCall) : Prop :=
  (stockCall p env s c).2.slipped = false

/-- A program that ends well leaves a stock, unless a prekey was left behind. -/
def Delivers (p : Outside) (env : Environment) (q : ClientM α) : Prop :=
  ∀ s, Accounted s → ∀ a t, run (stocking p env) q s = (.ok a, t) → t.2.slipped = false →
    t.2.Stocked prekeyRestockBelow t.1

theorem Delivers.after {q : ClientM α} {f : α → ClientM β}
    (hq : Leaves (stocking p env) Accounted q) (hf : ∀ a, Delivers p env (f a)) :
    Delivers p env (q >>= f) := by
  intro s hs b t hrun hslips
  obtain ⟨a, u, hfirst, hrest⟩ := Program.run_bind_eq_ok.mp hrun
  have hu := hq s hs
  rw [hfirst] at hu
  exact hf a u hu b t hrest hslips

theorem keeps_slipped_act (q : ClientM α) :
    Keeps (stocking p env) (fun s ↦ s.2.slipped = true) q :=
  .of_act (fun action s hs ↦ Shelf.slipped_note action s.1 _ hs) q

/-- Where no prekey has been left behind in the end, none had been before. -/
theorem not_slipped_before {q : ClientM α} {s : World × Shelf} {t : World × Shelf}
    {a : Except CoreError α} (hrun : run (stocking p env) q s = (a, t))
    (h : t.2.slipped = false) : s.2.slipped = false := by
  by_contra hs
  have hend := Keeps.run_end (@keeps_slipped_act p env _ q)
    (by simpa using hs : s.2.slipped = true)
  rw [hrun] at hend
  exact absurd (hend.symm.trans h) (by decide)

theorem Delivers.bind {q : ClientM α} {f : α → ClientM β} (hq : Delivers p env q)
    (hf : ∀ a, Leaves (stocking p env) (fun s ↦ s.2.Stocked prekeyRestockBelow s.1) (f a)) :
    Delivers p env (q >>= f) := by
  intro s hs b t hrun hslips
  obtain ⟨a, u, hfirst, hrest⟩ := Program.run_bind_eq_ok.mp hrun
  have hu := hf a u (hq s hs a u hfirst (not_slipped_before hrest hslips))
  rwa [hrest] at hu

theorem leaves_stocked {q : SessionM α} (h : Plain q) (n : ℕ) :
    Leaves (stocking p env) (fun s ↦ s.2.Stocked n s.1) (q : ClientM α) := by
  intro s hs
  rw [run_stocking]
  exact (keeps_stocked h n).run_end hs

theorem delivers_restockPublish (hconsumes : p.libsignal.Consumes) :
    Delivers p env (restockPublish : ClientM Unit) := by
  intro s hs a t hrun hslips
  have hstocked := (@stocked_restockPublishUpto p env hconsumes prekeyRestockBelow s hs).2
  rw [run_stocking] at hrun
  unfold restockPublish at hrun
  rw [hrun] at hstocked
  exact hstocked rfl hslips

theorem delivers_rehome (hconsumes : p.libsignal.Consumes) (base : String) (now : UInt64) :
    Delivers p env (rehome p base now) := by
  refine .after (leaves_shelved hconsumes (messaging_send _ rfl).shelved) fun bundle ↦
    .after (leaves_shelved hconsumes messaging_session.shelved) fun s ↦ ?_
  split_ifs
  · intro _ _ _ _ hrun
    cases hrun
  · refine .after (leaves_shelved hconsumes (shelved_mintCard _ _)) fun _ ↦
      .after (leaves_shelved hconsumes (messaging_send _ rfl).shelved) fun _ ↦
      .after (fun s _ ↦ accounted_moveTo s _ _) fun _ ↦
      (delivers_restockPublish hconsumes).bind fun _ ↦ ?_
    exact (leaves_stocked (plain_moveFanouts _) _).bind fun _ ↦
      (leaves_stocked (Messaging.plain (.attempt (messaging_send _ rfl))) _).bind fun _ _ hs ↦ hs

/-- What comes after the `rehome` of a `register`. -/
theorem leaves_stocked_finish (now : UInt64) (n : ℕ) :
    Leaves (stocking p env) (fun s ↦ s.2.Stocked n s.1) (do
      act .relocate
      announceMove p now
      act .restore
      persist : ClientM Unit) :=
  .bind (fun s hs ↦ Shelf.Stocked.same hs s.1.inner.session?_relocate rfl) fun _ ↦
    .bind (leaves_stocked (plain_announceMove _) n) fun _ ↦
    .bind (fun _ hs ↦ Shelf.Stocked.same hs rfl rfl) fun _ ↦
    (keeps_persist fun hs hsession hshelf ↦ Shelf.Stocked.same hs hsession hshelf).leaves

theorem delivers_register (hconsumes : p.libsignal.Consumes) (base : String) {s t : World × Shelf}
    (hs : Accounted s) (hsession : s.1.inner.session?.isSome)
    (hrun : run (stocking p env) (register p base) s = (.ok (), t)) (hslips : t.2.slipped = false) :
    t.2.Stocked prekeyRestockBelow t.1 := by
  obtain ⟨session, hsession⟩ := Option.isSome_iff_exists.mp hsession
  have hstate := Inner.session?_eq_some.mp hsession
  obtain ⟨inner, u, hmemory, hrun⟩ := Program.run_bind_eq_ok.mp hrun
  obtain rfl : s.1.inner = inner := Except.ok.inj (congrArg Prod.fst hmemory)
  obtain rfl : (s.1.ticked, s.2) = u := congrArg Prod.snd hmemory
  obtain ⟨now, v, hnow, hrun⟩ := Program.run_bind_eq_ok.mp hrun
  obtain rfl : (s.1.ticked.ticked, s.2) = v := congrArg Prod.snd hnow
  rw [hstate] at hrun
  dsimp only at hrun
  obtain ⟨_, x, htake, hrun⟩ := Program.run_bind_eq_ok.mp hrun
  obtain rfl : (World.ticked { s.1.ticked.ticked with taken := true }, s.2) = x :=
    congrArg Prod.snd htake
  split_ifs at hrun
  · obtain ⟨_, y, -, hrun⟩ := Program.run_bind_eq_ok.mp hrun
    cases hrun
  · obtain ⟨_, y, hbase, hrun⟩ := Program.run_bind_eq_ok.mp hrun
    obtain ⟨-, rfl⟩ := Program.run_ofExcept_eq_ok.mp hbase
    obtain ⟨answer, z, hattempt, hrun⟩ := Program.run_bind_eq_ok.mp hrun
    rw [Program.run_attempt, Prod.mk.injEq, Except.ok.injEq] at hattempt
    cases answer with
    | error e =>
      obtain ⟨_, y, -, hrun⟩ := Program.run_bind_eq_ok.mp hrun
      cases hrun
    | ok _ =>
      have hx : Accounted (World.ticked { s.1.ticked.ticked with taken := true }, s.2) :=
        hs.same rfl rfl
      have hstocked := delivers_rehome hconsumes base now _ hx _ z
        (Prod.ext hattempt.1 hattempt.2) (not_slipped_before hrun hslips)
      have hend := @leaves_stocked_finish p env now prekeyRestockBelow z hstocked
      rwa [hrun] at hend

theorem stocked_of_restocks (hconsumes : p.libsignal.Consumes) {s : World × Shelf} {c : StockCall}
    (hs : Accounted s) (hc : c.Restocks s.1) (hslips : NothingSlips p env s c)
    (hok : (run (stocking p env) (c.program p) s).1 = .ok ()) :
    (stockCall p env s c).2.Stocked prekeyRestockBelow (stockCall p env s c).1 := by
  cases c with
  | restockPublish => exact delivers_restockPublish hconsumes s hs _ _ (Prod.ext hok rfl) hslips
  | register base => exact delivers_register hconsumes base hs hc (Prod.ext hok rfl) hslips
  | _ => exact hc.elim

/-- A client that has no home yet. -/
def World.homeless : World :=
  { World.acquainted with
    inner := Inner.empty (some (.local_ HomeSession.acquainted.install)) true none
    vault := { World.acquainted.vault with home := none } }

/-- Two homes that take every registration and every prekey. -/
def Environment.welcoming : Environment :=
  { Environment.silent with
    answer := fun _ origin request ↦ match request with
      | .bundle =>
        .ok { HomeSession.acquainted.bundle with
          serverId := .replicate 32 (if origin = "https://home" then 0 else 1) }
      | .register _ => .ok ()
      | .publishPrekey _ => .ok ()
      | _ => .error (.transport "no answer") }

theorem Libsignal.consumes_transparent : Outside.transparent.libsignal.Consumes := by
  intro store peer ciphertext seed id half h
  simp only [Outside.transparent] at h
  split at h <;> exact h

/-- In a run in which no upload fails, and no home is left with prekeys in the store, a restock that
succeeds has left enough prekeys at the current home. -/
theorem stocked_of_nothing_slips (hconsumes : p.libsignal.Consumes) {w : World}
    (hw : w.inner.session? = none) (calls : List StockCall) (c : StockCall)
    (h : Allowed (stockCall p env) (NothingSlips p env) (w, ⟨[], false⟩) (calls ++ [c]))
    (hc : c.Restocks (Data.run (stockCall p env) (w, ⟨[], false⟩) calls).1)
    (hok : (run (stocking p env) (c.program p)
      (Data.run (stockCall p env) (w, ⟨[], false⟩) calls)).1 = .ok ()) :
    let s := stockCall p env (Data.run (stockCall p env) (w, ⟨[], false⟩) calls) c
    s.2.Stocked prekeyRestockBelow s.1 := by
  have haccounted : Accounted (Data.run (stockCall p env) (w, ⟨[], false⟩) calls) := by
    refine Data.run_keeps Accounted (fun s c hs ↦ leaves_program hconsumes c s hs) ?_ calls
    intro _ s hs
    exact absurd (hw.symm.trans hs) (by simp)
  exact stocked_of_restocks hconsumes haccounted hc (allowed_append.mp h).2.1 hok

set_option maxRecDepth 100000 in
/-- A client that registers and then restocks. -/
theorem stocked_of_nothing_slips_registered :
    let call := stockCall .transparent .welcoming
    let s := call (call (World.homeless, ⟨[], false⟩) (.register "https://home")) .restockPublish
    s.2.Stocked prekeyRestockBelow s.1 := by
  refine stocked_of_nothing_slips (c := .restockPublish) Libsignal.consumes_transparent rfl
    [.register "https://home"] ⟨?_, ?_, trivial⟩ trivial ?_
  · unfold NothingSlips
    decide +kernel
  · unfold NothingSlips
    decide +kernel
  · rfl

/-- That client, before a move to another home. -/
def World.beforeMove : World × Shelf :=
  stockCall .transparent .welcoming
    (stockCall .transparent .welcoming (World.homeless, ⟨[], false⟩) (.register "https://home"))
    .restockPublish

/-- The client after the move. -/
def World.moved : World × Shelf :=
  stockCall .transparent .welcoming World.beforeMove (.register "https://other")

set_option maxRecDepth 100000 in
theorem World.moved_without_stock :
    (stockCall .transparent .welcoming moved .restockPublish).1.inner.session?.all fun s ↦
      (s.install.preKeys.entries.filter fun e ↦ (s.homeBase, e.1, e.2) ∈
        (stockCall .transparent .welcoming moved .restockPublish).2.accepted).length = 0 := by
  decide +kernel

/-- The move and the restock after it both succeed, and the new home has no prekey. -/
theorem restockPublish_after_move_counts_old :
    ∃ calls : List StockCall, World.homeless.inner.session? = none ∧
      let s := Data.run (stockCall .transparent .welcoming) (World.homeless, ⟨[], false⟩) calls
      (run (stocking .transparent .welcoming) (restockPublish : ClientM Unit) s).1 = .ok () ∧
        ¬(stockCall .transparent .welcoming s .restockPublish).2.Stocked prekeyRestockBelow
          (stockCall .transparent .welcoming s .restockPublish).1 := by
  refine ⟨[.register "https://home", .restockPublish, .register "https://other"], rfl, ?_, ?_⟩
  · rfl
  · rintro ⟨s, hs, hn⟩
    have hall := World.moved_without_stock
    have hsession : (stockCall .transparent .welcoming World.moved
      .restockPublish).1.inner.session? = some s := hs
    rw [hsession, Option.all_some, decide_eq_true_eq] at hall
    exact absurd (hn.trans_eq hall) (by decide)

end NemoMessenger.Client
