import NemoMessenger.Client.Session

/-!
# Running a part of a method

A part of a method that neither acks nor saves runs on the operations alone. What the small programs
the others are made of answer and leave is stated here once, so that a run can be followed step by
step.
-/

namespace NemoMessenger.Client

open NemoMessenger.Data NemoMessenger.Wire
open Program (Keeps Visits run run_bind act attempt ofExcept forEach fail)

/-- The operations of a device. -/
abbrev inside (p : Outside) (env : Environment) : Machine Op World := (device p env).comap Act.op

variable {p : Outside} {env : Environment}

theorem run_inside {α : Type} (q : SessionM α) (w : World) :
    run (device p env) (q : ClientM α) w = run (inside p env) q w := Program.run_hoist q w

theorem run_op {β : Type} (o : Op β) (w : World) :
    run (inside p env) (act o : SessionM β) w =
      (.ok (o.effect p env w).1, (o.effect p env w).2.ticked) := rfl

@[simp] theorem run_memory (w : World) : run (inside p env) memory w = (.ok w.inner, w.ticked) := rfl

@[simp] theorem run_session (w : World) :
    run (inside p env) session w = (w.inner.registered, w.ticked) := Program.run_ofExcept _ _

@[simp] theorem run_update (u : SessionUpdate) (w : World) :
    run (inside p env) (update u) w =
      (.ok (), World.ticked { w with inner := w.inner.mapSession u.apply }) := rfl

@[simp] theorem run_onShell (f : Shell → Shell) (w : World) :
    run (inside p env) (onShell f) w =
      (.ok (), World.ticked { w with inner := { w.inner with shell := f w.inner.shell } }) := rfl

@[simp] theorem run_send (origin : String) (request : Request) (w : World) :
    run (inside p env) (send origin request) w =
      (env.answer w.tick origin request,
        World.ticked { w with log := w.log ++ [.sent origin request] }) :=
  Program.run_ofExcept _ _

@[simp] theorem run_nowMs (w : World) :
    run (inside p env) nowMs w = (.ok (env.clock w.tick), w.ticked) := rfl

/-- `now_unix()` at the time of an action. -/
def Environment.unix (env : Environment) (tick : ℕ) : UInt64 := UInt64.ofNat (env.clock tick / 1000)

theorem run_nowUnix (w : World) :
    run (inside p env) nowUnix w = (.ok (env.unix w.tick), w.ticked) := rfl

theorem run_nowUnix_bind {α : Type} (f : UInt64 → SessionM α) (w : World) :
    run (inside p env) (nowUnix >>= f) w = run (inside p env) (f (env.unix w.tick)) w.ticked := rfl

@[simp] theorem World.inner_ticked (w : World) : w.ticked.inner = w.inner := rfl

@[simp] theorem World.vault_ticked (w : World) : w.ticked.vault = w.vault := rfl

@[simp] theorem World.log_ticked (w : World) : w.ticked.log = w.log := rfl

namespace Inner

variable {inner : Inner} {s : HomeSession}

theorem registered_eq_ok : inner.registered = .ok s ↔ inner.session? = some s := by
  unfold registered session?
  cases inner.state with
  | none => simp
  | some state => cases state <;> simp

theorem session?_eq_some : inner.session? = some s ↔ inner.state = some (.registered s) := by
  unfold session?
  cases inner.state with
  | none => simp
  | some state => cases state <;> simp

@[simp] theorem session?_mapSession (inner : Inner) (f : HomeSession → HomeSession) :
    (inner.mapSession f).session? = inner.session?.map f := by
  unfold mapSession
  cases hstate : inner.state with
  | none => simp [session?, hstate]
  | some state => cases state <;> simp [session?, hstate]

end Inner

@[simp] theorem Inner.session?_mapInstall (inner : Inner) (f : Installation → Installation) :
    (inner.mapInstall f).session? =
      inner.session?.map fun s ↦ { s with install := f s.install } := by
  unfold mapInstall session?
  cases inner.state with
  | none => rfl
  | some state => cases state <;> rfl

/-- The session of a registered client, without a look at the memory. -/
theorem run_session_bind {α : Type} {w : World} {s : HomeSession} (h : w.inner.session? = some s)
    (f : HomeSession → SessionM α) :
    run (inside p env) (session >>= f) w = run (inside p env) (f s) w.ticked := by
  rw [run_bind, run_session, Inner.registered_eq_ok.mpr h]

/-- Without a session there is an error. -/
theorem run_session_bind_of_none {α : Type} {w : World} (h : w.inner.session? = none)
    (f : HomeSession → SessionM α) :
    ∃ e, run (inside p env) (session >>= f) w = (.error e, w.ticked) := by
  rw [run_bind, run_session]
  cases hregistered : w.inner.registered with
  | error e => exact ⟨e, rfl⟩
  | ok s =>
    rw [Inner.registered_eq_ok, h] at hregistered
    cases hregistered

theorem run_update_bind {α : Type} (u : SessionUpdate) (f : Unit → SessionM α) (w : World) :
    run (inside p env) (update u >>= f) w =
      run (inside p env) (f ())
        (World.ticked { w with inner := w.inner.mapSession u.apply }) := by
  rw [run_bind, run_update]

theorem run_onShell_bind {α : Type} (f : Shell → Shell) (next : Unit → SessionM α) (w : World) :
    run (inside p env) (onShell f >>= next) w =
      run (inside p env) (next ())
        (World.ticked { w with inner := { w.inner with shell := f w.inner.shell } }) := rfl

/-- The ratchets of a registered client change its store. -/
theorem run_ratchet {β : Type} {w : World} {s : HomeSession} (h : w.inner.session? = some s)
    (op : RatchetOp β) :
    run (inside p env) (ratchet op) w =
      (.ok (op.run p (env.draw w.tick) s.install.store).1,
        World.ticked { w with
          inner := w.inner.mapInstall fun i ↦
            { i with store := (op.run p (env.draw w.tick) s.install.store).2 }
          log := w.log ++ op.events s.install.store
            (op.run p (env.draw w.tick) s.install.store).1 }) := by
  unfold ratchet
  rw [run_bind, run_op]
  simp only [Op.effect, h]
  rfl

/-- An operation on the group of a live group. -/
theorem run_onGroup {β : Type} {w : World} {i : ℕ} {g : Group} (h : w.inner.groupAt i = some g)
    (op : GroupOp β) :
    run (inside p env) (onGroup i op) w =
      (.ok (op.run p (env.draw w.tick) g).1,
        World.ticked { w with
          inner := w.inner.setGroupAt i (op.run p (env.draw w.tick) g).2 }) := by
  unfold onGroup
  rw [run_bind, run_op]
  simp only [Op.effect, h]
  rfl

theorem run_memory_bind {α : Type} (f : Inner → SessionM α) (w : World) :
    run (inside p env) (memory >>= f) w = run (inside p env) (f w.inner) w.ticked := rfl

theorem run_ofExcept_bind {α β : Type} (x : Except CoreError α) (f : α → SessionM β) (w : World) :
    run (inside p env) (ofExcept x >>= f) w =
      match x with
      | .ok a => run (inside p env) (f a) w
      | .error e => (.error e, w) := by
  rw [run_bind, Program.run_ofExcept]
  cases x <;> rfl

/-! ## Requests -/

/-- A request to the home of a session or to the origin of a peer leaves the memory alone. -/
theorem inner_callOn (origin : String) (request : Request) (w : World) :
    (run (inside p env) (callOn p origin request) w).2.inner = w.inner := by
  unfold callOn
  rw [run_bind, run_session]
  cases w.inner.registered with
  | error e => rfl
  | ok s =>
    dsimp only
    split_ifs
    · rw [run_send]
      rfl
    · cases p.formats.checkBase (trimSlashes origin) with
      | error e => rfl
      | ok _ =>
        dsimp only
        rw [run_send]
        rfl

/-! ## Operations and the vault -/

/-- No operation on the memory writes to the vault. -/
theorem Op.vault_effect {β : Type} (o : Op β) (w : World) : (o.effect p env w).2.vault = w.vault := by
  cases o with
  | ratchet op =>
    simp only [Op.effect]
    split <;> rfl
  | install op =>
    simp only [Op.effect]
    split <;> rfl
  | group i op =>
    simp only [Op.effect]
    split <;> rfl
  | _ => rfl

/-- The vault is not written to outside of a save. -/
theorem vault_run_inside {α : Type} (q : SessionM α) (w : World) :
    (run (device p env) (q : ClientM α) w).2.vault = w.vault := by
  have hkeeps : Keeps (device p env) (fun u ↦ u.vault = w.vault) (q : ClientM α) :=
    Keeps.hoist (fun o u hu ↦ (o.vault_effect u).trans hu) q
  exact hkeeps w _ rfl (Program.visits_end _ w)

/-! ## Places -/

/-- Where a session looks its contacts up. -/
structure Place where
  contacts : FiniteMap IdentityId StoredContact
  bundle : ServerBundle
  homeBase : String

def HomeSession.place (s : HomeSession) : Place := ⟨s.contacts, s.bundle, s.homeBase⟩

/-- The place of the session in memory. -/
def World.place (w : World) : Option Place := w.inner.session?.map (·.place)

/-- The contacts of the session in memory. -/
def World.contacts (w : World) : Option (FiniteMap IdentityId StoredContact) :=
  w.inner.session?.map (·.contacts)

theorem World.contacts_of_place {w : World} {place : Place} (h : w.place = some place) :
    w.contacts = some place.contacts := by
  obtain ⟨s, hs, rfl⟩ := Option.map_eq_some_iff.mp h
  simp [contacts, hs, HomeSession.place]

/-! ## Groups that stay as they are -/

/-- Groups and conversations are the same. -/
structure Inner.Same (inner inner' : Inner) : Prop where
  groups : inner'.groups = inner.groups
  mls : ∀ i, inner'.groupAt i = inner.groupAt i
  shell : inner'.shell = inner.shell

namespace Inner

variable {inner inner' inner'' : Inner} {i : ℕ} {g : Group}

theorem Same.refl (inner : Inner) : inner.Same inner := ⟨rfl, fun _ ↦ rfl, rfl⟩

theorem Same.trans (h : inner.Same inner') (h' : inner'.Same inner'') : inner.Same inner'' where
  groups := h'.groups.trans h.groups
  mls i := (h'.mls i).trans (h.mls i)
  shell := h'.shell.trans h.shell

theorem groupAt_eq_some : inner.groupAt i = some g ↔ ∃ live state, inner.groups[i]? = some live ∧
    inner.state = some state ∧ live.mls = g.toGroupRecord ∧
    state.install.mlsStorage.groups.lookup g.mlsGroupId = some g.mls := by
  unfold groupAt
  constructor
  · intro h
    simp only [Option.bind_eq_bind, Option.bind_eq_some_iff, Option.some.injEq] at h
    obtain ⟨live, hlive, state, hstate, mls, hmls, rfl⟩ := h
    exact ⟨live, state, hlive, hstate, rfl, hmls⟩
  · rintro ⟨live, state, hlive, hstate, hrecord, hmls⟩
    have hid : live.mls.mlsGroupId = g.mlsGroupId := congrArg GroupRecord.mlsGroupId hrecord
    simp only [Option.bind_eq_bind, hlive, hstate, Option.bind_some]
    rw [hid, hmls, hrecord]
    rfl

/-- To put a group back that has not changed changes nothing. -/
theorem same_setGroupAt (h : inner.groupAt i = some g) : inner.Same (inner.setGroupAt i g) := by
  obtain ⟨live, state, hlive, hstate, hrecord, hmls⟩ := groupAt_eq_some.mp h
  have hgroups : (inner.setGroupAt i g).groups = inner.groups := by
    refine List.ext_getElem? fun j ↦ ?_
    rw [setGroupAt, List.getElem?_modify]
    by_cases hij : i = j
    · subst hij
      simp [hlive, ← hrecord]
    · simp [hij]
  refine ⟨hgroups, fun j ↦ ?_, rfl⟩
  have hlookup (id : Bytes) : (state.install.storeMls g.mlsGroupId g.mls).mlsStorage.groups.lookup
      id = state.install.mlsStorage.groups.lookup id := by
    rw [Installation.storeMls, FiniteMap.lookup_insert_ite]
    split_ifs with hid
    · rw [hid, hmls]
    · rfl
  unfold groupAt
  rw [hgroups]
  have hinstall : (inner.setGroupAt i g).state =
      some (state.mapInstall fun install ↦ install.storeMls g.mlsGroupId g.mls) := by
    simp [setGroupAt, mapInstall, hstate]
  cases state <;> simp_all [ClientState.mapInstall, ClientState.install]

end Inner

/-! ## A client for concrete runs -/

/-- A contact at the home with a key. -/
def StoredContact.blank (id hpke : Key) : StoredContact where
  pin := { identityId := id, identityPublicKey := id, revocationPublicKey := id, seq := 1 }
  deliveryCapability := id
  destHpke := hpke
  lastDiscoveryUnix := 0
  revoked := false
  homeOrigin := "https://home"

/-- The session of a registered client with one contact, at the same home. -/
def HomeSession.acquainted : HomeSession where
  bundle :=
    { serverId := .replicate 32 0, serverHpkePublicKey := .replicate 32 0,
      serverSignPublicKey := .replicate 32 0, host := ⟨"home", Text.home_size⟩, s2sPort := 443,
      signature := .replicate 64 0 }
  cursor := 0
  contacts := AList.insert (.replicate 32 1) (.blank (.replicate 32 1) (.replicate 32 0)) ∅
  groups := []
  homeBase := "https://home"
  privacy := .normal
  install :=
    { identity := .replicate 32 0, revocationPublicKey := .replicate 32 0,
      store := ⟨[], 0, AList.insert (.replicate 32 1) [1] ∅, ⟨∅, ∅, ∅, ∅⟩,
        AList.insert (.replicate 32 1) [0] ∅⟩
      nextPreKeyId := 1, nextKyberId := 1, signedPreKeyId := 1, signedPreKeyAt := 0,
      bindingSeq := 1, mlsStorage := ⟨∅, ∅⟩ }
  anonymous := false
  pendingOuters := []
  coverNextMs := 0
  lastRealMs := 0

/-- That client. -/
def World.acquainted : World where
  inner := Inner.empty (some (.registered .acquainted)) true none
  taken := false
  vault :=
    { installation := HomeSession.acquainted.install.toSnapshot, mlsStorage := some ⟨∅, ∅⟩,
      groups := some [], home := some HomeSession.acquainted.toHomeState, display := none,
      inbox := none, pendingJoins := none, mintedInvites := none }
  log := []
  bonds := []
  tick := 0

end NemoMessenger.Client
