import NemoMessenger.Client.Calm
import NemoMessenger.Client.Run
import NemoMessenger.Client.Save
import NemoMessenger.Data.Run

/-!
# Registrations that fail

`register` takes the state of the client out of its place, and a session to its new home in the
middle of a row of requests. A call that fails leaves the client as it was only if the address makes
a transport, if an unregistered client has a vault to read its installation from, and if a registered
one is not taken by its new home. That the vault holds the identity of the client is an invariant of
its calls.
-/

namespace NemoMessenger.Client

open NemoMessenger.Data NemoMessenger.Wire
open Program (Keeps Leaves Only run run_bind act attempt ofExcept forEach fail)

variable {p : Outside} {env : Environment}

/-! ## What a call must not change -/

/-- The two sessions are at the same point of the same home, on the same transport. -/
structure HomeSession.SamePlace (s s' : HomeSession) : Prop where
  transport : s'.transport = s.transport
  bundle : s'.bundle = s.bundle
  cursor : s'.cursor = s.cursor
  homeBase : s'.homeBase = s.homeBase
  contacts : s'.contacts = s.contacts
  groups : s'.groups = s.groups

/-- The state is there, with the same identity, and a session is at the same point of its home,
which it is connected to at its base. -/
def ClientState.Kept (state : ClientState) (w : World) : Prop :=
  ∃ state', w.inner.state = some state' ∧ state'.install.identity = state.install.identity ∧
    ∀ s, state = .registered s → ∃ s', state' = .registered s' ∧ s.SamePlace s'

/-- The call left the client as it was. -/
def World.Unharmed (w w' : World) : Prop := ∀ state, w.inner.state = some state → state.Kept w'

/-! ## Settled programs -/

namespace HomeSession.SamePlace

variable {s s' s'' : HomeSession}

theorem refl (s : HomeSession) : s.SamePlace s := ⟨rfl, rfl, rfl, rfl, rfl, rfl⟩

theorem trans (h : s.SamePlace s') (h' : s'.SamePlace s'') : s.SamePlace s'' where
  transport := h'.transport.trans h.transport
  bundle := h'.bundle.trans h.bundle
  cursor := h'.cursor.trans h.cursor
  homeBase := h'.homeBase.trans h.homeBase
  contacts := h'.contacts.trans h.contacts
  groups := h'.groups.trans h.groups

end HomeSession.SamePlace

/-- The operation leaves the session with its home alone. -/
def Op.Settled : (β : Type) → Op β → Prop
  | _, session _ | _, enroll .. => False
  | _, _ => True

/-- The program performs only such operations. -/
abbrev Settled {α : Type} (q : SessionM α) : Prop := Only Op.Settled q

theorem settled_session : Settled session := .bind (.act trivial) fun _ ↦ .ofExcept _

theorem settled_send (origin : String) (request : Request) : Settled (send origin request) :=
  .bind (.act trivial) fun _ ↦ .ofExcept _

theorem settled_mintCard (bundle : ServerBundle) (now : UInt64) :
    Settled (mintCard p bundle now) := by
  refine .bind (.bind (.act trivial) fun _ ↦ .pure _) fun token ↦ .bind ?_ fun _ ↦
    .bind (.act trivial) fun inner ↦ .bind (.ofExcept _) fun install ↦ .ofExcept _
  refine .bind (.act trivial) fun answer ↦ ?_
  cases answer
  exacts [.fail _, .pure _]

/-! ## Identities -/

/-- No operation on an installation changes its identity. -/
theorem InstallOp.identity_run {β : Type} (op : InstallOp β) (seed : Bytes)
    (install : Installation) : (op.run p seed install).2.identity = install.identity := by
  cases op with
  | mintPrekey =>
    simp only [InstallOp.run, Installation.mintPrekey]
    split
    · rfl
    · split <;> rfl
  | rotateSignedPrekey ms =>
    simp only [InstallOp.run, Installation.rotateSignedPrekey]
    split <;> rfl
  | bumpBindingSeq => rfl
  | createGroup => rfl
  | prepareJoin =>
    simp only [InstallOp.run, Installation.prepareJoin]
    split <;> rfl
  | join =>
    simp only [InstallOp.run, Installation.joinGroup]
    split
    · rfl
    · split_ifs
      · rfl
      · split <;> rfl

/-- The second state has come from the first by operations, which are settled. -/
inductive ClientState.Follows (settled : Prop) : ClientState → ClientState → Prop
  | local_ {install install' : Installation} (identity : install'.identity = install.identity) :
    Follows settled (.local_ install) (.local_ install')
  | registered {s s' : HomeSession} (identity : s'.install.identity = s.install.identity)
    (bundle : s'.bundle = s.bundle) (home : settled → s.SamePlace s') :
    Follows settled (.registered s) (.registered s')

namespace ClientState.Follows

variable {settled : Prop} {state state' state'' : ClientState}

theorem refl (state : ClientState) : state.Follows settled state := by
  cases state with
  | local_ install => exact .local_ rfl
  | registered s => exact .registered rfl rfl fun _ ↦ .refl s

theorem trans (h : state.Follows settled state') (h' : state'.Follows settled state'') :
    state.Follows settled state'' := by
  cases h with
  | local_ identity =>
    cases h' with
    | local_ identity' => exact .local_ (identity'.trans identity)
  | registered identity bundle home =>
    cases h' with
    | registered identity' bundle' home' =>
      exact .registered (identity'.trans identity) (bundle'.trans bundle)
        fun hs ↦ (home hs).trans (home' hs)

theorem identity (h : state.Follows settled state') :
    state'.install.identity = state.install.identity := by
  cases h with
  | local_ identity => exact identity
  | registered identity _ _ => exact identity

theorem mapInstall (state : ClientState) {f : Installation → Installation}
    (hf : (f state.install).identity = state.install.identity) :
    state.Follows settled (state.mapInstall f) := by
  cases state with
  | local_ install => exact .local_ hf
  | registered s => exact .registered hf rfl fun _ ↦ ⟨rfl, rfl, rfl, rfl, rfl, rfl⟩

end ClientState.Follows

/-- The state in memory follows what it was, and there is one only if there was one. -/
def Inner.Follows (settled : Prop) (inner inner' : Inner) : Prop :=
  Option.Rel (ClientState.Follows settled) inner.state inner'.state

/-- The identity of the client, when it has a state. -/
def Inner.identity? (inner : Inner) : Option Key := inner.state.map (·.install.identity)

namespace Inner.Follows

variable {settled : Prop} {inner inner' inner'' : Inner}

theorem of_eq (h : inner'.state = inner.state) : inner.Follows settled inner' := by
  rw [Inner.Follows, h]
  cases inner.state with
  | none => exact .none
  | some state => exact .some (.refl state)

theorem trans (h : inner.Follows settled inner') (h' : inner'.Follows settled inner'') :
    inner.Follows settled inner'' := by
  unfold Inner.Follows at *
  generalize inner.state = before at h
  generalize inner'.state = between at h h'
  generalize inner''.state = after at h' ⊢
  cases h with
  | none => exact h'
  | some hfollows =>
    cases h' with
    | some hfollows' => exact .some (hfollows.trans hfollows')

/-- What the state of a client has become. -/
theorem exists_state {state : ClientState} (h : inner.Follows settled inner')
    (hstate : inner.state = some state) :
    ∃ state', inner'.state = some state' ∧ state.Follows settled state' := by
  rw [Inner.Follows, hstate] at h
  generalize inner'.state = after at h
  cases h with
  | some hfollows => exact ⟨_, rfl, hfollows⟩

theorem identity?_eq (h : inner.Follows settled inner') : inner'.identity? = inner.identity? := by
  rw [Inner.Follows] at h
  unfold Inner.identity?
  generalize inner.state = before at h
  generalize inner'.state = after at h
  cases h with
  | none => rfl
  | some hfollows => exact congrArg some hfollows.identity

theorem mapInstall (inner : Inner) {f : Installation → Installation}
    (hf : ∀ state, inner.state = some state →
      (f state.install).identity = state.install.identity) :
    inner.Follows settled (inner.mapInstall f) := by
  unfold Inner.Follows Inner.mapInstall
  cases hstate : inner.state with
  | none => exact .none
  | some state => exact .some (.mapInstall state (hf state hstate))

theorem mapSession (hsettled : ¬settled) (inner : Inner) {f : HomeSession → HomeSession}
    (hinstall : ∀ s, (f s).install = s.install) (hbundle : ∀ s, (f s).bundle = s.bundle) :
    inner.Follows settled (inner.mapSession f) := by
  cases hstate : inner.state with
  | none => exact .of_eq (by simp only [Inner.mapSession, hstate])
  | some state =>
    cases state with
    | local_ install => exact .of_eq (by simp only [Inner.mapSession, hstate])
    | registered s =>
      have hafter : (inner.mapSession f).state = some (.registered (f s)) := by
        simp only [Inner.mapSession, hstate]
      rw [Inner.Follows, hstate, hafter]
      exact .some (.registered (by rw [hinstall]) (hbundle s) fun h ↦ (hsettled h).elim)

end Inner.Follows

/-- What an operation does to the state. -/
theorem Op.follows_effect {settled : Prop} {β : Type} {o : Op β} (h : settled → Op.Settled β o)
    (w : World) : w.inner.Follows settled (o.effect p env w).2.inner := by
  cases o with
  | session update =>
    exact .mapSession h _ (fun s ↦ by cases update <;> rfl) fun s ↦ by cases update <;> rfl
  | ratchet op =>
    simp only [Op.effect]
    split
    · exact .of_eq rfl
    · exact .mapInstall _ fun _ _ ↦ rfl
  | install op =>
    simp only [Op.effect]
    split
    · exact .of_eq rfl
    · next state hstate =>
      refine .mapInstall _ fun state' hstate' ↦ ?_
      rw [hstate] at hstate'
      rw [← Option.some.inj hstate']
      exact op.identity_run _ _
  | group i op =>
    simp only [Op.effect]
    split
    · exact .of_eq rfl
    · exact Inner.Follows.mapInstall w.inner fun _ _ ↦ rfl
  | nickname groupId name =>
    simp only [Op.effect, Inner.setNickname]
    split <;> exact .of_eq rfl
  | enroll host g name =>
    simp only [Op.effect, Inner.enroll]
    split
    · exact .of_eq rfl
    · have hremember : w.inner.Follows settled
          (w.inner.mapSession fun session ↦ session.rememberGroup host) :=
        .mapSession h _ (fun _ ↦ rfl) fun _ ↦ rfl
      exact hremember.trans (.mapInstall _ fun _ _ ↦ rfl)
  | _ => exact .of_eq rfl

theorem follows_run_of_settled {α : Type} {q : SessionM α} (hq : Settled q) (w : World) :
    w.inner.Follows True (run (inside p env) q w).2.inner := by
  have hkeeps : Keeps (inside p env) (fun u : World ↦ w.inner.Follows True u.inner) q :=
    hq.keeps fun o u ho hu ↦ hu.trans (Op.follows_effect (fun _ ↦ ho) u)
  exact hkeeps.run_end (.of_eq rfl)

/-! ## The parts of a move -/

/-- What a session has when its new home has taken its registration. -/
structure Offer where
  bundle : ServerBundle
  home : String
  card : ContactCard

/-- `rehome` up to the answer to the registration. -/
def offerMove (p : Outside) (base : String) (now : UInt64) : SessionM Offer := do
  let bundle ← send (trimSlashes base) .bundle
  let s ← session
  if bundle.serverId = s.bundle.serverId then fail .alreadyRegistered
  else
    let card ← mintCard p bundle now
    send (trimSlashes base) (.register card)
    pure { bundle, home := s.homeBase, card }

/-- The rest of it. -/
def adoptMove (base : String) (offer : Offer) : ClientM Unit := do
  act (.move offer.bundle base)
  restockPublish
  moveFanouts offer.home
  let _ ← (send offer.home (.binding offer.card)).attempt

theorem run_rehome (base : String) (now : UInt64) (w : World) :
    run (device p env) (rehome p base now) w =
      match run (inside p env) (offerMove p base now) w with
      | (.ok offer, t) => run (device p env) (adoptMove base offer) t
      | (.error e, t) => (.error e, t) := by
  simp only [rehome, offerMove, run_bind, run_inside]
  cases run (inside p env) (send (trimSlashes base) .bundle) w with
  | mk answer t =>
    cases answer with
    | error e => rfl
    | ok bundle =>
      dsimp only
      cases run (inside p env) session t with
      | mk answer t =>
        cases answer with
        | error e => rfl
        | ok s =>
          dsimp only
          split_ifs
          · rfl
          · simp only [run_bind, run_inside]
            cases run (inside p env) (mintCard p bundle now) t with
            | mk answer t =>
              cases answer with
              | error e => rfl
              | ok card =>
                dsimp only
                cases run (inside p env) (send (trimSlashes base) (.register card)) t with
                | mk answer t =>
                  cases answer with
                  | error e => rfl
                  | ok _ => simp only [adoptMove, run_bind, run_inside, Program.run_pure]

theorem settled_offerMove (base : String) (now : UInt64) : Settled (offerMove p base now) := by
  refine .bind (settled_send _ _) fun bundle ↦ .bind settled_session fun s ↦ ?_
  split_ifs
  · exact .fail _
  · exact .bind (settled_mintCard _ _) fun card ↦ .bind (settled_send _ _) fun _ ↦ .pure _

/-- The card of a session for a new home: its binding has the next number. -/
def HomeSession.cardFor (p : Outside) (s : HomeSession) (bundle : ServerBundle) (now : UInt64)
    (shareToken : Key) : Except CoreError ContactCard :=
  cardWithShare p { s.install with bindingSeq := s.install.bindingSeq + 1 } bundle
    (saturatingAddU64 now cardTtlSecs) shareToken

theorem run_mintCard {bundle : ServerBundle} {now : UInt64} {w : World} {s : HomeSession}
    (hs : w.inner.session? = some s) :
    ∃ t : World, t.tick = w.tick + 3 ∧
      run (inside p env) (mintCard p bundle now) w =
        (s.cardFor p bundle now (keyOf (env.draw w.tick)), t) := by
  have hstate : w.ticked.inner.state = some (.registered s) := Inner.session?_eq_some.mp hs
  have hbump : run (inside p env) (onInstall .bumpBindingSeq) w.ticked =
      (.ok (), World.ticked { w.ticked with
        inner := w.inner.mapInstall fun _ ↦
          { s.install with bindingSeq := s.install.bindingSeq + 1 } }) := by
    unfold onInstall
    rw [run_bind, run_op]
    simp only [Op.effect, hstate]
    rfl
  have hdraw : run (inside p env) drawKey w = (.ok (keyOf (env.draw w.tick)), w.ticked) := rfl
  unfold mintCard
  rw [run_bind, hdraw]
  dsimp only
  rw [run_bind, hbump]
  dsimp only
  rw [run_memory_bind, World.inner_ticked]
  simp only [Inner.mapInstall, Inner.session?_eq_some.mp hs, Option.map_some]
  rw [run_ofExcept_bind]
  exact ⟨_, rfl, Program.run_ofExcept _ _⟩

/-- The session moves, from the action with a number on: the new home answers as another server, and
takes the registration of the session's new card. -/
structure HomeSession.TakenAs (p : Outside) (env : Environment) (base : String) (now : UInt64)
    (tick : ℕ) (s : HomeSession) (bundle : ServerBundle) (card : ContactCard) : Prop where
  answers : env.answer tick (trimSlashes base) .bundle = .ok bundle
  other : bundle.serverId ≠ s.bundle.serverId
  made : s.cardFor p bundle now (keyOf (env.draw (tick + 2))) = .ok card
  takes : env.answer (tick + 5) (trimSlashes base) (.register card) = .ok ()

/-- What a session gets from a new home that takes it. -/
theorem run_offerMove_eq_ok {base : String} {now : UInt64} {w : World} {s : HomeSession}
    {offer : Offer} (hs : w.inner.session? = some s) :
    (run (inside p env) (offerMove p base now) w).1 = .ok offer ↔
      offer.home = s.homeBase ∧ s.TakenAs p env base now w.tick offer.bundle offer.card := by
  have hsent : (World.ticked { w with
    log := w.log ++ [.sent (trimSlashes base) .bundle] }).inner.session? = some s := hs
  unfold offerMove
  rw [run_bind, run_send]
  cases hbundle : env.answer w.tick (trimSlashes base) .bundle with
  | error e =>
    refine iff_of_false (fun h ↦ by cases h) ?_
    rintro ⟨-, h⟩
    cases hbundle.symm.trans h.answers
  | ok bundle =>
    dsimp only
    rw [run_session_bind hsent]
    by_cases hserver : bundle.serverId = s.bundle.serverId
    · rw [if_pos hserver]
      refine iff_of_false (fun h ↦ by cases h) ?_
      rintro ⟨-, h⟩
      cases hbundle.symm.trans h.answers
      exact h.other hserver
    · rw [if_neg hserver, run_bind]
      obtain ⟨t, htick, hcard⟩ := @run_mintCard p env bundle now (World.ticked (World.ticked { w with
        log := w.log ++ [.sent (trimSlashes base) .bundle] })) s hs
      have htick' : t.tick = w.tick + 5 := htick
      have hcard' : _ = (s.cardFor p bundle now (keyOf (env.draw (w.tick + 2))), t) := hcard
      rw [hcard']
      cases hmade : s.cardFor p bundle now (keyOf (env.draw (w.tick + 2))) with
      | error e =>
        refine iff_of_false (fun h ↦ by cases h) ?_
        rintro ⟨-, h⟩
        cases hbundle.symm.trans h.answers
        cases hmade.symm.trans h.made
      | ok card =>
        dsimp only
        rw [run_bind, run_send, htick']
        cases htakes : env.answer (w.tick + 5) (trimSlashes base) (.register card) with
        | error e =>
          refine iff_of_false (fun h ↦ by cases h) ?_
          rintro ⟨-, h⟩
          cases hbundle.symm.trans h.answers
          cases hmade.symm.trans h.made
          cases htakes.symm.trans h.takes
        | ok _ =>
          obtain ⟨offered, home, made⟩ := offer
          constructor
          · intro h
            cases h
            exact ⟨rfl, hbundle, hserver, hmade, htakes⟩
          · rintro ⟨rfl, h⟩
            cases hbundle.symm.trans h.answers
            cases hmade.symm.trans h.made
            rfl

/-! ## The run of a registration -/

/-- The client once its state is out of its place. -/
def World.begun (w : World) : World := World.ticked { w.ticked.ticked with taken := true }

theorem step_take (w : World) :
    (device p env).step Act.take w.ticked.ticked = ((), w.begun) := rfl

/-- An unregistered client whose registration fails is read from its vault. -/
theorem run_register_of_failed {base : String} {w t : World} {install : Installation}
    {e : CoreError}
    (hstate : w.inner.state = some (.local_ install)) (hbase : p.formats.checkBase base = .ok ())
    (hsession : run (device p env) (registerSession p base (env.unix (w.tick + 1))) w.begun =
      (.error e, t)) :
    (run (device p env) (register p base) w).2.taken = false ∧
      (run (device p env) (register p base) w).2.inner.state =
        if w.inner.vault then some (.local_ t.vault.loadInstallation) else none := by
  have htick : env.unix w.ticked.tick = env.unix (w.tick + 1) := rfl
  simp only [register, run_bind, run_inside, run_memory, run_nowUnix, hstate, Program.run_act,
    step_take, hbase, Program.run_ofExcept, Program.run_attempt, htick, hsession]
  split_ifs <;> exact ⟨rfl, rfl⟩

/-- One whose registration succeeds has a session, whether it is saved or not. -/
theorem run_register_of_made {base : String} {w t : World} {install : Installation}
    (hstate : w.inner.state = some (.local_ install)) (hbase : p.formats.checkBase base = .ok ())
    (hsession : run (device p env) (registerSession p base (env.unix (w.tick + 1))) w.begun =
      (.ok (), t)) :
    run (device p env) (register p base) w =
      run (device p env) persist (World.ticked { t with taken := false }) := by
  have htick : env.unix w.ticked.tick = env.unix (w.tick + 1) := rfl
  simp only [register, run_bind, run_inside, run_memory, run_nowUnix, hstate, Program.run_act,
    step_take, hbase, Program.run_ofExcept, Program.run_attempt, htick, hsession]
  rfl

/-- A session is not registered with its own home. -/
theorem run_register_of_same {base : String} {w : World} {s : HomeSession}
    (hstate : w.inner.state = some (.registered s))
    (hsame : s.homeBase ≠ "" ∧ trimSlashes s.homeBase = trimSlashes base) :
    run (device p env) (register p base) w =
      (.error .alreadyRegistered, World.ticked { w.begun with taken := false }) := by
  simp only [register, run_bind, run_inside, run_memory, run_nowUnix, hstate, Program.run_act,
    step_take, if_pos hsame, Program.run_fail]
  rfl

/-- When the address makes no transport, the state is not put back. -/
theorem run_register_of_refused {base : String} {w : World} {state : ClientState} {e : CoreError}
    (hstate : w.inner.state = some state)
    (hother : ∀ s, state = .registered s →
      ¬(s.homeBase ≠ "" ∧ trimSlashes s.homeBase = trimSlashes base))
    (hbase : p.formats.checkBase base = .error e) :
    run (device p env) (register p base) w = (.error e, w.begun) := by
  cases state with
  | local_ install =>
    simp only [register, run_bind, run_inside, run_memory, run_nowUnix, hstate, Program.run_act,
      step_take, hbase, Program.run_ofExcept]
  | registered s =>
    simp only [register, run_bind, run_inside, run_memory, run_nowUnix, hstate, Program.run_act,
      step_take, if_neg (hother s rfl), hbase, Program.run_ofExcept]

/-- A session whose new home does not take it is put back. -/
theorem run_register_of_unmoved {base : String} {w t : World} {s : HomeSession} {e : CoreError}
    (hstate : w.inner.state = some (.registered s))
    (hother : ¬(s.homeBase ≠ "" ∧ trimSlashes s.homeBase = trimSlashes base))
    (hbase : p.formats.checkBase base = .ok ())
    (hmove : run (inside p env) (offerMove p base (env.unix (w.tick + 1))) w.begun =
      (.error e, t)) :
    run (device p env) (register p base) w =
      (.error e, World.ticked { t with taken := false }) := by
  have htick : env.unix w.ticked.tick = env.unix (w.tick + 1) := rfl
  simp only [register, run_bind, run_inside, run_memory, run_nowUnix, hstate, Program.run_act,
    step_take, if_neg hother, hbase, Program.run_ofExcept, Program.run_attempt, htick, run_rehome,
    hmove, Program.run_fail]
  rfl

/-- What is left to do when the new home has taken a session. -/
def finishMove (p : Outside) (base : String) (now : UInt64) (offer : Offer) : ClientM Unit := do
  match ← (adoptMove base offer).attempt with
  | .ok () =>
    act .relocate
    announceMove p now
    act .restore
    persist
  | .error e =>
    act .restore
    fail e

theorem run_register_of_moved {base : String} {w t : World} {s : HomeSession} {offer : Offer}
    (hstate : w.inner.state = some (.registered s))
    (hother : ¬(s.homeBase ≠ "" ∧ trimSlashes s.homeBase = trimSlashes base))
    (hbase : p.formats.checkBase base = .ok ())
    (hmove : run (inside p env) (offerMove p base (env.unix (w.tick + 1))) w.begun =
      (.ok offer, t)) :
    run (device p env) (register p base) w =
      run (device p env) (finishMove p base (env.unix (w.tick + 1)) offer) t := by
  have htick : env.unix w.ticked.tick = env.unix (w.tick + 1) := rfl
  obtain ⟨answer, t', hadopt⟩ :
    ∃ answer t', run (device p env) (adoptMove base offer) t = (answer, t') := ⟨_, _, rfl⟩
  cases answer <;>
    simp only [register, finishMove, run_bind, run_inside, run_memory, run_nowUnix, hstate,
      Program.run_act, step_take, if_neg hother, hbase, Program.run_ofExcept, Program.run_attempt,
      htick, run_rehome, hmove, hadopt]

/-! ## What the parts of a registration keep -/

/-- What operations carry from a state to what it becomes, they keep of the state in memory. -/
theorem Preserved.of_follows {P : ClientState → Prop}
    (hP : ∀ state state', state.Follows False state' → P state → P state') :
    Preserved p env fun u ↦ ∃ state, u.inner.state = some state ∧ P state where
  op o u hu := by
    obtain ⟨state, hstate, hp⟩ := hu
    obtain ⟨state', hstate', hfollows⟩ :=
      (@Op.follows_effect p env False _ o False.elim u).exists_state hstate
    exact ⟨state', hstate', hP state state' hfollows hp⟩
  ack _ _ _ hu := hu
  put entry u _ hu := by rwa [u.inner_after_put entry]

theorem Op.taken_effect {β : Type} (o : Op β) (w : World) :
    (o.effect p env w).2.taken = w.taken := by
  cases o with
  | ratchet op =>
    simp only [Op.effect]
    split <;> rfl
  | install op =>
    simp only [Op.effect]
    split <;> rfl
  | group i op =>
    simp only [Op.effect]
    split <;> rfl
  | _ => rfl

theorem preserved_taken (taken : Bool) : Preserved p env fun u ↦ u.taken = taken where
  op o u hu := (o.taken_effect u).trans hu
  ack _ _ _ hu := hu
  put entry u _ hu := by
    rcases @World.after_put p env u entry with h | h <;> rw [h] <;> exact hu

/-- The state is a session with the home of the bundle. -/
def ClientState.At (bundle : ServerBundle) (state : ClientState) : Prop :=
  ∃ s, state = .registered s ∧ s.bundle = bundle

theorem preserved_bundle (bundle : ServerBundle) :
    Preserved p env fun u ↦ ∃ state, u.inner.state = some state ∧ state.At bundle := by
  refine .of_follows fun state state' hfollows hat ↦ ?_
  obtain ⟨s, rfl, hs⟩ := hat
  cases hfollows with
  | registered identity bundle' home => exact ⟨_, rfl, bundle'.trans hs⟩

/-- Once a session has moved, it stays where it is. -/
theorem at_run_finishMove (base : String) (now : UInt64) (offer : Offer) {w : World}
    {s : HomeSession} (hs : w.inner.state = some (.registered s)) :
    ∃ state, (run (device p env) (finishMove p base now offer) w).2.inner.state = some state ∧
      state.At offer.bundle := by
  have hkept : Preserved p env fun u ↦ ∃ state, u.inner.state = some state ∧
    state.At offer.bundle := preserved_bundle offer.bundle
  have hadopt : ∀ answer t, run (device p env) (adoptMove base offer) w = (answer, t) →
      ∃ state, t.inner.state = some state ∧ state.At offer.bundle := by
    intro answer t hrun
    rw [adoptMove, Program.run_bind_of_ok (Program.run_act _ _)] at hrun
    have hend := (Keeps.bind (hkept.inside restockPublish) fun _ ↦
      .bind (hkept.inside (moveFanouts offer.home)) fun _ ↦
        .bind (hkept.inside ((send offer.home (.binding offer.card)).attempt)) fun _ ↦
          .pure ()).run_end (s := ((device p env).step (.move offer.bundle base) w).2)
      ⟨.registered (s.moveTo offer.bundle base),
        by simp [device, Act.effect, World.ticked, Inner.mapSession, hs], _, rfl, rfl⟩
    rw [hrun] at hend
    exact hend
  have hrest : ∀ answer : Except CoreError Unit, Keeps (device p env)
      (fun u : World ↦ ∃ state, u.inner.state = some state ∧ state.At offer.bundle)
      (match answer with
        | .ok () => do
          act .relocate
          announceMove p now
          act .restore
          persist
        | .error e => do
          act .restore
          fail e : ClientM Unit) := by
    intro answer
    cases answer with
    | error e => exact .bind (.act fun u hu ↦ hu) fun _ ↦ .fail _
    | ok _ =>
      refine .bind (.act fun u hu ↦ ?_) fun _ ↦ .bind (hkept.inside _) fun _ ↦
        .bind (.act fun u hu ↦ hu) fun _ ↦ hkept.persist
      obtain ⟨state, hstate, s', rfl, hat⟩ := hu
      change ∃ state, u.inner.relocate.state = some state ∧ state.At offer.bundle
      refine ⟨.registered s', ?_, s', rfl, hat⟩
      simp only [Inner.relocate, Inner.session?_eq_some.mpr hstate]
      exact hstate
  rw [finishMove, run_bind, Program.run_attempt]
  exact (hrest _).run_end (hadopt _ _ rfl)

/-! ## The vault of a client -/

/-- Vault, attachment and identity are the same. -/
structure World.SameOwner (w u : World) : Prop where
  vault : u.vault = w.vault
  attached : u.inner.vault = w.inner.vault
  identity : u.inner.identity? = w.inner.identity?

/-- No operation attaches a vault. -/
theorem Op.attached_effect {β : Type} (o : Op β) (w : World) :
    (o.effect p env w).2.inner.vault = w.inner.vault := by
  have hsession (inner : Inner) (f : HomeSession → HomeSession) :
      (inner.mapSession f).vault = inner.vault := by
    unfold Inner.mapSession
    split <;> rfl
  cases o with
  | session update => exact hsession _ _
  | ratchet op =>
    simp only [Op.effect]
    split <;> rfl
  | install op =>
    simp only [Op.effect]
    split <;> rfl
  | group i op =>
    simp only [Op.effect]
    split <;> rfl
  | nickname groupId name =>
    simp only [Op.effect, Inner.setNickname]
    split <;> rfl
  | enroll host g name =>
    simp only [Op.effect, Inner.enroll]
    split
    · rfl
    · exact hsession _ _
  | _ => rfl

namespace World.SameOwner

variable {w u : World}

theorem refl (w : World) : w.SameOwner w := ⟨rfl, rfl, rfl⟩

theorem op (h : w.SameOwner u) {β : Type} (o : Op β) : w.SameOwner (u.after p env (.op o)) where
  vault := (o.vault_effect u).trans h.vault
  attached := (o.attached_effect u).trans h.attached
  identity := (@Op.follows_effect p env False _ o False.elim u).identity?_eq.trans h.identity

theorem inside {α : Type} (q : SessionM α) :
    Keeps (device p env) w.SameOwner (q : ClientM α) :=
  .hoist (fun o _ hu ↦ hu.op o) q

end World.SameOwner

/-- A session that keeps its installation keeps its identity. -/
theorem Inner.identity?_mapSession (inner : Inner) {f : HomeSession → HomeSession}
    (h : ∀ s, (f s).install = s.install) : (inner.mapSession f).identity? = inner.identity? := by
  unfold Inner.mapSession Inner.identity?
  split
  · next s hstate =>
    rw [hstate]
    exact congrArg (fun install : Installation ↦ some install.identity) (h s)
  · rfl

theorem Inner.identity?_beginSession (inner : Inner) (bundle : ServerBundle) (base : String) :
    (inner.beginSession bundle base).identity? = inner.identity? := by
  unfold Inner.beginSession Inner.identity?
  split
  · next install hstate =>
    rw [hstate]
    rfl
  · rfl

/-- A registration leaves vault and identity alone, wherever it stops. -/
theorem keeps_registerSession (base : String) (now : UInt64) (w : World) :
    Keeps (device p env) w.SameOwner (registerSession p base now) := by
  refine .bind (.inside _) fun bundle ↦ .bind (.inside _) fun card ↦ .bind (.inside _) fun _ ↦
    .bind (.act fun u hu ↦ ⟨hu.vault, ?_, ?_⟩) fun _ ↦ .inside _
  · refine Eq.trans ?_ hu.attached
    change (u.inner.beginSession bundle base).vault = u.inner.vault
    unfold Inner.beginSession
    split <;> rfl
  · exact (u.inner.identity?_beginSession bundle base).trans hu.identity

/-- The attached vault is the client's own: it holds the identity of the state. -/
def World.Vaulted (w : World) : Prop :=
  ∀ identity, w.inner.identity? = some identity → w.inner.vault = true →
    w.vault.installation.identity = identity

namespace World.Vaulted

variable {w u : World}

theorem same (h : w.Vaulted) (hsame : w.SameOwner u) : u.Vaulted := by
  intro identity hidentity hattached
  rw [hsame.vault]
  exact h identity (hsame.identity.symm.trans hidentity) (hsame.attached.symm.trans hattached)

/-- A client that is not there has no vault. -/
theorem of_none (h : w.inner.state = none) : w.Vaulted := by
  intro identity hidentity
  rw [Inner.identity?, h] at hidentity
  cases hidentity

theorem ended (w : World) : w.ended.Vaulted := .of_none rfl

theorem settle (h : w.Vaulted) : w.settle.Vaulted := by
  unfold World.settle
  split_ifs
  · exact .of_none rfl
  · exact h

/-- The installation of the vault as the state of the client. -/
theorem of_installation (h : w.inner.identity? = some w.vault.installation.identity) :
    w.Vaulted := by
  intro identity hidentity _
  exact Option.some.inj (h.symm.trans hidentity)

/-- Of the entries of a save, only the installation has an identity, and it is that of the state. -/
theorem put (h : w.Vaulted) {entry : Entry} (hentry : entry ∈ w.inner.writes) :
    (w.after p env (.put entry)).Vaulted := by
  rcases @World.after_put p env w entry with hafter | hafter
  · rw [hafter]
    exact h
  · rw [hafter]
    intro identity hidentity hattached
    unfold Inner.writes at hentry
    cases hstate : w.inner.state with
    | none => simp [hstate] at hentry
    | some state =>
      rw [hstate] at hentry
      have hat := ClientState.eq_entryAt_of_mem hentry
      have hown : state.install.identity = identity := by
        have hmap : w.inner.state.map (·.install.identity) = some identity := hidentity
        rw [hstate] at hmap
        exact Option.some.inj hmap
      cases entry with
      | installation snapshot =>
        cases hat
        exact hown
      | _ => exact h identity hidentity hattached

end World.Vaulted

theorem World.vaulted_created (install : Installation) (mnemonic : String) :
    (World.created install mnemonic).Vaulted := .of_installation rfl

theorem preserved_vaulted : Preserved p env World.Vaulted where
  op o u hu := hu.same ((World.SameOwner.refl u).op o)
  ack _ _ _ hu := hu
  put _ _ hentry hu := hu.put hentry

/-- The move of a session and what follows it. -/
theorem SameOwner.move (w : World) (bundle : ServerBundle) (base : String) :
    w.SameOwner (w.after p env (.move bundle base)) where
  vault := rfl
  attached := by
    change (w.inner.mapSession _).vault = w.inner.vault
    unfold Inner.mapSession
    split <;> rfl
  identity := w.inner.identity?_mapSession fun _ ↦ rfl

theorem SameOwner.relocate (w : World) : w.SameOwner (w.after p env .relocate) := by
  refine ⟨rfl, ?_, ?_⟩
  · change w.inner.relocate.vault = w.inner.vault
    unfold Inner.relocate
    split <;> rfl
  · change w.inner.relocate.identity? = w.inner.identity?
    unfold Inner.relocate
    split <;> rfl

/-- An action that touches neither the vault nor the identity. -/
theorem leaves_owner {β : Type} {action : Act β}
    (h : ∀ w : World, w.SameOwner (w.after p env action)) :
    Leaves (device p env) World.Vaulted (act action : ClientM β) :=
  fun w hw ↦ hw.same (h w)

theorem leaves_vaulted_rehome (base : String) (now : UInt64) :
    Leaves (device p env) World.Vaulted (rehome p base now) := by
  have h : Preserved p env World.Vaulted := preserved_vaulted
  refine .bind (h.inside _).leaves fun bundle ↦ .bind (h.inside _).leaves fun s ↦ ?_
  split_ifs
  · exact fun _ hw ↦ hw
  · exact .bind (h.inside _).leaves fun card ↦ .bind (h.inside _).leaves fun _ ↦
      .bind (leaves_owner fun w ↦ SameOwner.move w bundle base) fun _ ↦
      .bind (h.inside _).leaves fun _ ↦ .bind (h.inside _).leaves fun _ ↦
      .bind (h.inside _).leaves fun _ _ hw ↦ hw

theorem leaves_vaulted_register (base : String) :
    Leaves (device p env) World.Vaulted (register p base) := by
  have h : Preserved p env World.Vaulted := preserved_vaulted
  refine .bind (h.inside _).leaves fun inner ↦ .bind (h.inside _).leaves fun now ↦ ?_
  split
  · exact fun _ hw ↦ hw
  · refine .bind (leaves_owner fun w ↦ ⟨rfl, rfl, rfl⟩) fun _ ↦ .bind (Keeps.ofExcept _).leaves
      fun _ ↦ .bind (Leaves.attempt fun w hw ↦ ?_) fun answer ↦ ?_
    · exact hw.same ((keeps_registerSession base now w).run_end (.refl w))
    cases answer with
    | ok _ => exact .bind (leaves_owner fun w ↦ ⟨rfl, rfl, rfl⟩) fun _ ↦ h.persist.leaves
    | error e =>
      dsimp only
      split_ifs
      · exact fun w _ ↦ .of_installation rfl
      · exact fun w _ ↦ .of_none rfl
  · refine .bind (leaves_owner fun w ↦ ⟨rfl, rfl, rfl⟩) fun _ ↦ ?_
    split_ifs
    · exact .bind (leaves_owner fun w ↦ ⟨rfl, rfl, rfl⟩) fun _ _ hw ↦ hw
    · refine .bind (Keeps.ofExcept _).leaves fun _ ↦ .bind (.attempt ?_) fun answer ↦ ?_
      · exact leaves_vaulted_rehome base now
      cases answer with
      | ok _ =>
        exact .bind (leaves_owner SameOwner.relocate) fun _ ↦ .bind (h.inside _).leaves fun _ ↦
          .bind (leaves_owner fun w ↦ ⟨rfl, rfl, rfl⟩) fun _ ↦ h.persist.leaves
      | error e => exact .bind (leaves_owner fun w ↦ ⟨rfl, rfl, rfl⟩) fun _ _ hw ↦ hw

theorem Vault.identity?_load (vault : Vault) :
    vault.load.inner.identity? = some vault.installation.identity := by
  unfold Inner.identity? Loaded.inner Vault.load
  cases vault.home with
  | none => rfl
  | some home =>
    dsimp only
    split_ifs <;> rfl

theorem leaves_vaulted_restock (session : Option HomeSession) :
    Leaves (device p env) World.Vaulted (match session with
      | none => pure ()
      | some _ => do let _ ← (restockPublishUpto syncPrekeyStock).attempt : ClientM Unit) := by
  split
  · exact fun _ hw ↦ hw
  · exact .bind (preserved_vaulted.inside _).leaves fun _ _ hw ↦ hw

theorem leaves_vaulted_timers (inner : Inner) :
    Leaves (device p env) World.Vaulted (do
      let now ← nowUnix
      if inner.shell.inbox.any (Shell.elapsed inner.shell.disappear now) then
        saving (expireRows now)
      match inner.session? with
      | none => pure ()
      | some _ => do let _ ← (restockPublishUpto syncPrekeyStock).attempt : ClientM Unit) := by
  refine .bind (preserved_vaulted.inside _).leaves fun now ↦ ?_
  split_ifs
  · exact .bind (preserved_vaulted.saving _).leaves fun _ ↦ leaves_vaulted_restock _
  · exact leaves_vaulted_restock _

/-- Opening the vault takes the identity from it. -/
theorem leaves_vaulted_openAt : Leaves (device p env) World.Vaulted (openAt p) := by
  refine .bind (fun w _ ↦ .of_installation w.vault.identity?_load) fun _ ↦
    .bind (preserved_vaulted.inside _).leaves fun inner ↦ ?_
  have htimers := @leaves_vaulted_timers p env inner
  cases hsession : inner.session? with
  | none => simpa only [hsession] using htimers
  | some session =>
    simp only [hsession] at htimers
    exact .bind (Keeps.ofExcept _).leaves fun _ ↦ htimers

/-- Whatever a client calls, the vault that is attached stays its own. -/
theorem vaulted_step {w : World} (call : Call) (h : w.Vaulted) : (w.step p env call).Vaulted := by
  cases call with
  | cut m n => exact .ended _
  | done m =>
    have hleft : (run (device p env) (m.program p) w).2.Vaulted := by
      cases m with
      | openAt => exact leaves_vaulted_openAt w h
      | register base => exact leaves_vaulted_register base w h
      | _ =>
        exact (preserved_vaulted.method _ (fun heq ↦ by cases heq) fun _ heq ↦ by cases heq).run_end h
    unfold World.step
    dsimp only
    generalize run (device p env) (m.program p) w = r at hleft
    obtain ⟨answer, t⟩ := r
    split
    · exact .ended _
    · next heq =>
      cases heq
      exact hleft.settle

/-! ## When a failed registration harms nothing -/

/-- The state survives a failed registration: the address makes a transport, and an unregistered
client has a vault, while the new home of a session does not take it. With its own home a session is
not registered again. -/
def ClientState.Survives (p : Outside) (env : Environment) (base : String) (w : World) :
    ClientState → Prop
  | local_ _ => p.formats.checkBase base = .ok () ∧ w.inner.vault = true
  | registered s =>
    s.homeBase ≠ "" ∧ trimSlashes s.homeBase = trimSlashes base ∨
      p.formats.checkBase base = .ok () ∧ ∀ bundle card,
        ¬s.TakenAs p env base (env.unix (w.tick + 1)) (w.tick + 3) bundle card

theorem step_register (base : String) (w : World) :
    w.step p env (.done (.register base)) = (run (device p env) (register p base) w).2.settle := rfl

theorem World.settle_of_not_taken {w : World} (h : w.taken = false) : w.settle = w := by
  simp [settle, h]

/-- A state that is not put back is lost. -/
theorem not_kept_settle {w : World} (state : ClientState) (h : w.taken = true) :
    ¬state.Kept w.settle := by
  rintro ⟨state', hstate', -⟩
  rw [World.settle, if_pos h] at hstate'
  cases hstate'

/-- An unregistered client has only its identity to keep. -/
theorem kept_local {w : World} {install : Installation} :
    (ClientState.local_ install).Kept w ↔ w.inner.identity? = some install.identity := by
  constructor
  · rintro ⟨state', hstate', hidentity, -⟩
    rw [Inner.identity?, hstate']
    exact congrArg some hidentity
  · intro h
    obtain ⟨state', hstate', hidentity⟩ := Option.map_eq_some_iff.mp h
    exact ⟨state', hstate', hidentity, fun s hs ↦ by cases hs⟩

theorem preserved_identity (identity : Option Key) :
    Preserved p env fun u ↦ u.inner.identity? = identity where
  op o u hu := (@Op.follows_effect p env False _ o False.elim u).identity?_eq.trans hu
  ack _ _ _ hu := hu
  put entry u _ hu := by rwa [u.inner_after_put entry]

/-- Without a vault there is nothing that could fail to be saved. -/
theorem attached_of_persist {w : World} {e : CoreError}
    (h : (run (device p env) persist w).1 = .error e) : w.inner.vault = true := by
  by_contra hattached
  simp only [persist, run_bind, run_inside, run_memory, if_neg hattached, Program.run_pure] at h
  cases h

/-- An unregistered client after a registration that failed. -/
theorem kept_local_iff {base : String} {w : World} {install : Installation} {e : CoreError}
    (hvaulted : w.Vaulted) (hstate : w.inner.state = some (.local_ install))
    (herror : (run (device p env) (register p base) w).1 = .error e) :
    (ClientState.local_ install).Kept (w.step p env (.done (.register base))) ↔
      (ClientState.local_ install).Survives p env base w := by
  have hidentity : w.inner.identity? = some install.identity := by
    rw [Inner.identity?, hstate]
    rfl
  rw [step_register]
  cases hbase : p.formats.checkBase base with
  | error e' =>
    rw [run_register_of_refused hstate (fun s hs ↦ by cases hs) hbase]
    refine iff_of_false (not_kept_settle _ rfl) fun h ↦ ?_
    rw [ClientState.Survives, hbase] at h
    cases h.1
  | ok _ =>
    have howner := (@keeps_registerSession p env base (env.unix (w.tick + 1)) w).run_end
      (s := w.begun) ⟨rfl, rfl, rfl⟩
    rw [ClientState.Survives, hbase, eq_self_iff_true, true_and]
    cases hsession : run (device p env) (registerSession p base (env.unix (w.tick + 1))) w.begun with
    | mk answer t =>
    rw [hsession] at howner
    cases answer with
    | ok _ =>
      have hmade := run_register_of_made hstate hbase hsession
      rw [hmade] at herror ⊢
      have hattached := attached_of_persist herror
      rw [World.settle_of_not_taken ((preserved_taken false).persist.run_end rfl), kept_local]
      exact iff_of_true
        ((preserved_identity _).persist.run_end (howner.identity.trans hidentity))
        (howner.attached.symm.trans hattached)
    | error e' =>
      obtain ⟨htaken, hleft⟩ := run_register_of_failed hstate hbase hsession
      rw [World.settle_of_not_taken htaken, kept_local, Inner.identity?, hleft]
      by_cases hattached : w.inner.vault = true
      · refine iff_of_true ?_ hattached
        rw [if_pos hattached, howner.vault]
        exact congrArg some (hvaulted _ hidentity hattached)
      · rw [if_neg hattached]
        exact iff_of_false (fun h ↦ by cases h) hattached

theorem ClientState.kept_self {w : World} {state : ClientState} (h : w.inner.state = some state) :
    state.Kept w := ⟨state, h, rfl, fun s hs ↦ ⟨s, hs, .refl s⟩⟩

/-- A state that has come from the first by settled operations is kept. -/
theorem ClientState.Follows.kept {w : World} {state state' : ClientState}
    (h : state.Follows True state') (hstate : w.inner.state = some state') : state.Kept w := by
  refine ⟨state', hstate, h.identity, ?_⟩
  rintro s rfl
  cases h with
  | registered identity bundle home => exact ⟨_, rfl, home trivial⟩

/-- A registered client after a move that failed. -/
theorem kept_registered_iff {base : String} {w : World} {s : HomeSession}
    (hstate : w.inner.state = some (.registered s)) :
    (ClientState.registered s).Kept (w.step p env (.done (.register base))) ↔
      (ClientState.registered s).Survives p env base w := by
  rw [step_register]
  by_cases hsame : s.homeBase ≠ "" ∧ trimSlashes s.homeBase = trimSlashes base
  · rw [run_register_of_same hstate hsame]
    exact iff_of_true (ClientState.kept_self hstate) (.inl hsame)
  cases hbase : p.formats.checkBase base with
  | error e' =>
    rw [run_register_of_refused hstate (fun s' hs' ↦ by cases hs'; exact hsame) hbase]
    refine iff_of_false (not_kept_settle _ rfl) ?_
    rw [ClientState.Survives, hbase]
    rintro (h | ⟨h, -⟩)
    · exact hsame h
    · cases h
  | ok _ =>
    have hbegun : w.begun.inner.session? = some s := Inner.session?_eq_some.mpr hstate
    have hoffer (offer : Offer) := @run_offerMove_eq_ok p env base (env.unix (w.tick + 1)) w.begun s
      offer hbegun
    have hfollows := @follows_run_of_settled p env _ _
      (@settled_offerMove p base (env.unix (w.tick + 1))) w.begun
    cases hmove : run (inside p env) (offerMove p base (env.unix (w.tick + 1))) w.begun with
    | mk answer t =>
    rw [hmove] at hfollows hoffer
    obtain ⟨state', hstate', hpath⟩ := hfollows.exists_state hstate
    rw [ClientState.Survives, hbase]
    cases answer with
    | error e =>
      rw [run_register_of_unmoved hstate hsame hbase hmove, World.settle_of_not_taken rfl]
      refine iff_of_true (hpath.kept hstate') (.inr ⟨rfl, fun bundle card htaken ↦ ?_⟩)
      cases (hoffer ⟨bundle, s.homeBase, card⟩).mpr ⟨rfl, htaken⟩
    | ok offer =>
      have htaken := ((hoffer offer).mp rfl).2
      rw [run_register_of_moved hstate hsame hbase hmove]
      refine iff_of_false ?_ ?_
      · cases hpath with
        | registered =>
        obtain ⟨state, hend, s₁, rfl, hat⟩ := @at_run_finishMove p env base
          (env.unix (w.tick + 1)) offer t _ hstate'
        generalize hlast : (run (device p env) (finishMove p base _ offer) t).2 = t' at hend ⊢
        rintro ⟨state', hstate₁, -, hplace⟩
        obtain ⟨s₂, rfl, hsame₂⟩ := hplace s rfl
        have hs₂ : s₂ = s₁ := by
          rw [World.settle] at hstate₁
          split_ifs at hstate₁
          · cases hstate₁.symm.trans hend
            rfl
        have hother := htaken.other
        rw [← hat, ← hs₂, hsame₂.bundle] at hother
        exact hother rfl
      · rintro (h | ⟨-, h⟩)
        · exact hsame h
        · exact h _ _ htaken

/-- Functions for concrete runs, with the check of `HttpHome::new` for a remote home. -/
def Outside.remote : Outside :=
  { Outside.transparent with
    formats :=
      { Outside.transparent.formats with
        checkBase := fun base ↦
          if "http://".toList.isPrefixOf base.toList then
            .error (.transport "cleartext HTTP is only allowed on loopback")
          else .ok () } }

/-- Only one home answers, which takes every registration and every prekey. -/
def Environment.oneHome : Environment :=
  { Environment.silent with
    answer := fun _ origin request ↦
      if origin = "https://home" then match request with
        | .bundle => .ok HomeSession.acquainted.bundle
        | .register _ => .ok ()
        | .publishPrekey _ => .ok ()
        | _ => .error (.transport "no answer")
      else .error (.transport "no answer") }

/-- In every run of a client with a vault of its own, or with none, a registration that answers an
error leaves the client as it was exactly when its state survives the failure. -/
theorem unharmed_iff_survives {first : World} (hfirst : first.Vaulted) (calls : List Call)
    {base : String} {e : CoreError}
    (herror : (run (device p env) (register p base)
      (Data.run (World.step p env) first calls)).1 = .error e) :
    (Data.run (World.step p env) first calls).Unharmed
        ((Data.run (World.step p env) first calls).step p env (.done (.register base))) ↔
      ∀ state, (Data.run (World.step p env) first calls).inner.state = some state →
        state.Survives p env base (Data.run (World.step p env) first calls) := by
  have hvaulted : (Data.run (World.step p env) first calls).Vaulted :=
    run_keeps World.Vaulted (fun _ call hw ↦ vaulted_step call hw) hfirst calls
  refine forall₂_congr fun state hstate ↦ ?_
  cases state with
  | local_ install => exact kept_local_iff hvaulted hstate herror
  | registered s => exact kept_registered_iff hstate

set_option maxRecDepth 100000 in
/-- A client that has just been created registers with a home, and then cannot move to another. -/
theorem unharmed_iff_survives_unanswered :
    let w := Data.run (World.step .remote .oneHome)
      (.created HomeSession.acquainted.install "") [.done (.register "https://home")]
    w.inner.session?.isSome ∧
      w.Unharmed (w.step .remote .oneHome (.done (.register "https://other"))) := by
  have hsession : (Data.run (World.step .remote .oneHome)
      (.created HomeSession.acquainted.install "")
      [.done (.register "https://home")]).inner.session?.isSome := by decide +kernel
  have hattached : (Data.run (World.step .remote .oneHome)
      (.created HomeSession.acquainted.install "")
      [.done (.register "https://home")]).inner.vault = true := by decide +kernel
  have herror : (run (device .remote .oneHome) (register .remote "https://other")
      (Data.run (World.step .remote .oneHome) (.created HomeSession.acquainted.install "")
        [.done (.register "https://home")])).1 = .error (.transport "no answer") := by
    decide +kernel
  have hunharmed := (unharmed_iff_survives (World.vaulted_created _ _) _ herror).mpr
  refine ⟨hsession, hunharmed fun state hstate ↦ ?_⟩
  cases state with
  | local_ install => exact ⟨rfl, hattached⟩
  | registered s =>
    refine .inr ⟨rfl, fun bundle card htaken ↦ ?_⟩
    have hanswers := htaken.answers
    rw [show trimSlashes "https://other" = "https://other" by decide +kernel] at hanswers
    cases hanswers

/-- After an address in cleartext no state is left. -/
theorem register_cleartext_harms :
    (run (device .remote .silent) (register .remote "http://other") World.acquainted).1 =
        .error (.transport "cleartext HTTP is only allowed on loopback") ∧
      ¬World.acquainted.Unharmed
        (World.acquainted.step .remote .silent (.done (.register "http://other"))) := by
  refine ⟨rfl, fun h ↦ ?_⟩
  obtain ⟨state', hstate', -⟩ := h _ rfl
  have hlost : (World.acquainted.step .remote .silent
    (.done (.register "http://other"))).inner.state = none := rfl
  rw [hlost] at hstate'
  cases hstate'

end NemoMessenger.Client
