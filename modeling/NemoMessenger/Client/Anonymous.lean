import Mathlib.Data.List.DropRight
import NemoMessenger.Client.Authentic
import NemoMessenger.Client.Method

/-!
# Anonymous modes

In the modes high and maximum a client asks a home that is not on loopback through a SOCKS proxy. The
flag for it is in the transport, which `register`, `rehome` and `open_at` build anew, without the
flag, and the socket of the wakeup does not read it. A client on which these meet no anonymous mode
never dials a home directly in one.
-/

namespace NemoMessenger.Client

open NemoMessenger.Data NemoMessenger.Wire
open Program (act ofExcept forEach fail run Only Yields)

variable {p : Outside} {codec : Codec} {tape : Tape} {α β : Type}

/-! ## Modes and connections -/

/-- The home must not see where the client is. -/
def HomeState.Hidden (s : HomeState) : Prop :=
  s.privacy.anonymous = true ∧ isLoopbackOrigin s.homeBase = false

instance (s : HomeState) : Decidable s.Hidden := inferInstanceAs (Decidable (_ ∧ _))

/-- The session of the link is one whose home must not see where the client is. -/
abbrev Link.Hidden (link : Link) : Prop := link.session.toHomeState.Hidden

/-- A transport says so where it has to. -/
def Link.Covered (link : Link) : Prop := link.Hidden → link.transport.anonymous = true

/-- A connection opened in such a session goes through the proxy, or to loopback. -/
def Connection.Shielded (c : Connection) : Prop :=
  ∀ link, c.link = some link → link.Hidden → c.socks = true ∨ isLoopbackOrigin c.base = true

/-- The calls on a transport do. -/
def HttpHome.Safe (home : HttpHome) : Prop :=
  home.viaSocks = true ∨ isLoopbackOrigin home.base = true

theorem HttpHome.safe_of_anonymous {home : HttpHome} (h : home.anonymous = true) : home.Safe := by
  cases hbase : isLoopbackOrigin home.base <;> simp [Safe, viaSocks, h, hbase]

theorem trimSlashes_trimSlashes (base : String) :
    trimSlashes (trimSlashes base) = trimSlashes base := by
  calc
    trimSlashes (trimSlashes base)
      = String.ofList (((base.toList.rdropWhile (· == '/'))).rdropWhile (· == '/')) := by
        simp only [trimSlashes, String.toList_ofList, List.rdropWhile]
    _ = String.ofList (base.toList.rdropWhile (· == '/')) := by rw [List.rdropWhile_idempotent]
    _ = trimSlashes base := rfl

/-- A redirect keeps to the proxy. -/
theorem HttpHome.safe_redirect {home alt : HttpHome} {origin : String}
    (hanonymous : home.anonymous = true) (h : home.redirect p origin = some alt) : alt.Safe := by
  unfold redirect at h
  split_ifs at h
  cases hnew : HttpHome.new p (trimSlashes origin) with
  | error e => simp [hnew] at h
  | ok made =>
    rw [hnew] at h
    obtain ⟨-, -, hmade⟩ := bind_eq_ok.mp hnew
    rw [← Option.some.inj h, ← Except.ok.inj hmade]
    cases hbase : isLoopbackOrigin (trimSlashes origin) <;>
      simp [Safe, viaSocks, hanonymous, trimSlashes_trimSlashes, hbase]

/-! ## Discreet programs -/

/-- Where the home must not see the client, which is so only if `H` holds, the operation goes to no
home directly, and leaves the transport with its flag. -/
def NetOp.Discreet (H : Prop) : (γ : Type) → NetOp γ → Prop
  | _, draw | _, clock => True
  | _, call home _ => H → home.Safe
  | _, wakeup home _ => H → isLoopbackOrigin home.base = true
  | _, put link => link.Covered ∧ (link.Hidden → H)

/-- The program performs discreet operations only. -/
abbrev Discreet (H : Prop) (q : NetM α) : Prop := Only (NetOp.Discreet H) q

/-- The session is covered, and the connections so far were shielded. -/
structure Net.Sheltered (H : Prop) (net : Net) : Prop where
  covered : ∀ link, net.link = some link → link.Covered ∧ (link.Hidden → H)
  shielded : ∀ c ∈ net.log, c.Shielded

variable {H : Prop}

/-- What one operation keeps. -/
theorem Net.Sheltered.step {γ : Type} {action : NetOp γ} {net : Net}
    (haction : NetOp.Discreet H γ action) (h : net.Sheltered H) :
    ((network tape).step action net).2.Sheltered H := by
  cases action with
  | draw | clock => exact ⟨h.covered, h.shielded⟩
  | put link =>
    refine ⟨fun link' hlink ↦ ?_, h.shielded⟩
    rw [← Option.some.inj hlink]
    exact haction
  | call home request =>
    refine ⟨h.covered, fun c hc ↦ ?_⟩
    rcases List.mem_append.mp hc with hc | hc
    · exact h.shielded c hc
    · rw [List.mem_singleton.mp hc]
      intro link hlink hhidden
      exact haction ((h.covered link hlink).2 hhidden)
  | wakeup home header =>
    refine ⟨h.covered, fun c hc ↦ ?_⟩
    rcases List.mem_append.mp hc with hc | hc
    · exact h.shielded c hc
    · rw [List.mem_singleton.mp hc]
      intro link hlink hhidden
      exact .inr (haction ((h.covered link hlink).2 hhidden))

/-- What a discreet program keeps. -/
theorem Net.Sheltered.run {q : NetM α} {net : Net} (hq : Discreet H q) (h : net.Sheltered H) :
    (Program.run (network tape) q net).2.Sheltered H :=
  (hq.keeps fun _ _ haction hnet ↦ hnet.step haction).run_end h

/-! ## Requests -/

@[grind ←] theorem discreet_drawNonce : Discreet H drawNonce := .bind (.act trivial) fun _ ↦ .pure _

@[grind ←] theorem discreet_unixNow : Discreet H unixNow := .bind (.act trivial) fun _ ↦ .pure _

@[grind ←] theorem discreet_call {home : HttpHome} (request : HttpRequest)
    (hsafe : H → home.Safe) : Discreet H (call home request) :=
  .bind (.act hsafe) fun _ ↦ .ofExcept _

@[grind ←] theorem discreet_signedCall {home : HttpHome} (bundle : ServerBundle)
    (request : HttpRequest) (hsafe : H → home.Safe) :
    Discreet H (signedCall p home bundle request) := by
  grind [signedCall]

@[grind ←] theorem discreet_fetchBundle {home : HttpHome} (hsafe : H → home.Safe) :
    Discreet H (fetchBundle p home) := by
  grind [fetchBundle]

@[grind ←] theorem discreet_mailboxOwnerAuth (install : Installation) (cursor limit : UInt64)
    (scope : AuthScope) : Discreet H (mailboxOwnerAuth p install cursor limit scope) := by
  grind [mailboxOwnerAuth]

@[grind ←] theorem discreet_postFanout {home : HttpHome} (groupId : Key) (cred : HostCred)
    (capability hpke : Key) (hsafe : H → home.Safe) :
    Discreet H (postFanout home groupId cred capability hpke) := by
  grind [postFanout]

@[grind ←] theorem discreet_postBinding {home : HttpHome} (card : ContactCard)
    (hsafe : H → home.Safe) : Discreet H (postBinding codec home card) := by
  grind [postBinding]

namespace Link

/-- The two links are one to anybody on the network. -/
structure Alike (link link' : Link) : Prop where
  transport : link'.transport = link.transport
  privacy : link'.session.privacy = link.session.privacy
  homeBase : link'.session.homeBase = link.session.homeBase

theorem Alike.hidden_iff {link link' : Link} (h : link.Alike link') :
    link'.Hidden ↔ link.Hidden := by
  rw [Hidden, Hidden, HomeState.Hidden, HomeState.Hidden, h.privacy, h.homeBase]

theorem Alike.fits {link link' : Link} (h : link.Alike link')
    (hlink : link.Covered ∧ (link.Hidden → H)) : link'.Covered ∧ (link'.Hidden → H) := by
  rw [Covered, h.hidden_iff, h.transport]
  exact hlink

/-- A session may be changed, but for its mode and its home. -/
theorem Alike.discreet_put {link link' : Link} (h : link.Alike link')
    (hlink : link.Covered ∧ (link.Hidden → H)) : Discreet H (act (.put link')) :=
  .act (h.fits hlink)

theorem alike_withInstall (link : Link) (install : Installation) :
    link.Alike (link.withInstall install) := ⟨rfl, rfl, rfl⟩

theorem Alike.refl (link : Link) : link.Alike link := ⟨rfl, rfl, rfl⟩

theorem Alike.trans {link link' link'' : Link} (h : link.Alike link') (h' : link'.Alike link'') :
    link.Alike link'' :=
  ⟨h'.transport.trans h.transport, h'.privacy.trans h.privacy, h'.homeBase.trans h.homeBase⟩

variable {self : Link}

section
variable (hsafe : H → self.transport.Safe)
include hsafe

@[grind ←] theorem discreet_ownerPost (path : String) (body : Bytes) :
    Discreet H (self.ownerPost p path body) := by
  grind [ownerPost, ownerHeader]

@[grind ←] theorem discreet_mintContact : Discreet H (self.mintContact p) := by
  grind [mintContact, mintToken]

/-- A prekey is published in a session with the same mode and home. -/
theorem yields_publishPrekey (hself : self.Covered ∧ (self.Hidden → H)) :
    Yields (NetOp.Discreet H) self.Alike (self.publishPrekey p codec) := by
  unfold publishPrekey
  refine .after (.act trivial) fun seed ↦ ?_
  have hsame := self.alike_withInstall (self.session.install.mintPrekey p seed).2
  rw [← hsame.transport] at hsafe
  refine .after (hsame.discreet_put hself) fun _ ↦ ?_
  refine .after (.ofExcept _) fun blob ↦ ?_
  refine .after (discreet_ownerPost hsafe _ _) fun res ↦ ?_
  exact .after (.ofExcept _) fun _ ↦ .pure hsame

end

theorem yields_maybeRotateSignedPrekey (now : UInt64) (hself : self.Covered ∧ (self.Hidden → H)) :
    Yields (NetOp.Discreet H) self.Alike (self.maybeRotateSignedPrekey p now) := by
  unfold maybeRotateSignedPrekey
  split
  · exact .pure ⟨rfl, rfl, rfl⟩
  · refine .after (.act trivial) fun ms ↦ .after (.act trivial) fun seed ↦ ?_
    have hsame := self.alike_withInstall (self.session.install.rotateSignedPrekey p ms seed).2
    refine .after (hsame.discreet_put hself) fun _ ↦ ?_
    exact .after (.ofExcept _) fun _ ↦ .pure hsame

theorem yields_restockLoop (target turns : ℕ) (self : Link)
    (hsafe : H → self.transport.Safe) (hself : self.Covered ∧ (self.Hidden → H)) :
    Yields (NetOp.Discreet H) self.Alike (restockLoop p codec target turns self) := by
  induction turns generalizing self with
  | zero => exact .pure (.refl self)
  | succ turns ih =>
    unfold restockLoop
    split
    · refine (yields_publishPrekey hsafe hself).bind fun self' hsame ↦ ?_
      rw [← hsame.transport] at hsafe
      exact (ih self' hsafe (hsame.fits hself)).mono fun _ h ↦ hsame.trans h
    · exact .pure (.refl self)

theorem yields_restockPublishUpto (target : ℕ) (hsafe : H → self.transport.Safe)
    (hself : self.Covered ∧ (self.Hidden → H)) :
    Yields (NetOp.Discreet H) self.Alike (self.restockPublishUpto p codec target) := by
  refine .after discreet_unixNow fun now ↦
    (yields_maybeRotateSignedPrekey now hself).bind fun self' hsame ↦ ?_
  rw [← hsame.transport] at hsafe
  exact (yields_restockLoop target target self' hsafe (hsame.fits hself)).mono
    fun _ h ↦ hsame.trans h

section
variable (hanonymous : H → self.transport.anonymous = true)
include hanonymous

@[grind ←] theorem discreet_callOn (origin : String) (request : HttpRequest) :
    Discreet H (self.callOn p origin request) := by
  have hsafe : H → self.transport.Safe := fun h ↦ HttpHome.safe_of_anonymous (hanonymous h)
  unfold callOn
  split_ifs
  · exact discreet_signedCall _ _ hsafe
  · cases halt : self.transport.redirect p (trimSlashes origin) with
    | none => exact .fail _
    | some alt => exact discreet_call _ fun h ↦ HttpHome.safe_redirect (hanonymous h) halt

@[grind ←] theorem discreet_callGroup (groupId : Key) (request : HttpRequest) :
    Discreet H (self.callGroup p groupId request) := by
  have hsafe : H → self.transport.Safe := fun h ↦ HttpHome.safe_of_anonymous (hanonymous h)
  unfold callGroup
  cases halt : self.transport.redirect p (self.groupOrigin groupId) with
  | none => exact discreet_signedCall _ _ hsafe
  | some alt => exact discreet_call _ fun h ↦ HttpHome.safe_redirect (hanonymous h) halt

theorem discreet_refreshFanout (groupId : Key) (cred : HostCred) (capability hpke : Key) :
    Discreet H (self.refreshFanout p groupId cred capability hpke) := by
  have hsafe : H → self.transport.Safe := fun h ↦ HttpHome.safe_of_anonymous (hanonymous h)
  unfold refreshFanout
  cases halt : self.transport.redirect p (self.groupOrigin groupId) with
  | none => exact discreet_postFanout _ _ _ _ hsafe
  | some alt =>
    exact discreet_postFanout _ _ _ _ fun h ↦ HttpHome.safe_redirect (hanonymous h) halt

end

theorem discreet_fetchMailbox (hsafe : H → self.transport.Safe)
    (hself : self.Covered ∧ (self.Hidden → H)) : Discreet H (self.fetchMailbox p) := by
  refine .bind (by grind [mailboxBodyAuth]) fun auth ↦ .bind (by grind) fun res ↦
    .bind (.ofExcept _) fun rows ↦ ?_
  split
  · exact .bind (Alike.discreet_put ⟨rfl, rfl, rfl⟩ hself) fun _ ↦ .pure _
  · exact .pure _

theorem discreet_postOneEnvelope (outer : Outgoing) (cover : Bool)
    (hsafe : H → self.transport.Safe) (hself : self.Covered ∧ (self.Hidden → H)) :
    Discreet H (self.postOneEnvelope p codec outer cover) := by
  refine .bind (discreet_ownerPost hsafe _ _) fun res ↦ ?_
  split
  · exact .ofExcept _
  · refine .bind (.act trivial) fun ms ↦ ?_
    exact .bind (Alike.discreet_put ⟨rfl, rfl, rfl⟩ hself) fun _ ↦ .ofExcept _

end Link

/-- The operation keeps to the home and the transport of the session. -/
def HomeOp.Plain : HomeOp α → Prop
  | register .. | rehome .. => False
  | _ => True

/-- Over a transport that is covered every request is discreet. -/
theorem HomeOp.discreet_perform {self : Link} {op : HomeOp α} (hplain : op.Plain)
    (hself : self.Covered) : Discreet self.Hidden (op.perform p codec self) := by
  have hsafe : self.Hidden → self.transport.Safe := fun h ↦ HttpHome.safe_of_anonymous (hself h)
  have hkept : self.Covered ∧ (self.Hidden → self.Hidden) := ⟨hself, id⟩
  have hown (path : String) (body : Bytes) : Discreet self.Hidden (self.ownerPost p path body) :=
    Link.discreet_ownerPost hsafe path body
  have hsigned (request : HttpRequest) :
      Discreet self.Hidden (signedCall p self.transport self.session.bundle request) :=
    discreet_signedCall _ request hsafe
  have hgroup (groupId : Key) (request : HttpRequest) :
      Discreet self.Hidden (self.callGroup p groupId request) :=
    Link.discreet_callGroup hself groupId request
  have hon (origin : String) (request : HttpRequest) :
      Discreet self.Hidden (self.callOn p origin request) :=
    Link.discreet_callOn hself origin request
  cases op with
  | register home install now => exact hplain.elim
  | rehome home base now => exact hplain.elim
  | publishPrekey => exact (Link.yields_publishPrekey hsafe hkept).only
  | restockPublishUpto target => exact (Link.yields_restockPublishUpto target hsafe hkept).only
  | postOneEnvelope outer cover => exact Link.discreet_postOneEnvelope outer cover hsafe hkept
  | fetchMailbox => exact Link.discreet_fetchMailbox hsafe hkept
  | refreshFanout groupId cred capability hpke =>
    exact Link.discreet_refreshFanout hself groupId cred capability hpke
  | discoveryAt | fetchPrekeyAt => grind [perform, Link.discoveryAt, Link.fetchPrekeyAt]
  | groupAppend | storeInvite | lookupPending | admitPending | uploadFile | fetchFile =>
    grind [perform, Link.groupAppend, Link.storeInvite, Link.lookupPending, Link.admitPending,
      Link.uploadFile, Link.fetchFile, Link.groupPost]
  | issueTurn | submitRevocation | mintContact | mintShare | ack | createGroup | acceptInvite =>
    grind [perform, Link.issueTurn, Link.submitRevocation, Link.mintContact, Link.mintShare,
      Link.mintToken, Link.ack, Link.createGroup, Link.acceptInvite, Link.mailboxBodyAuth]

/-! ## A new home -/

/-- On its new home the session is not one that hides. -/
theorem Link.not_hidden_movedTo {self : Link} {home : HttpHome} {bundle : ServerBundle}
    {base : String} (hhome : home.base = trimSlashes base)
    (hnew : self.session.privacy.anonymous = true → isLoopbackOrigin home.base = true) :
    ¬((self.withInstall self.session.install.bumped).movedTo home bundle base).Hidden := by
  rintro ⟨hanonymous, hloopback⟩
  have hbase : isLoopbackOrigin home.base = false := by
    rw [hhome]
    exact hloopback
  simp [hnew hanonymous] at hbase

/-- `rehome` is discreet where it does not take an anonymous mode to a home that must not see the
client. -/
theorem discreet_rehome {self : Link} {home : HttpHome} {base : String} (now : UInt64)
    (hself : self.Covered) (hhome : home.base = trimSlashes base)
    (hnew : self.session.privacy.anonymous = true → isLoopbackOrigin home.base = true) :
    Discreet self.Hidden (self.rehome p codec home base now) := by
  have hsafe : self.Hidden → home.Safe := fun h ↦ .inr (hnew h.1)
  have hold : self.Hidden → self.transport.Safe := fun h ↦ HttpHome.safe_of_anonymous (hself h)
  have hfits : self.Covered ∧ (self.Hidden → self.Hidden) := ⟨hself, id⟩
  have hprepare : Discreet self.Hidden (self.prepareMove p home now) := by
    refine .bind (discreet_fetchBundle hsafe) fun bundle ↦ ?_
    split_ifs
    · exact .fail _
    · refine .bind discreet_drawNonce fun _ ↦ ?_
      exact .bind ((self.alike_withInstall _).discreet_put hfits) fun _ ↦
        .bind (.ofExcept _) fun _ ↦ .pure _
  refine .bind hprepare fun made ↦ .bind (.ofExcept _) fun body ↦
    .bind (discreet_call _ hsafe) fun res ↦ .bind (.ofExcept _) fun _ ↦ ?_
  have hmoved := @Link.not_hidden_movedTo self home made.1 _ hhome hnew
  have hmovedFits : Link.Covered _ ∧ (Link.Hidden _ → self.Hidden) :=
    ⟨fun h ↦ (hmoved h).elim, fun h ↦ (hmoved h).elim⟩
  refine .bind (.act hmovedFits) fun _ ↦
    (Link.yields_restockPublishUpto prekeyRestockBelow hsafe hmovedFits).bind_only
      fun moved hsame ↦ ?_
  rw [show home = moved.transport from hsame.transport.symm] at hsafe
  refine .bind (.forEach fun g ↦ ?_) fun _ ↦
    .bind (.attempt (discreet_postBinding _ hold)) fun _ ↦ .pure _
  refine .bind (.attempt (Link.discreet_mintContact hsafe)) fun answer ↦ ?_
  cases answer with
  | error e => exact .pure ()
  | ok capability => exact .bind (.attempt (discreet_postFanout _ _ _ _ hold)) fun _ ↦ .pure ()

/-- `register` of a client that has no home. -/
def enroll (p : Outside) (codec : Codec) (home : HttpHome) (base : String) (install : Installation)
    (now : UInt64) : NetM Unit := do
  let made ← HomeSession.register p codec home install now
  let link : Link := { made with session := { made.session with homeBase := trimSlashes base } }
  act (.put link)
  let _ ← link.restockPublishUpto p codec syncPrekeyStock

/-- A session starts in the normal mode. -/
theorem yields_register (home : HttpHome) (install : Installation) (now : UInt64) :
    Yields (NetOp.Discreet False) (fun link ↦ link.session.privacy = .normal)
      (HomeSession.register p codec home install now) := by
  refine .after (discreet_fetchBundle False.elim) fun bundle ↦
    .after discreet_drawNonce fun token ↦ .after (.ofExcept _) fun card ↦
      .after (.ofExcept _) fun body ↦ .after (discreet_signedCall _ _ False.elim) fun res ↦ ?_
  exact .after (.ofExcept _) fun _ ↦ .pure rfl

theorem discreet_enroll (home : HttpHome) (base : String) (install : Installation) (now : UInt64) :
    Discreet False (enroll p codec home base install now) := by
  refine (yields_register home install now).bind_only fun made hnormal ↦ ?_
  have hopen : ¬Link.Hidden
      { made with session := { made.session with homeBase := trimSlashes base } } := by
    rintro ⟨hanonymous, -⟩
    rw [hnormal] at hanonymous
    cases hanonymous
  have hfits : Link.Covered _ ∧ (Link.Hidden _ → False) := ⟨fun h ↦ (hopen h).elim, hopen⟩
  exact .bind (.act hfits) fun _ ↦
    .bind (Link.yields_restockPublishUpto syncPrekeyStock False.elim hfits).only fun _ ↦ .pure ()

/-! ## The mode of a session -/

namespace Link

/-- The session in a mode, with the flag `set_privacy` gives its transport. -/
def inMode (self : Link) (mode : PrivacyMode) (coverNextMs : ℕ) : Link where
  transport :=
    { self.transport with
      anonymous := mode.anonymous && !isLoopbackOrigin self.session.homeBase }
  session :=
    { self.session with
      privacy := mode, anonymous := mode.anonymous && !isLoopbackOrigin self.session.homeBase
      coverNextMs }

/-- `set_privacy`; `wait` is what `cover_interval_ms` draws in high mode. -/
def setPrivacy (self : Link) (mode : PrivacyMode) (wait : ℕ) : NetM Unit :=
  match mode with
  | .normal | .private_ => act (.put (self.inMode mode self.session.coverNextMs))
  | .high => do
    let now ← act .clock
    act (.put (self.inMode mode (now + wait)))
  | .maximum => do
    let now ← act .clock
    act (.put (self.inMode mode (now + maximumSlotMs)))

/-- The flag is set for exactly the sessions that need it. -/
theorem covered_inMode (self : Link) (mode : PrivacyMode) (coverNextMs : ℕ) :
    (self.inMode mode coverNextMs).Covered := by
  rintro ⟨hanonymous, hloopback⟩
  change (mode.anonymous && !isLoopbackOrigin self.session.homeBase) = true
  rw [show mode.anonymous = true from hanonymous,
    show isLoopbackOrigin self.session.homeBase = false from hloopback]
  rfl

theorem discreet_setPrivacy (self : Link) (mode : PrivacyMode) (wait : ℕ) :
    Discreet True (self.setPrivacy mode wait) := by
  have hput (next : ℕ) : Discreet True (act (.put (self.inMode mode next))) :=
    .act ⟨self.covered_inMode mode next, fun _ ↦ trivial⟩
  cases mode with
  | normal | private_ => exact hput _
  | high | maximum => exact .bind (.act trivial) fun _ ↦ hput _

/-- `wakeup_handle`. -/
def wakeupHandle (p : Outside) (self : Link) : NetM (HttpHome × String) := do
  let header ← self.ownerHeader p "GET" "/v1/wakeup" []
  pure (self.transport, header)

theorem discreet_wakeupHandle (self : Link) : Discreet H (self.wakeupHandle p) := by
  grind [wakeupHandle, ownerHeader]

end Link

/-! ## Runs of a client -/

/-- A client with its vault: the network with the session, the installation of a client that has no
home, what was saved last, and the handles of wakeup sockets that are still to be opened. -/
structure Handset where
  net : Net
  local_ : Option Installation
  saved : Installation
  savedHome : Option HomeState
  handles : List (HttpHome × String)

/-- What happens on a client: the calls that build a transport or change the mode, the requests of
all others and what they change in the session, and a thread that waits for the wakeup. -/
inductive HandsetStep : Type 1
  | register (base : String) (now : UInt64)
  | setPrivacyMode (mode : String) (wait : ℕ)
  | request {α : Type} (op : HomeOp α) (plain : op.Plain)
  | change (install : Installation) (contacts : FiniteMap IdentityId StoredContact)
      (groups : List HostGroup) (pendingOuters : List Outgoing)
  | wakeupHandle
  | waitWakeup (i : ℕ)
  | persist
  | close
  | openAt

namespace Handset

/-- A client as `create_at` makes it. -/
def created (install : Installation) : Handset where
  net := { link := none, log := [], tick := 0 }
  local_ := some install
  saved := install
  savedHome := none
  handles := []

/-- The session, where there is one, runs a program. -/
def onLink (h : Handset) (tape : Tape) (f : Link → NetM Unit) : Handset :=
  match h.net.link with
  | none => h
  | some link => { h with net := (run (network tape) (f link) h.net).2 }

/-- The session is given up. -/
def closed (h : Handset) : Handset := { h with net := { h.net with link := none }, local_ := none }

variable (p : Outside) (codec : Codec) (tape : Tape)

/-- `register` of a session that has a home. A base that makes no transport loses the session. -/
def registerAgain (h : Handset) (link : Link) (base : String) (now : UInt64) : Handset :=
  if link.session.homeBase ≠ "" ∧ trimSlashes link.session.homeBase = trimSlashes base then h
  else match HttpHome.new p base with
    | .error _ => h.closed
    | .ok home =>
      { h with net := (run (network tape) (link.rehome p codec home base now) h.net).2 }

/-- `register` of a client without a home. When it fails the saved installation is loaded. -/
def registerFirst (h : Handset) (install : Installation) (base : String) (now : UInt64) :
    Handset :=
  match HttpHome.new p base with
  | .error _ => h.closed
  | .ok home =>
    match run (network tape) (enroll p codec home base install now) h.net with
    | (.ok _, net) => { h with net, local_ := none }
    | (.error _, net) => { h with net := { net with link := none }, local_ := some h.saved }

/-- `open_at`. -/
def openAt (h : Handset) : Handset :=
  match h.savedHome with
  | none => { h.closed with local_ := some h.saved }
  | some home =>
    if home.homeBase = "" then { h.closed with local_ := some h.saved }
    else match HttpHome.new p home.homeBase with
      | .error _ => h.closed
      | .ok transport =>
        let link : Link := { transport, session := .resume h.saved home }
        { h.closed with
          net := (run (network tape) (link.restockPublishUpto p codec syncPrekeyStock)
            { h.net with link := some link }).2 }

/-- `persist`. -/
def persist (h : Handset) : Handset :=
  match h.net.link, h.local_ with
  | some link, _ =>
    { h with saved := link.session.install, savedHome := some link.session.snapshot }
  | none, some install => { h with saved := install }
  | none, none => h

/-- A step of a client. -/
def next (h : Handset) : HandsetStep → Handset
  | .register base now =>
    match h.net.link, h.local_ with
    | some link, _ => h.registerAgain p codec tape link base now
    | none, some install => h.registerFirst p codec tape install base now
    | none, none => h
  | .setPrivacyMode mode wait =>
    match p.formats.parsePrivacy mode with
    | none => h
    | some mode => h.onLink tape fun link ↦ link.setPrivacy mode wait
  | .request op _ => h.onLink tape fun link ↦ do let _ ← op.perform p codec link
  | .change install contacts groups pendingOuters =>
    h.onLink tape fun link ↦ act (.put
      { link with session := { link.session with install, contacts, groups, pendingOuters } })
  | .wakeupHandle =>
    match h.net.link with
    | none => h
    | some link =>
      match run (network tape) (link.wakeupHandle p) h.net with
      | (.ok handle, net) => { h with net, handles := h.handles ++ [handle] }
      | (.error _, net) => { h with net }
  | .waitWakeup i =>
    match h.handles[i]? with
    | none => h
    | some (home, header) =>
      { h with
        net := ((network tape).step (.wakeup home header) h.net).2
        handles := h.handles.eraseIdx i }
  | .persist => h.persist
  | .close => h.closed
  | .openAt => h.openAt p codec tape

/-! ## Where the flag is missed -/

/-- The step does not take a session in an anonymous mode to a new home that is not on loopback, does
not open a vault that was saved in one, and opens no wakeup socket to a home that must not see the
client. -/
def Careful (h : Handset) : HandsetStep → Prop
  | .register base _ => ∀ link home, h.net.link = some link →
    ¬(link.session.homeBase ≠ "" ∧ trimSlashes link.session.homeBase = trimSlashes base) →
      HttpHome.new p base = .ok home → link.session.privacy.anonymous = true →
        isLoopbackOrigin home.base = true
  | .waitWakeup i => ∀ link home header, h.net.link = some link →
    h.handles[i]? = some (home, header) → link.Hidden → isLoopbackOrigin home.base = true
  | .openAt => ∀ home transport, h.savedHome = some home → home.homeBase ≠ "" →
    HttpHome.new p home.homeBase = .ok transport → ¬home.Hidden
  | _ => True

/-- A careful step. -/
def Steps (h h' : Handset) : Prop := ∃ step, h.Careful p step ∧ h' = h.next p codec tape step

variable {p codec tape}

/-- The session is covered, and no connection so far went out directly in an anonymous mode. -/
structure Sheltered (h : Handset) : Prop where
  covered : ∀ link, h.net.link = some link → link.Covered
  shielded : ∀ c ∈ h.net.log, c.Shielded

theorem Sheltered.net {h : Handset} {H : Prop} (hh : h.Sheltered)
    (hhidden : ∀ link, h.net.link = some link → link.Hidden → H) : h.net.Sheltered H :=
  ⟨fun link hlink ↦ ⟨hh.covered link hlink, hhidden link hlink⟩, hh.shielded⟩

theorem Sheltered.of_net {h : Handset} {H : Prop} (hnet : h.net.Sheltered H) : h.Sheltered :=
  ⟨fun link hlink ↦ (hnet.covered link hlink).1, hnet.shielded⟩

theorem Sheltered.closed {h : Handset} (hh : h.Sheltered) : h.closed.Sheltered where
  covered link hlink := by cases hlink
  shielded := hh.shielded

/-- A discreet program of the session keeps it sheltered. -/
theorem Sheltered.onLink {h : Handset} {f : Link → NetM Unit} (hh : h.Sheltered)
    (hf : ∀ link, h.net.link = some link → ∃ H, (link.Hidden → H) ∧ Discreet H (f link)) :
    (h.onLink tape f).Sheltered := by
  unfold Handset.onLink
  cases hlink : h.net.link with
  | none => exact hh
  | some link =>
    obtain ⟨H, hhidden, hdiscreet⟩ := hf link hlink
    refine .of_net (Net.Sheltered.run hdiscreet (hh.net fun link' hlink' ↦ ?_))
    rw [hlink] at hlink'
    rwa [← Option.some.inj hlink']

theorem Sheltered.registerAgain {h : Handset} {link : Link} {base : String} {now : UInt64}
    (hh : h.Sheltered) (hlink : h.net.link = some link)
    (hcareful : h.Careful p (.register base now)) :
    (h.registerAgain p codec tape link base now).Sheltered := by
  unfold Handset.registerAgain
  split_ifs with hsame
  · exact hh
  · cases hnew : HttpHome.new p base with
    | error e => exact hh.closed
    | ok home =>
      have hbase : home.base = trimSlashes base := by
        obtain ⟨-, -, hmade⟩ := bind_eq_ok.mp hnew
        rw [← Except.ok.inj hmade]
      have hdiscreet : Discreet link.Hidden (link.rehome p codec home base now) :=
        discreet_rehome now (hh.covered link hlink) hbase (hcareful link home hlink hsame hnew)
      refine .of_net (Net.Sheltered.run hdiscreet (hh.net fun link' hlink' ↦ ?_))
      rw [hlink] at hlink'
      rw [← Option.some.inj hlink']
      exact id

theorem Sheltered.registerFirst {h : Handset} {install : Installation} {base : String}
    {now : UInt64} (hh : h.Sheltered) (hnone : h.net.link = none) :
    (h.registerFirst p codec tape install base now).Sheltered := by
  unfold Handset.registerFirst
  cases hnew : HttpHome.new p base with
  | error e => exact hh.closed
  | ok home =>
    have hnet : h.net.Sheltered False := hh.net fun link hlink ↦ by simp [hnone] at hlink
    have hrun : (run (network tape) (enroll p codec home base install now) h.net).2.Sheltered
        False := hnet.run (discreet_enroll home base install now)
    dsimp only
    split
    · next hreturn =>
      rw [hreturn] at hrun
      exact .of_net hrun
    · next hreturn =>
      rw [hreturn] at hrun
      exact ⟨fun _ hlink ↦ (Option.some_ne_none _ hlink.symm).elim, hrun.shielded⟩

theorem Sheltered.openAt {h : Handset} (hh : h.Sheltered) (hcareful : h.Careful p .openAt) :
    (h.openAt p codec tape).Sheltered := by
  unfold Handset.openAt
  cases hsaved : h.savedHome with
  | none => exact ⟨hh.closed.covered, hh.closed.shielded⟩
  | some home =>
    dsimp only
    split_ifs with hempty
    · exact ⟨hh.closed.covered, hh.closed.shielded⟩
    · cases hnew : HttpHome.new p home.homeBase with
      | error e => exact hh.closed
      | ok transport =>
        have hopen : ¬home.Hidden := hcareful home transport hsaved hempty hnew
        have hfits : (Link.mk transport (.resume h.saved home)).Covered ∧
            ((Link.mk transport (.resume h.saved home)).Hidden → False) :=
          ⟨fun hhidden ↦ (hopen hhidden).elim, hopen⟩
        refine .of_net (Net.Sheltered.run
          (Link.yields_restockPublishUpto syncPrekeyStock False.elim hfits).only
            ⟨fun link hlink ↦ ?_, hh.shielded⟩)
        rw [← Option.some.inj hlink]
        exact hfits

/-- What a careful step keeps. -/
theorem Sheltered.next {h : Handset} {step : HandsetStep} (hh : h.Sheltered)
    (hcareful : h.Careful p step) : (h.next p codec tape step).Sheltered := by
  cases step with
  | register base now =>
    simp only [Handset.next]
    cases hlink : h.net.link with
    | some link => exact hh.registerAgain hlink hcareful
    | none =>
      cases h.local_ with
      | some install => exact hh.registerFirst hlink
      | none => exact hh
  | setPrivacyMode mode wait =>
    simp only [Handset.next]
    cases p.formats.parsePrivacy mode with
    | none => exact hh
    | some mode =>
      exact hh.onLink fun link _ ↦ ⟨True, fun _ ↦ trivial, link.discreet_setPrivacy mode wait⟩
  | request op plain =>
    exact hh.onLink fun link hlink ↦ ⟨link.Hidden, id,
      .bind (HomeOp.discreet_perform plain (hh.covered link hlink)) fun _ ↦ .pure ()⟩
  | change install contacts groups pendingOuters =>
    exact hh.onLink fun link hlink ↦ ⟨link.Hidden, id,
      Link.Alike.discreet_put ⟨rfl, rfl, rfl⟩ ⟨hh.covered link hlink, id⟩⟩
  | wakeupHandle =>
    simp only [Handset.next]
    cases hlink : h.net.link with
    | none => exact hh
    | some link =>
      have hrun : (run (network tape) (link.wakeupHandle p) h.net).2.Sheltered True :=
        (hh.net fun _ _ _ ↦ trivial).run link.discreet_wakeupHandle
      dsimp only
      split
      · next hreturn =>
        rw [hreturn] at hrun
        exact .of_net hrun
      · next hreturn =>
        rw [hreturn] at hrun
        exact .of_net hrun
  | waitWakeup i =>
    simp only [Handset.next]
    cases hhandle : h.handles[i]? with
    | none => exact hh
    | some handle =>
      obtain ⟨home, header⟩ := handle
      have hnet : h.net.Sheltered (∃ link, h.net.link = some link ∧ link.Hidden) :=
        hh.net fun link hlink hhidden ↦ ⟨link, hlink, hhidden⟩
      refine .of_net (hnet.step ?_)
      rintro ⟨link, hlink, hhidden⟩
      exact hcareful link home header hlink hhandle hhidden
  | persist =>
    simp only [Handset.next, Handset.persist]
    split
    · exact ⟨hh.covered, hh.shielded⟩
    · exact ⟨hh.covered, hh.shielded⟩
    · exact hh
  | close => exact hh.closed
  | openAt => exact hh.openAt hcareful

open Relation in
/-- In every run of careful steps, a session in an anonymous mode has a transport that says so, and
no connection went to a home directly. -/
theorem anonymous_of_careful {install : Installation} {h : Handset}
    (hrun : ReflTransGen (Steps p codec tape) (created install) h) :
    (∀ link, h.net.link = some link → link.Covered) ∧ ∀ c ∈ h.net.log, c.Shielded := by
  have hsheltered : h.Sheltered := by
    induction hrun with
    | refl =>
      exact ⟨fun _ hlink ↦ (Option.some_ne_none _ hlink.symm).elim,
        fun _ hc ↦ (List.not_mem_nil hc).elim⟩
    | tail _ hstep ih =>
      obtain ⟨step, hcareful, rfl⟩ := hstep
      exact ih.next hcareful
  exact ⟨hsheltered.covered, hsheltered.shielded⟩

/-! ## A client that is opened again -/

/-- The match of `set_privacy_mode`, on a lower-case text. -/
def parseMode (mode : String) : Option PrivacyMode :=
  match mode with
  | "normal" => some .normal
  | "private" => some .private_
  | "high" => some .high
  | "maximum" => some .maximum
  | _ => none

/-- The outside world of `Outside.transparent`, with the modes of the source. -/
def moded : Outside :=
  { Outside.transparent with
    formats := { Outside.transparent.formats with parsePrivacy := parseMode } }

/-- A home that answers every request with its bundle. -/
def answering : Tape :=
  { Tape.accepting [] with
    answer := fun _ ↦ .ok
      ⟨200, HomeSession.acquainted.bundle.encode,
        [(responseSigHeader, toHex (List.replicate 64 0))]⟩ }

/-- A new client, after some steps at that home. -/
def after (steps : List HandsetStep) : Handset :=
  steps.foldl (fun h step ↦ h.next moded .empty answering step)
    (created HomeSession.acquainted.install)

/-- A client registers and asks for the high mode. -/
def veiled : List HandsetStep := [.register "https://home" 0, .setPrivacyMode "high" 0]

/-- It is closed and opened again, and acks its mailbox. -/
def reopened : List HandsetStep := veiled ++ [.persist, .close, .openAt, .request .ack trivial]

theorem after_concat (steps : List HandsetStep) (step : HandsetStep) :
    after (steps ++ [step]) = (after steps).next moded .empty answering step := by
  simp only [after, List.foldl_append, List.foldl_cons, List.foldl_nil]

open Relation in
theorem reaches_after (steps : List HandsetStep) :
    ReflTransGen (fun h h' ↦ ∃ step, h' = h.next moded .empty answering step)
      (created HomeSession.acquainted.install) (after steps) := by
  induction steps using List.reverseRecOn with
  | nil => exact .refl
  | append_singleton steps step ih => exact ih.tail ⟨step, after_concat steps step⟩

instance (c : Connection) : Decidable c.Shielded :=
  match hlink : c.link with
  | none => isTrue fun _ h ↦ by simp [hlink] at h
  | some link =>
    decidable_of_iff (link.Hidden → c.socks = true ∨ isLoopbackOrigin c.base = true)
      ⟨fun h link' hlink' ↦ by rwa [← Option.some.inj (hlink.symm.trans hlink')],
        fun h ↦ h link hlink⟩

/-- Before it is closed, it does all this carefully. -/
theorem anonymous_of_careful_veiled :
    (∀ link, (after veiled).net.link = some link → link.Covered) ∧
      ∀ c ∈ (after veiled).net.log, c.Shielded := by
  have hregister : Steps moded .empty answering (after []) (after [.register "https://home" 0]) :=
    ⟨.register "https://home" 0, fun link home hlink ↦ (Option.some_ne_none _ hlink.symm).elim,
      after_concat [] _⟩
  have hmode : Steps moded .empty answering (after [.register "https://home" 0]) (after veiled) :=
    ⟨.setPrivacyMode "high" 0, trivial, after_concat [_] _⟩
  exact anonymous_of_careful (.tail (.tail .refl hregister) hmode)

set_option maxRecDepth 100000 in
open Relation in
/-- The opened vault has the mode, and its transport does not. -/
theorem reopened_not_anonymous :
    ¬∀ h, ReflTransGen (fun h h' ↦ ∃ step, h' = h.next moded .empty answering step)
        (created HomeSession.acquainted.install) h →
      (∀ link, h.net.link = some link → link.Covered) ∧ ∀ c ∈ h.net.log, c.Shielded := by
  intro hall
  have hshielded : ∀ c ∈ (after reopened).net.log, c.Shielded :=
    (hall _ (reaches_after reopened)).2
  exact absurd hshielded (by decide +kernel)

end Handset

end NemoMessenger.Client
