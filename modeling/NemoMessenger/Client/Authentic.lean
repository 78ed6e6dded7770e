import NemoMessenger.Client.Endpoint
import NemoMessenger.Client.Inside

/-!
# Signed answers of the own home

The TLS of a home proves nothing, so what a session takes from its home has to carry a signature of
the server over a fresh nonce, the status and the body. That is so of the requests that go through
`signed_call`. It is not so of the registration at a new home, and of what goes to the host of a
group over a transport of its own, also when that host is the own home.
-/

namespace NemoMessenger.Client

open NemoMessenger.Data NemoMessenger.Wire
open Program (act ofExcept forEach fail run)

variable {p : Outside} {codec : Codec} {tape tape' : Tape} {α β : Type}

/-! ## Signed responses -/

/-- The response carries a signature under the key over a nonce, its status and its body. -/
def HttpResponse.SignedBy (p : Outside) (key nonce : Key) (res : HttpResponse) : Prop :=
  ∃ sigHex signature, res.header responseSigHeader = some sigHex ∧
    (fromHex (Cbor.textBytes sigHex) >>= copyFixed 64) = .ok signature ∧
      p.crypto.isVerifyingKey key = true ∧ verifyResponse p key nonce res signature = .ok ()

theorem verifySignedResponse_eq_ok {bundle : ServerBundle} {nonce : Key} {res : HttpResponse}
    (h : verifySignedResponse p bundle nonce res = .ok ()) :
    res.SignedBy p bundle.serverSignPublicKey nonce := by
  unfold verifySignedResponse at h
  split at h
  · cases h
  · next sigHex hheader =>
    split at h
    · cases h
    · next signature hsignature =>
      split_ifs at h with hkey
      split at h
      · cases h
      · next hverify => exact ⟨sigHex, signature, hheader, hsignature, hkey, hverify⟩

/-- A connection brought a signed response; the nonce was drawn for the request and is in it. -/
def Connection.Authentic (p : Outside) (tape : Tape) (key : Key) (c : Connection) : Prop :=
  ∃ request res, c.exchange = some (request, .ok res) ∧
    (responseNonceHeader, toHex (keyOf (tape.draw (c.tick - 1))).data) ∈ request.headers ∧
      res.SignedBy p key (keyOf (tape.draw (c.tick - 1)))

/-! ## Programs whose answers are signed -/

/-- Whenever the program returns, every response it has met is signed under the key. -/
def Vouched (p : Outside) (tape : Tape) (key : Key) (q : NetM α) : Prop :=
  ∀ net a net', run (network tape) q net = (.ok a, net') →
    ∃ new, net'.log = net.log ++ new ∧ ∀ c ∈ new, c.Authentic p tape key

namespace Vouched

variable {key : Key}

@[grind ←] theorem pure (a : α) : Vouched p tape key (Pure.pure a : NetM α) := by
  intro net a net' h
  cases h
  exact ⟨[], by simp, by simp⟩

@[grind ←] theorem fail (e : CoreError) : Vouched p tape key (Program.fail e : NetM α) := by
  intro net a net' h
  cases h

@[grind ←] theorem ofExcept (x : Except CoreError α) :
    Vouched p tape key (Program.ofExcept x : NetM α) := by
  cases x with
  | ok a => exact pure a
  | error e => exact fail e

/-- What comes next may rely on what the first part returns. -/
theorem bind_of_ok {q : NetM α} {f : α → NetM β} (hq : Vouched p tape key q)
    (hf : ∀ net a net', run (network tape) q net = (.ok a, net') → Vouched p tape key (f a)) :
    Vouched p tape key (q >>= f) := by
  intro net b net' h
  obtain ⟨a, mid, hfirst, hlater⟩ := Program.run_bind_eq_ok.mp h
  obtain ⟨new, hlog, hnew⟩ := hq net a mid hfirst
  obtain ⟨new', hlog', hnew'⟩ := hf net a mid hfirst mid b net' hlater
  refine ⟨new ++ new', ?_, ?_⟩
  · rw [hlog', hlog, List.append_assoc]
  · intro c hc
    rcases List.mem_append.mp hc with hc | hc
    · exact hnew c hc
    · exact hnew' c hc

@[grind ←] theorem bind {q : NetM α} {f : α → NetM β} (hq : Vouched p tape key q)
    (hf : ∀ a, Vouched p tape key (f a)) : Vouched p tape key (q >>= f) :=
  hq.bind_of_ok fun _ a _ _ ↦ hf a

@[grind ←] theorem draw : Vouched p tape key (act .draw) := by
  intro net a net' h
  cases h
  exact ⟨[], by simp [network, NetOp.effect], by simp⟩

@[grind ←] theorem clock : Vouched p tape key (act .clock) := by
  intro net a net' h
  cases h
  exact ⟨[], by simp [network, NetOp.effect], by simp⟩

@[grind ←] theorem put (link : Link) : Vouched p tape key (act (.put link)) := by
  intro net a net' h
  cases h
  exact ⟨[], by simp [network, NetOp.effect], by simp⟩

@[grind ←] theorem drawNonce : Vouched p tape key drawNonce :=
  draw.bind fun _ ↦ pure _

/-- A call with a nonce drawn just before, whose answer has been verified. -/
theorem called {home : HttpHome} {request : HttpRequest} {bundle : ServerBundle} {net : Net}
    {res : HttpResponse} (hnonce : (responseNonceHeader, toHex (keyOf (tape.draw net.tick)).data) ∈
      request.headers)
    (hanswer : tape.answer (net.tick + 1) = .ok res)
    (hverify : verifySignedResponse p bundle (keyOf (tape.draw net.tick)) res = .ok ()) :
    ∃ new, (({ net with tick := net.tick + 1 } : Net).called tape home request).log =
        net.log ++ new ∧ ∀ c ∈ new, c.Authentic p tape bundle.serverSignPublicKey := by
  refine ⟨_, rfl, fun c hc ↦ ?_⟩
  rw [List.mem_singleton.mp hc]
  exact ⟨request, res, by rw [hanswer], hnonce, verifySignedResponse_eq_ok hverify⟩

@[grind ←] theorem signedCall {bundle : ServerBundle} (home : HttpHome) (request : HttpRequest)
    (hkey : bundle.serverSignPublicKey = key) :
    Vouched p tape key (signedCall p home bundle request) := by
  subst hkey
  intro net res net' h
  obtain ⟨nonce, net₁, hnonce, h⟩ := Program.run_bind_eq_ok.mp h
  rw [run_drawNonce] at hnonce
  cases hnonce
  obtain ⟨res', net₂, hcall, h⟩ := Program.run_bind_eq_ok.mp h
  obtain ⟨hanswer, rfl⟩ := run_call_eq_ok.mp hcall
  obtain ⟨⟨⟩, net₃, hverify, h⟩ := Program.run_bind_eq_ok.mp h
  obtain ⟨hsigned, rfl⟩ := Program.run_ofExcept_eq_ok.mp hverify
  cases h
  exact called (by simp) hanswer hsigned

/-- The bundle that is fetched signs the response it comes in. -/
theorem fetchBundle {home : HttpHome} {net net' : Net} {bundle : ServerBundle}
    (h : run (network tape) (fetchBundle p home) net = (.ok bundle, net')) :
    ∃ new, net'.log = net.log ++ new ∧
      ∀ c ∈ new, c.Authentic p tape bundle.serverSignPublicKey := by
  obtain ⟨nonce, net₁, hnonce, h⟩ := Program.run_bind_eq_ok.mp h
  rw [run_drawNonce] at hnonce
  cases hnonce
  obtain ⟨res, net₂, hcall, h⟩ := Program.run_bind_eq_ok.mp h
  obtain ⟨hanswer, rfl⟩ := run_call_eq_ok.mp hcall
  obtain ⟨body, net₃, hbody, h⟩ := Program.run_bind_eq_ok.mp h
  obtain ⟨-, rfl⟩ := Program.run_ofExcept_eq_ok.mp hbody
  obtain ⟨decoded, net₄, hdecode, h⟩ := Program.run_bind_eq_ok.mp h
  obtain ⟨-, rfl⟩ := Program.run_ofExcept_eq_ok.mp hdecode
  obtain ⟨⟨⟩, net₅, hbundle, h⟩ := Program.run_bind_eq_ok.mp h
  obtain ⟨-, rfl⟩ := Program.run_ofExcept_eq_ok.mp hbundle
  obtain ⟨⟨⟩, net₆, hverify, h⟩ := Program.run_bind_eq_ok.mp h
  obtain ⟨hsigned, rfl⟩ := Program.run_ofExcept_eq_ok.mp hverify
  cases h
  exact called (by simp) hanswer hsigned

end Vouched

/-! ## The requests of a session -/

@[grind ←] theorem vouched_unixNow {key : Key} : Vouched p tape key unixNow := by
  grind [unixNow]

@[grind ←] theorem vouched_mailboxOwnerAuth {key : Key} (install : Installation)
    (cursor limit : UInt64) (scope : AuthScope) :
    Vouched p tape key (mailboxOwnerAuth p install cursor limit scope) := by
  grind [mailboxOwnerAuth]

namespace Link

variable (self : Link)

section
variable {key : Key} (hkey : self.session.bundle.serverSignPublicKey = key)
include hkey

@[grind ←] theorem vouched_ownerPost (path : String) (body : Bytes) :
    Vouched p tape key (self.ownerPost p path body) := by
  grind [ownerPost, ownerHeader]

theorem vouched_callOn {origin : String} (request : HttpRequest)
    (hown : trimSlashes origin = "" ∨ trimSlashes origin = self.session.homeBase) :
    Vouched p tape key (self.callOn p origin request) := by
  grind [callOn]

theorem vouched_callGroup {groupId : Key} (request : HttpRequest)
    (hown : self.transport.redirect p (self.groupOrigin groupId) = none) :
    Vouched p tape key (self.callGroup p groupId request) := by
  grind [callGroup]

@[grind ←] theorem vouched_publishPrekey : Vouched p tape key (self.publishPrekey p codec) := by
  grind [publishPrekey, withInstall]

theorem vouched_fetchMailbox : Vouched p tape key (self.fetchMailbox p) := by
  refine .bind (by grind [mailboxBodyAuth]) fun auth ↦ .bind (by grind) fun res ↦
    .bind (.ofExcept _) fun rows ↦ ?_
  split
  · exact .bind (.put _) fun _ ↦ .pure rows
  · exact .pure rows

omit hkey in
@[grind ←] theorem vouched_maybeRotateSignedPrekey (now : UInt64) :
    Vouched p tape key (self.maybeRotateSignedPrekey p now) := by
  grind [maybeRotateSignedPrekey]

end

theorem bundle_publishPrekey {self self' : Link} {net net' : Net}
    (h : run (network tape) (self.publishPrekey p codec) net = (.ok self', net')) :
    self'.session.bundle = self.session.bundle := by
  obtain ⟨seed, net₁, -, h⟩ := Program.run_bind_eq_ok.mp h
  obtain ⟨-, net₂, -, h⟩ := Program.run_bind_eq_ok.mp h
  obtain ⟨blob, net₃, -, h⟩ := Program.run_bind_eq_ok.mp h
  obtain ⟨res, net₄, -, h⟩ := Program.run_bind_eq_ok.mp h
  obtain ⟨-, net₅, -, h⟩ := Program.run_bind_eq_ok.mp h
  cases h
  rfl

theorem bundle_maybeRotateSignedPrekey {self self' : Link} {now : UInt64} {net net' : Net}
    (h : run (network tape) (self.maybeRotateSignedPrekey p now) net = (.ok self', net')) :
    self'.session.bundle = self.session.bundle := by
  unfold maybeRotateSignedPrekey at h
  split at h
  · cases h
    rfl
  · obtain ⟨ms, net₁, -, h⟩ := Program.run_bind_eq_ok.mp h
    obtain ⟨seed, net₂, -, h⟩ := Program.run_bind_eq_ok.mp h
    obtain ⟨-, net₃, -, h⟩ := Program.run_bind_eq_ok.mp h
    obtain ⟨-, net₄, -, h⟩ := Program.run_bind_eq_ok.mp h
    cases h
    rfl

theorem vouched_restockLoop {key : Key} (target turns : ℕ) (self : Link)
    (hkey : self.session.bundle.serverSignPublicKey = key) :
    Vouched p tape key (restockLoop p codec target turns self) := by
  induction turns generalizing self with
  | zero => exact .pure self
  | succ turns ih =>
    unfold restockLoop
    split
    · refine (self.vouched_publishPrekey hkey).bind_of_ok fun _ self' _ h ↦ ih self' ?_
      rw [bundle_publishPrekey h, hkey]
    · exact .pure self

theorem vouched_restockPublishUpto (target : ℕ) :
    Vouched p tape self.session.bundle.serverSignPublicKey
      (self.restockPublishUpto p codec target) := by
  refine .bind vouched_unixNow fun now ↦
    (self.vouched_maybeRotateSignedPrekey now).bind_of_ok fun _ self' _ h ↦ ?_
  exact vouched_restockLoop target target self' (by rw [bundle_maybeRotateSignedPrekey h])

end Link

namespace HomeOp

/-! ## The own home -/

variable (self : Link)

/-- The group the host of which is asked. -/
def groupId? : HomeOp α → Option Key
  | groupAppend groupId .. | storeInvite groupId .. | lookupPending groupId ..
  | admitPending groupId .. | refreshFanout groupId .. | uploadFile groupId ..
  | fetchFile groupId .. => some groupId
  | _ => none

/-- The origin the request goes to; empty for the home the transport leads to. -/
def origin (op : HomeOp α) : String :=
  match op with
  | discoveryAt origin _ | fetchPrekeyAt origin _ => origin
  | op => (op.groupId?.map self.groupOrigin).getD ""

/-- The request goes to the home of the session, or registers on a new one. -/
def Own (op : HomeOp α) : Prop :=
  trimSlashes (op.origin self) = "" ∨ trimSlashes (op.origin self) = self.session.homeBase

/-- The bundle a session is pinned to afterwards. -/
def pinned (op : HomeOp α) (a : α) (net : Net) : ServerBundle :=
  match op, a with
  | register .., link => link.session.bundle
  | rehome .., _ => (net.link.getD self).session.bundle
  | _, _ => self.session.bundle

/-- Whatever the network answers, when the operation returns, every response was signed. -/
def Authenticated (p : Outside) (codec : Codec) (op : HomeOp α) : Prop :=
  ∀ tape a net, run (network tape) (op.perform p codec self) ⟨some self, [], 0⟩ = (.ok a, net) →
    ∀ c ∈ net.log, c.Authentic p tape (op.pinned self a net).serverSignPublicKey

/-- The operation can succeed. -/
def Possible (p : Outside) (codec : Codec) (op : HomeOp α) : Prop :=
  ∃ tape a net, run (network tape) (op.perform p codec self) ⟨some self, [], 0⟩ = (.ok a, net)

/-- No answer is taken without its signature: the operation is no `rehome` and no `refresh_fanout`,
and it does not go to the host of a group over a transport of its own. -/
def Signs (p : Outside) : HomeOp α → Prop
  | rehome .. | refreshFanout .. => False
  | op => ∀ groupId, op.groupId? = some groupId →
    self.transport.redirect p (self.groupOrigin groupId) = none

variable {self}

theorem Authenticated.of_vouched {op : HomeOp α}
    (hpinned : ∀ a net, op.pinned self a net = self.session.bundle)
    (h : ∀ tape, Vouched p tape self.session.bundle.serverSignPublicKey (op.perform p codec self)) :
    op.Authenticated self p codec := by
  intro tape a net hrun c hc
  obtain ⟨new, hlog, hnew⟩ := h tape _ a net hrun
  rw [hpinned]
  rw [hlog, List.nil_append] at hc
  exact hnew c hc

/-- `register` takes what the fetched bundle signs. -/
theorem authenticated_register (home : HttpHome) (install : Installation) (now : UInt64) :
    (register home install now).Authenticated self p codec := by
  intro tape link net hrun c hc
  obtain ⟨bundle, net₁, hbundle, hrun⟩ := Program.run_bind_eq_ok.mp hrun
  obtain ⟨new, hlog, hnew⟩ := Vouched.fetchBundle hbundle
  obtain ⟨shareToken, net₂, hdraw, hrun⟩ := Program.run_bind_eq_ok.mp hrun
  rw [run_drawNonce] at hdraw
  cases hdraw
  obtain ⟨card, net₃, hcard, hrun⟩ := Program.run_bind_eq_ok.mp hrun
  obtain ⟨-, rfl⟩ := Program.run_ofExcept_eq_ok.mp hcard
  obtain ⟨body, net₄, hbody, hrun⟩ := Program.run_bind_eq_ok.mp hrun
  obtain ⟨-, rfl⟩ := Program.run_ofExcept_eq_ok.mp hbody
  obtain ⟨res, net₅, hcall, hrun⟩ := Program.run_bind_eq_ok.mp hrun
  obtain ⟨new', hlog', hnew'⟩ := Vouched.signedCall home _ rfl _ _ _ hcall
  obtain ⟨⟨⟩, net₆, hstatus, hreturn⟩ := Program.run_bind_eq_ok.mp hrun
  obtain ⟨-, rfl⟩ := Program.run_ofExcept_eq_ok.mp hstatus
  cases hreturn
  rw [hlog', hlog, List.nil_append] at hc
  rcases List.mem_append.mp hc with hc | hc
  · exact hnew c hc
  · exact hnew' c hc

/-- Where the home is asked with a signed call, every response that is taken is signed. -/
theorem authenticated {op : HomeOp α} (hown : op.Own self) (hsigns : op.Signs self p) :
    op.Authenticated self p codec := by
  cases op with
  | register home install now => exact authenticated_register home install now
  | rehome home base now => exact hsigns.elim
  | refreshFanout groupId cred capability hpke => exact hsigns.elim
  | fetchMailbox => exact .of_vouched (fun _ _ ↦ rfl) fun tape ↦ self.vouched_fetchMailbox rfl
  | restockPublishUpto target =>
    exact .of_vouched (fun _ _ ↦ rfl) fun tape ↦ self.vouched_restockPublishUpto target
  | discoveryAt origin identity | fetchPrekeyAt origin shareToken =>
    refine .of_vouched (fun _ _ ↦ rfl) fun tape ↦ ?_
    have hcall (request : HttpRequest) : Vouched p tape self.session.bundle.serverSignPublicKey
        (self.callOn p origin request) := self.vouched_callOn rfl request hown
    grind [perform, Link.discoveryAt, Link.fetchPrekeyAt]
  | groupAppend groupId | storeInvite groupId | lookupPending groupId | admitPending groupId
  | uploadFile groupId | fetchFile groupId =>
    refine .of_vouched (fun _ _ ↦ rfl) fun tape ↦ ?_
    have hcall (request : HttpRequest) : Vouched p tape self.session.bundle.serverSignPublicKey
        (self.callGroup p groupId request) := self.vouched_callGroup rfl request (hsigns groupId rfl)
    grind [perform, Link.groupAppend, Link.storeInvite, Link.lookupPending, Link.admitPending,
      Link.uploadFile, Link.fetchFile, Link.groupPost]
  | issueTurn | submitRevocation | publishPrekey | mintContact | mintShare | postOneEnvelope
  | ack | createGroup | acceptInvite =>
    refine .of_vouched (fun _ _ ↦ rfl) fun tape ↦ ?_
    grind [perform, Link.issueTurn, Link.submitRevocation, Link.mintContact, Link.mintShare,
      Link.mintToken, Link.postOneEnvelope, Link.ack, Link.createGroup,
      Link.acceptInvite, Link.mailboxBodyAuth]

end HomeOp

/-! ## Responses without a signature -/

/-- The tapes are the same up to a tick. -/
def Tape.AgreeBelow (tape tape' : Tape) (n : ℕ) : Prop :=
  ∀ i < n, tape.answer i = tape'.answer i ∧ tape.frame i = tape'.frame i ∧
    tape.draw i = tape'.draw i ∧ tape.clock i = tape'.clock i

/-- The network takes the headers off one response. -/
def Tape.stripped (tape : Tape) (n : ℕ) : Tape :=
  { tape with answer := fun i ↦
      if i = n then (tape.answer i).map fun res ↦ { res with headers := [] } else tape.answer i }

theorem Tape.agreeBelow_stripped (tape : Tape) (n : ℕ) :
    tape.AgreeBelow (tape.stripped n) n := by
  intro i hi
  exact ⟨(if_neg (Nat.ne_of_lt hi)).symm, rfl, rfl, rfl⟩

theorem log_extends (q : NetM α) (net : Net) :
    net.log <+: (run (network tape) q net).2.log := by
  induction q generalizing net with
  | pure a => exact List.prefix_refl _
  | fail e => exact List.prefix_refl _
  | perform action next ih =>
    refine List.IsPrefix.trans ?_ (ih _ _)
    cases action <;> simp [network, NetOp.effect]

theorem tick_le (q : NetM α) (net : Net) : net.tick ≤ (run (network tape) q net).2.tick := by
  induction q generalizing net with
  | pure a => exact Nat.le_refl _
  | fail e => exact Nat.le_refl _
  | perform action next ih =>
    calc
      net.tick ≤ ((network tape).step action net).2.tick := Nat.le_succ _
      _ ≤ _ := ih _ _

/-- A program does not read the tape beyond its last tick. -/
theorem run_of_agreeBelow {q : NetM α} {net : Net} {n : ℕ} (hagree : tape.AgreeBelow tape' n)
    (h : (run (network tape) q net).2.tick ≤ n) :
    run (network tape') q net = run (network tape) q net := by
  induction q generalizing net with
  | pure a => rfl
  | fail e => rfl
  | perform action next ih =>
    have hlt : net.tick < n := by
      calc
        net.tick < ((network tape).step action net).2.tick := Nat.lt_succ_self _
        _ ≤ (run (network tape) (next _) _).2.tick := tick_le _ _
        _ ≤ n := h
    obtain ⟨hanswer, hframe, hdraw, hclock⟩ := hagree net.tick hlt
    have hstep : (network tape').step action net = (network tape).step action net := by
      cases action <;> simp only [network, NetOp.effect, hanswer, hframe, hdraw, hclock]
    simp only [Program.run] at h ⊢
    rw [hstep]
    exact ih _ h

/-- The program can return with a response that no key has signed, on a tape that is the same up to
the start. -/
def Exposed (p : Outside) (tape : Tape) (q : NetM α) (net : Net) : Prop :=
  ∃ tape' a net', tape.AgreeBelow tape' net.tick ∧ run (network tape') q net = (.ok a, net') ∧
    ∃ c ∈ net'.log, ∀ key, ¬c.Authentic p tape' key

theorem Exposed.bind {q : NetM β} {f : β → NetM α} {net mid : Net} {b : β}
    (hq : run (network tape) q net = (.ok b, mid)) (h : Exposed p tape (f b) mid) :
    Exposed p tape (q >>= f) net := by
  obtain ⟨tape', a, net', hagree, hrun, hc⟩ := h
  have htick : net.tick ≤ mid.tick := by
    calc
      net.tick ≤ (run (network tape) q net).2.tick := tick_le q net
      _ = mid.tick := by rw [hq]
  have hq' : run (network tape') q net = (.ok b, mid) := by
    rw [run_of_agreeBelow hagree (by rw [hq]), hq]
  exact ⟨tape', a, net', fun i hi ↦ hagree i (Nat.lt_of_lt_of_le hi htick),
    Program.run_bind_eq_ok.mpr ⟨b, mid, hq', hrun⟩, hc⟩

/-- Beyond the tick it differs at, a stripped tape makes no difference. -/
theorem run_stripped {n : ℕ} (q : NetM α) {s t : Net} (htick : s.tick = t.tick)
    (hlt : n < s.tick) :
    (run (network (tape.stripped n)) q s).1 = (run (network tape) q t).1 := by
  refine (Program.run_related (R := fun s t ↦ s.tick = t.tick ∧ n < s.tick) ?_ q
    ⟨htick, hlt⟩).1
  rintro γ action s t ⟨htick, hlt⟩
  have hanswer : (tape.stripped n).answer s.tick = tape.answer t.tick :=
    (if_neg (Nat.ne_of_gt hlt)).trans (by rw [htick])
  have hlt' : n < s.tick + 1 := Nat.lt_succ_of_lt hlt
  cases action with
  | call home request => exact ⟨hanswer, congrArg (· + 1) htick, hlt'⟩
  | draw => exact ⟨congrArg tape.draw htick, congrArg (· + 1) htick, hlt'⟩
  | clock => exact ⟨congrArg tape.clock htick, congrArg (· + 1) htick, hlt'⟩
  | wakeup home header => exact ⟨congrArg tape.frame htick, congrArg (· + 1) htick, hlt'⟩
  | put link => exact ⟨rfl, congrArg (· + 1) htick, hlt'⟩

/-- A call whose headers nobody reads. -/
theorem Exposed.call {home : HttpHome} {request : HttpRequest} {k : HttpResponse → NetM α}
    {net net' : Net} {a : α} (hk : ∀ res, k { res with headers := [] } = k res)
    (h : run (network tape) (call home request >>= k) net = (.ok a, net')) :
    Exposed p tape (Client.call home request >>= k) net := by
  obtain ⟨res, mid, hcall, hlater⟩ := Program.run_bind_eq_ok.mp h
  obtain ⟨hanswer, rfl⟩ := run_call_eq_ok.mp hcall
  have hanswer' : (tape.stripped net.tick).answer net.tick = .ok { res with headers := [] } := by
    refine (if_pos rfl).trans ?_
    rw [hanswer]
    rfl
  have hsame : (run (network (tape.stripped net.tick)) (k res)
      (net.called (tape.stripped net.tick) home request)).1 = .ok a := by
    refine (run_stripped (k res) (s := net.called (tape.stripped net.tick) home request)
      (t := net.called tape home request) rfl (Nat.lt_succ_self _)).trans ?_
    rw [hlater]
  refine ⟨tape.stripped net.tick, a, (run (network (tape.stripped net.tick)) (k res)
    (net.called (tape.stripped net.tick) home request)).2, tape.agreeBelow_stripped _, ?_, ?_⟩
  · refine Program.run_bind_eq_ok.mpr ⟨_, _, run_call_eq_ok.mpr ⟨hanswer', rfl⟩, ?_⟩
    rw [hk]
    exact Prod.ext hsame rfl
  · refine ⟨_, (log_extends _ _).subset (List.mem_append_right _ (List.mem_singleton_self _)), ?_⟩
    rintro key ⟨_, _, hexchange, -, sigHex, -, hheader, -⟩
    rw [hanswer'] at hexchange
    cases hexchange
    cases hheader

theorem exposed_postFanout {home : HttpHome} {groupId : Key} {cred : HostCred}
    {capability hpke : Key} {net net' : Net}
    (h : run (network tape) (postFanout home groupId cred capability hpke) net = (.ok (), net')) :
    Exposed p tape (postFanout home groupId cred capability hpke) net :=
  .call (fun _ ↦ rfl) h

namespace HomeOp

variable {self : Link}

/-- Where an answer is not verified, it need not be signed. -/
theorem exposed {op : HomeOp α} (hsigns : ¬op.Signs self p) {net net' : Net} {a : α}
    (h : run (network tape) (op.perform p codec self) net = (.ok a, net')) :
    Exposed p tape (op.perform p codec self) net := by
  cases op with
  | rehome home base now =>
    obtain ⟨made, net₁, hmade, h⟩ := Program.run_bind_eq_ok.mp h
    obtain ⟨body, net₂, hbody, h⟩ := Program.run_bind_eq_ok.mp h
    exact .bind hmade (.bind hbody (.call (fun _ ↦ rfl) h))
  | refreshFanout groupId cred capability hpke =>
    simp only [perform, Link.refreshFanout] at h ⊢
    split at h <;> exact exposed_postFanout h
  | groupAppend groupId | storeInvite groupId | lookupPending groupId | admitPending groupId
  | uploadFile groupId | fetchFile groupId =>
    obtain ⟨alt, halt⟩ : ∃ alt, self.transport.redirect p (self.groupOrigin groupId) = some alt := by
      refine Option.ne_none_iff_exists'.mp fun hnone ↦ hsigns ?_
      rintro _ ⟨⟩
      exact hnone
    simp only [perform, Link.groupAppend, Link.storeInvite, Link.lookupPending, Link.admitPending,
      Link.uploadFile, Link.fetchFile, Link.groupPost, Link.callGroup, halt] at h ⊢
    exact .call (fun _ ↦ rfl) h
  | _ => exact (hsigns fun _ hnone ↦ by cases hnone).elim

theorem not_authenticated {op : HomeOp α} (hsigns : ¬op.Signs self p)
    (hcan : op.Possible self p codec) : ¬op.Authenticated self p codec := by
  intro hauthentic
  obtain ⟨tape, a, net, hrun⟩ := hcan
  obtain ⟨tape', a', net', -, hrun', c, hc, hunsigned⟩ := exposed hsigns hrun
  exact hunsigned _ (hauthentic tape' a' net' hrun' c hc)

end HomeOp

/-! ## Which operations authenticate the own home -/

open HomeOp in
/-- An operation that can succeed takes only signed responses of the own home exactly when it keeps
to signed calls. -/
theorem authenticated_iff {self : Link} {op : HomeOp α} (hown : op.Own self)
    (hcan : op.Possible self p codec) : op.Authenticated self p codec ↔ op.Signs self p := by
  constructor
  · exact fun hauthentic ↦ by_contra fun hsigns ↦ not_authenticated hsigns hcan hauthentic
  · exact authenticated hown

/-! ## A group at the own home -/

/-- The session of `HomeSession.acquainted`, with a group that its own home hosts. -/
def Link.hosting : Link where
  transport := ⟨"https://home", false⟩
  session := { HomeSession.acquainted with
    groups := [⟨.replicate 32 7, ⟨.replicate 32 0, .replicate 32 0⟩, "https://home"⟩] }

/-- Encodings nothing is read from. -/
def Codec.empty : Codec where
  card _ := .ok []
  prekey _ := []
  outer _ := []
  invite _ := []
  admission _ := []
  readDiscovery _ := .error .badEnvelope
  readPrekey _ := .error .badEnvelope

/-- A network that answers every request with a success, and these headers. -/
def Tape.accepting (headers : List (String × String)) : Tape where
  answer _ := .ok { status := 200, body := [], headers }
  frame _ := .ok []
  draw _ := []
  clock _ := 0

theorem HomeOp.possible_of_isSome {self : Link} {op : HomeOp α}
    (h : (run (network tape) (op.perform p codec self) ⟨some self, [], 0⟩).1.toOption.isSome) :
    op.Possible self p codec := by
  cases hrun : run (network tape) (op.perform p codec self) ⟨some self, [], 0⟩ with
  | mk answer net =>
    cases answer with
    | error e => simp [hrun, Except.toOption] at h
    | ok a => exact ⟨tape, a, net, hrun⟩

set_option maxRecDepth 100000 in
theorem possible_ack : HomeOp.ack.Possible Link.hosting .transparent .empty :=
  HomeOp.possible_of_isSome
    (show (run (network (.accepting [(responseSigHeader, toHex (List.replicate 64 0))]))
      (HomeOp.ack.perform .transparent .empty Link.hosting) _).1.toOption.isSome by decide +kernel)

/-- The ack of the mailbox is authenticated. -/
theorem authenticated_iff_ack : HomeOp.ack.Authenticated Link.hosting .transparent .empty :=
  (authenticated_iff (.inl (by decide +kernel)) possible_ack).mpr fun _ hnone ↦ by cases hnone

/-- The fetch of a file of that group. -/
def HomeOp.hostedFile : HomeOp Bytes :=
  fetchFile (.replicate 32 7) ⟨.replicate 32 0, .replicate 32 0⟩ (.replicate 32 0)

set_option maxRecDepth 100000 in
/-- The file is taken from whoever answers. -/
theorem hostedFile_not_authenticated :
    HomeOp.hostedFile.Own Link.hosting ∧
      ¬HomeOp.hostedFile.Authenticated Link.hosting .transparent .empty := by
  have hpossible : HomeOp.hostedFile.Possible Link.hosting .transparent .empty :=
    HomeOp.possible_of_isSome (show (run (network (.accepting []))
      (HomeOp.hostedFile.perform .transparent .empty Link.hosting) _).1.toOption.isSome by
        decide +kernel)
  have hsigns : ¬HomeOp.hostedFile.Signs Link.hosting .transparent := by
    intro hsigns
    have hnone := hsigns (.replicate 32 7) rfl
    exact absurd hnone (by decide +kernel)
  exact ⟨.inr (by decide +kernel), HomeOp.not_authenticated hsigns hpossible⟩

end NemoMessenger.Client
