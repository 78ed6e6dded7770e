import NemoMessenger.Client.Fetch
import NemoMessenger.Client.Frame

/-!
# Messages about calls

What the client knows of calls: the live call with its peer and what its peer connection has been
told, and the invites that ring. Every contact can send a message about any call id. The sender of a
message is looked at nowhere, and its call id only where the message answers or adds candidates.
-/

namespace NemoMessenger.Client

open NemoMessenger.Data NemoMessenger.Wire
open Program (run run_bind)

/-! ## Calls -/

/-- The part of the shell that is about calls. -/
structure Calls where
  live : Option LiveCall
  peer : Option String
  connected : Bool
  invites : FiniteMap String PendingInvite

/-- The calls of a shell. -/
def Shell.calls (shell : Shell) : Calls :=
  ⟨shell.liveCall, shell.callPeer, shell.callConnected, shell.pendingInvites⟩

/-- The calls in memory. -/
def World.calls (w : World) : Calls := w.inner.shell.calls

/-- The call a message is about. -/
def AppBody.callId? : AppBody → Option (FixedBytes 16)
  | callInvite signal _ | callAnswer signal => some signal.callId
  | callRinging callId | callIce callId _ | callReject callId | callCancel callId
  | callEnd callId => some callId
  | _ => none

namespace Calls

/-- The live call is over. -/
def hungUp (c : Calls) : Calls := { c with live := none, peer := none, connected := false }

/-- No invite rings under the id. -/
def withdrawn (c : Calls) (callId : FixedBytes 16) : Calls :=
  { c with invites := c.invites.erase (toHex callId.data) }

/-- An invite rings. -/
def ringing (c : Calls) (invite : PendingInvite) : Calls :=
  { c with invites := c.invites.insert (toHex invite.signal.callId.data) invite }

/-- The live call has taken something of the other side. -/
def fed (c : Calls) (taken : List RemoteInput) : Calls :=
  { c with live := c.live.map fun live ↦ { live with remote := live.remote ++ taken } }

/-- What a message of a sender leaves, at a time, when its peer connection has taken these parts of it,
and the whole of an answer. -/
def received (c : Calls) (sender : String) (now : UInt64) (taken : List RemoteInput)
    (whole : Bool) : AppBody → Calls
  | .callInvite signal expiresAt =>
    if expiresAt > now then c.ringing { peer := sender, signal, expiresAt } else c
  | .callAnswer _ => { c.fed taken with connected := c.connected || whole }
  | .callIce .. => c.fed taken
  | .callEnd _ => c.hungUp
  | .callReject callId | .callCancel callId => c.hungUp.withdrawn callId
  | _ => c

/-- The first part of a message that reaches the peer connection of a live call: the description of an
answer with a matching fingerprint, or the first candidate. -/
def firstInput (live : LiveCall) : AppBody → Option RemoteInput
  | .callAnswer signal =>
    if signal.callId = live.callId ∧ verifyFingerprint signal.sdp signal.dtlsFp = .ok () then
      some (.description signal.sdp)
    else none
  | .callIce callId ice =>
    if live.callId = callId ∧ rejectDirectIce ice = .ok () then ice.head?.map .candidate else none
  | _ => none

/-- The peer connection of the live call takes some of the message. -/
def Takes (c : Calls) (accepts : RemoteInput → Bool) (body : AppBody) : Prop :=
  ∃ live input, c.live = some live ∧ firstInput live body = some input ∧ accepts input = true

/-! ### Who may do what -/

/-- The live call is the sender's, and this one. -/
def IsOf (c : Calls) (sender : String) (callId : FixedBytes 16) : Prop :=
  c.peer = some sender ∧ c.live.map (·.callId) = some callId

/-- A message of a sender about a call has changed the live call only if both are those of the live
call, and no invite but one that is about the call and of the sender. -/
structure Respects (c c' : Calls) (sender : String) (callId : FixedBytes 16) : Prop where
  live : c'.live ≠ c.live ∨ c'.connected ≠ c.connected → c.IsOf sender callId
  invites : ∀ key invite, c.invites.lookup key = some invite →
    c'.invites.lookup key ≠ some invite → invite.peer = sender
  others : ∀ key, key ≠ toHex callId.data → c'.invites.lookup key = c.invites.lookup key

/-- There is no live call to end, or it is this call with the sender. -/
def MayEnd (c : Calls) (sender : String) (callId : FixedBytes 16) : Prop :=
  (c.live = none ∧ c.connected = false) ∨ c.IsOf sender callId

/-- An invite that rings under the id is the sender's. -/
def MayReplace (c : Calls) (sender : String) (callId : FixedBytes 16) : Prop :=
  ∀ invite, c.invites.lookup (toHex callId.data) = some invite → invite.peer = sender

/-- The sender may send the message: an invite that has not expired, under the id of no invite of
another; an answer or candidates of which the peer connection takes some, as the peer of the live call;
an end, a rejection or a cancellation, as the peer of the live call that it names. -/
def Entitled (c : Calls) (sender : String) (now : UInt64) (accepts : RemoteInput → Bool)
    (body : AppBody) : Prop :=
  match body with
  | .callInvite signal expiresAt => expiresAt > now → c.MayReplace sender signal.callId
  | .callAnswer _ | .callIce .. => c.Takes accepts body → c.peer = some sender
  | .callEnd callId => c.MayEnd sender callId
  | .callReject callId | .callCancel callId =>
    c.MayEnd sender callId ∧ c.MayReplace sender callId
  | _ => True

variable {c : Calls} {sender : String} {callId : FixedBytes 16}

theorem Respects.refl (c : Calls) (sender : String) (callId : FixedBytes 16) :
    c.Respects c sender callId where
  live := by rintro (h | h) <;> exact absurd rfl h
  invites _ _ h h' := absurd h h'
  others _ _ := rfl

theorem live_hungUp_iff : (c.hungUp.live ≠ c.live ∨ c.hungUp.connected ≠ c.connected →
    c.IsOf sender callId) ↔ c.MayEnd sender callId := by
  have hsame : ¬(c.hungUp.live ≠ c.live ∨ c.hungUp.connected ≠ c.connected) ↔
      c.live = none ∧ c.connected = false := by
    simp only [hungUp, not_or, not_not, eq_comm]
  rw [MayEnd, ← hsame]
  exact imp_iff_not_or

theorem respects_hungUp_iff : c.Respects c.hungUp sender callId ↔ c.MayEnd sender callId := by
  rw [← live_hungUp_iff]
  constructor
  · exact fun h ↦ h.live
  · exact fun h ↦ ⟨h, fun _ _ h h' ↦ absurd h h', fun _ _ ↦ rfl⟩

/-- What takes the invite under an id away, or puts one of the sender there. -/
theorem invites_iff {c' : Calls} (hothers : ∀ key, key ≠ toHex callId.data →
      c'.invites.lookup key = c.invites.lookup key)
    (hcall : ∀ invite, c'.invites.lookup (toHex callId.data) = some invite →
      invite.peer = sender) :
    (∀ key invite, c.invites.lookup key = some invite → c'.invites.lookup key ≠ some invite →
      invite.peer = sender) ↔ c.MayReplace sender callId := by
  constructor
  · intro h invite hinvite
    by_cases hkept : c'.invites.lookup (toHex callId.data) = some invite
    · exact hcall invite hkept
    · exact h _ invite hinvite hkept
  · intro h key invite hinvite hchanged
    by_cases hkey : key = toHex callId.data
    · rw [hkey] at hinvite
      exact h invite hinvite
    · rw [hothers key hkey] at hchanged
      exact absurd hinvite hchanged

theorem respects_withdrawn_iff : c.Respects (c.hungUp.withdrawn callId) sender callId ↔
    c.MayEnd sender callId ∧ c.MayReplace sender callId := by
  have hothers (key : String) (hkey : key ≠ toHex callId.data) :
      (c.hungUp.withdrawn callId).invites.lookup key = c.invites.lookup key := by
    rw [withdrawn, FiniteMap.lookup_erase_ite, if_neg hkey]
    rfl
  have hcall (invite : PendingInvite)
      (h : (c.hungUp.withdrawn callId).invites.lookup (toHex callId.data) = some invite) :
      invite.peer = sender := by
    rw [withdrawn, FiniteMap.lookup_erase_ite, if_pos rfl] at h
    cases h
  rw [← live_hungUp_iff, ← invites_iff hothers hcall]
  constructor
  · exact fun h ↦ ⟨h.live, h.invites⟩
  · exact fun h ↦ ⟨h.1, h.2, hothers⟩

theorem respects_ringing_iff {invite : PendingInvite} (hpeer : invite.peer = sender)
    (hid : invite.signal.callId = callId) :
    c.Respects (c.ringing invite) sender callId ↔ c.MayReplace sender callId := by
  have hothers (key : String) (hkey : key ≠ toHex callId.data) :
      (c.ringing invite).invites.lookup key = c.invites.lookup key := by
    rw [ringing, FiniteMap.lookup_insert_ite, if_neg (hid ▸ hkey)]
  have hcall (found : PendingInvite)
      (h : (c.ringing invite).invites.lookup (toHex callId.data) = some found) :
      found.peer = sender := by
    rw [ringing, FiniteMap.lookup_insert_ite, if_pos (by rw [hid])] at h
    rw [← Option.some.inj h, hpeer]
  rw [← invites_iff hothers hcall]
  constructor
  · exact fun h ↦ h.invites
  · exact fun h ↦ ⟨by rintro (h | h) <;> exact absurd rfl h, h, hothers⟩

/-- A live call only takes what is about it. -/
theorem Takes.isAbout {accepts : RemoteInput → Bool} {body : AppBody} (hid : body.callId? = some callId)
    (h : c.Takes accepts body) : c.live.map (·.callId) = some callId := by
  obtain ⟨live, input, hlive, hfirst, -⟩ := h
  have hsame : live.callId = callId := by
    cases body with
    | callAnswer signal =>
      simp only [firstInput] at hfirst
      split_ifs at hfirst with h
      exact h.1.symm.trans (Option.some.inj hid)
    | callIce id ice =>
      simp only [firstInput] at hfirst
      split_ifs at hfirst with h
      exact h.1.trans (Option.some.inj hid)
    | _ => cases hfirst
  rw [hlive, Option.map_some, hsame]

/-- A live call that takes something is another one afterwards. -/
theorem respects_fed_iff {taken : List RemoteInput} {connected : Bool} {body : AppBody}
    {accepts : RemoteInput → Bool} (hid : body.callId? = some callId)
    (htaken : taken ≠ [] ↔ c.Takes accepts body) (hwhole : taken = [] → connected = c.connected) :
    c.Respects { c.fed taken with connected } sender callId ↔
      (c.Takes accepts body → c.peer = some sender) := by
  by_cases htakes : c.Takes accepts body
  · obtain ⟨live, -, hlive, -, -⟩ := id htakes
    have hchanged : (c.fed taken).live ≠ c.live := by
      intro h
      rw [fed, hlive, Option.map_some, Option.some.injEq, LiveCall.mk.injEq] at h
      exact htaken.mpr htakes (List.append_right_eq_self.mp h.2)
    constructor
    · exact fun h _ ↦ (h.live (.inl hchanged)).1
    · exact fun h ↦ ⟨fun _ ↦ ⟨h htakes, htakes.isAbout hid⟩, fun _ _ h h' ↦ absurd h h',
        fun _ _ ↦ rfl⟩
  · have hnil : taken = [] := not_not.mp (mt htaken.mp htakes)
    have hsame : { c.fed taken with connected } = c := by
      rw [hnil, hwhole hnil]
      cases c with
      | mk live peer connected invites => cases live <;> simp [fed]
    rw [hsame]
    exact iff_of_true (Respects.refl ..) fun h ↦ absurd h htakes

theorem respects_received_iff {now : UInt64} {accepts : RemoteInput → Bool} {body : AppBody}
    {taken : List RemoteInput} {whole : Bool} (h : body.callId? = some callId)
    (htaken : taken ≠ [] ↔ c.Takes accepts body) (hwhole : taken = [] → whole = false) :
    c.Respects (c.received sender now taken whole body) sender callId ↔
      c.Entitled sender now accepts body := by
  have hid {id : FixedBytes 16} (h : some id = some callId) : id = callId := Option.some.inj h
  cases body with
  | callInvite signal expiresAt =>
    have hsignal : signal.callId = callId := hid h
    simp only [received, Entitled]
    split_ifs with hexpires
    · simp only [hexpires, true_imp_iff, hsignal]
      exact respects_ringing_iff rfl hsignal
    · simp only [hexpires, false_imp_iff, iff_true]
      exact Respects.refl ..
  | callAnswer signal =>
    exact respects_fed_iff h htaken fun hnil ↦ by rw [hwhole hnil, Bool.or_false]
  | callIce id ice => exact respects_fed_iff h htaken fun _ ↦ rfl
  | callRinging id => exact iff_of_true (Respects.refl ..) trivial
  | callEnd id =>
    rw [← hid h]
    exact respects_hungUp_iff
  | callReject id | callCancel id =>
    rw [← hid h]
    exact respects_withdrawn_iff
  | _ => cases h

end Calls

/-! ## What the second pass does with them -/

section

variable {p : Outside} {env : Environment}

/-- The peer connection takes what it is told at an action. -/
def Environment.accepts (env : Environment) (tick : ℕ) (input : RemoteInput) : Bool :=
  (env.media tick input).toOption.isSome

/-! ### What the peer connection is told -/

theorem Calls.fed_nil (c : Calls) : c.fed [] = c := by
  cases c with
  | mk live peer connected invites => cases live <;> simp [fed]

theorem Calls.fed_fed (c : Calls) (taken later : List RemoteInput) :
    (c.fed taken).fed later = c.fed (taken ++ later) := by
  cases c with
  | mk live peer connected invites => cases live <;> simp [fed]

/-- The world after the peer connection has taken something. -/
def World.fed (w : World) (input : RemoteInput) : World :=
  World.ticked { w.ticked with inner := { w.inner with shell := w.inner.shell.feed input } }

theorem World.calls_fed (w : World) (input : RemoteInput) : (w.fed input).calls = w.calls.fed [input] :=
  rfl

theorem run_feed (input : RemoteInput) (w : World) :
    run (inside p env) (feed input) w =
      if env.accepts w.tick input then (.ok (), w.fed input)
      else (match env.media w.tick input with | .ok _ => .ok () | .error e => .error e, w.ticked) := by
  have hmedia : run (inside p env) (Program.act (.media input) : SessionM _) w =
      (.ok (env.media w.tick input), w.ticked) := rfl
  rw [feed, Program.run_bind_of_ok hmedia, run_ofExcept_bind, Environment.accepts]
  cases env.media w.tick input <;> rfl

theorem run_feed_of_accepts {input : RemoteInput} {w : World}
    (h : env.accepts w.tick input = true) :
    run (inside p env) (feed input) w = (.ok (), w.fed input) := by rw [run_feed, if_pos h]

theorem run_feed_of_not {input : RemoteInput} {w : World} (h : ¬env.accepts w.tick input = true) :
    ∃ e, run (inside p env) (feed input) w = (.error e, w.ticked) := by
  rw [run_feed, if_neg h]
  unfold Environment.accepts at h
  cases hmedia : env.media w.tick input with
  | ok answer => exact absurd (by rw [hmedia]; rfl) h
  | error e => exact ⟨e, rfl⟩

/-- Candidates are handed over one after the other, up to the first that is not taken. -/
theorem calls_feedAll (ice : List String) (w : World) :
    ∃ taken, (run (inside p env) (Program.forEach (fun c ↦ feed (.candidate c)) ice) w).2.calls =
        w.calls.fed taken ∧
      (taken ≠ [] ↔ ∃ input, ice.head?.map .candidate = some input ∧
        env.accepts w.tick input = true) := by
  induction ice generalizing w with
  | nil => exact ⟨[], (w.calls.fed_nil).symm, by simp⟩
  | cons c ice ih =>
    have hhead : (∃ input, (c :: ice).head?.map RemoteInput.candidate = some input ∧
        env.accepts w.tick input = true) ↔ env.accepts w.tick (.candidate c) = true := by simp
    rw [hhead]
    by_cases haccepts : env.accepts w.tick (.candidate c) = true
    · obtain ⟨taken, hcalls, -⟩ := ih (w.fed (.candidate c))
      refine ⟨.candidate c :: taken, ?_, iff_of_true (List.cons_ne_nil _ _) haccepts⟩
      have hrun : run (inside p env) (Program.forEach (fun c ↦ feed (.candidate c)) (c :: ice)) w =
          run (inside p env) (Program.forEach (fun c ↦ feed (.candidate c)) ice)
            (w.fed (.candidate c)) := Program.run_bind_of_ok (run_feed_of_accepts haccepts)
      calc
        _ = (w.calls.fed [.candidate c]).fed taken := by rw [hrun, hcalls, World.calls_fed]
        _ = w.calls.fed (.candidate c :: taken) := w.calls.fed_fed _ _
    · obtain ⟨e, hfeed⟩ := @run_feed_of_not p env _ _ haccepts
      have hrun : run (inside p env) (Program.forEach (fun c ↦ feed (.candidate c)) (c :: ice)) w =
          (.error e, w.ticked) := Program.run_bind_of_error hfeed
      refine ⟨[], ?_, iff_of_false (not_not.mpr rfl) haccepts⟩
      rw [hrun, w.calls.fed_nil]
      rfl

theorem calls_addIce (ice : List String) (w : World) :
    ∃ taken, (run (inside p env) (addIce ice) w).2.calls = w.calls.fed taken ∧
      (taken ≠ [] ↔ rejectDirectIce ice = .ok () ∧
        ∃ input, ice.head?.map .candidate = some input ∧ env.accepts w.tick input = true) := by
  rw [addIce, run_ofExcept_bind]
  cases rejectDirectIce ice with
  | error e => exact ⟨[], (w.calls.fed_nil).symm, by simp⟩
  | ok answer =>
    obtain ⟨taken, hcalls, htaken⟩ := @calls_feedAll p env ice w
    exact ⟨taken, hcalls, htaken.trans (and_iff_right rfl).symm⟩

/-- An answer with another fingerprint is not handed over; otherwise the description is, and then the
candidates. -/
theorem calls_applyAnswer (live : LiveCall) (signal : LocalSignal) (w : World) :
    ∃ taken, (run (inside p env) (applyAnswer live signal) w).2.calls = w.calls.fed taken ∧
      (taken ≠ [] ↔ ∃ input, Calls.firstInput live (.callAnswer signal) = some input ∧
        env.accepts w.tick input = true) ∧
      ((run (inside p env) (applyAnswer live signal) w).1 = .ok () → taken ≠ []) := by
  unfold applyAnswer Calls.firstInput
  dsimp only
  by_cases hid : signal.callId = live.callId
  · rw [if_neg (not_not.mpr hid), run_ofExcept_bind]
    cases hverify : verifyFingerprint signal.sdp signal.dtlsFp with
    | error e =>
      rw [if_neg fun h ↦ by cases h.2]
      dsimp only [Except.mapError]
      exact ⟨[], (w.calls.fed_nil).symm, by simp, fun h ↦ by cases h⟩
    | ok answer =>
      rw [if_pos ⟨hid, rfl⟩]
      have hfirst : (∃ input, some (RemoteInput.description signal.sdp) = some input ∧
          env.accepts w.tick input = true) ↔
            env.accepts w.tick (.description signal.sdp) = true := by simp
      rw [hfirst]
      dsimp only [Except.mapError]
      by_cases haccepts : env.accepts w.tick (.description signal.sdp) = true
      · obtain ⟨taken, hcalls, -⟩ :=
          @calls_addIce p env signal.ice (w.fed (.description signal.sdp))
        rw [Program.run_bind_of_ok (run_feed_of_accepts haccepts), hcalls, World.calls_fed,
          Calls.fed_fed]
        exact ⟨_, rfl, iff_of_true (List.cons_ne_nil _ _) haccepts, fun _ ↦ List.cons_ne_nil _ _⟩
      · obtain ⟨e, hfeed⟩ := @run_feed_of_not p env _ _ haccepts
        rw [Program.run_bind_of_error hfeed]
        exact ⟨[], (w.calls.fed_nil).symm, iff_of_false (not_not.mpr rfl) haccepts,
          fun h ↦ by cases h⟩
  · rw [if_pos hid, if_neg fun h ↦ hid h.1]
    exact ⟨[], (w.calls.fed_nil).symm, by simp, fun h ↦ by cases h⟩

theorem Shell.calls_bumpSeq (shell : Shell) (peer : String) :
    (shell.bumpSeq peer).2.calls = shell.calls := rfl

theorem Shell.calls_pushControl (shell : Shell) (convId : String) (convSeq sentAt : UInt64)
    (kind : RowKind) (emoji : String) (target : UInt64) (outgoing : Bool) :
    (shell.pushControl convId convSeq sentAt kind emoji target outgoing).2.calls = shell.calls := by
  simp only [pushControl, pushRow, raiseSeq]
  split <;> rfl

/-- The row about a call leaves the calls as the change does. -/
theorem calls_receiveCall (conv : String) (header : AppHeader) (kind : RowKind)
    (callId : FixedBytes 16) (change : Shell → Shell) (w : World) :
    (run (inside p env) (receiveCall conv header kind callId change) w).2.calls =
      (change w.inner.shell).calls := by
  unfold receiveCall
  rw [run_onShell_bind]
  exact view_run_of_frames (frames_withShell fun s ↦ s.calls_pushControl ..) _

theorem frames_receiveCall (conv : String) (header : AppHeader) (kind : RowKind)
    (callId : FixedBytes 16) :
    Frames Shell.calls (receiveCall conv header kind callId fun shell ↦ shell) :=
  .bind (frames_onShell fun _ ↦ rfl) fun _ ↦ frames_withShell fun s ↦ s.calls_pushControl ..

theorem calls_receiveInvite (conv : String) (header : AppHeader) (signal : LocalSignal)
    (expiresAt : UInt64) (w : World) :
    (run (inside p env) (receiveInvite p conv header signal expiresAt) w).2.calls =
      w.calls.received conv (env.unix w.tick) [] false (.callInvite signal expiresAt) := by
  have hrow : Frames Shell.calls
      (receiveCall conv header .callInvite signal.callId fun shell ↦ shell) :=
    frames_receiveCall ..
  have hring (now : UInt64) : Frames Shell.calls
      (emitCall p conv (.callRinging signal.callId) .callRinging now false) :=
    frames_emitCall _ _ _ _ (fun s ↦ s.calls_bumpSeq conv) fun s _ _ ↦ s.calls_pushControl ..
  unfold receiveInvite
  rw [run_nowUnix_bind]
  dsimp only [Calls.received]
  split_ifs
  · rw [run_onShell_bind]
    exact view_run_of_frames (.bind messaging_nowUnix.frames fun now ↦ .bind (hring now).attempt fun _ ↦ hrow) _
  · exact view_run_of_frames hrow _

theorem calls_receiveAnswer (conv : String) (header : AppHeader) (signal : LocalSignal) (w : World) :
    ∃ taken whole, (run (inside p env) (receiveAnswer conv header signal) w).2.calls =
        w.calls.received conv (env.unix w.tick) taken whole (.callAnswer signal) ∧
      (taken ≠ [] ↔ w.calls.Takes (env.accepts (w.tick + 1)) (.callAnswer signal)) ∧
      (taken = [] → whole = false) := by
  have hrow (v : World) : (run (inside p env)
      (receiveCall conv header .callAnswer signal.callId fun shell ↦ shell) v).2.calls = v.calls :=
    view_run_of_frames (frames_receiveCall ..) v
  unfold receiveAnswer
  rw [run_memory_bind]
  cases hlive : w.inner.shell.liveCall with
  | none =>
    have hnone : w.calls.live = none := hlive
    refine ⟨[], false, ?_, iff_of_false (not_not.mpr rfl) ?_, fun _ ↦ rfl⟩
    · dsimp only
      rw [hrow, Calls.received, Calls.fed_nil, Bool.or_false]
      rfl
    · rintro ⟨live, input, hsome, -⟩
      rw [hnone] at hsome
      cases hsome
  | some live =>
    have hsome : w.calls.live = some live := hlive
    have htakes (taken : List RemoteInput) (h : taken ≠ [] ↔ ∃ input,
        Calls.firstInput live (.callAnswer signal) = some input ∧
          env.accepts (w.tick + 1) input = true) :
        taken ≠ [] ↔ w.calls.Takes (env.accepts (w.tick + 1)) (.callAnswer signal) := by
      rw [h, Calls.Takes, hsome]
      simp only [Option.some.injEq, exists_and_left, exists_eq_left']
    obtain ⟨taken, hcalls, htaken, hwhole⟩ := @calls_applyAnswer p env live signal w.ticked
    dsimp only
    rw [run_bind, Program.run_attempt]
    dsimp only
    generalize run (inside p env) (applyAnswer live signal) w.ticked = applied at hcalls hwhole ⊢
    obtain ⟨answer, w₁⟩ := applied
    cases answer with
    | ok answer =>
      refine ⟨taken, true, ?_, htakes taken htaken, fun hnil ↦ absurd hnil (hwhole rfl)⟩
      have hconnected : ({ w₁.calls with connected := true } : Calls) =
          w.calls.received conv (env.unix w.tick) taken true (.callAnswer signal) := by
        rw [hcalls, Calls.received, Bool.or_true]
        rfl
      dsimp only
      rw [run_onShell_bind, hrow]
      exact hconnected
    | error e =>
      refine ⟨taken, false, ?_, htakes taken htaken, fun _ ↦ rfl⟩
      dsimp only
      rw [hrow, hcalls, Calls.received, Bool.or_false]
      rfl

theorem calls_receiveIce (callId : FixedBytes 16) (ice : List String) (w : World) :
    ∃ taken, (run (inside p env) (receiveIce callId ice) w).2.calls = w.calls.fed taken ∧
      (taken ≠ [] ↔ w.calls.Takes (env.accepts (w.tick + 1)) (.callIce callId ice)) := by
  unfold receiveIce Calls.Takes
  rw [run_memory_bind]
  cases hlive : w.inner.shell.liveCall with
  | none =>
    have hnone : w.calls.live = none := hlive
    refine ⟨[], (w.calls.fed_nil).symm, iff_of_false (not_not.mpr rfl) ?_⟩
    rintro ⟨live, input, hsome, -⟩
    rw [hnone] at hsome
    cases hsome
  | some live =>
    have hsome : w.calls.live = some live := hlive
    dsimp only
    split_ifs with hid
    · obtain ⟨taken, hcalls, htaken⟩ := @calls_addIce p env ice w.ticked
      refine ⟨taken, ?_, ?_⟩
      · rw [run_bind, Program.run_attempt]
        exact hcalls
      · rw [htaken, hsome]
        by_cases hdirect : rejectDirectIce ice = .ok ()
        · simp [Calls.firstInput, hid, hdirect]
          rfl
        · simp [Calls.firstInput, hdirect]
    · refine ⟨[], (w.calls.fed_nil).symm, iff_of_false (not_not.mpr rfl) ?_⟩
      rintro ⟨live', input, hlive', hfirst, -⟩
      cases hsome.symm.trans hlive'
      simp [Calls.firstInput, hid] at hfirst

/-- What a message about a call does to the calls. -/
theorem calls_receiveMessage {peer : IdentityId} {message : AppMessage} {callId : FixedBytes 16}
    (h : message.body.callId? = some callId) (batch : Batch) (w : World) :
    ∃ taken whole, (run (inside p env) (receiveMessage p peer message batch) w).2.calls =
        w.calls.received (toHex peer.data) (env.unix w.tick) taken whole message.body ∧
      (taken ≠ [] ↔ w.calls.Takes (env.accepts (w.tick + 1)) message.body) ∧
      (taken = [] → whole = false) := by
  have hthen {q : SessionM DisplayRow} :
      (run (inside p env) (q >>= fun row ↦ pure (batch.push row)) w).2.calls =
        (run (inside p env) q w).2.calls :=
    view_run_bind (fun row ↦ .pure _) w
  have hnone {body : AppBody} (hfirst : ∀ live, Calls.firstInput live body = none) :
      ([] : List RemoteInput) ≠ [] ↔ w.calls.Takes (env.accepts (w.tick + 1)) body := by
    refine iff_of_false (not_not.mpr rfl) ?_
    rintro ⟨live, input, -, hsome, -⟩
    rw [hfirst] at hsome
    cases hsome
  obtain ⟨header, body⟩ := message
  cases body with
  | callInvite signal expiresAt =>
    exact ⟨[], false, hthen.trans (calls_receiveInvite ..), hnone fun _ ↦ rfl, fun _ ↦ rfl⟩
  | callAnswer signal =>
    obtain ⟨taken, whole, hcalls, htaken⟩ :=
      @calls_receiveAnswer p env (toHex peer.data) header signal w
    exact ⟨taken, whole, hthen.trans hcalls, htaken⟩
  | callRinging id | callEnd id | callReject id | callCancel id =>
    exact ⟨[], false, hthen.trans (calls_receiveCall ..), hnone fun _ ↦ rfl, fun _ ↦ rfl⟩
  | callIce id ice =>
    obtain ⟨taken, hcalls, htaken⟩ := @calls_receiveIce p env id ice w
    refine ⟨taken, false, ?_, htaken, fun _ ↦ rfl⟩
    exact (view_run_bind (fun _ ↦ .pure _) w).trans hcalls
  | _ => cases h

/-- A message about a call leaves the calls of others alone exactly when its sender may send it. -/
theorem call_respected_iff {peer : IdentityId} {message : AppMessage} {callId : FixedBytes 16}
    (h : message.body.callId? = some callId) (batch : Batch) (w : World) :
    w.calls.Respects (run (inside p env) (receiveMessage p peer message batch) w).2.calls
        (toHex peer.data) callId ↔
      w.calls.Entitled (toHex peer.data) (env.unix w.tick) (env.accepts (w.tick + 1))
        message.body := by
  obtain ⟨taken, whole, hcalls, htaken, hwhole⟩ := @calls_receiveMessage p env _ _ _ h batch w
  rw [hcalls]
  exact Calls.respects_received_iff h htaken hwhole

end

/-! ## A call that a stranger ends -/

/-- The client of `World.acquainted`, in a live call with somebody else than its contact. -/
def World.calling : World :=
  { World.acquainted with
    inner := { World.acquainted.inner with
      shell := { Shell.empty with
        liveCall := some ⟨.replicate 16 0, []⟩, callPeer := some (toHex (List.replicate 32 2)),
        callConnected := true } } }

/-- A peer connection that takes whatever it is told. -/
def Environment.taking : Environment := { Environment.silent with media := fun _ _ ↦ .ok () }

/-- A call id and a candidate. -/
def AppMessage.iceOf (callId : FixedBytes 16) : AppMessage :=
  .fresh 1 0 (.callIce callId [candidateOf "relay"])

/-- The calls once a message of a peer is read. -/
def World.callsAfter (peer : IdentityId) (message : AppMessage) : Calls :=
  (run (inside .transparent .taking) (receiveMessage .transparent peer message ⟨[], [], ∅⟩)
    World.calling).2.calls

/-- The peer may end the call, and add a candidate to it; the contact may add one to another call. -/
theorem call_respected_iff_peer :
    World.calling.calls.Respects
        (World.callsAfter (.replicate 32 2) (.fresh 1 0 (.callEnd (.replicate 16 0))))
        (toHex (List.replicate 32 2)) (.replicate 16 0) ∧
      World.calling.calls.Respects
        (World.callsAfter (.replicate 32 2) (.iceOf (.replicate 16 0)))
        (toHex (List.replicate 32 2)) (.replicate 16 0) ∧
      World.calling.calls.Respects
        (World.callsAfter (.replicate 32 1) (.iceOf (.replicate 16 5)))
        (toHex (List.replicate 32 1)) (.replicate 16 5) := by
  refine ⟨(call_respected_iff rfl _ _).mpr (.inr ⟨rfl, rfl⟩),
    (call_respected_iff rfl _ _).mpr fun _ ↦ rfl, (call_respected_iff rfl _ _).mpr ?_⟩
  rintro ⟨live, input, hlive, hfirst, -⟩
  cases hlive
  simp only [AppMessage.iceOf, AppMessage.fresh, Calls.firstInput] at hfirst
  split_ifs at hfirst with h
  exact absurd h.1 (by decide)

/-- The contact ends it too, with whatever call id, and adds a candidate when it has the id. -/
theorem call_not_respected :
    ¬World.calling.calls.Respects
        (World.callsAfter (.replicate 32 1) (.fresh 1 0 (.callEnd (.replicate 16 5))))
        (toHex (List.replicate 32 1)) (.replicate 16 5) ∧
      ¬World.calling.calls.Respects
        (World.callsAfter (.replicate 32 1) (.iceOf (.replicate 16 0)))
        (toHex (List.replicate 32 1)) (.replicate 16 0) := by
  have hstranger : ¬World.calling.calls.peer = some (toHex (List.replicate 32 1)) := by
    decide +kernel
  constructor
  · intro h
    have hended : (World.callsAfter (.replicate 32 1)
        (.fresh 1 0 (.callEnd (.replicate 16 5)))).live.isSome = false := by decide +kernel
    have hlive : World.calling.calls.live.isSome = true := rfl
    refine hstranger (h.live (.inl fun hsame ↦ ?_)).1
    rw [hsame, hlive] at hended
    cases hended
  · intro h
    have hfed : (World.callsAfter (.replicate 32 1)
        (.iceOf (.replicate 16 0))).live.map (·.remote.length) = some 1 := by decide +kernel
    have hbefore : World.calling.calls.live.map (·.remote.length) = some 0 := rfl
    refine hstranger (h.live (.inl fun hsame ↦ ?_)).1
    rw [hsame, hbefore] at hfed
    cases hfed

end NemoMessenger.Client
