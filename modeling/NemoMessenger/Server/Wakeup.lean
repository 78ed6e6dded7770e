import NemoMessenger.Server.MailboxLog

/-!
# The wake-up sockets

An owner keeps a socket open on which the server sends an empty frame when there is something new in
the mailbox. The loop of a socket first has itself notified, then looks at the mailbox, and then
blocks; requests notify all sockets once they are answered. The steps of the loops, of the requests
and of the clock come in any order.
-/

namespace NemoMessenger.Server

open NemoMessenger.Data NemoMessenger.Wire

/-- `WAKE_COALESCE`, in milliseconds. -/
def wakeCoalesceMs : ℕ := 10000

/-! ## Sockets -/

/-- How far a pass through the loop of `run_wakeup` has come. -/
inductive Pass
  | armed
  | looked
  | sending
  | blocked
  deriving DecidableEq

/-- The variables of `run_wakeup`: `notified` is whether its future has completed, and `checked` is
when `last_wake.elapsed()` was read. -/
structure WakeSocket where
  owner : IdentityId
  lastSeen : ℕ
  lastWake : ℤ
  head : ℕ
  checked : ℕ
  notified : Bool
  pass : Pass
  deriving DecidableEq

namespace WakeSocket

/-- The variables before the loop. -/
def start (owner : IdentityId) (cursor clock : ℕ) : WakeSocket where
  owner := owner
  lastSeen := cursor
  lastWake := clock - wakeCoalesceMs
  head := 0
  checked := 0
  notified := false
  pass := .armed

/-- The start of a pass: a new future is enabled. -/
def arm (sock : WakeSocket) : WakeSocket := { sock with notified := false, pass := .armed }

/-- The head of the mailbox is read under the lock of the home server. -/
def look (home : HomeServer) (sock : WakeSocket) : WakeSocket :=
  { sock with head := home.mailboxHead sock.owner, pass := .looked }

/-- A frame is due. -/
def Due (clock : ℕ) (sock : WakeSocket) : Prop :=
  sock.head > sock.lastSeen ∧ clock - sock.lastWake ≥ wakeCoalesceMs

instance (clock : ℕ) (sock : WakeSocket) : Decidable (sock.Due clock) :=
  inferInstanceAs (Decidable (_ ∧ _))

/-- The test in front of `ws.send`. -/
def check (clock : ℕ) (sock : WakeSocket) : WakeSocket :=
  { sock with checked := clock, pass := if sock.Due clock then .sending else .blocked }

/-- The frame has been sent. -/
def settle (clock : ℕ) (sock : WakeSocket) : WakeSocket :=
  { sock with lastSeen := sock.head, lastWake := clock, pass := .blocked }

end WakeSocket

/-- A frame that was sent: when the test in front of it was made, when it was on its way, and the
head it reports. -/
structure WakeFrame where
  conn : ℕ
  owner : IdentityId
  begun : ℕ
  done : ℕ
  head : ℕ

/-- The server with its sockets. `told` is the home server as it was at the last notification. -/
structure Wakeups where
  home : HomeServer
  clock : ℕ
  opened : ℕ
  sockets : FiniteMap ℕ WakeSocket
  told : HomeServer
  frames : List WakeFrame

/-- A server without sockets. -/
def Wakeups.start (home : HomeServer) (clock : ℕ) : Wakeups := ⟨home, clock, 0, ∅, home, []⟩

/-- What happens: a request or a frame changes the home server, `notify_waiters` is called, time
passes, a socket is opened, or one of them takes a step. -/
inductive WakeStep
  | home (op : HomeOp)
  | notify
  | tick (ms : ℕ)
  | connect (owner : IdentityId) (cursor : ℕ)
  | look (conn : ℕ)
  | check (conn : ℕ)
  | sent (conn : ℕ) (ok : Bool)
  | receive (conn : ℕ) (goesOn : Bool)
  | wake (conn : ℕ)

namespace Wakeups

/-- Replace the socket of a connection. -/
def put (s : Wakeups) (conn : ℕ) (sock : WakeSocket) : Wakeups :=
  { s with sockets := s.sockets.insert conn sock }

/-- The socket of a connection, if its loop is at this point of a pass. -/
def at_ (s : Wakeups) (conn : ℕ) (pass : Pass) : Option WakeSocket :=
  (s.sockets.lookup conn).filter (·.pass = pass)

end Wakeups

/-- The state after a step; a loop takes only the step it has come to. -/
def WakeStep.apply (crypto : Crypto) (s : Wakeups) : WakeStep → Wakeups
  | home op => { s with home := op.apply crypto s.home }
  | notify =>
    { s with
      told := s.home
      sockets := FiniteMap.filterMap (fun _ sock ↦ some { sock with notified := true }) s.sockets }
  | tick ms => { s with clock := s.clock + ms }
  | connect owner cursor =>
    { s with
      opened := s.opened + 1
      sockets := s.sockets.insert s.opened (.start owner cursor s.clock) }
  | look conn =>
    match s.at_ conn .armed with
    | none => s
    | some sock => s.put conn (sock.look s.home)
  | check conn =>
    match s.at_ conn .looked with
    | none => s
    | some sock => s.put conn (sock.check s.clock)
  | sent conn ok =>
    match s.at_ conn .sending with
    | none => s
    | some sock =>
      if ok then
        { s.put conn (sock.settle s.clock) with
          frames := s.frames ++ [⟨conn, sock.owner, sock.checked, s.clock, sock.head⟩] }
      else { s with sockets := s.sockets.erase conn }
  | receive conn goesOn =>
    match s.at_ conn .blocked with
    | none => s
    | some sock =>
      if goesOn then s.put conn sock.arm else { s with sockets := s.sockets.erase conn }
  | wake conn =>
    match s.at_ conn .blocked with
    | none => s
    | some sock => if sock.notified then s.put conn sock.arm else s

/-! ## What a socket knows -/

/-- What holds of a socket at each point of its pass. -/
structure WakeSocket.Attentive (home told : HomeServer) (clock : ℕ) (sock : WakeSocket) : Prop where
  wakes : sock.lastWake ≤ clock
  checks : sock.pass ≠ .armed → sock.pass ≠ .looked → sock.checked ≤ clock
  heads : sock.pass ≠ .armed → sock.head ≤ home.mailboxHead sock.owner
  hears : sock.pass ≠ .armed → sock.notified = true ∨ told.mailboxHead sock.owner ≤ sock.head
  sends : sock.pass = .sending → sock.Due sock.checked
  waits : sock.pass = .blocked → sock.head ≤ sock.lastSeen ∨
    sock.lastSeen < sock.head ∧ sock.checked - sock.lastWake < wakeCoalesceMs

/-- What holds of the frames a connection has sent, as far as its socket goes. -/
def WakeFrame.Behind (conn : ℕ) (sock : WakeSocket) (frame : WakeFrame) : Prop :=
  frame.conn = conn → frame.done ≤ sock.lastWake ∧ frame.head ≤ sock.lastSeen

/-- The second frame comes later, and reports more. -/
def WakeFrame.Spaced (frame later : WakeFrame) : Prop :=
  frame.conn = later.conn → frame.done + wakeCoalesceMs ≤ later.begun ∧ frame.head < later.head

/-- The invariant of the server with its sockets. -/
structure Wakeups.Watchful (s : Wakeups) : Prop where
  told : ∀ owner, s.told.mailboxHead owner ≤ s.home.mailboxHead owner
  sockets : ∀ conn sock, s.sockets.lookup conn = some sock →
    conn < s.opened ∧ sock.Attentive s.home s.told s.clock ∧ ∀ frame ∈ s.frames, frame.Behind conn sock
  frames : ∀ frame ∈ s.frames, frame.conn < s.opened ∧ frame.begun ≤ frame.done ∧
    frame.done ≤ s.clock ∧ frame.head ≤ s.home.mailboxHead frame.owner
  spaced : s.frames.Pairwise WakeFrame.Spaced

section Step

variable {crypto : Crypto} {s : Wakeups} {conn : ℕ} {sock : WakeSocket} {pass : Pass}

/-- No operation of the home server lowers the head of a mailbox. -/
theorem mailboxHead_le_apply (home : HomeServer) (op : HomeOp) (owner : IdentityId) :
    home.mailboxHead owner ≤ (op.apply crypto home).mailboxHead owner := by
  have hedits := HomeOp.apply_edits crypto .none home op (op.meets_none crypto home)
  unfold HomeServer.mailboxHead
  cases hbox : home.mailboxes.lookup owner with
  | none => exact Nat.zero_le _
  | some box =>
    obtain ⟨box', hbox', hle⟩ := hedits.nextSeq_le hbox
    rw [hbox']
    exact Nat.sub_le_sub_right hle 1

theorem Wakeups.lookup_of_at {sock : WakeSocket} (h : s.at_ conn pass = some sock) :
    s.sockets.lookup conn = some sock ∧ sock.pass = pass := by
  obtain ⟨hsock, hpass⟩ := Option.filter_eq_some_iff.mp h
  exact ⟨hsock, of_decide_eq_true hpass⟩

/-- A socket is replaced, without a frame. -/
theorem Wakeups.Watchful.put (h : s.Watchful) (hsock : s.sockets.lookup conn = some sock)
    {sock' : WakeSocket} (hwake : sock'.lastWake = sock.lastWake)
    (hseen : sock'.lastSeen = sock.lastSeen) (hnew : sock'.Attentive s.home s.told s.clock) :
    (s.put conn sock').Watchful where
  told := h.told
  sockets c other hother := by
    rw [Wakeups.put, FiniteMap.lookup_insert_ite] at hother
    split_ifs at hother with hc
    · cases hother
      subst hc
      obtain ⟨hopened, -, hframes⟩ := h.sockets c sock hsock
      refine ⟨hopened, hnew, fun frame hframe ↦ ?_⟩
      unfold WakeFrame.Behind
      rw [hwake, hseen]
      exact hframes frame hframe
    · exact h.sockets c other hother
  frames := h.frames
  spaced := h.spaced

theorem Wakeups.Watchful.erase (h : s.Watchful) (conn : ℕ) :
    ({ s with sockets := s.sockets.erase conn } : Wakeups).Watchful where
  told := h.told
  sockets c other hother := by
    dsimp only at hother
    rw [FiniteMap.lookup_erase_ite] at hother
    split_ifs at hother with hc
    exact h.sockets c other hother
  frames := h.frames
  spaced := h.spaced

namespace WakeSocket

variable {home told : HomeServer} {clock : ℕ}

theorem attentive_start (owner : IdentityId) (cursor : ℕ) :
    (start owner cursor clock).Attentive home told clock where
  wakes := Int.sub_le_self _ (by decide)
  checks h := absurd rfl h
  heads h := absurd rfl h
  hears h := absurd rfl h
  sends h := nomatch h
  waits h := nomatch h

theorem Attentive.arm (h : sock.Attentive home told clock) : sock.arm.Attentive home told clock where
  wakes := h.wakes
  checks hne := absurd rfl hne
  heads hne := absurd rfl hne
  hears hne := absurd rfl hne
  sends hpass := nomatch hpass
  waits hpass := nomatch hpass

theorem Attentive.look (h : sock.Attentive home told clock)
    (htold : told.mailboxHead sock.owner ≤ home.mailboxHead sock.owner) :
    (sock.look home).Attentive home told clock where
  wakes := h.wakes
  checks _ hne := absurd rfl hne
  heads _ := le_rfl
  hears _ := .inr htold
  sends hpass := nomatch hpass
  waits hpass := nomatch hpass

theorem Attentive.check (h : sock.Attentive home told clock) (hpass : sock.pass = .looked) :
    (sock.check clock).Attentive home told clock := by
  have harmed : sock.pass ≠ .armed := by
    rw [hpass]
    nofun
  refine ⟨h.wakes, fun _ _ ↦ le_rfl, fun _ ↦ h.heads harmed, fun _ ↦ h.hears harmed, fun hsend ↦ ?_,
    fun hblocked ↦ ?_⟩
  · by_contra hdue
    have hnot : ¬sock.Due clock := hdue
    rw [WakeSocket.check, if_neg hnot] at hsend
    cases hsend
  · have hnot : ¬sock.Due clock := by
      intro hdue
      rw [WakeSocket.check, if_pos hdue] at hblocked
      cases hblocked
    rw [Due, not_and_or] at hnot
    change sock.head ≤ sock.lastSeen ∨
      sock.lastSeen < sock.head ∧ (clock : ℤ) - sock.lastWake < wakeCoalesceMs
    rcases hnot with hseen | hearly
    · exact .inl (Nat.not_lt.mp hseen)
    · rcases Nat.lt_or_ge sock.lastSeen sock.head with hlt | hge
      · exact .inr ⟨hlt, Int.not_le.mp hearly⟩
      · exact .inl hge

theorem Attentive.settle (h : sock.Attentive home told clock) (hpass : sock.pass = .sending) :
    (sock.settle clock).Attentive home told clock := by
  have harmed : sock.pass ≠ .armed := by
    rw [hpass]
    nofun
  have hlooked : sock.pass ≠ .looked := by
    rw [hpass]
    nofun
  exact ⟨le_rfl, fun _ _ ↦ h.checks harmed hlooked, fun _ ↦ h.heads harmed, fun _ ↦ h.hears harmed,
    nofun, fun _ ↦ .inl le_rfl⟩

end WakeSocket

theorem Wakeups.Watchful.home (h : s.Watchful) (op : HomeOp) :
    ({ s with home := op.apply crypto s.home } : Wakeups).Watchful where
  told owner := (h.told owner).trans (mailboxHead_le_apply s.home op owner)
  sockets conn sock hsock := by
    obtain ⟨hopened, hold, hframes⟩ := h.sockets conn sock hsock
    refine ⟨hopened, { hold with heads := fun harmed ↦ ?_ }, hframes⟩
    exact (hold.heads harmed).trans (mailboxHead_le_apply s.home op sock.owner)
  frames frame hframe := by
    obtain ⟨hopened, hbegun, hdone, hhead⟩ := h.frames frame hframe
    exact ⟨hopened, hbegun, hdone, hhead.trans (mailboxHead_le_apply s.home op frame.owner)⟩
  spaced := h.spaced

theorem Wakeups.Watchful.notify (h : s.Watchful) :
    (WakeStep.notify.apply crypto s).Watchful where
  told _ := le_rfl
  sockets conn sock hsock := by
    dsimp only [WakeStep.apply] at hsock
    rw [FiniteMap.lookup_filterMap] at hsock
    obtain ⟨old, hold, heq⟩ := Option.bind_eq_some_iff.mp hsock
    cases heq
    obtain ⟨hopened, hatt, hframes⟩ := h.sockets conn old hold
    exact ⟨hopened, ⟨hatt.wakes, hatt.checks, hatt.heads, fun _ ↦ .inl rfl, hatt.sends, hatt.waits⟩,
      hframes⟩
  frames := h.frames
  spaced := h.spaced

theorem Wakeups.Watchful.tick (h : s.Watchful) (ms : ℕ) :
    ({ s with clock := s.clock + ms } : Wakeups).Watchful where
  told := h.told
  sockets conn sock hsock := by
    obtain ⟨hopened, hold, hframes⟩ := h.sockets conn sock hsock
    refine ⟨hopened, { hold with wakes := ?_, checks := fun harmed hlooked ↦ ?_ }, hframes⟩
    · exact hold.wakes.trans (Int.ofNat_le.mpr (Nat.le_add_right _ _))
    · exact (hold.checks harmed hlooked).trans (Nat.le_add_right _ _)
  frames frame hframe := by
    obtain ⟨hopened, hbegun, hdone, hhead⟩ := h.frames frame hframe
    exact ⟨hopened, hbegun, hdone.trans (Nat.le_add_right _ _), hhead⟩
  spaced := h.spaced

theorem Wakeups.Watchful.connect (h : s.Watchful) (owner : IdentityId) (cursor : ℕ) :
    ((WakeStep.connect owner cursor).apply crypto s).Watchful where
  told := h.told
  sockets conn sock hsock := by
    dsimp only [WakeStep.apply] at hsock
    rw [FiniteMap.lookup_insert_ite] at hsock
    split_ifs at hsock with hconn
    · cases hsock
      refine ⟨hconn ▸ Nat.lt_succ_self _, WakeSocket.attentive_start owner cursor, ?_⟩
      intro frame hframe hsame
      have hopened := (h.frames frame hframe).1
      omega
    · obtain ⟨hopened, hold, hframes⟩ := h.sockets conn sock hsock
      exact ⟨hopened.trans (Nat.lt_succ_self _), hold, hframes⟩
  frames frame hframe := by
    obtain ⟨hopened, hrest⟩ := h.frames frame hframe
    exact ⟨hopened.trans (Nat.lt_succ_self _), hrest⟩
  spaced := h.spaced

/-- A frame is sent: it comes after those the connection has sent before. -/
theorem Wakeups.Watchful.settle (h : s.Watchful) (hsock : s.sockets.lookup conn = some sock)
    (hpass : sock.pass = .sending) :
    ({ s.put conn (sock.settle s.clock) with
        frames := s.frames ++ [⟨conn, sock.owner, sock.checked, s.clock, sock.head⟩] } :
      Wakeups).Watchful := by
  obtain ⟨hopened, hatt, hframes⟩ := h.sockets conn sock hsock
  have harmed : sock.pass ≠ .armed := by
    rw [hpass]
    nofun
  have hlooked : sock.pass ≠ .looked := by
    rw [hpass]
    nofun
  obtain ⟨hmore, hlate⟩ := hatt.sends hpass
  refine ⟨h.told, fun c other hother ↦ ?_, fun frame hframe ↦ ?_, ?_⟩
  · dsimp only [Wakeups.put] at hother
    rw [FiniteMap.lookup_insert_ite] at hother
    split_ifs at hother with hc
    · cases hother
      subst hc
      refine ⟨hopened, hatt.settle hpass, fun frame hframe hsame ↦ ?_⟩
      rcases List.mem_append.mp hframe with hold | hlast
      · have hbehind := hframes frame hold hsame
        exact ⟨hbehind.1.trans hatt.wakes, hbehind.2.trans hmore.le⟩
      · obtain rfl := List.mem_singleton.mp hlast
        exact ⟨le_rfl, le_rfl⟩
    · obtain ⟨hopened', hatt', hframes'⟩ := h.sockets c other hother
      refine ⟨hopened', hatt', fun frame hframe hsame ↦ ?_⟩
      rcases List.mem_append.mp hframe with hold | hlast
      · exact hframes' frame hold hsame
      · obtain rfl := List.mem_singleton.mp hlast
        exact absurd hsame.symm hc
  · rcases List.mem_append.mp hframe with hold | hlast
    · exact h.frames frame hold
    · obtain rfl := List.mem_singleton.mp hlast
      exact ⟨hopened, hatt.checks harmed hlooked, le_rfl, hatt.heads harmed⟩
  · refine List.pairwise_append.mpr ⟨h.spaced, List.pairwise_singleton _ _, ?_⟩
    intro frame hframe last hlast hsame
    obtain rfl := List.mem_singleton.mp hlast
    obtain ⟨hdone, hhead⟩ := hframes frame hframe hsame
    refine ⟨?_, hhead.trans_lt hmore⟩
    dsimp only
    omega

theorem watchful_apply (h : s.Watchful) (step : WakeStep) : (step.apply crypto s).Watchful := by
  cases step with
  | home op => exact h.home op
  | notify => exact h.notify
  | tick ms => exact h.tick ms
  | connect owner cursor => exact h.connect owner cursor
  | look conn =>
    dsimp only [WakeStep.apply]
    split
    · exact h
    · rename_i sock hat
      obtain ⟨hsock, -⟩ := Wakeups.lookup_of_at hat
      exact h.put hsock rfl rfl ((h.sockets conn sock hsock).2.1.look (h.told sock.owner))
  | check conn =>
    dsimp only [WakeStep.apply]
    split
    · exact h
    · rename_i sock hat
      obtain ⟨hsock, hpass⟩ := Wakeups.lookup_of_at hat
      exact h.put hsock rfl rfl ((h.sockets conn sock hsock).2.1.check hpass)
  | sent conn ok =>
    dsimp only [WakeStep.apply]
    split
    · exact h
    · rename_i sock hat
      obtain ⟨hsock, hpass⟩ := Wakeups.lookup_of_at hat
      split_ifs
      · exact h.settle hsock hpass
      · exact h.erase conn
  | receive conn goesOn =>
    dsimp only [WakeStep.apply]
    split
    · exact h
    · rename_i sock hat
      obtain ⟨hsock, -⟩ := Wakeups.lookup_of_at hat
      split_ifs
      · exact h.put hsock rfl rfl (h.sockets conn sock hsock).2.1.arm
      · exact h.erase conn
  | wake conn =>
    dsimp only [WakeStep.apply]
    split
    · exact h
    · rename_i sock hat
      obtain ⟨hsock, -⟩ := Wakeups.lookup_of_at hat
      split_ifs
      · exact h.put hsock rfl rfl (h.sockets conn sock hsock).2.1.arm
      · exact h

end Step

/-! ## Runs -/

theorem watchful_start (home : HomeServer) (clock : ℕ) : (Wakeups.start home clock).Watchful where
  told _ := le_rfl
  sockets _ _ hsock := nomatch hsock
  frames _ hframe := nomatch hframe
  spaced := .nil

theorem watchful_run (crypto : Crypto) (home : HomeServer) (clock : ℕ) (steps : List WakeStep) :
    (run (WakeStep.apply crypto) (.start home clock) steps).Watchful :=
  run_keeps Wakeups.Watchful (fun _ step h ↦ watchful_apply h step) (watchful_start home clock) steps

/-- A socket that blocks without a notification under way has looked at the mailbox after the last
notification. What was new then has been reported, unless the last look came less than
`WAKE_COALESCE` after the last frame. -/
theorem looked_of_blocked (crypto : Crypto) (home : HomeServer) (clock : ℕ) (steps : List WakeStep)
    (conn : ℕ) (sock : WakeSocket) :
    let s := run (WakeStep.apply crypto) (.start home clock) steps
    s.sockets.lookup conn = some sock → sock.pass = .blocked → sock.notified = false →
      s.told.mailboxHead sock.owner ≤ sock.head ∧
        sock.head ≤ s.home.mailboxHead sock.owner ∧
        (sock.head ≤ sock.lastSeen ∨
          sock.lastSeen < sock.head ∧ sock.checked - sock.lastWake < wakeCoalesceMs) := by
  intro s hsock hpass hquiet
  have harmed : sock.pass ≠ .armed := by
    rw [hpass]
    nofun
  obtain ⟨-, hatt, -⟩ := (watchful_run crypto home clock steps).sockets conn sock hsock
  refine ⟨?_, hatt.heads harmed, hatt.waits hpass⟩
  rcases hatt.hears harmed with hnotified | htold
  · rw [hquiet] at hnotified
    cases hnotified
  · exact htold

set_option maxRecDepth 100000 in
/-- A socket that was told of the first row of its mailbox blocks again. -/
theorem looked_of_blocked_registered :
    let key : Key := .replicate 32 1
    let home := run (HomeOp.apply .transparent) (.new .transparent ⟨key, key⟩ key)
      [.register key key, .mintContactCapability key key]
    let s := run (WakeStep.apply .transparent) (.start home 60000)
      [.connect key 0, .home (.appendInner (.blank key key)), .notify, .look 0, .check 0,
        .sent 0 true, .wake 0, .look 0, .check 0]
    s.told.mailboxHead key ≤ 1 ∧ 1 ≤ s.home.mailboxHead key ∧
      (1 ≤ 1 ∨ 1 < 1 ∧ (60000 : ℤ) - 60000 < wakeCoalesceMs) := by
  intro key home s
  exact looked_of_blocked .transparent home 60000
    [.connect key 0, .home (.appendInner (.blank key key)), .notify, .look 0, .check 0,
      .sent 0 true, .wake 0, .look 0, .check 0] 0
    ⟨key, 1, 60000, 1, 60000, false, .blocked⟩ (by decide +kernel) rfl rfl

/-- Two frames of one connection are `WAKE_COALESCE` apart, and each reports rows that are in the
mailbox and that no frame before it reported. -/
theorem frames_spaced (crypto : Crypto) (home : HomeServer) (clock : ℕ) (steps : List WakeStep) :
    let s := run (WakeStep.apply crypto) (.start home clock) steps
    s.frames.Pairwise (fun frame later ↦ frame.conn = later.conn →
        frame.done + wakeCoalesceMs ≤ later.begun ∧ frame.head < later.head) ∧
      ∀ frame ∈ s.frames, frame.begun ≤ frame.done ∧ frame.done ≤ s.clock ∧
        frame.head ≤ s.home.mailboxHead frame.owner := by
  intro s
  have hwatchful := watchful_run crypto home clock steps
  exact ⟨hwatchful.spaced, fun frame hframe ↦ (hwatchful.frames frame hframe).2⟩

end NemoMessenger.Server
