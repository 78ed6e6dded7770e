import NemoMessenger.Client.Method

/-!
# Runs of a client

A run is a list of calls on one device. A call runs to its end, whatever it answers, or is cut off
somewhere, which only the vault survives; opening the vault is a call like the others. What a client
was created with stands at the start of a run.
-/

namespace NemoMessenger.Client

open NemoMessenger.Data NemoMessenger.Wire
open Program (act attempt ofExcept forEach fail)

section
variable (p : Outside)

/-! ## Methods -/

/-- `wait_wakeup`. -/
def waitWakeup : SessionM Unit := do
  let frame ← sendHome .wakeup
  if frame = [] then pure () else fail (.text "wakeup frame must be empty")

/-- `apply_expire_inbox`. -/
def expireRows (now : UInt64) : SessionM Unit :=
  onShell fun shell ↦
    { shell with inbox := Shell.expireInbox shell.disappear now shell.inbox }

/-- `open_at`, on the vault of the device. -/
def openAt : ClientM Unit := do
  act .reload
  let inner ← memory
  match inner.session? with
  | none => pure ()
  | some s => ofExcept (p.formats.checkBase s.homeBase)
  let now ← nowUnix
  if inner.shell.inbox.any (Shell.elapsed inner.shell.disappear now) then
    saving (expireRows now)
  match inner.session? with
  | none => pure ()
  | some _ =>
    let _ ← (restockPublishUpto syncPrekeyStock).attempt

/-- The calls on a client. -/
inductive Method
  | openAt
  | identityIdHex
  | fingerprint
  | setPrivacyMode (mode : String)
  | privacyMode
  | takeRevocationMnemonic
  | save
  | register (base : String)
  | restockThread
  | mintShareUri
  | addContact (cardOrUri nickname : String)
  | listContacts
  | setNickname (identityHex nickname : String)
  | sendTextWithReply (peerHex text : String) (replyTo : UInt64)
  | sendFileWithReply (peerHex name mime : String) (bytes : Bytes) (replyTo : UInt64)
  | fetchNow
  | createGroup (nickname : String)
  | mintGroupInvite (groupIdHex : String)
  | mintBoundGroupInvite (groupIdHex identityHex : String)
  | acceptGroupInvite (inviteUri : String)
  | admitJoin (joinRequestUri : String)
  | sendGroupTextWithReply (groupIdHex text : String) (replyTo : UInt64)
  | removeGroupMember (groupIdHex credentialIdHex : String)
  | sendGroupFileWithReply (groupIdHex name mime : String) (bytes : Bytes) (replyTo : UInt64)
  | fetchGroupFile (groupIdHex tokenHex : String)
  | listGroups
  | groupMemberIds (groupIdHex : String)
  | react (convId : String) (target : UInt64) (emoji : String)
  | deleteMessage (convId : String) (target : UInt64)
  | deleteMessageForMe (convId : String) (target : UInt64)
  | setDisappear (convId : String) (seconds : UInt64)
  | disappearSecs (convId : String)
  | expireNow
  | inboxRows
  | ackedUpto (convId : String)
  | readUpto (convId : String)
  | groupView (groupIdHex : String)
  | markRead (convId : String) (upto : UInt64)
  | waitWakeup
  | checkCall
  | startCall (peerHex : String) (offer : LocalSignal)
  | takeInvite (callIdHex : String)
  | answerCall (invite : PendingInvite) (answer : LocalSignal)
  | rejectCall (callIdHex : String)
  | endCall
  | trickle (peerHex : String) (callId : FixedBytes 16) (ice : List String)
  | callState

/-- A call, but for what it answers. -/
def Method.program : Method → ClientM Unit
  | openAt => Client.openAt p
  | identityIdHex => do let _ ← Client.identityIdHex p
  | fingerprint => do let _ ← Client.fingerprint p
  | setPrivacyMode mode => Client.setPrivacyMode p mode
  | privacyMode => do let _ ← Client.privacyMode
  | takeRevocationMnemonic => do let _ ← Client.takeRevocationMnemonic
  | save => Client.save
  | register base => Client.register p base
  | restockThread => Client.restockThread
  | mintShareUri => do let _ ← Client.mintShareUri p
  | addContact cardOrUri nickname => do let _ ← Client.addContact p cardOrUri nickname
  | listContacts => do let _ ← Client.listContacts
  | setNickname identityHex nickname => Client.setNickname identityHex nickname
  | sendTextWithReply peerHex text replyTo => do
    let _ ← Client.sendTextWithReply p peerHex text replyTo
  | sendFileWithReply peerHex name mime bytes replyTo => do
    let _ ← Client.sendFileWithReply p peerHex name mime bytes replyTo
  | fetchNow => do let _ ← Client.fetchNow p
  | createGroup nickname => do let _ ← Client.createGroup p nickname
  | mintGroupInvite groupIdHex => do let _ ← Client.mintGroupInvite p groupIdHex
  | mintBoundGroupInvite groupIdHex identityHex => do
    let _ ← Client.mintBoundGroupInvite p groupIdHex identityHex
  | acceptGroupInvite inviteUri => do let _ ← Client.acceptGroupInvite p inviteUri
  | admitJoin joinRequestUri => do let _ ← Client.admitJoin p joinRequestUri
  | sendGroupTextWithReply groupIdHex text replyTo => do
    let _ ← Client.sendGroupTextWithReply p groupIdHex text replyTo
  | removeGroupMember groupIdHex credentialIdHex =>
    Client.removeGroupMember p groupIdHex credentialIdHex
  | sendGroupFileWithReply groupIdHex name mime bytes replyTo => do
    let _ ← Client.sendGroupFileWithReply p groupIdHex name mime bytes replyTo
  | fetchGroupFile groupIdHex tokenHex => do let _ ← Client.fetchGroupFile p groupIdHex tokenHex
  | listGroups => do let _ ← Client.listGroups
  | groupMemberIds groupIdHex => do let _ ← Client.groupMemberIds groupIdHex
  | react convId target emoji => do let _ ← Client.react p convId target emoji
  | deleteMessage convId target => do let _ ← Client.deleteMessage p convId target
  | deleteMessageForMe convId target => do let _ ← Client.deleteMessageForMe convId target
  | setDisappear convId seconds => do let _ ← Client.setDisappear p convId seconds
  | disappearSecs convId => do let _ ← Client.disappearSecs convId
  | expireNow => do let _ ← Client.expireNow p
  | inboxRows => do let _ ← Client.inboxRows
  | ackedUpto convId => do let _ ← Client.ackedUpto convId
  | readUpto convId => do let _ ← Client.readUpto convId
  | groupView groupIdHex => do let _ ← Client.groupView p groupIdHex
  | markRead convId upto => Client.markRead p convId upto
  | waitWakeup => Client.waitWakeup
  | checkCall => Client.checkCall
  | startCall peerHex offer => do let _ ← Client.startCall p peerHex offer
  | takeInvite callIdHex => do let _ ← Client.takeInvite callIdHex
  | answerCall invite answer => do let _ ← Client.answerCall p invite answer
  | rejectCall callIdHex => do let _ ← Client.rejectCall p callIdHex
  | endCall => do let _ ← Client.endCall p
  | trickle peerHex callId ice => Client.trickle p peerHex callId ice
  | callState => do let _ ← Client.callState

end

/-! ## Calls -/

/-- A state that is out of its place at the end of a call is lost. -/
def World.settle (w : World) : World :=
  if w.taken then { w with inner := { w.inner with state := none }, taken := false } else w

/-- The process ends: of the client, only the vault is left. -/
def World.ended (w : World) : World :=
  { w with inner := Inner.empty none false none, taken := false }

/-- A call that runs to its end, or is cut off after a number of actions. -/
inductive Call
  | done (m : Method)
  | cut (m : Method) (actions : ℕ)

/-- The world after a call. A vault that does not open leaves no client. -/
def World.step (p : Outside) (env : Environment) (w : World) : Call → World
  | .done m =>
    match m, Program.run (device p env) (m.program p) w with
    | .openAt, (.error _, t) => t.ended
    | _, (_, t) => t.settle
  | .cut m n => (Program.cut (device p env) n (m.program p) w).ended

/-- What `create_at` leaves, and writes to the vault. -/
def World.created (install : Installation) (mnemonic : String) : World where
  inner := Inner.empty (some (.local_ install)) true (some mnemonic)
  taken := false
  vault :=
    { installation := install.toSnapshot, mlsStorage := some install.mlsStorage, groups := none,
      home := none, display := none, inbox := none, pendingJoins := none, mintedInvites := none }
  log := []
  bonds := []
  tick := 0

/-! ## Invariants of the methods -/

section

variable {p : Outside} {env : Environment}

/-- The world after an action. -/
def World.after (p : Outside) (env : Environment) (w : World) {β : Type} (action : Act β) : World :=
  (action.effect p env w).2.ticked

/-- The world after a write that was made, or failed. -/
theorem World.after_put (w : World) (entry : Entry) :
    w.after p env (.put entry) = w.ticked ∨
      w.after p env (.put entry) =
        { w with vault := w.vault.put entry, log := w.log ++ [.wrote entry.key],
                 tick := w.tick + 1 } := by
  simp only [World.after, Act.effect]
  cases env.fault w.tick with
  | none => exact .inr rfl
  | some e => exact .inl rfl

/-- A write leaves the memory alone. -/
theorem World.inner_after_put (w : World) (entry : Entry) :
    (w.after p env (.put entry)).inner = w.inner := by
  rcases w.after_put entry with h | h
  · rw [h]
    rfl
  · rw [h]

/-- What the operations on the memory, acks and the writes of a save keep. -/
structure Preserved (p : Outside) (env : Environment) (Inv : World → Prop) : Prop where
  op : ∀ {β : Type} (o : Op β) (w : World), Inv w → Inv (w.after p env (.op o))
  ack : ∀ (origin : String) (cursor : UInt64) (w : World), Inv w →
    Inv (w.after p env (.ack origin cursor))
  put : ∀ (entry : Entry) (w : World), entry ∈ w.inner.writes → Inv w →
    Inv (w.after p env (.put entry))

open Program (Keeps visits_bind)

/-- A part of a method whose answer is not looked at. -/
theorem keeps_discard {Inv : World → Prop} {α : Type} {q : ClientM α}
    (hq : Keeps (device p env) Inv q) : Keeps (device p env) Inv (do let _ ← q) :=
  Keeps.bind hq fun _ ↦ Keeps.pure _

namespace Preserved

variable {Inv : World → Prop} (h : Preserved p env Inv)

include h

/-- A part of a method that neither acks nor saves. -/
theorem inside {α : Type} (q : SessionM α) : Keeps (device p env) Inv (q : ClientM α) :=
  Keeps.hoist (fun o w ↦ h.op o w) q

theorem putEntry {inner : Inner} {entry : Entry} (hentry : entry ∈ inner.writes) :
    Keeps (device p env) (fun w ↦ w.inner = inner ∧ Inv w) (Client.putEntry entry) := by
  refine Keeps.bind (Keeps.act ?_) fun _ ↦ Keeps.ofExcept _
  rintro w ⟨rfl, hw⟩
  exact ⟨w.inner_after_put entry, h.put entry w hentry hw⟩

theorem persist : Keeps (device p env) Inv Client.persist := by
  intro w t hw ht
  rcases visits_bind.mp ht with hread | ⟨inner, w', hrun, hwrite⟩
  · exact h.inside memory w t hw hread
  · have hinner : inner = w.inner := by
      cases hrun
      rfl
    have hw' : w'.inner = inner ∧ Inv w' := by
      cases hrun
      exact ⟨rfl, h.op .memory w hw⟩
    have hkeeps : Keeps (device p env) (fun w ↦ w.inner = inner ∧ Inv w)
        (if inner.vault then
          if inner.state.isSome then forEach Client.putEntry inner.writes
          else fail (.text "busy")
        else pure () : ClientM Unit) := by
      split_ifs
      · exact Keeps.forEach fun entry hentry ↦ h.putEntry hentry
      · exact Keeps.fail _
      · exact Keeps.pure _
    exact (hkeeps w' t hw' hwrite).2

theorem saving {α : Type} (body : SessionM α) :
    Keeps (device p env) Inv (Client.saving body) :=
  Keeps.bind (h.inside body) fun _ ↦ Keeps.bind h.persist fun _ ↦ Keeps.pure _

theorem fetchNow (p' : Outside) : Keeps (device p env) Inv (Client.fetchNow p') := by
  refine Keeps.bind (h.inside _) fun received ↦ Keeps.bind ?_ fun _ ↦ h.saving _
  unfold acknowledge
  split_ifs
  · exact Keeps.bind (h.inside _) fun s ↦
      Keeps.bind (Keeps.act fun w ↦ h.ack s.homeBase s.cursor w) fun _ ↦ Keeps.ofExcept _
  · exact Keeps.pure _

theorem save : Keeps (device p env) Inv Client.save := by
  refine Keeps.bind (h.inside _) fun inner ↦ ?_
  split_ifs
  · exact h.persist
  · exact Keeps.fail _

theorem restockThread : Keeps (device p env) Inv Client.restockThread := by
  refine Keeps.bind (h.inside _) fun before ↦ Keeps.bind (h.inside _) fun done ↦
    Keeps.bind (h.inside _) fun after ↦ ?_
  cases done with
  | error e => exact Keeps.pure _
  | ok _ =>
    simp only
    split_ifs
    · exact Keeps.pure _
    · exact keeps_discard h.persist.attempt

theorem mintShareUri (p' : Outside) : Keeps (device p env) Inv (Client.mintShareUri p') :=
  Keeps.bind (h.saving _) fun _ ↦ Keeps.bind (Keeps.ofExcept _) fun _ ↦ Keeps.pure _

theorem mintInvite (p' : Outside) (groupIdHex : String) (bindIdentity : Option IdentityId) :
    Keeps (device p env) Inv (Client.mintInvite p' groupIdHex bindIdentity) := h.saving _

theorem deleteMessage (p' : Outside) (convId : String) (target : UInt64) :
    Keeps (device p env) Inv (Client.deleteMessage p' convId target) :=
  Keeps.bind (h.inside _) fun _ ↦ Keeps.bind (h.saving _) fun _ ↦
    Keeps.bind (Keeps.ofExcept _) fun _ ↦ Keeps.pure _

theorem markGroupRead (p' : Outside) (groupIdHex : String) (upto now : UInt64) :
    Keeps (device p env) Inv (Client.markGroupRead p' groupIdHex upto now) := by
  refine Keeps.bind (h.inside _) fun inner ↦ ?_
  dsimp only
  split_ifs
  · exact Keeps.pure _
  · refine Keeps.bind (h.inside _) fun _ ↦ Keeps.bind (h.inside _) fun found ↦
      Keeps.bind (h.inside _) fun _ ↦ ?_
    split_ifs
    · exact Keeps.pure _
    · exact Keeps.bind (h.inside _) fun _ ↦ Keeps.bind (h.inside _) fun _ ↦
        Keeps.bind (h.inside _) fun _ ↦ Keeps.bind (h.inside _) fun _ ↦
        Keeps.bind (h.inside _) fun _ ↦ Keeps.bind (Keeps.ofExcept _) fun _ ↦
        Keeps.bind (h.inside _) fun _ ↦ h.persist

theorem markRead (p' : Outside) (convId : String) (upto : UInt64) :
    Keeps (device p env) Inv (Client.markRead p' convId upto) := by
  refine Keeps.bind (h.inside _) fun _ ↦ Keeps.bind (h.inside _) fun _ ↦
    Keeps.bind (h.inside _) fun inner ↦ ?_
  split_ifs
  · exact h.markGroupRead p' _ _ _
  · exact h.inside _

/-- What the operations, acks and saves keep, a call keeps that neither opens the vault nor changes
the home. -/
theorem method (m : Method) (hopen : m ≠ .openAt) (hregister : ∀ base, m ≠ .register base) :
    Keeps (device p env) Inv (m.program p) := by
  cases m with
  | openAt => exact absurd rfl hopen
  | register base => exact absurd rfl (hregister base)
  | save => exact h.save
  | restockThread => exact h.restockThread
  | fetchNow => exact keeps_discard (h.fetchNow p)
  | mintShareUri => exact keeps_discard (h.mintShareUri p)
  | mintGroupInvite => exact keeps_discard (h.mintInvite p _ _)
  | mintBoundGroupInvite =>
    exact keeps_discard (Keeps.bind (h.inside _) fun _ ↦ h.mintInvite p _ _)
  | deleteMessage => exact keeps_discard (h.deleteMessage p _ _)
  | markRead => exact h.markRead p _ _
  | setPrivacyMode => exact h.saving _
  | setNickname => exact h.saving _
  | removeGroupMember => exact h.saving _
  | addContact => exact keeps_discard (h.saving _)
  | sendTextWithReply => exact keeps_discard (h.saving _)
  | sendFileWithReply => exact keeps_discard (h.saving _)
  | createGroup => exact keeps_discard (h.saving _)
  | acceptGroupInvite => exact keeps_discard (h.saving _)
  | admitJoin => exact keeps_discard (h.saving _)
  | sendGroupTextWithReply => exact keeps_discard (h.saving _)
  | sendGroupFileWithReply => exact keeps_discard (h.saving _)
  | react => exact keeps_discard (h.saving _)
  | deleteMessageForMe => exact keeps_discard (h.saving _)
  | setDisappear => exact keeps_discard (h.saving _)
  | expireNow => exact keeps_discard (h.saving _)
  | waitWakeup => exact h.inside _
  | checkCall => exact h.inside _
  | trickle => exact h.inside _
  | _ => exact keeps_discard (h.inside _)

end Preserved

end

end NemoMessenger.Client
