import NemoMessenger.Client.Edit
import NemoMessenger.Client.Run
import NemoMessenger.Data.Run

/-!
# Watching the conversations

A method is composed of parts that change the shell by functions of a class, of saves, and of actions
that touch neither the shell nor the vault. What these keep, the method keeps; a record may be kept
beside the world, which notes what an action does.
-/

namespace NemoMessenger.Client

open NemoMessenger.Data NemoMessenger.Wire
open Program (Keeps run act attempt ofExcept forEach fail)

/-! ## Composition -/

/-- The action touches neither the shell nor the vault. -/
def Act.Apart : {β : Type} → Act β → Prop
  | _, op _ | _, put _ | _, reload => False
  | _, _ => True

/-- The program is composed of parts that change the shell by functions of a class, and of saves. -/
inductive Composed (K : (Shell → Shell) → Prop) : {α : Type} → ClientM α → Prop
  | inside {α : Type} {q : SessionM α} (h : Within K q) : Composed K (q.hoist Act.op)
  | persist : Composed K Client.persist
  | apart {β : Type} {action : Act β} (h : action.Apart) : Composed K (act action)
  | reload : Composed K (act .reload)
  | ofExcept {α : Type} (x : Except CoreError α) : Composed K (ofExcept x)
  | bind {α β : Type} {q : ClientM α} {f : α → ClientM β} (hq : Composed K q)
    (hf : ∀ a, Composed K (f a)) : Composed K (q >>= f)
  | attempt {α : Type} {q : ClientM α} (hq : Composed K q) : Composed K q.attempt

namespace Composed

variable {p : Outside} {K : (Shell → Shell) → Prop} {α β : Type}

theorem pure (a : α) : Composed K (Pure.pure a : ClientM α) := .ofExcept (.ok a)

theorem fail (e : CoreError) : Composed K (Program.fail e : ClientM α) := .ofExcept (.error e)

theorem saving {body : SessionM α} (h : Within K body) : Composed K (Client.saving body) :=
  .bind (.inside h) fun _ ↦ .bind .persist fun _ ↦ .pure _

/-- A part of a method whose answer is not looked at. -/
theorem discard {q : ClientM α} (h : Composed K q) : Composed K (do let _ ← q) :=
  .bind h fun _ ↦ .pure _

end Composed

/-! ## The methods -/

section

variable {p : Outside} {a e : Prop} {K : (Shell → Shell) → Prop}

/-- The method appends rows under numbers it has taken up before. -/
def Method.Appends : Method → Prop
  | sendTextWithReply .. | sendGroupTextWithReply .. | sendGroupFileWithReply .. | react .. => True
  | _ => False

theorem composed_sendTextWithReply (ha : a) (peerHex text : String) (replyTo : UInt64) :
    Composed (Shell.Change a e) (sendTextWithReply p peerHex text replyTo) :=
  .saving <| .bind (.ofExcept _) fun _ ↦ .bind silent_nowUnix fun _ ↦
    .bind (edits_bumpSeq _) fun _ ↦ .bind (.ofExcept _) fun _ ↦ .bind silent_memory fun _ ↦
    .bind (silent_sendVia ..) fun _ ↦ .bind (edits_ensureIntroSent _ _).attempt fun _ ↦
    .bind (edits_sendCachedBindingGossip _ _).attempt fun _ ↦
    .bind (edits_pushOutgoing ha ⟨rfl, rfl⟩) fun _ ↦ .pure _

theorem composed_sendFileWithReply (peerHex name mime : String) (bytes : Bytes)
    (replyTo : UInt64) :
    Composed (Shell.Change a e) (sendFileWithReply p peerHex name mime bytes replyTo) :=
  .saving <| .bind (.ofExcept _) fun _ ↦ .bind silent_nowUnix fun _ ↦
    .bind (edits_bumpSeq _) fun _ ↦ .bind (.ofExcept _) fun _ ↦
    .bind (silent_sendVia ..) fun _ ↦ .bind (edits_ensureIntroSent _ _).attempt fun _ ↦
    .bind (edits_sendCachedBindingGossip _ _).attempt fun _ ↦ edits_pushFile ..

theorem composed_sendGroupTextWithReply (ha : a) (groupIdHex text : String) (replyTo : UInt64) :
    Composed (Shell.Change a e) (sendGroupTextWithReply p groupIdHex text replyTo) := by
  refine .saving <| .bind silent_nowUnix fun _ ↦ .bind (edits_bumpSeq _) fun _ ↦
    .bind (.ofExcept _) fun _ ↦ .bind silent_session fun _ ↦
    .bind (silent_findGroupMut _) fun found ↦ ?_
  exact .bind (silent_refreshGroupMembers _) fun _ ↦ .bind (silent_flushMlsUpdate _ _) fun _ ↦
    .bind silent_nowMs fun _ ↦ .bind (silent_onGroup _ _) fun _ ↦ .bind (.ofExcept _) fun _ ↦
    .bind (silent_groupAppend ..) fun _ ↦ .bind (edits_pushOutgoing ha ⟨rfl, rfl⟩) fun _ ↦ .pure _

theorem composed_sendGroupFileWithReply (ha : a) (groupIdHex name mime : String) (bytes : Bytes)
    (replyTo : UInt64) :
    Composed (Shell.Change a e) (sendGroupFileWithReply p groupIdHex name mime bytes replyTo) := by
  refine .saving <| .bind silent_nowUnix fun _ ↦ .bind silent_drawKey fun _ ↦
    .bind (.act trivial) fun _ ↦ .bind (.ofExcept _) fun sealed ↦ ?_
  refine .bind (edits_bumpSeq _) fun _ ↦ .bind silent_session fun _ ↦
    .bind (silent_findGroupMut _) fun found ↦ ?_
  exact .bind (silent_refreshGroupMembers _) fun _ ↦ .bind (silent_flushMlsUpdate _ _) fun _ ↦
    .bind (silent_groupAppend ..) fun _ ↦ .bind (silent_callGroup _ _) fun _ ↦
    .bind (.ofExcept _) fun _ ↦ .bind silent_nowMs fun _ ↦ .bind (silent_onGroup _ _) fun _ ↦
    .bind (.ofExcept _) fun _ ↦ .bind (silent_groupAppend ..) fun _ ↦
    .bind (edits_pushOutgoing ha ⟨rfl, rfl⟩) fun _ ↦ .pure _

theorem edits_takeMatchingReaction (convId : String) (target : UInt64) (emoji : String)
    (outgoing : Bool) (senderId : String) : Edits a e (withShell fun shell ↦
      shell.takeMatchingReaction convId target emoji outgoing senderId) := by
  refine within_withShell (.edit fun s ↦ ?_)
  have htrim {rest : List DisplayRow} (h : rest.Sublist s.inbox) :
      Edit s { s with inbox := rest } := by
    have hraised := Edit.trim h convId 0
    rwa [Shell.raiseSeq_zero] at hraised
  exact htrim List.eraseP_sublist

theorem edits_removeTarget (convId : String) (target : UInt64) :
    Edits a e (onShell fun shell ↦
      { shell with inbox := Shell.removeTarget shell.inbox convId target }) := by
  refine within_onShell (.edit fun s ↦ ?_)
  have hremove := @Edit.remove s convId target 0
  rw [Shell.raiseSeq_zero] at hremove
  exact hremove

theorem composed_react (ha : a) (convId : String) (target : UInt64) (emoji : String) :
    Composed (Shell.Change a e) (react p convId target emoji) := by
  refine .saving <| .bind silent_nowUnix fun _ ↦ .bind (edits_takeMatchingReaction ..) fun off ↦
    .bind (edits_bumpSeq _) fun _ ↦ .bind (silent_transmitApp ..) fun _ ↦ ?_
  split_ifs
  exacts [.pure _, .bind (edits_pushOutgoing ha ⟨rfl, rfl⟩) fun _ ↦ .pure _]

theorem composed_deleteMessage (convId : String) (target : UInt64) :
    Composed (Shell.Change a e) (deleteMessage p convId target) :=
  .bind (.inside silent_nowUnix) fun _ ↦
    .bind (.saving <| .bind (edits_removeTarget _ _) fun _ ↦ .bind (edits_bumpSeq _) fun _ ↦
      (silent_transmitApp ..).attempt) fun _ ↦
    .bind (.ofExcept _) fun _ ↦ .pure _

theorem composed_deleteMessageForMe (convId : String) (target : UInt64) :
    Composed (Shell.Change a e) (deleteMessageForMe convId target) :=
  .saving <| .bind silent_nowUnix fun _ ↦ .bind (edits_removeTarget _ _) fun _ ↦ .pure _

theorem composed_setDisappear (convId : String) (seconds : UInt64) :
    Composed (Shell.Change a e) (setDisappear p convId seconds) :=
  .saving <| .bind (within_onShell (.edit fun _ ↦ .timer convId seconds)) fun _ ↦
    .bind silent_nowUnix fun _ ↦ .bind (edits_bumpSeq _) fun _ ↦
    .bind (silent_transmitApp ..) fun _ ↦ edits_pushControl ..

theorem composed_fetchNow : Composed (Shell.Change a e) (fetchNow p) := by
  refine .bind (.inside edits_receive) fun received ↦ .bind ?_ fun _ ↦
    .saving (edits_afterAck received)
  unfold acknowledge
  split_ifs
  · exact .bind (.inside silent_session) fun _ ↦ .bind (.apart trivial) fun _ ↦ .ofExcept _
  · exact .pure _

theorem composed_save : Composed K Client.save := by
  refine .bind (.inside silent_memory) fun inner ↦ ?_
  split_ifs
  exacts [.persist, .fail _]

theorem composed_restockThread : Composed K restockThread := by
  refine .bind (.inside silent_session) fun before ↦
    .bind (.inside (silent_restockPublishUpto _).attempt) fun done ↦
    .bind (.inside silent_session) fun after ↦ ?_
  cases done with
  | error e => exact .pure _
  | ok _ =>
    dsimp only
    split_ifs
    exacts [.pure _, .discard (.attempt .persist)]

theorem composed_registerSession (base : String) (now : UInt64) :
    Composed K (registerSession p base now) :=
  .bind (.inside (silent_send _ _)) fun _ ↦ .bind (.inside (silent_mintCard _ _)) fun _ ↦
    .bind (.inside (silent_send _ _)) fun _ ↦ .bind (.apart trivial) fun _ ↦
    .inside (silent_restockPublishUpto _)

theorem composed_rehome (base : String) (now : UInt64) : Composed K (rehome p base now) := by
  refine .bind (.inside (silent_send _ _)) fun bundle ↦ .bind (.inside silent_session) fun s ↦ ?_
  split_ifs
  · exact .fail _
  · exact .bind (.inside (silent_mintCard _ _)) fun _ ↦ .bind (.inside (silent_send _ _)) fun _ ↦
      .bind (.apart trivial) fun _ ↦ .bind (.inside (silent_restockPublishUpto _)) fun _ ↦
      .bind (.inside (silent_moveFanouts _)) fun _ ↦
      .bind (.inside (silent_send _ _).attempt) fun _ ↦ .pure _

theorem edits_announceMove (now : UInt64) : Edits a e (announceMove p now) :=
  .bind silent_session fun _ ↦ .forEach fun _ ↦
    .bind (silent_sendOwnContactCapability _ _).attempt fun _ ↦
    .bind (edits_sendCachedBindingGossip _ _).attempt fun _ ↦ .pure _

theorem composed_register (base : String) : Composed (Shell.Change a e) (register p base) := by
  refine .bind (.inside silent_memory) fun inner ↦ .bind (.inside silent_nowUnix) fun now ↦ ?_
  split
  · exact .fail _
  · refine .bind (.apart trivial) fun _ ↦ .bind (.ofExcept _) fun _ ↦
      .bind (composed_registerSession _ _).attempt fun answer ↦ ?_
    cases answer with
    | ok _ => exact .bind (.apart trivial) fun _ ↦ .persist
    | error e =>
      dsimp only
      split_ifs
      · exact .bind (.apart trivial) fun _ ↦ .bind (.apart trivial) fun _ ↦ .fail _
      · exact .bind (.apart trivial) fun _ ↦ .fail _
  · refine .bind (.apart trivial) fun _ ↦ ?_
    split_ifs
    · exact .bind (.apart trivial) fun _ ↦ .fail _
    · refine .bind (.ofExcept _) fun _ ↦ .bind (composed_rehome _ _).attempt fun answer ↦ ?_
      cases answer with
      | ok _ =>
        exact .bind (.apart trivial) fun _ ↦ .bind (.inside (edits_announceMove _)) fun _ ↦
          .bind (.apart trivial) fun _ ↦ .persist
      | error e => exact .bind (.apart trivial) fun _ ↦ .fail _

theorem composed_setPrivacyMode (mode : String) : Composed K (setPrivacyMode p mode) := by
  refine .saving ?_
  split
  exacts [.fail _, silent_setPrivacy _]

theorem composed_mintShareUri : Composed K (mintShareUri p) :=
  .bind (.saving <| .bind silent_nowUnix fun _ ↦ .bind (silent_mintShareCard _) fun _ ↦
    .bind (silent_sendHome _) fun _ ↦ .pure _) fun _ ↦
  .bind (.ofExcept _) fun _ ↦ .pure _

theorem composed_addContact (cardOrUri nickname : String) :
    Composed (Shell.Change a e) (addContact p cardOrUri nickname) := by
  refine .saving <| .bind (.ofExcept _) fun _ ↦ .bind (.ofExcept _) fun _ ↦
    .bind silent_nowUnix fun _ ↦ .bind (silent_addContactToSession ..) fun _ ↦
    .bind (edits_ensureIntroSent _ _).attempt fun _ ↦ ?_
  split_ifs
  · exact .bind (edits_aside fun _ ↦ ⟨rfl, rfl, rfl, rfl, rfl, rfl⟩) fun _ ↦ .pure _
  · exact .pure _

theorem composed_setNickname (identityHex nickname : String) :
    Composed (Shell.Change a e) (setNickname identityHex nickname) :=
  .saving <| .bind (.ofExcept _) fun _ ↦ edits_aside fun _ ↦ ⟨rfl, rfl, rfl, rfl, rfl, rfl⟩

theorem composed_createGroup (nickname : String) : Composed K (createGroup p nickname) :=
  .saving <| .bind silent_session fun _ ↦
    .bind (.bind silent_drawKey fun _ ↦ .bind silent_drawKey fun _ ↦ .bind silent_nowMs fun _ ↦
      silent_onInstall _) fun _ ↦
    .bind (silent_sendHome _) fun _ ↦ .bind silent_session fun _ ↦
    .bind (silent_sendHome _) fun _ ↦ .bind (.act trivial) fun _ ↦ .pure _

theorem within_storeInvite (groupIdHex : String) (bindPk : Option Key) : Within K (do
    let (_, live) ← findGroupMut groupIdHex
    let nonce ← drawKey
    let salt ← drawKey
    let invite := signInvite p live.mls.groupSigning live.host.groupId nonce
      (bindPk.map fun pk ↦ (inviteeBinding p pk salt, salt))
    callGroup p live.host.groupId (.storeInvite live.host.groupId live.host.cred invite)
    if invite.inviteeBinding.isSome then act (.minted invite)
    pure (p.formats.inviteUri invite)) := by
  refine .bind (silent_findGroupMut _) fun found ↦ .bind silent_drawKey fun _ ↦
    .bind silent_drawKey fun _ ↦ .bind (silent_callGroup _ _) fun _ ↦ ?_
  split_ifs
  exacts [.bind (.act trivial) fun _ ↦ .pure _, .pure _]

theorem composed_mintInvite (groupIdHex : String) (bindIdentity : Option IdentityId) :
    Composed K (mintInvite p groupIdHex bindIdentity) := by
  refine .saving <| .bind silent_session fun s ↦ ?_
  split
  · exact within_storeInvite _ none
  · split
    exacts [.fail _, within_storeInvite _ _]

theorem composed_acceptGroupInvite (inviteUri : String) :
    Composed K (acceptGroupInvite p inviteUri) :=
  .saving <| .bind (.ofExcept _) fun _ ↦ .bind (silent_sendHome _) fun _ ↦
    .bind silent_drawKey fun _ ↦ .bind (silent_onInstall _) fun _ ↦ .bind (.ofExcept _) fun _ ↦
    .bind (silent_sendHome _) fun _ ↦ .bind silent_session fun _ ↦ .bind (.act trivial) fun _ ↦
    .pure _

theorem silent_admitMember (req : JoinRequest) (looked : PendingLookup) :
    Within K (admitMember p req looked) := by
  refine .bind (silent_liveGroupAt _) fun found ↦ .bind (silent_flushMlsUpdate _ _) fun _ ↦
    .bind (silent_liveGroupAt _) fun found ↦ ?_
  refine .bind (silent_onGroup _ _) fun staged ↦ .bind (.ofExcept _) fun sealed ↦ ?_
  exact .bind (silent_callGroup _ _) fun _ ↦ .bind (silent_groupAppend ..) fun _ ↦
    .bind silent_nowMs fun _ ↦ .bind (silent_onGroup _ _) fun _ ↦ .bind (.ofExcept _) fun _ ↦
    .bind (silent_wrap ..) fun _ ↦ .bind (silent_postEnvelopeMaybeBatch _ _) fun _ ↦ .pure _

theorem edits_sendGroupName (groupId : Key) (invitee : IdentityId) :
    Edits a e (sendGroupName p groupId invitee) := by
  refine .bind silent_memory fun inner ↦ ?_
  dsimp only
  split_ifs
  · exact .pure _
  · refine .bind (edits_bumpSeq _) fun seq ↦ .bind silent_nowUnix fun now ↦ ?_
    split
    · exact .pure _
    · exact .bind silent_nowUnix fun _ ↦ .bind (silent_sendVia ..).attempt fun _ ↦ .pure _

theorem composed_admitJoin (joinRequestUri : String) :
    Composed (Shell.Change a e) (admitJoin p joinRequestUri) := by
  refine .saving <| .bind (.ofExcept _) fun _ ↦ .bind silent_session fun _ ↦
    .bind (.ofExcept _) fun _ ↦ .bind silent_nowUnix fun _ ↦
    .bind (silent_checkDiscoveryNotRevoked _ _) fun _ ↦ .bind (silent_liveGroupAt _) fun found ↦ ?_
  refine .bind (silent_callGroup _ _) fun looked ↦ ?_
  split_ifs
  · exact .fail _
  · exact .bind (.ofExcept _) fun _ ↦ .bind (silent_admitMember _ _) fun _ ↦
      .bind (edits_sendGroupName _ _) fun _ ↦ .pure _

theorem composed_removeGroupMember (groupIdHex credentialIdHex : String) :
    Composed K (removeGroupMember p groupIdHex credentialIdHex) := by
  refine .saving <| .bind (.ofExcept _) fun _ ↦ .bind silent_session fun _ ↦
    .bind (silent_findGroupMut _) fun found ↦ ?_
  exact .bind (silent_onGroup _ _) fun _ ↦ .bind (.ofExcept _) fun _ ↦ .bind (.ofExcept _) fun _ ↦
    .bind (silent_groupAppend ..) fun _ ↦ .bind silent_nowMs fun _ ↦
    .bind (silent_onGroup _ _) fun _ ↦ .bind (.ofExcept _) fun _ ↦ .pure _

theorem silent_fetchGroupFile (groupIdHex tokenHex : String) :
    Within K (fetchGroupFile p groupIdHex tokenHex) :=
  .bind (.ofExcept _) fun _ ↦ .bind (.ofExcept _) fun _ ↦ .bind silent_session fun _ ↦
    .bind (silent_liveGroupAt _) fun _ ↦ silent_callGroup _ _

theorem composed_markRead (convId : String) (upto : UInt64) :
    Composed K (markRead p convId upto) := by
  refine .bind (.inside (.ofExcept _)) fun peer ↦ .bind (.inside silent_nowUnix) fun now ↦
    .bind (.inside silent_memory) fun inner ↦ ?_
  split_ifs
  · refine .bind (.inside silent_memory) fun inner ↦ ?_
    dsimp only
    split_ifs
    · exact .pure _
    · refine .bind (.inside silent_session) fun _ ↦ .bind (.inside (silent_findGroupMut _)) fun found ↦
        .bind (.inside silent_memory) fun inner ↦ ?_
      split_ifs
      · exact .pure _
      · exact .bind (.inside (silent_refreshGroupMembers _)) fun _ ↦
          .bind (.inside (silent_flushMlsUpdate _ _)) fun _ ↦ .bind (.inside (.ofExcept _)) fun _ ↦
          .bind (.inside silent_nowMs) fun _ ↦ .bind (.inside (silent_onGroup _ _)) fun _ ↦
          .bind (.ofExcept _) fun _ ↦ .bind (.inside (silent_groupAppend ..)) fun _ ↦ .persist
  · refine .inside (.bind silent_session fun s ↦ ?_)
    split
    · exact .fail _
    · split_ifs
      · exact .fail _
      · exact .bind (.ofExcept _) fun _ ↦ .bind (silent_encryptToMailbox ..) fun _ ↦
          .bind (silent_postEnvelopeMaybeBatch _ _) fun _ ↦ .pure _

theorem silent_waitWakeup : Within K waitWakeup := by
  refine .bind (silent_sendHome _) fun frame ↦ ?_
  split_ifs
  exacts [.pure _, .fail _]

theorem silent_checkCall : Within K checkCall := by
  refine .bind silent_memory fun inner ↦ ?_
  split_ifs
  · exact .fail _
  · split
    · split_ifs
      · exact .fail _
      · exact .bind (silent_sendHome _).attempt fun _ ↦ .pure _
    · exact .pure _

theorem edits_startCall (peerHex : String) (offer : LocalSignal) :
    Edits a e (startCall p peerHex offer) := by
  refine .bind silent_nowUnix fun now ↦ .bind (edits_bumpSeq _) fun seq ↦ ?_
  refine .bind (.ofExcept _) fun ptext ↦ .bind (.ofExcept _) fun peer ↦
    .bind silent_session fun s ↦ .bind (silent_sendVia ..) fun _ ↦ ?_
  exact .bind (edits_aside fun _ ↦ ⟨rfl, rfl, rfl, rfl, rfl, rfl⟩) fun _ ↦ edits_pushControl ..

theorem edits_answerCall (invite : PendingInvite) (answer : LocalSignal) :
    Edits a e (answerCall p invite answer) := by
  refine .bind silent_nowUnix fun now ↦ .bind (edits_bumpSeq _) fun seq ↦ ?_
  refine .bind (.ofExcept _) fun ptext ↦ .bind (.ofExcept _) fun peer ↦
    .bind silent_session fun s ↦ .bind (silent_sendVia ..) fun _ ↦ ?_
  exact .bind (edits_aside fun _ ↦ ⟨rfl, rfl, rfl, rfl, rfl, rfl⟩) fun _ ↦ edits_pushControl ..

theorem edits_takeInvite (callIdHex : String) : Edits a e (takeInvite callIdHex) := by
  refine .bind (within_withShell (.edit fun s ↦ .aside ⟨rfl, rfl, rfl, rfl, rfl, rfl⟩)) fun invite ↦ ?_
  cases invite with
  | none => exact .fail _
  | some invite =>
    refine .bind silent_memory fun inner ↦ ?_
    split
    · refine .bind (silent_sendHome _).attempt fun _ ↦ ?_
      split_ifs
      exacts [.fail _, .pure _]
    · exact .pure _

theorem edits_rejectInvite (callIdHex : String) (missing : CoreError) :
    Edits a e (rejectInvite p callIdHex missing) := by
  refine .bind (within_withShell (.edit fun s ↦ .aside ⟨rfl, rfl, rfl, rfl, rfl, rfl⟩)) fun invite ↦ ?_
  cases invite with
  | none => exact .fail _
  | some invite => exact .bind silent_nowUnix fun _ ↦ edits_sendCallBody ..

theorem edits_endCall : Edits a e (endCall p) := by
  refine .bind silent_memory fun inner ↦ .bind silent_nowUnix fun now ↦ ?_
  split
  · refine .bind (edits_aside fun _ ↦ ⟨rfl, rfl, rfl, rfl, rfl, rfl⟩) fun _ ↦ ?_
    split
    · exact .fail _
    · split_ifs
      exacts [.fail _, edits_sendCallBody .., edits_sendCallBody ..]
  · split
    exacts [.fail _, edits_rejectInvite ..]

theorem edits_trickle (peerHex : String) (callId : FixedBytes 16) (ice : List String) :
    Edits a e (trickle p peerHex callId ice) := by
  refine .bind silent_memory fun inner ↦ .bind silent_nowUnix fun now ↦ ?_
  split_ifs
  · exact .bind silent_session fun _ ↦ .bind (edits_emitCall ..).attempt fun _ ↦ .pure _
  · exact .pure _

theorem silent_callState : Within K callState := by
  refine .bind silent_memory fun inner ↦ ?_
  split_ifs <;> exact .pure _

theorem composed_restock (session : Option HomeSession) : Composed K (match session with
    | none => pure ()
    | some _ => do let _ ← (restockPublishUpto syncPrekeyStock).attempt : ClientM Unit) := by
  split
  exacts [.pure _, .discard (.inside (silent_restockPublishUpto _).attempt)]

theorem composed_timers (he : e) (inner : Inner) : Composed (Shell.Change a e) (do
    let now ← nowUnix
    if inner.shell.inbox.any (Shell.elapsed inner.shell.disappear now) then
      saving (expireRows now)
    match inner.session? with
    | none => pure ()
    | some _ => do let _ ← (restockPublishUpto syncPrekeyStock).attempt : ClientM Unit) := by
  have hexpire (now : UInt64) : Edits a e (expireRows now) :=
    within_onShell (.expire he now fun _ ↦ rfl)
  refine .bind (.inside silent_nowUnix) fun now ↦ ?_
  split_ifs
  exacts [.bind (.saving (hexpire now)) fun _ ↦ composed_restock _, composed_restock _]

theorem composed_openAt (he : e) : Composed (Shell.Change a e) (openAt p) := by
  refine .bind .reload fun _ ↦ .bind (.inside silent_memory) fun inner ↦ ?_
  have htimers := composed_timers he inner (a := a)
  cases hsession : inner.session? with
  | none => simpa only [hsession] using htimers
  | some session =>
    simp only [hsession] at htimers
    exact .bind (.ofExcept _) fun _ ↦ htimers

theorem composed_expireNow (he : e) : Composed (Shell.Change a e) (expireNow p) := by
  refine .saving <| .bind silent_nowUnix fun now ↦
    .bind (within_withShell (.expire he now fun _ ↦ rfl)) fun expired ↦
    .bind silent_memory fun inner ↦ ?_
  split
  exacts [.bind edits_idleMaintenance fun _ ↦ .pure _, .pure _]

/-- The method runs the timers. -/
def Method.Expires : Method → Prop
  | openAt | expireNow => True
  | _ => False

/-- A method is composed of changes to the conversations. -/
theorem Method.composed {m : Method} (happends : m.Appends → a) (hexpires : m.Expires → e) :
    Composed (Shell.Change a e) (m.program p) := by
  cases m with
  | openAt => exact composed_openAt (hexpires trivial)
  | expireNow => exact .discard (composed_expireNow (hexpires trivial))
  | identityIdHex =>
    exact .discard (.inside (.bind silent_memory fun _ ↦ .bind (.ofExcept _) fun _ ↦ .pure _))
  | fingerprint =>
    exact .discard (.inside (.bind silent_memory fun _ ↦ .bind (.ofExcept _) fun _ ↦ .pure _))
  | setPrivacyMode mode => exact composed_setPrivacyMode _
  | privacyMode => exact .discard (.inside (.bind silent_session fun _ ↦ .pure _))
  | takeRevocationMnemonic => exact .discard (.inside (.act trivial))
  | save => exact composed_save
  | register base => exact composed_register _
  | restockThread => exact composed_restockThread
  | mintShareUri => exact .discard composed_mintShareUri
  | addContact => exact .discard (composed_addContact _ _)
  | listContacts => exact .discard (.inside (.bind silent_memory fun _ ↦ .pure _))
  | setNickname => exact composed_setNickname _ _
  | sendTextWithReply => exact .discard (composed_sendTextWithReply (happends trivial) ..)
  | sendFileWithReply => exact .discard (composed_sendFileWithReply ..)
  | fetchNow => exact .discard composed_fetchNow
  | createGroup => exact .discard (composed_createGroup _)
  | mintGroupInvite => exact .discard (composed_mintInvite _ _)
  | mintBoundGroupInvite =>
    exact .discard (.bind (.inside (.ofExcept _)) fun _ ↦ composed_mintInvite _ _)
  | acceptGroupInvite => exact .discard (composed_acceptGroupInvite _)
  | admitJoin => exact .discard (composed_admitJoin _)
  | sendGroupTextWithReply =>
    exact .discard (composed_sendGroupTextWithReply (happends trivial) ..)
  | removeGroupMember => exact composed_removeGroupMember _ _
  | sendGroupFileWithReply =>
    exact .discard (composed_sendGroupFileWithReply (happends trivial) ..)
  | fetchGroupFile => exact .discard (.inside (silent_fetchGroupFile _ _))
  | listGroups => exact .discard (.inside (.bind silent_memory fun _ ↦ .pure _))
  | groupMemberIds =>
    exact .discard (.inside (.bind (silent_findGroupMut _) fun _ ↦
      .bind silent_memory fun _ ↦ .pure _))
  | react => exact .discard (composed_react (happends trivial) ..)
  | deleteMessage => exact .discard (composed_deleteMessage _ _)
  | deleteMessageForMe => exact .discard (composed_deleteMessageForMe _ _)
  | setDisappear => exact .discard (composed_setDisappear _ _)
  | disappearSecs => exact .discard (.inside (.bind silent_memory fun _ ↦ .pure _))
  | inboxRows => exact .discard (.inside (.bind silent_memory fun _ ↦ .pure _))
  | ackedUpto => exact .discard (.inside (.bind silent_memory fun _ ↦ .pure _))
  | readUpto => exact .discard (.inside (.bind silent_memory fun _ ↦ .pure _))
  | groupView =>
    exact .discard (.inside (.bind (silent_findGroupMut _) fun _ ↦ .bind silent_memory fun _ ↦
      .bind (.ofExcept _) fun _ ↦ .pure _))
  | markRead => exact composed_markRead _ _
  | waitWakeup => exact .inside silent_waitWakeup
  | checkCall => exact .inside silent_checkCall
  | startCall => exact .discard (.inside (edits_startCall _ _))
  | takeInvite => exact .discard (.inside (edits_takeInvite _))
  | answerCall => exact .discard (.inside (edits_answerCall _ _))
  | rejectCall => exact .discard (.inside (edits_rejectInvite _ _))
  | endCall => exact .discard (.inside edits_endCall)
  | trickle => exact .inside (edits_trickle ..)
  | callState => exact .discard (.inside silent_callState)

end

/-! ## What a watched method keeps -/

section

variable {p : Outside} {env : Environment} {G : Type}
  {note : ∀ {γ : Type}, Act γ → World → γ → G → G} {K : (Shell → Shell) → Prop}
  {Inv : World × G → Prop}

/-- The device with a record beside it. -/
abbrev watch (p : Outside) (env : Environment)
    (note : ∀ {γ : Type}, Act γ → World → γ → G → G) : Machine Act (World × G) :=
  (device p env).watched note

/-- What the operations of a class, the writes of a save and the other actions keep. -/
structure Guards (p : Outside) (env : Environment)
    (note : ∀ {γ : Type}, Act γ → World → γ → G → G) (K : (Shell → Shell) → Prop)
    (Inv : World × G → Prop) : Prop where
  op : ∀ {β : Type} (o : Op β) (s : World × G), o.Within K → Inv s →
    Inv ((watch p env note).step (.op o) s).2
  put : ∀ (entry : Entry) (s : World × G), entry ∈ s.1.inner.writes → Inv s →
    Inv ((watch p env note).step (.put entry) s).2
  apart : ∀ {β : Type} (action : Act β) (s : World × G), action.Apart → Inv s →
    Inv ((watch p env note).step action s).2
  reload : ∀ s : World × G, Inv s → Inv ((watch p env note).step .reload s).2

namespace Guards

variable (h : Guards p env note K Inv)
include h

theorem session {α : Type} {q : SessionM α} (hq : Within K q) :
    Keeps ((watch p env note).comap Act.op) Inv q :=
  hq.keeps fun o s ho hs ↦ h.op o s ho hs

theorem inside {α : Type} {q : SessionM α} (hq : Within K q) :
    Keeps (watch p env note) Inv (q.hoist Act.op) :=
  fun s t hs ht ↦ h.session hq s t hs (Program.visits_hoist.mp ht)

theorem putEntry {inner : Inner} {entry : Entry} (hentry : entry ∈ inner.writes) :
    Keeps (watch p env note) (fun s ↦ s.1.inner = inner ∧ Inv s) (Client.putEntry entry) := by
  refine .bind (.act ?_) fun _ ↦ .ofExcept _
  rintro s ⟨rfl, hs⟩
  exact ⟨s.1.inner_after_put entry, h.put entry s hentry hs⟩

theorem persist : Keeps (watch p env note) Inv Client.persist := by
  have hmemory : Keeps (watch p env note) Inv (memory.hoist Act.op) := h.inside silent_memory
  intro s t hs ht
  rcases Program.visits_bind.mp ht with hread | ⟨inner, s', hrun, hwrite⟩
  · exact hmemory s t hs hread
  · have hs' : s'.1.inner = inner ∧ Inv s' := by
      have hinv := hmemory.run_end hs
      cases hrun
      exact ⟨rfl, hinv⟩
    have hkeeps : Keeps (watch p env note) (fun s ↦ s.1.inner = inner ∧ Inv s)
        (if inner.vault then
          if inner.state.isSome then forEach Client.putEntry inner.writes
          else fail (.text "busy")
        else pure () : ClientM Unit) := by
      split_ifs
      · exact .forEach fun entry hentry ↦ h.putEntry hentry
      · exact .fail _
      · exact .pure _
    exact (hkeeps s' t hs' hwrite).2

theorem composed {α : Type} {q : ClientM α} (hq : Composed K q) :
    Keeps (watch p env note) Inv q := by
  induction hq with
  | inside hq => exact h.inside hq
  | persist => exact h.persist
  | apart haction => exact .act fun s hs ↦ h.apart _ s haction hs
  | reload => exact .act fun s hs ↦ h.reload s hs
  | ofExcept x => exact .ofExcept x
  | bind _ _ hq hf => exact .bind hq hf
  | attempt _ hq => exact hq.attempt

end Guards

/-! ## Watched calls -/

/-- A call, with the record, which may note the end of a process. -/
def watchStep (p : Outside) (env : Environment)
    (note : ∀ {γ : Type}, Act γ → World → γ → G → G) (close : G → G) (s : World × G) :
    Call → World × G
  | .done m =>
    match m, run (watch p env note) (m.program p) s with
    | .openAt, (.error _, t) => (t.1.ended, close t.2)
    | _, (_, t) => (t.1.settle, t.2)
  | .cut m n =>
    let t := Program.cut (watch p env note) n (m.program p) s
    (t.1.ended, close t.2)

/-- The method a call runs. -/
def Call.method : Call → Method
  | done m | cut m _ => m

/-- Watching changes nothing. -/
theorem fst_watchStep (close : G → G) (s : World × G) (call : Call) :
    (watchStep p env note close s call).1 = s.1.step p env call := by
  cases call with
  | done m =>
    obtain ⟨hanswer, hworld⟩ := @Program.run_watched _ _ _ _ _ (device p env) note (m.program p) s
    unfold watchStep World.step
    dsimp only
    generalize run (watch p env note) (m.program p) s = r at hanswer hworld
    generalize run (device p env) (m.program p) s.1 = r' at hanswer hworld
    obtain ⟨answer, t⟩ := r
    obtain ⟨answer', t'⟩ := r'
    cases hanswer
    cases hworld
    cases answer <;> cases m <;> rfl
  | cut m n => exact congrArg World.ended (Program.cut_watched n _ s)

/-- A watched run goes through the worlds of the run. -/
theorem fst_run_watchStep (close : G → G) (s : World × G) (calls : List Call) :
    (Data.run (watchStep p env note close) s calls).1 = Data.run (World.step p env) s.1 calls :=
  (List.foldl_hom Prod.fst fun s call ↦ (fst_watchStep close s call).symm).symm

/-- What a run of a method keeps, and the end of a process, a call keeps. -/
theorem watchStep_keeps {close : G → G} {s : World × G} {call : Call}
    (hm : ∀ t, Program.Visits (watch p env note) (call.method.program p) s t → Inv t)
    (hend : ∀ t, Inv t → Inv (t.1.ended, close t.2)) (hsettle : ∀ t, Inv t → Inv (t.1.settle, t.2)) :
    Inv (watchStep p env note close s call) := by
  cases call with
  | done m =>
    have hrun := hm _ (Program.visits_end _ s)
    unfold watchStep
    dsimp only [Call.method] at hrun ⊢
    generalize run (watch p env note) (m.program p) s = r at hrun
    obtain ⟨answer, t⟩ := r
    split
    · next heq =>
      cases heq
      exact hend _ hrun
    · next heq =>
      cases heq
      exact hsettle _ hrun
  | cut m n => exact hend _ (hm _ (Program.visits_cut n _ s))

/-! ## Records of the shell -/

/-- The action is an operation on the shell, or opens the vault. -/
def Act.OnShell : {β : Type} → Act β → Prop
  | _, op (.shell _) | _, reload => True
  | _, _ => False

/-- What a save writes of a shell under the key of the inbox. -/
def Shell.saved (shell : Shell) : InboxEntry where
  rows := shell.inbox
  nextSeq := shell.nextSeq
  acked := shell.acked
  read := shell.read
  groupRead := shell.groupRead

theorem Inner.eq_saved_of_mem_writes {inner : Inner} {entry : InboxEntry}
    (h : Entry.inbox entry ∈ inner.writes) : entry = inner.shell.saved := by
  unfold Inner.writes at h
  cases hstate : inner.state with
  | none => simp [hstate] at h
  | some state =>
    cases state <;>
      simp_all [ClientState.writes, saveHome, saveInstall, saveGroups, saveDisplay, saveInbox,
        savePending, saveInvites, Shell.saved]

theorem Vault.inbox_put (vault : Vault) (entry : Entry) : (vault.put entry).inbox = vault.inbox ∨
    ∃ saved, entry = .inbox saved ∧ (vault.put entry).inbox = some saved := by
  cases entry with
  | inbox saved => exact .inr ⟨saved, rfl, rfl⟩
  | _ => exact .inl rfl

theorem World.shell_after_apart {β : Type} {action : Act β} (h : action.Apart) (w : World) :
    (w.after p env action).inner.shell = w.inner.shell ∧
      (w.after p env action).vault = w.vault := by
  cases action with
  | op o => exact h.elim
  | put entry => exact h.elim
  | reload => exact h.elim
  | begin_ bundle base =>
    simp only [World.after, Act.effect, Inner.beginSession]
    split <;> exact ⟨rfl, rfl⟩
  | move bundle base => exact ⟨w.inner.shell_mapSession _, rfl⟩
  | relocate =>
    simp only [World.after, Act.effect, Inner.relocate]
    split <;> exact ⟨rfl, rfl⟩
  | _ => exact ⟨rfl, rfl⟩

/-- A property of the shell, the inbox in the vault and the record. -/
theorem Guards.of_shell {Good : Shell → Option InboxEntry → G → Prop}
    (hshell : ∀ f, K f → ∀ (w : World) g, Good w.inner.shell w.vault.inbox g →
      Good (f w.inner.shell) w.vault.inbox (note (.op (.shell f)) w () g))
    (hnote : ∀ {β : Type} (action : Act β) (w : World) (answer : β) g, ¬action.OnShell →
      note action w answer g = g)
    (hput : ∀ shell saved g, Good shell saved g → Good shell (some shell.saved) g)
    (hreload : ∀ (w : World) g, Good w.inner.shell w.vault.inbox g →
      Good w.vault.load.inner.shell w.vault.inbox (note .reload w () g)) :
    Guards p env note K fun s ↦ Good s.1.inner.shell s.1.vault.inbox s.2 where
  op := by
    intro β o s ho hs
    have hother (hoff : ¬(Act.op o).OnShell) (hframes : Op.Frames (id : Shell → Shell) β o) :
        Good (o.effect p env s.1).2.inner.shell (o.effect p env s.1).2.vault.inbox
          (note (.op o) s.1 (o.effect p env s.1).1 s.2) := by
      have hsame : (o.effect p env s.1).2.inner.shell = s.1.inner.shell := Op.view_effect hframes s.1
      rwa [hsame, o.vault_effect, hnote _ _ _ _ hoff]
    cases o with
    | shell f => exact hshell f ho s.1 s.2 hs
    | _ => exact hother id trivial
  put := by
    intro entry s hentry hs
    have hnoted : (watch p env note).step (.put entry) s =
        (((device p env).step (.put entry) s.1).1, (s.1.after p env (.put entry), s.2)) :=
      Prod.ext rfl (Prod.ext rfl (hnote _ _ _ _ id))
    rw [hnoted]
    dsimp only
    rw [s.1.inner_after_put]
    rcases s.1.after_put entry with h | h
    · rw [h]
      exact hs
    · rw [h]
      rcases s.1.vault.inbox_put entry with hsame | ⟨saved, rfl, hsaved⟩
      · dsimp only
        rwa [hsame]
      · dsimp only
        rw [hsaved, Inner.eq_saved_of_mem_writes hentry]
        exact hput _ _ _ hs
  apart := by
    intro β action s haction hs
    obtain ⟨hsame, hvault⟩ := @World.shell_after_apart p env _ _ haction s.1
    have hoff : ¬action.OnShell := by
      intro hon
      cases action with
      | op o => exact haction
      | reload => exact haction
      | _ => exact hon
    have hnoted : ((watch p env note).step action s).2 = (s.1.after p env action, s.2) :=
      Prod.ext rfl (hnote _ _ _ _ hoff)
    rw [hnoted]
    dsimp only
    rwa [hsame, hvault]
  reload s hs := hreload s.1 s.2 hs

end

end NemoMessenger.Client
