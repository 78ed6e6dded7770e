import NemoMessenger.Client.Frame
import NemoMessenger.Client.Method
import NemoMessenger.Client.Silent

/-!
# What becomes of the conversations

Everything a client does to the conversations it shows is one of a few changes to the shell: a counter
is taken up, a row is put in or taken out, a timer is set, a mark is raised, a peer is upgraded, or the
timers are run. Every part of a method makes no other.
-/

namespace NemoMessenger.Client

open NemoMessenger.Data NemoMessenger.Wire
open Program (act attempt ofExcept forEach fail)

/-- A row as the `push` functions put it in: it is seen, from the time its sender claims. -/
structure DisplayRow.Fresh (row : DisplayRow) : Prop where
  hidden : row.hidden = false
  displayedAt : row.displayedAt = row.sentAt

/-- The parts of the shell a save writes to the inbox and the timers. -/
structure Shell.Aside (s s' : Shell) : Prop where
  inbox : s'.inbox = s.inbox
  nextSeq : s'.nextSeq = s.nextSeq
  acked : s'.acked = s.acked
  read : s'.read = s.read
  groupRead : s'.groupRead = s.groupRead
  disappear : s'.disappear = s.disappear

/-- One change to the conversations of a shell. -/
inductive Edit (s : Shell) : Shell → Prop
  | aside {s' : Shell} (h : s.Aside s') : Edit s s'
  | push {row : DisplayRow} (h : row.Fresh) : Edit s (s.pushRow row).2
  | sign {row : DisplayRow} (h : row.Fresh) (i : ℕ) (id name : String) :
    Edit s { (s.pushRow row).2 with
      inbox := (s.pushRow row).2.inbox.modify i fun r ↦ { r with senderId := id, senderName := name } }
  | trim {rest : List DisplayRow} (h : rest.Sublist s.inbox) (conv : String) (seq : UInt64) :
    Edit s (Shell.raiseSeq { s with inbox := rest } conv seq)
  | remove (conv : String) (target seq : UInt64) :
    Edit s (Shell.raiseSeq { s with inbox := Shell.removeTarget s.inbox conv target } conv seq)
  | timer (conv : String) (secs : UInt64) :
    Edit s { s with disappear := s.disappear.insert conv secs }
  | setTimer (conv : String) (secs : UInt64) {row : DisplayRow} (h : row.Fresh) :
    Edit s (Shell.pushRow { s with disappear := s.disappear.insert conv secs } row).2
  | acked (conv : String) (upto : UInt64) :
    Edit s { s with acked := Shell.raiseMark s.acked conv (clampMark s conv upto) }
  | read (conv : String) (upto : UInt64) :
    Edit s { s with read := Shell.raiseMark s.read conv (clampMark s conv upto) }
  | groupRead (conv sender : String) (upto : UInt64) : Edit s (s.raiseGroupRead conv sender upto)

/-- A change that an operation makes to any shell. Rows of one's own are appended under numbers that
have been taken up before, where `appends` allows it, and the timers are run where `expires` does. -/
inductive Shell.Change (appends expires : Prop) (f : Shell → Shell) : Prop
  | edit (h : ∀ s, Edit s (f s))
  | bump (conv : String) (h : f = fun s ↦ (s.bumpSeq conv).2)
  | remap (source target : String) (h : f = fun s ↦ s.remapConvId source target)
  | append {row : DisplayRow} (ha : appends) (hrow : row.Fresh)
    (h : f = fun s ↦ { s with inbox := s.inbox ++ [row] })
  | expire (he : expires) (now : UInt64) (h : ∀ s, f s =
      { s with inbox := Shell.expireInbox s.disappear now s.inbox
               pendingInvites := (f s).pendingInvites })

/-- A function that leaves these parts of any shell alone. -/
def Shell.SetsAside (f : Shell → Shell) : Prop := ∀ s : Shell, s.Aside (f s)

/-- The program makes only such changes. -/
abbrev Edits (appends expires : Prop) {α : Type} (q : SessionM α) : Prop :=
  Within (Shell.Change appends expires) q

namespace Shell

theorem Aside.refl (s : Shell) : s.Aside s := ⟨rfl, rfl, rfl, rfl, rfl, rfl⟩

theorem raiseSeq_zero (s : Shell) (conv : String) : s.raiseSeq conv 0 = s :=
  if_neg (by simp)

end Shell

section

variable {p : Outside} {a e : Prop} {α β : Type} {K : (Shell → Shell) → Prop}

/-! ## Programs of their class -/

theorem Op.Messaging.within {o : Op β} (h : o.Messaging) : o.Within K := by
  cases o with
  | shell f => exact h.elim
  | _ => trivial

/-- Messaging leaves the shell alone. -/
@[grind ←] theorem Messaging.within {q : SessionM α} (h : Messaging q) : Within K q :=
  h.mono fun _ _ ↦ Op.Messaging.within

theorem within_onShell {f : Shell → Shell} (h : K f) : Within K (onShell f) := .act h

theorem within_withShell {f : Shell → α × Shell} (h : K fun s ↦ (f s).2) :
    Within K (withShell f) :=
  .bind silent_memory fun _ ↦ .bind (within_onShell h) fun _ ↦ .pure _

/-- Of what a message tells the peer connection, the shell records what is taken. -/
theorem within_feed (hK : ∀ input, K fun shell ↦ shell.feed input) (input : RemoteInput) :
    Within K (feed input) :=
  .bind (.act trivial) fun _ ↦ .bind (.ofExcept _) fun _ ↦ within_onShell (hK input)

theorem within_addIce (hK : ∀ input, K fun shell ↦ shell.feed input) (ice : List String) :
    Within K (addIce ice) :=
  .bind (.ofExcept _) fun _ ↦ .forEach fun _ ↦ within_feed hK _

theorem within_applyAnswer (hK : ∀ input, K fun shell ↦ shell.feed input) (live : LiveCall)
    (remote : LocalSignal) : Within K (applyAnswer live remote) := by
  unfold applyAnswer
  split_ifs
  · exact .fail _
  · exact .bind (.ofExcept _) fun _ ↦ .bind (within_feed hK _) fun _ ↦ within_addIce hK _

theorem within_receiveIce (hK : ∀ input, K fun shell ↦ shell.feed input) (callId : FixedBytes 16)
    (ice : List String) : Within K (receiveIce callId ice) := by
  refine .bind silent_memory fun inner ↦ ?_
  split
  · exact .pure _
  · split_ifs
    · exact .bind (within_addIce hK _).attempt fun _ ↦ .pure _
    · exact .pure _

/-- What does not show of the conversations. -/
theorem edits_of_aside {q : SessionM α} (h : Within Shell.SetsAside q) : Edits a e q :=
  h.mono fun _ hf ↦ .edit fun s ↦ .aside (hf s)

theorem edits_aside {f : Shell → Shell} (h : ∀ s : Shell, s.Aside (f s)) : Edits a e (onShell f) :=
  edits_of_aside (within_onShell h)

theorem edits_bumpSeq (conv : String) : Edits a e (withShell fun shell ↦ shell.bumpSeq conv) :=
  within_withShell (.bump conv rfl)

theorem edits_pushText (convId : String) (convSeq : UInt64) (text : String)
    (sentAt replyTo : UInt64) (outgoing : Bool) :
    Edits a e (withShell fun shell ↦ shell.pushText convId convSeq text sentAt replyTo outgoing) :=
  within_withShell (.edit fun _ ↦ .push ⟨rfl, rfl⟩)

theorem edits_pushFile (convId : String) (convSeq sentAt : UInt64) (name mime : String)
    (fileBytes : Bytes) (fetchToken : String) (replyTo : UInt64) (outgoing : Bool) :
    Edits a e (withShell fun shell ↦ shell.pushFile convId convSeq sentAt name mime fileBytes
      fetchToken replyTo outgoing) :=
  within_withShell (.edit fun _ ↦ .push ⟨rfl, rfl⟩)

theorem edits_pushControl (convId : String) (convSeq sentAt : UInt64) (kind : RowKind)
    (emoji : String) (target : UInt64) (outgoing : Bool) :
    Edits a e (withShell fun shell ↦ shell.pushControl convId convSeq sentAt kind emoji target
      outgoing) :=
  within_withShell (.edit fun _ ↦ .push ⟨rfl, rfl⟩)

theorem edits_pushOutgoing {row : DisplayRow} (ha : a) (h : row.Fresh) :
    Edits a e (pushOutgoing row) := within_onShell (.append ha h rfl)

/-! ## What goes along with other messages -/

theorem aside_ensureIntroSent (peer : IdentityId) (now : UInt64) :
    Within Shell.SetsAside (ensureIntroSent p peer now) := by
  refine .bind silent_memory fun inner ↦ ?_
  split_ifs
  · exact .pure _
  · exact .bind (silent_sendOwnContactCapability _ _) fun _ ↦
      within_onShell fun _ ↦ ⟨rfl, rfl, rfl, rfl, rfl, rfl⟩

theorem edits_ensureIntroSent (peer : IdentityId) (now : UInt64) :
    Edits a e (ensureIntroSent p peer now) := edits_of_aside (aside_ensureIntroSent _ _)

theorem aside_sendCachedBindingGossip (peer : IdentityId) (now : UInt64) :
    Within Shell.SetsAside (sendCachedBindingGossip p peer now) := by
  refine .bind silent_memory fun inner ↦ .bind silent_session fun s ↦ ?_
  dsimp only
  split_ifs
  · exact .pure _
  · exact .bind (silent_sendOwnBindingGossip _ _) fun _ ↦
      within_onShell fun _ ↦ ⟨rfl, rfl, rfl, rfl, rfl, rfl⟩

theorem edits_sendCachedBindingGossip (peer : IdentityId) (now : UInt64) :
    Edits a e (sendCachedBindingGossip p peer now) :=
  edits_of_aside (aside_sendCachedBindingGossip _ _)

theorem edits_applyBindingGossip (fromPeer : Key) (identity : IdentityId) (seq : UInt64)
    (server : ServerId) (convSeq sentAt : UInt64) :
    Edits a e (applyBindingGossip p fromPeer identity seq server convSeq sentAt) := by
  have hconflict : Edits a e (do
      let row ← withShell fun shell ↦ shell.pushControl (toHex fromPeer.data) convSeq sentAt
        .bindingConflict (toHex identity.data) 0 false
      pure (some row)) := .bind (edits_pushControl ..) fun _ ↦ .pure _
  refine .bind silent_session fun s ↦ ?_
  dsimp only
  split
  · exact .pure _
  · exact .pure _
  · exact hconflict
  · refine .bind silent_nowUnix fun now ↦ .bind (silent_refreshContact _ _).attempt fun _ ↦
      .bind silent_session fun s ↦ ?_
    split_ifs
    exacts [.pure _, hconflict]

theorem edits_emitCall (peerHex : String) (body : AppBody) (kind : RowKind) (now : UInt64)
    (echo : Bool) : Edits a e (emitCall p peerHex body kind now echo) := by
  refine .bind (edits_bumpSeq _) fun seq ↦ .bind (.ofExcept _) fun ptext ↦
    .bind (.ofExcept _) fun peer ↦ .bind (silent_sendVia ..) fun _ ↦ ?_
  split_ifs
  exacts [edits_pushControl .., .pure _]

theorem edits_sendCallBody (peerHex : String) (body : AppBody) (kind : RowKind) (now : UInt64) :
    Edits a e (sendCallBody p peerHex body kind now) :=
  .bind silent_session fun _ ↦ edits_emitCall ..

/-! ## The upkeep of the groups -/

theorem aside_checkExtras (now : UInt64) (ids : List IdentityId) :
    Within Shell.SetsAside (checkExtras p now ids) := by
  induction ids with
  | nil => exact .pure _
  | cons id ids ih =>
    refine .bind silent_memory fun inner ↦ ?_
    split_ifs
    · exact ih
    · exact .bind (messaging_identityIsRevoked ..).within fun _ ↦
        .bind (within_onShell fun _ ↦ ⟨rfl, rfl, rfl, rfl, rfl, rfl⟩) fun _ ↦
        .bind ih fun _ ↦ .pure _

theorem edits_rowsFor (now : UInt64) (ids : List IdentityId) :
    Edits a e (idleMaintenance.rowsFor now ids) := by
  induction ids with
  | nil => exact .pure _
  | cons id ids ih => exact .bind (edits_pushControl ..) fun _ ↦ .bind ih fun _ ↦ .pure _

theorem edits_idleMaintenance : Edits a e (idleMaintenance p) := by
  refine .bind silent_nowUnix fun now ↦ .bind silent_session fun s ↦
    .bind (messaging_refreshIdleDiscovery ..).within fun stale ↦ .bind silent_session fun s ↦
    .bind silent_memory fun inner ↦ .bind (edits_of_aside (aside_checkExtras _ _)) fun extras ↦
    .bind (.forEach fun id ↦ .forEach fun i ↦ silent_removeRevoked _ _) fun _ ↦
    .bind (edits_rowsFor _ _) fun rows ↦ .bind (.forEach fun i ↦ silent_tryFlush _) fun _ ↦ .pure _

/-! ## Messages that come in -/

/-- A reaction is stored under its author, or taken back. -/
theorem edits_receiveReaction (conv senderHex : String) (header : AppHeader) (target : UInt64)
    (emoji : String) : Edits a e (receiveReaction conv senderHex header target emoji) := by
  refine within_withShell (.edit fun s ↦ ?_)
  dsimp only [Shell.takeMatchingReaction]
  split_ifs with hfound
  · exact .trim List.eraseP_sublist conv header.convSeq
  · rw [List.eraseP_of_forall_not (by simpa using hfound)]
    split
    · next i _ => exact .sign ⟨rfl, rfl⟩ i _ _
    · exact .push ⟨rfl, rfl⟩

theorem edits_receiveDelete (conv : String) (header : AppHeader) (target : UInt64) :
    Edits a e (receiveDelete conv header target) :=
  within_withShell (.edit fun _ ↦ .remove conv target header.convSeq)

theorem edits_receiveDisappear (conv : String) (header : AppHeader) (seconds : UInt64) :
    Edits a e (receiveDisappear conv header seconds) :=
  within_withShell (.edit fun _ ↦ .setTimer conv seconds ⟨rfl, rfl⟩)

theorem edits_receiveGroupMessage (host : HostGroup) (sender : IdentityId) (selfHex : String)
    (message : AppMessage) : Edits a e (receiveGroupMessage p host sender selfHex message) := by
  refine .bind silent_memory fun inner ↦ ?_
  obtain ⟨header, body⟩ := message
  cases body with
  | text text => exact .bind (edits_pushText ..) fun _ ↦ .pure _
  | attachment encFile file token =>
    cases token with
    | none => exact .pure _
    | some token =>
      refine .bind (silent_callGroup _ _).attempt fun answer ↦ ?_
      cases answer with
      | error e => exact .pure _
      | ok blob =>
        dsimp only
        split
        · exact .pure _
        · exact .bind (edits_pushFile ..) fun _ ↦ .pure _
  | reaction target emoji => exact .bind (edits_receiveReaction ..) fun _ ↦ .pure _
  | delete target => exact .bind (edits_receiveDelete ..) fun _ ↦ .pure _
  | disappear seconds => exact .bind (edits_receiveDisappear ..) fun _ ↦ .pure _
  | read upto =>
    have hmark : Edits a e (onShell fun shell ↦
        shell.raiseGroupRead (toHex host.groupId.data) (toHex sender.data) upto) :=
      within_onShell (.edit fun s ↦ .groupRead ..)
    dsimp only
    split_ifs
    exacts [.bind hmark fun _ ↦ .pure _, .pure _]
  | bindingGossip identity seq server => exact .bind (edits_applyBindingGossip ..) fun _ ↦ .pure _
  | _ => exact .pure _

theorem aside_applyWelcome (body : Bytes) (entries : List (Key × PendingEntry)) :
    Within Shell.SetsAside (applyWelcome p body entries) := by
  induction entries with
  | nil => exact .pure _
  | cons first entries ih =>
    obtain ⟨gid, entry⟩ := first
    unfold applyWelcome
    split_ifs
    · refine .bind silent_nowMs fun ms ↦ .bind (silent_onInstall _) fun answer ↦ ?_
      cases answer with
      | error e => exact .pure _
      | ok g =>
        refine .bind (.act trivial) fun _ ↦ .bind silent_session fun s ↦
          .bind (within_withShell fun s ↦ ⟨rfl, rfl, rfl, rfl, rfl, rfl⟩) fun _ ↦
          .bind (.act trivial) fun _ ↦ .pure _
    · exact ih

theorem silent_applyHandshakeAny (body : Bytes) (positions : List ℕ) (retry : Bool) :
    Within K (applyHandshakeAny p body positions retry) := by
  induction positions generalizing retry with
  | nil => exact .pure _
  | cons i positions ih =>
    refine .bind silent_nowMs fun ms ↦ .bind (silent_onGroup _ _) fun answer ↦ ?_
    cases answer with
    | ok _ => exact .pure _
    | error e =>
      refine .bind silent_memory fun inner ↦ ?_
      dsimp only
      split_ifs <;> exact ih _

theorem silent_applyRemoveAny (body : Bytes) (positions : List ℕ) (retry : Bool) :
    Within K (applyRemoveAny body positions retry) := by
  induction positions generalizing retry with
  | nil => exact .pure _
  | cons i positions ih =>
    refine .bind silent_memory fun inner ↦ .bind silent_nowMs fun ms ↦ ?_
    split
    · refine .bind (silent_onGroup _ _) fun answer ↦ ?_
      cases answer with
      | ok _ => exact .pure _
      | error e => exact ih _
    · exact ih _

theorem silent_decryptGroupAny (body : Bytes) (positions : List ℕ) (retry : Bool) :
    Within K (decryptGroupAny body positions retry) := by
  induction positions generalizing retry with
  | nil => exact .pure _
  | cons i positions ih =>
    refine .bind silent_memory fun inner ↦ ?_
    split
    · exact ih _
    · refine .bind (silent_onGroup _ _) fun answer ↦ ?_
      cases answer with
      | ok opened => exact .pure _
      | error e => exact ih _

theorem edits_applyGroupMailboxRow (selfHex : String) (row : MailboxRow) :
    Edits a e (applyGroupMailboxRow p selfHex row) := by
  refine .bind silent_memory fun inner ↦ ?_
  dsimp only
  split
  · split_ifs
    · exact .bind (edits_of_aside (aside_applyWelcome _ _)) fun _ ↦ .pure _
    · exact .bind (silent_applyHandshakeAny ..) fun _ ↦ .pure _
  · exact .bind (.forEach fun i ↦ .bind (silent_onGroup _ _) fun _ ↦ .pure _) fun _ ↦ .pure _
  · refine .bind (silent_decryptGroupAny ..) fun answer ↦ ?_
    cases answer with
    | error fate => exact .pure _
    | ok opened =>
      obtain ⟨host, plaintext, sender⟩ := opened
      dsimp only
      split
      · exact .pure _
      · exact .bind (edits_receiveGroupMessage ..) fun _ ↦ .pure _
  · exact .bind (silent_applyRemoveAny ..) fun _ ↦ .pure _
  · exact .pure _

theorem edits_receiveCall (conv : String) (header : AppHeader) (kind : RowKind)
    (callId : FixedBytes 16) {change : Shell → Shell} (h : ∀ s : Shell, s.Aside (change s)) :
    Edits a e (receiveCall conv header kind callId change) :=
  .bind (edits_aside h) fun _ ↦ edits_pushControl ..

theorem edits_receiveCapability (peer : IdentityId) (capability : Key)
    (intro : Option CapabilityIntro) (batch : Batch) :
    Edits a e (receiveCapability p peer capability intro batch) := by
  refine .bind silent_nowUnix fun now ↦
    .bind (silent_applyContactCapability ..).attempt fun answer ↦ ?_
  cases answer with
  | error e => exact .pure _
  | ok real => exact .bind (within_onShell (.remap _ _ rfl)) fun _ ↦ .pure _

theorem edits_receiveInvite (conv : String) (header : AppHeader) (signal : LocalSignal)
    (expiresAt : UInt64) : Edits a e (receiveInvite p conv header signal expiresAt) := by
  have hrow : Edits a e (receiveCall conv header .callInvite signal.callId fun shell ↦ shell) :=
    edits_receiveCall _ _ _ _ Shell.Aside.refl
  refine .bind silent_nowUnix fun now ↦ ?_
  dsimp only
  split_ifs
  · exact .bind (edits_aside fun _ ↦ ⟨rfl, rfl, rfl, rfl, rfl, rfl⟩) fun _ ↦
      .bind silent_nowUnix fun _ ↦ .bind (edits_emitCall ..).attempt fun _ ↦ hrow
  · exact hrow

/-- What the peer connection is told leaves the conversations alone. -/
theorem change_feed (input : RemoteInput) : Shell.Change a e fun shell ↦ shell.feed input :=
  .edit fun _ ↦ .aside ⟨rfl, rfl, rfl, rfl, rfl, rfl⟩

theorem edits_receiveAnswer (conv : String) (header : AppHeader) (signal : LocalSignal) :
    Edits a e (receiveAnswer conv header signal) := by
  have hrow : Edits a e (receiveCall conv header .callAnswer signal.callId fun shell ↦ shell) :=
    edits_receiveCall _ _ _ _ Shell.Aside.refl
  refine .bind silent_memory fun inner ↦ ?_
  dsimp only
  split
  · exact hrow
  · refine .bind (within_applyAnswer change_feed ..).attempt fun answer ↦ ?_
    cases answer with
    | ok _ => exact .bind (edits_aside fun _ ↦ ⟨rfl, rfl, rfl, rfl, rfl, rfl⟩) fun _ ↦ hrow
    | error e => exact hrow

theorem Shell.aside_closeCall (callId : FixedBytes 16) (s : Shell) : s.Aside (closeCall callId s) :=
  ⟨rfl, rfl, rfl, rfl, rfl, rfl⟩

theorem edits_receiveMessage (peer : IdentityId) (message : AppMessage) (batch : Batch) :
    Edits a e (receiveMessage p peer message batch) := by
  obtain ⟨header, body⟩ := message
  cases body with
  | text text => exact .bind (edits_pushText ..) fun _ ↦ .pure _
  | attachment encFile file token =>
    cases token with
    | none => exact .bind (edits_pushFile ..) fun _ ↦ .pure _
    | some token => exact .pure _
  | capability capability intro => exact edits_receiveCapability ..
  | reaction target emoji => exact .bind (edits_receiveReaction ..) fun _ ↦ .pure _
  | delete target => exact .bind (edits_receiveDelete ..) fun _ ↦ .pure _
  | disappear seconds => exact .bind (edits_receiveDisappear ..) fun _ ↦ .pure _
  | groupName groupId name =>
    refine .bind silent_memory fun inner ↦ ?_
    split_ifs
    · exact .pure _
    · exact .bind (.act trivial) fun _ ↦ .pure _
    · exact .bind (edits_aside fun _ ↦ ⟨rfl, rfl, rfl, rfl, rfl, rfl⟩) fun _ ↦ .pure _
  | protocolAck upto =>
    exact .bind (within_onShell (.edit fun s ↦ .acked (toHex peer.data) upto)) fun _ ↦ .pure _
  | read upto =>
    exact .bind (within_onShell (.edit fun s ↦ .read (toHex peer.data) upto)) fun _ ↦ .pure _
  | callInvite signal expiresAt => exact .bind (edits_receiveInvite ..) fun _ ↦ .pure _
  | callAnswer signal => exact .bind (edits_receiveAnswer ..) fun _ ↦ .pure _
  | callRinging callId =>
    exact .bind (edits_receiveCall _ _ _ _ Shell.Aside.refl) fun _ ↦ .pure _
  | callEnd callId =>
    exact .bind (edits_receiveCall _ _ _ _ fun _ ↦ ⟨rfl, rfl, rfl, rfl, rfl, rfl⟩) fun _ ↦ .pure _
  | callReject callId | callCancel callId =>
    exact .bind (edits_receiveCall _ _ _ _ (Shell.aside_closeCall callId)) fun _ ↦ .pure _
  | bindingGossip identity seq server =>
    refine .bind (edits_applyBindingGossip ..) fun row ↦ ?_
    cases row <;> exact .pure _
  | callIce callId ice => exact .bind (within_receiveIce change_feed ..) fun _ ↦ .pure _
  | unknown => exact .pure _

theorem edits_receiveRow (contacts : List IdentityId) (row : MailboxRow) (batch : Batch) :
    Edits a e (receiveRow p contacts row batch) := by
  refine .bind (silent_decryptIncoming _ _).attempt fun answer ↦ ?_
  cases answer with
  | error e => exact .pure _
  | ok opened =>
    dsimp only
    split
    · exact .pure _
    · exact edits_receiveMessage ..

theorem edits_secondPass (contacts : List IdentityId) (ackUpto : UInt64) (rows : List MailboxRow)
    (batch : Batch) : Edits a e (secondPass p contacts ackUpto rows batch) := by
  induction rows generalizing batch with
  | nil => exact .pure _
  | cons row rows ih =>
    unfold secondPass
    split_ifs
    · exact ih batch
    · exact .bind (edits_receiveRow ..) fun _ ↦ ih _

theorem edits_pushLost : Edits a e pushLost := .bind silent_nowUnix fun _ ↦ edits_pushControl ..

theorem aside_countRetry (seq : UInt64) : Within Shell.SetsAside (countRetry seq) := by
  refine within_withShell fun s ↦ ?_
  dsimp only
  split_ifs <;> exact ⟨rfl, rfl, rfl, rfl, rfl, rfl⟩

theorem edits_firstPass (selfHex : String) (rows : List MailboxRow) (ackUpto : UInt64)
    (newRows : List DisplayRow) : Edits a e (firstPass p selfHex rows ackUpto newRows) := by
  induction rows generalizing ackUpto newRows with
  | nil => exact .pure _
  | cons row rows ih =>
    refine .bind (edits_applyGroupMailboxRow ..) fun fated ↦ ?_
    obtain ⟨fate, shown⟩ := fated
    cases fate with
    | done => exact .bind (edits_aside fun _ ↦ ⟨rfl, rfl, rfl, rfl, rfl, rfl⟩) fun _ ↦ ih _ _
    | retry =>
      refine .bind (edits_of_aside (aside_countRetry _)) fun givenUp ↦ ?_
      split_ifs
      exacts [.bind edits_pushLost fun _ ↦ ih _ _, .pure _]

theorem edits_passes (selfHex : String) (contacts : List IdentityId) (lastAcked : UInt64)
    (lost : List DisplayRow) (rows : List MailboxRow) : Edits a e (do
      let (ackUpto, newRows) ← firstPass p selfHex rows lastAcked lost
      update (.cursor ackUpto)
      let batch ← secondPass p contacts ackUpto rows ⟨newRows, [], ∅⟩
      pure ({ lastAcked, ackUpto, batch } : Received)) := by
  refine .bind (edits_firstPass ..) fun passed ↦ ?_
  refine .bind (silent_update _) fun _ ↦ ?_
  exact .bind (edits_secondPass ..) fun _ ↦ .pure _

theorem edits_receive : Edits a e (receive p) := by
  refine .bind silent_session fun s ↦ .bind silent_pumpCover.attempt fun _ ↦
    .bind silent_fetchMailbox fun rows ↦ ?_
  cases rows with
  | nil => exact .pure _
  | cons first rows =>
    refine .bind silent_session fun s ↦ ?_
    dsimp only
    split_ifs
    · exact .bind edits_pushLost fun lost ↦ edits_passes ..
    · exact edits_passes ..

theorem silent_sendReceipt (now : UInt64) (entry : IdentityId × UInt64) :
    Within K (sendReceipt p now entry) := by
  refine .bind silent_session fun s ↦ ?_
  split_ifs
  · split
    · exact .pure _
    · exact .bind (silent_sendVia ..).attempt fun _ ↦ .pure _
  · exact .pure _

theorem aside_sendGossip (now : UInt64) (peer : IdentityId) :
    Within Shell.SetsAside (sendGossip p now peer) := by
  refine .bind silent_session fun s ↦ ?_
  split_ifs
  · exact .bind (silent_sendOwnContactCapability _ _).attempt fun _ ↦
      .bind (aside_sendCachedBindingGossip _ _).attempt fun _ ↦ .pure _
  · exact .pure _

theorem edits_afterAck (received : Received) : Edits a e (afterAck p received) :=
  .bind silent_nowUnix fun _ ↦ .bind (.forEach fun _ ↦ silent_sendReceipt _ _) fun _ ↦
    .bind (.forEach fun _ ↦ edits_of_aside (aside_sendGossip _ _)) fun _ ↦ .bind edits_idleMaintenance fun _ ↦ .pure _

end

end NemoMessenger.Client
