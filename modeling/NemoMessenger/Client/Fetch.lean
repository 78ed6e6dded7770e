import NemoMessenger.Client.Shared
import NemoMessenger.Client.Signal

/-!
# Fetching

`fetch_now` reads a batch of the mailbox in two passes. The first hands every row to the groups and
stops at a row they cannot apply yet; the second decrypts the one-to-one rows up to that point. Then
the batch is acked, receipts and gossip go out, the groups are looked after, and the client is saved.
-/

namespace NemoMessenger.Client

open NemoMessenger.Data NemoMessenger.Wire
open Program (act attempt ofExcept forEach fail)

/-! ## Group rows -/

/-- `MAILBOX_MLS_RETRIES`. -/
def mailboxMlsRetries : UInt8 := 8

/-- `MlsRowFate`. -/
inductive MlsRowFate
  | done
  | retry
  deriving DecidableEq, Repr

/-- The fate of a row no group could apply. -/
def MlsRowFate.of (retry : Bool) : MlsRowFate := if retry then .retry else .done

section
variable (p : Outside)

/-- The Welcome branch of `apply_group_mailbox_row`: the first pending join it is for. -/
def applyWelcome (body : Bytes) : List (Key × PendingEntry) → SessionM MlsRowFate
  | [] => pure .done
  | (gid, entry) :: entries => do
    if p.openMls.welcomeMatches entry.pending.keyPackage body then
      let ms ← nowMs
      match ← onInstall (.join entry.pending body ms) with
      | .error _ => pure .retry
      | .ok g =>
        act (.pending (AList.erase gid))
        let s ← session
        let name ← withShell fun shell ↦
          ((shell.pendingNames.lookup gid).getD "",
            { shell with pendingNames := shell.pendingNames.erase gid })
        act (.enroll { groupId := gid, cred := entry.host.cred, hostBase := s.homeBase } g name)
        pure .done
    else applyWelcome body entries

/-- The handshake loop over the groups. An echo of a commit that is merged already does not apply in
its past epoch and is passed over. -/
def applyHandshakeAny (body : Bytes) : List ℕ → Bool → SessionM MlsRowFate
  | [], retry => pure (.of retry)
  | i :: is, retry => do
    let ms ← nowMs
    match ← onGroup i (.applyHandshake body ms) with
    | .ok _ => pure .done
    | .error e =>
      let inner ← memory
      let epoch := ((inner.groupAt i).map (·.mls.epoch)).getD 0
      if e = .mlsWrongEpoch ∧ (p.openMls.messageEpoch body).any (· < epoch) then
        applyHandshakeAny body is retry
      else applyHandshakeAny body is (retry || e.mlsRetryable)

/-- The loop of the RemoveBundle branch. -/
def applyRemoveAny (body : Bytes) : List ℕ → Bool → SessionM MlsRowFate
  | [], retry => pure (.of retry)
  | i :: is, retry => do
    let inner ← memory
    let ms ← nowMs
    match inner.groups[i]?, RemoveBundle.decode body with
    | some live, .ok bundle =>
      match ← onGroup i (.applyRemoveBundle live.host.groupId bundle ms) with
      | .ok _ => pure .done
      | .error e => applyRemoveAny body is (retry || e.mlsRetryable)
    | _, _ => applyRemoveAny body is retry

/-- The loop of the MlsApp branch: the first group that opens the message. -/
def decryptGroupAny (body : Bytes) :
    List ℕ → Bool → SessionM (Except MlsRowFate (HostGroup × Bytes × IdentityId))
  | [], retry => pure (.error (.of retry))
  | i :: is, retry => do
    let inner ← memory
    match inner.groups[i]? with
    | none => decryptGroupAny body is retry
    | some live =>
      match ← onGroup i (.decryptWithSender body) with
      | .ok (plaintext, sender) => pure (.ok (live.host, plaintext, sender))
      | .error e => decryptGroupAny body is (retry || e.mlsRetryable)

/-! ## Messages -/

/-- A reaction that was there is taken back; otherwise it is stored under its author. -/
def receiveReaction (conv senderHex : String) (header : AppHeader) (target : UInt64)
    (emoji : String) : SessionM DisplayRow :=
  withShell fun shell ↦
    let senderName := (shell.nicknames.lookup senderHex).getD ""
    let (found, rest) := shell.takeMatchingReaction conv target emoji false senderHex
    if found then
      (Shell.reactionRemovedMarker conv target emoji header.sentAt false,
        rest.raiseSeq conv header.convSeq)
    else
      let (row, pushed) := rest.pushControl conv header.convSeq header.sentAt .reaction emoji target
        false
      let row := { row with senderId := senderHex, senderName }
      let stored (r : DisplayRow) : Bool :=
        r.convId = row.convId ∧ r.convSeq = row.convSeq ∧ r.kind = .reaction
      (row, { pushed with
        inbox := match pushed.inbox.findIdx? stored with
          | some i => pushed.inbox.modify i fun r ↦ { r with senderId := senderHex, senderName }
          | none => pushed.inbox })

/-- A deletion takes rows away and shows a marker. -/
def receiveDelete (conv : String) (header : AppHeader) (target : UInt64) : SessionM DisplayRow :=
  withShell fun shell ↦
    let rest := { shell with inbox := Shell.removeTarget shell.inbox conv target }
    (Shell.removedMarker conv target header.sentAt false, rest.raiseSeq conv header.convSeq)

/-- A timer is set, and shown. -/
def receiveDisappear (conv : String) (header : AppHeader) (seconds : UInt64) :
    SessionM DisplayRow :=
  withShell fun shell ↦
    let set := { shell with disappear := shell.disappear.insert conv seconds }
    set.pushControl conv header.convSeq header.sentAt .disappear (toString seconds) 0 false

/-- The message of a group member. -/
def receiveGroupMessage (host : HostGroup) (sender : IdentityId) (selfHex : String)
    (message : AppMessage) : SessionM (List DisplayRow) := do
  let conv := toHex host.groupId.data
  let senderHex := toHex sender.data
  let inner ← memory
  let signed (row : DisplayRow) : DisplayRow :=
    { row with senderId := senderHex
               senderName := (inner.shell.nicknames.lookup senderHex).getD "" }
  let header := message.header
  match message.body with
  | .text text =>
    let row ← withShell fun shell ↦
      shell.pushText conv header.convSeq text header.sentAt (header.replyTo.getD 0) false
    pure [signed row]
  | .attachment encFile file (some token) =>
    match ← (callGroup p host.groupId (.fetchFile host.groupId host.cred token)).attempt with
    | .error _ => pure []
    | .ok blob =>
      match p.formats.openGroupFile encFile blob with
      | .error _ => pure []
      | .ok bytes =>
        let row ← withShell fun shell ↦
          shell.pushFile conv header.convSeq header.sentAt file.name file.mime bytes
            (toHex token.data) (header.replyTo.getD 0) false
        pure [signed row]
  | .reaction target emoji =>
    let row ← receiveReaction conv senderHex header target emoji
    pure [row]
  | .delete target =>
    let row ← receiveDelete conv header target
    pure [row]
  | .disappear seconds =>
    let row ← receiveDisappear conv header seconds
    pure [row]
  | .read upto =>
    if senderHex ≠ selfHex then onShell fun shell ↦ shell.raiseGroupRead conv senderHex upto
    pure []
  | .bindingGossip identity seq server =>
    let row ← applyBindingGossip p host.groupId identity seq server header.convSeq header.sentAt
    pure row.toList
  | _ => pure []

/-- `apply_group_mailbox_row`. -/
def applyGroupMailboxRow (selfHex : String) (row : MailboxRow) :
    SessionM (MlsRowFate × List DisplayRow) := do
  let inner ← memory
  let body := row.inner.paddedMessage.body
  let positions := List.range inner.groups.length
  match row.inner.paddedMessage.type with
  | .mlsHandshake =>
    let fate ← if p.openMls.isWelcome body then
        applyWelcome p body (inner.pending.entries.map fun e ↦ (e.1, e.2))
      else applyHandshakeAny p body positions false
    pure (fate, [])
  | .signingKeyReplace =>
    forEach (fun i ↦ do
      let _ ← onGroup i (.applySigningKeyReplace body)) positions
    pure (.done, [])
  | .mlsApp =>
    match ← decryptGroupAny body positions false with
    | .error fate => pure (fate, [])
    | .ok (host, plaintext, sender) =>
      match p.formats.decode plaintext with
      | .error _ => pure (.done, [])
      | .ok message =>
        let rows ← receiveGroupMessage p host sender selfHex message
        pure (.done, rows)
  | .removeBundle =>
    let fate ← applyRemoveAny body positions false
    pure (fate, [])
  | _ => pure (.done, [])

/-! ## One-to-one rows -/

/-- What the second pass collects: rows for the shell, peers to gossip with, and receipts to send. -/
structure Batch where
  newRows : List DisplayRow
  gossip : List IdentityId
  acks : FiniteMap IdentityId UInt64

namespace Batch

def push (batch : Batch) (row : DisplayRow) : Batch :=
  { batch with newRows := batch.newRows ++ [row] }

/-- A text is answered with gossip and with a receipt for the highest number seen. -/
def noteText (batch : Batch) (peer : IdentityId) (upto : UInt64) : Batch :=
  { batch with
    gossip := batch.gossip ++ [peer]
    acks := batch.acks.insert peer
      (match batch.acks.lookup peer with | some u => max u upto | none => upto) }

end Batch

/-- A marker a row about a call leaves in the conversation. -/
def receiveCall (conv : String) (header : AppHeader) (kind : RowKind) (callId : FixedBytes 16)
    (change : Shell → Shell) : SessionM DisplayRow := do
  onShell change
  withShell fun shell ↦
    shell.pushControl conv header.convSeq header.sentAt kind (toHex callId.data) 0 false

/-- The end of a call: the live call is closed, whichever it is. -/
def closeCall (callId : FixedBytes 16) (shell : Shell) : Shell :=
  let shell := shell.hangupLive
  { shell with pendingInvites := shell.pendingInvites.erase (toHex callId.data) }

/-- A `Capability`: the peer may turn out to be another identity. -/
def receiveCapability (peer : IdentityId) (capability : Key) (intro : Option CapabilityIntro)
    (batch : Batch) : SessionM Batch := do
  let now ← nowUnix
  match ← (applyContactCapability p peer capability intro now).attempt with
  | .error _ => pure batch
  | .ok real =>
    let source := toHex peer.data
    let target := toHex real.data
    onShell fun shell ↦ shell.remapConvId source target
    pure { batch with newRows := batch.newRows.map fun row ↦
      if row.convId = source then { row with convId := target } else row }

/-- A `CallInvite` that has not expired rings. -/
def receiveInvite (conv : String) (header : AppHeader) (signal : LocalSignal)
    (expiresAt : UInt64) : SessionM DisplayRow := do
  let now ← nowUnix
  let callHex := toHex signal.callId.data
  if expiresAt > now then
    onShell fun shell ↦ { shell with
      pendingInvites := shell.pendingInvites.insert callHex { peer := conv, signal, expiresAt } }
    let now ← nowUnix
    let _ ← (emitCall p conv (.callRinging signal.callId) .callRinging now false).attempt
  receiveCall conv header .callInvite signal.callId fun shell ↦ shell

/-- Tell the peer connection of the live call something of the other side. -/
def feed (input : RemoteInput) : SessionM Unit := do
  ofExcept (← act (.media input))
  onShell fun shell ↦ shell.feed input

/-- `add_ice`. -/
def addIce (ice : List String) : SessionM Unit := do
  ofExcept (rejectDirectIce ice)
  forEach (fun candidate ↦ feed (.candidate candidate)) ice

/-- `apply_answer`. -/
def applyAnswer (live : LiveCall) (remote : LocalSignal) : SessionM Unit := do
  if remote.callId ≠ live.callId then fail (.call "call_id mismatch")
  else
    ofExcept ((verifyFingerprint remote.sdp remote.dtlsFp).mapError CallError.toCore)
    feed (.description remote.sdp)
    addIce remote.ice

/-- A `CallAnswer` is handed to the live call, whichever it is, and connects it when it is taken. -/
def receiveAnswer (conv : String) (header : AppHeader) (signal : LocalSignal) :
    SessionM DisplayRow := do
  let inner ← memory
  match inner.shell.liveCall with
  | none => pure ()
  | some live =>
    match ← (applyAnswer live signal).attempt with
    | .ok _ => onShell fun shell ↦ { shell with callConnected := true }
    | .error _ => pure ()
  receiveCall conv header .callAnswer signal.callId fun shell ↦ shell

/-- The candidates of a `CallIce` are for the live call that has its id. -/
def receiveIce (callId : FixedBytes 16) (ice : List String) : SessionM Unit := do
  let inner ← memory
  match inner.shell.liveCall with
  | none => pure ()
  | some live =>
    if live.callId = callId then
      let _ ← (addIce ice).attempt
    else pure ()

/-- A mark a peer reports is clamped to what exists. -/
def clampMark (shell : Shell) (conv : String) (upto : UInt64) : UInt64 := min upto (shell.seqOf conv)

/-- The message of a peer. -/
def receiveMessage (peer : IdentityId) (message : AppMessage) (batch : Batch) : SessionM Batch := do
  let conv := toHex peer.data
  let header := message.header
  match message.body with
  | .text text =>
    let row ← withShell fun shell ↦
      shell.pushText conv header.convSeq text header.sentAt (header.replyTo.getD 0) false
    pure ((batch.noteText peer header.convSeq).push row)
  | .attachment encFile file none =>
    let row ← withShell fun shell ↦
      shell.pushFile conv header.convSeq header.sentAt file.name file.mime encFile ""
        (header.replyTo.getD 0) false
    pure (batch.push row)
  | .capability capability intro => receiveCapability p peer capability intro batch
  | .reaction target emoji =>
    let row ← receiveReaction conv conv header target emoji
    pure (batch.push row)
  | .delete target =>
    let row ← receiveDelete conv header target
    pure (batch.push row)
  | .disappear seconds =>
    let row ← receiveDisappear conv header seconds
    pure (batch.push row)
  | .groupName groupId name =>
    let inner ← memory
    if name = "" then pure batch
    else if inner.groups.any fun g ↦ g.host.groupId = groupId then
      act (.nickname groupId name)
      pure batch
    else
      onShell fun shell ↦ { shell with pendingNames := shell.pendingNames.insert groupId name }
      pure batch
  | .protocolAck upto =>
    onShell fun shell ↦
      { shell with acked := Shell.raiseMark shell.acked conv (clampMark shell conv upto) }
    pure batch
  | .read upto =>
    onShell fun shell ↦
      { shell with read := Shell.raiseMark shell.read conv (clampMark shell conv upto) }
    pure batch
  | .callInvite signal expiresAt =>
    let row ← receiveInvite p conv header signal expiresAt
    pure (batch.push row)
  | .callAnswer signal =>
    let row ← receiveAnswer conv header signal
    pure (batch.push row)
  | .callRinging callId =>
    let row ← receiveCall conv header .callRinging callId fun shell ↦ shell
    pure (batch.push row)
  | .callEnd callId =>
    let row ← receiveCall conv header .callEnd callId Shell.hangupLive
    pure (batch.push row)
  | .callReject callId =>
    let row ← receiveCall conv header .callReject callId (closeCall callId)
    pure (batch.push row)
  | .callCancel callId =>
    let row ← receiveCall conv header .callCancel callId (closeCall callId)
    pure (batch.push row)
  | .bindingGossip identity seq server =>
    match ← applyBindingGossip p peer identity seq server header.convSeq header.sentAt with
    | some row => pure (batch.push row)
    | none => pure batch
  | .callIce callId ice =>
    receiveIce callId ice
    pure batch
  | .attachment _ _ (some _) | .unknown _ => pure batch

/-- A row of the second pass. -/
def receiveRow (contacts : List IdentityId) (row : MailboxRow) (batch : Batch) : SessionM Batch := do
  match ← (decryptIncoming p row.inner contacts).attempt with
  | .error _ => pure batch
  | .ok (peer, plaintext) =>
    match p.formats.decode plaintext with
    | .error _ => pure batch
    | .ok message => receiveMessage p peer message batch

/-- The second pass. -/
def secondPass (contacts : List IdentityId) (ackUpto : UInt64) :
    List MailboxRow → Batch → SessionM Batch
  | [], batch => pure batch
  | row :: rows, batch => do
    let batch ← if row.seq > ackUpto then pure batch else receiveRow p contacts row batch
    secondPass contacts ackUpto rows batch

/-! ## The first pass -/

/-- A `lost` row of the system conversation. -/
def pushLost : SessionM DisplayRow := do
  let now ← nowUnix
  withShell fun shell ↦ shell.pushControl "system" 0 now .lost "" 0 false

/-- A row the groups could not apply is counted; the eighth time it is given up. -/
def countRetry (seq : UInt64) : SessionM Bool :=
  withShell fun shell ↦
    let n := ((shell.mailboxRetries.lookup seq).getD 0)
    let n := if n = 255 then n else n + 1
    if n ≥ mailboxMlsRetries then
      (true, { shell with mailboxRetries := shell.mailboxRetries.erase seq })
    else (false, { shell with mailboxRetries := shell.mailboxRetries.insert seq n })

/-- The first pass: the number up to which rows are done with. -/
def firstPass (selfHex : String) :
    List MailboxRow → UInt64 → List DisplayRow → SessionM (UInt64 × List DisplayRow)
  | [], ackUpto, newRows => pure (ackUpto, newRows)
  | row :: rows, ackUpto, newRows => do
    let (fate, shown) ← applyGroupMailboxRow p selfHex row
    match fate with
    | .done =>
      onShell fun shell ↦ { shell with mailboxRetries := shell.mailboxRetries.erase row.seq }
      firstPass selfHex rows row.seq (newRows ++ shown)
    | .retry =>
      let givenUp ← countRetry row.seq
      if givenUp then
        let lost ← pushLost
        firstPass selfHex rows row.seq (newRows ++ shown ++ [lost])
      else pure (ackUpto, newRows ++ shown)

/-! ## The whole -/

/-- What `fetch_now` has when both passes are over. -/
structure Received where
  lastAcked : UInt64
  ackUpto : UInt64
  batch : Batch

/-- `fetch_now` up to the ack. -/
def receive : SessionM Received := do
  let s ← session
  let lastAcked := s.cursor
  let _ ← (pumpCover p).attempt
  let rows ← fetchMailbox
  match rows with
  | [] => pure { lastAcked, ackUpto := lastAcked, batch := ⟨[], [], ∅⟩ }
  | first :: _ =>
    let s ← session
    let contacts := s.contacts.entries.map (·.1)
    let lost ← if messagesLost lastAcked first.seq then do
        let row ← pushLost
        pure [row]
      else pure []
    let (ackUpto, newRows) ← firstPass p (toHex (s.install.identityId p).data) rows lastAcked lost
    update (.cursor ackUpto)
    let batch ← secondPass p contacts ackUpto rows ⟨newRows, [], ∅⟩
    pure { lastAcked, ackUpto, batch }

/-- A receipt for the texts of a peer. -/
def sendReceipt (now : UInt64) (entry : IdentityId × UInt64) : SessionM Unit := do
  let s ← session
  if (s.contacts.lookup entry.1).isSome then
    match p.formats.encode (.fresh 0 now (.protocolAck entry.2)) with
    | .error _ => pure ()
    | .ok bytes =>
      let _ ← (sendTo p entry.1 .default bytes now).attempt
  else pure ()

/-- The gossip a text is answered with. -/
def sendGossip (now : UInt64) (peer : IdentityId) : SessionM Unit := do
  let s ← session
  if (s.contacts.lookup peer).isSome then
    let _ ← (sendOwnContactCapability p peer now).attempt
    let _ ← (sendCachedBindingGossip p peer now).attempt
  else pure ()

/-- What follows the ack: receipts, gossip and the upkeep of the groups. -/
def afterAck (received : Received) : SessionM (List DisplayRow) := do
  let now ← nowUnix
  forEach (sendReceipt p now) (received.batch.acks.entries.map fun e ↦ (e.1, e.2))
  forEach (sendGossip p now) received.batch.gossip
  let rows ← idleMaintenance p
  pure (received.batch.newRows ++ rows)

/-- The ack of `fetch_now`. -/
def acknowledge (received : Received) : ClientM Unit :=
  if received.ackUpto > received.lastAcked then ackMailbox else pure ()

/-- `fetch_now`. -/
def fetchNow : ClientM (List DisplayRow) := do
  let received ← receive p
  acknowledge received
  saving (afterAck p received)

end

end NemoMessenger.Client
