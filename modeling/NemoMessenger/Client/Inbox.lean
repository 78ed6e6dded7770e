import NemoMessenger.Client.State

/-!
# Conversations

The part of the client's memory the shell shows: rows, sequence numbers, receipts and timers, the
calls, and the notes that only live in memory. Rows are appended by the `push` functions and
hard-deleted by `removeTarget`; opening a vault drops what older versions left behind.
-/

namespace NemoMessenger.Client

open NemoMessenger.Data NemoMessenger.Wire

/-- `parse_identity_id`. -/
def parseIdentityId (hex : String) : Except WireError IdentityId :=
  fromHex (Cbor.textBytes hex) >>= copyFixed 32

/-- The fields of `Inner` the shell shows or that only live in memory. -/
structure Shell where
  inbox : List DisplayRow
  nicknames : FiniteMap String String
  nextSeq : FiniteMap String UInt64
  acked : FiniteMap String UInt64
  read : FiniteMap String UInt64
  groupRead : FiniteMap String (FiniteMap String UInt64)
  disappear : FiniteMap String UInt64
  pendingNames : FiniteMap Key String
  pendingInvites : FiniteMap String PendingInvite
  liveCall : Option LiveCall
  callPeer : Option String
  callConnected : Bool
  groupDiscoveryAt : FiniteMap Key UInt64
  introSent : List IdentityId
  gossipSent : FiniteMap IdentityId (UInt64 × ServerId)
  mailboxRetries : FiniteMap UInt64 UInt8
  deriving DecidableEq

namespace Shell

/-- The shell of `empty_inner`. -/
def empty : Shell where
  inbox := []
  nicknames := ∅
  nextSeq := ∅
  acked := ∅
  read := ∅
  groupRead := ∅
  disappear := ∅
  pendingNames := ∅
  pendingInvites := ∅
  liveCall := none
  callPeer := none
  callConnected := false
  groupDiscoveryAt := ∅
  introSent := []
  gossipSent := ∅
  mailboxRetries := ∅

/-! ## Sequence numbers -/

/-- `next_seq.get(conv).unwrap_or(&0)`. -/
def seqOf (shell : Shell) (conv : String) : UInt64 := (shell.nextSeq.lookup conv).getD 0

/-- `bump_seq`. -/
def bumpSeq (shell : Shell) (peer : String) : UInt64 × Shell :=
  let seq := shell.seqOf peer + 1
  (seq, { shell with nextSeq := shell.nextSeq.insert peer seq })

/-- `if conv_seq > seq { next_seq.insert(conv, conv_seq) }`. -/
def raiseSeq (shell : Shell) (conv : String) (convSeq : UInt64) : Shell :=
  if convSeq > shell.seqOf conv then { shell with nextSeq := shell.nextSeq.insert conv convSeq }
  else shell

theorem inbox_raiseSeq (shell : Shell) (conv : String) (convSeq : UInt64) :
    (shell.raiseSeq conv convSeq).inbox = shell.inbox := by
  unfold raiseSeq
  split_ifs <;> rfl

/-! ## Rows -/

/-- A row as the `push` functions and the markers start it. -/
def blankRow (convId : String) (convSeq sentAt : UInt64) (outgoing : Bool) : DisplayRow where
  convId
  convSeq
  text := ""
  sentAt
  fileName := ""
  fileMime := ""
  fileBytes := []
  fetchToken := ""
  kind := .text
  emoji := ""
  target := 0
  hidden := false
  displayedAt := sentAt
  outgoing
  senderId := ""
  senderName := ""
  replyTo := 0

/-- `next_seq` is raised and the row is appended. -/
def pushRow (shell : Shell) (row : DisplayRow) : DisplayRow × Shell :=
  let raised := shell.raiseSeq row.convId row.convSeq
  (row, { raised with inbox := raised.inbox ++ [row] })

theorem inbox_pushRow (shell : Shell) (row : DisplayRow) :
    (shell.pushRow row).2.inbox = shell.inbox ++ [row] :=
  congrArg (· ++ [row]) (shell.inbox_raiseSeq _ _)

/-- `push_text`. -/
def pushText (shell : Shell) (convId : String) (convSeq : UInt64) (text : String)
    (sentAt replyTo : UInt64) (outgoing : Bool) : DisplayRow × Shell :=
  shell.pushRow { blankRow convId convSeq sentAt outgoing with text, replyTo }

/-- `push_file`. -/
def pushFile (shell : Shell) (convId : String) (convSeq sentAt : UInt64) (name mime : String)
    (fileBytes : Bytes) (fetchToken : String) (replyTo : UInt64) (outgoing : Bool) :
    DisplayRow × Shell :=
  shell.pushRow { blankRow convId convSeq sentAt outgoing with
    text := name, fileName := name, fileMime := mime, fileBytes, fetchToken, kind := .file, replyTo }

/-- The kinds whose row repeats `emoji` as its text. -/
def showsEmoji (kind : RowKind) : Bool :=
  kind == .disappear || kind.name.startsWith "call_" || kind == .bindingConflict

/-- `push_control`. -/
def pushControl (shell : Shell) (convId : String) (convSeq sentAt : UInt64) (kind : RowKind)
    (emoji : String) (target : UInt64) (outgoing : Bool) : DisplayRow × Shell :=
  shell.pushRow { blankRow convId convSeq sentAt outgoing with
    text := if showsEmoji kind then emoji else "", kind, emoji, target }

/-- `removed_marker`. -/
def removedMarker (convId : String) (target sentAt : UInt64) (outgoing : Bool) : DisplayRow :=
  { blankRow convId target sentAt outgoing with kind := .removed, target }

/-- `reaction_removed_marker`. -/
def reactionRemovedMarker (convId : String) (target : UInt64) (emoji : String) (sentAt : UInt64)
    (outgoing : Bool) : DisplayRow :=
  { blankRow convId 0 sentAt outgoing with kind := .reactionRemoved, emoji, target }

/-! ## Hard deletion -/

/-- The rows `remove_target` keeps. Its last test, on rows left by older versions, reduces to
`kind == "deleted"`. -/
def survivesRemoval (convId : String) (target : UInt64) (row : DisplayRow) : Bool :=
  if row.convId ≠ convId then true
  else if row.convSeq == target && row.kind != .reaction then false
  else if row.kind == .reaction && row.target == target then false
  else if row.kind == .deleted && row.target == target then false
  else true

/-- `remove_target`, on the rows. -/
def removeTarget (inbox : List DisplayRow) (convId : String) (target : UInt64) : List DisplayRow :=
  (inbox.filter (survivesRemoval convId target)).map fun row ↦
    if row.convId = convId ∧ row.replyTo = target ∧ target ≠ 0 then { row with replyTo := 0 }
    else row

/-- `drop_legacy_tombstones`. -/
def dropLegacyTombstones (inbox : List DisplayRow) : List DisplayRow :=
  let kept := inbox.filter fun row ↦ row.kind != .deleted
  let present := kept.map fun row ↦ (row.convId, row.convSeq)
  kept.map fun row ↦
    if row.replyTo != 0 && !present.contains (row.convId, row.replyTo) then { row with replyTo := 0 }
    else row

/-- The reactions `take_matching_reaction` looks for. -/
def matchesReaction (convId : String) (target : UInt64) (emoji : String) (outgoing : Bool)
    (senderId : String) (row : DisplayRow) : Bool :=
  row.convId == convId && row.kind == .reaction && row.target == target && row.emoji == emoji &&
    if outgoing then row.outgoing else !row.outgoing && row.senderId == senderId

/-- `take_matching_reaction`. -/
def takeMatchingReaction (shell : Shell) (convId : String) (target : UInt64) (emoji : String)
    (outgoing : Bool) (senderId : String) : Bool × Shell :=
  let found := matchesReaction convId target emoji outgoing senderId
  (shell.inbox.any found, { shell with inbox := shell.inbox.eraseP found })

/-! ## Timers -/

/-- `now.saturating_sub(displayed_at) >= secs`, for a timer that is set. -/
def elapsed (timers : FiniteMap String UInt64) (now : UInt64) (row : DisplayRow) : Bool :=
  let secs := (timers.lookup row.convId).getD 0
  !row.hidden && (secs > 0 && now.toNat - row.displayedAt.toNat ≥ secs.toNat)

/-- The row once its timer has run out. -/
def expireRow (row : DisplayRow) : DisplayRow :=
  { row with hidden := true, kind := .expired, text := "", fileBytes := [] }

/-- `apply_expire_inbox`, on the rows. -/
def expireInbox (timers : FiniteMap String UInt64) (now : UInt64) (inbox : List DisplayRow) :
    List DisplayRow :=
  inbox.map fun row ↦ if elapsed timers now row then expireRow row else row

/-- `ttl_for`. -/
def ttlFor (disappear : FiniteMap String UInt64) (conv : String) : TtlBucket :=
  let secs := (disappear.lookup conv).getD 0
  if secs = 0 then .default else if secs ≤ 60 then ⟨1⟩ else ⟨2⟩

/-! ## Upgrading a peer -/

/-- The entry under `source` moves to `target`, where one that is there already wins. -/
def moveKey {V : Type} (m : FiniteMap String V) (source target : String) : FiniteMap String V :=
  match m.lookup source with
  | none => m
  | some v =>
    let rest := m.erase source
    if (rest.lookup target).isSome then rest else rest.insert target v

/-- `remap_conv_id`. -/
def remapConvId (shell : Shell) (source target : String) : Shell :=
  if source = target then shell
  else
    { shell with
      inbox := shell.inbox.map fun row ↦
        if row.convId = source then { row with convId := target } else row
      nextSeq := match shell.nextSeq.lookup source with
        | none => shell.nextSeq
        | some seq =>
          let rest := shell.nextSeq.erase source
          rest.insert target (max ((rest.lookup target).getD 0) seq)
      nicknames := moveKey shell.nicknames source target
      disappear := moveKey shell.disappear source target }

/-! ## Calls -/

/-- The live call takes something of the other side. -/
def feed (shell : Shell) (input : RemoteInput) : Shell :=
  { shell with
    liveCall := shell.liveCall.map fun live ↦ { live with remote := live.remote ++ [input] } }

/-- `hangup_live`. -/
def hangupLive (shell : Shell) : Shell :=
  { shell with liveCall := none, callPeer := none, callConnected := false }

/-! ## Receipts -/

/-- A mark never goes back: `and_modify(|u| *u = (*u).max(mark)).or_insert(mark)`. -/
def raiseMark (marks : FiniteMap String UInt64) (conv : String) (mark : UInt64) :
    FiniteMap String UInt64 :=
  marks.insert conv (match marks.lookup conv with | some u => max u mark | none => mark)

/-- `apply_group_mailbox_row` on a `Read` of another member. -/
def raiseGroupRead (shell : Shell) (conv sender : String) (upto : UInt64) : Shell :=
  let mark := min upto (shell.seqOf conv)
  if mark > 0 then
    { shell with groupRead :=
        shell.groupRead.insert conv (raiseMark ((shell.groupRead.lookup conv).getD ∅) sender mark) }
  else shell

end Shell

/-- `messages_lost`. -/
def messagesLost (lastAcked first : UInt64) : Bool := first.toNat > saturatingAdd lastAcked.toNat 1

end NemoMessenger.Client
