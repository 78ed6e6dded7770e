import NemoMessenger.Server.Home

/-!
# Federation

Pinned peers, the counters of the frames exchanged with them, and the in-process hop `pump` that
moves due outbound rows from one server to another. A frame whose counter was already seen is
answered `ok` without being looked at; a frame that skips a counter is refused.
-/

namespace NemoMessenger.Server

open NemoMessenger.Data NemoMessenger.Wire

/-- `PEER_RATE_PER_SEC`. -/
def peerRatePerSec : ℕ := 100

/-- `OUTBOUND_MAX_AGE_SECS`. -/
def outboundMaxAgeSecs : ℕ := 14 * 24 * 3600

/-- `BACKOFF_CAP_SECS`. -/
def backoffCapSecs : ℕ := 300

namespace PeerState

/-- The start of a new second in `handle_ciphertext`. -/
def rollWindow (p : PeerState) (now : ℕ) : PeerState :=
  if p.windowSec ≠ now then { p with windowSec := now, windowOk := 0 } else p

/-- The bookkeeping of `handle_ciphertext` after a successful `ingest`. -/
def cacheEnc (p : PeerState) (enc : Key) (seq : ℕ) : PeerState :=
  { p with
    windowOk := p.windowOk + 1
    seenEnc := (if p.seenEnc.entries.length ≥ hpkeEncWindow then ∅ else p.seenEnc).insert enc seq }

end PeerState

namespace HomeServer

/-! ## Peers -/

/-- Replace a peer's state. -/
def putPeer (home : HomeServer) (peer : ServerId) (state : PeerState) : HomeServer :=
  { home with peers := home.peers.insert peer state }

/-- `mark_peer_dirty`. -/
def markPeerDirty (home : HomeServer) (peer : ServerId) : HomeServer :=
  { home with dirty := { home.dirty with peers := home.dirty.peers.insert peer } }

/-- `pin`. -/
def pin (crypto : Crypto) (home : HomeServer) (bundle : ServerBundle) : Outcome Unit :=
  match bundle.verify crypto with
  | .error e => (.error (.wire e), home)
  | .ok () =>
    let id := bundle.serverId
    if home.serverId crypto = id then (.ok (), home)
    else
      let state := match home.peers.lookup id with
        | some peer => { peer with bundle := bundle }
        | none => .new bundle
      (.ok (), (home.putPeer id state).markPeerDirty id)

/-- `refuse`. -/
def refuse (home : HomeServer) (peer : ServerId) : HomeServer :=
  match home.peers.lookup peer with
  | none => home
  | some p => (home.putPeer peer { p with refused := true }).markPeerDirty peer

/-- `apply_sign_rotate`. -/
def applySignRotate (crypto : Crypto) (home : HomeServer) (peer : ServerId)
    (rotate : ServerSignRotate) : Outcome Unit :=
  match home.peers.lookup peer with
  | none => (.error .notPinned, home)
  | some p =>
    if !crypto.isVerifyingKey p.bundle.serverSignPublicKey then (.error .notPinned, home)
    else
      match rotate.verify crypto p.bundle.serverSignPublicKey with
      | .error e => (.error (.wire e), home)
      | .ok () => (.ok (),
        (home.putPeer peer
          { p with bundle := { p.bundle with serverSignPublicKey := rotate.newPublicKey } }
          ).markPeerDirty peer)

/-- `reset_link`. -/
def resetLink (home : HomeServer) (peer : ServerId) : HomeServer :=
  match home.peers.lookup peer with
  | none => home
  | some p =>
    (home.putPeer peer { p with lastRx := 0, nextTx := 1, helloDone := false }).markPeerDirty peer

/-- Set `hello_done` on a peer. -/
def noteHello (home : HomeServer) (peer : ServerId) : HomeServer :=
  match home.peers.lookup peer with
  | none => home
  | some p => home.putPeer peer { p with helloDone := true }

/-! ## Frames -/

/-- `take_frame`. -/
def takeFrame (home : HomeServer) (peer : ServerId) (payload : Bytes) : Outcome S2sFrame :=
  match home.peers.lookup peer with
  | none => (.error .notPinned, home)
  | some p =>
    if p.refused then (.error .peerRefused, home)
    else (.ok { counter := p.nextTx, payload := payload },
      (home.putPeer peer { p with nextTx := p.nextTx + 1 }).markPeerDirty peer)

/-- `handle_ciphertext`. -/
def handleCiphertext (crypto : Crypto) (home : HomeServer) (from_ : ServerId) (ct : Bytes) :
    Outcome Bytes :=
  match encapKey ct with
  | .error _ => (.ok failPayload, home)
  | .ok enc =>
    match home.peers.lookup from_ with
    | none => (.error .notPinned, home)
    | some p =>
      let p := p.rollWindow home.now
      let home := home.putPeer from_ p
      if p.windowOk ≥ peerRatePerSec then (.ok failPayload, home)
      else
        match p.seenEnc.lookup enc with
        | some seq => (.ok (okPayload seq), home)
        | none =>
          match home.ingest crypto ⟨home.serverId crypto, ct⟩ with
          | (.error _, home) => (.ok failPayload, home)
          | (.ok seq, home) =>
            match home.peers.lookup from_ with
            | none => (.error .notPinned, home)
            | some p => (.ok (okPayload seq), home.putPeer from_ (p.cacheEnc enc seq))

/-- The part of `accept_frame` behind the counter check. -/
def acceptPayload (crypto : Crypto) (home : HomeServer) (from_ : ServerId) (payload : Bytes) :
    Outcome Bytes :=
  match parsePayload payload with
  | .error e => (.error (.wire e), home)
  | .ok (.hello sender receiver) =>
    if sender ≠ from_ ∨ receiver ≠ home.serverId crypto then (.error .helloMismatch, home)
    else (.ok [], home)
  | .ok (.ok _) => (.ok payload, home)
  | .ok .fail => (.ok payload, home)
  | .ok (.ciphertext ct) => home.handleCiphertext crypto from_ ct

/-- `accept_frame`. -/
def acceptFrame (crypto : Crypto) (home : HomeServer) (from_ : ServerId) (frame : S2sFrame) :
    Outcome Bytes :=
  match home.peers.lookup from_ with
  | none => (.error .notPinned, home)
  | some p =>
    if p.refused then (.error .peerRefused, home)
    else if frame.counter ≤ p.lastRx then (.ok (okPayload 0), home)
    else if frame.counter ≠ p.lastRx + 1 then (.error .counterGap, home)
    else
      ((home.putPeer from_ { p with lastRx := frame.counter }).markPeerDirty from_).acceptPayload
        crypto from_ frame.payload

/-! ## Outbound rows -/

end HomeServer

/-- Double a row's backoff and move its next attempt, as both hops do. -/
def OutboundRow.backoff (row : OutboundRow) (now : ℕ) : OutboundRow :=
  let backoffSecs := min (row.backoffSecs * 2) backoffCapSecs
  { row with backoffSecs := backoffSecs, nextAttempt := saturatingAdd now backoffSecs }

/-- The row carries the same ciphertext to the same server. -/
def OutboundRow.matchesRow (row other : OutboundRow) : Bool :=
  decide (row.dest = other.dest) && decide (row.outer.hpkeCiphertext = other.outer.hpkeCiphertext)

/-- The row is not older than `OUTBOUND_MAX_AGE_SECS`. -/
def OutboundRow.unexpired (row : OutboundRow) (now : ℕ) : Bool :=
  decide (now - row.enqueuedAt ≤ outboundMaxAgeSecs)

/-- The test of `next_due`. -/
def OutboundRow.due (row : OutboundRow) (dest : ServerId) (now : ℕ) : Bool :=
  decide (row.dest = dest) && decide (row.nextAttempt ≤ now) && row.unexpired now

namespace HomeServer

/-- `next_due`. -/
def nextDue (home : HomeServer) (dest : ServerId) : Option OutboundRow :=
  home.outbound.find? fun row ↦ row.due dest home.now

/-- `remove_matching_outbound`: the first row that matches goes. -/
def removeMatchingOutbound (home : HomeServer) (row : OutboundRow) : HomeServer :=
  if home.outbound.any (·.matchesRow row) then
    home.setOutbound (home.outbound.eraseP (·.matchesRow row))
  else home

/-- `purge_expired`. -/
def purgeExpired (home : HomeServer) (dest : ServerId) : ℕ × HomeServer :=
  let kept := home.outbound.filter fun row ↦ decide (row.dest ≠ dest) || row.unexpired home.now
  let expired := home.outbound.length - kept.length
  (expired, if expired > 0 then home.setOutbound kept else home)

/-- `backoff_row`: the first row that matches waits longer. -/
def backoffRow (home : HomeServer) (row : OutboundRow) : HomeServer :=
  match home.outbound.findIdx? (·.matchesRow row) with
  | none => home
  | some i => home.setOutbound (home.outbound.modify i (·.backoff home.now))

end HomeServer

/-! ## The in-process hop -/

/-- The answer of an operation on two servers and the states it leaves. -/
abbrev PairOutcome (α : Type) := Except ServerError α × HomeServer × HomeServer

/-- `ensure_hello`. -/
def ensureHello (crypto : Crypto) (source target : HomeServer) : PairOutcome Unit :=
  let aId := source.serverId crypto
  let bId := target.serverId crypto
  let aNeeds := !(((source.peers.lookup bId).map (·.helloDone)).getD false)
  let bNeeds := !(((target.peers.lookup aId).map (·.helloDone)).getD false)
  if !aNeeds && !bNeeds then (.ok (), source, target)
  else
    match source.takeFrame bId (helloPayload aId bId) with
    | (.error e, source) => (.error e, source, target)
    | (.ok aHello, source) =>
      match target.takeFrame aId (helloPayload bId aId) with
      | (.error e, target) => (.error e, source, target)
      | (.ok bHello, target) =>
        match target.acceptFrame crypto aId aHello with
        | (.error e, target) => (.error e, source, target)
        | (.ok _, target) =>
          match source.acceptFrame crypto bId bHello with
          | (.error e, source) => (.error e, source, target)
          | (.ok _, source) => (.ok (), source.noteHello bId, target.noteHello aId)

/-- `matches_fail`. -/
def matchesFail (payload : Bytes) : Bool := parsePayload payload = .ok .fail

/-- `forward_one`. -/
def forwardOne (crypto : Crypto) (source target : HomeServer) (row : OutboundRow) :
    PairOutcome Unit :=
  let dest := target.serverId crypto
  match source.takeFrame dest row.outer.hpkeCiphertext with
  | (.error e, source) => (.error e, source, target)
  | (.ok frame, source) =>
    match target.acceptFrame crypto (source.serverId crypto) frame with
    | (.error e, target) => (.error e, source, target)
    | (.ok reply, target) =>
      match target.takeFrame (source.serverId crypto) reply with
      | (.error e, target) => (.error e, source, target)
      | (.ok replyFrame, target) =>
        match source.acceptFrame crypto dest replyFrame with
        | (.error e, source) => (.error e, source, target)
        | (.ok payload, source) =>
          if payload = failPayload ∨ matchesFail payload then (.error .denied, source, target)
          else (.ok (), source, target)

/-- The loop of `pump` at index `i`. A turn either removes a row or passes one, so as many turns as
there are rows suffice. -/
def pumpLoop (crypto : Crypto) (dest : ServerId) (now : ℕ) :
    ℕ → ℕ → HomeServer → HomeServer → PumpStats → PumpStats × HomeServer × HomeServer
  | 0, _, source, target, stats => (stats, source, target)
  | turns + 1, i, source, target, stats =>
    match source.outbound[i]? with
    | none => (stats, source, target)
    | some row =>
      if row.dest ≠ dest then pumpLoop crypto dest now turns (i + 1) source target stats
      else if now - row.enqueuedAt > outboundMaxAgeSecs then
        pumpLoop crypto dest now turns i (source.setOutbound (source.outbound.eraseIdx i)) target
          { stats with expired := stats.expired + 1 }
      else if row.nextAttempt > now then
        pumpLoop crypto dest now turns (i + 1) source target
          { stats with deferred := stats.deferred + 1 }
      else
        match forwardOne crypto source target row with
        | (.ok (), source, target) =>
          pumpLoop crypto dest now turns i (source.setOutbound (source.outbound.eraseIdx i)) target
            { stats with delivered := stats.delivered + 1 }
        | (.error .denied, source, target) | (.error .peerRefused, source, target) =>
          pumpLoop crypto dest now turns i (source.setOutbound (source.outbound.eraseIdx i)) target
            { stats with failed := stats.failed + 1 }
        | (.error .counterGap, source, target) =>
          let target := target.resetLink (source.serverId crypto)
          let source := source.resetLink dest
          pumpLoop crypto dest now turns (i + 1)
            (source.setOutbound (source.outbound.modify i (·.backoff now))) target
            { stats with failed := stats.failed + 1 }
        | (.error _, source, target) =>
          pumpLoop crypto dest now turns (i + 1)
            (source.setOutbound (source.outbound.modify i (·.backoff now))) target
            { stats with failed := stats.failed + 1 }

/-- `pump`. -/
def pump (crypto : Crypto) (source target : HomeServer) : PairOutcome PumpStats :=
  let dest := target.serverId crypto
  let origin := source.serverId crypto
  if source.peerRefused dest || target.peerRefused origin then (.error .peerRefused, source, target)
  else if (source.peers.lookup dest).isNone || (target.peers.lookup origin).isNone then
    (.error .notPinned, source, target)
  else
    match ensureHello crypto source target with
    | (.error e, source, target) => (.error e, source, target)
    | (.ok (), source, target) =>
      let (stats, source, target) :=
        pumpLoop crypto dest source.now source.outbound.length 0 source target {}
      (.ok stats, source, target)

end NemoMessenger.Server
