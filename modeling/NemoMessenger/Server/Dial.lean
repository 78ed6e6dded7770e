import NemoMessenger.Server.Restart

/-!
# Dialling a peer

`pump_due` dials every peer that has a row due and forwards its rows over the connection. What the
network answers is an input, one `Dial` for each peer. The rows that are too old are dropped once the
peer's hello has been accepted, and only the rows for that peer.
-/

namespace NemoMessenger.Server

open NemoMessenger.Data NemoMessenger.Wire

/-- `MAX_FRAME`. -/
def maxFrame : ℕ := 18000000

/-- What the network answers to one dial. -/
structure Dial where
  /-- `tls::client_config` succeeds. -/
  configured : Bool
  /-- The host is reached and shows the pinned certificate. -/
  connected : Bool
  /-- The frame that comes back for the hello, if one does. -/
  hello : Option S2sFrame
  /-- The frames that come back for the rows, in order. None does once the connection is broken. -/
  replies : ℕ → Option S2sFrame
  /-- The calls of `persist` that fail. -/
  faults : ℕ → Bool

/-- `read_frame`, when a frame arrives. -/
def readFrame (arrived : Option S2sFrame) : Option S2sFrame :=
  arrived.filter fun frame ↦ decide (frame.payload.length ≤ maxFrame)

/-- The turn of `due_destinations` for one row. -/
def HomeServer.addDue (home : HomeServer) (out : List ServerId) (row : OutboundRow) :
    List ServerId :=
  if row.nextAttempt ≤ home.now ∧ row.dest ∉ out then
    if (home.peers.lookup row.dest).isSome && !home.peerRefused row.dest then out ++ [row.dest]
    else out
  else out

/-- `due_destinations`. -/
def HomeServer.dueDestinations (home : HomeServer) : List ServerId :=
  home.outbound.foldl home.addDue []

/-- `forward_row`. A payload whose length does not fit the frame's header is never written. -/
def HomeServer.forwardRow (crypto : Crypto) (home : HomeServer) (dest : ServerId)
    (row : OutboundRow) (reply : Option S2sFrame) : Outcome Unit :=
  match home.takeFrame dest row.outer.hpkeCiphertext with
  | (.error e, home) => (.error e, home)
  | (.ok frame, home) =>
    if frame.payload.length ≥ 2 ^ 32 then (.error .denied, home)
    else
      match readFrame reply with
      | none => (.error .denied, home)
      | some reply =>
        match home.acceptFrame crypto dest reply with
        | (.error e, home) => (.error e, home)
        | (.ok payload, home) =>
          match parsePayload payload with
          | .error e => (.error (.wire e), home)
          | .ok .fail => (.error .denied, home)
          | .ok (.ok _) => (.ok (), home)
          | .ok _ => if payload = failPayload then (.error .denied, home) else (.ok (), home)

/-- The loop of `dial_and_pump`. A turn that does not end it removes a row, so as many turns as there
are rows suffice. -/
def Node.pumpRows (crypto : Crypto) (dest : ServerId) (dial : Dial) :
    ℕ → ℕ → Node → PumpStats → PumpStats × Node
  | 0, _, node, stats => (stats, node)
  | turns + 1, turn, node, stats =>
    match node.home.nextDue dest with
    | none => (stats, node)
    | some row =>
      match node.home.forwardRow crypto dest row (dial.replies turn) with
      | (.ok (), home) =>
        pumpRows crypto dest dial turns (turn + 1)
          ({ node with home := home.removeMatchingOutbound row }.persist
            (dial.faults (turn + 1))).2
          { stats with delivered := stats.delivered + 1 }
      | (.error .denied, home) | (.error .peerRefused, home) =>
        pumpRows crypto dest dial turns (turn + 1)
          ({ node with home := home.removeMatchingOutbound row }.persist
            (dial.faults (turn + 1))).2
          { stats with failed := stats.failed + 1 }
      | (.error .counterGap, home) =>
        ({ stats with failed := stats.failed + 1 },
          { node with home := (home.resetLink dest).backoffRow row })
      | (.error _, home) =>
        ({ stats with failed := stats.failed + 1 }, { node with home := home.backoffRow row })

/-- The part of `dial_and_pump` behind the hello. -/
def Node.pumpGreeted (crypto : Crypto) (node : Node) (dest : ServerId) (dial : Dial) :
    PumpStats × Node :=
  let purged := node.home.purgeExpired dest
  let node := { node with home := purged.2 }
  let node := if purged.1 > 0 then (node.persist (dial.faults 0)).2 else node
  node.pumpRows crypto dest dial node.home.outbound.length 0 { expired := purged.1 }

/-- `dial_and_pump`. -/
def Node.dialAndPump (crypto : Crypto) (node : Node) (dest : ServerId) (dial : Dial) :
    Except ServerError PumpStats × Node :=
  match node.home.peers.lookup dest with
  | none => (.error .notPinned, node)
  | some peer =>
    if peer.refused then (.error .peerRefused, node)
    else if !dial.configured then (.error .notPinned, node)
    else if !dial.connected then (.error .denied, node)
    else
      match node.home.takeFrame dest (helloPayload (node.home.serverId crypto) dest) with
      | (.error e, home) => (.error e, { node with home })
      | (.ok _, home) =>
        match readFrame dial.hello with
        | none => (.error .denied, { node with home })
        | some hello =>
          match home.acceptFrame crypto dest hello with
          | (.error e, home) => (.error e, { node with home })
          | (.ok _, home) =>
            let pumped := { node with home := home.noteHello dest }.pumpGreeted crypto dest dial
            (.ok pumped.1, pumped.2)

/-- `pump_due`. -/
def Node.pumpDue (crypto : Crypto) (node : Node) (dials : ServerId → Dial) : Node :=
  node.home.dueDestinations.foldl (fun node dest ↦ (node.dialAndPump crypto dest (dials dest)).2)
    node

/-! ## What a dial leaves alone -/

/-- Keys, clock and the other peers are the same. -/
structure HomeServer.Hops (dest : ServerId) (home home' : HomeServer) : Prop where
  hpke : home'.hpke = home.hpke
  now : home'.now = home.now
  peers : ∀ other, other ≠ dest → home'.peers.lookup other = home.peers.lookup other

/-- So is the outbound queue. -/
structure HomeServer.Talks (dest : ServerId) (home home' : HomeServer) : Prop
    extends home.Hops dest home' where
  outbound : home'.outbound = home.outbound

/-- Federation and clock are the same. -/
structure HomeServer.SameHop (home home' : HomeServer) : Prop where
  hpke : home'.hpke = home.hpke
  now : home'.now = home.now
  peers : home'.peers = home.peers
  outbound : home'.outbound = home.outbound

namespace HomeServer

variable {dest : ServerId} {home mid home' : HomeServer}

theorem Hops.refl (dest : ServerId) (home : HomeServer) : home.Hops dest home :=
  ⟨rfl, rfl, fun _ _ ↦ rfl⟩

theorem Hops.trans (h : home.Hops dest mid) (h' : mid.Hops dest home') : home.Hops dest home' :=
  ⟨h'.hpke.trans h.hpke, h'.now.trans h.now,
    fun other hne ↦ (h'.peers other hne).trans (h.peers other hne)⟩

theorem Talks.refl (dest : ServerId) (home : HomeServer) : home.Talks dest home :=
  ⟨.refl dest home, rfl⟩

theorem Talks.trans (h : home.Talks dest mid) (h' : mid.Talks dest home') :
    home.Talks dest home' :=
  ⟨h.toHops.trans h'.toHops, h'.outbound.trans h.outbound⟩

theorem SameHop.trans (h : home.SameHop mid) (h' : mid.SameHop home') : home.SameHop home' :=
  ⟨h'.hpke.trans h.hpke, h'.now.trans h.now, h'.peers.trans h.peers,
    h'.outbound.trans h.outbound⟩

theorem SameHop.talks (h : home.SameHop home') (dest : ServerId) : home.Talks dest home' :=
  ⟨⟨h.hpke, h.now, fun _ _ ↦ by rw [h.peers]⟩, h.outbound⟩

theorem sameHop_authorizeAppend (home : HomeServer) (token : Key) :
    home.SameHop (home.authorizeAppend token).2 := by
  unfold authorizeAppend
  dsimp only
  split
  · split_ifs <;> exact ⟨rfl, rfl, rfl, rfl⟩
  · split_ifs <;> exact ⟨rfl, rfl, rfl, rfl⟩
  · exact ⟨rfl, rfl, rfl, rfl⟩

theorem sameHop_burnIfShare (home : HomeServer) (token : Key) :
    home.SameHop (home.burnIfShare token) := by
  unfold burnIfShare
  split
  · split_ifs <;> exact ⟨rfl, rfl, rfl, rfl⟩
  · exact ⟨rfl, rfl, rfl, rfl⟩

theorem sameHop_gcMailbox (home : HomeServer) (owner : IdentityId) :
    home.SameHop (home.gcMailbox owner) := by
  unfold gcMailbox
  split
  · exact ⟨rfl, rfl, rfl, rfl⟩
  · dsimp only
    split_ifs <;> exact ⟨rfl, rfl, rfl, rfl⟩

theorem sameHop_appendInner (home : HomeServer) (inner : InnerEnvelope) :
    home.SameHop (home.appendInner inner).2 := by
  have h := home.sameHop_authorizeAppend inner.deliveryCapability
  unfold appendInner
  split <;> rename_i heq <;> rw [heq] at h
  · exact h
  · rename_i mailbox authorized
    split
    · exact h
    · rename_i box hbox
      split
      · exact h
      · split
        · exact h
        · rename_i padded hpadded
          have hstore : authorized.SameHop
              (authorized.storeRow mailbox box inner padded.length) := ⟨rfl, rfl, rfl, rfl⟩
          exact ((h.trans hstore).trans (sameHop_burnIfShare _ _)).trans (sameHop_gcMailbox _ _)

theorem sameHop_ingest (crypto : Crypto) (home : HomeServer) (outer : OuterEnvelope) :
    home.SameHop (home.ingest crypto outer).2 := by
  unfold ingest
  split
  · exact ⟨rfl, rfl, rfl, rfl⟩
  · split
    · exact ⟨rfl, rfl, rfl, rfl⟩
    · split
      · exact ⟨rfl, rfl, rfl, rfl⟩
      · rename_i inner _
        have h := home.sameHop_appendInner inner
        split <;> rename_i heq <;> rw [heq] at h
        · exact h
        · exact h.trans ⟨rfl, rfl, rfl, rfl⟩

theorem talks_putPeer (home : HomeServer) (dest : ServerId) (state : PeerState) :
    home.Talks dest (home.putPeer dest state) := by
  refine ⟨⟨rfl, rfl, fun other hne ↦ ?_⟩, rfl⟩
  rw [putPeer, FiniteMap.lookup_insert_ite, if_neg hne]

theorem talks_marked (home : HomeServer) (dest : ServerId) (state : PeerState) :
    home.Talks dest ((home.putPeer dest state).markPeerDirty dest) :=
  (home.talks_putPeer dest state).trans ⟨⟨rfl, rfl, fun _ _ ↦ rfl⟩, rfl⟩

theorem talks_takeFrame (home : HomeServer) (dest : ServerId) (payload : Bytes) :
    home.Talks dest (home.takeFrame dest payload).2 := by
  unfold takeFrame
  split
  · exact .refl dest home
  · split_ifs
    · exact .refl dest home
    · exact home.talks_marked dest _

/-- A pinned peer that is not refused is sent the frame. -/
theorem lookup_takeFrame {p : PeerState} (home : HomeServer) (hp : home.peers.lookup dest = some p)
    (hrefused : p.refused = false) (payload : Bytes) :
    (home.takeFrame dest payload).1.isOk = true ∧
      (home.takeFrame dest payload).2.peers.lookup dest =
        some { p with nextTx := p.nextTx + 1 } := by
  rw [takeFrame, hp]
  dsimp only
  rw [if_neg (by rw [hrefused]; exact Bool.false_ne_true)]
  exact ⟨rfl, (FiniteMap.lookup_insert_ite _ _ _ _).trans (if_pos rfl)⟩

theorem talks_noteHello (home : HomeServer) (dest : ServerId) :
    home.Talks dest (home.noteHello dest) := by
  unfold noteHello
  split
  · exact .refl dest home
  · exact home.talks_putPeer dest _

theorem talks_resetLink (home : HomeServer) (dest : ServerId) :
    home.Talks dest (home.resetLink dest) := by
  unfold resetLink
  split
  · exact .refl dest home
  · exact home.talks_marked dest _

theorem talks_handleCiphertext (crypto : Crypto) (home : HomeServer) (dest : ServerId)
    (ct : Bytes) : home.Talks dest (home.handleCiphertext crypto dest ct).2 := by
  unfold handleCiphertext
  split
  · exact .refl dest home
  · split
    · exact .refl dest home
    · rename_i p hp
      dsimp only
      have hwindow := home.talks_putPeer dest (p.rollWindow home.now)
      split_ifs
      · exact hwindow
      · split
        · exact hwindow
        · have hingest := hwindow.trans ((sameHop_ingest crypto _
            ⟨(home.putPeer dest (p.rollWindow home.now)).serverId crypto, ct⟩).talks dest)
          split <;> rename_i heq <;> rw [heq] at hingest
          · exact hingest
          · split
            · exact hingest
            · exact hingest.trans (talks_putPeer _ _ _)

theorem talks_acceptFrame (crypto : Crypto) (home : HomeServer) (dest : ServerId)
    (frame : S2sFrame) : home.Talks dest (home.acceptFrame crypto dest frame).2 := by
  unfold acceptFrame
  split
  · exact .refl dest home
  · rename_i p _
    split_ifs
    · exact .refl dest home
    · exact .refl dest home
    · exact .refl dest home
    · refine (home.talks_marked dest { p with lastRx := frame.counter }).trans ?_
      unfold acceptPayload
      split
      · exact .refl dest _
      · split_ifs <;> exact .refl dest _
      · exact .refl dest _
      · exact .refl dest _
      · exact talks_handleCiphertext crypto _ dest _

theorem talks_forwardRow (crypto : Crypto) (home : HomeServer) (dest : ServerId)
    (row : OutboundRow) (reply : Option S2sFrame) :
    home.Talks dest (home.forwardRow crypto dest row reply).2 := by
  have htake := home.talks_takeFrame dest row.outer.hpkeCiphertext
  unfold forwardRow
  split <;> rename_i heq <;> rw [heq] at htake
  · exact htake
  · rename_i sent
    split_ifs
    · exact htake
    · split
      · exact htake
      · rename_i arrived _
        have haccept := htake.trans (sent.talks_acceptFrame crypto dest arrived)
        split <;> rename_i heq' <;> rw [heq'] at haccept
        · exact haccept
        · split
          · exact haccept
          · exact haccept
          · exact haccept
          · split_ifs <;> exact haccept

end HomeServer

theorem Node.talks_persist (node : Node) (fault : Bool) (dest : ServerId) :
    node.home.Talks dest (node.persist fault).2.home := by
  obtain ⟨dirty, hhome⟩ := (node.persist_writes fault).1
  rw [hhome]
  exact ⟨⟨rfl, rfl, fun _ _ ↦ rfl⟩, rfl⟩

/-! ## The hello -/

/-- `accept_frame` takes the frame: it was seen before, or it is the next one and, if a hello, names
the two servers. -/
def PeerState.Greets (p : PeerState) (us peer : ServerId) (frame : S2sFrame) : Prop :=
  frame.counter ≤ p.lastRx ∨ frame.counter = p.lastRx + 1 ∧
    ∃ payload, parsePayload frame.payload = .ok payload ∧
      ∀ sender receiver, payload = .hello sender receiver → sender = peer ∧ receiver = us

namespace HomeServer

variable {dest : ServerId} {home : HomeServer} {p : PeerState}

/-- A ciphertext from a pinned peer always gets an answer. -/
theorem isOk_handleCiphertext (crypto : Crypto) (hp : home.peers.lookup dest = some p) (ct : Bytes) :
    (home.handleCiphertext crypto dest ct).1.isOk = true := by
  unfold handleCiphertext
  split
  · rfl
  · rw [hp]
    dsimp only
    split_ifs
    · rfl
    · split
      · rfl
      · have hpeers := (sameHop_ingest crypto (home.putPeer dest (p.rollWindow home.now))
          ⟨(home.putPeer dest (p.rollWindow home.now)).serverId crypto, ct⟩).peers
        split <;> rename_i heq <;> rw [heq] at hpeers
        · rfl
        · dsimp only at hpeers
          rw [hpeers, putPeer, FiniteMap.lookup_insert_ite, if_pos rfl]
          rfl

theorem isOk_acceptFrame (crypto : Crypto) (hp : home.peers.lookup dest = some p)
    (hrefused : p.refused = false) (frame : S2sFrame) : (home.acceptFrame crypto dest frame).1.isOk = true ↔
      p.Greets (home.serverId crypto) dest frame := by
  unfold acceptFrame PeerState.Greets
  rw [hp]
  dsimp only
  rw [if_neg (by rw [hrefused]; decide)]
  split_ifs with hseen hgap
  · exact ⟨fun _ ↦ .inl hseen, fun _ ↦ rfl⟩
  · refine ⟨fun h ↦ (Bool.false_ne_true h).elim, fun h ↦ ?_⟩
    rcases h with h | h
    · exact absurd h hseen
    · exact absurd h.1 hgap
  · rw [not_not] at hgap
    rw [or_iff_right hseen, and_iff_right hgap]
    unfold acceptPayload
    cases hparse : parsePayload frame.payload with
    | error e => exact ⟨fun h ↦ (Bool.false_ne_true h).elim, fun ⟨_, h, _⟩ ↦ by cases h⟩
    | ok payload =>
      cases payload with
      | hello sender receiver =>
        dsimp only
        split_ifs with hmismatch
        · refine ⟨fun h ↦ (Bool.false_ne_true h).elim, fun ⟨_, h, hnames⟩ ↦ ?_⟩
          obtain ⟨hsender, hreceiver⟩ := hnames sender receiver (Except.ok.inj h).symm
          rcases hmismatch with hne | hne
          · exact absurd hsender hne
          · exact absurd hreceiver hne
        · rw [not_or, not_not, not_not] at hmismatch
          refine ⟨fun _ ↦ ⟨_, rfl, fun _ _ h ↦ ?_⟩, fun _ ↦ rfl⟩
          cases h
          exact hmismatch
      | ok seq => exact ⟨fun _ ↦ ⟨_, rfl, nofun⟩, fun _ ↦ rfl⟩
      | fail => exact ⟨fun _ ↦ ⟨_, rfl, nofun⟩, fun _ ↦ rfl⟩
      | ciphertext ct =>
        refine ⟨fun _ ↦ ⟨_, rfl, nofun⟩, fun _ ↦ ?_⟩
        refine isOk_handleCiphertext (p := { p with lastRx := frame.counter }) crypto ?_ ct
        exact (FiniteMap.lookup_insert_ite _ _ _ _).trans (if_pos rfl)

end HomeServer

/-! ## Rows that are too old -/

section Expired

variable {crypto : Crypto} {dest : ServerId} {home home' : HomeServer} {node : Node}

/-- The queued rows that are too old, in order. -/
def HomeServer.expiredRows (home : HomeServer) : List OutboundRow :=
  home.outbound.filter fun row ↦ !row.unexpired home.now

/-- No queued row for the peer is too old. -/
def HomeServer.FreshFor (home : HomeServer) (dest : ServerId) : Prop :=
  ∀ row ∈ home.outbound, row.dest = dest → row.unexpired home.now = true

theorem HomeServer.Talks.expiredRows (h : home.Talks dest home') :
    home'.expiredRows = home.expiredRows := by
  rw [HomeServer.expiredRows, h.outbound, h.now, HomeServer.expiredRows]

theorem HomeServer.freshFor_iff :
    home.FreshFor dest ↔ ∀ row ∈ home.expiredRows, row.dest ≠ dest := by
  refine ⟨fun h row hrow hdest ↦ ?_, fun h row hrow hdest ↦ ?_⟩
  · obtain ⟨hqueued, hold⟩ := List.mem_filter.mp hrow
    rw [h row hqueued hdest] at hold
    exact Bool.false_ne_true hold
  · by_contra hold
    exact h row (List.mem_filter.mpr ⟨hrow, by simpa using hold⟩) hdest

theorem OutboundRow.dest_of_matchesRow {row other : OutboundRow} (h : row.matchesRow other = true) :
    row.dest = other.dest := by
  rw [OutboundRow.matchesRow, Bool.and_eq_true, decide_eq_true_eq] at h
  exact h.1

/-- Erasing an entry that a filter would drop anyway does not show. -/
theorem filter_eraseP {α : Type} {p q : α → Bool} {l : List α}
    (h : ∀ a ∈ l, p a = true → q a = false) : (l.eraseP p).filter q = l.filter q := by
  induction l with
  | nil => rfl
  | cons a l ih =>
    cases hp : p a with
    | true => rw [List.eraseP_cons_of_pos hp, List.filter_cons_of_neg
        (by rw [h a List.mem_cons_self hp]; exact Bool.false_ne_true)]
    | false =>
      rw [List.eraseP_cons_of_neg (by rw [hp]; exact Bool.false_ne_true)]
      have htail := ih fun b hb ↦ h b (List.mem_cons_of_mem a hb)
      rw [List.filter_cons, List.filter_cons, htail]

/-- Changing an entry that a filter drops before and after does not show. -/
theorem filter_modify {α : Type} {f : α → α} {q : α → Bool} {l : List α} {i : ℕ}
    (h : ∀ a, l[i]? = some a → q a = false ∧ q (f a) = false) :
    (l.modify i f).filter q = l.filter q := by
  induction l generalizing i with
  | nil => rw [List.modify_nil]
  | cons a l ih =>
    cases i with
    | zero =>
      obtain ⟨ha, hfa⟩ := h a rfl
      rw [List.modify_zero_cons, List.filter_cons_of_neg (by rw [hfa]; exact Bool.false_ne_true),
        List.filter_cons_of_neg (by rw [ha]; exact Bool.false_ne_true)]
    | succ i => rw [List.modify_succ_cons, List.filter_cons, List.filter_cons, ih h]

theorem HomeServer.expiredRows_removeMatchingOutbound {row : OutboundRow}
    (h : home.FreshFor row.dest) :
    (home.removeMatchingOutbound row).expiredRows = home.expiredRows := by
  unfold HomeServer.removeMatchingOutbound
  split_ifs
  · exact filter_eraseP fun other hother hmatch ↦
      congrArg Bool.not (h other hother (OutboundRow.dest_of_matchesRow hmatch))
  · rfl

theorem HomeServer.length_removeMatchingOutbound (home : HomeServer) {row : OutboundRow}
    (h : row ∈ home.outbound) :
    (home.removeMatchingOutbound row).outbound.length = home.outbound.length - 1 := by
  have hself : row.matchesRow row = true := by
    rw [OutboundRow.matchesRow, decide_eq_true rfl, decide_eq_true rfl]
    rfl
  have hany : home.outbound.any (·.matchesRow row) = true := List.any_eq_true.mpr ⟨row, h, hself⟩
  rw [HomeServer.removeMatchingOutbound, if_pos hany]
  exact List.length_eraseP_of_mem h hself

theorem HomeServer.expiredRows_backoffRow {row : OutboundRow} (h : home.FreshFor row.dest) :
    (home.backoffRow row).expiredRows = home.expiredRows := by
  unfold HomeServer.backoffRow
  split
  · rfl
  · rename_i i hi
    obtain ⟨hlt, hmatch, -⟩ := List.findIdx?_eq_some_iff_getElem.mp hi
    refine filter_modify fun other hother ↦ ?_
    obtain ⟨-, rfl⟩ := List.getElem?_eq_some_iff.mp hother
    have hfresh := h _ (List.getElem_mem hlt) (OutboundRow.dest_of_matchesRow hmatch)
    exact ⟨congrArg Bool.not hfresh, congrArg Bool.not hfresh⟩

theorem HomeServer.expiredRows_purgeExpired (home : HomeServer) (dest : ServerId) :
    (home.purgeExpired dest).2.expiredRows =
      home.expiredRows.filter fun row ↦ decide (row.dest ≠ dest) := by
  unfold HomeServer.purgeExpired
  dsimp only
  split_ifs with hdropped
  · calc
      _ = (home.outbound.filter fun row ↦ decide (row.dest ≠ dest) || row.unexpired home.now).filter
          fun row ↦ !row.unexpired home.now := rfl
      _ = home.outbound.filter fun row ↦
          decide (row.dest ≠ dest) && !row.unexpired home.now := by
        rw [List.filter_filter]
        congr 1
        funext row
        cases row.unexpired home.now <;> simp
      _ = _ := by rw [HomeServer.expiredRows, List.filter_filter]
  · have hlength : (home.outbound.filter fun row ↦
        decide (row.dest ≠ dest) || row.unexpired home.now).length = home.outbound.length :=
      le_antisymm (List.length_filter_le _ _) (by omega)
    rw [List.length_filter_eq_length_iff] at hlength
    refine (List.filter_eq_self.mpr fun row hrow ↦ ?_).symm
    obtain ⟨hqueued, hold⟩ := List.mem_filter.mp hrow
    have hkept := hlength row hqueued
    rw [Bool.not_eq_true'] at hold
    rwa [hold, Bool.or_false] at hkept

/-- Keys, clock, the other peers and the rows that are too old are the same. -/
structure HomeServer.LeavesExpired (dest : ServerId) (home home' : HomeServer) : Prop
    extends home.Hops dest home' where
  expired : home'.expiredRows = home.expiredRows

namespace HomeServer

theorem LeavesExpired.refl (dest : ServerId) (home : HomeServer) : home.LeavesExpired dest home :=
  ⟨.refl dest home, rfl⟩

theorem LeavesExpired.trans {mid : HomeServer} (h : home.LeavesExpired dest mid)
    (h' : mid.LeavesExpired dest home') : home.LeavesExpired dest home' :=
  ⟨h.toHops.trans h'.toHops, h'.expired.trans h.expired⟩

theorem LeavesExpired.freshFor (h : home.LeavesExpired dest home') (hfresh : home.FreshFor dest) :
    home'.FreshFor dest := by
  rw [freshFor_iff] at hfresh ⊢
  rwa [h.expired]

theorem Talks.leavesExpired (h : home.Talks dest home') : home.LeavesExpired dest home' :=
  ⟨h.toHops, h.expiredRows⟩

theorem leavesExpired_removeMatchingOutbound {row : OutboundRow} (hdest : row.dest = dest)
    (h : home.FreshFor dest) : home.LeavesExpired dest (home.removeMatchingOutbound row) := by
  refine ⟨?_, expiredRows_removeMatchingOutbound (hdest ▸ h)⟩
  unfold removeMatchingOutbound
  split_ifs <;> exact ⟨rfl, rfl, fun _ _ ↦ rfl⟩

theorem leavesExpired_backoffRow {row : OutboundRow} (hdest : row.dest = dest)
    (h : home.FreshFor dest) : home.LeavesExpired dest (home.backoffRow row) := by
  refine ⟨?_, expiredRows_backoffRow (hdest ▸ h)⟩
  unfold backoffRow
  split <;> exact ⟨rfl, rfl, fun _ _ ↦ rfl⟩

theorem hops_purgeExpired (home : HomeServer) (dest : ServerId) :
    home.Hops dest (home.purgeExpired dest).2 := by
  unfold purgeExpired
  dsimp only
  split_ifs <;> exact ⟨rfl, rfl, fun _ _ ↦ rfl⟩

theorem dest_of_nextDue {row : OutboundRow} (h : home.nextDue dest = some row) : row.dest = dest := by
  have hdue := List.find?_some h
  rw [OutboundRow.due, Bool.and_eq_true, Bool.and_eq_true, decide_eq_true_eq] at hdue
  exact hdue.1.1

end HomeServer

/-- Forwarding rows for a peer drops none that is too old, when none for that peer is. -/
theorem Node.leavesExpired_pumpRows (dial : Dial) (turns turn : ℕ) (stats : PumpStats)
    (h : node.home.FreshFor dest) :
    node.home.LeavesExpired dest (node.pumpRows crypto dest dial turns turn stats).2.home := by
  induction turns generalizing turn node stats with
  | zero => exact .refl dest node.home
  | succ turns ih =>
    rw [Node.pumpRows]
    cases hdue : node.home.nextDue dest with
    | none => exact .refl dest node.home
    | some row =>
      have hdest := HomeServer.dest_of_nextDue hdue
      have hforward :=
        (node.home.talks_forwardRow crypto dest row (dial.replies turn)).leavesExpired
      dsimp only
      generalize node.home.forwardRow crypto dest row (dial.replies turn) = result at hforward ⊢
      obtain ⟨answer, home⟩ := result
      dsimp only at hforward
      have hfresh := hforward.freshFor h
      -- a turn that goes on has removed a row and called `persist`
      have hnext (stats : PumpStats) : node.home.LeavesExpired dest
          (Node.pumpRows crypto dest dial turns (turn + 1)
            ({ node with home := home.removeMatchingOutbound row }.persist
              (dial.faults (turn + 1))).2 stats).2.home := by
        have hremoved := hforward.trans (HomeServer.leavesExpired_removeMatchingOutbound hdest hfresh)
        have hsaved := hremoved.trans
          (Node.talks_persist { node with home := home.removeMatchingOutbound row }
            (dial.faults (turn + 1)) dest).leavesExpired
        exact hsaved.trans (ih (turn + 1) stats (hsaved.freshFor h))
      have hwait := hforward.trans (HomeServer.leavesExpired_backoffRow hdest hfresh)
      cases answer with
      | ok _ => exact hnext _
      | error e =>
        cases e with
        | denied => exact hnext _
        | peerRefused => exact hnext _
        | counterGap =>
          have hreset := hforward.trans (home.talks_resetLink dest).leavesExpired
          exact hreset.trans (HomeServer.leavesExpired_backoffRow hdest (hreset.freshFor h))
        | _ => exact hwait

/-- As many turns as there are rows are enough: the loop has ended by itself. -/
theorem Node.pumpRows_add (dial : Dial) (turns extra turn : ℕ) (stats : PumpStats)
    (h : node.home.outbound.length ≤ turns) :
    node.pumpRows crypto dest dial (turns + extra) turn stats =
      node.pumpRows crypto dest dial turns turn stats := by
  induction turns generalizing turn node stats with
  | zero =>
    have hnone : node.home.nextDue dest = none := by
      rw [HomeServer.nextDue, List.eq_nil_of_length_eq_zero (Nat.le_zero.mp h)]
      rfl
    cases extra with
    | zero => rfl
    | succ extra => rw [zero_add, Node.pumpRows, Node.pumpRows, hnone]
  | succ turns ih =>
    rw [Nat.succ_add, Node.pumpRows, Node.pumpRows]
    cases hdue : node.home.nextDue dest with
    | none => rfl
    | some row =>
      have htalks := node.home.talks_forwardRow crypto dest row (dial.replies turn)
      dsimp only
      generalize node.home.forwardRow crypto dest row (dial.replies turn) = result at htalks ⊢
      obtain ⟨answer, home⟩ := result
      dsimp only at htalks
      have hmem : row ∈ home.outbound := htalks.outbound ▸ List.mem_of_find?_eq_some hdue
      -- a turn that goes on removes the row, or one like it
      have hnext (stats : PumpStats) := @ih
        ({ node with home := home.removeMatchingOutbound row }.persist (dial.faults (turn + 1))).2
        (turn + 1) stats (by
          rw [(Node.talks_persist { node with home := home.removeMatchingOutbound row }
            (dial.faults (turn + 1)) dest).outbound]
          have hlength := home.length_removeMatchingOutbound hmem
          rw [htalks.outbound] at hlength
          dsimp only
          omega)
      cases answer with
      | ok _ => exact hnext _
      | error e =>
        cases e with
        | denied => exact hnext _
        | peerRefused => exact hnext _
        | _ => rfl

/-- The dial gets as far as dropping the rows that are too old: the peer is pinned and not refused,
the connection comes up, and the hello that comes back is accepted. -/
def Dial.Reaches (crypto : Crypto) (home : HomeServer) (dest : ServerId) (dial : Dial) : Prop :=
  dial.configured = true ∧ dial.connected = true ∧ ∃ p hello, home.peers.lookup dest = some p ∧
    p.refused = false ∧ readFrame dial.hello = some hello ∧
    p.Greets (home.serverId crypto) dest hello

theorem HomeServer.Hops.serverId (h : home.Hops dest home') :
    home'.serverId crypto = home.serverId crypto :=
  congrArg (HpkeKeypair.serverId · crypto) h.hpke

theorem HomeServer.Hops.reaches_iff {other : ServerId} (h : home.Hops dest home')
    (hne : other ≠ dest) (dial : Dial) :
    dial.Reaches crypto home' other ↔ dial.Reaches crypto home other := by
  rw [Dial.Reaches, h.peers other hne, h.serverId, Dial.Reaches]

/-- Behind the hello the rows for the peer that are too old are dropped. -/
theorem Node.expiredRows_pumpGreeted (crypto : Crypto) (node : Node) (dest : ServerId)
    (dial : Dial) :
    node.home.Hops dest (node.pumpGreeted crypto dest dial).2.home ∧
      (node.pumpGreeted crypto dest dial).2.home.expiredRows =
        node.home.expiredRows.filter fun row ↦ decide (row.dest ≠ dest) := by
  have hpurged := node.home.hops_purgeExpired dest
  have hrows := node.home.expiredRows_purgeExpired dest
  rw [Node.pumpGreeted]
  generalize node.home.purgeExpired dest = purged at hpurged hrows ⊢
  have hsaved : purged.2.Talks dest
      (if purged.1 > 0 then ({ node with home := purged.2 }.persist (dial.faults 0)).2
        else { node with home := purged.2 }).home := by
    split_ifs
    · exact Node.talks_persist { node with home := purged.2 } (dial.faults 0) dest
    · exact .refl dest purged.2
  generalize (if purged.1 > 0 then ({ node with home := purged.2 }.persist (dial.faults 0)).2
    else { node with home := purged.2 }) = saved at hsaved ⊢
  have hfresh : saved.home.FreshFor dest := by
    rw [HomeServer.freshFor_iff, hsaved.expiredRows, hrows]
    intro row hrow
    exact of_decide_eq_true (List.mem_filter.mp hrow).2
  have hpump := @Node.leavesExpired_pumpRows crypto dest saved dial saved.home.outbound.length 0
    { expired := purged.1 } hfresh
  exact ⟨(hpurged.trans hsaved.toHops).trans hpump.toHops,
    hpump.expired.trans (hsaved.expiredRows.trans hrows)⟩

/-- A dial that gets that far drops the rows for its peer that are too old, any other none. -/
theorem Node.expiredRows_dialAndPump (crypto : Crypto) (node : Node) (dest : ServerId)
    (dial : Dial) :
    node.home.Hops dest (node.dialAndPump crypto dest dial).2.home ∧
      ∀ row, row ∈ (node.dialAndPump crypto dest dial).2.home.expiredRows ↔
        row ∈ node.home.expiredRows ∧ ¬(row.dest = dest ∧ dial.Reaches crypto node.home dest) := by
  have hsame {home : HomeServer} (htalks : node.home.Talks dest home)
      (hnot : ¬dial.Reaches crypto node.home dest) : node.home.Hops dest home ∧
        ∀ row, row ∈ home.expiredRows ↔ row ∈ node.home.expiredRows ∧
          ¬(row.dest = dest ∧ dial.Reaches crypto node.home dest) := by
    refine ⟨htalks.toHops, fun row ↦ ?_⟩
    rw [htalks.expiredRows, and_iff_left fun h ↦ hnot h.2]
  rw [Node.dialAndPump]
  cases hp : node.home.peers.lookup dest with
  | none =>
    refine hsame (.refl dest node.home) fun ⟨_, _, p, _, hp', _⟩ ↦ ?_
    rw [hp] at hp'
    cases hp'
  | some p =>
    have hreaches : dial.Reaches crypto node.home dest ↔ dial.configured = true ∧
        dial.connected = true ∧ p.refused = false ∧ ∃ hello, readFrame dial.hello = some hello ∧
          p.Greets (node.home.serverId crypto) dest hello := by
      rw [Dial.Reaches, hp]
      simp
    dsimp only
    split_ifs with hrefused hconfigured hconnected
    · refine hsame (.refl dest node.home) fun h ↦ ?_
      rw [(hreaches.mp h).2.2.1] at hrefused
      exact Bool.false_ne_true hrefused
    · refine hsame (.refl dest node.home) fun h ↦ ?_
      rw [(hreaches.mp h).1] at hconfigured
      exact Bool.false_ne_true hconfigured
    · refine hsame (.refl dest node.home) fun h ↦ ?_
      rw [(hreaches.mp h).2.1] at hconnected
      exact Bool.false_ne_true hconnected
    · rw [Bool.not_eq_true] at hrefused
      have htake := node.home.talks_takeFrame dest (helloPayload (node.home.serverId crypto) dest)
      have hpeer := node.home.lookup_takeFrame hp hrefused
        (helloPayload (node.home.serverId crypto) dest)
      generalize node.home.takeFrame dest (helloPayload (node.home.serverId crypto) dest) = taken
        at htake hpeer ⊢
      obtain ⟨answer, home⟩ := taken
      obtain ⟨hok, hpeer⟩ := hpeer
      cases answer with
      | error e => exact absurd hok Bool.false_ne_true
      | ok frame =>
        dsimp only at htake hpeer ⊢
        cases hhello : readFrame dial.hello with
        | none =>
          refine hsame htake fun h ↦ ?_
          obtain ⟨-, -, -, hello, hhello', -⟩ := hreaches.mp h
          rw [hhello] at hhello'
          cases hhello'
        | some hello =>
          dsimp only
          have haccept := htake.trans (home.talks_acceptFrame crypto dest hello)
          have hgreets := HomeServer.isOk_acceptFrame crypto hpeer hrefused hello
          generalize home.acceptFrame crypto dest hello = accepted at haccept hgreets ⊢
          obtain ⟨answer, greeted⟩ := accepted
          rw [htake.serverId] at hgreets
          cases answer with
          | error e =>
            refine hsame haccept fun h ↦ ?_
            obtain ⟨-, -, -, hello', hhello', hgreets'⟩ := hreaches.mp h
            rw [hhello] at hhello'
            cases hhello'
            exact Bool.false_ne_true (hgreets.mpr hgreets')
          | ok payload =>
            have hnoted := haccept.trans (greeted.talks_noteHello dest)
            obtain ⟨hhops, hrows⟩ := Node.expiredRows_pumpGreeted crypto
              { node with home := greeted.noteHello dest } dest dial
            refine ⟨hnoted.toHops.trans hhops, fun row ↦ ?_⟩
            have hreached : dial.Reaches crypto node.home dest :=
              hreaches.mpr ⟨by simpa using hconfigured, by simpa using hconnected, hrefused, hello,
                hhello, hgreets.mp rfl⟩
            dsimp only
            rw [hrows, List.mem_filter, decide_eq_true_eq, hnoted.expiredRows,
              and_iff_left hreached]

/-! ## Every destination -/

theorem HomeServer.mem_addDue (out : List ServerId) (row : OutboundRow) :
    dest ∈ home.addDue out row ↔ dest ∈ out ∨ (home.peers.lookup dest).isSome = true ∧
      home.peerRefused dest = false ∧ row.dest = dest ∧ row.nextAttempt ≤ home.now := by
  unfold HomeServer.addDue
  split_ifs with hdue hpeer
  · rw [Bool.and_eq_true, Bool.not_eq_true'] at hpeer
    rw [List.mem_append, List.mem_singleton]
    refine or_congr_right ⟨?_, fun h ↦ h.2.2.1.symm⟩
    rintro rfl
    exact ⟨hpeer.1, hpeer.2, rfl, hdue.1⟩
  · refine (or_iff_left ?_).symm
    rintro ⟨hsome, hrefused, rfl, -⟩
    exact hpeer (by rw [hsome, hrefused]; rfl)
  · refine (or_iff_left_of_imp ?_).symm
    rintro ⟨-, -, rfl, htime⟩
    exact not_not.mp fun hout ↦ hdue ⟨htime, hout⟩

theorem HomeServer.nodup_addDue {out : List ServerId} (h : out.Nodup) (row : OutboundRow) :
    (home.addDue out row).Nodup := by
  unfold HomeServer.addDue
  split_ifs with hdue
  · exact h.append (List.nodup_singleton _) (List.disjoint_singleton.mpr hdue.2)
  · exact h
  · exact h

theorem HomeServer.mem_dueDestinations :
    dest ∈ home.dueDestinations ↔ (home.peers.lookup dest).isSome = true ∧
      home.peerRefused dest = false ∧
        ∃ row ∈ home.outbound, row.dest = dest ∧ row.nextAttempt ≤ home.now := by
  have hturns (rows : List OutboundRow) (out : List ServerId) :
      dest ∈ rows.foldl home.addDue out ↔ dest ∈ out ∨ (home.peers.lookup dest).isSome = true ∧
        home.peerRefused dest = false ∧
          ∃ row ∈ rows, row.dest = dest ∧ row.nextAttempt ≤ home.now := by
    induction rows generalizing out with
    | nil => simp
    | cons row rows ih =>
      rw [List.foldl_cons, ih, mem_addDue, List.exists_mem_cons_iff, or_assoc, ← and_or_left,
        ← and_or_left]
  rw [dueDestinations, hturns, or_iff_right List.not_mem_nil]

theorem HomeServer.nodup_dueDestinations (home : HomeServer) : home.dueDestinations.Nodup := by
  have hturns (rows : List OutboundRow) (out : List ServerId) (h : out.Nodup) :
      (rows.foldl home.addDue out).Nodup := by
    induction rows generalizing out with
    | nil => exact h
    | cons row rows ih => exact ih _ (nodup_addDue h row)
  exact hturns home.outbound [] List.nodup_nil

/-- Dialling one peer after another drops the rows that are too old whose peer is reached. -/
theorem Node.expiredRows_foldl_dialAndPump (crypto : Crypto) (node : Node)
    (dials : ServerId → Dial) {dests : List ServerId} (hnodup : dests.Nodup) :
    (dests.foldl (fun node dest ↦ (node.dialAndPump crypto dest (dials dest)).2) node).home.now =
        node.home.now ∧
      ∀ row, row ∈ (dests.foldl (fun node dest ↦
          (node.dialAndPump crypto dest (dials dest)).2) node).home.expiredRows ↔
        row ∈ node.home.expiredRows ∧
          ¬(row.dest ∈ dests ∧ (dials row.dest).Reaches crypto node.home row.dest) := by
  induction dests generalizing node with
  | nil => exact ⟨rfl, fun row ↦ by simp⟩
  | cons dest dests ih =>
    obtain ⟨hnot, hnodup⟩ := List.nodup_cons.mp hnodup
    obtain ⟨hhops, hrows⟩ := node.expiredRows_dialAndPump crypto dest (dials dest)
    obtain ⟨hnow, hrest⟩ := ih (node.dialAndPump crypto dest (dials dest)).2 hnodup
    refine ⟨hnow.trans hhops.now, fun row ↦ ?_⟩
    rw [List.foldl_cons, hrest, hrows, and_assoc, List.mem_cons]
    refine and_congr_right fun _ ↦ ?_
    by_cases hdest : row.dest = dest
    · subst hdest
      simp [hnot]
    · rw [hhops.reaches_iff hdest]
      simp [hdest]

/-- Once `pump_due` has run no queued row is too old if and only if every peer a row that is too old
is queued for also has a row due and its dial gets as far as the hello. -/
theorem pumpDue_drops_expired_iff (crypto : Crypto) (node : Node) (dials : ServerId → Dial) :
    let after := node.pumpDue crypto dials
    (∀ row ∈ after.home.outbound, after.home.now - row.enqueuedAt ≤ outboundMaxAgeSecs) ↔
      ∀ row ∈ node.home.outbound, outboundMaxAgeSecs < node.home.now - row.enqueuedAt →
        (∃ due ∈ node.home.outbound, due.dest = row.dest ∧ due.nextAttempt ≤ node.home.now) ∧
          (dials row.dest).Reaches crypto node.home row.dest := by
  obtain ⟨hnow, hrows⟩ :=
    node.expiredRows_foldl_dialAndPump crypto dials node.home.nodup_dueDestinations
  have hmem (home : HomeServer) (row : OutboundRow) : row ∈ home.expiredRows ↔
      row ∈ home.outbound ∧ outboundMaxAgeSecs < home.now - row.enqueuedAt := by
    rw [HomeServer.expiredRows, List.mem_filter, OutboundRow.unexpired, Bool.not_eq_true',
      decide_eq_false_iff_not, not_le]
  dsimp only
  calc
    _ ↔ ∀ row, row ∉ (node.pumpDue crypto dials).home.expiredRows := by
      refine forall_congr' fun row ↦ ?_
      rw [hmem, not_and, not_lt]
    _ ↔ ∀ row, row ∈ node.home.expiredRows → row.dest ∈ node.home.dueDestinations ∧
        (dials row.dest).Reaches crypto node.home row.dest := by
      refine forall_congr' fun row ↦ ?_
      rw [Node.pumpDue, hrows, not_and, not_not]
    _ ↔ _ := by
      refine forall_congr' fun row ↦ ?_
      rw [hmem, and_imp]
      refine forall_congr' fun _ ↦ forall_congr' fun _ ↦ and_congr_left fun hreaches ↦ ?_
      obtain ⟨-, -, p, -, hp, hrefused, -⟩ := hreaches
      rw [HomeServer.mem_dueDestinations, HomeServer.peerRefused, hp]
      simp [hrefused]

set_option maxRecDepth 100000 in
/-- A row for a server that was never pinned is still queued after fifteen days. -/
theorem pumpDue_keeps_expired_row :
    let crypto := Crypto.transparent
    let key : Key := .replicate 32 1
    let stranger : ServerId := .replicate 32 2
    let node := run (NodeOp.apply crypto) (.first crypto ⟨key, key⟩ key ⟨"local", by decide⟩ 8443)
      [.home (.enqueue ⟨stranger, []⟩), .home (.setNow (1700000000 + 15 * 24 * 3600))]
    let after := node.pumpDue crypto fun _ ↦ ⟨true, true, none, fun _ ↦ none, fun _ ↦ false⟩
    ¬∀ row ∈ after.home.outbound, after.home.now - row.enqueuedAt ≤ outboundMaxAgeSecs := by
  decide +kernel

end Expired

end NemoMessenger.Server
