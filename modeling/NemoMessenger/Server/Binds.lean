import NemoMessenger.Server.Restart

/-!
# Parameters of the statements of a persist

A statement of PostgreSQL binds at most 65535 parameters. The statements of `persist_inner` about
one row bind a few, those about many rows so many for each row, whatever the number of rows: the
window of encapsulated keys is small, and nothing bounds the others. A statement that binds too many
parameters fails, and so does every later `persist` that still has the rows to write.
-/

namespace NemoMessenger.Server

open NemoMessenger.Data NemoMessenger.Wire

/-! ## Statements -/

/-- The parameters a statement can bind. -/
def maxBinds : ℕ := 65535

/-- `push_values` over rows of so many columns, as the parameters of its statement. Without rows
there is none. -/
def insertBinds (columns rows : ℕ) : List ℕ := if rows = 0 then [] else [columns * rows]

/-- The parameters of `upsert_token`. -/
def TokenKind.binds : TokenKind → ℕ
  | share .. => 5
  | contact .. => 5

/-- The parameters of the statements `persist_inner` makes for the journal of the home server, in
the order of the source. -/
def HomeServer.binds (home : HomeServer) (hd : HomeDirty) : List ℕ :=
  (if hd.serverIdentity then [6] else []) ++
  hd.identities.map (fun _ ↦ 9) ++
  hd.mailboxCleared.map (fun _ ↦ 1) ++
  hd.mailboxDropped.map (fun _ ↦ 2) ++
  hd.mailboxAcked.entries.map (fun _ ↦ 2) ++
  insertBinds 6 (hd.mailboxNew.filterMap home.memoryRow).length ++
  hd.tokensDropped.map (fun _ ↦ 1) ++
  hd.tokensDroppedExact.map (fun _ ↦ 1) ++
  hd.tokens.filterMap (fun token ↦
    (home.tokens.find? fun entry ↦ entry.1 = token).map fun entry ↦ entry.2.binds) ++
  hd.prekeys.flatMap (fun owner ↦
    1 :: insertBinds 2 ((home.prekeys.lookup owner).getD []).length) ++
  hd.memberships.flatMap (fun owner ↦
    1 :: insertBinds 2 ((home.memberships.lookup owner).getD []).length) ++
  hd.peers.filterMap (fun peer ↦ (home.peers.lookup peer).map fun _ ↦ 5) ++
  (if hd.outboundDirty then 0 :: insertBinds 5 home.outbound.length else []) ++
  (if hd.seenEncCleared then 0 :: insertBinds 3 home.seenEnc.entries.length
    else insertBinds 3 (hd.seenEncNew.filterMap home.seenEnc.lookup).length)

/-- The parameters of `rewrite_invites` and `rewrite_pending`. -/
def GroupHost.rewriteBinds {V : Type} (host : GroupHost) (columns : ℕ)
    (rowsOf : GroupState → FiniteMap Key V) (groupId : GroupId) : List ℕ :=
  1 :: match host.groups.lookup groupId with
    | none => []
    | some g => insertBinds columns (rowsOf g).entries.length

/-- The parameters of the statements `persist_inner` makes for the journal of the group host. -/
def GroupHost.binds (host : GroupHost) (gd : GroupDirty) : List ℕ :=
  gd.groups.filterMap (fun groupId ↦ (host.groups.lookup groupId).map fun _ ↦ 4) ++
  gd.creds.filterMap (fun key ↦
    ((host.groups.lookup key.1).bind fun g ↦ g.creds.lookup key.2).map fun _ ↦ 7) ++
  gd.invites.flatMap (host.rewriteBinds 5 GroupState.invites) ++
  gd.pending.flatMap (host.rewriteBinds 7 GroupState.pending) ++
  insertBinds 5 (gd.streamNew.filterMap host.streamRow).length ++
  gd.files.filterMap (fun token ↦ (host.files.lookup token).map fun _ ↦ 6)

/-- The parameters of the statements of `persist`, as long as none of them fails. -/
def Node.binds (node : Node) : List ℕ :=
  if node.home.dirty.isClean && node.host.dirty.isClean then []
  else node.home.binds node.home.dirty ++ node.host.binds node.host.dirty

/-! ## Backlogs that fit -/

/-- The journaled rows of a home server are not too many for one statement each. -/
structure HomeServer.Fits (home : HomeServer) : Prop where
  mailboxRows : (home.dirty.mailboxNew.filterMap home.memoryRow).length ≤ 10922
  prekeys : ∀ owner ∈ home.dirty.prekeys,
    ((home.prekeys.lookup owner).getD []).length ≤ 32767
  memberships : ∀ owner ∈ home.dirty.memberships,
    ((home.memberships.lookup owner).getD []).length ≤ 32767
  outbound : home.dirty.outboundDirty = true → home.outbound.length ≤ 13107

/-- The journaled rows of a group host are not too many for one statement each. -/
structure GroupHost.Fits (host : GroupHost) : Prop where
  invites : ∀ groupId ∈ host.dirty.invites, ∀ g, host.groups.lookup groupId = some g →
    g.invites.entries.length ≤ 13107
  pending : ∀ groupId ∈ host.dirty.pending, ∀ g, host.groups.lookup groupId = some g →
    g.pending.entries.length ≤ 9362
  stream : (host.dirty.streamNew.filterMap host.streamRow).length ≤ 13107

theorem forall_insertBinds {columns rows bound : ℕ} :
    (∀ n ∈ insertBinds columns rows, n ≤ bound) ↔ columns * rows ≤ bound := by
  unfold insertBinds
  split_ifs with h
  · simp [h]
  · simp

theorem forall_rewriteBinds {V : Type} {host : GroupHost} {columns bound : ℕ} (hone : 1 ≤ bound)
    {rowsOf : GroupState → FiniteMap Key V} {groupId : GroupId} :
    (∀ n ∈ host.rewriteBinds columns rowsOf groupId, n ≤ bound) ↔
      ∀ g, host.groups.lookup groupId = some g → columns * (rowsOf g).entries.length ≤ bound := by
  unfold GroupHost.rewriteBinds
  cases host.groups.lookup groupId with
  | none => simpa using hone
  | some g => simp [forall_insertBinds, hone]

/-- The window of encapsulated keys is written with few parameters. -/
def HomeServer.SeenFits (home : HomeServer) : Prop :=
  home.seenEnc.entries.length ≤ hpkeEncWindow ∧
    (home.dirty.seenEncCleared = false →
      (home.dirty.seenEncNew.filterMap home.seenEnc.lookup).length ≤ hpkeEncWindow)

theorem forall_flatMap_binds {A : Type} {f : A → List ℕ} {as : List A} {bound : ℕ} :
    (∀ n ∈ as.flatMap f, n ≤ bound) ↔ ∀ a ∈ as, ∀ n ∈ f a, n ≤ bound := by
  simp only [List.mem_flatMap]
  exact ⟨fun h a ha n hn ↦ h n ⟨a, ha, hn⟩, fun h n ⟨a, ha, hn⟩ ↦ h a ha n hn⟩

theorem forall_map_binds {A : Type} {k bound : ℕ} (hk : k ≤ bound) (as : List A) :
    ∀ n ∈ as.map fun _ ↦ k, n ≤ bound := by
  intro n hn
  obtain ⟨a, -, rfl⟩ := List.mem_map.mp hn
  exact hk

theorem forall_filterMap_binds {A B : Type} {bound : ℕ} {f : A → Option B} {g : B → ℕ}
    (hg : ∀ b, g b ≤ bound) (as : List A) : ∀ n ∈ as.filterMap fun a ↦ (f a).map g, n ≤ bound := by
  intro n hn
  obtain ⟨a, -, ha⟩ := List.mem_filterMap.mp hn
  obtain ⟨b, -, rfl⟩ := Option.map_eq_some_iff.mp ha
  exact hg b

theorem TokenKind.binds_le (kind : TokenKind) : kind.binds ≤ maxBinds := by
  cases kind <;> exact (by decide : 5 ≤ maxBinds)

theorem HomeServer.forall_binds {home : HomeServer} (hseen : home.SeenFits) :
    (∀ n ∈ home.binds home.dirty, n ≤ maxBinds) ↔ home.Fits := by
  have hsmall : ∀ k ≤ 9, k ≤ maxBinds := fun k hk ↦ hk.trans (by decide)
  have hwindow : ∀ n ∈ (if home.dirty.seenEncCleared then
      0 :: insertBinds 3 home.seenEnc.entries.length
      else insertBinds 3 (home.dirty.seenEncNew.filterMap home.seenEnc.lookup).length),
      n ≤ maxBinds := by
    have hthree : ∀ rows ≤ hpkeEncWindow, 3 * rows ≤ maxBinds := by
      unfold hpkeEncWindow maxBinds
      omega
    split_ifs with hcleared
    · exact List.forall_mem_cons.mpr
        ⟨Nat.zero_le _, forall_insertBinds.mpr (hthree _ hseen.1)⟩
    · exact forall_insertBinds.mpr (hthree _ (hseen.2 (by simpa using hcleared)))
  have hidentity : ∀ n ∈ (if home.dirty.serverIdentity then [6] else []), n ≤ maxBinds := by
    split_ifs
    · simpa using hsmall 6 (by decide)
    · simp
  have houtbound : (∀ n ∈ (if home.dirty.outboundDirty then
      0 :: insertBinds 5 home.outbound.length else []), n ≤ maxBinds) ↔
      (home.dirty.outboundDirty = true → 5 * home.outbound.length ≤ maxBinds) := by
    split_ifs with hdirty
    · rw [List.forall_mem_cons, forall_insertBinds]
      simp [hdirty]
    · simp [hdirty]
  unfold binds
  simp only [List.forall_mem_append, forall_flatMap_binds, List.forall_mem_cons, forall_insertBinds,
    houtbound]
  unfold maxBinds at *
  constructor
  · rintro ⟨⟨⟨⟨⟨⟨⟨⟨⟨⟨⟨⟨⟨-, -⟩, -⟩, -⟩, -⟩, hrows⟩, -⟩, -⟩, -⟩, hprekeys⟩, hmembers⟩, -⟩, hqueue⟩, -⟩
    constructor
    · omega
    · intro owner howner
      have := (hprekeys owner howner).2
      omega
    · intro owner howner
      have := (hmembers owner howner).2
      omega
    · intro hdirty
      have := hqueue hdirty
      omega
  · rintro ⟨hrows, hprekeys, hmembers, hqueue⟩
    refine ⟨⟨⟨⟨⟨⟨⟨⟨⟨⟨⟨⟨⟨hidentity, forall_map_binds (hsmall 9 le_rfl) _⟩,
      forall_map_binds (hsmall 1 (by decide)) _⟩, forall_map_binds (hsmall 2 (by decide)) _⟩,
      forall_map_binds (hsmall 2 (by decide)) _⟩, by omega⟩,
      forall_map_binds (hsmall 1 (by decide)) _⟩, forall_map_binds (hsmall 1 (by decide)) _⟩,
      forall_filterMap_binds (fun entry ↦ entry.2.binds_le) _⟩, fun owner howner ↦ ?_⟩,
      fun owner howner ↦ ?_⟩, forall_filterMap_binds (fun _ ↦ hsmall 5 (by decide)) _⟩,
      fun hdirty ↦ ?_⟩, hwindow⟩
    · have := hprekeys owner howner
      omega
    · have := hmembers owner howner
      omega
    · have := hqueue hdirty
      omega

theorem GroupHost.forall_binds {host : GroupHost} :
    (∀ n ∈ host.binds host.dirty, n ≤ maxBinds) ↔ host.Fits := by
  have hsmall : ∀ k ≤ 9, k ≤ maxBinds := fun k hk ↦ hk.trans (by decide)
  unfold binds
  simp only [List.forall_mem_append, forall_flatMap_binds,
    forall_rewriteBinds (hsmall 1 (by decide)), forall_insertBinds]
  unfold maxBinds at *
  constructor
  · rintro ⟨⟨⟨⟨⟨-, -⟩, hinvites⟩, hpending⟩, hstream⟩, -⟩
    constructor
    · intro groupId hgroup g hg
      have := hinvites groupId hgroup g hg
      omega
    · intro groupId hgroup g hg
      have := hpending groupId hgroup g hg
      omega
    · omega
  · rintro ⟨hinvites, hpending, hstream⟩
    refine ⟨⟨⟨⟨⟨forall_filterMap_binds (fun _ ↦ hsmall 4 (by decide)) _,
      forall_filterMap_binds (fun _ ↦ hsmall 7 (by decide)) _⟩, fun groupId hgroup g hg ↦ ?_⟩,
      fun groupId hgroup g hg ↦ ?_⟩, by omega⟩,
      forall_filterMap_binds (fun _ ↦ hsmall 6 (by decide)) _⟩
    · have := hinvites groupId hgroup g hg
      omega
    · have := hpending groupId hgroup g hg
      omega

/-! ## The window of encapsulated keys -/

/-- Memory and table of the window are small, and the journal fits to them. -/
structure Node.Windowed (node : Node) : Prop where
  small : node.home.seenEnc.entries.length ≤ hpkeEncWindow
  stored : node.db.hpkeSeen.entries.length ≤ hpkeEncWindow
  table : node.home.dirty.seenEncCleared = false →
    SeenTable node.home.seenEnc node.home.dirty.seenEncNew node.db.hpkeSeen

section Windowed

variable {crypto : Crypto} {node : Node}

theorem Node.Windowed.seenFits (h : node.Windowed) : node.home.SeenFits := by
  refine ⟨h.small, fun hclean ↦ ?_⟩
  have htable := h.table hclean
  calc
    (node.home.dirty.seenEncNew.filterMap node.home.seenEnc.lookup).length
      ≤ node.home.dirty.seenEncNew.length := List.length_filterMap_le _ _
    _ ≤ node.home.seenEnc.entries.length :=
      FiniteMap.length_le_of_keys htable.newNodup htable.newLive
    _ ≤ hpkeEncWindow := h.small

theorem LoudEdit.windowed {promises : Promises} {home home' : HomeServer}
    (h : LoudEdit crypto promises home home')
    (hsmall : home.seenEnc.entries.length ≤ hpkeEncWindow) :
    home'.seenEnc.entries.length ≤ hpkeEncWindow := by
  cases h with
  | store | note => exact hsmall
  | quiet h =>
    cases h <;> exact hsmall
  | remember enc seq hnew =>
    unfold HomeServer.rememberEnc
    dsimp only
    split_ifs with hfull
    · exact (FiniteMap.length_entries_insert_le _ _ _).trans (by decide)
    · have hroom : ¬home.seenEnc.entries.length ≥ hpkeEncWindow := by simpa using hfull
      exact (FiniteMap.length_entries_insert_le _ _ _).trans (Nat.lt_of_not_ge hroom)

/-- A transaction writes the window, or the keys that are new in it. -/
theorem hpkeSeen_of_persistInner {home : HomeServer} {host : GroupHost} {hd : HomeDirty}
    {gd : GroupDirty} {db db' : Database} (h : Database.persistInner home host hd gd db = .ok db') :
    Database.writeSeen home hd db.hpkeSeen = .ok db'.hpkeSeen := by
  unfold Database.persistInner at h
  obtain ⟨mid, hhome, h⟩ := bind_eq_ok.mp h
  unfold Database.persistHome at hhome
  obtain ⟨mailboxRows, -, hhome⟩ := bind_eq_ok.mp hhome
  obtain ⟨tokens, -, hhome⟩ := bind_eq_ok.mp hhome
  obtain ⟨prekeys, -, hhome⟩ := bind_eq_ok.mp hhome
  obtain ⟨memberships, -, hhome⟩ := bind_eq_ok.mp hhome
  obtain ⟨hpkeSeen, hseen, hhome⟩ := bind_eq_ok.mp hhome
  unfold Database.persistGroups at h
  obtain ⟨groupCreds, -, h⟩ := bind_eq_ok.mp h
  obtain ⟨groupInvites, -, h⟩ := bind_eq_ok.mp h
  obtain ⟨groupPending, -, h⟩ := bind_eq_ok.mp h
  obtain ⟨groupStream, -, h⟩ := bind_eq_ok.mp h
  obtain ⟨groupFiles, -, h⟩ := bind_eq_ok.mp h
  cases hhome
  cases h
  exact hseen

/-- A window that has been written agrees with its table. -/
theorem lookup_of_writeSeen {home : HomeServer} {stored rows : FiniteMap Key ℕ}
    (h : Database.writeSeen home home.dirty stored = .ok rows)
    (htable : home.dirty.seenEncCleared = false →
      SeenTable home.seenEnc home.dirty.seenEncNew stored) (enc : Key) :
    rows.lookup enc = home.seenEnc.lookup enc := by
  unfold Database.writeSeen at h
  split_ifs at h with hcleared
  · cases h
    rfl
  · obtain ⟨rows', hrows', hlookup⟩ := @insertSeenNew_eq_ok home
      { Database.empty with hpkeSeen := stored } (htable (by simpa using hcleared))
    cases h.symm.trans hrows'
    exact hlookup enc

theorem Node.Windowed.persist (h : node.Windowed) (fault : Bool) :
    (node.persist fault).2.Windowed := by
  unfold Node.persist Server.persist
  split_ifs
  · exact h
  · exact ⟨h.small, h.stored, h.table⟩
  · dsimp only
    split
    · exact ⟨h.small, h.stored, h.table⟩
    · rename_i db hdb
      have hlookup := lookup_of_writeSeen (hpkeSeen_of_persistInner hdb) h.table
      refine ⟨h.small, ?_, fun _ ↦ ⟨List.nodup_nil, by simp, by simp, fun enc _ ↦ hlookup enc⟩⟩
      have hlength : db.hpkeSeen.keys.length ≤ node.home.seenEnc.entries.length := by
        refine FiniteMap.length_le_of_keys db.hpkeSeen.keys_nodup fun k hk ↦ ?_
        rwa [← hlookup k, AList.lookup_isSome, AList.mem_keys]
      rw [AList.keys, List.keys, List.length_map] at hlength
      exact hlength.trans h.small

theorem Node.Windowed.reload (h : node.Windowed) : (node.reload crypto).Windowed := by
  rcases node.reload_reads crypto with hsame | ⟨loaded, host, hread, hreload⟩
  · rwa [hsame]
  · rw [hreload]
    refine ⟨?_, h.stored, fun _ ↦ ?_⟩
    · change loaded.seenEnc.entries.length ≤ hpkeEncWindow
      rw [hread.seenEnc]
      exact h.stored
    · change SeenTable loaded.seenEnc loaded.dirty.seenEncNew node.db.hpkeSeen
      rw [hread.seenEnc, hread.dirty]
      exact ⟨List.nodup_nil, by simp, by simp, fun _ _ ↦ rfl⟩

/-- The window is small after every operation. -/
theorem Node.Windowed.apply (h : node.Windowed) (op : NodeOp) :
    (op.apply crypto node).Windowed := by
  cases op with
  | group op => exact ⟨h.small, h.stored, h.table⟩
  | persist fault => exact h.persist fault
  | reload => exact h.reload
  | home op =>
    have hedits := op.apply_edits crypto .none node.home (op.meets_none crypto node.home)
    refine ⟨?_, h.stored, ?_⟩
    · exact hedits.keeps (fun s ↦ s.seenEnc.entries.length ≤ hpkeEncWindow)
        (fun _ _ hedit ↦ hedit.windowed) h.small
    · exact hedits.keeps (fun s ↦ s.dirty.seenEncCleared = false →
        SeenTable s.seenEnc s.dirty.seenEncNew node.db.hpkeSeen)
        (fun _ _ hedit ↦ hedit.seenSynced) h.table

theorem Node.windowed_first (crypto : Crypto) (hpke : HpkeKeypair) (sign : Key) (host : Text)
    (s2sPort : UInt16) : (Node.first crypto hpke sign host s2sPort).Windowed :=
  ⟨Nat.zero_le _, Nat.zero_le _, fun _ ↦ ⟨List.nodup_nil, nofun, nofun, fun _ _ ↦ rfl⟩⟩

/-- A journal without entries has no rows to write. -/
theorem Node.fits_of_clean (hclean : (node.home.dirty.isClean && node.host.dirty.isClean) = true) :
    node.home.Fits ∧ node.host.Fits := by
  rw [Bool.and_eq_true, HomeDirty.isClean_iff, GroupDirty.isClean_iff] at hclean
  obtain ⟨hhome, hhost⟩ := hclean
  constructor
  · constructor <;> simp [hhome]
  · constructor <;> simp [hhost]

theorem Node.Windowed.forall_binds (h : node.Windowed) :
    (∀ n ∈ node.binds, n ≤ maxBinds) ↔ node.home.Fits ∧ node.host.Fits := by
  unfold Node.binds
  split_ifs with hclean
  · exact iff_of_true (by simp) (Node.fits_of_clean hclean)
  · rw [List.forall_mem_append, HomeServer.forall_binds h.seenFits, GroupHost.forall_binds]

end Windowed

/-- At every point of every run, with whatever journal failures have left, each statement of the
next `persist` stays within the limit exactly when the journaled rows of each table fit. -/
theorem binds_le_iff_fits (crypto : Crypto) (hpke : HpkeKeypair) (sign : Key) (host : Text)
    (s2sPort : UInt16) (ops : List NodeOp) :
    let node := run (NodeOp.apply crypto) (.first crypto hpke sign host s2sPort) ops
    (∀ n ∈ node.binds, n ≤ maxBinds) ↔ node.home.Fits ∧ node.host.Fits :=
  (run_keeps Node.Windowed (fun _ op h ↦ h.apply op)
    (Node.windowed_first crypto hpke sign host s2sPort) ops).forall_binds

/-- Envelopes to another server wait in the queue, however many there are. -/
theorem outbound_run_enqueue {crypto : Crypto} {outer : OuterEnvelope} (n : ℕ) {node : Node}
    (hdest : outer.destinationServerId ≠ node.home.serverId crypto)
    (hdirty : node.home.dirty.outboundDirty = true ∨ 0 < n) :
    let after := run (NodeOp.apply crypto) node (List.replicate n (.home (.enqueue outer)))
    after.home.outbound.length = node.home.outbound.length + n ∧
      after.home.dirty.outboundDirty = true := by
  induction n generalizing node with
  | zero => exact ⟨rfl, hdirty.resolve_right (Nat.lt_irrefl 0)⟩
  | succ n ih =>
    have hstep : (NodeOp.home (.enqueue outer)).apply crypto node =
        { node with home := node.home.setOutbound (node.home.outbound ++
          [{ dest := outer.destinationServerId, outer, enqueuedAt := node.home.now,
             nextAttempt := node.home.now, backoffSecs := 1 }]) } := by
      simp only [NodeOp.apply, HomeOp.apply, HomeServer.enqueue, if_neg hdest]
    obtain ⟨hlength, hmarked⟩ := @ih ((NodeOp.home (.enqueue outer)).apply crypto node)
      (by rwa [hstep]) (by rw [hstep]; exact .inl rfl)
    refine ⟨?_, hmarked⟩
    calc
      _ = ((NodeOp.home (.enqueue outer)).apply crypto node).home.outbound.length + n := hlength
      _ = node.home.outbound.length + (n + 1) := by
        rw [hstep, HomeServer.setOutbound, List.length_append, List.length_singleton]
        omega

/-- A queue that is longer than fits makes a statement that is too long. -/
theorem not_forall_binds_of_outbound {node : Node} (hwindowed : node.Windowed)
    (hdirty : node.home.dirty.outboundDirty = true) (hlong : 13107 < node.home.outbound.length) :
    ¬∀ n ∈ node.binds, n ≤ maxBinds := by
  intro hbinds
  exact Nat.not_le.mpr hlong ((hwindowed.forall_binds.mp hbinds).1.outbound hdirty)

/-- One envelope more than fits, for a server that does not answer. -/
theorem outbound_backlog_exceeds :
    let key : Key := .replicate 32 1
    let start := Node.first .transparent ⟨key, key⟩ key ⟨"local", by decide⟩ 8443
    ¬∀ n ∈ (run (NodeOp.apply .transparent) start
      (List.replicate 13108 (.home (.enqueue (.blank (.replicate 32 9)))))).binds, n ≤ maxBinds := by
  intro key start
  have hdest : (OuterEnvelope.blank (.replicate 32 9)).destinationServerId ≠
      start.home.serverId .transparent := by
    decide +kernel
  have hwaiting := outbound_run_enqueue 13108 hdest (.inr (Nat.succ_pos _))
  refine not_forall_binds_of_outbound (run_keeps Node.Windowed (fun _ op h ↦ h.apply op)
    (Node.windowed_first .transparent ⟨key, key⟩ key ⟨"local", by decide⟩ 8443) _) hwaiting.2 ?_
  rw [hwaiting.1]
  exact Nat.lt_add_left _ (Nat.lt_succ_self _)

end NemoMessenger.Server
