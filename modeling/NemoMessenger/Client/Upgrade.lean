import NemoMessenger.Client.Silent

/-!
# Upgrading a conversation

A peer that opens a session with a client is known by a provisional id until it introduces itself.
Then its conversation goes on under the id of its identity, in the middle of a fetch that may have
read earlier rows of it.
-/

namespace NemoMessenger.Client

open NemoMessenger.Data NemoMessenger.Wire
open Program (run run_bind)

variable {p : Outside} {env : Environment} {w : World} {peer real : IdentityId} {capability : Key}
  {intro : CapabilityIntro} {batch : Batch} {shell : Shell} {source target : String}

theorem toHex_inj {a b : Bytes} : toHex a = toHex b ↔ a = b := by
  refine ⟨fun h ↦ ?_, congrArg toHex⟩
  have hbytes : Cbor.hexBytes a = Cbor.hexBytes b := by
    rw [← Cbor.textBytes_toHex, ← Cbor.textBytes_toHex, h]
  exact Except.ok.inj (by rw [← Cbor.fromHex_hexBytes, hbytes, Cbor.fromHex_hexBytes])

theorem toHex_data_inj {a b : Key} : toHex a.data = toHex b.data ↔ a = b :=
  toHex_inj.trans ⟨FixedBytes.ext_data, congrArg FixedBytes.data⟩

theorem max_comm_seq (a b : UInt64) : max a b = max b a := by
  change (if a ≤ b then b else a) = if b ≤ a then a else b
  grind

theorem zero_max_seq (a : UInt64) : max 0 a = a := if_pos UInt64.zero_le

/-! ## Conversations that end -/

/-- Nothing of the conversation of a peer is left, in the shell or in the fetch under way. -/
structure Vacated (peer : IdentityId) (shell : Shell) (batch : Batch) : Prop where
  inbox : ∀ row ∈ shell.inbox, row.convId ≠ toHex peer.data
  newRows : ∀ row ∈ batch.newRows, row.convId ≠ toHex peer.data
  nextSeq : shell.nextSeq.lookup (toHex peer.data) = none
  nicknames : shell.nicknames.lookup (toHex peer.data) = none
  disappear : shell.disappear.lookup (toHex peer.data) = none
  acked : shell.acked.lookup (toHex peer.data) = none
  read : shell.read.lookup (toHex peer.data) = none
  invites : ∀ call invite, shell.pendingInvites.lookup call = some invite →
    invite.peer ≠ toHex peer.data
  callPeer : shell.callPeer ≠ some (toHex peer.data)
  acks : batch.acks.lookup peer = none
  gossip : peer ∉ batch.gossip

/-- The peer has sent no receipt and takes part in no call, and no text of it has come in this
fetch. -/
structure Unengaged (peer : IdentityId) (shell : Shell) (batch : Batch) : Prop where
  acked : shell.acked.lookup (toHex peer.data) = none
  read : shell.read.lookup (toHex peer.data) = none
  invites : ∀ call invite, shell.pendingInvites.lookup call = some invite →
    invite.peer ≠ toHex peer.data
  callPeer : shell.callPeer ≠ some (toHex peer.data)
  acks : batch.acks.lookup peer = none
  gossip : peer ∉ batch.gossip

namespace Shell

/-- A mark that is not there is zero. -/
def markOf (marks : FiniteMap String UInt64) (conv : String) : UInt64 := (marks.lookup conv).getD 0

/-- The rows of a conversation. -/
def rowsOf (shell : Shell) (conv : String) : List DisplayRow :=
  shell.inbox.filter (·.convId = conv)

/-- A conversation has gone over into another, and nothing else has changed. -/
structure Merged (source target : String) (shell shell' : Shell) : Prop where
  rows : shell'.rowsOf target =
    (shell.inbox.filter fun row ↦ row.convId = source ∨ row.convId = target).map fun row ↦
      { row with convId := target }
  nextSeq : shell'.seqOf target = max (shell.seqOf source) (shell.seqOf target)
  acked : markOf shell'.acked target = max (markOf shell.acked source) (markOf shell.acked target)
  read : markOf shell'.read target = max (markOf shell.read source) (markOf shell.read target)
  others : ∀ conv, conv ≠ source → conv ≠ target → shell'.rowsOf conv = shell.rowsOf conv

/-! ## What `remap_conv_id` moves -/

theorem lookup_moveKey_source {V : Type} (m : FiniteMap String V) (h : source ≠ target) :
    (moveKey m source target).lookup source = none := by
  unfold moveKey
  cases hsource : m.lookup source with
  | none => exact hsource
  | some v =>
    dsimp only
    split_ifs
    · exact AList.lookup_erase _ _
    · rw [FiniteMap.lookup_insert_ite, if_neg h]
      exact AList.lookup_erase _ _

theorem remapConvId_of_ne (h : source ≠ target) :
    shell.remapConvId source target =
      { shell with
        inbox := shell.inbox.map fun row ↦
          if row.convId = source then { row with convId := target } else row
        nextSeq := match shell.nextSeq.lookup source with
          | none => shell.nextSeq
          | some seq => (shell.nextSeq.erase source).insert target
              (max (((shell.nextSeq.erase source).lookup target).getD 0) seq)
        nicknames := moveKey shell.nicknames source target
        disappear := moveKey shell.disappear source target } :=
  if_neg h

theorem lookup_nextSeq_remapConvId (h : source ≠ target) :
    (shell.remapConvId source target).nextSeq.lookup source = none := by
  rw [remapConvId_of_ne h]
  cases hsource : shell.nextSeq.lookup source with
  | none => simpa using hsource
  | some seq =>
    dsimp only
    rw [FiniteMap.lookup_insert_ite, if_neg h]
    exact AList.lookup_erase _ _

theorem seqOf_remapConvId (h : source ≠ target) :
    (shell.remapConvId source target).seqOf target =
      max (shell.seqOf source) (shell.seqOf target) := by
  rw [remapConvId_of_ne h]
  unfold seqOf
  cases hsource : shell.nextSeq.lookup source with
  | none => exact (zero_max_seq _).symm
  | some seq =>
    have htarget : (shell.nextSeq.erase source).lookup target = shell.nextSeq.lookup target :=
      AList.lookup_erase_ne h.symm
    simp [htarget, max_comm_seq]

theorem rowsOf_remapConvId (h : source ≠ target) :
    (shell.remapConvId source target).rowsOf target =
      (shell.inbox.filter fun row ↦ row.convId = source ∨ row.convId = target).map fun row ↦
        { row with convId := target } := by
  rw [remapConvId_of_ne h]
  unfold rowsOf
  dsimp only
  induction shell.inbox with
  | nil => rfl
  | cons row rows ih =>
    by_cases hsource : row.convId = source
    · simp [hsource, ih]
    · by_cases htarget : row.convId = target
      · subst htarget
        simp [hsource, ih]
      · simp [hsource, htarget, ih]

theorem rowsOf_remapConvId_of_ne {conv : String} (h : source ≠ target) (hsource : conv ≠ source)
    (htarget : conv ≠ target) :
    (shell.remapConvId source target).rowsOf conv = shell.rowsOf conv := by
  rw [remapConvId_of_ne h]
  unfold rowsOf
  dsimp only
  induction shell.inbox with
  | nil => rfl
  | cons row rows ih =>
    by_cases hrow : row.convId = source
    · simp [hrow, ih, htarget.symm, hsource.symm]
    · simp [hrow, ih, List.filter_cons]

/-- No row is left behind. -/
theorem convId_ne_of_mem {rows : List DisplayRow} {row : DisplayRow} (h : source ≠ target)
    (hrow : row ∈ rows.map fun row ↦
      if row.convId = source then { row with convId := target } else row) : row.convId ≠ source := by
  obtain ⟨old, -, rfl⟩ := List.mem_map.mp hrow
  split_ifs with hold
  · exact h.symm
  · exact hold

/-- The conversations merge as far as no mark is left behind. -/
theorem merged_remapConvId (h : source ≠ target) (hacked : shell.acked.lookup source = none)
    (hread : shell.read.lookup source = none) :
    Merged source target shell (shell.remapConvId source target) where
  rows := rowsOf_remapConvId h
  nextSeq := seqOf_remapConvId h
  acked := by
    rw [remapConvId_of_ne h]
    simp [markOf, hacked, zero_max_seq]
  read := by
    rw [remapConvId_of_ne h]
    simp [markOf, hread, zero_max_seq]
  others _ := rowsOf_remapConvId_of_ne h

end Shell

/-! ## The upgrade -/

/-- The batch when the rows of a peer are under the id of its identity. -/
def Batch.remap (batch : Batch) (source target : String) : Batch :=
  { batch with newRows := batch.newRows.map fun row ↦
      if row.convId = source then { row with convId := target } else row }

/-- An introduction that is accepted upgrades the conversation. -/
theorem run_receiveCapability {w₁ : World}
    (h : run (inside p env) (applyContactCapability p peer capability (some intro)
      (env.unix w.tick)) w.ticked = (.ok real, w₁)) :
    ∃ w', run (inside p env) (receiveCapability p peer capability (some intro) batch) w =
        (.ok (batch.remap (toHex peer.data) (toHex real.data)), w') ∧
      w'.inner.shell = w.inner.shell.remapConvId (toHex peer.data) (toHex real.data) := by
  have hshell : w₁.inner.shell = w.inner.shell := by
    have hrun := @shell_run p env _ _ (@silent_applyContactCapability p _ peer capability
      (some intro) (env.unix w.tick)) w.ticked
    rw [h] at hrun
    exact hrun
  unfold receiveCapability
  rw [run_nowUnix_bind, run_bind, Program.run_attempt, h]
  dsimp only
  rw [run_onShell_bind]
  exact ⟨_, rfl, congrArg (Shell.remapConvId · _ _) hshell⟩

/-- A conversation is upgraded completely exactly when the peer has not been engaged under its
provisional id. -/
theorem upgrade_complete_iff {w₁ : World} (hne : real ≠ peer)
    (h : run (inside p env) (applyContactCapability p peer capability (some intro)
      (env.unix w.tick)) w.ticked = (.ok real, w₁)) :
    ∃ batch' w', run (inside p env) (receiveCapability p peer capability (some intro) batch) w =
        (.ok batch', w') ∧
      (Vacated peer w'.inner.shell batch' ∧
        Shell.Merged (toHex peer.data) (toHex real.data) w.inner.shell w'.inner.shell ↔
          Unengaged peer w.inner.shell batch) := by
  have hsource : toHex peer.data ≠ toHex real.data := fun heq ↦ hne (toHex_data_inj.mp heq).symm
  obtain ⟨w', hrun, hshell⟩ := @run_receiveCapability p env w peer real capability intro batch w₁ h
  refine ⟨_, w', hrun, ?_⟩
  rw [hshell]
  constructor
  · rintro ⟨hvacated, -⟩
    obtain ⟨-, -, -, -, -, hacked, hread, hinvites, hcall, hacks, hgossip⟩ := hvacated
    rw [Shell.remapConvId_of_ne hsource] at hacked hread hinvites hcall
    exact ⟨hacked, hread, hinvites, hcall, hacks, hgossip⟩
  · intro hquiet
    refine ⟨?_, Shell.merged_remapConvId hsource hquiet.acked hquiet.read⟩
    have hnext := @Shell.lookup_nextSeq_remapConvId w.inner.shell _ _ hsource
    rw [Shell.remapConvId_of_ne hsource] at hnext ⊢
    exact
      { inbox := fun row hrow ↦ Shell.convId_ne_of_mem hsource hrow
        newRows := fun row hrow ↦ Shell.convId_ne_of_mem hsource hrow
        nextSeq := hnext
        nicknames := Shell.lookup_moveKey_source _ hsource
        disappear := Shell.lookup_moveKey_source _ hsource
        acked := hquiet.acked
        read := hquiet.read
        invites := hquiet.invites
        callPeer := hquiet.callPeer
        acks := hquiet.acks
        gossip := hquiet.gossip }

/-! ## A provisional peer -/

/-- A peer without a contact, whose session is known under a provisional id. -/
def World.provisional (shell : Shell) : World where
  inner :=
    { Inner.empty (some (.registered { HomeSession.acquainted with contacts := ∅ })) true none with
      shell }
  taken := false
  vault := World.acquainted.vault
  log := []
  bonds := []
  tick := 0

/-- It introduces itself as another identity. -/
def CapabilityIntro.provisional : CapabilityIntro where
  identityId := .replicate 32 2
  identityPublicKey := .replicate 32 2
  revocationPublicKey := .replicate 32 2
  destHpke := .replicate 32 0
  bindingSeq := 1
  sessionKey := [1]
  recipient := .replicate 32 0
  signature := .replicate 64 0

/-- The run that takes the introduction in. -/
def World.introduced (w : World) : Except CoreError IdentityId × World :=
  run (inside .transparent .silent) (applyContactCapability .transparent (.replicate 32 1)
    (.replicate 32 1) (some .provisional) (Environment.silent.unix w.tick)) w.ticked

theorem World.introduced_eq {w : World}
    (h : w.introduced.1.toOption = some (.replicate 32 2)) :
    run (inside .transparent .silent) (applyContactCapability .transparent (.replicate 32 1)
      (.replicate 32 1) (some .provisional) (Environment.silent.unix w.tick)) w.ticked =
        (.ok (.replicate 32 2), w.introduced.2) := by
  change w.introduced = _
  generalize w.introduced = r at h ⊢
  obtain ⟨answer, t⟩ := r
  cases answer with
  | error e => cases h
  | ok real =>
    cases h
    rfl

/-- The peer and its identity have rows; under the provisional id stand a nickname and a timer. -/
def Shell.conversing : Shell :=
  { Shell.empty with
    inbox := [Shell.blankRow (toHex (FixedBytes.replicate 32 1).data) 1 5 false,
      Shell.blankRow (toHex (FixedBytes.replicate 32 2).data) 1 3 true,
      Shell.blankRow (toHex (FixedBytes.replicate 32 1).data) 2 6 true]
    nextSeq := (AList.insert (toHex (FixedBytes.replicate 32 1).data) 2 ∅).insert
      (toHex (FixedBytes.replicate 32 2).data) 1
    nicknames := AList.insert (toHex (FixedBytes.replicate 32 1).data) "friend" ∅
    disappear := AList.insert (toHex (FixedBytes.replicate 32 1).data) 60 ∅ }

/-- A fetch under way with a row of the peer. -/
def Batch.conversing : Batch :=
  ⟨[Shell.blankRow (toHex (FixedBytes.replicate 32 1).data) 3 7 false], [], ∅⟩

theorem Shell.unengaged_conversing : Unengaged (.replicate 32 1) .conversing .conversing where
  acked := rfl
  read := rfl
  invites _ _ hinvite := by cases hinvite
  callPeer := nofun
  acks := rfl
  gossip := List.not_mem_nil

/-- The conversation of a peer with rows, a nickname and a timer goes over completely. -/
theorem upgrade_complete_iff_provisional : ∃ batch' w',
    run (inside .transparent .silent) (receiveCapability .transparent (.replicate 32 1)
      (.replicate 32 1) (some .provisional) .conversing) (.provisional .conversing) =
        (.ok batch', w') ∧
      Vacated (.replicate 32 1) w'.inner.shell batch' ∧
        Shell.Merged (toHex (FixedBytes.replicate 32 1).data) (toHex (FixedBytes.replicate 32 2).data)
          .conversing w'.inner.shell := by
  obtain ⟨batch', w', hrun, hiff⟩ := @upgrade_complete_iff _ _ _ _ _ _ _ .conversing _ (by decide)
    (World.introduced_eq (w := .provisional .conversing) (by decide +kernel))
  exact ⟨batch', w', hrun, hiff.mpr Shell.unengaged_conversing⟩

/-- A receipt of the peer is on record. -/
def Shell.receipted : Shell :=
  { Shell.empty with acked := AList.insert (toHex (FixedBytes.replicate 32 1).data) 1 ∅ }

/-- The receipt stays under the provisional id. -/
theorem upgrade_leaves_receipt : ∃ batch' w',
    run (inside .transparent .silent) (receiveCapability .transparent (.replicate 32 1)
      (.replicate 32 1) (some .provisional) ⟨[], [], ∅⟩) (.provisional .receipted) =
        (.ok batch', w') ∧
      ¬(Vacated (.replicate 32 1) w'.inner.shell batch' ∧
        Shell.Merged (toHex (FixedBytes.replicate 32 1).data) (toHex (FixedBytes.replicate 32 2).data)
          (World.provisional .receipted).inner.shell w'.inner.shell) := by
  obtain ⟨w', hrun, hshell⟩ := @run_receiveCapability _ _ _ _ _ _ _ ⟨[], [], ∅⟩ _
    (World.introduced_eq (w := .provisional .receipted) (by decide +kernel))
  refine ⟨_, w', hrun, fun h ↦ ?_⟩
  have hacked := h.1.acked
  rw [hshell, Shell.remapConvId_of_ne (by decide +kernel)] at hacked
  revert hacked
  decide +kernel

end NemoMessenger.Client
