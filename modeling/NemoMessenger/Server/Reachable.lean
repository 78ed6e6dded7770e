import NemoMessenger.Server.Node

/-!
# Reachable servers and their mailbox logs

Servers reached from a fresh start with any limits, or from a restart, by any operations at all.
Their mailboxes keep the log invariant and stay within the limit, and no sequence number is assigned
twice.
-/

namespace NemoMessenger.Server

open NemoMessenger.Data NemoMessenger.Wire

/-- The servers operations can reach. A restart begins a new history. -/
inductive Reachable (crypto : Crypto) : HomeServer → Prop
  | fresh (hpke : HpkeKeypair) (sign : Key) (limits : Limits) :
    Reachable crypto (.withLimits crypto hpke sign limits)
  | restarted (hpke : HpkeKeypair) (sign : Key) (host : Text) (s2sPort : UInt16)
    (ops : List NodeOp)
    (hops : Allowed (NodeOp.apply crypto) NodeOp.Admissible
      (Node.first crypto hpke sign host s2sPort) ops) :
    Reachable crypto
      { (run (NodeOp.apply crypto) (Node.first crypto hpke sign host s2sPort) ops).home with
        history := {} }
  | step {home : HomeServer} (op : HomeOp) (h : Reachable crypto home) :
    Reachable crypto (op.apply crypto home)

/-! ## Appends as single steps -/

/-- What an append can do to mailboxes and history: nothing, or store a row and collect garbage. -/
inductive AppendStep (home home' : HomeServer) : Prop
  | same (hmailboxes : home'.mailboxes = home.mailboxes)
    (happended : home'.history.appended = home.history.appended)
    (hevicted : home'.history.evicted = home.history.evicted)
  | store (mailbox : IdentityId) (box pushed : Mailbox) (inner : InnerEnvelope)
    (hbox : home.mailboxes.lookup mailbox = some box) (hlive : box.disabled = false)
    (hidem : box.idempotency.lookup inner.idempotencyToken = none)
    (hpushed : pushed =
      box.push home.now home.limits.mailboxMaxAgeSecs inner (encodedLen inner))
    (hmailboxes : home'.mailboxes = home.mailboxes.insert mailbox
      (pushed.gc home.now home.limits.mailboxMaxAgeSecs home.limits.mailboxMaxBytes).1)
    (happended : home'.history.appended =
      home.history.appended ++ [(mailbox, home.newRow box inner)])
    (hevicted : home'.history.evicted = home.history.evicted ++
      (pushed.gc home.now home.limits.mailboxMaxAgeSecs home.limits.mailboxMaxBytes).2.map
        fun seq ↦ (mailbox, seq))

variable {crypto : Crypto} {promises : Promises} {home home' : HomeServer}

theorem appendStep_appendInner (home : HomeServer) (inner : InnerEnvelope) :
    AppendStep home (home.appendInner inner).2 := by
  rcases home.appendInner_cases inner with
    ⟨e, tokens, dirty, h⟩ | ⟨mailbox, box, tokens, dirty, -, hbox, hlive, ⟨seq, -, h⟩ |
      ⟨padded, hidem, hencode, h⟩⟩
  · rw [h]
    exact .same rfl rfl rfl
  · rw [h]
    exact .same rfl rfl rfl
  · rw [h, ← encodedLen_eq hencode]
    exact .store mailbox box _ inner hbox hlive hidem rfl rfl rfl rfl

theorem appendStep_ingest (crypto : Crypto) (home : HomeServer) (outer : OuterEnvelope) :
    AppendStep home (home.ingest crypto outer).2 := by
  rcases home.ingest_cases crypto outer with
    ⟨e, tokens, dirty, h⟩ | ⟨enc, -, ⟨seq, -, h⟩ | ⟨inner, seq, home', -, -, happend, h⟩⟩
  · rw [h]
    exact .same rfl rfl rfl
  · rw [h]
    exact .same rfl rfl rfl
  · rw [h]
    have hstep := appendStep_appendInner home inner
    rw [happend] at hstep
    -- the replay window and the record of answers are not part of the log
    cases hstep with
    | same hmailboxes happended hevicted => exact .same hmailboxes happended hevicted
    | store mailbox box pushed inner hbox hlive hidem hpushed hmailboxes happended hevicted =>
      exact .store mailbox box pushed inner hbox hlive hidem hpushed hmailboxes happended hevicted

theorem Step.edit_or_appendStep (h : Step crypto promises home home') :
    Edit crypto promises home home' ∨ AppendStep home home' := by
  cases h with
  | quiet h => exact .inl h
  | append inner _ => exact .inr (appendStep_appendInner home inner)
  | ingest outer => exact .inr (appendStep_ingest crypto home outer)

theorem LoudEdit.limits (h : LoudEdit crypto promises home home') : home'.limits = home.limits := by
  cases h with
  | store | remember | note => rfl
  | quiet h => cases h <;> rfl

theorem Steps.limits (h : Steps crypto promises home home') : home'.limits = home.limits :=
  Chain.keeps (fun s ↦ s.limits = home.limits) (fun _ _ hedit hs ↦ hedit.limits.trans hs) h.loud rfl

theorem Edit.appended (h : Edit crypto promises home home') :
    home'.history.appended = home.history.appended := by
  cases h <;> rfl

/-! ## Bytes -/

theorem Mailbox.removeRow_bytes_le (box : Mailbox) (seq : ℕ) :
    (box.removeRow seq).bytes ≤ box.bytes := by
  unfold Mailbox.removeRow
  split
  · exact le_rfl
  · exact Nat.sub_le _ _

theorem Mailbox.ackRow_bytes_le (box : Mailbox) (seq : ℕ) :
    (box.ackRow seq).bytes ≤ box.bytes := by
  unfold Mailbox.ackRow
  split
  · exact le_rfl
  · exact Nat.sub_le _ _

theorem Mailbox.foldl_bytes_le {remove : Mailbox → ℕ → Mailbox}
    (hremove : ∀ box seq, (remove box seq).bytes ≤ box.bytes) (seqs : List ℕ) (box : Mailbox) :
    (seqs.foldl remove box).bytes ≤ box.bytes := by
  induction seqs generalizing box with
  | nil => exact le_rfl
  | cons seq seqs ih => exact (ih (remove box seq)).trans (hremove box seq)

/-- No mailbox is over the limit. -/
def HomeServer.BytesBounded (home : HomeServer) : Prop :=
  ∀ m box, home.mailboxes.lookup m = some box → box.bytes ≤ home.limits.mailboxMaxBytes

theorem BoxEdit.bytes_le {evicted : ℕ → Prop} {box box' : Option Mailbox}
    (h : BoxEdit evicted box box') {maxBytes : ℕ}
    (hbox : ∀ b ∈ box, b.bytes ≤ maxBytes) : ∀ b ∈ box', b.bytes ≤ maxBytes := by
  cases h with
  | same => exact hbox
  | new ownerPk =>
    rintro _ ⟨⟩
    exact Nat.zero_le _
  | drop box seqs =>
    rintro _ ⟨⟩
    exact (Mailbox.foldl_bytes_le Mailbox.removeRow_bytes_le seqs box).trans (hbox box rfl)
  | disable box =>
    rintro _ ⟨⟩
    exact (Mailbox.foldl_bytes_le Mailbox.removeRow_bytes_le _ box).trans (hbox box rfl)
  | ack box seqs =>
    rintro _ ⟨⟩
    exact (Mailbox.foldl_bytes_le Mailbox.ackRow_bytes_le seqs box).trans (hbox box rfl)

/-- Only an append makes a mailbox grow, and it ends with a garbage collection. -/
theorem Step.bytesBounded (h : Step crypto promises home home') (hlog : home.LogInv)
    (hbound : home.BytesBounded) : home'.BytesBounded := by
  have hlimits : home'.limits = home.limits := Steps.limits (.single h)
  intro m box hbox
  rw [hlimits]
  rcases h.edit_or_appendStep with hedit | hstep
  · exact (hedit.boxEdit m).bytes_le (fun b hb ↦ hbound m b hb) box hbox
  · cases hstep with
    | same hmailboxes _ _ =>
      rw [hmailboxes] at hbox
      exact hbound m box hbox
    | store mailbox box₀ pushed inner hbox₀ _ hidem hpushed hmailboxes _ _ =>
      subst hpushed
      rw [hmailboxes, FiniteMap.lookup_insert_ite] at hbox
      split_ifs at hbox with hm
      · cases hbox
        exact Mailbox.gc_bytes_le ((hlog mailbox box₀ hbox₀).push hidem _ _) _ _ _
      · exact hbound m box hbox

theorem Steps.bytesBounded (h : Steps crypto promises home home') (hlog : home.LogInv)
    (hbound : home.BytesBounded) : home'.BytesBounded := by
  refine (Chain.keeps (fun s ↦ s.LogInv ∧ s.BytesBounded) (fun s s' hstep hs ↦ ?_) h
    ⟨hlog, hbound⟩).2
  exact ⟨LoudEdits.logInv (Steps.loud (.single hstep)) hs.1, hstep.bytesBounded hs.1 hs.2⟩

/-! ## Restarts -/

/-- A property of servers that holds in memory and of what the database was saved from. -/
structure Node.Keeps (P : HomeServer → Prop) (node : Node) : Prop where
  memory : P node.home
  saved : node.db.serverIdentity = none ∨ ∃ home host, Saved home host node.db ∧
    home.hpke = node.home.hpke ∧ home.sign = node.home.sign ∧ P home

/-- What makes a property of servers survive operations, persists and restarts. -/
structure Lasting (crypto : Crypto) (P : HomeServer → Prop) : Prop where
  steps : ∀ home home', Steps crypto .all home home' → home.Valid → P home → P home'
  records : ∀ home dirty history, P home → P { home with dirty, history }
  reload : ∀ home loaded, home.Reloads loaded → P home → P loaded

theorem Lasting.apply {P : HomeServer → Prop} (hlasting : Lasting crypto P) {node : Node}
    (op : NodeOp) (hop : op.Admissible node) (hnode : node.InStep) (h : node.Keeps P) :
    (op.apply crypto node).Keeps P := by
  cases op with
  | home op =>
    have hsteps := op.apply_steps crypto .all node.home (hop.meets crypto)
    obtain ⟨hhpke, hsign⟩ := op.keys_apply crypto node.home
    refine ⟨hlasting.steps _ _ hsteps hnode.homeValid h.memory, ?_⟩
    refine h.saved.imp_right fun ⟨home, host, hsaved, hkeys, hkeys', hrest⟩ ↦
      ⟨home, host, hsaved, ?_, ?_, hrest⟩
    · exact hkeys.trans hhpke.symm
    · exact hkeys'.trans hsign.symm
  | group op => exact ⟨h.memory, h.saved⟩
  | persist fault =>
    rcases Node.persist_cases hnode fault with ⟨db, heq, hsaved⟩ | ⟨-, heq⟩
    · rw [NodeOp.apply, heq]
      exact ⟨hlasting.records _ _ _ h.memory, .inr ⟨_, _, hsaved, rfl, rfl, h.memory⟩⟩
    · rw [NodeOp.apply, heq]
      exact ⟨hlasting.records _ _ _ h.memory, h.saved⟩
  | reload =>
    rw [NodeOp.apply, Node.reload]
    rcases h.saved with hnone | ⟨home, host, hsaved, hhpke, hsign, hhome⟩
    · rw [Database.loadKeys, hnone]
      exact ⟨h.memory, .inl hnone⟩
    · obtain ⟨home', host', hload, hreloads, -, -, hsaved'⟩ := loadKeys_eq_ok crypto hsaved
      have hloaded := hlasting.reload _ _ hreloads hhome
      rw [← hhpke, ← hsign, hload]
      exact ⟨hlasting.records _ _ _ hloaded, .inr ⟨_, _, hsaved', rfl, rfl, hloaded⟩⟩

/-- A lasting property of the first server holds after every admissible run. -/
theorem Lasting.run {P : HomeServer → Prop} (hlasting : Lasting crypto P) {hpke : HpkeKeypair}
    {sign : Key} {host : Text} {s2sPort : UInt16} {ops : List NodeOp}
    (hops : Allowed (NodeOp.apply crypto) NodeOp.Admissible
      (Node.first crypto hpke sign host s2sPort) ops)
    (hfirst : P (Node.first crypto hpke sign host s2sPort).home) :
    P (Data.run (NodeOp.apply crypto) (Node.first crypto hpke sign host s2sPort) ops).home := by
  have hnode := run_invariant (fun node : Node ↦ node.Recoverable ∧ node.Keeps P)
    (fun _ op hop hs ↦ ⟨hs.1.apply op hop, hlasting.apply op hop hs.1.toInStep hs.2⟩) hops
    ⟨Node.recoverable_first crypto hpke sign host s2sPort, hfirst, .inl rfl⟩
  exact hnode.2.memory

theorem HomeServer.Reloads.bytesBounded {loaded : HomeServer} (h : home.Reloads loaded)
    (hlimits : home.limits = .default) (hbound : home.BytesBounded) : loaded.BytesBounded := by
  intro m box' hbox'
  obtain ⟨box, hbox, hsame⟩ := h.lookup_eq_some hbox'
  rw [hsame.bytes, h.limits, ← hlimits]
  exact hbound m box hbox

/-- Servers restart with the default limits. -/
theorem lasting_bytesBounded (crypto : Crypto) :
    Lasting crypto fun home ↦ home.limits = .default ∧ home.BytesBounded where
  steps _ _ hsteps hvalid h :=
    ⟨hsteps.limits.trans h.1, hsteps.bytesBounded hvalid.logInv h.2⟩
  records _ _ _ h := h
  reload _ _ hreloads h := ⟨hreloads.limits, hreloads.bytesBounded h.1 h.2⟩

/-! ## Assigned numbers -/

/-- The numbers assigned so far are distinct and below the counters of their mailboxes. -/
structure HomeServer.SeqsUnique (home : HomeServer) : Prop where
  nodup : (home.history.appended.map fun entry ↦ (entry.1, entry.2.seq)).Nodup
  below : ∀ entry ∈ home.history.appended, ∃ box, home.mailboxes.lookup entry.1 = some box ∧
    entry.2.seq < box.nextSeq

/-- Counters that do not fall keep the assigned numbers below them. -/
theorem HomeServer.SeqsUnique.below_of_steps (h : home.SeqsUnique)
    (hsteps : Steps crypto promises home home') {entry : IdentityId × StoredEnvelope}
    (hentry : entry ∈ home.history.appended) :
    ∃ box, home'.mailboxes.lookup entry.1 = some box ∧ entry.2.seq < box.nextSeq := by
  obtain ⟨box, hbox, hlt⟩ := h.below entry hentry
  obtain ⟨box', hbox', hle⟩ := hsteps.loud.nextSeq_le hbox
  exact ⟨box', hbox', hlt.trans_le hle⟩

theorem Step.seqsUnique (hstep : Step crypto promises home home') (h : home.SeqsUnique) :
    home'.SeqsUnique := by
  have hbelow : ∀ entry ∈ home.history.appended, ∃ box, home'.mailboxes.lookup entry.1 = some box ∧
      entry.2.seq < box.nextSeq := fun _ hentry ↦ h.below_of_steps (.single hstep) hentry
  have hsame (happended : home'.history.appended = home.history.appended) : home'.SeqsUnique := by
    refine ⟨?_, ?_⟩
    · rw [happended]
      exact h.nodup
    · rw [happended]
      exact hbelow
  rcases hstep.edit_or_appendStep with hedit | happend
  · exact hsame hedit.appended
  · cases happend with
    | same _ happended _ => exact hsame happended
    | store mailbox box pushed inner hbox _ hidem hpushed hmailboxes happended _ =>
      refine ⟨?_, ?_⟩
      · rw [happended, List.map_append, List.nodup_append]
        refine ⟨h.nodup, List.nodup_singleton _, ?_⟩
        intro a ha b hb hab
        obtain ⟨entry, hentry, rfl⟩ := List.mem_map.mp ha
        obtain ⟨rfl, hseq⟩ : entry.1 = mailbox ∧ entry.2.seq = box.nextSeq := by
          rw [List.map_singleton, List.mem_singleton, ← hab] at hb
          exact Prod.ext_iff.mp hb
        obtain ⟨box', hbox', hlt⟩ := h.below entry hentry
        rw [hbox] at hbox'
        cases hbox'
        omega
      · intro entry hentry
        rw [happended, List.mem_append, List.mem_singleton] at hentry
        rcases hentry with hold | rfl
        · exact hbelow entry hold
        · obtain ⟨hgc, -⟩ := Mailbox.gc_spec pushed home.now home.limits.mailboxMaxAgeSecs
            home.limits.mailboxMaxBytes
          refine ⟨_, by rw [hmailboxes, AList.lookup_insert], ?_⟩
          rw [hgc, Mailbox.foldl_removeRow_eq Mailbox.removeRow_nextSeq, hpushed]
          exact Nat.lt_succ_self _

/-! ## Every reachable server -/

/-- What every reachable server keeps. -/
structure HomeServer.LogsKept (home : HomeServer) : Prop where
  log : home.LogInv
  bytes : home.BytesBounded
  seqs : home.SeqsUnique

theorem Steps.logsKept (h : Steps crypto promises home home') (hkept : home.LogsKept) :
    home'.LogsKept := by
  refine ⟨LoudEdits.logInv h.loud hkept.log, h.bytesBounded hkept.log hkept.bytes, ?_⟩
  exact Chain.keeps HomeServer.SeqsUnique (fun _ _ hstep hs ↦ hstep.seqsUnique hs) h hkept.seqs

theorem Reachable.logsKept (h : Reachable crypto home) : home.LogsKept := by
  have hnew {home : HomeServer} (happended : home.history.appended = []) : home.SeqsUnique := by
    refine ⟨?_, ?_⟩
    · rw [happended]
      exact List.nodup_nil
    · rw [happended]
      exact fun _ h ↦ by cases h
  induction h with
  | fresh hpke sign limits =>
    exact ⟨fun _ _ h ↦ (by cases h), fun _ _ h ↦ (by cases h), hnew rfl⟩
  | restarted hpke sign host s2sPort ops hops =>
    have hrecoverable := Node.Recoverable.run hops
      (Node.recoverable_first crypto hpke sign host s2sPort)
    have hbounded := (lasting_bytesBounded crypto).run hops ⟨rfl, fun _ _ h ↦ by cases h⟩
    exact ⟨hrecoverable.homeValid.logInv, hbounded.2, hnew rfl⟩
  | step op _ ih => exact (op.apply_steps crypto .none _ (op.meets_none crypto _)).logsKept ih

theorem Reachable.run (h : Reachable crypto home) (ops : List HomeOp) :
    Reachable crypto (run (HomeOp.apply crypto) home ops) := by
  induction ops generalizing home with
  | nil => exact h
  | cons op ops ih => exact ih (.step op h)

/-! ## Garbage collection and appends -/

/-- Along any list of removals no size is subtracted that is not there. -/
def Mailbox.RemovesExactly (box : Mailbox) (remove : Mailbox → ℕ → Mailbox) : Prop :=
  ∀ (seqs : List ℕ) (seq : ℕ) (row : StoredEnvelope), (seqs.foldl remove box).rows.lookup seq = some row →
    encodedLen row.inner ≤ (seqs.foldl remove box).bytes

theorem Mailbox.LogInv.removesExactly {box : Mailbox} (h : box.LogInv) :
    box.RemovesExactly Mailbox.removeRow ∧ box.RemovesExactly Mailbox.ackRow :=
  ⟨fun seqs _ _ hrow ↦ (h.foldl_removeRow seqs).encodedLen_le hrow,
    fun seqs _ _ hrow ↦ (h.foldl_ackRow seqs).encodedLen_le hrow⟩

/-- What garbage collection makes of a mailbox: expired rows go, of the others those with the lowest
numbers, and what is left is within the limit. -/
structure Mailbox.Collects (box : Mailbox) (now : ℕ) (limits : Limits) (left : Mailbox) : Prop where
  exact : box.RemovesExactly Mailbox.removeRow
  bytes : left.bytes ≤ limits.mailboxMaxBytes
  evicts : ∃ bound, ∀ seq, left.rows.lookup seq =
    (box.rows.lookup seq).filter fun row ↦
      !(Mailbox.expired now limits.mailboxMaxAgeSecs row || decide (seq < bound))

theorem Mailbox.LogInv.collects {box : Mailbox} (h : box.LogInv) (now : ℕ) (limits : Limits) :
    box.Collects now limits
      (box.gc now limits.mailboxMaxAgeSecs limits.mailboxMaxBytes).1 := by
  obtain ⟨-, bound, hbound⟩ :=
    Mailbox.gc_spec box now limits.mailboxMaxAgeSecs limits.mailboxMaxBytes
  refine ⟨h.removesExactly.1, Mailbox.gc_bytes_le h _ _ _, bound, fun seq ↦ ?_⟩
  rw [Mailbox.lookup_gc]
  have hseq := hbound seq
  cases hrow : box.rows.lookup seq with
  | none => simp
  | some row =>
    rw [hrow] at hseq
    by_cases hgone : Mailbox.expired now limits.mailboxMaxAgeSecs row ∨ seq < bound
    · rw [if_pos (hseq.mpr ⟨row, rfl, hgone⟩)]
      rcases hgone with hexpired | hlow
      · simp [Option.filter, hexpired]
      · simp [Option.filter, hlow]
    · rw [if_neg fun hmem ↦ hgone (by
        obtain ⟨_, ⟨⟩, hdrop⟩ := hseq.mp hmem
        exact hdrop)]
      simpa [Option.filter] using hgone

theorem HomeServer.lookup_gcMailbox {m : IdentityId} {box : Mailbox}
    (hbox : home.mailboxes.lookup m = some box) :
    (home.gcMailbox m).mailboxes.lookup m = some
      (box.gc home.now home.limits.mailboxMaxAgeSecs home.limits.mailboxMaxBytes).1 := by
  unfold HomeServer.gcMailbox
  rw [hbox]
  dsimp only
  split_ifs <;> exact AList.lookup_insert _

/-- A row does not expire in the second it arrives, as long as the clock can advance. -/
theorem expired_newRow {box : Mailbox} {inner : InnerEnvelope} (hnow : home.now < u64Max)
    (hage : 0 < home.limits.mailboxMaxAgeSecs) :
    Mailbox.expired home.now home.limits.mailboxMaxAgeSecs (home.newRow box inner) = false := by
  have hcap : home.now < saturatingAdd home.now home.limits.mailboxMaxAgeSecs := by
    unfold saturatingAdd
    omega
  have hexpiry : home.now <
      envelopeExpiry home.now inner.ttlBucket home.limits.mailboxMaxAgeSecs := by
    unfold envelopeExpiry
    dsimp only
    split
    · rename_i secs hsecs
      have hpos := TtlBucket.ttlSecs_pos hsecs
      unfold saturatingAdd at *
      omega
    · exact hcap
  simp [Mailbox.expired, HomeServer.newRow, Nat.not_le.mpr hexpiry]

/-- The just-appended row survives its own append. -/
theorem lookup_gc_push {box : Mailbox} (hlog : box.LogInv) {inner : InnerEnvelope}
    (hidem : box.idempotency.lookup inner.idempotencyToken = none) (hnow : home.now < u64Max)
    (hage : 0 < home.limits.mailboxMaxAgeSecs)
    (hfits : encodedLen inner ≤ home.limits.mailboxMaxBytes) :
    ((box.push home.now home.limits.mailboxMaxAgeSecs inner (encodedLen inner)).gc home.now
      home.limits.mailboxMaxAgeSecs home.limits.mailboxMaxBytes).1.rows.lookup box.nextSeq =
      some (home.newRow box inner) := by
  have hrow : (box.push home.now home.limits.mailboxMaxAgeSecs inner
      (encodedLen inner)).rows.lookup box.nextSeq = some (home.newRow box inner) :=
    AList.lookup_insert _
  have hpushed := hlog.push hidem home.now home.limits.mailboxMaxAgeSecs
  apply Mailbox.lookup_gc_last hpushed hrow _ (expired_newRow hnow hage) hfits
  intro s hs
  obtain ⟨row, hrow⟩ := Option.isSome_iff_exists.mp hs
  exact Nat.le_of_lt_succ (hpushed.seq_lt s row hrow)

/-- An authorised append of a new token stores its row and collects garbage. -/
theorem HomeServer.appendInner_stores {inner : InnerEnvelope} {m : IdentityId} {box : Mailbox}
    {padded : Bytes} (hauth : (home.authorizeAppend inner.deliveryCapability).1 = .ok m)
    (hbox : home.mailboxes.lookup m = some box)
    (hidem : box.idempotency.lookup inner.idempotencyToken = none)
    (hencode : inner.encodePadded = .ok padded) :
    home.appendInner inner = (.ok box.nextSeq, (home.appendInner inner).2) := by
  refine Prod.ext ?_ rfl
  obtain ⟨tokens, dirty, hframe⟩ := home.authorizeAppend_frame inner.deliveryCapability
  have heq : home.authorizeAppend inner.deliveryCapability = (.ok m, { home with tokens, dirty }) :=
    Prod.ext hauth hframe
  unfold HomeServer.appendInner
  rw [heq]
  dsimp only
  rw [hbox]
  dsimp only
  rw [hidem]
  dsimp only
  rw [hencode]

/-- An accepted append with a new token: the number it answers, and the mailbox it leaves. -/
theorem HomeServer.lookup_appendInner {inner : InnerEnvelope} {m : IdentityId} {box : Mailbox}
    {seq : ℕ} (happend : home.appendInner inner = (.ok seq, home'))
    (hcap : home.capabilityMailbox inner.deliveryCapability = some m)
    (hbox : home.mailboxes.lookup m = some box)
    (hidem : box.idempotency.lookup inner.idempotencyToken = none) :
    seq = box.nextSeq ∧ home'.mailboxes.lookup m = some
      ((box.push home.now home.limits.mailboxMaxAgeSecs inner (encodedLen inner)).gc home.now
        home.limits.mailboxMaxAgeSecs home.limits.mailboxMaxBytes).1 := by
  rcases home.appendInner_cases inner with
    ⟨e, tokens, dirty, h⟩ | ⟨mailbox, box', tokens, dirty, hcap', hbox', -, hstored⟩
  · rw [h] at happend
    cases happend
  · rw [hcap] at hcap'
    cases hcap'
    rw [hbox] at hbox'
    cases hbox'
    rcases hstored with ⟨seq', hseq, -⟩ | ⟨padded, -, hencode, h⟩
    · rw [hidem] at hseq
      cases hseq
    · rw [h] at happend
      cases happend
      rw [encodedLen_eq hencode]
      exact ⟨rfl, AList.lookup_insert _⟩

/-- The mailbox log invariant, in every reachable server: rows, bytes and idempotency tokens agree,
counters never fall, no number is assigned twice, and garbage collection drops expired rows and the
lowest numbers only. An accepted row that fits the limit survives its own append while the clock can
still advance. -/
theorem mailbox_log_of_reachable (crypto : Crypto) (home : HomeServer)
    (h : Reachable crypto home) :
    (∀ m box, home.mailboxes.lookup m = some box →
      box.LogInv ∧ box.RemovesExactly Mailbox.removeRow ∧ box.RemovesExactly Mailbox.ackRow ∧
      (∀ seq seq' row row', box.rows.lookup seq = some row → box.rows.lookup seq' = some row' →
        row.inner.idempotencyToken = row'.inner.idempotencyToken → seq = seq') ∧
      box.bytes ≤ home.limits.mailboxMaxBytes ∧
      (∀ op : HomeOp, ∃ box', (op.apply crypto home).mailboxes.lookup m = some box' ∧
        box.nextSeq ≤ box'.nextSeq) ∧
      ∃ left, (home.gcMailbox m).mailboxes.lookup m = some left ∧
        box.Collects home.now home.limits left) ∧
    (home.history.appended.map fun entry ↦ (entry.1, entry.2.seq)).Nodup ∧
    ∀ inner m box seq home', home.appendInner inner = (.ok seq, home') →
      home.capabilityMailbox inner.deliveryCapability = some m →
      home.mailboxes.lookup m = some box →
      box.idempotency.lookup inner.idempotencyToken = none →
      seq = box.nextSeq ∧ ∃ left, home'.mailboxes.lookup m = some left ∧
        (box.push home.now home.limits.mailboxMaxAgeSecs inner (encodedLen inner)).Collects
          home.now home.limits left ∧
        (home.now < u64Max → 0 < home.limits.mailboxMaxAgeSecs →
          encodedLen inner ≤ home.limits.mailboxMaxBytes →
          left.rows.lookup seq = some (home.newRow box inner)) := by
  obtain ⟨hlog, hbytes, hseqs⟩ := h.logsKept
  refine ⟨?_, hseqs.nodup, ?_⟩
  · intro m box hbox
    have hbox_log := hlog m box hbox
    obtain ⟨hremove, hack⟩ := hbox_log.removesExactly
    refine ⟨hbox_log, hremove, hack, fun _ _ _ _ ↦ hbox_log.seq_unique, hbytes m box hbox, ?_, ?_⟩
    · exact fun op ↦ (op.apply_edits crypto .none home (op.meets_none crypto home)).nextSeq_le hbox
    · exact ⟨_, home.lookup_gcMailbox hbox, hbox_log.collects home.now home.limits⟩
  · intro inner m box seq home' happend hcap hbox hidem
    obtain ⟨rfl, hleft⟩ := HomeServer.lookup_appendInner happend hcap hbox hidem
    refine ⟨rfl, _, hleft, ((hlog m box hbox).push hidem _ _).collects home.now home.limits, ?_⟩
    exact fun hnow hage hfits ↦ lookup_gc_push (hlog m box hbox) hidem hnow hage hfits

/-- The mailbox of `key` holds two envelopes. The third one evicts the first, the owner acknowledges
the second, and a fourth one is stored. -/
def HomeOp.filling (key cap : Key) : List HomeOp :=
  let auth : MailboxOwnerAuth :=
    { mailboxHint := key.data
      cursor := 2
      limit := 1
      ts := 1700000000
      scope := .body key "POST" "/v1/mailbox/ack"
      nonce := key
      signature := .replicate 64 0 }
  [.register key key, .mintContactCapability key cap, .appendInner (.blank cap (.replicate 32 1)),
    .appendInner (.blank cap (.replicate 32 2)), .appendInner (.blank cap (.replicate 32 3)),
    .ack key auth 1700000000, .appendInner (.blank cap (.replicate 32 4))]

/-- The server after that. -/
def HomeServer.filled (key cap : Key) : HomeServer :=
  run (HomeOp.apply .transparent) (.withLimits .transparent ⟨key, key⟩ key ⟨45000, 60⟩)
    (HomeOp.filling key cap)

set_option maxRecDepth 100000 in
theorem HomeServer.filled_facts (key cap : Key) (hkey : key = .replicate 32 1)
    (hcap : cap = .replicate 32 2) :
    let home := HomeServer.filled key cap
    home.history.evicted = [(key, 1)] ∧
      (home.history.appended.map fun entry ↦ (entry.1, entry.2.seq)) =
        [(key, 1), (key, 2), (key, 3), (key, 4)] ∧
      (home.mailboxes.lookup key).any (fun box ↦ decide (box.rows.keys = [4, 3]) &&
        decide (box.idempotency.lookup (.replicate 32 5) = none)) = true ∧
      home.capabilityMailbox cap = some key ∧ home.limits = ⟨45000, 60⟩ ∧ home.now < u64Max ∧
      (home.appendInner (.blank cap (.replicate 32 5))).1 = .ok 5 := by
  subst hkey hcap
  decide +kernel

/-- Rows were stored, evicted and acknowledged: no number is used again, what is left is sound and
fits, and the next row survives its append. -/
theorem mailbox_log_of_filled :
    let key : Key := .replicate 32 1
    let cap : Key := .replicate 32 2
    let home := HomeServer.filled key cap
    let inner : InnerEnvelope := .blank cap (.replicate 32 5)
    home.history.evicted = [(key, 1)] ∧
      (home.history.appended.map fun entry ↦ (entry.1, entry.2.seq)).Nodup ∧
      ∃ box, home.mailboxes.lookup key = some box ∧ box.rows.keys = [4, 3] ∧ box.LogInv ∧
        box.bytes ≤ 45000 ∧ ∃ left, (home.appendInner inner).2.mailboxes.lookup key = some left ∧
          left.rows.lookup 5 = some (home.newRow box inner) := by
  intro key cap
  have hfacts := HomeServer.filled_facts key cap rfl rfl
  have hreachable : Reachable .transparent (HomeServer.filled key cap) :=
    (Reachable.fresh ⟨key, key⟩ key ⟨45000, 60⟩).run (HomeOp.filling key cap)
  have hlogs := mailbox_log_of_reachable .transparent (HomeServer.filled key cap) hreachable
  generalize HomeServer.filled key cap = home at hfacts hlogs ⊢
  intro _ inner
  obtain ⟨hevicted, -, hbox, hcap, hlimits, hnow, happend⟩ := hfacts
  obtain ⟨hboxes, hnodup, hsurvives⟩ := hlogs
  obtain ⟨box, hbox, hkeys⟩ := (Option.any_eq_true _ _).mp hbox
  rw [Bool.and_eq_true, decide_eq_true_eq, decide_eq_true_eq] at hkeys
  obtain ⟨hlog, -, -, -, hbytes, -⟩ := hboxes key box hbox
  obtain ⟨hseq, left, hleft, -, hrow⟩ := hsurvives inner key box 5 (home.appendInner inner).2
    (Prod.ext happend rfl) hcap hbox hkeys.2
  have hfits : encodedLen inner ≤ home.limits.mailboxMaxBytes := by
    obtain ⟨padded, hencode, hlen, -⟩ :=
      InnerEnvelope.decodePadded_encodePadded (InnerEnvelope.canonical_blank cap (.replicate 32 5))
    rw [hlimits, encodedLen_eq hencode, hlen]
    decide
  rw [hlimits] at hbytes
  exact ⟨hevicted, hnodup, box, hbox, hkeys.1, hlog, hbytes, left, hleft,
    hrow hnow (by rw [hlimits]; decide) hfits⟩

/-- At the end of time a row expires in the second it arrives. -/
theorem expired_newRow_of_max {box : Mailbox} {inner : InnerEnvelope} (hnow : home.now = u64Max) :
    Mailbox.expired home.now home.limits.mailboxMaxAgeSecs (home.newRow box inner) = true := by
  have hcap : saturatingAdd home.now home.limits.mailboxMaxAgeSecs ≤ home.now := by
    rw [hnow]
    exact Nat.min_le_right _ _
  have hexpiry : envelopeExpiry home.now inner.ttlBucket home.limits.mailboxMaxAgeSecs ≤
      home.now := by
    unfold envelopeExpiry
    dsimp only
    split
    · exact (Nat.min_le_right _ _).trans hcap
    · exact hcap
  simp [Mailbox.expired, HomeServer.newRow, hexpiry]

/-- With the clock at its last second, an accepted row that fits the limit is gone after its own
append. -/
theorem lastSecond_append_is_lost :
    let key : Key := .replicate 32 1
    let cap : Key := .replicate 32 2
    let home := run (HomeOp.apply .transparent)
      (.withLimits .transparent ⟨key, key⟩ key .default)
      [.register key key, .mintContactCapability key cap, .setNow 0xffffffffffffffff]
    let inner := InnerEnvelope.blank cap key
    Reachable .transparent home ∧ (∃ bytes, InnerEnvelope.decodePadded bytes = .ok inner) ∧
      0 < home.limits.mailboxMaxAgeSecs ∧ encodedLen inner ≤ home.limits.mailboxMaxBytes ∧
      (home.appendInner inner).1 = .ok 1 ∧
      ∃ box, (home.appendInner inner).2.mailboxes.lookup key = some box ∧
        box.rows.lookup 1 = none := by
  intro key cap home inner
  have hcanonical : inner.Canonical := InnerEnvelope.canonical_blank cap key
  obtain ⟨padded, hencode, hlen, hdecode⟩ := InnerEnvelope.decodePadded_encodePadded hcanonical
  have hbox : home.mailboxes.lookup key = some (.new key) := rfl
  have hcap : inner.deliveryCapability = cap := rfl
  have hauth : (home.authorizeAppend inner.deliveryCapability).1 = .ok key := by
    rw [hcap]
    decide +kernel
  have happend := HomeServer.appendInner_stores hauth hbox rfl hencode
  obtain ⟨-, hleft⟩ := HomeServer.lookup_appendInner happend rfl hbox rfl
  refine ⟨(Reachable.fresh ⟨key, key⟩ key .default).run _, ⟨padded, hdecode⟩, by decide, ?_,
    congrArg Prod.fst happend, _, hleft, ?_⟩
  · rw [encodedLen_eq hencode, hlen]
    decide
  · have hnow : home.now = u64Max := by
      have hclock : home.now = (0xffffffffffffffff : UInt64).toNat := rfl
      rw [hclock]
      decide
    have hexpired : Mailbox.expired home.now home.limits.mailboxMaxAgeSecs
        (home.newRow (.new key) inner) = true := expired_newRow_of_max hnow
    have hlog : (Mailbox.push (.new key) home.now home.limits.mailboxMaxAgeSecs inner
        (encodedLen inner)).LogInv := (Mailbox.logInv_new key).push rfl _ _
    obtain ⟨bound, hevicts⟩ := (hlog.collects home.now home.limits).evicts
    rw [hevicts]
    have hrow : (Mailbox.push (.new key) home.now home.limits.mailboxMaxAgeSecs inner
        (encodedLen inner)).rows.lookup 1 = some (home.newRow (.new key) inner) :=
      AList.lookup_insert _
    rw [hrow, Option.filter, hexpired]
    rfl

end NemoMessenger.Server
