import NemoMessenger.Server.Replay

/-!
# Appending once

An idempotency token is bound to the number of its first row. The binding outlives an
acknowledgement in memory, but the database keeps bindings through rows only: a restart forgets the
tokens of rows that are gone. As long as every restart finds the row, no token is appended twice.

`ingest` answers a remembered encapsulated key before it opens the envelope. The number it repeats is
that of the token if the envelope the number was first given to had the token as well.
-/

namespace NemoMessenger.Server

open NemoMessenger.Data NemoMessenger.Wire

/-- The numbers the rows of a token got in a mailbox, in the order of their appends. -/
def History.assigned (history : History) (m : IdentityId) (token : Key) : List ℕ :=
  (history.appended.filter fun entry ↦
    decide (entry.1 = m) && decide (entry.2.inner.idempotencyToken = token)).map fun entry ↦
      entry.2.seq

/-- The database has the row of a token under its number. -/
def Database.HoldsToken (db : Database) (m : IdentityId) (token : Key) (seq : ℕ) : Prop :=
  ∃ row inner, db.mailboxRows.lookup (m, seq) = some row ∧
    InnerEnvelope.decodePadded row.innerPadded = .ok inner ∧ inner.idempotencyToken = token

/-- A restart from the database would know the number of a token, or refuse all appends. -/
def Database.Remembers (db : Database) (m : IdentityId) (token : Key) (seq : ℕ) : Prop :=
  ∃ ident, db.identities.lookup m = some ident ∧ 0 < ident.mailboxNextSeq ∧
    (ident.mailboxDisabled = true ∨ db.HoldsToken m token seq)

/-- Keys of a set are issued for one mailbox only. -/
def Promises.issues (caps : Key → Prop) (m : IdentityId) : Promises :=
  { Promises.none with registers := fun _ token owner ↦ caps token → owner = m }

/-- An operation issues keys of a set for one mailbox only. -/
def NodeOp.IssuesOnly (crypto : Crypto) (caps : Key → Prop) (m : IdentityId) (node : Node) :
    NodeOp → Prop
  | home op => op.Meets crypto (.issues caps m) node.home
  | group _ | persist _ | reload => True

/-- The envelope a number was first answered to under an encapsulated key. -/
def History.firstAnswered (history : History) (enc : Key) (seq : ℕ) : Option OuterEnvelope :=
  (history.ingested.find? fun entry ↦
    decide (encapKey entry.1.hpkeCiphertext = .ok enc) && decide (entry.2 = seq)).map Prod.fst

/-- A retry of a token: the envelope opens to one with the token, under a capability of a set. -/
def History.Retries (crypto : Crypto) (hpke : HpkeKeypair) (caps : Key → Prop) (token : Key)
    (outer : OuterEnvelope) : Prop :=
  ∃ inner, crypto.openOuter hpke outer = .ok inner ∧ inner.idempotencyToken = token ∧
    caps inner.deliveryCapability

/-! ## One mailbox and one token -/

/-- A mailbox binds a token to `bound`, and no row with the token is anywhere else. -/
structure Mailbox.Binds (box : Mailbox) (token : Key) (bound : Option ℕ) : Prop where
  idempotency : box.disabled = true ∨ box.idempotency.lookup token = bound
  seq_eq : ∀ seq row, box.rows.lookup seq = some row → row.seq = seq
  rows : ∀ seq row, box.rows.lookup seq = some row → row.inner.idempotencyToken = token →
    bound = some seq

variable {m : IdentityId} {token : Key} {bound : Option ℕ} {box : Mailbox}

theorem Mailbox.idempotency_foldl_removeRow {seqs : List ℕ} {s : ℕ} (hs : s ∉ seqs)
    (h : box.idempotency.lookup token = some s) :
    (seqs.foldl Mailbox.removeRow box).idempotency.lookup token = some s := by
  induction seqs generalizing box with
  | nil => exact h
  | cons seq seqs ih =>
    rw [List.mem_cons, not_or] at hs
    exact ih hs.2 (Mailbox.idempotency_removeRow hs.1 h)

/-- Dropping rows keeps the binding, unless the bound row is dropped. -/
theorem Mailbox.Binds.drop (h : box.Binds token bound) {seqs : List ℕ}
    (hkept : ∀ s ∈ bound, s ∉ seqs) : (seqs.foldl Mailbox.removeRow box).Binds token bound := by
  have hrows (seq : ℕ) (row : StoredEnvelope)
      (hrow : (seqs.foldl Mailbox.removeRow box).rows.lookup seq = some row) :
      box.rows.lookup seq = some row := by
    rw [Mailbox.lookup_foldl_removeRow] at hrow
    split_ifs at hrow
    exact hrow
  refine ⟨?_, fun seq row hrow ↦ h.seq_eq seq row (hrows seq row hrow),
    fun seq row hrow ↦ h.rows seq row (hrows seq row hrow)⟩
  rw [Mailbox.foldl_removeRow_eq Mailbox.removeRow_disabled]
  refine h.idempotency.imp_right fun hlookup ↦ ?_
  cases bound with
  | none =>
    cases hafter : (seqs.foldl Mailbox.removeRow box).idempotency.lookup token with
    | none => rfl
    | some s =>
      rw [Mailbox.idempotency_of_foldl_removeRow seqs hafter] at hlookup
      cases hlookup
  | some s => exact Mailbox.idempotency_foldl_removeRow (hkept s rfl) hlookup

theorem Mailbox.Binds.ack (h : box.Binds token bound) (seqs : List ℕ) :
    (seqs.foldl Mailbox.ackRow box).Binds token bound := by
  obtain ⟨-, -, hdisabled, hidem⟩ := Mailbox.foldl_ackRow_fields seqs box
  have hrows (seq : ℕ) (row : StoredEnvelope)
      (hrow : (seqs.foldl Mailbox.ackRow box).rows.lookup seq = some row) :
      box.rows.lookup seq = some row := by
    rw [Mailbox.lookup_foldl_ackRow] at hrow
    split_ifs at hrow
    exact hrow
  refine ⟨?_, fun seq row hrow ↦ h.seq_eq seq row (hrows seq row hrow),
    fun seq row hrow ↦ h.rows seq row (hrows seq row hrow)⟩
  rw [hdisabled, hidem]
  exact h.idempotency

theorem Mailbox.binds_disable (box : Mailbox) (token : Key) (bound : Option ℕ) :
    box.disable.Binds token bound := by
  have hnone := Mailbox.lookup_disable box
  refine ⟨.inl rfl, fun seq row hrow ↦ ?_, fun seq row hrow ↦ ?_⟩
  · rw [hnone] at hrow
    cases hrow
  · rw [hnone] at hrow
    cases hrow

/-- A quiet edit keeps the binding of a mailbox or evicts the bound row. -/
theorem BoxEdit.binds {evicted : ℕ → Prop} {before after : Option Mailbox}
    (h : BoxEdit evicted before after) (hbound : before = none → bound = none)
    (hbefore : ∀ box ∈ before, box.Binds token bound) :
    (∃ s, bound = some s ∧ evicted s) ∨ ∀ box ∈ after, box.Binds token bound := by
  cases h with
  | same => exact .inr hbefore
  | new ownerPk =>
    right
    rintro _ ⟨⟩
    rw [hbound rfl]
    exact ⟨.inr rfl, fun _ _ h ↦ (by cases h), fun _ _ h ↦ by cases h⟩
  | drop box seqs hevicted =>
    by_cases hkept : ∀ s ∈ bound, s ∉ seqs
    · right
      rintro _ ⟨⟩
      exact (hbefore box rfl).drop hkept
    · left
      push Not at hkept
      obtain ⟨s, hs, hmem⟩ := hkept
      exact ⟨s, hs, hevicted s hmem⟩
  | disable box =>
    right
    rintro _ ⟨⟩
    exact box.binds_disable token bound
  | ack box seqs =>
    right
    rintro _ ⟨⟩
    exact (hbefore box rfl).ack seqs

theorem Mailbox.Binds.push_other (h : box.Binds token bound) {inner : InnerEnvelope}
    (hother : inner.idempotencyToken ≠ token) (now maxAge size : ℕ) :
    (box.push now maxAge inner size).Binds token bound := by
  refine ⟨?_, fun seq row hrow ↦ ?_, fun seq row hrow htoken ↦ ?_⟩
  · rw [Mailbox.push, FiniteMap.lookup_insert_ite, if_neg (Ne.symm hother)]
    exact h.idempotency
  · rw [Mailbox.push, FiniteMap.lookup_insert_ite] at hrow
    split_ifs at hrow with hseq
    · cases hrow
      exact hseq.symm
    · exact h.seq_eq seq row hrow
  · rw [Mailbox.push, FiniteMap.lookup_insert_ite] at hrow
    split_ifs at hrow
    · cases hrow
      exact absurd htoken hother
    · exact h.rows seq row hrow htoken

/-- The first row of a token binds it. -/
theorem Mailbox.Binds.push_first (h : box.Binds token none) {inner : InnerEnvelope}
    (htoken : inner.idempotencyToken = token) (now maxAge size : ℕ) :
    (box.push now maxAge inner size).Binds token (some box.nextSeq) := by
  refine ⟨.inr ?_, fun seq row hrow ↦ ?_, fun seq row hrow htoken ↦ ?_⟩
  · rw [Mailbox.push, FiniteMap.lookup_insert_ite, if_pos htoken.symm]
  · rw [Mailbox.push, FiniteMap.lookup_insert_ite] at hrow
    split_ifs at hrow with hseq
    · cases hrow
      exact hseq.symm
    · exact h.seq_eq seq row hrow
  · rw [Mailbox.push, FiniteMap.lookup_insert_ite] at hrow
    split_ifs at hrow with hseq
    · rw [hseq]
    · cases h.rows seq row hrow htoken

/-- Garbage collection keeps the binding or evicts the bound row. -/
theorem Mailbox.Binds.gc (h : box.Binds token bound) (now maxAge maxBytes : ℕ) :
    (∃ s ∈ bound, s ∈ (box.gc now maxAge maxBytes).2) ∨
      (box.gc now maxAge maxBytes).1.Binds token bound := by
  obtain ⟨hgc, -⟩ := Mailbox.gc_spec box now maxAge maxBytes
  by_cases hkept : ∀ s ∈ bound, s ∉ (box.gc now maxAge maxBytes).2
  · right
    rw [hgc]
    exact h.drop hkept
  · left
    push Not at hkept
    exact hkept

/-! ## One server -/

/-- The first row of the token was evicted. -/
def HomeServer.FirstEvicted (home : HomeServer) (m : IdentityId) (token : Key) : Prop :=
  ∃ s, (home.history.assigned m token).head? = some s ∧ (m, s) ∈ home.history.evicted

/-- The token has at most one row, and mailbox and database know it as `bound`. -/
structure HomeServer.Tracks (home : HomeServer) (db : Database) (m : IdentityId) (token : Key)
    (bound : Option ℕ) : Prop where
  assigned : home.history.assigned m token = bound.toList
  known : bound.isSome → (home.mailboxes.lookup m).isSome
  binds : ∀ box, home.mailboxes.lookup m = some box → box.Binds token bound
  stored : ∀ seq, db.HoldsToken m token seq → bound = some seq

/-- The token is appended at most once, until its first row is evicted. -/
def HomeServer.Once (home : HomeServer) (db : Database) (m : IdentityId) (token : Key) : Prop :=
  home.FirstEvicted m token ∨ ∃ bound, home.Tracks db m token bound

variable {crypto : Crypto} {promises : Promises} {home home' : HomeServer} {db : Database}

theorem Edit.evicted_subset (h : Edit crypto promises home home') :
    home.history.evicted ⊆ home'.history.evicted := by
  cases h with
  | gc => exact List.subset_append_left _ _
  | _ => exact fun _ h ↦ h

/-- What was evicted stays evicted, and the first row stays the first. -/
theorem HomeServer.FirstEvicted.mono (h : home.FirstEvicted m token)
    {later : List (IdentityId × StoredEnvelope)}
    (happended : home'.history.appended = home.history.appended ++ later)
    (hevicted : home.history.evicted ⊆ home'.history.evicted) : home'.FirstEvicted m token := by
  obtain ⟨s, hfirst, hs⟩ := h
  refine ⟨s, ?_, hevicted hs⟩
  rw [History.assigned, happended, List.filter_append, List.map_append]
  rw [History.assigned] at hfirst
  rw [List.head?_append, hfirst]
  rfl

theorem assigned_append_single (m : IdentityId) (token : Key)
    {later : IdentityId × StoredEnvelope}
    (happended : home'.history.appended = home.history.appended ++ [later]) :
    home'.history.assigned m token = home.history.assigned m token ++
      if later.1 = m ∧ later.2.inner.idempotencyToken = token then [later.2.seq] else [] := by
  rw [History.assigned, happended, List.filter_append, List.map_append]
  congr 1
  by_cases hm : later.1 = m <;> by_cases ht : later.2.inner.idempotencyToken = token <;>
    simp [hm, ht]

theorem AppendStep.once (h : AppendStep home home') (honce : home.Once db m token) :
    home'.Once db m token := by
  cases h with
  | same hmailboxes happended hevicted =>
    rcases honce with hgone | ⟨bound, htracks⟩
    · refine .inl (hgone.mono (happended.trans (List.append_nil _).symm) ?_)
      rw [hevicted]
      exact List.Subset.refl _
    · refine .inr ⟨bound, ⟨?_, ?_, ?_, htracks.stored⟩⟩
      · rw [← htracks.assigned, History.assigned, History.assigned, happended]
      · rw [hmailboxes]
        exact htracks.known
      · rw [hmailboxes]
        exact htracks.binds
  | store mailbox box pushed inner hbox hlive hidem hpushed hmailboxes happended hevicted =>
    have hassigned := assigned_append_single m token happended
    rcases honce with hgone | ⟨bound, htracks⟩
    · refine .inl (hgone.mono happended ?_)
      rw [hevicted]
      exact List.subset_append_left _ _
    by_cases hm : mailbox = m
    · subst hm
      -- the binding the pushed mailbox has, and the numbers assigned with it
      obtain ⟨bound', hbound', hbinds⟩ : ∃ bound' : Option ℕ,
          home'.history.assigned mailbox token = bound'.toList ∧ pushed.Binds token bound' ∧
            (bound = bound' ∨ bound = none) := by
        by_cases htoken : inner.idempotencyToken = token
        · have hnone : bound = none := by
            have hfree := (htracks.binds box hbox).idempotency
            rw [hlive, ← htoken, hidem] at hfree
            have hnone : none = bound := by simpa using hfree
            exact hnone.symm
          subst hnone
          refine ⟨some box.nextSeq, ?_, ?_, .inr rfl⟩
          · rw [hassigned, htracks.assigned, if_pos ⟨rfl, htoken⟩]
            rfl
          · rw [hpushed]
            exact (htracks.binds box hbox).push_first htoken _ _ _
        · refine ⟨bound, ?_, ?_, .inl rfl⟩
          · rw [hassigned, htracks.assigned, if_neg fun h ↦ htoken h.2, List.append_nil]
          · rw [hpushed]
            exact (htracks.binds box hbox).push_other htoken _ _ _
      rcases hbinds.1.gc home.now home.limits.mailboxMaxAgeSecs home.limits.mailboxMaxBytes with
        ⟨s, hs, hdropped⟩ | hkept
      · refine .inl ⟨s, ?_, ?_⟩
        · rw [hbound', Option.mem_def.mp hs]
          rfl
        · rw [hevicted]
          exact List.mem_append_right _ (List.mem_map_of_mem hdropped)
      · refine .inr ⟨bound', hbound', fun _ ↦ ?_, fun b hb ↦ ?_, fun seq hseq ↦ ?_⟩
        · rw [hmailboxes, AList.lookup_insert]
          rfl
        · rw [hmailboxes, AList.lookup_insert] at hb
          cases hb
          exact hkept
        · have hstored := htracks.stored seq hseq
          rcases hbinds.2 with rfl | rfl
          · exact hstored
          · cases hstored
    · have hlookup : home'.mailboxes.lookup m = home.mailboxes.lookup m := by
        rw [hmailboxes, FiniteMap.lookup_insert_ite, if_neg (Ne.symm hm)]
      refine .inr ⟨bound, ?_, ?_, ?_, htracks.stored⟩
      · rw [hassigned, htracks.assigned, if_neg fun h ↦ hm h.1, List.append_nil]
      · rw [hlookup]
        exact htracks.known
      · rw [hlookup]
        exact htracks.binds

theorem Edit.once (h : Edit crypto promises home home') (honce : home.Once db m token) :
    home'.Once db m token := by
  have happended := h.appended
  rcases honce with hgone | ⟨bound, htracks⟩
  · exact .inl (hgone.mono (happended.trans (List.append_nil _).symm) h.evicted_subset)
  · have hassigned : home'.history.assigned m token = bound.toList := by
      rw [← htracks.assigned, History.assigned, History.assigned, happended]
    have hunknown : home.mailboxes.lookup m = none → bound = none := by
      intro hnone
      cases bound with
      | none => rfl
      | some s => simpa [hnone] using htracks.known rfl
    rcases (h.boxEdit m).binds hunknown fun box hbox ↦ htracks.binds box hbox with
      ⟨s, rfl, hs⟩ | hbinds
    · exact .inl ⟨s, by rw [hassigned]; rfl, hs⟩
    · refine .inr ⟨bound, hassigned, fun hsome ↦ ?_, hbinds, htracks.stored⟩
      exact (LoudEdit.quiet h).isSome_mailbox (htracks.known hsome)

theorem Steps.once (h : Steps crypto promises home home') (honce : home.Once db m token) :
    home'.Once db m token := by
  refine Chain.keeps (fun s ↦ s.Once db m token) (fun s s' hstep hs ↦ ?_) h honce
  rcases hstep.edit_or_appendStep with hedit | happend
  · exact hedit.once hs
  · exact happend.once hs

/-! ## Persists and restarts -/

variable {node : Node}

theorem HomeServer.Tracks.persist (h : home.Tracks db m token bound) {db' : Database}
    (hwritten : db'.WrittenFrom home db) : home.Tracks db' m token bound := by
  refine ⟨h.assigned, h.known, h.binds, ?_⟩
  rintro seq ⟨row, inner, hrow, hdecode, htoken⟩
  rcases hwritten.mailboxRows (m, seq) row hrow with
    hold | ⟨box, seq', stored, hbox, hstored, hseq, hencode⟩
  · exact h.stored seq ⟨row, inner, hold, hdecode, htoken⟩
  · have hbinds := h.binds box hbox
    have hsame := InnerEnvelope.idempotencyToken_of_decodePadded hencode hdecode
    obtain rfl : seq' = seq := (hbinds.seq_eq seq' stored hstored).symm.trans hseq
    exact hbinds.rows seq' stored hstored (hsame.symm.trans htoken)

/-- A restart reads the binding back from the row, if it is there. -/
theorem HomeServer.Tracks.reload (h : home.Tracks db m token bound) {loaded : HomeServer}
    (hloaded : loaded.ReadFrom db) (hsafe : ∀ s ∈ bound, db.Remembers m token s) :
    HomeServer.Tracks { loaded with history := home.history } db m token bound := by
  refine ⟨h.assigned, fun hsome ↦ ?_, fun box hbox ↦ ?_, h.stored⟩
  · obtain ⟨s, rfl⟩ := Option.isSome_iff_exists.mp hsome
    obtain ⟨ident, hident, hnext, -⟩ := hsafe s rfl
    exact hloaded.isSome_mailbox hident hnext
  · obtain ⟨ident, rows, hident, hnext, hdisabled, ⟨blank, rfl⟩, hrows⟩ :=
      hloaded.lookup_mailbox hbox
    have hread {seq : ℕ} {row : StoredEnvelope} (hrow : rows.lookup seq = some row) :
        row.seq = seq ∧ (row.inner.idempotencyToken = token → bound = some seq) := by
      rw [hrows] at hrow
      obtain ⟨stored, hstored, hload⟩ := Option.bind_eq_some_iff.mp hrow
      obtain ⟨hseq, hdecode⟩ := loadEnvelope_eq_some hload
      exact ⟨hseq, fun htoken ↦ h.stored seq ⟨stored, row.inner, hstored, hdecode, htoken⟩⟩
    refine ⟨?_, fun seq row hrow ↦ (hread hrow).1, fun seq row hrow ↦ (hread hrow).2⟩
    cases bound with
    | none =>
      right
      cases hlookup : (blank.withRows rows).idempotency.lookup token with
      | none => rfl
      | some seq =>
        obtain ⟨row, hrow, htoken⟩ := Mailbox.exists_row_of_idempotency_withRows blank
          (fun _ _ hrow ↦ (hread hrow).1) hlookup
        exact ((hread hrow).2 htoken).symm
    | some s =>
      obtain ⟨ident', hident', -, hstored⟩ := hsafe s rfl
      rw [hident] at hident'
      cases hident'
      refine hstored.imp hdisabled.trans fun hholds ↦ ?_
      obtain ⟨stored, inner, hlookup, hdecode, rfl⟩ := hholds
      have hrow : rows.lookup s = some ⟨s, stored.receivedAt, stored.expiresAt, inner⟩ := by
        rw [hrows, hlookup, Option.bind_some, loadEnvelope, hdecode]
        rfl
      exact Mailbox.idempotency_withRows blank (fun _ _ hrow ↦ (hread hrow).1) hrow
        fun seq' row' hrow' htoken ↦ (Option.some.inj ((hread hrow').2 htoken)).symm

/-! ## The dedup window -/

theorem mem_assigned_iff {history : History} {seq : ℕ} :
    seq ∈ history.assigned m token ↔ history.Appended m seq token := by
  simp only [History.assigned, History.Appended, List.mem_map, List.mem_filter, Bool.and_eq_true,
    decide_eq_true_eq]
  constructor
  · rintro ⟨⟨mailbox, row⟩, ⟨hmem, rfl, htoken⟩, hseq⟩
    exact ⟨row, hmem, hseq, htoken⟩
  · rintro ⟨row, hmem, hseq, htoken⟩
    exact ⟨(m, row), ⟨hmem, rfl, htoken⟩, hseq⟩

theorem firstAnswered_append {history history' : History} {outer : OuterEnvelope} {n : ℕ}
    (hingested : history'.ingested = history.ingested ++ [(outer, n)]) {enc : Key} {seq : ℕ}
    {first : OuterEnvelope} (h : history'.firstAnswered enc seq = some first) :
    history.firstAnswered enc seq = some first ∨
      ¬ history.Answered enc seq ∧ first = outer ∧ seq = n ∧
        encapKey outer.hpkeCiphertext = .ok enc := by
  rw [History.firstAnswered, hingested, List.find?_append] at h
  unfold History.firstAnswered
  cases hold : history.ingested.find? fun entry ↦
      decide (encapKey entry.1.hpkeCiphertext = .ok enc) && decide (entry.2 = seq) with
  | some entry =>
    rw [hold] at h
    exact .inl h
  | none =>
    rw [hold, Option.none_or, List.find?_singleton] at h
    have hnone := List.find?_eq_none.mp hold
    right
    split_ifs at h with hnew
    · cases h
      rw [Bool.and_eq_true, decide_eq_true_eq, decide_eq_true_eq] at hnew
      refine ⟨fun ⟨earlier, hmem, henc⟩ ↦ hnone (earlier, seq) hmem ?_, rfl, hnew.2.symm, hnew.1⟩
      simp [henc]
    · cases h

theorem exists_firstAnswered {history : History} {enc : Key} {seq : ℕ}
    (h : history.Answered enc seq) : ∃ first, history.firstAnswered enc seq = some first := by
  obtain ⟨outer, hmem, henc⟩ := h
  have hsome : (history.ingested.find? fun entry ↦
      decide (encapKey entry.1.hpkeCiphertext = .ok enc) && decide (entry.2 = seq)).isSome := by
    rw [List.find?_isSome]
    exact ⟨(outer, seq), hmem, by simp [henc]⟩
  obtain ⟨entry, hentry⟩ := Option.isSome_iff_exists.mp hsome
  exact ⟨entry.1, by rw [History.firstAnswered, hentry]; rfl⟩

/-- The keys of a set are at the mailbox, and a number first answered to a retry of the token is one
the token got there. -/
structure HomeServer.Repeats (home : HomeServer) (crypto : Crypto) (caps : Key → Prop)
    (m : IdentityId) (token : Key) : Prop where
  tokens : ∀ entry ∈ home.tokens, caps entry.1 → entry.2.mailbox = m
  answers : ∀ enc seq first, home.history.firstAnswered enc seq = some first →
    History.Retries crypto home.hpke caps token first → home.history.Appended m seq token

variable {caps : Key → Prop}

/-- Nothing was answered, so the numbers answered are those answered before. -/
theorem HomeServer.Repeats.of_ingested (h : home.Repeats crypto caps m token)
    (htokens : ∀ entry ∈ home'.tokens, caps entry.1 → entry.2.mailbox = m)
    (hingested : home'.history.ingested = home.history.ingested) (hhpke : home'.hpke = home.hpke)
    (hextends : home.history.Extends home'.history) : home'.Repeats crypto caps m token := by
  refine ⟨htokens, fun enc seq first hfirst hretries ↦ ?_⟩
  rw [History.firstAnswered, hingested] at hfirst
  rw [hhpke] at hretries
  exact hextends.appended_mono (h.answers enc seq first hfirst hretries)

theorem Steps.tokens_of_issues (h : Steps crypto (.issues caps m) home home')
    (htokens : ∀ entry ∈ home.tokens, caps entry.1 → entry.2.mailbox = m) :
    ∀ entry ∈ home'.tokens, caps entry.1 → entry.2.mailbox = m :=
  Chain.keeps (fun s : HomeServer ↦ ∀ entry ∈ s.tokens, caps entry.1 → entry.2.mailbox = m)
    (fun _ _ hedit hs ↦ hedit.tokenEdit.forall_mem (P := fun token owner ↦ caps token → owner = m)
      (fun _ _ _ hregisters _ ↦ hregisters) hs) h.loud htokens

/-- An envelope that is opened and appended gets a number of its token. -/
theorem HomeServer.Repeats.appended (h : home.Repeats crypto caps m token)
    (haccounted : home.Accounted crypto) {inner : InnerEnvelope} {seq : ℕ}
    (htoken : inner.idempotencyToken = token) (hcap : caps inner.deliveryCapability)
    (happend : home.appendInner inner = (.ok seq, home')) : home'.history.Appended m seq token := by
  obtain ⟨-, -, -, -, hanswer⟩ := haccounted.appendInner inner
  rw [happend] at hanswer
  obtain ⟨mailbox, row, hmailbox, hmem, hseq, hinner⟩ := hanswer seq rfl
  obtain ⟨kind, hkind, rfl⟩ := Option.map_eq_some_iff.mp hmailbox
  have hm : kind.mailbox = m :=
    h.tokens (inner.deliveryCapability, kind) (Tokens.mem_of_find hkind) hcap
  have hrow : row.inner.idempotencyToken = token := by
    rw [← htoken]
    exact hinner.elim (congrArg InnerEnvelope.idempotencyToken) And.right
  exact ⟨row, hm ▸ hmem, hseq, hrow⟩

theorem HomeServer.Repeats.ingest (h : home.Repeats crypto caps m token)
    (haccounted : home.Accounted crypto) (outer : OuterEnvelope)
    (htokens : ∀ entry ∈ (home.ingest crypto outer).2.tokens, caps entry.1 → entry.2.mailbox = m) :
    (home.ingest crypto outer).2.Repeats crypto caps m token := by
  rcases home.ingest_cases crypto outer with ⟨e, tokens, dirty, hcase⟩ |
    ⟨enc, henc, ⟨seq, hseen, hcase⟩ | ⟨inner, seq, mid, -, hopen, happend, hcase⟩⟩
  · rw [hcase] at htokens ⊢
    exact h.of_ingested htokens rfl rfl (.of_eq rfl rfl)
  · rw [hcase] at htokens ⊢
    refine ⟨htokens, fun enc' seq' first hfirst hretries ↦ ?_⟩
    have hanswered := haccounted.seen enc seq hseen
    rcases firstAnswered_append rfl hfirst with hold | ⟨hnew, -, hseq, henc'⟩
    · exact h.answers enc' seq' first hold hretries
    · rw [henc] at henc'
      cases henc'
      exact absurd (hseq ▸ hanswered) hnew
  · obtain ⟨-, hextends, hingested, hhpke, -⟩ := haccounted.appendInner inner
    rw [happend] at hextends hingested hhpke
    rw [hcase] at htokens ⊢
    refine ⟨htokens, fun enc' seq' first hfirst hretries ↦ ?_⟩
    have hretries' : History.Retries crypto home.hpke caps token first := hhpke ▸ hretries
    have hlist : (mid.noteIngested outer seq).history.ingested =
        home.history.ingested ++ [(outer, seq)] := by rw [← hingested]; rfl
    rcases firstAnswered_append hlist hfirst with hold | ⟨-, rfl, rfl, -⟩
    · exact hextends.appended_mono (h.answers enc' seq' first hold hretries')
    · obtain ⟨inner', hopen', htoken, hcap⟩ := hretries'
      rw [hopen] at hopen'
      cases hopen'
      obtain ⟨row, hrow⟩ : mid.history.Appended m seq' token :=
        h.appended haccounted htoken hcap happend
      exact ⟨row, hrow⟩

theorem Steps.repeats (h : Steps crypto (.issues caps m) home home')
    (haccounted : home.Accounted crypto) (hrepeats : home.Repeats crypto caps m token) :
    home'.Repeats crypto caps m token := by
  refine (Chain.keeps
    (fun s : HomeServer ↦ s.Accounted crypto ∧ s.Repeats crypto caps m token)
    (fun s s' hstep hs ↦ ?_) h ⟨haccounted, hrepeats⟩).2
  have hsteps : Steps crypto (.issues caps m) s s' := .single hstep
  have htokens := hsteps.tokens_of_issues hs.2.tokens
  refine ⟨hsteps.accounted hs.1, ?_⟩
  cases hstep with
  | quiet hedit =>
    exact hs.2.of_ingested htokens hedit.ingested (LoudEdit.quiet hedit).keys.1 hsteps.extends
  | append inner _ =>
    obtain ⟨-, hextends, hingested, hhpke, -⟩ := hs.1.appendInner inner
    exact hs.2.of_ingested htokens hingested hhpke hextends
  | ingest outer => exact hs.2.ingest hs.1 outer htokens

/-- Memory and database know the keys of the set at the mailbox. -/
structure Node.Repeats (node : Node) (crypto : Crypto) (caps : Key → Prop) (m : IdentityId)
    (token : Key) : Prop where
  accounted : node.Accounted crypto
  home : node.home.Repeats crypto caps m token
  stored : ∀ key row, node.db.tokens.lookup key = some row → caps key → row.mailbox = m

theorem Node.Repeats.apply (h : node.Repeats crypto caps m token) (op : NodeOp)
    (hop : op.IssuesOnly crypto caps m node) :
    (op.apply crypto node).Repeats crypto caps m token := by
  refine ⟨h.accounted.apply op, ?_, ?_⟩
  · cases op with
    | home op =>
      exact (op.apply_steps crypto _ node.home hop).repeats h.accounted.1 h.home
    | group op => exact h.home
    | persist fault =>
      obtain ⟨⟨dirty, hhome⟩, -⟩ := node.persist_writes fault
      have hrepeats : (node.persist fault).2.home.Repeats crypto caps m token := by
        rw [hhome]
        exact h.home.of_ingested h.home.tokens rfl rfl (.of_eq rfl rfl)
      exact hrepeats
    | reload =>
      have hkeys : (NodeOp.reload.apply crypto node).home.hpke = node.home.hpke :=
        (NodeOp.keys_run crypto [.reload] node).1
      rw [NodeOp.apply] at hkeys ⊢
      rcases node.reload_reads crypto with hsame | ⟨loaded, host, hloaded, heq⟩
      · rw [hsame]
        exact h.home
      · rw [heq] at hkeys ⊢
        refine h.home.of_ingested (fun entry hentry hcap ↦ ?_) rfl hkeys (.of_eq rfl rfl)
        obtain ⟨row, hrow, hmailbox⟩ := hloaded.mem_tokens hentry
        rw [← hmailbox]
        exact h.stored entry.1 row hrow hcap
  · cases op with
    | home op => exact h.stored
    | group op => exact h.stored
    | persist fault =>
      obtain ⟨-, hwritten⟩ := node.persist_writes fault
      intro key row hrow hcap
      rcases hwritten.tokens key row hrow with ⟨old, hold, heq⟩ | ⟨kind, hkind, heq⟩
      · exact heq ▸ h.stored key old hold hcap
      · exact heq ▸ h.home.tokens (key, kind) hkind hcap
    | reload =>
      rw [NodeOp.apply]
      rcases node.reload_reads crypto with hsame | ⟨loaded, host, -, heq⟩
      · rw [hsame]
        exact h.stored
      · rw [heq]
        exact h.stored

/-- An accepted append of a bound token answers the bound number and stores nothing. -/
theorem HomeServer.Tracks.appendInner {first : ℕ} (h : home.Tracks db m token (some first))
    {inner : InnerEnvelope} {seq : ℕ} (htoken : inner.idempotencyToken = token)
    (hcap : home.capabilityMailbox inner.deliveryCapability = some m)
    (happend : home.appendInner inner = (.ok seq, home')) :
    seq = first ∧ home'.mailboxes = home.mailboxes ∧
      home'.history.appended = home.history.appended := by
  rcases home.appendInner_cases inner with
    ⟨e, tokens, dirty, hcase⟩ | ⟨mailbox, box, tokens, dirty, hcap', hbox, hlive, hcase⟩
  · rw [hcase] at happend
    cases happend
  · rw [hcap] at hcap'
    cases hcap'
    have hbound : box.idempotency.lookup inner.idempotencyToken = some first := by
      have hidem := (h.binds box hbox).idempotency
      rw [hlive] at hidem
      rw [htoken]
      exact hidem.resolve_left Bool.false_ne_true
    rcases hcase with ⟨seq', hseq, hcase⟩ | ⟨padded, hnone, -⟩
    · rw [hcase] at happend
      cases happend
      rw [hbound] at hseq
      exact ⟨(Option.some.inj hseq).symm, rfl, rfl⟩
    · rw [hbound] at hnone
      cases hnone

/-- An accepted `ingest` of a retry answers the bound number and stores nothing, if the number that is
remembered for its encapsulated key was first given to a retry as well. -/
theorem HomeServer.Tracks.ingest {first : ℕ} (h : home.Tracks db m token (some first))
    (haccounted : home.Accounted crypto) (hrepeats : home.Repeats crypto caps m token)
    {inner : InnerEnvelope} (htoken : inner.idempotencyToken = token)
    (hcap : home.capabilityMailbox inner.deliveryCapability = some m) {outer : OuterEnvelope}
    {enc : Key} {seq : ℕ} (henc : encapKey outer.hpkeCiphertext = .ok enc)
    (hopen : crypto.openOuter home.hpke outer = .ok inner)
    (hfirst : ∀ n earlier, home.seenEnc.lookup enc = some n →
      home.history.firstAnswered enc n = some earlier →
        History.Retries crypto home.hpke caps token earlier)
    (hingest : home.ingest crypto outer = (.ok seq, home')) :
    seq = first ∧ home'.mailboxes = home.mailboxes := by
  rcases home.ingest_cases crypto outer with
    ⟨e, tokens, dirty, hcase⟩ | ⟨enc', henc', ⟨seq', hseen, hcase⟩ |
      ⟨inner', seq', home'', -, hopen', happend, hcase⟩⟩
  · rw [hcase] at hingest
    cases hingest
  · rw [hcase] at hingest
    cases hingest
    rw [henc] at henc'
    cases henc'
    obtain ⟨earlier, hearlier⟩ := exists_firstAnswered (haccounted.seen enc seq hseen)
    have hgot := hrepeats.answers enc seq earlier hearlier (hfirst seq earlier hseen hearlier)
    have hmem : seq ∈ home.history.assigned m token := mem_assigned_iff.mpr hgot
    rw [h.assigned] at hmem
    exact ⟨List.mem_singleton.mp hmem, rfl⟩
  · rw [hcase] at hingest
    cases hingest
    rw [hopen] at hopen'
    cases hopen'
    obtain ⟨hseq, hmailboxes, -⟩ := h.appendInner htoken hcap happend
    exact ⟨hseq, hmailboxes⟩

end NemoMessenger.Server
