import NemoMessenger.Server.Restart

/-!
# Answers of ingest

`ingest` answers a replayed encapsulated key before it opens the ciphertext, and a known idempotency
token without comparing envelopes. As long as neither is used for two different envelopes, every
answer names a row with the opened envelope in it, over any operations, persists and restarts.
-/

namespace NemoMessenger.Server

open NemoMessenger.Data NemoMessenger.Wire

/-- A row with a token was once appended to a mailbox under a number. -/
def History.Appended (history : History) (m : IdentityId) (seq : ℕ) (token : Key) : Prop :=
  ∃ row, (m, row) ∈ history.appended ∧ row.seq = seq ∧ row.inner.idempotencyToken = token

/-- An envelope with an encapsulated key was once answered with a number. -/
def History.Answered (history : History) (enc : Key) (seq : ℕ) : Prop :=
  ∃ outer, (outer, seq) ∈ history.ingested ∧ encapKey outer.hpkeCiphertext = .ok enc

/-- The envelope opens, and what it opens to was appended under the number. -/
def History.Holds (crypto : Crypto) (hpke : HpkeKeypair) (history : History)
    (outer : OuterEnvelope) (seq : ℕ) : Prop :=
  ∃ inner m row, crypto.openOuter hpke outer = .ok inner ∧ (m, row) ∈ history.appended ∧
    row.seq = seq ∧ row.inner = inner

/-- An envelope has its encapsulated key and its idempotency token for itself: no other envelope was
answered under the key, and no other inner envelope was appended under the token. -/
structure History.Fits (crypto : Crypto) (hpke : HpkeKeypair) (history : History)
    (outer : OuterEnvelope) : Prop where
  encs : ∀ entry ∈ history.ingested,
    encapKey entry.1.hpkeCiphertext = encapKey outer.hpkeCiphertext → entry.1 = outer
  tokens : ∀ inner, crypto.openOuter hpke outer = .ok inner → ∀ stored ∈ history.appended,
    stored.2.inner.idempotencyToken = inner.idempotencyToken → stored.2.inner = inner

/-- Every envelope that was answered fits. -/
def History.Honest (crypto : Crypto) (hpke : HpkeKeypair) (history : History) : Prop :=
  ∀ entry ∈ history.ingested, history.Fits crypto hpke entry.1

/-- Nothing is forgotten. -/
structure History.Extends (history history' : History) : Prop where
  appended : history.appended ⊆ history'.appended
  ingested : history.ingested ⊆ history'.ingested

namespace History

variable {crypto : Crypto} {hpke : HpkeKeypair} {history history' : History}

theorem Extends.of_eq (happended : history'.appended = history.appended)
    (hingested : history'.ingested = history.ingested) : history.Extends history' := by
  constructor
  · rw [happended]
    exact List.Subset.refl _
  · rw [hingested]
    exact List.Subset.refl _

theorem Extends.appended_mono (h : history.Extends history') {m : IdentityId} {seq : ℕ}
    {token : Key} (hrow : history.Appended m seq token) : history'.Appended m seq token := by
  obtain ⟨row, hmem, hdata⟩ := hrow
  exact ⟨row, h.appended hmem, hdata⟩

theorem Extends.answered_mono (h : history.Extends history') {enc : Key} {seq : ℕ}
    (hanswer : history.Answered enc seq) : history'.Answered enc seq := by
  obtain ⟨outer, hmem, henc⟩ := hanswer
  exact ⟨outer, h.ingested hmem, henc⟩

theorem Extends.holds_mono (h : history.Extends history') {outer : OuterEnvelope} {seq : ℕ}
    (hholds : history.Holds crypto hpke outer seq) : history'.Holds crypto hpke outer seq := by
  obtain ⟨inner, m, row, hopen, hmem, hdata⟩ := hholds
  exact ⟨inner, m, row, hopen, h.appended hmem, hdata⟩

theorem Fits.of_extends {outer : OuterEnvelope} (h : history'.Fits crypto hpke outer)
    (hextends : history.Extends history') : history.Fits crypto hpke outer :=
  ⟨fun entry hentry ↦ h.encs entry (hextends.ingested hentry),
    fun inner hopen stored hstored ↦ h.tokens inner hopen stored (hextends.appended hstored)⟩

/-- Honesty is a promise about the whole history, so it held before. -/
theorem Honest.of_extends (h : history'.Honest crypto hpke) (hextends : history.Extends history') :
    history.Honest crypto hpke :=
  fun entry hentry ↦ (h entry (hextends.ingested hentry)).of_extends hextends

end History

/-! ## Mailboxes -/

/-- Every binding and every row of a mailbox goes back to an append. -/
structure Mailbox.Backed (box : Mailbox) (appended : ℕ → Key → Prop) : Prop where
  idempotency : ∀ token seq, box.idempotency.lookup token = some seq → appended seq token
  seq_eq : ∀ seq row, box.rows.lookup seq = some row → row.seq = seq
  rows : ∀ seq row, box.rows.lookup seq = some row → appended seq row.inner.idempotencyToken

section Mailbox

variable {box : Mailbox} {appended appended' : ℕ → Key → Prop}

theorem Mailbox.Backed.mono (h : box.Backed appended)
    (himp : ∀ seq token, appended seq token → appended' seq token) : box.Backed appended' :=
  ⟨fun token seq hseq ↦ himp _ _ (h.idempotency token seq hseq), h.seq_eq,
    fun seq row hrow ↦ himp _ _ (h.rows seq row hrow)⟩

/-- Fewer rows and bindings are backed as well. -/
theorem Mailbox.Backed.of_subset (h : box.Backed appended) {box' : Mailbox}
    (hidem : ∀ token seq, box'.idempotency.lookup token = some seq →
      box.idempotency.lookup token = some seq)
    (hrows : ∀ seq row, box'.rows.lookup seq = some row → box.rows.lookup seq = some row) :
    box'.Backed appended :=
  ⟨fun token seq hseq ↦ h.idempotency token seq (hidem token seq hseq),
    fun seq row hrow ↦ h.seq_eq seq row (hrows seq row hrow),
    fun seq row hrow ↦ h.rows seq row (hrows seq row hrow)⟩

theorem Mailbox.Backed.drop (h : box.Backed appended) (seqs : List ℕ) :
    (seqs.foldl Mailbox.removeRow box).Backed appended := by
  refine h.of_subset (fun _ _ ↦ Mailbox.idempotency_of_foldl_removeRow seqs) fun seq row hrow ↦ ?_
  rw [Mailbox.lookup_foldl_removeRow] at hrow
  split_ifs at hrow
  exact hrow

theorem Mailbox.Backed.ack (h : box.Backed appended) (seqs : List ℕ) :
    (seqs.foldl Mailbox.ackRow box).Backed appended := by
  obtain ⟨-, -, -, hidem⟩ := Mailbox.foldl_ackRow_fields seqs box
  refine h.of_subset (fun token seq hseq ↦ ?_) fun seq row hrow ↦ ?_
  · rwa [hidem] at hseq
  · rw [Mailbox.lookup_foldl_ackRow] at hrow
    split_ifs at hrow
    exact hrow

theorem Mailbox.Backed.push (h : box.Backed appended) (now maxAge size : ℕ)
    {inner : InnerEnvelope} (hnew : appended box.nextSeq inner.idempotencyToken) :
    (box.push now maxAge inner size).Backed appended := by
  refine ⟨fun token seq hseq ↦ ?_, fun seq row hrow ↦ ?_, fun seq row hrow ↦ ?_⟩
  · rw [Mailbox.push, FiniteMap.lookup_insert_ite] at hseq
    split_ifs at hseq with htoken
    · cases hseq
      exact htoken ▸ hnew
    · exact h.idempotency token seq hseq
  · rw [Mailbox.push, FiniteMap.lookup_insert_ite] at hrow
    split_ifs at hrow with hseq
    · cases hrow
      exact hseq.symm
    · exact h.seq_eq seq row hrow
  · rw [Mailbox.push, FiniteMap.lookup_insert_ite] at hrow
    split_ifs at hrow with hseq
    · cases hrow
      exact hseq ▸ hnew
    · exact h.rows seq row hrow

theorem BoxEdit.backed {evicted : ℕ → Prop} {before after : Option Mailbox}
    (h : BoxEdit evicted before after) (hbefore : ∀ box ∈ before, box.Backed appended) :
    ∀ box ∈ after, box.Backed appended := by
  cases h with
  | same => exact hbefore
  | new ownerPk =>
    rintro _ ⟨⟩
    exact ⟨fun _ _ h ↦ (by cases h), fun _ _ h ↦ (by cases h), fun _ _ h ↦ by cases h⟩
  | drop box seqs _ =>
    rintro _ ⟨⟩
    exact (hbefore box rfl).drop seqs
  | disable box =>
    rintro _ ⟨⟩
    have hdropped := (hbefore box rfl).drop (FiniteMap.sortedKeys box.rows)
    exact ⟨hdropped.idempotency, hdropped.seq_eq, hdropped.rows⟩
  | ack box seqs =>
    rintro _ ⟨⟩
    exact (hbefore box rfl).ack seqs

end Mailbox

/-! ## One server -/

/-- What a server knows goes back to what happened, and honest answers name what was stored. -/
structure HomeServer.Accounted (home : HomeServer) (crypto : Crypto) : Prop where
  boxes : ∀ m, ∀ box ∈ home.mailboxes.lookup m, box.Backed (home.history.Appended m)
  seen : ∀ enc seq, home.seenEnc.lookup enc = some seq → home.history.Answered enc seq
  answers : home.history.Honest crypto home.hpke →
    ∀ entry ∈ home.history.ingested, home.history.Holds crypto home.hpke entry.1 entry.2

section Server

variable {crypto : Crypto} {promises : Promises} {home home' : HomeServer}

theorem HomeServer.Accounted.of_eq (h : home.Accounted crypto)
    (hmailboxes : home'.mailboxes = home.mailboxes) (hseen : home'.seenEnc = home.seenEnc)
    (hhpke : home'.hpke = home.hpke) (happended : home'.history.appended = home.history.appended)
    (hingested : home'.history.ingested = home.history.ingested) : home'.Accounted crypto := by
  have hextends := History.Extends.of_eq happended hingested
  refine ⟨fun m box hbox ↦ ?_, fun enc seq hseq ↦ ?_, fun hhonest entry hentry ↦ ?_⟩
  · rw [hmailboxes] at hbox
    exact (h.boxes m box hbox).mono fun _ _ ↦ hextends.appended_mono
  · rw [hseen] at hseq
    exact hextends.answered_mono (h.seen enc seq hseq)
  · rw [hhpke] at hhonest ⊢
    rw [hingested] at hentry
    exact hextends.holds_mono (h.answers (hhonest.of_extends hextends) entry hentry)

theorem Edit.ingested (h : Edit crypto promises home home') :
    home'.history.ingested = home.history.ingested := by
  cases h <;> rfl

theorem Edit.seenEnc (h : Edit crypto promises home home') : home'.seenEnc = home.seenEnc := by
  cases h <;> rfl

theorem Edit.accounted (h : Edit crypto promises home home') (hhome : home.Accounted crypto) :
    home'.Accounted crypto := by
  have hextends := History.Extends.of_eq h.appended h.ingested
  refine ⟨fun m ↦ ?_, fun enc seq hseq ↦ ?_, fun hhonest entry hentry ↦ ?_⟩
  · exact (h.boxEdit m).backed fun box hbox ↦
      (hhome.boxes m box hbox).mono fun _ _ ↦ hextends.appended_mono
  · rw [h.seenEnc] at hseq
    exact hextends.answered_mono (hhome.seen enc seq hseq)
  · rw [(LoudEdit.quiet h).keys.1] at hhonest ⊢
    rw [h.ingested] at hentry
    exact hextends.holds_mono (hhome.answers (hhonest.of_extends hextends) entry hentry)

/-- An append keeps the account, and answers the number of the new row or of one with its token. -/
theorem HomeServer.Accounted.appendInner (h : home.Accounted crypto) (inner : InnerEnvelope) :
    (home.appendInner inner).2.Accounted crypto ∧
      home.history.Extends (home.appendInner inner).2.history ∧
      (home.appendInner inner).2.history.ingested = home.history.ingested ∧
      (home.appendInner inner).2.hpke = home.hpke ∧
      ∀ seq, (home.appendInner inner).1 = .ok seq → ∃ m row,
        home.capabilityMailbox inner.deliveryCapability = some m ∧
        (m, row) ∈ (home.appendInner inner).2.history.appended ∧ row.seq = seq ∧
        (row.inner = inner ∨ (m, row) ∈ home.history.appended ∧
          row.inner.idempotencyToken = inner.idempotencyToken) := by
  rcases home.appendInner_cases inner with ⟨e, tokens, dirty, hcase⟩ |
    ⟨m, box, tokens, dirty, hcap, hbox, -, ⟨seq, hseq, hcase⟩ | ⟨padded, -, -, hcase⟩⟩
  · rw [hcase]
    exact ⟨h.of_eq rfl rfl rfl rfl rfl, .of_eq rfl rfl, rfl, rfl, fun seq heq ↦ by cases heq⟩
  · rw [hcase]
    refine ⟨h.of_eq rfl rfl rfl rfl rfl, .of_eq rfl rfl, rfl, rfl, fun seq heq ↦ ?_⟩
    cases heq
    obtain ⟨row, hmem, hnumber, htoken⟩ := (h.boxes m box hbox).idempotency _ _ hseq
    exact ⟨m, row, hcap, hmem, hnumber, .inr ⟨hmem, htoken⟩⟩
  · have hextends : home.history.Extends (home.appendInner inner).2.history := by
      rw [hcase]
      exact ⟨List.subset_append_left _ _, List.Subset.refl _⟩
    have hmem : (m, home.newRow box inner) ∈ (home.appendInner inner).2.history.appended := by
      rw [hcase]
      exact List.mem_append_right _ (List.mem_singleton_self _)
    rw [hcase] at hextends hmem ⊢
    refine ⟨⟨fun m' box' hbox' ↦ ?_, fun enc seq hseq ↦ ?_, fun hhonest entry hentry ↦ ?_⟩,
      hextends, rfl, rfl, fun seq heq ↦ ?_⟩
    · rw [FiniteMap.lookup_insert_ite] at hbox'
      split_ifs at hbox' with hm
      · cases hbox'
        subst hm
        obtain ⟨hgc, -⟩ := Mailbox.gc_spec
          (box.push home.now home.limits.mailboxMaxAgeSecs inner padded.length) home.now
          home.limits.mailboxMaxAgeSecs home.limits.mailboxMaxBytes
        rw [hgc]
        have hbacked := (h.boxes m' box hbox).mono fun _ _ ↦ hextends.appended_mono
        exact (hbacked.push _ _ _ ⟨home.newRow box inner, hmem, rfl, rfl⟩).drop _
      · exact (h.boxes m' box' hbox').mono fun _ _ ↦ hextends.appended_mono
    · exact hextends.answered_mono (h.seen enc seq hseq)
    · exact hextends.holds_mono (h.answers (hhonest.of_extends hextends) entry hentry)
    · cases heq
      exact ⟨m, home.newRow box inner, hcap, hmem, rfl, .inl rfl⟩

/-- An honest server answers a fitting envelope with the number it was answered before, or with the
number of a row that holds what it opens to. -/
theorem HomeServer.Accounted.holds_of_ingest (h : home.Accounted crypto)
    (hhonest : home.history.Honest crypto home.hpke) {outer : OuterEnvelope}
    (hfits : home.history.Fits crypto home.hpke outer) {seq : ℕ}
    (hingest : home.ingest crypto outer = (.ok seq, home')) :
    ((outer, seq) ∈ home.history.ingested ∧ home.history.Holds crypto home.hpke outer seq) ∨
      ∃ inner m row, crypto.openOuter home.hpke outer = .ok inner ∧
        home.capabilityMailbox inner.deliveryCapability = some m ∧
        (m, row) ∈ home'.history.appended ∧ row.seq = seq ∧ row.inner = inner := by
  rcases home.ingest_cases crypto outer with ⟨e, tokens, dirty, hcase⟩ |
    ⟨enc, henc, ⟨seq', hseen, hcase⟩ | ⟨inner, seq', mid, -, hopen, happend, hcase⟩⟩
  · rw [hcase] at hingest
    cases hingest
  · rw [hcase] at hingest
    cases hingest
    left
    obtain ⟨outer', hmem, henc'⟩ := h.seen enc seq hseen
    obtain rfl : outer' = outer := hfits.encs (outer', seq) hmem (henc'.trans henc.symm)
    exact ⟨hmem, h.answers hhonest (outer', seq) hmem⟩
  · rw [hcase] at hingest
    cases hingest
    right
    obtain ⟨-, -, -, -, hanswer⟩ := h.appendInner inner
    rw [happend] at hanswer
    obtain ⟨m, row, hcap, hmem, hseq, hinner⟩ := hanswer seq rfl
    refine ⟨inner, m, row, hopen, hcap, hmem, hseq, ?_⟩
    rcases hinner with hsame | ⟨hold, htoken⟩
    · exact hsame
    · exact hfits.tokens inner hopen (m, row) hold htoken

/-- The account after an answer has been noted, when the answer holds. -/
theorem HomeServer.Accounted.note (h : home.Accounted crypto) {outer : OuterEnvelope} {seq : ℕ}
    (hanswer : (home.noteIngested outer seq).history.Honest crypto home.hpke →
      home.history.Holds crypto home.hpke outer seq) :
    (home.noteIngested outer seq).Accounted crypto := by
  have hextends : home.history.Extends (home.noteIngested outer seq).history :=
    ⟨List.Subset.refl _, List.subset_append_left _ _⟩
  refine ⟨h.boxes, fun enc s hs ↦ hextends.answered_mono (h.seen enc s hs), ?_⟩
  intro hhonest entry hentry
  rcases List.mem_append.mp hentry with hold | hnew
  · exact hextends.holds_mono (h.answers (hhonest.of_extends hextends) entry hold)
  · obtain rfl := List.mem_singleton.mp hnew
    exact hextends.holds_mono (hanswer hhonest)

theorem HomeServer.Accounted.remember (h : home.Accounted crypto) {enc : Key} {seq : ℕ}
    (hanswered : home.history.Answered enc seq) : (home.rememberEnc enc seq).Accounted crypto := by
  refine ⟨h.boxes, fun enc' seq' hseq ↦ ?_, h.answers⟩
  rw [HomeServer.rememberEnc, FiniteMap.lookup_insert_ite] at hseq
  split_ifs at hseq with henc
  · cases hseq
    exact henc ▸ hanswered
  · cases hseq
  · exact h.seen enc' seq' hseq

theorem HomeServer.Accounted.ingest (h : home.Accounted crypto) (outer : OuterEnvelope) :
    (home.ingest crypto outer).2.Accounted crypto := by
  rcases home.ingest_cases crypto outer with ⟨e, tokens, dirty, hcase⟩ |
    ⟨enc, henc, ⟨seq, hseen, hcase⟩ | ⟨inner, seq, mid, hnew, hopen, happend, hcase⟩⟩
  · rw [hcase]
    exact h.of_eq rfl rfl rfl rfl rfl
  · rw [hcase]
    refine h.note fun hhonest ↦ ?_
    have hfits := hhonest (outer, seq) (List.mem_append_right _ (List.mem_singleton_self _))
    obtain ⟨outer', hmem, henc'⟩ := h.seen enc seq hseen
    obtain rfl : outer' = outer := hfits.encs (outer', seq) (List.mem_append_left _ hmem)
      (henc'.trans henc.symm)
    have hextends : home.history.Extends (home.noteIngested outer' seq).history :=
      ⟨List.Subset.refl _, List.subset_append_left _ _⟩
    exact h.answers (hhonest.of_extends hextends) (outer', seq) hmem
  · obtain ⟨hmid, hextends, hingested, hhpke, hanswer⟩ := h.appendInner inner
    rw [happend] at hmid hextends hingested hhpke hanswer
    obtain ⟨m, row, -, hmem, hseq, hinner⟩ := hanswer seq rfl
    have hnoted : (mid.noteIngested outer seq).Accounted crypto := by
      refine hmid.note fun hhonest ↦ ?_
      have hfits := hhonest (outer, seq) (List.mem_append_right _ (List.mem_singleton_self _))
      rw [hhpke] at hfits ⊢
      refine ⟨inner, m, row, hopen, hmem, hseq, ?_⟩
      exact hinner.elim id fun hold ↦ hfits.tokens inner hopen (m, row) hmem hold.2
    rw [hcase]
    exact hnoted.remember
      ⟨outer, List.mem_append_right _ (List.mem_singleton_self _), henc⟩

theorem Steps.accounted (h : Steps crypto promises home home') (hhome : home.Accounted crypto) :
    home'.Accounted crypto := by
  refine Chain.keeps (fun s : HomeServer ↦ s.Accounted crypto) (fun s s' hstep hs ↦ ?_) h hhome
  cases hstep with
  | quiet hedit => exact hedit.accounted hs
  | append inner _ => exact (hs.appendInner inner).1
  | ingest outer => exact hs.ingest outer

theorem LoudEdit.extends (h : LoudEdit crypto promises home home') :
    home.history.Extends home'.history := by
  cases h with
  | quiet hedit => exact .of_eq hedit.appended hedit.ingested
  | store => exact ⟨List.subset_append_left _ _, List.Subset.refl _⟩
  | remember => exact .of_eq rfl rfl
  | note => exact ⟨List.Subset.refl _, List.subset_append_left _ _⟩

/-- Nothing is removed from the history. -/
theorem Steps.extends (h : Steps crypto promises home home') :
    home.history.Extends home'.history := by
  refine Chain.keeps (fun s : HomeServer ↦ home.history.Extends s.history) (fun s s' hedit hs ↦ ?_)
    h.loud (.of_eq rfl rfl)
  exact ⟨List.Subset.trans hs.appended hedit.extends.appended,
    List.Subset.trans hs.ingested hedit.extends.ingested⟩

end Server

/-! ## Persists and restarts -/

/-- What is stored goes back to what happened. -/
structure Database.AccountedBy (db : Database) (history : History) : Prop where
  rows : ∀ m seq row inner, db.mailboxRows.lookup (m, seq) = some row →
    InnerEnvelope.decodePadded row.innerPadded = .ok inner →
      history.Appended m seq inner.idempotencyToken
  seen : ∀ enc seq, db.hpkeSeen.lookup enc = some seq → history.Answered enc seq

section Node

variable {crypto : Crypto} {home : HomeServer} {db : Database} {node : Node}

theorem Database.AccountedBy.mono {history history' : History} (h : db.AccountedBy history)
    (hextends : history.Extends history') : db.AccountedBy history' :=
  ⟨fun m seq row inner hrow hdecode ↦ hextends.appended_mono (h.rows m seq row inner hrow hdecode),
    fun enc seq hseq ↦ hextends.answered_mono (h.seen enc seq hseq)⟩

theorem Database.AccountedBy.persist (h : db.AccountedBy home.history)
    (hhome : home.Accounted crypto) {db' : Database} (hwritten : db'.WrittenFrom home db) :
    db'.AccountedBy home.history := by
  constructor
  · intro m seq row inner hrow hdecode
    rcases hwritten.mailboxRows (m, seq) row hrow with
      hold | ⟨box, seq', stored, hbox, hstored, hseq, hencode⟩
    · exact h.rows m seq row inner hold hdecode
    · have hbacked := hhome.boxes m box hbox
      have hsame := InnerEnvelope.idempotencyToken_of_decodePadded hencode hdecode
      obtain rfl : seq' = seq := (hbacked.seq_eq seq' stored hstored).symm.trans hseq
      exact hsame ▸ hbacked.rows seq' stored hstored
  · intro enc seq hseq
    exact (hwritten.hpkeSeen enc seq hseq).elim (h.seen enc seq) (hhome.seen enc seq)

theorem HomeServer.Accounted.reload (h : home.Accounted crypto) (hdb : db.AccountedBy home.history)
    {loaded : HomeServer} (hloaded : loaded.ReadFrom db) (hhpke : loaded.hpke = home.hpke) :
    HomeServer.Accounted { loaded with history := home.history } crypto := by
  refine ⟨fun m box hbox ↦ ?_, fun enc seq hseq ↦ ?_, ?_⟩
  · obtain ⟨ident, rows, -, -, -, ⟨blank, rfl⟩, hrows⟩ := hloaded.lookup_mailbox hbox
    have hread {seq : ℕ} {row : StoredEnvelope} (hrow : rows.lookup seq = some row) :
        row.seq = seq ∧ home.history.Appended m seq row.inner.idempotencyToken := by
      rw [hrows] at hrow
      obtain ⟨stored, hstored, hload⟩ := Option.bind_eq_some_iff.mp hrow
      obtain ⟨hseq, hdecode⟩ := loadEnvelope_eq_some hload
      exact ⟨hseq, hdb.rows m seq stored row.inner hstored hdecode⟩
    refine ⟨fun token seq hseq ↦ ?_, fun seq row hrow ↦ (hread hrow).1,
      fun seq row hrow ↦ (hread hrow).2⟩
    obtain ⟨row, hrow, htoken⟩ := Mailbox.exists_row_of_idempotency_withRows blank
      (fun _ _ hrow ↦ (hread hrow).1) hseq
    exact htoken ▸ (hread hrow).2
  · exact hdb.seen enc seq (hloaded.seenEnc ▸ hseq)
  · rw [hhpke]
    exact h.answers

/-- Memory and database go back to what happened. -/
def Node.Accounted (node : Node) (crypto : Crypto) : Prop :=
  node.home.Accounted crypto ∧ node.db.AccountedBy node.home.history

theorem Node.Accounted.apply (h : node.Accounted crypto) (op : NodeOp) :
    (op.apply crypto node).Accounted crypto := by
  cases op with
  | home op =>
    have hsteps := op.apply_steps crypto .none node.home (op.meets_none crypto _)
    exact ⟨hsteps.accounted h.1, h.2.mono hsteps.extends⟩
  | group op => exact h
  | persist fault =>
    obtain ⟨⟨dirty, hhome⟩, hwritten⟩ := node.persist_writes fault
    have haccounted : (node.persist fault).2.Accounted crypto := by
      rw [Node.Accounted, hhome]
      exact ⟨h.1.of_eq rfl rfl rfl rfl rfl, h.2.persist h.1 hwritten⟩
    exact haccounted
  | reload =>
    have hkeys := (NodeOp.keys_run crypto [.reload] node).1
    have hnext : (NodeOp.reload.apply crypto node).home.hpke = node.home.hpke := hkeys
    rw [NodeOp.apply] at hnext ⊢
    rcases node.reload_reads crypto with hsame | ⟨loaded, host, hloaded, heq⟩
    · rw [hsame]
      exact h
    · rw [heq] at hnext ⊢
      exact ⟨h.1.reload h.2 hloaded hnext, h.2⟩

theorem Node.accounted_fresh (crypto : Crypto) (hpke : HpkeKeypair) (sign : Key)
    (limits : Limits) : (Node.fresh crypto hpke sign limits).Accounted crypto :=
  ⟨⟨fun _ _ h ↦ (by cases h), fun _ _ h ↦ (by cases h), fun _ _ h ↦ by cases h⟩,
    ⟨fun _ _ _ _ h ↦ (by cases h), fun _ _ h ↦ by cases h⟩⟩

/-- In every run that uses encapsulated keys and idempotency tokens honestly, every answer `ingest`
has given names a row that holds what the envelope opens to; and the next answer to a fitting
envelope repeats such an answer, or names the row in the mailbox of its capability. -/
theorem ingest_holds_of_honest (crypto : Crypto) (hpke : HpkeKeypair) (sign : Key) (limits : Limits)
    (ops : List NodeOp) :
    let home := (run (NodeOp.apply crypto) (Node.fresh crypto hpke sign limits) ops).home
    home.history.Honest crypto hpke →
      (∀ entry ∈ home.history.ingested, home.history.Holds crypto hpke entry.1 entry.2) ∧
      ∀ outer seq home', home.history.Fits crypto hpke outer →
        home.ingest crypto outer = (.ok seq, home') →
        ((outer, seq) ∈ home.history.ingested ∧ home.history.Holds crypto hpke outer seq) ∨
          ∃ inner m row, crypto.openOuter hpke outer = .ok inner ∧
            home.capabilityMailbox inner.deliveryCapability = some m ∧
            (m, row) ∈ home'.history.appended ∧ row.seq = seq ∧ row.inner = inner := by
  intro home hhonest
  have haccounted : home.Accounted crypto :=
    (run_keeps (fun node : Node ↦ node.Accounted crypto) (fun _ op hs ↦ hs.apply op)
      (Node.accounted_fresh crypto hpke sign limits) ops).1
  have hhpke : home.hpke = hpke :=
    (NodeOp.keys_run crypto ops (Node.fresh crypto hpke sign limits)).1
  rw [← hhpke] at hhonest ⊢
  exact ⟨haccounted.answers hhonest,
    fun outer seq home' hfits hingest ↦ haccounted.holds_of_ingest hhonest hfits hingest⟩

/-- One envelope, answered once, is used honestly. -/
theorem History.honest_single {hpke : HpkeKeypair} {history : History} {outer : OuterEnvelope}
    {seq : ℕ} (inner : InnerEnvelope) (hingested : history.ingested = [(outer, seq)])
    (happended : history.appended.map (·.2.inner) = [inner])
    (hopen : crypto.openOuter hpke outer = .ok inner) : history.Honest crypto hpke := by
  intro entry hentry
  rw [hingested, List.mem_singleton] at hentry
  subst hentry
  constructor
  · intro entry hentry _
    rw [hingested, List.mem_singleton] at hentry
    rw [hentry]
  · intro inner' hinner stored hstored _
    have hmem := List.mem_map_of_mem (f := fun e ↦ e.2.inner) hstored
    rw [happended, List.mem_singleton] at hmem
    rw [hmem]
    exact Except.ok.inj (hopen.symm.trans hinner)

set_option maxRecDepth 100000 in
/-- One envelope is ingested: its row holds it. -/
theorem ingest_holds_of_one_envelope :
    let crypto := Crypto.transparent
    let key : Key := .replicate 32 1
    let home := (run (NodeOp.apply crypto) (Node.fresh crypto ⟨key, key⟩ key .default)
      [.home (.register key key), .home (.mintContactCapability key key),
        .home (.ingest (.blank key))]).home
    home.history.ingested = [(.blank key, 1)] ∧
      home.history.Holds crypto ⟨key, key⟩ (.blank key) 1 := by
  intro crypto key home
  obtain ⟨hingested, happended, hopen⟩ : home.history.ingested = [(.blank key, 1)] ∧
      home.history.appended.map (·.2.inner) = [.blank key key] ∧
      crypto.openOuter ⟨key, key⟩ (.blank key) = .ok (.blank key key) := by
    decide +kernel
  have hhonest : home.history.Honest crypto ⟨key, key⟩ :=
    History.honest_single (.blank key key) hingested happended hopen
  have hanswers := (ingest_holds_of_honest crypto ⟨key, key⟩ key .default
    [.home (.register key key), .home (.mintContactCapability key key),
      .home (.ingest (.blank key))] hhonest).1
  exact ⟨hingested, hanswers (.blank key, 1) (by rw [hingested]; exact List.mem_singleton_self _)⟩

set_option maxRecDepth 100000 in
/-- A ciphertext that does not open gets the number of the envelope whose encapsulated key it
carries. -/
theorem ingest_acknowledges_reused_enc :
    let crypto := Crypto.transparent
    let key : Key := .replicate 32 1
    let home := (run (NodeOp.apply crypto) (Node.fresh crypto ⟨key, key⟩ key .default)
      [.home (.register key key), .home (.mintContactCapability key key),
        .home (.ingest (.blank key))]).home
    let forged : OuterEnvelope := ⟨key, key.data⟩
    forged ≠ .blank key ∧ (crypto.openOuter ⟨key, key⟩ forged).toOption = none ∧
      (home.ingest crypto forged).1 = .ok 1 := by
  decide +kernel

end Node

end NemoMessenger.Server
