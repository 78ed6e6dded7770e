import NemoMessenger.Server.Operation

/-!
# The mailbox log

What a mailbox promises about its rows: they are stored under their own sequence numbers below
`next_seq`, `bytes` is the sum of their sizes, and the idempotency map leads from the token of every
row to its number. Appends, acknowledgements, garbage collection and disabling keep the promise.
-/

namespace NemoMessenger.Server

open NemoMessenger.Data NemoMessenger.Wire

namespace Mailbox

/-- The invariant of a mailbox log. -/
structure LogInv (box : Mailbox) : Prop where
  bytes_eq : box.bytes = FiniteMap.sumBy (fun row ↦ encodedLen row.inner) box.rows
  seq_eq : ∀ seq row, box.rows.lookup seq = some row → row.seq = seq
  seq_lt : ∀ seq row, box.rows.lookup seq = some row → seq < box.nextSeq
  idempotency : ∀ seq row, box.rows.lookup seq = some row →
    box.idempotency.lookup row.inner.idempotencyToken = some seq

theorem logInv_new (ownerPk : Key) : (Mailbox.new ownerPk).LogInv where
  bytes_eq := rfl
  seq_eq := by simp [Mailbox.new]
  seq_lt := by simp [Mailbox.new]
  idempotency := by simp [Mailbox.new]

/-- The subtraction in every removal is exact. -/
theorem LogInv.encodedLen_le {box : Mailbox} (h : box.LogInv) {seq : ℕ} {row : StoredEnvelope}
    (hrow : box.rows.lookup seq = some row) : encodedLen row.inner ≤ box.bytes := by
  rw [h.bytes_eq]
  exact FiniteMap.le_sumBy (fun row ↦ encodedLen row.inner) hrow

/-- Two stored rows with one idempotency token are one row. -/
theorem LogInv.seq_unique {box : Mailbox} (h : box.LogInv) {seq seq' : ℕ}
    {row row' : StoredEnvelope} (hrow : box.rows.lookup seq = some row)
    (hrow' : box.rows.lookup seq' = some row')
    (htoken : row.inner.idempotencyToken = row'.inner.idempotencyToken) : seq = seq' := by
  have hseq := h.idempotency seq row hrow
  rw [htoken, h.idempotency seq' row' hrow'] at hseq
  exact (Option.some.inj hseq).symm

/-! ## Removing rows -/

@[simp] theorem removeRow_nextSeq (box : Mailbox) (seq : ℕ) :
    (box.removeRow seq).nextSeq = box.nextSeq := by
  unfold removeRow
  split <;> rfl

@[simp] theorem removeRow_ownerPk (box : Mailbox) (seq : ℕ) :
    (box.removeRow seq).ownerPk = box.ownerPk := by
  unfold removeRow
  split <;> rfl

@[simp] theorem removeRow_disabled (box : Mailbox) (seq : ℕ) :
    (box.removeRow seq).disabled = box.disabled := by
  unfold removeRow
  split <;> rfl

theorem lookup_removeRow (box : Mailbox) (seq s : ℕ) :
    (box.removeRow seq).rows.lookup s = if s = seq then none else box.rows.lookup s := by
  unfold removeRow
  split
  · rename_i hnone
    split_ifs with hs
    · rw [hs, hnone]
    · rfl
  · exact FiniteMap.lookup_erase_ite box.rows seq s

theorem idempotency_removeRow {box : Mailbox} {seq s : ℕ} {token : Key} (hs : s ≠ seq)
    (h : box.idempotency.lookup token = some s) :
    (box.removeRow seq).idempotency.lookup token = some s := by
  unfold removeRow
  split
  · exact h
  · rw [FiniteMap.lookup_retain, h]
    simp [hs]

theorem idempotency_of_removeRow {box : Mailbox} {seq s : ℕ} {token : Key}
    (h : (box.removeRow seq).idempotency.lookup token = some s) :
    box.idempotency.lookup token = some s := by
  unfold removeRow at h
  split at h
  · exact h
  · rw [FiniteMap.lookup_retain, Option.filter_eq_some_iff] at h
    exact h.1

theorem LogInv.removeRow {box : Mailbox} (h : box.LogInv) (seq : ℕ) : (box.removeRow seq).LogInv := by
  have hlookup : ∀ s row, (box.removeRow seq).rows.lookup s = some row →
      s ≠ seq ∧ box.rows.lookup s = some row := by
    intro s row hrow
    rw [lookup_removeRow] at hrow
    split_ifs at hrow with hs
    exact ⟨hs, hrow⟩
  refine ⟨?_, ?_, ?_, ?_⟩
  · have hbytes := h.bytes_eq
    unfold Mailbox.removeRow
    split
    · exact hbytes
    · rename_i row hrow
      have hsum := FiniteMap.sumBy_erase (fun row ↦ encodedLen row.inner) hrow
      dsimp only at hsum ⊢
      omega
  · exact fun s row hrow ↦ h.seq_eq s row (hlookup s row hrow).2
  · intro s row hrow
    rw [removeRow_nextSeq]
    exact h.seq_lt s row (hlookup s row hrow).2
  · intro s row hrow
    obtain ⟨hs, hrow⟩ := hlookup s row hrow
    exact idempotency_removeRow hs (h.idempotency s row hrow)

theorem lookup_foldl_removeRow (seqs : List ℕ) (box : Mailbox) (s : ℕ) :
    (seqs.foldl Mailbox.removeRow box).rows.lookup s =
      if s ∈ seqs then none else box.rows.lookup s := by
  induction seqs generalizing box with
  | nil => simp
  | cons seq seqs ih =>
    rw [List.foldl_cons, ih, lookup_removeRow]
    by_cases hs : s = seq <;> simp [hs]

/-- What no single removal changes, a list of removals does not change. -/
theorem foldl_removeRow_eq {α : Type} {f : Mailbox → α}
    (hf : ∀ box seq, f (Mailbox.removeRow box seq) = f box) (seqs : List ℕ) (box : Mailbox) :
    f (seqs.foldl Mailbox.removeRow box) = f box := by
  induction seqs generalizing box with
  | nil => rfl
  | cons seq seqs ih => rw [List.foldl_cons, ih, hf]

theorem idempotency_of_foldl_removeRow (seqs : List ℕ) {box : Mailbox} {token : Key} {s : ℕ}
    (h : (seqs.foldl Mailbox.removeRow box).idempotency.lookup token = some s) :
    box.idempotency.lookup token = some s := by
  induction seqs generalizing box with
  | nil => exact h
  | cons seq seqs ih => exact idempotency_of_removeRow (ih h)

theorem LogInv.foldl_removeRow {box : Mailbox} (h : box.LogInv) (seqs : List ℕ) :
    (seqs.foldl Mailbox.removeRow box).LogInv := by
  induction seqs generalizing box with
  | nil => exact h
  | cons seq seqs ih => exact ih (h.removeRow seq)

/-! ## Acknowledging rows -/

theorem lookup_ackRow (box : Mailbox) (seq s : ℕ) :
    (box.ackRow seq).rows.lookup s = if s = seq then none else box.rows.lookup s := by
  unfold ackRow
  split
  · rename_i hnone
    split_ifs with hs
    · rw [hs, hnone]
    · rfl
  · exact FiniteMap.lookup_erase_ite box.rows seq s

theorem ackRow_fields (box : Mailbox) (seq : ℕ) :
    (box.ackRow seq).nextSeq = box.nextSeq ∧ (box.ackRow seq).ownerPk = box.ownerPk ∧
      (box.ackRow seq).disabled = box.disabled ∧
      (box.ackRow seq).idempotency = box.idempotency := by
  unfold ackRow
  split <;> exact ⟨rfl, rfl, rfl, rfl⟩

theorem LogInv.ackRow {box : Mailbox} (h : box.LogInv) (seq : ℕ) : (box.ackRow seq).LogInv := by
  obtain ⟨hnext, -, -, hidem⟩ := ackRow_fields box seq
  have hlookup : ∀ s row, (box.ackRow seq).rows.lookup s = some row →
      box.rows.lookup s = some row := by
    intro s row hrow
    rw [lookup_ackRow] at hrow
    split_ifs at hrow
    exact hrow
  refine ⟨?_, ?_, ?_, ?_⟩
  · have hbytes := h.bytes_eq
    unfold Mailbox.ackRow
    split
    · exact hbytes
    · rename_i row hrow
      have hsum := FiniteMap.sumBy_erase (fun row ↦ encodedLen row.inner) hrow
      dsimp only at hsum ⊢
      omega
  · exact fun s row hrow ↦ h.seq_eq s row (hlookup s row hrow)
  · intro s row hrow
    rw [hnext]
    exact h.seq_lt s row (hlookup s row hrow)
  · intro s row hrow
    rw [hidem]
    exact h.idempotency s row (hlookup s row hrow)

theorem lookup_foldl_ackRow (seqs : List ℕ) (box : Mailbox) (s : ℕ) :
    (seqs.foldl Mailbox.ackRow box).rows.lookup s =
      if s ∈ seqs then none else box.rows.lookup s := by
  induction seqs generalizing box with
  | nil => simp
  | cons seq seqs ih =>
    rw [List.foldl_cons, ih, lookup_ackRow]
    by_cases hs : s = seq <;> simp [hs]

theorem foldl_ackRow_fields (seqs : List ℕ) (box : Mailbox) :
    (seqs.foldl Mailbox.ackRow box).nextSeq = box.nextSeq ∧
      (seqs.foldl Mailbox.ackRow box).ownerPk = box.ownerPk ∧
      (seqs.foldl Mailbox.ackRow box).disabled = box.disabled ∧
      (seqs.foldl Mailbox.ackRow box).idempotency = box.idempotency := by
  induction seqs generalizing box with
  | nil => exact ⟨rfl, rfl, rfl, rfl⟩
  | cons seq seqs ih =>
    obtain ⟨hnext, hkey, hdisabled, hidem⟩ := ackRow_fields box seq
    rw [List.foldl_cons, ← hnext, ← hkey, ← hdisabled, ← hidem]
    exact ih (box.ackRow seq)

theorem LogInv.foldl_ackRow {box : Mailbox} (h : box.LogInv) (seqs : List ℕ) :
    (seqs.foldl Mailbox.ackRow box).LogInv := by
  induction seqs generalizing box with
  | nil => exact h
  | cons seq seqs ih => exact ih (h.ackRow seq)

/-! ## Appending a row -/

theorem LogInv.lookup_nextSeq {box : Mailbox} (h : box.LogInv) :
    box.rows.lookup box.nextSeq = none := by
  cases hrow : box.rows.lookup box.nextSeq with
  | none => rfl
  | some row => exact absurd (h.seq_lt _ row hrow) (lt_irrefl _)

theorem LogInv.push {box : Mailbox} (h : box.LogInv) {inner : InnerEnvelope}
    (hidem : box.idempotency.lookup inner.idempotencyToken = none) (now maxAge : ℕ) :
    (box.push now maxAge inner (encodedLen inner)).LogInv := by
  refine ⟨?_, ?_, ?_, ?_⟩
  · have hsum := FiniteMap.sumBy_insert (fun row : StoredEnvelope ↦ encodedLen row.inner)
      { seq := box.nextSeq
        receivedAt := now
        expiresAt := envelopeExpiry now inner.ttlBucket maxAge
        inner := inner } h.lookup_nextSeq
    have hbytes := h.bytes_eq
    unfold Mailbox.push
    dsimp only at hsum ⊢
    omega
  · intro s row hrow
    rw [Mailbox.push, FiniteMap.lookup_insert_ite] at hrow
    split_ifs at hrow with hs
    · cases hrow
      exact hs.symm
    · exact h.seq_eq s row hrow
  · intro s row hrow
    rw [Mailbox.push, FiniteMap.lookup_insert_ite] at hrow
    split_ifs at hrow with hs
    · rw [hs]
      exact Nat.lt_succ_self _
    · exact (h.seq_lt s row hrow).trans (Nat.lt_succ_self _)
  · intro s row hrow
    rw [Mailbox.push, FiniteMap.lookup_insert_ite] at hrow
    rw [Mailbox.push, FiniteMap.lookup_insert_ite]
    split_ifs at hrow with hs
    · cases hrow
      rw [if_pos rfl, hs]
    · have hstored := h.idempotency s row hrow
      rw [if_neg, hstored]
      intro htoken
      rw [htoken, hidem] at hstored
      cases hstored

/-! ## Garbage collection -/

/-- What the size loop does: it drops the rows below some number and nothing else. -/
theorem evictLoop_spec (maxBytes turns : ℕ) (box : Mailbox) (dropped : List ℕ) :
    ∃ evicted, (evictLoop maxBytes turns box dropped).2 = dropped ++ evicted ∧
      (evictLoop maxBytes turns box dropped).1 = evicted.foldl Mailbox.removeRow box ∧
      ∃ bound, ∀ s, s ∈ evicted ↔ (box.rows.lookup s).isSome ∧ s < bound := by
  induction turns generalizing box dropped with
  | zero => exact ⟨[], by simp [evictLoop], rfl, 0, by simp⟩
  | succ turns ih =>
    rw [evictLoop]
    split
    · split
      · exact ⟨[], by simp, rfl, 0, by simp⟩
      · rename_i oldest holdest
        obtain ⟨evicted, hdropped, hbox, bound, hbound⟩ :=
          ih (box.removeRow oldest) (dropped ++ [oldest])
        refine ⟨oldest :: evicted, ?_, ?_, max bound (oldest + 1), ?_⟩
        · rw [hdropped, List.append_assoc, List.singleton_append]
        · rw [hbox, List.foldl_cons]
        · intro s
          have hsome : (box.rows.lookup oldest).isSome :=
            FiniteMap.mem_sortedKeys.mp (List.mem_of_mem_head? holdest)
          rw [List.mem_cons, hbound, lookup_removeRow]
          by_cases hs : s = oldest
          · subst hs
            simp [hsome]
          · have hle : (box.rows.lookup s).isSome → oldest ≤ s :=
              FiniteMap.head?_sortedKeys_le holdest
            simp only [hs, false_or, if_false]
            constructor
            · rintro ⟨hrow, hlt⟩
              exact ⟨hrow, by omega⟩
            · rintro ⟨hrow, hlt⟩
              have := hle hrow
              exact ⟨hrow, by omega⟩
    · exact ⟨[], by simp, rfl, 0, by simp⟩

/-- With a turn for every row the loop ends within the limit. -/
theorem evictLoop_bytes_le {box : Mailbox} (h : box.LogInv) {maxBytes turns : ℕ}
    (hturns : box.rows.entries.length ≤ turns) (dropped : List ℕ) :
    (evictLoop maxBytes turns box dropped).1.bytes ≤ maxBytes := by
  have hempty {box : Mailbox} (h : box.LogInv) (hrows : ∀ s, box.rows.lookup s = none) :
      box.bytes ≤ maxBytes := by
    rw [h.bytes_eq, FiniteMap.sumBy_eq_zero _ hrows]
    exact Nat.zero_le _
  induction turns generalizing box dropped with
  | zero =>
    rw [evictLoop]
    refine hempty h fun s ↦ ?_
    have hnil : box.rows.entries = [] := List.length_eq_zero_iff.mp (by omega)
    cases hrow : box.rows.lookup s with
    | none => rfl
    | some row => simpa [hnil] using FiniteMap.lookup_eq_some_iff.mp hrow
  | succ turns ih =>
    rw [evictLoop]
    split
    · split
      · rename_i hnone
        exact hempty h (FiniteMap.sortedKeys_eq_nil hnone)
      · rename_i oldest holdest
        apply ih (h.removeRow oldest)
        have hsome : (box.rows.lookup oldest).isSome :=
          FiniteMap.mem_sortedKeys.mp (List.mem_of_mem_head? holdest)
        obtain ⟨row, hrow⟩ := Option.isSome_iff_exists.mp hsome
        have hlen := FiniteMap.length_entries_erase hrow
        have hrows : (box.removeRow oldest).rows = box.rows.erase oldest := by
          unfold removeRow
          rw [hrow]
        rw [hrows]
        omega
    · rename_i hbytes
      exact Nat.le_of_not_lt hbytes

/-- A row at the end of the log that fits the limit on its own is not evicted. -/
theorem lookup_evictLoop_last {box : Mailbox} (h : box.LogInv) {maxBytes : ℕ} {last : ℕ}
    {row : StoredEnvelope} (hrow : box.rows.lookup last = some row)
    (hlast : ∀ s, (box.rows.lookup s).isSome → s ≤ last) (hfits : encodedLen row.inner ≤ maxBytes)
    (turns : ℕ) (dropped : List ℕ) :
    (evictLoop maxBytes turns box dropped).1.rows.lookup last = some row := by
  induction turns generalizing box dropped with
  | zero => exact hrow
  | succ turns ih =>
    rw [evictLoop]
    split
    · rename_i hbytes
      split
      · exact hrow
      · rename_i oldest holdest
        have hne : last ≠ oldest := by
          -- if the oldest row were the last one, it would be the only one, and it fits
          rintro rfl
          have honly : ∀ s, (box.rows.erase last).lookup s = none := by
            intro s
            rw [FiniteMap.lookup_erase_ite]
            split_ifs with hs
            · rfl
            · cases hother : box.rows.lookup s with
              | none => rfl
              | some other =>
                have hsome : (box.rows.lookup s).isSome := by rw [hother]; rfl
                have := FiniteMap.head?_sortedKeys_le holdest hsome
                have := hlast s hsome
                omega
          have hsum := FiniteMap.sumBy_erase (fun row ↦ encodedLen row.inner) hrow
          rw [FiniteMap.sumBy_eq_zero _ honly, ← h.bytes_eq] at hsum
          omega
        apply ih (h.removeRow oldest)
        · rw [lookup_removeRow, if_neg hne, hrow]
        · intro s hs
          rw [lookup_removeRow] at hs
          split_ifs at hs
          · simp at hs
          · exact hlast s hs
    · exact hrow

/-- What `gc` drops: the expired rows, and of the others those below some number. -/
theorem gc_spec (box : Mailbox) (now maxAge maxBytes : ℕ) :
    (box.gc now maxAge maxBytes).1 =
        (box.gc now maxAge maxBytes).2.foldl Mailbox.removeRow box ∧
      ∃ bound, ∀ s, s ∈ (box.gc now maxAge maxBytes).2 ↔
        ∃ row, box.rows.lookup s = some row ∧ (expired now maxAge row ∨ s < bound) := by
  obtain ⟨evicted, hdropped, hbox, bound, hbound⟩ := evictLoop_spec maxBytes
    (FiniteMap.sortedKeys ((box.expiredSeqs now maxAge).foldl Mailbox.removeRow box).rows).length
    ((box.expiredSeqs now maxAge).foldl Mailbox.removeRow box) (box.expiredSeqs now maxAge)
  refine ⟨?_, bound, ?_⟩
  · rw [gc, hdropped, hbox, List.foldl_append]
  · intro s
    have hexpired : s ∈ box.expiredSeqs now maxAge ↔
        ∃ row, box.rows.lookup s = some row ∧ expired now maxAge row := by
      rw [expiredSeqs, List.mem_filter, FiniteMap.mem_sortedKeys]
      cases hrow : box.rows.lookup s <;> simp
    rw [gc, hdropped, List.mem_append, hbound, lookup_foldl_removeRow]
    cases hrow : box.rows.lookup s with
    | none => simp [hexpired, hrow]
    | some row => by_cases hage : expired now maxAge row <;> simp [hexpired, hrow, hage]

theorem lookup_gc (box : Mailbox) (now maxAge maxBytes s : ℕ) :
    (box.gc now maxAge maxBytes).1.rows.lookup s =
      if s ∈ (box.gc now maxAge maxBytes).2 then none else box.rows.lookup s := by
  obtain ⟨hbox, -⟩ := gc_spec box now maxAge maxBytes
  rw [hbox, lookup_foldl_removeRow]

theorem LogInv.gc {box : Mailbox} (h : box.LogInv) (now maxAge maxBytes : ℕ) :
    (box.gc now maxAge maxBytes).1.LogInv := by
  obtain ⟨hbox, -⟩ := gc_spec box now maxAge maxBytes
  rw [hbox]
  exact h.foldl_removeRow _

theorem gc_bytes_le {box : Mailbox} (h : box.LogInv) (now maxAge maxBytes : ℕ) :
    (box.gc now maxAge maxBytes).1.bytes ≤ maxBytes := by
  rw [Mailbox.gc]
  exact evictLoop_bytes_le (h.foldl_removeRow _) (by rw [FiniteMap.length_sortedKeys]) _

/-- The last row survives when it is not expired and fits the limit on its own. -/
theorem lookup_gc_last {box : Mailbox} (h : box.LogInv) {now maxAge maxBytes last : ℕ}
    {row : StoredEnvelope} (hrow : box.rows.lookup last = some row)
    (hlast : ∀ s, (box.rows.lookup s).isSome → s ≤ last) (hfresh : expired now maxAge row = false)
    (hfits : encodedLen row.inner ≤ maxBytes) :
    (box.gc now maxAge maxBytes).1.rows.lookup last = some row := by
  have hkept : last ∉ box.expiredSeqs now maxAge := by
    rw [expiredSeqs, List.mem_filter, hrow]
    simp [hfresh]
  rw [Mailbox.gc]
  apply lookup_evictLoop_last (h.foldl_removeRow _) _ _ hfits
  · rw [lookup_foldl_removeRow, if_neg hkept, hrow]
  · intro s hs
    rw [lookup_foldl_removeRow] at hs
    split_ifs at hs
    · simp at hs
    · exact hlast s hs

/-! ## Disabling -/

theorem lookup_disable (box : Mailbox) (s : ℕ) : box.disable.rows.lookup s = none := by
  rw [disable, lookup_foldl_removeRow]
  split_ifs with hs
  · rfl
  · rw [FiniteMap.mem_sortedKeys] at hs
    simpa using hs

theorem LogInv.disable {box : Mailbox} (h : box.LogInv) : box.disable.LogInv := by
  have hfold := h.foldl_removeRow (FiniteMap.sortedKeys box.rows)
  exact ⟨hfold.bytes_eq, hfold.seq_eq, hfold.seq_lt, hfold.idempotency⟩

end Mailbox

/-! ## Edits of mailboxes -/

/-- Everything a quiet edit can do to one mailbox. Rows are dropped for garbage only. -/
inductive BoxEdit (evicted : ℕ → Prop) : Option Mailbox → Option Mailbox → Prop
  | same (box : Option Mailbox) : BoxEdit evicted box box
  | new (ownerPk : Key) : BoxEdit evicted none (some (.new ownerPk))
  | drop (box : Mailbox) (seqs : List ℕ) (hevicted : ∀ seq ∈ seqs, evicted seq) :
    BoxEdit evicted (some box) (some (seqs.foldl Mailbox.removeRow box))
  | disable (box : Mailbox) : BoxEdit evicted (some box) (some box.disable)
  | ack (box : Mailbox) (seqs : List ℕ) :
    BoxEdit evicted (some box) (some (seqs.foldl Mailbox.ackRow box))

/-- Everything an edit can do to one mailbox. -/
inductive LoudBoxEdit (decoded : Prop) : Option Mailbox → Option Mailbox → Prop
  | quiet {box box' : Option Mailbox} (evicted : ℕ → Prop) (h : BoxEdit evicted box box') :
    LoudBoxEdit decoded box box'
  | push (box : Mailbox) (inner : InnerEnvelope) (now maxAge : ℕ)
    (hidem : box.idempotency.lookup inner.idempotencyToken = none)
    (hcanonical : decoded → inner.Canonical) :
    LoudBoxEdit decoded (some box) (some (box.push now maxAge inner (encodedLen inner)))

theorem encodedLen_eq {inner : InnerEnvelope} {padded : Bytes}
    (h : inner.encodePadded = .ok padded) : encodedLen inner = padded.length := by
  rw [encodedLen, h]

theorem lookup_disableMailbox (home : HomeServer) (owner m : IdentityId) :
    (home.disableMailbox owner).mailboxes.lookup m =
      if m = owner then (home.mailboxes.lookup m).map Mailbox.disable
      else home.mailboxes.lookup m := by
  unfold HomeServer.disableMailbox
  dsimp only
  split
  · rename_i box hbox
    rw [FiniteMap.lookup_insert_ite]
    split_ifs with hm
    · rw [hm, hbox]
      rfl
    · rfl
  · rename_i hnone
    split_ifs with hm
    · rw [hm, hnone]
      rfl
    · rfl

variable {crypto : Crypto} {promises : Promises} {home home' : HomeServer}

theorem Edit.boxEdit (h : Edit crypto promises home home') (m : IdentityId) :
    BoxEdit (fun seq ↦ (m, seq) ∈ home'.history.evicted) (home.mailboxes.lookup m)
      (home'.mailboxes.lookup m) := by
  cases h with
  | clock | nonces | sweepTime | rebind | pushToken | setToken | dropTokens | putDirectory |
    joinGroup | leaveGroups | setPrekeys | peers | outbound => exact .same _
  | register identityId ownerPk entry hnew hentry =>
    rw [HomeServer.mailboxes_addEntry, FiniteMap.lookup_insert_ite]
    split_ifs with hm
    · rw [hm, hnew]
      exact .new ownerPk
    · exact .same _
  | disable owner =>
    rw [lookup_disableMailbox]
    split_ifs
    · cases home.mailboxes.lookup m with
      | none => exact .same none
      | some box => exact .disable box
    · exact .same _
  | gc owner box hbox =>
    obtain ⟨hgc, -⟩ := Mailbox.gc_spec box home.now home.limits.mailboxMaxAgeSecs
      home.limits.mailboxMaxBytes
    rw [HomeServer.gcBox, FiniteMap.lookup_insert_ite]
    split_ifs with hm
    · rw [hm, hbox, hgc]
      refine .drop box _ fun seq hseq ↦ ?_
      exact List.mem_append_right _ (List.mem_map_of_mem hseq)
    · exact .same _
  | ack owner box upto hbox _ =>
    rw [HomeServer.ackBox, FiniteMap.lookup_insert_ite]
    split_ifs with hm
    · rw [hm, hbox]
      exact .ack box _
    · exact .same _

theorem LoudEdit.boxEdit (h : LoudEdit crypto promises home home') (m : IdentityId) :
    LoudBoxEdit promises.decoded (home.mailboxes.lookup m) (home'.mailboxes.lookup m) := by
  cases h with
  | quiet h => exact .quiet _ (h.boxEdit m)
  | store mailbox box inner padded hbox hlive hidem hencode hcanonical =>
    rw [HomeServer.storeRow, FiniteMap.lookup_insert_ite]
    split_ifs with hm
    · rw [hm, hbox, ← encodedLen_eq hencode]
      exact .push box inner _ _ hidem hcanonical
    · exact .quiet (fun _ ↦ False) (.same _)
  | remember enc seq hnew => exact .quiet (fun _ ↦ False) (.same _)
  | note outer seq => exact .quiet (fun _ ↦ False) (.same _)

theorem BoxEdit.logInv {evicted : ℕ → Prop} {box box' : Option Mailbox}
    (h : BoxEdit evicted box box')
    (hinv : ∀ b ∈ box, b.LogInv) : ∀ b ∈ box', b.LogInv := by
  cases h with
  | same => exact hinv
  | new ownerPk =>
    rintro _ ⟨⟩
    exact Mailbox.logInv_new ownerPk
  | drop box seqs =>
    rintro _ ⟨⟩
    exact (hinv box rfl).foldl_removeRow seqs
  | disable box =>
    rintro _ ⟨⟩
    exact (hinv box rfl).disable
  | ack box seqs =>
    rintro _ ⟨⟩
    exact (hinv box rfl).foldl_ackRow seqs

theorem LoudBoxEdit.logInv {decoded : Prop} {box box' : Option Mailbox}
    (h : LoudBoxEdit decoded box box')
    (hinv : ∀ b ∈ box, b.LogInv) : ∀ b ∈ box', b.LogInv := by
  cases h with
  | quiet _ h => exact h.logInv hinv
  | push box inner now maxAge hidem _ =>
    rintro _ ⟨⟩
    exact (hinv box rfl).push hidem now maxAge

/-- A mailbox never goes away and keeps its owner and its counter. -/
theorem BoxEdit.kept {evicted : ℕ → Prop} {box : Mailbox} {box' : Option Mailbox}
    (h : BoxEdit evicted (some box) box') :
    ∃ b, box' = some b ∧ b.ownerPk = box.ownerPk ∧ b.nextSeq = box.nextSeq := by
  have hfields (seqs : List ℕ) :
      (seqs.foldl Mailbox.removeRow box).ownerPk = box.ownerPk ∧
        (seqs.foldl Mailbox.removeRow box).nextSeq = box.nextSeq :=
    ⟨Mailbox.foldl_removeRow_eq Mailbox.removeRow_ownerPk seqs box,
      Mailbox.foldl_removeRow_eq Mailbox.removeRow_nextSeq seqs box⟩
  cases h with
  | same => exact ⟨box, rfl, rfl, rfl⟩
  | drop _ seqs => exact ⟨_, rfl, hfields seqs⟩
  | disable _ => exact ⟨_, rfl, hfields _⟩
  | ack _ seqs =>
    obtain ⟨hnext, hkey, -⟩ := Mailbox.foldl_ackRow_fields seqs box
    exact ⟨_, rfl, hkey, hnext⟩

/-- Appending raises the counter; nothing lowers it. -/
theorem LoudBoxEdit.kept {decoded : Prop} {box : Mailbox} {box' : Option Mailbox}
    (h : LoudBoxEdit decoded (some box) box') :
    ∃ b, box' = some b ∧ b.ownerPk = box.ownerPk ∧ box.nextSeq ≤ b.nextSeq := by
  cases h with
  | quiet _ h =>
    obtain ⟨b, hb, hkey, hnext⟩ := h.kept
    exact ⟨b, hb, hkey, hnext.ge⟩
  | push _ inner now maxAge _ _ => exact ⟨_, rfl, rfl, Nat.le_succ _⟩

/-- Every mailbox of the server keeps its log. -/
def HomeServer.LogInv (home : HomeServer) : Prop :=
  ∀ m box, home.mailboxes.lookup m = some box → box.LogInv

theorem LoudEdits.logInv (h : LoudEdits crypto promises home home') (hinv : home.LogInv) :
    home'.LogInv := by
  refine Chain.keeps HomeServer.LogInv (fun s s' hedit hs ↦ ?_) h hinv
  exact fun m box hbox ↦ (hedit.boxEdit m).logInv (fun b hb ↦ hs m b hb) box hbox

theorem LoudEdit.mailbox_kept (h : LoudEdit crypto promises home home') {m : IdentityId}
    {box : Mailbox} (hbox : home.mailboxes.lookup m = some box) :
    ∃ b, home'.mailboxes.lookup m = some b ∧ b.ownerPk = box.ownerPk ∧
      box.nextSeq ≤ b.nextSeq := by
  have hstep := h.boxEdit m
  rw [hbox] at hstep
  exact hstep.kept

/-- Along edits mailboxes stay and their counters do not fall. -/
theorem LoudEdits.nextSeq_le (h : LoudEdits crypto promises home home') {m : IdentityId}
    {box : Mailbox} (hbox : home.mailboxes.lookup m = some box) :
    ∃ b, home'.mailboxes.lookup m = some b ∧ box.nextSeq ≤ b.nextSeq := by
  refine Chain.keeps (fun s ↦ ∃ b, s.mailboxes.lookup m = some b ∧ box.nextSeq ≤ b.nextSeq)
    (fun s s' hedit hs ↦ ?_) h ⟨box, hbox, le_rfl⟩
  obtain ⟨b, hb, hle⟩ := hs
  obtain ⟨b', hb', -, hle'⟩ := hedit.mailbox_kept hb
  exact ⟨b', hb', hle.trans hle'⟩

end NemoMessenger.Server
