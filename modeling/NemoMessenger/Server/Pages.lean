import NemoMessenger.Data.Paging
import NemoMessenger.Server.Drain

/-!
# Fetching page by page

A device fetches its mailbox page by page while rows are appended, acknowledged, dropped and expire.
Each page is a page of the unexpired rows, so the pages come in order, and when one comes back empty
no row that was there all along is missing.
-/

namespace NemoMessenger.Server

open NemoMessenger.Data NemoMessenger.Wire

/-- The rows of a mailbox that have not expired, in their order. -/
def HomeServer.unexpired (home : HomeServer) (owner : IdentityId) : List StoredEnvelope :=
  match home.mailboxes.lookup owner with
  | some box => ((FiniteMap.sortedKeys box.rows).filterMap box.rows.lookup).filter fun row ↦
      decide (row.expiresAt > home.now)
  | none => []

/-- The request and the page, when an operation is a fetch of this mailbox that succeeds. -/
def HomeOp.fetched (crypto : Crypto) (home : HomeServer) (owner : IdentityId) :
    HomeOp → Option (MailboxOwnerAuth × List StoredEnvelope)
  | fetch mailbox auth nowUnix =>
    if mailbox = owner then (home.fetch crypto mailbox auth nowUnix).1.toOption.map (auth, ·)
    else none
  | _ => none

/-- The requests and pages of a run, in order. -/
def fetches (crypto : Crypto) (owner : IdentityId) :
    HomeServer → List HomeOp → List (MailboxOwnerAuth × List StoredEnvelope)
  | _, [] => []
  | home, op :: ops =>
    (op.fetched crypto home owner).toList ++ fetches crypto owner (op.apply crypto home) ops

/-- Every request has the cursor the page before ended at. -/
def Chained : ℕ → List (MailboxOwnerAuth × List StoredEnvelope) → Prop
  | _, [] => True
  | cursor, (auth, page) :: rest =>
    auth.cursor.toNat = cursor ∧ Chained (Paging.next (·.seq) cursor page) rest

instance Chained.decidable :
    ∀ (cursor : ℕ) (fetched : List (MailboxOwnerAuth × List StoredEnvelope)),
      Decidable (Chained cursor fetched)
  | _, [] => isTrue trivial
  | cursor, (auth, page) :: rest =>
    @instDecidableAnd _ _ (inferInstanceAs (Decidable (auth.cursor.toNat = cursor)))
      (Chained.decidable (Paging.next (StoredEnvelope.seq ·) cursor page) rest)

/-- The row is in the mailbox and has not expired. -/
def HomeServer.StoresUnexpired (home : HomeServer) (owner : IdentityId) (row : StoredEnvelope) :
    Prop :=
  (∃ box, home.mailboxes.lookup owner = some box ∧ box.rows.lookup row.seq = some row) ∧
    home.now < row.expiresAt

section Fetch

variable {crypto : Crypto} {home : HomeServer} {owner : IdentityId} {auth : MailboxOwnerAuth}
  {nowUnix : ℕ} {page : List StoredEnvelope}

/-- A fetch answers a page of what it leaves. -/
theorem HomeServer.fetch_of_ok (h : (home.fetch crypto owner auth nowUnix).1 = .ok page) :
    0 < auth.limit.toNat ∧ page = Paging.page (·.seq) auth.cursor.toNat
      ⟨(home.fetch crypto owner auth nowUnix).2.unexpired owner, auth.limit.toNat⟩ := by
  unfold HomeServer.fetch at h ⊢
  dsimp only at h ⊢
  split at h
  · cases h
  · rename_i checked heq
    split_ifs at h ⊢ with hlimit
    rw [not_or] at hlimit
    refine ⟨Nat.pos_of_ne_zero hlimit.1, ?_⟩
    cases hbox : (checked.gcMailbox owner).mailboxes.lookup owner with
    | none =>
      rw [hbox] at h
      cases h
    | some box =>
      rw [hbox] at h
      rw [← Except.ok.inj h]
      dsimp only
      rw [Paging.page, HomeServer.unexpired, hbox]
      dsimp only
      rw [List.filter_filter]

theorem sorted_unexpired (h : Reachable crypto home) (owner : IdentityId) :
    Paging.Sorted (·.seq) (home.unexpired owner) := by
  unfold HomeServer.unexpired
  split
  · rename_i box hbox
    have hlog := h.logsKept.log owner box hbox
    refine List.Pairwise.filter _ (List.pairwise_filterMap.mpr ?_)
    refine (FiniteMap.pairwise_sortedKeys box.rows).imp fun {k k'} hlt a ha b hb ↦ ?_
    calc
      a.seq = k := hlog.seq_eq k a ha
      _ < k' := hlt
      _ = b.seq := (hlog.seq_eq k' b hb).symm
  · exact List.Pairwise.nil

theorem HomeServer.StoresUnexpired.mem {row : StoredEnvelope} (h : home.StoresUnexpired owner row) :
    row ∈ home.unexpired owner := by
  obtain ⟨⟨box, hbox, hrow⟩, htime⟩ := h
  rw [HomeServer.unexpired, hbox]
  refine List.mem_filter.mpr ⟨List.mem_filterMap.mpr ⟨row.seq, ?_, hrow⟩, decide_eq_true htime⟩
  rw [FiniteMap.mem_sortedKeys, hrow]
  rfl

/-- The pages of a run are the pages of what each fetch leaves. -/
theorem exists_snapshots (h : Reachable crypto home) (owner : IdentityId) {cursor : ℕ}
    {ops : List HomeOp} (hchained : Chained cursor (fetches crypto owner home ops)) :
    ∃ snapshots, (fetches crypto owner home ops).map (·.2) = Paging.pages (·.seq) cursor snapshots ∧
      (∀ snapshot ∈ snapshots, Paging.Sorted (·.seq) snapshot.rows ∧ 0 < snapshot.limit) ∧
      ∀ row, (∀ early, early <+: ops → (run (HomeOp.apply crypto) home early).StoresUnexpired owner
        row) → ∀ snapshot ∈ snapshots, row ∈ snapshot.rows := by
  induction ops generalizing home cursor with
  | nil => exact ⟨[], rfl, nofun, fun _ _ _ h ↦ by cases h⟩
  | cons op ops ih =>
    have hlater {row : StoredEnvelope} (hrow : ∀ early, early <+: op :: ops →
        (run (HomeOp.apply crypto) home early).StoresUnexpired owner row) (early : List HomeOp)
        (hearly : early <+: ops) :
        (run (HomeOp.apply crypto) (op.apply crypto home) early).StoresUnexpired owner row :=
      hrow (op :: early) ((List.prefix_cons_inj op).mpr hearly)
    rw [fetches] at hchained ⊢
    cases hfetched : op.fetched crypto home owner with
    | none =>
      rw [hfetched] at hchained
      obtain ⟨snapshots, hpages, hgood, hrows⟩ := ih (.step op h) hchained
      exact ⟨snapshots, hpages, hgood, fun row hrow ↦ hrows row (hlater hrow)⟩
    | some result =>
      obtain ⟨auth, page⟩ := result
      rw [hfetched] at hchained
      obtain ⟨rfl, hchained⟩ := hchained
      obtain ⟨snapshots, hpages, hgood, hrows⟩ := ih (.step op h) hchained
      have hpage : 0 < auth.limit.toNat ∧ page = Paging.page (·.seq) auth.cursor.toNat
          ⟨(op.apply crypto home).unexpired owner, auth.limit.toNat⟩ := by
        cases op <;> try cases hfetched
        rename_i mailbox request nowUnix
        rw [HomeOp.fetched] at hfetched
        split_ifs at hfetched with howner
        obtain ⟨answer, hanswer, heq⟩ := Option.map_eq_some_iff.mp hfetched
        cases heq
        subst howner
        refine HomeServer.fetch_of_ok ?_
        cases hresult : (home.fetch crypto mailbox auth nowUnix).1 with
        | error e =>
          rw [hresult] at hanswer
          cases hanswer
        | ok answer' =>
          rw [hresult] at hanswer
          cases hanswer
          rfl
      refine ⟨⟨(op.apply crypto home).unexpired owner, auth.limit.toNat⟩ :: snapshots, ?_, ?_, ?_⟩
      · rw [Paging.pages, ← hpage.2, ← hpages]
        rfl
      · intro snapshot hmem
        rcases List.mem_cons.mp hmem with rfl | hmem
        · exact ⟨sorted_unexpired (.step op h) owner, hpage.1⟩
        · exact hgood snapshot hmem
      · intro row hrow snapshot hmem
        rcases List.mem_cons.mp hmem with rfl | hmem
        · exact (hlater hrow [] List.nil_prefix).mem
        · exact hrows row (hlater hrow) snapshot hmem

/-- The pages of a mailbox come in order and hold no row twice, and once a page comes back empty they
hold every row behind the first cursor that was stored and unexpired throughout. -/
theorem pages_complete (h : Reachable crypto home) (owner : IdentityId) (cursor : ℕ)
    (ops : List HomeOp) (hchained : Chained cursor (fetches crypto owner home ops)) :
    let pages := (fetches crypto owner home ops).map (·.2)
    pages.flatten.Pairwise (fun before after ↦ before.seq < after.seq) ∧
      (∀ row ∈ pages.flatten, cursor < row.seq) ∧ pages.flatten.Nodup ∧
      (pages.getLast? = some [] → ∀ row, cursor < row.seq →
        (∀ early, early <+: ops →
          (run (HomeOp.apply crypto) home early).StoresUnexpired owner row) →
        row ∈ pages.flatten) := by
  obtain ⟨snapshots, hpages, hgood, hrows⟩ := exists_snapshots h owner hchained
  dsimp only
  rw [hpages]
  obtain ⟨hsorted, hbehind⟩ := Paging.sorted_pages fun snapshot hmem ↦ (hgood snapshot hmem).1
  refine ⟨hsorted, hbehind, hsorted.imp fun hlt heq ↦ ?_, fun hempty row hcursor hrow ↦
    Paging.mem_pages hgood hempty (hrows row hrow) hcursor⟩
  rw [heq] at hlt
  exact lt_irrefl _ hlt

set_option maxRecDepth 100000 in
/-- Three rows are fetched two at a time, and the third page is empty. -/
theorem pages_complete_of_three_rows :
    let crypto := Crypto.transparent
    let key : Key := .replicate 32 1
    let store (n : UInt8) := HomeOp.appendInner (.blank key (.replicate 32 n))
    let home := run (HomeOp.apply crypto) (.withLimits crypto ⟨key, key⟩ key .default)
      [.register key key, .mintContactCapability key key, store 1, store 2, store 3]
    let request (n : UInt8) (cursor : UInt64) := HomeOp.fetch key
      { mailboxHint := key.data
        cursor
        limit := 2
        ts := 1700000000
        scope := .body key "POST" "/v1/mailbox/fetch"
        nonce := .replicate 32 n
        signature := .replicate 64 0 } 1700000000
    let ops := [request 1 0, request 2 2, request 3 3]
    let pages := (fetches crypto key home ops).map (·.2)
    pages.map (fun page ↦ page.map (·.seq)) = [[1, 2], [3], []] ∧ pages.flatten.Nodup := by
  intro crypto key store home request ops pages
  have hfresh : Reachable crypto (.withLimits crypto ⟨key, key⟩ key .default) :=
    .fresh ⟨key, key⟩ key .default
  have hreachable : Reachable crypto home := hfresh.run _
  exact ⟨by decide +kernel,
    (pages_complete hreachable key 0 ops (by decide +kernel)).2.2.1⟩

end Fetch

end NemoMessenger.Server
