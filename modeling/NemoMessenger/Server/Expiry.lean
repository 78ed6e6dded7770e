import NemoMessenger.Server.Revoke

/-!
# Expiry behind the routes

A request that arrives at a time must be answered as if nothing that expires by then were there.
Memory without what has expired is compared with memory as it is: an answer that is granted rests on
nothing expired when it stays the same. Most handlers set the clock of the part they work on first;
those that do not, or look a capability up without its clock, are where the two can differ.
-/

namespace NemoMessenger.Server

open NemoMessenger.Data NemoMessenger.Wire

/-! ## Without what has expired -/

/-- The rows of a mailbox that have expired. -/
def Mailbox.lapsed (t : ℕ) (box : Mailbox) : List ℕ :=
  (FiniteMap.sortedKeys box.rows).filter fun seq ↦
    (box.rows.lookup seq).any fun row ↦ decide (row.expiresAt ≤ t)

/-- A mailbox without its expired rows. What it remembers of retries is not an envelope and stays. -/
def Mailbox.pruned (t : ℕ) (box : Mailbox) : Mailbox := (box.lapsed t).foldl ackRow box

/-- A share token before its expiry, or a contact capability before the end of its grace. -/
def TokenKind.liveAt (t : ℕ) : TokenKind → Bool
  | .share _ expiresAt _ _ => decide (t < expiresAt)
  | .contact _ graceUntil _ _ => !graceUntil.any fun grace ↦ decide (grace ≤ t)

/-- A home server without its expired rows and tokens; what is reserved for a token goes with it. -/
def HomeServer.pruned (t : ℕ) (home : HomeServer) : HomeServer :=
  { home with
    mailboxes := FiniteMap.filterMap (fun _ box ↦ some (box.pruned t)) home.mailboxes
    tokens := home.tokens.filter fun entry ↦ entry.2.liveAt t }

/-- A group without its expired invites and pending joins. -/
def GroupState.pruned (t : ℕ) (g : GroupState) : GroupState :=
  { g with
    invites := FiniteMap.retain (fun _ invite ↦ decide (t < invite.expiresAt)) g.invites
    pending := FiniteMap.retain (fun _ pending ↦ decide (t < pending.expiresAt)) g.pending }

/-- A group host without what has expired. -/
def GroupHost.pruned (t : ℕ) (host : GroupHost) : GroupHost :=
  { host with
    groups := FiniteMap.filterMap (fun _ g ↦ some (g.pruned t)) host.groups
    files := FiniteMap.retain (fun _ slot ↦ decide (t < slot.expiresAt)) host.files }

/-- Memory without what has expired. -/
def AppState.pruned (t : ℕ) (st : AppState) : AppState where
  home := st.home.pruned t
  groups := st.groups.pruned t

/-! ## Mailboxes -/

namespace Mailbox

variable {box box' : Mailbox} {t now maxAge maxBytes : ℕ}

/-- The bytes a row counts for. -/
def lenAt (box : Mailbox) (seq : ℕ) : ℕ :=
  ((box.rows.lookup seq).map fun row ↦ encodedLen row.inner).getD 0

/-- Two mailboxes hold the same rows and count the same bytes. -/
structure SameRows (box box' : Mailbox) : Prop where
  rows : ∀ seq, box'.rows.lookup seq = box.rows.lookup seq
  bytes : box'.bytes = box.bytes

theorem SameRows.sortedKeys (h : SameRows box box') :
    FiniteMap.sortedKeys box'.rows = FiniteMap.sortedKeys box.rows := by
  have hall (k : ℕ) : box'.rows.lookup k = (box.rows.lookup k).filter fun _ ↦ true := by
    rw [h.rows]
    cases box.rows.lookup k <;> rfl
  rw [FiniteMap.sortedKeys_filter hall]
  refine List.filter_eq_self.mpr fun k hk ↦ ?_
  obtain ⟨row, hrow⟩ := Option.isSome_iff_exists.mp (FiniteMap.mem_sortedKeys.mp hk)
  rw [hrow]
  rfl

theorem SameRows.removeRow (h : SameRows box box') (seq : ℕ) :
    SameRows (box.removeRow seq) (box'.removeRow seq) := by
  unfold Mailbox.removeRow
  rw [h.rows]
  cases box.rows.lookup seq with
  | none => exact h
  | some row =>
    refine ⟨fun s ↦ ?_, ?_⟩
    · simp only [FiniteMap.lookup_erase_ite, h.rows]
    · simp only [h.bytes]

theorem SameRows.evictLoop (turns : ℕ) (h : SameRows box box') (dropped dropped' : List ℕ) :
    SameRows (Mailbox.evictLoop maxBytes turns box dropped).1
      (Mailbox.evictLoop maxBytes turns box' dropped').1 := by
  induction turns generalizing box box' dropped dropped' with
  | zero => exact h
  | succ turns ih =>
    rw [Mailbox.evictLoop, Mailbox.evictLoop, h.bytes, h.sortedKeys]
    split_ifs
    · cases (FiniteMap.sortedKeys box.rows).head? with
      | none => exact h
      | some oldest => exact ih (h.removeRow oldest) _ _
    · exact h

theorem bytes_foldl_ackRow {seqs : List ℕ} (hnodup : seqs.Nodup) (box : Mailbox) :
    (seqs.foldl ackRow box).bytes = box.bytes - (seqs.map box.lenAt).sum := by
  induction seqs generalizing box with
  | nil => rfl
  | cons seq seqs ih =>
    obtain ⟨hseq, hseqs⟩ := List.nodup_cons.mp hnodup
    have hother (s : ℕ) (hs : s ∈ seqs) : (box.ackRow seq).lenAt s = box.lenAt s := by
      have hne : s ≠ seq := fun heq ↦ hseq (heq ▸ hs)
      unfold lenAt ackRow
      split
      · rfl
      · rw [FiniteMap.lookup_erase_ite, if_neg hne]
    have hbytes : (box.ackRow seq).bytes = box.bytes - box.lenAt seq := by
      unfold lenAt ackRow
      split <;> rename_i heq <;> rw [heq] <;> rfl
    rw [List.foldl_cons, ih hseqs, List.map_congr_left hother, hbytes, List.map_cons, List.sum_cons,
      Nat.sub_sub]

theorem SameRows.trans {box'' : Mailbox} (h : SameRows box box') (h' : SameRows box' box'') :
    SameRows box box'' :=
  ⟨fun seq ↦ (h'.rows seq).trans (h.rows seq), h'.bytes.trans h.bytes⟩

theorem SameRows.symm (h : SameRows box box') : SameRows box' box :=
  ⟨fun seq ↦ (h.rows seq).symm, h.bytes.symm⟩

/-- To the rows it makes no difference which of the two removals is used. -/
theorem SameRows.foldl_removeRow (h : SameRows box box') (seqs : List ℕ) :
    SameRows (seqs.foldl Mailbox.removeRow box) (seqs.foldl ackRow box') := by
  induction seqs generalizing box box' with
  | nil => exact h
  | cons seq seqs ih =>
    apply ih
    unfold Mailbox.removeRow ackRow
    rw [h.rows]
    cases box.rows.lookup seq with
    | none => exact h
    | some row =>
      refine ⟨fun s ↦ ?_, ?_⟩
      · simp only [FiniteMap.lookup_erase_ite, h.rows]
      · simp only [h.bytes]

theorem sameRows_of_perm {seqs seqs' : List ℕ} (hperm : seqs.Perm seqs') (hnodup : seqs.Nodup)
    (box : Mailbox) : SameRows (seqs.foldl ackRow box) (seqs'.foldl ackRow box) := by
  refine ⟨fun seq ↦ ?_, ?_⟩
  · rw [lookup_foldl_ackRow, lookup_foldl_ackRow]
    simp only [hperm.mem_iff]
  · rw [bytes_foldl_ackRow hnodup, bytes_foldl_ackRow (hperm.nodup_iff.mp hnodup),
      (hperm.map box.lenAt).sum_eq]

theorem nodup_sortedKeys (box : Mailbox) : (FiniteMap.sortedKeys box.rows).Nodup :=
  (List.perm_insertionSort _ _).nodup_iff.mpr box.rows.nodupKeys

theorem mem_lapsed {seq : ℕ} :
    seq ∈ box.lapsed t ↔ ∃ row, box.rows.lookup seq = some row ∧ row.expiresAt ≤ t := by
  rw [lapsed, List.mem_filter, FiniteMap.mem_sortedKeys]
  cases box.rows.lookup seq <;> simp

theorem mem_expiredSeqs {seq : ℕ} : seq ∈ box.expiredSeqs now maxAge ↔
    ∃ row, box.rows.lookup seq = some row ∧ expired now maxAge row = true := by
  rw [expiredSeqs, List.mem_filter, FiniteMap.mem_sortedKeys]
  cases box.rows.lookup seq <;> simp

theorem lookup_pruned (seq : ℕ) :
    (box.pruned t).rows.lookup seq = if seq ∈ box.lapsed t then none else box.rows.lookup seq :=
  lookup_foldl_ackRow _ _ _

/-- What has expired and what else is too old is what garbage collection drops first. -/
theorem lapsed_append_perm :
    (box.lapsed t ++ (box.pruned t).expiredSeqs t maxAge).Perm (box.expiredSeqs t maxAge) := by
  have hdisjoint : List.Disjoint (box.lapsed t) ((box.pruned t).expiredSeqs t maxAge) := by
    intro seq hseq hseq'
    obtain ⟨row, hrow, -⟩ := mem_expiredSeqs.mp hseq'
    rw [lookup_pruned, if_pos hseq] at hrow
    cases hrow
  have hnodup : (box.lapsed t ++ (box.pruned t).expiredSeqs t maxAge).Nodup :=
    List.nodup_append'.mpr ⟨box.nodup_sortedKeys.filter _, (box.pruned t).nodup_sortedKeys.filter _,
      hdisjoint⟩
  refine (List.perm_ext_iff_of_nodup hnodup (box.nodup_sortedKeys.filter _)).mpr fun seq ↦ ?_
  rw [List.mem_append]
  constructor
  · rintro (hseq | hseq)
    · obtain ⟨row, hrow, hle⟩ := mem_lapsed.mp hseq
      exact mem_expiredSeqs.mpr ⟨row, hrow, by simp [expired, hle]⟩
    · obtain ⟨row, hrow, hold⟩ := mem_expiredSeqs.mp hseq
      rw [lookup_pruned] at hrow
      split_ifs at hrow
      exact mem_expiredSeqs.mpr ⟨row, hrow, hold⟩
  · intro hseq
    obtain ⟨row, hrow, hold⟩ := mem_expiredSeqs.mp hseq
    by_cases hlapsed : seq ∈ box.lapsed t
    · exact .inl hlapsed
    · refine .inr (mem_expiredSeqs.mpr ⟨row, ?_, hold⟩)
      rw [lookup_pruned, if_neg hlapsed, hrow]

/-- Garbage collection leaves the same rows in a mailbox and in what is left of it without the
expired rows. -/
theorem sameRows_gc_pruned (box : Mailbox) (t maxAge maxBytes : ℕ) :
    SameRows (box.gc t maxAge maxBytes).1 ((box.pruned t).gc t maxAge maxBytes).1 := by
  have hfold : SameRows ((box.expiredSeqs t maxAge).foldl Mailbox.removeRow box)
      (((box.pruned t).expiredSeqs t maxAge).foldl Mailbox.removeRow (box.pruned t)) := by
    have hself (box : Mailbox) : SameRows box box := ⟨fun _ ↦ rfl, rfl⟩
    have hperm := @lapsed_append_perm box t maxAge
    have hsplit : (box.lapsed t ++ (box.pruned t).expiredSeqs t maxAge).foldl ackRow box =
        ((box.pruned t).expiredSeqs t maxAge).foldl ackRow (box.pruned t) := List.foldl_append
    have hboth := sameRows_of_perm hperm.symm (box.nodup_sortedKeys.filter _) box
    rw [hsplit] at hboth
    exact ((hself box).foldl_removeRow _).trans
      (hboth.trans ((hself (box.pruned t)).foldl_removeRow _).symm)
  rw [gc, gc, hfold.sortedKeys]
  exact hfold.evictLoop _ _ _

end Mailbox

/-! ## Answers that stand -/

/-- What one computation is granted, the other is granted as well. -/
def Stands {α ε : Type} (r r' : Except ε α) : Prop := ∀ a, r = .ok a → r' = .ok a

theorem Stands.of_eq {α ε : Type} {r r' : Except ε α} (h : r' = r) : Stands r r' :=
  fun _ ha ↦ h.trans ha

theorem Stands.error {α ε : Type} (e : ε) (r : Except ε α) : Stands (.error e) r := nofun

/-! ## The home server -/

namespace Tokens

theorem find_filter {tokens : Tokens} {want : Key} {kind : TokenKind}
    {p : Key × TokenKind → Bool} (h : tokens.find want = some kind) (hp : p (want, kind) = true) :
    Tokens.find (tokens.filter p) want = some kind := by
  unfold find at h ⊢
  obtain ⟨⟨token, _⟩, hfound, rfl⟩ := Option.map_eq_some_iff.mp h
  obtain ⟨htoken, later, earlier, hsplit, hlater⟩ := List.find?_eq_some_iff_append.mp hfound
  obtain rfl : token = want := by simpa using htoken
  have hnone : (later.filter p).find? (fun entry ↦ decide (entry.1 = token)) = none :=
    List.find?_eq_none.mpr fun entry hentry ↦ by simpa using hlater entry (List.mem_filter.mp hentry).1
  rw [← List.filter_reverse, hsplit, List.filter_append, List.find?_append, hnone,
    List.filter_cons_of_pos hp]
  simp

theorem find_filter_none {tokens : Tokens} {want : Key} (h : tokens.find want = none)
    (p : Key × TokenKind → Bool) : Tokens.find (tokens.filter p) want = none := by
  unfold find at h ⊢
  rw [Option.map_eq_none_iff, List.find?_eq_none] at h ⊢
  intro entry hentry
  rw [List.mem_reverse, List.mem_filter] at hentry
  exact h entry (List.mem_reverse.mpr hentry.1)

end Tokens

namespace HomeServer

variable {crypto : Crypto} {home : HomeServer} {t : ℕ}

theorem lookup_mailboxes_pruned (home : HomeServer) (t : ℕ) (owner : IdentityId) :
    (home.pruned t).mailboxes.lookup owner = (home.mailboxes.lookup owner).map (·.pruned t) := by
  rw [pruned, FiniteMap.lookup_filterMap]
  cases home.mailboxes.lookup owner <;> rfl

theorem find_pruned {token : Key} {kind : TokenKind} (h : home.tokens.find token = some kind)
    (hlive : kind.liveAt t = true) : (home.pruned t).tokens.find token = some kind :=
  Tokens.find_filter h hlive

/-- A capability that has not expired, or that nothing is known of, is looked up as before. -/
theorem capabilityMailbox_pruned {token : Key}
    (h : ∀ kind, home.tokens.find token = some kind → kind.liveAt t = true) :
    (home.pruned t).capabilityMailbox token = home.capabilityMailbox token := by
  unfold capabilityMailbox
  cases hfind : home.tokens.find token with
  | none => rw [show (home.pruned t).tokens.find token = none from Tokens.find_filter_none hfind _]
  | some kind => rw [find_pruned hfind (h kind hfind)]

theorem fanoutOk_pruned {cap : Key} (hpke : Key)
    (h : ∀ kind, home.tokens.find cap = some kind → kind.liveAt t = true) :
    (home.pruned t).fanoutOk cap hpke = home.fanoutOk cap hpke := by
  unfold fanoutOk
  rw [capabilityMailbox_pruned h]
  rfl

theorem requireMailbox_pruned (home : HomeServer) (t : ℕ) (owner : IdentityId) :
    (home.pruned t).requireMailbox owner = home.requireMailbox owner := by
  unfold requireMailbox
  rw [lookup_mailboxes_pruned]
  cases home.mailboxes.lookup owner with
  | none => rfl
  | some box =>
    obtain ⟨-, -, hdisabled, -⟩ := Mailbox.foldl_ackRow_fields (box.lapsed t) box
    simp only [Option.map_some, Mailbox.pruned, hdisabled]

theorem mailboxDisabled_pruned (home : HomeServer) (t : ℕ) (owner : IdentityId) :
    (home.pruned t).mailboxDisabled owner = home.mailboxDisabled owner := by
  unfold mailboxDisabled
  rw [lookup_mailboxes_pruned]
  cases home.mailboxes.lookup owner with
  | none => rfl
  | some box =>
    obtain ⟨-, -, hdisabled, -⟩ := Mailbox.foldl_ackRow_fields (box.lapsed t) box
    exact hdisabled

/-- The authorisation of an owner rests on nothing that expires. -/
theorem checkOwner_pruned (crypto : Crypto) (home : HomeServer) (t : ℕ)
    (owner : IdentityId) (auth : MailboxOwnerAuth) (nowUnix : ℕ) (expect : AuthScope) :
    (home.pruned t).checkOwner crypto owner auth nowUnix expect =
      ((home.checkOwner crypto owner auth nowUnix expect).1,
        (home.checkOwner crypto owner auth nowUnix expect).2.pruned t) := by
  unfold checkOwner
  rw [lookup_mailboxes_pruned]
  cases home.mailboxes.lookup owner with
  | none => rfl
  | some box =>
    obtain ⟨-, hkey, hdisabled, -⟩ := Mailbox.foldl_ackRow_fields (box.lapsed t) box
    have hnonces : (home.pruned t).ownerNonces = home.ownerNonces := rfl
    simp only [Option.map_some, Mailbox.pruned, hkey, hdisabled, hnonces]
    cases auth.verify crypto box.ownerPk nowUnix expect with
    | error e => split_ifs <;> rfl
    | ok => split_ifs <;> rfl

theorem fst_checkOwner_pruned (home : HomeServer) (t : ℕ) (owner : IdentityId)
    (auth : MailboxOwnerAuth) (nowUnix : ℕ) (expect : AuthScope) :
    ((home.pruned t).checkOwner crypto owner auth nowUnix expect).1 =
      (home.checkOwner crypto owner auth nowUnix expect).1 := by
  rw [checkOwner_pruned]

theorem stands_fetchPrekey (hnow : home.now = t) (token : Key) :
    Stands (home.fetchPrekey token).1 ((home.pruned t).fetchPrekey token).1 := by
  intro blob h
  suffices hsame : ((home.pruned t).fetchPrekey token).1 = (home.fetchPrekey token).1 from
    hsame.trans h
  have hprekeys : (home.pruned t).prekeys = home.prekeys := rfl
  have hpruned : (home.pruned t).now = home.now := rfl
  unfold fetchPrekey at h
  split at h
  · rename_i mailbox expiresAt burned reserved hfind
    split_ifs at h with hopen
    · have hlive : t < expiresAt := by
        rw [Bool.and_eq_true, decide_eq_true_eq, hnow] at hopen
        exact hopen.2
      unfold fetchPrekey
      rw [find_pruned hfind (decide_eq_true hlive), hfind]
      dsimp only
      rw [hpruned, if_pos hopen, if_pos hopen]
      cases reserved with
      | some blob => rfl
      | none =>
        unfold reservePrekey
        rw [hprekeys]
        dsimp only
        split <;> rfl
  · cases h

theorem stands_authorizeAppend (hnow : home.now = t) (token : Key) :
    Stands (home.authorizeAppend token).1 ((home.pruned t).authorizeAppend token).1 := by
  intro mailbox h
  suffices hsame : ((home.pruned t).authorizeAppend token).1 = (home.authorizeAppend token).1 from
    hsame.trans h
  have hpruned : (home.pruned t).now = home.now := rfl
  unfold authorizeAppend at h
  dsimp only at h
  split at h
  · rename_i owner expiresAt burned reserved hfind
    split at h
    · rename_i hopen
      have hlive : t < expiresAt := by
        rw [Bool.and_eq_true, decide_eq_true_eq, hnow] at hopen
        exact hopen.2
      unfold authorizeAppend
      rw [find_pruned hfind (decide_eq_true hlive), hfind]
      dsimp only
      rw [hpruned, if_pos hopen, if_pos hopen, mailboxDisabled_pruned]
      split <;> rfl
    · cases h
  · rename_i owner graceUntil windowStart windowCount hfind
    split at h
    · cases h
    · rename_i hgrace
      have hlive : (TokenKind.contact owner graceUntil windowStart windowCount).liveAt t = true := by
        simpa [TokenKind.liveAt, hnow] using hgrace
      have hdisabled (kind : TokenKind) :
          ((home.pruned t).setToken token kind).mailboxDisabled owner =
            (home.setToken token kind).mailboxDisabled owner := home.mailboxDisabled_pruned t owner
      unfold authorizeAppend
      rw [find_pruned hfind hlive, hfind]
      dsimp only
      rw [hpruned, if_neg hgrace, if_neg hgrace, hdisabled]
      split_ifs <;> rfl
  · cases h

/-- What an append answers, from the authorisation and the mailbox. -/
theorem fst_appendInner (home : HomeServer) (inner : InnerEnvelope) :
    (home.appendInner inner).1 = (home.authorizeAppend inner.deliveryCapability).1 >>= fun mailbox ↦
      match home.mailboxes.lookup mailbox with
      | none => .error .denied
      | some box =>
        match box.idempotency.lookup inner.idempotencyToken with
        | some seq => .ok seq
        | none =>
          match inner.encodePadded with
          | .error e => .error (.wire e)
          | .ok _ => .ok box.nextSeq := by
  obtain ⟨tokens, dirty, hframe⟩ := home.authorizeAppend_frame inner.deliveryCapability
  unfold appendInner
  split
  · rename_i heq
    rw [heq]
    rfl
  · rename_i mailbox authorized heq
    rw [heq] at hframe ⊢
    have hboxes : authorized.mailboxes = home.mailboxes := by
      rw [show authorized = _ from hframe]
    dsimp only [bind, Except.bind]
    rw [hboxes]
    cases home.mailboxes.lookup mailbox with
    | none => rfl
    | some box =>
      dsimp only
      cases box.idempotency.lookup inner.idempotencyToken with
      | some seq => rfl
      | none => cases inner.encodePadded <;> rfl

theorem stands_appendInner (hnow : home.now = t) (inner : InnerEnvelope) :
    Stands (home.appendInner inner).1 ((home.pruned t).appendInner inner).1 := by
  intro seq h
  rw [fst_appendInner] at h ⊢
  obtain ⟨mailbox, hauth, hrest⟩ := bind_eq_ok.mp h
  refine bind_eq_ok.mpr ⟨mailbox, stands_authorizeAppend hnow _ mailbox hauth, ?_⟩
  rw [lookup_mailboxes_pruned]
  cases hbox : home.mailboxes.lookup mailbox with
  | none =>
    rw [hbox] at hrest
    cases hrest
  | some box =>
    obtain ⟨hseq, -, -, hidem⟩ := Mailbox.foldl_ackRow_fields (box.lapsed t) box
    rw [hbox] at hrest
    simp only [Option.map_some, Mailbox.pruned, hseq, hidem]
    exact hrest

theorem stands_ingest (crypto : Crypto) (hnow : home.now = t) (outer : OuterEnvelope) :
    Stands (home.ingest crypto outer).1 ((home.pruned t).ingest crypto outer).1 := by
  intro seq h
  have hseen : (home.pruned t).seenEnc = home.seenEnc := rfl
  have hhpke : (home.pruned t).hpke = home.hpke := rfl
  unfold ingest at h ⊢
  rw [hseen, hhpke]
  split at h
  · cases h
  · split at h
    · exact h
    · split at h
      · cases h
      · rename_i inner _
        have happend := stands_appendInner hnow inner
        split at h <;> rename_i heq
        · cases h
        · rename_i first _
          have hfirst := happend first (congrArg Prod.fst heq)
          split <;> rename_i heq' <;> rw [heq'] at hfirst
          · cases hfirst
          · exact hfirst.trans h

theorem stands_enqueue (hnow : home.now = t) (outer : OuterEnvelope) :
    Stands (home.enqueue crypto outer).1 ((home.pruned t).enqueue crypto outer).1 := by
  intro answer h
  have hid : (home.pruned t).serverId crypto = home.serverId crypto := rfl
  have hingest := stands_ingest crypto hnow outer
  unfold enqueue at h ⊢
  rw [hid]
  split_ifs at h ⊢
  · split at h <;> rename_i heq
    · cases h
    · rename_i seq _
      have hseq := hingest seq (congrArg Prod.fst heq)
      split <;> rename_i heq' <;> rw [heq'] at hseq
      · cases hseq
      · obtain rfl := Except.ok.inj hseq
        exact h
  · exact h

theorem stands_enqueueFromOwner (hnow : home.now = t) (owner : IdentityId)
    (auth : MailboxOwnerAuth) (nowUnix : ℕ) (outer : OuterEnvelope) :
    Stands (home.enqueueFromOwner crypto owner auth nowUnix outer).1
      ((home.pruned t).enqueueFromOwner crypto owner auth nowUnix outer).1 := by
  intro answer h
  have hid : (home.pruned t).serverId crypto = home.serverId crypto := rfl
  obtain ⟨nonces, hframe⟩ := home.checkOwner_frame crypto owner auth nowUnix
    (.header crypto (home.serverId crypto) "POST" "/v1/envelopes" outer.encode)
  unfold enqueueFromOwner at h ⊢
  dsimp only at h ⊢
  rw [hid, checkOwner_pruned]
  split at h <;> rename_i heq
  · cases h
  · rename_i checked
    rw [heq] at hframe
    have hchecked : checked.now = t := (congrArg HomeServer.now hframe).trans hnow
    simp only [heq, requireMailbox_pruned] at h ⊢
    split at h
    · cases h
    · exact stands_enqueue hchecked outer answer h

/-- A fetch answers the same rows with the expired ones and without them. -/
theorem fst_fetch_pruned (home : HomeServer) (hnow : home.now = t) (owner : IdentityId)
    (auth : MailboxOwnerAuth) (nowUnix : ℕ) : ((home.pruned t).fetch crypto owner auth nowUnix).1 =
      (home.fetch crypto owner auth nowUnix).1 := by
  have hid : (home.pruned t).serverId crypto = home.serverId crypto := rfl
  unfold fetch
  dsimp only
  rw [hid, checkOwner_pruned]
  obtain ⟨nonces, hframe⟩ := home.checkOwner_frame crypto owner auth nowUnix
    (.body (home.serverId crypto) "POST" "/v1/mailbox/fetch")
  rcases hcheck : home.checkOwner crypto owner auth nowUnix
    (.body (home.serverId crypto) "POST" "/v1/mailbox/fetch") with ⟨_ | ⟨⟩, checked⟩
  · rfl
  · rw [hcheck] at hframe
    have hchecked : checked.now = t := by rw [show checked = _ from hframe, ← hnow]
    have hpruned : (checked.pruned t).now = checked.now := rfl
    have hlimits : (checked.pruned t).limits = checked.limits := rfl
    dsimp only
    split_ifs
    · rfl
    · have hboxes := checked.lookup_mailboxes_pruned t owner
      cases hbox : checked.mailboxes.lookup owner with
      | none =>
        rw [hbox] at hboxes
        have hgone : (checked.gcMailbox owner).mailboxes.lookup owner = none := by
          unfold gcMailbox
          rw [hbox]
          exact hbox
        have hgone' : ((checked.pruned t).gcMailbox owner).mailboxes.lookup owner = none := by
          unfold gcMailbox
          rw [hboxes]
          exact hboxes
        rw [hgone, hgone']
      | some box =>
        rw [hbox] at hboxes
        have hrows := box.sameRows_gc_pruned t checked.limits.mailboxMaxAgeSecs
          checked.limits.mailboxMaxBytes
        have hsame : ((box.pruned t).gc t checked.limits.mailboxMaxAgeSecs
            checked.limits.mailboxMaxBytes).1.rows.lookup =
              (box.gc t checked.limits.mailboxMaxAgeSecs
                checked.limits.mailboxMaxBytes).1.rows.lookup := funext hrows.rows
        rw [lookup_gcMailbox hbox, lookup_gcMailbox hboxes, hpruned, hlimits, hchecked]
        dsimp only
        rw [hrows.sortedKeys, hsame, now_gcMailbox, now_gcMailbox, hpruned]

theorem fst_ack_pruned (home : HomeServer) (t : ℕ) (owner : IdentityId) (auth : MailboxOwnerAuth)
    (nowUnix : ℕ) : ((home.pruned t).ack crypto owner auth nowUnix).1 =
      (home.ack crypto owner auth nowUnix).1 := by
  have hid : (home.pruned t).serverId crypto = home.serverId crypto := rfl
  unfold ack
  dsimp only
  rw [hid, checkOwner_pruned]
  rcases home.checkOwner crypto owner auth nowUnix
    (.body (home.serverId crypto) "POST" "/v1/mailbox/ack") with ⟨_ | ⟨⟩, checked⟩
  · rfl
  · dsimp only
    rw [lookup_mailboxes_pruned]
    cases checked.mailboxes.lookup owner <;> rfl

theorem fst_publishPrekey_pruned (home : HomeServer) (t : ℕ) (owner : IdentityId) (blob : Bytes) :
    ((home.pruned t).publishPrekey owner blob).1 = (home.publishPrekey owner blob).1 := by
  unfold publishPrekey
  rw [requireMailbox_pruned]
  split <;> rfl

theorem fst_registerShareToken_pruned (home : HomeServer) (t : ℕ) (owner : IdentityId)
    (token : Key) (ttlSecs : Option UInt64) :
    ((home.pruned t).registerShareToken owner token ttlSecs).1 =
      (home.registerShareToken owner token ttlSecs).1 := by
  unfold registerShareToken
  rw [requireMailbox_pruned]
  split
  · rfl
  · dsimp only
    split <;> rfl

theorem fst_mintShareToken (home : HomeServer) (owner : IdentityId) (ttlSecs : Option UInt64)
    (random : Key) : (home.mintShareToken owner ttlSecs random).1 =
      (home.registerShareToken owner random ttlSecs).1.map fun _ ↦ random := by
  unfold mintShareToken
  split <;> rename_i heq <;> rw [heq] <;> rfl

theorem fst_mintContactCapability_pruned (home : HomeServer) (t : ℕ) (owner : IdentityId)
    (random : Key) : ((home.pruned t).mintContactCapability owner random).1 =
      (home.mintContactCapability owner random).1 := by
  unfold mintContactCapability
  rw [requireMailbox_pruned]
  split <;> rfl

/-- What a registration answers: the share token of a mailbox just made is always accepted. -/
theorem fst_registerFromCard (home : HomeServer) (card : ContactCard) :
    (home.registerFromCard crypto card).1 = match card.verify crypto home.now with
      | .error e => .error (.wire e)
      | .ok () =>
        if card.binding.serverId ≠ home.serverId crypto then .error .denied
        else if (home.mailboxes.lookup (card.identityId crypto)).isSome then
          .error .alreadyRegistered
        else .ok (card.identityId crypto) := by
  unfold registerFromCard register
  cases card.verify crypto home.now with
  | error e => rfl
  | ok =>
    dsimp only
    split_ifs
    · rfl
    · rfl
    · unfold registerShareToken requireMailbox addMailbox
      dsimp only
      rw [AList.lookup_insert]
      rfl

theorem fst_registerFromCard_pruned (home : HomeServer) (t : ℕ) (card : ContactCard) :
    ((home.pruned t).registerFromCard crypto card).1 = (home.registerFromCard crypto card).1 := by
  have hnow : (home.pruned t).now = home.now := rfl
  have hid : (home.pruned t).serverId crypto = home.serverId crypto := rfl
  rw [fst_registerFromCard, fst_registerFromCard, hnow, hid, lookup_mailboxes_pruned,
    Option.isSome_map]

theorem fst_observeBinding_pruned (home : HomeServer) (t : ℕ) (identityId : IdentityId)
    (binding : HomeServerBinding) :
    ((home.pruned t).observeBinding crypto identityId binding).1 =
      (home.observeBinding crypto identityId binding).1 := by
  have hkey : (home.pruned t).bindingKey identityId = home.bindingKey identityId := by
    have hdirectory : (home.pruned t).directory = home.directory := rfl
    unfold bindingKey
    rw [lookup_mailboxes_pruned, hdirectory]
    cases home.directory.lookup identityId with
    | some row => rfl
    | none =>
      cases home.mailboxes.lookup identityId with
      | none => rfl
      | some box =>
        obtain ⟨-, howner, -, -⟩ := Mailbox.foldl_ackRow_fields (box.lapsed t) box
        exact congrArg some howner
  have hnow : (home.pruned t).now = home.now := rfl
  have hdirectory : (home.pruned t).directory = home.directory := rfl
  unfold observeBinding
  rw [hkey, hnow, hdirectory]
  split
  · rfl
  · split_ifs
    · rfl
    · rfl
    · split
      · rfl
      · dsimp only
        split_ifs <;> rfl

theorem fst_ingestRevocation_pruned (home : HomeServer) (t : ℕ) (stmt : RevocationStatement) :
    ((home.pruned t).ingestRevocation crypto stmt).1 = (home.ingestRevocation crypto stmt).1 := by
  have hdirectory : (home.pruned t).directory = home.directory := rfl
  have hmemberships (row : DirectoryRow) :
      (((home.pruned t).putDirectory stmt.identityId row).disableMailbox
        stmt.identityId).memberships = ((home.putDirectory stmt.identityId row).disableMailbox
          stmt.identityId).memberships := rfl
  unfold ingestRevocation
  rw [hdirectory]
  cases home.directory.lookup stmt.identityId with
  | none => rfl
  | some row =>
    dsimp only
    cases stmt.verify crypto row.revocationPublicKey with
    | error e => split_ifs <;> rfl
    | ok =>
      dsimp only
      unfold takeMemberships
      rw [hmemberships]
      split_ifs
      · rfl
      · rfl
      · dsimp only
        split <;> rfl

end HomeServer

/-! ## The group host -/

/-- A group without its invites and its pending joins. -/
def GroupState.core (g : GroupState) : GroupState := { g with invites := ∅, pending := ∅ }

namespace GroupHost

variable {crypto : Crypto} {host host' : GroupHost} {t : ℕ} {groupId : GroupId}

theorem lookup_groups_pruned (host : GroupHost) (t : ℕ) (groupId : GroupId) :
    (host.pruned t).groups.lookup groupId = (host.groups.lookup groupId).map (·.pruned t) := by
  rw [pruned, FiniteMap.lookup_filterMap]
  cases host.groups.lookup groupId <;> rfl

theorem lookup_files_pruned (host : GroupHost) (t : ℕ) (fetchToken : Key) :
    (host.pruned t).files.lookup fetchToken =
      (host.files.lookup fetchToken).filter fun slot ↦ decide (t < slot.expiresAt) :=
  FiniteMap.lookup_retain _ _ _

theorem authorizeLive_pruned (host : GroupHost) (t : ℕ) (groupId : GroupId) (cred : MemberCred) :
    (host.pruned t).authorizeLive crypto groupId cred = host.authorizeLive crypto groupId cred := by
  unfold authorizeLive
  rw [lookup_groups_pruned]
  cases host.groups.lookup groupId <;> rfl

theorem memberKey_pruned (host : GroupHost) (t : ℕ) (groupId : GroupId) (credentialId : Key) :
    (host.pruned t).memberKey crypto groupId credentialId =
      host.memberKey crypto groupId credentialId := by
  have hkey : (host.pruned t).signingPk groupId credentialId =
      host.signingPk groupId credentialId := by
    unfold signingPk
    rw [lookup_groups_pruned]
    cases host.groups.lookup groupId <;> rfl
  unfold memberKey
  rw [hkey]

theorem liveFileBytes_pruned (hnow : host.now = t) (groupId : GroupId) :
    (host.pruned t).liveFileBytes groupId = host.liveFileBytes groupId := by
  have hpruned : (host.pruned t).now = host.now := rfl
  unfold liveFileBytes
  refine FiniteMap.sumBy_congr fun token ↦ ?_
  rw [FiniteMap.lookup_retain, FiniteMap.lookup_retain, lookup_files_pruned, hpruned, hnow,
    Option.filter_filter]
  congr 2
  funext slot
  cases decide (t < slot.expiresAt) <;> simp

theorem fst_createGroupFor_pruned (host : GroupHost) (t : ℕ) (signingPk : Key)
    (fanout : FanoutTarget) (creator : Option Key) (groupId : GroupId) (cred : MemberCred) :
    ((host.pruned t).createGroupFor crypto signingPk fanout creator groupId cred).1 =
      (host.createGroupFor crypto signingPk fanout creator groupId cred).1 := by
  have howned : (FiniteMap.retain (fun _ g ↦ decide (g.creator = creator))
      (host.pruned t).groups).entries.length = (FiniteMap.retain
        (fun _ g ↦ decide (g.creator = creator)) host.groups).entries.length := by
    have hsum : FiniteMap.sumBy (fun _ ↦ 1) (FiniteMap.retain
        (fun _ g ↦ decide (g.creator = creator)) (host.pruned t).groups) =
          FiniteMap.sumBy (fun _ ↦ 1) (FiniteMap.retain
            (fun _ g ↦ decide (g.creator = creator)) host.groups) := by
      refine FiniteMap.sumBy_congr fun id ↦ ?_
      rw [FiniteMap.lookup_retain, FiniteMap.lookup_retain, lookup_groups_pruned]
      cases host.groups.lookup id with
      | none => rfl
      | some g =>
        rw [Option.map_some, Option.filter_some, Option.filter_some]
        change (if decide (g.creator = creator) = true then some (g.pruned t) else none).map _ = _
        split_ifs <;> rfl
    simpa [FiniteMap.sumBy] using hsum
  unfold createGroupFor
  dsimp only
  rw [howned]
  split <;> rfl

theorem fst_storeInvite_pruned (host : GroupHost) (t : ℕ) (groupId : GroupId) (cred : MemberCred)
    (invite : GroupInvite) : ((host.pruned t).storeInvite crypto groupId cred invite).1 =
      (host.storeInvite crypto groupId cred invite).1 := by
  unfold storeInvite
  rw [authorizeLive_pruned, memberKey_pruned, lookup_groups_pruned]
  split
  · rfl
  · split_ifs
    · rfl
    · split
      · rfl
      · split
        · rfl
        · cases host.groups.lookup groupId <;> rfl

theorem stands_accept (hnow : host.now = t) (groupId : GroupId) (nonce : Key) (cred : MemberCred)
    (pendingId : Key) : Stands (host.accept crypto groupId nonce cred pendingId).1
      ((host.pruned t).accept crypto groupId nonce cred pendingId).1 := by
  intro join h
  have hpruned : (host.pruned t).now = host.now := rfl
  unfold accept at h ⊢
  rw [lookup_groups_pruned]
  cases hg : host.groups.lookup groupId with
  | none =>
    rw [hg] at h
    cases h
  | some g =>
    rw [hg] at h
    have hinvites : (g.pruned t).invites.lookup nonce =
        (g.invites.lookup nonce).filter fun invite ↦ decide (t < invite.expiresAt) :=
      FiniteMap.lookup_retain _ _ _
    dsimp only [Option.map_some] at h ⊢
    rw [hinvites]
    cases hinvite : g.invites.lookup nonce with
    | none =>
      rw [hinvite] at h
      cases h
    | some stored =>
      rw [hinvite] at h
      dsimp only at h
      split_ifs at h with hexpired
      have hlive : t < stored.expiresAt := by
        rw [← hnow]
        exact Nat.lt_of_not_ge hexpired
      rw [Option.filter_some, if_pos (decide_eq_true hlive)]
      dsimp only
      rw [hpruned, if_neg hexpired]
      exact h

/-- The collection before an admission drops what has expired. -/
theorem lookup_gcPending (host : GroupHost) (groupId : GroupId) :
    (host.gcPending groupId).groups.lookup groupId =
      (host.groups.lookup groupId).map (·.pruned host.now) := by
  unfold gcPending
  cases hg : host.groups.lookup groupId with
  | none => exact hg
  | some g => exact AList.lookup_insert _

theorem now_gcPending (host : GroupHost) (groupId : GroupId) :
    (host.gcPending groupId).now = host.now := by
  unfold gcPending
  split <;> rfl

/-- What an admission behind its checks answers. -/
theorem fst_admitPending (host : GroupHost) (groupId : GroupId) (pendingId joinerPk : Key)
    (fanout : FanoutTarget) : (host.admitPending groupId pendingId joinerPk fanout).1 =
      match host.groups.lookup groupId with
      | none => .error .denied
      | some g =>
        match g.pending.lookup pendingId with
        | none => .error .denied
        | some reserved =>
          if host.now ≥ reserved.expiresAt then .error .denied
          else if (g.creds.lookup reserved.cred.credentialId).isNone then .error .denied
          else .ok reserved.cred.credentialId := by
  have hnow (g : GroupState) : (host.putGroup groupId g).now = host.now := rfl
  unfold admitPending
  cases host.groups.lookup groupId with
  | none => rfl
  | some g =>
    dsimp only
    cases g.pending.lookup pendingId with
    | none => rfl
    | some reserved =>
      dsimp only
      rw [hnow]
      split
      · rfl
      · cases g.creds.lookup reserved.cred.credentialId <;> rfl

theorem fst_admitJoiner_pruned (host : GroupHost) (hnow : host.now = t) (groupId : GroupId) (admitter : MemberCred)
    (admission : GroupAdmit) (joinerPk : Key) (fanout : FanoutTarget) :
    ((host.pruned t).admitJoiner crypto groupId admitter admission joinerPk fanout).1 =
      (host.admitJoiner crypto groupId admitter admission joinerPk fanout).1 := by
  have hpruned : (host.pruned t).now = host.now := rfl
  have hmarked (host : GroupHost) : ((host.markInvites groupId).markPending groupId).groups.lookup
      groupId = host.groups.lookup groupId := rfl
  have hclock (host : GroupHost) :
      ((host.markInvites groupId).markPending groupId).now = host.now := rfl
  unfold admitJoiner
  rw [authorizeLive_pruned, memberKey_pruned]
  split
  · rfl
  · split_ifs
    · rfl
    · split
      · rfl
      · split
        · rfl
        · rw [fst_admitPending, fst_admitPending, hmarked, hmarked, hclock, hclock, now_gcPending,
            now_gcPending, lookup_gcPending, lookup_gcPending, lookup_groups_pruned, hpruned, hnow]
          cases host.groups.lookup groupId with
          | none => rfl
          | some g =>
            have hpending : ((g.pruned t).pruned t).pending.lookup admission.pendingId =
                (g.pruned t).pending.lookup admission.pendingId := by
              unfold GroupState.pruned
              dsimp only
              rw [FiniteMap.lookup_retain, FiniteMap.lookup_retain, Option.filter_filter]
              simp
            dsimp only [Option.map_some]
            rw [hpending]
            rfl

theorem fst_refreshFanout_pruned (host : GroupHost) (t : ℕ) (groupId : GroupId)
    (cred : MemberCred) (fanout : FanoutTarget) :
    ((host.pruned t).refreshFanout crypto groupId cred fanout).1 =
      (host.refreshFanout crypto groupId cred fanout).1 := by
  unfold refreshFanout
  rw [authorizeLive_pruned]
  split <;> rfl

theorem stands_uploadFile (hnow : host.now = t) (groupId : GroupId) (cred : MemberCred)
    (fetchToken : Key) (body : Bytes) :
    Stands (host.uploadFile crypto groupId cred fetchToken body).1
      ((host.pruned t).uploadFile crypto groupId cred fetchToken body).1 := by
  intro answer h
  have hpruned : (host.pruned t).now = host.now := rfl
  unfold uploadFile at h ⊢
  rw [authorizeLive_pruned, lookup_files_pruned]
  split at h
  · cases h
  · cases hslot : host.files.lookup fetchToken with
    | none =>
      rw [hslot] at h
      cases h
    | some slot =>
      rw [hslot] at h
      dsimp only at h
      split_ifs at h with howned hstored
      have hlive : t < slot.expiresAt := by
        push Not at howned
        exact hnow ▸ howned.2.2
      rw [Option.filter_some, if_pos (decide_eq_true hlive)]
      dsimp only
      rw [hpruned, if_neg howned, if_neg hstored]

theorem stands_lookupPending {cred : MemberCred} {pendingId : Key}
    (htimely : host.authorizeLive crypto groupId cred = .ok () → ∀ g p,
      host.groups.lookup groupId = some g → g.pending.lookup pendingId = some p →
        host.now < p.expiresAt → t < p.expiresAt) :
    Stands (host.lookupPending crypto groupId cred pendingId)
      ((host.pruned t).lookupPending crypto groupId cred pendingId) := by
  intro found h
  have hpruned : (host.pruned t).now = host.now := rfl
  unfold lookupPending at h ⊢
  obtain ⟨⟨⟩, hauth, hrest⟩ := bind_eq_ok.mp h
  refine bind_eq_ok.mpr ⟨(), ?_, ?_⟩
  · rwa [authorizeLive_pruned]
  · rw [lookup_groups_pruned, hpruned]
    cases hg : host.groups.lookup groupId with
    | none =>
      rw [hg] at hrest
      cases hrest
    | some g =>
      rw [hg] at hrest
      have hpending : (g.pruned t).pending.lookup pendingId =
          (g.pending.lookup pendingId).filter fun p ↦ decide (t < p.expiresAt) :=
        FiniteMap.lookup_retain _ _ _
      dsimp only [Option.map_some, Option.bind_some] at hrest ⊢
      rw [hpending]
      cases hp : g.pending.lookup pendingId with
      | none =>
        rw [hp] at hrest
        cases hrest
      | some p =>
        rw [hp] at hrest
        dsimp only at hrest
        split_ifs at hrest with hexpired
        have hlive := htimely hauth g p hg hp (Nat.lt_of_not_ge hexpired)
        rw [Option.filter_some, if_pos (decide_eq_true hlive)]
        dsimp only
        rw [if_neg hexpired]
        exact hrest

theorem stands_fetchFile {cred : MemberCred} {fetchToken : Key}
    (htimely : host.authorizeLive crypto groupId cred = .ok () → ∀ slot,
      host.files.lookup fetchToken = some slot → slot.groupId = groupId → slot.bytes.isSome →
        host.now < slot.expiresAt → t < slot.expiresAt) :
    Stands (host.fetchFile crypto groupId cred fetchToken)
      ((host.pruned t).fetchFile crypto groupId cred fetchToken) := by
  intro blob h
  have hpruned : (host.pruned t).now = host.now := rfl
  unfold fetchFile at h ⊢
  obtain ⟨⟨⟩, hauth, hrest⟩ := bind_eq_ok.mp h
  refine bind_eq_ok.mpr ⟨(), ?_, ?_⟩
  · rwa [authorizeLive_pruned]
  · rw [lookup_files_pruned, hpruned]
    cases hslot : host.files.lookup fetchToken with
    | none =>
      rw [hslot] at hrest
      cases hrest
    | some slot =>
      rw [hslot] at hrest
      dsimp only at hrest
      split at hrest
      · rename_i hgranted
        cases hbytes : slot.bytes with
        | none =>
          rw [hbytes] at hrest
          cases hrest
        | some bytes =>
          have hlive := htimely hauth slot hslot hgranted.1 (by rw [hbytes]; rfl) hgranted.2
          rw [Option.filter_some, if_pos (decide_eq_true hlive)]
          dsimp only
          rw [if_pos hgranted]
          exact hrest
      · cases hrest

/-! ### Appends -/

/-- A copy is made from the core of the group. -/
theorem fst_fanoutCopy_congr (crypto : Crypto)
    (h : (host'.groups.lookup groupId).map GroupState.core =
      (host.groups.lookup groupId).map GroupState.core) (type : MessageType) (body : Bytes)
    (draws : ℕ → Key × Key) :
    (host'.fanoutCopy crypto groupId type body draws).1 =
      (host.fanoutCopy crypto groupId type body draws).1 := by
  unfold fanoutCopy
  cases hg : host.groups.lookup groupId with
  | none =>
    rw [hg, Option.map_none, Option.map_eq_none_iff] at h
    rw [h]
  | some g =>
    rw [hg, Option.map_some] at h
    obtain ⟨g', hg', hcore⟩ := Option.map_eq_some_iff.mp h
    have hbytes : g'.bytes = g.bytes := congrArg (·.bytes) hcore
    have hseq : g'.nextSeq = g.nextSeq := congrArg (·.nextSeq) hcore
    have hcreds : g'.creds = g.creds := congrArg (·.creds) hcore
    have htargets : fanoutTargets g' = fanoutTargets g := by
      unfold fanoutTargets
      rw [hcreds]
    rw [hg']
    dsimp only
    rw [hbytes, hseq, htargets]
    split
    · rfl
    · split <;> rfl

theorem core_pruned (host : GroupHost) (t : ℕ) (groupId : GroupId) :
    ((host.pruned t).groups.lookup groupId).map GroupState.core =
      (host.groups.lookup groupId).map GroupState.core := by
  rw [lookup_groups_pruned]
  cases host.groups.lookup groupId <;> rfl

theorem lookup_modifyCred (host : GroupHost) (groupId : GroupId) (credentialId : Key)
    (update : CredRecord → CredRecord) :
    (host.modifyCred groupId credentialId update).groups.lookup groupId =
      (host.groups.lookup groupId).map fun g ↦
        match g.creds.lookup credentialId with
        | none => g
        | some record => { g with creds := g.creds.insert credentialId (update record) } := by
  unfold modifyCred
  cases hg : host.groups.lookup groupId with
  | none => exact hg
  | some g =>
    dsimp only [Option.map_some]
    cases g.creds.lookup credentialId with
    | none => exact hg
    | some record => exact AList.lookup_insert _

theorem core_modifyCred_pruned (host : GroupHost) (t : ℕ) (groupId : GroupId) (credentialId : Key)
    (update : CredRecord → CredRecord) :
    (((host.pruned t).modifyCred groupId credentialId update).groups.lookup groupId).map
        GroupState.core =
      ((host.modifyCred groupId credentialId update).groups.lookup groupId).map
        GroupState.core := by
  rw [lookup_modifyCred, lookup_modifyCred, lookup_groups_pruned]
  cases host.groups.lookup groupId with
  | none => rfl
  | some g =>
    have hcreds : (g.pruned t).creds = g.creds := rfl
    dsimp only [Option.map_some]
    rw [hcreds]
    split <;> rfl

theorem fst_appendRemove_pruned (host : GroupHost) (t : ℕ) (groupId : GroupId) (cred : MemberCred)
    (body : Bytes) (draws : ℕ → Key × Key) :
    ((host.pruned t).appendRemove crypto groupId cred body draws).1 =
      (host.appendRemove crypto groupId cred body draws).1 := by
  have hcopy := fst_fanoutCopy_congr crypto (host.core_pruned t groupId) .removeBundle body draws
  unfold appendRemove
  rw [memberKey_pruned]
  split
  · rfl
  · split
    · rfl
    · split
      · rfl
      · rcases h : host.fanoutCopy crypto groupId .removeBundle body draws with ⟨_ | _, _⟩ <;>
          rcases h' : (host.pruned t).fanoutCopy crypto groupId .removeBundle body draws
            with ⟨_ | _, _⟩ <;> rw [h, h'] at hcopy <;> exact hcopy

theorem fst_applySigningReplace_copy (crypto : Crypto) (host : GroupHost) (t : ℕ)
    (groupId : GroupId) (cred : MemberCred) (body : Bytes) :
    ((host.pruned t).applySigningReplace crypto groupId cred body).1 =
        (host.applySigningReplace crypto groupId cred body).1 ∧
      (((host.pruned t).applySigningReplace crypto groupId cred body).2.groups.lookup groupId).map
          GroupState.core =
        ((host.applySigningReplace crypto groupId cred body).2.groups.lookup groupId).map
          GroupState.core := by
  unfold applySigningReplace
  rw [memberKey_pruned]
  split
  · exact ⟨rfl, host.core_pruned t groupId⟩
  · split
    · exact ⟨rfl, host.core_pruned t groupId⟩
    · split
      · exact ⟨rfl, host.core_pruned t groupId⟩
      · exact ⟨rfl, host.core_modifyCred_pruned t groupId _ _⟩

/-- What the reservation of a file answers. -/
theorem fst_appendReserve (host : GroupHost) (groupId : GroupId) (cred : MemberCred)
    (body : Bytes) (draws : ℕ → Key × Key) :
    (host.appendReserve crypto groupId cred body draws).1 = match AttachmentReserve.decode body with
      | .error e => .error (.wire e)
      | .ok reserve =>
        if (host.files.lookup reserve.fetchToken).isSome ∨
            saturatingAdd (host.liveFileBytes groupId) reserve.sizeBucket.innerLen >
              host.fileBudget then .error .denied
        else (host.fanoutCopy crypto groupId .attachmentReserve body draws).1 := by
  unfold appendReserve
  cases AttachmentReserve.decode body with
  | error e => rfl
  | ok reserve =>
    dsimp only
    by_cases htaken : (host.files.lookup reserve.fetchToken).isSome
    · rw [if_pos htaken, if_pos (.inl htaken)]
    · rw [if_neg htaken]
      split_ifs with hfull hrefused hrefused
      · rfl
      · exact absurd (.inr hfull) hrefused
      · exact absurd hrefused (not_or.mpr ⟨htaken, hfull⟩)
      · rcases host.fanoutCopy crypto groupId .attachmentReserve body draws with ⟨_ | _, _⟩ <;> rfl

theorem stands_appendReserve (hnow : host.now = t) (groupId : GroupId) (cred : MemberCred)
    (body : Bytes) (draws : ℕ → Key × Key) :
    Stands (host.appendReserve crypto groupId cred body draws).1
      ((host.pruned t).appendReserve crypto groupId cred body draws).1 := by
  have hcopy := fst_fanoutCopy_congr crypto (host.core_pruned t groupId) .attachmentReserve body draws
  have hbudget : (host.pruned t).fileBudget = host.fileBudget := rfl
  rw [fst_appendReserve, fst_appendReserve, hcopy, hbudget]
  cases AttachmentReserve.decode body with
  | error e => exact .error _ _
  | ok reserve =>
    dsimp only
    rw [liveFileBytes_pruned hnow, lookup_files_pruned]
    by_cases hrefused : (host.files.lookup reserve.fetchToken).isSome ∨
        saturatingAdd (host.liveFileBytes groupId) reserve.sizeBucket.innerLen > host.fileBudget
    · rw [if_pos hrefused]
      exact .error _ _
    · rw [if_neg hrefused, if_neg]
      · exact .of_eq rfl
      · rw [not_or, Option.not_isSome_iff_eq_none] at hrefused
        rw [hrefused.1, Option.filter_none]
        exact not_or.mpr ⟨nofun, hrefused.2⟩

theorem stands_append (hnow : host.now = t) (groupId : GroupId) (cred : MemberCred)
    (type : MessageType) (body : Bytes) (draws : ℕ → Key × Key) :
    Stands (host.append crypto groupId cred type body draws).1
      ((host.pruned t).append crypto groupId cred type body draws).1 := by
  have hcopy := fst_fanoutCopy_congr crypto (host.core_pruned t groupId) type body draws
  unfold append
  rw [authorizeLive_pruned]
  split
  · exact .error _ _
  · cases type with
    | doubleRatchet | attachmentDr => exact .error _ _
    | mlsHandshake | mlsApp | revocationStatement => exact .of_eq hcopy
    | removeBundle => exact .of_eq (host.fst_appendRemove_pruned t groupId cred body draws)
    | attachmentReserve => exact stands_appendReserve hnow groupId cred body draws
    | signingKeyReplace =>
      obtain ⟨hanswer, hcore⟩ :=
        host.fst_applySigningReplace_copy crypto t groupId cred body
      dsimp only
      rcases h : host.applySigningReplace crypto groupId cred body with ⟨_ | _, replaced⟩ <;>
        rcases h' : (host.pruned t).applySigningReplace crypto groupId cred body with
          ⟨_ | _, replaced'⟩ <;> rw [h, h'] at hanswer hcore
      · exact .error _ _
      · exact .error _ _
      · cases hanswer
      · exact .of_eq (fst_fanoutCopy_congr crypto hcore _ _ _)

end GroupHost

/-! ## Requests -/

theorem mapErr_ge (e : ServerError) : 400 ≤ mapErr e := by
  cases e with
  | wire => exact Nat.le_refl 400
  | _ => decide

theorem Response.refused : ¬ (Response.status 403).code < 400 := by decide

section Requests

variable {crypto : Crypto} {env : Env} {st : AppState} {t : ℕ}

theorem AppState.answerHome_stands {α : Type} {st' : AppState} {reply : α → Response}
    {outcome outcome' : Outcome α} (h : Stands outcome.1 outcome'.1)
    (hgranted : (st.answerHome reply outcome).1.code < 400) :
    (st'.answerHome reply outcome').1 = (st.answerHome reply outcome).1 := by
  obtain ⟨_ | a, home⟩ := outcome
  · exact absurd hgranted (Nat.not_lt.mpr (mapErr_ge _))
  · obtain ⟨answer, home'⟩ := outcome'
    obtain rfl : answer = .ok a := h a rfl
    rfl

theorem AppState.answerGroups_stands {α : Type} {st' : AppState} {reply : α → Response}
    {outcome outcome' : GroupOutcome α} (h : Stands outcome.1 outcome'.1)
    (hgranted : (st.answerGroups reply outcome).1.code < 400) :
    (st'.answerGroups reply outcome').1 = (st.answerGroups reply outcome).1 := by
  obtain ⟨_ | a, groups⟩ := outcome
  · exact absurd hgranted (Nat.not_lt.mpr (mapErr_ge _))
  · obtain ⟨answer, groups'⟩ := outcome'
    obtain rfl : answer = .ok a := h a rfl
    rfl

/-- What a request must not find expired because its handler does not look: a capability that is
accepted for a fan-out, a pending join and a file. -/
def Call.Timely (crypto : Crypto) (t : ℕ) (st : AppState) : Call → Prop
  | createGroup _ _ _ cap hpke => st.home.fanoutOk cap hpke = true →
    ∀ kind, st.home.tokens.find cap = some kind → kind.liveAt t = true
  | groupAdmit _ _ _ _ cap hpke => st.home.fanoutOk cap hpke = true →
    ∀ kind, st.home.tokens.find cap = some kind → kind.liveAt t = true
  | groupFanout _ _ cap hpke => st.home.fanoutOk cap hpke = true →
    ∀ kind, st.home.tokens.find cap = some kind → kind.liveAt t = true
  | groupPendingLookup groupId cred pendingId =>
    st.groups.authorizeLive crypto groupId cred = .ok () → ∀ g p,
      st.groups.groups.lookup groupId = some g → g.pending.lookup pendingId = some p →
        st.groups.now < p.expiresAt → t < p.expiresAt
  | groupFetchFile groupId fetchToken cred =>
    st.groups.authorizeLive crypto groupId cred = .ok () → ∀ slot,
      st.groups.files.lookup fetchToken = some slot → slot.groupId = groupId →
        slot.bytes.isSome → st.groups.now < slot.expiresAt → t < slot.expiresAt
  | _ => True

namespace Handler

theorem fetchPrekey_pruned (hclock : ∀ n, (env.clock n).toNat = t) (token : Key)
    (hgranted : (fetchPrekey env st token).1.code < 400) :
    (fetchPrekey env (st.pruned t) token).1 = (fetchPrekey env st token).1 := by
  have hstands : Stands ((st.homeAt (env.clock 0)).fetchPrekey token).1
      (((st.pruned t).homeAt (env.clock 0)).fetchPrekey token).1 :=
    HomeServer.stands_fetchPrekey (hclock 0) token
  unfold fetchPrekey at hgranted ⊢
  rcases h : (st.homeAt (env.clock 0)).fetchPrekey token with ⟨_ | blob, home⟩
  · rw [h] at hgranted
    exact absurd hgranted Response.refused
  · rw [h] at hstands
    rcases h' : ((st.pruned t).homeAt (env.clock 0)).fetchPrekey token with ⟨answer, home'⟩
    rw [h'] at hstands
    obtain rfl : answer = .ok blob := hstands blob rfl
    rfl

theorem uploadPrekey_pruned (owner : Owner) (blob : Bytes)
    (hgranted : (uploadPrekey crypto env st owner blob).1.code < 400) :
    (uploadPrekey crypto env (st.pruned t) owner blob).1 =
      (uploadPrekey crypto env st owner blob).1 := by
  have hchecked := (st.homeAt (env.clock 0)).checkOwner_pruned crypto t owner.id
    owner.auth (env.clock 1).toNat
    (.header crypto ((st.homeAt (env.clock 0)).serverId crypto) "POST" "/v1/prekeys" blob)
  have hhome : (st.pruned t).homeAt (env.clock 0) = (st.homeAt (env.clock 0)).pruned t := rfl
  have hid : ((st.homeAt (env.clock 0)).pruned t).serverId crypto =
      (st.homeAt (env.clock 0)).serverId crypto := rfl
  unfold uploadPrekey at hgranted ⊢
  dsimp only at hgranted ⊢
  rw [hhome, hid, hchecked]
  split at hgranted <;> rename_i heq
  · rw [heq]
  · rw [heq]
    exact AppState.answerHome_stands
      (.of_eq (HomeServer.fst_publishPrekey_pruned _ t owner.id blob)) hgranted

theorem mintToken_pruned (owner : Owner) (share : Bool)
    (hgranted : (mintToken crypto env st owner share).1.code < 400) :
    (mintToken crypto env (st.pruned t) owner share).1 =
      (mintToken crypto env st owner share).1 := by
  have hchecked (path : String) := (st.homeAt (env.clock 0)).checkOwner_pruned crypto t owner.id
    owner.auth (env.clock 1).toNat
    (.header crypto ((st.homeAt (env.clock 0)).serverId crypto) "POST" path [])
  have hhome : (st.pruned t).homeAt (env.clock 0) = (st.homeAt (env.clock 0)).pruned t := rfl
  have hid : ((st.homeAt (env.clock 0)).pruned t).serverId crypto =
      (st.homeAt (env.clock 0)).serverId crypto := rfl
  unfold mintToken at hgranted ⊢
  dsimp only at hgranted ⊢
  rw [hhome, hid, hchecked]
  split at hgranted <;> rename_i heq
  · rw [heq]
  · rename_i checked
    rw [heq]
    refine AppState.answerHome_stands (.of_eq ?_) hgranted
    cases share with
    | true =>
      rw [if_pos rfl, if_pos rfl, HomeServer.fst_mintShareToken, HomeServer.fst_mintShareToken,
        HomeServer.fst_registerShareToken_pruned]
    | false => exact checked.fst_mintContactCapability_pruned t owner.id _

theorem revocation_pruned (stmt : RevocationStatement) :
    (revocation crypto env (st.pruned t) stmt).1 = (revocation crypto env st stmt).1 := by
  have hanswer : (((st.pruned t).homeAt (env.clock 0)).ingestRevocation crypto stmt).1 =
      ((st.homeAt (env.clock 0)).ingestRevocation crypto stmt).1 :=
    HomeServer.fst_ingestRevocation_pruned (st.homeAt (env.clock 0)) t stmt
  unfold revocation
  rcases h : (st.homeAt (env.clock 0)).ingestRevocation crypto stmt with ⟨_ | _, _⟩ <;>
    rcases h' : ((st.pruned t).homeAt (env.clock 0)).ingestRevocation crypto stmt with
      ⟨_ | _, _⟩ <;> rw [h, h'] at hanswer
  · rw [Except.error.inj hanswer]
  · cases hanswer
  · cases hanswer

theorem groupAppend_pruned (hclock : ∀ n, (env.clock n).toNat = t) (req : AppendRequest)
    (hgranted : (groupAppend crypto env st req).1.code < 400) :
    (groupAppend crypto env (st.pruned t) req).1 = (groupAppend crypto env st req).1 := by
  have hstands : Stands (req.appendRow crypto (env.clock 0) (env.seals 0) st.groups).1
      (req.appendRow crypto (env.clock 0) (env.seals 0) (st.pruned t).groups).1 :=
    GroupHost.stands_append (hclock 0) req.groupId req.cred req.type req.body (env.seals 0)
  unfold groupAppend at hgranted ⊢
  rcases h : req.appendRow crypto (env.clock 0) (env.seals 0) st.groups with ⟨_ | appended, _⟩
  · rw [h] at hgranted
    exact absurd hgranted (Nat.not_lt.mpr (mapErr_ge _))
  · rw [h] at hstands
    rcases h' : req.appendRow crypto (env.clock 0) (env.seals 0) (st.pruned t).groups with
      ⟨answer, groups'⟩
    rw [h'] at hstands
    obtain rfl : answer = .ok appended := hstands appended rfl
    rfl

/-- A handler that accepts a capability for a fan-out rests on its being live. -/
theorem of_fanoutOk {cap hpke : Key} {next next' : Response × AppState}
    (htimely : st.home.fanoutOk cap hpke = true →
      ∀ kind, st.home.tokens.find cap = some kind → kind.liveAt t = true)
    (hnext : next.1.code < 400 → next'.1 = next.1)
    (hgranted : (if !st.home.fanoutOk cap hpke then (.status 403, st) else next).1.code < 400) :
    (if !(st.pruned t).home.fanoutOk cap hpke then (.status 403, st.pruned t) else next').1 =
      (if !st.home.fanoutOk cap hpke then (.status 403, st) else next).1 := by
  cases hok : st.home.fanoutOk cap hpke with
  | false =>
    rw [hok] at hgranted
    exact absurd hgranted Response.refused
  | true =>
    have hpruned : (st.pruned t).home.fanoutOk cap hpke = true :=
      (HomeServer.fanoutOk_pruned hpke (htimely hok)).trans hok
    rw [hok] at hgranted
    rw [hpruned]
    exact hnext hgranted

theorem createGroup_pruned {owner : Owner} {body : Bytes} {signingPk cap hpke : Key}
    (htimely : st.home.fanoutOk cap hpke = true →
      ∀ kind, st.home.tokens.find cap = some kind → kind.liveAt t = true)
    (hgranted : (createGroup crypto env st owner body signingPk cap hpke).1.code < 400) :
    (createGroup crypto env (st.pruned t) owner body signingPk cap hpke).1 =
      (createGroup crypto env st owner body signingPk cap hpke).1 := by
  have hchecked := st.home.checkOwner_pruned crypto t owner.id owner.auth (env.clock 0).toNat
    (.header crypto (st.home.serverId crypto) "POST" "/v1/groups" body)
  obtain ⟨nonces, hframe⟩ := st.home.checkOwner_frame crypto owner.id owner.auth
    (env.clock 0).toNat (.header crypto (st.home.serverId crypto) "POST" "/v1/groups" body)
  have hhome : (st.pruned t).home = st.home.pruned t := rfl
  have hid : (st.home.pruned t).serverId crypto = st.home.serverId crypto := rfl
  unfold createGroup at hgranted ⊢
  rw [hhome, hid, hchecked]
  split at hgranted <;> rename_i heq
  · rw [heq]
  · rename_i checked
    rw [heq] at hframe ⊢
    have htokens : checked.tokens = st.home.tokens := by rw [show checked = _ from hframe]
    have hsame : checked.fanoutOk cap hpke = st.home.fanoutOk cap hpke := by
      rw [show checked = _ from hframe]
      rfl
    dsimp only at hgranted ⊢
    split at hgranted
    · exact absurd hgranted Response.refused
    · rename_i hallowed
      have hlive := htimely (by simpa [hsame] using fun h ↦ hallowed (.inr h))
      rw [← htokens] at hlive
      rw [HomeServer.capabilityMailbox_pruned hlive, HomeServer.fanoutOk_pruned hpke hlive,
        if_neg hallowed, if_neg hallowed]
      exact AppState.answerGroups_stands
        (.of_eq
        ((st.groupsAt (env.clock 1)).fst_createGroupFor_pruned t signingPk _ _ _ _)) hgranted

end Handler

/-- For a pending join the condition is exact: one that has expired is served until some other
request sets the clock of the groups. -/
theorem Call.timely_pendingLookup_iff {groupId : GroupId} {cred : MemberCred} {pendingId : Key} :
    (groupPendingLookup groupId cred pendingId).Timely crypto t st ↔
      ((groupPendingLookup groupId cred pendingId).handle crypto env st).1.code < 400 →
        ((groupPendingLookup groupId cred pendingId).handle crypto env (st.pruned t)).1 =
          ((groupPendingLookup groupId cred pendingId).handle crypto env st).1 := by
  constructor
  · intro htimely hgranted
    have hstands := GroupHost.stands_lookupPending htimely
    change (Handler.groupPendingLookup crypto st groupId cred pendingId).code < 400 at hgranted
    change Handler.groupPendingLookup crypto (st.pruned t) groupId cred pendingId =
      Handler.groupPendingLookup crypto st groupId cred pendingId
    unfold Handler.groupPendingLookup at hgranted ⊢
    cases h : st.groups.lookupPending crypto groupId cred pendingId with
    | error e =>
      rw [h] at hgranted
      exact absurd hgranted (Nat.not_lt.mpr (mapErr_ge e))
    | ok found => rw [show (st.pruned t).groups.lookupPending crypto groupId cred pendingId = _ from
        hstands found h]
  · intro hsame hauth g p hg hp hnow
    by_contra hexpired
    change (Handler.groupPendingLookup crypto st groupId cred pendingId).code < 400 →
      Handler.groupPendingLookup crypto (st.pruned t) groupId cred pendingId =
        Handler.groupPendingLookup crypto st groupId cred pendingId at hsame
    have hserved : st.groups.lookupPending crypto groupId cred pendingId =
        .ok ⟨p.cred.credentialId, p.inviteeBinding, p.salt⟩ := by
      unfold GroupHost.lookupPending
      rw [hauth, hg]
      simp only [Option.bind_some, hp, ge_iff_le, if_neg (Nat.not_le.mpr hnow)]
      rfl
    have hpruned : (st.groups.pruned t).lookupPending crypto groupId cred pendingId =
        .error .denied := by
      have hgone : (g.pruned t).pending.lookup pendingId = none := by
        unfold GroupState.pruned
        rw [FiniteMap.lookup_retain, hp, Option.filter_some, if_neg (by simpa using hexpired)]
      unfold GroupHost.lookupPending
      rw [GroupHost.authorizeLive_pruned, GroupHost.lookup_groups_pruned, hauth, hg]
      simp only [Option.map_some, Option.bind_some, hgone]
      rfl
    unfold Handler.groupPendingLookup at hsame
    rw [hserved, show (st.pruned t).groups = st.groups.pruned t from rfl, hpruned] at hsame
    cases hsame (show 200 < 400 by decide)

/-- For a file the condition is exact as well. -/
theorem Call.timely_fetchFile_iff {groupId : GroupId} {fetchToken : Key} {cred : MemberCred} :
    (groupFetchFile groupId fetchToken cred).Timely crypto t st ↔
      ((groupFetchFile groupId fetchToken cred).handle crypto env st).1.code < 400 →
        ((groupFetchFile groupId fetchToken cred).handle crypto env (st.pruned t)).1 =
          ((groupFetchFile groupId fetchToken cred).handle crypto env st).1 := by
  constructor
  · intro htimely hgranted
    have hstands := GroupHost.stands_fetchFile htimely
    change (Handler.groupFetchFile crypto st groupId fetchToken cred).code < 400 at hgranted
    change Handler.groupFetchFile crypto (st.pruned t) groupId fetchToken cred =
      Handler.groupFetchFile crypto st groupId fetchToken cred
    unfold Handler.groupFetchFile at hgranted ⊢
    cases h : st.groups.fetchFile crypto groupId cred fetchToken with
    | error e =>
      rw [h] at hgranted
      exact absurd hgranted (Nat.not_lt.mpr (mapErr_ge e))
    | ok blob => rw [show (st.pruned t).groups.fetchFile crypto groupId cred fetchToken = _ from
        hstands blob h]
  · intro hsame hauth slot hslot hgroup hbytes hnow
    by_contra hexpired
    obtain ⟨bytes, hbytes⟩ := Option.isSome_iff_exists.mp hbytes
    change (Handler.groupFetchFile crypto st groupId fetchToken cred).code < 400 →
      Handler.groupFetchFile crypto (st.pruned t) groupId fetchToken cred =
        Handler.groupFetchFile crypto st groupId fetchToken cred at hsame
    have hserved : st.groups.fetchFile crypto groupId cred fetchToken = .ok bytes := by
      unfold GroupHost.fetchFile
      rw [hauth, hslot]
      simp only [bind, Except.bind, if_pos (And.intro hgroup hnow), hbytes]
    have hpruned : (st.groups.pruned t).fetchFile crypto groupId cred fetchToken =
        .error .denied := by
      unfold GroupHost.fetchFile
      rw [GroupHost.authorizeLive_pruned, GroupHost.lookup_files_pruned, hauth, hslot,
        Option.filter_some, if_neg (by simpa using hexpired)]
      rfl
    unfold Handler.groupFetchFile at hsame
    rw [hserved, show (st.pruned t).groups = st.groups.pruned t from rfl, hpruned] at hsame
    cases hsame (show 200 < 400 by decide)

/-- A granted answer stays the same without what has expired. -/
theorem Call.fst_handle_pruned {call : Call} (hclock : ∀ n, (env.clock n).toNat = t)
    (htimely : call.Timely crypto t st) (hgranted : (call.handle crypto env st).1.code < 400) :
    (call.handle crypto env (st.pruned t)).1 = (call.handle crypto env st).1 := by
  have hhome (n : ℕ) : (st.pruned t).homeAt (env.clock n) = (st.homeAt (env.clock n)).pruned t := rfl
  have hgroups (n : ℕ) :
      (st.pruned t).groupsAt (env.clock n) = (st.groupsAt (env.clock n)).pruned t := rfl
  cases call with
  | bundle | discovery => rfl
  | register card =>
    exact AppState.answerHome_stands
      (.of_eq (HomeServer.fst_registerFromCard_pruned (st.homeAt (env.clock 0)) t card)) hgranted
  | observeCardBinding card =>
    exact AppState.answerHome_stands (.of_eq
      (HomeServer.fst_observeBinding_pruned (st.homeAt (env.clock 0)) t _ card.binding)) hgranted
  | postEnvelope owner outer =>
    exact AppState.answerHome_stands
      (HomeServer.stands_enqueueFromOwner (hclock 0) owner.id owner.auth _ outer) hgranted
  | mailboxFetch owner =>
    exact AppState.answerHome_stands (.of_eq
      ((st.homeAt (env.clock 0)).fst_fetch_pruned (hclock 0) owner.id owner.auth _)) hgranted
  | mailboxAck owner =>
    exact AppState.answerHome_stands
      (.of_eq ((st.homeAt (env.clock 0)).fst_ack_pruned t owner.id owner.auth _)) hgranted
  | groupInvite groupId cred invite =>
    exact AppState.answerGroups_stands (.of_eq
      ((st.groupsAt (env.clock 0)).fst_storeInvite_pruned t groupId cred invite)) hgranted
  | groupAccept groupId nonce =>
    exact AppState.answerGroups_stands
      (GroupHost.stands_accept (hclock 0) groupId nonce _ _) hgranted
  | groupUploadFile groupId fetchToken cred body =>
    exact AppState.answerGroups_stands
      (GroupHost.stands_uploadFile (hclock 0) groupId cred fetchToken body) hgranted
  | issueTurn owner | wakeup owner =>
    exact AppState.answerHome_stands (.of_eq
      (st.home.fst_checkOwner_pruned t owner.id owner.auth _ _)) hgranted
  | fetchPrekey token => exact Handler.fetchPrekey_pruned hclock token hgranted
  | uploadPrekey owner blob => exact Handler.uploadPrekey_pruned owner blob hgranted
  | mintShare owner => exact Handler.mintToken_pruned owner true hgranted
  | mintContact owner => exact Handler.mintToken_pruned owner false hgranted
  | revocation stmt => exact Handler.revocation_pruned stmt
  | createGroup owner body signingPk cap hpke => exact Handler.createGroup_pruned htimely hgranted
  | groupAppend req => exact Handler.groupAppend_pruned hclock req hgranted
  | groupAdmit groupId admitter admission joinerPk cap hpke =>
    refine Handler.of_fanoutOk htimely (fun hnext ↦ ?_) hgranted
    exact AppState.answerGroups_stands (.of_eq ((st.groupsAt (env.clock 0)).fst_admitJoiner_pruned
      (hclock 0) groupId admitter admission joinerPk _)) hnext
  | groupFanout groupId cred cap hpke =>
    refine Handler.of_fanoutOk htimely (fun hnext ↦ ?_) hgranted
    exact AppState.answerGroups_stands (.of_eq
      ((st.groupsAt (env.clock 0)).fst_refreshFanout_pruned t groupId cred _)) hnext
  | groupPendingLookup groupId cred pendingId => exact timely_pendingLookup_iff.mp htimely hgranted
  | groupFetchFile groupId fetchToken cred => exact timely_fetchFile_iff.mp htimely hgranted

end Requests

/-! ## Runs of requests -/

/-- The condition of a request on the state it meets. -/
def NodeEvent.Timely (crypto : Crypto) (node : Node) : NodeEvent → Prop
  | request env _ req => ∀ call, req.call = .ok call →
    call.Timely crypto (env.clock 0).toNat node.state
  | persist _ | reload => True

/-- A request that is handled at one time gets, if it is granted, the answer it would get without
all that has expired by then. -/
def NodeEvent.Unexpired (crypto : Crypto) (node : Node) : NodeEvent → Prop
  | request env fault req => (∀ n, env.clock n = env.clock 0) →
    (node.persistAfter crypto env fault req).1.code < 400 →
      ((node.withState (node.state.pruned (env.clock 0).toNat)).persistAfter crypto env fault req).1 =
        (node.persistAfter crypto env fault req).1
  | persist _ | reload => True

section Runs

variable {crypto : Crypto} {node : Node}

theorem Node.fst_persistAfter (env : Env) (fault : Bool) (req : Request) :
    (node.persistAfter crypto env fault req).1 = (req.handle crypto env node.state).1 := by
  unfold Node.persistAfter
  dsimp only
  split <;> rfl

/-- One event: what holds of the call a request is read as holds of the request. -/
theorem NodeEvent.Timely.unexpired {event : NodeEvent} (h : event.Timely crypto node) :
    event.Unexpired crypto node := by
  cases event with
  | persist | reload => trivial
  | request env fault req =>
    intro hstill hgranted
    rw [Node.fst_persistAfter] at hgranted
    rw [Node.fst_persistAfter, Node.fst_persistAfter]
    change (req.handle crypto env (node.state.pruned _)).1 = _
    cases hcall : req.call with
    | error code =>
      unfold Request.handle
      rw [hcall]
    | ok call =>
      unfold Request.handle at hgranted ⊢
      rw [hcall] at hgranted ⊢
      exact Call.fst_handle_pruned (fun n ↦ congrArg UInt64.toNat (hstill n)) (h call hcall) hgranted

end Runs

/-! A creator, by the share token of her card. -/

section Creator

/-- The key of the server, the identity and the share token. -/
def creatorKeys : Key × Key × Key := (.replicate 32 1, .replicate 32 3, .replicate 32 2)

/-- The card the creator registers with. -/
def creatorCard : ContactCard := plainCard creatorKeys.1 creatorKeys.2.1 creatorKeys.2.2

/-- The creator as the owner of a request of a time. -/
def creatorAt (ts : UInt64) : Owner :=
  let body := groupBody creatorKeys.2.1 creatorKeys.2.2 creatorKeys.1
  let owner := groupOwner creatorKeys.1 creatorKeys.2.1 body
  { owner with auth := { owner.auth with ts } }

/-- The request that registers the creator. -/
def registration : Request :=
  .sent .post "/v1/register" [] (Cbor.encode (.map creatorCard.pairs))

/-- The request that creates a group with her share token as the capability. -/
def creation (ts : UInt64) : Request :=
  .sent .post "/v1/groups" [("nemo-owner", toHex (creatorAt ts).auth.encode)]
    (groupBody creatorKeys.2.1 creatorKeys.2.2 creatorKeys.1)

/-- What is read from her request. -/
def creationCall (ts : UInt64) : Call :=
  .createGroup (creatorAt ts) (groupBody creatorKeys.2.1 creatorKeys.2.2 creatorKeys.1)
    creatorKeys.2.1 creatorKeys.2.2 creatorKeys.1

/-- The clock stands still at a time. -/
def envAt (ts : UInt64) : Env := { stillEnv with clock := fun _ ↦ ts }

theorem call_registration : registration.call = .ok (.register creatorCard) := by
  refine call_register (by decide +kernel) (ContactCard.decode_encode ?_)
  rw [ContactCard.encode, if_neg (by decide +kernel)]

theorem call_creation (ts : UInt64) : (creation ts).call = .ok (creationCall ts) := by
  have howner : (creatorAt ts).Readable := by
    refine ⟨rfl, MailboxOwnerAuth.decode_encode ?_ ?_ ?_⟩
    · exact show creatorKeys.2.1.data.length < 2 ^ 64 by decide +kernel
    · exact show "POST".utf8ByteSize < 2 ^ 64 by decide
    · exact show "/v1/groups".utf8ByteSize < 2 ^ 64 by decide
  refine call_createGroup howner rfl (by decide +kernel) (decodeMap_encode ?_)
  simp [Cbor.Value.Wf, Cbor.pairsWf]

/-- The node after the registration. -/
def registered : Node :=
  (Node.first .transparent ⟨creatorKeys.1, creatorKeys.1⟩ creatorKeys.1 ⟨"local", Text.local_size⟩
    8443).afterCall .transparent (envAt 1700000000) false true (.register creatorCard)

theorem apply_registration : NodeEvent.apply .transparent
    (Node.first .transparent ⟨creatorKeys.1, creatorKeys.1⟩ creatorKeys.1 ⟨"local", Text.local_size⟩ 8443)
      (.request (envAt 1700000000) false registration) = registered := by
  change (Node.serve _ _ _ registration _).2 = registered
  rw [Node.serve_of_call call_registration]
  rfl

end Creator

/-- In a run of requests, calls of `persist` and restarts, whatever time passes between them, no
granted answer rests on anything expired, as long as no request meets an expired capability, pending
join or file where its handler does not look. -/
theorem granted_without_expired (crypto : Crypto) (node : Node) (events : List NodeEvent)
    (htimely : Allowed (NodeEvent.apply crypto) (NodeEvent.Timely crypto) node events) :
    Allowed (NodeEvent.apply crypto) (NodeEvent.Unexpired crypto) node events :=
  htimely.imp fun _ _ ↦ NodeEvent.Timely.unexpired

/-- Right after the registration the share token is still good. -/
theorem granted_without_expired_creation : Allowed (NodeEvent.apply .transparent)
    (NodeEvent.Unexpired .transparent)
    (Node.first .transparent ⟨creatorKeys.1, creatorKeys.1⟩ creatorKeys.1 ⟨"local", Text.local_size⟩ 8443)
    [.request (envAt 1700000000) false registration,
      .request (envAt 1700000000) false (creation 1700000000)] := by
  refine granted_without_expired _ _ _ ⟨fun call hcall ↦ ?_, fun call hcall ↦ ?_, trivial⟩
  · rw [call_registration] at hcall
    cases hcall
    trivial
  · rw [call_creation] at hcall
    cases hcall
    rw [apply_registration]
    intro _ kind hkind
    have hlive : (registered.state.home.tokens.find creatorKeys.2.2).map
        (TokenKind.liveAt 1700000000) = some true := by decide +kernel
    rw [hkind] at hlive
    exact Option.some.inj hlive

/-- Half an hour later it has expired, and the group is created nevertheless. -/
theorem creation_uses_expired_token : ¬ Allowed (NodeEvent.apply .transparent)
    (NodeEvent.Unexpired .transparent)
    (Node.first .transparent ⟨creatorKeys.1, creatorKeys.1⟩ creatorKeys.1 ⟨"local", Text.local_size⟩ 8443)
    [.request (envAt 1700000000) false registration,
      .request (envAt 1700001800) false (creation 1700001800)] := by
  rintro ⟨-, h, -⟩
  rw [apply_registration] at h
  have hhandle (st : AppState) : (creation 1700001800).handle .transparent (envAt 1700001800) st =
      (creationCall 1700001800).handle .transparent (envAt 1700001800) st := by
    unfold Request.handle
    rw [call_creation]
  have hgranted : ((creationCall 1700001800).handle .transparent (envAt 1700001800)
      registered.state).1.code = 200 := by decide +kernel
  have hrefused : ((creationCall 1700001800).handle .transparent (envAt 1700001800)
      (registered.state.pruned 1700001800)).1.code = 403 := by decide +kernel
  have hsame := h (fun _ ↦ rfl) (by rw [Node.fst_persistAfter, hhandle, hgranted]; decide)
  rw [Node.fst_persistAfter, Node.fst_persistAfter, hhandle, hhandle] at hsame
  have hcode := congrArg Response.code hsame
  rw [hgranted] at hcode
  exact absurd (hrefused.symm.trans hcode) (by decide)

end NemoMessenger.Server
