import NemoMessenger.Server.Sweep

/-!
# The two sweeps

One sweep looks at all mailboxes at once and the other at one of them, and both drop tokens by their
keys. A sweep never drops the latest contact capability of an enabled mailbox, so what is dead stays
dead whatever else has been dropped before.
-/

namespace NemoMessenger.Server

open NemoMessenger.Data NemoMessenger.Wire

/-! ## The latest capability of a split list -/

theorem Tokens.exists_split {tokens : Tokens} {idx : ℕ} {entry : Key × TokenKind}
    (h : tokens[idx]? = some entry) :
    ∃ before after, tokens = before ++ entry :: after ∧ before.length = idx := by
  obtain ⟨hlt, hget⟩ := List.getElem?_eq_some_iff.mp h
  refine ⟨tokens.take idx, tokens.drop (idx + 1), ?_, List.length_take_of_le hlt.le⟩
  calc
    tokens = tokens.take idx ++ tokens.drop idx := (List.take_append_drop idx tokens).symm
    _ = tokens.take idx ++ entry :: tokens.drop (idx + 1) := by
      rw [List.drop_eq_getElem_cons hlt, hget]

/-- No contact capability of the mailbox in front of a place has a later window start, and none
behind it the same one. -/
def Tokens.Tops (before after : Tokens) (owner : IdentityId) (start : ℕ) : Prop :=
  (∀ token grace start' count, (token, .contact owner grace start' count) ∈ before →
    start' ≤ start) ∧
  ∀ token grace start' count, (token, .contact owner grace start' count) ∈ after → start' < start

theorem Tokens.Tops.mono {before after before' after' : Tokens} {owner : IdentityId} {start : ℕ}
    (h : Tokens.Tops before after owner start) (hbefore : before' ⊆ before)
    (hafter : after' ⊆ after) : Tokens.Tops before' after' owner start :=
  ⟨fun token grace start' count hmem ↦ h.1 token grace start' count (hbefore hmem),
    fun token grace start' count hmem ↦ h.2 token grace start' count (hafter hmem)⟩

theorem Tokens.latest_iff_tops {before after : Tokens} {entry : Key × TokenKind}
    {owner : IdentityId} {start : ℕ}
    (hentry : ∀ grace start' count, entry.2 = .contact owner grace start' count → start' = start) :
    Tokens.Latest (before ++ entry :: after) owner before.length start ↔
      Tokens.Tops before after owner start := by
  constructor
  · intro h
    constructor
    · intro token grace start' count hmem
      obtain ⟨idx, hidx⟩ := List.mem_iff_getElem?.mp hmem
      have hlt := (List.getElem?_eq_some_iff.mp hidx).1
      have hcontact : Tokens.ContactAt (before ++ entry :: after) owner idx start' :=
        ⟨token, grace, count, by rw [List.getElem?_append_left hlt, hidx]⟩
      rcases h idx start' hcontact with hless | ⟨heq, -⟩ <;> omega
    · intro token grace start' count hmem
      obtain ⟨idx, hidx⟩ := List.mem_iff_getElem?.mp hmem
      have hcontact :
          Tokens.ContactAt (before ++ entry :: after) owner (before.length + (idx + 1)) start' :=
        ⟨token, grace, count, by
          rw [List.getElem?_append_right (by omega), Nat.add_sub_cancel_left,
            List.getElem?_cons_succ, hidx]⟩
      rcases h _ start' hcontact with hless | ⟨-, hle⟩ <;> omega
  · rintro ⟨hbefore, hafter⟩ idx start' ⟨token, grace, count, hget⟩
    rcases lt_trichotomy idx before.length with hlt | rfl | hgt
    · rw [List.getElem?_append_left hlt] at hget
      have hle := hbefore token grace start' count (List.mem_of_getElem? hget)
      omega
    · rw [List.getElem?_append_right le_rfl, Nat.sub_self, List.getElem?_cons_zero] at hget
      have heq := hentry grace start' count (by rw [Option.some.inj hget])
      omega
    · obtain ⟨k, rfl⟩ := Nat.exists_eq_add_of_lt hgt
      rw [List.getElem?_append_right (by omega), Nat.add_assoc, Nat.add_sub_cancel_left,
        List.getElem?_cons_succ] at hget
      have hlt := hafter token grace start' count (List.mem_of_getElem? hget)
      omega

/-- A mailbox with a contact capability has a latest one. -/
theorem Tokens.exists_latest {tokens : Tokens} {owner : IdentityId} {idx start : ℕ}
    (h : tokens.ContactAt owner idx start) :
    ∃ idx start, tokens.ContactAt owner idx start ∧ tokens.Latest owner idx start := by
  have hbest := foldl_newestVisit tokens owner
  cases hfold : tokens.zipIdx.foldl (newestVisit owner) none with
  | none =>
    rw [hfold] at hbest
    exact absurd h (hbest idx start)
  | some best =>
    rw [hfold] at hbest
    exact ⟨best.1, best.2, hbest⟩

/-! ## What is dropped -/

namespace HomeServer

variable {home home' home'' : HomeServer} {which : Option IdentityId} {dead dead' : Key → Prop}

/-- A sweep of the server drops the token. -/
def Dying (home : HomeServer) (which : Option IdentityId) (token : Key) : Prop :=
  ∃ idx kind, home.tokens[idx]? = some (token, kind) ∧ home.Reaps which idx kind

/-- Both servers have the same journal, where hash sets are compared as sets. -/
structure SameButOrder (home home' : HomeServer) : Prop where
  rest : { home with dirty := {} } = { home' with dirty := {} }
  journal : { home.dirty with tokens := [], tokensDroppedExact := [] } =
    { home'.dirty with tokens := [], tokensDroppedExact := [] }
  tokens : ∀ token, token ∈ home.dirty.tokens ↔ token ∈ home'.dirty.tokens
  tokensDroppedExact :
    ∀ token, token ∈ home.dirty.tokensDroppedExact ↔ token ∈ home'.dirty.tokensDroppedExact

open Classical in
/-- What is left when the dead tokens are dropped. -/
structure Drops (home home' : HomeServer) (dead : Key → Prop) : Prop where
  rest : { home' with tokens := home.tokens, dirty := home.dirty } = home
  journal : { home'.dirty with
    tokens := home.dirty.tokens
    tokensDroppedExact := home.dirty.tokensDroppedExact } = home.dirty
  tokens : home'.tokens = home.tokens.filter fun entry ↦ ¬dead entry.1
  undone : ∀ token, token ∈ home'.dirty.tokens ↔ token ∈ home.dirty.tokens ∧ ¬dead token
  dropped : ∀ token, token ∈ home'.dirty.tokensDroppedExact ↔
    token ∈ home.dirty.tokensDroppedExact ∨ dead token

namespace Drops

theorem mailboxes (h : home.Drops home' dead) : home'.mailboxes = home.mailboxes := by
  rw [← h.rest]

theorem now (h : home.Drops home' dead) : home'.now = home.now := by
  rw [← h.rest]

theorem congr (h : home.Drops home' dead) (hiff : ∀ token, dead token ↔ dead' token) :
    home.Drops home' dead' := by
  rwa [show dead' = dead from funext fun token ↦ propext (hiff token).symm]

theorem refl (home : HomeServer) : home.Drops home fun _ ↦ False where
  rest := rfl
  journal := rfl
  tokens := by simp
  undone token := by simp
  dropped token := by simp

theorem trans (h : home.Drops home' dead) (h' : home'.Drops home'' dead') :
    home.Drops home'' fun token ↦ dead token ∨ dead' token where
  rest := by
    rw [← h.rest, ← h'.rest]
  journal := by
    rw [← h.journal, ← h'.journal]
  tokens := by
    rw [h'.tokens, h.tokens, List.filter_filter]
    refine List.filter_congr fun entry _ ↦ ?_
    by_cases hdead : dead entry.1 <;> simp [hdead]
  undone token := by
    rw [h'.undone, h.undone, and_assoc, not_or]
  dropped token := by
    rw [h'.dropped, h.dropped, or_assoc]

/-- What is left is determined by what is dropped. -/
theorem sameButOrder (h : home.Drops home' dead) (h' : home.Drops home'' dead) :
    home'.SameButOrder home'' where
  rest := by
    have htokens : home'.tokens = home''.tokens := h.tokens.trans h'.tokens.symm
    calc
      { home' with dirty := {} } =
          { { home' with tokens := home.tokens, dirty := home.dirty } with
            tokens := home'.tokens, dirty := {} } := rfl
      _ = { { home'' with tokens := home.tokens, dirty := home.dirty } with
            tokens := home''.tokens, dirty := {} } := by rw [h.rest, h'.rest, htokens]
  journal := by
    calc
      { home'.dirty with tokens := [], tokensDroppedExact := [] } =
          { { home'.dirty with
              tokens := home.dirty.tokens
              tokensDroppedExact := home.dirty.tokensDroppedExact } with
            tokens := [], tokensDroppedExact := [] } := rfl
      _ = { { home''.dirty with
              tokens := home.dirty.tokens
              tokensDroppedExact := home.dirty.tokensDroppedExact } with
            tokens := [], tokensDroppedExact := [] } := by rw [h.journal, h'.journal]
  tokens token := by rw [h.undone, h'.undone]
  tokensDroppedExact token := by rw [h.dropped, h'.dropped]

end Drops

theorem drops_dropTokensExact (home : HomeServer) (keys : List Key) :
    home.Drops (home.dropTokensExact keys).2 (· ∈ keys) := by
  unfold dropTokensExact
  split_ifs with hnone
  · rw [List.isEmpty_iff.mp hnone]
    exact (Drops.refl home).congr fun token ↦ (List.mem_nil_iff token).symm
  · refine ⟨rfl, rfl, List.filter_congr fun entry _ ↦ ?_, fun token ↦ ?_, fun token ↦ ?_⟩
    · simp
    · simp [List.mem_filter]
    · exact List.mem_union_iff

/-- A place in what is left is a place in the list. -/
theorem Drops.exists_split (h : home.Drops home' dead) {before' after' : Tokens}
    {entry : Key × TokenKind} (hsplit : home'.tokens = before' ++ entry :: after') :
    ∃ before after, home.tokens = before ++ entry :: after ∧ before' ⊆ before ∧ after' ⊆ after ∧
      ¬dead entry.1 := by
  rw [h.tokens, List.filter_eq_append_iff] at hsplit
  obtain ⟨front, back, hfront, rfl, hback⟩ := hsplit
  rw [List.filter_eq_cons_iff] at hback
  obtain ⟨skipped, after, rfl, -, hkept, rfl⟩ := hback
  refine ⟨front ++ skipped, after, by rw [hfront, List.append_assoc], fun e he ↦ ?_,
    List.filter_subset_self _, by simpa using hkept⟩
  exact List.mem_append_left _ (List.mem_of_mem_filter he)

/-- What is left of the list around a place that is kept. -/
theorem Drops.split (h : home.Drops home' dead) {before after : Tokens}
    {entry : Key × TokenKind} (hsplit : home.tokens = before ++ entry :: after)
    (hkept : ¬dead entry.1) : ∃ before' after', home'.tokens = before' ++ entry :: after' ∧
      (∀ e, e ∈ before' ↔ e ∈ before ∧ ¬dead e.1) ∧ ∀ e, e ∈ after' ↔ e ∈ after ∧ ¬dead e.1 := by
  classical
  refine ⟨before.filter fun e ↦ ¬dead e.1, after.filter fun e ↦ ¬dead e.1, ?_, ?_, ?_⟩
  · rw [h.tokens, hsplit, List.filter_append, List.filter_cons_of_pos (by simpa using hkept)]
  · simp
  · simp

theorem drops_sweep (home : HomeServer) (which : Option IdentityId) :
    home.Drops (home.sweep which) (home.Dying which) := by
  rw [sweep_eq]
  exact (home.drops_dropTokensExact _).congr fun token ↦ mem_deadKeys

/-! ## What is dead stays dead -/

/-- A capability at a place is reaped: its mailbox is gone, or it is a share token that is dead, or
an idle contact capability that is not the latest. -/
theorem reaps_iff {before after : Tokens} {entry : Key × TokenKind}
    (hsplit : home.tokens = before ++ entry :: after) :
    home.Reaps which before.length entry.2 ↔ (∀ owner ∈ which, entry.2.mailbox = owner) ∧
      ((home.mailboxes.lookup entry.2.mailbox).all (·.disabled) = true ∨
        match entry.2 with
        | .share _ expiresAt _ reserved => shareTokenDead expiresAt reserved home.now = true
        | .contact owner grace start _ => ¬Tokens.Tops before after owner start ∧
          grace.any (home.now < ·) = false ∧ contactTokenDead start home.now = true) := by
  obtain ⟨token, kind⟩ := entry
  refine and_congr Iff.rfl (or_congr Iff.rfl ?_)
  cases kind with
  | share mailbox expiresAt burned reserved => rfl
  | contact owner grace start count =>
    have hcontact : home.tokens.ContactAt owner before.length start := by
      refine ⟨token, grace, count, ?_⟩
      rw [hsplit, List.getElem?_append_right le_rfl, Nat.sub_self, List.getElem?_cons_zero]
    have hlatest : home.newestContactIdxFor owner = some before.length ↔
        Tokens.Tops before after owner start := by
      rw [newestContactIdxFor_eq_some_iff hcontact, hsplit]
      refine Tokens.latest_iff_tops fun grace' start' count' heq ↦ ?_
      cases heq
      rfl
    simp only [TokenKind.mailbox, tokenDead]
    by_cases htops : Tokens.Tops before after owner start
    · simp [hlatest.mpr htops, htops]
    · cases grace.any (home.now < ·) <;> simp [mt hlatest.mp htops, htops]

/-- A token is dying exactly when it is reaped at its place. -/
theorem dying_iff (hnodup : home.tokens.keys.Nodup) {before after : Tokens}
    {entry : Key × TokenKind} (hsplit : home.tokens = before ++ entry :: after) :
    home.Dying which entry.1 ↔ home.Reaps which before.length entry.2 := by
  have hget : home.tokens[before.length]? = some (entry.1, entry.2) := by
    rw [hsplit, List.getElem?_append_right le_rfl, Nat.sub_self, List.getElem?_cons_zero]
  constructor
  · rintro ⟨idx, kind, hget', hreaped⟩
    obtain ⟨rfl, rfl⟩ := Tokens.eq_of_nodup hnodup hget hget'
    exact hreaped
  · exact fun hreaped ↦ ⟨before.length, entry.2, hget, hreaped⟩

/-- A contact capability that has no later one left beside it had none before, since the latest of an
enabled mailbox is not dead. -/
theorem tops_of_kept (hnodup : home.tokens.keys.Nodup)
    (hdead : ∀ token, dead token → home.Dying none token) {before after before' after' : Tokens}
    {token : Key} {owner : IdentityId} {grace : Option ℕ} {start count : ℕ}
    (hsplit : home.tokens = before ++ (token, .contact owner grace start count) :: after)
    (hbefore : ∀ e, e ∈ before' ↔ e ∈ before ∧ ¬dead e.1)
    (hafter : ∀ e, e ∈ after' ↔ e ∈ after ∧ ¬dead e.1)
    (hlive : (home.mailboxes.lookup owner).all (·.disabled) = false)
    (htops : Tokens.Tops before' after' owner start) : Tokens.Tops before after owner start := by
  have hcontact : home.tokens.ContactAt owner before.length start := by
    refine ⟨token, grace, count, ?_⟩
    rw [hsplit, List.getElem?_append_right le_rfl, Nat.sub_self, List.getElem?_cons_zero]
  obtain ⟨idx, latest, hidx, hlatest⟩ := Tokens.exists_latest hcontact
  have hnewest := (newestContactIdxFor_eq_some_iff hidx).mpr hlatest
  obtain ⟨token', grace', count', hget⟩ := hidx
  have hkept : ¬dead token' := by
    intro hdying
    obtain ⟨idx', kind, hget', -, hreaped⟩ := hdead token' hdying
    obtain ⟨rfl, rfl⟩ := Tokens.eq_of_nodup hnodup hget hget'
    rw [TokenKind.mailbox, hlive, hnewest] at hreaped
    simp [tokenDead] at hreaped
  have hle := hlatest _ start hcontact
  rw [hsplit] at hget
  rcases lt_trichotomy idx before.length with hlt | rfl | hgt
  · rw [List.getElem?_append_left hlt] at hget
    have hless := htops.1 token' grace' latest count'
      ((hbefore _).mpr ⟨List.mem_of_getElem? hget, hkept⟩)
    omega
  · rw [List.getElem?_append_right le_rfl, Nat.sub_self, List.getElem?_cons_zero] at hget
    cases hget
    rw [hsplit] at hlatest
    refine (Tokens.latest_iff_tops fun grace start' count heq ↦ ?_).mp hlatest
    cases heq
    rfl
  · obtain ⟨k, rfl⟩ := Nat.exists_eq_add_of_lt hgt
    rw [List.getElem?_append_right (by omega), Nat.add_assoc, Nat.add_sub_cancel_left,
      List.getElem?_cons_succ] at hget
    have hless := htops.2 token' grace' latest count'
      ((hafter _).mpr ⟨List.mem_of_getElem? hget, hkept⟩)
    omega

theorem Drops.nodup_keys (h : home.Drops home' dead) (hnodup : home.tokens.keys.Nodup) :
    home'.tokens.keys.Nodup := by
  rw [h.tokens]
  exact hnodup.sublist (List.filter_sublist.map Prod.fst)

/-- When only dead tokens have been dropped, the others are as dead as before. -/
theorem Drops.dying_iff (h : home.Drops home' dead) (hnodup : home.tokens.keys.Nodup)
    (hdead : ∀ token, dead token → home.Dying none token) (which : Option IdentityId)
    (token : Key) : home'.Dying which token ↔ home.Dying which token ∧ ¬dead token := by
  constructor
  · rintro ⟨idx, kind, hget, hreaped⟩
    obtain ⟨before', after', hsplit', rfl⟩ := Tokens.exists_split hget
    obtain ⟨before, after, hsplit, hbefore, hafter, hkept⟩ := h.exists_split hsplit'
    refine ⟨(HomeServer.dying_iff hnodup hsplit).mpr ?_, hkept⟩
    obtain ⟨hmailbox, hgone⟩ := (reaps_iff hsplit').mp hreaped
    rw [h.mailboxes, h.now] at hgone
    refine (reaps_iff hsplit).mpr ⟨hmailbox, hgone.imp_right fun hold ↦ ?_⟩
    cases kind with
    | share mailbox expiresAt burned reserved => exact hold
    | contact owner grace start count => exact ⟨mt (·.mono hbefore hafter) hold.1, hold.2⟩
  · rintro ⟨⟨idx, kind, hget, hreaped⟩, hkept⟩
    obtain ⟨before, after, hsplit, rfl⟩ := Tokens.exists_split hget
    obtain ⟨before', after', hsplit', hbefore, hafter⟩ := h.split hsplit hkept
    refine (HomeServer.dying_iff (h.nodup_keys hnodup) hsplit').mpr ?_
    obtain ⟨hmailbox, hgone⟩ := (reaps_iff hsplit).mp hreaped
    refine (reaps_iff hsplit').mpr ⟨hmailbox, ?_⟩
    rw [h.mailboxes, h.now]
    cases hlive : (home.mailboxes.lookup kind.mailbox).all (·.disabled) with
    | true => exact .inl rfl
    | false =>
      rw [hlive] at hgone
      refine .inr ?_
      have hold := hgone.resolve_left Bool.false_ne_true
      cases kind with
      | share mailbox expiresAt burned reserved => exact hold
      | contact owner grace start count =>
        exact ⟨mt (tops_of_kept hnodup hdead hsplit hbefore hafter hlive) hold.1, hold.2⟩

/-! ## The two sweeps agree -/

/-- `sweep_dead_tokens_for`, once for each identity. -/
def sweepEach (home : HomeServer) (ids : List IdentityId) : HomeServer :=
  ids.foldl (fun home owner ↦ home.sweep (some owner)) home

theorem dying_some_iff {owner : IdentityId} {token : Key} : home.Dying (some owner) token ↔
    ∃ idx kind, home.tokens[idx]? = some (token, kind) ∧ home.Reaps none idx kind ∧
      kind.mailbox = owner := by
  constructor
  · rintro ⟨idx, kind, hget, hmailbox, hgone⟩
    exact ⟨idx, kind, hget, ⟨nofun, hgone⟩, hmailbox owner rfl⟩
  · rintro ⟨idx, kind, hget, ⟨-, hgone⟩, rfl⟩
    exact ⟨idx, kind, hget, fun _ h ↦ Option.mem_some.mp h, hgone⟩

theorem Dying.none {token : Key} (h : home.Dying which token) : home.Dying none token := by
  obtain ⟨idx, kind, hget, -, hgone⟩ := h
  exact ⟨idx, kind, hget, nofun, hgone⟩

/-- One sweep after the other drops what each would drop alone. -/
theorem drops_sweepEach (hnodup : home.tokens.keys.Nodup) (ids : List IdentityId) :
    home.Drops (home.sweepEach ids) fun token ↦ ∃ owner ∈ ids, home.Dying (some owner) token := by
  induction ids using List.reverseRecOn with
  | nil => exact (Drops.refl home).congr fun token ↦ by simp
  | append_singleton ids owner ih =>
    have hdead (token : Key) (h : ∃ owner ∈ ids, home.Dying (some owner) token) :
        home.Dying none token :=
      let ⟨_, _, hdying⟩ := h
      hdying.none
    unfold sweepEach at ih ⊢
    rw [List.foldl_append, List.foldl_cons, List.foldl_nil]
    refine (ih.trans (drops_sweep _ (some owner))).congr fun token ↦ ?_
    rw [ih.dying_iff hnodup hdead]
    simp only [List.mem_append, List.mem_singleton, or_and_right, exists_or, exists_eq_left]
    by_cases hearlier : ∃ owner, owner ∈ ids ∧ home.Dying (some owner) token
    · simp only [hearlier, not_true, and_false, or_false, true_or]
    · simp only [hearlier, not_false_eq_true, and_true]

/-- With every mailbox visited, what is dropped is what the sweep of all drops. -/
theorem drops_sweepEach_all (hnodup : home.tokens.keys.Nodup) {ids : List IdentityId}
    (hids : ∀ entry ∈ home.tokens, entry.2.mailbox ∈ ids) :
    home.Drops (home.sweepEach ids) (home.Dying none) := by
  refine (home.drops_sweepEach hnodup ids).congr fun token ↦ ⟨?_, ?_⟩
  · rintro ⟨owner, -, hdying⟩
    exact hdying.none
  · rintro ⟨idx, kind, hget, hreaped⟩
    exact ⟨kind.mailbox, hids _ (List.mem_of_getElem? hget),
      dying_some_iff.mpr ⟨idx, kind, hget, hreaped, rfl⟩⟩

/-- The result of a sweep, the number of dropped tokens with it. -/
def sweepCount (home : HomeServer) : Option IdentityId → ℕ × HomeServer
  | some owner => home.sweepDeadTokensFor owner
  | none => home.sweepDeadTokens

theorem sweepCount_eq_of_spared (h : ∀ token, ¬home.Dying which token) :
    home.sweepCount which = (0, home) := by
  have hnone : home.deadKeys which = [] :=
    List.eq_nil_iff_forall_not_mem.mpr fun token hmem ↦ h token (mem_deadKeys.mp hmem)
  calc
    home.sweepCount which = home.dropTokensExact (home.deadKeys which) := by
      cases which <;> rfl
    _ = (0, home) := by
      rw [hnone]
      rfl

/-- A sweep leaves nothing for a second one. -/
theorem not_dying_sweep (hnodup : home.tokens.keys.Nodup) (token : Key) :
    ¬(home.sweep which).Dying which token := by
  rw [(drops_sweep home which).dying_iff hnodup fun token h ↦ h.none]
  exact fun h ↦ h.2 h.1

/-- The sweep of all mailboxes leaves what the sweeps of each leave, in any order, and a second sweep
at the same time removes nothing. -/
theorem sweepDeadTokens_agrees (home : HomeServer) (hnodup : home.tokens.keys.Nodup) :
    (∀ ids : List IdentityId, (∀ entry ∈ home.tokens, entry.2.mailbox ∈ ids) →
      home.sweepDeadTokens.2.SameButOrder
        (ids.foldl (fun home owner ↦ (home.sweepDeadTokensFor owner).2) home)) ∧
    home.sweepDeadTokens.2.sweepDeadTokens = (0, home.sweepDeadTokens.2) ∧
    ∀ owner, (home.sweepDeadTokensFor owner).2.sweepDeadTokensFor owner =
      (0, (home.sweepDeadTokensFor owner).2) := by
  refine ⟨fun ids hids ↦ ?_, ?_, fun owner ↦ ?_⟩
  · exact (drops_sweep home none).sameButOrder (home.drops_sweepEach_all hnodup hids)
  · have hspared := sweepCount_eq_of_spared (@not_dying_sweep home none hnodup)
    exact hspared
  · have hspared := sweepCount_eq_of_spared (@not_dying_sweep home (some owner) hnodup)
    exact hspared

set_option maxRecDepth 100000 in
/-- Two mailboxes are swept when a month has passed. -/
theorem sweepDeadTokens_agrees_after_month :
    let crypto := Crypto.transparent
    let owner : Key := .replicate 32 1
    let other : Key := .replicate 32 2
    let home := run (HomeOp.apply crypto) (.withLimits crypto ⟨owner, owner⟩ owner .default)
      [.register owner owner, .register other other, .mintContactCapability owner owner,
        .mintContactCapability owner other, .mintContactCapability other (.replicate 32 3),
        .setNow 1702592101]
    home.sweepDeadTokens.1 = 1 ∧ home.sweepDeadTokens.2.SameButOrder
      ((home.sweepDeadTokensFor other).2.sweepDeadTokensFor owner).2 := by
  intro crypto owner other home
  have hagrees := (home.sweepDeadTokens_agrees (by decide +kernel)).1 [other, owner]
  exact ⟨by decide +kernel, hagrees (by decide +kernel)⟩

end HomeServer

end NemoMessenger.Server
