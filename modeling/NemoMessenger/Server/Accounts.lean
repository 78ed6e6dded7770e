import NemoMessenger.Server.Attempts
import NemoMessenger.Server.Issued

/-!
# The accounts of attempts

A restart forgets the attempts since the last `persist` together with what they did. What a ledger
still has keeps to the rate of each contact capability and to one row for each share token.
-/

namespace NemoMessenger.Server

open NemoMessenger.Data NemoMessenger.Wire

/-! ## Accounts -/

namespace Attempt

variable {log : List Attempt} {attempt : Attempt} {token : Key}

theorem visits_push (log : List Attempt) (attempt : Attempt) (token : Key) :
    visits (log ++ [attempt]) token =
      if attempt.token = token ∧ attempt.atContact = true then visits log token ++ [attempt.visit]
      else visits log token := by
  unfold visits
  rw [List.filter_append, List.map_append, List.filter_singleton]
  by_cases htoken : attempt.token = token <;> cases hcontact : attempt.atContact <;> simp [htoken]

theorem sharedRows_push (log : List Attempt) (attempt : Attempt) (token : Key) :
    sharedRows (log ++ [attempt]) token =
      if attempt.token = token ∧ attempt.atShare = true ∧ attempt.stored = true then
        sharedRows log token ++ [attempt]
      else sharedRows log token := by
  unfold sharedRows
  rw [List.filter_append, List.filter_singleton]
  by_cases htoken : attempt.token = token <;> cases hshare : attempt.atShare <;>
    cases hstored : attempt.stored <;> simp [htoken]

end Attempt

/-- Capabilities and attempts agree: the windows are those the attempts left, and a share token that
stored a row is burned. Nothing was tried at a capability that is still unknown. -/
structure Accounts (find : Key → Option TokenKind) (log : List Attempt) (known : Key → Prop)
    (clock : ℕ) : Prop where
  window : ∀ token mailbox grace start count, find token = some (.contact mailbox grace start count) →
    Metered ratePerMin 60 (Attempt.visits log token) start count ∧ start ≤ clock
  metered : ∀ token, ∃ start count, Metered ratePerMin 60 (Attempt.visits log token) start count
  unburned : ∀ token mailbox expiresAt reserved,
    find token = some (.share mailbox expiresAt false reserved) → Attempt.sharedRows log token = []
  once : ∀ token, (Attempt.sharedRows log token).length ≤ 1
  early : ∀ token, ∀ attempt ∈ Attempt.sharedRows log token, ∃ mailbox expiresAt reserved,
    attempt.kind = some (.share mailbox expiresAt false reserved) ∧ attempt.time < expiresAt
  unknown : ∀ token, ¬known token →
    Attempt.visits log token = [] ∧ Attempt.sharedRows log token = []

namespace Accounts

variable {find find' : Key → Option TokenKind} {log : List Attempt} {known known' : Key → Prop}
  {clock clock' : ℕ}

theorem empty (known : Key → Prop) (clock : ℕ) : Accounts (fun _ ↦ none) [] known clock where
  window _ _ _ _ _ h := by cases h
  metered _ := ⟨0, 0, .fresh 0⟩
  unburned _ _ _ _ h := by cases h
  once _ := Nat.zero_le _
  early _ _ h := by cases h
  unknown _ _ := ⟨rfl, rfl⟩

theorem mono (h : Accounts find log known clock) (hknown : ∀ token, known token → known' token)
    (hclock : clock ≤ clock') : Accounts find log known' clock' :=
  { h with
    window := fun token mailbox grace start count hfind ↦
      ⟨(h.window token mailbox grace start count hfind).1,
        (h.window token mailbox grace start count hfind).2.trans hclock⟩
    unknown := fun token htoken ↦ h.unknown token fun hmem ↦ htoken (hknown token hmem) }

/-- What every capability was, another one with the same window or the same burn may be. -/
theorem change (h : Accounts find log known clock)
    (hcontact : ∀ token mailbox grace start count,
      find' token = some (.contact mailbox grace start count) →
        (∃ mailbox grace, find token = some (.contact mailbox grace start count)) ∨
          ¬known token ∧ start = clock ∧ count = 0)
    (hshare : ∀ token mailbox expiresAt reserved,
      find' token = some (.share mailbox expiresAt false reserved) →
        (∃ mailbox expiresAt reserved,
          find token = some (.share mailbox expiresAt false reserved)) ∨ ¬known token) :
    Accounts find' log known clock :=
  { h with
    window := by
      intro token mailbox grace start count hfind
      rcases hcontact token mailbox grace start count hfind with ⟨_, _, hold⟩ | ⟨hnew, rfl, rfl⟩
      · exact h.window _ _ _ _ _ hold
      · rw [(h.unknown token hnew).1]
        exact ⟨.fresh start, le_rfl⟩
    unburned := by
      intro token mailbox expiresAt reserved hfind
      rcases hshare token mailbox expiresAt reserved hfind with ⟨_, _, _, hold⟩ | hnew
      · exact h.unburned _ _ _ _ hold
      · exact (h.unknown token hnew).2 }

theorem of_find_le (h : Accounts find log known clock)
    (hfind : ∀ token kind, find' token = some kind → find token = some kind) :
    Accounts find' log known clock :=
  h.change (fun _ _ _ _ _ hkind ↦ .inl ⟨_, _, hfind _ _ hkind⟩)
    fun _ _ _ _ hkind ↦ .inl ⟨_, _, _, hfind _ _ hkind⟩

/-- A move keeps windows and burns. -/
theorem move {tokens tokens' : Tokens} (h : Accounts tokens.find log known clock)
    (hnodup : tokens.keys.Nodup) (hmove : TokenMove (¬known ·) clock tokens tokens') :
    Accounts tokens'.find log known clock ∧ tokens'.keys.Nodup := by
  cases hmove with
  | keep => exact ⟨h, hnodup⟩
  | register token kind hfresh hfree hnew =>
    refine ⟨h.change ?_ ?_, ?_⟩
    · intro key mailbox grace start count hfind
      rw [Tokens.find_push] at hfind
      split_ifs at hfind with hkey
      · obtain rfl := Option.some.inj hfind
        exact .inr ⟨hkey ▸ hfresh, hnew⟩
      · exact .inl ⟨mailbox, grace, hfind⟩
    · intro key mailbox expiresAt reserved hfind
      rw [Tokens.find_push] at hfind
      split_ifs at hfind with hkey
      · exact .inr (hkey ▸ hfresh)
      · exact .inl ⟨mailbox, expiresAt, reserved, hfind⟩
    · rw [Tokens.keys, List.map_append]
      exact hnodup.append (List.nodup_singleton _) (by simpa using hfree)
  | drop keeps =>
    refine ⟨h.of_find_le fun token kind hfind ↦ ?_,
      hnodup.sublist (List.filter_sublist.map Prod.fst)⟩
    exact Tokens.find_eq_some_of_mem hnodup (List.mem_of_mem_filter (Tokens.mem_of_find hfind))
  | @regrace token mailbox grace start count grace' hold =>
    refine ⟨h.change ?_ ?_, (Tokens.keys_set ..).symm ▸ hnodup⟩
    · intro key mailbox' grace'' start' count' hfind
      rw [Tokens.find_set, hold] at hfind
      split_ifs at hfind with hkey
      · cases hfind
        exact .inl ⟨_, _, hkey ▸ hold⟩
      · exact .inl ⟨_, _, hfind⟩
    · intro key mailbox' expiresAt reserved hfind
      rw [Tokens.find_set, hold] at hfind
      split_ifs at hfind with hkey
      · cases hfind
      · exact .inl ⟨_, _, _, hfind⟩
  | @reserve token mailbox expiresAt burned blob hold =>
    refine ⟨h.change ?_ ?_, (Tokens.keys_set ..).symm ▸ hnodup⟩
    · intro key mailbox' grace start count hfind
      rw [Tokens.find_set, hold] at hfind
      split_ifs at hfind with hkey
      · cases hfind
      · exact .inl ⟨_, _, hfind⟩
    · intro key mailbox' expiresAt' reserved hfind
      rw [Tokens.find_set, hold] at hfind
      split_ifs at hfind with hkey
      · cases hfind
        exact .inl ⟨_, _, _, hkey ▸ hold⟩
      · exact .inl ⟨_, _, _, hfind⟩

/-- Another log with the same visits and rows. -/
theorem congr (h : Accounts find log known clock) {log' : List Attempt}
    (hvisits : Attempt.visits log' = Attempt.visits log)
    (hrows : Attempt.sharedRows log' = Attempt.sharedRows log) :
    Accounts find log' known clock where
  window := hvisits ▸ h.window
  metered := hvisits ▸ h.metered
  unburned := hrows ▸ h.unburned
  once := hrows ▸ h.once
  early := hrows ▸ h.early
  unknown token htoken := hvisits ▸ hrows ▸ h.unknown token htoken

/-- An attempt at an unknown capability. -/
theorem push_unknown (h : Accounts find log known clock) {attempt : Attempt}
    (hkind : attempt.kind = none) : Accounts find (log ++ [attempt]) known clock := by
  have hcontact : attempt.atContact = false := by rw [Attempt.atContact, hkind]
  have hshare : attempt.atShare = false := by rw [Attempt.atShare, hkind]
  apply h.congr
  · funext token
    simp [Attempt.visits_push, hcontact]
  · funext token
    simp [Attempt.sharedRows_push, hshare]

/-- An attempt at a share token. -/
theorem push_share (h : Accounts find log known clock) {attempt : Attempt} {mailbox : IdentityId}
    {expiresAt : ℕ} {burned : Bool} {reserved : Option Bytes}
    (hkind : attempt.kind = some (.share mailbox expiresAt burned reserved))
    (hfind : find attempt.token = attempt.kind) (hknown : known attempt.token)
    (hafter : (attempt.stored = false ∧ find' = find) ∨
      (attempt.stored = true ∧ burned = false ∧ attempt.time < expiresAt ∧
        ∀ key, find' key = if key = attempt.token then
          some (.share mailbox expiresAt true reserved) else find key)) :
    Accounts find' (log ++ [attempt]) known clock := by
  have hcontact : attempt.atContact = false := by rw [Attempt.atContact, hkind]
  have hshare : attempt.atShare = true := by rw [Attempt.atShare, hkind]
  have hvisits : Attempt.visits (log ++ [attempt]) = Attempt.visits log := by
    funext token
    simp [Attempt.visits_push, hcontact]
  rcases hafter with ⟨hstored, rfl⟩ | ⟨hstored, rfl, htime, hchange⟩
  · refine h.congr hvisits ?_
    funext token
    simp [Attempt.sharedRows_push, hstored]
  have hrows (token : Key) : Attempt.sharedRows (log ++ [attempt]) token =
      if attempt.token = token then Attempt.sharedRows log token ++ [attempt]
      else Attempt.sharedRows log token := by
    simp [Attempt.sharedRows_push, hshare, hstored]
  have hfirst : Attempt.sharedRows log attempt.token = [] :=
    h.unburned _ _ _ _ (hfind.trans hkind)
  refine ⟨fun token mailbox' grace start count hcap ↦ ?_, hvisits ▸ h.metered,
    fun token mailbox' expiresAt' reserved' hcap ↦ ?_, fun token ↦ ?_, fun token ↦ ?_,
    fun token htoken ↦ ?_⟩
  · rw [hchange] at hcap
    split_ifs at hcap
    · cases hcap
    · rw [hvisits]
      exact h.window token mailbox' grace start count hcap
  · rw [hchange] at hcap
    split_ifs at hcap with htoken
    · cases hcap
    · rw [hrows, if_neg (Ne.symm htoken)]
      exact h.unburned token mailbox' expiresAt' reserved' hcap
  · rw [hrows]
    split_ifs with hsame
    · rw [← hsame, hfirst]
      exact le_rfl
    · exact h.once token
  · rw [hrows]
    split_ifs with hsame
    · rw [← hsame, hfirst]
      intro attempt' hmem
      obtain rfl := List.mem_singleton.mp hmem
      exact ⟨mailbox, expiresAt, reserved, hkind, htime⟩
    · exact h.early token
  · have hne : attempt.token ≠ token := fun heq ↦ htoken (heq ▸ hknown)
    rw [hvisits, hrows, if_neg hne]
    exact h.unknown token htoken

/-- An attempt at a contact capability. -/
theorem push_contact (h : Accounts find log known clock) {attempt : Attempt} {mailbox : IdentityId}
    {grace : Option ℕ} {start count start' count' : ℕ}
    (hkind : attempt.kind = some (.contact mailbox grace start count))
    (hfind : find attempt.token = attempt.kind) (hknown : known attempt.token)
    (hchange : ∀ key, find' key = if key = attempt.token then
      some (.contact mailbox grace start' count') else find key) (hstart : start' ≤ clock)
    (hvisit : Metered ratePerMin 60 (Attempt.visits log attempt.token) start count →
      start ≤ clock → Metered ratePerMin 60
        (Attempt.visits log attempt.token ++ [attempt.visit]) start' count') :
    Accounts find' (log ++ [attempt]) known clock := by
  have hcontact : attempt.atContact = true := by rw [Attempt.atContact, hkind]
  have hshare : attempt.atShare = false := by rw [Attempt.atShare, hkind]
  have hrows : Attempt.sharedRows (log ++ [attempt]) = Attempt.sharedRows log := by
    funext token
    simp [Attempt.sharedRows_push, hshare]
  have hvisits (token : Key) : Attempt.visits (log ++ [attempt]) token =
      if attempt.token = token then Attempt.visits log token ++ [attempt.visit]
      else Attempt.visits log token := by
    simp [Attempt.visits_push, hcontact]
  obtain ⟨hmetered, hold⟩ := h.window _ _ _ _ _ (hfind.trans hkind)
  have hpushed := hvisit hmetered hold
  refine ⟨fun token mailbox' grace' start'' count'' hcap ↦ ?_, fun token ↦ ?_,
    fun token mailbox' expiresAt reserved hcap ↦ ?_, hrows ▸ h.once, hrows ▸ h.early,
    fun token htoken ↦ ?_⟩
  · rw [hchange] at hcap
    split_ifs at hcap with htoken
    · cases hcap
      rw [hvisits, if_pos htoken.symm, htoken]
      exact ⟨hpushed, hstart⟩
    · rw [hvisits, if_neg (Ne.symm htoken)]
      exact h.window token mailbox' grace' start'' count'' hcap
  · rw [hvisits]
    split_ifs with htoken
    · exact ⟨start', count', htoken ▸ hpushed⟩
    · exact h.metered token
  · rw [hchange] at hcap
    split_ifs at hcap
    · cases hcap
    · rw [hrows]
      exact h.unburned token mailbox' expiresAt reserved hcap
  · have hne : attempt.token ≠ token := fun heq ↦ htoken (heq ▸ hknown)
    rw [hvisits, if_neg hne, hrows]
    exact h.unknown token htoken

theorem attempt {mid : HomeServer} (h : Accounts mid.tokens.find log known mid.now)
    (inner : InnerEnvelope) (hissued : ¬known inner.deliveryCapability →
      mid.tokens.find inner.deliveryCapability = none) :
    Accounts (mid.appendInner inner).2.tokens.find (log ++ [mid.attempt inner]) known mid.now := by
  have hkind : (mid.attempt inner).kind = mid.tokens.find inner.deliveryCapability := rfl
  cases hfind : mid.tokens.find inner.deliveryCapability with
  | none =>
    rw [find_appendInner_none hfind]
    exact h.push_unknown (hkind.trans hfind)
  | some kind =>
    have hknown : known inner.deliveryCapability := by
      by_contra hnew
      rw [hissued hnew] at hfind
      cases hfind
    cases kind with
    | share mailbox expiresAt burned reserved =>
      exact h.push_share (hkind.trans hfind) hkind.symm hknown (find_appendInner_share hfind)
    | contact mailbox grace start count =>
      rcases find_appendInner_contact hfind with ⟨hgranted, hresets, hsame⟩ | ⟨hgrace, hroom, hafter⟩
      · rw [hsame]
        refine h.push_contact (hkind.trans hfind) hkind.symm hknown (fun key ↦ ?_)
          (h.window _ _ _ _ _ hfind).2 fun hmetered _ ↦ hmetered.refused _ hresets hgranted
        split_ifs with hkey
        · rw [hkey]
          exact hfind
        · rfl
      · have hresets : (mid.attempt inner).resets = decide (mid.now - start ≥ 60) := by
          unfold Attempt.resets HomeServer.attempt
          rw [hfind]
          dsimp only
          rw [hgrace]
          rfl
        by_cases hold : mid.now - start ≥ 60
        · rw [HomeServer.window, if_pos hold] at hafter
          refine h.push_contact (hkind.trans hfind) hkind.symm hknown hafter le_rfl
            fun hmetered _ ↦ hmetered.opened _ ?_ (by decide) ?_
          · exact hresets.trans (decide_eq_true hold)
          · change start + 60 ≤ mid.now
            omega
        · rw [HomeServer.window, if_neg hold] at hafter hroom
          refine h.push_contact (hkind.trans hfind) hkind.symm hknown hafter
            (h.window _ _ _ _ _ hfind).2 fun hmetered hstart ↦ hmetered.counted _ ?_ hroom hstart ?_
          · exact hresets.trans (decide_eq_false hold)
          · change mid.now < start + 60
            omega

end Accounts

/-! ## Operations -/

theorem now_appendInner (home : HomeServer) (inner : InnerEnvelope) :
    (home.appendInner inner).2.now = home.now := by
  rcases home.appendInner_cases inner with
    ⟨_, _, _, h⟩ | ⟨_, _, _, _, -, -, -, ⟨_, -, h⟩ | ⟨_, -, -, h⟩⟩ <;> rw [h]

section Tracked

variable {fresh : Key → Prop} {home home' : HomeServer} {attempts : List Attempt}

/-- Moves and attempts keep the accounts. -/
theorem Tracked.accounts {known : Key → Prop} {log : List Attempt}
    (h : Tracked (¬known ·) home attempts home')
    (hhome : Accounts home.tokens.find log known home.now) (hnodup : home.tokens.keys.Nodup) :
    Accounts home'.tokens.find (log ++ attempts) known home'.now ∧ home'.tokens.keys.Nodup ∧
      home'.now = home.now := by
  induction h with
  | start => exact ⟨(List.append_nil log).symm ▸ hhome, hnodup, rfl⟩
  | move _ hbeside hmove ih =>
    obtain ⟨hmid, hdistinct, htime⟩ := ih
    rw [hbeside.now]
    exact ⟨(hmid.move hdistinct hmove).1, (hmid.move hdistinct hmove).2, htime⟩
  | attempt _ inner hissued ih =>
    obtain ⟨hmid, hdistinct, htime⟩ := ih
    rw [now_appendInner, ← List.append_assoc]
    exact ⟨hmid.attempt inner hissued, (keys_appendInner _ inner).symm ▸ hdistinct, htime⟩

end Tracked

/-! ## Runs -/

/-- Runs with their ledgers of attempts. The clock never goes back, and new capabilities get new
keys. -/
inductive Audited (crypto : Crypto) : Node → Ledger Attempt → ℕ → Prop
  | fresh (hpke : HpkeKeypair) (sign : Key) (limits : Limits) :
    Audited crypto (.fresh crypto hpke sign limits) .blank 0
  | clock {node : Node} {ledger : Ledger Attempt} {clock : ℕ} (h : Audited crypto node ledger clock)
    (now : UInt64) (hclock : clock ≤ now.toNat) :
    Audited crypto (NodeOp.apply crypto node (.home (.setNow now))) ledger now.toNat
  | home {node : Node} {ledger : Ledger Attempt} {clock : ℕ} (h : Audited crypto node ledger clock)
    (op : HomeOp) (attempts : List Attempt) (hmeets : op.Meets crypto ledger.newKeys node.home)
    (hclock : clock ≤ node.home.now)
    (hattempts : Tracked (· ∉ ledger.keys) node.home attempts (op.apply crypto node.home)) :
    Audited crypto (NodeOp.apply crypto node (.home op))
      (ledger.record attempts (op.apply crypto node.home)) node.home.now
  | group {node : Node} {ledger : Ledger Attempt} {clock : ℕ} (h : Audited crypto node ledger clock)
    (op : GroupOp) : Audited crypto (NodeOp.apply crypto node (.group op)) ledger clock
  | persist {node : Node} {ledger : Ledger Attempt} {clock : ℕ}
    (h : Audited crypto node ledger clock) (fault : Bool) :
    Audited crypto (NodeOp.apply crypto node (.persist fault))
      (ledger.save (node.persist fault).1) clock
  | reload {node : Node} {ledger : Ledger Attempt} {clock : ℕ}
    (h : Audited crypto node ledger clock) :
    Audited crypto (NodeOp.apply crypto node .reload)
      (ledger.restart (node.db.Loads crypto node.home)) clock

/-- Memory and database agree with the accounts of the ledger. -/
abbrev Balanced (node : Node) (ledger : Ledger Attempt) (clock : ℕ) : Prop :=
  ledger.Keeps (fun log keys find _ ↦ Accounts find log (· ∈ keys) clock) node

section Balanced

variable {crypto : Crypto} {node : Node} {ledger : Ledger Attempt} {clock clock' : ℕ}

theorem Balanced.later (h : Balanced node ledger clock) (hclock : clock ≤ clock') :
    Balanced node ledger clock' :=
  h.imp fun _ _ _ _ haccounts ↦ haccounts.mono (fun _ ↦ id) hclock

theorem Balanced.home (h : Balanced node ledger clock) {op : HomeOp} {attempts : List Attempt}
    (hmeets : op.Meets crypto ledger.newKeys node.home) (hclock : clock ≤ node.home.now)
    (hattempts : Tracked (· ∉ ledger.keys) node.home attempts (op.apply crypto node.home)) :
    Balanced { node with home := op.apply crypto node.home }
      (ledger.record attempts (op.apply crypto node.home)) node.home.now := by
  have hlater := h.later hclock
  obtain ⟨haccounts, -, hnow⟩ := hattempts.accounts hlater.memory.holds hlater.synced.nodup
  rw [hnow] at haccounts
  exact Ledger.Keeps.home hlater hmeets (haccounts.mono (fun _ ↦ List.mem_append_left _) le_rfl)

theorem Audited.balanced (h : Audited crypto node ledger clock) : Balanced node ledger clock := by
  induction h with
  | fresh hpke sign limits => exact Ledger.keeps_blank crypto hpke sign limits (.empty _ _)
  | clock _ now hclock ih =>
    have hlater := Balanced.later ih hclock
    exact ⟨⟨hlater.synced.nodup, hlater.synced.tokens, hlater.synced.prekeys⟩, hlater.memory,
      hlater.stored⟩
  | home _ op attempts hmeets hclock hattempts ih => exact Balanced.home ih hmeets hclock hattempts
  | group _ op ih => exact ⟨ih.synced, ih.memory, ih.stored⟩
  | persist _ fault ih => exact Ledger.Keeps.persist ih fault
  | reload _ ih => exact Ledger.Keeps.reload ih

/-- Every operation but the clock's goes on, once the clock has caught up. -/
theorem Audited.continues (h : Audited crypto node ledger clock) (op : HomeOp)
    (hop : ∀ now, op ≠ .setNow now) (hmeets : op.Meets crypto ledger.newKeys node.home)
    (hclock : clock ≤ node.home.now) :
    ∃ attempts, Audited crypto (NodeOp.apply crypto node (.home op))
      (ledger.record attempts (op.apply crypto node.home)) node.home.now := by
  have hfree : node.home.Free (· ∉ ledger.keys) :=
    fun _ hfresh hmem ↦ hfresh (Ledger.Keeps.subset h.balanced hmem)
  have hfresh (tokens : Tokens) (token : Key) (owner : IdentityId)
      (hnew : ledger.newKeys.registers tokens token owner) : token ∉ ledger.keys := hnew.2
  obtain ⟨attempts, hattempts⟩ := (manages_tracks crypto hfresh).apply hmeets hop hfree
  exact ⟨attempts, h.home op attempts hmeets hclock hattempts⟩

/-- `append_inner` is one attempt. -/
theorem Audited.attempt (h : Audited crypto node ledger clock) (inner : InnerEnvelope)
    (hknown : inner.deliveryCapability ∈ ledger.keys) (hclock : clock ≤ node.home.now) :
    Audited crypto { node with home := (node.home.appendInner inner).2 }
      (ledger.record [node.home.attempt inner] (node.home.appendInner inner).2) node.home.now :=
  h.home (.appendInner inner) [node.home.attempt inner] nofun hclock
    (Tracked.start.attempt inner fun hnew ↦ absurd hknown hnew)

/-! ## The limits -/

/-- Along a run no window of a contact capability grants more than its limit, windows open at least
a width apart, and no stretch of one width sees more than twice the limit. A share token stores at
most one row, before it expires. -/
theorem appends_limited (h : Audited crypto node ledger clock) (token : Key) :
    (∀ seg, seg <:+: Attempt.visits ledger.log token →
        (∀ visit ∈ seg.tail, visit.opens = false) → (Visit.grants seg).length ≤ ratePerMin) ∧
      ((Attempt.visits ledger.log token).filter (·.opens)).Pairwise
        (fun before after ↦ before.time + 60 ≤ after.time) ∧
      (∀ first, (Visit.grantsBetween first (first + 60)
        (Attempt.visits ledger.log token)).length ≤ 2 * ratePerMin) ∧
      (Attempt.sharedRows ledger.log token).length ≤ 1 ∧
      ∀ attempt ∈ Attempt.sharedRows ledger.log token, ∃ mailbox expiresAt reserved,
        attempt.kind = some (.share mailbox expiresAt false reserved) ∧
          attempt.time < expiresAt := by
  have haccounts := h.balanced.memory.holds
  obtain ⟨start, count, hmetered⟩ := haccounts.metered token
  refine ⟨fun seg hseg hopens ↦ hmetered.length_grants_infix hseg hopens, hmetered.pairwise_opens,
    fun first ↦ (hmetered.length_grantsBetween (by decide) first).2.2, haccounts.once token,
    haccounts.early token⟩

/-- An identity with a share token and a contact capability. -/
def HomeServer.withTokens (key cap : Key) : HomeServer :=
  run (HomeOp.apply .transparent) (.withLimits .transparent ⟨key, key⟩ key .default)
    [.register key key, .registerShareToken key key none, .mintContactCapability key cap]

set_option maxRecDepth 100000 in
theorem audited_withTokens (key cap : Key) (hkey : key = .replicate 32 1)
    (hcap : cap = .replicate 32 2) :
    ∃ ledger, Audited .transparent ⟨HomeServer.withTokens key cap, .new, .empty⟩ ledger
        (HomeServer.withTokens key cap).now ∧ ledger.log = [] ∧ key ∈ ledger.keys ∧
      cap ∈ ledger.keys := by
  subst hkey hcap
  have hfresh : Audited .transparent
      (.fresh .transparent ⟨.replicate 32 1, .replicate 32 1⟩ (.replicate 32 1) .default) _ _ :=
    .fresh ⟨.replicate 32 1, .replicate 32 1⟩ (.replicate 32 1) .default
  have hregistered := hfresh.home (.register (.replicate 32 1) (.replicate 32 1)) [] trivial
    (by decide +kernel) (.move .start ⟨rfl, rfl⟩ .keep)
  have hshared := hregistered.home
    (.registerShareToken (.replicate 32 1) (.replicate 32 1) none) []
    (fun _ _ ↦ ⟨by decide +kernel, by decide +kernel⟩) (by decide +kernel)
    (.move .start ⟨rfl, rfl⟩
      (.register (.replicate 32 1) _ (by decide +kernel) (by decide +kernel) ⟨rfl, rfl⟩))
  have hminted := hshared.home (.mintContactCapability (.replicate 32 1) (.replicate 32 2)) []
    (fun _ ↦ ⟨by decide +kernel, by decide +kernel⟩) (by decide +kernel)
    (.move .start ⟨rfl, rfl⟩
      (.register (.replicate 32 2) _ (by decide +kernel) (by decide +kernel) ⟨rfl, rfl⟩))
  exact ⟨_, hminted, rfl, by decide +kernel, by decide +kernel⟩

/-- The state of the accounts goes through a save. -/
theorem Audited.saved (h : Audited crypto node ledger clock) (fault : Bool) :
    ∃ ledger', Audited crypto (node.persist fault).2 ledger' clock ∧ ledger'.log = ledger.log ∧
      ledger'.keys = ledger.keys := by
  refine ⟨_, h.persist fault, ?_, ?_⟩ <;> cases (node.persist fault).1 <;> rfl

set_option maxRecDepth 100000 in
theorem HomeServer.withTokens_attempts (key cap : Key) (hkey : key = .replicate 32 1)
    (hcap : cap = .replicate 32 2) :
    let home := HomeServer.withTokens key cap
    let second : InnerEnvelope := .blank key (.replicate 32 2)
    let third : InnerEnvelope := .blank key (.replicate 32 3)
    let saved := (Node.persist ⟨(home.appendInner (.blank cap key)).2, .new, .empty⟩ false).2.home
    let attempts := [home.attempt (.blank cap key), saved.attempt second,
      (saved.appendInner second).2.attempt third]
    attempts.map (·.stored) = [true, true, false] ∧ (Attempt.visits attempts cap).length = 1 ∧
      home.now ≤ saved.now ∧ saved.now ≤ (saved.appendInner second).2.now := by
  subst hkey hcap
  decide +kernel

/-- A contact capability stores a row and the server is persisted. Then a share token stores its row,
and refuses a second envelope. -/
theorem appends_limited_of_burned_token :
    let key : Key := .replicate 32 1
    let cap : Key := .replicate 32 2
    let home := HomeServer.withTokens key cap
    let first : InnerEnvelope := .blank cap key
    let second : InnerEnvelope := .blank key (.replicate 32 2)
    let third : InnerEnvelope := .blank key (.replicate 32 3)
    let saved := (Node.persist ⟨(home.appendInner first).2, .new, .empty⟩ false).2.home
    let attempts := [home.attempt first, saved.attempt second,
      (saved.appendInner second).2.attempt third]
    attempts.map (·.stored) = [true, true, false] ∧
      (Attempt.visits attempts cap).length = 1 ∧
      (Visit.grantsBetween home.now (home.now + 60) (Attempt.visits attempts cap)).length ≤
        2 * ratePerMin ∧
      (Attempt.sharedRows attempts key).length ≤ 1 := by
  intro key cap
  obtain ⟨hstored, hvisits, hlater⟩ := HomeServer.withTokens_attempts key cap rfl rfl
  obtain ⟨ledger, hstart, hlog, hkey, hcap⟩ := audited_withTokens key cap rfl rfl
  generalize HomeServer.withTokens key cap = home at hstored hvisits hlater hstart ⊢
  intro _ first second third saved attempts
  refine ⟨hstored, hvisits, ?_⟩
  have hfirst := hstart.attempt first hcap le_rfl
  obtain ⟨ledger', hsaved, hlog', hkeys'⟩ := hfirst.saved false
  have hknown : key ∈ ledger'.keys := by
    rw [hkeys']
    exact List.mem_append_left _ hkey
  have hsecond := hsaved.attempt second hknown hlater.1
  have hthird := hsecond.attempt third (List.mem_append_left _ hknown) hlater.2
  have hall : ledger'.log = [home.attempt first] := by
    rw [hlog', Ledger.record, hlog]
    rfl
  have hlimited (token : Key) := appends_limited hthird token
  simp only [Ledger.record, hall, List.cons_append, List.nil_append] at hlimited
  exact ⟨(hlimited cap).2.2.1 home.now, (hlimited key).2.2.2.1⟩

set_option maxRecDepth 100000 in
/-- A share token is burned after the last `persist`; the restart forgets it, and the token stores a
second row. -/
theorem burned_token_stores_again :
    let crypto := Crypto.transparent
    let key : Key := .replicate 32 1
    let store := NodeOp.home (.appendInner (.blank key key))
    let node := run (NodeOp.apply crypto) (Node.fresh crypto ⟨key, key⟩ key .default)
      [.home (.rebindHost ⟨"local", by decide⟩ 8443), .home (.setNow 1700000000),
        .home (.register key key), .home (.registerShareToken key key none), .persist false, store,
        .reload, .home (.setNow 1700000000), store]
    node.home.history.appended.map (fun row ↦ row.2.inner.deliveryCapability) = [key, key] := by
  decide +kernel

end Balanced

end NemoMessenger.Server
