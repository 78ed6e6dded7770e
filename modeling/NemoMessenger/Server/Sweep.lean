import NemoMessenger.Server.Copies
import NemoMessenger.Server.Tombstone
import Mathlib.Data.List.Induction

/-!
# What a sweep removes

A sweep keeps one contact capability of a mailbox whatever its age: the one with the latest window
start. That is the one used last, and not the one minted last.
-/

namespace NemoMessenger.Server

open NemoMessenger.Data NemoMessenger.Wire

/-! ## The survivor -/

/-- The visit of one token in `newest_contact_idx_for`. -/
def newestVisit (owner : IdentityId) (best : Option (ℕ × ℕ)) (entry : (Key × TokenKind) × ℕ) :
    Option (ℕ × ℕ) :=
  match entry.1.2 with
  | .contact mailbox _ windowStart _ =>
    if mailbox ≠ owner then best
    else
      match best with
      | none => some (entry.2, windowStart)
      | some (bestIdx, bestStart) =>
        if windowStart > bestStart ∨ (windowStart = bestStart ∧ entry.2 > bestIdx) then
          some (entry.2, windowStart)
        else best
  | .share .. => best

/-- The capability at an index is a contact capability of a mailbox with a window start. -/
def Tokens.ContactAt (tokens : Tokens) (owner : IdentityId) (idx start : ℕ) : Prop :=
  ∃ token grace count, tokens[idx]? = some (token, .contact owner grace start count)

/-- No contact capability of the mailbox has a later window start, or the same one further back. -/
def Tokens.Latest (tokens : Tokens) (owner : IdentityId) (idx start : ℕ) : Prop :=
  ∀ idx' start', tokens.ContactAt owner idx' start' →
    start' < start ∨ (start' = start ∧ idx' ≤ idx)

theorem Tokens.contactAt_push {tokens : Tokens} {entry : Key × TokenKind} {owner : IdentityId}
    {idx start : ℕ} : Tokens.ContactAt (tokens ++ [entry]) owner idx start ↔
      tokens.ContactAt owner idx start ∨
        idx = tokens.length ∧ ∃ grace count, entry.2 = .contact owner grace start count := by
  unfold ContactAt
  rcases lt_trichotomy idx tokens.length with hlt | heq | hgt
  · rw [List.getElem?_append_left hlt]
    exact ⟨.inl, fun h ↦ h.resolve_right fun h ↦ absurd h.1 (by omega)⟩
  · subst heq
    obtain ⟨token, kind⟩ := entry
    simp
  · have hout : (tokens ++ [entry])[idx]? = none := by
      rw [List.getElem?_eq_none]
      simp only [List.length_append, List.length_singleton]
      omega
    rw [hout, List.getElem?_eq_none (by omega)]
    constructor
    · rintro ⟨_, _, _, h⟩
      cases h
    · rintro (⟨_, _, _, h⟩ | ⟨h, -⟩)
      · cases h
      · omega

theorem Tokens.ContactAt.lt_length {tokens : Tokens} {owner : IdentityId} {idx start : ℕ}
    (h : tokens.ContactAt owner idx start) : idx < tokens.length := by
  obtain ⟨_, _, _, h⟩ := h
  exact (List.getElem?_eq_some_iff.mp h).1

theorem Tokens.contactAt_push_other {tokens : Tokens} {entry : Key × TokenKind}
    {owner : IdentityId} (h : ∀ grace start count, entry.2 ≠ .contact owner grace start count)
    {idx start : ℕ} : Tokens.ContactAt (tokens ++ [entry]) owner idx start ↔
      tokens.ContactAt owner idx start := by
  rw [contactAt_push]
  exact or_iff_left fun ⟨_, grace, count, hkind⟩ ↦ h grace start count hkind

theorem Tokens.contactAt_push_own {tokens : Tokens} {token : Key} {owner : IdentityId}
    {grace : Option ℕ} {windowStart count idx start : ℕ} :
    Tokens.ContactAt (tokens ++ [(token, .contact owner grace windowStart count)]) owner idx start ↔
      tokens.ContactAt owner idx start ∨ idx = tokens.length ∧ start = windowStart := by
  rw [contactAt_push]
  simp [eq_comm]

/-- The fold over the tokens ends with the latest contact capability of the mailbox. -/
theorem foldl_newestVisit (tokens : Tokens) (owner : IdentityId) :
    match tokens.zipIdx.foldl (newestVisit owner) none with
    | none => ∀ idx start, ¬ tokens.ContactAt owner idx start
    | some (idx, start) => tokens.ContactAt owner idx start ∧ tokens.Latest owner idx start := by
  unfold Tokens at tokens
  induction tokens using List.reverseRecOn with
  | nil =>
    rintro idx start ⟨_, _, _, h⟩
    cases h
  | append_singleton tokens entry ih =>
    rw [List.zipIdx_append, List.foldl_append]
    generalize tokens.zipIdx.foldl (newestVisit owner) none = best at ih
    have hbound {idx start : ℕ} (h : Tokens.ContactAt tokens owner idx start) :=
      h.lt_length
    obtain ⟨token, kind⟩ := entry
    simp only [Nat.zero_add, List.zipIdx_singleton, List.foldl_cons, List.foldl_nil]
    cases kind with
    | share mailbox expiresAt burned reserved =>
      have hother (idx start : ℕ) := @Tokens.contactAt_push_other tokens
        (token, .share mailbox expiresAt burned reserved) owner (fun _ _ _ h ↦ by cases h) idx start
      simpa only [newestVisit, Tokens.Latest, hother] using ih
    | contact mailbox grace windowStart count =>
      by_cases hmailbox : mailbox = owner
      · subst hmailbox
        simp only [newestVisit, ne_eq, not_true, if_false, Tokens.Latest,
          Tokens.contactAt_push_own]
        cases best with
        | none =>
          refine ⟨.inr ⟨rfl, rfl⟩, ?_⟩
          rintro idx' start' (h | ⟨rfl, rfl⟩)
          · exact absurd h (ih idx' start')
          · exact .inr ⟨rfl, le_rfl⟩
        | some best =>
          obtain ⟨bestIdx, bestStart⟩ := best
          dsimp only at ih ⊢
          have hlt := hbound ih.1
          split_ifs with hlater
          · refine ⟨.inr ⟨rfl, rfl⟩, ?_⟩
            rintro idx' start' (h | ⟨rfl, rfl⟩)
            · have := ih.2 idx' start' h
              have := hbound h
              omega
            · exact .inr ⟨rfl, le_rfl⟩
          · refine ⟨.inl ih.1, ?_⟩
            rintro idx' start' (h | ⟨rfl, rfl⟩)
            · exact ih.2 idx' start' h
            · omega
      · have hother (idx start : ℕ) := @Tokens.contactAt_push_other tokens
          (token, .contact mailbox grace windowStart count) owner
          (fun _ _ _ h ↦ hmailbox (congrArg TokenKind.mailbox h)) idx start
        simpa only [newestVisit, ne_eq, hmailbox, not_false_eq_true, if_true, Tokens.Latest,
          hother] using ih

/-- The visit of one token in `sweep_dead_tokens`. -/
def survivorVisit (acc : FiniteMap IdentityId ℕ × FiniteMap IdentityId ℕ)
    (entry : (Key × TokenKind) × ℕ) : FiniteMap IdentityId ℕ × FiniteMap IdentityId ℕ :=
  match entry.1.2 with
  | .contact mailbox _ windowStart _ =>
    let keep := match acc.2.lookup mailbox with
      | none => true
      | some start => decide (windowStart > start) || decide (windowStart = start)
    if keep then (acc.1.insert mailbox entry.2, acc.2.insert mailbox windowStart) else acc
  | .share .. => acc

/-- The fold for all mailboxes keeps for each what the fold for that mailbox keeps. -/
theorem foldl_survivorVisit (tokens : Tokens) (owner : IdentityId) :
    let best := tokens.zipIdx.foldl (newestVisit owner) none
    let acc := tokens.zipIdx.foldl survivorVisit (∅, ∅)
    acc.1.lookup owner = best.map Prod.fst ∧ acc.2.lookup owner = best.map Prod.snd := by
  unfold Tokens at tokens
  induction tokens using List.reverseRecOn with
  | nil => exact ⟨rfl, rfl⟩
  | append_singleton tokens entry ih =>
    have hbest := foldl_newestVisit tokens owner
    simp only [List.zipIdx_append, List.foldl_append, Nat.zero_add, List.zipIdx_singleton,
      List.foldl_cons, List.foldl_nil]
    generalize tokens.zipIdx.foldl (newestVisit owner) none = best at ih hbest
    generalize tokens.zipIdx.foldl survivorVisit (∅, ∅) = acc at ih
    obtain ⟨token, kind⟩ := entry
    cases kind with
    | share mailbox expiresAt burned reserved => exact ih
    | contact mailbox grace windowStart count =>
      by_cases hmailbox : mailbox = owner
      · subst hmailbox
        simp only [survivorVisit, newestVisit, ne_eq, not_true, if_false]
        rw [ih.2]
        cases best with
        | none => simp
        | some best =>
          obtain ⟨bestIdx, bestStart⟩ := best
          have hlt := hbest.1.lt_length
          have hiff : (windowStart > bestStart ∨ windowStart = bestStart ∧ tokens.length > bestIdx) ↔
              (decide (windowStart > bestStart) || decide (windowStart = bestStart)) = true := by
            simp [hlt]
          simp only [Option.map_some, hiff]
          split_ifs
          · simp
          · exact ih
      · simp only [survivorVisit, newestVisit, ne_eq, hmailbox, not_false_eq_true, if_true]
        split_ifs
        · simp only [FiniteMap.lookup_insert_ite, if_neg (Ne.symm hmailbox)]
          exact ih
        · exact ih

/-! ## Sweeps -/

namespace HomeServer

variable {home : HomeServer}

theorem lookup_sweepSurvivors (home : HomeServer) (owner : IdentityId) :
    (sweepSurvivors home.tokens).1.lookup owner = home.newestContactIdxFor owner :=
  (foldl_survivorVisit home.tokens owner).1

/-- The survivor is the latest contact capability. -/
theorem newestContactIdxFor_eq_some_iff {owner : IdentityId} {idx start : ℕ}
    (h : home.tokens.ContactAt owner idx start) :
    home.newestContactIdxFor owner = some idx ↔ home.tokens.Latest owner idx start := by
  have hbest := foldl_newestVisit home.tokens owner
  change (home.tokens.zipIdx.foldl (newestVisit owner) none).map Prod.fst = some idx ↔ _
  generalize home.tokens.zipIdx.foldl (newestVisit owner) none = best at hbest
  cases best with
  | none => exact absurd h (hbest idx start)
  | some best =>
    obtain ⟨bestIdx, bestStart⟩ := best
    obtain ⟨hcontact, hlatest⟩ := hbest
    rw [Option.map_some, Option.some.injEq]
    constructor
    · rintro rfl
      obtain ⟨_, _, _, hstart⟩ := h
      obtain ⟨_, _, _, hbestStart⟩ := hcontact
      rw [hstart] at hbestStart
      cases hbestStart
      exact hlatest
    · intro hown
      have hle := hlatest idx start h
      have hge := hown bestIdx bestStart hcontact
      dsimp only
      omega

/-- A sweep of one mailbox, or of all. -/
def sweep (home : HomeServer) : Option IdentityId → HomeServer
  | some owner => (home.sweepDeadTokensFor owner).2
  | none => home.sweepDeadTokens.2

/-- A sweep removes the capability at an index. -/
def Reaps (home : HomeServer) (which : Option IdentityId) (idx : ℕ) (kind : TokenKind) : Prop :=
  (∀ owner ∈ which, kind.mailbox = owner) ∧
    ((home.mailboxes.lookup kind.mailbox).all (·.disabled) = true ∨
      tokenDead kind (home.newestContactIdxFor kind.mailbox = some idx) home.now = true)

/-- The keys a sweep drops. -/
def deadKeys (home : HomeServer) : Option IdentityId → List Key
  | some owner => home.tokens.zipIdx.filterMap fun entry ↦
    let ((token, kind), idx) := entry
    if kind.mailbox ≠ owner then none
    else if (home.mailboxes.lookup owner).all (·.disabled) then some token
    else if tokenDead kind (some idx = home.newestContactIdxFor owner) home.now then some token
    else none
  | none => home.tokens.zipIdx.filterMap fun entry ↦
    let ((token, kind), idx) := entry
    if (home.mailboxes.lookup kind.mailbox).all (·.disabled) then some token
    else if tokenDead kind ((sweepSurvivors home.tokens).1.lookup kind.mailbox = some idx)
      home.now then some token
    else none

theorem sweep_eq (home : HomeServer) (which : Option IdentityId) :
    home.sweep which = (home.dropTokensExact (home.deadKeys which)).2 := by
  cases which <;> rfl

/-- The keys a sweep drops are those of the capabilities it removes. -/
theorem mem_deadKeys {which : Option IdentityId} {token : Key} : token ∈ home.deadKeys which ↔
    ∃ idx kind, home.tokens[idx]? = some (token, kind) ∧ home.Reaps which idx kind := by
  cases which with
  | some owner =>
    simp only [deadKeys, List.mem_filterMap, Prod.exists, List.mem_zipIdx_iff_getElem?]
    constructor
    · rintro ⟨token, kind, idx, hget, hkind⟩
      split_ifs at hkind with hmailbox hdisabled hdead
      · rw [not_not] at hmailbox
        obtain rfl := Option.some.inj hkind
        refine ⟨idx, kind, hget, fun _ h ↦ ?_, .inl (hmailbox ▸ hdisabled)⟩
        rw [hmailbox, Option.mem_some.mp h]
      · rw [not_not] at hmailbox
        obtain rfl := Option.some.inj hkind
        refine ⟨idx, kind, hget, fun _ h ↦ ?_, .inr ?_⟩
        · rw [hmailbox, Option.mem_some.mp h]
        · simpa only [hmailbox, eq_comm] using hdead
    · rintro ⟨idx, kind, hget, hmailbox, hreaped⟩
      refine ⟨token, kind, idx, hget, ?_⟩
      obtain rfl := hmailbox owner rfl
      rw [if_neg (not_not.mpr rfl)]
      rcases hreaped with hdisabled | hdead
      · rw [if_pos hdisabled]
      · simp only [eq_comm (a := some idx), hdead, if_true, ite_self]
  | none =>
    simp only [deadKeys, List.mem_filterMap, Prod.exists, List.mem_zipIdx_iff_getElem?,
      lookup_sweepSurvivors]
    constructor
    · rintro ⟨token, kind, idx, hget, hkind⟩
      split_ifs at hkind with hdisabled hdead
      · obtain rfl := Option.some.inj hkind
        exact ⟨idx, kind, hget, nofun, .inl hdisabled⟩
      · obtain rfl := Option.some.inj hkind
        exact ⟨idx, kind, hget, nofun, .inr hdead⟩
    · rintro ⟨idx, kind, hget, -, hreaped⟩
      refine ⟨token, kind, idx, hget, ?_⟩
      rcases hreaped with hdisabled | hdead
      · rw [if_pos hdisabled]
      · rw [if_pos hdead, ite_self]

theorem tokens_dropTokensExact (home : HomeServer) (dead : List Key) :
    (home.dropTokensExact dead).2.tokens = home.tokens.filter fun entry ↦ entry.1 ∉ dead := by
  unfold dropTokensExact
  split_ifs with hdead
  · rw [List.isEmpty_iff.mp hdead]
    simp
  · rfl

/-- What a sweep keeps. -/
theorem mem_sweep_iff {which : Option IdentityId} {entry : Key × TokenKind} :
    entry ∈ (home.sweep which).tokens ↔ entry ∈ home.tokens ∧
      ∀ idx kind, home.tokens[idx]? = some (entry.1, kind) → ¬ home.Reaps which idx kind := by
  rw [sweep_eq, tokens_dropTokensExact, List.mem_filter, decide_eq_true_eq, mem_deadKeys]
  push Not
  rfl

/-- A sweep touches tokens and their journal only. -/
theorem sweep_frame (home : HomeServer) (which : Option IdentityId) :
    ∃ tokens dirty, home.sweep which = { home with tokens, dirty } := by
  rw [sweep_eq, dropTokensExact]
  split_ifs <;> exact ⟨_, _, rfl⟩

theorem requireMailbox_eq_ok {owner : IdentityId} : home.requireMailbox owner = .ok () ↔
    (home.mailboxes.lookup owner).map Mailbox.disabled = some false := by
  unfold requireMailbox
  cases home.mailboxes.lookup owner with
  | none => simp
  | some box => cases hdisabled : box.disabled <;> simp [hdisabled]

/-! ## After a rotation -/

/-- The old capability of a rotation is dead from its deadline on. Until then it is there. -/
structure Rotated (home : HomeServer) (owner : IdentityId) (old : Key) (deadline : ℕ) : Prop where
  live : home.requireMailbox owner = .ok ()
  standing : ∀ kind, (old, kind) ∈ home.tokens → kind.standing = (owner, some (some deadline))
  held : home.now < deadline → old ∈ home.tokens.keys

namespace Rotated

variable {home' : HomeServer} {owner : IdentityId} {old : Key} {deadline : ℕ}

theorem congr (h : home.Rotated owner old deadline) (htokens : home'.tokens = home.tokens)
    (hnow : home.now ≤ home'.now) (hlive : (home'.mailboxes.lookup owner).map Mailbox.disabled =
      (home.mailboxes.lookup owner).map Mailbox.disabled) : home'.Rotated owner old deadline where
  live := requireMailbox_eq_ok.mpr (hlive.trans (requireMailbox_eq_ok.mp h.live))
  standing := htokens ▸ h.standing
  held hlt := htokens ▸ h.held (lt_of_le_of_lt hnow hlt)

theorem push (h : home.Rotated owner old deadline) {token : Key} (kind : TokenKind)
    (hne : token ≠ old) : (home.pushToken token kind).Rotated owner old deadline where
  live := h.live
  standing kind' hkind' := by
    rcases List.mem_append.mp hkind' with hmem | hmem
    · exact h.standing kind' hmem
    · exact absurd (congrArg Prod.fst (List.mem_singleton.mp hmem)).symm hne
  held hlt := by
    obtain ⟨entry, hentry, hkey⟩ := List.mem_map.mp (h.held hlt)
    exact List.mem_map.mpr ⟨entry, List.mem_append_left _ hentry, hkey⟩

theorem set (h : home.Rotated owner old deadline) {token : Key} {kind : TokenKind}
    (hkind : token = old → kind.standing = (owner, some (some deadline))) :
    (home.setToken token kind).Rotated owner old deadline where
  live := h.live
  standing kind' hkind' := by
    rcases Tokens.mem_set hkind' with hmem | hmem
    · exact h.standing kind' hmem
    · obtain ⟨rfl, rfl⟩ := Prod.mk.inj hmem
      exact hkind rfl
  held hlt := (Tokens.keys_set token kind home.tokens).symm ▸ h.held hlt

/-- A use of a token changes no standing. -/
theorem use (h : home.Rotated owner old deadline) {token : Key} {kind kind' : TokenKind}
    (hfind : home.tokens.find token = some kind) (hsame : kind'.standing = kind.standing) :
    (home.setToken token kind').Rotated owner old deadline := by
  apply h.set
  rintro rfl
  rw [hsame]
  exact h.standing kind (Tokens.mem_of_find hfind)

theorem sweep (h : home.Rotated owner old deadline) (which : Option IdentityId) :
    (home.sweep which).Rotated owner old deadline := by
  obtain ⟨tokens, dirty, hframe⟩ := home.sweep_frame which
  refine ⟨?_, fun kind hkind ↦ h.standing kind (mem_sweep_iff.mp hkind).1, fun hlt ↦ ?_⟩
  · rw [hframe]
    exact h.live
  · rw [hframe] at hlt
    obtain ⟨⟨_, kind⟩, hentry, rfl⟩ := List.mem_map.mp (h.held hlt)
    refine List.mem_map.mpr ⟨(_, kind), mem_sweep_iff.mpr ⟨hentry, ?_⟩, rfl⟩
    rintro idx kind' hget ⟨-, hreaped⟩
    have hstanding := h.standing kind' (List.mem_of_getElem? hget)
    cases kind' with
    | share => cases hstanding
    | contact mailbox grace start count =>
      cases hstanding
      rcases hreaped with hdisabled | hdead
      · have hlive := requireMailbox_eq_ok.mp h.live
        obtain ⟨box, hbox, hopen⟩ := Option.map_eq_some_iff.mp hlive
        rw [TokenKind.mailbox, hbox] at hdisabled
        rw [Option.all_some, hopen] at hdisabled
        cases hdisabled
      · have hgrace : (some deadline).any (home.now < ·) = true := by simpa using hlt
        rw [tokenDead, hgrace, if_pos rfl, ite_self] at hdead
        cases hdead

theorem authorizeAppend (h : home.Rotated owner old deadline) (token : Key) :
    (home.authorizeAppend token).2.Rotated owner old deadline := by
  unfold HomeServer.authorizeAppend
  dsimp only
  split
  · split_ifs <;> exact h
  · rename_i hfind
    split_ifs
    all_goals first
      | exact h
      | exact h.use hfind rfl
  · exact h

theorem burnIfShare (h : home.Rotated owner old deadline) (token : Key) :
    (home.burnIfShare token).Rotated owner old deadline := by
  unfold HomeServer.burnIfShare
  split
  · rename_i hfind
    split_ifs
    · exact h
    · exact h.use hfind rfl
  · exact h

theorem storeRow (h : home.Rotated owner old deadline) {mailbox : IdentityId} {box : Mailbox}
    (hbox : home.mailboxes.lookup mailbox = some box) (inner : InnerEnvelope) (size : ℕ) :
    (home.storeRow mailbox box inner size).Rotated owner old deadline := by
  refine h.congr rfl le_rfl ?_
  rw [HomeServer.storeRow, FiniteMap.lookup_insert_ite]
  split_ifs with howner
  · rw [howner, hbox]
    rfl
  · rfl

theorem gcMailbox (h : home.Rotated owner old deadline) (mailbox : IdentityId) :
    (home.gcMailbox mailbox).Rotated owner old deadline := by
  unfold HomeServer.gcMailbox
  split
  · exact h
  · rename_i box hbox
    obtain ⟨hgc, -⟩ := Mailbox.gc_spec box home.now home.limits.mailboxMaxAgeSecs
      home.limits.mailboxMaxBytes
    have hcollected (history : History) (dirty : HomeDirty) : Rotated
        { home with
          mailboxes := home.mailboxes.insert mailbox
            (box.gc home.now home.limits.mailboxMaxAgeSecs home.limits.mailboxMaxBytes).1
          history
          dirty } owner old deadline := by
      refine h.congr rfl le_rfl ?_
      dsimp only
      rw [FiniteMap.lookup_insert_ite]
      split_ifs with howner
      · rw [howner, hbox, hgc, Option.map_some, Option.map_some,
          Mailbox.foldl_removeRow_eq Mailbox.removeRow_disabled]
      · rfl
    dsimp only
    split <;> exact hcollected _ _

theorem appendInner (h : home.Rotated owner old deadline) (inner : InnerEnvelope) :
    (home.appendInner inner).2.Rotated owner old deadline := by
  have hauth := h.authorizeAppend inner.deliveryCapability
  unfold HomeServer.appendInner
  split
  · rename_i heq
    rwa [heq] at hauth
  · rename_i mailbox authorized heq
    rw [heq] at hauth
    split
    · exact hauth
    · rename_i box hbox
      split
      · exact hauth
      · split
        · exact hauth
        · exact ((hauth.storeRow hbox inner _).burnIfShare _).gcMailbox mailbox

theorem ingest (h : home.Rotated owner old deadline) (crypto : Crypto) (outer : OuterEnvelope) :
    (home.ingest crypto outer).2.Rotated owner old deadline := by
  unfold HomeServer.ingest
  split
  · exact h
  · split
    · exact h.congr rfl le_rfl rfl
    · split
      · exact h
      · rename_i inner hopen
        have happend := h.appendInner inner
        split
        · rename_i heq
          rwa [heq] at happend
        · rename_i heq
          rw [heq] at happend
          exact happend.congr rfl le_rfl rfl

/-- Whether the old capability still authorises appends is a matter of time, and of its rate. -/
theorem authorizeAppend_eq (h : home.Rotated owner old deadline) :
    (home.authorizeAppend old).1 =
      if home.now < deadline ∧ 0 < home.allowance old then .ok owner else .error .denied := by
  cases hfind : home.tokens.find old with
  | none =>
    have hlate : ¬ home.now < deadline :=
      fun hlt ↦ Tokens.find_eq_none_iff.mp hfind (h.held hlt)
    rw [if_neg fun hlive ↦ hlate hlive.1, HomeServer.authorizeAppend, hfind]
  | some kind =>
    have hstanding := h.standing kind (Tokens.mem_of_find hfind)
    cases kind with
    | share => cases hstanding
    | contact mailbox grace start count =>
      cases hstanding
      obtain ⟨box, hbox, hopen⟩ := Option.map_eq_some_iff.mp (requireMailbox_eq_ok.mp h.live)
      by_cases hlt : home.now < deadline
      · have hgrace : (some deadline).any (home.now ≥ ·) = false := by simpa using hlt
        have hallowance : home.allowance old = ratePerMin - (home.window start count).2 := by
          rw [allowance, hfind]
        rw [authorizeAppend_of_contact hfind hgrace hbox hopen, hallowance]
        by_cases hfull : (home.window start count).2 ≥ ratePerMin
        · rw [if_pos hfull, if_neg (by omega)]
        · rw [if_neg hfull, if_pos ⟨hlt, by omega⟩]
      · have hgrace : (some deadline).any (home.now ≥ ·) = true := by simpa using hlt
        rw [if_neg fun hlive ↦ hlt hlive.1, HomeServer.authorizeAppend, hfind]
        dsimp only
        rw [hgrace, if_pos rfl]

end Rotated

end HomeServer

/-- The operations on capabilities: the clock does not go back, no token gets the key of the old
capability, and while that is there its owner confirms its rotation again at the same time only. -/
def HomeOp.RotatesOnce (owner : IdentityId) (old : Key) (time : ℕ) (home : HomeServer) :
    HomeOp → Prop
  | setNow now => home.now ≤ now.toNat
  | registerShareToken _ token _ => token ≠ old
  | mintShareToken _ _ random => random ≠ old
  | mintContactCapability _ random => random ≠ old
  | rotateContact owner' old' confirm random => random ≠ old ∧
    (owner' = owner → old' = old → confirm = true →
      old ∈ (home.sweepDeadTokensFor owner).2.tokens.keys → home.now = time)
  | ingest _ | appendInner _ | sweepDeadTokensFor _ | sweepDeadTokens | recordTokenSweep => True
  | _ => False

theorem HomeServer.mintContactCapability_eq_ok {home minted : HomeServer} {owner : IdentityId}
    {random token : Key} (h : home.mintContactCapability owner random = (.ok token, minted)) :
    minted.tokens = (home.sweepDeadTokensFor owner).2.tokens ++
        [(random, .contact owner none home.now 0)] ∧ minted.now = home.now ∧
      minted.mailboxes = home.mailboxes := by
  obtain ⟨tokens, dirty, hframe⟩ := home.sweep_frame (some owner)
  unfold mintContactCapability at h
  split at h
  · cases h
  · obtain rfl := congrArg Prod.snd h
    change (home.sweep (some owner)).tokens ++ [(random, .contact owner none
      (home.sweep (some owner)).now 0)] = (home.sweep (some owner)).tokens ++ _ ∧
      (home.sweep (some owner)).now = home.now ∧
      (home.sweep (some owner)).mailboxes = home.mailboxes
    rw [hframe]
    exact ⟨rfl, rfl, rfl⟩

namespace HomeServer.Rotated

variable {home : HomeServer} {owner : IdentityId} {old : Key} {deadline : ℕ}

theorem registerShareToken (h : home.Rotated owner old deadline) (owner' : IdentityId)
    {token : Key} (hne : token ≠ old) (ttlSecs : Option UInt64) :
    (home.registerShareToken owner' token ttlSecs).2.Rotated owner old deadline := by
  unfold HomeServer.registerShareToken
  split
  · exact h
  · dsimp only
    split
    · exact h
    · exact h.push _ hne

theorem mintContactCapability (h : home.Rotated owner old deadline) (owner' : IdentityId)
    {random : Key} (hne : random ≠ old) :
    (home.mintContactCapability owner' random).2.Rotated owner old deadline := by
  unfold HomeServer.mintContactCapability
  split
  · exact h
  · exact (h.sweep (some owner')).push _ hne

theorem rotateContact (h : home.Rotated owner old deadline) {time : ℕ}
    (hdeadline : wrappingAdd time contactGraceSecs = deadline) {owner' : IdentityId}
    {old' random : Key} {confirm : Bool}
    (hop : (HomeOp.rotateContact owner' old' confirm random).RotatesOnce owner old time home) :
    (home.rotateContact owner' old' confirm random).2.Rotated owner old deadline := by
  obtain ⟨hne, honce⟩ := hop
  have hmint := h.mintContactCapability owner' hne
  unfold HomeServer.rotateContact
  split
  · rename_i heq
    rwa [heq] at hmint
  · rename_i token minted heq
    rw [heq] at hmint
    obtain ⟨hminted, hnow, -⟩ := mintContactCapability_eq_ok heq
    dsimp only at hmint ⊢
    split_ifs with hconfirm
    · split
      · rename_i mailbox grace start count hfind
        split_ifs with hmailbox
        · apply hmint.set
          rintro rfl
          have hmem := Tokens.mem_of_find hfind
          have hown : mailbox = owner := congrArg Prod.fst (hmint.standing _ hmem)
          have hkept : old' ∈ (home.sweepDeadTokensFor owner).2.tokens.keys := by
            rw [hminted] at hmem
            rcases List.mem_append.mp hmem with hmem | hmem
            · exact hown ▸ hmailbox ▸ List.mem_map_of_mem hmem
            · exact absurd (congrArg Prod.fst (List.mem_singleton.mp hmem)).symm hne
          have htime := honce (hmailbox.symm.trans hown) rfl hconfirm hkept
          rw [TokenKind.standing, hnow, htime, hdeadline, hown]
        · exact hmint
      · exact hmint
    · exact hmint

theorem apply (h : home.Rotated owner old deadline) {time : ℕ}
    (hdeadline : wrappingAdd time contactGraceSecs = deadline) (crypto : Crypto) {op : HomeOp}
    (hop : op.RotatesOnce owner old time home) :
    (op.apply crypto home).Rotated owner old deadline := by
  cases op with
  | setNow now => exact h.congr rfl hop rfl
  | registerShareToken owner' token ttlSecs => exact h.registerShareToken owner' hop ttlSecs
  | mintShareToken owner' ttlSecs random =>
    have hregister := h.registerShareToken owner' hop ttlSecs
    change (home.mintShareToken owner' ttlSecs random).2.Rotated owner old deadline
    unfold HomeServer.mintShareToken
    split <;> rename_i heq <;> rwa [heq] at hregister
  | mintContactCapability owner' random => exact h.mintContactCapability owner' hop
  | rotateContact owner' old' confirm random => exact h.rotateContact hdeadline hop
  | ingest outer => exact h.ingest crypto outer
  | appendInner inner => exact h.appendInner inner
  | sweepDeadTokensFor owner' => exact h.sweep (some owner')
  | sweepDeadTokens => exact h.sweep none
  | recordTokenSweep => exact h.congr rfl le_rfl rfl
  | _ => cases hop

theorem run (h : home.Rotated owner old deadline) {time : ℕ}
    (hdeadline : wrappingAdd time contactGraceSecs = deadline) {crypto : Crypto}
    {ops : List HomeOp} (hops : Allowed (HomeOp.apply crypto)
      (fun s op ↦ op.RotatesOnce owner old time s) home ops) :
    (Data.run (HomeOp.apply crypto) home ops).Rotated owner old deadline :=
  run_invariant (fun s ↦ s.Rotated owner old deadline)
    (fun _ _ hop hs ↦ hs.apply hdeadline crypto hop) hops h

end HomeServer.Rotated

/-! ## Mints -/

/-- The contact capability minted last for each mailbox. -/
abbrev LastMinted := IdentityId → Option Key

/-- The capabilities minted last after an operation. -/
def HomeOp.minted (home : HomeServer) (last : LastMinted) : HomeOp → LastMinted
  | mintContactCapability owner random | rotateContact owner _ _ random =>
    match home.requireMailbox owner with
    | .ok () => fun m ↦ if m = owner then some random else last m
    | .error _ => last
  | _ => last

/-- An operation on a server whose mints are recorded. -/
def HomeOp.record (crypto : Crypto) (s : HomeServer × LastMinted) (op : HomeOp) :
    HomeServer × LastMinted :=
  (op.apply crypto s.1, op.minted s.1 s.2)

/-- An operation on a node whose mints are recorded, over restarts too. -/
def NodeOp.record (crypto : Crypto) (s : Node × LastMinted) (op : NodeOp) : Node × LastMinted :=
  (op.apply crypto s.1, match op with
    | .home op => op.minted s.1.home s.2
    | _ => s.2)

/-- The servers operations can reach, with the capabilities minted last. -/
inductive Minting (crypto : Crypto) : HomeServer → LastMinted → Prop
  | fresh (hpke : HpkeKeypair) (sign : Key) (limits : Limits) :
    Minting crypto (.withLimits crypto hpke sign limits) fun _ ↦ none
  | restarted (hpke : HpkeKeypair) (sign : Key) (host : Text) (s2sPort : UInt16)
    (ops : List NodeOp)
    (hops : Allowed (NodeOp.apply crypto) NodeOp.Admissible
      (Node.first crypto hpke sign host s2sPort) ops) :
    Minting crypto
      { (run (NodeOp.record crypto) (Node.first crypto hpke sign host s2sPort, fun _ ↦ none)
          ops).1.home with
        history := {} }
      (run (NodeOp.record crypto) (Node.first crypto hpke sign host s2sPort, fun _ ↦ none) ops).2
  | step {home : HomeServer} {last : LastMinted} (op : HomeOp) (h : Minting crypto home last) :
    Minting crypto (op.apply crypto home) (op.minted home last)

section Minting

variable {crypto : Crypto} {home : HomeServer} {last : LastMinted}

theorem NodeOp.run_record (node : Node) (ops : List NodeOp) :
    (run (NodeOp.record crypto) (node, last) ops).1 = run (NodeOp.apply crypto) node ops := by
  induction ops generalizing node last with
  | nil => rfl
  | cons op ops ih => exact ih (op.apply crypto node)

theorem Minting.reachable (h : Minting crypto home last) : Reachable crypto home := by
  induction h with
  | fresh hpke sign limits => exact .fresh hpke sign limits
  | restarted hpke sign host s2sPort ops hops =>
    rw [NodeOp.run_record]
    exact .restarted hpke sign host s2sPort ops hops
  | step op _ ih => exact .step op ih

theorem Minting.run (h : Minting crypto home last) (ops : List HomeOp) :
    Minting crypto (Data.run (HomeOp.record crypto) (home, last) ops).1
      (Data.run (HomeOp.record crypto) (home, last) ops).2 := by
  induction ops generalizing home last with
  | nil => exact h
  | cons op ops ih => exact ih (.step op h)

/-- The mailboxes of all tokens are enabled. -/
theorem Reachable.requireMailbox (h : Reachable crypto home) {entry : Key × TokenKind}
    (hentry : entry ∈ home.tokens) : home.requireMailbox entry.2.mailbox = .ok () := by
  have hknown : ∀ entry ∈ home.tokens, (home.mailboxes.lookup entry.2.mailbox).isSome := by
    clear hentry entry
    induction h with
    | fresh => exact fun _ h ↦ by cases h
    | restarted hpke sign host s2sPort ops hops =>
      exact (Node.Recoverable.run hops
        (Node.recoverable_first crypto hpke sign host s2sPort)).homeValid.tokenMailbox
    | @step before op _ ih =>
      refine Chain.keeps
        (fun s ↦ ∀ entry ∈ s.tokens, (s.mailboxes.lookup entry.2.mailbox).isSome)
        (fun s s' hedit hs ↦ ?_) (op.apply_edits crypto .none before (op.meets_none crypto before))
        ih
      refine hedit.tokenEdit.forall_mem (P := fun _ m ↦ (s'.mailboxes.lookup m).isSome) ?_ ?_
      · exact fun _ _ _ _ hlive ↦ hedit.isSome_mailbox (HomeServer.isSome_of_requireMailbox hlive)
      · exact fun entry hentry ↦ hedit.isSome_mailbox (hs entry hentry)
  obtain ⟨box, hbox⟩ := Option.isSome_iff_exists.mp (hknown entry hentry)
  rw [HomeServer.requireMailbox_eq_ok, hbox, Option.map_some, Option.some.injEq,
    ← Bool.not_eq_true]
  intro hdisabled
  have hburied := h.tombstones.1 entry.2.mailbox (by
    rw [HomeServer.mailboxDisabled, hbox]
    exact hdisabled)
  exact hburied.tokens entry hentry rfl

end Minting

/-! ## What sweeps and rotations keep -/

/-- A share token that an append could still use, or a contact capability in its grace period. -/
def TokenKind.Usable (now : ℕ) : TokenKind → Prop
  | share _ expiresAt burned _ => burned = false ∧ now < expiresAt
  | contact _ graceUntil _ _ => ∃ grace ∈ graceUntil, now < grace

/-- A contact capability is in its grace period, not idle, or the latest of its mailbox. -/
def HomeServer.Spares (home : HomeServer) (owner : IdentityId) (idx : ℕ) (grace : Option ℕ)
    (start : ℕ) : Prop :=
  (∃ until_ ∈ grace, home.now < until_) ∨ home.now - start ≤ contactCapIdleSecs ∨
    home.tokens.Latest owner idx start

section Sweeps

variable {crypto : Crypto} {home : HomeServer}

theorem Tokens.eq_of_nodup {tokens : Tokens} (hnodup : tokens.keys.Nodup) {token : Key}
    {kind kind' : TokenKind} {idx idx' : ℕ} (hget : tokens[idx]? = some (token, kind))
    (hget' : tokens[idx']? = some (token, kind')) : idx' = idx ∧ kind' = kind := by
  have hkey (i : ℕ) : tokens.keys[i]? = tokens[i]?.map Prod.fst := List.getElem?_map
  have hidx : idx' = idx := by
    refine (List.getElem?_inj ?_ hnodup).mp ?_
    · rw [keys, List.length_map]
      exact (List.getElem?_eq_some_iff.mp hget').1
    · rw [hkey, hkey, hget, hget']
      rfl
  subst hidx
  rw [hget] at hget'
  cases hget'
  exact ⟨rfl, rfl⟩

/-- No sweep removes what can be used. -/
theorem HomeServer.mem_sweep_of_usable (hnodup : home.tokens.keys.Nodup)
    (hclock : home.now < 2 ^ 64) {entry : Key × TokenKind} (hentry : entry ∈ home.tokens)
    (hlive : home.requireMailbox entry.2.mailbox = .ok ()) (husable : entry.2.Usable home.now)
    (which : Option IdentityId) : entry ∈ (home.sweep which).tokens := by
  refine HomeServer.mem_sweep_iff.mpr ⟨hentry, ?_⟩
  rintro idx kind hget ⟨-, hreaped⟩
  obtain ⟨i, hi⟩ := List.mem_iff_getElem?.mp hentry
  obtain rfl := (Tokens.eq_of_nodup hnodup hi hget).2
  rcases hreaped with hdisabled | hdead
  · obtain ⟨box, hbox, hopen⟩ :=
      Option.map_eq_some_iff.mp (HomeServer.requireMailbox_eq_ok.mp hlive)
    rw [hbox, Option.all_some, hopen] at hdisabled
    cases hdisabled
  · obtain ⟨token, kind⟩ := entry
    cases kind with
    | share mailbox expiresAt burned reserved =>
      have hlt : home.now < expiresAt := husable.2
      simp only [tokenDead, shareTokenDead, saturatingAdd, u64Max, gt_iff_lt, decide_eq_true_eq,
        inf_lt_iff] at hdead
      omega
    | contact mailbox grace start count =>
      obtain ⟨until_, huntil, hlt⟩ := husable
      rw [Option.mem_def.mp huntil, tokenDead] at hdead
      simp [hlt] at hdead

/-- No sweep removes a contact capability exactly when it is spared. -/
theorem HomeServer.forall_mem_sweep_iff (hnodup : home.tokens.keys.Nodup) {token : Key}
    {owner : IdentityId} {idx start count : ℕ} {grace : Option ℕ}
    (hget : home.tokens[idx]? = some (token, .contact owner grace start count))
    (hlive : home.requireMailbox owner = .ok ()) :
    (∀ which, (token, .contact owner grace start count) ∈ (home.sweep which).tokens) ↔
      home.Spares owner idx grace start := by
  have hcontact : home.tokens.ContactAt owner idx start := ⟨token, grace, count, hget⟩
  have hopen : (home.mailboxes.lookup owner).all (·.disabled) = false := by
    obtain ⟨box, hbox, hopen⟩ :=
      Option.map_eq_some_iff.mp (HomeServer.requireMailbox_eq_ok.mp hlive)
    rw [hbox, Option.all_some, hopen]
  have hdead : tokenDead (.contact owner grace start count)
      (home.newestContactIdxFor owner = some idx) home.now = false ↔
        home.Spares owner idx grace start := by
    have hgrace : grace.any (home.now < ·) = true ↔ ∃ until_ ∈ grace, home.now < until_ := by
      simp [Option.any_eq_true]
    have hnewest := HomeServer.newestContactIdxFor_eq_some_iff hcontact
    rw [HomeServer.Spares, ← hgrace, tokenDead, contactTokenDead]
    by_cases hlatest : home.tokens.Latest owner idx start
    · simp [hnewest.mpr hlatest, hlatest]
    · cases grace.any (home.now < ·) <;> simp [mt hnewest.mp hlatest, hlatest]
  rw [← hdead]
  constructor
  · intro h
    obtain ⟨-, hkept⟩ := HomeServer.mem_sweep_iff.mp (h none)
    rw [← Bool.not_eq_true]
    exact fun hreaped ↦ hkept idx _ hget ⟨nofun, .inr hreaped⟩
  · intro hspared which
    refine HomeServer.mem_sweep_iff.mpr ⟨List.mem_of_getElem? hget, ?_⟩
    rintro idx' kind' hget' ⟨-, hreaped⟩
    obtain ⟨rfl, rfl⟩ := Tokens.eq_of_nodup hnodup hget hget'
    rcases hreaped with hdisabled | hreaped
    · rw [TokenKind.mailbox, hopen] at hdisabled
      cases hdisabled
    · rw [TokenKind.mailbox, hspared] at hreaped
      cases hreaped

/-- A confirmed rotation of a spared capability. -/
theorem HomeServer.rotated_rotateContact (hnodup : home.tokens.keys.Nodup) {old random : Key}
    {owner : IdentityId} {idx start count : ℕ} {grace : Option ℕ}
    (hget : home.tokens[idx]? = some (old, .contact owner grace start count))
    (hlive : home.requireMailbox owner = .ok ()) (hspared : home.Spares owner idx grace start)
    (hrandom : random ∉ home.tokens.keys) :
    (home.rotateContact owner old true random).1 = .ok random ∧
      (home.rotateContact owner old true random).2.Rotated owner old
        (wrappingAdd home.now contactGraceSecs) := by
  have hkept := (HomeServer.forall_mem_sweep_iff hnodup hget hlive).mpr hspared (some owner)
  obtain ⟨minted, hmint⟩ : ∃ minted, home.mintContactCapability owner random =
      (.ok random, minted) := by
    rw [HomeServer.mintContactCapability, hlive]
    exact ⟨_, rfl⟩
  obtain ⟨htokens, hnow, hmailboxes⟩ := HomeServer.mintContactCapability_eq_ok hmint
  have hlive' : minted.requireMailbox owner = .ok () := by
    rw [HomeServer.requireMailbox, hmailboxes]
    exact hlive
  have hkeys : minted.tokens.keys.Nodup := by
    have hsub : (home.sweepDeadTokensFor owner).2.tokens.keys.Sublist home.tokens.keys := by
      rw [HomeServer.sweepDeadTokensFor, HomeServer.tokens_dropTokensExact]
      exact List.filter_sublist.map Prod.fst
    rw [htokens, Tokens.keys, List.map_append]
    exact (hnodup.sublist hsub).append (List.nodup_singleton _)
      (by simpa using fun h ↦ hrandom (hsub.subset h))
  have hfind : minted.tokens.find old = some (.contact owner grace start count) := by
    refine Tokens.find_eq_some_of_mem hkeys ?_
    rw [htokens]
    exact List.mem_append_left _ hkept
  have hresult : home.rotateContact owner old true random = (.ok random,
      minted.setToken old (.contact owner (some (wrappingAdd minted.now contactGraceSecs))
        start count)) := by
    rw [HomeServer.rotateContact, hmint]
    dsimp only
    rw [if_pos rfl, hfind]
    exact if_pos rfl
  rw [hresult, hnow]
  refine ⟨rfl, hlive', fun kind hkind ↦ ?_, fun _ ↦ ?_⟩
  · have hset : (minted.tokens.set old _).find old = some kind :=
      Tokens.find_eq_some_of_mem ((Tokens.keys_set _ _ _).symm ▸ hkeys) hkind
    rw [Tokens.find_set, if_pos rfl, hfind] at hset
    cases hset
    rfl
  · change old ∈ (minted.tokens.set old _).keys
    rw [Tokens.keys_set, htokens]
    exact List.mem_map_of_mem (List.mem_append_left _ hkept)

/-- Sweeps keep every token that can be used, and the contact capability minted last exactly when it
is in its grace period, not idle, or the latest in use. A confirmed rotation of a capability that is
spared leaves it valid until its deadline and never again, unless its owner confirms a rotation of
it again. -/
theorem sweeps_and_rotations (crypto : Crypto) (home : HomeServer) (last : LastMinted)
    (h : Minting crypto home last) (hnodup : home.tokens.keys.Nodup)
    (hclock : home.now < 2 ^ 64) :
    (∀ entry ∈ home.tokens, entry.2.Usable home.now →
      ∀ which, entry ∈ (home.sweep which).tokens) ∧
    (∀ owner token idx grace start count, last owner = some token →
      home.tokens[idx]? = some (token, .contact owner grace start count) →
        ((∀ which, (token, .contact owner grace start count) ∈ (home.sweep which).tokens) ↔
          home.Spares owner idx grace start)) ∧
    ∀ owner old random idx grace start count,
      home.tokens[idx]? = some (old, .contact owner grace start count) →
      home.Spares owner idx grace start → random ∉ home.tokens.keys →
      home.now + contactGraceSecs < 2 ^ 64 →
        (home.rotateContact owner old true random).1 = .ok random ∧
          ∀ later, Allowed (HomeOp.apply crypto)
              (fun s op ↦ op.RotatesOnce owner old home.now s)
              (home.rotateContact owner old true random).2 later →
            let s := run (HomeOp.apply crypto) (home.rotateContact owner old true random).2 later
            (s.authorizeAppend old).1 =
              if s.now < home.now + contactGraceSecs ∧ 0 < s.allowance old then .ok owner
              else .error .denied := by
  have hlive {entry : Key × TokenKind} (hentry : entry ∈ home.tokens) :=
    h.reachable.requireMailbox hentry
  refine ⟨?_, ?_, ?_⟩
  · intro entry hentry husable which
    exact HomeServer.mem_sweep_of_usable hnodup hclock hentry (hlive hentry) husable which
  · intro owner token idx grace start count _ hget
    exact HomeServer.forall_mem_sweep_iff hnodup hget (hlive (List.mem_of_getElem? hget))
  · intro owner old random idx grace start count hget hspared hrandom hgrace
    obtain ⟨hok, hrotated⟩ := HomeServer.rotated_rotateContact hnodup hget
      (hlive (List.mem_of_getElem? hget)) hspared hrandom
    refine ⟨hok, fun later hlater ↦ ?_⟩
    have hdeadline : wrappingAdd home.now contactGraceSecs = home.now + contactGraceSecs :=
      Nat.mod_eq_of_lt hgrace
    rw [hdeadline] at hrotated
    exact (hrotated.run hdeadline hlater).authorizeAppend_eq

/-- A capability is rotated, and is dead after three days. -/
theorem sweeps_and_rotations_of_one_token :
    let crypto := Crypto.transparent
    let owner : Key := .replicate 32 1
    let old : Key := .replicate 32 2
    let home := run (HomeOp.apply crypto) (.withLimits crypto ⟨owner, owner⟩ owner .default)
      [.register owner owner, .mintContactCapability owner old]
    (∀ which, (old, .contact owner none 1700000000 0) ∈ (home.sweep which).tokens) ∧
      ((run (HomeOp.apply crypto) (home.rotateContact owner old true (.replicate 32 3)).2
        [.setNow 1700259200]).authorizeAppend old).1 = .error .denied := by
  intro crypto owner old home
  have hminting := (@Minting.fresh crypto ⟨owner, owner⟩ owner .default).run
    [.register owner owner, .mintContactCapability owner old]
  obtain ⟨-, hnewest, hrotations⟩ := sweeps_and_rotations crypto home _ hminting
    (by decide +kernel) (by decide +kernel)
  have hspared : home.Spares owner 0 none 1700000000 := .inr (.inl (by decide +kernel))
  refine ⟨(hnewest owner old 0 none 1700000000 0 (by decide +kernel) (by decide +kernel)).mpr
    hspared, ?_⟩
  obtain ⟨-, hlater⟩ := hrotations owner old (.replicate 32 3) 0 none 1700000000 0
    (by decide +kernel) hspared (by decide +kernel) (by decide +kernel)
  refine (hlater [.setNow 1700259200] ⟨?_, trivial⟩).trans (if_neg ?_)
  · change _ ≤ _
    decide +kernel
  · exact fun h ↦ absurd h.1 (by decide +kernel)

set_option maxRecDepth 100000 in
/-- A capability is used after another was minted, a month passes, and the sweep removes the one
minted last. A capability is rotated, dies, is rotated again, and is valid again. -/
theorem sweepDeadTokens_removes_newest :
    let crypto := Crypto.transparent
    let owner : Key := .replicate 32 1
    let old : Key := .replicate 32 2
    let newest : Key := .replicate 32 3
    let first : HomeServer × LastMinted :=
      run (HomeOp.record crypto) (.withLimits crypto ⟨owner, owner⟩ owner .default, fun _ ↦ none)
        [.register owner owner, .mintContactCapability owner old]
    let s := run (HomeOp.record crypto) first
      [.setNow 1700000100, .mintContactCapability owner newest, .setNow 1700000200,
        .appendInner (.blank old old), .setNow 1702592101]
    let rotated := run (HomeOp.apply crypto) first.1
      [.rotateContact owner old true newest, .setNow 1700259200]
    let again := (rotated.rotateContact owner old true (.replicate 32 4)).2
    (Minting crypto s.1 s.2 ∧ s.1.tokens.keys.Nodup ∧ s.2 owner = some newest ∧
      (s.1.requireMailbox owner).toOption.isSome ∧ newest ∈ s.1.tokens.keys ∧
      newest ∉ s.1.sweepDeadTokens.2.tokens.keys ∧ old ∈ s.1.sweepDeadTokens.2.tokens.keys) ∧
    (rotated.authorizeAppend old).1.toOption = none ∧
      (again.authorizeAppend old).1.toOption = some owner := by
  intro crypto owner old newest first s rotated again
  have hfirst : Minting crypto first.1 first.2 :=
    (Minting.fresh ⟨owner, owner⟩ owner .default).run _
  exact ⟨⟨hfirst.run _, by decide +kernel⟩, by decide +kernel⟩

end Sweeps

end NemoMessenger.Server
