import NemoMessenger.Data.Meter
import NemoMessenger.Server.Manage

/-!
# Attempts to append

Everything an operation does to the capabilities is a sequence of moves and of calls of
`append_inner`. Only the calls count in a window or burn a share token, and each of them is an
attempt that is granted or not and stores a row or not.
-/

namespace NemoMessenger.Server

open NemoMessenger.Data NemoMessenger.Wire

/-- A call of `append_inner`: its capability as it was before, and what came of it. -/
structure Attempt where
  token : Key
  kind : Option TokenKind
  time : ℕ
  granted : Bool
  stored : Bool

/-- The call of `append_inner` with an envelope. -/
def HomeServer.attempt (home : HomeServer) (inner : InnerEnvelope) : Attempt where
  token := inner.deliveryCapability
  kind := home.tokens.find inner.deliveryCapability
  time := home.now
  granted := (home.authorizeAppend inner.deliveryCapability).1.toOption.isSome
  stored := decide ((home.appendInner inner).2.history.appended.length ≠
    home.history.appended.length)

namespace Attempt

/-- The attempt is at a contact capability. -/
def atContact (attempt : Attempt) : Bool :=
  match attempt.kind with
  | some (.contact ..) => true
  | _ => false

/-- The attempt is at a share token. -/
def atShare (attempt : Attempt) : Bool :=
  match attempt.kind with
  | some (.share ..) => true
  | _ => false

/-- The attempt resets the window of a contact capability. -/
def resets (attempt : Attempt) : Bool :=
  match attempt.kind with
  | some (.contact _ graceUntil windowStart _) =>
    !graceUntil.any (attempt.time ≥ ·) && decide (attempt.time - windowStart ≥ 60)
  | _ => false

/-- The attempt as a visit to the window. -/
def visit (attempt : Attempt) : Visit where
  time := attempt.time
  opens := attempt.resets
  granted := attempt.granted

/-- The attempts at a contact capability. -/
def visits (log : List Attempt) (token : Key) : List Visit :=
  (log.filter fun attempt ↦ decide (attempt.token = token) && attempt.atContact).map visit

/-- The attempts that stored a row through a share token. -/
def sharedRows (log : List Attempt) (token : Key) : List Attempt :=
  log.filter fun attempt ↦ decide (attempt.token = token) && (attempt.atShare && attempt.stored)

end Attempt

/-- What an operation does to capabilities beside appending. -/
inductive TokenMove (fresh : Key → Prop) (now : ℕ) (tokens : Tokens) : Tokens → Prop
  | keep : TokenMove fresh now tokens tokens
  | register (token : Key) (kind : TokenKind) (hfresh : fresh token) (hfree : token ∉ tokens.keys)
    (hnew : kind.New now) : TokenMove fresh now tokens (tokens ++ [(token, kind)])
  | drop (keeps : Key × TokenKind → Bool) : TokenMove fresh now tokens (tokens.filter keeps)
  | regrace (token : Key) {mailbox : IdentityId} {grace : Option ℕ} {start count : ℕ}
    (grace' : Option ℕ) (hfind : tokens.find token = some (.contact mailbox grace start count)) :
    TokenMove fresh now tokens (tokens.set token (.contact mailbox grace' start count))
  | reserve (token : Key) {mailbox : IdentityId} {expiresAt : ℕ} {burned : Bool} (blob : Bytes)
    (hfind : tokens.find token = some (.share mailbox expiresAt burned none)) :
    TokenMove fresh now tokens (tokens.set token (.share mailbox expiresAt burned (some blob)))

/-- The second server is what moves and attempts make of the first, at one time. Only attempts store
rows, and none of them is at a capability that was issued on the way. -/
inductive Tracked (fresh : Key → Prop) (home : HomeServer) : List Attempt → HomeServer → Prop
  | start : Tracked fresh home [] home
  | move {attempts : List Attempt} {mid home' : HomeServer} (h : Tracked fresh home attempts mid)
    (hbeside : mid.Beside home') (hmove : TokenMove fresh mid.now mid.tokens home'.tokens) :
    Tracked fresh home attempts home'
  | attempt {attempts : List Attempt} {mid : HomeServer} (h : Tracked fresh home attempts mid)
    (inner : InnerEnvelope) (hissued : fresh inner.deliveryCapability →
      mid.tokens.find inner.deliveryCapability = none) :
    Tracked fresh home (attempts ++ [mid.attempt inner]) (mid.appendInner inner).2

/-- No capability has a fresh key. -/
def HomeServer.Free (home : HomeServer) (fresh : Key → Prop) : Prop :=
  ∀ token, fresh token → token ∉ home.tokens.keys

/-- Where no capability has a fresh key, moves and attempts lead from one server to the other. -/
def Issues (fresh : Key → Prop) (home home' : HomeServer) : Prop :=
  home.Free fresh → ∃ attempts, Tracked fresh home attempts home'

/-- The same, and no capability gets a fresh key. -/
def Tracks (fresh : Key → Prop) (home home' : HomeServer) : Prop :=
  home.Free fresh → home'.Free fresh ∧ ∃ attempts, Tracked fresh home attempts home'

section Tracks

variable {crypto : Crypto} {fresh : Key → Prop} {home mid home' : HomeServer}
  {attempts later : List Attempt}

theorem Tracked.trans (h : Tracked fresh home attempts mid) (h' : Tracked fresh mid later home') :
    Tracked fresh home (attempts ++ later) home' := by
  induction h' with
  | start => rwa [List.append_nil]
  | move _ hbeside hmove ih => exact ih.move hbeside hmove
  | attempt _ inner hissued ih =>
    rw [← List.append_assoc]
    exact ih.attempt inner hissued

theorem Tracks.refl (home : HomeServer) : Tracks fresh home home :=
  fun hfree ↦ ⟨hfree, [], .start⟩

theorem Tracks.trans (h : Tracks fresh home mid) (h' : Tracks fresh mid home') :
    Tracks fresh home home' := by
  intro hfree
  obtain ⟨hmid, attempts, htracked⟩ := h hfree
  obtain ⟨hlast, later, htracked'⟩ := h' hmid
  exact ⟨hlast, attempts ++ later, htracked.trans htracked'⟩

/-- A move that issues nothing. -/
theorem Tracks.move (h : Tracks fresh home mid) (hbeside : mid.Beside home')
    (hmove : TokenMove fresh mid.now mid.tokens home'.tokens)
    (hkeys : home'.tokens.keys ⊆ mid.tokens.keys) : Tracks fresh home home' := by
  intro hfree
  obtain ⟨hmid, attempts, htracked⟩ := h hfree
  exact ⟨fun token hfresh hmem ↦ hmid token hfresh (hkeys hmem), attempts,
    htracked.move hbeside hmove⟩

theorem Tracks.keep (h : Tracks fresh home mid) (hbeside : mid.Beside home')
    (htokens : home'.tokens = mid.tokens) : Tracks fresh home home' :=
  h.move hbeside (htokens ▸ .keep) (htokens ▸ List.Subset.refl _)

theorem Tracks.of_keep (hbeside : home.Beside home') (htokens : home'.tokens = home.tokens) :
    Tracks fresh home home' :=
  (Tracks.refl home).keep hbeside htokens

theorem Tracks.drop (h : Tracks fresh home mid) (hbeside : mid.Beside home')
    {keeps : Key × TokenKind → Bool} (htokens : home'.tokens = mid.tokens.filter keeps) :
    Tracks fresh home home' := by
  refine h.move hbeside (htokens ▸ .drop keeps) ?_
  rw [htokens]
  exact List.Sublist.subset (List.Sublist.map _ List.filter_sublist)

theorem Tracks.issues (h : Tracks fresh home home') : Issues fresh home home' :=
  fun hfree ↦ (h hfree).2

theorem Tracks.register (h : Tracks fresh home mid) (hbeside : mid.Beside home') {token : Key}
    {kind : TokenKind} (htokens : home'.tokens = mid.tokens ++ [(token, kind)])
    (hfresh : fresh token) (hnew : kind.New mid.now) : Issues fresh home home' := by
  intro hfree
  obtain ⟨hmid, attempts, htracked⟩ := h hfree
  exact ⟨attempts, htracked.move hbeside (htokens ▸ .register token kind hfresh (hmid token hfresh) hnew)⟩

theorem Issues.move (h : Issues fresh home mid) (hbeside : mid.Beside home')
    (hmove : TokenMove fresh mid.now mid.tokens home'.tokens) : Issues fresh home home' := by
  intro hfree
  obtain ⟨attempts, htracked⟩ := h hfree
  exact ⟨attempts, htracked.move hbeside hmove⟩

/-! ## Operations -/

/-- What `authorize_append` does with a contact capability. -/
theorem authorizeAppend_contact {token : Key} {mailbox : IdentityId} {grace : Option ℕ}
    {start count : ℕ} (hfind : home.tokens.find token = some (.contact mailbox grace start count)) :
    home.authorizeAppend token =
      if grace.any (home.now ≥ ·) = true then (.error .denied, home)
      else if (home.window start count).2 ≥ ratePerMin then (.error .denied, home)
      else (if home.mailboxDisabled mailbox then .error .denied else .ok mailbox,
        home.setToken token (.contact mailbox grace (home.window start count).1
          ((home.window start count).2 + 1))) := by
  unfold HomeServer.authorizeAppend
  rw [hfind]
  refine if_congr Iff.rfl rfl (if_congr Iff.rfl rfl ?_)
  dsimp only
  cases hdisabled : home.mailboxDisabled mailbox with
  | true => exact if_pos hdisabled
  | false => exact if_neg (by rw [Bool.not_eq_true]; exact hdisabled)

/-- What `authorize_append` does with a share token. -/
theorem authorizeAppend_share {token : Key} {mailbox : IdentityId} {expiresAt : ℕ} {burned : Bool}
    {reserved : Option Bytes}
    (hfind : home.tokens.find token = some (.share mailbox expiresAt burned reserved)) :
    home.authorizeAppend token =
      (if (!burned && decide (home.now < expiresAt)) = true ∧ home.mailboxDisabled mailbox = false then
        .ok mailbox else .error .denied, home) := by
  unfold HomeServer.authorizeAppend
  rw [hfind]
  dsimp only
  cases hlive : !burned && decide (home.now < expiresAt) with
  | false => simp
  | true => cases hdisabled : home.mailboxDisabled mailbox <;> simp

theorem authorizeAppend_none {token : Key} (hfind : home.tokens.find token = none) :
    home.authorizeAppend token = (.error .denied, home) := by
  unfold HomeServer.authorizeAppend
  rw [hfind]

theorem keys_authorizeAppend (home : HomeServer) (token : Key) :
    (home.authorizeAppend token).2.tokens.keys = home.tokens.keys := by
  cases hfind : home.tokens.find token with
  | none => rw [authorizeAppend_none hfind]
  | some kind =>
    cases kind with
    | share => rw [authorizeAppend_share hfind]
    | contact =>
      rw [authorizeAppend_contact hfind]
      split_ifs
      · rfl
      · rfl
      · exact Tokens.keys_set ..
      · exact Tokens.keys_set ..

theorem keys_burnIfShare (home : HomeServer) (token : Key) :
    (home.burnIfShare token).tokens.keys = home.tokens.keys := by
  unfold HomeServer.burnIfShare
  split
  · split_ifs
    · rfl
    · exact Tokens.keys_set ..
  · rfl

theorem keys_appendInner (home : HomeServer) (inner : InnerEnvelope) :
    (home.appendInner inner).2.tokens.keys = home.tokens.keys := by
  have hauth := keys_authorizeAppend home inner.deliveryCapability
  unfold HomeServer.appendInner
  split
  · rename_i heq
    rwa [heq] at hauth
  · rename_i mailbox authorized heq
    rw [heq] at hauth
    split
    · exact hauth
    · split
      · exact hauth
      · split
        · exact hauth
        · rw [HomeServer.tokens_gcMailbox, keys_burnIfShare]
          exact hauth

theorem tracks_appendInner (home : HomeServer) (inner : InnerEnvelope) :
    Tracks fresh home (home.appendInner inner).2 := by
  intro hfree
  refine ⟨fun token hfresh ↦ ?_, _, Tracked.start.attempt inner fun hfresh ↦ ?_⟩
  · rw [keys_appendInner]
    exact hfree token hfresh
  · exact Tokens.find_eq_none_iff.mpr (hfree _ hfresh)

theorem appended_gcMailbox (home : HomeServer) (owner : IdentityId) :
    (home.gcMailbox owner).history.appended = home.history.appended := by
  unfold HomeServer.gcMailbox
  split
  · rfl
  · dsimp only
    split_ifs <;> rfl

theorem tracks_publishPrekey (home : HomeServer) (owner : IdentityId) (blob : Bytes) :
    Tracks fresh home (home.publishPrekey owner blob).2 := by
  unfold HomeServer.publishPrekey
  split
  · exact .refl home
  · exact .of_keep ⟨rfl, rfl⟩ rfl

theorem tracks_fetchPrekey (home : HomeServer) (token : Key) :
    Tracks fresh home (home.fetchPrekey token).2 := by
  unfold HomeServer.fetchPrekey
  split
  · rename_i mailbox expiresAt burned reserved hfind
    split_ifs
    · split
      · exact .refl home
      · unfold HomeServer.reservePrekey
        split
        · exact (Tracks.refl home).move ⟨rfl, rfl⟩ (.reserve token _ hfind)
            (fun _ hmem ↦ Tokens.keys_set token _ home.tokens ▸ hmem)
        · exact .refl home
    · exact .refl home
  · exact .refl home

/-- Every change is made of moves and attempts. -/
theorem manages_tracks (crypto : Crypto) {promises : Promises}
    (hfresh : ∀ tokens token owner, promises.registers tokens token owner → fresh token) :
    ManagesOwners crypto promises (Tracks fresh) (Issues fresh) where
  trans := .trans
  aside h := .of_keep h.toBeside h.tokens
  drop home _ _ := (Tracks.refl home).drop ⟨rfl, rfl⟩ rfl
  disable home _ := (Tracks.refl home).drop ⟨rfl, rfl⟩ rfl
  append := tracks_appendInner
  publish := tracks_publishPrekey
  fetch := tracks_fetchPrekey
  check home owner auth nowUnix expect := by
    obtain ⟨nonces, hframe⟩ := home.checkOwner_frame crypto owner auth nowUnix expect
    rw [hframe]
    exact .of_keep ⟨rfl, rfl⟩ rfl
  gc home owner :=
    .of_keep ⟨home.now_gcMailbox owner, appended_gcMailbox home owner⟩ (home.tokens_gcMailbox owner)
  ack home owner box upto _ := by
    unfold HomeServer.ackRows
    dsimp only
    split
    · exact .refl home
    · exact .of_keep ⟨rfl, rfl⟩ rfl
  enter home _ _ entry _ := by
    cases entry <;> exact .of_keep ⟨rfl, rfl⟩ rfl
  weaken := Tracks.issues
  register _ _ h hregisters hnew := h.register ⟨rfl, rfl⟩ rfl (hfresh _ _ _ hregisters) hnew
  regrace grace' h hfind := h.move ⟨rfl, rfl⟩ (.regrace _ grace' hfind)

end Tracks

/-! ## One attempt -/

section Attempt

variable {home home' : HomeServer} {inner : InnerEnvelope}

theorem tokens_burnIfShare_congr (h : home'.tokens = home.tokens) (token : Key) :
    (home'.burnIfShare token).tokens = (home.burnIfShare token).tokens := by
  unfold HomeServer.burnIfShare
  rw [h]
  split
  · split_ifs
    · exact h
    · exact congrArg (Tokens.set token _) h
  · exact h

/-- The tokens after an attempt, by whether it stored a row. -/
theorem tokens_appendInner (home : HomeServer) (inner : InnerEnvelope) :
    ((home.attempt inner).stored = false ∧ (home.appendInner inner).2.tokens =
        (home.authorizeAppend inner.deliveryCapability).2.tokens) ∨
      ((home.attempt inner).stored = true ∧ (home.attempt inner).granted = true ∧
        (home.appendInner inner).2.tokens = ((home.authorizeAppend
          inner.deliveryCapability).2.burnIfShare inner.deliveryCapability).tokens) := by
  obtain ⟨tokens, dirty, hframe⟩ := home.authorizeAppend_frame inner.deliveryCapability
  have hhistory : (home.authorizeAppend inner.deliveryCapability).2.history = home.history := by
    rw [hframe]
  unfold HomeServer.attempt
  cases hauth : home.authorizeAppend inner.deliveryCapability with
  | mk result authorized =>
    rw [hauth] at hhistory
    dsimp only at hhistory ⊢
    cases result with
    | error e =>
      left
      have heq : home.appendInner inner = (.error e, authorized) := by
        rw [HomeServer.appendInner, hauth]
      rw [heq, hhistory]
      simp
    | ok mailbox =>
      cases hbox : authorized.mailboxes.lookup mailbox with
      | none =>
        left
        have heq : home.appendInner inner = (.error .denied, authorized) := by
          rw [HomeServer.appendInner, hauth]
          simp only [hbox]
        rw [heq, hhistory]
        simp
      | some box =>
        cases hidem : box.idempotency.lookup inner.idempotencyToken with
        | some seq =>
          left
          have heq : home.appendInner inner = (.ok seq, authorized) := by
            rw [HomeServer.appendInner, hauth]
            simp only [hbox, hidem]
          rw [heq, hhistory]
          simp
        | none =>
          cases hencode : inner.encodePadded with
          | error e =>
            left
            have heq : home.appendInner inner = (.error (.wire e), authorized) := by
              rw [HomeServer.appendInner, hauth]
              simp only [hbox, hidem, hencode]
            rw [heq, hhistory]
            simp
          | ok padded =>
            right
            have heq : home.appendInner inner = (.ok box.nextSeq,
                ((authorized.storeRow mailbox box inner padded.length).burnIfShare
                  inner.deliveryCapability).gcMailbox mailbox) := by
              rw [HomeServer.appendInner, hauth]
              simp only [hbox, hidem, hencode]
            have happended : (((authorized.storeRow mailbox box inner padded.length).burnIfShare
                inner.deliveryCapability).gcMailbox mailbox).history.appended =
                  home.history.appended ++ [(mailbox, authorized.newRow box inner)] := by
              rw [appended_gcMailbox]
              obtain ⟨_, _, hburn⟩ := HomeServer.burnIfShare_frame
                (authorized.storeRow mailbox box inner padded.length) inner.deliveryCapability
              rw [hburn, ← hhistory]
              rfl
            rw [heq]
            refine ⟨?_, rfl, ?_⟩
            · rw [happended]
              simp
            · have hkept : (authorized.storeRow mailbox box inner padded.length).tokens =
                  authorized.tokens := rfl
              rw [HomeServer.tokens_gcMailbox]
              exact tokens_burnIfShare_congr hkept _

theorem find_setToken {token : Key} {old kind : TokenKind} (hfind : home.tokens.find token = some old)
    (key : Key) : (home.setToken token kind).tokens.find key =
      if key = token then some kind else home.tokens.find key := by
  rw [HomeServer.setToken, Tokens.find_set, hfind]
  rfl

/-- An attempt at an unknown capability changes nothing. -/
theorem find_appendInner_none (hfind : home.tokens.find inner.deliveryCapability = none) :
    (home.appendInner inner).2.tokens.find = home.tokens.find := by
  have hauth := authorizeAppend_none hfind
  rcases tokens_appendInner home inner with ⟨-, h⟩ | ⟨-, hgranted, -⟩
  · rw [h, hauth]
  · unfold HomeServer.attempt at hgranted
    rw [hauth] at hgranted
    cases hgranted

/-- An attempt at a share token burns it when it stores a row, which takes a token that is alive. -/
theorem find_appendInner_share {mailbox : IdentityId} {expiresAt : ℕ} {burned : Bool}
    {reserved : Option Bytes} (hfind : home.tokens.find inner.deliveryCapability =
      some (.share mailbox expiresAt burned reserved)) :
    ((home.attempt inner).stored = false ∧
        (home.appendInner inner).2.tokens.find = home.tokens.find) ∨
      ((home.attempt inner).stored = true ∧ burned = false ∧ home.now < expiresAt ∧
        ∀ key, (home.appendInner inner).2.tokens.find key =
          if key = inner.deliveryCapability then some (.share mailbox expiresAt true reserved)
          else home.tokens.find key) := by
  have hauth := authorizeAppend_share hfind
  rcases tokens_appendInner home inner with ⟨hstored, h⟩ | ⟨hstored, hgranted, h⟩
  · left
    rw [h, hauth]
    exact ⟨hstored, rfl⟩
  · right
    unfold HomeServer.attempt at hgranted
    rw [hauth] at h hgranted
    split_ifs at hgranted with hlive
    · obtain ⟨hlive, -⟩ := hlive
      rw [Bool.and_eq_true, Bool.not_eq_true', decide_eq_true_eq] at hlive
      refine ⟨hstored, hlive.1, hlive.2, fun key ↦ ?_⟩
      rw [h, ← find_setToken hfind]
      unfold HomeServer.burnIfShare
      rw [hfind]
      simp only [hlive.1, Bool.false_eq_true, if_false]
    · cases hgranted

/-- An attempt at a contact capability is refused, or it is counted in its window. -/
theorem find_appendInner_contact {mailbox : IdentityId} {grace : Option ℕ} {start count : ℕ}
    (hfind : home.tokens.find inner.deliveryCapability =
      some (.contact mailbox grace start count)) :
    ((home.attempt inner).granted = false ∧ (home.attempt inner).resets = false ∧
        (home.appendInner inner).2.tokens.find = home.tokens.find) ∨
      (grace.any (home.now ≥ ·) = false ∧ (home.window start count).2 < ratePerMin ∧
        ∀ key, (home.appendInner inner).2.tokens.find key =
          if key = inner.deliveryCapability then
            some (.contact mailbox grace (home.window start count).1
              ((home.window start count).2 + 1))
          else home.tokens.find key) := by
  have hauth := authorizeAppend_contact hfind
  have hresets : (home.attempt inner).resets =
      (!grace.any (home.now ≥ ·) && decide (home.now - start ≥ 60)) := by
    unfold Attempt.resets HomeServer.attempt
    rw [hfind]
  have hgranted : (home.attempt inner).granted =
      (home.authorizeAppend inner.deliveryCapability).1.toOption.isSome := rfl
  by_cases hgrace : grace.any (home.now ≥ ·) = true
  · left
    rw [if_pos hgrace] at hauth
    rw [hauth] at hgranted
    refine ⟨hgranted, by rw [hresets, hgrace]; rfl, ?_⟩
    rcases tokens_appendInner home inner with ⟨-, h⟩ | ⟨-, hyes, -⟩
    · rw [h, hauth]
    · rw [hgranted] at hyes
      cases hyes
  · rw [if_neg hgrace] at hauth
    by_cases hfull : (home.window start count).2 ≥ ratePerMin
    · left
      rw [if_pos hfull] at hauth
      rw [hauth] at hgranted
      have hold : ¬ home.now - start ≥ 60 := by
        intro hold
        rw [HomeServer.window, if_pos hold] at hfull
        exact Nat.not_succ_le_zero _ hfull
      refine ⟨hgranted, by rw [hresets, decide_eq_false hold, Bool.and_false], ?_⟩
      rcases tokens_appendInner home inner with ⟨-, h⟩ | ⟨-, hyes, -⟩
      · rw [h, hauth]
      · rw [hgranted] at hyes
        cases hyes
    · right
      rw [if_neg hfull] at hauth
      refine ⟨by simpa using hgrace, by omega, fun key ↦ ?_⟩
      rw [← find_setToken hfind]
      rcases tokens_appendInner home inner with ⟨-, h⟩ | ⟨-, -, h⟩
      · rw [h, hauth]
      · rw [h, hauth]
        unfold HomeServer.burnIfShare
        rw [find_setToken hfind, if_pos rfl]

end Attempt

end NemoMessenger.Server
