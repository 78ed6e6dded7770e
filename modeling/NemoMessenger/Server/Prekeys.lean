import NemoMessenger.Data.Fifo
import NemoMessenger.Server.Attempts
import NemoMessenger.Server.Issued

/-!
# Prekeys are handed out once

The queue of a mailbox is filled by `publish_prekey`, emptied by `fetch_prekey` one token at a time
and cleared when the mailbox is disabled. Nothing else touches it, and a token keeps what it got.
-/

namespace NemoMessenger.Server

open NemoMessenger.Data NemoMessenger.Wire

/-- What happens to prekeys. -/
inductive Handling
  | publish (owner : IdentityId) (blob : Bytes)
  | reserve (token : Key) (owner : IdentityId) (blob : Bytes)
  | disable (owner : IdentityId)

namespace Handling

/-- What it does to the queue of a mailbox. -/
def move (owner : IdentityId) : Handling → Option (FifoMove Bytes)
  | publish mailbox blob => if mailbox = owner then some (.put blob) else none
  | reserve _ mailbox blob => if mailbox = owner then some (.take blob) else none
  | disable mailbox => if mailbox = owner then some .clear else none

/-- What a log does to the queue of a mailbox. -/
def moves (log : List Handling) (owner : IdentityId) : List (FifoMove Bytes) :=
  log.filterMap (move owner)

/-- The token a prekey is reserved for. -/
def token : Handling → Option Key
  | reserve token _ _ => some token
  | _ => none

end Handling

/-- The prekey that is reserved for a token. -/
def TokenKind.reserved : TokenKind → Option Bytes
  | share _ _ _ reservedPrekey => reservedPrekey
  | contact .. => none

/-- A capability that stays keeps its mailbox and its prekey, and a new one has none. -/
structure TokenTurn (fresh : Key → Prop) (tokens tokens' : Tokens) : Prop where
  nodup : tokens'.keys.Nodup
  kept : ∀ token kind', tokens'.find token = some kind' →
    (∃ kind, tokens.find token = some kind ∧ kind.mailbox = kind'.mailbox ∧
      kind.reserved = kind'.reserved) ∨ fresh token ∧ kind'.reserved = none

/-- The second server is what these handlings make of the first, beside changes that leave queues and
reservations alone. No prekey is reserved for a token that was issued on the way. -/
inductive Handled (fresh : Key → Prop) (home : HomeServer) : List Handling → HomeServer → Prop
  | start : Handled fresh home [] home
  | turn {log : List Handling} {mid home' : HomeServer} (h : Handled fresh home log mid)
    (hqueue : home'.queue = mid.queue) (hturn : TokenTurn fresh mid.tokens home'.tokens) :
    Handled fresh home log home'
  | publish {log : List Handling} {mid : HomeServer} (h : Handled fresh home log mid)
    (owner : IdentityId) (blob : Bytes) (hok : (mid.publishPrekey owner blob).1 = .ok ()) :
    Handled fresh home (log ++ [.publish owner blob]) (mid.publishPrekey owner blob).2
  | reserve {log : List Handling} {mid : HomeServer} (h : Handled fresh home log mid) (token : Key)
    (hissued : ¬fresh token) {owner : IdentityId} {expiresAt : ℕ} {burned : Bool} {blob : Bytes}
    (hfind : mid.tokens.find token = some (.share owner expiresAt burned none))
    (hok : (mid.fetchPrekey token).1 = .ok blob) :
    Handled fresh home (log ++ [.reserve token owner blob]) (mid.fetchPrekey token).2
  | disable {log : List Handling} {mid : HomeServer} (h : Handled fresh home log mid)
    (owner : IdentityId) : Handled fresh home (log ++ [.disable owner]) (mid.disableMailbox owner)

section TokenTurn

variable {fresh : Key → Prop} {tokens tokens' : Tokens}

theorem TokenTurn.of_find_eq (hnodup : tokens'.keys.Nodup) (hfind : tokens'.find = tokens.find) :
    TokenTurn fresh tokens tokens' where
  nodup := hnodup
  kept _ _ h := .inl ⟨_, hfind ▸ h, rfl, rfl⟩

/-- One capability changes, but not its mailbox and its prekey. -/
theorem TokenTurn.of_set (hnodup : tokens'.keys.Nodup) {token : Key} {old kind : TokenKind}
    (hold : tokens.find token = some old)
    (hafter : ∀ key, tokens'.find key = if key = token then some kind else tokens.find key)
    (hmailbox : old.mailbox = kind.mailbox) (hreserved : old.reserved = kind.reserved) :
    TokenTurn fresh tokens tokens' where
  nodup := hnodup
  kept key kind' h := by
    rw [hafter] at h
    split_ifs at h with hkey
    · cases h
      exact .inl ⟨old, hkey ▸ hold, hmailbox, hreserved⟩
    · exact .inl ⟨kind', h, rfl, rfl⟩

theorem TokenTurn.of_push (hnodup : tokens.keys.Nodup) {token : Key} {kind : TokenKind}
    (hfresh : fresh token) (hfree : token ∉ tokens.keys) (hnone : kind.reserved = none) :
    TokenTurn fresh tokens (tokens ++ [(token, kind)]) where
  nodup := by
    rw [Tokens.keys, List.map_append]
    exact hnodup.append (List.nodup_singleton _) (by simpa using hfree)
  kept key kind' h := by
    rw [Tokens.find_push] at h
    split_ifs at h with hkey
    · cases h
      exact .inr ⟨hkey ▸ hfresh, hnone⟩
    · exact .inl ⟨kind', h, rfl, rfl⟩

end TokenTurn

theorem tokenTurn_filter (fresh : Key → Prop) {tokens : Tokens} (hnodup : tokens.keys.Nodup)
    (keeps : Key × TokenKind → Bool) : TokenTurn fresh tokens (tokens.filter keeps) where
  nodup := hnodup.sublist (List.filter_sublist.map Prod.fst)
  kept _ _ hfind := .inl ⟨_, Tokens.find_eq_some_of_mem hnodup
    (List.mem_of_mem_filter (Tokens.mem_of_find hfind)), rfl, rfl⟩

/-! ## The three handlings -/

section Home

variable {home : HomeServer} {owner : IdentityId} {blob : Bytes} {token : Key}

theorem queue_setPrekeys (home : HomeServer) (owner : IdentityId) (queue : List Bytes)
    (m : IdentityId) :
    (home.setPrekeys owner queue).queue m = if m = owner then queue else home.queue m := by
  unfold HomeServer.queue HomeServer.setPrekeys
  rw [FiniteMap.lookup_insert_ite]
  split_ifs <;> rfl

theorem queue_publishPrekey (hok : (home.publishPrekey owner blob).1 = .ok ()) (m : IdentityId) :
    (home.publishPrekey owner blob).2.queue m =
      if m = owner then home.queue owner ++ [blob] else home.queue m := by
  unfold HomeServer.publishPrekey at hok ⊢
  cases hmailbox : home.requireMailbox owner with
  | error e =>
    rw [hmailbox] at hok
    cases hok
  | ok => exact queue_setPrekeys home owner _ m

theorem tokens_publishPrekey (home : HomeServer) (owner : IdentityId) (blob : Bytes) :
    (home.publishPrekey owner blob).2.tokens = home.tokens := by
  unfold HomeServer.publishPrekey
  split <;> rfl

theorem queue_disableMailbox (home : HomeServer) (owner m : IdentityId) :
    (home.disableMailbox owner).queue m = if m = owner then [] else home.queue m := by
  unfold HomeServer.queue HomeServer.disableMailbox
  rw [FiniteMap.lookup_erase_ite]
  split_ifs <;> rfl

/-- A token that has its prekey gets it again, and one that has none gets the front of the queue. -/
theorem fetchPrekey_of_ok (hok : (home.fetchPrekey token).1 = .ok blob) :
    ∃ mailbox expiresAt, home.now < expiresAt ∧
      ((home.tokens.find token = some (.share mailbox expiresAt false (some blob)) ∧
          (home.fetchPrekey token).2 = home) ∨
        ∃ rest, home.tokens.find token = some (.share mailbox expiresAt false none) ∧
          home.queue mailbox = blob :: rest ∧
          (home.fetchPrekey token).2 = (home.setPrekeys mailbox rest).setToken token
            (.share mailbox expiresAt false (some blob))) := by
  unfold HomeServer.fetchPrekey at hok ⊢
  split at hok
  · rename_i mailbox expiresAt burned reserved hfind
    split_ifs at hok with hlive
    · rw [Bool.and_eq_true, Bool.not_eq_true', decide_eq_true_eq] at hlive
      obtain ⟨rfl, htime⟩ := hlive
      refine ⟨mailbox, expiresAt, htime, ?_⟩
      rw [hfind]
      simp only [htime, decide_true, Bool.not_false, Bool.and_self, if_true]
      cases reserved with
      | some prekey =>
        obtain rfl : prekey = blob := Except.ok.inj hok
        exact .inl ⟨rfl, rfl⟩
      | none =>
        right
        dsimp only at hok ⊢
        unfold HomeServer.reservePrekey at hok ⊢
        split at hok
        · rename_i first rest hqueue
          obtain rfl : first = blob := Except.ok.inj hok
          refine ⟨rest, rfl, ?_, ?_⟩
          · rw [HomeServer.queue, hqueue, Option.getD_some]
          · rfl
        · cases hok
  · cases hok

/-- A `fetch_prekey` that fails changes nothing. -/
theorem fetchPrekey_of_error {e : ServerError} (herror : (home.fetchPrekey token).1 = .error e) :
    (home.fetchPrekey token).2 = home := by
  unfold HomeServer.fetchPrekey at herror ⊢
  split
  · rename_i mailbox expiresAt burned reserved hfind
    rw [hfind] at herror
    dsimp only at herror
    split_ifs at herror ⊢
    · cases reserved with
      | some => rfl
      | none =>
        dsimp only at herror ⊢
        unfold HomeServer.reservePrekey at herror ⊢
        split
        · rename_i hqueue
          rw [hqueue] at herror
          cases herror
        · rfl
    · rfl
  · rfl

end Home

/-! ## The log -/

namespace Handling

variable {log : List Handling}

theorem moves_push (log : List Handling) (handling : Handling) (owner : IdentityId) :
    moves (log ++ [handling]) owner = moves log owner ++ (handling.move owner).toList := by
  rw [moves, List.filterMap_append, moves]
  cases h : handling.move owner <;> simp [h]

theorem tokens_push (log : List Handling) (handling : Handling) :
    (log ++ [handling]).filterMap token = log.filterMap token ++ handling.token.toList := by
  rw [List.filterMap_append]
  cases h : handling.token <;> simp [h]

theorem mem_tokens {key : Key} :
    key ∈ log.filterMap token ↔ ∃ owner blob, reserve key owner blob ∈ log := by
  rw [List.mem_filterMap]
  constructor
  · rintro ⟨_ | ⟨token, owner, blob⟩ | _, hmem, hkey⟩
    · cases hkey
    · cases hkey
      exact ⟨owner, blob, hmem⟩
    · cases hkey
  · rintro ⟨owner, blob, hmem⟩
    exact ⟨_, hmem, rfl⟩

end Handling

/-- Queues and reservations are those the log leaves, and no token has two. -/
structure Handed (log : List Handling) (keys : List Key) (find : Key → Option TokenKind)
    (queue : IdentityId → List Bytes) : Prop where
  queues : ∀ owner, Fifo (Handling.moves log owner) (queue owner)
  reserved : ∀ token kind blob, find token = some kind → kind.reserved = some blob →
    .reserve token kind.mailbox blob ∈ log
  stays : ∀ token owner blob, .reserve token owner blob ∈ log → ∀ kind, find token = some kind →
    kind.mailbox = owner ∧ kind.reserved = some blob
  once : (log.filterMap Handling.token).Nodup
  known : ∀ token owner blob, .reserve token owner blob ∈ log → token ∈ keys

namespace Handed

variable {log : List Handling} {keys keys' : List Key} {find find' : Key → Option TokenKind}
  {queue queue' : IdentityId → List Bytes}

theorem empty (keys : List Key) : Handed [] keys (fun _ ↦ none) fun _ ↦ [] where
  queues _ := .empty
  reserved _ _ _ h := by cases h
  stays _ _ _ h := by cases h
  once := List.nodup_nil
  known _ _ _ h := by cases h

theorem mono (h : Handed log keys find queue) (hkeys : keys ⊆ keys') : Handed log keys' find queue :=
  { h with known := fun token owner blob hmem ↦ hkeys (h.known token owner blob hmem) }

theorem turn {tokens tokens' : Tokens} (h : Handed log keys tokens.find queue)
    (hturn : TokenTurn (· ∉ keys) tokens tokens') : Handed log keys tokens'.find queue :=
  { h with
    reserved := by
      intro token kind' blob hfind hreserved
      rcases hturn.kept token kind' hfind with ⟨kind, hold, hmailbox, hsame⟩ | ⟨-, hnone⟩
      · rw [← hmailbox]
        exact h.reserved token kind blob hold (hsame.trans hreserved)
      · rw [hnone] at hreserved
        cases hreserved
    stays := by
      intro token owner blob hmem kind' hfind
      rcases hturn.kept token kind' hfind with ⟨kind, hold, hmailbox, hsame⟩ | ⟨hfresh, -⟩
      · rw [← hmailbox, ← hsame]
        exact h.stays token owner blob hmem kind hold
      · exact absurd (h.known token owner blob hmem) hfresh }

/-- A handling that is no reservation. -/
theorem push (h : Handed log keys find queue) {handling : Handling} (htoken : handling.token = none)
    (hqueues : ∀ owner, Fifo (Handling.moves (log ++ [handling]) owner) (queue' owner)) :
    Handed (log ++ [handling]) keys find queue' := by
  have hmem {token owner blob} (hreserve : Handling.reserve token owner blob ∈ log ++ [handling]) :
      Handling.reserve token owner blob ∈ log := by
    rcases List.mem_append.mp hreserve with hold | hnew
    · exact hold
    · rw [← List.mem_singleton.mp hnew] at htoken
      cases htoken
  refine ⟨hqueues, fun token kind blob hfind hreserved ↦
      List.mem_append_left _ (h.reserved token kind blob hfind hreserved),
    fun token owner blob hreserve ↦ h.stays token owner blob (hmem hreserve), ?_,
    fun token owner blob hreserve ↦ h.known token owner blob (hmem hreserve)⟩
  rw [Handling.tokens_push, htoken, Option.toList_none, List.append_nil]
  exact h.once

theorem publish (h : Handed log keys find queue) (owner : IdentityId) (blob : Bytes)
    (hqueue : ∀ m, queue' m = if m = owner then queue owner ++ [blob] else queue m) :
    Handed (log ++ [.publish owner blob]) keys find queue' := by
  refine h.push rfl fun m ↦ ?_
  rw [Handling.moves_push, Handling.move, hqueue]
  by_cases hm : m = owner
  · rw [if_pos hm, if_pos hm.symm, hm]
    exact (h.queues owner).put blob
  · rw [if_neg hm, if_neg (Ne.symm hm), Option.toList_none, List.append_nil]
    exact h.queues m

theorem disable (h : Handed log keys find queue) (owner : IdentityId)
    (hqueue : ∀ m, queue' m = if m = owner then [] else queue m) :
    Handed (log ++ [.disable owner]) keys find queue' := by
  refine h.push rfl fun m ↦ ?_
  rw [Handling.moves_push, Handling.move, hqueue]
  by_cases hm : m = owner
  · rw [if_pos hm, if_pos hm.symm, hm]
    exact (h.queues owner).clear
  · rw [if_neg hm, if_neg (Ne.symm hm), Option.toList_none, List.append_nil]
    exact h.queues m

theorem reserve (h : Handed log keys find queue) {token : Key} {owner : IdentityId}
    {expiresAt : ℕ} {burned : Bool} {blob : Bytes} {rest : List Bytes}
    (hfind : find token = some (.share owner expiresAt burned none)) (hknown : token ∈ keys)
    (hfront : queue owner = blob :: rest)
    (hqueue : ∀ m, queue' m = if m = owner then rest else queue m)
    (hafter : ∀ key, find' key = if key = token then
      some (.share owner expiresAt burned (some blob)) else find key) :
    Handed (log ++ [.reserve token owner blob]) keys find' queue' := by
  have hunused (owner' : IdentityId) (blob' : Bytes) : .reserve token owner' blob' ∉ log := by
    intro hmem
    have hstays := (h.stays token owner' blob' hmem _ hfind).2
    cases hstays
  refine ⟨fun m ↦ ?_, fun key kind blob' hkind hreserved ↦ ?_,
    fun key owner' blob' hmem kind hkind ↦ ?_, ?_, fun key owner' blob' hmem ↦ ?_⟩
  · rw [Handling.moves_push, Handling.move, hqueue]
    by_cases hm : m = owner
    · rw [if_pos hm, if_pos hm.symm, hm]
      exact .take blob (hfront ▸ h.queues owner)
    · rw [if_neg hm, if_neg (Ne.symm hm), Option.toList_none, List.append_nil]
      exact h.queues m
  · rw [hafter] at hkind
    split_ifs at hkind with hkey
    · cases hkind
      cases hreserved
      rw [hkey]
      exact List.mem_append_right _ (List.mem_singleton_self _)
    · exact List.mem_append_left _ (h.reserved key kind blob' hkind hreserved)
  · rw [hafter] at hkind
    rcases List.mem_append.mp hmem with hold | hnew
    · rw [if_neg fun hkey : key = token ↦ hunused owner' blob' (hkey ▸ hold)] at hkind
      exact h.stays key owner' blob' hold kind hkind
    · cases List.mem_singleton.mp hnew
      rw [if_pos rfl] at hkind
      cases hkind
      exact ⟨rfl, rfl⟩
  · rw [Handling.tokens_push]
    refine h.once.append (List.nodup_singleton _) fun key hold hnew ↦ ?_
    cases List.mem_singleton.mp hnew
    obtain ⟨owner', blob', hmem⟩ := Handling.mem_tokens.mp hold
    exact hunused owner' blob' hmem
  · rcases List.mem_append.mp hmem with hold | hnew
    · exact h.known key owner' blob' hold
    · cases List.mem_singleton.mp hnew
      exact hknown

end Handed

/-- Handlings keep the log right. -/
theorem Handled.handed {keys : List Key} {home home' : HomeServer} {log log' : List Handling}
    (h : Handled (· ∉ keys) home log' home')
    (hhome : Handed log keys home.tokens.find home.queue) (hnodup : home.tokens.keys.Nodup) :
    Handed (log ++ log') keys home'.tokens.find home'.queue ∧ home'.tokens.keys.Nodup := by
  induction h with
  | start => exact ⟨(List.append_nil log).symm ▸ hhome, hnodup⟩
  | turn _ hqueue hturn ih => exact ⟨hqueue ▸ ih.1.turn hturn, hturn.nodup⟩
  | publish _ owner blob hok ih =>
    rw [← List.append_assoc, tokens_publishPrekey]
    exact ⟨ih.1.publish owner blob (queue_publishPrekey hok), ih.2⟩
  | reserve _ token hissued hfind hok ih =>
    rw [← List.append_assoc]
    obtain ⟨mailbox, expiresAt, -, ⟨hreserved, -⟩ | ⟨rest, hopen, hfront, hafter⟩⟩ :=
      fetchPrekey_of_ok hok
    · rw [hfind] at hreserved
      cases hreserved
    · rw [hfind] at hopen
      cases hopen
      rw [hafter]
      exact ⟨ih.1.reserve hfind (not_not.mp hissued) hfront (queue_setPrekeys _ _ _)
        (@find_setToken (HomeServer.setPrekeys _ _ rest) token _ _ hfind),
        (Tokens.keys_set ..).symm ▸ ih.2⟩
  | disable _ owner ih =>
    rw [← List.append_assoc]
    have hturn := tokenTurn_filter (· ∉ keys) ih.2 fun entry ↦ decide (entry.2.mailbox ≠ owner)
    exact ⟨(ih.1.turn hturn).disable owner (queue_disableMailbox _ owner), hturn.nodup⟩

/-! ## Operations -/

/-- Handlings lead from one server to the other, and neither has a capability with a fresh key. -/
def Handles (fresh : Key → Prop) (home home' : HomeServer) : Prop :=
  home.tokens.keys.Nodup → home.Free fresh →
    home'.tokens.keys.Nodup ∧ home'.Free fresh ∧ ∃ log, Handled fresh home log home'

/-- The same, when a capability may have been issued. -/
def HandlesIssue (fresh : Key → Prop) (home home' : HomeServer) : Prop :=
  home.tokens.keys.Nodup → home.Free fresh →
    home'.tokens.keys.Nodup ∧ ∃ log, Handled fresh home log home'

section Handles

variable {fresh : Key → Prop} {home mid home' : HomeServer} {log later : List Handling}

theorem Handled.trans (h : Handled fresh home log mid) (h' : Handled fresh mid later home') :
    Handled fresh home (log ++ later) home' := by
  induction h' with
  | start => rwa [List.append_nil]
  | turn _ hqueue hturn ih => exact ih.turn hqueue hturn
  | publish _ owner blob hok ih =>
    rw [← List.append_assoc]
    exact ih.publish owner blob hok
  | reserve _ token hissued hfind hok ih =>
    rw [← List.append_assoc]
    exact ih.reserve token hissued hfind hok
  | disable _ owner ih =>
    rw [← List.append_assoc]
    exact ih.disable owner

theorem Handles.trans (h : Handles fresh home mid) (h' : Handles fresh mid home') :
    Handles fresh home home' := by
  intro hnodup hfree
  obtain ⟨hdistinct, hmid, log, hhandled⟩ := h hnodup hfree
  obtain ⟨hlast, hfree', later, hhandled'⟩ := h' hdistinct hmid
  exact ⟨hlast, hfree', log ++ later, hhandled.trans hhandled'⟩

theorem Handles.of_turn (hqueue : home'.queue = home.queue)
    (hturn : home.tokens.keys.Nodup → TokenTurn fresh home.tokens home'.tokens)
    (hkeys : home'.tokens.keys ⊆ home.tokens.keys) : Handles fresh home home' :=
  fun hnodup hfree ↦ ⟨(hturn hnodup).nodup, fun token hfresh hmem ↦ hfree token hfresh (hkeys hmem),
    [], Handled.start.turn hqueue (hturn hnodup)⟩

theorem Handles.of_tokens_eq (hqueue : home'.queue = home.queue)
    (htokens : home'.tokens = home.tokens) : Handles fresh home home' :=
  .of_turn hqueue (fun hnodup ↦ .of_find_eq (htokens ▸ hnodup) (htokens ▸ rfl))
    (htokens ▸ List.Subset.refl _)

theorem handles_disable (home : HomeServer) (owner : IdentityId) :
    Handles fresh home (home.disableMailbox owner) := by
  intro hnodup hfree
  have hturn := tokenTurn_filter fresh hnodup fun entry ↦ decide (entry.2.mailbox ≠ owner)
  exact ⟨hturn.nodup, fun token hfresh hmem ↦ hfree token hfresh
    ((List.filter_sublist.map Prod.fst).subset hmem), _, Handled.start.disable owner⟩

theorem queue_appendInner (home : HomeServer) (inner : InnerEnvelope) :
    (home.appendInner inner).2.queue = home.queue := by
  rcases home.appendInner_cases inner with
    ⟨_, _, _, h⟩ | ⟨_, _, _, _, -, -, -, ⟨_, -, h⟩ | ⟨_, -, -, h⟩⟩ <;> rw [h] <;> rfl

theorem tokenTurn_appendInner (hnodup : home.tokens.keys.Nodup) (inner : InnerEnvelope) :
    TokenTurn fresh home.tokens (home.appendInner inner).2.tokens := by
  have hkeys : (home.appendInner inner).2.tokens.keys.Nodup :=
    (keys_appendInner home inner).symm ▸ hnodup
  cases hfind : home.tokens.find inner.deliveryCapability with
  | none => exact .of_find_eq hkeys (find_appendInner_none hfind)
  | some kind =>
    cases kind with
    | share =>
      rcases find_appendInner_share hfind with ⟨-, hsame⟩ | ⟨-, -, -, hafter⟩
      · exact .of_find_eq hkeys hsame
      · exact .of_set hkeys hfind hafter rfl rfl
    | contact =>
      rcases find_appendInner_contact hfind with ⟨-, -, hsame⟩ | ⟨-, -, hafter⟩
      · exact .of_find_eq hkeys hsame
      · exact .of_set hkeys hfind hafter rfl rfl

theorem handles_publishPrekey (home : HomeServer) (owner : IdentityId) (blob : Bytes) :
    Handles fresh home (home.publishPrekey owner blob).2 := by
  intro hnodup hfree
  have htokens := tokens_publishPrekey home owner blob
  refine ⟨htokens.symm ▸ hnodup, fun token hfresh ↦ htokens.symm ▸ hfree token hfresh, ?_⟩
  cases hok : (home.publishPrekey owner blob).1 with
  | ok => exact ⟨_, Handled.start.publish owner blob hok⟩
  | error e =>
    refine ⟨[], ?_⟩
    have hsame : (home.publishPrekey owner blob).2 = home := by
      unfold HomeServer.publishPrekey at hok ⊢
      split at hok
      · rfl
      · cases hok
    rw [hsame]
    exact .start

theorem handles_fetchPrekey (home : HomeServer) (token : Key) :
    Handles fresh home (home.fetchPrekey token).2 := by
  intro hnodup hfree
  cases hok : (home.fetchPrekey token).1 with
  | error e =>
    rw [fetchPrekey_of_error hok]
    exact ⟨hnodup, hfree, [], .start⟩
  | ok blob =>
    obtain ⟨mailbox, expiresAt, -, ⟨-, hsame⟩ | ⟨rest, hfind, -, hafter⟩⟩ := fetchPrekey_of_ok hok
    · rw [hsame]
      exact ⟨hnodup, hfree, [], .start⟩
    · have hissued : ¬fresh token := by
        intro hfresh
        rw [Tokens.find_eq_none_iff.mpr (hfree token hfresh)] at hfind
        cases hfind
      have hkeys : (home.fetchPrekey token).2.tokens.keys = home.tokens.keys := by
        rw [hafter]
        exact Tokens.keys_set ..
      exact ⟨hkeys ▸ hnodup, fun key hfresh ↦ hkeys ▸ hfree key hfresh, _,
        Handled.start.reserve token hissued hfind hok⟩

/-- Every change is made of handlings. -/
theorem manages_handles (crypto : Crypto) {promises : Promises}
    (hfresh : ∀ tokens token owner, promises.registers tokens token owner →
      token ∉ tokens.keys ∧ fresh token) :
    ManagesOwners crypto promises (Handles fresh) (HandlesIssue fresh) where
  trans := .trans
  aside h := .of_tokens_eq (by unfold HomeServer.queue; rw [h.prekeys]) h.tokens
  drop home keeps _ := .of_turn rfl (fun hnodup ↦ tokenTurn_filter fresh hnodup keeps)
    (List.filter_sublist.map Prod.fst).subset
  disable := handles_disable
  append home inner := .of_turn (queue_appendInner home inner)
    (fun hnodup ↦ tokenTurn_appendInner hnodup inner) (keys_appendInner home inner ▸ List.Subset.refl _)
  publish := handles_publishPrekey
  fetch := handles_fetchPrekey
  check home owner auth nowUnix expect := by
    obtain ⟨nonces, hframe⟩ := home.checkOwner_frame crypto owner auth nowUnix expect
    rw [hframe]
    exact .of_tokens_eq rfl rfl
  gc home owner := by
    refine .of_tokens_eq ?_ (home.tokens_gcMailbox owner)
    unfold HomeServer.gcMailbox
    split
    · rfl
    · dsimp only
      split_ifs <;> rfl
  ack home owner box upto _ := by
    unfold HomeServer.ackRows
    dsimp only
    split <;> exact .of_tokens_eq rfl rfl
  enter home _ _ entry _ := by
    cases entry <;> exact .of_tokens_eq rfl rfl
  weaken h hnodup hfree := ⟨(h hnodup hfree).1, (h hnodup hfree).2.2⟩
  register token kind h hregisters hnew hnodup hfree := by
    obtain ⟨hdistinct, hmid, log, hhandled⟩ := h hnodup hfree
    obtain ⟨hfree', hfresh'⟩ := hfresh _ _ _ hregisters
    have hnone : kind.reserved = none := by
      cases kind with
      | share => exact hnew.2
      | contact => rfl
    have hturn := TokenTurn.of_push hdistinct hfresh' hfree' hnone
    exact ⟨hturn.nodup, log, hhandled.turn rfl hturn⟩
  regrace grace' h hfind hnodup hfree := by
    obtain ⟨hdistinct, log, hhandled⟩ := h hnodup hfree
    refine ⟨?_, log, hhandled.turn rfl (.of_set ?_ hfind (find_setToken hfind) rfl rfl)⟩ <;>
      exact (Tokens.keys_set ..).symm ▸ hdistinct

end Handles

/-! ## Runs -/

/-- Runs with their ledgers of handlings. New capabilities get new keys. -/
inductive Dispensed (crypto : Crypto) : Node → Ledger Handling → Prop
  | fresh (hpke : HpkeKeypair) (sign : Key) (limits : Limits) :
    Dispensed crypto (.fresh crypto hpke sign limits) .blank
  | home {node : Node} {ledger : Ledger Handling} (h : Dispensed crypto node ledger) (op : HomeOp)
    (log : List Handling) (hmeets : op.Meets crypto ledger.newKeys node.home)
    (hhandled : Handled (· ∉ ledger.keys) node.home log (op.apply crypto node.home)) :
    Dispensed crypto (NodeOp.apply crypto node (.home op))
      (ledger.record log (op.apply crypto node.home))
  | group {node : Node} {ledger : Ledger Handling} (h : Dispensed crypto node ledger)
    (op : GroupOp) : Dispensed crypto (NodeOp.apply crypto node (.group op)) ledger
  | persist {node : Node} {ledger : Ledger Handling} (h : Dispensed crypto node ledger)
    (fault : Bool) :
    Dispensed crypto (NodeOp.apply crypto node (.persist fault))
      (ledger.save (node.persist fault).1)
  | reload {node : Node} {ledger : Ledger Handling} (h : Dispensed crypto node ledger) :
    Dispensed crypto (NodeOp.apply crypto node .reload)
      (ledger.restart (node.db.Loads crypto node.home))

/-- The token would be served: it is a share token, not burned and not expired. -/
def HomeServer.Serves (home : HomeServer) (token : Key) : Prop :=
  ∃ mailbox expiresAt reserved, home.now < expiresAt ∧
    home.tokens.find token = some (.share mailbox expiresAt false reserved)

section Dispensed

variable {crypto : Crypto} {node : Node} {ledger : Ledger Handling}

theorem Dispensed.keeps (h : Dispensed crypto node ledger) : ledger.Keeps Handed node := by
  induction h with
  | fresh hpke sign limits => exact Ledger.keeps_blank crypto hpke sign limits (.empty _)
  | home _ op log hmeets hhandled ih =>
    have hhanded := (hhandled.handed ih.memory.holds ih.synced.nodup).1
    exact ih.home hmeets (hhanded.mono (List.subset_append_left _ _))
  | group _ op ih => exact ⟨ih.synced, ih.memory, ih.stored⟩
  | persist _ fault ih => exact ih.persist fault
  | reload _ ih => exact ih.reload

/-- Every operation goes on. -/
theorem Dispensed.continues (h : Dispensed crypto node ledger) (op : HomeOp)
    (hmeets : op.Meets crypto ledger.newKeys node.home) :
    ∃ log, Dispensed crypto (NodeOp.apply crypto node (.home op))
      (ledger.record log (op.apply crypto node.home)) := by
  have hnodup := h.keeps.synced.nodup
  have hfree : node.home.Free (· ∉ ledger.keys) := fun _ hfresh hmem ↦ hfresh (h.keeps.subset hmem)
  have hfresh (tokens : Tokens) (token : Key) (owner : IdentityId)
      (hnew : ledger.newKeys.registers tokens token owner) :
      token ∉ tokens.keys ∧ token ∉ ledger.keys := hnew
  by_cases hclock : ∃ now, op = .setNow now
  · obtain ⟨now, rfl⟩ := hclock
    exact ⟨[], h.home _ [] hmeets (.turn .start rfl (.of_find_eq hnodup rfl))⟩
  · rw [not_exists] at hclock
    obtain ⟨-, log, hhandled⟩ := (manages_handles crypto hfresh).apply hmeets hclock hnodup hfree
    exact ⟨log, h.home op log hmeets hhandled⟩

/-- In every state a run reaches, the prekeys a mailbox was given since it was last disabled are those
reserved since, in this order, and then its queue. A token has at most one of them for ever, and it
is what `fetch_prekey` returns as long as the token is served. -/
theorem prekeys_handed_out_once (h : Dispensed crypto node ledger) :
    (∀ owner, (FifoTally.of (Handling.moves ledger.log owner)).puts =
      (FifoTally.of (Handling.moves ledger.log owner)).takes ++ node.home.queue owner) ∧
    (ledger.log.filterMap Handling.token).Nodup ∧
    (∀ token owner blob, .reserve token owner blob ∈ ledger.log → node.home.Serves token →
      node.home.fetchPrekey token = (.ok blob, node.home)) ∧
    (∀ token blob, (node.home.fetchPrekey token).1 = .ok blob →
      (∃ owner, .reserve token owner blob ∈ ledger.log) ∨
        token ∉ ledger.log.filterMap Handling.token ∧
          ∃ owner, node.home.queue owner = blob :: (node.home.fetchPrekey token).2.queue owner ∧
            ∀ other ≠ owner, (node.home.fetchPrekey token).2.queue other = node.home.queue other) ∧
    ∀ token e, (node.home.fetchPrekey token).1 = .error e →
      (node.home.fetchPrekey token).2 = node.home := by
  have hhanded := h.keeps.memory.holds
  refine ⟨fun owner ↦ (hhanded.queues owner).puts_eq, hhanded.once,
    fun token owner blob hmem ⟨mailbox, expiresAt, reserved, htime, hfind⟩ ↦ ?_,
    fun token blob hok ↦ ?_, fun token e ↦ fetchPrekey_of_error⟩
  · obtain ⟨-, hreserved⟩ := hhanded.stays token owner blob hmem _ hfind
    obtain rfl : reserved = some blob := hreserved
    unfold HomeServer.fetchPrekey
    rw [hfind]
    simp [htime]
  · obtain ⟨mailbox, expiresAt, -, ⟨hfind, -⟩ | ⟨rest, hfind, hfront, hafter⟩⟩ :=
      fetchPrekey_of_ok hok
    · exact .inl ⟨mailbox, hhanded.reserved token _ blob hfind rfl⟩
    · right
      refine ⟨fun hmem ↦ ?_, mailbox, ?_, fun other hne ↦ ?_⟩
      · obtain ⟨owner, blob', hreserve⟩ := Handling.mem_tokens.mp hmem
        cases (hhanded.stays token owner blob' hreserve _ hfind).2
      · rw [hfront, hafter]
        exact congrArg _ ((queue_setPrekeys _ _ rest mailbox).trans (if_pos rfl)).symm
      · rw [hafter]
        exact (queue_setPrekeys _ mailbox rest other).trans (if_neg hne)

set_option maxRecDepth 100000 in
/-- Two prekeys are published, and a token fetches its prekey twice. -/
theorem prekeys_handed_out_once_of_two_prekeys :
    let crypto := Crypto.transparent
    let key : Key := .replicate 32 1
    let start := HomeServer.withLimits crypto ⟨key, key⟩ key .default
    let registered := (HomeOp.register key key).apply crypto start
    let first := (HomeOp.publishPrekey key [1]).apply crypto registered
    let second := (HomeOp.publishPrekey key [2]).apply crypto first
    let shared := (HomeOp.registerShareToken key key none).apply crypto second
    let home := (HomeOp.fetchPrekey key).apply crypto shared
    home.queue key = [[2]] ∧ home.fetchPrekey key = (.ok [1], home) := by
  intro crypto key start registered first second shared home
  refine ⟨by decide +kernel, ?_⟩
  have hstart : Dispensed crypto ⟨start, .new, .empty⟩ _ := .fresh ⟨key, key⟩ key .default
  have hregistered : Dispensed crypto ⟨registered, .new, .empty⟩ _ :=
    hstart.home (.register key key) [] trivial (.turn .start rfl (.of_find_eq List.nodup_nil rfl))
  have hfirst : Dispensed crypto ⟨first, .new, .empty⟩ _ :=
    hregistered.home (.publishPrekey key [1]) _ trivial (.publish .start key [1] rfl)
  have hsecond : Dispensed crypto ⟨second, .new, .empty⟩ _ :=
    hfirst.home (.publishPrekey key [2]) _ trivial (.publish .start key [2] rfl)
  have hturn : TokenTurn (fun key ↦ key ∉ ([] : List Key)) second.tokens shared.tokens :=
    @TokenTurn.of_push _ [] List.nodup_nil key _ List.not_mem_nil List.not_mem_nil rfl
  have hshared : Dispensed crypto ⟨shared, .new, .empty⟩ _ :=
    hsecond.home (.registerShareToken key key none) []
      (fun _ _ ↦ ⟨List.not_mem_nil, List.not_mem_nil⟩) (.turn .start rfl hturn)
  have hfind : shared.tokens.find key = some (.share key 1700001800 false none) := by decide +kernel
  have hfetched : Dispensed crypto ⟨home, .new, .empty⟩ _ :=
    hshared.home (.fetchPrekey key) _ trivial
      (.reserve .start key (by decide +kernel) hfind rfl)
  refine (prekeys_handed_out_once hfetched).2.2.1 key key [1] (by simp [Ledger.record]) ?_
  exact ⟨key, 1700001800, some [1], by decide +kernel, by decide +kernel⟩

set_option maxRecDepth 100000 in
/-- A prekey is reserved after the last `persist`; the restart forgets it, and another token gets the
same prekey. -/
theorem prekey_handed_out_again :
    let crypto := Crypto.transparent
    let key : Key := .replicate 32 1
    let other : Key := .replicate 32 2
    let stored := run (NodeOp.apply crypto) (Node.fresh crypto ⟨key, key⟩ key .default)
      [.home (.rebindHost ⟨"local", by decide⟩ 8443), .home (.register key key),
        .home (.publishPrekey key [1]), .home (.registerShareToken key key none),
        .home (.registerShareToken key other none), .persist false]
    let again := run (NodeOp.apply crypto) stored [.home (.fetchPrekey key), .reload]
    (stored.home.fetchPrekey key).1.toOption = some [1] ∧
      (again.home.fetchPrekey other).1.toOption = some [1] := by
  decide +kernel

end Dispensed

end NemoMessenger.Server
