import NemoMessenger.Server.Http
import NemoMessenger.Server.MailboxLog
import NemoMessenger.Server.Membership
import NemoMessenger.Server.Valid

/-!
# Copies of rows

Members of a group get a row as a copy in their mailbox, or in the queue for the server their mailbox
is on. A copy for this server goes through a capability, which admits so many appends a minute. The
copies of a row are delivered one by one; `Delivered` says what all of them add together.
-/

namespace NemoMessenger.Server

open NemoMessenger.Data NemoMessenger.Wire

/-! ## Contact capabilities -/

namespace HomeServer

/-- The mailbox a live contact capability leads to. -/
def liveContact (home : HomeServer) (capability : Key) : Option IdentityId :=
  match home.tokens.find capability with
  | some (.contact mailbox graceUntil _ _) =>
    if !graceUntil.any (home.now ≥ ·) && (home.mailboxes.lookup mailbox).any (!·.disabled) then
      some mailbox
    else none
  | _ => none

/-- The window an append at this time is counted in: a new one when the old one is a minute old. -/
def window (home : HomeServer) (windowStart windowCount : ℕ) : ℕ × ℕ :=
  if home.now - windowStart ≥ 60 then (home.now, 0) else (windowStart, windowCount)

/-- The appends a contact capability still admits in its minute. -/
def allowance (home : HomeServer) (capability : Key) : ℕ :=
  match home.tokens.find capability with
  | some (.contact _ _ windowStart windowCount) =>
    ratePerMin - (home.window windowStart windowCount).2
  | _ => 0

/-- No mailbox knows an idempotency token. -/
def Unknown (home : HomeServer) (token : Key) : Prop :=
  ∀ m box, home.mailboxes.lookup m = some box → box.idempotency.lookup token = none

end HomeServer

/-- What an append does not change about a token. -/
def TokenKind.standing : TokenKind → IdentityId × Option (Option ℕ)
  | share mailbox _ _ _ => (mailbox, none)
  | contact mailbox graceUntil _ _ => (mailbox, some graceUntil)

/-- One token is used: it keeps its standing, and the others stay. -/
structure HomeServer.Uses (home home' : HomeServer) (capability : Key) : Prop where
  standing : ∀ token, (home'.tokens.find token).map TokenKind.standing =
    (home.tokens.find token).map TokenKind.standing
  others : ∀ token ≠ capability, home'.tokens.find token = home.tokens.find token

namespace HomeServer

variable {home home' home'' : HomeServer} {capability : Key}

theorem Uses.of_eq (h : home'.tokens = home.tokens) : home.Uses home' capability where
  standing token := by rw [h]
  others token _ := by rw [h]

theorem Uses.trans (h : home.Uses home' capability) (h' : home'.Uses home'' capability) :
    home.Uses home'' capability where
  standing token := (h'.standing token).trans (h.standing token)
  others token htoken := (h'.others token htoken).trans (h.others token htoken)

theorem uses_setToken {old kind : TokenKind} (hold : home.tokens.find capability = some old)
    (hkind : kind.standing = old.standing) : home.Uses (home.setToken capability kind) capability where
  standing token := by
    rw [setToken, Tokens.find_set]
    split_ifs with htoken
    · rw [htoken, hold, Option.map_some, Option.map_some, Option.map_some, hkind]
    · rfl
  others token htoken := by rw [setToken, Tokens.find_set, if_neg htoken]

theorem authorizeAppend_uses (home : HomeServer) (capability : Key) :
    home.Uses (home.authorizeAppend capability).2 capability := by
  unfold authorizeAppend
  dsimp only
  split
  · split_ifs <;> exact .of_eq rfl
  · rename_i htoken
    split_ifs
    all_goals first
      | exact .of_eq rfl
      | exact uses_setToken htoken rfl
  · exact .of_eq rfl

theorem burnIfShare_uses (home : HomeServer) (capability : Key) :
    home.Uses (home.burnIfShare capability) capability := by
  unfold burnIfShare
  split
  · rename_i htoken
    split_ifs
    · exact .of_eq rfl
    · exact uses_setToken htoken rfl
  · exact .of_eq rfl

@[simp] theorem tokens_gcMailbox (home : HomeServer) (owner : IdentityId) :
    (home.gcMailbox owner).tokens = home.tokens := by
  unfold gcMailbox
  split
  · rfl
  · dsimp only
    split <;> rfl

theorem appendInner_uses (home : HomeServer) (inner : InnerEnvelope) :
    home.Uses (home.appendInner inner).2 inner.deliveryCapability := by
  have hauth := home.authorizeAppend_uses inner.deliveryCapability
  unfold appendInner
  split
  · rename_i heq
    rwa [heq] at hauth
  · rename_i mailbox authorized heq
    rw [heq] at hauth
    split
    · exact hauth
    · split
      · exact hauth
      · split
        · exact hauth
        · rename_i box _ _ _ _ padded _
          have hburned := burnIfShare_uses (authorized.storeRow mailbox box inner padded.length)
            inner.deliveryCapability
          have hstored : authorized.Uses (authorized.storeRow mailbox box inner padded.length)
            inner.deliveryCapability := .of_eq rfl
          exact (hauth.trans (hstored.trans hburned)).trans (.of_eq (tokens_gcMailbox _ _))

theorem liveContact_eq_some {mailbox : IdentityId} :
    home.liveContact capability = some mailbox ↔ ∃ graceUntil windowStart windowCount box,
      home.tokens.find capability = some (.contact mailbox graceUntil windowStart windowCount) ∧
        graceUntil.any (home.now ≥ ·) = false ∧ home.mailboxes.lookup mailbox = some box ∧
          box.disabled = false := by
  unfold liveContact
  constructor
  · intro h
    split at h
    · rename_i hfind
      split_ifs at h with hopen
      cases h
      simp only [Bool.and_eq_true, Bool.not_eq_true'] at hopen
      obtain ⟨hgrace, hbox⟩ := hopen
      obtain ⟨box, hlookup, hdisabled⟩ := (Option.any_eq_true _ _).mp hbox
      exact ⟨_, _, _, box, hfind, hgrace, hlookup, by simpa using hdisabled⟩
    · cases h
  · rintro ⟨graceUntil, windowStart, windowCount, box, hfind, hgrace, hbox, hdisabled⟩
    rw [hfind]
    simp [hgrace, hbox, hdisabled]

/-- An append is counted in the window, unless the window is full. -/
theorem authorizeAppend_of_contact {mailbox : IdentityId} {graceUntil : Option ℕ}
    {windowStart windowCount : ℕ} {box : Mailbox}
    (hfind : home.tokens.find capability = some (.contact mailbox graceUntil windowStart windowCount))
    (hgrace : graceUntil.any (home.now ≥ ·) = false)
    (hbox : home.mailboxes.lookup mailbox = some box) (hdisabled : box.disabled = false) :
    home.authorizeAppend capability =
      if (home.window windowStart windowCount).2 ≥ ratePerMin then (.error .denied, home)
      else (.ok mailbox, home.setToken capability (.contact mailbox graceUntil
        (home.window windowStart windowCount).1 ((home.window windowStart windowCount).2 + 1))) := by
  unfold authorizeAppend
  rw [hfind]
  dsimp only
  rw [hgrace, if_neg (by simp)]
  refine if_congr Iff.rfl rfl ?_
  have henabled (kind : TokenKind) :
      (home.setToken capability kind).mailboxDisabled mailbox = false := by
    unfold mailboxDisabled setToken
    rw [hbox, Option.any_some, hdisabled]
  exact if_neg (by rw [henabled]; simp)

/-- The window an append opens or continues is still the window right after it. -/
theorem window_window (home : HomeServer) (windowStart windowCount n : ℕ) :
    home.window (home.window windowStart windowCount).1 n =
      ((home.window windowStart windowCount).1, n) := by
  unfold window
  split_ifs with hold hnew
  · rw [Nat.sub_self] at hnew
    omega
  · rfl
  · rfl

/-- An append through a live contact capability succeeds while the capability admits it. -/
theorem appendInner_of_live {inner : InnerEnvelope} {padded : Bytes} {mailbox : IdentityId}
    (hlive : home.liveContact inner.deliveryCapability = some mailbox)
    (hunknown : home.Unknown inner.idempotencyToken) (hencode : inner.encodePadded = .ok padded) :
    (home.allowance inner.deliveryCapability = 0 ∧
        home.appendInner inner = (.error .denied, home)) ∨
      ∃ row home', home.appendInner inner = (.ok row.seq, home') ∧ row.inner = inner ∧
        home'.history.appended = home.history.appended ++ [(mailbox, row)] ∧
        home'.allowance inner.deliveryCapability + 1 =
          home.allowance inner.deliveryCapability := by
  obtain ⟨grace, start, count, box, hfind, hgrace, hbox, hdisabled⟩ := liveContact_eq_some.mp hlive
  have hauth := authorizeAppend_of_contact hfind hgrace hbox hdisabled
  have hallowance : home.allowance inner.deliveryCapability =
      ratePerMin - (home.window start count).2 := by
    rw [allowance, hfind]
  by_cases hfull : (home.window start count).2 ≥ ratePerMin
  · rw [if_pos hfull] at hauth
    refine .inl ⟨by omega, ?_⟩
    rw [appendInner, hauth]
  · rw [if_neg hfull] at hauth
    set kind : TokenKind := .contact mailbox grace (home.window start count).1
      ((home.window start count).2 + 1) with hkind
    have hset : (home.setToken inner.deliveryCapability kind).tokens.find inner.deliveryCapability =
        some kind := by
      rw [setToken, Tokens.find_set, if_pos rfl, hfind]
      rfl
    have hresult : home.appendInner inner = (.ok box.nextSeq,
        (((home.setToken inner.deliveryCapability kind).storeRow mailbox box inner
          padded.length).burnIfShare inner.deliveryCapability).gcMailbox mailbox) := by
      unfold appendInner
      rw [hauth]
      dsimp only
      rw [show (home.setToken inner.deliveryCapability kind).mailboxes.lookup mailbox = some box
        from hbox]
      dsimp only
      rw [hunknown mailbox box hbox]
      dsimp only
      rw [hencode]
    have hfound : (home.appendInner inner).2.tokens.find inner.deliveryCapability = some kind := by
      rw [hresult, tokens_gcMailbox]
      unfold burnIfShare
      rw [show ((home.setToken inner.deliveryCapability kind).storeRow mailbox box inner
        padded.length).tokens = (home.setToken inner.deliveryCapability kind).tokens from rfl, hset]
      exact hset
    right
    rcases appendInner_cases home inner with ⟨_, _, _, h⟩ |
      ⟨m, b, tokens, dirty, hm, hb, -, ⟨seq, hseq, h⟩ | ⟨padded', -, -, h⟩⟩
    · rw [hresult] at h
      cases h
    · rw [hunknown m b hb] at hseq
      cases hseq
    · obtain rfl : mailbox = m := by
        rw [capabilityMailbox, hfind] at hm
        exact Option.some.inj hm
      rw [h] at hfound
      refine ⟨home.newRow b inner, _, h, rfl, rfl, ?_⟩
      rw [hallowance, allowance, hfound]
      change ratePerMin - (home.window (home.window start count).1 _).2 + 1 = _
      rw [window_window]
      dsimp only
      omega

/-! ## One copy -/

/-- A copy with this capability, encapsulated key and idempotency token came in. -/
structure Takes (home home' : HomeServer) (capability enc token : Key) : Prop where
  hpke : home'.hpke = home.hpke
  outbound : home'.outbound = home.outbound
  live : ∀ c, home'.liveContact c = home.liveContact c
  mailbox : ∀ c, home'.capabilityMailbox c = home.capabilityMailbox c
  allowance : ∀ c ≠ capability, home'.allowance c = home.allowance c
  unseen : ∀ e ≠ enc, home.seenEnc.lookup e = none → home'.seenEnc.lookup e = none
  unknown : ∀ t ≠ token, home.Unknown t → home'.Unknown t

theorem Uses.symm (h : home.Uses home' capability) : home'.Uses home capability where
  standing token := (h.standing token).symm
  others token htoken := (h.others token htoken).symm

theorem Uses.liveContact_of_eq_some (h : home.Uses home' capability) (hnow : home'.now = home.now)
    (hdisabled : ∀ m, (home'.mailboxes.lookup m).map Mailbox.disabled =
      (home.mailboxes.lookup m).map Mailbox.disabled) {c : Key} {mailbox : IdentityId}
    (hlive : home.liveContact c = some mailbox) : home'.liveContact c = some mailbox := by
  obtain ⟨grace, start, count, box, hfind, hgrace, hbox, hopen⟩ := liveContact_eq_some.mp hlive
  have hstanding := h.standing c
  rw [hfind, Option.map_some] at hstanding
  obtain ⟨kind, hfind', hkind⟩ := Option.map_eq_some_iff.mp hstanding
  have hsame := hdisabled mailbox
  rw [hbox, Option.map_some] at hsame
  obtain ⟨box', hbox', hopen'⟩ := Option.map_eq_some_iff.mp hsame
  cases kind with
  | share => cases hkind
  | contact mailbox' grace' start' count' =>
    cases hkind
    exact liveContact_eq_some.mpr
      ⟨grace, start', count', box', hfind', hnow ▸ hgrace, hbox', hopen'.trans hopen⟩

/-- Where a token is used and every mailbox stays enabled or disabled, the same contacts are live. -/
theorem Uses.liveContact (h : home.Uses home' capability) (hnow : home'.now = home.now)
    (hdisabled : ∀ m, (home'.mailboxes.lookup m).map Mailbox.disabled =
      (home.mailboxes.lookup m).map Mailbox.disabled) (c : Key) :
    home'.liveContact c = home.liveContact c := by
  apply Option.ext
  intro mailbox
  constructor
  · exact h.symm.liveContact_of_eq_some hnow.symm fun m ↦ (hdisabled m).symm
  · exact h.liveContact_of_eq_some hnow hdisabled

theorem Uses.capabilityMailbox (h : home.Uses home' capability) (c : Key) :
    home'.capabilityMailbox c = home.capabilityMailbox c := by
  have hstanding := congrArg (Option.map Prod.fst) (h.standing c)
  rw [Option.map_map, Option.map_map] at hstanding
  have hmailbox : Prod.fst ∘ TokenKind.standing = TokenKind.mailbox := by
    funext kind
    cases kind <;> rfl
  rwa [hmailbox] at hstanding

theorem Uses.allowance (h : home.Uses home' capability) (hnow : home'.now = home.now) {c : Key}
    (hc : c ≠ capability) : home'.allowance c = home.allowance c := by
  unfold HomeServer.allowance window
  rw [h.others c hc, hnow]

/-- An append leaves every mailbox as enabled or disabled as it was. -/
theorem disabled_appendInner (home : HomeServer) (inner : InnerEnvelope) (m : IdentityId) :
    ((home.appendInner inner).2.mailboxes.lookup m).map Mailbox.disabled =
      (home.mailboxes.lookup m).map Mailbox.disabled := by
  rcases appendInner_cases home inner with ⟨_, _, _, h⟩ |
    ⟨mailbox, box, tokens, dirty, hm, hbox, hdisabled, ⟨_, -, h⟩ | ⟨padded, -, -, h⟩⟩ <;> rw [h]
  obtain ⟨hgc, -⟩ := Mailbox.gc_spec (box.push home.now home.limits.mailboxMaxAgeSecs inner
    padded.length) home.now home.limits.mailboxMaxAgeSecs home.limits.mailboxMaxBytes
  dsimp only
  rw [FiniteMap.lookup_insert_ite]
  split_ifs with hmailbox
  · rw [hmailbox, hbox, hgc, Option.map_some, Option.map_some,
      Mailbox.foldl_removeRow_eq Mailbox.removeRow_disabled]
    rfl
  · rfl

/-- What `append_inner` adds: at most the row of the envelope, in the mailbox of its capability. -/
theorem appendInner_takes (home : HomeServer) (inner : InnerEnvelope) (enc : Key) :
    home.Takes (home.appendInner inner).2 inner.deliveryCapability enc inner.idempotencyToken ∧
      ((home.appendInner inner).2.history.appended = home.history.appended ∨
        ∃ m row, home.capabilityMailbox inner.deliveryCapability = some m ∧ row.inner = inner ∧
          (home.appendInner inner).2.history.appended = home.history.appended ++ [(m, row)]) := by
  have huses := home.appendInner_uses inner
  have htakes (hhpke : (home.appendInner inner).2.hpke = home.hpke)
      (houtbound : (home.appendInner inner).2.outbound = home.outbound)
      (hnow : (home.appendInner inner).2.now = home.now)
      (hseen : (home.appendInner inner).2.seenEnc = home.seenEnc)
      (hunknown : ∀ t ≠ inner.idempotencyToken, home.Unknown t →
        (home.appendInner inner).2.Unknown t) :
      home.Takes (home.appendInner inner).2 inner.deliveryCapability enc inner.idempotencyToken :=
    ⟨hhpke, houtbound, huses.liveContact hnow (home.disabled_appendInner inner),
      huses.capabilityMailbox, fun c hc ↦ huses.allowance hnow hc, fun e _ he ↦ hseen ▸ he, hunknown⟩
  rcases appendInner_cases home inner with ⟨_, _, _, h⟩ |
    ⟨mailbox, box, tokens, dirty, hm, hbox, hdisabled, ⟨_, -, h⟩ | ⟨padded, -, -, h⟩⟩ <;>
      rw [h] at htakes ⊢
  · exact ⟨htakes rfl rfl rfl rfl fun _ _ ht ↦ ht, .inl rfl⟩
  · exact ⟨htakes rfl rfl rfl rfl fun _ _ ht ↦ ht, .inl rfl⟩
  · obtain ⟨hgc, -⟩ := Mailbox.gc_spec (box.push home.now home.limits.mailboxMaxAgeSecs inner
      padded.length) home.now home.limits.mailboxMaxAgeSecs home.limits.mailboxMaxBytes
    refine ⟨htakes rfl rfl rfl rfl fun t ht hunknown m b hb ↦ ?_,
      .inr ⟨mailbox, home.newRow box inner, hm, rfl, rfl⟩⟩
    dsimp only at hb
    rw [FiniteMap.lookup_insert_ite] at hb
    split_ifs at hb with hmailbox
    · cases hb
      cases hknown : ((box.push home.now home.limits.mailboxMaxAgeSecs inner padded.length).gc
        home.now home.limits.mailboxMaxAgeSecs
        home.limits.mailboxMaxBytes).1.idempotency.lookup t with
      | none => rfl
      | some seq =>
        rw [hgc] at hknown
        have hpushed := Mailbox.idempotency_of_foldl_removeRow _ hknown
        rw [Mailbox.push, FiniteMap.lookup_insert_ite, if_neg ht,
          hunknown mailbox box hbox] at hpushed
        cases hpushed
    · exact hunknown m b hb

theorem Takes.remember {enc token : Key} (h : home.Takes home' capability enc token) (seq : ℕ)
    (outer : OuterEnvelope) :
    home.Takes ((home'.rememberEnc enc seq).noteIngested outer seq) capability enc token where
  hpke := h.hpke
  outbound := h.outbound
  live := h.live
  mailbox := h.mailbox
  allowance := h.allowance
  unseen e he hunseen := by
    have hkept := h.unseen e he hunseen
    rw [noteIngested, rememberEnc, FiniteMap.lookup_insert_ite, if_neg he]
    split_ifs
    · rfl
    · exact hkept
  unknown := h.unknown

end HomeServer

section Copies

variable {crypto : Crypto} {home : HomeServer} {type : MessageType} {body : Bytes}
  {target : FanoutTarget} {draw : Key × Key} {outer : OuterEnvelope}

/-- Whether a target is behind this server. -/
def HomeServer.IsLocal (crypto : Crypto) (home : HomeServer) (target : FanoutTarget) : Prop :=
  crypto.serverId target.homeHpkePublic = home.serverId crypto

instance (crypto : Crypto) (home : HomeServer) : DecidablePred (home.IsLocal crypto) :=
  fun target ↦ inferInstanceAs (Decidable (crypto.serverId target.homeHpkePublic = _))

/-- What the server reads when it opens a copy that was sealed for it. -/
theorem openOuter_sealCopy {encap : Key → Key} (hopens : crypto.Opens home.hpke encap)
    (htype : type.isAttachment = false) (hlocal : home.IsLocal crypto target)
    (h : GroupHost.sealCopy crypto type body target draw = .ok outer) :
    encapKey outer.hpkeCiphertext = .ok (encap draw.2) ∧ ∃ inner padded,
      crypto.openOuter home.hpke outer = .ok inner ∧ inner.encodePadded = .ok padded ∧
        inner.deliveryCapability = target.deliveryCapability ∧ inner.idempotencyToken = draw.1 := by
  obtain ⟨message, hpad, h⟩ := bind_eq_ok.mp h
  obtain ⟨padded, hpadded, henc, hopen⟩ := crypto.openOuter_of_sealToServer hopens hlocal h
  obtain ⟨hmessage, hlen⟩ := PaddedMessage.innerLen_of_pad hpad
  rw [innerBuckets, htype] at hlen
  obtain ⟨inner, hinner, hcapability⟩ :=
    InnerEnvelope.exists_decodePadded (hmessage ▸ htype) hlen rfl hpadded
  exact ⟨henc, inner, padded, hopen.trans hinner,
    InnerEnvelope.encodePadded_of_decodePadded hpadded hinner, hcapability,
    InnerEnvelope.idempotencyToken_of_decodePadded hpadded hinner⟩

/-- What opens here goes to `append_inner`. -/
theorem enqueue_opened {enc : Key} {inner : InnerEnvelope}
    (hdest : outer.destinationServerId = home.serverId crypto)
    (henc : encapKey outer.hpkeCiphertext = .ok enc) (hunseen : home.seenEnc.lookup enc = none)
    (hopen : crypto.openOuter home.hpke outer = .ok inner) :
    (home.enqueue crypto outer).2 = (home.appendInner inner).2 ∨
      ∃ seq, (home.enqueue crypto outer).2 =
        ((home.appendInner inner).2.rememberEnc enc seq).noteIngested outer seq := by
  rw [HomeServer.enqueue, if_pos hdest, HomeServer.ingest, henc]
  dsimp only
  rw [hunseen]
  dsimp only
  rw [hopen]
  dsimp only
  cases happend : home.appendInner inner with
  | mk result after =>
    cases result with
    | error e => exact .inl rfl
    | ok seq => exact .inr ⟨seq, rfl⟩

/-- A copy for this server adds at most one row, and exactly one if a live capability admits it. -/
theorem enqueue_local {encap : Key → Key} (hopens : crypto.Opens home.hpke encap)
    (htype : type.isAttachment = false) (hlocal : home.IsLocal crypto target)
    (hunseen : home.seenEnc.lookup (encap draw.2) = none) (hunknown : home.Unknown draw.1)
    (h : GroupHost.sealCopy crypto type body target draw = .ok outer) :
    home.Takes (home.enqueue crypto outer).2 target.deliveryCapability (encap draw.2) draw.1 ∧
      ∃ rows, (home.enqueue crypto outer).2.history.appended = home.history.appended ++ rows ∧
        rows.length ≤ 1 ∧
        (∀ e ∈ rows, home.capabilityMailbox target.deliveryCapability = some e.1 ∧
          crypto.openOuter home.hpke outer = .ok e.2.inner ∧
          e.2.inner.deliveryCapability = target.deliveryCapability) ∧
        ((home.liveContact target.deliveryCapability).isSome →
          rows.length = min 1 (home.allowance target.deliveryCapability) ∧
          (home.enqueue crypto outer).2.allowance target.deliveryCapability =
            home.allowance target.deliveryCapability - 1) := by
  obtain ⟨henc, inner, padded, hopen, hpadded, hcapability, htoken⟩ :=
    openOuter_sealCopy hopens htype hlocal h
  have hdest : outer.destinationServerId = home.serverId crypto := by
    obtain ⟨_, -, hseal⟩ := bind_eq_ok.mp h
    obtain ⟨_, -, hseal⟩ := bind_eq_ok.mp hseal
    obtain ⟨_, -, hseal⟩ := bind_eq_ok.mp hseal
    cases hseal
    exact hlocal
  obtain ⟨htakes, hrows⟩ := home.appendInner_takes inner (encap draw.2)
  rw [hcapability, htoken] at htakes
  rw [hcapability] at hrows
  -- `ingest` remembers the encapsulated key, and leaves log and tokens as `append_inner` does
  obtain ⟨htaken, happended, hallowance⟩ :
      home.Takes (home.enqueue crypto outer).2 target.deliveryCapability (encap draw.2) draw.1 ∧
        (home.enqueue crypto outer).2.history.appended =
          (home.appendInner inner).2.history.appended ∧
        (home.enqueue crypto outer).2.allowance target.deliveryCapability =
          (home.appendInner inner).2.allowance target.deliveryCapability := by
    rcases enqueue_opened hdest henc hunseen hopen with heq | ⟨seq, heq⟩
    · rw [heq]
      exact ⟨htakes, rfl, rfl⟩
    · rw [heq]
      exact ⟨htakes.remember seq outer, rfl, rfl⟩
  rw [happended, hallowance]
  refine ⟨htaken, ?_⟩
  cases hlive : home.liveContact target.deliveryCapability with
  | none =>
    rcases hrows with hsame | ⟨m, row, hm, hrow, hadded⟩
    · exact ⟨[], by rw [hsame, List.append_nil], Nat.zero_le _, nofun, nofun⟩
    · refine ⟨[(m, row)], hadded, le_rfl, fun e he ↦ ?_, nofun⟩
      obtain rfl := List.mem_singleton.mp he
      exact ⟨hm, hrow ▸ hopen, hrow ▸ hcapability⟩
  | some mailbox =>
    rw [← hcapability] at hlive ⊢
    rcases HomeServer.appendInner_of_live hlive (htoken ▸ hunknown) hpadded with
      ⟨hzero, happend⟩ | ⟨row, after, happend, hrow, hadded, hone⟩
    · rw [happend]
      refine ⟨[], (List.append_nil _).symm, Nat.zero_le _, nofun, fun _ ↦ ?_⟩
      rw [hzero]
      exact ⟨rfl, rfl⟩
    · rw [happend]
      refine ⟨[(mailbox, row)], hadded, le_rfl, fun e he ↦ ?_, fun _ ↦ ?_⟩
      · obtain rfl := List.mem_singleton.mp he
        obtain ⟨_, _, _, _, hfind, -⟩ := HomeServer.liveContact_eq_some.mp hlive
        refine ⟨?_, hrow ▸ hopen, hrow ▸ rfl⟩
        rw [HomeServer.capabilityMailbox, hfind]
        rfl
      · dsimp only [List.length_singleton]
        omega

/-- A copy for another server goes to the queue. -/
theorem enqueue_remote (hremote : ¬ home.IsLocal crypto target)
    (h : GroupHost.sealCopy crypto type body target draw = .ok outer) :
    ∃ row : OutboundRow, row.dest = crypto.serverId target.homeHpkePublic ∧ row.outer = outer ∧
      (home.enqueue crypto outer).2 = home.setOutbound (home.outbound ++ [row]) := by
  have hdest : outer.destinationServerId = crypto.serverId target.homeHpkePublic := by
    obtain ⟨_, -, hseal⟩ := bind_eq_ok.mp h
    obtain ⟨_, -, hseal⟩ := bind_eq_ok.mp hseal
    obtain ⟨_, -, hseal⟩ := bind_eq_ok.mp hseal
    cases hseal
    rfl
  have hqueued : ¬ outer.destinationServerId = home.serverId crypto := fun hown ↦
    hremote (hdest.symm.trans hown)
  rw [HomeServer.enqueue, if_neg hqueued]
  exact ⟨_, hdest, rfl, rfl⟩

end Copies

/-! ## All copies of a row -/

/-- A copy to be sealed for a member. -/
structure MemberCopy where
  credentialId : Key
  target : FanoutTarget
  draw : Key × Key

/-- The randomness of copies is new to the server. -/
structure MemberCopy.Fresh (encap : Key → Key) (home : HomeServer) (copies : List MemberCopy) :
    Prop where
  encs : (copies.map fun c ↦ encap c.draw.2).Nodup
  tokens : (copies.map fun c ↦ c.draw.1).Nodup
  unseen : ∀ c ∈ copies, home.seenEnc.lookup (encap c.draw.2) = none
  unknown : ∀ c ∈ copies, home.Unknown c.draw.1

/-- Whether a copy is for a capability of this server. -/
def HomeServer.IsBehind (crypto : Crypto) (home : HomeServer) (capability : Key)
    (target : FanoutTarget) : Prop :=
  home.IsLocal crypto target ∧ target.deliveryCapability = capability

instance (crypto : Crypto) (home : HomeServer) (capability : Key) :
    DecidablePred (home.IsBehind crypto capability) :=
  fun _ ↦ inferInstanceAs (Decidable (_ ∧ _))

/-- What delivering copies adds. Rows in mailboxes and in the queue are tagged with the credential
they are for. -/
structure Delivered (crypto : Crypto) (type : MessageType) (body : Bytes) (home home' : HomeServer)
    (copies : List MemberCopy) (rows : List (Key × IdentityId × StoredEnvelope))
    (queue : List (Key × OutboundRow)) : Prop where
  appended : home'.history.appended = home.history.appended ++ rows.map Prod.snd
  outbound : home'.outbound = home.outbound ++ queue.map Prod.snd
  row : ∀ e ∈ rows, ∃ c ∈ copies, c.credentialId = e.1 ∧ home.IsLocal crypto c.target ∧
    home.capabilityMailbox c.target.deliveryCapability = some e.2.1 ∧
    e.2.2.inner.deliveryCapability = c.target.deliveryCapability ∧
    ∃ outer, GroupHost.sealCopy crypto type body c.target c.draw = .ok outer ∧
      crypto.openOuter home.hpke outer = .ok e.2.2.inner
  queued : ∀ e ∈ queue, ∃ c ∈ copies, c.credentialId = e.1 ∧ ¬ home.IsLocal crypto c.target ∧
    e.2.dest = crypto.serverId c.target.homeHpkePublic ∧
    GroupHost.sealCopy crypto type body c.target c.draw = .ok e.2.outer
  rowsOnce : (rows.map Prod.fst).Sublist
    ((copies.filter fun c ↦ home.IsLocal crypto c.target).map MemberCopy.credentialId)
  queuedOnce : queue.map Prod.fst =
    (copies.filter fun c ↦ ¬ home.IsLocal crypto c.target).map MemberCopy.credentialId
  admitted : ∀ capability, (home.liveContact capability).isSome →
    rows.countP (fun e ↦ e.2.2.inner.deliveryCapability = capability) =
      min (copies.countP fun c ↦ home.IsBehind crypto capability c.target)
        (home.allowance capability)

section Delivered

variable {crypto : Crypto} {type : MessageType} {body : Bytes} {home home' : HomeServer}
  {copies : List MemberCopy} {rows : List (Key × IdentityId × StoredEnvelope)}
  {queue : List (Key × OutboundRow)}

theorem delivered_nil (crypto : Crypto) (type : MessageType) (body : Bytes) (home : HomeServer) :
    Delivered crypto type body home home [] [] [] where
  appended := (List.append_nil _).symm
  outbound := (List.append_nil _).symm
  row e he := by cases he
  queued e he := by cases he
  rowsOnce := .slnil
  queuedOnce := rfl
  admitted _ _ := (Nat.zero_min _).symm

theorem isLocal_congr (hhpke : home'.hpke = home.hpke) (target : FanoutTarget) :
    home'.IsLocal crypto target ↔ home.IsLocal crypto target := by
  unfold HomeServer.IsLocal HomeServer.serverId
  rw [hhpke]

theorem isBehind_congr (hhpke : home'.hpke = home.hpke) (capability : Key) (target : FanoutTarget) :
    home'.IsBehind crypto capability target ↔ home.IsBehind crypto capability target := by
  unfold HomeServer.IsBehind
  rw [isLocal_congr hhpke]

/-- One more copy for another server. -/
theorem Delivered.remote {next : HomeServer} {c : MemberCopy} {row : OutboundRow}
    (h : Delivered crypto type body next home' copies rows queue)
    (hqueued : next = home.setOutbound (home.outbound ++ [row]))
    (hremote : ¬ home.IsLocal crypto c.target)
    (hdest : row.dest = crypto.serverId c.target.homeHpkePublic)
    (hseal : GroupHost.sealCopy crypto type body c.target c.draw = .ok row.outer) :
    Delivered crypto type body home home' (c :: copies) rows ((c.credentialId, row) :: queue) := by
  subst hqueued
  refine ⟨h.appended, ?_, fun e he ↦ ?_, fun e he ↦ ?_, ?_, ?_, fun capability hlive ↦ ?_⟩
  · rw [h.outbound, HomeServer.setOutbound, List.map_cons, List.append_assoc]
    rfl
  · obtain ⟨c', hc', hrow⟩ := h.row e he
    exact ⟨c', List.mem_cons_of_mem _ hc', hrow⟩
  · rcases List.mem_cons.mp he with rfl | he
    · exact ⟨c, List.mem_cons_self, rfl, hremote, hdest, hseal⟩
    · obtain ⟨c', hc', hrow⟩ := h.queued e he
      exact ⟨c', List.mem_cons_of_mem _ hc', hrow⟩
  · rw [List.filter_cons_of_neg (by simpa using hremote)]
    exact h.rowsOnce
  · rw [List.filter_cons_of_pos (by simpa using hremote), List.map_cons, List.map_cons]
    exact congrArg _ h.queuedOnce
  · rw [List.countP_cons_of_neg (by simp [HomeServer.IsBehind, hremote])]
    exact h.admitted capability hlive

/-- One more copy for this server. -/
theorem Delivered.local {next : HomeServer} {c : MemberCopy} {enc token : Key}
    {added : List (IdentityId × StoredEnvelope)} {outer : OuterEnvelope}
    (h : Delivered crypto type body next home' copies rows queue)
    (htakes : home.Takes next c.target.deliveryCapability enc token)
    (hlocal : home.IsLocal crypto c.target)
    (hseal : GroupHost.sealCopy crypto type body c.target c.draw = .ok outer)
    (hadded : next.history.appended = home.history.appended ++ added) (hone : added.length ≤ 1)
    (hcopy : ∀ e ∈ added, home.capabilityMailbox c.target.deliveryCapability = some e.1 ∧
      crypto.openOuter home.hpke outer = .ok e.2.inner ∧
      e.2.inner.deliveryCapability = c.target.deliveryCapability)
    (hadmits : (home.liveContact c.target.deliveryCapability).isSome →
      added.length = min 1 (home.allowance c.target.deliveryCapability) ∧
      next.allowance c.target.deliveryCapability =
        home.allowance c.target.deliveryCapability - 1) :
    Delivered crypto type body home home' (c :: copies)
      (added.map (fun e ↦ (c.credentialId, e)) ++ rows) queue where
  appended := by
    rw [h.appended, hadded, List.map_append, List.map_map, List.append_assoc]
    simp
  outbound := by rw [h.outbound, htakes.outbound]
  row e he := by
    rcases List.mem_append.mp he with he | he
    · obtain ⟨row, hrow, rfl⟩ := List.mem_map.mp he
      obtain ⟨hmailbox, hopen, hcapability⟩ := hcopy row hrow
      exact ⟨c, List.mem_cons_self, rfl, hlocal, hmailbox, hcapability, outer, hseal, hopen⟩
    · obtain ⟨c', hc', hid, hlocal', hmailbox, hrow⟩ := h.row e he
      rw [htakes.hpke] at hrow
      exact ⟨c', List.mem_cons_of_mem _ hc', hid, (isLocal_congr htakes.hpke _).mp hlocal',
        (htakes.mailbox _).symm.trans hmailbox, hrow⟩
  queued e he := by
    obtain ⟨c', hc', hid, hremote, hrow⟩ := h.queued e he
    exact ⟨c', List.mem_cons_of_mem _ hc', hid,
      fun hlocal' ↦ hremote ((isLocal_congr htakes.hpke _).mpr hlocal'), hrow⟩
  rowsOnce := by
    have hrest := h.rowsOnce
    simp only [isLocal_congr htakes.hpke] at hrest
    rw [List.filter_cons_of_pos (by simpa using hlocal), List.map_cons, List.map_append,
      List.map_map]
    match added, hone with
    | [], _ => exact hrest.cons _
    | [_], _ => exact hrest.cons_cons _
  queuedOnce := by
    have hrest := h.queuedOnce
    simp only [isLocal_congr htakes.hpke] at hrest
    rw [hrest, List.filter_cons_of_neg (by simpa using hlocal)]
  admitted capability hlive := by
    have hrest := h.admitted capability (by rwa [htakes.live])
    have hbehind : copies.countP (fun c ↦ next.IsBehind crypto capability c.target) =
        copies.countP fun c ↦ home.IsBehind crypto capability c.target :=
      List.countP_congr fun c _ ↦ by simp [isBehind_congr htakes.hpke]
    rw [List.countP_append, hrest, hbehind]
    by_cases hcapability : c.target.deliveryCapability = capability
    · subst hcapability
      obtain ⟨hlength, hallowance⟩ := hadmits hlive
      have hall : (added.map fun e ↦ (c.credentialId, e)).countP (fun e ↦
          e.2.2.inner.deliveryCapability = c.target.deliveryCapability) = added.length := by
        rw [List.countP_map, List.countP_eq_length]
        intro e he
        simpa using (hcopy e he).2.2
      rw [List.countP_cons_of_pos (by simpa [HomeServer.IsBehind] using hlocal), hall, hlength,
        hallowance]
      omega
    · have hnone : (added.map fun e ↦ (c.credentialId, e)).countP (fun e ↦
          e.2.2.inner.deliveryCapability = capability) = 0 := by
        rw [List.countP_map, List.countP_eq_zero]
        intro e he
        simpa [(hcopy e he).2.2] using hcapability
      rw [List.countP_cons_of_neg (by simp [HomeServer.IsBehind, hcapability]), hnone,
        htakes.allowance capability (Ne.symm hcapability), Nat.zero_add]

/-- Delivering all copies of a row. -/
theorem delivered_enqueueAll {encap : Key → Key} (hopens : crypto.Opens home.hpke encap)
    (htype : type.isAttachment = false) (hfresh : MemberCopy.Fresh encap home copies)
    {outers : List OuterEnvelope} (hsealed : List.Forall₂
      (fun c outer ↦ GroupHost.sealCopy crypto type body c.target c.draw = .ok outer) copies outers) :
    ∃ rows queue,
      Delivered crypto type body home (home.enqueueAll crypto outers) copies rows queue := by
  induction hsealed generalizing home with
  | nil => exact ⟨[], [], delivered_nil crypto type body home⟩
  | @cons c outer copies outers hseal _ ih =>
    obtain ⟨hencs, htokens, hunseen, hunknown⟩ := hfresh
    obtain ⟨henc, hencs⟩ := List.nodup_cons.mp hencs
    obtain ⟨htoken, htokens⟩ := List.nodup_cons.mp htokens
    by_cases hlocal : home.IsLocal crypto c.target
    · obtain ⟨htakes, added, hadded, hone, hcopy, hadmits⟩ := enqueue_local hopens htype hlocal
        (hunseen c List.mem_cons_self) (hunknown c List.mem_cons_self) hseal
      have hlater : MemberCopy.Fresh encap (home.enqueue crypto outer).2 copies := by
        refine ⟨hencs, htokens, fun c' hc' ↦ ?_, fun c' hc' ↦ ?_⟩
        · refine htakes.unseen _ (fun heq ↦ henc ?_) (hunseen c' (List.mem_cons_of_mem _ hc'))
          exact List.mem_map.mpr ⟨c', hc', heq⟩
        · refine htakes.unknown _ (fun heq ↦ htoken ?_) (hunknown c' (List.mem_cons_of_mem _ hc'))
          exact List.mem_map.mpr ⟨c', hc', heq⟩
      obtain ⟨rows, queue, hrest⟩ := ih (htakes.hpke ▸ hopens) hlater
      exact ⟨_, queue, hrest.local htakes hlocal hseal hadded hone hcopy hadmits⟩
    · obtain ⟨row, hdest, rfl, hqueued⟩ := enqueue_remote hlocal hseal
      have hlater : MemberCopy.Fresh encap (home.enqueue crypto row.outer).2 copies := by
        rw [hqueued]
        exact ⟨hencs, htokens, fun c' hc' ↦ hunseen c' (List.mem_cons_of_mem _ hc'),
          fun c' hc' ↦ hunknown c' (List.mem_cons_of_mem _ hc')⟩
      obtain ⟨rows, queue, hrest⟩ := ih (hqueued ▸ hopens) hlater
      exact ⟨rows, _, hrest.remote hqueued hlocal hdest hseal⟩

end Delivered

/-! ## The members of a group -/

/-- A live credential with a target. -/
def GroupState.LiveMember (g : GroupState) (c : Key) (target : FanoutTarget) : Prop :=
  ∃ record, g.creds.lookup c = some record ∧ record.live = true ∧ record.fanout = some target

/-- The copies `fanout_copy` seals. -/
def GroupState.copies (g : GroupState) (draws : ℕ → Key × Key) : List MemberCopy :=
  (GroupHost.membersWithTarget g).zipIdx.map fun m ↦ ⟨m.1.1, m.1.2, draws m.2⟩

/-- The randomness of so many copies is new to the server. -/
structure FreshDraws (encap : Key → Key) (home : HomeServer) (n : ℕ) (draws : ℕ → Key × Key) :
    Prop where
  encs : ∀ i < n, ∀ j < n, encap (draws i).2 = encap (draws j).2 → i = j
  tokens : ∀ i < n, ∀ j < n, (draws i).1 = (draws j).1 → i = j
  unseen : ∀ i < n, home.seenEnc.lookup (encap (draws i).2) = none
  unknown : ∀ i < n, home.Unknown (draws i).1

namespace GroupHost

theorem forall₂_of_mapM {crypto : Crypto} {type : MessageType} {body : Bytes}
    {draws : ℕ → Key × Key} {members : List (Key × FanoutTarget)} {n : ℕ}
    {outers : List OuterEnvelope}
    (h : ((members.map Prod.snd).zipIdx n).mapM
      (fun t ↦ sealCopy crypto type body t.1 (draws t.2)) = .ok outers) :
    List.Forall₂ (fun c outer ↦ sealCopy crypto type body c.target c.draw = .ok outer)
      ((members.zipIdx n).map fun m ↦ (⟨m.1.1, m.1.2, draws m.2⟩ : MemberCopy)) outers := by
  induction members generalizing n outers with
  | nil =>
    cases h
    exact .nil
  | cons member members ih =>
    rw [List.map_cons, List.zipIdx_cons, List.mapM_cons] at h
    obtain ⟨outer, houter, h⟩ := bind_eq_ok.mp h
    obtain ⟨rest, hrest, h⟩ := bind_eq_ok.mp h
    cases h
    exact .cons houter (ih hrest)

theorem forall₂_copies {crypto : Crypto} {g : GroupState} {type : MessageType} {body : Bytes}
    {draws : ℕ → Key × Key} {outers : List OuterEnvelope}
    (h : sealCopies crypto g type body draws = .ok outers) :
    List.Forall₂ (fun c outer ↦ sealCopy crypto type body c.target c.draw = .ok outer)
      (g.copies draws) outers := by
  unfold sealCopies at h
  rw [← map_snd_membersWithTarget] at h
  exact forall₂_of_mapM h

end GroupHost

theorem GroupState.map_copies (g : GroupState) (draws : ℕ → Key × Key) :
    (g.copies draws).map (fun c ↦ (c.credentialId, c.target)) = GroupHost.membersWithTarget g := by
  rw [copies, List.map_map]
  exact List.zipIdx_map_fst 0 _

theorem GroupState.fresh_copies {encap : Key → Key} {home : HomeServer} {g : GroupState}
    {draws : ℕ → Key × Key}
    (h : FreshDraws encap home (GroupHost.membersWithTarget g).length draws) :
    MemberCopy.Fresh encap home (g.copies draws) := by
  have hlt (m : (Key × FanoutTarget) × ℕ) (hm : m ∈ (GroupHost.membersWithTarget g).zipIdx) :
      m.2 < (GroupHost.membersWithTarget g).length := by
    simpa using List.snd_lt_add_of_mem_zipIdx hm
  have hnodup {f : ℕ → Key} (hf : ∀ i < (GroupHost.membersWithTarget g).length,
      ∀ j < (GroupHost.membersWithTarget g).length, f i = f j → i = j) :
      ((GroupHost.membersWithTarget g).zipIdx.map fun m ↦ f m.2).Nodup := by
    have hindices := List.zipIdx_map_snd 0 (GroupHost.membersWithTarget g)
    have hmap : ((GroupHost.membersWithTarget g).zipIdx.map fun m ↦ f m.2) =
        (List.range' 0 (GroupHost.membersWithTarget g).length).map f := by
      rw [← hindices, List.map_map]
      rfl
    rw [hmap]
    refine List.Nodup.map_on (fun i hi j hj ↦ ?_) (List.nodup_range')
    simp only [List.mem_range'_1] at hi hj
    exact hf i (by omega) j (by omega)
  refine ⟨?_, ?_, fun c hc ↦ ?_, fun c hc ↦ ?_⟩
  · rw [copies, List.map_map]
    exact hnodup (f := fun i ↦ encap (draws i).2) h.encs
  · rw [copies, List.map_map]
    exact hnodup (f := fun i ↦ (draws i).1) h.tokens
  · obtain ⟨m, hm, rfl⟩ := List.mem_map.mp hc
    exact h.unseen m.2 (hlt m hm)
  · obtain ⟨m, hm, rfl⟩ := List.mem_map.mp hc
    exact h.unknown m.2 (hlt m hm)

end NemoMessenger.Server
