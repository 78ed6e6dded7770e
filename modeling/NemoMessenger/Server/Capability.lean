import NemoMessenger.Server.Restart

/-!
# Which mailbox a capability names

Capability keys are chosen by clients as well as by the server, and no operation checks that a new
one is free. As long as every new key is, keys stay distinct and a live capability keeps its mailbox
over any operations, persists and restarts.
-/

namespace NemoMessenger.Server

open NemoMessenger.Data NemoMessenger.Wire

/-- New keys are promised to be free: no token has the key, and no stored token of another mailbox. -/
def Database.freeKeys (db : Database) : Promises :=
  { Promises.none with
    registers := fun tokens token owner ↦
      token ∉ tokens.keys ∧ ∀ row, db.tokens.lookup token = some row → row.mailbox = owner }

/-- An operation registers free keys only. -/
def NodeOp.KeysFree (crypto : Crypto) (node : Node) : NodeOp → Prop
  | home op => op.Meets crypto node.db.freeKeys node.home
  | group _ | persist _ | reload => True

/-- Capability keys are distinct, and memory and database agree on their mailboxes. -/
structure Node.KeysAgree (node : Node) : Prop where
  nodup : node.home.tokens.keys.Nodup
  agree : ∀ entry ∈ node.home.tokens, ∀ row, node.db.tokens.lookup entry.1 = some row →
    row.mailbox = entry.2.mailbox

/-- What resolves before and after resolves to the same mailbox. -/
def SameMailboxes (home home' : HomeServer) : Prop :=
  ∀ entry ∈ home.tokens, ∀ entry' ∈ home'.tokens, entry'.1 = entry.1 →
    entry'.2.mailbox = entry.2.mailbox

variable {crypto : Crypto} {home : HomeServer} {node : Node}

/-! ## Operations -/

theorem mem_of_dropTokensExact {dead : List Key} {entry : Key × TokenKind}
    (hentry : entry ∈ home.tokens) (hgone : entry.1 ∉ (home.dropTokensExact dead).2.tokens.keys) :
    entry.1 ∈ dead := by
  unfold HomeServer.dropTokensExact at hgone
  split_ifs at hgone
  · exact absurd (List.mem_map_of_mem hentry) hgone
  · by_contra hdead
    exact hgone (List.mem_map_of_mem (List.mem_filter.mpr ⟨hentry, by simpa using hdead⟩))

/-- A sweep for an owner drops tokens of that owner only. -/
theorem mailbox_of_swept (hnodup : home.tokens.keys.Nodup) {owner : IdentityId}
    {entry : Key × TokenKind} (hentry : entry ∈ home.tokens)
    (hswept : entry.1 ∉ (home.sweepDeadTokensFor owner).2.tokens.keys) :
    entry.2.mailbox = owner := by
  have hdead := mem_of_dropTokensExact hentry hswept
  obtain ⟨⟨⟨token, kind⟩, idx⟩, hmem, hkind⟩ := List.mem_filterMap.mp hdead
  dsimp only at hkind
  have howner : kind.mailbox = owner ∧ token = entry.1 := by
    by_cases howner : kind.mailbox = owner
    · rw [if_neg (not_not.mpr howner)] at hkind
      split_ifs at hkind <;> exact ⟨howner, Option.some.inj hkind⟩
    · rw [if_pos howner] at hkind
      cases hkind
  have heq : (token, kind) = entry := List.inj_on_of_nodup_map hnodup
    (List.fst_mem_of_mem_zipIdx hmem) hentry howner.2
  rw [← heq]
  exact howner.1

/-- What a free key is promised, together with the mailbox of the token it replaces. -/
def Database.ownKeys (db : Database) (home : HomeServer) : Promises :=
  { Promises.none with
    registers := fun tokens token owner ↦ db.freeKeys.registers tokens token owner ∧
      ∀ entry ∈ home.tokens, entry.1 = token → entry.2.mailbox = owner }

/-- A free key is new, or that of a token the same operation sweeps for the same owner. -/
theorem HomeOp.Meets.own {op : HomeOp} {db : Database} (h : op.Meets crypto db.freeKeys home)
    (hnodup : home.tokens.keys.Nodup) : op.Meets crypto (db.ownKeys home) home := by
  have hfree {token : Key} {owner : IdentityId}
      (hfree : db.freeKeys.registers home.tokens token owner) :
      (db.ownKeys home).registers home.tokens token owner := by
    refine ⟨hfree, fun entry hentry htoken ↦ absurd ?_ hfree.1⟩
    exact htoken ▸ List.mem_map_of_mem hentry
  have hswept {token : Key} {owner : IdentityId}
      (hfree : db.freeKeys.registers (home.sweepDeadTokensFor owner).2.tokens token owner) :
      (db.ownKeys home).registers (home.sweepDeadTokensFor owner).2.tokens token owner := by
    refine ⟨hfree, fun entry hentry htoken ↦ mailbox_of_swept hnodup hentry ?_⟩
    exact htoken ▸ hfree.1
  cases op with
  | registerFromCard => exact fun hverify hserver hnew ↦ hfree (h hverify hserver hnew)
  | registerShareToken => exact fun howner httl ↦ hfree (h howner httl)
  | mintShareToken => exact fun howner httl ↦ hfree (h howner httl)
  | mintContactCapability => exact fun howner ↦ hswept (h howner)
  | rotateContact => exact fun howner ↦ hswept (h howner)
  | noteGroupMembership | ack | appendInner | enqueue | enqueueFromOwner => exact False.elim
  | _ => trivial

theorem Node.KeysAgree.applyHome (h : node.KeysAgree) (op : HomeOp)
    (hop : op.Meets crypto node.db.freeKeys node.home) :
    Node.KeysAgree { node with home := op.apply crypto node.home } ∧
      SameMailboxes node.home (op.apply crypto node.home) := by
  have hedits := op.apply_edits crypto (node.db.ownKeys node.home) node.home (hop.own h.nodup)
  have hforall (P : Key → IdentityId → Prop)
      (hnew : ∀ tokens token owner,
        (node.db.ownKeys node.home).registers tokens token owner → P token owner)
      (hstart : ∀ entry ∈ node.home.tokens, P entry.1 entry.2.mailbox) :
      ∀ entry ∈ (op.apply crypto node.home).tokens, P entry.1 entry.2.mailbox :=
    Chain.keeps (fun s ↦ ∀ entry ∈ s.tokens, P entry.1 entry.2.mailbox)
      (fun _ _ hedit hs ↦ hedit.tokenEdit.forall_mem
        (fun tokens token owner hregisters _ ↦ hnew tokens token owner hregisters) hs) hedits hstart
  refine ⟨⟨?_, ?_⟩, ?_⟩
  · exact Chain.keeps (fun s ↦ s.tokens.keys.Nodup)
      (fun _ _ hedit hs ↦ hedit.tokenEdit.nodup_keys (fun _ _ _ hregisters ↦ hregisters.1.1) hs)
      hedits h.nodup
  · exact hforall (fun token owner ↦ ∀ row, node.db.tokens.lookup token = some row →
      row.mailbox = owner) (fun _ _ _ hregisters ↦ hregisters.1.2) h.agree
  · intro entry hentry entry' hentry' hkey
    refine hforall (fun token owner ↦ token = entry.1 → owner = entry.2.mailbox) ?_ ?_ entry'
      hentry' hkey
    · exact fun _ _ _ hregisters htoken ↦ (hregisters.2 entry hentry htoken.symm).symm
    · intro old hold htoken
      rw [List.inj_on_of_nodup_map h.nodup hold hentry htoken]

/-! ## Persists and restarts -/

theorem Node.KeysAgree.persist (h : node.KeysAgree) (fault : Bool) :
    (node.persist fault).2.KeysAgree ∧ SameMailboxes node.home (node.persist fault).2.home := by
  obtain ⟨⟨dirty, hhome⟩, hwritten⟩ := node.persist_writes fault
  have htokens : (node.persist fault).2.home.tokens = node.home.tokens := by rw [hhome]
  refine ⟨⟨htokens ▸ h.nodup, ?_⟩, ?_⟩
  · intro entry hentry row hrow
    rw [htokens] at hentry
    rcases hwritten.tokens entry.1 row hrow with ⟨old, hold, heq⟩ | ⟨kind, hkind, heq⟩
    · rw [← heq]
      exact h.agree entry hentry old hold
    · rw [← heq, ← List.inj_on_of_nodup_map h.nodup hkind hentry rfl]
  · intro entry hentry entry' hentry' hkey
    rw [htokens] at hentry'
    rw [List.inj_on_of_nodup_map h.nodup hentry' hentry hkey]

theorem Node.KeysAgree.reload (h : node.KeysAgree) :
    (node.reload crypto).KeysAgree ∧ SameMailboxes node.home (node.reload crypto).home := by
  rcases node.reload_reads crypto with hsame | ⟨loaded, host, hloaded, heq⟩
  · rw [hsame]
    refine ⟨h, fun entry hentry entry' hentry' hkey ↦ ?_⟩
    rw [List.inj_on_of_nodup_map h.nodup hentry' hentry hkey]
  · rw [heq]
    refine ⟨⟨hloaded.nodup_keys, ?_⟩, ?_⟩
    · intro entry hentry row hrow
      obtain ⟨row', hrow', hmailbox⟩ := hloaded.mem_tokens hentry
      rw [hrow] at hrow'
      cases hrow'
      exact hmailbox
    · intro entry hentry entry' hentry' hkey
      obtain ⟨row, hrow, hmailbox⟩ := hloaded.mem_tokens hentry'
      rw [← hmailbox]
      exact h.agree entry hentry row (hkey ▸ hrow)

/-! ## Runs -/

theorem Node.KeysAgree.apply (op : NodeOp) (hop : op.KeysFree crypto node) (h : node.KeysAgree) :
    (op.apply crypto node).KeysAgree ∧ SameMailboxes node.home (op.apply crypto node).home := by
  cases op with
  | home op => exact h.applyHome op hop
  | group op =>
    refine ⟨⟨h.nodup, h.agree⟩, fun entry hentry entry' hentry' hkey ↦ ?_⟩
    rw [List.inj_on_of_nodup_map h.nodup hentry' hentry hkey]
  | persist fault => exact h.persist fault
  | reload => exact h.reload

theorem capabilityMailbox_eq_some_iff (hnodup : home.tokens.keys.Nodup) {token : Key}
    {m : IdentityId} : home.capabilityMailbox token = some m ↔
      ∃ entry ∈ home.tokens, entry.1 = token ∧ entry.2.mailbox = m := by
  rw [HomeServer.capabilityMailbox, Option.map_eq_some_iff]
  constructor
  · rintro ⟨kind, hkind, hm⟩
    exact ⟨(token, kind), Tokens.mem_of_find hkind, rfl, hm⟩
  · rintro ⟨⟨_, kind⟩, hentry, rfl, hm⟩
    exact ⟨kind, Tokens.find_eq_some_of_mem hnodup hentry, hm⟩

/-- A capability that stays live along a run keeps its mailbox. -/
theorem Node.KeysAgree.capabilityMailbox_run {ops : List NodeOp}
    (hops : Allowed (NodeOp.apply crypto) (NodeOp.KeysFree crypto) node ops) (h : node.KeysAgree)
    {token : Key} {m : IdentityId} (hm : node.home.capabilityMailbox token = some m)
    (hlive : ∀ before, before <+: ops →
      ((run (NodeOp.apply crypto) node before).home.capabilityMailbox token).isSome) :
    (run (NodeOp.apply crypto) node ops).home.capabilityMailbox token = some m := by
  induction ops generalizing node with
  | nil => exact hm
  | cons op ops ih =>
    obtain ⟨hagree, hsame⟩ := h.apply op hops.1
    apply ih hops.2 hagree
    · obtain ⟨m', hm'⟩ := Option.isSome_iff_exists.mp (hlive [op] ⟨ops, rfl⟩)
      obtain ⟨entry, hentry, hkey, rfl⟩ := (capabilityMailbox_eq_some_iff h.nodup).mp hm
      obtain ⟨entry', hentry', hkey', rfl⟩ := (capabilityMailbox_eq_some_iff hagree.nodup).mp hm'
      have hmailbox := hsame entry hentry entry' hentry' (hkey'.trans hkey.symm)
      rw [← hmailbox]
      exact hm'
    · intro before hbefore
      exact hlive (op :: before) (List.cons_prefix_cons.mpr ⟨rfl, hbefore⟩)

/-- In every run that registers free keys only, capability keys are distinct in every state, and a
capability resolves to one mailbox for as long as it is live. -/
theorem capability_keys_of_free (crypto : Crypto) (hpke : HpkeKeypair) (sign : Key)
    (limits : Limits) (ops later : List NodeOp)
    (hops : Allowed (NodeOp.apply crypto) (NodeOp.KeysFree crypto)
      (Node.fresh crypto hpke sign limits) (ops ++ later)) :
    let node := run (NodeOp.apply crypto) (Node.fresh crypto hpke sign limits) ops
    node.home.tokens.keys.Nodup ∧
      ∀ token m, node.home.capabilityMailbox token = some m →
        (∀ before, before <+: later →
          ((run (NodeOp.apply crypto) node before).home.capabilityMailbox token).isSome) →
        (run (NodeOp.apply crypto) node later).home.capabilityMailbox token = some m := by
  intro node
  obtain ⟨hfirst, hlater⟩ := allowed_append.mp hops
  have hnode : node.KeysAgree := run_invariant Node.KeysAgree
    (fun _ op hop hs ↦ (hs.apply op hop).1) hfirst ⟨List.nodup_nil, fun _ h ↦ by cases h⟩
  exact ⟨hnode.nodup, fun token m hm hlive ↦ hnode.capabilityMailbox_run hlater hm hlive⟩

/-- An identity registers a share token, and another one mints a contact capability. -/
def NodeOp.twoOwners (key other : Key) : List NodeOp :=
  [.home (.rebindHost ⟨"local", Text.local_size⟩ 8443), .home (.register key key),
    .home (.registerShareToken key key none), .home (.register other other),
    .home (.mintContactCapability other other)]

set_option maxRecDepth 100000 in
theorem NodeOp.twoOwners_live (key other : Key) (hkey : key = .replicate 32 1)
    (hother : other = .replicate 32 2) :
    let node := run (NodeOp.apply .transparent) (Node.fresh .transparent ⟨key, key⟩ key .default)
      (NodeOp.twoOwners key other)
    node.home.capabilityMailbox key = some key ∧ node.home.capabilityMailbox other = some other ∧
      ∀ live ∈ [key, other],
        ((node.persist false).2.home.capabilityMailbox live).isSome = true ∧
          (((node.persist false).2.reload .transparent).home.capabilityMailbox live).isSome = true := by
  subst hkey hother
  decide +kernel

/-- Two identities with a token each: both keep their mailbox over a persist and a restart. -/
theorem capability_keys_of_two_owners :
    let key : Key := .replicate 32 1
    let other : Key := .replicate 32 2
    let node := run (NodeOp.apply .transparent) (Node.fresh .transparent ⟨key, key⟩ key .default)
      (NodeOp.twoOwners key other)
    let restarted := (node.persist false).2.reload .transparent
    node.home.tokens.keys.Nodup ∧ restarted.home.capabilityMailbox key = some key ∧
      restarted.home.capabilityMailbox other = some other := by
  intro key other
  have hlive := NodeOp.twoOwners_live key other rfl rfl
  have hops : Allowed (NodeOp.apply .transparent) (NodeOp.KeysFree .transparent)
      (Node.fresh .transparent ⟨key, key⟩ key .default)
      (NodeOp.twoOwners key other ++ [.persist false, .reload]) := by
    refine ⟨trivial, trivial, fun _ _ ↦ ⟨List.not_mem_nil, fun _ h ↦ (by cases h)⟩, trivial,
      fun _ ↦ ⟨?_, fun _ h ↦ by cases h⟩, trivial, trivial, trivial⟩
    decide +kernel
  obtain ⟨hnodup, hkept⟩ := capability_keys_of_free .transparent ⟨key, key⟩ key .default
    (NodeOp.twoOwners key other) [.persist false, .reload] hops
  generalize run (NodeOp.apply .transparent) (Node.fresh .transparent ⟨key, key⟩ key .default)
    (NodeOp.twoOwners key other) = node at hlive hnodup hkept ⊢
  obtain ⟨hfirst, hsecond, hlater⟩ := hlive
  have hprefixes (live : Key) (hmem : live ∈ [key, other])
      (hm : (node.home.capabilityMailbox live).isSome) (before : List NodeOp)
      (hbefore : before <+: [.persist false, .reload]) :
      ((run (NodeOp.apply .transparent) node before).home.capabilityMailbox live).isSome := by
    rcases List.prefix_cons_iff.mp hbefore with rfl | ⟨rest, rfl, hrest⟩
    · exact hm
    · rcases List.prefix_cons_iff.mp hrest with rfl | ⟨rest', rfl, hrest'⟩
      · exact (hlater live hmem).1
      · obtain rfl := List.prefix_nil.mp hrest'
        exact (hlater live hmem).2
  exact ⟨hnodup,
    hkept key key hfirst (hprefixes key List.mem_cons_self (Option.isSome_of_mem hfirst)),
    hkept other other hsecond (hprefixes other (List.mem_cons_of_mem _ (List.mem_singleton_self _))
      (Option.isSome_of_mem hsecond))⟩

/-- Two identities register with the same share token: both tokens are live, and the second takes
over the key of the first. -/
theorem registerFromCard_takes_over :
    let crypto := Crypto.transparent
    let server : Key := .replicate 32 1
    let token : Key := .replicate 32 2
    let card (key : Key) : ContactCard :=
      { identityPublicKey := key
        revocationPublicKey := key
        shareToken := token
        binding :=
          { serverId := server
            serverHpkePublicKey := server
            host := ⟨"local", by decide⟩
            seq := 1
            expiresAt := 1700000000
            signature := .replicate 64 0 } }
    let home := HomeServer.withLimits crypto ⟨server, server⟩ server .default
    let first := run (HomeOp.apply crypto) home [.registerFromCard (card (.replicate 32 3))]
    let second := run (HomeOp.apply crypto) first [.registerFromCard (card (.replicate 32 4))]
    first.capabilityMailbox token = some (.replicate 32 3) ∧
      ¬ second.tokens.keys.Nodup ∧
      second.capabilityMailbox token = some (.replicate 32 4) := by
  decide +kernel

end NemoMessenger.Server
