import NemoMessenger.Server.MailboxLog

/-!
# Well-formed memory

What every home server in memory satisfies beyond its mailbox logs: token keys are distinct and name
registered mailboxes, directory rows agree with their mailboxes, and prekeys, memberships and
outbound rows are ones the database can hold. Strict edits keep all of it.
-/

namespace NemoMessenger.Server

open NemoMessenger.Data NemoMessenger.Wire

/-- The promises include those persistence rests on. -/
structure Promises.Strict (promises : Promises) : Prop where
  fresh : ∀ tokens token owner, promises.registers tokens token owner → token ∉ tokens.keys
  knownMembers : promises.knownMembers
  smallAcks : promises.smallAcks
  decoded : promises.decoded

theorem Promises.strict_all : Promises.all.Strict := ⟨fun _ _ _ h ↦ h, trivial, trivial, trivial⟩

/-! ## Edits of the tokens -/

/-- The tokens of a server together with their journal. -/
structure TokenState where
  tokens : Tokens
  marked : List Key
  droppedOwners : List IdentityId
  droppedExact : List Key

/-- The token state of a server. -/
def HomeServer.tokenState (home : HomeServer) : TokenState where
  tokens := home.tokens
  marked := home.dirty.tokens
  droppedOwners := home.dirty.tokensDropped
  droppedExact := home.dirty.tokensDroppedExact

/-- Everything an edit can do to the tokens of a server whose mailboxes are `known`. -/
inductive TokenEdit (registers : Tokens → Key → IdentityId → Prop) (known : IdentityId → Prop) :
    TokenState → TokenState → Prop
  | same (s : TokenState) : TokenEdit registers known s s
  | push (s : TokenState) (token : Key) (kind : TokenKind) (hknown : known kind.mailbox)
    (hregisters : registers s.tokens token kind.mailbox) : TokenEdit registers known s
      { s with tokens := s.tokens ++ [(token, kind)], marked := s.marked.insert token }
  | set (s : TokenState) (token : Key) (old kind : TokenKind) (hold : s.tokens.find token = some old)
    (hkind : old.SameKind kind) : TokenEdit registers known s
      { s with tokens := s.tokens.set token kind, marked := s.marked.insert token }
  | drop (s : TokenState) (dead : List Key) : TokenEdit registers known s
      { s with
        tokens := s.tokens.filter fun entry ↦ entry.1 ∉ dead
        marked := s.marked.filter (· ∉ dead)
        droppedExact := s.droppedExact ∪ dead }
  | disable (s : TokenState) (owner : IdentityId) : TokenEdit registers known s
      { s with
        tokens := s.tokens.filter fun entry ↦ entry.2.mailbox ≠ owner
        droppedOwners := s.droppedOwners.insert owner }

section Edits

variable {crypto : Crypto} {promises : Promises} {home home' : HomeServer}

theorem Edit.tokenEdit (h : Edit crypto promises home home') :
    TokenEdit promises.registers (fun m ↦ home.requireMailbox m = .ok ()) home.tokenState
      home'.tokenState := by
  cases h with
  | clock | nonces | sweepTime | rebind | register | putDirectory | joinGroup | leaveGroups |
    setPrekeys | peers | gc | ack | outbound => exact .same _
  | pushToken token kind hmailbox hregisters =>
    exact .push _ token kind hmailbox hregisters
  | setToken token old kind hold hkind => exact .set _ token old kind hold hkind
  | dropTokens dead => exact .drop _ dead
  | disable owner => exact .disable _ owner

theorem LoudEdit.tokenEdit (h : LoudEdit crypto promises home home') :
    TokenEdit promises.registers (fun m ↦ home.requireMailbox m = .ok ()) home.tokenState
      home'.tokenState := by
  cases h with
  | quiet h => exact h.tokenEdit
  | store | remember | note => exact .same _

end Edits

/-! ## Token lists -/

namespace Tokens

theorem find_eq_some_of_mem {tokens : Tokens} (hnodup : tokens.keys.Nodup) {token : Key}
    {kind : TokenKind} (h : (token, kind) ∈ tokens) : tokens.find token = some kind := by
  have hsome : (tokens.reverse.find? fun entry ↦ entry.1 = token).isSome := by
    rw [List.find?_isSome]
    exact ⟨_, List.mem_reverse.mpr h, by simp⟩
  obtain ⟨entry, hentry⟩ := Option.isSome_iff_exists.mp hsome
  have hmem : entry ∈ tokens := List.mem_reverse.mp (List.mem_of_find?_eq_some hentry)
  have hkey : entry.1 = token := by simpa using List.find?_some hentry
  have heq : entry = (token, kind) := List.inj_on_of_nodup_map hnodup hmem h hkey
  rw [find, hentry, heq]
  rfl

theorem mem_of_find {tokens : Tokens} {token : Key} {kind : TokenKind}
    (h : tokens.find token = some kind) : (token, kind) ∈ tokens := by
  obtain ⟨⟨key, kind'⟩, hentry, rfl⟩ := Option.map_eq_some_iff.mp h
  have hkey : key = token := by simpa using List.find?_some hentry
  subst hkey
  exact List.mem_reverse.mp (List.mem_of_find?_eq_some hentry)

theorem keys_set (token : Key) (kind : TokenKind) (tokens : Tokens) :
    (tokens.set token kind).keys = tokens.keys := by
  induction tokens with
  | nil => rfl
  | cons entry rest ih =>
    rw [set]
    split_ifs
    · rfl
    · exact congrArg (List.cons entry.1) ih

theorem mem_set {token : Key} {kind : TokenKind} {tokens : Tokens} {entry : Key × TokenKind}
    (h : entry ∈ tokens.set token kind) : entry ∈ tokens ∨ entry = (token, kind) := by
  induction tokens with
  | nil => cases h
  | cons first rest ih =>
    rw [set] at h
    split_ifs at h with hfirst
    · rcases List.mem_cons.mp h with rfl | hrest
      · exact .inr (by rw [hfirst.1])
      · exact .inl (List.mem_cons_of_mem _ hrest)
    · rcases List.mem_cons.mp h with rfl | hrest
      · exact .inl List.mem_cons_self
      · exact (ih hrest).imp_left (List.mem_cons_of_mem _)

theorem find_cons (entry : Key × TokenKind) (rest : Tokens) (token : Key) :
    find (entry :: rest) token =
      (find rest token).or (if entry.1 = token then some entry.2 else none) := by
  rw [find, find, List.reverse_cons, List.find?_append]
  cases rest.reverse.find? fun entry ↦ entry.1 = token with
  | some found => rfl
  | none => by_cases h : entry.1 = token <;> simp [h]

theorem find_eq_none_iff {tokens : Tokens} {token : Key} :
    tokens.find token = none ↔ token ∉ tokens.keys := by
  induction tokens with
  | nil => simp [find, keys]
  | cons entry rest ih =>
    rw [find_cons, Option.or_eq_none_iff, ih, keys, keys, List.map_cons, List.mem_cons, not_or,
      and_comm]
    have hkey : (if entry.1 = token then some entry.2 else none) = none ↔ token ≠ entry.1 := by
      by_cases h : entry.1 = token
      · simp [h]
      · simp [h, Ne.symm h]
    rw [hkey]

theorem find_set (token : Key) (kind : TokenKind) (tokens : Tokens) (token' : Key) :
    (tokens.set token kind).find token' =
      if token' = token then (tokens.find token).map fun _ ↦ kind else tokens.find token' := by
  induction tokens with
  | nil => simp [set, find]
  | cons entry rest ih =>
    rw [set]
    by_cases hlast : entry.1 = token ∧ ∀ other ∈ rest, other.1 ≠ token
    · have hrest : find rest token = none := by
        rw [find_eq_none_iff]
        intro hmem
        obtain ⟨other, hother, hkey⟩ := List.mem_map.mp hmem
        exact hlast.2 other hother hkey
      rw [if_pos hlast, find_cons, find_cons, find_cons, hlast.1]
      by_cases htoken : token' = token
      · subst htoken
        simp [hrest]
      · simp [htoken, Ne.symm htoken]
    · rw [if_neg hlast, find_cons, find_cons, find_cons, ih]
      by_cases htoken : token' = token
      · subst htoken
        cases hrest : find rest token' with
        | some found => simp
        | none =>
          have hne : entry.1 ≠ token' := by
            intro hkey
            refine hlast ⟨hkey, fun other hother hkey' ↦ ?_⟩
            exact find_eq_none_iff.mp hrest (List.mem_map.mpr ⟨other, hother, hkey'⟩)
          simp [hne]
      · simp [htoken]

theorem find_push (tokens : Tokens) (token : Key) (kind : TokenKind) (token' : Key) :
    find (tokens ++ [(token, kind)]) token' =
      if token' = token then some kind else tokens.find token' := by
  rw [find, find, List.reverse_append, List.reverse_singleton, List.singleton_append,
    List.find?_cons]
  by_cases h : token' = token
  · simp [h]
  · simp [h, Ne.symm h]

theorem find_filter_keys (tokens : Tokens) (dead : List Key) (token : Key) :
    find (tokens.filter fun entry ↦ entry.1 ∉ dead) token =
      if token ∈ dead then none else tokens.find token := by
  induction tokens with
  | nil => simp [find]
  | cons entry rest ih =>
    rw [List.filter_cons, find_cons]
    by_cases hentry : entry.1 ∈ dead
    · rw [if_neg (by simpa using hentry), ih]
      by_cases htoken : token ∈ dead
      · simp [htoken]
      · have hne : entry.1 ≠ token := fun h ↦ htoken (h ▸ hentry)
        simp [htoken, hne]
    · rw [if_pos (by simpa using hentry), find_cons, ih]
      by_cases htoken : token ∈ dead
      · have hne : entry.1 ≠ token := fun h ↦ hentry (h ▸ htoken)
        simp [htoken, hne]
      · simp [htoken]

theorem find_filter_mailbox {tokens : Tokens} (hnodup : tokens.keys.Nodup) (owner : IdentityId)
    (token : Key) : find (tokens.filter fun entry ↦ entry.2.mailbox ≠ owner) token =
      (tokens.find token).filter fun kind ↦ kind.mailbox ≠ owner := by
  have hsub : (keys (tokens.filter fun entry ↦ entry.2.mailbox ≠ owner)).Nodup :=
    hnodup.sublist (List.filter_sublist.map Prod.fst)
  apply Option.ext
  intro kind
  rw [Option.filter_eq_some_iff]
  constructor
  · intro h
    obtain ⟨hmem, hne⟩ := List.mem_filter.mp (mem_of_find h)
    exact ⟨find_eq_some_of_mem hnodup hmem, hne⟩
  · rintro ⟨h, hne⟩
    exact find_eq_some_of_mem hsub (List.mem_filter.mpr ⟨mem_of_find h, hne⟩)

end Tokens

/-! ## Well-formed memory -/

/-- What a mailbox satisfies beside its log. -/
structure Mailbox.Valid (box : Mailbox) : Prop extends box.LogInv where
  nextSeq_pos : 0 < box.nextSeq
  canonical : ∀ s row, box.rows.lookup s = some row → row.inner.Canonical

/-- A directory row always belongs to the mailbox of the same key. -/
def HomeServer.DirectoryKeys (home : HomeServer) : Prop :=
  ∀ id row, home.directory.lookup id = some row →
    ∃ box, home.mailboxes.lookup id = some box ∧ box.ownerPk = row.identityPublicKey

/-- What a home server in memory satisfies. -/
structure HomeServer.Valid (home : HomeServer) : Prop where
  mailbox : ∀ m box, home.mailboxes.lookup m = some box → box.Valid
  tokenKeys : home.tokens.keys.Nodup
  tokenMailbox : ∀ entry ∈ home.tokens, (home.mailboxes.lookup entry.2.mailbox).isSome
  directoryKeys : home.DirectoryKeys
  prekeyOwner : ∀ o queue, home.prekeys.lookup o = some queue → queue ≠ [] →
    (home.mailboxes.lookup o).isSome
  member : ∀ o list, home.memberships.lookup o = some list →
    list.Nodup ∧ (list ≠ [] → (home.mailboxes.lookup o).isSome)
  outboundSmall : ∀ row ∈ home.outbound, row.outer.hpkeCiphertext.length < 2 ^ 32
  port : ∃ s2sPort : UInt16, home.bundle.s2sPort = s2sPort.toUInt64

/-- Journal and ghost history do not matter. -/
theorem HomeServer.Valid.drain {home : HomeServer} (h : home.Valid) (dirty : HomeDirty)
    (history : History) : { home with dirty, history }.Valid :=
  ⟨h.mailbox, h.tokenKeys, h.tokenMailbox, h.directoryKeys, h.prekeyOwner, h.member,
    h.outboundSmall, h.port⟩

theorem HomeServer.Valid.logInv {home : HomeServer} (h : home.Valid) : home.LogInv :=
  fun m box hbox ↦ (h.mailbox m box hbox).toLogInv

section Valid

variable {crypto : Crypto} {promises : Promises} {home home' : HomeServer}

theorem BoxEdit.valid {evicted : ℕ → Prop} {box box' : Option Mailbox}
    (h : BoxEdit evicted box box')
    (hvalid : ∀ b ∈ box, b.Valid) : ∀ b ∈ box', b.Valid := by
  intro b hb
  have hlog := h.logInv (fun b hb ↦ (hvalid b hb).toLogInv) b hb
  cases h with
  | same => exact hvalid b hb
  | new ownerPk =>
    cases hb
    exact ⟨hlog, Nat.one_pos, by simp [Mailbox.new]⟩
  | drop box seqs =>
    cases hb
    refine ⟨hlog, ?_, ?_⟩
    · rw [Mailbox.foldl_removeRow_eq Mailbox.removeRow_nextSeq]
      exact (hvalid box rfl).nextSeq_pos
    · intro s row hrow
      rw [Mailbox.lookup_foldl_removeRow] at hrow
      split_ifs at hrow
      exact (hvalid box rfl).canonical s row hrow
  | disable box =>
    cases hb
    refine ⟨hlog, ?_, ?_⟩
    · have hnext : box.disable.nextSeq = box.nextSeq :=
        Mailbox.foldl_removeRow_eq Mailbox.removeRow_nextSeq _ box
      rw [hnext]
      exact (hvalid box rfl).nextSeq_pos
    · intro s row hrow
      rw [Mailbox.lookup_disable] at hrow
      cases hrow
  | ack box seqs =>
    cases hb
    refine ⟨hlog, ?_, ?_⟩
    · rw [(Mailbox.foldl_ackRow_fields seqs box).1]
      exact (hvalid box rfl).nextSeq_pos
    · intro s row hrow
      rw [Mailbox.lookup_foldl_ackRow] at hrow
      split_ifs at hrow
      exact (hvalid box rfl).canonical s row hrow

theorem LoudBoxEdit.valid {decoded : Prop} {box box' : Option Mailbox}
    (h : LoudBoxEdit decoded box box') (hdecoded : decoded) (hvalid : ∀ b ∈ box, b.Valid) : ∀ b ∈ box', b.Valid := by
  intro b hb
  have hlog := h.logInv (fun b hb ↦ (hvalid b hb).toLogInv) b hb
  cases h with
  | quiet _ h => exact h.valid hvalid b hb
  | push box inner now maxAge hidem hcanonical =>
    cases hb
    refine ⟨hlog, Nat.succ_pos _, ?_⟩
    intro s row hrow
    rw [Mailbox.push, FiniteMap.lookup_insert_ite] at hrow
    split_ifs at hrow
    · cases hrow
      exact hcanonical hdecoded
    · exact (hvalid box rfl).canonical s row hrow

theorem LoudEdit.isSome_mailbox (h : LoudEdit crypto promises home home') {m : IdentityId}
    (hm : (home.mailboxes.lookup m).isSome) : (home'.mailboxes.lookup m).isSome := by
  obtain ⟨box, hbox⟩ := Option.isSome_iff_exists.mp hm
  obtain ⟨box', hbox', -⟩ := h.mailbox_kept hbox
  rw [hbox']
  rfl

theorem TokenKind.SameKind.mailbox_eq {old kind : TokenKind} (h : old.SameKind kind) :
    old.mailbox = kind.mailbox := by
  cases old <;> cases kind <;> simp_all [TokenKind.SameKind, TokenKind.mailbox]

/-- Edits keep token keys distinct as long as new ones are fresh. -/
theorem TokenEdit.nodup_keys {registers : Tokens → Key → IdentityId → Prop}
    {known : IdentityId → Prop} {s s' : TokenState} (h : TokenEdit registers known s s')
    (hfresh : ∀ tokens token owner, registers tokens token owner → token ∉ tokens.keys)
    (hkeys : s.tokens.keys.Nodup) : s'.tokens.keys.Nodup := by
  cases h with
  | same => exact hkeys
  | push token kind hmailbox hregisters =>
    rw [Tokens.keys, List.map_append]
    exact hkeys.append (List.nodup_singleton _) (by simpa using hfresh _ _ _ hregisters)
  | set token old kind hold hkind =>
    exact (Tokens.keys_set token kind s.tokens).symm ▸ hkeys
  | drop dead => exact hkeys.sublist (List.filter_sublist.map Prod.fst)
  | disable owner => exact hkeys.sublist (List.filter_sublist.map Prod.fst)

/-- What every new token satisfies with its mailbox, all tokens satisfy. -/
theorem TokenEdit.forall_mem {registers : Tokens → Key → IdentityId → Prop}
    {known : IdentityId → Prop} {s s' : TokenState} (h : TokenEdit registers known s s')
    {P : Key → IdentityId → Prop}
    (hnew : ∀ tokens token owner, registers tokens token owner → known owner → P token owner)
    (hs : ∀ entry ∈ s.tokens, P entry.1 entry.2.mailbox) :
    ∀ entry ∈ s'.tokens, P entry.1 entry.2.mailbox := by
  intro entry hentry
  cases h with
  | same => exact hs entry hentry
  | push token kind hmailbox hregisters =>
    rcases List.mem_append.mp hentry with hold | hlast
    · exact hs entry hold
    · obtain rfl := List.mem_singleton.mp hlast
      exact hnew _ _ _ hregisters hmailbox
  | set token old kind hold hkind =>
    rcases Tokens.mem_set hentry with hkept | rfl
    · exact hs entry hkept
    · exact hkind.mailbox_eq ▸ hs _ (Tokens.mem_of_find hold)
  | drop dead => exact hs entry (List.mem_filter.mp hentry).1
  | disable owner => exact hs entry (List.mem_filter.mp hentry).1

theorem LoudEdit.directoryKeys (h : LoudEdit crypto promises home home')
    (hdir : home.DirectoryKeys) : home'.DirectoryKeys := by
  have hold {id : IdentityId} {pk : Key}
      (hrow : ∃ box, home.mailboxes.lookup id = some box ∧ box.ownerPk = pk) :
      ∃ box, home'.mailboxes.lookup id = some box ∧ box.ownerPk = pk := by
    obtain ⟨box, hbox, hkey⟩ := hrow
    obtain ⟨box', hbox', hkey', -⟩ := h.mailbox_kept hbox
    exact ⟨box', hbox', hkey'.trans hkey⟩
  have hsame (heq : home'.directory = home.directory) : home'.DirectoryKeys :=
    fun id row hrow ↦ hold (hdir id row (heq ▸ hrow))
  cases h with
  | store | remember | note => exact hsame rfl
  | quiet h =>
    cases h with
    | clock | nonces | sweepTime | rebind | pushToken | setToken | dropTokens | disable |
      joinGroup | leaveGroups | setPrekeys | peers | gc | ack | outbound => exact hsame rfl
    | register identityId ownerPk entry hnew hentry =>
      intro id row hrow
      rw [HomeServer.lookup_directory_addEntry] at hrow
      split_ifs at hrow with hid
      · rw [Option.or_eq_some_iff] at hrow
        rcases hrow with hcard | ⟨-, hrow⟩
        · rw [HomeServer.mailboxes_addEntry, hid, AList.lookup_insert]
          exact ⟨.new ownerPk, rfl, (hentry row hcard).symm⟩
        · exact hold (hdir id row hrow)
      · exact hold (hdir id row hrow)
    | putDirectory identityId row hkey =>
      intro id row' hrow
      rw [HomeServer.putDirectory, FiniteMap.lookup_insert_ite] at hrow
      split_ifs at hrow with hid
      · cases hrow
        subst hid
        rcases hkey with ⟨old, holdRow, hpk, -⟩ | ⟨-, hbox⟩
        · exact hpk ▸ hold (hdir _ old holdRow)
        · exact hold hbox
      · exact hold (hdir id row' hrow)

theorem LoudEdit.prekeyOwner (h : LoudEdit crypto promises home home')
    (hqueues : ∀ o queue, home.prekeys.lookup o = some queue → queue ≠ [] →
      (home.mailboxes.lookup o).isSome) (o : IdentityId) (queue : List Bytes)
    (hqueue : home'.prekeys.lookup o = some queue) (hne : queue ≠ []) :
    (home'.mailboxes.lookup o).isSome := by
  apply h.isSome_mailbox
  cases h with
  | store | remember | note => exact hqueues o queue hqueue hne
  | quiet h =>
    cases h with
    | clock | nonces | sweepTime | rebind | pushToken | setToken | dropTokens | register |
      putDirectory | joinGroup | leaveGroups | peers | gc | ack | outbound =>
      exact hqueues o queue hqueue hne
    | disable owner =>
      rw [HomeServer.disableMailbox, FiniteMap.lookup_erase_ite] at hqueue
      split_ifs at hqueue
      exact hqueues o queue hqueue hne
    | setPrekeys owner queue' hknown =>
      rw [HomeServer.setPrekeys, FiniteMap.lookup_insert_ite] at hqueue
      split_ifs at hqueue with ho
      · subst ho
        rcases hknown with howner | ⟨old, hold, holdne⟩
        · exact HomeServer.isSome_of_requireMailbox howner
        · exact hqueues o old hold holdne
      · exact hqueues o queue hqueue hne

theorem lookup_noteGroupMembership (home : HomeServer) (identityId o : IdentityId)
    (groupId : GroupId) : (home.noteGroupMembership identityId groupId).memberships.lookup o =
      if o = identityId then
        some (if groupId ∈ (home.memberships.lookup o).getD [] then
          (home.memberships.lookup o).getD []
          else (home.memberships.lookup o).getD [] ++ [groupId])
      else home.memberships.lookup o := by
  unfold HomeServer.noteGroupMembership
  dsimp only
  by_cases ho : o = identityId
  · subst ho
    rw [if_pos rfl]
    split_ifs <;> simp
  · rw [if_neg ho]
    split_ifs <;> simp [ho]

theorem lookup_takeMemberships (home : HomeServer) (identityId o : IdentityId) :
    (home.takeMemberships identityId).2.memberships.lookup o =
      if o = identityId then none else home.memberships.lookup o := by
  unfold HomeServer.takeMemberships
  split
  · rename_i hnone
    split_ifs with ho
    · rw [ho, hnone]
    · rfl
  · exact FiniteMap.lookup_erase_ite _ _ _

theorem LoudEdit.member (h : LoudEdit crypto promises home home') (hstrict : promises.Strict)
    (hlists : ∀ o list, home.memberships.lookup o = some list →
      list.Nodup ∧ (list ≠ [] → (home.mailboxes.lookup o).isSome)) (o : IdentityId)
    (list : List GroupId) (hlist : home'.memberships.lookup o = some list) :
    list.Nodup ∧ (list ≠ [] → (home'.mailboxes.lookup o).isSome) := by
  have hkeep (hold : list.Nodup ∧ (list ≠ [] → (home.mailboxes.lookup o).isSome)) :
      list.Nodup ∧ (list ≠ [] → (home'.mailboxes.lookup o).isSome) :=
    ⟨hold.1, fun hne ↦ h.isSome_mailbox (hold.2 hne)⟩
  apply hkeep
  cases h with
  | store | remember | note => exact hlists o list hlist
  | quiet h =>
    cases h with
    | clock | nonces | sweepTime | rebind | pushToken | setToken | dropTokens | register |
      putDirectory | disable | setPrekeys | peers | gc | ack | outbound =>
      exact hlists o list hlist
    | leaveGroups identityId =>
      dsimp only at hlist
      rw [lookup_takeMemberships] at hlist
      split_ifs at hlist
      exact hlists o list hlist
    | joinGroup identityId groupId hknown =>
      dsimp only at hlist
      rw [lookup_noteGroupMembership] at hlist
      split_ifs at hlist with ho hmem
      · -- the group is in the list already, so the list is the stored one
        cases hold : home.memberships.lookup o with
        | none => simp [hold] at hmem
        | some old =>
          rw [hold, Option.getD_some] at hlist
          cases hlist
          exact hlists o _ hold
      · refine ⟨?_, fun _ ↦ ho ▸ hknown hstrict.knownMembers⟩
        cases hlist
        have hnodup : ((home.memberships.lookup o).getD []).Nodup := by
          cases hold : home.memberships.lookup o with
          | none => exact List.nodup_nil
          | some old => exact (hlists o old hold).1
        exact hnodup.append (List.nodup_singleton _) (by simpa using hmem)
      · exact hlists o list hlist

theorem LoudEdit.outboundSmall (h : LoudEdit crypto promises home home') (hstrict : promises.Strict)
    (hrows : ∀ row ∈ home.outbound, row.outer.hpkeCiphertext.length < 2 ^ 32) :
    ∀ row ∈ home'.outbound, row.outer.hpkeCiphertext.length < 2 ^ 32 := by
  cases h with
  | store | remember | note => exact hrows
  | quiet h =>
    cases h with
    | clock | nonces | sweepTime | rebind | pushToken | setToken | dropTokens | register |
      putDirectory | disable | joinGroup | leaveGroups | setPrekeys | peers | gc | ack =>
      exact hrows
    | outbound rows hsmall =>
      intro row hrow
      rcases hsmall hstrict.decoded row hrow with ⟨old, hold, heq⟩ | hlen
      · exact heq ▸ hrows old hold
      · exact hlen

theorem LoudEdit.port (h : LoudEdit crypto promises home home')
    (hport : ∃ s2sPort : UInt16, home.bundle.s2sPort = s2sPort.toUInt64) :
    ∃ s2sPort : UInt16, home'.bundle.s2sPort = s2sPort.toUInt64 := by
  cases h with
  | store | remember | note => exact hport
  | quiet h =>
    cases h with
    | clock | nonces | sweepTime | pushToken | setToken | dropTokens | register | putDirectory |
      disable | joinGroup | leaveGroups | setPrekeys | peers | gc | ack | outbound => exact hport
    | rebind host s2sPort => exact ⟨s2sPort, rfl⟩

/-- Strict edits keep memory well formed. -/
theorem LoudEdit.valid (h : LoudEdit crypto promises home home') (hstrict : promises.Strict)
    (hvalid : home.Valid) : home'.Valid where
  mailbox m box hbox :=
    (h.boxEdit m).valid hstrict.decoded (fun b hb ↦ hvalid.mailbox m b hb) box hbox
  tokenKeys := h.tokenEdit.nodup_keys hstrict.fresh hvalid.tokenKeys
  tokenMailbox entry hentry := h.isSome_mailbox (h.tokenEdit.forall_mem
    (P := fun _ owner ↦ (home.mailboxes.lookup owner).isSome)
    (fun _ _ _ _ hknown ↦ HomeServer.isSome_of_requireMailbox hknown)
    hvalid.tokenMailbox entry hentry)
  directoryKeys := h.directoryKeys hvalid.directoryKeys
  prekeyOwner := h.prekeyOwner hvalid.prekeyOwner
  member := h.member hstrict hvalid.member
  outboundSmall := h.outboundSmall hstrict hvalid.outboundSmall
  port := h.port hvalid.port

theorem HomeServer.valid_fromIdentity (crypto : Crypto) (hpke : HpkeKeypair) (sign : Key)
    (host : Text) (s2sPort : UInt16) : (fromIdentity crypto hpke sign host s2sPort).Valid where
  mailbox := by simp [fromIdentity]
  tokenKeys := List.nodup_nil
  tokenMailbox := by simp [fromIdentity]
  directoryKeys := by simp [DirectoryKeys, fromIdentity]
  prekeyOwner := by simp [fromIdentity]
  member := by simp [fromIdentity]
  outboundSmall := by simp [fromIdentity]
  port := ⟨s2sPort, rfl⟩

end Valid

end NemoMessenger.Server
