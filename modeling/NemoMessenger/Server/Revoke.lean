import NemoMessenger.Server.Reading
import NemoMessenger.Server.Restart

/-!
# Revocations and hosted groups

An accepted revocation goes to the groups that `note_group_membership` has recorded for the revoked
identity. No route records one, no request leaves one behind, and neither `persist` nor a restart
makes one up, so on a server that only answers requests the revocation reaches no group.
-/

namespace NemoMessenger.Server

open NemoMessenger.Data NemoMessenger.Wire

/-! ## What the operations behind the routes leave alone -/

namespace HomeServer

variable (crypto : Crypto) (home : HomeServer)

@[simp] theorem memberships_registerShareToken (owner : IdentityId) (token : Key)
    (ttlSecs : Option UInt64) :
    (home.registerShareToken owner token ttlSecs).2.memberships = home.memberships := by
  unfold registerShareToken
  split
  · rfl
  · dsimp only
    split_ifs <;> rfl

@[simp] theorem memberships_mintShareToken (owner : IdentityId) (ttlSecs : Option UInt64)
    (random : Key) :
    (home.mintShareToken owner ttlSecs random).2.memberships = home.memberships := by
  have h := home.memberships_registerShareToken owner random ttlSecs
  unfold mintShareToken
  split <;> rename_i heq <;> rwa [heq] at h

@[simp] theorem memberships_mintContactCapability (owner : IdentityId) (random : Key) :
    (home.mintContactCapability owner random).2.memberships = home.memberships := by
  unfold mintContactCapability
  split
  · rfl
  · change (home.dropTokensExact _).2.memberships = home.memberships
    unfold dropTokensExact
    split_ifs <;> rfl

@[simp] theorem memberships_registerFromCard (card : ContactCard) :
    (home.registerFromCard crypto card).2.memberships = home.memberships := by
  unfold registerFromCard register
  split
  · rfl
  · split_ifs
    · rfl
    · dsimp only
      split_ifs
      · rfl
      · dsimp only
        split <;> rename_i heq <;> rw [← congrArg (·.2.memberships) heq] <;>
          exact memberships_registerShareToken _ _ _ _

@[simp] theorem memberships_observeBinding (identityId : IdentityId) (binding : HomeServerBinding) :
    (home.observeBinding crypto identityId binding).2.memberships = home.memberships := by
  unfold observeBinding
  split
  · rfl
  · split_ifs
    · rfl
    · rfl
    · split
      · rfl
      · dsimp only
        split_ifs <;> rfl

@[simp] theorem memberships_publishPrekey (owner : IdentityId) (blob : Bytes) :
    (home.publishPrekey owner blob).2.memberships = home.memberships := by
  unfold publishPrekey
  split <;> rfl

@[simp] theorem memberships_fetchPrekey (token : Key) :
    (home.fetchPrekey token).2.memberships = home.memberships := by
  unfold fetchPrekey reservePrekey
  split
  · split_ifs
    · split
      · rfl
      · split <;> rfl
    · rfl
  · rfl

@[simp] theorem memberships_authorizeAppend (token : Key) :
    (home.authorizeAppend token).2.memberships = home.memberships := by
  unfold authorizeAppend
  dsimp only
  split
  · split_ifs <;> rfl
  · split_ifs <;> rfl
  · rfl

@[simp] theorem memberships_burnIfShare (token : Key) :
    (home.burnIfShare token).memberships = home.memberships := by
  unfold burnIfShare
  split
  · split_ifs <;> rfl
  · rfl

@[simp] theorem memberships_gcMailbox (owner : IdentityId) :
    (home.gcMailbox owner).memberships = home.memberships := by
  unfold gcMailbox
  split
  · rfl
  · dsimp only
    split_ifs <;> rfl

@[simp] theorem memberships_appendInner (inner : InnerEnvelope) :
    (home.appendInner inner).2.memberships = home.memberships := by
  have h := home.memberships_authorizeAppend inner.deliveryCapability
  unfold appendInner
  split <;> rename_i heq <;> rw [heq] at h
  · exact h
  · split
    · exact h
    · split
      · exact h
      · split
        · exact h
        · rw [memberships_gcMailbox, memberships_burnIfShare]
          exact h

@[simp] theorem memberships_ingest (outer : OuterEnvelope) :
    (home.ingest crypto outer).2.memberships = home.memberships := by
  unfold ingest
  split
  · rfl
  · split
    · rfl
    · split
      · rfl
      · rename_i inner _
        have h := home.memberships_appendInner inner
        split <;> rename_i heq <;> rw [heq] at h <;> exact h

@[simp] theorem memberships_enqueue (outer : OuterEnvelope) :
    (home.enqueue crypto outer).2.memberships = home.memberships := by
  have h := home.memberships_ingest crypto outer
  unfold enqueue
  split_ifs
  · split <;> rename_i heq <;> rw [heq] at h <;> exact h
  · rfl

@[simp] theorem memberships_checkOwner (owner : IdentityId) (auth : MailboxOwnerAuth)
    (nowUnix : ℕ) (expect : AuthScope) :
    (home.checkOwner crypto owner auth nowUnix expect).2.memberships = home.memberships := by
  obtain ⟨nonces, h⟩ := home.checkOwner_frame crypto owner auth nowUnix expect
  rw [h]

@[simp] theorem memberships_enqueueFromOwner (owner : IdentityId) (auth : MailboxOwnerAuth)
    (nowUnix : ℕ) (outer : OuterEnvelope) :
    (home.enqueueFromOwner crypto owner auth nowUnix outer).2.memberships = home.memberships := by
  unfold enqueueFromOwner
  dsimp only
  split <;> rename_i heq <;> rw [← home.memberships_checkOwner crypto owner auth nowUnix, heq]
  split
  · rfl
  · exact memberships_enqueue _ _ outer

@[simp] theorem memberships_fetch (owner : IdentityId) (auth : MailboxOwnerAuth) (nowUnix : ℕ) :
    (home.fetch crypto owner auth nowUnix).2.memberships = home.memberships := by
  unfold fetch
  dsimp only
  split <;> rename_i heq <;> rw [← home.memberships_checkOwner crypto owner auth nowUnix, heq]
  split_ifs
  · rfl
  · split <;> exact memberships_gcMailbox _ _

@[simp] theorem memberships_ack (owner : IdentityId) (auth : MailboxOwnerAuth) (nowUnix : ℕ) :
    (home.ack crypto owner auth nowUnix).2.memberships = home.memberships := by
  unfold ack ackRows
  dsimp only
  split <;> rename_i heq <;> rw [← home.memberships_checkOwner crypto owner auth nowUnix, heq]
  split
  · rfl
  · dsimp only
    split_ifs <;> rfl

@[simp] theorem memberships_enqueueAll (outers : List OuterEnvelope) :
    (home.enqueueAll crypto outers).memberships = home.memberships := by
  induction outers generalizing home with
  | nil => rfl
  | cons outer outers ih =>
    exact (ih (home.enqueue crypto outer).2).trans (home.memberships_enqueue crypto outer)

/-- Where no membership is recorded, a revocation names no group and records none. -/
theorem ingestRevocation_of_empty (h : home.memberships = ∅) (stmt : RevocationStatement) :
    (home.ingestRevocation crypto stmt).2.memberships = ∅ ∧
      ∀ ids, (home.ingestRevocation crypto stmt).1 = .ok ids → ids = [] := by
  have hdisabled (row : DirectoryRow) : HomeServer.takeMemberships
      ((home.putDirectory stmt.identityId row).disableMailbox stmt.identityId) stmt.identityId =
        ([], (home.putDirectory stmt.identityId row).disableMailbox stmt.identityId) := by
    have hnone : ((home.putDirectory stmt.identityId row).disableMailbox
        stmt.identityId).memberships.lookup stmt.identityId = none := by
      change home.memberships.lookup stmt.identityId = none
      rw [h]
      rfl
    rw [takeMemberships, hnone]
  unfold ingestRevocation
  split
  · exact ⟨h, nofun⟩
  · split
    · exact ⟨h, nofun⟩
    · split
      · exact ⟨h, nofun⟩
      · split
        · exact ⟨h, nofun⟩
        · dsimp only
          rw [hdisabled]
          exact ⟨h, fun ids hids ↦ (Except.ok.inj hids).symm⟩

end HomeServer

/-! ## Handlers -/

section Handlers

variable {α : Type} {crypto : Crypto} {env : Env} {st : AppState}

namespace AppState

@[simp] theorem home_answerHome (reply : α → Response) (outcome : Outcome α) :
    (st.answerHome reply outcome).2.home = outcome.2 := by
  obtain ⟨_ | _, home⟩ := outcome <;> rfl

@[simp] theorem home_answerGroups (reply : α → Response) (outcome : GroupOutcome α) :
    (st.answerGroups reply outcome).2.home = st.home := by
  obtain ⟨_ | _, groups⟩ := outcome <;> rfl

@[simp] theorem memberships_homeAt (now : UInt64) :
    (st.homeAt now).memberships = st.home.memberships := rfl

end AppState

/-- A revocation where no membership is recorded leaves the groups as they are. -/
theorem Handler.revocation_of_empty (h : st.home.memberships = ∅) (stmt : RevocationStatement) :
    (revocation crypto env st stmt).2.home.memberships = ∅ ∧
      (revocation crypto env st stmt).2.groups.groups = st.groups.groups := by
  obtain ⟨hempty, hids⟩ :=
    (st.homeAt (env.clock 0)).ingestRevocation_of_empty crypto h stmt
  unfold revocation
  split <;> rename_i heq
  · rw [heq] at hempty
    exact ⟨hempty, rfl⟩
  · rw [heq] at hempty hids
    obtain rfl := hids _ rfl
    exact ⟨hempty, rfl⟩

/-- No handler records a membership. -/
theorem Call.memberships_handle (h : st.home.memberships = ∅) (call : Call) :
    (call.handle crypto env st).2.home.memberships = ∅ := by
  cases call with
  | bundle | discovery | groupPendingLookup | groupFetchFile => exact h
  | register | observeCardBinding | postEnvelope | mailboxFetch | mailboxAck =>
    simpa [handle] using h
  | groupInvite | groupAccept | groupUploadFile => simpa [handle] using h
  | issueTurn | wakeup => simpa [handle, Handler.issueTurn, Handler.wakeup] using h
  | fetchPrekey token =>
    have hkept := (st.homeAt (env.clock 0)).memberships_fetchPrekey token
    rw [handle, Handler.fetchPrekey]
    split <;> rename_i heq <;> rw [heq] at hkept <;> exact hkept.trans h
  | uploadPrekey owner blob =>
    have hkept := (st.homeAt (env.clock 0)).memberships_checkOwner crypto owner.id
      owner.auth (env.clock 1).toNat
      (.header crypto ((st.homeAt (env.clock 0)).serverId crypto) "POST" "/v1/prekeys" blob)
    rw [handle, Handler.uploadPrekey]
    split <;> rename_i heq <;> rw [heq] at hkept
    · exact hkept.trans h
    · simpa using hkept.trans h
  | mintShare owner | mintContact owner =>
    have hkept (path : String) := (st.homeAt (env.clock 0)).memberships_checkOwner crypto
      owner.id owner.auth (env.clock 1).toNat
      (.header crypto ((st.homeAt (env.clock 0)).serverId crypto) "POST" path [])
    rw [handle, Handler.mintToken]
    split <;> rename_i heq <;> replace heq := congrArg (·.2.memberships) heq
    · exact heq.symm.trans ((hkept _).trans h)
    · simpa using heq.symm.trans ((hkept _).trans h)
  | revocation stmt => exact (Handler.revocation_of_empty h stmt).1
  | createGroup owner body signingPk cap hpke =>
    have hkept := st.home.memberships_checkOwner crypto owner.id owner.auth
      (env.clock 0).toNat (.header crypto (st.home.serverId crypto) "POST" "/v1/groups" body)
    rw [handle, Handler.createGroup]
    split <;> rename_i heq <;> rw [heq] at hkept
    · exact hkept.trans h
    · split_ifs
      · exact hkept.trans h
      · rw [AppState.home_answerGroups]
        exact hkept.trans h
  | groupAppend req =>
    rw [handle, Handler.groupAppend]
    split
    · exact h
    · exact (HomeServer.memberships_enqueueAll _ _ _).trans h
  | groupAdmit groupId admitter admission joinerPk cap hpke =>
    rw [handle, Handler.groupAdmit]
    split_ifs
    · exact h
    · rwa [AppState.home_answerGroups]
  | groupFanout groupId cred cap hpke =>
    rw [handle, Handler.groupFanout]
    split_ifs
    · exact h
    · rwa [AppState.home_answerGroups]

end Handlers

/-! ## Runs of requests -/

/-- What happens to a node that answers requests. -/
inductive NodeEvent
  | request (env : Env) (fault : Bool) (req : Request)
  | persist (fault : Bool)
  | reload

/-- The node after an event. -/
def NodeEvent.apply (crypto : Crypto) (node : Node) : NodeEvent → Node
  | request env fault req => (node.serve crypto env fault req).2
  | persist fault => (node.persist fault).2
  | reload => node.reload crypto

/-- Neither memory nor database holds a membership. -/
structure Node.Unrecorded (node : Node) : Prop where
  memory : node.home.memberships = ∅
  stored : node.db.memberships = []

section Runs

variable {crypto : Crypto} {env : Env} {fault : Bool} {req : Request} {node : Node}

theorem Node.unrecorded_first (crypto : Crypto) (hpke : HpkeKeypair) (sign : Key) (host : Text)
    (s2sPort : UInt16) : (Node.first crypto hpke sign host s2sPort).Unrecorded := ⟨rfl, rfl⟩

theorem Node.groups_persist (node : Node) (fault : Bool) :
    (node.persist fault).2.host.groups = node.host.groups := by
  unfold Node.persist Server.persist
  split_ifs
  · rfl
  · rfl
  · dsimp only
    split <;> rfl

theorem memberships_persistHome {home : HomeServer} {hd : HomeDirty} {db db' : Database}
    (hmemory : home.memberships = ∅) (hdb : db.memberships = [])
    (h : Database.persistHome home hd db = .ok db') : db'.memberships = [] := by
  unfold Database.persistHome at h
  obtain ⟨mailboxRows, -, h⟩ := bind_eq_ok.mp h
  obtain ⟨tokens, -, h⟩ := bind_eq_ok.mp h
  obtain ⟨prekeys, -, h⟩ := bind_eq_ok.mp h
  obtain ⟨memberships, hmemberships, h⟩ := bind_eq_ok.mp h
  obtain ⟨hpkeSeen, -, h⟩ := bind_eq_ok.mp h
  cases h
  refine foldlM_invariant (fun rows ↦ rows = []) ?_ hmemberships hdb
  intro rows owner rows' _ hrewrite hrows
  rw [Database.rewriteMemberships, hmemory, hrows] at hrewrite
  exact (Except.ok.inj hrewrite).symm

theorem memberships_persistGroups {host : GroupHost} {gd : GroupDirty} {db db' : Database}
    (h : Database.persistGroups host gd db = .ok db') : db'.memberships = db.memberships := by
  unfold Database.persistGroups at h
  obtain ⟨groupCreds, -, h⟩ := bind_eq_ok.mp h
  obtain ⟨groupInvites, -, h⟩ := bind_eq_ok.mp h
  obtain ⟨groupPending, -, h⟩ := bind_eq_ok.mp h
  obtain ⟨groupStream, -, h⟩ := bind_eq_ok.mp h
  obtain ⟨groupFiles, -, h⟩ := bind_eq_ok.mp h
  cases h
  rfl

theorem Node.Unrecorded.persist (h : node.Unrecorded) (fault : Bool) :
    (node.persist fault).2.Unrecorded := by
  refine ⟨?_, ?_⟩
  · obtain ⟨⟨dirty, hhome⟩, -⟩ := node.persist_writes fault
    rw [hhome]
    exact h.memory
  · unfold Node.persist Server.persist
    split_ifs
    · exact h.stored
    · exact h.stored
    · dsimp only
      split
      · exact h.stored
      · rename_i db hdb
        unfold Database.persistInner at hdb
        obtain ⟨mid, hhome, hgroups⟩ := bind_eq_ok.mp hdb
        exact (memberships_persistGroups hgroups).trans
          (memberships_persistHome h.memory h.stored hhome)

theorem Node.Unrecorded.reload (h : node.Unrecorded) : (node.reload crypto).Unrecorded := by
  unfold Node.reload
  split
  · rename_i loaded host hload
    obtain ⟨hpke, sign, ident, hhome⟩ := exists_loadHome_of_loadKeys hload
    unfold Database.loadHome at hhome
    obtain ⟨directory, -, hhome⟩ := bind_eq_ok.mp hhome
    obtain ⟨envelopes, -, hhome⟩ := bind_eq_ok.mp hhome
    obtain ⟨tokens, -, hhome⟩ := bind_eq_ok.mp hhome
    obtain ⟨peers, -, hhome⟩ := bind_eq_ok.mp hhome
    obtain ⟨outbound, -, hhome⟩ := bind_eq_ok.mp hhome
    cases hhome
    refine ⟨?_, h.stored⟩
    change FiniteMap.collect node.db.memberships = ∅
    rw [h.stored]
    rfl
  · exact h

/-- What a call leaves behind, saved or not. -/
def Node.afterCall (crypto : Crypto) (env : Env) (fault mutating : Bool) (call : Call)
    (node : Node) : Node :=
  let (response, st) := call.handle crypto env node.state
  if mutating && response.isSuccess then ((node.withState st).persist fault).2
  else node.withState st

theorem Node.serve_of_call {call : Call} (h : req.call = .ok call) (node : Node) :
    (node.serve crypto env fault req).2 = node.afterCall crypto env fault req.mutating call := by
  unfold Node.serve Node.persistAfter Node.afterCall Request.handle
  rw [h]
  dsimp only
  split_ifs <;> rfl

/-- The layers keep the status of an answer they can sign. -/
theorem Node.code_serve {call : Call} (h : req.call = .ok call)
    (hsize : (call.handle crypto env node.state).1.body.length ≤ bodyLimit) :
    (node.serve crypto env fault req).1.response.code =
      (call.handle crypto env node.state).1.code := by
  have hsigned (serverSk : Key) (nonce : Option Key) (response : Response)
      (hbody : response.body.length ≤ bodyLimit) :
      (signAfter crypto serverSk nonce response).response = response := by
    unfold signAfter
    split
    · rfl
    · rw [if_neg (Nat.not_lt.mpr hbody)]
  have hresponse : (node.persistAfter crypto env fault req).1 =
      (call.handle crypto env node.state).1 := by
    unfold Node.persistAfter Request.handle
    rw [h]
    dsimp only
    split_ifs <;> rfl
  unfold Node.serve
  dsimp only
  rw [hresponse]
  split_ifs
  · change (signAfter _ _ _ _).response.code = _
    rw [hsigned _ _ _ hsize]
  · rw [hsigned _ _ _ hsize]

/-- What a request leaves behind: what its handler did, saved or not. -/
theorem Node.serve_eq (crypto : Crypto) (env : Env) (fault : Bool) (req : Request) (node : Node) :
    (node.serve crypto env fault req).2 = node.withState (req.handle crypto env node.state).2 ∨
      (node.serve crypto env fault req).2 =
        ((node.withState (req.handle crypto env node.state).2).persist fault).2 := by
  unfold Node.serve Node.persistAfter
  dsimp only
  split_ifs
  · exact .inr rfl
  · exact .inl rfl

theorem Node.groups_serve (node : Node) : (node.serve crypto env fault req).2.host.groups =
    (req.handle crypto env node.state).2.groups.groups := by
  rcases node.serve_eq crypto env fault req with h | h
  · rw [h]
    rfl
  · rw [h, groups_persist]
    rfl

theorem Node.Unrecorded.serve (h : node.Unrecorded) :
    (node.serve crypto env fault req).2.Unrecorded := by
  have hhandled : (node.withState (req.handle crypto env node.state).2).Unrecorded := by
    refine ⟨?_, h.stored⟩
    change (req.handle crypto env node.state).2.home.memberships = ∅
    unfold Request.handle
    split
    · exact h.memory
    · exact Call.memberships_handle h.memory _
  rcases node.serve_eq crypto env fault req with heq | heq
  · rwa [heq]
  · rw [heq]
    exact hhandled.persist fault

theorem Node.Unrecorded.run (h : node.Unrecorded) (events : List NodeEvent) :
    (Data.run (NodeEvent.apply crypto) node events).Unrecorded := by
  refine run_keeps Node.Unrecorded (fun node event hnode ↦ ?_) h events
  cases event with
  | request env fault req => exact hnode.serve
  | persist fault => exact hnode.persist fault
  | reload => exact hnode.reload

/-- A revocation leaves the groups of a node without memberships as they are. -/
theorem Node.Unrecorded.groups_serve (h : node.Unrecorded) {stmt : RevocationStatement}
    (hreq : req.call = .ok (.revocation stmt)) :
    (node.serve crypto env fault req).2.host.groups = node.host.groups := by
  rw [node.groups_serve, Request.handle, hreq]
  have hstate : node.state.home.memberships = ∅ := h.memory
  exact (Handler.revocation_of_empty hstate stmt).2

end Runs

/-! ## What a revocation reaches -/

/-- An identity created a group, or a live credential of the group has a fan-out capability of the
identity's mailbox. -/
def GroupState.Concerns (g : GroupState) (home : HomeServer) (id : IdentityId) : Prop :=
  g.creator = some id ∨ ∃ c record target, g.creds.lookup c = some record ∧ record.live = true ∧
    record.fanout = some target ∧ home.capabilityMailbox target.deliveryCapability = some id

/-- The stream of a group; a group that is not hosted has none. -/
def GroupHost.rowsOf (host : GroupHost) (groupId : GroupId) : List StreamRow :=
  ((host.groups.lookup groupId).map (·.stream)).getD []

section Reach

variable (crypto : Crypto) (env : Env) (fault : Bool) (req : Request) (node : Node)

/-- The request is a revocation and it is accepted. -/
def Node.AcceptsRevocation (stmt : RevocationStatement) : Prop :=
  req.call = .ok (.revocation stmt) ∧ (node.serve crypto env fault req).1.response.code = 204

/-- An accepted revocation is appended once to every hosted group that concerns the identity, and
submitting it again, whatever happened meanwhile, appends nothing. -/
def Node.RevocationReaches : Prop :=
  ∀ stmt, node.AcceptsRevocation crypto env fault req stmt →
    (∀ groupId g, node.host.groups.lookup groupId = some g →
      g.Concerns node.home stmt.identityId →
        ∃ row, row.type = .revocationStatement ∧ row.body = stmt.encode ∧
          (node.serve crypto env fault req).2.host.rowsOf groupId = g.stream ++ [row]) ∧
    ∀ events env' fault' req', req'.call = .ok (.revocation stmt) →
      let later := run (NodeEvent.apply crypto) (node.serve crypto env fault req).2 events
      ∀ groupId, (later.serve crypto env' fault' req').2.host.rowsOf groupId =
        later.host.rowsOf groupId

/-- No hosted group concerns the identity an accepted revocation is about. -/
def Node.RevokesStranger : Prop :=
  ∀ stmt, node.AcceptsRevocation crypto env fault req stmt →
    ∀ groupId g, node.host.groups.lookup groupId = some g →
      ¬ g.Concerns node.home stmt.identityId

end Reach

/-- After any run of requests, calls of `persist` and restarts, a revocation reaches the groups it
should exactly when there are none. -/
theorem revocation_reaches_iff (crypto : Crypto) (hpke : HpkeKeypair) (sign : Key) (host : Text)
    (s2sPort : UInt16) (events : List NodeEvent) (env : Env) (fault : Bool) (req : Request) :
    let node := run (NodeEvent.apply crypto) (Node.first crypto hpke sign host s2sPort) events
    node.RevocationReaches crypto env fault req ↔ node.RevokesStranger crypto env fault req := by
  intro node
  have hnode : node.Unrecorded := (Node.unrecorded_first crypto hpke sign host s2sPort).run events
  constructor
  · intro hreaches stmt haccepts groupId g hg hconcerns
    obtain ⟨row, -, -, hstream⟩ := (hreaches stmt haccepts).1 groupId g hg hconcerns
    rw [GroupHost.rowsOf, hnode.groups_serve haccepts.1, hg] at hstream
    exact List.cons_ne_nil row [] (List.self_eq_append_right.mp hstream)
  · intro hstranger stmt haccepts
    refine ⟨fun groupId g hg hconcerns ↦ ?_, fun events' env' fault' req' hreq' ↦ ?_⟩
    · exact absurd hconcerns (hstranger stmt haccepts groupId g hg)
    · intro later groupId
      have hlater : later.Unrecorded := hnode.serve.run events'
      rw [GroupHost.rowsOf, hlater.groups_serve hreq', GroupHost.rowsOf]

/-! A creator who revokes her identity. -/

/-- A card for the server whose public key is `server`. -/
def plainCard (server key token : Key) : ContactCard where
  identityPublicKey := key
  revocationPublicKey := key
  shareToken := token
  binding :=
    { serverId := server
      serverHpkePublicKey := server
      host := ⟨"local", Text.local_size⟩
      seq := 1
      expiresAt := 1700000000
      signature := .replicate 64 0 }

/-- The body of a request that creates a group. -/
def groupBody (signingPk cap hpke : Key) : Bytes :=
  Cbor.encode (.map [(0, .bytes signingPk.data), (1, .bytes cap.data), (2, .bytes hpke.data)])

/-- The authorisation of a request that creates a group. -/
def groupOwner (server id : Key) (body : Bytes) : Owner where
  id := id
  auth :=
    { mailboxHint := id.data
      cursor := 0
      limit := 1
      ts := 1700000000
      scope := .header .transparent server "POST" "/v1/groups" body
      nonce := .replicate 32 9
      signature := .replicate 64 0 }

/-- The clock stands still, and every key drawn is another one. -/
def stillEnv : Env where
  clock _ := 1700000000
  key n := .replicate 32 (UInt8.ofNat (10 + n))
  seals _ _ := (.replicate 32 0, .replicate 32 0)
  turn := ⟨⟨"", by decide⟩, ⟨"", by decide⟩, ⟨"", by decide⟩, 3600⟩

/-- An identity registers, creates a group and revokes itself: the revocation is accepted and the
stream of the group stays empty. -/
theorem revocation_misses_creator :
    let server : Key := .replicate 32 1
    let id : Key := .replicate 32 3
    let token : Key := .replicate 32 2
    let owner := groupOwner server id (groupBody id token server)
    let stmt : RevocationStatement := ⟨id, 1700000000, .replicate 64 0⟩
    let register := Request.sent .post "/v1/register" []
      (Cbor.encode (.map (plainCard server id token).pairs))
    let create := Request.sent .post "/v1/groups" [("nemo-owner", toHex owner.auth.encode)]
      (groupBody id token server)
    let revoke := Request.sent .post "/v1/revocation" [] stmt.encode
    let node := run (NodeEvent.apply .transparent)
      (Node.first .transparent ⟨server, server⟩ server ⟨"local", Text.local_size⟩ 8443)
      [.request stillEnv false register, .request stillEnv false create]
    ¬ node.RevocationReaches .transparent stillEnv false revoke := by
  intro server id token owner stmt register create revoke node
  have hregister : register.call = .ok (.register (plainCard server id token)) := by
    refine call_register (by decide +kernel) (ContactCard.decode_encode ?_)
    rw [ContactCard.encode, if_neg (by decide +kernel)]
  have howner : owner.Readable := by
    refine ⟨rfl, MailboxOwnerAuth.decode_encode ?_ ?_ ?_⟩ <;> decide +kernel
  have hcreate : create.call = .ok (.createGroup owner (groupBody id token server) id token server) := by
    refine call_createGroup howner rfl (by decide +kernel) (decodeMap_encode ?_)
    simp [Cbor.Value.Wf, Cbor.pairsWf]
  have hrevoke : revoke.call = .ok (.revocation stmt) := call_revocation stmt (by decide +kernel)
  have hnode : node =
      ((Node.first .transparent ⟨server, server⟩ server ⟨"local", Text.local_size⟩ 8443).afterCall
        .transparent stillEnv false true (.register (plainCard server id token))).afterCall
          .transparent stillEnv false true
            (.createGroup owner (groupBody id token server) id token server) := by
    change ((Node.serve _ _ _ register _).2.serve _ _ _ create).2 = _
    rw [Node.serve_of_call hregister, Node.serve_of_call hcreate]
    rfl
  have hgroup : (node.host.groups.lookup ⟨.replicate 32 10⟩).map (·.creator) = some (some id) := by
    rw [hnode]
    decide +kernel
  have haccepts : node.AcceptsRevocation .transparent stillEnv false revoke stmt := by
    refine ⟨hrevoke, ?_⟩
    rw [Node.code_serve hrevoke] <;> rw [hnode] <;> decide +kernel
  have hempty : node.Unrecorded := (Node.unrecorded_first _ _ _ _ _).run _
  obtain ⟨g, hg, hcreator⟩ := Option.map_eq_some_iff.mp hgroup
  intro hreaches
  obtain ⟨row, -, -, hstream⟩ := (hreaches stmt haccepts).1 _ g hg (.inl hcreator)
  rw [GroupHost.rowsOf, hempty.groups_serve hrevoke, hg] at hstream
  exact List.cons_ne_nil row [] (List.self_eq_append_right.mp hstream)

end NemoMessenger.Server
