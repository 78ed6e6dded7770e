import NemoMessenger.Server.Node

/-!
# Booting

The identity file and `load_or_init`, which starts a server from whatever it finds: nothing, a
database with its identity file, or a database written before the secrets moved to the file. From
each of these a second boot finds what the first one stored. An identity file without a server
identity in the database is the exception: the journal starts empty there, and the row that every
later boot looks for is never written.
-/

namespace NemoMessenger.Server

open NemoMessenger.Data NemoMessenger.Wire

/-! ## The identity file -/

/-- The bytes `identity::save` writes. -/
def identityFile (crypto : Crypto) (hpke : HpkeKeypair) (sign : Key) : Bytes :=
  Cbor.encode (.map [(0, .bytes hpke.secret.data), (1, .bytes hpke.publicKey.data),
    (2, .bytes sign.data), (3, .bytes (crypto.verifyingKey sign).data)])

/-- The closure `read` of `identity::load`. -/
def readIdentityKey (pairs : List (UInt64 × Cbor.Value)) (key : UInt64) :
    Except PersistError Key :=
  match Cbor.mapGet pairs key with
  | .error _ => .error (.identity "field")
  | .ok value =>
    match Cbor.expectBytes value with
    | .error _ => .error (.identity "bytes")
    | .ok bytes =>
      match copyFixed 32 bytes with
      | .error _ => .error (.identity "len")
      | .ok key => .ok key

/-- `identity::load` on the bytes of the file. -/
def loadIdentity (crypto : Crypto) (bytes : Bytes) : Except PersistError (HpkeKeypair × Key) :=
  match Cbor.decode bytes with
  | .error _ => .error (.identity "cbor")
  | .ok (.map pairs) => do
    let secret ← readIdentityKey pairs 0
    let publicKey ← readIdentityKey pairs 1
    let sign ← readIdentityKey pairs 2
    let signPublic ← readIdentityKey pairs 3
    if crypto.verifyingKey sign ≠ signPublic then .error (.identity "sign mismatch")
    else .ok ({ publicKey, secret }, sign)
  | .ok _ => .error (.identity "map")

theorem loadIdentity_identityFile (crypto : Crypto) (hpke : HpkeKeypair) (sign : Key) :
    loadIdentity crypto (identityFile crypto hpke sign) = .ok (hpke, sign) := by
  have hwf : (Cbor.Value.map [(0, .bytes hpke.secret.data), (1, .bytes hpke.publicKey.data),
      (2, .bytes sign.data), (3, .bytes (crypto.verifyingKey sign).data)]).Wf := by
    simp [Cbor.Value.Wf, Cbor.pairsWf]
  unfold loadIdentity identityFile
  rw [Cbor.decode_encode hwf]
  simp [readIdentityKey, Cbor.mapGet, Cbor.mapGetOpt, Cbor.expectBytes, bind, Except.bind]

/-! ## `load_or_init` -/

/-- The writes of a boot that fail on the way. -/
structure BootFaults where
  save : Bool := false
  persist : Bool := false
  rebind : Bool := false

/-- What a boot returns, and the identity file and the database it leaves. -/
abbrev BootOutcome := Except PersistError (HomeServer × GroupHost) × Option Bytes × Database

/-- The `persist(..)?` and `Ok((home, groups))` at the end of each branch. -/
def finishBoot (file : Option Bytes) : Except PersistError Unit × Node → BootOutcome
  | (.error e, node) => (.error e, file, node.db)
  | (.ok (), node) => (.ok (node.home, node.host), file, node.db)

/-- Store the host and port of this boot if they differ from the stored ones. -/
def rebindIfMoved (crypto : Crypto) (fault : Bool) (host : Text) (s2sPort : UInt16) (node : Node) :
    Except PersistError Unit × Node :=
  if node.home.bundle.host ≠ host ∨ node.home.bundle.s2sPort ≠ s2sPort.toUInt64 then
    Node.persist { node with home := node.home.rebindHost crypto host s2sPort } fault
  else (.ok (), node)

/-- The branch of a loaded server. Without a file the keys of the row move there. -/
def bootLoaded (crypto : Crypto) (faults : BootFaults) (host : Text) (s2sPort : UInt16)
    (file : Option Bytes) (node : Node) : BootOutcome :=
  if file.isSome then finishBoot file (rebindIfMoved crypto faults.rebind host s2sPort node)
  else if faults.save then (.error (.identity "io"), file, node.db)
  else
    let file := some (identityFile crypto node.home.hpke node.home.sign)
    let marked : Node :=
      { node with
        home := { node.home with dirty := { node.home.dirty with serverIdentity := true } } }
    match marked.persist faults.persist with
    | (.error e, node) => (.error e, file, node.db)
    | (.ok (), node) => finishBoot file (rebindIfMoved crypto faults.rebind host s2sPort node)

/-- `load_or_init`, with the keys it would generate. -/
def loadOrInit (crypto : Crypto) (faults : BootFaults) (generated : HpkeKeypair × Key)
    (host : Text) (s2sPort : UInt16) (file : Option Bytes) (db : Database) : BootOutcome :=
  match file.mapM (loadIdentity crypto) with
  | .error e => (.error e, file, db)
  | .ok keys =>
    match db.loadKeys crypto keys with
    | .error e => (.error e, file, db)
    | .ok (some (home, groups)) =>
      bootLoaded crypto faults host s2sPort file { home, host := groups, db }
    | .ok none =>
      match keys with
      | some (hpke, sign) =>
        finishBoot file (Node.persist
          { home := .fromIdentity crypto hpke sign host s2sPort, host := .new, db } faults.persist)
      | none =>
        if faults.save then (.error (.identity "io"), file, db)
        else
          finishBoot (some (identityFile crypto generated.1 generated.2)) (Node.persist
            { home := .advertise crypto generated.1 generated.2 host s2sPort, host := .new, db }
            faults.persist)

/-- The row of a server from the time when the row held the secrets. -/
def legacyRow (home : HomeServer) : ServerIdentityRow :=
  { serverIdentityRow home with
    hpkeSecret := some home.hpke.secret.data
    signSecret := some home.sign.data }

/-- What `load_or_init` can start from. -/
inductive Startable (crypto : Crypto) : Option Bytes → Database → Prop
  | neither : Startable crypto none .empty
  | fileOnly (hpke : HpkeKeypair) (sign : Key) :
    Startable crypto (some (identityFile crypto hpke sign)) .empty
  | both (home : HomeServer) (groups : GroupHost) (db : Database) (h : Saved home groups db) :
    Startable crypto (some (identityFile crypto home.hpke home.sign)) db
  | legacy (home : HomeServer) (groups : GroupHost) (db : Database) (h : Saved home groups db) :
    Startable crypto none { db with serverIdentity := some (legacyRow home) }

section Boot

variable {crypto : Crypto}

/-! ## What a boot leaves -/

/-- A server that was just loaded or stored, with its identity file. -/
structure Booted (crypto : Crypto) (file : Option Bytes) (node : Node) : Prop extends
    Saved node.home node.host node.db where
  homeClean : node.home.dirty = {}
  hostClean : node.host.dirty = {}
  identity : file = some (identityFile crypto node.home.hpke node.home.sign)

theorem Booted.recoverable {file : Option Bytes} {node : Node} (h : Booted crypto file node) :
    node.Recoverable :=
  ⟨h.toSaved.inStep h.homeClean h.hostClean, .inr ⟨_, _, h.toSaved, rfl, rfl⟩⟩

/-- A successful `persist` of a node in step leaves a booted one. -/
theorem Booted.of_persist (crypto : Crypto) {node node' : Node} {fault : Bool} (h : node.InStep)
    (hpersist : node.persist fault = (.ok (), node')) :
    Booted crypto (some (identityFile crypto node.home.hpke node.home.sign)) node' ∧
      node'.home = { node.home with dirty := {} } ∧ node'.host = { node.host with dirty := {} } := by
  rcases node.persist_cases h fault with ⟨db, heq, hsaved⟩ | ⟨-, heq⟩
  · rw [heq] at hpersist
    cases hpersist
    exact ⟨⟨hsaved.drain {} {} node.home.history, rfl, rfl, rfl⟩, rfl, rfl⟩
  · rw [heq] at hpersist
    cases hpersist

theorem Node.InStep.rebind {node : Node} (h : node.InStep) (crypto : Crypto) (host : Text) (s2sPort : UInt16) :
    Node.InStep { node with home := node.home.rebindHost crypto host s2sPort } := by
  have hedit : LoudEdit crypto .all node.home (node.home.rebindHost crypto host s2sPort) :=
    .quiet (.rebind node.home host s2sPort)
  exact ⟨hedit.valid Promises.strict_all h.homeValid,
    hedit.synced Promises.strict_all h.homeValid h.homeSynced,
    h.hostValid, h.hostSynced⟩

/-- Rebinding and draining leave the durable fields alone. -/
theorem HomeServer.SameDurable.rebind {home home' : HomeServer} (h : home.SameDurable home')
    (host : Text) (s2sPort : UInt16) (dirty : HomeDirty) :
    home.SameDurable { home'.rebindHost crypto host s2sPort with dirty } :=
  ⟨h.mailboxes, h.directory, h.tokens, h.prekeys, h.memberships, h.peers, h.outbound, h.seenEnc⟩

theorem rebindIfMoved_spec {file : Option Bytes} {node node' : Node} {fault : Bool}
    {host : Text} {s2sPort : UInt16} (h : Booted crypto file node)
    (hrebind : rebindIfMoved crypto fault host s2sPort node = (.ok (), node')) :
    Booted crypto file node' := by
  unfold rebindIfMoved at hrebind
  split at hrebind
  · obtain ⟨hbooted, -⟩ := Booted.of_persist crypto
      (h.recoverable.toInStep.rebind crypto host s2sPort) hrebind
    rw [h.identity]
    exact hbooted
  · cases hrebind
    exact h

theorem finishBoot_eq_ok {file file' : Option Bytes} {result : Except PersistError Unit × Node}
    {home : HomeServer} {groups : GroupHost} {db : Database}
    (h : finishBoot file result = (.ok (home, groups), file', db)) :
    file = file' ∧ result = (.ok (), ⟨home, groups, db⟩) := by
  obtain ⟨res, node⟩ := result
  cases res with
  | error e => cases h
  | ok u =>
    cases u
    cases h
    exact ⟨rfl, rfl⟩

/-- The keys of a legacy row load the same server as those of the file. -/
theorem loadKeys_legacy (crypto : Crypto) {home : HomeServer} {groups : GroupHost} {db : Database}
    (h : Saved home groups db) :
    ∃ home' groups', Database.loadKeys crypto
        { db with serverIdentity := some (legacyRow home) } none = .ok (some (home', groups')) ∧
      home.Reloads home' ∧ groups'.dirty = {} ∧ Saved home' groups' db := by
  obtain ⟨home', hload, hreloads, hvalid, hstored⟩ := loadHome_eq_ok crypto h.homeValid h.homeStored
  obtain ⟨groups', hload', hsame, hdirty⟩ := loadGroups_eq_ok h.hostValid h.hostStored
  refine ⟨home', groups', ?_, hreloads, hdirty, hvalid, hstored, hsame.valid h.hostValid,
    h.hostStored.sameDurable hsame⟩
  have hne (key : Key) : (some key.data).filter (fun bytes ↦ !bytes.isEmpty) = some key.data := by
    have hdata : key.data ≠ [] := List.ne_nil_of_length_pos (by simp)
    simpa using hdata
  have hkeys : Database.rowKeys (legacyRow home) = .ok (home.hpke, home.sign) := by
    unfold Database.rowKeys legacyRow
    rw [hne, hne]
    simp [serverIdentityRow, Database.key32, bind, Except.bind]
  -- neither half of the reload reads the secrets
  have hhome : Database.loadHome crypto { db with serverIdentity := some (legacyRow home) }
      home.hpke home.sign (legacyRow home) = .ok home' := hload
  have hgroups : Database.loadGroups { db with serverIdentity := some (legacyRow home) } =
      .ok groups' := hload'
  unfold Database.loadKeys
  dsimp only
  rw [hkeys]
  simp only [bind, Except.bind, hhome, hgroups]

/-- Marking the server identity keeps a loaded server in step with any row in its place. -/
theorem Saved.markIdentity {home : HomeServer} {groups : GroupHost} {db : Database}
    (h : Saved home groups db) (hhome : home.dirty = {}) (hgroups : groups.dirty = {})
    (row : Option ServerIdentityRow) :
    Node.InStep
      { home := { home with dirty := { home.dirty with serverIdentity := true } }
        host := groups
        db := { db with serverIdentity := row } } := by
  have hstep := h.inStep hhome hgroups
  have hsynced := hstep.homeSynced
  have hrows := hsynced.mailboxRows
  have hhost := hstep.hostSynced
  exact
    { homeValid := hstep.homeValid.drain _ home.history
      homeSynced := ⟨fun h ↦ (by cases h), hsynced.identities,
        ⟨hrows.newNodup, hrows.newAbsent, hrows.newBelow, hrows.storedBelow, hrows.marks, hrows.gone,
          hrows.kept⟩,
        hsynced.tokens, hsynced.prekeys, hsynced.memberships, hsynced.peers, hsynced.peersKnown,
        hsynced.outbound, hsynced.hpkeSeen⟩
      hostValid := hstep.hostValid
      hostSynced := ⟨⟨hhost.groups, hhost.groupsKnown, hhost.creds, hhost.credsKnown,
        hhost.pending, hhost.stream, hhost.files, hhost.filesKnown⟩, hhost.invites⟩ }

theorem loadOrInit_neither {faults : BootFaults} {generated : HpkeKeypair × Key} {host : Text}
    {s2sPort : UInt16} {home : HomeServer} {groups : GroupHost} {file' : Option Bytes}
    {db' : Database} (h : loadOrInit crypto faults generated host s2sPort none .empty =
      (.ok (home, groups), file', db')) : Booted crypto file' ⟨home, groups, db'⟩ := by
  have hload : loadOrInit crypto faults generated host s2sPort none .empty =
      if faults.save then (.error (.identity "io"), none, .empty)
      else finishBoot (some (identityFile crypto generated.1 generated.2))
        ((Node.first crypto generated.1 generated.2 host s2sPort).persist faults.persist) := rfl
  rw [hload] at h
  split at h
  · cases h
  · obtain ⟨rfl, hpersist⟩ := finishBoot_eq_ok h
    exact (Booted.of_persist crypto
      (Node.inStep_first crypto generated.1 generated.2 host s2sPort) hpersist).1

theorem loadOrInit_both {faults : BootFaults} {generated : HpkeKeypair × Key} {host : Text}
    {s2sPort : UInt16} {saved : HomeServer} {savedGroups : GroupHost} {db : Database}
    (hsaved : Saved saved savedGroups db) {home : HomeServer} {groups : GroupHost}
    {file' : Option Bytes} {db' : Database}
    (h : loadOrInit crypto faults generated host s2sPort
      (some (identityFile crypto saved.hpke saved.sign)) db = (.ok (home, groups), file', db')) :
    Booted crypto file' ⟨home, groups, db'⟩ := by
  obtain ⟨home₁, groups₁, hload, hreloads, -, hclean, hsaved₁⟩ := loadKeys_eq_ok crypto hsaved
  have hkeys : (some (identityFile crypto saved.hpke saved.sign)).mapM (loadIdentity crypto) =
      .ok (some (saved.hpke, saved.sign)) := by
    rw [Option.mapM_some, loadIdentity_identityFile]
    rfl
  unfold loadOrInit at h
  rw [hkeys] at h
  dsimp only at h
  rw [hload] at h
  dsimp only at h
  rw [bootLoaded, if_pos Option.isSome_some] at h
  obtain ⟨rfl, hrebind⟩ := finishBoot_eq_ok h
  refine rebindIfMoved_spec ⟨hsaved₁, hreloads.dirty, hclean, ?_⟩ hrebind
  dsimp only
  rw [hreloads.hpke, hreloads.sign]

theorem loadOrInit_legacy {faults : BootFaults} {generated : HpkeKeypair × Key} {host : Text}
    {s2sPort : UInt16} {saved : HomeServer} {savedGroups : GroupHost} {db : Database}
    (hsaved : Saved saved savedGroups db) {home : HomeServer} {groups : GroupHost}
    {file' : Option Bytes} {db' : Database}
    (h : loadOrInit crypto faults generated host s2sPort none
      { db with serverIdentity := some (legacyRow saved) } = (.ok (home, groups), file', db')) :
    Booted crypto file' ⟨home, groups, db'⟩ := by
  obtain ⟨home₁, groups₁, hload, hreloads, hclean, hsaved₁⟩ := loadKeys_legacy crypto hsaved
  have hkeys : (none : Option Bytes).mapM (loadIdentity crypto) = .ok none := rfl
  unfold loadOrInit at h
  rw [hkeys] at h
  dsimp only at h
  rw [hload] at h
  dsimp only at h
  rw [bootLoaded, if_neg (by simp)] at h
  split at h
  · cases h
  · dsimp only at h
    split at h
    · cases h
    · rename_i node hpersist
      obtain ⟨hbooted, -⟩ := Booted.of_persist crypto
        (hsaved₁.markIdentity hreloads.dirty hclean _) hpersist
      obtain ⟨rfl, hrebind⟩ := finishBoot_eq_ok h
      exact rebindIfMoved_spec hbooted hrebind

/-- Every boot but that of an identity file without a row leaves a booted server. -/
theorem loadOrInit_booted {faults : BootFaults} {generated : HpkeKeypair × Key} {host : Text}
    {s2sPort : UInt16} {file : Option Bytes} {db : Database} (hstart : Startable crypto file db)
    (hrow : file.isSome → db.serverIdentity.isSome) {home : HomeServer} {groups : GroupHost}
    {file' : Option Bytes} {db' : Database}
    (h : loadOrInit crypto faults generated host s2sPort file db =
      (.ok (home, groups), file', db')) : Booted crypto file' ⟨home, groups, db'⟩ := by
  cases hstart with
  | neither => exact loadOrInit_neither h
  | fileOnly hpke sign => exact absurd (hrow rfl) (by simp [Database.empty])
  | both saved savedGroups _ hsaved => exact loadOrInit_both hsaved h
  | legacy saved savedGroups _ hsaved => exact loadOrInit_legacy hsaved h

/-- A server under the keys of another one, bound to a host and a port. -/
structure HomeServer.SameIdentity (crypto : Crypto) (home home' : HomeServer) (host : Text)
    (s2sPort : UInt16) : Prop where
  hpke : home'.hpke = home.hpke
  sign : home'.sign = home.sign
  bundle : home'.bundle = HomeServer.signedBundle crypto home.hpke home.sign host s2sPort

theorem HomeServer.SameIdentity.rebind (crypto : Crypto) {home home' : HomeServer}
    (hhpke : home'.hpke = home.hpke) (hsign : home'.sign = home.sign) (host : Text)
    (s2sPort : UInt16) (dirty : HomeDirty) :
    home.SameIdentity crypto { home'.rebindHost crypto host s2sPort with dirty } host s2sPort where
  hpke := hhpke
  sign := hsign
  bundle := by
    rw [← hhpke, ← hsign]
    rfl

/-- A reload signs the bundle anew, for the host and port of the row. -/
theorem loadHome_bundle {db : Database} {hpke : HpkeKeypair} {sign : Key} {ident : ServerIdentityRow}
    {loaded : HomeServer} (h : db.loadHome crypto hpke sign ident = .ok loaded) :
    loaded.bundle = HomeServer.signedBundle crypto hpke sign ident.host ident.s2sPort.toUInt16 := by
  unfold Database.loadHome at h
  obtain ⟨directory, -, h⟩ := bind_eq_ok.mp h
  obtain ⟨envelopes, -, h⟩ := bind_eq_ok.mp h
  obtain ⟨tokens, -, h⟩ := bind_eq_ok.mp h
  obtain ⟨peers, -, h⟩ := bind_eq_ok.mp h
  obtain ⟨outbound, -, h⟩ := bind_eq_ok.mp h
  cases h
  rfl

theorem loadKeys_bundle {db : Database} {hpke : HpkeKeypair} {sign : Key} {loaded : HomeServer}
    {groups : GroupHost} (h : db.loadKeys crypto (some (hpke, sign)) = .ok (some (loaded, groups))) :
    ∃ host s2sPort, loaded.bundle = HomeServer.signedBundle crypto hpke sign host s2sPort := by
  unfold Database.loadKeys at h
  split at h
  · cases h
  · dsimp only at h
    split_ifs at h
    · cases h
    · obtain ⟨keys, hkeys, h⟩ := bind_eq_ok.mp h
      cases hkeys
      obtain ⟨home, hhome, h⟩ := bind_eq_ok.mp h
      obtain ⟨host, -, h⟩ := bind_eq_ok.mp h
      cases h
      exact ⟨_, _, loadHome_bundle hhome⟩

/-- A server loaded under the stored keys and already bound to the host and port of the boot. -/
theorem HomeServer.SameIdentity.of_unmoved {db : Database} {home loaded : HomeServer}
    {groups : GroupHost} {host : Text} {s2sPort : UInt16}
    (hload : db.loadKeys crypto (some (home.hpke, home.sign)) = .ok (some (loaded, groups)))
    (hhpke : loaded.hpke = home.hpke) (hsign : loaded.sign = home.sign)
    (hmoved : ¬ (loaded.bundle.host ≠ host ∨ loaded.bundle.s2sPort ≠ s2sPort.toUInt64)) :
    home.SameIdentity crypto loaded host s2sPort := by
  obtain ⟨bound, port, hbundle⟩ := loadKeys_bundle hload
  have hsame : bound = host ∧ port.toUInt64 = s2sPort.toUInt64 := by
    simpa [hbundle, HomeServer.signedBundle, ServerBundle.sign, not_or] using hmoved
  have hport : port = s2sPort := by
    rw [← UInt16.toUInt16_toUInt64 port, hsame.2, UInt16.toUInt16_toUInt64]
  refine ⟨hhpke, hsign, ?_⟩
  rw [hbundle, hsame.1, hport]

/-- A boot on what a server has saved brings its keys and its durable fields back, bound to the host
and port of the boot. -/
theorem loadOrInit_saved (crypto : Crypto) {home : HomeServer} {groups : GroupHost} {db : Database}
    (h : Saved home groups db) (generated : HpkeKeypair × Key) (host : Text) (s2sPort : UInt16) :
    ∃ home' groups' db', loadOrInit crypto {} generated host s2sPort
        (some (identityFile crypto home.hpke home.sign)) db =
          (.ok (home', groups'), some (identityFile crypto home.hpke home.sign), db') ∧
      home.SameIdentity crypto home' host s2sPort ∧ home.SameDurable home' ∧
      groups.SameDurable groups' := by
  obtain ⟨home₁, groups₁, hload, hreloads, hsame, hclean, hsaved⟩ := loadKeys_eq_ok crypto h
  have hkeys : (some (identityFile crypto home.hpke home.sign)).mapM (loadIdentity crypto) =
      .ok (some (home.hpke, home.sign)) := by
    rw [Option.mapM_some, loadIdentity_identityFile]
    rfl
  unfold loadOrInit
  rw [hkeys]
  dsimp only
  rw [hload]
  dsimp only
  rw [bootLoaded, if_pos Option.isSome_some, rebindIfMoved]
  split_ifs with hmoved
  · have hstep := (hsaved.inStep hreloads.dirty hclean).rebind crypto host s2sPort
    rcases Node.persist_cases hstep false with ⟨db', heq, -⟩ | ⟨hfault, -⟩
    · rw [heq]
      exact ⟨_, _, _, rfl, .rebind crypto hreloads.hpke hreloads.sign host s2sPort {},
        hreloads.toSameDurable.rebind host s2sPort {}, hsame.groups, hsame.files⟩
    · cases hfault
  · exact ⟨home₁, groups₁, db, rfl, .of_unmoved hload hreloads.hpke hreloads.sign hmoved,
      hreloads.toSameDurable, hsame⟩

/-- After a boot that did not meet an identity file without a row, and after every admissible run
and successful `persist`, the next boot leaves the identity file alone and brings the keys of the
first boot and the durable fields back. -/
theorem loadOrInit_sameDurable (crypto : Crypto) {file : Option Bytes} {db : Database}
    (hstart : Startable crypto file db) (hrow : file.isSome → db.serverIdentity.isSome)
    (faults : BootFaults) (generated : HpkeKeypair × Key) (host : Text) (s2sPort : UInt16)
    {home : HomeServer} {groups : GroupHost} {file₁ : Option Bytes} {db₁ : Database}
    (hboot : loadOrInit crypto faults generated host s2sPort file db =
      (.ok (home, groups), file₁, db₁)) :
    db₁.serverIdentity.isSome ∧ ∀ (ops : List NodeOp) (fault : Bool) (node : Node),
      Allowed (NodeOp.apply crypto) NodeOp.Admissible ⟨home, groups, db₁⟩ ops →
      (run (NodeOp.apply crypto) ⟨home, groups, db₁⟩ ops).persist fault = (.ok (), node) →
      ∀ (generated' : HpkeKeypair × Key) (host' : Text) (s2sPort' : UInt16),
        ∃ home₂ groups₂ db₂,
          loadOrInit crypto {} generated' host' s2sPort' file₁ node.db =
            (.ok (home₂, groups₂), file₁, db₂) ∧
          home.SameIdentity crypto home₂ host' s2sPort' ∧
          node.home.SameDurable home₂ ∧ node.host.SameDurable groups₂ := by
  have hbooted := loadOrInit_booted hstart hrow hboot
  refine ⟨by rw [hbooted.homeStored.serverIdentity]; rfl, ?_⟩
  intro ops fault node hops hpersist generated' host' s2sPort'
  have hrun := Node.Recoverable.run hops hbooted.recoverable
  obtain ⟨hnode, hhome, -⟩ := Booted.of_persist crypto hrun.toInStep hpersist
  obtain ⟨hhpke, hsign⟩ := NodeOp.keys_run crypto ops ⟨home, groups, db₁⟩
  have hkeys : node.home.hpke = home.hpke ∧ node.home.sign = home.sign := by
    rw [hhome]
    exact ⟨hhpke, hsign⟩
  obtain ⟨home₂, groups₂, db₂, hload, hsame, hdurable, hgroups⟩ :=
    loadOrInit_saved crypto hnode.toSaved generated' host' s2sPort'
  rw [hkeys.1, hkeys.2, ← hbooted.identity] at hload
  refine ⟨home₂, groups₂, db₂, hload, ⟨?_, ?_, ?_⟩, hdurable, hgroups⟩
  · rw [hsame.hpke, hkeys.1]
  · rw [hsame.sign, hkeys.2]
  · rw [hsame.bundle, hkeys.1, hkeys.2]

/-- A first boot on an empty database, a registration, and a second boot that would generate other
keys and listens on another port. -/
theorem loadOrInit_sameDurable_from_nothing :
    let crypto := Crypto.transparent
    let key : Key := .replicate 32 7
    let other : Key := .replicate 32 8
    let host : Text := ⟨"local", by decide⟩
    ∃ home groups file₁ db₁ node,
      loadOrInit crypto {} (⟨key, key⟩, key) host 8443 none .empty =
        (.ok (home, groups), file₁, db₁) ∧
      (run (NodeOp.apply crypto) ⟨home, groups, db₁⟩ [.home (.register key key)]).persist false =
        (.ok (), node) ∧
      (node.home.mailboxes.lookup key).isSome ∧
      ∃ home₂ groups₂ db₂,
        loadOrInit crypto {} (⟨other, other⟩, other) host 9443 file₁ node.db =
          (.ok (home₂, groups₂), file₁, db₂) ∧
        home.SameIdentity crypto home₂ host 9443 ∧
        node.home.SameDurable home₂ ∧ node.host.SameDurable groups₂ := by
  intro crypto key other host
  obtain ⟨home, groups, file₁, db₁, hboot, hregister⟩ : ∃ home groups file₁ db₁,
      loadOrInit crypto {} (⟨key, key⟩, key) host 8443 none .empty =
        (.ok (home, groups), file₁, db₁) ∧
      ((run (NodeOp.apply crypto) ⟨home, groups, db₁⟩
        [.home (.register key key)]).home.mailboxes.lookup key).isSome := ⟨_, _, _, _, rfl, rfl⟩
  have hrow : (none : Option Bytes).isSome → Database.empty.serverIdentity.isSome := fun h ↦ by
    cases h
  have hops : Allowed (NodeOp.apply crypto) NodeOp.Admissible ⟨home, groups, db₁⟩
      [.home (.register key key)] := ⟨trivial, trivial⟩
  have hbooted := loadOrInit_booted .neither hrow hboot
  rcases Node.persist_cases (Node.Recoverable.run hops hbooted.recoverable).toInStep false with
    ⟨db, hpersist, -⟩ | ⟨hfault, -⟩
  · exact ⟨home, groups, file₁, db₁, _, hboot, hpersist, hregister,
      (loadOrInit_sameDurable crypto .neither hrow {} _ _ _ hboot).2 _ false _ hops hpersist _ _ _⟩
  · cases hfault

/-- An identity file without a row boots a server whose journal is empty, so nothing is written. -/
theorem loadOrInit_fileOnly (crypto : Crypto) (faults : BootFaults) (generated : HpkeKeypair × Key)
    (host : Text) (s2sPort : UInt16) (hpke : HpkeKeypair) (sign : Key) {db : Database}
    (hrow : db.serverIdentity = none) :
    loadOrInit crypto faults generated host s2sPort (some (identityFile crypto hpke sign)) db =
      (.ok (.fromIdentity crypto hpke sign host s2sPort, .new),
        some (identityFile crypto hpke sign), db) := by
  have hkeys : (some (identityFile crypto hpke sign)).mapM (loadIdentity crypto) =
      .ok (some (hpke, sign)) := by
    rw [Option.mapM_some, loadIdentity_identityFile]
    rfl
  unfold loadOrInit
  rw [hkeys]
  dsimp only
  rw [Database.loadKeys, hrow]
  rfl

/-- The first boot saves the identity file and fails on the database. The second one starts, a
mailbox is registered and `persist` succeeds, and the third one does not know the mailbox. -/
theorem loadOrInit_fileOnly_forgets :
    let crypto := Crypto.transparent
    let key : Key := .replicate 32 7
    let boot := loadOrInit crypto
    let host : Text := ⟨"local", by decide⟩
    let file := some (identityFile crypto ⟨key, key⟩ key)
    boot { persist := true } (⟨key, key⟩, key) host 8443 none .empty =
        (.error .sqlx, file, .empty) ∧
      Startable crypto file .empty ∧
      ∃ home groups db₁ node home₂ groups₂ db₂,
        boot {} (⟨key, key⟩, key) host 8443 file .empty = (.ok (home, groups), file, db₁) ∧
        db₁.serverIdentity = none ∧
        Allowed (NodeOp.apply crypto) NodeOp.Admissible ⟨home, groups, db₁⟩
          [.home (.register key key)] ∧
        (run (NodeOp.apply crypto) ⟨home, groups, db₁⟩ [.home (.register key key)]).persist false =
          (.ok (), node) ∧
        boot {} (⟨key, key⟩, key) host 8443 file node.db = (.ok (home₂, groups₂), file, db₂) ∧
        (node.home.mailboxes.lookup key).isSome ∧ home₂.mailboxes.lookup key = none ∧
        ¬ node.home.SameDurable home₂ := by
  intro crypto key boot host file
  refine ⟨rfl, .fileOnly _ _, _, _, _, _, _, _, _,
    loadOrInit_fileOnly crypto {} _ host 8443 ⟨key, key⟩ key rfl, rfl, ⟨trivial, trivial⟩, rfl,
    loadOrInit_fileOnly crypto {} _ host 8443 ⟨key, key⟩ key rfl, rfl, rfl, fun h ↦ ?_⟩
  have hmailbox := h.mailboxes key
  cases hmailbox

end Boot

end NemoMessenger.Server
