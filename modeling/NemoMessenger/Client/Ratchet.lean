import NemoMessenger.Client.Restore

/-!
# The ratchets in the vault

`SignalStore` is dumped as one map: the key pair and the registration id, and an array for each of
its tables. The records in them are libsignal's own, and survive because they are read back as they
were written.
-/

namespace NemoMessenger.Client.Storage

open NemoMessenger.Data NemoMessenger.Wire Wire.Cbor

/-! ## The objects of libsignal -/

/-- How a key is serialised, which cannot fail, and deserialised. -/
structure KeyForm (K : Type) where
  serialize : K → Bytes
  deserialize : Bytes → Option K

/-- What is serialised is deserialised. -/
def KeyForm.RoundTrips {K : Type} (form : KeyForm K) : Prop :=
  ∀ k, form.deserialize (form.serialize k) = some k

/-- The keys and records of libsignal. -/
structure Libsignal where
  KeyPair : Type
  IdentityKey : Type
  PublicKey : Type
  PreKey : Type
  SignedPreKey : Type
  KyberPreKey : Type
  Session : Type
  keyPair : KeyForm KeyPair
  identityKey : KeyForm IdentityKey
  publicKey : KeyForm PublicKey
  preKey : Record PreKey
  signedPreKey : Record SignedPreKey
  kyberPreKey : Record KyberPreKey
  session : Record Session

/-- Every key and every record survives. -/
structure Libsignal.RoundTrips (L : Libsignal) : Prop where
  keyPair : L.keyPair.RoundTrips
  identityKey : L.identityKey.RoundTrips
  publicKey : L.publicKey.RoundTrips
  preKey : L.preKey.RoundTrips
  signedPreKey : L.signedPreKey.RoundTrips
  kyberPreKey : L.kyberPreKey.RoundTrips
  session : L.session.RoundTrips

/-- `DeviceId`, which libsignal takes from 1 to 127. -/
structure DeviceId where
  value : UInt8
  valid : 1 ≤ value ∧ value ≤ 127
  deriving DecidableEq

/-- `DeviceId::new`. -/
def DeviceId.new (value : UInt8) : Option DeviceId :=
  if h : 1 ≤ value ∧ value ≤ 127 then some ⟨value, h⟩ else none

/-- `device_id`. -/
def deviceId : DeviceId := ⟨1, by decide⟩

/-- `ProtocolAddress`. -/
structure ProtocolAddress where
  name : String
  device : DeviceId
  deriving DecidableEq

/-! ## The store -/

/-- `KyberPreKeys`. A list of used base keys is made to hold one. -/
structure KyberPreKeys (L : Libsignal) where
  keys : FiniteMap UInt32 L.KyberPreKey
  used : FiniteMap (UInt32 × UInt32) (List L.PublicKey)
  used_ne_nil : ∀ id seen, used.lookup id = some seen → seen ≠ []

/-- `SignalStore`. -/
structure SignalStore (L : Libsignal) where
  keyPair : L.KeyPair
  registrationId : UInt32
  known : FiniteMap ProtocolAddress L.IdentityKey
  preKeys : FiniteMap UInt32 L.PreKey
  signedPreKeys : FiniteMap UInt32 L.SignedPreKey
  kyberPreKeys : KyberPreKeys L
  sessions : FiniteMap ProtocolAddress L.Session

/-- The stores are equal, table by table. -/
structure SignalStore.Same {L : Libsignal} (s t : SignalStore L) : Prop where
  keyPair : s.keyPair = t.keyPair
  registrationId : s.registrationId = t.registrationId
  known : ∀ addr, s.known.lookup addr = t.known.lookup addr
  preKeys : ∀ id, s.preKeys.lookup id = t.preKeys.lookup id
  signedPreKeys : ∀ id, s.signedPreKeys.lookup id = t.signedPreKeys.lookup id
  kyberPreKeys : ∀ id, s.kyberPreKeys.keys.lookup id = t.kyberPreKeys.keys.lookup id
  used : ∀ id, s.kyberPreKeys.used.lookup id = t.kyberPreKeys.used.lookup id
  sessions : ∀ addr, s.sessions.lookup addr = t.sessions.lookup addr

/-! ## Writing -/

/-- `rec.serialize()?`. -/
def serialize {R : Type} (record : Record R) (r : R) : Except CoreError Bytes :=
  match record.write r with
  | .error e => .error (.signal e)
  | .ok bytes => .ok bytes

/-- The order of `sort_addrs`. -/
def addrLe (a b : ProtocolAddress) : Bool :=
  if a.name = b.name then a.device.value ≤ b.device.value else textLe a.name b.name

/-- The order of ids. -/
def idLe (a b : UInt32) : Bool := a ≤ b

/-- The order of pairs of ids. -/
def idsLe (a b : UInt32 × UInt32) : Bool := if a.1 = b.1 then a.2 ≤ b.2 else a.1 ≤ b.1

/-- The row of a peer: `addr_entry`. -/
def addrEntry (addr : ProtocolAddress) (bytes : Bytes) : Value :=
  .array [.text addr.name, .uint addr.device.value.toUInt64, .bytes bytes]

/-- The row of a record under an id. -/
def idRow {R : Type} (record : Record R) (e : UInt32 × R) : Except CoreError Value := do
  let bytes ← serialize record e.2
  .ok (.array [.uint e.1.toUInt64, .bytes bytes])

/-- The row of a session. -/
def sessionRow {R : Type} (record : Record R) (e : ProtocolAddress × R) : Except CoreError Value := do
  let bytes ← serialize record e.2
  .ok (addrEntry e.1 bytes)

namespace SignalStore

variable {L : Libsignal}

/-- The row of a used base key. -/
def usedRow (e : (UInt32 × UInt32) × L.PublicKey) : Value :=
  .array [.uint e.1.1.toUInt64, .uint e.1.2.toUInt64, .bytes (L.publicKey.serialize e.2)]

/-- The entries of the map, with the tables that may fail to be written. -/
def pairs (store : SignalStore L) (preKeys signedPreKeys kyberPreKeys sessions : List Value) :
    List (UInt64 × Value) :=
  [(0, .bytes (L.keyPair.serialize store.keyPair)), (1, .uint store.registrationId.toUInt64),
    (2, .array ((store.known.entriesBy addrLe).map fun e ↦
      addrEntry e.1 (L.identityKey.serialize e.2))),
    (3, .array preKeys), (4, .array signedPreKeys), (5, .array kyberPreKeys),
    (6, .array ((store.kyberPreKeys.used.flatEntries idsLe).map usedRow)), (7, .array sessions)]

/-- `to_cbor`. -/
def toCbor (store : SignalStore L) : Except CoreError Value := do
  let preKeys ← (store.preKeys.entriesBy idLe).mapM (idRow L.preKey)
  let signedPreKeys ← (store.signedPreKeys.entriesBy idLe).mapM (idRow L.signedPreKey)
  let kyberPreKeys ← (store.kyberPreKeys.keys.entriesBy idLe).mapM (idRow L.kyberPreKey)
  let sessions ← (store.sessions.entriesBy addrLe).mapM (sessionRow L.session)
  .ok (.map (store.pairs preKeys signedPreKeys kyberPreKeys sessions))

/-- `SignalStore::encode`. -/
def encode (store : SignalStore L) : Except CoreError Bytes := do
  let value ← store.toCbor
  .ok (Cbor.encode value)

end SignalStore

/-! ## Reading -/

/-- `map_err(|_| CoreError::VaultCorrupt)`. -/
def orCorrupt {α : Type} : Option α → Except CoreError α
  | some a => .ok a
  | none => .error .vaultCorrupt

/-- `deserialize(bytes)`. -/
def deserialize {R : Type} (record : Record R) (bytes : Bytes) : Except CoreError R :=
  orCorrupt (record.read bytes).toOption

/-- `address`. -/
def address (name : String) (device : UInt64) : Except CoreError ProtocolAddress :=
  if 127 < device then .error .vaultCorrupt
  else if device = deviceId.value.toUInt64 then .ok { name, device := deviceId }
  else
    match DeviceId.new device.toUInt8 with
    | some device => .ok { name, device }
    | none => .error .vaultCorrupt

/-- `parse_addr_bytes`. -/
def parseAddrBytes : Value → Except CoreError (ProtocolAddress × Bytes)
  | .array [name, device, bytes] => do
    let name ← textOf name
    let device ← uintOf device
    let bytes ← bytesOf bytes
    let addr ← address name device
    .ok (addr, bytes)
  | _ => .error .vaultCorrupt

/-- `parse_id_bytes`. -/
def parseIdBytes : Value → Except CoreError (UInt32 × Bytes)
  | .array [id, bytes] => do
    let id ← uintOf id
    let bytes ← bytesOf bytes
    .ok (id.toUInt32, bytes)
  | _ => .error .vaultCorrupt

/-- What the loop over the known identities makes of an item. -/
def knownOf {K : Type} (form : KeyForm K) (item : Value) : Except CoreError (ProtocolAddress × K) := do
  let (addr, bytes) ← parseAddrBytes item
  let id ← orCorrupt (form.deserialize bytes)
  .ok (addr, id)

/-- What a loop over records under ids makes of an item. -/
def idOf32 {R : Type} (record : Record R) (item : Value) : Except CoreError (UInt32 × R) := do
  let (id, bytes) ← parseIdBytes item
  let r ← deserialize record bytes
  .ok (id, r)

/-- What the loop over the used base keys makes of an item. -/
def usedOf {K : Type} (form : KeyForm K) : Value → Except CoreError ((UInt32 × UInt32) × K)
  | .array [kid, sid, pk] => do
    let kid ← uintOf kid
    let sid ← uintOf sid
    let pk ← orCorrupt (form.deserialize (← bytesOf pk))
    .ok ((kid.toUInt32, sid.toUInt32), pk)
  | _ => .error .vaultCorrupt

/-- What the loop over the sessions makes of an item. -/
def sessionOf {R : Type} (record : Record R) : Value → Except CoreError (ProtocolAddress × R)
  | .array [name, device, bytes] => do
    let name ← textOf name
    let device ← uintOf device
    let r ← deserialize record (← bytesOf bytes)
    let addr ← address name device
    .ok (addr, r)
  | _ => .error .vaultCorrupt

namespace SignalStore

variable {L : Libsignal}

/-- `from_map`. -/
def fromMap (m : List (UInt64 × Value)) : Except CoreError (SignalStore L) := do
  let keyPair ← orCorrupt (L.keyPair.deserialize (← field bytesOf m 0))
  let registrationId ← field uintOf m 1
  let known ← (← field itemsOf m 2).mapM (knownOf L.identityKey)
  let preKeys ← (← field itemsOf m 3).mapM (idOf32 L.preKey)
  let signedPreKeys ← (← field itemsOf m 4).mapM (idOf32 L.signedPreKey)
  let kyberPreKeys ← (← field itemsOf m 5).mapM (idOf32 L.kyberPreKey)
  let used ← (← field itemsOf m 6).mapM (usedOf L.publicKey)
  let sessions ← (← field itemsOf m 7).mapM (sessionOf L.session)
  .ok
    { keyPair, registrationId := registrationId.toUInt32, known := .ofEntries known
      preKeys := .ofEntries preKeys, signedPreKeys := .ofEntries signedPreKeys
      kyberPreKeys :=
        { keys := .ofEntries kyberPreKeys, used := .collect used
          used_ne_nil := fun _ _ ↦ FiniteMap.ne_nil_of_lookup_collect }
      sessions := .ofEntries sessions }

/-- `SignalStore::decode`. -/
def decode (bytes : Bytes) : Except CoreError (SignalStore L) := do
  let m ← mapOf bytes
  fromMap m

end SignalStore

/-! ## Round trip -/

section Rows

/-- A device that was written is one that is read. -/
theorem new_toUInt8 (device : DeviceId) : ¬ 127 < device.value.toUInt64 ∧
    DeviceId.new device.value.toUInt64.toUInt8 = some device := by
  obtain ⟨value, hvalid⟩ := device
  constructor
  · have hall : ∀ k < 256, UInt8.ofNat k ≤ 127 → ¬ 127 < (UInt8.ofNat k).toUInt64 := by
      decide +kernel
    have hvalue := hall value.toNat value.toNat_lt
    rw [UInt8.ofNat_toNat] at hvalue
    exact hvalue hvalid.2
  · rw [UInt8.toUInt8_toUInt64, DeviceId.new, dif_pos hvalid]

theorem address_device (addr : ProtocolAddress) :
    address addr.name addr.device.value.toUInt64 = .ok addr := by
  obtain ⟨hsmall, hnew⟩ := new_toUInt8 addr.device
  rw [address, if_neg hsmall]
  split_ifs with hone
  · rw [hone] at hnew
    have hdevice : deviceId = addr.device := Option.some.inj hnew
    rw [hdevice]
  · rw [hnew]

variable {R K : Type} {record : Record R} {form : KeyForm K}

theorem serialize_eq_ok {r : R} {bytes : Bytes} (h : serialize record r = .ok bytes) :
    record.write r = .ok bytes := by
  unfold serialize at h
  split at h
  · cases h
  next hwrite => rw [hwrite, Except.ok.inj h]

theorem deserialize_of_serialize (hrecord : record.RoundTrips) {r : R} {bytes : Bytes}
    (h : serialize record r = .ok bytes) : deserialize record bytes = .ok r := by
  rw [deserialize, hrecord.read (serialize_eq_ok h)]
  rfl

theorem exists_serialize (hrecord : record.RoundTrips) (r : R) :
    ∃ bytes, serialize record r = .ok bytes := by
  obtain ⟨bytes, hwrite, -⟩ := hrecord r
  exact ⟨bytes, by rw [serialize, hwrite]⟩

theorem knownOf_addrEntry (hform : form.RoundTrips) (e : ProtocolAddress × K) :
    knownOf form (addrEntry e.1 (form.serialize e.2)) = .ok e := by
  simp only [knownOf, parseAddrBytes, addrEntry, textOf_text, uintOf_uint, bytesOf_bytes,
    address_device, hform e.2, orCorrupt, bind, Except.bind]

theorem usedOf_usedRow {L : Libsignal} (hform : L.publicKey.RoundTrips)
    (e : (UInt32 × UInt32) × L.PublicKey) :
    usedOf L.publicKey (SignalStore.usedRow e) = .ok e := by
  simp only [usedOf, SignalStore.usedRow, uintOf_uint, bytesOf_bytes, UInt32.toUInt32_toUInt64,
    hform e.2, orCorrupt, bind, Except.bind]

/-- A table whose rows can be written can be read. -/
theorem exists_rows {α : Type} {write : α → Except CoreError Value}
    {read : Value → Except CoreError α}
    (h : ∀ e, ∃ item, write e = .ok item ∧ item.Ordered ∧ read item = .ok e) (entries : List α) :
    ∃ items, entries.mapM write = .ok items ∧ itemsOrdered items ∧
      items.mapM read = .ok entries := by
  obtain ⟨items, hitems, -⟩ :=
    FiniteMap.exists_mapM_eq_ok fun e (_ : e ∈ entries) ↦ (h e).imp fun _ hitem ↦ hitem.1
  have hundo (e : α) (item : Value) (he : write e = .ok item) (_ : True) : read item = .ok e := by
    obtain ⟨_, hwrite, -, hread⟩ := h e
    rw [Except.ok.inj (he.symm.trans hwrite)]
    exact hread
  refine ⟨items, hitems, itemsOrdered_iff.mpr fun item hitem ↦ ?_,
    FiniteMap.mapM_of_mapM hundo hitems fun _ _ ↦ trivial⟩
  obtain ⟨e, -, he⟩ := FiniteMap.exists_of_mem_mapM hitems hitem
  obtain ⟨_, hwrite, hordered, -⟩ := h e
  rw [Except.ok.inj (he.symm.trans hwrite)]
  exact hordered

theorem exists_idRow (hrecord : record.RoundTrips) (e : UInt32 × R) :
    ∃ item, idRow record e = .ok item ∧ item.Ordered ∧ idOf32 record item = .ok e := by
  obtain ⟨bytes, hbytes⟩ := exists_serialize hrecord e.2
  refine ⟨_, bind_eq_ok.mpr ⟨bytes, hbytes, rfl⟩, by simp [Value.Ordered, itemsOrdered], ?_⟩
  simp only [idOf32, parseIdBytes, uintOf_uint, bytesOf_bytes, UInt32.toUInt32_toUInt64,
    deserialize_of_serialize hrecord hbytes, bind, Except.bind]

theorem exists_sessionRow (hrecord : record.RoundTrips) (e : ProtocolAddress × R) :
    ∃ item, sessionRow record e = .ok item ∧ item.Ordered ∧ sessionOf record item = .ok e := by
  obtain ⟨bytes, hbytes⟩ := exists_serialize hrecord e.2
  refine ⟨_, bind_eq_ok.mpr ⟨bytes, hbytes, rfl⟩,
    by simp [addrEntry, Value.Ordered, itemsOrdered], ?_⟩
  simp only [sessionOf, addrEntry, textOf_text, uintOf_uint, bytesOf_bytes, address_device,
    deserialize_of_serialize hrecord hbytes, bind, Except.bind]

end Rows

namespace SignalStore

variable {L : Libsignal} {store : SignalStore L}

/-- The store once it was written and read. -/
def reloaded (store : SignalStore L) : SignalStore L where
  keyPair := store.keyPair
  registrationId := store.registrationId
  known := .ofEntries (store.known.entriesBy addrLe)
  preKeys := .ofEntries (store.preKeys.entriesBy idLe)
  signedPreKeys := .ofEntries (store.signedPreKeys.entriesBy idLe)
  kyberPreKeys :=
    { keys := .ofEntries (store.kyberPreKeys.keys.entriesBy idLe)
      used := .collect (store.kyberPreKeys.used.flatEntries idsLe)
      used_ne_nil := fun _ _ ↦ FiniteMap.ne_nil_of_lookup_collect }
  sessions := .ofEntries (store.sessions.entriesBy addrLe)

theorem same_reloaded (store : SignalStore L) : store.reloaded.Same store where
  keyPair := rfl
  registrationId := rfl
  known := FiniteMap.lookup_ofEntries addrLe _
  preKeys := FiniteMap.lookup_ofEntries idLe _
  signedPreKeys := FiniteMap.lookup_ofEntries idLe _
  kyberPreKeys := FiniteMap.lookup_ofEntries idLe _
  used := FiniteMap.lookup_collect_flatEntries store.kyberPreKeys.used_ne_nil
  sessions := FiniteMap.lookup_ofEntries addrLe _

/-- A store is written, and what is written of it is read back. -/
theorem exists_encode (hL : L.RoundTrips) (store : SignalStore L) :
    ∃ bytes, store.encode = .ok bytes ∧
      (Fits bytes → ∃ store', decode bytes = .ok store' ∧ store'.Same store) := by
  obtain ⟨preKeys, hpre, hpreOrdered, hpreRead⟩ :=
    exists_rows (exists_idRow hL.preKey) (store.preKeys.entriesBy idLe)
  obtain ⟨signed, hsigned, hsignedOrdered, hsignedRead⟩ :=
    exists_rows (exists_idRow hL.signedPreKey) (store.signedPreKeys.entriesBy idLe)
  obtain ⟨kyber, hkyber, hkyberOrdered, hkyberRead⟩ :=
    exists_rows (exists_idRow hL.kyberPreKey) (store.kyberPreKeys.keys.entriesBy idLe)
  obtain ⟨sessions, hsessions, hsessionsOrdered, hsessionsRead⟩ :=
    exists_rows (exists_sessionRow hL.session) (store.sessions.entriesBy addrLe)
  set m := store.pairs preKeys signed kyber sessions with hm
  have hcbor : store.toCbor = .ok (.map m) := by
    simp only [toCbor, hpre, hsigned, hkyber, hsessions, bind, Except.bind, hm]
  refine ⟨Cbor.encode (.map m), by rw [encode, hcbor]; rfl, fun hfits ↦ ?_⟩
  have hknownOrdered : itemsOrdered ((store.known.entriesBy addrLe).map fun e ↦
      addrEntry e.1 (L.identityKey.serialize e.2)) := by
    rw [itemsOrdered_iff, List.forall_mem_map]
    intro e _
    simp [addrEntry, Value.Ordered, itemsOrdered]
  have husedOrdered :
      itemsOrdered ((store.kyberPreKeys.used.flatEntries idsLe).map usedRow) := by
    rw [itemsOrdered_iff, List.forall_mem_map]
    intro e _
    simp [usedRow, Value.Ordered, itemsOrdered]
  have hordered : (Value.map m).Ordered := by
    simp [hm, pairs, Value.Ordered, pairsOrdered, hknownOrdered, husedOrdered, hpreOrdered,
      hsignedOrdered, hkyberOrdered, hsessionsOrdered]
  have hkeyPair : field bytesOf m 0 = .ok (L.keyPair.serialize store.keyPair) :=
    (field_eq rfl).trans rfl
  have hregistration : field uintOf m 1 = .ok store.registrationId.toUInt64 :=
    (field_eq rfl).trans rfl
  have hknown : field itemsOf m 2 = .ok ((store.known.entriesBy addrLe).map fun e ↦
      addrEntry e.1 (L.identityKey.serialize e.2)) := (field_eq rfl).trans rfl
  have hknownRead : ((store.known.entriesBy addrLe).map fun e ↦
      addrEntry e.1 (L.identityKey.serialize e.2)).mapM (knownOf L.identityKey) =
        .ok ((store.known.entriesBy addrLe).map id) :=
    mapM_map_eq_ok fun e _ ↦ knownOf_addrEntry hL.identityKey e
  have hpreItems : field itemsOf m 3 = .ok preKeys := (field_eq rfl).trans rfl
  have hsignedItems : field itemsOf m 4 = .ok signed := (field_eq rfl).trans rfl
  have hkyberItems : field itemsOf m 5 = .ok kyber := (field_eq rfl).trans rfl
  have hused : field itemsOf m 6 = .ok ((store.kyberPreKeys.used.flatEntries idsLe).map usedRow) :=
    (field_eq rfl).trans rfl
  have husedRead : ((store.kyberPreKeys.used.flatEntries idsLe).map usedRow).mapM
      (usedOf L.publicKey) = .ok ((store.kyberPreKeys.used.flatEntries idsLe).map id) :=
    mapM_map_eq_ok fun e _ ↦ usedOf_usedRow hL.publicKey e
  have hsessionItems : field itemsOf m 7 = .ok sessions := (field_eq rfl).trans rfl
  rw [List.map_id] at hknownRead husedRead
  refine ⟨store.reloaded, ?_, store.same_reloaded⟩
  simp only [decode, mapOf_encode hordered hfits, fromMap, hkeyPair, hL.keyPair store.keyPair,
    orCorrupt, hregistration, hknown, hknownRead, hpreItems, hpreRead, hsignedItems,
    hsignedRead, hkyberItems, hkyberRead, hused, husedRead, hsessionItems, hsessionsRead,
    UInt32.toUInt32_toUInt64, reloaded, bind, Except.bind]

end SignalStore

/-! ## Loading what was saved -/

/-- Whatever the vault saves it loads again, and what a writer left that lacked some of the later
keys is loaded with their defaults and is otherwise unchanged. -/
theorem load_saved {S : Type} {signer : Record S} (hsigner : signer.RoundTrips) {L : Libsignal}
    (hL : L.RoundTrips) (kv : Table) :
    (∀ s : HomeState, s.Pinned →
      (Fits s.encode → ∃ s', HomeState.load (s.save kv) = .ok (some s') ∧ s'.Same s) ∧
      ∀ lacking : HomeLacking, Fits (lacking.encode s) →
        ∃ s', HomeState.decode (lacking.encode s) = .ok s' ∧ s'.Same (lacking.ofState s)) ∧
    (∀ s : SavedInbox,
      (Fits (Cbor.encode (.map (s.pairs (s.rows.map InboxRow.encode)))) →
        ∃ s', SavedInbox.load (s.save kv) = .ok s' ∧ s'.Same s) ∧
      ∀ lacking : InboxLacking, Fits (lacking.encode s) →
        ∃ s', SavedInbox.decode (lacking.encode s) = .ok s' ∧ s'.Same (lacking.ofInbox s)) ∧
    (∀ d : Display,
      (Fits (Cbor.encode (.map d.pairs)) →
        ∃ d', Display.load (d.save kv) = .ok d' ∧ d'.Same d) ∧
      ∀ lacking : Lacking [3], Fits (Cbor.encode (.map (without lacking d.pairs))) →
        ∃ d', Display.decode (Cbor.encode (.map (without lacking d.pairs))) = .ok d' ∧
          d'.Same (d.ofLacking lacking)) ∧
    (∀ host : HostAccept, HostAccept.decode host.encode = .ok host) ∧
    (∀ entries : List (Key × PendingJoin S × HostAccept),
      ∃ bytes, pendingBytes signer entries = .ok bytes ∧
        (Fits bytes → loadPending signer (kv.insert "pending_joins" bytes) = .ok entries)) ∧
    (∀ invites : List GroupInvite, Fits (invitesBytes invites) →
      loadInvites (saveInvites kv invites) = .ok invites) ∧
    ∀ store : SignalStore L, ∃ bytes, store.encode = .ok bytes ∧
      (Fits bytes → ∃ store', SignalStore.decode bytes = .ok store' ∧ store'.Same store) := by
  refine ⟨fun s hpinned ↦ ⟨HomeState.load_save kv hpinned, fun lacking hfits ↦
    HomeLacking.decode_encode hpinned hfits⟩, fun s ↦ ⟨SavedInbox.load_save kv,
    fun lacking hfits ↦ InboxLacking.decode_encode hfits⟩, fun d ↦ ⟨Display.load_save kv,
    fun lacking hfits ↦ Display.decode_encode hfits⟩, HostAccept.decode_encode, fun entries ↦ ?_,
    fun invites ↦ loadInvites_saveInvites kv, SignalStore.exists_encode hL⟩
  obtain ⟨bytes, hbytes⟩ := exists_pendingBytes hsigner entries
  exact ⟨bytes, hbytes, loadPending_insert hsigner kv hbytes⟩

/-- Records that are their own bytes. -/
def plainRecord : Record Bytes where
  write := .ok
  read := .ok

/-- Keys that are their own bytes. -/
def plainKey : KeyForm Bytes where
  serialize := id
  deserialize := some

/-- A libsignal of such keys and records. -/
def plainLibsignal : Libsignal where
  KeyPair := Bytes
  IdentityKey := Bytes
  PublicKey := Bytes
  PreKey := Bytes
  SignedPreKey := Bytes
  KyberPreKey := Bytes
  Session := Bytes
  keyPair := plainKey
  identityKey := plainKey
  publicKey := plainKey
  preKey := plainRecord
  signedPreKey := plainRecord
  kyberPreKey := plainRecord
  session := plainRecord

/-- A home with one contact on another server and one group. -/
def sampleHome : HomeState where
  bundle :=
    { serverId := .replicate 32 1, serverHpkePublicKey := .replicate 32 2
      serverSignPublicKey := .replicate 32 3, host := ⟨"home.example", by decide⟩, s2sPort := 7443
      signature := .replicate 64 4 }
  cursor := 9
  contacts := AList.insert (.replicate 32 5)
    { pin :=
        { identityId := .replicate 32 5, identityPublicKey := .replicate 32 6
          revocationPublicKey := .replicate 32 7, seq := 2 }
      deliveryCapability := .replicate 32 8, destHpke := .replicate 32 9
      lastDiscoveryUnix := 1700000000, revoked := true, homeOrigin := "https://peer.example" } ∅
  groups :=
    [{ groupId := .replicate 32 10
       cred := { credentialId := .replicate 32 11, credentialSecret := .replicate 32 12 }
       hostBase := "https://host.example" }]
  homeBase := "https://home.example"
  privacy := .maximum

/-- A store with a session and a used base key. -/
def sampleStore : SignalStore plainLibsignal where
  keyPair := [1, 2]
  registrationId := 7
  known := AList.insert ⟨"peer", ⟨127, by decide⟩⟩ [3] ∅
  preKeys := AList.insert 1 [4] ∅
  signedPreKeys := AList.insert 2 [5] ∅
  kyberPreKeys :=
    { keys := AList.insert 3 [6] ∅
      used := AList.insert (3, 2) [[7], [8]] ∅
      used_ne_nil := fun id seen h ↦ by
        rw [FiniteMap.lookup_insert_ite] at h
        split_ifs at h
        · rw [← Option.some.inj h]
          exact List.cons_ne_nil _ _
        · rw [AList.lookup_empty] at h
          cases h }
  sessions := AList.insert ⟨"peer", deviceId⟩ [9] ∅

/-- The home is loaded, also from a writer that knew no origins, and so is the store. -/
theorem load_saved_sample :
    (∃ s', HomeState.load (sampleHome.save ∅) = .ok (some s') ∧ s'.Same sampleHome) ∧
    (let older : HomeLacking :=
        { state := ⟨[5, 6], List.Subset.refl _⟩, contact := ⟨[8], List.Subset.refl _⟩
          hostBase := true }
      ∃ s', HomeState.decode (older.encode sampleHome) = .ok s' ∧
        s'.Same (older.ofState sampleHome)) ∧
    ∃ bytes store', sampleStore.encode = .ok bytes ∧ SignalStore.decode bytes = .ok store' ∧
      store'.Same sampleStore := by
  have hkey : plainKey.RoundTrips := fun _ ↦ rfl
  have hrecord : plainRecord.RoundTrips := fun bytes ↦ ⟨bytes, rfl, rfl⟩
  have hall := load_saved hrecord
    { keyPair := hkey, identityKey := hkey, publicKey := hkey, preKey := hrecord
      signedPreKey := hrecord, kyberPreKey := hrecord, session := hrecord
      : plainLibsignal.RoundTrips } ∅
  have hpinned : sampleHome.Pinned := by
    intro id c h
    rw [sampleHome, FiniteMap.lookup_insert_ite] at h
    split_ifs at h with hid
    · rw [← Option.some.inj h, hid]
    · rw [AList.lookup_empty] at h
      cases h
  obtain ⟨hsaved, holder⟩ := hall.1 sampleHome hpinned
  refine ⟨hsaved (by decide +kernel), holder _ (by decide +kernel), ?_⟩
  obtain ⟨bytes, hbytes, hread⟩ := hall.2.2.2.2.2.2 sampleStore
  have hsmall : sampleStore.encode.toOption.all (fun bytes ↦ bytes.length < 2 ^ 64) = true := by
    decide +kernel
  rw [hbytes] at hsmall
  obtain ⟨store', hstore⟩ := hread (of_decide_eq_true hsmall)
  exact ⟨bytes, store', hbytes, hstore⟩

end NemoMessenger.Client.Storage
