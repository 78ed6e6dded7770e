import NemoMessenger.Client.Message
import NemoMessenger.Data.Entries
import NemoMessenger.Wire.Fields

/-!
# What the vault keeps

The vault is a table of byte strings, and each is one CBOR value. Maps are written as arrays in the
order of their keys. A vault may come from a writer that did not know the keys added later, and what
it left is read with defaults in their place.
-/

namespace NemoMessenger.Client.Storage

open NemoMessenger.Data NemoMessenger.Wire Wire.Cbor

/-! ## Reading -/

section Reading

variable {α : Type}

/-- `map_err(|_| CoreError::VaultCorrupt)`. -/
def corrupt : Except WireError α → Except CoreError α
  | .ok a => .ok a
  | .error _ => .error .vaultCorrupt

/-- `expect_uint`. -/
def uintOf (v : Value) : Except CoreError UInt64 := corrupt (expectUint v)

/-- `expect_text`. -/
def textOf (v : Value) : Except CoreError String := corrupt (expectText v)

/-- `expect_bytes`. -/
def bytesOf (v : Value) : Except CoreError Bytes := corrupt (expectBytes v)

/-- `expect_array`. -/
def itemsOf : Value → Except CoreError (List Value)
  | .array items => .ok items
  | _ => .error .vaultCorrupt

/-- `copy_fixed(expect_bytes(v)?)?`, where the length is an error of the wire. -/
def fixedOf (n : ℕ) (v : Value) : Except CoreError (FixedBytes n) := do
  liftWire (copyFixed n (← bytesOf v))

/-- `expect_uint(v)? != 0`. -/
def flagOf (v : Value) : Except CoreError Bool := do
  let n ← uintOf v
  .ok (n != 0)

/-- A byte string that is a map. -/
def mapOf (bytes : Bytes) : Except CoreError (List (UInt64 × Value)) :=
  match Cbor.decode bytes with
  | .ok (.map m) => .ok m
  | _ => .error .vaultCorrupt

/-- A byte string that is an array. -/
def arrayOf (bytes : Bytes) : Except CoreError (List Value) :=
  match Cbor.decode bytes with
  | .ok (.array items) => .ok items
  | _ => .error .vaultCorrupt

variable (read : Value → Except CoreError α) (m : List (UInt64 × Value)) (key : UInt64)

/-- What is under a key that has to be there. -/
def field : Except CoreError α := do
  read (← corrupt (mapGet m key))

/-- What is under a key, or the default. -/
def fieldOr (default : α) : Except CoreError α :=
  match mapGetOpt m key with
  | some v => read v
  | none => .ok default

/-- `version != 1`. -/
def checkVersion : Except CoreError Unit := do
  let version ← field uintOf m 0
  if version ≠ 1 then .error .vaultCorrupt else .ok ()

/-- A row of a key and a value. -/
def pairOf {κ : Type} (readKey : Value → Except CoreError κ) : Value → Except CoreError (κ × α)
  | .array [k, v] => do
    let k ← readKey k
    let v ← read v
    .ok (k, v)
  | _ => .error .vaultCorrupt

/-- The loop over rows with texts as keys. -/
def pairsOf (v : Value) : Except CoreError (FiniteMap String α) := do
  let entries ← (← itemsOf v).mapM (pairOf read textOf)
  .ok (FiniteMap.ofEntries entries)

end Reading

/-! ## Writing -/

/-- A flag. -/
def flag (b : Bool) : Value := .uint (if b then 1 else 0)

/-- The order of texts. -/
def textLe (s t : String) : Bool := decide (s ≤ t)

/-- The order of byte strings. -/
def bytesLe (a b : Bytes) : Bool := decide (a ≤ b)

/-- The rows of a map with texts as keys. -/
def rowsOf {α : Type} (write : α → Value) (m : FiniteMap String α) : Value :=
  .array ((m.entriesBy textLe).map fun e ↦ .array [.text e.1, write e.2])

/-- The map once it was written and read. -/
def reread {α : Type} (m : FiniteMap String α) : FiniteMap String α :=
  .ofEntries (m.entriesBy textLe)

/-- What a `Vec` can hold. -/
def Fits (bytes : Bytes) : Prop := bytes.length < 2 ^ 64

instance : DecidablePred Fits := fun bytes ↦ inferInstanceAs (Decidable (bytes.length < 2 ^ 64))

section

variable {α : Type} {read : Value → Except CoreError α} {m : List (UInt64 × Value)} {key : UInt64}
  {v : Value} {later : List UInt64} {lacking : Lacking later}

@[simp] theorem uintOf_uint (n : UInt64) : uintOf (.uint n) = .ok n := rfl

@[simp] theorem textOf_text (s : String) : textOf (.text s) = .ok s := rfl

@[simp] theorem bytesOf_bytes (b : Bytes) : bytesOf (.bytes b) = .ok b := rfl

@[simp] theorem itemsOf_array (items : List Value) : itemsOf (.array items) = .ok items := rfl

@[simp] theorem fixedOf_bytes {n : ℕ} (a : FixedBytes n) : fixedOf n (.bytes a.data) = .ok a := by
  rw [fixedOf, bytesOf_bytes]
  change liftWire (copyFixed n a.data) = .ok a
  rw [copyFixed_data]
  rfl

@[simp] theorem flagOf_flag (b : Bool) : flagOf (flag b) = .ok b := by
  cases b <;> rfl

theorem mapOf_encode (hordered : (Value.map m).Ordered) (hfits : Fits (encode (.map m))) :
    mapOf (encode (.map m)) = .ok m := by
  rw [mapOf, decode_encode_of_ordered hordered hfits]

theorem arrayOf_encode {items : List Value} (hordered : (Value.array items).Ordered)
    (hfits : Fits (encode (.array items))) : arrayOf (encode (.array items)) = .ok items := by
  rw [arrayOf, decode_encode_of_ordered hordered hfits]

theorem field_eq (h : mapGetOpt m key = some v) : field read m key = read v := by
  rw [field, mapGet, h]
  rfl

/-- A key every writer knows. -/
theorem field_without (hkey : key ∉ later) (h : mapGetOpt m key = some v) :
    field read (without lacking m) key = read v :=
  field_eq (by rw [mapGetOpt_without_of_notMem hkey, h])

/-- A key that came later. -/
theorem fieldOr_without {a : α} (default : α) (h : mapGetOpt m key = some v)
    (hread : read v = .ok a) : fieldOr read (without lacking m) key default =
      .ok (if key ∈ lacking.keys then default else a) := by
  rw [fieldOr, mapGetOpt_without]
  by_cases hkey : key ∈ lacking.keys
  · rw [if_pos hkey, if_pos hkey]
  · rw [if_neg hkey, if_neg hkey, h]
    exact hread

theorem checkVersion_eq (h : field uintOf m 0 = .ok 1) : checkVersion m = .ok () := by
  rw [checkVersion, h]
  rfl

/-- Items that are read back one by one. -/
theorem mapM_map_eq_ok {β γ : Type} {write : β → Value} {read : Value → Except CoreError γ}
    {g : β → γ} {items : List β} (h : ∀ item ∈ items, read (write item) = .ok (g item)) :
    (items.map write).mapM read = .ok (items.map g) := by
  rw [List.mapM_map]
  exact FiniteMap.mapM_eq_ok h

/-- The rows of a map are read back. -/
theorem pairsOf_rowsOf {write : α → Value} (h : ∀ a, read (write a) = .ok a)
    (m : FiniteMap String α) :
    pairsOf read (rowsOf write m) = .ok (reread m) := by
  have hrow (e : String × α) : pairOf read textOf (.array [.text e.1, write e.2]) = .ok (id e) := by
    rw [pairOf, textOf_text, h]
    rfl
  have hrows := mapM_map_eq_ok fun (e : String × α) (_ : e ∈ m.entriesBy textLe) ↦ hrow e
  rw [List.map_id] at hrows
  rw [pairsOf, rowsOf, itemsOf_array]
  exact bind_eq_ok.mpr ⟨_, rfl, bind_eq_ok.mpr ⟨_, hrows, rfl⟩⟩

theorem lookup_reread (m : FiniteMap String α) (k : String) : (reread m).lookup k = m.lookup k :=
  FiniteMap.lookup_ofEntries textLe m k

/-- A map that may be missing. -/
theorem lookup_ite_reread (p : Prop) [Decidable p] (m : FiniteMap String α) (k : String) :
    (if p then ∅ else reread m).lookup k = (if p then ∅ else m : FiniteMap String α).lookup k := by
  split_ifs
  · rfl
  · exact lookup_reread m k

/-- Rows hold no maps that are out of order. -/
theorem ordered_rowsOf {write : α → Value} (h : ∀ a, (write a).Ordered) (m : FiniteMap String α) :
    (rowsOf write m).Ordered := by
  rw [rowsOf, Value.Ordered, itemsOrdered_iff, List.forall_mem_map]
  intro e _
  simp [Value.Ordered, itemsOrdered, h]

theorem ordered_texts (m : FiniteMap String String) : (rowsOf .text m).Ordered :=
  ordered_rowsOf (fun s ↦ by simp [Value.Ordered]) m

theorem ordered_uints (m : FiniteMap String UInt64) : (rowsOf .uint m).Ordered :=
  ordered_rowsOf (fun n ↦ by simp [Value.Ordered]) m

end

end NemoMessenger.Client.Storage

namespace NemoMessenger.Client

open NemoMessenger.Data NemoMessenger.Wire Wire.Cbor Storage

/-! ## Accepted joins -/

namespace HostAccept

/-- The entries of the map. -/
def pairs (host : HostAccept) : List (UInt64 × Value) :=
  [(0, .bytes host.pendingId.data), (1, .bytes host.cred.credentialId.data),
    (2, .bytes host.cred.credentialSecret.data)] ++
  (host.inviteeBinding.map fun b ↦ (3, Value.bytes b.data)).toList ++
  (host.salt.map fun s ↦ (4, Value.bytes s.data)).toList

/-- `HostAccept::encode`. -/
def encode (host : HostAccept) : Bytes := Cbor.encode (.map host.pairs)

/-- `HostAccept::decode`. -/
def decode (bytes : Bytes) : Except CoreError HostAccept := do
  let m ← mapOf bytes
  let pendingId ← field (fixedOf 32) m 0
  let credentialId ← field (fixedOf 32) m 1
  let credentialSecret ← field (fixedOf 32) m 2
  let inviteeBinding ← fieldOr (fun v ↦ (fixedOf 32 v).map some) m 3 none
  let salt ← fieldOr (fun v ↦ (fixedOf 32 v).map some) m 4 none
  .ok { pendingId, cred := { credentialId, credentialSecret }, inviteeBinding, salt }

theorem decode_encode (host : HostAccept) : decode host.encode = .ok host := by
  obtain ⟨pendingId, ⟨credentialId, credentialSecret⟩, inviteeBinding, salt⟩ := host
  -- which of the keys 3 and 4 there are depends on the two optional fields
  cases inviteeBinding <;> cases salt
  all_goals
    rw [decode, encode, mapOf, Cbor.decode_encode]
    · simp [pairs, field, fieldOr, mapGet, mapGetOpt, corrupt, Except.map, bind, Except.bind]
    · simp [pairs, Value.Wf, pairsWf]

end HostAccept

/-! ## The home server -/

/-- `privacy_to_u64`. -/
def privacyToU64 : PrivacyMode → UInt64
  | .normal => 0
  | .private_ => 1
  | .high => 2
  | .maximum => 3

/-- `privacy_from_u64`. -/
def privacyFromU64 (v : UInt64) : Except CoreError PrivacyMode :=
  if v = 0 then .ok .normal
  else if v = 1 then .ok .private_
  else if v = 2 then .ok .high
  else if v = 3 then .ok .maximum
  else .error .vaultCorrupt

/-- The mode of a session. -/
def privacyOf (v : Value) : Except CoreError PrivacyMode := do
  privacyFromU64 (← uintOf v)

theorem privacyOf_privacyToU64 (mode : PrivacyMode) :
    privacyOf (.uint (privacyToU64 mode)) = .ok mode := by
  cases mode <;> rfl

/-- A contact under its id. -/
def StoredContact.pairs (id : IdentityId) (c : StoredContact) : List (UInt64 × Value) :=
  [(0, .bytes id.data), (1, .bytes c.pin.identityPublicKey.data),
    (2, .bytes c.pin.revocationPublicKey.data), (3, .uint c.pin.seq),
    (4, .bytes c.deliveryCapability.data), (5, .bytes c.destHpke.data),
    (6, .uint c.lastDiscoveryUnix), (7, flag c.revoked), (8, .text c.homeOrigin)]

/-- What the loop over the contacts makes of an item. -/
def contactOf : Value → Except CoreError (IdentityId × StoredContact)
  | .map cm => do
    let id ← field (fixedOf 32) cm 0
    let identityPublicKey ← field (fixedOf 32) cm 1
    let revocationPublicKey ← field (fixedOf 32) cm 2
    let seq ← field uintOf cm 3
    let deliveryCapability ← field (fixedOf 32) cm 4
    let destHpke ← field (fixedOf 32) cm 5
    let lastDiscoveryUnix ← field uintOf cm 6
    let revoked ← field flagOf cm 7
    let homeOrigin ← fieldOr textOf cm 8 ""
    .ok (id, { pin := { identityId := id, identityPublicKey, revocationPublicKey, seq },
               deliveryCapability, destHpke, lastDiscoveryUnix, revoked, homeOrigin })
  | _ => .error .vaultCorrupt

/-- A group at its host. -/
def HostGroup.row (g : HostGroup) : List Value :=
  [.bytes g.groupId.data, .bytes g.cred.credentialId.data, .bytes g.cred.credentialSecret.data,
    .text g.hostBase]

/-- The ids of a group, whose errors are those of the wire. -/
def idOf (v : Value) : Except CoreError Key := liftWire (expectBytes v >>= copyFixed 32)

/-- What the loop over the groups makes of an item. -/
def groupOf : Value → Except CoreError HostGroup
  | .array [groupId, credentialId, credentialSecret] => do
    let groupId ← idOf groupId
    let credentialId ← idOf credentialId
    let credentialSecret ← idOf credentialSecret
    .ok { groupId, cred := { credentialId, credentialSecret }, hostBase := "" }
  | .array [groupId, credentialId, credentialSecret, hostBase] => do
    let groupId ← idOf groupId
    let credentialId ← idOf credentialId
    let credentialSecret ← idOf credentialSecret
    let hostBase ← textOf hostBase
    .ok { groupId, cred := { credentialId, credentialSecret }, hostBase }
  | _ => .error .vaultCorrupt

namespace HomeState

/-- The contacts in the order of their ids. -/
def sortedContacts (s : HomeState) : List (IdentityId × StoredContact) :=
  s.contacts.entriesBy fun a b ↦ bytesLe a.data b.data

/-- The entries of the map, with the contacts and the groups as they are written. -/
def pairs (contacts groups : List Value) (s : HomeState) : List (UInt64 × Value) :=
  [(0, .uint 1), (1, .bytes s.bundle.encode), (2, .uint s.cursor), (3, .array contacts),
    (4, .array groups), (5, .text s.homeBase), (6, .uint (privacyToU64 s.privacy))]

/-- `HomeState::encode`. -/
def encode (s : HomeState) : Bytes :=
  Cbor.encode (.map (s.pairs (s.sortedContacts.map fun e ↦ .map (e.2.pairs e.1))
    (s.groups.map fun g ↦ .array g.row)))

/-- `HomeState::decode`. -/
def decode (bytes : Bytes) : Except CoreError HomeState := do
  let m ← mapOf bytes
  checkVersion m
  let bundle ← liftWire (ServerBundle.decode (← field bytesOf m 1))
  let cursor ← field uintOf m 2
  let contacts ← (← field itemsOf m 3).mapM contactOf
  let groups ← (← field itemsOf m 4).mapM groupOf
  let homeBase ← fieldOr textOf m 5 ""
  let privacy ← fieldOr privacyOf m 6 .normal
  .ok { bundle, cursor, contacts := FiniteMap.ofEntries contacts, groups, homeBase, privacy }

/-- What `save_home` writes beside the installation. -/
def save (kv : FiniteMap String Bytes) (s : HomeState) : FiniteMap String Bytes :=
  kv.insert "home" s.encode

/-- `load_home`. -/
def load (kv : FiniteMap String Bytes) : Except CoreError (Option HomeState) :=
  match kv.lookup "home" with
  | none => .ok none
  | some bytes => (decode bytes).map some

/-- Every contact is stored under the id of its pin. -/
def Pinned (s : HomeState) : Prop := ∀ id c, s.contacts.lookup id = some c → c.pin.identityId = id

/-- The states are equal, contact by contact. -/
structure Same (s t : HomeState) : Prop where
  bundle : s.bundle = t.bundle
  cursor : s.cursor = t.cursor
  contacts : ∀ id, s.contacts.lookup id = t.contacts.lookup id
  groups : s.groups = t.groups
  homeBase : s.homeBase = t.homeBase
  privacy : s.privacy = t.privacy

theorem Same.trans {s t u : HomeState} (h : s.Same t) (h' : t.Same u) : s.Same u where
  bundle := h.bundle.trans h'.bundle
  cursor := h.cursor.trans h'.cursor
  contacts := fun id ↦ (h.contacts id).trans (h'.contacts id)
  groups := h.groups.trans h'.groups
  homeBase := h.homeBase.trans h'.homeBase
  privacy := h.privacy.trans h'.privacy

end HomeState

/-- What a writer of the home state lacks: keys of the state and of the contacts, and the host of a
group. -/
structure HomeLacking where
  state : Lacking [5, 6]
  contact : Lacking [8]
  hostBase : Bool

namespace HomeLacking

/-- Today's writer. -/
def none : HomeLacking := { state := .none, contact := .none, hostBase := false }

/-- What such a writer leaves. -/
def encode (lacking : HomeLacking) (s : HomeState) : Bytes :=
  Cbor.encode (.map (without lacking.state
    (s.pairs (s.sortedContacts.map fun e ↦ .map (without lacking.contact (e.2.pairs e.1)))
      (s.groups.map fun g ↦ .array (if lacking.hostBase then g.row.take 3 else g.row)))))

/-- A contact with its default. -/
def ofContact (lacking : HomeLacking) (c : StoredContact) : StoredContact :=
  { c with homeOrigin := if 8 ∈ lacking.contact.keys then "" else c.homeOrigin }

/-- A group with its default. -/
def ofGroup (lacking : HomeLacking) (g : HostGroup) : HostGroup :=
  { g with hostBase := if lacking.hostBase then "" else g.hostBase }

/-- The state with the defaults. -/
def ofState (lacking : HomeLacking) (s : HomeState) : HomeState :=
  { s with
    contacts := s.contacts.filterMap fun _ c ↦ some (lacking.ofContact c)
    groups := s.groups.map lacking.ofGroup
    homeBase := if 5 ∈ lacking.state.keys then "" else s.homeBase
    privacy := if 6 ∈ lacking.state.keys then .normal else s.privacy }

variable {lacking : HomeLacking} {s : HomeState}

theorem encode_none (s : HomeState) : none.encode s = s.encode := by
  rw [encode, HomeState.encode]
  simp [none]

theorem contactOf_without (id : IdentityId) (c : StoredContact) :
    contactOf (.map (without lacking.contact (c.pairs id))) =
      .ok (id, { lacking.ofContact c with pin := { c.pin with identityId := id } }) := by
  set m := without lacking.contact (c.pairs id)
  have hid : field (fixedOf 32) m 0 = .ok id :=
    (field_without (by decide) rfl).trans (fixedOf_bytes id)
  have hkey : field (fixedOf 32) m 1 = .ok c.pin.identityPublicKey :=
    (field_without (by decide) rfl).trans (fixedOf_bytes _)
  have hrevocation : field (fixedOf 32) m 2 = .ok c.pin.revocationPublicKey :=
    (field_without (by decide) rfl).trans (fixedOf_bytes _)
  have hseq : field uintOf m 3 = .ok c.pin.seq :=
    (field_without (by decide) rfl).trans rfl
  have hcapability : field (fixedOf 32) m 4 = .ok c.deliveryCapability :=
    (field_without (by decide) rfl).trans (fixedOf_bytes _)
  have hhpke : field (fixedOf 32) m 5 = .ok c.destHpke :=
    (field_without (by decide) rfl).trans (fixedOf_bytes _)
  have hlast : field uintOf m 6 = .ok c.lastDiscoveryUnix :=
    (field_without (by decide) rfl).trans rfl
  have hrevoked : field flagOf m 7 = .ok c.revoked :=
    (field_without (by decide) rfl).trans (flagOf_flag _)
  have horigin : fieldOr textOf m 8 "" =
      .ok (if 8 ∈ lacking.contact.keys then "" else c.homeOrigin) := fieldOr_without "" rfl rfl
  rw [contactOf, hid, hkey, hrevocation, hseq, hcapability, hhpke, hlast, hrevoked, horigin]
  rfl

theorem groupOf_row (g : HostGroup) :
    groupOf (.array (if lacking.hostBase then g.row.take 3 else g.row)) =
      .ok (lacking.ofGroup g) := by
  have hid (key : Key) : idOf (.bytes key.data) = .ok key := by
    change liftWire (copyFixed 32 key.data) = .ok key
    rw [copyFixed_data]
    rfl
  cases hbase : lacking.hostBase with
  | true =>
    simp only [if_true, HostGroup.row, List.take_succ_cons, List.take_zero, groupOf, hid, ofGroup,
      hbase]
    rfl
  | false =>
    simp only [Bool.false_eq_true, if_false, HostGroup.row, groupOf, hid, ofGroup, hbase]
    rfl

theorem ordered (s : HomeState) : (Value.map (without lacking.state
    (s.pairs (s.sortedContacts.map fun e ↦ .map (without lacking.contact (e.2.pairs e.1)))
      (s.groups.map fun g ↦ .array (if lacking.hostBase then g.row.take 3 else g.row))))).Ordered := by
  have hcontacts : itemsOrdered
      (s.sortedContacts.map fun e ↦ .map (without lacking.contact (e.2.pairs e.1))) := by
    refine itemsOrdered_iff.mpr (List.forall_mem_map.mpr fun e _ ↦ ?_)
    apply ordered_without
    simp [StoredContact.pairs, Value.Ordered, pairsOrdered, flag]
  have hgroups : itemsOrdered
      (s.groups.map fun g ↦ .array (if lacking.hostBase then g.row.take 3 else g.row)) := by
    refine itemsOrdered_iff.mpr (List.forall_mem_map.mpr fun g _ ↦ ?_)
    cases lacking.hostBase <;> simp [HostGroup.row, Value.Ordered, itemsOrdered]
  apply ordered_without
  simp [HomeState.pairs, Value.Ordered, pairsOrdered, hcontacts, hgroups]

/-- What such a writer leaves is read with the defaults. -/
theorem decode_encode (hpinned : s.Pinned) (hfits : Fits (lacking.encode s)) :
    ∃ s', HomeState.decode (lacking.encode s) = .ok s' ∧ s'.Same (lacking.ofState s) := by
  set contacts := s.sortedContacts.map fun e ↦
    Value.map (without lacking.contact (e.2.pairs e.1)) with hcontacts
  set groups := s.groups.map fun g ↦
    Value.array (if lacking.hostBase then g.row.take 3 else g.row) with hgroups
  set m := without lacking.state (s.pairs contacts groups) with hm
  have hmap : mapOf (lacking.encode s) = .ok m := mapOf_encode (ordered s) hfits
  have hversion : checkVersion m = .ok () :=
    checkVersion_eq ((field_without (by decide) rfl).trans rfl)
  have hbundle : field bytesOf m 1 = .ok s.bundle.encode :=
    (field_without (by decide) rfl).trans rfl
  have hcursor : field uintOf m 2 = .ok s.cursor :=
    (field_without (by decide) rfl).trans rfl
  have hcontactItems : field itemsOf m 3 = .ok contacts :=
    (field_without (by decide) rfl).trans rfl
  have hgroupItems : field itemsOf m 4 = .ok groups :=
    (field_without (by decide) rfl).trans rfl
  have hbase : fieldOr textOf m 5 "" =
      .ok (if 5 ∈ lacking.state.keys then "" else s.homeBase) := fieldOr_without "" rfl rfl
  have hprivacy : fieldOr privacyOf m 6 .normal =
      .ok (if 6 ∈ lacking.state.keys then .normal else s.privacy) :=
    fieldOr_without .normal rfl (privacyOf_privacyToU64 s.privacy)
  have hcontactRows : contacts.mapM contactOf =
      .ok (s.sortedContacts.map fun e ↦ (e.1, lacking.ofContact e.2)) := by
    refine mapM_map_eq_ok fun e he ↦ ?_
    have hid : e.2.pin.identityId = e.1 := hpinned e.1 e.2 (FiniteMap.mem_entriesBy.mp he)
    rw [contactOf_without, ← hid]
    rfl
  have hgroupRows : groups.mapM groupOf = .ok (s.groups.map lacking.ofGroup) :=
    mapM_map_eq_ok fun g _ ↦ groupOf_row g
  have hserver : liftWire (ServerBundle.decode s.bundle.encode) = .ok s.bundle := by
    rw [ServerBundle.decode_encode]
    rfl
  have hdecode : HomeState.decode (lacking.encode s) = .ok
      { lacking.ofState s with
        contacts := .ofEntries (s.sortedContacts.map fun e ↦ (e.1, lacking.ofContact e.2)) } := by
    simp only [HomeState.decode, hmap, hversion, hbundle, hserver, hcursor, hcontactItems,
      hgroupItems, hbase, hprivacy, hcontactRows, hgroupRows, bind, Except.bind]
    rfl
  refine ⟨_, hdecode, ?_⟩
  refine { bundle := rfl, cursor := rfl, contacts := fun id ↦ ?_, groups := rfl, homeBase := rfl,
           privacy := rfl }
  calc
    _ = (s.contacts.lookup id).map lacking.ofContact := FiniteMap.lookup_ofEntries_map _ _ _ id
    _ = (s.contacts.lookup id).bind fun c ↦ some (lacking.ofContact c) := Option.map_eq_bind
    _ = (lacking.ofState s).contacts.lookup id :=
      (FiniteMap.lookup_filterMap (fun _ c ↦ some (lacking.ofContact c)) s.contacts id).symm

theorem ofContact_none (c : StoredContact) : none.ofContact c = c := by
  simp [none, ofContact]

theorem ofGroup_none (g : HostGroup) : none.ofGroup g = g := by
  simp [none, ofGroup]

/-- Today's writer lacks nothing. -/
theorem ofState_none (s : HomeState) : (none.ofState s).Same s where
  bundle := rfl
  cursor := rfl
  contacts := fun id ↦ by
    calc
      _ = (s.contacts.lookup id).bind fun c ↦ some (none.ofContact c) :=
        FiniteMap.lookup_filterMap (fun _ c ↦ some (none.ofContact c)) s.contacts id
      _ = (s.contacts.lookup id).bind some := by simp only [ofContact_none]
      _ = s.contacts.lookup id := Option.bind_fun_some _
  groups := (List.map_congr_left fun g _ ↦ ofGroup_none g).trans (List.map_id s.groups)
  homeBase := by simp [none, ofState]
  privacy := by simp [none, ofState]

end HomeLacking

theorem HomeState.load_save (kv : FiniteMap String Bytes) {s : HomeState} (hpinned : s.Pinned)
    (hfits : Fits s.encode) : ∃ s', load (s.save kv) = .ok (some s') ∧ s'.Same s := by
  rw [← HomeLacking.encode_none] at hfits
  obtain ⟨s', hdecode, hsame⟩ := HomeLacking.decode_encode hpinned hfits
  refine ⟨s', ?_, hsame.trans (HomeLacking.ofState_none s)⟩
  rw [load, save, AList.lookup_insert]
  rw [HomeLacking.encode_none] at hdecode
  change (decode s.encode).map some = _
  rw [hdecode]
  rfl

/-! ## Rows of the inbox -/

namespace Storage

/-- `InboxRow`. -/
structure InboxRow where
  convId : String
  convSeq : UInt64
  text : String
  sentAt : UInt64
  fileName : String
  fileMime : String
  fileBytes : Bytes
  fetchToken : String
  kind : String
  emoji : String
  target : UInt64
  hidden : Bool
  displayedAt : UInt64
  outgoing : Bool
  senderId : String
  senderName : String
  replyTo : UInt64
  deriving DecidableEq

namespace InboxRow

/-- The entries of the map. -/
def pairs (row : InboxRow) : List (UInt64 × Value) :=
  [(0, .text row.convId), (1, .uint row.convSeq), (2, .text row.text), (3, .uint row.sentAt),
    (4, .text row.fileName), (5, .text row.fileMime), (6, .bytes row.fileBytes),
    (7, .text row.fetchToken), (8, .text row.kind), (9, .text row.emoji), (10, .uint row.target),
    (11, flag row.hidden), (12, .uint row.displayedAt), (13, flag row.outgoing),
    (14, .text row.senderId), (15, .text row.senderName), (16, .uint row.replyTo)]

/-- `encode_inbox_row`. -/
def encode (row : InboxRow) : Value := .map row.pairs

/-- `decode_inbox_row`. -/
def decode : Value → Except CoreError InboxRow
  | .map m => do
    let convId ← field textOf m 0
    let convSeq ← field uintOf m 1
    let text ← field textOf m 2
    let sentAt ← field uintOf m 3
    let fileName ← field textOf m 4
    let fileMime ← field textOf m 5
    let fileBytes ← field bytesOf m 6
    let fetchToken ← field textOf m 7
    let kind ← field textOf m 8
    let emoji ← field textOf m 9
    let target ← field uintOf m 10
    let hidden ← field flagOf m 11
    let displayedAt ← field uintOf m 12
    let outgoing ← fieldOr flagOf m 13 false
    let senderId ← fieldOr textOf m 14 ""
    let senderName ← fieldOr textOf m 15 ""
    let replyTo ← fieldOr uintOf m 16 0
    .ok { convId, convSeq, text, sentAt, fileName, fileMime, fileBytes, fetchToken, kind, emoji,
          target, hidden, displayedAt, outgoing, senderId, senderName, replyTo }
  | _ => .error .vaultCorrupt

/-- A row with the defaults of what its writer lacks. -/
def ofLacking (lacking : Lacking [13, 14, 15, 16]) (row : InboxRow) : InboxRow :=
  { row with
    outgoing := if 13 ∈ lacking.keys then false else row.outgoing
    senderId := if 14 ∈ lacking.keys then "" else row.senderId
    senderName := if 15 ∈ lacking.keys then "" else row.senderName
    replyTo := if 16 ∈ lacking.keys then 0 else row.replyTo }

variable {lacking : Lacking [13, 14, 15, 16]}

theorem ordered (row : InboxRow) : (Value.map (without lacking row.pairs)).Ordered := by
  apply ordered_without
  simp [pairs, pairsOrdered, Value.Ordered, flag]

theorem decode_without (row : InboxRow) :
    decode (.map (without lacking row.pairs)) = .ok (row.ofLacking lacking) := by
  set m := without lacking row.pairs
  have htext (key : UInt64) (s : String) (hkey : key ∉ [13, 14, 15, 16])
      (h : mapGetOpt row.pairs key = some (.text s)) : field textOf m key = .ok s :=
    field_without hkey h
  have huint (key n : UInt64) (hkey : key ∉ [13, 14, 15, 16])
      (h : mapGetOpt row.pairs key = some (.uint n)) : field uintOf m key = .ok n :=
    field_without hkey h
  have hbytes : field bytesOf m 6 = .ok row.fileBytes :=
    (field_without (by decide) rfl).trans rfl
  have hhidden : field flagOf m 11 = .ok row.hidden :=
    (field_without (by decide) rfl).trans (flagOf_flag row.hidden)
  have houtgoing : fieldOr flagOf m 13 false =
      .ok (if 13 ∈ lacking.keys then false else row.outgoing) :=
    fieldOr_without false rfl (flagOf_flag row.outgoing)
  have hsenderId : fieldOr textOf m 14 "" =
      .ok (if 14 ∈ lacking.keys then "" else row.senderId) := fieldOr_without "" rfl rfl
  have hsenderName : fieldOr textOf m 15 "" =
      .ok (if 15 ∈ lacking.keys then "" else row.senderName) := fieldOr_without "" rfl rfl
  have hreplyTo : fieldOr uintOf m 16 0 =
      .ok (if 16 ∈ lacking.keys then 0 else row.replyTo) := fieldOr_without 0 rfl rfl
  rw [decode, htext 0 row.convId (by decide) rfl, huint 1 row.convSeq (by decide) rfl,
    htext 2 row.text (by decide) rfl, huint 3 row.sentAt (by decide) rfl,
    htext 4 row.fileName (by decide) rfl, htext 5 row.fileMime (by decide) rfl, hbytes,
    htext 7 row.fetchToken (by decide) rfl, htext 8 row.kind (by decide) rfl,
    htext 9 row.emoji (by decide) rfl, huint 10 row.target (by decide) rfl, hhidden,
    huint 12 row.displayedAt (by decide) rfl, houtgoing, hsenderId, hsenderName, hreplyTo]
  rfl

end InboxRow

end Storage

end NemoMessenger.Client
