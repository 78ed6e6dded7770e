import NemoMessenger.Client.Storage
import NemoMessenger.Wire.Objects

/-!
# The tables of the vault

What the client shows, its inbox, the joins that wait to be admitted and the invites it minted are
entries of their own, each saved and loaded as a whole.
-/

namespace NemoMessenger.Client.Storage

open NemoMessenger.Data NemoMessenger.Wire Wire.Cbor

/-- The table `kv`. -/
abbrev Table := FiniteMap String Bytes

/-! ## Display state -/

/-- What `save_display` takes. -/
structure Display where
  nicknames : FiniteMap String String
  disappear : FiniteMap String UInt64
  groupNames : FiniteMap String String

namespace Display

/-- The entries of the map. -/
def pairs (d : Display) : List (UInt64 × Value) :=
  [(0, .uint 1), (1, rowsOf .text d.nicknames), (2, rowsOf .uint d.disappear),
    (3, rowsOf .text d.groupNames)]

/-- `save_display`. -/
def save (kv : Table) (d : Display) : Table := kv.insert "display" (Cbor.encode (.map d.pairs))

/-- What `load_display` makes of an entry. -/
def decode (bytes : Bytes) : Except CoreError Display := do
  let m ← mapOf bytes
  checkVersion m
  let nicknames ← field (pairsOf textOf) m 1
  let disappear ← field (pairsOf uintOf) m 2
  let groupNames ← fieldOr (pairsOf textOf) m 3 ∅
  .ok { nicknames, disappear, groupNames }

/-- `load_display`. -/
def load (kv : Table) : Except CoreError Display :=
  match kv.lookup "display" with
  | none => .ok { nicknames := ∅, disappear := ∅, groupNames := ∅ }
  | some bytes => decode bytes

/-- The same texts and timers under every key. -/
structure Same (d e : Display) : Prop where
  nicknames : ∀ k, d.nicknames.lookup k = e.nicknames.lookup k
  disappear : ∀ k, d.disappear.lookup k = e.disappear.lookup k
  groupNames : ∀ k, d.groupNames.lookup k = e.groupNames.lookup k

/-- The defaults of what a writer lacks. -/
def ofLacking (lacking : Lacking [3]) (d : Display) : Display :=
  { d with groupNames := if 3 ∈ lacking.keys then ∅ else d.groupNames }

variable {lacking : Lacking [3]} {d : Display}

theorem ordered (d : Display) : (Value.map (without lacking d.pairs)).Ordered := by
  apply ordered_without
  simp [pairs, pairsOrdered, Value.Ordered, ordered_texts, ordered_uints]

theorem decode_encode (hfits : Fits (Cbor.encode (.map (without lacking d.pairs)))) :
    ∃ d', decode (Cbor.encode (.map (without lacking d.pairs))) = .ok d' ∧
      d'.Same (d.ofLacking lacking) := by
  set m := without lacking d.pairs
  have hmap : mapOf (Cbor.encode (.map m)) = .ok m := mapOf_encode (ordered d) hfits
  have hversion : checkVersion m = .ok () :=
    checkVersion_eq ((field_without (by decide) rfl).trans rfl)
  have hnicknames : field (pairsOf textOf) m 1 = .ok (reread d.nicknames) :=
    (field_without (by decide) rfl).trans (pairsOf_rowsOf textOf_text d.nicknames)
  have hdisappear : field (pairsOf uintOf) m 2 = .ok (reread d.disappear) :=
    (field_without (by decide) rfl).trans (pairsOf_rowsOf uintOf_uint d.disappear)
  have hnames : fieldOr (pairsOf textOf) m 3 ∅ =
      .ok (if 3 ∈ lacking.keys then ∅ else reread d.groupNames) :=
    fieldOr_without ∅ rfl (pairsOf_rowsOf textOf_text d.groupNames)
  have hdecode : decode (Cbor.encode (.map m)) = .ok
      { nicknames := reread d.nicknames, disappear := reread d.disappear
        groupNames := if 3 ∈ lacking.keys then ∅ else reread d.groupNames } := by
    rw [decode, hmap]
    simp only [hversion, hnicknames, hdisappear, hnames, bind, Except.bind]
  exact ⟨_, hdecode, lookup_reread _, lookup_reread _, lookup_ite_reread _ _⟩

theorem ofLacking_none (d : Display) : d.ofLacking .none = d := by
  simp [ofLacking]

theorem load_save (kv : Table) (hfits : Fits (Cbor.encode (.map d.pairs))) :
    ∃ d', load (save kv d) = .ok d' ∧ d'.Same d := by
  have hread := @decode_encode .none d (by rwa [without_none])
  rw [without_none, ofLacking_none] at hread
  rw [load, save, AList.lookup_insert]
  exact hread

end Display

/-! ## The inbox -/

/-- What `save_inbox` takes. -/
structure SavedInbox where
  rows : List InboxRow
  nextSeq : FiniteMap String UInt64
  acked : FiniteMap String UInt64
  read : FiniteMap String UInt64
  groupRead : FiniteMap String (FiniteMap String UInt64)

/-- The rows of the marks of groups. -/
def marksOf (groupRead : FiniteMap String (FiniteMap String UInt64)) : Value :=
  .array ((groupRead.nestedEntries textLe textLe).map fun e ↦
    .array [.text e.1.1, .text e.1.2, .uint e.2])

/-- A row of two texts and a number. -/
def markOf : Value → Except CoreError ((String × String) × UInt64)
  | .array [group, viewer, seq] => do
    let group ← textOf group
    let viewer ← textOf viewer
    let seq ← uintOf seq
    .ok ((group, viewer), seq)
  | _ => .error .vaultCorrupt

/-- The loop over the marks of groups. -/
def groupReadOf (v : Value) : Except CoreError (FiniteMap String (FiniteMap String UInt64)) := do
  let entries ← (← itemsOf v).mapM markOf
  .ok (FiniteMap.ofNested entries)

theorem groupReadOf_marksOf (groupRead : FiniteMap String (FiniteMap String UInt64)) :
    groupReadOf (marksOf groupRead) =
      .ok (.ofNested (groupRead.nestedEntries textLe textLe)) := by
  have hrow (e : (String × String) × UInt64) :
      markOf (.array [.text e.1.1, .text e.1.2, .uint e.2]) = .ok (id e) := rfl
  have hrows := mapM_map_eq_ok fun (e : (String × String) × UInt64)
    (_ : e ∈ groupRead.nestedEntries textLe textLe) ↦ hrow e
  rw [List.map_id] at hrows
  exact bind_eq_ok.mpr ⟨_, rfl, bind_eq_ok.mpr ⟨_, hrows, rfl⟩⟩

namespace SavedInbox

/-- The entries of the map, with the rows as they are written. -/
def pairs (rows : List Value) (s : SavedInbox) : List (UInt64 × Value) :=
  [(0, .uint 1), (1, .array rows), (2, rowsOf .uint s.nextSeq), (3, rowsOf .uint s.acked),
    (4, rowsOf .uint s.read), (5, marksOf s.groupRead)]

/-- `save_inbox`. -/
def save (kv : Table) (s : SavedInbox) : Table :=
  kv.insert "inbox" (Cbor.encode (.map (s.pairs (s.rows.map InboxRow.encode))))

/-- What `load_inbox` makes of an entry. -/
def decode (bytes : Bytes) : Except CoreError SavedInbox := do
  let m ← mapOf bytes
  checkVersion m
  let rows ← (← field itemsOf m 1).mapM InboxRow.decode
  let nextSeq ← field (pairsOf uintOf) m 2
  let acked ← fieldOr (pairsOf uintOf) m 3 ∅
  let read ← fieldOr (pairsOf uintOf) m 4 ∅
  let groupRead ← fieldOr groupReadOf m 5 ∅
  .ok { rows, nextSeq, acked, read, groupRead }

/-- `load_inbox`. -/
def load (kv : Table) : Except CoreError SavedInbox :=
  match kv.lookup "inbox" with
  | none => .ok { rows := [], nextSeq := ∅, acked := ∅, read := ∅, groupRead := ∅ }
  | some bytes => decode bytes

/-- The same rows, counters and marks; a group without marks is one that is not there. -/
structure Same (s t : SavedInbox) : Prop where
  rows : s.rows = t.rows
  nextSeq : ∀ k, s.nextSeq.lookup k = t.nextSeq.lookup k
  acked : ∀ k, s.acked.lookup k = t.acked.lookup k
  read : ∀ k, s.read.lookup k = t.read.lookup k
  groupRead : ∀ key, s.groupRead.nested key = t.groupRead.nested key

end SavedInbox

/-- What a writer of the inbox lacks. -/
structure InboxLacking where
  inbox : Lacking [3, 4, 5]
  row : Lacking [13, 14, 15, 16]

namespace InboxLacking

/-- Today's writer. -/
def none : InboxLacking := { inbox := .none, row := .none }

/-- What such a writer leaves. -/
def encode (lacking : InboxLacking) (s : SavedInbox) : Bytes :=
  Cbor.encode (.map (without lacking.inbox
    (s.pairs (s.rows.map fun row ↦ .map (without lacking.row row.pairs)))))

/-- The inbox with the defaults. -/
def ofInbox (lacking : InboxLacking) (s : SavedInbox) : SavedInbox :=
  { rows := s.rows.map fun row ↦ row.ofLacking lacking.row
    nextSeq := s.nextSeq
    acked := if 3 ∈ lacking.inbox.keys then ∅ else s.acked
    read := if 4 ∈ lacking.inbox.keys then ∅ else s.read
    groupRead := if 5 ∈ lacking.inbox.keys then ∅ else s.groupRead }

variable {lacking : InboxLacking} {s : SavedInbox}

theorem ordered (s : SavedInbox) : (Value.map (without lacking.inbox
    (s.pairs (s.rows.map fun row ↦ .map (without lacking.row row.pairs))))).Ordered := by
  have hrows : itemsOrdered (s.rows.map fun row ↦ .map (without lacking.row row.pairs)) :=
    itemsOrdered_iff.mpr (List.forall_mem_map.mpr fun row _ ↦ row.ordered)
  have hmarks : (marksOf s.groupRead).Ordered := by
    rw [marksOf, Value.Ordered, itemsOrdered_iff, List.forall_mem_map]
    intro e _
    simp [Value.Ordered, itemsOrdered]
  apply ordered_without
  simp [SavedInbox.pairs, pairsOrdered, Value.Ordered, ordered_uints, hrows, hmarks]

/-- What such a writer leaves is read with the defaults. -/
theorem decode_encode (hfits : Fits (lacking.encode s)) :
    ∃ s', SavedInbox.decode (lacking.encode s) = .ok s' ∧ s'.Same (lacking.ofInbox s) := by
  set rows := s.rows.map fun row ↦ Value.map (without lacking.row row.pairs) with hrowsEq
  set m := without lacking.inbox (s.pairs rows)
  have hmap : mapOf (lacking.encode s) = .ok m := mapOf_encode (ordered s) hfits
  have hversion : checkVersion m = .ok () :=
    checkVersion_eq ((field_without (by decide) rfl).trans rfl)
  have hitems : field itemsOf m 1 = .ok rows := (field_without (by decide) rfl).trans rfl
  have hrows : rows.mapM InboxRow.decode =
      .ok (s.rows.map fun row ↦ row.ofLacking lacking.row) :=
    mapM_map_eq_ok fun row _ ↦ row.decode_without
  have hnext : field (pairsOf uintOf) m 2 = .ok (reread s.nextSeq) :=
    (field_without (by decide) rfl).trans (pairsOf_rowsOf uintOf_uint s.nextSeq)
  have hacked : fieldOr (pairsOf uintOf) m 3 ∅ =
      .ok (if 3 ∈ lacking.inbox.keys then ∅ else reread s.acked) :=
    fieldOr_without ∅ rfl (pairsOf_rowsOf uintOf_uint s.acked)
  have hread : fieldOr (pairsOf uintOf) m 4 ∅ =
      .ok (if 4 ∈ lacking.inbox.keys then ∅ else reread s.read) :=
    fieldOr_without ∅ rfl (pairsOf_rowsOf uintOf_uint s.read)
  have hgroup : fieldOr groupReadOf m 5 ∅ = .ok (if 5 ∈ lacking.inbox.keys then ∅ else
      .ofNested (s.groupRead.nestedEntries textLe textLe)) :=
    fieldOr_without ∅ rfl (groupReadOf_marksOf s.groupRead)
  have hdecode : SavedInbox.decode (lacking.encode s) = .ok
      { rows := s.rows.map fun row ↦ row.ofLacking lacking.row
        nextSeq := reread s.nextSeq
        acked := if 3 ∈ lacking.inbox.keys then ∅ else reread s.acked
        read := if 4 ∈ lacking.inbox.keys then ∅ else reread s.read
        groupRead := if 5 ∈ lacking.inbox.keys then ∅ else
          .ofNested (s.groupRead.nestedEntries textLe textLe) } := by
    rw [SavedInbox.decode, hmap]
    simp only [hversion, hitems, hrows, hnext, hacked, hread, hgroup, bind, Except.bind]
  refine ⟨_, hdecode, rfl, lookup_reread _, lookup_ite_reread _ _, lookup_ite_reread _ _,
    fun key ↦ ?_⟩
  change FiniteMap.nested (if 5 ∈ lacking.inbox.keys then ∅ else _) key =
    FiniteMap.nested (if 5 ∈ lacking.inbox.keys then ∅ else s.groupRead) key
  split_ifs
  · rfl
  · exact FiniteMap.nested_ofNested key

theorem encode_none (s : SavedInbox) :
    none.encode s = Cbor.encode (.map (s.pairs (s.rows.map InboxRow.encode))) := by
  have hrow : (fun row : InboxRow ↦ Value.map (without none.row row.pairs)) = InboxRow.encode := by
    funext row
    rw [InboxRow.encode, none, without_none]
  rw [encode, hrow, none, without_none]

theorem ofInbox_none (s : SavedInbox) : none.ofInbox s = s := by
  have hrow : (fun row : InboxRow ↦ row.ofLacking none.row) = id := by
    funext row
    simp [none, InboxRow.ofLacking]
  rw [ofInbox, hrow, List.map_id]
  simp [none]

end InboxLacking

theorem SavedInbox.load_save (kv : Table) {s : SavedInbox}
    (hfits : Fits (Cbor.encode (.map (s.pairs (s.rows.map InboxRow.encode))))) :
    ∃ s', load (save kv s) = .ok s' ∧ s'.Same s := by
  rw [← InboxLacking.encode_none] at hfits
  have hread := InboxLacking.decode_encode hfits
  rw [InboxLacking.encode_none, InboxLacking.ofInbox_none] at hread
  rw [load, save, AList.lookup_insert]
  exact hread

/-! ## Records of the libraries -/

/-- How a library writes and reads its own records. -/
structure Record (R : Type) where
  write : R → Except String Bytes
  read : Bytes → Except String R

/-- What is written is read back. -/
def Record.RoundTrips {R : Type} (record : Record R) : Prop :=
  ∀ r, ∃ bytes, record.write r = .ok bytes ∧ record.read bytes = .ok r

theorem Record.RoundTrips.read {R : Type} {record : Record R} (h : record.RoundTrips) {r : R}
    {bytes : Bytes} (hwrite : record.write r = .ok bytes) : record.read bytes = .ok r := by
  obtain ⟨_, hbytes, hread⟩ := h r
  rw [hwrite] at hbytes
  rw [Except.ok.inj hbytes]
  exact hread

/-! ## Joins that wait to be admitted -/

/-- `copy_fixed(expect_bytes(v)?)?`, where any error is that of a vault that is not as it was
written. -/
def keyOf (v : Value) : Except CoreError Key := do
  corrupt (copyFixed 32 (← bytesOf v))

@[simp] theorem keyOf_bytes (key : Key) : keyOf (.bytes key.data) = .ok key := by
  change corrupt (copyFixed 32 key.data) = .ok key
  rw [copyFixed_data]
  rfl

/-- `PendingJoin`, with the signature key pair of the MLS library. -/
structure PendingJoin (S : Type) where
  credentialId : Key
  mlsSigner : S
  groupSigning : Key
  keyPackage : Bytes

namespace PendingJoin

variable {S : Type} (signer : Record S)

/-- The entries of the map. -/
def pairs (pending : PendingJoin S) (signerBytes : Bytes) : List (UInt64 × Value) :=
  [(0, .uint 1), (1, .bytes pending.credentialId.data), (2, .bytes pending.groupSigning.data),
    (3, .bytes pending.keyPackage), (4, .bytes signerBytes)]

/-- `PendingJoin::encode`. -/
def encode (pending : PendingJoin S) : Except CoreError Bytes :=
  match signer.write pending.mlsSigner with
  | .error e => .error (.mls e)
  | .ok bytes => .ok (Cbor.encode (.map (pending.pairs bytes)))

/-- `PendingJoin::decode`, where reading a key pair stores it as well. -/
def decode (bytes : Bytes) : Except CoreError (PendingJoin S) := do
  let m ← mapOf bytes
  checkVersion m
  let credentialId ← field keyOf m 1
  let groupSigning ← field keyOf m 2
  let keyPackage ← field bytesOf m 3
  let signerBytes ← field bytesOf m 4
  match signer.read signerBytes with
  | .error e => .error (.mls e)
  | .ok mlsSigner => .ok { credentialId, mlsSigner, groupSigning, keyPackage }

variable {signer}

theorem decode_encode (hsigner : signer.RoundTrips) {pending : PendingJoin S} {bytes : Bytes}
    (h : pending.encode signer = .ok bytes) (hfits : Fits bytes) :
    decode signer bytes = .ok pending := by
  obtain ⟨signerBytes, hwrite, hread⟩ := hsigner pending.mlsSigner
  rw [encode, hwrite] at h
  rw [← Except.ok.inj h] at hfits ⊢
  set m := pending.pairs signerBytes with hm
  have hordered : (Value.map m).Ordered := by simp [hm, pairs, Value.Ordered, pairsOrdered]
  have hversion : checkVersion m = .ok () := checkVersion_eq ((field_eq rfl).trans rfl)
  have hcredential : field keyOf m 1 = .ok pending.credentialId :=
    (field_eq rfl).trans (keyOf_bytes _)
  have hsigning : field keyOf m 2 = .ok pending.groupSigning := (field_eq rfl).trans (keyOf_bytes _)
  have hpackage : field bytesOf m 3 = .ok pending.keyPackage := (field_eq rfl).trans rfl
  have hsignerBytes : field bytesOf m 4 = .ok signerBytes := (field_eq rfl).trans rfl
  simp only [decode, mapOf_encode hordered hfits, hversion, hcredential, hsigning, hpackage,
    hsignerBytes, hread, bind, Except.bind]

end PendingJoin

section Pending

variable {S : Type} (signer : Record S)

/-- The row of a join. -/
def pendingRow (entry : Key × PendingJoin S × HostAccept) : Except CoreError Value := do
  let pending ← entry.2.1.encode signer
  .ok (.array [.bytes entry.1.data, .bytes pending, .bytes entry.2.2.encode])

/-- The entry `save_pending` writes. -/
def pendingBytes (entries : List (Key × PendingJoin S × HostAccept)) : Except CoreError Bytes := do
  let items ← entries.mapM (pendingRow signer)
  .ok (Cbor.encode (.array items))

/-- `save_pending`. -/
def savePending (kv : Table) (entries : List (Key × PendingJoin S × HostAccept)) :
    Except CoreError Table := do
  let bytes ← pendingBytes signer entries
  .ok (kv.insert "pending_joins" bytes)

/-- What the loop of `load_pending` makes of an item. -/
def pendingOf : Value → Except CoreError (Key × PendingJoin S × HostAccept)
  | .array [groupId, pending, host] => do
    let groupId ← keyOf groupId
    let pending ← PendingJoin.decode signer (← bytesOf pending)
    let host ← HostAccept.decode (← bytesOf host)
    .ok (groupId, pending, host)
  | _ => .error .vaultCorrupt

/-- `load_pending`. -/
def loadPending (kv : Table) : Except CoreError (List (Key × PendingJoin S × HostAccept)) :=
  match kv.lookup "pending_joins" with
  | none => .ok []
  | some bytes => do
    let items ← arrayOf bytes
    items.mapM (pendingOf signer)

variable {signer}

theorem pendingOf_pendingRow (hsigner : signer.RoundTrips)
    (entry : Key × PendingJoin S × HostAccept) (item : Value)
    (h : pendingRow signer entry = .ok item) (hwf : item.Wf) :
    pendingOf signer item = .ok entry := by
  obtain ⟨bytes, hbytes, hitem⟩ := bind_eq_ok.mp h
  rw [← Except.ok.inj hitem] at hwf ⊢
  simp only [Value.Wf, itemsWf] at hwf
  simp only [pendingOf, keyOf_bytes, bytesOf_bytes, HostAccept.decode_encode,
    PendingJoin.decode_encode hsigner hbytes hwf.2.2.1, bind, Except.bind]

theorem exists_pendingBytes (hsigner : signer.RoundTrips)
    (entries : List (Key × PendingJoin S × HostAccept)) :
    ∃ bytes, pendingBytes signer entries = .ok bytes := by
  have hrow : ∀ entry ∈ entries, ∃ item, pendingRow signer entry = .ok item := by
    intro entry _
    obtain ⟨signerBytes, hwrite, -⟩ := hsigner entry.2.1.mlsSigner
    exact ⟨_, bind_eq_ok.mpr ⟨_, by rw [PendingJoin.encode, hwrite], rfl⟩⟩
  obtain ⟨items, hitems, -⟩ := FiniteMap.exists_mapM_eq_ok hrow
  exact ⟨_, bind_eq_ok.mpr ⟨items, hitems, rfl⟩⟩

theorem loadPending_insert (hsigner : signer.RoundTrips) (kv : Table)
    {entries : List (Key × PendingJoin S × HostAccept)} {bytes : Bytes}
    (h : pendingBytes signer entries = .ok bytes) (hfits : Fits bytes) :
    loadPending signer (kv.insert "pending_joins" bytes) = .ok entries := by
  obtain ⟨items, hitems, hbytes⟩ := bind_eq_ok.mp h
  rw [← Except.ok.inj hbytes] at hfits ⊢
  have hordered : (Value.array items).Ordered := by
    rw [Value.Ordered, itemsOrdered_iff]
    intro item hitem
    obtain ⟨entry, -, hentry⟩ := FiniteMap.exists_of_mem_mapM hitems hitem
    obtain ⟨pending, -, hrow⟩ := bind_eq_ok.mp hentry
    rw [← Except.ok.inj hrow]
    simp [Value.Ordered, itemsOrdered]
  have hwf := wf_of_ordered hordered hfits
  rw [Value.Wf, itemsWf_iff] at hwf
  rw [loadPending, AList.lookup_insert]
  exact bind_eq_ok.mpr ⟨items, arrayOf_encode hordered hfits,
    FiniteMap.mapM_of_mapM (pendingOf_pendingRow hsigner) hitems hwf.2⟩

end Pending

/-! ## Invites -/

/-- The entry `save_invites` writes. -/
def invitesBytes (invites : List GroupInvite) : Bytes :=
  Cbor.encode (.array (invites.map fun i ↦ .bytes i.encode))

/-- `save_invites`. -/
def saveInvites (kv : Table) (invites : List GroupInvite) : Table :=
  kv.insert "minted_invites" (invitesBytes invites)

/-- What the loop of `load_invites` makes of an item. -/
def inviteOf (item : Value) : Except CoreError GroupInvite := do
  let raw ← bytesOf item
  liftWire (GroupInvite.decode raw)

/-- `load_invites`. -/
def loadInvites (kv : Table) : Except CoreError (List GroupInvite) :=
  match kv.lookup "minted_invites" with
  | none => .ok []
  | some bytes => do
    let items ← arrayOf bytes
    items.mapM inviteOf

theorem loadInvites_saveInvites (kv : Table) {invites : List GroupInvite}
    (hfits : Fits (invitesBytes invites)) :
    loadInvites (saveInvites kv invites) = .ok invites := by
  have hordered : (Value.array (invites.map fun i ↦ .bytes i.encode)).Ordered := by
    rw [Value.Ordered, itemsOrdered_iff, List.forall_mem_map]
    intro invite _
    simp [Value.Ordered]
  have hinvite (invite : GroupInvite) : inviteOf (.bytes invite.encode) = .ok (id invite) := by
    change liftWire (GroupInvite.decode invite.encode) = .ok invite
    rw [GroupInvite.decode_encode]
    rfl
  have hitems := mapM_map_eq_ok fun (invite : GroupInvite) (_ : invite ∈ invites) ↦ hinvite invite
  rw [List.map_id] at hitems
  rw [loadInvites, saveInvites, AList.lookup_insert]
  exact bind_eq_ok.mpr ⟨_, arrayOf_encode hordered hfits, hitems⟩

end NemoMessenger.Client.Storage
