import NemoMessenger.Client.Endpoint
import NemoMessenger.Wire.Objects

/-!
# What the client encodes

The encodings of prekeys, proofs and discovery records, and the round trips of all the objects that
cross the wire.
-/

namespace NemoMessenger.Client

open NemoMessenger.Data NemoMessenger.Wire

open Cbor (Value)

namespace SignedPrekey

/-- `SignedPrekey::encode`. -/
def encode (blob : SignedPrekey) : Bytes :=
  Cbor.encode (.map (blob.unsignedPairs ++ [(4, .bytes blob.signature.data)]))

/-- `SignedPrekey::decode`. -/
def decode (bytes : Bytes) : Except WireError SignedPrekey := do
  match ← Cbor.decode bytes with
  | .map m => do
    let version ← Cbor.getUint m 0
    if version ≠ protocolVersion.toUInt64 then .error (.unknownVersion version)
    else do
      let identityPublicKey ← Cbor.getFixed 32 m 1
      let prekeyId ← Cbor.getUint m 2
      let libsignalPrekey ← Cbor.mapGet m 3 >>= Cbor.expectBytes
      let signature ← Cbor.getFixed 64 m 4
      .ok { identityPublicKey, prekeyId, libsignalPrekey, signature }
  | _ => .error (.cbor "prekey must be a map")

theorem decode_encode {blob : SignedPrekey} (h : blob.libsignalPrekey.length < 2 ^ 64) :
    decode blob.encode = .ok blob := by
  rw [decode, encode, Cbor.decode_encode]
  · simp [unsignedPairs, versionValue, Cbor.getFixed, Cbor.getUint, Cbor.mapGet, Cbor.mapGetOpt,
      Cbor.expectBytes, Cbor.expectUint, bind, Except.bind]
  · simpa [unsignedPairs, Value.Wf, Cbor.pairsWf, versionValue] using h

end SignedPrekey

namespace InviteeProof

/-- `InviteeProof::encode`. -/
def encode (proof : InviteeProof) : Bytes :=
  Cbor.encode (.map [(0, versionValue), (1, .bytes proof.groupId.data),
    (2, .bytes proof.pendingId.data), (3, .bytes proof.signature.data)])

/-- `InviteeProof::decode`. -/
def decode (bytes : Bytes) : Except WireError InviteeProof := do
  match ← Cbor.decode bytes with
  | .map m => do
    let version ← Cbor.getUint m 0
    if version ≠ protocolVersion.toUInt64 then .error (.unknownVersion version)
    else do
      let groupId ← Cbor.getFixed 32 m 1
      let pendingId ← Cbor.getFixed 32 m 2
      let signature ← Cbor.getFixed 64 m 3
      .ok { groupId, pendingId, signature }
  | _ => .error (.cbor "invitee-proof must be a map")

theorem decode_encode (proof : InviteeProof) : decode proof.encode = .ok proof := by
  rw [decode, encode, Cbor.decode_encode]
  · simp [versionValue, Cbor.getFixed, Cbor.getUint, Cbor.mapGet, Cbor.mapGetOpt, Cbor.expectBytes,
      Cbor.expectUint, bind, Except.bind]
  · simp [Value.Wf, Cbor.pairsWf, versionValue]

end InviteeProof

namespace Discovery

/-- `DiscoveryRecord::encode`. -/
def encode (disc : Discovery) : Bytes :=
  Cbor.encode (.map ([(0, versionValue), (1, .bytes disc.identityPublicKey.data),
    (2, .bytes disc.revocationPublicKey.data), (3, disc.binding.toCborValue)] ++
    disc.revocation.toList.map fun stmt ↦ (4, .bytes stmt.encode)))

/-- `DiscoveryRecord::decode`. -/
def decode (bytes : Bytes) : Except WireError Discovery := do
  match ← Cbor.decode bytes with
  | .map m => do
    let version ← Cbor.getUint m 0
    if version ≠ protocolVersion.toUInt64 then .error (.unknownVersion version)
    else do
      let revocation ← match Cbor.mapGetOpt m 4 with
        | some value => (Cbor.expectBytes value >>= RevocationStatement.decode).map some
        | none => .ok none
      let identityPublicKey ← Cbor.getFixed 32 m 1
      let revocationPublicKey ← Cbor.getFixed 32 m 2
      let binding ← Cbor.mapGet m 3 >>= HomeServerBinding.fromCborValue
      .ok { identityPublicKey, revocationPublicKey, binding, revocation }
  | _ => .error (.cbor "discovery must be a map")

theorem decode_encode (disc : Discovery) : decode disc.encode = .ok disc := by
  obtain ⟨identityPublicKey, revocationPublicKey, binding, revocation⟩ := disc
  have hbinding := binding.wf_toCborValue
  cases revocation with
  | none =>
    rw [decode, encode, Cbor.decode_encode]
    · simp [versionValue, Cbor.getFixed, Cbor.getUint, Cbor.mapGet, Cbor.mapGetOpt,
        Cbor.expectBytes, Cbor.expectUint, HomeServerBinding.fromCborValue_toCborValue, bind,
        Except.bind]
    · simp [Value.Wf, Cbor.pairsWf, versionValue, hbinding]
  | some stmt =>
    have hstmt : stmt.encode.length < 2 ^ 64 := by
      have hword : (Cbor.encode (.text "revoked")).length = 8 := by decide
      have hversion := Cbor.length_encode_uint_le protocolVersion.toUInt64
      have htime := Cbor.length_encode_uint_le stmt.coarseTimestamp
      have hid := Cbor.length_encode_bytes stmt.identityId (by decide) (by decide)
      have hsignature := Cbor.length_encode_bytes stmt.signature (by decide) (by decide)
      rw [RevocationStatement.encode, RevocationStatement.unsignedPairs,
        Cbor.length_encode_map (by simp) (by simp) (by simp), versionValue]
      simp only [List.cons_append, List.nil_append, List.map_cons, List.map_nil, List.sum_cons,
        List.sum_nil]
      omega
    rw [decode, encode, Cbor.decode_encode]
    · simp [versionValue, Cbor.getFixed, Cbor.getUint, Cbor.mapGet, Cbor.mapGetOpt,
        Cbor.expectBytes, Cbor.expectUint, HomeServerBinding.fromCborValue_toCborValue,
        RevocationStatement.decode_encode, Except.map, bind, Except.bind]
    · simpa [Value.Wf, Cbor.pairsWf, versionValue, hbinding] using hstmt

end Discovery

/-! ## Round trips -/

/-- The lengths of an authorisation are `usize`s. -/
def AuthSized (auth : MailboxOwnerAuth) : Prop :=
  auth.mailboxHint.length < 2 ^ 64 ∧ auth.scope.method.utf8ByteSize < 2 ^ 64 ∧
    auth.scope.path.utf8ByteSize < 2 ^ 64

/-- Every object that crosses the wire is read back as it was written. The time to live of a
reservation is one of the four buckets. -/
theorem decode_encode_wire :
    (∀ bundle : RemoveBundle, bundle.mlsCommit.length < 2 ^ 32 → ∃ body,
        bundle.encode = .ok body ∧ ∀ zeros, RemoveBundle.decode (body ++ .replicate zeros 0) =
          .ok bundle) ∧
      (∀ (replace : SigningKeyReplace) zeros,
        SigningKeyReplace.decode (replace.encode ++ .replicate zeros 0) = .ok replace) ∧
      (∀ reserve : AttachmentReserve, reserve.ttlBucket.bucket ≤ 3 → ∀ zeros,
        AttachmentReserve.decode (reserve.encode ++ .replicate zeros 0) = .ok reserve) ∧
      (∀ auth : MailboxOwnerAuth, AuthSized auth →
        MailboxOwnerAuth.decode auth.encode = .ok auth) ∧
      (∀ bundle : ServerBundle, ServerBundle.decode bundle.encode = .ok bundle) ∧
      (∀ frame : S2sFrame, frame.counter < 2 ^ 64 → frame.payload.length < 2 ^ 32 → ∃ bytes,
        frame.encode = .ok bytes ∧ S2sFrame.decode bytes = .ok frame) ∧
      (∀ sender receiver, parsePayload (helloPayload sender receiver) =
        .ok (.hello sender receiver)) ∧
      (∀ seq : UInt64, parsePayload (okPayload seq.toNat) = .ok (.ok seq)) ∧
      parsePayload failPayload = .ok .fail ∧
      (∀ invite : GroupInvite, GroupInvite.decode invite.encode = .ok invite) ∧
      (∀ admission : GroupAdmit, GroupAdmit.decode admission.encode = .ok admission) ∧
      (∀ proof : InviteeProof, InviteeProof.decode proof.encode = .ok proof) ∧
      (∀ blob : SignedPrekey, blob.libsignalPrekey.length < 2 ^ 64 →
        SignedPrekey.decode blob.encode = .ok blob) ∧
      (∀ stmt : RevocationStatement, RevocationStatement.decode stmt.encode = .ok stmt) ∧
      (∀ disc : Discovery, Discovery.decode disc.encode = .ok disc) ∧
      (∀ binding : HomeServerBinding, (Cbor.decode (Cbor.encode binding.toCborValue) >>=
        HomeServerBinding.fromCborValue) = .ok binding) ∧
      (∀ (card : ContactCard) bytes, card.encode = .ok bytes →
        ContactCard.decode bytes = .ok card) ∧
      (∀ card : ContactCard, validateHost card.binding.host = .ok () → ∃ bytes,
        card.encode = .ok bytes ∧ bytes.length ≤ cardMaxBytes) ∧
      ∀ base64 : Base64, (∀ bytes, base64.decode (base64.encode bytes) = some bytes) →
        ∀ (card : ContactCard) uri, card.toUri base64 = .ok uri →
          ContactCard.fromUri base64 uri = .ok card := by
  refine ⟨fun bundle hlength ↦ ?_, fun replace zeros ↦ replace.decode_append _, ?_,
    fun auth h ↦ MailboxOwnerAuth.decode_encode h.1 h.2.1 h.2.2, ServerBundle.decode_encode,
    fun frame hcounter hlength ↦ ?_, parsePayload_helloPayload, fun seq ↦ ?_,
    parsePayload_failPayload, GroupInvite.decode_encode, GroupAdmit.decode_encode,
    InviteeProof.decode_encode, fun blob ↦ SignedPrekey.decode_encode,
    RevocationStatement.decode_encode, Discovery.decode_encode,
    fun binding ↦ ?_, fun card bytes ↦ ContactCard.decode_encode, fun card h ↦ ?_,
    fun base64 hbase64 card uri ↦ ContactCard.fromUri_toUri hbase64⟩
  · exact ⟨_, if_pos hlength, fun zeros ↦ RemoveBundle.decode_append (if_pos hlength) _⟩
  · intro reserve httl zeros
    rw [AttachmentReserve.decode_append, TtlBucket.fromU8, if_pos httl]
    rfl
  · exact ⟨_, if_pos hlength, S2sFrame.decode_encode hcounter (if_pos hlength)⟩
  · rw [parsePayload_okPayload, UInt64.ofNat_toNat]
  · rw [Cbor.decode_encode binding.wf_toCborValue]
    exact binding.fromCborValue_toCborValue
  · obtain ⟨bytes, hbytes⟩ := ContactCard.exists_encode h
    refine ⟨bytes, hbytes, ?_⟩
    unfold ContactCard.encode at hbytes
    dsimp only at hbytes
    split_ifs at hbytes with hlength
    cases hbytes
    exact not_lt.mp hlength

/-- A card with a short host. -/
def shortCard : ContactCard where
  identityPublicKey := .replicate 32 1
  revocationPublicKey := .replicate 32 2
  shareToken := .replicate 32 3
  binding :=
    { serverId := .replicate 32 4, serverHpkePublicKey := .replicate 32 5,
      host := ⟨"nemo.example", by decide⟩, seq := 1, expiresAt := 1700003600,
      signature := .replicate 64 6 }

theorem decode_encode_wire_short :
    AttachmentReserve.decode (AttachmentReserve.encode ⟨.replicate 32 9, .a2, ⟨3⟩⟩ ++
        .replicate 5 0) = .ok ⟨.replicate 32 9, .a2, ⟨3⟩⟩ ∧
      ∃ uri, shortCard.toUri .urlSafe = .ok uri ∧
        ContactCard.fromUri .urlSafe uri = .ok shortCard := by
  refine ⟨decode_encode_wire.2.2.1 _ (by decide) 5, ?_⟩
  obtain ⟨bytes, hbytes⟩ := @ContactCard.exists_encode shortCard rfl
  have huri : shortCard.toUri .urlSafe = .ok (uriPrefix ++ Base64.urlSafe.encode bytes) :=
    bind_eq_ok.mpr ⟨bytes, hbytes, rfl⟩
  obtain ⟨-, -, -, -, -, -, -, -, -, -, -, -, -, -, -, -, -, -, hfromUri⟩ := decode_encode_wire
  exact ⟨_, huri, hfromUri .urlSafe Base64.urlSafe_roundtrip _ _ huri⟩

/-- A reservation with a time to live the type allows and the reader does not. -/
theorem attachmentReserve_not_read_back :
    ¬∀ (reserve : AttachmentReserve) zeros,
      AttachmentReserve.decode (reserve.encode ++ .replicate zeros 0) = .ok reserve := by
  intro h
  have hreserve := h ⟨.replicate 32 9, .a2, ⟨7⟩⟩ 0
  rw [AttachmentReserve.decode_append] at hreserve
  cases hreserve

end NemoMessenger.Client
