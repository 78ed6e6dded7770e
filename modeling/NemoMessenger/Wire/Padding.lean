import NemoMessenger.Wire.Envelope

/-!
# Bodies in transport

An envelope does not say which bucket its message was padded to. The reader takes the first text
bucket that has nothing but zeros behind it, and this is the bucket of the sender only if the body
itself puts a byte behind every smaller one.
-/

namespace NemoMessenger.Wire

namespace PaddedMessage

/-- The message as `decode` reads it: the padding is part of the body. -/
def filled (message : PaddedMessage) : PaddedMessage where
  type := message.type
  body := message.body ++ List.replicate (message.innerLen - (2 + message.body.length)) 0
  innerLen := message.innerLen

/-- The body has a byte that is not zero behind every smaller text bucket. -/
def Occupies (message : PaddedMessage) : Prop :=
  message.type.isAttachment = false → ∀ n ∈ textInner, n < message.innerLen →
    ∃ byte ∈ message.body.drop (n - 2), byte ≠ 0

theorem pad_spec {type : MessageType} {body : Bytes} {message : PaddedMessage}
    (h : pad type body = .ok message) :
    message.type = type ∧ message.body = body ∧ message.innerLen ∈ innerBuckets type ∧
      2 + body.length ≤ message.innerLen := by
  unfold pad at h
  split at h
  · cases h
  · rename_i innerLen hfind
    cases h
    exact ⟨rfl, rfl, List.mem_of_find?_eq_some hfind, by simpa using List.find?_some hfind⟩

theorem encode_eq {message : PaddedMessage} (hfits : 2 + message.body.length ≤ message.innerLen) :
    message.encode = protocolVersion :: message.type.toU8 :: message.filled.body := by
  have hlen : (protocolVersion :: message.type.toU8 :: message.body).length =
      2 + message.body.length := by
    simp only [List.length_cons]
    omega
  rw [encode, resize, hlen, List.take_of_length_le (hlen.trans_le hfits)]
  rfl

theorem encode_filled {message : PaddedMessage}
    (hfits : 2 + message.body.length ≤ message.innerLen) :
    message.filled.encode = message.encode := by
  have hlen : message.filled.body.length + 2 = message.filled.innerLen := by
    simp only [filled, List.length_append, List.length_replicate]
    omega
  rw [encode_eq hfits, encode, resize_of_length_eq (by simpa using hlen)]
  rfl

theorem canonical_filled {message : PaddedMessage}
    (hfits : 2 + message.body.length ≤ message.innerLen)
    (hbucket : message.innerLen ∈ innerBuckets message.type) : message.filled.Canonical where
  length_body := by
    simp only [filled, List.length_append, List.length_replicate]
    omega
  innerLen_mem := hbucket

/-- Behind a bucket lies the end of the body, and then the padding. -/
theorem drop_encode {message : PaddedMessage} (hfits : 2 + message.body.length ≤ message.innerLen)
    {n : ℕ} (hn : 2 ≤ n) :
    (message.encode.drop n).all (· == 0) = (message.body.drop (n - 2)).all (· == 0) := by
  obtain ⟨k, rfl⟩ := Nat.exists_eq_add_of_le' hn
  rw [encode_eq hfits, filled, List.drop_succ_cons, List.drop_succ_cons, List.drop_append,
    List.all_append, List.drop_replicate, Nat.add_sub_cancel]
  simp

end PaddedMessage

namespace InnerEnvelope

variable {inner : InnerEnvelope} {type : MessageType} {body : Bytes} {message : PaddedMessage}

/-- Transport returns the header, the type, the bucket and the body with zeros behind it. -/
def Survives (inner : InnerEnvelope) : Prop :=
  ∃ bytes decoded, inner.encodePadded = .ok bytes ∧ decodePadded bytes = .ok decoded ∧
    decoded.deliveryCapability = inner.deliveryCapability ∧ decoded.ttlBucket = inner.ttlBucket ∧
    decoded.idempotencyToken = inner.idempotencyToken ∧
    decoded.paddedMessage.type = inner.paddedMessage.type ∧
    decoded.paddedMessage.innerLen = inner.paddedMessage.innerLen ∧
    ∃ zeros, decoded.paddedMessage.body = inner.paddedMessage.body ++ List.replicate zeros 0

theorem two_le_of_mem_textInner {n : ℕ} (hn : n ∈ textInner) : 2 ≤ n := by
  have hbuckets : ∀ n ∈ textInner, 2 ≤ n := by decide
  exact hbuckets n hn

/-- What survives has a known expiry bucket and reaches past every smaller text bucket. -/
theorem Survives.occupies (h : inner.Survives) :
    inner.ttlBucket.bucket ≤ 3 ∧ inner.paddedMessage.Occupies := by
  obtain ⟨bytes, decoded, hencode, hdecode, -, httl, -, htype, hlen, zeros, hbody⟩ := h
  have hcanonical := canonical_of_decodePadded hdecode
  refine ⟨?_, fun htext n hn hlt ↦ ?_⟩
  · have hvalid := hcanonical.ttl
    rw [httl] at hvalid
    unfold TtlBucket.fromU8 at hvalid
    split at hvalid
    · assumption
    · cases hvalid
  · have hlength := hcanonical.message.length_body
    have hminimal := hcanonical.minimal (htype ▸ htext) n hn (hlen ▸ hlt)
    rw [PaddedMessage.drop_encode (by omega) (two_le_of_mem_textInner hn), hbody, List.drop_append,
      List.all_append, List.drop_replicate] at hminimal
    simpa using hminimal

theorem survives_of_occupies
    (hfits : 2 + inner.paddedMessage.body.length ≤ inner.paddedMessage.innerLen)
    (hbucket : inner.paddedMessage.innerLen ∈ innerBuckets inner.paddedMessage.type)
    (httl : inner.ttlBucket.bucket ≤ 3) (hoccupies : inner.paddedMessage.Occupies) :
    inner.Survives := by
  set filled : InnerEnvelope := { inner with paddedMessage := inner.paddedMessage.filled } with hfilled
  have hcanonical : filled.Canonical := by
    refine ⟨if_pos httl, PaddedMessage.canonical_filled hfits hbucket, fun htext n hn hlt ↦ ?_⟩
    rw [hfilled, PaddedMessage.encode_filled hfits,
      PaddedMessage.drop_encode hfits (two_le_of_mem_textInner hn)]
    simpa using hoccupies htext n hn hlt
  obtain ⟨bytes, hencode, -, hdecode⟩ := decodePadded_encodePadded hcanonical
  have hsame : inner.encodePadded = filled.encodePadded := by
    unfold encodePadded
    dsimp only [hfilled]
    rw [PaddedMessage.encode_filled hfits]
    rfl
  exact ⟨bytes, filled, hsame.trans hencode, hdecode, rfl, rfl, rfl, rfl, rfl, _, rfl⟩

/-- A body is read back as it was sent, with the padding behind it, exactly when the expiry bucket is
one of the four and the body reaches past every smaller text bucket. -/
theorem survives_iff (hpad : PaddedMessage.pad type body = .ok message) (deliveryCapability : Key)
    (ttlBucket : TtlBucket) (idempotencyToken : Key) :
    Survives ⟨deliveryCapability, ttlBucket, idempotencyToken, message⟩ ↔
      ttlBucket.bucket ≤ 3 ∧ message.Occupies := by
  obtain ⟨rfl, rfl, hbucket, hfits⟩ := PaddedMessage.pad_spec hpad
  constructor
  · exact Survives.occupies
  · rintro ⟨httl, hoccupies⟩
    exact survives_of_occupies hfits hbucket httl hoccupies

set_option maxRecDepth 100000 in
/-- A body of 1101 bytes survives in the second bucket, also with a zero at its end. -/
theorem survives_long : Survives ⟨.replicate 32 1, .default, .replicate 32 2,
    ⟨.doubleRatchet, List.replicate 1100 1 ++ [0], t2⟩⟩ := by
  have hpad : PaddedMessage.pad .doubleRatchet (List.replicate 1100 1 ++ [0]) =
      .ok ⟨.doubleRatchet, List.replicate 1100 1 ++ [0], t2⟩ := rfl
  have hreaches : ∀ n ∈ textInner, n < t2 →
      ∃ byte ∈ (List.replicate 1100 (1 : UInt8) ++ [0]).drop (n - 2), byte ≠ 0 := by decide +kernel
  exact (survives_iff hpad (.replicate 32 1) .default (.replicate 32 2)).mpr
    ⟨by decide, fun _ ↦ hreaches⟩

set_option maxRecDepth 100000 in
/-- A body of 1100 bytes with nothing but zeros behind the first comes out in the smallest bucket,
cut off. -/
theorem not_survives_zeros :
    let body : Bytes := 1 :: List.replicate 1099 0
    (PaddedMessage.pad .doubleRatchet body).toOption = some ⟨.doubleRatchet, body, t2⟩ ∧
      ¬ Survives ⟨.replicate 32 1, .default, .replicate 32 2, ⟨.doubleRatchet, body, t2⟩⟩ := by
  intro body
  refine ⟨by decide +kernel, fun h ↦ ?_⟩
  obtain ⟨byte, hbyte, hne⟩ := h.occupies.2 rfl t1 List.mem_cons_self (by decide)
  have hzeros : ∀ byte ∈ body.drop (t1 - 2), byte = 0 := by decide +kernel
  exact hne (hzeros byte hbyte)

end InnerEnvelope

end NemoMessenger.Wire
