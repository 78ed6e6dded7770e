import NemoMessenger.Wire.Envelope

/-!
# What becomes of padding

The reader of an envelope looks at the padding of a text, to find the bucket of its message, and not
at the padding of an attachment. An envelope it accepts is the encoding of what it yields unless it
has the length of an attachment and a byte behind the message that is not zero. An outer envelope
has no padding, and is always the encoding of what is read from it.
-/

namespace NemoMessenger.Wire

namespace InnerEnvelope

/-- The bucket of the message in an envelope with the length of an attachment. -/
def attachmentBucket (total : ℕ) : Option ℕ :=
  if total = a1Outer then some a1
  else if total = a2Outer then some a2
  else if total = a3Outer then some a3
  else if total = a4Outer then some a4
  else none

/-- In an envelope with the length of an attachment, all bytes behind the message are zero. -/
def ZeroPadded (bytes : Bytes) : Prop :=
  ∀ n ∈ attachmentBucket bytes.length, (bytes.drop (headerLen + n)).all (· == 0) = true

/-- A text has nothing but zeros behind its bucket, and an attachment is in the bucket its length
asks for. -/
theorem zeroPadded_iff {bytes : Bytes} {n : ℕ}
    (h : innerLenOf bytes.length (bytes.drop headerLen) = .ok n) :
    ZeroPadded bytes ↔ ((bytes.drop headerLen).drop n).all (· == 0) = true := by
  unfold innerLenOf at h
  unfold ZeroPadded
  rw [List.drop_drop]
  split_ifs at h with htext h1 h2 h3 h4
  · split at h
    · cases h
    · rename_i m hfind
      cases h
      have hbehind := List.find?_some hfind
      rw [onlyZerosBehind, Bool.and_eq_true, List.drop_drop] at hbehind
      have hnone : attachmentBucket bytes.length = none := by
        rw [htext]
        rfl
      rw [hnone]
      exact iff_of_true (by simp) hbehind.2
  all_goals
    cases h
    simp_all [attachmentBucket, a1Outer, a2Outer, a3Outer, a4Outer]

/-- A decoded envelope has its header and its message from the bytes, in this order. -/
theorem parts_of_decodePadded {bytes : Bytes} {inner : InnerEnvelope}
    (h : decodePadded bytes = .ok inner) : inner.header ++ bytes.drop headerLen = bytes ∧
      decodeMessage bytes.length (bytes.drop headerLen) = .ok inner.paddedMessage := by
  unfold decodePadded at h
  split_ifs at h with hlength hversion
  obtain ⟨capability, hcapability, h⟩ := bind_eq_ok.mp h
  obtain ⟨ttl, httl, h⟩ := bind_eq_ok.mp h
  obtain ⟨token, htoken, h⟩ := bind_eq_ok.mp h
  obtain ⟨message, hmessage, h⟩ := bind_eq_ok.mp h
  cases h
  refine ⟨?_, hmessage⟩
  rw [headerLen] at hlength
  have hfirst : bytes = protocolVersion :: bytes.drop 1 := by
    cases bytes with
    | nil => simp at hlength
    | cons byte bytes =>
      rw [not_not, List.headD_cons] at hversion
      rw [hversion, List.drop_one, List.tail_cons]
  have hbehind : bytes.drop 33 = ttl.bucket :: bytes.drop 34 := by
    have hlt : 33 < bytes.length := by omega
    rw [List.drop_eq_getElem_cons hlt, TtlBucket.bucket_of_fromU8 httl,
      List.getD_eq_getElem?_getD, List.getElem?_eq_getElem hlt, Option.getD_some]
  have hsplit : bytes.drop 1 = (bytes.drop 1).take 32 ++ bytes.drop 33 := by
    rw [← @List.drop_drop _ 32 1, List.take_append_drop]
  symm
  calc bytes = protocolVersion :: bytes.drop 1 := hfirst
    _ = protocolVersion :: ((bytes.drop 1).take 32 ++ bytes.drop 33) := by
      rw [← hsplit]
    _ = protocolVersion :: (capability.data ++ ttl.bucket :: bytes.drop 34) := by
      rw [hbehind, copyFixed_eq_ok hcapability]
    _ = protocolVersion :: (capability.data ++ ttl.bucket :: (token.data ++ bytes.drop 66)) := by
      rw [copyFixed_eq_ok htoken, ← @List.drop_drop _ 32 34, List.take_append_drop]
    _ = _ := by simp [header, headerLen]

/-- An envelope that is accepted is the encoding of what it decodes to exactly when it is padded
with zeros. -/
theorem encodePadded_iff_zeroPadded {bytes : Bytes} {inner : InnerEnvelope}
    (h : decodePadded bytes = .ok inner) :
    inner.encodePadded = .ok bytes ↔ ZeroPadded bytes := by
  obtain ⟨hbytes, hmessage⟩ := parts_of_decodePadded h
  obtain ⟨n, hn, hmessage⟩ := bind_eq_ok.mp hmessage
  split_ifs at hmessage with hshort
  obtain ⟨hcanonical, hencode⟩ := PaddedMessage.canonical_of_decode hmessage
  obtain rfl : inner.paddedMessage.innerLen = n := by
    rw [← inner.paddedMessage.length_encode, hencode, List.length_take_of_le (not_lt.mp hshort)]
  rw [zeroPadded_iff hn]
  generalize bytes.drop headerLen = rest at *
  subst hbytes
  have houter : inner.outerLen = headerLen + rest.length := by
    rw [outerLen_of_innerLenOf hcanonical hn, List.length_append, length_header]
  have hout : (inner.header ++ inner.paddedMessage.encode).length =
      headerLen + inner.paddedMessage.innerLen := by
    rw [List.length_append, length_header, inner.paddedMessage.length_encode]
  have hfilled : inner.encodePadded = .ok (inner.header ++
      (rest.take inner.paddedMessage.innerLen ++
        List.replicate (rest.length - inner.paddedMessage.innerLen) 0)) := by
    unfold encodePadded
    dsimp only
    rw [if_neg (by omega), houter, resize, List.take_of_length_le (by omega), hout, hencode,
      Nat.add_sub_add_left, List.append_assoc]
  rw [hfilled, Except.ok.injEq, List.append_cancel_left_eq]
  calc rest.take inner.paddedMessage.innerLen ++
        List.replicate (rest.length - inner.paddedMessage.innerLen) 0 = rest ↔
      rest.take inner.paddedMessage.innerLen ++
        List.replicate (rest.length - inner.paddedMessage.innerLen) 0 =
      rest.take inner.paddedMessage.innerLen ++ rest.drop inner.paddedMessage.innerLen := by
        rw [List.take_append_drop]
    _ ↔ rest.drop inner.paddedMessage.innerLen =
      List.replicate (rest.drop inner.paddedMessage.innerLen).length 0 := by
        rw [List.append_cancel_left_eq, List.length_drop, eq_comm]
    _ ↔ (rest.drop inner.paddedMessage.innerLen).all (· == 0) = true := by
        simp [List.eq_replicate_iff]

end InnerEnvelope

namespace OuterEnvelope

/-- What is read from an outer envelope is all of it. -/
theorem encode_of_decode {bytes : Bytes} {outer : OuterEnvelope} (h : decode bytes = .ok outer) :
    outer.encode = bytes := by
  unfold decode at h
  split_ifs at h with hlength hversion
  obtain ⟨destination, hdestination, h⟩ := bind_eq_ok.mp h
  dsimp only at h
  split_ifs at h with hcount
  cases h
  rw [not_not] at hcount
  have hfirst : bytes = protocolVersion :: bytes.drop 1 := by
    cases bytes with
    | nil => simp at hlength
    | cons byte bytes =>
      rw [not_not, List.headD_cons] at hversion
      rw [hversion, List.drop_one, List.tail_cons]
  have hlength4 : ((bytes.drop 33).take 4).length = 4 := by
    rw [List.length_take_of_le]
    rw [List.length_drop]
    omega
  have hcipher : toBeBytes 4 (bytes.drop 37).length = (bytes.drop 33).take 4 := by
    have hbytes := toBeBytes_fromBeBytes ((bytes.drop 33).take 4)
    rw [hlength4] at hbytes
    rw [hcount, hbytes]
  have hsplit : bytes.drop 1 = (bytes.drop 1).take 32 ++ bytes.drop 33 := by
    rw [← @List.drop_drop _ 32 1, List.take_append_drop]
  symm
  calc bytes = protocolVersion :: bytes.drop 1 := hfirst
    _ = protocolVersion :: ((bytes.drop 1).take 32 ++ bytes.drop 33) := by rw [← hsplit]
    _ = protocolVersion :: (destination.data ++
        ((bytes.drop 33).take 4 ++ bytes.drop 37)) := by
      rw [copyFixed_eq_ok hdestination, ← @List.drop_drop _ 4 33, List.take_append_drop]
    _ = encode ⟨destination, bytes.drop 37⟩ := by rw [encode, hcipher]

end OuterEnvelope

open InnerEnvelope in
/-- An inner envelope that is accepted is the encoding of what it decodes to exactly when an
attachment has nothing but zeros behind its message, and an outer envelope always is. -/
theorem strict_iff_zeroPadded (bytes : Bytes) :
    (∀ inner, decodePadded bytes = .ok inner →
        (inner.encodePadded = .ok bytes ↔ ZeroPadded bytes)) ∧
      ∀ outer, OuterEnvelope.decode bytes = .ok outer → outer.encode = bytes :=
  ⟨fun _ ↦ encodePadded_iff_zeroPadded, fun _ ↦ OuterEnvelope.encode_of_decode⟩

open InnerEnvelope in
theorem strict_iff_zeroPadded_blank : ∃ bytes,
    decodePadded bytes = .ok (blank (.replicate 32 1) (.replicate 32 2)) ∧
      ((blank (.replicate 32 1) (.replicate 32 2)).encodePadded = .ok bytes ↔
        ZeroPadded bytes) := by
  obtain ⟨bytes, -, -, hdecode⟩ :=
    decodePadded_encodePadded (canonical_blank (.replicate 32 1) (.replicate 32 2))
  exact ⟨bytes, hdecode, (strict_iff_zeroPadded bytes).1 _ hdecode⟩

namespace InnerEnvelope

/-- An envelope around an attachment of the smallest bucket. -/
def attachment : InnerEnvelope where
  deliveryCapability := .replicate 32 1
  ttlBucket := .default
  idempotencyToken := .replicate 32 2
  paddedMessage := ⟨.attachmentDr, List.replicate (a1 - 2) 0, a1⟩

theorem length_body_attachment : attachment.paddedMessage.body.length = a1 - 2 :=
  List.length_replicate

theorem canonical_attachment : attachment.paddedMessage.Canonical where
  length_body := by
    rw [length_body_attachment]
    rfl
  innerLen_mem := by decide

/-- Its bytes, with other padding. -/
def attachmentOnes : Bytes :=
  attachment.header ++ (attachment.paddedMessage.encode ++ List.replicate 4030 1)

theorem decodeMessage_a1Outer {rest : Bytes} (h : a1 ≤ rest.length) :
    decodeMessage a1Outer rest = PaddedMessage.decode (rest.take a1) :=
  if_neg (Nat.not_lt.mpr h)

theorem decodePadded_attachmentOnes : decodePadded attachmentOnes = .ok attachment := by
  have hencode := attachment.paddedMessage.length_encode
  have hlength : (attachment.paddedMessage.encode ++ List.replicate 4030 (1 : UInt8)).length =
      a1Outer - headerLen := by
    rw [List.length_append, hencode, List.length_replicate]
    rfl
  have hmessage : decodeMessage a1Outer
      (attachment.paddedMessage.encode ++ List.replicate 4030 1) =
        .ok attachment.paddedMessage := by
    have htake : (attachment.paddedMessage.encode ++ List.replicate 4030 1).take a1 =
        attachment.paddedMessage.encode := List.take_left' hencode
    rw [decodeMessage_a1Outer (by rw [hlength]; decide), htake,
      PaddedMessage.decode_encode canonical_attachment]
  rw [attachmentOnes, decodePadded_header_append _ (by rw [hlength]; decide), hlength,
    show headerLen + (a1Outer - headerLen) = a1Outer from rfl, hmessage]
  rfl

/-- An attachment may be padded with anything. -/
theorem decodePadded_accepts_ones :
    ¬∀ bytes inner, decodePadded bytes = .ok inner → inner.encodePadded = .ok bytes := by
  intro h
  have hzero := (encodePadded_iff_zeroPadded decodePadded_attachmentOnes).mp
    (h _ _ decodePadded_attachmentOnes)
  have hlength : attachmentOnes.length = a1Outer := by
    rw [attachmentOnes, List.length_append, List.length_append, length_header,
      PaddedMessage.length_encode, List.length_replicate]
    rfl
  have hdrop : attachmentOnes.drop (headerLen + a1) = List.replicate 4030 1 := by
    have hencode : attachment.paddedMessage.encode.length = a1 :=
      attachment.paddedMessage.length_encode
    rw [attachmentOnes, ← List.drop_drop, List.drop_left' attachment.length_header,
      List.drop_left' hencode]
  have hall := hzero a1 (by rw [hlength]; rfl)
  rw [hdrop, List.all_eq_true] at hall
  exact absurd (hall 1 (List.mem_replicate.mpr ⟨by decide, rfl⟩)) (by decide)

end InnerEnvelope

end NemoMessenger.Wire
