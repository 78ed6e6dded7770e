import NemoMessenger.Wire.Bytes

/-!
# Padded envelopes

The inner envelope a home server stores and the outer envelope that carries it, sealed, to another
server. Messages are padded to one of a few buckets. `decodePadded` recovers the bucket from the
length of its input and, for text, from the zeros behind the message, so the envelopes it yields
have a particular shape. `Canonical` states that shape, and on it `decodePadded` undoes
`encodePadded`.
-/

namespace NemoMessenger.Wire

/-! ## Messages -/

/-- `MessageType`. -/
inductive MessageType
  | doubleRatchet
  | mlsApp
  | attachmentDr
  | removeBundle
  | signingKeyReplace
  | attachmentReserve
  | revocationStatement
  | mlsHandshake
  deriving DecidableEq, Repr

namespace MessageType

/-- The `repr(u8)` discriminants. -/
def toU8 : MessageType → UInt8
  | doubleRatchet => 0x01
  | mlsApp => 0x02
  | attachmentDr => 0x03
  | removeBundle => 0x10
  | signingKeyReplace => 0x11
  | attachmentReserve => 0x12
  | revocationStatement => 0x13
  | mlsHandshake => 0x14

/-- `MessageType::from_u8`. -/
def fromU8 (v : UInt8) : Except WireError MessageType :=
  if v = 0x01 then .ok doubleRatchet
  else if v = 0x02 then .ok mlsApp
  else if v = 0x03 then .ok attachmentDr
  else if v = 0x10 then .ok removeBundle
  else if v = 0x11 then .ok signingKeyReplace
  else if v = 0x12 then .ok attachmentReserve
  else if v = 0x13 then .ok revocationStatement
  else if v = 0x14 then .ok mlsHandshake
  else .error (.unknownMessageType v)

@[simp] theorem fromU8_toU8 (type : MessageType) : fromU8 type.toU8 = .ok type := by
  cases type <;> rfl

theorem toU8_of_fromU8 {v : UInt8} {type : MessageType} (h : fromU8 v = .ok type) :
    type.toU8 = v := by
  unfold fromU8 at h
  split_ifs at h <;> cases h <;> simp_all [toU8]

/-- `is_attachment`. -/
def isAttachment (type : MessageType) : Bool := type == attachmentDr

end MessageType

/-- `TtlBucket`. -/
structure TtlBucket where
  bucket : UInt8
  deriving DecidableEq, Repr

namespace TtlBucket

/-- `TtlBucket::DEFAULT`. -/
def default : TtlBucket := ⟨0⟩

/-- `TtlBucket::from_u8`. -/
def fromU8 (v : UInt8) : Except WireError TtlBucket :=
  if v ≤ 3 then .ok ⟨v⟩ else .error (.unknownTtl v)

/-- `ttl_secs`. -/
def ttlSecs (ttl : TtlBucket) : Option ℕ :=
  if ttl.bucket = 1 then some 60
  else if ttl.bucket = 2 then some 3600
  else if ttl.bucket = 3 then some 86400
  else none

theorem fromU8_eq_ok {v : UInt8} {ttl : TtlBucket} (h : fromU8 v = .ok ttl) :
    fromU8 ttl.bucket = .ok ttl := by
  unfold fromU8 at h ⊢
  split at h
  · cases h
    rwa [if_pos]
  · cases h

theorem bucket_of_fromU8 {v : UInt8} {ttl : TtlBucket} (h : fromU8 v = .ok ttl) :
    ttl.bucket = v := by
  unfold fromU8 at h
  split_ifs at h
  cases h
  rfl

theorem ttlSecs_pos {ttl : TtlBucket} {secs : ℕ} (h : ttl.ttlSecs = some secs) : 0 < secs := by
  unfold ttlSecs at h
  split_ifs at h <;> simp_all <;> omega

end TtlBucket

/-! ## Padding buckets -/

/-- `T1`. -/
def t1 : ℕ := 1024

/-- `T2`. -/
def t2 : ℕ := 4096

/-- `T3`. -/
def t3 : ℕ := 16384

/-- `A1`. -/
def a1 : ℕ := 262144

/-- `A2`. -/
def a2 : ℕ := 1048576

/-- `A3`. -/
def a3 : ℕ := 4194304

/-- `A4`. -/
def a4 : ℕ := 16777216

/-- `INNER_TEXT_OUTER`. -/
def innerTextOuter : ℕ := 20480

/-- `A1_OUTER`. -/
def a1Outer : ℕ := 266240

/-- `A2_OUTER`. -/
def a2Outer : ℕ := 1052672

/-- `A3_OUTER`. -/
def a3Outer : ℕ := 4202496

/-- `A4_OUTER`. -/
def a4Outer : ℕ := 16781312

/-- `TEXT_INNER`. -/
def textInner : List ℕ := [t1, t2, t3]

/-- `ATTACH_INNER`. -/
def attachInner : List ℕ := [a1, a2, a3, a4]

/-- The inner buckets a message type may use. -/
def innerBuckets (type : MessageType) : List ℕ :=
  if type.isAttachment then attachInner else textInner

/-- `Vec::resize` with zeros. -/
def resize (bytes : Bytes) (n : ℕ) : Bytes := bytes.take n ++ List.replicate (n - bytes.length) 0

@[simp] theorem length_resize (bytes : Bytes) (n : ℕ) : (resize bytes n).length = n := by
  simp [resize]
  omega

theorem resize_of_length_eq {bytes : Bytes} {n : ℕ} (h : bytes.length = n) :
    resize bytes n = bytes := by
  simp [resize, h.symm]

/-- `PaddedMessage`. -/
structure PaddedMessage where
  type : MessageType
  body : Bytes
  innerLen : ℕ
  deriving DecidableEq

namespace PaddedMessage

/-- `PaddedMessage::pad`. -/
def pad (type : MessageType) (body : Bytes) : Except WireError PaddedMessage :=
  match (innerBuckets type).find? fun bucket ↦ bucket ≥ 2 + body.length with
  | none => .error .noBucket
  | some innerLen => .ok ⟨type, body, innerLen⟩

/-- `PaddedMessage::encode`. -/
def encode (message : PaddedMessage) : Bytes :=
  resize (protocolVersion :: message.type.toU8 :: message.body) message.innerLen

/-- `PaddedMessage::decode`. -/
def decode : Bytes → Except WireError PaddedMessage
  | version :: typeByte :: body =>
    if version ≠ protocolVersion then .error (.unknownVersion version.toUInt64)
    else do
      let type ← MessageType.fromU8 typeByte
      if body.length + 2 ∈ innerBuckets type then .ok ⟨type, body, body.length + 2⟩
      else .error .badEnvelope
  | _ => .error .badEnvelope

/-- The messages `decode` yields: a body that fills one of the buckets of its type. -/
structure Canonical (message : PaddedMessage) : Prop where
  length_body : message.body.length + 2 = message.innerLen
  innerLen_mem : message.innerLen ∈ innerBuckets message.type

theorem encode_of_canonical {message : PaddedMessage} (h : message.Canonical) :
    message.encode = protocolVersion :: message.type.toU8 :: message.body :=
  resize_of_length_eq h.length_body

theorem length_encode (message : PaddedMessage) : message.encode.length = message.innerLen :=
  length_resize _ _

/-- What `decode` accepts is canonical, and is the encoding of what it yields. -/
theorem canonical_of_decode {bytes : Bytes} {message : PaddedMessage}
    (h : decode bytes = .ok message) : message.Canonical ∧ message.encode = bytes := by
  unfold decode at h
  split at h
  · split at h
    · cases h
    · rename_i version typeByte body hversion
      obtain ⟨type, htype, h⟩ := bind_eq_ok.mp h
      split at h
      · rename_i hmem
        cases h
        have hcanonical : Canonical ⟨type, body, body.length + 2⟩ := ⟨rfl, hmem⟩
        refine ⟨hcanonical, ?_⟩
        rw [encode_of_canonical hcanonical, MessageType.toU8_of_fromU8 htype, not_not.mp hversion]
      · cases h
  · cases h

theorem decode_encode {message : PaddedMessage} (h : message.Canonical) :
    decode message.encode = .ok message := by
  rw [encode_of_canonical h, decode, if_neg (by simp), MessageType.fromU8_toU8]
  simp [bind, Except.bind, h.length_body, h.innerLen_mem]

/-- A message that is not an attachment can be padded when its body fits the largest text bucket. -/
theorem exists_pad_iff {type : MessageType} (htype : type.isAttachment = false) (body : Bytes) :
    (∃ message, pad type body = .ok message) ↔ 2 + body.length ≤ t3 := by
  have hfind : (∃ bucket, textInner.find? (fun bucket ↦ bucket ≥ 2 + body.length) = some bucket) ↔
      2 + body.length ≤ t3 := by
    rw [← Option.isSome_iff_exists, List.find?_isSome]
    simp only [textInner, List.mem_cons, List.not_mem_nil, or_false, decide_eq_true_eq, t1, t2, t3]
    constructor
    · rintro ⟨bucket, hbucket, hfits⟩
      omega
    · exact fun hfits ↦ ⟨16384, by simp, hfits⟩
  have hbuckets : innerBuckets type = textInner := by
    rw [innerBuckets, htype]
    rfl
  rw [← hfind, pad, hbuckets]
  generalize textInner.find? (fun bucket ↦ bucket ≥ 2 + body.length) = found
  cases found <;> simp

theorem innerLen_of_pad {type : MessageType} {body : Bytes} {message : PaddedMessage}
    (h : pad type body = .ok message) :
    message.type = type ∧ message.innerLen ∈ innerBuckets type := by
  unfold pad at h
  split at h
  · cases h
  · rename_i innerLen hfind
    cases h
    exact ⟨rfl, List.mem_of_find?_eq_some hfind⟩

end PaddedMessage

/-! ## Inner envelopes -/

/-- `InnerEnvelope`. -/
structure InnerEnvelope where
  deliveryCapability : Key
  ttlBucket : TtlBucket
  idempotencyToken : Key
  paddedMessage : PaddedMessage
  deriving DecidableEq

namespace InnerEnvelope

/-- `header_len`. -/
def headerLen : ℕ := 1 + 32 + 1 + 32

/-- `outer_len`. -/
def outerLen (inner : InnerEnvelope) : ℕ :=
  if inner.paddedMessage.type.isAttachment then
    if inner.paddedMessage.innerLen = a1 then a1Outer
    else if inner.paddedMessage.innerLen = a2 then a2Outer
    else if inner.paddedMessage.innerLen = a3 then a3Outer
    else if inner.paddedMessage.innerLen = a4 then a4Outer
    else innerTextOuter
  else innerTextOuter

/-- The bytes in front of the message. -/
def header (inner : InnerEnvelope) : Bytes :=
  protocolVersion :: (inner.deliveryCapability.data ++
    inner.ttlBucket.bucket :: inner.idempotencyToken.data)

@[simp] theorem length_header (inner : InnerEnvelope) : inner.header.length = headerLen := by
  simp [header, headerLen]

/-- `encode_padded`. -/
def encodePadded (inner : InnerEnvelope) : Except WireError Bytes :=
  let out := inner.header ++ inner.paddedMessage.encode
  if out.length > inner.outerLen then .error .noBucket else .ok (resize out inner.outerLen)

/-- Everything from position `n` on is padding. -/
def onlyZerosBehind (rest : Bytes) (n : ℕ) : Bool := n ≤ rest.length && (rest.drop n).all (· == 0)

/-- The inner bucket of an envelope of `total` bytes with `rest` behind the header. A text body is
in the smallest bucket with nothing but zeros behind it. -/
def innerLenOf (total : ℕ) (rest : Bytes) : Except WireError ℕ :=
  if total = innerTextOuter then
    match textInner.find? (onlyZerosBehind rest) with
    | none => .error .badEnvelope
    | some n => .ok n
  else if total = a1Outer then .ok a1
  else if total = a2Outer then .ok a2
  else if total = a3Outer then .ok a3
  else if total = a4Outer then .ok a4
  else .error .badEnvelope

/-- The message behind the header of an envelope of `total` bytes. -/
def decodeMessage (total : ℕ) (rest : Bytes) : Except WireError PaddedMessage := do
  let innerLen ← innerLenOf total rest
  if rest.length < innerLen then .error .badEnvelope
  else PaddedMessage.decode (rest.take innerLen)

/-- `decode_padded`. -/
def decodePadded (bytes : Bytes) : Except WireError InnerEnvelope :=
  if bytes.length < headerLen + 2 then .error .badEnvelope
  else if bytes.headD 0 ≠ protocolVersion then .error (.unknownVersion (bytes.headD 0).toUInt64)
  else do
    let deliveryCapability ← copyFixed 32 ((bytes.drop 1).take 32)
    let ttlBucket ← TtlBucket.fromU8 (bytes.getD 33 0)
    let idempotencyToken ← copyFixed 32 ((bytes.drop 34).take 32)
    let paddedMessage ← decodeMessage bytes.length (bytes.drop headerLen)
    .ok ⟨deliveryCapability, ttlBucket, idempotencyToken, paddedMessage⟩

/-- The envelopes `decodePadded` yields. The last field says that no smaller text bucket would have
done: some byte behind it is not zero. -/
structure Canonical (inner : InnerEnvelope) : Prop where
  ttl : TtlBucket.fromU8 inner.ttlBucket.bucket = .ok inner.ttlBucket
  message : inner.paddedMessage.Canonical
  minimal : inner.paddedMessage.type.isAttachment = false → ∀ n ∈ textInner,
    n < inner.paddedMessage.innerLen → ¬ (inner.paddedMessage.encode.drop n).all (· == 0)

/-- Reading back a header followed by `rest`. -/
theorem decodePadded_header_append (inner : InnerEnvelope) {rest : Bytes} (hrest : 2 ≤ rest.length) :
    decodePadded (inner.header ++ rest) = (do
      let ttlBucket ← TtlBucket.fromU8 inner.ttlBucket.bucket
      let paddedMessage ← decodeMessage (headerLen + rest.length) rest
      .ok ⟨inner.deliveryCapability, ttlBucket, inner.idempotencyToken, paddedMessage⟩) := by
  have hcap : ((inner.header ++ rest).drop 1).take 32 = inner.deliveryCapability.data := by
    simp [header]
  have hafter : (inner.header ++ rest).drop 33 =
      inner.ttlBucket.bucket :: (inner.idempotencyToken.data ++ rest) := by
    simp [header]
  have httl : (inner.header ++ rest).getD 33 0 = inner.ttlBucket.bucket := by
    have hget : (inner.header ++ rest)[33]? = some inner.ttlBucket.bucket := by
      rw [← List.head?_drop, hafter, List.head?_cons]
    rw [List.getD_eq_getElem?_getD, hget, Option.getD_some]
  have hidem : ((inner.header ++ rest).drop 34).take 32 = inner.idempotencyToken.data := by
    rw [← List.drop_drop (i := 1) (j := 33), hafter]
    simp
  have hdrop : (inner.header ++ rest).drop headerLen = rest := by
    rw [← inner.length_header, List.drop_left]
  have hlen : (inner.header ++ rest).length = headerLen + rest.length := by simp
  rw [decodePadded, if_neg (by rw [hlen]; omega), if_neg (by simp [header]), hcap, httl, hidem,
    hdrop, hlen]
  simp [bind, Except.bind]

theorem textInner_le {n : ℕ} (h : n ∈ textInner) : headerLen + n ≤ innerTextOuter := by
  simp only [textInner, List.mem_cons, List.not_mem_nil, or_false, t1, t2, t3] at h
  unfold headerLen innerTextOuter
  omega

theorem innerLen_add_header_le {inner : InnerEnvelope} (h : inner.paddedMessage.Canonical) :
    headerLen + inner.paddedMessage.innerLen ≤ inner.outerLen := by
  have hmem := h.innerLen_mem
  unfold innerBuckets at hmem
  unfold outerLen
  split at hmem
  · rename_i hattach
    rw [if_pos hattach]
    simp only [attachInner, List.mem_cons, List.not_mem_nil, or_false] at hmem
    obtain hlen | hlen | hlen | hlen := hmem <;> rw [hlen] <;> decide
  · rename_i htext
    rw [if_neg htext]
    exact textInner_le hmem

/-- A text message in one of its buckets always fits its envelope. -/
theorem exists_encodePadded {inner : InnerEnvelope}
    (htype : inner.paddedMessage.type.isAttachment = false)
    (hlen : inner.paddedMessage.innerLen ∈ textInner) :
    ∃ bytes, inner.encodePadded = .ok bytes := by
  have hle := textInner_le hlen
  refine ⟨_, if_neg ?_⟩
  rw [List.length_append, length_header, PaddedMessage.length_encode, outerLen, htype]
  simpa using hle

/-- In an increasing list, the first hit of `find?` is the least element that satisfies it. -/
theorem find?_eq_some_iff_least {l : List ℕ} (hl : l.Pairwise (· < ·)) {p : ℕ → Bool} {n : ℕ} :
    l.find? p = some n ↔ n ∈ l ∧ p n = true ∧ ∀ m ∈ l, m < n → p m = false := by
  induction l with
  | nil => simp
  | cons a l ih =>
    obtain ⟨ha, hl⟩ := List.pairwise_cons.mp hl
    cases hp : p a with
    | true =>
      rw [List.find?_cons_of_pos hp, Option.some_inj]
      constructor
      · rintro rfl
        refine ⟨List.mem_cons_self, hp, ?_⟩
        intro m hm hlt
        rcases List.mem_cons.mp hm with rfl | hm
        · omega
        · have := ha m hm
          omega
      · rintro ⟨hmem, -, hleast⟩
        rcases List.mem_cons.mp hmem with rfl | hmem
        · rfl
        · have := hleast a List.mem_cons_self (ha n hmem)
          simp_all
    | false =>
      rw [List.find?_cons_of_neg (by simp [hp]), ih hl]
      constructor
      · rintro ⟨hmem, hpn, hleast⟩
        refine ⟨List.mem_cons_of_mem a hmem, hpn, ?_⟩
        intro m hm hlt
        rcases List.mem_cons.mp hm with rfl | hm
        · exact hp
        · exact hleast m hm hlt
      · rintro ⟨hmem, hpn, hleast⟩
        refine ⟨?_, hpn, fun m hm ↦ hleast m (List.mem_cons_of_mem a hm)⟩
        rcases List.mem_cons.mp hmem with rfl | hmem
        · simp_all
        · exact hmem

theorem textInner_pairwise : textInner.Pairwise (· < ·) := by decide

/-- The bucket of a canonical message with zeros behind it is the bucket it was padded to. -/
theorem innerLenOf_encode_append {inner : InnerEnvelope} (h : inner.Canonical) (zeros : ℕ) :
    innerLenOf inner.outerLen (inner.paddedMessage.encode ++ List.replicate zeros 0) =
      .ok inner.paddedMessage.innerLen := by
  have hmem := h.message.innerLen_mem
  have hlen := inner.paddedMessage.length_encode
  unfold innerBuckets at hmem
  split at hmem
  · rename_i hattach
    simp only [attachInner, List.mem_cons, List.not_mem_nil, or_false] at hmem
    unfold outerLen innerLenOf
    obtain hinner | hinner | hinner | hinner := hmem <;> rw [if_pos hattach, hinner] <;> rfl
  · rename_i htext
    have hfind : textInner.find?
        (onlyZerosBehind (inner.paddedMessage.encode ++ List.replicate zeros 0)) =
          some inner.paddedMessage.innerLen := by
      rw [find?_eq_some_iff_least textInner_pairwise]
      refine ⟨hmem, ?_, ?_⟩
      · rw [onlyZerosBehind, ← hlen, List.drop_left]
        simp
      · intro n hn hlt
        have hnot := h.minimal (by simpa using htext) n hn hlt
        rw [onlyZerosBehind, List.drop_append_of_le_length (by omega), List.all_append]
        simp [hnot]
    unfold outerLen innerLenOf
    rw [if_neg htext, if_pos rfl, hfind]

/-- A canonical envelope survives a round trip; its encoding fills the outer bucket. -/
theorem decodePadded_encodePadded {inner : InnerEnvelope} (h : inner.Canonical) :
    ∃ bytes, inner.encodePadded = .ok bytes ∧ bytes.length = inner.outerLen ∧
      decodePadded bytes = .ok inner := by
  have hle := innerLen_add_header_le h.message
  have hlen := inner.paddedMessage.length_encode
  have hbody := h.message.length_body
  have hout : (inner.header ++ inner.paddedMessage.encode).length =
      headerLen + inner.paddedMessage.innerLen := by
    rw [List.length_append, length_header, hlen]
  set zeros := inner.outerLen - (headerLen + inner.paddedMessage.innerLen) with hzeros
  have hresize : resize (inner.header ++ inner.paddedMessage.encode) inner.outerLen =
      inner.header ++ (inner.paddedMessage.encode ++ List.replicate zeros 0) := by
    rw [resize, hout, List.take_of_length_le (by omega), List.append_assoc]
  have hrest : (inner.paddedMessage.encode ++ List.replicate zeros 0).length =
      inner.outerLen - headerLen := by
    rw [List.length_append, hlen, List.length_replicate]
    omega
  refine ⟨resize (inner.header ++ inner.paddedMessage.encode) inner.outerLen, ?_,
    length_resize _ _, ?_⟩
  · rw [encodePadded, if_neg (by rw [hout]; omega)]
  · have htotal : headerLen + (inner.outerLen - headerLen) = inner.outerLen := by omega
    have htake : (inner.paddedMessage.encode ++ List.replicate zeros 0).take
        inner.paddedMessage.innerLen = inner.paddedMessage.encode := by
      rw [← hlen, List.take_left]
    rw [hresize, decodePadded_header_append inner (by omega), h.ttl, decodeMessage, hrest, htotal,
      innerLenOf_encode_append h]
    simp only [bind, Except.bind]
    rw [if_neg (by omega), htake, PaddedMessage.decode_encode h.message]

/-- Whatever becomes of the message, the idempotency token survives encoding and decoding. -/
theorem idempotencyToken_of_decodePadded {inner inner' : InnerEnvelope} {bytes : Bytes}
    (hencode : inner.encodePadded = .ok bytes) (hdecode : decodePadded bytes = .ok inner') :
    inner'.idempotencyToken = inner.idempotencyToken := by
  unfold encodePadded at hencode
  dsimp only at hencode
  split_ifs at hencode with hlen
  cases hencode
  rw [resize, List.take_of_length_le (by omega), List.append_assoc] at hdecode
  by_cases hrest : 2 ≤ (inner.paddedMessage.encode ++ List.replicate
      (inner.outerLen - (inner.header ++ inner.paddedMessage.encode).length) 0).length
  · rw [decodePadded_header_append inner hrest] at hdecode
    obtain ⟨ttlBucket, -, hdecode⟩ := bind_eq_ok.mp hdecode
    obtain ⟨paddedMessage, -, hdecode⟩ := bind_eq_ok.mp hdecode
    cases hdecode
    rfl
  · rw [decodePadded, if_pos (by rw [List.length_append, length_header]; omega)] at hdecode
    cases hdecode

theorem canonical_of_decodeMessage {total : ℕ} {rest : Bytes} {message : PaddedMessage}
    (h : decodeMessage total rest = .ok message) :
    message.Canonical ∧ (message.type.isAttachment = false → ∀ n ∈ textInner,
      n < message.innerLen → ¬ (message.encode.drop n).all (· == 0)) := by
  obtain ⟨innerLen, hinner, h⟩ := bind_eq_ok.mp h
  split at h
  · cases h
  · rename_i hle
    obtain ⟨hcanonical, hencode⟩ := PaddedMessage.canonical_of_decode h
    have hlen : message.innerLen = innerLen := by
      rw [← message.length_encode, hencode, List.length_take]
      omega
    refine ⟨hcanonical, ?_⟩
    intro htext n hn hlt hzero
    have hmem := hcanonical.innerLen_mem
    rw [innerBuckets, if_neg (by simp [htext]), hlen] at hmem
    unfold innerLenOf at hinner
    split_ifs at hinner
    · split at hinner
      · cases hinner
      · rename_i m hfind
        cases hinner
        obtain ⟨-, hbehind, hleast⟩ := (find?_eq_some_iff_least textInner_pairwise).mp hfind
        have hfalse := hleast n hn (hlen ▸ hlt)
        -- `rest` from `n` on is the end of the message and then the padding behind `innerLen`
        have hsplit : rest.drop n = message.encode.drop n ++ rest.drop innerLen := by
          rw [hencode, ← List.drop_append_of_le_length (by rw [List.length_take]; omega),
            List.take_append_drop]
        simp only [onlyZerosBehind, Bool.and_eq_true, decide_eq_true_eq] at hbehind
        rw [onlyZerosBehind, hsplit, List.all_append, hzero, hbehind.2] at hfalse
        simp only [Bool.and_self, Bool.and_true, decide_eq_false_iff_not] at hfalse
        omega
    all_goals
      cases hinner
      revert hmem
      decide

/-- What `decode_padded` accepts is canonical. -/
theorem canonical_of_decodePadded {bytes : Bytes} {inner : InnerEnvelope}
    (h : decodePadded bytes = .ok inner) : inner.Canonical := by
  unfold decodePadded at h
  split at h
  · cases h
  · split at h
    · cases h
    · obtain ⟨cap, -, h⟩ := bind_eq_ok.mp h
      obtain ⟨ttl, httl, h⟩ := bind_eq_ok.mp h
      obtain ⟨idem, -, h⟩ := bind_eq_ok.mp h
      obtain ⟨message, hmessage, h⟩ := bind_eq_ok.mp h
      cases h
      obtain ⟨hcanonical, hminimal⟩ := canonical_of_decodeMessage hmessage
      exact ⟨TtlBucket.fromU8_eq_ok httl, hcanonical, hminimal⟩

/-- The bucket of a decoded message is the one its length asks for. -/
theorem outerLen_of_innerLenOf {inner : InnerEnvelope} {total : ℕ} {rest : Bytes}
    (hmessage : inner.paddedMessage.Canonical)
    (hlen : innerLenOf total rest = .ok inner.paddedMessage.innerLen) : inner.outerLen = total := by
  have hmem := hmessage.innerLen_mem
  unfold innerLenOf at hlen
  unfold outerLen
  unfold innerBuckets at hmem
  split_ifs at hlen with htext h1 h2 h3 h4
  · split at hlen
    · cases hlen
    · rename_i n hfind
      have hn := List.mem_of_find?_eq_some hfind
      rw [Except.ok.inj hlen] at hn
      have hdisjoint : ∀ n ∈ attachInner, n ∉ textInner := by decide
      split_ifs at hmem with hattach
      · exact absurd hn (hdisjoint _ hmem)
      · rw [if_neg hattach, htext]
  all_goals
    have hn := (Except.ok.inj hlen).symm
    rw [hn] at hmem ⊢
    split_ifs at hmem with hattach
    · rw [if_pos hattach]
      simp_all [a1, a2, a3, a4]
    · exact absurd hmem (by decide)

/-- An envelope padded to an attachment bucket has a message of that bucket. -/
theorem innerLenOf_outerLen {inner : InnerEnvelope} {rest : Bytes} {n : ℕ}
    (htotal : inner.outerLen ≠ innerTextOuter) (hlen : innerLenOf inner.outerLen rest = .ok n) :
    inner.paddedMessage.innerLen = n := by
  unfold innerLenOf at hlen
  rw [if_neg htotal] at hlen
  unfold outerLen at hlen htotal
  split_ifs at hlen htotal <;> simp_all [a1Outer, a2Outer, a3Outer, a4Outer]

/-- Behind the bucket of an encoded message there is nothing but padding. -/
theorem drop_innerLenOf {inner : InnerEnvelope} {zeros n : ℕ} {rest : Bytes}
    (hrest : rest = inner.paddedMessage.encode ++ List.replicate zeros 0)
    (hn : innerLenOf inner.outerLen rest = .ok n) :
    rest.drop n = List.replicate (rest.length - n) 0 := by
  by_cases htext : inner.outerLen = innerTextOuter
  · rw [innerLenOf, if_pos htext] at hn
    split at hn
    · cases hn
    · rename_i hfind
      cases hn
      have hbehind := List.find?_some hfind
      simp only [onlyZerosBehind, Bool.and_eq_true, List.all_eq_true, beq_iff_eq] at hbehind
      rw [← List.length_drop]
      exact List.eq_replicate_of_mem hbehind.2
  · rw [← innerLenOf_outerLen htext hn, ← inner.paddedMessage.length_encode, hrest, List.drop_left,
      List.length_append, Nat.add_sub_cancel_left, List.length_replicate]

/-- Decoding an encoding and encoding again changes nothing, canonical or not. -/
theorem encodePadded_of_decodePadded {inner inner' : InnerEnvelope} {bytes : Bytes}
    (hencode : inner.encodePadded = .ok bytes) (hdecode : decodePadded bytes = .ok inner') :
    inner'.encodePadded = .ok bytes := by
  unfold encodePadded at hencode
  dsimp only at hencode
  split_ifs at hencode with hfits
  rw [resize, List.take_of_length_le (by omega), List.append_assoc] at hencode
  set zeros := inner.outerLen - (inner.header ++ inner.paddedMessage.encode).length with hzeros
  set rest := inner.paddedMessage.encode ++ List.replicate zeros 0 with hrest
  have hbytes : inner.header ++ rest = bytes := Except.ok.inj hencode
  have htotal : headerLen + rest.length = inner.outerLen := by
    rw [hrest, List.length_append, List.length_replicate, hzeros, List.length_append,
      length_header]
    rw [List.length_append, length_header] at hfits
    omega
  by_cases hshort : 2 ≤ rest.length
  · rw [← hbytes, decodePadded_header_append inner hshort, htotal] at hdecode
    obtain ⟨ttl, httl, hdecode⟩ := bind_eq_ok.mp hdecode
    obtain ⟨message, hmessage, hdecode⟩ := bind_eq_ok.mp hdecode
    obtain ⟨n, hn, hmessage⟩ := bind_eq_ok.mp hmessage
    split at hmessage
    · cases hmessage
    · rename_i hle
      obtain ⟨hcanonical, hbody⟩ := PaddedMessage.canonical_of_decode hmessage
      obtain rfl : message.innerLen = n := by
        rw [← message.length_encode, hbody, List.length_take]
        omega
      have hinner' := Except.ok.inj hdecode
      have houter : inner'.outerLen = inner.outerLen := by
        rw [← hinner']
        exact outerLen_of_innerLenOf hcanonical hn
      have hheader : inner'.header = inner.header := by
        rw [← hinner', header, TtlBucket.bucket_of_fromU8 httl, header]
      have hmessage' : inner'.paddedMessage = message := by rw [← hinner']
      have hout : (inner.header ++ message.encode).length = headerLen + message.innerLen := by
        rw [List.length_append, length_header, message.length_encode]
      unfold encodePadded
      dsimp only
      rw [hheader, houter, hmessage', if_neg (by rw [hout]; omega), resize,
        List.take_of_length_le (by rw [hout]; omega), hout, ← hbytes, List.append_assoc, hbody,
        ← htotal, Nat.add_sub_add_left, ← drop_innerLenOf hrest hn, List.take_append_drop]
  · rw [decodePadded, if_pos (by rw [← hbytes, List.length_append, length_header]; omega)] at hdecode
    cases hdecode

/-- A text message with zeros behind it is read as a message in the first bucket that has nothing
but zeros behind it. -/
theorem exists_decodeMessage {message : PaddedMessage} (htext : message.type.isAttachment = false)
    (hlen : message.innerLen ∈ textInner) (zeros : ℕ) :
    ∃ decoded, decodeMessage innerTextOuter (message.encode ++ List.replicate zeros 0) =
      .ok decoded := by
  set rest := message.encode ++ List.replicate zeros 0 with hrest
  have hbehind : onlyZerosBehind rest message.innerLen = true := by
    rw [onlyZerosBehind, hrest, ← message.length_encode, List.drop_left]
    simp
  have hsome : (textInner.find? (onlyZerosBehind rest)).isSome :=
    List.find?_isSome.mpr ⟨_, hlen, hbehind⟩
  obtain ⟨n, hn⟩ := Option.isSome_iff_exists.mp hsome
  have hmem := List.mem_of_find?_eq_some hn
  have hfits : n ≤ rest.length := by
    have hzeros := List.find?_some hn
    simp only [onlyZerosBehind, Bool.and_eq_true, decide_eq_true_eq] at hzeros
    exact hzeros.1
  have hbuckets : ∀ n ∈ textInner, 2 ≤ n := by decide
  -- the two bytes in front of the body are in every bucket
  obtain ⟨body, hbody⟩ : ∃ body, rest.take n = protocolVersion :: message.type.toU8 :: body := by
    obtain ⟨k, hk⟩ := Nat.exists_eq_add_of_le' (hbuckets _ hlen)
    obtain ⟨m, rfl⟩ := Nat.exists_eq_add_of_le' (hbuckets n hmem)
    rw [hrest, PaddedMessage.encode, hk, resize]
    simp
  have hbodyLen : body.length + 2 = n := by
    have hlength := congrArg List.length hbody
    rw [List.length_take, List.length_cons, List.length_cons] at hlength
    omega
  refine ⟨⟨message.type, body, body.length + 2⟩, ?_⟩
  rw [decodeMessage, innerLenOf, if_pos rfl, hn]
  simp only [bind, Except.bind]
  rw [if_neg (by omega), hbody, PaddedMessage.decode, if_neg (by simp),
    MessageType.fromU8_toU8]
  simp only [bind, Except.bind]
  rw [if_pos]
  rwa [innerBuckets, htext, hbodyLen]

/-- An encoded text envelope can be read back; its header survives. -/
theorem exists_decodePadded {inner : InnerEnvelope} {bytes : Bytes}
    (htext : inner.paddedMessage.type.isAttachment = false)
    (hlen : inner.paddedMessage.innerLen ∈ textInner)
    (httl : TtlBucket.fromU8 inner.ttlBucket.bucket = .ok inner.ttlBucket)
    (hencode : inner.encodePadded = .ok bytes) :
    ∃ decoded, decodePadded bytes = .ok decoded ∧
      decoded.deliveryCapability = inner.deliveryCapability := by
  have hle := textInner_le hlen
  have houter : inner.outerLen = innerTextOuter := by
    rw [outerLen, htext]
    rfl
  have hout : (inner.header ++ inner.paddedMessage.encode).length =
      headerLen + inner.paddedMessage.innerLen := by
    rw [List.length_append, length_header, PaddedMessage.length_encode]
  rw [encodePadded, houter, if_neg (by omega)] at hencode
  cases hencode
  set zeros := innerTextOuter - (headerLen + inner.paddedMessage.innerLen) with hzeros
  have hrest : (inner.paddedMessage.encode ++ List.replicate zeros 0).length =
      innerTextOuter - headerLen := by
    rw [List.length_append, PaddedMessage.length_encode, List.length_replicate]
    omega
  obtain ⟨decoded, hdecoded⟩ := exists_decodeMessage htext hlen zeros
  refine ⟨⟨inner.deliveryCapability, inner.ttlBucket, inner.idempotencyToken, decoded⟩, ?_, rfl⟩
  have htotal : headerLen + (innerTextOuter - headerLen) = innerTextOuter := by omega
  have hshort : 2 ≤ innerTextOuter - headerLen := by decide
  rw [resize, hout, List.take_of_length_le (by omega), List.append_assoc,
    decodePadded_header_append inner (by rwa [hrest]), httl, hrest,
    htotal, hdecoded]
  rfl

/-- An envelope around a blank text message. -/
def blank (deliveryCapability idempotencyToken : Key) : InnerEnvelope where
  deliveryCapability := deliveryCapability
  ttlBucket := .default
  idempotencyToken := idempotencyToken
  paddedMessage := ⟨.doubleRatchet, List.replicate 1022 0, t1⟩

theorem canonical_blank (deliveryCapability idempotencyToken : Key) :
    (blank deliveryCapability idempotencyToken).Canonical where
  ttl := rfl
  message := ⟨by rw [blank, List.length_replicate]; rfl, List.mem_cons_self⟩
  minimal := by
    -- the first bucket is the smallest one
    intro _ n hn hlt
    have hle : ∀ n ∈ textInner, t1 ≤ n := by decide
    exact absurd hlt (Nat.not_lt.mpr (hle n hn))

/-- An envelope around an attachment of the largest bucket. -/
def largest (deliveryCapability idempotencyToken : Key) : InnerEnvelope where
  deliveryCapability := deliveryCapability
  ttlBucket := .default
  idempotencyToken := idempotencyToken
  paddedMessage := ⟨.attachmentDr, List.replicate (a4 - 2) 0, a4⟩

theorem canonical_largest (deliveryCapability idempotencyToken : Key) :
    (largest deliveryCapability idempotencyToken).Canonical where
  ttl := rfl
  message := ⟨by rw [largest, List.length_replicate]; rfl, show a4 ∈ attachInner by decide⟩
  minimal := nofun

theorem outerLen_largest (deliveryCapability idempotencyToken : Key) :
    (largest deliveryCapability idempotencyToken).outerLen = a4Outer := by
  unfold outerLen largest
  rw [if_pos (show MessageType.attachmentDr.isAttachment = true from rfl)]
  rfl

end InnerEnvelope

/-! ## Outer envelopes -/

/-- `OuterEnvelope`. -/
structure OuterEnvelope where
  destinationServerId : ServerId
  hpkeCiphertext : Bytes
  deriving DecidableEq

namespace OuterEnvelope

/-- `OuterEnvelope::encode`. -/
def encode (outer : OuterEnvelope) : Bytes :=
  protocolVersion :: (outer.destinationServerId.data ++
    (toBeBytes 4 outer.hpkeCiphertext.length ++ outer.hpkeCiphertext))

/-- `OuterEnvelope::decode`. -/
def decode (bytes : Bytes) : Except WireError OuterEnvelope :=
  if bytes.length < 1 + 32 + 4 then .error .badEnvelope
  else if bytes.headD 0 ≠ protocolVersion then .error (.unknownVersion (bytes.headD 0).toUInt64)
  else do
    let destinationServerId ← copyFixed 32 ((bytes.drop 1).take 32)
    let n := fromBeBytes ((bytes.drop 33).take 4)
    let rest := bytes.drop 37
    if rest.length ≠ n then .error (.length n rest.length)
    else .ok ⟨destinationServerId, rest⟩

/-- The length of the ciphertext crosses the wire in four bytes. -/
theorem decode_encode {outer : OuterEnvelope} (h : outer.hpkeCiphertext.length < 2 ^ 32) :
    decode outer.encode = .ok outer := by
  have hval : fromBeBytes (toBeBytes 4 outer.hpkeCiphertext.length) =
      outer.hpkeCiphertext.length := fromBeBytes_toBeBytes_of_lt (by omega)
  have hlen : ¬ outer.encode.length < 1 + 32 + 4 := by
    simp [encode]
    omega
  have hdest : (outer.encode.drop 1).take 32 = outer.destinationServerId.data := by simp [encode]
  have hafter : outer.encode.drop 33 =
      toBeBytes 4 outer.hpkeCiphertext.length ++ outer.hpkeCiphertext := by
    simp [encode]
  have hrest : outer.encode.drop 37 = outer.hpkeCiphertext := by
    rw [← List.drop_drop (i := 4) (j := 33), hafter]
    simp
  rw [decode, if_neg hlen, if_neg (by simp [encode]), hdest, hafter, hrest]
  simp [hval, bind, Except.bind]

theorem length_lt_of_decode {bytes : Bytes} {outer : OuterEnvelope}
    (h : decode bytes = .ok outer) : outer.hpkeCiphertext.length < 2 ^ 32 := by
  unfold decode at h
  split at h
  · cases h
  · split at h
    · cases h
    · obtain ⟨dest, -, h⟩ := bind_eq_ok.mp h
      dsimp only at h
      split at h
      · cases h
      · rename_i hn
        cases h
        have hlt := fromBeBytes_lt ((bytes.drop 33).take 4)
        have h4 : ((bytes.drop 33).take 4).length ≤ 4 := List.length_take_le _ _
        have hpow : 256 ^ ((bytes.drop 33).take 4).length ≤ 256 ^ 4 :=
          Nat.pow_le_pow_right (by omega) h4
        simp only [ne_eq, not_not] at hn
        dsimp only
        omega

end OuterEnvelope

end NemoMessenger.Wire
