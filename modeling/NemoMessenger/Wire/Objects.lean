import NemoMessenger.Wire.Canonical
import NemoMessenger.Wire.GroupObject
import NemoMessenger.Wire.Frame

/-!
# Objects that survive the wire

The encoders and decoders of the objects that cross the wire, each beside its round trip. A stream
body is read from the front of its padding, so anything may follow it. A contact card fits its limit
whenever its host is one that `validate_host` accepts.
-/

namespace NemoMessenger.Wire

open Cbor (Value)

/-! ## Stream bodies -/

theorem RemoveBundle.decode_append {bundle : RemoveBundle} {body : Bytes}
    (h : bundle.encode = .ok body) (padding : Bytes) : decode (body ++ padding) = .ok bundle := by
  unfold encode at h
  split_ifs at h with hlength
  cases h
  set behind := bundle.mlsCommit ++ padding with hbehind
  have hbody : bundle.credentialId.data ++ (bundle.sidecarSignature.data ++
      (toBeBytes 4 bundle.mlsCommit.length ++ bundle.mlsCommit)) ++ padding =
      bundle.credentialId.data ++ (bundle.sidecarSignature.data ++
        (toBeBytes 4 bundle.mlsCommit.length ++ behind)) := by
    simp only [hbehind, List.append_assoc]
  rw [hbody]
  set bytes := bundle.credentialId.data ++ (bundle.sidecarSignature.data ++
    (toBeBytes 4 bundle.mlsCommit.length ++ behind)) with hbytes
  have hcredential : bytes.take 32 = bundle.credentialId.data := List.take_left' (by simp)
  have hdrop : bytes.drop 32 = bundle.sidecarSignature.data ++
      (toBeBytes 4 bundle.mlsCommit.length ++ behind) := List.drop_left' (by simp)
  have hsignature : (bytes.drop 32).take 64 = bundle.sidecarSignature.data := by
    rw [hdrop]
    exact List.take_left' (by simp)
  have hdrop' : bytes.drop 96 = toBeBytes 4 bundle.mlsCommit.length ++ behind := by
    rw [← @List.drop_drop _ 64 32, hdrop]
    exact List.drop_left' (by simp)
  have hcount : fromBeBytes ((bytes.drop 96).take 4) = bundle.mlsCommit.length := by
    rw [hdrop', List.take_left' (by simp)]
    exact fromBeBytes_toBeBytes_of_lt (by omega)
  have hcommit : bytes.drop headerLen = behind := by
    rw [show headerLen = 96 + 4 from rfl, ← @List.drop_drop _ 4 96, hdrop']
    exact List.drop_left' (by simp)
  have hlength : bytes.length = headerLen + behind.length := by
    simp [hbytes, headerLen]
    omega
  have hle : bundle.mlsCommit.length ≤ behind.length := by simp [hbehind]
  rw [decode, if_neg (by omega), hcredential, hsignature, hcount, hcommit, copyFixed_data,
    copyFixed_data]
  simp only [bind, Except.bind]
  rw [if_neg (by omega), hbehind, List.take_left]

namespace SigningKeyReplace

/-- `SigningKeyReplace::encode`. -/
def encode (replace : SigningKeyReplace) : Bytes :=
  replace.newPublicKey.data ++ replace.signature.data

theorem decode_append (replace : SigningKeyReplace) (padding : Bytes) :
    decode (replace.encode ++ padding) = .ok replace := by
  have hkey : (replace.encode ++ padding).take 32 = replace.newPublicKey.data := by
    rw [encode, List.append_assoc]
    exact List.take_left' (by simp)
  have hsignature : ((replace.encode ++ padding).drop 32).take 64 = replace.signature.data := by
    rw [encode, List.append_assoc, List.drop_left' (by simp)]
    exact List.take_left' (by simp)
  have hlength : (replace.encode ++ padding).length = 96 + padding.length := by
    simp [encode]
    omega
  rw [decode, if_neg (by omega), hkey, hsignature, copyFixed_data, copyFixed_data]
  rfl

end SigningKeyReplace

theorem AttachmentSizeBucket.fromU8_toU8 (bucket : AttachmentSizeBucket) :
    fromU8 bucket.toU8 = .ok bucket := by
  cases bucket <;> rfl

/-- The time to live is one of the four buckets when it is read back. -/
theorem AttachmentReserve.decode_append (reserve : AttachmentReserve) (padding : Bytes) :
    decode (reserve.encode ++ padding) =
      (TtlBucket.fromU8 reserve.ttlBucket.bucket).map fun ttlBucket ↦
        { reserve with ttlBucket } := by
  have hbody : reserve.encode ++ padding = reserve.fetchToken.data ++
      (reserve.sizeBucket.toU8 :: reserve.ttlBucket.bucket :: padding) := by
    simp [encode]
  have htoken : (reserve.encode ++ padding).take 32 = reserve.fetchToken.data := by
    rw [hbody]
    exact List.take_left' (by simp)
  have hsize : (reserve.encode ++ padding).getD 32 0 = reserve.sizeBucket.toU8 := by
    simp [hbody, List.getD_eq_getElem?_getD]
  have httl : (reserve.encode ++ padding).getD 33 0 = reserve.ttlBucket.bucket := by
    simp [hbody, List.getD_eq_getElem?_getD, List.getElem?_append_right]
  have hlength : (reserve.encode ++ padding).length = 34 + padding.length := by
    simp [encode]
    omega
  rw [decode, if_neg (by omega), htoken, hsize, httl, copyFixed_data,
    AttachmentSizeBucket.fromU8_toU8]
  cases TtlBucket.fromU8 reserve.ttlBucket.bucket <;> rfl

/-! ## Frames -/

namespace S2sFrame

/-- `S2sFrame::encode`. -/
def encode (frame : S2sFrame) : Except WireError Bytes :=
  if frame.payload.length < 2 ^ 32 then
    .ok (toBeBytes 8 frame.counter ++ (toBeBytes 4 frame.payload.length ++ frame.payload))
  else .error .noBucket

/-- `S2sFrame::decode`. -/
def decode (bytes : Bytes) : Except WireError S2sFrame :=
  if bytes.length < 12 then .error .badEnvelope
  else
    let n := fromBeBytes ((bytes.drop 8).take 4)
    let rest := bytes.drop 12
    if rest.length ≠ n then .error (.length n rest.length)
    else .ok { counter := fromBeBytes (bytes.take 8), payload := rest }

/-- The counter is a `u64`. -/
theorem decode_encode {frame : S2sFrame} {bytes : Bytes} (hcounter : frame.counter < 2 ^ 64)
    (h : frame.encode = .ok bytes) : decode bytes = .ok frame := by
  unfold encode at h
  split_ifs at h with hlength
  cases h
  set bytes := toBeBytes 8 frame.counter ++ (toBeBytes 4 frame.payload.length ++ frame.payload)
    with hbytes
  have hcount : fromBeBytes (bytes.take 8) = frame.counter := by
    rw [hbytes, List.take_left' (by simp)]
    exact fromBeBytes_toBeBytes_of_lt (by omega)
  have hdrop : bytes.drop 8 = toBeBytes 4 frame.payload.length ++ frame.payload :=
    List.drop_left' (by simp)
  have hpayload : bytes.drop 12 = frame.payload := by
    rw [← @List.drop_drop _ 4 8, hdrop]
    exact List.drop_left' (by simp)
  have hsize : fromBeBytes ((bytes.drop 8).take 4) = frame.payload.length := by
    rw [hdrop, List.take_left' (by simp)]
    exact fromBeBytes_toBeBytes_of_lt (by omega)
  have htotal : bytes.length = 12 + frame.payload.length := by
    simp [hbytes]
    omega
  simp only [decode, hcount, hpayload, hsize]
  rw [if_neg (by omega), if_neg (by simp)]

end S2sFrame

/-! ## Joining -/

/-- An entry of a map that may be missing. -/
def Cbor.getFixedOpt (n : ℕ) (pairs : List (UInt64 × Value)) (key : UInt64) :
    Except WireError (Option (FixedBytes n)) :=
  match mapGetOpt pairs key with
  | some value => do
    let bytes ← expectBytes value
    let fixed ← copyFixed n bytes
    .ok (some fixed)
  | none => .ok none

namespace GroupInvite

/-- `GroupInvite::encode`. -/
def encode (invite : GroupInvite) : Bytes :=
  Cbor.encode (.map (invite.payloadMap ++ [(6, .bytes invite.signature.data)]))

/-- `GroupInvite::decode`. -/
def decode (bytes : Bytes) : Except WireError GroupInvite := do
  match ← Cbor.decode bytes with
  | .map m => do
    let version ← Cbor.getUint m 0
    if version ≠ protocolVersion.toUInt64 then .error (.unknownVersion version)
    else do
      let groupId ← Cbor.getFixed 32 m 1
      let nonce ← Cbor.getFixed 32 m 2
      let ttlSecs ← Cbor.getUint m 3
      let inviteeBinding ← Cbor.getFixedOpt 32 m 4
      let salt ← Cbor.getFixedOpt 32 m 5
      let signature ← Cbor.getFixed 64 m 6
      .ok { groupId, nonce, ttlSecs, inviteeBinding, salt, signature }
  | _ => .error (.cbor "group-invite must be a map")

theorem decode_encode (invite : GroupInvite) : decode invite.encode = .ok invite := by
  obtain ⟨groupId, nonce, ttlSecs, inviteeBinding, salt, signature⟩ := invite
  -- which of the keys 4 and 5 there are depends on the two optional fields
  cases inviteeBinding <;> cases salt
  all_goals
    rw [decode, encode, Cbor.decode_encode]
    · simp [payloadMap, versionValue, Cbor.getFixed, Cbor.getUint, Cbor.getFixedOpt, Cbor.mapGet,
        Cbor.mapGetOpt, Cbor.expectBytes, Cbor.expectUint, bind, Except.bind]
    · simp [payloadMap, Value.Wf, Cbor.pairsWf, versionValue]

end GroupInvite

namespace GroupAdmit

/-- `GroupAdmit::encode`. -/
def encode (admission : GroupAdmit) : Bytes :=
  Cbor.encode (.map [(0, versionValue), (1, .bytes admission.groupId.data),
    (2, .bytes admission.pendingId.data), (3, .text "admit"), (4, .bytes admission.signature.data)])

/-- `GroupAdmit::decode`. -/
def decode (bytes : Bytes) : Except WireError GroupAdmit := do
  match ← Cbor.decode bytes with
  | .map m => do
    let version ← Cbor.getUint m 0
    if version ≠ protocolVersion.toUInt64 then .error (.unknownVersion version)
    else do
      let word ← Cbor.mapGet m 3 >>= Cbor.expectText
      if word ≠ "admit" then .error (.cbor "expected admit")
      else do
        let groupId ← Cbor.getFixed 32 m 1
        let pendingId ← Cbor.getFixed 32 m 2
        let signature ← Cbor.getFixed 64 m 4
        .ok { groupId, pendingId, signature }
  | _ => .error (.cbor "group-admit must be a map")

theorem decode_encode (admission : GroupAdmit) : decode admission.encode = .ok admission := by
  have hsize : "admit".utf8ByteSize = 5 := by decide
  rw [decode, encode, Cbor.decode_encode]
  · simp [versionValue, Cbor.getFixed, Cbor.getUint, Cbor.mapGet, Cbor.mapGetOpt, Cbor.expectBytes,
      Cbor.expectText, Cbor.expectUint, bind, Except.bind]
  · simp [Value.Wf, Cbor.pairsWf, versionValue, hsize]

end GroupAdmit

/-! ## Contact cards -/

/-- `CARD_MAX_BYTES`. -/
def cardMaxBytes : ℕ := 400

/-- `URI_PREFIX`. -/
def uriPrefix : String := "nemo:1:"

/-- `URL_SAFE_NO_PAD`. -/
structure Base64 where
  encode : Bytes → String
  decode : String → Option Bytes

namespace Base64

/-- The digits of the URL-safe alphabet. -/
def digits : List Char :=
  "ABCDEFGHIJKLMNOPQRSTUVWXYZabcdefghijklmnopqrstuvwxyz0123456789-_".toList

/-- The digit for six bits. -/
def digit (n : ℕ) : Char := digits.getD n 'A'

/-- The six bits of a digit. -/
def sixBits (c : Char) : Option ℕ := digits.idxOf? c

/-- Four digits for three bytes, without padding behind the last. -/
def write : Bytes → List Char
  | a :: b :: c :: rest =>
    digit (a.toNat / 4) :: digit (a.toNat % 4 * 16 + b.toNat / 16) ::
      digit (b.toNat % 16 * 4 + c.toNat / 64) :: digit (c.toNat % 64) :: write rest
  | [a, b] =>
    [digit (a.toNat / 4), digit (a.toNat % 4 * 16 + b.toNat / 16), digit (b.toNat % 16 * 4)]
  | [a] => [digit (a.toNat / 4), digit (a.toNat % 4 * 16)]
  | [] => []

/-- Three bytes for four digits; bits left over at the end are zero. -/
def read : List Char → Option Bytes
  | w :: x :: y :: z :: rest => do
    let w ← sixBits w
    let x ← sixBits x
    let y ← sixBits y
    let z ← sixBits z
    let bytes ← read rest
    some (UInt8.ofNat (w * 4 + x / 16) :: UInt8.ofNat (x % 16 * 16 + y / 4) ::
      UInt8.ofNat (y % 4 * 64 + z) :: bytes)
  | [w, x, y] => do
    let w ← sixBits w
    let x ← sixBits x
    let y ← sixBits y
    if y % 4 = 0 then some [UInt8.ofNat (w * 4 + x / 16), UInt8.ofNat (x % 16 * 16 + y / 4)]
    else none
  | [w, x] => do
    let w ← sixBits w
    let x ← sixBits x
    if x % 16 = 0 then some [UInt8.ofNat (w * 4 + x / 16)] else none
  | [_] => none
  | [] => some []

/-- The alphabet as the URL-safe engine reads and writes it. -/
def urlSafe : Base64 where
  encode bytes := String.ofList (write bytes)
  decode s := read s.toList

theorem sixBits_digit {n : ℕ} (hn : n < 64) : sixBits (digit n) = some n := by
  have hall : ∀ n : Fin 64, sixBits (digit n) = some n.val := by decide +kernel
  exact hall ⟨n, hn⟩

theorem ofNat_of_eq_toNat {n : ℕ} (byte : UInt8) (h : n = byte.toNat) : UInt8.ofNat n = byte := by
  rw [h, UInt8.ofNat_toNat]

theorem read_write (bytes : Bytes) : read (write bytes) = some bytes := by
  induction bytes using write.induct with
  | case1 a b c rest ih =>
    have ha := a.toNat_lt
    have hb := b.toNat_lt
    have hc := c.toNat_lt
    rw [write, read, sixBits_digit (by omega), sixBits_digit (by omega), sixBits_digit (by omega),
      sixBits_digit (by omega), ih]
    simp only [Option.bind_eq_bind, Option.bind_some]
    rw [ofNat_of_eq_toNat a (by omega), ofNat_of_eq_toNat b (by omega),
      ofNat_of_eq_toNat c (by omega)]
  | case2 a b =>
    have ha := a.toNat_lt
    have hb := b.toNat_lt
    rw [write, read, sixBits_digit (by omega), sixBits_digit (by omega), sixBits_digit (by omega)]
    simp only [Option.bind_eq_bind, Option.bind_some]
    rw [if_pos (by omega), ofNat_of_eq_toNat a (by omega),
      ofNat_of_eq_toNat b (by omega)]
  | case3 a =>
    have ha := a.toNat_lt
    rw [write, read, sixBits_digit (by omega), sixBits_digit (by omega)]
    simp only [Option.bind_eq_bind, Option.bind_some]
    rw [if_pos (by omega), ofNat_of_eq_toNat a (by omega)]
  | case4 => rfl

theorem urlSafe_roundtrip (bytes : Bytes) :
    urlSafe.decode (urlSafe.encode bytes) = some bytes := by
  simp [urlSafe, read_write]

end Base64

namespace ContactCard

/-- The fields of a card. -/
def pairs (card : ContactCard) : List (UInt64 × Value) :=
  [(0, versionValue), (1, .bytes card.identityPublicKey.data),
    (2, .bytes card.revocationPublicKey.data), (3, .bytes card.shareToken.data),
    (4, card.binding.toCborValue)]

/-- `ContactCard::encode`. -/
def encode (card : ContactCard) : Except WireError Bytes :=
  let bytes := Cbor.encode (.map card.pairs)
  if bytes.length > cardMaxBytes then .error .cardTooLarge else .ok bytes

/-- `ContactCard::decode`. -/
def decode (bytes : Bytes) : Except WireError ContactCard :=
  if bytes.length > cardMaxBytes then .error .cardTooLarge
  else do
    match ← Cbor.decode bytes with
    | .map m => do
      let version ← Cbor.getUint m 0
      if version ≠ protocolVersion.toUInt64 then .error (.unknownVersion version)
      else do
        let identityPublicKey ← Cbor.getFixed 32 m 1
        let revocationPublicKey ← Cbor.getFixed 32 m 2
        let shareToken ← Cbor.getFixed 32 m 3
        let binding ← Cbor.mapGet m 4 >>= HomeServerBinding.fromCborValue
        .ok { identityPublicKey, revocationPublicKey, shareToken, binding }
    | _ => .error (.cbor "card must be a map")

/-- `to_uri`. -/
def toUri (base64 : Base64) (card : ContactCard) : Except WireError String := do
  let bytes ← card.encode
  .ok (uriPrefix ++ base64.encode bytes)

/-- `from_uri`. -/
def fromUri (base64 : Base64) (uri : String) : Except WireError ContactCard :=
  if uriPrefix.toList.isPrefixOf uri.toList then
    match base64.decode (String.ofList (uri.toList.drop uriPrefix.toList.length)) with
    | some bytes => decode bytes
    | none => .error (.uri "base64url")
  else .error (.uri "missing nemo:1: prefix")

theorem length_encode_binding_le {binding : HomeServerBinding}
    (h : validateHost binding.host = .ok ()) :
    (Cbor.encode binding.toCborValue).length ≤ 225 := by
  have hhost : binding.host.chars.utf8ByteSize ≤ hostMaxBytes := by
    unfold validateHost at h
    split_ifs at h with hsize
    simp only [Bool.or_eq_true, decide_eq_true_eq, not_or, not_lt] at hsize
    exact hsize.2
  have htext := Cbor.length_encode_text_le hhost (by decide)
  have hseq := Cbor.length_encode_uint_le binding.seq
  have hexpires := Cbor.length_encode_uint_le binding.expiresAt
  have hid := Cbor.length_encode_bytes binding.serverId (by decide) (by decide)
  have hhpke := Cbor.length_encode_bytes binding.serverHpkePublicKey (by decide) (by decide)
  have hsignature := Cbor.length_encode_bytes binding.signature (by decide) (by decide)
  rw [hostMaxBytes] at htext
  rw [HomeServerBinding.toCborValue, HomeServerBinding.unsignedPairs,
    Cbor.length_encode_map (by simp) (by simp) (by simp)]
  simp only [List.cons_append, List.nil_append, List.map_cons, List.map_nil, List.sum_cons,
    List.sum_nil]
  omega

/-- A card fits when its host is acceptable. -/
theorem exists_encode {card : ContactCard} (h : validateHost card.binding.host = .ok ()) :
    ∃ bytes, card.encode = .ok bytes := by
  have hbinding := length_encode_binding_le h
  have hversion := Cbor.length_encode_uint_le protocolVersion.toUInt64
  have hidentity := Cbor.length_encode_bytes card.identityPublicKey (by decide) (by decide)
  have hrevocation := Cbor.length_encode_bytes card.revocationPublicKey (by decide) (by decide)
  have hshare := Cbor.length_encode_bytes card.shareToken (by decide) (by decide)
  refine ⟨_, if_neg ?_⟩
  rw [pairs, Cbor.length_encode_map (by simp) (by simp) (by simp), cardMaxBytes, versionValue]
  simp only [List.map_cons, List.map_nil, List.sum_cons, List.sum_nil]
  omega

theorem decode_encode {card : ContactCard} {bytes : Bytes} (h : card.encode = .ok bytes) :
    decode bytes = .ok card := by
  unfold encode at h
  dsimp only at h
  split_ifs at h with hlength
  cases h
  have hbinding := card.binding.wf_toCborValue
  rw [decode, if_neg hlength, Cbor.decode_encode]
  · simp [pairs, versionValue, Cbor.getFixed, Cbor.getUint, Cbor.mapGet, Cbor.mapGetOpt,
      Cbor.expectBytes, Cbor.expectUint, HomeServerBinding.fromCborValue_toCborValue, bind,
      Except.bind]
  · simp [pairs, Value.Wf, Cbor.pairsWf, versionValue, hbinding]

theorem fromUri_toUri {base64 : Base64} (hbase64 : ∀ b, base64.decode (base64.encode b) = some b)
    {card : ContactCard} {uri : String} (h : card.toUri base64 = .ok uri) :
    fromUri base64 uri = .ok card := by
  obtain ⟨bytes, hbytes, h⟩ := bind_eq_ok.mp h
  cases h
  simp [fromUri, hbase64, decode_encode hbytes]

end ContactCard

end NemoMessenger.Wire
