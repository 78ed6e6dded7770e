import NemoMessenger.Client.Message
import NemoMessenger.Wire.Canonical

/-!
# The encoding of application messages

A message is a CBOR map of a header, the name of its kind and the fields of the kind. The names are
pairwise different, and a message of a kind without a name here is read and not written. Sender and
receiver make the same checks.
-/

namespace NemoMessenger.Client

open NemoMessenger.Data NemoMessenger.Wire

open Cbor (Value)

/-! ## Candidates -/

/-- The white space `split_whitespace` splits at. -/
def isWhitespace (c : Char) : Bool :=
  let n := c.toNat
  (9 ≤ n && n ≤ 13) || n == 0x20 || n == 0x85 || n == 0xa0 || n == 0x1680 ||
    (0x2000 ≤ n && n ≤ 0x200a) || n == 0x2028 || n == 0x2029 || n == 0x202f || n == 0x205f ||
    n == 0x3000

/-- `split_whitespace`: the runs of other characters. -/
def splitWhitespace (s : List Char) : List (List Char) :=
  (s.splitOnP isWhitespace).filter fun token ↦ !token.isEmpty

/-- `ice_typ`: the word `typ` comes right before the type. -/
def iceTyp (candidate : List Char) (typ : String) : Bool :=
  let tokens := splitWhitespace candidate
  (tokens.zip tokens.tail).any fun p ↦ p.1 = "typ".toList && p.2 = typ.toList

/-- `to_ascii_lowercase`. -/
def asciiLowercase (s : String) : List Char :=
  s.toList.map fun c ↦ if 'A' ≤ c ∧ c ≤ 'Z' then Char.ofNat (c.toNat + 32) else c

/-- `reject_direct_ice`. -/
def rejectDirectIce (ice : List String) : Except CoreError Unit :=
  if ice.any fun c ↦ iceTyp (asciiLowercase c) "host" || iceTyp (asciiLowercase c) "srflx" then
    .error .directIceForbidden
  else .ok ()

/-! ## Limits -/

/-- `TEXT_MAX_BYTES`. -/
def textMaxBytes : ℕ := 8192

/-- `EMOJI_MAX_BYTES`. -/
def emojiMaxBytes : ℕ := 32

/-- `GROUP_NAME_MAX_BYTES`. -/
def groupNameMaxBytes : ℕ := 128

/-- `validate`. -/
def AppMessage.validate (msg : AppMessage) : Except CoreError Unit :=
  match msg.body with
  | .text words => if words.utf8ByteSize > textMaxBytes then .error .textTooLong else .ok ()
  | .groupName _ name =>
    if name.utf8ByteSize > groupNameMaxBytes then .error .textTooLong else .ok ()
  | .reaction _ emoji =>
    if emoji.utf8ByteSize > emojiMaxBytes then .error .emojiTooLong else .ok ()
  | .callInvite signal _ => rejectDirectIce signal.ice
  | .callAnswer signal => rejectDirectIce signal.ice
  | .callIce _ ice => rejectDirectIce ice
  | _ => .ok ()

/-! ## Writing -/

/-- `msg_type`. -/
def AppBody.msgType : AppBody → String
  | text _ => "text"
  | attachment _ _ _ => "attachment"
  | reaction _ _ => "reaction"
  | delete _ => "delete"
  | protocolAck _ => "protocol_ack"
  | read _ => "read"
  | capability _ _ => "capability"
  | bindingGossip _ _ _ => "binding_gossip"
  | disappear _ => "disappear"
  | groupName _ _ => "group_name"
  | callInvite _ _ => "call_invite"
  | callRinging _ => "call_ringing"
  | callAnswer _ => "call_answer"
  | callIce _ _ => "call_ice"
  | callReject _ => "call_reject"
  | callCancel _ => "call_cancel"
  | callEnd _ => "call_end"
  | unknown msgType => msgType

/-- `encode_meta`. -/
def FileMeta.encode (file : FileMeta) : Value :=
  .map [(0, .text file.name), (1, .text file.mime), (2, .uint file.size)]

/-- `ice_value`. -/
def iceValue (ice : List String) : Value := .array (ice.map .text)

/-- The fields of an introduction. -/
def CapabilityIntro.fields (intro : CapabilityIntro) : List (UInt64 × Value) :=
  [(6, .bytes intro.identityId.data), (7, .bytes intro.identityPublicKey.data),
    (8, .bytes intro.revocationPublicKey.data), (9, .bytes intro.destHpke.data),
    (10, .uint intro.bindingSeq), (11, .bytes intro.sessionKey),
    (12, .bytes intro.recipient.data), (13, .bytes intro.signature.data)]

/-- `extra_fields`. -/
def AppBody.extraFields : AppBody → List (UInt64 × Value)
  | text words => [(5, .text words)]
  | attachment encFile file fetchToken =>
    [(5, .bytes encFile), (6, file.encode)] ++
      fetchToken.toList.map fun token ↦ (7, .bytes token.data)
  | reaction target emoji => [(5, .uint target), (6, .text emoji)]
  | delete target => [(5, .uint target)]
  | protocolAck upto => [(5, .uint upto)]
  | read upto => [(5, .uint upto)]
  | capability contactCapability intro =>
    (5, .bytes contactCapability.data) :: intro.toList.flatMap CapabilityIntro.fields
  | bindingGossip identityId seq serverId =>
    [(5, .bytes identityId.data), (6, .uint seq), (7, .bytes serverId.data)]
  | disappear seconds => [(5, .uint seconds)]
  | groupName groupId name => [(5, .bytes groupId.data), (6, .text name)]
  | callInvite signal expiresAt =>
    [(5, .bytes signal.callId.data), (6, .text signal.sdp), (7, .text signal.dtlsFp),
      (8, iceValue signal.ice), (9, .uint expiresAt)]
  | callRinging callId => [(5, .bytes callId.data)]
  | callAnswer signal =>
    [(5, .bytes signal.callId.data), (6, .text signal.sdp), (7, .text signal.dtlsFp),
      (8, iceValue signal.ice)]
  | callIce callId ice => [(5, .bytes callId.data), (6, iceValue ice)]
  | callReject callId => [(5, .bytes callId.data)]
  | callCancel callId => [(5, .bytes callId.data)]
  | callEnd callId => [(5, .bytes callId.data)]
  | unknown _ => []

/-- A body of a kind that has a name. -/
def AppBody.isKnown : AppBody → Bool
  | unknown _ => false
  | _ => true

namespace AppMessage

/-- The fields of the header. -/
def headerFields (msg : AppMessage) : List (UInt64 × Value) :=
  [(0, versionValue), (1, .text msg.body.msgType), (2, .uint msg.header.convSeq),
    (3, .uint msg.header.sentAt)] ++ msg.header.replyTo.toList.map fun seq ↦ (4, .uint seq)

/-- `app::encode`. -/
def encode (msg : AppMessage) : Except CoreError Bytes :=
  if msg.body.isKnown then do
    msg.validate
    .ok (Cbor.encode (.map (msg.headerFields ++ msg.body.extraFields)))
  else .error (.wire (.cbor "cannot encode unknown msg_type"))

end AppMessage

/-! ## Reading -/

section Fields

variable (m : List (UInt64 × Value)) (key : UInt64)

/-- `expect_uint(map_get(m, key)?)`. -/
def uintAt : Except CoreError UInt64 := liftWire (Cbor.getUint m key)

/-- `expect_text(map_get(m, key)?)`. -/
def textAt : Except CoreError String := liftWire (Cbor.mapGet m key >>= Cbor.expectText)

/-- `expect_bytes(map_get(m, key)?)`. -/
def bytesAt : Except CoreError Bytes := liftWire (Cbor.mapGet m key >>= Cbor.expectBytes)

/-- `fixed(expect_bytes(map_get(m, key)?)?)`. -/
def fixedAt (n : ℕ) : Except CoreError (FixedBytes n) := liftWire (Cbor.getFixed n m key)

/-- A missing entry is a bad introduction. -/
def presentAt : Except CoreError Unit :=
  if (Cbor.mapGetOpt m key).isSome then .ok () else .error .badIntro

/-- `map_get_opt(m, key)`, and the reader where there is an entry. -/
def optionalAt {α : Type} (reader : Except CoreError α) : Except CoreError (Option α) :=
  match Cbor.mapGetOpt m key with
  | some _ => reader.map some
  | none => .ok none

/-- `expect_array`, and a text in every place. -/
def textsOf : Value → Except WireError (List String)
  | .array items => items.mapM Cbor.expectText
  | _ => .error (.cbor "expected array")

/-- `decode_ice(map_get(m, key)?)`. -/
def iceAt : Except CoreError (List String) := liftWire (Cbor.mapGet m key >>= textsOf)

/-- `decode_meta(map_get(m, key)?)`. -/
def metaAt : Except CoreError FileMeta := do
  let fields ← liftWire (Cbor.mapGet m key >>= Cbor.expectMap)
  let name ← textAt fields 0
  let mime ← textAt fields 1
  let size ← uintAt fields 2
  .ok { name, mime, size }

end Fields

/-- The introduction in a capability message. -/
def readIntro (m : List (UInt64 × Value)) : Except CoreError CapabilityIntro := do
  let identityId ← fixedAt m 6 32
  let identityPublicKey ← fixedAt m 7 32
  let revocationPublicKey ← fixedAt m 8 32
  let destHpke ← fixedAt m 9 32
  let bindingSeq ← uintAt m 10
  presentAt m 11
  let sessionKey ← bytesAt m 11
  presentAt m 12
  let recipient ← fixedAt m 12 32
  presentAt m 13
  let signature ← fixedAt m 13 64
  .ok { identityId, identityPublicKey, revocationPublicKey, destHpke, bindingSeq, sessionKey,
        recipient, signature }

/-- The four fields of a call signal but its candidates' key. -/
def readSignal (m : List (UInt64 × Value)) : Except CoreError LocalSignal := do
  let callId ← fixedAt m 5 16
  let sdp ← textAt m 6
  let dtlsFp ← textAt m 7
  let ice ← iceAt m 8
  .ok { callId, sdp, dtlsFp, ice }

/-- `parse_body`. -/
def parseBody (msgType : String) (m : List (UInt64 × Value)) : Except CoreError AppBody :=
  match msgType with
  | "text" => do
    let text ← textAt m 5
    .ok (.text text)
  | "attachment" => do
    let encFile ← bytesAt m 5
    let file ← metaAt m 6
    let fetchToken ← optionalAt m 7 (fixedAt m 7 32)
    .ok (.attachment encFile file fetchToken)
  | "reaction" => do
    let target ← uintAt m 5
    let emoji ← textAt m 6
    .ok (.reaction target emoji)
  | "delete" => do
    let target ← uintAt m 5
    .ok (.delete target)
  | "protocol_ack" => do
    let upto ← uintAt m 5
    .ok (.protocolAck upto)
  | "read" => do
    let upto ← uintAt m 5
    .ok (.read upto)
  | "capability" => do
    let contactCapability ← fixedAt m 5 32
    let intro ← optionalAt m 6 (readIntro m)
    .ok (.capability contactCapability intro)
  | "binding_gossip" => do
    let identityId ← fixedAt m 5 32
    let seq ← uintAt m 6
    let serverId ← fixedAt m 7 32
    .ok (.bindingGossip identityId seq serverId)
  | "disappear" => do
    let seconds ← uintAt m 5
    .ok (.disappear seconds)
  | "group_name" => do
    let groupId ← fixedAt m 5 32
    let name ← textAt m 6
    .ok (.groupName groupId name)
  | "call_invite" => do
    let signal ← readSignal m
    let expiresAt ← uintAt m 9
    .ok (.callInvite signal expiresAt)
  | "call_ringing" => do
    let callId ← fixedAt m 5 16
    .ok (.callRinging callId)
  | "call_answer" => do
    let signal ← readSignal m
    .ok (.callAnswer signal)
  | "call_ice" => do
    let callId ← fixedAt m 5 16
    let ice ← iceAt m 6
    .ok (.callIce callId ice)
  | "call_reject" => do
    let callId ← fixedAt m 5 16
    .ok (.callReject callId)
  | "call_cancel" => do
    let callId ← fixedAt m 5 16
    .ok (.callCancel callId)
  | "call_end" => do
    let callId ← fixedAt m 5 16
    .ok (.callEnd callId)
  | other => .ok (.unknown other)

namespace AppMessage

/-- What `app::decode` makes of the entries of a map. -/
def ofPairs (m : List (UInt64 × Value)) : Except CoreError AppMessage := do
  let version ← uintAt m 0
  if version ≠ protocolVersion.toUInt64 then .error (.wire (.unknownVersion version))
  else do
    let msgType ← textAt m 1
    let convSeq ← uintAt m 2
    let sentAt ← uintAt m 3
    let replyTo ← optionalAt m 4 (uintAt m 4)
    let body ← parseBody msgType m
    let msg : AppMessage := { header := { convSeq, sentAt, replyTo }, body }
    if msg.body.isKnown then do
      msg.validate
      .ok msg
    else .ok msg

/-- `app::decode`. -/
def decode (bytes : Bytes) : Except CoreError AppMessage := do
  match ← liftWire (Cbor.decode bytes) with
  | .map m => ofPairs m
  | _ => .error (.wire (.cbor "app message must be a map"))

end AppMessage

/-! ## Round trip -/

/-- The kinds that have a name. -/
def msgTypes : List String :=
  ["text", "attachment", "reaction", "delete", "protocol_ack", "read", "capability",
    "binding_gossip", "disappear", "group_name", "call_invite", "call_ringing", "call_answer",
    "call_ice", "call_reject", "call_cancel", "call_end"]

theorem textsOf_iceValue (ice : List String) : textsOf (iceValue ice) = .ok ice := by
  rw [iceValue, textsOf]
  induction ice with
  | nil => rfl
  | cons candidate ice ih =>
    rw [List.map_cons, List.mapM_cons, ih]
    rfl

theorem wf_iceValue {ice : List String} (h : (iceValue ice).Sized) : (iceValue ice).Wf := by
  rw [iceValue, Value.Sized, List.length_map] at h
  rw [iceValue, Value.Wf, List.length_map]
  refine ⟨h.1, ?_⟩
  replace h := h.2
  induction ice with
  | nil => trivial
  | cons candidate ice ih => exact ⟨h.1, ih h.2⟩

theorem eq_iceValue_of_textsOf {value : Value} {ice : List String}
    (h : textsOf value = .ok ice) : value = iceValue ice := by
  cases value with
  | array items =>
    rw [textsOf] at h
    induction items generalizing ice with
    | nil =>
      cases h
      rfl
    | cons item items ih =>
      rw [List.mapM_cons] at h
      obtain ⟨candidate, hcandidate, h⟩ := bind_eq_ok.mp h
      obtain ⟨rest, hrest, h⟩ := bind_eq_ok.mp h
      cases h
      cases item <;> cases hcandidate
      have hitems := Value.array.inj (ih hrest)
      rw [hitems, iceValue, List.map_cons]
  | _ => cases h

theorem eq_ok_of_optionalAt {α : Type} {m : List (UInt64 × Value)} {key : UInt64}
    {reader : Except CoreError α} {a : α} (h : optionalAt m key reader = .ok (some a)) :
    reader = .ok a := by
  rw [optionalAt] at h
  split at h
  · cases reader with
    | error e => cases h
    | ok _ =>
      cases h
      rfl
  · cases h

/-- The fields of a kind have the keys above `4`. -/
theorem AppBody.mapGetOpt_extraFields (body : AppBody) :
    Cbor.mapGetOpt body.extraFields 4 = none := by
  cases body with
  | attachment _ _ fetchToken => cases fetchToken <;> rfl
  | capability _ intro => cases intro <;> rfl
  | _ => rfl

namespace AppMessage

/-- Every length is a `usize`. -/
def Sized (msg : AppMessage) : Prop :=
  (Value.map (msg.headerFields ++ msg.body.extraFields)).Sized

/-- The header has the keys below `5`. -/
theorem mapGetOpt_headerFields (msg : AppMessage) (fields : List (UInt64 × Value)) {key : UInt64}
    (h : 4 < key) :
    Cbor.mapGetOpt (msg.headerFields ++ fields) key = Cbor.mapGetOpt fields key := by
  have hne (n : UInt64) (hn : n ≤ 4) : (n == key) = false :=
    beq_false_of_ne (UInt64.ne_of_lt (UInt64.lt_of_le_of_lt hn h))
  rw [Cbor.mapGetOpt, Cbor.mapGetOpt, headerFields, List.append_assoc]
  cases msg.header.replyTo <;>
    simp [hne 0 (by decide), hne 1 (by decide), hne 2 (by decide), hne 3 (by decide),
      hne 4 (by decide)]

theorem parseBody_extraFields (msg : AppMessage) (h : msg.body.isKnown) :
    parseBody msg.body.msgType (msg.headerFields ++ msg.body.extraFields) = .ok msg.body := by
  have hget {key : UInt64} := @mapGetOpt_headerFields msg msg.body.extraFields key
  generalize msg.headerFields ++ msg.body.extraFields = m at hget
  generalize msg.body = body at h hget
  cases body with
  | unknown msgType => cases h
  | attachment encFile file fetchToken =>
    simp only [AppBody.msgType, parseBody, optionalAt, bytesAt, metaAt, fixedAt, Cbor.getFixed,
      Cbor.mapGet, hget, UInt64.reduceLT]
    cases fetchToken <;>
      simp [AppBody.extraFields, FileMeta.encode, textAt, uintAt, liftWire, Cbor.mapGetOpt,
        Cbor.getUint, Cbor.mapGet, Cbor.expectBytes, Cbor.expectMap, Cbor.expectText,
        Cbor.expectUint, bind, Except.bind, Except.map]
  | capability contactCapability intro =>
    simp only [AppBody.msgType, parseBody, optionalAt, readIntro, presentAt, bytesAt, fixedAt,
      uintAt, Cbor.getFixed, Cbor.getUint, Cbor.mapGet, hget, UInt64.reduceLT]
    cases intro <;>
      simp [AppBody.extraFields, CapabilityIntro.fields, liftWire, Cbor.mapGetOpt,
        Cbor.expectBytes, Cbor.expectUint, bind, Except.bind, Except.map]
  | _ =>
    simp only [AppBody.msgType, parseBody, readSignal, iceAt, fixedAt, textAt, uintAt,
      Cbor.getFixed, Cbor.getUint, Cbor.mapGet, hget, UInt64.reduceLT]
    simp [AppBody.extraFields, liftWire, Cbor.mapGetOpt, Cbor.expectBytes, Cbor.expectText,
      Cbor.expectUint, textsOf_iceValue, bind, Except.bind]

theorem wf_fields {msg : AppMessage} (h : msg.Sized) :
    (Value.map (msg.headerFields ++ msg.body.extraFields)).Wf := by
  unfold Sized at h
  obtain ⟨⟨convSeq, sentAt, replyTo⟩, body⟩ := msg
  have hice {ice : List String} := @wf_iceValue ice
  cases body with
  | attachment encFile file fetchToken =>
    cases replyTo <;> cases fetchToken <;>
      simp [headerFields, AppBody.extraFields, FileMeta.encode, versionValue, AppBody.msgType,
        Value.Sized, Cbor.pairsSized, Value.Wf, Cbor.pairsWf] at h ⊢ <;> tauto
  | capability contactCapability intro =>
    cases replyTo <;> cases intro <;>
      simp [headerFields, AppBody.extraFields, CapabilityIntro.fields, versionValue,
        AppBody.msgType, Value.Sized, Cbor.pairsSized, Value.Wf, Cbor.pairsWf] at h ⊢ <;> tauto
  | _ =>
    cases replyTo <;>
      simp [headerFields, AppBody.extraFields, versionValue, AppBody.msgType, Value.Sized,
        Cbor.pairsSized, Value.Wf, Cbor.pairsWf] at h ⊢ <;> tauto

/-- The header is read back whatever the fields of the kind are. -/
theorem ofPairs_headerFields (msg : AppMessage) (fields : List (UInt64 × Value))
    (hfree : Cbor.mapGetOpt fields 4 = none) :
    ofPairs (msg.headerFields ++ fields) = (do
      let body ← parseBody msg.body.msgType (msg.headerFields ++ fields)
      let read : AppMessage := { header := msg.header, body }
      if body.isKnown then do
        read.validate
        .ok read
      else .ok read) := by
  generalize hm : msg.headerFields ++ fields = m
  have hversion : uintAt m 0 = .ok protocolVersion.toUInt64 := by
    rw [← hm]
    rfl
  have htype : textAt m 1 = .ok msg.body.msgType := by
    rw [← hm]
    rfl
  have hseq : uintAt m 2 = .ok msg.header.convSeq := by
    rw [← hm]
    rfl
  have hsent : uintAt m 3 = .ok msg.header.sentAt := by
    rw [← hm]
    rfl
  have hreply : Cbor.mapGetOpt m 4 = msg.header.replyTo.map Value.uint := by
    rw [← hm, headerFields]
    cases msg.header.replyTo with
    | none => exact hfree
    | some seq => rfl
  rw [ofPairs, hversion, htype, hseq, hsent]
  obtain ⟨⟨convSeq, sentAt, replyTo⟩, body⟩ := msg
  cases replyTo with
  | none =>
    rw [Option.map_none] at hreply
    simp only [optionalAt, hreply]
    rfl
  | some seq =>
    rw [Option.map_some] at hreply
    have huint : uintAt m 4 = .ok seq := by
      rw [uintAt, Cbor.getUint, Cbor.mapGet, hreply]
      rfl
    simp only [optionalAt, hreply, huint]
    rfl

theorem encode_eq_ok {msg : AppMessage} {b : Bytes} : encode msg = .ok b ↔
    msg.body.isKnown ∧ msg.validate = .ok () ∧
      Cbor.encode (.map (msg.headerFields ++ msg.body.extraFields)) = b := by
  rw [encode]
  cases hknown : msg.body.isKnown with
  | false => simp
  | true =>
    cases hvalid : msg.validate with
    | error e => simp [bind, Except.bind]
    | ok _ => simp [bind, Except.bind]

theorem decode_eq_ok {b : Bytes} {msg : AppMessage} : decode b = .ok msg ↔
    ∃ m, Cbor.decode b = .ok (.map m) ∧ ofPairs m = .ok msg := by
  rw [decode]
  cases hread : Cbor.decode b with
  | error e => simp [liftWire, bind, Except.bind]
  | ok value => cases value <;> simp [liftWire, bind, Except.bind]

/-- What is written is read back. -/
theorem decode_of_encode {msg : AppMessage} {b : Bytes} (hsized : msg.Sized)
    (h : encode msg = .ok b) : decode b = .ok msg := by
  obtain ⟨hknown, hvalid, rfl⟩ := encode_eq_ok.mp h
  rw [decode_eq_ok]
  refine ⟨_, Cbor.decode_encode (wf_fields hsized), ?_⟩
  rw [ofPairs_headerFields msg _ msg.body.mapGetOpt_extraFields, parseBody_extraFields msg hknown]
  change (if msg.body.isKnown then _ else _) = _
  rw [if_pos hknown, hvalid]
  rfl

theorem ofPairs_eq_ok {m : List (UInt64 × Value)} {msg : AppMessage} (h : ofPairs m = .ok msg) :
    ∃ msgType, textAt m 1 = .ok msgType ∧ parseBody msgType m = .ok msg.body ∧
      (msg.body.isKnown → msg.validate = .ok ()) := by
  rw [ofPairs] at h
  obtain ⟨version, hversion, h⟩ := bind_eq_ok.mp h
  split_ifs at h
  obtain ⟨msgType, htype, h⟩ := bind_eq_ok.mp h
  obtain ⟨convSeq, hseq, h⟩ := bind_eq_ok.mp h
  obtain ⟨sentAt, hsent, h⟩ := bind_eq_ok.mp h
  obtain ⟨replyTo, hreply, h⟩ := bind_eq_ok.mp h
  obtain ⟨body, hbody, h⟩ := bind_eq_ok.mp h
  dsimp only at h
  split_ifs at h with hknown
  · obtain ⟨_, hvalid, h⟩ := bind_eq_ok.mp h
    cases h
    exact ⟨msgType, htype, hbody, fun _ ↦ hvalid⟩
  · cases h
    exact ⟨msgType, htype, hbody, fun h ↦ absurd h hknown⟩

end AppMessage

/-! ## What is read -/

section Reading

variable {m : List (UInt64 × Value)} (hwf : Cbor.pairsWf m) {key : UInt64}

include hwf

theorem wf_of_mapGet {value : Value} (h : Cbor.mapGet m key = .ok value) : value.Wf := by
  rw [Cbor.mapGet] at h
  split at h
  · rename_i found hfound
    cases h
    obtain ⟨p, hp, rfl⟩ := Option.map_eq_some_iff.mp hfound
    exact Cbor.pairsWf_iff.mp hwf p (List.mem_of_find?_eq_some hp)
  · cases h

theorem wf_of_textAt {s : String} (h : textAt m key = .ok s) : (Value.text s).Wf := by
  obtain ⟨value, hvalue, h⟩ := bind_eq_ok.mp (eq_ok_of_liftWire h)
  cases value <;> cases h
  exact wf_of_mapGet hwf hvalue

theorem wf_of_bytesAt {b : Bytes} (h : bytesAt m key = .ok b) : (Value.bytes b).Wf := by
  obtain ⟨value, hvalue, h⟩ := bind_eq_ok.mp (eq_ok_of_liftWire h)
  cases value <;> cases h
  exact wf_of_mapGet hwf hvalue

theorem wf_of_iceAt {ice : List String} (h : iceAt m key = .ok ice) : (iceValue ice).Wf := by
  obtain ⟨value, hvalue, h⟩ := bind_eq_ok.mp (eq_ok_of_liftWire h)
  rw [← eq_iceValue_of_textsOf h]
  exact wf_of_mapGet hwf hvalue

theorem wf_of_metaAt {file : FileMeta} (h : metaAt m key = .ok file) : file.encode.Wf := by
  obtain ⟨fields, hfields, h⟩ := bind_eq_ok.mp h
  obtain ⟨value, hvalue, hfields⟩ := bind_eq_ok.mp (eq_ok_of_liftWire hfields)
  cases value <;> cases hfields
  have hfields := (wf_of_mapGet hwf hvalue).2.2
  obtain ⟨name, hname, h⟩ := bind_eq_ok.mp h
  obtain ⟨mime, hmime, h⟩ := bind_eq_ok.mp h
  obtain ⟨size, -, h⟩ := bind_eq_ok.mp h
  cases h
  exact ⟨by simp, by simp, wf_of_textAt hfields hname, wf_of_textAt hfields hmime, trivial,
    trivial⟩

theorem wf_of_readIntro {intro : CapabilityIntro} (h : readIntro m = .ok intro) :
    (Value.bytes intro.sessionKey).Wf := by
  obtain ⟨identityId, -, h⟩ := bind_eq_ok.mp h
  obtain ⟨identityPublicKey, -, h⟩ := bind_eq_ok.mp h
  obtain ⟨revocationPublicKey, -, h⟩ := bind_eq_ok.mp h
  obtain ⟨destHpke, -, h⟩ := bind_eq_ok.mp h
  obtain ⟨bindingSeq, -, h⟩ := bind_eq_ok.mp h
  obtain ⟨_, -, h⟩ := bind_eq_ok.mp h
  obtain ⟨sessionKey, hkey, h⟩ := bind_eq_ok.mp h
  obtain ⟨_, -, h⟩ := bind_eq_ok.mp h
  obtain ⟨recipient, -, h⟩ := bind_eq_ok.mp h
  obtain ⟨_, -, h⟩ := bind_eq_ok.mp h
  obtain ⟨signature, -, h⟩ := bind_eq_ok.mp h
  cases h
  exact wf_of_bytesAt hwf hkey

theorem wf_of_readSignal {signal : LocalSignal} (h : readSignal m = .ok signal) :
    (Value.text signal.sdp).Wf ∧ (Value.text signal.dtlsFp).Wf ∧ (iceValue signal.ice).Wf := by
  obtain ⟨callId, -, h⟩ := bind_eq_ok.mp h
  obtain ⟨sdp, hsdp, h⟩ := bind_eq_ok.mp h
  obtain ⟨dtlsFp, hdtlsFp, h⟩ := bind_eq_ok.mp h
  obtain ⟨ice, hice, h⟩ := bind_eq_ok.mp h
  cases h
  exact ⟨wf_of_textAt hwf hsdp, wf_of_textAt hwf hdtlsFp, wf_of_iceAt hwf hice⟩

end Reading

/-- The kind read is the one named, and what is read has sizes. -/
theorem parseBody_eq_ok {msgType : String} {m : List (UInt64 × Value)} {body : AppBody}
    (hwf : Cbor.pairsWf m) (h : parseBody msgType m = .ok body) :
    body.msgType = msgType ∧ (msgType ∈ msgTypes → body.isKnown) ∧
      Cbor.pairsWf body.extraFields := by
  have hfixed {n : ℕ} (b : FixedBytes n) (hn : n < 2 ^ 64) : (Value.bytes b.data).Wf := by
    rwa [Value.Wf, b.length_data]
  unfold parseBody at h
  split at h
  · obtain ⟨words, hwords, h⟩ := bind_eq_ok.mp h
    cases h
    exact ⟨rfl, fun _ ↦ rfl, wf_of_textAt hwf hwords, trivial⟩
  · obtain ⟨encFile, hencFile, h⟩ := bind_eq_ok.mp h
    obtain ⟨file, hfile, h⟩ := bind_eq_ok.mp h
    obtain ⟨fetchToken, -, h⟩ := bind_eq_ok.mp h
    cases h
    refine ⟨rfl, fun _ ↦ rfl, wf_of_bytesAt hwf hencFile, wf_of_metaAt hwf hfile, ?_⟩
    cases fetchToken with
    | none => trivial
    | some token => exact ⟨hfixed token (by decide), trivial⟩
  · obtain ⟨target, -, h⟩ := bind_eq_ok.mp h
    obtain ⟨emoji, hemoji, h⟩ := bind_eq_ok.mp h
    cases h
    exact ⟨rfl, fun _ ↦ rfl, trivial, wf_of_textAt hwf hemoji, trivial⟩
  · obtain ⟨target, -, h⟩ := bind_eq_ok.mp h
    cases h
    exact ⟨rfl, fun _ ↦ rfl, trivial, trivial⟩
  · obtain ⟨upto, -, h⟩ := bind_eq_ok.mp h
    cases h
    exact ⟨rfl, fun _ ↦ rfl, trivial, trivial⟩
  · obtain ⟨upto, -, h⟩ := bind_eq_ok.mp h
    cases h
    exact ⟨rfl, fun _ ↦ rfl, trivial, trivial⟩
  · obtain ⟨contactCapability, -, h⟩ := bind_eq_ok.mp h
    obtain ⟨intro, hintro, h⟩ := bind_eq_ok.mp h
    cases h
    refine ⟨rfl, fun _ ↦ rfl, hfixed contactCapability (by decide), ?_⟩
    cases intro with
    | none => trivial
    | some intro =>
      have hread := eq_ok_of_optionalAt hintro
      exact ⟨hfixed _ (by decide), hfixed _ (by decide), hfixed _ (by decide),
        hfixed _ (by decide), trivial, wf_of_readIntro hwf hread, hfixed _ (by decide),
        hfixed _ (by decide), trivial⟩
  · obtain ⟨identityId, -, h⟩ := bind_eq_ok.mp h
    obtain ⟨seq, -, h⟩ := bind_eq_ok.mp h
    obtain ⟨serverId, -, h⟩ := bind_eq_ok.mp h
    cases h
    exact ⟨rfl, fun _ ↦ rfl, hfixed _ (by decide), trivial, hfixed _ (by decide), trivial⟩
  · obtain ⟨seconds, -, h⟩ := bind_eq_ok.mp h
    cases h
    exact ⟨rfl, fun _ ↦ rfl, trivial, trivial⟩
  · obtain ⟨groupId, -, h⟩ := bind_eq_ok.mp h
    obtain ⟨name, hname, h⟩ := bind_eq_ok.mp h
    cases h
    exact ⟨rfl, fun _ ↦ rfl, hfixed _ (by decide), wf_of_textAt hwf hname, trivial⟩
  · obtain ⟨signal, hsignal, h⟩ := bind_eq_ok.mp h
    obtain ⟨expiresAt, -, h⟩ := bind_eq_ok.mp h
    cases h
    obtain ⟨hsdp, hdtlsFp, hice⟩ := wf_of_readSignal hwf hsignal
    exact ⟨rfl, fun _ ↦ rfl, hfixed _ (by decide), hsdp, hdtlsFp, hice, trivial, trivial⟩
  · obtain ⟨callId, -, h⟩ := bind_eq_ok.mp h
    cases h
    exact ⟨rfl, fun _ ↦ rfl, hfixed _ (by decide), trivial⟩
  · obtain ⟨signal, hsignal, h⟩ := bind_eq_ok.mp h
    cases h
    obtain ⟨hsdp, hdtlsFp, hice⟩ := wf_of_readSignal hwf hsignal
    exact ⟨rfl, fun _ ↦ rfl, hfixed _ (by decide), hsdp, hdtlsFp, hice, trivial⟩
  · obtain ⟨callId, -, h⟩ := bind_eq_ok.mp h
    obtain ⟨ice, hice, h⟩ := bind_eq_ok.mp h
    cases h
    exact ⟨rfl, fun _ ↦ rfl, hfixed _ (by decide), wf_of_iceAt hwf hice, trivial⟩
  · obtain ⟨callId, -, h⟩ := bind_eq_ok.mp h
    cases h
    exact ⟨rfl, fun _ ↦ rfl, hfixed _ (by decide), trivial⟩
  · obtain ⟨callId, -, h⟩ := bind_eq_ok.mp h
    cases h
    exact ⟨rfl, fun _ ↦ rfl, hfixed _ (by decide), trivial⟩
  · obtain ⟨callId, -, h⟩ := bind_eq_ok.mp h
    cases h
    exact ⟨rfl, fun _ ↦ rfl, hfixed _ (by decide), trivial⟩
  · cases h
    refine ⟨rfl, fun hname ↦ ?_, trivial⟩
    simp_all [msgTypes]

namespace AppBody

theorem msgType_mem {body : AppBody} (h : body.isKnown) : body.msgType ∈ msgTypes := by
  cases body with
  | unknown msgType => cases h
  | _ => simp [msgType, msgTypes]

theorem length_extraFields_le (body : AppBody) : body.extraFields.length ≤ 9 := by
  cases body with
  | attachment _ _ fetchToken => cases fetchToken <;> simp [extraFields]
  | capability _ intro => cases intro <;> simp [extraFields, CapabilityIntro.fields]
  | _ => simp [extraFields]

end AppBody

namespace AppMessage

/-- A message of a kind with a name has sizes when its fields have. -/
theorem sized_of_extraFields {msg : AppMessage} (hknown : msg.body.isKnown)
    (h : Cbor.pairsWf msg.body.extraFields) : msg.Sized := by
  have htype : msg.body.msgType.utf8ByteSize < 2 ^ 64 := by
    have hmem : ∀ name ∈ msgTypes, name.utf8ByteSize < 2 ^ 64 := by decide
    exact hmem _ (AppBody.msgType_mem hknown)
  have hlength := msg.body.length_extraFields_le
  have hfields := Cbor.pairsSized_of_wf h
  rw [Sized, headerFields]
  cases msg.header.replyTo with
  | none =>
    exact ⟨by simp; omega, trivial, htype, trivial, trivial, hfields⟩
  | some seq =>
    exact ⟨by simp; omega, trivial, htype, trivial, trivial, trivial, hfields⟩

/-- What is written is read back. A message of a kind with a name that is read can be written and
read again, so the two sides accept the same messages, and the kind read is always the one named. -/
theorem decode_encode_message :
    (∀ (msg : AppMessage) (b : Bytes), msg.Sized → encode msg = .ok b → decode b = .ok msg) ∧
    (∀ (b : Bytes) (msg : AppMessage), decode b = .ok msg → msg.body.isKnown →
      ∃ b', encode msg = .ok b' ∧ decode b' = .ok msg) ∧
    ∀ (b : Bytes) (msg : AppMessage), decode b = .ok msg →
      ∃ m, Cbor.decode b = .ok (.map m) ∧ textAt m 1 = .ok msg.body.msgType ∧
        (msg.body.isKnown ↔ msg.body.msgType ∈ msgTypes) := by
  have hread (b : Bytes) (msg : AppMessage) (h : decode b = .ok msg) :
      ∃ m, Cbor.decode b = .ok (.map m) ∧ textAt m 1 = .ok msg.body.msgType ∧
        (msg.body.msgType ∈ msgTypes → msg.body.isKnown) ∧ Cbor.pairsWf msg.body.extraFields ∧
        (msg.body.isKnown → msg.validate = .ok ()) := by
    obtain ⟨m, hcbor, h⟩ := decode_eq_ok.mp h
    obtain ⟨msgType, htype, hbody, hvalid⟩ := ofPairs_eq_ok h
    obtain ⟨rfl, hname, hwf⟩ := parseBody_eq_ok (Cbor.wf_of_decode hcbor).2.2 hbody
    exact ⟨m, hcbor, htype, hname, hwf, hvalid⟩
  refine ⟨fun msg b ↦ decode_of_encode, ?_, ?_⟩
  · intro b msg h hknown
    obtain ⟨m, -, -, -, hwf, hvalid⟩ := hread b msg h
    have hencode := encode_eq_ok.mpr ⟨hknown, hvalid hknown, rfl⟩
    exact ⟨_, hencode, decode_of_encode (sized_of_extraFields hknown hwf) hencode⟩
  · intro b msg h
    obtain ⟨m, hcbor, htype, hname, -, -⟩ := hread b msg h
    exact ⟨m, hcbor, htype, AppBody.msgType_mem, hname⟩

/-- A reaction in answer to the message with number `1`. -/
theorem decode_encode_message_reaction :
    decode [0xa7, 0, 1, 1, 0x68, 114, 101, 97, 99, 116, 105, 111, 110, 2, 2, 3, 3, 4, 1, 5, 1, 6,
      0x61, 43] =
      .ok ⟨⟨2, 3, some 1⟩, .reaction 1 "+"⟩ := by
  have hemoji : "+".utf8ByteSize < 2 ^ 64 := by decide
  refine decode_encode_message.1 _ _ ?_ rfl
  exact sized_of_extraFields rfl ⟨trivial, hemoji, trivial⟩

end AppMessage

end NemoMessenger.Client
