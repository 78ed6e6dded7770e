import NemoMessenger.Wire.Crypto

/-!
# Signed objects

Home-server bindings and the cards that carry them, revocation statements, server bundles and their
key rotations, and the signatures mailbox owners put on their requests. Every object signs the CBOR
map of its other fields. Those the database keeps as CBOR come back from it unchanged.
-/

namespace NemoMessenger.Wire

open Cbor (Value)

/-- `Value::Uint(PROTOCOL_VERSION as u64)`. -/
def versionValue : Value := .uint protocolVersion.toUInt64

/-! ## Home-server bindings -/

/-- `HomeServerBinding`. -/
structure HomeServerBinding where
  serverId : ServerId
  serverHpkePublicKey : Key
  host : Text
  seq : UInt64
  expiresAt : UInt64
  signature : Signature
  deriving DecidableEq

/-- `HOST_MAX_BYTES`. -/
def hostMaxBytes : ℕ := 64

/-- `CLOCK_SKEW_SECS`. -/
def clockSkewSecs : ℕ := 300

/-- `validate_host`. A text with `://` in it has a colon, so the third test of the source adds
nothing to the first two. -/
def validateHost (host : Text) : Except WireError Unit :=
  if host.chars.isEmpty || host.chars.utf8ByteSize > hostMaxBytes then .error .badHost
  else if host.chars.toList.contains '/' || host.chars.toList.contains ':' then .error .badHost
  else .ok ()

namespace HomeServerBinding

/-- The signed fields. -/
def unsignedPairs (binding : HomeServerBinding) : List (UInt64 × Value) :=
  [(0, .bytes binding.serverId.data), (1, .bytes binding.serverHpkePublicKey.data),
    (2, .text binding.host.chars), (3, .uint binding.seq), (4, .uint binding.expiresAt)]

/-- `HomeServerBinding::verify`. The sum wraps as the release profile computes it. -/
def verify (crypto : Crypto) (binding : HomeServerBinding) (identityKey : Key) (now : ℕ) :
    Except WireError Unit := do
  validateHost binding.host
  if binding.serverId ≠ crypto.serverId binding.serverHpkePublicKey then .error .serverIdMismatch
  else if wrappingAdd binding.expiresAt.toNat clockSkewSecs < now then .error .bindingExpired
  else
    crypto.verifyContext identityKey .homeServerBinding
      (Cbor.encode (.map binding.unsignedPairs)) binding.signature

/-- `to_cbor_value`. -/
def toCborValue (binding : HomeServerBinding) : Value :=
  .map (binding.unsignedPairs ++ [(5, .bytes binding.signature.data)])

/-- `from_cbor_value`. -/
def fromCborValue (value : Value) : Except WireError HomeServerBinding := do
  let m ← Cbor.expectMap value
  let serverId ← Cbor.getFixed 32 m 0
  let serverHpkePublicKey ← Cbor.getFixed 32 m 1
  let host ← Cbor.getText m 2
  let seq ← Cbor.getUint m 3
  let expiresAt ← Cbor.getUint m 4
  let signature ← Cbor.getFixed 64 m 5
  .ok { serverId, serverHpkePublicKey, host, seq, expiresAt, signature }

theorem wf_toCborValue (binding : HomeServerBinding) : binding.toCborValue.Wf := by
  have hhost := binding.host.size_lt
  simp [toCborValue, unsignedPairs, Value.Wf, Cbor.pairsWf]
  omega

theorem fromCborValue_toCborValue (binding : HomeServerBinding) :
    fromCborValue binding.toCborValue = .ok binding := by
  simp [fromCborValue, toCborValue, unsignedPairs, Cbor.expectMap, Cbor.getFixed, Cbor.getText,
    Cbor.getUint, Cbor.mapGet, Cbor.mapGetOpt, Cbor.expectBytes, Cbor.expectText, Cbor.expectUint,
    bind, Except.bind]

end HomeServerBinding

/-- `ContactCard`. -/
structure ContactCard where
  identityPublicKey : Key
  revocationPublicKey : Key
  shareToken : Key
  binding : HomeServerBinding
  deriving DecidableEq

namespace ContactCard

/-- `ContactCard::identity_id`. -/
def identityId (crypto : Crypto) (card : ContactCard) : IdentityId :=
  crypto.identityId card.identityPublicKey

/-- `ContactCard::verify`. -/
def verify (crypto : Crypto) (card : ContactCard) (now : ℕ) : Except WireError Unit :=
  if crypto.isVerifyingKey card.identityPublicKey then
    card.binding.verify crypto card.identityPublicKey now
  else .error .signature

end ContactCard

/-! ## Revocation statements -/

/-- `RevocationStatement`. -/
structure RevocationStatement where
  identityId : IdentityId
  coarseTimestamp : UInt64
  signature : Signature
  deriving DecidableEq

namespace RevocationStatement

/-- The signed fields. -/
def unsignedPairs (stmt : RevocationStatement) : List (UInt64 × Value) :=
  [(0, versionValue), (1, .bytes stmt.identityId.data), (2, .text "revoked"),
    (3, .uint stmt.coarseTimestamp)]

/-- `RevocationStatement::verify`. -/
def verify (crypto : Crypto) (stmt : RevocationStatement) (revocationKey : Key) :
    Except WireError Unit :=
  crypto.verifyContext revocationKey .revocation (Cbor.encode (.map stmt.unsignedPairs))
    stmt.signature

/-- `RevocationStatement::encode`. -/
def encode (stmt : RevocationStatement) : Bytes :=
  Cbor.encode (.map (stmt.unsignedPairs ++ [(4, .bytes stmt.signature.data)]))

/-- `RevocationStatement::decode`. -/
def decode (bytes : Bytes) : Except WireError RevocationStatement := do
  match ← Cbor.decode bytes with
  | .map m => do
    let version ← Cbor.getUint m 0
    if version ≠ protocolVersion.toUInt64 then .error (.unknownVersion version)
    else do
      let status ← Cbor.getText m 2
      if status.chars ≠ "revoked" then .error .badRevocationStatus
      else do
        let identityId ← Cbor.getFixed 32 m 1
        let coarseTimestamp ← Cbor.getUint m 3
        let signature ← Cbor.getFixed 64 m 4
        .ok { identityId, coarseTimestamp, signature }
  | _ => .error (.cbor "revocation must be a map")

theorem decode_encode (stmt : RevocationStatement) : decode stmt.encode = .ok stmt := by
  have hsize : "revoked".utf8ByteSize = 7 := by decide
  have hwf : (Value.map (stmt.unsignedPairs ++ [(4, .bytes stmt.signature.data)])).Wf := by
    simp [unsignedPairs, Value.Wf, Cbor.pairsWf, versionValue, hsize]
  rw [decode, encode, Cbor.decode_encode hwf]
  simp [unsignedPairs, versionValue, Cbor.getFixed, Cbor.getText, Cbor.getUint, Cbor.mapGet,
    Cbor.mapGetOpt, Cbor.expectBytes, Cbor.expectText, Cbor.expectUint, Text.ofString, hsize,
    bind, Except.bind]

theorem encode_ne_nil (stmt : RevocationStatement) : stmt.encode ≠ [] :=
  List.ne_nil_of_length_pos (Cbor.encode_length_pos _)

end RevocationStatement

/-! ## Server bundles -/

/-- `ServerBundle`. -/
structure ServerBundle where
  serverId : ServerId
  serverHpkePublicKey : Key
  serverSignPublicKey : Key
  host : Text
  s2sPort : UInt64
  signature : Signature
  deriving DecidableEq

namespace ServerBundle

/-- The signed fields. -/
def unsignedPairs (bundle : ServerBundle) : List (UInt64 × Value) :=
  [(0, versionValue), (1, .bytes bundle.serverId.data), (2, .bytes bundle.serverHpkePublicKey.data),
    (3, .bytes bundle.serverSignPublicKey.data), (4, .text bundle.host.chars),
    (5, .uint bundle.s2sPort)]

/-- `ServerBundle::sign` for a bundle of the signer's own keys, where neither check can fail. -/
def sign (crypto : Crypto) (secret : Key) (bundle : ServerBundle) : ServerBundle :=
  { bundle with
    signature := crypto.signContext secret .serverBundle (Cbor.encode (.map bundle.unsignedPairs)) }

/-- `ServerBundle::verify`. -/
def verify (crypto : Crypto) (bundle : ServerBundle) : Except WireError Unit :=
  if bundle.serverId ≠ crypto.serverId bundle.serverHpkePublicKey then .error .serverIdMismatch
  else if crypto.isVerifyingKey bundle.serverSignPublicKey then
    crypto.verifyContext bundle.serverSignPublicKey .serverBundle
      (Cbor.encode (.map bundle.unsignedPairs)) bundle.signature
  else .error .signature

/-- `ServerBundle::encode`. -/
def encode (bundle : ServerBundle) : Bytes :=
  Cbor.encode (.map (bundle.unsignedPairs ++ [(6, .bytes bundle.signature.data)]))

/-- `ServerBundle::decode`. -/
def decode (bytes : Bytes) : Except WireError ServerBundle := do
  match ← Cbor.decode bytes with
  | .map m => do
    let version ← Cbor.getUint m 0
    if version ≠ protocolVersion.toUInt64 then .error (.unknownVersion version)
    else do
      let serverId ← Cbor.getFixed 32 m 1
      let serverHpkePublicKey ← Cbor.getFixed 32 m 2
      let serverSignPublicKey ← Cbor.getFixed 32 m 3
      let host ← Cbor.getText m 4
      let s2sPort ← Cbor.getUint m 5
      let signature ← Cbor.getFixed 64 m 6
      .ok { serverId, serverHpkePublicKey, serverSignPublicKey, host, s2sPort, signature }
  | _ => .error (.cbor "server bundle must be a map")

theorem decode_encode (bundle : ServerBundle) : decode bundle.encode = .ok bundle := by
  have hwf : (Value.map (bundle.unsignedPairs ++ [(6, .bytes bundle.signature.data)])).Wf := by
    have hhost := bundle.host.size_lt
    simp [unsignedPairs, Value.Wf, Cbor.pairsWf, versionValue]
    omega
  rw [decode, encode, Cbor.decode_encode hwf]
  simp [unsignedPairs, versionValue, Cbor.getFixed, Cbor.getText, Cbor.getUint, Cbor.mapGet,
    Cbor.mapGetOpt, Cbor.expectBytes, Cbor.expectText, Cbor.expectUint, bind, Except.bind]

end ServerBundle

/-- `ServerSignRotate`. -/
structure ServerSignRotate where
  newPublicKey : Key
  seq : UInt64
  signature : Signature
  deriving DecidableEq

/-- `ServerSignRotate::verify`. -/
def ServerSignRotate.verify (crypto : Crypto) (rotate : ServerSignRotate) (currentKey : Key) :
    Except WireError Unit :=
  crypto.verifyContext currentKey .serverSignRotate
    (Cbor.encode (.map [(0, .bytes rotate.newPublicKey.data), (1, .uint rotate.seq)]))
    rotate.signature

/-! ## Owner authentication -/

/-- `AuthScope`. -/
structure AuthScope where
  serverId : ServerId
  method : String
  path : String
  bodyHash : Key
  deriving DecidableEq

namespace AuthScope

/-- `AuthScope::header`. -/
def header (crypto : Crypto) (serverId : ServerId) (method path : String) (body : Bytes) :
    AuthScope :=
  { serverId, method, path, bodyHash := crypto.sha256 body }

/-- `AuthScope::body`. -/
def body (serverId : ServerId) (method path : String) : AuthScope :=
  { serverId, method, path, bodyHash := .replicate 32 0 }

end AuthScope

/-- `MailboxOwnerAuth`. -/
structure MailboxOwnerAuth where
  mailboxHint : Bytes
  cursor : UInt64
  limit : UInt64
  ts : UInt64
  scope : AuthScope
  nonce : Key
  signature : Signature
  deriving DecidableEq

namespace MailboxOwnerAuth

/-- `MAX_AGE_SECS`. -/
def maxAgeSecs : ℕ := 120

/-- The signed fields. -/
def unsignedPairs (auth : MailboxOwnerAuth) : List (UInt64 × Value) :=
  [(0, .bytes auth.mailboxHint), (1, .uint auth.cursor), (2, .uint auth.limit), (3, .uint auth.ts),
    (5, .bytes auth.scope.serverId.data), (6, .text auth.scope.method),
    (7, .text auth.scope.path), (8, .bytes auth.scope.bodyHash.data), (9, .bytes auth.nonce.data)]

/-- `MailboxOwnerAuth::verify`. -/
def verify (crypto : Crypto) (auth : MailboxOwnerAuth) (identityKey : Key) (now : ℕ)
    (expect : AuthScope) : Except WireError Unit :=
  if now - auth.ts.toNat > maxAgeSecs ∨ auth.ts.toNat > wrappingAdd now maxAgeSecs then
    .error .bindingExpired
  else if auth.scope ≠ expect then .error .signature
  else crypto.verifyContext identityKey .mailboxOwner (Cbor.encode (.map auth.unsignedPairs))
    auth.signature

/-- `MailboxOwnerAuth::encode`: the signature stands between the signed fields. -/
def encode (auth : MailboxOwnerAuth) : Bytes :=
  Cbor.encode (.map ((auth.unsignedPairs.take 4 ++ [(4, .bytes auth.signature.data)]) ++
    auth.unsignedPairs.drop 4))

/-- `MailboxOwnerAuth::decode`. -/
def decode (bytes : Bytes) : Except WireError MailboxOwnerAuth := do
  match ← Cbor.decode bytes with
  | .map m => do
    let mailboxHint ← Cbor.mapGet m 0 >>= Cbor.expectBytes
    let cursor ← Cbor.getUint m 1
    let limit ← Cbor.getUint m 2
    let ts ← Cbor.getUint m 3
    let signature ← Cbor.getFixed 64 m 4
    let serverId ← Cbor.getFixed 32 m 5
    let method ← Cbor.mapGet m 6 >>= Cbor.expectText
    let path ← Cbor.mapGet m 7 >>= Cbor.expectText
    let bodyHash ← Cbor.getFixed 32 m 8
    let nonce ← Cbor.getFixed 32 m 9
    .ok
      { mailboxHint, cursor, limit, ts, nonce, signature
        scope := { serverId, method, path, bodyHash } }
  | _ => .error (.cbor "owner auth must be a map")

theorem decode_encode {auth : MailboxOwnerAuth} (hhint : auth.mailboxHint.length < 2 ^ 64)
    (hmethod : auth.scope.method.utf8ByteSize < 2 ^ 64)
    (hpath : auth.scope.path.utf8ByteSize < 2 ^ 64) : decode auth.encode = .ok auth := by
  have hwf : (Value.map ((auth.unsignedPairs.take 4 ++ [(4, .bytes auth.signature.data)]) ++
      auth.unsignedPairs.drop 4)).Wf := by
    simp [unsignedPairs, Value.Wf, Cbor.pairsWf]
    exact ⟨hhint, hmethod, hpath⟩
  rw [decode, encode, Cbor.decode_encode hwf]
  simp [unsignedPairs, Cbor.getFixed, Cbor.getUint, Cbor.mapGet, Cbor.mapGetOpt, Cbor.expectBytes,
    Cbor.expectText, Cbor.expectUint, bind, Except.bind]

end MailboxOwnerAuth

end NemoMessenger.Wire
