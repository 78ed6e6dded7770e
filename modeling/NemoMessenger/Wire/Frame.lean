import NemoMessenger.Wire.Signed

/-!
# Server-to-server frames

A frame is a counter and a payload. The payload is either a control message (hello, ok or fail) in
CBOR or the ciphertext of an envelope, and nothing but `parsePayload` tells the two apart.
-/

namespace NemoMessenger.Wire

open Cbor (Value)

/-- `S2sFrame`. -/
structure S2sFrame where
  counter : ℕ
  payload : Bytes
  deriving DecidableEq

/-- `hello_payload`. -/
def helloPayload (sender receiver : ServerId) : Bytes :=
  Cbor.encode (.map [(0, versionValue), (1, .bytes sender.data), (2, .bytes receiver.data)])

/-- `ok_payload`. -/
def okPayload (seq : ℕ) : Bytes :=
  Cbor.encode (.map [(0, .text "ok"), (1, .uint (UInt64.ofNat seq))])

/-- `fail_payload`. -/
def failPayload : Bytes := Cbor.encode (.map [(0, .text "fail")])

/-- `S2sPayload`. -/
inductive S2sPayload
  | hello (sender receiver : ServerId)
  | ok (seq : UInt64)
  | fail
  | ciphertext (bytes : Bytes)
  deriving DecidableEq

/-- `parse_hello`. -/
def parseHello (bytes : Bytes) : Except WireError (ServerId × ServerId) := do
  match ← Cbor.decode bytes with
  | .map m => do
    let version ← Cbor.getUint m 0
    if version ≠ protocolVersion.toUInt64 then .error (.unknownVersion version)
    else do
      let sender ← Cbor.getFixed 32 m 1
      let receiver ← Cbor.getFixed 32 m 2
      .ok (sender, receiver)
  | _ => .error (.cbor "hello must be a map")

/-- `parse_payload`. -/
def parsePayload (bytes : Bytes) : Except WireError S2sPayload :=
  match Cbor.decode bytes with
  | .ok (.map m) =>
    match Cbor.mapGet m 0 with
    | .ok (.uint n) =>
      if n = 1 then do
        let (sender, receiver) ← parseHello bytes
        .ok (.hello sender receiver)
      else .ok (.ciphertext bytes)
    | .ok (.text s) =>
      if s = "ok" then do
        let seq ← Cbor.getUint m 1
        .ok (.ok seq)
      else if s = "fail" then .ok .fail
      else .ok (.ciphertext bytes)
    | _ => .ok (.ciphertext bytes)
  | _ => .ok (.ciphertext bytes)

theorem decode_helloPayload (sender receiver : ServerId) :
    Cbor.decode (helloPayload sender receiver) =
      .ok (.map [(0, versionValue), (1, .bytes sender.data), (2, .bytes receiver.data)]) := by
  rw [helloPayload, Cbor.decode_encode]
  simp [Value.Wf, Cbor.pairsWf, versionValue]

@[simp] theorem parsePayload_helloPayload (sender receiver : ServerId) :
    parsePayload (helloPayload sender receiver) = .ok (.hello sender receiver) := by
  simp [parsePayload, parseHello, decode_helloPayload, versionValue, protocolVersion, Cbor.mapGet,
    Cbor.mapGetOpt, Cbor.getUint, Cbor.getFixed, Cbor.expectUint, Cbor.expectBytes, bind,
    Except.bind]

@[simp] theorem parsePayload_okPayload (seq : ℕ) :
    parsePayload (okPayload seq) = .ok (.ok (UInt64.ofNat seq)) := by
  have hsize : "ok".utf8ByteSize = 2 := by decide
  have hdecode : Cbor.decode (okPayload seq) =
      .ok (.map [(0, .text "ok"), (1, .uint (UInt64.ofNat seq))]) := by
    rw [okPayload, Cbor.decode_encode]
    simp [Value.Wf, Cbor.pairsWf, hsize]
  simp [parsePayload, hdecode, Cbor.mapGet, Cbor.mapGetOpt, Cbor.getUint, Cbor.expectUint, bind,
    Except.bind]

@[simp] theorem parsePayload_failPayload : parsePayload failPayload = .ok .fail := by
  have hsize : "fail".utf8ByteSize = 4 := by decide
  have hdecode : Cbor.decode failPayload = .ok (.map [(0, .text "fail")]) := by
    rw [failPayload, Cbor.decode_encode]
    simp [Value.Wf, Cbor.pairsWf, hsize]
  simp [parsePayload, hdecode, Cbor.mapGet, Cbor.mapGetOpt]

@[simp] theorem okPayload_ne_nil (seq : ℕ) : okPayload seq ≠ [] :=
  List.ne_nil_of_length_pos (Cbor.encode_length_pos _)

@[simp] theorem failPayload_ne_nil : failPayload ≠ [] :=
  List.ne_nil_of_length_pos (Cbor.encode_length_pos _)

/-- The payload that is not even a CBOR value travels as a ciphertext. -/
example : parsePayload [0xde, 0xad] = .ok (.ciphertext [0xde, 0xad]) := by decide

end NemoMessenger.Wire
