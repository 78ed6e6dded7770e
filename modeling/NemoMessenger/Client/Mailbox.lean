import NemoMessenger.Wire.Cbor
import NemoMessenger.Wire.Envelope

/-!
# Fetched rows

What a client reads from the answer to a fetch of its mailbox, and the cursor it goes on from.
-/

namespace NemoMessenger.Client

open NemoMessenger.Wire

/-- `FETCH_LIMIT`. -/
def fetchLimit : UInt64 := 64

/-- `MailboxRow`. -/
structure MailboxRow where
  seq : UInt64
  inner : InnerEnvelope

/-- An element of an answer, as `fetch_mailbox` reads it. -/
def readRow : Cbor.Value → Except WireError MailboxRow
  | .map m => do
    let seq ← Cbor.getUint m 0
    let bytes ← Cbor.mapGet m 1 >>= Cbor.expectBytes
    let inner ← InnerEnvelope.decodePadded bytes
    .ok { seq, inner }
  | _ => .error (.cbor "fetch row")

/-- What `fetch_mailbox` reads from the body of an answer. -/
def readRows (body : Bytes) : Except WireError (List MailboxRow) := do
  match ← Cbor.decode body with
  | .array items => items.mapM readRow
  | _ => .error (.cbor "fetch must be an array")

/-- The cursor `fetch_mailbox` leaves. -/
def cursorAfter (cursor : UInt64) (rows : List MailboxRow) : UInt64 :=
  match rows.getLast? with
  | some last => last.seq
  | none => cursor

/-- The element a row is sent as is read back. -/
theorem readRow_item {seq : UInt64} {bytes : Bytes} {inner : InnerEnvelope}
    (h : InnerEnvelope.decodePadded bytes = .ok inner) :
    readRow (.map [(0, .uint seq), (1, .bytes bytes)]) = .ok ⟨seq, inner⟩ := by
  simp [readRow, Cbor.getUint, Cbor.mapGet, Cbor.mapGetOpt, Cbor.expectBytes, Cbor.expectUint, h,
    bind, Except.bind]

/-- An array of readable elements is read row by row. -/
theorem readRows_array {items : List Cbor.Value} {rows : List MailboxRow}
    (hwf : (Cbor.Value.array items).Wf) (hrows : items.map readRow = rows.map .ok) :
    readRows (Cbor.encode (.array items)) = .ok rows := by
  have hmap : items.mapM readRow = .ok rows := by
    clear hwf
    induction items generalizing rows with
    | nil =>
      cases rows with
      | nil => rfl
      | cons row rows => cases hrows
    | cons item items ih =>
      cases rows with
      | nil => cases hrows
      | cons row rows =>
        rw [List.map_cons, List.map_cons, List.cons.injEq] at hrows
        rw [List.mapM_cons, hrows.1, ih hrows.2]
        rfl
  rw [readRows, Cbor.decode_encode hwf]
  exact hmap

end NemoMessenger.Client
