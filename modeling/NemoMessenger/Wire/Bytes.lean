import Mathlib.Data.List.Basic
import Mathlib.Algebra.Order.Group.Nat
import Mathlib.Tactic.Ring

/-!
# Byte strings, fixed-size arrays and unsigned arithmetic

The byte-level vocabulary of the wire crate: `Vec<u8>` is a list of bytes, `[u8; N]` a list that
carries its length, and integers cross the wire in big-endian order. Times are natural numbers with
the `u64` operations the servers apply to them.
-/

namespace NemoMessenger.Wire

abbrev Bytes := List UInt8

/-- `WireError`, with the texts the source gives. -/
inductive WireError
  | unknownVersion (version : UInt64)
  | cbor (message : String)
  | length (expected got : ℕ)
  | signature
  | serverIdMismatch
  | bindingExpired
  | badHost
  | cardTooLarge
  | badRevocationStatus
  | noBucket
  | badEnvelope
  | hpke (message : String)
  | unknownMessageType (type : UInt8)
  | unknownTtl (bucket : UInt8)
  | uri (message : String)
  deriving DecidableEq, Repr

theorem bind_eq_ok {E α β : Type} {x : Except E α} {f : α → Except E β} {b : β} :
    (x >>= f) = .ok b ↔ ∃ a, x = .ok a ∧ f a = .ok b := by
  cases x <;> simp [bind, Except.bind]

theorem forM_eq_ok {E α : Type} {f : α → Except E Unit} {l : List α} :
    l.forM f = .ok () ↔ ∀ a ∈ l, f a = .ok () := by
  induction l with
  | nil => simp [List.forM, pure, Except.pure]
  | cons a l ih =>
    change (f a >>= fun _ ↦ l.forM f) = .ok () ↔ _
    rw [bind_eq_ok, List.forall_mem_cons]
    exact ⟨fun ⟨(), ha, hl⟩ ↦ ⟨ha, ih.mp hl⟩, fun ⟨ha, hl⟩ ↦ ⟨(), ha, ih.mpr hl⟩⟩

theorem exists_error_of_isNone {E α β : Type} {result : Except E α × β}
    (h : result.1.toOption.isNone = true) : ∃ e, result = (.error e, result.2) := by
  obtain ⟨answer, state⟩ := result
  cases answer with
  | error e => exact ⟨e, rfl⟩
  | ok => cases h

/-- `PROTOCOL_VERSION`. -/
def protocolVersion : UInt8 := 1

/-! ## Fixed-size arrays -/

/-- `[u8; N]`: bytes together with the proof that there are `n` of them. -/
structure FixedBytes (n : ℕ) where
  data : Bytes
  size_eq : data.length = n
  deriving DecidableEq

namespace FixedBytes

theorem ext_data {n : ℕ} {a b : FixedBytes n} (h : a.data = b.data) : a = b := by
  cases a
  cases b
  congr

/-- `[byte; N]`. -/
def replicate (n : ℕ) (byte : UInt8) : FixedBytes n := ⟨List.replicate n byte, by simp⟩

@[simp] theorem length_data {n : ℕ} (a : FixedBytes n) : a.data.length = n := a.size_eq

end FixedBytes

abbrev Key := FixedBytes 32
abbrev Signature := FixedBytes 64
abbrev IdentityId := Key
abbrev ServerId := Key

/-- `copy_fixed`. -/
def copyFixed (n : ℕ) (bytes : Bytes) : Except WireError (FixedBytes n) :=
  if h : bytes.length = n then .ok ⟨bytes, h⟩ else .error (.length n bytes.length)

@[simp] theorem copyFixed_data {n : ℕ} (a : FixedBytes n) : copyFixed n a.data = .ok a := by
  simp [copyFixed]

theorem copyFixed_eq_ok {n : ℕ} {bytes : Bytes} {a : FixedBytes n}
    (h : copyFixed n bytes = .ok a) : a.data = bytes := by
  unfold copyFixed at h
  split at h
  · cases h
    rfl
  · cases h

/-! ## Hexadecimal -/

/-- `hex_nibble`. -/
def hexNibble (b : UInt8) : Except WireError UInt8 :=
  if 0x30 ≤ b ∧ b ≤ 0x39 then .ok (b - 0x30)
  else if 0x61 ≤ b ∧ b ≤ 0x66 then .ok (b - 0x61 + 10)
  else if 0x41 ≤ b ∧ b ≤ 0x46 then .ok (b - 0x41 + 10)
  else .error (.length 1 0)

/-- The pairs of digits of a text of even length. -/
def fromHexPairs : Bytes → Except WireError Bytes
  | hi :: lo :: rest => do
    let hi ← hexNibble hi
    let lo ← hexNibble lo
    let rest ← fromHexPairs rest
    .ok ((hi <<< 4 ||| lo) :: rest)
  | _ => .ok []

/-- `from_hex`, on the bytes of the text. -/
def fromHex (s : Bytes) : Except WireError Bytes :=
  if s.length % 2 ≠ 0 ∨ ¬ s.all fun b ↦ (hexNibble b).toOption.isSome then
    .error (.length (s.length / 2) s.length)
  else fromHexPairs s

/-- A lower-case hexadecimal digit. -/
def hexDigit (n : UInt8) : Char :=
  Char.ofNat (if n < 10 then 0x30 + n.toNat else 0x61 + (n.toNat - 10))

/-- `to_hex`. -/
def toHex (bytes : Bytes) : String :=
  String.ofList (bytes.flatMap fun (b : UInt8) ↦ [hexDigit (b >>> 4), hexDigit (b &&& 0x0f)])

/-! ## Texts -/

/-- `String`: an allocation never exceeds `isize::MAX` bytes. -/
structure Text where
  chars : String
  size_lt : chars.utf8ByteSize < 2 ^ 63
  deriving DecidableEq

theorem Text.local_size : "local".utf8ByteSize < 2 ^ 63 := by decide

theorem Text.home_size : "home".utf8ByteSize < 2 ^ 63 := by decide

/-- The text a decoded string makes; the bound holds for whatever has been read into memory. -/
def Text.ofString (chars : String) : Except WireError Text :=
  if h : chars.utf8ByteSize < 2 ^ 63 then .ok ⟨chars, h⟩ else .error (.cbor "tstr too large")

@[simp] theorem Text.ofString_chars (text : Text) : Text.ofString text.chars = .ok text :=
  dif_pos text.size_lt

/-! ## Big-endian integers -/

/-- The `width` low bytes of `n`, most significant first. -/
def toBeBytes : ℕ → ℕ → Bytes
  | 0, _ => []
  | width + 1, n => UInt8.ofNat (n / 256 ^ width) :: toBeBytes width n

/-- The number a big-endian byte string denotes. -/
def fromBeBytes : Bytes → ℕ
  | [] => 0
  | byte :: bytes => byte.toNat * 256 ^ bytes.length + fromBeBytes bytes

@[simp] theorem length_toBeBytes (width n : ℕ) : (toBeBytes width n).length = width := by
  induction width with
  | zero => rfl
  | succ width ih => simp [toBeBytes, ih]

theorem fromBeBytes_toBeBytes (width n : ℕ) : fromBeBytes (toBeBytes width n) = n % 256 ^ width := by
  induction width with
  | zero => simp [toBeBytes, fromBeBytes, Nat.mod_one]
  | succ width ih =>
    rw [toBeBytes, fromBeBytes, ih, length_toBeBytes, UInt8.toNat_ofNat', pow_succ 256 width,
      Nat.mod_mul]
    norm_num
    ring

theorem fromBeBytes_toBeBytes_of_lt {width n : ℕ} (h : n < 256 ^ width) :
    fromBeBytes (toBeBytes width n) = n := by
  rw [fromBeBytes_toBeBytes, Nat.mod_eq_of_lt h]

theorem fromBeBytes_lt (bytes : Bytes) : fromBeBytes bytes < 256 ^ bytes.length := by
  induction bytes with
  | nil => simp [fromBeBytes]
  | cons byte bytes ih =>
    have hbyte := byte.toNat_lt
    have hmul : byte.toNat * 256 ^ bytes.length ≤ 255 * 256 ^ bytes.length :=
      Nat.mul_le_mul_right _ (by omega)
    rw [fromBeBytes, List.length_cons, pow_succ]
    omega

/-- Big-endian numbers of one length are written differently. -/
theorem fromBeBytes_injective {a b : Bytes} (hlength : a.length = b.length)
    (h : fromBeBytes a = fromBeBytes b) : a = b := by
  induction a generalizing b with
  | nil => exact (List.eq_nil_of_length_eq_zero hlength.symm).symm
  | cons x a ih =>
    cases b with
    | nil => cases hlength
    | cons y b =>
      have hlen : a.length = b.length := Nat.succ.inj hlength
      have ha := fromBeBytes_lt a
      have hb := fromBeBytes_lt b
      rw [fromBeBytes, fromBeBytes, hlen, Nat.add_comm, Nat.add_comm (y.toNat * _)] at h
      rw [hlen] at ha
      have hx : x.toNat = y.toNat := by
        have hdiv := congrArg (· / 256 ^ b.length) h
        simpa [Nat.add_mul_div_right _ _ (Nat.pow_pos (show 0 < 256 by decide) : 0 < 256 ^ b.length),
          Nat.div_eq_of_lt ha, Nat.div_eq_of_lt hb] using hdiv
      rw [hx] at h
      rw [UInt8.toNat_inj.mp hx, ih hlen (Nat.add_right_cancel h)]

theorem toBeBytes_fromBeBytes (bytes : Bytes) :
    toBeBytes bytes.length (fromBeBytes bytes) = bytes :=
  fromBeBytes_injective (length_toBeBytes _ _) (fromBeBytes_toBeBytes_of_lt (fromBeBytes_lt bytes))

/-! ## `u64` arithmetic on times -/

/-- `u64::MAX`. -/
def u64Max : ℕ := 2 ^ 64 - 1

/-- `a.saturating_add(b)`. -/
def saturatingAdd (a b : ℕ) : ℕ := min (a + b) u64Max

/-- `a + b` on `u64` as the release profile computes it. -/
def wrappingAdd (a b : ℕ) : ℕ := (a + b) % 2 ^ 64

/-- `n as i64` for a `u64` value `n`. -/
def asI64 (n : ℕ) : ℤ := if n < 2 ^ 63 then n else (n : ℤ) - 2 ^ 64

theorem asI64_of_lt {n : ℕ} (h : n < 2 ^ 63) : asI64 n = n := if_pos h

end NemoMessenger.Wire
