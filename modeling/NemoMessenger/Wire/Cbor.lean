import NemoMessenger.Wire.Bytes
import Mathlib.Data.List.Sort
import Mathlib.Algebra.Order.BigOperators.Group.List

/-!
# Canonical CBOR

The subset of RFC 8949 the protocol uses: definite lengths, and maps whose keys are unsigned
integers in increasing order. `decode` accepts a byte string only when it is one value with nothing
behind it, and `decode_encode` shows that every well-formed value survives a round trip.

The reader takes a nesting budget. A value nested `d` deep is at least `d` bytes long, so `decode`
starts it at one more than the length of its input and the budget never decides an outcome.
-/

namespace NemoMessenger.Wire.Cbor

/-- `cbor::Value`. -/
inductive Value
  | uint (n : UInt64)
  | bytes (b : Bytes)
  | text (s : String)
  | array (items : List Value)
  | map (pairs : List (UInt64 × Value))

/-- The UTF-8 bytes of a text. -/
def textBytes (s : String) : Bytes := s.toByteArray.data.toList

@[simp] theorem length_textBytes (s : String) : (textBytes s).length = s.utf8ByteSize := rfl

/-- `std::str::from_utf8`. -/
def fromUtf8 (b : Bytes) : Option String := String.fromUTF8? ⟨b.toArray⟩

@[simp] theorem fromUtf8_textBytes (s : String) : fromUtf8 (textBytes s) = some s := by
  simp [fromUtf8, textBytes, String.fromUTF8?, String.fromUTF8, s.isValidUTF8]

theorem textBytes_injective : Function.Injective textBytes := by
  intro s t h
  have hbytes := congrArg fromUtf8 h
  rw [fromUtf8_textBytes, fromUtf8_textBytes] at hbytes
  exact Option.some.inj hbytes

theorem textBytes_append (s t : String) : textBytes (s ++ t) = textBytes s ++ textBytes t := by
  simp [textBytes]

/-- The bytes of a text are those of its characters. -/
theorem textBytes_ofList (chars : List Char) :
    textBytes (String.ofList chars) = chars.flatMap String.utf8EncodeChar := by
  rw [textBytes, String.toByteArray_ofList, List.utf8Encode, List.toList_data_toByteArray]

/-! ## Hexadecimal texts -/

/-- The byte of a digit. -/
def hexByte (n : UInt8) : UInt8 := if n < 10 then 0x30 + n else 0x57 + n

/-- A digit is one byte, which reads back as its value, and it is neither a slash nor an escape. -/
theorem hexDigit_spec {n : UInt8} (h : n < 16) :
    String.utf8EncodeChar (hexDigit n) = [hexByte n] ∧ (hexNibble (hexByte n)).toOption = some n ∧
      0x30 ≤ hexByte n ∧ hexByte n < 0x67 := by
  have hall : ∀ k < 16, String.utf8EncodeChar (hexDigit (UInt8.ofNat k)) =
      [hexByte (UInt8.ofNat k)] ∧
        (hexNibble (hexByte (UInt8.ofNat k))).toOption = some (UInt8.ofNat k) ∧
        0x30 ≤ hexByte (UInt8.ofNat k) ∧ hexByte (UInt8.ofNat k) < 0x67 := by
    decide
  have hn := hall n.toNat (UInt8.lt_iff_toNat_lt.mp h)
  rwa [UInt8.ofNat_toNat] at hn

theorem hexNibble_hexByte {n : UInt8} (h : n < 16) : hexNibble (hexByte n) = .ok n := by
  have hread := (hexDigit_spec h).2.1
  cases hnibble : hexNibble (hexByte n) with
  | error => rw [hnibble] at hread; cases hread
  | ok m => rw [hnibble] at hread; exact congrArg _ (Option.some.inj hread)

/-- The bytes of the digits. -/
def hexBytes (bytes : Bytes) : Bytes :=
  bytes.flatMap fun (b : UInt8) ↦ [hexByte (b >>> 4), hexByte (b &&& 0x0f)]

/-- The two halves of a byte are digits, and it is put together from them. -/
theorem nibbles (b : UInt8) :
    b >>> 4 < 16 ∧ b &&& 0x0f < 16 ∧ (b >>> 4 <<< 4 ||| b &&& 0x0f) = b := by
  have hall : ∀ k < 256, UInt8.ofNat k >>> 4 < 16 ∧ UInt8.ofNat k &&& 0x0f < 16 ∧
      (UInt8.ofNat k >>> 4 <<< 4 ||| UInt8.ofNat k &&& 0x0f) = UInt8.ofNat k := by
    decide +kernel
  have hb := hall b.toNat b.toNat_lt
  rwa [UInt8.ofNat_toNat] at hb

theorem textBytes_toHex (bytes : Bytes) : textBytes (toHex bytes) = hexBytes bytes := by
  rw [toHex, textBytes_ofList, List.flatMap_assoc, hexBytes]
  congr 1
  funext b
  rw [List.flatMap_cons, List.flatMap_cons, (hexDigit_spec (nibbles b).1).1,
    (hexDigit_spec (nibbles b).2.1).1]
  rfl

/-- The digits are visible ASCII and no punctuation. -/
theorem of_mem_hexBytes {bytes : Bytes} {d : UInt8} (h : d ∈ hexBytes bytes) :
    0x30 ≤ d ∧ d < 0x67 := by
  obtain ⟨b, -, hd⟩ := List.mem_flatMap.mp h
  rcases List.mem_cons.mp hd with rfl | hd
  · exact (hexDigit_spec (nibbles b).1).2.2
  · rw [List.mem_singleton.mp hd]
    exact (hexDigit_spec (nibbles b).2.1).2.2

/-- What `to_hex` writes, `from_hex` reads. -/
theorem fromHex_hexBytes (bytes : Bytes) : fromHex (hexBytes bytes) = .ok bytes := by
  have hpairs : fromHexPairs (hexBytes bytes) = .ok bytes := by
    induction bytes with
    | nil => rfl
    | cons b bytes ih =>
      change fromHexPairs (hexByte (b >>> 4) :: hexByte (b &&& 0x0f) :: hexBytes bytes) = _
      rw [fromHexPairs, hexNibble_hexByte (nibbles b).1, hexNibble_hexByte (nibbles b).2.1, ih]
      exact congrArg (fun byte ↦ Except.ok (byte :: bytes)) (nibbles b).2.2
  have heven : (hexBytes bytes).length % 2 = 0 := by
    rw [hexBytes, List.length_flatMap]
    simp
  have hdigits : (hexBytes bytes).all (fun b ↦ (hexNibble b).toOption.isSome) = true := by
    refine List.all_eq_true.mpr fun d hd ↦ ?_
    obtain ⟨b, -, hd⟩ := List.mem_flatMap.mp hd
    rcases List.mem_cons.mp hd with rfl | hd
    · rw [hexNibble_hexByte (nibbles b).1]
      rfl
    · rw [List.mem_singleton.mp hd, hexNibble_hexByte (nibbles b).2.1]
      rfl
  rw [fromHex, if_neg (by simp [heven, hdigits]), hpairs]

/-! ## Encoding -/

/-- `write_head`. -/
def writeHead (major n : ℕ) : Bytes :=
  if n < 24 then [UInt8.ofNat (major * 32 + n)]
  else if n ≤ 0xff then UInt8.ofNat (major * 32 + 24) :: toBeBytes 1 n
  else if n ≤ 0xffff then UInt8.ofNat (major * 32 + 25) :: toBeBytes 2 n
  else if n ≤ 0xffffffff then UInt8.ofNat (major * 32 + 26) :: toBeBytes 4 n
  else UInt8.ofNat (major * 32 + 27) :: toBeBytes 8 n

/-- Write the entries of a map by increasing key. The values are encoded before they are sorted,
which a stable sort on the keys cannot tell apart from sorting first. -/
def writeSorted (pairs : List (UInt64 × Bytes)) : Bytes :=
  (pairs.insertionSort fun p q ↦ p.1 ≤ q.1).flatMap fun p ↦ writeHead 0 p.1.toNat ++ p.2

mutual

/-- `write_value`. -/
def encode : Value → Bytes
  | .uint n => writeHead 0 n.toNat
  | .bytes b => writeHead 2 b.length ++ b
  | .text s => writeHead 3 s.utf8ByteSize ++ textBytes s
  | .array items => writeHead 4 items.length ++ encodeItems items
  | .map pairs => writeHead 5 pairs.length ++ writeSorted (encodePairs pairs)

def encodeItems : List Value → Bytes
  | [] => []
  | item :: items => encode item ++ encodeItems items

def encodePairs : List (UInt64 × Value) → List (UInt64 × Bytes)
  | [] => []
  | (key, value) :: pairs => (key, encode value) :: encodePairs pairs

end

/-! ## Decoding -/

/-- `read_head`: the major type, its argument and the remaining input. -/
def readHead : Bytes → Except WireError (ℕ × UInt64 × Bytes)
  | [] => .error (.cbor "empty")
  | first :: rest =>
    let major := first.toNat / 32
    let ai := first.toNat % 32
    let wide (width : ℕ) (message : String) : Except WireError (ℕ × UInt64 × Bytes) :=
      if rest.length < width then .error (.cbor message)
      else .ok (major, UInt64.ofNat (fromBeBytes (rest.take width)), rest.drop width)
    if ai < 24 then .ok (major, UInt64.ofNat ai, rest)
    else if ai = 24 then wide 1 "truncated u8"
    else if ai = 25 then wide 2 "truncated u16"
    else if ai = 26 then wide 4 "truncated u32"
    else if ai = 27 then wide 8 "truncated u64"
    else .error (.cbor "indefinite or reserved additional info")

/-- The element loop of an array. -/
def readItems (read : Bytes → Except WireError (Value × Bytes)) :
    ℕ → Bytes → Except WireError (List Value × Bytes)
  | 0, rest => .ok ([], rest)
  | count + 1, rest =>
    match read rest with
    | .error e => .error e
    | .ok (item, rest) =>
      match readItems read count rest with
      | .error e => .error e
      | .ok (items, rest) => .ok (item :: items, rest)

/-- The entry loop of a map: keys are unsigned and strictly increasing. -/
def readPairs (read : Bytes → Except WireError (Value × Bytes)) :
    ℕ → Option UInt64 → Bytes → Except WireError (List (UInt64 × Value) × Bytes)
  | 0, _, rest => .ok ([], rest)
  | count + 1, lastKey, rest =>
    match read rest with
    | .error e => .error e
    | .ok (.uint key, rest) =>
      if lastKey.any fun prev ↦ key ≤ prev then
        .error (.cbor "map keys not strictly increasing")
      else
        match read rest with
        | .error e => .error e
        | .ok (value, rest) =>
          match readPairs read count (some key) rest with
          | .error e => .error e
          | .ok (pairs, rest) => .ok ((key, value) :: pairs, rest)
    | .ok _ => .error (.cbor "map key must be uint")

/-- The part of `read_value` behind the head. -/
def readBody (read : Bytes → Except WireError (Value × Bytes)) (major : ℕ) (n : UInt64)
    (rest : Bytes) : Except WireError (Value × Bytes) :=
  let count := n.toNat
  match major with
  | 0 => .ok (.uint n, rest)
  | 2 =>
    if rest.length < count then .error (.cbor "truncated bstr")
    else .ok (.bytes (rest.take count), rest.drop count)
  | 3 =>
    if rest.length < count then .error (.cbor "truncated tstr")
    else
      match fromUtf8 (rest.take count) with
      | none => .error (.cbor "tstr not utf-8")
      | some s => .ok (.text s, rest.drop count)
  | 4 =>
    if rest.length < count then .error (.cbor "array too large")
    else
      match readItems read count rest with
      | .error e => .error e
      | .ok (items, rest) => .ok (.array items, rest)
  | 5 =>
    if rest.length < count then .error (.cbor "map too large")
    else
      match readPairs read count none rest with
      | .error e => .error e
      | .ok (pairs, rest) => .ok (.map pairs, rest)
  | _ => .error (.cbor "unsupported major type")

/-- `read_value`, for values nested at most `budget` deep. -/
def readValue : ℕ → Bytes → Except WireError (Value × Bytes)
  | 0, _ => .error (.cbor "empty")
  | budget + 1, input =>
    match readHead input with
    | .error e => .error e
    | .ok (major, n, rest) => readBody (readValue budget) major n rest

/-- `cbor::decode`. -/
def decode (bytes : Bytes) : Except WireError Value :=
  match readValue (bytes.length + 1) bytes with
  | .error e => .error e
  | .ok (value, []) => .ok value
  | .ok _ => .error (.cbor "trailing bytes")

/-! ## Typed access -/

/-- `map_get_opt`. -/
def mapGetOpt (pairs : List (UInt64 × Value)) (key : UInt64) : Option Value :=
  (pairs.find? fun p ↦ p.1 == key).map Prod.snd

/-- `map_get`. -/
def mapGet (pairs : List (UInt64 × Value)) (key : UInt64) : Except WireError Value :=
  match mapGetOpt pairs key with
  | some value => .ok value
  | none => .error (.cbor "missing map key")

/-- `expect_bytes`. -/
def expectBytes : Value → Except WireError Bytes
  | .bytes b => .ok b
  | _ => .error (.cbor "expected bstr")

/-- `expect_text`. -/
def expectText : Value → Except WireError String
  | .text s => .ok s
  | _ => .error (.cbor "expected tstr")

/-- `expect_uint`. -/
def expectUint : Value → Except WireError UInt64
  | .uint n => .ok n
  | _ => .error (.cbor "expected uint")

/-- `expect_map`. -/
def expectMap : Value → Except WireError (List (UInt64 × Value))
  | .map pairs => .ok pairs
  | _ => .error (.cbor "expected map")

/-- `copy_fixed(expect_bytes(map_get(m, key)?)?)`. -/
def getFixed (n : ℕ) (pairs : List (UInt64 × Value)) (key : UInt64) :
    Except WireError (FixedBytes n) := do
  copyFixed n (← expectBytes (← mapGet pairs key))

/-- `expect_uint(map_get(m, key)?)`. -/
def getUint (pairs : List (UInt64 × Value)) (key : UInt64) : Except WireError UInt64 := do
  expectUint (← mapGet pairs key)

/-- `expect_text(map_get(m, key)?)`. -/
def getText (pairs : List (UInt64 × Value)) (key : UInt64) : Except WireError Text := do
  Text.ofString (← expectText (← mapGet pairs key))

/-! ## Round trip -/

mutual

/-- Values whose lengths fit a `u64` and whose map keys are strictly increasing. -/
def Value.Wf : Value → Prop
  | .uint _ => True
  | .bytes b => b.length < 2 ^ 64
  | .text s => s.utf8ByteSize < 2 ^ 64
  | .array items => items.length < 2 ^ 64 ∧ itemsWf items
  | .map pairs => pairs.length < 2 ^ 64 ∧ (pairs.map Prod.fst).Pairwise (· < ·) ∧ pairsWf pairs

def itemsWf : List Value → Prop
  | [] => True
  | item :: items => item.Wf ∧ itemsWf items

def pairsWf : List (UInt64 × Value) → Prop
  | [] => True
  | (_, value) :: pairs => value.Wf ∧ pairsWf pairs

end

theorem writeHead_length_pos (major n : ℕ) : 0 < (writeHead major n).length := by
  unfold writeHead
  split_ifs <;> simp

theorem encode_length_pos (value : Value) : 0 < (encode value).length := by
  cases value <;> simp only [encode, List.length_append] <;>
    have := writeHead_length_pos <;> grind

theorem readHead_writeHead {major n : ℕ} (hmajor : major < 8) (hn : n < 2 ^ 64) (rest : Bytes) :
    readHead (writeHead major n ++ rest) = .ok (major, UInt64.ofNat n, rest) := by
  have hdiv (ai : ℕ) (hai : ai < 32) : (major * 32 + ai) % 256 / 32 = major := by omega
  have hmod (ai : ℕ) (hai : ai < 32) : (major * 32 + ai) % 32 = ai := by omega
  unfold writeHead
  split_ifs with h24 h8 h16 h32
  · simp [readHead, hdiv n (by omega), hmod n (by omega), h24]
  · have hval : fromBeBytes (toBeBytes 1 n) = n := fromBeBytes_toBeBytes_of_lt (by omega)
    simp [readHead, hdiv, hmod, hval]
  · have hval : fromBeBytes (toBeBytes 2 n) = n := fromBeBytes_toBeBytes_of_lt (by omega)
    have hlen : 1 < 2 + rest.length := by omega
    simp [readHead, hdiv, hmod, hval, hlen]
  · have hval : fromBeBytes (toBeBytes 4 n) = n := fromBeBytes_toBeBytes_of_lt (by omega)
    simp [readHead, hdiv, hmod, hval]
  · have hval : fromBeBytes (toBeBytes 8 n) = n := fromBeBytes_toBeBytes_of_lt (by omega)
    simp [readHead, hdiv, hmod, hval]

theorem itemsWf_iff {items : List Value} : itemsWf items ↔ ∀ item ∈ items, item.Wf := by
  induction items with
  | nil => simp [itemsWf]
  | cons item items ih => simp [itemsWf, ih]

theorem pairsWf_iff {pairs : List (UInt64 × Value)} : pairsWf pairs ↔ ∀ p ∈ pairs, p.2.Wf := by
  induction pairs with
  | nil => simp [pairsWf]
  | cons p pairs ih => simp [pairsWf, ih]

theorem encodeItems_eq_flatMap (items : List Value) : encodeItems items = items.flatMap encode := by
  induction items with
  | nil => rfl
  | cons item items ih => rw [encodeItems, ih, List.flatMap_cons]

theorem encodePairs_eq_map (pairs : List (UInt64 × Value)) :
    encodePairs pairs = pairs.map fun p ↦ (p.1, encode p.2) := by
  induction pairs with
  | nil => rfl
  | cons p pairs ih => rw [encodePairs, ih, List.map_cons]

/-- A map whose keys are already increasing is written in the order it has. -/
theorem writeSorted_encodePairs {pairs : List (UInt64 × Value)}
    (hsorted : (pairs.map Prod.fst).Pairwise (· < ·)) :
    writeSorted (encodePairs pairs) = pairs.flatMap fun p ↦ encode (.uint p.1) ++ encode p.2 := by
  have hle : (encodePairs pairs).Pairwise fun p q ↦ p.1 ≤ q.1 := by
    rw [encodePairs_eq_map, List.pairwise_map]
    exact (List.pairwise_map.mp hsorted).imp fun h ↦ UInt64.le_of_lt h
  rw [writeSorted, List.Pairwise.insertionSort_eq hle, encodePairs_eq_map, List.flatMap_map]
  simp only [encode]

theorem length_encode_le_of_mem_items {items : List Value} {item : Value} (hmem : item ∈ items) :
    (encode item).length ≤ (encodeItems items).length := by
  rw [encodeItems_eq_flatMap, List.length_flatMap]
  exact List.le_sum_of_mem (List.mem_map_of_mem hmem)

theorem length_encode_le_of_mem_pairs {pairs : List (UInt64 × Value)} {p : UInt64 × Value}
    (hmem : p ∈ pairs) : (encode (.uint p.1)).length + (encode p.2).length ≤
      (pairs.flatMap fun p ↦ encode (.uint p.1) ++ encode p.2).length := by
  rw [List.length_flatMap]
  have hin := List.mem_map_of_mem
    (f := fun p : UInt64 × Value ↦ (encode (.uint p.1) ++ encode p.2).length) hmem
  simpa using List.le_sum_of_mem hin

theorem length_le_encodeItems (items : List Value) :
    items.length ≤ (encodeItems items).length := by
  induction items with
  | nil => simp
  | cons item items ih =>
    have hpos := encode_length_pos item
    simp only [encodeItems, List.length_append, List.length_cons]
    omega

theorem length_le_flatMap_pairs (pairs : List (UInt64 × Value)) : pairs.length ≤
    (pairs.flatMap fun p ↦ encode (.uint p.1) ++ encode p.2).length := by
  induction pairs with
  | nil => simp
  | cons p pairs ih =>
    have hpos := encode_length_pos p.2
    simp only [List.flatMap_cons, List.length_append, List.length_cons] at ih ⊢
    omega

section Reader

variable {read : Bytes → Except WireError (Value × Bytes)}

theorem readItems_encodeItems {items : List Value}
    (hread : ∀ item ∈ items, ∀ rest, read (encode item ++ rest) = .ok (item, rest)) (rest : Bytes) :
    readItems read items.length (encodeItems items ++ rest) = .ok (items, rest) := by
  induction items with
  | nil => rfl
  | cons item items ih =>
    simp only [encodeItems, List.append_assoc, List.length_cons, readItems]
    rw [hread item List.mem_cons_self]
    dsimp only
    rw [ih fun item' hmem ↦ hread item' (List.mem_cons_of_mem item hmem)]

/-- The keys read back are the ones written, and the increasing order never trips the check
against `lastKey`. -/
theorem readPairs_flatMap {pairs : List (UInt64 × Value)} {lastKey : Option UInt64}
    (hkey : ∀ p ∈ pairs, ∀ rest, read (encode (.uint p.1) ++ rest) = .ok (.uint p.1, rest))
    (hread : ∀ p ∈ pairs, ∀ rest, read (encode p.2 ++ rest) = .ok (p.2, rest))
    (hsorted : (pairs.map Prod.fst).Pairwise (· < ·))
    (hlast : ∀ prev ∈ lastKey, ∀ p ∈ pairs, prev < p.1) (rest : Bytes) :
    readPairs read pairs.length lastKey
      ((pairs.flatMap fun p ↦ encode (.uint p.1) ++ encode p.2) ++ rest) = .ok (pairs, rest) := by
  induction pairs generalizing lastKey with
  | nil => rfl
  | cons p pairs ih =>
    obtain ⟨hp, hsorted⟩ := List.pairwise_cons.mp hsorted
    have hnot : ¬ (lastKey.any fun prev ↦ p.1 ≤ prev) = true := by
      cases lastKey with
      | none => simp
      | some prev => simpa using hlast prev rfl p List.mem_cons_self
    simp only [List.flatMap_cons, List.append_assoc, List.length_cons, readPairs]
    rw [hkey p List.mem_cons_self]
    dsimp only
    rw [if_neg hnot, hread p List.mem_cons_self]
    dsimp only
    rw [ih (fun q hmem ↦ hkey q (List.mem_cons_of_mem p hmem))
      (fun q hmem ↦ hread q (List.mem_cons_of_mem p hmem)) hsorted]
    intro prev hprev q hq
    obtain rfl : p.1 = prev := by simpa using hprev
    exact hp q.1 (List.mem_map_of_mem hq)

end Reader

theorem readValue_succ_writeHead {budget major n : ℕ} (hmajor : major < 8) (hn : n < 2 ^ 64)
    (rest : Bytes) : readValue (budget + 1) (writeHead major n ++ rest) =
      readBody (readValue budget) major (UInt64.ofNat n) rest := by
  rw [readValue, readHead_writeHead hmajor hn]

theorem toNat_ofNat_of_lt {n : ℕ} (hn : n < 2 ^ 64) : (UInt64.ofNat n).toNat = n := by
  rw [UInt64.toNat_ofNat', Nat.mod_eq_of_lt hn]

theorem readValue_encode {value : Value} (hwf : value.Wf) {budget : ℕ}
    (hbudget : (encode value).length ≤ budget) (rest : Bytes) :
    readValue budget (encode value ++ rest) = .ok (value, rest) := by
  induction budget generalizing value rest with
  | zero =>
    have hpos := encode_length_pos value
    omega
  | succ budget ih =>
    cases value with
    | uint n =>
      rw [encode, readValue_succ_writeHead (by omega) n.toNat_lt]
      simp [readBody]
    | bytes b =>
      rw [Value.Wf] at hwf
      rw [encode, List.append_assoc, readValue_succ_writeHead (by omega) hwf, readBody,
        toNat_ofNat_of_lt hwf]
      simp
    | text s =>
      rw [Value.Wf] at hwf
      have htake : (textBytes s ++ rest).take s.utf8ByteSize = textBytes s := by
        rw [← length_textBytes, List.take_left]
      have hdrop : (textBytes s ++ rest).drop s.utf8ByteSize = rest := by
        rw [← length_textBytes, List.drop_left]
      rw [encode, List.append_assoc, readValue_succ_writeHead (by omega) hwf, readBody,
        toNat_ofNat_of_lt hwf]
      simp [htake, hdrop]
    | array items =>
      obtain ⟨hlen, hitems⟩ := hwf
      simp only [encode, List.length_append] at hbudget
      have hpos := writeHead_length_pos 4 items.length
      have hread : ∀ item ∈ items, ∀ rest,
          readValue budget (encode item ++ rest) = .ok (item, rest) := by
        intro item hmem rest
        have hle := length_encode_le_of_mem_items hmem
        exact ih (itemsWf_iff.mp hitems item hmem) (by omega) rest
      have hcount : ¬ (encodeItems items ++ rest).length < items.length := by
        have := length_le_encodeItems items
        rw [List.length_append]
        omega
      rw [encode, List.append_assoc, readValue_succ_writeHead (by omega) hlen, readBody,
        toNat_ofNat_of_lt hlen, if_neg hcount, readItems_encodeItems hread]
    | map pairs =>
      obtain ⟨hlen, hsorted, hpairs⟩ := hwf
      rw [encode, List.length_append, writeSorted_encodePairs hsorted] at hbudget
      have hpos := writeHead_length_pos 5 pairs.length
      have hkey : ∀ p ∈ pairs, ∀ rest,
          readValue budget (encode (.uint p.1) ++ rest) = .ok (.uint p.1, rest) := by
        intro p hmem rest
        have hle := length_encode_le_of_mem_pairs hmem
        exact ih (by simp [Value.Wf]) (by omega) rest
      have hread : ∀ p ∈ pairs, ∀ rest,
          readValue budget (encode p.2 ++ rest) = .ok (p.2, rest) := by
        intro p hmem rest
        have hle := length_encode_le_of_mem_pairs hmem
        exact ih (pairsWf_iff.mp hpairs p hmem) (by omega) rest
      have hcount : ¬ ((pairs.flatMap fun p ↦ encode (.uint p.1) ++ encode p.2) ++ rest).length <
          pairs.length := by
        have := length_le_flatMap_pairs pairs
        rw [List.length_append]
        omega
      rw [encode, List.append_assoc, writeSorted_encodePairs hsorted,
        readValue_succ_writeHead (by omega) hlen, readBody, toNat_ofNat_of_lt hlen,
        if_neg hcount, readPairs_flatMap hkey hread hsorted (by simp)]

/-- Every well-formed value decodes to itself. -/
theorem decode_encode {value : Value} (hwf : value.Wf) : decode (encode value) = .ok value := by
  have hread := readValue_encode hwf (Nat.le_succ _) []
  rw [List.append_nil] at hread
  rw [decode, hread]

end NemoMessenger.Wire.Cbor
