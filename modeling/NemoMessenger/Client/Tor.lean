import NemoMessenger.Data.Chars
import NemoMessenger.Data.Utf8
import NemoMessenger.Client.App
import NemoMessenger.Client.Transport

/-!
# Answers that come through the proxy

Through the proxy a request is answered with whatever bytes come until the connection is closed, and
`parse_http_response` takes them apart: at the first empty line, into a status, headers and all the
rest as the body. On the direct path `HttpHome::call` has an HTTP client, which is a library: it waits
for the final response, finds the end of the body by the headers, follows redirects, and refuses a
response that is past its limits.

A response of HTTP/1.1 is given here by its parts, with the bytes it is sent as. The HTTP client is a
parameter, with what its documentation says of responses.
-/

namespace NemoMessenger.Client.Tor

open NemoMessenger.Data NemoMessenger.Wire

/-! ## The parser -/

/-- `\r\n`. -/
def crlf : Bytes := [0x0d, 0x0a]

/-- `raw.windows(4).position(|w| w == b"\r\n\r\n")`. -/
def separator (raw : Bytes) : Option ℕ :=
  raw.tails.findIdx? fun tail ↦ (crlf ++ crlf).isPrefixOf tail

/-- `str::trim`. -/
def trimText (s : List Char) : String := String.ofList (Chars.trim isWhitespace s)

/-- The status line and the lines of the headers. -/
def parseHead (head : String) : Except CoreError (ℕ × List (String × String)) :=
  let lines := Chars.lines head.toList
  let word := lines.head?.bind fun line ↦ (splitWhitespace line)[1]?
  match word.bind Chars.parseU16 with
  | none => .error (.transport "Tor HTTP status")
  | some status =>
    .ok (status, lines.tail.filterMap fun line ↦
      (Chars.cut ':' line).map fun (k, v) ↦ (trimText k, trimText v))

/-- `parse_http_response`. -/
def parseHttpResponse (raw : Bytes) : Except CoreError HttpResponse :=
  match separator raw with
  | none => .error (.transport "Tor HTTP response has no header")
  | some sep =>
    match Cbor.fromUtf8 (raw.take sep) with
    | none => .error (.transport "Tor HTTP header is not UTF-8")
    | some head =>
      (parseHead head).map fun (status, headers) ↦ { status, body := raw.drop (sep + 4), headers }

/-! ## Responses -/

/-- A header: its name, and what stands behind the colon. -/
structure Field where
  name : String
  raw : Bytes
  deriving DecidableEq

/-- The characters of a name. -/
def isToken (c : Char) : Bool :=
  33 ≤ c.toNat && c.toNat ≤ 126 &&
    !([34, 40, 41, 44, 47, 58, 59, 60, 61, 62, 63, 64, 91, 92, 93, 123, 125].contains c.toNat)

/-- The bytes of a value and of a reason: no control characters but the tab. -/
def isFieldByte (b : UInt8) : Bool := b == 0x09 || (0x20 ≤ b && b != 0x7f)

/-- A space or a tab. -/
def isBlank (b : UInt8) : Bool := b == 0x20 || b == 0x09

namespace Field

def Wf (f : Field) : Prop :=
  f.name.toList ≠ [] ∧ (∀ c ∈ f.name.toList, isToken c) ∧ ∀ b ∈ f.raw, isFieldByte b

instance (f : Field) : Decidable f.Wf :=
  @instDecidableAnd _ _ _ (@instDecidableAnd _ _ (List.decidableBAll _ _) (List.decidableBAll _ _))

/-- The header as a line. -/
def line (f : Field) : Bytes := Cbor.textBytes f.name ++ 0x3a :: f.raw

/-- The value, without the blanks around it. -/
def value (f : Field) : Bytes := Chars.trim isBlank f.raw

/-- Names are compared without case. -/
def isNamed (name : String) (f : Field) : Bool := f.name.toLower = name.toLower

end Field

/-- A status line and headers. -/
structure Head where
  status : ℕ
  reason : Bytes
  fields : List Field
  deriving DecidableEq

/-- A decimal number of three digits. -/
def digits (n : ℕ) : Bytes :=
  [UInt8.ofNat (48 + n / 100), UInt8.ofNat (48 + n / 10 % 10), UInt8.ofNat (48 + n % 10)]

/-- A number in hexadecimal digits. -/
def hexadecimal (text : Bytes) : Option ℕ :=
  if text = [] then none
  else text.foldlM (fun n b ↦ (hexNibble b).toOption.map fun d ↦ n * 16 + d.toNat) 0

/-- How the end of a body is found. -/
inductive Framing
  | empty
  | length (n : ℕ)
  | chunked
  | close
  | broken
  deriving DecidableEq

namespace Head

structure Wf (head : Head) : Prop where
  status : 100 ≤ head.status ∧ head.status < 1000
  reason : ∀ b ∈ head.reason, isFieldByte b
  fields : ∀ f ∈ head.fields, f.Wf

def statusLine (head : Head) : Bytes :=
  Cbor.textBytes "HTTP/1.1" ++ 0x20 :: (digits head.status ++ 0x20 :: head.reason)

/-- The lines, without the line break of the last. -/
def text (head : Head) : Bytes := head.statusLine ++ head.fields.flatMap fun f ↦ crlf ++ f.line

def bytes (head : Head) : Bytes := head.text ++ (crlf ++ crlf)

end Head

/-- A chunk: its size in hexadecimal digits, an extension and its bytes. -/
structure Chunk where
  size : Bytes
  extension : Bytes
  data : Bytes
  deriving DecidableEq

def Chunk.Wf (chunk : Chunk) : Prop :=
  hexadecimal chunk.size = some chunk.data.length ∧ ∀ b ∈ chunk.extension, isFieldByte b

/-- What is sent behind the headers. -/
inductive Payload
  | plain (data : Bytes)
  | chunked (chunks : List Chunk) (last : Chunk) (trailers : List Field)
  deriving DecidableEq

namespace Payload

def bytes : Payload → Bytes
  | plain data => data
  | chunked chunks last trailers =>
    (chunks.flatMap fun chunk ↦ chunk.size ++ chunk.extension ++ crlf ++ chunk.data ++ crlf) ++
      (last.size ++ last.extension ++ crlf) ++ (trailers.flatMap fun f ↦ f.line ++ crlf) ++ crlf

/-- The body that is sent. -/
def body : Payload → Bytes
  | plain data => data
  | chunked chunks _ _ => chunks.flatMap (·.data)

/-- The payload is framed as the headers say. -/
def Framed : Payload → Framing → Prop
  | plain data, .empty => data = []
  | plain data, .length n => data.length = n
  | plain _, .close => True
  | chunked chunks last trailers, .chunked =>
    (∀ chunk ∈ chunks, chunk.Wf ∧ chunk.data ≠ []) ∧ last.Wf ∧ last.data = [] ∧
      ∀ f ∈ trailers, f.Wf
  | _, _ => False

end Payload

/-- A response: interim ones, the final one and its body. -/
structure Message where
  interim : List Head
  head : Head
  payload : Payload
  deriving DecidableEq

namespace Message

/-- The headers of all responses. -/
def heads (m : Message) : Bytes := m.interim.flatMap Head.bytes ++ m.head.bytes

def bytes (m : Message) : Bytes := m.heads ++ m.payload.bytes

/-- What comes first. -/
def first (m : Message) : Head := m.interim.headD m.head

end Message

/-! ## The direct client -/

/-- `reqwest::Response`. -/
structure Incoming where
  status : ℕ
  headers : List (String × Bytes)
  body : Bytes
  deriving DecidableEq

/-- What becomes of a request: a response, another request at the place a redirect names, or an
error. -/
inductive Sent
  | response (res : Incoming)
  | follows
  | error (e : String)
  deriving DecidableEq

/-- `reqwest::Client`, behind a request: the responses within its limits, how it finds the end of a
body, the redirects it follows, and what it makes of a response; with `HeaderValue::to_str`. -/
structure HttpClient where
  Takes : Message → Prop
  framing : Head → Framing
  redirects : Head → Bool
  send : Message → Sent
  toStr : Bytes → Option String

/-- A response that is complete as the client frames it. -/
structure Message.Wf (client : HttpClient) (m : Message) : Prop where
  interim : ∀ head ∈ m.interim, head.Wf ∧ head.status < 200 ∧ head.status ≠ 101
  head : m.head.Wf
  final : 200 ≤ m.head.status
  framed : m.payload.Framed (client.framing m.head)

/-- What the HTTP client is documented to do: a response within its limits is the final one, with the
body that was meant and the values of each header in their order; a redirect is followed; a response
past its limits is an error; and a value is text where it is visible ASCII characters. -/
structure HttpClient.Documented (client : HttpClient) : Prop where
  reads : ∀ m : Message, m.Wf client → client.Takes m → client.redirects m.head = false →
    ∃ res, client.send m = .response res ∧ res.status = m.head.status ∧ res.body = m.payload.body ∧
      ∀ name : String, (res.headers.filter fun entry ↦ entry.1.toLower = name.toLower).map (·.2) =
        (m.head.fields.filter (Field.isNamed name)).map Field.value
  follows : ∀ m : Message, m.Wf client → client.Takes m → client.redirects m.head →
    client.send m = .follows
  refuses : ∀ m : Message, m.Wf client → ¬client.Takes m → ∃ e, client.send m = .error e
  text : ∀ value : Bytes, (∀ b ∈ value, isFieldByte b) → client.toStr value =
    if value.all (· < 0x80) then some (String.ofList (value.map Utf8.charOf)) else none

/-- The answer of a home on the direct path, where it is the response of the home. -/
inductive Direct
  | answer (res : HttpResponse)
  | follows
  | error (e : CoreError)
  deriving DecidableEq

/-- `HttpHome::call` on the direct path, from the request on. -/
def HttpClient.call (client : HttpClient) (m : Message) : Direct :=
  match client.send m with
  | .response res =>
    .answer
      { status := res.status
        body := res.body
        headers := res.headers.filterMap fun (k, v) ↦ (client.toStr v).map fun v ↦ (k, v) }
  | .follows => .follows
  | .error e => .error (.transport e)

/-- What comes through the proxy until the connection is closed: a response, or the beginning of one. -/
inductive Stream
  | whole (m : Message)
  | cut (m : Message) (count : ℕ)

namespace Stream

variable (client : HttpClient)

/-- A stream is cut off before the end of the body, which is the end of the stream where nothing else
tells it. -/
def Wf : Stream → Prop
  | whole m => m.Wf client
  | cut m count => m.Wf client ∧
    count < if client.framing m.head = .close then m.heads.length else m.bytes.length

/-- The two paths agree on a response, and one that is cut off is an error. -/
def Agrees : Stream → Prop
  | whole m =>
    match client.call m with
    | .answer res => ∃ answer, parseHttpResponse m.bytes = .ok answer ∧ answer.status = res.status ∧
        answer.body = res.body ∧ answer.header responseSigHeader = res.header responseSigHeader
    | .follows => False
    | .error _ => ∃ e, parseHttpResponse m.bytes = .error e
  | cut m count => ∃ e, parseHttpResponse (m.bytes.take count) = .error e

end Stream

/-- A value as the direct path shows it. -/
def Field.shown (client : HttpClient) (f : Field) : Option String := client.toStr f.value

/-- What is left of a header that is UTF-8 without the white space around it. -/
def Field.trimmed (f : Field) : Option String := (Cbor.fromUtf8 f.raw).map fun s ↦ trimText s.toList

/-- The first header with the signature has a value of visible ASCII characters, or is but for its white
space the first that has. -/
def Head.SignatureReads (client : HttpClient) (head : Head) : Prop :=
  ∀ f, head.fields.find? (Field.isNamed responseSigHeader) = some f → (f.shown client).isSome ∨
    f.trimmed =
      (head.fields.filter (Field.isNamed responseSigHeader)).findSome? (Field.shown client)

/-- The streams the parser reads as the direct path does: a response within the limits of the HTTP
client, single, with a head that is UTF-8, not in chunks and not a redirect; a response past the limits
whose first head is no UTF-8; and a beginning without a whole head, or with one that is no UTF-8. -/
def Stream.Readable (client : HttpClient) : Stream → Prop
  | whole m =>
    (client.Takes m ∧ m.interim = [] ∧ (Cbor.fromUtf8 m.head.text).isSome ∧
      (∃ data, m.payload = .plain data) ∧ client.redirects m.head = false ∧
      m.head.SignatureReads client) ∨
    (¬client.Takes m ∧ Cbor.fromUtf8 m.first.text = none)
  | cut m count => count < m.first.bytes.length ∨ Cbor.fromUtf8 m.first.text = none

/-! ## The first empty line -/

theorem separator_cons (b : UInt8) (raw : Bytes) : separator (b :: raw) =
    if (crlf ++ crlf).isPrefixOf (b :: raw) then some 0 else (separator raw).map (· + 1) := by
  unfold separator
  rw [List.tails_cons, List.findIdx?_cons]

theorem separator_line {line : Bytes} (h : (0x0d : UInt8) ∉ line) (rest : Bytes) :
    separator (line ++ rest) = (separator rest).map (· + line.length) := by
  induction line with
  | nil => exact Option.map_id'.symm
  | cons b line ih =>
    rw [List.mem_cons, not_or] at h
    have hnot : (crlf ++ crlf).isPrefixOf (b :: (line ++ rest)) = false := by
      rw [crlf, List.cons_append, List.isPrefixOf_cons_cons, beq_eq_false_iff_ne.mpr h.1, Bool.false_and]
    rw [List.cons_append, separator_cons, hnot, if_neg Bool.false_ne_true, ih h.2, Option.map_map,
      List.length_cons]
    rfl

theorem separator_crlf {b : UInt8} (h : b ≠ 0x0d) (rest : Bytes) :
    separator (crlf ++ b :: rest) = (separator (b :: rest)).map (· + 2) := by
  have hcr : (crlf ++ crlf).isPrefixOf (0x0d :: 0x0a :: b :: rest) = false := by
    simp [crlf, List.isPrefixOf_cons_cons, Ne.symm h]
  have hlf : (crlf ++ crlf).isPrefixOf (0x0a :: b :: rest) = false := by
    simp [crlf, List.isPrefixOf_cons_cons]
  change separator (0x0d :: 0x0a :: b :: rest) = _
  rw [separator_cons, hcr, if_neg Bool.false_ne_true, separator_cons, hlf, if_neg Bool.false_ne_true,
    Option.map_map]
  rfl

theorem separator_blank (rest : Bytes) : separator (crlf ++ crlf ++ rest) = some 0 := by
  have h : (crlf ++ crlf).isPrefixOf (0x0d :: 0x0a :: 0x0d :: 0x0a :: rest) = true := by
    simp [crlf]
  change separator (0x0d :: 0x0a :: 0x0d :: 0x0a :: rest) = _
  rw [separator_cons, h, if_pos rfl]

/-- A separator that has come stays the first. -/
theorem separator_append {raw : Bytes} {sep : ℕ} (h : separator raw = some sep) (rest : Bytes) :
    separator (raw ++ rest) = some sep ∧ sep + 4 ≤ raw.length := by
  induction raw generalizing sep with
  | nil => cases h
  | cons b raw ih =>
    rw [separator_cons] at h
    rw [List.cons_append, separator_cons]
    split_ifs at h with hstarts
    · cases h
      have hle := (List.isPrefixOf_iff_prefix.mp hstarts).length_le
      have hlong : (crlf ++ crlf).isPrefixOf (b :: (raw ++ rest)) = true :=
        List.isPrefixOf_iff_prefix.mpr
          ((List.isPrefixOf_iff_prefix.mp hstarts).trans ⟨rest, rfl⟩)
      exact ⟨if_pos hlong, hle⟩
    · obtain ⟨sep', hsep, rfl⟩ := Option.map_eq_some_iff.mp h
      obtain ⟨hnext, hle⟩ := ih hsep
      have hshort : ¬(crlf ++ crlf).isPrefixOf (b :: (raw ++ rest)) = true := fun hlong ↦ by
        have hpre := List.isPrefixOf_iff_prefix.mp hlong
        rw [← List.cons_append] at hpre
        have hpre' := List.prefix_of_prefix_length_le hpre (List.prefix_append (b :: raw) rest)
          (by rw [List.length_cons]; exact (Nat.le_add_left 4 sep').trans (hle.trans (Nat.le_succ _)))
        exact hstarts (List.isPrefixOf_iff_prefix.mpr hpre')
      rw [if_neg hshort, hnext]
      exact ⟨rfl, by rw [List.length_cons]; omega⟩

/-! ## The bytes of a head -/

theorem not_mem_of_isFieldByte {bytes : Bytes} (h : ∀ b ∈ bytes, isFieldByte b) :
    (0x0d : UInt8) ∉ bytes ∧ (0x0a : UInt8) ∉ bytes :=
  ⟨fun hmem ↦ absurd (h _ hmem) (by decide), fun hmem ↦ absurd (h _ hmem) (by decide)⟩

theorem textBytes_toList (s : String) : Cbor.textBytes s = Utf8.encode s.toList := by
  rw [Utf8.encode, ← Cbor.textBytes_ofList, String.ofList_toList]

theorem isToken_toNat {c : Char} (h : isToken c) : 33 ≤ c.toNat ∧ c.toNat ≤ 126 ∧ c ≠ ':' := by
  simp only [isToken, Bool.and_eq_true, decide_eq_true_eq, Bool.not_eq_true'] at h
  refine ⟨h.1.1, h.1.2, ?_⟩
  rintro rfl
  exact absurd h.2 (by decide)

/-- The bytes of a name are those of its characters. -/
theorem encode_name {name : List Char} (h : ∀ c ∈ name, isToken c) :
    Utf8.encode name = name.map fun c ↦ UInt8.ofNat c.toNat := by
  have hsmall (c : Char) (hc : c ∈ name) : (UInt8.ofNat c.toNat).toNat = c.toNat := by
    rw [UInt8.toNat_ofNat']
    exact Nat.mod_eq_of_lt ((isToken_toNat (h c hc)).2.1.trans_lt (by decide))
  have hchars : (name.map fun c ↦ UInt8.ofNat c.toNat).map Utf8.charOf = name := by
    rw [List.map_map]
    refine (List.map_congr_left fun c hc ↦ ?_).trans (List.map_id name)
    rw [Function.comp_apply, Utf8.charOf, hsmall c hc, Char.ofNat_toNat]
    rfl
  calc Utf8.encode name
      = Utf8.encode ((name.map fun c ↦ UInt8.ofNat c.toNat).map Utf8.charOf) := by rw [hchars]
    _ = name.map fun c ↦ UInt8.ofNat c.toNat := Utf8.encode_map_charOf fun b hb ↦ by
        obtain ⟨c, hc, rfl⟩ := List.mem_map.mp hb
        rw [UInt8.lt_iff_toNat_lt, hsmall c hc]
        exact (isToken_toNat (h c hc)).2.1.trans_lt (by decide)

theorem not_mem_name {name : List Char} (h : ∀ c ∈ name, isToken c) {b : UInt8} (hb : b < 33) :
    b ∉ Utf8.encode name := by
  rw [encode_name h]
  intro hmem
  obtain ⟨c, hc, rfl⟩ := List.mem_map.mp hmem
  have hrange := isToken_toNat (h c hc)
  rw [UInt8.lt_iff_toNat_lt, UInt8.toNat_ofNat'] at hb
  have hthirty : (33 : UInt8).toNat = 33 := rfl
  omega

namespace Field

variable {f : Field}

theorem Wf.line (h : f.Wf) : (0x0d : UInt8) ∉ f.line ∧ (0x0a : UInt8) ∉ f.line := by
  have hraw := not_mem_of_isFieldByte h.2.2
  rw [Field.line, textBytes_toList]
  constructor
  · rw [List.mem_append, List.mem_cons, not_or, not_or]
    exact ⟨not_mem_name h.2.1 (by decide), by decide, hraw.1⟩
  · rw [List.mem_append, List.mem_cons, not_or, not_or]
    exact ⟨not_mem_name h.2.1 (by decide), by decide, hraw.2⟩

end Field

theorem digits_spec {n : ℕ} (h : 100 ≤ n ∧ n < 1000) :
    (∀ b ∈ digits n, isFieldByte b ∧ b < 0x80 ∧ b ≠ 0x20) ∧
      (∀ c ∈ (digits n).map Utf8.charOf, isWhitespace c = false) ∧
      Chars.parseU16 ((digits n).map Utf8.charOf) = some n := by
  have hall : ((List.range 1000).all fun n ↦ n < 100 ||
      ((digits n).all fun b ↦ isFieldByte b && (b < 0x80 && b != 0x20)) &&
        (((digits n).map Utf8.charOf).all fun c ↦ !isWhitespace c) &&
        Chars.parseU16 ((digits n).map Utf8.charOf) == some n) = true := by decide +kernel
  have hn := List.all_eq_true.mp hall n (List.mem_range.mpr h.2)
  simpa [h.1.not_gt, and_assoc] using hn

namespace Head

variable {head : Head}

theorem Wf.statusLine (h : head.Wf) : (0x0d : UInt8) ∉ head.statusLine ∧ (0x0a : UInt8) ∉ head.statusLine := by
  refine not_mem_of_isFieldByte fun b hb ↦ ?_
  simp only [Head.statusLine, List.mem_append, List.mem_cons] at hb
  rcases hb with hb | rfl | hb | rfl | hb
  · have hversion : (Cbor.textBytes "HTTP/1.1").all isFieldByte = true := by decide +kernel
    exact List.all_eq_true.mp hversion b hb
  · rfl
  · exact ((digits_spec h.status).1 b hb).1
  · rfl
  · exact h.reason b hb

end Head

/-- The first empty line is behind the headers. -/
theorem separator_fields {fields : List Field} (h : ∀ f ∈ fields, f.Wf) (rest : Bytes) :
    separator ((fields.flatMap fun f ↦ crlf ++ f.line) ++ (crlf ++ crlf ++ rest)) =
      some (fields.flatMap fun f ↦ crlf ++ f.line).length := by
  induction fields with
  | nil => exact separator_blank rest
  | cons f fields ih =>
    have hf := h f List.mem_cons_self
    obtain ⟨hcr, -⟩ := hf.line
    have hnext := ih fun g hg ↦ h g (List.mem_cons_of_mem _ hg)
    cases hline : f.line with
    | nil => exact absurd hline (List.append_ne_nil_of_right_ne_nil _ (List.cons_ne_nil _ _))
    | cons b line =>
      rw [hline] at hcr
      have hb : b ≠ 0x0d := fun hb ↦ hcr (hb ▸ List.mem_cons_self)
      rw [List.flatMap_cons, hline, List.append_assoc, List.append_assoc, List.cons_append,
        separator_crlf hb, ← List.cons_append, separator_line hcr, hnext, Option.map_some,
        Option.map_some]
      congr 1
      simp only [List.length_append, crlf, List.length_cons, List.length_nil]
      omega

namespace Head

variable {head : Head}

theorem Wf.separator (h : head.Wf) (rest : Bytes) :
    separator (head.bytes ++ rest) = some head.text.length := by
  rw [Head.bytes, Head.text, List.append_assoc, List.append_assoc, separator_line h.statusLine.1,
    separator_fields h.fields, Option.map_some, List.length_append, Nat.add_comm]

end Head

/-! ## The text of a head -/

theorem encode_injective {s t : List Char} (h : Utf8.encode s = Utf8.encode t) : s = t := by
  have hbytes : Cbor.textBytes (String.ofList s) = Cbor.textBytes (String.ofList t) := by
    rw [Cbor.textBytes_ofList, Cbor.textBytes_ofList]
    exact h
  exact String.ofList_injective (Cbor.textBytes_injective hbytes)

theorem fromUtf8_encode (s : List Char) : Cbor.fromUtf8 (Utf8.encode s) = some (String.ofList s) := by
  rw [Utf8.encode, ← Cbor.textBytes_ofList, Cbor.fromUtf8_textBytes]

theorem encode_of_fromUtf8 {b : Bytes} {s : String} (h : Cbor.fromUtf8 b = some s) :
    Utf8.encode s.toList = b := by
  rw [← textBytes_toList, Cbor.textBytes_of_fromUtf8 h]

theorem not_mem_of_encode {s : List Char} {b : UInt8} (hb : b < 0x80) (h : b ∉ Utf8.encode s) :
    Utf8.charOf b ∉ s := fun hmem ↦ by
  refine h (List.mem_flatMap.mpr ⟨_, hmem, ?_⟩)
  rw [Utf8.encodeChar_charOf hb]
  exact List.mem_singleton_self b

/-- The text of a head is made of lines, which are the texts of the lines of the head. -/
theorem lines_of_encode {fields : List Field} {front : Bytes} {s : List Char}
    (h : Utf8.encode s = front ++ fields.flatMap fun f ↦ crlf ++ f.line) :
    ∃ line lines, s = line ++ List.flatMap (fun l ↦ '\r' :: '\n' :: l) lines ∧ Utf8.encode line = front ∧
      List.Forall₂ (fun l f ↦ Utf8.encode l = Field.line f) lines fields := by
  induction fields generalizing front s with
  | nil =>
    rw [List.flatMap_nil, List.append_nil] at h
    exact ⟨s, [], (List.append_nil s).symm, h, .nil⟩
  | cons f fields ih =>
    obtain ⟨line, after, rfl, hline, hafter⟩ := Utf8.cut_of_encode (b := 0x0d) (by decide) h
    obtain ⟨empty, rest, rfl, hempty, hrest⟩ :=
      @Utf8.cut_of_encode _ [] _ 0x0a (by decide) hafter
    obtain ⟨next, lines, rfl, hnext, hlines⟩ := ih hrest
    refine ⟨line, next :: lines, ?_, hline, .cons hnext hlines⟩
    obtain rfl : empty = [] := encode_injective hempty
    rw [List.flatMap_cons]
    rfl

theorem isWhitespace_of_range {c : Char} (h : 33 ≤ c.toNat ∧ c.toNat ≤ 126) : isWhitespace c = false := by
  rw [← Bool.not_eq_true]
  intro hwhite
  simp only [isWhitespace, Bool.or_eq_true, Bool.and_eq_true, decide_eq_true_eq, beq_iff_eq] at hwhite
  omega

theorem trim_of_forall {α : Type} {p : α → Bool} {l : List α} (h : ∀ a ∈ l, p a = false) :
    Chars.trim p l = l := by
  have hdrop : l.dropWhile p = l := by
    cases l with
    | nil => rfl
    | cons a l => exact List.dropWhile_cons_of_neg (Bool.eq_false_iff.mp (h a List.mem_cons_self))
  rw [Chars.trim, hdrop, List.rdropWhile_eq_self_iff]
  exact fun hne ↦ Bool.eq_false_iff.mp (h _ (List.getLast_mem hne))

theorem Field.Wf.toList {f : Field} (h : f.Wf) : trimText f.name.toList = f.name := by
  rw [trimText, trim_of_forall fun c hc ↦ ?_, String.ofList_toList]
  have hrange := isToken_toNat (h.2.1 c hc)
  exact isWhitespace_of_range ⟨hrange.1, hrange.2.1⟩

/-- The line of a header is cut at its first colon. -/
theorem cut_line {f : Field} (h : f.Wf) {l : List Char} (hl : Utf8.encode l = f.line) :
    ((Chars.cut ':' l).map fun (k, v) ↦ (trimText k, trimText v)) = f.trimmed.map fun v ↦ (f.name, v) := by
  rw [Field.line, textBytes_toList] at hl
  obtain ⟨name, rest, rfl, hname, hrest⟩ := Utf8.cut_of_encode (b := 0x3a) (by decide) hl
  obtain rfl := encode_injective hname
  have hcut : Chars.cut ':' (f.name.toList ++ Utf8.charOf 0x3a :: rest) = some (f.name.toList, rest) :=
    Chars.cut_eq_some_iff.mpr ⟨rfl, fun hmem ↦ (isToken_toNat (h.2.1 _ hmem)).2.2 rfl⟩
  rw [hcut, Field.trimmed, ← hrest, fromUtf8_encode, Option.map_some, Option.map_some, Option.map_some]
  dsimp only
  rw [h.toList, String.toList_ofList]

/-- The second word of a status line is the status. -/
theorem status_word {head : Head} (h : head.Wf) {line : List Char}
    (hline : Utf8.encode line = head.statusLine) :
    ((splitWhitespace line)[1]?).bind Chars.parseU16 = some head.status := by
  obtain ⟨hascii, hwhite, hparse⟩ := digits_spec h.status
  rw [Head.statusLine, textBytes_toList] at hline
  obtain ⟨version, rest, rfl, hversion, hrest⟩ := Utf8.cut_of_encode (b := 0x20) (by decide) hline
  obtain ⟨number, reason, rfl, hnumber, -⟩ := Utf8.cut_of_encode (b := 0x20) (by decide) hrest
  obtain rfl := encode_injective hversion
  have hdigits : number = (digits head.status).map Utf8.charOf :=
    encode_injective (hnumber.trans (Utf8.encode_map_charOf fun b hb ↦ (hascii b hb).2.1).symm)
  subst hdigits
  have hspace : isWhitespace (Utf8.charOf 0x20) = true := by decide
  have hversion : ("HTTP/1.1".toList.all fun c ↦ !isWhitespace c) = true := by decide
  have hsolid : ∀ c ∈ "HTTP/1.1".toList, isWhitespace c = false := by
    simpa using List.all_eq_true.mp hversion
  rw [splitWhitespace, List.splitOnP_append_cons_of_forall_mem hsolid _ hspace,
    List.splitOnP_append_cons_of_forall_mem hwhite _ hspace, List.filter_cons_of_pos (by decide),
    List.filter_cons_of_pos (by rfl)]
  exact hparse

/-- Where the bytes have no line breaks, the text has none. -/
theorem free_of_encode {l : List Char} {bytes : Bytes} (h : Utf8.encode l = bytes)
    (hbytes : (0x0d : UInt8) ∉ bytes ∧ (0x0a : UInt8) ∉ bytes) (hne : bytes ≠ []) :
    ('\n' ∉ l ∧ '\r' ∉ l) ∧ l ≠ [] := by
  subst h
  refine ⟨⟨not_mem_of_encode (b := 0x0a) (by decide) hbytes.2,
    not_mem_of_encode (b := 0x0d) (by decide) hbytes.1⟩, ?_⟩
  rintro rfl
  exact hne rfl

/-- The lines behind the status line are the headers. -/
theorem headers_of_lines {lines : List (List Char)} {fields : List Field}
    (h : List.Forall₂ (fun l f ↦ Utf8.encode l = Field.line f) lines fields) (hwf : ∀ f ∈ fields, f.Wf) :
    (∀ l ∈ lines, ('\n' ∉ l ∧ '\r' ∉ l) ∧ l ≠ []) ∧
      (lines.filterMap fun line ↦ (Chars.cut ':' line).map fun (k, v) ↦ (trimText k, trimText v)) =
        fields.filterMap fun f ↦ f.trimmed.map fun v ↦ (f.name, v) := by
  induction h with
  | nil => exact ⟨fun _ hl ↦ absurd hl List.not_mem_nil, rfl⟩
  | @cons l f lines fields hl _ ih =>
    obtain ⟨hf, hfields⟩ := List.forall_mem_cons.mp hwf
    obtain ⟨hfree, heq⟩ := ih hfields
    constructor
    · refine List.forall_mem_cons.mpr ⟨free_of_encode hl hf.line ?_, hfree⟩
      exact List.append_ne_nil_of_right_ne_nil _ (List.cons_ne_nil _ _)
    · rw [List.filterMap_cons, List.filterMap_cons, cut_line hf hl, heq]

theorem parseHead_eq {head : Head} (h : head.Wf) {s : String} (hs : Cbor.fromUtf8 head.text = some s) :
    parseHead s = .ok (head.status, head.fields.filterMap fun f ↦ f.trimmed.map fun v ↦ (f.name, v)) := by
  obtain ⟨line, lines, hsplit, hline, hlines⟩ := lines_of_encode (encode_of_fromUtf8 hs)
  obtain ⟨hfree, hheaders⟩ := headers_of_lines hlines h.fields
  have hfirst := free_of_encode hline h.statusLine
    (List.append_ne_nil_of_right_ne_nil _ (List.cons_ne_nil _ _))
  have hlinesfree : ∀ l ∈ line :: lines, ('\n' ∉ l ∧ '\r' ∉ l) ∧ l ≠ [] :=
    List.forall_mem_cons.mpr ⟨hfirst, hfree⟩
  have hall : Chars.lines s.toList = line :: lines := by
    rw [hsplit]
    refine Chars.lines_flatMap (fun l hl ↦ (hlinesfree l hl).1) fun hlast ↦ ?_
    exact (hlinesfree [] (List.mem_of_getLast? hlast)).2 rfl
  unfold parseHead
  rw [hall]
  dsimp only [List.head?_cons, Option.bind_some, List.tail_cons]
  rw [status_word h hline, hheaders]

/-! ## What the parser answers -/

/-- What the parser makes of a head and what comes behind it. -/
theorem parseHttpResponse_head {head : Head} (h : head.Wf) (rest : Bytes) :
    parseHttpResponse (head.bytes ++ rest) =
      match Cbor.fromUtf8 head.text with
      | none => .error (.transport "Tor HTTP header is not UTF-8")
      | some _ => .ok
        { status := head.status
          body := rest
          headers := head.fields.filterMap fun f ↦ f.trimmed.map fun v ↦ (f.name, v) } := by
  have htake : (head.bytes ++ rest).take head.text.length = head.text := by
    rw [Head.bytes, List.append_assoc, List.take_left]
  have hdrop : (head.bytes ++ rest).drop (head.text.length + 4) = rest := by
    have hlength : head.text.length + 4 = head.bytes.length := by
      rw [Head.bytes, List.length_append]
      rfl
    rw [hlength, List.drop_left]
  unfold parseHttpResponse
  rw [h.separator rest]
  dsimp only
  rw [htake]
  cases htext : Cbor.fromUtf8 head.text with
  | none => rfl
  | some s =>
    dsimp only
    rw [parseHead_eq h htext, hdrop]
    rfl

/-- A beginning of a head is no answer. -/
theorem parseHttpResponse_short {head : Head} (h : head.Wf) (rest : Bytes) {count : ℕ}
    (hcount : count < head.bytes.length) :
    parseHttpResponse ((head.bytes ++ rest).take count) =
      .error (.transport "Tor HTTP response has no header") := by
  have hnone : separator ((head.bytes ++ rest).take count) = none := by
    cases hsep : separator ((head.bytes ++ rest).take count) with
    | none => rfl
    | some sep =>
      obtain ⟨hlong, hle⟩ := separator_append hsep ((head.bytes ++ rest).drop count)
      rw [List.take_append_drop, h.separator rest] at hlong
      have hlength : head.bytes.length = head.text.length + 4 := by
        rw [Head.bytes, List.length_append]
        rfl
      have hsep := Option.some.inj hlong
      have htake := List.length_take_le count (head.bytes ++ rest)
      omega
  unfold parseHttpResponse
  rw [hnone]

/-- A value of visible ASCII characters is what is left without the white space. -/
theorem Field.Wf.trimmed {client : HttpClient} (hclient : client.Documented) {f : Field} (h : f.Wf)
    {v : String} (hv : f.shown client = some v) : f.trimmed = some v := by
  have hbytes (b : UInt8) (hb : b ∈ f.value) : isFieldByte b :=
    h.2.2 b (Chars.mem_of_mem_trim hb)
  rw [Field.shown, hclient.text f.value hbytes] at hv
  split_ifs at hv with hall
  cases hv
  have hascii (b : UInt8) (hb : b ∈ f.raw) : b < 0x80 := by
    cases Chars.mem_or_of_mem_trim (p := isBlank) hb with
    | inl hblank =>
      rw [isBlank, Bool.or_eq_true, beq_iff_eq, beq_iff_eq] at hblank
      rcases hblank with rfl | rfl <;> decide
    | inr hvalue => exact of_decide_eq_true (List.all_eq_true.mp hall b hvalue)
  have hwhite (b : UInt8) (hb : b ∈ f.raw) : isWhitespace (Utf8.charOf b) = isBlank b := by
    have htable : ∀ n < 128, isFieldByte (UInt8.ofNat n) →
        isWhitespace (Utf8.charOf (UInt8.ofNat n)) = isBlank (UInt8.ofNat n) := by decide
    have hn := htable b.toNat (UInt8.lt_iff_toNat_lt.mp (hascii b hb))
    rw [UInt8.ofNat_toNat] at hn
    exact hn (h.2.2 b hb)
  rw [Field.trimmed, ← Utf8.encode_map_charOf hascii, fromUtf8_encode, Option.map_some,
    String.toList_ofList, trimText, Chars.trim_map_of_mem hwhite]
  rfl

/-- In a head that is UTF-8 every header is. -/
theorem trimmed_isSome {head : Head} (htext : (Cbor.fromUtf8 head.text).isSome) :
    ∀ f ∈ head.fields, f.trimmed.isSome := by
  obtain ⟨s, hs⟩ := Option.isSome_iff_exists.mp htext
  obtain ⟨line, lines, -, -, hlines⟩ := lines_of_encode (encode_of_fromUtf8 hs)
  clear hs htext
  generalize head.fields = fields at hlines ⊢
  induction hlines with
  | nil => exact fun _ hf ↦ absurd hf List.not_mem_nil
  | @cons l f lines fields hl _ ih =>
    refine List.forall_mem_cons.mpr ⟨?_, ih⟩
    rw [Field.line] at hl
    obtain ⟨name, rest, -, -, hrest⟩ := Utf8.cut_of_encode (b := 0x3a) (by decide) hl
    rw [Field.trimmed, ← hrest, fromUtf8_encode]
    rfl

theorem find?_filterMap_named {α : Type} (name : α → String) (value : α → Option String)
    (p : String → Bool) (entries : List α) :
    ((entries.filterMap fun a ↦ (value a).map fun v ↦ (name a, v)).find? fun entry ↦ p entry.1).map (·.2) =
      (entries.filter fun a ↦ p (name a)).findSome? value := by
  induction entries with
  | nil => rfl
  | cons a entries ih =>
    cases hname : p (name a) with
    | true =>
      rw [@List.filter_cons_of_pos _ (fun a ↦ p (name a)) a entries hname, List.findSome?_cons,
        List.filterMap_cons]
      cases value a with
      | none => exact ih
      | some v => simp only [Option.map_some, List.find?_cons, hname]
    | false =>
      rw [@List.filter_cons_of_neg _ (fun a ↦ p (name a)) a entries (Bool.eq_false_iff.mp hname),
        List.filterMap_cons]
      cases value a with
      | none => exact ih
      | some v =>
        simp only [Option.map_some, List.find?_cons, hname]
        exact ih

/-- The values of the signature header are the same just if the header reads. -/
theorem findSome?_eq_iff {client : HttpClient} (hclient : client.Documented) {head : Head} (h : head.Wf)
    (htext : (Cbor.fromUtf8 head.text).isSome) :
    (head.fields.filter (Field.isNamed responseSigHeader)).findSome? Field.trimmed =
        (head.fields.filter (Field.isNamed responseSigHeader)).findSome? (Field.shown client) ↔
      head.SignatureReads client := by
  unfold Head.SignatureReads
  rw [← List.head?_filter]
  cases hnamed : head.fields.filter (Field.isNamed responseSigHeader) with
  | nil => exact iff_of_true rfl fun _ hf ↦ by cases hf
  | cons f rest =>
    have hf : f ∈ head.fields := (List.mem_filter.mp (hnamed ▸ List.mem_cons_self)).1
    obtain ⟨v, hv⟩ := Option.isSome_iff_exists.mp (trimmed_isSome htext f hf)
    have hfirst : (f :: rest).findSome? Field.trimmed = f.trimmed := by
      rw [List.findSome?_cons, hv]
    rw [hfirst]
    constructor
    · rintro heq _ hhead
      cases hhead
      exact .inr heq
    · intro hreads
      refine (hreads f rfl).elim (fun hshown ↦ ?_) id
      obtain ⟨w, hw⟩ := Option.isSome_iff_exists.mp hshown
      rw [(h.fields f hf).trimmed hclient hw, List.findSome?_cons, hw]

/-! ## Streams -/

/-- A chunked body is longer as it is sent than as it is meant. -/
theorem length_body_lt (chunks : List Chunk) (last : Chunk) (trailers : List Field) :
    (Payload.chunked chunks last trailers).body.length <
      (Payload.chunked chunks last trailers).bytes.length := by
  have hchunks : (chunks.flatMap (·.data)).length ≤
      (chunks.flatMap fun chunk ↦ chunk.size ++ chunk.extension ++ crlf ++ chunk.data ++ crlf).length := by
    induction chunks with
    | nil => exact le_refl _
    | cons chunk chunks ih =>
      simp only [List.flatMap_cons, List.length_append]
      omega
  have hcrlf : crlf.length = 2 := rfl
  simp only [Payload.body, Payload.bytes, List.length_append, hcrlf]
  omega

/-- A stream begins with the first of its heads. -/
theorem Message.bytes_eq (m : Message) : ∃ rest, m.bytes = m.first.bytes ++ rest ∧
    (m.interim = [] → rest = m.payload.bytes) := by
  obtain ⟨interim, head, payload⟩ := m
  cases interim with
  | nil => exact ⟨payload.bytes, rfl, fun _ ↦ rfl⟩
  | cons first interim =>
    refine ⟨interim.flatMap Head.bytes ++ head.bytes ++ payload.bytes, ?_, nofun⟩
    simp only [Message.bytes, Message.heads, Message.first, List.flatMap_cons, List.headD_cons,
      List.append_assoc]

theorem Message.Wf.first {client : HttpClient} {m : Message} (h : m.Wf client) : m.first.Wf := by
  obtain ⟨interim, head, payload⟩ := m
  cases interim with
  | nil => exact h.head
  | cons first interim => exact (h.interim first List.mem_cons_self).1

/-- A header as the parser finds it. -/
theorem header_parsed {fields : List Field} {res : HttpResponse}
    (h : res.headers = fields.filterMap fun f ↦ f.trimmed.map fun v ↦ (f.name, v)) (name : String) :
    res.header name = (fields.filter (Field.isNamed name)).findSome? Field.trimmed := by
  rw [HttpResponse.header, h]
  exact find?_filterMap_named Field.name Field.trimmed (fun key ↦ key.toLower = name.toLower) fields

section
variable {client : HttpClient}

/-- A header as the direct path finds it. -/
theorem header_shown {fields : List Field} {headers : List (String × Bytes)} {name : String}
    (h : (headers.filter fun entry ↦ entry.1.toLower = name.toLower).map (·.2) =
      (fields.filter (Field.isNamed name)).map Field.value) {res : HttpResponse}
    (hres : res.headers = headers.filterMap fun (k, v) ↦ (client.toStr v).map fun v ↦ (k, v)) :
    res.header name = (fields.filter (Field.isNamed name)).findSome? (Field.shown client) := by
  calc res.header name
      = (headers.filter fun entry ↦ entry.1.toLower = name.toLower).findSome?
          fun entry ↦ client.toStr entry.2 := by
        rw [HttpResponse.header, hres]
        exact find?_filterMap_named Prod.fst (fun entry ↦ client.toStr entry.2)
          (fun key ↦ key.toLower = name.toLower) headers
    _ = ((headers.filter fun entry ↦ entry.1.toLower = name.toLower).map (·.2)).findSome?
          client.toStr := by
        rw [List.findSome?_map]
        rfl
    _ = (fields.filter (Field.isNamed name)).findSome? (Field.shown client) := by
        rw [h, List.findSome?_map]
        rfl

/-- A response in the reach of both paths: the two answers are the same just if it is a single one,
not in chunks, and the signature header reads. -/
theorem agrees_taken_iff (hclient : client.Documented) {m : Message} (h : m.Wf client)
    (htakes : client.Takes m) (hredirects : client.redirects m.head = false) :
    (Stream.whole m).Agrees client ↔ m.interim = [] ∧ (Cbor.fromUtf8 m.head.text).isSome ∧
      (∃ data, m.payload = .plain data) ∧ m.head.SignatureReads client := by
  obtain ⟨rest, hbytes, hrest⟩ := m.bytes_eq
  have hparse := parseHttpResponse_head h.first rest
  rw [← hbytes] at hparse
  obtain ⟨res, hsend, hstatus, hbody, hheaders⟩ := hclient.reads m h htakes hredirects
  have hcall : client.call m = .answer ⟨res.status, res.body,
      res.headers.filterMap fun (k, v) ↦ (client.toStr v).map fun v ↦ (k, v)⟩ := by
    rw [HttpClient.call, hsend]
  have hshown := @header_shown client _ _ _ (hheaders responseSigHeader) ⟨res.status, res.body,
    res.headers.filterMap fun (k, v) ↦ (client.toStr v).map fun v ↦ (k, v)⟩ rfl
  rw [Stream.Agrees, hcall]
  dsimp only
  rw [hshown, hstatus, hbody]
  constructor
  · rintro ⟨answer, hanswer, hsame, hbodies, hheader⟩
    rw [hparse] at hanswer
    cases htext : Cbor.fromUtf8 m.first.text with
    | none =>
      rw [htext] at hanswer
      cases hanswer
    | some s =>
      rw [htext] at hanswer
      cases hanswer
      have hinterim : m.interim = [] := by
        cases hinterim : m.interim with
        | nil => rfl
        | cons first interim =>
          have hfirst := h.interim first (hinterim ▸ List.mem_cons_self)
          have hlow : m.first.status < 200 := by
            rw [Message.first, hinterim]
            exact hfirst.2.1
          have hfinal := h.final
          dsimp only at hsame
          omega
      have hhead : m.first = m.head := by rw [Message.first, hinterim, List.headD_nil]
      rw [hhead] at htext hheader
      have hsome : (Cbor.fromUtf8 m.head.text).isSome := by
        rw [htext]
        rfl
      refine ⟨hinterim, hsome, ?_, ?_⟩
      · rw [hrest hinterim] at hbodies
        cases hpayload : m.payload with
        | plain data => exact ⟨data, rfl⟩
        | chunked chunks last trailers =>
          rw [hpayload] at hbodies
          have hlt := length_body_lt chunks last trailers
          exact absurd (congrArg List.length hbodies) (Nat.ne_of_gt hlt)
      · rw [← findSome?_eq_iff hclient h.head hsome]
        rwa [header_parsed rfl] at hheader
  · rintro ⟨hinterim, htext, ⟨data, hdata⟩, hreads⟩
    have hhead : m.first = m.head := by rw [Message.first, hinterim, List.headD_nil]
    obtain ⟨s, hs⟩ := Option.isSome_iff_exists.mp htext
    rw [hhead, hs] at hparse
    refine ⟨_, hparse, rfl, ?_, ?_⟩
    · rw [hrest hinterim, hdata]
      rfl
    · rw [header_parsed rfl]
      exact (findSome?_eq_iff hclient h.head htext).mpr hreads

theorem agrees_whole_iff (hclient : client.Documented) {m : Message} (h : m.Wf client) :
    (Stream.whole m).Agrees client ↔ (Stream.whole m).Readable client := by
  by_cases htakes : client.Takes m
  · cases hredirects : client.redirects m.head with
    | false =>
      have hreads : (Stream.whole m).Readable client ↔ m.interim = [] ∧
          (Cbor.fromUtf8 m.head.text).isSome ∧ (∃ data, m.payload = .plain data) ∧
            m.head.SignatureReads client := by
        unfold Stream.Readable
        tauto
      exact (agrees_taken_iff hclient h htakes hredirects).trans hreads.symm
    | true =>
      have hcall : client.call m = .follows := by
        rw [HttpClient.call, hclient.follows m h htakes hredirects]
      rw [Stream.Agrees, hcall]
      refine iff_of_false id fun hreads ↦ ?_
      cases hreads with
      | inl hin => exact absurd (hredirects.symm.trans hin.2.2.2.2.1) (by decide)
      | inr hout => exact hout.1 htakes
  · -- past its limits the client has no response, and the parser has one unless the head is no text
    obtain ⟨e, hsend⟩ := hclient.refuses m h htakes
    obtain ⟨rest, hbytes, -⟩ := m.bytes_eq
    have hcall : client.call m = .error (.transport e) := by rw [HttpClient.call, hsend]
    have hreads : (Stream.whole m).Readable client ↔ Cbor.fromUtf8 m.first.text = none := by
      unfold Stream.Readable
      tauto
    rw [hreads, Stream.Agrees, hcall]
    dsimp only
    rw [hbytes, parseHttpResponse_head h.first]
    cases Cbor.fromUtf8 m.first.text with
    | none => exact iff_of_true ⟨_, rfl⟩ rfl
    | some s =>
      refine iff_of_false (fun h ↦ ?_) fun h ↦ by cases h
      obtain ⟨_, he⟩ := h
      cases he

theorem agrees_cut_iff {m : Message} (h : m.Wf client) (count : ℕ) :
    (Stream.cut m count).Agrees client ↔ (Stream.cut m count).Readable client := by
  obtain ⟨rest, hbytes, -⟩ := m.bytes_eq
  change (∃ e, parseHttpResponse (m.bytes.take count) = .error e) ↔
    count < m.first.bytes.length ∨ Cbor.fromUtf8 m.first.text = none
  rw [hbytes]
  by_cases hcount : count < m.first.bytes.length
  · exact iff_of_true ⟨_, parseHttpResponse_short h.first rest hcount⟩ (.inl hcount)
  · have htake : (m.first.bytes ++ rest).take count =
        m.first.bytes ++ rest.take (count - m.first.bytes.length) := by
      rw [List.take_append, List.take_of_length_le (Nat.not_lt.mp hcount)]
    rw [htake, parseHttpResponse_head h.first, or_iff_right hcount]
    cases Cbor.fromUtf8 m.first.text with
    | none => exact iff_of_true ⟨_, rfl⟩ rfl
    | some s => exact iff_of_false nofun nofun

/-- Through the proxy a response is answered as on the direct path, and one that is cut off is an error,
just if the stream is one the parser reads. -/
theorem agrees_iff_readable (hclient : client.Documented) (stream : Stream) (h : stream.Wf client) :
    stream.Agrees client ↔ stream.Readable client := by
  cases stream with
  | whole m => exact agrees_whole_iff hclient h
  | cut m count => exact agrees_cut_iff h.1 count

end

/-! ## A client -/

/-- A number in decimal digits. -/
def decimal (text : Bytes) : Option ℕ :=
  if text ≠ [] ∧ text.all fun b ↦ 0x30 ≤ b && b ≤ 0x39 then
    some (text.foldl (fun n b ↦ n * 10 + (b - 0x30).toNat) 0)
  else none

/-- The framing of a body by HTTP/1.1. -/
def Head.framing (head : Head) : Framing :=
  if head.status = 204 ∨ head.status = 304 then .empty
  else
    match (head.fields.filter (Field.isNamed "transfer-encoding")).getLast? with
    | some f =>
      if (Cbor.textBytes "chunked").isSuffixOf (f.value.map fun b ↦
          if 0x41 ≤ b && b ≤ 0x5a then b + 0x20 else b) then .chunked
      else .close
    | none =>
      match head.fields.filter (Field.isNamed "content-length") with
      | [] => .close
      | f :: rest =>
        match decimal f.value with
        | some n => if rest.all (·.value = f.value) then .length n else .broken
        | none => .broken

/-- The response names another place to ask. -/
def Head.redirects (head : Head) : Bool :=
  [301, 302, 303, 307, 308].contains head.status && head.fields.any (Field.isNamed "location")

/-- A client that reads a response by HTTP/1.1, with at most a hundred headers. -/
def plainClient : HttpClient where
  Takes m := m.head.fields.length ≤ 100
  framing := Head.framing
  redirects := Head.redirects
  send m :=
    if m.head.fields.length ≤ 100 then
      if m.head.redirects then .follows
      else .response ⟨m.head.status, m.head.fields.map fun f ↦ (f.name, f.value), m.payload.body⟩
    else .error "too many headers"
  toStr value :=
    if value.all (· < 0x80) then some (String.ofList (value.map Utf8.charOf)) else none

theorem documented_plainClient : plainClient.Documented where
  reads m _ htakes hredirects := by
    refine ⟨_, (if_pos htakes).trans (if_neg (Bool.eq_false_iff.mp hredirects)), rfl, rfl, fun name ↦ ?_⟩
    rw [List.filter_map, List.map_map]
    rfl
  follows m _ htakes hredirects := (if_pos htakes).trans (if_pos hredirects)
  refuses m _ htakes := ⟨_, if_neg htakes⟩
  text _ _ := rfl

instance plainClient_takes (m : Message) : Decidable (plainClient.Takes m) := Nat.decLe _ _

/-- A response with two bytes and a signature header. -/
def signedAnswer : Message where
  interim := []
  head :=
    { status := 200
      reason := Cbor.textBytes "OK"
      fields := [⟨"nemo-server-sig", Cbor.textBytes " ab"⟩, ⟨"content-length", Cbor.textBytes " 2"⟩] }
  payload := .plain [1, 2]

/-- The same in a chunk. -/
def chunkedAnswer : Message where
  interim := []
  head :=
    { status := 200
      reason := Cbor.textBytes "OK"
      fields := [⟨"transfer-encoding", Cbor.textBytes " chunked"⟩] }
  payload := .chunked [⟨Cbor.textBytes "2", [], [1, 2]⟩] ⟨Cbor.textBytes "0", [], []⟩ []

theorem wf_signedAnswer : signedAnswer.Wf plainClient where
  interim _ hhead := absurd hhead List.not_mem_nil
  head := ⟨by decide, List.all_eq_true.mp (by decide +kernel), by decide +kernel⟩
  final := by decide
  framed := by
    have hframing : plainClient.framing signedAnswer.head = .length 2 := by decide +kernel
    rw [hframing]
    rfl

theorem wf_chunkedAnswer : chunkedAnswer.Wf plainClient where
  interim _ hhead := absurd hhead List.not_mem_nil
  head := ⟨by decide, List.all_eq_true.mp (by decide +kernel), by decide +kernel⟩
  final := by decide
  framed := by
    have hframing : plainClient.framing chunkedAnswer.head = .chunked := by decide +kernel
    rw [hframing]
    refine ⟨?_, ⟨by decide +kernel, nofun⟩, rfl, nofun⟩
    rintro _ (_ | ⟨_, hchunk⟩)
    · exact ⟨⟨by decide +kernel, nofun⟩, nofun⟩
    · cases hchunk

theorem agrees_signedAnswer : (Stream.whole signedAnswer).Agrees plainClient := by
  refine (agrees_iff_readable documented_plainClient (.whole signedAnswer) wf_signedAnswer).mpr
    (.inl ⟨by decide, rfl, ?_, ⟨_, rfl⟩, by decide +kernel, ?_⟩)
  · decide +kernel
  · intro f hf
    have hshown : ((signedAnswer.head.fields.find? (Field.isNamed responseSigHeader)).all
        fun f ↦ (f.shown plainClient).isSome) = true := by decide +kernel
    rw [hf] at hshown
    exact .inl hshown

/-- A response behind an interim one, a response in chunks, and a response without its last byte. -/
theorem streams_disagree :
    ((Stream.whole { signedAnswer with interim := [⟨100, [], []⟩] }).Wf plainClient ∧
      ¬(Stream.whole { signedAnswer with interim := [⟨100, [], []⟩] }).Agrees plainClient) ∧
    ((Stream.whole chunkedAnswer).Wf plainClient ∧ ¬(Stream.whole chunkedAnswer).Agrees plainClient) ∧
    ((Stream.cut signedAnswer (signedAnswer.bytes.length - 1)).Wf plainClient ∧
      ¬(Stream.cut signedAnswer (signedAnswer.bytes.length - 1)).Agrees plainClient) := by
  have hinterim : Message.Wf plainClient { signedAnswer with interim := [⟨100, [], []⟩] } :=
    { wf_signedAnswer with
      interim := by
        rintro _ (_ | ⟨_, hhead⟩)
        · exact ⟨⟨by decide, nofun, nofun⟩, by decide, by decide⟩
        · cases hhead }
  refine ⟨⟨hinterim, fun h ↦ ?_⟩, ⟨wf_chunkedAnswer, fun h ↦ ?_⟩, ⟨wf_signedAnswer, ?_⟩, fun h ↦ ?_⟩
  · have hiff := agrees_taken_iff documented_plainClient hinterim (by decide) (by decide +kernel)
    cases (hiff.mp h).1
  · have hiff := agrees_taken_iff documented_plainClient wf_chunkedAnswer (by decide) (by decide +kernel)
    obtain ⟨data, hdata⟩ := (hiff.mp h).2.2.1
    cases hdata
  · decide +kernel
  · cases (agrees_cut_iff wf_signedAnswer _).mp h with
    | inl hshort => exact absurd hshort (by decide +kernel)
    | inr htext => exact absurd htext (by decide +kernel)

end NemoMessenger.Client.Tor
