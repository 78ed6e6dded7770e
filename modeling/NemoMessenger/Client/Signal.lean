import NemoMessenger.Data.Chars
import NemoMessenger.Client.App

/-!
# What a call is signalled with

An invitation and an answer carry a session description, the fingerprint of the key the media will
be authenticated with, and the candidates the media may go through. Candidates are to be relays
only, and the description is to hold no other key.
-/

namespace NemoMessenger.Client

open NemoMessenger.Data NemoMessenger.Wire

/-! ## Candidates -/

/-- The words of a candidate, in lower case. -/
def candidateWords (c : String) : List (List Char) := splitWhitespace (asciiLowercase c)

/-- A candidate, as it stands in a list or as a line of a description: foundation, component,
transport, priority, address, port, the word `typ` and a type. -/
def IsCandidate (c : String) : Prop :=
  match candidateWords c with
  | foundation :: _ :: _ :: _ :: _ :: _ :: word :: _ :: _ =>
    ("candidate:".toList <+: foundation ∨ "a=candidate:".toList <+: foundation) ∧
      word = "typ".toList
  | _ => False

instance (c : String) : Decidable (IsCandidate c) := by
  unfold IsCandidate
  split <;> infer_instance

/-- Every word behind a word `typ`. -/
def candidateTypes (c : String) : List (List Char) :=
  let words := candidateWords c
  (words.zip words.tail).filterMap fun p ↦ if p.1 = "typ".toList then some p.2 else none

/-- The candidate is a relay, and nothing else. -/
def Relayed (c : String) : Prop :=
  candidateTypes c ≠ [] ∧ ∀ type ∈ candidateTypes c, type = "relay".toList

theorem iceTyp_iff {c typ : String} :
    iceTyp (asciiLowercase c) typ = true ↔ typ.toList ∈ candidateTypes c := by
  unfold iceTyp candidateTypes candidateWords
  simp only [List.any_eq_true, List.mem_filterMap, Bool.and_eq_true, decide_eq_true_eq]
  constructor
  · rintro ⟨p, hp, hword, htype⟩
    exact ⟨p, hp, by rw [if_pos hword, htype]⟩
  · rintro ⟨p, hp, h⟩
    split_ifs at h with hword
    exact ⟨p, hp, hword, Option.some.inj h⟩

/-- The filter looks for two types. -/
theorem rejectDirectIce_eq_ok {ice : List String} : rejectDirectIce ice = .ok () ↔
    ∀ c ∈ ice, "host".toList ∉ candidateTypes c ∧ "srflx".toList ∉ candidateTypes c := by
  unfold rejectDirectIce
  split_ifs with h
  · refine iff_of_false nofun fun hall ↦ ?_
    obtain ⟨c, hc, htype⟩ := List.any_eq_true.mp h
    rw [Bool.or_eq_true, iceTyp_iff, iceTyp_iff] at htype
    exact htype.elim (hall c hc).1 (hall c hc).2
  · refine iff_of_true rfl fun c hc ↦ ?_
    have hnone : ¬("host".toList ∈ candidateTypes c ∨ "srflx".toList ∈ candidateTypes c) := by
      rw [← iceTyp_iff, ← iceTyp_iff, ← Bool.or_eq_true]
      exact fun htype ↦ h (List.any_eq_true.mpr ⟨c, hc, htype⟩)
    exact not_or.mp hnone

/-- The form has a type in it. -/
theorem candidateTypes_ne_nil {c : String} (h : IsCandidate c) : candidateTypes c ≠ [] := by
  unfold IsCandidate at h
  split at h
  · rename_i word type _ hwords
    refine List.ne_nil_of_mem (a := type) (List.mem_filterMap.mpr ⟨(word, type), ?_, if_pos h.2⟩)
    simp [hwords]
  · exact h.elim

/-- The candidates of a message. -/
def AppBody.ice : AppBody → List String
  | .callInvite signal _ | .callAnswer signal => signal.ice
  | .callIce _ ice => ice
  | _ => []

/-- The session description of a message. -/
def AppBody.sdp : AppBody → String
  | .callInvite signal _ | .callAnswer signal => signal.sdp
  | _ => ""

/-- The lines of a session description. -/
def sdpLines (sdp : String) : List String := (Chars.lines sdp.toList).map String.ofList

/-- Every candidate of a message is a relay: in the list, and in the description. -/
structure AppBody.RelayOnly (body : AppBody) : Prop where
  ice : ∀ c ∈ body.ice, IsCandidate c → Relayed c
  sdp : ∀ line ∈ sdpLines body.sdp, IsCandidate line → Relayed line

/-- A message that is read has been through the filter. -/
theorem rejectDirectIce_of_decode {bytes : Bytes} {msg : AppMessage}
    (h : AppMessage.decode bytes = .ok msg) : rejectDirectIce msg.body.ice = .ok () := by
  obtain ⟨m, -, h⟩ := AppMessage.decode_eq_ok.mp h
  obtain ⟨-, -, -, hvalid⟩ := AppMessage.ofPairs_eq_ok h
  unfold AppMessage.validate at hvalid
  cases hbody : msg.body with
  | callInvite signal expiresAt =>
    rw [hbody] at hvalid
    exact hvalid rfl
  | callAnswer signal =>
    rw [hbody] at hvalid
    exact hvalid rfl
  | callIce callId ice =>
    rw [hbody] at hvalid
    exact hvalid rfl
  | _ => rfl

/-- The filter knows two of the types that are no relay, and never looks at the description. -/
theorem relayOnly_iff {bytes : Bytes} {msg : AppMessage} (h : AppMessage.decode bytes = .ok msg) :
    msg.body.RelayOnly ↔
      (∀ c ∈ msg.body.ice, IsCandidate c → ∀ type ∈ candidateTypes c,
        type = "relay".toList ∨ type = "host".toList ∨ type = "srflx".toList) ∧
      ∀ line ∈ sdpLines msg.body.sdp, IsCandidate line → ∀ type ∈ candidateTypes line,
        type = "relay".toList := by
  have hfilter := rejectDirectIce_eq_ok.mp (rejectDirectIce_of_decode h)
  constructor
  · exact fun hrelay ↦ ⟨fun c hc hform type htype ↦ .inl ((hrelay.ice c hc hform).2 type htype),
      fun line hline hform ↦ (hrelay.sdp line hline hform).2⟩
  · rintro ⟨hice, hsdp⟩
    refine ⟨fun c hc hform ↦ ⟨candidateTypes_ne_nil hform, fun type htype ↦ ?_⟩,
      fun line hline hform ↦ ⟨candidateTypes_ne_nil hform, hsdp line hline hform⟩⟩
    rcases hice c hc hform type htype with hrelay | rfl | rfl
    · exact hrelay
    · exact absurd htype (hfilter c hc).1
    · exact absurd htype (hfilter c hc).2

/-! ## Fingerprints -/

/-- The errors of the fingerprint checks. -/
inductive CallError
  | call (message : String)
  | dtlsFingerprintMismatch
  deriving DecidableEq, Repr

/-- The errors as those of the core. -/
def CallError.toCore : CallError → CoreError
  | call message => .call message
  | dtlsFingerprintMismatch => .dtlsFingerprintMismatch

/-- What stands behind `a=fingerprint:` in a line, if the line is one. -/
def fingerprintOf (line : List Char) : Option (List Char) :=
  ("a=fingerprint:".toList.isPrefixOf? (Chars.trim isWhitespace line)).map
    (Chars.trim isWhitespace)

/-- Every `a=fingerprint` line of a description. -/
def fingerprints (sdp : String) : List (List Char) :=
  (Chars.lines sdp.toList).filterMap fingerprintOf

/-- `fingerprint_from_sdp`. -/
def fingerprintFromSdp (sdp : String) : Except CallError (List Char) :=
  match (fingerprints sdp).find? fun fp ↦ !fp.isEmpty with
  | some fp => .ok fp
  | none => .error (.call "SDP has no a=fingerprint")

/-- `is_ascii_hexdigit`. -/
def isAsciiHexdigit (c : Char) : Bool :=
  ('0' ≤ c && c ≤ '9') || ('a' ≤ c && c ≤ 'f') || ('A' ≤ c && c ≤ 'F')

/-- `to_ascii_lowercase` on a character. -/
def lowercase (c : Char) : Char := if 'A' ≤ c ∧ c ≤ 'Z' then Char.ofNat (c.toNat + 32) else c

/-- `normalize_fp`. -/
def normalizeFp (s : List Char) : List Char := (s.filter isAsciiHexdigit).map lowercase

/-- `fingerprints_match`. -/
def fingerprintsMatch (a b : List Char) : Bool := normalizeFp a = normalizeFp b

/-- `verify_fingerprint`. -/
def verifyFingerprint (sdp claimed : String) : Except CallError Unit := do
  let got ← fingerprintFromSdp sdp
  if !fingerprintsMatch got claimed.toList then .error .dtlsFingerprintMismatch else .ok ()

/-- The hash algorithm a fingerprint names, in lower case. -/
def hashAlgorithm (fp : List Char) : List Char := ((splitWhitespace fp).headD []).map lowercase

/-- The digits of a fingerprint, in lower case. -/
def hexDigits (fp : List Char) : List Char := normalizeFp (splitWhitespace fp).tail.flatten

/-- Every fingerprint of a description is the claimed one. -/
def Pinned (sdp claimed : String) : Prop :=
  ∀ fp ∈ fingerprints sdp, hashAlgorithm fp = hashAlgorithm claimed.toList ∧
    hexDigits fp = hexDigits claimed.toList

instance (sdp claimed : String) : Decidable (Pinned sdp claimed) :=
  inferInstanceAs (Decidable (∀ fp ∈ fingerprints sdp, _))

theorem le_iff_toNat_le {a b : Char} : a ≤ b ↔ a.toNat ≤ b.toNat := by
  rw [Char.le_def, UInt32.le_iff_toNat_le]
  rfl

theorem isAsciiHexdigit_lowercase (c : Char) :
    isAsciiHexdigit (lowercase c) = isAsciiHexdigit c := by
  unfold lowercase
  split_ifs with h
  · have hupper : ∀ n < 91, 65 ≤ n →
        isAsciiHexdigit (Char.ofNat (n + 32)) = isAsciiHexdigit (Char.ofNat n) := by decide
    have hlow : 65 ≤ c.toNat := le_iff_toNat_le.mp h.1
    have hhigh : c.toNat ≤ 90 := le_iff_toNat_le.mp h.2
    rw [hupper _ (by omega) hlow, Char.ofNat_toNat]
  · rfl

theorem not_isAsciiHexdigit_of_isWhitespace {c : Char} (h : isWhitespace c = true) :
    isAsciiHexdigit c = false := by
  rw [← Bool.not_eq_true]
  intro hdigit
  simp only [isAsciiHexdigit, Bool.or_eq_true, Bool.and_eq_true, decide_eq_true_eq,
    le_iff_toNat_le] at hdigit
  have hchars : '0'.toNat = 48 ∧ '9'.toNat = 57 ∧ 'a'.toNat = 97 ∧ 'f'.toNat = 102 ∧
    'A'.toNat = 65 ∧ 'F'.toNat = 70 := by decide
  simp only [isWhitespace, Bool.or_eq_true, Bool.and_eq_true, decide_eq_true_eq, beq_iff_eq] at h
  omega

/-- The comparison runs the algorithm and the digits together. -/
theorem normalizeFp_eq (fp : List Char) :
    normalizeFp fp = (hashAlgorithm fp).filter isAsciiHexdigit ++ hexDigits fp := by
  have hwords : (splitWhitespace fp).flatten = fp.filter fun c ↦ !isWhitespace c := by
    rw [splitWhitespace, Chars.flatten_filter_isEmpty, Chars.flatten_splitOnP]
  have hsplit : (splitWhitespace fp).flatten =
      (splitWhitespace fp).headD [] ++ (splitWhitespace fp).tail.flatten := by
    cases splitWhitespace fp <;> rfl
  have hdigits : isAsciiHexdigit ∘ lowercase = isAsciiHexdigit := funext isAsciiHexdigit_lowercase
  calc normalizeFp fp
      = normalizeFp (splitWhitespace fp).flatten := by
        rw [hwords, normalizeFp, normalizeFp, List.filter_filter]
        congr 1
        apply List.filter_congr
        intro c _
        cases hwhite : isWhitespace c with
        | false => simp
        | true => simp [not_isAsciiHexdigit_of_isWhitespace hwhite]
    _ = (hashAlgorithm fp).filter isAsciiHexdigit ++ hexDigits fp := by
        rw [hsplit, normalizeFp, List.filter_append, List.map_append, hashAlgorithm, hexDigits,
          normalizeFp, List.filter_map, hdigits]

/-- The description that is accepted has a fingerprint with the characters of the claimed one. -/
theorem verifyFingerprint_eq_ok {sdp claimed : String}
    (h : verifyFingerprint sdp claimed = .ok ()) :
    ∃ fp ∈ fingerprints sdp, normalizeFp fp = normalizeFp claimed.toList := by
  obtain ⟨got, hgot, h⟩ := bind_eq_ok.mp h
  unfold fingerprintFromSdp at hgot
  cases hfind : (fingerprints sdp).find? fun fp ↦ !fp.isEmpty with
  | none =>
    rw [hfind] at hgot
    cases hgot
  | some fp =>
    rw [hfind] at hgot
    cases hgot
    refine ⟨got, List.mem_of_find?_eq_some hfind, ?_⟩
    by_contra hne
    simp [fingerprintsMatch, hne] at h

/-- One fingerprint is compared, and by its digits. The others have to agree with it by themselves,
and so does the name of the algorithm. -/
theorem pinned_iff {sdp claimed : String} (h : verifyFingerprint sdp claimed = .ok ()) :
    Pinned sdp claimed ↔
      (∀ fp ∈ fingerprints sdp, hashAlgorithm fp = hashAlgorithm claimed.toList) ∧
      ∀ fp ∈ fingerprints sdp, ∀ other ∈ fingerprints sdp, hexDigits fp = hexDigits other := by
  constructor
  · exact fun hpinned ↦ ⟨fun fp hfp ↦ (hpinned fp hfp).1, fun fp hfp other hother ↦
      (hpinned fp hfp).2.trans (hpinned other hother).2.symm⟩
  · rintro ⟨halgorithm, hdigits⟩ fp hfp
    obtain ⟨got, hgot, hnormal⟩ := verifyFingerprint_eq_ok h
    refine ⟨halgorithm fp hfp, (hdigits fp hfp got hgot).trans ?_⟩
    rw [normalizeFp_eq, normalizeFp_eq, halgorithm got hgot] at hnormal
    exact List.append_cancel_left hnormal

/-- What is accepted of a call is relayed and pinned exactly where its text has no other type of
candidate than the filter knows, and no second key. -/
theorem relayed_and_pinned_iff (bytes : Bytes) (msg : AppMessage) (sdp claimed : String) :
    (AppMessage.decode bytes = .ok msg →
      (msg.body.RelayOnly ↔
        (∀ c ∈ msg.body.ice, IsCandidate c → ∀ type ∈ candidateTypes c,
          type = "relay".toList ∨ type = "host".toList ∨ type = "srflx".toList) ∧
        ∀ line ∈ sdpLines msg.body.sdp, IsCandidate line → ∀ type ∈ candidateTypes line,
          type = "relay".toList)) ∧
    (verifyFingerprint sdp claimed = .ok () →
      (Pinned sdp claimed ↔
        (∀ fp ∈ fingerprints sdp, hashAlgorithm fp = hashAlgorithm claimed.toList) ∧
        ∀ fp ∈ fingerprints sdp, ∀ other ∈ fingerprints sdp, hexDigits fp = hexDigits other)) :=
  ⟨relayOnly_iff, pinned_iff⟩

/-- A candidate at an address, of a type. -/
def candidateOf (type : String) : String := "candidate:1 1 udp 1 203.0.113.7 9 typ " ++ type

/-- An invitation with one candidate that passes the filter is read. -/
theorem exists_decode_invite {signal : LocalSignal} {candidate : String}
    (hice : signal.ice = [candidate]) (hvalid : rejectDirectIce [candidate] = .ok ())
    (hsdp : signal.sdp.utf8ByteSize < 2 ^ 64) (hfp : signal.dtlsFp.utf8ByteSize < 2 ^ 64)
    (hcandidate : candidate.utf8ByteSize < 2 ^ 64) :
    ∃ bytes, AppMessage.decode bytes = .ok (.fresh 1 1 (.callInvite signal 1)) := by
  have hwf : Cbor.pairsWf (AppBody.callInvite signal 1).extraFields := by
    rw [AppBody.extraFields, hice]
    simp [iceValue, Cbor.pairsWf, Cbor.Value.Wf, Cbor.itemsWf]
    exact ⟨hsdp, hfp, hcandidate⟩
  refine ⟨_, AppMessage.decode_of_encode (AppMessage.sized_of_extraFields rfl hwf)
    (AppMessage.encode_eq_ok.mpr ⟨rfl, ?_, rfl⟩)⟩
  exact (congrArg rejectDirectIce hice).trans hvalid

/-- A signal with two fingerprints, one candidate in the list and one in the description. -/
def signalWith (type described other : String) : LocalSignal where
  callId := .replicate 16 1
  sdp := "a=fingerprint:sha-256 AB:CD\na=fingerprint:" ++ other ++ "\na=" ++
    candidateOf described ++ "\n"
  dtlsFp := "sha-256 ab:cd"
  ice := [candidateOf type]

set_option maxRecDepth 100000 in
theorem relayed_and_pinned_iff_relay :
    (AppBody.callInvite (signalWith "relay" "relay" "sha-256 ab:cd") 1).RelayOnly ∧
      Pinned (signalWith "relay" "relay" "sha-256 ab:cd").sdp "sha-256 ab:cd" := by
  obtain ⟨bytes, hbytes⟩ := @exists_decode_invite (signalWith "relay" "relay" "sha-256 ab:cd")
    (candidateOf "relay") rfl (by decide +kernel) (by decide +kernel) (by decide +kernel)
    (by decide +kernel)
  obtain ⟨hrelay, hpinned⟩ := relayed_and_pinned_iff bytes _
    (signalWith "relay" "relay" "sha-256 ab:cd").sdp "sha-256 ab:cd"
  exact ⟨(hrelay hbytes).mpr (by decide +kernel),
    (hpinned (by decide +kernel)).mpr (by decide +kernel)⟩

set_option maxRecDepth 100000 in
/-- A peer-reflexive candidate in the list, a host candidate in the description, and a second
fingerprint. -/
theorem not_relayed_and_not_pinned :
    (¬∀ (bytes : Bytes) (msg : AppMessage), AppMessage.decode bytes = .ok msg →
      msg.body.RelayOnly) ∧
    (∃ bytes, AppMessage.decode bytes =
        .ok (.fresh 1 1 (.callInvite (signalWith "prflx" "relay" "sha-256 ab:cd") 1)) ∧
      ¬(AppBody.callInvite (signalWith "prflx" "relay" "sha-256 ab:cd") 1).RelayOnly) ∧
    (∃ bytes, AppMessage.decode bytes =
        .ok (.fresh 1 1 (.callInvite (signalWith "relay" "host" "sha-256 ab:cd") 1)) ∧
      ¬(AppBody.callInvite (signalWith "relay" "host" "sha-256 ab:cd") 1).RelayOnly) ∧
    ∃ sdp claimed, verifyFingerprint sdp claimed = .ok () ∧ ¬Pinned sdp claimed := by
  obtain ⟨bytes, hbytes⟩ := @exists_decode_invite (signalWith "prflx" "relay" "sha-256 ab:cd")
    (candidateOf "prflx") rfl (by decide +kernel) (by decide +kernel) (by decide +kernel)
    (by decide +kernel)
  obtain ⟨bytes', hbytes'⟩ := @exists_decode_invite (signalWith "relay" "host" "sha-256 ab:cd")
    (candidateOf "relay") rfl (by decide +kernel) (by decide +kernel) (by decide +kernel)
    (by decide +kernel)
  have hprflx : ¬(AppBody.callInvite (signalWith "prflx" "relay" "sha-256 ab:cd") 1).RelayOnly :=
    fun h ↦ absurd (h.ice (candidateOf "prflx") (List.mem_singleton_self _) (by decide +kernel)).2
      (by decide +kernel)
  refine ⟨fun h ↦ hprflx (h bytes _ hbytes), ⟨bytes, hbytes, hprflx⟩, ⟨bytes', hbytes', fun h ↦ ?_⟩,
    (signalWith "relay" "relay" "sha-256 12:34").sdp, "sha-256 ab:cd", by decide +kernel,
    by decide +kernel⟩
  exact absurd (h.sdp ("a=" ++ candidateOf "host") (by decide +kernel) (by decide +kernel)).2
    (by decide +kernel)

end NemoMessenger.Client
