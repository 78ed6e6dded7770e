import NemoMessenger.Data.Chars
import NemoMessenger.Client.Transport
import NemoMessenger.Client.App

/-!
# Homes on loopback

A base is cut into host and port twice: to tell a home on loopback, and to connect to a home through
the proxy. The first also decides which homes may be asked in cleartext. Both are compared with the
authority of the base as a URI.
-/

namespace NemoMessenger.Client

open NemoMessenger.Data NemoMessenger.Wire

/-! ## The two parsers -/

/-- What both parsers cut up: the base without its scheme and the slashes at its end. -/
def restOf (base : String) : List Char :=
  (trimSlashes (String.ofList ((afterScheme base.toList).getD base.toList))).toList

/-- The part of a base `parse_origin` finds host and port in. -/
def hostPort (base : String) : List Char :=
  match Chars.cut '/' (restOf base) with
  | some (hostPort, _) => hostPort
  | none => restOf base

/-- Host and port of `parse_origin`, with the port of the scheme. -/
def splitHostPort (schemePort : ℕ) : List Char → Except CoreError (List Char × ℕ)
  | '[' :: stripped =>
    match Chars.cut ']' stripped with
    | none => .error (.transport "bad home origin")
    | some (host, rest) =>
      let given := match rest with
        | ':' :: digits => Chars.parseU16 digits
        | _ => none
      .ok ('[' :: (host ++ [']']), given.getD schemePort)
  | hostPort =>
    match Chars.cut ':' hostPort with
    | some (host, digits) =>
      match Chars.parseU16 digits with
      | some port => .ok (host, port)
      | none => .error (.transport "bad home port")
    | none => .ok (hostPort, schemePort)

/-- `parse_origin`: host, port and whether the scheme is `https`. -/
def parseOrigin (base : String) : Except CoreError (List Char × ℕ × Bool) :=
  let https := "https://".toList.isPrefixOf base.toList
  (splitHostPort (if https then 443 else 80) (hostPort base)).map fun p ↦ (p.1, p.2, https)

/-- `allow_cleartext_http`, on Android and elsewhere. -/
def allowCleartextHttp (android : Bool) (base : String) : Bool :=
  isLoopbackOrigin base || android && originHost base = "10.0.2.2"

/-- The check of `HttpHome::new`; the HTTP client it builds then takes every base. -/
def checkCleartext (android : Bool) (base : String) : Except CoreError Unit :=
  if "http://".toList.isPrefixOf base.toList && !allowCleartextHttp android base then
    .error (.transport "cleartext HTTP is only allowed on loopback")
  else .ok ()

/-- The same functions, with the check of `HttpHome::new` outside Android. -/
def Outside.checked (p : Outside) : Outside :=
  { p with formats := { p.formats with checkBase := checkCleartext false } }

/-! ## The authority -/

/-- The authority of a URI. -/
def authority (base : String) : List Char :=
  ((afterScheme base.toList).getD []).takeWhile fun c ↦ c ∉ ['/', '?', '#']

/-- The host of an authority: without the user information in front of the last `@`, and without the
port. -/
def authorityHost (authority : List Char) : List Char :=
  match authority.rtakeWhile fun c ↦ c ≠ '@' with
  | '[' :: address => '[' :: (address.takeWhile fun c ↦ c ≠ ']') ++ [']']
  | hostPort => hostPort.takeWhile fun c ↦ c ≠ ':'

/-- The names of the own machine. -/
def loopbackHosts : List (List Char) :=
  ["localhost".toList, "127.0.0.1".toList, "[::1]".toList]

/-- A base of the scheme `http`, whatever the case of its letters. -/
def IsHttp (base : String) : Prop :=
  "http://".toList <+: asciiLowercase base

instance (base : String) : Decidable (IsHttp base) := inferInstanceAs (Decidable (_ <+: _))

/-! ## Where they agree -/

theorem hostPort_eq (base : String) :
    hostPort base = (restOf base).takeWhile fun c ↦ c ≠ '/' := by
  unfold hostPort Chars.cut
  split_ifs with h
  · rfl
  · exact (Chars.takeWhile_of_notMem h).symm

theorem originHost_toList (base : String) :
    (originHost base).toList = (hostPort base).takeWhile fun c ↦ c ≠ ':' := by
  rw [hostPort_eq, List.takeWhile_takeWhile, originHost, String.toList_ofList]
  change (restOf base).takeWhile _ = _
  congr 1
  funext c
  by_cases h : c = '/' <;> by_cases h' : c = ':' <;> simp [h, h']

/-- A host in brackets is never taken for loopback: it is cut at its first colon. -/
theorem isLoopbackOrigin_iff (base : String) : isLoopbackOrigin base = true ↔
    ((hostPort base).takeWhile fun c ↦ c ≠ ':') = "localhost".toList ∨
      ((hostPort base).takeWhile fun c ↦ c ≠ ':') = "127.0.0.1".toList := by
  have hcolon : ':' ∉ (hostPort base).takeWhile fun c ↦ c ≠ ':' := fun h ↦ by
    simpa using List.mem_takeWhile_imp h
  rw [isLoopbackOrigin, List.contains_iff_mem]
  simp only [List.mem_cons, List.not_mem_nil, or_false, ← String.toList_inj, originHost_toList]
  constructor
  · rintro (h | h | h | h)
    · exact .inl h
    · exact .inr h
    · exact absurd (h ▸ by decide) hcolon
    · exact absurd (h ▸ by decide) hcolon
  · exact fun h ↦ h.elim .inl fun h ↦ .inr (.inl h)

/-- What stands behind the first colon of a host and port, if there is one, is a port. -/
def portParses (hostPort : List Char) : Bool :=
  match Chars.cut ':' hostPort with
  | some (_, digits) => (Chars.parseU16 digits).isSome
  | none => true

/-- The name in front of the first colon is one of the machine's own. -/
def LocalName (hostPort : List Char) : Prop :=
  (hostPort.takeWhile fun c ↦ c ≠ ':') = "localhost".toList ∨
    (hostPort.takeWhile fun c ↦ c ≠ ':') = "127.0.0.1".toList

instance (hostPort : List Char) : Decidable (LocalName hostPort) :=
  inferInstanceAs (Decidable (_ ∨ _))

theorem not_localName_of_bracket (stripped : List Char) : ¬LocalName ('[' :: stripped) := by
  intro h
  rw [LocalName, List.takeWhile_cons, if_pos (by decide)] at h
  exact h.elim (fun h ↦ by cases h) fun h ↦ by cases h

/-- An address in brackets that is cut out is the loopback address just where it stands there. -/
theorem splitHostPort_bracket_iff (schemePort : ℕ) (stripped : List Char) :
    (∃ host port, splitHostPort schemePort ('[' :: stripped) = .ok (host, port) ∧
      host ∈ loopbackHosts) ↔ "[::1]".toList <+: '[' :: stripped := by
  have hhosts : ∀ host : List Char, '[' :: (host ++ [']']) ∈ loopbackHosts ↔
      host = "::1".toList := by
    intro host
    constructor
    · intro h
      rcases List.mem_cons.mp h with h | h
      · cases h
      · rcases List.mem_cons.mp h with h | h
        · cases h
        · exact List.append_cancel_right (List.cons.inj (List.mem_singleton.mp h)).2
    · rintro rfl
      decide
  cases hcut : Chars.cut ']' stripped with
  | none =>
    simp only [splitHostPort, hcut]
    refine iff_of_false (fun h ↦ ?_) ?_
    · obtain ⟨_, _, h, -⟩ := h
      cases h
    · rintro ⟨tail, htail⟩
      have hstripped : stripped = "::1".toList ++ ']' :: tail := (List.cons.inj htail).2.symm
      exact Chars.cut_eq_none_iff.mp hcut (hstripped ▸ by simp)
  | some parts =>
    obtain ⟨host, rest⟩ := parts
    obtain ⟨hstripped, hhost⟩ := Chars.cut_eq_some_iff.mp hcut
    simp only [splitHostPort, hcut]
    constructor
    · rintro ⟨_, _, h, hloopback⟩
      cases h
      rw [hstripped, (hhosts host).mp hloopback]
      exact ⟨rest, rfl⟩
    · rintro ⟨tail, htail⟩
      have htail' : "::1".toList ++ ']' :: tail = stripped := (List.cons.inj htail).2
      refine ⟨_, _, rfl, (hhosts host).mpr ?_⟩
      rw [← Chars.takeWhile_append_cons hhost rest, ← hstripped, ← htail']
      rfl

theorem splitHostPort_name_iff (schemePort : ℕ) {l : List Char} (h : l.head? ≠ some '[') :
    (∃ host port, splitHostPort schemePort l = .ok (host, port) ∧ host ∈ loopbackHosts) ↔
      LocalName l ∧ portParses l = true := by
  have hsplit : splitHostPort schemePort l =
      match Chars.cut ':' l with
      | some (host, digits) =>
        match Chars.parseU16 digits with
        | some port => .ok (host, port)
        | none => .error (.transport "bad home port")
      | none => .ok (l, schemePort) := by
    cases l with
    | nil => rfl
    | cons c l =>
      unfold splitHostPort
      split
      · rename_i heq
        cases heq
        exact absurd rfl h
      · rfl
  have hname : ∀ host : List Char, host.head? ≠ some '[' → (host ∈ loopbackHosts ↔
      host = "localhost".toList ∨ host = "127.0.0.1".toList) := by
    intro host hhead
    simp only [loopbackHosts, List.mem_cons, List.not_mem_nil, or_false]
    refine or_congr_right (or_iff_left ?_)
    rintro rfl
    exact hhead rfl
  rw [hsplit, portParses, LocalName]
  cases hcut : Chars.cut ':' l with
  | none =>
    rw [Chars.takeWhile_of_notMem (Chars.cut_eq_none_iff.mp hcut), ← hname l h]
    simp only [Except.ok.injEq, Prod.mk.injEq, and_true]
    exact ⟨fun ⟨_, _, ⟨rfl, _⟩, h⟩ ↦ h, fun h ↦ ⟨_, _, ⟨rfl, rfl⟩, h⟩⟩
  | some parts =>
    obtain ⟨host, digits⟩ := parts
    obtain ⟨rfl, hhost⟩ := Chars.cut_eq_some_iff.mp hcut
    have hhead : host.head? ≠ some '[' := by
      cases host with
      | nil => exact nofun
      | cons c host => exact h
    rw [Chars.takeWhile_append_cons hhost, ← hname host hhead]
    cases hport : Chars.parseU16 digits with
    | none =>
      simp only [hport]
      exact iff_of_false (fun ⟨_, _, h, _⟩ ↦ nomatch h) fun h ↦ nomatch h.2
    | some port =>
      simp only [hport, Except.ok.injEq, Prod.mk.injEq, Option.isSome_some, and_true]
      exact ⟨fun ⟨_, _, ⟨rfl, _⟩, h⟩ ↦ h, fun h ↦ ⟨_, _, ⟨rfl, rfl⟩, h⟩⟩

/-- Loopback is told where `parse_origin` finds a host on loopback, and nowhere else. -/
def OriginsAgree (base : String) : Prop :=
  isLoopbackOrigin base = true ↔
    ∃ host port https, parseOrigin base = .ok (host, port, https) ∧ host ∈ loopbackHosts

theorem parseOrigin_iff (base : String) :
    (∃ host port https, parseOrigin base = .ok (host, port, https) ∧ host ∈ loopbackHosts) ↔
      ∃ schemePort host port, splitHostPort schemePort (hostPort base) = .ok (host, port) ∧
        schemePort = (if "https://".toList.isPrefixOf base.toList then 443 else 80) ∧
        host ∈ loopbackHosts := by
  unfold parseOrigin
  generalize "https://".toList.isPrefixOf base.toList = https
  constructor
  · rintro ⟨host, port, _, h, hloopback⟩
    cases hsplit : splitHostPort (if https then 443 else 80) (hostPort base) with
    | error e =>
      simp only [hsplit] at h
      cases h
    | ok parts =>
      simp only [hsplit] at h
      cases h
      exact ⟨_, _, _, hsplit, rfl, hloopback⟩
  · rintro ⟨_, host, port, hsplit, rfl, hloopback⟩
    refine ⟨host, port, https, ?_, hloopback⟩
    simp only [hsplit]
    rfl

theorem originsAgree_iff (base : String) :
    OriginsAgree base ↔ ¬"[::1]".toList <+: hostPort base ∧
      (LocalName (hostPort base) → portParses (hostPort base) = true) := by
  rw [OriginsAgree, parseOrigin_iff, isLoopbackOrigin_iff, ← LocalName]
  generalize (if "https://".toList.isPrefixOf base.toList then 443 else 80) = schemePort
  have hsplit : (∃ port host given, splitHostPort port (hostPort base) = .ok (host, given) ∧
      port = schemePort ∧ host ∈ loopbackHosts) ↔
      ∃ host given, splitHostPort schemePort (hostPort base) = .ok (host, given) ∧
        host ∈ loopbackHosts :=
    ⟨fun ⟨_, host, given, h, hport, hhost⟩ ↦ ⟨host, given, hport ▸ h, hhost⟩,
      fun ⟨host, given, h, hhost⟩ ↦ ⟨_, host, given, h, rfl, hhost⟩⟩
  rw [hsplit]
  by_cases hbracket : (hostPort base).head? = some '['
  · obtain ⟨stripped, hstripped⟩ : ∃ stripped, hostPort base = '[' :: stripped :=
      List.head?_eq_some_iff.mp hbracket
    rw [hstripped, splitHostPort_bracket_iff]
    simp only [not_localName_of_bracket stripped, false_iff, false_imp_iff, and_true]
  · rw [splitHostPort_name_iff _ hbracket]
    have hstarts : ¬"[::1]".toList <+: hostPort base := by
      rintro ⟨tail, htail⟩
      rw [← htail] at hbracket
      exact hbracket rfl
    simp only [hstarts, not_false_eq_true, true_and, iff_self_and]

/-- A base of the scheme `http` that `HttpHome::new` takes has a host on loopback. -/
def CleartextLocal (p : Outside) (base : String) : Prop :=
  IsHttp base → (∃ home, HttpHome.new p.checked base = .ok home) →
    authorityHost (authority base) ∈ loopbackHosts

theorem new_checked_iff (p : Outside) (base : String) :
    (∃ home, HttpHome.new p.checked base = .ok home) ↔
      ("http://".toList <+: (trimSlashes base).toList → LocalName (hostPort (trimSlashes base))) := by
  have hcheck : (∃ home, HttpHome.new p.checked base = .ok home) ↔
      checkCleartext false (trimSlashes base) = .ok () := by
    change (∃ home, (checkCleartext false (trimSlashes base) >>= _) = .ok home) ↔ _
    cases checkCleartext false (trimSlashes base) with
    | error e => exact iff_of_false (fun h ↦ nomatch h.choose_spec) nofun
    | ok u => exact iff_of_true ⟨_, rfl⟩ rfl
  rw [hcheck, LocalName, ← isLoopbackOrigin_iff, ← List.isPrefixOf_iff_prefix, checkCleartext,
    allowCleartextHttp, Bool.false_and, Bool.or_false]
  cases "http://".toList.isPrefixOf (trimSlashes base).toList <;>
    cases isLoopbackOrigin (trimSlashes base) <;> simp

theorem afterScheme_http (rest : List Char) :
    afterScheme ("http://".toList ++ rest) = some rest := rfl

/-- The slashes `trim_end_matches` cuts off. -/
theorem toList_trimSlashes (base : String) :
    ∃ slashes, base.toList = (trimSlashes base).toList ++ slashes ∧ ∀ c ∈ slashes, c = '/' := by
  refine ⟨base.toList.rtakeWhile (· == '/'), ?_, fun c hc ↦ ?_⟩
  · rw [trimSlashes, String.toList_ofList]
    exact List.rdropWhile_append_rtakeWhile.symm
  · simpa using List.mem_rtakeWhile_imp hc

/-- A name of the machine in front of a colon, of a slash or of nothing is the host of what has no
user information. -/
theorem authorityHost_of_name {name rest : List Char} {authority : List Char}
    (hname : name = "localhost".toList ∨ name = "127.0.0.1".toList)
    (hrest : ∀ c ∈ rest.head?, c = '/' ∨ c = ':')
    (hauthority : authority = (name ++ rest).takeWhile fun c ↦ c ∉ ['/', '?', '#'])
    (hat : '@' ∉ authority) : authorityHost authority ∈ loopbackHosts := by
  have hall : (name.all fun c ↦ decide (c ∉ ['/', '?', '#']) && decide (c ≠ ':')) = true := by
    rcases hname with rfl | rfl <;> decide
  have hplain : ∀ c ∈ name, (decide (c ∉ ['/', '?', '#']) = true) ∧ decide (c ≠ ':') = true :=
    fun c hc ↦ Bool.and_eq_true_iff.mp (List.all_eq_true.mp hall c hc)
  have hcut : authority.takeWhile (fun c ↦ c ≠ ':') = name := by
    rw [hauthority, Chars.takeWhile_append_of_all _ fun c hc ↦ (hplain c hc).1,
      Chars.takeWhile_append_of_all _ fun c hc ↦ (hplain c hc).2]
    cases rest with
    | nil => simp
    | cons c rest => rcases hrest c rfl with rfl | rfl <;> simp
  have hwhole : authority.rtakeWhile (fun c ↦ c ≠ '@') = authority :=
    List.rtakeWhile_eq_self_iff.mpr fun c hc ↦ by simpa using ne_of_mem_of_not_mem hc hat
  have hhost : authorityHost authority = name := by
    rw [authorityHost, hwhole]
    split
    · rcases hname with rfl | rfl <;> simp at hcut
    · exact hcut
  rw [hhost]
  rcases hname with rfl | rfl <;> decide

/-- Without user information, the host is what stands in front of the first colon. -/
theorem authorityHost_of_localName {base : String}
    (hstarts : "http://".toList <+: (trimSlashes base).toList) (hat : '@' ∉ authority base)
    (hname : LocalName (hostPort (trimSlashes base))) :
    authorityHost (authority base) ∈ loopbackHosts := by
  obtain ⟨rest, hrest⟩ := hstarts
  obtain ⟨slashes, hbase, hslashes⟩ := toList_trimSlashes base
  obtain ⟨slashes', hrest', hslashes'⟩ := toList_trimSlashes (String.ofList rest)
  have hcut : restOf (trimSlashes base) = (trimSlashes (String.ofList rest)).toList := by
    rw [restOf, ← hrest, afterScheme_http, Option.getD_some]
  rw [String.toList_ofList] at hrest'
  rw [LocalName, hostPort_eq, hcut, List.takeWhile_takeWhile] at hname
  generalize (trimSlashes (String.ofList rest)).toList = middle at *
  generalize hinside : (fun c : Char ↦ decide (decide (c ≠ ':') = true ∧ decide (c ≠ '/') = true)) =
    inside at hname
  refine @authorityHost_of_name _ (middle.dropWhile inside ++ (slashes' ++ slashes)) _ hname
    (fun c hc ↦ ?_) ?_ hat
  · cases hdrop : middle.dropWhile inside with
    | nil =>
      rw [hdrop, List.nil_append] at hc
      have hmem := List.mem_of_mem_head? hc
      exact .inl ((List.mem_append.mp hmem).elim (hslashes' c) (hslashes c))
    | cons a after =>
      have hhead := List.head?_dropWhile_not inside middle
      rw [hdrop] at hc hhead
      cases hc
      have ha : ¬(decide (decide (c ≠ ':') = true ∧ decide (c ≠ '/') = true) = true) := by
        rw [← hinside] at hhead
        simpa using hhead
      rw [decide_eq_true_eq, decide_eq_true_eq, decide_eq_true_eq] at ha
      exact (not_and_or.mp ha).elim (fun h ↦ .inr (not_not.mp h)) fun h ↦ .inl (not_not.mp h)
  · rw [authority, hbase, ← hrest, List.append_assoc, afterScheme_http, Option.getD_some, hrest',
      List.append_assoc, ← List.append_assoc (middle.takeWhile inside),
      List.takeWhile_append_dropWhile]

theorem cleartextLocal_iff (p : Outside) (base : String) :
    CleartextLocal p base ↔ (IsHttp base →
      if "http://".toList <+: (trimSlashes base).toList then
        '@' ∈ authority base → LocalName (hostPort (trimSlashes base)) →
          authorityHost (authority base) ∈ loopbackHosts
      else authorityHost (authority base) ∈ loopbackHosts) := by
  rw [CleartextLocal, new_checked_iff]
  refine forall_congr' fun _ ↦ ?_
  split_ifs with hstarts
  · constructor
    · exact fun h _ hname ↦ h fun _ ↦ hname
    · intro h haccepted
      by_cases hat : '@' ∈ authority base
      · exact h hat (haccepted hstarts)
      · exact authorityHost_of_localName hstarts hat (haccepted hstarts)
  · exact ⟨fun h ↦ h fun habsurd ↦ absurd habsurd hstarts, fun h _ ↦ h⟩

/-- Both parsers and the check on cleartext read a base as a URI is read, exactly where it has none of
the forms they take apart differently: an address in brackets, a port that is no port, and user
information or a scheme in capitals in front of another host. -/
theorem originsAgree_and_cleartextLocal_iff (p : Outside) (base : String) :
    (OriginsAgree base ↔ ¬"[::1]".toList <+: hostPort base ∧
      (LocalName (hostPort base) → portParses (hostPort base) = true)) ∧
    (CleartextLocal p base ↔ (IsHttp base →
      if "http://".toList <+: (trimSlashes base).toList then
        '@' ∈ authority base → LocalName (hostPort (trimSlashes base)) →
          authorityHost (authority base) ∈ loopbackHosts
      else authorityHost (authority base) ∈ loopbackHosts)) :=
  ⟨originsAgree_iff base, cleartextLocal_iff p base⟩

/-- A password after the name of the own machine: the home is elsewhere, and is taken for loopback
and asked in cleartext. The loopback address of the other kind is taken for a remote home. -/
theorem origins_disagree :
    (isLoopbackOrigin "http://localhost:x@home.example" = true ∧
      authorityHost (authority "http://localhost:x@home.example") = "home.example".toList ∧
      ¬OriginsAgree "http://localhost:x@home.example" ∧
      ∀ p, ¬CleartextLocal p "http://localhost:x@home.example") ∧
    ¬OriginsAgree "http://[::1]:8080" ∧
    ∀ p, ¬CleartextLocal p "HTTP://home.example" := by
  have hhttp : IsHttp "http://localhost:x@home.example" ∧ IsHttp "HTTP://home.example" := by
    decide +kernel
  refine ⟨⟨by decide +kernel, by decide +kernel, fun h ↦ ?_, fun p h ↦ ?_⟩, fun h ↦ ?_,
    fun p h ↦ ?_⟩
  · exact absurd ((originsAgree_iff _).mp h) (by decide +kernel)
  · exact absurd (h hhttp.1 ((new_checked_iff p _).mpr fun _ ↦ by decide +kernel))
      (by decide +kernel)
  · exact absurd ((originsAgree_iff _).mp h) (by decide +kernel)
  · exact absurd (h hhttp.2 ((new_checked_iff p _).mpr fun hstarts ↦
      absurd hstarts (by decide +kernel))) (by decide +kernel)

end NemoMessenger.Client
