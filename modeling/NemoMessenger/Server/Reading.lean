import NemoMessenger.Server.Routes

/-!
# Reading what a client sends

Paths, hexadecimal parameters and headers in the form a client writes them, and what the router and
the extractors make of them.
-/

namespace NemoMessenger.Server

open NemoMessenger.Data NemoMessenger.Wire

/-! ## Hexadecimal parameters -/

theorem toStr_hexBytes (bytes : Bytes) : toStr (Cbor.hexBytes bytes) = some (Cbor.hexBytes bytes) := by
  refine if_pos (List.all_eq_true.mpr fun d hd ↦ ?_)
  obtain ⟨hlow, hhigh⟩ := Cbor.of_mem_hexBytes hd
  have h := UInt8.le_iff_toNat_le.mp hlow
  have h' := UInt8.lt_iff_toNat_lt.mp hhigh
  simp only [Bool.or_eq_true, Bool.and_eq_true, decide_eq_true_eq]
  refine .inr ⟨UInt8.le_iff_toNat_le.mpr ?_, UInt8.lt_iff_toNat_lt.mpr ?_⟩
  · exact le_trans (by decide) h
  · exact lt_of_lt_of_le h' (by decide)

theorem parseKeyHex_hexBytes (key : Key) : parseKeyHex (Cbor.hexBytes key.data) = some key := by
  rw [parseKeyHex, Cbor.fromHex_hexBytes]
  exact congrArg Except.toOption (copyFixed_data key)

theorem parseGroupId_hexBytes (groupId : Key) :
    parseGroupId (Cbor.hexBytes groupId.data) = some ⟨groupId⟩ := by
  have h := parseKeyHex_hexBytes groupId
  rw [parseKeyHex] at h
  rw [parseGroupId, h]
  rfl

theorem not_mem_hexBytes {b : UInt8} (hb : b < 0x30) (bytes : Bytes) : b ∉ Cbor.hexBytes bytes := by
  intro h
  exact absurd (Cbor.of_mem_hexBytes h).1 (UInt8.not_le.mpr hb)

theorem hexBytes_ne_nil (key : Key) : Cbor.hexBytes key.data ≠ [] := by
  intro h
  have hread := Cbor.fromHex_hexBytes key.data
  rw [h] at hread
  have hlen := key.length_data
  rw [← Except.ok.inj hread] at hlen
  cases hlen

theorem percentDecode_of_not_mem {bytes : Bytes} (h : (0x25 : UInt8) ∉ bytes) :
    percentDecode bytes = bytes := by
  induction bytes with
  | nil => simp [percentDecode]
  | cons b bytes ih =>
    have hb : b ≠ 0x25 := fun heq ↦ h (heq ▸ List.mem_cons_self)
    have hrest := ih fun hmem ↦ h (List.mem_cons_of_mem _ hmem)
    unfold percentDecode
    split
    · rename_i heq
      exact absurd (List.cons.inj heq).1 hb
    · rename_i heq
      obtain ⟨rfl, rfl⟩ := List.cons.inj heq
      rw [hrest]
    · rename_i heq
      cases heq

theorem pathParam_hexBytes (bytes : Bytes) :
    pathParam (Cbor.hexBytes bytes) = .ok (Cbor.hexBytes bytes) := by
  have hutf8 : (Cbor.fromUtf8 (Cbor.hexBytes bytes)).isSome = true := by
    rw [← Cbor.textBytes_toHex, Cbor.fromUtf8_textBytes]
    rfl
  rw [pathParam, percentDecode_of_not_mem (not_mem_hexBytes (by decide) bytes), if_pos hutf8]

/-! ## Paths -/

/-- The path with the given segments. -/
def pathOf (segments : List Bytes) : Bytes := segments.flatMap (0x2f :: ·)

/-- The segments of a path that follows a route. -/
def fill : List Segment → List Bytes → List Bytes
  | .lit text :: route, params => Cbor.textBytes text :: fill route params
  | .param :: route, param :: params => param :: fill route params
  | _, _ => []

/-- The number of parameters of a route. -/
def Segment.holes (route : List Segment) : ℕ :=
  (route.filter fun segment ↦ segment matches .param).length

theorem pathSegments_pathOf {segments : List Bytes}
    (h : ∀ segment ∈ segments, (0x2f : UInt8) ∉ segment) :
    pathSegments (pathOf segments) = some segments := by
  have hsplit (s : Bytes) (rest : List Bytes) (hs : ∀ t ∈ s :: rest, (0x2f : UInt8) ∉ t) :
      (s ++ pathOf rest).splitOn 0x2f = s :: rest := by
    induction rest generalizing s with
    | nil =>
      rw [pathOf, List.flatMap_nil, List.append_nil]
      exact List.splitOn_eq_singleton (hs s List.mem_cons_self)
    | cons t rest ih =>
      rw [pathOf, List.flatMap_cons, List.cons_append,
        List.splitOn_append_cons_self_of_not_mem (hs s List.mem_cons_self)]
      exact congrArg (s :: ·) (ih t fun u hu ↦ hs u (List.mem_cons_of_mem _ hu))
  have hall := hsplit [] segments (List.forall_mem_cons.mpr ⟨List.not_mem_nil, h⟩)
  rw [List.nil_append] at hall
  rw [pathSegments, hall]

/-- No path follows both routes: their lengths or two of their texts differ. -/
def Segment.clash : List Segment → List Segment → Bool
  | [], [] => false
  | .lit text :: route, .lit text' :: route' => text ≠ text' || clash route route'
  | _ :: route, _ :: route' => clash route route'
  | _, _ => true

/-- What `findRoute_fill` asks of the parameters. -/
structure Params (route : List Segment) (params : List Bytes) : Prop where
  length_eq : params.length = Segment.holes route
  ne_nil : ∀ param ∈ params, param ≠ []
  slashless : ∀ param ∈ params, (0x2f : UInt8) ∉ param

theorem Params.nil : Params [] [] := ⟨rfl, nofun, nofun⟩

theorem Params.cons_lit {text : String} {route : List Segment} {params : List Bytes}
    (h : Params route params) : Params (.lit text :: route) params :=
  ⟨h.length_eq, h.ne_nil, h.slashless⟩

theorem Params.cons_key (key : Key) {route : List Segment} {params : List Bytes}
    (h : Params route params) : Params (.param :: route) (Cbor.hexBytes key.data :: params) :=
  ⟨congrArg Nat.succ h.length_eq, List.forall_mem_cons.mpr ⟨hexBytes_ne_nil key, h.ne_nil⟩,
    List.forall_mem_cons.mpr ⟨not_mem_hexBytes (by decide) _, h.slashless⟩⟩

theorem Params.lit {text : String} {route : List Segment} {params : List Bytes}
    (h : Params (.lit text :: route) params) : Params route params :=
  ⟨h.length_eq, h.ne_nil, h.slashless⟩

/-- The first parameter of a route that begins with one. -/
theorem Params.exists_cons {route : List Segment} {params : List Bytes}
    (h : Params (.param :: route) params) :
    ∃ param rest, params = param :: rest ∧ param ≠ [] ∧ (0x2f : UInt8) ∉ param ∧
      Params route rest := by
  obtain ⟨hlen, hne, hslash⟩ := h
  cases params with
  | nil => cases hlen
  | cons param rest =>
    rw [List.forall_mem_cons] at hne hslash
    exact ⟨param, rest, rfl, hne.1, hslash.1, Nat.succ.inj hlen, hne.2, hslash.2⟩

theorem matchSegments_fill {route : List Segment} {params : List Bytes} (h : Params route params) :
    matchSegments route (fill route params) = some params := by
  induction route generalizing params with
  | nil =>
    rw [List.eq_nil_of_length_eq_zero h.length_eq]
    rfl
  | cons segment route ih =>
    cases segment with
    | lit text => exact (if_pos rfl).trans (ih h.lit)
    | param =>
      obtain ⟨param, rest, rfl, hne, -, hrest⟩ := h.exists_cons
      rw [fill, matchSegments, if_neg hne, ih hrest]
      rfl

theorem matchSegments_of_clash {route route' : List Segment} {params : List Bytes}
    (h : Params route params) (hclash : Segment.clash route route' = true) :
    matchSegments route' (fill route params) = none := by
  induction route generalizing route' params with
  | nil =>
    cases route' with
    | nil => cases hclash
    | cons segment' route' => cases segment' <;> rfl
  | cons segment route ih =>
    cases segment with
    | lit text =>
      rw [fill]
      cases route' with
      | nil => rfl
      | cons segment' route' =>
        cases segment' with
        | lit text' =>
          rw [matchSegments]
          split_ifs with heq
          · simp only [Segment.clash, Cbor.textBytes_injective heq, Bool.or_eq_true,
              decide_eq_true_eq, ne_eq, not_true_eq_false, false_or] at hclash
            exact ih h.lit hclash
          · rfl
        | param =>
          rw [matchSegments, ih h.lit hclash]
          split_ifs <;> rfl
    | param =>
      obtain ⟨param, rest, rfl, -, -, hrest⟩ := h.exists_cons
      rw [fill]
      cases route' with
      | nil => rfl
      | cons segment' route' =>
        cases segment' with
        | lit text' =>
          rw [matchSegments, ih hrest hclash]
          split_ifs <;> rfl
        | param =>
          rw [matchSegments, ih hrest hclash]
          split_ifs <;> rfl

theorem slashless_fill {route : List Segment} {params : List Bytes} (h : Params route params)
    (hroute : ∀ text, .lit text ∈ route → (0x2f : UInt8) ∉ Cbor.textBytes text) :
    ∀ segment ∈ fill route params, (0x2f : UInt8) ∉ segment := by
  induction route generalizing params with
  | nil => exact nofun
  | cons segment route ih =>
    have hrest (text : String) (htext : .lit text ∈ route) :=
      hroute text (List.mem_cons_of_mem _ htext)
    cases segment with
    | lit text =>
      rw [fill, List.forall_mem_cons]
      exact ⟨hroute text List.mem_cons_self, ih h.lit hrest⟩
    | param =>
      obtain ⟨param, rest, rfl, -, hslash, hparams⟩ := h.exists_cons
      rw [fill, List.forall_mem_cons]
      exact ⟨hslash, ih hparams hrest⟩

theorem clash_router :
    router.Pairwise fun route route' ↦ Segment.clash route'.1 route.1 = true := by
  decide +kernel

/-- The text of a segment has no slash. -/
def Segment.slashless : Segment → Bool
  | .lit text => !(Cbor.textBytes text).contains 0x2f
  | .param => true

theorem slashless_router {route : List Segment × MethodRouter} (hroute : route ∈ router)
    {text : String} (htext : .lit text ∈ route.1) : (0x2f : UInt8) ∉ Cbor.textBytes text := by
  have hall : router.all (fun route ↦ route.1.all Segment.slashless) = true := by
    decide +kernel
  have hsegment := List.all_eq_true.mp (List.all_eq_true.mp hall route hroute) _ htext
  simpa [Segment.slashless] using hsegment

/-- A path that follows a route is found under this route. -/
theorem findRoute_fill {route : List Segment} {methods : MethodRouter}
    (hroute : (route, methods) ∈ router) {params : List Bytes} (h : Params route params) :
    findRoute (pathOf (fill route params)) = some (methods, params) := by
  have hfound {routes : List (List Segment × MethodRouter)} (hmem : (route, methods) ∈ routes)
      (hclash : routes.Pairwise fun route route' ↦ Segment.clash route'.1 route.1 = true) :
      (routes.findSome? fun found ↦
        (matchSegments found.1 (fill route params)).map (found.2, ·)) = some (methods, params) := by
    induction routes with
    | nil => cases hmem
    | cons found routes ih =>
      obtain ⟨hhead, htail⟩ := List.pairwise_cons.mp hclash
      rcases List.mem_cons.mp hmem with rfl | hmem
      · rw [List.findSome?_cons, matchSegments_fill h]
        rfl
      · rw [List.findSome?_cons, matchSegments_of_clash h (hhead _ hmem)]
        exact ih hmem htail
  rw [findRoute, pathSegments_pathOf (slashless_fill h fun _ ↦ slashless_router hroute)]
  exact hfound hroute clash_router

/-! ## Requests -/

/-- A request as a client writes it. The names of header fields are in lower case. -/
def Request.sent (method : Method) (path : String) (headers : List (String × String))
    (body : Bytes) : Request where
  method := method
  path := Cbor.textBytes path
  headers := headers.map fun field ↦ (field.1, Cbor.textBytes field.2)
  body := body
  upgrade := .error 426

section Sent

-- the equations of the reader are generated here, once for all the routes below
attribute [local simp] Endpoint.read

variable {method : Method} {path : String} {headers : List (String × String)} {body : Bytes}

/-- A request whose path follows a route is read by the handler of the route. -/
theorem call_sent {route : List Segment} {methods : MethodRouter} {endpoint : Endpoint}
    {params : List Bytes} (i : ℕ) (hroute : router[i]? = some (route, methods))
    (h : Params route params)
    (hpath : Cbor.textBytes path = pathOf (fill route params))
    (hmethod : methods method = some endpoint) :
    (Request.sent method path headers body).call =
      endpoint.read (Request.sent method path headers body) params := by
  have hfound : findRoute (Request.sent method path headers body).path = some (methods, params) := by
    rw [← findRoute_fill (List.mem_of_getElem? hroute) h, ← hpath]
    rfl
  have hread : methods (Request.sent method path headers body).method = some endpoint := hmethod
  simp only [Request.call, Request.endpoint, hfound, hread, orStatus, bind, Except.bind]

theorem bytes_sent (h : body.length ≤ bodyLimit) :
    (Request.sent method path headers body).bytes = .ok body := if_neg (Nat.not_lt.mpr h)

/-- The value a client gives a header field. -/
def fieldOf (headers : List (String × String)) (name : String) : Option String :=
  (headers.find? fun field ↦ field.1 = name).map Prod.snd

theorem header_sent (name : String) : (Request.sent method path headers body).header name =
    (fieldOf headers name).map Cbor.textBytes := by
  rw [Request.header, fieldOf, Request.sent, List.find?_map, Option.map_map, Option.map_map]
  rfl

theorem headerToken_sent {name : String} {key : Key}
    (h : fieldOf headers name = some (toHex key.data)) :
    (Request.sent method path headers body).headerToken name = some key := by
  rw [Request.headerToken, header_sent, h, Option.map_some, Cbor.textBytes_toHex]
  change toStr (Cbor.hexBytes key.data) >>= parseKeyHex = _
  rw [toStr_hexBytes]
  exact parseKeyHex_hexBytes key

theorem headerCred_sent {cred : MemberCred}
    (hid : fieldOf headers "nemo-cred-id" = some (toHex cred.credentialId.data))
    (hsecret : fieldOf headers "nemo-cred-secret" = some (toHex cred.credentialSecret.data)) :
    (Request.sent method path headers body).headerCred = some cred := by
  rw [Request.headerCred, headerToken_sent hid, headerToken_sent hsecret]
  rfl

/-- An authorisation names its owner and survives its encoding. -/
structure Owner.Readable (owner : Owner) : Prop where
  hint : owner.auth.mailboxHint = owner.id.data
  decode : MailboxOwnerAuth.decode owner.auth.encode = .ok owner.auth

theorem Owner.Readable.ownerId {owner : Owner} (h : owner.Readable) :
    Server.ownerId owner.auth = some owner.id := by
  rw [Server.ownerId, h.hint, copyFixed_data]
  rfl

theorem Owner.Readable.readOwner {owner : Owner} (h : owner.Readable) :
    Server.readOwner owner.auth.encode = some owner := by
  simp only [Server.readOwner, h.decode, Except.toOption, Option.bind_eq_bind, Option.bind_some,
    h.ownerId]

/-- The owner a client shows in a header. -/
theorem requireOwner_sent {owner : Owner} (howner : owner.Readable)
    (h : fieldOf headers "nemo-owner" = some (toHex owner.auth.encode)) :
    (Request.sent method path headers body).requireOwner = .ok owner := by
  have hraw : (Request.sent method path headers body).header "nemo-owner" =
      some (Cbor.hexBytes owner.auth.encode) := by
    rw [header_sent, h, Option.map_some, Cbor.textBytes_toHex]
  have hshown : (Request.sent method path headers body).headerOwner = some owner.auth := by
    simp only [Request.headerOwner, hraw, toStr_hexBytes, Cbor.fromHex_hexBytes, howner.decode,
      Except.toOption, Option.bind_eq_bind, Option.bind_some]
  simp only [Request.requireOwner, hshown, howner.ownerId, orStatus, bind, Except.bind]

/-- The paths without parameters, and their routes. -/
def plainPaths : List (String × List Segment) :=
  [("/v1/bundle", [.lit "v1", .lit "bundle"]),
    ("/v1/register", [.lit "v1", .lit "register"]),
    ("/v1/binding", [.lit "v1", .lit "binding"]),
    ("/v1/prekeys", [.lit "v1", .lit "prekeys"]),
    ("/v1/envelopes", [.lit "v1", .lit "envelopes"]),
    ("/v1/mailbox/fetch", [.lit "v1", .lit "mailbox", .lit "fetch"]),
    ("/v1/mailbox/ack", [.lit "v1", .lit "mailbox", .lit "ack"]),
    ("/v1/tokens/share", [.lit "v1", .lit "tokens", .lit "share"]),
    ("/v1/tokens/contact", [.lit "v1", .lit "tokens", .lit "contact"]),
    ("/v1/revocation", [.lit "v1", .lit "revocation"]),
    ("/v1/turn", [.lit "v1", .lit "turn"]),
    ("/v1/groups", [.lit "v1", .lit "groups"])]

/-- The parts of a group, and the segments of their routes. -/
def groupParts : List (String × String) :=
  [("/append", "append"), ("/invites", "invites"), ("/accept", "accept"), ("/admit", "admit"),
    ("/fanout", "fanout"), ("/pending-lookup", "pending-lookup")]

theorem textBytes_plainPath {path : String} {route : List Segment} (i : ℕ)
    (h : plainPaths[i]? = some (path, route)) :
    Cbor.textBytes path = pathOf (fill route []) := by
  have hall : plainPaths.all (fun entry ↦
      decide (Cbor.textBytes entry.1 = pathOf (fill entry.2 []))) = true := by
    decide +kernel
  exact of_decide_eq_true (List.all_eq_true.mp hall _ (List.mem_of_getElem? h))

theorem textBytes_groupRest {rest text : String} (i : ℕ)
    (h : groupParts[i]? = some (rest, text)) :
    Cbor.textBytes rest = pathOf [Cbor.textBytes text] := by
  have hall : groupParts.all (fun entry ↦
      decide (Cbor.textBytes entry.1 = pathOf [Cbor.textBytes entry.2])) = true := by
    decide +kernel
  exact of_decide_eq_true (List.all_eq_true.mp hall _ (List.mem_of_getElem? h))

/-! ### Identities -/

theorem call_bundle : (Request.sent .get "/v1/bundle" headers body).call = .ok .bundle :=
  (call_sent 0 rfl (.cons_lit (.cons_lit .nil)) (textBytes_plainPath 0 rfl) rfl).trans rfl

theorem call_register {card : ContactCard} (hsize : body.length ≤ bodyLimit)
    (hdecode : ContactCard.decode body = .ok card) :
    (Request.sent .post "/v1/register" headers body).call = .ok (.register card) := by
  rw [call_sent 1 rfl (.cons_lit (.cons_lit .nil)) (textBytes_plainPath 1 rfl) rfl]
  simp only [Endpoint.read, bytes_sent hsize, hdecode, orStatus, Except.toOption, bind,
    Except.bind]

theorem call_observeCardBinding {card : ContactCard} (hsize : body.length ≤ bodyLimit)
    (hdecode : ContactCard.decode body = .ok card) :
    (Request.sent .post "/v1/binding" headers body).call = .ok (.observeCardBinding card) := by
  rw [call_sent 2 rfl (.cons_lit (.cons_lit .nil)) (textBytes_plainPath 2 rfl) rfl]
  simp only [Endpoint.read, bytes_sent hsize, hdecode, orStatus, Except.toOption, bind,
    Except.bind]

theorem call_discovery (identityId : IdentityId) :
    (Request.sent .get ("/v1/discovery/" ++ toHex identityId.data) headers body).call =
      .ok (.discovery identityId) := by
  have hpath : Cbor.textBytes ("/v1/discovery/" ++ toHex identityId.data) =
      pathOf (fill [.lit "v1", .lit "discovery", .param] [Cbor.hexBytes identityId.data]) := by
    rw [Cbor.textBytes_append, Cbor.textBytes_toHex]
    simp only [fill, pathOf, List.flatMap_cons, List.flatMap_nil, List.append_nil]
    rw [show Cbor.textBytes "/v1/discovery/" = 0x2f :: Cbor.textBytes "v1" ++
      (0x2f :: Cbor.textBytes "discovery" ++ [0x2f]) by decide +kernel]
    simp only [List.append_assoc, List.cons_append, List.nil_append]
  rw [call_sent 3 rfl (.cons_lit (.cons_lit (.cons_key identityId .nil))) hpath rfl]
  simp only [Endpoint.read, pathParam_hexBytes, parseKeyHex_hexBytes, orStatus, bind, Except.bind]

theorem call_revocation (stmt : RevocationStatement) (hsize : stmt.encode.length ≤ bodyLimit) :
    (Request.sent .post "/v1/revocation" headers stmt.encode).call = .ok (.revocation stmt) := by
  rw [call_sent 10 rfl (.cons_lit (.cons_lit .nil)) (textBytes_plainPath 9 rfl) rfl]
  simp only [Endpoint.read, bytes_sent hsize, RevocationStatement.decode_encode, orStatus,
    Except.toOption, bind, Except.bind]

/-! ### Mailboxes -/

theorem call_fetchPrekey {token : Key}
    (h : fieldOf headers "nemo-token" = some (toHex token.data)) :
    (Request.sent .get "/v1/prekeys" headers body).call = .ok (.fetchPrekey token) := by
  rw [call_sent 4 rfl (.cons_lit (.cons_lit .nil)) (textBytes_plainPath 3 rfl) rfl]
  simp only [Endpoint.read, headerToken_sent h, orStatus, bind, Except.bind]

section Owned

variable {owner : Owner} (howner : owner.Readable)

include howner

theorem call_mailboxFetch (hsize : owner.auth.encode.length ≤ bodyLimit) :
    (Request.sent .post "/v1/mailbox/fetch" headers owner.auth.encode).call =
      .ok (.mailboxFetch owner) := by
  rw [call_sent 6 rfl (.cons_lit (.cons_lit (.cons_lit .nil))) (textBytes_plainPath 5 rfl) rfl]
  simp only [Endpoint.read, bytes_sent hsize, howner.readOwner, orStatus, bind, Except.bind]

theorem call_mailboxAck (hsize : owner.auth.encode.length ≤ bodyLimit) :
    (Request.sent .post "/v1/mailbox/ack" headers owner.auth.encode).call =
      .ok (.mailboxAck owner) := by
  rw [call_sent 7 rfl (.cons_lit (.cons_lit (.cons_lit .nil))) (textBytes_plainPath 6 rfl) rfl]
  simp only [Endpoint.read, bytes_sent hsize, howner.readOwner, orStatus, bind, Except.bind]

variable (hshown : fieldOf headers "nemo-owner" = some (toHex owner.auth.encode))

include hshown

theorem call_uploadPrekey (hsize : body.length ≤ bodyLimit) :
    (Request.sent .post "/v1/prekeys" headers body).call = .ok (.uploadPrekey owner body) := by
  rw [call_sent 4 rfl (.cons_lit (.cons_lit .nil)) (textBytes_plainPath 3 rfl) rfl]
  simp only [Endpoint.read, bytes_sent hsize, requireOwner_sent howner hshown, bind, Except.bind]

theorem call_postEnvelope {outer : OuterEnvelope} (hsize : body.length ≤ bodyLimit)
    (hdecode : OuterEnvelope.decode body = .ok outer) :
    (Request.sent .post "/v1/envelopes" headers body).call = .ok (.postEnvelope owner outer) := by
  rw [call_sent 5 rfl (.cons_lit (.cons_lit .nil)) (textBytes_plainPath 4 rfl) rfl]
  simp only [Endpoint.read, bytes_sent hsize, requireOwner_sent howner hshown, hdecode, orStatus,
    Except.toOption, bind, Except.bind]

theorem call_mintShare :
    (Request.sent .post "/v1/tokens/share" headers body).call = .ok (.mintShare owner) := by
  rw [call_sent 8 rfl (.cons_lit (.cons_lit (.cons_lit .nil))) (textBytes_plainPath 7 rfl) rfl]
  simp only [Endpoint.read, requireOwner_sent howner hshown, bind, Except.bind]

theorem call_mintContact :
    (Request.sent .post "/v1/tokens/contact" headers body).call = .ok (.mintContact owner) := by
  rw [call_sent 9 rfl (.cons_lit (.cons_lit (.cons_lit .nil))) (textBytes_plainPath 8 rfl) rfl]
  simp only [Endpoint.read, requireOwner_sent howner hshown, bind, Except.bind]

theorem call_issueTurn :
    (Request.sent .post "/v1/turn" headers body).call = .ok (.issueTurn owner) := by
  rw [call_sent 12 rfl (.cons_lit (.cons_lit .nil)) (textBytes_plainPath 10 rfl) rfl]
  simp only [Endpoint.read, requireOwner_sent howner hshown, bind, Except.bind]

theorem call_createGroup {signingPk cap hpke : Key} (hsize : body.length ≤ bodyLimit)
    (hbody : decodeMap body =
      some [(0, .bytes signingPk.data), (1, .bytes cap.data), (2, .bytes hpke.data)]) :
    (Request.sent .post "/v1/groups" headers body).call =
      .ok (.createGroup owner body signingPk cap hpke) := by
  rw [call_sent 13 rfl (.cons_lit (.cons_lit .nil)) (textBytes_plainPath 11 rfl) rfl]
  simp only [Endpoint.read, bytes_sent hsize, requireOwner_sent howner hshown,
    Call.readCreateGroup, hbody, orStatus, bind, Except.bind]
  simp [readKey, Cbor.getFixed, Cbor.mapGet, Cbor.mapGetOpt, Cbor.expectBytes, Except.toOption, bind,
    Except.bind]

end Owned

/-! ### Hosted groups -/

theorem decodeMap_encode {m : List (UInt64 × Cbor.Value)} (h : (Cbor.Value.map m).Wf) :
    decodeMap (Cbor.encode (.map m)) = some m := by
  rw [decodeMap, Cbor.decode_encode h]

/-- The pairs that show a credential in a body. -/
def MemberCred.pairs (cred : MemberCred) : List (UInt64 × Cbor.Value) :=
  [(0, .bytes cred.credentialId.data), (1, .bytes cred.credentialSecret.data)]

section Group

variable (groupId : Key) {cred : MemberCred}

/-- The path of a part of a group. -/
def groupPart (rest : String) : String := "/v1/groups/" ++ toHex groupId.data ++ rest

theorem textBytes_groupPart {rest : String} {tail : List Bytes}
    (h : Cbor.textBytes rest = pathOf tail) : Cbor.textBytes (groupPart groupId rest) =
      pathOf (Cbor.textBytes "v1" :: Cbor.textBytes "groups" :: Cbor.hexBytes groupId.data ::
        tail) := by
  rw [groupPart, Cbor.textBytes_append, Cbor.textBytes_append, Cbor.textBytes_toHex, h]
  rw [show Cbor.textBytes "/v1/groups/" = 0x2f :: Cbor.textBytes "v1" ++
    (0x2f :: Cbor.textBytes "groups" ++ [0x2f]) by decide +kernel]
  simp only [pathOf, List.flatMap_cons, List.append_assoc, List.cons_append, List.nil_append]

/-- What is read from a group and a body, where the route has no parameter but the group. -/
theorem call_group {text : String} {methods : MethodRouter} {endpoint : Endpoint} (i : ℕ)
    (hroute : router[i]? = some ([.lit "v1", .lit "groups", .param, .lit text], methods))
    (hmethod : methods method = some endpoint) {rest : String}
    (hrest : Cbor.textBytes rest = pathOf [Cbor.textBytes text]) :
    (Request.sent method (groupPart groupId rest) headers body).call =
      endpoint.read (Request.sent method (groupPart groupId rest) headers body)
        [Cbor.hexBytes groupId.data] :=
  call_sent i hroute (.cons_lit (.cons_lit (.cons_key groupId (.cons_lit .nil))))
    (textBytes_groupPart groupId hrest) hmethod

theorem call_groupAppend {type : MessageType} {row : Bytes} (hsize : body.length ≤ bodyLimit)
    (hbody : decodeMap body =
      some (cred.pairs ++ [(2, .uint type.toU8.toUInt64), (3, .bytes row)])) :
    (Request.sent .post (groupPart groupId "/append") headers body).call =
      .ok (.groupAppend { groupId := ⟨groupId⟩, cred, type, body := row }) := by
  rw [call_group groupId 14 rfl rfl (textBytes_groupRest 0 rfl)]
  simp only [Endpoint.read, bytes_sent hsize, pathParam_hexBytes, AppendRequest.read,
    parseGroupId_hexBytes, hbody, orStatus, bind, Except.bind]
  cases type <;>
    simp [MemberCred.pairs, Cbor.getFixed, Cbor.getUint, Cbor.mapGet, Cbor.mapGetOpt,
      Cbor.expectBytes, Cbor.expectUint, Except.toOption, bind, Except.bind, MessageType.toU8,
      MessageType.fromU8]

theorem call_groupInvite {invite : GroupInvite} {bytes : Bytes} (hsize : body.length ≤ bodyLimit)
    (hbody : decodeMap body = some (cred.pairs ++ [(2, .bytes bytes)]))
    (hdecode : GroupInvite.decode bytes = .ok invite) :
    (Request.sent .post (groupPart groupId "/invites") headers body).call =
      .ok (.groupInvite ⟨groupId⟩ cred invite) := by
  rw [call_group groupId 15 rfl rfl (textBytes_groupRest 1 rfl)]
  simp only [Endpoint.read, bytes_sent hsize, pathParam_hexBytes, Call.readInvite,
    parseGroupId_hexBytes, hbody, orStatus, bind, Except.bind]
  simp [MemberCred.pairs, readCred, readKey, readBytes, Cbor.getFixed, Cbor.mapGet, Cbor.mapGetOpt,
    Cbor.expectBytes, Except.toOption, bind, Except.bind, hdecode]

theorem call_groupAccept {nonce : Key} (hsize : body.length ≤ bodyLimit)
    (hbody : decodeMap body = some [(0, .bytes nonce.data)]) :
    (Request.sent .post (groupPart groupId "/accept") headers body).call =
      .ok (.groupAccept ⟨groupId⟩ nonce) := by
  rw [call_group groupId 16 rfl rfl (textBytes_groupRest 2 rfl)]
  simp only [Endpoint.read, bytes_sent hsize, pathParam_hexBytes, Call.readAccept,
    parseGroupId_hexBytes, hbody, orStatus, bind, Except.bind]
  simp [readKey, Cbor.getFixed, Cbor.mapGet, Cbor.mapGetOpt, Cbor.expectBytes, Except.toOption, bind,
    Except.bind]

theorem call_groupAdmit {admission : GroupAdmit} {bytes : Bytes} {joinerPk cap hpke : Key}
    (hsize : body.length ≤ bodyLimit)
    (hbody : decodeMap body = some (cred.pairs ++ [(2, .bytes bytes), (3, .bytes joinerPk.data),
      (4, .bytes cap.data), (5, .bytes hpke.data)]))
    (hdecode : GroupAdmit.decode bytes = .ok admission) :
    (Request.sent .post (groupPart groupId "/admit") headers body).call =
      .ok (.groupAdmit ⟨groupId⟩ cred admission joinerPk cap hpke) := by
  rw [call_group groupId 17 rfl rfl (textBytes_groupRest 3 rfl)]
  simp only [Endpoint.read, bytes_sent hsize, pathParam_hexBytes, Call.readAdmit,
    parseGroupId_hexBytes, hbody, orStatus, bind, Except.bind]
  simp [MemberCred.pairs, readCred, readKey, readBytes, Cbor.getFixed, Cbor.mapGet, Cbor.mapGetOpt,
    Cbor.expectBytes, Except.toOption, bind, Except.bind, hdecode]

theorem call_groupFanout {cap hpke : Key} (hsize : body.length ≤ bodyLimit)
    (hbody : decodeMap body =
      some (cred.pairs ++ [(2, .bytes cap.data), (3, .bytes hpke.data)])) :
    (Request.sent .post (groupPart groupId "/fanout") headers body).call =
      .ok (.groupFanout ⟨groupId⟩ cred cap hpke) := by
  rw [call_group groupId 18 rfl rfl (textBytes_groupRest 4 rfl)]
  simp only [Endpoint.read, bytes_sent hsize, pathParam_hexBytes, Call.readFanout,
    parseGroupId_hexBytes, hbody, orStatus, bind, Except.bind]
  simp [MemberCred.pairs, readCred, readKey, Cbor.getFixed, Cbor.mapGet, Cbor.mapGetOpt,
    Cbor.expectBytes, Except.toOption, bind, Except.bind]

theorem call_groupPendingLookup {pendingId : Key} (hsize : body.length ≤ bodyLimit)
    (hbody : decodeMap body = some (cred.pairs ++ [(2, .bytes pendingId.data)])) :
    (Request.sent .post (groupPart groupId "/pending-lookup") headers body).call =
      .ok (.groupPendingLookup ⟨groupId⟩ cred pendingId) := by
  rw [call_group groupId 19 rfl rfl (textBytes_groupRest 5 rfl)]
  simp only [Endpoint.read, bytes_sent hsize, pathParam_hexBytes, Call.readPendingLookup,
    parseGroupId_hexBytes, hbody, orStatus, bind, Except.bind]
  simp [MemberCred.pairs, readCred, readKey, Cbor.getFixed, Cbor.mapGet, Cbor.mapGetOpt,
    Cbor.expectBytes, Except.toOption, bind, Except.bind]

section File

variable {fetchToken : Key}
  (hid : fieldOf headers "nemo-cred-id" = some (toHex cred.credentialId.data))
  (hsecret : fieldOf headers "nemo-cred-secret" = some (toHex cred.credentialSecret.data))

theorem call_file {endpoint : Endpoint}
    (hmethod : MethodRouter.post .groupUploadFile (.get .groupFetchFile) method = some endpoint) :
    (Request.sent method (groupPart groupId ("/files/" ++ toHex fetchToken.data)) headers body).call =
      endpoint.read
        (Request.sent method (groupPart groupId ("/files/" ++ toHex fetchToken.data)) headers body)
        [Cbor.hexBytes groupId.data, Cbor.hexBytes fetchToken.data] := by
  have hrest : Cbor.textBytes ("/files/" ++ toHex fetchToken.data) =
      pathOf [Cbor.textBytes "files", Cbor.hexBytes fetchToken.data] := by
    rw [Cbor.textBytes_append, Cbor.textBytes_toHex]
    rw [show Cbor.textBytes "/files/" = 0x2f :: Cbor.textBytes "files" ++ [0x2f] by
      decide +kernel]
    simp only [pathOf, List.flatMap_cons, List.flatMap_nil, List.append_nil, List.append_assoc,
      List.cons_append, List.nil_append]
  exact call_sent 20 rfl (.cons_lit (.cons_lit (.cons_key groupId (.cons_lit
    (.cons_key fetchToken .nil))))) (textBytes_groupPart groupId hrest) hmethod

include hid hsecret

theorem readFile_sent : (Request.sent method path headers body).readFile
    (Cbor.hexBytes groupId.data) (Cbor.hexBytes fetchToken.data) =
      .ok (⟨groupId⟩, fetchToken, cred) := by
  simp only [Request.readFile, parseGroupId_hexBytes, parseKeyHex_hexBytes,
    headerCred_sent hid hsecret, orStatus, bind, Except.bind]

theorem call_groupFetchFile :
    (Request.sent .get (groupPart groupId ("/files/" ++ toHex fetchToken.data)) headers body).call =
      .ok (.groupFetchFile ⟨groupId⟩ fetchToken cred) := by
  rw [call_file groupId rfl]
  simp only [Endpoint.read, pathParam_hexBytes, readFile_sent groupId hid hsecret, bind,
    Except.bind]

theorem call_groupUploadFile (hsize : body.length ≤ bodyLimit) :
    (Request.sent .post (groupPart groupId ("/files/" ++ toHex fetchToken.data)) headers body).call =
      .ok (.groupUploadFile ⟨groupId⟩ fetchToken cred body) := by
  rw [call_file groupId rfl]
  simp only [Endpoint.read, bytes_sent hsize, pathParam_hexBytes,
    readFile_sent groupId hid hsecret, bind, Except.bind]

end File

end Group

/-! ### All of them -/

/-- The forms in which a client writes a call, but for the wakeup, which changes the protocol of its
connection. Header fields and bodies may be anything where the route does not read them. -/
inductive Call.Written : Request → Call → Prop
  | bundle {headers : List (String × String)} {body : Bytes} :
    Written (.sent .get "/v1/bundle" headers body) .bundle
  | register {headers : List (String × String)} {body : Bytes} {card : ContactCard}
    (hsize : body.length ≤ bodyLimit) (hdecode : ContactCard.decode body = .ok card) :
    Written (.sent .post "/v1/register" headers body) (.register card)
  | observeCardBinding {headers : List (String × String)} {body : Bytes} {card : ContactCard}
    (hsize : body.length ≤ bodyLimit) (hdecode : ContactCard.decode body = .ok card) :
    Written (.sent .post "/v1/binding" headers body) (.observeCardBinding card)
  | discovery {headers : List (String × String)} {body : Bytes} (identityId : IdentityId) :
    Written (.sent .get ("/v1/discovery/" ++ toHex identityId.data) headers body)
      (.discovery identityId)
  | revocation {headers : List (String × String)} (stmt : RevocationStatement)
    (hsize : stmt.encode.length ≤ bodyLimit) :
    Written (.sent .post "/v1/revocation" headers stmt.encode) (.revocation stmt)
  | fetchPrekey {headers : List (String × String)} {body : Bytes} {token : Key}
    (htoken : fieldOf headers "nemo-token" = some (toHex token.data)) :
    Written (.sent .get "/v1/prekeys" headers body) (.fetchPrekey token)
  | mailboxFetch {headers : List (String × String)} {owner : Owner} (howner : owner.Readable)
    (hsize : owner.auth.encode.length ≤ bodyLimit) :
    Written (.sent .post "/v1/mailbox/fetch" headers owner.auth.encode) (.mailboxFetch owner)
  | mailboxAck {headers : List (String × String)} {owner : Owner} (howner : owner.Readable)
    (hsize : owner.auth.encode.length ≤ bodyLimit) :
    Written (.sent .post "/v1/mailbox/ack" headers owner.auth.encode) (.mailboxAck owner)
  | uploadPrekey {headers : List (String × String)} {body : Bytes} {owner : Owner}
    (howner : owner.Readable)
    (hshown : fieldOf headers "nemo-owner" = some (toHex owner.auth.encode))
    (hsize : body.length ≤ bodyLimit) :
    Written (.sent .post "/v1/prekeys" headers body) (.uploadPrekey owner body)
  | postEnvelope {headers : List (String × String)} {body : Bytes} {owner : Owner}
    (howner : owner.Readable)
    (hshown : fieldOf headers "nemo-owner" = some (toHex owner.auth.encode))
    {outer : OuterEnvelope} (hsize : body.length ≤ bodyLimit)
    (hdecode : OuterEnvelope.decode body = .ok outer) :
    Written (.sent .post "/v1/envelopes" headers body) (.postEnvelope owner outer)
  | mintShare {headers : List (String × String)} {body : Bytes} {owner : Owner}
    (howner : owner.Readable)
    (hshown : fieldOf headers "nemo-owner" = some (toHex owner.auth.encode)) :
    Written (.sent .post "/v1/tokens/share" headers body) (.mintShare owner)
  | mintContact {headers : List (String × String)} {body : Bytes} {owner : Owner}
    (howner : owner.Readable)
    (hshown : fieldOf headers "nemo-owner" = some (toHex owner.auth.encode)) :
    Written (.sent .post "/v1/tokens/contact" headers body) (.mintContact owner)
  | issueTurn {headers : List (String × String)} {body : Bytes} {owner : Owner}
    (howner : owner.Readable)
    (hshown : fieldOf headers "nemo-owner" = some (toHex owner.auth.encode)) :
    Written (.sent .post "/v1/turn" headers body) (.issueTurn owner)
  | createGroup {headers : List (String × String)} {body : Bytes} {owner : Owner}
    (howner : owner.Readable)
    (hshown : fieldOf headers "nemo-owner" = some (toHex owner.auth.encode))
    {signingPk cap hpke : Key} (hsize : body.length ≤ bodyLimit)
    (hbody : decodeMap body =
      some [(0, .bytes signingPk.data), (1, .bytes cap.data), (2, .bytes hpke.data)]) :
    Written (.sent .post "/v1/groups" headers body) (.createGroup owner body signingPk cap hpke)
  | groupAppend {headers : List (String × String)} {body : Bytes} (groupId : Key)
    {cred : MemberCred} {type : MessageType} {row : Bytes} (hsize : body.length ≤ bodyLimit)
    (hbody : decodeMap body =
      some (cred.pairs ++ [(2, .uint type.toU8.toUInt64), (3, .bytes row)])) :
    Written (.sent .post (groupPart groupId "/append") headers body)
      (.groupAppend { groupId := ⟨groupId⟩, cred, type, body := row })
  | groupInvite {headers : List (String × String)} {body : Bytes} (groupId : Key)
    {cred : MemberCred} {invite : GroupInvite} {bytes : Bytes} (hsize : body.length ≤ bodyLimit)
    (hbody : decodeMap body = some (cred.pairs ++ [(2, .bytes bytes)]))
    (hdecode : GroupInvite.decode bytes = .ok invite) :
    Written (.sent .post (groupPart groupId "/invites") headers body)
      (.groupInvite ⟨groupId⟩ cred invite)
  | groupAccept {headers : List (String × String)} {body : Bytes} (groupId : Key) {nonce : Key}
    (hsize : body.length ≤ bodyLimit) (hbody : decodeMap body = some [(0, .bytes nonce.data)]) :
    Written (.sent .post (groupPart groupId "/accept") headers body) (.groupAccept ⟨groupId⟩ nonce)
  | groupAdmit {headers : List (String × String)} {body : Bytes} (groupId : Key)
    {cred : MemberCred} {admission : GroupAdmit} {bytes : Bytes} {joinerPk cap hpke : Key}
    (hsize : body.length ≤ bodyLimit)
    (hbody : decodeMap body = some (cred.pairs ++ [(2, .bytes bytes), (3, .bytes joinerPk.data),
      (4, .bytes cap.data), (5, .bytes hpke.data)]))
    (hdecode : GroupAdmit.decode bytes = .ok admission) :
    Written (.sent .post (groupPart groupId "/admit") headers body)
      (.groupAdmit ⟨groupId⟩ cred admission joinerPk cap hpke)
  | groupFanout {headers : List (String × String)} {body : Bytes} (groupId : Key)
    {cred : MemberCred} {cap hpke : Key} (hsize : body.length ≤ bodyLimit)
    (hbody : decodeMap body =
      some (cred.pairs ++ [(2, .bytes cap.data), (3, .bytes hpke.data)])) :
    Written (.sent .post (groupPart groupId "/fanout") headers body)
      (.groupFanout ⟨groupId⟩ cred cap hpke)
  | groupPendingLookup {headers : List (String × String)} {body : Bytes} (groupId : Key)
    {cred : MemberCred} {pendingId : Key} (hsize : body.length ≤ bodyLimit)
    (hbody : decodeMap body = some (cred.pairs ++ [(2, .bytes pendingId.data)])) :
    Written (.sent .post (groupPart groupId "/pending-lookup") headers body)
      (.groupPendingLookup ⟨groupId⟩ cred pendingId)
  | groupFetchFile {headers : List (String × String)} {body : Bytes} (groupId : Key)
    {cred : MemberCred} {fetchToken : Key}
    (hid : fieldOf headers "nemo-cred-id" = some (toHex cred.credentialId.data))
    (hsecret : fieldOf headers "nemo-cred-secret" = some (toHex cred.credentialSecret.data)) :
    Written (.sent .get (groupPart groupId ("/files/" ++ toHex fetchToken.data)) headers body)
      (.groupFetchFile ⟨groupId⟩ fetchToken cred)
  | groupUploadFile {headers : List (String × String)} {body : Bytes} (groupId : Key)
    {cred : MemberCred} {fetchToken : Key}
    (hid : fieldOf headers "nemo-cred-id" = some (toHex cred.credentialId.data))
    (hsecret : fieldOf headers "nemo-cred-secret" = some (toHex cred.credentialSecret.data))
    (hsize : body.length ≤ bodyLimit) :
    Written (.sent .post (groupPart groupId ("/files/" ++ toHex fetchToken.data)) headers body)
      (.groupUploadFile ⟨groupId⟩ fetchToken cred body)

/-- The server reads the call a client has written. -/
theorem Call.Written.call {request : Request} {call : Call} (h : Written request call) :
    request.call = .ok call := by
  cases h with
  | bundle => exact call_bundle
  | register hsize hdecode => exact call_register hsize hdecode
  | observeCardBinding hsize hdecode => exact call_observeCardBinding hsize hdecode
  | discovery identityId => exact call_discovery identityId
  | revocation stmt hsize => exact call_revocation stmt hsize
  | fetchPrekey htoken => exact call_fetchPrekey htoken
  | mailboxFetch howner hsize => exact call_mailboxFetch howner hsize
  | mailboxAck howner hsize => exact call_mailboxAck howner hsize
  | uploadPrekey howner hshown hsize => exact call_uploadPrekey howner hshown hsize
  | postEnvelope howner hshown hsize hdecode => exact call_postEnvelope howner hshown hsize hdecode
  | mintShare howner hshown => exact call_mintShare howner hshown
  | mintContact howner hshown => exact call_mintContact howner hshown
  | issueTurn howner hshown => exact call_issueTurn howner hshown
  | createGroup howner hshown hsize hbody => exact call_createGroup howner hshown hsize hbody
  | groupAppend groupId hsize hbody => exact call_groupAppend groupId hsize hbody
  | groupInvite groupId hsize hbody hdecode => exact call_groupInvite groupId hsize hbody hdecode
  | groupAccept groupId hsize hbody => exact call_groupAccept groupId hsize hbody
  | groupAdmit groupId hsize hbody hdecode => exact call_groupAdmit groupId hsize hbody hdecode
  | groupFanout groupId hsize hbody => exact call_groupFanout groupId hsize hbody
  | groupPendingLookup groupId hsize hbody => exact call_groupPendingLookup groupId hsize hbody
  | groupFetchFile groupId hid hsecret => exact call_groupFetchFile groupId hid hsecret
  | groupUploadFile groupId hid hsecret hsize =>
    exact call_groupUploadFile groupId hid hsecret hsize

/-- No request is a form of two calls. -/
theorem Call.Written.unique {request : Request} {call call' : Call} (h : Written request call)
    (h' : Written request call') : call = call' :=
  Except.ok.inj (h.call.symm.trans h'.call)

end Sent

end NemoMessenger.Server
