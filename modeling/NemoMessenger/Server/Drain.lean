import NemoMessenger.Server.Http
import NemoMessenger.Server.Removal
import NemoMessenger.Server.Copies
import NemoMessenger.Client.Mailbox

/-!
# Draining a mailbox

The handler of `/v1/mailbox/fetch`, the layer that signs its answer, and the client that reads it.
The number of rows in an answer is limited by a count and the answer by its bytes, so a mailbox of
large envelopes can hold more than one answer may carry.
-/

namespace NemoMessenger.Server

open NemoMessenger.Data NemoMessenger.Wire

/-! ## The handler -/

/-- `owner_id`. -/
def ownerId (auth : MailboxOwnerAuth) : Option IdentityId :=
  (copyFixed 32 auth.mailboxHint).toOption

/-- An element of the answer to a fetch. A row that cannot be encoded is left out. -/
def fetchItem (row : StoredEnvelope) : Option Cbor.Value :=
  match row.inner.encodePadded with
  | .ok inner => some (.map [(0, .uint (UInt64.ofNat row.seq)), (1, .bytes inner)])
  | .error _ => none

/-- `mailbox_fetch`; the clock is read twice. -/
def mailboxFetch (crypto : Crypto) (clock : UInt64 × UInt64) (body : Bytes) (home : HomeServer) :
    Response × HomeServer :=
  match MailboxOwnerAuth.decode body with
  | .error _ => (.status 400, home)
  | .ok auth =>
    match ownerId auth with
    | none => (.status 400, home)
    | some owner =>
      match { home with now := clock.1.toNat }.fetch crypto owner auth clock.2.toNat with
      | (.error e, home) => (.status (mapErr e), home)
      | (.ok rows, home) => (.cbor (Cbor.encode (.array (rows.filterMap fetchItem))), home)

/-! ## Signed answers -/

/-- `BODY_LIMIT`. -/
def bodyLimit : ℕ := 18000000

/-- The status of an answer. -/
def Response.code : Response → ℕ
  | .status code => code
  | .cbor _ | .octets _ => 200

/-- The body of an answer. -/
def Response.body : Response → Bytes
  | .status _ => []
  | .cbor body | .octets body => body

/-- `sign_response` on the payload `response_payload` builds. -/
def signResponse (crypto : Crypto) (serverSk nonce : Key) (response : Response) : Signature :=
  crypto.signContext serverSk .serverResponse (Cbor.encode (.map
    [(0, versionValue), (1, .bytes nonce.data), (2, .uint (UInt64.ofNat response.code)),
      (3, .bytes (crypto.sha256 response.body).data)]))

/-- An answer as it leaves the server. -/
structure SignedResponse where
  response : Response
  signature : Option Signature

/-- `sign_after`. A body that is longer than the limit is answered with an error. -/
def signAfter (crypto : Crypto) (serverSk : Key) (nonce : Option Key) (response : Response) :
    SignedResponse :=
  match nonce with
  | none => ⟨response, none⟩
  | some nonce =>
    if response.body.length > bodyLimit then ⟨.status 500, none⟩
    else ⟨response, some (signResponse crypto serverSk nonce response)⟩

theorem signAfter_of_gt {crypto : Crypto} {serverSk nonce : Key} {body : Bytes}
    (h : bodyLimit < body.length) :
    signAfter crypto serverSk (some nonce) (.cbor body) = ⟨.status 500, none⟩ := if_pos h

theorem signAfter_of_le {crypto : Crypto} {serverSk nonce : Key} {body : Bytes}
    (h : body.length ≤ bodyLimit) : signAfter crypto serverSk (some nonce) (.cbor body) =
      ⟨.cbor body, some (signResponse crypto serverSk nonce (.cbor body))⟩ :=
  if_neg (Nat.not_lt.mpr h)

/-! ## Rows and bytes -/

/-- The rows behind a cursor that have not expired, in their order. -/
def Mailbox.liveBehind (box : Mailbox) (now maxAge cursor : ℕ) : List StoredEnvelope :=
  ((FiniteMap.sortedKeys box.rows).filterMap box.rows.lookup).filter fun row ↦
    !expired now maxAge row && decide (row.seq > cursor)

/-- The length of a CBOR head. -/
def headLen (n : ℕ) : ℕ :=
  if n < 24 then 1 else if n ≤ 0xff then 2 else if n ≤ 0xffff then 3
  else if n ≤ 0xffffffff then 5 else 9

/-- The bytes of a row in an answer: its number and its envelope with their heads and keys. -/
def StoredEnvelope.fetchedLen (row : StoredEnvelope) : ℕ :=
  3 + headLen (UInt64.ofNat row.seq).toNat + headLen row.inner.outerLen + row.inner.outerLen

/-- The bytes of an answer that carries the rows. -/
def answerLen (rows : List StoredEnvelope) : ℕ :=
  headLen rows.length + (rows.map StoredEnvelope.fetchedLen).sum

theorem headLen_le (n : ℕ) : headLen n ≤ 9 := by
  unfold headLen
  split_ifs <;> omega

theorem length_writeHead (major n : ℕ) : (Cbor.writeHead major n).length = headLen n := by
  unfold Cbor.writeHead headLen
  split_ifs <;> simp

/-- What a row is sent as, when it can be encoded. -/
theorem fetchItem_of_canonical {row : StoredEnvelope} (h : row.inner.Canonical) :
    ∃ bytes, fetchItem row =
        some (.map [(0, .uint (UInt64.ofNat row.seq)), (1, .bytes bytes)]) ∧
      row.inner.encodePadded = .ok bytes ∧ bytes.length = row.inner.outerLen ∧
      InnerEnvelope.decodePadded bytes = .ok row.inner := by
  obtain ⟨bytes, hencode, hlen, hdecode⟩ := InnerEnvelope.decodePadded_encodePadded h
  exact ⟨bytes, by rw [fetchItem, hencode], hencode, hlen, hdecode⟩

theorem outerLen_le (inner : InnerEnvelope) : inner.outerLen ≤ a4Outer := by
  unfold InnerEnvelope.outerLen
  split_ifs <;> decide

/-- The elements of an answer, their bytes and what the client reads. -/
theorem items_of_canonical {rows : List StoredEnvelope} (h : ∀ row ∈ rows, row.inner.Canonical) :
    (Cbor.encodeItems (rows.filterMap fetchItem)).length =
        (rows.map StoredEnvelope.fetchedLen).sum ∧
      (rows.filterMap fetchItem).length = rows.length ∧
      Cbor.itemsWf (rows.filterMap fetchItem) ∧
      (rows.filterMap fetchItem).map Client.readRow =
        (rows.map fun row ↦ ⟨UInt64.ofNat row.seq, row.inner⟩).map Except.ok := by
  induction rows with
  | nil => exact ⟨rfl, rfl, trivial, rfl⟩
  | cons row rows ih =>
    obtain ⟨hbytes, hlen, hwf, hread⟩ := ih fun row hrow ↦ h row (List.mem_cons_of_mem _ hrow)
    obtain ⟨bytes, hitem, -, houter, hdecode⟩ := fetchItem_of_canonical (h row List.mem_cons_self)
    have hsmall : bytes.length < 2 ^ 64 := by
      have hle := outerLen_le row.inner
      rw [a4Outer] at hle
      omega
    have hsorted : (([(0, .uint (UInt64.ofNat row.seq)), (1, .bytes bytes)] :
        List (UInt64 × Cbor.Value)).map Prod.fst).Pairwise (· < ·) := by
      simp
    rw [List.filterMap_cons_some hitem]
    refine ⟨?_, ?_, ?_, ?_⟩
    · rw [Cbor.encodeItems, List.length_append, hbytes, List.map_cons, List.sum_cons, Cbor.encode,
        Cbor.writeSorted_encodePairs hsorted]
      simp only [List.length_append, List.flatMap_cons, List.flatMap_nil, List.length_nil,
        Cbor.encode, length_writeHead, houter, StoredEnvelope.fetchedLen, headLen]
      simp
      omega
    · rw [List.length_cons, hlen, List.length_cons]
    · refine ⟨⟨by simp, hsorted, trivial, hsmall, trivial⟩, hwf⟩
    · rw [List.map_cons, hread, Client.readRow_item hdecode]
      rfl

/-- The answer that carries the rows has as many bytes as they add up to. -/
theorem length_answer {rows : List StoredEnvelope} (h : ∀ row ∈ rows, row.inner.Canonical) :
    (Cbor.encode (.array (rows.filterMap fetchItem))).length = answerLen rows := by
  obtain ⟨hbytes, hlen, -, -⟩ := items_of_canonical h
  rw [Cbor.encode, List.length_append, length_writeHead, hlen, hbytes, answerLen]

/-! ## Mailboxes within their limit -/

namespace Mailbox

/-- A row behind the cursor that has not expired. -/
structure Live (box : Mailbox) (now maxAge cursor : ℕ) (row : StoredEnvelope) : Prop where
  stored : box.rows.lookup row.seq = some row
  fresh : expired now maxAge row = false
  behind : cursor < row.seq

variable {box : Mailbox} {now maxAge maxBytes cursor : ℕ}

theorem LogInv.mem_liveBehind (h : box.LogInv) {row : StoredEnvelope} :
    row ∈ box.liveBehind now maxAge cursor ↔ box.Live now maxAge cursor row := by
  rw [liveBehind, List.mem_filter, List.mem_filterMap]
  constructor
  · rintro ⟨⟨seq, -, hrow⟩, hlive⟩
    obtain rfl := h.seq_eq seq row hrow
    simp only [Bool.and_eq_true, Bool.not_eq_true', decide_eq_true_eq] at hlive
    exact ⟨hrow, hlive.1, hlive.2⟩
  · intro hlive
    refine ⟨⟨row.seq, FiniteMap.mem_sortedKeys.mpr ?_, hlive.stored⟩, ?_⟩
    · rw [hlive.stored]
      rfl
    · simpa using ⟨hlive.fresh, hlive.behind⟩

/-- The first of the live rows has the lowest number. -/
theorem LogInv.le_of_liveBehind (h : box.LogInv) {first : StoredEnvelope}
    {rest : List StoredEnvelope} (hrows : box.liveBehind now maxAge cursor = first :: rest)
    {row : StoredEnvelope} (hlive : box.Live now maxAge cursor row) : first.seq ≤ row.seq := by
  have hsorted : (box.liveBehind now maxAge cursor).Pairwise fun a b ↦ a.seq ≤ b.seq := by
    refine List.Pairwise.filter _ (List.pairwise_filterMap.mpr ?_)
    refine (List.pairwise_insertionSort _ _).imp fun {k k'} hle a ha b hb ↦ ?_
    rw [h.seq_eq k a ha, h.seq_eq k' b hb]
    exact hle
  have hmem := h.mem_liveBehind.mpr hlive
  rw [hrows] at hsorted hmem
  rcases List.mem_cons.mp hmem with rfl | hrest
  · exact le_rfl
  · exact (List.pairwise_cons.mp hsorted).1 row hrest

/-- Garbage collection in a mailbox within its limit drops the expired rows. -/
theorem lookup_gc_of_bytes_le (hbytes : box.bytes ≤ maxBytes) (s : ℕ) :
    (box.gc now maxAge maxBytes).1.rows.lookup s =
      (box.rows.lookup s).filter fun row ↦ !expired now maxAge row := by
  have hle : ((box.expiredSeqs now maxAge).foldl removeRow box).bytes ≤ maxBytes :=
    (foldl_bytes_le removeRow_bytes_le _ box).trans hbytes
  have hloop (turns : ℕ) : evictLoop maxBytes turns
      ((box.expiredSeqs now maxAge).foldl removeRow box) (box.expiredSeqs now maxAge) =
        ((box.expiredSeqs now maxAge).foldl removeRow box, box.expiredSeqs now maxAge) := by
    cases turns with
    | zero => rfl
    | succ turns => rw [evictLoop, if_neg (Nat.not_lt.mpr hle)]
  have hmem : s ∈ box.expiredSeqs now maxAge ↔
      (box.rows.lookup s).any (expired now maxAge) = true := by
    rw [expiredSeqs, List.mem_filter, FiniteMap.mem_sortedKeys]
    cases box.rows.lookup s <;> simp
  rw [gc, hloop, lookup_foldl_removeRow]
  simp only [hmem]
  cases box.rows.lookup s with
  | none => rfl
  | some row => cases hage : expired now maxAge row <;> simp [Option.filter, hage]

/-- Garbage collection leaves a mailbox alone that is within its limit and has no expired row. -/
theorem gc_eq_self (hbytes : box.bytes ≤ maxBytes)
    (hfresh : ∀ s row, box.rows.lookup s = some row → expired now maxAge row = false) :
    (box.gc now maxAge maxBytes).1 = box := by
  have hnone : box.expiredSeqs now maxAge = [] := by
    rw [expiredSeqs, List.filter_eq_nil_iff]
    intro s _
    cases hrow : box.rows.lookup s with
    | none => simp
    | some row => simp [hfresh s row hrow]
  rw [gc, hnone, List.foldl_nil]
  cases (FiniteMap.sortedKeys box.rows).length with
  | zero => rfl
  | succ turns => rw [evictLoop, if_neg (Nat.not_lt.mpr hbytes)]

/-- The rows a fetch selects behind garbage collection are the live ones. -/
theorem filter_gc (hbytes : box.bytes ≤ maxBytes) :
    (((FiniteMap.sortedKeys (box.gc now maxAge maxBytes).1.rows).filterMap
        (box.gc now maxAge maxBytes).1.rows.lookup).filter fun row ↦
      decide (row.seq > cursor) && decide (row.expiresAt > now)) =
        box.liveBehind now maxAge cursor := by
  rw [FiniteMap.filterMap_sortedKeys_filter (lookup_gc_of_bytes_le hbytes), List.filter_filter,
    liveBehind]
  refine List.filter_congr fun row _ ↦ ?_
  unfold expired
  rw [Bool.eq_iff_iff]
  simp only [Bool.and_eq_true, Bool.not_eq_true', Bool.or_eq_false_iff, decide_eq_true_eq,
    decide_eq_false_iff_not]
  omega

end Mailbox

section Fetch

variable {crypto : Crypto} {home : HomeServer} {owner : IdentityId} {box : Mailbox}
  {auth : MailboxOwnerAuth} {nowUnix : ℕ}

theorem HomeServer.now_gcMailbox (home : HomeServer) (owner : IdentityId) :
    (home.gcMailbox owner).now = home.now := by
  unfold HomeServer.gcMailbox
  split
  · rfl
  · dsimp only
    split_ifs <;> rfl

theorem HomeServer.checkOwner_frame (crypto : Crypto) (home : HomeServer) (owner : IdentityId)
    (auth : MailboxOwnerAuth) (nowUnix : ℕ) (expect : AuthScope) :
    ∃ nonces, (home.checkOwner crypto owner auth nowUnix expect).2 =
      { home with ownerNonces := nonces } := by
  unfold HomeServer.checkOwner
  split
  · exact ⟨_, rfl⟩
  · split_ifs
    · exact ⟨_, rfl⟩
    · exact ⟨_, rfl⟩
    · exact ⟨_, rfl⟩
    · split
      · exact ⟨_, rfl⟩
      · dsimp only
        split_ifs <;> exact ⟨_, rfl⟩

/-- An authorised fetch with a limit in range answers the first live rows behind its cursor. -/
theorem HomeServer.fetch_eq_ok (hbox : home.mailboxes.lookup owner = some box)
    (hbytes : box.bytes ≤ home.limits.mailboxMaxBytes)
    (hchecked : (home.checkOwner crypto owner auth nowUnix
      (AuthScope.body (home.serverId crypto) "POST" "/v1/mailbox/fetch")).1 = .ok ())
    (hpos : 0 < auth.limit.toNat) (hmax : auth.limit.toNat ≤ fetchLimitMax) :
    (home.fetch crypto owner auth nowUnix).1 =
      .ok ((box.liveBehind home.now home.limits.mailboxMaxAgeSecs auth.cursor.toNat).take
        auth.limit.toNat) := by
  obtain ⟨nonces, hframe⟩ := home.checkOwner_frame crypto owner auth nowUnix
    (AuthScope.body (home.serverId crypto) "POST" "/v1/mailbox/fetch")
  have hgc : (HomeServer.gcMailbox { home with ownerNonces := nonces } owner).mailboxes.lookup
      owner = some (box.gc home.now home.limits.mailboxMaxAgeSecs
        home.limits.mailboxMaxBytes).1 := HomeServer.lookup_gcMailbox hbox
  unfold HomeServer.fetch
  dsimp only
  rw [show home.checkOwner crypto owner auth nowUnix
    (AuthScope.body (home.serverId crypto) "POST" "/v1/mailbox/fetch") =
      (.ok (), { home with ownerNonces := nonces }) from Prod.ext hchecked hframe]
  dsimp only
  rw [if_neg (by omega), hgc]
  dsimp only
  rw [HomeServer.now_gcMailbox, Mailbox.filter_gc hbytes]

end Fetch

/-! ## Servers whose envelopes come from the decoder -/

/-- The promise that every appended envelope has come through the decoder. -/
def Promises.decodedOnly : Promises := ⟨fun _ _ _ ↦ True, False, False, True⟩

/-- The servers operations can reach when they append envelopes from the decoder, as `ingest` does
with all that arrives. -/
inductive Served (crypto : Crypto) : HomeServer → Prop
  | fresh (hpke : HpkeKeypair) (sign : Key) (limits : Limits) :
    Served crypto (.withLimits crypto hpke sign limits)
  | restarted (hpke : HpkeKeypair) (sign : Key) (host : Text) (s2sPort : UInt16)
    (ops : List NodeOp)
    (hops : Allowed (NodeOp.apply crypto) NodeOp.Admissible
      (Node.first crypto hpke sign host s2sPort) ops) :
    Served crypto
      { (run (NodeOp.apply crypto) (Node.first crypto hpke sign host s2sPort) ops).home with
        history := {} }
  | step {home : HomeServer} (op : HomeOp) (h : Served crypto home)
    (hop : op.Meets crypto .decodedOnly home) : Served crypto (op.apply crypto home)

/-- Every stored envelope has come through the decoder. -/
def HomeServer.RowsCanonical (home : HomeServer) : Prop :=
  ∀ m box, home.mailboxes.lookup m = some box →
    ∀ seq row, box.rows.lookup seq = some row → row.inner.Canonical

section Served

variable {crypto : Crypto} {promises : Promises} {home home' : HomeServer}

theorem LoudEdit.rowsCanonical (h : LoudEdit crypto promises home home')
    (hdecoded : promises.decoded) (hhome : home.RowsCanonical) : home'.RowsCanonical := by
  intro m box' hbox' seq row hrow
  have hedit := h.boxEdit m
  rw [hbox'] at hedit
  generalize hbefore : home.mailboxes.lookup m = before at hedit
  cases hedit with
  | quiet _ hedit =>
    obtain ⟨box, rfl, hin⟩ := hedit.rows_subset rfl hrow
    exact hhome m box hbefore seq row hin
  | push box inner now maxAge hidem hcanonical =>
    rw [Mailbox.push, FiniteMap.lookup_insert_ite] at hrow
    split_ifs at hrow
    · cases hrow
      exact hcanonical hdecoded
    · exact hhome m box hbefore seq row hrow

theorem Served.rowsCanonical (h : Served crypto home) : home.RowsCanonical := by
  induction h with
  | fresh hpke sign limits => exact fun _ _ h ↦ by cases h
  | restarted hpke sign host s2sPort ops hops =>
    have hnode := Node.Recoverable.run hops
      (Node.recoverable_first crypto hpke sign host s2sPort)
    exact fun m box hbox ↦ (hnode.homeValid.mailbox m box hbox).canonical
  | step op _ hop ih =>
    exact Chain.keeps HomeServer.RowsCanonical
      (fun _ _ hedit hs ↦ LoudEdit.rowsCanonical hedit trivial hs)
      (op.apply_edits crypto .decodedOnly _ hop) ih

theorem Served.reachable (h : Served crypto home) : Reachable crypto home := by
  induction h with
  | fresh hpke sign limits => exact .fresh hpke sign limits
  | restarted hpke sign host s2sPort ops hops => exact .restarted hpke sign host s2sPort ops hops
  | step op _ _ ih => exact .step op ih

end Served

/-! ## When a mailbox can be drained -/

/-- The answer is signed and an array whose first element is the live row of the lowest number
behind the cursor, and the client that reads it goes on from the number of a live row. -/
def Advances (crypto : Crypto) (serverSk nonce : Key) (box : Mailbox) (now maxAge : ℕ)
    (cursor : UInt64) (answer : SignedResponse) : Prop :=
  ∃ first last items inner rows,
    answer.response = .cbor (Cbor.encode (.array items)) ∧
    answer.signature = some (signResponse crypto serverSk nonce answer.response) ∧
    items.head? = some (.map [(0, .uint (UInt64.ofNat first.seq)), (1, .bytes inner)]) ∧
    first.inner.encodePadded = .ok inner ∧
    box.Live now maxAge cursor.toNat first ∧
    (∀ row, box.Live now maxAge cursor.toNat row → first.seq ≤ row.seq) ∧
    Client.readRows answer.response.body = .ok rows ∧
    box.Live now maxAge cursor.toNat last ∧
    Client.cursorAfter cursor rows = UInt64.ofNat last.seq

/-- A body that is too long is not sent. -/
theorem not_advances_of_gt {crypto : Crypto} {serverSk nonce : Key} {box : Mailbox}
    {now maxAge : ℕ} {cursor : UInt64} {body : Bytes} (h : bodyLimit < body.length) :
    ¬ Advances crypto serverSk nonce box now maxAge cursor
      (signAfter crypto serverSk (some nonce) (.cbor body)) := by
  rw [signAfter_of_gt h]
  rintro ⟨_, _, _, _, _, hresponse, -⟩
  cases hresponse

/-- A request whose owner the server authenticates, with a limit it accepts. -/
structure AuthorisedFetch (crypto : Crypto) (home : HomeServer) (clock : UInt64 × UInt64)
    (body : Bytes) (auth : MailboxOwnerAuth) (owner : IdentityId) : Prop where
  decoded : MailboxOwnerAuth.decode body = .ok auth
  hinted : ownerId auth = some owner
  checked : ({ home with now := clock.1.toNat }.checkOwner crypto owner auth clock.2.toNat
    (AuthScope.body (home.serverId crypto) "POST" "/v1/mailbox/fetch")).1 = .ok ()
  limit_pos : 0 < auth.limit.toNat
  limit_le : auth.limit.toNat ≤ fetchLimitMax

section Drain

variable {crypto : Crypto} {home : HomeServer} {clock : UInt64 × UInt64} {body : Bytes}
  {auth : MailboxOwnerAuth} {owner : IdentityId} {box : Mailbox}

/-- The rows an authorised fetch answers. -/
def fetchedRows (home : HomeServer) (clock : UInt64 × UInt64) (auth : MailboxOwnerAuth)
    (box : Mailbox) : List StoredEnvelope :=
  (box.liveBehind clock.1.toNat home.limits.mailboxMaxAgeSecs auth.cursor.toNat).take
    auth.limit.toNat

theorem AuthorisedFetch.mailboxFetch_eq (h : AuthorisedFetch crypto home clock body auth owner)
    (hbox : home.mailboxes.lookup owner = some box)
    (hbytes : box.bytes ≤ home.limits.mailboxMaxBytes) :
    (mailboxFetch crypto clock body home).1 =
      .cbor (Cbor.encode (.array ((fetchedRows home clock auth box).filterMap fetchItem))) := by
  have hfetch : ({ home with now := clock.1.toNat }.fetch crypto owner auth clock.2.toNat).1 =
      .ok (fetchedRows home clock auth box) :=
    HomeServer.fetch_eq_ok hbox hbytes h.checked h.limit_pos h.limit_le
  unfold mailboxFetch
  rw [h.decoded]
  dsimp only
  rw [h.hinted]
  dsimp only
  split
  · rename_i heq
    rw [heq] at hfetch
    cases hfetch
  · rename_i rows _ heq
    rw [heq] at hfetch
    cases hfetch
    rfl

/-- The rows answered begin with the live row of the lowest number, and all of them are live. -/
theorem fetchedRows_eq_cons (hlog : box.LogInv) (hpos : 0 < auth.limit.toNat)
    {row : StoredEnvelope}
    (hrow : box.Live clock.1.toNat home.limits.mailboxMaxAgeSecs auth.cursor.toNat row) :
    ∃ first rest, fetchedRows home clock auth box = first :: rest ∧
      (∀ row, box.Live clock.1.toNat home.limits.mailboxMaxAgeSecs auth.cursor.toNat row →
        first.seq ≤ row.seq) ∧
      ∀ row ∈ first :: rest,
        box.Live clock.1.toNat home.limits.mailboxMaxAgeSecs auth.cursor.toNat row := by
  obtain ⟨n, hn⟩ := Nat.exists_eq_add_of_lt hpos
  unfold fetchedRows
  cases hrows : box.liveBehind clock.1.toNat home.limits.mailboxMaxAgeSecs auth.cursor.toNat with
  | nil =>
    have hmem := hlog.mem_liveBehind.mpr hrow
    rw [hrows] at hmem
    cases hmem
  | cons first rest =>
    refine ⟨first, rest.take n, ?_, fun row ↦ hlog.le_of_liveBehind hrows, fun row hmem ↦ ?_⟩
    · rw [hn, Nat.zero_add, List.take_succ_cons]
    · refine hlog.mem_liveBehind.mp ?_
      rw [hrows]
      rcases List.mem_cons.mp hmem with rfl | hrest
      · exact List.mem_cons_self
      · exact List.mem_cons_of_mem _ (List.mem_of_mem_take hrest)

/-- An authorised fetch behind which there is a live row is answered with the next live rows exactly
when the rows it selects fit into an answer; else it is answered with an error. -/
theorem advances_mailboxFetch_iff (hserved : Served crypto home)
    (h : AuthorisedFetch crypto home clock body auth owner) (serverSk nonce : Key)
    (hbox : home.mailboxes.lookup owner = some box) {row : StoredEnvelope}
    (hrow : box.Live clock.1.toNat home.limits.mailboxMaxAgeSecs auth.cursor.toNat row) :
    Advances crypto serverSk nonce box clock.1.toNat home.limits.mailboxMaxAgeSecs auth.cursor
        (signAfter crypto serverSk (some nonce) (mailboxFetch crypto clock body home).1) ↔
      answerLen (fetchedRows home clock auth box) ≤ bodyLimit := by
  have hkept := hserved.reachable.logsKept
  have hlog := hkept.log owner box hbox
  obtain ⟨first, rest, hrows, hle, hlive⟩ := fetchedRows_eq_cons hlog h.limit_pos hrow
  have hcanonical : ∀ row ∈ first :: rest, row.inner.Canonical := fun row hmem ↦
    hserved.rowsCanonical owner box hbox _ row (hlive row hmem).stored
  obtain ⟨-, hcount, hwf, hread⟩ := items_of_canonical hcanonical
  rw [h.mailboxFetch_eq hbox (hkept.bytes owner box hbox), hrows]
  constructor
  · intro hadvances
    by_contra hlong
    refine not_advances_of_gt ?_ hadvances
    exact (Nat.lt_of_not_le hlong).trans_eq (length_answer hcanonical).symm
  · intro hfits
    rw [signAfter_of_le ((length_answer hcanonical).trans_le hfits)]
    obtain ⟨inner, hitem, hencode, -, -⟩ := fetchItem_of_canonical (hcanonical first List.mem_cons_self)
    have hbounded : (first :: rest).length ≤ fetchLimitMax := by
      rw [← hrows, fetchedRows, List.length_take]
      exact (Nat.min_le_left _ _).trans h.limit_le
    have hsmall : (((first :: rest).filterMap fetchItem)).length < 2 ^ 64 := by
      rw [hcount]
      unfold fetchLimitMax at hbounded
      omega
    refine ⟨first, (first :: rest).getLast (List.cons_ne_nil _ _), _, inner, _, rfl, rfl, ?_,
      hencode, hlive first List.mem_cons_self, hle, Client.readRows_array ⟨hsmall, hwf⟩ hread,
      hlive _ (List.getLast_mem _), ?_⟩
    · rw [List.filterMap_cons_some hitem, List.head?_cons]
    · rw [Client.cursorAfter, List.getLast?_map, List.getLast?_eq_some_getLast (List.cons_ne_nil _ _)]
      rfl

end Drain

/-! ## Two stored envelopes -/

section TwoRows

variable {crypto : Crypto} {home : HomeServer} {owner m : IdentityId} {box : Mailbox}

theorem HomeServer.checkOwner_eq_ok {auth : MailboxOwnerAuth} {nowUnix : ℕ} {expect : AuthScope}
    (hbox : home.mailboxes.lookup owner = some box) (hopen : box.disabled = false)
    (hhint : auth.mailboxHint = owner.data) (hkey : crypto.isVerifyingKey box.ownerPk = true)
    (hverify : auth.verify crypto box.ownerPk nowUnix expect = .ok ())
    (hnonces : home.ownerNonces = ∅) :
    (home.checkOwner crypto owner auth nowUnix expect).1 = .ok () := by
  unfold HomeServer.checkOwner
  rw [hbox]
  dsimp only
  rw [hopen, if_neg (by simp), if_neg (not_not.mpr hhint), hkey, if_neg (by simp), hverify, hnonces]
  rfl

/-- An append through a live contact capability to a mailbox with room for it pushes its row. -/
theorem HomeServer.appendInner_pushes {inner : InnerEnvelope} {padded : Bytes}
    (hlive : home.liveContact inner.deliveryCapability = some m)
    (hallow : 0 < home.allowance inner.deliveryCapability)
    (hunknown : home.Unknown inner.idempotencyToken) (hbox : home.mailboxes.lookup m = some box)
    (hencode : inner.encodePadded = .ok padded)
    (hfresh : ∀ s row, box.rows.lookup s = some row →
      Mailbox.expired home.now home.limits.mailboxMaxAgeSecs row = false)
    (hnow : home.now < u64Max) (hage : 0 < home.limits.mailboxMaxAgeSecs)
    (hroom : box.bytes + padded.length ≤ home.limits.mailboxMaxBytes) :
    ∃ tokens dirty history, (home.appendInner inner).2 =
        { home with
          mailboxes := home.mailboxes.insert m
            (box.push home.now home.limits.mailboxMaxAgeSecs inner padded.length)
          tokens, dirty, history } ∧
      (home.appendInner inner).2.allowance inner.deliveryCapability + 1 =
        home.allowance inner.deliveryCapability := by
  rcases appendInner_of_live hlive hunknown hencode with ⟨hzero, -⟩ | ⟨row, home', heq, -, -, hless⟩
  · omega
  · have hcap : home.capabilityMailbox inner.deliveryCapability = some m := by
      obtain ⟨_, _, _, _, hfind, -, -, -⟩ := liveContact_eq_some.mp hlive
      rw [capabilityMailbox, hfind]
      rfl
    have hpushed : ∀ s row, (box.push home.now home.limits.mailboxMaxAgeSecs inner
        padded.length).rows.lookup s = some row →
          Mailbox.expired home.now home.limits.mailboxMaxAgeSecs row = false := by
      intro s row hrow
      rw [Mailbox.push, FiniteMap.lookup_insert_ite] at hrow
      split_ifs at hrow
      · cases hrow
        exact expired_newRow hnow hage
      · exact hfresh s row hrow
    rcases home.appendInner_cases inner with ⟨_, _, _, h⟩ |
      ⟨m', box', tokens, dirty, hcap', hbox', -, ⟨seq, hseq, h⟩ | ⟨padded', -, hencode', h⟩⟩
    · rw [h] at heq
      cases heq
    · rw [hunknown m' box' hbox'] at hseq
      cases hseq
    · rw [hcap] at hcap'
      cases hcap'
      rw [hbox] at hbox'
      cases hbox'
      rw [hencode] at hencode'
      cases hencode'
      rw [heq] at h ⊢
      rw [Mailbox.gc_eq_self hroom hpushed] at h
      exact ⟨tokens, dirty, _, congrArg Prod.snd h, hless⟩

/-- Two appends through one live capability to a new mailbox push their rows one after the other. -/
theorem HomeServer.appendInner_twice {inner inner' : InnerEnvelope} {padded padded' : Bytes}
    {ownerPk : Key} (hcap : inner'.deliveryCapability = inner.deliveryCapability)
    (hlive : home.liveContact inner.deliveryCapability = some m)
    (hallow : 1 < home.allowance inner.deliveryCapability) (hunknown : ∀ token, home.Unknown token)
    (htoken : inner'.idempotencyToken ≠ inner.idempotencyToken)
    (hbox : home.mailboxes.lookup m = some (.new ownerPk))
    (hencode : inner.encodePadded = .ok padded) (hencode' : inner'.encodePadded = .ok padded')
    (hnow : home.now < u64Max) (hage : 0 < home.limits.mailboxMaxAgeSecs)
    (hroom : padded.length + padded'.length ≤ home.limits.mailboxMaxBytes) :
    ∃ mailboxes tokens dirty history, ((home.appendInner inner).2.appendInner inner').2 =
        { home with mailboxes, tokens, dirty, history } ∧
      mailboxes.lookup m = some (((Mailbox.new ownerPk).push home.now
        home.limits.mailboxMaxAgeSecs inner padded.length).push home.now
          home.limits.mailboxMaxAgeSecs inner' padded'.length) := by
  obtain ⟨tokens, dirty, history, hpush, hless⟩ := appendInner_pushes hlive (by omega)
    (hunknown _) hbox hencode (fun _ _ hrow ↦ by cases hrow) hnow hage
    (by simp only [Mailbox.new]; omega)
  have htakes := (home.appendInner_takes inner (.replicate 32 0)).1
  have hbox₁ : (home.appendInner inner).2.mailboxes.lookup m = some ((Mailbox.new ownerPk).push
      home.now home.limits.mailboxMaxAgeSecs inner padded.length) := by
    rw [hpush]
    exact AList.lookup_insert _
  have hfresh : ∀ s row, ((Mailbox.new ownerPk).push home.now home.limits.mailboxMaxAgeSecs inner
      padded.length).rows.lookup s = some row →
        Mailbox.expired home.now home.limits.mailboxMaxAgeSecs row = false := by
    intro s row hrow
    rw [Mailbox.push, FiniteMap.lookup_insert_ite] at hrow
    split_ifs at hrow
    · cases hrow
      exact expired_newRow hnow hage
    · cases hrow
  have hlive₁ : (home.appendInner inner).2.liveContact inner'.deliveryCapability = some m := by
    rw [hcap, htakes.live, hlive]
  have hallow₁ : 0 < (home.appendInner inner).2.allowance inner'.deliveryCapability := by
    rw [hcap]
    omega
  have hunknown₁ := htakes.unknown inner'.idempotencyToken htoken (hunknown _)
  rw [hpush] at hbox₁ hlive₁ hallow₁ hunknown₁ ⊢
  obtain ⟨tokens', dirty', history', hpush', -⟩ := appendInner_pushes hlive₁ hallow₁ hunknown₁ hbox₁
    hencode' hfresh hnow hage (by simp only [Mailbox.push, Mailbox.new]; omega)
  exact ⟨_, tokens', dirty', history', hpush', AList.lookup_insert _⟩

/-- The live rows of a new mailbox after two appends. -/
theorem HomeServer.liveBehind_push_push {inner inner' : InnerEnvelope} (ownerPk : Key) (n n' : ℕ)
    (hnow : home.now < u64Max) (hage : 0 < home.limits.mailboxMaxAgeSecs) :
    (((Mailbox.new ownerPk).push home.now home.limits.mailboxMaxAgeSecs inner n).push home.now
        home.limits.mailboxMaxAgeSecs inner' n').liveBehind home.now
          home.limits.mailboxMaxAgeSecs 0 =
      [home.newRow (.new ownerPk) inner, home.newRow ((Mailbox.new ownerPk).push home.now
        home.limits.mailboxMaxAgeSecs inner n) inner'] := by
  have hlive (box : Mailbox) (inner : InnerEnvelope) (hpos : 0 < box.nextSeq) :
      (!Mailbox.expired home.now home.limits.mailboxMaxAgeSecs (home.newRow box inner) &&
        decide ((home.newRow box inner).seq > 0)) = true := by
    rw [expired_newRow hnow hage]
    exact decide_eq_true hpos
  have hrows : ((FiniteMap.sortedKeys (((Mailbox.new ownerPk).push home.now
      home.limits.mailboxMaxAgeSecs inner n).push home.now home.limits.mailboxMaxAgeSecs inner'
        n').rows).filterMap (((Mailbox.new ownerPk).push home.now home.limits.mailboxMaxAgeSecs inner
          n).push home.now home.limits.mailboxMaxAgeSecs inner' n').rows.lookup) =
      [home.newRow (.new ownerPk) inner, home.newRow ((Mailbox.new ownerPk).push home.now
        home.limits.mailboxMaxAgeSecs inner n) inner'] := rfl
  rw [Mailbox.liveBehind, hrows, List.filter_cons_of_pos, List.filter_cons_of_pos, List.filter_nil]
  · exact hlive _ inner' (Nat.succ_pos _)
  · exact hlive _ inner Nat.one_pos

end TwoRows

/-- A server with one mailbox, that holds two envelopes. -/
def serverWith (inner inner' : InnerEnvelope) : HomeServer :=
  run (HomeOp.apply .transparent)
    (.withLimits .transparent ⟨.replicate 32 1, .replicate 32 1⟩ (.replicate 32 1) .default)
    [.register (.replicate 32 1) (.replicate 32 1),
      .mintContactCapability (.replicate 32 1) (.replicate 32 2), .appendInner inner,
      .appendInner inner']

/-- The first request of the owner of that mailbox. -/
def firstRequest : MailboxOwnerAuth where
  mailboxHint := (FixedBytes.replicate 32 1).data
  cursor := 0
  limit := Client.fetchLimit
  ts := 1700000000
  scope := .body (.replicate 32 1) "POST" "/v1/mailbox/fetch"
  nonce := .replicate 32 3
  signature := .replicate 64 0

/-- The server before its envelopes come in. -/
theorem serverWith_eq (inner inner' : InnerEnvelope) : ∃ home : HomeServer,
    serverWith inner inner' = ((home.appendInner inner).2.appendInner inner').2 ∧
      home.liveContact (.replicate 32 2) = some (.replicate 32 1) ∧
      home.allowance (.replicate 32 2) = 30 ∧ (∀ token, home.Unknown token) ∧
      home.mailboxes.lookup (.replicate 32 1) = some (.new (.replicate 32 1)) ∧
      home.now = 1700000000 ∧ home.limits = .default ∧ home.ownerNonces = ∅ ∧
      home.hpke = ⟨.replicate 32 1, .replicate 32 1⟩ := by
  refine ⟨run (HomeOp.apply .transparent)
    (.withLimits .transparent ⟨.replicate 32 1, .replicate 32 1⟩ (.replicate 32 1) .default)
    [.register (.replicate 32 1) (.replicate 32 1),
      .mintContactCapability (.replicate 32 1) (.replicate 32 2)], rfl, by decide +kernel,
    by decide +kernel, fun token m box hbox ↦ ?_, rfl, rfl, rfl, rfl, rfl⟩
  have hentries := FiniteMap.lookup_eq_some_iff.mp hbox
  change (⟨m, box⟩ : (_ : IdentityId) × Mailbox) ∈
    [⟨.replicate 32 1, .new (.replicate 32 1)⟩] at hentries
  cases List.mem_singleton.mp hentries
  rfl

theorem serverWith_spec {inner inner' : InnerEnvelope} (h : inner.Canonical)
    (h' : inner'.Canonical) (hcap : inner.deliveryCapability = .replicate 32 2)
    (hcap' : inner'.deliveryCapability = .replicate 32 2)
    (htoken : inner'.idempotencyToken ≠ inner.idempotencyToken) :
    Served .transparent (serverWith inner inner') ∧
      AuthorisedFetch .transparent (serverWith inner inner') (1700000000, 1700000000)
        firstRequest.encode firstRequest (.replicate 32 1) ∧
      ∃ box row row', (serverWith inner inner').mailboxes.lookup (.replicate 32 1) = some box ∧
        box.Live 1700000000 (serverWith inner inner').limits.mailboxMaxAgeSecs 0 row ∧
        row.inner = inner ∧ row'.inner = inner' ∧
        fetchedRows (serverWith inner inner') (1700000000, 1700000000) firstRequest box =
          [row, row'] := by
  obtain ⟨padded, hencode, hlen, hdecode⟩ := InnerEnvelope.decodePadded_encodePadded h
  obtain ⟨padded', hencode', hlen', hdecode'⟩ := InnerEnvelope.decodePadded_encodePadded h'
  have hserved : Served .transparent (serverWith inner inner') := by
    have hfresh : Served .transparent (.withLimits .transparent
        ⟨.replicate 32 1, .replicate 32 1⟩ (.replicate 32 1) .default) := .fresh _ _ _
    refine .step (.appendInner inner') (.step (.appendInner inner) (.step
      (.mintContactCapability _ _) (.step (.register _ _) hfresh trivial) fun _ ↦ trivial) ?_) ?_
    · exact fun _ ↦ ⟨padded, hdecode⟩
    · exact fun _ ↦ ⟨padded', hdecode'⟩
  obtain ⟨home, hserver, hlive, hallow, hunknown, hbox, hnow, hlimits, hnonces, hhpke⟩ :=
    serverWith_eq inner inner'
  have hlate : home.now < u64Max := by
    rw [hnow]
    decide
  have hage : 0 < home.limits.mailboxMaxAgeSecs := by
    rw [hlimits]
    decide
  have hsize := outerLen_le inner
  have hsize' := outerLen_le inner'
  rw [a4Outer] at hsize hsize'
  obtain ⟨mailboxes, tokens, dirty, history, heq, hpushed⟩ := HomeServer.appendInner_twice
    (hcap'.trans hcap.symm) (hcap ▸ hlive) (by rw [hcap, hallow]; decide) hunknown htoken hbox
    hencode hencode' hlate hage (by rw [hlimits, hlen, hlen']; simp only [Limits.default]; omega)
  rw [hserver, heq] at hserved ⊢
  refine ⟨hserved, ⟨MailboxOwnerAuth.decode_encode (by decide) (by decide) (by decide), by
    rw [ownerId, firstRequest, copyFixed_data]; rfl, ?_, by decide, by decide⟩, _,
    home.newRow (.new (.replicate 32 1)) inner, home.newRow ((Mailbox.new (.replicate 32 1)).push
      home.now home.limits.mailboxMaxAgeSecs inner padded.length) inner', hpushed, ?_, rfl, rfl, ?_⟩
  · refine HomeServer.checkOwner_eq_ok hpushed rfl rfl rfl ?_ hnonces
    rw [HomeServer.serverId, hhpke]
    rfl
  · refine ⟨rfl, ?_, Nat.one_pos⟩
    rw [← hnow]
    exact expired_newRow hlate hage
  · have hclock : (1700000000 : UInt64).toNat = home.now := hnow.symm
    have hcursor : firstRequest.cursor.toNat = 0 := rfl
    rw [fetchedRows]
    dsimp only
    rw [hclock, hcursor, HomeServer.liveBehind_push_push _ _ _ hlate hage]
    rfl

/-- Two text messages in a mailbox. -/
def textServer : HomeServer :=
  serverWith (.blank (.replicate 32 2) (.replicate 32 3)) (.blank (.replicate 32 2) (.replicate 32 4))

/-- Two attachments of the largest bucket in a mailbox. -/
def attachmentServer : HomeServer :=
  serverWith (.largest (.replicate 32 2) (.replicate 32 3))
    (.largest (.replicate 32 2) (.replicate 32 4))

/-- The text messages are answered together. -/
theorem advances_mailboxFetch_of_texts :
    ∃ box, textServer.mailboxes.lookup (.replicate 32 1) = some box ∧
      Advances .transparent (.replicate 32 1) (.replicate 32 5) box 1700000000
        textServer.limits.mailboxMaxAgeSecs 0
        (signAfter .transparent (.replicate 32 1) (some (.replicate 32 5))
          (mailboxFetch .transparent (1700000000, 1700000000) firstRequest.encode
            textServer).1) := by
  unfold textServer
  obtain ⟨hserved, hfetch, box, row, row', hbox, hlive, hinner, hinner', hrows⟩ := serverWith_spec
    (InnerEnvelope.canonical_blank (.replicate 32 2) (.replicate 32 3))
    (InnerEnvelope.canonical_blank (.replicate 32 2) (.replicate 32 4)) rfl rfl
    (by decide : FixedBytes.replicate 32 4 ≠ FixedBytes.replicate 32 3)
  refine ⟨box, hbox, (advances_mailboxFetch_iff hserved hfetch (.replicate 32 1) (.replicate 32 5)
    hbox hlive).mpr ?_⟩
  have hlen (capability token : Key) :
      (InnerEnvelope.blank capability token).outerLen = 20480 := rfl
  have hseq := headLen_le (UInt64.ofNat row.seq).toNat
  have hseq' := headLen_le (UInt64.ofNat row'.seq).toNat
  have hhead := headLen_le (0 + 1 + 1)
  have hhead' := headLen_le 20480
  rw [hrows, answerLen, bodyLimit]
  simp only [List.map_cons, List.map_nil, List.sum_cons, List.sum_nil, List.length_cons,
    List.length_nil, StoredEnvelope.fetchedLen, hinner, hinner', hlen]
  omega

/-- The attachments are answered with an error, however often the client asks. -/
theorem not_advances_mailboxFetch :
    Served .transparent attachmentServer ∧
      AuthorisedFetch .transparent attachmentServer (1700000000, 1700000000) firstRequest.encode
        firstRequest (.replicate 32 1) ∧
      ∃ box row, attachmentServer.mailboxes.lookup (.replicate 32 1) = some box ∧
        box.Live 1700000000 attachmentServer.limits.mailboxMaxAgeSecs 0 row ∧
        ¬ Advances .transparent (.replicate 32 1) (.replicate 32 5) box 1700000000
          attachmentServer.limits.mailboxMaxAgeSecs 0
          (signAfter .transparent (.replicate 32 1) (some (.replicate 32 5))
            (mailboxFetch .transparent (1700000000, 1700000000) firstRequest.encode
              attachmentServer).1) := by
  unfold attachmentServer
  obtain ⟨hserved, hfetch, box, row, row', hbox, hlive, hinner, hinner', hrows⟩ := serverWith_spec
    (InnerEnvelope.canonical_largest (.replicate 32 2) (.replicate 32 3))
    (InnerEnvelope.canonical_largest (.replicate 32 2) (.replicate 32 4)) rfl rfl
    (by decide : FixedBytes.replicate 32 4 ≠ FixedBytes.replicate 32 3)
  refine ⟨hserved, hfetch, box, row, hbox, hlive, ?_⟩
  have hcanonical : ∀ stored ∈ [row, row'], stored.inner.Canonical := by
    refine List.forall_mem_cons.mpr ⟨?_, List.forall_mem_singleton.mpr ?_⟩
    · rw [hinner]
      exact InnerEnvelope.canonical_largest _ _
    · rw [hinner']
      exact InnerEnvelope.canonical_largest _ _
  rw [hfetch.mailboxFetch_eq hbox (hserved.reachable.logsKept.bytes _ box hbox), hrows]
  apply not_advances_of_gt
  have hlarge {stored : StoredEnvelope} {capability token : Key}
      (h : stored.inner = .largest capability token) : a4Outer ≤ stored.fetchedLen := by
    rw [StoredEnvelope.fetchedLen, h, InnerEnvelope.outerLen_largest]
    exact Nat.le_add_left _ _
  rw [length_answer hcanonical]
  calc
    bodyLimit < a4Outer + a4Outer := by decide
    _ ≤ row.fetchedLen + row'.fetchedLen := Nat.add_le_add (hlarge hinner) (hlarge hinner')
    _ ≤ answerLen [row, row'] := Nat.le_add_left _ _

end NemoMessenger.Server
