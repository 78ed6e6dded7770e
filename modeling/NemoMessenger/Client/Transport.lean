import NemoMessenger.Client.Session

/-!
# Transports

How the requests of a session travel: an `HttpHome` opens a connection for each of them, straight or
through the SOCKS proxy, and an answer is taken as it is or only with a signature of the server over
a fresh nonce. Whoever is on the network gives the answers.
-/

namespace NemoMessenger.Client

open NemoMessenger.Data NemoMessenger.Wire
open Program (act ofExcept fail)

/-! ## Requests and responses -/

/-- `HttpRequest`. -/
structure HttpRequest where
  method : String
  path : String
  headers : List (String × String)
  body : Bytes
  deriving DecidableEq

/-- `HttpResponse`. -/
structure HttpResponse where
  status : ℕ
  body : Bytes
  headers : List (String × String)
  deriving DecidableEq

/-- `HttpResponse::header`. -/
def HttpResponse.header (res : HttpResponse) (name : String) : Option String :=
  (res.headers.find? fun entry ↦ entry.1.toLower = name.toLower).map (·.2)

/-- `check_status`. -/
def checkStatus (res : HttpResponse) : Except CoreError Unit :=
  match res.status with
  | 200 | 204 => .ok ()
  | 401 | 403 => .error .denied
  | 409 => .error .alreadyRegistered
  | other => .error (.homeHttp other)

/-- `check_body`. -/
def checkBody (res : HttpResponse) : Except CoreError Bytes := do
  checkStatus res
  .ok res.body

/-- `expect_map`. -/
def expectMap (bytes : Bytes) : Except CoreError (List (UInt64 × Cbor.Value)) := do
  match ← liftWire (Cbor.decode bytes) with
  | .map m => .ok m
  | _ => .error (.wire (.cbor "expected map"))

/-- `read_key`. -/
def readKey (m : List (UInt64 × Cbor.Value)) (k : UInt64) : Except CoreError Key :=
  liftWire (Cbor.getFixed 32 m k)

/-! ## Signed responses -/

/-- `RESPONSE_NONCE_HEADER`. -/
def responseNonceHeader : String := "nemo-nonce"

/-- `RESPONSE_SIG_HEADER`. -/
def responseSigHeader : String := "nemo-server-sig"

section
variable (p : Outside)

/-- `response_payload`. -/
def responsePayload (nonce : Key) (status : ℕ) (body : Bytes) : Bytes :=
  Cbor.encode (.map [(0, versionValue), (1, .bytes nonce.data), (2, .uint (UInt64.ofNat status)),
    (3, .bytes (p.crypto.sha256 body).data)])

/-- `verify_response`. -/
def verifyResponse (serverKey nonce : Key) (res : HttpResponse) (signature : Signature) :
    Except WireError Unit :=
  p.crypto.verifyContext serverKey .serverResponse (responsePayload p nonce res.status res.body)
    signature

/-- `verify_signed_response`. -/
def verifySignedResponse (bundle : ServerBundle) (nonce : Key) (res : HttpResponse) :
    Except CoreError Unit :=
  match res.header responseSigHeader with
  | none => .error .unsignedResponse
  | some sigHex =>
    match fromHex (Cbor.textBytes sigHex) >>= copyFixed 64 with
    | .error _ => .error .unsignedResponse
    | .ok signature =>
      if p.crypto.isVerifyingKey bundle.serverSignPublicKey then
        match verifyResponse p bundle.serverSignPublicKey nonce res signature with
        | .error _ => .error .unsignedResponse
        | .ok () => .ok ()
      else .error .unsignedResponse

/-! ## Homes -/

namespace HttpHome

/-- `HttpHome::new`. -/
def new (base : String) : Except CoreError HttpHome := do
  p.formats.checkBase (trimSlashes base)
  .ok { base := trimSlashes base, anonymous := false }

/-- `HttpHome::redirect`. -/
def redirect (home : HttpHome) (origin : String) : Option HttpHome :=
  if trimSlashes origin = "" then none
  else match new p (trimSlashes origin) with
    | .error _ => none
    | .ok alt => some
        { alt with anonymous := home.anonymous && !isLoopbackOrigin (trimSlashes origin) }

/-- Whether `HttpHome::call` goes to the SOCKS proxy. -/
def viaSocks (home : HttpHome) : Bool := home.anonymous && !isLoopbackOrigin home.base

end HttpHome

/-- `HomeSession` and its transport. -/
structure Link where
  transport : HttpHome
  session : HomeSession
  deriving DecidableEq

/-! ## Programs on the network -/

/-- What an operation of a session does beside computing. -/
inductive NetOp : Type → Type
  /-- Bytes of the random generator. -/
  | draw : NetOp Bytes
  /-- `now_ms()`. -/
  | clock : NetOp ℕ
  /-- `HttpHome::call`. -/
  | call (home : HttpHome) (request : HttpRequest) : NetOp (Except CoreError HttpResponse)
  /-- The socket of `HttpHome::wait_wakeup`. -/
  | wakeup (home : HttpHome) (ownerHeader : String) : NetOp (Except CoreError Bytes)
  /-- Change the session. -/
  | put (link : Link) : NetOp Unit

abbrev NetM := Program NetOp CoreError

/-- A connection, whether it went through the proxy, and the session it was opened in. The exchange
is none for a wakeup socket. -/
structure Connection where
  base : String
  socks : Bool
  link : Option Link
  tick : ℕ
  exchange : Option (HttpRequest × Except CoreError HttpResponse)

/-- The session, and the connections so far. -/
structure Net where
  link : Option Link
  log : List Connection
  tick : ℕ

/-- What comes from outside, at each action. -/
structure Tape where
  answer : ℕ → Except CoreError HttpResponse
  frame : ℕ → Except CoreError Bytes
  draw : ℕ → Bytes
  clock : ℕ → ℕ

/-- The answer to an action, and the state it leaves. -/
def NetOp.effect (tape : Tape) : {β : Type} → NetOp β → Net → β × Net
  | _, draw, net => (tape.draw net.tick, net)
  | _, clock, net => (tape.clock net.tick, net)
  | _, call home request, net =>
    (tape.answer net.tick, { net with
      log := net.log ++ [⟨home.base, home.viaSocks, net.link, net.tick,
        some (request, tape.answer net.tick)⟩] })
  | _, wakeup home _, net =>
    (tape.frame net.tick, { net with
      log := net.log ++ [⟨home.base, false, net.link, net.tick, none⟩] })
  | _, put link, net => ((), { net with link := some link })

/-- The network. -/
def network (tape : Tape) : Machine NetOp Net where
  step action net :=
    ((action.effect tape net).1, { (action.effect tape net).2 with tick := net.tick + 1 })

/-! ## Calls -/

/-- Random bytes as a nonce. -/
def drawNonce : NetM Key := do
  let bytes ← act .draw
  pure (keyOf bytes)

/-- `transport.call(req)`. -/
def call (home : HttpHome) (request : HttpRequest) : NetM HttpResponse := do
  ofExcept (← act (.call home request))

/-- The state after a call. -/
def Net.called (net : Net) (tape : Tape) (home : HttpHome) (request : HttpRequest) : Net where
  link := net.link
  log := net.log ++ [⟨home.base, home.viaSocks, net.link, net.tick,
    some (request, tape.answer net.tick)⟩]
  tick := net.tick + 1

@[simp] theorem run_drawNonce (tape : Tape) (net : Net) :
    Program.run (network tape) drawNonce net =
      (.ok (keyOf (tape.draw net.tick)), { net with tick := net.tick + 1 }) := rfl

theorem run_call (tape : Tape) (home : HttpHome) (request : HttpRequest) (net : Net) :
    Program.run (network tape) (call home request) net =
      (tape.answer net.tick, net.called tape home request) := by
  rw [call, Program.run_bind_of_ok (Program.run_act _ _), Program.run_ofExcept]
  rfl

theorem run_call_eq_ok {tape : Tape} {home : HttpHome} {request : HttpRequest} {net net' : Net}
    {res : HttpResponse} :
    Program.run (network tape) (call home request) net = (.ok res, net') ↔
      tape.answer net.tick = .ok res ∧ net' = net.called tape home request := by
  rw [run_call, Prod.mk.injEq, eq_comm (b := net')]

/-- `signed_call`. -/
def signedCall (home : HttpHome) (bundle : ServerBundle) (request : HttpRequest) :
    NetM HttpResponse := do
  let nonce ← drawNonce
  let res ← call home
    { request with headers := request.headers ++ [(responseNonceHeader, toHex nonce.data)] }
  ofExcept (verifySignedResponse p bundle nonce res)
  pure res

/-- `fetch_bundle`. -/
def fetchBundle (home : HttpHome) : NetM ServerBundle := do
  let nonce ← drawNonce
  let res ← call home
    { method := "GET", path := "/v1/bundle",
      headers := [(responseNonceHeader, toHex nonce.data)], body := [] }
  let body ← ofExcept (checkBody res)
  let bundle ← ofExcept (liftWire (ServerBundle.decode body))
  ofExcept (liftWire (bundle.verify p.crypto))
  ofExcept (verifySignedResponse p bundle nonce res)
  pure bundle

namespace Link

variable (self : Link)

/-- `call_on`. -/
def callOn (origin : String) (request : HttpRequest) : NetM HttpResponse :=
  if trimSlashes origin = "" ∨ trimSlashes origin = self.session.homeBase then
    signedCall p self.transport self.session.bundle request
  else match self.transport.redirect p (trimSlashes origin) with
    | some alt => call alt request
    | none => fail (.transport ("no transport for " ++ trimSlashes origin))

/-- `group_origin`. -/
def groupOrigin (groupId : Key) : String :=
  ((self.session.groups.find? fun g ↦ g.groupId = groupId).map (·.hostBase)).getD ""

/-- `call_group`. -/
def callGroup (groupId : Key) (request : HttpRequest) : NetM HttpResponse :=
  match self.transport.redirect p (self.groupOrigin groupId) with
  | some alt => call alt request
  | none => signedCall p self.transport self.session.bundle request

end Link

end

end NemoMessenger.Client
