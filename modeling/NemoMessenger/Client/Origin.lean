import NemoMessenger.Client.State

/-!
# Origins of homes

A home is reached at an origin, a scheme and a host. The home of a session is the one at its base;
the origin of any other home follows from the host in the binding of the contact.
-/

namespace NemoMessenger.Client

open NemoMessenger.Wire

/-- `trim_end_matches('/')`. -/
def trimSlashes (base : String) : String :=
  String.ofList (base.toList.reverse.dropWhile (· == '/')).reverse

/-- The characters behind the first `://`. -/
def afterScheme : List Char → Option (List Char)
  | [] => none
  | c :: cs =>
    if "://".toList.isPrefixOf (c :: cs) then some (cs.drop 2) else afterScheme cs

/-- `origin_host`. -/
def originHost (base : String) : String :=
  let rest := (afterScheme base.toList).getD base.toList
  let rest := (trimSlashes (String.ofList rest)).toList
  String.ofList (rest.takeWhile fun c ↦ c != '/' && c != ':')

/-- `is_loopback_origin`. -/
def isLoopbackOrigin (base : String) : Bool :=
  ["localhost", "127.0.0.1", "::1", "[::1]"].contains (originHost base)

/-- What a build reads beside its arguments: whether it is a debug build, and the entry of
`NEMO_HOST_ORIGINS` for a host, which a release build does not look at. -/
structure Build where
  debugAssertions : Bool
  hostOriginOverride : String → Option String

/-- A release build. -/
def Build.release : Build where
  debugAssertions := false
  hostOriginOverride _ := none

/-- `peer_http_origin`. -/
def peerHttpOrigin (build : Build) (peerHost : String) (peerServer ownServer : ServerId)
    (ownBase : String) : String :=
  if peerServer = ownServer then trimSlashes ownBase
  else match build.hostOriginOverride peerHost with
    | some origin => origin
    | none =>
      let host := trimSlashes peerHost
      let loopback := isLoopbackOrigin ("http://" ++ host) || isLoopbackOrigin ("https://" ++ host)
      if "http://".toList.isPrefixOf ownBase.toList && (loopback || build.debugAssertions) then
        "http://" ++ host
      else "https://" ++ host

example : originHost "https://home.example:8443/" = "home.example" := by decide

example : isLoopbackOrigin "http://127.0.0.1:8787" = true := by decide

end NemoMessenger.Client
