import NemoMessenger.Client.Inbox
import NemoMessenger.Client.Group
import NemoMessenger.Wire.Envelope

/-!
# The memory of the client

An unregistered client holds an installation, a registered one a session with its home; beside it
stand the live groups, the joins and invites under way, and the conversations. `Inner` collects them.
Its installation, session and groups are changed through the functions here.
-/

namespace NemoMessenger.Client

open NemoMessenger.Data NemoMessenger.Wire

/-- What `mailbox::wrap` seals to the server of the recipient. -/
structure Outgoing where
  destHpke : Key
  deliveryCapability : Key
  ttlBucket : TtlBucket
  type : MessageType
  body : Bytes
  deriving DecidableEq

/-- `HttpHome`. The client and the TLS settings it holds are the same for every home. -/
structure HttpHome where
  base : String
  anonymous : Bool
  deriving DecidableEq

/-- `HomeSession`. The base of its transport is the home base, of which every transport is made;
`anonymous` is the flag of that transport. -/
structure HomeSession extends HomeState where
  install : Installation
  anonymous : Bool
  pendingOuters : List Outgoing
  coverNextMs : ℕ
  lastRealMs : ℕ
  deriving DecidableEq

namespace HomeSession

/-- `transport`. -/
def transport (session : HomeSession) : HttpHome := ⟨session.homeBase, session.anonymous⟩

/-- `snapshot`. -/
def snapshot (session : HomeSession) : HomeState := session.toHomeState

/-- `resume`, on a transport that is new. -/
def resume (install : Installation) (state : HomeState) : HomeSession :=
  { state with install, anonymous := false, pendingOuters := [], coverNextMs := 0, lastRealMs := 0 }

/-- `remember_group`. -/
def rememberGroup (session : HomeSession) (group : HostGroup) : HomeSession :=
  { session with groups := session.groups ++ [group] }

end HomeSession

/-- `ClientState`. -/
inductive ClientState
  | local_ (install : Installation)
  | registered (session : HomeSession)
  deriving DecidableEq

/-- The installation of either state. -/
def ClientState.install : ClientState → Installation
  | local_ install => install
  | registered session => session.install

/-- Replace the installation of either state. -/
def ClientState.mapInstall (f : Installation → Installation) : ClientState → ClientState
  | local_ install => local_ (f install)
  | registered session => registered { session with install := f session.install }

/-- `Inner`. `vault` says whether one is attached. -/
structure Inner where
  state : Option ClientState
  vault : Bool
  revocationMnemonic : Option String
  shell : Shell
  groups : List LiveGroup
  pending : FiniteMap Key PendingEntry
  minted : FiniteMap Key GroupInvite
  deriving DecidableEq

namespace Inner

/-- `empty_inner`. -/
def empty (state : Option ClientState) (vault : Bool) (mnemonic : Option String) : Inner where
  state
  vault
  revocationMnemonic := mnemonic
  shell := .empty
  groups := []
  pending := ∅
  minted := ∅

/-- The session of a registered client. -/
def session? (inner : Inner) : Option HomeSession :=
  match inner.state with
  | some (.registered session) => some session
  | _ => none

/-- `registered`. -/
def registered (inner : Inner) : Except CoreError HomeSession :=
  match inner.state with
  | some (.registered session) => .ok session
  | some (.local_ _) => .error .notRegistered
  | none => .error (.text "busy")

/-- `install`. -/
def install (inner : Inner) : Except CoreError Installation :=
  match inner.state with
  | some state => .ok state.install
  | none => .error (.text "busy")

/-- Change the session of a registered client. -/
def mapSession (inner : Inner) (f : HomeSession → HomeSession) : Inner :=
  match inner.state with
  | some (.registered session) => { inner with state := some (.registered (f session)) }
  | _ => inner

/-- Change the installation. -/
def mapInstall (inner : Inner) (f : Installation → Installation) : Inner :=
  { inner with state := inner.state.map (ClientState.mapInstall f) }

/-- `group_names`. -/
def groupNames (groups : List LiveGroup) : FiniteMap String String :=
  (groups.filter fun g ↦ g.nickname != "").foldl
    (fun names g ↦ names.insert (toHex g.host.groupId.data) g.nickname) ∅

end Inner

end NemoMessenger.Client
