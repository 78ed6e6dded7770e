import NemoMessenger.Client.Calm
import NemoMessenger.Client.Pins

/-!
# Where contacts are looked up

A contact is looked up at its origin; an empty origin is the home of the session. What is looked up at
this home must be sealed to its key.
-/

namespace NemoMessenger.Client

open NemoMessenger.Data NemoMessenger.Wire
open Program (Keeps run run_bind act attempt ofExcept forEach fail)

variable {p : Outside} {env : Environment} {w : World} {s : HomeSession} {place : Place}
  {sessionPeer peer id : IdentityId} {capability : Key} {intro : CapabilityIntro} {now : UInt64}
  {c : StoredContact}

/-! ## Contacts of this home -/

namespace Place

/-- The origin is that of the home of the session. -/
def Here (place : Place) (origin : String) : Prop := origin = "" ∨ origin = place.homeBase

/-- A contact that is looked up at this home is sealed to its key. -/
def Hosts (p : Outside) (place : Place) (origin : String) (destHpke : Key) : Prop :=
  place.homeBase ≠ "" → place.Here origin → p.crypto.serverId destHpke = place.bundle.serverId

/-- Every contact is looked up at a home that hosts it. -/
def Located (p : Outside) (place : Place) : Prop :=
  ∀ id c, place.contacts.lookup id = some c → place.Hosts p c.homeOrigin c.destHpke

/-- The binding is to this server, or its origin is another home's. -/
def Routes (p : Outside) (place : Place) (binding : HomeServerBinding) : Prop :=
  binding.serverId = place.bundle.serverId ∨
    ¬place.Here (peerHttpOrigin p.build binding.host.chars binding.serverId place.bundle.serverId
      place.homeBase)

theorem Located.insert (h : place.Located p) (hc : place.Hosts p c.homeOrigin c.destHpke) :
    ({ place with contacts := place.contacts.insert id c } : Place).Located p := by
  intro id' c' hc'
  rw [FiniteMap.lookup_insert_ite] at hc'
  split_ifs at hc'
  · cases hc'
    exact hc
  · exact h id' c' hc'

/-- A binding that routes places the contact. -/
theorem Routes.hosts {binding : HomeServerBinding} (h : place.Routes p binding)
    (hserver : binding.serverId = p.crypto.serverId binding.serverHpkePublicKey) :
    place.Hosts p (peerHttpOrigin p.build binding.host.chars binding.serverId place.bundle.serverId
      place.homeBase) binding.serverHpkePublicKey := by
  intro _ hhere
  rw [← hserver]
  exact h.resolve_right (not_not_intro hhere)

end Place

theorem lookup_moveEntry {V : Type} {m : FiniteMap IdentityId V} {source target id : IdentityId}
    {v : V} (h : (SignalStore.moveEntry m source target).lookup id = some v) :
    ∃ id', m.lookup id' = some v := by
  unfold SignalStore.moveEntry at h
  cases hsource : m.lookup source with
  | none =>
    rw [hsource] at h
    exact ⟨id, h⟩
  | some v' =>
    have herase (hid : (m.erase source).lookup id = some v) : ∃ id', m.lookup id' = some v := by
      rw [FiniteMap.lookup_erase_ite] at hid
      split_ifs at hid
      exact ⟨id, hid⟩
    simp only [hsource] at h
    split_ifs at h
    · exact herase h
    · rw [FiniteMap.lookup_insert_ite] at h
      split_ifs at h
      · exact ⟨source, hsource.trans h⟩
      · exact herase h

/-- A binding that verifies names the server of its key. -/
theorem serverId_of_verify {binding : HomeServerBinding} {crypto : Crypto} {key : Key} {n : ℕ}
    (h : binding.verify crypto key n = .ok ()) :
    binding.serverId = crypto.serverId binding.serverHpkePublicKey := by
  unfold HomeServerBinding.verify at h
  cases hhost : validateHost binding.host with
  | error e => simp [hhost, bind, Except.bind] at h
  | ok _ =>
    by_contra hne
    simp [hhost, bind, Except.bind, hne] at h

theorem Discovery.serverId_of_verify {disc : Discovery} {crypto : Crypto} {n : ℕ}
    (h : disc.verify crypto n = .ok ()) :
    disc.binding.serverId = crypto.serverId disc.binding.serverHpkePublicKey := by
  by_cases hkey : crypto.isVerifyingKey disc.identityPublicKey
  · cases hbinding : disc.binding.verify crypto disc.identityPublicKey n with
    | error e => simp [verify, hkey, hbinding, liftWire, bind, Except.bind] at h
    | ok _ => exact Client.serverId_of_verify hbinding
  · simp [verify, hkey] at h

theorem resolveContact_eq_ok {crypto : Crypto} {card : ContactCard} {disc : Discovery} {n : ℕ}
    {binding : HomeServerBinding} (h : resolveContact crypto card disc n = .ok binding) :
    disc.verify crypto n = .ok () ∧ disc.revocation = none ∧ binding = disc.binding := by
  unfold resolveContact at h
  cases hcard : card.verify crypto n with
  | error e => simp [hcard, liftWire, bind, Except.bind] at h
  | ok _ =>
    cases hverify : disc.verify crypto n with
    | error e => simp [hcard, hverify, liftWire, bind, Except.bind] at h
    | ok _ =>
      simp only [hcard, hverify, liftWire, bind, Except.bind, Discovery.checkNotRevoked] at h
      split_ifs at h with hidentity hrevocation hsome hseq
      exact ⟨rfl, by simpa using hsome, by simpa using h.symm⟩

/-! ## Calls -/

/-- What is answered to a question for the discovery record of an identity at an origin. -/
def asked (p : Outside) (env : Environment) (w : World) (origin : String) (id : IdentityId) :
    Except CoreError Discovery :=
  (run (inside p env) (callOn p origin (.discovery id)) w.ticked).1

/-- The calls that decide where contacts are looked up. -/
inductive HomeCall
  | add (card : ContactCard) (capability : Key) (now : UInt64)
  | introduce (sessionPeer : IdentityId) (capability : Key) (intro : Option CapabilityIntro)
    (now : UInt64)
  | refresh (peer : IdentityId) (now : UInt64)
  | rehome (base : String) (now : UInt64)

namespace HomeCall

/-- The world after a call. -/
def after (p : Outside) (env : Environment) (w : World) : HomeCall → World
  | add card capability now =>
    (run (inside p env) (addContactToSession p card capability now) w).2
  | introduce sessionPeer capability intro now =>
    (run (inside p env) (applyContactCapability p sessionPeer capability intro now) w).2
  | refresh peer now => (run (inside p env) (refreshContact p peer now) w).2
  | rehome base now => (run (device p env) (Client.rehome p base now) w).2

/-- The records and introductions that are followed route, and a home is left only for one that hosts
the contacts that will be looked up there. -/
def Places (p : Outside) (env : Environment) (w : World) : HomeCall → Prop
  | add card _ now => ∀ s, w.inner.session? = some s → ∀ disc binding,
      asked p env w (originForBinding p s card.binding) (card.identityId p.crypto) = .ok disc →
        resolveContact p.crypto card disc now.toNat = .ok binding → s.place.Routes p binding
  | introduce sessionPeer capability (some intro) _ => ∀ s, w.inner.session? = some s →
      s.Introducible p sessionPeer capability intro → ∀ known,
        (s.upgraded sessionPeer intro.identityId).lookup intro.identityId = known →
          known.all (·.pin.identityPublicKey = intro.identityPublicKey) →
            s.place.Hosts p ((known.map (·.homeOrigin)).getD "") intro.destHpke
  | introduce .. => True
  | refresh peer now => ∀ s, w.inner.session? = some s → ∀ c, s.contacts.lookup peer = some c →
      ∀ disc binding pin, discovered p env w s peer = .ok disc →
        c.pin.refresh p.crypto disc now.toNat = .ok (binding, pin) → s.place.Routes p binding
  | rehome base _ => ∀ s, w.inner.session? = some s → ∀ bundle,
      env.answer w.tick (trimSlashes base) .bundle = .ok bundle →
        bundle.serverId ≠ s.bundle.serverId → ∀ id c, s.contacts.lookup id = some c →
          c.homeOrigin ≠ "" ∧ (c.homeOrigin = trimSlashes base →
            p.crypto.serverId c.destHpke = bundle.serverId)

end HomeCall

/-- What a client reaches from the start of a session by such calls. In between anything may happen
that leaves the place of the session alone, and each call has a world outside of its own. -/
inductive Placed (p : Outside) (ok : Environment → World → HomeCall → Prop) : World → Prop
  | start {w : World} {s : HomeSession} (hs : w.inner.session? = some s) (hnew : s.contacts = ∅) :
    Placed p ok w
  | call {w : World} (h : Placed p ok w) (env : Environment) (c : HomeCall) (hok : ok env w c) :
    Placed p ok (c.after p env w)
  | elsewhere {w w' : World} (h : Placed p ok w) (hplace : w'.place = w.place) : Placed p ok w'

/-! ## Every call keeps contacts located -/

/-- Every contact in memory is looked up at a home that hosts it. -/
def World.Located (p : Outside) (w : World) : Prop :=
  ∀ place, w.place = some place → place.Located p

namespace World

theorem place_eq (hs : w.inner.session? = some s) : w.place = some s.place := by
  simp [place, hs]

theorem Located.of_place {w' : World} (h : w.Located p) (hplace : w'.place = w.place) :
    w'.Located p := fun place hw' ↦ h place (hplace ▸ hw')

theorem Located.of_eq {w' : World} (hplace : place.Located p) (hw' : w'.place = some place) :
    w'.Located p := by
  intro place' h
  cases hw'.symm.trans h
  exact hplace

/-- A contact is stored that is looked up where it is hosted. -/
theorem Located.update (h : w.Located p) (hw : w.place = some place) (id : IdentityId)
    (hc : place.Hosts p c.homeOrigin c.destHpke) :
    (run (inside p env) (update (.contact id c)) w).2.Located p := by
  obtain ⟨s, hs, rfl⟩ := Option.map_eq_some_iff.mp hw
  have hlocated : ({ s.place with contacts := s.place.contacts.insert id c } : Place).Located p :=
    (h _ hw).insert hc
  refine .of_eq hlocated ?_
  simp [World.place, hs, SessionUpdate.apply, HomeSession.place]

end World

theorem located_add (card : ContactCard)
    (hok : (HomeCall.add card capability now).Places p env w) (h : w.Located p) :
    ((HomeCall.add card capability now).after p env w).Located p := by
  simp only [HomeCall.after, addContactToSession]
  cases hs : w.inner.session? with
  | none =>
    obtain ⟨e, hrun⟩ := @run_session_bind_of_none p env _ _ hs _
    rw [hrun]
    exact h.of_place rfl
  | some s =>
    have hw : w.place = some s.place := World.place_eq hs
    rw [run_session_bind hs]
    refine Keeps.run_bind (@keeps_place _ _ w.place _ _ (calm_callOn _ _)) rfl
      (fun t ht ↦ h.of_place ht) fun disc t hdisc ht ↦ ?_
    rw [run_ofExcept_bind]
    cases hresolve : resolveContact p.crypto card disc now.toNat with
    | error e => exact h.of_place ht
    | ok binding =>
      have hroutes := hok s hs disc binding (congrArg Prod.fst hdisc) hresolve
      obtain ⟨hverify, -, rfl⟩ := resolveContact_eq_ok hresolve
      dsimp only
      refine Keeps.run_bind (@keeps_place _ _ w.place _ _ (calm_callOn _ _)) ht
        (fun t ht ↦ h.of_place ht) fun prekey t _ ht ↦ ?_
      refine Keeps.run_bind (@keeps_place _ _ w.place _ _ (calm_startSession _ _ _)) ht
        (fun t ht ↦ h.of_place ht) fun _ t _ ht ↦ ?_
      exact (h.of_place ht).update (ht.trans hw) _
        (hroutes.hosts (Discovery.serverId_of_verify hverify))

theorem located_introduce (hok : (HomeCall.introduce sessionPeer capability (some intro) now).Places
      p env w) (h : w.Located p) :
    ((HomeCall.introduce sessionPeer capability (some intro) now).after p env w).Located p := by
  simp only [HomeCall.after]
  cases hs : w.inner.session? with
  | none =>
    obtain ⟨e, hrun⟩ := @run_session_bind_of_none p env _ _ hs _
    rw [applyContactCapability, hrun]
    exact h.of_place rfl
  | some s =>
    have hlocated := h _ (World.place_eq hs)
    by_cases hin : s.Introducible p sessionPeer capability intro
    · obtain ⟨w', hrun, hplace⟩ :=
        @run_applyContactCapability _ env _ _ _ _ _ now hs hin
      have hhosts := hok s hs hin _ rfl
      have hupgraded : ({ s.place with
          contacts := s.upgraded sessionPeer intro.identityId } : Place).Located p := by
        intro id c hc
        dsimp only [HomeSession.upgraded] at hc
        split_ifs at hc
        · exact hlocated id c hc
        · obtain ⟨id', hc'⟩ := lookup_moveEntry hc
          exact hlocated id' c hc'
      rw [hrun]
      refine .of_eq ?_ hplace
      simp only [HomeSession.introduced]
      split_ifs with hmismatch
      · exact hupgraded
      · refine hupgraded.insert (hhosts ?_)
        cases hknown : (s.upgraded sessionPeer intro.identityId).lookup intro.identityId <;>
          simp_all
    · obtain ⟨e, w', hrun, hplace⟩ :=
        @run_applyContactCapability_of_not _ env _ _ _ _ _ now hs hin
      rw [hrun]
      exact .of_eq hlocated hplace

theorem located_capability (h : w.Located p) :
    ((HomeCall.introduce sessionPeer capability none now).after p env w).Located p := by
  simp only [HomeCall.after]
  cases hs : w.inner.session? with
  | none =>
    obtain ⟨e, hrun⟩ := @run_session_bind_of_none p env _ _ hs _
    rw [applyContactCapability, hrun]
    exact h.of_place rfl
  | some s =>
    have hlocated := h _ (World.place_eq hs)
    refine .of_eq ?_ (run_applyContactCapability_none hs)
    cases hc : s.contacts.lookup sessionPeer with
    | none => exact hlocated
    | some c => exact hlocated.insert (hlocated sessionPeer c hc)

theorem located_refresh (hok : (HomeCall.refresh peer now).Places p env w) (h : w.Located p) :
    ((HomeCall.refresh peer now).after p env w).Located p := by
  simp only [HomeCall.after]
  cases hs : w.inner.session? with
  | none =>
    obtain ⟨e, hrun⟩ := @run_session_bind_of_none p env _ _ hs _
    rw [refreshContact, hrun]
    exact h.of_place rfl
  | some s =>
    cases hc : s.contacts.lookup peer with
    | none =>
      obtain ⟨e, w', hrun, hinner⟩ :=
        @run_refreshContact_of_unknown p env _ _ _ now hs hc
      rw [hrun]
      exact h.of_place (by rw [World.place, hinner]; rfl)
    | some c =>
      obtain ⟨-, hinner⟩ := @run_refreshContact p env _ _ _ _ now hs hc
      have hlocated := h _ (World.place_eq hs)
      have hplace : ∀ c', (run (inside p env) (refreshContact p peer now) w).2.inner =
          w.inner.withContact peer (some c') →
          (run (inside p env) (refreshContact p peer now) w).2.place =
            some { s.place with contacts := s.contacts.insert peer c' } := by
        intro c' h
        simp [World.place, h, Inner.withContact, hs, SessionUpdate.apply, HomeSession.place]
      rcases c.onDiscovery_cases (p := p) (s := s) (discovered p env w s peer) with
        ⟨e, h'⟩ | h' | ⟨disc, hdisc, hverify, -, -, hrefresh, h'⟩
      · rw [h'] at hinner
        exact h.of_place (by rw [World.place, hinner]; rfl)
      · rw [h'] at hinner
        refine .of_eq (hlocated.insert (c := { c with revoked := true }) ?_) (hplace _ hinner)
        exact hlocated peer c hc
      · rw [h'] at hinner
        refine .of_eq (hlocated.insert ?_) (hplace _ hinner)
        exact (hok s hs c hc disc _ _ hdisc hrefresh).hosts (Discovery.serverId_of_verify hverify)

/-- The contacts at a new home. -/
theorem HomeCall.Places.located {base : String} {bundle : ServerBundle}
    (hok : (HomeCall.rehome base now).Places p env w) (hplace : w.place = some place)
    (hanswer : env.answer w.tick (trimSlashes base) .bundle = .ok bundle)
    (hne : bundle.serverId ≠ place.bundle.serverId) :
    (⟨place.contacts, bundle, trimSlashes base⟩ : Place).Located p := by
  obtain ⟨s, hs, rfl⟩ := Option.map_eq_some_iff.mp hplace
  intro id c hc _ hhere
  obtain ⟨hempty, hhosted⟩ := hok s hs bundle hanswer hne id c hc
  exact hhosted (hhere.resolve_left hempty)

theorem located_rehome (base : String) (hok : (HomeCall.rehome base now).Places p env w)
    (h : w.Located p) : ((HomeCall.rehome base now).after p env w).Located p := by
  simp only [HomeCall.after, rehome]
  refine Keeps.run_bind (@keeps_place_device _ _ w.place _ _ (calm_send _ _)) rfl
    (fun t ht ↦ h.of_place ht) fun bundle w₁ hbundle hw₁ ↦ ?_
  refine Keeps.run_bind (@keeps_place_device _ _ w.place _ _ calm_session) hw₁
    (fun t ht ↦ h.of_place ht) fun s t hsession ht ↦ ?_
  have hanswer : env.answer w.tick (trimSlashes base) .bundle = .ok bundle := by
    rw [run_inside, run_send] at hbundle
    exact congrArg Prod.fst hbundle
  have hplace : w.place = some s.place := by
    rw [run_inside, run_session] at hsession
    rw [← hw₁]
    exact World.place_eq (Inner.registered_eq_ok.mp (congrArg Prod.fst hsession))
  split_ifs with hsame
  · exact h.of_place ht
  have hlocated := hok.located hplace hanswer hsame
  refine Keeps.run_bind (@keeps_place_device _ _ w.place _ _ (calm_mintCard _ _)) ht
    (fun t ht ↦ h.of_place ht) fun card t _ ht ↦ ?_
  refine Keeps.run_bind (@keeps_place_device _ _ w.place _ _ (calm_send _ _)) ht
    (fun t ht ↦ h.of_place ht) fun _ t _ ht ↦ ?_
  have hmoved : (run (device p env) (act (.move bundle base) : ClientM Unit) t).2.place =
      some ⟨s.place.contacts, bundle, trimSlashes base⟩ := by
    obtain ⟨s', hs', hs'place⟩ := Option.map_eq_some_iff.mp (ht.trans hplace)
    rw [← hs'place]
    simp [device, Act.effect, World.place, hs', HomeSession.place, HomeSession.moveTo]
  have hkept {α : Type} {q : SessionM α} (hq : Calm q) :=
    @keeps_place_device p env (some ⟨s.place.contacts, bundle, trimSlashes base⟩) _ _ hq
  rw [Program.run_bind_of_ok (Program.run_act _ _)]
  refine Keeps.run_bind (hkept (calm_restockPublishUpto _)) hmoved
    (fun t ht ↦ .of_eq hlocated ht) fun _ t _ ht ↦ ?_
  refine Keeps.run_bind (hkept (calm_moveFanouts _)) ht
    (fun t ht ↦ .of_eq hlocated ht) fun _ t _ ht ↦ ?_
  refine Keeps.run_bind (hkept (calm_send _ _).attempt) ht
    (fun t ht ↦ .of_eq hlocated ht) fun _ t _ ht ↦ ?_
  exact .of_eq hlocated ht

/-- Over calls that place contacts, a contact that is looked up at this home, which an empty origin
stands for, is sealed to its key. -/
theorem looked_up_where_hosted (h : Placed p (HomeCall.Places p) w) (hs : w.inner.session? = some s)
    (hbase : s.homeBase ≠ "") (hc : s.contacts.lookup id = some c)
    (horigin : c.homeOrigin = "" ∨ c.homeOrigin = s.homeBase) :
    p.crypto.serverId c.destHpke = s.bundle.serverId := by
  have hlocated : w.Located p := by
    clear hs hbase hc horigin
    induction h with
    | start hs hnew =>
      refine .of_eq ?_ (World.place_eq hs)
      intro id c hc
      simp [HomeSession.place, hnew] at hc
    | call h env call hok ih =>
      cases call with
      | add card capability now => exact located_add card hok ih
      | introduce sessionPeer capability intro now =>
        cases intro with
        | some intro => exact located_introduce hok ih
        | none => exact located_capability ih
      | refresh peer now => exact located_refresh hok ih
      | rehome base now => exact located_rehome base hok ih
    | elsewhere h hplace ih => exact ih.of_place hplace
  exact hlocated _ (World.place_eq hs) id c hc hbase horigin

/-- The client of `World.acquainted` without its contact, but with the Double Ratchet session. -/
def World.unacquainted : World where
  inner := Inner.empty (some (.registered { HomeSession.acquainted with contacts := ∅ })) true none
  taken := false
  vault := World.acquainted.vault
  log := []
  bonds := []
  tick := 0

/-- The peer introduces itself, at the server of a key. -/
def HomeCall.introduced (destHpke : Key) : HomeCall :=
  .introduce (.replicate 32 1) (.replicate 32 1) (some (.again 1 destHpke)) 0

/-- A property of the session and of a contact, in the memory of a client. -/
def World.finds (w : World) (id : IdentityId) (f : HomeSession → StoredContact → Bool) : Bool :=
  w.inner.session?.any fun s ↦ (s.contacts.lookup id).any (f s)

theorem World.exists_of_finds {f : HomeSession → StoredContact → Bool} (h : w.finds id f = true) :
    ∃ s c, w.inner.session? = some s ∧ s.contacts.lookup id = some c ∧ f s c = true := by
  obtain ⟨s, hs, h⟩ := (Option.any_eq_true _ _).mp h
  obtain ⟨c, hc, h⟩ := (Option.any_eq_true _ _).mp h
  exact ⟨s, c, hs, hc, h⟩

theorem introduced_places :
    (HomeCall.introduced (.replicate 32 0)).Places .transparent .silent .unacquainted := by
  intro s hs _ known hknown _ _ _
  cases hs
  decide +kernel

set_option maxRecDepth 100000 in
theorem introduced_here :
    ((HomeCall.introduced (.replicate 32 0)).after .transparent .silent .unacquainted).finds
      (.replicate 32 1) (fun s c ↦ s.homeBase ≠ "" && c.homeOrigin = "") = true := by
  decide +kernel

/-- A peer that introduces itself at this server is looked up here. -/
theorem looked_up_where_hosted_introduced :
    ∃ s c, ((HomeCall.introduced (.replicate 32 0)).after .transparent .silent
        .unacquainted).inner.session? = some s ∧
      s.contacts.lookup (.replicate 32 1) = some c ∧ c.homeOrigin = "" ∧
      Crypto.transparent.serverId c.destHpke = s.bundle.serverId := by
  obtain ⟨s, c, hs, hc, hfound⟩ := World.exists_of_finds introduced_here
  obtain ⟨hbase, horigin⟩ : s.homeBase ≠ "" ∧ c.homeOrigin = "" := by simpa using hfound
  refine ⟨s, c, hs, hc, horigin, ?_⟩
  exact looked_up_where_hosted (p := .transparent)
    (.call (.start (w := .unacquainted) rfl rfl) .silent _ introduced_places) hs hbase hc
    (.inl horigin)

set_option maxRecDepth 100000 in
theorem introduced_elsewhere :
    ((HomeCall.introduced (.replicate 32 3)).after .transparent .silent .unacquainted).finds
      (.replicate 32 1) (fun s c ↦ s.homeBase ≠ "" && c.homeOrigin = "" &&
        Crypto.transparent.serverId c.destHpke ≠ s.bundle.serverId) = true := by
  decide +kernel

/-- A peer at another server that introduces itself is looked up at this home. -/
theorem HomeCall.introduced_misplaced :
    ∃ w, Placed .transparent (fun _ _ _ ↦ True) w ∧ ∃ s c, w.inner.session? = some s ∧
      s.homeBase ≠ "" ∧ s.contacts.lookup (.replicate 32 1) = some c ∧ c.homeOrigin = "" ∧
      Crypto.transparent.serverId c.destHpke ≠ s.bundle.serverId := by
  obtain ⟨s, c, hs, hc, hfound⟩ := World.exists_of_finds introduced_elsewhere
  obtain ⟨⟨hbase, horigin⟩, hserver⟩ : (s.homeBase ≠ "" ∧ c.homeOrigin = "") ∧
      Crypto.transparent.serverId c.destHpke ≠ s.bundle.serverId := by
    simpa using hfound
  exact ⟨_, .call (.start (w := .unacquainted) rfl rfl) .silent _ trivial, s, c, hs, hbase, hc,
    horigin, hserver⟩

end NemoMessenger.Client
