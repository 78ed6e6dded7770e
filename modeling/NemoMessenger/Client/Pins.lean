import NemoMessenger.Client.Revocation

/-!
# Pins over time

Introductions inside a session and the discovery records of homes both change what is stored of a
contact. A refresh follows the numbers of the bindings; an introduction writes the whole contact.
-/

namespace NemoMessenger.Client

open NemoMessenger.Data NemoMessenger.Wire
open Program (run run_bind act attempt ofExcept forEach fail)

variable {p : Outside} {env : Environment} {w : World} {s : HomeSession}
  {sessionPeer peer : IdentityId} {capability : Key} {intro : CapabilityIntro} {now : UInt64}

/-! ## Introductions -/

/-- The contact an introduction stores, beside the one that is known. -/
def CapabilityIntro.contact (intro : CapabilityIntro) (known : Option StoredContact)
    (capability : Key) (now : UInt64) : StoredContact where
  pin :=
    { identityId := intro.identityId
      identityPublicKey := intro.identityPublicKey
      revocationPublicKey :=
        (known.map (·.pin.revocationPublicKey)).getD intro.revocationPublicKey
      seq := (known.map fun c ↦ max c.pin.seq intro.bindingSeq).getD intro.bindingSeq }
  deliveryCapability := capability
  destHpke := intro.destHpke
  lastDiscoveryUnix := now
  revoked := false
  homeOrigin := (known.map (·.homeOrigin)).getD ""

namespace HomeSession

/-- No other session stands for the identity behind a provisional peer. -/
def Unclaimed (s : HomeSession) (sessionPeer : IdentityId) (intro : CapabilityIntro) : Prop :=
  sessionPeer = intro.identityId ∨
    (s.install.store.known.lookup intro.identityId).all (· = intro.sessionKey)

/-- An introduction that is signed for this session, by an identity no other session stands for. -/
def Introducible (p : Outside) (s : HomeSession) (sessionPeer : IdentityId) (capability : Key)
    (intro : CapabilityIntro) : Prop :=
  verifyCapabilityIntro p s.install sessionPeer capability intro = .ok () ∧
    s.Unclaimed sessionPeer intro

/-- The contacts with the one of a provisional peer under the identity behind it. -/
def upgraded (s : HomeSession) (sessionPeer real : IdentityId) :
    FiniteMap IdentityId StoredContact :=
  if sessionPeer = real then s.contacts else SignalStore.moveEntry s.contacts sessionPeer real

/-- What an introduction answers, and the contacts it leaves, once it is found introducible. -/
def introduced (s : HomeSession) (sessionPeer : IdentityId) (capability : Key)
    (intro : CapabilityIntro) (now : UInt64) :
    Except CoreError IdentityId × FiniteMap IdentityId StoredContact :=
  let contacts := s.upgraded sessionPeer intro.identityId
  let known := contacts.lookup intro.identityId
  if known.any (·.pin.identityPublicKey ≠ intro.identityPublicKey) then
    (.error .identityMismatch, contacts)
  else (.ok intro.identityId,
    contacts.insert intro.identityId (intro.contact known capability now))

end HomeSession

theorem World.contact_eq (w : World) (id : IdentityId) :
    w.contact id = w.contacts.bind fun contacts ↦ contacts.lookup id := by
  unfold World.contact World.contacts
  cases w.inner.session? <;> rfl

/-- The upgrade of a provisional peer. -/
theorem run_upgradePeer (hs : w.inner.session? = some s) (h : s.Unclaimed sessionPeer intro) :
    ∃ w', run (inside p env) (upgradePeer sessionPeer intro) w = (.ok (), w') ∧
      w'.place = some { s.place with contacts := s.upgraded sessionPeer intro.identityId } := by
  unfold upgradePeer HomeSession.upgraded SignalStore.moveEntry World.place HomeSession.place
  rw [run_session_bind hs]
  by_cases hsame : sessionPeer = intro.identityId
  · exact ⟨w.ticked, by simp [hsame], by simp [hsame, hs]⟩
  · have hknown : ¬(s.install.store.known.lookup intro.identityId).any (· ≠ intro.sessionKey) := by
      have hall := h.resolve_left hsame
      cases hlookup : s.install.store.known.lookup intro.identityId <;> simp_all
    have hreal : (s.contacts.erase sessionPeer).lookup intro.identityId =
        s.contacts.lookup intro.identityId := AList.lookup_erase_ne (Ne.symm hsame)
    simp only [if_neg hsame, if_neg hknown]
    rw [run_bind, run_ratchet (w := w.ticked) hs, hreal]
    cases hprev : s.contacts.lookup sessionPeer with
    | none => exact ⟨_, rfl, by simp [hs]⟩
    | some prev =>
      dsimp only
      rw [run_update_bind]
      split_ifs
      · exact ⟨_, rfl, by simp [hs, SessionUpdate.apply]⟩
      · rw [run_update]
        exact ⟨_, rfl, by simp [hs, SessionUpdate.apply]⟩

/-- A session that stands for an identity keeps it. -/
theorem run_upgradePeer_of_claimed (hs : w.inner.session? = some s)
    (h : ¬s.Unclaimed sessionPeer intro) :
    ∃ w', run (inside p env) (upgradePeer sessionPeer intro) w = (.error .identityMismatch, w') ∧
      w'.inner = w.inner := by
  have ⟨hsame, hall⟩ := not_or.mp h
  have hknown : (s.install.store.known.lookup intro.identityId).any (· ≠ intro.sessionKey) := by
    cases hlookup : s.install.store.known.lookup intro.identityId <;> simp_all
  unfold upgradePeer
  rw [run_session_bind hs]
  simp only [if_neg hsame, if_pos hknown]
  exact ⟨w.ticked, rfl, rfl⟩

/-- An introducible introduction does what `introduced` says. -/
theorem run_applyContactCapability (hs : w.inner.session? = some s)
    (h : s.Introducible p sessionPeer capability intro) :
    ∃ w', run (inside p env) (applyContactCapability p sessionPeer capability (some intro) now) w =
        ((s.introduced sessionPeer capability intro now).1, w') ∧
      w'.place =
        some { s.place with contacts := (s.introduced sessionPeer capability intro now).2 } := by
  obtain ⟨w', hrun, hplace⟩ := @run_upgradePeer p env w.ticked _ _ _ hs h.2
  obtain ⟨s', hs', hs'place⟩ := Option.map_eq_some_iff.mp hplace
  have hs'contacts := congrArg Place.contacts hs'place
  have hplaced (contacts : FiniteMap IdentityId StoredContact) :
      ({ s'.place with contacts } : Place) = { s.place with contacts } := by
    rw [hs'place]
  dsimp only [HomeSession.place] at hs'contacts
  unfold applyContactCapability
  rw [run_session_bind hs]
  dsimp only
  rw [run_ofExcept_bind, h.1]
  dsimp only
  rw [run_bind, hrun]
  dsimp only
  rw [run_session_bind hs', hs'contacts]
  simp only [HomeSession.introduced]
  split_ifs
  · exact ⟨_, rfl, hplace⟩
  · rw [run_update_bind]
    refine ⟨_, rfl, ?_⟩
    rw [← hplaced]
    simp [World.place, HomeSession.place, hs', hs'contacts, SessionUpdate.apply,
      CapabilityIntro.contact]

/-- An introduction that is not introducible changes no contact. -/
theorem run_applyContactCapability_of_not (hs : w.inner.session? = some s)
    (h : ¬s.Introducible p sessionPeer capability intro) :
    ∃ e w', run (inside p env)
        (applyContactCapability p sessionPeer capability (some intro) now) w = (.error e, w') ∧
      w'.place = some s.place := by
  unfold applyContactCapability
  rw [run_session_bind hs]
  dsimp only
  rw [run_ofExcept_bind]
  cases hverify : verifyCapabilityIntro p s.install sessionPeer capability intro with
  | error e => exact ⟨e, _, rfl, by simp [World.place, hs]⟩
  | ok _ =>
    have hclaimed : ¬s.Unclaimed sessionPeer intro := fun hunclaimed ↦ h ⟨hverify, hunclaimed⟩
    obtain ⟨w', hrun, hinner⟩ :=
      @run_upgradePeer_of_claimed p env w.ticked _ _ _ hs hclaimed
    dsimp only
    rw [run_bind, hrun]
    exact ⟨_, w', rfl, by simp [World.place, hinner, hs]⟩

/-- Without an introduction only the delivery capability changes. -/
theorem run_applyContactCapability_none (hs : w.inner.session? = some s) :
    (run (inside p env) (applyContactCapability p sessionPeer capability none now) w).2.place =
      some { s.place with
        contacts := (s.contacts.lookup sessionPeer).elim s.contacts fun c ↦
          s.contacts.insert sessionPeer { c with deliveryCapability := capability } } := by
  unfold applyContactCapability
  rw [run_session_bind hs]
  cases hc : s.contacts.lookup sessionPeer with
  | none => simp [World.place, HomeSession.place, hs]
  | some c =>
    dsimp only
    rw [run_update_bind]
    simp [World.place, HomeSession.place, hs, SessionUpdate.apply]

/-! ## Contacts that move forward -/

/-- A binding that was accepted for a contact. -/
structure Accepted where
  contact : IdentityId
  seq : UInt64
  destHpke : Key
  deriving DecidableEq

namespace StoredContact

variable {c c' c'' : StoredContact} {id : IdentityId} {accepted later : List Accepted}

/-- The contact has the number of the newest accepted binding, and the key of one with that
number. -/
structure Newest (c : StoredContact) (id : IdentityId) (accepted : List Accepted) : Prop where
  mem : ⟨id, c.pin.seq, c.destHpke⟩ ∈ accepted
  le : ∀ a ∈ accepted, a.contact = id → a.seq ≤ c.pin.seq

/-- The contact later on. -/
structure Forward (c c' : StoredContact) : Prop where
  revoked : c.revoked = true → c'.revoked = true
  seq : c.pin.seq ≤ c'.pin.seq
  identity : c'.pin.identityPublicKey = c.pin.identityPublicKey
  revocation : c'.pin.revocationPublicKey = c.pin.revocationPublicKey

theorem Forward.refl (c : StoredContact) : c.Forward c := ⟨id, UInt64.le_refl _, rfl, rfl⟩

theorem Forward.trans (h : c.Forward c') (h' : c'.Forward c'') : c.Forward c'' where
  revoked := h'.revoked ∘ h.revoked
  seq := UInt64.le_trans h.seq h'.seq
  identity := h'.identity.trans h.identity
  revocation := h'.revocation.trans h.revocation

/-- Bindings of other contacts do not count. -/
theorem Newest.append (h : c.Newest id accepted) (hother : ∀ a ∈ later, a.contact ≠ id) :
    c.Newest id (accepted ++ later) where
  mem := List.mem_append_left _ h.mem
  le a ha hid := (List.mem_append.mp ha).elim (fun ha ↦ h.le a ha hid)
    fun ha ↦ absurd hid (hother a ha)

/-- The next binding either leaves number and key, or has a number that is not lower. -/
theorem Newest.next (h : c.Newest id accepted) (hle : c.pin.seq ≤ c'.pin.seq)
    {a : Accepted} (ha : a.contact = id → a.seq ≤ c'.pin.seq)
    (hmem : (c'.pin.seq = c.pin.seq ∧ c'.destHpke = c.destHpke) ∨
      a = ⟨id, c'.pin.seq, c'.destHpke⟩) :
    c'.Newest id (accepted ++ [a]) where
  mem := by
    rcases hmem with ⟨hseq, hkey⟩ | hnew
    · exact List.mem_append_left _ (hseq ▸ hkey ▸ h.mem)
    · exact List.mem_append_right _ (hnew ▸ List.mem_singleton_self _)
  le b hb hid := (List.mem_append.mp hb).elim (fun hb ↦ UInt64.le_trans (h.le b hb hid) hle)
    fun hb ↦ List.mem_singleton.mp hb ▸ ha (List.mem_singleton.mp hb ▸ hid)

end StoredContact

/-- Every contact stays and moves forward, and what was accepted in between leaves it the newest. -/
def World.Moves (w : World) (accepted : List Accepted) (w' : World) : Prop :=
  ∀ id c, w.contact id = some c → ∃ c', w'.contact id = some c' ∧ c.Forward c' ∧
    ∀ before, c.Newest id before → c'.Newest id (before ++ accepted)

namespace World

variable {w' w'' : World} {accepted later : List Accepted}

theorem Moves.of_contacts (h : w'.contacts = w.contacts) : w.Moves [] w' := by
  intro id c hc
  refine ⟨c, ?_, .refl c, fun before hbefore ↦ by simpa using hbefore⟩
  rw [World.contact_eq, h, ← World.contact_eq, hc]

theorem Moves.trans (h : w.Moves accepted w') (h' : w'.Moves later w'') :
    w.Moves (accepted ++ later) w'' := by
  intro id c hc
  obtain ⟨c', hc', hforward, hnewest⟩ := h id c hc
  obtain ⟨c'', hc'', hforward', hnewest'⟩ := h' id c' hc'
  refine ⟨c'', hc'', hforward.trans hforward', fun before hbefore ↦ ?_⟩
  rw [← List.append_assoc]
  exact hnewest' _ (hnewest before hbefore)

/-- One contact changes. -/
theorem Moves.insert {contacts : FiniteMap IdentityId StoredContact} {c' : StoredContact}
    {a : Accepted} (hw : w.contacts = some contacts)
    (hw' : w'.contacts = some (contacts.insert peer c')) (ha : a.contact = peer)
    (hmoves : ∀ c, contacts.lookup peer = some c → c.Forward c' ∧ a.seq ≤ c'.pin.seq ∧
      ((c'.pin.seq = c.pin.seq ∧ c'.destHpke = c.destHpke) ∨
        a = ⟨peer, c'.pin.seq, c'.destHpke⟩)) :
    w.Moves [a] w' := by
  intro id c hc
  rw [World.contact_eq, hw, Option.bind_some] at hc
  rw [World.contact_eq, hw', Option.bind_some, FiniteMap.lookup_insert_ite]
  by_cases hid : id = peer
  · subst hid
    obtain ⟨hforward, hle, hmem⟩ := hmoves c hc
    rw [if_pos rfl]
    exact ⟨c', rfl, hforward, fun before hbefore ↦
      hbefore.next hforward.seq (fun _ ↦ hle) hmem⟩
  · rw [if_neg hid]
    refine ⟨c, hc, .refl c, fun before hbefore ↦ hbefore.append ?_⟩
    intro b hb
    rw [List.mem_singleton.mp hb, ha]
    exact Ne.symm hid

/-- A contact changes that keeps its number and its key. -/
theorem Moves.edit {contacts : FiniteMap IdentityId StoredContact} {c c' : StoredContact}
    (hw : w.contacts = some contacts) (hw' : w'.contacts = some (contacts.insert peer c'))
    (hc : contacts.lookup peer = some c) (hforward : c.Forward c')
    (hseq : c'.pin.seq = c.pin.seq) (hkey : c'.destHpke = c.destHpke) : w.Moves [] w' := by
  intro id c₀ hc₀
  rw [World.contact_eq, hw, Option.bind_some] at hc₀
  rw [World.contact_eq, hw', Option.bind_some, FiniteMap.lookup_insert_ite]
  by_cases hid : id = peer
  · subst hid
    cases hc.symm.trans hc₀
    rw [if_pos rfl]
    refine ⟨c', rfl, hforward, fun before hbefore ↦ ?_⟩
    rw [List.append_nil]
    exact ⟨hseq ▸ hkey ▸ hbefore.mem, hseq ▸ hbefore.le⟩
  · rw [if_neg hid]
    exact ⟨c₀, hc₀, .refl c₀, fun before hbefore ↦ by rwa [List.append_nil]⟩

end World

/-! ## Updates of pins -/

/-- The calls that update pins. -/
inductive PinCall
  | introduce (sessionPeer : IdentityId) (capability : Key) (intro : Option CapabilityIntro)
    (now : UInt64)
  | refresh (peer : IdentityId) (now : UInt64)
  | idle (ids : List IdentityId) (now : UInt64)

/-- What a refresh accepts. -/
def refreshAccepts (p : Outside) (env : Environment) (w : World) (peer : IdentityId)
    (now : UInt64) : List Accepted :=
  match (run (inside p env) (refreshContact p peer now) w).1,
      w.inner.session?.map fun s ↦ discovered p env w s peer with
  | .ok (), some (.ok disc) => [⟨peer, disc.binding.seq, disc.binding.serverHpkePublicKey⟩]
  | _, _ => []

/-- What an idle refresh accepts, contact by contact. -/
def idleAccepts (p : Outside) (env : Environment) (now : UInt64) :
    List IdentityId → World → List Accepted
  | [], _ => []
  | id :: ids, w =>
    match w.inner.session? with
    | none => []
    | some s =>
      match s.contacts.lookup id with
      | none => idleAccepts p env now ids w.ticked
      | some c =>
        if id = s.install.identityId p ∨ c.revoked ∨ !isStale c.lastDiscoveryUnix now then
          idleAccepts p env now ids w.ticked
        else
          refreshAccepts p env w.ticked id now ++
            idleAccepts p env now ids (run (inside p env) (refreshContact p id now) w.ticked).2

namespace PinCall

/-- The world after a call. -/
def after (p : Outside) (env : Environment) (w : World) : PinCall → World
  | introduce sessionPeer capability intro now =>
    (run (inside p env) (applyContactCapability p sessionPeer capability intro now) w).2
  | refresh peer now => (run (inside p env) (refreshContact p peer now) w).2
  | idle ids now => (run (inside p env) (refreshIdleDiscovery p now ids) w).2

/-- The bindings a call accepts. -/
def accepts (p : Outside) (env : Environment) (w : World) : PinCall → List Accepted
  | introduce sessionPeer capability intro now =>
    match intro, (run (inside p env)
        (applyContactCapability p sessionPeer capability intro now) w).1 with
    | some intro, .ok peer => [⟨peer, intro.bindingSeq, intro.destHpke⟩]
    | _, _ => []
  | refresh peer now => refreshAccepts p env w peer now
  | idle ids now => idleAccepts p env now ids w

end PinCall

/-- Calls, one after the other, with the bindings they accept. In between anything may happen that
leaves the contacts alone, and each call has a world outside of its own. -/
inductive PinRun (p : Outside) (ok : World → PinCall → Prop) : World → List Accepted → World → Prop
  | start (w : World) : PinRun p ok w [] w
  | call {w w' : World} {accepted : List Accepted} (h : PinRun p ok w accepted w')
    (env : Environment) (c : PinCall) (hok : ok w' c) :
    PinRun p ok w (accepted ++ c.accepts p env w') (c.after p env w')
  | elsewhere {w w' w'' : World} {accepted : List Accepted} (h : PinRun p ok w accepted w')
    (hcontacts : w''.contacts = w'.contacts) : PinRun p ok w accepted w''

/-- The introduction is not about a provisional peer with a contact, and does not reach a contact
that is revoked or, with another key, one with a higher number. -/
structure HomeSession.Advances (s : HomeSession) (sessionPeer : IdentityId)
    (intro : CapabilityIntro) : Prop where
  peer : sessionPeer = intro.identityId ∨ s.contacts.lookup sessionPeer = none
  known : ∀ c, s.contacts.lookup intro.identityId = some c →
    c.pin.identityPublicKey = intro.identityPublicKey →
      c.revoked = false ∧ (c.pin.seq ≤ intro.bindingSeq ∨ c.destHpke = intro.destHpke)

/-- Every introduction that is let in advances. -/
def PinCall.Forward (p : Outside) (w : World) : PinCall → Prop
  | introduce sessionPeer capability (some intro) _ =>
    ∀ s, w.inner.session? = some s → s.Introducible p sessionPeer capability intro →
      s.Advances sessionPeer intro
  | _ => True

/-! ## Every update moves forward -/

theorem World.Moves.of_unregistered {w' : World} {accepted : List Accepted}
    (h : w.inner.session? = none) : w.Moves accepted w' := by
  intro id c hc
  simp [World.contact, h] at hc

theorem World.contacts_eq (hs : w.inner.session? = some s) : w.contacts = some s.contacts := by
  simp [World.contacts, hs]

theorem CapabilityIntro.moves_contact {c : StoredContact}
    (hkey : c.pin.identityPublicKey = intro.identityPublicKey) (hfresh : c.revoked = false)
    (hseq : c.pin.seq ≤ intro.bindingSeq ∨ c.destHpke = intro.destHpke) :
    c.Forward (intro.contact (some c) capability now) ∧
      intro.bindingSeq ≤ (intro.contact (some c) capability now).pin.seq ∧
      (((intro.contact (some c) capability now).pin.seq = c.pin.seq ∧
          (intro.contact (some c) capability now).destHpke = c.destHpke) ∨
        (⟨intro.identityId, intro.bindingSeq, intro.destHpke⟩ : Accepted) =
          ⟨intro.identityId, (intro.contact (some c) capability now).pin.seq,
            (intro.contact (some c) capability now).destHpke⟩) := by
  have hpin : (intro.contact (some c) capability now).pin.seq =
      if c.pin.seq ≤ intro.bindingSeq then intro.bindingSeq else c.pin.seq := rfl
  have hrevocation : (intro.contact (some c) capability now).pin.revocationPublicKey =
      c.pin.revocationPublicKey := rfl
  refine ⟨⟨fun h ↦ absurd h (by simp [hfresh]), ?_, hkey.symm, hrevocation⟩, ?_, ?_⟩
  · rw [hpin]
    split_ifs with hle
    exacts [hle, UInt64.le_refl _]
  · rw [hpin]
    split_ifs with hle
    exacts [UInt64.le_refl _, UInt64.le_of_lt (UInt64.not_le.mp hle)]
  · rw [hpin]
    split_ifs with hle
    · exact .inr rfl
    · exact .inl ⟨rfl, (hseq.resolve_left hle).symm⟩

/-- An introduction that advances moves its contact forward. -/
theorem moves_introduce (h : ∀ s, w.inner.session? = some s →
      s.Introducible p sessionPeer capability intro → s.Advances sessionPeer intro) :
    w.Moves ((PinCall.introduce sessionPeer capability (some intro) now).accepts p env w)
      ((PinCall.introduce sessionPeer capability (some intro) now).after p env w) := by
  simp only [PinCall.after, PinCall.accepts]
  cases hs : w.inner.session? with
  | none => exact .of_unregistered hs
  | some s =>
    by_cases hin : s.Introducible p sessionPeer capability intro
    · have hadvances := h s hs hin
      obtain ⟨w', hrun, hplace⟩ :=
        @run_applyContactCapability _ env _ _ _ _ _ now hs hin
      have hcontacts := World.contacts_of_place hplace
      have hupgraded : s.upgraded sessionPeer intro.identityId = s.contacts := by
        unfold HomeSession.upgraded SignalStore.moveEntry
        rcases hadvances.peer with heq | hnone
        · rw [if_pos heq]
        · rw [hnone, ite_self]
      simp only [HomeSession.introduced, hupgraded] at hrun hcontacts
      rw [hrun]
      split_ifs at hrun hcontacts ⊢ with hmismatch
      · exact .of_contacts (hcontacts.trans (World.contacts_eq hs).symm)
      · refine .insert (World.contacts_eq hs) hcontacts rfl fun c hc ↦ ?_
        have hkey : c.pin.identityPublicKey = intro.identityPublicKey := by
          simpa [hc] using hmismatch
        obtain ⟨hfresh, hseq⟩ := hadvances.known c hc hkey
        rw [hc]
        exact intro.moves_contact hkey hfresh hseq
    · obtain ⟨e, w', hrun, hplace⟩ :=
        @run_applyContactCapability_of_not _ env _ _ _ _ _ now hs hin
      rw [hrun]
      exact .of_contacts ((World.contacts_of_place hplace).trans (World.contacts_eq hs).symm)

/-- A new delivery capability leaves pins alone. -/
theorem moves_capability : w.Moves
    ((PinCall.introduce sessionPeer capability none now).accepts p env w)
    ((PinCall.introduce sessionPeer capability none now).after p env w) := by
  simp only [PinCall.after, PinCall.accepts]
  cases hs : w.inner.session? with
  | none => exact .of_unregistered hs
  | some s =>
    have hcontacts := World.contacts_of_place (@run_applyContactCapability_none p env _ _ sessionPeer capability now hs)
    cases hc : s.contacts.lookup sessionPeer with
    | none =>
      rw [hc] at hcontacts
      exact .of_contacts (hcontacts.trans (World.contacts_eq hs).symm)
    | some c =>
      rw [hc] at hcontacts
      exact .edit (World.contacts_eq hs) hcontacts hc ⟨id, UInt64.le_refl _, rfl, rfl⟩ rfl rfl

/-- Who is not a contact cannot be refreshed. -/
theorem run_refreshContact_of_unknown (hs : w.inner.session? = some s)
    (hc : s.contacts.lookup peer = none) :
    ∃ e w', run (inside p env) (refreshContact p peer now) w = (.error e, w') ∧
      w'.inner = w.inner := by
  have hinner : (run (inside p env) (callOn p (s.discoveryOrigin peer) (.discovery peer))
      w.ticked).2.inner = w.inner := inner_callOn _ _ _
  have horigin : ((s.contacts.lookup peer).map (·.homeOrigin)).getD "" = s.discoveryOrigin peer := rfl
  unfold refreshContact
  rw [run_session_bind hs, run_bind, horigin]
  generalize run (inside p env) (callOn p (s.discoveryOrigin peer) (.discovery peer)) w.ticked = r
    at hinner ⊢
  obtain ⟨answer, w'⟩ := r
  cases answer with
  | error e => exact ⟨e, w', rfl, hinner⟩
  | ok disc =>
    dsimp only
    rw [run_ofExcept_bind]
    cases disc.verify p.crypto now.toNat with
    | error e => exact ⟨e, w', rfl, hinner⟩
    | ok _ =>
      rw [hc]
      exact ⟨_, w', rfl, hinner⟩

/-- A refresh moves its contact forward. -/
theorem moves_refresh : w.Moves (refreshAccepts p env w peer now)
    (run (inside p env) (refreshContact p peer now) w).2 := by
  unfold refreshAccepts
  cases hs : w.inner.session? with
  | none => exact .of_unregistered hs
  | some s =>
    cases hc : s.contacts.lookup peer with
    | none =>
      obtain ⟨e, w', hrun, hinner⟩ :=
        @run_refreshContact_of_unknown p env _ _ _ now hs hc
      rw [hrun]
      exact .of_contacts (by rw [World.contacts, hinner]; rfl)
    | some c =>
      obtain ⟨hanswer, hinner⟩ := @run_refreshContact p env _ _ _ _ now hs hc
      have hcontacts : ∀ c', (run (inside p env) (refreshContact p peer now) w).2.inner =
          w.inner.withContact peer (some c') →
          (run (inside p env) (refreshContact p peer now) w).2.contacts =
            some (s.contacts.insert peer c') := by
        intro c' h
        simp [World.contacts, h, Inner.withContact, hs, SessionUpdate.apply]
      rw [hanswer]
      rcases c.onDiscovery_cases (p := p) (s := s) (discovered p env w s peer) with
        ⟨e, h⟩ | h | ⟨disc, hdisc, -, -, hseq, -, h⟩
      · rw [h] at hinner ⊢
        exact .of_contacts (by rw [World.contacts, hinner]; rfl)
      · rw [h] at hinner ⊢
        exact .edit (World.contacts_eq hs) (hcontacts _ hinner) hc
          ⟨fun _ ↦ rfl, UInt64.le_refl _, rfl, rfl⟩ rfl rfl
      · rw [h] at hinner ⊢
        rw [Option.map_some, hdisc]
        refine .insert (World.contacts_eq hs) (hcontacts _ hinner) rfl fun c₀ hc₀ ↦ ?_
        cases hc.symm.trans hc₀
        exact ⟨⟨fun h ↦ h, hseq, rfl, rfl⟩, UInt64.le_refl _, .inr rfl⟩

/-- An idle refresh is one refresh after the other. -/
theorem moves_idle (ids : List IdentityId) (w : World) : w.Moves (idleAccepts p env now ids w)
    (run (inside p env) (refreshIdleDiscovery p now ids) w).2 := by
  induction ids generalizing w with
  | nil => exact .of_contacts rfl
  | cons id ids ih =>
    rw [refreshIdleDiscovery, idleAccepts]
    cases hs : w.inner.session? with
    | none => exact .of_unregistered hs
    | some s =>
      have hticked : w.Moves [] w.ticked := .of_contacts rfl
      rw [run_session_bind hs]
      dsimp only
      cases s.contacts.lookup id with
      | none => exact hticked.trans (ih _)
      | some c =>
        dsimp only
        split_ifs
        · exact hticked.trans (ih _)
        · have hrefresh := @moves_refresh p env w.ticked id now
          have hrun (f : Except CoreError Unit → SessionM (List IdentityId))
              (hf : ∀ answer w', (run (inside p env) (f answer) w').2 =
                (run (inside p env) (refreshIdleDiscovery p now ids) w').2) :
              (run (inside p env) ((refreshContact p id now).attempt >>= f) w.ticked).2 =
                (run (inside p env) (refreshIdleDiscovery p now ids)
                  (run (inside p env) (refreshContact p id now) w.ticked).2).2 := by
            rw [run_bind, Program.run_attempt]
            exact hf _ _
          rw [hrun]
          · exact (hticked.trans hrefresh).trans (ih _)
          · intro answer w'
            split
            · rw [run_bind]
              cases run (inside p env) (refreshIdleDiscovery p now ids) w' with
              | mk answer w'' => cases answer <;> rfl
            · rfl

/-- Calls whose introductions advance move every contact forward. -/
theorem PinRun.moves {w' : World} {accepted : List Accepted}
    (h : PinRun p (PinCall.Forward p) w accepted w') : w.Moves accepted w' := by
  induction h with
  | start => exact .of_contacts rfl
  | call h env c hok ih =>
    refine ih.trans ?_
    cases c with
    | introduce sessionPeer capability intro now =>
      cases intro with
      | some intro => exact moves_introduce hok
      | none => exact moves_capability
    | refresh peer now => exact moves_refresh
    | idle ids now => exact moves_idle ids _
  | elsewhere h hcontacts ih => simpa using ih.trans (.of_contacts hcontacts)

/-- Over calls whose introductions advance, a contact stays revoked, its number does not decrease,
its keys are the ones that were pinned, and its mailbox is sealed to the key of the newest binding
accepted. -/
theorem pins_move_forward {w' : World} {accepted : List Accepted} {id : IdentityId}
    {c : StoredContact} (h : PinRun p (PinCall.Forward p) w accepted w')
    (hc : w.contact id = some c) :
    ∃ c', w'.contact id = some c' ∧ c.Forward c' ∧
      c'.Newest id (⟨id, c.pin.seq, c.destHpke⟩ :: accepted) := by
  obtain ⟨c', hc', hforward, hnewest⟩ := h.moves id c hc
  refine ⟨c', hc', hforward, hnewest [_] ⟨List.mem_singleton_self _, ?_⟩⟩
  intro a ha _
  rw [List.mem_singleton.mp ha]
  exact UInt64.le_refl _

/-- The contact of `World.acquainted` introduces itself again, with a number and a key. -/
def CapabilityIntro.again (seq : UInt64) (destHpke : Key) : CapabilityIntro where
  identityId := .replicate 32 1
  identityPublicKey := .replicate 32 1
  revocationPublicKey := .replicate 32 1
  destHpke
  bindingSeq := seq
  sessionKey := [1]
  recipient := .replicate 32 0
  signature := .replicate 64 0

/-- That call. -/
def PinCall.again (seq : UInt64) (destHpke : Key) : PinCall :=
  .introduce (.replicate 32 1) (.replicate 32 1) (some (.again seq destHpke)) 0

/-- An introduction with a higher number moves the contact to its key. -/
theorem pins_move_forward_again :
    ∃ c', ((PinCall.again 2 (.replicate 32 3)).after .transparent .silent .acquainted).contact
        (.replicate 32 1) = some c' ∧
      (StoredContact.blank (.replicate 32 1) (.replicate 32 0)).Forward c' ∧
      c'.Newest (.replicate 32 1) (⟨.replicate 32 1, 1, .replicate 32 0⟩ ::
        ([] ++ (PinCall.again 2 (.replicate 32 3)).accepts .transparent .silent .acquainted)) := by
  refine pins_move_forward (.call (.start _) .silent (.again 2 (.replicate 32 3)) ?_) rfl
  rintro s hs -
  cases hs
  refine ⟨.inl rfl, fun c hc _ ↦ ?_⟩
  cases hc
  exact ⟨rfl, .inl (by decide)⟩

set_option maxRecDepth 100000 in
/-- An introduction with a lower number leaves a key the number was not accepted with. -/
theorem again_not_newest :
    (((PinCall.again 0 (.replicate 32 3)).after .transparent .silent .acquainted).contact
      (.replicate 32 1)).all (fun c' ↦
        decide (⟨.replicate 32 1, c'.pin.seq, c'.destHpke⟩ ∉
          (⟨.replicate 32 1, 1, .replicate 32 0⟩ ::
            (PinCall.again 0 (.replicate 32 3)).accepts .transparent .silent .acquainted :
              List Accepted))) = true := by
  decide +kernel

/-- An old introduction routes messages back to the home it names. -/
theorem PinCall.again_moves_back :
    ¬∃ c', ((PinCall.again 0 (.replicate 32 3)).after .transparent .silent .acquainted).contact
        (.replicate 32 1) = some c' ∧
      (StoredContact.blank (.replicate 32 1) (.replicate 32 0)).Forward c' ∧
      c'.Newest (.replicate 32 1) (⟨.replicate 32 1, 1, .replicate 32 0⟩ ::
        (PinCall.again 0 (.replicate 32 3)).accepts .transparent .silent .acquainted) := by
  rintro ⟨c', hc', -, hnewest⟩
  have hall := again_not_newest
  rw [hc'] at hall
  exact (of_decide_eq_true hall) hnewest.mem

end NemoMessenger.Client
