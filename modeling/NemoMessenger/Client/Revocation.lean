import NemoMessenger.Client.Inside

/-!
# Discovery of a contact

What a client does with the discovery record a home answers. Each function first checks the record
against itself; only some of them compare it with the pin of the contact, and none compares the
revocation key.
-/

namespace NemoMessenger.Client

open NemoMessenger.Data NemoMessenger.Wire
open Program (run run_bind act attempt ofExcept forEach fail)

variable {p : Outside} {env : Environment} {w : World} {s : HomeSession} {peer : IdentityId}
  {c : StoredContact} {now : UInt64}

/-! ## Records that agree with themselves -/

namespace Discovery

variable {crypto : Crypto} {disc : Discovery} {n : ℕ}

/-- The checks of a record never say that it is revoked. -/
theorem verify_ne_revoked : disc.verify crypto n ≠ .error .revoked := by
  unfold verify
  by_cases hidentity : crypto.isVerifyingKey disc.identityPublicKey
  · cases disc.binding.verify crypto disc.identityPublicKey n with
    | error e => simp [hidentity, liftWire, bind, Except.bind]
    | ok _ =>
      cases disc.revocation with
      | none => simp [hidentity, liftWire, bind, Except.bind]
      | some stmt =>
        by_cases hrevocation : crypto.isVerifyingKey disc.revocationPublicKey
        · cases hstmt : stmt.verify crypto disc.revocationPublicKey with
          | error e => simp [hidentity, hrevocation, hstmt, liftWire, bind, Except.bind]
          | ok _ =>
            by_cases hid : stmt.identityId = crypto.identityId disc.identityPublicKey <;>
              simp [hidentity, hrevocation, hstmt, hid, liftWire, bind, Except.bind]
        · simp [hidentity, hrevocation, liftWire, bind, Except.bind]
  · simp [hidentity]

end Discovery

/-! ## The answer of a home -/

/-- Where the discovery record of an identity is asked for. -/
def HomeSession.discoveryOrigin (s : HomeSession) (id : IdentityId) : String :=
  ((s.contacts.lookup id).map (·.homeOrigin)).getD ""

/-- What the home that is asked for the discovery record of an identity answers. -/
def discovered (p : Outside) (env : Environment) (w : World) (s : HomeSession)
    (id : IdentityId) : Except CoreError Discovery :=
  (run (inside p env) (callOn p (s.discoveryOrigin id) (.discovery id)) w.ticked).1

/-- What `refresh_contact` answers to the answer of a home, and the contact where it changes. -/
def StoredContact.onDiscovery (p : Outside) (s : HomeSession) (c : StoredContact) (now : UInt64) :
    Except CoreError Discovery → Except CoreError Unit × Option StoredContact
  | .error e => (.error e, none)
  | .ok disc =>
    match disc.verify p.crypto now.toNat with
    | .error e => (.error e, none)
    | .ok () =>
      if disc.revocation.isSome then (.error .revoked, some { c with revoked := true })
      else match c.pin.refresh p.crypto disc now.toNat with
        | .error e => (.error e, none)
        | .ok (binding, pin) =>
          (.ok (), some { c with
            pin
            destHpke := binding.serverHpkePublicKey
            homeOrigin := originForBinding p s binding
            lastDiscoveryUnix := now })

/-- The memory once a contact has changed. -/
def Inner.withContact (inner : Inner) (id : IdentityId) : Option StoredContact → Inner
  | none => inner
  | some c => inner.mapSession (SessionUpdate.contact id c).apply

/-- `refresh_contact` asks a home and does with the contact what its answer says. -/
theorem run_refreshContact (hs : w.inner.session? = some s) (hc : s.contacts.lookup peer = some c) :
    (run (inside p env) (refreshContact p peer now) w).1 =
        (c.onDiscovery p s now (discovered p env w s peer)).1 ∧
      (run (inside p env) (refreshContact p peer now) w).2.inner =
        w.inner.withContact peer (c.onDiscovery p s now (discovered p env w s peer)).2 := by
  have hinner : (run (inside p env) (callOn p (s.discoveryOrigin peer) (.discovery peer))
      w.ticked).2.inner = w.inner := inner_callOn _ _ _
  unfold refreshContact discovered
  rw [run_session_bind hs, run_bind]
  have horigin : ((s.contacts.lookup peer).map (·.homeOrigin)).getD "" = s.discoveryOrigin peer := rfl
  rw [horigin]
  generalize run (inside p env) (callOn p (s.discoveryOrigin peer) (.discovery peer)) w.ticked = r
    at hinner ⊢
  obtain ⟨answer, w'⟩ := r
  cases answer with
  | error e => exact ⟨rfl, hinner⟩
  | ok disc =>
    dsimp only at hinner ⊢
    rw [run_ofExcept_bind]
    simp only [StoredContact.onDiscovery]
    cases disc.verify p.crypto now.toNat with
    | error e => exact ⟨rfl, hinner⟩
    | ok _ =>
      simp only [hc]
      split_ifs with hrevoked
      · rw [run_update_bind, hinner]
        exact ⟨rfl, rfl⟩
      · rw [run_ofExcept_bind]
        cases c.pin.refresh p.crypto disc now.toNat with
        | error e => exact ⟨rfl, hinner⟩
        | ok refreshed =>
          dsimp only
          rw [run_update, hinner]
          exact ⟨rfl, rfl⟩

/-- `check_discovery_not_revoked` reports a revocation when the record carries one and agrees with
itself. -/
theorem run_checkDiscoveryNotRevoked_eq_revoked (hs : w.inner.session? = some s)
    (hanswer : discovered p env w s peer ≠ .error .revoked) :
    (run (inside p env) (checkDiscoveryNotRevoked p peer now) w).1 = .error .revoked ↔
      ∃ disc, discovered p env w s peer = .ok disc ∧ disc.verify p.crypto now.toNat = .ok () ∧
        disc.revocation.isSome := by
  have horigin : ((s.contacts.lookup peer).map (·.homeOrigin)).getD "" = s.discoveryOrigin peer := rfl
  unfold checkDiscoveryNotRevoked
  unfold discovered at hanswer ⊢
  rw [run_session_bind hs, horigin, run_bind, Program.run_attempt]
  generalize run (inside p env) (callOn p (s.discoveryOrigin peer) (.discovery peer)) w.ticked = r
    at hanswer ⊢
  obtain ⟨answer, w'⟩ := r
  dsimp only at hanswer ⊢
  cases answer with
  | error e =>
    have hne : e ≠ .revoked := fun h ↦ hanswer (congrArg Except.error h)
    refine iff_of_false ?_ fun ⟨disc, hdisc, _⟩ ↦ nomatch hdisc
    split
    · cases ‹_ = _›
    · split_ifs <;> simp
    · rename_i heq
      cases heq
      simpa using hne
  | ok disc =>
    dsimp only
    rw [run_ofExcept_bind]
    cases hverify : disc.verify p.crypto now.toNat with
    | error e =>
      have hne : e ≠ .revoked := fun h ↦ Discovery.verify_ne_revoked (h ▸ hverify)
      refine iff_of_false (by simpa using hne) fun ⟨disc', hdisc, hok, _⟩ ↦ ?_
      cases hdisc
      rw [hverify] at hok
      cases hok
    | ok _ =>
      simp only [Program.run_ofExcept, Discovery.checkNotRevoked]
      constructor
      · intro h
        refine ⟨disc, rfl, hverify, ?_⟩
        by_contra hnone
        rw [if_neg hnone] at h
        cases h
      · rintro ⟨disc', hdisc, -, hsome⟩
        cases hdisc
        rw [if_pos hsome]

/-- `identity_is_revoked` says what `check_discovery_not_revoked` reports. -/
theorem run_identityIsRevoked_eq_true :
    (run (inside p env) (identityIsRevoked p peer now) w).1 = .ok true ↔
      (run (inside p env) (checkDiscoveryNotRevoked p peer now) w).1 = .error .revoked := by
  unfold identityIsRevoked
  rw [run_bind, Program.run_attempt]
  generalize run (inside p env) (checkDiscoveryNotRevoked p peer now) w = r
  obtain ⟨answer, w'⟩ := r
  dsimp only
  split
  · simp
  · rename_i hne
    exact iff_of_false (by simp) fun h ↦ hne (h ▸ rfl)

/-- `ContactPin::refresh` reports a revocation when the record agrees with itself and is about the
pinned key. -/
theorem ContactPin.refresh_eq_revoked {crypto : Crypto} {pin : ContactPin} {disc : Discovery} {n : ℕ} :
    pin.refresh crypto disc n = .error .revoked ↔
      disc.verify crypto n = .ok () ∧ disc.identityPublicKey = pin.identityPublicKey ∧
        disc.revocation.isSome := by
  unfold refresh
  cases hverify : disc.verify crypto n with
  | error e =>
    have hne : e ≠ .revoked := fun h ↦ Discovery.verify_ne_revoked (h ▸ hverify)
    simp [bind, Except.bind, hne]
  | ok _ =>
    simp only [bind, Except.bind, Discovery.checkNotRevoked]
    split_ifs with hkey hsome hseq <;> simp_all

/-- `ContactPin::refresh` follows a record about the pinned key with a number that is not lower. -/
theorem ContactPin.refresh_eq_ok {crypto : Crypto} {pin pin' : ContactPin} {disc : Discovery} {n : ℕ}
    {binding : HomeServerBinding} (h : pin.refresh crypto disc n = .ok (binding, pin')) :
    disc.verify crypto n = .ok () ∧ disc.identityPublicKey = pin.identityPublicKey ∧
      disc.revocation = none ∧ pin.seq ≤ disc.binding.seq ∧ binding = disc.binding ∧
      pin' = { pin with seq := disc.binding.seq } := by
  unfold refresh at h
  cases hverify : disc.verify crypto n with
  | error e => simp [hverify, bind, Except.bind] at h
  | ok _ =>
    simp only [hverify, bind, Except.bind, Discovery.checkNotRevoked] at h
    split_ifs at h with hkey hsome hseq
    obtain ⟨rfl, rfl⟩ : disc.binding = binding ∧ { pin with seq := disc.binding.seq } = pin' := by
      simpa using h
    exact ⟨rfl, not_not.mp hkey, by simpa using hsome, UInt64.not_lt.mp hseq, rfl, rfl⟩

/-- What a refresh can do with a contact: nothing, mark it, or follow the record. -/
theorem StoredContact.onDiscovery_cases (answer : Except CoreError Discovery) :
    (∃ e, c.onDiscovery p s now answer = (.error e, none)) ∨
      c.onDiscovery p s now answer = (.error .revoked, some { c with revoked := true }) ∨
      ∃ disc, answer = .ok disc ∧ disc.verify p.crypto now.toNat = .ok () ∧
        disc.revocation = none ∧ c.pin.seq ≤ disc.binding.seq ∧
        c.pin.refresh p.crypto disc now.toNat =
          .ok (disc.binding, { c.pin with seq := disc.binding.seq }) ∧
        c.onDiscovery p s now answer = (.ok (), some { c with
          pin := { c.pin with seq := disc.binding.seq }
          destHpke := disc.binding.serverHpkePublicKey
          homeOrigin := originForBinding p s disc.binding
          lastDiscoveryUnix := now }) := by
  cases answer with
  | error e => exact .inl ⟨e, rfl⟩
  | ok disc =>
    simp only [onDiscovery]
    cases hverify : disc.verify p.crypto now.toNat with
    | error e => exact .inl ⟨e, rfl⟩
    | ok _ =>
      dsimp only
      split_ifs with hsome
      · exact .inr (.inl rfl)
      · cases hrefresh : c.pin.refresh p.crypto disc now.toNat with
        | error e => exact .inl ⟨e, rfl⟩
        | ok refreshed =>
          obtain ⟨binding, pin⟩ := refreshed
          obtain ⟨-, -, hnone, hseq, rfl, rfl⟩ := ContactPin.refresh_eq_ok hrefresh
          exact .inr (.inr ⟨disc, rfl, hverify, hnone, hseq, hrefresh, rfl⟩)

/-! ## Authentic revocations -/

/-- The record carries a statement for the pinned identity that verifies under the revocation key
pinned for it. -/
def Discovery.Authentic (crypto : Crypto) (pin : ContactPin) (disc : Discovery) : Prop :=
  ∃ stmt, disc.revocation = some stmt ∧ stmt.identityId = pin.identityId ∧
    stmt.verify crypto pin.revocationPublicKey = .ok ()

/-- A contact of the session in memory. -/
def World.contact (w : World) (id : IdentityId) : Option StoredContact :=
  w.inner.session?.bind fun s ↦ s.contacts.lookup id

theorem contact_withContact {inner : Inner} {id : IdentityId} (hs : inner.session? = some s)
    (change : Option StoredContact) :
    ((inner.withContact id change).session?.bind fun s ↦ s.contacts.lookup id) =
      (change <|> s.contacts.lookup id) := by
  cases change with
  | none => simp [Inner.withContact, hs]
  | some c => simp [Inner.withContact, hs, SessionUpdate.apply]

/-- A refresh marks a contact on a record that agrees with itself and carries a statement. -/
theorem revoked_onDiscovery (hc : c.revoked = false) {answer : Except CoreError Discovery} :
    (∃ c', ((c.onDiscovery p s now answer).2 <|> some c) = some c' ∧ c'.revoked = true) ↔
      ∃ disc, answer = .ok disc ∧ disc.verify p.crypto now.toNat = .ok () ∧
        disc.revocation.isSome := by
  cases answer with
  | error e => simp [StoredContact.onDiscovery, hc]
  | ok disc =>
    simp only [StoredContact.onDiscovery, Except.ok.injEq, exists_eq_left']
    cases disc.verify p.crypto now.toNat with
    | error e => simp [hc]
    | ok _ =>
      by_cases hsome : disc.revocation.isSome
      · simp [hsome]
      · cases c.pin.refresh p.crypto disc now.toNat <;> simp [hsome, hc]

/-- The answer is a record that carries an authentic statement. -/
def AnsweredAuthentic (p : Outside) (env : Environment) (w : World) (s : HomeSession)
    (c : StoredContact) (peer : IdentityId) : Prop :=
  ∃ disc, discovered p env w s peer = .ok disc ∧ disc.Authentic p.crypto c.pin

/-- The functions that look at the discovery record of a contact mark it, or report a revocation,
only on an authentic statement. -/
structure RevokedAuthentically (p : Outside) (env : Environment) (w : World) (s : HomeSession)
    (c : StoredContact) (peer : IdentityId) (now : UInt64) : Prop where
  marked : c.revoked = false →
    (∃ c', (run (inside p env) (refreshContact p peer now) w).2.contact peer = some c' ∧
      c'.revoked = true) → AnsweredAuthentic p env w s c peer
  refreshed : ∀ disc, discovered p env w s peer = .ok disc →
    c.pin.refresh p.crypto disc now.toNat = .error .revoked → disc.Authentic p.crypto c.pin
  checked : (run (inside p env) (checkDiscoveryNotRevoked p peer now) w).1 = .error .revoked →
    AnsweredAuthentic p env w s c peer
  asked : (run (inside p env) (identityIsRevoked p peer now) w).1 = .ok true →
    AnsweredAuthentic p env w s c peer

/-- A contact is revoked authentically exactly on the answers that fail their own checks, carry no
statement, or carry an authentic one. -/
theorem revokedAuthentically_iff (hs : w.inner.session? = some s)
    (hc : s.contacts.lookup peer = some c)
    (hanswer : discovered p env w s peer ≠ .error .revoked) :
    RevokedAuthentically p env w s c peer now ↔
      ∀ disc, discovered p env w s peer = .ok disc → disc.verify p.crypto now.toNat = .ok () →
        disc.revocation.isSome → disc.Authentic p.crypto c.pin := by
  have hrefresh : (run (inside p env) (refreshContact p peer now) w).2.contact peer =
      ((c.onDiscovery p s now (discovered p env w s peer)).2 <|> some c) := by
    unfold World.contact
    rw [(run_refreshContact hs hc).2, contact_withContact hs, hc]
  constructor
  · intro h disc hdisc hverify hsome
    have hreport := (run_checkDiscoveryNotRevoked_eq_revoked hs hanswer).mpr
      ⟨disc, hdisc, hverify, hsome⟩
    obtain ⟨disc', hdisc', hauthentic⟩ := h.checked hreport
    cases hdisc.symm.trans hdisc'
    exact hauthentic
  · intro h
    have hreported : (∃ disc, discovered p env w s peer = .ok disc ∧
        disc.verify p.crypto now.toNat = .ok () ∧ disc.revocation.isSome) →
        AnsweredAuthentic p env w s c peer :=
      fun ⟨disc, hdisc, hverify, hsome⟩ ↦ ⟨disc, hdisc, h disc hdisc hverify hsome⟩
    have hchecked : (run (inside p env) (checkDiscoveryNotRevoked p peer now) w).1 =
        .error .revoked → AnsweredAuthentic p env w s c peer :=
      fun hreport ↦ hreported ((run_checkDiscoveryNotRevoked_eq_revoked hs hanswer).mp hreport)
    exact
      { marked := fun hfresh hmarked ↦
          hreported ((revoked_onDiscovery hfresh).mp (hrefresh ▸ hmarked))
        refreshed := fun disc hdisc hrevoked ↦
          have ⟨hverify, _, hsome⟩ := ContactPin.refresh_eq_revoked.mp hrevoked
          h disc hdisc hverify hsome
        checked := hchecked
        asked := fun htrue ↦ hchecked (run_identityIsRevoked_eq_true.mp htrue) }

/-- A record somebody has made for keys of their own, revoked by themselves. -/
def Discovery.forged : Discovery where
  identityPublicKey := .replicate 32 2
  revocationPublicKey := .replicate 32 2
  binding :=
    { serverId := .replicate 32 0, serverHpkePublicKey := .replicate 32 0,
      host := ⟨"home", Text.home_size⟩, seq := 1, expiresAt := 1, signature := .replicate 64 0 }
  revocation := some ⟨.replicate 32 2, 0, .replicate 64 0⟩

/-- A home that answers every request for a discovery record with one record. -/
def Environment.answering (disc : Discovery) : Environment :=
  { Environment.silent with
    answer := fun _ _ request ↦ match request with
      | .discovery _ => .ok disc
      | _ => .error (.transport "no answer") }

theorem discovered_answering (disc : Discovery) :
    discovered .transparent (.answering disc) .acquainted .acquainted (.replicate 32 1) =
      .ok disc := by
  rfl

/-- A record of the contact itself, with a statement that it is revoked. -/
def Discovery.ofRevoked : Discovery :=
  { Discovery.forged with
    identityPublicKey := .replicate 32 1
    revocation := some ⟨.replicate 32 1, 0, .replicate 64 0⟩ }

set_option maxRecDepth 100000 in
/-- A statement of the contact about itself marks the contact, and may. -/
theorem revokedAuthentically_ofRevoked :
    ((run (inside .transparent (.answering .ofRevoked))
        (refreshContact .transparent (.replicate 32 1) 0) .acquainted).2.contact
          (.replicate 32 1)).any (·.revoked) = true ∧
      RevokedAuthentically .transparent (.answering .ofRevoked) .acquainted .acquainted
        (.blank (.replicate 32 1) (.replicate 32 0)) (.replicate 32 1) 0 := by
  refine ⟨by decide +kernel,
    (revokedAuthentically_iff rfl rfl (by rw [discovered_answering]; nofun)).mpr ?_⟩
  intro disc hdisc _ _
  rw [discovered_answering] at hdisc
  cases hdisc
  exact ⟨_, rfl, rfl, rfl⟩

set_option maxRecDepth 100000 in
/-- The refresh of a contact whose home answers with that record marks it. -/
theorem marked_answering_forged :
    ((run (inside .transparent (.answering .forged))
      (refreshContact .transparent (.replicate 32 1) 0) .acquainted).2.contact
        (.replicate 32 1)).any (·.revoked) = true := by
  decide +kernel

/-- A home revokes a contact with a statement about somebody else. -/
theorem Discovery.forged_revokes :
    ¬RevokedAuthentically .transparent (.answering .forged) .acquainted .acquainted
      (.blank (.replicate 32 1) (.replicate 32 0)) (.replicate 32 1) 0 := by
  intro h
  have hmarked := (Option.any_eq_true _ _).mp marked_answering_forged
  obtain ⟨disc, hdisc, stmt, hstmt, hid, -⟩ := h.marked rfl hmarked
  rw [discovered_answering] at hdisc
  cases hdisc
  cases hstmt
  exact absurd hid (by decide)

end NemoMessenger.Client
