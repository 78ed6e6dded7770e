import NemoMessenger.Server.Home
import NemoMessenger.Client.Message

/-!
# The expiry of a binding

`HomeServerBinding::verify` adds the clock skew to an expiry the identity chose and signed. The build
profile decides what an overflow of that sum does: a debug build panics, the release build wraps.
Registration, an observed binding and the refresh of a contact are written here for either profile;
at the release profile they are the functions of the other modules. Of the sums they compute, only
this one has a signed value in it.
-/

namespace NemoMessenger.Wire

/-- The build profiles of the workspace. -/
inductive Profile
  | debug
  | release
  deriving DecidableEq, Repr

/-- `a + b` on `u64`; `none` is a panic. -/
def Profile.add (profile : Profile) (a b : ℕ) : Option ℕ :=
  match profile with
  | debug => if a + b < 2 ^ 64 then some (a + b) else none
  | release => some (wrappingAdd a b)

theorem Profile.add_of_lt (profile : Profile) {a b : ℕ} (h : a + b < 2 ^ 64) :
    profile.add a b = some (a + b) := by
  cases profile with
  | debug => exact if_pos h
  | release => exact congrArg some (Nat.mod_eq_of_lt h)

namespace HomeServerBinding

/-- `HomeServerBinding::verify` under a build profile. -/
def verifyIn (profile : Profile) (crypto : Crypto) (binding : HomeServerBinding)
    (identityKey : Key) (now : ℕ) : Option (Except WireError Unit) :=
  match validateHost binding.host with
  | .error e => some (.error e)
  | .ok () =>
    if binding.serverId ≠ crypto.serverId binding.serverHpkePublicKey then
      some (.error .serverIdMismatch)
    else
      (profile.add binding.expiresAt.toNat clockSkewSecs).map fun limit ↦
        if limit < now then .error .bindingExpired
        else
          crypto.verifyContext identityKey .homeServerBinding
            (Cbor.encode (.map binding.unsignedPairs)) binding.signature

/-- The release profile is the one `verify` follows. -/
theorem verifyIn_release (crypto : Crypto) (binding : HomeServerBinding) (identityKey : Key)
    (now : ℕ) :
    binding.verifyIn .release crypto identityKey now =
      some (binding.verify crypto identityKey now) := by
  unfold verifyIn verify
  cases hhost : validateHost binding.host with
  | error e => rfl
  | ok u =>
    by_cases hid : binding.serverId = crypto.serverId binding.serverHpkePublicKey
    · simp [hid, Profile.add, bind, Except.bind]
    · simp [hid, bind, Except.bind]

/-- What else `verify` looks at is in order. -/
structure Sound (crypto : Crypto) (binding : HomeServerBinding) (identityKey : Key) : Prop where
  host : validateHost binding.host = .ok ()
  server : binding.serverId = crypto.serverId binding.serverHpkePublicKey
  key : crypto.isVerifyingKey identityKey = true
  signed : crypto.verifyContext identityKey .homeServerBinding
    (Cbor.encode (.map binding.unsignedPairs)) binding.signature = .ok ()

/-- The expiry, with the skew, has passed: over the natural numbers. -/
def Expired (binding : HomeServerBinding) (now : UInt64) : Prop :=
  binding.expiresAt.toNat + clockSkewSecs < now.toNat

instance (binding : HomeServerBinding) (now : UInt64) : Decidable (binding.Expired now) :=
  inferInstanceAs (Decidable (_ < _))

/-- The verdict over the natural numbers. -/
def verdict (binding : HomeServerBinding) (now : UInt64) : Except WireError Unit :=
  if binding.Expired now then .error .bindingExpired else .ok ()

section

variable {profile : Profile} {crypto : Crypto} {binding : HomeServerBinding} {identityKey : Key}
  (h : binding.Sound crypto identityKey)
include h

theorem Sound.verifyIn_eq (now : UInt64) :
    binding.verifyIn profile crypto identityKey now.toNat =
      (profile.add binding.expiresAt.toNat clockSkewSecs).map fun limit ↦
        if limit < now.toNat then .error .bindingExpired else .ok () := by
  simp only [verifyIn, h.host, h.server, ne_eq, not_true_eq_false, if_false, h.signed]

theorem Sound.verifyIn_of_lt (hlt : binding.expiresAt.toNat + clockSkewSecs < 2 ^ 64)
    (now : UInt64) :
    binding.verifyIn profile crypto identityKey now.toNat = some (binding.verdict now) := by
  rw [h.verifyIn_eq, Profile.add_of_lt profile hlt]
  rfl

/-- A sum that wraps stays below the skew, so only a clock in its first seconds agrees with it. -/
theorem Sound.verifyIn_eq_verdict_iff (now : UInt64) :
    binding.verifyIn profile crypto identityKey now.toNat = some (binding.verdict now) ↔
      binding.expiresAt.toNat + clockSkewSecs < 2 ^ 64 ∨
        profile = .release ∧ now.toNat + 2 ^ 64 ≤ binding.expiresAt.toNat + clockSkewSecs := by
  by_cases hlt : binding.expiresAt.toNat + clockSkewSecs < 2 ^ 64
  · exact iff_of_true (h.verifyIn_of_lt hlt now) (.inl hlt)
  have hnow : now.toNat < 2 ^ 64 := now.toNat_lt
  have hexpires : binding.expiresAt.toNat < 2 ^ 64 := binding.expiresAt.toNat_lt
  have hskew : clockSkewSecs = 300 := rfl
  have hverdict : binding.verdict now = .ok () := if_neg fun h ↦ by unfold Expired at h; omega
  rw [h.verifyIn_eq, hverdict]
  cases profile with
  | debug =>
    have hadd : Profile.debug.add binding.expiresAt.toNat clockSkewSecs = none := if_neg hlt
    rw [hadd]
    exact iff_of_false nofun (by simp only [hlt, false_or]; exact fun h ↦ by cases h.1)
  | release =>
    have hwrap : wrappingAdd binding.expiresAt.toNat clockSkewSecs =
        binding.expiresAt.toNat + clockSkewSecs - 2 ^ 64 := by
      unfold wrappingAdd
      omega
    simp only [Profile.add, Option.map_some, Option.some.injEq, hwrap, hlt, false_or, true_and]
    by_cases hle : now.toNat + 2 ^ 64 ≤ binding.expiresAt.toNat + clockSkewSecs
    · rw [if_neg (by omega)]
      exact iff_of_true rfl hle
    · rw [if_pos (by omega)]
      exact iff_of_false nofun hle

end

/-- Whatever the profile, the limit does not depend on the clock. -/
theorem verifyIn_earlier {profile : Profile} {crypto : Crypto} {binding : HomeServerBinding}
    {identityKey : Key} {now before : ℕ} (hle : before ≤ now)
    (h : binding.verifyIn profile crypto identityKey now = some (.ok ())) :
    binding.verifyIn profile crypto identityKey before = some (.ok ()) := by
  unfold verifyIn at h ⊢
  cases hhost : validateHost binding.host with
  | error e => simp [hhost] at h
  | ok u =>
    simp only [hhost] at h ⊢
    by_cases hid : binding.serverId = crypto.serverId binding.serverHpkePublicKey
    · rw [if_neg (not_not.mpr hid)] at h ⊢
      cases hadd : profile.add binding.expiresAt.toNat clockSkewSecs with
      | none => simp [hadd] at h
      | some limit =>
        simp only [hadd, Option.map_some, Option.some.injEq] at h ⊢
        by_cases hlimit : limit < now
        · rw [if_pos hlimit] at h
          cases h
        · rw [if_neg (by omega)]
          rwa [if_neg hlimit] at h
    · rw [if_pos hid] at h
      cases h

end HomeServerBinding

/-- `ContactCard::verify` under a build profile. -/
def ContactCard.verifyIn (profile : Profile) (crypto : Crypto) (card : ContactCard) (now : ℕ) :
    Option (Except WireError Unit) :=
  if crypto.isVerifyingKey card.identityPublicKey then
    card.binding.verifyIn profile crypto card.identityPublicKey now
  else some (.error .signature)

end NemoMessenger.Wire

namespace NemoMessenger.Server.HomeServer

open Wire

/-- `register_from_card` after the card has verified. -/
def enroll (crypto : Crypto) (home : HomeServer) (card : ContactCard) : Outcome IdentityId :=
  if card.binding.serverId ≠ home.serverId crypto then (.error .denied, home)
  else
    let id := card.identityId crypto
    match home.register id card.identityPublicKey with
    | (.error e, home) => (.error e, home)
    | (.ok (), home) =>
      let home :=
        { home with
          directory := home.directory.insert id
            { identityPublicKey := card.identityPublicKey
              revocationPublicKey := card.revocationPublicKey
              binding := card.binding
              bindingSeq := card.binding.seq
              revocation := none } }
      match home.registerShareToken id card.shareToken none with
      | (.error e, home) => (.error e, home)
      | (.ok (), home) => (.ok id, home)

/-- `register_from_card` under a build profile. -/
def registerFromCardIn (profile : Profile) (crypto : Crypto) (home : HomeServer)
    (card : ContactCard) : Option (Outcome IdentityId) :=
  (card.verifyIn profile crypto home.now).map fun
    | .error e => (.error (.wire e), home)
    | .ok () => home.enroll crypto card

theorem registerFromCardIn_release (crypto : Crypto) (home : HomeServer) (card : ContactCard) :
    home.registerFromCardIn .release crypto card = some (home.registerFromCard crypto card) := by
  unfold registerFromCardIn ContactCard.verifyIn registerFromCard ContactCard.verify
  by_cases hkey : crypto.isVerifyingKey card.identityPublicKey
  · rw [if_pos hkey, if_pos hkey, HomeServerBinding.verifyIn_release]
    cases card.binding.verify crypto card.identityPublicKey home.now <;> rfl
  · rw [if_neg hkey, if_neg hkey]
    rfl

/-- `observe_binding` after the binding has verified. -/
def bindVerified (crypto : Crypto) (home : HomeServer) (identityId : IdentityId) (pk : Key)
    (binding : HomeServerBinding) : Outcome Unit :=
  let storedSeq := ((home.directory.lookup identityId).map (·.bindingSeq)).getD 0
  if binding.seq ≤ storedSeq then (.ok (), home)
  else
    let home := home.putDirectory identityId (home.boundRow identityId pk binding)
    if binding.serverId ≠ home.serverId crypto then (.ok (), home.disableMailbox identityId)
    else (.ok (), home)

/-- `observe_binding` under a build profile. -/
def observeBindingIn (profile : Profile) (crypto : Crypto) (home : HomeServer)
    (identityId : IdentityId) (binding : HomeServerBinding) : Option (Outcome Unit) :=
  match home.bindingKey identityId with
  | none => some (.error .denied, home)
  | some pk =>
    if !crypto.isVerifyingKey pk then some (.error .denied, home)
    else if crypto.identityId pk ≠ identityId then some (.error .denied, home)
    else
      (binding.verifyIn profile crypto pk home.now).map fun
        | .error _ => (.error .denied, home)
        | .ok () => home.bindVerified crypto identityId pk binding

theorem observeBindingIn_release (crypto : Crypto) (home : HomeServer) (identityId : IdentityId)
    (binding : HomeServerBinding) :
    home.observeBindingIn .release crypto identityId binding =
      some (home.observeBinding crypto identityId binding) := by
  unfold observeBindingIn observeBinding
  cases home.bindingKey identityId with
  | none => rfl
  | some pk =>
    by_cases hkey : (!crypto.isVerifyingKey pk) = true
    · simp only [if_pos hkey]
    by_cases hid : crypto.identityId pk ≠ identityId
    · simp only [if_neg hkey, if_pos hid]
    simp only [if_neg hkey, if_neg hid, HomeServerBinding.verifyIn_release]
    cases binding.verify crypto pk home.now <;> rfl

theorem registerShareToken_ne_expired (home : HomeServer) (owner : IdentityId) (token : Key)
    (ttlSecs : Option UInt64) :
    (home.registerShareToken owner token ttlSecs).1 ≠ .error (.wire .bindingExpired) := by
  unfold registerShareToken requireMailbox
  cases home.mailboxes.lookup owner with
  | none => simp
  | some box =>
    cases hdisabled : box.disabled with
    | true => simp [hdisabled]
    | false =>
      simp only [hdisabled, Bool.false_eq_true, if_false]
      split_ifs <;> simp

theorem register_ne_expired (home : HomeServer) (identityId : IdentityId) (ownerPk : Key) :
    (home.register identityId ownerPk).1 ≠ .error (.wire .bindingExpired) := by
  unfold register
  split_ifs <;> simp

theorem enroll_ne_expired (crypto : Crypto) (home : HomeServer) (card : ContactCard) :
    (home.enroll crypto card).1 ≠ .error (.wire .bindingExpired) := by
  have hregister := home.register_ne_expired (card.identityId crypto) card.identityPublicKey
  unfold enroll
  split_ifs
  · simp
  · dsimp only
    generalize home.register (card.identityId crypto) card.identityPublicKey = registered
      at hregister ⊢
    obtain ⟨_ | _, mid⟩ := registered
    · simpa using hregister
    · dsimp only
      generalize hshared : registerShareToken _ _ _ _ = shared
      have hshare := hshared ▸ registerShareToken_ne_expired _ _ _ _
      obtain ⟨_ | _, after⟩ := shared
      · simpa using hshare
      · simp

theorem bindVerified_fst (crypto : Crypto) (home : HomeServer) (identityId : IdentityId) (pk : Key)
    (binding : HomeServerBinding) :
    (home.bindVerified crypto identityId pk binding).1 = .ok () := by
  unfold bindVerified
  dsimp only
  split_ifs <;> rfl

end NemoMessenger.Server.HomeServer

namespace NemoMessenger.Client

open Wire Server

/-- `Discovery::verify` after the binding. -/
def Discovery.checkStatement (crypto : Crypto) (disc : Discovery) : Except CoreError Unit :=
  match disc.revocation with
  | none => .ok ()
  | some stmt =>
    if !crypto.isVerifyingKey disc.revocationPublicKey then .error (.wire .signature)
    else do
      liftWire (stmt.verify crypto disc.revocationPublicKey)
      if stmt.identityId ≠ crypto.identityId disc.identityPublicKey then .error .identityMismatch
      else .ok ()

/-- `Discovery::verify` under a build profile. -/
def Discovery.verifyIn (profile : Profile) (crypto : Crypto) (disc : Discovery) (now : ℕ) :
    Option (Except CoreError Unit) :=
  if !crypto.isVerifyingKey disc.identityPublicKey then some (.error (.wire .signature))
  else
    (disc.binding.verifyIn profile crypto disc.identityPublicKey now).map fun
      | .error e => .error (.wire e)
      | .ok () => disc.checkStatement crypto

/-- `ContactPin::refresh` after the discovery has verified. -/
def ContactPin.follow (pin : ContactPin) (disc : Discovery) :
    Except CoreError (HomeServerBinding × ContactPin) :=
  if disc.identityPublicKey ≠ pin.identityPublicKey then .error .identityMismatch
  else do
    disc.checkNotRevoked
    if disc.binding.seq < pin.seq then .error .bindingDowngrade
    else .ok (disc.binding, { pin with seq := disc.binding.seq })

/-- `ContactPin::refresh` under a build profile. -/
def ContactPin.refreshIn (profile : Profile) (crypto : Crypto) (pin : ContactPin)
    (disc : Discovery) (now : ℕ) : Option (Except CoreError (HomeServerBinding × ContactPin)) :=
  (disc.verifyIn profile crypto now).map fun
    | .error e => .error e
    | .ok () => pin.follow disc

theorem Discovery.verifyIn_release (crypto : Crypto) (disc : Discovery) (now : ℕ) :
    disc.verifyIn .release crypto now = some (disc.verify crypto now) := by
  unfold Discovery.verifyIn Discovery.verify
  by_cases hkey : (!crypto.isVerifyingKey disc.identityPublicKey) = true
  · rw [if_pos hkey, if_pos hkey]
  · rw [if_neg hkey, if_neg hkey, HomeServerBinding.verifyIn_release]
    cases disc.binding.verify crypto disc.identityPublicKey now <;> rfl

theorem ContactPin.refreshIn_release (crypto : Crypto) (pin : ContactPin) (disc : Discovery)
    (now : ℕ) :
    pin.refreshIn .release crypto disc now = some (pin.refresh crypto disc now) := by
  unfold ContactPin.refreshIn ContactPin.refresh
  rw [Discovery.verifyIn_release]
  cases disc.verify crypto now <;> rfl

theorem Discovery.checkStatement_ne_expired (crypto : Crypto) (disc : Discovery) :
    disc.checkStatement crypto ≠ .error (.wire .bindingExpired) := by
  unfold Discovery.checkStatement
  cases disc.revocation with
  | none => simp
  | some stmt =>
    by_cases hkey : (!crypto.isVerifyingKey disc.revocationPublicKey) = true
    · simp [hkey]
    simp only [hkey, RevocationStatement.verify, Crypto.verifyContext]
    by_cases hsigned : crypto.verify disc.revocationPublicKey
        (Crypto.message .revocation (Cbor.encode (.map stmt.unsignedPairs))) stmt.signature = true
    · by_cases hid : stmt.identityId = crypto.identityId disc.identityPublicKey <;>
        simp [hsigned, liftWire, bind, Except.bind, hid]
    · simp [hsigned, liftWire, bind, Except.bind]

theorem ContactPin.follow_ne_expired (pin : ContactPin) (disc : Discovery) :
    pin.follow disc ≠ .error (.wire .bindingExpired) := by
  unfold ContactPin.follow Discovery.checkNotRevoked
  split_ifs <;> simp [bind, Except.bind]

/-- At this time the binding is judged over the natural numbers: by itself, where a card registers
it, where a home observes it and where a contact is refreshed; and what is accepted now was accepted
before. -/
structure ExpiryExact (profile : Profile) (crypto : Crypto) (binding : HomeServerBinding)
    (identityKey : Key) (now : UInt64) : Prop where
  verifies : binding.verifyIn profile crypto identityKey now.toNat = some (binding.verdict now)
  registers : ∀ (home : HomeServer) (card : ContactCard), home.now = now.toNat →
    card.binding = binding → card.identityPublicKey = identityKey →
    ∃ outcome, home.registerFromCardIn profile crypto card = some outcome ∧
      (outcome.1 = .error (.wire .bindingExpired) ↔ binding.Expired now)
  observes : ∀ (home : HomeServer), home.now = now.toNat →
    home.bindingKey (crypto.identityId identityKey) = some identityKey →
    ∃ outcome, home.observeBindingIn profile crypto (crypto.identityId identityKey) binding =
      some outcome ∧ (outcome.1 = .error .denied ↔ binding.Expired now)
  refreshes : ∀ (pin : ContactPin) (disc : Discovery), disc.binding = binding →
    disc.identityPublicKey = identityKey →
    ∃ outcome, pin.refreshIn profile crypto disc now.toNat = some outcome ∧
      (outcome = .error (.wire .bindingExpired) ↔ binding.Expired now)
  earlier : ∀ before : UInt64, before ≤ now →
    binding.verifyIn profile crypto identityKey now.toNat = some (.ok ()) →
    binding.verifyIn profile crypto identityKey before.toNat = some (.ok ())

/-- Over the whole range of the expiry, a binding that is otherwise sound is judged exactly as long
as the sum with the skew fits: an overflow is a panic in a debug build, and in a release build a
limit below the skew. -/
theorem expiryExact_iff {profile : Profile} {crypto : Crypto} {binding : HomeServerBinding}
    {identityKey : Key} (h : binding.Sound crypto identityKey) (now : UInt64) :
    ExpiryExact profile crypto binding identityKey now ↔
      binding.expiresAt.toNat + clockSkewSecs < 2 ^ 64 ∨
        profile = .release ∧ now.toNat + 2 ^ 64 ≤ binding.expiresAt.toNat + clockSkewSecs := by
  rw [← h.verifyIn_eq_verdict_iff now]
  refine ⟨ExpiryExact.verifies, fun hverdict ↦ ⟨hverdict, ?_, ?_, ?_, ?_⟩⟩
  · rintro home card htime rfl rfl
    refine ⟨_, by rw [HomeServer.registerFromCardIn, ContactCard.verifyIn, if_pos h.key, htime,
      hverdict, Option.map_some], ?_⟩
    by_cases hexpired : card.binding.Expired now
    · simp [HomeServerBinding.verdict, hexpired]
    · simp [HomeServerBinding.verdict, hexpired, HomeServer.enroll_ne_expired]
  · intro home htime hkey
    refine ⟨_, by simp only [HomeServer.observeBindingIn, hkey, h.key, htime, hverdict,
      Bool.not_true, Bool.false_eq_true, if_false, ne_eq, not_true_eq_false, Option.map_some]; rfl,
      ?_⟩
    by_cases hexpired : binding.Expired now
    · simp [HomeServerBinding.verdict, hexpired]
    · simp [HomeServerBinding.verdict, hexpired, HomeServer.bindVerified_fst]
  · rintro pin disc rfl rfl
    refine ⟨_, by simp only [ContactPin.refreshIn, Discovery.verifyIn, h.key, hverdict,
      Bool.not_true, Bool.false_eq_true, if_false, Option.map_some]; rfl, ?_⟩
    by_cases hexpired : disc.binding.Expired now
    · simp [HomeServerBinding.verdict, hexpired]
    · simp only [HomeServerBinding.verdict, hexpired, if_false, iff_false]
      cases hstatement : disc.checkStatement crypto with
      | error e =>
        have hne := hstatement ▸ disc.checkStatement_ne_expired crypto
        simpa using hne
      | ok u => exact pin.follow_ne_expired disc
  · exact fun before hle ↦ HomeServerBinding.verifyIn_earlier (UInt64.le_iff_toNat_le.mp hle)

/-- A binding of a local server that expires at a time of its identity's choosing. -/
def bindingUntil (expiresAt : UInt64) : HomeServerBinding where
  serverId := .replicate 32 0
  serverHpkePublicKey := .replicate 32 0
  host := ⟨"local", Text.local_size⟩
  seq := 1
  expiresAt := expiresAt
  signature := .replicate 64 0

theorem sound_bindingUntil (expiresAt : UInt64) :
    (bindingUntil expiresAt).Sound .transparent (.replicate 32 0) where
  host := show validateHost (bindingUntil 0).host = .ok () by decide +kernel
  server := rfl
  key := rfl
  signed := rfl

theorem expiryExact_iff_hour :
    ExpiryExact .debug .transparent (bindingUntil 1700003600) (.replicate 32 0) 1700000000 ↔
      (bindingUntil 1700003600).expiresAt.toNat + clockSkewSecs < 2 ^ 64 ∨
        Profile.debug = .release ∧ (1700000000 : UInt64).toNat + 2 ^ 64 ≤
          (bindingUntil 1700003600).expiresAt.toNat + clockSkewSecs :=
  expiryExact_iff (sound_bindingUntil 1700003600) 1700000000

/-- A binding that never expires: the release build calls it expired, and a debug build panics. -/
theorem bindingUntil_max_not_exact :
    ¬ExpiryExact .release .transparent (bindingUntil 18446744073709551615) (.replicate 32 0)
        1700000000 ∧
      ¬ExpiryExact .debug .transparent (bindingUntil 18446744073709551615) (.replicate 32 0)
        1700000000 := by
  have hfar : (bindingUntil 18446744073709551615).verdict 1700000000 = .ok () := by decide +kernel
  constructor
  · intro h
    have hexpired : (bindingUntil 18446744073709551615).verifyIn .release .transparent
        (.replicate 32 0) (1700000000 : UInt64).toNat = some (.error .bindingExpired) := by
      decide +kernel
    exact nomatch hexpired.symm.trans (h.verifies.trans (congrArg some hfar))
  · intro h
    have hpanic : (bindingUntil 18446744073709551615).verifyIn .debug .transparent
        (.replicate 32 0) (1700000000 : UInt64).toNat = none := by decide +kernel
    exact nomatch hpanic.symm.trans (h.verifies.trans (congrArg some hfar))

end NemoMessenger.Client
