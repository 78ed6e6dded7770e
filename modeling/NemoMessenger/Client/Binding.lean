import NemoMessenger.Client.Silent
import NemoMessenger.Client.Method
import NemoMessenger.Client.Echo

/-!
# Bound invites

An invite can be bound to one identity. The member who admits a joiner learns of the invite from the
host, and keeps the bound ones it minted itself; the joiner proves its identity in the join request.
What an admission checks is compared here with the check of the wire format.
-/

namespace NemoMessenger.Client

open NemoMessenger.Data NemoMessenger.Wire
open Program (Only Performs run run_bind run_bind_of_ok performs_bind)

/-- `verify_bound_invite`. -/
def InviteeProof.verifyBoundInvite (p : Outside) (invite : GroupInvite) (proof : InviteeProof)
    (identityPk : Key) : Except WireError Unit :=
  match invite.inviteeBinding, invite.salt with
  | some want, some salt =>
    if proof.groupId ≠ invite.groupId then .error (.cbor "proof group_id mismatch")
    else do
      proof.verify p.crypto identityPk
      if inviteeBinding p identityPk salt ≠ want then .error .signature else .ok ()
  | _, _ => .error (.cbor "invite is not bound")

/-- The invite accepts the proof of a join request, which names the pending join and the group. -/
structure JoinRequest.Satisfies (p : Outside) (req : JoinRequest) (identityPk : Key)
    (invite : GroupInvite) : Prop where
  key : p.crypto.isVerifyingKey identityPk = true
  proof : ∃ proof ∈ req.proof, proof.verifyBoundInvite p invite identityPk = .ok () ∧
    proof.pendingId = req.pendingId ∧ proof.groupId = req.groupId

/-- An invite the host may hold for a pending join. -/
structure PendingLookup.Tells (looked : PendingLookup) (req : JoinRequest) (invite : GroupInvite) :
    Prop where
  groupId : invite.groupId = req.groupId
  inviteeBinding : invite.inviteeBinding = looked.inviteeBinding
  salt : invite.salt = looked.salt

/-- The request proves the identity that the invite is bound to, as far as the host tells. -/
def JoinRequest.Meets (p : Outside) (req : JoinRequest) (identityPk : Key)
    (looked : PendingLookup) : Prop :=
  looked.inviteeBinding.isSome → p.crypto.isVerifyingKey identityPk = true ∧
    ∃ proof ∈ req.proof, proof.pendingId = req.pendingId ∧
      proof.verify p.crypto identityPk = .ok () ∧
      ∃ salt ∈ looked.salt, looked.inviteeBinding = some (Client.inviteeBinding p identityPk salt)

/-- Every bound invite for a join request, the host's or one's own, accepts it. -/
def BoundAccepts (p : Outside) (minted : FiniteMap Key GroupInvite) (req : JoinRequest)
    (looked : PendingLookup) (identityPk : Key) : Prop :=
  ∀ invite, looked.Tells req invite ∨ minted.lookup req.nonce = some invite →
    invite.inviteeBinding.isSome → req.Satisfies p identityPk invite

section

variable {p : Outside} {invite : GroupInvite} {req : JoinRequest} {looked : PendingLookup}
  {identityPk : Key} {proof : InviteeProof}

theorem InviteeProof.verifyBoundInvite_eq_ok :
    proof.verifyBoundInvite p invite identityPk = .ok () ↔
    proof.groupId = invite.groupId ∧ proof.verify p.crypto identityPk = .ok () ∧
      ∃ salt ∈ invite.salt, invite.inviteeBinding = some (inviteeBinding p identityPk salt) := by
  unfold verifyBoundInvite
  cases hbinding : invite.inviteeBinding with
  | none => simp
  | some want =>
    cases hsalt : invite.salt with
    | none => simp
    | some salt =>
      dsimp only
      split_ifs with hgroup hwant
      · simp [hgroup]
      · rw [not_not] at hgroup
        simp [hgroup, bind_eq_ok, Ne.symm hwant]
      · rw [not_not] at hgroup hwant
        simp only [bind_eq_ok, hgroup, hwant, and_true, true_and, Option.mem_def, Option.some.injEq,
          exists_eq_left']
        exact ⟨fun ⟨_, h⟩ ↦ h, fun h ↦ ⟨(), h⟩⟩

/-- What the checks of an admission come to. -/
theorem verifyBoundInvite_eq_ok : verifyBoundInvite p req looked identityPk = .ok () ↔
    req.Meets p identityPk looked := by
  unfold verifyBoundInvite JoinRequest.Meets
  cases hbinding : looked.inviteeBinding with
  | none => simp
  | some want =>
    cases hproof : req.proof with
    | none => simp
    | some proof =>
      cases hsalt : looked.salt with
      | none => simp
      | some salt =>
        dsimp only
        split_ifs with hpending hwant hkey
        · simp [hpending]
        · simp [Ne.symm hwant]
        · simp_all
        · rw [not_not] at hpending hwant
          cases hverify : proof.verify p.crypto identityPk <;>
            simp_all [liftWire]

/-- An invite the host tells of is satisfied by a request that passes and names the group. -/
theorem satisfies_of_tells (hmeets : req.Meets p identityPk looked)
    (hgroup : ∀ proof ∈ req.proof, proof.groupId = req.groupId) (htells : looked.Tells req invite)
    (hbound : invite.inviteeBinding.isSome) : req.Satisfies p identityPk invite := by
  rw [htells.inviteeBinding] at hbound
  obtain ⟨hkey, proof, hproof, hpending, hverify, salt, hsalt, hwant⟩ :=
    hmeets hbound
  have hnames := hgroup proof hproof
  refine ⟨hkey, proof, hproof, ?_, hpending, hnames⟩
  rw [InviteeProof.verifyBoundInvite_eq_ok, htells.groupId, htells.inviteeBinding, htells.salt]
  exact ⟨hnames, hverify, salt, hsalt, hwant⟩

/-- A request that every bound invite accepts meets what the host tells. -/
theorem meets_of_boundAccepts {minted : FiniteMap Key GroupInvite}
    (h : BoundAccepts p minted req looked identityPk) : req.Meets p identityPk looked := by
  intro hbound
  obtain ⟨hkey, proof, hproof, haccepts, hpending, -⟩ :=
    h ⟨req.groupId, req.nonce, 0, looked.inviteeBinding, looked.salt, .replicate 64 0⟩
      (.inl ⟨rfl, rfl, rfl⟩) hbound
  obtain ⟨-, hverify, hbinding⟩ := InviteeProof.verifyBoundInvite_eq_ok.mp haccepts
  exact ⟨hkey, proof, hproof, hpending, hverify, hbinding⟩

/-- What the checks leave out: the group the proof names, and the invites of one's own. -/
structure BoundBesides (p : Outside) (minted : FiniteMap Key GroupInvite) (req : JoinRequest)
    (looked : PendingLookup) (identityPk : Key) : Prop where
  group : looked.inviteeBinding.isSome → ∀ proof ∈ req.proof, proof.groupId = req.groupId
  minted : ∀ invite ∈ minted.lookup req.nonce, invite.inviteeBinding.isSome →
    req.Satisfies p identityPk invite

theorem boundAccepts_iff {minted : FiniteMap Key GroupInvite} :
    BoundAccepts p minted req looked identityPk ↔
      req.Meets p identityPk looked ∧ BoundBesides p minted req looked identityPk := by
  constructor
  · refine fun h ↦ ⟨meets_of_boundAccepts h, fun hbound proof hproof ↦ ?_, fun invite hinvite ↦ ?_⟩
    · obtain ⟨-, proof', hproof', -, -, hgroup⟩ :=
        h ⟨req.groupId, req.nonce, 0, looked.inviteeBinding, looked.salt, .replicate 64 0⟩
          (.inl ⟨rfl, rfl, rfl⟩) hbound
      cases hproof.symm.trans hproof'
      exact hgroup
    · exact h invite (.inr hinvite)
  · rintro ⟨hmeets, hbesides⟩ invite (htells | hminted) hbound
    · have hgroup := hbesides.group (htells.inviteeBinding ▸ hbound)
      exact satisfies_of_tells hmeets hgroup htells hbound
    · exact hbesides.minted invite hminted hbound

end

/-! ## Admissions -/

section

variable (p : Outside) (joinRequestUri : String)

/-- `admit_join` up to the answer of the host to `lookup_pending`. -/
def lookUpJoin : SessionM (JoinRequest × Key × PendingLookup) := do
  let req ← .ofExcept (p.formats.parseJoinRequest joinRequestUri)
  let _ ← session
  let inviteePk ← .ofExcept (keyPackageIdentityPk p req.keyPackage)
  let now ← nowUnix
  checkDiscoveryNotRevoked p (p.crypto.identityId inviteePk) now
  let (_, live) ← liveGroupAt req.groupId
  let looked ← callGroup p req.groupId (.lookupPending req.groupId live.host.cred req.pendingId)
  if looked.credentialId ≠ req.credentialId then .fail .credentialIdMismatch
  else pure (req, inviteePk, looked)

/-- `admit_join` up to the Add. -/
def checkJoin : SessionM (JoinRequest × Key × PendingLookup) := do
  let (req, inviteePk, looked) ← lookUpJoin p joinRequestUri
  .ofExcept (verifyBoundInvite p req looked inviteePk)
  pure (req, inviteePk, looked)

/-- `admit_join` but for the save. -/
def admission : SessionM String := do
  let (req, inviteePk, looked) ← checkJoin p joinRequestUri
  admitMember p req looked
  sendGroupName p req.groupId (p.crypto.identityId inviteePk)
  pure (toHex req.credentialId.data)

theorem admitJoin_eq : admitJoin p joinRequestUri = saving (admission p joinRequestUri) := by
  unfold admitJoin admission checkJoin lookUpJoin
  simp only [Program.bind_bind]
  congr 1
  congr 1
  funext req
  congr 1
  funext _
  congr 1
  funext inviteePk
  congr 1
  funext now
  congr 1
  funext _
  congr 1
  funext place
  congr 1
  funext looked
  split_ifs <;> rfl

variable (env : Environment) (w : World)

/-- The checks let `admit_join` go on to the Add. -/
def GoesOn : Prop := ∃ checked, (run (inside p env) (checkJoin p joinRequestUri) w).1 = .ok checked

end

/-- The operation stages an Add. -/
def Op.Adds : (β : Type) → Op β → Prop
  | _, group _ (.admitMember _ _) => True
  | _, _ => False

/-- The program stages no Add. -/
abbrev Addless {α : Type} (q : SessionM α) : Prop := Only (fun β (o : Op β) ↦ ¬Op.Adds β o) q

section

variable {p : Outside} {env : Environment} {w w₁ : World} {joinRequestUri : String}
  {req : JoinRequest} {looked : PendingLookup} {identityPk : Key}

theorem addless_session : Addless session := .bind (.act id) fun _ ↦ .ofExcept _

theorem addless_send (origin : String) (request : Request) : Addless (send origin request) :=
  .bind (.act id) fun _ ↦ .ofExcept _

theorem addless_liveGroupAt (groupId : Key) : Addless (liveGroupAt groupId) := by
  refine .bind (.act id) fun inner ↦ ?_
  split
  · exact .fail _
  · split
    exacts [.fail _, .pure _]

theorem addless_callOn (origin : String) (request : Request) :
    Addless (callOn p origin request) := by
  refine .bind addless_session fun s ↦ ?_
  dsimp only
  split_ifs
  · exact addless_send _ _
  · split
    exacts [addless_send _ _, .fail _]

theorem addless_checkDiscoveryNotRevoked (identity : IdentityId) (now : UInt64) :
    Addless (checkDiscoveryNotRevoked p identity now) := by
  refine .bind addless_session fun s ↦ .bind (.attempt (addless_callOn _ _)) fun answer ↦ ?_
  split
  · exact .bind (.ofExcept _) fun _ ↦ .ofExcept _
  · split_ifs
    exacts [.pure _, .fail _]
  · exact .fail _

theorem addless_lookUpJoin : Addless (lookUpJoin p joinRequestUri) := by
  refine .bind (.ofExcept _) fun req ↦ .bind addless_session fun _ ↦ .bind (.ofExcept _) fun pk ↦
    .bind (.bind (.act id) fun _ ↦ .pure _) fun now ↦
      .bind (addless_checkDiscoveryNotRevoked _ _) fun _ ↦
        .bind (addless_liveGroupAt _) fun place ↦
          .bind (.bind addless_session fun _ ↦ addless_send _ _) fun looked ↦ ?_
  split_ifs
  exacts [.fail _, .pure _]

/-- An Add is staged only when the checks let it. -/
theorem goesOn_of_performs {t : World}
    (h : Performs (inside p env) Op.Adds (admission p joinRequestUri) w t) :
    GoesOn p joinRequestUri env w := by
  have hchecks : Addless (checkJoin p joinRequestUri) :=
    .bind addless_lookUpJoin fun _ ↦ .bind (.ofExcept _) fun _ ↦ .pure _
  rcases performs_bind.mp h with hcheck | ⟨checked, w', hrun, -⟩
  · exact absurd hcheck (Only.not_performs hchecks (fun _ _ ↦ id) w t)
  · exact ⟨checked, by rw [hrun]⟩

theorem goesOn_iff (hlooked : run (inside p env) (lookUpJoin p joinRequestUri) w =
      (.ok (req, identityPk, looked), w₁)) :
    GoesOn p joinRequestUri env w ↔ req.Meets p identityPk looked := by
  rw [GoesOn, checkJoin, run_bind_of_ok hlooked, ← verifyBoundInvite_eq_ok]
  dsimp only
  rw [run_ofExcept_bind]
  cases verifyBoundInvite p req looked identityPk with
  | error e => simp
  | ok => simp

/-- Admissions are held to bound invites exactly when what the checks leave out is in order. -/
theorem goesOn_iff_boundAccepts (hlooked : run (inside p env) (lookUpJoin p joinRequestUri) w =
      (.ok (req, identityPk, looked), w₁)) :
    (GoesOn p joinRequestUri env w ↔ BoundAccepts p w.inner.minted req looked identityPk) ↔
      (req.Meets p identityPk looked →
        BoundBesides p w.inner.minted req looked identityPk) := by
  rw [goesOn_iff hlooked, boundAccepts_iff]
  exact iff_self_and

end

/-! ## A host that does not tell -/

/-- A client that is asked to admit the identity of thirty-two threes to its group. -/
def Outside.inviting : Outside :=
  { Outside.transparent with
    openMls := { Outside.transparent.openMls with
      readKeyPackage := fun _ ↦ .ok
        (Group.newLeaf .transparent 1 (.replicate 32 3) (.replicate 32 4) (.replicate 32 3), true) }
    formats := { Outside.transparent.formats with
      parseJoinRequest := fun _ ↦ .ok
        { groupId := .replicate 32 5, pendingId := .replicate 32 6, keyPackage := [],
          signingPk := .replicate 32 3, cap := .replicate 32 7, hpke := .replicate 32 8,
          credentialId := .replicate 32 4, nonce := .replicate 32 9, proof := none,
          inviteeBinding := none } } }

/-- The host knows of no binding, and the home of no discovery record. -/
def Environment.untold : Environment :=
  { Environment.silent with
    answer := fun _ _ request ↦ match request with
      | .discovery _ => .error .denied
      | .lookupPending _ _ _ => .ok ⟨.replicate 32 4, none, none⟩
      | _ => .error (.transport "no answer") }

/-- The invite for the identity of thirty-two ones. -/
def inviteForAnother : GroupInvite where
  groupId := .replicate 32 5
  nonce := .replicate 32 9
  ttlSecs := introTtl30Min
  inviteeBinding := some (inviteeBinding .inviting (.replicate 32 1) (.replicate 32 2))
  salt := some (.replicate 32 2)
  signature := .replicate 64 0

/-- The client has minted it. -/
def World.minting : World :=
  { World.grouped with
    inner := { Inner.grouped with minted := AList.insert (.replicate 32 9) inviteForAnother ∅ } }

/-- The invite for the joiner itself. -/
def inviteForJoiner : GroupInvite :=
  { inviteForAnother with
    inviteeBinding := some (inviteeBinding .inviting (.replicate 32 3) (.replicate 32 2)) }

/-- The joiner proves its identity. -/
def Outside.proving : Outside :=
  { Outside.inviting with
    formats := { Outside.inviting.formats with
      parseJoinRequest := fun uri ↦ (Outside.inviting.formats.parseJoinRequest uri).map fun req ↦
        { req with
          proof := some (.sign .transparent (.replicate 32 3) (.replicate 32 5) (.replicate 32 6)) } } }

/-- The host tells of the binding. -/
def Environment.told : Environment :=
  { Environment.untold with
    answer := fun tick origin request ↦ match request with
      | .lookupPending _ _ _ =>
        .ok ⟨.replicate 32 4, inviteForJoiner.inviteeBinding, inviteForJoiner.salt⟩
      | request => Environment.untold.answer tick origin request }

/-- The client has minted the invite for the joiner. -/
def World.mintingForJoiner : World :=
  { World.grouped with
    inner := { Inner.grouped with minted := AList.insert (.replicate 32 9) inviteForJoiner ∅ } }

/-- A joiner that proves its identity is let in on the invite that was minted for it. -/
theorem goesOn_iff_boundAccepts_proved :
    ∃ req pk looked w₁, run (inside .proving .told) (lookUpJoin .proving "") .mintingForJoiner =
        (.ok (req, pk, looked), w₁) ∧ looked.inviteeBinding.isSome ∧
      GoesOn .proving "" .told .mintingForJoiner ∧
        BoundAccepts .proving World.mintingForJoiner.inner.minted req looked pk := by
  have hbound : ∃ req pk looked w₁,
      run (inside .proving .told) (lookUpJoin .proving "") .mintingForJoiner =
        (.ok (req, pk, looked), w₁) ∧ looked.inviteeBinding.isSome ∧
      GoesOn .proving "" .told .mintingForJoiner ∧
        (req.Meets .proving pk looked →
          BoundBesides .proving World.mintingForJoiner.inner.minted req looked pk) := by
    refine ⟨_, _, _, _, rfl, rfl, ⟨_, rfl⟩, fun _ ↦ ⟨fun _ proof hproof ↦ ?_, fun invite hinvite _ ↦ ?_⟩⟩
    · cases hproof
      rfl
    · cases hinvite
      exact ⟨rfl, _, rfl, rfl, rfl, rfl⟩
  obtain ⟨req, pk, looked, w₁, hlooked, hsome, hgoes, hbesides⟩ := hbound
  exact ⟨req, pk, looked, w₁, hlooked, hsome, hgoes,
    ((goesOn_iff_boundAccepts hlooked).mpr hbesides).mp hgoes⟩

/-- A joiner is let in on an invite that was minted for another. -/
theorem admits_unbound_joiner :
    ∃ req pk looked w₁, run (inside .inviting .untold) (lookUpJoin .inviting "") .minting =
        (.ok (req, pk, looked), w₁) ∧
      GoesOn .inviting "" .untold .minting ∧
        ¬BoundAccepts .inviting World.minting.inner.minted req looked pk := by
  refine ⟨_, _, _, _, rfl, ⟨_, rfl⟩, fun h ↦ ?_⟩
  obtain ⟨-, proof, hproof, -⟩ := h _ (.inr rfl) rfl
  cases hproof

end NemoMessenger.Client
