import NemoMessenger.Client.Transport

/-!
# What a signature is about

Every signature of the protocol is made over a context and the CBOR map of the fields of an object.
From the bytes that are signed the context can be read, and then the fields, so that two objects
with the same bytes are of one kind and agree on every signed field. Of a commit and of the body of
a response only the hash is signed.
-/

namespace NemoMessenger.Client

open NemoMessenger.Data NemoMessenger.Wire

open Cbor (Value)

open Crypto (Context)

/-- What a signature is made over, for each context. -/
inductive SignedObject
  | binding (binding : HomeServerBinding)
  | prekey (blob : SignedPrekey)
  | revocation (stmt : RevocationStatement)
  | groupInvite (invite : GroupInvite)
  | groupAdmit (groupId pendingId : Key)
  | inviteeProof (groupId pendingId : Key)
  | removeSidecar (groupId credentialId : Key) (mlsCommit : Bytes)
  | signingKeyReplace (newPublicKey : Key)
  | serverBundle (bundle : ServerBundle)
  | serverSignRotate (rotate : ServerSignRotate)
  | mailboxOwner (auth : MailboxOwnerAuth)
  | capabilityIntro (intro : CapabilityIntro) (contactCapability : Key)
  | serverResponse (nonce : Key) (status : UInt16) (body : Bytes)

namespace SignedObject

/-- The context of a kind of object. -/
def context : SignedObject → Context
  | binding _ => .homeServerBinding
  | prekey _ => .prekey
  | revocation _ => .revocation
  | groupInvite _ => .groupInvite
  | groupAdmit _ _ => .groupAdmit
  | inviteeProof _ _ => .inviteeProof
  | removeSidecar _ _ _ => .removeSidecar
  | signingKeyReplace _ => .signingKeyReplace
  | serverBundle _ => .serverBundle
  | serverSignRotate _ => .serverSignRotate
  | mailboxOwner _ => .mailboxOwner
  | capabilityIntro _ _ => .capabilityIntro
  | serverResponse _ _ _ => .serverResponse

/-- The payload the object is signed as. -/
def payload (p : Outside) : SignedObject → Bytes
  | binding b => Cbor.encode (.map b.unsignedPairs)
  | prekey blob => Cbor.encode (.map blob.unsignedPairs)
  | revocation stmt => Cbor.encode (.map stmt.unsignedPairs)
  | groupInvite invite => Cbor.encode (.map invite.payloadMap)
  | groupAdmit groupId pendingId => GroupAdmit.payload groupId pendingId
  | inviteeProof groupId pendingId => InviteeProof.payload groupId pendingId
  | removeSidecar groupId credentialId mlsCommit =>
    RemoveBundle.sidecarPayload p.crypto groupId credentialId mlsCommit
  | signingKeyReplace newPublicKey => SigningKeyReplace.payload newPublicKey
  | serverBundle bundle => Cbor.encode (.map bundle.unsignedPairs)
  | serverSignRotate rotate =>
    Cbor.encode (.map [(0, .bytes rotate.newPublicKey.data), (1, .uint rotate.seq)])
  | mailboxOwner auth => Cbor.encode (.map auth.unsignedPairs)
  | capabilityIntro intro contactCapability => intro.signedPayload contactCapability
  | serverResponse nonce status body => responsePayload p nonce status.toNat body

/-- The bytes `sign::message` builds for the object. -/
def message (p : Outside) (o : SignedObject) : Bytes := Crypto.message o.context (o.payload p)

/-- The objects are of one kind and have the same signed fields, the signature being none of them.
Commits and bodies have the same hash. -/
def Agrees (p : Outside) : SignedObject → SignedObject → Prop
  | binding a, binding b => { a with signature := b.signature } = b
  | prekey a, prekey b => { a with signature := b.signature } = b
  | revocation a, revocation b => { a with signature := b.signature } = b
  | groupInvite a, groupInvite b => { a with signature := b.signature } = b
  | groupAdmit g i, groupAdmit g' i' => g = g' ∧ i = i'
  | inviteeProof g i, inviteeProof g' i' => g = g' ∧ i = i'
  | removeSidecar g c m, removeSidecar g' c' m' =>
    g = g' ∧ c = c' ∧ p.crypto.sha256 m = p.crypto.sha256 m'
  | signingKeyReplace k, signingKeyReplace k' => k = k'
  | serverBundle a, serverBundle b => { a with signature := b.signature } = b
  | serverSignRotate a, serverSignRotate b => { a with signature := b.signature } = b
  | mailboxOwner a, mailboxOwner b => { a with signature := b.signature } = b
  | capabilityIntro a k, capabilityIntro b k' =>
    { a with identityId := b.identityId, signature := b.signature } = b ∧ k = k'
  | serverResponse n s m, serverResponse n' s' m' =>
    n = n' ∧ s = s' ∧ p.crypto.sha256 m = p.crypto.sha256 m'
  | _, _ => False

/-- Every length is a `usize`. -/
def Sized : SignedObject → Prop
  | prekey blob => blob.libsignalPrekey.length < 2 ^ 64
  | mailboxOwner auth => auth.mailboxHint.length < 2 ^ 64 ∧
    auth.scope.method.utf8ByteSize < 2 ^ 64 ∧ auth.scope.path.utf8ByteSize < 2 ^ 64
  | capabilityIntro intro _ => intro.sessionKey.length < 2 ^ 64
  | _ => True

end SignedObject

theorem context_text_injective {c c' : Context} (h : c.text = c'.text) : c = c' := by
  cases c <;> cases c' <;> first | rfl | exact absurd h (by decide)

theorem zero_notMem_context (c : Context) : 0 ∉ Cbor.textBytes c.text := by
  cases c <;> decide

theorem textBytes_injective {s t : String} (h : Cbor.textBytes s = Cbor.textBytes t) : s = t := by
  have hs := Cbor.fromUtf8_textBytes s
  rw [h, Cbor.fromUtf8_textBytes] at hs
  exact (Option.some_injective _ hs).symm

/-- A text without zeros ends at the first zero behind it. -/
theorem append_zero_injective {a a' rest rest' : Bytes} (ha : 0 ∉ a) (ha' : 0 ∉ a')
    (h : a ++ 0 :: rest = a' ++ 0 :: rest') : a = a' ∧ rest = rest' := by
  induction a generalizing a' with
  | nil =>
    cases a' with
    | nil => exact ⟨rfl, List.tail_eq_of_cons_eq h⟩
    | cons byte a' => exact absurd (List.head_eq_of_cons_eq h ▸ List.mem_cons_self) ha'
  | cons byte a ih =>
    cases a' with
    | nil => exact absurd ((List.head_eq_of_cons_eq h).symm ▸ List.mem_cons_self) ha
    | cons byte' a' =>
      obtain ⟨rfl, htail⟩ := List.cons.inj h
      obtain ⟨rfl, hrest⟩ := ih (fun hmem ↦ ha (List.mem_cons_of_mem _ hmem))
        (fun hmem ↦ ha' (List.mem_cons_of_mem _ hmem)) htail
      exact ⟨rfl, hrest⟩

theorem message_injective {c c' : Context} {payload payload' : Bytes}
    (h : Crypto.message c payload = Crypto.message c' payload') : c = c' ∧ payload = payload' := by
  unfold Crypto.message at h
  rw [List.append_cancel_left_eq] at h
  obtain ⟨htext, hpayload⟩ :=
    append_zero_injective (zero_notMem_context c) (zero_notMem_context c') h
  exact ⟨context_text_injective (textBytes_injective htext), hpayload⟩

/-- A map that is well formed is read back from its encoding. -/
theorem encode_map_injective {pairs pairs' : List (UInt64 × Value)} (hwf : (Value.map pairs).Wf)
    (hwf' : (Value.map pairs').Wf)
    (h : Cbor.encode (.map pairs) = Cbor.encode (.map pairs')) : pairs = pairs' := by
  have hdecode := Cbor.decode_encode hwf
  rw [h, Cbor.decode_encode hwf'] at hdecode
  exact (Value.map.inj (Except.ok.inj hdecode)).symm

namespace SignedObject

variable {p : Outside}

/-- The fields of the payload. -/
def pairs (p : Outside) : SignedObject → List (UInt64 × Value)
  | binding b => b.unsignedPairs
  | prekey blob => blob.unsignedPairs
  | revocation stmt => stmt.unsignedPairs
  | groupInvite invite => invite.payloadMap
  | groupAdmit groupId pendingId =>
    [(0, versionValue), (1, .bytes groupId.data), (2, .bytes pendingId.data), (3, .text "admit")]
  | inviteeProof groupId pendingId =>
    [(0, versionValue), (1, .bytes groupId.data), (2, .bytes pendingId.data)]
  | removeSidecar groupId credentialId mlsCommit =>
    [(0, .bytes credentialId.data), (1, .text "revoke"), (2, .bytes groupId.data),
      (3, .bytes (p.crypto.sha256 mlsCommit).data)]
  | signingKeyReplace newPublicKey => [(0, .bytes newPublicKey.data)]
  | serverBundle bundle => bundle.unsignedPairs
  | serverSignRotate rotate => [(0, .bytes rotate.newPublicKey.data), (1, .uint rotate.seq)]
  | mailboxOwner auth => auth.unsignedPairs
  | capabilityIntro intro contactCapability =>
    [(0, versionValue), (1, .bytes intro.recipient.data), (2, .bytes intro.sessionKey),
      (3, .bytes contactCapability.data), (4, .bytes intro.identityPublicKey.data),
      (5, .bytes intro.revocationPublicKey.data), (6, .bytes intro.destHpke.data),
      (7, .uint intro.bindingSeq)]
  | serverResponse nonce status body =>
    [(0, versionValue), (1, .bytes nonce.data), (2, .uint (UInt64.ofNat status.toNat)),
      (3, .bytes (p.crypto.sha256 body).data)]

theorem payload_eq (o : SignedObject) : o.payload p = Cbor.encode (.map (o.pairs p)) := by
  cases o <;> rfl

theorem wf_pairs {o : SignedObject} (h : o.Sized) : (Value.map (o.pairs p)).Wf := by
  have hadmit : "admit".utf8ByteSize = 5 := by decide
  have hrevoke : "revoke".utf8ByteSize = 6 := by decide
  have hrevoked : "revoked".utf8ByteSize = 7 := by decide
  cases o with
  | binding b =>
    have hhost := b.host.size_lt
    simp [pairs, HomeServerBinding.unsignedPairs, Value.Wf, Cbor.pairsWf]
    omega
  | serverBundle bundle =>
    have hhost := bundle.host.size_lt
    simp [pairs, ServerBundle.unsignedPairs, Value.Wf, Cbor.pairsWf, versionValue]
    omega
  | groupInvite invite =>
    obtain ⟨groupId, nonce, ttlSecs, inviteeBinding, salt, signature⟩ := invite
    cases inviteeBinding <;> cases salt <;>
      simp [pairs, GroupInvite.payloadMap, Value.Wf, Cbor.pairsWf, versionValue]
  | prekey blob =>
    simpa [pairs, SignedPrekey.unsignedPairs, Value.Wf, Cbor.pairsWf, versionValue, Sized] using h
  | mailboxOwner auth =>
    simpa [pairs, MailboxOwnerAuth.unsignedPairs, Value.Wf, Cbor.pairsWf, Sized] using h
  | capabilityIntro intro contactCapability =>
    simpa [pairs, Value.Wf, Cbor.pairsWf, versionValue, Sized] using h
  | revocation stmt =>
    simp [pairs, RevocationStatement.unsignedPairs, Value.Wf, Cbor.pairsWf, versionValue, hrevoked]
  | _ => simp [pairs, Value.Wf, Cbor.pairsWf, versionValue, hadmit, hrevoke]

theorem data_inj {n : ℕ} {a b : FixedBytes n} : a.data = b.data ↔ a = b :=
  ⟨FixedBytes.ext_data, congrArg _⟩

theorem chars_inj {a b : Text} : a.chars = b.chars ↔ a = b :=
  ⟨fun h ↦ by
    cases a
    cases b
    congr, congrArg _⟩

theorem status_injective {status status' : UInt16}
    (h : UInt64.ofNat status.toNat = UInt64.ofNat status'.toNat) : status = status' := by
  have hlt := status.toNat_lt
  have hlt' := status'.toNat_lt
  refine UInt16.toNat_inj.mp ?_
  calc status.toNat = (UInt64.ofNat status.toNat).toNat :=
        (Cbor.toNat_ofNat_of_lt (by omega)).symm
    _ = (UInt64.ofNat status'.toNat).toNat := by rw [h]
    _ = status'.toNat := Cbor.toNat_ofNat_of_lt (by omega)

/-- Objects of one kind with the same pairs agree. -/
theorem agrees_of_pairs_eq {o o' : SignedObject} (hcontext : o.context = o'.context)
    (h : o.pairs p = o'.pairs p) : o.Agrees p o' := by
  cases o with
  | binding a =>
    cases o' with
    | binding b =>
      obtain ⟨⟩ := a
      obtain ⟨⟩ := b
      simpa [pairs, HomeServerBinding.unsignedPairs, Agrees, data_inj, chars_inj] using h
    | _ => cases hcontext
  | prekey a =>
    cases o' with
    | prekey b =>
      obtain ⟨⟩ := a
      obtain ⟨⟩ := b
      simpa [pairs, SignedPrekey.unsignedPairs, Agrees, data_inj] using h
    | _ => cases hcontext
  | revocation a =>
    cases o' with
    | revocation b =>
      obtain ⟨⟩ := a
      obtain ⟨⟩ := b
      simpa [pairs, RevocationStatement.unsignedPairs, Agrees, data_inj] using h
    | _ => cases hcontext
  | groupInvite a =>
    cases o' with
    | groupInvite b =>
      obtain ⟨_, _, _, binding, salt, _⟩ := a
      obtain ⟨_, _, _, binding', salt', _⟩ := b
      cases binding <;> cases salt <;> cases binding' <;> cases salt' <;>
        simp_all [pairs, GroupInvite.payloadMap, Agrees, data_inj]
    | _ => cases hcontext
  | groupAdmit groupId pendingId =>
    cases o' with
    | groupAdmit groupId' pendingId' => simpa [pairs, Agrees, data_inj] using h
    | _ => cases hcontext
  | inviteeProof groupId pendingId =>
    cases o' with
    | inviteeProof groupId' pendingId' => simpa [pairs, Agrees, data_inj] using h
    | _ => cases hcontext
  | removeSidecar groupId credentialId mlsCommit =>
    cases o' with
    | removeSidecar groupId' credentialId' mlsCommit' =>
      simp only [pairs, List.cons.injEq, Prod.mk.injEq, Value.bytes.injEq, data_inj] at h
      exact ⟨h.2.2.1.2, h.1.2, h.2.2.2.1.2⟩
    | _ => cases hcontext
  | signingKeyReplace newPublicKey =>
    cases o' with
    | signingKeyReplace newPublicKey' => simpa [pairs, Agrees, data_inj] using h
    | _ => cases hcontext
  | serverBundle a =>
    cases o' with
    | serverBundle b =>
      obtain ⟨⟩ := a
      obtain ⟨⟩ := b
      simpa [pairs, ServerBundle.unsignedPairs, Agrees, data_inj, chars_inj] using h
    | _ => cases hcontext
  | serverSignRotate a =>
    cases o' with
    | serverSignRotate b =>
      obtain ⟨⟩ := a
      obtain ⟨⟩ := b
      simpa [pairs, Agrees, data_inj] using h
    | _ => cases hcontext
  | mailboxOwner a =>
    cases o' with
    | mailboxOwner b =>
      obtain ⟨_, _, _, _, scope, _, _⟩ := a
      obtain ⟨_, _, _, _, scope', _, _⟩ := b
      obtain ⟨⟩ := scope
      obtain ⟨⟩ := scope'
      simp [pairs, MailboxOwnerAuth.unsignedPairs, Agrees, data_inj] at h ⊢
      tauto
    | _ => cases hcontext
  | capabilityIntro a contactCapability =>
    cases o' with
    | capabilityIntro b contactCapability' =>
      obtain ⟨⟩ := a
      obtain ⟨⟩ := b
      simp [pairs, Agrees, data_inj] at h ⊢
      tauto
    | _ => cases hcontext
  | serverResponse nonce status body =>
    cases o' with
    | serverResponse nonce' status' body' =>
      simp only [pairs, List.cons.injEq, Prod.mk.injEq, Value.bytes.injEq, Value.uint.injEq,
        data_inj] at h
      exact ⟨h.2.1.2, status_injective h.2.2.1.2, h.2.2.2.1.2⟩
    | _ => cases hcontext

/-- A signature is accepted over no bytes but those it was made over. -/
def Unforgeable (crypto : Crypto) : Prop :=
  ∀ secret message message',
    crypto.verify (crypto.verifyingKey secret) message' (crypto.sign secret message) = true →
      message' = message

/-- Objects that are signed as the same bytes agree, and no signature made for an object is accepted
for one that does not agree with it. -/
theorem agrees_of_message_eq {o o' : SignedObject} (ho : o.Sized) (ho' : o'.Sized) :
    (o.message p = o'.message p → o.Agrees p o') ∧
      (Unforgeable p.crypto → ∀ secret,
        p.crypto.verifyContext (p.crypto.verifyingKey secret) o'.context (o'.payload p)
          (p.crypto.signContext secret o.context (o.payload p)) = .ok () → o.Agrees p o') := by
  have hagrees : o.message p = o'.message p → o.Agrees p o' := by
    intro h
    obtain ⟨hcontext, hpayload⟩ := message_injective h
    rw [payload_eq, payload_eq] at hpayload
    exact agrees_of_pairs_eq hcontext
      (encode_map_injective (wf_pairs ho) (wf_pairs ho') hpayload)
  refine ⟨hagrees, fun hunforgeable secret haccepted ↦ hagrees ?_⟩
  unfold Crypto.verifyContext at haccepted
  split_ifs at haccepted with hverify
  exact (hunforgeable secret _ _ hverify).symm

/-- Primitives that sign and accept one message. -/
def signsOnly (message : Bytes) : Outside :=
  { Outside.transparent with
    crypto :=
      { Crypto.transparent with
        sign := fun _ m ↦ .replicate 64 (if m = message then 1 else 0)
        verify := fun _ m signature ↦ m = message && signature = .replicate 64 1 } }

/-- An admission and an invitee's proof have the same ids, and differ in their bytes. -/
theorem agrees_of_message_eq_admit :
    let o : SignedObject := .groupAdmit (.replicate 32 1) (.replicate 32 2)
    let o' : SignedObject := .inviteeProof (.replicate 32 1) (.replicate 32 2)
    let p := signsOnly (o.message .transparent)
    Unforgeable p.crypto ∧ o.message p ≠ o'.message p ∧
      p.crypto.verifyContext (p.crypto.verifyingKey (.replicate 32 3)) o'.context (o'.payload p)
        (p.crypto.signContext (.replicate 32 3) o.context (o.payload p)) ≠ .ok () := by
  intro o o' p
  have hunforgeable : Unforgeable p.crypto := by
    intro secret message message' h
    obtain ⟨hmessage, hsignature⟩ := (Bool.and_eq_true_iff).mp h
    rw [of_decide_eq_true hmessage]
    by_contra hne
    have hzero : p.crypto.sign secret message = .replicate 64 0 :=
      congrArg (FixedBytes.replicate 64) (if_neg (Ne.symm hne))
    rw [hzero] at hsignature
    exact absurd (of_decide_eq_true hsignature) (by decide)
  refine ⟨hunforgeable, fun h ↦ ?_, fun h ↦ ?_⟩
  · exact (@agrees_of_message_eq p o o' trivial trivial).1 h
  · exact (@agrees_of_message_eq p o o' trivial trivial).2 hunforgeable _ h

end SignedObject

end NemoMessenger.Client
