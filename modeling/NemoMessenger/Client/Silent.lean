import NemoMessenger.Client.Inside
import NemoMessenger.Client.Fetch

/-!
# Programs and conversations

The conversations a client shows change by operations on the shell alone. Most programs perform none;
what the others perform is one of a class of changes, and a class is all an invariant has to look at.
-/

namespace NemoMessenger.Client

open NemoMessenger.Data NemoMessenger.Wire
open Program (Only run)

/-- The operation changes the shell by a function of a class, if at all. -/
def Op.Within (K : (Shell → Shell) → Prop) : (β : Type) → Op β → Prop
  | _, shell f => K f
  | _, _ => True

/-- The program changes the shell by functions of a class. -/
abbrev Within (K : (Shell → Shell) → Prop) {α : Type} (q : SessionM α) : Prop := Only (Op.Within K) q

/-- No change at all. -/
def Shell.Unchanged (_ : Shell → Shell) : Prop := False

/-- The program leaves the shell alone. -/
abbrev Silent {α : Type} (q : SessionM α) : Prop := Within Shell.Unchanged q

theorem Within.mono {K L : (Shell → Shell) → Prop} {α : Type} {q : SessionM α} (hq : Within K q)
    (h : ∀ f, K f → L f) : Within L q := by
  refine Only.mono hq fun γ o ho ↦ ?_
  cases o with
  | shell f => exact h f ho
  | _ => trivial

section

variable {p : Outside} {env : Environment} {K : (Shell → Shell) → Prop}

/-! ## Single actions -/

@[grind ←] theorem silent_memory : Within K memory := .act trivial

@[grind ←] theorem silent_session : Within K session := by grind [session]

@[grind ←] theorem silent_update (u : SessionUpdate) : Within K (update u) := .act trivial

@[grind ←] theorem silent_ratchet {β : Type} (op : RatchetOp β) : Within K (ratchet op) := by
  refine .bind (.act trivial) fun answer ↦ ?_
  cases answer
  exacts [.fail _, .pure _]

@[grind ←] theorem silent_onInstall {β : Type} (op : InstallOp β) : Within K (onInstall op) := by
  refine .bind (.act trivial) fun answer ↦ ?_
  cases answer
  exacts [.fail _, .pure _]

@[grind ←] theorem silent_onGroup {β : Type} (i : ℕ) (op : GroupOp β) : Within K (onGroup i op) := by
  refine .bind (.act trivial) fun answer ↦ ?_
  cases answer
  exacts [.fail _, .pure _]

@[grind ←] theorem silent_nowMs : Within K nowMs := .act trivial

@[grind ←] theorem silent_nowUnix : Within K nowUnix := by grind [nowUnix]

@[grind ←] theorem silent_drawKey : Within K drawKey := .bind (.act trivial) fun _ ↦ .pure _

@[grind ←] theorem silent_send (origin : String) (request : Request) :
    Within K (send origin request) :=
  .bind (.act trivial) fun _ ↦ .ofExcept _

@[grind ←] theorem silent_sendHome (request : Request) : Within K (sendHome request) :=
  .bind silent_session fun _ ↦ silent_send _ _

/-! ## Prekeys and contacts -/

@[grind ←] theorem silent_callOn (origin : String) (request : Request) :
    Within K (callOn p origin request) := by
  refine .bind silent_session fun s ↦ ?_
  dsimp only
  split_ifs
  · exact silent_send _ _
  · split
    exacts [silent_send _ _, .fail _]

@[grind ←] theorem silent_upgradePeer (sessionPeer : IdentityId) (intro : CapabilityIntro) :
    Within K (upgradePeer sessionPeer intro) := by
  refine .bind silent_session fun s ↦ ?_
  dsimp only
  split_ifs
  · exact .pure _
  · exact .fail _
  · refine .bind (silent_ratchet _) fun _ ↦ ?_
    split
    · exact .pure _
    · exact .bind (silent_update _) fun _ ↦ by grind
  · refine .bind (silent_ratchet _) fun _ ↦ ?_
    split
    · exact .pure _
    · exact .bind (silent_update _) fun _ ↦ by grind

@[grind ←] theorem silent_applyContactCapability (sessionPeer : IdentityId) (capability : Key)
    (intro : Option CapabilityIntro) (now : UInt64) :
    Within K (applyContactCapability p sessionPeer capability intro now) := by
  refine .bind silent_session fun s ↦ ?_
  cases intro with
  | none =>
    dsimp only
    cases s.contacts.lookup sessionPeer <;> grind
  | some intro =>
    refine .bind (.ofExcept _) fun _ ↦ .bind (silent_upgradePeer _ _) fun _ ↦
      .bind silent_session fun s ↦ ?_
    dsimp only
    split_ifs <;> grind

@[grind ←] theorem silent_refreshContact (peer : IdentityId) (now : UInt64) :
    Within K (refreshContact p peer now) := by
  grind [refreshContact]

@[grind ←] theorem silent_checkDiscoveryNotRevoked (identity : IdentityId) (now : UInt64) :
    Within K (checkDiscoveryNotRevoked p identity now) := by
  refine .bind silent_session fun s ↦ .bind (.attempt (silent_callOn _ _)) fun answer ↦ ?_
  cases answer with
  | ok disc => exact .bind (.ofExcept _) fun _ ↦ .ofExcept _
  | error e => cases e <;> grind

@[grind ←] theorem silent_refreshMlsIdentities (ids : List IdentityId) (now : UInt64) :
    Within K (refreshMlsIdentities p ids now) := by
  grind [refreshMlsIdentities]

/-! ## Envelopes -/

@[grind ←] theorem silent_wrap (destHpke deliveryCapability : Key) (ttlBucket : TtlBucket)
    (type : MessageType) (body : Bytes) :
    Within K (wrap p destHpke deliveryCapability ttlBucket type body) := by
  grind [wrap]

@[grind ←] theorem silent_encryptToMailbox (type : MessageType) (peer : IdentityId)
    (destHpke capability : Key) (ttlBucket : TtlBucket) (plaintext : Bytes) :
    Within K (encryptToMailbox p type peer destHpke capability ttlBucket plaintext) := by
  grind [encryptToMailbox]

@[grind ←] theorem silent_postOneEnvelope (outer : Outgoing) (cover : Bool) :
    Within K (postOneEnvelope outer cover) := by
  refine .bind silent_session fun s ↦ .bind (.act trivial) fun answer ↦ ?_
  split <;> grind

@[grind ←] theorem silent_postAll (outers : List Outgoing) (last : Option UInt64) :
    Within K (postAll outers last) := by
  induction outers generalizing last with
  | nil => exact .pure _
  | cons outer outers ih => exact .bind (silent_postOneEnvelope _ _) fun _ ↦ ih _

@[grind ←] theorem silent_flushPrivateOutbox : Within K flushPrivateOutbox :=
  .bind silent_session fun _ ↦ .bind (silent_update _) fun _ ↦ silent_postAll _ _

@[grind ←] theorem silent_postEnvelopeMaybeBatch (outer : Outgoing) (batch : Bool) :
    Within K (postEnvelopeMaybeBatch outer batch) := by
  refine .bind silent_session fun s ↦ ?_
  split_ifs
  · exact .bind (silent_update _) fun _ ↦ silent_flushPrivateOutbox
  · exact silent_postOneEnvelope _ _

theorem silent_sealAndPost (type : MessageType) (batch : Bool) (peer : IdentityId)
    (ttlBucket : TtlBucket) (plaintext : Bytes) :
    Within K (session >>= fun s ↦ match s.contacts.lookup peer with
      | none => Program.fail .unknownContact
      | some contact =>
        if contact.revoked then Program.fail .revoked
        else do
          let outer ← encryptToMailbox p type peer contact.destHpke contact.deliveryCapability
            ttlBucket plaintext
          let _ ← postEnvelopeMaybeBatch outer batch) := by
  refine .bind silent_session fun s ↦ ?_
  cases s.contacts.lookup peer <;> grind

@[grind ←] theorem silent_sendVia (type : MessageType) (batch : Bool) (peer : IdentityId)
    (ttlBucket : TtlBucket) (plaintext : Bytes) (now : UInt64) :
    Within K (sendVia p type batch peer ttlBucket plaintext now) := by
  refine .bind silent_session fun s ↦ ?_
  dsimp only
  cases s.contacts.lookup peer with
  | none => exact .fail _
  | some contact =>
    dsimp only
    split_ifs
    · exact .fail _
    · exact .bind (silent_refreshContact _ _) fun _ ↦ silent_sealAndPost ..
    · exact silent_sealAndPost ..

/-! ## Groups -/

@[grind ←] theorem silent_callGroup (groupId : Key) (request : Request) :
    Within K (callGroup p groupId request) :=
  .bind silent_session fun _ ↦ silent_send _ _

@[grind ←] theorem silent_groupAppend (host : HostGroup) (type : MessageType) (body : Bytes) :
    Within K (groupAppend p host type body) :=
  .bind (silent_callGroup _ _) fun _ ↦ .pure _

@[grind ←] theorem silent_liveGroupAt (groupId : Key) : Within K (liveGroupAt groupId) := by
  grind [liveGroupAt]

@[grind ←] theorem silent_findGroupMut (groupIdHex : String) : Within K (findGroupMut groupIdHex) := by
  grind [findGroupMut, identityOf]

@[grind ←] theorem silent_transmitApp (convId : String) (body : AppBody) (now seq : UInt64) :
    Within K (transmitApp p convId body now seq) := by
  refine .bind (.ofExcept _) fun ptext ↦ .bind silent_memory fun inner ↦
    .bind silent_session fun _ ↦ .bind (.ofExcept _) fun id ↦ ?_
  split_ifs
  · exact .bind (silent_findGroupMut _) fun found ↦ .bind silent_nowMs fun ms ↦
      .bind (silent_onGroup _ _) fun answer ↦ .bind (.ofExcept _) fun _ ↦ silent_groupAppend _ _ _
  · exact silent_sendVia _ _ _ _ _ _

/-! ## Upkeep -/

theorem silent_flushMlsUpdate (i : ℕ) (live : LiveGroup) : Within K (flushMlsUpdate p i live) := by
  refine .bind silent_memory fun inner ↦ ?_
  split_ifs
  · exact .pure _
  · refine .bind silent_nowMs fun ms ↦ .bind (silent_onGroup _ _) fun answer ↦
      .bind (.ofExcept _) fun commit ↦ ?_
    cases commit with
    | none => exact .pure _
    | some commit =>
      exact .bind (silent_groupAppend ..) fun _ ↦ .bind silent_nowMs fun _ ↦
        .bind (silent_onGroup _ _) fun _ ↦ .bind (.ofExcept _) fun _ ↦ .pure _

theorem silent_refreshGroupMembers (i : ℕ) : Within K (refreshGroupMembers p i) :=
  .bind silent_memory fun _ ↦ .bind silent_nowUnix fun _ ↦ silent_refreshMlsIdentities _ _

theorem silent_removeRevoked (id : IdentityId) (i : ℕ) : Within K (removeRevoked p id i) := by
  refine .bind silent_memory fun inner ↦ ?_
  split
  · split
    · exact .pure _
    · split_ifs
      · exact .pure _
      · refine .bind (silent_onGroup _ _) fun answer ↦ ?_
        split
        · exact .pure _
        · refine .bind (.ofExcept _) fun body ↦ .bind (silent_groupAppend ..).attempt fun done ↦ ?_
          split
          · exact .bind silent_nowMs fun _ ↦ .bind (silent_onGroup _ _) fun _ ↦ .pure _
          · exact silent_onGroup _ _
  · exact .pure _

theorem silent_tryFlush (i : ℕ) : Within K (tryFlush p i) := by
  refine .bind silent_memory fun inner ↦ ?_
  split
  · exact .pure _
  · exact .bind (silent_flushMlsUpdate _ _).attempt fun _ ↦ .pure _

theorem silent_sendOwnContactCapability (peer : IdentityId) (now : UInt64) :
    Within K (sendOwnContactCapability p peer now) :=
  .bind (silent_sendHome _) fun _ ↦ .bind silent_session fun _ ↦ .bind (.ofExcept _) fun _ ↦
    silent_sendVia ..

theorem silent_sendOwnBindingGossip (peer : IdentityId) (now : UInt64) :
    Within K (sendOwnBindingGossip p peer now) :=
  .bind silent_session fun _ ↦ .bind (.ofExcept _) fun _ ↦ silent_sendVia ..

theorem silent_mintCard (bundle : ServerBundle) (now : UInt64) : Within K (mintCard p bundle now) :=
  .bind silent_drawKey fun _ ↦ .bind (silent_onInstall _) fun _ ↦ .bind silent_memory fun _ ↦
    .bind (.ofExcept _) fun _ ↦ .ofExcept _

theorem silent_maybeRotateSignedPrekey (now : UInt64) : Within K (maybeRotateSignedPrekey now) := by
  refine .bind silent_session fun s ↦ ?_
  split_ifs
  · exact .pure _
  · exact .bind silent_nowMs fun _ ↦ .bind (silent_onInstall _) fun _ ↦ .ofExcept _

theorem silent_publishPrekey : Within K publishPrekey :=
  .bind (silent_onInstall _) fun _ ↦ .bind (.ofExcept _) fun _ ↦ silent_sendHome _

theorem silent_restockLoop (target turns : ℕ) : Within K (restockLoop target turns) := by
  induction turns with
  | zero => exact .pure _
  | succ turns ih =>
    refine .bind silent_session fun s ↦ ?_
    split_ifs
    exacts [.bind silent_publishPrekey fun _ ↦ ih, .pure _]

theorem silent_restockPublishUpto (target : ℕ) : Within K (restockPublishUpto target) :=
  .bind silent_nowUnix fun _ ↦ .bind (silent_maybeRotateSignedPrekey _) fun _ ↦
    silent_restockLoop _ _

theorem silent_mintShareCard (now : UInt64) : Within K (mintShareCard p now) :=
  .bind (silent_sendHome _) fun _ ↦ .bind silent_session fun _ ↦ .ofExcept _

theorem silent_startSession (card : ContactCard) (prekey : SignedPrekey) (now : UInt64) :
    Within K (startSession p card prekey now) := by
  refine .bind (.ofExcept _) fun _ ↦ .bind (.ofExcept _) fun _ ↦ ?_
  split
  · exact .fail _
  · exact .fail _
  · refine .bind silent_session fun s ↦ ?_
    dsimp only
    split_ifs
    · exact .fail _
    · exact .bind (silent_ratchet _) fun _ ↦ .ofExcept _

theorem silent_addContactToSession (card : ContactCard) (capability : Key) (now : UInt64) :
    Within K (addContactToSession p card capability now) :=
  .bind silent_session fun _ ↦ .bind (silent_callOn _ _) fun _ ↦ .bind (.ofExcept _) fun _ ↦
    .bind (silent_callOn _ _) fun _ ↦ .bind (silent_startSession ..) fun _ ↦ silent_update _

theorem silent_coverIntervalMs (mode : PrivacyMode) : Within K (coverIntervalMs mode) := by
  cases mode with
  | high => exact .bind (.act trivial) fun _ ↦ .pure _
  | _ => exact .pure _

theorem silent_setPrivacy (mode : PrivacyMode) : Within K (setPrivacy mode) := by
  refine .bind silent_session fun _ ↦ .bind (silent_update _) fun _ ↦
    .bind (silent_coverIntervalMs _) fun wait ↦ ?_
  cases wait with
  | none => exact .pure _
  | some wait => exact .bind silent_nowMs fun _ ↦ silent_update _

theorem silent_pumpCover : Within K (pumpCover p) := by
  refine .bind silent_session fun s ↦ .bind (silent_coverIntervalMs _) fun wait ↦ ?_
  cases wait with
  | none => exact .pure _
  | some wait =>
    refine .bind silent_nowMs fun now ↦ ?_
    split_ifs
    · exact .pure _
    · exact .bind (silent_update _) fun _ ↦ .pure _
    · refine .bind (silent_update _) fun _ ↦ ?_
      split
      · exact .pure _
      · exact .bind (silent_wrap ..) fun _ ↦ .bind (silent_postOneEnvelope _ _) fun _ ↦ .pure _

theorem silent_fetchMailbox : Within K fetchMailbox :=
  .bind silent_session fun _ ↦ .bind (silent_send _ _) fun _ ↦ .bind (silent_update _) fun _ ↦
    .pure _

theorem silent_decryptAny (ciphertext : Bytes) (peers : List IdentityId) (last : CoreError) :
    Within K (decryptAny ciphertext peers last) := by
  induction peers generalizing last with
  | nil => exact .fail _
  | cons peer peers ih =>
    refine .bind (silent_ratchet _) fun answer ↦ ?_
    cases answer with
    | ok plaintext => exact .pure _
    | error e => exact ih e

theorem silent_decryptIncoming (inner : InnerEnvelope) (extraPeers : List IdentityId) :
    Within K (decryptIncoming p inner extraPeers) := by
  unfold decryptIncoming
  split_ifs
  · exact .fail _
  · refine .bind (.ofExcept _) fun ciphertext ↦ .bind silent_session fun s ↦ ?_
    dsimp only
    split
    · exact .bind (silent_ratchet _) fun _ ↦ .bind (.ofExcept _) fun _ ↦ .pure _
    · exact silent_decryptAny ..

theorem silent_moveFanouts (old : String) : Within K (moveFanouts old) := by
  refine .bind silent_session fun moved ↦ .forEach fun g ↦
    .bind (silent_sendHome _).attempt fun answer ↦ ?_
  cases answer with
  | error e => exact .pure _
  | ok capability => exact .bind (silent_send _ _).attempt fun _ ↦ .pure _

/-! ## What a silent program leaves alone -/

/-- The shell after an operation of a class. -/
theorem Op.shell_effect {β : Type} {o : Op β} (h : o.Within K)
    (w : World) : (o.effect p env w).2.inner.shell = w.inner.shell ∨
      ∃ f, K f ∧ (o.effect p env w).2.inner = { w.inner with shell := f w.inner.shell } := by
  cases o with
  | shell f => exact .inr ⟨f, h, rfl⟩
  | session update =>
    left
    simp only [Op.effect, Inner.mapSession]
    split <;> rfl
  | ratchet op =>
    left
    simp only [Op.effect]
    split <;> rfl
  | install op =>
    left
    simp only [Op.effect]
    split <;> rfl
  | group i op =>
    left
    simp only [Op.effect]
    split <;> rfl
  | nickname groupId name =>
    left
    simp only [Op.effect, Inner.setNickname]
    split <;> rfl
  | enroll host g name =>
    left
    simp only [Op.effect, Inner.enroll]
    split
    · rfl
    · simp only [Inner.mapSession, Inner.mapInstall]
      split <;> rfl
  | _ => exact .inl rfl

/-- An answer from the shell, and what comes after it. -/
theorem run_withShell_bind {α β : Type} (f : Shell → α × Shell) (next : α → SessionM β)
    (w : World) :
    run (inside p env) (withShell f >>= next) w =
      run (inside p env) (next (f w.inner.shell).1)
        { w with
          inner := { w.inner with shell := (f w.inner.shell).2 }
          tick := w.tick + 2 } := rfl

/-- A silent program leaves the shell as it was. -/
theorem shell_run {α : Type} {q : SessionM α} (h : Silent q) (w : World) :
    (run (inside p env) q w).2.inner.shell = w.inner.shell := by
  have hkeeps : Program.Keeps (inside p env) (fun u ↦ u.inner.shell = w.inner.shell) q := by
    refine h.keeps fun o u ho hu ↦ ?_
    rcases @Op.shell_effect p env _ _ _ ho u with hsame | ⟨f, hf, -⟩
    · exact hsame.trans hu
    · exact hf.elim
  exact hkeeps.run_end rfl

end

end NemoMessenger.Client
