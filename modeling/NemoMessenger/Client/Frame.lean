import NemoMessenger.Client.Calm
import NemoMessenger.Client.Shared

/-!
# Parts of the memory that a program leaves alone

Most of what a client does is messaging: it looks at its session and changes fields of it, seals
messages, and sends requests. Such a program does not touch the shell, the groups or the prekeys, and
it hands over no commit and no prekey. Others touch the shell, but not the part one is looking at:
`Frames view` says so of a program, for whatever the view shows of the shell.
-/

namespace NemoMessenger.Client

open NemoMessenger.Data NemoMessenger.Wire
open Program (Only)

/-- The request offers a staged commit to the host. -/
def Request.offersCommit : Request → Bool
  | admitPending .. => true
  | groupAppend _ _ type _ => type = .mlsHandshake || type = .removeBundle
  | _ => false

/-- The request hands over a commit or a prekey of the client. -/
def Request.entrusts : Request → Bool
  | publishPrekey _ => true
  | request => request.offersCommit

theorem Request.offersCommit_of_entrusts {request : Request} (h : request.entrusts = false) :
    request.offersCommit = false := by
  cases request with
  | publishPrekey blob => cases h
  | _ => exact h

/-- The operation works on the session, seals messages, or sends a request that entrusts nothing. -/
def Op.Messaging : (β : Type) → Op β → Prop
  | _, memory | _, session _ | _, ratchet (.encrypt ..) | _, clock | _, draw | _, uniform .. => True
  | _, send _ request => request.entrusts = false
  | _, _ => False

/-- The program performs only such operations. -/
abbrev Messaging {α : Type} (q : SessionM α) : Prop := Only Op.Messaging q

variable {p : Outside} {α : Type}

/-! ## Single actions -/

@[grind ←] theorem messaging_memory : Messaging memory := .act trivial

@[grind ←] theorem messaging_session : Messaging session := by grind [session]

@[grind ←] theorem messaging_update (u : SessionUpdate) : Messaging (update u) := .act trivial

@[grind ←] theorem messaging_encrypt (peer : IdentityId) (plaintext : Bytes) :
    Messaging (ratchet (.encrypt peer plaintext)) := by
  refine .bind (.act trivial) fun answer ↦ ?_
  cases answer
  exacts [.fail _, .pure _]

@[grind ←] theorem messaging_nowMs : Messaging nowMs := .act trivial

@[grind ←] theorem messaging_nowUnix : Messaging nowUnix := by grind [nowUnix]

@[grind ←] theorem messaging_drawKey : Messaging drawKey := .bind (.act trivial) fun _ ↦ .pure _

@[grind ←] theorem messaging_send (origin : String) {request : Request}
    (h : request.entrusts = false) : Messaging (send origin request) :=
  .bind (.act h) fun _ ↦ .ofExcept _

@[grind ←] theorem messaging_sendHome {request : Request} (h : request.entrusts = false) :
    Messaging (sendHome request) :=
  .bind messaging_session fun _ ↦ messaging_send _ h

@[grind ←] theorem messaging_callOn (origin : String) {request : Request}
    (h : request.entrusts = false) : Messaging (callOn p origin request) := by
  refine .bind messaging_session fun s ↦ ?_
  dsimp only
  split_ifs
  · exact messaging_send _ h
  · split
    exacts [messaging_send _ h, .fail _]

@[grind ←] theorem messaging_callGroup {groupId : Key} {request : Request}
    (h : request.entrusts = false) : Messaging (callGroup p groupId request) :=
  .bind messaging_session fun _ ↦ messaging_send _ h

/-! ## Sending -/

@[grind ←] theorem messaging_refreshContact (peer : IdentityId) (now : UInt64) :
    Messaging (refreshContact p peer now) := by
  refine .bind messaging_session fun s ↦ .bind (messaging_callOn _ rfl) fun disc ↦
    .bind (.ofExcept _) fun _ ↦ ?_
  split
  · exact .fail _
  · split_ifs
    · exact .bind (messaging_update _) fun _ ↦ .fail _
    · exact .bind (.ofExcept _) fun _ ↦ messaging_update _

@[grind ←] theorem messaging_checkDiscoveryNotRevoked (identity : IdentityId) (now : UInt64) :
    Messaging (checkDiscoveryNotRevoked p identity now) := by
  refine .bind messaging_session fun s ↦ .bind (messaging_callOn _ rfl).attempt fun answer ↦ ?_
  split
  · exact .bind (.ofExcept _) fun _ ↦ .ofExcept _
  · split_ifs
    exacts [.pure _, .fail _]
  · exact .fail _

@[grind ←] theorem messaging_identityIsRevoked (identity : IdentityId) (now : UInt64) :
    Messaging (identityIsRevoked p identity now) := by
  refine .bind (messaging_checkDiscoveryNotRevoked _ _).attempt fun answer ↦ ?_
  split <;> exact .pure _

@[grind ←] theorem messaging_refreshIdleDiscovery (now : UInt64) (ids : List IdentityId) :
    Messaging (refreshIdleDiscovery p now ids) := by
  induction ids with
  | nil => exact .pure _
  | cons id ids ih =>
    refine .bind messaging_session fun s ↦ ?_
    split
    · exact ih
    · split_ifs
      · exact ih
      · refine .bind (messaging_refreshContact _ _).attempt fun answer ↦ ?_
        split
        · exact .bind ih fun _ ↦ .pure _
        · exact ih

@[grind ←] theorem messaging_wrap (destHpke capability : Key) (ttlBucket : TtlBucket)
    (type : MessageType) (body : Bytes) :
    Messaging (wrap p destHpke capability ttlBucket type body) :=
  .bind messaging_drawKey fun _ ↦ .bind (.ofExcept _) fun _ ↦ .bind messaging_drawKey fun _ ↦
    .bind (.ofExcept _) fun _ ↦ .pure _

@[grind ←] theorem messaging_encryptToMailbox (type : MessageType) (peer : IdentityId)
    (destHpke capability : Key) (ttlBucket : TtlBucket) (plaintext : Bytes) :
    Messaging (encryptToMailbox p type peer destHpke capability ttlBucket plaintext) :=
  .bind (messaging_encrypt ..) fun sealed ↦ .bind (.ofExcept sealed) fun _ ↦ messaging_wrap ..

@[grind ←] theorem messaging_postOneEnvelope (outer : Outgoing) (cover : Bool) :
    Messaging (postOneEnvelope outer cover) := by
  refine .bind messaging_session fun s ↦ .bind (.act rfl) fun answer ↦ ?_
  split
  · exact .fail _
  · exact .fail _
  · split_ifs
    · exact .ofExcept _
    · exact .bind messaging_nowMs fun _ ↦ .bind (messaging_update _) fun _ ↦ .ofExcept _

@[grind ←] theorem messaging_postAll (outers : List Outgoing) (last : Option UInt64) :
    Messaging (postAll outers last) := by
  induction outers generalizing last with
  | nil => exact .pure _
  | cons outer outers ih => exact .bind (messaging_postOneEnvelope _ _) fun _ ↦ ih _

@[grind ←] theorem messaging_flushPrivateOutbox : Messaging flushPrivateOutbox :=
  .bind messaging_session fun _ ↦ .bind (messaging_update _) fun _ ↦ messaging_postAll _ _

@[grind ←] theorem messaging_postEnvelopeMaybeBatch (outer : Outgoing) (batch : Bool) :
    Messaging (postEnvelopeMaybeBatch outer batch) := by
  grind [postEnvelopeMaybeBatch]

theorem messaging_sealAndPost (type : MessageType) (batch : Bool) (peer : IdentityId)
    (ttlBucket : TtlBucket) (plaintext : Bytes) : Messaging (do
      let s ← session
      match s.contacts.lookup peer with
      | none => Program.fail .unknownContact
      | some contact =>
        if contact.revoked then Program.fail .revoked
        else
          let outer ← encryptToMailbox p type peer contact.destHpke contact.deliveryCapability
            ttlBucket plaintext
          let _ ← postEnvelopeMaybeBatch outer batch) := by
  refine .bind messaging_session fun s ↦ ?_
  split
  · exact .fail _
  · split_ifs
    · exact .fail _
    · exact .bind (messaging_encryptToMailbox _ _ _ _ _ _) fun _ ↦
        .bind (messaging_postEnvelopeMaybeBatch _ _) fun _ ↦ .pure _

@[grind ←] theorem messaging_sendVia (type : MessageType) (batch : Bool) (peer : IdentityId)
    (ttlBucket : TtlBucket) (plaintext : Bytes) (now : UInt64) :
    Messaging (sendVia p type batch peer ttlBucket plaintext now) := by
  refine .bind messaging_session fun s ↦ ?_
  split
  · exact .fail _
  · split_ifs
    · exact .fail _
    · exact .bind (messaging_refreshContact _ _) fun _ ↦ messaging_sealAndPost ..
    · exact messaging_sealAndPost ..

/-! ## Plain programs -/

/-- The operation works on the shell, or is messaging. -/
def Op.Plain : (β : Type) → Op β → Prop
  | _, shell _ => True
  | _, o => o.Messaging

/-- The program performs only such operations. -/
abbrev Plain (q : SessionM α) : Prop := Only Op.Plain q

theorem Op.Messaging.plain {β : Type} {o : Op β} (h : o.Messaging) : o.Plain := by
  cases o with
  | shell f => trivial
  | _ => exact h

theorem Messaging.plain {q : SessionM α} (h : Messaging q) : Plain q :=
  h.mono fun _ _ ↦ Op.Messaging.plain

theorem plain_withShell (f : Shell → α × Shell) : Plain (withShell f) :=
  .bind messaging_memory.plain fun _ ↦ .bind (.act trivial) fun _ ↦ .pure _

/-! ## Views of the shell -/

variable {γ : Type} {view : Shell → γ}

/-- The operation leaves what the view shows of the shell alone. -/
def Op.Frames (view : Shell → γ) : (β : Type) → Op β → Prop
  | _, shell f => ∀ s, view (f s) = view s
  | _, _ => True

/-- The program performs only such operations. -/
abbrev Frames (view : Shell → γ) (q : SessionM α) : Prop := Only (Op.Frames view) q

/-! ## The shell afterwards -/

@[simp] theorem Inner.shell_mapSession (inner : Inner) (f : HomeSession → HomeSession) :
    (inner.mapSession f).shell = inner.shell := by
  unfold mapSession
  split <;> rfl

/-- No operation but those on the shell touches it. -/
theorem Op.view_effect {env : Environment} {β : Type} {o : Op β} (h : Op.Frames view β o)
    (w : World) : view (o.effect p env w).2.inner.shell = view w.inner.shell := by
  cases o with
  | shell f => exact h w.inner.shell
  | session update => exact congrArg view (w.inner.shell_mapSession _)
  | ratchet op =>
    simp only [Op.effect]
    split <;> rfl
  | install op =>
    simp only [Op.effect]
    split <;> rfl
  | group i op =>
    simp only [Op.effect]
    split <;> rfl
  | nickname groupId name =>
    simp only [Op.effect, Inner.setNickname]
    split <;> rfl
  | enroll host g name =>
    simp only [Op.effect, Inner.enroll]
    split
    · rfl
    · exact congrArg view (w.inner.shell_mapSession _)
  | _ => rfl

/-- What such a program leaves. -/
theorem view_run_of_frames {env : Environment} {q : SessionM α} (h : Frames view q) (w : World) :
    view (Program.run (inside p env) q w).2.inner.shell = view w.inner.shell := by
  have hkeeps : Program.Keeps (inside p env) (fun u ↦ view u.inner.shell = view w.inner.shell) q :=
    h.keeps fun o u ho hu ↦ (Op.view_effect ho u).trans hu
  exact hkeeps.run_end rfl

/-- What follows a program may be such a program. -/
theorem view_run_bind {env : Environment} {β : Type} {q : SessionM β} {f : β → SessionM α}
    (hf : ∀ b, Frames view (f b)) (w : World) :
    view (Program.run (inside p env) (q >>= f) w).2.inner.shell =
      view (Program.run (inside p env) q w).2.inner.shell := by
  rw [Program.run_bind]
  split
  · next b u hq =>
    rw [hq]
    exact view_run_of_frames (hf b) u
  · next e u hq => rw [hq]

/-! ## Programs that leave the view alone -/

theorem Op.Messaging.frames {β : Type} {o : Op β} (h : o.Messaging) : o.Frames view := by
  cases o with
  | shell f => exact h.elim
  | _ => trivial

/-- Messaging does not touch the shell. -/
@[grind ←] theorem Messaging.frames {q : SessionM α} (h : Messaging q) : Frames view q :=
  h.mono fun _ _ ↦ Op.Messaging.frames

theorem frames_onShell {f : Shell → Shell} (h : ∀ s, view (f s) = view s) :
    Frames view (onShell f) := .act h

theorem frames_withShell {f : Shell → α × Shell} (h : ∀ s, view (f s).2 = view s) :
    Frames view (withShell f) :=
  .bind messaging_memory.frames fun _ ↦ .bind (frames_onShell h) fun _ ↦ .pure _

/-- Beside the number it takes and the row it may show, `emit_call` touches no part of the shell. -/
theorem frames_emitCall {peerHex : String} (body : AppBody) (kind : RowKind) (now : UInt64)
    (echo : Bool) (hseq : ∀ s, view (s.bumpSeq peerHex).2 = view s)
    (hrow : ∀ (s : Shell) seq id, view (s.pushControl peerHex seq now kind id 0 true).2 = view s) :
    Frames view (emitCall p peerHex body kind now echo) := by
  refine .bind (frames_withShell hseq) fun seq ↦ .bind (.ofExcept _) fun ptext ↦
    .bind (.ofExcept _) fun peer ↦ .bind (messaging_sendVia _ _ _ _ _ _).frames fun _ ↦ ?_
  split_ifs
  · exact frames_withShell fun s ↦ hrow s _ _
  · exact .pure _

end NemoMessenger.Client
