import NemoMessenger.Client.Inside
import NemoMessenger.Data.Outbox

/-!
# Overlapping posts

`post_envelope` borrows its session, so that several calls can be on the way at once. In the private
modes they share `pending_outers`: each pushes its envelope, sleeps, and then takes all that is
pending and posts it, up to the first error. Here the calls go step by step, in any order, on the
outbox of a session; a call that nothing interrupts is the program of the session.
-/

namespace NemoMessenger.Client

open NemoMessenger.Data NemoMessenger.Wire
open Program (run_bind act fail)

/-- What overlapping calls share of a session: its outbox, and the time of the last traffic. -/
structure SharedOutbox where
  privacy : PrivacyMode
  lastRealMs : ℕ
  outbox : Outbox Outgoing (Option UInt64) CoreError

/-- A step of the calls: one begins, wakes up, or hears of the request it has sent. -/
inductive PostStep
  | postEnvelope (outer : Outgoing)
  | postEnvelopeNow (outer : Outgoing)
  | wake (call : ℕ)
  | hear (call : ℕ) (answer : Except CoreError (Option UInt64)) (nowMs : ℕ)

/-- The request got a signed answer, of whatever kind. -/
def heard : Except CoreError (Option UInt64) → Bool
  | .error (.transport _) | .error .unsignedResponse => false
  | _ => true

namespace SharedOutbox

/-- A session without pending envelopes. -/
def new (privacy : PrivacyMode) (lastRealMs : ℕ) : SharedOutbox := ⟨privacy, lastRealMs, .empty⟩

/-- Where a call of the session stands. -/
def call? (s : SharedOutbox) (call : ℕ) : Option (OutboxCall Outgoing (Option UInt64) CoreError) :=
  s.outbox.calls[call]?

/-- A step of the outbox; a call that finds nothing pending returns `Queued`. -/
def step (s : SharedOutbox) (step : OutboxStep Outgoing (Option UInt64) CoreError) : SharedOutbox :=
  { s with outbox := step.apply none s.outbox }

/-- `post_envelope_maybe_batch`, up to its first `await`. -/
def begin_ (s : SharedOutbox) (outer : Outgoing) (batch : Bool) : SharedOutbox :=
  s.step (if batch && s.privacy.batches then .post outer else .direct outer)

end SharedOutbox

/-- `post_envelope`, `post_envelope_now`, `flush_private_outbox` once the delay is over, and
`post_one_envelope` once its request is answered. -/
def PostStep.apply (s : SharedOutbox) : PostStep → SharedOutbox
  | postEnvelope outer => s.begin_ outer true
  | postEnvelopeNow outer => s.begin_ outer false
  | wake call => s.step (.wake call)
  | hear call answer nowMs =>
    let real := (s.call? call).any OutboxCall.isPosting && heard answer
    { s.step (.hear call answer) with lastRealMs := if real then nowMs else s.lastRealMs }

/-! ## In any order -/

/-- Every step is a step of the outbox. -/
theorem outbox_apply (s : SharedOutbox) (step : PostStep) :
    ∃ o : OutboxStep Outgoing (Option UInt64) CoreError,
      (step.apply s).outbox = o.apply none s.outbox := by
  cases step with
  | postEnvelope outer => exact ⟨if true && s.privacy.batches then .post outer else .direct outer, rfl⟩
  | postEnvelopeNow outer => exact ⟨.direct outer, rfl⟩
  | wake call => exact ⟨.wake call, rfl⟩
  | hear call answer nowMs => exact ⟨.hear call answer, rfl⟩

theorem accounted_outbox (privacy : PrivacyMode) (lastRealMs : ℕ) (steps : List PostStep) :
    (run PostStep.apply (.new privacy lastRealMs) steps).outbox.Accounted := by
  refine run_keeps (fun s : SharedOutbox ↦ s.outbox.Accounted) ?_ Outbox.accounted_empty steps
  intro s step h
  obtain ⟨o, ho⟩ := outbox_apply s step
  rw [ho]
  exact Outbox.accounted_apply h o

/-- The envelope a step brings. -/
def PostStep.outer? : PostStep → Option Outgoing
  | postEnvelope outer | postEnvelopeNow outer => some outer
  | wake _ | hear _ _ _ => none

theorem messages_apply (s : SharedOutbox) (step : PostStep) :
    (step.apply s).outbox.messages = s.outbox.messages ++ step.outer?.toList := by
  cases step with
  | postEnvelope outer | postEnvelopeNow outer =>
    dsimp only [PostStep.apply, SharedOutbox.begin_, SharedOutbox.step]
    split_ifs <;> rfl
  | wake call =>
    dsimp only [PostStep.apply, SharedOutbox.step, OutboxStep.apply, PostStep.outer?]
    split <;> exact (List.append_nil _).symm
  | hear call answer nowMs =>
    dsimp only [PostStep.apply, SharedOutbox.step, OutboxStep.apply, PostStep.outer?]
    split
    · cases answer <;> exact (List.append_nil _).symm
    · exact (List.append_nil _).symm

theorem messages_run (s : SharedOutbox) (steps : List PostStep) :
    (run PostStep.apply s steps).outbox.messages =
      s.outbox.messages ++ steps.filterMap PostStep.outer? := by
  induction steps generalizing s with
  | nil => exact (List.append_nil _).symm
  | cons step steps ih =>
    calc
      (run PostStep.apply (step.apply s) steps).outbox.messages =
          (step.apply s).outbox.messages ++ steps.filterMap PostStep.outer? := ih _
      _ = s.outbox.messages ++ (step.outer?.toList ++ steps.filterMap PostStep.outer?) := by
        rw [messages_apply, List.append_assoc]
      _ = s.outbox.messages ++ (step :: steps).filterMap PostStep.outer? := by
        rw [List.filterMap_cons]
        cases step.outer? <;> rfl

/-- However the calls overlap and whatever their posts come to, every envelope is posted once, waits
for its own call to wake up, is in the batch of a call, or was left by a call that returned an error.
When all calls have returned, nothing waits, and when all have returned `Ok`, every envelope was
posted once and accepted. -/
theorem overlapping_posts (privacy : PrivacyMode) (lastRealMs : ℕ) (steps : List PostStep) :
    let s := (run PostStep.apply (.new privacy lastRealMs) steps).outbox
    let begun := Outbox.numbered (steps.filterMap PostStep.outer?)
    (s.posts.map Prod.fst ++ s.waiting ++ s.inHand ++ s.left).Perm begun ∧
      (∀ message ∈ s.waiting, s.calls[message.1]? = some .asleep) ∧
      ((∀ call ∈ s.calls, call.Done) →
        (s.posts.map Prod.fst ++ s.left).Perm begun ∧
          (¬ s.Errs → (s.posts.map Prod.fst).Perm begun ∧ s.Unfailed)) := by
  intro s begun
  have h : s.Accounted := accounted_outbox privacy lastRealMs steps
  have hbegun : Outbox.numbered s.messages = begun :=
    congrArg Outbox.numbered (messages_run (.new privacy lastRealMs) steps)
  refine ⟨hbegun ▸ h.placed, h.asleep, fun hdone ↦ ?_⟩
  have hposted := hbegun ▸ h.posted hdone
  refine ⟨hposted, fun hok ↦ ⟨?_, h.unfailed hok⟩⟩
  rw [h.kept (h.unfailed hok), List.append_nil] at hposted
  exact hposted

/-! ## A call that nothing interrupts -/

/-- The outbox and the times of a session, and the same of its calls. -/
structure Agrees (hs : HomeSession) (s : SharedOutbox) : Prop where
  privacy : hs.privacy = s.privacy
  lastReal : hs.lastRealMs = s.lastRealMs
  pending : hs.pendingOuters = s.outbox.waiting.map Prod.snd

/-- What a post leaves in the log. -/
def postEvent (base : String) (post : (ℕ × Outgoing) × Except CoreError (Option UInt64)) : Event :=
  .sent base (.postEnvelope post.1.2)

/-- The call has gone its way: the world and the shared outbox have come to the same. -/
structure Gone (call : ℕ) (base : String) (w : World) (s : SharedOutbox)
    (result : Except CoreError (Option UInt64)) (w' : World) (s' : SharedOutbox) : Prop where
  session : ∃ hs, w'.inner.session? = some hs ∧ hs.homeBase = base ∧ Agrees hs s'
  returned : s'.call? call = some (.returned result)
  posts : ∃ posts, s'.outbox.posts = s.outbox.posts ++ posts ∧
    w'.log = w.log ++ posts.map (postEvent base)

/-- A step that only goes on with a call. -/
def PostStep.GoesOn (call : ℕ) : PostStep → Prop
  | wake c | hear c _ _ => c = call
  | _ => False

section Uninterrupted

variable {p : Outside} {env : Environment} {w : World} {hs : HomeSession} {s : SharedOutbox}

/-- A request leaves the process, and a signed answer counts as traffic. -/
theorem run_postOneEnvelope (hsession : w.inner.session? = some hs) (outer : Outgoing) :
    ∃ w' t, Program.run (inside p env) (postOneEnvelope outer false) w =
        (env.answer (w.tick + 1) hs.homeBase (.postEnvelope outer), w') ∧
      w'.inner.session? = some { hs with
        lastRealMs :=
          if heard (env.answer (w.tick + 1) hs.homeBase (.postEnvelope outer)) then t
          else hs.lastRealMs } ∧
      w'.log = w.log ++ [.sent hs.homeBase (.postEnvelope outer)] := by
  unfold postOneEnvelope
  rw [run_session_bind hsession, run_bind, run_op]
  dsimp only [Op.effect, World.ticked]
  generalize env.answer (w.tick + 1) hs.homeBase (.postEnvelope outer) = answer
  split
  · exact ⟨_, 0, rfl, hsession, rfl⟩
  · exact ⟨_, 0, rfl, hsession, rfl⟩
  · rename_i htransport hunsigned
    have hheard : heard answer = true := by
      unfold heard
      split
      · exact absurd rfl (htransport _)
      · exact absurd rfl hunsigned
      · rfl
    rw [hheard]
    refine ⟨_, env.clock (w.tick + 1 + 1), Program.run_ofExcept _ _, ?_, rfl⟩
    calc
      _ = w.inner.session?.map (SessionUpdate.lastReal (env.clock (w.tick + 1 + 1))).apply :=
        Inner.session?_mapSession _ _
      _ = _ := by
        rw [hsession]
        rfl

/-- An answered post: the call has its envelope behind it. -/
structure Heard (call : ℕ) (answer : Except CoreError (Option UInt64)) (nowMs : ℕ)
    (first : ℕ × Outgoing) (batch : List (ℕ × Outgoing)) (s s' : SharedOutbox) : Prop where
  privacy : s'.privacy = s.privacy
  lastReal : s'.lastRealMs = if heard answer then nowMs else s.lastRealMs
  waiting : s'.outbox.waiting = s.outbox.waiting
  posts : s'.outbox.posts = s.outbox.posts ++ [(first, answer)]
  ok : ∀ reply, answer = .ok reply → s'.call? call = some (.next batch reply)
  error : ∀ e, answer = .error e → s'.call? call = some (.returned (.error e))

theorem heard_hear {call : ℕ} {first : ℕ × Outgoing} {batch : List (ℕ × Outgoing)}
    {last : Option UInt64} (hcall : s.call? call = some (.posting (first :: batch) last))
    (answer : Except CoreError (Option UInt64)) (nowMs : ℕ) :
    Heard call answer nowMs first batch s ((PostStep.hear call answer nowMs).apply s) := by
  have hat : s.outbox.calls[call]? = some (.posting (first :: batch) last) := hcall
  have hset (next : OutboxCall Outgoing (Option UInt64) CoreError) :
      (s.outbox.calls.set call next)[call]? = some next :=
    List.getElem?_set_self (List.getElem?_eq_some_iff.mp hat).1
  have hreal : (PostStep.hear call answer nowMs).apply s =
      { s.step (.hear call answer) with
        lastRealMs := if heard answer then nowMs else s.lastRealMs } := by
    dsimp only [PostStep.apply]
    rw [hcall]
    rfl
  rw [hreal]
  cases answer with
  | ok reply =>
    have hstep : (s.step (.hear call (.ok reply))).outbox = { s.outbox with
        calls := s.outbox.calls.set call (.next batch reply)
        posts := s.outbox.posts ++ [(first, .ok reply)] } := by
      dsimp only [SharedOutbox.step, OutboxStep.apply]
      rw [hat]
    exact {
      privacy := rfl
      lastReal := rfl
      waiting := by rw [hstep]
      posts := by rw [hstep]
      ok := fun _ h ↦ by
        obtain rfl := Except.ok.inj h
        dsimp only [SharedOutbox.call?]
        rw [hstep]
        exact hset _
      error := fun _ h ↦ by cases h }
  | error e =>
    have hstep : (s.step (.hear call (.error e))).outbox = { s.outbox with
        calls := s.outbox.calls.set call (.returned (.error e))
        posts := s.outbox.posts ++ [(first, .error e)]
        left := s.outbox.left ++ batch } := by
      dsimp only [SharedOutbox.step, OutboxStep.apply]
      rw [hat]
    exact {
      privacy := rfl
      lastReal := rfl
      waiting := by rw [hstep]
      posts := by rw [hstep]
      ok := fun _ h ↦ by cases h
      error := fun _ h ↦ by
        obtain rfl := Except.error.inj h
        dsimp only [SharedOutbox.call?]
        rw [hstep]
        exact hset _ }

/-- Posting what is left of a batch, up to the first error. -/
theorem gone_postAll (hsession : w.inner.session? = some hs) (hagrees : Agrees hs s) {call : ℕ}
    {batch : List (ℕ × Outgoing)} {last : Option UInt64}
    (hcall : s.call? call = some (.next batch last)) :
    ∃ steps : List PostStep, (∀ step ∈ steps, step.GoesOn call) ∧
      Gone call hs.homeBase w s
        (Program.run (inside p env) (postAll (batch.map Prod.snd) last) w).1
        (Program.run (inside p env) (postAll (batch.map Prod.snd) last) w).2
        (run PostStep.apply s steps) := by
  induction batch generalizing w hs s last with
  | nil =>
    refine ⟨[], fun _ h ↦ absurd h List.not_mem_nil, ⟨hs, hsession, rfl, hagrees⟩, hcall, [], ?_, ?_⟩
    · exact (List.append_nil _).symm
    · exact (List.append_nil _).symm
  | cons first batch ih =>
    obtain ⟨w', t, hrun, hsession', hlog⟩ := @run_postOneEnvelope p env w hs hsession first.2
    generalize env.answer (w.tick + 1) hs.homeBase (.postEnvelope first.2) = answer at hrun hsession'
    have hheard := heard_hear hcall answer t
    have hagrees' : Agrees { hs with lastRealMs := if heard answer then t else hs.lastRealMs }
        ((PostStep.hear call answer t).apply s) := {
      privacy := hagrees.privacy.trans hheard.privacy.symm
      lastReal := by rw [hheard.lastReal, hagrees.lastReal]
      pending := by rw [hheard.waiting, ← hagrees.pending] }
    cases answer with
    | ok reply =>
      obtain ⟨steps, hgo, hgone⟩ := ih hsession' hagrees' (hheard.ok reply rfl)
      have hrun' : Program.run (inside p env) (postAll ((first :: batch).map Prod.snd) last) w =
          Program.run (inside p env) (postAll (batch.map Prod.snd) reply) w' :=
        Program.run_bind_of_ok hrun
      rw [hrun']
      refine ⟨.hear call (.ok reply) t :: steps, List.forall_mem_cons.mpr ⟨rfl, hgo⟩, hgone.session,
        hgone.returned, ?_⟩
      obtain ⟨posts, hposts, hlog'⟩ := hgone.posts
      refine ⟨(first, .ok reply) :: posts, ?_, ?_⟩
      · calc
          _ = ((PostStep.hear call (.ok reply) t).apply s).outbox.posts ++ posts := hposts
          _ = s.outbox.posts ++ (first, .ok reply) :: posts := by
            rw [hheard.posts, List.append_assoc]
            rfl
      · rw [hlog', hlog, List.append_assoc]
        rfl
    | error e =>
      have hrun' : Program.run (inside p env) (postAll ((first :: batch).map Prod.snd) last) w =
          (.error e, w') := Program.run_bind_of_error hrun
      rw [hrun']
      exact ⟨[.hear call (.error e) t], List.forall_mem_singleton.mpr rfl,
        ⟨_, hsession', rfl, hagrees'⟩, hheard.error e rfl, [(first, .error e)], hheard.posts, hlog⟩

/-- One post of its own. -/
theorem run_postAll_single (outer : Outgoing) (last : Option UInt64) (w : World) :
    Program.run (inside p env) (postAll [outer] last) w =
      Program.run (inside p env) (postOneEnvelope outer false) w := by
  dsimp only [postAll]
  rw [run_bind]
  split
  · rename_i hrun
    rw [hrun, Program.run_pure]
  · rename_i hrun
    exact hrun.symm

theorem session?_update (hsession : w.inner.session? = some hs) (u : SessionUpdate) :
    (World.ticked { w with inner := w.inner.mapSession u.apply }).inner.session? =
      some (u.apply hs) := by
  rw [World.inner_ticked, Inner.session?_mapSession, hsession]
  rfl

theorem session?_ticked (hsession : w.inner.session? = some hs) :
    w.ticked.inner.session? = some hs := hsession

/-- What happened before the first request leaves no trace. -/
theorem Gone.of_start {call : ℕ} {base : String} {w₁ w' : World} {s₁ s' : SharedOutbox}
    {result : Except CoreError (Option UInt64)} (h : Gone call base w₁ s₁ result w' s')
    (hlog : w₁.log = w.log) (hposts : s₁.outbox.posts = s.outbox.posts) :
    Gone call base w s result w' s' where
  session := h.session
  returned := h.returned
  posts := hlog ▸ hposts ▸ h.posts

/-- A call that does not batch. -/
theorem gone_direct (hsession : w.inner.session? = some hs) (hagrees : Agrees hs s)
    (outer : Outgoing) :
    ∃ steps : List PostStep, (∀ step ∈ steps, step.GoesOn s.outbox.calls.length) ∧
      Gone s.outbox.calls.length hs.homeBase w s
        (Program.run (inside p env) (postOneEnvelope outer false) w).1
        (Program.run (inside p env) (postOneEnvelope outer false) w).2
        (run PostStep.apply (s.step (.direct outer)) steps) := by
  have hcall : (s.step (.direct outer)).call? s.outbox.calls.length =
      some (.next [(s.outbox.calls.length, outer)] none) := List.getElem?_concat_length
  have hbegun : Agrees hs (s.step (.direct outer)) :=
    ⟨hagrees.privacy, hagrees.lastReal, hagrees.pending⟩
  obtain ⟨steps, hgo, hgone⟩ := @gone_postAll p env _ _ _ hsession hbegun _ _ _ hcall
  rw [List.map_singleton, run_postAll_single] at hgone
  exact ⟨steps, hgo, hgone.of_start rfl rfl⟩

/-- A call that batches: it finds its own envelope and all that were pending. -/
theorem gone_flush (hsession : w.inner.session? = some hs) (hagrees : Agrees hs s)
    (outer : Outgoing) :
    ∃ steps : List PostStep, (∀ step ∈ steps, step.GoesOn s.outbox.calls.length) ∧
      Gone s.outbox.calls.length hs.homeBase w s
        (Program.run (inside p env)
          (update (.pendingOuters (hs.pendingOuters ++ [outer])) >>= fun _ ↦ flushPrivateOutbox) w).1
        (Program.run (inside p env)
          (update (.pendingOuters (hs.pendingOuters ++ [outer])) >>= fun _ ↦ flushPrivateOutbox) w).2
        (run PostStep.apply (s.step (.post outer)) steps) := by
  have hasleep : (s.step (.post outer)).outbox.calls[s.outbox.calls.length]? = some .asleep :=
    List.getElem?_concat_length
  have hwoken : ((s.step (.post outer)).step (.wake s.outbox.calls.length)).outbox =
      { (s.step (.post outer)).outbox with
        calls := (s.step (.post outer)).outbox.calls.set s.outbox.calls.length
          (.next (s.outbox.waiting ++ [(s.outbox.calls.length, outer)]) none)
        waiting := [] } := by
    dsimp only [SharedOutbox.step, OutboxStep.apply] at hasleep ⊢
    rw [hasleep]
  have hcall : ((s.step (.post outer)).step (.wake s.outbox.calls.length)).call?
      s.outbox.calls.length =
        some (.next (s.outbox.waiting ++ [(s.outbox.calls.length, outer)]) none) := by
    dsimp only [SharedOutbox.call?]
    rw [hwoken]
    exact List.getElem?_set_self (List.getElem?_eq_some_iff.mp hasleep).1
  have hpending : (s.outbox.waiting ++ [(s.outbox.calls.length, outer)]).map Prod.snd =
      hs.pendingOuters ++ [outer] := by
    rw [List.map_append, ← hagrees.pending]
    rfl
  have hwaiting : Agrees { hs with pendingOuters := [] }
      ((s.step (.post outer)).step (.wake s.outbox.calls.length)) := by
    refine ⟨hagrees.privacy, hagrees.lastReal, ?_⟩
    rw [hwoken]
    rfl
  rw [run_update_bind]
  unfold flushPrivateOutbox
  rw [run_session_bind (session?_update hsession _), run_update_bind]
  have htaken := session?_update (session?_ticked (session?_update hsession
    (.pendingOuters (hs.pendingOuters ++ [outer])))) (.pendingOuters [])
  obtain ⟨steps, hgo, hgone⟩ := @gone_postAll p env _ _ _ htaken hwaiting _ _ _ hcall
  rw [hpending] at hgone
  exact ⟨.wake s.outbox.calls.length :: steps, List.forall_mem_cons.mpr ⟨rfl, hgo⟩,
    hgone.of_start rfl (by rw [hwoken]; rfl)⟩

/-- A `post_envelope` or `post_envelope_now` that nothing interrupts is one of the interleavings: its
program and its steps return the same, send the same requests in the same order and leave the same
outbox, time of the last traffic and mode. -/
theorem uninterrupted_post (hsession : w.inner.session? = some hs) (hagrees : Agrees hs s)
    (outer : Outgoing) (batch : Bool) :
    ∃ steps : List PostStep, (∀ step ∈ steps, step.GoesOn s.outbox.calls.length) ∧
      Gone s.outbox.calls.length hs.homeBase w s
        (Program.run (inside p env) (postEnvelopeMaybeBatch outer batch) w).1
        (Program.run (inside p env) (postEnvelopeMaybeBatch outer batch) w).2
        (run PostStep.apply s
          ((if batch then .postEnvelope outer else .postEnvelopeNow outer) :: steps)) := by
  have hbegin : (if batch then PostStep.postEnvelope outer else .postEnvelopeNow outer).apply s =
      s.begin_ outer batch := by cases batch <;> rfl
  have hrun : Program.run (inside p env) (postEnvelopeMaybeBatch outer batch) w =
      Program.run (inside p env)
        (if batch && hs.privacy.batches then
          update (.pendingOuters (hs.pendingOuters ++ [outer])) >>= fun _ ↦ flushPrivateOutbox
        else postOneEnvelope outer false) w.ticked := run_session_bind hsession _
  change ∃ steps : List PostStep, _ ∧ Gone _ _ _ _ _ _ (run PostStep.apply (PostStep.apply s _) steps)
  rw [hrun, hbegin]
  unfold SharedOutbox.begin_
  rw [← hagrees.privacy]
  split
  · obtain ⟨steps, hgo, hgone⟩ :=
      @gone_flush p env _ _ _ (session?_ticked hsession) hagrees outer
    exact ⟨steps, hgo, hgone.of_start rfl rfl⟩
  · obtain ⟨steps, hgo, hgone⟩ :=
      @gone_direct p env _ _ _ (session?_ticked hsession) hagrees outer
    exact ⟨steps, hgo, hgone.of_start rfl rfl⟩

end Uninterrupted

/-- A session in the private mode. -/
def HomeSession.secluded : HomeSession := { HomeSession.acquainted with privacy := .private_ }

/-- A client with that session. -/
def World.secluded : World :=
  { World.acquainted with inner := .empty (some (.registered .secluded)) true none }

/-- An envelope for the contact of that client. -/
def Outgoing.hello : Outgoing :=
  ⟨.replicate 32 0, .replicate 32 1, .default, .doubleRatchet, [0]⟩

theorem uninterrupted_post_secluded :
    ∃ steps : List PostStep, (∀ step ∈ steps, step.GoesOn 0) ∧
      Gone 0 "https://home" .secluded (.new .private_ 0)
        (Program.run (inside .transparent .silent) (postEnvelopeMaybeBatch .hello true) .secluded).1
        (Program.run (inside .transparent .silent) (postEnvelopeMaybeBatch .hello true) .secluded).2
        (run PostStep.apply (.new .private_ 0) (.postEnvelope .hello :: steps)) :=
  uninterrupted_post (w := .secluded) (s := .new .private_ 0)
    (show World.secluded.inner.session? = some .secluded from rfl) ⟨rfl, rfl, rfl⟩ .hello true

end NemoMessenger.Client
