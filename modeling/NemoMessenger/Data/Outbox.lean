import NemoMessenger.Data.Run
import Mathlib.Data.List.Perm.Basic

/-!
# A shared outbox

Calls put messages into an outbox they share. Each call sleeps for a while, then takes all that is in
the outbox and posts it, one message after the other; a failed post ends the call, with what is left
of its batch. The steps of the calls come in any order. Every message is posted once, is still in the
outbox, is in the batch of a call, or was left by a call that failed; and a message that is in the
outbox has its own call asleep, so that none stays behind.
-/

namespace NemoMessenger.Data

/-- How far a call has come. It returns the reply to its last post. -/
inductive OutboxCall (A R E : Type)
  | asleep
  | posting (batch : List (ℕ × A)) (last : R)
  | returned (result : Except E R)

/-- The calls with the outbox, whose messages carry the numbers of their calls. What has been posted
and what was left behind by a failure is recorded. -/
structure Outbox (A R E : Type) where
  messages : List A
  calls : List (OutboxCall A R E)
  waiting : List (ℕ × A)
  posts : List ((ℕ × A) × Except E R)
  left : List (ℕ × A)

/-- A step: a call begins, with the outbox or past it, wakes up, or hears what came of its post. -/
inductive OutboxStep (A R E : Type)
  | post (message : A)
  | direct (message : A)
  | wake (call : ℕ)
  | hear (call : ℕ) (answer : Except E R)

variable {A R E : Type}

namespace OutboxCall

/-- What is left of a batch, once it is known what came of the posts before. -/
def next (batch : List (ℕ × A)) (last : R) : OutboxCall A R E :=
  if batch.isEmpty then returned (.ok last) else posting batch last

/-- What a call has in hand. -/
def batch : OutboxCall A R E → List (ℕ × A)
  | posting batch _ => batch
  | asleep | returned _ => []

/-- The call has returned. -/
def Done : OutboxCall A R E → Prop
  | returned _ => True
  | asleep | posting _ _ => False

/-- The call has a post on the way. -/
def isPosting : OutboxCall A R E → Bool
  | posting _ _ => true
  | asleep | returned _ => false

@[simp] theorem batch_next (messages : List (ℕ × A)) (last : R) :
    (next messages last : OutboxCall A R E).batch = messages := by
  unfold next
  cases messages <;> rfl

end OutboxCall

namespace Outbox

/-- An outbox without calls. -/
def empty : Outbox A R E := ⟨[], [], [], [], []⟩

end Outbox

/-- The state after a step; a step of a call that has not come to it changes nothing, and a call with
nothing to post returns `idle`. -/
def OutboxStep.apply (idle : R) (s : Outbox A R E) : OutboxStep A R E → Outbox A R E
  | post message =>
    { s with
      messages := s.messages ++ [message]
      calls := s.calls ++ [.asleep]
      waiting := s.waiting ++ [(s.calls.length, message)] }
  | direct message =>
    { s with
      messages := s.messages ++ [message]
      calls := s.calls ++ [.posting [(s.calls.length, message)] idle] }
  | wake call =>
    match s.calls[call]? with
    | some .asleep => { s with calls := s.calls.set call (.next s.waiting idle), waiting := [] }
    | _ => s
  | hear call answer =>
    match s.calls[call]? with
    | some (.posting (first :: batch) _) =>
      match answer with
      | .ok reply =>
        { s with
          calls := s.calls.set call (.next batch reply)
          posts := s.posts ++ [(first, .ok reply)] }
      | .error e =>
        { s with
          calls := s.calls.set call (.returned (.error e))
          posts := s.posts ++ [(first, .error e)]
          left := s.left ++ batch }
    | _ => s

/-! ## Where a message is -/

namespace Outbox

/-- What the calls have in hand. -/
def inHand (s : Outbox A R E) : List (ℕ × A) := s.calls.flatMap OutboxCall.batch

/-- The messages of all calls, with the numbers of their calls. -/
def numbered (messages : List A) : List (ℕ × A) := messages.zipIdx.map Prod.swap

/-- No post has failed. -/
def Unfailed (s : Outbox A R E) : Prop := ∀ entry ∈ s.posts, ∃ reply, entry.2 = .ok reply

/-- A call has returned an error. -/
def Errs (s : Outbox A R E) : Prop := ∃ e, .returned (.error e) ∈ s.calls

/-- The invariant of the outbox. -/
structure Accounted (s : Outbox A R E) : Prop where
  length : s.calls.length = s.messages.length
  placed : (s.posts.map Prod.fst ++ s.waiting ++ s.inHand ++ s.left).Perm (numbered s.messages)
  asleep : ∀ message ∈ s.waiting, s.calls[message.1]? = some .asleep
  kept : s.Unfailed → s.left = []
  failed : s.Unfailed ∨ s.Errs
  holding : ∀ call ∈ s.calls, call.Done ∨ call = .asleep ∨ call.batch ≠ []

/-! ## One step -/

section Step

variable {idle : R} {s : Outbox A R E} {call : ℕ}

theorem numbered_append (messages : List A) (message : A) :
    numbered (messages ++ [message]) = numbered messages ++ [(messages.length, message)] := by
  rw [numbered, List.zipIdx_append, List.map_append, Nat.zero_add]
  rfl

/-- Replacing one call exchanges what is in its hand. -/
theorem flatMap_set_perm {B C : Type} (f : B → List C) {l : List B} {i : ℕ} {b : B}
    (h : l[i]? = some b) (b' : B) : ((l.set i b').flatMap f ++ f b).Perm (l.flatMap f ++ f b') := by
  induction l generalizing i with
  | nil => cases h
  | cons head l ih =>
    cases i with
    | zero =>
      obtain rfl := Option.some.inj h
      rw [List.set_cons_zero, List.flatMap_cons, List.flatMap_cons]
      calc
        (f b' ++ l.flatMap f ++ f head).Perm (f head ++ (f b' ++ l.flatMap f)) :=
          List.perm_append_comm
        List.Perm _ (f head ++ (l.flatMap f ++ f b')) := List.perm_append_comm.append_left _
        _ = f head ++ l.flatMap f ++ f b' := (List.append_assoc _ _ _).symm
    | succ i =>
      rw [List.set_cons_succ, List.flatMap_cons, List.flatMap_cons, List.append_assoc,
        List.append_assoc]
      exact (ih h).append_left _

theorem done_next (batch : List (ℕ × A)) (last : R) :
    (OutboxCall.next batch last : OutboxCall A R E).Done ∨
      (OutboxCall.next batch last : OutboxCall A R E) = .asleep ∨
      (OutboxCall.next batch last : OutboxCall A R E).batch ≠ [] := by
  cases batch with
  | nil => exact .inl trivial
  | cons first batch => exact .inr (.inr (List.cons_ne_nil _ _))

theorem getElem?_append_of_eq_some {B : Type} {l : List B} {i : ℕ} {b : B} (h : l[i]? = some b)
    (more : List B) : (l ++ more)[i]? = some b := by
  rw [List.getElem?_append_left (List.getElem?_eq_some_iff.mp h).1, h]

/-- A call that has returned an error stays as it is. -/
theorem errs_set (herr : s.Errs) {now : OutboxCall A R E} (hcall : s.calls[call]? = some now)
    (hnow : ∀ e, now ≠ .returned (.error e)) (next : OutboxCall A R E) :
    ∃ e, .returned (.error e) ∈ s.calls.set call next := by
  obtain ⟨e, he⟩ := herr
  obtain ⟨i, hi⟩ := List.mem_iff_getElem?.mp he
  have hne : call ≠ i := by
    rintro rfl
    exact hnow e (Option.some.inj (hcall.symm.trans hi))
  exact ⟨e, List.mem_of_getElem? ((List.getElem?_set_ne hne).trans hi)⟩

theorem accounted_post (h : s.Accounted) (message : A) :
    ((OutboxStep.post message : OutboxStep A R E).apply idle s).Accounted where
  length := by
    dsimp only [OutboxStep.apply]
    rw [List.length_append, List.length_append, h.length]
    rfl
  placed := by
    dsimp only [OutboxStep.apply, inHand]
    rw [numbered_append, List.flatMap_append, h.length]
    calc
      List.Perm _ (s.posts.map Prod.fst ++ s.waiting ++ s.inHand ++ s.left ++
          [(s.messages.length, message)]) := by
        simp only [List.append_assoc]
        refine List.Perm.append_left _ (List.Perm.append_left _ ?_)
        exact List.perm_append_comm.trans (by simp [inHand, OutboxCall.batch])
      List.Perm _ _ := h.placed.append_right _
  asleep other hother := by
    dsimp only [OutboxStep.apply] at hother ⊢
    rcases List.mem_append.mp hother with hold | hnew
    · have hat := h.asleep other hold
      exact getElem?_append_of_eq_some hat _
    · obtain rfl := List.mem_singleton.mp hnew
      exact List.getElem?_concat_length
  kept := h.kept
  failed := h.failed.imp id (Exists.imp fun _ ↦ List.mem_append_left _)
  holding call hcall := by
    rcases List.mem_append.mp hcall with hold | hnew
    · exact h.holding call hold
    · exact .inr (.inl (List.mem_singleton.mp hnew))

theorem accounted_direct (h : s.Accounted) (message : A) :
    ((OutboxStep.direct message : OutboxStep A R E).apply idle s).Accounted where
  length := by
    dsimp only [OutboxStep.apply]
    rw [List.length_append, List.length_append, h.length]
    rfl
  placed := by
    dsimp only [OutboxStep.apply, inHand]
    rw [numbered_append, List.flatMap_append, h.length]
    calc
      List.Perm _ (s.posts.map Prod.fst ++ s.waiting ++ s.inHand ++ s.left ++
          [(s.messages.length, message)]) := by
        simp only [List.append_assoc]
        refine List.Perm.append_left _ (List.Perm.append_left _ (List.Perm.append_left _ ?_))
        exact List.perm_append_comm
      List.Perm _ _ := h.placed.append_right _
  asleep other hother := getElem?_append_of_eq_some (h.asleep other hother) _
  kept := h.kept
  failed := h.failed.imp id (Exists.imp fun _ ↦ List.mem_append_left _)
  holding call hcall := by
    rcases List.mem_append.mp hcall with hold | hnew
    · exact h.holding call hold
    · rw [List.mem_singleton.mp hnew]
      exact .inr (.inr (List.cons_ne_nil _ _))

theorem accounted_wake (h : s.Accounted) (hcall : s.calls[call]? = some .asleep) :
    ({ s with calls := s.calls.set call (.next s.waiting idle), waiting := [] } :
      Outbox A R E).Accounted where
  length := by rw [List.length_set, h.length]
  placed := by
    have hset := flatMap_set_perm OutboxCall.batch hcall (.next s.waiting idle)
    rw [OutboxCall.batch_next, OutboxCall.batch, List.append_nil] at hset
    dsimp only [inHand]
    rw [List.append_nil]
    calc
      List.Perm _ (s.posts.map Prod.fst ++ (s.inHand ++ s.waiting) ++ s.left) :=
        (hset.append_left _).append_right _
      List.Perm _ (s.posts.map Prod.fst ++ (s.waiting ++ s.inHand) ++ s.left) :=
        (List.perm_append_comm.append_left _).append_right _
      List.Perm _ _ := by
        rw [← List.append_assoc]
        exact h.placed
  asleep _ hother := absurd hother List.not_mem_nil
  kept := h.kept
  failed := h.failed.imp id fun herr ↦ errs_set herr hcall (by simp) _
  holding other hother := by
    rcases List.mem_or_eq_of_mem_set hother with hold | rfl
    · exact h.holding other hold
    · exact done_next _ _

/-- A call that is not asleep goes on. -/
theorem asleep_set (h : s.Accounted) {batch : List (ℕ × A)} {last : R}
    (hcall : s.calls[call]? = some (.posting batch last)) (next : OutboxCall A R E)
    (message : ℕ × A) (hmessage : message ∈ s.waiting) :
    (s.calls.set call next)[message.1]? = some .asleep := by
  have hne : call ≠ message.1 := by
    intro heq
    have hat := h.asleep message hmessage
    rw [← heq, hcall] at hat
    cases hat
  rw [List.getElem?_set_ne hne]
  exact h.asleep message hmessage

/-- The first message of a batch is posted, and `later` leaves the hand of the call with it. -/
theorem placed_posted (h : s.Accounted) {first : ℕ × A} {inHand later : List (ℕ × A)}
    (hset : (inHand ++ (first :: later)).Perm s.inHand) :
    (s.posts.map Prod.fst ++ [first] ++ s.waiting ++ inHand ++ (s.left ++ later)).Perm
      (numbered s.messages) := by
  calc
    List.Perm _ (s.posts.map Prod.fst ++ s.waiting ++ ([first] ++ (inHand ++ (s.left ++ later)))) := by
      simp only [List.append_assoc]
      refine List.Perm.append_left _ ?_
      rw [← List.append_assoc, ← List.append_assoc s.waiting]
      exact List.perm_append_comm.append_right _
    List.Perm _ (s.posts.map Prod.fst ++ s.waiting ++ (inHand ++ (first :: later) ++ s.left)) := by
      refine List.Perm.append_left _ ?_
      calc
        List.Perm _ (inHand ++ (s.left ++ later) ++ [first]) := List.perm_append_comm
        _ = inHand ++ (s.left ++ (later ++ [first])) := by simp only [List.append_assoc]
        List.Perm _ (inHand ++ (s.left ++ (first :: later))) :=
          (List.perm_append_comm.append_left _).append_left _
        List.Perm _ (inHand ++ ((first :: later) ++ s.left)) := List.perm_append_comm.append_left _
        _ = inHand ++ (first :: later) ++ s.left := (List.append_assoc _ _ _).symm
    List.Perm _ (s.posts.map Prod.fst ++ s.waiting ++ (s.inHand ++ s.left)) :=
      (hset.append_right _).append_left _
    List.Perm _ _ := by
      rw [← List.append_assoc]
      exact h.placed

theorem accounted_answered (h : s.Accounted) {first : ℕ × A} {batch : List (ℕ × A)}
    {last : R} (hcall : s.calls[call]? = some (.posting (first :: batch) last)) (reply : R) :
    ({ s with
        calls := s.calls.set call (.next batch reply)
        posts := s.posts ++ [(first, .ok reply)] } : Outbox A R E).Accounted where
  length := by rw [List.length_set, h.length]
  placed := by
    have hset := flatMap_set_perm OutboxCall.batch hcall (.next batch reply)
    rw [OutboxCall.batch_next] at hset
    have hfirst : (((s.calls.set call (.next batch reply)).flatMap OutboxCall.batch ++
        [first]) ++ batch).Perm (s.inHand ++ batch) := by
      rw [List.append_assoc]
      exact hset
    have hplaced := placed_posted h ((List.perm_append_right_iff batch).mp hfirst)
    rw [List.append_nil] at hplaced
    dsimp only
    rw [List.map_append]
    exact hplaced
  asleep := asleep_set h hcall _
  kept hunfailed := h.kept fun entry hentry ↦ hunfailed entry (List.mem_append_left _ hentry)
  failed := by
    rcases h.failed with hunfailed | herr
    · refine .inl fun entry hentry ↦ ?_
      rcases List.mem_append.mp hentry with hold | hnew
      · exact hunfailed entry hold
      · rw [List.mem_singleton.mp hnew]
        exact ⟨reply, rfl⟩
    · exact .inr (errs_set herr hcall (by simp) _)
  holding other hother := by
    rcases List.mem_or_eq_of_mem_set hother with hold | rfl
    · exact h.holding other hold
    · exact done_next _ _

theorem accounted_failed (h : s.Accounted) {first : ℕ × A} {batch : List (ℕ × A)}
    {last : R} (hcall : s.calls[call]? = some (.posting (first :: batch) last)) (e : E) :
    ({ s with
        calls := s.calls.set call (.returned (.error e))
        posts := s.posts ++ [(first, .error e)]
        left := s.left ++ batch } : Outbox A R E).Accounted where
  length := by rw [List.length_set, h.length]
  placed := by
    have hset := flatMap_set_perm OutboxCall.batch hcall (.returned (.error e))
    rw [OutboxCall.batch, OutboxCall.batch, List.append_nil] at hset
    dsimp only
    rw [List.map_append]
    exact placed_posted h hset
  asleep := asleep_set h hcall _
  kept hunfailed := by
    obtain ⟨reply, hreply⟩ := hunfailed (first, .error e)
      (List.mem_append_right _ (List.mem_singleton_self _))
    cases hreply
  failed := .inr ⟨e, List.mem_set (List.getElem?_eq_some_iff.mp hcall).1 _⟩
  holding other hother := by
    rcases List.mem_or_eq_of_mem_set hother with hold | rfl
    · exact h.holding other hold
    · exact .inl trivial

theorem accounted_apply (h : s.Accounted) (step : OutboxStep A R E) : (step.apply idle s).Accounted := by
  cases step with
  | post message => exact accounted_post h message
  | direct message => exact accounted_direct h message
  | wake call =>
    dsimp only [OutboxStep.apply]
    split
    · exact accounted_wake h ‹_›
    · exact h
  | hear call answer =>
    dsimp only [OutboxStep.apply]
    split
    · rename_i hcall
      cases answer with
      | ok reply => exact accounted_answered h hcall reply
      | error e => exact accounted_failed h hcall e
    · exact h

theorem accounted_empty : (empty : Outbox A R E).Accounted where
  length := rfl
  placed := .refl _
  asleep _ h := absurd h List.not_mem_nil
  kept _ := rfl
  failed := .inl fun _ h ↦ absurd h List.not_mem_nil
  holding _ h := absurd h List.not_mem_nil

/-- When all calls have returned, nothing waits. -/
theorem Accounted.waiting_eq_nil (h : s.Accounted) (hdone : ∀ call ∈ s.calls, call.Done) :
    s.waiting = [] := by
  refine List.eq_nil_iff_forall_not_mem.mpr fun message hmessage ↦ ?_
  exact hdone _ (List.mem_of_getElem? (h.asleep message hmessage))

theorem inHand_eq_nil (hdone : ∀ call ∈ s.calls, call.Done) : s.inHand = [] := by
  refine List.flatMap_eq_nil_iff.mpr fun call hcall ↦ ?_
  have hreturned := hdone call hcall
  cases call with
  | returned result => rfl
  | asleep | posting => exact hreturned.elim

/-- When all calls have returned, every message has been posted once or was left by a call that
failed. -/
theorem Accounted.posted (h : s.Accounted) (hdone : ∀ call ∈ s.calls, call.Done) :
    (s.posts.map Prod.fst ++ s.left).Perm (numbered s.messages) := by
  have hplaced := h.placed
  rw [h.waiting_eq_nil hdone, inHand_eq_nil hdone, List.append_nil, List.append_nil] at hplaced
  exact hplaced

/-- When no call has returned an error, every post has been answered. -/
theorem Accounted.unfailed (h : s.Accounted) (hok : ¬ s.Errs) : s.Unfailed :=
  h.failed.resolve_right hok

end Step

end Outbox

end NemoMessenger.Data
