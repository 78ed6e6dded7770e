import Mathlib.Data.Nat.Notation

/-!
# Programs that can be cut off

A program performs actions one after the other; what it does next depends on the answers, and it may
fail on the way. A machine gives the actions their meaning: from a state, an action has an answer and
leaves a state. `run` takes a program to its end. `Visits` relates the state a program starts from to
every state on the way, so that "in whatever state the program is cut off" is a statement about
visited states. What every action keeps, every visited state has.
-/

namespace NemoMessenger.Data

universe u v w

/-- A program over actions `A`: it returns, fails, or performs an action and goes on. -/
inductive Program (A : Type → Type u) (E α : Type) : Type (max u 1)
  | pure (a : α)
  | fail (e : E)
  | perform {β : Type} (action : A β) (next : β → Program A E α)

/-- The meaning of the actions. -/
structure Machine (A : Type → Type u) (S : Type v) where
  step : ∀ {β : Type}, A β → S → β × S

namespace Program

variable {A : Type → Type u} {E α β : Type} {S : Type v}

protected def bind : Program A E α → (α → Program A E β) → Program A E β
  | pure a, f => f a
  | fail e, _ => fail e
  | perform action next, f => perform action fun b ↦ (next b).bind f

instance : Monad (Program A E) where
  pure := pure
  bind := Program.bind

/-- A single action. -/
def act (action : A α) : Program A E α := perform action pure

/-- The program that ends as a computed result says. -/
def ofExcept : Except E α → Program A E α
  | .ok a => pure a
  | .error e => fail e

/-- Hand the failure of a program to what comes after it. -/
def attempt : Program A E α → Program A E (Except E α)
  | pure a => pure (.ok a)
  | fail e => pure (.error e)
  | perform action next => perform action fun b ↦ (next b).attempt

/-- `for a in as { f(a) }`. -/
def forEach (f : β → Program A E Unit) : List β → Program A E Unit
  | [] => pure ()
  | b :: bs => (f b).bind fun _ ↦ forEach f bs

theorem bind_bind {γ : Type} (p : Program A E α) (f : α → Program A E β)
    (g : β → Program A E γ) : p >>= f >>= g = p >>= fun a ↦ f a >>= g := by
  induction p with
  | pure a => rfl
  | fail e => rfl
  | perform action next ih => exact congrArg (perform action) (funext ih)

/-! ## Running to the end -/

/-- The result of a program and the state it leaves. -/
def run (machine : Machine A S) : Program A E α → S → Except E α × S
  | pure a, s => (.ok a, s)
  | fail e, s => (.error e, s)
  | perform action next, s => run machine (next (machine.step action s).1) (machine.step action s).2

variable {machine : Machine A S}

@[simp] theorem run_pure (a : α) (s : S) :
    run machine (Pure.pure a : Program A E α) s = (.ok a, s) := rfl

@[simp] theorem run_fail (e : E) (s : S) :
    run machine (fail e : Program A E α) s = (.error e, s) := rfl

@[simp] theorem run_act (action : A α) (s : S) :
    run machine (act action : Program A E α) s =
      (.ok (machine.step action s).1, (machine.step action s).2) := rfl

@[simp] theorem run_ofExcept (x : Except E α) (s : S) :
    run machine (ofExcept x : Program A E α) s = (x, s) := by
  cases x <;> rfl

theorem run_ofExcept_eq_ok {x : Except E α} {s t : S} {a : α} :
    run machine (ofExcept x : Program A E α) s = (.ok a, t) ↔ x = .ok a ∧ t = s := by
  rw [run_ofExcept, Prod.mk.injEq, eq_comm (a := s)]

theorem run_bind (p : Program A E α) (f : α → Program A E β) (s : S) :
    run machine (p >>= f) s = match run machine p s with
      | (.ok a, s') => run machine (f a) s'
      | (.error e, s') => (.error e, s') := by
  induction p generalizing s with
  | pure a => rfl
  | fail e => rfl
  | perform action next ih => exact ih _ _

theorem run_bind_of_ok {p : Program A E α} {f : α → Program A E β} {s s' : S} {a : α}
    (h : run machine p s = (.ok a, s')) : run machine (p >>= f) s = run machine (f a) s' := by
  rw [run_bind, h]

theorem run_bind_of_error {p : Program A E α} {f : α → Program A E β} {s s' : S} {e : E}
    (h : run machine p s = (.error e, s')) : run machine (p >>= f) s = (.error e, s') := by
  rw [run_bind, h]

theorem run_attempt (p : Program A E α) (s : S) :
    run machine p.attempt s = (.ok (run machine p s).1, (run machine p s).2) := by
  induction p generalizing s with
  | pure a => rfl
  | fail e => rfl
  | perform action next ih => exact ih _ _

/-- A program that goes on to the end has gone through its first part. -/
theorem run_bind_eq_ok {p : Program A E α} {f : α → Program A E β} {s t : S} {b : β} :
    run machine (p >>= f) s = (.ok b, t) ↔
      ∃ a s', run machine p s = (.ok a, s') ∧ run machine (f a) s' = (.ok b, t) := by
  rw [run_bind]
  constructor
  · intro h
    split at h
    · rename_i a s' hp
      exact ⟨a, s', hp, h⟩
    · cases h
  · rintro ⟨a, s', hp, hf⟩
    rw [hp]
    exact hf

/-- Two machines that answer alike on related states run a program alike. -/
theorem run_related {T : Type w} {other : Machine A T} {R : S → T → Prop}
    (hstep : ∀ {γ : Type} (action : A γ) {s : S} {t : T}, R s t →
      (machine.step action s).1 = (other.step action t).1 ∧
        R (machine.step action s).2 (other.step action t).2)
    (p : Program A E α) {s : S} {t : T} (h : R s t) :
    (run machine p s).1 = (run other p t).1 ∧ R (run machine p s).2 (run other p t).2 := by
  induction p generalizing s t with
  | pure a => exact ⟨rfl, h⟩
  | fail e => exact ⟨rfl, h⟩
  | perform action next ih =>
    obtain ⟨hanswer, hleft⟩ := hstep action h
    simp only [run]
    rw [← hanswer]
    exact ih _ hleft

/-! ## States on the way -/

/-- `t` is a state in which the program started in `s` can be cut off. -/
def Visits (machine : Machine A S) : Program A E α → S → S → Prop
  | pure _, s, t => t = s
  | fail _, s, t => t = s
  | perform action next, s, t =>
    t = s ∨ Visits machine (next (machine.step action s).1) (machine.step action s).2 t

theorem visits_start (p : Program A E α) (s : S) : Visits machine p s s := by
  cases p with
  | pure a => exact rfl
  | fail e => exact rfl
  | perform action next => exact .inl rfl

theorem visits_end (p : Program A E α) (s : S) : Visits machine p s (run machine p s).2 := by
  induction p generalizing s with
  | pure a => exact rfl
  | fail e => exact rfl
  | perform action next ih => exact .inr (ih _ _)

@[simp] theorem visits_pure {a : α} {s t : S} :
    Visits machine (Pure.pure a : Program A E α) s t ↔ t = s := Iff.rfl

@[simp] theorem visits_fail {e : E} {s t : S} :
    Visits machine (fail e : Program A E α) s t ↔ t = s := Iff.rfl

@[simp] theorem visits_act {action : A α} {s t : S} :
    Visits machine (act action : Program A E α) s t ↔ t = s ∨ t = (machine.step action s).2 :=
  Iff.rfl

/-- A sequence is cut off in its first part, or after it. -/
theorem visits_bind {p : Program A E α} {f : α → Program A E β} {s t : S} :
    Visits machine (p >>= f) s t ↔ Visits machine p s t ∨
      ∃ a s', run machine p s = (.ok a, s') ∧ Visits machine (f a) s' t := by
  induction p generalizing s with
  | pure a =>
    constructor
    · exact fun h ↦ .inr ⟨a, s, rfl, h⟩
    · rintro (h | ⟨a', s', heq, h⟩)
      · rw [visits_pure.mp h]
        exact visits_start _ _
      · cases heq
        exact h
  | fail e =>
    constructor
    · exact fun h ↦ .inl h
    · rintro (h | ⟨a', s', heq, -⟩)
      · exact h
      · cases heq
  | perform action next ih =>
    constructor
    · rintro (h | h)
      · exact .inl (.inl h)
      · rcases ih _ |>.mp h with hfirst | hlater
        · exact .inl (.inr hfirst)
        · exact .inr hlater
    · rintro ((h | h) | hlater)
      · exact .inl h
      · exact .inr ((ih _).mpr (.inl h))
      · exact .inr ((ih _).mpr (.inr hlater))

/-- The state the program started in `s` leaves when it is cut off after `n` actions. -/
def cut (machine : Machine A S) : ℕ → Program A E α → S → S
  | 0, _, s => s
  | _ + 1, pure _, s => s
  | _ + 1, fail _, s => s
  | n + 1, perform action next, s =>
    cut machine n (next (machine.step action s).1) (machine.step action s).2

theorem visits_cut (n : ℕ) (p : Program A E α) (s : S) : Visits machine p s (cut machine n p s) := by
  induction n generalizing p s with
  | zero => exact visits_start p s
  | succ n ih =>
    cases p with
    | pure a => exact rfl
    | fail e => exact rfl
    | perform action next => exact .inr (ih _ _)

theorem visits_attempt {p : Program A E α} {s t : S} :
    Visits machine p.attempt s t ↔ Visits machine p s t := by
  induction p generalizing s with
  | pure a => exact Iff.rfl
  | fail e => exact Iff.rfl
  | perform action next ih => exact or_congr_right (ih _)

/-- What every action keeps holds in every state on the way. -/
theorem Visits.keeps (Inv : S → Prop)
    (hact : ∀ {γ : Type} (action : A γ) (s : S), Inv s → Inv (machine.step action s).2)
    {p : Program A E α} {s t : S} (h : Visits machine p s t) (hs : Inv s) : Inv t := by
  induction p generalizing s with
  | pure a =>
    rw [visits_pure.mp h]
    exact hs
  | fail e =>
    rw [visits_fail.mp h]
    exact hs
  | perform action next ih =>
    rcases h with rfl | h
    · exact hs
    · exact ih _ h (hact action s hs)

/-- What every action keeps, a run to the end keeps. -/
theorem run_keeps (Inv : S → Prop)
    (hact : ∀ {γ : Type} (action : A γ) (s : S), Inv s → Inv (machine.step action s).2)
    (p : Program A E α) {s : S} (hs : Inv s) : Inv (run machine p s).2 :=
  (visits_end p s).keeps Inv hact hs

/-! ## Actions on the way -/

/-- Started in `s`, the program comes to perform, in `t`, an action that `P` holds of. -/
def Performs (machine : Machine A S) (P : ∀ γ : Type, A γ → Prop) : Program A E α → S → S → Prop
  | pure _, _, _ => False
  | fail _, _, _ => False
  | perform action next, s, t =>
    P _ action ∧ t = s ∨
      Performs machine P (next (machine.step action s).1) (machine.step action s).2 t

variable {P : ∀ γ : Type, A γ → Prop}

@[simp] theorem performs_pure {a : α} {s t : S} :
    ¬Performs machine P (Pure.pure a : Program A E α) s t := id

@[simp] theorem performs_fail {e : E} {s t : S} :
    ¬Performs machine P (fail e : Program A E α) s t := id

theorem performs_bind {p : Program A E α} {f : α → Program A E β} {s t : S} :
    Performs machine P (p >>= f) s t ↔ Performs machine P p s t ∨
      ∃ a s', run machine p s = (.ok a, s') ∧ Performs machine P (f a) s' t := by
  induction p generalizing s with
  | pure a =>
    constructor
    · exact fun h ↦ .inr ⟨a, s, rfl, h⟩
    · rintro (h | ⟨a', s', heq, h⟩)
      · exact absurd h performs_pure
      · cases heq
        exact h
  | fail e =>
    constructor
    · exact fun h ↦ .inl h
    · rintro (h | ⟨a', s', heq, -⟩)
      · exact h
      · cases heq
  | perform action next ih =>
    constructor
    · rintro (h | h)
      · exact .inl (.inl h)
      · rcases ih _ |>.mp h with hfirst | hlater
        · exact .inl (.inr hfirst)
        · exact .inr hlater
    · rintro ((h | h) | hlater)
      · exact .inl h
      · exact .inr ((ih _).mpr (.inl h))
      · exact .inr ((ih _).mpr (.inr hlater))

/-- Wherever the program is cut off, what held at its start holds. -/
def Keeps (machine : Machine A S) (Inv : S → Prop) (p : Program A E α) : Prop :=
  ∀ s t, Inv s → Visits machine p s t → Inv t

namespace Keeps

variable {Inv : S → Prop}

@[simp] theorem pure (a : α) : Keeps machine Inv (Pure.pure a : Program A E α) := by
  intro s t hs ht
  rw [visits_pure.mp ht]
  exact hs

@[simp] theorem fail (e : E) : Keeps machine Inv (Program.fail e : Program A E α) := by
  intro s t hs ht
  rw [visits_fail.mp ht]
  exact hs

theorem act {action : A α} (h : ∀ s, Inv s → Inv (machine.step action s).2) :
    Keeps machine Inv (act action : Program A E α) := by
  intro s t hs ht
  rcases visits_act.mp ht with rfl | rfl
  · exact hs
  · exact h s hs

@[simp] theorem ofExcept (x : Except E α) :
    Keeps machine Inv (Program.ofExcept x : Program A E α) := by
  cases x
  · exact fail _
  · exact pure _

theorem bind {p : Program A E α} {f : α → Program A E β} (hp : Keeps machine Inv p)
    (hf : ∀ a, Keeps machine Inv (f a)) : Keeps machine Inv (p >>= f) := by
  intro s t hs ht
  rcases visits_bind.mp ht with hfirst | ⟨a, s', hrun, hlater⟩
  · exact hp s t hs hfirst
  · have hend : Inv (run machine p s).2 := hp s _ hs (visits_end p s)
    rw [hrun] at hend
    exact hf a s' t hend hlater

theorem attempt {p : Program A E α} (hp : Keeps machine Inv p) :
    Keeps machine Inv p.attempt :=
  fun s t hs ht ↦ hp s t hs (visits_attempt.mp ht)

theorem forEach {f : β → Program A E Unit} {bs : List β}
    (hf : ∀ b ∈ bs, Keeps machine Inv (f b)) : Keeps machine Inv (forEach f bs) := by
  induction bs with
  | nil => exact pure _
  | cons b bs ih =>
    exact bind (hf b List.mem_cons_self) fun _ ↦ ih fun b' hb' ↦ hf b' (List.mem_cons_of_mem _ hb')

/-- What every action keeps, every program keeps. -/
theorem of_act (hact : ∀ {γ : Type} (action : A γ) (s : S), Inv s → Inv (machine.step action s).2)
    (p : Program A E α) : Keeps machine Inv p :=
  fun _ _ hs ht ↦ ht.keeps Inv hact hs

/-- A program whose first part keeps what the second needs. -/
theorem run_bind {Post : S → Prop} {p : Program A E α} {f : α → Program A E β}
    (hp : Keeps machine Inv p) {s : S} (hs : Inv s) (hstop : ∀ t, Inv t → Post t)
    (hnext : ∀ a t, run machine p s = (.ok a, t) → Inv t → Post (run machine (f a) t).2) :
    Post (run machine (p >>= f) s).2 := by
  have hend : Inv (run machine p s).2 := hp s _ hs (visits_end p s)
  rw [Program.run_bind]
  generalize hr : run machine p s = r at hend hnext
  obtain ⟨answer, t⟩ := r
  cases answer with
  | ok a => exact hnext a t rfl hend
  | error e => exact hstop t hend

/-- The same, for a program that is cut off anywhere. -/
theorem visits_bind {Post : S → Prop} {p : Program A E α} {f : α → Program A E β}
    (hp : Keeps machine Inv p) (hstop : ∀ t, Inv t → Post t)
    (hnext : ∀ a s t, Inv s → Visits machine (f a) s t → Post t) {s t : S} (hs : Inv s)
    (ht : Visits machine (p >>= f) s t) : Post t := by
  rcases Program.visits_bind.mp ht with hfirst | ⟨a, s', hrun, hlater⟩
  · exact hstop t (hp s t hs hfirst)
  · have hend : Inv (run machine p s).2 := hp s _ hs (visits_end p s)
    rw [hrun] at hend
    exact hnext a s' t hend hlater

theorem run_end {p : Program A E α} (hp : Keeps machine Inv p) {s : S} (hs : Inv s) :
    Inv (run machine p s).2 := hp s _ hs (visits_end p s)

end Keeps

/-! ## What a program leaves -/

/-- Run to its end, the program leaves what it has found. On the way it may not hold. -/
def Leaves (machine : Machine A S) (Inv : S → Prop) (p : Program A E α) : Prop :=
  ∀ s, Inv s → Inv (run machine p s).2

theorem Keeps.leaves {Inv : S → Prop} {p : Program A E α} (hp : Keeps machine Inv p) :
    Leaves machine Inv p := fun _ hs ↦ hp.run_end hs

namespace Leaves

variable {Inv : S → Prop}

theorem bind {p : Program A E α} {f : α → Program A E β} (hp : Leaves machine Inv p)
    (hf : ∀ a, Leaves machine Inv (f a)) : Leaves machine Inv (p >>= f) := by
  intro s hs
  have hleft := hp s hs
  rw [run_bind]
  generalize run machine p s = r at hleft ⊢
  obtain ⟨answer, t⟩ := r
  cases answer with
  | ok a => exact hf a t hleft
  | error e => exact hleft

theorem attempt {p : Program A E α} (hp : Leaves machine Inv p) :
    Leaves machine Inv p.attempt := by
  intro s hs
  rw [run_attempt]
  exact hp s hs

theorem forEach {f : β → Program A E Unit} {bs : List β} (hf : ∀ b, Leaves machine Inv (f b)) :
    Leaves machine Inv (forEach f bs) := by
  induction bs with
  | nil => exact fun _ hs ↦ hs
  | cons b bs ih => exact bind (hf b) fun _ ↦ ih

end Leaves

/-! ## The actions of a program -/

/-- Whatever the answers are, the program performs only actions that `P` holds of. -/
def Only (P : ∀ γ : Type, A γ → Prop) : Program A E α → Prop
  | pure _ => True
  | fail _ => True
  | perform action next => P _ action ∧ ∀ b, Only P (next b)

namespace Only

@[grind ←] theorem pure (a : α) : Only P (Pure.pure a : Program A E α) := trivial

@[grind ←] theorem fail (e : E) : Only P (Program.fail e : Program A E α) := trivial

@[grind ←] theorem act {action : A α} (h : P _ action) : Only P (act action : Program A E α) :=
  ⟨h, fun _ ↦ trivial⟩

@[grind ←] theorem ofExcept (x : Except E α) : Only P (Program.ofExcept x : Program A E α) := by
  cases x <;> trivial

@[grind ←] theorem bind {p : Program A E α} {f : α → Program A E β} (hp : Only P p)
    (hf : ∀ a, Only P (f a)) : Only P (p >>= f) := by
  induction p with
  | pure a => exact hf a
  | fail e => trivial
  | perform action next ih => exact ⟨hp.1, fun b ↦ ih b (hp.2 b)⟩

@[grind ←] theorem attempt {p : Program A E α} (hp : Only P p) : Only P p.attempt := by
  induction p with
  | pure a => trivial
  | fail e => trivial
  | perform action next ih => exact ⟨hp.1, fun b ↦ ih b (hp.2 b)⟩

@[grind ←] theorem forEach {f : β → Program A E Unit} {bs : List β} (hf : ∀ b, Only P (f b)) :
    Only P (forEach f bs) := by
  induction bs with
  | nil => trivial
  | cons b bs ih => exact bind (hf b) fun _ ↦ ih

theorem mono {Q : ∀ γ : Type, A γ → Prop} {p : Program A E α} (hp : Only P p)
    (h : ∀ γ (action : A γ), P γ action → Q γ action) : Only Q p := by
  induction p with
  | pure a => trivial
  | fail e => trivial
  | perform action next ih => exact ⟨h _ _ hp.1, fun b ↦ ih b (hp.2 b)⟩

theorem not_performs {Q : ∀ γ : Type, A γ → Prop} {p : Program A E α} (hp : Only P p)
    (h : ∀ γ (action : A γ), P γ action → ¬Q γ action) (s t : S) :
    ¬Performs machine Q p s t := by
  induction p generalizing s with
  | pure a => exact performs_pure
  | fail e => exact performs_fail
  | perform action next ih =>
    rintro (⟨hq, -⟩ | hlater)
    · exact h _ action hp.1 hq
    · exact ih _ (hp.2 _) _ hlater

/-- What the actions it may perform keep, a program keeps. -/
theorem keeps {Inv : S → Prop} {p : Program A E α} (hp : Only P p)
    (hact : ∀ {γ : Type} (action : A γ) (s : S), P γ action → Inv s →
      Inv (machine.step action s).2) : Keeps machine Inv p := by
  induction p with
  | pure a => exact Keeps.pure a
  | fail e => exact Keeps.fail e
  | perform action next ih =>
    intro s t hs ht
    rcases ht with rfl | ht
    · exact hs
    · exact ih _ (hp.2 _) _ t (hact action s hp.1 hs) ht

end Only

/-- Whatever the answers are, the program performs only actions that `P` holds of, and returns only
what `Q` holds of. -/
def Yields (P : ∀ γ : Type, A γ → Prop) (Q : α → Prop) : Program A E α → Prop
  | pure a => Q a
  | fail _ => True
  | perform action next => P _ action ∧ ∀ b, Yields P Q (next b)

namespace Yields

variable {Q : α → Prop} {R : β → Prop}

theorem pure {a : α} (h : Q a) : Yields P Q (Pure.pure a : Program A E α) := h

theorem bind {p : Program A E α} {f : α → Program A E β} (hp : Yields P Q p)
    (hf : ∀ a, Q a → Yields P R (f a)) : Yields P R (p >>= f) := by
  induction p with
  | pure a => exact hf a hp
  | fail e => trivial
  | perform action next ih => exact ⟨hp.1, fun b ↦ ih b (hp.2 b)⟩

theorem mono {Q' : α → Prop} {p : Program A E α} (hp : Yields P Q p) (h : ∀ a, Q a → Q' a) :
    Yields P Q' p := by
  induction p with
  | pure a => exact h a hp
  | fail e => trivial
  | perform action next ih => exact ⟨hp.1, fun b ↦ ih b (hp.2 b)⟩

theorem only {p : Program A E α} (hp : Yields P Q p) : Only P p := by
  induction p with
  | pure a => trivial
  | fail e => trivial
  | perform action next ih => exact ⟨hp.1, fun b ↦ ih b (hp.2 b)⟩

theorem of_only {p : Program A E α} (hp : Only P p) : Yields P (fun _ ↦ True) p := by
  induction p with
  | pure a => trivial
  | fail e => trivial
  | perform action next ih => exact ⟨hp.1, fun b ↦ ih b (hp.2 b)⟩

end Yields

theorem Yields.after {R : β → Prop} {p : Program A E α} {f : α → Program A E β}
    (hp : Only P p) (hf : ∀ a, Yields P R (f a)) : Yields P R (p >>= f) :=
  (Yields.of_only hp).bind fun a _ ↦ hf a

theorem Yields.bind_only {Q : α → Prop} {p : Program A E α} {f : α → Program A E β}
    (hp : Yields P Q p) (hf : ∀ a, Q a → Only P (f a)) : Only P (p >>= f) :=
  (hp.bind fun a ha ↦ Yields.of_only (hf a ha)).only

/-! ## Programs over other actions -/

/-- The same program, with its actions taken for others. -/
def hoist {B : Type → Type w} (f : ∀ {γ : Type}, A γ → B γ) : Program A E α → Program B E α
  | pure a => pure a
  | fail e => fail e
  | perform action next => perform (f action) fun b ↦ (next b).hoist f

end Program

/-- The machine that performs an action as the one it is taken for. -/
def Machine.comap {A : Type → Type u} {B : Type → Type w} {S : Type v} (machine : Machine B S)
    (f : ∀ {γ : Type}, A γ → B γ) : Machine A S where
  step action s := machine.step (f action) s

namespace Program

variable {A : Type → Type u} {B : Type → Type w} {E α β : Type} {S : Type v}
  {machine : Machine B S} {f : ∀ {γ : Type}, A γ → B γ}

theorem run_hoist (p : Program A E α) (s : S) :
    run machine (p.hoist f) s = run (machine.comap f) p s := by
  induction p generalizing s with
  | pure a => rfl
  | fail e => rfl
  | perform action next ih => exact ih _ _

theorem visits_hoist {p : Program A E α} {s t : S} :
    Visits machine (p.hoist f) s t ↔ Visits (machine.comap f) p s t := by
  induction p generalizing s with
  | pure a => exact Iff.rfl
  | fail e => exact Iff.rfl
  | perform action next ih => exact or_congr_right (ih _)

/-- What the actions it uses keep, a program keeps. -/
theorem Keeps.hoist {Inv : S → Prop}
    (hact : ∀ {γ : Type} (action : A γ) (s : S), Inv s → Inv (machine.step (f action) s).2)
    (p : Program A E α) : Keeps machine Inv (p.hoist f) :=
  fun _ _ hs ht ↦ Keeps.of_act hact p _ _ hs (visits_hoist.mp ht)

end Program

/-! ## Watching a machine -/

/-- The machine with a record kept beside it. An action, the state it starts in and its answer decide
what it adds to the record. -/
def Machine.watched {A : Type → Type u} {S : Type v} {G : Type w} (machine : Machine A S)
    (note : ∀ {γ : Type}, A γ → S → γ → G → G) : Machine A (S × G) where
  step action s :=
    ((machine.step action s.1).1,
      ((machine.step action s.1).2, note action s.1 (machine.step action s.1).1 s.2))

namespace Program

variable {A : Type → Type u} {E α : Type} {S : Type v} {G : Type w} {machine : Machine A S}
  {note : ∀ {γ : Type}, A γ → S → γ → G → G}

/-- Watching changes nothing. -/
theorem run_watched (p : Program A E α) (s : S × G) :
    (run (machine.watched note) p s).1 = (run machine p s.1).1 ∧
      (run (machine.watched note) p s).2.1 = (run machine p s.1).2 :=
  run_related (R := fun (s : S × G) t ↦ s.1 = t) (fun {_} _ {_ _} h ↦ h ▸ ⟨rfl, rfl⟩) p rfl

theorem cut_watched (n : ℕ) (p : Program A E α) (s : S × G) :
    (cut (machine.watched note) n p s).1 = cut machine n p s.1 := by
  induction n generalizing p s with
  | zero => rfl
  | succ n ih =>
    cases p with
    | pure a => rfl
    | fail e => rfl
    | perform action next => exact ih _ _

end Program

end NemoMessenger.Data
