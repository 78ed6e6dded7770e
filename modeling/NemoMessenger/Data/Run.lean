import Mathlib.Logic.Relation

/-!
# Runs of a deterministic machine

A machine is a step function from a state and an operation to the next state. A run is a list of
operations; `Allowed` says that each of them meets a condition in the state it is applied to. An
invariant that one allowed step keeps holds after every allowed run.

A step is often a chain of smaller edits. `Chain` is the reflexive transitive closure of an edit
relation, and what every edit keeps, a chain keeps.
-/

namespace NemoMessenger.Data

variable {S Op : Type}

/-- The state after a list of operations. -/
def run (step : S → Op → S) (s : S) (ops : List Op) : S := ops.foldl step s

/-- Every operation meets `ok` in the state it is applied to. -/
def Allowed (step : S → Op → S) (ok : S → Op → Prop) : S → List Op → Prop
  | _, [] => True
  | s, op :: ops => ok s op ∧ Allowed step ok (step s op) ops

section Run

variable {step : S → Op → S} {ok : S → Op → Prop}

theorem run_append (s : S) (ops ops' : List Op) :
    run step s (ops ++ ops') = run step (run step s ops) ops' := List.foldl_append

theorem run_append_cons (s : S) (ops : List Op) (op : Op) (later : List Op) :
    run step s (ops ++ op :: later) = run step (step (run step s ops) op) later :=
  run_append s ops (op :: later)

theorem allowed_append {s : S} {ops ops' : List Op} :
    Allowed step ok s (ops ++ ops') ↔
      Allowed step ok s ops ∧ Allowed step ok (run step s ops) ops' := by
  induction ops generalizing s with
  | nil => simp [Allowed, run]
  | cons op ops ih =>
    simp only [List.cons_append, Allowed, ih, and_assoc]
    rfl

theorem Allowed.imp {ok' : S → Op → Prop} (h : ∀ s op, ok s op → ok' s op) {s : S}
    {ops : List Op} (hallowed : Allowed step ok s ops) : Allowed step ok' s ops := by
  induction ops generalizing s with
  | nil => exact hallowed
  | cons op ops ih => exact ⟨h s op hallowed.1, ih hallowed.2⟩

/-- An invariant of the allowed steps is an invariant of the allowed runs. -/
theorem run_invariant (Inv : S → Prop) (hstep : ∀ s op, ok s op → Inv s → Inv (step s op))
    {s : S} {ops : List Op} (hallowed : Allowed step ok s ops) (hs : Inv s) :
    Inv (run step s ops) := by
  induction ops generalizing s with
  | nil => exact hs
  | cons op ops ih => exact ih hallowed.2 (hstep s op hallowed.1 hs)

/-- An invariant of all steps is an invariant of all runs. -/
theorem run_keeps (Inv : S → Prop) (hstep : ∀ s op, Inv s → Inv (step s op)) {s : S} (hs : Inv s)
    (ops : List Op) : Inv (run step s ops) := by
  induction ops generalizing s with
  | nil => exact hs
  | cons op ops ih => exact ih (hstep s op hs)

end Run

/-- What every successful step of a fold keeps, a successful fold keeps. -/
theorem foldlM_invariant {A E : Type} (Inv : S → Prop) {f : S → A → Except E S} {as : List A}
    (hstep : ∀ s a s', a ∈ as → f s a = .ok s' → Inv s → Inv s') {s s' : S}
    (h : as.foldlM f s = .ok s') (hs : Inv s) : Inv s' := by
  induction as generalizing s with
  | nil =>
    cases h
    exact hs
  | cons a as ih =>
    rw [List.foldlM_cons] at h
    cases hfirst : f s a with
    | error e =>
      rw [hfirst] at h
      cases h
    | ok next =>
      rw [hfirst] at h
      exact ih (fun s a s' ha ↦ hstep s a s' (List.mem_cons_of_mem _ ha)) h
        (hstep s a next List.mem_cons_self hfirst hs)

/-! ## Chains of edits -/

/-- Any number of edits, one after the other. -/
abbrev Chain (edit : S → S → Prop) : S → S → Prop := Relation.ReflTransGen edit

theorem Chain.keeps {edit : S → S → Prop} (Inv : S → Prop)
    (hedit : ∀ s s', edit s s' → Inv s → Inv s') {s s' : S} (h : Chain edit s s') (hs : Inv s) :
    Inv s' := by
  induction h with
  | refl => exact hs
  | tail _ hlast ih => exact hedit _ _ hlast ih

end NemoMessenger.Data
