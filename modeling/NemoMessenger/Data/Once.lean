import Mathlib.Data.List.Induction
import NemoMessenger.Data.Run

/-!
# Values that are set once

A value of a machine is set by some of its steps, each of which needs it to be unset, and no other
step changes it. What a run leaves in it was set by exactly one step of the run.
-/

namespace NemoMessenger.Data

variable {S Op V : Type} {step : S → Op → S} {view : S → Option V} {sets : S → Op → V → Prop}

/-- The value `view` is set by the steps of `sets`, and only while it is unset. -/
structure WriteOnce (step : S → Op → S) (view : S → Option V) (sets : S → Op → V → Prop) :
    Prop where
  unset : ∀ {s op v}, sets s op v → view s = none
  stores : ∀ {s op v}, sets s op v → view (step s op) = some v
  keeps : ∀ {s op}, (∀ v, ¬sets s op v) → view (step s op) = view s

namespace WriteOnce

/-- A set value stays through a step. -/
theorem mono_step (h : WriteOnce step view sets) {s : S} {v : V} (hs : view s = some v) (op : Op) :
    view (step s op) = some v := by
  have hquiet (w : V) : ¬sets s op w := by
    intro hset
    rw [h.unset hset] at hs
    cases hs
  rw [h.keeps hquiet, hs]

/-- A set value stays through a run. -/
theorem mono (h : WriteOnce step view sets) {s : S} {v : V} (hs : view s = some v)
    (ops : List Op) : view (run step s ops) = some v :=
  run_keeps (fun s ↦ view s = some v) (fun _ op hv ↦ h.mono_step hv op) hs ops

/-- A run leaves a value exactly when one of its steps set it. -/
theorem run_eq_some_iff (h : WriteOnce step view sets) {s : S} (hs : view s = none)
    (ops : List Op) (v : V) : view (run step s ops) = some v ↔
      ∃ before op later, ops = before ++ op :: later ∧ sets (run step s before) op v := by
  constructor
  · intro hv
    induction ops using List.reverseRecOn with
    | nil =>
      change view s = some v at hv
      rw [hs] at hv
      cases hv
    | append_singleton ops op ih =>
      rw [run_append_cons] at hv
      change view (step (run step s ops) op) = some v at hv
      by_cases hset : ∃ w, sets (run step s ops) op w
      · obtain ⟨w, hset⟩ := hset
        rw [h.stores hset, Option.some.injEq] at hv
        subst hv
        exact ⟨ops, op, [], rfl, hset⟩
      · rw [h.keeps (not_exists.mp hset)] at hv
        obtain ⟨before, setter, later, rfl, hsetter⟩ := ih hv
        exact ⟨before, setter, later ++ [op], by rw [List.append_assoc, List.cons_append], hsetter⟩
  · rintro ⟨before, op, later, rfl, hset⟩
    rw [run_append_cons]
    exact h.mono (h.stores hset) later

end WriteOnce

end NemoMessenger.Data
