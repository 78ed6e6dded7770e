import NemoMessenger.Data.FiniteMap

/-!
# Replay guards

A guard remembers the nonces it has admitted with the time each carries, and forgets those whose
time lies further back than the window. A nonce is admitted when its time lies within the window and
it is not remembered. No pair of nonce and time is admitted twice under a clock that never goes back,
even if the time lies ahead.
-/

namespace NemoMessenger.Data

namespace ReplayGuard

variable {N : Type} [DecidableEq N]

/-- What a guard still remembers at a time. -/
def prune (width now : ℕ) (table : FiniteMap N ℕ) : FiniteMap N ℕ :=
  FiniteMap.retain (fun _ time ↦ decide (now - time ≤ width)) table

/-- What was admitted is remembered, or its time has left the window. -/
def Recalls (width : ℕ) (table : FiniteMap N ℕ) (clock : ℕ) (admitted : List (N × ℕ)) : Prop :=
  ∀ entry ∈ admitted, table.lookup entry.1 = some entry.2 ∨ width < clock - entry.2

section Recalls

variable {width clock now time : ℕ} {table : FiniteMap N ℕ} {admitted : List (N × ℕ)} {nonce : N}

theorem lookup_prune (width now : ℕ) (table : FiniteMap N ℕ) (nonce : N) :
    (prune width now table).lookup nonce =
      (table.lookup nonce).filter fun time ↦ decide (now - time ≤ width) :=
  FiniteMap.lookup_retain _ table nonce

/-- Pruning adds nothing. -/
theorem lookup_of_prune (h : (prune width now table).lookup nonce = some time) :
    table.lookup nonce = some time := by
  rw [lookup_prune, Option.filter_eq_some_iff] at h
  exact h.1

theorem Recalls.later (h : Recalls width table clock admitted) (hclock : clock ≤ now) :
    Recalls width table now admitted := by
  intro entry hentry
  rcases h entry hentry with hkept | hold
  · exact .inl hkept
  · exact .inr (hold.trans_le (Nat.sub_le_sub_right hclock _))

theorem Recalls.prune (h : Recalls width table clock admitted) (hclock : clock ≤ now) :
    Recalls width (prune width now table) now admitted := by
  intro entry hentry
  rcases h.later hclock entry hentry with hkept | hold
  · by_cases hfresh : now - entry.2 ≤ width
    · left
      rw [lookup_prune, hkept, Option.filter_some, if_pos (decide_eq_true hfresh)]
    · exact .inr (Nat.lt_of_not_le hfresh)
  · exact .inr hold

/-- What is admitted now has not been admitted before. -/
theorem Recalls.not_mem (h : Recalls width table now admitted)
    (hnew : table.lookup nonce = none) (hwindow : now - time ≤ width) : (nonce, time) ∉ admitted := by
  intro hmem
  rcases h _ hmem with hkept | hold
  · rw [hnew] at hkept
    cases hkept
  · exact absurd hwindow (Nat.not_le_of_lt hold)

theorem Recalls.admit (h : Recalls width table now admitted) (hnew : table.lookup nonce = none)
    (time : ℕ) : Recalls width (table.insert nonce time) now (admitted ++ [(nonce, time)]) := by
  intro entry hentry
  rw [FiniteMap.lookup_insert_ite]
  rcases List.mem_append.mp hentry with hold | hlast
  · rcases h entry hold with hkept | hgone
    · left
      split_ifs with hsame
      · rw [hsame, hnew] at hkept
        cases hkept
      · exact hkept
    · exact .inr hgone
  · obtain rfl := List.mem_singleton.mp hlast
    exact .inl (if_pos rfl)

end Recalls

end ReplayGuard

end NemoMessenger.Data
