import Mathlib.Data.List.Basic
import NemoMessenger.Data.FiniteMap

/-!
# Write-through journals

Live values and stored values under the same keys, with a list of marks for the keys whose stored
value may lag behind. `InStep` says that everything unmarked agrees. An edit that marks what it
changes keeps it, and writing every marked key back leaves no marks. A write that can fail is a
`foldlM`; when no write of it fails, it is a `foldl`.
-/

namespace NemoMessenger.Data

variable {S K V E : Type}

/-- Stored and live values agree off the marks. -/
def InStep (marks : List K) (stored live : K → V) : Prop := ∀ k ∉ marks, stored k = live k

namespace InStep

theorem edit {marks marks' : List K} {stored live live' : K → V} (h : InStep marks stored live)
    (hmarks : marks ⊆ marks') (hsame : ∀ k ∉ marks', live' k = live k) :
    InStep marks' stored live' := by
  intro k hk
  calc
    stored k = live k := h k fun hmem ↦ hk (hmarks hmem)
    _ = live' k := (hsame k hk).symm

/-- An edit of one key that marks it. -/
theorem insert [BEq K] [LawfulBEq K] {marks : List K} {stored live live' : K → V}
    (h : InStep marks stored live) {key : K} (hsame : ∀ k ≠ key, live' k = live k) :
    InStep (marks.insert key) stored live' := by
  apply h.edit
  · exact fun _ hmem ↦ List.mem_insert_of_mem hmem
  · intro k hk
    exact hsame k fun heq ↦ hk (heq ▸ List.mem_insert_self)

/-- Writing every marked key back brings everything in step. -/
theorem foldl [DecidableEq K] {write : S → K → S} {view : S → K → V} {live : K → V}
    {marks : List K} {s : S}
    (hwrite : ∀ s, ∀ k ∈ marks, ∀ k', view (write s k) k' = if k' = k then live k else view s k')
    (h : InStep marks (view s) live) : view (marks.foldl write s) = live := by
  induction marks generalizing s with
  | nil =>
    funext k
    exact h k List.not_mem_nil
  | cons k marks ih =>
    apply ih
    · exact fun s k' hk' ↦ hwrite s k' (List.mem_cons_of_mem _ hk')
    · intro k' hk'
      rw [hwrite s k List.mem_cons_self]
      split_ifs with heq
      · rw [heq]
      · exact h k' fun hmem ↦ (List.mem_cons.mp hmem).elim heq hk'

/-- The same for writes that can fail and do not. -/
theorem foldlM [DecidableEq K] {write : S → K → Except E S} {view : S → K → V} {live : K → V}
    {marks : List K} {s : S}
    (hwrite : ∀ s, ∀ k ∈ marks, ∃ s', write s k = .ok s' ∧
      ∀ k', view s' k' = if k' = k then live k else view s k')
    (h : InStep marks (view s) live) : ∃ s', marks.foldlM write s = .ok s' ∧ view s' = live := by
  induction marks generalizing s with
  | nil => exact ⟨s, rfl, funext fun k ↦ h k List.not_mem_nil⟩
  | cons k marks ih =>
    obtain ⟨s', hs', hview⟩ := hwrite s k List.mem_cons_self
    rw [List.foldlM_cons, hs']
    apply ih
    · exact fun s k' hk' ↦ hwrite s k' (List.mem_cons_of_mem _ hk')
    · intro k' hk'
      rw [hview]
      split_ifs with heq
      · rw [heq]
      · exact h k' fun hmem ↦ (List.mem_cons.mp hmem).elim heq hk'

/-- What is not marked stays as it was. -/
theorem foldlM_of_not_mem [DecidableEq K] {write : S → K → Except E S} {view : S → K → V}
    {live : K → V} {marks : List K}
    (hwrite : ∀ s, ∀ k ∈ marks, ∃ s', write s k = .ok s' ∧
      ∀ k', view s' k' = if k' = k then live k else view s k') (s : S) :
    ∃ s', marks.foldlM write s = .ok s' ∧ ∀ k, view s' k = if k ∈ marks then live k else view s k := by
  have hmarked : InStep marks (view s) fun k ↦ if k ∈ marks then live k else view s k :=
    fun k hk ↦ (if_neg hk).symm
  obtain ⟨s', hs', hview⟩ := hmarked.foldlM fun s k hk ↦ by
    rw [if_pos hk]
    exact hwrite s k hk
  exact ⟨s', hs', fun k ↦ congrFun hview k⟩

end InStep

theorem foldlM_eq_ok {write : S → K → Except E S} {write' : S → K → S} (marks : List K)
    (h : ∀ s, ∀ k ∈ marks, write s k = .ok (write' s k)) (s : S) :
    marks.foldlM write s = .ok (marks.foldl write' s) := by
  induction marks generalizing s with
  | nil => rfl
  | cons k marks ih =>
    rw [List.foldlM_cons, h s k List.mem_cons_self]
    exact ih (fun s k' hk' ↦ h s k' (List.mem_cons_of_mem _ hk')) (write' s k)

/-! ## Upserts -/

/-- Write the live value of a key, if there is one. -/
def upsertLive [DecidableEq K] (live : K → Option V) (m : FiniteMap K V) (k : K) :
    FiniteMap K V :=
  match live k with
  | none => m
  | some v => m.insert k v

/-- Upserts of all marked keys bring a table of live keys in step. -/
theorem lookup_foldl_upsertLive [DecidableEq K] {live : K → Option V} {marks : List K}
    {m : FiniteMap K V} (h : ∀ k ∉ marks, m.lookup k = live k)
    (hknown : ∀ k, (m.lookup k).isSome → (live k).isSome) (k : K) :
    (marks.foldl (upsertLive live) m).lookup k = live k := by
  induction marks generalizing m with
  | nil => exact h k List.not_mem_nil
  | cons key marks ih =>
    have hrest {k : K} (hk : k ∉ marks) (hne : k ≠ key) : m.lookup k = live k :=
      h k fun hmem ↦ (List.mem_cons.mp hmem).elim hne hk
    rw [List.foldl_cons, upsertLive]
    cases hlive : live key with
    | none =>
      apply ih _ hknown
      intro k hk
      by_cases heq : k = key
      · -- a key without a live value has no row either
        have hnone : ¬ (m.lookup key).isSome := fun hsome ↦ by
          simpa [hlive] using hknown key hsome
        rw [heq, hlive, Option.not_isSome_iff_eq_none.mp hnone]
      · exact hrest hk heq
    | some v =>
      apply ih
      · intro k hk
        rw [FiniteMap.lookup_insert_ite]
        split_ifs with heq
        · rw [heq, hlive]
        · exact hrest hk heq
      · intro k hk
        rw [FiniteMap.lookup_insert_ite] at hk
        split_ifs at hk with heq
        · rw [heq, hlive]
          rfl
        · exact hknown k hk

/-! ## Tables of rows in insertion order -/

/-- The values a list of rows holds under a key, in order. -/
def rowsUnder [DecidableEq K] (rows : List (K × V)) (k : K) : List V :=
  (rows.filter fun e ↦ e.1 = k).map Prod.snd

/-- Delete the rows under a key and append new ones. -/
def rewriteRows [DecidableEq K] (values : K → List V) (rows : List (K × V)) (k : K) :
    List (K × V) :=
  (rows.filter fun e ↦ e.1 ≠ k) ++ (values k).map fun v ↦ (k, v)

theorem rowsUnder_rewriteRows [DecidableEq K] (values : K → List V) (rows : List (K × V))
    (k k' : K) : rowsUnder (rewriteRows values rows k) k' =
      if k' = k then values k else rowsUnder rows k' := by
  rw [rowsUnder, rewriteRows, List.filter_append, List.map_append, List.filter_filter]
  by_cases hk : k' = k
  · subst hk
    simp [List.filter_map, Function.comp_def]
  · have hsame : (rows.filter fun e ↦ decide (e.1 = k') && decide (e.1 ≠ k)) =
        rows.filter fun e ↦ decide (e.1 = k') := by
      apply List.filter_congr
      intro e _
      by_cases he : e.1 = k'
      · simp [he, hk]
      · simp [he]
    rw [hsame]
    simp [hk, Ne.symm hk, rowsUnder, List.filter_map, Function.comp_def]

/-- Rewriting the rows of every marked key brings them in step. -/
theorem rowsUnder_foldl_rewriteRows [DecidableEq K] {values : K → List V} {marks : List K}
    {rows : List (K × V)} (h : InStep marks (rowsUnder rows) values) (k : K) :
    rowsUnder (marks.foldl (rewriteRows values) rows) k = values k :=
  congrFun (InStep.foldl (fun rows k _ k' ↦ rowsUnder_rewriteRows values rows k k') h) k

end NemoMessenger.Data
