import Mathlib.Data.List.Infix
import Mathlib.Algebra.Order.Group.Nat
import Mathlib.Tactic.Common

/-!
# Fixed windows

A meter grants a limited number of visits in a window. A window is opened by the first visit that
comes when the one before has lasted its width, so it can be open for longer than that, and two
windows next to each other can both be used up within one width.
-/

namespace NemoMessenger.Data

/-- A visit to a meter. It may open a window, and it is granted or not. -/
structure Visit where
  time : ℕ
  opens : Bool
  granted : Bool
deriving DecidableEq

/-- What visits left of a meter: the start of the window that is open and what it has counted. A
visit can be counted without being granted. -/
inductive Metered (limit width : ℕ) : List Visit → ℕ → ℕ → Prop
  | fresh (start : ℕ) : Metered limit width [] start 0
  | refused {visits : List Visit} {start count : ℕ} (h : Metered limit width visits start count)
    (visit : Visit) (hopens : visit.opens = false) (hgranted : visit.granted = false) :
    Metered limit width (visits ++ [visit]) start count
  | counted {visits : List Visit} {start count : ℕ} (h : Metered limit width visits start count)
    (visit : Visit) (hopens : visit.opens = false) (hroom : count < limit)
    (hafter : start ≤ visit.time) (hwithin : visit.time < start + width) :
    Metered limit width (visits ++ [visit]) start (count + 1)
  | opened {visits : List Visit} {start count : ℕ} (h : Metered limit width visits start count)
    (visit : Visit) (hopens : visit.opens = true) (hlimit : 0 < limit)
    (hlater : start + width ≤ visit.time) :
    Metered limit width (visits ++ [visit]) visit.time 1

namespace Visit

/-- The visits that were granted. -/
def grants (visits : List Visit) : List Visit := visits.filter (·.granted)

/-- The visits granted between two times, both included. -/
def grantsBetween (first last : ℕ) (visits : List Visit) : List Visit :=
  (grants visits).filter fun visit ↦ first ≤ visit.time ∧ visit.time ≤ last

theorem grants_push (visits : List Visit) (visit : Visit) :
    grants (visits ++ [visit]) = grants visits ++ grants [visit] := List.filter_append ..

theorem length_grants_single_le (visit : Visit) : (grants [visit]).length ≤ 1 :=
  List.length_filter_le ..

theorem length_grants_push_le (visits : List Visit) (visit : Visit) :
    (grants (visits ++ [visit])).length ≤ (grants visits).length + 1 := by
  rw [grants_push, List.length_append]
  exact Nat.add_le_add_left (length_grants_single_le visit) _

theorem grants_push_refused (visits : List Visit) {visit : Visit} (h : visit.granted = false) :
    grants (visits ++ [visit]) = grants visits := by
  simp [grants, h]

theorem length_grantsBetween_push_le (first last : ℕ) (visits : List Visit) (visit : Visit) :
    (grantsBetween first last (visits ++ [visit])).length ≤
      (grantsBetween first last visits).length + 1 := by
  rw [grantsBetween, grants_push, List.filter_append, List.length_append]
  exact Nat.add_le_add_left ((List.length_filter_le ..).trans (length_grants_single_le visit)) _

theorem grantsBetween_push_outside {first last : ℕ} (visits : List Visit) {visit : Visit}
    (h : visit.time < first ∨ last < visit.time) :
    grantsBetween first last (visits ++ [visit]) = grantsBetween first last visits := by
  have hout : grantsBetween first last [visit] = [] := by
    refine List.filter_eq_nil_iff.mpr fun v hv ↦ ?_
    obtain rfl := List.mem_singleton.mp (List.mem_of_mem_filter hv)
    simp only [decide_eq_true_eq]
    omega
  calc
    grantsBetween first last (visits ++ [visit]) =
        grantsBetween first last visits ++ grantsBetween first last [visit] := by
      rw [grantsBetween, grants_push, List.filter_append]
      rfl
    _ = grantsBetween first last visits := by rw [hout, List.append_nil]

end Visit

namespace Metered

variable {limit width : ℕ} {visits : List Visit} {start count : ℕ}

theorem count_le (h : Metered limit width visits start count) : count ≤ limit := by
  induction h with
  | fresh => exact Nat.zero_le _
  | refused _ _ _ _ ih => exact ih
  | counted _ _ _ hroom => exact hroom
  | opened _ _ _ hlimit => exact hlimit

/-- A visit that was granted came before the window that is open has lasted its width. -/
theorem time_lt (h : Metered limit width visits start count) (hwidth : 0 < width) :
    ∀ visit ∈ Visit.grants visits, visit.time < start + width := by
  induction h with
  | fresh => exact fun _ hvisit ↦ by cases hvisit
  | refused _ visit _ hgranted ih =>
    rw [Visit.grants_push_refused _ hgranted]
    exact ih
  | counted _ visit _ _ _ hwithin ih =>
    intro v hv
    rw [Visit.grants_push, List.mem_append] at hv
    rcases hv with hv | hv
    · exact ih v hv
    · obtain rfl := List.mem_singleton.mp (List.mem_of_mem_filter hv)
      exact hwithin
  | opened _ visit _ _ hlater ih =>
    intro v hv
    rw [Visit.grants_push, List.mem_append] at hv
    rcases hv with hv | hv
    · have := ih v hv
      omega
    · obtain rfl := List.mem_singleton.mp (List.mem_of_mem_filter hv)
      omega

/-- The visits since the window was opened are no more than what it has counted. -/
theorem length_grants_suffix (h : Metered limit width visits start count) {seg : List Visit}
    (hseg : seg <:+ visits) (hopens : ∀ visit ∈ seg.tail, visit.opens = false) :
    (Visit.grants seg).length ≤ count := by
  induction h generalizing seg with
  | fresh =>
    rw [List.suffix_nil.mp hseg]
    exact le_rfl
  | refused _ visit _ hgranted ih =>
    rcases List.suffix_concat_iff.mp hseg with rfl | ⟨before, rfl, hbefore⟩
    · exact Nat.zero_le _
    · rw [Visit.grants_push_refused _ hgranted]
      refine ih hbefore fun v hv ↦ hopens v ?_
      cases before with
      | nil => cases hv
      | cons => exact List.mem_append_left _ hv
  | counted _ visit _ _ _ _ ih =>
    rcases List.suffix_concat_iff.mp hseg with rfl | ⟨before, rfl, hbefore⟩
    · exact Nat.zero_le _
    · refine (Visit.length_grants_push_le before visit).trans (Nat.succ_le_succ ?_)
      refine ih hbefore fun v hv ↦ hopens v ?_
      cases before with
      | nil => cases hv
      | cons => exact List.mem_append_left _ hv
  | opened _ visit hopened _ _ ih =>
    rcases List.suffix_concat_iff.mp hseg with rfl | ⟨before, rfl, hbefore⟩
    · exact Nat.zero_le _
    · cases before with
      | nil => exact Visit.length_grants_single_le visit
      | cons first rest =>
        have hshut := hopens visit (List.mem_append_right _ (List.mem_singleton_self _))
        rw [hopened] at hshut
        cases hshut

/-- Between two openings no more visits are granted than the limit. -/
theorem length_grants_infix (h : Metered limit width visits start count) {seg : List Visit}
    (hseg : seg <:+: visits) (hopens : ∀ visit ∈ seg.tail, visit.opens = false) :
    (Visit.grants seg).length ≤ limit := by
  induction h generalizing seg with
  | fresh start =>
    rw [List.infix_nil.mp hseg]
    exact Nat.zero_le _
  | refused h visit hshut hgranted ih =>
    rcases List.infix_concat_iff.mp hseg with hsuffix | hinfix
    · have hall := h.refused visit hshut hgranted
      exact (hall.length_grants_suffix hsuffix hopens).trans hall.count_le
    · exact ih hinfix hopens
  | counted h visit hshut hroom hafter hwithin ih =>
    rcases List.infix_concat_iff.mp hseg with hsuffix | hinfix
    · have hall := h.counted visit hshut hroom hafter hwithin
      exact (hall.length_grants_suffix hsuffix hopens).trans hall.count_le
    · exact ih hinfix hopens
  | opened h visit hopened hlimit hlater ih =>
    rcases List.infix_concat_iff.mp hseg with hsuffix | hinfix
    · have hall := h.opened visit hopened hlimit hlater
      exact (hall.length_grants_suffix hsuffix hopens).trans hall.count_le
    · exact ih hinfix hopens

/-- No opening is later than the start of the window that is open. -/
theorem time_le_of_opens (h : Metered limit width visits start count) :
    ∀ visit ∈ visits, visit.opens = true → visit.time ≤ start := by
  induction h with
  | fresh => exact fun _ hvisit ↦ by cases hvisit
  | refused _ visit hshut _ ih | counted _ visit hshut _ _ _ ih =>
    intro v hv hopens
    rcases List.mem_append.mp hv with hv | hv
    · exact ih v hv hopens
    · obtain rfl := List.mem_singleton.mp hv
      rw [hshut] at hopens
      cases hopens
  | opened _ visit _ _ hlater ih =>
    intro v hv hopens
    rcases List.mem_append.mp hv with hv | hv
    · have := ih v hv hopens
      omega
    · exact le_of_eq (congrArg Visit.time (List.mem_singleton.mp hv))

/-- Windows are opened at least a width apart. -/
theorem pairwise_opens (h : Metered limit width visits start count) :
    (visits.filter (·.opens)).Pairwise fun before after ↦ before.time + width ≤ after.time := by
  induction h with
  | fresh => exact List.Pairwise.nil
  | refused _ visit hshut _ ih | counted _ visit hshut _ _ _ ih =>
    rwa [List.filter_append, List.filter_singleton, hshut, cond_false, List.append_nil]
  | opened h visit hopened _ hlater ih =>
    rw [List.filter_append, List.filter_singleton, hopened, cond_true, List.pairwise_append]
    refine ⟨ih, List.pairwise_singleton _ _, fun before hbefore after hafter ↦ ?_⟩
    obtain ⟨hmem, hopens⟩ := List.mem_filter.mp hbefore
    have := h.time_le_of_opens before hmem hopens
    rw [List.mem_singleton.mp hafter]
    omega

/-- The visits granted from some time on are within the open window, or in that and the one before it,
or there are twice as many as the limit allows at most. -/
theorem length_grantsBetween (h : Metered limit width visits start count) (hwidth : 0 < width)
    (first : ℕ) :
    (start ≤ first → (Visit.grantsBetween first (first + width) visits).length ≤ count) ∧
      (start ≤ first + width →
        (Visit.grantsBetween first (first + width) visits).length ≤ limit + count) ∧
      (Visit.grantsBetween first (first + width) visits).length ≤ 2 * limit := by
  induction h with
  | fresh => exact ⟨fun _ ↦ le_rfl, fun _ ↦ Nat.zero_le _, Nat.zero_le _⟩
  | refused _ visit _ hgranted ih =>
    rw [Visit.grantsBetween, Visit.grants_push_refused _ hgranted]
    exact ih
  | @counted visits start count h visit _ hroom hafter _ ih =>
    obtain ⟨hone, htwo, hall⟩ := ih
    have hpush := Visit.length_grantsBetween_push_le first (first + width) visits visit
    by_cases hlate : first + width < visit.time
    · rw [Visit.grantsBetween_push_outside visits (.inr hlate)]
      refine ⟨fun hle ↦ ?_, fun hle ↦ ?_, hall⟩
      · exact (hone hle).trans (Nat.le_succ count)
      · exact (htwo hle).trans (Nat.le_succ _)
    · refine ⟨fun hle ↦ ?_, fun hle ↦ ?_, ?_⟩
      · have := hone hle
        omega
      · have := htwo hle
        omega
      · have := htwo (by omega)
        omega
  | @opened visits start count h visit _ hlimit hlater ih =>
    obtain ⟨hone, -, hall⟩ := ih
    have hcount := h.count_le
    have hpush := Visit.length_grantsBetween_push_le first (first + width) visits visit
    have hnone (hle : visit.time ≤ first) :
        Visit.grantsBetween first (first + width) visits = [] := by
      refine List.filter_eq_nil_iff.mpr fun v hv ↦ ?_
      have := h.time_lt hwidth v hv
      simp only [decide_eq_true_eq]
      omega
    by_cases hlate : first + width < visit.time
    · rw [Visit.grantsBetween_push_outside visits (.inr hlate)]
      refine ⟨fun hle ↦ ?_, fun hle ↦ ?_, hall⟩ <;> omega
    · have hbefore := hone (by omega)
      refine ⟨fun hle ↦ ?_, fun _ ↦ ?_, ?_⟩
      · rw [hnone hle] at hpush
        exact hpush
      · omega
      · omega

end Metered

end NemoMessenger.Data
