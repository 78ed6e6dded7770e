import Mathlib.Data.List.Infix
import Mathlib.Algebra.Order.Group.Nat
import Mathlib.Tactic.Common

/-!
# Paging over a changing list

A list that is sorted by a key is read page by page, each page from the key the one before ended at.
The list may change between two pages in any way. The pages together are sorted, and once one of them
is empty they hold every row that was in the list all along.
-/

namespace NemoMessenger.Data

namespace Paging

variable {α : Type} (key : α → ℕ)

/-- The list as one page finds it, and how many rows the page may have. -/
structure Snapshot (α : Type) where
  rows : List α
  limit : ℕ

/-- Each key is greater than the ones before. -/
def Sorted (rows : List α) : Prop := rows.Pairwise fun before after ↦ key before < key after

/-- The first rows behind the cursor. -/
def page (cursor : ℕ) (snapshot : Snapshot α) : List α :=
  (snapshot.rows.filter fun row ↦ decide (cursor < key row)).take snapshot.limit

/-- The key a page ends at. -/
def next (cursor : ℕ) (page : List α) : ℕ := (page.getLast?.map key).getD cursor

/-- The pages of a reader. -/
def pages : ℕ → List (Snapshot α) → List (List α)
  | _, [] => []
  | cursor, snapshot :: rest =>
    page key cursor snapshot :: pages (next key cursor (page key cursor snapshot)) rest

section Page

variable {key} {cursor : ℕ} {snapshot : Snapshot α} {row : α}

theorem lt_of_mem_page (h : row ∈ page key cursor snapshot) : cursor < key row := by
  simpa using (List.mem_filter.mp (List.mem_of_mem_take h)).2

theorem sorted_page (h : Sorted key snapshot.rows) : Sorted key (page key cursor snapshot) :=
  (h.filter _).sublist (List.take_sublist ..)

/-- The cursor has reached every row of the page. -/
theorem le_next_of_mem (h : Sorted key snapshot.rows) (hrow : row ∈ page key cursor snapshot) :
    key row ≤ next key cursor (page key cursor snapshot) := by
  have hsorted : Sorted key (page key cursor snapshot) := sorted_page h
  obtain ⟨init, last, hpage⟩ := (List.eq_nil_or_concat (page key cursor snapshot)).resolve_left
    (List.ne_nil_of_mem hrow)
  rw [List.concat_eq_append] at hpage
  rw [hpage] at hrow hsorted ⊢
  rw [next, List.getLast?_concat, Option.map_some, Option.getD_some]
  rcases List.mem_append.mp hrow with hinit | hlast
  · exact ((List.pairwise_append.mp hsorted).2.2 row hinit last (List.mem_singleton_self _)).le
  · exact (congrArg key (List.mem_singleton.mp hlast)).le

theorem le_next (cursor : ℕ) (snapshot : Snapshot α) :
    cursor ≤ next key cursor (page key cursor snapshot) := by
  unfold next
  cases hlast : (page key cursor snapshot).getLast? with
  | none => exact le_rfl
  | some last => exact (lt_of_mem_page (List.mem_of_getLast? hlast)).le

/-- A row behind the cursor that is not on the page lies behind the page. -/
theorem next_lt_of_notMem (h : Sorted key snapshot.rows) (hrow : row ∈ snapshot.rows)
    (hcursor : cursor < key row) (hnot : row ∉ page key cursor snapshot) :
    next key cursor (page key cursor snapshot) < key row := by
  have hmem : row ∈ snapshot.rows.filter fun row ↦ decide (cursor < key row) :=
    List.mem_filter.mpr ⟨hrow, decide_eq_true hcursor⟩
  have hsorted := h.filter fun row ↦ decide (cursor < key row)
  rw [← List.take_append_drop snapshot.limit (snapshot.rows.filter _)] at hmem hsorted
  have hdrop := (List.mem_append.mp hmem).resolve_left hnot
  unfold next
  cases hlast : (page key cursor snapshot).getLast? with
  | none => exact hcursor
  | some last =>
    exact (List.pairwise_append.mp hsorted).2.2 last (List.mem_of_getLast? hlast) row hdrop

end Page

section Pages

variable {key} {cursor : ℕ} {snapshots : List (Snapshot α)} {row : α}

theorem sorted_pages (h : ∀ snapshot ∈ snapshots, Sorted key snapshot.rows) :
    Sorted key (pages key cursor snapshots).flatten ∧
      ∀ row ∈ (pages key cursor snapshots).flatten, cursor < key row := by
  induction snapshots generalizing cursor with
  | nil => exact ⟨List.Pairwise.nil, fun _ hrow ↦ by cases hrow⟩
  | cons snapshot rest ih =>
    have hsorted := h snapshot List.mem_cons_self
    obtain ⟨hrest, hbehind⟩ := @ih (next key cursor (page key cursor snapshot)) fun snapshot hmem ↦
      h snapshot (List.mem_cons_of_mem _ hmem)
    rw [pages, List.flatten_cons]
    refine ⟨List.pairwise_append.mpr ⟨sorted_page hsorted, hrest, fun before hbefore after hafter ↦
      (le_next_of_mem hsorted hbefore).trans_lt (hbehind after hafter)⟩, fun row hrow ↦ ?_⟩
    rcases List.mem_append.mp hrow with hpage | hlater
    · exact lt_of_mem_page hpage
    · exact (le_next cursor snapshot).trans_lt (hbehind row hlater)

/-- When the last page comes back empty, the pages hold every row that was there all along. -/
theorem mem_pages (h : ∀ snapshot ∈ snapshots, Sorted key snapshot.rows ∧ 0 < snapshot.limit)
    (hempty : (pages key cursor snapshots).getLast? = some [])
    (hrow : ∀ snapshot ∈ snapshots, row ∈ snapshot.rows) (hcursor : cursor < key row) :
    row ∈ (pages key cursor snapshots).flatten := by
  induction snapshots generalizing cursor with
  | nil => cases hempty
  | cons snapshot rest ih =>
    obtain ⟨hsorted, hlimit⟩ := h snapshot List.mem_cons_self
    have hmem := hrow snapshot List.mem_cons_self
    rw [pages, List.flatten_cons, List.mem_append]
    by_cases hpage : row ∈ page key cursor snapshot
    · exact .inl hpage
    · right
      rw [pages, List.getLast?_cons] at hempty
      cases hlast : (pages key (next key cursor (page key cursor snapshot)) rest).getLast? with
      | some last =>
        rw [hlast, Option.getD_some] at hempty
        exact ih (fun snapshot hsnapshot ↦ h snapshot (List.mem_cons_of_mem _ hsnapshot))
          (hlast.trans hempty) (fun snapshot hsnapshot ↦ hrow snapshot
            (List.mem_cons_of_mem _ hsnapshot)) (next_lt_of_notMem hsorted hmem hcursor hpage)
      | none =>
        -- the page is the last one, and it is not empty while the row is there
        rw [hlast, Option.getD_none, Option.some.injEq, page, List.take_eq_nil_iff] at hempty
        have hbehind : row ∈ snapshot.rows.filter fun row ↦ decide (cursor < key row) :=
          List.mem_filter.mpr ⟨hmem, decide_eq_true hcursor⟩
        rcases hempty with hzero | hnil
        · exact absurd hzero hlimit.ne'
        · rw [hnil] at hbehind
          cases hbehind

end Pages

end Paging

end NemoMessenger.Data
