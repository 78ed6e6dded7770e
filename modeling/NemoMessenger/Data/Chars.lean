import Mathlib.Algebra.Group.Nat.Defs
import Mathlib.Data.List.DropRight

/-!
# Text as a list of characters

The functions on texts that parsers are written with: cutting at separators, trimming and lines.
-/

namespace NemoMessenger.Data.Chars

section

variable {α : Type} (p : α → Bool)

/-- Cut the elements off both ends that satisfy `p`. -/
def trim (l : List α) : List α := (l.dropWhile p).rdropWhile p

variable {p}

theorem dropWhile_map_of_mem {β : Type} {f : β → α} {q : β → Bool} {l : List β}
    (h : ∀ b ∈ l, p (f b) = q b) : (l.map f).dropWhile p = (l.dropWhile q).map f := by
  induction l with
  | nil => rfl
  | cons b l ih =>
    obtain ⟨hb, hl⟩ := List.forall_mem_cons.mp h
    rw [List.map_cons, List.dropWhile_cons, List.dropWhile_cons, hb, ih hl]
    split_ifs <;> rfl

/-- Trimming before or after a map. -/
theorem trim_map_of_mem {β : Type} {f : β → α} {q : β → Bool} {l : List β}
    (h : ∀ b ∈ l, p (f b) = q b) : trim p (l.map f) = (trim q l).map f := by
  have hdrop (b : β) (hb : b ∈ (l.dropWhile q).reverse) : p (f b) = q b :=
    h b ((List.dropWhile_sublist q).mem (List.mem_reverse.mp hb))
  rw [trim, trim, List.rdropWhile, List.rdropWhile, dropWhile_map_of_mem h, ← List.map_reverse,
    dropWhile_map_of_mem hdrop, List.map_reverse]

/-- What trimming takes away has been cut off. -/
theorem mem_or_of_mem_trim {l : List α} {a : α} (h : a ∈ l) : p a = true ∨ a ∈ trim p l := by
  rw [← List.takeWhile_append_dropWhile (p := p) (l := l), List.mem_append] at h
  cases h with
  | inl h => exact .inl (List.mem_takeWhile_imp h)
  | inr h =>
    rw [← List.mem_reverse, ← List.takeWhile_append_dropWhile (p := p) (l := (l.dropWhile p).reverse),
      List.mem_append] at h
    exact h.imp List.mem_takeWhile_imp List.mem_reverse.mpr

theorem mem_of_mem_trim {l : List α} {a : α} (h : a ∈ trim p l) : a ∈ l :=
  (List.dropWhile_sublist p).mem ((List.rdropWhile_prefix p _).mem h)

variable (p)

/-- What splitting leaves out are the separators. -/
theorem flatten_splitOnP (l : List α) : (l.splitOnP p).flatten = l.filter fun a ↦ !p a := by
  induction l with
  | nil => simp [List.splitOnP_nil]
  | cons a l ih =>
    rw [List.splitOnP_cons_eq_if_modifyHead]
    by_cases ha : p a
    · simp [ha, ih]
    · cases hsplit : l.splitOnP p with
      | nil => exact absurd hsplit (List.splitOnP_ne_nil p l)
      | cons piece pieces => simp [ha, ← ih, hsplit]

theorem flatten_filter_isEmpty (pieces : List (List α)) :
    (pieces.filter fun piece ↦ !piece.isEmpty).flatten = pieces.flatten := by
  induction pieces with
  | nil => rfl
  | cons piece pieces ih => cases piece <;> simp [ih]

/-- `split_once` at an element. -/
def cut [DecidableEq α] (sep : α) (l : List α) : Option (List α × List α) :=
  if sep ∈ l then
    some (l.takeWhile fun a ↦ a ≠ sep, (l.dropWhile fun a ↦ a ≠ sep).tail)
  else none

theorem takeWhile_of_notMem [DecidableEq α] {sep : α} {l : List α} (h : sep ∉ l) :
    (l.takeWhile fun a ↦ a ≠ sep) = l :=
  List.takeWhile_eq_self_iff.mpr fun a ha ↦ by
    rw [decide_eq_true_eq]
    rintro rfl
    exact h ha

/-- A run of elements that is followed by one which ends it. -/
theorem takeWhile_append_of_all {front : List α} (h : ∀ a ∈ front, p a = true) (rest : List α) :
    (front ++ rest).takeWhile p = front ++ rest.takeWhile p := by
  rw [List.takeWhile_append, List.takeWhile_eq_self_iff.mpr h, if_pos rfl]

theorem takeWhile_append_cons [DecidableEq α] {sep : α} {front : List α} (h : sep ∉ front)
    (rest : List α) : ((front ++ sep :: rest).takeWhile fun a ↦ a ≠ sep) = front := by
  rw [takeWhile_append_of_all _ fun a ha ↦ by simpa using ne_of_mem_of_not_mem ha h]
  simp

theorem cut_eq_none_iff [DecidableEq α] {sep : α} {l : List α} : cut sep l = none ↔ sep ∉ l := by
  unfold cut
  split_ifs with h <;> simp [h]

/-- The cut is at the first separator. -/
theorem cut_eq_some_iff [DecidableEq α] {sep : α} {l front rest : List α} :
    cut sep l = some (front, rest) ↔ l = front ++ sep :: rest ∧ sep ∉ front := by
  constructor
  · intro h
    unfold cut at h
    split_ifs at h with hmem
    cases h
    have hfront : sep ∉ l.takeWhile fun a ↦ a ≠ sep := fun h ↦ by
      simpa using List.mem_takeWhile_imp h
    refine ⟨?_, hfront⟩
    have hspan : (l.takeWhile fun a ↦ a ≠ sep) ++ (l.dropWhile fun a ↦ a ≠ sep) = l :=
      List.takeWhile_append_dropWhile
    cases hrest : l.dropWhile fun a ↦ a ≠ sep with
    | nil =>
      rw [hrest, List.append_nil] at hspan
      rw [hspan] at hfront
      exact absurd hmem hfront
    | cons a rest =>
      have ha : ¬(decide (a ≠ sep) = true) := by
        have hhead := List.head?_dropWhile_not (fun a ↦ decide (a ≠ sep)) l
        rw [hrest] at hhead
        simpa using hhead
      rw [decide_eq_true_eq, not_not] at ha
      rw [hrest, ha] at hspan
      rw [List.tail_cons, hspan]
  · rintro ⟨rfl, hfront⟩
    rw [cut, if_pos (by simp), takeWhile_append_cons hfront]
    congr 2
    rw [List.dropWhile_append_of_pos fun a ha ↦ by simpa using ne_of_mem_of_not_mem ha hfront]
    simp

end

/-- `str::parse::<u16>`: decimal digits, with or without a plus in front. -/
def parseU16 (s : List Char) : Option ℕ :=
  let digits := match s with
    | '+' :: digits => digits
    | digits => digits
  if digits = [] ∨ !digits.all fun c ↦ '0' ≤ c && c ≤ '9' then none
  else
    let n := digits.foldl (fun n c ↦ n * 10 + (c.toNat - '0'.toNat)) 0
    if n < 2 ^ 16 then some n else none

/-- `str::lines`: the last line may end without a line feed, and a carriage return before a line
feed belongs to it. -/
def lines (s : List Char) : List (List Char) :=
  let pieces := s.splitOn '\n'
  (pieces.dropLast.map fun line ↦ if line.getLast? = some '\r' then line.dropLast else line) ++
    (pieces.getLast?.filter (· ≠ [])).toList

/-- Lines that end with a carriage return and a line feed, but for the last. -/
theorem lines_flatMap {line : List Char} {rest : List (List Char)}
    (h : ∀ l ∈ line :: rest, '\n' ∉ l ∧ '\r' ∉ l) (hlast : (line :: rest).getLast? ≠ some []) :
    lines (line ++ rest.flatMap fun l ↦ '\r' :: '\n' :: l) = line :: rest := by
  have hsplit (line : List Char) (hlines : ∀ l ∈ line :: rest, '\n' ∉ l) :
      (line ++ rest.flatMap fun l ↦ '\r' :: '\n' :: l).splitOn '\n' =
        (line :: rest).dropLast.map (· ++ ['\r']) ++ [(line :: rest).getLast (List.cons_ne_nil _ _)] := by
    have hfree {l : List Char} (hl : '\n' ∉ l) : ∀ c ∈ l, (c == '\n') = false := fun c hc ↦
      beq_eq_false_iff_ne.mpr (ne_of_mem_of_not_mem hc hl)
    clear h hlast
    induction rest generalizing line with
    | nil =>
      rw [List.flatMap_nil, List.append_nil]
      exact List.splitOnP_eq_singleton (hfree (hlines line List.mem_cons_self))
    | cons next rest ih =>
      have hline : '\n' ∉ line ++ ['\r'] := fun hmem ↦ by
        rw [List.mem_append, List.mem_singleton] at hmem
        exact hmem.elim (hlines line List.mem_cons_self) (by decide)
      rw [List.flatMap_cons, List.dropLast_cons_of_ne_nil (List.cons_ne_nil _ _),
        List.getLast_cons (List.cons_ne_nil _ _), List.map_cons]
      refine Eq.trans ?_ (congrArg (List.cons (line ++ ['\r']))
        (ih next fun l hl ↦ hlines l (List.mem_cons_of_mem _ hl)))
      have happend : line ++ ('\r' :: '\n' :: next ++ rest.flatMap fun l ↦ '\r' :: '\n' :: l) =
          (line ++ ['\r']) ++ '\n' :: (next ++ rest.flatMap fun l ↦ '\r' :: '\n' :: l) := by simp
      rw [happend]
      exact List.splitOnP_append_cons_of_forall_mem (hfree hline) '\n' (beq_self_eq_true _) _
  have hpieces := hsplit line fun l hl ↦ (h l hl).1
  set last := (line :: rest).getLast (List.cons_ne_nil _ _) with hlastdef
  have hne : last ≠ [] := fun hnil ↦ hlast (by
    rw [List.getLast?_eq_getLast_of_ne_nil (List.cons_ne_nil _ _), ← hlastdef, hnil])
  have hstrip : ((line :: rest).dropLast.map ((fun line ↦ if line.getLast? = some '\r' then line.dropLast
      else line) ∘ (· ++ ['\r']))) = (line :: rest).dropLast := by
    refine (List.map_congr_left fun l _ ↦ ?_).trans (List.map_id _)
    simp
  have hlastline : ((some last).filter (· ≠ [])).toList = [last] := by
    rw [Option.filter_some, if_pos (by simpa using hne)]
    rfl
  unfold lines
  rw [hpieces]
  dsimp only
  rw [List.dropLast_concat, List.getLast?_concat, List.map_map, hstrip, hlastline]
  exact List.dropLast_append_getLast _

end NemoMessenger.Data.Chars
