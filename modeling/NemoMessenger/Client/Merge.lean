import Mathlib.Data.List.Find
import NemoMessenger.Client.Reaction
import NemoMessenger.Data.Run

/-!
# The snapshot of the shell

The shell keeps a copy of the inbox and merges into it the rows the client returns: rows that are new,
and markers for what has been taken away. The copy has keys of its own: a row is its conversation, its
number and its kind, a reaction is taken back whoever its author is, and a row that has expired is looked
up under its target.

The snapshot is the inbox, row for row, as long as these keys tell the rows of the inbox apart.
-/

namespace NemoMessenger.Client

open NemoMessenger.Data

/-! ## Merging -/

section Merge

variable {α : Type} {p : α → Bool} {f : α → α} {l l' : List α} {a : α}

/-- The first element that passes the test is changed. -/
def modifyFirst (p : α → Bool) (f : α → α) : List α → List α
  | [] => []
  | a :: l => if p a then f a :: l else a :: modifyFirst p f l

theorem modifyFirst_of_fixed (h : ∀ a, l.find? p = some a → f a = a) : modifyFirst p f l = l := by
  induction l with
  | nil => rfl
  | cons a l ih =>
    unfold modifyFirst
    by_cases hp : p a
    · rw [if_pos hp, h a (List.find?_cons_of_pos hp)]
    · rw [if_neg hp, ih fun b hb ↦ h b (by rwa [List.find?_cons_of_neg hp])]

theorem modifyFirst_append_cons (hl : ∀ b ∈ l, ¬p b) (ha : p a) :
    modifyFirst p f (l ++ a :: l') = l ++ f a :: l' := by
  induction l with
  | nil => exact if_pos ha
  | cons b l ih =>
    rw [List.cons_append, modifyFirst, if_neg (hl b List.mem_cons_self),
      ih fun c hc ↦ hl c (List.mem_cons_of_mem _ hc)]
    rfl

end Merge

namespace DisplayRow

/-- `it.convId == row.convId && it.convSeq == row.convSeq && it.kind == row.kind`. -/
def sameKey (row it : DisplayRow) : Bool :=
  it.convId == row.convId && it.convSeq == row.convSeq && it.kind == row.kind

/-- The reactions that count as the reaction itself. -/
def sameReaction (row it : DisplayRow) : Bool :=
  it.convId == row.convId && it.kind == .reaction && it.target == row.target &&
    it.emoji == row.emoji && it.outgoing == row.outgoing && (it.outgoing || it.senderId == row.senderId)

/-- The row an expired row is taken for. -/
def pointsAt (row it : DisplayRow) : Bool :=
  it.convId == row.convId && it.convSeq == row.target && it.kind != .reaction

/-- The reactions a marker takes back. -/
def takesBack (row it : DisplayRow) : Bool :=
  it.convId == row.convId && it.kind == .reaction && it.target == row.target &&
    it.emoji == row.emoji && if row.outgoing then it.outgoing else !it.outgoing

/-- The rows that go with the target of a marker. -/
def takesAway (row it : DisplayRow) : Bool :=
  it.convId == row.convId && ((it.convSeq == row.target && it.kind != .reaction) ||
    (it.kind == .reaction && it.target == row.target))

/-- The row without its quote of the marker's target. -/
def withoutQuote (row it : DisplayRow) : DisplayRow :=
  if it.convId == row.convId && it.replyTo == row.target && row.target != 0 then
    { it with replyTo := 0 }
  else it

end DisplayRow

/-- `if (merged.none { .. }) merged.add(row)`. -/
def addNew (merged : List DisplayRow) (row : DisplayRow) : List DisplayRow :=
  if merged.any row.sameKey then merged else merged ++ [row]

/-- One row in the loop of `mergeDisplayRows`. -/
def mergeDisplayRows.visit (merged : List DisplayRow) (row : DisplayRow) : List DisplayRow :=
  match row.kind with
  | .removed =>
    let merged := merged.filter fun it ↦ !row.takesAway it
    -- a tombstone of an older version
    let merged := merged.filter fun it ↦
      !(it.convId == row.convId && it.kind == .deleted && it.target == row.target)
    merged.map row.withoutQuote
  | .reactionRemoved => merged.eraseP row.takesBack
  | .deleted => (merged.filter fun it ↦ !row.takesAway it).map row.withoutQuote
  | .expired =>
    let merged := modifyFirst row.pointsAt
      (fun old ↦ { old with hidden := true, kind := row.kind, text := "", fileBytes := [] }) merged
    addNew merged row
  | .reaction => if merged.any row.sameReaction then merged else merged ++ [row]
  | _ => addNew merged row

/-- `mergeDisplayRows`. -/
def mergeDisplayRows (current incoming : List DisplayRow) : List DisplayRow :=
  if incoming.isEmpty then current else incoming.foldl mergeDisplayRows.visit current

theorem mergeDisplayRows_eq (current incoming : List DisplayRow) :
    mergeDisplayRows current incoming = incoming.foldl mergeDisplayRows.visit current := by
  cases incoming with
  | nil => rfl
  | cons row incoming => rfl

/-! ## What changes the inbox -/

/-- The row is no reaction and no marker, and has not expired. -/
def DisplayRow.Plain (row : DisplayRow) : Prop :=
  row.hidden = false ∧ row.kind ∉ [.reaction, .expired, .deleted, .removed, .reactionRemoved]

/-- A change `fetch_now` or `expire_now` makes to the inbox. -/
inductive InboxChange
  | push (row : DisplayRow) (h : row.Plain)
  | react (convId : String) (header : AppHeader) (target : UInt64) (emoji sender name : String)
  | delete (convId : String) (target sentAt : UInt64)
  | expire (timers : FiniteMap String UInt64) (now : UInt64)
  | upgrade (source target : String)

/-- The rows that are returned, and the inbox then. -/
def InboxChange.apply (inbox : List DisplayRow) : InboxChange → List DisplayRow × List DisplayRow
  | push row _ => ([row], inbox ++ [row])
  | react convId header target emoji sender name =>
    let found := Shell.matchesReaction convId target emoji false sender
    if inbox.any found then
      ([Shell.reactionRemovedMarker convId target emoji header.sentAt false], inbox.eraseP found)
    else
      let row := (reactionRow convId header target emoji).by sender name
      ([row], inbox ++ [row])
  | delete convId target sentAt =>
    ([Shell.removedMarker convId target sentAt false], Shell.removeTarget inbox convId target)
  | expire timers now =>
    ((inbox.filter (Shell.elapsed timers now)).map Shell.expireRow, Shell.expireInbox timers now inbox)
  | upgrade source target =>
    ([], inbox.map fun row ↦ if row.convId = source then { row with convId := target } else row)

/-- The inbox of the core, and the snapshot of the shell. -/
structure Screen where
  inbox : List DisplayRow
  snapshot : List DisplayRow

namespace Screen

/-- `seed`, before anything has been shown. -/
def seed (inbox : List DisplayRow) : Screen := ⟨inbox, mergeDisplayRows [] inbox⟩

/-- The inbox is changed, and the rows that are returned are merged. -/
def refresh (screen : Screen) (change : InboxChange) : Screen where
  inbox := (change.apply screen.inbox).2
  snapshot := mergeDisplayRows screen.snapshot (change.apply screen.inbox).1

/-- The snapshot has the rows of the inbox that are not hidden, and `reconcile` changes nothing. -/
structure Follows (screen : Screen) : Prop where
  shown : (screen.snapshot.filter (!·.hidden)).Perm (screen.inbox.filter (!·.hidden))
  reconciled : mergeDisplayRows screen.snapshot screen.inbox = screen.snapshot

end Screen

/-! ## Inboxes the keys tell apart -/

/-- A row as the core keeps it: it has no content where it is hidden, and is no marker. -/
structure DisplayRow.Held (row : DisplayRow) : Prop where
  hidden : row.hidden = true → Shell.expireRow row = row
  kind : row.hidden = false → row.kind ∉ [.expired, .deleted, .removed, .reactionRemoved]

/-- A hidden row points at no row that is shown. -/
def Clear (inbox : List DisplayRow) : Prop :=
  ∀ row ∈ inbox, row.hidden = true → ∀ it, inbox.find? row.pointsAt = some it → it.hidden = true

/-- To the snapshot, the later row is the earlier one. -/
def DisplayRow.confused (it row : DisplayRow) : Bool :=
  if row.kind = .reaction then row.sameReaction it else row.sameKey it

/-- An inbox whose rows a snapshot tells apart. -/
structure Seedable (inbox : List DisplayRow) : Prop where
  held : ∀ row ∈ inbox, row.Held
  clear : Clear inbox
  apart : inbox.Pairwise fun it row ↦ ¬it.confused row

/-- A reaction with the emoji to the message, whoever of the others made it. -/
def reactsWith (convId : String) (target : UInt64) (emoji : String) (it : DisplayRow) : Bool :=
  it.convId == convId && it.kind == .reaction && it.target == target && it.emoji == emoji && !it.outgoing

/-- The change is one the snapshot tells from others: a row has a number that none of its kind has in
its conversation (and that no hidden row points at in vain); a reaction that is taken back is the first
of its emoji to the message; a row that expires has its own number as its target, and is the first with
that number; and a conversation that is moved is empty. -/
def InboxChange.Told (inbox : List DisplayRow) : InboxChange → Prop
  | push row _ => (∀ it ∈ inbox, ¬row.sameKey it) ∧
    ∀ it ∈ inbox, it.hidden = true → it.pointsAt row → ∃ q ∈ inbox, it.pointsAt q
  | react convId _ target emoji sender _ =>
    inbox.any (Shell.matchesReaction convId target emoji false sender) →
      ∀ it, inbox.find? (reactsWith convId target emoji) = some it → it.senderId = sender
  | delete _ _ _ => True
  | expire timers now => ∀ before row later, inbox = before ++ row :: later →
    Shell.elapsed timers now row →
      row.kind ≠ .reaction ∧ row.target = row.convSeq ∧ ∀ it ∈ before, ¬row.pointsAt it
  | upgrade source _ => ∀ it ∈ inbox, it.convId ≠ source

/-! ## One row merged -/

section

variable {merged inbox before later : List DisplayRow} {row it : DisplayRow} {convId : String}
  {target : UInt64}

theorem addNew_of_new (h : ∀ it ∈ merged, ¬row.sameKey it) : addNew merged row = merged ++ [row] :=
  if_neg fun hany ↦ by
    obtain ⟨it, hit, hkey⟩ := List.any_eq_true.mp hany
    exact h it hit hkey

theorem DisplayRow.sameKey_self : row.sameKey row = true := by
  simp only [sameKey, beq_self_eq_true, Bool.and_self]

theorem DisplayRow.sameReaction_self (h : row.kind = .reaction) : row.sameReaction row = true := by
  simp only [sameReaction, h, beq_self_eq_true, Bool.and_self, Bool.or_true]

theorem addNew_of_mem (h : row ∈ merged) : addNew merged row = merged :=
  if_pos (List.any_eq_true.mpr ⟨row, h, DisplayRow.sameKey_self⟩)

theorem visit_plain (h : row.kind ∉ [.reaction, .expired, .deleted, .removed, .reactionRemoved]) :
    mergeDisplayRows.visit merged row = addNew merged row := by
  simp only [List.mem_cons, List.not_mem_nil, or_false, not_or] at h
  unfold mergeDisplayRows.visit
  split <;> simp_all

theorem visit_reaction (h : row.kind = .reaction) : mergeDisplayRows.visit merged row =
    if merged.any row.sameReaction then merged else merged ++ [row] := by
  unfold mergeDisplayRows.visit
  rw [h]

theorem visit_expired (h : row.kind = .expired) : mergeDisplayRows.visit merged row =
    addNew (modifyFirst row.pointsAt Shell.expireRow merged) row := by
  unfold mergeDisplayRows.visit
  rw [h]
  rfl

/-- A marker takes away what the core takes away. -/
theorem visit_removed (sentAt : UInt64) :
    mergeDisplayRows.visit merged (Shell.removedMarker convId target sentAt false) =
      Shell.removeTarget merged convId target := by
  rw [Shell.removeTarget_eq]
  change List.map _ (List.filter _ (List.filter _ merged)) = _
  rw [List.filter_filter]
  congr 1
  · funext it
    unfold DisplayRow.withoutQuote unquoted quotes
    simp only [Shell.removedMarker, Shell.blankRow, beq_iff_eq, bne_iff_ne, ne_eq, Bool.and_eq_true,
      decide_eq_true_eq]
  · refine List.filter_congr fun it _ ↦ ?_
    simp only [DisplayRow.takesAway, Shell.removedMarker, Shell.blankRow, Shell.survivesRemoval]
    by_cases hconv : it.convId = convId
    · simp only [hconv, beq_self_eq_true, Bool.true_and, ne_eq, not_true_eq_false, if_false]
      cases it.convSeq == target && it.kind != .reaction <;>
        cases it.kind == .reaction && it.target == target <;>
          cases it.kind == .deleted && it.target == target <;> rfl
    · simp [hconv]

/-- A hidden row that points at no row that is shown changes nothing but what it adds. -/
theorem visit_hidden (hrow : row.Held) (hhidden : row.hidden = true) (hheld : ∀ it ∈ merged, it.Held)
    (hclear : ∀ it, merged.find? row.pointsAt = some it → it.hidden = true) :
    mergeDisplayRows.visit merged row = addNew merged row := by
  have hkind : row.kind = .expired := (congrArg DisplayRow.kind (hrow.hidden hhidden)).symm
  rw [visit_expired hkind, modifyFirst_of_fixed]
  exact fun it hit ↦ (hheld it (List.mem_of_find?_eq_some hit)).hidden (hclear it hit)

/-- A row that is there is not added. -/
theorem visit_mem (hheld : ∀ it ∈ inbox, it.Held) (hclear : Clear inbox) (hrow : row ∈ inbox) :
    mergeDisplayRows.visit inbox row = inbox := by
  cases hhidden : row.hidden with
  | true =>
    rw [visit_hidden (hheld row hrow) hhidden hheld (hclear row hrow hhidden), addNew_of_mem hrow]
  | false =>
    by_cases hkind : row.kind = .reaction
    · rw [visit_reaction hkind]
      exact if_pos (List.any_eq_true.mpr ⟨row, hrow, row.sameReaction_self hkind⟩)
    · rw [visit_plain fun h ↦ ?_, addNew_of_mem hrow]
      exact (hheld row hrow).kind hhidden ((List.mem_cons.mp h).resolve_left hkind)

/-- Reconciling with the inbox changes nothing. -/
theorem mergeDisplayRows_self (hheld : ∀ it ∈ inbox, it.Held) (hclear : Clear inbox) :
    mergeDisplayRows inbox inbox = inbox := by
  have hfold (rows : List DisplayRow) (hrows : rows ⊆ inbox) :
      rows.foldl mergeDisplayRows.visit inbox = inbox := by
    induction rows with
    | nil => rfl
    | cons row rows ih =>
      rw [List.foldl_cons, visit_mem hheld hclear (hrows List.mem_cons_self)]
      exact ih fun it hit ↦ hrows (List.mem_cons_of_mem _ hit)
  rw [mergeDisplayRows_eq]
  exact hfold inbox fun _ ↦ id

/-- A row that is told from those before it is added. -/
theorem visit_apart (hheld : ∀ it ∈ before ++ row :: later, it.Held) (hclear : Clear (before ++ row :: later))
    (hapart : ∀ it ∈ before, ¬it.confused row) :
    mergeDisplayRows.visit before row = before ++ [row] := by
  have hrow : row ∈ before ++ row :: later := List.mem_append_right _ List.mem_cons_self
  have hnew (hkind : row.kind ≠ .reaction) : addNew before row = before ++ [row] :=
    addNew_of_new fun it hit hkey ↦ hapart it hit (by rwa [DisplayRow.confused, if_neg hkind])
  cases hhidden : row.hidden with
  | true =>
    have hkind : row.kind = .expired := (congrArg DisplayRow.kind ((hheld row hrow).hidden hhidden)).symm
    rw [visit_hidden (hheld row hrow) hhidden fun it hit ↦ hheld it (List.mem_append_left _ hit),
      hnew (by rw [hkind]; nofun)]
    intro it hit
    refine hclear row hrow hhidden it ?_
    rw [List.find?_append, hit, Option.some_or]
  | false =>
    by_cases hkind : row.kind = .reaction
    · rw [visit_reaction hkind, if_neg]
      intro hany
      obtain ⟨it, hit, hsame⟩ := List.any_eq_true.mp hany
      exact hapart it hit (by rwa [DisplayRow.confused, if_pos hkind])
    · rw [visit_plain fun h ↦ ?_, hnew hkind]
      exact (hheld row hrow).kind hhidden ((List.mem_cons.mp h).resolve_left hkind)

/-- The snapshot is seeded with the inbox. -/
theorem mergeDisplayRows_nil (h : Seedable inbox) : mergeDisplayRows [] inbox = inbox := by
  have hfold (before later : List DisplayRow) (hsplit : inbox = before ++ later) :
      later.foldl mergeDisplayRows.visit before = inbox := by
    induction later generalizing before with
    | nil => rw [hsplit, List.append_nil, List.foldl_nil]
    | cons row later ih =>
      have hapart : ∀ it ∈ before, ¬it.confused row := fun it hit ↦
        (List.pairwise_append.mp (hsplit ▸ h.apart)).2.2 it hit row List.mem_cons_self
      have hheld : ∀ it ∈ before ++ row :: later, it.Held := hsplit ▸ h.held
      rw [List.foldl_cons, visit_apart hheld (hsplit ▸ h.clear) hapart]
      exact ih _ (hsplit.trans (List.append_cons ..))
  rw [mergeDisplayRows_eq]
  exact hfold [] inbox rfl

end

/-! ## One change -/

/-- The rows are as the core keeps them, and the hidden ones point at none that is shown. -/
structure Orderly (inbox : List DisplayRow) : Prop where
  held : ∀ row ∈ inbox, row.Held
  clear : Clear inbox

section

variable {inbox : List DisplayRow} {row : DisplayRow} {convId emoji sender name : String}
  {target : UInt64} {header : AppHeader}

/-- A row that is not hidden is put in. -/
theorem Orderly.push (h : Orderly inbox) (hshown : row.hidden = false) (hrow : row.Held)
    (hpoint : ∀ it ∈ inbox, it.hidden = true → it.pointsAt row → ∃ q ∈ inbox, it.pointsAt q) :
    Orderly (inbox ++ [row]) where
  held it hit := (List.mem_append.mp hit).elim (h.held it) fun hit ↦ List.mem_singleton.mp hit ▸ hrow
  clear it hit hhidden q hq := by
    cases List.mem_append.mp hit with
    | inr hit =>
      rw [List.mem_singleton.mp hit, hshown] at hhidden
      cases hhidden
    | inl hit =>
      rw [List.find?_append] at hq
      cases hfirst : inbox.find? it.pointsAt with
      | some first =>
        rw [hfirst, Option.some_or] at hq
        exact h.clear it hit hhidden q (hfirst.trans hq)
      | none =>
        rw [hfirst, Option.none_or] at hq
        have hlast : it.pointsAt row = true := by
          have hpoints := List.find?_some hq
          rwa [List.mem_singleton.mp (List.mem_of_find?_eq_some hq)] at hpoints
        obtain ⟨other, hother, hpoints⟩ := hpoint it hit hhidden hlast
        exact absurd hpoints (List.find?_eq_none.mp hfirst other hother)

theorem DisplayRow.held_reaction : ((reactionRow convId header target emoji).by sender name).Held :=
  ⟨nofun, fun _ ↦ by simp [DisplayRow.by, reactionRow]⟩

theorem find?_eraseP {α : Type} {p q : α → Bool} (hpq : ∀ a, p a → ¬q a) (l : List α) :
    (l.eraseP p).find? q = l.find? q := by
  induction l with
  | nil => rfl
  | cons a l ih =>
    by_cases hp : p a
    · rw [List.eraseP_cons_of_pos hp, List.find?_cons_of_neg (hpq a hp)]
    · rw [List.eraseP_cons_of_neg hp, List.find?_cons, List.find?_cons, ih]

/-- A reaction is taken back. -/
theorem Orderly.takeBack (h : Orderly inbox) :
    Orderly (inbox.eraseP (Shell.matchesReaction convId target emoji false sender)) where
  held it hit := h.held it (List.mem_of_mem_eraseP hit)
  clear it hit hhidden q hq := by
    refine h.clear it (List.mem_of_mem_eraseP hit) hhidden q ?_
    rwa [find?_eraseP fun r hr hpoints ↦ ?_] at hq
    simp only [Shell.matchesReaction, DisplayRow.pointsAt, Bool.and_eq_true, beq_iff_eq,
      bne_iff_ne] at hr hpoints
    exact hpoints.2 hr.1.1.1.2

theorem eraseP_takesBack (sentAt : UInt64)
    (hfound : inbox.any (Shell.matchesReaction convId target emoji false sender))
    (hfirst : ∀ it, inbox.find? (reactsWith convId target emoji) = some it → it.senderId = sender) :
    inbox.eraseP (Shell.reactionRemovedMarker convId target emoji sentAt false).takesBack =
      inbox.eraseP (Shell.matchesReaction convId target emoji false sender) := by
  have htakes : (Shell.reactionRemovedMarker convId target emoji sentAt false).takesBack =
      reactsWith convId target emoji := rfl
  have hmatches (it : DisplayRow) : Shell.matchesReaction convId target emoji false sender it =
      (reactsWith convId target emoji it && it.senderId == sender) := by
    simp only [Shell.matchesReaction, reactsWith, Bool.false_eq_true, if_false, Bool.and_assoc]
  rw [htakes]
  induction inbox with
  | nil => rfl
  | cons it inbox ih =>
    by_cases hreacts : reactsWith convId target emoji it
    · have hsender := hfirst it (List.find?_cons_of_pos hreacts)
      have hfound : Shell.matchesReaction convId target emoji false sender it = true := by
        rw [hmatches, hreacts, hsender, beq_self_eq_true, Bool.and_self]
      rw [List.eraseP_cons_of_pos hreacts, List.eraseP_cons_of_pos hfound]
    · have hnot : ¬Shell.matchesReaction convId target emoji false sender it = true := by
        rw [hmatches, Bool.and_eq_true]
        exact fun h ↦ hreacts h.1
      rw [List.any_cons, Bool.or_eq_true, or_iff_right hnot] at hfound
      rw [List.eraseP_cons_of_neg hreacts, List.eraseP_cons_of_neg hnot,
        ih hfound fun q hq ↦ hfirst q (by rwa [List.find?_cons_of_neg hreacts])]

theorem hidden_unquoted (convId : String) (target : UInt64) (it : DisplayRow) :
    (unquoted convId target it).hidden = it.hidden := by
  unfold unquoted
  split_ifs <;> rfl

theorem pointsAt_unquoted (convId : String) (target : UInt64) (it q : DisplayRow) :
    (unquoted convId target it).pointsAt (unquoted convId target q) = it.pointsAt q := by
  unfold unquoted
  split_ifs <;> rfl

theorem DisplayRow.Held.unquoted (h : row.Held) (convId : String) (target : UInt64) :
    (unquoted convId target row).Held := by
  unfold Client.unquoted
  split_ifs
  · exact ⟨fun hhidden ↦ congrArg (fun r ↦ { r with replyTo := 0 }) (h.hidden hhidden), h.kind⟩
  · exact h

/-- Where one row with a number stays, all rows with the number stay. -/
theorem survives_of_pointsAt {it a first : DisplayRow} (h : Orderly inbox) (ha : a ∈ inbox)
    (hpa : it.pointsAt a = true) (hfirst : it.pointsAt first = true)
    (hsurvives : Shell.survivesRemoval convId target first = true) :
    Shell.survivesRemoval convId target a = true := by
  simp only [DisplayRow.pointsAt, Bool.and_eq_true, beq_iff_eq, bne_iff_ne] at hpa hfirst
  obtain ⟨⟨haconv, haseq⟩, hakind⟩ := hpa
  obtain ⟨⟨hfconv, hfseq⟩, hfkind⟩ := hfirst
  have hdeleted : a.kind ≠ .deleted := fun hdeleted ↦ by
    cases hahidden : a.hidden with
    | true =>
      have hexpired := congrArg DisplayRow.kind ((h.held a ha).hidden hahidden)
      rw [hdeleted] at hexpired
      cases hexpired
    | false => exact (h.held a ha).kind hahidden (by simp [hdeleted])
  unfold Shell.survivesRemoval at hsurvives ⊢
  rw [hfconv, hfseq] at hsurvives
  rw [haconv, haseq]
  by_cases hconv : it.convId = convId
  · have htarget : it.target ≠ target := fun htarget ↦ by
      simp [hconv, htarget, hfkind] at hsurvives
    simp [hconv, htarget, hakind, hdeleted]
  · rw [if_pos hconv]

/-- A message is deleted: the rows with a number all go or all stay. -/
theorem Orderly.remove (h : Orderly inbox) : Orderly (Shell.removeTarget inbox convId target) := by
  rw [Shell.removeTarget_eq]
  constructor
  · intro row hrow
    obtain ⟨it, hit, rfl⟩ := List.mem_map.mp hrow
    exact (h.held it (List.mem_filter.mp hit).1).unquoted convId target
  · intro row hrow hhidden q hq
    obtain ⟨it, hit, rfl⟩ := List.mem_map.mp hrow
    obtain ⟨hmem, hstays⟩ := List.mem_filter.mp hit
    rw [hidden_unquoted] at hhidden
    rw [List.find?_map, Option.map_eq_some_iff] at hq
    obtain ⟨first, hfirst, rfl⟩ := hq
    rw [hidden_unquoted]
    have hsurvives := (List.mem_filter.mp (List.mem_of_find?_eq_some hfirst)).2
    have hpoints := List.find?_some hfirst
    rw [Function.comp_apply, pointsAt_unquoted] at hpoints
    refine h.clear it hmem hhidden first ?_
    rw [List.find?_filter] at hfirst
    rw [← hfirst]
    refine List.find?_congr fun a ha ↦ ?_
    rw [Function.comp_apply, pointsAt_unquoted, Bool.eq_iff_iff, decide_eq_true_iff]
    exact ⟨fun hpa ↦ ⟨survives_of_pointsAt h ha hpa hpoints hsurvives, hpa⟩, And.right⟩

/-! ## Timers that run out -/

/-- What an expiry may take for an expired row is what it would take for the row, as long as no
reaction expires. -/
theorem pointsAt_expired {timers : FiniteMap String UInt64} {now : UInt64} {it : DisplayRow}
    (h : Shell.elapsed timers now it → it.kind ≠ .reaction) (row : DisplayRow) :
    row.pointsAt (if Shell.elapsed timers now it then Shell.expireRow it else it) = row.pointsAt it := by
  split_ifs with helapsed
  · have hkind : (it.kind != .reaction) = true := bne_iff_ne.mpr (h helapsed)
    simp only [DisplayRow.pointsAt, Shell.expireRow, hkind]
    rfl
  · rfl

/-- The rows that expire are found in the snapshot, one after the other. -/
theorem foldl_expired {timers : FiniteMap String UInt64} {now : UInt64}
    (htold : (InboxChange.expire timers now).Told inbox) (before later : List DisplayRow)
    (hsplit : inbox = before ++ later) :
    ((later.filter (Shell.elapsed timers now)).map Shell.expireRow).foldl mergeDisplayRows.visit
        (Shell.expireInbox timers now before ++ later) = Shell.expireInbox timers now inbox := by
  induction later generalizing before with
  | nil =>
    rw [hsplit, List.append_nil, List.append_nil]
    rfl
  | cons row later ih =>
    have hnext : inbox = (before ++ [row]) ++ later := hsplit.trans (List.append_cons ..)
    have hlast : Shell.expireInbox timers now (before ++ [row]) ++ later =
        Shell.expireInbox timers now before ++
          (if Shell.elapsed timers now row then Shell.expireRow row else row) :: later := by
      simp only [Shell.expireInbox, List.map_append, List.map_cons, List.map_nil, List.append_assoc,
        List.singleton_append]
    by_cases helapsed : Shell.elapsed timers now row
    · obtain ⟨hkind, htarget, hfirst⟩ := htold before row later hsplit helapsed
      have hbefore : ∀ it ∈ Shell.expireInbox timers now before, ¬(Shell.expireRow row).pointsAt it := by
        intro it hit
        obtain ⟨old, hold, rfl⟩ := List.mem_map.mp hit
        obtain ⟨front, back, hbefore⟩ := List.append_of_mem hold
        rw [pointsAt_expired fun helapsed ↦ (htold front old (back ++ row :: later)
          (by rw [hsplit, hbefore, List.append_assoc, List.cons_append]) helapsed).1]
        exact hfirst old hold
      have hself : (Shell.expireRow row).pointsAt row = true := by
        simp [DisplayRow.pointsAt, Shell.expireRow, htarget, hkind]
      rw [List.filter_cons_of_pos helapsed, List.map_cons, List.foldl_cons, visit_expired rfl,
        modifyFirst_append_cons hbefore hself,
        addNew_of_mem (List.mem_append_right _ List.mem_cons_self)]
      rw [if_pos helapsed] at hlast
      rw [← hlast]
      exact ih _ hnext
    · rw [List.filter_cons_of_neg helapsed]
      rw [if_neg helapsed] at hlast
      rw [← hlast]
      exact ih _ hnext

theorem Orderly.expire {timers : FiniteMap String UInt64} {now : UInt64} (h : Orderly inbox)
    (htold : (InboxChange.expire timers now).Told inbox) :
    Orderly (Shell.expireInbox timers now inbox) where
  held row hrow := by
    obtain ⟨it, hit, rfl⟩ := List.mem_map.mp hrow
    split_ifs
    · exact ⟨fun _ ↦ rfl, nofun⟩
    · exact h.held it hit
  clear row hrow hhidden q hq := by
    obtain ⟨it, hit, rfl⟩ := List.mem_map.mp hrow
    have hkinds (a : DisplayRow) (ha : a ∈ inbox) (helapsed : Shell.elapsed timers now a) :
        a.kind ≠ .reaction := by
      obtain ⟨before, later, hsplit⟩ := List.append_of_mem ha
      exact (htold before a later hsplit helapsed).1
    rw [Shell.expireInbox, List.find?_map, Option.map_eq_some_iff] at hq
    obtain ⟨first, hfirst, rfl⟩ := hq
    have hcongr (p : DisplayRow → Bool) (hp : ∀ a ∈ inbox, p a = it.pointsAt a) :
        inbox.find? p = inbox.find? it.pointsAt := List.find?_congr hp
    have hpoints (a : DisplayRow) :
        (if Shell.elapsed timers now it then Shell.expireRow it else it).pointsAt a = it.pointsAt a := by
      split_ifs <;> rfl
    rw [hcongr _ fun a ha ↦ by
      rw [Function.comp_apply, pointsAt_expired (hkinds a ha), hpoints]] at hfirst
    by_cases helapsed : Shell.elapsed timers now it
    · -- the row is the first it points at
      obtain ⟨before, later, hsplit⟩ := List.append_of_mem hit
      obtain ⟨hkind, htarget, hbefore⟩ := htold before it later hsplit helapsed
      have hself : it.pointsAt it = true := by simp [DisplayRow.pointsAt, htarget, hkind]
      rw [hsplit, List.find?_append, List.find?_eq_none.mpr hbefore, Option.none_or,
        List.find?_cons_of_pos hself] at hfirst
      cases hfirst
      rwa [if_pos helapsed] at hhidden ⊢
    · rw [if_neg helapsed] at hhidden
      have hshown := h.clear it hit hhidden first hfirst
      split_ifs
      · rfl
      · exact hshown

/-! ## Runs -/

theorem mergeDisplayRows_singleton (merged : List DisplayRow) (row : DisplayRow) :
    mergeDisplayRows merged [row] = mergeDisplayRows.visit merged row := rfl

theorem sameReaction_reactionRow : ((reactionRow convId header target emoji).by sender name).sameReaction =
    Shell.matchesReaction convId target emoji false sender := by
  funext it
  simp only [DisplayRow.sameReaction, DisplayRow.by, reactionRow, Shell.blankRow, Shell.matchesReaction,
    Bool.and_assoc, Bool.false_eq_true, if_false]
  cases it.outgoing <;> simp

/-- A change the snapshot tells from others is merged into an equal inbox. -/
theorem Orderly.change (h : Orderly inbox) (change : InboxChange) (htold : change.Told inbox) :
    Orderly (change.apply inbox).2 ∧
      mergeDisplayRows inbox (change.apply inbox).1 = (change.apply inbox).2 := by
  cases change with
  | push row hplain =>
    obtain ⟨hnew, hpoint⟩ := htold
    have hheld : row.Held :=
      ⟨fun hhidden ↦ absurd (hplain.1.symm.trans hhidden) Bool.false_ne_true,
        fun _ hkind ↦ hplain.2 (List.mem_cons_of_mem _ hkind)⟩
    refine ⟨h.push hplain.1 hheld hpoint, ?_⟩
    exact (visit_plain hplain.2).trans (addNew_of_new hnew)
  | react convId header target emoji sender name =>
    dsimp only [InboxChange.apply]
    split_ifs with hfound
    · refine ⟨h.takeBack, ?_⟩
      exact eraseP_takesBack header.sentAt hfound (htold hfound)
    · refine ⟨h.push rfl DisplayRow.held_reaction fun it _ _ hpoints ↦ ?_, ?_⟩
      · simp [DisplayRow.pointsAt, DisplayRow.by, reactionRow] at hpoints
      · rw [mergeDisplayRows_singleton, visit_reaction rfl, sameReaction_reactionRow, if_neg hfound]
  | delete convId target sentAt => exact ⟨h.remove, visit_removed sentAt⟩
  | expire timers now =>
    refine ⟨h.expire htold, ?_⟩
    rw [mergeDisplayRows_eq]
    exact foldl_expired htold [] inbox rfl
  | upgrade source target =>
    have hsame : (InboxChange.apply inbox (.upgrade source target)).2 = inbox :=
      (List.map_congr_left fun row hrow ↦ if_neg (htold row hrow)).trans (List.map_id inbox)
    rw [hsame]
    exact ⟨h, rfl⟩

end

/-- A snapshot that is seeded with an inbox follows it through every run whose changes it can tell. -/
theorem Screen.follows_changes {inbox : List DisplayRow} {changes : List InboxChange} (hseed : Seedable inbox)
    (htold : Allowed Screen.refresh (fun screen change ↦ change.Told screen.inbox) (Screen.seed inbox)
      changes) : (run Screen.refresh (Screen.seed inbox) changes).Follows := by
  have hrun := run_invariant (fun screen ↦ screen.snapshot = screen.inbox ∧ Orderly screen.inbox)
    (fun screen change hchange ⟨hsame, horderly⟩ ↦ by
      obtain ⟨hnext, hmerged⟩ := horderly.change change hchange
      refine ⟨?_, hnext⟩
      change mergeDisplayRows screen.snapshot _ = _
      rw [hsame, hmerged]
      rfl) htold ⟨mergeDisplayRows_nil hseed, hseed.held, hseed.clear⟩
  obtain ⟨hsame, horderly⟩ := hrun
  constructor
  · rw [hsame]
  · rw [hsame, mergeDisplayRows_self horderly.held horderly.clear]

/-- A text of the conversation `"aa"`. -/
def textRow (convSeq sentAt : UInt64) (text : String) : DisplayRow :=
  { Shell.blankRow "aa" convSeq sentAt false with text }

theorem textRow_plain (convSeq sentAt : UInt64) (text : String) : (textRow convSeq sentAt text).Plain :=
  ⟨rfl, by simp [textRow, Shell.blankRow]⟩

/-- Changes the snapshot tells apart, of every kind. -/
def quietChanges : List InboxChange :=
  [.push (textRow 2 20 "second") (textRow_plain ..),
    .react "aa" ⟨3, 21, none⟩ 1 "+" "bb" "", .react "aa" ⟨3, 22, none⟩ 1 "-" "cc" "",
    .react "aa" ⟨4, 23, none⟩ 1 "+" "bb" "", .delete "aa" 2 24, .expire ∅ 100, .upgrade "bb" "cc"]

set_option maxRecDepth 100000 in
theorem Screen.follows_changes_quiet :
    (run Screen.refresh (Screen.seed [textRow 1 10 "first"]) quietChanges).Follows := by
  refine Screen.follows_changes ⟨?_, ?_, ?_⟩ ⟨?_, ?_, ?_, ?_, ?_, ?_, ?_, ?_⟩
  · intro row hrow
    rw [List.mem_singleton.mp hrow]
    exact ⟨nofun, fun _ ↦ by decide⟩
  · intro row hrow hhidden
    rw [List.mem_singleton.mp hrow] at hhidden
    cases hhidden
  · exact List.pairwise_singleton _ _
  · constructor <;> decide +kernel
  · exact fun hfound ↦ absurd hfound (by decide +kernel)
  · exact fun hfound ↦ absurd hfound (by decide +kernel)
  · intro _ it hit
    have hfirst : (((run Screen.refresh (Screen.seed [textRow 1 10 "first"])
        (quietChanges.take 3)).inbox.find? (reactsWith "aa" 1 "+")).all (·.senderId == "bb")) = true := by
      decide +kernel
    rw [Option.all_eq_true] at hfirst
    exact eq_of_beq (hfirst it hit)
  · trivial
  · exact fun _ row _ _ helapsed ↦ absurd helapsed (by simp [Shell.elapsed])
  · unfold InboxChange.Told
    decide +kernel
  · trivial

set_option maxRecDepth 100000 in
/-- A text that expires stays in the snapshot; of two texts with one number the second is missing; and
when one member takes a reaction back, another's goes. -/
theorem Screen.not_follows :
    ¬(run Screen.refresh (Screen.seed [textRow 1 10 "first"])
        [.expire (AList.insert "aa" 60 ∅) 100]).Follows ∧
      ¬(run Screen.refresh (Screen.seed [textRow 1 10 "first"])
        [.push (textRow 1 20 "second") (textRow_plain ..)]).Follows ∧
      ¬(run Screen.refresh (Screen.seed [textRow 1 10 "first"])
        [.react "aa" ⟨2, 21, none⟩ 1 "+" "bb" "", .react "aa" ⟨2, 22, none⟩ 1 "+" "cc" "",
          .react "aa" ⟨3, 23, none⟩ 1 "+" "cc" ""]).Follows :=
  ⟨fun h ↦ absurd h.shown (by decide +kernel), fun h ↦ absurd h.shown (by decide +kernel),
    fun h ↦ absurd h.shown (by decide +kernel)⟩

end NemoMessenger.Client
