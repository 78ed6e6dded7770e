import Mathlib.Data.List.Basic
import NemoMessenger.Client.Inbox
import NemoMessenger.Data.Run

/-!
# What the user is told of

The shell posts a notification for an incoming row, and counts the row on the badge of its
conversation, where the row's number is above a mark that is kept for the conversation. The numbers are
those their authors chose, and the two lists of kinds leave out the files.

A mark is below a number just if the numbers of all rows it stands for are, which is what a row has to
be told of.
-/

namespace NemoMessenger.Client

open NemoMessenger.Data

/-! ## Notifications and badges -/

/-- `PendingNotify`. -/
structure PendingNotify where
  convId : String
  kind : String
  deriving DecidableEq

/-- `notifiable`. -/
def notifiable (kind : String) : Bool :=
  kind == "" || kind == "call_invite" || kind == "call_ringing"

/-- `countableForBadge`. -/
def countableForBadge (kind : String) : Bool :=
  kind == "" || kind == "call_invite" || kind == "call_ringing"

/-- `row.fetchToken.startsWith("local:")`. -/
def DisplayRow.isLocal (row : DisplayRow) : Bool := row.fetchToken.startsWith "local:"

/-- `marks[convId] ?: 0UL`. -/
def markIn (marks : FiniteMap String UInt64) (convId : String) : UInt64 :=
  (marks.lookup convId).getD 0

/-- One row in the loop of `pendingNotifies`. -/
def pendingNotifies.visit (told : List PendingNotify × FiniteMap String UInt64) (row : DisplayRow) :
    List PendingNotify × FiniteMap String UInt64 :=
  let (out, next) := told
  if row.isLocal then (out, next)
  else if row.outgoing || row.hidden then (out, next)
  else if row.convSeq ≤ markIn next row.convId then (out, next)
  else
    (if notifiable row.kind.name then out ++ [⟨row.convId, row.kind.name⟩] else out,
      next.insert row.convId (max (markIn next row.convId) row.convSeq))

/-- `pendingNotifies`. -/
def pendingNotifies (rows : List DisplayRow) (seen : FiniteMap String UInt64) :
    List PendingNotify × FiniteMap String UInt64 :=
  rows.foldl pendingNotifies.visit ([], seen)

/-- The rows the loop of `unreadCount` counts. -/
def countsUnread (convId : String) (mark : UInt64) (row : DisplayRow) : Bool :=
  row.convId == convId && !row.isLocal && !(row.outgoing || row.hidden) && !(row.convSeq ≤ mark) &&
    countableForBadge row.kind.name

/-- `unreadCount`. -/
def unreadCount (convId : String) (messages : List DisplayRow) (lastRead : FiniteMap String UInt64) :
    ℕ :=
  messages.countP (countsUnread convId (markIn lastRead convId))

/-- `maxSeqForConv`. -/
def maxSeqForConv (messages : List DisplayRow) (convId : String) : Option UInt64 :=
  ((messages.filter (·.convId == convId)).map (·.convSeq)).max?

/-- `markConversationRead`. -/
def markConversationRead (lastRead : FiniteMap String UInt64) (messages : List DisplayRow)
    (convId : String) : Bool × FiniteMap String UInt64 :=
  match maxSeqForConv messages convId with
  | none => (false, lastRead)
  | some top =>
    if markIn lastRead convId ≥ top then (false, lastRead) else (true, lastRead.insert convId top)

/-! ## The pane of a vault -/

/-- The rows that have come in, in their order, the notifications posted for them, and the marks. How
many rows had come in when a conversation was last marked read is a ghost. -/
structure Pane where
  messages : List DisplayRow
  posted : List PendingNotify
  seen : FiniteMap String UInt64
  lastRead : FiniteMap String UInt64
  readAt : FiniteMap String ℕ

/-- What the pane sees: rows it is given again, by their places, with rows that are new, or a
conversation that is opened. A batch of a fetch gives nothing again, and a snapshot everything. -/
inductive Glimpse
  | deliver (again : List ℕ) (fresh : List DisplayRow)
  | markRead (convId : String)

namespace Pane

/-- A pane before its first fetch. -/
def first : Pane := ⟨[], [], ∅, ∅, ∅⟩

/-- The pane after one turn. -/
def see (pane : Pane) : Glimpse → Pane
  | .deliver again fresh =>
    let rows := again.filterMap (pane.messages[·]?) ++ fresh
    let (pending, next) := pendingNotifies rows pane.seen
    { pane with messages := pane.messages ++ fresh, posted := pane.posted ++ pending, seen := next }
  | .markRead convId =>
    { pane with
      lastRead := (markConversationRead pane.lastRead pane.messages convId).2
      readAt := pane.readAt.insert convId pane.messages.length }

/-- The pane after a list of turns. -/
def after (glimpses : List Glimpse) : Pane := run see first glimpses

/-- The rows that had come in when the conversation was last marked read. -/
def old (pane : Pane) (convId : String) : List DisplayRow :=
  pane.messages.take ((pane.readAt.lookup convId).getD 0)

/-- The rows that have come in since. -/
def new (pane : Pane) (convId : String) : List DisplayRow :=
  pane.messages.drop ((pane.readAt.lookup convId).getD 0)

end Pane

/-! ## What the user should be told -/

/-- An incoming text, file, call invite or ringing row that is not hidden. -/
def DisplayRow.due (row : DisplayRow) : Bool :=
  !row.outgoing && !row.hidden && ["", "file", "call_invite", "call_ringing"].contains row.kind.name

/-- The notification of a row. -/
def DisplayRow.notice (row : DisplayRow) : PendingNotify := ⟨row.convId, row.kind.name⟩

/-- Every row that is due has been posted once and nothing else has, and a badge counts the rows that
are due and have come in since the conversation was marked read. -/
structure Pane.Told (pane : Pane) : Prop where
  posted : pane.posted.Perm ((pane.messages.filter (·.due)).map (·.notice))
  unread : ∀ convId, unreadCount convId pane.messages pane.lastRead =
    (pane.new convId).countP fun row ↦ row.convId == convId && row.due

/-- The rows the marks of `pendingNotifies` stand for. -/
def DisplayRow.heeded (row : DisplayRow) : Bool := !row.isLocal && !(row.outgoing || row.hidden)

/-- The row is no file and has no token of an optimistic row, and its number is above zero and above
those of the rows of its conversation in the list, as far as `stands` takes them. -/
structure DisplayRow.Above (stands : DisplayRow → Bool) (rows : List DisplayRow) (row : DisplayRow) :
    Prop where
  kind : row.kind.name ≠ "file"
  token : row.isLocal = false
  positive : 0 < row.convSeq
  above : ∀ q ∈ rows, stands q → q.convId = row.convId → q.convSeq < row.convSeq

/-- A row that is due is above the incoming rows before it, and where it has come in since its
conversation was marked read, above every row that was there then. -/
structure Pane.Rising (pane : Pane) : Prop where
  posted : ∀ rows row, rows ++ [row] <+: pane.messages → row.due → row.Above (·.heeded) rows
  unread : ∀ convId, ∀ row ∈ pane.new convId, row.convId = convId → row.due →
    row.Above (fun _ ↦ true) (pane.old convId)

/-! ## Marks -/

theorem max_le_iff_seq {a b n : UInt64} : max a b ≤ n ↔ a ≤ n ∧ b ≤ n := by
  have hmax : max a b = if a ≤ b then b else a := rfl
  rw [hmax]
  simp only [UInt64.le_iff_toNat_le]
  split_ifs <;> omega

theorem max_lt_iff_seq {a b n : UInt64} : max a b < n ↔ a < n ∧ b < n := by
  have hmax : max a b = if a ≤ b then b else a := rfl
  rw [hmax]
  split_ifs with hle <;> simp only [UInt64.le_iff_toNat_le, UInt64.lt_iff_toNat_lt] at * <;> omega

instance instLawfulOrderMaxUInt64 : Std.LawfulOrderMax UInt64 where
  max_eq_or a b := by
    have hmax : max a b = if a ≤ b then b else a := rfl
    rw [hmax]
    split_ifs
    · exact .inr rfl
    · exact .inl rfl
  max_le_iff _ _ _ := max_le_iff_seq

/-- The mark is the highest number of the rows of the conversation it stands for, and zero where there
are none. -/
def IsMark (stands : DisplayRow → Bool) (rows : List DisplayRow) (convId : String) (mark : UInt64) :
    Prop :=
  ∀ n, mark < n ↔ 0 < n ∧ ∀ q ∈ rows, stands q → q.convId = convId → q.convSeq < n

section

variable {stands : DisplayRow → Bool} {rows : List DisplayRow} {row : DisplayRow} {convId : String}
  {mark : UInt64}

theorem isMark_nil : IsMark stands [] convId 0 := fun _ ↦
  ⟨fun h ↦ ⟨h, fun _ hq ↦ absurd hq List.not_mem_nil⟩, And.left⟩

theorem IsMark.push {mark' : UInt64} (h : IsMark stands rows convId mark) (hstands : stands row)
    (hconv : row.convId = convId) (hmark : ∀ n, mark' < n ↔ mark < n ∧ row.convSeq < n) :
    IsMark stands (rows ++ [row]) convId mark' := by
  intro n
  rw [hmark, h n]
  simp only [List.mem_append, List.mem_singleton]
  constructor
  · intro ⟨⟨hn, hrows⟩, hrow⟩
    refine ⟨hn, fun q hq hqs hqc ↦ ?_⟩
    cases hq with
    | inl hq => exact hrows q hq hqs hqc
    | inr hq => rwa [hq]
  · intro ⟨hn, hall⟩
    exact ⟨⟨hn, fun q hq ↦ hall q (.inl hq)⟩, hall row (.inr rfl) hstands hconv⟩

theorem IsMark.skip (h : IsMark stands rows convId mark) (hrow : stands row → row.convId ≠ convId) :
    IsMark stands (rows ++ [row]) convId mark := by
  intro n
  rw [h n]
  refine and_congr_right fun _ ↦ ⟨fun hrows q hq hqs hqc ↦ ?_, fun hall q hq ↦
    hall q (List.mem_append_left _ hq)⟩
  cases List.mem_append.mp hq with
  | inl hq => exact hrows q hq hqs hqc
  | inr hq =>
    rw [List.mem_singleton] at hq
    subst hq
    exact absurd hqc (hrow hqs)

/-- A row the mark stands for is not above it. -/
theorem IsMark.le_of_mem (h : IsMark stands rows convId mark) (hmem : row ∈ rows) (hstands : stands row)
    (hconv : row.convId = convId) : row.convSeq ≤ mark := by
  rw [← UInt64.not_lt]
  intro hlt
  exact UInt64.lt_irrefl _ (((h row.convSeq).mp hlt).2 row hmem hstands hconv)

/-- A row of the kinds that are listed is above the rows where its number is above their mark. -/
theorem IsMark.above_iff (h : IsMark stands rows row.convId mark) (hkind : row.kind.name ≠ "file")
    (htoken : row.isLocal = false) : row.Above stands rows ↔ mark < row.convSeq := by
  rw [h row.convSeq]
  exact ⟨fun ha ↦ ⟨ha.positive, ha.above⟩, fun ⟨hpos, habove⟩ ↦ ⟨hkind, htoken, hpos, habove⟩⟩

end

/-! ## One row at a time -/

theorem notifiable_iff {row : DisplayRow} (hshown : (row.outgoing || row.hidden) = false) :
    notifiable row.kind.name = true ↔ row.due = true ∧ row.kind.name ≠ "file" := by
  simp only [Bool.or_eq_false_iff] at hshown
  simp only [notifiable, DisplayRow.due, hshown, List.contains_cons, List.contains_nil, Bool.or_false,
    Bool.not_false, Bool.true_and, Bool.or_eq_true, beq_iff_eq]
  constructor
  · rintro ((h | h) | h) <;> rw [h] <;> decide
  · rintro ⟨h | h | h | h, hne⟩
    · exact .inl (.inl h)
    · exact absurd h hne
    · exact .inl (.inr h)
    · exact .inr h

theorem DisplayRow.shown_of_due {row : DisplayRow} (h : row.due) :
    (row.outgoing || row.hidden) = false := by
  simp only [DisplayRow.due, Bool.and_eq_true, Bool.not_eq_true'] at h
  simp only [h, Bool.or_self]

/-- The notifications that have been posted for the rows: for those that are due and above the incoming
rows before them. -/
inductive Posted : List DisplayRow → List PendingNotify → Prop
  | nil : Posted [] []
  | told {rows : List DisplayRow} {out : List PendingNotify} {row : DisplayRow} (h : Posted rows out)
      (hdue : row.due) (habove : row.Above (·.heeded) rows) :
      Posted (rows ++ [row]) (out ++ [row.notice])
  | passed {rows : List DisplayRow} {out : List PendingNotify} {row : DisplayRow} (h : Posted rows out)
      (hrow : row.due → ¬row.Above (·.heeded) rows) : Posted (rows ++ [row]) out

/-- What the loop of `pendingNotifies` has made of the rows. -/
structure Visited (rows : List DisplayRow) (told : List PendingNotify × FiniteMap String UInt64) :
    Prop where
  posted : Posted rows told.1
  marks : ∀ convId, IsMark (·.heeded) rows convId (markIn told.2 convId)

section

variable {rows again : List DisplayRow} {row : DisplayRow}
  {told : List PendingNotify × FiniteMap String UInt64}

theorem Visited.visit (h : Visited rows told) :
    Visited (rows ++ [row]) (pendingNotifies.visit told row) := by
  obtain ⟨out, next⟩ := told
  have hskip (hnot : row.heeded = false) (habove : row.due → ¬row.Above (·.heeded) rows) :
      Visited (rows ++ [row]) (out, next) :=
    ⟨h.posted.passed habove, fun convId ↦ (h.marks convId).skip fun hheeded ↦
      absurd hheeded (Bool.eq_false_iff.mp hnot)⟩
  unfold pendingNotifies.visit
  dsimp only
  split_ifs with hlocal hshown hseq hkind
  · exact hskip (by simp [DisplayRow.heeded, hlocal]) fun _ ha ↦ by
      rw [ha.token] at hlocal
      cases hlocal
  · refine hskip (by simp only [DisplayRow.heeded, hshown, Bool.not_true, Bool.and_false]) fun hdue ↦ ?_
    rw [row.shown_of_due hdue] at hshown
    cases hshown
  all_goals
    rw [Bool.not_eq_true] at hlocal hshown
    have hheeded : row.heeded = true := by simp only [DisplayRow.heeded, hlocal, hshown]; rfl
  · -- the number is not above the mark
    refine ⟨h.posted.passed fun _ ha ↦ ?_, fun convId ↦ ?_⟩
    · exact UInt64.not_lt.mpr hseq (((h.marks row.convId).above_iff ha.kind ha.token).mp ha)
    · by_cases hconv : row.convId = convId
      · subst hconv
        exact (h.marks row.convId).push hheeded rfl fun n ↦
          ⟨fun hn ↦ ⟨hn, UInt64.lt_of_le_of_lt hseq hn⟩, And.left⟩
      · exact (h.marks convId).skip fun _ ↦ hconv
  all_goals
    have hmarks (convId : String) : IsMark (·.heeded) (rows ++ [row]) convId
        (markIn (next.insert row.convId (max (markIn next row.convId) row.convSeq)) convId) := by
      unfold markIn
      rw [FiniteMap.lookup_insert_ite]
      split_ifs with hconv
      · subst hconv
        exact (h.marks row.convId).push hheeded rfl fun n ↦ max_lt_iff_seq
      · exact (h.marks convId).skip fun _ ↦ Ne.symm hconv
  · obtain ⟨hdue, hfile⟩ := (notifiable_iff hshown).mp hkind
    exact ⟨h.posted.told hdue (((h.marks row.convId).above_iff hfile hlocal).mpr (UInt64.not_le.mp hseq)),
      hmarks⟩
  · exact ⟨h.posted.passed fun hdue ha ↦ hkind ((notifiable_iff hshown).mpr ⟨hdue, ha.kind⟩), hmarks⟩

/-- A row that has been seen is passed over. -/
theorem Visited.visit_again (h : Visited rows told) (hmem : row ∈ rows) :
    pendingNotifies.visit told row = told := by
  obtain ⟨out, next⟩ := told
  unfold pendingNotifies.visit
  dsimp only
  split_ifs with hlocal hshown hseq
  · rfl
  · rfl
  · rfl
  all_goals
    have hheeded : row.heeded = true := by
      rw [Bool.not_eq_true] at hlocal hshown
      simp only [DisplayRow.heeded, hlocal, hshown]
      rfl
    exact absurd ((h.marks row.convId).le_of_mem hmem hheeded rfl) hseq

theorem Visited.foldl (h : Visited rows told) (fresh : List DisplayRow) :
    Visited (rows ++ fresh) (fresh.foldl pendingNotifies.visit told) := by
  induction fresh generalizing rows told with
  | nil => rwa [List.append_nil]
  | cons row fresh ih =>
    rw [List.append_cons]
    exact ih h.visit

theorem Visited.foldl_again (h : Visited rows told) (hagain : again ⊆ rows) :
    again.foldl pendingNotifies.visit told = told := by
  induction again with
  | nil => rfl
  | cons row again ih =>
    rw [List.foldl_cons, h.visit_again (hagain List.mem_cons_self)]
    exact ih fun _ hq ↦ hagain (List.mem_cons_of_mem _ hq)

end

/-- What is posted for a batch comes after what has been posted before. -/
theorem foldl_visit (rows : List DisplayRow) (out : List PendingNotify)
    (seen : FiniteMap String UInt64) : rows.foldl pendingNotifies.visit (out, seen) =
      (out ++ (pendingNotifies rows seen).1, (pendingNotifies rows seen).2) := by
  have hvisit (before out : List PendingNotify) (next : FiniteMap String UInt64) (row : DisplayRow) :
      pendingNotifies.visit (before ++ out, next) row =
        (before ++ (pendingNotifies.visit (out, next) row).1,
          (pendingNotifies.visit (out, next) row).2) := by
    unfold pendingNotifies.visit
    dsimp only
    split_ifs
    · rfl
    · rfl
    · rfl
    · rw [List.append_assoc]
    · rfl
  have hfold (before out : List PendingNotify) (next : FiniteMap String UInt64) :
      rows.foldl pendingNotifies.visit (before ++ out, next) =
        (before ++ (rows.foldl pendingNotifies.visit (out, next)).1,
          (rows.foldl pendingNotifies.visit (out, next)).2) := by
    induction rows generalizing out next with
    | nil => rfl
    | cons row rows ih => rw [List.foldl_cons, hvisit, ih, List.foldl_cons]
  have h := hfold out [] seen
  rwa [List.append_nil] at h

/-! ## What has been posted -/

/-- The notifications posted are those of all rows that are due just if these were all above the rows
before them. -/
theorem Posted.sublist_and_length_iff {rows : List DisplayRow} {out : List PendingNotify}
    (h : Posted rows out) : out.Sublist ((rows.filter (·.due)).map (·.notice)) ∧
      (out.length = (rows.filter (·.due)).length ↔
        ∀ before row, before ++ [row] <+: rows → row.due → row.Above (·.heeded) before) := by
  have hstarts (rows : List DisplayRow) (row : DisplayRow) :
      (∀ before q, before ++ [q] <+: rows ++ [row] → q.due → q.Above (·.heeded) before) ↔
        (row.due → row.Above (·.heeded) rows) ∧
          ∀ before q, before ++ [q] <+: rows → q.due → q.Above (·.heeded) before := by
    simp only [List.prefix_concat_iff]
    constructor
    · exact fun hall ↦ ⟨hall rows row (.inl rfl), fun before q hq ↦ hall before q (.inr hq)⟩
    · rintro ⟨hrow, hrows⟩ before q (heq | hq)
      · obtain ⟨rfl, hlast⟩ := List.append_inj' heq rfl
        cases hlast
        exact hrow
      · exact hrows before q hq
  induction h with
  | nil =>
    exact ⟨.slnil, iff_of_true rfl fun before row hrow ↦
      absurd (List.prefix_nil.mp hrow) (List.append_ne_nil_of_right_ne_nil _ (List.cons_ne_nil _ _))⟩
  | told h hdue habove ih =>
    rw [hstarts, List.filter_append, List.filter_cons_of_pos hdue, List.filter_nil, List.map_append]
    refine ⟨ih.1.append (.refl _), ?_⟩
    rw [List.length_append, List.length_append, List.length_singleton, List.length_singleton,
      Nat.add_right_cancel_iff, ih.2]
    exact ⟨fun hall ↦ ⟨fun _ ↦ habove, hall⟩, And.right⟩
  | @passed rows out row h hrow ih =>
    rw [hstarts, List.filter_append]
    by_cases hdue : row.due
    · rw [List.filter_cons_of_pos hdue, List.filter_nil, List.map_append]
      refine ⟨ih.1.trans (List.sublist_append_left _ _), iff_of_false ?_ fun hall ↦ ?_⟩
      · have hle := ih.1.length_le
        rw [List.length_map] at hle
        rw [List.length_append, List.length_singleton]
        omega
      · exact hrow hdue (hall.1 hdue)
    · rw [List.filter_cons_of_neg hdue, List.filter_nil, List.append_nil]
      exact ⟨ih.1, ih.2.trans ⟨fun hall ↦ ⟨fun h ↦ absurd h hdue, hall⟩, And.right⟩⟩

/-! ## Badges -/

theorem isMark_maxSeqForConv {messages : List DisplayRow} {convId : String} {top : UInt64}
    (h : maxSeqForConv messages convId = some top) :
    IsMark (fun _ ↦ true) messages convId top := by
  obtain ⟨hmem, hle⟩ := List.max?_eq_some_iff.mp h
  simp only [List.mem_map, List.mem_filter, beq_iff_eq] at hmem hle
  obtain ⟨row, ⟨hrow, hconv⟩, rfl⟩ := hmem
  intro n
  constructor
  · exact fun hlt ↦ ⟨UInt64.lt_of_le_of_lt UInt64.zero_le hlt, fun q hq _ hqc ↦
      UInt64.lt_of_le_of_lt (hle _ ⟨q, ⟨hq, hqc⟩, rfl⟩) hlt⟩
  · exact fun ⟨_, hall⟩ ↦ hall row hrow rfl hconv

/-- The marks after a conversation has been marked read: its own stands for all rows. -/
theorem isMark_markConversationRead {lastRead : FiniteMap String UInt64} {messages old : List DisplayRow}
    {convId : String} (hold : old ⊆ messages)
    (h : IsMark (fun _ ↦ true) old convId (markIn lastRead convId)) :
    IsMark (fun _ ↦ true) messages convId
        (markIn (markConversationRead lastRead messages convId).2 convId) := by
  unfold markConversationRead
  cases htop : maxSeqForConv messages convId with
  | none =>
    have hnone (q : DisplayRow) (hq : q ∈ messages) : q.convId ≠ convId := fun hconv ↦ by
      rw [maxSeqForConv, List.max?_eq_none_iff, List.map_eq_nil_iff, List.filter_eq_nil_iff] at htop
      exact htop q hq (beq_iff_eq.mpr hconv)
    intro n
    rw [h n]
    exact and_congr_right fun _ ↦ iff_of_true (fun q hq _ hqc ↦ absurd hqc (hnone q (hold hq)))
      fun q hq _ hqc ↦ absurd hqc (hnone q hq)
  | some top =>
    have hmark := isMark_maxSeqForConv htop
    dsimp only
    split_ifs with hle
    · -- the mark was at the highest number, or above all of them
      intro n
      constructor
      · exact fun hlt ↦ (hmark n).mp (UInt64.lt_of_le_of_lt hle hlt)
      · exact fun ⟨hn, hall⟩ ↦ (h n).mpr ⟨hn, fun q hq ↦ hall q (hold hq)⟩
    · unfold markIn
      rw [FiniteMap.lookup_insert_ite, if_pos rfl]
      exact hmark

theorem markIn_markConversationRead {lastRead : FiniteMap String UInt64} {messages : List DisplayRow}
    {convId other : String} (h : other ≠ convId) :
    markIn (markConversationRead lastRead messages convId).2 other = markIn lastRead other := by
  unfold markConversationRead
  split
  · rfl
  · split_ifs
    · rfl
    · unfold markIn
      rw [FiniteMap.lookup_insert_ite, if_neg h]

/-- Two tests of which one implies the other count alike just where they agree. -/
theorem countP_eq_countP_iff {α : Type} {p q : α → Bool} {l : List α} (h : ∀ a, p a → q a) :
    l.countP p = l.countP q ↔ ∀ a ∈ l, q a → p a := by
  induction l with
  | nil => simp
  | cons a l ih =>
    have hle : l.countP p ≤ l.countP q := List.countP_mono_left fun a _ ↦ h a
    rw [List.countP_cons, List.countP_cons, List.forall_mem_cons, ← ih]
    by_cases hq : q a
    · by_cases hp : p a
      · simp [hp, hq]
      · simp only [hp, hq, if_true, Bool.false_eq_true, if_false, forall_const, false_and, iff_false]
        omega
    · have hp : ¬p a := fun hp ↦ hq (h a hp)
      simp [hp, hq]

theorem countsUnread_iff {convId : String} {mark : UInt64} {row : DisplayRow} :
    countsUnread convId mark row = true ↔ row.convId = convId ∧ row.due = true ∧
      row.kind.name ≠ "file" ∧ row.isLocal = false ∧ mark < row.convSeq := by
  simp only [countsUnread, Bool.and_eq_true, beq_iff_eq, Bool.not_eq_true', decide_eq_false_iff_not,
    UInt64.not_le]
  constructor
  · rintro ⟨⟨⟨⟨hconv, hlocal⟩, hshown⟩, hseq⟩, hkind⟩
    obtain ⟨hdue, hfile⟩ := (notifiable_iff hshown).mp hkind
    exact ⟨hconv, hdue, hfile, hlocal, hseq⟩
  · rintro ⟨hconv, hdue, hfile, hlocal, hseq⟩
    have hshown := row.shown_of_due hdue
    exact ⟨⟨⟨⟨hconv, hlocal⟩, hshown⟩, hseq⟩, (notifiable_iff hshown).mpr ⟨hdue, hfile⟩⟩

/-- A badge counts the rows that are due and new just if these are all above those that are old. -/
theorem unreadCount_eq_iff {lastRead : FiniteMap String UInt64} {old new : List DisplayRow}
    {convId : String} (h : IsMark (fun _ ↦ true) old convId (markIn lastRead convId)) :
    unreadCount convId (old ++ new) lastRead =
        (new.countP fun row ↦ row.convId == convId && row.due) ↔
      ∀ row ∈ new, row.convId = convId → row.due → row.Above (fun _ ↦ true) old := by
  have hold : old.countP (countsUnread convId (markIn lastRead convId)) = 0 :=
    List.countP_eq_zero.mpr fun row hrow hcounts ↦ by
      obtain ⟨hconv, -, -, -, hlt⟩ := countsUnread_iff.mp hcounts
      exact UInt64.not_lt.mpr (h.le_of_mem hrow rfl hconv) hlt
  rw [unreadCount, List.countP_append, hold, Nat.zero_add, countP_eq_countP_iff]
  · simp only [countsUnread_iff, Bool.and_eq_true, beq_iff_eq]
    constructor
    · intro hall row hrow hconv hdue
      obtain ⟨-, -, hfile, hlocal, hlt⟩ := hall row hrow ⟨hconv, hdue⟩
      subst hconv
      exact (h.above_iff hfile hlocal).mpr hlt
    · rintro hall row hrow ⟨hconv, hdue⟩
      have habove := hall row hrow hconv hdue
      subst hconv
      exact ⟨rfl, hdue, habove.kind, habove.token, (h.above_iff habove.kind habove.token).mp habove⟩
  · intro row hcounts
    obtain ⟨hconv, hdue, -⟩ := countsUnread_iff.mp hcounts
    rw [hconv, hdue, beq_self_eq_true]
    rfl

theorem le_markConversationRead {lastRead : FiniteMap String UInt64} {messages : List DisplayRow}
    {convId : String} {row : DisplayRow} (hrow : row ∈ messages) (hconv : row.convId = convId) :
    row.convSeq ≤ markIn (markConversationRead lastRead messages convId).2 convId := by
  have hmem : row.convSeq ∈ (messages.filter (·.convId == convId)).map (·.convSeq) :=
    List.mem_map_of_mem (List.mem_filter.mpr ⟨hrow, beq_iff_eq.mpr hconv⟩)
  unfold markConversationRead
  cases htop : maxSeqForConv messages convId with
  | none =>
    rw [maxSeqForConv, List.max?_eq_none_iff] at htop
    rw [htop] at hmem
    cases hmem
  | some top =>
    have hle : row.convSeq ≤ top := (List.max?_eq_some_iff.mp htop).2 _ hmem
    dsimp only
    split_ifs with hmark
    · exact UInt64.le_trans hle hmark
    · unfold markIn
      rw [FiniteMap.lookup_insert_ite, if_pos rfl]
      exact hle

/-- A conversation that has just been marked read has nothing on its badge. -/
theorem unreadCount_markConversationRead (lastRead : FiniteMap String UInt64)
    (messages : List DisplayRow) (convId : String) :
    unreadCount convId messages (markConversationRead lastRead messages convId).2 = 0 := by
  refine List.countP_eq_zero.mpr fun row hrow hcounts ↦ ?_
  obtain ⟨hconv, -, -, -, hlt⟩ := countsUnread_iff.mp hcounts
  exact UInt64.not_lt.mpr (le_markConversationRead hrow hconv) hlt

/-! ## Runs -/

/-- What holds of a pane in every run. -/
structure Pane.Marked (pane : Pane) : Prop where
  visited : Visited pane.messages (pane.posted, pane.seen)
  read : ∀ convId, IsMark (fun _ ↦ true) (pane.old convId) convId (markIn pane.lastRead convId)
  readAt : ∀ convId, (pane.readAt.lookup convId).getD 0 ≤ pane.messages.length

theorem Pane.marked_first : Pane.first.Marked where
  visited := ⟨.nil, fun _ ↦ isMark_nil⟩
  read _ := isMark_nil
  readAt _ := le_refl 0

theorem Pane.Marked.see {pane : Pane} (h : pane.Marked) (glimpse : Glimpse) :
    (pane.see glimpse).Marked := by
  cases glimpse with
  | deliver again fresh =>
    have hagain : again.filterMap (pane.messages[·]?) ⊆ pane.messages := fun row hrow ↦ by
      obtain ⟨i, -, hi⟩ := List.mem_filterMap.mp hrow
      exact List.mem_of_getElem? hi
    have hvisited := h.visited.foldl fresh
    rw [← h.visited.foldl_again hagain, ← List.foldl_append, foldl_visit] at hvisited
    refine ⟨hvisited, fun convId ↦ ?_, fun convId ↦ ?_⟩
    · have hold : (pane.see (.deliver again fresh)).old convId = pane.old convId :=
        List.take_append_of_le_length (h.readAt convId)
      rw [hold]
      exact h.read convId
    · exact (h.readAt convId).trans (List.length_append ▸ Nat.le_add_right _ _)
  | markRead convId =>
    refine ⟨h.visited, fun other ↦ ?_, fun other ↦ ?_⟩
    · by_cases hother : other = convId
      · subst hother
        have hold : (pane.see (.markRead other)).old other = pane.messages := by
          simp only [Pane.see, Pane.old, FiniteMap.lookup_insert_ite, if_true, Option.getD_some,
            List.take_length]
        rw [hold]
        exact isMark_markConversationRead (List.take_subset _ _) (h.read other)
      · have hold : (pane.see (.markRead convId)).old other = pane.old other := by
          simp only [Pane.see, Pane.old, FiniteMap.lookup_insert_ite, if_neg hother]
        rw [hold]
        change IsMark _ _ _ (markIn (markConversationRead pane.lastRead pane.messages convId).2 other)
        rw [markIn_markConversationRead hother]
        exact h.read other
    · simp only [Pane.see, FiniteMap.lookup_insert_ite]
      split_ifs
      · exact le_refl _
      · exact h.readAt other

theorem Pane.marked_after (glimpses : List Glimpse) : (Pane.after glimpses).Marked :=
  run_keeps Pane.Marked (fun _ glimpse h ↦ h.see glimpse) Pane.marked_first glimpses

/-- However the rows are cut into batches, and whichever are given again, the user is told of every row
that is due once, and of nothing else, just if these rows rise and none of them is a file. -/
theorem Pane.told_iff_rising (glimpses : List Glimpse) :
    (Pane.after glimpses).Told ↔ (Pane.after glimpses).Rising := by
  have hmarked := Pane.marked_after glimpses
  generalize Pane.after glimpses = pane at hmarked ⊢
  obtain ⟨hsublist, hlength⟩ := hmarked.visited.posted.sublist_and_length_iff
  have hposted : pane.posted.Perm ((pane.messages.filter (·.due)).map (·.notice)) ↔
      ∀ rows row, rows ++ [row] <+: pane.messages → row.due → row.Above (·.heeded) rows := by
    rw [← hlength]
    constructor
    · exact fun h ↦ h.length_eq.trans (List.length_map _)
    · exact fun h ↦ .of_eq (hsublist.eq_of_length (h.trans (List.length_map _).symm))
  have hunread (convId : String) : unreadCount convId pane.messages pane.lastRead =
        ((pane.new convId).countP fun row ↦ row.convId == convId && row.due) ↔
      ∀ row ∈ pane.new convId, row.convId = convId → row.due →
        row.Above (fun _ ↦ true) (pane.old convId) := by
    have hsplit : pane.messages = pane.old convId ++ pane.new convId :=
      (List.take_append_drop _ _).symm
    rw [hsplit]
    exact unreadCount_eq_iff (hmarked.read convId)
  exact ⟨fun h ↦ ⟨hposted.mp h.posted, fun convId ↦ (hunread convId).mp (h.unread convId)⟩,
    fun h ↦ ⟨hposted.mpr h.posted, fun convId ↦ (hunread convId).mpr (h.unread convId)⟩⟩

/-- A file comes in, and two texts of a group whose numbers go down. -/
theorem Pane.not_told :
    ¬(Pane.after [.deliver [] [(Shell.empty.pushFile "aa" 1 10 "note" "" [] "" 0 false).1]]).Told ∧
      ¬(Pane.after [.deliver [] [(Shell.empty.pushText "aa" 2 "second" 10 0 false).1],
        .markRead "aa", .deliver [] [(Shell.empty.pushText "aa" 1 "first" 11 0 false).1]]).Told := by
  constructor
  · intro h
    exact absurd h.posted.length_eq (by decide +kernel)
  · intro h
    exact absurd (h.unread "aa") (by decide +kernel)

end NemoMessenger.Client
