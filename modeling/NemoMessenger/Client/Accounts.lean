import NemoMessenger.Client.Reaction

/-!
# Returned rows and stored rows

The rows a fetch returns are matched with the rows it has put in the inbox, in their order. A row that
is returned is in the inbox unless it is a marker, or a marker that is returned after it tells that it
was taken away; and nothing else has come into the inbox. The author is put on the returned copy of a
text or a file only, and on the first stored reaction of the conversation with the same number.
-/

namespace NemoMessenger.Client

open NemoMessenger.Data NemoMessenger.Wire

/-! ## Messages and the rows that show them -/

/-- A message as it is taken from the mailbox: whether a group has opened it, its conversation and its
sender. -/
structure Opened where
  group : Bool
  conv : String
  sender : String
  message : AppMessage

/-- A row that is returned, and the message it shows. -/
structure Listed where
  row : DisplayRow
  source : Option Opened

namespace DisplayRow

/-- The row tells that others were taken away, and is not stored. -/
def Transient (row : DisplayRow) : Prop := row.kind = .removed ∨ row.kind = .reactionRemoved

instance decidableTransient : DecidablePred Transient := fun _ ↦ inferInstanceAs (Decidable (_ ∨ _))

/-- The row but for its author and its quote. -/
def bare (row : DisplayRow) : DisplayRow :=
  { row with senderId := "", senderName := "", replyTo := 0 }

/-- The marker tells that the message the row refers to was taken away. -/
def Unquotes (marker row : DisplayRow) : Prop :=
  marker.kind = .removed ∧ row.convId = marker.convId ∧ row.replyTo = marker.target ∧
    marker.target ≠ 0

/-- The row is a text or a file. -/
def Content (row : DisplayRow) : Prop := row.kind = .text ∨ row.kind = .file

/-- The row has no author. -/
def Anonymous (row : DisplayRow) : Prop := row.senderId = "" ∧ row.senderName = ""

end DisplayRow

/-- The marker tells that the row was taken away: a deletion of what the row is or reacts to, or the
author of the reaction takes it back. Where the number clashes the author is not known. -/
def Listed.Takes (clash : String → UInt64 → Prop) (marker : Listed) (row : DisplayRow) : Prop :=
  (marker.row.kind = .removed ∧
    Shell.survivesRemoval marker.row.convId marker.row.target row = false) ∨
  (marker.row.kind = .reactionRemoved ∧ row.kind = .reaction ∧ row.convId = marker.row.convId ∧
    row.target = marker.row.target ∧ row.emoji = marker.row.emoji ∧
      ((∃ m ∈ marker.source, row.senderId = m.sender) ∨ clash row.convId row.convSeq))

/-- The row is stored with the same fields. The message it refers to may have been taken away since. A
text or a file is stored without an author, and a reaction with a number that others of its
conversation have may be stored with another. -/
structure DisplayRow.StoredAs (clash : String → UInt64 → Prop) (row : DisplayRow)
    (later : List Listed) (stored : DisplayRow) : Prop where
  lasting : ¬row.Transient
  bare : stored.bare = row.bare
  replyTo : stored.replyTo = row.replyTo ∨
    stored.replyTo = 0 ∧ ∃ marker ∈ later, marker.row.Unquotes row
  content : row.Content → stored.Anonymous
  sender : ¬row.Content → (stored.senderId = row.senderId ∧ stored.senderName = row.senderName) ∨
    row.kind = .reaction ∧ clash row.convId row.convSeq

/-- The rows that are returned, and those of them that are stored. -/
inductive Reported (clash : String → UInt64 → Prop) : List Listed → List DisplayRow → Prop
  | nil : Reported clash [] []
  | stored {s : Listed} {r : DisplayRow} {shown : List Listed} {added : List DisplayRow}
      (h : s.row.StoredAs clash shown r) (rest : Reported clash shown added) :
      Reported clash (s :: shown) (r :: added)
  | gone {s : Listed} {shown : List Listed} {added : List DisplayRow}
      (h : s.row.Transient ∨ ∃ marker ∈ shown, marker.Takes clash s.row)
      (rest : Reported clash shown added) : Reported clash (s :: shown) added

section

variable {clash clash' : String → UInt64 → Prop} {shown later : List Listed} {added : List DisplayRow}
  {s marker : Listed} {row stored : DisplayRow}

/-! ## What comes after -/

theorem Listed.Takes.mono (h : marker.Takes clash row)
    (hclash : ∀ conv n, clash conv n → clash' conv n) : marker.Takes clash' row :=
  h.imp_right fun ⟨hmarker, hkind, hconv, htarget, hemoji, hwho⟩ ↦
    ⟨hmarker, hkind, hconv, htarget, hemoji, hwho.imp_right (hclash _ _)⟩

theorem DisplayRow.StoredAs.mono (h : row.StoredAs clash shown stored)
    (hclash : ∀ conv n, clash conv n → clash' conv n) (hlater : shown ⊆ later) :
    row.StoredAs clash' later stored where
  lasting := h.lasting
  bare := h.bare
  replyTo := h.replyTo.imp_right fun ⟨hzero, m, hm, hunquotes⟩ ↦ ⟨hzero, m, hlater hm, hunquotes⟩
  content := h.content
  sender hcontent := (h.sender hcontent).imp_right fun ⟨hkind, hn⟩ ↦ ⟨hkind, hclash _ _ hn⟩

theorem Reported.mono (h : Reported clash shown added)
    (hclash : ∀ conv n, clash conv n → clash' conv n) :
    Reported clash' shown added := by
  induction h with
  | nil => exact .nil
  | stored h _ ih => exact .stored (h.mono hclash (List.Subset.refl _)) ih
  | gone h _ ih => exact .gone (h.imp_right fun ⟨m, hm, htakes⟩ ↦ ⟨m, hm, htakes.mono hclash⟩) ih

/-- A row is put in. -/
theorem Reported.push (h : Reported clash shown added) (hrow : s.row.StoredAs clash [] stored) :
    Reported clash (shown ++ [s]) (added ++ [stored]) := by
  induction h with
  | nil => exact .stored hrow .nil
  | stored h _ ih => exact .stored (h.mono (fun _ _ hn ↦ hn) (List.subset_append_left _ _)) ih
  | gone h _ ih =>
    exact .gone (h.imp_right fun ⟨m, hm, htakes⟩ ↦ ⟨m, List.mem_append_left _ hm, htakes⟩) ih

/-- A marker is returned, and nothing is put in. -/
theorem Reported.mark (h : Reported clash shown added) (hmarker : marker.row.Transient) :
    Reported clash (shown ++ [marker]) added := by
  induction h with
  | nil => exact .gone (.inl hmarker) .nil
  | stored h _ ih => exact .stored (h.mono (fun _ _ hn ↦ hn) (List.subset_append_left _ _)) ih
  | gone h _ ih =>
    exact .gone (h.imp_right fun ⟨m, hm, htakes⟩ ↦ ⟨m, List.mem_append_left _ hm, htakes⟩) ih

theorem DisplayRow.survivesRemoval_of_bare (h : stored.bare = row.bare) (conv : String)
    (target : UInt64) : Shell.survivesRemoval conv target stored = Shell.survivesRemoval conv target row := by
  change Shell.survivesRemoval conv target stored.bare = Shell.survivesRemoval conv target row.bare
  rw [h]

theorem DisplayRow.StoredAs.unquoted (h : row.StoredAs clash shown stored)
    (hmarker : marker.row.kind = .removed) : row.StoredAs clash (shown ++ [marker])
      (unquoted marker.row.convId marker.row.target stored) := by
  have hlast := h.mono (fun _ _ hn ↦ hn) (List.subset_append_left shown [marker])
  unfold Client.unquoted
  split_ifs with hquotes
  · simp only [quotes, ne_eq, Bool.and_eq_true, decide_eq_true_eq] at hquotes
    obtain ⟨⟨hconv, htarget⟩, hne⟩ := hquotes
    have hreply : stored.replyTo = row.replyTo :=
      h.replyTo.resolve_right fun hzero ↦ hne (htarget ▸ hzero.1)
    have hconv' : row.convId = marker.row.convId :=
      ((congrArg DisplayRow.convId h.bare).symm.trans rfl).trans hconv
    exact ⟨h.lasting, h.bare, .inr ⟨rfl, marker,
      List.mem_append_right _ (List.mem_singleton_self _), hmarker, hconv',
      hreply.symm.trans htarget, hne⟩, h.content, h.sender⟩
  · exact hlast

/-- A deletion takes rows away that its marker tells of. -/
theorem Reported.delete (h : Reported clash shown added) (hmarker : marker.row.kind = .removed) :
    Reported clash (shown ++ [marker])
      (Shell.removeTarget added marker.row.convId marker.row.target) := by
  rw [Shell.removeTarget_eq]
  induction h with
  | nil => exact .gone (.inl (.inl hmarker)) .nil
  | @stored s r shown added h _ ih =>
    cases hsurvives : Shell.survivesRemoval marker.row.convId marker.row.target r with
    | true =>
      rw [List.filter_cons_of_pos hsurvives, List.map_cons]
      exact .stored (h.unquoted hmarker) ih
    | false =>
      rw [List.filter_cons_of_neg (by simp [hsurvives])]
      rw [DisplayRow.survivesRemoval_of_bare h.bare] at hsurvives
      exact .gone (.inr ⟨marker, List.mem_append_right _ (List.mem_singleton_self _),
        .inl ⟨hmarker, hsurvives⟩⟩) ih
  | gone h _ ih =>
    exact .gone (h.imp_right fun ⟨m, hm, htakes⟩ ↦ ⟨m, List.mem_append_left _ hm, htakes⟩) ih

/-- A reaction that is taken back is one the marker tells of. -/
theorem Reported.toggle {conv emoji : String} {target sentAt : UInt64} {outgoing : Bool} {m : Opened}
    (h : Reported clash shown added) : Reported clash
      (shown ++ [⟨Shell.reactionRemovedMarker conv target emoji sentAt outgoing, some m⟩])
      (added.eraseP (Shell.matchesReaction conv target emoji false m.sender)) := by
  induction h with
  | nil => exact .gone (.inl (.inr rfl)) .nil
  | @stored s r shown added h rest ih =>
    rw [List.eraseP_cons]
    cases hrow : Shell.matchesReaction conv target emoji false m.sender r with
    | true =>
      refine .gone (.inr ⟨_, List.mem_append_right _ (List.mem_singleton_self _), .inr ⟨rfl, ?_⟩⟩)
        (rest.mark (.inr rfl))
      simp only [Shell.matchesReaction, Bool.and_eq_true, beq_iff_eq, Bool.false_eq_true, if_false,
        Bool.not_eq_true'] at hrow
      obtain ⟨⟨⟨⟨hconv, hkind⟩, htarget⟩, hemoji⟩, -, hsender⟩ := hrow
      have hfield {β : Type} (f : DisplayRow → β) : f s.row.bare = f r.bare :=
        congrArg f h.bare.symm
      have hreaction : s.row.kind = .reaction := (hfield (·.kind)).trans hkind
      have hnot : ¬s.row.Content := by
        rintro (hcontent | hcontent) <;> cases hcontent.symm.trans hreaction
      exact ⟨hreaction, (hfield (·.convId)).trans hconv, (hfield (·.target)).trans htarget,
        (hfield (·.emoji)).trans hemoji, (h.sender hnot).imp
          (fun hsame ↦ ⟨m, rfl, hsame.1.symm.trans hsender⟩) (·.2)⟩
    | false => exact .stored (h.mono (fun _ _ hn ↦ hn) (List.subset_append_left _ _)) ih
  | gone h _ ih =>
    exact .gone (h.imp_right fun ⟨m, hm, htakes⟩ ↦ ⟨m, List.mem_append_left _ hm, htakes⟩) ih

/-- Another author is put on a row that has the number of others. -/
theorem Reported.sign (h : Reported clash shown added) {i : ℕ} {id name : String}
    (hi : ∀ r, added[i]? = some r → r.kind = .reaction ∧ clash r.convId r.convSeq) :
    Reported clash shown
      (added.modify i fun r ↦ { r with senderId := id, senderName := name }) := by
  induction h generalizing i with
  | nil =>
    rw [List.modify_nil]
    exact .nil
  | @stored s r shown added h rest ih =>
    cases i with
    | zero =>
      obtain ⟨hkind, hclash⟩ := hi r rfl
      rw [List.modify_zero_cons]
      have hfield {β : Type} (f : DisplayRow → β) : f s.row.bare = f r.bare :=
        congrArg f h.bare.symm
      have hreaction : s.row.kind = .reaction := (hfield (·.kind)).trans hkind
      refine .stored ⟨h.lasting, h.bare, h.replyTo, fun hcontent ↦ ?_,
        fun _ ↦ .inr ⟨hreaction, ?_⟩⟩ rest
      · rcases hcontent with hcontent | hcontent <;> cases hcontent.symm.trans hreaction
      · rwa [show s.row.convId = r.convId from hfield (·.convId),
          show s.row.convSeq = r.convSeq from hfield (·.convSeq)]
    | succ i =>
      rw [List.modify_succ_cons]
      exact .stored h (ih hi)
  | gone h _ ih => exact .gone h (ih hi)

end

/-! ## Conversations that go on as others -/

namespace DisplayRow

variable {clash clash' : String → UInt64 → Prop} {later : List Listed} {row stored marker : DisplayRow}
  {source target : String}

/-- The conversation, where one goes on as another. -/
def movedId (source target conv : String) : String := if conv = source then target else conv

/-- The row, where a conversation goes on as another. -/
def moved (source target : String) (row : DisplayRow) : DisplayRow :=
  if row.convId = source then { row with convId := target } else row

theorem moved_eq (row : DisplayRow) : row.moved source target =
    { row with convId := movedId source target row.convId } := by
  unfold moved movedId
  split_ifs <;> rfl

theorem Transient.moved (h : row.Transient) : (row.moved source target).Transient := by
  rw [moved_eq]
  exact h

theorem convId_of_survivesRemoval {conv : String} {n : UInt64}
    (h : Shell.survivesRemoval conv n row = false) : row.convId = conv := by
  by_contra hne
  rw [Shell.survivesRemoval, if_pos hne] at h
  cases h

theorem Unquotes.moved (h : marker.Unquotes row) :
    (marker.moved source target).Unquotes (row.moved source target) := by
  rw [moved_eq, moved_eq]
  exact ⟨h.1, by dsimp only; rw [h.2.1], h.2.2⟩

end DisplayRow

/-- The row, where its conversation goes on as another. -/
def Listed.moved (source target : String) (s : Listed) : Listed :=
  { s with row := s.row.moved source target }

section

variable {clash clash' : String → UInt64 → Prop} {shown later : List Listed} {added : List DisplayRow}
  {s marker : Listed} {row stored : DisplayRow} {source target : String}

theorem Listed.Takes.moved (h : marker.Takes clash row)
    (hclash : ∀ conv n, clash conv n → clash' (DisplayRow.movedId source target conv) n) :
    (marker.moved source target).Takes clash' (row.moved source target) := by
  unfold Listed.moved
  rw [Listed.Takes, DisplayRow.moved_eq, DisplayRow.moved_eq]
  rcases h with ⟨hmarker, h⟩ | ⟨hmarker, hkind, hconv, htarget, hemoji, hwho⟩
  · have hconv := DisplayRow.convId_of_survivesRemoval h
    refine .inl ⟨hmarker, ?_⟩
    rw [← h]
    simp only [Shell.survivesRemoval, hconv, ne_eq, not_true_eq_false, if_false]
  · exact .inr ⟨hmarker, hkind, by dsimp only; rw [hconv], htarget, hemoji,
      hwho.imp_right (hclash _ _)⟩

theorem DisplayRow.StoredAs.moved (h : row.StoredAs clash later stored)
    (hclash : ∀ conv n, clash conv n → clash' (movedId source target conv) n) :
    (row.moved source target).StoredAs clash' (later.map (Listed.moved source target))
      (stored.moved source target) := by
  have hunquoted : (∃ m ∈ later, m.row.Unquotes row) →
      ∃ m ∈ later.map (Listed.moved source target), m.row.Unquotes (row.moved source target) :=
    fun ⟨m, hm, hunquotes⟩ ↦ ⟨_, List.mem_map_of_mem hm, hunquotes.moved⟩
  rw [moved_eq] at hunquoted ⊢
  rw [moved_eq]
  refine ⟨h.lasting, ?_, h.replyTo.imp_right fun hzero ↦ ⟨hzero.1, hunquoted hzero.2⟩, h.content,
    fun hcontent ↦ (h.sender hcontent).imp_right fun hreaction ↦
      ⟨hreaction.1, hclash _ _ hreaction.2⟩⟩
  change { stored.bare with convId := movedId source target stored.bare.convId } =
    { row.bare with convId := movedId source target row.bare.convId }
  rw [h.bare]

/-- A conversation goes on as another, in what is returned and in what is stored. -/
theorem Reported.remap (h : Reported clash shown added) (source target : String)
    (hclash : ∀ conv n, clash conv n → clash' (DisplayRow.movedId source target conv) n) :
    Reported clash' (shown.map (Listed.moved source target))
      (added.map (DisplayRow.moved source target)) := by
  induction h with
  | nil => exact .nil
  | stored h _ ih => exact .stored (h.moved hclash) ih
  | gone h _ ih =>
    exact .gone (h.imp (·.moved) fun ⟨m, hm, htakes⟩ ↦
      ⟨_, List.mem_map_of_mem hm, htakes.moved hclash⟩) ih

/-- What is stored is returned. -/
theorem Reported.exists_of_mem (h : Reported clash shown added) (hstored : stored ∈ added) :
    ∃ s ∈ shown, ∃ later, s.row.StoredAs clash later stored := by
  induction h with
  | nil => cases hstored
  | stored h _ ih =>
    rcases List.mem_cons.mp hstored with rfl | hstored
    · exact ⟨_, List.mem_cons_self, _, h⟩
    · obtain ⟨s, hs, hlater⟩ := ih hstored
      exact ⟨s, List.mem_cons_of_mem _ hs, hlater⟩
  | gone _ _ ih =>
    obtain ⟨s, hs, hlater⟩ := ih hstored
    exact ⟨s, List.mem_cons_of_mem _ hs, hlater⟩

end

/-! ## The inbox -/

theorem modify_append {α : Type} (l₁ l₂ : List α) (i : ℕ) (f : α → α) : (l₁ ++ l₂).modify i f =
    if i < l₁.length then l₁.modify i f ++ l₂ else l₁ ++ l₂.modify (i - l₁.length) f := by
  induction l₁ generalizing i with
  | nil => rfl
  | cons a l₁ ih =>
    cases i with
    | zero => rfl
    | succ i =>
      rw [List.cons_append, List.modify_succ_cons, ih]
      simp only [List.length_cons, Nat.add_lt_add_iff_right, Nat.add_sub_add_right]
      split_ifs <;> rfl

/-- The row but for its quote, and for the author of a reaction. -/
def DisplayRow.former (row : DisplayRow) : DisplayRow :=
  if row.kind = .reaction then row.bare else { row with replyTo := 0 }

section

variable {row row' : DisplayRow}

@[simp] theorem DisplayRow.kind_former : row.former.kind = row.kind := by
  unfold former
  split_ifs <;> rfl

@[simp] theorem DisplayRow.convId_former : row.former.convId = row.convId := by
  unfold former
  split_ifs <;> rfl

@[simp] theorem DisplayRow.convSeq_former : row.former.convSeq = row.convSeq := by
  unfold former
  split_ifs <;> rfl

theorem DisplayRow.Content.not_reaction (h : row.Content) : row.kind ≠ .reaction := by
  intro hkind
  rcases h with hcontent | hcontent <;> cases hcontent.symm.trans hkind

end

/-- Two reactions of the conversation have the number, among the rows there were and those that are
returned. -/
def Clash (before rows : List DisplayRow) (conv : String) (n : UInt64) : Prop :=
  2 ≤ (before ++ rows).countP fun r ↦ r.kind = .reaction ∧ r.convId = conv ∧ r.convSeq = n

/-- The inbox is what is left of the rows there were, and behind them those of the returned rows that are
stored. -/
def Accounts (before : List DisplayRow) (shown : List Listed) (inbox : List DisplayRow) : Prop :=
  ∃ old added, inbox = old ++ added ∧
    (old.map DisplayRow.former).Sublist (before.map DisplayRow.former) ∧
      Reported (Clash before (shown.map Listed.row)) shown added

/-- No text and no file has an author. -/
def Unsigned (inbox : List DisplayRow) : Prop := ∀ row ∈ inbox, row.Content → row.Anonymous

namespace Accounts

variable {before inbox : List DisplayRow} {shown : List Listed} {s : Listed} {row stored : DisplayRow}
  {conv : String} {target : UInt64}

theorem start (inbox : List DisplayRow) : Accounts inbox [] inbox :=
  ⟨inbox, [], (List.append_nil _).symm, .refl _, .nil⟩

theorem clash_append {rows : List DisplayRow} {n : UInt64} (h : Clash before rows conv n)
    (more : List DisplayRow) : Clash before (rows ++ more) conv n := by
  unfold Clash at h ⊢
  rw [← List.append_assoc, List.countP_append]
  exact h.trans (Nat.le_add_right _ _)

theorem reported_append {added : List DisplayRow} {shown' : List Listed}
    (h : Reported (Clash before (shown.map Listed.row)) shown' added) (s : Listed) :
    Reported (Clash before ((shown ++ [s]).map Listed.row)) shown' added := by
  rw [List.map_append]
  exact h.mono fun _ _ hn ↦ clash_append hn _

theorem push (h : Accounts before shown inbox)
    (hrow : s.row.StoredAs (Clash before ((shown ++ [s]).map Listed.row)) [] stored) :
    Accounts before (shown ++ [s]) (inbox ++ [stored]) := by
  obtain ⟨old, added, rfl, hold, hadded⟩ := h
  exact ⟨old, added ++ [stored], List.append_assoc _ _ _, hold, (reported_append hadded s).push hrow⟩

/-- A row is returned as it is stored. -/
theorem push_same (h : Accounts before shown inbox) (hlasting : ¬s.row.Transient)
    (hcontent : s.row.Content → s.row.Anonymous) :
    Accounts before (shown ++ [s]) (inbox ++ [s.row]) :=
  h.push ⟨hlasting, rfl, .inl rfl, hcontent, fun _ ↦ .inl ⟨rfl, rfl⟩⟩

theorem delete (h : Accounts before shown inbox) (conv : String) (target sentAt : UInt64)
    (source : Option Opened) :
    Accounts before (shown ++ [⟨Shell.removedMarker conv target sentAt false, source⟩])
      (Shell.removeTarget inbox conv target) := by
  obtain ⟨old, added, rfl, hold, hadded⟩ := h
  refine ⟨Shell.removeTarget old conv target, Shell.removeTarget added conv target, ?_, ?_,
    (reported_append hadded _).delete rfl⟩
  · simp only [Shell.removeTarget, List.filter_append, List.map_append]
  · have hformer : DisplayRow.former ∘ unquoted conv target = DisplayRow.former := by
      funext r
      rw [Function.comp, unquoted]
      split_ifs
      · unfold DisplayRow.former
        split_ifs <;> rfl
      · rfl
    rw [Shell.removeTarget_eq, List.map_map, hformer]
    exact (List.filter_sublist.map _).trans hold

theorem toggle (h : Accounts before shown inbox) (conv emoji : String) (target sentAt : UInt64)
    (m : Opened) :
    Accounts before
      (shown ++ [⟨Shell.reactionRemovedMarker conv target emoji sentAt false, some m⟩])
      (inbox.eraseP (Shell.matchesReaction conv target emoji false m.sender)) := by
  obtain ⟨old, added, rfl, hold, hadded⟩ := h
  have hmore := reported_append hadded
    ⟨Shell.reactionRemovedMarker conv target emoji sentAt false, some m⟩
  rw [List.eraseP_append]
  split_ifs
  · exact ⟨_, added, rfl, (List.eraseP_sublist.map _).trans hold, hmore.mark (.inr rfl)⟩
  · exact ⟨old, _, rfl, hold, hmore.toggle⟩

theorem clash_moved {rows : List DisplayRow} {n : UInt64} (h : Clash before rows conv n)
    (source target : String) :
    Clash (before.map (DisplayRow.moved source target)) (rows.map (DisplayRow.moved source target))
      (DisplayRow.movedId source target conv) n := by
  unfold Clash at h ⊢
  rw [← List.map_append, List.countP_map]
  refine h.trans (List.countP_mono_left fun r _ hr ↦ ?_)
  obtain ⟨hkind, rfl, hseq⟩ := of_decide_eq_true hr
  rw [Function.comp, DisplayRow.moved_eq]
  exact decide_eq_true ⟨hkind, rfl, hseq⟩

theorem map_row_moved (source target : String) (shown : List Listed) :
    (shown.map (Listed.moved source target)).map Listed.row =
      (shown.map Listed.row).map (DisplayRow.moved source target) := by
  rw [List.map_map, List.map_map]
  rfl

/-- A conversation goes on as another, from the start. -/
theorem remap (h : Accounts before shown inbox) (source target : String) :
    Accounts (before.map (DisplayRow.moved source target)) (shown.map (Listed.moved source target))
      (inbox.map (DisplayRow.moved source target)) := by
  obtain ⟨old, added, rfl, hold, hadded⟩ := h
  refine ⟨_, _, List.map_append, ?_, hadded.remap source target fun conv n hn ↦ ?_⟩
  · have hformer : DisplayRow.former ∘ DisplayRow.moved source target =
        DisplayRow.moved source target ∘ DisplayRow.former := by
      funext r
      rw [Function.comp, Function.comp, DisplayRow.moved_eq, DisplayRow.moved_eq]
      unfold DisplayRow.former
      split_ifs <;> rfl
    rw [List.map_map, List.map_map, hformer, ← List.map_map, ← List.map_map]
    exact hold.map _
  · rw [map_row_moved]
    exact clash_moved hn source target

/-- A row of the inbox is one there was, or one that is returned. -/
theorem exists_of_mem (h : Accounts before shown inbox) (hrow : row ∈ inbox) :
    (∃ b ∈ before, row.former = b.former) ∨ ∃ s ∈ shown, ∃ later,
      s.row.StoredAs (Clash before (shown.map Listed.row)) later row := by
  obtain ⟨old, added, rfl, hold, hadded⟩ := h
  refine (List.mem_append.mp hrow).imp (fun hmem ↦ ?_) hadded.exists_of_mem
  obtain ⟨b, hb, hformer⟩ := List.mem_map.mp (hold.subset (List.mem_map_of_mem hmem))
  exact ⟨b, hb, hformer.symm⟩

/-- A reaction with the number of another leaves an author there, and is stored without its own. -/
theorem clash_of_mem (h : Accounts before shown inbox) {r : DisplayRow} (hr : r ∈ inbox)
    (hkind : r.kind = .reaction) (hrow : s.row.kind = .reaction) (hconv : r.convId = s.row.convId)
    (hseq : r.convSeq = s.row.convSeq) :
    Clash before ((shown ++ [s]).map Listed.row) s.row.convId s.row.convSeq := by
  have hpositive : 1 ≤ (before ++ shown.map Listed.row).countP fun r ↦
      decide (r.kind = .reaction ∧ r.convId = s.row.convId ∧ r.convSeq = s.row.convSeq) := by
    refine List.one_le_countP_iff.mpr ?_
    rcases h.exists_of_mem hr with ⟨b, hb, hformer⟩ | ⟨s', hs', later, hstored⟩
    · refine ⟨b, List.mem_append_left _ hb, decide_eq_true ?_⟩
      rw [← b.kind_former, ← b.convId_former, ← b.convSeq_former, ← hformer,
        DisplayRow.kind_former, DisplayRow.convId_former, DisplayRow.convSeq_former]
      exact ⟨hkind, hconv, hseq⟩
    · have hfield {β : Type} (f : DisplayRow → β) : f s'.row.bare = f r.bare :=
        congrArg f hstored.bare.symm
      exact ⟨s'.row, List.mem_append_right _ (List.mem_map_of_mem hs'),
        decide_eq_true ⟨(hfield (·.kind)).trans hkind, (hfield (·.convId)).trans hconv,
          (hfield (·.convSeq)).trans hseq⟩⟩
  unfold Clash
  rw [List.map_append, ← List.append_assoc, List.countP_append]
  have hlast : ([s].map Listed.row).countP (fun r ↦ decide
      (r.kind = .reaction ∧ r.convId = s.row.convId ∧ r.convSeq = s.row.convSeq)) = 1 := by
    simp [hrow]
  rw [hlast]
  exact Nat.add_le_add_right hpositive 1

theorem sign (h : Accounts before shown inbox) {i : ℕ} {r : DisplayRow} (hr : inbox[i]? = some r)
    (hkind : r.kind = .reaction) (hclash : Clash before (shown.map Listed.row) r.convId r.convSeq)
    (id name : String) :
    Accounts before shown (inbox.modify i fun r ↦ { r with senderId := id, senderName := name }) := by
  obtain ⟨old, added, rfl, hold, hadded⟩ := h
  rw [modify_append]
  split_ifs with hi
  · rw [List.getElem?_append_left hi] at hr
    have hformer : old.map DisplayRow.former = (old.modify i fun r ↦
        { r with senderId := id, senderName := name }).map DisplayRow.former := by
      refine List.ext_getElem? fun j ↦ ?_
      rw [List.getElem?_map, List.getElem?_map, List.getElem?_modify]
      by_cases hj : i = j
      · subst hj
        simp [hr, DisplayRow.former, hkind, DisplayRow.bare]
      · simp [hj]
    exact ⟨_, added, rfl, hformer ▸ hold, hadded⟩
  · refine ⟨old, _, rfl, hold, hadded.sign fun r' hr' ↦ ?_⟩
    rw [List.getElem?_append_right (Nat.le_of_not_lt hi), hr'] at hr
    cases hr
    exact ⟨hkind, hclash⟩

/-- A reaction is returned with its author, which is put on the first stored reaction that is found. -/
theorem react (h : Accounts before shown inbox) (hkind : row.kind = .reaction)
    {found : DisplayRow → Bool} (hown : found row = true)
    (hfound : ∀ r, found r = true →
      r.kind = .reaction ∧ r.convId = row.convId ∧ r.convSeq = row.convSeq) (id name : String)
    (source : Option Opened) :
    Accounts before (shown ++ [⟨{ row with senderId := id, senderName := name }, source⟩])
      (match (inbox ++ [row]).findIdx? found with
        | some i => (inbox ++ [row]).modify i fun r ↦ { r with senderId := id, senderName := name }
        | none => inbox ++ [row]) := by
  cases hfind : (inbox ++ [row]).findIdx? found with
  | none =>
    have hnot := List.findIdx?_eq_none_iff.mp hfind row
      (List.mem_append_right _ (List.mem_singleton_self _))
    rw [hown] at hnot
    cases hnot
  | some i =>
    obtain ⟨hi, hfirst, -⟩ := List.findIdx?_eq_some_iff_getElem.mp hfind
    obtain ⟨hreaction, hconv, hseq⟩ := hfound _ hfirst
    have hnot {id name : String} :
        ¬DisplayRow.Content { row with senderId := id, senderName := name } :=
      fun hcontent ↦ hcontent.not_reaction hkind
    have hlasting : ¬DisplayRow.Transient { row with senderId := id, senderName := name } := by
      rintro (hgone | hgone) <;> cases hgone.symm.trans hkind
    have hget : (inbox ++ [row])[i]? = some (inbox ++ [row])[i] := List.getElem?_eq_getElem hi
    dsimp only
    rcases Nat.lt_or_ge i inbox.length with hlt | hge
    · have hold : inbox[i]? = some (inbox ++ [row])[i] := by
        rw [← hget, List.getElem?_append_left hlt]
      have hclash := h.clash_of_mem
        (s := ⟨{ row with senderId := id, senderName := name }, source⟩)
        (List.mem_of_getElem? hold) hreaction hkind hconv hseq
      have hpushed : Accounts before
          (shown ++ [⟨{ row with senderId := id, senderName := name }, source⟩]) (inbox ++ [row]) :=
        h.push ⟨hlasting, rfl, .inl rfl, fun hcontent ↦ (hnot hcontent).elim,
          fun _ ↦ .inr ⟨hkind, hclash⟩⟩
      refine hpushed.sign hget hreaction ?_ id name
      rw [hconv, hseq]
      exact hclash
    · have hlast : i = inbox.length := by
        rw [List.length_append, List.length_singleton] at hi
        exact Nat.le_antisymm (Nat.lt_succ_iff.mp hi) hge
      rw [hlast, modify_append, if_neg (Nat.lt_irrefl _), Nat.sub_self, List.modify_zero_cons]
      exact h.push_same hlasting fun hcontent ↦ (hnot hcontent).elim

end Accounts

/-- The rows, where conversations have gone on as others, one after the other. -/
def renamed (renames : List (String × String)) (rows : List DisplayRow) : List DisplayRow :=
  renames.foldl (fun rows rename ↦ rows.map (DisplayRow.moved rename.1 rename.2)) rows

theorem renamed_append (renames : List (String × String)) (source target : String)
    (rows : List DisplayRow) : renamed (renames ++ [(source, target)]) rows =
      (renamed renames rows).map (DisplayRow.moved source target) := by
  unfold renamed
  rw [List.foldl_append]
  rfl

/-- Rows keep all but their conversation, and that where none goes on as another. -/
theorem exists_of_mem_renamed {renames : List (String × String)} {rows : List DisplayRow}
    {row : DisplayRow} (h : row ∈ renamed renames rows) : ∃ r ∈ rows, row.kind = r.kind ∧
      row.convSeq = r.convSeq ∧ row.senderId = r.senderId ∧ row.senderName = r.senderName ∧
        (renames = [] → row.convId = r.convId) := by
  induction renames generalizing rows with
  | nil => exact ⟨row, h, rfl, rfl, rfl, rfl, fun _ ↦ rfl⟩
  | cons rename renames ih =>
    obtain ⟨r, hr, hkind, hseq, hid, hname, -⟩ := ih h
    obtain ⟨r₀, hr₀, rfl⟩ := List.mem_map.mp hr
    rw [DisplayRow.moved_eq] at hkind hseq hid hname
    exact ⟨r₀, hr₀, hkind, hseq, hid, hname, fun hnil ↦ by cases hnil⟩

theorem Unsigned.renamed {rows : List DisplayRow} (h : Unsigned rows)
    (renames : List (String × String)) : Unsigned (renamed renames rows) := by
  intro row hrow hcontent
  obtain ⟨r, hr, hkind, -, hid, hname, -⟩ := exists_of_mem_renamed hrow
  have hanonymous := h r hr (by
    unfold DisplayRow.Content
    rwa [← hkind])
  exact ⟨hid.trans hanonymous.1, hname.trans hanonymous.2⟩

/-! ## Rows that are stored as they are returned -/

/-- The rows a fetch returns are the rows it has put in the inbox, with the same fields, behind what is
left of those there were. -/
structure Mirrors (before rows after : List DisplayRow) : Prop where
  stored : ∀ row ∈ rows, ¬row.Transient → row ∈ after
  returned : ∃ renames old added, after = old ++ added ∧
    (old.map DisplayRow.former).Sublist ((renamed renames before).map DisplayRow.former) ∧
      ∀ row ∈ added, row ∈ rows

namespace Accounts

variable {before inbox : List DisplayRow} {renames : List (String × String)} {shown : List Listed}

end Accounts

end NemoMessenger.Client
