import NemoMessenger.Client.Reference

/-!
# Reactions that come and go

A reaction is on or off: the same one sent again takes the first one back. The rows of a conversation
say who has reacted to which message with what; a list of these is what a reaction is to toggle.
-/

namespace NemoMessenger.Client

open NemoMessenger.Data NemoMessenger.Wire
open Program (run run_bind)

/-- Who has reacted to a message, and with what. The client's own reactions have no author. -/
structure Reaction where
  conv : String
  author : Option String
  target : UInt64
  emoji : String
  deriving DecidableEq

/-- What a row of a reaction shows. -/
def DisplayRow.reaction? (row : DisplayRow) : Option Reaction :=
  if row.kind = .reaction then
    some ⟨row.convId, if row.outgoing then none else some row.senderId, row.target, row.emoji⟩
  else none

/-- The reactions among rows. -/
def reactions (inbox : List DisplayRow) : List Reaction := inbox.filterMap DisplayRow.reaction?

/-- A reaction that was off is on, one that was on is off, and no other has changed. -/
def Toggled (r : Reaction) (before after : List Reaction) : Prop :=
  after = if r ∈ before then before.erase r else before ++ [r]

/-! ## The rows of reactions -/

variable {conv sender name emoji : String} {target seq : UInt64} {inbox : List DisplayRow}
  {row : DisplayRow}

/-- The reaction of a peer or a member. -/
def Reaction.of (conv sender : String) (target : UInt64) (emoji : String) : Reaction where
  conv
  author := some sender
  target
  emoji

theorem matchesReaction_iff : Shell.matchesReaction conv target emoji false sender row = true ↔
    row.reaction? = some (.of conv sender target emoji) := by
  unfold Shell.matchesReaction DisplayRow.reaction? Reaction.of
  cases row.outgoing with
  | false =>
    simp
    grind
  | true => simp

section

variable {found : DisplayRow → Bool} {r : Reaction}
  (hfound : ∀ row, found row = true ↔ row.reaction? = some r)

include hfound

theorem mem_reactions_iff_any : r ∈ reactions inbox ↔ inbox.any found = true := by
  rw [reactions, List.mem_filterMap, List.any_eq_true]
  exact exists_congr fun row ↦ and_congr_right fun _ ↦ (hfound row).symm

theorem reactions_eraseP_found : reactions (inbox.eraseP found) = (reactions inbox).erase r := by
  rw [List.erase_eq_eraseP', reactions, reactions, List.eraseP_filterMap]
  congr 2
  funext row
  rw [Bool.eq_iff_iff, hfound]
  cases row.reaction? <;> simp

end

theorem mem_reactions_iff : Reaction.of conv sender target emoji ∈ reactions inbox ↔
    inbox.any (Shell.matchesReaction conv target emoji false sender) = true :=
  mem_reactions_iff_any fun _ ↦ matchesReaction_iff

theorem reactions_eraseP :
    reactions (inbox.eraseP (Shell.matchesReaction conv target emoji false sender)) =
      (reactions inbox).erase (.of conv sender target emoji) :=
  reactions_eraseP_found fun _ ↦ matchesReaction_iff

theorem reactions_append (rows : List DisplayRow) :
    reactions (inbox ++ rows) = reactions inbox ++ reactions rows :=
  List.filterMap_append

theorem modify_append_last {α : Type} (l : List α) (a : α) (f : α → α) :
    (l ++ [a]).modify l.length f = l ++ [f a] := by
  induction l with
  | nil => rfl
  | cons b l ih => simpa using ih

theorem modify_append_of_lt {α : Type} {l : List α} {i : ℕ} (h : i < l.length) (l' : List α)
    (f : α → α) : (l ++ l').modify i f = l.modify i f ++ l' := by
  induction l generalizing i with
  | nil => cases h
  | cons b l ih =>
    cases i with
    | zero => rfl
    | succ i => simpa using ih (Nat.lt_of_succ_lt_succ h)

/-! ## A reaction that comes in -/

/-- The row under which a reaction is stored at first. -/
def reactionRow (conv : String) (header : AppHeader) (target : UInt64) (emoji : String) :
    DisplayRow :=
  { Shell.blankRow conv header.convSeq header.sentAt false with
    text := if Shell.showsEmoji .reaction then emoji else "", kind := .reaction, emoji, target }

/-- A row with an author. -/
def DisplayRow.by (row : DisplayRow) (sender name : String) : DisplayRow :=
  { row with senderId := sender, senderName := name }

/-- The row is a reaction of the conversation with a number. -/
def numbered (conv : String) (seq : UInt64) (row : DisplayRow) : Bool :=
  row.convId = conv ∧ row.convSeq = seq ∧ row.kind = .reaction

/-- The rows after a reaction has come in. -/
def reacted (conv sender name : String) (header : AppHeader) (target : UInt64) (emoji : String)
    (inbox : List DisplayRow) : List DisplayRow :=
  if inbox.any (Shell.matchesReaction conv target emoji false sender) then
    inbox.eraseP (Shell.matchesReaction conv target emoji false sender)
  else
    let pushed := inbox ++ [reactionRow conv header target emoji]
    match pushed.findIdx? (numbered conv header.convSeq) with
    | some i => pushed.modify i (·.by sender name)
    | none => pushed

variable {header : AppHeader}

theorem numbered_reactionRow :
    numbered conv header.convSeq (reactionRow conv header target emoji) = true := by
  simp [numbered, reactionRow, Shell.blankRow]

/-- A reaction with a number of its own is stored under its author. -/
theorem reacted_of_free
    (hmatch : inbox.any (Shell.matchesReaction conv target emoji false sender) = false)
    (hfree : inbox.any (numbered conv header.convSeq) = false) :
    reacted conv sender name header target emoji inbox =
      inbox ++ [(reactionRow conv header target emoji).by sender name] := by
  have hfind : (inbox ++ [reactionRow conv header target emoji]).findIdx?
      (numbered conv header.convSeq) = some inbox.length := by
    rw [List.findIdx?_append, List.findIdx?_eq_none_iff.mpr fun row hrow ↦ by
      simpa using List.any_eq_false.mp hfree row hrow]
    simp [List.findIdx?_cons, numbered_reactionRow]
  simp only [reacted, hmatch, Bool.false_eq_true, if_false, hfind]
  exact modify_append_last _ _ _

/-- One whose number is taken leaves its author with the reaction that has the number. -/
theorem reacted_of_taken
    (hmatch : inbox.any (Shell.matchesReaction conv target emoji false sender) = false)
    (htaken : inbox.any (numbered conv header.convSeq) = true) :
    ∃ i, reacted conv sender name header target emoji inbox =
      inbox.modify i (·.by sender name) ++ [reactionRow conv header target emoji] := by
  obtain ⟨row, hrow, hnumbered⟩ := List.any_eq_true.mp htaken
  have hsome : (inbox.findIdx? (numbered conv header.convSeq)).isSome := by
    rw [List.findIdx?_isSome]
    exact List.any_eq_true.mpr ⟨row, hrow, hnumbered⟩
  obtain ⟨i, hi⟩ := Option.isSome_iff_exists.mp hsome
  have hlt : i < inbox.length := (List.findIdx?_eq_some_iff_findIdx_eq.mp hi).1
  have hfind : (inbox ++ [reactionRow conv header target emoji]).findIdx?
      (numbered conv header.convSeq) = some i := by
    rw [List.findIdx?_append, hi]
    rfl
  refine ⟨i, ?_⟩
  simp only [reacted, hmatch, Bool.false_eq_true, if_false, hfind]
  exact modify_append_of_lt hlt _ _

/-- What a reaction that comes in does to the list of reactions. -/
theorem reactions_reacted_of_mem (hmem : Reaction.of conv sender target emoji ∈ reactions inbox) :
    reactions (reacted conv sender name header target emoji inbox) =
      (reactions inbox).erase (.of conv sender target emoji) := by
  rw [reacted, if_pos (mem_reactions_iff.mp hmem), reactions_eraseP]

/-- A reaction that is off goes on exactly when its number is free. -/
theorem toggled_reacted_iff (hsender : sender ≠ "")
    (hnot : Reaction.of conv sender target emoji ∉ reactions inbox) :
    Toggled (.of conv sender target emoji) (reactions inbox)
        (reactions (reacted conv sender name header target emoji inbox)) ↔
      inbox.any (numbered conv header.convSeq) = false := by
  have hmatch := Bool.eq_false_iff.mpr fun h ↦ hnot (mem_reactions_iff.mpr h)
  rw [Toggled, if_neg hnot]
  cases hnumber : inbox.any (numbered conv header.convSeq) with
  | false =>
    rw [reacted_of_free hmatch hnumber, reactions_append]
    exact iff_of_true rfl rfl
  | true =>
    obtain ⟨i, hreacted⟩ := @reacted_of_taken conv sender name emoji target inbox header hmatch hnumber
    rw [hreacted, reactions_append]
    refine iff_of_false (fun h ↦ ?_) (fun h ↦ by cases h)
    have hlast := congrArg List.getLast? h
    simp [reactions, DisplayRow.reaction?, reactionRow, Shell.blankRow, Reaction.of] at hlast
    exact hsender hlast

/-! ## Twice -/

/-- The author has reacted so once at most, and the reaction goes on under a number that no other
reaction of the conversation has: that of the first message when it is off, that of the second when it
is on. -/
def Separate (conv sender : String) (target : UInt64) (emoji : String) (seq seq₂ : UInt64)
    (inbox : List DisplayRow) : Prop :=
  if Reaction.of conv sender target emoji ∈ reactions inbox then
    (reactions inbox).count (.of conv sender target emoji) = 1 ∧
      (inbox.eraseP (Shell.matchesReaction conv target emoji false sender)).any
        (numbered conv seq₂) = false
  else inbox.any (numbered conv seq) = false

/-- A reaction toggles, when it comes in for the first and the second time, and the second undoes the
first. -/
structure Toggles (r : Reaction) (before after again : List Reaction) : Prop where
  first : Toggled r before after
  second : Toggled r after again
  back : again.Perm before

variable {header₂ : AppHeader} {name₂ : String}

/-- A reaction that is on goes off, and comes back exactly when it was on once and the number of the
second message is free. -/
theorem toggles_iff_of_mem (hsender : sender ≠ "")
    (hmem : Reaction.of conv sender target emoji ∈ reactions inbox) :
    Toggles (.of conv sender target emoji) (reactions inbox)
        (reactions (reacted conv sender name header target emoji inbox))
        (reactions (reacted conv sender name₂ header₂ target emoji
          (reacted conv sender name header target emoji inbox))) ↔
      Separate conv sender target emoji header.convSeq header₂.convSeq inbox := by
  have hafter : reacted conv sender name header target emoji inbox =
      inbox.eraseP (Shell.matchesReaction conv target emoji false sender) :=
    if_pos (mem_reactions_iff.mp hmem)
  have herase := @reactions_reacted_of_mem conv sender name emoji target inbox header hmem
  have hcount := List.count_erase_self (a := Reaction.of conv sender target emoji)
    (l := reactions inbox)
  rw [← herase] at hcount
  rw [Separate, if_pos hmem, ← hafter]
  by_cases htwice : Reaction.of conv sender target emoji ∈
      reactions (reacted conv sender name header target emoji inbox)
  · -- One of two equal reactions is left, and goes off in its turn.
    have hpos := List.count_pos_iff.mpr htwice
    refine iff_of_false (fun h ↦ ?_) fun h ↦ by omega
    have hlength := h.back.length_eq
    rw [reactions_reacted_of_mem htwice, List.length_erase_of_mem htwice, herase,
      List.length_erase_of_mem hmem] at hlength
    have hlast := List.length_pos_of_mem hmem
    omega
  · have hzero := List.count_eq_zero.mpr htwice
    have hpos := List.count_pos_iff.mpr hmem
    have hsecond := @toggled_reacted_iff conv sender name₂ emoji target _ header₂ hsender htwice
    refine ⟨fun h ↦ ⟨by omega, hsecond.mp h.second⟩, fun h ↦ ⟨?_, hsecond.mpr h.2, ?_⟩⟩
    · rw [Toggled, if_pos hmem, herase]
    · have hagain := hsecond.mpr h.2
      rw [Toggled, if_neg htwice, herase] at hagain
      rw [hagain]
      exact (List.perm_append_singleton _ _).trans (List.perm_cons_erase hmem).symm

/-- A reaction that is off goes on when its number is free, and the second message takes it back. -/
theorem toggles_iff_of_not_mem (hsender : sender ≠ "")
    (hnot : Reaction.of conv sender target emoji ∉ reactions inbox) :
    Toggles (.of conv sender target emoji) (reactions inbox)
        (reactions (reacted conv sender name header target emoji inbox))
        (reactions (reacted conv sender name₂ header₂ target emoji
          (reacted conv sender name header target emoji inbox))) ↔
      Separate conv sender target emoji header.convSeq header₂.convSeq inbox := by
  have hfirst := @toggled_reacted_iff conv sender name emoji target inbox header hsender hnot
  rw [Separate, if_neg hnot]
  refine ⟨fun h ↦ hfirst.mp h.first, fun hfree ↦ ?_⟩
  have hafter := hfirst.mpr hfree
  have hlist := hafter
  rw [Toggled, if_neg hnot] at hlist
  have hon : Reaction.of conv sender target emoji ∈
      reactions (reacted conv sender name header target emoji inbox) := by
    rw [hlist]
    exact List.mem_append_right _ (List.mem_singleton_self _)
  have herase : (reactions (reacted conv sender name header target emoji inbox)).erase
      (.of conv sender target emoji) = reactions inbox := by
    rw [hlist, List.erase_append_right _ hnot, List.erase_cons_head, List.append_nil]
  have hagain := (@reactions_reacted_of_mem conv sender name₂ emoji target _ header₂ hon).trans herase
  refine ⟨hafter, ?_, hagain ▸ List.Perm.refl _⟩
  rw [Toggled, if_pos hon, hagain, herase]

variable {p : Outside} {env : Environment} {w : World} {arrival : Arrival}

theorem inbox_receiveReaction (w : World) :
    (run (inside p env) (receiveReaction conv sender header target emoji) w).2.inner.shell.inbox =
      reacted conv sender ((w.inner.shell.nicknames.lookup sender).getD "") header target emoji
        w.inner.shell.inbox := by
  unfold receiveReaction
  rw [show ∀ f : Shell → DisplayRow × Shell, (run (inside p env) (withShell f) w).2.inner.shell =
    (f w.inner.shell).2 from fun _ ↦ rfl]
  rw [reacted]
  by_cases hfound : w.inner.shell.inbox.any
      (Shell.matchesReaction conv target emoji false sender) = true
  · have htake : w.inner.shell.takeMatchingReaction conv target emoji false sender =
        (true, { w.inner.shell with
          inbox := w.inner.shell.inbox.eraseP
            (Shell.matchesReaction conv target emoji false sender) }) :=
      Prod.ext hfound rfl
    rw [if_pos hfound, htake]
    exact Shell.inbox_raiseSeq _ _ _
  · have hsame : w.inner.shell.inbox.eraseP
        (Shell.matchesReaction conv target emoji false sender) = w.inner.shell.inbox :=
      List.eraseP_of_forall_not (List.any_eq_false.mp (Bool.eq_false_iff.mpr hfound))
    have htake : w.inner.shell.takeMatchingReaction conv target emoji false sender =
        (false, w.inner.shell) :=
      Prod.ext (Bool.eq_false_iff.mpr hfound)
        (congrArg (fun inbox ↦ { w.inner.shell with inbox }) hsame)
    rw [if_neg hfound, htake]
    simp only [Bool.false_eq_true, if_false, Shell.pushControl, Shell.pushRow, Shell.inbox_raiseSeq]
    rfl

/-- The world after a reaction has come in, over a session or in a group. -/
def Arrival.reacted (p : Outside) (env : Environment) (arrival : Arrival) (header : AppHeader)
    (target : UInt64) (emoji : String) (w : World) : World :=
  (run (inside p env) (arrival.receive p ⟨header, .reaction target emoji⟩) w).2

theorem Arrival.inbox_reacted (w : World) :
    (arrival.reacted p env header target emoji w).inner.shell.inbox =
      Client.reacted arrival.conv (toHex arrival.author.data)
        ((w.inner.shell.nicknames.lookup (toHex arrival.author.data)).getD "") header target emoji
        w.inner.shell.inbox := by
  cases arrival with
  | peer id batch => exact inbox_receiveReaction w
  | member host sender selfHex => exact inbox_receiveReaction w.ticked

theorem toHex_ne_empty (key : Key) : toHex key.data ≠ "" := by
  intro h
  have hbytes := congrArg Cbor.textBytes h
  rw [Cbor.textBytes_toHex] at hbytes
  have hlength := key.length_data
  have hread := Cbor.fromHex_hexBytes key.data
  rw [hbytes] at hread
  rw [← Except.ok.inj hread] at hlength
  cases hlength

/-- A reaction that comes in toggles, and one that comes in twice is as it was, exactly when its
author has reacted so once at most and no other reaction of the conversation has its number. -/
theorem reaction_toggles_iff :
    Toggles (.of arrival.conv (toHex arrival.author.data) target emoji)
        (reactions w.inner.shell.inbox)
        (reactions (arrival.reacted p env header target emoji w).inner.shell.inbox)
        (reactions (arrival.reacted p env header₂ target emoji
          (arrival.reacted p env header target emoji w)).inner.shell.inbox) ↔
      Separate arrival.conv (toHex arrival.author.data) target emoji header.convSeq
        header₂.convSeq w.inner.shell.inbox := by
  rw [Arrival.inbox_reacted (arrival.reacted p env header target emoji w), Arrival.inbox_reacted]
  by_cases hmem : Reaction.of arrival.conv (toHex arrival.author.data) target emoji ∈
      reactions w.inner.shell.inbox
  · exact toggles_iff_of_mem (toHex_ne_empty _) hmem
  · exact toggles_iff_of_not_mem (toHex_ne_empty _) hmem

/-- Another member has reacted with the same number of its own: the reaction that comes in is stored
without an author, and the other one passes to its author. -/
theorem reaction_changes_hands :
    ¬Toggles (.of (toHex (FixedBytes.replicate 32 9).data) (toHex (FixedBytes.replicate 32 2).data)
        1 "+")
      (reactions [(reactionRow (toHex (FixedBytes.replicate 32 9).data) ⟨5, 0, none⟩ 1 "-").by
        (toHex (FixedBytes.replicate 32 1).data) ""])
      (reactions ((Arrival.member ⟨.replicate 32 9, ⟨.replicate 32 0, .replicate 32 0⟩, ""⟩
        (.replicate 32 2) "").reacted .transparent .silent ⟨5, 0, none⟩ 1 "+"
          (.showing [(reactionRow (toHex (FixedBytes.replicate 32 9).data) ⟨5, 0, none⟩ 1 "-").by
            (toHex (FixedBytes.replicate 32 1).data) ""])).inner.shell.inbox)
      (reactions ((Arrival.member ⟨.replicate 32 9, ⟨.replicate 32 0, .replicate 32 0⟩, ""⟩
        (.replicate 32 2) "").reacted .transparent .silent ⟨6, 0, none⟩ 1 "+"
          ((Arrival.member ⟨.replicate 32 9, ⟨.replicate 32 0, .replicate 32 0⟩, ""⟩
            (.replicate 32 2) "").reacted .transparent .silent ⟨5, 0, none⟩ 1 "+"
            (.showing [(reactionRow (toHex (FixedBytes.replicate 32 9).data) ⟨5, 0, none⟩ 1 "-").by
              (toHex (FixedBytes.replicate 32 1).data) ""]))).inner.shell.inbox) := by
  intro h
  have hfirst := h.first
  revert hfirst
  rw [Arrival.inbox_reacted]
  unfold Toggled
  decide +kernel

end NemoMessenger.Client
