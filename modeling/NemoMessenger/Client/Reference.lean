import NemoMessenger.Client.Silent

/-!
# Messages that refer to others

A deletion and a reaction name the message they are about by its number in the conversation, and each
party numbers its own. What they do to the rows is compared here with what they are for, row by row,
with the author of every row on record beside it.
-/

namespace NemoMessenger.Client

open NemoMessenger.Data NemoMessenger.Wire
open Program (run run_bind)

/-! ## Where a message comes from -/

/-- A message comes over the session of a peer, in a batch, or from a member of a group. -/
inductive Arrival
  | peer (id : IdentityId) (batch : Batch)
  | member (host : HostGroup) (sender : IdentityId) (selfHex : String)

namespace Arrival

/-- The conversation it belongs to. -/
def conv : Arrival → String
  | peer id _ => toHex id.data
  | member host _ _ => toHex host.groupId.data

/-- Its author, as its decryption shows. -/
def author : Arrival → IdentityId
  | peer id _ => id
  | member _ sender _ => sender

/-- It is taken in. -/
def receive (p : Outside) (message : AppMessage) : Arrival → SessionM Unit
  | peer id batch => do let _ ← receiveMessage p id message batch
  | member host sender selfHex => do let _ ← receiveGroupMessage p host sender selfHex message

end Arrival

variable {p : Outside} {env : Environment} {w : World} {arrival : Arrival} {header : AppHeader}

/-! ## Deletions -/

section

variable (author : IdentityId) (conv : String) (target : UInt64)

/-- The row is the message of the author with the number. -/
def isMessage (entry : DisplayRow × IdentityId) : Bool :=
  entry.1.convId = conv && entry.1.convSeq = target && entry.1.kind ≠ .reaction &&
    entry.2 = author

/-- The row is a reaction to the number. -/
def reactsTo (row : DisplayRow) : Bool :=
  row.convId = conv && row.kind = .reaction && row.target = target

/-- The row quotes the number; zero stands for no quote. -/
def quotes (row : DisplayRow) : Bool :=
  row.convId = conv && row.replyTo = target && target ≠ 0

/-- The row without its quote of the number. -/
def unquoted (row : DisplayRow) : DisplayRow :=
  if quotes conv target row then { row with replyTo := 0 } else row

/-- The rows a deletion is to leave, when the author of each is on record: the message goes, the
reactions to it go, and it is quoted no more. Where the author has no such message, nothing happens. -/
def withoutMessage (rows : List (DisplayRow × IdentityId)) : List DisplayRow :=
  if rows.any (isMessage author conv target) then
    ((rows.filter fun entry ↦ !isMessage author conv target entry &&
      !reactsTo conv target entry.1).map Prod.fst).map (unquoted conv target)
  else rows.map Prod.fst

/-- The number tells one message: nobody else has one with it in the conversation, no tombstone of
an older version stands for it, and nothing refers to it unless the author has sent it. -/
structure Unambiguous (rows : List (DisplayRow × IdentityId)) : Prop where
  own : ∀ entry ∈ rows, entry.1.convId = conv → entry.1.convSeq = target →
    entry.1.kind ≠ .reaction → entry.2 = author
  tombstones : ∀ entry ∈ rows, entry.1.convId = conv → entry.1.kind = .deleted →
    entry.1.target = target → entry.1.convSeq = target
  sent : rows.any (isMessage author conv target) = true ∨
    ∀ entry ∈ rows, reactsTo conv target entry.1 = false ∧ quotes conv target entry.1 = false

end

variable {author : IdentityId} {conv : String} {target : UInt64}
  {rows : List (DisplayRow × IdentityId)}

namespace Shell

theorem removeTarget_eq (inbox : List DisplayRow) : removeTarget inbox conv target =
    (inbox.filter (survivesRemoval conv target)).map (unquoted conv target) := by
  unfold removeTarget unquoted quotes
  congr 1
  funext row
  simp only [Bool.and_eq_true, decide_eq_true_eq, and_assoc, ne_eq]

/-- What survives a removal is no message with the number, no reaction to it and no tombstone. -/
theorem survivesRemoval_iff {row : DisplayRow} : survivesRemoval conv target row = true ↔
    (row.convId = conv → row.convSeq = target → row.kind = .reaction) ∧
      reactsTo conv target row = false ∧
      (row.convId = conv → row.kind = .deleted → row.target ≠ target) := by
  unfold survivesRemoval reactsTo
  grind

end Shell

theorem unquoted_eq_self {row : DisplayRow} :
    unquoted conv target row = row ↔ quotes conv target row = false := by
  unfold unquoted
  cases hquotes : quotes conv target row with
  | false => simp
  | true =>
    simp only [if_true, Bool.true_eq_false, iff_false]
    intro h
    have hzero : row.replyTo = 0 := (congrArg DisplayRow.replyTo h).symm
    simp [quotes, hzero] at hquotes
    exact hquotes.2 hquotes.1.2.symm

theorem map_unquoted_eq_self {inbox : List DisplayRow} :
    inbox.map (unquoted conv target) = inbox ↔
      ∀ row ∈ inbox, quotes conv target row = false := by
  have hid : inbox.map (unquoted conv target) = inbox ↔
      inbox.map (unquoted conv target) = inbox.map id := by rw [List.map_id]
  rw [hid, List.map_inj_left]
  exact forall₂_congr fun row _ ↦ unquoted_eq_self

/-- A deletion keeps no more than it is to keep. -/
theorem keep_of_survives {entry : DisplayRow × IdentityId}
    (h : Shell.survivesRemoval conv target entry.1 = true) :
    (!isMessage author conv target entry && !reactsTo conv target entry.1) = true := by
  obtain ⟨hmessage, hreaction, -⟩ := Shell.survivesRemoval_iff.mp h
  have hnot : isMessage author conv target entry = false := by
    unfold isMessage
    grind
  rw [hnot, hreaction]
  rfl

/-- Where the number tells one message, it keeps all of that. -/
theorem Unambiguous.survives (h : Unambiguous author conv target rows)
    {entry : DisplayRow × IdentityId} (hentry : entry ∈ rows)
    (hkeep : (!isMessage author conv target entry && !reactsTo conv target entry.1) = true) :
    Shell.survivesRemoval conv target entry.1 = true := by
  rw [Bool.and_eq_true, Bool.not_eq_true', Bool.not_eq_true'] at hkeep
  have hother : entry.1.convId = conv → entry.1.convSeq = target → entry.1.kind = .reaction := by
    intro hconv hseq
    by_contra hkind
    have hmessage : isMessage author conv target entry = true := by
      simp [isMessage, hconv, hseq, hkind, h.own entry hentry hconv hseq hkind]
    rw [hkeep.1] at hmessage
    cases hmessage
  refine Shell.survivesRemoval_iff.mpr ⟨hother, hkeep.2, fun hconv hkind htarget ↦ ?_⟩
  have hreaction := hother hconv (h.tombstones entry hentry hconv hkind htarget)
  rw [hkind] at hreaction
  cases hreaction

/-- Where the author has sent the number, a deletion does what it is for exactly when the number tells
one message. -/
theorem removeTarget_eq_iff_of_sent (hsent : rows.any (isMessage author conv target) = true) :
    Shell.removeTarget (rows.map Prod.fst) conv target = withoutMessage author conv target rows ↔
      Unambiguous author conv target rows := by
  have hsub : rows.filter (Shell.survivesRemoval conv target ∘ Prod.fst) =
      (rows.filter fun entry ↦ !isMessage author conv target entry &&
        !reactsTo conv target entry.1).filter (Shell.survivesRemoval conv target ∘ Prod.fst) := by
    rw [List.filter_filter]
    refine List.filter_congr fun entry _ ↦ ?_
    cases hsurvives : (Shell.survivesRemoval conv target ∘ Prod.fst) entry with
    | false => rfl
    | true => exact (keep_of_survives hsurvives).symm
  rw [Shell.removeTarget_eq, withoutMessage, List.filter_map, if_pos hsent]
  constructor
  · intro h
    have hlength := congrArg List.length h
    rw [List.length_map, List.length_map, List.length_map, List.length_map, hsub,
      List.length_filter_eq_length_iff] at hlength
    have hsurvives {entry : DisplayRow × IdentityId} (hentry : entry ∈ rows)
        (hmessage : isMessage author conv target entry = false)
        (hkind : entry.1.kind ≠ .reaction) :
        Shell.survivesRemoval conv target entry.1 = true :=
      hlength entry (List.mem_filter.mpr ⟨hentry, by simp [hmessage, reactsTo, hkind]⟩)
    refine ⟨fun entry hentry hconv hseq hkind ↦ ?_, fun entry hentry hconv hkind htarget ↦ ?_,
      .inl hsent⟩
    · by_contra hauthor
      have hmessage : isMessage author conv target entry = false := by simp [isMessage, hauthor]
      exact hkind ((Shell.survivesRemoval_iff.mp (hsurvives hentry hmessage hkind)).1 hconv hseq)
    · by_contra hseq
      have hmessage : isMessage author conv target entry = false := by simp [isMessage, hseq]
      have hother : entry.1.kind ≠ .reaction := by simp [hkind]
      exact (Shell.survivesRemoval_iff.mp (hsurvives hentry hmessage hother)).2.2 hconv hkind htarget
  · intro h
    congr 2
    refine List.filter_congr fun entry hentry ↦ Bool.eq_iff_iff.mpr ⟨fun hsurvives ↦ ?_, ?_⟩
    · exact keep_of_survives hsurvives
    · exact h.survives hentry

/-- Where the author has not, it does nothing exactly when nobody else has and nothing refers to
it. -/
theorem removeTarget_eq_iff_of_unsent (hsent : rows.any (isMessage author conv target) = false) :
    Shell.removeTarget (rows.map Prod.fst) conv target = withoutMessage author conv target rows ↔
      Unambiguous author conv target rows := by
  rw [Shell.removeTarget_eq, withoutMessage, List.filter_map, hsent, if_neg Bool.false_ne_true]
  constructor
  · intro h
    have hlength := congrArg List.length h
    rw [List.length_map, List.length_map, List.length_map,
      List.length_filter_eq_length_iff] at hlength
    have hsurvives {entry : DisplayRow × IdentityId} (hentry : entry ∈ rows) :=
      Shell.survivesRemoval_iff.mp (hlength entry hentry)
    rw [List.filter_eq_self.mpr hlength, map_unquoted_eq_self] at h
    refine ⟨fun entry hentry hconv hseq hkind ↦ ?_, fun entry hentry hconv hkind htarget ↦ ?_,
      .inr fun entry hentry ↦ ⟨?_, ?_⟩⟩
    · exact absurd ((hsurvives hentry).1 hconv hseq) hkind
    · exact absurd htarget ((hsurvives hentry).2.2 hconv hkind)
    · exact (hsurvives hentry).2.1
    · exact h entry.1 (List.mem_map_of_mem hentry)
  · intro h
    have hquiet := h.sent.resolve_left (by rw [hsent]; exact Bool.false_ne_true)
    have hall : rows.filter (Shell.survivesRemoval conv target ∘ Prod.fst) = rows := by
      refine List.filter_eq_self.mpr fun entry hentry ↦ h.survives hentry ?_
      have hmessage := List.any_eq_false.mp hsent entry hentry
      simp [hmessage, (hquiet entry hentry).1]
    rw [hall, map_unquoted_eq_self]
    intro row hrow
    obtain ⟨entry, hentry, rfl⟩ := List.mem_map.mp hrow
    exact (hquiet entry hentry).2

/-- A deletion does to the rows what it is for exactly when its number tells one message. -/
theorem removeTarget_eq_iff :
    Shell.removeTarget (rows.map Prod.fst) conv target = withoutMessage author conv target rows ↔
      Unambiguous author conv target rows := by
  cases hsent : rows.any (isMessage author conv target) with
  | true => exact removeTarget_eq_iff_of_sent hsent
  | false => exact removeTarget_eq_iff_of_unsent hsent

/-- The rows after a deletion has come in. -/
theorem inbox_receive_delete (target : UInt64) (w : World) :
    (run (inside p env) (arrival.receive p ⟨header, .delete target⟩) w).2.inner.shell.inbox =
      Shell.removeTarget w.inner.shell.inbox arrival.conv target := by
  cases arrival <;>
  · change (Shell.raiseSeq _ _ _).inbox = _
    unfold Shell.raiseSeq
    split_ifs <;> rfl

/-- A deletion that comes in removes exactly the message of its author, with what refers to it, when
and only when its number tells one message. -/
theorem delete_exact_iff (hrows : w.inner.shell.inbox = rows.map Prod.fst) :
    (run (inside p env) (arrival.receive p ⟨header, .delete target⟩) w).2.inner.shell.inbox =
        withoutMessage arrival.author arrival.conv target rows ↔
      Unambiguous arrival.author arrival.conv target rows := by
  rw [inbox_receive_delete, hrows]
  exact removeTarget_eq_iff

/-- The client of `World.acquainted`, with rows. -/
def World.showing (inbox : List DisplayRow) : World :=
  { World.acquainted with
    inner := { World.acquainted.inner with shell := { Shell.empty with inbox } } }

/-- A text of the conversation with the contact of `World.acquainted`. -/
def DisplayRow.numbered (convSeq : UInt64) (outgoing : Bool) : DisplayRow :=
  Shell.blankRow (toHex (FixedBytes.replicate 32 1).data) convSeq 0 outgoing

/-- The contact deletes the only message with its number. -/
theorem delete_exact_iff_numbered :
    (run (inside .transparent .silent) ((Arrival.peer (.replicate 32 1) ⟨[], [], ∅⟩).receive
        .transparent ⟨⟨3, 0, none⟩, .delete 1⟩)
      (.showing [.numbered 1 false, .numbered 2 true])).2.inner.shell.inbox =
        withoutMessage (.replicate 32 1) (toHex (FixedBytes.replicate 32 1).data) 1
          [(.numbered 1 false, .replicate 32 1), (.numbered 2 true, .replicate 32 0)] ↔
      Unambiguous (.replicate 32 1) (toHex (FixedBytes.replicate 32 1).data) 1
        [(.numbered 1 false, .replicate 32 1), (.numbered 2 true, .replicate 32 0)] :=
  delete_exact_iff rfl

/-- The message of the client with the same number goes with the one that is deleted. -/
theorem delete_removes_own :
    (run (inside .transparent .silent) ((Arrival.peer (.replicate 32 1) ⟨[], [], ∅⟩).receive
        .transparent ⟨⟨3, 0, none⟩, .delete 1⟩)
      (.showing [.numbered 1 false, .numbered 1 true])).2.inner.shell.inbox ≠
        withoutMessage (.replicate 32 1) (toHex (FixedBytes.replicate 32 1).data) 1
          [(.numbered 1 false, .replicate 32 1), (.numbered 1 true, .replicate 32 0)] := by
  rw [inbox_receive_delete]
  decide +kernel

end NemoMessenger.Client
