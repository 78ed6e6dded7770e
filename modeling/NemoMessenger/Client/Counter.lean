import NemoMessenger.Client.Edit
import NemoMessenger.Client.Upgrade

/-!
# Counters and marks

A counter for each conversation follows the largest number that has been seen in it, and what one sends
takes the next. The receipts of the others are marks under that counter. Every change to a shell keeps
rows and marks under the counters and lets both go up only, but for a counter that runs over and a
conversation that goes on as another.
-/

namespace NemoMessenger.Client

open NemoMessenger.Data NemoMessenger.Wire

theorem le_max_left_seq (a b : UInt64) : a ≤ max a b := by
  change a ≤ if a ≤ b then b else a
  grind

theorem le_max_right_seq (a b : UInt64) : b ≤ max a b := by
  rw [max_comm_seq]
  exact le_max_left_seq b a

theorem max_le_seq {a b c : UInt64} (ha : a ≤ c) (hb : b ≤ c) : max a b ≤ c := by
  change (if a ≤ b then b else a) ≤ c
  split_ifs <;> assumption

/-! ## Counters and marks -/

/-- What others have told of a conversation: that a message has come in, that it was read, and that a
member of a group has read it. -/
inductive Mark
  | acked
  | read
  | readBy (member : String)

namespace Shell

variable {s s' : Shell}

def mark (s : Shell) (conv : String) : Mark → UInt64
  | .acked => (s.acked.lookup conv).getD 0
  | .read => (s.read.lookup conv).getD 0
  | .readBy member => (((s.groupRead.lookup conv).getD ∅).lookup member).getD 0

/-- No row and no mark goes beyond its counter. -/
structure Counted (s : Shell) : Prop where
  rows : ∀ row ∈ s.inbox, row.convSeq ≤ s.seqOf row.convId
  marks : ∀ conv kind, s.mark conv kind ≤ s.seqOf conv

/-- Counters and marks only go up. -/
structure Onward (s s' : Shell) : Prop where
  counters : ∀ conv, s.seqOf conv ≤ s'.seqOf conv
  marks : ∀ conv kind, s.mark conv kind ≤ s'.mark conv kind

theorem Onward.refl (s : Shell) : s.Onward s := ⟨fun _ ↦ UInt64.le_refl _, fun _ _ ↦ UInt64.le_refl _⟩

theorem seqOf_raiseSeq (s : Shell) (conv c : String) (n : UInt64) :
    (s.raiseSeq conv n).seqOf c = if c = conv then max (s.seqOf conv) n else s.seqOf c := by
  unfold raiseSeq
  have hmax : max (s.seqOf conv) n = if s.seqOf conv ≤ n then n else s.seqOf conv := rfl
  rw [hmax]
  split_ifs with hlt hc hle hc hle
  · subst hc
    exact congrArg (Option.getD · 0) (AList.lookup_insert _)
  · subst hc
    exact absurd (UInt64.le_of_lt hlt) hle
  · exact congrArg (Option.getD · 0) (AList.lookup_insert_ne hc)
  · subst hc
    exact UInt64.le_antisymm (by assumption) (UInt64.not_lt.mp hlt)
  · rw [hc]
  · rfl

theorem nextSeq_raiseSeq (s : Shell) (conv : String) (n : UInt64) : (s.raiseSeq conv n).nextSeq =
    if n > s.seqOf conv then s.nextSeq.insert conv n else s.nextSeq := by
  unfold raiseSeq
  split_ifs <;> rfl

theorem mark_congr (hacked : s'.acked = s.acked) (hread : s'.read = s.read)
    (hgroup : s'.groupRead = s.groupRead) (conv : String) (kind : Mark) :
    s'.mark conv kind = s.mark conv kind := by
  cases kind with
  | acked => rw [mark, hacked, mark]
  | read => rw [mark, hread, mark]
  | readBy member => rw [mark, hgroup, mark]

theorem mark_raiseSeq (s : Shell) (conv c : String) (n : UInt64) (kind : Mark) :
    (s.raiseSeq conv n).mark c kind = s.mark c kind := by
  unfold raiseSeq
  split_ifs
  exacts [mark_congr rfl rfl rfl c kind, rfl]

theorem onward_raiseSeq (s : Shell) (conv : String) (n : UInt64) : s.Onward (s.raiseSeq conv n) where
  counters c := by
    rw [seqOf_raiseSeq]
    split_ifs with hc
    · subst hc
      exact le_max_left_seq _ _
    · exact UInt64.le_refl _
  marks c kind := by
    rw [mark_raiseSeq]
    exact UInt64.le_refl _

theorem getD_raiseMark (marks : FiniteMap String UInt64) (conv c : String) (n : UInt64) :
    ((raiseMark marks conv n).lookup c).getD 0 =
      if c = conv then max ((marks.lookup conv).getD 0) n else (marks.lookup c).getD 0 := by
  rw [raiseMark, FiniteMap.lookup_insert_ite]
  by_cases hc : c = conv
  · subst hc
    rw [if_pos rfl, if_pos rfl]
    cases marks.lookup c with
    | none => exact (zero_max_seq n).symm
    | some u => rfl
  · rw [if_neg hc, if_neg hc]

/-! ## What a change keeps -/

/-- Rows stay, go, or come in under what the counters have reached, and marks stay below it. -/
theorem Counted.onward (h : s.Counted) (honward : s.Onward s')
    (hrows : ∀ row ∈ s'.inbox, (∃ old ∈ s.inbox, row.convId = old.convId ∧ row.convSeq = old.convSeq) ∨
      row.convSeq ≤ s'.seqOf row.convId)
    (hmarks : ∀ conv kind, s'.mark conv kind ≤ s'.seqOf conv) : s.Onward s' ∧ s'.Counted := by
  refine ⟨honward, fun row hrow ↦ ?_, hmarks⟩
  rcases hrows row hrow with ⟨old, hold, hconv, hseq⟩ | hle
  · rw [hconv, hseq]
    exact UInt64.le_trans (h.rows old hold) (honward.counters _)
  · exact hle

/-- The counter of a conversation is raised, and a row may come in under it. -/
theorem Counted.raise (h : s.Counted) (conv : String) (n : UInt64)
    (hnext : s'.nextSeq = (s.raiseSeq conv n).nextSeq) (hmarks : ∀ c kind, s'.mark c kind = s.mark c kind)
    (hrows : ∀ row ∈ s'.inbox, (∃ old ∈ s.inbox, row.convId = old.convId ∧ row.convSeq = old.convSeq) ∨
      row.convId = conv ∧ row.convSeq = n) : s.Onward s' ∧ s'.Counted := by
  have hseq (c : String) : s'.seqOf c = (s.raiseSeq conv n).seqOf c := by rw [seqOf, hnext, seqOf]
  have honward : s.Onward s' := by
    refine ⟨fun c ↦ ?_, fun c kind ↦ ?_⟩
    · rw [hseq]
      exact (onward_raiseSeq s conv n).counters c
    · rw [hmarks]
      exact UInt64.le_refl _
  refine h.onward honward (fun row hrow ↦ (hrows row hrow).imp_right ?_) fun c kind ↦ ?_
  · rintro ⟨hconv, hn⟩
    rw [hseq, seqOf_raiseSeq, if_pos hconv, hn]
    exact le_max_right_seq _ _
  · rw [hmarks]
    exact UInt64.le_trans (h.marks c kind) (honward.counters c)

/-- A mark is raised, up to the counter. -/
theorem Counted.clamp (h : s.Counted) (hinbox : s'.inbox = s.inbox) (hnext : s'.nextSeq = s.nextSeq)
    (hmarks : ∀ c kind, s'.mark c kind = s.mark c kind ∨
      ∃ n, n ≤ s.seqOf c ∧ s'.mark c kind = max (s.mark c kind) n) : s.Onward s' ∧ s'.Counted := by
  have hseq (c : String) : s'.seqOf c = s.seqOf c := by rw [seqOf, hnext, seqOf]
  refine h.onward ⟨fun c ↦ ?_, fun c kind ↦ ?_⟩ (fun row hrow ↦ .inl ⟨row, ?_, rfl, rfl⟩) fun c kind ↦ ?_
  · rw [hseq]
    exact UInt64.le_refl _
  · rcases hmarks c kind with heq | ⟨n, -, heq⟩
    · rw [heq]
      exact UInt64.le_refl _
    · rw [heq]
      exact le_max_left_seq _ _
  · rwa [← hinbox]
  · rw [hseq]
    rcases hmarks c kind with heq | ⟨n, hn, heq⟩
    · rw [heq]
      exact h.marks c kind
    · rw [heq]
      exact max_le_seq (h.marks c kind) hn

theorem mark_insert {marks : FiniteMap String UInt64} {conv : String} {n : UInt64} (hn : n ≤ s.seqOf conv)
    (c : String) : ((raiseMark marks conv n).lookup c).getD 0 = (marks.lookup c).getD 0 ∨
      ∃ m, m ≤ s.seqOf c ∧ ((raiseMark marks conv n).lookup c).getD 0 = max ((marks.lookup c).getD 0) m := by
  rw [getD_raiseMark]
  split_ifs with hc
  · subst hc
    exact .inr ⟨n, hn, rfl⟩
  · exact .inl rfl

end Shell

open Shell in
/-- An edit keeps rows and marks under the counters, and lets both go up only. -/
theorem Edit.counted {s s' : Shell} (h : Edit s s') (hs : s.Counted) : s.Onward s' ∧ s'.Counted := by
  have hclamp (conv : String) (upto : UInt64) : min upto (s.seqOf conv) ≤ s.seqOf conv :=
    Std.min_le_right
  have hpush {s' : Shell} {row : DisplayRow} (hinbox : s'.inbox = s.inbox ++ [row]) :
      ∀ new ∈ s'.inbox, (∃ old ∈ s.inbox, new.convId = old.convId ∧ new.convSeq = old.convSeq) ∨
        new.convId = row.convId ∧ new.convSeq = row.convSeq := by
    intro new hnew
    rw [hinbox] at hnew
    rcases List.mem_append.mp hnew with hold | hlast
    · exact .inl ⟨new, hold, rfl, rfl⟩
    · rw [List.mem_singleton.mp hlast]
      exact .inr ⟨rfl, rfl⟩
  cases h with
  | aside h => exact hs.clamp h.inbox h.nextSeq fun c kind ↦ .inl (mark_congr h.acked h.read h.groupRead c kind)
  | push h =>
    exact hs.raise _ _ rfl (fun c kind ↦ mark_raiseSeq ..) (hpush (s.inbox_pushRow _))
  | sign h i id name =>
    refine hs.raise _ _ rfl (fun c kind ↦ mark_raiseSeq ..) fun new hnew ↦ ?_
    obtain ⟨j, hj⟩ := List.mem_iff_getElem?.mp hnew
    rw [List.getElem?_modify] at hj
    obtain ⟨old, hold, rfl⟩ := Option.map_eq_some_iff.mp hj
    have hids := hpush (s.inbox_pushRow _) old (List.mem_of_getElem? hold)
    split_ifs <;> exact hids
  | trim h conv n =>
    refine hs.raise conv n ?_ (fun c kind ↦ mark_raiseSeq ..) fun new hnew ↦ .inl ⟨new, ?_, rfl, rfl⟩
    · rw [nextSeq_raiseSeq, nextSeq_raiseSeq]
      rfl
    · rw [inbox_raiseSeq] at hnew
      exact h.mem hnew
  | remove conv target n =>
    refine hs.raise conv n ?_ (fun c kind ↦ mark_raiseSeq ..) fun new hnew ↦ .inl ?_
    · rw [nextSeq_raiseSeq, nextSeq_raiseSeq]
      rfl
    · rw [inbox_raiseSeq] at hnew
      obtain ⟨old, hold, rfl⟩ := List.mem_map.mp hnew
      refine ⟨old, (List.mem_filter.mp hold).1, ?_⟩
      split_ifs <;> exact ⟨rfl, rfl⟩
  | timer conv secs => exact hs.clamp rfl rfl fun c kind ↦ .inl (mark_congr rfl rfl rfl c kind)
  | @setTimer conv secs row h =>
    refine hs.raise row.convId row.convSeq ?_ (fun c kind ↦ mark_raiseSeq ..) (hpush (inbox_pushRow ..))
    rw [pushRow, nextSeq_raiseSeq, nextSeq_raiseSeq]
    rfl
  | acked conv upto =>
    refine hs.clamp rfl rfl fun c kind ↦ ?_
    cases kind with
    | acked => exact mark_insert (hclamp conv upto) c
    | _ => exact .inl rfl
  | read conv upto =>
    refine hs.clamp rfl rfl fun c kind ↦ ?_
    cases kind with
    | read => exact mark_insert (hclamp conv upto) c
    | _ => exact .inl rfl
  | groupRead conv sender upto =>
    unfold raiseGroupRead
    dsimp only
    split_ifs
    · refine hs.clamp rfl rfl fun c kind ↦ ?_
      cases kind with
      | readBy member =>
        rw [mark, FiniteMap.lookup_insert_ite]
        split_ifs with hc
        · subst hc
          rw [Option.getD_some, getD_raiseMark]
          split_ifs with hmember
          · subst hmember
            exact .inr ⟨_, hclamp c upto, rfl⟩
          · exact .inl rfl
        · exact .inl rfl
      | _ => exact .inl rfl
    · exact ⟨.refl s, hs⟩

/-- The change takes up the next number of a conversation. -/
def Allocates (f : Shell → Shell) (conv : String) : Prop := f = fun s ↦ (s.bumpSeq conv).2

/-- The change makes a conversation go on as another. -/
def Upgrades (f : Shell → Shell) (source : String) : Prop :=
  ∃ target, source ≠ target ∧ f = fun s ↦ s.remapConvId source target

namespace Shell

variable {s : Shell} {f : Shell → Shell}

/-- The counter does not run over, and a conversation that goes on as another has no marks. -/
structure Bears (s : Shell) (f : Shell → Shell) : Prop where
  allocates : ∀ conv, Allocates f conv → s.seqOf conv ≠ UInt64.ofNat (2 ^ 64 - 1)
  upgrades : ∀ source, Upgrades f source → ∀ kind, s.mark source kind = 0

/-- Rows and marks stay under the counters, marks go up only, and so do the counters but where a
conversation goes on as another. -/
structure Grown (s : Shell) (f : Shell → Shell) : Prop where
  counted : (f s).Counted
  marks : ∀ conv kind, s.mark conv kind ≤ (f s).mark conv kind
  counters : ∀ conv, s.seqOf conv ≤ (f s).seqOf conv ∨ Upgrades f conv

theorem Grown.of_onward (h : s.Onward (f s) ∧ (f s).Counted) : s.Grown f :=
  ⟨h.2, h.1.marks, fun conv ↦ .inl (h.1.counters conv)⟩

theorem seqOf_bumpSeq (s : Shell) (conv c : String) :
    (s.bumpSeq conv).2.seqOf c = if c = conv then s.seqOf conv + 1 else s.seqOf c := by
  rw [bumpSeq, seqOf, FiniteMap.lookup_insert_ite]
  split_ifs <;> rfl

theorem seqOf_remapConvId_of_ne {source target c : String} (h : source ≠ target)
    (hsource : c ≠ source) (htarget : c ≠ target) :
    (s.remapConvId source target).seqOf c = s.seqOf c := by
  rw [remapConvId_of_ne h, seqOf]
  cases s.nextSeq.lookup source with
  | none => rfl
  | some n => rw [AList.lookup_insert_ne htarget, AList.lookup_erase_ne hsource, seqOf]

/-- An upgrade merges the counters. -/
theorem Counted.remap (h : s.Counted) {source target : String} (hne : source ≠ target)
    (hmarks : ∀ kind, s.mark source kind = 0) : s.Grown fun s ↦ s.remapConvId source target := by
  have hmark (conv : String) (kind : Mark) :
      (s.remapConvId source target).mark conv kind = s.mark conv kind := by
    rw [remapConvId_of_ne hne]
    exact mark_congr rfl rfl rfl conv kind
  have hcounter (conv : String) (hconv : conv ≠ source) :
      s.seqOf conv ≤ (s.remapConvId source target).seqOf conv := by
    by_cases htarget : conv = target
    · subst htarget
      rw [seqOf_remapConvId hne]
      exact le_max_right_seq _ _
    · rw [seqOf_remapConvId_of_ne hne hconv htarget]
      exact UInt64.le_refl _
  refine ⟨⟨fun row hrow ↦ ?_, fun conv kind ↦ ?_⟩, fun conv kind ↦ ?_, fun conv ↦ ?_⟩
  · have hmap : row ∈ s.inbox.map fun row ↦
        if row.convId = source then { row with convId := target } else row := by
      rwa [remapConvId_of_ne hne] at hrow
    obtain ⟨old, hold, rfl⟩ := List.mem_map.mp hmap
    have hle := h.rows old hold
    split_ifs with hconv
    · rw [hconv] at hle
      dsimp only
      rw [seqOf_remapConvId hne]
      exact UInt64.le_trans hle (le_max_left_seq _ _)
    · exact UInt64.le_trans hle (hcounter _ hconv)
  · rw [hmark]
    by_cases hconv : conv = source
    · rw [hconv, hmarks]
      exact UInt64.zero_le
    · exact UInt64.le_trans (h.marks conv kind) (hcounter conv hconv)
  · rw [hmark]
    exact UInt64.le_refl _
  · by_cases hconv : conv = source
    · exact .inr ⟨target, hconv ▸ hne, by rw [hconv]⟩
    · exact .inl (hcounter conv hconv)

theorem Counted.bump (h : s.Counted) {conv : String}
    (hmax : s.seqOf conv ≠ UInt64.ofNat (2 ^ 64 - 1)) : s.Grown fun s ↦ (s.bumpSeq conv).2 := by
  have hcounter (c : String) : s.seqOf c ≤ (s.bumpSeq conv).2.seqOf c := by
    rw [seqOf_bumpSeq]
    split_ifs with hc
    · subst hc
      exact UInt64.le_of_lt (UInt64.lt_add_one hmax)
    · exact UInt64.le_refl _
  have hmark (c : String) (kind : Mark) : (s.bumpSeq conv).2.mark c kind = s.mark c kind :=
    mark_congr rfl rfl rfl c kind
  refine .of_onward (h.onward ⟨hcounter, fun c kind ↦ ?_⟩ (fun row hrow ↦ .inl ⟨row, hrow, rfl, rfl⟩)
    fun c kind ↦ ?_)
  · rw [hmark]
    exact UInt64.le_refl _
  · rw [hmark]
    exact UInt64.le_trans (h.marks c kind) (hcounter c)

theorem Counted.append (h : s.Counted) {row : DisplayRow} (hrow : row.convSeq ≤ s.seqOf row.convId) :
    s.Grown fun s ↦ { s with inbox := s.inbox ++ [row] } := by
  have hmark (c : String) (kind : Mark) :
      { s with inbox := s.inbox ++ [row] }.mark c kind = s.mark c kind := mark_congr rfl rfl rfl c kind
  refine .of_onward (h.onward ⟨fun _ ↦ UInt64.le_refl _, fun c kind ↦ ?_⟩ (fun new hnew ↦ ?_)
    fun c kind ↦ ?_)
  · rw [hmark]
    exact UInt64.le_refl _
  · rcases List.mem_append.mp hnew with hold | hlast
    · exact .inl ⟨new, hold, rfl, rfl⟩
    · rw [List.mem_singleton.mp hlast]
      exact .inr hrow
  · rw [hmark]
    exact h.marks c kind

theorem Counted.expire (h : s.Counted) {now : UInt64} (hf : f s =
    { s with inbox := expireInbox s.disappear now s.inbox, pendingInvites := (f s).pendingInvites }) :
    s.Grown f := by
  have hseq (c : String) : (f s).seqOf c = s.seqOf c := by rw [hf]; rfl
  have hmark (c : String) (kind : Mark) : (f s).mark c kind = s.mark c kind := by
    rw [hf]
    exact mark_congr rfl rfl rfl c kind
  refine .of_onward (h.onward ⟨fun c ↦ ?_, fun c kind ↦ ?_⟩ (fun row hrow ↦ .inl ?_) fun c kind ↦ ?_)
  · rw [hseq]
    exact UInt64.le_refl _
  · rw [hmark]
    exact UInt64.le_refl _
  · rw [hf] at hrow
    obtain ⟨old, hold, rfl⟩ := List.mem_map.mp hrow
    refine ⟨old, hold, ?_⟩
    split_ifs <;> exact ⟨rfl, rfl⟩
  · rw [hmark, hseq]
    exact h.marks c kind

/-- Every change but the appending of a row of one's own. -/
theorem Change.grown (hf : Change False True f) (h : s.Counted) (hbears : s.Bears f) : s.Grown f := by
  cases hf with
  | edit hf => exact .of_onward ((hf s).counted h)
  | bump conv hf =>
    have hmax := hbears.allocates conv hf
    subst hf
    exact h.bump hmax
  | remap source target hf =>
    by_cases hne : source = target
    · subst hne hf
      exact .of_onward (by rw [remapConvId, if_pos rfl]; exact ⟨.refl s, h⟩)
    · have hmarks := hbears.upgrades source ⟨target, hne, hf⟩
      subst hf
      exact h.remap hne hmarks
  | append ha => exact ha.elim
  | expire _ now hf => exact h.expire (hf s)

end Shell

end NemoMessenger.Client
