import NemoMessenger.Client.Returned
import NemoMessenger.Data.Run

/-!
# Reactions at two ends

Two ends of a conversation learn of the same reactions: each makes its own, and takes in those of the
others. As long as the reactions that come in go on under numbers of their own, both ends show the same
ones.
-/

namespace NemoMessenger.Client

open NemoMessenger.Data NemoMessenger.Wire
open Program (run)

/-! ## Toggling -/

section Toggle

variable {α β : Type} [DecidableEq α] [DecidableEq β] {a : α} {l l' : List α}

/-- What is there goes off, and what is not goes on. -/
def toggle (a : α) (l : List α) : List α := if a ∈ l then l.erase a else l ++ [a]

theorem mem_of_mem_toggle {x : α} (h : x ∈ toggle a l) : x ∈ l ∨ x = a := by
  unfold toggle at h
  split_ifs at h
  · exact .inl (List.mem_of_mem_erase h)
  · exact (List.mem_append.mp h).imp_right List.mem_singleton.mp

theorem toggle_perm (h : l.Perm l') : (toggle a l).Perm (toggle a l') := by
  unfold toggle
  by_cases ha : a ∈ l
  · rw [if_pos ha, if_pos (h.mem_iff.mp ha)]
    exact h.erase a
  · rw [if_neg ha, if_neg fun hl ↦ ha (h.mem_iff.mpr hl)]
    exact h.append_right [a]

/-- Toggling is seen through a map that tells the one that is toggled from the others. -/
theorem filterMap_toggle {f : α → Option β} {b : β} (hb : f a = some b)
    (honly : ∀ x ∈ l, f x = some b → x = a) :
    (toggle a l).filterMap f = toggle b (l.filterMap f) := by
  have hmem : a ∈ l ↔ b ∈ l.filterMap f := by
    rw [List.mem_filterMap]
    exact ⟨fun ha ↦ ⟨a, ha, hb⟩, fun ⟨x, hx, hfx⟩ ↦ honly x hx hfx ▸ hx⟩
  have herase : (l.erase a).filterMap f = (l.filterMap f).erase b := by
    clear hmem
    induction l with
    | nil => rfl
    | cons x l ih =>
      have hl := ih fun y hy ↦ honly y (List.mem_cons_of_mem _ hy)
      by_cases hx : x = a
      · rw [hx, List.erase_cons_head, List.filterMap_cons_some hb, List.erase_cons_head]
      · have hne : f x ≠ some b := fun hfx ↦ hx (honly x List.mem_cons_self hfx)
        rw [List.erase_cons_tail (by simpa using hx)]
        cases hfx : f x with
        | none => rw [List.filterMap_cons_none hfx, List.filterMap_cons_none hfx, hl]
        | some y =>
          rw [List.filterMap_cons_some hfx, List.filterMap_cons_some hfx, hl,
            List.erase_cons_tail (by simpa using fun hy : y = b ↦ hne (hfx.trans (congrArg some hy)))]
  unfold toggle
  by_cases ha : a ∈ l
  · rw [if_pos ha, if_pos (hmem.mp ha), herase]
  · rw [if_neg ha, if_neg fun h ↦ ha (hmem.mpr h), List.filterMap_append,
      List.filterMap_cons_some hb, List.filterMap_nil]

end Toggle

/-! ## Ends -/

/-- An end of a conversation: a client, its identity, and the conversation as it is there. -/
structure End where
  p : Outside
  env : Environment
  self : String
  conv : String

/-- A reaction that an end learns of: its own, or one that comes in. -/
inductive Learned
  | own (target : UInt64) (emoji : String)
  | other (arrival : Arrival) (header : AppHeader) (target : UInt64) (emoji : String)

namespace End

variable (e : End)

/-- The world once an end has learned of a reaction. -/
def learn (w : World) : Learned → World
  | .own target emoji => (run (device e.p e.env) (react e.p e.conv target emoji) w).2
  | .other arrival header target emoji => arrival.reacted e.p e.env header target emoji w

/-- The reaction as its rows have it. -/
def reaction : Learned → Reaction
  | .own target emoji => ⟨e.conv, none, target, emoji⟩
  | .other arrival _ target emoji => .of e.conv (toHex arrival.author.data) target emoji

/-- Who has reacted to which message, and with what, where the row is of the conversation. -/
def sees (r : Reaction) : Option (String × UInt64 × String) :=
  if r.conv = e.conv then some (r.author.getD e.self, r.target, r.emoji) else none

/-- What the end shows. -/
def shown (w : World) : List (String × UInt64 × String) :=
  (reactions w.inner.shell.inbox).filterMap e.sees

/-- Who reacts to which message, and with what. -/
def what : Learned → String × UInt64 × String
  | .own target emoji => (e.self, target, emoji)
  | .other arrival _ target emoji => (toHex arrival.author.data, target, emoji)

/-- A reaction of the end itself can be sent. One that comes in is of somebody else, in the
conversation, and goes on under a number that no other reaction there has. -/
def Clear (w : World) : Learned → Prop
  | .own target emoji => ∃ row, (run (device e.p e.env) (react e.p e.conv target emoji) w).1 = .ok row
  | .other arrival header target emoji => arrival.conv = e.conv ∧ toHex arrival.author.data ≠ e.self ∧
    (Reaction.of e.conv (toHex arrival.author.data) target emoji ∉ reactions w.inner.shell.inbox →
      w.inner.shell.inbox.any (numbered e.conv header.convSeq) = false)

/-- No reaction that has come in is by the end itself. -/
def Apart (w : World) : Prop := ∀ r ∈ reactions w.inner.shell.inbox, r.author ≠ some e.self

variable {e} {w : World} {learned : Learned}

theorem sees_reaction : e.sees (e.reaction learned) = some (e.what learned) := by
  cases learned <;> exact if_pos rfl

end End

/-! ## A reaction of the end itself -/

section

variable {p : Outside} {env : Environment} {w : World} {conv emoji : String} {target : UInt64}
  {row : DisplayRow}

theorem matchesReaction_own_iff : Shell.matchesReaction conv target emoji true "" row = true ↔
    row.reaction? = some ⟨conv, none, target, emoji⟩ := by
  unfold Shell.matchesReaction DisplayRow.reaction?
  cases row.outgoing <;> simp
  grind

/-- A reaction that is sent is on afterwards, or off if it was on. -/
theorem reactions_react (h : (run (device p env) (react p conv target emoji) w).1 = .ok row) :
    reactions (run (device p env) (react p conv target emoji) w).2.inner.shell.inbox =
      toggle ⟨conv, none, target, emoji⟩ (reactions w.inner.shell.inbox) := by
  have hrun : run (device p env) (react p conv target emoji) w =
      (.ok row, (run (device p env) (react p conv target emoji) w).2) := Prod.ext h rfl
  generalize (run (device p env) (react p conv target emoji) w).2 = t at hrun ⊢
  obtain ⟨_, t₁, hbody, hsave⟩ := Program.run_bind_eq_ok.mp hrun
  obtain ⟨_, t₂, hpersist, hpure⟩ := Program.run_bind_eq_ok.mp hsave
  cases hpure
  have hsaved := @inbox_persist p env t₁
  rw [hpersist] at hsaved
  rw [hsaved]
  replace hbody := (run_inside _ w).symm.trans hbody
  rw [run_nowUnix_bind, run_withShell_bind, run_withShell_bind] at hbody
  obtain ⟨_, u, hsend, hpush⟩ := Program.run_bind_eq_ok.mp hbody
  have hshell := (congrArg (·.2.inner.shell) hsend).symm.trans
    (shell_run (silent_transmitApp _ _ _ _) _)
  replace hshell := congrArg Shell.inbox hshell
  dsimp only [Shell.bumpSeq, Shell.takeMatchingReaction] at hshell
  have herase : reactions u.inner.shell.inbox =
      (reactions w.inner.shell.inbox).erase ⟨conv, none, target, emoji⟩ := by
    rw [hshell]
    exact reactions_eraseP_found fun _ ↦ matchesReaction_own_iff
  have hmem := @mem_reactions_iff_any w.inner.shell.inbox _ _ fun row ↦
    @matchesReaction_own_iff conv emoji target row
  unfold toggle
  by_cases hany : (w.ticked.inner.shell.takeMatchingReaction conv target emoji true "").1 = true
  · rw [if_pos hany] at hpush
    cases hpush
    rw [if_pos (hmem.mpr hany), herase]
  · rw [if_neg hany] at hpush
    unfold pushOutgoing at hpush
    dsimp only at hpush
    rw [run_onShell_bind] at hpush
    cases hpush
    rw [if_neg fun h ↦ hany (hmem.mp h)]
    change reactions (u.inner.shell.inbox ++ [_]) = _
    rw [reactions_append, herase, List.erase_of_not_mem fun h ↦ hany (hmem.mp h)]
    rfl

end

/-! ## What both ends show -/

namespace End

variable {e e' : End} {w v : World} {learned : Learned}

/-- An end toggles what it learns. -/
theorem reactions_learn (h : e.Clear w learned) :
    reactions (e.learn w learned).inner.shell.inbox =
      toggle (e.reaction learned) (reactions w.inner.shell.inbox) := by
  cases learned with
  | own target emoji =>
    obtain ⟨row, hrow⟩ := h
    exact reactions_react hrow
  | other arrival header target emoji =>
    obtain ⟨hconv, -, hfree⟩ := h
    unfold learn reaction
    rw [Arrival.inbox_reacted, hconv]
    by_cases hmem : Reaction.of e.conv (toHex arrival.author.data) target emoji ∈
        reactions w.inner.shell.inbox
    · rw [reactions_reacted_of_mem hmem]
      exact (if_pos hmem).symm
    · exact (toggled_reacted_iff (toHex_ne_empty _) hmem).mpr (hfree hmem)

theorem apart_learn (h : e.Clear w learned) (hapart : e.Apart w) : e.Apart (e.learn w learned) := by
  intro r hr
  rw [reactions_learn h] at hr
  rcases mem_of_mem_toggle hr with hr | rfl
  · exact hapart r hr
  · cases learned with
    | own target emoji => exact nofun
    | other arrival header target emoji => exact fun hself ↦ h.2.1 (Option.some.inj hself)

/-- What an end shows toggles. -/
theorem shown_learn (h : e.Clear w learned) (hapart : e.Apart w) :
    e.shown (e.learn w learned) = toggle (e.what learned) (e.shown w) := by
  unfold shown
  rw [reactions_learn h]
  refine filterMap_toggle sees_reaction fun r hr hsees ↦ ?_
  unfold sees at hsees
  split_ifs at hsees with hconv
  have hauthor := hapart r hr
  obtain ⟨conv, author, target, emoji⟩ := r
  obtain rfl : conv = e.conv := hconv
  cases learned with
  | own target' emoji' =>
    cases author with
    | none =>
      cases hsees
      rfl
    | some sender =>
      cases hsees
      exact absurd rfl hauthor
  | other arrival header target' emoji' =>
    cases author with
    | none => exact absurd (Prod.mk.inj (Option.some.inj hsees)).1.symm h.2.1
    | some sender =>
      cases hsees
      rfl

/-- Two ends that learn of the same reactions in the same order, and show the same before, show the same
after. -/
theorem shown_perm {seen seen' : List Learned}
    (hsame : List.Forall₂ (fun l l' ↦ e.what l = e'.what l') seen seen')
    (hclear : Allowed e.learn e.Clear w seen) (hclear' : Allowed e'.learn e'.Clear v seen')
    (hapart : e.Apart w) (hapart' : e'.Apart v) (hshown : (e.shown w).Perm (e'.shown v)) :
    (e.shown (Data.run e.learn w seen)).Perm (e'.shown (Data.run e'.learn v seen')) := by
  induction hsame generalizing w v with
  | nil => exact hshown
  | @cons l l' seen seen' hwhat _ ih =>
    refine ih hclear.2 hclear'.2 (apart_learn hclear.1 hapart) (apart_learn hclear'.1 hapart') ?_
    rw [shown_learn hclear.1 hapart, shown_learn hclear'.1 hapart', hwhat]
    exact toggle_perm hshown

end End

end NemoMessenger.Client
