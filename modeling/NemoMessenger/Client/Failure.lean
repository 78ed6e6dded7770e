import NemoMessenger.Client.Method
import NemoMessenger.Client.Reference

/-!
# Actions whose send fails

A reaction and a timer change the conversation of the client and are sent to the other side. The
change is made first; what a failed send leaves of it is compared here with the state before.
-/

namespace NemoMessenger.Client

open NemoMessenger.Data NemoMessenger.Wire
open Program (run run_bind)

/-- The methods that change a conversation and tell the other side. -/
inductive SharedAction
  | react (convId : String) (target : UInt64) (emoji : String)
  | setDisappear (convId : String) (seconds : UInt64)

namespace SharedAction

/-- The method. -/
def program (p : Outside) : SharedAction → ClientM DisplayRow
  | react convId target emoji => Client.react p convId target emoji
  | setDisappear convId seconds => Client.setDisappear p convId seconds

/-- The conversation. -/
def conv : SharedAction → String
  | react convId _ _ => convId
  | setDisappear convId _ => convId

/-- What is sent. -/
def body : SharedAction → AppBody
  | react _ target emoji => .reaction target emoji
  | setDisappear _ seconds => .disappear seconds

/-- The number it is sent under, and the shell by then. -/
def start (shell : Shell) : SharedAction → UInt64 × Shell
  | react convId target emoji => (shell.takeMatchingReaction convId target emoji true "").2.bumpSeq convId
  | setDisappear convId seconds =>
    { shell with disappear := shell.disappear.insert convId seconds }.bumpSeq convId

/-- The time it carries. -/
def sentAt (env : Environment) (w : World) : SharedAction → UInt64
  | react .. => env.unix w.tick
  | setDisappear .. => env.unix (w.tick + 1)

/-- The world in which the send begins. -/
def sending (action : SharedAction) (w : World) : World :=
  { w with
    inner := { w.inner with shell := (action.start w.inner.shell).2 }
    tick := w.tick + match action with
      | react .. => 5
      | setDisappear .. => 4 }

/-- The send. -/
def send (p : Outside) (env : Environment) (action : SharedAction) (w : World) : SessionM Unit :=
  transmitApp p action.conv action.body (action.sentAt env w) (action.start w.inner.shell).1

/-- The change is none: the client has not reacted so before, or the timer is set so already. -/
def Idle (shell : Shell) : SharedAction → Prop
  | react convId target emoji =>
    shell.inbox.any (Shell.matchesReaction convId target emoji true "") = false
  | setDisappear convId seconds => shell.disappear.lookup convId = some seconds

end SharedAction

/-- Rows and timers are as before, and so is the vault. -/
structure World.Unaltered (w w' : World) : Prop where
  inbox : w'.inner.shell.inbox = w.inner.shell.inbox
  disappear : ∀ conv, w'.inner.shell.disappear.lookup conv = w.inner.shell.disappear.lookup conv
  vault : w'.vault = w.vault

variable {p : Outside} {env : Environment} {w w' : World} {action : SharedAction} {e : CoreError}

/-- A method that saves at its end fails with its body. -/
theorem run_saving_of_error {α : Type} {q : SessionM α}
    (h : run (inside p env) q w = (.error e, w')) :
    run (device p env) (saving q) w = (.error e, w') := by
  unfold saving
  exact Program.run_bind_of_error ((run_inside q w).trans h)

/-- When the send fails, the method fails and leaves the world the send has left. -/
theorem run_of_failed (h : run (inside p env) (action.send p env w) (action.sending w) =
    (.error e, w')) : run (device p env) (action.program p) w = (.error e, w') := by
  cases action with
  | react convId target emoji =>
    refine run_saving_of_error ?_
    rw [run_nowUnix_bind, run_withShell_bind, run_withShell_bind]
    exact Program.run_bind_of_error h
  | setDisappear convId seconds =>
    refine run_saving_of_error ?_
    rw [run_onShell_bind, run_nowUnix_bind, run_withShell_bind]
    exact Program.run_bind_of_error h

/-- A send changes nothing that is shown, and saves nothing. -/
theorem kept_by_send (h : run (inside p env) (action.send p env w) (action.sending w) =
    (.error e, w')) :
    w'.inner.shell = (action.start w.inner.shell).2 ∧ w'.vault = w.vault := by
  have hsilent : Silent (action.send p env w) := silent_transmitApp _ _ _ _
  have hshell := @shell_run p env _ _ hsilent (action.sending w)
  have hvault := @vault_run_inside p env _ (action.send p env w) (action.sending w)
  rw [run_inside] at hvault
  rw [h] at hshell hvault
  exact ⟨hshell, hvault⟩

/-- A failed send leaves the conversation as it was exactly when there was nothing to change. -/
theorem failed_unaltered_iff
    (h : run (inside p env) (action.send p env w) (action.sending w) = (.error e, w')) :
    run (device p env) (action.program p) w = (.error e, w') ∧
      (w.Unaltered w' ↔ action.Idle w.inner.shell) := by
  refine ⟨run_of_failed h, ?_⟩
  obtain ⟨hshell, hvault⟩ := kept_by_send h
  cases action with
  | react convId target emoji =>
    have hinbox : w'.inner.shell.inbox = w.inner.shell.inbox.eraseP
        (Shell.matchesReaction convId target emoji true "") := congrArg Shell.inbox hshell
    have hdisappear : w'.inner.shell.disappear = w.inner.shell.disappear :=
      (congrArg Shell.disappear hshell).trans rfl
    constructor
    · intro hsame
      have hlength := congrArg List.length (hinbox.symm.trans hsame.inbox)
      refine Bool.eq_false_iff.mpr fun hany ↦ ?_
      obtain ⟨row, hrow, hmatch⟩ := List.any_eq_true.mp hany
      rw [List.length_eraseP_of_mem hrow hmatch] at hlength
      have hpos := List.length_pos_of_mem hrow
      omega
    · intro hidle
      refine ⟨?_, fun conv ↦ by rw [hdisappear], hvault⟩
      rw [hinbox, List.eraseP_of_forall_not (List.any_eq_false.mp hidle)]
  | setDisappear convId seconds =>
    have hinbox : w'.inner.shell.inbox = w.inner.shell.inbox :=
      (congrArg Shell.inbox hshell).trans rfl
    have hdisappear : w'.inner.shell.disappear = w.inner.shell.disappear.insert convId seconds :=
      congrArg Shell.disappear hshell
    constructor
    · intro hsame
      have hconv := hsame.disappear convId
      rw [hdisappear, AList.lookup_insert] at hconv
      exact hconv.symm
    · intro hidle
      refine ⟨hinbox, fun conv ↦ ?_, hvault⟩
      rw [hdisappear, FiniteMap.lookup_insert_ite]
      split_ifs with hconv
      · rw [hconv]
        exact hidle.symm
      · rfl

/-- A reaction of the client to a message of someone it does not know. -/
def DisplayRow.liked : DisplayRow :=
  { Shell.blankRow (toHex (FixedBytes.replicate 32 9).data) 1 0 true with
    kind := .reaction, emoji := "+", target := 1 }

/-- It reacts so again. -/
def SharedAction.liked : SharedAction := .react (toHex (FixedBytes.replicate 32 9).data) 1 "+"

theorem SharedAction.liked_fails (rows : List DisplayRow) :
    run (inside .transparent .silent) (SharedAction.liked.send .transparent .silent (.showing rows))
        (SharedAction.liked.sending (.showing rows)) =
      (.error .unknownContact, (run (inside .transparent .silent)
        (SharedAction.liked.send .transparent .silent (.showing rows))
        (SharedAction.liked.sending (.showing rows))).2) :=
  Prod.ext rfl rfl

/-- The message that is reacted to, and reactions to it: one of the client with another sign, and one of
the other side with the same. -/
def likedRows : List DisplayRow :=
  [Shell.blankRow (toHex (FixedBytes.replicate 32 9).data) 1 0 false,
    { DisplayRow.liked with convSeq := 2, emoji := "-" },
    { DisplayRow.liked with convSeq := 3, outgoing := false }]

/-- The send of a reaction that is new fails, and the conversation is as it was. -/
theorem failed_unaltered_iff_around :
    ∃ w', run (device .transparent .silent) (SharedAction.liked.program .transparent)
        (.showing likedRows) = (.error .unknownContact, w') ∧
      (World.showing likedRows).Unaltered w' := by
  have hiff := failed_unaltered_iff (SharedAction.liked_fails likedRows)
  exact ⟨_, hiff.1, hiff.2.mpr rfl⟩

/-- The send of a reaction that takes one back fails, and it is gone. -/
theorem failed_send_takes_back :
    ∃ w', run (device .transparent .silent) (SharedAction.liked.program .transparent)
        (.showing [.liked]) = (.error .unknownContact, w') ∧
      ¬(World.showing [.liked]).Unaltered w' := by
  have hfails := SharedAction.liked_fails [.liked]
  refine ⟨_, run_of_failed hfails, fun h ↦ ?_⟩
  have hinbox := h.inbox
  rw [(kept_by_send hfails).1] at hinbox
  revert hinbox
  decide +kernel

end NemoMessenger.Client
