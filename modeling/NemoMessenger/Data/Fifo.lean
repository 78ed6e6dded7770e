import Mathlib.Data.List.Basic

/-!
# First in, first out

A queue that is filled at its end, emptied from its front and sometimes cleared. What was put in
since it was last cleared is what was taken since, in this order, and then what it still holds.
-/

namespace NemoMessenger.Data

/-- What can be done to a queue. -/
inductive FifoMove (α : Type)
  | put (item : α)
  | take (item : α)
  | clear

/-- What was put into a queue and what was taken since it was last cleared. -/
structure FifoTally (α : Type) where
  puts : List α
  takes : List α

/-- The tally after one more move. -/
def FifoTally.step {α : Type} (tally : FifoTally α) : FifoMove α → FifoTally α
  | .put item => { tally with puts := tally.puts ++ [item] }
  | .take item => { tally with takes := tally.takes ++ [item] }
  | .clear => ⟨[], []⟩

/-- The tally of a sequence of moves. -/
def FifoTally.of {α : Type} (moves : List (FifoMove α)) : FifoTally α :=
  moves.foldl FifoTally.step ⟨[], []⟩

/-- What moves leave in a queue that was empty at first. -/
inductive Fifo {α : Type} : List (FifoMove α) → List α → Prop
  | empty : Fifo [] []
  | put {moves : List (FifoMove α)} {queue : List α} (h : Fifo moves queue) (item : α) :
    Fifo (moves ++ [.put item]) (queue ++ [item])
  | take {moves : List (FifoMove α)} {queue : List α} (item : α) (h : Fifo moves (item :: queue)) :
    Fifo (moves ++ [.take item]) queue
  | clear {moves : List (FifoMove α)} {queue : List α} (h : Fifo moves queue) :
    Fifo (moves ++ [.clear]) []

section Fifo

variable {α : Type} {moves : List (FifoMove α)} {queue : List α}

@[simp] theorem FifoTally.of_push (moves : List (FifoMove α)) (move : FifoMove α) :
    FifoTally.of (moves ++ [move]) = (FifoTally.of moves).step move := by
  rw [FifoTally.of, List.foldl_append]
  rfl

/-- Nothing is lost or doubled, and nothing overtakes. -/
theorem Fifo.puts_eq (h : Fifo moves queue) :
    (FifoTally.of moves).puts = (FifoTally.of moves).takes ++ queue := by
  induction h with
  | empty => rfl
  | put _ item ih => rw [FifoTally.of_push, FifoTally.step, ih, List.append_assoc]
  | take item _ ih =>
    rw [FifoTally.of_push, FifoTally.step, ih]
    exact List.append_cons _ item _
  | clear => rw [FifoTally.of_push, FifoTally.step, List.append_nil]

end Fifo

end NemoMessenger.Data
