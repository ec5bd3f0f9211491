import Mathlib.Data.List.Basic
import Mathlib.Logic.Function.Basic

namespace Fifo

variable {κ α : Type*} [DecidableEq κ]

/-- What is done to a family of queues: an item is put into a queue, or taken from one, or looked for in vain. -/
inductive Op (κ α : Type*)
  | put (k : κ) (a : α)
  | take (k : κ) (a : α)
  | miss

/-- Items are put at the end of a queue and taken from its front. -/
inductive Step (waiting : κ → List α) : Op κ α → (κ → List α) → Prop
  | put (k : κ) (a : α) : Step waiting (.put k a) (Function.update waiting k (waiting k ++ [a]))
  | take {k : κ} {a : α} {rest : List α} (front : waiting k = a :: rest) :
      Step waiting (.take k a) (Function.update waiting k rest)
  | miss : Step waiting .miss waiting

def handedIn (k : κ) (ops : List (Op κ α)) : List α :=
  ops.filterMap fun op => match op with
    | .put k' a => if k' = k then some a else none
    | _ => none

def handedOut (k : κ) (ops : List (Op κ α)) : List α :=
  ops.filterMap fun op => match op with
    | .take k' a => if k' = k then some a else none
    | _ => none

/-- The queues `waiting` are what the history `ops` leaves of empty queues. -/
inductive Run : List (Op κ α) → (κ → List α) → Prop
  | start : Run [] fun _ => []
  | step {ops : List (Op κ α)} {waiting waiting' : κ → List α} {op : Op κ α} (before : Run ops waiting)
      (taken : Step waiting op waiting') : Run (ops ++ [op]) waiting'

/-- What was handed in was handed out in the same order, up to the items that wait. -/
theorem Run.handedIn_eq {ops : List (Op κ α)} {waiting : κ → List α} (run : Run ops waiting) (k : κ) :
    handedIn k ops = handedOut k ops ++ waiting k := by
  induction run with
  | start => rfl
  | @step ops waiting waiting' op _ taken ih =>
      rw [handedIn, List.filterMap_append, ← handedIn, handedOut, List.filterMap_append, ← handedOut, ih]
      cases taken with
      | put k' a =>
          by_cases same : k' = k
          · subst same
            simp
          · simp [same, Function.update_of_ne (Ne.symm same)]
      | @take k' a rest front =>
          by_cases same : k' = k
          · subst same
            simp [front]
          · simp [same, Function.update_of_ne (Ne.symm same)]
      | miss => simp

theorem Run.handedOut_initial {ops : List (Op κ α)} {waiting : κ → List α} (run : Run ops waiting) (k : κ) :
    handedOut k ops <+: handedIn k ops :=
  ⟨waiting k, (run.handedIn_eq k).symm⟩

end Fifo
