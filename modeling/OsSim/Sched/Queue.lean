import Mathlib.Data.List.Basic
import Mathlib.Logic.Function.Basic

namespace OsSim.Sched

def maxQueueSize : Nat := 10

/-- `proc` holds the numbers of processes and NULL; from index `maxQueueSize` on it stands for the memory
behind the array. The first word there is that of `size` and `slot`, which are kept apart here. -/
structure Queue where
  proc : Nat → Option Nat
  size : Nat
  slot : BitVec 32

def Queue.empty (q : Queue) : Bool := q.size = 0

/-- In a queue of `maxQueueSize` processes the store hits `size` and `slot` (see `enqueueFull`). -/
def enqueue (q : Queue) (proc : Nat) : Queue :=
  { q with proc := Function.update q.proc q.size (some proc), size := q.size + 1 }

/-- The first `n` rounds of the loop of `dequeue`. -/
def shiftDown : Nat → (Nat → Option Nat) → Nat → Option Nat
  | 0, proc => proc
  | n + 1, proc =>
      let proc := shiftDown n proc
      Function.update proc n (proc (n + 1))

def dequeue (q : Queue) : Option Nat × Queue :=
  if q.empty then (none, q)
  else
    (q.proc 0, { q with
      proc := Function.update (shiftDown (q.size - 1) q.proc) (q.size - 1) none
      size := q.size - 1 })

/-! ## The entries of a queue in their order -/

def Queue.entries (q : Queue) : List (Option Nat) := (List.range q.size).map q.proc

theorem Queue.empty_iff {q : Queue} : q.empty = true ↔ q.entries = [] := by
  simp [Queue.empty, Queue.entries]

theorem Queue.length_entries (q : Queue) : q.entries.length = q.size := by
  simp [Queue.entries]

theorem entries_enqueue (q : Queue) (proc : Nat) : (enqueue q proc).entries = q.entries ++ [some proc] := by
  have kept : (List.range q.size).map (Function.update q.proc q.size (some proc)) = q.entries := by
    apply List.map_congr_left
    intro i inside
    exact Function.update_of_ne (Nat.ne_of_lt (List.mem_range.mp inside)) _ _
  rw [Queue.entries, enqueue]
  dsimp only
  rw [List.range_succ, List.map_append, kept, List.map_singleton, Function.update_self]

theorem shiftDown_eq (n : Nat) (proc : Nat → Option Nat) (i : Nat) :
    shiftDown n proc i = if i < n then proc (i + 1) else proc i := by
  induction n generalizing i with
  | zero => rfl
  | succ n ih =>
      rw [shiftDown]
      rcases Nat.lt_trichotomy i n with less | rfl | more
      · rw [Function.update_of_ne (Nat.ne_of_lt less), ih, if_pos less, if_pos (by omega)]
      · rw [Function.update_self, ih, if_neg (by omega), if_pos (by omega)]
      · rw [Function.update_of_ne (Nat.ne_of_gt more), ih, if_neg (by omega), if_neg (by omega)]

theorem entries_dequeue {q : Queue} (nonempty : q.empty = false) :
    q.entries = (dequeue q).1 :: (dequeue q).2.entries := by
  obtain ⟨last, size⟩ : ∃ last, q.size = last + 1 := by
    cases size : q.size with
    | zero => simp [Queue.empty, size] at nonempty
    | succ last => exact ⟨last, rfl⟩
  have moved : (List.range last).map (Function.update (shiftDown last q.proc) last none) =
      (List.range last).map fun i => q.proc (i + 1) := by
    apply List.map_congr_left
    intro i inside
    have less := List.mem_range.mp inside
    rw [Function.update_of_ne (Nat.ne_of_lt less), shiftDown_eq, if_pos less]
  simp only [dequeue, nonempty, Queue.entries, size, Nat.add_sub_cancel, Bool.false_eq_true, if_false]
  rw [moved, List.range_succ_eq_map, List.map_cons, List.map_map]
  rfl

theorem dequeue_of_empty {q : Queue} (empty : q.empty = true) : dequeue q = (none, q) := if_pos empty

@[simp] theorem slot_enqueue (q : Queue) (proc : Nat) : (enqueue q proc).slot = q.slot := rfl

@[simp] theorem slot_dequeue (q : Queue) : (dequeue q).2.slot = q.slot := by
  rw [dequeue]
  split <;> rfl

end OsSim.Sched
