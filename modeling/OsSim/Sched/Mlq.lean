import Mathlib.Logic.Relation
import OsSim.Sched.Queue

namespace OsSim.Sched

def maxPrio : Nat := 140

/-- `mlq_ready_queue`. The other two queues, `ready_queue` and `run_queue`, stay empty. -/
abbrev Mlq := Nat → Queue

def resetSlot (mlq : Mlq) : Mlq := fun i =>
  if i < maxPrio then { mlq i with slot := BitVec.ofNat 32 (maxPrio - i) } else mlq i

/-- `block` is what the memory of the queues holds before. -/
def initScheduler (block : Mlq) : Mlq := fun i =>
  if i < maxPrio then { block i with size := 0, slot := BitVec.ofNat 32 (maxPrio - i) } else block i

def putMlqProc (mlq : Mlq) (proc prio : Nat) : Mlq :=
  Function.update mlq prio (enqueue (mlq prio) proc)

def addMlqProc (mlq : Mlq) (proc prio : Nat) : Mlq :=
  Function.update mlq prio (enqueue (mlq prio) proc)

/-- Where a call of `getMlqProc` is: in the loop of `queue_empty`, or in its own loop before the first section of
a round, before the test of the slot, before the section that dequeues, or before the one that resets the
slots. -/
inductive GetLoc
  | queueEmpty (prio : Nat)
  | scan (prioSelect : Nat)
  | testSlot (prioSelect : Nat)
  | take (prioSelect : Nat)
  | resetSlots
deriving DecidableEq

inductive GetResult
  | next (loc : GetLoc)
  | got (proc : Option Nat)
deriving DecidableEq

/-- One step of `getMlqProc`: a section under `queue_lock`, or the reading of one queue without it. -/
def getMlqProc (mlq : Mlq) : GetLoc → Mlq × GetResult
  | .queueEmpty prio =>
      if !(mlq prio).empty then (mlq, .next (.scan 0))
      else if prio + 1 < maxPrio then (mlq, .next (.queueEmpty (prio + 1)))
      else (mlq, .got none)
  | .scan prioSelect =>
      if (mlq prioSelect).empty then
        let mlq := if prioSelect = maxPrio - 1 then resetSlot mlq else mlq
        (mlq, if prioSelect + 1 < maxPrio then .next (.scan (prioSelect + 1)) else .got none)
      else (mlq, .next (.testSlot prioSelect))
  | .testSlot prioSelect =>
      if (mlq prioSelect).slot > 0 then (mlq, .next (.take prioSelect))
      else if prioSelect = maxPrio - 1 then (mlq, .next .resetSlots)
      else (mlq, .next (.scan (prioSelect + 1)))
  | .take prioSelect =>
      let (proc, q) := dequeue (mlq prioSelect)
      (Function.update mlq prioSelect { q with slot := q.slot - 1 }, .got proc)
  | .resetSlots => (resetSlot mlq, .next (.scan 1))

/-! ## What a step of `getMlqProc` does -/

@[simp] theorem entries_resetSlot (mlq : Mlq) (i : Nat) : (resetSlot mlq i).entries = (mlq i).entries := by
  rw [resetSlot]
  split <;> rfl

@[simp] theorem empty_resetSlot (mlq : Mlq) (i : Nat) : (resetSlot mlq i).empty = (mlq i).empty := by
  rw [resetSlot]
  split <;> rfl

theorem slot_resetSlot (mlq : Mlq) {i : Nat} (inside : i < maxPrio) :
    (resetSlot mlq i).slot = BitVec.ofNat 32 (maxPrio - i) := by
  rw [resetSlot, if_pos inside]

theorem slot_take (mlq : Mlq) (i : Nat) :
    ((getMlqProc mlq (.take i)).1 i).slot = (mlq i).slot - 1 := by
  rw [getMlqProc]
  dsimp only
  rw [Function.update_self, slot_dequeue]

theorem slot_take_of_ne (mlq : Mlq) {i j : Nat} (other : j ≠ i) :
    (getMlqProc mlq (.take i)).1 j = mlq j := by
  rw [getMlqProc]
  dsimp only
  rw [Function.update_of_ne other]

def GetLoc.prio : GetLoc → Option Nat
  | .queueEmpty prio | .scan prio | .testSlot prio | .take prio => some prio
  | .resetSlots => none

def GetLoc.Inside (loc : GetLoc) : Prop := ∀ i, loc.prio = some i → i < maxPrio

/-- No process waits in the queue, or its slots are used up. -/
def Queue.Spent (q : Queue) : Prop := q.empty = true ∨ q.slot = 0

instance (q : Queue) : Decidable q.Spent := inferInstanceAs (Decidable (_ ∨ _))

/-- A step that goes on and leaves the queues alone. -/
def Looks (mlq : Mlq) (loc loc' : GetLoc) : Prop :=
  loc ≠ .resetSlots ∧ getMlqProc mlq loc = (mlq, .next loc')

/-- A call goes on without touching the queues, resets the slots and starts again, dequeues, or ends without a
process at the last queue. -/
theorem getMlqProc_cases (mlq : Mlq) {loc : GetLoc} (inside : loc.Inside) :
    (∃ loc', Looks mlq loc loc') ∨
      (loc = .resetSlots ∧ getMlqProc mlq loc = (resetSlot mlq, .next (.scan 1))) ∨
      (∃ i, loc = .take i) ∨
      (loc = .queueEmpty (maxPrio - 1) ∧ (mlq (maxPrio - 1)).empty = true ∧
        getMlqProc mlq loc = (mlq, .got none)) ∨
      (loc = .scan (maxPrio - 1) ∧ (mlq (maxPrio - 1)).empty = true ∧
        getMlqProc mlq loc = (resetSlot mlq, .got none)) := by
  have last : ∀ prio, prio < maxPrio → ¬ prio + 1 < maxPrio → prio = maxPrio - 1 := by
    intro prio within beyond
    omega
  simp only [Looks]
  cases loc with
  | queueEmpty prio =>
      rw [getMlqProc]
      split
      · exact .inl ⟨_, nofun, rfl⟩
      · next empty =>
        split
        · exact .inl ⟨_, nofun, rfl⟩
        · next beyond =>
          obtain rfl := last prio (inside prio rfl) beyond
          exact .inr (.inr (.inr (.inl ⟨rfl, by simpa using empty, rfl⟩)))
  | scan prioSelect =>
      rw [getMlqProc]
      split
      · next empty =>
        by_cases more : prioSelect + 1 < maxPrio
        · have notLast : ¬ prioSelect = maxPrio - 1 := by omega
          rw [if_pos more, if_neg notLast]
          exact .inl ⟨_, nofun, rfl⟩
        · obtain rfl := last prioSelect (inside prioSelect rfl) more
          rw [if_neg more, if_pos rfl]
          exact .inr (.inr (.inr (.inr ⟨rfl, empty, rfl⟩)))
      · exact .inl ⟨_, nofun, rfl⟩
  | testSlot prioSelect =>
      rw [getMlqProc]
      split
      · exact .inl ⟨_, nofun, rfl⟩
      · split
        · exact .inl ⟨_, nofun, rfl⟩
        · exact .inl ⟨_, nofun, rfl⟩
  | take prioSelect => exact .inr (.inr (.inl ⟨prioSelect, rfl⟩))
  | resetSlots => exact .inr (.inl ⟨rfl, rfl⟩)

/-- Other than by dequeuing, a step changes at most the slots and returns no process. -/
theorem getMlqProc_quiet (mlq : Mlq) {loc : GetLoc} (inside : loc.Inside) (other : ∀ i, loc ≠ .take i) :
    ((getMlqProc mlq loc).1 = mlq ∨ (getMlqProc mlq loc).1 = resetSlot mlq) ∧
      ((∃ loc', (getMlqProc mlq loc).2 = .next loc') ∨ (getMlqProc mlq loc).2 = .got none) := by
  rcases getMlqProc_cases mlq inside with
    ⟨loc', _, step⟩ | ⟨_, step⟩ | ⟨i, take⟩ | ⟨_, _, step⟩ | ⟨_, _, step⟩
  · rw [step]
    exact ⟨.inl rfl, .inl ⟨loc', rfl⟩⟩
  · rw [step]
    exact ⟨.inr rfl, .inl ⟨_, rfl⟩⟩
  · exact absurd take (other i)
  · rw [step]
    exact ⟨.inl rfl, .inr rfl⟩
  · rw [step]
    exact ⟨.inr rfl, .inr rfl⟩

theorem GetLoc.inside_start : (GetLoc.queueEmpty 0).Inside := by
  rintro i ⟨⟩
  decide

theorem GetLoc.Inside.step {mlq : Mlq} {loc loc' : GetLoc} (inside : loc.Inside)
    (next : (getMlqProc mlq loc).2 = .next loc') : loc'.Inside := by
  have zero : (0 : Nat) < maxPrio := by decide
  have one : (1 : Nat) < maxPrio := by decide
  cases loc with
  | queueEmpty prio =>
      rw [getMlqProc] at next
      split at next
      · cases next
        rintro i ⟨⟩
        exact zero
      · split at next <;> cases next
        rintro i ⟨⟩
        assumption
  | scan prioSelect =>
      rw [getMlqProc] at next
      split at next
      · dsimp only at next
        split at next <;> cases next
        rintro i ⟨⟩
        assumption
      · cases next
        rintro i ⟨⟩
        exact inside prioSelect rfl
  | testSlot prioSelect =>
      have within := inside prioSelect rfl
      rw [getMlqProc] at next
      split at next
      · cases next
        rintro i ⟨⟩
        exact within
      · split at next
        · cases next
          exact nofun
        · next notLast =>
          cases next
          rintro i ⟨⟩
          simp only [maxPrio] at within notLast ⊢
          omega
  | take prioSelect => cases next
  | resetSlots =>
      cases next
      rintro i ⟨⟩
      exact one

/-! ## Looking for a queue -/

section Looks

variable {mlq : Mlq} {k : Nat}

theorem not_looks_last {loc : GetLoc} (empty : (mlq (maxPrio - 1)).empty = true) :
    ¬ Looks mlq (.scan (maxPrio - 1)) loc := by
  rintro ⟨_, step⟩
  have last : ¬ maxPrio - 1 + 1 < maxPrio := by decide
  rw [getMlqProc, if_pos empty, if_neg last] at step
  exact absurd (congrArg Prod.snd step) nofun

theorem looks_queueEmpty (inside : k < maxPrio) (before : ∀ i < k, (mlq i).empty = true) :
    Relation.ReflTransGen (Looks mlq) (.queueEmpty 0) (.queueEmpty k) := by
  induction k with
  | zero => exact .refl
  | succ k ih =>
      refine .tail (ih (by omega) fun i less => before i (by omega)) ?_
      simp [Looks, getMlqProc, before k (by omega), inside]

theorem looks_scan {first : Nat} (after : first ≤ k) (inside : k < maxPrio)
    (passed : ∀ i, first ≤ i → i < k → (mlq i).Spent) :
    Relation.ReflTransGen (Looks mlq) (.scan first) (.scan k) := by
  induction after with
  | refl => exact .refl
  | @step k after ih =>
      have before := ih (by omega) fun i lower upper => passed i lower (by omega)
      have notLast : k ≠ maxPrio - 1 := by
        simp only [maxPrio] at inside ⊢
        omega
      cases empty : (mlq k).empty with
      | true =>
          refine before.tail ?_
          simp [Looks, getMlqProc, empty, inside, notLast]
      | false =>
          have used : (mlq k).slot = 0 := (passed k after (by omega)).resolve_left (by simp [empty])
          have tests : Looks mlq (.scan k) (.testSlot k) := by simp [Looks, getMlqProc, empty]
          have passes : Looks mlq (.testSlot k) (.scan (k + 1)) := by simp [Looks, getMlqProc, used, notLast]
          exact (before.tail tests).tail passes

theorem finds_queue (inside : k < maxPrio) (before : ∀ i < k, (mlq i).empty = true)
    (nonempty : (mlq k).empty = false) :
    Relation.ReflTransGen (Looks mlq) (.queueEmpty 0) (.testSlot k) := by
  have found : Looks mlq (.queueEmpty k) (.scan 0) := by simp [Looks, getMlqProc, nonempty]
  have tests : Looks mlq (.scan k) (.testSlot k) := by simp [Looks, getMlqProc, nonempty]
  have scans := looks_scan (Nat.zero_le k) inside fun i _ less => .inl (before i less)
  exact (((looks_queueEmpty inside before).tail found).trans scans).tail tests

end Looks

end OsSim.Sched
