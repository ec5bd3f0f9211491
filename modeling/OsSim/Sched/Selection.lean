import Mathlib.Data.Nat.Find
import OsSim.Sched.Fifo

namespace OsSim.Sched
open Transition

/-! ## The queue that a call of `get_proc` selects -/

/-- The first queue that is not spent. Without one the slots are reset, and the call goes on behind the queue 0
if the last queue has a process, and returns NULL if it has none. -/
inductive Selects (mlq : Mlq) : Option Nat → Mlq → Prop
  | idle (empty : ∀ i < maxPrio, (mlq i).empty = true) : Selects mlq none mlq
  | first {k : Nat} (inside : k < maxPrio) (ready : ¬ (mlq k).Spent) (before : ∀ i < k, (mlq i).Spent) :
      Selects mlq (dequeue (mlq k)).1 (getMlqProc mlq (.take k)).1
  | refill (spent : ∀ i < maxPrio, (mlq i).Spent) (waits : ∃ i < maxPrio, (mlq i).empty = false)
      (last : (mlq (maxPrio - 1)).empty = true) : Selects mlq none (resetSlot mlq)
  | again {k : Nat} (spent : ∀ i < maxPrio, (mlq i).Spent) (last : (mlq (maxPrio - 1)).empty = false)
      (inside : k < maxPrio) (behind : 0 < k) (waits : (mlq k).empty = false)
      (before : ∀ i, 0 < i → i < k → (mlq i).empty = true) :
      Selects mlq (dequeue (resetSlot mlq k)).1 (getMlqProc (resetSlot mlq) (.take k)).1

section Selects

variable {mlq mlq' : Mlq} {loc loc' : GetLoc} {fuel : Nat} {result : Option Nat × Mlq}

theorem callFrom_next (step : getMlqProc mlq loc = (mlq', .next loc'))
    (call : callFrom fuel mlq loc = some result) : ∃ fuel', callFrom fuel' mlq' loc' = some result := by
  cases fuel with
  | zero => cases call
  | succ fuel =>
      simp only [callFrom, step] at call
      exact ⟨fuel, call⟩

theorem callFrom_got {proc : Option Nat} (step : getMlqProc mlq loc = (mlq', .got proc))
    (call : callFrom fuel mlq loc = some result) : result = (proc, mlq') := by
  cases fuel with
  | zero => cases call
  | succ fuel =>
      simp only [callFrom, step, Option.some.injEq] at call
      exact call.symm

theorem callFrom_looks (looks : Relation.ReflTransGen (Looks mlq) loc loc')
    (call : callFrom fuel mlq loc = some result) : ∃ fuel', callFrom fuel' mlq loc' = some result := by
  induction looks with
  | refl => exact ⟨fuel, call⟩
  | tail _ step ih =>
      obtain ⟨fuel', call'⟩ := ih
      exact callFrom_next step.2 call'

theorem Queue.not_spent {q : Queue} : ¬ q.Spent ↔ q.empty = false ∧ q.slot ≠ 0 := by
  simp [Queue.Spent]

theorem callFrom_ready {k : Nat} (ready : ¬ (mlq k).Spent) (call : callFrom fuel mlq (.scan k) = some result) :
    result = ((dequeue (mlq k)).1, (getMlqProc mlq (.take k)).1) := by
  obtain ⟨nonempty, slot⟩ := Queue.not_spent.mp ready
  have left : (mlq k).slot > 0 := by bv_omega
  have tests : Looks mlq (.scan k) (.testSlot k) := by simp [Looks, getMlqProc, nonempty]
  have passes : Looks mlq (.testSlot k) (.take k) :=
    ⟨by simp, by rw [getMlqProc, if_pos left]⟩
  obtain ⟨_, call'⟩ := callFrom_looks ((Relation.ReflTransGen.single tests).tail passes) call
  exact callFrom_got rfl call'

theorem resetSlot_ready {k : Nat} (inside : k < maxPrio) (nonempty : (mlq k).empty = false) :
    ¬ (resetSlot mlq k).Spent := by
  rw [Queue.not_spent, empty_resetSlot, slot_resetSlot mlq inside]
  refine ⟨nonempty, ?_⟩
  simp only [maxPrio] at inside ⊢
  bv_omega

theorem first_of_exists {p : Nat → Prop} [DecidablePred p] (found : ∃ i, p i) : ∃ k, p k ∧ ∀ i < k, ¬ p i :=
  ⟨Nat.find found, Nat.find_spec found, fun _ less => Nat.find_min found less⟩

/-- After the reset the queue 0 is not looked at. -/
theorem callFrom_reset (spent : ∀ i < maxPrio, (mlq i).Spent) (last : (mlq (maxPrio - 1)).empty = false)
    (call : callFrom fuel mlq .resetSlots = some result) : Selects mlq result.1 result.2 := by
  obtain ⟨k, ⟨behind, inside, nonempty⟩, before⟩ :=
    first_of_exists (p := fun i => 0 < i ∧ i < maxPrio ∧ (mlq i).empty = false)
      ⟨maxPrio - 1, by decide, by decide, last⟩
  have passed : ∀ i, 0 < i → i < k → (mlq i).empty = true := by
    intro i positive less
    by_contra waits
    exact before i less ⟨positive, Nat.lt_trans less inside, eq_false_of_ne_true waits⟩
  have resets : getMlqProc mlq .resetSlots = (resetSlot mlq, .next (.scan 1)) := rfl
  obtain ⟨_, call⟩ := callFrom_next resets call
  obtain ⟨_, call⟩ := callFrom_looks (looks_scan behind inside fun i lower less =>
    .inl (by rw [empty_resetSlot]; exact passed i lower less)) call
  rw [callFrom_ready (resetSlot_ready inside nonempty) call]
  exact .again spent last inside behind nonempty passed

theorem callFrom_scan (waits : ∃ i < maxPrio, (mlq i).empty = false)
    (call : callFrom fuel mlq (.scan 0) = some result) : Selects mlq result.1 result.2 := by
  by_cases spent : ∀ i < maxPrio, (mlq i).Spent
  · have below : ∀ i, 0 ≤ i → i < maxPrio - 1 → (mlq i).Spent :=
      fun i _ less => spent i (Nat.lt_of_lt_pred less)
    obtain ⟨_, call⟩ := callFrom_looks (looks_scan (Nat.zero_le _) (by decide) below) call
    cases last : (mlq (maxPrio - 1)).empty with
    | true =>
        have ends : getMlqProc mlq (.scan (maxPrio - 1)) = (resetSlot mlq, .got none) := by
          rw [getMlqProc, if_pos last, if_pos rfl, if_neg (by decide)]
        rw [callFrom_got ends call]
        exact .refill spent waits last
    | false =>
        have used := (spent (maxPrio - 1) (by decide)).resolve_left (by simp [last])
        have tests : Looks mlq (.scan (maxPrio - 1)) (.testSlot (maxPrio - 1)) := by
          simp [Looks, getMlqProc, last]
        have resets : Looks mlq (.testSlot (maxPrio - 1)) .resetSlots := by simp [Looks, getMlqProc, used]
        obtain ⟨_, call⟩ := callFrom_looks ((Relation.ReflTransGen.single tests).tail resets) call
        exact callFrom_reset spent last call
  · obtain ⟨k, ⟨inside, ready⟩, before⟩ :=
      first_of_exists (p := fun i => i < maxPrio ∧ ¬ (mlq i).Spent) (by simpa using spent)
    have passed : ∀ i < k, (mlq i).Spent := by
      intro i less
      by_contra here
      exact before i less ⟨Nat.lt_trans less inside, here⟩
    obtain ⟨_, call⟩ := callFrom_looks (looks_scan (Nat.zero_le k) inside fun i _ less => passed i less) call
    rw [callFrom_ready ready call]
    exact .first inside ready passed

theorem getProc_selects (mlq : Mlq) :
    ∃ proc after, getProc mlq = some (proc, after) ∧ Selects mlq proc after := by
  obtain ⟨proc, after, call, _⟩ := getProc_gives mlq
  refine ⟨proc, after, call, ?_⟩
  rw [getProc] at call
  by_cases idle : ∀ i < maxPrio, (mlq i).empty = true
  · have below : ∀ i < maxPrio - 1, (mlq i).empty = true := fun i less => idle i (Nat.lt_of_lt_pred less)
    obtain ⟨_, call⟩ := callFrom_looks (looks_queueEmpty (by decide) below) call
    have ends : getMlqProc mlq (.queueEmpty (maxPrio - 1)) = (mlq, .got none) := by
      rw [getMlqProc, idle (maxPrio - 1) (by decide), if_neg (by decide), if_neg (by decide)]
    cases callFrom_got ends call
    exact .idle idle
  · have waits : ∃ i, i < maxPrio ∧ (mlq i).empty = false := by simpa using idle
    obtain ⟨k, ⟨inside, nonempty⟩, before⟩ := first_of_exists waits
    have passed : ∀ i < k, (mlq i).empty = true := by
      intro i less
      by_contra here
      exact before i less ⟨Nat.lt_trans less inside, eq_false_of_ne_true here⟩
    have found : Looks mlq (.queueEmpty k) (.scan 0) := by simp [Looks, getMlqProc, nonempty]
    obtain ⟨_, call⟩ := callFrom_looks ((looks_queueEmpty inside passed).tail found) call
    exact callFrom_scan waits call

end Selects

section Served

variable {prio : Nat → Nat} {s : Served}

theorem Mlq.Represents.reset {mlq : Mlq} {waiting : Nat → List Nat} (represents : mlq.Represents prio waiting) :
    Mlq.Represents prio (resetSlot mlq) waiting := by
  intro i inside
  rw [entries_resetSlot]
  exact represents i inside

theorem Mlq.Represents.front {mlq : Mlq} {waiting : Nat → List Nat} (represents : mlq.Represents prio waiting)
    {k : Nat} (inside : k < maxPrio) (nonempty : (mlq k).empty = false) :
    ∃ p, (dequeue (mlq k)).1 = some p ∧ prio p = k := by
  obtain ⟨entries, prios⟩ := represents k inside
  rw [entries_dequeue nonempty] at entries
  obtain ⟨p, rest, list, same, _⟩ := List.map_eq_cons_iff.mp entries.symm
  exact ⟨p, same.symm, prios p (by simp [list])⟩

/-! ### When a call returns NULL -/

/-- The next call of `get_proc` returns NULL if and only if no process waits. -/
def Served.NullWhenIdle (s : Served) : Prop :=
  ∃ proc after, getProc s.mlq = some (proc, after) ∧
    (proc = none ↔ ∀ i < maxPrio, (s.mlq i).empty = true)

/-- The reset is too late for the queues before the last one, if this is empty: then the call ends. -/
theorem reachable_nullWhenIdle_iff (reachable : Reach (Served.Step prio) (Served.HasRoom prio) Served.Start s) :
    s.NullWhenIdle ↔ (∀ i < maxPrio, (s.mlq i).empty = true) ∨ (∃ i < maxPrio, ¬ (s.mlq i).Spent) ∨
      (s.mlq (maxPrio - 1)).empty = false := by
  obtain ⟨waiting, _, represents⟩ := reachable_refines reachable
  obtain ⟨proc, after, call, selects⟩ := getProc_selects s.mlq
  have here : s.NullWhenIdle ↔ (proc = none ↔ ∀ i < maxPrio, (s.mlq i).empty = true) := by
    simp [Served.NullWhenIdle, call]
  rw [here]
  cases selects with
  | idle empty => exact ⟨fun _ => .inl empty, fun _ => ⟨fun _ => empty, fun _ => rfl⟩⟩
  | @first k inside ready before =>
      obtain ⟨nonempty, _⟩ := Queue.not_spent.mp ready
      obtain ⟨p, front, _⟩ := represents.front inside nonempty
      refine ⟨fun _ => .inr (.inl ⟨k, inside, ready⟩), fun _ => ?_⟩
      rw [front]
      refine ⟨nofun, fun empty => ?_⟩
      rw [empty k inside] at nonempty
      cases nonempty
  | refill spent waits last =>
      obtain ⟨i, inside, nonempty⟩ := waits
      refine ⟨fun null => ?_, ?_⟩
      · rw [null.mp rfl i inside] at nonempty
        cases nonempty
      · rintro (empty | ⟨k, inside', ready⟩ | last')
        · rw [empty i inside] at nonempty
          cases nonempty
        · exact absurd (spent k inside') ready
        · rw [last] at last'
          cases last'
  | @again k spent last inside behind waits before =>
      obtain ⟨p, front, _⟩ := represents.reset.front inside (by rw [empty_resetSlot]; exact waits)
      refine ⟨fun _ => .inr (.inr last), fun _ => ?_⟩
      rw [front]
      refine ⟨nofun, fun empty => ?_⟩
      rw [empty k inside] at waits
      cases waits

/-! ### Priorities -/

/-- When the next call of `get_proc` returns a process, the queues of higher priority are spent. A call changes no
queue after the process is dequeued, and dequeuing changes no other queue. -/
def Served.PriorityKept (prio : Nat → Nat) (s : Served) : Prop :=
  ∃ proc after, getProc s.mlq = some (proc, after) ∧
    ∀ p, proc = some p → ∀ q < prio p, (after q).Spent

/-- A reset at the last queue lets the call go on at the queue 1. -/
theorem reachable_priorityKept_iff (reachable : Reach (Served.Step prio) (Served.HasRoom prio) Served.Start s) :
    s.PriorityKept prio ↔ (s.mlq 0).empty = true ∨ (s.mlq (maxPrio - 1)).empty = true ∨
      ∃ i < maxPrio, ¬ (s.mlq i).Spent := by
  obtain ⟨waiting, _, represents⟩ := reachable_refines reachable
  obtain ⟨proc, after, call, selects⟩ := getProc_selects s.mlq
  have here : s.PriorityKept prio ↔ ∀ p, proc = some p → ∀ q < prio p, (after q).Spent := by
    simp [Served.PriorityKept, call]
  rw [here]
  cases selects with
  | idle empty => exact ⟨fun _ => .inl (empty 0 (by decide)), fun _ => nofun⟩
  | @first k inside ready before =>
      obtain ⟨p, front, mine⟩ := represents.front inside (Queue.not_spent.mp ready).1
      refine ⟨fun _ => .inr (.inr ⟨k, inside, ready⟩), fun _ => ?_⟩
      rw [front]
      rintro p' ⟨⟩ q less
      rw [mine] at less
      rw [slot_take_of_ne _ (Nat.ne_of_lt less)]
      exact before q less
  | refill spent waits last => exact ⟨fun _ => .inr (.inl last), fun _ => nofun⟩
  | @again k spent last inside behind waits before =>
      obtain ⟨p, front, mine⟩ := represents.reset.front inside (by rw [empty_resetSlot]; exact waits)
      rw [front]
      constructor
      · intro kept
        have passed := kept p rfl 0 (mine ▸ behind)
        rw [slot_take_of_ne _ (Nat.ne_of_lt behind)] at passed
        refine .inl ?_
        by_contra nonempty
        exact resetSlot_ready (by decide) (eq_false_of_ne_true nonempty) passed
      · rintro (empty | last' | ⟨i, inside', ready⟩)
        · rintro p' ⟨⟩ q less
          rw [mine] at less
          rw [slot_take_of_ne _ (Nat.ne_of_lt less)]
          refine .inl ?_
          rw [empty_resetSlot]
          rcases Nat.eq_zero_or_pos q with rfl | positive
          · exact empty
          · exact before q positive less
        · rw [last] at last'
          cases last'
        · exact absurd (spent i inside') ready

end Served

/-- Three processes of priority 138, whose queue has two slots; two of them were handed out. -/
def threeWait : Served :=
  follow (Served.exec fun _ => 138) (Served.HasRoom fun _ => 138)
    ⟨initScheduler fun _ => ⟨fun _ => none, 0, 0⟩, []⟩
    [.addProc 0, .addProc 1, .addProc 2, .getProc, .getProc]

theorem threeWait_reachable :
    Reach (Served.Step fun _ => 138) (Served.HasRoom fun _ => 138) Served.Start threeWait :=
  .follow (fun _ _ => id) (.start ⟨⟨_, rfl⟩, rfl⟩) _

theorem threeWait_nullWhenIdle_iff :
    threeWait.NullWhenIdle ↔ (∀ i < maxPrio, (threeWait.mlq i).empty = true) ∨
      (∃ i < maxPrio, ¬ (threeWait.mlq i).Spent) ∨ (threeWait.mlq (maxPrio - 1)).empty = false :=
  reachable_nullWhenIdle_iff threeWait_reachable

/-- The third process waits, and `get_proc` returns NULL. -/
theorem threeWait_not_nullWhenIdle :
    Reach (Served.Step fun _ => 138) (Served.HasRoom fun _ => 138) Served.Start threeWait ∧
      (threeWait.mlq 138).entries = [some 2] ∧ (getProc threeWait.mlq).map Prod.fst = some none ∧
      ¬ threeWait.NullWhenIdle := by
  have null : (getProc threeWait.mlq).map Prod.fst = some none := by decide +kernel
  have waits : (threeWait.mlq 138).empty = false := by decide +kernel
  refine ⟨threeWait_reachable, by decide +kernel, null, ?_⟩
  rintro ⟨proc, after, call, idle⟩
  rw [call] at null
  cases null
  rw [idle.mp rfl 138 (by decide)] at waits
  cases waits

theorem threeWait_priorityKept_iff :
    threeWait.PriorityKept (fun _ => 138) ↔ (threeWait.mlq 0).empty = true ∨
      (threeWait.mlq (maxPrio - 1)).empty = true ∨ ∃ i < maxPrio, ¬ (threeWait.mlq i).Spent :=
  reachable_priorityKept_iff threeWait_reachable

def twoPrios (proc : Nat) : Nat := if proc = 0 then 0 else 139

/-- The slots of both queues are used up, and a process waits in each. -/
def bothUsed : Served :=
  follow (Served.exec twoPrios) (Served.HasRoom twoPrios) ⟨initScheduler fun _ => ⟨fun _ => none, 0, 0⟩, []⟩
    (.addProc 1 :: .getProc :: .addProc 0 ::
      ((List.replicate 140 [.getProc, .putProc 0]).flatten ++ [.addProc 2]))

/-- `get_proc` resets the slots and returns the process of priority 139. -/
theorem bothUsed_not_priorityKept :
    Reach (Served.Step twoPrios) (Served.HasRoom twoPrios) Served.Start bothUsed ∧
      (getProc bothUsed.mlq).map Prod.fst = some (some 2) ∧ ¬ bothUsed.PriorityKept twoPrios := by
  have result : (getProc bothUsed.mlq).map (fun result => (result.1, decide (result.2 0).Spent)) =
      some (some 2, false) := by decide +kernel
  refine ⟨.follow (fun _ _ => id) (.start ⟨⟨_, rfl⟩, rfl⟩) _, ?_, ?_⟩
  · obtain ⟨⟨proc, after⟩, call, pair⟩ := Option.map_eq_some_iff.mp result
    rw [call]
    exact congrArg (fun pair => some pair.1) pair
  · rintro ⟨proc, after, call, kept⟩
    rw [call, Option.map_some, Option.some.injEq, Prod.mk.injEq, decide_eq_false_iff_not] at result
    obtain ⟨rfl, passed⟩ := result
    exact passed (kept 2 rfl 0 (by decide))

end OsSim.Sched
