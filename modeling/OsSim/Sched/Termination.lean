import OsSim.Sched.Fifo

namespace OsSim.Sched

/-- The steps of a call of `getMlqProc` from `loc` on, each with the queues before it. -/
def callTrace : Nat → Mlq → GetLoc → List (Mlq × GetLoc)
  | 0, _, _ => []
  | fuel + 1, mlq, loc =>
      (mlq, loc) ::
        match (getMlqProc mlq loc).2 with
        | .next loc' => callTrace fuel (getMlqProc mlq loc).1 loc'
        | .got _ => []

/-- The step calls `resetSlot`: in the round for the last queue, if it is empty or has no slots left. -/
def Resets (step : Mlq × GetLoc) : Bool :=
  match step.2 with
  | .scan prioSelect => (step.1 prioSelect).empty && prioSelect = maxPrio - 1
  | .resetSlots => true
  | _ => false

section Call

variable {mlq : Mlq} {loc loc' : GetLoc}

theorem getMlqProc_of_resets (resets : Resets (mlq, loc) = true) : (getMlqProc mlq loc).1 = resetSlot mlq := by
  cases loc with
  | scan prioSelect =>
      obtain ⟨empty, last⟩ := (Bool.and_eq_true _ _).mp resets
      rw [getMlqProc, if_pos empty]
      exact if_pos (of_decide_eq_true last)
  | resetSlots => rfl
  | queueEmpty prio => cases resets
  | testSlot prioSelect => cases resets
  | take prioSelect => cases resets

theorem not_resets_of_looks (looks : Looks mlq loc loc') : Resets (mlq, loc) = false := by
  cases loc with
  | scan prioSelect =>
      by_contra resets
      obtain ⟨empty, last⟩ := (Bool.and_eq_true _ _).mp (eq_true_of_ne_false resets)
      have last : prioSelect = maxPrio - 1 := of_decide_eq_true last
      exact not_looks_last (last ▸ empty) (last ▸ looks)
  | resetSlots => exact absurd rfl looks.1
  | queueEmpty prio => rfl
  | testSlot prioSelect => rfl
  | take prioSelect => rfl

/-- The other steps leave the slots alone, but for the one that dequeues. -/
theorem getMlqProc_of_not_resets (inside : loc.Inside) (other : ∀ i, loc ≠ .take i)
    (resets : Resets (mlq, loc) = false) : (getMlqProc mlq loc).1 = mlq := by
  rcases getMlqProc_cases mlq inside with
    ⟨_, _, step⟩ | ⟨rfl, _⟩ | ⟨i, take⟩ | ⟨_, _, step⟩ | ⟨rfl, empty, _⟩
  · rw [step]
  · cases resets
  · exact absurd take (other i)
  · rw [step]
  · simp [Resets, empty] at resets

/-! ## After a reset -/

/-- Each queue has a slot left, and a process waits in the last one. -/
structure Mlq.Refilled (mlq : Mlq) : Prop where
  slots : ∀ i < maxPrio, (mlq i).slot > 0
  last : (mlq (maxPrio - 1)).empty = false

/-- The call is in its loop, before its next reset. -/
def GetLoc.Searching : GetLoc → Prop
  | .scan _ | .testSlot _ | .take _ => True
  | .queueEmpty _ | .resetSlots => False

theorem Mlq.Refilled.resetSlot (last : (mlq (maxPrio - 1)).empty = false) : Mlq.Refilled (resetSlot mlq) := by
  refine ⟨?_, by rw [empty_resetSlot]; exact last⟩
  have none : Mlq.restarts (OsSim.Sched.resetSlot mlq) = 0 := restarts_resetSlot mlq
  intro i inside
  by_contra used
  rw [restarts_of_used inside used] at none
  cases none

/-- No queue sends the call back to the start. -/
theorem Mlq.Refilled.next (refilled : mlq.Refilled) (inside : loc.Inside) (searching : loc.Searching)
    (looks : Looks mlq loc loc') : loc'.Searching := by
  have step := congrArg Prod.snd looks.2
  cases loc with
  | scan prioSelect =>
      rw [getMlqProc] at step
      split at step
      · dsimp only at step
        split at step <;> cases step
        trivial
      · cases step
        trivial
  | testSlot prioSelect =>
      rw [getMlqProc, if_pos (refilled.slots prioSelect (inside prioSelect rfl))] at step
      cases step
      trivial
  | take prioSelect => cases step
  | queueEmpty prio => exact absurd searching id
  | resetSlots => exact absurd searching id

theorem Mlq.Refilled.countP (refilled : mlq.Refilled) (fuel : Nat) (inside : loc.Inside) (searching : loc.Searching) :
    (callTrace fuel mlq loc).countP Resets = 0 := by
  induction fuel generalizing loc with
  | zero => rfl
  | succ fuel ih =>
      rw [callTrace]
      rcases getMlqProc_cases mlq inside with
        ⟨loc', looks⟩ | ⟨rfl, _⟩ | ⟨i, rfl⟩ | ⟨rfl, _⟩ | ⟨rfl, empty, _⟩
      · have later := ih (inside.step (congrArg Prod.snd looks.2)) (refilled.next inside searching looks)
        rw [List.countP_cons, not_resets_of_looks looks, looks.2]
        exact later
      · exact absurd searching id
      · rfl
      · exact absurd searching id
      · exact absurd (refilled.last.symm.trans empty) (by decide)

/-! ## A whole call -/

/-- The call has seen a process in the queue that it works on. -/
def GetLoc.WorksOn (mlq : Mlq) : GetLoc → Prop
  | .testSlot prioSelect => (mlq prioSelect).empty = false
  | .resetSlots => (mlq (maxPrio - 1)).empty = false
  | _ => True

theorem GetLoc.WorksOn.next (works : loc.WorksOn mlq) (looks : Looks mlq loc loc') : loc'.WorksOn mlq := by
  have step := congrArg Prod.snd looks.2
  cases loc with
  | queueEmpty prio =>
      rw [getMlqProc] at step
      split at step
      · cases step
        trivial
      · split at step <;> cases step
        trivial
  | scan prioSelect =>
      rw [getMlqProc] at step
      split at step
      · dsimp only at step
        split at step <;> cases step
        trivial
      · next nonempty =>
        cases step
        exact eq_false_of_ne_true nonempty
  | testSlot prioSelect =>
      rw [getMlqProc] at step
      split at step
      · cases step
        trivial
      · split at step
        · next last =>
          cases step
          subst last
          exact works
        · cases step
          trivial
  | take prioSelect => cases step
  | resetSlots => exact absurd rfl looks.1

theorem callTrace_countP (fuel : Nat) (inside : loc.Inside) (works : loc.WorksOn mlq) :
    (callTrace fuel mlq loc).countP Resets ≤ 1 := by
  induction fuel generalizing loc with
  | zero => exact Nat.zero_le 1
  | succ fuel ih =>
      rw [callTrace]
      rcases getMlqProc_cases mlq inside with
        ⟨loc', looks⟩ | ⟨rfl, step⟩ | ⟨i, rfl⟩ | ⟨rfl, _, step⟩ | ⟨rfl, _, step⟩
      · have later := ih (inside.step (congrArg Prod.snd looks.2)) (works.next looks)
        rw [List.countP_cons, not_resets_of_looks looks, looks.2]
        exact later
      · -- the last queue has a process, and after the reset a slot for it
        have refilled : Mlq.Refilled (resetSlot mlq) := Mlq.Refilled.resetSlot works
        have rest := refilled.countP fuel (inside.step (congrArg Prod.snd step)) trivial
        rw [List.countP_cons, step]
        dsimp only
        rw [rest]
        exact Nat.le_refl 1
      · exact Nat.zero_le 1
      · rw [step]
        exact Nat.zero_le 1
      · rw [step]
        exact List.countP_le_length

/-- From any content of the queues and any slots a call of `get_mlq_proc` ends, and it resets the slots at most
once. -/
theorem getProc_terminates (mlq : Mlq) :
    (∃ proc after, getProc mlq = some (proc, after)) ∧
      (callTrace callSteps mlq (.queueEmpty 0)).countP Resets ≤ 1 := by
  obtain ⟨proc, after, call, _⟩ := getProc_gives mlq
  exact ⟨⟨proc, after, call⟩, callTrace_countP callSteps GetLoc.inside_start trivial⟩

end Call

end OsSim.Sched
