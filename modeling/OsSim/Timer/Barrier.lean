import OsSim.Timer.Protocol

namespace OsSim.Timer
open Transition

/-! ## The locks -/

def DeviceLoc.inEvent : DeviceLoc → Bool
  | .nextSetDone | .nextSignal | .nextUnlockEvent => true
  | .detachSetFsh | .detachSignal | .detachUnlockEvent => true
  | _ => false

def DeviceLoc.inTimer : DeviceLoc → Bool
  | .nextTest | .nextUnlockTimer => true
  | _ => false

def TimerLoc.inEvent (j : Nat) : TimerLoc → Bool
  | .testEvent i | .countEvent i | .unlockEvent i => i = j
  | _ => false

def TimerLoc.inTimer (j : Nat) : TimerLoc → Bool
  | .clearDone i | .signalTimer i | .unlockTimer i => i = j
  | _ => false

/-- A thread is in a critical section exactly when it owns the lock. -/
structure Device.Locked (timer : TimerLoc) (j : Nat) (d : Device) : Prop where
  eventDevice : d.loc.inEvent = true ↔ d.eventLock = some .device
  eventTimer : timer.inEvent j = true ↔ d.eventLock = some .timer
  timerDevice : d.loc.inTimer = true ↔ d.timerLock = some .device
  timerTimer : timer.inTimer j = true ↔ d.timerLock = some .timer

/-! ## Where a device can be -/

/-- How far the timer is with a device in the current slot: it has to see it yet, it has seen it, or it has
counted the slot and has to release it yet. -/
inductive Stage
  | pending | seen | uncleared
deriving DecidableEq

def TimerLoc.stage (j : Nat) : TimerLoc → Stage
  | .head | .check | .left | .stopped => .pending
  | .lockEvent i | .testEvent i | .waitEvent i | .wokenEvent i => if j < i then .seen else .pending
  | .countEvent i | .unlockEvent i => if j ≤ i then .seen else .pending
  | .incTime => .seen
  | .lockTimer i | .clearDone i => if j < i then .pending else .uncleared
  | .signalTimer i | .unlockTimer i => if j ≤ i then .pending else .uncleared

/-- `done` and the calls of a device that waits in `nextSlot`: it is the call of this slot, or the one of the
slot before, which the timer has released already or not yet. -/
def Device.Waiting (T : Nat) (stage : Stage) (d : Device) : Prop :=
  stage ≠ .uncleared ∧ d.done = true ∧ d.begun = T + 1 ∧ d.returned = T ∨
    stage = .uncleared ∧ d.done = true ∧ d.begun = T ∧ d.returned + 1 = T ∨
    stage = .pending ∧ d.done = false ∧ d.begun = T ∧ d.returned + 1 = T

def Device.Paced (T : Nat) (stage : Stage) (d : Device) : Prop :=
  match d.loc with
  | .outside | .detachLockEvent | .detachSetFsh =>
      stage = .pending ∧ d.done = false ∧ d.fsh = false ∧ d.begun = T ∧ d.returned = T
  | .detachSignal | .detachUnlockEvent =>
      stage = .pending ∧ d.fsh = true ∧ d.begun = T ∧ d.returned = T
  | .nextLockEvent | .nextSetDone =>
      stage = .pending ∧ d.done = false ∧ d.fsh = false ∧ d.begun = T + 1 ∧ d.returned = T
  | .nextSignal | .nextUnlockEvent =>
      stage = .pending ∧ d.done = true ∧ d.fsh = false ∧ d.begun = T + 1 ∧ d.returned = T
  | .nextLockTimer | .nextTest | .nextWait | .nextWoken => d.fsh = false ∧ d.Waiting T stage
  | .nextUnlockTimer =>
      stage = .pending ∧ d.done = false ∧ d.fsh = false ∧ d.begun = T ∧ d.returned + 1 = T
  | .detached => d.fsh = true

theorem Device.Paced.step {T : Nat} {stage : Stage} {d d' : Device} {op : Op}
    (paced : d.Paced T stage) (taken : d.step op = some d') : d'.Paced T stage := by
  cases here : d.loc <;> simp only [Device.Paced, here] at paced <;>
    simp only [Device.step, here, Option.map_eq_some_iff, acquire_eq_some, reduceCtorEq] at taken
  case outside =>
    obtain ⟨pending, done, fsh, begun, returned⟩ := paced
    cases op <;> cases taken
    · exact ⟨pending, done, fsh, congrArg (· + 1) begun, returned⟩
    · exact ⟨pending, done, fsh, begun, returned⟩
  case nextLockEvent | nextLockTimer | nextWoken | detachLockEvent =>
    obtain ⟨_, _, rfl⟩ := taken
    exact paced
  case nextSetDone =>
    obtain ⟨pending, _, fsh, begun, returned⟩ := paced
    cases taken
    exact ⟨pending, rfl, fsh, begun, returned⟩
  case nextSignal | detachSignal =>
    cases taken
    exact paced
  case nextUnlockEvent =>
    obtain ⟨pending, done, fsh, begun, returned⟩ := paced
    cases taken
    exact ⟨fsh, .inl ⟨by simp [pending], done, begun, returned⟩⟩
  case nextTest =>
    split at taken
    · cases taken
      exact paced
    · next cleared =>
      cases taken
      obtain ⟨fsh, waiting⟩ := paced
      rcases waiting with ⟨_, done, _⟩ | ⟨_, done, _⟩ | ⟨pending, done, begun, returned⟩
      · exact absurd done cleared
      · exact absurd done cleared
      · exact ⟨pending, done, fsh, begun, returned⟩
  case nextUnlockTimer =>
    obtain ⟨pending, done, fsh, begun, returned⟩ := paced
    cases taken
    exact ⟨pending, done, fsh, begun, returned⟩
  case detachSetFsh =>
    obtain ⟨pending, _, _, begun, returned⟩ := paced
    cases taken
    exact ⟨pending, rfl, begun, returned⟩
  case detachUnlockEvent =>
    obtain ⟨_, fsh, _⟩ := paced
    cases taken
    exact fsh
theorem Device.Paced.wake {T : Nat} {stage : Stage} {d : Device} (paced : d.Paced T stage) :
    d.wake.Paced T stage := by
  rw [Device.wake]
  split
  · next waits =>
    rw [Device.Paced, waits] at paced
    exact paced
  · exact paced

theorem Device.Paced.detached {T : Nat} {d : Device} (paced : d.Paced T .seen) (fsh : d.fsh = true) :
    d.loc = .detached := by
  unfold Device.Paced at paced
  split at paced <;> simp_all

theorem Device.Paced.seen {T : Nat} {d : Device} (paced : d.Paced T .pending)
    (apart : d.loc.inEvent = false) (ready : d.done = true ∨ d.fsh = true) : d.Paced T .seen := by
  unfold Device.Paced at paced ⊢
  cases here : d.loc <;> simp_all [DeviceLoc.inEvent, Device.Waiting]

theorem Device.Paced.count {T : Nat} {d : Device} (paced : d.Paced T .seen) :
    d.Paced (T + 1) .uncleared := by
  unfold Device.Paced at paced ⊢
  cases here : d.loc <;> simp_all [Device.Waiting]

theorem Device.Paced.clear {T : Nat} {d : Device} (paced : d.Paced T .uncleared) :
    Device.Paced T .pending { d with done := false } := by
  unfold Device.Paced at paced ⊢
  cases here : d.loc <;> simp_all [Device.Waiting]

/-! ## Steps of the machine -/

section Stages

variable {n i j : Nat} {timer : TimerLoc}

@[simp] theorem stage_wake : (timer.wake i).stage j = timer.stage j := by
  rw [TimerLoc.wake]
  split
  · next waits =>
    rw [waits]
    rfl
  · rfl

@[simp] theorem inEvent_wake : (timer.wake i).inEvent j = timer.inEvent j := by
  rw [TimerLoc.wake]
  split
  · next waits =>
    rw [waits]
    rfl
  · rfl

@[simp] theorem inTimer_wake : (timer.wake i).inTimer j = timer.inTimer j := by
  rw [TimerLoc.wake]
  split
  · next waits =>
    rw [waits]
    rfl
  · rfl

theorem stage_eventFrom (inside : j < n) :
    (eventFrom n i).stage j = if j < i then .seen else .pending := by
  rw [eventFrom]
  split
  · rfl
  · have passed : j < i := by omega
    rw [if_pos passed]
    rfl

theorem stage_timerFrom (inside : j < n) :
    (timerFrom n i).stage j = if j < i then .pending else .uncleared := by
  rw [timerFrom]
  split
  · rfl
  · have passed : j < i := by omega
    rw [if_pos passed]
    rfl

@[simp] theorem inEvent_eventFrom : (eventFrom n i).inEvent j = false := by
  rw [eventFrom]
  split <;> rfl

@[simp] theorem inTimer_eventFrom : (eventFrom n i).inTimer j = false := by
  rw [eventFrom]
  split <;> rfl

@[simp] theorem inEvent_timerFrom : (timerFrom n i).inEvent j = false := by
  rw [timerFrom]
  split <;> rfl

@[simp] theorem inTimer_timerFrom : (timerFrom n i).inTimer j = false := by
  rw [timerFrom]
  split <;> rfl

end Stages

def State.Locked (s : State) : Prop := ∀ j, (s.devices j).Locked s.timer j

def State.Paced (n : Nat) (s : State) : Prop :=
  ∀ j < n, (s.devices j).Paced s.time (s.timer.stage j)

theorem Device.Locked.step {timer : TimerLoc} {j : Nat} {d d' : Device} {op : Op}
    (locked : d.Locked timer j) (taken : d.step op = some d') : d'.Locked timer j := by
  obtain ⟨eventDevice, eventTimer, timerDevice, timerTimer⟩ := locked
  cases here : d.loc <;> rw [here] at eventDevice timerDevice <;>
    simp only [Device.step, here, Option.map_eq_some_iff, acquire_eq_some, reduceCtorEq] at taken
  case outside => cases op <;> cases taken <;> exact ⟨eventDevice, eventTimer, timerDevice, timerTimer⟩
  case nextLockEvent | detachLockEvent =>
    obtain ⟨_, ⟨free, rfl⟩, rfl⟩ := taken
    exact ⟨by simp [DeviceLoc.inEvent], by simp [eventTimer, free], timerDevice, timerTimer⟩
  case nextLockTimer | nextWoken =>
    obtain ⟨_, ⟨free, rfl⟩, rfl⟩ := taken
    exact ⟨eventDevice, eventTimer, by simp [DeviceLoc.inTimer], by simp [timerTimer, free]⟩
  case nextSetDone | nextSignal | detachSetFsh | detachSignal =>
    cases taken
    exact ⟨eventDevice, eventTimer, timerDevice, timerTimer⟩
  case nextUnlockEvent | detachUnlockEvent =>
    have mine := eventDevice.mp rfl
    cases taken
    exact ⟨by simp [DeviceLoc.inEvent], by simp [eventTimer, mine], timerDevice, timerTimer⟩
  case nextTest =>
    have mine := timerDevice.mp rfl
    split at taken <;> cases taken
    · exact ⟨eventDevice, eventTimer, by simp [DeviceLoc.inTimer], by simp [timerTimer, mine]⟩
    · exact ⟨eventDevice, eventTimer, timerDevice, timerTimer⟩
  case nextUnlockTimer =>
    have mine := timerDevice.mp rfl
    cases taken
    exact ⟨eventDevice, eventTimer, by simp [DeviceLoc.inTimer], by simp [timerTimer, mine]⟩

theorem Device.Locked.wake {timer : TimerLoc} {j : Nat} {d : Device} (locked : d.Locked timer j) :
    d.wake.Locked timer j := by
  rw [Device.wake]
  split
  · next waits =>
    obtain ⟨eventDevice, eventTimer, timerDevice, timerTimer⟩ := locked
    rw [waits] at eventDevice timerDevice
    exact ⟨eventDevice, eventTimer, timerDevice, timerTimer⟩
  · exact locked

theorem State.Locked.moved {s s' : State} (locked : s.Locked) {i : Nat} {d' : Device}
    (devices : s'.devices = Function.update s.devices i d')
    (mine : (s.devices i).Locked s.timer i → d'.Locked s'.timer i)
    (others : ∀ j, j ≠ i → s'.timer.inEvent j = s.timer.inEvent j ∧
      s'.timer.inTimer j = s.timer.inTimer j) : s'.Locked := by
  intro j
  rw [devices]
  by_cases same : j = i
  · rw [same, Function.update_self]
    exact mine (locked i)
  · obtain ⟨eventDevice, eventTimer, timerDevice, timerTimer⟩ := locked j
    obtain ⟨event, timer⟩ := others j same
    rw [Function.update_of_ne same]
    exact ⟨eventDevice, event ▸ eventTimer, timerDevice, timer ▸ timerTimer⟩

theorem State.Locked.timer {n : Nat} {s s' : State} (locked : s.Locked)
    (taken : timerStep n s = some s') : s'.Locked := by
  have idle : ∀ timer' : TimerLoc, (∀ j, timer'.inEvent j = s.timer.inEvent j ∧
      timer'.inTimer j = s.timer.inTimer j) → ∀ j, (s.devices j).Locked timer' j := by
    intro timer' same j
    obtain ⟨eventDevice, eventTimer, timerDevice, timerTimer⟩ := locked j
    obtain ⟨event, timer⟩ := same j
    exact ⟨eventDevice, event ▸ eventTimer, timerDevice, timer ▸ timerTimer⟩
  cases here : s.timer <;> rw [here] at idle <;>
    simp only [timerStep, here, Option.map_eq_some_iff, acquire_eq_some, reduceCtorEq] at taken
  case head =>
    split at taken <;> cases taken <;> apply idle <;> intro j
    · exact ⟨rfl, rfl⟩
    · exact ⟨inEvent_eventFrom, inTimer_eventFrom⟩
  case lockEvent i | wokenEvent i =>
    obtain ⟨_, ⟨free, rfl⟩, rfl⟩ := taken
    refine locked.moved rfl ?_ ?_
    · rintro ⟨eventDevice, eventTimer, timerDevice, timerTimer⟩
      rw [here] at timerTimer
      exact ⟨by simp [eventDevice, free], by simp [TimerLoc.inEvent], timerDevice, timerTimer⟩
    · intro j other
      rw [here]
      exact ⟨decide_eq_false (Ne.symm other), rfl⟩
  case testEvent i =>
    split at taken <;> cases taken
    · refine locked.moved rfl ?_ ?_
      · rintro ⟨eventDevice, eventTimer, timerDevice, timerTimer⟩
        rw [here] at eventTimer timerTimer
        have mine := eventTimer.mp (decide_eq_true rfl)
        exact ⟨by simp [eventDevice, mine], by simp [TimerLoc.inEvent], timerDevice, timerTimer⟩
      · intro j other
        rw [here]
        exact ⟨(decide_eq_false (Ne.symm other)).symm, rfl⟩
    · exact idle _ fun j => ⟨rfl, rfl⟩
  case countEvent i =>
    cases taken
    exact idle _ fun j => ⟨rfl, rfl⟩
  case unlockEvent i =>
    cases taken
    refine locked.moved rfl ?_ ?_
    · rintro ⟨eventDevice, eventTimer, timerDevice, timerTimer⟩
      rw [here] at eventTimer timerTimer
      have mine := eventTimer.mp (decide_eq_true rfl)
      refine ⟨by simp [eventDevice, mine], by simp, timerDevice, ?_⟩
      rw [inTimer_eventFrom]
      exact timerTimer
    · intro j other
      rw [here]
      exact ⟨inEvent_eventFrom.trans (decide_eq_false (Ne.symm other)).symm, inTimer_eventFrom⟩
  case incTime =>
    cases taken
    exact idle _ fun j => ⟨inEvent_timerFrom, inTimer_timerFrom⟩
  case lockTimer i =>
    obtain ⟨_, ⟨free, rfl⟩, rfl⟩ := taken
    refine locked.moved rfl ?_ ?_
    · rintro ⟨eventDevice, eventTimer, timerDevice, timerTimer⟩
      rw [here] at eventTimer
      exact ⟨eventDevice, eventTimer, by simp [timerDevice, free], by simp [TimerLoc.inTimer]⟩
    · intro j other
      rw [here]
      exact ⟨rfl, decide_eq_false (Ne.symm other)⟩
  case clearDone i =>
    cases taken
    refine locked.moved rfl ?_ ?_
    · rintro ⟨eventDevice, eventTimer, timerDevice, timerTimer⟩
      rw [here] at eventTimer timerTimer
      exact ⟨eventDevice, eventTimer, timerDevice, timerTimer⟩
    · intro j _
      rw [here]
      exact ⟨rfl, rfl⟩
  case signalTimer i =>
    cases taken
    refine locked.moved rfl ?_ ?_
    · intro before
      rw [here] at before
      exact Device.Locked.wake ⟨before.eventDevice, before.eventTimer, before.timerDevice, before.timerTimer⟩
    · intro j _
      rw [here]
      exact ⟨rfl, rfl⟩
  case unlockTimer i =>
    cases taken
    refine locked.moved rfl ?_ ?_
    · rintro ⟨eventDevice, eventTimer, timerDevice, timerTimer⟩
      rw [here] at eventTimer timerTimer
      have mine := timerTimer.mp (decide_eq_true rfl)
      refine ⟨eventDevice, ?_, by simp [timerDevice, mine], by simp⟩
      rw [inEvent_timerFrom]
      exact eventTimer
    · intro j other
      rw [here]
      exact ⟨inEvent_timerFrom, inTimer_timerFrom.trans (decide_eq_false (Ne.symm other)).symm⟩
  case check =>
    cases taken
    refine idle _ fun j => ?_
    dsimp only
    split <;> exact ⟨rfl, rfl⟩

theorem State.Paced.moved {n : Nat} {s s' : State} (paced : s.Paced n) {i : Nat} {d' : Device}
    (devices : s'.devices = Function.update s.devices i d') (time : s'.time = s.time)
    (stages : ∀ j < n, s'.timer.stage j = s.timer.stage j)
    (kept : ∀ T stage, (s.devices i).Paced T stage → d'.Paced T stage) : s'.Paced n := by
  intro j inside
  rw [devices, time, stages j inside]
  by_cases same : j = i
  · rw [same, Function.update_self]
    exact kept _ _ (same ▸ paced j inside)
  · rw [Function.update_of_ne same]
    exact paced j inside

theorem State.Paced.timer {n : Nat} {s s' : State} (paced : s.Paced n) (locked : s.Locked)
    (taken : timerStep n s = some s') : s'.Paced n := by
  have idle : ∀ timer' : TimerLoc, (∀ j < n, timer'.stage j = s.timer.stage j) →
      ∀ j < n, (s.devices j).Paced s.time (timer'.stage j) := by
    intro timer' same j inside
    rw [same j inside]
    exact paced j inside
  cases here : s.timer <;> rw [here] at idle <;>
    simp only [timerStep, here, Option.map_eq_some_iff, acquire_eq_some, reduceCtorEq] at taken
  case head =>
    split at taken <;> cases taken
    · exact idle _ fun j _ => rfl
    · exact idle _ fun j inside => stage_eventFrom inside
  case lockEvent i | wokenEvent i =>
    obtain ⟨_, _, rfl⟩ := taken
    refine paced.moved rfl rfl (fun j _ => ?_) fun _ _ before => before
    rw [here]
    rfl
  case testEvent i =>
    split at taken
    · cases taken
      refine paced.moved rfl rfl (fun j _ => ?_) fun _ _ before => before
      rw [here]
      rfl
    · next ready =>
      cases taken
      intro j inside
      have before := paced j inside
      rw [here] at before
      dsimp only [TimerLoc.stage] at before ⊢
      rcases Nat.lt_trichotomy j i with less | rfl | more
      · rw [if_pos less] at before
        rwa [if_pos (Nat.le_of_lt less)]
      · rw [if_neg (Nat.lt_irrefl j)] at before
        rw [if_pos (Nat.le_refl j)]
        have held := locked j
        rw [here] at held
        have mine := held.eventTimer.mp (decide_eq_true rfl)
        have apart : (s.devices j).loc.inEvent = false := by
          simpa [mine] using held.eventDevice
        refine before.seen apart ?_
        cases done : (s.devices j).done with
        | true => exact .inl rfl
        | false => exact .inr (by simpa [done] using ready)
      · rw [if_neg (by omega)] at before
        rwa [if_neg (by omega)]
  case countEvent i =>
    cases taken
    exact idle _ fun j _ => rfl
  case unlockEvent i =>
    cases taken
    refine paced.moved rfl rfl (fun j inside => ?_) fun _ _ before => before
    rw [here, stage_eventFrom inside]
    simp only [TimerLoc.stage, Nat.lt_succ_iff]
  case incTime =>
    cases taken
    intro j inside
    have before := paced j inside
    rw [here] at before
    rw [stage_timerFrom inside]
    exact before.count
  case lockTimer i =>
    obtain ⟨_, _, rfl⟩ := taken
    refine paced.moved rfl rfl (fun j _ => ?_) fun _ _ before => before
    rw [here]
    rfl
  case clearDone i =>
    cases taken
    intro j inside
    have before := paced j inside
    rw [here] at before
    dsimp only [TimerLoc.stage, State.setDevice] at before ⊢
    rcases Nat.lt_trichotomy j i with less | rfl | more
    · rw [if_pos less] at before
      rwa [if_pos (Nat.le_of_lt less), Function.update_of_ne (Nat.ne_of_lt less)]
    · rw [if_neg (Nat.lt_irrefl j)] at before
      rw [if_pos (Nat.le_refl j), Function.update_self]
      exact before.clear
    · rw [if_neg (by omega)] at before
      rwa [if_neg (by omega), Function.update_of_ne (Nat.ne_of_gt more)]
  case signalTimer i =>
    cases taken
    refine paced.moved rfl rfl (fun j _ => ?_) fun _ _ before => before.wake
    rw [here]
    rfl
  case unlockTimer i =>
    cases taken
    refine paced.moved rfl rfl (fun j inside => ?_) fun _ _ before => before
    rw [here, stage_timerFrom inside]
    simp only [TimerLoc.stage, Nat.lt_succ_iff]
  case check =>
    cases taken
    refine idle _ fun j _ => ?_
    dsimp only
    split <;> rfl

/-! ## The counters of the timer -/

def TimerLoc.device : TimerLoc → Option Nat
  | .lockEvent i | .testEvent i | .waitEvent i | .wokenEvent i | .countEvent i | .unlockEvent i => some i
  | .lockTimer i | .clearDone i | .signalTimer i | .unlockTimer i => some i
  | .head | .incTime | .check | .left | .stopped => none

/-- How many devices the timer has counted in this slot. -/
def TimerLoc.counted (n : Nat) : TimerLoc → Option Nat
  | .lockEvent i | .testEvent i | .waitEvent i | .wokenEvent i | .countEvent i => some i
  | .unlockEvent i => some (i + 1)
  | .incTime | .lockTimer _ | .clearDone _ | .signalTimer _ | .unlockTimer _ | .check => some n
  | .head | .left | .stopped => none

/-- `fsh` and `event` are equal only if all devices counted are detached. -/
structure State.Tallied (n : Nat) (s : State) : Prop where
  within : ∀ j, s.timer.device = some j → j < n
  event : ∀ m, s.timer.counted n = some m → s.event = m
  le : s.fsh ≤ s.event
  all : s.fsh = s.event → ∀ j < s.event, (s.devices j).loc = .detached
  left : s.timer = .left → ∀ j < n, (s.devices j).loc = .detached

section Tallied

variable {n i : Nat} {s s' : State}

@[simp] theorem device_wake (timer : TimerLoc) : (timer.wake i).device = timer.device := by
  rw [TimerLoc.wake]
  split
  · next waits =>
    rw [waits]
    rfl
  · rfl

@[simp] theorem counted_wake (timer : TimerLoc) : (timer.wake i).counted n = timer.counted n := by
  rw [TimerLoc.wake]
  split
  · next waits =>
    rw [waits]
    rfl
  · rfl

theorem device_eventFrom {j : Nat} (at_j : (eventFrom n i).device = some j) : j < n := by
  rw [eventFrom] at at_j
  split at at_j
  · next inside =>
    cases at_j
    exact inside
  · cases at_j

theorem device_timerFrom {j : Nat} (at_j : (timerFrom n i).device = some j) : j < n := by
  rw [timerFrom] at at_j
  split at at_j
  · next inside =>
    cases at_j
    exact inside
  · cases at_j

theorem counted_eventFrom (bound : i ≤ n) : (eventFrom n i).counted n = some i := by
  rw [eventFrom]
  split
  · rfl
  · have last : i = n := by omega
    rw [last]
    rfl

theorem counted_timerFrom : (timerFrom n i).counted n = some n := by
  rw [timerFrom]
  split <;> rfl

theorem eventFrom_ne {loc : TimerLoc} (lock : .lockEvent i ≠ loc) (inc : .incTime ≠ loc) :
    eventFrom n i ≠ loc := by
  rw [eventFrom]
  split
  · exact lock
  · exact inc

theorem timerFrom_ne {loc : TimerLoc} (lock : .lockTimer i ≠ loc) (check : .check ≠ loc) :
    timerFrom n i ≠ loc := by
  rw [timerFrom]
  split
  · exact lock
  · exact check

theorem State.Tallied.same (tallied : s.Tallied n) (fsh : s'.fsh = s.fsh) (event : s'.event = s.event)
    (within : ∀ j, s'.timer.device = some j → j < n)
    (counted : ∀ m, s'.timer.counted n = some m → s.event = m)
    (left : s'.timer = .left → s.timer = .left)
    (detached : ∀ j, (s.devices j).loc = .detached → (s'.devices j).loc = .detached) :
    s'.Tallied n := by
  refine ⟨within, ?_, ?_, ?_, ?_⟩
  · intro m at_m
    rw [event]
    exact counted m at_m
  · rw [fsh, event]
    exact tallied.le
  · rw [fsh, event]
    exact fun equal j inside => detached j (tallied.all equal j inside)
  · exact fun leaves j inside => detached j (tallied.left (left leaves) j inside)

theorem detached_setDevice {d' : Device}
    (kept : (s.devices i).loc = .detached → d'.loc = .detached) (j : Nat)
    (left : (s.devices j).loc = .detached) : (Function.update s.devices i d' j).loc = .detached := by
  by_cases same : j = i
  · rw [same, Function.update_self]
    exact kept (same ▸ left)
  · rwa [Function.update_of_ne same]

theorem Device.wake_detached {d : Device} (left : d.loc = .detached) : d.wake.loc = .detached := by
  simp [Device.wake, left]

theorem detached_timer (taken : timerStep n s = some s') (j : Nat)
    (gone : (s.devices j).loc = .detached) : (s'.devices j).loc = .detached := by
  cases here : s.timer <;>
    simp only [timerStep, here, Option.map_eq_some_iff, reduceCtorEq] at taken
  case head =>
    split at taken <;> cases taken <;> exact gone
  case testEvent =>
    split at taken <;> cases taken
    · refine detached_setDevice ?_ j gone
      exact id
    · exact gone
  case lockEvent | wokenEvent | lockTimer =>
    obtain ⟨_, _, rfl⟩ := taken
    refine detached_setDevice ?_ j gone
    exact id
  case unlockEvent | clearDone | unlockTimer =>
    cases taken
    refine detached_setDevice ?_ j gone
    exact id
  case signalTimer =>
    cases taken
    exact detached_setDevice Device.wake_detached j gone
  all_goals
    cases taken
    exact gone

theorem detached_exec {l : Label} (taken : exec n s l = some s') (j : Nat)
    (gone : (s.devices j).loc = .detached) : (s'.devices j).loc = .detached := by
  cases l with
  | device i op =>
      rw [exec] at taken
      split at taken
      · obtain ⟨d', moves, rfl⟩ := Option.map_eq_some_iff.mp taken
        refine detached_setDevice (fun gone => ?_) j gone
        simp [Device.step, gone] at moves
      · cases taken
  | timer => exact detached_timer taken j gone
  | stopTimer =>
      cases taken
      exact gone
  | wakeDevice i =>
      rw [exec] at taken
      split at taken <;> cases taken
      exact detached_setDevice Device.wake_detached j gone
  | wakeTimer =>
      rw [exec] at taken
      split at taken <;> cases taken
      exact gone

theorem State.Tallied.timer (tallied : s.Tallied n) (paced : s.Paced n)
    (taken : timerStep n s = some s') : s'.Tallied n := by
  have within := tallied.within
  have event := tallied.event
  have gone := detached_timer taken
  cases here : s.timer <;> rw [here] at within event <;>
    simp only [timerStep, here, Option.map_eq_some_iff, acquire_eq_some, reduceCtorEq] at taken
  case head =>
    split at taken <;> cases taken
    · exact tallied.same rfl rfl within event (by simp) gone
    · refine ⟨fun j => device_eventFrom, ?_, Nat.le_refl 0, fun _ j none => absurd none (Nat.not_lt_zero j), ?_⟩
      · intro m counted
        rw [counted_eventFrom (Nat.zero_le n)] at counted
        exact Option.some.inj counted
      · exact fun leaves => absurd leaves (eventFrom_ne (by simp) (by simp))
  case lockEvent i | wokenEvent i =>
    obtain ⟨_, _, rfl⟩ := taken
    exact tallied.same rfl rfl within event (by simp) gone
  case testEvent i =>
    split at taken <;> cases taken
    · exact tallied.same rfl rfl within event (by simp) gone
    · exact tallied.same rfl rfl within event (by simp) gone
  case countEvent i =>
    have inside := within i rfl
    have seen := paced i inside
    rw [here, TimerLoc.stage, if_pos (Nat.le_refl i)] at seen
    have counted := event i rfl
    have le := tallied.le
    cases taken
    refine ⟨within, ?_, ?_, ?_, by simp⟩
    · intro m counted'
      cases counted'
      exact congrArg (· + 1) counted
    · dsimp only
      split <;> omega
    · dsimp only
      intro equal j below
      split at equal
      · next fsh =>
        rcases Nat.lt_succ_iff_lt_or_eq.mp below with earlier | last
        · exact tallied.all (by omega) j earlier
        · rw [last, counted]
          exact seen.detached fsh
      · omega
  case unlockEvent i =>
    have inside := within i rfl
    cases taken
    refine tallied.same rfl rfl (fun j => device_eventFrom) ?_ ?_ gone
    · intro m counted
      rw [counted_eventFrom inside] at counted
      exact event m counted
    · exact fun leaves => absurd leaves (eventFrom_ne (by simp) (by simp))
  case lockTimer i =>
    obtain ⟨_, _, rfl⟩ := taken
    exact tallied.same rfl rfl within event (by simp) gone
  case clearDone i | signalTimer i =>
    cases taken
    exact tallied.same rfl rfl within event (by simp) gone
  case incTime | unlockTimer =>
    cases taken
    refine tallied.same rfl rfl (fun j => device_timerFrom) ?_ ?_ gone
    · intro m counted
      rw [counted_timerFrom] at counted
      exact event m counted
    · exact fun leaves => absurd leaves (timerFrom_ne (by simp) (by simp))
  case check =>
    have all := event n rfl
    cases taken
    refine ⟨?_, ?_, tallied.le, tallied.all, ?_⟩
    · intro j at_j
      dsimp only at at_j
      split at at_j <;> cases at_j
    · intro m counted
      dsimp only at counted
      split at counted <;> cases counted
    · intro leaves j inside
      dsimp only at leaves
      split at leaves
      · next equal => exact tallied.all equal j (all ▸ inside)
      · cases leaves

end Tallied

/-! ## Reachable states -/

structure State.Synced (n : Nat) (s : State) : Prop where
  locked : s.Locked
  paced : s.Paced n
  tallied : s.Tallied n

theorem startTimer_synced (n : Nat) : startTimer.Synced n where
  locked := fun j => by constructor <;> exact ⟨nofun, nofun⟩
  paced := fun j _ => ⟨rfl, rfl, rfl, rfl, rfl⟩
  tallied := ⟨nofun, nofun, Nat.le_refl 0, fun _ j none => absurd none (Nat.not_lt_zero j), nofun⟩

theorem wake_eq_left {timer : TimerLoc} {j : Nat} (left : timer.wake j = .left) : timer = .left := by
  rw [TimerLoc.wake] at left
  split at left
  · cases left
  · exact left

theorem State.Synced.moved {n : Nat} {s s' : State} (synced : s.Synced n) {j : Nat} {d' : Device}
    (devices : s'.devices = Function.update s.devices j d') (time : s'.time = s.time)
    (fsh : s'.fsh = s.fsh) (event : s'.event = s.event)
    (timer : s'.timer = s.timer ∨ s'.timer = s.timer.wake j)
    (locked : ∀ timer, (s.devices j).Locked timer j → d'.Locked timer j)
    (paced : ∀ T stage, (s.devices j).Paced T stage → d'.Paced T stage)
    (detached : (s.devices j).loc = .detached → d'.loc = .detached) : s'.Synced n := by
  have same : (∀ i, s'.timer.inEvent i = s.timer.inEvent i ∧ s'.timer.inTimer i = s.timer.inTimer i ∧
      s'.timer.stage i = s.timer.stage i) ∧ s'.timer.device = s.timer.device ∧
      s'.timer.counted n = s.timer.counted n ∧ (s'.timer = .left → s.timer = .left) := by
    rcases timer with still | woken
    · rw [still]
      simp
    · rw [woken]
      simpa using wake_eq_left
  obtain ⟨locs, device, counted, left⟩ := same
  refine ⟨?_, ?_, ?_⟩
  · refine synced.locked.moved devices ?_ fun i _ => ⟨(locs i).1, (locs i).2.1⟩
    rintro ⟨eventDevice, eventTimer, timerDevice, timerTimer⟩
    rw [← (locs j).1] at eventTimer
    rw [← (locs j).2.1] at timerTimer
    exact locked _ ⟨eventDevice, eventTimer, timerDevice, timerTimer⟩
  · exact synced.paced.moved devices time (fun i _ => (locs i).2.2) paced
  · refine synced.tallied.same fsh event ?_ ?_ left ?_
    · rw [device]
      exact synced.tallied.within
    · rw [counted]
      exact synced.tallied.event
    · rw [devices]
      exact detached_setDevice detached

theorem State.Synced.exec {n : Nat} {s s' : State} {l : Label} (synced : s.Synced n)
    (taken : Timer.exec n s l = some s') : s'.Synced n := by
  cases l with
  | device j op =>
      rw [Timer.exec] at taken
      split at taken
      · obtain ⟨d', moves, rfl⟩ := Option.map_eq_some_iff.mp taken
        refine synced.moved rfl rfl rfl rfl ?_ (fun _ held => held.step moves)
          (fun _ _ before => before.step moves) ?_
        · dsimp only
          split
          · exact .inr rfl
          · exact .inl rfl
        · intro gone
          simp [Device.step, gone] at moves
      · cases taken
  | timer =>
      exact ⟨synced.locked.timer taken, synced.paced.timer synced.locked taken,
        synced.tallied.timer synced.paced taken⟩
  | stopTimer =>
      cases taken
      exact ⟨synced.locked, synced.paced, ⟨synced.tallied.within, synced.tallied.event,
        synced.tallied.le, synced.tallied.all, synced.tallied.left⟩⟩
  | wakeDevice j =>
      rw [Timer.exec] at taken
      split at taken
      · cases taken
        exact synced.moved rfl rfl rfl rfl (.inl rfl) (fun _ held => held.wake)
          (fun _ _ before => before.wake) Device.wake_detached
      · cases taken
  | wakeTimer =>
      rw [Timer.exec] at taken
      split at taken
      · next j waits =>
        cases taken
        refine synced.moved (Function.update_eq_self j s.devices).symm rfl rfl rfl ?_
          (fun _ held => held) (fun _ _ before => before) fun gone => gone
        rw [waits]
        exact .inr (if_pos rfl).symm
      · cases taken

theorem reachable_synced {n : Nat} {ok : State → Label → Prop} {s : State}
    (reachable : Reach (Step n) ok (· = startTimer) s) : s.Synced n := by
  refine reachable.invariant ?_ ?_
  · rintro s rfl
    exact startTimer_synced n
  · intro s l s' synced _ taken
    exact synced.exec taken

/-! ## The barrier -/

def DeviceLoc.inNextSlot : DeviceLoc → Bool
  | .outside | .detachLockEvent | .detachSetFsh | .detachSignal | .detachUnlockEvent | .detached => false
  | _ => true

/-- In the slot `T` each device that has not detached has begun `T` or `T + 1` calls of `nextSlot` and returned
from `T - 1` or `T` of them, `T` and `T` when it is at work. -/
structure State.Barrier (n : Nat) (s : State) : Prop where
  begun : ∀ j < n, (s.devices j).loc ≠ .detached →
    (s.devices j).begun = s.time ∨ (s.devices j).begun = s.time + 1
  returned : ∀ j < n, (s.devices j).loc ≠ .detached →
    (s.devices j).returned + 1 = s.time ∨ (s.devices j).returned = s.time
  atWork : ∀ j < n, (s.devices j).loc = .outside →
    (s.devices j).begun = s.time ∧ (s.devices j).returned = s.time
  left : s.timer = .left → ∀ j < n, (s.devices j).loc = .detached

theorem Device.Paced.counts {T : Nat} {stage : Stage} {d : Device} (paced : d.Paced T stage)
    (staying : d.loc ≠ .detached) :
    (d.begun = T ∨ d.begun = T + 1) ∧ (d.returned + 1 = T ∨ d.returned = T) := by
  have waiting : d.Waiting T stage →
      (d.begun = T ∨ d.begun = T + 1) ∧ (d.returned + 1 = T ∨ d.returned = T) := by
    rintro (⟨_, _, begun, returned⟩ | ⟨_, _, begun, returned⟩ | ⟨_, _, begun, returned⟩)
    · exact ⟨.inr begun, .inr returned⟩
    · exact ⟨.inl begun, .inl returned⟩
    · exact ⟨.inl begun, .inl returned⟩
  unfold Device.Paced at paced
  cases here : d.loc <;> simp_all

theorem Device.Paced.inNextSlot {T : Nat} {d : Device} (paced : d.Paced T .seen)
    (staying : d.loc ≠ .detached) : d.loc.inNextSlot = true ∧ d.begun = d.returned + 1 := by
  unfold Device.Paced Device.Waiting at paced
  cases here : d.loc <;> simp_all [DeviceLoc.inNextSlot]

theorem State.Synced.barrier {n : Nat} {s : State} (synced : s.Synced n) : s.Barrier n where
  begun := fun j inside staying => ((synced.paced j inside).counts staying).1
  returned := fun j inside staying => ((synced.paced j inside).counts staying).2
  atWork := fun j inside here => by
    have paced := synced.paced j inside
    rw [Device.Paced, here] at paced
    exact paced.2.2.2
  left := synced.tallied.left

theorem time_eq_of_exec {n : Nat} {s s' : State} {l : Label} (taken : exec n s l = some s')
    (changes : s'.time ≠ s.time) : s.timer = .incTime ∧ s'.time = s.time + 1 := by
  cases l with
  | device j op =>
      rw [exec] at taken
      split at taken
      · obtain ⟨d', _, rfl⟩ := Option.map_eq_some_iff.mp taken
        exact absurd rfl changes
      · cases taken
  | timer =>
      cases here : s.timer <;>
        simp only [exec, timerStep, here, Option.map_eq_some_iff, reduceCtorEq] at taken
      case incTime =>
        cases taken
        exact ⟨rfl, rfl⟩
      case head | testEvent =>
        split at taken <;> cases taken <;> exact absurd rfl changes
      case lockEvent | wokenEvent | lockTimer =>
        obtain ⟨_, _, rfl⟩ := taken
        exact absurd rfl changes
      all_goals
        cases taken
        exact absurd rfl changes
  | stopTimer =>
      cases taken
      exact absurd rfl changes
  | wakeDevice j =>
      rw [exec] at taken
      split at taken <;> cases taken
      exact absurd rfl changes
  | wakeTimer =>
      rw [exec] at taken
      split at taken <;> cases taken
      exact absurd rfl changes

/-- In every reachable state the barrier holds, and a step that changes the time adds 1 to it while every device
that has not detached is inside a call of `nextSlot`. -/
theorem reachable_barrier {n : Nat} {s : State}
    (reachable : Reach (Step n) (fun _ _ => True) (· = startTimer) s) :
    s.Barrier n ∧ ∀ l s', Step n s l s' → s'.time ≠ s.time →
      s'.time = s.time + 1 ∧ ∀ j < n, (s.devices j).loc ≠ .detached →
        (s.devices j).loc.inNextSlot = true ∧ (s.devices j).begun = (s.devices j).returned + 1 := by
  have synced := reachable_synced reachable
  refine ⟨synced.barrier, ?_⟩
  intro l s' taken changes
  obtain ⟨here, next⟩ := time_eq_of_exec taken changes
  refine ⟨next, ?_⟩
  intro j inside staying
  have paced := synced.paced j inside
  rw [here] at paced
  exact paced.inNextSlot staying

/-- One device: it begins its first call and the timer counts the slot. -/
def firstSlot : List Label :=
  List.replicate 5 (.device 0 .nextSlot) ++ List.replicate 6 .timer

theorem firstSlot_barrier :
    ∃ s, firstSlot.foldlM (exec 1) startTimer = some s ∧ s.time = 1 ∧ s.Barrier 1 := by
  obtain ⟨s, taken⟩ : ∃ s, firstSlot.foldlM (exec 1) startTimer = some s := ⟨_, rfl⟩
  have time : s.time = 1 := by
    have same := congrArg (Option.map State.time) taken
    exact (Option.some.inj same).symm
  exact ⟨s, taken, time, (reachable_barrier (.foldlM (.start rfl) (fun _ _ _ => trivial) taken)).1⟩

end OsSim.Timer
