import Mathlib.Logic.Function.Basic
import OsSim.Lib.Transition

namespace OsSim.Timer
open Transition

inductive Party
  | device | timer
deriving DecidableEq

/-- Where the thread of a device is: outside the timer functions, in `nextSlot` or in `detachEvent`. -/
inductive DeviceLoc
  | outside
  | nextLockEvent | nextSetDone | nextSignal | nextUnlockEvent
  | nextLockTimer | nextTest | nextWait | nextWoken | nextUnlockTimer
  | detachLockEvent | detachSetFsh | detachSignal | detachUnlockEvent
  | detached
deriving DecidableEq

/-- Where `timerRoutine` is. The number is the position in `dev_list` of the device it looks at. -/
inductive TimerLoc
  | head
  | lockEvent (j : Nat) | testEvent (j : Nat) | waitEvent (j : Nat) | wokenEvent (j : Nat)
  | countEvent (j : Nat) | unlockEvent (j : Nat)
  | incTime
  | lockTimer (j : Nat) | clearDone (j : Nat) | signalTimer (j : Nat) | unlockTimer (j : Nat)
  | check | left | stopped
deriving DecidableEq

/-- A device with the thread that uses it. `begun` and `returned` count its calls of `nextSlot`. -/
structure Device where
  done : Bool
  fsh : Bool
  eventLock : Option Party
  timerLock : Option Party
  loc : DeviceLoc
  begun : Nat
  returned : Nat

/-- `time` counts the slots without wrapping; `fsh` and `event` are the counters of `timerRoutine`. -/
structure State where
  devices : Nat → Device
  timer : TimerLoc
  fsh : Nat
  event : Nat
  time : Nat
  timerStop : Bool

inductive Op
  | nextSlot | detachEvent

inductive Label
  | device (j : Nat) (op : Op)
  | timer
  | stopTimer
  | wakeDevice (j : Nat)
  | wakeTimer

def attachEvent : Device :=
  { done := false, fsh := false, eventLock := none, timerLock := none, loc := .outside
    begun := 0, returned := 0 }

/-- The state in which `startTimer` starts the timer. -/
def startTimer : State :=
  { devices := fun _ => attachEvent, timer := .head, fsh := 0, event := 0, time := 0
    timerStop := false }

def State.setDevice (s : State) (j : Nat) (d : Device) : State :=
  { s with devices := Function.update s.devices j d }

def acquire (lock : Option Party) (party : Party) : Option (Option Party) :=
  if lock = none then some (some party) else none

@[simp] theorem acquire_eq_some {lock lock' : Option Party} {party : Party} :
    acquire lock party = some lock' ↔ lock = none ∧ some party = lock' := by
  rw [acquire]
  split <;> simp_all

/-! ## The threads of the devices -/

/-- One step of the thread of a device, as far as its own structure goes; `none` where it is blocked. -/
def Device.step (d : Device) (op : Op) : Option Device :=
  match d.loc with
  | .outside =>
      match op with
      | .nextSlot => some { d with loc := .nextLockEvent, begun := d.begun + 1 }
      | .detachEvent => some { d with loc := .detachLockEvent }
  | .nextLockEvent =>
      (acquire d.eventLock .device).map fun eventLock => { d with eventLock, loc := .nextSetDone }
  | .nextSetDone => some { d with done := true, loc := .nextSignal }
  | .nextSignal => some { d with loc := .nextUnlockEvent }
  | .nextUnlockEvent => some { d with eventLock := none, loc := .nextLockTimer }
  | .nextLockTimer =>
      (acquire d.timerLock .device).map fun timerLock => { d with timerLock, loc := .nextTest }
  | .nextTest =>
      if d.done then some { d with timerLock := none, loc := .nextWait }
      else some { d with loc := .nextUnlockTimer }
  | .nextWait => none
  | .nextWoken =>
      (acquire d.timerLock .device).map fun timerLock => { d with timerLock, loc := .nextTest }
  | .nextUnlockTimer =>
      some { d with timerLock := none, loc := .outside, returned := d.returned + 1 }
  | .detachLockEvent =>
      (acquire d.eventLock .device).map fun eventLock => { d with eventLock, loc := .detachSetFsh }
  | .detachSetFsh => some { d with fsh := true, loc := .detachSignal }
  | .detachSignal => some { d with loc := .detachUnlockEvent }
  | .detachUnlockEvent => some { d with eventLock := none, loc := .detached }
  | .detached => none

/-- Whether the step of a device signals its `event_cond`. -/
def DeviceLoc.signals (loc : DeviceLoc) : Bool := loc = .nextSignal || loc = .detachSignal

/-- The end of the wait of the timer for the device `j`: by a signal or without one. -/
def TimerLoc.wake (j : Nat) (timer : TimerLoc) : TimerLoc :=
  if timer = .waitEvent j then .wokenEvent j else timer

def deviceStep (s : State) (j : Nat) (op : Op) : Option State :=
  ((s.devices j).step op).map fun d =>
    { s.setDevice j d with
      timer := if (s.devices j).loc.signals then s.timer.wake j else s.timer }

/-! ## The timer -/

def eventFrom (n j : Nat) : TimerLoc := if j < n then .lockEvent j else .incTime

def timerFrom (n j : Nat) : TimerLoc := if j < n then .lockTimer j else .check

/-- The end of the wait of a device: by a signal or without one. -/
def Device.wake (d : Device) : Device :=
  if d.loc = .nextWait then { d with loc := .nextWoken } else d

/-- One step of `timerRoutine` over `n` devices; `none` where it is blocked or has ended. -/
def timerStep (n : Nat) (s : State) : Option State :=
  match s.timer with
  | .head =>
      if s.timerStop then some { s with timer := .stopped }
      else some { s with timer := eventFrom n 0, fsh := 0, event := 0 }
  | .lockEvent j | .wokenEvent j =>
      (acquire (s.devices j).eventLock .timer).map fun eventLock =>
        { s.setDevice j { s.devices j with eventLock } with timer := .testEvent j }
  | .testEvent j =>
      if !(s.devices j).done && !(s.devices j).fsh then
        some { s.setDevice j { s.devices j with eventLock := none } with timer := .waitEvent j }
      else some { s with timer := .countEvent j }
  | .waitEvent _ => none
  | .countEvent j =>
      some { s with
        timer := .unlockEvent j
        fsh := if (s.devices j).fsh then s.fsh + 1 else s.fsh
        event := s.event + 1 }
  | .unlockEvent j =>
      some { s.setDevice j { s.devices j with eventLock := none } with timer := eventFrom n (j + 1) }
  | .incTime => some { s with timer := timerFrom n 0, time := s.time + 1 }
  | .lockTimer j =>
      (acquire (s.devices j).timerLock .timer).map fun timerLock =>
        { s.setDevice j { s.devices j with timerLock } with timer := .clearDone j }
  | .clearDone j =>
      some { s.setDevice j { s.devices j with done := false } with timer := .signalTimer j }
  | .signalTimer j => some { s.setDevice j (s.devices j).wake with timer := .unlockTimer j }
  | .unlockTimer j =>
      some { s.setDevice j { s.devices j with timerLock := none } with timer := timerFrom n (j + 1) }
  | .check => some { s with timer := if s.fsh = s.event then .left else .head }
  | .left | .stopped => none

/-! ## Runs -/

/-- The next state over `n` devices; the last two labels are wake-ups without a signal. -/
def exec (n : Nat) (s : State) : Label → Option State
  | .device j op => if j < n then deviceStep s j op else none
  | .timer => timerStep n s
  | .stopTimer => some { s with timerStop := true }
  | .wakeDevice j => if j < n then some (s.setDevice j (s.devices j).wake) else none
  | .wakeTimer =>
      match s.timer with
      | .waitEvent j => some { s with timer := .wokenEvent j }
      | _ => none

def Step (n : Nat) (s : State) (l : Label) (s' : State) : Prop := exec n s l = some s'

end OsSim.Timer
