import OsSim.Paging.Cpu
import OsSim.Sched.Machine
import OsSim.Timer.DeviceList

namespace OsSim.Main
open Transition

/-- The scheduler with its threads, the timer with the devices of the threads, and the memory. Both `os.time` and
`slots.time` are the `_time` of the timer. -/
structure State where
  os : Sched.Os Paging.Inst
  slots : Timer.State
  memory : Paging.System

/-- The threads; `g` is what the uninitialised variables of an instruction hold. The last two labels are wake-ups
without a signal. -/
inductive Label
  | cpu (id : Nat) (g : Paging.Garbage)
  | loader
  | timer
  | main
  | wakeDevice (j : Nat)
  | wakeTimer

/-! ## The threads and their devices -/

/-- Where a thread is with respect to its device: in its own code, in `nextSlot` or back from it, or in
`detachEvent`. -/
inductive Place
  | code
  | inSlot (since : Nat)
  | ended
deriving DecidableEq

def cpuPlace : Sched.CpuLoc Paging.Inst → Place
  | .nextSlot since => .inSlot since
  | .stopped => .ended
  | _ => .code

def loaderPlace : Sched.LoaderLoc → Place
  | .waitSlot since | .addSlot since => .inSlot since
  | .finished => .ended
  | _ => .code

/-- The call of the timer that a thread begins when it gets to a place. -/
def Place.call : Place → Option Timer.Op
  | .code => none
  | .inSlot _ => some .nextSlot
  | .ended => some .detachEvent

section Threads

variable (cfg : Sched.Config Paging.Inst)

def devices : Nat := cfg.numCpus + 1

/-- `main` attaches the devices of the CPUs and then the one of the loader, each at the head of `dev_list`. -/
def cpuDevice (id : Nat) : Nat := cfg.numCpus - id

def loaderDevice : Nat := 0

/-- In the list of the attached devices, which is the order of `dev_list`, the one of a thread has this place. -/
theorem attached_places {s : Timer.DevNodes.State} (start : s.Start) (open' : s.list.timerStarted = false) :
    let returned := (run Timer.DevNodes.State.exec s (List.replicate (devices cfg) .attachEvent)).returned
    returned[loaderDevice]? = some (s.list.nodes.fresh + cfg.numCpus) ∧
      ∀ id < cfg.numCpus, returned[cpuDevice cfg id]? = some (s.list.nodes.fresh + id) := by
  intro returned
  have order : returned = ((List.range (devices cfg)).map (s.list.nodes.fresh + ·)).reverse := by
    have attached := Timer.DevNodes.attachEvent_returned open' (devices cfg)
    rwa [start.returned, List.append_nil] at attached
  have place : ∀ i < devices cfg, returned[devices cfg - 1 - i]? = some (s.list.nodes.fresh + i) := by
    intro i inside
    rw [order, List.getElem?_reverse (by simp; omega)]
    simp only [List.length_map, List.length_range, List.getElem?_map]
    rw [show devices cfg - 1 - (devices cfg - 1 - i) = i by omega, List.getElem?_range inside, Option.map_some]
  refine ⟨?_, fun id inside => ?_⟩
  · have last := place cfg.numCpus (Nat.lt_succ_self _)
    rwa [devices, Nat.add_sub_cancel, Nat.sub_self] at last
  · have mine := place id (Nat.lt_succ_of_lt inside)
    rwa [devices, Nat.add_sub_cancel] at mine

def begins (slots : Timer.State) (j : Nat) (place : Place) : Option Timer.State :=
  match place.call with
  | none => some slots
  | some op => Timer.exec (devices cfg) slots (.device j op)

/-- The call of the memory that the next step of a CPU makes; the instruction is executed as a whole. -/
def State.calls (s : State) (id : Nat) (g : Paging.Garbage) : List Paging.Label :=
  match (s.os.cpus id).loc, (s.os.cpus id).proc with
  | .execute ins, some proc => (ins.call.map fun call => ⟨proc, call, g⟩).toList
  | _, _ => []

/-- A thread that is outside the timer functions goes on in its own code, up to the call of such a function. The
memory call of an instruction is one step; the code holds no lock in it. -/
def cpuThread (s : State) (id : Nat) (g : Paging.Garbage) : Option State :=
  if (s.slots.devices (cpuDevice cfg id)).loc = .outside then
    (Sched.cpuRoutine cfg s.os id).bind fun os =>
      (begins cfg s.slots (cpuDevice cfg id) (cpuPlace (os.cpus id).loc)).map fun slots =>
        ⟨os, slots, run Paging.System.exec s.memory (s.calls id g)⟩
  -- inside a call the operation is the one that began it
  else (Timer.exec (devices cfg) s.slots (.device (cpuDevice cfg id) .nextSlot)).map fun slots =>
    { s with slots }

def ldThread (s : State) : Option State :=
  if (s.slots.devices loaderDevice).loc = .outside then
    (Sched.ldRoutine cfg s.os).bind fun os =>
      (begins cfg s.slots loaderDevice (loaderPlace os.loader)).map fun slots => { s with os, slots }
  else (Timer.exec (devices cfg) s.slots (.device loaderDevice .nextSlot)).map fun slots => { s with slots }

/-- The calls of two CPUs into the paging functions are taken one after the other. -/
def State.exec (s : State) : Label → Option State
  | .cpu id g => if id < cfg.numCpus then cpuThread cfg s id g else none
  | .loader => ldThread cfg s
  | .timer =>
      (Timer.exec (devices cfg) s.slots .timer).map fun slots =>
        { s with slots, os := { s.os with time := slots.time } }
  -- `main` joins the threads before it calls `stopTimer`
  | .main =>
      if ∀ j < devices cfg, (s.slots.devices j).loc = .detached then
        (Timer.exec (devices cfg) s.slots .stopTimer).map fun slots => { s with slots }
      else none
  | .wakeDevice j =>
      (Timer.exec (devices cfg) s.slots (.wakeDevice j)).map fun slots => { s with slots }
  | .wakeTimer => (Timer.exec (devices cfg) s.slots .wakeTimer).map fun slots => { s with slots }

def State.Step (s : State) (l : Label) (s' : State) : Prop := s.exec cfg l = some s'

structure State.Start (s : State) : Prop where
  os : s.os.Start
  time : s.os.time = 0
  slots : s.slots = Timer.startTimer
  memory : s.memory.Boot

/-- The state after a step, by the thread that takes it. -/
inductive Moves (s : State) : Label → State → Prop
  | cpuCode {id : Nat} {g : Paging.Garbage} {os : Sched.Os Paging.Inst} {slots : Timer.State}
      (inside : id < cfg.numCpus) (outside : (s.slots.devices (cpuDevice cfg id)).loc = .outside)
      (taken : Sched.cpuRoutine cfg s.os id = some os)
      (begun : begins cfg s.slots (cpuDevice cfg id) (cpuPlace (os.cpus id).loc) = some slots) :
      Moves s (.cpu id g) ⟨os, slots, run Paging.System.exec s.memory (s.calls id g)⟩
  | cpuCall {id : Nat} {g : Paging.Garbage} {slots : Timer.State} (inside : id < cfg.numCpus)
      (away : (s.slots.devices (cpuDevice cfg id)).loc ≠ .outside)
      (moves : Timer.exec (devices cfg) s.slots (.device (cpuDevice cfg id) .nextSlot) = some slots) :
      Moves s (.cpu id g) { s with slots }
  | ldCode {os : Sched.Os Paging.Inst} {slots : Timer.State}
      (outside : (s.slots.devices loaderDevice).loc = .outside) (taken : Sched.ldRoutine cfg s.os = some os)
      (begun : begins cfg s.slots loaderDevice (loaderPlace os.loader) = some slots) :
      Moves s .loader { s with os, slots }
  | ldCall {slots : Timer.State} (away : (s.slots.devices loaderDevice).loc ≠ .outside)
      (moves : Timer.exec (devices cfg) s.slots (.device loaderDevice .nextSlot) = some slots) :
      Moves s .loader { s with slots }
  | timer {slots : Timer.State} (moves : Timer.exec (devices cfg) s.slots .timer = some slots) :
      Moves s .timer { s with slots, os := { s.os with time := slots.time } }
  | main {slots : Timer.State} (joined : ∀ j < devices cfg, (s.slots.devices j).loc = .detached)
      (moves : Timer.exec (devices cfg) s.slots .stopTimer = some slots) : Moves s .main { s with slots }
  | wakeDevice {j : Nat} {slots : Timer.State}
      (moves : Timer.exec (devices cfg) s.slots (.wakeDevice j) = some slots) :
      Moves s (.wakeDevice j) { s with slots }
  | wakeTimer {slots : Timer.State} (moves : Timer.exec (devices cfg) s.slots .wakeTimer = some slots) :
      Moves s .wakeTimer { s with slots }

variable {cfg} {s s' : State}

theorem cpuThread_moves {id : Nat} {g : Paging.Garbage} (inside : id < cfg.numCpus)
    (taken : cpuThread cfg s id g = some s') : Moves cfg s (.cpu id g) s' := by
  rw [cpuThread] at taken
  split at taken
  · next outside =>
    obtain ⟨os, routine, rest⟩ := Option.bind_eq_some_iff.mp taken
    obtain ⟨slots, begun, rfl⟩ := Option.map_eq_some_iff.mp rest
    exact .cpuCode inside outside routine begun
  · next away =>
    obtain ⟨slots, moves, rfl⟩ := Option.map_eq_some_iff.mp taken
    exact .cpuCall inside away moves

theorem ldThread_moves (taken : ldThread cfg s = some s') : Moves cfg s .loader s' := by
  rw [ldThread] at taken
  split at taken
  · next outside =>
    obtain ⟨os, routine, rest⟩ := Option.bind_eq_some_iff.mp taken
    obtain ⟨slots, begun, rfl⟩ := Option.map_eq_some_iff.mp rest
    exact .ldCode outside routine begun
  · next away =>
    obtain ⟨slots, moves, rfl⟩ := Option.map_eq_some_iff.mp taken
    exact .ldCall away moves

theorem State.Step.moves {l : Label} (taken : s.Step cfg l s') : Moves cfg s l s' := by
  cases l with
  | cpu id g =>
      rw [State.Step, State.exec] at taken
      split at taken
      · next inside => exact cpuThread_moves inside taken
      · cases taken
  | loader => exact ldThread_moves taken
  | timer =>
      obtain ⟨slots, moves, rfl⟩ := Option.map_eq_some_iff.mp taken
      exact .timer moves
  | main =>
      rw [State.Step, State.exec] at taken
      split at taken
      · next joined =>
        obtain ⟨slots, moves, rfl⟩ := Option.map_eq_some_iff.mp taken
        exact .main joined moves
      · cases taken
  | wakeDevice j =>
      obtain ⟨slots, moves, rfl⟩ := Option.map_eq_some_iff.mp taken
      exact .wakeDevice moves
  | wakeTimer =>
      obtain ⟨slots, moves, rfl⟩ := Option.map_eq_some_iff.mp taken
      exact .wakeTimer moves

end Threads

end OsSim.Main
