import Mathlib.Algebra.GroupWithZero.Nat
import Mathlib.Order.Monotone.Basic
import OsSim.Timer.Barrier

namespace OsSim.Loading
open Transition Timer

structure Config where
  numCpus : Nat
  numProcesses : Nat
  startTime : Nat → UInt64

/-- Where the loader is in `ldRoutine`: it is about to call `nextSlot` or `detachEvent` at `waitCall`, `addCall`
and `detachCall`, and it is in that call at `waitSlot`, `addSlot` and `detached`. -/
inductive LoaderLoc
  | head | wait | waitCall | waitSlot | addProc | addCall | addSlot | setDone | detachCall | detached
deriving DecidableEq

/-- `i` and `proc` are the variables of `ldRoutine`: a process is the number of the file it was loaded from.
`added` are the calls of `addProc`, each with the process and the slot. -/
structure Os where
  slots : State
  loc : LoaderLoc
  i : Nat
  proc : Nat
  added : List (Nat × Nat)
  done : Bool

inductive OsLabel
  | loader
  | other (l : Label)

def start : Os :=
  { slots := startTimer, loc := .head, i := 0, proc := 0, added := [], done := false }

/-- The counter of the slots has 64 bits. -/
def currentTime (slots : State) : UInt64 := UInt64.ofNat slots.time

/-- The devices of the CPUs and of the loader, which attaches last and is the first of `dev_list`. -/
def Config.devices (config : Config) : Nat := config.numCpus + 1

theorem Config.devices_pos (config : Config) : 0 < config.devices := Nat.succ_pos config.numCpus

def Os.call (config : Config) (s : Os) (op : Op) (loc : LoaderLoc) : Option Os :=
  (exec config.devices s.slots (.device 0 op)).map fun slots => { s with slots, loc }

def ldRoutine (config : Config) (s : Os) : Option Os :=
  if (s.slots.devices 0).loc = .outside then
    match s.loc with
    | .head =>
        if s.i < config.numProcesses then some { s with loc := .wait, proc := s.i }
        else some { s with loc := .setDone }
    | .wait =>
        if currentTime s.slots < config.startTime s.i then some { s with loc := .waitCall }
        else some { s with loc := .addProc }
    | .waitCall => s.call config .nextSlot .waitSlot
    | .waitSlot => some { s with loc := .wait }
    | .addProc =>
        some { s with loc := .addCall, i := s.i + 1, added := s.added ++ [(s.proc, s.slots.time)] }
    | .addCall => s.call config .nextSlot .addSlot
    | .addSlot => some { s with loc := .head }
    | .setDone => some { s with loc := .detachCall, done := true }
    | .detachCall => s.call config .detachEvent .detached
    | .detached => none
  -- inside a call the operation is the one that began it
  else s.call config .nextSlot s.loc

/-- The steps of the timer and of the CPUs, which use their devices in any order. -/
def execOs (config : Config) (s : Os) : OsLabel → Option Os
  | .loader => ldRoutine config s
  | .other (.device 0 _) => none
  | .other l => (exec config.devices s.slots l).map fun slots => { s with slots }

def StepOs (config : Config) (s : Os) (l : OsLabel) (s' : Os) : Prop := execOs config s l = some s'

inductive Calls : LoaderLoc → Op → LoaderLoc → Prop
  | wait : Calls .waitCall .nextSlot .waitSlot
  | add : Calls .addCall .nextSlot .addSlot
  | detach : Calls .detachCall .detachEvent .detached

inductive Returns : LoaderLoc → LoaderLoc → Prop
  | wait : Returns .waitSlot .wait
  | add : Returns .addSlot .head

/-- The state after a step of `ldRoutine`. -/
inductive LdStep (config : Config) (s : Os) : Os → Prop
  | inCall {slots : State} (away : (s.slots.devices 0).loc ≠ .outside)
      (moves : exec config.devices s.slots (.device 0 .nextSlot) = some slots) : LdStep config s { s with slots }
  | load (outside : (s.slots.devices 0).loc = .outside) (here : s.loc = .head)
      (more : s.i < config.numProcesses) : LdStep config s { s with loc := .wait, proc := s.i }
  | loaded (outside : (s.slots.devices 0).loc = .outside) (here : s.loc = .head)
      (none : ¬ s.i < config.numProcesses) : LdStep config s { s with loc := .setDone }
  | early (outside : (s.slots.devices 0).loc = .outside) (here : s.loc = .wait)
      (early : currentTime s.slots < config.startTime s.i) : LdStep config s { s with loc := .waitCall }
  | due (outside : (s.slots.devices 0).loc = .outside) (here : s.loc = .wait)
      (late : ¬ currentTime s.slots < config.startTime s.i) : LdStep config s { s with loc := .addProc }
  | call {op : Op} {loc : LoaderLoc} {slots : State} (outside : (s.slots.devices 0).loc = .outside)
      (calls : Calls s.loc op loc) (moves : exec config.devices s.slots (.device 0 op) = some slots) :
      LdStep config s { s with slots, loc }
  | returned {loc : LoaderLoc} (outside : (s.slots.devices 0).loc = .outside) (returns : Returns s.loc loc) :
      LdStep config s { s with loc }
  | addProc (outside : (s.slots.devices 0).loc = .outside) (here : s.loc = .addProc) :
      LdStep config s { s with
        loc := .addCall, i := s.i + 1, added := s.added ++ [(s.proc, s.slots.time)] }
  | setDone (outside : (s.slots.devices 0).loc = .outside) (here : s.loc = .setDone) :
      LdStep config s { s with loc := .detachCall, done := true }

theorem ldRoutine_cases {config : Config} {s s' : Os} (taken : ldRoutine config s = some s') :
    LdStep config s s' := by
  rw [ldRoutine] at taken
  split at taken
  · next outside =>
    cases here : s.loc <;> simp only [here, reduceCtorEq] at taken
    case head =>
      split at taken <;> cases taken
      · next more => exact .load outside here more
      · next none => exact .loaded outside here none
    case wait =>
      split at taken <;> cases taken
      · next early => exact .early outside here early
      · next late => exact .due outside here late
    case waitCall =>
      obtain ⟨slots, moves, rfl⟩ := Option.map_eq_some_iff.mp taken
      exact .call outside (here ▸ .wait) moves
    case addCall =>
      obtain ⟨slots, moves, rfl⟩ := Option.map_eq_some_iff.mp taken
      exact .call outside (here ▸ .add) moves
    case detachCall =>
      obtain ⟨slots, moves, rfl⟩ := Option.map_eq_some_iff.mp taken
      exact .call outside (here ▸ .detach) moves
    case waitSlot =>
      cases taken
      exact .returned outside (here ▸ .wait)
    case addSlot =>
      cases taken
      exact .returned outside (here ▸ .add)
    case addProc =>
      cases taken
      exact .addProc outside here
    case setDone =>
      cases taken
      exact .setDone outside here
  · next away =>
    obtain ⟨slots, moves, rfl⟩ := Option.map_eq_some_iff.mp taken
    exact .inCall away moves

/-! ## The slots in which the processes are due -/

/-- The first slot from `ready` on in which the counter is not below `start`. -/
def firstFrom (start : UInt64) (ready : Nat) : Nat :=
  ready - ready % 2 ^ 64 + max start.toNat (ready % 2 ^ 64)

def Config.loadTime (config : Config) : Nat → Nat
  | 0 => firstFrom (config.startTime 0) 0
  | i + 1 => firstFrom (config.startTime (i + 1)) (config.loadTime i + 1)

/-- The first slot in which the loader looks for the start time of a process. -/
def Config.ready (config : Config) : Nat → Nat
  | 0 => 0
  | i + 1 => config.loadTime i + 1

section Due

variable {start : UInt64} {ready slot : Nat}

theorem le_firstFrom : ready ≤ firstFrom start ready := by
  rw [firstFrom]
  omega

theorem start_le_firstFrom : start.toNat ≤ firstFrom start ready := by
  rw [firstFrom]
  omega

theorem firstFrom_of_lt (below : ready < 2 ^ 64) : firstFrom start ready = max start.toNat ready := by
  rw [firstFrom, Nat.mod_eq_of_lt below, Nat.sub_self, Nat.zero_add]

theorem lt_firstFrom_iff (low : ready ≤ slot) (high : slot ≤ firstFrom start ready) :
    UInt64.ofNat slot < start ↔ slot < firstFrom start ready := by
  have small := start.toNat_lt
  rw [UInt64.lt_iff_toNat_lt, UInt64.toNat_ofNat']
  rw [firstFrom] at high ⊢
  omega

variable {config : Config}

theorem Config.loadTime_eq (i : Nat) :
    config.loadTime i = firstFrom (config.startTime i) (config.ready i) := by
  cases i <;> rfl

theorem Config.ready_le_loadTime (i : Nat) : config.ready i ≤ config.loadTime i := by
  rw [loadTime_eq]
  exact le_firstFrom

theorem Config.early_iff {i : Nat} (low : config.ready i ≤ slot) (high : slot ≤ config.loadTime i) :
    UInt64.ofNat slot < config.startTime i ↔ slot < config.loadTime i := by
  rw [config.loadTime_eq i] at high ⊢
  exact lt_firstFrom_iff low high

theorem Config.loadTime_lt_succ (i : Nat) : config.loadTime i < config.loadTime (i + 1) :=
  config.ready_le_loadTime (i + 1)

theorem Config.loadTime_strictMono : StrictMono config.loadTime :=
  strictMono_nat_of_lt_succ Config.loadTime_lt_succ

end Due

/-! ## The device of the loader -/

def leaves : DeviceLoc → Bool
  | .detachLockEvent | .detachSetFsh | .detachSignal | .detachUnlockEvent | .detached => true
  | _ => false

/-- What a step of the timer or of another device leaves as it is. -/
structure SameCall (d d' : Device) : Prop where
  begun : d'.begun = d.begun
  outside : d'.loc = .outside ↔ d.loc = .outside
  leaves : leaves d'.loc = leaves d.loc

theorem SameCall.refl (d : Device) : SameCall d d := ⟨rfl, Iff.rfl, rfl⟩

theorem sameCall_wake (d : Device) : SameCall d d.wake := by
  rw [Device.wake]
  split
  · next waits => exact ⟨rfl, by simp [waits], by simp [waits, leaves]⟩
  · exact .refl d

theorem sameCall_update {devices : Nat → Device} {i j : Nat} {d' : Device}
    (same : i = j → SameCall (devices j) d') : SameCall (devices j) (Function.update devices i d' j) := by
  by_cases here : j = i
  · rw [here, Function.update_self]
    exact here ▸ same here.symm
  · rw [Function.update_of_ne here]
    exact .refl _

theorem sameCall_timer {n : Nat} {slots slots' : State} (taken : timerStep n slots = some slots') (j : Nat) :
    SameCall (slots.devices j) (slots'.devices j) := by
  cases here : slots.timer <;>
    simp only [timerStep, here, Option.map_eq_some_iff, acquire_eq_some, reduceCtorEq] at taken
  case head =>
    split at taken <;> cases taken <;> exact .refl _
  case testEvent =>
    split at taken <;> cases taken
    · exact sameCall_update (by rintro rfl; exact ⟨rfl, Iff.rfl, rfl⟩)
    · exact .refl _
  case lockEvent | wokenEvent | lockTimer =>
    obtain ⟨_, _, rfl⟩ := taken
    exact sameCall_update (by rintro rfl; exact ⟨rfl, Iff.rfl, rfl⟩)
  case countEvent | incTime | check =>
    cases taken
    exact .refl _
  case unlockEvent | clearDone | unlockTimer =>
    cases taken
    exact sameCall_update (by rintro rfl; exact ⟨rfl, Iff.rfl, rfl⟩)
  case signalTimer =>
    cases taken
    exact sameCall_update (by rintro rfl; exact sameCall_wake _)

theorem sameCall_exec {n : Nat} {slots slots' : State} {l : Label} {j : Nat}
    (taken : exec n slots l = some slots') (other : ∀ op, l ≠ .device j op) :
    SameCall (slots.devices j) (slots'.devices j) := by
  cases l with
  | device i op =>
      rw [exec] at taken
      split at taken
      · obtain ⟨d', _, rfl⟩ := Option.map_eq_some_iff.mp taken
        exact sameCall_update fun same => absurd (same ▸ rfl) (other op)
      · cases taken
  | timer => exact sameCall_timer taken j
  | stopTimer =>
      cases taken
      exact .refl _
  | wakeDevice i =>
      rw [exec] at taken
      split at taken <;> cases taken
      exact sameCall_update (by rintro rfl; exact sameCall_wake _)
  | wakeTimer =>
      rw [exec] at taken
      split at taken <;> cases taken
      exact .refl _

theorem nextSlot_step {d d' : Device} (taken : d.step .nextSlot = some d') (stays : leaves d.loc = false) :
    leaves d'.loc = false ∧ d'.begun = if d.loc = .outside then d.begun + 1 else d.begun := by
  cases here : d.loc <;> rw [here] at stays <;>
    simp only [Device.step, here, Option.map_eq_some_iff, acquire_eq_some, reduceCtorEq] at taken
  case nextTest =>
    split at taken <;> cases taken <;> exact ⟨rfl, rfl⟩
  case nextLockEvent | nextLockTimer | nextWoken =>
    obtain ⟨_, _, rfl⟩ := taken
    exact ⟨rfl, rfl⟩
  case outside | nextSetDone | nextSignal | nextUnlockEvent | nextUnlockTimer =>
    cases taken
    exact ⟨rfl, rfl⟩
  all_goals cases stays

/-! ## The loader -/

/-- The calls of `nextSlot` that the loader has begun, at each place of `ldRoutine`. They are the number of the slot
while it is outside. -/
def Os.Paced (config : Config) (s : Os) : Prop :=
  let device := s.slots.devices 0
  match s.loc with
  | .head => device.loc = .outside ∧ s.i ≤ config.numProcesses ∧ device.begun = config.ready s.i
  | .wait =>
      device.loc = .outside ∧ s.i < config.numProcesses ∧ s.proc = s.i ∧
        config.ready s.i ≤ device.begun ∧ device.begun ≤ config.loadTime s.i
  | .waitCall =>
      device.loc = .outside ∧ s.i < config.numProcesses ∧ s.proc = s.i ∧
        config.ready s.i ≤ device.begun ∧ device.begun < config.loadTime s.i
  | .waitSlot =>
      leaves device.loc = false ∧ s.i < config.numProcesses ∧ s.proc = s.i ∧
        config.ready s.i ≤ device.begun ∧ device.begun ≤ config.loadTime s.i
  | .addProc =>
      device.loc = .outside ∧ s.i < config.numProcesses ∧ s.proc = s.i ∧ device.begun = config.loadTime s.i
  | .addCall => device.loc = .outside ∧ s.i ≤ config.numProcesses ∧ device.begun + 1 = config.ready s.i
  | .addSlot => leaves device.loc = false ∧ s.i ≤ config.numProcesses ∧ device.begun = config.ready s.i
  | .setDone | .detachCall => device.loc = .outside ∧ s.i = config.numProcesses
  | .detached => s.i = config.numProcesses

structure Os.Loads (config : Config) (s : Os) : Prop where
  synced : s.slots.Synced config.devices
  paced : s.Paced config
  added : s.added = (List.range s.i).map fun i => (i, config.loadTime i)
  done : s.done = true → s.loc = .detachCall ∨ s.loc = .detached

section Loader

variable {config : Config} {s s' : Os}

theorem stepped_of_exec {slots : State} {op : Op}
    (moves : exec config.devices s.slots (.device 0 op) = some slots) :
    (s.slots.devices 0).step op = some (slots.devices 0) := by
  rw [exec, if_pos config.devices_pos] at moves
  obtain ⟨d', stepped, rfl⟩ := Option.map_eq_some_iff.mp moves
  simpa [State.setDevice] using stepped

theorem Os.Paced.inCall {slots : State} (paced : s.Paced config) (away : (s.slots.devices 0).loc ≠ .outside)
    (moves : exec config.devices s.slots (.device 0 .nextSlot) = some slots) :
    Os.Paced config { s with slots } := by
  cases here : s.loc <;> simp only [Os.Paced, here] at paced ⊢
  case waitSlot | addSlot =>
    obtain ⟨stays, rest⟩ := paced
    obtain ⟨stays', begun⟩ := nextSlot_step (stepped_of_exec moves) stays
    rw [if_neg away] at begun
    rw [begun]
    exact ⟨stays', rest⟩
  case detached => exact paced
  all_goals exact absurd paced.1 away

/-- A call of `nextSlot` begins with the step that counts it. -/
theorem Os.Paced.call {op : Op} {loc : LoaderLoc} {slots : State} (paced : s.Paced config)
    (outside : (s.slots.devices 0).loc = .outside) (calls : Calls s.loc op loc)
    (moves : exec config.devices s.slots (.device 0 op) = some slots) :
    Os.Paced config { s with slots, loc } := by
  have stepped := stepped_of_exec moves
  generalize at_call : s.loc = before at calls
  cases calls with
  | wait =>
      simp only [Os.Paced, at_call] at paced
      obtain ⟨_, more, proc, low, high⟩ := paced
      obtain ⟨stays, begun⟩ := nextSlot_step stepped (outside ▸ rfl)
      rw [if_pos outside] at begun
      exact ⟨stays, more, proc, by dsimp only; omega, by dsimp only; omega⟩
  | add =>
      simp only [Os.Paced, at_call] at paced
      obtain ⟨_, within, ready⟩ := paced
      obtain ⟨stays, begun⟩ := nextSlot_step stepped (outside ▸ rfl)
      rw [if_pos outside] at begun
      exact ⟨stays, within, begun.trans ready⟩
  | detach =>
      simp only [Os.Paced, at_call] at paced
      exact paced.2

theorem Os.Paced.loader (paced : s.Paced config)
    (time : (s.slots.devices 0).loc = .outside → (s.slots.devices 0).begun = s.slots.time)
    (step : LdStep config s s') : s'.Paced config := by
  cases step with
  | inCall away moves => exact paced.inCall away moves
  | load outside here more =>
      simp only [Os.Paced, here] at paced
      obtain ⟨_, _, begun⟩ := paced
      exact ⟨outside, more, rfl, begun.ge, begun.le.trans (config.ready_le_loadTime s.i)⟩
  | loaded outside here none =>
      simp only [Os.Paced, here] at paced
      exact ⟨outside, by dsimp only; omega⟩
  | early outside here early =>
      simp only [Os.Paced, here] at paced
      obtain ⟨_, more, proc, low, high⟩ := paced
      rw [currentTime, ← time outside, Config.early_iff low high] at early
      exact ⟨outside, more, proc, low, early⟩
  | due outside here late =>
      simp only [Os.Paced, here] at paced
      obtain ⟨_, more, proc, low, high⟩ := paced
      rw [currentTime, ← time outside, Config.early_iff low high] at late
      exact ⟨outside, more, proc, Nat.le_antisymm high (Nat.le_of_not_lt late)⟩
  | call outside calls moves => exact paced.call outside calls moves
  | returned outside returns =>
      generalize at_return : s.loc = before at returns
      cases returns <;> simp only [Os.Paced, at_return] at paced <;> exact ⟨outside, paced.2⟩
  | addProc outside here =>
      simp only [Os.Paced, here] at paced
      obtain ⟨_, more, _, begun⟩ := paced
      exact ⟨outside, more, congrArg (· + 1) begun⟩
  | setDone outside here =>
      simp only [Os.Paced, here] at paced
      exact ⟨outside, paced.2⟩

theorem Os.Paced.other {slots : State} (paced : s.Paced config)
    (same : SameCall (s.slots.devices 0) (slots.devices 0)) : Os.Paced config { s with slots } := by
  obtain ⟨begun, outside, leaves⟩ := same
  cases here : s.loc <;> simp only [Os.Paced, here] at paced ⊢
  case detached => exact paced
  all_goals
    simp only [begun, outside, leaves]
    exact paced

theorem LdStep.synced (synced : s.slots.Synced config.devices) (step : LdStep config s s') :
    s'.slots.Synced config.devices := by
  cases step with
  | inCall _ moves | call _ _ moves => exact synced.exec moves
  | load | loaded | early | due | returned | addProc | setDone => exact synced

theorem Os.Loads.loader (loads : s.Loads config) (step : LdStep config s s') : s'.Loads config := by
  have time := fun outside => (loads.synced.barrier.atWork 0 config.devices_pos outside).1
  refine ⟨step.synced loads.synced, loads.paced.loader time step, ?_, ?_⟩
  · cases step with
    | addProc outside here =>
        have paced := loads.paced
        simp only [Os.Paced, here] at paced
        obtain ⟨_, _, proc, begun⟩ := paced
        have slot : s.slots.time = config.loadTime s.i := (time outside).symm.trans begun
        dsimp only
        rw [loads.added, List.range_succ, List.map_append, proc, slot]
        rfl
    | inCall | load | loaded | early | due | call | returned | setDone => exact loads.added
  · intro ended
    cases step with
    | inCall => exact loads.done ended
    | setDone => exact .inl rfl
    | call _ calls =>
        rcases loads.done ended with here | here <;> rw [here] at calls <;> cases calls
        exact .inr rfl
    | returned _ returns => rcases loads.done ended with here | here <;> rw [here] at returns <;> cases returns
    | load _ at_loc | loaded _ at_loc | early _ at_loc | due _ at_loc | addProc _ at_loc =>
        rcases loads.done ended with here | here <;> rw [here] at at_loc <;> cases at_loc

theorem Os.Loads.exec {l : OsLabel} (loads : s.Loads config) (taken : execOs config s l = some s') :
    s'.Loads config := by
  have moved : ∀ l : Label, (∀ op, l ≠ .device 0 op) →
      (Timer.exec config.devices s.slots l).map (fun slots => { s with slots }) = some s' →
      s'.Loads config := by
    intro l other taken
    obtain ⟨slots, moves, rfl⟩ := Option.map_eq_some_iff.mp taken
    exact ⟨loads.synced.exec moves, loads.paced.other (sameCall_exec moves other), loads.added, loads.done⟩
  cases l with
  | loader => exact loads.loader (ldRoutine_cases taken)
  | other l =>
      cases l with
      | device j op =>
          cases j with
          | zero => cases taken
          | succ j => exact moved (.device (j + 1) op) (by simp) taken
      | timer => exact moved .timer (by simp) taken
      | stopTimer => exact moved .stopTimer (by simp) taken
      | wakeDevice j => exact moved (.wakeDevice j) (by simp) taken
      | wakeTimer => exact moved .wakeTimer (by simp) taken

end Loader

theorem start_loads (config : Config) : start.Loads config where
  synced := startTimer_synced _
  paced := ⟨rfl, Nat.zero_le _, rfl⟩
  added := rfl
  done := nofun

theorem reachable_loads {config : Config} {s : Os}
    (reachable : Reach (StepOs config) (fun _ _ => True) (· = start) s) : s.Loads config := by
  refine reachable.invariant ?_ ?_
  · rintro s rfl
    exact start_loads config
  · intro s l s' loads _ taken
    exact loads.exec taken

structure Os.InTime (config : Config) (s : Os) : Prop where
  inOrder : s.added.map Prod.fst = List.range s.added.length
  within : s.added.length ≤ config.numProcesses
  first : ∀ slot, (0, slot) ∈ s.added → slot = (config.startTime 0).toNat
  next : ∀ i slot slot', (i, slot) ∈ s.added → (i + 1, slot') ∈ s.added →
    slot' = firstFrom (config.startTime (i + 1)) (slot + 1) ∧
      (slot + 1 < 2 ^ 64 → slot' = max (config.startTime (i + 1)).toNat (slot + 1))
  started : ∀ i slot, (i, slot) ∈ s.added → (config.startTime i).toNat ≤ slot
  onePerSlot : (s.added.map Prod.snd).Pairwise (· < ·)
  noneLate : ∀ i < config.numProcesses, config.loadTime i < s.slots.time →
    (i, config.loadTime i) ∈ s.added
  done : s.done = true → s.added.length = config.numProcesses

section Loads

variable {config : Config} {s : Os}

theorem Os.Loads.member (loads : s.Loads config) {i slot : Nat} :
    (i, slot) ∈ s.added ↔ i < s.i ∧ slot = config.loadTime i := by
  rw [loads.added]
  constructor
  · intro member
    obtain ⟨k, inside, same⟩ := List.mem_map.mp member
    cases same
    exact ⟨List.mem_range.mp inside, rfl⟩
  · rintro ⟨inside, rfl⟩
    exact List.mem_map.mpr ⟨i, List.mem_range.mpr inside, rfl⟩

theorem Os.Loads.length (loads : s.Loads config) : s.added.length = s.i := by
  rw [loads.added, List.length_map, List.length_range]

theorem Os.Loads.within (loads : s.Loads config) : s.i ≤ config.numProcesses := by
  have paced := loads.paced
  cases here : s.loc <;> simp only [Os.Paced, here] at paced
  case head | addCall | addSlot => exact paced.2.1
  case setDone | detachCall => exact paced.2.le
  case detached => exact paced.le
  all_goals exact paced.2.1.le

/-- The slot in which the next process is due is not over. -/
theorem Os.Loads.time_le (loads : s.Loads config) (more : s.i < config.numProcesses) :
    s.slots.time ≤ config.loadTime s.i := by
  have paced := loads.paced
  have ready := config.ready_le_loadTime s.i
  have begun : leaves (s.slots.devices 0).loc = false → s.slots.time ≤ (s.slots.devices 0).begun := by
    intro stays
    have staying : (s.slots.devices 0).loc ≠ .detached := by
      intro gone
      rw [gone] at stays
      cases stays
    rcases loads.synced.barrier.begun 0 config.devices_pos staying with same | ahead
    · exact same.ge
    · omega
  cases here : s.loc <;> simp only [Os.Paced, here] at paced
  case waitSlot =>
    obtain ⟨stays, _, _, _, high⟩ := paced
    exact (begun stays).trans high
  case addSlot =>
    obtain ⟨stays, _, atReady⟩ := paced
    have now := begun stays
    omega
  case setDone | detachCall | detached => omega
  all_goals
    have now := begun (paced.1 ▸ rfl)
    omega

theorem Os.Loads.inTime (loads : s.Loads config) : s.InTime config where
  inOrder := by
    rw [loads.length, loads.added, List.map_map]
    exact List.map_id _
  within := loads.length ▸ loads.within
  first := by
    intro slot member
    rw [(loads.member.mp member).2]
    exact (firstFrom_of_lt (by decide)).trans (Nat.max_zero _)
  next := by
    intro i slot slot' member member'
    obtain ⟨_, rfl⟩ := loads.member.mp member
    obtain ⟨_, rfl⟩ := loads.member.mp member'
    exact ⟨rfl, firstFrom_of_lt⟩
  started := by
    intro i slot member
    rw [(loads.member.mp member).2, config.loadTime_eq]
    exact start_le_firstFrom
  onePerSlot := by
    rw [loads.added, List.map_map]
    exact List.Pairwise.map _ (fun _ _ before => Config.loadTime_strictMono before) List.pairwise_lt_range
  noneLate := by
    intro i inside gone
    refine loads.member.mpr ⟨?_, rfl⟩
    by_contra missing
    have passed : s.i ≤ i := Nat.le_of_not_lt missing
    have due : config.loadTime s.i ≤ config.loadTime i := Config.loadTime_strictMono.monotone passed
    have notOver := loads.time_le (passed.trans_lt inside)
    omega
  done := by
    intro ended
    have paced := loads.paced
    rw [loads.length]
    rcases loads.done ended with here | here <;> simp only [Os.Paced, here] at paced
    · exact paced.2
    · exact paced

end Loads

/-- In every reachable state the processes that were added are the first ones of the configuration, each in the first
slot after the one of the process before it in which the counter has reached its start time. -/
theorem ldRoutine_inTime {config : Config} {s : Os}
    (reachable : Reach (StepOs config) (fun _ _ => True) (· = start) s) : s.InTime config :=
  (reachable_loads reachable).inTime

def atOnce : Config := { numCpus := 1, numProcesses := 1, startTime := fun _ => 0 }

theorem atOnce_inTime :
    ∃ s, (List.replicate 3 OsLabel.loader).foldlM (execOs atOnce) start = some s ∧
      s.added = [(0, 0)] ∧ s.InTime atOnce := by
  obtain ⟨s, taken⟩ : ∃ s, (List.replicate 3 OsLabel.loader).foldlM (execOs atOnce) start = some s := ⟨_, rfl⟩
  have added : s.added = [(0, 0)] := by
    have same := congrArg (Option.map Os.added) taken
    exact (Option.some.inj same).symm
  exact ⟨s, taken, added, ldRoutine_inTime (.foldlM (.start rfl) (fun _ _ _ => trivial) taken)⟩

/-! ## The counter wraps -/

/-- One CPU and two processes: the first one starts in the last slot before the counter wraps. -/
def lastSlot : Config :=
  { numCpus := 1, numProcesses := 2, startTime := fun i => if i = 0 then UInt64.ofNat (2 ^ 64 - 1) else 5 }

/-- The timer is at the head of its loop and both devices are outside, after `slot` slots. -/
def betweenSlots (slot event : Nat) : State :=
  { startTimer with
    devices := fun j => if j < 2 then { attachEvent with begun := slot, returned := slot } else attachEvent
    event, time := slot }

/-- The labels of one slot: the loader and the CPU call `nextSlot` and the timer counts the slot. -/
def oneSlot : List OsLabel :=
  List.replicate 5 .loader ++ List.replicate 5 (.other (.device 1 .nextSlot)) ++
    List.replicate 19 (.other .timer) ++
    List.replicate 3 .loader ++ List.replicate 3 (.other (.device 1 .nextSlot))

theorem oneSlot_taken {s : Os} {slot event : Nat} {after : LoaderLoc} (between : s.slots = betweenSlots slot event)
    (calls : s.loc = .waitCall ∧ after = .waitSlot ∨ s.loc = .addCall ∧ after = .addSlot) :
    oneSlot.foldlM (execOs lastSlot) s = some { s with slots := betweenSlots (slot + 1) 2, loc := after } := by
  obtain ⟨slots, loc, i, proc, added, done⟩ := s
  cases between
  obtain ⟨devices, taken, loader, cpu, rest⟩ : ∃ devices,
      oneSlot.foldlM (execOs lastSlot) ⟨betweenSlots slot event, loc, i, proc, added, done⟩ =
        some ⟨{ betweenSlots (slot + 1) 2 with devices }, after, i, proc, added, done⟩ ∧
      devices 0 = (betweenSlots (slot + 1) 2).devices 0 ∧
      devices 1 = (betweenSlots (slot + 1) 2).devices 1 ∧ ∀ j, devices (j + 2) = attachEvent := by
    rcases calls with ⟨here, rfl⟩ | ⟨here, rfl⟩ <;> cases here <;> exact ⟨_, rfl, rfl, rfl, fun _ => rfl⟩
  have same : devices = (betweenSlots (slot + 1) 2).devices := by
    funext j
    match j with
    | 0 => exact loader
    | 1 => exact cpu
    | j + 2 => exact rest j
  rw [same] at taken
  exact taken

section Wraps

def Reached : Os → Prop := Reach (StepOs lastSlot) (fun _ _ => True) (· = start)

variable {s s' : Os} {slot event : Nat}

theorem Reached.loader (reached : Reached s) (taken : ldRoutine lastSlot s = some s') : Reached s' :=
  Reach.step reached trivial (l := .loader) taken

theorem Reached.oneSlot {after : LoaderLoc} (reached : Reached s) (between : s.slots = betweenSlots slot event)
    (calls : s.loc = .waitCall ∧ after = .waitSlot ∨ s.loc = .addCall ∧ after = .addSlot) :
    Reached { s with slots := betweenSlots (slot + 1) 2, loc := after } :=
  Reach.foldlM reached (fun _ _ _ => trivial) (oneSlot_taken between calls)

theorem Reached.waits {k : Nat} (reached : Reached s) (between : s.slots = betweenSlots slot event)
    (here : s.loc = .wait)
    (early : ∀ later, slot ≤ later → later < slot + k → UInt64.ofNat later < lastSlot.startTime s.i) :
    ∃ event, Reached { s with slots := betweenSlots (slot + k) event, loc := .wait } := by
  induction k with
  | zero =>
      refine ⟨event, ?_⟩
      rw [Nat.add_zero, ← between, ← here]
      exact reached
  | succ k ih =>
      obtain ⟨event, waiting⟩ := ih fun later low high => early later low (by omega)
      have called : Reached { s with slots := betweenSlots (slot + k) event, loc := .waitCall } :=
        waiting.loader (if_pos (early (slot + k) (by omega) (by omega)))
      exact ⟨2, (called.oneSlot rfl (.inl ⟨rfl, rfl⟩)).loader rfl⟩

theorem Reached.adds (reached : Reached { s with slots := betweenSlots slot event, loc := .wait })
    (due : ¬ UInt64.ofNat slot < lastSlot.startTime s.i) :
    Reached { s with
      slots := betweenSlots slot event, loc := .addCall, i := s.i + 1
      added := s.added ++ [(s.proc, slot)] } := by
  have found : Reached { s with slots := betweenSlots slot event, loc := .addProc } :=
    reached.loader (if_neg due)
  exact found.loader rfl

end Wraps

theorem startTimer_betweenSlots : startTimer = betweenSlots 0 0 := by
  have same : startTimer.devices = (betweenSlots 0 0).devices := by
    funext j
    dsimp only [startTimer, betweenSlots]
    split <;> rfl
  exact congrArg (fun devices => { startTimer with devices }) same

theorem lastSlot_added : ∃ s, Reached s ∧ s.added = [(0, 2 ^ 64 - 1), (1, 2 ^ 64 + 5)] := by
  have started : Reached { start with slots := betweenSlots 0 0, loc := .wait } := by
    rw [← startTimer_betweenSlots]
    exact Reached.loader (.start rfl) rfl
  have early : ∀ later, 0 ≤ later → later < 0 + (2 ^ 64 - 1) →
      UInt64.ofNat later < lastSlot.startTime 0 := by
    intro later _ before
    have last : (lastSlot.startTime 0).toNat = 2 ^ 64 - 1 := rfl
    rw [UInt64.lt_iff_toNat_lt, UInt64.toNat_ofNat', last]
    omega
  obtain ⟨event, due⟩ := started.waits rfl rfl early
  rw [Nat.zero_add] at due
  have added : Reached
      { slots := betweenSlots (2 ^ 64 - 1) event, loc := .addCall, i := 1, proc := 0
        added := [(0, 2 ^ 64 - 1)], done := false } := due.adds (by decide)
  have second : Reached
      { slots := betweenSlots (2 ^ 64) 2, loc := .wait, i := 1, proc := 1
        added := [(0, 2 ^ 64 - 1)], done := false } :=
    ((added.oneSlot rfl (.inr ⟨rfl, rfl⟩)).loader rfl).loader rfl
  have wrapped : ∀ later, 2 ^ 64 ≤ later → later < 2 ^ 64 + 5 →
      UInt64.ofNat later < lastSlot.startTime 1 := by
    intro later after before
    have five : (lastSlot.startTime 1).toNat = 5 := rfl
    rw [UInt64.lt_iff_toNat_lt, UInt64.toNat_ofNat', five]
    omega
  obtain ⟨event, due⟩ := second.waits rfl rfl wrapped
  exact ⟨_, due.adds (by decide), rfl⟩

/-- The start times 2^64 - 1 and 5: the second process is not added in the slot after the one of the first. -/
theorem lastSlot_not_next :
    ¬ ∀ (config : Config) (s : Os), Reach (StepOs config) (fun _ _ => True) (· = start) s →
      ∀ i slot slot', (i, slot) ∈ s.added → (i + 1, slot') ∈ s.added →
        slot' = max (config.startTime (i + 1)).toNat (slot + 1) := by
  intro always
  obtain ⟨s, reached, added⟩ := lastSlot_added
  have next := always lastSlot s reached 0 (2 ^ 64 - 1) (2 ^ 64 + 5) (by simp [added]) (by simp [added])
  have five : (lastSlot.startTime 1).toNat = 5 := rfl
  rw [five] at next
  omega

end OsSim.Loading
