import OsSim.Main.Threads
import OsSim.Sched.Stopping
import OsSim.Timer.Loading
import OsSim.Timer.Progress

namespace OsSim.Main
open Transition

/-! ## Where a thread and its device are -/

/-- In `nextSlot` the device has begun the call of the slot `since`, the last one. -/
def Place.Follows (device : Timer.Device) : Place → Prop
  | .code => device.loc = .outside
  | .inSlot since => Loading.leaves device.loc = false ∧ since + 1 = device.begun
  | .ended => Loading.leaves device.loc = true

section Device

variable {cfg : Sched.Config Paging.Inst} {slots slots' : Timer.State} {place : Place} {j : Nat}

theorem Place.Follows.same {d d' : Timer.Device} (follows : place.Follows d) (same : Loading.SameCall d d') :
    place.Follows d' := by
  obtain ⟨begun, outside, leaves⟩ := same
  cases place with
  | code => exact outside.mpr follows
  | inSlot since => exact ⟨leaves.trans follows.1, follows.2.trans begun.symm⟩
  | ended => exact leaves.trans follows

theorem leaves_step {d d' : Timer.Device} {op : Timer.Op} (taken : d.step op = some d')
    (left : Loading.leaves d.loc = true) : Loading.leaves d'.loc = true := by
  cases here : d.loc <;> rw [here] at left <;>
    simp only [Timer.Device.step, here, Option.map_eq_some_iff, reduceCtorEq] at taken
  case detachLockEvent =>
    obtain ⟨_, _, rfl⟩ := taken
    rfl
  case detachSetFsh | detachSignal | detachUnlockEvent =>
    cases taken
    rfl
  all_goals cases left

theorem step_of_exec {op : Timer.Op} (moves : Timer.exec (devices cfg) slots (.device j op) = some slots') :
    (slots.devices j).step op = some (slots'.devices j) := by
  rw [Timer.exec] at moves
  split at moves
  · obtain ⟨d', stepped, rfl⟩ := Option.map_eq_some_iff.mp moves
    simpa [Timer.State.setDevice] using stepped
  · cases moves

/-- A step inside a call leaves the thread where it is. -/
theorem Place.Follows.inCall (follows : place.Follows (slots.devices j))
    (away : (slots.devices j).loc ≠ .outside)
    (moves : Timer.exec (devices cfg) slots (.device j .nextSlot) = some slots') :
    place.Follows (slots'.devices j) := by
  have stepped := step_of_exec moves
  cases place with
  | code => exact absurd follows away
  | inSlot since =>
      obtain ⟨stays, begun⟩ := Loading.nextSlot_step stepped follows.1
      rw [if_neg away] at begun
      exact ⟨stays, follows.2.trans begun.symm⟩
  | ended => exact leaves_step stepped follows

/-- A thread that gets to its next place begins the call of this place. -/
theorem follows_begins (outside : (slots.devices j).loc = .outside)
    (since : ∀ since, place = .inSlot since → since = (slots.devices j).begun)
    (begun : begins cfg slots j place = some slots') : place.Follows (slots'.devices j) := by
  cases place with
  | code =>
      cases begun
      exact outside
  | inSlot since' =>
      obtain ⟨stays, counts⟩ := Loading.nextSlot_step (step_of_exec begun) (outside ▸ rfl)
      rw [if_pos outside] at counts
      exact ⟨stays, by rw [counts, since since' rfl]⟩
  | ended =>
      have stepped := step_of_exec begun
      rw [Timer.Device.step, outside] at stepped
      rw [Place.Follows, ← Option.some.inj stepped]
      rfl

/-- The call that a thread begins is its only step of the timer. -/
theorem begins_cases (begun : begins cfg slots j place = some slots') :
    slots' = slots ∨ ∃ op, Timer.exec (devices cfg) slots (.device j op) = some slots' := by
  rw [begins] at begun
  split at begun
  · cases begun
    exact .inl rfl
  · exact .inr ⟨_, begun⟩

/-- The timer alone counts the slots. -/
theorem quiet_time {n : Nat} {l : Timer.Label} (moves : Timer.exec n slots l = some slots') (quiet : l ≠ .timer) :
    slots'.time = slots.time := by
  cases l with
  | device i op =>
      rw [Timer.exec] at moves
      split at moves
      · obtain ⟨d', _, rfl⟩ := Option.map_eq_some_iff.mp moves
        rfl
      · cases moves
  | timer => exact absurd rfl quiet
  | stopTimer =>
      cases moves
      rfl
  | wakeDevice i =>
      rw [Timer.exec] at moves
      split at moves <;> cases moves
      rfl
  | wakeTimer =>
      rw [Timer.exec] at moves
      split at moves <;> cases moves
      rfl

theorem begins_time (begun : begins cfg slots j place = some slots') : slots'.time = slots.time := by
  rcases begins_cases begun with rfl | ⟨op, moves⟩
  · rfl
  · exact quiet_time moves nofun

theorem sameCall_other {i : Nat} {op : Timer.Op} (other : i ≠ j)
    (moves : Timer.exec (devices cfg) slots (.device j op) = some slots') :
    Loading.SameCall (slots.devices i) (slots'.devices i) := by
  refine Loading.sameCall_exec moves fun op' same => ?_
  cases same
  exact other rfl

theorem sameCall_begins {i : Nat} (other : i ≠ j) (begun : begins cfg slots j place = some slots') :
    Loading.SameCall (slots.devices i) (slots'.devices i) := by
  rcases begins_cases begun with rfl | ⟨op, moves⟩
  · exact .refl _
  · exact sameCall_other other moves

end Device

/-! ## What the code of a thread leaves alone -/

section Code

variable {cfg : Sched.Config Paging.Inst} {os os' : Sched.Os Paging.Inst}

theorem cpuRoutine_kept {id : Nat} (taken : Sched.cpuRoutine cfg os id = some os') :
    os'.time = os.time ∧ os'.loader = os.loader ∧ ∀ other, other ≠ id → os'.cpus other = os.cpus other := by
  have set : ∀ cpu other, other ≠ id → (os.setCpu id cpu).cpus other = os.cpus other :=
    fun cpu other different => Function.update_of_ne different _ _
  cases Sched.cpuRoutine_cases taken <;> exact ⟨rfl, rfl, set _⟩

/-- A CPU calls `nextSlot` in the slot it is in. -/
theorem cpuRoutine_place {id : Nat} (taken : Sched.cpuRoutine cfg os id = some os') (since : Nat)
    (place : cpuPlace (os'.cpus id).loc = .inSlot since) : since = os.time := by
  have set : ∀ cpu, (os.setCpu id cpu).cpus id = cpu := fun cpu => by simp [Sched.Os.setCpu]
  cases Sched.cpuRoutine_cases taken <;> dsimp only at place <;> rw [set] at place
  case got | nothing =>
    dsimp only at place
    split at place <;> cases place
    rfl
  case pastEnd | execute =>
    cases place
    rfl
  all_goals cases place

theorem ldRoutine_kept (taken : Sched.ldRoutine cfg os = some os') :
    os'.time = os.time ∧ os'.cpus = os.cpus := by
  cases here : os.loader <;> simp only [Sched.ldRoutine, here, reduceCtorEq] at taken
  case waitSlot | addSlot =>
    split at taken <;> cases taken
    exact ⟨rfl, rfl⟩
  all_goals
    cases taken
    exact ⟨rfl, rfl⟩

theorem ldRoutine_place (taken : Sched.ldRoutine cfg os = some os') (since : Nat)
    (place : loaderPlace os'.loader = .inSlot since) : since = os.time := by
  cases here : os.loader <;> simp only [Sched.ldRoutine, here, reduceCtorEq] at taken
  case head =>
    cases taken
    dsimp only at place
    split at place <;> cases place
  case wait =>
    cases taken
    dsimp only at place
    split at place <;> cases place
    rfl
  case waitSlot | addSlot =>
    split at taken <;> cases taken
    cases place
  case addProc =>
    cases taken
    cases place
    rfl
  case setDone =>
    cases taken
    cases place

end Code

/-! ## The invariant -/

section Coupled

variable {cfg : Sched.Config Paging.Inst} {s s' : State}

theorem cpuDevice_lt {id : Nat} : cpuDevice cfg id < devices cfg := Nat.lt_succ_of_le (Nat.sub_le _ _)

theorem cpuDevice_ne_loader {id : Nat} (inside : id < cfg.numCpus) : cpuDevice cfg id ≠ loaderDevice :=
  Nat.sub_ne_zero_of_lt inside

theorem cpuDevice_inj {id other : Nat} (inside : id < cfg.numCpus) (inside' : other < cfg.numCpus)
    (different : other ≠ id) : cpuDevice cfg other ≠ cpuDevice cfg id := by
  simp only [cpuDevice]
  omega

theorem loaderDevice_lt : loaderDevice < devices cfg := Nat.succ_pos _

structure State.Coupled (cfg : Sched.Config Paging.Inst) (s : State) : Prop where
  synced : s.slots.Synced (devices cfg)
  time : s.os.time = s.slots.time
  cpus : ∀ id < cfg.numCpus, (cpuPlace (s.os.cpus id).loc).Follows (s.slots.devices (cpuDevice cfg id))
  loader : (loaderPlace s.os.loader).Follows (s.slots.devices loaderDevice)

theorem State.Start.coupled (start : s.Start) : s.Coupled cfg := by
  obtain ⟨os, time, slots, _⟩ := start
  refine ⟨?_, ?_, ?_, ?_⟩
  · rw [slots]
    exact Timer.startTimer_synced _
  · rw [time, slots]
    rfl
  · intro id _
    rw [os.cpus id, slots]
    rfl
  · rw [os.loader, slots]
    rfl

/-- A step of none of the threads. -/
theorem State.Coupled.moved (coupled : s.Coupled cfg) {l : Timer.Label} {slots : Timer.State} {time : Nat}
    (moves : Timer.exec (devices cfg) s.slots l = some slots) (other : ∀ j op, l ≠ .device j op)
    (same : time = slots.time) : State.Coupled cfg { s with slots, os := { s.os with time } } where
  synced := coupled.synced.exec moves
  time := same
  cpus := fun id inside => (coupled.cpus id inside).same (Loading.sameCall_exec moves (other _))
  loader := coupled.loader.same (Loading.sameCall_exec moves (other _))

theorem State.Coupled.quiet (coupled : s.Coupled cfg) {l : Timer.Label} {slots : Timer.State}
    (moves : Timer.exec (devices cfg) s.slots l = some slots) (other : ∀ j op, l ≠ .device j op)
    (quiet : l ≠ .timer) : State.Coupled cfg { s with slots } :=
  coupled.moved moves other (coupled.time.trans (quiet_time moves quiet).symm)

theorem begins_synced {slots slots' : Timer.State} {j : Nat} {place : Place} (synced : slots.Synced (devices cfg))
    (begun : begins cfg slots j place = some slots') : slots'.Synced (devices cfg) := by
  rcases begins_cases begun with rfl | ⟨op, moves⟩
  · exact synced
  · exact synced.exec moves

theorem State.Coupled.step {l : Label} (coupled : s.Coupled cfg) (moves : Moves cfg s l s') : s'.Coupled cfg := by
  have ⟨synced, time, cpus, loader⟩ := coupled
  have atWork := synced.barrier.atWork
  cases moves with
  | @cpuCode id g os slots inside outside taken begun =>
      obtain ⟨time', loader', others⟩ := cpuRoutine_kept taken
      refine ⟨begins_synced synced begun, ?_, ?_, ?_⟩
      · exact time'.trans (time.trans (begins_time begun).symm)
      · intro other inside'
        by_cases same : other = id
        · subst same
          refine follows_begins outside (fun since place => ?_) begun
          rw [cpuRoutine_place taken since place, time, (atWork _ cpuDevice_lt outside).1]
        · dsimp only
          rw [others other same]
          exact (cpus other inside').same (sameCall_begins (cpuDevice_inj inside inside' same) begun)
      · dsimp only
        rw [loader']
        exact loader.same (sameCall_begins (cpuDevice_ne_loader inside).symm begun)
  | @cpuCall id g slots inside away moves =>
      refine ⟨synced.exec moves, time.trans (quiet_time moves nofun).symm, ?_, ?_⟩
      · intro other inside'
        by_cases same : other = id
        · subst same
          exact (cpus other inside').inCall away moves
        · exact (cpus other inside').same (sameCall_other (cpuDevice_inj inside inside' same) moves)
      · exact loader.same (sameCall_other (cpuDevice_ne_loader inside).symm moves)
  | @ldCode os slots outside taken begun =>
      obtain ⟨time', cpus'⟩ := ldRoutine_kept taken
      refine ⟨begins_synced synced begun, ?_, ?_, ?_⟩
      · exact time'.trans (time.trans (begins_time begun).symm)
      · intro id inside
        dsimp only
        rw [cpus']
        exact (cpus id inside).same (sameCall_begins (cpuDevice_ne_loader inside) begun)
      · refine follows_begins outside (fun since place => ?_) begun
        rw [ldRoutine_place taken since place, time, (atWork _ loaderDevice_lt outside).1]
  | @ldCall slots away moves =>
      refine ⟨synced.exec moves, time.trans (quiet_time moves nofun).symm, ?_, loader.inCall away moves⟩
      intro id inside
      exact (cpus id inside).same (sameCall_other (cpuDevice_ne_loader inside) moves)
  | timer moves => exact coupled.moved moves nofun rfl
  | main _ moves | wakeDevice moves | wakeTimer moves => exact coupled.quiet moves nofun nofun

theorem reachable_coupled {ok : State → Label → Prop} (reachable : Reach (State.Step cfg) ok State.Start s) :
    s.Coupled cfg := by
  refine reachable.invariant (fun s start => start.coupled) ?_
  intro s l s' coupled _ taken
  exact coupled.step taken.moves

end Coupled

end OsSim.Main
