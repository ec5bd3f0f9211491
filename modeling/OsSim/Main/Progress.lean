import OsSim.Main.Components

namespace OsSim.Main
open Transition

/-! ## The code of a thread can go on -/

section Code

variable {cfg : Sched.Config Paging.Inst} {os os' : Sched.Os Paging.Inst}

def needsProc : Sched.CpuLoc Paging.Inst → Prop
  | .putProc | .fetch | .execute _ => True
  | _ => False

/-- A CPU that puts a process back or runs one has a process. -/
def Equipped (os : Sched.Os Paging.Inst) : Prop := ∀ id, needsProc (os.cpus id).loc → (os.cpus id).proc ≠ none

theorem Equipped.cpuRoutine {id : Nat} (equipped : Equipped os) (taken : Sched.cpuRoutine cfg os id = some os') :
    Equipped os' := by
  obtain ⟨_, _, others⟩ := cpuRoutine_kept taken
  have set : ∀ cpu, (os.setCpu id cpu).cpus id = cpu := fun cpu => by simp [Sched.Os.setCpu]
  intro other needs
  by_cases same : other = id
  · subst same
    cases Sched.cpuRoutine_cases taken with
    | slotEnds _ holds | turn _ holds | fetch _ holds =>
        rw [set]
        exact fun absent => Option.some_ne_none _ (holds.symm.trans absent)
    | got | nothing =>
        dsimp only at needs
        rw [set] at needs
        dsimp only at needs
        split at needs <;> exact needs.elim
    | idle | finished | goesOn | putProc | looks | pastEnd | execute | nextSlot =>
        dsimp only at needs
        rw [set] at needs
        exact needs.elim
  · rw [others other same] at needs ⊢
    exact equipped other needs

theorem reachable_equipped {ok : Sched.Os Paging.Inst → Sched.OsLabel → Prop}
    (reachable : Reach (Sched.Os.Step cfg) ok Sched.Os.Start os) : Equipped os := by
  refine reachable.invariant ?_ ?_
  · intro os start id needs
    rw [start.cpus id] at needs
    exact needs.elim
  · intro os l os' equipped _ taken
    cases l with
    | cpu id =>
        rw [Sched.Os.Step, Sched.Os.exec] at taken
        split at taken
        · exact equipped.cpuRoutine taken
        · cases taken
    | loader =>
        intro id needs
        rw [(ldRoutine_kept taken).2] at needs ⊢
        exact equipped id needs
    | tick =>
        cases taken
        exact equipped

theorem cpuRoutine_enabled (cfg : Sched.Config Paging.Inst) {id : Nat} (equipped : Equipped os)
    (runs : (os.cpus id).loc ≠ .stopped)
    (returned : ∀ since, (os.cpus id).loc = .nextSlot since → since < os.time) :
    ∃ os', Sched.cpuRoutine cfg os id = some os' := by
  have holds := equipped id
  rw [← Option.isSome_iff_exists, Sched.cpuRoutine]
  cases here : (os.cpus id).loc <;> simp only [here] at holds runs ⊢
  case top =>
    split
    · rfl
    · split
      · rfl
      · split <;> rfl
  case putProc | fetch | execute =>
    rw [Option.isSome_map, Option.isSome_iff_ne_none]
    exact holds trivial
  case getProc => split <;> rfl
  case recheck => split <;> rfl
  case nextSlot since =>
    rw [if_pos (returned since here)]
    rfl
  case stopped => exact absurd rfl runs

theorem ldRoutine_enabled (cfg : Sched.Config Paging.Inst) (runs : os.loader ≠ .finished)
    (returned : ∀ since, os.loader = .waitSlot since ∨ os.loader = .addSlot since → since < os.time) :
    ∃ os', Sched.ldRoutine cfg os = some os' := by
  cases here : os.loader <;> simp only [Sched.ldRoutine, here]
  case waitSlot since =>
    rw [if_pos (returned since (.inl here))]
    exact ⟨_, rfl⟩
  case addSlot since =>
    rw [if_pos (returned since (.inr here))]
    exact ⟨_, rfl⟩
  case finished => exact absurd here runs
  all_goals exact ⟨_, rfl⟩

end Code

section Progress

variable {cfg : Sched.Config Paging.Inst} {s : State}

theorem begins_enabled (cfg : Sched.Config Paging.Inst) {slots : Timer.State} {j : Nat} (inside : j < devices cfg)
    (outside : (slots.devices j).loc = .outside) (place : Place) :
    ∃ slots', begins cfg slots j place = some slots' := by
  cases place <;>
    simp only [begins, Place.call, Timer.exec, if_pos inside, Timer.deviceStep, Timer.Device.step, outside,
      Option.map_some]
  all_goals exact ⟨_, rfl⟩

theorem step_away {d : Timer.Device} (away : d.loc ≠ .outside) (op : Timer.Op) : d.step op = d.step .nextSlot := by
  cases here : d.loc <;> simp only [Timer.Device.step, here]
  exact absurd here away

/-- A thread that is back from `nextSlot` is in a later slot than its call. -/
theorem State.Coupled.returned (coupled : s.Coupled cfg) {j since : Nat} (inside : j < devices cfg)
    (outside : (s.slots.devices j).loc = .outside) (follows : (Place.inSlot since).Follows (s.slots.devices j)) :
    since < s.os.time := by
  have begun := (coupled.synced.barrier.atWork j inside outside).1
  rw [coupled.time, ← begun, ← follows.2]
  exact Nat.lt_succ_self since

theorem cpu_enabled (coupled : s.Coupled cfg) (equipped : Equipped s.os) {id : Nat} (inside : id < cfg.numCpus)
    (outside : (s.slots.devices (cpuDevice cfg id)).loc = .outside) (g : Paging.Garbage) :
    ∃ s', s.Step cfg (.cpu id g) s' := by
  have follows := coupled.cpus id inside
  have runs : (s.os.cpus id).loc ≠ .stopped := by
    intro stopped
    rw [stopped, cpuPlace, Place.Follows, outside] at follows
    cases follows
  have returned : ∀ since, (s.os.cpus id).loc = .nextSlot since → since < s.os.time := by
    intro since here
    rw [here] at follows
    exact coupled.returned cpuDevice_lt outside follows
  obtain ⟨os, taken⟩ := cpuRoutine_enabled cfg equipped runs returned
  obtain ⟨slots, begun⟩ := begins_enabled cfg cpuDevice_lt outside (cpuPlace (os.cpus id).loc)
  refine ⟨⟨os, slots, run Paging.System.exec s.memory (s.calls id g)⟩, ?_⟩
  rw [State.Step, State.exec, if_pos inside, cpuThread, if_pos outside, taken, Option.bind_some, begun]
  rfl

theorem loader_enabled (coupled : s.Coupled cfg) (outside : (s.slots.devices loaderDevice).loc = .outside) :
    ∃ s', s.Step cfg .loader s' := by
  have follows := coupled.loader
  have runs : s.os.loader ≠ .finished := by
    intro finished
    rw [finished, loaderPlace, Place.Follows, outside] at follows
    cases follows
  have returned : ∀ since, s.os.loader = .waitSlot since ∨ s.os.loader = .addSlot since → since < s.os.time := by
    rintro since (here | here) <;> rw [here] at follows <;>
      exact coupled.returned loaderDevice_lt outside follows
  obtain ⟨os, taken⟩ := ldRoutine_enabled cfg runs returned
  obtain ⟨slots, begun⟩ := begins_enabled cfg loaderDevice_lt outside (loaderPlace os.loader)
  refine ⟨{ s with os, slots }, ?_⟩
  rw [State.Step, State.exec, ldThread, if_pos outside, taken, Option.bind_some, begun]
  rfl

/-- A thread that can go on: a CPU, the loader or the timer, and not by a wake-up without a signal. -/
def State.GoesOn (cfg : Sched.Config Paging.Inst) (s : State) : Prop :=
  (∃ id g s', s.Step cfg (.cpu id g) s') ∨ (∃ s', s.Step cfg .loader s') ∨ ∃ s', s.Step cfg .timer s'

structure State.Ended (cfg : Sched.Config Paging.Inst) (s : State) : Prop where
  threads : ∀ j < devices cfg, (s.slots.devices j).loc = .detached
  timer : s.slots.timer = .left ∨ s.slots.timer = .stopped

theorem timer_goesOn (runs : ¬ s.slots.TimerBlocked (devices cfg)) : s.GoesOn cfg := by
  obtain ⟨slots, moves⟩ := Option.ne_none_iff_exists'.mp runs
  refine .inr (.inr ⟨{ s with slots, os := { s.os with time := slots.time } }, ?_⟩)
  rw [State.Step, State.exec, Timer.exec, moves, Option.map_some]

theorem device_goesOn (coupled : s.Coupled cfg) (equipped : Equipped s.os) {j : Nat} (inside : j < devices cfg)
    (runs : ¬ (s.slots.devices j).Blocked) : s.GoesOn cfg := by
  obtain ⟨op, stepped⟩ := not_forall.mp runs
  obtain ⟨d', stepped⟩ := Option.ne_none_iff_exists'.mp stepped
  have moves : (s.slots.devices j).loc ≠ .outside →
      ∃ slots, Timer.exec (devices cfg) s.slots (.device j .nextSlot) = some slots := by
    intro away
    rw [step_away away] at stepped
    exact ⟨_, by rw [Timer.exec, if_pos inside, Timer.deviceStep, stepped, Option.map_some]⟩
  cases j with
  | zero =>
      refine .inr (.inl ?_)
      by_cases outside : (s.slots.devices loaderDevice).loc = .outside
      · exact loader_enabled coupled outside
      · obtain ⟨slots, moves⟩ := moves outside
        refine ⟨{ s with slots }, ?_⟩
        rw [State.Step, State.exec, ldThread, if_neg outside, loaderDevice, moves, Option.map_some]
  | succ k =>
      have within : cfg.numCpus - (k + 1) < cfg.numCpus := by
        rw [devices] at inside
        omega
      have mine : cpuDevice cfg (cfg.numCpus - (k + 1)) = k + 1 := by
        rw [devices] at inside
        rw [cpuDevice]
        omega
      refine .inl ⟨cfg.numCpus - (k + 1), Paging.noGarbage, ?_⟩
      by_cases outside : (s.slots.devices (k + 1)).loc = .outside
      · exact cpu_enabled coupled equipped within (mine.symm ▸ outside) _
      · obtain ⟨slots, moves⟩ := moves outside
        refine ⟨{ s with slots }, ?_⟩
        rw [State.Step, State.exec, if_pos within, cpuThread, mine, if_neg outside, moves, Option.map_some]

theorem quiet_apart {d : Timer.Device} (quiet : d.loc ≠ .detached → d.Blocked) :
    d.loc.inEvent = false ∧ d.loc.inTimer = false := by
  by_cases gone : d.loc = .detached
  · rw [gone]
    exact ⟨rfl, rfl⟩
  · obtain ⟨event, timer, _⟩ := (quiet gone).outside gone
    exact ⟨event, timer⟩

/-- No wake-up is lost and no lock is kept: all threads are blocked only at the end. -/
theorem ended_of_stuck (synced : s.slots.Synced (devices cfg)) (wakesUp : s.slots.WakesUp)
    (endsLast : s.slots.EndsLast (devices cfg)) (stuck : s.slots.Stuck (devices cfg)) : s.Ended cfg := by
  obtain ⟨blocked, quiet⟩ := stuck
  rcases blocked.cases with ⟨j, waits⟩ | ⟨j, here, held⟩ | ⟨j, here, held⟩ | left | stopped
  · have inside := synced.tallied.within j (by rw [waits]; rfl)
    obtain ⟨staying, runs⟩ := synced.awaited wakesUp waits
    exact absurd (quiet j inside staying) runs
  · have inside : j < devices cfg := by
      rcases here with here | here <;> exact synced.tallied.within j (by rw [here]; rfl)
    have locked := synced.locked j
    have mine : (s.slots.devices j).loc.inEvent = true := by
      rcases here with here | here <;> rw [here] at locked <;>
        exact (locked.owner.1 held).resolve_right nofun
    rw [(quiet_apart (quiet j inside)).1] at mine
    cases mine
  · have inside := synced.tallied.within j (by rw [here]; rfl)
    have locked := synced.locked j
    rw [here] at locked
    have mine := (locked.owner.2 held).resolve_right nofun
    rw [(quiet_apart (quiet j inside)).2] at mine
    cases mine
  · exact ⟨synced.tallied.left left, .inl left⟩
  · exact ⟨endsLast.stop (endsLast.stopped stopped), .inr stopped⟩

/-- The whole program does not get stuck: unless all threads have ended, one of them can go on. -/
theorem reachable_progress {ok : State → Label → Prop} (reachable : Reach (State.Step cfg) ok State.Start s) :
    s.Ended cfg ∨ s.GoesOn cfg := by
  have coupled := reachable_coupled reachable
  have allowed : Reach (State.Step cfg) (State.Allows fun _ _ => True) State.Start s :=
    reachable.mono fun _ l _ => by cases l <;> trivial
  have equipped := reachable_equipped (reachable_os allowed)
  have slots := reachable_slots reachable
  by_cases stuck : s.slots.Stuck (devices cfg)
  · exact .inl (ended_of_stuck coupled.synced (Timer.reachable_wakesUp slots)
      (Timer.reachable_endsLast slots) stuck)
  · rw [Timer.State.Stuck, not_and_or] at stuck
    rcases stuck with runs | runs
    · exact .inr (timer_goesOn runs)
    · simp only [not_forall] at runs
      obtain ⟨j, inside, _, runs⟩ := runs
      exact .inr (device_goesOn coupled equipped inside runs)

end Progress

theorem firstAlloc_progress : firstAlloc.Ended oneWriter ∨ firstAlloc.GoesOn oneWriter :=
  reachable_progress firstAlloc_reachable

end OsSim.Main
