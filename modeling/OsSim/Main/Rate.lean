import OsSim.Main.Components

namespace OsSim.Main
open Transition

/-! ## The calls of `nextSlot` that a device has begun -/

theorem begun_of_away {d d' : Timer.Device} {op : Timer.Op} (away : d.loc ≠ .outside)
    (stepped : d.step op = some d') : d'.begun = d.begun := by
  cases here : d.loc <;>
    simp only [Timer.Device.step, here, Option.map_eq_some_iff, Timer.acquire_eq_some, reduceCtorEq] at stepped
  case outside => exact absurd here away
  case nextTest => split at stepped <;> cases stepped <;> rfl
  case nextLockEvent | nextLockTimer | nextWoken | detachLockEvent =>
    obtain ⟨_, _, rfl⟩ := stepped
    rfl
  all_goals
    cases stepped
    rfl

section Rate

variable {cfg : Sched.Config Paging.Inst} {s s' : State}

theorem begins_begun {slots slots' : Timer.State} {j : Nat} {place : Place}
    (outside : (slots.devices j).loc = .outside) (begun : begins cfg slots j place = some slots') :
    (slots.devices j).begun ≤ (slots'.devices j).begun ∧
      ((∃ since, place = .inSlot since) → (slots'.devices j).begun = (slots.devices j).begun + 1) := by
  cases place with
  | code =>
      cases begun
      exact ⟨le_rfl, by simp⟩
  | inSlot since =>
      have stepped := step_of_exec begun
      rw [Timer.Device.step, outside] at stepped
      rw [← Option.some.inj stepped]
      exact ⟨Nat.le_succ _, fun _ => rfl⟩
  | ended =>
      have stepped := step_of_exec begun
      rw [Timer.Device.step, outside] at stepped
      rw [← Option.some.inj stepped]
      exact ⟨le_rfl, by simp⟩

def begunBy (cfg : Sched.Config Paging.Inst) (slots : Timer.State) (id : Nat) : Nat :=
  (slots.devices (cpuDevice cfg id)).begun

def begun (cfg : Sched.Config Paging.Inst) (slots : Timer.State) : Nat :=
  ∑ id ∈ Finset.range cfg.numCpus, begunBy cfg slots id

def State.instructions (cfg : Sched.Config Paging.Inst) (s : State) : Nat :=
  ∑ p ∈ Finset.range cfg.numProcesses, s.os.pc p

/-- An instruction is executed by the step in which its CPU begins a call of `nextSlot`. -/
theorem cpuRoutine_pc {os os' : Sched.Os Paging.Inst} {id : Nat} (taken : Sched.cpuRoutine cfg os id = some os') :
    os'.pc = os.pc ∨ ∃ proc, (os.cpus id).proc = some proc ∧
      os'.pc = Function.update os.pc proc (os.pc proc + 1) ∧ cpuPlace (os'.cpus id).loc = .inSlot os.time := by
  cases Sched.cpuRoutine_cases taken with
  | @execute proc ins here holds =>
      refine .inr ⟨proc, holds, rfl, ?_⟩
      simp only [Sched.Os.setCpu, Function.update_self]
      rfl
  | idle | finished | slotEnds | goesOn | putProc | looks | got | nothing | turn | pastEnd | fetch | nextSlot =>
      exact .inl rfl

theorem ldRoutine_pc {os os' : Sched.Os Paging.Inst} (taken : Sched.ldRoutine cfg os = some os') :
    os'.pc = os.pc := by
  cases here : os.loader <;> simp only [Sched.ldRoutine, here, reduceCtorEq] at taken
  case waitSlot | addSlot =>
    split at taken <;> cases taken
    rfl
  all_goals
    cases taken
    rfl

theorem begun_kept {slots slots' : Timer.State}
    (same : ∀ id < cfg.numCpus, (slots'.devices (cpuDevice cfg id)).begun = (slots.devices (cpuDevice cfg id)).begun) :
    begun cfg slots' = begun cfg slots :=
  Finset.sum_congr rfl fun id member => same id (Finset.mem_range.mp member)

theorem begun_changed {slots slots' : Timer.State} {id : Nat} (inside : id < cfg.numCpus)
    (others : ∀ j, j ≠ cpuDevice cfg id → Loading.SameCall (slots.devices j) (slots'.devices j)) :
    begun cfg slots' + begunBy cfg slots id = begun cfg slots + begunBy cfg slots' id :=
  Sched.sum_changed inside fun other within different =>
    (others (cpuDevice cfg other) (cpuDevice_inj inside within different)).begun

theorem instructions_changed {os : Sched.Os Paging.Inst} {slots : Timer.State} {memory : Paging.System} {proc : Nat}
    (inside : proc < cfg.numProcesses) (pc : os.pc = Function.update s.os.pc proc (s.os.pc proc + 1)) :
    State.instructions cfg ⟨os, slots, memory⟩ = s.instructions cfg + 1 := by
  have others : ∀ p < cfg.numProcesses, p ≠ proc → os.pc p = s.os.pc p := by
    intro p _ different
    rw [pc, Function.update_of_ne different]
  have moved := Sched.sum_changed inside others
  have here : os.pc proc = s.os.pc proc + 1 := by rw [pc, Function.update_self]
  simp only [State.instructions]
  omega

theorem cpuCode_rate {id : Nat} {os : Sched.Os Paging.Inst} {slots : Timer.State} {memory : Paging.System}
    (custody : s.os.Custody cfg) (inside : id < cfg.numCpus)
    (outside : (s.slots.devices (cpuDevice cfg id)).loc = .outside)
    (taken : Sched.cpuRoutine cfg s.os id = some os)
    (call : begins cfg s.slots (cpuDevice cfg id) (cpuPlace (os.cpus id).loc) = some slots)
    (before : s.instructions cfg ≤ begun cfg s.slots) :
    State.instructions cfg ⟨os, slots, memory⟩ ≤ begun cfg slots := by
  have moved := begun_changed inside fun j other => sameCall_begins other call
  obtain ⟨more, counts⟩ := begins_begun outside call
  simp only [begunBy] at moved
  rcases cpuRoutine_pc taken with pc | ⟨proc, holds, pc, place⟩
  · have same : State.instructions cfg ⟨os, slots, memory⟩ = s.instructions cfg := by
      rw [State.instructions, pc, ← State.instructions]
    omega
  · have within : proc < cfg.numProcesses :=
      Nat.lt_of_lt_of_le (custody.in_hands inside holds).1 custody.loaded
    have one := counts ⟨_, place⟩
    rw [instructions_changed within pc]
    omega

theorem instructions_le_begun (prios : ∀ p < cfg.numProcesses, cfg.prio p < Sched.maxPrio)
    {ok : Sched.Os Paging.Inst → Sched.OsLabel → Prop}
    (reachable : Reach (State.Step cfg) (State.Allows ok) State.Start s) :
    s.instructions cfg ≤ begun cfg s.slots := by
  induction reachable with
  | @start s start =>
      rw [State.instructions, Finset.sum_eq_zero fun p _ => start.os.pc p]
      exact Nat.zero_le _
  | @step s s' l before _ taken ih =>
      have still : ∀ {l : Timer.Label} {slots : Timer.State}, Timer.exec (devices cfg) s.slots l = some slots →
          (∀ j op, l ≠ .device j op) → s.instructions cfg ≤ begun cfg slots := by
        intro l slots moves other
        rw [begun_kept fun id _ => (Loading.sameCall_exec moves (other _)).begun]
        exact ih
      cases taken.moves with
      | cpuCode inside outside routine call =>
          exact cpuCode_rate (Sched.reachable_custody prios (reachable_os before)) inside outside routine call ih
      | @cpuCall id g slots inside away moves =>
          have moved := begun_changed inside fun j other => sameCall_other other moves
          have same : begunBy cfg slots id = begunBy cfg s.slots id := begun_of_away away (step_of_exec moves)
          rw [State.instructions] at ih ⊢
          dsimp only
          omega
      | @ldCode os slots outside routine call =>
          rw [State.instructions, ldRoutine_pc routine, ← State.instructions]
          rw [begun_kept fun id inside => (sameCall_begins (cpuDevice_ne_loader inside) call).begun]
          exact ih
      | ldCall away moves =>
          rw [begun_kept fun id inside => (sameCall_other (cpuDevice_ne_loader inside) moves).begun]
          exact ih
      | timer moves | main _ moves | wakeDevice moves | wakeTimer moves => exact still moves nofun

/-- In the slot `T` a device has begun at most `T + 1` calls. -/
theorem reachable_begun_le {n : Nat} {ok : Timer.State → Timer.Label → Prop} {slots : Timer.State}
    (reachable : Reach (Timer.Step n) ok (· = Timer.startTimer) slots) :
    ∀ j < n, (slots.devices j).begun ≤ slots.time + 1 := by
  induction reachable with
  | start first =>
      subst first
      exact fun _ _ => Nat.zero_le _
  | @step slots slots' l before _ taken ih =>
      have synced := Timer.reachable_synced before
      have later : slots.time ≤ slots'.time := by
        by_cases same : slots'.time = slots.time
        · exact same.ge
        · rw [(Timer.time_eq_of_exec taken same).2]
          exact Nat.le_succ _
      intro j inside
      have bound := ih j inside
      by_cases mine : ∃ op, l = .device j op
      · obtain ⟨op, rfl⟩ := mine
        rw [Timer.Step, Timer.exec, if_pos inside] at taken
        obtain ⟨d', stepped, rfl⟩ := Option.map_eq_some_iff.mp taken
        dsimp only [Timer.State.setDevice]
        rw [Function.update_self]
        by_cases outside : (slots.devices j).loc = .outside
        · have atWork := (synced.barrier.atWork j inside outside).1
          cases op <;> simp only [Timer.Device.step, outside, Option.some.injEq] at stepped <;>
            rw [← stepped] <;> dsimp only <;> omega
        · rw [begun_of_away outside stepped]
          exact bound
      · rw [(Loading.sameCall_exec taken fun op same => mine ⟨op, same⟩).begun]
        omega

/-- In the slots 0 to `T` the CPUs execute at most one instruction each and slot. -/
theorem reachable_instructions_le (prios : ∀ p < cfg.numProcesses, cfg.prio p < Sched.maxPrio)
    (reachable : Reach (State.Step cfg) (State.Allows (Sched.Os.HasRoom cfg)) State.Start s) :
    ∑ p ∈ Finset.range cfg.numProcesses, s.os.pc p ≤ cfg.numCpus * (s.os.time + 1) := by
  have paced := reachable_begun_le (reachable_slots reachable)
  calc s.instructions cfg ≤ begun cfg s.slots := instructions_le_begun prios reachable
    _ ≤ ∑ _id ∈ Finset.range cfg.numCpus, (s.slots.time + 1) :=
        Finset.sum_le_sum fun id _ => paced (cpuDevice cfg id) cpuDevice_lt
    _ = cfg.numCpus * (s.os.time + 1) := by
        rw [Finset.sum_const_nat fun _ _ => rfl, Finset.card_range, (reachable_coupled reachable).time]

end Rate

theorem firstAlloc_instructions_le :
    ∑ p ∈ Finset.range oneWriter.numProcesses, firstAlloc.os.pc p ≤ oneWriter.numCpus * (firstAlloc.os.time + 1) :=
  reachable_instructions_le (fun _ _ => (by decide : 0 < Sched.maxPrio)) firstAlloc_reachable

end OsSim.Main
