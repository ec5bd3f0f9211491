import OsSim.Main.Components

namespace OsSim.Main
open Transition

section Memory

variable {cfg : Sched.Config Paging.Inst} {s s' : State}

/-! ## The calls of the processes -/

/-- A step of a CPU executes the next instruction of its process or calls nothing. -/
theorem cpuRoutine_calls {id : Nat} {g : Paging.Garbage} {os : Sched.Os Paging.Inst}
    (taken : Sched.cpuRoutine cfg s.os id = some os) :
    os.loaded = s.os.loaded ∧ (s.calls id g = [] ∧ os.executed = s.os.executed ∨
      ∃ proc ins, (s.os.cpus id).proc = some proc ∧
        s.calls id g = (ins.call.map fun call => ⟨proc, call, g⟩).toList ∧
        os.executed = Function.update s.os.executed proc (s.os.executed proc ++ [ins])) := by
  cases Sched.cpuRoutine_cases taken with
  | @execute proc ins here holds =>
      refine ⟨rfl, .inr ⟨proc, ins, holds, ?_, rfl⟩⟩
      rw [State.calls, here, holds]
  | idle here | finished here | slotEnds here | goesOn here | putProc here | looks here | got here | nothing here
  | turn here | pastEnd here | fetch here | nextSlot here =>
      refine ⟨rfl, .inl ⟨?_, rfl⟩⟩
      rw [State.calls, here]

theorem ldRoutine_loaded {os os' : Sched.Os Paging.Inst} (taken : Sched.ldRoutine cfg os = some os') :
    os'.executed = os.executed ∧ os.loaded ≤ os'.loaded := by
  cases here : os.loader <;> simp only [Sched.ldRoutine, here, reduceCtorEq] at taken
  case waitSlot | addSlot =>
    split at taken <;> cases taken
    exact ⟨rfl, le_rfl⟩
  case addProc =>
    cases taken
    exact ⟨rfl, Nat.le_succ _⟩
  all_goals
    cases taken
    exact ⟨rfl, le_rfl⟩

def callsOf (p : Nat) (labels : List Paging.Label) : List Paging.Call :=
  (labels.filter fun l => l.p = p).map Paging.Label.call

/-- `labels` are the calls of all processes in the order in which the CPUs made them. -/
structure State.Made (s : State) (boot : Paging.System) (labels : List Paging.Label) : Prop where
  first : boot.Boot
  memory : s.memory = run Paging.System.exec boot labels
  calls : ∀ p, callsOf p labels = (s.os.executed p).filterMap Paging.Inst.call
  loaded : ∀ l ∈ labels, l.p < s.os.loaded

theorem State.Made.kept {boot : Paging.System} {labels : List Paging.Label} (made : s.Made boot labels)
    (memory : s'.memory = s.memory) (executed : s'.os.executed = s.os.executed)
    (loaded : s.os.loaded ≤ s'.os.loaded) : s'.Made boot labels where
  first := made.first
  memory := memory.trans made.memory
  calls := fun p => by rw [executed, made.calls p]
  loaded := fun l member => Nat.lt_of_lt_of_le (made.loaded l member) loaded

theorem State.Made.execute {boot : Paging.System} {labels : List Paging.Label} (made : s.Made boot labels)
    {proc : Nat} {ins : Paging.Inst} {g : Paging.Garbage} {os : Sched.Os Paging.Inst} {slots : Timer.State}
    (loaded : proc < s.os.loaded) (same : os.loaded = s.os.loaded)
    (executed : os.executed = Function.update s.os.executed proc (s.os.executed proc ++ [ins])) :
    State.Made ⟨os, slots, run Paging.System.exec s.memory (ins.call.map fun call => ⟨proc, call, g⟩).toList⟩
      boot (labels ++ (ins.call.map fun call => ⟨proc, call, g⟩).toList) := by
  refine ⟨made.first, ?_, fun p => ?_, fun l member => ?_⟩
  · dsimp only
    rw [made.memory, run_append]
  · dsimp only
    rw [executed, callsOf, List.filter_append, List.map_append, ← callsOf, made.calls p]
    by_cases mine : p = proc
    · subst mine
      rw [Function.update_self, List.filterMap_append]
      cases calls : ins.call <;> simp [calls]
    · rw [Function.update_of_ne mine]
      cases calls : ins.call <;> simp [Ne.symm mine]
  · dsimp only
    rw [same]
    rcases List.mem_append.mp member with before | now
    · exact made.loaded l before
    · obtain ⟨call, _, rfl⟩ := Option.map_eq_some_iff.mp (Option.mem_toList.mp now)
      exact loaded

theorem reachable_made (prios : ∀ p < cfg.numProcesses, cfg.prio p < Sched.maxPrio)
    {ok : Sched.Os Paging.Inst → Sched.OsLabel → Prop}
    (reachable : Reach (State.Step cfg) (State.Allows ok) State.Start s) : ∃ boot labels, s.Made boot labels := by
  induction reachable with
  | @start s start =>
      exact ⟨s.memory, [], start.memory, rfl, fun p => by rw [start.os.executed p]; rfl, nofun⟩
  | @step s s' l before _ taken ih =>
      obtain ⟨boot, labels, made⟩ := ih
      have custody := Sched.reachable_custody prios (reachable_os before)
      cases taken.moves with
      | @cpuCode id g os slots inside outside routine begun =>
          obtain ⟨loaded, calls⟩ := cpuRoutine_calls (g := g) routine
          rcases calls with ⟨none, executed⟩ | ⟨proc, ins, holds, calls, executed⟩
          · exact ⟨boot, labels, made.kept (by rw [none]; rfl) executed loaded.ge⟩
          · rw [calls]
            exact ⟨boot, _, made.execute (custody.in_hands inside holds).1 loaded executed⟩
      | ldCode outside routine begun =>
          obtain ⟨executed, loaded⟩ := ldRoutine_loaded routine
          exact ⟨boot, labels, made.kept rfl executed loaded⟩
      | cpuCall | ldCall | timer | main | wakeDevice | wakeTimer =>
          exact ⟨boot, labels, made.kept rfl rfl le_rfl⟩

/-- The memory is what the calls of the loaded processes make of the one after boot, in some order that is the
program order for each process: the calls of the instructions before its `pc`, once each. -/
theorem reachable_programOrder (prios : ∀ p < cfg.numProcesses, cfg.prio p < Sched.maxPrio)
    (reachable : Reach (State.Step cfg) (State.Allows (Sched.Os.HasRoom cfg)) State.Start s) :
    ∃ boot labels, boot.Boot ∧ s.memory = run Paging.System.exec boot labels ∧
      (∀ l ∈ labels, l.p < s.os.loaded) ∧
      ∀ p, callsOf p labels = ((cfg.text p).take (s.os.pc p)).filterMap Paging.Inst.call := by
  obtain ⟨boot, labels, made⟩ := reachable_made prios reachable
  have custody := Sched.reachable_custody prios (reachable_os reachable)
  exact ⟨boot, labels, made.first, made.memory, made.loaded, fun p => by
    rw [made.calls p, (custody.executed p).2]⟩

theorem firstAlloc_programOrder :
    ∃ boot labels, boot.Boot ∧ firstAlloc.memory = run Paging.System.exec boot labels ∧
      (∀ l ∈ labels, l.p < firstAlloc.os.loaded) ∧ ∀ p, callsOf p labels =
        ((oneWriter.text p).take (firstAlloc.os.pc p)).filterMap Paging.Inst.call :=
  reachable_programOrder (fun _ _ => (by decide : 0 < Sched.maxPrio)) firstAlloc_reachable

/-! ## The end of a run -/

/-- A queue has room for what is put into it, and the searches after the last process was added go well. -/
def WellServed (cfg : Sched.Config Paging.Inst) (os : Sched.Os Paging.Inst) (l : Sched.OsLabel) : Prop :=
  os.HasRoom cfg l ∧ os.SearchesWell cfg l

theorem reachable_regular (reachable : Reach (State.Step cfg) (State.Allows (WellServed cfg)) State.Start s) :
    Reach (Sched.Os.Step cfg) (Sched.Os.Regular cfg) Sched.Os.Start s.os := by
  refine (reachable_os reachable).mono ?_
  rintro os l ⟨served, slotEnds⟩
  cases l with
  | tick =>
      refine ⟨fun _ none => ?_, slotEnds, fun _ searches => searches.elim, fun _ searches => searches.elim⟩
      exact absurd none (by simp [Sched.Os.enqueues])
  | cpu id =>
      obtain ⟨room, searches⟩ := served (by simp)
      exact ⟨room, slotEnds, searches⟩
  | loader =>
      obtain ⟨room, searches⟩ := served (by simp)
      exact ⟨room, slotEnds, searches⟩

theorem all_finished {os : Sched.Os Paging.Inst} (custody : os.Custody cfg) (watched : os.Watched cfg)
    (cpus : 0 < cfg.numCpus) (stopped : ∀ id < cfg.numCpus, (os.cpus id).loc = .stopped) :
    os.loaded = cfg.numProcesses ∧ ∀ p < os.loaded, os.pc p = (cfg.text p).length := by
  have ended := watched.done (watched.stopped 0 cpus (stopped 0 cpus))
  have late : os.Late cfg := ⟨watched.all (.inr ended), by rw [ended]; nofun⟩
  refine ⟨late.1, fun p added => ?_⟩
  obtain ⟨place, here⟩ := custody.place_exists added
  cases place with
  | queue prio pos =>
      obtain ⟨inside, entry⟩ := here
      obtain ⟨id, inside', watches⟩ := watched.watched late prio inside (Sched.nonempty_of_entry entry)
      rw [Sched.Cpu.Watches, stopped id inside'] at watches
      exact watches.elim
  | cpu id =>
      obtain ⟨inside, holds⟩ := here
      have controlled := custody.controlled id inside
      rw [Sched.Cpu.Controlled, stopped id inside] at controlled
      rw [show (os.cpus id).proc = none from controlled] at holds
      cases holds
  | finished => exact custody.finished p here

theorem reachable_complete (cpus : 0 < cfg.numCpus) (prios : ∀ p < cfg.numProcesses, cfg.prio p < Sched.maxPrio)
    (reachable : Reach (State.Step cfg) (State.Allows (WellServed cfg)) State.Start s)
    (stopped : ∀ id < cfg.numCpus, (s.os.cpus id).loc = .stopped) :
    ∃ boot labels, s.Made boot labels ∧ s.os.loaded = cfg.numProcesses ∧
      ∀ p < cfg.numProcesses, s.os.executed p = cfg.text p := by
  have regular := reachable_regular reachable
  have custody := Sched.reachable_custody prios regular
  obtain ⟨all, finished⟩ := all_finished custody (Sched.reachable_watched cpus prios regular) cpus stopped
  obtain ⟨boot, labels, made⟩ := reachable_made prios reachable
  refine ⟨boot, labels, made, all, fun p inside => ?_⟩
  rw [(custody.executed p).2, finished p (all ▸ inside), List.take_length]

/-- When all CPUs have stopped, the memory is what the complete programs make of it, each in its order. -/
theorem reachable_result (cpus : 0 < cfg.numCpus) (prios : ∀ p < cfg.numProcesses, cfg.prio p < Sched.maxPrio)
    (reachable : Reach (State.Step cfg) (State.Allows (WellServed cfg)) State.Start s)
    (stopped : ∀ id < cfg.numCpus, (s.os.cpus id).loc = .stopped) :
    ∃ boot labels, boot.Boot ∧ s.memory = run Paging.System.exec boot labels ∧
      (∀ l ∈ labels, l.p < cfg.numProcesses) ∧
      ∀ p < cfg.numProcesses, callsOf p labels = (cfg.text p).filterMap Paging.Inst.call := by
  obtain ⟨boot, labels, made, all, executed⟩ := reachable_complete cpus prios reachable stopped
  refine ⟨boot, labels, made.first, made.memory, fun l member => all ▸ made.loaded l member, fun p inside => ?_⟩
  rw [made.calls p, executed p inside]

end Memory

section Decidable

deriving instance DecidableEq for Paging.Inst

instance (cfg : Sched.Config Paging.Inst) (os : Sched.Os Paging.Inst) (l : Sched.OsLabel) :
    Decidable (WellServed cfg os l) :=
  inferInstanceAs (Decidable (_ ∧ _))

end Decidable

def cpuSteps (n : Nat) : List Label := List.replicate n (.cpu 0 Paging.noGarbage)

/-- The CPU executes one instruction in each of the first two slots, and stops in the third one. -/
def complete : State :=
  follow (State.exec oneWriter) (State.Allows (WellServed oneWriter)) startMain
    (List.replicate 9 .loader ++ cpuSteps 14 ++ List.replicate 19 .timer ++ List.replicate 10 .loader ++
      cpuSteps 17 ++ List.replicate 18 .timer ++ cpuSteps 147)

theorem complete_result :
    ∃ boot labels, boot.Boot ∧ complete.memory = run Paging.System.exec boot labels ∧
      (∀ l ∈ labels, l.p < oneWriter.numProcesses) ∧
      ∀ p < oneWriter.numProcesses, callsOf p labels = (oneWriter.text p).filterMap Paging.Inst.call := by
  have stopped : (complete.os.cpus 0).loc = .stopped := by decide +kernel
  have reachable : Reach (State.Step oneWriter) (State.Allows (WellServed oneWriter)) State.Start complete :=
    .follow (fun _ _ => id) (.start startMain_start) _
  refine reachable_result (by decide) (fun _ _ => (by decide : 0 < Sched.maxPrio)) reachable fun id inside => ?_
  rw [Nat.lt_one_iff.mp inside]
  exact stopped

end OsSim.Main
