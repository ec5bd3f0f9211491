import OsSim.Main.Memory

namespace OsSim.Main
open Transition

section Makespan

variable {cfg : Sched.Config Paging.Inst} {s : State}

/-- As `WellServed`, also for the searches of the CPUs that have had no process before. -/
def Steadily (cfg : Sched.Config Paging.Inst) (os : Sched.Os Paging.Inst) (l : Sched.OsLabel) : Prop :=
  os.HasRoom cfg l ∧ os.SeeksWell cfg l

theorem reachable_steady (reachable : Reach (State.Step cfg) (State.Allows (Steadily cfg)) State.Start s) :
    Reach (Sched.Os.Step cfg) (Sched.Os.Steady cfg) Sched.Os.Begins s.os := by
  refine (reachable_begins reachable).mono ?_
  rintro os l ⟨steadily, slotEnds⟩
  cases l with
  | tick =>
      refine ⟨fun _ none => ?_, slotEnds, fun _ seeks => seeks.elim, fun _ seeks => seeks.elim⟩
      exact absurd none (by simp [Sched.Os.enqueues])
  | cpu id =>
      obtain ⟨room, seeks⟩ := steadily (by simp)
      exact ⟨room, slotEnds, seeks⟩
  | loader =>
      obtain ⟨room, seeks⟩ := steadily (by simp)
      exact ⟨room, slotEnds, seeks⟩

/-- Past the slot that the configuration bounds, the memory is the result of the whole run, whether or not the
CPUs have stopped. -/
theorem reachable_completed (cpus : 0 < cfg.numCpus) (prios : ∀ p < cfg.numProcesses, cfg.prio p < Sched.maxPrio)
    (reachable : Reach (State.Step cfg) (State.Allows (Steadily cfg)) State.Start s)
    (past : Sched.lastLoad cfg + 1 + ∑ p ∈ Finset.range cfg.numProcesses, max 1 (cfg.text p).length < s.os.time) :
    ∃ boot labels, boot.Boot ∧ s.memory = run Paging.System.exec boot labels ∧
      (∀ l ∈ labels, l.p < cfg.numProcesses) ∧
      ∀ p < cfg.numProcesses, s.os.finished p = true ∧
        callsOf p labels = (cfg.text p).filterMap Paging.Inst.call := by
  have steady := reachable_steady reachable
  have custody := Sched.reachable_custody prios (reachable_os reachable)
  obtain ⟨boot, labels, made⟩ := reachable_made prios reachable
  refine ⟨boot, labels, made.first, made.memory, fun l member => ?_, fun p known => ?_⟩
  · exact Nat.lt_of_lt_of_le (made.loaded l member) custody.loaded
  · obtain ⟨finished, ended⟩ := Sched.reachable_makespan cpus prios steady known past
    refine ⟨finished, ?_⟩
    rw [made.calls p, (custody.executed p).2, ended, List.take_length]

end Makespan

section Decidable

instance (cfg : Sched.Config Paging.Inst) (os : Sched.Os Paging.Inst) (l : Sched.OsLabel) :
    Decidable (Steadily cfg os l) :=
  inferInstanceAs (Decidable (_ ∧ _))

end Decidable

/-- The CPU finds no process in the slot 0, executes one instruction in each of the next two and stops in the slot 3,
after which the timer ends the last slot. -/
def ranLate : State :=
  follow (State.exec oneWriter) (State.Allows (Steadily oneWriter)) startMain
    (cpuSteps 147 ++ List.replicate 9 .loader ++ List.replicate 22 .timer ++ cpuSteps 18 ++ List.replicate 10 .loader ++
      List.replicate 25 .timer ++ cpuSteps 19 ++ List.replicate 21 .timer ++ cpuSteps 150 ++ List.replicate 14 .timer)

theorem ranLate_completed :
    ∃ boot labels, boot.Boot ∧ ranLate.memory = run Paging.System.exec boot labels ∧
      (∀ l ∈ labels, l.p < oneWriter.numProcesses) ∧
      ∀ p < oneWriter.numProcesses, ranLate.os.finished p = true ∧
        callsOf p labels = (oneWriter.text p).filterMap Paging.Inst.call := by
  have reachable : Reach (State.Step oneWriter) (State.Allows (Steadily oneWriter)) State.Start ranLate :=
    .follow (fun _ _ => id) (.start startMain_start) _
  have time : ranLate.os.time = 4 := by decide +kernel
  refine reachable_completed (by decide) (fun _ _ => (by decide : 0 < Sched.maxPrio)) reachable ?_
  rw [time]
  decide

end OsSim.Main
