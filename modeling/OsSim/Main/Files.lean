import OsSim.Loader.Configuration
import OsSim.Main.Memory

namespace OsSim.Main
open Transition

/-! ## From the files to a run -/

/-- The calls of `load` in `ldRoutine`, the one for the process `i` with the `avail_pid` before it. -/
def loadAll (files : List Char → Option (List Char)) (uninit : Nat → Loader.Uninit) :
    (paths : List (List Char)) → (i : Nat) → UInt32 → Option (List Loader.Pcb)
  | [], _, _ => some []
  | path :: paths, i, availPid =>
      (Loader.load (files path) availPid (uninit i)).bind fun (proc, availPid) =>
        (loadAll files uninit paths (i + 1) availPid).map (proc :: ·)

/-- What the threads take from the variables of `os.c` and from the loaded processes. -/
structure Configures (config : Loader.Configuration) (procs : List Loader.Pcb) (cfg : Sched.Config Paging.Inst) :
    Prop where
  timeSlot : cfg.timeSlot = config.timeSlot.toInt
  numCpus : cfg.numCpus = config.numCpus.toInt.toNat
  numProcesses : cfg.numProcesses = config.numProcesses.toInt.toNat
  startTime : ∀ p < cfg.numProcesses, config.ldProcesses.startTime[p]?.map UInt64.toNat = some (cfg.startTime p)
  prio : ∀ p < cfg.numProcesses, config.ldProcesses.prio[p]?.map UInt64.toNat = some (cfg.prio p)
  text : ∀ p < cfg.numProcesses, procs[p]?.map (fun proc => proc.code.text) = some (cfg.text p)

/-- The program runs with the configuration file `text` and the program files `files`. -/
def Boots (text : List Char) (files : List Char → Option (List Char)) (cfg : Sched.Config Paging.Inst) : Prop :=
  ∃ configUninit uninit config procs, Loader.readConfig (some text) configUninit = some config ∧
    loadAll files uninit config.ldProcesses.path 0 1 = some procs ∧ Configures config procs cfg

end OsSim.Main

namespace OsSim.Loader
open Paging

/-- The call that a line asks for. -/
def Line.call : Line → Option Call
  | .«calc» => none
  | .alloc size reg => some (.alloc size.toNat reg.toNat)
  | .free reg => some (.free reg.toNat)
  | .read source offset _ => some (.read source.toNat offset.toNat)
  | .write data destination offset =>
      some (.write (BitVec.ofNat 8 data.toNat) destination.toNat offset.toNat)

theorem Holds.call {ins : Inst} {line : Line} (holds : Holds ins line) : ins.call = line.call := by
  obtain ⟨opcode, arg0, arg1, arg2⟩ := ins
  obtain ⟨same, args⟩ := holds
  dsimp only at same
  subst same
  cases line <;> simp_all [Inst.call, Line.call, Line.opcode, Line.args, instArgs, Inst.data]

theorem calls_of_holds {text : List Inst} {program : List Line} (all : List.Forall₂ Holds text program) :
    text.filterMap Inst.call = program.filterMap Line.call := by
  induction all with
  | nil => rfl
  | cons holds _ ih => rw [List.filterMap_cons, List.filterMap_cons, holds.call, ih]

end OsSim.Loader

namespace OsSim.Main
open Transition

/-- The program files of the jobs: `program` and `priority` by the name of the file. -/
structure Written (setup : Loader.Setup) (program : List Char → List Loader.Line) (priority : List Char → UInt32)
    (files : List Char → Option (List Char)) : Prop where
  text : ∀ job ∈ setup.jobs, files (Loader.inputProc ++ job.name) =
    some (Loader.writeProgram (priority job.name) (program job.name))
  short : ∀ job ∈ setup.jobs, (program job.name).length < 2 ^ 32

theorem loadAll_written {program : List Char → List Loader.Line} {priority : List Char → UInt32}
    {files : List Char → Option (List Char)} {jobs : List Loader.Job}
    (text : ∀ job ∈ jobs, files (Loader.inputProc ++ job.name) =
      some (Loader.writeProgram (priority job.name) (program job.name)))
    (short : ∀ job ∈ jobs, (program job.name).length < 2 ^ 32) (uninit : Nat → Loader.Uninit) (i : Nat)
    (availPid : UInt32) :
    ∃ procs, loadAll files uninit (jobs.map fun job => Loader.inputProc ++ job.name) i availPid = some procs ∧
      List.Forall₂ (fun proc job => List.Forall₂ Loader.Holds proc.code.text (program job.name)) procs jobs := by
  induction jobs generalizing i availPid with
  | nil => exact ⟨[], rfl, .nil⟩
  | cons job jobs ih =>
      obtain ⟨first, others⟩ := List.forall_mem_cons.mp text
      obtain ⟨fits, fit⟩ := List.forall_mem_cons.mp short
      obtain ⟨proc, loaded, holds⟩ : ∃ proc, Loader.load (files (Loader.inputProc ++ job.name)) availPid (uninit i) =
          some (proc, availPid + 1) ∧ List.Forall₂ Loader.Holds proc.code.text (program job.name) := by
        obtain ⟨text, loaded, holds⟩ :=
          Loader.load_take (priority job.name) (fits.trans (by decide)) availPid (uninit i)
        rw [Nat.mod_eq_of_lt fits, List.take_length] at holds
        exact ⟨_, first ▸ loaded, holds⟩
      obtain ⟨procs, rest, all⟩ := ih others fit (i + 1) (availPid + 1)
      refine ⟨proc :: procs, ?_, .cons holds all⟩
      rw [List.map_cons, loadAll, loaded, Option.bind_some]
      dsimp only
      rw [rest, Option.map_some]

section Run

variable {setup : Loader.Setup} {program : List Char → List Loader.Line} {priority : List Char → UInt32}
  {files : List Char → Option (List Char)} {cfg : Sched.Config Paging.Inst} {s : State}

theorem Boots.config (written : Written setup program priority files)
    (boots : Boots (Loader.writeConfig setup) files cfg) :
    cfg.numCpus = setup.numCpus.toInt.toNat ∧ cfg.numProcesses = setup.jobs.length ∧
      ∀ p job, setup.jobs[p]? = some job → cfg.prio p = job.prio.toNat ∧
        List.Forall₂ Loader.Holds (cfg.text p) (program job.name) := by
  obtain ⟨configUninit, uninit, config, procs, read, loaded, configures⟩ := boots
  rw [Loader.readConfig_spells (Loader.spells_writeConfig setup) configUninit, Option.some.injEq] at read
  subst read
  obtain ⟨procs', loaded', all⟩ := loadAll_written written.text written.short uninit 0 1
  have same : procs' = procs := Option.some.inj (loaded'.symm.trans loaded)
  subst same
  have count : cfg.numProcesses = setup.jobs.length :=
    configures.numProcesses.trans (Loader.numProcesses_eq setup.few)
  refine ⟨configures.numCpus, count, fun p job here => ?_⟩
  obtain ⟨inside, rfl⟩ := List.getElem?_eq_some_iff.mp here
  have inside' : p < procs'.length := all.length_eq ▸ inside
  have prio := configures.prio p (count ▸ inside)
  have text := configures.text p (count ▸ inside)
  simp only [Loader.Setup.configuration, List.getElem?_map, here, Option.map_some, Option.some.injEq] at prio
  rw [List.getElem?_eq_getElem inside', Option.map_some, Option.some.injEq] at text
  rw [← prio, ← text]
  exact ⟨rfl, all.get inside' inside⟩

/-- From the files to the memory: when all CPUs have stopped, the memory is what the calls in the program files that
the configuration names make of it, each file in its order and each call once. -/
theorem reachable_simulated (written : Written setup program priority files)
    (boots : Boots (Loader.writeConfig setup) files cfg) (cpus : 0 < setup.numCpus.toInt)
    (prios : ∀ job ∈ setup.jobs, job.prio.toNat < Sched.maxPrio)
    (reachable : Reach (State.Step cfg) (State.Allows (WellServed cfg)) State.Start s)
    (stopped : ∀ id < setup.numCpus.toInt.toNat, (s.os.cpus id).loc = .stopped) :
    ∃ boot labels, boot.Boot ∧ s.memory = run Paging.System.exec boot labels ∧
      (∀ l ∈ labels, l.p < setup.jobs.length) ∧
      ∀ p job, setup.jobs[p]? = some job → callsOf p labels = (program job.name).filterMap Loader.Line.call := by
  obtain ⟨numCpus, numProcesses, jobs⟩ := boots.config written
  have prios' : ∀ p < cfg.numProcesses, cfg.prio p < Sched.maxPrio := by
    intro p inside
    rw [numProcesses] at inside
    rw [(jobs p _ (List.getElem?_eq_getElem inside)).1]
    exact prios _ (List.getElem_mem inside)
  obtain ⟨boot, labels, made, all, executed⟩ :=
    reachable_complete (by omega) prios' reachable (numCpus ▸ stopped)
  refine ⟨boot, labels, made.first, made.memory, ?_, fun p job here => ?_⟩
  · intro l member
    rw [← numProcesses, ← all]
    exact made.loaded l member
  · obtain ⟨inside, _⟩ := List.getElem?_eq_some_iff.mp here
    rw [made.calls p, executed p (numProcesses ▸ inside), Loader.calls_of_holds (jobs p job here).2]

end Run

/-! ### One program file -/

def twoLines : List Loader.Line := [.alloc 20 0, .write 7 0 3]

def oneFile (path : List Char) : Option (List Char) :=
  if path = "input/proc/p0".toList then some "1 2\nalloc 20 0\nwrite 7 0 3\n".toList else none

theorem oneFile_written : Written Loader.oneJob (fun _ => twoLines) (fun _ => 1) oneFile where
  text := by
    intro job member
    rw [List.mem_singleton.mp member]
    decide
  short := fun _ _ => by decide

theorem oneFile_boots : Boots (Loader.writeConfig Loader.oneJob) oneFile oneWriter := by
  refine ⟨⟨fun _ => 0, fun _ => 0, fun _ => []⟩, fun _ => Loader.zeroes, Loader.oneJob.configuration, _,
    Loader.readConfig_spells (Loader.spells_writeConfig Loader.oneJob) _, rfl, ?_⟩
  refine ⟨rfl, rfl, rfl, ?_, ?_, ?_⟩ <;> intro p inside <;> rw [Nat.lt_one_iff.mp inside] <;> decide

theorem complete_simulated :
    ∃ boot labels, boot.Boot ∧ complete.memory = run Paging.System.exec boot labels ∧
      (∀ l ∈ labels, l.p < Loader.oneJob.jobs.length) ∧
      ∀ p job, Loader.oneJob.jobs[p]? = some job → callsOf p labels = twoLines.filterMap Loader.Line.call := by
  have stopped : (complete.os.cpus 0).loc = .stopped := by decide +kernel
  have reachable : Reach (State.Step oneWriter) (State.Allows (WellServed oneWriter)) State.Start complete :=
    .follow (fun _ _ => id) (.start startMain_start) _
  refine reachable_simulated oneFile_written oneFile_boots (by decide) ?_ reachable fun id inside => ?_
  · intro job member
    rw [List.mem_singleton.mp member]
    decide
  · rw [Nat.lt_one_iff.mp inside]
    exact stopped

end OsSim.Main
