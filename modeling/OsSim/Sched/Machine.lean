import OsSim.Lib.Transition
import OsSim.Sched.Mlq

namespace OsSim.Sched
open Transition

/-- What `read_config` and `load` read: the processes are numbered in the order in which they are loaded. -/
structure Config (ι : Type*) where
  timeSlot : Int
  numCpus : Nat
  numProcesses : Nat
  startTime : Nat → Nat
  prio : Nat → Nat
  text : Nat → List ι

inductive Branch
  | idle | finished | putBack
deriving DecidableEq

/-- Where a CPU is in `cpuRoutine`. In `nextSlot` it waits for the slot after `since`. -/
inductive CpuLoc (ι : Type*)
  | top
  | putProc
  | getProc (branch : Branch) (loc : GetLoc)
  | recheck
  | fetch
  | execute (ins : ι)
  | nextSlot (since : Nat)
  | stopped
deriving DecidableEq

structure Cpu (ι : Type*) where
  timeLeft : Int
  proc : Option Nat
  loc : CpuLoc ι

inductive LoaderLoc
  | head | wait | waitSlot (since : Nat) | addProc | addSlot (since : Nat) | setDone | finished
deriving DecidableEq

/-- `loaded` is the variable `i` of `ldRoutine`. A process whose structure is freed is `finished`; `executed` are
the instructions that were executed for a process. -/
structure Os (ι : Type*) where
  mlq : Mlq
  cpus : Nat → Cpu ι
  loader : LoaderLoc
  loaded : Nat
  done : Bool
  time : Nat
  pc : Nat → Nat
  finished : Nat → Bool
  executed : Nat → List ι

inductive OsLabel
  | cpu (id : Nat)
  | loader
  | tick
deriving DecidableEq

section Machine

variable {ι : Type*} (cfg : Config ι)

def Os.setCpu (s : Os ι) (id : Nat) (cpu : Cpu ι) : Os ι :=
  { s with cpus := Function.update s.cpus id cpu }

/-- One step of `cpuRoutine`; `none` where it waits for the next slot or has stopped. -/
def cpuRoutine (s : Os ι) (id : Nat) : Option (Os ι) :=
  let cpu := s.cpus id
  match cpu.loc with
  | .top =>
      match cpu.proc with
      | none => some (s.setCpu id { cpu with loc := .getProc .idle (.queueEmpty 0) })
      | some proc =>
          if s.pc proc = (cfg.text proc).length then
            some { s.setCpu id { cpu with proc := none, loc := .getProc .finished (.queueEmpty 0) } with
              finished := Function.update s.finished proc true }
          else if cpu.timeLeft = 0 then some (s.setCpu id { cpu with loc := .putProc })
          else some (s.setCpu id { cpu with loc := .recheck })
  | .putProc =>
      cpu.proc.map fun proc =>
        { s.setCpu id { cpu with proc := none, loc := .getProc .putBack (.queueEmpty 0) } with
          mlq := putMlqProc s.mlq proc (cfg.prio proc) }
  | .getProc branch loc =>
      let after := getMlqProc s.mlq loc
      match after.2 with
      | .next loc => some { s.setCpu id { cpu with loc := .getProc branch loc } with mlq := after.1 }
      | .got proc =>
          let timeLeft := if branch = .finished then 0 else cpu.timeLeft
          let loc := if branch = .idle ∧ proc = none then .nextSlot s.time else .recheck
          some { s.setCpu id { timeLeft, proc, loc } with mlq := after.1 }
  | .recheck =>
      match cpu.proc with
      | none => some (s.setCpu id { cpu with loc := if s.done then .stopped else .nextSlot s.time })
      | some _ =>
          let timeLeft := if cpu.timeLeft = 0 then cfg.timeSlot else cpu.timeLeft
          some (s.setCpu id { cpu with timeLeft, loc := .fetch })
  | .fetch =>
      cpu.proc.map fun proc =>
        match (cfg.text proc)[s.pc proc]? with
        | none => s.setCpu id { cpu with timeLeft := cpu.timeLeft - 1, loc := .nextSlot s.time }
        | some ins => s.setCpu id { cpu with loc := .execute ins }
  | .execute ins =>
      cpu.proc.map fun proc =>
        { s.setCpu id { cpu with timeLeft := cpu.timeLeft - 1, loc := .nextSlot s.time } with
          pc := Function.update s.pc proc (s.pc proc + 1)
          executed := Function.update s.executed proc (s.executed proc ++ [ins]) }
  | .nextSlot since => if since < s.time then some (s.setCpu id { cpu with loc := .top }) else none
  | .stopped => none

/-- The state after a step of `cpuRoutine`. -/
inductive CpuStep (s : Os ι) (id : Nat) : Os ι → Prop
  | idle (here : (s.cpus id).loc = .top) (holds : (s.cpus id).proc = none) :
      CpuStep s id (s.setCpu id { s.cpus id with loc := .getProc .idle (.queueEmpty 0) })
  | finished {proc : Nat} (here : (s.cpus id).loc = .top) (holds : (s.cpus id).proc = some proc)
      (ended : s.pc proc = (cfg.text proc).length) :
      CpuStep s id { s.setCpu id { s.cpus id with proc := none, loc := .getProc .finished (.queueEmpty 0) } with
        finished := Function.update s.finished proc true }
  | slotEnds {proc : Nat} (here : (s.cpus id).loc = .top) (holds : (s.cpus id).proc = some proc)
      (away : s.pc proc ≠ (cfg.text proc).length) (left : (s.cpus id).timeLeft = 0) :
      CpuStep s id (s.setCpu id { s.cpus id with loc := .putProc })
  | goesOn {proc : Nat} (here : (s.cpus id).loc = .top) (holds : (s.cpus id).proc = some proc)
      (away : s.pc proc ≠ (cfg.text proc).length) (left : (s.cpus id).timeLeft ≠ 0) :
      CpuStep s id (s.setCpu id { s.cpus id with loc := .recheck })
  | putProc {proc : Nat} (here : (s.cpus id).loc = .putProc) (holds : (s.cpus id).proc = some proc) :
      CpuStep s id { s.setCpu id { s.cpus id with proc := none, loc := .getProc .putBack (.queueEmpty 0) } with
        mlq := putMlqProc s.mlq proc (cfg.prio proc) }
  | looks {branch : Branch} {loc next : GetLoc} (here : (s.cpus id).loc = .getProc branch loc)
      (result : (getMlqProc s.mlq loc).2 = .next next) :
      CpuStep s id { s.setCpu id { s.cpus id with loc := .getProc branch next } with
        mlq := (getMlqProc s.mlq loc).1 }
  | got {branch : Branch} {loc : GetLoc} {proc : Option Nat} (here : (s.cpus id).loc = .getProc branch loc)
      (result : (getMlqProc s.mlq loc).2 = .got proc) :
      CpuStep s id { s.setCpu id {
          timeLeft := if branch = .finished then 0 else (s.cpus id).timeLeft, proc
          loc := if branch = .idle ∧ proc = none then .nextSlot s.time else .recheck } with
        mlq := (getMlqProc s.mlq loc).1 }
  | nothing (here : (s.cpus id).loc = .recheck) (holds : (s.cpus id).proc = none) :
      CpuStep s id (s.setCpu id { s.cpus id with loc := if s.done then .stopped else .nextSlot s.time })
  | turn {proc : Nat} (here : (s.cpus id).loc = .recheck) (holds : (s.cpus id).proc = some proc) :
      CpuStep s id (s.setCpu id { s.cpus id with
        timeLeft := if (s.cpus id).timeLeft = 0 then cfg.timeSlot else (s.cpus id).timeLeft, loc := .fetch })
  | pastEnd {proc : Nat} (here : (s.cpus id).loc = .fetch) (holds : (s.cpus id).proc = some proc)
      (fetched : (cfg.text proc)[s.pc proc]? = none) :
      CpuStep s id (s.setCpu id { s.cpus id with timeLeft := (s.cpus id).timeLeft - 1, loc := .nextSlot s.time })
  | fetch {proc : Nat} {ins : ι} (here : (s.cpus id).loc = .fetch) (holds : (s.cpus id).proc = some proc)
      (fetched : (cfg.text proc)[s.pc proc]? = some ins) :
      CpuStep s id (s.setCpu id { s.cpus id with loc := .execute ins })
  | execute {proc : Nat} {ins : ι} (here : (s.cpus id).loc = .execute ins) (holds : (s.cpus id).proc = some proc) :
      CpuStep s id { s.setCpu id { s.cpus id with timeLeft := (s.cpus id).timeLeft - 1, loc := .nextSlot s.time } with
        pc := Function.update s.pc proc (s.pc proc + 1)
        executed := Function.update s.executed proc (s.executed proc ++ [ins]) }
  | nextSlot {since : Nat} (here : (s.cpus id).loc = .nextSlot since) (passed : since < s.time) :
      CpuStep s id (s.setCpu id { s.cpus id with loc := .top })

theorem cpuRoutine_cases {cfg : Config ι} {s s' : Os ι} {id : Nat} (taken : cpuRoutine cfg s id = some s') :
    CpuStep cfg s id s' := by
  cases here : (s.cpus id).loc <;>
    simp only [cpuRoutine, here, Option.map_eq_some_iff, reduceCtorEq] at taken
  case top =>
    cases holds : (s.cpus id).proc with
    | none =>
        simp only [holds] at taken
        cases taken
        simpa only [holds] using CpuStep.idle here holds
    | some proc =>
        simp only [holds] at taken
        split at taken
        · next ended =>
          cases taken
          exact .finished here holds ended
        · next away =>
          split at taken
          · next left =>
            cases taken
            simpa only [holds] using CpuStep.slotEnds here holds away left
          · next left =>
            cases taken
            simpa only [holds] using CpuStep.goesOn here holds away left
  case putProc =>
    obtain ⟨proc, holds, rfl⟩ := taken
    exact .putProc here holds
  case getProc branch loc =>
    cases result : (getMlqProc s.mlq loc).2 with
    | next next =>
        simp only [result] at taken
        cases taken
        exact .looks here result
    | got proc =>
        simp only [result] at taken
        cases taken
        exact .got here result
  case recheck =>
    cases holds : (s.cpus id).proc with
    | none =>
        simp only [holds] at taken
        cases taken
        simpa only [holds] using CpuStep.nothing here holds
    | some proc =>
        simp only [holds] at taken
        cases taken
        simpa only [holds] using CpuStep.turn here holds
  case fetch =>
    obtain ⟨proc, holds, rfl⟩ := taken
    cases fetched : (cfg.text proc)[s.pc proc]? with
    | none => exact .pastEnd here holds fetched
    | some ins => exact .fetch here holds fetched
  case execute ins =>
    obtain ⟨proc, holds, rfl⟩ := taken
    exact .execute here holds
  case nextSlot since =>
    split at taken
    · next passed =>
      cases taken
      exact .nextSlot here passed
    · cases taken

def ldRoutine (s : Os ι) : Option (Os ι) :=
  match s.loader with
  | .head => some { s with loader := if s.loaded < cfg.numProcesses then .wait else .setDone }
  | .wait =>
      some { s with loader := if s.time < cfg.startTime s.loaded then .waitSlot s.time else .addProc }
  | .waitSlot since => if since < s.time then some { s with loader := .wait } else none
  | .addProc =>
      some { s with
        mlq := addMlqProc s.mlq s.loaded (cfg.prio s.loaded)
        loaded := s.loaded + 1
        loader := .addSlot s.time }
  | .addSlot since => if since < s.time then some { s with loader := .head } else none
  | .setDone => some { s with done := true, loader := .finished }
  | .finished => none

def Os.exec (s : Os ι) : OsLabel → Option (Os ι)
  | .cpu id => if id < cfg.numCpus then cpuRoutine cfg s id else none
  | .loader => ldRoutine cfg s
  | .tick => some { s with time := s.time + 1 }

def Os.Step (s : Os ι) (l : OsLabel) (s' : Os ι) : Prop := s.exec cfg l = some s'

/-- The state in which `main` starts the threads. -/
structure Os.Start (s : Os ι) : Prop where
  mlq : ∃ block, s.mlq = initScheduler block
  cpus : ∀ id, s.cpus id = ⟨0, none, .top⟩
  loader : s.loader = .head
  loaded : s.loaded = 0
  done : s.done = false
  pc : ∀ proc, s.pc proc = 0
  finished : ∀ proc, s.finished proc = false
  executed : ∀ proc, s.executed proc = []

def Os.enqueues (s : Os ι) : OsLabel → Option Nat
  | .cpu id =>
      match (s.cpus id).loc with
      | .putProc => (s.cpus id).proc
      | _ => none
  | .loader => if s.loader = .addProc then some s.loaded else none
  | .tick => none

/-- The queue of a process that is put or added has room for it. -/
def Os.HasRoom (s : Os ι) (l : OsLabel) : Prop :=
  ∀ proc ∈ s.enqueues l, (s.mlq (cfg.prio proc)).size < maxQueueSize

instance (s : Os ι) (l : OsLabel) : Decidable (s.HasRoom cfg l) :=
  inferInstanceAs (Decidable (∀ proc ∈ s.enqueues l, _))

end Machine

end OsSim.Sched
