import OsSim.Sched.Custody

namespace OsSim.Sched
open Transition

/-! ## `cpuRoutine` with any `get_proc` -/

/-- Where a CPU is in `cpuRoutine`; a call of `get_proc`, `run` or `next_slot` is one step. -/
inductive TurnLoc
  | top
  | putProc
  | getProc (branch : Branch)
  | recheck
  | run
  | nextSlot
  | stopped
deriving DecidableEq

/-- The last dispatch of a CPU: the process, how often `run` was called since, and how many instructions these calls
executed. -/
structure Turn where
  proc : Nat
  runs : Nat
  executed : Nat
deriving DecidableEq

/-- The variable `proc` keeps the process that was put back or freed until `get_proc` returns. -/
structure Worker where
  timeLeft : Int
  proc : Option Nat
  loc : TurnLoc
  turn : Option Turn

structure Workers where
  cpus : Nat → Worker
  pc : Nat → Nat

def Worker.hand (cpu : Worker) : Option Nat :=
  match cpu.loc with
  | .getProc _ => none
  | _ => cpu.proc

/-- The CPU that takes a step, what `get_proc` returns to it and what it reads from `done`, should it look. -/
structure Answer where
  id : Nat
  proc : Option Nat
  done : Bool

section Workers

variable (numCpus : Nat) (timeSlot : Int) (size : Nat → Nat)

def Workers.setCpu (s : Workers) (id : Nat) (cpu : Worker) : Workers :=
  { s with cpus := Function.update s.cpus id cpu }

def Workers.run (s : Workers) (id proc : Nat) : Workers :=
  let cpu := s.cpus id
  let executes := s.pc proc < size proc
  let count := fun turn : Turn =>
    { turn with runs := turn.runs + 1, executed := turn.executed + if executes then 1 else 0 }
  { s.setCpu id { cpu with timeLeft := cpu.timeLeft - 1, loc := .nextSlot, turn := cpu.turn.map count } with
    pc := Function.update s.pc proc (s.pc proc + if executes then 1 else 0) }

/-- `get_proc` returns no process that is in the hands of a CPU; otherwise it may return any. -/
def Workers.exec (s : Workers) (a : Answer) : Option Workers :=
  let cpu := s.cpus a.id
  if a.id < numCpus then
    match cpu.loc with
    | .top =>
        match cpu.proc with
        | none => some (s.setCpu a.id { cpu with loc := .getProc .idle })
        | some proc =>
            if s.pc proc = size proc then some (s.setCpu a.id { cpu with loc := .getProc .finished })
            else if cpu.timeLeft = 0 then some (s.setCpu a.id { cpu with loc := .putProc })
            else some (s.setCpu a.id { cpu with loc := .recheck })
    | .putProc => some (s.setCpu a.id { cpu with loc := .getProc .putBack })
    | .getProc branch =>
        if ∃ other < numCpus, a.proc ≠ none ∧ (s.cpus other).hand = a.proc then none
        else
          let timeLeft := if branch = .finished then 0 else cpu.timeLeft
          let loc := if branch = .idle ∧ a.proc = none then .nextSlot else .recheck
          some (s.setCpu a.id { cpu with timeLeft, proc := a.proc, loc })
    | .recheck =>
        match cpu.proc with
        | none => some (s.setCpu a.id { cpu with loc := if a.done then .stopped else .nextSlot })
        | some proc =>
            if cpu.timeLeft = 0 then
              some (s.setCpu a.id { cpu with timeLeft := timeSlot, loc := .run, turn := some ⟨proc, 0, 0⟩ })
            else some (s.setCpu a.id { cpu with loc := .run })
    | .run => cpu.proc.map fun proc => s.run size a.id proc
    | .nextSlot => some (s.setCpu a.id { cpu with loc := .top })
    | .stopped => none
  else none

def Workers.Step (s : Workers) (a : Answer) (s' : Workers) : Prop := s.exec numCpus timeSlot size a = some s'

def Workers.Start (s : Workers) : Prop := (∀ id, s.cpus id = ⟨0, none, .top, none⟩) ∧ ∀ proc, s.pc proc = 0

/-! ### The quantum -/

/-- No time is left to a CPU without a process; `run` is called at most `timeSlot` times after a dispatch, and only for
the process that was dispatched; and a process that is put back has executed `timeSlot` instructions since and is not at
the end of its code. -/
structure Worker.InQuantum (pc : Nat → Nat) (cpu : Worker) : Prop where
  idle : cpu.proc = none → cpu.timeLeft = 0
  bounded : ∀ turn, cpu.turn = some turn → turn.runs ≤ timeSlot
  dispatched : cpu.loc = .run → ∃ turn, cpu.turn = some turn ∧ cpu.proc = some turn.proc ∧ turn.runs < timeSlot
  putBack : cpu.loc = .putProc → ∃ turn, cpu.turn = some turn ∧ cpu.proc = some turn.proc ∧
    turn.runs = timeSlot ∧ turn.executed = timeSlot ∧ pc turn.proc < size turn.proc

def Worker.Serves (pc : Nat → Nat) (cpu : Worker) : Prop :=
  ∃ turn, cpu.turn = some turn ∧ cpu.proc = some turn.proc ∧ turn.runs + cpu.timeLeft = timeSlot ∧
    0 ≤ cpu.timeLeft ∧ (turn.executed = turn.runs ∨ pc turn.proc = size turn.proc)

def Worker.Timed (pc : Nat → Nat) (cpu : Worker) : Prop :=
  match cpu.loc with
  | .top | .nextSlot => cpu.proc = none ∧ cpu.timeLeft = 0 ∨ cpu.Serves timeSlot size pc
  | .putProc => cpu.Serves timeSlot size pc ∧ cpu.timeLeft = 0 ∧
      ∀ proc, cpu.proc = some proc → pc proc ≠ size proc
  | .getProc .idle => cpu.proc = none ∧ cpu.timeLeft = 0
  | .getProc .finished => cpu.proc ≠ none
  | .getProc .putBack => cpu.proc ≠ none ∧ cpu.timeLeft = 0
  | .recheck => cpu.timeLeft = 0 ∨ cpu.Serves timeSlot size pc
  | .run => cpu.Serves timeSlot size pc ∧ cpu.timeLeft ≠ 0
  | .stopped => cpu.proc = none ∧ cpu.timeLeft = 0

structure Workers.Timed (s : Workers) : Prop where
  pcs : ∀ proc, s.pc proc ≤ size proc
  timed : ∀ id < numCpus, (s.cpus id).Timed timeSlot size s.pc
  bounded : ∀ id < numCpus, ∀ turn, (s.cpus id).turn = some turn → turn.runs ≤ timeSlot
  apart : ∀ id < numCpus, ∀ other < numCpus, ∀ proc,
    (s.cpus id).hand = some proc → (s.cpus other).hand = some proc → id = other

variable {numCpus timeSlot size} {s s' : Workers}

theorem Workers.Start.timed (start : s.Start) : s.Timed numCpus timeSlot size := by
  obtain ⟨cpus, pc⟩ := start
  refine ⟨fun proc => ?_, fun id _ => ?_, fun id _ turn dispatched => ?_, fun id _ other _ proc held => ?_⟩
  · rw [pc proc]
    exact Nat.zero_le _
  · rw [cpus id]
    exact .inl ⟨rfl, rfl⟩
  · rw [cpus id] at dispatched
    cases dispatched
  · rw [cpus id] at held
    cases held

theorem Worker.Serves.congr {pc pc' : Nat → Nat} {cpu : Worker}
    (same : ∀ proc, cpu.proc = some proc → pc' proc = pc proc) (serves : cpu.Serves timeSlot size pc) :
    cpu.Serves timeSlot size pc' := by
  obtain ⟨turn, dispatched, proc, runs, left, executed⟩ := serves
  exact ⟨turn, dispatched, proc, runs, left, by rwa [same turn.proc proc]⟩

/-- The control of a CPU looks at no process but the one in its hands. -/
theorem Worker.Timed.congr {pc pc' : Nat → Nat} {cpu : Worker}
    (same : ∀ proc, cpu.hand = some proc → pc' proc = pc proc) (timed : cpu.Timed timeSlot size pc) :
    cpu.Timed timeSlot size pc' := by
  obtain ⟨timeLeft, proc, loc, turn⟩ := cpu
  cases loc with
  | top | nextSlot => exact timed.imp_right (Worker.Serves.congr same)
  | putProc =>
      obtain ⟨serves, left, away⟩ := timed
      exact ⟨serves.congr same, left, fun proc holds => by rw [same proc holds]; exact away proc holds⟩
  | getProc branch => cases branch <;> exact timed
  | recheck => exact timed.imp_right (Worker.Serves.congr same)
  | run => exact timed.imp_left (Worker.Serves.congr same)
  | stopped => exact timed

theorem Workers.Timed.moved (timed : s.Timed numCpus timeSlot size) {id : Nat} {cpu : Worker} {pc : Nat → Nat}
    (pcs : ∀ proc, pc proc ≤ size proc) (mine : cpu.Timed timeSlot size pc)
    (bounded : ∀ turn, cpu.turn = some turn → turn.runs ≤ timeSlot)
    (elsewhere : ∀ proc, pc proc ≠ s.pc proc → (s.cpus id).hand = some proc) (inside : id < numCpus)
    (free : ∀ proc, cpu.hand = some proc → ∀ other < numCpus, other ≠ id → (s.cpus other).hand ≠ some proc) :
    Workers.Timed numCpus timeSlot size { s.setCpu id cpu with pc } := by
  refine ⟨pcs, fun other inside' => ?_, fun other inside' => ?_, ?_⟩
  · by_cases same : other = id
    · simp only [Workers.setCpu, same, Function.update_self]
      exact mine
    · simp only [Workers.setCpu, Function.update_of_ne same]
      refine (timed.timed other inside').congr fun proc holds => ?_
      by_contra moved
      exact same (timed.apart other inside' id inside proc holds (elsewhere proc moved))
  · by_cases same : other = id
    · simp only [Workers.setCpu, same, Function.update_self]
      exact bounded
    · simp only [Workers.setCpu, Function.update_of_ne same]
      exact timed.bounded other inside'
  · intro first insideFirst second insideSecond proc holds holds'
    by_cases one : first = id <;> by_cases two : second = id
    · exact one.trans two.symm
    · simp only [Workers.setCpu, one, Function.update_self, Function.update_of_ne two] at holds holds'
      exact absurd holds' (free proc holds second insideSecond two)
    · simp only [Workers.setCpu, two, Function.update_self, Function.update_of_ne one] at holds holds'
      exact absurd holds (free proc holds' first insideFirst one)
    · simp only [Workers.setCpu, Function.update_of_ne one, Function.update_of_ne two] at holds holds'
      exact timed.apart first insideFirst second insideSecond proc holds holds'

/-- A step of the CPU `id` that executes nothing and takes no process into its hands. -/
theorem Workers.Timed.kept (timed : s.Timed numCpus timeSlot size) {id : Nat} {cpu : Worker} (inside : id < numCpus)
    (mine : cpu.Timed timeSlot size s.pc) (bounded : ∀ turn, cpu.turn = some turn → turn.runs ≤ timeSlot)
    (hand : ∀ proc, cpu.hand = some proc → (s.cpus id).hand = some proc) :
    (s.setCpu id cpu).Timed numCpus timeSlot size := by
  refine timed.moved timed.pcs mine bounded (fun proc moved => absurd rfl moved) inside ?_
  intro proc holds other inside' different held
  exact different (timed.apart other inside' id inside proc held (hand proc holds))

theorem Workers.Timed.run (timed : s.Timed numCpus timeSlot size) {id proc : Nat} (inside : id < numCpus)
    (here : (s.cpus id).loc = .run) (holds : (s.cpus id).proc = some proc) :
    (s.run size id proc).Timed numCpus timeSlot size := by
  have mine := timed.timed id inside
  rw [Worker.Timed, here] at mine
  obtain ⟨⟨turn, dispatched, same, runs, left, executed⟩, more⟩ := mine
  obtain rfl : proc = turn.proc := Option.some.inj (holds.symm.trans same)
  have within := timed.pcs turn.proc
  have hand : (s.cpus id).hand = some turn.proc := by
    rw [Worker.hand, here]
    exact holds
  rw [Workers.run]
  have counted := fun count => congrArg (Option.map (β := Turn) count) dispatched
  refine timed.moved ?_ (.inr ⟨_, counted _, holds, ?_, ?_, ?_⟩) ?_ ?_ inside ?_
  · intro p
    by_cases this : p = turn.proc
    · rw [this, Function.update_self]
      split <;> omega
    · rw [Function.update_of_ne this]
      exact timed.pcs p
  · dsimp only
    omega
  · dsimp only
    omega
  · dsimp only
    rw [Function.update_self]
    split <;> omega
  · intro counted same'
    rw [dispatched, Option.map_some, Option.some.injEq] at same'
    subst same'
    dsimp only
    omega
  · intro p moved
    by_cases this : p = turn.proc
    · rw [this]
      exact hand
    · exact absurd (Function.update_of_ne this _ _) moved
  · intro p holds' other inside' different held
    obtain rfl : turn.proc = p := Option.some.inj (holds.symm.trans holds')
    exact different (timed.apart other inside' id inside turn.proc held hand)

theorem Workers.Timed.exec (positive : 1 ≤ timeSlot) (timed : s.Timed numCpus timeSlot size) {a : Answer}
    (taken : s.exec numCpus timeSlot size a = some s') : s'.Timed numCpus timeSlot size := by
  rw [Workers.exec] at taken
  dsimp only at taken
  split at taken
  case isFalse => cases taken
  case isTrue inside =>
  have mine := timed.timed a.id inside
  have bounded := timed.bounded a.id inside
  have kept : ∀ cpu : Worker, cpu.Timed timeSlot size s.pc → (∀ turn, cpu.turn = some turn → turn.runs ≤ timeSlot) →
      (∀ proc, cpu.hand = some proc → (s.cpus a.id).hand = some proc) →
      (s.setCpu a.id cpu).Timed numCpus timeSlot size := fun _ => timed.kept inside
  by_cases runs : (s.cpus a.id).loc = .run
  · simp only [runs] at taken
    obtain ⟨proc, holds, rfl⟩ := Option.map_eq_some_iff.mp taken
    exact timed.run inside runs holds
  generalize s.cpus a.id = cpu at taken mine bounded kept runs
  obtain ⟨timeLeft, proc, loc, turn⟩ := cpu
  cases loc with
  | top =>
      cases proc with
      | none =>
          cases taken
          refine kept _ ⟨rfl, ?_⟩ bounded nofun
          rcases mine with ⟨_, left⟩ | ⟨_, _, same, _⟩
          · exact left
          · cases same
      | some proc =>
          have serves := mine.resolve_left fun idle => nomatch idle.1
          dsimp only at taken
          split at taken
          · cases taken
            exact kept _ nofun bounded nofun
          · next away =>
            split at taken
            · next left =>
              cases taken
              refine kept _ ⟨serves, left, ?_⟩ bounded fun _ => id
              rintro _ ⟨⟩
              exact away
            · cases taken
              exact kept _ (.inr serves) bounded fun _ => id
  | putProc =>
      cases taken
      obtain ⟨⟨turn, _, holds, _⟩, left, _⟩ := mine
      refine kept _ ⟨?_, left⟩ bounded nofun
      rw [show proc = some turn.proc from holds]
      nofun
  | getProc branch =>
      dsimp only at taken
      split at taken
      · cases taken
      · next free =>
        cases taken
        refine timed.moved timed.pcs ?_ bounded (fun proc moved => absurd rfl moved) inside ?_
        · cases branch with
          | idle =>
              cases a.proc with
              | none => exact .inl ⟨rfl, mine.2⟩
              | some proc => exact .inl mine.2
          | finished => exact .inl rfl
          | putBack => exact .inl mine.2
        · intro proc holds other inside' _ held
          have answer : a.proc = some proc := by
            rw [Worker.hand] at holds
            dsimp only at holds
            split at holds
            · cases holds
            · exact holds
          exact free ⟨other, inside', by rw [answer]; nofun, held.trans answer.symm⟩
  | recheck =>
      cases proc with
      | none =>
          cases taken
          have left : timeLeft = 0 := mine.resolve_right fun ⟨_, _, same, _⟩ => nomatch same
          cases a.done with
          | true => exact kept _ ⟨rfl, left⟩ bounded fun _ => id
          | false => exact kept _ (.inl ⟨rfl, left⟩) bounded fun _ => id
      | some proc =>
          dsimp only at taken
          split at taken
          · cases taken
            refine kept _ ⟨⟨⟨proc, 0, 0⟩, rfl, rfl, ?_, ?_, .inl rfl⟩, ?_⟩ ?_ fun _ => id
            · exact zero_add timeSlot
            · dsimp only
              omega
            · dsimp only
              omega
            · rintro turn ⟨⟩
              dsimp only
              omega
          · next more =>
            cases taken
            exact kept _ ⟨mine.resolve_left more, more⟩ bounded fun _ => id
  | run => exact absurd rfl runs
  | nextSlot =>
      cases taken
      exact kept _ mine bounded fun _ => id
  | stopped => cases taken

theorem Workers.Timed.inQuantum (timed : s.Timed numCpus timeSlot size) {id : Nat} (inside : id < numCpus) :
    (s.cpus id).InQuantum timeSlot size s.pc := by
  have mine := timed.timed id inside
  have idle : ¬ (s.cpus id).Serves timeSlot size s.pc ∨ (s.cpus id).proc ≠ none := by
    by_cases serves : (s.cpus id).Serves timeSlot size s.pc
    · obtain ⟨turn, _, holds, _⟩ := serves
      exact .inr (by rw [holds]; nofun)
    · exact .inl serves
  refine ⟨?_, timed.bounded id inside, ?_, ?_⟩
  · intro none
    have unserved := idle.resolve_right (not_not.mpr none)
    rw [Worker.Timed] at mine
    split at mine
    · exact (mine.resolve_right unserved).2
    · exact (mine.resolve_right unserved).2
    · exact mine.2.1
    · exact mine.2
    · exact absurd none mine
    · exact mine.2
    · exact mine.resolve_right unserved
    · exact absurd mine.1 unserved
    · exact mine.2
  · intro here
    rw [Worker.Timed, here] at mine
    obtain ⟨⟨turn, dispatched, holds, runs, left, _⟩, more⟩ := mine
    exact ⟨turn, dispatched, holds, by omega⟩
  · intro here
    rw [Worker.Timed, here] at mine
    obtain ⟨⟨turn, dispatched, holds, runs, left, executed⟩, ended, away⟩ := mine
    have more := away turn.proc holds
    have within := timed.pcs turn.proc
    have all := executed.resolve_right more
    exact ⟨turn, dispatched, holds, by omega, by omega, by omega⟩

theorem reachable_timed (positive : 1 ≤ timeSlot) {ok : Workers → Answer → Prop}
    (reachable : Reach (Workers.Step numCpus timeSlot size) ok Workers.Start s) : s.Timed numCpus timeSlot size := by
  refine reachable.invariant (fun s start => start.timed) ?_
  intro s a s' timed _ taken
  exact timed.exec positive taken

/-- Every CPU keeps to the quantum, whatever `get_proc` returns. -/
theorem reachable_inQuantum (positive : 1 ≤ timeSlot) {ok : Workers → Answer → Prop}
    (reachable : Reach (Workers.Step numCpus timeSlot size) ok Workers.Start s) :
    ∀ id < numCpus, (s.cpus id).InQuantum timeSlot size s.pc :=
  fun _ inside => (reachable_timed positive reachable).inQuantum inside

end Workers

/-- One CPU and a quantum of two instructions: the CPU has executed two instructions of the process 0, which has
three, and will put it back. -/
def endOfTurn : Workers :=
  follow (Workers.exec 1 2 fun _ => 3) (fun _ _ => True) ⟨fun _ => ⟨0, none, .top, none⟩, fun _ => 0⟩
    (List.replicate 10 ⟨0, some 0, false⟩)

theorem endOfTurn_inQuantum : (endOfTurn.cpus 0).loc = .putProc ∧
    ∀ id < 1, (endOfTurn.cpus id).InQuantum 2 (fun _ => 3) endOfTurn.pc :=
  ⟨by decide, reachable_inQuantum (by decide) (.follow (fun _ _ => id) (.start ⟨fun _ => rfl, fun _ => rfl⟩) _)⟩

/-! ## The machine with the ready queues -/

section Refinement

variable {ι : Type*} {cfg : Config ι} {s s' : Os ι} {w : Workers}

def CpuLoc.turnLoc : CpuLoc ι → TurnLoc
  | .top => .top
  | .putProc => .putProc
  | .getProc branch _ => .getProc branch
  | .recheck => .recheck
  | .fetch | .execute _ => .run
  | .nextSlot _ => .nextSlot
  | .stopped => .stopped

structure Worker.Mirrors (cpu : Worker) (cpu' : Cpu ι) : Prop where
  timeLeft : cpu.timeLeft = cpu'.timeLeft
  hand : cpu.hand = cpu'.proc
  loc : cpu.loc = cpu'.loc.turnLoc

structure Workers.Mirrors (w : Workers) (s : Os ι) : Prop where
  cpus : ∀ id, (w.cpus id).Mirrors (s.cpus id)
  pc : w.pc = s.pc

def Config.size (cfg : Config ι) (proc : Nat) : Nat := (cfg.text proc).length

theorem Workers.Mirrors.setCpu (mirrors : w.Mirrors s) {id : Nat} {cpu : Worker} {cpu' : Cpu ι}
    (cpus : s'.cpus = Function.update s.cpus id cpu') (pc : s'.pc = s.pc) (mine : cpu.Mirrors cpu') :
    (w.setCpu id cpu).Mirrors s' := by
  refine ⟨fun other => ?_, mirrors.pc.trans pc.symm⟩
  rw [cpus]
  by_cases same : other = id
  · simp only [Workers.setCpu, same, Function.update_self]
    exact mine
  · simp only [Workers.setCpu, Function.update_of_ne same]
    exact mirrors.cpus other

/-- The machine takes a step that the CPUs do not see, or one that they can take as well. -/
def Workers.Answers (cfg : Config ι) (w : Workers) (s' : Os ι) : Prop :=
  w.Mirrors s' ∨ ∃ a w', w.exec cfg.numCpus cfg.timeSlot cfg.size a = some w' ∧ w'.Mirrors s'

theorem Workers.Mirrors.stutter (mirrors : w.Mirrors s) {id : Nat} {cpu' : Cpu ι}
    (cpus : s'.cpus = Function.update s.cpus id cpu') (pc : s'.pc = s.pc) (mine : (w.cpus id).Mirrors cpu') :
    w.Answers cfg s' := by
  have set := mirrors.setCpu cpus pc mine
  rw [Workers.setCpu, Function.update_eq_self] at set
  exact .inl set

theorem Workers.Mirrors.run (mirrors : w.Mirrors s) {id proc : Nat} {cpu' : Cpu ι}
    (cpus : s'.cpus = Function.update s.cpus id cpu') (loc : (w.cpus id).loc = .run)
    (holds : (w.cpus id).proc = some proc) (inside : id < cfg.numCpus)
    (timeLeft : (w.cpus id).timeLeft - 1 = cpu'.timeLeft) (keeps : cpu'.proc = some proc)
    (next : cpu'.loc.turnLoc = .nextSlot)
    (pc : s'.pc = Function.update s.pc proc (s.pc proc + if s.pc proc < cfg.size proc then 1 else 0)) :
    w.Answers cfg s' := by
  refine .inr ⟨⟨id, none, false⟩, w.run cfg.size id proc, ?_, ⟨fun other => ?_, ?_⟩⟩
  · simp [Workers.exec, inside, loc, holds]
  · rw [cpus]
    by_cases same : other = id
    · simp only [Workers.run, Workers.setCpu, same, Function.update_self]
      exact ⟨timeLeft, holds.trans keeps.symm, next.symm⟩
    · simp only [Workers.run, Workers.setCpu, Function.update_of_ne same]
      exact mirrors.cpus other
  · rw [pc]
    simp only [Workers.run, mirrors.pc]

theorem Workers.Mirrors.got (mirrors : w.Mirrors s) (custody' : s'.Custody cfg) {id : Nat} {branch : Branch}
    {proc : Option Nat} (inside : id < cfg.numCpus) (loc : (w.cpus id).loc = .getProc branch)
    (cpus : s'.cpus = Function.update s.cpus id
      ⟨if branch = .finished then 0 else (s.cpus id).timeLeft, proc,
        if branch = .idle ∧ proc = none then .nextSlot s.time else .recheck⟩)
    (pc : s'.pc = s.pc) (timeLeft : (w.cpus id).timeLeft = (s.cpus id).timeLeft) : w.Answers cfg s' := by
  have mine : (s'.cpus id).proc = proc := by rw [cpus, Function.update_self]
  have free : ¬ ∃ other < cfg.numCpus, proc ≠ none ∧ (w.cpus other).hand = proc := by
    rintro ⟨other, inside', some, held⟩
    obtain ⟨p, rfl⟩ := Option.ne_none_iff_exists'.mp some
    by_cases same : other = id
    · rw [same, Worker.hand, loc] at held
      cases held
    · refine (custody'.in_hands inside mine).2.2 other inside' same ?_
      rw [cpus, Function.update_of_ne same, ← (mirrors.cpus other).hand, held]
  refine .inr ⟨⟨id, proc, false⟩, w.setCpu id { w.cpus id with
      timeLeft := if branch = .finished then 0 else (w.cpus id).timeLeft, proc
      loc := if branch = .idle ∧ proc = none then .nextSlot else .recheck }, ?_,
    mirrors.setCpu cpus pc ⟨by rw [timeLeft], ?_, ?_⟩⟩
  · simp only [Workers.exec, inside, loc, if_true, if_neg free]
  · by_cases none : branch = .idle ∧ proc = none <;> simp only [Worker.hand, none, if_false]
    rfl
  · by_cases none : branch = .idle ∧ proc = none <;> simp only [none, if_false] <;> rfl

theorem Worker.Mirrors.seen {cpu : Worker} {cpu' : Cpu ι} (mirrors : cpu.Mirrors cpu') {loc : CpuLoc ι}
    (here : cpu'.loc = loc) : cpu.loc = loc.turnLoc :=
  mirrors.loc.trans (congrArg _ here)

theorem Worker.Mirrors.proc {cpu : Worker} {cpu' : Cpu ι} (mirrors : cpu.Mirrors cpu')
    (settled : ∀ branch, cpu.loc ≠ .getProc branch) : cpu.proc = cpu'.proc := by
  rw [← mirrors.hand, Worker.hand]
  split
  · next branch calls => exact absurd calls (settled branch)
  · rfl

theorem Workers.Mirrors.cpuRoutine (mirrors : w.Mirrors s) (custody : s.Custody cfg) (custody' : s'.Custody cfg)
    {id : Nat} (inside : id < cfg.numCpus) (taken : Sched.cpuRoutine cfg s id = some s') : w.Answers cfg s' := by
  have mine := mirrors.cpus id
  have timeLeft := mine.timeLeft
  have hand := mine.hand
  have controlled := custody.controlled id inside
  cases cpuRoutine_cases taken with
  | idle here holds =>
      have loc : (w.cpus id).loc = .top := mine.seen here
      have proc := mine.proc (by simp [loc])
      refine .inr ⟨⟨id, none, false⟩, w.setCpu id { w.cpus id with loc := .getProc .idle }, ?_,
        mirrors.setCpu rfl rfl ⟨timeLeft, holds.symm, rfl⟩⟩
      simp [Workers.exec, inside, loc, proc, holds]
  | finished here holds ended =>
      have loc : (w.cpus id).loc = .top := mine.seen here
      have proc := mine.proc (by simp [loc])
      refine .inr ⟨⟨id, none, false⟩, w.setCpu id { w.cpus id with loc := .getProc .finished }, ?_,
        mirrors.setCpu rfl rfl ⟨timeLeft, rfl, rfl⟩⟩
      simp [Workers.exec, inside, loc, proc, holds, mirrors.pc, ended, Config.size]
  | slotEnds here holds away left =>
      have loc : (w.cpus id).loc = .top := mine.seen here
      have proc := mine.proc (by simp [loc])
      refine .inr ⟨⟨id, none, false⟩, w.setCpu id { w.cpus id with loc := .putProc }, ?_,
        mirrors.setCpu rfl rfl ⟨timeLeft, proc, rfl⟩⟩
      simp [Workers.exec, inside, loc, proc, holds, mirrors.pc, away, timeLeft, left, Config.size]
  | goesOn here holds away more =>
      have loc : (w.cpus id).loc = .top := mine.seen here
      have proc := mine.proc (by simp [loc])
      refine .inr ⟨⟨id, none, false⟩, w.setCpu id { w.cpus id with loc := .recheck }, ?_,
        mirrors.setCpu rfl rfl ⟨timeLeft, proc, rfl⟩⟩
      simp [Workers.exec, inside, loc, proc, holds, mirrors.pc, away, timeLeft, more, Config.size]
  | putProc here =>
      have loc : (w.cpus id).loc = .putProc := mine.seen here
      refine .inr ⟨⟨id, none, false⟩, w.setCpu id { w.cpus id with loc := .getProc .putBack }, ?_,
        mirrors.setCpu rfl rfl ⟨timeLeft, rfl, rfl⟩⟩
      simp [Workers.exec, inside, loc]
  | @looks branch _ _ here =>
      have loc : (w.cpus id).loc = .getProc branch := mine.seen here
      exact mirrors.stutter rfl rfl ⟨timeLeft, hand, loc⟩
  | got here => exact mirrors.got custody' inside (mine.seen here) rfl rfl timeLeft
  | nothing here holds =>
      have loc : (w.cpus id).loc = .recheck := mine.seen here
      have proc := mine.proc (by simp [loc])
      refine .inr ⟨⟨id, none, s.done⟩,
        w.setCpu id { w.cpus id with loc := if s.done then .stopped else .nextSlot }, ?_,
        mirrors.setCpu rfl rfl ⟨timeLeft, ?_, ?_⟩⟩
      · simp [Workers.exec, inside, loc, proc, holds]
      · cases s.done <;> exact proc
      · cases s.done <;> rfl
  | @turn proc here holds =>
      have loc : (w.cpus id).loc = .recheck := mine.seen here
      have kept := mine.proc (by simp [loc])
      by_cases left : (s.cpus id).timeLeft = 0
      · refine .inr ⟨⟨id, none, false⟩, w.setCpu id { w.cpus id with
            timeLeft := cfg.timeSlot, loc := .run, turn := some ⟨proc, 0, 0⟩ }, ?_,
          mirrors.setCpu rfl rfl ⟨(if_pos left).symm, kept, rfl⟩⟩
        simp [Workers.exec, inside, loc, kept, holds, timeLeft, left]
      · refine .inr ⟨⟨id, none, false⟩, w.setCpu id { w.cpus id with loc := .run }, ?_,
          mirrors.setCpu rfl rfl ⟨timeLeft.trans (if_neg left).symm, kept, rfl⟩⟩
        simp [Workers.exec, inside, loc, kept, holds, timeLeft, left]
  | @pastEnd proc here holds fetched =>
      have loc : (w.cpus id).loc = .run := mine.seen here
      have ended : ¬ s.pc proc < cfg.size proc := Nat.not_lt.mpr (List.getElem?_eq_none_iff.mp fetched)
      refine mirrors.run rfl loc ((mine.proc (by simp [loc])).trans holds) inside (by rw [timeLeft]) holds rfl ?_
      rw [if_neg ended, Nat.add_zero, Function.update_eq_self]
      rfl
  | fetch here =>
      have loc : (w.cpus id).loc = .run := mine.seen here
      exact mirrors.stutter rfl rfl ⟨timeLeft, hand, loc⟩
  | @execute proc ins here holds =>
      have loc : (w.cpus id).loc = .run := mine.seen here
      simp only [Cpu.Controlled, here] at controlled
      obtain ⟨proc', holds', fetched⟩ := controlled
      obtain rfl : proc = proc' := Option.some.inj (holds.symm.trans holds')
      obtain ⟨more, _⟩ := List.getElem?_eq_some_iff.mp fetched
      refine mirrors.run rfl loc ((mine.proc (by simp [loc])).trans holds) inside (by rw [timeLeft]) holds rfl ?_
      rw [if_pos (show s.pc proc < cfg.size proc from more)]
  | nextSlot here =>
      have loc : (w.cpus id).loc = .nextSlot := mine.seen here
      refine .inr ⟨⟨id, none, false⟩, w.setCpu id { w.cpus id with loc := .top }, ?_,
        mirrors.setCpu rfl rfl ⟨timeLeft, mine.proc (by simp [loc]), rfl⟩⟩
      simp [Workers.exec, inside, loc]

theorem ldRoutine_cpus (taken : ldRoutine cfg s = some s') : s'.cpus = s.cpus ∧ s'.pc = s.pc := by
  cases here : s.loader <;> simp only [ldRoutine, here, Option.some.injEq, reduceCtorEq] at taken
  case waitSlot | addSlot =>
    split at taken <;> cases taken
    exact ⟨rfl, rfl⟩
  all_goals
    subst taken
    exact ⟨rfl, rfl⟩

/-- Every run of the machine is a run of its CPUs with the answers that the queues give. -/
theorem reachable_mirrored {ok : Os ι → OsLabel → Prop} (prios : ∀ p < cfg.numProcesses, cfg.prio p < maxPrio)
    (reachable : Reach (Os.Step cfg) ok Os.Start s) :
    ∃ w, Reach (Workers.Step cfg.numCpus cfg.timeSlot cfg.size) (fun _ _ => True) Workers.Start w ∧
      w.Mirrors s := by
  induction reachable with
  | start first =>
      refine ⟨⟨fun _ => ⟨0, none, .top, none⟩, fun _ => 0⟩, .start ⟨fun _ => rfl, fun _ => rfl⟩, fun id => ?_, ?_⟩
      · rw [first.cpus id]
        exact ⟨rfl, rfl, rfl⟩
      · exact funext fun proc => (first.pc proc).symm
  | @step s s' l before allowed taken ih =>
      obtain ⟨w, run, mirrors⟩ := ih
      have custody := reachable_custody prios before
      have custody' := custody.exec prios taken
      have answers : w.Answers cfg s' := by
        cases l with
        | cpu id =>
            rw [Os.Step, Os.exec] at taken
            split at taken
            · next inside => exact mirrors.cpuRoutine custody custody' inside taken
            · cases taken
        | loader =>
            obtain ⟨cpus, pc⟩ := ldRoutine_cpus taken
            exact .inl ⟨by rw [cpus]; exact mirrors.cpus, by rw [pc]; exact mirrors.pc⟩
        | tick =>
            cases taken
            exact .inl ⟨mirrors.cpus, mirrors.pc⟩
      rcases answers with same | ⟨a, w', step, mirrors'⟩
      · exact ⟨w, run, same⟩
      · exact ⟨w', .step run trivial step, mirrors'⟩

/-- A process is put back only with instructions left to execute, and a CPU without a process has no time left. -/
theorem reachable_quantum {ok : Os ι → OsLabel → Prop} (positive : 1 ≤ cfg.timeSlot)
    (prios : ∀ p < cfg.numProcesses, cfg.prio p < maxPrio) (reachable : Reach (Os.Step cfg) ok Os.Start s)
    {id : Nat} (inside : id < cfg.numCpus) :
    ((s.cpus id).loc = .putProc → ∃ proc, (s.cpus id).proc = some proc ∧ s.pc proc < (cfg.text proc).length) ∧
      ((s.cpus id).loc = .top → (s.cpus id).proc = none → (s.cpus id).timeLeft = 0) := by
  obtain ⟨w, run, mirrors⟩ := reachable_mirrored prios reachable
  have quantum := (reachable_timed positive run).inQuantum inside
  obtain ⟨timeLeft, hand, loc⟩ := mirrors.cpus id
  constructor
  · intro here
    rw [here, CpuLoc.turnLoc] at loc
    obtain ⟨turn, _, holds, _, _, more⟩ := quantum.putBack loc
    rw [Worker.hand, loc] at hand
    exact ⟨turn.proc, hand.symm.trans holds, by rwa [mirrors.pc] at more⟩
  · intro here none
    rw [here, CpuLoc.turnLoc] at loc
    rw [Worker.hand, loc] at hand
    exact timeLeft.symm.trans (quantum.idle (hand.trans none))

end Refinement

end OsSim.Sched
