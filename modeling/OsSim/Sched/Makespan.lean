import Mathlib.Algebra.BigOperators.Group.Finset.Basic
import Mathlib.Algebra.Order.BigOperators.Group.Finset
import OsSim.Sched.Stopping

namespace OsSim.Sched
open Transition

section Makespan

variable {ι : Type*} {cfg : Config ι} {s s' : Os ι}

/-! ## Conditions on a run -/

/-- A CPU is in `get_proc` at `loc`. -/
def Os.Seeks (s : Os ι) (l : OsLabel) (loc : GetLoc) : Prop :=
  match l with
  | .cpu id => (s.cpus id).loc = .getProc .idle loc ∨ s.Searches (.cpu id) loc
  | _ => False

/-- As `SearchesWell`, also for the CPUs that have had no process before. -/
structure Os.SeeksWell (cfg : Config ι) (s : Os ι) (l : OsLabel) : Prop where
  ends : s.Late cfg → s.Seeks l (.scan (maxPrio - 1)) → (s.mlq (maxPrio - 1)).empty = true →
    ∀ i < maxPrio, (s.mlq i).empty = false → (s.mlq i).slot > 0
  restarts : s.Late cfg → s.Seeks l .resetSlots → (s.mlq 0).empty = false →
    ∃ i < maxPrio, 1 ≤ i ∧ (s.mlq i).empty = false

structure Os.Steady (cfg : Config ι) (s : Os ι) (l : OsLabel) : Prop where
  room : s.HasRoom cfg l
  slotEnds : s.SlotEnds cfg l
  seeks : s.SeeksWell cfg l

structure Os.Begins (s : Os ι) : Prop where
  start : s.Start
  time : s.time = 0

theorem seeks_of_searches {l : OsLabel} {loc : GetLoc} (searches : s.Searches l loc) : s.Seeks l loc := by
  cases l with
  | cpu id => exact .inr searches
  | loader | tick => exact searches.elim

theorem Os.Steady.regular {l : OsLabel} (steady : s.Steady cfg l) : s.Regular cfg l where
  room := steady.room
  slotEnds := steady.slotEnds
  searches :=
    { ends := fun late searches => steady.seeks.ends late (seeks_of_searches searches)
      restarts := fun late searches => steady.seeks.restarts late (seeks_of_searches searches) }

theorem seeks_of_loc {id : Nat} {branch : Branch} {loc : GetLoc} (here : (s.cpus id).loc = .getProc branch loc) :
    s.Seeks (.cpu id) loc := by
  by_cases busy : branch = .idle
  · exact .inl (busy ▸ here)
  · exact .inr (searches_of_loc busy here)

theorem reachable_regular (reachable : Reach (Os.Step cfg) (Os.Steady cfg) Os.Begins s) :
    Reach (Os.Step cfg) (Os.Regular cfg) Os.Start s :=
  (reachable.mono fun _ _ steady => steady.regular).mono_start fun _ begins => begins.start

/-! ## Some CPU tends to the processes that wait -/

/-- In this slot the CPU has executed an instruction, or will if the queue `i` keeps its process. -/
def Cpu.Tends (time : Nat) (mlq : Mlq) (i : Nat) (cpu : Cpu ι) : Prop :=
  match cpu.loc with
  | .getProc _ loc => loc.Finds mlq i
  | .recheck => cpu.proc ≠ none
  | .nextSlot since => since < time ∨ cpu.proc ≠ none
  | .stopped => False
  | _ => True

def Os.Tended (cfg : Config ι) (s : Os ι) : Prop :=
  s.Late cfg → ∀ i < maxPrio, (s.mlq i).empty = false → ∃ id < cfg.numCpus, (s.cpus id).Tends s.time s.mlq i

theorem Cpu.Tends.map {time i : Nat} {mlq mlq' : Mlq} {cpu : Cpu ι} (tends : cpu.Tends time mlq i)
    (finds : ∀ loc : GetLoc, loc.Finds mlq i → loc.Finds mlq' i) : cpu.Tends time mlq' i := by
  unfold Cpu.Tends at tends ⊢
  split at tends
  · exact finds _ tends
  · exact tends
  · exact tends
  · exact tends
  · trivial

theorem tends_got {time i : Nat} {mlq : Mlq} {timeLeft : Int} {branch : Branch} {proc : Nat} :
    Cpu.Tends time mlq i
      (⟨timeLeft, some proc, if branch = .idle ∧ some proc = none then .nextSlot time else .recheck⟩ : Cpu ι) := by
  rw [if_neg (by simp)]
  exact Option.some_ne_none proc

/-- What a step of a CPU leaves as it is. -/
structure Os.SameSlot (s s' : Os ι) : Prop where
  time : s'.time = s.time
  loader : s'.loader = s.loader
  loaded : s'.loaded = s.loaded
  done : s'.done = s.done

theorem cpuRoutine_frame {id : Nat} (taken : cpuRoutine cfg s id = some s') :
    ∃ cpu, s'.cpus = Function.update s.cpus id cpu ∧ s.SameSlot s' := by
  cases cpuRoutine_cases taken with
  | idle | finished | slotEnds | goesOn | putProc | looks | got | nothing | turn | pastEnd | fetch | execute |
      nextSlot => exact ⟨_, rfl, rfl, rfl, rfl, rfl⟩

/-- After its step the CPU tends to the queue, or it did not before and takes no prospect away. -/
theorem cpuRoutine_tends (custody : s.Custody cfg) {id : Nat} (inside : id < cfg.numCpus)
    (well : s.SeeksWell cfg (.cpu id)) (late : s.Late cfg) (taken : cpuRoutine cfg s id = some s') {i : Nat}
    (insideI : i < maxPrio) (waiting : (s'.mlq i).empty = false) :
    (s'.cpus id).Tends s'.time s'.mlq i ∨ ((s.mlq i).empty = false ∧ ¬ (s.cpus id).Tends s.time s.mlq i ∧
      ∀ loc : GetLoc, loc.Finds s.mlq i → loc.Finds s'.mlq i) := by
  have entries : ∀ j < maxPrio, none ∉ (s.mlq j).entries := by
    intro j insideJ member
    obtain ⟨proc, same, _⟩ := custody.entries j insideJ none member
    cases same
  have finds : ∀ {branch loc}, (s.cpus id).loc = .getProc branch loc →
      ((getMlqProc s.mlq loc).1 i).empty = false →
      (∃ proc, (getMlqProc s.mlq loc).2 = .got (some proc)) ∨
        (∃ loc', (getMlqProc s.mlq loc).2 = .next loc' ∧ loc'.Finds (getMlqProc s.mlq loc).1 i) ∨
        ((s.mlq i).empty = false ∧ ¬ loc.Finds s.mlq i ∧
          ∀ other : GetLoc, other.Finds s.mlq i → other.Finds (getMlqProc s.mlq loc).1 i) := by
    intro branch loc here waits
    have controlled := custody.controlled id inside
    rw [Cpu.Controlled, here] at controlled
    exact getMlqProc_finds controlled.2 insideI entries
      (fun last empty waiting => well.ends late (last ▸ seeks_of_loc here) empty i insideI waiting)
      (fun reset => well.restarts late (reset ▸ seeks_of_loc here)) waits
  cases cpuRoutine_cases taken with
  | looks here result =>
      simp only [Os.setCpu, Function.update_self, Cpu.Tends, here]
      rcases finds here waiting with ⟨proc, got⟩ | ⟨loc', next, prospect⟩ | lost
      · cases result.symm.trans got
      · cases result.symm.trans next
        exact .inl prospect
      · exact .inr lost
  | @got branch loc proc here result =>
      simp only [Os.setCpu, Function.update_self]
      rcases finds here waiting with ⟨proc, got⟩ | ⟨loc', next, _⟩ | lost
      · cases result.symm.trans got
        exact .inl tends_got
      · cases result.symm.trans next
      · refine .inr ⟨lost.1, ?_, lost.2.2⟩
        rw [Cpu.Tends, here]
        exact lost.2.1
  | nothing here holds =>
      refine .inr ⟨waiting, ?_, fun _ found => found⟩
      rw [Cpu.Tends, here]
      exact fun busy => busy holds
  | idle | finished | putProc =>
      simp only [Os.setCpu, Function.update_self]
      exact .inl (Nat.zero_le i)
  | goesOn here holds =>
      simp only [Os.setCpu, Function.update_self]
      exact .inl fun none => Option.some_ne_none _ (holds.symm.trans none)
  | pastEnd here holds | execute here holds =>
      simp only [Os.setCpu, Function.update_self]
      exact .inl (.inr fun none => Option.some_ne_none _ (holds.symm.trans none))
  | slotEnds | turn | fetch | nextSlot =>
      simp only [Os.setCpu, Function.update_self]
      exact .inl trivial

theorem Os.Tended.cpuRoutine (tended : s.Tended cfg) (custody : s.Custody cfg) {id : Nat}
    (inside : id < cfg.numCpus) (well : s.SeeksWell cfg (.cpu id)) (taken : Sched.cpuRoutine cfg s id = some s') :
    s'.Tended cfg := by
  intro late i insideI waiting
  obtain ⟨cpu, cpus, same⟩ := cpuRoutine_frame taken
  have late' : s.Late cfg := by rwa [Os.Late, ← same.loaded, ← same.loader, ← same.time]
  rcases cpuRoutine_tends custody inside well late' taken insideI waiting with mine | ⟨waits, lost, others⟩
  · exact ⟨id, inside, mine⟩
  · obtain ⟨other, inside', tends⟩ := tended late' i insideI waits
    have different : other ≠ id := fun same => lost (same ▸ tends)
    refine ⟨other, inside', ?_⟩
    rw [cpus, Function.update_of_ne different, same.time]
    exact tends.map others

/-- The loader alone never makes its last addition one of an earlier slot. -/
theorem ldRoutine_frame (taken : ldRoutine cfg s = some s') :
    s'.cpus = s.cpus ∧ s'.time = s.time ∧ s'.pc = s.pc ∧ s'.finished = s.finished ∧
      (s'.Late cfg → s.Late cfg ∧ s'.mlq = s.mlq) := by
  cases here : s.loader <;> simp only [ldRoutine, here, Option.some.injEq, reduceCtorEq] at taken
  case addProc =>
    subst taken
    exact ⟨rfl, rfl, rfl, rfl, fun late => absurd rfl late.2⟩
  case waitSlot since =>
    split at taken <;> cases taken
    exact ⟨rfl, rfl, rfl, rfl, fun late => ⟨⟨late.1, by simp [here]⟩, rfl⟩⟩
  case addSlot since =>
    split at taken <;> cases taken
    next past =>
    refine ⟨rfl, rfl, rfl, rfl, fun late => ⟨⟨late.1, ?_⟩, rfl⟩⟩
    rw [here, Ne, LoaderLoc.addSlot.injEq]
    exact Nat.ne_of_lt past
  all_goals
    subst taken
    exact ⟨rfl, rfl, rfl, rfl, fun late => ⟨⟨late.1, by simp [here]⟩, rfl⟩⟩

theorem Os.Tended.ldRoutine (tended : s.Tended cfg) (taken : Sched.ldRoutine cfg s = some s') : s'.Tended cfg := by
  intro late i inside waiting
  obtain ⟨cpus, time, _, _, before⟩ := ldRoutine_frame taken
  obtain ⟨late', mlq⟩ := before late
  rw [mlq] at waiting ⊢
  rw [cpus, time]
  exact tended late' i inside waiting

/-- In a new slot all CPUs go on that have not stopped. -/
theorem Os.Tended.tick (tended : s.Tended cfg) (watched : s.Watched cfg) (cpus : 0 < cfg.numCpus)
    (ends : s.SlotEnds cfg .tick) : Os.Tended cfg { s with time := s.time + 1 } := by
  have goes : ∀ {id i}, (s.cpus id).loc = .nextSlot s.time → (s.cpus id).Tends (s.time + 1) s.mlq i := by
    intro id i waits
    rw [Cpu.Tends, waits]
    exact .inl (Nat.lt_succ_self _)
  intro late i inside waiting
  by_cases last : s.loader = .addSlot s.time
  · rcases (ends rfl).1 0 cpus with waits | stopped
    · exact ⟨0, cpus, goes waits⟩
    · have finished := watched.done (watched.stopped 0 cpus stopped)
      rw [last] at finished
      cases finished
  · obtain ⟨id, inside', tends⟩ := tended ⟨late.1, last⟩ i inside waiting
    rcases (ends rfl).1 id inside' with waits | stopped
    · exact ⟨id, inside', goes waits⟩
    · rw [Cpu.Tends, stopped] at tends
      exact tends.elim

theorem reachable_tended (cpus : 0 < cfg.numCpus) (prios : ∀ p < cfg.numProcesses, cfg.prio p < maxPrio)
    (reachable : Reach (Os.Step cfg) (Os.Steady cfg) Os.Begins s) : s.Tended cfg := by
  have known : ∀ s, Reach (Os.Step cfg) (Os.Steady cfg) Os.Begins s → s.Custody cfg ∧ s.Watched cfg := by
    intro s before
    have regular := reachable_regular before
    exact ⟨reachable_custody prios regular, reachable_watched cpus prios regular⟩
  refine reachable.invariant_with known ?_ ?_
  · intro s begins _ i inside waiting
    obtain ⟨block, mlq⟩ := begins.start.mlq
    rw [mlq, initScheduler, if_pos inside] at waiting
    cases waiting
  · rintro s l s' ⟨custody, watched⟩ tended steady taken
    cases l with
    | cpu id =>
        rw [Os.Step, Os.exec] at taken
        split at taken
        · next inside => exact tended.cpuRoutine custody inside steady.seeks taken
        · cases taken
    | loader => exact tended.ldRoutine taken
    | tick =>
        cases taken
        exact tended.tick watched cpus steady.slotEnds

/-- Whether the CPU has executed an instruction in this slot. -/
def Cpu.hasRun (time : Nat) (cpu : Cpu ι) : Bool :=
  match cpu.loc with
  | .nextSlot since => since = time && cpu.proc.isSome
  | _ => false

theorem nonempty_of_entry {q : Queue} {pos : Nat} {entry : Option Nat} (here : q.entries[pos]? = some entry) :
    q.empty = false := by
  cases empty : q.empty with
  | false => rfl
  | true =>
      rw [Queue.empty_iff.mp empty] at here
      cases here

/-- No slot ends without an instruction while a process is left. -/
theorem Os.Tended.has_run (tended : s.Tended cfg) (custody : s.Custody cfg) (late : s.Late cfg)
    (ends : s.SlotEnds cfg .tick) {proc : Nat} (known : proc < cfg.numProcesses) (left : s.finished proc = false) :
    ∃ id < cfg.numCpus, (s.cpus id).hasRun s.time = true := by
  have runs : ∀ {id}, (s.cpus id).loc = .nextSlot s.time → (s.cpus id).proc ≠ none →
      (s.cpus id).hasRun s.time = true := by
    intro id waits busy
    simp [Cpu.hasRun, waits, Option.isSome_iff_ne_none, busy]
  obtain ⟨place, here⟩ := custody.place_exists (late.1 ▸ known)
  cases place with
  | queue prio pos =>
      obtain ⟨inside, entry⟩ := here
      obtain ⟨id, inside', tends⟩ := tended late prio inside (nonempty_of_entry entry)
      refine ⟨id, inside', ?_⟩
      rcases (ends rfl).1 id inside' with waits | stopped
      · rw [Cpu.Tends, waits] at tends
        exact runs waits (tends.resolve_left (Nat.lt_irrefl _))
      · rw [Cpu.Tends, stopped] at tends
        exact tends.elim
  | cpu id =>
      obtain ⟨inside, holds⟩ := here
      have busy : (s.cpus id).proc ≠ none := by simp [holds]
      refine ⟨id, inside, ?_⟩
      rcases (ends rfl).1 id inside with waits | stopped
      · exact runs waits busy
      · have controlled := custody.controlled id inside
        rw [Cpu.Controlled, stopped] at controlled
        exact absurd controlled busy
  | finished => exact absurd (left.symm.trans here) (by decide)

/-! ## The turns of the processes -/

/-- Between two turns: no instruction is left to be executed in this slot. -/
def Cpu.rests (cpu : Cpu ι) : Bool :=
  match cpu.loc with
  | .top | .nextSlot _ => true
  | _ => false

/-- The last turn of the process is over, or it rests between two turns. -/
def Os.Served (cfg : Config ι) (s : Os ι) (proc : Nat) : Prop :=
  s.finished proc = true ∨ ∃ id < cfg.numCpus, (s.cpus id).proc = some proc ∧ (s.cpus id).rests = true

instance (proc : Nat) : Decidable (s.Served cfg proc) :=
  inferInstanceAs (Decidable (_ ∨ _))

/-- How many slots a CPU has spent on the process. One without code takes one as well. -/
def Os.turns (cfg : Config ι) (s : Os ι) (proc : Nat) : Nat :=
  if cfg.text proc = [] then if s.Served cfg proc then 1 else 0 else s.pc proc

/-- A process at the end of its code is not executed again. -/
def Os.Rested (cfg : Config ι) (s : Os ι) : Prop :=
  ∀ proc, cfg.text proc ≠ [] → s.pc proc = (cfg.text proc).length → s.Served cfg proc

theorem served_kept {id proc : Nat} (inside : id < cfg.numCpus) (taken : cpuRoutine cfg s id = some s')
    (ended : s.pc proc = (cfg.text proc).length) (served : s.Served cfg proc) : s'.Served cfg proc := by
  rcases served with gone | ⟨other, inside', holds, rests⟩
  · refine .inl ?_
    cases cpuRoutine_cases taken with
    | @finished proc' here holds ended' =>
        dsimp only
        by_cases same : proc = proc'
        · rw [same, Function.update_self]
        · rwa [Function.update_of_ne same]
    | idle | slotEnds | goesOn | putProc | looks | got | nothing | turn | pastEnd | fetch | execute | nextSlot =>
        exact gone
  · by_cases mine : other = id
    · subst mine
      cases cpuRoutine_cases taken with
      | idle here none => cases none.symm.trans holds
      | @finished proc' here holds' ended' =>
          cases holds'.symm.trans holds
          exact .inl (Function.update_self _ _ _)
      | slotEnds here holds' away | goesOn here holds' away =>
          cases holds'.symm.trans holds
          exact absurd ended away
      | nextSlot here past =>
          refine .inr ⟨other, inside, ?_, ?_⟩ <;> simp only [Os.setCpu, Function.update_self]
          · exact holds
          · rfl
      | putProc here | looks here | got here | nothing here | turn here | pastEnd here | fetch here | execute here =>
          simp [Cpu.rests, here] at rests
    · obtain ⟨cpu, cpus, _⟩ := cpuRoutine_frame taken
      refine .inr ⟨other, inside', ?_, ?_⟩ <;> rw [cpus, Function.update_of_ne mine]
      · exact holds
      · exact rests

/-- What a step of a CPU does to the process that it runs in this slot. -/
theorem cpuRoutine_runs {id : Nat} (inside : id < cfg.numCpus) (taken : cpuRoutine cfg s id = some s') :
    (s'.pc = s.pc ∧ (s'.cpus id).hasRun s.time = false) ∨
      ∃ proc, (s.cpus id).proc = some proc ∧ (s.cpus id).rests = false ∧ s'.Served cfg proc ∧
        ((s'.pc = s.pc ∧ (cfg.text proc)[s.pc proc]? = none) ∨
          s'.pc = Function.update s.pc proc (s.pc proc + 1)) := by
  have serves : ∀ {s' : Os ι} {proc : Nat}, (s'.cpus id).proc = some proc → (s'.cpus id).rests = true →
      s'.Served cfg proc := fun holds rests => .inr ⟨id, inside, holds, rests⟩
  cases cpuRoutine_cases taken with
  | @got branch loc proc here result =>
      refine .inl ⟨rfl, ?_⟩
      simp only [Os.setCpu, Function.update_self, Cpu.hasRun]
      cases proc with
      | none => cases branch <;> simp
      | some proc => simp
  | nothing here holds =>
      refine .inl ⟨rfl, ?_⟩
      simp only [Os.setCpu, Function.update_self, Cpu.hasRun, holds]
      split <;> simp_all
  | @pastEnd proc here holds fetched =>
      refine .inr ⟨proc, holds, by rw [Cpu.rests, here], ?_, .inl ⟨rfl, fetched⟩⟩
      exact serves (by simp [Os.setCpu, holds]) (by simp [Os.setCpu, Cpu.rests])
  | @execute proc ins here holds =>
      refine .inr ⟨proc, holds, by rw [Cpu.rests, here], ?_, .inr rfl⟩
      exact serves (by simp [Os.setCpu, holds]) (by simp [Os.setCpu, Cpu.rests])
  | idle | finished | slotEnds | goesOn | putProc | looks | turn | fetch | nextSlot =>
      refine .inl ⟨rfl, ?_⟩
      simp only [Os.setCpu, Function.update_self, Cpu.hasRun]

/-- A process is not served by the CPU that is about to run it. -/
theorem Os.Custody.not_served (custody : s.Custody cfg) {id proc : Nat} (inside : id < cfg.numCpus)
    (holds : (s.cpus id).proc = some proc) (busy : (s.cpus id).rests = false) : ¬ s.Served cfg proc := by
  obtain ⟨_, running, apart⟩ := custody.in_hands inside holds
  rintro (gone | ⟨other, inside', holds', rests⟩)
  · cases running.symm.trans gone
  · refine apart other inside' ?_ holds'
    rintro rfl
    cases busy.symm.trans rests

theorem Os.Rested.cpuRoutine (rested : s.Rested cfg) {id : Nat} (inside : id < cfg.numCpus)
    (taken : Sched.cpuRoutine cfg s id = some s') : s'.Rested cfg := by
  intro proc code ended
  by_cases before : s.pc proc = (cfg.text proc).length
  · exact served_kept inside taken before (rested proc code before)
  · rcases cpuRoutine_runs inside taken with ⟨same, _⟩ | ⟨proc', _, _, served, ⟨same, _⟩ | moved⟩
    · exact absurd (same ▸ ended) before
    · exact absurd (same ▸ ended) before
    · by_cases mine : proc = proc'
      · exact mine ▸ served
      · rw [moved, Function.update_of_ne mine] at ended
        exact absurd ended before

theorem turns_mono (custody : s.Custody cfg) {id : Nat} (inside : id < cfg.numCpus)
    (taken : cpuRoutine cfg s id = some s') (proc : Nat) : s.turns cfg proc ≤ s'.turns cfg proc := by
  rw [Os.turns, Os.turns]
  by_cases code : cfg.text proc = []
  · rw [if_pos code, if_pos code]
    by_cases served : s.Served cfg proc
    · have ended : s.pc proc = (cfg.text proc).length := by
        have bound := (custody.executed proc).1
        rw [code] at bound ⊢
        exact Nat.le_zero.mp bound
      rw [if_pos served, if_pos (served_kept inside taken ended served)]
    · rw [if_neg served]
      exact Nat.zero_le _
  · rw [if_neg code, if_neg code]
    rcases cpuRoutine_runs inside taken with ⟨same, _⟩ | ⟨proc', _, _, _, ⟨same, _⟩ | moved⟩
    · rw [same]
    · rw [same]
    · rw [moved, Function.update_apply]
      split
      · next mine => exact mine ▸ Nat.le_succ _
      · exact le_rfl

theorem turns_lt (custody : s.Custody cfg) (rested : s.Rested cfg) {id proc : Nat} (inside : id < cfg.numCpus)
    (holds : (s.cpus id).proc = some proc) (busy : (s.cpus id).rests = false) (served : s'.Served cfg proc)
    (runs : (s'.pc = s.pc ∧ (cfg.text proc)[s.pc proc]? = none) ∨
      s'.pc = Function.update s.pc proc (s.pc proc + 1)) : s.turns cfg proc < s'.turns cfg proc := by
  have before : ¬ s.Served cfg proc := custody.not_served inside holds busy
  rw [Os.turns, Os.turns]
  by_cases code : cfg.text proc = []
  · rw [if_pos code, if_pos code, if_neg before, if_pos served]
    exact Nat.zero_lt_one
  · rw [if_neg code, if_neg code]
    rcases runs with ⟨_, past⟩ | moved
    · have ended := Nat.le_antisymm (custody.executed proc).1 (List.getElem?_eq_none_iff.mp past)
      exact absurd (rested proc code ended) before
    · rw [moved, Function.update_self]
      exact Nat.lt_succ_self _

def Os.work (cfg : Config ι) (s : Os ι) : Nat := ∑ proc ∈ Finset.range cfg.numProcesses, s.turns cfg proc

def Os.ranBy (s : Os ι) (time id : Nat) : Nat := ((s.cpus id).hasRun time).toNat

/-- How many CPUs have run in this slot. -/
def Os.ran (cfg : Config ι) (s : Os ι) : Nat := ∑ id ∈ Finset.range cfg.numCpus, s.ranBy s.time id

theorem sum_changed {n i : Nat} {f f' : Nat → Nat} (inside : i < n) (others : ∀ j < n, j ≠ i → f' j = f j) :
    ∑ j ∈ Finset.range n, f' j + f i = ∑ j ∈ Finset.range n, f j + f' i := by
  have member := Finset.mem_range.mpr inside
  have same : ∑ j ∈ (Finset.range n).erase i, f' j = ∑ j ∈ (Finset.range n).erase i, f j := by
    refine Finset.sum_congr rfl fun j rest => ?_
    obtain ⟨other, within⟩ := Finset.mem_erase.mp rest
    exact others j (Finset.mem_range.mp within) other
  rw [← Finset.add_sum_erase _ f member, ← Finset.add_sum_erase _ f' member, same]
  omega

theorem ran_changed {id : Nat} (inside : id < cfg.numCpus) (taken : cpuRoutine cfg s id = some s') :
    s'.ran cfg + s.ranBy s.time id = s.ran cfg + s'.ranBy s.time id := by
  obtain ⟨cpu, cpus, same⟩ := cpuRoutine_frame taken
  rw [Os.ran, Os.ran, same.time]
  refine sum_changed inside fun other _ different => ?_
  rw [Os.ranBy, Os.ranBy, cpus, Function.update_of_ne different]

/-- A CPU that runs in a slot works for a process in it. -/
theorem cpuRoutine_works (custody : s.Custody cfg) (rested : s.Rested cfg) {id : Nat} (inside : id < cfg.numCpus)
    (taken : cpuRoutine cfg s id = some s') : s'.ran cfg + s.work cfg ≤ s.ran cfg + s'.work cfg := by
  have changed := ran_changed inside taken
  have mono : ∀ proc ∈ Finset.range cfg.numProcesses, s.turns cfg proc ≤ s'.turns cfg proc :=
    fun proc _ => turns_mono custody inside taken proc
  rcases cpuRoutine_runs inside taken with ⟨_, still⟩ | ⟨proc, holds, busy, served, runs⟩
  · have more : s.work cfg ≤ s'.work cfg := Finset.sum_le_sum mono
    have none : s'.ranBy s.time id = 0 := by rw [Os.ranBy, still, Bool.toNat_false]
    omega
  · have known : proc < cfg.numProcesses := Nat.lt_of_lt_of_le (custody.in_hands inside holds).1 custody.loaded
    have more : s.work cfg < s'.work cfg :=
      Finset.sum_lt_sum mono
        ⟨proc, Finset.mem_range.mpr known, turns_lt custody rested inside holds busy served runs⟩
    have one : s'.ranBy s.time id ≤ 1 := Bool.toNat_le _
    omega

theorem work_le (custody : s.Custody cfg) :
    s.work cfg ≤ ∑ proc ∈ Finset.range cfg.numProcesses, max 1 (cfg.text proc).length := by
  refine Finset.sum_le_sum fun proc _ => ?_
  rw [Os.turns]
  split
  · split
    · exact le_max_left _ _
    · exact Nat.zero_le _
  · exact ((custody.executed proc).1).trans (le_max_right _ _)

/-! ## The last addition -/

/-- The slot in which a process is added. -/
def dueTime (cfg : Config ι) : Nat → Nat
  | 0 => cfg.startTime 0
  | proc + 1 => max (cfg.startTime (proc + 1)) (dueTime cfg proc + 1)

def lastLoad (cfg : Config ι) : Nat := dueTime cfg (cfg.numProcesses - 1)

theorem startTime_le_dueTime (cfg : Config ι) (proc : Nat) : cfg.startTime proc ≤ dueTime cfg proc := by
  cases proc with
  | zero => exact le_rfl
  | succ proc => exact le_max_left _ _

theorem dueTime_le_lastLoad {proc : Nat} (known : proc < cfg.numProcesses) : dueTime cfg proc ≤ lastLoad cfg := by
  have mono : Monotone (dueTime cfg) :=
    monotone_nat_of_le_succ fun proc => (Nat.le_succ _).trans (le_max_right _ _)
  exact mono (Nat.le_sub_one_of_lt known)

/-- The loader is not late, before its last addition. -/
def LoaderLoc.InTime (cfg : Config ι) (loaded time : Nat) : LoaderLoc → Prop
  | .head => loaded < cfg.numProcesses → time ≤ dueTime cfg loaded
  | .wait | .addProc => time ≤ dueTime cfg loaded
  | .waitSlot since => since < cfg.startTime loaded ∧ time ≤ since + 1
  | .addSlot since => ∃ proc, loaded = proc + 1 ∧ since ≤ dueTime cfg proc ∧ time ≤ since + 1
  | .setDone | .finished => True

def Os.InTime (cfg : Config ι) (s : Os ι) : Prop := s.loader.InTime cfg s.loaded s.time

theorem Os.InTime.ldRoutine (inTime : s.InTime cfg) (taken : Sched.ldRoutine cfg s = some s') : s'.InTime cfg := by
  unfold Os.InTime at inTime ⊢
  cases here : s.loader <;> rw [here] at inTime <;>
    simp only [Sched.ldRoutine, here, Option.some.injEq, reduceCtorEq] at taken
  case head =>
    subst taken
    dsimp only
    split
    · next more => exact inTime more
    · trivial
  case wait =>
    subst taken
    dsimp only
    split
    · next early => exact ⟨early, Nat.le_succ _⟩
    · exact inTime
  case waitSlot since =>
    split at taken <;> cases taken
    obtain ⟨early, soon⟩ := inTime
    exact soon.trans ((Nat.succ_le_of_lt early).trans (startTime_le_dueTime cfg _))
  case addProc =>
    subst taken
    exact ⟨s.loaded, rfl, inTime, Nat.le_succ _⟩
  case addSlot since =>
    split at taken <;> cases taken
    obtain ⟨proc, loaded, due, soon⟩ := inTime
    intro _
    dsimp only
    rw [loaded]
    exact (soon.trans (Nat.succ_le_succ due)).trans (le_max_right _ _)
  case setDone =>
    subst taken
    trivial

theorem Os.InTime.tick (inTime : s.InTime cfg) (ends : s.SlotEnds cfg .tick) :
    Os.InTime cfg { s with time := s.time + 1 } := by
  unfold Os.InTime at inTime ⊢
  dsimp only
  rcases (ends rfl).2 with here | here | here <;> rw [here] at inTime ⊢
  · exact ⟨inTime.1, le_rfl⟩
  · obtain ⟨proc, loaded, due, _⟩ := inTime
    exact ⟨proc, loaded, due, le_rfl⟩
  · trivial

theorem reachable_inTime (reachable : Reach (Os.Step cfg) (Os.Steady cfg) Os.Begins s) : s.InTime cfg := by
  refine reachable.invariant ?_ ?_
  · intro s begins
    rw [Os.InTime, begins.start.loader, begins.time]
    exact fun _ => Nat.zero_le _
  · intro s l s' inTime steady taken
    cases l with
    | cpu id =>
        rw [Os.Step, Os.exec] at taken
        split at taken
        · obtain ⟨_, _, same⟩ := cpuRoutine_frame taken
          rwa [Os.InTime, same.loader, same.loaded, same.time]
        · cases taken
    | loader => exact inTime.ldRoutine taken
    | tick =>
        cases taken
        exact inTime.tick steady.slotEnds

/-- Until the slot after the last addition, time has not passed it. -/
theorem Os.InTime.early (inTime : s.InTime cfg) (custody : s.Custody cfg) (watched : s.Watched cfg)
    (early : ¬ s.Late cfg) : s.time ≤ lastLoad cfg := by
  unfold Os.InTime at inTime
  rcases Nat.eq_or_lt_of_le custody.loaded with all | more
  · have here : s.loader = .addSlot s.time := by
      by_contra other
      exact early ⟨all, other⟩
    rw [here] at inTime
    obtain ⟨proc, loaded, due, _⟩ := inTime
    exact due.trans (dueTime_le_lastLoad (by omega))
  · refine le_trans ?_ (dueTime_le_lastLoad more)
    cases here : s.loader <;> rw [here] at inTime
    case head => exact inTime more
    case wait | addProc => exact inTime
    case waitSlot since =>
      obtain ⟨before, soon⟩ := inTime
      exact soon.trans ((Nat.succ_le_of_lt before).trans (startTime_le_dueTime cfg _))
    case addSlot since =>
      obtain ⟨proc, loaded, due, soon⟩ := inTime
      rw [loaded]
      exact (soon.trans (Nat.succ_le_succ due)).trans (le_max_right _ _)
    case setDone => exact absurd (watched.all (.inl here)) more.ne
    case finished => exact absurd (watched.all (.inr here)) more.ne

/-! ## The last slot -/

/-- A CPU has run in each slot since the last addition, this one apart. -/
def Os.WellUsed (cfg : Config ι) (s : Os ι) : Prop :=
  s.Late cfg → (∃ proc < cfg.numProcesses, s.finished proc = false) →
    s.time + s.ran cfg ≤ s.work cfg + lastLoad cfg + 1

theorem finished_mono {id proc : Nat} (taken : cpuRoutine cfg s id = some s') (left : s'.finished proc = false) :
    s.finished proc = false := by
  cases cpuRoutine_cases taken with
  | @finished proc' here holds ended =>
      by_cases same : proc = proc'
      · subst same
        cases (Function.update_self proc true s.finished).symm.trans left
      · rwa [← Function.update_of_ne same true s.finished]
  | idle | slotEnds | goesOn | putProc | looks | got | nothing | turn | pastEnd | fetch | execute | nextSlot =>
      exact left

theorem ran_tick (ends : s.SlotEnds cfg .tick) : Os.ran cfg { s with time := s.time + 1 } = 0 := by
  refine Finset.sum_eq_zero fun id member => ?_
  rcases (ends rfl).1 id (Finset.mem_range.mp member) with waits | stopped
  · simp [Os.ranBy, Cpu.hasRun, waits]
  · simp [Os.ranBy, Cpu.hasRun, stopped]

theorem Os.Tended.ran_pos (tended : s.Tended cfg) (custody : s.Custody cfg) (late : s.Late cfg)
    (ends : s.SlotEnds cfg .tick) (left : ∃ proc < cfg.numProcesses, s.finished proc = false) :
    0 < s.ran cfg := by
  obtain ⟨proc, known, left⟩ := left
  obtain ⟨id, inside, runs⟩ := tended.has_run custody late ends known left
  have one : 0 < s.ranBy s.time id := by rw [Os.ranBy, runs]; exact Nat.one_pos
  exact one.trans_le (Finset.single_le_sum (fun _ _ => Nat.zero_le _) (Finset.mem_range.mpr inside))

theorem work_congr (cpus : s'.cpus = s.cpus) (pc : s'.pc = s.pc) (finished : s'.finished = s.finished) :
    s'.work cfg = s.work cfg := by
  refine Finset.sum_congr rfl fun proc _ => ?_
  have served : s'.Served cfg proc ↔ s.Served cfg proc := by rw [Os.Served, Os.Served, cpus, finished]
  simp only [Os.turns, served, pc]

structure Os.Paced (cfg : Config ι) (s : Os ι) : Prop where
  rested : s.Rested cfg
  used : s.WellUsed cfg

theorem Os.Paced.cpuRoutine (paced : s.Paced cfg) (custody : s.Custody cfg) {id : Nat}
    (inside : id < cfg.numCpus) (taken : Sched.cpuRoutine cfg s id = some s') : s'.Paced cfg := by
  refine ⟨paced.rested.cpuRoutine inside taken, ?_⟩
  rintro late ⟨proc, known, left⟩
  obtain ⟨_, _, same⟩ := cpuRoutine_frame taken
  have late' : s.Late cfg := by rwa [Os.Late, ← same.loaded, ← same.loader, ← same.time]
  have before := paced.used late' ⟨proc, known, finished_mono taken left⟩
  have works := cpuRoutine_works custody paced.rested inside taken
  rw [same.time]
  omega

theorem Os.Paced.ldRoutine (paced : s.Paced cfg) (taken : Sched.ldRoutine cfg s = some s') : s'.Paced cfg := by
  obtain ⟨cpus, time, pc, finished, before⟩ := ldRoutine_frame taken
  refine ⟨?_, ?_⟩
  · intro proc code ended
    rw [pc] at ended
    rw [Os.Served, cpus, finished]
    exact paced.rested proc code ended
  · intro late left
    rw [finished] at left
    have ran : s'.ran cfg = s.ran cfg := by
      rw [Os.ran, Os.ran, time]
      refine Finset.sum_congr rfl fun id _ => ?_
      rw [Os.ranBy, Os.ranBy, cpus]
    rw [time, ran, work_congr cpus pc finished]
    exact paced.used (before late).1 left

theorem Os.Paced.tick (paced : s.Paced cfg) (custody : s.Custody cfg) (watched : s.Watched cfg)
    (tended : s.Tended cfg) (inTime : s.InTime cfg) (ends : s.SlotEnds cfg .tick) :
    Os.Paced cfg { s with time := s.time + 1 } := by
  refine ⟨paced.rested, ?_⟩
  intro _ left
  rw [ran_tick ends]
  by_cases late : s.Late cfg
  · have before := paced.used late left
    have ran := tended.ran_pos custody late ends left
    have same : Os.work cfg { s with time := s.time + 1 } = s.work cfg := work_congr rfl rfl rfl
    rw [same]
    dsimp only
    omega
  · have before := inTime.early custody watched late
    dsimp only
    omega

theorem Os.Begins.paced (begins : s.Begins) : s.Paced cfg := by
  refine ⟨?_, ?_⟩
  · intro proc code ended
    rw [begins.start.pc proc] at ended
    exact absurd (List.length_eq_zero_iff.mp ended.symm) code
  · rintro late ⟨proc, known, _⟩
    have all := late.1
    rw [begins.start.loaded] at all
    omega

/-- All processes have finished when each of them has had its turns since the last addition, one in a slot. -/
theorem reachable_makespan (cpus : 0 < cfg.numCpus) (prios : ∀ p < cfg.numProcesses, cfg.prio p < maxPrio)
    (reachable : Reach (Os.Step cfg) (Os.Steady cfg) Os.Begins s) {proc : Nat} (known : proc < cfg.numProcesses)
    (past : lastLoad cfg + 1 + ∑ p ∈ Finset.range cfg.numProcesses, max 1 (cfg.text p).length < s.time) :
    s.finished proc = true ∧ s.pc proc = (cfg.text proc).length := by
  have facts : ∀ s, Reach (Os.Step cfg) (Os.Steady cfg) Os.Begins s → s.Custody cfg ∧ s.Watched cfg ∧
      s.Tended cfg ∧ s.InTime cfg := by
    intro s before
    have regular := reachable_regular before
    exact ⟨reachable_custody prios regular, reachable_watched cpus prios regular,
      reachable_tended cpus prios before, reachable_inTime before⟩
  have paced : s.Paced cfg := by
    refine reachable.invariant_with facts (fun s begins => begins.paced) ?_
    rintro s l s' ⟨custody, watched, tended, inTime⟩ paced steady taken
    cases l with
    | cpu id =>
        rw [Os.Step, Os.exec] at taken
        split at taken
        · next inside => exact paced.cpuRoutine custody inside taken
        · cases taken
    | loader => exact paced.ldRoutine taken
    | tick =>
        cases taken
        exact paced.tick custody watched tended inTime steady.slotEnds
  obtain ⟨custody, watched, _, inTime⟩ := facts s reachable
  have finished : s.finished proc = true := by
    by_contra running
    have bound := work_le custody
    by_cases late : s.Late cfg
    · have used := paced.used late ⟨proc, known, Bool.eq_false_iff.mpr running⟩
      omega
    · have early := inTime.early custody watched late
      omega
  exact ⟨finished, custody.finished proc finished⟩

section Decidable

variable [DecidableEq ι] (cfg s) (l : OsLabel)

instance (loc : GetLoc) : Decidable (s.Seeks l loc) :=
  match l with
  | .cpu id => inferInstanceAs (Decidable ((s.cpus id).loc = _ ∨ s.Searches (.cpu id) loc))
  | .loader | .tick => inferInstanceAs (Decidable False)

instance : Decidable (s.SeeksWell cfg l) :=
  @decidable_of_iff _ (_ ∧ _) ⟨fun both => ⟨both.1, both.2⟩, fun well => ⟨well.ends, well.restarts⟩⟩
    (@instDecidableAnd _ _ inferInstance inferInstance)

end Decidable

end Makespan

end OsSim.Sched
