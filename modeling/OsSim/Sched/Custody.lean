import OsSim.Lib.Tiling
import OsSim.Sched.Machine

namespace OsSim.Sched
open Transition Tiling

section Custody

variable {ι : Type*} {cfg : Config ι} {s s' : Os ι}

/-! ## How often a process is somewhere -/

def Queue.holds (q : Queue) (proc : Nat) : Nat := q.entries.count (some proc)

def Cpu.holds (cpu : Cpu ι) (proc : Nat) : Nat := if cpu.proc = some proc then 1 else 0

def inQueues (mlq : Mlq) (proc : Nat) : Nat :=
  Tiling.count Queue.holds ((List.range maxPrio).map mlq) proc

def inHands (n : Nat) (cpus : Nat → Cpu ι) (proc : Nat) : Nat :=
  Tiling.count Cpu.holds ((List.range n).map cpus) proc

def isLoaded (loaded proc : Nat) : Nat := if proc < loaded then 1 else 0

theorem holds_enqueue (q : Queue) (proc p : Nat) :
    (enqueue q proc).holds p = q.holds p + if proc = p then 1 else 0 := by
  rw [Queue.holds, entries_enqueue, List.count_append, List.count_singleton, ← Queue.holds]
  simp

theorem holds_dequeue (q : Queue) (p : Nat) :
    q.holds p = (dequeue q).2.holds p + if (dequeue q).1 = some p then 1 else 0 := by
  cases empty : q.empty with
  | true => simp [dequeue_of_empty empty]
  | false =>
      rw [Queue.holds, entries_dequeue empty, List.count_cons, ← Queue.holds]
      simp

theorem inQueues_update (mlq : Mlq) {i : Nat} (inside : i < maxPrio) (q : Queue) (p : Nat) :
    inQueues (Function.update mlq i q) p + (mlq i).holds p = inQueues mlq p + q.holds p :=
  count_update List.nodup_range (List.mem_range.mpr inside) mlq q p

theorem inHands_update {n id : Nat} (cpus : Nat → Cpu ι) (inside : id < n) (cpu : Cpu ι) (p : Nat) :
    inHands n (Function.update cpus id cpu) p + (cpus id).holds p = inHands n cpus p + cpu.holds p :=
  count_update List.nodup_range (List.mem_range.mpr inside) cpus cpu p

theorem inHands_release {n id : Nat} {cpus : Nat → Cpu ι} (inside : id < n) {cpu : Cpu ι} {proc : Nat}
    (holds : (cpus id).proc = some proc) (released : cpu.proc = none) (p : Nat) :
    inHands n (Function.update cpus id cpu) p + (if proc = p then 1 else 0) = inHands n cpus p := by
  have moved := inHands_update cpus inside cpu p
  rw [Cpu.holds, Cpu.holds, holds, released] at moved
  simpa only [Option.some.injEq, reduceCtorEq, if_false, Nat.add_zero] using moved

theorem inQueues_congr {mlq mlq' : Mlq} (same : ∀ i, (mlq' i).entries = (mlq i).entries) (p : Nat) :
    inQueues mlq' p = inQueues mlq p := by
  have holds : ∀ i, (mlq' i).holds p = (mlq i).holds p := by
    intro i
    rw [Queue.holds, same i, ← Queue.holds]
  simp [inQueues, Tiling.count, List.map_map, Function.comp_def, holds]

/-! ## The invariant -/

def Cpu.Controlled (cfg : Config ι) (pc : Nat → Nat) (cpu : Cpu ι) : Prop :=
  match cpu.loc with
  | .getProc _ loc => cpu.proc = none ∧ loc.Inside
  | .execute ins => ∃ proc, cpu.proc = some proc ∧ (cfg.text proc)[pc proc]? = some ins
  | .stopped => cpu.proc = none
  | _ => True

def LoaderLoc.loading : LoaderLoc → Bool
  | .wait | .waitSlot _ | .addProc => true
  | _ => false

structure Os.Custody (cfg : Config ι) (s : Os ι) : Prop where
  once : ∀ p, inQueues s.mlq p + inHands cfg.numCpus s.cpus p + (s.finished p).toNat =
    isLoaded s.loaded p
  entries : ∀ i < maxPrio, ∀ e ∈ (s.mlq i).entries, ∃ proc, e = some proc ∧ cfg.prio proc = i
  controlled : ∀ id < cfg.numCpus, (s.cpus id).Controlled cfg s.pc
  loaded : s.loaded ≤ cfg.numProcesses
  loading : s.loader.loading = true → s.loaded < cfg.numProcesses
  executed : ∀ p, s.pc p ≤ (cfg.text p).length ∧ s.executed p = (cfg.text p).take (s.pc p)
  finished : ∀ p, s.finished p = true → s.pc p = (cfg.text p).length

theorem Os.Custody.once_le (custody : s.Custody cfg) (p : Nat) :
    inQueues s.mlq p + inHands cfg.numCpus s.cpus p + (s.finished p).toNat ≤ 1 := by
  rw [custody.once p, isLoaded]
  split <;> omega

/-- A process in the hands of a CPU is loaded, is in no other hands and has not finished. -/
theorem Os.Custody.in_hands (custody : s.Custody cfg) {id : Nat} (inside : id < cfg.numCpus) {proc : Nat}
    (holds : (s.cpus id).proc = some proc) :
    proc < s.loaded ∧ s.finished proc = false ∧
      ∀ other < cfg.numCpus, other ≠ id → (s.cpus other).proc ≠ some proc := by
  have once := custody.once proc
  have bound := custody.once_le proc
  have mine : (s.cpus id).holds proc = 1 := if_pos holds
  have counted : (s.cpus id).holds proc ≤ inHands cfg.numCpus s.cpus proc :=
    weight_le_count (List.mem_range.mpr inside) s.cpus proc
  refine ⟨?_, ?_, ?_⟩
  · by_contra absent
    rw [isLoaded, if_neg absent] at once
    omega
  · cases freed : s.finished proc with
    | false => rfl
    | true =>
        rw [freed, Bool.toNat_true] at bound
        omega
  · intro other inside' different holds'
    have theirs : (s.cpus other).holds proc = 1 := if_pos holds'
    have both : (s.cpus other).holds proc + (s.cpus id).holds proc ≤
        inHands cfg.numCpus s.cpus proc :=
      add_le_count (List.mem_range.mpr inside') (List.mem_range.mpr inside) different s.cpus proc
    omega

theorem Os.Start.custody (start : s.Start) : s.Custody cfg := by
  obtain ⟨⟨block, mlq⟩, cpus, loader, loaded, done, pc, finished, executed⟩ := start
  have entries : ∀ i < maxPrio, (s.mlq i).entries = [] := by
    intro i inside
    rw [mlq, initScheduler, if_pos inside]
    rfl
  refine ⟨?_, ?_, ?_, ?_, ?_, ?_, ?_⟩
  · intro p
    have noQueue : inQueues s.mlq p = 0 := by
      by_contra some
      obtain ⟨q, member, holds⟩ := count_pos_iff.mp (Nat.pos_of_ne_zero some)
      obtain ⟨i, inside, rfl⟩ := List.mem_map.mp member
      rw [Queue.holds, entries i (List.mem_range.mp inside)] at holds
      cases holds
    have noHand : inHands cfg.numCpus s.cpus p = 0 := by
      by_contra some
      obtain ⟨cpu, member, holds⟩ := count_pos_iff.mp (Nat.pos_of_ne_zero some)
      obtain ⟨id, _, rfl⟩ := List.mem_map.mp member
      rw [Cpu.holds, cpus id] at holds
      cases holds
    rw [noQueue, noHand, finished p, loaded]
    rfl
  · intro i inside e member
    rw [entries i inside] at member
    cases member
  · intro id _
    rw [cpus id]
    trivial
  · rw [loaded]
    exact Nat.zero_le _
  · rw [loader]
    nofun
  · intro p
    rw [pc p, executed p]
    exact ⟨Nat.zero_le _, rfl⟩
  · intro p freed
    rw [finished p] at freed
    cases freed

/-! ## Steps -/

theorem controlled_setCpu {id : Nat} {cpu : Cpu ι} {pc : Nat → Nat}
    (others : ∀ other < cfg.numCpus, other ≠ id → (s.cpus other).Controlled cfg pc)
    (mine : cpu.Controlled cfg pc) :
    ∀ other < cfg.numCpus, (Function.update s.cpus id cpu other).Controlled cfg pc := by
  intro other inside
  by_cases same : other = id
  · rw [same, Function.update_self]
    exact mine
  · rw [Function.update_of_ne same]
    exact others other inside same

theorem Os.Custody.quiet (custody : s.Custody cfg) {id : Nat} (inside : id < cfg.numCpus) {cpu : Cpu ι}
    {mlq : Mlq} (entries : ∀ i, (mlq i).entries = (s.mlq i).entries)
    (proc : cpu.proc = (s.cpus id).proc) (controlled : cpu.Controlled cfg s.pc) :
    Os.Custody cfg { s.setCpu id cpu with mlq := mlq } := by
  have hands := inHands_update s.cpus inside cpu
  refine ⟨?_, ?_, ?_, custody.loaded, custody.loading, custody.executed, custody.finished⟩
  · intro p
    have once := custody.once p
    have same := hands p
    have holds : cpu.holds p = (s.cpus id).holds p := by rw [Cpu.holds, proc, ← Cpu.holds]
    dsimp only [Os.setCpu]
    rw [inQueues_congr entries]
    omega
  · intro i inside' e member
    rw [entries i] at member
    exact custody.entries i inside' e member
  · exact controlled_setCpu (fun other inside' _ => custody.controlled other inside') controlled

theorem Os.Custody.finish (custody : s.Custody cfg) {id : Nat} (inside : id < cfg.numCpus) {cpu : Cpu ι}
    {proc : Nat} (holds : (s.cpus id).proc = some proc) (ended : s.pc proc = (cfg.text proc).length)
    (released : cpu.proc = none) (controlled : cpu.Controlled cfg s.pc) :
    Os.Custody cfg { s.setCpu id cpu with finished := Function.update s.finished proc true } := by
  obtain ⟨_, running, _⟩ := custody.in_hands inside holds
  refine ⟨?_, custody.entries, ?_, custody.loaded, custody.loading, custody.executed, ?_⟩
  · intro p
    have once := custody.once p
    have moved := inHands_release inside holds released p
    dsimp only [Os.setCpu]
    by_cases same : p = proc
    · subst same
      rw [Function.update_self, Bool.toNat_true]
      rw [running, Bool.toNat_false] at once
      rw [if_pos rfl] at moved
      omega
    · rw [Function.update_of_ne same]
      rw [if_neg (Ne.symm same)] at moved
      omega
  · exact controlled_setCpu (fun other inside' _ => custody.controlled other inside') controlled
  · intro p freed
    dsimp only at freed
    by_cases same : p = proc
    · rw [same]
      exact ended
    · rw [Function.update_of_ne same] at freed
      exact custody.finished p freed

theorem entries_put {mlq : Mlq} (entries : ∀ i < maxPrio, ∀ e ∈ (mlq i).entries,
      ∃ proc, e = some proc ∧ cfg.prio proc = i) (proc : Nat) :
    ∀ i < maxPrio, ∀ e ∈ (putMlqProc mlq proc (cfg.prio proc) i).entries,
      ∃ p, e = some p ∧ cfg.prio p = i := by
  intro i inside e member
  by_cases same : i = cfg.prio proc
  · rw [putMlqProc, same, Function.update_self, entries_enqueue] at member
    rcases List.mem_append.mp member with old | new
    · rw [same]
      exact entries _ (same ▸ inside) e old
    · exact ⟨proc, List.mem_singleton.mp new, same.symm⟩
  · rw [putMlqProc, Function.update_of_ne same] at member
    exact entries i inside e member

theorem inQueues_put (mlq : Mlq) {prio : Nat} (inside : prio < maxPrio) (proc p : Nat) :
    inQueues (putMlqProc mlq proc prio) p = inQueues mlq p + if proc = p then 1 else 0 := by
  have updated := inQueues_update mlq inside (enqueue (mlq prio) proc) p
  rw [holds_enqueue] at updated
  rw [putMlqProc]
  omega

theorem Os.Custody.put (custody : s.Custody cfg) (prios : ∀ p < cfg.numProcesses, cfg.prio p < maxPrio)
    {id : Nat} (inside : id < cfg.numCpus) {cpu : Cpu ι} {proc : Nat}
    (holds : (s.cpus id).proc = some proc) (released : cpu.proc = none)
    (controlled : cpu.Controlled cfg s.pc) :
    Os.Custody cfg { s.setCpu id cpu with mlq := putMlqProc s.mlq proc (cfg.prio proc) } := by
  obtain ⟨known, _, _⟩ := custody.in_hands inside holds
  have prio := prios proc (Nat.lt_of_lt_of_le known custody.loaded)
  refine ⟨?_, entries_put custody.entries proc, ?_, custody.loaded, custody.loading, custody.executed,
    custody.finished⟩
  · intro p
    have once := custody.once p
    have moved := inHands_release inside holds released p
    dsimp only [Os.setCpu]
    rw [inQueues_put s.mlq prio]
    omega
  · exact controlled_setCpu (fun other inside' _ => custody.controlled other inside') controlled

theorem Os.Custody.take (custody : s.Custody cfg) {id : Nat} (inside : id < cfg.numCpus) {cpu : Cpu ι}
    {i : Nat} (insideI : i < maxPrio) {q : Queue} (rest : q.entries = (dequeue (s.mlq i)).2.entries)
    (idle : (s.cpus id).proc = none) (takes : cpu.proc = (dequeue (s.mlq i)).1)
    (controlled : cpu.Controlled cfg s.pc) :
    Os.Custody cfg { s.setCpu id cpu with mlq := Function.update s.mlq i q } := by
  have hands := inHands_update s.cpus inside cpu
  have queues := inQueues_update s.mlq insideI q
  refine ⟨?_, ?_, ?_, custody.loaded, custody.loading, custody.executed, custody.finished⟩
  · intro p
    have once := custody.once p
    have moved := hands p
    have left := queues p
    rw [holds_dequeue (s.mlq i) p, Queue.holds, Queue.holds, rest] at left
    rw [Cpu.holds, Cpu.holds, idle, takes] at moved
    dsimp only [Os.setCpu]
    simp only [reduceCtorEq, if_false] at moved
    omega
  · intro j insideJ e member
    dsimp only at member
    by_cases same : j = i
    · rw [same, Function.update_self, rest] at member
      refine same ▸ custody.entries i insideI e ?_
      cases empty : (s.mlq i).empty with
      | true =>
          rw [dequeue_of_empty empty] at member
          exact member
      | false =>
          rw [entries_dequeue empty]
          exact List.mem_cons_of_mem _ member
    · rw [Function.update_of_ne same] at member
      exact custody.entries j insideJ e member
  · exact controlled_setCpu (fun other inside' _ => custody.controlled other inside') controlled

theorem Os.Custody.run (custody : s.Custody cfg) {id : Nat} (inside : id < cfg.numCpus) {cpu : Cpu ι}
    {proc : Nat} {ins : ι} (holds : (s.cpus id).proc = some proc)
    (fetched : (cfg.text proc)[s.pc proc]? = some ins) (keeps : cpu.proc = some proc)
    (controlled : ∀ pc, cpu.Controlled cfg pc) :
    Os.Custody cfg { s.setCpu id cpu with
      pc := Function.update s.pc proc (s.pc proc + 1)
      executed := Function.update s.executed proc (s.executed proc ++ [ins]) } := by
  have hands := inHands_update s.cpus inside cpu
  obtain ⟨_, running, apart⟩ := custody.in_hands inside holds
  refine ⟨?_, custody.entries, ?_, custody.loaded, custody.loading, ?_, ?_⟩
  · intro p
    have once := custody.once p
    have moved := hands p
    rw [Cpu.holds, Cpu.holds, holds, keeps] at moved
    dsimp only [Os.setCpu]
    omega
  · refine controlled_setCpu (fun other inside' different => ?_) (controlled _)
    have before := custody.controlled other inside'
    unfold Cpu.Controlled at before ⊢
    split at before
    · exact before
    · obtain ⟨proc', holds', fetched'⟩ := before
      refine ⟨proc', holds', ?_⟩
      dsimp only
      rw [Function.update_of_ne]
      · exact fetched'
      · rintro rfl
        exact apart other inside' different holds'
    · exact before
    · trivial
  · intro p
    obtain ⟨bound, executed⟩ := custody.executed p
    dsimp only
    by_cases same : p = proc
    · subst same
      obtain ⟨more, at_pc⟩ := List.getElem?_eq_some_iff.mp fetched
      rw [Function.update_self, Function.update_self, executed]
      refine ⟨more, ?_⟩
      rw [← at_pc, List.take_append_getElem]
    · rw [Function.update_of_ne same, Function.update_of_ne same]
      exact ⟨bound, executed⟩
  · intro p freed
    have ended := custody.finished p freed
    dsimp only at freed ⊢
    rw [Function.update_of_ne]
    · exact ended
    · rintro rfl
      exact absurd freed (by simp [Os.setCpu, running])

theorem entries_getMlqProc (mlq : Mlq) {loc : GetLoc} (inside : loc.Inside) (other : ∀ i, loc ≠ .take i) (i : Nat) :
    ((getMlqProc mlq loc).1 i).entries = (mlq i).entries := by
  rcases (getMlqProc_quiet mlq inside other).1 with same | reset
  · rw [same]
  · rw [reset, entries_resetSlot]

theorem Os.Custody.cpuRoutine (custody : s.Custody cfg) (prios : ∀ p < cfg.numProcesses, cfg.prio p < maxPrio)
    {id : Nat} (inside : id < cfg.numCpus) (taken : Sched.cpuRoutine cfg s id = some s') :
    s'.Custody cfg := by
  have still : ∀ {cpu : Cpu ι}, cpu.proc = (s.cpus id).proc → cpu.Controlled cfg s.pc →
      Os.Custody cfg (s.setCpu id cpu) := custody.quiet inside fun _ => rfl
  have controlled := custody.controlled id inside
  cases cpuRoutine_cases taken with
  | idle here holds => exact still rfl ⟨holds, GetLoc.inside_start⟩
  | finished here holds ended => exact custody.finish inside holds ended rfl ⟨rfl, GetLoc.inside_start⟩
  | slotEnds | goesOn | turn | pastEnd | nextSlot => exact still rfl trivial
  | putProc here holds => exact custody.put prios inside holds rfl ⟨rfl, GetLoc.inside_start⟩
  | @looks branch loc next here result =>
      simp only [Cpu.Controlled, here] at controlled
      obtain ⟨idle, insideLoc⟩ := controlled
      have other : ∀ i, loc ≠ .take i := by
        rintro i rfl
        cases result
      exact custody.quiet inside (entries_getMlqProc s.mlq insideLoc other) rfl ⟨idle, insideLoc.step result⟩
  | @got branch loc proc here result =>
      simp only [Cpu.Controlled, here] at controlled
      obtain ⟨idle, insideLoc⟩ := controlled
      have settled : ∀ {cpu : Cpu ι}, cpu.loc = (if branch = .idle ∧ proc = none then .nextSlot s.time else .recheck) →
          cpu.Controlled cfg s.pc := by
        intro cpu here'
        rw [Cpu.Controlled, here']
        split_ifs <;> trivial
      by_cases other : ∀ i, loc ≠ .take i
      · rcases (getMlqProc_quiet s.mlq insideLoc other).2 with ⟨loc', next⟩ | null
        · cases result.symm.trans next
        · cases result.symm.trans null
          exact custody.quiet inside (entries_getMlqProc s.mlq insideLoc other) idle.symm (settled rfl)
      · simp only [not_forall, not_not] at other
        obtain ⟨i, rfl⟩ := other
        cases result
        exact custody.take inside (insideLoc i rfl) rfl idle rfl (settled rfl)
  | nothing here holds =>
      refine still rfl ?_
      dsimp only [Cpu.Controlled]
      split_ifs
      · exact holds
      · trivial
  | fetch here holds fetched => exact still rfl ⟨_, holds, fetched⟩
  | execute here holds =>
      simp only [Cpu.Controlled, here] at controlled
      obtain ⟨proc', holds', fetched⟩ := controlled
      cases holds.symm.trans holds'
      exact custody.run inside holds fetched holds fun _ => trivial

theorem Os.Custody.ldRoutine (custody : s.Custody cfg)
    (prios : ∀ p < cfg.numProcesses, cfg.prio p < maxPrio) (taken : Sched.ldRoutine cfg s = some s') :
    s'.Custody cfg := by
  have still : ∀ {loader : LoaderLoc} {done : Bool},
      (loader.loading = true → s.loaded < cfg.numProcesses) →
      Os.Custody cfg { s with loader := loader, done := done } := by
    intro loader done loading
    exact ⟨custody.once, custody.entries, custody.controlled, custody.loaded, loading,
      custody.executed, custody.finished⟩
  have loading := custody.loading
  cases here : s.loader <;> rw [here] at loading <;>
    simp only [Sched.ldRoutine, here, Option.some.injEq, reduceCtorEq] at taken
  case head =>
    subst taken
    refine still fun more => ?_
    by_contra all
    rw [if_neg all] at more
    cases more
  case wait =>
    subst taken
    exact still fun _ => loading rfl
  case waitSlot since =>
    split at taken <;> cases taken
    exact still fun _ => loading rfl
  case addProc =>
    subst taken
    have more := loading rfl
    refine ⟨?_, entries_put custody.entries s.loaded, custody.controlled, more, nofun, custody.executed,
      custody.finished⟩
    intro p
    have once := custody.once p
    have added : isLoaded (s.loaded + 1) p = isLoaded s.loaded p + if s.loaded = p then 1 else 0 := by
      simp only [isLoaded]
      split_ifs <;> omega
    have queues := inQueues_put s.mlq (prios s.loaded more) s.loaded p
    dsimp only
    rw [added, ← once, show addMlqProc s.mlq s.loaded _ = putMlqProc s.mlq s.loaded _ from rfl, queues]
    omega
  case addSlot since =>
    split at taken <;> cases taken
    exact still nofun
  case setDone =>
    subst taken
    exact still nofun

theorem Os.Custody.exec (custody : s.Custody cfg) (prios : ∀ p < cfg.numProcesses, cfg.prio p < maxPrio)
    {l : OsLabel} (taken : s.exec cfg l = some s') : s'.Custody cfg := by
  cases l with
  | cpu id =>
      rw [Os.exec] at taken
      split at taken
      · next inside => exact custody.cpuRoutine prios inside taken
      · cases taken
  | loader => exact custody.ldRoutine prios taken
  | tick =>
      cases taken
      exact ⟨custody.once, custody.entries, custody.controlled, custody.loaded, custody.loading,
        custody.executed, custody.finished⟩

theorem reachable_custody {ok : Os ι → OsLabel → Prop}
    (prios : ∀ p < cfg.numProcesses, cfg.prio p < maxPrio)
    (reachable : Reach (Os.Step cfg) ok Os.Start s) : s.Custody cfg := by
  refine reachable.invariant (fun s start => start.custody) ?_
  intro s l s' custody _ taken
  exact custody.exec prios taken

/-! ## Each process is in one place -/

/-- A position of a ready queue, the hands of a CPU, or the processes that have finished. -/
inductive Place
  | queue (prio pos : Nat)
  | cpu (id : Nat)
  | finished

def Os.At (cfg : Config ι) (s : Os ι) (proc : Nat) : Place → Prop
  | .queue prio pos => prio < maxPrio ∧ (s.mlq prio).entries[pos]? = some (some proc)
  | .cpu id => id < cfg.numCpus ∧ (s.cpus id).proc = some proc
  | .finished => s.finished proc = true

theorem holds_pos_of_entry {q : Queue} {pos proc : Nat} (entry : q.entries[pos]? = some (some proc)) :
    0 < q.holds proc :=
  List.count_pos_iff.mpr (List.mem_of_getElem? entry)

theorem pos_unique {entries : List (Option Nat)} {entry : Option Nat} (once : entries.count entry ≤ 1)
    {i j : Nat} (first : entries[i]? = some entry) (second : entries[j]? = some entry) : i = j := by
  induction entries generalizing i j with
  | nil => simp at first
  | cons head rest ih =>
      rw [List.count_cons] at once
      cases i with
      | zero =>
          cases j with
          | zero => rfl
          | succ j =>
              have same : head = entry := Option.some.inj first
              have later : 0 < rest.count entry := List.count_pos_iff.mpr (List.mem_of_getElem? second)
              simp only [same, BEq.rfl, if_true] at once
              omega
      | succ i =>
          cases j with
          | zero =>
              have same : head = entry := Option.some.inj second
              have later : 0 < rest.count entry := List.count_pos_iff.mpr (List.mem_of_getElem? first)
              simp only [same, BEq.rfl, if_true] at once
              omega
          | succ j => exact congrArg (· + 1) (ih (by omega) first second)

theorem Os.Custody.place_exists (custody : s.Custody cfg) {proc : Nat} (added : proc < s.loaded) :
    ∃ place, s.At cfg proc place := by
  have once := custody.once proc
  rw [isLoaded, if_pos added] at once
  by_cases queued : 0 < inQueues s.mlq proc
  · obtain ⟨q, member, holds⟩ := count_pos_iff.mp queued
    obtain ⟨prio, inside, rfl⟩ := List.mem_map.mp member
    obtain ⟨pos, entry⟩ := List.mem_iff_getElem?.mp (List.count_pos_iff.mp holds)
    exact ⟨.queue prio pos, List.mem_range.mp inside, entry⟩
  · by_cases held : 0 < inHands cfg.numCpus s.cpus proc
    · obtain ⟨cpu, member, holds⟩ := count_pos_iff.mp held
      obtain ⟨id, inside, rfl⟩ := List.mem_map.mp member
      refine ⟨.cpu id, List.mem_range.mp inside, ?_⟩
      by_contra other
      rw [Cpu.holds, if_neg other] at holds
      cases holds
    · refine ⟨.finished, ?_⟩
      cases freed : s.finished proc with
      | true => exact freed
      | false =>
          rw [freed, Bool.toNat_false] at once
          omega

theorem Os.Custody.place_unique (custody : s.Custody cfg) {proc : Nat} {place place' : Place}
    (here : s.At cfg proc place) (there : s.At cfg proc place') : place = place' := by
  have bound := custody.once_le proc
  have queued : ∀ {prio pos}, s.At cfg proc (.queue prio pos) → 0 < inQueues s.mlq proc := by
    rintro prio pos ⟨inside, entry⟩
    exact Nat.lt_of_lt_of_le (holds_pos_of_entry entry)
      (weight_le_count (List.mem_range.mpr inside) s.mlq proc)
  have held : ∀ {id}, s.At cfg proc (.cpu id) → 0 < inHands cfg.numCpus s.cpus proc := by
    rintro id ⟨inside, holds⟩
    have mine : 0 < (s.cpus id).holds proc := by simp [Cpu.holds, holds]
    exact Nat.lt_of_lt_of_le mine (weight_le_count (List.mem_range.mpr inside) s.cpus proc)
  have freed : s.At cfg proc .finished → (s.finished proc).toNat = 1 := fun gone => by
    rw [show s.finished proc = true from gone, Bool.toNat_true]
  rcases place with ⟨prio, pos⟩ | ⟨id⟩ | _ <;> rcases place' with ⟨prio', pos'⟩ | ⟨id'⟩ | _
  · obtain ⟨inside, entry⟩ := here
    obtain ⟨inside', entry'⟩ := there
    by_cases same : prio = prio'
    · subst same
      have once : (s.mlq prio).holds proc ≤ inQueues s.mlq proc :=
        weight_le_count (List.mem_range.mpr inside) s.mlq proc
      rw [pos_unique (by rw [← Queue.holds]; omega) entry entry']
    · have both : (s.mlq prio).holds proc + (s.mlq prio').holds proc ≤ inQueues s.mlq proc :=
        add_le_count (List.mem_range.mpr inside) (List.mem_range.mpr inside') same s.mlq proc
      have first := holds_pos_of_entry entry
      have second := holds_pos_of_entry entry'
      omega
  · have := queued here
    have := held there
    omega
  · have := queued here
    have := freed there
    omega
  · have := held here
    have := queued there
    omega
  · by_contra different
    exact (custody.in_hands here.1 here.2).2.2 id' there.1 (fun same => different (by rw [same])) there.2
  · have := held here
    have := freed there
    omega
  · have := freed here
    have := queued there
    omega
  · have := freed here
    have := held there
    omega
  · rfl

/-- Each process added so far is in one place, in a queue in the one of its priority; it is finished only at the
end of its code; and its instructions up to `pc` were executed once each and in order. -/
structure Os.Accounted (cfg : Config ι) (s : Os ι) : Prop where
  place : ∀ proc < s.loaded, ∃! place, s.At cfg proc place
  prio : ∀ proc prio pos, s.At cfg proc (.queue prio pos) → prio = cfg.prio proc
  finished : ∀ proc, s.At cfg proc .finished → s.pc proc = (cfg.text proc).length
  executed : ∀ proc, s.pc proc ≤ (cfg.text proc).length ∧
    s.executed proc = (cfg.text proc).take (s.pc proc)

theorem reachable_accounted (prios : ∀ p < cfg.numProcesses, cfg.prio p < maxPrio)
    (reachable : Reach (Os.Step cfg) (Os.HasRoom cfg) Os.Start s) : s.Accounted cfg := by
  have custody := reachable_custody prios reachable
  refine ⟨?_, ?_, custody.finished, custody.executed⟩
  · intro proc added
    obtain ⟨place, here⟩ := custody.place_exists added
    exact ⟨place, here, fun other there => custody.place_unique there here⟩
  · rintro proc prio pos ⟨inside, entry⟩
    obtain ⟨proc', same, prio'⟩ := custody.entries prio inside _ (List.mem_of_getElem? entry)
    rw [Option.some.inj same]
    exact prio'.symm

end Custody

/-- Two CPUs and two processes of the highest priority. -/
def twoCpus : Config Char :=
  { timeSlot := 1, numCpus := 2, numProcesses := 2, startTime := fun _ => 0, prio := fun _ => 0
    text := fun proc => if proc = 0 then ['a', 'b'] else ['c'] }

def startOs : Os Char :=
  { mlq := initScheduler fun _ => ⟨fun _ => none, 0, 0⟩, cpus := fun _ => ⟨0, none, .top⟩, loader := .head
    loaded := 0, done := false, time := 0, pc := fun _ => 0, finished := fun _ => false
    executed := fun _ => [] }

theorem startOs_start : startOs.Start :=
  ⟨⟨_, rfl⟩, fun _ => rfl, rfl, rfl, rfl, fun _ => rfl, fun _ => rfl, fun _ => rfl⟩

/-- The CPUs take turns, CPU 0 first. -/
def turns (n : Nat) : List OsLabel := (List.replicate n [.cpu 0, .cpu 1]).flatten

/-- Both CPUs see the process 0 in its queue, and CPU 0 takes it and executes its first instruction. -/
def firstSlot : List OsLabel := List.replicate 3 .loader ++ turns 5 ++ List.replicate 3 (.cpu 0)

/-- CPU 0 puts the process back, CPU 1 executes its second instruction, and the loader adds the process 1. -/
def secondSlot : List OsLabel := .tick :: List.replicate 3 .loader ++ turns 8 ++ [.cpu 1, .loader]

def secondInstruction : Os Char :=
  follow (Os.exec twoCpus) (Os.HasRoom twoCpus) startOs (firstSlot ++ secondSlot)

theorem twoCpus_accounted :
    secondInstruction.executed 0 = ['a', 'b'] ∧ (secondInstruction.mlq 0).entries = [some 1] ∧
      secondInstruction.Accounted twoCpus := by
  have top : ∀ p < twoCpus.numProcesses, twoCpus.prio p < maxPrio :=
    fun _ _ => (by decide : 0 < maxPrio)
  have reachable : Reach (Os.Step twoCpus) (Os.HasRoom twoCpus) Os.Start secondInstruction := by
    rw [secondInstruction]
    exact Reach.follow (fun _ _ => id) (.start startOs_start) _
  exact ⟨by decide +kernel, by decide +kernel, reachable_accounted top reachable⟩

end OsSim.Sched
