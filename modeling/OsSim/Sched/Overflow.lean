import OsSim.Sched.Stopping

namespace OsSim.Sched
open Transition Tiling

section Overflow

variable {ι : Type*} (cfg : Config ι) (s : Os ι)

/-! ## The processes that wait -/

/-- The process has been loaded, has not finished and is in the hands of no CPU. -/
def Os.Waits (proc : Nat) : Prop :=
  s.finished proc = false ∧ ∀ id < cfg.numCpus, (s.cpus id).proc ≠ some proc

instance (proc : Nat) : Decidable (s.Waits cfg proc) :=
  inferInstanceAs (Decidable (_ ∧ _))

def Os.waiting (prio : Nat) : List Nat :=
  (List.range s.loaded).filter fun proc => cfg.prio proc = prio ∧ s.Waits cfg proc

/-- A process is put or added when fewer processes of its priority wait than a queue has room for. -/
def Os.NotCrowded (l : OsLabel) : Prop :=
  ∀ proc ∈ s.enqueues l, (s.waiting cfg (cfg.prio proc)).length < maxQueueSize

instance (l : OsLabel) : Decidable (s.NotCrowded cfg l) :=
  inferInstanceAs (Decidable (∀ proc ∈ s.enqueues l, _))

variable {cfg s} {s' : Os ι}

theorem mem_waiting {prio proc : Nat} :
    proc ∈ s.waiting cfg prio ↔ proc < s.loaded ∧ cfg.prio proc = prio ∧ s.Waits cfg proc := by
  simp [Os.waiting]

theorem Os.Custody.entry_waits (custody : s.Custody cfg) {prio proc : Nat} (inside : prio < maxPrio)
    (entry : some proc ∈ (s.mlq prio).entries) : proc ∈ s.waiting cfg prio := by
  obtain ⟨proc', same, prio'⟩ := custody.entries prio inside _ entry
  obtain rfl := Option.some.inj same
  have once := custody.once proc
  have bound := custody.once_le proc
  have here : 0 < (s.mlq prio).holds proc := List.count_pos_iff.mpr entry
  have counted : (s.mlq prio).holds proc ≤ inQueues s.mlq proc :=
    weight_le_count (List.mem_range.mpr inside) s.mlq proc
  refine mem_waiting.mpr ⟨?_, prio', ?_, ?_⟩
  · by_contra absent
    rw [isLoaded, if_neg absent] at once
    omega
  · cases freed : s.finished proc with
    | false => rfl
    | true =>
        rw [freed, Bool.toNat_true] at bound
        omega
  · intro id inside' holds
    have mine : (s.cpus id).holds proc = 1 := if_pos holds
    have held : (s.cpus id).holds proc ≤ inHands cfg.numCpus s.cpus proc :=
      weight_le_count (List.mem_range.mpr inside') s.cpus proc
    omega

theorem Os.Custody.waits_entry (custody : s.Custody cfg) {prio proc : Nat}
    (waits : proc ∈ s.waiting cfg prio) : some proc ∈ (s.mlq prio).entries := by
  obtain ⟨added, prio', running, free⟩ := mem_waiting.mp waits
  obtain ⟨place, here⟩ := custody.place_exists added
  cases place with
  | queue prio'' pos =>
      obtain ⟨inside, entry⟩ := here
      obtain ⟨proc', same, prio'''⟩ := custody.entries prio'' inside _ (List.mem_of_getElem? entry)
      obtain rfl := Option.some.inj same
      obtain rfl : prio'' = prio := prio'''.symm.trans prio'
      exact List.mem_of_getElem? entry
  | cpu id => exact absurd here.2 (free id here.1)
  | finished =>
      rw [show s.finished proc = true from here] at running
      cases running

theorem Os.Custody.entries_nodup (custody : s.Custody cfg) {prio : Nat} (inside : prio < maxPrio) :
    (s.mlq prio).entries.Nodup := by
  apply List.nodup_iff_count_le_one.mpr
  intro e
  by_cases member : e ∈ (s.mlq prio).entries
  · obtain ⟨proc, rfl, _⟩ := custody.entries prio inside e member
    have bound := custody.once_le proc
    have counted : (s.mlq prio).holds proc ≤ inQueues s.mlq proc :=
      weight_le_count (List.mem_range.mpr inside) s.mlq proc
    rw [← Queue.holds]
    omega
  · rw [List.count_eq_zero_of_not_mem member]
    exact Nat.zero_le 1

/-- The queue of a priority holds the processes of this priority that wait, each of them once. -/
theorem Os.Custody.entries_perm (custody : s.Custody cfg) {prio : Nat} (inside : prio < maxPrio) :
    (s.mlq prio).entries.Perm ((s.waiting cfg prio).map some) := by
  have nodup : ((s.waiting cfg prio).map some).Nodup :=
    (List.nodup_range.filter _).map fun _ _ same => Option.some.inj same
  apply (List.perm_ext_iff_of_nodup (custody.entries_nodup inside) nodup).mpr
  intro e
  constructor
  · intro member
    obtain ⟨proc, rfl, _⟩ := custody.entries prio inside e member
    exact List.mem_map_of_mem (custody.entry_waits inside member)
  · intro member
    obtain ⟨proc, waits, rfl⟩ := List.mem_map.mp member
    exact custody.waits_entry waits

theorem Os.Custody.size_eq (custody : s.Custody cfg) {prio : Nat} (inside : prio < maxPrio) :
    (s.mlq prio).size = (s.waiting cfg prio).length := by
  rw [← Queue.length_entries, (custody.entries_perm inside).length_eq, List.length_map]

/-! ## The processes that are put and added -/

/-- A process that is put comes out of the hands of a CPU, one that is added is the next to be loaded. -/
theorem Os.Custody.enqueued (custody : s.Custody cfg) {l : OsLabel} (taken : s.exec cfg l = some s') {proc : Nat}
    (enqueued : proc ∈ s.enqueues l) :
    proc < cfg.numProcesses ∧ proc ∉ s.waiting cfg (cfg.prio proc) ∧
      s'.mlq = putMlqProc s.mlq proc (cfg.prio proc) := by
  cases l with
  | cpu id =>
      rw [Os.exec] at taken
      split at taken
      · next inside =>
        cases here : (s.cpus id).loc <;> simp only [Os.enqueues, here] at enqueued
        case putProc =>
          have holds : (s.cpus id).proc = some proc := enqueued
          simp only [Sched.cpuRoutine, here, holds, Option.map_some, Option.some.injEq] at taken
          subst taken
          refine ⟨Nat.lt_of_lt_of_le (custody.in_hands inside holds).1 custody.loaded, ?_, rfl⟩
          intro waits
          exact (mem_waiting.mp waits).2.2.2 id inside holds
        all_goals cases enqueued
      · cases taken
  | loader =>
      rw [Os.enqueues] at enqueued
      split at enqueued
      · next adds =>
        obtain rfl : s.loaded = proc := Option.some.inj enqueued
        simp only [Os.exec, Sched.ldRoutine, adds, Option.some.injEq] at taken
        subst taken
        refine ⟨custody.loading (by rw [adds]; rfl), ?_, rfl⟩
        intro waits
        exact Nat.lt_irrefl _ (mem_waiting.mp waits).1
      · cases enqueued
  | tick => cases enqueued

/-- A priority with at most as many processes as a queue has room for is never crowded. -/
theorem Os.Custody.notCrowded_of_few (custody : s.Custody cfg) {l : OsLabel} (taken : s.exec cfg l = some s')
    (few : ∀ prio, ((List.range cfg.numProcesses).filter fun proc => cfg.prio proc = prio).length ≤ maxQueueSize) :
    s.NotCrowded cfg l := by
  intro proc enqueued
  obtain ⟨known, out, _⟩ := custody.enqueued taken enqueued
  have nodup : (proc :: s.waiting cfg (cfg.prio proc)).Nodup :=
    List.nodup_cons.mpr ⟨out, List.nodup_range.filter _⟩
  have inside : proc :: s.waiting cfg (cfg.prio proc) ⊆
      (List.range cfg.numProcesses).filter fun p => cfg.prio p = cfg.prio proc := by
    intro p member
    rcases List.mem_cons.mp member with rfl | waits
    · simpa using known
    · obtain ⟨added, prio, _⟩ := mem_waiting.mp waits
      have all := custody.loaded
      simpa [prio] using Nat.lt_of_lt_of_le added all
  have bound := (List.subperm_of_subset nodup inside).length_le
  have room := few (cfg.prio proc)
  rw [List.length_cons] at bound
  omega

/-! ## Where a process is written -/

/-- A process that the step puts or adds is written inside the array of the queue of its priority, at the end of
its entries, and nothing but the size of this queue changes beside. -/
def Os.EnqueuesInside (cfg : Config ι) (s : Os ι) (l : OsLabel) (s' : Os ι) : Prop :=
  ∀ proc ∈ s.enqueues l,
    let before := s.mlq (cfg.prio proc)
    let after := s'.mlq (cfg.prio proc)
    before.size < maxQueueSize ∧ after.proc = Function.update before.proc before.size (some proc) ∧
      after.size = before.size + 1 ∧ after.slot = before.slot ∧
      ∀ prio, prio ≠ cfg.prio proc → s'.mlq prio = s.mlq prio

theorem Os.Custody.enqueuesInside_iff (custody : s.Custody cfg)
    (prios : ∀ p < cfg.numProcesses, cfg.prio p < maxPrio) {l : OsLabel} (taken : s.exec cfg l = some s') :
    s.EnqueuesInside cfg l s' ↔ s.NotCrowded cfg l := by
  constructor
  · intro inside proc enqueued
    obtain ⟨known, _, _⟩ := custody.enqueued taken enqueued
    rw [← custody.size_eq (prios proc known)]
    exact (inside proc enqueued).1
  · intro room proc enqueued
    obtain ⟨known, _, mlq⟩ := custody.enqueued taken enqueued
    have size := custody.size_eq (prios proc known)
    have written : s'.mlq (cfg.prio proc) = enqueue (s.mlq (cfg.prio proc)) proc := by
      rw [mlq, putMlqProc, Function.update_self]
    refine ⟨size ▸ room proc enqueued, by rw [written]; rfl, by rw [written]; rfl, by rw [written]; rfl, ?_⟩
    intro prio other
    rw [mlq, putMlqProc, Function.update_of_ne other]

/-- In runs in which no crowded priority gets another process, every process is written inside its queue, and a
step writes it there only under this condition. -/
theorem reachable_enqueuesInside (prios : ∀ p < cfg.numProcesses, cfg.prio p < maxPrio)
    (reachable : Reach (Os.Step cfg) (Os.NotCrowded cfg) Os.Start s) {l : OsLabel}
    (taken : Os.Step cfg s l s') : s.EnqueuesInside cfg l s' ↔ s.NotCrowded cfg l :=
  (reachable_custody prios reachable).enqueuesInside_iff prios taken

theorem enqueuesInside_of_few (prios : ∀ p < cfg.numProcesses, cfg.prio p < maxPrio)
    (few : ∀ prio, ((List.range cfg.numProcesses).filter fun proc => cfg.prio proc = prio).length ≤ maxQueueSize)
    {ok : Os ι → OsLabel → Prop} (reachable : Reach (Os.Step cfg) ok Os.Start s) {l : OsLabel}
    (taken : Os.Step cfg s l s') : s.EnqueuesInside cfg l s' := by
  have custody := reachable_custody prios reachable
  exact (custody.enqueuesInside_iff prios taken).mpr (custody.notCrowded_of_few taken few)

end Overflow

/-- CPU 0 has put the process 0 back, CPU 1 looks for a process, and the loader adds the process 1. -/
def secondAdd : Os Char :=
  follow (Os.exec twoCpus) (Os.NotCrowded twoCpus) startOs
    (firstSlot ++ .tick :: List.replicate 3 .loader ++ turns 3)

theorem twoCpus_enqueuesInside :
    (secondAdd.mlq 0).entries = [some 0] ∧ ∃ s', Os.Step twoCpus secondAdd .loader s' ∧
      (s'.mlq 0).entries = [some 0, some 1] ∧
        (secondAdd.EnqueuesInside twoCpus .loader s' ↔ secondAdd.NotCrowded twoCpus .loader) := by
  have top : ∀ p < twoCpus.numProcesses, twoCpus.prio p < maxPrio :=
    fun _ _ => (by decide : 0 < maxPrio)
  have reachable : Reach (Os.Step twoCpus) (Os.NotCrowded twoCpus) Os.Start secondAdd := by
    rw [secondAdd]
    exact Reach.follow (fun _ _ => id) (.start startOs_start) _
  have entries : (secondAdd.exec twoCpus .loader).map (fun s' => (s'.mlq 0).entries) =
      some [some 0, some 1] := by decide +kernel
  obtain ⟨s', step, added⟩ := Option.map_eq_some_iff.mp entries
  exact ⟨by decide +kernel, s', step, added, reachable_enqueuesInside top reachable step⟩

/-- One CPU and twelve processes of one priority. The first one keeps the CPU busy. -/
def twelveProcesses : Config Char :=
  { timeSlot := 20, numCpus := 1, numProcesses := 12, startTime := fun _ => 0, prio := fun _ => 0
    text := fun _ => List.replicate 20 'a' }

/-- In each slot the loader adds a process, and the CPU executes one instruction. -/
def addSlots : Nat → List OsLabel
  | 0 => []
  | n + 1 => .tick :: List.replicate 4 .loader ++ List.replicate 5 (.cpu 0) ++ addSlots n

def crowded : Os Char :=
  follow (Os.exec twelveProcesses) (fun s l => s.SlotEnds twelveProcesses l ∧ s.NotCrowded twelveProcesses l) startOs
    (List.replicate 3 .loader ++ List.replicate 8 (.cpu 0) ++ addSlots 10 ++ .tick :: List.replicate 3 .loader)

/-- Ten processes wait, and the next one is written at the index 10. -/
theorem twelveProcesses_overflow :
    Reach (Os.Step twelveProcesses) (fun s l => s.SlotEnds twelveProcesses l ∧ s.NotCrowded twelveProcesses l)
        Os.Start crowded ∧
      ∃ s', Os.Step twelveProcesses crowded .loader s' ∧ 11 ∈ crowded.enqueues .loader ∧
        (crowded.mlq (twelveProcesses.prio 11)).size = maxQueueSize ∧
        ¬ crowded.EnqueuesInside twelveProcesses .loader s' := by
  have reachable : Reach (Os.Step twelveProcesses)
      (fun s l => s.SlotEnds twelveProcesses l ∧ s.NotCrowded twelveProcesses l) Os.Start crowded := by
    rw [crowded]
    exact Reach.follow (fun _ _ => id) (.start startOs_start) _
  have last : crowded.enqueues .loader = some 11 := by decide +kernel
  have full : (crowded.mlq (twelveProcesses.prio 11)).size = maxQueueSize := by decide +kernel
  obtain ⟨s', step⟩ : ∃ s', crowded.exec twelveProcesses .loader = some s' :=
    Option.isSome_iff_exists.mp (by decide +kernel)
  refine ⟨reachable, s', step, last, full, ?_⟩
  intro inside
  have room := (inside 11 last).1
  rw [full] at room
  exact Nat.lt_irrefl _ room

end OsSim.Sched
