import OsSim.Lib.Within
import OsSim.Sched.Stopping

namespace OsSim.Sched
open Transition Within Relation

section Ending

variable {ι : Type*} {cfg : Config ι} {s s' : Os ι} {id : Nat}

/-! ## The control of a run, for any configuration -/

structure Os.Controlled (cfg : Config ι) (s : Os ι) : Prop where
  done : s.done = true → s.loader = .finished
  inside : ∀ id < cfg.numCpus, ∀ branch loc, (s.cpus id).loc = .getProc branch loc → loc.Inside

theorem cpuRoutine_cpus (taken : cpuRoutine cfg s id = some s') :
    s'.cpus = Function.update s.cpus id (s'.cpus id) ∧ s'.loader = s.loader ∧ s'.done = s.done := by
  have only : ∀ {cpu : Cpu ι} {s' : Os ι}, s'.cpus = Function.update s.cpus id cpu →
      s'.cpus = Function.update s.cpus id (s'.cpus id) := by
    intro cpu s' cpus
    rw [cpus, Function.update_self]
  cases cpuRoutine_cases taken <;> exact ⟨only rfl, rfl, rfl⟩

theorem exec_cpus_of_ne {l : OsLabel} (other : l ≠ .cpu id) (taken : s.exec cfg l = some s') :
    s'.cpus id = s.cpus id := by
  cases l with
  | cpu id' =>
      rw [Os.exec] at taken
      split at taken
      · have different : id ≠ id' := fun same => other (congrArg _ same.symm)
        rw [(cpuRoutine_cpus taken).1, Function.update_of_ne different]
      · cases taken
  | loader =>
      rw [Os.exec, ldRoutine] at taken
      split at taken
      · cases taken
        rfl
      · cases taken
        rfl
      · split at taken <;> cases taken
        rfl
      · cases taken
        rfl
      · split at taken <;> cases taken
        rfl
      · cases taken
        rfl
      · cases taken
  | tick =>
      cases taken
      rfl

theorem cpuRoutine_inside (inside : ∀ branch loc, (s.cpus id).loc = .getProc branch loc → loc.Inside)
    (taken : cpuRoutine cfg s id = some s') :
    ∀ branch loc, (s'.cpus id).loc = .getProc branch loc → loc.Inside := by
  cases cpuRoutine_cases taken with
  | idle | finished | putProc => simpa [Os.setCpu] using GetLoc.inside_start
  | looks here result => simpa [Os.setCpu] using (inside _ _ here).step result
  | got | nothing =>
      simp only [Os.setCpu, Function.update_self]
      split_ifs <;> simp
  | slotEnds | goesOn | turn | pastEnd | fetch | execute | nextSlot => simp [Os.setCpu]

theorem ldRoutine_done (done : s.done = true → s.loader = .finished) (taken : ldRoutine cfg s = some s') :
    s'.done = true → s'.loader = .finished := by
  have running : s.loader ≠ .finished → ¬ s.done = true := fun more ended => more (done ended)
  rw [ldRoutine] at taken
  cases here : s.loader <;> rw [here] at running <;>
    simp only [here, Option.some.injEq, reduceCtorEq] at taken
  case head | wait | addProc =>
    subst taken
    exact fun ended => absurd ended (running (by simp))
  case waitSlot | addSlot =>
    split at taken <;> cases taken
    exact fun ended => absurd ended (running (by simp))
  case setDone =>
    subst taken
    exact fun _ => rfl

theorem Os.Controlled.exec (controlled : s.Controlled cfg) {l : OsLabel} (taken : s.exec cfg l = some s') :
    s'.Controlled cfg := by
  refine ⟨?_, ?_⟩
  · cases l with
    | cpu id' =>
        rw [Os.exec] at taken
        split at taken
        · obtain ⟨_, loader, done⟩ := cpuRoutine_cpus taken
          rw [loader, done]
          exact controlled.done
        · cases taken
    | loader => exact ldRoutine_done controlled.done taken
    | tick =>
        cases taken
        exact controlled.done
  · intro id inside
    by_cases mine : l = .cpu id
    · subst mine
      rw [Os.exec, if_pos inside] at taken
      exact cpuRoutine_inside (controlled.inside id inside) taken
    · rw [exec_cpus_of_ne mine taken]
      exact controlled.inside id inside

theorem reachable_controlled {ok : Os ι → OsLabel → Prop}
    (reachable : Reach (Os.Step cfg) ok Os.Start s) : s.Controlled cfg := by
  refine reachable.invariant (fun s start => ?_) fun s l s' controlled _ taken => controlled.exec taken
  refine ⟨fun set => ?_, fun id _ branch loc here => ?_⟩
  · rw [start.done] at set
    cases set
  · rw [start.cpus id] at here
    cases here

/-! ## When there is nothing left to do -/

def GetLoc.emptyRank : GetLoc → Nat
  | .queueEmpty prio | .scan prio => maxPrio - prio
  | .testSlot _ => maxPrio + 1
  | .take _ => 0
  | .resetSlots => maxPrio

theorem getMlqProc_empty {mlq : Mlq} {loc : GetLoc} (inside : loc.Inside)
    (empty : ∀ i < maxPrio, (mlq i).empty = true) :
    (∀ i < maxPrio, ((getMlqProc mlq loc).1 i).empty = true) ∧
      ((getMlqProc mlq loc).2 = .got none ∨
        ∃ loc', (getMlqProc mlq loc).2 = .next loc' ∧ loc'.emptyRank < loc.emptyRank) := by
  cases loc with
  | queueEmpty prio =>
      have nothing := empty prio (inside prio rfl)
      simp only [getMlqProc, nothing, Bool.not_true, Bool.false_eq_true, if_false]
      split
      · refine ⟨empty, .inr ⟨_, rfl, ?_⟩⟩
        simp only [GetLoc.emptyRank]
        omega
      · exact ⟨empty, .inl rfl⟩
  | scan prioSelect =>
      have nothing := empty prioSelect (inside prioSelect rfl)
      simp only [getMlqProc, nothing, if_true]
      refine ⟨fun i inside => ?_, ?_⟩
      · split
        · rw [empty_resetSlot]
          exact empty i inside
        · exact empty i inside
      · split
        · refine .inr ⟨_, rfl, ?_⟩
          simp only [GetLoc.emptyRank]
          omega
        · exact .inl rfl
  | testSlot prioSelect =>
      rw [getMlqProc]
      split
      · exact ⟨empty, .inr ⟨_, rfl, Nat.succ_pos _⟩⟩
      · split
        · exact ⟨empty, .inr ⟨_, rfl, Nat.lt_succ_self _⟩⟩
        · refine ⟨empty, .inr ⟨_, rfl, ?_⟩⟩
          simp only [GetLoc.emptyRank]
          omega
  | take prioSelect =>
      have nothing := dequeue_of_empty (empty prioSelect (inside prioSelect rfl))
      simp only [getMlqProc, nothing, true_or, and_true]
      intro i inside'
      by_cases same : i = prioSelect
      · subst same
        rw [Function.update_self]
        exact empty i inside'
      · rw [Function.update_of_ne same]
        exact empty i inside'
  | resetSlots =>
      refine ⟨fun i inside => ?_, .inr ⟨_, rfl, ?_⟩⟩
      · rw [getMlqProc, empty_resetSlot]
        exact empty i inside
      · simp only [GetLoc.emptyRank, maxPrio]
        omega

/-- The loader is done, all ready queues are empty and no CPU holds a process. -/
structure Os.Over (cfg : Config ι) (s : Os ι) : Prop where
  done : s.done = true
  queues : ∀ i < maxPrio, (s.mlq i).empty = true
  hands : ∀ id < cfg.numCpus, (s.cpus id).proc = none

inductive IdleMove : CpuLoc ι → CpuLoc ι → Prop
  | call : IdleMove .top (.getProc .idle (.queueEmpty 0))
  | search {branch : Branch} {loc loc' : GetLoc} (less : loc'.emptyRank < loc.emptyRank) :
      IdleMove (.getProc branch loc) (.getProc branch loc')
  | miss {loc : GetLoc} {since : Nat} : IdleMove (.getProc .idle loc) (.nextSlot since)
  | fail {branch : Branch} {loc : GetLoc} (busy : branch ≠ .idle) : IdleMove (.getProc branch loc) .recheck
  | stop : IdleMove .recheck .stopped
  | slot {since : Nat} : IdleMove (.nextSlot since) .top

theorem Os.Over.setCpu (isOver : s.Over cfg) {cpu : Cpu ι} {mlq : Mlq}
    (queues : ∀ i < maxPrio, (mlq i).empty = true) (idle : cpu.proc = none) :
    Os.Over cfg { s.setCpu id cpu with mlq := mlq } := by
  refine ⟨isOver.done, queues, ?_⟩
  intro other inside
  dsimp only [Os.setCpu]
  by_cases same : other = id
  · rw [same, Function.update_self]
    exact idle
  · rw [Function.update_of_ne same]
    exact isOver.hands other inside

theorem Os.Over.cpuRoutine (isOver : s.Over cfg) (controlled : s.Controlled cfg) (inside : id < cfg.numCpus)
    (taken : Sched.cpuRoutine cfg s id = some s') :
    s'.Over cfg ∧ IdleMove (s.cpus id).loc (s'.cpus id).loc := by
  have idle := isOver.hands id inside
  have still : ∀ {cpu : Cpu ι}, cpu.proc = none → Os.Over cfg (s.setCpu id cpu) := isOver.setCpu isOver.queues
  cases cpuRoutine_cases taken with
  | idle here =>
      refine ⟨still idle, ?_⟩
      simp only [Os.setCpu, Function.update_self, here]
      exact .call
  | @looks branch loc next here result =>
      obtain ⟨queues, null | ⟨loc', next', less⟩⟩ :=
        getMlqProc_empty (controlled.inside id inside branch loc here) isOver.queues
      · cases result.symm.trans null
      · cases result.symm.trans next'
        refine ⟨isOver.setCpu queues idle, ?_⟩
        simp only [Os.setCpu, Function.update_self, here]
        exact .search less
  | @got branch loc proc here result =>
      obtain ⟨queues, null | ⟨loc', next', less⟩⟩ :=
        getMlqProc_empty (controlled.inside id inside branch loc here) isOver.queues
      · cases result.symm.trans null
        refine ⟨isOver.setCpu queues rfl, ?_⟩
        simp only [Os.setCpu, Function.update_self, here, and_true]
        split
        · next first =>
          subst first
          exact .miss
        · next busy => exact .fail busy
      · cases result.symm.trans next'
  | nothing here =>
      refine ⟨still idle, ?_⟩
      simp only [Os.setCpu, Function.update_self, here, isOver.done, if_true]
      exact .stop
  | nextSlot here =>
      refine ⟨still idle, ?_⟩
      simp only [Os.setCpu, Function.update_self, here]
      exact .slot
  | finished _ holds | slotEnds _ holds | goesOn _ holds | putProc _ holds | turn _ holds | pastEnd _ holds
  | fetch _ holds | execute _ holds => cases idle.symm.trans holds

theorem Os.Over.exec (isOver : s.Over cfg) (controlled : s.Controlled cfg) {l : OsLabel}
    (taken : s.exec cfg l = some s') : s'.Over cfg := by
  cases l with
  | cpu id' =>
      rw [Os.exec] at taken
      split at taken
      · next inside => exact (isOver.cpuRoutine controlled inside taken).1
      · cases taken
  | loader =>
      rw [Os.exec, ldRoutine, controlled.done isOver.done] at taken
      cases taken
  | tick =>
      cases taken
      exact ⟨isOver.done, isOver.queues, isOver.hands⟩

/-! ## Which CPUs stop -/

/-- The CPU has left the test at the head of the loop behind it and comes to the one that looks at `done`. -/
def CpuLoc.PastHead : CpuLoc ι → Prop
  | .getProc branch _ => branch ≠ .idle
  | .recheck => True
  | _ => False

def CpuLoc.stopRank : CpuLoc ι → Nat
  | .getProc _ loc => loc.emptyRank + 2
  | .recheck => 1
  | _ => 0

theorem IdleMove.pastHead {loc loc' : CpuLoc ι} (move : IdleMove loc loc') (past : loc.PastHead) :
    (loc' = .stopped ∨ loc'.PastHead) ∧ (∀ since, loc' ≠ .nextSlot since) ∧ loc'.stopRank < loc.stopRank := by
  cases move with
  | call => exact past.elim
  | search less => exact ⟨.inr past, by simp, Nat.add_lt_add_right less 2⟩
  | miss => exact absurd rfl past
  | fail => exact ⟨.inr trivial, by simp, Nat.lt_add_of_pos_left (Nat.succ_pos _)⟩
  | stop => exact ⟨.inl rfl, by simp, Nat.one_pos⟩
  | slot => exact past.elim

theorem IdleMove.behind {loc loc' : CpuLoc ι} (move : IdleMove loc loc') (behind : ¬ loc.PastHead) :
    ¬ loc'.PastHead ∧ loc' ≠ .stopped := by
  cases move with
  | call => exact ⟨fun past => past rfl, by simp⟩
  | search => exact ⟨behind, by simp⟩
  | miss => exact ⟨fun past => past, by simp⟩
  | fail busy => exact absurd busy behind
  | stop => exact absurd trivial behind
  | slot => exact ⟨fun past => past, by simp⟩

variable (cfg)

/-- A step of a CPU, in this slot or in the next one. -/
def Os.Turn (id : Nat) (s s' : Os ι) : Prop :=
  s.exec cfg (.cpu id) = some s' ∨ Os.exec cfg { s with time := s.time + 1 } (.cpu id) = some s'

def Os.Others (id : Nat) (s s' : Os ι) : Prop := ∃ l, l ≠ .cpu id ∧ s.exec cfg l = some s'

/-- The CPU stops, whatever the other threads do, and does not wait for the next slot before. -/
def Os.StopsNext (s : Os ι) (id : Nat) : Prop :=
  ∃ n, Attains (Os.Others cfg id) (Os.Turn cfg id) (fun s => (s.cpus id).loc = .stopped)
    (fun s => ∃ since, (s.cpus id).loc = .nextSlot since) n s

/-- There is nothing left to do, and the control of the threads is sound. -/
structure Os.Ended (s : Os ι) : Prop where
  isOver : s.Over cfg
  controlled : s.Controlled cfg

variable {cfg}

theorem Os.Ended.exec (ended : s.Ended cfg) {l : OsLabel} (taken : s.exec cfg l = some s') :
    s'.Ended cfg :=
  ⟨ended.isOver.exec ended.controlled taken, ended.controlled.exec taken⟩

theorem Os.Ended.turn (ended : s.Ended cfg) (inside : id < cfg.numCpus) (turn : s.Turn cfg id s') :
    s'.Ended cfg ∧ IdleMove (s.cpus id).loc (s'.cpus id).loc := by
  have move : ∀ {s : Os ι}, s.Ended cfg → s.exec cfg (.cpu id) = some s' →
      s'.Ended cfg ∧ IdleMove (s.cpus id).loc (s'.cpus id).loc := by
    intro s ended taken
    refine ⟨ended.exec taken, ?_⟩
    rw [Os.exec, if_pos inside] at taken
    exact (ended.isOver.cpuRoutine ended.controlled inside taken).2
  rcases turn with now | later
  · exact move ended now
  · have ended' : Os.Ended cfg { s with time := s.time + 1 } := ended.exec (l := .tick) rfl
    obtain ⟨after, moved⟩ := move ended' later
    exact ⟨after, moved⟩

theorem Os.Ended.turn_exists (ended : s.Ended cfg) (inside : id < cfg.numCpus)
    (past : (s.cpus id).loc.PastHead) : ∃ s', s.Turn cfg id s' := by
  have idle := ended.isOver.hands id inside
  cases here : (s.cpus id).loc <;> rw [here] at past
  case getProc branch loc =>
    obtain ⟨_, null | ⟨loc', next, _⟩⟩ :=
      getMlqProc_empty (ended.controlled.inside id inside branch loc here) ended.isOver.queues
    · exact ⟨_, .inl (by simp [Os.exec, inside, cpuRoutine, here, null]; rfl)⟩
    · exact ⟨_, .inl (by simp [Os.exec, inside, cpuRoutine, here, next]; rfl)⟩
  case recheck => exact ⟨_, .inl (by simp [Os.exec, inside, cpuRoutine, here, idle]; rfl)⟩
  all_goals exact past.elim

/-- A CPU that is past the head, or has stopped, when there is nothing left to do. -/
structure Os.Leaving (cfg : Config ι) (s : Os ι) (id : Nat) : Prop where
  ended : s.Ended cfg
  place : (s.cpus id).loc = .stopped ∨ (s.cpus id).loc.PastHead

theorem Os.Leaving.others (leaving : s.Leaving cfg id) (step : s.Others cfg id s') :
    s'.Leaving cfg id ∧ (s'.cpus id).loc.stopRank ≤ (s.cpus id).loc.stopRank := by
  obtain ⟨l, other, taken⟩ := step
  have kept := exec_cpus_of_ne other taken
  refine ⟨⟨leaving.ended.exec taken, ?_⟩, Nat.le_of_eq (by rw [kept])⟩
  rw [kept]
  exact leaving.place

theorem Os.Leaving.turn (leaving : s.Leaving cfg id) (inside : id < cfg.numCpus) (turn : s.Turn cfg id s') :
    (¬ ∃ since, (s'.cpus id).loc = .nextSlot since) ∧ s'.Leaving cfg id ∧
      (s'.cpus id).loc.stopRank < (s.cpus id).loc.stopRank := by
  obtain ⟨ended', move⟩ := leaving.ended.turn inside turn
  rcases leaving.place with stopped | past
  · rw [stopped] at move
    cases move
  · obtain ⟨place', clear, less⟩ := move.pastHead past
    exact ⟨fun ⟨since, waits⟩ => clear since waits, ⟨ended', place'⟩, less⟩

theorem Os.Leaving.stopsNext (leaving : s.Leaving cfg id) (inside : id < cfg.numCpus) : s.StopsNext cfg id := by
  have kept : ∀ s s', Os.Leaving cfg s id → s.Others cfg id s' →
      s'.Leaving cfg id ∧ (s'.cpus id).loc.stopRank ≤ (s.cpus id).loc.stopRank :=
    fun _ _ leaving => leaving.others
  refine ⟨_, attains_of_rank kept ?_ (fun _ _ leaving => leaving.turn inside) leaving (Nat.le_refl _)⟩
  intro s leaving running
  exact leaving.ended.turn_exists inside (leaving.place.resolve_left running)

/-- A CPU that is not past the head when there is nothing left to do. -/
structure Os.Endless (cfg : Config ι) (s : Os ι) (id : Nat) : Prop where
  ended : s.Ended cfg
  behind : ¬ (s.cpus id).loc.PastHead
  running : (s.cpus id).loc ≠ .stopped

theorem Os.Endless.exec (endless : s.Endless cfg id) {l : OsLabel} (inside : id < cfg.numCpus)
    (taken : s.exec cfg l = some s') : s'.Endless cfg id := by
  by_cases mine : l = .cpu id
  · subst mine
    obtain ⟨ended', move⟩ := endless.ended.turn inside (.inl taken)
    obtain ⟨behind, running⟩ := move.behind endless.behind
    exact ⟨ended', behind, running⟩
  · have kept := exec_cpus_of_ne mine taken
    exact ⟨endless.ended.exec taken, by rw [kept]; exact endless.behind, by rw [kept]; exact endless.running⟩

theorem Os.Endless.not_stopsNext (endless : s.Endless cfg id) (inside : id < cfg.numCpus) :
    ¬ s.StopsNext cfg id := by
  rintro ⟨n, attains⟩
  obtain ⟨s', run, stopped⟩ := attains.exists_run
  have kept : s'.Endless cfg id := by
    clear stopped attains
    induction run with
    | refl => exact endless
    | tail _ step ih =>
        rcases step with ⟨l, _, taken⟩ | now | later
        · exact ih.exec inside taken
        · exact ih.exec inside now
        · have next := ih.exec (l := .tick) inside rfl
          exact next.exec inside later
  exact kept.running stopped

/-- When there is nothing left to do, a CPU stops in the iteration that it is in or in its next one exactly if it
is past the head; otherwise it never stops. -/
theorem stopsNext_iff {ok : Os ι → OsLabel → Prop} (reachable : Reach (Os.Step cfg) ok Os.Start s)
    (isOver : s.Over cfg) (inside : id < cfg.numCpus) (running : (s.cpus id).loc ≠ .stopped) :
    (s.StopsNext cfg id ↔ (s.cpus id).loc.PastHead) ∧
      (¬ (s.cpus id).loc.PastHead → ∀ s', Reach (Os.Step cfg) ok (· = s) s' → (s'.cpus id).loc ≠ .stopped) := by
  have ended : s.Ended cfg := ⟨isOver, reachable_controlled reachable⟩
  refine ⟨⟨fun stops => ?_, fun past => Os.Leaving.stopsNext ⟨ended, .inr past⟩ inside⟩, fun behind s' later => ?_⟩
  · by_contra behind
    exact Os.Endless.not_stopsNext ⟨ended, behind, running⟩ inside stops
  · have base : ∀ t, t = s → Os.Endless cfg t id := by
      rintro t rfl
      exact ⟨ended, behind, running⟩
    have kept : ∀ t l t', Os.Endless cfg t id → ok t l → Os.Step cfg t l t' → Os.Endless cfg t' id :=
      fun t l t' endless _ taken => endless.exec inside taken
    have endless : s'.Endless cfg id := later.invariant base kept
    exact endless.running

end Ending

theorem twoCpus_stopsNext :
    (lastSearch.StopsNext twoCpus 0 ↔ (lastSearch.cpus 0).loc.PastHead) ∧
      (¬ (lastSearch.cpus 0).loc.PastHead → ∀ s', Reach (Os.Step twoCpus) (Os.Regular twoCpus)
        (· = lastSearch) s' → (s'.cpus 0).loc ≠ .stopped) := by
  have here : (lastSearch.cpus 0).loc = .getProc .finished (.queueEmpty 0) := by decide +kernel
  have isOver : lastSearch.Over twoCpus := ⟨by decide +kernel, by decide +kernel, by decide +kernel⟩
  exact stopsNext_iff lastSearch_reachable isOver (by decide) (by rw [here]; simp)

def oneStep : Config Char :=
  { timeSlot := 1, numCpus := 1, numProcesses := 1, startTime := fun _ => 0, prio := fun _ => 0
    text := fun _ => ['a'] }

/-- The CPU has freed the process in the slot after the one in which it was loaded, and asks for another one. -/
def onlySearch : Os Char :=
  follow (Os.exec oneStep) (Os.Timed oneStep) startOs
    (List.replicate 3 .loader ++ List.replicate 8 (.cpu 0) ++ .tick :: List.replicate 2 (.cpu 0))

/-- The CPU finds `done` not set and waits; the loader sets it in the same slot. -/
def endless : Os Char :=
  follow (Os.exec oneStep) (Os.Timed oneStep) (onlySearch.look 0 .finished (.queueEmpty (maxPrio - 1)))
    (List.replicate 2 (.cpu 0) ++ List.replicate 3 .loader)

/-- All is over, and the only CPU does not stop in its next iteration or any later one. -/
theorem oneStep_endless :
    Reach (Os.Step oneStep) (Os.Timed oneStep) Os.Start endless ∧ endless.Over oneStep ∧
      (endless.cpus 0).loc = .nextSlot 1 ∧ ¬ endless.StopsNext oneStep 0 := by
  have here : (onlySearch.cpus 0).loc = .getProc .finished (.queueEmpty 0) := by decide +kernel
  have nothing : ∀ i < maxPrio - 1, (onlySearch.mlq i).empty = true := by decide +kernel
  have searches : Reach (Os.Step oneStep) (Os.Timed oneStep) Os.Start onlySearch := by
    rw [onlySearch]
    exact Reach.follow (fun _ _ => id) (.start startOs_start) _
  have searched := reach_look (fun _ _ regular => ⟨regular.room, regular.slotEnds⟩) (by decide) searches here
    (looks_queueEmpty (by decide) nothing)
  have waits : Reach (Os.Step oneStep) (Os.Timed oneStep) Os.Start endless := by
    rw [endless]
    exact Reach.follow (fun _ _ => id) searched _
  have place : (endless.cpus 0).loc = .nextSlot 1 := by decide +kernel
  have isOver : endless.Over oneStep := ⟨by decide +kernel, by decide +kernel, by decide +kernel⟩
  have inside : 0 < oneStep.numCpus := by decide
  have stays : endless.Endless oneStep 0 := by
    refine ⟨⟨isOver, reachable_controlled waits⟩, ?_, ?_⟩
    · rw [place]
      exact id
    · rw [place]
      simp
  exact ⟨waits, isOver, place, stays.not_stopsNext inside⟩

end OsSim.Sched
