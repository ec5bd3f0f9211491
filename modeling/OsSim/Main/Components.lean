import OsSim.Main.Coupling
import OsSim.Sched.Makespan

namespace OsSim.Main
open Transition

section Components

variable {cfg : Sched.Config Paging.Inst} {s s' : State}

/-! ## The end of a slot -/

theorem seen_begun {T : Nat} {d : Timer.Device} (paced : d.Paced T .seen) (stays : Loading.leaves d.loc = false) :
    d.loc.inNextSlot = true ∧ d.begun = T + 1 := by
  have staying : d.loc ≠ .detached := by
    intro gone
    rw [gone] at stays
    cases stays
  obtain ⟨inCall, _⟩ := paced.inNextSlot staying
  refine ⟨inCall, ?_⟩
  unfold Timer.Device.Paced Timer.Device.Waiting at paced
  cases here : d.loc <;> simp_all [Timer.DeviceLoc.inNextSlot]

/-- When the timer counts a slot, each thread is in the call of this slot or has ended. -/
theorem Place.Follows.counted {place : Place} {d : Timer.Device} {T : Nat} (follows : place.Follows d)
    (paced : d.Paced T .seen) : place = .inSlot T ∨ place = .ended := by
  cases place with
  | code =>
      obtain ⟨inCall, _⟩ := seen_begun paced (by rw [show d.loc = .outside from follows]; rfl)
      rw [show d.loc = .outside from follows] at inCall
      cases inCall
  | inSlot since =>
      obtain ⟨_, begun⟩ := seen_begun paced follows.1
      have same : since = T := Nat.succ.inj (follows.2.trans begun)
      exact .inl (same ▸ rfl)
  | ended => exact .inr rfl

theorem cpuPlace_inSlot {loc : Sched.CpuLoc Paging.Inst} {since : Nat} (place : cpuPlace loc = .inSlot since) :
    loc = .nextSlot since := by
  cases loc with
  | nextSlot since' =>
      cases place
      rfl
  | _ => cases place

theorem cpuPlace_ended {loc : Sched.CpuLoc Paging.Inst} (place : cpuPlace loc = .ended) : loc = .stopped := by
  cases loc with
  | stopped => rfl
  | _ => cases place

theorem loaderPlace_inSlot {loc : Sched.LoaderLoc} {since : Nat} (place : loaderPlace loc = .inSlot since) :
    loc = .waitSlot since ∨ loc = .addSlot since := by
  cases loc with
  | waitSlot since' =>
      cases place
      exact .inl rfl
  | addSlot since' =>
      cases place
      exact .inr rfl
  | _ => cases place

theorem loaderPlace_ended {loc : Sched.LoaderLoc} (place : loaderPlace loc = .ended) : loc = .finished := by
  cases loc with
  | finished => rfl
  | _ => cases place

theorem State.Coupled.slotEnds (coupled : s.Coupled cfg) (counts : s.slots.timer = .incTime) :
    s.os.SlotEnds cfg .tick := by
  have paced : ∀ j < devices cfg, (s.slots.devices j).Paced s.os.time .seen := by
    intro j inside
    have paced := coupled.synced.paced j inside
    rw [counts] at paced
    exact coupled.time ▸ paced
  intro _
  constructor
  · intro id inside
    rcases (coupled.cpus id inside).counted (paced _ cpuDevice_lt) with place | place
    · exact .inl (cpuPlace_inSlot place)
    · exact .inr (cpuPlace_ended place)
  · rcases coupled.loader.counted (paced _ loaderDevice_lt) with place | place
    · exact (loaderPlace_inSlot place).imp_right .inl
    · exact .inr (.inr (loaderPlace_ended place))

/-! ## The parts of the program -/

/-- A condition on the steps of the scheduler that its threads take. -/
def State.Allows (ok : Sched.Os Paging.Inst → Sched.OsLabel → Prop) (s : State) : Label → Prop
  | .cpu id _ => ok s.os (.cpu id)
  | .loader => ok s.os .loader
  | _ => True

/-- Seen from the scheduler, a run is one in which time goes on only while all threads wait. -/
theorem reachable_begins {ok : Sched.Os Paging.Inst → Sched.OsLabel → Prop}
    (reachable : Reach (State.Step cfg) (State.Allows ok) State.Start s) :
    Reach (Sched.Os.Step cfg) (fun os l => (l ≠ .tick → ok os l) ∧ os.SlotEnds cfg l) Sched.Os.Begins s.os := by
  refine reachable.project State.os (fun s before => reachable_coupled before)
    (fun s start => ⟨start.os, start.time⟩) ?_
  intro s l s' coupled allowed step
  cases step.moves with
  | @cpuCode id g os slots inside outside taken begun =>
      exact .inr ⟨.cpu id, ⟨fun _ => allowed, nofun⟩, (if_pos inside).trans taken⟩
  | ldCode outside taken begun => exact .inr ⟨.loader, ⟨fun _ => allowed, nofun⟩, taken⟩
  | cpuCall | ldCall | main | wakeDevice | wakeTimer => exact .inl rfl
  | @timer slots moves =>
      by_cases still : slots.time = s.slots.time
      · refine .inl ?_
        rw [still, ← coupled.time]
      · obtain ⟨counts, next⟩ := Timer.time_eq_of_exec moves still
        refine .inr ⟨.tick, ⟨nofun, coupled.slotEnds counts⟩, ?_⟩
        rw [next, ← coupled.time]
        rfl

theorem reachable_os {ok : Sched.Os Paging.Inst → Sched.OsLabel → Prop}
    (reachable : Reach (State.Step cfg) (State.Allows ok) State.Start s) :
    Reach (Sched.Os.Step cfg) (fun os l => (l ≠ .tick → ok os l) ∧ os.SlotEnds cfg l) Sched.Os.Start s.os :=
  (reachable_begins reachable).mono_start fun _ begins => begins.start

/-- Seen from the timer, a run is one of its protocol in which `stopTimer` comes last. -/
theorem reachable_slots {ok : State → Label → Prop} (reachable : Reach (State.Step cfg) ok State.Start s) :
    Reach (Timer.Step (devices cfg)) (Timer.State.StopsLast (devices cfg)) (· = Timer.startTimer) s.slots := by
  refine reachable.project State.slots (fun _ before => before) (fun s start => start.slots) ?_
  have other : ∀ {slots slots' : Timer.State} {l : Timer.Label}, Timer.exec (devices cfg) slots l = some slots' →
      l ≠ .stopTimer → ∃ l, slots.StopsLast (devices cfg) l ∧ Timer.Step (devices cfg) slots l slots' :=
    fun moves quiet => ⟨_, fun stops => absurd stops quiet, moves⟩
  intro s l s' _ _ step
  cases step.moves with
  | cpuCode _ _ _ begun | ldCode _ _ begun =>
      rcases begins_cases begun with same | ⟨op, moves⟩
      · exact .inl same
      · exact .inr (other moves nofun)
  | cpuCall _ _ moves | ldCall _ moves | timer moves | wakeDevice moves | wakeTimer moves =>
      exact .inr (other moves nofun)
  | main joined moves => exact .inr ⟨_, fun _ => joined, moves⟩

theorem calls_cases (s : State) (id : Nat) (g : Paging.Garbage) :
    s.calls id g = [] ∨ ∃ l, s.calls id g = [l] := by
  rw [State.calls]
  split
  · next ins proc _ _ =>
    cases ins.call with
    | none => exact .inl rfl
    | some call => exact .inr ⟨_, rfl⟩
  · exact .inl rfl

/-- Seen from the memory, a run is a sequence of calls of the processes. -/
theorem reachable_memory {ok : State → Label → Prop} (reachable : Reach (State.Step cfg) ok State.Start s) :
    Reach Paging.System.Step (fun _ _ => True) Paging.System.Boot s.memory := by
  refine reachable.project State.memory (fun _ before => before) (fun s start => start.memory) ?_
  intro s l s' _ _ step
  cases step.moves with
  | @cpuCode id g =>
      rcases calls_cases s id g with none | ⟨call, one⟩
      · exact .inl (by rw [none]; rfl)
      · exact .inr ⟨call, trivial, by rw [one]; rfl⟩
  | cpuCall | ldCode | ldCall | timer | main | wakeDevice | wakeTimer => exact .inl rfl

/-- The whole program refines its parts: the scheduler with the slots that the timer counts, the protocol of the
timer, and the memory. -/
theorem reachable_components (reachable : Reach (State.Step cfg) (State.Allows (Sched.Os.HasRoom cfg)) State.Start s) :
    Reach (Sched.Os.Step cfg) (Sched.Os.Timed cfg) Sched.Os.Start s.os ∧
      Reach (Timer.Step (devices cfg)) (Timer.State.StopsLast (devices cfg)) (· = Timer.startTimer) s.slots ∧
      Reach Paging.System.Step (fun _ _ => True) Paging.System.Boot s.memory ∧ s.os.time = s.slots.time := by
  refine ⟨?_, reachable_slots reachable, reachable_memory reachable, (reachable_coupled reachable).time⟩
  refine (reachable_os reachable).mono ?_
  rintro os l ⟨room, slotEnds⟩
  refine ⟨?_, slotEnds⟩
  cases l with
  | tick => exact fun _ none => absurd none (by simp [Sched.Os.enqueues])
  | cpu id => exact room (by simp)
  | loader => exact room (by simp)

end Components

section Decidable

variable {ok : Sched.Os Paging.Inst → Sched.OsLabel → Prop} [∀ os l, Decidable (ok os l)]

instance State.decidableAllows (s : State) (l : Label) : Decidable (s.Allows ok l) :=
  match l with
  | .cpu id _ => inferInstanceAs (Decidable (ok s.os (.cpu id)))
  | .loader => inferInstanceAs (Decidable (ok s.os .loader))
  | .timer | .main | .wakeDevice _ | .wakeTimer => inferInstanceAs (Decidable True)

end Decidable

/-- One CPU and one process, which allocates a page and writes to it. -/
def oneWriter : Sched.Config Paging.Inst :=
  { timeSlot := 1, numCpus := 1, numProcesses := 1, startTime := fun _ => 0, prio := fun _ => 0
    text := fun _ => [⟨.alloc, 20, 0, 0⟩, ⟨.write, 7, 0, 3⟩] }

def startMain : State :=
  { os := {
      mlq := Sched.initScheduler fun _ => ⟨fun _ => none, 0, 0⟩, cpus := fun _ => ⟨0, none, .top⟩
      loader := .head, loaded := 0, done := false, time := 0, pc := fun _ => 0, finished := fun _ => false
      executed := fun _ => [] }
    slots := Timer.startTimer
    memory := Paging.bootSystem Paging.zeroBlock (fun _ => 0) 1024 1024 }

theorem startMain_start : startMain.Start where
  os := ⟨⟨_, rfl⟩, fun _ => rfl, rfl, rfl, rfl, fun _ => rfl, fun _ => rfl, fun _ => rfl⟩
  time := rfl
  slots := rfl
  memory := Paging.bootSystem_boot Paging.zeroBlock_zero _ _ _

/-- The loader adds the process, and the CPU allocates the page for it and waits for the next slot. -/
def firstAlloc : State :=
  follow (State.exec oneWriter) (State.Allows (Sched.Os.HasRoom oneWriter)) startMain
    (List.replicate 9 .loader ++ List.replicate 14 (.cpu 0 Paging.noGarbage))

theorem firstAlloc_reachable :
    Reach (State.Step oneWriter) (State.Allows (Sched.Os.HasRoom oneWriter)) State.Start firstAlloc :=
  .follow (fun _ _ => id) (.start startMain_start) _

theorem firstAlloc_components :
    Reach (Sched.Os.Step oneWriter) (Sched.Os.Timed oneWriter) Sched.Os.Start firstAlloc.os ∧
      Reach (Timer.Step (devices oneWriter)) (Timer.State.StopsLast (devices oneWriter)) (· = Timer.startTimer)
        firstAlloc.slots ∧
      Reach Paging.System.Step (fun _ _ => True) Paging.System.Boot firstAlloc.memory ∧
      firstAlloc.os.time = firstAlloc.slots.time :=
  reachable_components firstAlloc_reachable

end OsSim.Main
