import OsSim.Timer.Barrier

namespace OsSim.Timer
open Transition

/-! ## Blocked threads -/

/-- The thread of a device has no next step: it waits on `timer_cond` or for a lock, or it has detached. -/
def Device.Blocked (d : Device) : Prop := ∀ op, d.step op = none

/-- The timer waits on an `event_cond` or for a lock, or it has ended. -/
def State.TimerBlocked (n : Nat) (s : State) : Prop := timerStep n s = none

/-- No thread has a next step, other than by waking up without a signal. -/
def State.Stuck (n : Nat) (s : State) : Prop :=
  s.TimerBlocked n ∧ ∀ j < n, (s.devices j).loc ≠ .detached → (s.devices j).Blocked

theorem acquire_eq_none {lock : Option Party} {party : Party} :
    acquire lock party = none ↔ lock ≠ none := by
  rw [acquire]
  split <;> simp_all

theorem Device.Blocked.cases {d : Device} (blocked : d.Blocked) (staying : d.loc ≠ .detached) :
    d.loc = .nextWait ∨
      (d.loc = .nextLockEvent ∨ d.loc = .detachLockEvent) ∧ d.eventLock ≠ none ∨
      (d.loc = .nextLockTimer ∨ d.loc = .nextWoken) ∧ d.timerLock ≠ none := by
  have stays := blocked .nextSlot
  rw [Device.step] at stays
  cases here : d.loc <;>
    simp only [here, Option.map_eq_none_iff, acquire_eq_none, reduceCtorEq] at stays staying ⊢
  case nextTest => split at stays <;> cases stays
  case detached => exact absurd rfl staying
  all_goals simp_all

theorem State.TimerBlocked.cases {n : Nat} {s : State} (blocked : s.TimerBlocked n) :
    (∃ j, s.timer = .waitEvent j) ∨
      (∃ j, (s.timer = .lockEvent j ∨ s.timer = .wokenEvent j) ∧ (s.devices j).eventLock ≠ none) ∨
      (∃ j, s.timer = .lockTimer j ∧ (s.devices j).timerLock ≠ none) ∨
      s.timer = .left ∨ s.timer = .stopped := by
  rw [State.TimerBlocked] at blocked
  cases here : s.timer <;>
    simp only [timerStep, here, Option.map_eq_none_iff, acquire_eq_none, reduceCtorEq] at blocked
  case head | testEvent => split at blocked <;> cases blocked
  all_goals simp_all

/-! ## No lost wake-up -/

/-- A thread waits only while the flags it waits for are not set, or the thread that has set them is about to
signal. -/
structure State.WakesUp (s : State) : Prop where
  timer : ∀ j, s.timer = .waitEvent j → (s.devices j).done = true ∨ (s.devices j).fsh = true →
    (s.devices j).loc.signals = true
  device : ∀ j, (s.devices j).loc = .nextWait → (s.devices j).done = false →
    s.timer = .signalTimer j

theorem Device.step_flags {d d' : Device} {op : Op} (taken : d.step op = some d') :
    d'.loc.signals = true ∨ d'.done = d.done ∧ d'.fsh = d.fsh := by
  cases here : d.loc <;>
    simp only [Device.step, here, Option.map_eq_some_iff, acquire_eq_some, reduceCtorEq] at taken
  case outside => cases op <;> cases taken <;> exact .inr ⟨rfl, rfl⟩
  case nextLockEvent | nextLockTimer | nextWoken | detachLockEvent =>
    obtain ⟨_, _, rfl⟩ := taken
    exact .inr ⟨rfl, rfl⟩
  case nextSetDone | detachSetFsh =>
    cases taken
    exact .inl rfl
  case nextTest => split at taken <;> cases taken <;> exact .inr ⟨rfl, rfl⟩
  all_goals
    cases taken
    exact .inr ⟨rfl, rfl⟩

theorem Device.step_waits {d d' : Device} {op : Op} (taken : d.step op = some d')
    (waits : d'.loc = .nextWait) : d'.done = true := by
  cases here : d.loc <;>
    simp only [Device.step, here, Option.map_eq_some_iff, acquire_eq_some, reduceCtorEq] at taken
  case outside => cases op <;> cases taken <;> cases waits
  case nextLockEvent | nextLockTimer | nextWoken | detachLockEvent =>
    obtain ⟨_, _, rfl⟩ := taken
    cases waits
  case nextTest =>
    split at taken
    · next done =>
      cases taken
      exact done
    · cases taken
      cases waits
  all_goals
    cases taken
    cases waits

theorem startTimer_wakesUp : startTimer.WakesUp := ⟨nofun, nofun⟩

theorem wake_eq_waitEvent {timer : TimerLoc} {i j : Nat} (waits : timer.wake i = .waitEvent j) :
    timer = .waitEvent j ∧ j ≠ i := by
  rw [TimerLoc.wake] at waits
  split at waits
  · cases waits
  · next other =>
    refine ⟨waits, ?_⟩
    rintro rfl
    exact other waits

theorem wake_eq_signalTimer {timer : TimerLoc} {i j : Nat} (signals : timer = .signalTimer j) :
    timer.wake i = .signalTimer j := by
  rw [signals]
  rfl

theorem State.WakesUp.device_step {s s' : State} (wakesUp : s.WakesUp) {i : Nat} {op : Op}
    (taken : deviceStep s i op = some s') : s'.WakesUp := by
  obtain ⟨d', moves, rfl⟩ := Option.map_eq_some_iff.mp taken
  constructor
  · intro j waits flags
    dsimp only [State.setDevice] at waits flags ⊢
    by_cases same : j = i
    · subst same
      rw [Function.update_self] at flags ⊢
      split at waits
      · exact absurd rfl (wake_eq_waitEvent waits).2
      · next quiet =>
        rcases Device.step_flags moves with signals | ⟨done, fsh⟩
        · exact signals
        · rw [done, fsh] at flags
          exact absurd (wakesUp.timer j waits flags) quiet
    · rw [Function.update_of_ne same] at flags ⊢
      refine wakesUp.timer j ?_ flags
      split at waits
      · exact (wake_eq_waitEvent waits).1
      · exact waits
  · intro j waits cleared
    dsimp only [State.setDevice] at waits cleared ⊢
    by_cases same : j = i
    · subst same
      rw [Function.update_self] at waits cleared
      exact absurd (Device.step_waits moves waits) (by simp [cleared])
    · rw [Function.update_of_ne same] at waits cleared
      have signals := wakesUp.device j waits cleared
      split
      · exact wake_eq_signalTimer signals
      · exact signals

theorem Device.wake_flags {d : Device} : d.wake.done = d.done ∧ d.wake.fsh = d.fsh := by
  rw [Device.wake]
  split <;> exact ⟨rfl, rfl⟩

theorem Device.wake_ne_nextWait {d : Device} : d.wake.loc ≠ .nextWait := by
  rw [Device.wake]
  split
  · simp
  · assumption

theorem State.WakesUp.quiet {s : State} (wakesUp : s.WakesUp) (s' : State)
    (same : ∀ j, (s'.devices j).loc = (s.devices j).loc ∧ (s'.devices j).done = (s.devices j).done)
    (calm : ∀ j, s.timer ≠ .signalTimer j) (busy : ∀ j, s'.timer ≠ .waitEvent j) : s'.WakesUp := by
  refine ⟨fun j waits => absurd waits (busy j), ?_⟩
  intro j waits cleared
  rw [(same j).1] at waits
  rw [(same j).2] at cleared
  exact absurd (wakesUp.device j waits cleared) (calm j)

theorem same_of_update (s : State) (i : Nat) (d' : Device) (loc : d'.loc = (s.devices i).loc)
    (done : d'.done = (s.devices i).done) (j : Nat) :
    (Function.update s.devices i d' j).loc = (s.devices j).loc ∧
      (Function.update s.devices i d' j).done = (s.devices j).done := by
  by_cases same : j = i
  · rw [same, Function.update_self]
    exact ⟨loc, done⟩
  · rw [Function.update_of_ne same]
    exact ⟨rfl, rfl⟩

theorem State.WakesUp.timer_step {n : Nat} {s s' : State} (wakesUp : s.WakesUp)
    (taken : timerStep n s = some s') : s'.WakesUp := by
  have quiet := wakesUp.quiet s'
  cases here : s.timer <;> rw [here] at quiet <;>
    simp only [timerStep, here, Option.map_eq_some_iff, acquire_eq_some, reduceCtorEq] at taken
  case head =>
    split at taken <;> cases taken
    · exact quiet (fun _ => ⟨rfl, rfl⟩) nofun nofun
    · exact quiet (fun _ => ⟨rfl, rfl⟩) nofun fun _ => eventFrom_ne (by simp) (by simp)
  case lockEvent | wokenEvent | lockTimer =>
    obtain ⟨_, _, rfl⟩ := taken
    exact quiet (same_of_update _ _ _ rfl rfl) nofun nofun
  case testEvent i =>
    split at taken
    · next waits =>
      cases taken
      refine ⟨?_, ?_⟩
      · intro j at_j flags
        cases at_j
        dsimp only [State.setDevice] at flags
        rw [Function.update_self] at flags
        rcases flags with done | fsh <;> simp_all
      · intro j waits' cleared
        obtain ⟨loc, done⟩ := same_of_update s i
          { s.devices i with eventLock := none } rfl rfl j
        have signals := wakesUp.device j (loc ▸ waits') (done ▸ cleared)
        rw [here] at signals
        cases signals
    · cases taken
      exact quiet (fun _ => ⟨rfl, rfl⟩) nofun nofun
  case unlockEvent =>
    cases taken
    exact quiet (same_of_update _ _ _ rfl rfl) nofun fun _ => eventFrom_ne (by simp) (by simp)
  case incTime =>
    cases taken
    exact quiet (fun _ => ⟨rfl, rfl⟩) nofun fun _ => timerFrom_ne (by simp) (by simp)
  case clearDone i =>
    cases taken
    refine ⟨nofun, ?_⟩
    intro j waits cleared
    dsimp only [State.setDevice] at waits cleared ⊢
    by_cases same : j = i
    · rw [same]
    · rw [Function.update_of_ne same] at waits cleared
      have signals := wakesUp.device j waits cleared
      rw [here] at signals
      cases signals
  case signalTimer i =>
    cases taken
    refine ⟨nofun, ?_⟩
    intro j waits cleared
    dsimp only [State.setDevice] at waits cleared
    by_cases same : j = i
    · rw [same, Function.update_self] at waits
      exact absurd waits Device.wake_ne_nextWait
    · rw [Function.update_of_ne same] at waits cleared
      have signals := wakesUp.device j waits cleared
      rw [here] at signals
      cases signals
      exact absurd rfl same
  case unlockTimer =>
    cases taken
    exact quiet (same_of_update _ _ _ rfl rfl) nofun fun _ => timerFrom_ne (by simp) (by simp)
  case check =>
    cases taken
    refine quiet (fun _ => ⟨rfl, rfl⟩) nofun fun j => ?_
    dsimp only
    split <;> nofun
  all_goals
    cases taken
    exact quiet (fun _ => ⟨rfl, rfl⟩) nofun nofun

theorem State.WakesUp.exec {n : Nat} {s s' : State} {l : Label} (wakesUp : s.WakesUp)
    (taken : Timer.exec n s l = some s') : s'.WakesUp := by
  cases l with
  | device j op =>
      rw [Timer.exec] at taken
      split at taken
      · exact wakesUp.device_step taken
      · cases taken
  | timer => exact wakesUp.timer_step taken
  | stopTimer =>
      cases taken
      exact ⟨wakesUp.timer, wakesUp.device⟩
  | wakeDevice i =>
      rw [Timer.exec] at taken
      split at taken <;> cases taken
      refine ⟨?_, ?_⟩
      · intro j waits flags
        dsimp only [State.setDevice] at waits flags ⊢
        by_cases same : j = i
        · subst same
          rw [Function.update_self] at flags ⊢
          have signals := wakesUp.timer j waits (by rwa [Device.wake_flags.1, Device.wake_flags.2] at flags)
          rw [Device.wake]
          split
          · next waiting =>
            rw [waiting] at signals
            cases signals
          · exact signals
        · rw [Function.update_of_ne same] at flags ⊢
          exact wakesUp.timer j waits flags
      · intro j waits cleared
        dsimp only [State.setDevice] at waits cleared ⊢
        by_cases same : j = i
        · rw [same, Function.update_self] at waits
          exact absurd waits Device.wake_ne_nextWait
        · rw [Function.update_of_ne same] at waits cleared
          exact wakesUp.device j waits cleared
  | wakeTimer =>
      rw [Timer.exec] at taken
      split at taken
      · next i waits =>
        cases taken
        refine ⟨by simp, ?_⟩
        intro j waits' cleared
        have signals := wakesUp.device j waits' cleared
        rw [waits] at signals
        cases signals
      · cases taken

/-! ## Progress -/

/-- `stopTimer` is called only after all devices have detached. -/
def State.StopsLast (n : Nat) (s : State) (l : Label) : Prop :=
  l = .stopTimer → ∀ j < n, (s.devices j).loc = .detached

structure State.EndsLast (n : Nat) (s : State) : Prop where
  stop : s.timerStop = true → ∀ j < n, (s.devices j).loc = .detached
  stopped : s.timer = .stopped → s.timerStop = true

theorem wake_eq_stopped {timer : TimerLoc} {i : Nat} (stopped : timer.wake i = .stopped) :
    timer = .stopped := by
  rw [TimerLoc.wake] at stopped
  split at stopped
  · cases stopped
  · exact stopped

theorem State.EndsLast.exec {n : Nat} {s s' : State} {l : Label} (endsLast : s.EndsLast n)
    (allowed : s.StopsLast n l) (taken : Timer.exec n s l = some s') : s'.EndsLast n := by
  have gone := detached_exec taken
  suffices same : (s'.timerStop = true → s.timerStop = true ∨ l = .stopTimer) ∧
      (s'.timer = .stopped → s'.timerStop = true) by
    refine ⟨fun stop j inside => gone j ?_, same.2⟩
    rcases same.1 stop with before | now
    · exact endsLast.stop before j inside
    · exact allowed now j inside
  cases l with
  | device i op =>
      rw [Timer.exec] at taken
      split at taken
      · obtain ⟨d', _, rfl⟩ := Option.map_eq_some_iff.mp taken
        refine ⟨.inl, fun stopped => endsLast.stopped ?_⟩
        dsimp only at stopped
        split at stopped
        · exact wake_eq_stopped stopped
        · exact stopped
      · cases taken
  | timer =>
      cases here : s.timer <;>
        simp only [Timer.exec, timerStep, here, Option.map_eq_some_iff, reduceCtorEq] at taken
      case head =>
        split at taken
        · next stop =>
          cases taken
          exact ⟨.inl, fun _ => stop⟩
        · cases taken
          exact ⟨.inl, fun stopped => absurd stopped (eventFrom_ne (by simp) (by simp))⟩
      case lockEvent | wokenEvent | lockTimer =>
        obtain ⟨_, _, rfl⟩ := taken
        exact ⟨.inl, by simp⟩
      case testEvent => split at taken <;> cases taken <;> exact ⟨.inl, by simp⟩
      case unlockEvent =>
        cases taken
        exact ⟨.inl, fun stopped => absurd stopped (eventFrom_ne (by simp) (by simp))⟩
      case incTime | unlockTimer =>
        cases taken
        exact ⟨.inl, fun stopped => absurd stopped (timerFrom_ne (by simp) (by simp))⟩
      case check =>
        cases taken
        refine ⟨.inl, fun stopped => ?_⟩
        dsimp only at stopped
        split at stopped <;> cases stopped
      all_goals
        cases taken
        exact ⟨.inl, by simp⟩
  | stopTimer =>
      cases taken
      exact ⟨fun _ => .inr rfl, fun _ => rfl⟩
  | wakeDevice i =>
      rw [Timer.exec] at taken
      split at taken <;> cases taken
      exact ⟨.inl, endsLast.stopped⟩
  | wakeTimer =>
      rw [Timer.exec] at taken
      split at taken <;> cases taken
      exact ⟨.inl, by simp⟩

theorem Device.Locked.owner {timer : TimerLoc} {j : Nat} {d : Device} (locked : d.Locked timer j) :
    (d.eventLock ≠ none → d.loc.inEvent = true ∨ timer.inEvent j = true) ∧
      (d.timerLock ≠ none → d.loc.inTimer = true ∨ timer.inTimer j = true) := by
  obtain ⟨eventDevice, eventTimer, timerDevice, timerTimer⟩ := locked
  constructor <;> intro held
  · cases owner : d.eventLock with
    | none => exact absurd owner held
    | some party => cases party <;> simp_all
  · cases owner : d.timerLock with
    | none => exact absurd owner held
    | some party => cases party <;> simp_all

theorem Device.Blocked.outside {d : Device} (blocked : d.Blocked) (staying : d.loc ≠ .detached) :
    d.loc.inEvent = false ∧ d.loc.inTimer = false ∧ d.loc.signals = false := by
  rcases blocked.cases staying with here | ⟨here | here, _⟩ | ⟨here | here, _⟩ <;> rw [here] <;>
    exact ⟨rfl, rfl, rfl⟩

theorem State.Synced.awaited {n j : Nat} {s : State} (synced : s.Synced n) (wakesUp : s.WakesUp)
    (waits : s.timer = .waitEvent j) :
    (s.devices j).loc ≠ .detached ∧ ¬ (s.devices j).Blocked := by
  have inside : j < n := synced.tallied.within j (by rw [waits]; rfl)
  have locked := synced.locked j
  rw [waits] at locked
  have staying : (s.devices j).loc ≠ .detached := by
    intro gone
    have paced := synced.paced j inside
    rw [Device.Paced, gone] at paced
    have signals := wakesUp.timer j waits (.inr paced)
    rw [gone] at signals
    cases signals
  refine ⟨staying, fun blocked => ?_⟩
  obtain ⟨notEvent, notTimer, notSignals⟩ := blocked.outside staying
  rcases blocked.cases staying with here | ⟨_, held⟩ | ⟨_, held⟩
  · cases done : (s.devices j).done with
    | true =>
        have signals := wakesUp.timer j waits (.inl done)
        rw [notSignals] at signals
        cases signals
    | false =>
        have signals := wakesUp.device j here done
        rw [waits] at signals
        cases signals
  · rcases locked.owner.1 held with device | timer
    · rw [notEvent] at device
      cases device
    · cases timer
  · rcases locked.owner.2 held with device | timer
    · rw [notTimer] at device
      cases device
    · cases timer

theorem reachable_wakesUp {n : Nat} {ok : State → Label → Prop} {s : State}
    (reachable : Reach (Step n) ok (· = startTimer) s) : s.WakesUp := by
  refine reachable.invariant ?_ fun s l s' wakesUp _ taken => wakesUp.exec taken
  rintro s rfl
  exact startTimer_wakesUp

theorem reachable_endsLast {n : Nat} {s : State}
    (reachable : Reach (Step n) (State.StopsLast n) (· = startTimer) s) : s.EndsLast n := by
  refine reachable.invariant ?_ fun s l s' endsLast allowed taken => endsLast.exec allowed taken
  rintro s rfl
  exact ⟨nofun, nofun⟩

/-- While a device has not detached, some thread has a next step. -/
theorem reachable_not_stuck {n : Nat} {s : State}
    (reachable : Reach (Step n) (State.StopsLast n) (· = startTimer) s)
    (unfinished : ∃ j < n, (s.devices j).loc ≠ .detached) : ¬ s.Stuck n := by
  have synced := reachable_synced reachable
  have wakesUp := reachable_wakesUp reachable
  have endsLast := reachable_endsLast reachable
  obtain ⟨i, inside, unfinished⟩ := unfinished
  rintro ⟨timerBlocked, devicesBlocked⟩
  rcases timerBlocked.cases with ⟨j, waits⟩ | ⟨j, here, held⟩ | ⟨j, here, held⟩ | left | stopped
  · obtain ⟨staying, runs⟩ := synced.awaited wakesUp waits
    have within := synced.tallied.within j (by rw [waits]; rfl)
    exact runs (devicesBlocked j within staying)
  · have within : j < n := by
      rcases here with here | here <;> exact synced.tallied.within j (by rw [here]; rfl)
    have locked := synced.locked j
    have mine : (s.devices j).loc.inEvent = true := by
      rcases here with here | here <;> rw [here] at locked <;>
        exact (locked.owner.1 held).resolve_right nofun
    have staying : (s.devices j).loc ≠ .detached := by
      intro gone
      rw [gone] at mine
      cases mine
    rw [((devicesBlocked j within staying).outside staying).1] at mine
    cases mine
  · have within : j < n := synced.tallied.within j (by rw [here]; rfl)
    have locked := synced.locked j
    rw [here] at locked
    have mine := (locked.owner.2 held).resolve_right nofun
    have staying : (s.devices j).loc ≠ .detached := by
      intro gone
      rw [gone] at mine
      cases mine
    rw [((devicesBlocked j within staying).outside staying).2.1] at mine
    cases mine
  · exact unfinished (synced.tallied.left left i inside)
  · exact unfinished (endsLast.stop (endsLast.stopped stopped) i inside)

/-- One device: the timer waits for it, and it has set `done` and not signalled yet. -/
def firstWait : List Label :=
  List.replicate 3 .timer ++ List.replicate 3 (.device 0 .nextSlot)

theorem firstWait_not_stuck :
    ∃ s, firstWait.foldlM (exec 1) startTimer = some s ∧ s.timer = .waitEvent 0 ∧ ¬ s.Stuck 1 := by
  obtain ⟨s, taken⟩ : ∃ s, firstWait.foldlM (exec 1) startTimer = some s := ⟨_, rfl⟩
  have timer : s.timer = .waitEvent 0 := by
    have same := congrArg (Option.map State.timer) taken
    exact (Option.some.inj same).symm
  have staying : (s.devices 0).loc ≠ .detached := by
    have same := congrArg (Option.map fun s : State => (s.devices 0).loc) taken
    have here : .nextSignal = (s.devices 0).loc := Option.some.inj same
    rw [← here]
    nofun
  have noStop : ∀ l ∈ firstWait, l ≠ .stopTimer := by
    simp [firstWait]
  refine ⟨s, taken, timer, reachable_not_stuck (.foldlM (.start rfl) ?_ taken) ⟨0, Nat.one_pos, staying⟩⟩
  exact fun l member s stop => absurd stop (noStop l member)

end OsSim.Timer
