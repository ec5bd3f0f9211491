import OsSim.Sched.Custody

namespace OsSim.Sched
open Transition

/-! ## Calls that will find a process -/

section Finds

variable {mlq : Mlq} {loc : GetLoc} {i : Nat}

def Takes (mlq : Mlq) (first : Nat) : Prop :=
  ∃ j, first ≤ j ∧ j < maxPrio ∧ (mlq j).empty = false ∧ (mlq j).slot > 0

/-- With a process in the queue `i`, the call finds that process or another one, unless another CPU takes one. -/
def GetLoc.Finds (mlq : Mlq) (i : Nat) : GetLoc → Prop
  | .queueEmpty prio => prio ≤ i
  | .scan prioSelect => (mlq i).slot = 0 ∨ Takes mlq prioSelect
  | .testSlot prioSelect => (mlq prioSelect).empty = false ∧
      ((mlq prioSelect).slot > 0 ∨ (mlq i).slot = 0 ∨ Takes mlq (prioSelect + 1))
  | .take prioSelect => (mlq prioSelect).empty = false
  | .resetSlots => True

theorem slot_cases (q : Queue) : q.slot = 0 ∨ q.slot > 0 := by
  by_cases used : q.slot = 0
  · exact .inl used
  · exact .inr (by bv_omega)

theorem slot_resetSlot_pos (mlq : Mlq) {i : Nat} (inside : i < maxPrio) : (resetSlot mlq i).slot > 0 := by
  rw [slot_resetSlot mlq inside]
  simp only [maxPrio] at inside ⊢
  bv_omega

theorem Takes.next {first : Nat} (takes : Takes mlq first) :
    ((mlq first).empty = false ∧ (mlq first).slot > 0) ∨ Takes mlq (first + 1) := by
  obtain ⟨j, from_first, inside, nonempty, slot⟩ := takes
  rcases Nat.eq_or_lt_of_le from_first with rfl | later
  · exact .inl ⟨nonempty, slot⟩
  · exact .inr ⟨j, later, inside, nonempty, slot⟩

theorem GetLoc.Finds.next {loc' : GetLoc} (finds : loc.Finds mlq i) (inside : i < maxPrio)
    (waiting : (mlq i).empty = false) (other : loc ≠ .resetSlots)
    (next : (getMlqProc mlq loc).2 = .next loc') : loc'.Finds mlq i := by
  cases loc with
  | queueEmpty prio =>
      cases empty : (mlq prio).empty with
      | false =>
          simp [getMlqProc, empty] at next
          subst next
          rcases slot_cases (mlq i) with used | left
          · exact .inl used
          · exact .inr ⟨i, Nat.zero_le i, inside, waiting, left⟩
      | true =>
          simp only [getMlqProc, empty, Bool.not_true, Bool.false_eq_true, if_false] at next
          split at next <;> cases next
          refine Nat.lt_of_le_of_ne finds ?_
          rintro rfl
          rw [waiting] at empty
          cases empty
  | scan prioSelect =>
      cases empty : (mlq prioSelect).empty with
      | true =>
          simp only [getMlqProc, empty, if_true] at next
          split at next <;> cases next
          refine finds.imp id fun takes => takes.next.resolve_left fun here => ?_
          rw [empty] at here
          cases here.1
      | false =>
          simp [getMlqProc, empty] at next
          subst next
          refine ⟨empty, ?_⟩
          rcases finds with used | takes
          · exact .inr (.inl used)
          · exact takes.next.imp And.right .inr
  | testSlot prioSelect =>
      obtain ⟨nonempty, finds⟩ := finds
      rw [getMlqProc] at next
      split at next
      · cases next
        exact nonempty
      · next used =>
        have rest := finds.resolve_left used
        split at next <;> cases next
        · trivial
        · exact rest
  | take prioSelect => cases next
  | resetSlots => exact absurd rfl other

theorem GetLoc.Finds.reset (finds : loc.Finds mlq i) (left : (mlq i).slot > 0) :
    loc.Finds (resetSlot mlq) i := by
  have takes : ∀ {first}, Takes mlq first → Takes (resetSlot mlq) first := by
    rintro first ⟨j, from_first, inside, nonempty, _⟩
    exact ⟨j, from_first, inside, by rwa [empty_resetSlot], slot_resetSlot_pos mlq inside⟩
  have unused : ¬ (mlq i).slot = 0 := by bv_omega
  cases loc with
  | queueEmpty prio => exact finds
  | scan prioSelect => exact .inr (takes (finds.resolve_left unused))
  | testSlot prioSelect =>
      obtain ⟨nonempty, finds⟩ := finds
      refine ⟨by rwa [empty_resetSlot], ?_⟩
      rcases finds with slot | used | later
      · by_cases inside : prioSelect < maxPrio
        · exact .inl (slot_resetSlot_pos mlq inside)
        · rw [resetSlot, if_neg inside]
          exact .inl slot
      · exact absurd used unused
      · exact .inr (.inr (takes later))
  | take prioSelect =>
      rw [GetLoc.Finds, empty_resetSlot]
      exact finds
  | resetSlots => trivial

theorem GetLoc.Finds.take (finds : loc.Finds mlq i) (waiting : (mlq i).empty = false) {j : Nat}
    (empty : (mlq j).empty = true) : loc.Finds (getMlqProc mlq (.take j)).1 i := by
  have same : ∀ {k}, (mlq k).empty = false → (getMlqProc mlq (.take j)).1 k = mlq k := by
    intro k nonempty
    refine slot_take_of_ne mlq ?_
    rintro rfl
    rw [nonempty] at empty
    cases empty
  have takes : ∀ {first}, Takes mlq first → Takes (getMlqProc mlq (.take j)).1 first := by
    rintro first ⟨k, from_first, inside, nonempty, slot⟩
    exact ⟨k, from_first, inside, by rwa [same nonempty], by rwa [same nonempty]⟩
  cases loc with
  | queueEmpty prio => exact finds
  | scan prioSelect =>
      rw [GetLoc.Finds, same waiting]
      exact finds.imp id takes
  | testSlot prioSelect =>
      obtain ⟨nonempty, finds⟩ := finds
      rw [GetLoc.Finds, same waiting, same nonempty]
      exact ⟨nonempty, finds.imp id (.imp id takes)⟩
  | take prioSelect =>
      rw [GetLoc.Finds, same finds]
      exact finds
  | resetSlots => trivial

theorem Takes.of_last {last : Nat} (takes : Takes mlq last) (atEnd : last = maxPrio - 1) :
    (mlq last).empty = false := by
  obtain ⟨j, from_last, inside, nonempty, _⟩ := takes
  have same : j = last := by omega
  exact same ▸ nonempty

/-- A step of a call gets a process, or goes on with a prospect, or takes no prospect away. -/
theorem getMlqProc_finds (within : loc.Inside) (inside : i < maxPrio)
    (entries : ∀ j < maxPrio, none ∉ (mlq j).entries)
    (ends : loc = .scan (maxPrio - 1) → (mlq (maxPrio - 1)).empty = true → (mlq i).empty = false →
      (mlq i).slot > 0)
    (restarts : loc = .resetSlots → (mlq 0).empty = false →
      ∃ j < maxPrio, 1 ≤ j ∧ (mlq j).empty = false)
    (waiting : ((getMlqProc mlq loc).1 i).empty = false) :
    (∃ proc, (getMlqProc mlq loc).2 = .got (some proc)) ∨
      (∃ loc', (getMlqProc mlq loc).2 = .next loc' ∧ loc'.Finds (getMlqProc mlq loc).1 i) ∨
      ((mlq i).empty = false ∧ ¬ loc.Finds mlq i ∧
        ∀ other : GetLoc, other.Finds mlq i → other.Finds (getMlqProc mlq loc).1 i) := by
  rcases getMlqProc_cases mlq within with
    ⟨loc', other, step⟩ | ⟨reset, step⟩ | ⟨j, take⟩ | ⟨last, empty, step⟩ | ⟨last, empty, step⟩
  · rw [step] at waiting ⊢
    by_cases finds : loc.Finds mlq i
    · exact .inr (.inl ⟨loc', rfl, finds.next inside waiting other (by rw [step])⟩)
    · exact .inr (.inr ⟨waiting, finds, fun _ => id⟩)
  · rw [step] at waiting ⊢
    rw [empty_resetSlot] at waiting
    obtain ⟨j, insideJ, from_one, nonempty⟩ : ∃ j < maxPrio, 1 ≤ j ∧ (mlq j).empty = false := by
      by_cases first : i = 0
      · exact restarts reset (first ▸ waiting)
      · exact ⟨i, inside, Nat.pos_of_ne_zero first, waiting⟩
    exact .inr (.inl ⟨.scan 1, rfl, .inr ⟨j, from_one, insideJ, by rwa [empty_resetSlot],
      slot_resetSlot_pos mlq insideJ⟩⟩)
  · subst take
    have insideJ := within j rfl
    cases empty : (mlq j).empty with
    | false =>
        cases first : (dequeue (mlq j)).1 with
        | none =>
            refine absurd ?_ (entries j insideJ)
            rw [entries_dequeue empty, first]
            exact List.mem_cons_self
        | some proc =>
            refine .inl ⟨proc, ?_⟩
            rw [getMlqProc]
            exact congrArg _ first
    | true =>
        have other : i ≠ j := by
          rintro rfl
          rw [getMlqProc] at waiting
          dsimp only at waiting
          rw [Function.update_self, dequeue_of_empty empty] at waiting
          exact absurd empty (by simpa [Queue.empty] using waiting)
        rw [slot_take_of_ne mlq other] at waiting
        refine .inr (.inr ⟨waiting, ?_, fun _ finds => finds.take waiting empty⟩)
        intro finds
        rw [GetLoc.Finds, empty] at finds
        cases finds
  · rw [step] at waiting ⊢
    refine .inr (.inr ⟨waiting, ?_, fun _ => id⟩)
    intro finds
    rw [last, GetLoc.Finds] at finds
    have same : i = maxPrio - 1 := by omega
    rw [same, empty] at waiting
    cases waiting
  · rw [step] at waiting ⊢
    rw [empty_resetSlot] at waiting
    have left := ends last empty waiting
    refine .inr (.inr ⟨waiting, ?_, fun _ finds => finds.reset left⟩)
    intro finds
    rw [last] at finds
    rcases finds with used | takes
    · rw [used] at left
      exact absurd left (by decide)
    · rw [takes.of_last rfl] at empty
      cases empty

end Finds

section Stopping

variable {ι : Type*} {cfg : Config ι} {s s' : Os ι}

/-! ## Conditions on a run -/

/-- Time goes on only while all threads wait for the next slot or have ended. -/
def Os.SlotEnds (cfg : Config ι) (s : Os ι) (l : OsLabel) : Prop :=
  l = .tick →
    (∀ id < cfg.numCpus, (s.cpus id).loc = .nextSlot s.time ∨ (s.cpus id).loc = .stopped) ∧
      (s.loader = .waitSlot s.time ∨ s.loader = .addSlot s.time ∨ s.loader = .finished)

/-- All processes were added in slots before this one. -/
def Os.Late (cfg : Config ι) (s : Os ι) : Prop :=
  s.loaded = cfg.numProcesses ∧ s.loader ≠ .addSlot s.time

/-- A CPU that has had a process is in `get_proc` at `loc`. -/
def Os.Searches (s : Os ι) (l : OsLabel) (loc : GetLoc) : Prop :=
  match l with
  | .cpu id => (s.cpus id).loc = .getProc .finished loc ∨ (s.cpus id).loc = .getProc .putBack loc
  | _ => False

/-- After the last process was added, no search ends at the last queue while a process waits in a queue without
a slot, and none starts again at the queue 1 while processes wait in the queue 0 only. -/
structure Os.SearchesWell (cfg : Config ι) (s : Os ι) (l : OsLabel) : Prop where
  ends : s.Late cfg → s.Searches l (.scan (maxPrio - 1)) → (s.mlq (maxPrio - 1)).empty = true →
    ∀ i < maxPrio, (s.mlq i).empty = false → (s.mlq i).slot > 0
  restarts : s.Late cfg → s.Searches l .resetSlots → (s.mlq 0).empty = false →
    ∃ i < maxPrio, 1 ≤ i ∧ (s.mlq i).empty = false

structure Os.Regular (cfg : Config ι) (s : Os ι) (l : OsLabel) : Prop where
  room : s.HasRoom cfg l
  slotEnds : s.SlotEnds cfg l
  searches : s.SearchesWell cfg l

theorem searches_of_loc {id : Nat} {branch : Branch} {loc : GetLoc} (busy : branch ≠ .idle)
    (here : (s.cpus id).loc = .getProc branch loc) : s.Searches (.cpu id) loc := by
  cases branch with
  | idle => exact absurd rfl busy
  | finished => exact .inl here
  | putBack => exact .inr here

section Decidable

variable [DecidableEq ι] (cfg s) (l : OsLabel)

instance : Decidable (s.SlotEnds cfg l) :=
  inferInstanceAs (Decidable (l = .tick → _))

instance : Decidable (s.Late cfg) :=
  inferInstanceAs (Decidable (_ ∧ _))

instance (loc : GetLoc) : Decidable (s.Searches l loc) :=
  match l with
  | .cpu id => inferInstanceAs (Decidable ((s.cpus id).loc = _ ∨ (s.cpus id).loc = _))
  | .loader | .tick => inferInstanceAs (Decidable False)

instance : Decidable (s.SearchesWell cfg l) :=
  @decidable_of_iff _ (_ ∧ _) ⟨fun both => ⟨both.1, both.2⟩, fun well => ⟨well.ends, well.restarts⟩⟩
    (@instDecidableAnd _ _ inferInstance inferInstance)

instance : Decidable (s.Regular cfg l) :=
  decidable_of_iff (_ ∧ _ ∧ _)
    ⟨fun all => ⟨all.1, all.2.1, all.2.2⟩, fun all => ⟨all.room, all.slotEnds, all.searches⟩⟩

end Decidable

/-! ## Processes that wait are watched -/

/-- The CPU will take a process if the queue `i` keeps one, or another CPU will have taken one. -/
def Cpu.Watches (mlq : Mlq) (i : Nat) (cpu : Cpu ι) : Prop :=
  match cpu.loc with
  | .getProc branch loc => branch = .idle ∨ loc.Finds mlq i
  | .recheck => cpu.proc ≠ none
  | .stopped => False
  | _ => True

structure Os.Watched (cfg : Config ι) (s : Os ι) : Prop where
  stopped : ∀ id < cfg.numCpus, (s.cpus id).loc = .stopped → s.done = true
  done : s.done = true → s.loader = .finished
  all : s.loader = .setDone ∨ s.loader = .finished → s.loaded = cfg.numProcesses
  watched : s.Late cfg → ∀ i < maxPrio, (s.mlq i).empty = false →
    ∃ id < cfg.numCpus, (s.cpus id).Watches s.mlq i

theorem watched_setCpu {id i : Nat} {cpu : Cpu ι} {mlq : Mlq} (inside : id < cfg.numCpus)
    (watched : (s.mlq i).empty = false → ∃ id < cfg.numCpus, (s.cpus id).Watches s.mlq i)
    (step : cpu.Watches mlq i ∨ (s.mlq i).empty = false ∧
      ((s.cpus id).Watches s.mlq i → cpu.Watches mlq i) ∧
      ∀ other : Cpu ι, other.Watches s.mlq i → other.Watches mlq i) :
    ∃ other < cfg.numCpus, (Function.update s.cpus id cpu other).Watches mlq i := by
  rcases step with mine | ⟨waiting, mine, others⟩
  · exact ⟨id, inside, by rwa [Function.update_self]⟩
  · obtain ⟨other, inside', watches⟩ := watched waiting
    by_cases same : other = id
    · exact ⟨id, inside, by rw [Function.update_self]; exact mine (same ▸ watches)⟩
    · exact ⟨other, inside', by rw [Function.update_of_ne same]; exact others _ watches⟩

theorem Cpu.Watches.map {mlq mlq' : Mlq} {i : Nat} {cpu : Cpu ι} (watches : cpu.Watches mlq i)
    (finds : ∀ loc : GetLoc, loc.Finds mlq i → loc.Finds mlq' i) : cpu.Watches mlq' i := by
  unfold Cpu.Watches at watches ⊢
  split at watches
  · exact watches.imp id (finds _)
  · exact watches
  · exact watches
  · trivial

theorem Os.Watched.moved (watched : s.Watched cfg) {id : Nat} (inside : id < cfg.numCpus) {cpu : Cpu ι}
    (cpus : s'.cpus = Function.update s.cpus id cpu) (loader : s'.loader = s.loader)
    (loaded : s'.loaded = s.loaded) (done : s'.done = s.done) (time : s'.time = s.time)
    (stops : cpu.loc = .stopped → s.done = true)
    (step : s.Late cfg → ∀ i < maxPrio, (s'.mlq i).empty = false →
      cpu.Watches s'.mlq i ∨ (s.mlq i).empty = false ∧
        ((s.cpus id).Watches s.mlq i → cpu.Watches s'.mlq i) ∧
        ∀ other : Cpu ι, other.Watches s.mlq i → other.Watches s'.mlq i) : s'.Watched cfg := by
  refine ⟨?_, ?_, ?_, ?_⟩
  · intro other inside' here
    rw [done]
    rw [cpus] at here
    by_cases same : other = id
    · rw [same, Function.update_self] at here
      exact stops here
    · rw [Function.update_of_ne same] at here
      exact watched.stopped other inside' here
  · rw [done, loader]
    exact watched.done
  · rw [loader, loaded]
    exact watched.all
  · intro late i insideI waiting
    rw [Os.Late, loaded, loader, time] at late
    rw [cpus]
    exact watched_setCpu inside (watched.watched late i insideI) (step late i insideI waiting)

theorem watches_got {mlq : Mlq} {i since : Nat} {timeLeft : Int} {branch : Branch} {proc : Option Nat}
    (kept : branch = .idle ∨ proc ≠ none) :
    Cpu.Watches mlq i
      (⟨timeLeft, proc, if branch = .idle ∧ proc = none then .nextSlot since else .recheck⟩ : Cpu ι) := by
  split
  · trivial
  · next runs => exact fun none => runs ⟨kept.resolve_right (not_not.mpr none), none⟩

theorem Os.Watched.getProc (watched : s.Watched cfg) (custody : s.Custody cfg) {id : Nat}
    (inside : id < cfg.numCpus) {branch : Branch} {loc : GetLoc}
    (here : (s.cpus id).loc = .getProc branch loc) (well : s.SearchesWell cfg (.cpu id)) {cpu : Cpu ι}
    (stops : cpu.loc = .stopped → s.done = true)
    (watches : ∀ i, (branch = .idle ∨ (∃ proc, (getMlqProc s.mlq loc).2 = .got (some proc)) ∨
      ∃ loc', (getMlqProc s.mlq loc).2 = .next loc' ∧ loc'.Finds (getMlqProc s.mlq loc).1 i) →
      cpu.Watches (getMlqProc s.mlq loc).1 i) :
    Os.Watched cfg { s.setCpu id cpu with mlq := (getMlqProc s.mlq loc).1 } := by
  have controlled := custody.controlled id inside
  rw [Cpu.Controlled, here] at controlled
  have entries : ∀ j < maxPrio, none ∉ (s.mlq j).entries := by
    intro j insideJ member
    obtain ⟨proc, same, _⟩ := custody.entries j insideJ none member
    cases same
  refine watched.moved inside rfl rfl rfl rfl rfl stops ?_
  intro late i insideI waiting
  by_cases busy : branch = .idle
  · exact .inl (watches i (.inl busy))
  · have finds := getMlqProc_finds controlled.2 insideI entries
      (fun last empty waiting => well.ends late (searches_of_loc busy (last ▸ here)) empty i insideI waiting)
      (fun reset => well.restarts late (searches_of_loc busy (reset ▸ here))) waiting
    rcases finds with found | next | ⟨waits, lost, others⟩
    · exact .inl (watches i (.inr (.inl found)))
    · exact .inl (watches i (.inr (.inr next)))
    · refine .inr ⟨waits, ?_, fun _ watches => watches.map others⟩
      intro watches
      rw [Cpu.Watches, here] at watches
      exact absurd (watches.resolve_left busy) lost

theorem Os.Watched.cpuRoutine (watched : s.Watched cfg) (custody : s.Custody cfg) {id : Nat}
    (inside : id < cfg.numCpus) (well : s.SearchesWell cfg (.cpu id))
    (taken : Sched.cpuRoutine cfg s id = some s') : s'.Watched cfg := by
  cases cpuRoutine_cases taken with
  | looks here result =>
      refine watched.getProc custody inside here well (by simp) ?_
      rintro i (idle | ⟨proc, got⟩ | ⟨loc', next, finds⟩)
      · exact .inl idle
      · cases result.symm.trans got
      · cases result.symm.trans next
        exact .inr finds
  | got here result =>
      refine watched.getProc custody inside here well ?_ ?_
      · dsimp only
        split <;> simp
      · rintro i (idle | ⟨proc, got⟩ | ⟨loc', next, finds⟩)
        · exact watches_got (.inl idle)
        · cases result.symm.trans got
          exact watches_got (.inr (Option.some_ne_none proc))
        · cases result.symm.trans next
  | nothing here holds =>
      refine watched.moved inside rfl rfl rfl rfl rfl ?_ ?_
      · dsimp only
        split
        · next done => exact fun _ => done
        · simp
      · intro late i insideI waiting
        refine .inr ⟨waiting, ?_, fun _ watches => watches⟩
        intro watches
        rw [Cpu.Watches, here] at watches
        exact absurd holds watches
  | idle => exact watched.moved inside rfl rfl rfl rfl rfl (by simp) fun _ _ _ _ => .inl (.inl rfl)
  | finished | putProc =>
      exact watched.moved inside rfl rfl rfl rfl rfl (by simp) fun _ i _ _ => .inl (.inr (Nat.zero_le i))
  | goesOn here holds =>
      refine watched.moved inside rfl rfl rfl rfl rfl (by simp) fun _ _ _ _ => .inl ?_
      exact fun none => Option.some_ne_none _ (holds.symm.trans none)
  | slotEnds | turn | pastEnd | fetch | execute | nextSlot =>
      exact watched.moved inside rfl rfl rfl rfl rfl (by simp) fun _ _ _ _ => .inl trivial

theorem Os.Watched.ldRoutine (watched : s.Watched cfg) (custody : s.Custody cfg)
    (taken : Sched.ldRoutine cfg s = some s') : s'.Watched cfg := by
  have running : s.loader ≠ .finished → s.done ≠ true := fun more done => more (watched.done done)
  have still : ∀ {loader : LoaderLoc}, s.loader ≠ .finished → s.loader ≠ .addSlot s.time →
      (loader = .setDone ∨ loader = .finished → s.loaded = cfg.numProcesses) →
      Os.Watched cfg { s with loader := loader } := by
    intro loader more settled all
    exact ⟨watched.stopped, fun done => absurd done (running more), all,
      fun late => watched.watched ⟨late.1, settled⟩⟩
  cases here : s.loader <;> rw [here] at running still <;>
    simp only [Sched.ldRoutine, here, Option.some.injEq, reduceCtorEq] at taken
  case head =>
    subst taken
    refine still (by simp) (by simp) ?_
    have bound := custody.loaded
    split
    · rintro (before | after) <;> contradiction
    · omega
  case wait =>
    subst taken
    refine still (by simp) (by simp) ?_
    split <;> rintro (before | after) <;> contradiction
  case waitSlot since =>
    split at taken <;> cases taken
    exact still (by simp) (by simp) (by simp)
  case addProc =>
    subst taken
    exact ⟨watched.stopped, fun done => absurd done (running (by simp)), by simp, fun late => absurd rfl late.2⟩
  case addSlot since =>
    split at taken
    · next past =>
      cases taken
      refine still (by simp) ?_ (by simp)
      rintro ⟨⟩
      exact Nat.lt_irrefl _ past
    · cases taken
  case setDone =>
    subst taken
    exact ⟨fun _ _ _ => rfl, fun _ => rfl, fun _ => watched.all (.inl here),
      fun late => watched.watched ⟨late.1, by simp [here]⟩⟩

/-- A new slot begins: if it is the one after the last addition, all CPUs wait for it. -/
theorem Os.Watched.tick (watched : s.Watched cfg) (cpus : 0 < cfg.numCpus) (ends : s.SlotEnds cfg .tick) :
    Os.Watched cfg { s with time := s.time + 1 } := by
  refine ⟨watched.stopped, watched.done, watched.all, ?_⟩
  intro late i inside waiting
  by_cases last : s.loader = .addSlot s.time
  · refine ⟨0, cpus, ?_⟩
    rcases (ends rfl).1 0 cpus with waits | stopped
    · rw [Cpu.Watches, waits]
      trivial
    · have finished := watched.done (watched.stopped 0 cpus stopped)
      rw [last] at finished
      cases finished
  · exact watched.watched ⟨late.1, last⟩ i inside waiting

theorem Os.Start.watched (start : s.Start) : s.Watched cfg := by
  obtain ⟨⟨block, mlq⟩, cpus, loader, loaded, done, _, _, _⟩ := start
  refine ⟨?_, ?_, ?_, ?_⟩
  · intro id _ stopped
    rw [cpus id] at stopped
    cases stopped
  · intro set
    rw [done] at set
    cases set
  · rw [loader]
    simp
  · intro _ i inside waiting
    rw [mlq, initScheduler, if_pos inside] at waiting
    cases waiting

theorem reachable_watched (cpus : 0 < cfg.numCpus) (prios : ∀ p < cfg.numProcesses, cfg.prio p < maxPrio)
    (reachable : Reach (Os.Step cfg) (Os.Regular cfg) Os.Start s) : s.Watched cfg := by
  refine reachable.invariant_with (fun s before => reachable_custody prios before)
    (fun s start => start.watched) ?_
  intro s l s' custody watched regular taken
  cases l with
  | cpu id =>
      rw [Os.Step, Os.exec] at taken
      split at taken
      · next inside => exact watched.cpuRoutine custody inside regular.searches taken
      · cases taken
  | loader => exact watched.ldRoutine custody taken
  | tick =>
      cases taken
      exact watched.tick cpus regular.slotEnds

/-! ## Searches through many queues -/

def Os.look (s : Os ι) (id : Nat) (branch : Branch) (loc : GetLoc) : Os ι :=
  s.setCpu id { s.cpus id with loc := .getProc branch loc }

section Look

variable {id : Nat} {branch : Branch} {loc loc' : GetLoc}

theorem look_of_loc (here : (s.cpus id).loc = .getProc branch loc) : s.look id branch loc = s := by
  have same : { s.cpus id with loc := .getProc branch loc } = s.cpus id := by rw [← here]
  rw [Os.look, same, Os.setCpu, Function.update_eq_self]

theorem exec_look (inside : id < cfg.numCpus) (looks : Looks s.mlq loc loc') :
    (s.look id branch loc).exec cfg (.cpu id) = some (s.look id branch loc') := by
  have step : getMlqProc (s.look id branch loc).mlq loc = (s.mlq, .next loc') := looks.2
  simp [Os.exec, cpuRoutine, inside, Os.look, Os.setCpu] at step ⊢
  rw [step]

theorem look_regular (looks : Looks s.mlq loc loc') : (s.look id branch loc).Regular cfg (.cpu id) := by
  have here : ((s.look id branch loc).cpus id).loc = .getProc branch loc := by simp [Os.look, Os.setCpu]
  have searched : ∀ {other}, (s.look id branch loc).Searches (.cpu id) other → loc = other := by
    intro other searches
    rw [Os.Searches, here] at searches
    rcases searches with same | same <;> cases same <;> rfl
  refine ⟨?_, fun tick => OsLabel.noConfusion tick, ?_, ?_⟩
  · intro proc member
    simp [Os.enqueues, here] at member
  · intro _ searches empty
    exact absurd (searched searches ▸ looks) (not_looks_last empty)
  · intro _ searches
    exact absurd (searched searches) looks.1

theorem reach_look {ok : Os ι → OsLabel → Prop} (regular : ∀ s l, s.Regular cfg l → ok s l)
    (inside : id < cfg.numCpus) (reachable : Reach (Os.Step cfg) ok Os.Start s)
    (here : (s.cpus id).loc = .getProc branch loc) (looks : Relation.ReflTransGen (Looks s.mlq) loc loc') :
    Reach (Os.Step cfg) ok Os.Start (s.look id branch loc') := by
  induction looks with
  | refl => rwa [look_of_loc here]
  | tail _ next ih => exact .step ih (regular _ _ (look_regular next)) (exec_look inside next)

end Look

/-! ## The end of a run -/

structure Os.Drained (cfg : Config ι) (s : Os ι) : Prop where
  finished : ∀ proc < s.loaded, s.finished proc = true ∧ s.pc proc = (cfg.text proc).length
  empty : ∀ i < maxPrio, (s.mlq i).empty = true

/-- In a run whose searches go well, no process is left when all CPUs have stopped. -/
theorem reachable_not_abandoned (cpus : 0 < cfg.numCpus)
    (prios : ∀ p < cfg.numProcesses, cfg.prio p < maxPrio)
    (reachable : Reach (Os.Step cfg) (Os.Regular cfg) Os.Start s)
    (stopped : ∀ id < cfg.numCpus, (s.cpus id).loc = .stopped) : s.Drained cfg := by
  have custody := reachable_custody prios reachable
  have watched := reachable_watched cpus prios reachable
  have ended := watched.done (watched.stopped 0 cpus (stopped 0 cpus))
  have late : s.Late cfg := ⟨watched.all (.inr ended), by rw [ended]; nofun⟩
  have empty : ∀ i < maxPrio, (s.mlq i).empty = true := by
    intro i inside
    cases waiting : (s.mlq i).empty with
    | true => rfl
    | false =>
        obtain ⟨id, inside', watches⟩ := watched.watched late i inside waiting
        rw [Cpu.Watches, stopped id inside'] at watches
        exact watches.elim
  refine ⟨?_, empty⟩
  intro proc added
  obtain ⟨place, here⟩ := custody.place_exists added
  cases place with
  | queue prio pos =>
      obtain ⟨inside, entry⟩ := here
      rw [Queue.empty_iff.mp (empty prio inside)] at entry
      cases entry
  | cpu id =>
      obtain ⟨inside, holds⟩ := here
      have controlled := custody.controlled id inside
      rw [Cpu.Controlled, stopped id inside] at controlled
      rw [show (s.cpus id).proc = none from controlled] at holds
      cases holds
  | finished => exact ⟨here, custody.finished proc here⟩

end Stopping

/-- All processes were executed and the loader has ended; CPU 1 has stopped, and CPU 0 asks for a process. -/
def lastSearch : Os Char :=
  follow (Os.exec twoCpus) (Os.Regular twoCpus) startOs
    (firstSlot ++ secondSlot ++ .tick :: turns 6 ++ List.replicate 3 .loader ++ .cpu 1 :: List.replicate 3 (.cpu 0) ++
      .tick :: List.replicate 2 (.cpu 0))

def lastStop : Os Char :=
  follow (Os.exec twoCpus) (Os.Regular twoCpus)
    (lastSearch.look 0 .finished (.queueEmpty (maxPrio - 1))) (List.replicate 2 (.cpu 0))

theorem lastSearch_reachable : Reach (Os.Step twoCpus) (Os.Regular twoCpus) Os.Start lastSearch := by
  rw [lastSearch]
  exact Reach.follow (fun _ _ => id) (.start startOs_start) _

theorem twoCpus_not_abandoned :
    lastStop.finished 0 = true ∧ lastStop.finished 1 = true ∧ lastStop.Drained twoCpus := by
  have top : ∀ p < twoCpus.numProcesses, twoCpus.prio p < maxPrio :=
    fun _ _ => (by decide : 0 < maxPrio)
  have here : (lastSearch.cpus 0).loc = .getProc .finished (.queueEmpty 0) := by decide +kernel
  have nothing : ∀ i < maxPrio - 1, (lastSearch.mlq i).empty = true := by decide +kernel
  have stopped : ∀ id < twoCpus.numCpus, (lastStop.cpus id).loc = .stopped := by decide +kernel
  have searched := reach_look (fun _ _ => id) (by decide) lastSearch_reachable here
    (looks_queueEmpty (by decide) nothing)
  have stops : Reach (Os.Step twoCpus) (Os.Regular twoCpus) Os.Start lastStop := by
    rw [lastStop]
    exact Reach.follow (fun _ _ => id) searched _
  exact ⟨by decide +kernel, by decide +kernel, reachable_not_abandoned (by decide) top stops stopped⟩

/-- The conditions that `SearchesWell` comes on top of. -/
def Os.Timed {ι : Type*} (cfg : Config ι) (s : Os ι) (l : OsLabel) : Prop :=
  s.HasRoom cfg l ∧ s.SlotEnds cfg l

instance {ι : Type*} [DecidableEq ι] (cfg : Config ι) (s : Os ι) (l : OsLabel) : Decidable (s.Timed cfg l) :=
  inferInstanceAs (Decidable (_ ∧ _))

/-- One CPU and two processes of the priority 138, whose queue has two slots. The processes start together. -/
def twoProcesses : Config Char :=
  { timeSlot := 1, numCpus := 1, numProcesses := 2, startTime := fun _ => 0, prio := fun _ => 138
    text := fun proc => if proc = 0 then ['a', 'b'] else ['a'] }

def twoLabels (s : Os Char) (labels : List OsLabel) : Os Char :=
  follow (Os.exec twoProcesses) (Os.Timed twoProcesses) s labels

def firstGet : Os Char := twoLabels startOs (List.replicate 3 .loader ++ [.cpu 0])

/-- The process 0 was executed for one slot and is put back behind the process 1. -/
def secondGet : Os Char :=
  twoLabels (firstGet.look 0 .idle (.testSlot 138))
    (List.replicate 5 (.cpu 0) ++ .tick :: List.replicate 4 .loader ++ List.replicate 3 (.cpu 0))

/-- The process 1 has finished, and both slots of the queue are used. -/
def thirdGet : Os Char :=
  twoLabels (secondGet.look 0 .putBack (.testSlot 138))
    (List.replicate 5 (.cpu 0) ++ .tick :: List.replicate 3 .loader ++ List.replicate 2 (.cpu 0))

def abandoned : Os Char :=
  twoLabels (thirdGet.look 0 .finished (.testSlot 138)) (List.replicate 4 (.cpu 0))

theorem twoProcesses_get {s : Os Char}
    (reachable : Reach (Os.Step twoProcesses) (Os.Timed twoProcesses) Os.Start s) (branch : Branch)
    (here : (s.cpus 0).loc = .getProc branch (.queueEmpty 0)) (before : ∀ i < 138, (s.mlq i).empty = true)
    (waiting : (s.mlq 138).empty = false) (labels : List OsLabel) :
    Reach (Os.Step twoProcesses) (Os.Timed twoProcesses) Os.Start
      (twoLabels (s.look 0 branch (.testSlot 138)) labels) := by
  have looks := finds_queue (by decide : 138 < maxPrio) before waiting
  have timed : ∀ (s : Os Char) l, s.Regular twoProcesses l → s.Timed twoProcesses l :=
    fun s l regular => ⟨regular.room, regular.slotEnds⟩
  rw [twoLabels]
  exact Reach.follow (fun _ _ => id) (reach_look timed (by decide) reachable here looks) labels

/-- The CPU stops while the process 0 waits in its queue: the third search resets the slots and finds nothing. -/
theorem twoProcesses_abandoned :
    Reach (Os.Step twoProcesses) (Os.Timed twoProcesses) Os.Start abandoned ∧
      (∀ id < twoProcesses.numCpus, (abandoned.cpus id).loc = .stopped) ∧
      0 < abandoned.loaded ∧ abandoned.finished 0 = false ∧
      abandoned.pc 0 < (twoProcesses.text 0).length ∧ (abandoned.mlq 138).entries = [some 0] := by
  have first : Reach (Os.Step twoProcesses) (Os.Timed twoProcesses) Os.Start firstGet :=
    .follow (fun _ _ => id) (.start startOs_start) _
  have second : Reach (Os.Step twoProcesses) (Os.Timed twoProcesses) Os.Start secondGet :=
    twoProcesses_get first .idle (by decide +kernel) (by decide +kernel) (by decide +kernel) _
  have third : Reach (Os.Step twoProcesses) (Os.Timed twoProcesses) Os.Start thirdGet :=
    twoProcesses_get second .putBack (by decide +kernel) (by decide +kernel) (by decide +kernel) _
  have last : Reach (Os.Step twoProcesses) (Os.Timed twoProcesses) Os.Start abandoned :=
    twoProcesses_get third .finished (by decide +kernel) (by decide +kernel) (by decide +kernel) _
  exact ⟨last, by decide +kernel, by decide +kernel, by decide +kernel, by decide +kernel, by decide +kernel⟩

end OsSim.Sched
