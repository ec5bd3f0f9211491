import OsSim.Lib.Fifo
import OsSim.Lib.Transition
import OsSim.Sched.Mlq

namespace OsSim.Sched
open Transition

/-! ## A whole call of `get_proc` -/

/-- The steps of a call from `loc` on, with no step of another thread between them. -/
def callFrom : Nat → Mlq → GetLoc → Option (Option Nat × Mlq)
  | 0, _, _ => none
  | fuel + 1, mlq, loc =>
      let after := getMlqProc mlq loc
      match after.2 with
      | .next loc => callFrom fuel after.1 loc
      | .got proc => some (proc, after.1)

def callSteps : Nat := 5 * maxPrio + 3

def getProc (mlq : Mlq) : Option (Option Nat × Mlq) := callFrom callSteps mlq (.queueEmpty 0)

section Call

variable {mlq mlq' after : Mlq} {loc loc' : GetLoc}

/-- A scan of the queues starts again at most once, as all slots are above zero then. -/
def Mlq.restarts (mlq : Mlq) : Nat := if ∀ i < maxPrio, (mlq i).slot > 0 then 0 else 1

def GetLoc.rank (mlq : Mlq) : GetLoc → Nat
  | .queueEmpty prio => 4 * maxPrio + 2 + (maxPrio - prio)
  | .scan prioSelect => 2 * maxPrio * mlq.restarts + 2 * (maxPrio - prioSelect) + 1
  | .testSlot prioSelect => 2 * maxPrio * mlq.restarts + 2 * (maxPrio - prioSelect)
  | .take _ => 0
  | .resetSlots => 2 * maxPrio

theorem restarts_resetSlot (mlq : Mlq) : Mlq.restarts (resetSlot mlq) = 0 := by
  apply if_pos
  intro i inside
  rw [slot_resetSlot mlq inside]
  simp only [maxPrio] at inside ⊢
  bv_omega

theorem restarts_le (mlq : Mlq) : mlq.restarts ≤ 1 := by
  rw [Mlq.restarts]
  split <;> omega

theorem restarts_of_used {i : Nat} (inside : i < maxPrio) (used : ¬ (mlq i).slot > 0) :
    mlq.restarts = 1 :=
  if_neg fun all => used (all i inside)

theorem next_cases (inside : loc.Inside) (next : (getMlqProc mlq loc).2 = .next loc') :
    Looks mlq loc loc' ∨ loc = .resetSlots ∧ loc' = .scan 1 ∧ (getMlqProc mlq loc).1 = resetSlot mlq := by
  rcases getMlqProc_cases mlq inside with
    ⟨next', other, step⟩ | ⟨reset, step⟩ | ⟨i, rfl⟩ | ⟨_, _, step⟩ | ⟨_, _, step⟩
  · rw [step] at next
    cases next
    exact .inl ⟨other, step⟩
  · rw [step] at next ⊢
    cases next
    exact .inr ⟨reset, rfl, rfl⟩
  · cases next
  · rw [step] at next
    cases next
  · rw [step] at next
    cases next

theorem Looks.rank (inside : loc.Inside) (looks : Looks mlq loc loc') : loc'.rank mlq < loc.rank mlq := by
  have next : (getMlqProc mlq loc).2 = .next loc' := congrArg Prod.snd looks.2
  have bound := restarts_le mlq
  cases loc with
  | queueEmpty prio =>
      have within := inside prio rfl
      rw [getMlqProc] at next
      split at next
      · cases next
        simp only [GetLoc.rank, maxPrio] at within ⊢
        omega
      · split at next <;> cases next
        simp only [GetLoc.rank]
        omega
  | scan prioSelect =>
      have within := inside prioSelect rfl
      rw [getMlqProc] at next
      split at next
      · dsimp only at next
        split at next <;> cases next
        simp only [GetLoc.rank]
        omega
      · cases next
        simp only [GetLoc.rank]
        omega
  | testSlot prioSelect =>
      have within := inside prioSelect rfl
      rw [getMlqProc] at next
      split at next
      · cases next
        simp only [GetLoc.rank]
        omega
      · next used =>
        have again := restarts_of_used within used
        split at next <;> cases next
        · simp only [GetLoc.rank, again]
          omega
        · simp only [GetLoc.rank]
          omega
  | take prioSelect => cases next
  | resetSlots => exact absurd rfl looks.1

theorem getMlqProc_rank (inside : loc.Inside) (next : (getMlqProc mlq loc).2 = .next loc') :
    loc'.rank (getMlqProc mlq loc).1 < loc.rank mlq := by
  rcases next_cases inside next with looks | ⟨rfl, rfl, reset⟩
  · rw [looks.2]
    exact looks.rank inside
  · simp only [reset, GetLoc.rank, restarts_resetSlot, maxPrio]
    omega

/-! ### What a call does -/

/-- The call has seen a process in the queue that it tests or dequeues from. -/
def GetLoc.Sees (mlq : Mlq) : GetLoc → Prop
  | .testSlot prioSelect | .take prioSelect => (mlq prioSelect).empty = false
  | _ => True

theorem GetLoc.Sees.next (sees : loc.Sees mlq) (inside : loc.Inside)
    (next : (getMlqProc mlq loc).2 = .next loc') : loc'.Sees (getMlqProc mlq loc).1 := by
  rcases next_cases inside next with looks | ⟨rfl, rfl, _⟩
  · rw [looks.2]
    cases loc with
    | queueEmpty prio =>
        rw [getMlqProc] at next
        split at next
        · cases next
          trivial
        · split at next <;> cases next
          trivial
    | scan prioSelect =>
        rw [getMlqProc] at next
        split at next
        · dsimp only at next
          split at next <;> cases next
          trivial
        · next nonempty =>
          cases next
          exact eq_false_of_ne_true nonempty
    | testSlot prioSelect =>
        rw [getMlqProc] at next
        split at next
        · cases next
          exact sees
        · split at next <;> cases next <;> trivial
    | take prioSelect => cases next
    | resetSlots => exact absurd rfl looks.1
  · trivial

/-- The processes of a queue and their order are the same. -/
def SameList (q q' : Queue) : Prop := q'.proc = q.proc ∧ q'.size = q.size

theorem SameList.entries {q q' : Queue} (same : SameList q q') : q'.entries = q.entries := by
  rw [Queue.entries, same.1, same.2, ← Queue.entries]

theorem sameList_resetSlot (mlq : Mlq) (i : Nat) : SameList (mlq i) (resetSlot mlq i) := by
  rw [resetSlot]
  split <;> exact ⟨rfl, rfl⟩

/-- A call returns NULL and moves no process, or returns the first process of one queue. -/
inductive Gives (mlq : Mlq) : Option Nat → Mlq → Prop
  | nothing {after : Mlq} (others : ∀ i, SameList (mlq i) (after i)) : Gives mlq none after
  | first {after : Mlq} {k : Nat} {proc : Option Nat} (inside : k < maxPrio)
      (front : (mlq k).entries = proc :: (after k).entries)
      (others : ∀ i, i ≠ k → SameList (mlq i) (after i)) : Gives mlq proc after

theorem Gives.after_quiet {proc : Option Nat} (same : ∀ i, SameList (mlq i) (mlq' i))
    (gives : Gives mlq' proc after) : Gives mlq proc after := by
  have trans : ∀ i, SameList (mlq' i) (after i) → SameList (mlq i) (after i) :=
    fun i later => ⟨later.1.trans (same i).1, later.2.trans (same i).2⟩
  cases gives with
  | nothing others => exact .nothing fun i => trans i (others i)
  | first inside front others =>
      exact .first inside ((same _).entries ▸ front) fun i other => trans i (others i other)

theorem callFrom_gives {fuel : Nat} (inside : loc.Inside) (sees : loc.Sees mlq)
    (enough : loc.rank mlq < fuel) : ∃ proc after, callFrom fuel mlq loc = some (proc, after) ∧
      Gives mlq proc after := by
  induction fuel generalizing mlq loc with
  | zero => exact absurd enough (Nat.not_lt_zero _)
  | succ fuel ih =>
      by_cases other : ∀ i, loc ≠ .take i
      · obtain ⟨quiet, result⟩ := getMlqProc_quiet mlq inside other
        have same : ∀ i, SameList (mlq i) ((getMlqProc mlq loc).1 i) := by
          intro i
          rcases quiet with kept | reset
          · rw [kept]
            exact ⟨rfl, rfl⟩
          · rw [reset]
            exact sameList_resetSlot mlq i
        rcases result with ⟨loc', next⟩ | null
        · have less := getMlqProc_rank inside next
          obtain ⟨proc, after, call, gives⟩ := ih (inside.step next) (sees.next inside next) (by omega)
          refine ⟨proc, after, ?_, gives.after_quiet same⟩
          simp only [callFrom, next]
          exact call
        · refine ⟨none, _, ?_, .nothing same⟩
          simp only [callFrom, null]
      · simp only [not_forall, not_not] at other
        obtain ⟨k, rfl⟩ := other
        refine ⟨_, _, rfl, .first (inside k rfl) ?_ fun i different => ?_⟩
        · rw [entries_dequeue sees, getMlqProc]
          dsimp only
          rw [Function.update_self]
          rfl
        · rw [slot_take_of_ne mlq different]
          exact ⟨rfl, rfl⟩

theorem getProc_gives (mlq : Mlq) : ∃ proc after, getProc mlq = some (proc, after) ∧ Gives mlq proc after := by
  apply callFrom_gives
  · exact GetLoc.inside_start
  · trivial
  · simp only [GetLoc.rank, callSteps]
    omega

end Call

/-! ## One FIFO list for each priority -/

inductive Request
  | addProc (proc : Nat)
  | putProc (proc : Nat)
  | getProc
deriving DecidableEq

structure Served where
  mlq : Mlq
  ops : List (Fifo.Op Nat Nat)

section Served

variable (prio : Nat → Nat) {s s' : Served}

def Served.exec (s : Served) : Request → Option Served
  | .addProc proc => some ⟨addMlqProc s.mlq proc (prio proc), s.ops ++ [.put (prio proc) proc]⟩
  | .putProc proc => some ⟨putMlqProc s.mlq proc (prio proc), s.ops ++ [.put (prio proc) proc]⟩
  | .getProc =>
      (getProc s.mlq).map fun result =>
        match result.1 with
        | none => ⟨result.2, s.ops ++ [.miss]⟩
        | some proc => ⟨result.2, s.ops ++ [.take (prio proc) proc]⟩

def Served.Step (s : Served) (r : Request) (s' : Served) : Prop := s.exec prio r = some s'

def Served.Start (s : Served) : Prop := (∃ block, s.mlq = initScheduler block) ∧ s.ops = []

def Served.HasRoom (s : Served) : Request → Prop
  | .addProc proc | .putProc proc =>
      prio proc < maxPrio ∧ (s.mlq (prio proc)).size < maxQueueSize
  | .getProc => True

instance Served.decidableHasRoom (s : Served) (r : Request) : Decidable (s.HasRoom prio r) :=
  match r with
  | .addProc _ | .putProc _ => inferInstanceAs (Decidable (_ ∧ _))
  | .getProc => inferInstanceAs (Decidable True)

def Mlq.Represents (mlq : Mlq) (waiting : Nat → List Nat) : Prop :=
  ∀ i < maxPrio, (mlq i).entries = (waiting i).map some ∧ ∀ proc ∈ waiting i, prio proc = i

variable {prio} {mlq : Mlq} {waiting : Nat → List Nat}

theorem Mlq.Represents.put (represents : mlq.Represents prio waiting) (proc : Nat) :
    Mlq.Represents prio (putMlqProc mlq proc (prio proc))
      (Function.update waiting (prio proc) (waiting (prio proc) ++ [proc])) := by
  intro i inside
  obtain ⟨entries, prios⟩ := represents i inside
  by_cases same : i = prio proc
  · subst same
    rw [putMlqProc, Function.update_self, Function.update_self, entries_enqueue, entries]
    refine ⟨by simp, ?_⟩
    intro p member
    rcases List.mem_append.mp member with before | last
    · exact prios p before
    · rw [List.mem_singleton.mp last]
  · rw [putMlqProc, Function.update_of_ne same, Function.update_of_ne same]
    exact ⟨entries, prios⟩

theorem Mlq.Represents.get (represents : mlq.Represents prio waiting) {proc : Option Nat} {after : Mlq}
    (gives : Gives mlq proc after) :
    (proc = none ∧ after.Represents prio waiting) ∨
      ∃ p rest, proc = some p ∧ waiting (prio p) = p :: rest ∧
        after.Represents prio (Function.update waiting (prio p) rest) := by
  cases gives with
  | nothing others =>
      refine .inl ⟨rfl, fun i inside => ?_⟩
      rw [(others i).entries]
      exact represents i inside
  | @first _ k proc inside front others =>
      obtain ⟨entries, prios⟩ := represents k inside
      rw [front] at entries
      obtain ⟨p, rest, list, same, left⟩ := List.map_eq_cons_iff.mp entries.symm
      have mine : prio p = k := prios p (by simp [list])
      refine .inr ⟨p, rest, same.symm, mine ▸ list, fun i inside' => ?_⟩
      rw [mine]
      by_cases here : i = k
      · subst here
        rw [Function.update_self, ← left]
        exact ⟨rfl, fun q member => prios q (by simp [list, member])⟩
      · rw [Function.update_of_ne here, (others i here).entries]
        exact represents i inside'

/-- The calls so far are a history of the lists that the queues hold. -/
def Served.Refines (prio : Nat → Nat) (s : Served) : Prop :=
  ∃ waiting, Fifo.Run s.ops waiting ∧ s.mlq.Represents prio waiting

theorem Served.Start.refines (start : s.Start) : s.Refines prio := by
  obtain ⟨⟨block, mlq⟩, ops⟩ := start
  refine ⟨fun _ => [], ops ▸ .start, fun i inside => ⟨?_, by simp⟩⟩
  rw [mlq, initScheduler, if_pos inside]
  rfl

theorem Served.Refines.exec (refines : s.Refines prio) {r : Request} (taken : s.exec prio r = some s') :
    s'.Refines prio := by
  obtain ⟨waiting, run, represents⟩ := refines
  cases r with
  | addProc proc =>
      cases taken
      exact ⟨_, .step run (.put (prio proc) proc), represents.put proc⟩
  | putProc proc =>
      cases taken
      exact ⟨_, .step run (.put (prio proc) proc), represents.put proc⟩
  | getProc =>
      obtain ⟨proc, after, call, gives⟩ := getProc_gives s.mlq
      simp only [Served.exec, call, Option.map_some, Option.some.injEq] at taken
      subst taken
      rcases represents.get gives with ⟨rfl, kept⟩ | ⟨p, rest, rfl, front, kept⟩
      · exact ⟨waiting, .step run .miss, kept⟩
      · exact ⟨_, .step run (.take front), kept⟩

theorem reachable_refines {ok : Served → Request → Prop}
    (reachable : Reach (Served.Step prio) ok Served.Start s) : s.Refines prio := by
  refine reachable.invariant (fun s start => start.refines) ?_
  intro s r s' refines _ taken
  exact refines.exec taken

/-- What the next call of `get_proc` does with the queues: a process that it returns was the first of its
priority, the others of this priority keep their order, and the other queues keep their processes. -/
def Served.GetsFirst (prio : Nat → Nat) (s : Served) : Prop :=
  ∃ proc after, getProc s.mlq = some (proc, after) ∧
    (proc = none → ∀ i, SameList (s.mlq i) (after i)) ∧
    ∀ p, proc = some p → prio p < maxPrio ∧ (s.mlq (prio p)).entries = some p :: (after (prio p)).entries ∧
      ∀ i, i ≠ prio p → SameList (s.mlq i) (after i)

theorem Served.Refines.getsFirst (refines : s.Refines prio) : s.GetsFirst prio := by
  obtain ⟨waiting, _, represents⟩ := refines
  obtain ⟨proc, after, call, gives⟩ := getProc_gives s.mlq
  refine ⟨proc, after, call, ?_⟩
  cases gives with
  | nothing others => exact ⟨fun _ => others, by rintro p ⟨⟩⟩
  | @first _ k proc inside front others =>
      obtain ⟨entries, prios⟩ := represents k inside
      rw [front] at entries
      obtain ⟨p, rest, list, same, _⟩ := List.map_eq_cons_iff.mp entries.symm
      obtain rfl : prio p = k := prios p (by simp [list])
      subst same
      refine ⟨by rintro ⟨⟩, ?_⟩
      rintro p' ⟨⟩
      exact ⟨inside, front, others⟩

/-- The queues are one FIFO list for each priority. -/
theorem reachable_fifo (reachable : Reach (Served.Step prio) (Served.HasRoom prio) Served.Start s) :
    s.Refines prio ∧ s.GetsFirst prio ∧
      ∀ k, Fifo.handedOut k s.ops <+: Fifo.handedIn k s.ops := by
  have refines := reachable_refines reachable
  refine ⟨refines, refines.getsFirst, ?_⟩
  intro k
  obtain ⟨waiting, run, _⟩ := refines
  exact run.handedOut_initial k

end Served

/-- A process is put back behind another one of its priority, and both are asked for again. -/
def putBehind : Served :=
  follow (Served.exec fun _ => 139) (Served.HasRoom fun _ => 139)
    ⟨initScheduler fun _ => ⟨fun _ => none, 0, 0⟩, []⟩
    [.addProc 0, .addProc 1, .getProc, .putProc 0, .getProc, .getProc, .getProc]

theorem putBehind_fifo : Fifo.handedOut 139 putBehind.ops = [0, 1, 0] ∧
    (putBehind.Refines fun _ => 139) ∧ (putBehind.GetsFirst fun _ => 139) ∧
      ∀ k, Fifo.handedOut k putBehind.ops <+: Fifo.handedIn k putBehind.ops :=
  ⟨by decide +kernel, reachable_fifo (.follow (fun _ _ => id) (.start ⟨⟨_, rfl⟩, rfl⟩) _)⟩

end OsSim.Sched
