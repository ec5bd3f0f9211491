import OsSim.Lib.Transition
import OsSim.Sched.Mlq

namespace OsSim.Sched
open Transition

/-! ## Threads that use the queues -/

/-- The queues and, for each thread, where its call of `get_proc` is. -/
structure Users where
  mlq : Mlq
  calls : Nat → Option GetLoc

/-- A thread calls `get_proc`, takes a step of its call, or calls `put_proc` or `add_proc`. -/
inductive Use
  | getProc (cpu : Nat)
  | step (cpu : Nat)
  | putProc (proc prio : Nat)
  | addProc (proc prio : Nat)

def GetResult.call : GetResult → Option GetLoc
  | .next loc => some loc
  | .got _ => none

def Users.exec (s : Users) : Use → Option Users
  | .getProc cpu =>
      match s.calls cpu with
      | none => some { s with calls := Function.update s.calls cpu (some (.queueEmpty 0)) }
      | some _ => none
  | .step cpu =>
      match s.calls cpu with
      | none => none
      | some loc =>
          let after := getMlqProc s.mlq loc
          some { mlq := after.1, calls := Function.update s.calls cpu after.2.call }
  | .putProc proc prio => some { s with mlq := putMlqProc s.mlq proc prio }
  | .addProc proc prio => some { s with mlq := addMlqProc s.mlq proc prio }

def Users.Step (s : Users) (l : Use) (s' : Users) : Prop := s.exec l = some s'

def Users.Start (s : Users) : Prop :=
  (∃ block, s.mlq = initScheduler block) ∧ ∀ cpu, s.calls cpu = none

def Users.HasRoom (s : Users) : Use → Prop
  | .putProc _ prio | .addProc _ prio => prio < maxPrio ∧ (s.mlq prio).size < maxQueueSize
  | _ => True

def Users.SlotLeft (s : Users) : Use → Prop
  | .step cpu => ∀ i, s.calls cpu = some (.take i) → (s.mlq i).slot > 0
  | _ => True

/-! ## The slots -/

def Mlq.SlotsBounded (mlq : Mlq) : Prop := ∀ i < maxPrio, (mlq i).slot.toNat ≤ maxPrio - i

theorem initScheduler_slotsBounded (block : Mlq) : (initScheduler block).SlotsBounded := by
  intro i inside
  rw [initScheduler, if_pos inside, BitVec.toNat_ofNat]
  exact Nat.mod_le _ _

theorem resetSlot_slotsBounded (mlq : Mlq) : (resetSlot mlq).SlotsBounded := by
  intro i inside
  rw [slot_resetSlot mlq inside, BitVec.toNat_ofNat]
  exact Nat.mod_le _ _

theorem Mlq.SlotsBounded.put {mlq : Mlq} (bounded : mlq.SlotsBounded) (proc prio : Nat) :
    (putMlqProc mlq proc prio).SlotsBounded := by
  intro i inside
  by_cases same : i = prio
  · subst same
    rw [putMlqProc, Function.update_self, slot_enqueue]
    exact bounded i inside
  · rw [putMlqProc, Function.update_of_ne same]
    exact bounded i inside

/-- A section that dequeues keeps the bounds exactly when the slot of its queue is above zero. -/
theorem take_slotsBounded_iff {mlq : Mlq} (bounded : mlq.SlotsBounded) {i : Nat} (inside : i < maxPrio) :
    Mlq.SlotsBounded (getMlqProc mlq (.take i)).1 ↔ (mlq i).slot > 0 := by
  constructor
  · intro bounded'
    by_contra none
    have wrapped := bounded' i inside
    rw [slot_take] at wrapped
    simp only [maxPrio] at wrapped
    bv_omega
  · intro left j insideJ
    by_cases same : j = i
    · subst same
      have before := bounded j inside
      rw [slot_take]
      bv_omega
    · rw [slot_take_of_ne mlq same]
      exact bounded j insideJ

theorem step_slotsBounded {mlq : Mlq} (bounded : mlq.SlotsBounded) {loc : GetLoc} (inside : loc.Inside)
    (left : ∀ i, loc = .take i → (mlq i).slot > 0) : Mlq.SlotsBounded (getMlqProc mlq loc).1 := by
  by_cases other : ∀ i, loc ≠ .take i
  · rcases (getMlqProc_quiet mlq inside other).1 with same | reset
    · rw [same]
      exact bounded
    · rw [reset]
      exact resetSlot_slotsBounded mlq
  · simp only [not_forall, not_not] at other
    obtain ⟨i, rfl⟩ := other
    exact (take_slotsBounded_iff bounded (inside i rfl)).mpr (left i rfl)

structure Users.Bounded (s : Users) : Prop where
  slots : s.mlq.SlotsBounded
  inside : ∀ cpu loc, s.calls cpu = some loc → loc.Inside

theorem Users.Start.bounded {s : Users} (start : s.Start) : s.Bounded := by
  obtain ⟨⟨block, mlq⟩, calls⟩ := start
  refine ⟨mlq ▸ initScheduler_slotsBounded block, ?_⟩
  intro cpu loc at_loc
  rw [calls cpu] at at_loc
  cases at_loc

theorem Users.Bounded.exec {s s' : Users} {l : Use} (bounded : s.Bounded) (left : s.SlotLeft l)
    (taken : s.exec l = some s') : s'.Bounded := by
  cases l with
  | getProc cpu =>
      rw [Users.exec] at taken
      split at taken <;> cases taken
      refine ⟨bounded.slots, ?_⟩
      intro other loc at_loc
      dsimp only at at_loc
      by_cases same : other = cpu
      · rw [same, Function.update_self] at at_loc
        cases at_loc
        exact GetLoc.inside_start
      · rw [Function.update_of_ne same] at at_loc
        exact bounded.inside other loc at_loc
  | step cpu =>
      cases here : s.calls cpu with
      | none => simp [Users.exec, here] at taken
      | some loc =>
        simp only [Users.exec, here, Option.some.injEq] at taken
        subst taken
        have within := bounded.inside cpu loc here
        refine ⟨step_slotsBounded bounded.slots within fun i take => left i (take ▸ here), ?_⟩
        intro other loc' at_loc
        dsimp only at at_loc
        by_cases same : other = cpu
        · rw [same, Function.update_self] at at_loc
          cases next : (getMlqProc s.mlq loc).2 with
          | next loc'' =>
              rw [next] at at_loc
              cases at_loc
              exact within.step next
          | got proc =>
              rw [next] at at_loc
              cases at_loc
        · rw [Function.update_of_ne same] at at_loc
          exact bounded.inside other loc' at_loc
  | putProc proc prio =>
      cases taken
      exact ⟨bounded.slots.put proc prio, bounded.inside⟩
  | addProc proc prio =>
      cases taken
      exact ⟨bounded.slots.put proc prio, bounded.inside⟩

theorem reachable_bounded {s : Users}
    (reachable : Reach Users.Step (fun s l => s.HasRoom l ∧ s.SlotLeft l) Users.Start s) : s.Bounded := by
  refine reachable.invariant (fun s start => start.bounded) ?_
  intro s l s' bounded allowed taken
  exact bounded.exec allowed.2 taken

/-- In every run whose dequeuing sections find a slot, the slots keep their bounds, and the next step keeps
them exactly when it meets this condition. -/
theorem reachable_slotsBounded {s : Users}
    (reachable : Reach Users.Step (fun s l => s.HasRoom l ∧ s.SlotLeft l) Users.Start s) :
    s.mlq.SlotsBounded ∧
      ∀ l s', s.HasRoom l → Users.Step s l s' → (s'.mlq.SlotsBounded ↔ s.SlotLeft l) := by
  have bounded := reachable_bounded reachable
  refine ⟨bounded.slots, ?_⟩
  intro l s' _ taken
  refine ⟨?_, fun left => (bounded.exec left taken).slots⟩
  intro bounded'
  cases l with
  | step cpu =>
      intro i here
      rw [Users.Step, Users.exec, here] at taken
      cases taken
      exact (take_slotsBounded_iff bounded.slots (bounded.inside cpu _ here i rfl)).mp bounded'
  | getProc cpu => trivial
  | putProc proc prio => trivial
  | addProc proc prio => trivial

/-! ### Two calls at one slot -/

theorem looks_not_take {mlq : Mlq} {loc loc' : GetLoc} (looks : Looks mlq loc loc') (i : Nat) :
    loc ≠ .take i := by
  rintro rfl
  cases congrArg Prod.snd looks.2

theorem Users.look {s : Users} (cpu : Nat) {loc loc' : GetLoc}
    (looks : Relation.ReflTransGen (Looks s.mlq) loc loc') (here : s.calls cpu = some loc)
    (reachable : Reach Users.Step (fun s l => s.HasRoom l ∧ s.SlotLeft l) Users.Start s) :
    Reach Users.Step (fun s l => s.HasRoom l ∧ s.SlotLeft l) Users.Start
      { s with calls := Function.update s.calls cpu (some loc') } := by
  induction looks with
  | refl =>
      rw [← here, Function.update_eq_self]
      exact reachable
  | @tail at_loc next _ step ih =>
      refine .step (l := .step cpu) ih ⟨trivial, ?_⟩ ?_
      · intro i take
        dsimp only at take
        rw [Function.update_self, Option.some.injEq] at take
        exact absurd take (looks_not_take step i)
      · have stepped : getMlqProc s.mlq at_loc = (s.mlq, .next next) := step.2
        simp [Users.Step, Users.exec, stepped, GetResult.call]

/-- Two processes wait in the queue of the lowest priority, which has one slot. -/
def twoReady : Mlq :=
  addMlqProc (addMlqProc (initScheduler fun _ => ⟨fun _ => none, 0, 0⟩) 0 139) 1 139

theorem twoReady_looks :
    Relation.ReflTransGen (Looks twoReady) (.queueEmpty 0) (.testSlot 139) := by
  refine finds_queue (by decide) ?_ (by decide)
  intro i less
  have other : i ≠ 139 := Nat.ne_of_lt less
  have inside : i < maxPrio := by
    simp only [maxPrio]
    omega
  simp [twoReady, addMlqProc, Function.update_of_ne other, initScheduler, inside, Queue.empty]

/-- The state in which the threads before `n` have passed the test of the slot. -/
def twoTakes (n : Nat) : Users :=
  ⟨twoReady, fun cpu => if cpu < n then some (.take 139) else none⟩

theorem twoTakes_step {n : Nat}
    (reachable : Reach Users.Step (fun s l => s.HasRoom l ∧ s.SlotLeft l) Users.Start (twoTakes n)) :
    Reach Users.Step (fun s l => s.HasRoom l ∧ s.SlotLeft l) Users.Start (twoTakes (n + 1)) := by
  have calls : Reach Users.Step (fun s l => s.HasRoom l ∧ s.SlotLeft l) Users.Start
      ⟨twoReady, Function.update (twoTakes n).calls n (some (.queueEmpty 0))⟩ := by
    refine .step (l := .getProc n) reachable ⟨trivial, trivial⟩ ?_
    simp [Users.Step, Users.exec, twoTakes]
  have looked := Users.look n twoReady_looks (Function.update_self _ _ _) calls
  refine .step (l := .step n) looked ⟨trivial, ?_⟩ ?_
  · intro i take
    simp at take
  · have slot : (twoReady 139).slot > 0 := by decide
    simp only [Users.Step, Users.exec, Function.update_self, getMlqProc, slot, if_true, GetResult.call,
      Function.update_idem, twoTakes, Option.some.injEq, Users.mk.injEq, true_and]
    funext cpu
    rcases Nat.lt_trichotomy cpu n with less | rfl | more
    · rw [Function.update_of_ne (Nat.ne_of_lt less), if_pos less, if_pos (by omega)]
    · rw [Function.update_self, if_pos (Nat.lt_succ_self _)]
    · rw [Function.update_of_ne (Nat.ne_of_gt more), if_neg (by omega), if_neg (by omega)]

theorem twoTakes_reachable :
    Reach Users.Step (fun s l => s.HasRoom l ∧ s.SlotLeft l) Users.Start (twoTakes 2) := by
  refine twoTakes_step (twoTakes_step ?_)
  have start : Reach Users.Step (fun s l => s.HasRoom l ∧ s.SlotLeft l) Users.Start
      ⟨initScheduler fun _ => ⟨fun _ => none, 0, 0⟩, fun _ => none⟩ := .start ⟨⟨_, rfl⟩, fun _ => rfl⟩
  have added : Reach Users.Step (fun s l => s.HasRoom l ∧ s.SlotLeft l) Users.Start
      ⟨addMlqProc (initScheduler fun _ => ⟨fun _ => none, 0, 0⟩) 0 139, fun _ => none⟩ :=
    .step (l := .addProc 0 139) start ⟨⟨by decide, by decide⟩, trivial⟩ rfl
  have ready : Reach Users.Step (fun s l => s.HasRoom l ∧ s.SlotLeft l) Users.Start
      ⟨twoReady, fun _ => none⟩ :=
    .step (l := .addProc 1 139) added ⟨⟨by decide, by decide⟩, trivial⟩ rfl
  have idle : twoTakes 0 = ⟨twoReady, fun _ => none⟩ := by simp [twoTakes]
  rwa [idle]

theorem twoTakes_slotsBounded :
    (twoTakes 2).mlq.SlotsBounded ∧ ∀ l s', (twoTakes 2).HasRoom l → Users.Step (twoTakes 2) l s' →
      (s'.mlq.SlotsBounded ↔ (twoTakes 2).SlotLeft l) :=
  reachable_slotsBounded twoTakes_reachable

/-- The queues after `n` of these threads have dequeued. -/
def afterTakes : Nat → Mlq
  | 0 => twoReady
  | n + 1 => (getMlqProc (afterTakes n) (.take 139)).1

/-- Both threads dequeue: the slot of the queue wraps below zero. -/
theorem twoTakes_wrap :
    Reach Users.Step Users.HasRoom Users.Start
        ⟨afterTakes 2, Function.update (Function.update (twoTakes 2).calls 0 none) 1 none⟩ ∧
      (afterTakes 2 139).slot.toNat = 0xFFFFFFFF ∧ ¬ (afterTakes 2).SlotsBounded := by
  have reachable : Reach Users.Step Users.HasRoom Users.Start (twoTakes 2) :=
    twoTakes_reachable.mono fun _ _ => And.left
  have first : Reach Users.Step Users.HasRoom Users.Start
      ⟨afterTakes 1, Function.update (twoTakes 2).calls 0 none⟩ :=
    .step (l := .step 0) reachable trivial rfl
  have wrapped : (afterTakes 2 139).slot.toNat = 0xFFFFFFFF := by decide
  refine ⟨.step (l := .step 1) first trivial rfl, wrapped, fun bounded => ?_⟩
  have bound := bounded 139 (by decide)
  rw [wrapped] at bound
  exact absurd bound (by decide)

end OsSim.Sched
