import OsSim.Sched.Selection
import OsSim.Sched.Slots

namespace OsSim.Sched
open Transition

/-! ## Refills -/

def GetLoc.Refills (mlq : Mlq) : GetLoc → Prop
  | .scan prioSelect => prioSelect = maxPrio - 1 ∧ (mlq prioSelect).empty = true
  | .resetSlots => True
  | _ => False

instance GetLoc.decidableRefills (mlq : Mlq) (loc : GetLoc) : Decidable (loc.Refills mlq) :=
  match loc with
  | .scan _ => inferInstanceAs (Decidable (_ ∧ _))
  | .resetSlots => inferInstanceAs (Decidable True)
  | .queueEmpty _ | .testSlot _ | .take _ => inferInstanceAs (Decidable False)

theorem getMlqProc_of_refills {mlq : Mlq} {loc : GetLoc} (refills : loc.Refills mlq) :
    (getMlqProc mlq loc).1 = resetSlot mlq := by
  cases loc with
  | scan prioSelect =>
      obtain ⟨rfl, empty⟩ := refills
      rw [getMlqProc, if_pos empty, if_pos rfl]
  | resetSlots => rfl
  | queueEmpty _ | testSlot _ | take _ => cases refills

/-- Any other step but a dequeuing one leaves the queues and their slots alone. -/
theorem getMlqProc_of_not_refills {mlq : Mlq} {loc : GetLoc} (keeps : ¬ loc.Refills mlq)
    (other : ∀ i, loc ≠ .take i) : (getMlqProc mlq loc).1 = mlq := by
  cases loc with
  | queueEmpty prio =>
      rw [getMlqProc]
      split
      · rfl
      · split <;> rfl
  | scan prioSelect =>
      rw [getMlqProc]
      split
      · next empty =>
        have notLast : prioSelect ≠ maxPrio - 1 := fun last => keeps ⟨last, empty⟩
        rw [if_neg notLast]
      · rfl
  | testSlot prioSelect =>
      rw [getMlqProc]
      split
      · rfl
      · split <;> rfl
  | take prioSelect => exact absurd rfl (other prioSelect)
  | resetSlots => exact absurd trivial keeps

/-! ## What a call has passed -/

/-- The queues before the one that a call looks at are spent, unless the slots were reset in this call: then the last
queue is not spent. -/
def GetLoc.Passed (mlq : Mlq) : GetLoc → Prop
  | .queueEmpty _ => True
  | .scan prioSelect => (∀ i < prioSelect, (mlq i).Spent) ∨ ¬ (mlq (maxPrio - 1)).Spent
  | .testSlot prioSelect => (mlq prioSelect).empty = false ∧
      ((∀ i < prioSelect, (mlq i).Spent) ∨ ¬ (mlq (maxPrio - 1)).Spent)
  | .take prioSelect => ¬ (mlq prioSelect).Spent
  | .resetSlots => (mlq (maxPrio - 1)).empty = false ∧ ∀ i < maxPrio, (mlq i).Spent

theorem GetLoc.Passed.spent {mlq : Mlq} {loc : GetLoc} (passed : loc.Passed mlq) (refills : loc.Refills mlq) :
    ∀ i < maxPrio, (mlq i).Spent := by
  cases loc with
  | scan prioSelect =>
      obtain ⟨rfl, empty⟩ := refills
      intro i inside
      by_cases last : i = maxPrio - 1
      · exact .inl (last ▸ empty)
      · exact passed.resolve_right (not_not.mpr (.inl empty)) i (by omega)
  | resetSlots => exact passed.2
  | queueEmpty _ | testSlot _ | take _ => cases refills

theorem spent_below_succ {mlq : Mlq} {k : Nat} (below : ∀ i < k, (mlq i).Spent) (here : (mlq k).Spent) :
    ∀ i < k + 1, (mlq i).Spent := by
  intro i less
  rcases Nat.lt_succ_iff_lt_or_eq.mp less with before | rfl
  · exact below i before
  · exact here

theorem GetLoc.Passed.next {mlq : Mlq} {loc loc' : GetLoc} (passed : loc.Passed mlq) (inside : loc.Inside)
    (next : (getMlqProc mlq loc).2 = .next loc') : loc'.Passed (getMlqProc mlq loc).1 := by
  rcases next_cases inside next with looks | ⟨rfl, rfl, reset⟩
  · rw [looks.2]
    cases loc with
    | queueEmpty prio =>
        rw [getMlqProc] at next
        split at next
        · cases next
          exact .inl fun i less => absurd less (Nat.not_lt_zero i)
        · split at next <;> cases next
          trivial
    | scan prioSelect =>
        rw [getMlqProc] at next
        split at next
        · next empty =>
          dsimp only at next
          split at next <;> cases next
          exact passed.imp_left fun below => spent_below_succ below (.inl empty)
        · next nonempty =>
          cases next
          exact ⟨eq_false_of_ne_true nonempty, passed⟩
    | testSlot prioSelect =>
        obtain ⟨nonempty, before⟩ := passed
        rw [getMlqProc] at next
        split at next
        · next left =>
          cases next
          refine Queue.not_spent.mpr ⟨nonempty, ?_⟩
          bv_omega
        · next used =>
          have spent : (mlq prioSelect).Spent := .inr (by bv_omega)
          split at next
          · next last =>
            cases next
            subst last
            have below := before.resolve_right (not_not.mpr spent)
            exact ⟨nonempty, fun i less => spent_below_succ below spent i less⟩
          · cases next
            exact before.imp_left fun below => spent_below_succ below spent
    | take prioSelect => cases next
    | resetSlots => exact absurd rfl looks.1
  · rw [reset]
    exact .inr (resetSlot_ready (by decide) passed.1)

/-! ## Counting what the queues hand out -/

/-- The queues with the calls under way, and how many processes each queue has handed out since the slots were
refilled last. -/
structure Rounds where
  users : Users
  out : Nat → Nat

def handOut (mlq : Mlq) (loc : GetLoc) (out : Nat → Nat) : Nat → Nat :=
  if loc.Refills mlq then fun _ => 0
  else
    match loc, (getMlqProc mlq loc).2 with
    | .take i, .got (some _) => Function.update out i (out i + 1)
    | _, _ => out

def Rounds.counts (s : Rounds) : Use → Nat → Nat
  | .step cpu =>
      match s.users.calls cpu with
      | some loc => handOut s.users.mlq loc s.out
      | none => s.out
  | _ => s.out

def Rounds.exec (s : Rounds) (l : Use) : Option Rounds :=
  (s.users.exec l).map fun users => ⟨users, s.counts l⟩

def Rounds.Step (s : Rounds) (l : Use) (s' : Rounds) : Prop := s.exec l = some s'

def Rounds.Start (s : Rounds) : Prop := s.users.Start ∧ ∀ i, s.out i = 0

def Rounds.Sequential (s : Rounds) : Use → Prop
  | .step _ => True
  | _ => ∀ cpu, s.users.calls cpu = none

/-- The slot of each queue is what its quota leaves. -/
structure Rounds.Accounted (s : Rounds) : Prop where
  slots : ∀ i < maxPrio, (s.users.mlq i).slot.toNat + s.out i = maxPrio - i
  entries : ∀ i < maxPrio, none ∉ (s.users.mlq i).entries
  one : ∀ cpu other, s.users.calls cpu ≠ none → s.users.calls other ≠ none → cpu = other
  calls : ∀ cpu loc, s.users.calls cpu = some loc → loc.Inside ∧ loc.Passed s.users.mlq

theorem Rounds.Start.accounted {s : Rounds} (start : s.Start) : s.Accounted := by
  obtain ⟨⟨⟨block, mlq⟩, calls⟩, out⟩ := start
  refine ⟨?_, ?_, ?_, ?_⟩
  · intro i inside
    rw [mlq, initScheduler, if_pos inside, out i, BitVec.toNat_ofNat]
    simp only [maxPrio] at inside ⊢
    omega
  · intro i inside
    rw [mlq, initScheduler, if_pos inside]
    exact List.not_mem_nil
  · intro cpu other call
    exact absurd (calls cpu) call
  · intro cpu loc call
    rw [calls cpu] at call
    cases call

theorem Rounds.Accounted.put {s : Rounds} (accounted : s.Accounted) (idle : ∀ cpu, s.users.calls cpu = none)
    (proc prio : Nat) : Rounds.Accounted ⟨{ s.users with mlq := putMlqProc s.users.mlq proc prio }, s.out⟩ := by
  refine ⟨?_, ?_, accounted.one, ?_⟩
  · intro i inside
    by_cases same : i = prio
    · subst same
      dsimp only
      rw [putMlqProc, Function.update_self, slot_enqueue]
      exact accounted.slots i inside
    · dsimp only
      rw [putMlqProc, Function.update_of_ne same]
      exact accounted.slots i inside
  · intro i inside
    by_cases same : i = prio
    · subst same
      dsimp only
      rw [putMlqProc, Function.update_self, entries_enqueue, List.mem_append, not_or]
      exact ⟨accounted.entries i inside, by simp⟩
    · dsimp only
      rw [putMlqProc, Function.update_of_ne same]
      exact accounted.entries i inside
  · intro cpu loc call
    dsimp only at call
    rw [idle cpu] at call
    cases call

theorem handOut_of_quiet {mlq : Mlq} {loc : GetLoc} (keeps : ¬ loc.Refills mlq) (other : ∀ i, loc ≠ .take i)
    (out : Nat → Nat) : handOut mlq loc out = out := by
  unfold handOut
  rw [if_neg keeps]
  cases loc with
  | take i => exact absurd rfl (other i)
  | _ => rfl

theorem handOut_slots {mlq : Mlq} {loc : GetLoc} {out : Nat → Nat}
    (slots : ∀ i < maxPrio, (mlq i).slot.toNat + out i = maxPrio - i)
    (entries : ∀ i < maxPrio, none ∉ (mlq i).entries) (inside : loc.Inside) (passed : loc.Passed mlq) :
    (∀ i < maxPrio, ((getMlqProc mlq loc).1 i).slot.toNat + handOut mlq loc out i = maxPrio - i) ∧
      ∀ i < maxPrio, none ∉ ((getMlqProc mlq loc).1 i).entries := by
  by_cases refills : loc.Refills mlq
  · unfold handOut
    rw [getMlqProc_of_refills refills, if_pos refills]
    refine ⟨fun i within => ?_, fun i within => entries_resetSlot mlq i ▸ entries i within⟩
    rw [slot_resetSlot mlq within, BitVec.toNat_ofNat]
    simp only [maxPrio] at within ⊢
    omega
  · by_cases other : ∀ i, loc ≠ .take i
    · rw [getMlqProc_of_not_refills refills other, handOut_of_quiet refills other]
      exact ⟨slots, entries⟩
    · simp only [not_forall, not_not] at other
      obtain ⟨k, rfl⟩ := other
      obtain ⟨nonempty, left⟩ := Queue.not_spent.mp passed
      have within := inside k rfl
      have list := entries_dequeue nonempty
      have rest : ((getMlqProc mlq (.take k)).1 k).entries = (dequeue (mlq k)).2.entries := by
        rw [getMlqProc]
        dsimp only
        rw [Function.update_self]
        rfl
      obtain ⟨proc, front⟩ : ∃ proc, (dequeue (mlq k)).1 = some proc := by
        cases front : (dequeue (mlq k)).1 with
        | none => exact absurd (by rw [list, front]; simp) (entries k within)
        | some proc => exact ⟨proc, rfl⟩
      have counted : handOut mlq (.take k) out = Function.update out k (out k + 1) := by
        unfold handOut
        rw [if_neg refills, getMlqProc]
        simp only [front]
      refine ⟨fun i within' => ?_, fun i within' => ?_⟩
      · rw [counted]
        by_cases same : i = k
        · subst same
          have before := slots i within
          rw [slot_take, Function.update_self]
          bv_omega
        · rw [slot_take_of_ne mlq same, Function.update_of_ne same]
          exact slots i within'
      · by_cases same : i = k
        · subst same
          rw [rest]
          exact fun member => entries i within (by rw [list]; exact List.mem_cons_of_mem _ member)
        · rw [slot_take_of_ne mlq same]
          exact entries i within'

theorem Rounds.Accounted.exec {s s' : Rounds} {l : Use} (accounted : s.Accounted) (sequential : s.Sequential l)
    (taken : s.exec l = some s') : s'.Accounted := by
  obtain ⟨users, step, rfl⟩ := Option.map_eq_some_iff.mp taken
  cases l with
  | getProc cpu =>
      rw [Users.exec, sequential cpu] at step
      cases step
      refine ⟨accounted.slots, accounted.entries, ?_, ?_⟩
      · have only : ∀ c, Function.update s.users.calls cpu (some (.queueEmpty 0)) c ≠ none → c = cpu := by
          intro c call
          by_contra different
          rw [Function.update_of_ne different] at call
          exact call (sequential c)
        exact fun c other call call' => (only c call).trans (only other call').symm
      · intro c loc call
        dsimp only at call
        by_cases same : c = cpu
        · rw [same, Function.update_self] at call
          cases call
          exact ⟨GetLoc.inside_start, trivial⟩
        · rw [Function.update_of_ne same, sequential c] at call
          cases call
  | step cpu =>
      cases here : s.users.calls cpu with
      | none => simp [Users.exec, here] at step
      | some loc =>
        simp only [Users.exec, here, Option.some.injEq] at step
        subst step
        have counts : s.counts (.step cpu) = handOut s.users.mlq loc s.out := by simp only [Rounds.counts, here]
        rw [counts]
        obtain ⟨inside, passed⟩ := accounted.calls cpu loc here
        obtain ⟨slots, entries⟩ := handOut_slots accounted.slots accounted.entries inside passed
        have only : ∀ c, Function.update s.users.calls cpu (getMlqProc s.users.mlq loc).2.call c ≠ none →
            c = cpu := by
          intro c call
          by_contra different
          rw [Function.update_of_ne different] at call
          exact different (accounted.one c cpu call (by rw [here]; exact Option.some_ne_none loc))
        refine ⟨slots, entries, fun c other call call' => (only c call).trans (only other call').symm, ?_⟩
        intro c loc' call
        dsimp only at call
        obtain rfl := only c (by rw [call]; exact Option.some_ne_none loc')
        rw [Function.update_self] at call
        cases next : (getMlqProc s.users.mlq loc).2 with
        | next loc'' =>
            rw [next] at call
            cases call
            exact ⟨inside.step next, passed.next inside next⟩
        | got proc =>
            rw [next] at call
            cases call
  | putProc proc prio =>
      cases step
      exact accounted.put sequential proc prio
  | addProc proc prio =>
      cases step
      exact accounted.put sequential proc prio

/-- The slot of each queue is its quota less the processes that it has handed out since the last refill, and the
slots are refilled only when every queue with a process has no slot. -/
structure Rounds.KeepsQuotas (s : Rounds) : Prop where
  slots : ∀ i < maxPrio, s.out i ≤ maxPrio - i ∧ (s.users.mlq i).slot.toNat = maxPrio - i - s.out i
  refills : ∀ cpu loc, s.users.calls cpu = some loc → loc.Refills s.users.mlq →
    ∀ i < maxPrio, (s.users.mlq i).empty = false → (s.users.mlq i).slot = 0

theorem Rounds.Accounted.keepsQuotas {s : Rounds} (accounted : s.Accounted) : s.KeepsQuotas := by
  constructor
  · intro i inside
    have slots := accounted.slots i inside
    omega
  · intro cpu loc call refills i inside nonempty
    have spent := (accounted.calls cpu loc call).2.spent refills i inside
    exact spent.resolve_left (by simp [nonempty])

/-! ## Stores behind a full queue -/

instance Users.decidableHasRoom (s : Users) (l : Use) : Decidable (s.HasRoom l) :=
  match l with
  | .putProc _ _ | .addProc _ _ => inferInstanceAs (Decidable (_ ∧ _))
  | .getProc _ | .step _ => inferInstanceAs (Decidable True)

/-- A step with its store outside the array of a queue; `behind` gives the state that this leaves. -/
def Users.execOver (behind : Users → Use → Option Users) (s : Users) (l : Use) : Option Users :=
  if s.HasRoom l then s.exec l else behind s l

def Rounds.StepOver (behind : Users → Use → Option Users) (s : Rounds) (l : Use) (s' : Rounds) : Prop :=
  (s.users.execOver behind l).map (fun users => ⟨users, s.counts l⟩) = some s'

theorem Rounds.step_of_hasRoom {behind : Users → Use → Option Users} {s s' : Rounds} {l : Use}
    (room : s.users.HasRoom l) (taken : Rounds.StepOver behind s l s') : Rounds.Step s l s' := by
  rw [Rounds.StepOver, Users.execOver, if_pos room] at taken
  exact taken

/-- No store leaves a queue, so that it does not matter what lies behind the arrays. -/
theorem quotas_of_room (behind : Users → Use → Option Users) {s : Rounds}
    (reachable : Reach (Rounds.StepOver behind) (fun s l => s.Sequential l ∧ s.users.HasRoom l) Rounds.Start s) :
    s.KeepsQuotas := by
  have initial : ∀ s : Rounds, s.Start → s.Accounted := fun s start => start.accounted
  have followed := reachable.transfer initial
    (fun _ _ _ _ allowed taken => Rounds.step_of_hasRoom allowed.2 taken)
    (fun _ _ _ accounted allowed taken => accounted.exec allowed.1 taken)
  exact followed.1.keepsQuotas

/-- `enqueue` into a full queue. `proc[maxQueueSize]` is the word of `size`, its lower half, and of `slot`;
`address` gives the address of a process, and `size` is read without its sign. -/
def enqueueFull (address : Nat → BitVec 64) (q : Queue) (proc : Nat) : Queue :=
  { q with size := ((address proc).setWidth 32).toNat + 1, slot := (address proc).extractLsb' 32 32 }

def wordBehind (address : Nat → BitVec 64) (s : Users) : Use → Option Users
  | .putProc proc prio | .addProc proc prio =>
      some { s with mlq := Function.update s.mlq prio (enqueueFull address (s.mlq prio) proc) }
  | l => s.exec l

/-- `n` processes of priority 0 were added. -/
def addedFirst : Nat → Users
  | 0 => ⟨initScheduler fun _ => ⟨fun _ => none, 0, 0⟩, fun _ => none⟩
  | n + 1 => ⟨addMlqProc (addedFirst n).mlq n 0, fun _ => none⟩

theorem addedFirst_size (n : Nat) : ((addedFirst n).mlq 0).size = n := by
  induction n with
  | zero => rfl
  | succ n ih => simp [addedFirst, addMlqProc, enqueue, ih]

theorem addedFirst_calls (n : Nat) (cpu : Nat) : (addedFirst n).calls cpu = none := by
  cases n <;> rfl

theorem addedFirst_reachable (behind : Users → Use → Option Users) {n : Nat} (few : n ≤ maxQueueSize) :
    Reach (Rounds.StepOver behind) (fun s l => s.Sequential l ∧ s.users.HasRoom l) Rounds.Start
      ⟨addedFirst n, fun _ => 0⟩ := by
  induction n with
  | zero => exact .start ⟨⟨⟨_, rfl⟩, fun _ => rfl⟩, fun _ => rfl⟩
  | succ n ih =>
      have room : (addedFirst n).HasRoom (.addProc n 0) := ⟨by decide, by rw [addedFirst_size]; exact few⟩
      refine .step (l := .addProc n 0) (ih (Nat.le_of_succ_le few)) ⟨addedFirst_calls n, room⟩ ?_
      have calls : (addedFirst n).calls = fun _ => none := funext (addedFirst_calls n)
      simp [Rounds.StepOver, Users.execOver, room, Users.exec, Rounds.counts, addedFirst, calls]

/-- Ten processes wait, and a call of `get_proc` has begun. -/
def tenWait : Rounds :=
  ⟨{ addedFirst 10 with calls := Function.update (fun _ => none) 0 (some (.queueEmpty 0)) }, fun _ => 0⟩

theorem tenWait_quotas : tenWait.KeepsQuotas := by
  have ten := addedFirst_reachable (wordBehind fun _ => 0) (n := 10) (by decide)
  refine quotas_of_room (wordBehind fun _ => 0) (.step (l := .getProc 0) ten ⟨addedFirst_calls 10, trivial⟩ ?_)
  have calls : (addedFirst 10).calls = fun _ => none := funext (addedFirst_calls 10)
  have room : (addedFirst 10).HasRoom (.getProc 0) := trivial
  simp [Rounds.StepOver, Users.execOver, room, Users.exec, Rounds.counts, calls, tenWait]

/-- The eleventh process is at an address of the heap, whose upper half becomes the slot of the queue. -/
def elevenAdded : Users :=
  { addedFirst 10 with
    mlq := Function.update (addedFirst 10).mlq 0
      (enqueueFull (fun _ => 0x555555559ac0#64) ((addedFirst 10).mlq 0) 10) }

theorem elevenAdded_not_quotas :
    Reach (Rounds.StepOver (wordBehind fun _ => 0x555555559ac0#64)) Rounds.Sequential Rounds.Start
        ⟨elevenAdded, fun _ => 0⟩ ∧
      (elevenAdded.mlq 0).size = 0x55559ac1 ∧ (elevenAdded.mlq 0).slot = 0x5555#32 ∧
        ¬ Rounds.KeepsQuotas ⟨elevenAdded, fun _ => 0⟩ := by
  have ten := addedFirst_reachable (wordBehind fun _ => 0x555555559ac0#64) (n := 10) (by decide)
  have full : ¬ (addedFirst 10).HasRoom (.addProc 10 0) := by
    rintro ⟨_, room⟩
    rw [addedFirst_size] at room
    exact absurd room (by decide)
  have slot : (elevenAdded.mlq 0).slot = 0x5555#32 := by decide
  refine ⟨.step (l := .addProc 10 0) (ten.mono fun _ _ => And.left) (addedFirst_calls 10) ?_, by decide, slot,
    fun kept => ?_⟩
  · rw [Rounds.StepOver, Users.execOver, if_neg full]
    rfl
  · have quota := (kept.slots 0 (by decide)).2
    dsimp only at quota
    rw [slot] at quota
    exact absurd quota (by decide)

end OsSim.Sched
