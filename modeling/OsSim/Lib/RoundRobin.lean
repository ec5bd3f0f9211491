import Mathlib.Algebra.BigOperators.Group.Finset.Piecewise
import Mathlib.Algebra.Order.BigOperators.Group.Finset
import OsSim.Lib.Fifo
import OsSim.Lib.Transition

namespace RoundRobin
open Fifo Transition

variable {κ α : Type*}

/-- Queues that are served in rounds; `credit` says how many items a queue may still hand out in this round. -/
structure State (κ α : Type*) where
  waiting : κ → List α
  credit : κ → Nat

def State.Spent (s : State κ α) (k : κ) : Prop := s.waiting k = [] ∨ s.credit k = 0

def State.refill (quota : κ → Nat) (s : State κ α) : State κ α := { s with credit := quota }

@[simp] theorem waiting_refill (quota : κ → Nat) (s : State κ α) : (s.refill quota).waiting = s.waiting := rfl

@[simp] theorem credit_refill (quota : κ → Nat) (s : State κ α) : (s.refill quota).credit = quota := rfl

def calls (ops : List (Op κ α)) : Nat :=
  ops.countP fun op => match op with
    | .put _ _ => false
    | _ => true

variable {keys : Finset κ} {quota : κ → Nat} {s s' : State κ α}

/-! ## How long an item waits -/

/-- The refills that come before the item at position `pos` of the queue is handed out. -/
def State.rounds (quota : κ → Nat) (s : State κ α) (k : κ) (pos : Nat) : Nat :=
  if pos < s.credit k then 0 else (pos - s.credit k) / quota k + 1

/-- A bound on the calls before the one that hands the item out. -/
def State.rank (keys : Finset κ) (quota : κ → Nat) (s : State κ α) (k : κ) (pos : Nat) : Nat :=
  s.rounds quota k pos * ((∑ j ∈ keys, quota j) + 1) + ∑ j ∈ keys, s.credit j

theorem State.Spent.used {k : κ} {pos : Nat} (spent : s.Spent k) (waits : pos < (s.waiting k).length) :
    s.credit k = 0 := by
  rcases spent with empty | used
  · rw [empty] at waits
    exact absurd waits (Nat.not_lt_zero pos)
  · exact used

/-- A refill costs a round of the item, and gives back less than a round. -/
theorem rank_refill {k : κ} {pos : Nat} (positive : 0 < quota k) (used : s.credit k = 0) :
    (s.refill quota).rank keys quota k pos < s.rank keys quota k pos := by
  have rounds : (s.refill quota).rounds quota k pos + 1 = s.rounds quota k pos := by
    rw [State.rounds, State.rounds, used, Nat.sub_zero, if_neg (Nat.not_lt_zero pos), credit_refill]
    by_cases within : pos < quota k
    · rw [if_pos within, Nat.div_eq_of_lt within]
    · rw [if_neg within, Nat.div_eq_sub_div positive (Nat.le_of_not_lt within)]
  simp only [State.rank, ← rounds, Nat.add_mul, credit_refill]
  omega

theorem rank_lt {k : κ} (within : ∀ j ∈ keys, s.credit j ≤ quota j) (pos : Nat) :
    s.rank keys quota k pos < (pos / quota k + 2) * ((∑ j ∈ keys, quota j) + 1) := by
  have total : ∑ j ∈ keys, s.credit j ≤ ∑ j ∈ keys, quota j := Finset.sum_le_sum within
  have rounds : s.rounds quota k pos ≤ pos / quota k + 1 := by
    rw [State.rounds]
    split
    · exact Nat.zero_le _
    · exact Nat.add_le_add_right (Nat.div_le_div_right (Nat.sub_le pos _)) 1
  have product := Nat.mul_le_mul_right ((∑ j ∈ keys, quota j) + 1) rounds
  rw [State.rank, Nat.add_mul (pos / quota k) 2]
  rw [Nat.add_mul (pos / quota k) 1] at product
  omega

theorem calls_append (ops later : List (Op κ α)) : calls (ops ++ later) = calls ops + calls later := by
  simp [calls]

/-! ## Runs -/

variable [DecidableEq κ]

/-- A round ends when every queue of `keys` is spent. A call that ends it may return without an item. -/
inductive Step (keys : Finset κ) (quota : κ → Nat) (s : State κ α) : Op κ α → State κ α → Prop
  | put (k : κ) (a : α) :
      Step keys quota s (.put k a) { s with waiting := Function.update s.waiting k (s.waiting k ++ [a]) }
  | take {k : κ} {a : α} {rest : List α} (inside : k ∈ keys) (front : s.waiting k = a :: rest)
      (left : 0 < s.credit k) : Step keys quota s (.take k a)
        ⟨Function.update s.waiting k rest, Function.update s.credit k (s.credit k - 1)⟩
  | again {k : κ} {a : α} {rest : List α} (spent : ∀ j ∈ keys, s.Spent j) (inside : k ∈ keys)
      (front : s.waiting k = a :: rest) (left : 0 < quota k) : Step keys quota s (.take k a)
        ⟨Function.update s.waiting k rest, Function.update quota k (quota k - 1)⟩
  | refill (spent : ∀ j ∈ keys, s.Spent j) : Step keys quota s .miss (s.refill quota)
  | idle (empty : ∀ j ∈ keys, s.waiting j = []) : Step keys quota s .miss s

theorem sum_update_pred {credit : κ → Nat} {k : κ} (inside : k ∈ keys) (left : 0 < credit k) :
    ∑ j ∈ keys, Function.update credit k (credit k - 1) j + 1 = ∑ j ∈ keys, credit j := by
  have apart := Finset.sum_update_of_mem inside credit (credit k - 1)
  have whole := Finset.sum_update_of_mem inside credit (credit k)
  rw [Function.update_eq_self] at whole
  omega

/-- Of the queue itself, the item and the credit move together. -/
theorem rank_take_self {waiting : κ → List α} {credit : κ → Nat} {k : κ} {rest : List α} {pos : Nat}
    (inside : k ∈ keys) (left : 0 < credit k) :
    State.rank keys quota ⟨Function.update waiting k rest, Function.update credit k (credit k - 1)⟩ k pos + 1 =
      State.rank keys quota ⟨waiting, credit⟩ k (pos + 1) := by
  have less := sum_update_pred inside left
  have same : (pos < credit k - 1) = (pos + 1 < credit k) := by
    apply propext
    omega
  have apart : pos - (credit k - 1) = pos + 1 - credit k := by omega
  simp only [State.rank, State.rounds, Function.update_self, same, apart]
  omega

theorem rank_take_of_ne {waiting : κ → List α} {credit : κ → Nat} {k j : κ} {rest : List α} {pos : Nat}
    (inside : j ∈ keys) (left : 0 < credit j) (other : k ≠ j) :
    State.rank keys quota ⟨Function.update waiting j rest, Function.update credit j (credit j - 1)⟩ k pos + 1 =
      State.rank keys quota ⟨waiting, credit⟩ k pos := by
  have less := sum_update_pred inside left
  simp only [State.rank, State.rounds, Function.update_of_ne other]
  omega

/-- A take hands out the item or brings it closer. -/
theorem take_closer (quota : κ → Nat) {waiting : κ → List α} {credit : κ → Nat} {j k : κ} {a : α} {rest : List α}
    {pos : Nat} (member : j ∈ keys) (front : waiting j = a :: rest) (left : 0 < credit j)
    (waits : pos < (waiting k).length) :
    pos < (handedOut k [.take j a]).length ∨
      ∃ pos', pos = (handedOut k [.take j a]).length + pos' ∧ pos' < (Function.update waiting j rest k).length ∧
        State.rank keys quota ⟨Function.update waiting j rest, Function.update credit j (credit j - 1)⟩ k pos' + 1 =
          State.rank keys quota ⟨waiting, credit⟩ k pos := by
  by_cases same : j = k
  · subst same
    cases pos with
    | zero => exact .inl (by simp [handedOut])
    | succ pos =>
        rw [front, List.length_cons] at waits
        refine .inr ⟨pos, by simp [handedOut, Nat.add_comm], by simpa using waits, ?_⟩
        exact rank_take_self member left
  · refine .inr ⟨pos, by simp [handedOut, same], ?_, rank_take_of_ne member left (Ne.symm same)⟩
    simpa only [Function.update_of_ne (Ne.symm same)] using waits

/-- A call takes the item or comes closer to it; what is put does not push it back. -/
theorem Step.closer {op : Op κ α} (taken : Step keys quota s op s') {k : κ} (positive : 0 < quota k)
    (inside : k ∈ keys) {pos : Nat} (waits : pos < (s.waiting k).length) :
    pos < (handedOut k [op]).length ∨
      ∃ pos', pos = (handedOut k [op]).length + pos' ∧ pos' < (s'.waiting k).length ∧
        s'.rank keys quota k pos' + calls [op] ≤ s.rank keys quota k pos := by
  cases taken with
  | put j a =>
      refine .inr ⟨pos, by simp [handedOut], ?_, by simp [calls, State.rank, State.rounds]⟩
      by_cases same : k = j
      · subst same
        simp only [Function.update_self, List.length_append, List.length_singleton]
        omega
      · simpa only [Function.update_of_ne same] using waits
  | take member front left =>
      rcases take_closer quota member front left waits with out | ⟨pos', after, waits', closer⟩
      · exact .inl out
      · exact .inr ⟨pos', after, waits', closer.le⟩
  | @again j a rest spent member front left =>
      have less : (s.refill quota).rank keys quota k pos < s.rank keys quota k pos :=
        rank_refill positive ((spent k inside).used waits)
      rcases take_closer quota member front left waits with out | ⟨pos', after, waits', closer⟩
      · exact .inl out
      · refine .inr ⟨pos', after, waits', ?_⟩
        have refilled : State.rank keys quota ⟨s.waiting, quota⟩ k pos = (s.refill quota).rank keys quota k pos := rfl
        simp only [calls, List.countP_singleton, if_true]
        omega
  | refill spent =>
      refine .inr ⟨pos, by simp [handedOut], waits, ?_⟩
      exact rank_refill positive ((spent k inside).used waits)
  | idle empty =>
      rw [empty k inside] at waits
      exact absurd waits (Nat.not_lt_zero pos)

/-- The credit never exceeds the quota. -/
theorem Step.within {op : Op κ α} (taken : Step keys quota s op s')
    (within : ∀ k ∈ keys, s.credit k ≤ quota k) : ∀ k ∈ keys, s'.credit k ≤ quota k := by
  have less : ∀ (credit : κ → Nat) (j k : κ), credit k ≤ quota k →
      Function.update credit j (credit j - 1) k ≤ quota k := by
    intro credit j k bound
    by_cases same : k = j
    · subst same
      rw [Function.update_self]
      omega
    · rwa [Function.update_of_ne same]
  cases taken with
  | put | idle => exact within
  | @take j => exact fun k inside => less s.credit j k (within k inside)
  | @again j => exact fun k _ => less quota j k le_rfl
  | refill => exact fun _ _ => le_rfl

theorem path_within {ok : State κ α → Op κ α → Prop} {ops : List (Op κ α)}
    (path : Path (Step keys quota) ok s ops s') (within : ∀ k ∈ keys, s.credit k ≤ quota k) :
    ∀ k ∈ keys, s'.credit k ≤ quota k := by
  induction path with
  | start => exact within
  | step _ _ taken ih => exact taken.within ih

theorem handedOut_append (k : κ) (ops later : List (Op κ α)) :
    handedOut k (ops ++ later) = handedOut k ops ++ handedOut k later := by
  simp [handedOut]

/-- What a run hands out of a queue was there before it or was put in by it, in this order. -/
theorem handedOut_eq {ok : State κ α → Op κ α → Prop} {ops : List (Op κ α)}
    (path : Path (Step keys quota) ok s ops s') (k : κ) :
    s.waiting k ++ handedIn k ops = handedOut k ops ++ s'.waiting k := by
  induction path with
  | start => simp [handedIn, handedOut]
  | @step ops s' s'' op _ _ taken ih =>
      rw [handedIn, List.filterMap_append, ← handedIn, ← List.append_assoc, ih, handedOut_append]
      cases taken with
      | put j a =>
          by_cases same : j = k
          · subst same
            simp [handedOut]
          · simp [handedOut, same, Function.update_of_ne (Ne.symm same)]
      | @take j a rest _ front _ =>
          by_cases same : j = k
          · subst same
            simp [handedOut, front]
          · simp [handedOut, same, Function.update_of_ne (Ne.symm same)]
      | @again j a rest _ _ front _ =>
          by_cases same : j = k
          · subst same
            simp [handedOut, front]
          · simp [handedOut, same, Function.update_of_ne (Ne.symm same)]
      | refill => simp [handedOut]
      | idle => simp [handedOut]

theorem path_closer {ok : State κ α → Op κ α → Prop} {ops : List (Op κ α)}
    (path : Path (Step keys quota) ok s ops s') {k : κ} (positive : 0 < quota k) (inside : k ∈ keys) {pos : Nat}
    (waits : pos < (s.waiting k).length) :
    pos < (handedOut k ops).length ∨
      ∃ pos', pos = (handedOut k ops).length + pos' ∧ pos' < (s'.waiting k).length ∧
        s'.rank keys quota k pos' + calls ops ≤ s.rank keys quota k pos := by
  induction path with
  | start => exact .inr ⟨pos, by simp [handedOut], waits, by simp [calls]⟩
  | @step ops s' s'' op _ _ taken ih =>
      rw [handedOut_append, List.length_append, calls_append]
      rcases ih with out | ⟨pos', moved, waits', closer⟩
      · exact .inl (by omega)
      · rcases taken.closer positive inside waits' with out | ⟨pos'', moved', waits'', closer'⟩
        · exact .inl (by omega)
        · exact .inr ⟨pos'', by omega, waits'', by omega⟩

/-- No item starves: after more calls than its rank it was handed out, behind the items before it. -/
theorem hands_out {ok : State κ α → Op κ α → Prop} {ops : List (Op κ α)}
    (path : Path (Step keys quota) ok s ops s') {k : κ} (positive : 0 < quota k) (inside : k ∈ keys) {pos : Nat}
    (waits : pos < (s.waiting k).length) (enough : s.rank keys quota k pos < calls ops) :
    (s.waiting k).take (pos + 1) <+: handedOut k ops := by
  have out : pos < (handedOut k ops).length := by
    rcases path_closer path positive inside waits with out | ⟨pos', _, _, closer⟩
    · exact out
    · omega
  have initial : (s.waiting k).take (pos + 1) <+: handedOut k ops ++ s'.waiting k :=
    (List.take_prefix _ _).trans ⟨handedIn k ops, handedOut_eq path k⟩
  refine List.prefix_of_prefix_length_le initial (List.prefix_append _ _) ?_
  rw [List.length_take]
  omega

/-! ## How the calls are shared out -/

theorem take_shares {credit : κ → Nat} {j k : κ} {a : α} (left : 0 < credit j) :
    (handedOut k [.take j a]).length + Function.update credit j (credit j - 1) k = credit k := by
  by_cases same : j = k
  · subst same
    simp only [handedOut, List.filterMap_cons, if_true, List.filterMap_nil, List.length_singleton,
      Function.update_self]
    omega
  · simp [handedOut, same, Function.update_of_ne (Ne.symm same)]

/-- Of a queue that no call finds empty, a step takes from the credit what it hands out, once it has refilled it. -/
theorem Step.shares {op : Op κ α} (taken : Step keys quota s op s') :
    ∃ refills, ∀ k ∈ keys, (0 < calls [op] → s.waiting k ≠ []) →
      (handedOut k [op]).length + s'.credit k = refills * quota k + s.credit k := by
  have used : ∀ k, s.waiting k ≠ [] → s.Spent k → s.credit k = 0 :=
    fun k waits spent => spent.resolve_left waits
  cases taken with
  | put j a => exact ⟨0, by simp [handedOut]⟩
  | take _ front left => exact ⟨0, fun k _ _ => (take_shares left).trans (by rw [Nat.zero_mul, Nat.zero_add])⟩
  | again spent _ front left =>
      refine ⟨1, fun k inside waits => ?_⟩
      rw [used k (waits Nat.one_pos) (spent k inside), Nat.one_mul, Nat.add_zero]
      exact take_shares left
  | refill spent =>
      refine ⟨1, fun k inside waits => ?_⟩
      rw [used k (waits Nat.one_pos) (spent k inside)]
      simp [handedOut]
  | idle => exact ⟨0, by simp [handedOut]⟩

/-- In a run, each queue that no call finds empty hands out its quota as often as any other such queue, up to what
was left of its credit before and after the run. -/
theorem shares {ok : State κ α → Op κ α → Prop} {ops : List (Op κ α)}
    (path : Path (Step keys quota) ok s ops s') :
    ∃ refills, ∀ k ∈ keys, (∀ s op, ok s op → 0 < calls [op] → s.waiting k ≠ []) →
      (handedOut k ops).length + s'.credit k = refills * quota k + s.credit k := by
  induction path with
  | start => exact ⟨0, by simp [handedOut]⟩
  | @step ops s' s'' op _ allowed taken ih =>
      obtain ⟨before, ih⟩ := ih
      obtain ⟨refills, step⟩ := taken.shares
      refine ⟨before + refills, fun k inside busy => ?_⟩
      have earlier := ih k inside busy
      have now := step k inside (busy s' op allowed)
      rw [handedOut_append, List.length_append, Nat.add_mul]
      omega

end RoundRobin
