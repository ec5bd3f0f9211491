import Mathlib.Tactic.Ring
import OsSim.Lib.RoundRobin
import OsSim.Sched.Selection

namespace OsSim.Sched
open Transition

def quota (i : Nat) : Nat := maxPrio - i

theorem sum_quota : ∑ i ∈ Finset.range maxPrio, quota i = 9870 := by decide +kernel

theorem quota_positive {i : Nat} (inside : i < maxPrio) : 0 < quota i := Nat.sub_pos_of_lt inside

abbrev RotaStep : RoundRobin.State Nat Nat → Fifo.Op Nat Nat → RoundRobin.State Nat Nat → Prop :=
  RoundRobin.Step (Finset.range maxPrio) quota

/-! ## The queues as queues that are served in rounds -/

structure Mlq.Serves (prio : Nat → Nat) (mlq : Mlq) (rota : RoundRobin.State Nat Nat) : Prop where
  represents : mlq.Represents prio rota.waiting
  slots : ∀ i < maxPrio, (mlq i).slot.toNat = rota.credit i

section Served

variable {prio : Nat → Nat} {s s' : Served} {rota : RoundRobin.State Nat Nat}

theorem Mlq.Represents.waiting_of_empty {mlq : Mlq} {waiting : Nat → List Nat}
    (represents : mlq.Represents prio waiting) {i : Nat} (inside : i < maxPrio) :
    (mlq i).empty = true ↔ waiting i = [] := by
  rw [Queue.empty_iff, (represents i inside).1, List.map_eq_nil_iff]

theorem Mlq.Serves.spent {mlq : Mlq} (same : mlq.Serves prio rota) {i : Nat} (inside : i < maxPrio) :
    (mlq i).Spent ↔ rota.Spent i := by
  rw [Queue.Spent, RoundRobin.State.Spent, same.represents.waiting_of_empty inside, ← same.slots i inside,
    BitVec.toNat_eq]
  rfl

theorem Mlq.Serves.put {mlq : Mlq} (same : mlq.Serves prio rota) (proc : Nat) :
    Mlq.Serves prio (putMlqProc mlq proc (prio proc))
      { rota with waiting :=
          Function.update rota.waiting (prio proc) (rota.waiting (prio proc) ++ [proc]) } := by
  refine ⟨same.represents.put proc, fun i inside => ?_⟩
  have kept : (putMlqProc mlq proc (prio proc) i).slot = (mlq i).slot := by
    by_cases here : i = prio proc
    · subst here
      rw [putMlqProc, Function.update_self, slot_enqueue]
    · rw [putMlqProc, Function.update_of_ne here]
  rw [kept]
  exact same.slots i inside

theorem toNat_slot_resetSlot (mlq : Mlq) {i : Nat} (inside : i < maxPrio) :
    (resetSlot mlq i).slot.toNat = quota i := by
  rw [slot_resetSlot mlq inside, BitVec.toNat_ofNat, quota]
  simp only [maxPrio] at inside ⊢
  omega

theorem toNat_slot_take {mlq : Mlq} {credit : Nat → Nat} {k : Nat} (left : (mlq k).slot ≠ 0)
    (slots : ∀ i < maxPrio, (mlq i).slot.toNat = credit i) :
    ∀ i < maxPrio, ((getMlqProc mlq (.take k)).1 i).slot.toNat =
      Function.update credit k (credit k - 1) i := by
  intro i inside
  by_cases here : i = k
  · subst here
    rw [slot_take, Function.update_self, ← slots i inside]
    bv_omega
  · rw [slot_take_of_ne mlq here, Function.update_of_ne here, slots i inside]

/-- A call of `get_proc` is one step of queues that are served in rounds. -/
theorem Mlq.Serves.get {mlq : Mlq} (same : mlq.Serves prio rota) {proc : Option Nat} {after : Mlq}
    (call : getProc mlq = some (proc, after)) :
    ∃ rota', after.Serves prio rota' ∧ RotaStep rota (proc.elim .miss fun p => .take (prio p) p) rota' := by
  obtain ⟨proc', after', call', gives⟩ := getProc_gives mlq
  obtain ⟨rfl, rfl⟩ : proc' = proc ∧ after' = after := by simpa [call] using call'.symm
  obtain ⟨proc'', after'', call'', selects⟩ := getProc_selects mlq
  obtain ⟨rfl, rfl⟩ : proc'' = proc' ∧ after'' = after' := by simpa [call] using call''.symm
  have moved := same.represents.get gives
  cases selects with
  | idle empty =>
      refine ⟨rota, same, .idle fun i member => ?_⟩
      have inside := Finset.mem_range.mp member
      exact (same.represents.waiting_of_empty inside).mp (empty i inside)
  | @first k inside ready before =>
      obtain ⟨nonempty, left⟩ := Queue.not_spent.mp ready
      obtain ⟨p, front, mine⟩ := same.represents.front inside nonempty
      rw [front] at moved ⊢
      obtain ⟨p', rest, got, list, represents⟩ := moved.resolve_left (by simp)
      cases got
      subst mine
      refine ⟨_, ⟨represents, toNat_slot_take left same.slots⟩, .take (Finset.mem_range.mpr inside) list ?_⟩
      rw [← same.slots _ inside]
      bv_omega
  | refill spent waits last =>
      refine ⟨rota.refill quota, ⟨same.represents.reset, fun i inside => toNat_slot_resetSlot mlq inside⟩,
        .refill ?_⟩
      intro i member
      have inside := Finset.mem_range.mp member
      exact (same.spent inside).mp (spent i inside)
  | @again k spent last inside behind waits before =>
      obtain ⟨p, front, mine⟩ := same.represents.reset.front inside (by rw [empty_resetSlot]; exact waits)
      rw [front] at moved ⊢
      obtain ⟨p', rest, got, list, represents⟩ := moved.resolve_left (by simp)
      cases got
      subst mine
      have left := (Queue.not_spent.mp (resetSlot_ready inside waits)).2
      refine ⟨_, ⟨represents, toNat_slot_take left fun i inside => toNat_slot_resetSlot mlq inside⟩,
        .again ?_ (Finset.mem_range.mpr inside) list (quota_positive inside)⟩
      intro i member
      have inside := Finset.mem_range.mp member
      exact (same.spent inside).mp (spent i inside)

theorem Mlq.Serves.exec (same : s.mlq.Serves prio rota) {r : Request} (taken : s.exec prio r = some s') :
    ∃ op rota', s'.ops = s.ops ++ [op] ∧ s'.mlq.Serves prio rota' ∧ RotaStep rota op rota' ∧
      RoundRobin.calls [op] = [r].count .getProc := by
  cases r with
  | addProc proc | putProc proc =>
      cases taken
      exact ⟨_, _, rfl, same.put proc, .put _ _, rfl⟩
  | getProc =>
      obtain ⟨⟨proc, after⟩, call, rfl⟩ := Option.map_eq_some_iff.mp taken
      cases proc with
      | none =>
          obtain ⟨rota', same', step⟩ := same.get call
          exact ⟨_, rota', rfl, same', step, rfl⟩
      | some p =>
          obtain ⟨rota', same', step⟩ := same.get call
          exact ⟨_, rota', rfl, same', step, rfl⟩

theorem Served.Start.serves (start : s.Start) : s.mlq.Serves prio ⟨fun _ => [], quota⟩ := by
  obtain ⟨⟨block, mlq⟩, ops⟩ := start
  refine ⟨fun i inside => ⟨?_, by simp⟩, fun i inside => ?_⟩
  · rw [mlq, initScheduler, if_pos inside]
    rfl
  · rw [mlq, initScheduler, if_pos inside, BitVec.toNat_ofNat]
    simp only [quota, maxPrio] at inside ⊢
    omega

theorem reachable_serves {ok : Served → Request → Prop}
    (reachable : Reach (Served.Step prio) ok Served.Start s) :
    ∃ rota, s.mlq.Serves prio rota ∧ ∀ i ∈ Finset.range maxPrio, rota.credit i ≤ quota i := by
  induction reachable with
  | start start => exact ⟨_, start.serves, fun _ _ => le_rfl⟩
  | step _ _ taken ih =>
      obtain ⟨rota, same, within⟩ := ih
      obtain ⟨op, rota', _, same', step, _⟩ := same.exec taken
      exact ⟨rota', same', step.within within⟩

/-- A run of the scheduler is a run of queues that are served in rounds. -/
theorem Mlq.Serves.path {ok : Served → Request → Prop} {ok' : RoundRobin.State Nat Nat → Fifo.Op Nat Nat → Prop}
    (implies : ∀ s r rota op, s.mlq.Serves prio rota → RoundRobin.calls [op] = [r].count .getProc →
      ok s r → ok' rota op) (same : s.mlq.Serves prio rota)
    {requests : List Request} (path : Path (Served.Step prio) ok s requests s') :
    ∃ ops rota', s'.ops = s.ops ++ ops ∧ s'.mlq.Serves prio rota' ∧ Path RotaStep ok' rota ops rota' ∧
      RoundRobin.calls ops = requests.count .getProc := by
  induction path with
  | start => exact ⟨[], rota, (List.append_nil _).symm, same, .start, rfl⟩
  | step _ allowed taken ih =>
      obtain ⟨ops, rota', history, same', before, calls⟩ := ih
      obtain ⟨op, rota'', history', same'', step, call⟩ := same'.exec taken
      refine ⟨ops ++ [op], rota'', ?_, same'', .step before (implies _ _ _ _ same' call allowed) step, ?_⟩
      · rw [history', history, List.append_assoc]
      · rw [RoundRobin.calls_append, List.count_append, calls, call]

/-- No process starves: after enough calls of `get_proc` it was handed out, behind those that waited before it. -/
theorem reachable_handsOut (reachable : Reach (Served.Step prio) (Served.HasRoom prio) Served.Start s)
    {requests : List Request} (path : Path (Served.Step prio) (Served.HasRoom prio) s requests s') {i pos : Nat}
    (inside : i < maxPrio) (waits : pos < (s.mlq i).size)
    (enough : (pos / (maxPrio - i) + 2) * 9871 ≤ requests.count .getProc) :
    ∃ ops, s'.ops = s.ops ++ ops ∧
      (s.mlq i).entries.take (pos + 1) <+: (Fifo.handedOut i ops).map some := by
  obtain ⟨rota, same, within⟩ := reachable_serves reachable
  have anything : ∀ (s : Served) r (rota : RoundRobin.State Nat Nat) (op : Fifo.Op Nat Nat),
      s.mlq.Serves prio rota → RoundRobin.calls [op] = [r].count .getProc → s.HasRoom prio r → True :=
    fun _ _ _ _ _ _ _ => trivial
  obtain ⟨ops, rota', history, _, served, calls⟩ := same.path anything path
  obtain ⟨entries, _⟩ := same.represents i inside
  have waits' : pos < (rota.waiting i).length := by
    rwa [← List.length_map (f := some), ← entries, Queue.length_entries]
  have rank := RoundRobin.rank_lt (k := i) within pos
  rw [sum_quota] at rank
  have out := RoundRobin.hands_out served (quota_positive inside) (Finset.mem_range.mpr inside) waits'
    (by rw [calls]; exact rank.trans_le enough)
  refine ⟨ops, history, ?_⟩
  rw [entries, ← List.map_take]
  exact out.map some

end Served

def lastWaits (proc : Nat) : Nat := if proc = 0 then 0 else 139

/-- A process of the lowest priority waits behind one of the highest. -/
def twoWait : Served :=
  follow (Served.exec lastWaits) (Served.HasRoom lastWaits)
    ⟨initScheduler fun _ => ⟨fun _ => none, 0, 0⟩, []⟩ [.addProc 0, .addProc 1]

/-- The state that a call leaves; every call returns. -/
def Served.next (prio : Nat → Nat) (s : Served) (r : Request) : Served := (s.exec prio r).getD s

theorem Served.step_next (prio : Nat → Nat) (s : Served) (r : Request) : Served.Step prio s r (s.next prio r) := by
  cases r with
  | addProc proc | putProc proc => rfl
  | getProc =>
      obtain ⟨proc, after, call, _⟩ := getProc_gives s.mlq
      simp [Served.Step, Served.next, Served.exec, call]

theorem path_next {prio : Nat → Nat} {ok : Served → Request → Prop} {s : Served} {requests : List Request}
    {r : Request} (path : Path (Served.Step prio) ok s requests (run (Served.next prio) s requests))
    (allowed : ok (run (Served.next prio) s requests) r) :
    Path (Served.Step prio) ok s (requests ++ [r]) (run (Served.next prio) s (requests ++ [r])) := by
  rw [run_append]
  exact path.step allowed (Served.step_next prio _ r)

theorem path_getProc (prio : Nat → Nat) (s : Served) (n : Nat) :
    Path (Served.Step prio) (Served.HasRoom prio) s (List.replicate n .getProc)
      (run (Served.next prio) s (List.replicate n .getProc)) := by
  induction n with
  | zero => exact .start
  | succ n ih =>
      rw [List.replicate_succ']
      exact path_next ih trivial

theorem twoWait_handsOut :
    ∃ s', Path (Served.Step lastWaits) (Served.HasRoom lastWaits) twoWait (List.replicate 19742 .getProc) s' ∧
      ∃ ops, s'.ops = twoWait.ops ++ ops ∧
        (twoWait.mlq 139).entries.take (0 + 1) <+: (Fifo.handedOut 139 ops).map some := by
  have reachable : Reach (Served.Step lastWaits) (Served.HasRoom lastWaits) Served.Start twoWait :=
    .follow (fun _ _ => id) (.start ⟨⟨_, rfl⟩, rfl⟩) _
  have waits : 0 < (twoWait.mlq 139).size := by decide
  have enough : (0 / (maxPrio - 139) + 2) * 9871 ≤ (List.replicate 19742 Request.getProc).count .getProc := by
    rw [List.count_replicate_self]
    decide
  have path := path_getProc lastWaits twoWait 19742
  exact ⟨_, path, reachable_handsOut reachable path (by decide) waits enough⟩

section Shares

variable {prio : Nat → Nat} {s s' : Served}

/-- A run in which there is room for what is put, and no call of `get_proc` finds a queue of `busy` empty. -/
def Served.Busy (prio : Nat → Nat) (busy : Nat → Prop) (s : Served) (r : Request) : Prop :=
  s.HasRoom prio r ∧ (r = .getProc → ∀ i, busy i → (s.mlq i).empty = false)

/-- Two credits left and one quota each are all that two shares can differ by. -/
theorem shares_close {refills out out' left left' before before' q q' : Nat}
    (share : out + left = refills * q + before) (share' : out' + left' = refills * q' + before')
    (most : before ≤ q) (most' : left' ≤ q') : out * q' ≤ out' * q + 2 * (q * q') := by
  have upper : out ≤ refills * q + q := by omega
  have lower : refills * q' ≤ out' + q' := by omega
  calc out * q' ≤ (refills * q + q) * q' := Nat.mul_le_mul_right q' upper
    _ = refills * q' * q + q * q' := by ring
    _ ≤ (out' + q') * q + q * q' := Nat.add_le_add_right (Nat.mul_le_mul_right q lower) _
    _ = out' * q + 2 * (q * q') := by ring

/-- While no call finds the queues of two priorities empty, the calls are shared between them in the ratio of their
quotas, up to two rounds. -/
theorem reachable_shares (reachable : Reach (Served.Step prio) (Served.HasRoom prio) Served.Start s)
    {busy : Nat → Prop} {requests : List Request}
    (path : Path (Served.Step prio) (Served.Busy prio busy) s requests s') :
    ∃ ops refills, s'.ops = s.ops ++ ops ∧
      (∀ i < maxPrio, busy i →
        (Fifo.handedOut i ops).length + (s'.mlq i).slot.toNat = refills * (maxPrio - i) + (s.mlq i).slot.toNat) ∧
      ∀ i < maxPrio, busy i → ∀ j < maxPrio, busy j →
        (Fifo.handedOut i ops).length * (maxPrio - j) ≤
          (Fifo.handedOut j ops).length * (maxPrio - i) + 2 * ((maxPrio - i) * (maxPrio - j)) := by
  obtain ⟨rota, same, within⟩ := reachable_serves reachable
  have waits : ∀ (s : Served) r (rota : RoundRobin.State Nat Nat) (op : Fifo.Op Nat Nat),
      s.mlq.Serves prio rota → RoundRobin.calls [op] = [r].count .getProc → s.Busy prio busy r →
        0 < RoundRobin.calls [op] → ∀ i < maxPrio, busy i → rota.waiting i ≠ [] := by
    intro s r rota op same counted allowed calls i inside here empty
    have asks : r = .getProc := by
      rw [counted, List.count_pos_iff, List.mem_singleton] at calls
      exact calls.symm
    have nonempty := allowed.2 asks i here
    rw [(same.represents.waiting_of_empty inside).mpr empty] at nonempty
    cases nonempty
  obtain ⟨ops, rota', history, same', served, _⟩ := same.path waits path
  have within' : ∀ i ∈ Finset.range maxPrio, rota'.credit i ≤ quota i := RoundRobin.path_within served within
  obtain ⟨refills, shared⟩ := RoundRobin.shares served
  have share : ∀ i < maxPrio, busy i →
      (Fifo.handedOut i ops).length + (s'.mlq i).slot.toNat = refills * quota i + (s.mlq i).slot.toNat := by
    intro i inside here
    rw [same.slots i inside, same'.slots i inside]
    exact shared i (Finset.mem_range.mpr inside) fun _ _ busy calls => busy calls i inside here
  refine ⟨ops, refills, history, share, fun i inside here j inside' here' => ?_⟩
  apply shares_close (share i inside here) (share j inside' here')
  · rw [same.slots i inside]
    exact within i (Finset.mem_range.mpr inside)
  · rw [same'.slots j inside']
    exact within' j (Finset.mem_range.mpr inside')

end Shares

def twoLast (proc : Nat) : Nat := 138 + proc % 2

/-- Two processes of priority 138, whose queue has two slots, and two of priority 139. -/
def bothBusy : Served :=
  follow (Served.exec twoLast) (Served.HasRoom twoLast)
    ⟨initScheduler fun _ => ⟨fun _ => none, 0, 0⟩, []⟩ [.addProc 0, .addProc 1, .addProc 2, .addProc 3]

def LastBusy : Served → Request → Prop := Served.Busy twoLast fun i => i = 138 ∨ i = 139

theorem lastBusy_of {s : Served} {r : Request} (room : s.HasRoom twoLast r)
    (waits : r = .getProc → (s.mlq 138).empty = false ∧ (s.mlq 139).empty = false) : LastBusy s r := by
  refine ⟨room, ?_⟩
  rintro asks i (rfl | rfl)
  · exact (waits asks).1
  · exact (waits asks).2

/-- The queue of priority 138 is emptied by two calls, and a process is put into it before the third. -/
def emptiedBetween : List Request := [.getProc, .getProc, .addProc 4, .getProc]

theorem bothBusy_path : Path (Served.Step twoLast) LastBusy bothBusy emptiedBetween
    (run (Served.next twoLast) bothBusy emptiedBetween) := by
  have first : LastBusy bothBusy .getProc := lastBusy_of trivial fun _ => by decide +kernel
  have second : LastBusy (run (Served.next twoLast) bothBusy [.getProc]) .getProc :=
    lastBusy_of trivial fun _ => by decide +kernel
  have third : LastBusy (run (Served.next twoLast) bothBusy [.getProc, .getProc]) (.addProc 4) :=
    lastBusy_of (by decide +kernel) (by rintro ⟨⟩)
  have fourth : LastBusy (run (Served.next twoLast) bothBusy [.getProc, .getProc, .addProc 4]) .getProc :=
    lastBusy_of trivial fun _ => by decide +kernel
  exact path_next (path_next (path_next (path_next .start first) second) third) fourth

theorem bothBusy_shares :
    ((run (Served.next twoLast) bothBusy [.getProc, .getProc]).mlq 138).empty = true ∧
    ∃ ops refills, (run (Served.next twoLast) bothBusy emptiedBetween).ops = bothBusy.ops ++ ops ∧
      (∀ i < maxPrio, i = 138 ∨ i = 139 → (Fifo.handedOut i ops).length +
          ((run (Served.next twoLast) bothBusy emptiedBetween).mlq i).slot.toNat =
        refills * (maxPrio - i) + (bothBusy.mlq i).slot.toNat) ∧
      ∀ i < maxPrio, i = 138 ∨ i = 139 → ∀ j < maxPrio, j = 138 ∨ j = 139 →
        (Fifo.handedOut i ops).length * (maxPrio - j) ≤
          (Fifo.handedOut j ops).length * (maxPrio - i) + 2 * ((maxPrio - i) * (maxPrio - j)) := by
  have reachable : Reach (Served.Step twoLast) (Served.HasRoom twoLast) Served.Start bothBusy :=
    .follow (fun _ _ => id) (.start ⟨⟨_, rfl⟩, rfl⟩) _
  exact ⟨by decide +kernel, reachable_shares reachable bothBusy_path⟩

end OsSim.Sched
