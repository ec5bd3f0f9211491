import OsSim.Lib.NodeHeap
import OsSim.Timer.Protocol

namespace OsSim.Timer.DevNodes
open NodeHeap Transition

/-! ## The device list as linked nodes -/

/-- The pointer to the first container. `nodes` holds the containers with their devices. -/
structure DevList where
  devList : Option Nat
  nodes : Heap Device
  timerStarted : Bool

/-- The pointer that is returned, or `none` for NULL. -/
def attachEvent (list : DevList) : Option Nat × DevList :=
  if list.timerStarted then (none, list)
  else
    let container := list.nodes.fresh
    let heap := list.nodes.malloc (list.nodes.cell container)
    let heap := heap.write container ⟨Timer.attachEvent, (heap.cell container).next⟩
    match list.devList with
    | none =>
        (some container, { list with
          devList := some container
          nodes := heap.write container ⟨(heap.cell container).val, none⟩ })
    | some head =>
        (some container, { list with
          devList := some container
          nodes := heap.write container ⟨(heap.cell container).val, some head⟩ })

def startTimer (list : DevList) : DevList := { list with timerStarted := true }

/-- A thread writes to the device to which it holds the pointer. -/
def store (list : DevList) (timerId : Nat) (id : Device) : DevList :=
  { list with nodes := list.nodes.write timerId ⟨id, (list.nodes.cell timerId).next⟩ }

/-- The loop of `stopTimer`, for at most `fuel` containers. -/
def freeDevices : Nat → Heap Device → Option Nat → Option Nat × Heap Device
  | _, heap, none => (none, heap)
  | 0, heap, some temp => (some temp, heap)
  | fuel + 1, heap, some temp =>
      let heap := heap.touch temp
      freeDevices fuel (heap.free temp) (heap.cell temp).next

def stopTimer (list : DevList) : DevList :=
  let (devList, nodes) := freeDevices list.nodes.fresh list.nodes list.devList
  { list with devList, nodes }

inductive DevCall
  | attachEvent
  | startTimer
  | store (timerId : Nat) (id : Device)

/-- The list, and the pointers that were returned, the latest one first. -/
structure State where
  list : DevList
  returned : List Nat

def State.exec (s : State) : DevCall → State
  | .attachEvent => ⟨(DevNodes.attachEvent s.list).2, (DevNodes.attachEvent s.list).1.toList ++ s.returned⟩
  | .startTimer => ⟨DevNodes.startTimer s.list, s.returned⟩
  | .store timerId id => ⟨DevNodes.store s.list timerId id, s.returned⟩

def State.Step (s : State) (call : DevCall) (s' : State) : Prop := s' = s.exec call

/-- The threads write to devices that were attached. -/
def State.Owns (s : State) : DevCall → Prop
  | .store timerId _ => timerId ∈ s.returned
  | _ => True

structure State.Start (s : State) : Prop where
  devList : s.list.devList = none
  sound : s.list.nodes.misused = false
  returned : s.returned = []

/-! ## What the calls do to the list -/

section Calls

variable {list : DevList} {nodes : List (Nat × Device)}

theorem attachEvent_eq (open' : list.timerStarted = false) :
    attachEvent list = (some list.nodes.fresh, { list with
      devList := some list.nodes.fresh
      nodes := ((list.nodes.malloc (list.nodes.cell list.nodes.fresh)).write list.nodes.fresh
        ⟨Timer.attachEvent, list.nodes.cell list.nodes.fresh |>.next⟩).write list.nodes.fresh
          ⟨Timer.attachEvent, list.devList⟩ }) := by
  rw [attachEvent, open', if_neg Bool.false_ne_true]
  cases head : list.devList <;> simp [Heap.write, Heap.malloc]

theorem attachEvent_holds (holds : Holds list.nodes list.devList nodes) (open' : list.timerStarted = false) :
    Holds (attachEvent list).2.nodes (attachEvent list).2.devList ((list.nodes.fresh, Timer.attachEvent) :: nodes) := by
  obtain ⟨kept, spare⟩ := holds.malloc (list.nodes.cell list.nodes.fresh)
  rw [attachEvent_eq open']
  exact (kept.writeSpare spare _).link (spare.write _) Timer.attachEvent

theorem store_holds (holds : Holds list.nodes list.devList nodes) {timerId : Nat}
    (attached : timerId ∈ nodes.map Prod.fst) (id : Device) :
    ∃ nodes', Holds (store list timerId id).nodes (store list timerId id).devList nodes' ∧
      nodes'.map Prod.fst = nodes.map Prod.fst := by
  obtain ⟨⟨a, before⟩, member, rfl⟩ := List.mem_map.mp attached
  obtain ⟨pre, post, rfl⟩ := List.append_of_mem member
  exact ⟨_, holds.setVal id, by simp⟩

/-- The loop frees the containers of the list and touches none that is freed. -/
theorem freeDevices_holds {fuel : Nat} {h : Heap Device} {head : Option Nat} (holds : Holds h head nodes)
    (enough : nodes.length ≤ fuel) :
    (freeDevices fuel h head).1 = none ∧ (freeDevices fuel h head).2.misused = false ∧
      ∀ a, (freeDevices fuel h head).2.live a = (h.live a && decide (a ∉ nodes.map Prod.fst)) := by
  induction nodes generalizing fuel h head with
  | nil =>
      rw [show head = none from holds.seg]
      cases fuel <;> exact ⟨rfl, holds.sound, by simp [freeDevices]⟩
  | cons node nodes ih =>
      obtain ⟨a, v⟩ := node
      obtain ⟨rfl, _, _⟩ := holds.seg
      obtain ⟨fuel, rfl⟩ := Nat.exists_eq_add_one.mpr (Nat.zero_lt_of_lt enough)
      have alive : h.touch a = h := holds.touch (c := (a, v)) (by simp)
      have freed := ih holds.freeFirst (by simpa using enough)
      rw [freeDevices]
      simp only [alive]
      refine ⟨freed.1, freed.2.1, fun b => ?_⟩
      rw [freed.2.2 b]
      by_cases same : b = a
      · subst same
        simp [Heap.free, alive]
      · have elsewhere : b ∉ ((a, v) :: nodes).map Prod.fst ↔ b ∉ nodes.map Prod.fst := by
          rw [List.map_cons, List.mem_cons, not_or]
          exact and_iff_right same
        simp [Heap.free, alive, same, decide_eq_decide.mpr elsewhere]

end Calls

/-! ## Runs -/

def State.Linked (s : State) : Prop :=
  ∃ nodes, Holds s.list.nodes s.list.devList nodes ∧ nodes.map Prod.fst = s.returned

theorem State.Linked.exec {s : State} (linked : s.Linked) {call : DevCall} (owns : s.Owns call) :
    (s.exec call).Linked := by
  obtain ⟨nodes, holds, pointers⟩ := linked
  cases call with
  | attachEvent =>
      cases started : s.list.timerStarted with
      | true =>
          refine ⟨nodes, ?_, ?_⟩ <;> simp only [State.exec, DevNodes.attachEvent, started, if_true]
          · exact holds
          · exact pointers
      | false =>
          refine ⟨_, attachEvent_holds holds started, ?_⟩
          rw [State.exec, attachEvent_eq started, List.map_cons, pointers]
          rfl
  | startTimer => exact ⟨nodes, holds, pointers⟩
  | store timerId id =>
      have attached : timerId ∈ nodes.map Prod.fst := by
        rw [pointers]
        exact owns
      obtain ⟨nodes', holds', same⟩ := store_holds holds attached id
      exact ⟨nodes', holds', same.trans pointers⟩

theorem reachable_linked {s : State} (reachable : Reach State.Step State.Owns State.Start s) : s.Linked := by
  refine reachable.invariant (fun s start => ?_) ?_
  · refine ⟨[], ⟨start.devList, List.nodup_nil, nofun, nofun, start.sound⟩, start.returned.symm⟩
  · rintro s call s' linked owns rfl
    exact linked.exec owns

/-- However the calls of `attachEvent`, `startTimer` and the writes of the threads follow each other, a walk through
`dev_list` meets the attached devices, each once and the latest first, and `stopTimer` frees them all, each once. -/
theorem reachable_devList {s : State} (reachable : Reach State.Step State.Owns State.Start s) :
    (walk s.list.nodes.cell s.list.nodes.fresh s.list.devList).map Prod.fst = s.returned ∧ s.returned.Nodup ∧
      s.list.nodes.misused = false ∧ (stopTimer s.list).devList = none ∧ (stopTimer s.list).nodes.misused = false ∧
      ∀ a, (stopTimer s.list).nodes.live a = (s.list.nodes.live a && decide (a ∉ s.returned)) := by
  obtain ⟨nodes, holds, pointers⟩ := reachable_linked reachable
  obtain ⟨empty, sound, live⟩ := freeDevices_holds holds holds.length_le
  rw [holds.walk_eq, pointers]
  exact ⟨rfl, pointers ▸ holds.nodup, holds.sound, empty, sound, pointers ▸ live⟩

/-! ### The calls of `main` -/

theorem exec_attachEvent {s : State} (open' : s.list.timerStarted = false) :
    (s.exec .attachEvent).list.timerStarted = false ∧
      (s.exec .attachEvent).list.nodes.fresh = s.list.nodes.fresh + 1 ∧
      (s.exec .attachEvent).returned = s.list.nodes.fresh :: s.returned := by
  simp [State.exec, attachEvent_eq open', open', Heap.write, Heap.touch, Heap.malloc]

/-- Consecutive calls of `attachEvent` return consecutive blocks, so that the device attached last is first. -/
theorem attachEvent_returned {s : State} (open' : s.list.timerStarted = false) (n : Nat) :
    (run State.exec s (List.replicate n .attachEvent)).returned =
      ((List.range n).map (s.list.nodes.fresh + ·)).reverse ++ s.returned := by
  induction n generalizing s with
  | zero => rfl
  | succ n ih =>
      obtain ⟨stillOpen, fresh, returned⟩ := exec_attachEvent open'
      have later := ih stillOpen
      rw [fresh, returned] at later
      have blocks : ∀ i, s.list.nodes.fresh + 1 + i = s.list.nodes.fresh + (i + 1) := fun i => by omega
      rw [List.range_succ_eq_map]
      simpa [List.replicate_succ, run, blocks, Function.comp_def] using later

def noDevices : State where
  list :=
    { devList := none, timerStarted := false
      nodes := { cell := fun _ => ⟨Timer.attachEvent, none⟩, live := fun _ => false, fresh := 0, misused := false } }
  returned := []

/-- Two CPUs and the loader; then the timer starts, and the first CPU sets its `done`. -/
def threeDevices : List DevCall :=
  [.attachEvent, .attachEvent, .attachEvent, .startTimer, .store 0 { Timer.attachEvent with done := true }]

theorem threeDevices_devList :
    let s := run State.exec noDevices threeDevices
    (walk s.list.nodes.cell s.list.nodes.fresh s.list.devList).map Prod.fst = s.returned ∧ s.returned.Nodup ∧
      s.list.nodes.misused = false ∧ (stopTimer s.list).devList = none ∧ (stopTimer s.list).nodes.misused = false ∧
      ∀ a, (stopTimer s.list).nodes.live a = (s.list.nodes.live a && decide (a ∉ s.returned)) := by
  have start : noDevices.Start := ⟨rfl, rfl, rfl⟩
  refine reachable_devList (.step (l := .store 0 { Timer.attachEvent with done := true })
    (.step (l := .startTimer) (.step (l := .attachEvent) (.step (l := .attachEvent) (.step (l := .attachEvent)
      (.start start) trivial rfl) trivial rfl) trivial rfl) trivial rfl) ?_ rfl)
  exact (by decide : 0 ∈ [2, 1, 0])

end OsSim.Timer.DevNodes
