import OsSim.Paging.Mm

namespace OsSim.Paging.PgnNodes
open NodeHeap

/-! ## The page list as linked nodes -/

/-- The pointer to the first node. `nodes` holds the nodes with their page numbers. -/
structure PgnList where
  pgnlist : Option Nat
  nodes : Heap Int

def enlistPgnNode (list : PgnList) (pgn : Int) : Int × PgnList :=
  let pnode := list.nodes.fresh
  let heap := list.nodes.malloc (list.nodes.cell pnode)
  (0, { pgnlist := some pnode, nodes := heap.write pnode ⟨pgn, list.pgnlist⟩ })

/-- The walk of `delistPgnNode`, for at most `fuel` nodes: the last node. -/
def lastPgnNode : Nat → Heap Int → Nat → Heap Int × Nat
  | 0, heap, pnode => (heap, pnode)
  | fuel + 1, heap, pnode =>
      let heap := heap.touch pnode
      match (heap.cell pnode).next with
      | none => (heap, pnode)
      | some pgNext => lastPgnNode fuel heap pgNext

/-- The last node is freed, and the pointer to it stays as it is. -/
def delistPgnNode (list : PgnList) : Int × PgnList :=
  match list.pgnlist with
  | none => (-1, list)
  | some first =>
      let (heap, pnode) := lastPgnNode list.nodes.fresh list.nodes first
      let heap := heap.touch pnode
      ((heap.cell pnode).val, { list with nodes := heap.free pnode })

inductive PgnCall
  | enlist (pgn : Int)
  | delist
deriving DecidableEq

def PgnList.exec (list : PgnList) : PgnCall → Int × PgnList
  | .enlist pgn => enlistPgnNode list pgn
  | .delist => delistPgnNode list

/-- The list that is NULL, before any node of it was handed out. -/
def nullList (heap : Heap Int) : PgnList := { pgnlist := none, nodes := { heap with misused := false } }

/-! ## The queue -/

def queueStep (queue : List Int) : PgnCall → Int × List Int
  | .enlist pgn => (0, queue ++ [pgn])
  | .delist => (queue.headD (-1), queue.tail)

/-- The nodes of the list are live and hold the queue, its last page first, and no freed node was touched. -/
def PgnList.HoldsQueue (list : PgnList) (queue : List Int) : Prop :=
  ∃ nodes, Holds list.nodes list.pgnlist nodes ∧ nodes.map Prod.snd = queue.reverse

/-- Each call returns what the queue returns, and the list holds the queue before and after each of them. -/
def IsQueue (list : PgnList) (queue : List Int) : List PgnCall → Prop
  | [] => list.HoldsQueue queue
  | call :: later =>
      list.HoldsQueue queue ∧ (list.exec call).1 = (queueStep queue call).1 ∧
        IsQueue (list.exec call).2 (queueStep queue call).2 later

theorem IsQueue.holds {list : PgnList} {queue : List Int} {calls : List PgnCall}
    (isQueue : IsQueue list queue calls) : list.HoldsQueue queue := by
  cases calls with
  | nil => exact isQueue
  | cons call later => exact isQueue.1

section Calls

variable {list : PgnList} {queue : List Int} {calls : List PgnCall} {nodes : List (Nat × Int)}

/-! ## Enlisting -/

theorem enlistPgnNode_holds (holds : Holds list.nodes list.pgnlist nodes) (pgn : Int) :
    Holds (enlistPgnNode list pgn).2.nodes (enlistPgnNode list pgn).2.pgnlist ((list.nodes.fresh, pgn) :: nodes) := by
  obtain ⟨kept, spare⟩ := holds.malloc (list.nodes.cell list.nodes.fresh)
  exact kept.link spare pgn

/-- The nodes hold the list that the paging functions work on. -/
def PgnList.Represents (list : PgnList) (fifoPgn : List Nat) : Prop :=
  ∃ nodes, Holds list.nodes list.pgnlist nodes ∧ nodes.map Prod.snd = fifoPgn.map Int.ofNat

theorem PgnList.Represents.enlistPgnNode {fifoPgn : List Nat} (represents : list.Represents fifoPgn) (pgn : Nat) :
    (enlistPgnNode list pgn).2.Represents (Paging.enlistPgnNode fifoPgn pgn) := by
  obtain ⟨nodes, holds, pages⟩ := represents
  exact ⟨_, enlistPgnNode_holds holds pgn, congrArg (Int.ofNat pgn :: ·) pages⟩

theorem PgnList.HoldsQueue.enlist (holdsQueue : list.HoldsQueue queue) (pgn : Int) :
    (enlistPgnNode list pgn).2.HoldsQueue (queue ++ [pgn]) := by
  obtain ⟨nodes, holds, pages⟩ := holdsQueue
  refine ⟨_, enlistPgnNode_holds holds pgn, ?_⟩
  rw [List.map_cons, pages, List.reverse_append]
  rfl

theorem isQueue_of_enlist (holdsQueue : list.HoldsQueue queue) (enlisting : ∀ call ∈ calls, call ≠ .delist) :
    IsQueue list queue calls := by
  induction calls generalizing list queue with
  | nil => exact holdsQueue
  | cons call later ih =>
      obtain ⟨first, others⟩ := List.forall_mem_cons.mp enlisting
      cases call with
      | enlist pgn => exact ⟨holdsQueue, rfl, ih (holdsQueue.enlist pgn) others⟩
      | delist => exact absurd rfl first

/-! ## Delisting -/

theorem lastPgnNode_kept (fuel : Nat) (heap : Heap Int) (pnode : Nat) :
    (lastPgnNode fuel heap pnode).1.cell = heap.cell ∧ (lastPgnNode fuel heap pnode).1.live = heap.live ∧
      (lastPgnNode fuel heap pnode).1.fresh = heap.fresh := by
  induction fuel generalizing heap pnode with
  | zero => exact ⟨rfl, rfl, rfl⟩
  | succ fuel ih =>
      rw [lastPgnNode]
      split
      · exact ⟨rfl, rfl, rfl⟩
      · exact ih _ _

theorem delistPgnNode_kept (list : PgnList) :
    (delistPgnNode list).2.pgnlist = list.pgnlist ∧ (delistPgnNode list).2.nodes.cell = list.nodes.cell ∧
      (delistPgnNode list).2.nodes.fresh = list.nodes.fresh := by
  rw [delistPgnNode]
  split
  · exact ⟨rfl, rfl, rfl⟩
  · next first _ =>
    obtain ⟨cell, _, fresh⟩ := lastPgnNode_kept list.nodes.fresh list.nodes first
    exact ⟨rfl, cell, fresh⟩

theorem not_holdsQueue_delist (holdsQueue : list.HoldsQueue queue) (nonempty : queue ≠ []) :
    ¬ (delistPgnNode list).2.HoldsQueue queue.tail := by
  rintro ⟨nodes', holds', pages'⟩
  obtain ⟨nodes, holds, pages⟩ := holdsQueue
  obtain ⟨head, cell, fresh⟩ := delistPgnNode_kept list
  have walked := holds'.walk_eq
  rw [head, cell, fresh, holds.walk_eq] at walked
  subst walked
  have same := congrArg List.length (pages.symm.trans pages')
  rw [List.length_reverse, List.length_reverse, List.length_tail] at same
  have positive := List.length_pos_iff.mpr nonempty
  omega

theorem IsQueue.enlisting (isQueue : IsQueue list queue calls) (nonempty : queue ≠ []) :
    ∀ call ∈ calls, call ≠ .delist := by
  induction calls generalizing list queue with
  | nil => exact nofun
  | cons call later ih =>
      obtain ⟨holdsQueue, _, rest⟩ := isQueue
      cases call with
      | enlist pgn => exact List.forall_mem_cons.mpr ⟨nofun, ih rest (List.append_ne_nil_of_right_ne_nil _ nofun)⟩
      | delist => exact absurd rest.holds (not_holdsQueue_delist holdsQueue nonempty)

theorem lastPgnNode_eq {heap : Heap Int} {pre : List (Nat × Int)} {last : Nat × Int} {pnode fuel : Nat}
    (seg : Seg heap.cell (some pnode) (pre ++ [last]) none) (enough : pre.length < fuel) :
    (lastPgnNode fuel heap pnode).2 = last.1 := by
  induction pre generalizing heap pnode fuel with
  | nil =>
      obtain ⟨fuel, rfl⟩ := Nat.exists_eq_add_one.mpr (Nat.zero_lt_of_lt enough)
      obtain ⟨at_last, _, ended⟩ := seg
      cases at_last
      have stops : ((heap.touch last.1).cell last.1).next = none := ended
      simp only [lastPgnNode, stops]
  | cons node rest ih =>
      obtain ⟨fuel, rfl⟩ := Nat.exists_eq_add_one.mpr (Nat.zero_lt_of_lt enough)
      obtain ⟨at_node, _, tail⟩ := seg
      cases at_node
      obtain ⟨pgNext, next⟩ : ∃ pgNext, (heap.cell node.1).next = some pgNext := by
        cases rest with
        | nil => exact ⟨_, tail.1⟩
        | cons => exact ⟨_, tail.1⟩
      have goes : ((heap.touch node.1).cell node.1).next = some pgNext := next
      simp only [lastPgnNode, goes]
      rw [next] at tail
      have tail' : Seg (heap.touch node.1).cell (some pgNext) (rest ++ [last]) none := tail
      exact ih tail' (Nat.lt_of_succ_lt_succ enough)

theorem delistPgnNode_eq {pre : List (Nat × Int)} {last : Nat × Int}
    (seg : Seg list.nodes.cell list.pgnlist (pre ++ [last]) none) (enough : pre.length < list.nodes.fresh) :
    (delistPgnNode list).1 = last.2 ∧ (delistPgnNode list).2.nodes.live last.1 = false ∧
      (list.nodes.live last.1 = false → (delistPgnNode list).2.nodes.misused = true) := by
  obtain ⟨first, head⟩ : ∃ first, list.pgnlist = some first := by
    cases pre with
    | nil => exact ⟨_, seg.1⟩
    | cons => exact ⟨_, seg.1⟩
  obtain ⟨cell, live, _⟩ := lastPgnNode_kept list.nodes.fresh list.nodes first
  obtain ⟨_, _, _, val, _⟩ := seg_append.mp seg
  rw [head] at seg
  simp only [delistPgnNode, head, lastPgnNode_eq seg enough]
  refine ⟨?_, ?_, fun freed => ?_⟩
  · simp [Heap.touch, cell, val]
  · simp [Heap.free]
  · simp [Heap.free, Heap.touch, live, freed]

/-- On a list with a page, the second call in a row returns the same page again, from a freed node. -/
theorem delistPgnNode_again {pgn : Int} (holdsQueue : list.HoldsQueue (pgn :: queue)) :
    (delistPgnNode list).1 = pgn ∧ (delistPgnNode (delistPgnNode list).2).1 = pgn ∧
      (delistPgnNode (delistPgnNode list).2).2.nodes.misused = true := by
  obtain ⟨nodes, holds, pages⟩ := holdsQueue
  rw [List.reverse_cons] at pages
  obtain ⟨pre, ended, rfl, _, lastPage⟩ := List.map_eq_append_iff.mp pages
  obtain ⟨last, rfl, rfl⟩ := List.map_eq_singleton_iff.mp lastPage
  have enough : pre.length < list.nodes.fresh := by
    have length := holds.length_le
    rw [List.length_append, List.length_singleton] at length
    omega
  obtain ⟨head, cell, fresh⟩ := delistPgnNode_kept list
  obtain ⟨once, freed, _⟩ := delistPgnNode_eq holds.seg enough
  have seg' : Seg (delistPgnNode list).2.nodes.cell (delistPgnNode list).2.pgnlist (pre ++ [last]) none := by
    rw [head, cell]
    exact holds.seg
  obtain ⟨again, _, touched⟩ := delistPgnNode_eq seg' (fresh.symm ▸ enough)
  exact ⟨once, again, touched freed⟩

/-! ## All sequences of calls -/

theorem nullList_holds (heap : Heap Int) : (nullList heap).HoldsQueue [] :=
  ⟨[], ⟨rfl, List.nodup_nil, nofun, nofun, rfl⟩, rfl⟩

theorem isQueue_of_pairwise (null : list.pgnlist = none) (holdsQueue : list.HoldsQueue [])
    (ordered : calls.Pairwise fun call later => later = .delist → call = .delist) : IsQueue list [] calls := by
  induction calls generalizing list with
  | nil => exact holdsQueue
  | cons call later ih =>
      obtain ⟨first, others⟩ := List.pairwise_cons.mp ordered
      cases call with
      | enlist pgn =>
          refine ⟨holdsQueue, rfl, isQueue_of_enlist (holdsQueue.enlist pgn) ?_⟩
          rintro call member rfl
          cases first .delist member rfl
      | delist =>
          have unchanged : list.exec .delist = (-1, list) := by simp only [PgnList.exec, delistPgnNode, null]
          refine ⟨holdsQueue, ?_, ?_⟩
          · rw [unchanged]
            rfl
          · rw [unchanged]
            exact ih null holdsQueue others

theorem pairwise_of_isQueue (isQueue : IsQueue list [] calls) :
    calls.Pairwise fun call later => later = .delist → call = .delist := by
  induction calls generalizing list with
  | nil => exact .nil
  | cons call later ih =>
      obtain ⟨_, _, rest⟩ := isQueue
      cases call with
      | enlist pgn =>
          have enlisting := rest.enlisting (List.cons_ne_nil pgn [])
          refine .cons (fun other member delists => absurd delists (enlisting other member)) ?_
          exact List.pairwise_of_forall_mem_list fun _ _ other member delists => absurd delists (enlisting other member)
      | delist => exact .cons (fun _ _ _ => rfl) (ih rest)

end Calls

/-- A list starting from NULL is a queue exactly as long as nothing is delisted after a page was enlisted. -/
theorem isQueue_iff (heap : Heap Int) (calls : List PgnCall) :
    IsQueue (nullList heap) [] calls ↔ calls.Pairwise fun call later => later = .delist → call = .delist :=
  ⟨pairwise_of_isQueue, isQueue_of_pairwise rfl (nullList_holds heap)⟩

def noNodes : Heap Int := { cell := fun _ => ⟨0, none⟩, live := fun _ => false, fresh := 0, misused := false }

theorem enlist_delist_not_isQueue :
    ¬ IsQueue (nullList noNodes) [] [.enlist 5, .delist] ∧
      (delistPgnNode (delistPgnNode (enlistPgnNode (nullList noNodes) 5).2).2).1 = 5 ∧
      (delistPgnNode (delistPgnNode (enlistPgnNode (nullList noNodes) 5).2).2).2.nodes.misused = true := by
  have holdsQueue : (enlistPgnNode (nullList noNodes) 5).2.HoldsQueue [5] := (nullList_holds noNodes).enlist 5
  obtain ⟨_, again, misused⟩ := delistPgnNode_again holdsQueue
  refine ⟨fun isQueue => ?_, again, misused⟩
  obtain ⟨_, _, _, _, left⟩ := isQueue
  exact not_holdsQueue_delist holdsQueue (List.cons_ne_nil _ _) left

end OsSim.Paging.PgnNodes
