import OsSim.Lib.NodeHeap
import OsSim.Paging.Memphy

namespace OsSim.Paging.FrameNodes
open NodeHeap

/-- A device whose frame lists are linked nodes. `fpNodes` holds the nodes with their frame numbers. -/
structure Memphy where
  storage : Nat → Byte
  maxsz : Nat
  rdmflg : Bool
  cursor : Nat
  freeFpList : Option Nat
  usedFpList : Option Nat
  fpNodes : Heap Nat

/-- The loop of `memphyFormat` for `n` more nodes, from the frame `iter` on; `fst` is the last node. -/
def formatNodes : Nat → Nat → Nat → Heap Nat → Heap Nat
  | 0, _, _, heap => heap
  | n + 1, iter, fst, heap =>
      let newfst := heap.fresh
      let heap := heap.malloc ⟨iter, none⟩
      let heap := heap.write fst ⟨(heap.cell fst).val, some newfst⟩
      formatNodes n (iter + 1) newfst heap

/-- `fpNext` is what the block of the first node holds in its next field, which only the loop sets. -/
def memphyFormat (mp : Memphy) (pagesz : Nat) (fpNext : Option Nat) : Int × Memphy :=
  let numfp := mp.maxsz / pagesz
  if numfp = 0 then (-1, mp)
  else
    let fst := mp.fpNodes.fresh
    let heap := mp.fpNodes.malloc ⟨0, fpNext⟩
    (0, { mp with freeFpList := some fst, fpNodes := formatNodes (numfp - 1) 1 fst heap })

/-- `mp` is what the struct holds before, and `storage` the block of the device's memory. -/
def initMemphy (mp : Memphy) (storage : Nat → Byte) (maxSize : Nat) (randomflg : Bool) (fpNext : Option Nat) :
    Memphy :=
  let mp := { mp with storage, maxsz := maxSize, usedFpList := none }
  let mp := (memphyFormat mp pagingPagesz fpNext).2
  { mp with rdmflg := randomflg, cursor := if randomflg then mp.cursor else 0 }

def memphyGetFreefp (mp : Memphy) : Option Nat × Memphy :=
  match mp.freeFpList with
  | none => (none, mp)
  | some fp =>
      let heap := mp.fpNodes.touch fp
      (some (heap.cell fp).val, { mp with freeFpList := (heap.cell fp).next, fpNodes := heap.free fp })

/-- What `n` calls of `memphyGetFreefp` return; `none` is the return value -1. -/
def getFreefps : Nat → Memphy → List (Option Nat)
  | 0, _ => []
  | n + 1, mp => (memphyGetFreefp mp).1 :: getFreefps n (memphyGetFreefp mp).2

/-- The free list is the frames below `n` in ascending order, and they can be taken in this order. -/
structure Memphy.Formatted (mp : Memphy) (n : Nat) : Prop where
  list : ∃ nodes, Seg mp.fpNodes.cell mp.freeFpList nodes none ∧ nodes.map Prod.snd = List.range n
  gets : getFreefps (n + 1) mp = (List.range n).map some ++ [none]

/-! ## Taking the frames of a list -/

theorem getFreefps_eq {mp : Memphy} {nodes : List (Nat × Nat)} (seg : Seg mp.fpNodes.cell mp.freeFpList nodes none) :
    getFreefps (nodes.length + 1) mp = nodes.map (some ∘ Prod.snd) ++ [none] := by
  induction nodes generalizing mp with
  | nil =>
      have ended : mp.freeFpList = none := seg
      simp [getFreefps, memphyGetFreefp, ended]
  | cons b rest ih =>
      obtain ⟨at_b, val, tail⟩ := seg
      have got : memphyGetFreefp mp = (some b.2, { mp with
          freeFpList := (mp.fpNodes.cell b.1).next
          fpNodes := (mp.fpNodes.touch b.1).free b.1 }) := by
        simp [memphyGetFreefp, at_b, Heap.touch, val]
      rw [List.length_cons, getFreefps, got, ih tail]
      rfl

theorem Memphy.formatted_iff (mp : Memphy) (n : Nat) :
    mp.Formatted n ↔
      ∃ nodes, Seg mp.fpNodes.cell mp.freeFpList nodes none ∧ nodes.map Prod.snd = List.range n := by
  refine ⟨fun formatted => formatted.list, fun list => ⟨list, ?_⟩⟩
  obtain ⟨nodes, seg, vals⟩ := list
  have length : nodes.length = n := by simpa using congrArg List.length vals
  have gets := getFreefps_eq seg
  rw [length, ← List.map_map, vals] at gets
  exact gets

/-! ## The nodes that the loop links -/

/-- The list from `head` up to the node `fst`, which is the last one handed out and holds the frame `k`. -/
structure LinkedUpTo (heap : Heap Nat) (head : Nat) (nodes : List (Nat × Nat)) (fst k : Nat) : Prop where
  seg : Seg heap.cell (some head) nodes (some fst)
  below : ∀ b ∈ nodes, b.1 < fst
  vals : nodes.map Prod.snd = List.range k
  last : (heap.cell fst).val = k
  fresh : fst < heap.fresh

theorem LinkedUpTo.closed {heap : Heap Nat} {head fst k : Nat} {nodes : List (Nat × Nat)}
    (linked : LinkedUpTo heap head nodes fst k) {next : Option Nat} (ended : (heap.cell fst).next = next) :
    Seg heap.cell (some head) (nodes ++ [(fst, k)]) next ∧
      (nodes ++ [(fst, k)]).map Prod.snd = List.range (k + 1) := by
  refine ⟨seg_append.mpr ⟨some fst, linked.seg, rfl, linked.last, ended⟩, ?_⟩
  rw [List.map_append, linked.vals, List.range_succ]
  rfl

theorem LinkedUpTo.extend {heap : Heap Nat} {head fst k : Nat} {nodes : List (Nat × Nat)}
    (linked : LinkedUpTo heap head nodes fst k) :
    let grown := (heap.malloc ⟨k + 1, none⟩).write fst ⟨((heap.malloc ⟨k + 1, none⟩).cell fst).val, some heap.fresh⟩
    LinkedUpTo grown head (nodes ++ [(fst, k)]) heap.fresh (k + 1) ∧ (grown.cell heap.fresh).next = none := by
  intro grown
  have old : fst ≠ heap.fresh := Nat.ne_of_lt linked.fresh
  have at_fst : grown.cell fst = ⟨k, some heap.fresh⟩ := by
    simp [grown, Heap.write, Heap.malloc, Heap.touch, old, linked.last]
  have at_new : grown.cell heap.fresh = ⟨k + 1, none⟩ := by
    simp [grown, Heap.write, Heap.malloc, Heap.touch, old.symm]
  have same : ∀ b ∈ nodes, grown.cell b.1 = heap.cell b.1 := by
    intro b member
    have before := linked.below b member
    have after : b.1 ≠ heap.fresh := Nat.ne_of_lt (Nat.lt_trans before linked.fresh)
    simp [grown, Heap.write, Heap.malloc, Heap.touch, Nat.ne_of_lt before, after]
  have shifted : LinkedUpTo grown head nodes fst k :=
    ⟨linked.seg.congr same, linked.below, linked.vals, by rw [at_fst], Nat.lt_succ_of_lt linked.fresh⟩
  have ended : (grown.cell fst).next = some heap.fresh := by rw [at_fst]
  obtain ⟨seg, vals⟩ := shifted.closed ended
  refine ⟨⟨seg, ?_, vals, by rw [at_new], Nat.lt_succ_self _⟩, by rw [at_new]⟩
  intro b member
  rcases List.mem_append.mp member with first | last
  · exact Nat.lt_trans (linked.below b first) linked.fresh
  · rw [List.mem_singleton.mp last]
    exact linked.fresh

theorem LinkedUpTo.formatNodes {heap : Heap Nat} {head fst k : Nat} {nodes : List (Nat × Nat)} (n : Nat)
    (linked : LinkedUpTo heap head nodes fst k) (ended : (heap.cell fst).next = none) :
    ∃ nodes', Seg (formatNodes n (k + 1) fst heap).cell (some head) nodes' none ∧
      nodes'.map Prod.snd = List.range (k + 1 + n) := by
  induction n generalizing heap fst k nodes with
  | zero => exact ⟨_, linked.closed ended⟩
  | succ n ih =>
      obtain ⟨linked', ended'⟩ := linked.extend
      obtain ⟨nodes', seg, vals⟩ := ih linked' ended'
      exact ⟨nodes', seg, by rw [vals]; congr 1; omega⟩

/-! ## The device after `initMemphy` -/

section Init

variable {mp : Memphy} {storage : Nat → Byte} {maxSize : Nat} {randomflg : Bool} {fpNext : Option Nat}

theorem linkedUpTo_first (heap : Heap Nat) (fpNext : Option Nat) :
    LinkedUpTo (heap.malloc ⟨0, fpNext⟩) heap.fresh [] heap.fresh 0 :=
  ⟨rfl, by simp, rfl, by simp [Heap.malloc], Nat.lt_succ_self _⟩

theorem initMemphy_list (mp : Memphy) (storage : Nat → Byte) (maxSize : Nat) (randomflg : Bool)
    (fpNext : Option Nat) :
    let after := initMemphy mp storage maxSize randomflg fpNext
    if maxSize / pagingPagesz = 0 then after.freeFpList = mp.freeFpList
    else after.freeFpList = some mp.fpNodes.fresh ∧
      after.fpNodes =
        formatNodes (maxSize / pagingPagesz - 1) 1 mp.fpNodes.fresh (mp.fpNodes.malloc ⟨0, fpNext⟩) := by
  simp only [initMemphy, memphyFormat]
  split
  · rfl
  · exact ⟨rfl, rfl⟩

theorem formatted_of_small (small : maxSize / pagingPagesz = 0) :
    (initMemphy mp storage maxSize randomflg fpNext).Formatted (maxSize / pagingPagesz) ↔ mp.freeFpList = none := by
  have list := initMemphy_list mp storage maxSize randomflg fpNext
  simp only [small, if_true] at list
  rw [Memphy.formatted_iff, list, small]
  refine ⟨fun ⟨nodes, seg, vals⟩ => ?_, fun none => ⟨[], none, rfl⟩⟩
  rw [List.range_zero, List.map_eq_nil_iff] at vals
  subst vals
  exact seg

theorem formatted_of_single (single : maxSize / pagingPagesz = 1) :
    (initMemphy mp storage maxSize randomflg fpNext).Formatted (maxSize / pagingPagesz) ↔ fpNext = none := by
  have list := initMemphy_list mp storage maxSize randomflg fpNext
  simp only [single, Nat.one_ne_zero, if_false] at list
  have next : ((mp.fpNodes.malloc ⟨0, fpNext⟩).cell mp.fpNodes.fresh).next = fpNext := by simp [Heap.malloc]
  rw [Memphy.formatted_iff, list.1, list.2, single]
  obtain ⟨seg, vals⟩ := (linkedUpTo_first mp.fpNodes fpNext).closed next
  constructor
  · rintro ⟨nodes, seg', vals'⟩
    have one : nodes.length = 1 := by simpa using congrArg List.length vals'
    obtain ⟨b, rfl⟩ := List.length_eq_one_iff.mp one
    obtain ⟨at_b, _, ended⟩ := seg'
    rw [← Option.some.inj at_b] at ended
    exact next.symm.trans ended
  · rintro none
    exact ⟨_, none ▸ seg, vals⟩

theorem formatted_of_more (more : 2 ≤ maxSize / pagingPagesz) :
    (initMemphy mp storage maxSize randomflg fpNext).Formatted (maxSize / pagingPagesz) := by
  have list := initMemphy_list mp storage maxSize randomflg fpNext
  obtain ⟨n, count⟩ : ∃ n, maxSize / pagingPagesz = n + 2 := ⟨maxSize / pagingPagesz - 2, by omega⟩
  simp only [count, Nat.succ_ne_zero, if_false] at list
  rw [Memphy.formatted_iff, list.1, list.2, count]
  obtain ⟨linked, ended⟩ := (linkedUpTo_first mp.fpNodes fpNext).extend
  obtain ⟨nodes, seg, vals⟩ := linked.formatNodes n ended
  exact ⟨nodes, seg, by rw [vals]; congr 1; omega⟩

/-- The list is whole exactly if the device has two frames or more, or the pointer that is not written reads null. -/
theorem initMemphy_formatted_iff (mp : Memphy) (storage : Nat → Byte) (maxSize : Nat) (randomflg : Bool)
    (fpNext : Option Nat) :
    (initMemphy mp storage maxSize randomflg fpNext).Formatted (maxSize / pagingPagesz) ↔
      (maxSize / pagingPagesz = 0 → mp.freeFpList = none) ∧ (maxSize / pagingPagesz = 1 → fpNext = none) := by
  by_cases small : maxSize / pagingPagesz = 0
  · rw [formatted_of_small small]
    refine ⟨fun none => ⟨fun _ => none, fun single => ?_⟩, fun holds => holds.1 small⟩
    rw [small] at single
    cases single
  · by_cases single : maxSize / pagingPagesz = 1
    · rw [formatted_of_single single]
      exact ⟨fun none => ⟨fun zero => absurd zero small, fun _ => none⟩, fun holds => holds.2 single⟩
    · have whole : (initMemphy mp storage maxSize randomflg fpNext).Formatted (maxSize / pagingPagesz) :=
        formatted_of_more ((Nat.two_le_iff _).mpr ⟨small, single⟩)
      exact ⟨fun _ => ⟨fun zero => absurd zero small, fun one => absurd one single⟩, fun _ => whole⟩

/-- The nodes hold the list of the device that the paging functions work on. -/
def Memphy.Represents (mp : Memphy) (device : Paging.Memphy) : Prop :=
  ∃ nodes, Seg mp.fpNodes.cell mp.freeFpList nodes none ∧ nodes.map Prod.snd = device.freeFpList

theorem Memphy.Formatted.represents
    (formatted : (initMemphy mp storage maxSize randomflg fpNext).Formatted (maxSize / pagingPagesz)) :
    (initMemphy mp storage maxSize randomflg fpNext).Represents (Paging.initMemphy storage maxSize randomflg) :=
  formatted.list

theorem Memphy.Represents.getFreefp {device : Paging.Memphy} (represents : mp.Represents device) :
    match Paging.memphyGetFreefp device with
    | none => memphyGetFreefp mp = (none, mp)
    | some (fpn, device') => (memphyGetFreefp mp).1 = some fpn ∧ (memphyGetFreefp mp).2.Represents device' := by
  obtain ⟨nodes, seg, vals⟩ := represents
  rw [Paging.memphyGetFreefp]
  cases nodes with
  | nil =>
      have ended : mp.freeFpList = none := seg
      rw [← vals]
      simp [memphyGetFreefp, ended]
  | cons b rest =>
      obtain ⟨at_b, val, tail⟩ := seg
      rw [← vals, memphyGetFreefp, at_b]
      exact ⟨congrArg some val, rest, tail, rfl⟩

end Init

def newMemphy (freeFpList : Option Nat) : Memphy where
  storage _ := 0
  maxsz := 0
  rdmflg := false
  cursor := 0
  freeFpList := freeFpList
  usedFpList := none
  fpNodes := { cell := fun _ => ⟨0, none⟩, live := fun _ => false, fresh := 1, misused := false }

/-- A device of one frame whose node points to some other block, and one of no frame whose struct does. -/
theorem newMemphy_not_formatted :
    getFreefps 2 (initMemphy (newMemphy none) (fun _ => 0) 256 true (some 0)) = [some 0, some 0] ∧
      ¬ (initMemphy (newMemphy none) (fun _ => 0) 256 true (some 0)).Formatted 1 ∧
      getFreefps 1 (initMemphy (newMemphy (some 0)) (fun _ => 0) 255 true none) = [some 0] ∧
      ¬ (initMemphy (newMemphy (some 0)) (fun _ => 0) 255 true none).Formatted 0 := by
  have single : getFreefps 2 (initMemphy (newMemphy none) (fun _ => 0) 256 true (some 0)) = [some 0, some 0] := by
    decide
  have none : getFreefps 1 (initMemphy (newMemphy (some 0)) (fun _ => 0) 255 true none) = [some 0] := by decide
  refine ⟨single, fun formatted => ?_, none, fun formatted => ?_⟩
  · exact absurd (single.symm.trans formatted.gets) (by decide)
  · exact absurd (none.symm.trans formatted.gets) (by decide)

end OsSim.Paging.FrameNodes
