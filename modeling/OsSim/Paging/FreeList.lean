import OsSim.Paging.Break

namespace OsSim.Paging
open NodeHeap

variable {h : Heap VmRg} {head : Option Nat} {nodes pre rest : List (Nat × VmRg)} {a : Nat} {v : VmRg}

abbrev dummyRg : VmRg := ⟨0, 0⟩

/-- The free region list: the nodes with their regions, and the dummy node at the end. -/
structure FreeList (h : Heap VmRg) (head : Option Nat) (nodes : List (Nat × VmRg)) (dummy : Nat) :
    Prop where
  holds : Holds h head (nodes ++ [(dummy, dummyRg)])
  nonempty : ∀ b ∈ nodes, b.2.rgStart < b.2.rgEnd

theorem initMm_freeList {block : MmStruct} (zero : ZeroBlock block) :
    FreeList (initMm block).rgNodes (initMm block).mmap.vmFreergList [] block.rgNodes.fresh := by
  have empty : Holds block.rgNodes block.mmap.vmFreergList [] :=
    ⟨zero.vmFreergList, by simp, by simp, by simp, zero.rgNodes⟩
  obtain ⟨holds, spare⟩ := empty.malloc ⟨⟨0, 0⟩, none⟩
  have linked := holds.link spare ⟨0, 0⟩
  refine ⟨?_, by simp⟩
  simpa [initMm, initVmRg, enlistVmRgNode, Heap.malloc] using linked

/-! ## Removing a node -/

theorem deleteVmRgNode_eq {b : Nat} {w : VmRg} {post : List (Nat × VmRg)}
    (holds : Holds h head (pre ++ (a, v) :: (b, w) :: post)) :
    deleteVmRgNode h a = (h.write a (h.cell b)).free b := by
  have alive_a : h.touch a = h := holds.touch (c := (a, v)) (by simp)
  have alive_b : h.touch b = h := holds.touch (c := (b, w)) (by simp)
  simp only [deleteVmRgNode, alive_a, holds.next, List.head?_cons, Option.map_some, alive_b]

/-- Removing a node: the regions of the others stay, in their order, and only the block after the node is
given up. -/
theorem FreeList.delete {dummy : Nat} (list : FreeList h head (pre ++ (a, v) :: rest) dummy) :
    ∃ nodes' dummy', FreeList (deleteVmRgNode h a) head nodes' dummy' ∧
      nodes'.map Prod.snd = pre.map Prod.snd ++ rest.map Prod.snd ∧
      (∀ c ∈ pre, c ∈ nodes') ∧ (∀ c ∈ rest.tail, c ∈ nodes') ∧
      ∀ c, Spare h (pre ++ (a, v) :: rest ++ [(dummy, dummyRg)]) c →
        Spare (deleteVmRgNode h a) (nodes' ++ [(dummy', dummyRg)]) c := by
  have holds := list.holds
  have nonempty := list.nonempty
  cases rest with
  | nil =>
      simp only [List.append_assoc, List.cons_append, List.nil_append] at holds ⊢
      refine ⟨pre, a, ⟨?_, fun b member => nonempty b (by simp [member])⟩, by simp,
        fun c member => member, by simp, ?_⟩
      · rw [deleteVmRgNode_eq holds]
        exact holds.absorb
      · intro c spare
        rw [deleteVmRgNode_eq holds]
        exact spare.absorb
  | cons b post =>
      obtain ⟨b, w⟩ := b
      simp only [List.append_assoc, List.cons_append] at holds ⊢
      refine ⟨pre ++ (a, w) :: post, dummy, ⟨?_, ?_⟩, by simp, ?_, ?_, ?_⟩
      · rw [deleteVmRgNode_eq holds]
        simpa using holds.absorb
      · intro c member
        rcases List.mem_append.mp member with first | second
        · exact nonempty c (by simp [first])
        · rcases List.mem_cons.mp second with rfl | third
          · exact nonempty (b, w) (by simp)
          · exact nonempty c (by simp [third])
      · intro c member
        simp [member]
      · intro c member
        exact List.mem_append_right _ (List.mem_cons_of_mem _ member)
      · intro c spare
        rw [deleteVmRgNode_eq holds]
        simpa using spare.absorb

theorem FreeList.setVal {dummy : Nat} (list : FreeList h head (pre ++ (a, v) :: rest) dummy) {w : VmRg}
    (proper : w.rgStart < w.rgEnd) :
    FreeList (h.write a ⟨w, (h.cell a).next⟩) head (pre ++ (a, w) :: rest) dummy := by
  have holds := list.holds
  simp only [List.append_assoc, List.cons_append] at holds
  refine ⟨by simpa using holds.setVal w, ?_⟩
  intro c member
  rcases List.mem_append.mp member with first | second
  · exact list.nonempty c (by simp [first])
  · rcases List.mem_cons.mp second with rfl | third
    · exact proper
    · exact list.nonempty c (by simp [third])

theorem FreeList.malloc {dummy : Nat} (list : FreeList h head nodes dummy) (n : Node VmRg) :
    FreeList (h.malloc n) head nodes dummy ∧
      Spare (h.malloc n) (nodes ++ [(dummy, dummyRg)]) h.fresh := by
  obtain ⟨holds, spare⟩ := list.holds.malloc n
  exact ⟨⟨holds, list.nonempty⟩, spare⟩

theorem FreeList.link {dummy c : Nat} (list : FreeList h head nodes dummy)
    (spare : Spare h (nodes ++ [(dummy, dummyRg)]) c) (proper : v.rgStart < v.rgEnd) :
    FreeList (h.write c ⟨v, head⟩) (some c) ((c, v) :: nodes) dummy := by
  refine ⟨list.holds.link spare v, ?_⟩
  intro b member
  rcases List.mem_cons.mp member with rfl | inside
  · exact proper
  · exact list.nonempty b inside

theorem FreeList.val {dummy : Nat} (list : FreeList h head (pre ++ (a, v) :: rest) dummy) :
    (h.cell a).val = v := by
  have holds := list.holds
  simp only [List.append_assoc, List.cons_append] at holds
  exact holds.val

theorem FreeList.touch {dummy : Nat} (list : FreeList h head nodes dummy) {c : Nat × VmRg}
    (member : c ∈ nodes) : h.touch c.1 = h :=
  list.holds.touch (List.mem_append_left _ member)

theorem FreeList.at_end {dummy : Nat} (list : FreeList h head nodes dummy) :
    h.touch dummy = h ∧ (h.cell dummy).val = dummyRg ∧ (h.cell dummy).next = none :=
  ⟨list.holds.touch (c := (dummy, dummyRg)) (by simp), list.holds.val, list.holds.next⟩

theorem linkNewNode_eq {mm : MmStruct} {first : Nat} (atHead : mm.mmap.vmFreergList = some first) (h : Heap VmRg)
    (node : Nat) (rg : VmRg) (g : Garbage) :
    linkNewNode mm h node rg g =
      { mm with
        mmap := { mm.mmap with vmFreergList := some node }
        rgNodes := h.write node ⟨rg, mm.mmap.vmFreergList⟩ } := by
  simp [linkNewNode, atHead]

/-! ## The walk of `enlistVmFreergList` -/

/-- The last node whose region meets `edge`, or `mark`. -/
def markLast (edge : VmRg → Prop) [DecidablePred edge] :
    List (Nat × VmRg) → Option Nat → Option Nat
  | [], mark => mark
  | (walk, rg) :: rest, mark => markLast edge rest (if edge rg then some walk else mark)

theorem markLast_cases (edge : VmRg → Prop) [DecidablePred edge] (nodes : List (Nat × VmRg))
    (mark : Option Nat) :
    (markLast edge nodes mark = mark ∧ ∀ b ∈ nodes, ¬ edge b.2) ∨
      ∃ b ∈ nodes, edge b.2 ∧ markLast edge nodes mark = some b.1 := by
  induction nodes generalizing mark with
  | nil => exact .inl ⟨rfl, by simp⟩
  | cons b rest ih =>
      obtain ⟨walk, rg⟩ := b
      rw [markLast]
      rcases ih (if edge rg then some walk else mark) with ⟨same, others⟩ | ⟨c, member, meets, last⟩
      · by_cases meets : edge rg
        · exact .inr ⟨(walk, rg), by simp, meets, by rw [same, if_pos meets]⟩
        · refine .inl ⟨by rw [same, if_neg meets], ?_⟩
          intro c member
          rcases List.mem_cons.mp member with rfl | inside
          · exact meets
          · exact others c inside
      · exact .inr ⟨c, List.mem_cons_of_mem _ member, meets, last⟩

/-- The walk stops at the dummy node and marks the last node on each side of the region. -/
theorem findMerge_eq (rgElmt : VmRg) {dummy : Nat} {done todo : List (Nat × VmRg)} {fuel : Nat}
    (merge : Merge) (list : FreeList h head (done ++ todo) dummy) (enough : todo.length < fuel) :
    findMerge rgElmt fuel h ((todo ++ [(dummy, dummyRg)]).head?.map Prod.fst) merge =
      (h, ⟨markLast (fun rg => rgElmt.rgEnd = rg.rgStart) todo merge.needDecBase,
        markLast (fun rg => rgElmt.rgStart = rg.rgEnd) todo merge.needIncLimit⟩) := by
  induction todo generalizing done fuel merge with
  | nil =>
      obtain ⟨fuel, rfl⟩ := Nat.exists_eq_add_one.mpr (Nat.zero_lt_of_lt enough)
      obtain ⟨alive, val, _⟩ := list.at_end
      simp [findMerge, alive, val, markLast]
  | cons b rest ih =>
      obtain ⟨walk, rg⟩ := b
      obtain ⟨fuel, rfl⟩ := Nat.exists_eq_add_one.mpr (Nat.zero_lt_of_lt enough)
      have inside : (walk, rg) ∈ done ++ (walk, rg) :: rest := by simp
      have alive := list.touch inside
      have proper := list.nonempty (walk, rg) inside
      have holds := list.holds
      simp only [List.append_assoc, List.cons_append] at holds
      have shifted : FreeList h head (done ++ [(walk, rg)] ++ rest) dummy := by simpa using list
      have later := ih ⟨if rgElmt.rgEnd = rg.rgStart then some walk else merge.needDecBase,
        if rgElmt.rgStart = rg.rgEnd then some walk else merge.needIncLimit⟩ shifted
        (by simp at enough; omega)
      dsimp only at alive proper
      simp only [List.cons_append, List.head?_cons, Option.map_some, findMerge, alive, holds.val,
        holds.next]
      rw [if_neg (by omega)]
      exact later

theorem FreeList.head_eq {dummy : Nat} (list : FreeList h head nodes dummy) :
    head = (nodes ++ [(dummy, dummyRg)]).head?.map Prod.fst := by
  have seg := list.holds.seg
  cases nodes with
  | nil => exact seg.1
  | cons b rest => exact seg.1

theorem FreeList.length_lt {dummy : Nat} (list : FreeList h head nodes dummy) :
    nodes.length < h.fresh := by
  have bound := list.holds.length_le
  simp at bound
  omega

/-! ## The walk of `getFreeVmrgArea` -/

/-- What taking `size` bytes from the node `a` leaves. -/
def takeNode (h : Heap VmRg) (a : Nat) (v : VmRg) (size : Nat) : Heap VmRg :=
  if v.rgStart + size < v.rgEnd then
    h.write a ⟨{ v with rgStart := v.rgStart + size }, (h.cell a).next⟩
  else deleteVmRgNode h a

/-- The walk takes the first node that passes the comparison, which is one of the sums as machine words. -/
theorem takeFit_first {size : Nat} (positive : 0 < size) (word : size < 2 ^ 64) {dummy : Nat}
    {done todo : List (Nat × VmRg)} {fuel : Nat} (newrg : VmRg)
    (list : FreeList h head (done ++ todo) dummy) (enough : todo.length < fuel) :
    (takeFit size fuel h ((todo ++ [(dummy, dummyRg)]).head?.map Prod.fst) newrg = (newrg, h) ∧
        ∀ b ∈ todo, b.2.rgEnd < ulong (b.2.rgStart + size)) ∨
      ∃ pre a v post, todo = pre ++ (a, v) :: post ∧
        (∀ b ∈ pre, b.2.rgEnd < ulong (b.2.rgStart + size)) ∧ ulong (v.rgStart + size) ≤ v.rgEnd ∧
        takeFit size fuel h ((todo ++ [(dummy, dummyRg)]).head?.map Prod.fst) newrg =
          (⟨v.rgStart, ulong (v.rgStart + size)⟩,
            if ulong (v.rgStart + size) < v.rgEnd then
              h.write a ⟨{ v with rgStart := ulong (v.rgStart + size) }, (h.cell a).next⟩
            else deleteVmRgNode h a) := by
  induction todo generalizing done fuel with
  | nil =>
      obtain ⟨fuel, rfl⟩ := Nat.exists_eq_add_one.mpr (Nat.zero_lt_of_lt enough)
      obtain ⟨alive, val, next⟩ := list.at_end
      have limit : ulong ((0 : Nat) + (size : Int)) = size := by
        rw [ulong_add (by omega), Nat.zero_add]
      have tooSmall : ¬ size ≤ 0 := by omega
      refine .inl ⟨?_, by simp⟩
      simp only [List.nil_append, List.head?_cons, Option.map_some, takeFit, alive,
        val, limit, if_neg tooSmall, next]
  | cons b rest ih =>
      obtain ⟨rgit, rg⟩ := b
      obtain ⟨fuel, rfl⟩ := Nat.exists_eq_add_one.mpr (Nat.zero_lt_of_lt enough)
      have inside : (rgit, rg) ∈ done ++ (rgit, rg) :: rest := by simp
      have alive := list.touch inside
      have holds := list.holds
      simp only [List.append_assoc, List.cons_append] at holds
      dsimp only at alive
      simp only [List.cons_append, List.head?_cons, Option.map_some, takeFit, alive, holds.val,
        holds.next]
      by_cases fits : ulong (rg.rgStart + size) ≤ rg.rgEnd
      · refine .inr ⟨[], rgit, rg, rest, rfl, by simp, fits, ?_⟩
        rw [if_pos fits, holds.next]
        split <;> rfl
      · have shifted : FreeList h head (done ++ [(rgit, rg)] ++ rest) dummy := by simpa using list
        rw [if_neg fits]
        rcases ih shifted (by simp at enough; omega) with ⟨same, tooSmall⟩ | ⟨pre, a, v, post, split, tooSmall, taken⟩
        · exact .inl ⟨same, List.forall_mem_cons.mpr ⟨Nat.lt_of_not_le fits, tooSmall⟩⟩
        · exact .inr ⟨(rgit, rg) :: pre, a, v, post, by rw [split]; rfl,
            List.forall_mem_cons.mpr ⟨Nat.lt_of_not_le fits, tooSmall⟩, taken⟩

theorem takeFit_cases {size : Nat} (positive : 0 < size) (word : size < 2 ^ 64) {dummy : Nat}
    {done todo : List (Nat × VmRg)} {fuel : Nat} (newrg : VmRg)
    (list : FreeList h head (done ++ todo) dummy) (enough : todo.length < fuel)
    (small : ∀ b ∈ done ++ todo, b.2.rgStart + size < 2 ^ 64) :
    (takeFit size fuel h ((todo ++ [(dummy, dummyRg)]).head?.map Prod.fst) newrg = (newrg, h) ∧
        ∀ b ∈ todo, b.2.rgEnd < b.2.rgStart + size) ∨
      ∃ pre a v post, todo = pre ++ (a, v) :: post ∧ v.rgStart + size ≤ v.rgEnd ∧
        takeFit size fuel h ((todo ++ [(dummy, dummyRg)]).head?.map Prod.fst) newrg =
          (⟨v.rgStart, v.rgStart + size⟩, takeNode h a v size) := by
  have limit : ∀ b ∈ todo, ulong ((b.2.rgStart : Int) + size) = b.2.rgStart + size :=
    fun b member => ulong_add (small b (List.mem_append_right _ member))
  rcases takeFit_first positive word newrg list enough with
    ⟨same, tooSmall⟩ | ⟨pre, a, v, post, split, _, fits, taken⟩
  · refine .inl ⟨same, fun b member => ?_⟩
    rw [← limit b member]
    exact tooSmall b member
  · have limit_a := limit (a, v) (by rw [split]; simp)
    dsimp only at limit_a
    rw [limit_a] at fits taken
    exact .inr ⟨pre, a, v, post, split, fits, taken⟩

/-- What is left of a region of which the first `size` bytes are taken. -/
def VmRg.left (rg : VmRg) (size : Nat) : List VmRg :=
  if rg.rgStart + size < rg.rgEnd then [⟨rg.rgStart + size, rg.rgEnd⟩] else []

theorem VmRg.left_cases {rg : VmRg} {size : Nat} (fits : rg.rgStart + size ≤ rg.rgEnd) :
    rg.left size = [⟨rg.rgStart + size, rg.rgEnd⟩] ∨ rg.left size = [] ∧ rg.rgStart + size = rg.rgEnd := by
  by_cases more : rg.rgStart + size < rg.rgEnd
  · exact .inl (if_pos more)
  · exact .inr ⟨if_neg more, by omega⟩

theorem FreeList.takeNode {dummy : Nat} (list : FreeList h head (pre ++ (a, v) :: rest) dummy)
    (size : Nat) :
    ∃ nodes' dummy', FreeList (takeNode h a v size) head nodes' dummy' ∧
      nodes'.map Prod.snd = pre.map Prod.snd ++ v.left size ++ rest.map Prod.snd := by
  rw [OsSim.Paging.takeNode, VmRg.left]
  by_cases more : v.rgStart + size < v.rgEnd
  · rw [if_pos more, if_pos more]
    exact ⟨_, dummy, list.setVal more, by simp⟩
  · rw [if_neg more, if_neg more]
    obtain ⟨nodes', dummy', list', vals, _⟩ := list.delete
    exact ⟨nodes', dummy', list', by simpa using vals⟩

end OsSim.Paging
