import Mathlib.Data.List.Chain
import OsSim.Lib.Tiling
import OsSim.Paging.FreeList

namespace OsSim.Paging
open NodeHeap Tiling Transition

def VmRg.covers (rg : VmRg) (x : Nat) : Nat := if rg.rgStart ≤ x ∧ x < rg.rgEnd then 1 else 0

theorem VmRg.covers_pos_iff {rg : VmRg} {x : Nat} :
    0 < rg.covers x ↔ rg.rgStart ≤ x ∧ x < rg.rgEnd := by
  rw [VmRg.covers]
  split <;> simp_all

theorem covers_split {first middle last : Nat} (lower : first ≤ middle) (upper : middle ≤ last)
    (x : Nat) :
    VmRg.covers ⟨first, last⟩ x = VmRg.covers ⟨first, middle⟩ x + VmRg.covers ⟨middle, last⟩ x := by
  simp only [VmRg.covers]
  split_ifs <;> omega

theorem covers_of_empty {rg : VmRg} (empty : rg.rgEnd ≤ rg.rgStart) (x : Nat) : rg.covers x = 0 := by
  rw [VmRg.covers]
  split_ifs <;> omega

/-! ## The regions of a process -/

/-- The regions of the registers and, behind them, the free regions. -/
def regionFamily (mm : MmStruct) (free : List VmRg) : List VmRg :=
  (List.range pagingMaxSymtblSz).map mm.symrgtbl ++ free

/-- The registers, the free nodes and the regions whose registers were allocated again divide the area up to the
break among them. -/
structure Regions (mm : MmStruct) (nodes : List (Nat × VmRg)) (dummy : Nat) (lost : List VmRg) : Prop where
  list : FreeList mm.rgNodes mm.mmap.vmFreergList nodes dummy
  aligned : mm.mmap.Aligned
  vmStart : mm.mmap.vmStart = 0
  below : mm.mmap.sbrk < 2 ^ pagingCpuBusWidth
  tiles : Tiles VmRg.covers (regionFamily mm (nodes.map Prod.snd) ++ lost) (· < mm.mmap.sbrk)
  apart : ∀ rg ∈ nodes.map Prod.snd, ∀ rg' ∈ nodes.map Prod.snd, rg.rgEnd ≠ rg'.rgStart

section Regions

variable {mm : MmStruct} {nodes : List (Nat × VmRg)} {dummy : Nat} {lost : List VmRg}

theorem Regions.total (regions : Regions mm nodes dummy lost) (x : Nat) :
    count VmRg.covers ((List.range pagingMaxSymtblSz).map mm.symrgtbl) x +
      count VmRg.covers (nodes.map Prod.snd) x + count VmRg.covers lost x =
        if x < mm.mmap.sbrk then 1 else 0 := by
  rw [← count_append, ← count_append]
  exact regions.tiles x

/-- Empty regions need not be counted as lost. -/
theorem Regions.forget {empty : List VmRg} (regions : Regions mm nodes dummy (empty ++ lost))
    (nothing : ∀ rg ∈ empty, rg.rgEnd ≤ rg.rgStart) : Regions mm nodes dummy lost := by
  obtain ⟨list, aligned, vmStart, below, tiles, apart⟩ := regions
  refine ⟨list, aligned, vmStart, below, fun x => ?_, apart⟩
  have uncovered : ¬ 0 < count VmRg.covers empty x := by
    rw [count_pos_iff]
    rintro ⟨rg, member, covered⟩
    rw [covers_of_empty (nothing rg member)] at covered
    exact Nat.lt_irrefl 0 covered
  have total := tiles x
  rw [count_append, count_append] at total
  rw [count_append]
  omega

theorem Regions.node_le (regions : Regions mm nodes dummy lost) {b : Nat × VmRg} (member : b ∈ nodes) :
    b.2.rgEnd ≤ mm.mmap.sbrk := by
  have proper := regions.list.nonempty b member
  have inside := regions.tiles.inside
    (List.mem_append_left _ (List.mem_append_right _ (List.mem_map.mpr ⟨b, member, rfl⟩)))
    (VmRg.covers_pos_iff.mpr ⟨show b.2.rgStart ≤ b.2.rgEnd - 1 by omega, by omega⟩)
  omega

theorem count_registers (mm : MmStruct) {rgid : Nat} (register : rgid < pagingMaxSymtblSz) (rg : VmRg) (x : Nat) :
    count VmRg.covers
        ((List.range pagingMaxSymtblSz).map (Function.update mm.symrgtbl rgid rg)) x +
      VmRg.covers (mm.symrgtbl rgid) x =
    count VmRg.covers ((List.range pagingMaxSymtblSz).map mm.symrgtbl) x +
      VmRg.covers rg x :=
  count_update List.nodup_range (List.mem_range.mpr register) mm.symrgtbl rg x

theorem initMm_regions {block : MmStruct} (zero : ZeroBlock block) :
    Regions (initMm block) [] block.rgNodes.fresh [] := by
  refine ⟨initMm_freeList zero, initMm_aligned block, rfl, Nat.two_pow_pos _, ?_, by simp⟩
  intro x
  have none : ∀ rg ∈ regionFamily (initMm block) [], rg = ⟨0, 0⟩ := by
    intro rg member
    simp only [regionFamily, List.append_nil, List.mem_map, List.mem_range] at member
    obtain ⟨rgid, register, rfl⟩ := member
    exact zero.symrgtbl rgid register
  have uncovered : ¬ 0 < Tiling.count VmRg.covers (regionFamily (initMm block) []) x := by
    rw [count_pos_iff]
    rintro ⟨rg, member, covered⟩
    rw [none rg member, VmRg.covers_pos_iff] at covered
    exact Nat.not_lt_zero x covered.2
  have limit : ¬ x < (initMm block).mmap.sbrk := Nat.not_lt_zero x
  rw [List.map_nil, List.append_nil, if_neg limit]
  omega

/-! ## Allocating -/

theorem Regions.getFreeVmrgArea_cases (regions : Regions mm nodes dummy lost) {size : Nat}
    (positive : 0 < size) (word : size < 2 ^ 31) :
    (movesBreak mm size ∧ (getFreeVmrgArea mm size).2.2.rgNodes = mm.rgNodes) ∨
      ∃ pre a v post, nodes = pre ++ (a, v) :: post ∧ v.rgStart + size ≤ v.rgEnd ∧
        getFreeVmrgArea mm size = (0, ⟨v.rgStart, v.rgStart + size⟩,
          { mm with rgNodes := takeNode mm.rgNodes a v size }) := by
  have list : FreeList mm.rgNodes mm.mmap.vmFreergList ([] ++ nodes) dummy := regions.list
  have below := regions.below
  simp only [pagingCpuBusWidth] at below
  have small : ∀ b ∈ [] ++ nodes, b.2.rgStart + size < 2 ^ 64 := by
    intro b member
    have limit := regions.node_le member
    have proper := list.nonempty b member
    omega
  have mark : ulong (-1) = 2 ^ 64 - 1 := by decide
  obtain ⟨first, atHead⟩ : ∃ first, mm.mmap.vmFreergList = some first := by
    rw [regions.list.head_eq]
    cases nodes <;> simp
  have found := takeFit_cases positive (by omega) ⟨ulong (-1), ulong (-1)⟩ list list.length_lt small
  rw [← regions.list.head_eq, atHead] at found
  rcases found with ⟨same, _⟩ | ⟨pre, a, v, post, split, fits, taken⟩
  · have result : getFreeVmrgArea mm size =
        (-1, ⟨ulong (-1), ulong (-1)⟩, { mm with rgNodes := mm.rgNodes }) := by
      simp only [getFreeVmrgArea, atHead, same, if_true]
    refine .inl ⟨?_, by rw [result]⟩
    rw [movesBreak, result]
    exact show (-1 : Int) ≠ 0 by decide
  · refine .inr ⟨pre, a, v, post, split, fits, ?_⟩
    have limit := regions.node_le (b := (a, v)) (by simp [split])
    have regular : ¬ v.rgStart = ulong (-1) := by
      rw [mark]
      dsimp only at limit
      omega
    simp only [getFreeVmrgArea, atHead, taken, if_neg regular]

theorem Regions.no_end_inside {pre post : List (Nat × VmRg)} {a : Nat} {v rg : VmRg}
    (regions : Regions mm (pre ++ (a, v) :: post) dummy lost)
    (member : rg ∈ (pre ++ (a, v) :: post).map Prod.snd) {edge : Nat} (after : v.rgStart < edge)
    (before : edge < v.rgEnd) : rg.rgEnd ≠ edge := by
  rintro rfl
  obtain ⟨b, inside, rfl⟩ := List.mem_map.mp member
  have proper := regions.list.nonempty b inside
  have total := regions.total (b.2.rgEnd - 1)
  have here : 0 < v.covers (b.2.rgEnd - 1) := VmRg.covers_pos_iff.mpr ⟨by omega, by omega⟩
  have other : b ∈ pre ∨ b ∈ post := by
    rcases List.mem_append.mp inside with first | second
    · exact .inl first
    · rcases List.mem_cons.mp second with rfl | last
      · exact absurd before (Nat.lt_irrefl _)
      · exact .inr last
  have again : 0 < b.2.covers (b.2.rgEnd - 1) := VmRg.covers_pos_iff.mpr ⟨by omega, by omega⟩
  have twice : 0 < count VmRg.covers (pre.map Prod.snd) (b.2.rgEnd - 1) +
      count VmRg.covers (post.map Prod.snd) (b.2.rgEnd - 1) := by
    rcases other with first | last
    · exact Nat.add_pos_left (count_pos_iff.mpr ⟨b.2, List.mem_map.mpr ⟨b, first, rfl⟩, again⟩) _
    · exact Nat.add_pos_right _ (count_pos_iff.mpr ⟨b.2, List.mem_map.mpr ⟨b, last, rfl⟩, again⟩)
  rw [List.map_append, List.map_cons, count_append, count_cons] at total
  dsimp only at total
  split at total <;> omega

/-- `alloc` keeps the division; the old region of the register is lost. -/
theorem Regions.after_alloc {caller : Caller} (regions : Regions caller.mm nodes dummy lost) {size rgid : Nat}
    (register : rgid < pagingMaxSymtblSz) (positive : 0 < size) (word : size < 2 ^ 31)
    (within : movesBreak caller.mm size → caller.mm.mmap.sbrk + size < 2 ^ pagingCpuBusWidth) :
    ∃ nodes' dummy', Regions (alloc caller rgid size).2.2.mm nodes' dummy' (caller.mm.symrgtbl rgid :: lost) := by
  rcases regions.getFreeVmrgArea_cases positive word with
    ⟨moves, kept⟩ | ⟨pre, a, v, post, split, fits, taken⟩
  · obtain ⟨mmap, symrgtbl, rgNodes⟩ := alloc_of_moves regions.aligned moves (within moves).le rgid
    refine ⟨nodes, dummy, ?_, ?_, ?_, ?_, ?_, regions.apart⟩
    · rw [rgNodes, kept, mmap]
      exact regions.list
    · rw [mmap]
      exact aligned_extend regions.aligned (within moves).le
    · rw [mmap]
      exact regions.vmStart
    · rw [mmap]
      exact within moves
    · intro x
      have before := regions.total x
      have exchanged := count_registers caller.mm register
        ⟨caller.mm.mmap.sbrk, caller.mm.mmap.sbrk + size⟩ x
      have grown : VmRg.covers ⟨caller.mm.mmap.sbrk, caller.mm.mmap.sbrk + size⟩ x =
          if caller.mm.mmap.sbrk ≤ x ∧ x < caller.mm.mmap.sbrk + size then 1 else 0 := rfl
      rw [regionFamily, count_append, count_append, count_cons, symrgtbl, mmap]
      rw [grown] at exchanged
      dsimp only at exchanged ⊢
      split_ifs at before exchanged ⊢ <;> omega
  · subst split
    have reuses : ¬ movesBreak caller.mm size := by
      rw [movesBreak, taken]
      exact not_not.mpr rfl
    have list := regions.list
    obtain ⟨nodes', dummy', list', vals⟩ := list.takeNode size
    have shape := VmRg.left_cases fits
    generalize v.left size = left at vals shape
    rw [alloc_of_reuse reuses, taken]
    dsimp only
    have leftEnd : ∀ rg ∈ left, rg = ⟨v.rgStart + size, v.rgEnd⟩ := by
      rcases shape with rfl | ⟨rfl, _⟩ <;> simp
    have leftCount : ∀ x, count VmRg.covers left x =
        VmRg.covers ⟨v.rgStart + size, v.rgEnd⟩ x := by
      intro x
      rcases shape with rfl | ⟨rfl, used⟩
      · simp
      · rw [covers_of_empty (by dsimp only; omega), count_nil]
    have old : ∀ x, count VmRg.covers ((pre ++ (a, v) :: post).map Prod.snd) x =
        count VmRg.covers (nodes'.map Prod.snd) x +
          VmRg.covers ⟨v.rgStart, v.rgStart + size⟩ x := by
      intro x
      have whole : VmRg.covers v x = VmRg.covers ⟨v.rgStart, v.rgStart + size⟩ x +
          VmRg.covers ⟨v.rgStart + size, v.rgEnd⟩ x :=
        covers_split (by omega) fits x
      rw [vals, List.map_append, List.map_cons]
      simp only [count_append, count_cons, leftCount]
      omega
    refine ⟨nodes', dummy', list', regions.aligned, regions.vmStart, regions.below, ?_, ?_⟩
    · intro x
      have before := regions.total x
      have exchanged := count_registers caller.mm register
        ⟨v.rgStart, v.rgStart + size⟩ x
      rw [regionFamily, count_append, count_append, count_cons, setSymrg_symrgtbl, setSymrg_mmap]
      rw [old x] at before
      dsimp only
      omega
    · -- what is left of the node begins inside the old node, where no other free region can end
      have oldEnd : ∀ rg ∈ nodes'.map Prod.snd, ∃ rg' ∈ (pre ++ (a, v) :: post).map Prod.snd,
          rg'.rgEnd = rg.rgEnd := by
        intro rg member
        rw [vals, List.mem_append, List.mem_append] at member
        rcases member with (first | middle) | last
        · exact ⟨rg, by simp [first], rfl⟩
        · exact ⟨v, by simp, by rw [leftEnd rg middle]⟩
        · exact ⟨rg, by simp [last], rfl⟩
      intro rg member rg' member'
      obtain ⟨old, oldMember, sameEnd⟩ := oldEnd rg member
      rw [← sameEnd]
      have member'' := member'
      rw [vals, List.mem_append, List.mem_append] at member''
      rcases member'' with (first | middle) | last
      · exact regions.apart old oldMember rg' (by simp [first])
      · have rest := leftEnd rg' middle
        obtain ⟨b, inside, rfl⟩ := List.mem_map.mp member'
        have proper := list'.nonempty b inside
        rw [rest] at proper ⊢
        dsimp only at proper ⊢
        exact regions.no_end_inside oldMember (by omega) proper
      · exact regions.apart old oldMember rg' (by simp [last])

/-! ## Freeing -/

/-- The free regions take in `rg`: it is merged with the regions `merged` into one piece, which meets none of
the others. -/
def Absorbs (rg : VmRg) (old new : List VmRg) : Prop :=
  ∃ merged piece others, old.Perm (merged ++ others) ∧ new.Perm (piece :: others) ∧
    (∀ x, VmRg.covers piece x = VmRg.covers rg x + count VmRg.covers merged x) ∧
    ∀ c ∈ others, c.rgEnd ≠ piece.rgStart ∧ piece.rgEnd ≠ c.rgStart

theorem Regions.after_absorb (regions : Regions mm nodes dummy lost) {rgid : Nat}
    (register : rgid < pagingMaxSymtblSz) {h : Heap VmRg} {head : Option Nat}
    {nodes' : List (Nat × VmRg)} {dummy' : Nat} (list : FreeList h head nodes' dummy')
    (absorbs : Absorbs (mm.symrgtbl rgid) (nodes.map Prod.snd) (nodes'.map Prod.snd))
    {mm' : MmStruct} (mmap : mm'.mmap = { mm.mmap with vmFreergList := head })
    (symrgtbl : mm'.symrgtbl = Function.update mm.symrgtbl rgid ⟨0, 0⟩)
    (rgNodes : mm'.rgNodes = h) : Regions mm' nodes' dummy' lost := by
  obtain ⟨merged, piece, others, old, new, covered, edges⟩ := absorbs
  have proper : ∀ rg ∈ nodes'.map Prod.snd, rg.rgStart < rg.rgEnd := by
    intro rg member
    obtain ⟨b, inside, rfl⟩ := List.mem_map.mp member
    exact list.nonempty b inside
  refine ⟨?_, ?_, ?_, ?_, ?_, ?_⟩
  · rw [rgNodes, mmap]
    exact list
  · rw [mmap]
    exact ⟨regions.aligned.limit, regions.aligned.inside, regions.aligned.below⟩
  · rw [mmap]
    exact regions.vmStart
  · rw [mmap]
    exact regions.below
  · intro x
    have before := regions.total x
    have exchanged := count_registers mm register ⟨0, 0⟩ x
    have zero : VmRg.covers ⟨0, 0⟩ x = 0 := covers_of_empty (Nat.le_refl 0) x
    rw [zero] at exchanged
    rw [count_perm old, count_append] at before
    rw [regionFamily, count_append, count_append, symrgtbl, mmap, count_perm new, count_cons, covered]
    dsimp only
    omega
  · intro rg member rg' member'
    rcases List.mem_cons.mp (new.mem_iff.mp member) with rfl | other
    · rcases List.mem_cons.mp (new.mem_iff.mp member') with rfl | other'
      · exact Nat.ne_of_gt (proper _ member)
      · exact (edges rg' other').2
    · rcases List.mem_cons.mp (new.mem_iff.mp member') with rfl | other'
      · exact (edges rg other).1
      · exact regions.apart rg (old.mem_iff.mpr (List.mem_append_right _ other)) rg'
          (old.mem_iff.mpr (List.mem_append_right _ other'))

/-- No node that begins where `rg` ends stands directly before a node that ends where `rg` begins. -/
def UnlinkedNeighbours (rg : VmRg) (nodes : List (Nat × VmRg)) : Prop :=
  nodes.IsChain fun u d => ¬ (rg.rgEnd = u.2.rgStart ∧ rg.rgStart = d.2.rgEnd)

instance (rg : VmRg) (nodes : List (Nat × VmRg)) : Decidable (UnlinkedNeighbours rg nodes) :=
  inferInstanceAs (Decidable (List.IsChain _ _))

/-- The walk over the list marks a node that begins where `rg` ends and one that ends where it begins. -/
theorem Regions.marks (regions : Regions mm nodes dummy lost) (rg : VmRg) :
    findMerge rg mm.rgNodes.fresh mm.rgNodes mm.mmap.vmFreergList ⟨none, none⟩ =
      (mm.rgNodes, ⟨markLast (fun v => rg.rgEnd = v.rgStart) nodes none,
        markLast (fun v => rg.rgStart = v.rgEnd) nodes none⟩) := by
  have list : FreeList mm.rgNodes mm.mmap.vmFreergList ([] ++ nodes) dummy := regions.list
  have walked := findMerge_eq rg ⟨none, none⟩ list list.length_lt
  rwa [← regions.list.head_eq] at walked

theorem Regions.enlist_alone (regions : Regions mm nodes dummy lost) {rg : VmRg}
    (proper : rg.rgStart < rg.rgEnd) (noUp : ∀ b ∈ nodes, rg.rgEnd ≠ b.2.rgStart)
    (noDown : ∀ b ∈ nodes, rg.rgStart ≠ b.2.rgEnd) (next : Option Nat) :
    FreeList ((mm.rgNodes.malloc ⟨rg, next⟩).write mm.rgNodes.fresh ⟨rg, mm.mmap.vmFreergList⟩)
        (some mm.rgNodes.fresh) ((mm.rgNodes.fresh, rg) :: nodes) dummy ∧
      Absorbs rg (nodes.map Prod.snd) (((mm.rgNodes.fresh, rg) :: nodes).map Prod.snd) := by
  obtain ⟨list, spare⟩ := regions.list.malloc ⟨rg, next⟩
  refine ⟨list.link spare proper, [], rg, nodes.map Prod.snd, by simp, by simp, by simp, ?_⟩
  intro c member
  obtain ⟨b, inside, rfl⟩ := List.mem_map.mp member
  exact ⟨Ne.symm (noDown b inside), noUp b inside⟩

theorem Regions.enlist_up {pre post : List (Nat × VmRg)} {u : Nat} {vu rg : VmRg}
    (regions : Regions mm (pre ++ (u, vu) :: post) dummy lost) (proper : rg.rgStart < rg.rgEnd)
    (above : rg.rgEnd = vu.rgStart)
    (noDown : ∀ b ∈ pre ++ (u, vu) :: post, rg.rgStart ≠ b.2.rgEnd) :
    FreeList (mm.rgNodes.write u ⟨{ vu with rgStart := rg.rgStart }, (mm.rgNodes.cell u).next⟩)
        mm.mmap.vmFreergList (pre ++ (u, { vu with rgStart := rg.rgStart }) :: post) dummy ∧
      Absorbs rg ((pre ++ (u, vu) :: post).map Prod.snd)
        ((pre ++ (u, { vu with rgStart := rg.rgStart }) :: post).map Prod.snd) := by
  have nonempty := regions.list.nonempty (u, vu) (by simp)
  dsimp only at nonempty
  refine ⟨regions.list.setVal (by dsimp only; omega), [vu], { vu with rgStart := rg.rgStart },
    (pre ++ post).map Prod.snd, by simp, by simp, ?_, ?_⟩
  · intro x
    have whole : VmRg.covers ⟨rg.rgStart, vu.rgEnd⟩ x =
        VmRg.covers rg x + VmRg.covers ⟨rg.rgEnd, vu.rgEnd⟩ x :=
      covers_split (by omega) (by omega) x
    have upper : VmRg.covers ⟨rg.rgEnd, vu.rgEnd⟩ x = VmRg.covers vu x := by rw [above]
    rw [count_cons, count_nil]
    omega
  · intro c member
    obtain ⟨b, inside, rfl⟩ := List.mem_map.mp member
    have old : b ∈ pre ++ (u, vu) :: post := by
      rcases List.mem_append.mp inside with first | last
      · simp [first]
      · simp [last]
    refine ⟨Ne.symm (noDown b old), ?_⟩
    exact regions.apart vu (by simp) b.2 (List.mem_map.mpr ⟨b, old, rfl⟩)

theorem Regions.enlist_down {pre post : List (Nat × VmRg)} {d : Nat} {vd rg : VmRg}
    (regions : Regions mm (pre ++ (d, vd) :: post) dummy lost) (proper : rg.rgStart < rg.rgEnd)
    (below : rg.rgStart = vd.rgEnd)
    (noUp : ∀ b ∈ pre ++ (d, vd) :: post, rg.rgEnd ≠ b.2.rgStart) :
    FreeList (mm.rgNodes.write d ⟨{ vd with rgEnd := rg.rgEnd }, (mm.rgNodes.cell d).next⟩)
        mm.mmap.vmFreergList (pre ++ (d, { vd with rgEnd := rg.rgEnd }) :: post) dummy ∧
      Absorbs rg ((pre ++ (d, vd) :: post).map Prod.snd)
        ((pre ++ (d, { vd with rgEnd := rg.rgEnd }) :: post).map Prod.snd) := by
  have nonempty := regions.list.nonempty (d, vd) (by simp)
  dsimp only at nonempty
  refine ⟨regions.list.setVal (by dsimp only; omega), [vd], { vd with rgEnd := rg.rgEnd },
    (pre ++ post).map Prod.snd, by simp, by simp, ?_, ?_⟩
  · intro x
    have whole : VmRg.covers ⟨vd.rgStart, rg.rgEnd⟩ x =
        VmRg.covers ⟨vd.rgStart, rg.rgStart⟩ x + VmRg.covers rg x :=
      covers_split (by omega) (by omega) x
    have lower : VmRg.covers ⟨vd.rgStart, rg.rgStart⟩ x = VmRg.covers vd x := by rw [below]
    rw [count_cons, count_nil]
    omega
  · intro c member
    obtain ⟨b, inside, rfl⟩ := List.mem_map.mp member
    have old : b ∈ pre ++ (d, vd) :: post := by
      rcases List.mem_append.mp inside with first | last
      · simp [first]
      · simp [last]
    exact ⟨regions.apart b.2 (List.mem_map.mpr ⟨b, old, rfl⟩) vd (by simp), noUp b old⟩

/-- Two different nodes are removed one after the other, unless the first stands directly before the
second: then removing the first gives the block of the second up. -/
theorem FreeList.delete_both {h : Heap VmRg} {head : Option Nat} {u d c : Nat} {vu vd : VmRg}
    (list : FreeList h head nodes dummy) (up : (u, vu) ∈ nodes) (down : (d, vd) ∈ nodes)
    (different : (u, vu) ≠ (d, vd))
    (unlinked : ∀ pre post, nodes ≠ pre ++ (u, vu) :: (d, vd) :: post)
    (spare : Spare h (nodes ++ [(dummy, dummyRg)]) c) :
    ∃ nodes' dummy', FreeList (deleteVmRgNode (deleteVmRgNode h u) d) head nodes' dummy' ∧
      (nodes.map Prod.snd).Perm (vu :: vd :: nodes'.map Prod.snd) ∧
      Spare (deleteVmRgNode (deleteVmRgNode h u) d) (nodes' ++ [(dummy', dummyRg)]) c := by
  obtain ⟨pre, rest, split⟩ := List.append_of_mem up
  subst split
  obtain ⟨nodes₁, dummy₁, list₁, vals₁, keepPre, keepRest, spare₁⟩ := list.delete
  have down₁ : (d, vd) ∈ nodes₁ := by
    rcases List.mem_append.mp down with first | second
    · exact keepPre _ first
    · rcases List.mem_cons.mp second with same | last
      · exact absurd same.symm different
      · cases rest with
        | nil => cases last
        | cons b post =>
            rcases List.mem_cons.mp last with rfl | later
            · exact absurd rfl (unlinked pre post)
            · exact keepRest _ later
  obtain ⟨pre', rest', split'⟩ := List.append_of_mem down₁
  subst split'
  obtain ⟨nodes₂, dummy₂, list₂, vals₂, _, _, spare₂⟩ := list₁.delete
  refine ⟨nodes₂, dummy₂, list₂, ?_, spare₂ c (spare₁ c spare)⟩
  rw [vals₂]
  calc
    (pre ++ (u, vu) :: rest).map Prod.snd
    _ = pre.map Prod.snd ++ vu :: rest.map Prod.snd := by simp
    (pre.map Prod.snd ++ vu :: rest.map Prod.snd).Perm
        (vu :: (pre.map Prod.snd ++ rest.map Prod.snd)) := List.perm_middle
    _ = vu :: ((pre' ++ (d, vd) :: rest').map Prod.snd) := by rw [vals₁]
    (vu :: ((pre' ++ (d, vd) :: rest').map Prod.snd)).Perm
        (vu :: vd :: (pre'.map Prod.snd ++ rest'.map Prod.snd)) := by
      simp

/-- Both neighbours and the region become one new node. -/
theorem Regions.enlist_both (regions : Regions mm nodes dummy lost) {u d : Nat} {vu vd rg : VmRg}
    (proper : rg.rgStart < rg.rgEnd) (up : (u, vu) ∈ nodes) (down : (d, vd) ∈ nodes)
    (above : rg.rgEnd = vu.rgStart) (below : rg.rgStart = vd.rgEnd)
    (unlinked : UnlinkedNeighbours rg nodes) (next : Option Nat) :
    ∃ nodes' dummy',
      FreeList ((deleteVmRgNode (deleteVmRgNode
            (mm.rgNodes.malloc ⟨⟨vd.rgStart, vu.rgEnd⟩, next⟩) u) d).write mm.rgNodes.fresh
          ⟨⟨vd.rgStart, vu.rgEnd⟩, mm.mmap.vmFreergList⟩) (some mm.rgNodes.fresh) nodes' dummy' ∧
        Absorbs rg (nodes.map Prod.snd) (nodes'.map Prod.snd) := by
  have properUp := regions.list.nonempty (u, vu) up
  have properDown := regions.list.nonempty (d, vd) down
  dsimp only at properUp properDown
  have different : (u, vu) ≠ (d, vd) := by
    rintro same
    rw [Prod.mk.injEq] at same
    rw [← same.2] at below
    omega
  obtain ⟨list, spare⟩ := regions.list.malloc ⟨⟨vd.rgStart, vu.rgEnd⟩, next⟩
  obtain ⟨nodes', dummy', list', perm, spare'⟩ := list.delete_both up down different
    (fun pre post split => List.isChain_iff_forall_rel_of_append_cons_cons.mp unlinked split
      ⟨above, below⟩) spare
  refine ⟨(mm.rgNodes.fresh, ⟨vd.rgStart, vu.rgEnd⟩) :: nodes', dummy',
    list'.link spare' (by dsimp only; omega), [vu, vd], ⟨vd.rgStart, vu.rgEnd⟩,
    nodes'.map Prod.snd, by simpa using perm, by simp, ?_, ?_⟩
  · intro x
    have whole : VmRg.covers ⟨vd.rgStart, vu.rgEnd⟩ x =
        VmRg.covers ⟨vd.rgStart, rg.rgStart⟩ x + VmRg.covers ⟨rg.rgStart, vu.rgEnd⟩ x :=
      covers_split (by omega) (by omega) x
    have rest : VmRg.covers ⟨rg.rgStart, vu.rgEnd⟩ x =
        VmRg.covers rg x + VmRg.covers ⟨rg.rgEnd, vu.rgEnd⟩ x :=
      covers_split (by omega) (by omega) x
    have lower : VmRg.covers ⟨vd.rgStart, rg.rgStart⟩ x = VmRg.covers vd x := by rw [below]
    have upper : VmRg.covers ⟨rg.rgEnd, vu.rgEnd⟩ x = VmRg.covers vu x := by rw [above]
    rw [count_cons, count_cons, count_nil]
    omega
  · intro c member
    have old : c ∈ nodes.map Prod.snd := perm.mem_iff.mpr (by simp [member])
    exact ⟨regions.apart c old vd (List.mem_map.mpr ⟨_, down, rfl⟩),
      regions.apart vu (List.mem_map.mpr ⟨_, up, rfl⟩) c old⟩

/-- `enlistVmFreergList` takes the region in, whatever neighbours it has. -/
theorem Regions.enlist (regions : Regions mm nodes dummy lost) {rg : VmRg} (proper : rg.rgStart < rg.rgEnd)
    (unlinked : UnlinkedNeighbours rg nodes) (g : Garbage) :
    ∃ h head nodes' dummy',
      (enlistVmFreergList mm rg g).2 =
          { mm with mmap := { mm.mmap with vmFreergList := head }, rgNodes := h } ∧
        FreeList h head nodes' dummy' ∧ Absorbs rg (nodes.map Prod.snd) (nodes'.map Prod.snd) := by
  obtain ⟨first, atHead⟩ : ∃ first, mm.mmap.vmFreergList = some first := by
    rw [regions.list.head_eq]
    cases nodes <;> simp
  have different : ¬ rg.rgStart ≥ rg.rgEnd := Nat.not_le_of_lt proper
  simp only [enlistVmFreergList, if_neg different, regions.marks rg]
  rcases markLast_cases (fun v => rg.rgEnd = v.rgStart) nodes none with
    ⟨noUp, notAbove⟩ | ⟨⟨u, vu⟩, up, above, isUp⟩ <;>
  rcases markLast_cases (fun v => rg.rgStart = v.rgEnd) nodes none with
    ⟨noDown, notBelow⟩ | ⟨⟨d, vd⟩, down, below, isDown⟩
  · obtain ⟨list, absorbs⟩ := regions.enlist_alone proper notAbove notBelow g.rgNext
    rw [noUp, noDown]
    dsimp only
    rw [linkNewNode_eq atHead]
    exact ⟨_, _, _, _, rfl, list, absorbs⟩
  · rw [noUp, isDown]
    obtain ⟨pre, post, rfl⟩ := List.append_of_mem down
    obtain ⟨list, absorbs⟩ := regions.enlist_down proper below notAbove
    refine ⟨_, mm.mmap.vmFreergList, _, _, ?_, list, absorbs⟩
    dsimp only
    rw [regions.list.val]
  · rw [isUp, noDown]
    obtain ⟨pre, post, rfl⟩ := List.append_of_mem up
    obtain ⟨list, absorbs⟩ := regions.enlist_up proper above notBelow
    refine ⟨_, mm.mmap.vmFreergList, _, _, ?_, list, absorbs⟩
    dsimp only
    rw [regions.list.val]
  · rw [isUp, isDown]
    obtain ⟨nodes', dummy', list, absorbs⟩ :=
      regions.enlist_both proper up down above below unlinked g.rgNext
    have valUp : (mm.rgNodes.cell u).val = vu := by
      obtain ⟨pre, post, rfl⟩ := List.append_of_mem up
      exact regions.list.val
    have valDown : (mm.rgNodes.cell d).val = vd := by
      obtain ⟨pre, post, rfl⟩ := List.append_of_mem down
      exact regions.list.val
    have alive_u : mm.rgNodes.touch u = mm.rgNodes := regions.list.touch up
    have alive_d : mm.rgNodes.touch d = mm.rgNodes := regions.list.touch down
    dsimp only
    rw [linkNewNode_eq atHead, alive_u, alive_d, valUp, valDown]
    exact ⟨_, _, _, _, rfl, list, absorbs⟩

theorem Regions.after_free {caller : Caller} (regions : Regions caller.mm nodes dummy lost) {rgid : Nat}
    (register : rgid < pagingMaxSymtblSz)
    (unlinked : UnlinkedNeighbours (caller.mm.symrgtbl rgid) nodes) (g : Garbage) :
    ∃ nodes' dummy', Regions (free caller rgid g).2.mm nodes' dummy' lost := by
  have inTable : ¬ rgid > pagingMaxSymtblSz := by omega
  rw [free, if_neg inTable]
  dsimp only
  by_cases proper : (caller.mm.symrgtbl rgid).rgStart < (caller.mm.symrgtbl rgid).rgEnd
  · obtain ⟨h, head, nodes', dummy', enlisted, list, absorbs⟩ := regions.enlist proper unlinked g
    refine ⟨nodes', dummy', regions.after_absorb register list absorbs ?_ ?_ ?_⟩
    · rw [enlisted, setSymrg_mmap]
    · rw [enlisted, setSymrg_symrgtbl]
    · rw [enlisted, setSymrg_rgNodes]
  · rw [enlistVmFreergList, if_pos (Nat.le_of_not_lt proper)]
    refine ⟨nodes, dummy, regions.list, regions.aligned, regions.vmStart, regions.below, ?_,
      regions.apart⟩
    intro x
    have before := regions.total x
    have exchanged := count_registers caller.mm register ⟨0, 0⟩ x
    have zero : VmRg.covers ⟨0, 0⟩ x = 0 := covers_of_empty (Nat.le_refl 0) x
    rw [covers_of_empty (Nat.le_of_not_lt proper), zero] at exchanged
    rw [regionFamily, count_append, count_append, setSymrg_symrgtbl, setSymrg_mmap]
    dsimp only
    omega

end Regions

end OsSim.Paging
