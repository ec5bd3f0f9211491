import OsSim.Paging.Mapped
import OsSim.Paging.FreeList

namespace OsSim.Paging
open NodeHeap Transition

/-! ## Regions below the break -/

def VmRg.UpTo (limit : Nat) (rg : VmRg) : Prop := rg.rgStart ≤ limit ∧ rg.rgEnd ≤ limit

theorem VmRg.UpTo.mono {rg : VmRg} {limit limit' : Nat} (bounded : rg.UpTo limit) (le : limit ≤ limit') :
    rg.UpTo limit' :=
  ⟨bounded.1.trans le, bounded.2.trans le⟩

section Nodes

variable {limit base top : Nat} {h : Heap VmRg}

theorem deleteVmRgNode_closed (closed : Closed (VmRg.UpTo limit) base top h.cell) {a : Nat} (lower : base ≤ a)
    (upper : a < top) :
    Closed (VmRg.UpTo limit) base top (deleteVmRgNode h a).cell ∧ (deleteVmRgNode h a).fresh = h.fresh := by
  obtain ⟨val, next⟩ := closed a lower upper
  rw [deleteVmRgNode]
  cases succ : (h.cell a).next with
  | none =>
      simp only [Heap.touch, succ]
      exact ⟨closed.update a ⟨val.2, val.2⟩ (by simp), rfl⟩
  | some b =>
      obtain ⟨val', next'⟩ := closed b (next b succ).1 (next b succ).2
      simp only [Heap.touch, succ]
      exact ⟨closed.update a val' next', rfl⟩

theorem takeFit_closed (closed : Closed (VmRg.UpTo limit) base top h.cell) (size : Int) (fuel : Nat)
    {walk : Option Nat} (inside : ∀ a, walk = some a → base ≤ a ∧ a < top) (newrg : VmRg) :
    ((takeFit size fuel h walk newrg).1 = newrg ∧ (takeFit size fuel h walk newrg).2.cell = h.cell ∨
        (takeFit size fuel h walk newrg).1.UpTo limit) ∧
      Closed (VmRg.UpTo limit) base top (takeFit size fuel h walk newrg).2.cell ∧
      (takeFit size fuel h walk newrg).2.fresh = h.fresh := by
  induction fuel generalizing h walk with
  | zero => cases walk <;> exact ⟨.inl ⟨rfl, rfl⟩, closed, rfl⟩
  | succ fuel ih =>
      cases walk with
      | none => exact ⟨.inl ⟨rfl, rfl⟩, closed, rfl⟩
      | some rgit =>
          obtain ⟨lower, upper⟩ := inside rgit rfl
          obtain ⟨val, next⟩ := closed rgit lower upper
          have touched : (h.touch rgit).cell = h.cell := rfl
          have closed' : Closed (VmRg.UpTo limit) base top (h.touch rgit).cell := closed
          rw [takeFit]
          dsimp only
          rw [touched]
          split
          · next fits =>
            have upTo := fits.trans val.2
            split
            · exact ⟨.inr ⟨val.1, upTo⟩, closed.update rgit ⟨upTo, val.2⟩ next, rfl⟩
            · obtain ⟨deleted, fresh⟩ := deleteVmRgNode_closed closed' lower upper
              exact ⟨.inr ⟨val.1, upTo⟩, deleted, fresh⟩
          · exact ih closed' next

theorem findMerge_closed (closed : Closed (VmRg.UpTo limit) base top h.cell) (rgElmt : VmRg) (fuel : Nat)
    {walk : Option Nat} (inside : ∀ a, walk = some a → base ≤ a ∧ a < top) {merge : Merge}
    (decBase : ∀ a, merge.needDecBase = some a → base ≤ a ∧ a < top)
    (incLimit : ∀ a, merge.needIncLimit = some a → base ≤ a ∧ a < top) :
    (findMerge rgElmt fuel h walk merge).1.cell = h.cell ∧
      (findMerge rgElmt fuel h walk merge).1.fresh = h.fresh ∧
      (∀ a, (findMerge rgElmt fuel h walk merge).2.needDecBase = some a → base ≤ a ∧ a < top) ∧
      ∀ a, (findMerge rgElmt fuel h walk merge).2.needIncLimit = some a → base ≤ a ∧ a < top := by
  induction fuel generalizing h walk merge with
  | zero => cases walk <;> exact ⟨rfl, rfl, decBase, incLimit⟩
  | succ fuel ih =>
      cases walk with
      | none => exact ⟨rfl, rfl, decBase, incLimit⟩
      | some rgit =>
          obtain ⟨lower, upper⟩ := inside rgit rfl
          have touched : (h.touch rgit).cell = h.cell := rfl
          have closed' : Closed (VmRg.UpTo limit) base top (h.touch rgit).cell := closed
          rw [findMerge]
          dsimp only
          split
          · exact ⟨rfl, rfl, decBase, incLimit⟩
          · refine ih closed' (closed rgit lower upper).2 ?_ ?_
            · intro a mark
              dsimp only at mark
              split at mark
              · exact Option.some.inj mark ▸ ⟨lower, upper⟩
              · exact decBase a mark
            · intro a mark
              dsimp only at mark
              split at mark
              · exact Option.some.inj mark ▸ ⟨lower, upper⟩
              · exact incLimit a mark

end Nodes

/-! ## The regions of a process -/

/-- The regions of the free list and of the registers lie below the break. -/
structure MmStruct.Enclosed (mm : MmStruct) (base : Nat) : Prop where
  nodes : Closed (VmRg.UpTo mm.mmap.sbrk) base mm.rgNodes.fresh mm.rgNodes.cell
  head : ∃ a, mm.mmap.vmFreergList = some a ∧ base ≤ a ∧ a < mm.rgNodes.fresh
  registers : ∀ rgid < pagingMaxSymtblSz, (mm.symrgtbl rgid).UpTo mm.mmap.sbrk

theorem initMm_enclosed {block : MmStruct} (zero : ZeroBlock block) :
    (initMm block).Enclosed block.rgNodes.fresh := by
  refine ⟨?_, ⟨block.rgNodes.fresh, rfl, Nat.le_refl _, Nat.lt_succ_self _⟩, ?_⟩
  · intro a lower upper
    have same : a = block.rgNodes.fresh := by
      have below : a < block.rgNodes.fresh + 1 := upper
      omega
    subst same
    simp [initMm, initVmRg, enlistVmRgNode, Heap.malloc, Heap.write, Heap.touch, zero.vmFreergList, VmRg.UpTo]
  · intro rgid register
    have empty : (initMm block).symrgtbl rgid = ⟨0, 0⟩ := zero.symrgtbl rgid register
    rw [empty]
    exact ⟨Nat.zero_le _, Nat.zero_le _⟩

section Enclosed

variable {mm : MmStruct} {base : Nat}

theorem MmStruct.Enclosed.head_inside (enclosed : mm.Enclosed base) :
    ∀ a, mm.mmap.vmFreergList = some a → base ≤ a ∧ a < mm.rgNodes.fresh := by
  obtain ⟨first, atHead, inside⟩ := enclosed.head
  rintro a same
  cases atHead.symm.trans same
  exact inside

theorem MmStruct.Enclosed.search (enclosed : mm.Enclosed base) (size : Int) :
    Closed (VmRg.UpTo mm.mmap.sbrk) base mm.rgNodes.fresh (getFreeVmrgArea mm size).2.2.rgNodes.cell ∧
      (getFreeVmrgArea mm size).2.2.rgNodes.fresh = mm.rgNodes.fresh ∧
      (¬ movesBreak mm size → (getFreeVmrgArea mm size).2.1.UpTo mm.mmap.sbrk) := by
  obtain ⟨first, atHead, inside⟩ := enclosed.head
  have start : ∀ a, some first = some a → base ≤ a ∧ a < mm.rgNodes.fresh :=
    fun a same => Option.some.inj same ▸ inside
  obtain ⟨found, closed, fresh⟩ :=
    takeFit_closed enclosed.nodes size mm.rgNodes.fresh start ⟨ulong (-1), ulong (-1)⟩
  simp only [movesBreak, getFreeVmrgArea, atHead]
  refine ⟨closed, fresh, ?_⟩
  intro reuses
  rcases found with ⟨same, _⟩ | upTo
  · rw [same] at reuses
    exact absurd (show (-1 : Int) ≠ 0 by decide) reuses
  · exact upTo

theorem linkNewNode_enclosed {h : Heap VmRg} {top : Nat} {rg : VmRg}
    (closed : Closed (VmRg.UpTo mm.mmap.sbrk) base top h.cell) (fresh : h.fresh = top + 1)
    (head : ∃ a, mm.mmap.vmFreergList = some a ∧ base ≤ a ∧ a < top) (upTo : rg.UpTo mm.mmap.sbrk)
    (registers : ∀ rgid < pagingMaxSymtblSz, (mm.symrgtbl rgid).UpTo mm.mmap.sbrk) (g : Garbage) :
    (linkNewNode mm h top rg g).Enclosed base := by
  obtain ⟨first, atHead, inside⟩ := head
  have next : ∀ b, (⟨rg, some first⟩ : Node VmRg).next = some b → base ≤ b ∧ b < top := by
    rintro b ⟨⟩
    exact inside
  rw [linkNewNode_eq atHead, atHead]
  refine ⟨?_, ⟨top, rfl, inside.1.trans inside.2.le, ?_⟩, registers⟩
  · rw [show (h.write top ⟨rg, some first⟩).fresh = top + 1 from fresh]
    exact closed.extend upTo next
  · exact Nat.lt_of_lt_of_eq (Nat.lt_succ_self top) fresh.symm

theorem MmStruct.Enclosed.enlist (enclosed : mm.Enclosed base) {rgElmt : VmRg} (upTo : rgElmt.UpTo mm.mmap.sbrk)
    (g : Garbage) : (enlistVmFreergList mm rgElmt g).2.Enclosed base := by
  have unmarked : ∀ a, (none : Option Nat) = some a → base ≤ a ∧ a < mm.rgNodes.fresh := by simp
  obtain ⟨cell, fresh, decBase, incLimit⟩ := findMerge_closed enclosed.nodes rgElmt mm.rgNodes.fresh
    enclosed.head_inside (show ∀ a, (Merge.mk none none).needDecBase = some a → _ from unmarked) unmarked
  rw [enlistVmFreergList]
  generalize findMerge rgElmt mm.rgNodes.fresh mm.rgNodes mm.mmap.vmFreergList ⟨none, none⟩ = found
    at cell fresh decBase incLimit ⊢
  obtain ⟨h, ⟨needDecBase, needIncLimit⟩⟩ := found
  dsimp only at cell fresh decBase incLimit ⊢
  have nodes : Closed (VmRg.UpTo mm.mmap.sbrk) base h.fresh h.cell := by
    rw [cell, fresh]
    exact enclosed.nodes
  have head : ∃ a, mm.mmap.vmFreergList = some a ∧ base ≤ a ∧ a < h.fresh := by
    rw [fresh]
    exact enclosed.head
  rw [← fresh] at decBase incLimit
  split
  · exact enclosed
  · cases needDecBase with
    | none =>
        cases needIncLimit with
        | none => exact linkNewNode_enclosed (nodes.update_top _) rfl head upTo enclosed.registers g
        | some d =>
            obtain ⟨lower, upper⟩ := incLimit d rfl
            obtain ⟨val, next⟩ := nodes d lower upper
            exact ⟨nodes.update d ⟨val.1, upTo.2⟩ next, head, enclosed.registers⟩
    | some u =>
        obtain ⟨lower, upper⟩ := decBase u rfl
        obtain ⟨val, next⟩ := nodes u lower upper
        cases needIncLimit with
        | none => exact ⟨nodes.update u ⟨upTo.1, val.2⟩ next, head, enclosed.registers⟩
        | some d =>
            obtain ⟨lower', upper'⟩ := incLimit d rfl
            obtain ⟨val', _⟩ := nodes d lower' upper'
            obtain ⟨first, same⟩ := deleteVmRgNode_closed (h := ((h.touch u).touch d).malloc
              ⟨⟨(h.cell d).val.rgStart, (h.cell u).val.rgEnd⟩, g.rgNext⟩) (nodes.update_top _) lower upper
            obtain ⟨second, same'⟩ := deleteVmRgNode_closed first lower' upper'
            have whole : VmRg.UpTo mm.mmap.sbrk ⟨(h.cell d).val.rgStart, (h.cell u).val.rgEnd⟩ := ⟨val'.1, val.2⟩
            exact linkNewNode_enclosed second (same'.trans same) head whole enclosed.registers g

theorem MmStruct.Enclosed.setSymrg (enclosed : mm.Enclosed base) (rgid : Nat) {rg : VmRg}
    (upTo : rg.UpTo mm.mmap.sbrk) : (Paging.setSymrg mm rgid rg).Enclosed base := by
  refine ⟨enclosed.nodes, enclosed.head, ?_⟩
  rw [setSymrg_symrgtbl, setSymrg_mmap]
  exact registers_update enclosed.registers rgid upTo

end Enclosed

section Calls

variable {caller : Caller} {base rgid : Nat}

theorem MmStruct.Enclosed.free (enclosed : caller.mm.Enclosed base) (register : rgid < pagingMaxSymtblSz)
    (g : Garbage) : (Paging.free caller rgid g).2.mm.Enclosed base := by
  have inTable : ¬ rgid > pagingMaxSymtblSz := by omega
  rw [Paging.free, if_neg inTable]
  exact (enclosed.enlist (enclosed.registers rgid register) g).setSymrg rgid ⟨Nat.zero_le _, Nat.zero_le _⟩

theorem MmStruct.Enclosed.grow {mm mm' : MmStruct} (enclosed : mm.Enclosed base)
    (sbrk : mm.mmap.sbrk ≤ mm'.mmap.sbrk) (head : mm'.mmap.vmFreergList = mm.mmap.vmFreergList)
    (nodes : Closed (VmRg.UpTo mm.mmap.sbrk) base mm.rgNodes.fresh mm'.rgNodes.cell)
    (fresh : mm'.rgNodes.fresh = mm.rgNodes.fresh) {rg : VmRg} (upTo : rg.UpTo mm'.mmap.sbrk)
    (symrgtbl : mm'.symrgtbl = Function.update mm.symrgtbl rgid rg) : mm'.Enclosed base := by
  refine ⟨?_, ?_, ?_⟩
  · rw [fresh]
    exact nodes.mono fun rg bounded => bounded.mono sbrk
  · rw [head, fresh]
    exact enclosed.head
  · rw [symrgtbl]
    exact registers_update (fun i register => (enclosed.registers i register).mono sbrk) rgid upTo

theorem MmStruct.Enclosed.alloc (enclosed : caller.mm.Enclosed base) (aligned : caller.mm.mmap.Aligned) {size : Nat}
    (within : movesBreak caller.mm (cint size) → caller.mm.mmap.sbrk + size ≤ 2 ^ pagingCpuBusWidth) (rgid : Nat) :
    (Paging.alloc caller rgid (cint size)).2.2.mm.Enclosed base := by
  obtain ⟨closed, fresh, reused⟩ := enclosed.search (cint size)
  by_cases moves : movesBreak caller.mm (cint size)
  · have bound := within moves
    obtain ⟨_, _, small, _⟩ := aligned_bounds aligned bound
    have small' : cint size = size := cint_of_lt (by omega)
    rw [small'] at moves closed fresh ⊢
    obtain ⟨mmap, symrgtbl, rgNodes⟩ := alloc_of_moves aligned moves bound rgid
    refine enclosed.grow ?_ ?_ ?_ ?_ ?_ symrgtbl
    · rw [mmap]
      exact Nat.le_add_right _ _
    · rw [mmap]
    · rw [rgNodes]
      exact closed
    · rw [rgNodes]
      exact fresh
    · rw [mmap]
      exact ⟨Nat.le_add_right _ _, Nat.le_refl _⟩
  · have searched := getFreeVmrgArea_mm caller.mm (cint size)
    rw [alloc_of_reuse moves]
    have symrgtbl : (getFreeVmrgArea caller.mm (cint size)).2.2.symrgtbl = caller.mm.symrgtbl := by rw [searched]
    have mmap : (getFreeVmrgArea caller.mm (cint size)).2.2.mmap = caller.mm.mmap := by rw [searched]
    refine enclosed.grow ?_ ?_ closed fresh ?_ (congrArg (Function.update · rgid _) symrgtbl)
    · rw [setSymrg_mmap, mmap]
    · rw [setSymrg_mmap, mmap]
    · rw [setSymrg_mmap, mmap]
      exact reused moves

end Calls

/-! ## Allocations in a run -/

structure System.Enclosed (s : System) : Prop where
  covered : s.Covered
  regions : ∀ p, ∃ base, (s.procs p).Enclosed base

theorem System.Boot.enclosed {s : System} (boot : s.Boot) : s.Enclosed := by
  refine ⟨boot.covered, fun p => ?_⟩
  obtain ⟨block, zero, fresh⟩ := boot.procs p
  rw [fresh]
  exact ⟨_, initMm_enclosed zero⟩

theorem System.Enclosed.exec {s : System} (enclosed : s.Enclosed) {l : Label} (registered : l.call.Registered)
    (within : s.WithinSpace l) (enough : s.Allocates l) : (s.exec l).Enclosed := by
  refine ⟨enclosed.covered.exec within enough,
    System.exec_procs (fun mm => ∃ base, mm.Enclosed base) enclosed.regions ?_⟩
  obtain ⟨base, regions⟩ := enclosed.regions l.p
  have caller : (s.caller l.p).mm.Enclosed base := regions
  have aligned : (s.caller l.p).mm.mmap.Aligned := enclosed.covered.aligned l.p
  refine ⟨base, ?_⟩
  rcases l.call.access_or with access | ⟨size, regIndex, call⟩ | ⟨regIndex, call⟩
  · have same := l.call.exec_sameRegions (s.caller l.p) l.g access
    refine ⟨?_, ?_, ?_⟩
    · rw [same.mmap, same.rgNodes]
      exact caller.nodes
    · rw [same.mmap, same.rgNodes]
      exact caller.head
    · rw [same.mmap, same.symrgtbl]
      exact caller.registers
  · rw [call]
    exact caller.alloc aligned (within.bound call) regIndex
  · rw [call] at registered ⊢
    exact caller.free registered l.g

/-- Calls with registers inside `symrgtbl`, accesses inside the devices, the break below 4 MB, and enough frames. -/
structure System.Served (s : System) (l : Label) : Prop where
  registered : l.call.Registered
  inBlocks : s.InBlocks l
  within : s.WithinSpace l
  enough : s.Allocates l

theorem reachable_enclosed {s : System} (reachable : Reach System.Step System.Served System.Boot s) :
    s.Enclosed := by
  refine reachable.invariant (fun s boot => boot.enclosed) ?_
  rintro s l s' enclosed served rfl
  exact enclosed.exec served.registered served.within served.enough

theorem System.Enclosed.mapped {s : System} (enclosed : s.Enclosed) {p rgid : Nat}
    (register : rgid < pagingMaxSymtblSz) {x : Nat} (inside : x < ((s.procs p).symrgtbl rgid).rgEnd) :
    Mapped ((s.procs p).pgd (x / pagingPagesz)) := by
  obtain ⟨base, regions⟩ := enclosed.regions p
  obtain ⟨limit, sbrk, below⟩ := enclosed.covered.aligned p
  have upTo := (regions.registers rgid register).2
  apply enclosed.covered.mapped p
  simp only [pagingCpuBusWidth] at below
  rw [pagingPageAlignsz_of_lt (by omega)] at limit
  simp only [pagingPagesz]
  omega

/-- No free region can serve the request, and it needs more new pages than there are free frames. -/
def System.Exhausted (s : System) (p size : Nat) : Prop :=
  movesBreak (s.procs p) (cint size) ∧
    ¬ enoughFrames (s.caller p) (allocRequest (s.procs p) (cint size))

/-- What an allocation that fails should leave as it was. -/
structure System.AllocKept (s s' : System) (p : Nat) : Prop where
  symrgtbl : (s'.procs p).symrgtbl = (s.procs p).symrgtbl
  sbrk : (s'.procs p).mmap.sbrk = (s.procs p).mmap.sbrk
  vmEnd : (s'.procs p).mmap.vmEnd = (s.procs p).mmap.vmEnd
  pgd : (s'.procs p).pgd = (s.procs p).pgd
  fifoPgn : (s'.procs p).fifoPgn = (s.procs p).fifoPgn
  mram : s'.mram.freeFpList = s.mram.freeFpList ∧ s'.mram.usedFpList = s.mram.usedFpList
  activeMswp : s'.activeMswp.freeFpList = s.activeMswp.freeFpList ∧
    s'.activeMswp.usedFpList = s.activeMswp.usedFpList

/-- An allocation without enough frames fails and changes nothing, and one that succeeds has all its pages. -/
structure System.AllocAtomic (s : System) (p size regIndex : Nat) : Prop where
  refused : s.Exhausted p size → (pgalloc (s.caller p) size regIndex).1 ≠ 0 ∧
    s.AllocKept (s.put p (pgalloc (s.caller p) size regIndex).2) p
  granted : (pgalloc (s.caller p) size regIndex).1 = 0 →
    ∀ x, ((pgalloc (s.caller p) size regIndex).2.mm.symrgtbl regIndex).rgStart ≤ x →
      x < ((pgalloc (s.caller p) size regIndex).2.mm.symrgtbl regIndex).rgEnd →
      Mapped ((pgalloc (s.caller p) size regIndex).2.mm.pgd (x / pagingPagesz))

theorem tinySystem_served : Reach System.Step System.Served System.Boot tinySystem := by
  refine .step (l := ⟨0, .alloc 768 0, noGarbage⟩) (.start (bootSystem_boot zeroBlock_zero _ _ _)) ⟨?_, ?_, ?_, ?_⟩ rfl
  · exact (by decide : 0 < 30)
  · exact System.inBlocks_of_no_access rfl
  · exact fun _ => (by decide : 0 + 768 < 2 ^ 22)
  · unfold System.Allocates
    decide

end OsSim.Paging
