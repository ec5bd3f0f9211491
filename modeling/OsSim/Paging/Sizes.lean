import OsSim.Paging.Break

namespace OsSim.Paging
open NodeHeap Transition

/-! ## The region that a request gets -/

/-- The first region of the free list that `getFreeVmrgArea` finds large enough. -/
def firstFit (size : Int) : Nat → (Nat → Node VmRg) → Option Nat → Option VmRg
  | _, _, none => none
  | 0, _, some _ => none
  | fuel + 1, cell, some rgit =>
      if ulong ((cell rgit).val.rgStart + size) ≤ (cell rgit).val.rgEnd then some (cell rgit).val
      else firstFit size fuel cell (cell rgit).next

theorem firstFit_mem {size : Int} {fuel : Nat} {cell : Nat → Node VmRg} {walk : Option Nat} {rg : VmRg}
    (fit : firstFit size fuel cell walk = some rg) : ∃ b, (cell b).val = rg := by
  induction fuel generalizing walk with
  | zero => cases walk <;> cases fit
  | succ fuel ih =>
      cases walk with
      | none => cases fit
      | some rgit =>
          rw [firstFit] at fit
          split at fit
          · exact ⟨rgit, Option.some.inj fit⟩
          · exact ih fit

/-- The free region that serves a request. One that starts at the mark for a region not found does not. -/
def MmStruct.servedBy (mm : MmStruct) (size : Int) : Option VmRg :=
  (firstFit size mm.rgNodes.fresh mm.rgNodes.cell mm.mmap.vmFreergList).filter fun rg => rg.rgStart ≠ ulong (-1)

def VmRg.firstBytes (rg : VmRg) (size : Int) : VmRg := ⟨rg.rgStart, ulong (rg.rgStart + size)⟩

theorem takeFit_fst (size : Int) (fuel : Nat) (h : Heap VmRg) (walk : Option Nat) (newrg : VmRg) :
    (takeFit size fuel h walk newrg).1 = ((firstFit size fuel h.cell walk).map (·.firstBytes size)).getD newrg := by
  induction fuel generalizing h walk with
  | zero => cases walk <;> rfl
  | succ fuel ih =>
      cases walk with
      | none => rfl
      | some rgit =>
          have touched : (h.touch rgit).cell = h.cell := rfl
          rw [takeFit, firstFit]
          dsimp only
          rw [touched]
          split
          · split <;> rfl
          · rw [ih, touched]

theorem getFreeVmrgArea_servedBy (mm : MmStruct) (size : Int) :
    match mm.servedBy size with
    | none => movesBreak mm size
    | some rg => ¬ movesBreak mm size ∧ (getFreeVmrgArea mm size).2.1 = rg.firstBytes size := by
  rw [movesBreak, getFreeVmrgArea, MmStruct.servedBy]
  cases head : mm.mmap.vmFreergList with
  | none =>
      simp only [firstFit, Option.filter_none]
      decide
  | some rgit =>
      dsimp only
      rw [takeFit_fst]
      cases fit : firstFit size mm.rgNodes.fresh mm.rgNodes.cell (some rgit) with
      | none => simp
      | some rg =>
          by_cases mark : rg.rgStart = ulong (-1)
          · simp [Option.filter_some, mark, VmRg.firstBytes]
          · simp [Option.filter_some, mark, VmRg.firstBytes]

theorem alloc_regions {caller : Caller} {size : Int} (moves : movesBreak caller.mm size) (rgid : Nat) :
    (alloc caller rgid size).2.2.mm.mmap.sbrk = ulong (caller.mm.mmap.sbrk + size) ∧
      (alloc caller rgid size).2.2.mm.symrgtbl =
        Function.update caller.mm.symrgtbl rgid (breakRegion caller.mm size) ∧
      (alloc caller rgid size).2.2.mm.rgNodes = (getFreeVmrgArea caller.mm size).2.2.rgNodes := by
  have searched := getFreeVmrgArea_mm caller.mm size
  have mmap : (getFreeVmrgArea caller.mm size).2.2.mmap = caller.mm.mmap := by rw [searched]
  have symrgtbl : (getFreeVmrgArea caller.mm size).2.2.symrgtbl = caller.mm.symrgtbl := by rw [searched]
  by_cases more : exceedsPage caller.mm size = true
  · have grows := vmMapRam_sameRegions
      { caller with mm := growArea (getFreeVmrgArea caller.mm size).2.2 size }
      (cint (getFreeVmrgArea caller.mm size).2.2.mmap.vmEnd)
      ((incAmt (getFreeVmrgArea caller.mm size).2.2 size).tdiv pagingPagesz)
    rw [alloc_of_grow moves rgid more (incVmaLimit_snd _ _), setSymrg_mmap, setSymrg_symrgtbl, setSymrg_rgNodes,
      grows.mmap, grows.symrgtbl, grows.rgNodes]
    simp only [growArea, mmap, symrgtbl]
    exact ⟨trivial, trivial, trivial⟩
  · rw [alloc_of_fits moves rgid more, setSymrg_mmap, setSymrg_symrgtbl, setSymrg_rgNodes]
    exact ⟨rfl, by rw [symrgtbl], rfl⟩

/-- The region in the register after `pgalloc`, and the break. -/
theorem pgalloc_region (caller : Caller) (size regIndex : Nat) :
    match caller.mm.servedBy (cint size) with
    | some rg =>
        (pgalloc caller size regIndex).2.mm.symrgtbl regIndex = rg.firstBytes (cint size) ∧
          (pgalloc caller size regIndex).2.mm.mmap.sbrk = caller.mm.mmap.sbrk
    | none =>
        (pgalloc caller size regIndex).2.mm.symrgtbl regIndex = breakRegion caller.mm (cint size) ∧
          (pgalloc caller size regIndex).2.mm.mmap.sbrk = ulong (caller.mm.mmap.sbrk + cint size) := by
  have served := getFreeVmrgArea_servedBy caller.mm (cint size)
  have same : (pgalloc caller size regIndex).2.mm = (alloc caller regIndex (cint size)).2.2.mm := rfl
  rw [same]
  cases fit : caller.mm.servedBy (cint size) with
  | some rg =>
      rw [fit] at served
      have mmap : (getFreeVmrgArea caller.mm (cint size)).2.2.mmap = caller.mm.mmap := by
        rw [getFreeVmrgArea_mm caller.mm (cint size)]
      rw [alloc_of_reuse served.1]
      exact ⟨by rw [setSymrg_symrgtbl, Function.update_self, served.2], by rw [setSymrg_mmap, mmap]⟩
  | none =>
      rw [fit] at served
      obtain ⟨sbrk, symrgtbl, _⟩ := alloc_regions served regIndex
      exact ⟨by rw [symrgtbl, Function.update_self], sbrk⟩

/-! ### The nodes of the free list -/

def VmRg.Ordered (rg : VmRg) : Prop := rg.rgStart ≤ rg.rgEnd

instance (rg : VmRg) : Decidable rg.Ordered := inferInstanceAs (Decidable (_ ≤ _))

theorem deleteVmRgNode_ordered {h : Heap VmRg} (ordered : ∀ b, (h.cell b).val.Ordered) (a : Nat) :
    ∀ b, ((deleteVmRgNode h a).cell b).val.Ordered := by
  have update : ∀ node : Node VmRg, node.val.Ordered → ∀ b, (Function.update h.cell a node b).val.Ordered :=
    fun node new => (Function.forall_update_iff h.cell fun _ node => node.val.Ordered).mpr ⟨new, fun b _ => ordered b⟩
  rw [deleteVmRgNode]
  cases succ : (h.cell a).next with
  | none =>
      simp only [Heap.touch, succ]
      exact update _ (Nat.le_refl _)
  | some next =>
      simp only [Heap.touch, succ]
      exact update _ (ordered next)

theorem takeFit_ordered (size : Int) (fuel : Nat) {h : Heap VmRg} (ordered : ∀ b, (h.cell b).val.Ordered)
    (walk : Option Nat) (newrg : VmRg) : ∀ b, ((takeFit size fuel h walk newrg).2.cell b).val.Ordered := by
  induction fuel generalizing h walk with
  | zero => cases walk <;> exact ordered
  | succ fuel ih =>
      cases walk with
      | none => exact ordered
      | some rgit =>
          have touched : ∀ b, ((h.touch rgit).cell b).val.Ordered := ordered
          rw [takeFit]
          dsimp only
          split
          · split
            · next more =>
              exact (Function.forall_update_iff h.cell fun _ node => node.val.Ordered).mpr
                ⟨Nat.le_of_lt more, fun b _ => ordered b⟩
            · exact deleteVmRgNode_ordered touched rgit
          · exact ih touched _

theorem pgalloc_ordered {caller : Caller} (ordered : ∀ b, (caller.mm.rgNodes.cell b).val.Ordered)
    (size regIndex : Nat) : ∀ b, ((pgalloc caller size regIndex).2.mm.rgNodes.cell b).val.Ordered := by
  have searched : ∀ b, ((getFreeVmrgArea caller.mm (cint size)).2.2.rgNodes.cell b).val.Ordered := by
    rw [getFreeVmrgArea]
    split
    · exact ordered
    · exact takeFit_ordered (cint size) _ ordered _ _
  have same : (pgalloc caller size regIndex).2.mm = (alloc caller regIndex (cint size)).2.2.mm := rfl
  rw [same]
  by_cases moves : movesBreak caller.mm (cint size)
  · rw [(alloc_regions moves regIndex).2.2]
    exact searched
  · rw [alloc_of_reuse moves]
    exact searched

/-! ## Sizes that are handled -/

structure MmStruct.Words (mm : MmStruct) : Prop where
  sbrk : mm.mmap.sbrk < 2 ^ 64
  nodes : ∀ b, (mm.rgNodes.cell b).val.rgStart < 2 ^ 64

/-- `pgalloc` refuses the request and changes nothing, or it gives a region of `size` bytes, as an unsigned number. The
break does not go back, and no region ends before it starts. -/
structure Caller.Handles (caller : Caller) (size regIndex : Nat) : Prop where
  refused : (pgalloc caller size regIndex).1 ≠ 0 →
    (pgalloc caller size regIndex).2.mm.mmap = caller.mm.mmap ∧
      (pgalloc caller size regIndex).2.mm.symrgtbl = caller.mm.symrgtbl ∧
      (pgalloc caller size regIndex).2.mm.rgNodes.cell = caller.mm.rgNodes.cell
  bytes : (pgalloc caller size regIndex).1 = 0 →
    ulong (((pgalloc caller size regIndex).2.mm.symrgtbl regIndex).rgEnd -
      ((pgalloc caller size regIndex).2.mm.symrgtbl regIndex).rgStart) = size
  sbrk : caller.mm.mmap.sbrk ≤ (pgalloc caller size regIndex).2.mm.mmap.sbrk
  region : ((pgalloc caller size regIndex).2.mm.symrgtbl regIndex).Ordered
  nodes : (∀ b, (caller.mm.rgNodes.cell b).val.Ordered) →
    ∀ b, ((pgalloc caller size regIndex).2.mm.rgNodes.cell b).val.Ordered

/-- The size is a positive `int` or zero, and the region ends before the addresses wrap: those of the free region that
serves the request at 2 ^ 64, those at the break at 2 ^ 31, as the break passes through an `int`. -/
def MmStruct.Fits (mm : MmStruct) (size : Nat) : Prop :=
  size < 2 ^ 31 ∧
    match mm.servedBy size with
    | some rg => rg.rgStart + size < 2 ^ 64
    | none => mm.mmap.sbrk % 2 ^ 31 + size < 2 ^ 31

theorem cint_eq (n : Int) : cint n = if n % 2 ^ 32 < 2 ^ 31 then n % 2 ^ 32 else n % 2 ^ 32 - 2 ^ 32 := by
  rw [cint, Int.bmod_def]
  split_ifs <;> omega

/-- `size` as an unsigned number, and the order of the ends. -/
def VmRg.Exact (rg : VmRg) (size : Nat) : Prop := ulong (rg.rgEnd - rg.rgStart) = size ∧ rg.Ordered

theorem firstBytes_exact_iff {rg : VmRg} {size : Nat} (word : rg.rgStart < 2 ^ 64) (small : size < 2 ^ 32) :
    (rg.firstBytes (cint size)).Exact size ↔ size < 2 ^ 31 ∧ rg.rgStart + size < 2 ^ 64 := by
  rw [VmRg.Exact, VmRg.Ordered, VmRg.firstBytes, cint_eq]
  dsimp only
  unfold ulong
  split <;> omega

theorem breakRegion_exact_iff {mm : MmStruct} {size : Nat} (word : mm.mmap.sbrk < 2 ^ 64) (small : size < 2 ^ 32) :
    (breakRegion mm (cint size)).Exact size ∧ mm.mmap.sbrk ≤ ulong (mm.mmap.sbrk + cint size) ↔
      size < 2 ^ 31 ∧ mm.mmap.sbrk % 2 ^ 31 + size < 2 ^ 31 := by
  rw [VmRg.Exact, VmRg.Ordered, breakRegion]
  dsimp only
  simp only [cint_eq]
  unfold ulong
  split_ifs <;> omega

theorem MmStruct.Words.servedBy {mm : MmStruct} (words : mm.Words) {size : Int} {rg : VmRg}
    (fit : mm.servedBy size = some rg) : rg.rgStart < 2 ^ 64 := by
  obtain ⟨b, rfl⟩ := firstFit_mem (Option.filter_eq_some_iff.mp fit).1
  exact words.nodes b

def halfKilobyte : System := tinyBoot.exec ⟨0, .alloc 512 0, noGarbage⟩

theorem halfKilobyte_words : (halfKilobyte.procs 0).Words := by
  refine ⟨by decide, fun b => ?_⟩
  have zero : ((halfKilobyte.procs 0).rgNodes.cell b).val.rgStart = 0 := by
    rw [show (halfKilobyte.procs 0).rgNodes.cell = (initMm zeroBlock).rgNodes.cell from rfl]
    by_cases first : b = 0 <;>
      simp [initMm, initVmRg, enlistVmRgNode, Heap.write, Heap.malloc, zeroBlock, first]
  rw [zero]
  decide

end OsSim.Paging
