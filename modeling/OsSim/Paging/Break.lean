import OsSim.Paging.Exclusivity

namespace OsSim.Paging
open Transition

/-! ## Machine integers that do not wrap -/

theorem ulong_of_lt {n : Nat} (small : n < 2 ^ 64) : ulong n = n := by
  unfold ulong
  omega

theorem ulong_add {m n : Nat} (small : m + n < 2 ^ 64) : ulong ((m : Int) + n) = m + n := by
  unfold ulong
  omega

theorem cint_of_lt {n : Nat} (small : n < 2 ^ 31) : cint n = n := by
  rw [cint, Int.bmod_eq_of_le] <;> omega

theorem pagingPageAlignsz_of_lt {sz : Nat} (small : sz < 2 ^ 62) :
    pagingPageAlignsz sz = (sz + 255) / 256 * 256 := by
  unfold pagingPageAlignsz ulong pagingPagesz
  omega

theorem pagingPgn_ofInt {addr : Nat} (small : addr < 2 ^ pagingCpuBusWidth) :
    pagingPgn (BitVec.ofInt 32 (cint addr)) = addr / pagingPagesz := by
  simp only [pagingCpuBusWidth] at small
  rw [cint_of_lt (by omega), pagingPgn_eq, BitVec.ofInt_natCast, BitVec.toNat_ofNat]
  simp only [pagingPagesz]
  omega

/-! ## Calls that leave the regions alone -/

structure SameRegions (mm mm' : MmStruct) : Prop where
  mmap : mm'.mmap = mm.mmap
  symrgtbl : mm'.symrgtbl = mm.symrgtbl
  rgNodes : mm'.rgNodes = mm.rgNodes

theorem SameRegions.refl (mm : MmStruct) : SameRegions mm mm := ⟨rfl, rfl, rfl⟩

theorem SameRegions.trans {mm mm' mm'' : MmStruct} (first : SameRegions mm mm')
    (second : SameRegions mm' mm'') : SameRegions mm mm'' :=
  ⟨second.mmap.trans first.mmap, second.symrgtbl.trans first.symrgtbl,
    second.rgNodes.trans first.rgNodes⟩

theorem vmapFrames_sameRegions (pteSet : BitVec 32 → Nat → BitVec 32) (pgn : Nat)
    (frames : List Nat) (pgit : Nat) (mm : MmStruct) :
    SameRegions mm (vmapFrames pteSet pgn frames pgit mm).2 := by
  induction frames generalizing pgit mm with
  | nil => exact SameRegions.refl mm
  | cons fpn rest ih =>
      rw [vmapFrames]
      refine SameRegions.trans ?_ (ih (pgit + 1) _)
      exact ⟨rfl, rfl, rfl⟩

theorem vmMapRam_sameRegions (caller : Caller) (mapstart incpgnum : Int) :
    SameRegions caller.mm (vmMapRam caller mapstart incpgnum).2.mm := by
  rw [vmMapRam_eq]
  split
  · rw [vmapPageRange_mm]
    exact (vmapFrames_sameRegions _ _ _ _ _).trans (vmapFrames_sameRegions _ _ _ _ _)
  · exact SameRegions.refl _

theorem afterGetpage_sameRegions (caller : Caller) (pgn : Nat) (g : Garbage) :
    SameRegions caller.mm (afterGetpage caller pgn g).mm := by
  unfold afterGetpage
  split
  · exact SameRegions.refl _
  · exact ⟨rfl, rfl, rfl⟩

theorem pgSetval_sameRegions (caller : Caller) (addr : BitVec 32) (value : Byte) (g : Garbage) :
    SameRegions caller.mm ((pgSetval caller addr value g).getD caller).mm := by
  rw [pgSetval_eq]
  split
  · exact SameRegions.refl _
  · exact afterGetpage_sameRegions caller _ g

theorem Call.exec_sameRegions (caller : Caller) (g : Garbage) {call : Call}
    (access : call.isAccess = true) : SameRegions caller.mm (call.exec caller g).mm := by
  rcases Call.exec_access caller g access with brought | ⟨addr, value, _, stored⟩
  · rw [brought]
    rcases Call.paging_cases caller g call with ⟨size, regIndex, rfl⟩ | ⟨_, same⟩ | ⟨pgn, vicpgn, _, _, served⟩
    · cases access
    · rw [same]
      exact SameRegions.refl _
    · rw [served]
      exact ⟨rfl, rfl, rfl⟩
  · rw [stored]
    exact pgSetval_sameRegions caller addr value g

@[simp] theorem setSymrg_mmap (mm : MmStruct) (rgid : Nat) (rg : VmRg) :
    (setSymrg mm rgid rg).mmap = mm.mmap := rfl

@[simp] theorem setSymrg_symrgtbl (mm : MmStruct) (rgid : Nat) (rg : VmRg) :
    (setSymrg mm rgid rg).symrgtbl = Function.update mm.symrgtbl rgid rg := rfl

@[simp] theorem setSymrg_rgNodes (mm : MmStruct) (rgid : Nat) (rg : VmRg) :
    (setSymrg mm rgid rg).rgNodes = mm.rgNodes := rfl

theorem registers_update {good : VmRg → Prop} {symrgtbl : Nat → VmRg}
    (registers : ∀ rgid < pagingMaxSymtblSz, good (symrgtbl rgid)) (changed : Nat) {rg : VmRg} (new : good rg) :
    ∀ rgid < pagingMaxSymtblSz, good (Function.update symrgtbl changed rg rgid) :=
  (Function.forall_update_iff symrgtbl fun rgid rg => rgid < pagingMaxSymtblSz → good rg).mpr
    ⟨fun _ => new, fun rgid _ => registers rgid⟩

/-! ## Growing the area -/

/-- The area reaches to the end of the page of the break, and not beyond 4 MB. -/
structure VmArea.Aligned (area : VmArea) : Prop where
  limit : area.vmEnd = pagingPageAlignsz area.sbrk
  inside : area.sbrk ≤ area.vmEnd
  below : area.vmEnd ≤ 2 ^ pagingCpuBusWidth

theorem initMm_aligned (block : MmStruct) : (initMm block).mmap.Aligned where
  limit := show 0 = pagingPageAlignsz 0 by decide
  inside := Nat.le_refl 0
  below := Nat.zero_le _

/-- `alloc` finds no free region and moves the break. -/
def movesBreak (mm : MmStruct) (size : Int) : Prop := (getFreeVmrgArea mm size).1 ≠ 0

instance (mm : MmStruct) (size : Int) : Decidable (movesBreak mm size) :=
  inferInstanceAs (Decidable (_ ≠ _))

def Call.Registered : Call → Prop
  | .alloc _ regIndex | .free regIndex => regIndex < pagingMaxSymtblSz
  | _ => True

def Call.Sized : Call → Prop
  | .alloc size _ => 1 ≤ size ∧ size < 2 ^ 31
  | _ => True

/-- If an allocation moves the break, the break stays below 4 MB. -/
def System.WithinSpace (s : System) (l : Label) : Prop :=
  match l.call with
  | .alloc size _ => movesBreak (s.procs l.p) (cint size) →
      (s.procs l.p).mmap.sbrk + size < 2 ^ pagingCpuBusWidth
  | _ => True

theorem System.WithinSpace.bound {s : System} {l : Label} (within : s.WithinSpace l) {size regIndex : Nat}
    (call : l.call = .alloc size regIndex) (moves : movesBreak (s.procs l.p) (cint size)) :
    (s.procs l.p).mmap.sbrk + size ≤ 2 ^ pagingCpuBusWidth := by
  rw [System.WithinSpace, call] at within
  exact (within moves).le

theorem alloc_of_reuse {caller : Caller} {size : Int} (reuses : ¬ movesBreak caller.mm size)
    (rgid : Nat) :
    (alloc caller rgid size).2.2 =
      { caller with
        mm := setSymrg (getFreeVmrgArea caller.mm size).2.2 rgid
          (getFreeVmrgArea caller.mm size).2.1 } := by
  have found : (getFreeVmrgArea caller.mm size).1 = 0 := not_not.mp reuses
  rw [alloc]
  generalize getFreeVmrgArea caller.mm size = area at found ⊢
  obtain ⟨found', rgnode, mm⟩ := area
  dsimp only at found ⊢
  rw [if_pos found]

/-- `pgalloc` never reports a failure. -/
theorem pgalloc_status (caller : Caller) (size regIndex : Nat) : (pgalloc caller size regIndex).1 = 0 := by
  rw [pgalloc, alloc]
  dsimp only
  split <;> rfl

def breakRegion (mm : MmStruct) (size : Int) : VmRg :=
  ⟨ulong (cint mm.mmap.sbrk), ulong (cint (cint mm.mmap.sbrk + size))⟩

theorem alloc_of_grow {caller : Caller} {size : Int} (moves : movesBreak caller.mm size)
    (rgid : Nat) (more : exceedsPage caller.mm size = true) {grown : Caller}
    (grow : (incVmaLimit { caller with mm := (getFreeVmrgArea caller.mm size).2.2 } size).2 = grown) :
    (alloc caller rgid size).2.2.mm = setSymrg grown.mm rgid (breakRegion caller.mm size) := by
  have searched := getFreeVmrgArea_mm caller.mm size
  rw [movesBreak] at moves
  rw [alloc]
  generalize getFreeVmrgArea caller.mm size = area at searched moves grow ⊢
  obtain ⟨found, rgnode, mm⟩ := area
  dsimp only at searched moves grow ⊢
  have mmap : mm.mmap = caller.mm.mmap := by rw [searched]
  have more' : exceedsPage mm size = true := by simpa only [exceedsPage, mmap] using more
  rw [if_neg moves, if_pos more', grow, mmap]
  rfl

theorem alloc_of_fits {caller : Caller} {size : Int} (moves : movesBreak caller.mm size)
    (rgid : Nat) (fits : ¬ exceedsPage caller.mm size = true) :
    (alloc caller rgid size).2.2.mm =
      setSymrg { (getFreeVmrgArea caller.mm size).2.2 with
        mmap := { caller.mm.mmap with sbrk := ulong (caller.mm.mmap.sbrk + size) } } rgid
        (breakRegion caller.mm size) := by
  have searched := getFreeVmrgArea_mm caller.mm size
  rw [movesBreak] at moves
  rw [alloc]
  generalize getFreeVmrgArea caller.mm size = area at searched moves ⊢
  obtain ⟨found, rgnode, mm⟩ := area
  dsimp only at searched moves ⊢
  have mmap : mm.mmap = caller.mm.mmap := by rw [searched]
  have fits' : ¬ exceedsPage mm size = true := by simpa only [exceedsPage, mmap] using fits
  rw [if_neg moves, if_neg fits', mmap]
  rfl

section Extend

variable {mm : MmStruct} {size : Nat}

theorem aligned_bounds (aligned : mm.mmap.Aligned) (within : mm.mmap.sbrk + size ≤ 2 ^ pagingCpuBusWidth) :
    mm.mmap.vmEnd = (mm.mmap.sbrk + 255) / 256 * 256 ∧
      pagingPageAlignsz (mm.mmap.sbrk + size) = (mm.mmap.sbrk + size + 255) / 256 * 256 ∧
      mm.mmap.sbrk + size ≤ 2 ^ 22 ∧ mm.mmap.vmEnd ≤ 2 ^ 22 := by
  obtain ⟨limit, inside, below⟩ := aligned
  simp only [pagingCpuBusWidth] at within below
  rw [pagingPageAlignsz_of_lt (by omega)] at limit
  exact ⟨limit, pagingPageAlignsz_of_lt (by omega), within, below⟩

theorem size_add_sbrk : (size : Int) + mm.mmap.sbrk = (mm.mmap.sbrk + size : Nat) := by
  push_cast
  omega

theorem incAmt_eq (aligned : mm.mmap.Aligned)
    (within : mm.mmap.sbrk + size ≤ 2 ^ pagingCpuBusWidth) :
    incAmt mm size = (pagingPageAlignsz (mm.mmap.sbrk + size) - mm.mmap.vmEnd : Nat) := by
  obtain ⟨limit, grown, bound, below⟩ := aligned_bounds aligned within
  have difference : (pagingPageAlignsz (mm.mmap.sbrk + size) : Int) - mm.mmap.vmEnd =
      (pagingPageAlignsz (mm.mmap.sbrk + size) - mm.mmap.vmEnd : Nat) := by omega
  rw [incAmt, size_add_sbrk, ulong_of_lt (by omega), ← aligned.limit, difference, cint_of_lt (by omega)]

theorem exceedsPage_iff (aligned : mm.mmap.Aligned)
    (within : mm.mmap.sbrk + size ≤ 2 ^ pagingCpuBusWidth) :
    exceedsPage mm size = true ↔
      mm.mmap.vmEnd < mm.mmap.sbrk + size ∨ mm.mmap.sbrk = mm.mmap.vmEnd := by
  obtain ⟨limit, grown, bound, below⟩ := aligned_bounds aligned within
  simp only [exceedsPage, size_add_sbrk, ulong_of_lt (show mm.mmap.sbrk + size < 2 ^ 64 by omega),
    ← aligned.limit, Bool.or_eq_true, decide_eq_true_eq, gt_iff_lt]

theorem pagingPageAlignsz_of_not_exceedsPage (aligned : mm.mmap.Aligned)
    (within : mm.mmap.sbrk + size ≤ 2 ^ pagingCpuBusWidth) (fits : ¬ exceedsPage mm size = true) :
    pagingPageAlignsz (mm.mmap.sbrk + size) = mm.mmap.vmEnd := by
  obtain ⟨limit, grown, bound, below⟩ := aligned_bounds aligned within
  rw [exceedsPage_iff aligned within] at fits
  omega

theorem allocRequest_eq (aligned : mm.mmap.Aligned) (moves : movesBreak mm size)
    (within : mm.mmap.sbrk + size ≤ 2 ^ pagingCpuBusWidth) :
    allocRequest mm size =
      (pagingPageAlignsz (mm.mmap.sbrk + size) / pagingPagesz - mm.mmap.vmEnd / pagingPagesz : Nat) := by
  obtain ⟨limit, grown, bound, below⟩ := aligned_bounds aligned within
  rw [allocRequest, if_neg moves]
  by_cases more : exceedsPage mm size = true
  · rw [if_pos more, incAmt_eq aligned within, ← Int.ofNat_tdiv]
    simp only [pagingPagesz]
    omega
  · rw [if_neg more, pagingPageAlignsz_of_not_exceedsPage aligned within more]
    simp

theorem growArea_mmap (aligned : mm.mmap.Aligned)
    (within : mm.mmap.sbrk + size ≤ 2 ^ pagingCpuBusWidth) :
    (growArea mm size).mmap = { mm.mmap with
      sbrk := mm.mmap.sbrk + size
      vmEnd := pagingPageAlignsz (mm.mmap.sbrk + size) } := by
  obtain ⟨limit, grown, bound, below⟩ := aligned_bounds aligned within
  have sbrk : ((mm.mmap.sbrk : Int) + size) = ((mm.mmap.sbrk + size : Nat) : Int) := by push_cast; rfl
  have vmEnd : ((mm.mmap.vmEnd : Int) +
      (pagingPageAlignsz (mm.mmap.sbrk + size) - mm.mmap.vmEnd : Nat)) =
      (pagingPageAlignsz (mm.mmap.sbrk + size) : Nat) := by omega
  simp only [growArea, incAmt_eq aligned within, sbrk, vmEnd]
  rw [ulong_of_lt (by omega), ulong_of_lt (by omega)]

theorem aligned_extend (aligned : mm.mmap.Aligned)
    (within : mm.mmap.sbrk + size ≤ 2 ^ pagingCpuBusWidth) :
    VmArea.Aligned { mm.mmap with
      sbrk := mm.mmap.sbrk + size
      vmEnd := pagingPageAlignsz (mm.mmap.sbrk + size) } := by
  obtain ⟨limit, grown, bound, below⟩ := aligned_bounds aligned within
  refine ⟨rfl, ?_, ?_⟩ <;> simp only [grown, pagingCpuBusWidth] <;> omega

end Extend

theorem alloc_of_moves {caller : Caller} {size : Nat} (aligned : caller.mm.mmap.Aligned)
    (moves : movesBreak caller.mm size)
    (within : caller.mm.mmap.sbrk + size ≤ 2 ^ pagingCpuBusWidth) (rgid : Nat) :
    (alloc caller rgid size).2.2.mm.mmap =
        { caller.mm.mmap with
          sbrk := caller.mm.mmap.sbrk + size
          vmEnd := pagingPageAlignsz (caller.mm.mmap.sbrk + size) } ∧
      (alloc caller rgid size).2.2.mm.symrgtbl =
        Function.update caller.mm.symrgtbl rgid
          ⟨caller.mm.mmap.sbrk, caller.mm.mmap.sbrk + size⟩ ∧
      (alloc caller rgid size).2.2.mm.rgNodes = (getFreeVmrgArea caller.mm size).2.2.rgNodes := by
  obtain ⟨limit, grown, bound, below⟩ := aligned_bounds aligned within
  have searched := getFreeVmrgArea_mm caller.mm size
  have sum : ((caller.mm.mmap.sbrk : Int) + size) = ((caller.mm.mmap.sbrk + size : Nat) : Int) := by
    push_cast
    rfl
  have region : breakRegion caller.mm size = ⟨caller.mm.mmap.sbrk, caller.mm.mmap.sbrk + size⟩ := by
    rw [breakRegion, cint_of_lt (by omega), ulong_of_lt (by omega), sum, cint_of_lt (by omega),
      ulong_of_lt (by omega)]
  by_cases more : exceedsPage caller.mm size = true
  · have mmap : (getFreeVmrgArea caller.mm size).2.2.mmap = caller.mm.mmap := by rw [searched]
    have symrgtbl : (getFreeVmrgArea caller.mm size).2.2.symrgtbl = caller.mm.symrgtbl := by
      rw [searched]
    have area := growArea_mmap (mmap.symm ▸ aligned) (mmap.symm ▸ within)
    have grows := vmMapRam_sameRegions
      { caller with mm := growArea (getFreeVmrgArea caller.mm size).2.2 size }
      (cint (getFreeVmrgArea caller.mm size).2.2.mmap.vmEnd)
      ((incAmt (getFreeVmrgArea caller.mm size).2.2 size).tdiv pagingPagesz)
    rw [alloc_of_grow moves rgid more (incVmaLimit_snd _ _), setSymrg_mmap, setSymrg_symrgtbl,
      setSymrg_rgNodes, grows.mmap, grows.symrgtbl, grows.rgNodes, area, region, mmap]
    exact ⟨rfl, congrArg (Function.update · rgid _) symrgtbl, rfl⟩
  · have still := pagingPageAlignsz_of_not_exceedsPage aligned within more
    rw [alloc_of_fits moves rgid more, region, setSymrg_mmap, setSymrg_symrgtbl, setSymrg_rgNodes,
      sum, ulong_of_lt (by omega), still]
    refine ⟨rfl, ?_, rfl⟩
    rw [searched]

end OsSim.Paging
