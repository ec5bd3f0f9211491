import OsSim.Paging.Break

namespace OsSim.Paging
open Custody Transition

/-! ## Runs without failures -/

def System.Allocates (s : System) (l : Label) : Prop :=
  match l.call with
  | .alloc size _ => enoughFrames (s.caller l.p) (allocRequest (s.procs l.p) (cint size))
  | _ => True

/-- An access goes to a page that was mapped: it is in RAM or in the swap. -/
def System.MappedAccess (s : System) (l : Label) : Prop :=
  ∀ addr, l.call.target (s.procs l.p) = some addr →
    pagingPagePresent (s.entry (l.p, pagingPgn addr)) = true ∨
      pagingPageSwapped (s.entry (l.p, pagingPgn addr)) = true

structure System.Orderly (s : System) (l : Label) : Prop where
  inBounds : s.InBounds l
  within : s.WithinSpace l
  allocates : s.Allocates l
  mapped : s.MappedAccess l
  ready : s.SwapReady l

/-! ## Pages beyond the area -/

structure SameArea (mm mm' : MmStruct) : Prop where
  sbrk : mm'.mmap.sbrk = mm.mmap.sbrk
  vmEnd : mm'.mmap.vmEnd = mm.mmap.vmEnd

theorem SameRegions.sameArea {mm mm' : MmStruct} (same : SameRegions mm mm') : SameArea mm mm' :=
  ⟨by rw [same.mmap], by rw [same.mmap]⟩

theorem free_sameArea (caller : Caller) (rgid : Nat) (g : Garbage) :
    SameArea caller.mm (free caller rgid g).2.mm := by
  have enlisted : SameArea caller.mm
      (enlistVmFreergList caller.mm (caller.mm.symrgtbl rgid) g).2 := by
    unfold enlistVmFreergList
    split
    · exact ⟨rfl, rfl⟩
    · dsimp only
      split <;> exact ⟨rfl, rfl⟩
  rw [free]
  split
  · exact ⟨rfl, rfl⟩
  · exact ⟨enlisted.sbrk, enlisted.vmEnd⟩

theorem Call.exec_sameArea (caller : Caller) (g : Garbage) {call : Call}
    (other : ∀ size regIndex, call ≠ .alloc size regIndex) :
    SameArea caller.mm (call.exec caller g).mm := by
  cases call with
  | alloc size regIndex => exact absurd rfl (other size regIndex)
  | free regIndex => exact free_sameArea caller regIndex g
  | read source offset => exact (exec_sameRegions caller g rfl).sameArea
  | write data destination offset => exact (exec_sameRegions caller g rfl).sameArea
  | getval addr => exact (exec_sameRegions caller g rfl).sameArea
  | setval addr value => exact (exec_sameRegions caller g rfl).sameArea

/-- Each area is aligned, and no page beyond it holds a swap frame. -/
structure System.Settled (s : System) : Prop where
  aligned : ∀ p, (s.procs p).mmap.Aligned
  beyond : ∀ p pgn, (s.procs p).mmap.vmEnd / pagingPagesz ≤ pgn →
    held swapHolds s.tables (p, pgn) = none

theorem System.Boot.settled {s : System} (boot : s.Boot) : s.Settled := by
  refine ⟨fun p => ?_, fun p pgn _ => ?_⟩
  · obtain ⟨block, _, fresh⟩ := boot.procs p
    rw [fresh]
    exact initMm_aligned block
  · rw [boot.held_eq_none (by decide)]

theorem alloc_pages {mm : MmStruct} {size : Nat} (aligned : mm.mmap.Aligned)
    (within : movesBreak mm (cint size) → mm.mmap.sbrk + size ≤ 2 ^ pagingCpuBusWidth)
    (some_page : allocRequest mm (cint size) ≠ 0) :
    movesBreak mm (cint size) ∧ cint size = size ∧
      pagingPgn (BitVec.ofInt 32 (cint mm.mmap.vmEnd)) = mm.mmap.vmEnd / pagingPagesz ∧
      mm.mmap.vmEnd / pagingPagesz + (allocRequest mm (cint size)).toNat =
        pagingPageAlignsz (mm.mmap.sbrk + size) / pagingPagesz := by
  have moves : movesBreak mm (cint size) := by
    intro found
    simp [allocRequest, found] at some_page
  have bound := within moves
  obtain ⟨limit, grown, small, below⟩ := aligned_bounds aligned bound
  have small' : cint size = size := cint_of_lt (by omega)
  rw [small'] at moves some_page ⊢
  have request := allocRequest_eq aligned moves bound
  rw [request] at some_page ⊢
  simp only [pagingPagesz] at some_page ⊢
  refine ⟨moves, trivial, ?_, by omega⟩
  rw [pagingPgn_ofInt (by simp only [pagingCpuBusWidth]; omega)]
  rfl

section Alloc

variable {caller : Caller} {size : Nat}

theorem alloc_area (aligned : caller.mm.mmap.Aligned)
    (within : movesBreak caller.mm (cint size) →
      caller.mm.mmap.sbrk + size ≤ 2 ^ pagingCpuBusWidth) (rgid : Nat) :
    (alloc caller rgid (cint size)).2.2.mm.mmap.Aligned ∧
      (alloc caller rgid (cint size)).2.2.mm.mmap.vmEnd / pagingPagesz =
        caller.mm.mmap.vmEnd / pagingPagesz + (allocRequest caller.mm (cint size)).toNat := by
  by_cases moves : movesBreak caller.mm (cint size)
  · have bound := within moves
    obtain ⟨limit, grown, small, below⟩ := aligned_bounds aligned bound
    have small' : cint size = size := cint_of_lt (by omega)
    rw [small'] at moves ⊢
    obtain ⟨mmap, _, _⟩ := alloc_of_moves aligned moves bound rgid
    rw [mmap, allocRequest_eq aligned moves bound]
    refine ⟨aligned_extend aligned bound, ?_⟩
    simp only [pagingPagesz, Int.toNat_natCast]
    omega
  · have none : allocRequest caller.mm (cint size) = 0 := if_pos (not_not.mp moves)
    have searched := getFreeVmrgArea_mm caller.mm (cint size)
    have mmap : (getFreeVmrgArea caller.mm (cint size)).2.2.mmap = caller.mm.mmap := by rw [searched]
    rw [alloc_of_reuse moves, none]
    dsimp only
    rw [setSymrg_mmap, mmap]
    exact ⟨aligned, rfl⟩

theorem alloc_pgd_beyond (aligned : caller.mm.mmap.Aligned)
    (within : movesBreak caller.mm (cint size) →
      caller.mm.mmap.sbrk + size ≤ 2 ^ pagingCpuBusWidth) (rgid : Nat) {pgn : Nat}
    (above : (alloc caller rgid (cint size)).2.2.mm.mmap.vmEnd / pagingPagesz ≤ pgn) :
    (alloc caller rgid (cint size)).2.2.mm.pgd pgn = caller.mm.pgd pgn := by
  rw [(alloc_area aligned within rgid).2] at above
  rw [(alloc_samePaging caller rgid (cint size)).pgd]
  by_cases none : allocRequest caller.mm (cint size) = 0
  · rw [none, vmMapRam_zero]
  · obtain ⟨_, _, first, _⟩ := alloc_pages aligned within none
    rw [vmMapRam_outside _ _ _ (.inr (by omega))]

end Alloc

theorem System.exec_aligned {s : System} (aligned : ∀ p, (s.procs p).mmap.Aligned) {l : Label}
    (within : s.WithinSpace l) (p : Nat) : ((s.exec l).procs p).mmap.Aligned := by
  refine System.exec_procs (fun mm => mm.mmap.Aligned) aligned ?_ p
  rcases l.call.alloc_or with ⟨size, regIndex, call⟩ | other
  · have grown : (alloc (s.caller l.p) regIndex (cint size)).2.2.mm.mmap.Aligned ∧ _ :=
      alloc_area (aligned l.p) (within.bound call) regIndex
    rw [call]
    exact grown.1
  · have area := l.call.exec_sameArea (s.caller l.p) l.g other
    obtain ⟨limit, inside, below⟩ := aligned l.p
    refine ⟨?_, ?_, ?_⟩
    · rw [area.vmEnd, area.sbrk]
      exact limit
    · rw [area.vmEnd, area.sbrk]
      exact inside
    · rw [area.vmEnd]
      exact below

theorem System.Settled.exec {s : System} (settled : s.Settled) {l : Label}
    (within : s.WithinSpace l) (quiet : s.fault l = none) : (s.exec l).Settled := by
  refine ⟨System.exec_aligned settled.aligned within, ?_⟩
  have mine : ∀ pgn, (l.call.exec (s.caller l.p) l.g).mm.mmap.vmEnd / pagingPagesz ≤ pgn →
      swapHolds ((l.call.exec (s.caller l.p) l.g).mm.pgd pgn) = none := by
    have beyond := settled.beyond l.p
    rcases l.call.alloc_or with ⟨size, regIndex, call⟩ | other
    · rw [call]
      intro pgn above
      have grown : _ ∧ (alloc (s.caller l.p) regIndex (cint size)).2.2.mm.mmap.vmEnd / pagingPagesz = _ :=
        alloc_area (settled.aligned l.p) (within.bound call) regIndex
      have kept : (alloc (s.caller l.p) regIndex (cint size)).2.2.mm.pgd pgn = (s.procs l.p).pgd pgn :=
        alloc_pgd_beyond (settled.aligned l.p) (within.bound call) regIndex above
      have above' : (alloc (s.caller l.p) regIndex (cint size)).2.2.mm.mmap.vmEnd / pagingPagesz ≤ pgn := above
      rw [grown.2] at above'
      exact (congrArg swapHolds kept).trans (beyond pgn (Nat.le_of_add_right_le above'))
    · have area := l.call.exec_sameArea (s.caller l.p) l.g other
      have pgd := (l.call.exec_samePaging (s.caller l.p) l.g).pgd
      rcases Call.paging_cases (s.caller l.p) l.g l.call with
        ⟨size, regIndex, call⟩ | ⟨_, still⟩ | ⟨pgn, vicpgn, faults, _, _⟩
      · exact absurd call (other size regIndex)
      · rw [still] at pgd
        rw [pgd, area.vmEnd]
        exact beyond
      · exact absurd (quiet.symm.trans faults) (by simp)
  intro q pgn above
  rw [System.exec] at above ⊢
  rw [System.tables_put, held]
  by_cases same : q = l.p
  · rw [same] at above ⊢
    rw [System.procs_put] at above
    rw [Function.update_self]
    exact mine pgn above
  · rw [s.procs_put_of_ne _ same] at above
    rw [Function.update_of_ne same]
    exact settled.beyond q pgn above

/-! ## Accounting for swap frames -/

/-- An allocation that gets its frames gives every swap frame that it takes to a page. -/
theorem complete_vmMapRam {tables : Nat → Nat → BitVec 32} {p : Nat} {caller : Caller}
    {univ : Nat → Prop} (table : tables p = caller.mm.pgd) (mapstart incpgnum : Int)
    (enough : enoughFrames caller incpgnum)
    (fits : ∀ fpn ∈ caller.activeMswp.freeFpList, fpn < 2 ^ 21)
    (idle : ∀ i, pagingPgn (BitVec.ofInt 32 mapstart) ≤ i → held swapHolds tables (p, i) = none)
    (all : Complete univ (held swapHolds tables) [] caller.activeMswp.freeFpList) :
    Complete univ
      (held swapHolds (Function.update tables p (vmMapRam caller mapstart incpgnum).2.mm.pgd)) []
      (vmMapRam caller mapstart incpgnum).2.activeMswp.freeFpList := by
  have taken := all.pops (incpgnum.toNat - caller.mram.freeFpList.length)
  rw [vmMapRam_activeMswp, vmMapRam_eq, if_pos enough, vmapPageRange_mm]
  have drops : ∀ fpn pte, swapHolds (pteSetFpn pte fpn) = none := by simp
  have dropped := complete_vmapFrames_none (takeBoth caller incpgnum).mm
    (pagingPgn (BitVec.ofInt 32 mapstart)) (caller.mram.freeFpList.take incpgnum.toNat).reverse
    0 table drops (fun i above => idle i above) taken
  have mapped := complete_vmapFrames _ (pagingPgn (BitVec.ofInt 32 mapstart))
    (caller.mram.freeFpList.take incpgnum.toNat).reverse.length
    (Function.update_self _ _ _) (swapHolds_taken fits _) ?_ dropped
  · rwa [Function.update_idem] at mapped
  · intro i above
    rw [held, Function.update_self, vmapFrames_outside _ _ _ _ (.inr (by omega))]
    rw [← idle i (by omega), held, table]
    rfl

theorem System.swapComplete_exec {s : System} {univ : Nat → Prop} (settled : s.Settled)
    {l : Label} (orderly : s.Orderly l) (quiet : s.fault l = none)
    (fits : ∀ fpn ∈ s.activeMswp.freeFpList, fpn < 2 ^ 21)
    (all : Complete univ (held swapHolds s.tables) [] s.activeMswp.freeFpList) :
    Complete univ (held swapHolds (s.exec l).tables) [] (s.exec l).activeMswp.freeFpList := by
  rw [System.tables_exec, (s.activeMswp_exec l).freeFpList]
  rcases Call.paging_cases (s.caller l.p) l.g l.call with
    ⟨size, regIndex, call⟩ | ⟨_, still⟩ | ⟨pgn, vicpgn, faults, _, _⟩
  · have maps : s.paging l = (vmMapRam (s.caller l.p) (cint (s.procs l.p).mmap.vmEnd)
        (allocRequest (s.procs l.p) (cint size))).2 := by
      rw [System.paging, call]
      rfl
    have within := orderly.within
    have enough := orderly.allocates
    rw [System.Allocates, call] at enough
    rw [maps]
    by_cases none : allocRequest (s.procs l.p) (cint size) = 0
    · rw [none, vmMapRam_zero]
      have kept : Function.update s.tables l.p (s.caller l.p).mm.pgd = s.tables :=
        Function.update_eq_self l.p s.tables
      dsimp only
      rw [kept]
      exact all
    · obtain ⟨_, _, first, _⟩ := alloc_pages (settled.aligned l.p) (within.bound call) none
      refine complete_vmMapRam rfl _ _ enough fits ?_ all
      intro i above
      rw [first] at above
      exact settled.beyond l.p i above
  · have still' : s.paging l = s.caller l.p := still
    rw [System.update_tables_of_quiet still', still']
    exact all
  · exact absurd (quiet.symm.trans faults) (by simp)

/-- Every swap frame of the list is on the free list or held by exactly one swapped page. -/
def System.SwapPartitioned (univ : List Nat) (s : System) : Prop :=
  ∀ fpn ∈ univ,
    (fpn ∈ s.activeMswp.freeFpList ∧ ∀ page, swapHolds (s.entry page) ≠ some fpn) ∨
      (fpn ∉ s.activeMswp.freeFpList ∧ ∃! page, swapHolds (s.entry page) = some fpn)

theorem System.swapPartitioned_of_complete {s : System} {univ : List Nat} (own : s.SwapExclusive)
    (all : Complete (· ∈ univ) (held swapHolds s.tables) [] s.activeMswp.freeFpList) :
    s.SwapPartitioned univ := by
  intro fpn inside
  rcases all fpn inside with free | flight | ⟨page, holds⟩
  · exact .inl ⟨free, fun page holds => own.outside page fpn holds free⟩
  · cases flight
  · exact .inr ⟨own.outside page fpn holds, page, holds,
      fun other holds' => own.injective other page fpn holds' holds⟩

theorem System.fault_takes {s : System} {l : Label} (ready : s.SwapReady l) (faults : s.fault l ≠ none) :
    (s.exec l).activeMswp.freeFpList.length + 1 = s.activeMswp.freeFpList.length := by
  rw [(s.activeMswp_exec l).freeFpList]
  have free := ready faults
  rcases Call.paging_cases (s.caller l.p) l.g l.call with
    ⟨size, regIndex, call⟩ | ⟨still, _⟩ | ⟨pgn, vicpgn, _, _, swaps⟩
  · rw [System.fault, call] at faults
    exact absurd rfl faults
  · exact absurd still faults
  · have nonempty := List.length_pos_of_ne_nil free
    rw [System.paging, swaps, swapPage_activeMswp, List.length_tail]
    exact Nat.sub_add_cancel nonempty

/-- A fault that is served leaves as many free swap frames as before. -/
def System.KeepsSwap (s : System) (l : Label) : Prop :=
  s.fault l ≠ none → (s.exec l).activeMswp.freeFpList.length = s.activeMswp.freeFpList.length

theorem System.keepsSwap_iff {s : System} {l : Label} (ready : s.SwapReady l) :
    s.KeepsSwap l ↔ s.fault l = none := by
  constructor
  · intro keeps
    by_contra faults
    have taken := System.fault_takes ready faults
    have kept := keeps faults
    omega
  · intro quiet faults
    exact absurd quiet faults

structure System.SwapAccounted (univ : List Nat) (s : System) : Prop where
  settled : s.Settled
  exclusive : s.SwapExclusive
  fits : ∀ fpn ∈ s.activeMswp.freeFpList, fpn < 2 ^ 21
  complete : Complete (· ∈ univ) (held swapHolds s.tables) [] s.activeMswp.freeFpList

theorem System.SwapAccounted.run {univ : List Nat} {s : System} {labels : List Label}
    (accounted : s.SwapAccounted univ) (orderly : Along System.exec System.Orderly s labels)
    (quiet : Along System.exec (fun s l => s.fault l = none) s labels) :
    (Transition.run System.exec s labels).SwapAccounted univ := by
  induction labels generalizing s with
  | nil => exact accounted
  | cons l rest ih =>
      refine ih ⟨?_, ?_, ?_, ?_⟩ orderly.2 quiet.2
      · exact accounted.settled.exec orderly.1.within quiet.1
      · exact accounted.exclusive.exec l accounted.fits orderly.1.ready
      · exact fun fpn member => accounted.fits fpn ((s.activeMswp_suffix l).subset member)
      · exact System.swapComplete_exec accounted.settled orderly.1 quiet.1 accounted.fits
          accounted.complete

/-- Along an orderly run the swap frames are conserved exactly when no page is brought in from the swap. -/
theorem swap_conserved_iff {s : System} {labels : List Label} (boot : s.Boot)
    (fits : ∀ fpn ∈ s.activeMswp.freeFpList, fpn < 2 ^ 21)
    (orderly : Along System.exec System.Orderly s labels) :
    (Along System.exec System.KeepsSwap s labels ∧
        (Transition.run System.exec s labels).SwapPartitioned s.activeMswp.freeFpList) ↔
      Along System.exec (fun s l => s.fault l = none) s labels := by
  have agree : Along System.exec System.KeepsSwap s labels ↔
      Along System.exec (fun s l => s.fault l = none) s labels :=
    Along.congr (fun s l step => System.keepsSwap_iff step.ready) orderly
  rw [agree]
  constructor
  · exact And.left
  · intro quiet
    have start : s.SwapAccounted s.activeMswp.freeFpList :=
      ⟨boot.settled, boot.swapExclusive, fits, fun fpn inside => .inl inside⟩
    have accounted := start.run orderly quiet
    exact ⟨quiet, System.swapPartitioned_of_complete accounted.exclusive accounted.complete⟩

/-! ### Two runs -/

theorem tinyBoot_alloc_orderly : tinyBoot.Orderly ⟨0, .alloc 768 0, noGarbage⟩ where
  inBounds := ⟨by decide, by decide⟩
  within := fun _ => by decide
  allocates := by
    unfold System.Allocates
    decide
  mapped := fun _ aimed => by cases aimed
  ready := fun fault => absurd rfl fault

theorem tinyBoot_swap_conserved_iff :
    (Along System.exec System.KeepsSwap tinyBoot [⟨0, .alloc 768 0, noGarbage⟩] ∧
        (Transition.run System.exec tinyBoot [⟨0, .alloc 768 0, noGarbage⟩]).SwapPartitioned
          tinyBoot.activeMswp.freeFpList) ↔
      Along System.exec (fun s l => s.fault l = none) tinyBoot [⟨0, .alloc 768 0, noGarbage⟩] :=
  swap_conserved_iff (bootSystem_boot zeroBlock_zero _ _ _)
    (bootSystem_addressable (by decide) (by decide) _ _).activeMswp ⟨tinyBoot_alloc_orderly, trivial⟩

/-- The fault that brings the third page in leaves one free swap frame less. -/
theorem tinyBoot_loses_swap :
    Along System.exec System.Orderly tinyBoot
        [⟨0, .alloc 768 0, noGarbage⟩, ⟨0, .getval 512, noGarbage⟩] ∧
      tinySystem.fault ⟨0, .getval 512, noGarbage⟩ = some (2, 1) ∧
      tinySystem.activeMswp.freeFpList.length = 1 ∧
      (tinySystem.exec ⟨0, .getval 512, noGarbage⟩).activeMswp.freeFpList.length = 0 := by
  have ready : tinySystem.SwapReady ⟨0, .getval 512, noGarbage⟩ := fun _ => by decide
  have faults : tinySystem.fault ⟨0, .getval 512, noGarbage⟩ = some (2, 1) := by decide
  have free : tinySystem.activeMswp.freeFpList.length = 1 := by decide
  have taken := System.fault_takes ready (by rw [faults]; exact Option.some_ne_none _)
  refine ⟨⟨tinyBoot_alloc_orderly, ⟨trivial, trivial, trivial, ?_, ready⟩, trivial⟩, faults, free,
    by omega⟩
  rintro addr ⟨⟩
  exact .inr (by decide)

end OsSim.Paging
