import OsSim.Paging.Mapped
import Mathlib.Algebra.BigOperators.Group.List.Basic
import Mathlib.Algebra.GroupWithZero.Nat

namespace OsSim.Paging
open NodeHeap Transition

/-! ## The entries that a call uses -/

/-- The pages whose entries `vmapPageRange` writes for an allocation that gets its frames. -/
def writtenPages (caller : Caller) (size : Nat) : List Nat :=
  List.range' (pagingPgn (BitVec.ofInt 32 (cint caller.mm.mmap.vmEnd)))
    (allocRequest caller.mm (cint size)).toNat

theorem mem_writtenPages {caller : Caller} {size pgn : Nat} :
    pgn ∈ writtenPages caller size ↔
      pagingPgn (BitVec.ofInt 32 (cint caller.mm.mmap.vmEnd)) ≤ pgn ∧
        pgn < pagingPgn (BitVec.ofInt 32 (cint caller.mm.mmap.vmEnd)) +
          (allocRequest caller.mm (cint size)).toNat := by
  rw [writtenPages, List.mem_range'_1]

theorem pgalloc_pgd (caller : Caller) (size regIndex : Nat)
    (enough : enoughFrames caller (allocRequest caller.mm (cint size))) (pgn : Nat) :
    (pgn ∈ writtenPages caller size → Mapped ((pgalloc caller size regIndex).2.mm.pgd pgn)) ∧
      (pgn ∉ writtenPages caller size → (pgalloc caller size regIndex).2.mm.pgd pgn = caller.mm.pgd pgn) := by
  have pgd := (alloc_samePaging caller regIndex (cint size)).pgd
  rw [mem_writtenPages, pgalloc]
  dsimp only
  rw [pgd]
  constructor
  · rintro ⟨from_first, to_last⟩
    exact vmMapRam_mapped caller _ _ enough from_first to_last
  · intro outside
    exact vmMapRam_outside _ _ _ (by omega)

/-- The pages whose entries `findVictimPage` reads. -/
def examinedPages (mm : MmStruct) : List Nat :=
  mm.fifoPgn.takeWhile (fun pgn => !pagingPagePresent (mm.pgd pgn)) ++ (findVictimPage mm).toList

theorem examinedPages_subset (mm : MmStruct) : examinedPages mm ⊆ mm.fifoPgn := by
  intro pgn member
  rcases List.mem_append.mp member with passed | found
  · exact (List.takeWhile_prefix _).subset passed
  · exact List.mem_of_find?_eq_some (Option.mem_toList.mp found)

theorem mem_examinedPages {mm : MmStruct} {pgn : Nat} {rest : List Nat} (recorded : mm.fifoPgn = pgn :: rest) :
    pgn ∈ examinedPages mm := by
  rw [examinedPages, findVictimPage, recorded]
  cases present : pagingPagePresent (mm.pgd pgn) <;> simp [present]

/-! ## The replacement list after an allocation -/

theorem vmapFrames_fifoPgn (pteSet : BitVec 32 → Nat → BitVec 32) (pgn : Nat) (frames : List Nat) (pgit : Nat)
    (mm : MmStruct) :
    (vmapFrames pteSet pgn frames pgit mm).2.fifoPgn =
      (List.range' (pgn + pgit + 1) frames.length).reverse ++ mm.fifoPgn := by
  induction frames generalizing pgit mm with
  | nil => rfl
  | cons fpn rest ih =>
      rw [vmapFrames, ih, List.length_cons, List.range'_succ, List.reverse_cons, List.append_assoc]
      rfl

theorem vmMapRam_fifoPgn (caller : Caller) (mapstart incpgnum : Int) (enough : enoughFrames caller incpgnum) :
    (vmMapRam caller mapstart incpgnum).2.mm.fifoPgn =
      (List.range' (pagingPgn (BitVec.ofInt 32 mapstart) + 1) incpgnum.toNat).reverse ++ caller.mm.fifoPgn := by
  rw [vmMapRam_eq, if_pos enough]
  rw [enoughFrames] at enough
  dsimp only
  rw [vmapPageRange_mm, vmapFrames_fifoPgn, vmapFrames_fifoPgn, ← List.append_assoc, ← List.reverse_append]
  congr 2
  simp only [List.length_reverse, List.length_take, Nat.add_zero]
  rw [Nat.add_right_comm, List.range'_append_1]
  congr 1
  omega

/-! ## A process that only allocates -/

structure AllocCall where
  size : Nat
  regIndex : Nat

def allocStep (caller : Caller) (a : AllocCall) : Caller := (pgalloc caller a.size a.regIndex).2

/-- The devices have enough frames for the call. -/
def GetsFrames (caller : Caller) (a : AllocCall) : Prop :=
  enoughFrames caller (allocRequest caller.mm (cint a.size))

instance (caller : Caller) (a : AllocCall) : Decidable (GetsFrames caller a) :=
  inferInstanceAs (Decidable (enoughFrames _ _))

/-- No page outside the page table is written, or will be read by the next search for a victim; no two pages
share an entry; and a call that would pass the end of the virtual space is refused. -/
structure TableSafe (caller : Caller) (a : AllocCall) : Prop where
  written : ∀ pgn ∈ writtenPages caller a.size, pgn < pagingMaxPgn
  examined : ∀ pgn ∈ examinedPages (allocStep caller a).mm, pgn < pagingMaxPgn
  apart : ∀ pgn other, pgn < (allocStep caller a).mm.mmap.vmEnd / pagingPagesz →
    other < (allocStep caller a).mm.mmap.vmEnd / pagingPagesz → pgn ≠ other →
    pagingPgn (BitVec.ofNat 32 (pgn * pagingPagesz)) ≠ pagingPgn (BitVec.ofNat 32 (other * pagingPagesz))
  refused : 2 ^ pagingCpuBusWidth < caller.mm.mmap.sbrk + a.size →
    (pgalloc caller a.size a.regIndex).1 ≠ 0

/-- No region was ever freed: the free list holds the node that `initMm` makes. -/
structure MmStruct.Unfreed (mm : MmStruct) : Prop where
  aligned : mm.mmap.Aligned
  list : ∃ b, mm.mmap.vmFreergList = some b ∧ mm.rgNodes.cell b = ⟨⟨0, 0⟩, none⟩ ∧ mm.rgNodes.fresh ≠ 0
  recorded : ∀ pgn ∈ mm.fifoPgn, pgn ≤ mm.mmap.vmEnd / pagingPagesz

theorem initMm_unfreed {block : MmStruct} (zero : ZeroBlock block) : (initMm block).Unfreed := by
  refine ⟨initMm_aligned block, ⟨block.rgNodes.fresh, rfl, ?_, Nat.succ_ne_zero _⟩, ?_⟩
  · simp [initMm, initVmRg, enlistVmRgNode, Heap.write, Heap.malloc, zero.vmFreergList]
  · intro pgn member
    rw [show (initMm block).fifoPgn = block.fifoPgn from rfl, zero.fifoPgn] at member
    cases member

section Step

variable {caller : Caller} {size : Nat}

theorem getFreeVmrgArea_unfreed {mm : MmStruct} (unfreed : mm.Unfreed) (positive : 0 < size)
    (word : size < 2 ^ 31) :
    movesBreak mm size ∧ (getFreeVmrgArea mm size).2.2.rgNodes.cell = mm.rgNodes.cell ∧
      (getFreeVmrgArea mm size).2.2.rgNodes.fresh = mm.rgNodes.fresh := by
  obtain ⟨b, head, cell, some_block⟩ := unfreed.list
  obtain ⟨fuel, fresh⟩ := Nat.exists_eq_succ_of_ne_zero some_block
  have limit : ulong ((0 : Nat) + (size : Int)) = size := by
    rw [ulong_add (by omega), Nat.zero_add]
  have tooLarge : ¬ size ≤ 0 := Nat.not_le.mpr positive
  have touched : (mm.rgNodes.touch b).cell = mm.rgNodes.cell := rfl
  have searched : takeFit size mm.rgNodes.fresh mm.rgNodes (some b) ⟨ulong (-1), ulong (-1)⟩ =
      (⟨ulong (-1), ulong (-1)⟩, mm.rgNodes.touch b) := by
    simp only [fresh, takeFit, touched, cell, limit, tooLarge, if_false]
  rw [movesBreak, getFreeVmrgArea, head]
  simp only [searched, if_true]
  exact ⟨by decide, rfl, rfl⟩

variable {a : AllocCall}

/-- A call that stays inside the virtual space moves the break, and records the page after each page that it
maps. -/
theorem allocStep_unfreed (unfreed : caller.mm.Unfreed) (positive : 0 < a.size) (word : a.size < 2 ^ 31)
    (within : caller.mm.mmap.sbrk + a.size ≤ 2 ^ pagingCpuBusWidth) (gets : GetsFrames caller a) :
    (allocStep caller a).mm.Unfreed ∧ (allocStep caller a).mm.mmap.sbrk = caller.mm.mmap.sbrk + a.size ∧
      (allocStep caller a).mm.mmap.vmEnd / pagingPagesz =
        caller.mm.mmap.vmEnd / pagingPagesz + (allocRequest caller.mm (cint a.size)).toNat ∧
      (allocStep caller a).mm.fifoPgn =
        (List.range' (caller.mm.mmap.vmEnd / pagingPagesz + 1)
          (allocRequest caller.mm (cint a.size)).toNat).reverse ++ caller.mm.fifoPgn := by
  have small : cint a.size = a.size := cint_of_lt word
  obtain ⟨moves, cell, fresh⟩ := getFreeVmrgArea_unfreed unfreed positive word
  obtain ⟨mmap, _, rgNodes⟩ := alloc_of_moves unfreed.aligned moves within a.regIndex
  obtain ⟨aligned, grown⟩ := alloc_area unfreed.aligned (fun _ => within) a.regIndex
  have recorded : (alloc caller a.regIndex (cint a.size)).2.2.mm.fifoPgn =
      (List.range' (caller.mm.mmap.vmEnd / pagingPagesz + 1)
        (allocRequest caller.mm (cint a.size)).toNat).reverse ++ caller.mm.fifoPgn := by
    rw [(alloc_samePaging caller a.regIndex (cint a.size)).fifoPgn, vmMapRam_fifoPgn _ _ _ gets]
    by_cases none : allocRequest caller.mm (cint a.size) = 0
    · rw [none, Int.toNat_zero, List.range'_zero, List.range'_zero]
    · rw [(alloc_pages unfreed.aligned (fun _ => within) none).2.2.1]
  rw [← small] at mmap rgNodes
  have same : (allocStep caller a).mm = (alloc caller a.regIndex (cint a.size)).2.2.mm := rfl
  rw [same]
  refine ⟨⟨aligned, ?_, ?_⟩, by rw [mmap], grown, recorded⟩
  · obtain ⟨b, head, dummy, some_block⟩ := unfreed.list
    rw [mmap, rgNodes, small]
    exact ⟨b, head, cell ▸ dummy, fresh ▸ some_block⟩
  · intro pgn member
    rw [recorded, List.mem_append, List.mem_reverse, List.mem_range'_1] at member
    rw [grown]
    rcases member with new | old
    · omega
    · exact Nat.le_add_right_of_le (unfreed.recorded pgn old)

theorem tableSafe_iff (unfreed : caller.mm.Unfreed) (positive : 0 < a.size) (word : a.size < 2 ^ 31)
    (room : caller.mm.mmap.sbrk ≤ 2 ^ pagingCpuBusWidth - pagingPagesz) (gets : GetsFrames caller a) :
    TableSafe caller a ↔ caller.mm.mmap.sbrk + a.size ≤ 2 ^ pagingCpuBusWidth - pagingPagesz := by
  have table : pagingMaxPgn = 16384 := by decide
  have step := fun within => allocStep_unfreed unfreed positive word within gets
  simp only [pagingCpuBusWidth, pagingPagesz] at room step ⊢
  constructor
  · intro safe
    by_contra beyond
    by_cases within : caller.mm.mmap.sbrk + a.size ≤ 2 ^ 22
    · obtain ⟨unfreed', sbrk, grown, recorded⟩ := step within
      have limit := unfreed.aligned.limit
      have limit' := unfreed'.aligned.limit
      rw [sbrk] at limit'
      rw [pagingPageAlignsz_of_lt (by omega)] at limit limit'
      obtain ⟨last, pages⟩ : ∃ n, (allocRequest caller.mm (cint a.size)).toNat = n + 1 :=
        Nat.exists_eq_succ_of_ne_zero (by omega)
      rw [pages, List.range'_1_concat, List.reverse_append, List.reverse_singleton] at recorded
      have read := safe.examined _ (mem_examinedPages recorded)
      omega
    · exact safe.refused (Nat.not_le.mp within) (pgalloc_status caller a.size a.regIndex)
  · intro below
    obtain ⟨unfreed', sbrk, grown, _⟩ := step (by omega)
    have limit' := unfreed'.aligned.limit
    rw [sbrk, pagingPageAlignsz_of_lt (by omega)] at limit'
    have within : movesBreak caller.mm (cint a.size) →
        caller.mm.mmap.sbrk + a.size ≤ 2 ^ pagingCpuBusWidth := by
      simp only [pagingCpuBusWidth]
      omega
    refine ⟨?_, ?_, ?_, ?_⟩
    · intro pgn member
      obtain ⟨from_first, to_last⟩ := mem_writtenPages.mp member
      have none : allocRequest caller.mm (cint a.size) ≠ 0 := by
        intro none
        rw [none, Int.toNat_zero, Nat.add_zero] at to_last
        exact absurd from_first (Nat.not_le.mpr to_last)
      rw [(alloc_pages unfreed.aligned within none).2.2.1] at to_last
      simp only [pagingPagesz] at to_last
      omega
    · intro pgn member
      have bound := unfreed'.recorded pgn (examinedPages_subset _ member)
      simp only [pagingPagesz] at bound
      omega
    · intro pgn other first second different
      rw [pagingPgn_eq, pagingPgn_eq, BitVec.toNat_ofNat, BitVec.toNat_ofNat]
      simp only [pagingPagesz] at first second ⊢
      omega
    · simp only [pagingCpuBusWidth]
      omega

/-- An allocation that leaves the last page unused grows the heap by its size. -/
theorem allocStep_of_below (unfreed : caller.mm.Unfreed) (positive : 0 < a.size) (word : a.size < 2 ^ 31)
    (below : caller.mm.mmap.sbrk + a.size ≤ 2 ^ pagingCpuBusWidth - pagingPagesz) (gets : GetsFrames caller a) :
    (allocStep caller a).mm.Unfreed ∧ (allocStep caller a).mm.mmap.sbrk = caller.mm.mmap.sbrk + a.size := by
  have within : caller.mm.mmap.sbrk + a.size ≤ 2 ^ pagingCpuBusWidth := below.trans (Nat.sub_le _ _)
  obtain ⟨unfreed', sbrk, _, _⟩ := allocStep_unfreed unfreed positive word within gets
  exact ⟨unfreed', sbrk⟩

end Step

/-- A run of allocations is safe exactly when together they leave the last page unused. -/
theorem along_tableSafe_iff {caller : Caller} {allocs : List AllocCall} (unfreed : caller.mm.Unfreed)
    (room : caller.mm.mmap.sbrk ≤ 2 ^ pagingCpuBusWidth - pagingPagesz)
    (sizes : ∀ a ∈ allocs, 0 < a.size ∧ a.size < 2 ^ 31) (gets : Along allocStep GetsFrames caller allocs) :
    Along allocStep TableSafe caller allocs ↔
      caller.mm.mmap.sbrk + (allocs.map AllocCall.size).sum ≤ 2 ^ pagingCpuBusWidth - pagingPagesz := by
  induction allocs generalizing caller with
  | nil => simpa [Along] using room
  | cons a rest ih =>
      obtain ⟨positive, word⟩ := sizes a (by simp)
      have this_step := tableSafe_iff unfreed positive word room gets.1
      rw [Along, this_step, List.map_cons, List.sum_cons]
      constructor
      · rintro ⟨below, later⟩
        obtain ⟨unfreed', sbrk⟩ := allocStep_of_below unfreed positive word below gets.1
        have rest_below := (ih unfreed' (sbrk ▸ below) (fun b member => sizes b (by simp [member])) gets.2).mp later
        omega
      · intro total
        have below : caller.mm.mmap.sbrk + a.size ≤ 2 ^ pagingCpuBusWidth - pagingPagesz := by omega
        obtain ⟨unfreed', sbrk⟩ := allocStep_of_below unfreed positive word below gets.1
        refine ⟨below, (ih unfreed' (sbrk ▸ below) (fun b member => sizes b (by simp [member])) gets.2).mpr ?_⟩
        omega

theorem tableSafe_sum_iff {caller : Caller} {block : MmStruct} (zero : ZeroBlock block)
    (fresh : caller.mm = initMm block) {allocs : List AllocCall}
    (calls : ∀ a ∈ allocs, a.regIndex < pagingMaxSymtblSz ∧ 0 < a.size ∧ a.size < 2 ^ 31)
    (gets : Along allocStep GetsFrames caller allocs) :
    Along allocStep TableSafe caller allocs ↔
      (allocs.map AllocCall.size).sum ≤ 2 ^ pagingCpuBusWidth - pagingPagesz := by
  have unfreed : caller.mm.Unfreed := fresh ▸ initMm_unfreed zero
  have sbrk : caller.mm.mmap.sbrk = 0 := by
    rw [fresh]
    rfl
  have sizes : ∀ a ∈ allocs, 0 < a.size ∧ a.size < 2 ^ 31 := fun a member => (calls a member).2
  have along := along_tableSafe_iff unfreed (sbrk ▸ Nat.zero_le _) sizes gets
  rwa [sbrk, Nat.zero_add] at along

theorem tinyBoot_tableSafe_iff :
    Along allocStep TableSafe (tinyBoot.caller 0) [⟨300, 0⟩, ⟨400, 1⟩] ↔
      ([⟨300, 0⟩, ⟨400, 1⟩].map AllocCall.size).sum ≤ 2 ^ pagingCpuBusWidth - pagingPagesz :=
  tableSafe_sum_iff zeroBlock_zero rfl (by decide) ⟨by decide, by decide, trivial⟩

/-- A process over 1 MB of RAM and 16 MB of swap. -/
def sampleCaller : Caller := (bootSystem zeroBlock (fun _ => 0) 0x100000 0x1000000).caller 0

/-- It allocates one byte more than 4 MB: the entry behind the page table is written, and the call reports
success. -/
theorem sampleCaller_not_tableSafe :
    Along allocStep GetsFrames sampleCaller [⟨2 ^ 22 + 1, 0⟩] ∧
      16384 ∈ writtenPages sampleCaller (2 ^ 22 + 1) ∧ ¬ 16384 < pagingMaxPgn ∧
      (pgalloc sampleCaller (2 ^ 22 + 1) 0).1 = 0 ∧
      ¬ Along allocStep TableSafe sampleCaller [⟨2 ^ 22 + 1, 0⟩] := by
  have request : allocRequest sampleCaller.mm (cint (2 ^ 22 + 1 : Nat)) = 16385 := by decide +kernel
  have first : pagingPgn (BitVec.ofInt 32 (cint sampleCaller.mm.mmap.vmEnd)) = 0 := by decide +kernel
  have written : 16384 ∈ writtenPages sampleCaller (2 ^ 22 + 1) := by
    rw [mem_writtenPages, request, first]
    decide
  have gets : GetsFrames sampleCaller ⟨2 ^ 22 + 1, 0⟩ := by
    rw [GetsFrames, request, enoughFrames]
    simp [sampleCaller, bootSystem, System.caller, initMemphy, memphyFormat, pagingPagesz]
  refine ⟨⟨gets, trivial⟩, written, by decide, pgalloc_status _ _ _, fun safe => ?_⟩
  exact absurd (safe.1.written 16384 written) (by decide)

end OsSim.Paging
