import OsSim.Paging.Mm

namespace OsSim.Paging
open NodeHeap

def VmRg.Empty (rg : VmRg) : Prop := rg.rgStart = rg.rgEnd

def Unmapped (pte : BitVec 32) : Prop := pagingPagePresent pte = false ∧ pagingPageSwapped pte = false

/-- The memory of a process that has allocated nothing. -/
structure MmStruct.Empty (mm : MmStruct) : Prop where
  freeList : ∃ dummy, Seg mm.rgNodes.cell mm.mmap.vmFreergList [(dummy, ⟨0, 0⟩)] none
  fifoPgn : mm.fifoPgn = []
  symrgtbl : ∀ rgid, rgid < pagingMaxSymtblSz → (mm.symrgtbl rgid).Empty
  pgd : ∀ pgn, pgn < pagingMaxPgn → Unmapped (mm.pgd pgn)

/-- The blocks that `initMm` gets hold what it does not write: the links of the area and of the replacement list, and
the two tables. -/
structure MmStruct.ReadsEmpty (block : MmStruct) : Prop where
  vmFreergList : block.mmap.vmFreergList = none
  fifoPgn : block.fifoPgn = []
  symrgtbl : ∀ rgid, rgid < pagingMaxSymtblSz → (block.symrgtbl rgid).Empty
  pgd : ∀ pgn, pgn < pagingMaxPgn → Unmapped (block.pgd pgn)

theorem initMm_seg (block : MmStruct) :
    Seg (initMm block).rgNodes.cell (initMm block).mmap.vmFreergList [(block.rgNodes.fresh, ⟨0, 0⟩)]
      block.mmap.vmFreergList := by
  simp [initMm, initVmRg, enlistVmRgNode, Heap.malloc, Heap.write, Seg]

/-- The link of the dummy node is the one that the area held before. -/
theorem initMm_freeList_iff (block : MmStruct) :
    (∃ dummy, Seg (initMm block).rgNodes.cell (initMm block).mmap.vmFreergList [(dummy, ⟨0, 0⟩)] none) ↔
      block.mmap.vmFreergList = none := by
  have seg := initMm_seg block
  refine ⟨fun ⟨dummy, ended⟩ => ?_, fun none => ⟨_, none ▸ seg⟩⟩
  have same : dummy = block.rgNodes.fresh := Option.some.inj (ended.1.symm.trans seg.1)
  subst same
  exact seg.2.2.symm.trans ended.2.2

theorem ZeroBlock.readsEmpty {block : MmStruct} (zero : ZeroBlock block) : block.ReadsEmpty where
  vmFreergList := zero.vmFreergList
  fifoPgn := zero.fifoPgn
  symrgtbl := by
    intro rgid inside
    rw [zero.symrgtbl rgid inside]
    rfl
  pgd := by
    intro pgn _
    rw [zero.pgd pgn]
    exact ⟨by decide, by decide⟩

/-- A fresh process is empty exactly if its blocks read so. -/
theorem initMm_empty_iff (block : MmStruct) : (initMm block).Empty ↔ block.ReadsEmpty :=
  ⟨fun empty => ⟨(initMm_freeList_iff block).mp empty.freeList, empty.fifoPgn, empty.symrgtbl, empty.pgd⟩,
    fun reads => ⟨(initMm_freeList_iff block).mpr reads.vmFreergList, reads.fifoPgn, reads.symrgtbl, reads.pgd⟩⟩

/-- The block of a memory whose page 0 was in the frame 0. -/
def recycledBlock : MmStruct where
  pgd := fun pgn => if pgn = 0 then pteSetFpn 0#32 0 else 0#32
  mmap := { vmStart := 0, vmEnd := 0, sbrk := 0, vmFreergList := none }
  symrgtbl := fun _ => ⟨0, 0⟩
  fifoPgn := []
  rgNodes := { cell := fun _ => ⟨⟨0, 0⟩, none⟩, live := fun _ => false, fresh := 0, misused := false }

theorem recycledBlock_not_empty :
    pagingPagePresent ((initMm recycledBlock).pgd 0) = true ∧ ¬ (initMm recycledBlock).Empty := by
  have present : pagingPagePresent ((initMm recycledBlock).pgd 0) = true := by decide
  refine ⟨present, fun empty => ?_⟩
  rw [(empty.pgd 0 (by decide)).1] at present
  cases present

end OsSim.Paging
