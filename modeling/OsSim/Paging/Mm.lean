import OsSim.Lib.NodeHeap
import OsSim.Paging.Memphy

namespace OsSim.Paging
open NodeHeap

/-! ## Machine integers -/

/-- Conversion to `unsigned long`. -/
def ulong (n : Int) : Nat := (n % 2 ^ 64).toNat

/-- Conversion to `uint32_t`. -/
def uint (n : Int) : Nat := (n % 2 ^ 32).toNat

/-- Conversion to `int`. -/
def cint (n : Int) : Int := n.bmod (2 ^ 32)

def pagingPageAlignsz (sz : Nat) : Nat :=
  ulong (sz + pagingPagesz - 1) / pagingPagesz * pagingPagesz

/-! ## Regions, areas and the memory of a process -/

def pagingMaxSymtblSz : Nat := 30

structure VmRg where
  rgStart : Nat
  rgEnd : Nat
deriving DecidableEq

structure VmArea where
  vmStart : Nat
  vmEnd : Nat
  sbrk : Nat
  vmFreergList : Option Nat

/-- `symrgtbl` from index `pagingMaxSymtblSz` on and `pgd` from index `pagingMaxPgn` on stand for the
memory behind these arrays; the first word behind `symrgtbl` is that of `fifoPgn`, which is kept apart here (see
`System.InArrays`). `rgNodes` holds the blocks of the free region list. -/
structure MmStruct where
  pgd : Nat → BitVec 32
  mmap : VmArea
  symrgtbl : Nat → VmRg
  fifoPgn : List Nat
  rgNodes : Heap VmRg

/-- What the uninitialised variables of one call hold: `swpfpn` of `pgGetpage`, `data` of `swapCpPage`
and `pgread`, and the `rg_next` field of a new region node. -/
structure Garbage where
  swpfpn : Nat
  data : Byte
  rgNext : Option Nat

/-- The loop never counts `vmait` up. -/
def getVmaByNum (vmaid : Int) : List VmArea → Option VmArea
  | [] => none
  | pvma :: vmNext => if 0 < vmaid then getVmaByNum vmaid vmNext else some pvma

/-- The areas of a process: `initMm` makes one and nothing adds another. -/
def MmStruct.areas (mm : MmStruct) : List VmArea := [mm.mmap]

def getSymrgByid (mm : MmStruct) (rgid : Nat) : Option VmRg :=
  if rgid > pagingMaxSymtblSz then none else some (mm.symrgtbl rgid)

/-! ## Initialisation -/

def initVmRg (heap : Heap VmRg) (rgStart rgEnd : Nat) : Nat × Heap VmRg :=
  (heap.fresh, heap.malloc ⟨⟨rgStart, rgEnd⟩, none⟩)

def enlistVmRgNode (heap : Heap VmRg) (rglist : Option Nat) (rgnode : Nat) :
    Option Nat × Heap VmRg :=
  (some rgnode, heap.write rgnode ⟨(heap.cell rgnode).val, rglist⟩)

/-- `block` is what the memory of the structures holds before. -/
def initMm (block : MmStruct) : MmStruct :=
  let (firstRg, heap) := initVmRg block.rgNodes 0 0
  let (vmFreergList, heap) := enlistVmRgNode heap block.mmap.vmFreergList firstRg
  { block with
    mmap := { vmStart := 0, vmEnd := 0, sbrk := 0, vmFreergList }
    rgNodes := heap }

/-- Memory that reads as zero. -/
structure ZeroBlock (block : MmStruct) : Prop where
  pgd : ∀ pgn, block.pgd pgn = 0#32
  vmFreergList : block.mmap.vmFreergList = none
  symrgtbl : ∀ rgid, rgid < pagingMaxSymtblSz → block.symrgtbl rgid = ⟨0, 0⟩
  fifoPgn : block.fifoPgn = []
  rgNodes : block.rgNodes.misused = false

/-! ## The free region list -/

def deleteVmRgNode (heap : Heap VmRg) (target : Nat) : Heap VmRg :=
  let heap := heap.touch target
  let node := heap.cell target
  match node.next with
  | some nextRg =>
      let heap := heap.touch nextRg
      (heap.write target (heap.cell nextRg)).free nextRg
  | none => heap.write target ⟨⟨node.val.rgEnd, node.val.rgEnd⟩, none⟩

/-- The nodes an element can be merged with: the one above it, whose base goes down, and the one below it,
whose limit goes up. A later node of the list replaces an earlier one. -/
structure Merge where
  needDecBase : Option Nat
  needIncLimit : Option Nat

/-- The walk of `enlistVmFreergList`, for at most `fuel` nodes. -/
def findMerge (rgElmt : VmRg) : Nat → Heap VmRg → Option Nat → Merge → Heap VmRg × Merge
  | _, heap, none, merge => (heap, merge)
  | 0, heap, some _, merge => (heap, merge)
  | fuel + 1, heap, some walk, merge =>
      let heap := heap.touch walk
      let rg := (heap.cell walk).val
      if rg.rgStart = 0 ∧ rg.rgEnd = 0 then (heap, merge)
      else
        let needDecBase := if rgElmt.rgEnd = rg.rgStart then some walk else merge.needDecBase
        let needIncLimit := if rgElmt.rgStart = rg.rgEnd then some walk else merge.needIncLimit
        findMerge rgElmt fuel heap (heap.cell walk).next ⟨needDecBase, needIncLimit⟩

/-- The end of `enlistVmFreergList`: the new node `node` goes in front of the list. -/
def linkNewNode (mm : MmStruct) (heap : Heap VmRg) (node : Nat) (rg : VmRg) (g : Garbage) :
    MmStruct :=
  let rgNext := if mm.mmap.vmFreergList.isSome then mm.mmap.vmFreergList else g.rgNext
  { mm with
    mmap := { mm.mmap with vmFreergList := some node }
    rgNodes := heap.write node ⟨rg, rgNext⟩ }

def enlistVmFreergList (mm : MmStruct) (rgElmt : VmRg) (g : Garbage) : Int × MmStruct :=
  if rgElmt.rgStart ≥ rgElmt.rgEnd then (-1, mm)
  else
    let (heap, merge) :=
      findMerge rgElmt mm.rgNodes.fresh mm.rgNodes mm.mmap.vmFreergList ⟨none, none⟩
    match merge.needDecBase, merge.needIncLimit with
    | some decBase, none =>
        let node := heap.cell decBase
        (1, { mm with
          rgNodes := heap.write decBase ⟨{ node.val with rgStart := rgElmt.rgStart }, node.next⟩ })
    | none, some incLimit =>
        let node := heap.cell incLimit
        (1, { mm with
          rgNodes := heap.write incLimit ⟨{ node.val with rgEnd := rgElmt.rgEnd }, node.next⟩ })
    | some decBase, some incLimit =>
        let rg : VmRg := ⟨(heap.cell incLimit).val.rgStart, (heap.cell decBase).val.rgEnd⟩
        let newNode := heap.fresh
        let heap := ((heap.touch decBase).touch incLimit).malloc ⟨rg, g.rgNext⟩
        let heap := deleteVmRgNode heap decBase
        let heap := deleteVmRgNode heap incLimit
        (0, linkNewNode mm heap newNode rg g)
    | none, none =>
        let newNode := heap.fresh
        (0, linkNewNode mm (heap.malloc ⟨rgElmt, g.rgNext⟩) newNode rgElmt g)

/-- The walk of `getFreeVmrgArea`, for at most `fuel` nodes. A node that is used up is removed as
`deleteVmRgNode` does it. -/
def takeFit (size : Int) : Nat → Heap VmRg → Option Nat → VmRg → VmRg × Heap VmRg
  | _, heap, none, newrg => (newrg, heap)
  | 0, heap, some _, newrg => (newrg, heap)
  | fuel + 1, heap, some rgit, newrg =>
      let heap := heap.touch rgit
      let node := heap.cell rgit
      let limit := ulong (node.val.rgStart + size)
      if limit ≤ node.val.rgEnd then
        if limit < node.val.rgEnd then
          (⟨node.val.rgStart, limit⟩, heap.write rgit ⟨{ node.val with rgStart := limit }, node.next⟩)
        else (⟨node.val.rgStart, limit⟩, deleteVmRgNode heap rgit)
      else takeFit size fuel heap node.next newrg

/-- The region not found is marked by the start -1. -/
def getFreeVmrgArea (mm : MmStruct) (size : Int) : Int × VmRg × MmStruct :=
  let newrg : VmRg := ⟨ulong (-1), ulong (-1)⟩
  match mm.mmap.vmFreergList with
  | none => (-1, newrg, mm)
  | some rgit =>
      let (newrg, heap) := takeFit size mm.rgNodes.fresh mm.rgNodes (some rgit) newrg
      (if newrg.rgStart = ulong (-1) then -1 else 0, newrg, { mm with rgNodes := heap })

/-! ## The replacement list -/

def enlistPgnNode (plist : List Nat) (pgn : Nat) : List Nat := pgn :: plist

/-- The first page of the list that is present. -/
def findVictimPage (mm : MmStruct) : Option Nat :=
  mm.fifoPgn.find? fun pgn => pagingPagePresent (mm.pgd pgn)

end OsSim.Paging
