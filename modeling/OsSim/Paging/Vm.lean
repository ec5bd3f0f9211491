import OsSim.Paging.Mm

namespace OsSim.Paging
open NodeHeap

/-- What the paging functions reach through a pcb: the memory of the process and the devices it shares. -/
structure Caller where
  mm : MmStruct
  mram : Memphy
  activeMswp : Memphy

/-! ## Mapping pages -/

/-- The frames go to the front of the lists, so they come out in the opposite order. -/
def allocPagesRange : Nat → Caller → List Nat → List Nat → Int × Caller × List Nat × List Nat
  | 0, caller, frmLst, frmLstSwap => (0, caller, frmLst, frmLstSwap)
  | reqPgnum + 1, caller, frmLst, frmLstSwap =>
      match memphyGetFreefp caller.mram with
      | some (fpn, mram) =>
          allocPagesRange reqPgnum { caller with mram := memphyPutUsedfp mram fpn }
            (fpn :: frmLst) frmLstSwap
      | none =>
          match memphyGetFreefp caller.activeMswp with
          | some (fpn, activeMswp) =>
              allocPagesRange reqPgnum
                { caller with activeMswp := memphyPutUsedfp activeMswp fpn } frmLst (fpn :: frmLstSwap)
          | none => (-3000, caller, frmLst, frmLstSwap)

/-- One loop of `vmapPageRange`. The page number is recorded after `pgit` was counted up. -/
def vmapFrames (pteSet : BitVec 32 → Nat → BitVec 32) (pgn : Nat) :
    List Nat → Nat → MmStruct → Nat × MmStruct
  | [], pgit, mm => (pgit, mm)
  | fpn :: frames, pgit, mm =>
      let pgd := Function.update mm.pgd (pgn + pgit) (pteSet (mm.pgd (pgn + pgit)) fpn)
      vmapFrames pteSet pgn frames (pgit + 1)
        { mm with pgd, fifoPgn := enlistPgnNode mm.fifoPgn (pgn + (pgit + 1)) }

def vmapPageRange (caller : Caller) (addr : Int) (frames frmLstSwap : List Nat) : Caller :=
  let pgn := pagingPgn (BitVec.ofInt 32 addr)
  let (pgit, mm) := vmapFrames pteSetFpn pgn frames 0 caller.mm
  let (_, mm) := vmapFrames (fun pte swpoff => pteSetSwap pte 0 swpoff) pgn frmLstSwap pgit mm
  { caller with mm }

def vmMapRam (caller : Caller) (mapstart incpgnum : Int) : Int × Caller :=
  match allocPagesRange incpgnum.toNat caller [] [] with
  | (retAlloc, caller, frmLst, frmLstSwap) =>
      if retAlloc < 0 then (-1, caller)
      else (0, vmapPageRange caller mapstart frmLst frmLstSwap)

/-! ## Allocating and freeing regions -/

def getVmAreaNodeAtBrk (mm : MmStruct) (size : Int) : VmRg × MmStruct :=
  let rgStart := mm.mmap.sbrk
  (⟨rgStart, ulong (rgStart + size)⟩,
    { mm with mmap := { mm.mmap with sbrk := ulong (mm.mmap.sbrk + size) } })

def validateOverlapVmArea (_vmastart _vmaend : Int) : Int := 0

def incAmt (mm : MmStruct) (originSize : Int) : Int :=
  cint (pagingPageAlignsz (ulong (originSize + mm.mmap.sbrk)) - pagingPageAlignsz mm.mmap.sbrk)

def incVmaLimit (caller : Caller) (originSize : Int) : Int × Caller :=
  let incAmt := incAmt caller.mm originSize
  let incnumpage := incAmt.tdiv pagingPagesz
  let (area, mm) := getVmAreaNodeAtBrk caller.mm originSize
  let oldEnd := cint mm.mmap.vmEnd
  if validateOverlapVmArea (cint area.rgStart) (cint area.rgEnd) < 0 then (-1, { caller with mm })
  else
    let mm := { mm with mmap := { mm.mmap with vmEnd := ulong (mm.mmap.vmEnd + incAmt) } }
    let (ret, caller) := vmMapRam { caller with mm } oldEnd incnumpage
    if ret < 0 then (-1, caller) else (0, caller)

/-- At `pagingMaxSymtblSz` the start of the region is the word of `fifoPgn`. -/
def setSymrg (mm : MmStruct) (rgid : Nat) (rg : VmRg) : MmStruct :=
  { mm with symrgtbl := Function.update mm.symrgtbl rgid rg }

/-- The condition of `alloc`: the new region does not fit in the current page. -/
def exceedsPage (mm : MmStruct) (size : Int) : Bool :=
  ulong (size + mm.mmap.sbrk) > pagingPageAlignsz mm.mmap.sbrk || mm.mmap.sbrk = mm.mmap.vmEnd

/-- The status and the address of the region. The return value of `incVmaLimit` is not looked at. -/
def alloc (caller : Caller) (rgid : Nat) (size : Int) : Int × Int × Caller :=
  let (found, rgnode, mm) := getFreeVmrgArea caller.mm size
  if found = 0 then (0, cint rgnode.rgStart, { caller with mm := setSymrg mm rgid rgnode })
  else
    let sbrk := mm.mmap.sbrk
    let oldSbrk := cint sbrk
    let caller :=
      if exceedsPage mm size then (incVmaLimit { caller with mm } size).2
      else { caller with mm := { mm with mmap := { mm.mmap with sbrk := ulong (sbrk + size) } } }
    let rg : VmRg := ⟨ulong oldSbrk, ulong (cint (oldSbrk + size))⟩
    (0, cint rg.rgStart, { caller with mm := setSymrg caller.mm rgid rg })

def pgalloc (caller : Caller) (size regIndex : Nat) : Int × Caller :=
  let (status, _, caller) := alloc caller regIndex (cint size)
  (status, caller)

def free (caller : Caller) (rgid : Nat) (g : Garbage) : Int × Caller :=
  if rgid > pagingMaxSymtblSz then (-1, caller)
  else
    let (_, mm) := enlistVmFreergList caller.mm (caller.mm.symrgtbl rgid) g
    (0, { caller with mm := setSymrg mm rgid ⟨0, 0⟩ })

def pgfreeData (caller : Caller) (regIndex : Nat) (g : Garbage) : Int × Caller :=
  free caller regIndex g

/-! ## Bringing pages in -/

/-- The branch of `pgGetpage` for a page that is not present: the victim goes to the frame `swpfpn` of the
swap and the page comes into the frame of the victim. -/
def swapPage (caller : Caller) (pgn vicpgn : Nat) (g : Garbage) : Caller :=
  let tgtfpn := pagingSwp (caller.mm.pgd pgn)
  let vicfpn := pagingFpn (caller.mm.pgd vicpgn)
  let (swpfpn, activeMswp) :=
    (memphyGetFreefp caller.activeMswp).getD (g.swpfpn, caller.activeMswp)
  let (mram, activeMswp) := swapCpPage caller.mram vicfpn activeMswp swpfpn g.data
  let (activeMswp, mram) := swapCpPage activeMswp tgtfpn mram vicfpn g.data
  let pgd := Function.update caller.mm.pgd vicpgn (pteSetSwap (caller.mm.pgd vicpgn) 0 swpfpn)
  let pgd := Function.update pgd pgn (pteSetFpn (pgd pgn) vicfpn)
  { mm := { caller.mm with pgd, fifoPgn := enlistPgnNode caller.mm.fifoPgn pgn }, mram, activeMswp }

/-- The frame number and the memory after the call; `none` is the return value -1, which changes nothing.
The frame number is read from the entry as it was when the call began. -/
def pgGetpage (caller : Caller) (pgn : Nat) (g : Garbage) : Option (Nat × Caller) :=
  let pte := caller.mm.pgd pgn
  if !pagingPagePresent pte then
    match findVictimPage caller.mm with
    | none => none
    | some vicpgn => some (pagingFpn pte, swapPage caller pgn vicpgn g)
  else some (pagingFpn pte, caller)

def phyaddr (fpn off : Nat) : Nat := fpn <<< pagingAddrFpnLobit + off

def pgGetval (caller : Caller) (addr : BitVec 32) (g : Garbage) : Option (Byte × Caller) :=
  match pgGetpage caller (pagingPgn addr) g with
  | none => none
  | some (fpn, caller) =>
      let (data, mram) :=
        (memphyRead caller.mram (phyaddr fpn (pagingOffst addr))).getD (g.data, caller.mram)
      some (data, { caller with mram })

def pgSetval (caller : Caller) (addr : BitVec 32) (value : Byte) (g : Garbage) : Option Caller :=
  match pgGetpage caller (pagingPgn addr) g with
  | none => none
  | some (fpn, caller) =>
      let mram :=
        (memphyWrite caller.mram (phyaddr fpn (pagingOffst addr)) value).getD caller.mram
      some { caller with mram }

/-! ## Reading and writing regions -/

/-- The address of an access: `rg_start + offset`, passed on as an `int`. -/
def accessAddr (rg : VmRg) (offset : Nat) : BitVec 32 := BitVec.ofNat 32 (rg.rgStart + offset)

def read (caller : Caller) (rgid offset : Nat) (g : Garbage) : Int × Byte × Caller :=
  match getSymrgByid caller.mm rgid, getVmaByNum 0 caller.mm.areas with
  | some currg, some _ =>
      let (data, caller) := (pgGetval caller (accessAddr currg offset) g).getD (g.data, caller)
      (0, data, caller)
  | _, _ => (-1, g.data, caller)

def write (caller : Caller) (rgid offset : Nat) (value : Byte) (g : Garbage) : Int × Caller :=
  match getSymrgByid caller.mm rgid, getVmaByNum 0 caller.mm.areas with
  | some currg, some _ => (0, (pgSetval caller (accessAddr currg offset) value g).getD caller)
  | _, _ => (-1, caller)

/-- The test of `pgread` and `pgwrite`: the offset is compared with the size as unsigned numbers. -/
def offsetRejected (mm : MmStruct) (rgid offset : Nat) : Bool :=
  let rg := mm.symrgtbl rgid
  offset > uint (rg.rgEnd - rg.rgStart)

/-- The status, the byte that is reported and the memory after the call. -/
def pgread (caller : Caller) (source offset : Nat) (g : Garbage) : Int × Byte × Caller :=
  if offsetRejected caller.mm source offset then (-1, g.data, caller)
  else read caller source offset g

def pgwrite (caller : Caller) (data : Byte) (destination offset : Nat) (g : Garbage) :
    Int × Caller :=
  if offsetRejected caller.mm destination offset then (-1, caller)
  else write caller destination offset data g

end OsSim.Paging
