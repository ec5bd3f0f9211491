import OsSim.Paging.Frames

namespace OsSim.Paging
open NodeHeap

/-! ## Callers that paging does not tell apart -/

/-- Two callers with the same page table, replacement list and frame lists. The bytes stored on the devices,
the regions and the area may differ. -/
structure SamePaging (caller caller' : Caller) : Prop where
  pgd : caller'.mm.pgd = caller.mm.pgd
  fifoPgn : caller'.mm.fifoPgn = caller.mm.fifoPgn
  mram : SameFrames caller.mram caller'.mram
  activeMswp : SameFrames caller.activeMswp caller'.activeMswp

theorem SamePaging.refl (caller : Caller) : SamePaging caller caller :=
  ⟨rfl, rfl, SameFrames.refl _, SameFrames.refl _⟩

theorem SamePaging.trans {caller caller' caller'' : Caller} (first : SamePaging caller caller')
    (second : SamePaging caller' caller'') : SamePaging caller caller'' :=
  ⟨second.pgd.trans first.pgd, second.fifoPgn.trans first.fifoPgn, first.mram.trans second.mram,
    first.activeMswp.trans second.activeMswp⟩

theorem SamePaging.of_mm {caller : Caller} {mm : MmStruct} (pgd : mm.pgd = caller.mm.pgd)
    (fifoPgn : mm.fifoPgn = caller.mm.fifoPgn) : SamePaging caller { caller with mm } :=
  ⟨pgd, fifoPgn, SameFrames.refl _, SameFrames.refl _⟩

theorem vmapFrames_congr (pteSet : BitVec 32 → Nat → BitVec 32) (pgn : Nat) (frames : List Nat)
    (pgit : Nat) {mm mm' : MmStruct} (pgd : mm'.pgd = mm.pgd) (fifoPgn : mm'.fifoPgn = mm.fifoPgn) :
    (vmapFrames pteSet pgn frames pgit mm').2.pgd = (vmapFrames pteSet pgn frames pgit mm).2.pgd ∧
      (vmapFrames pteSet pgn frames pgit mm').2.fifoPgn =
        (vmapFrames pteSet pgn frames pgit mm).2.fifoPgn := by
  induction frames generalizing pgit mm mm' with
  | nil => exact ⟨pgd, fifoPgn⟩
  | cons fpn rest ih =>
      rw [vmapFrames, vmapFrames]
      exact ih _ (by simp only [pgd]) (by simp only [fifoPgn])

theorem SamePaging.takeBoth {caller caller' : Caller} (same : SamePaging caller caller')
    (incpgnum : Int) : SamePaging (takeBoth caller incpgnum) (takeBoth caller' incpgnum) := by
  obtain ⟨pgd, fifoPgn, ⟨maxsz, rdmflg, free, used⟩, ⟨maxsz', rdmflg', free', used'⟩⟩ := same
  refine ⟨pgd, fifoPgn, ⟨maxsz, rdmflg, ?_, ?_⟩, ⟨maxsz', rdmflg', ?_, ?_⟩⟩ <;>
    simp only [OsSim.Paging.takeBoth, takeFrames, free, used, free', used']

theorem SamePaging.vmMapRam {caller caller' : Caller} (same : SamePaging caller caller')
    (mapstart incpgnum : Int) :
    SamePaging (vmMapRam caller mapstart incpgnum).2 (vmMapRam caller' mapstart incpgnum).2 := by
  have taken := same.takeBoth incpgnum
  have freeRam := same.mram.freeFpList
  have freeSwap := same.activeMswp.freeFpList
  have enough : enoughFrames caller' incpgnum ↔ enoughFrames caller incpgnum := by
    simp only [enoughFrames, freeRam, freeSwap]
  rw [vmMapRam_eq, vmMapRam_eq, freeRam, freeSwap]
  by_cases can : enoughFrames caller incpgnum
  · rw [if_pos can, if_pos (enough.mpr can)]
    obtain ⟨pgd, fifoPgn⟩ := vmapFrames_congr pteSetFpn (pagingPgn (BitVec.ofInt 32 mapstart))
      (caller.mram.freeFpList.take incpgnum.toNat).reverse 0 taken.pgd taken.fifoPgn
    simp only [vmapPageRange, vmapFrames_fst]
    obtain ⟨pgd', fifoPgn'⟩ := vmapFrames_congr (fun pte swpoff => pteSetSwap pte 0 swpoff)
      (pagingPgn (BitVec.ofInt 32 mapstart))
      (caller.activeMswp.freeFpList.take (incpgnum.toNat - caller.mram.freeFpList.length)).reverse
      (0 + (caller.mram.freeFpList.take incpgnum.toNat).reverse.length) pgd fifoPgn
    exact ⟨pgd', fifoPgn', taken.mram, taken.activeMswp⟩
  · rw [if_neg can, if_neg (fun can' => can (enough.mp can'))]
    exact taken

/-! ## Allocations -/

theorem getFreeVmrgArea_mm (mm : MmStruct) (size : Int) :
    (getFreeVmrgArea mm size).2.2 =
      { mm with rgNodes := (getFreeVmrgArea mm size).2.2.rgNodes } := by
  unfold getFreeVmrgArea
  cases mm.mmap.vmFreergList <;> rfl

/-- The number of pages that `alloc` asks `vmMapRam` for. -/
def allocRequest (mm : MmStruct) (size : Int) : Int :=
  if (getFreeVmrgArea mm size).1 = 0 then 0
  else if exceedsPage mm size then (incAmt mm size).tdiv pagingPagesz
  else 0

theorem vmMapRam_zero (caller : Caller) (mapstart : Int) :
    vmMapRam caller mapstart 0 = (0, caller) := by
  simp [vmMapRam, allocPagesRange, vmapPageRange, vmapFrames]

def growArea (mm : MmStruct) (size : Int) : MmStruct :=
  { mm with
    mmap := { mm.mmap with
      sbrk := ulong (mm.mmap.sbrk + size)
      vmEnd := ulong (mm.mmap.vmEnd + incAmt mm size) } }

theorem incVmaLimit_snd (caller : Caller) (size : Int) :
    (incVmaLimit caller size).2 =
      (vmMapRam { caller with mm := growArea caller.mm size } (cint caller.mm.mmap.vmEnd)
        ((incAmt caller.mm size).tdiv pagingPagesz)).2 := by
  simp only [incVmaLimit, validateOverlapVmArea, getVmAreaNodeAtBrk, Int.lt_irrefl, if_false]
  exact (apply_ite Prod.snd _ _ _).trans (ite_self _)

theorem incVmaLimit_samePaging (caller : Caller) (size : Int) :
    SamePaging (vmMapRam caller (cint caller.mm.mmap.vmEnd)
      ((incAmt caller.mm size).tdiv pagingPagesz)).2 (incVmaLimit caller size).2 := by
  have same : SamePaging caller { caller with mm := growArea caller.mm size } :=
    SamePaging.of_mm rfl rfl
  rw [incVmaLimit_snd]
  exact same.vmMapRam _ _

theorem alloc_samePaging (caller : Caller) (rgid : Nat) (size : Int) :
    SamePaging (vmMapRam caller (cint caller.mm.mmap.vmEnd) (allocRequest caller.mm size)).2
      (alloc caller rgid size).2.2 := by
  have searched := getFreeVmrgArea_mm caller.mm size
  rw [alloc, allocRequest]
  generalize getFreeVmrgArea caller.mm size = area at searched ⊢
  obtain ⟨found, rgnode, mm⟩ := area
  dsimp only at searched ⊢
  have fields : mm.pgd = caller.mm.pgd ∧ mm.fifoPgn = caller.mm.fifoPgn ∧
      mm.mmap = caller.mm.mmap := by
    rw [searched]
    exact ⟨rfl, rfl, rfl⟩
  obtain ⟨pgd, fifoPgn, mmap⟩ := fields
  have exceeds : exceedsPage mm size = exceedsPage caller.mm size := by
    simp only [exceedsPage, mmap]
  by_cases hit : found = 0
  · rw [if_pos hit, if_pos hit, vmMapRam_zero]
    exact SamePaging.of_mm pgd fifoPgn
  · rw [if_neg hit, if_neg hit, exceeds]
    by_cases more : exceedsPage caller.mm size = true
    · rw [if_pos more, if_pos more]
      have same : SamePaging caller { caller with mm } := SamePaging.of_mm pgd fifoPgn
      have amount : incAmt mm size = incAmt caller.mm size := by simp only [incAmt, mmap]
      have limit := incVmaLimit_samePaging { caller with mm } size
      simp only [mmap, amount] at limit
      have mapped := (same.vmMapRam (cint caller.mm.mmap.vmEnd)
        ((incAmt caller.mm size).tdiv pagingPagesz)).trans limit
      exact mapped.trans (SamePaging.of_mm rfl rfl)
    · rw [if_neg more, if_neg more, vmMapRam_zero]
      exact SamePaging.of_mm pgd fifoPgn

/-! ## Frees -/

theorem enlistVmFreergList_same (mm : MmStruct) (rgElmt : VmRg) (g : Garbage) :
    (enlistVmFreergList mm rgElmt g).2.pgd = mm.pgd ∧
      (enlistVmFreergList mm rgElmt g).2.fifoPgn = mm.fifoPgn := by
  unfold enlistVmFreergList
  split
  · exact ⟨rfl, rfl⟩
  · dsimp only
    split <;> exact ⟨rfl, rfl⟩

theorem free_samePaging (caller : Caller) (rgid : Nat) (g : Garbage) :
    SamePaging caller (free caller rgid g).2 := by
  obtain ⟨pgd, fifoPgn⟩ := enlistVmFreergList_same caller.mm (caller.mm.symrgtbl rgid) g
  rw [free]
  split
  · exact SamePaging.refl caller
  · exact SamePaging.of_mm pgd fifoPgn

/-! ## Page faults -/

/-- The victim of the page fault that `pgGetpage` serves for the page `pgn`. -/
def faultVictim (mm : MmStruct) (pgn : Nat) : Option Nat :=
  if pagingPagePresent (mm.pgd pgn) then none else findVictimPage mm

theorem pagingPagePresent_of_findVictimPage {mm : MmStruct} {vicpgn : Nat}
    (found : findVictimPage mm = some vicpgn) : pagingPagePresent (mm.pgd vicpgn) = true := by
  simpa using List.find?_some found

theorem faultVictim_eq_some {mm : MmStruct} {pgn vicpgn : Nat} :
    faultVictim mm pgn = some vicpgn ↔
      pagingPagePresent (mm.pgd pgn) = false ∧ findVictimPage mm = some vicpgn := by
  cases present : pagingPagePresent (mm.pgd pgn) <;> simp [faultVictim, present]

theorem ne_of_faultVictim {mm : MmStruct} {pgn vicpgn : Nat}
    (fault : faultVictim mm pgn = some vicpgn) : pgn ≠ vicpgn := by
  obtain ⟨absent, found⟩ := faultVictim_eq_some.mp fault
  rintro rfl
  rw [pagingPagePresent_of_findVictimPage found] at absent
  cases absent

def faultSwpfpn (caller : Caller) (g : Garbage) : Nat :=
  ((memphyGetFreefp caller.activeMswp).getD (g.swpfpn, caller.activeMswp)).1

theorem faultSwpfpn_of_free {caller : Caller} {fpn : Nat} {rest : List Nat}
    (free : caller.activeMswp.freeFpList = fpn :: rest) (g : Garbage) :
    faultSwpfpn caller g = fpn := by
  simp [faultSwpfpn, memphyGetFreefp, free]

theorem swapPage_pgd (caller : Caller) (g : Garbage) {pgn vicpgn : Nat} (different : pgn ≠ vicpgn) :
    (swapPage caller pgn vicpgn g).mm.pgd =
      Function.update
        (Function.update caller.mm.pgd vicpgn
          (pteSetSwap (caller.mm.pgd vicpgn) 0 (faultSwpfpn caller g)))
        pgn (pteSetFpn (caller.mm.pgd pgn) (pagingFpn (caller.mm.pgd vicpgn))) := by
  simp only [swapPage, faultSwpfpn, Function.update_of_ne different]

/-- What holds of an entry after a page fault, if it holds of what the fault writes and of the entry before. -/
theorem swapPage_entry {P : BitVec 32 → Prop} (caller : Caller) (g : Garbage) {pgn vicpgn : Nat}
    (different : pgn ≠ vicpgn) {i : Nat}
    (brought : P (pteSetFpn (caller.mm.pgd pgn) (pagingFpn (caller.mm.pgd vicpgn))))
    (evicted : P (pteSetSwap (caller.mm.pgd vicpgn) 0 (faultSwpfpn caller g)))
    (kept : P (caller.mm.pgd i)) : P ((swapPage caller pgn vicpgn g).mm.pgd i) := by
  rw [swapPage_pgd caller g different]
  by_cases page : i = pgn
  · subst page
    rwa [Function.update_self]
  · rw [Function.update_of_ne page]
    by_cases victim : i = vicpgn
    · subst victim
      rwa [Function.update_self]
    · rwa [Function.update_of_ne victim]

theorem swapPage_mram (caller : Caller) (pgn vicpgn : Nat) (g : Garbage) :
    SameFrames caller.mram (swapPage caller pgn vicpgn g).mram := by
  have copied : SameFrames caller.mram (swapCpPage (swapPage caller pgn vicpgn g).activeMswp
      (pagingSwp (caller.mm.pgd pgn)) caller.mram (pagingFpn (caller.mm.pgd vicpgn)) g.data).2 :=
    swapCpPage_sameFrames
  simpa only [swapPage, swapCpPage_fst] using copied

theorem swapPage_activeMswp (caller : Caller) (pgn vicpgn : Nat) (g : Garbage) :
    (swapPage caller pgn vicpgn g).activeMswp.freeFpList = caller.activeMswp.freeFpList.tail := by
  simp only [swapPage, swapCpPage_fst]
  rw [swapCpPage_sameFrames.freeFpList]
  cases free : caller.activeMswp.freeFpList <;> simp [memphyGetFreefp, free]

def afterGetpage (caller : Caller) (pgn : Nat) (g : Garbage) : Caller :=
  match faultVictim caller.mm pgn with
  | none => caller
  | some vicpgn => swapPage caller pgn vicpgn g

/-- `pgGetpage` fails for a page that is not present, when the process has no victim. -/
def unservable (mm : MmStruct) (pgn : Nat) : Prop :=
  pagingPagePresent (mm.pgd pgn) = false ∧ findVictimPage mm = none

instance (mm : MmStruct) (pgn : Nat) : Decidable (unservable mm pgn) :=
  inferInstanceAs (Decidable (_ ∧ _))

theorem pgGetpage_eq (caller : Caller) (pgn : Nat) (g : Garbage) :
    pgGetpage caller pgn g =
      if unservable caller.mm pgn then none
      else some (pagingFpn (caller.mm.pgd pgn), afterGetpage caller pgn g) := by
  cases present : pagingPagePresent (caller.mm.pgd pgn) with
  | true => simp [pgGetpage, unservable, afterGetpage, faultVictim, present]
  | false =>
      cases victim : findVictimPage caller.mm <;>
        simp [pgGetpage, unservable, afterGetpage, faultVictim, present, victim]

theorem afterGetpage_of_unservable {caller : Caller} {pgn : Nat}
    (stuck : unservable caller.mm pgn) (g : Garbage) : afterGetpage caller pgn g = caller := by
  simp [afterGetpage, faultVictim, stuck.1, stuck.2]

theorem pgGetval_eq (caller : Caller) (addr : BitVec 32) (g : Garbage) :
    pgGetval caller addr g =
      if unservable caller.mm (pagingPgn addr) then none
      else
        let after := afterGetpage caller (pagingPgn addr) g
        some (((memphyRead after.mram (phyaddr (pagingFpn (caller.mm.pgd (pagingPgn addr)))
          (pagingOffst addr))).getD (g.data, after.mram)).1, after) := by
  rw [pgGetval, pgGetpage_eq]
  by_cases stuck : unservable caller.mm (pagingPgn addr)
  · rw [if_pos stuck, if_pos stuck]
  · rw [if_neg stuck, if_neg stuck]
    simp only [memphyRead_eq]

theorem pgSetval_eq (caller : Caller) (addr : BitVec 32) (value : Byte) (g : Garbage) :
    pgSetval caller addr value g =
      if unservable caller.mm (pagingPgn addr) then none
      else
        let after := afterGetpage caller (pagingPgn addr) g
        some { after with mram :=
          (memphyWrite after.mram (phyaddr (pagingFpn (caller.mm.pgd (pagingPgn addr)))
            (pagingOffst addr)) value).getD after.mram } := by
  rw [pgSetval, pgGetpage_eq]
  by_cases stuck : unservable caller.mm (pagingPgn addr)
  · rw [if_pos stuck, if_pos stuck]
  · rw [if_neg stuck, if_neg stuck]

theorem pgGetval_getD (caller : Caller) (addr : BitVec 32) (g : Garbage) (data : Byte) :
    ((pgGetval caller addr g).getD (data, caller)).2 = afterGetpage caller (pagingPgn addr) g := by
  rw [pgGetval_eq]
  by_cases stuck : unservable caller.mm (pagingPgn addr)
  · rw [if_pos stuck, Option.getD_none, afterGetpage_of_unservable stuck]
  · rw [if_neg stuck, Option.getD_some]

theorem pgSetval_samePaging (caller : Caller) (addr : BitVec 32) (value : Byte) (g : Garbage) :
    SamePaging (afterGetpage caller (pagingPgn addr) g)
      ((pgSetval caller addr value g).getD caller) := by
  rw [pgSetval_eq]
  by_cases stuck : unservable caller.mm (pagingPgn addr)
  · rw [if_pos stuck, Option.getD_none, afterGetpage_of_unservable stuck]
    exact SamePaging.refl caller
  · rw [if_neg stuck, Option.getD_some]
    exact ⟨rfl, rfl, memphyWrite_sameFrames _ _ _, SameFrames.refl _⟩

/-! ## What one call does to the page tables and the frame lists -/

def Call.fault (mm : MmStruct) (call : Call) : Option (Nat × Nat) :=
  (call.target mm).bind fun addr => (faultVictim mm (pagingPgn addr)).map (pagingPgn addr, ·)

/-- The part of a call that paging sees. -/
def Call.paging (caller : Caller) (g : Garbage) : Call → Caller
  | .alloc size _ =>
      (vmMapRam caller (cint caller.mm.mmap.vmEnd) (allocRequest caller.mm (cint size))).2
  | call =>
      match call.target caller.mm with
      | none => caller
      | some addr => afterGetpage caller (pagingPgn addr) g

/-- `pgread` reads at its target and keeps the memory that bringing in the page leaves. -/
theorem pgread_eq (caller : Caller) (source offset : Nat) (g : Garbage) :
    (pgread caller source offset g).2 =
      match (Call.read source offset).target caller.mm with
      | none => (g.data, caller)
      | some addr => (pgGetval caller addr g).getD (g.data, caller) := by
  by_cases rejected : offsetRejected caller.mm source offset = true
  · simp [pgread, Call.target, rejected]
  · cases region : getSymrgByid caller.mm source <;>
      simp [pgread, Call.target, rejected, read, region, MmStruct.areas, getVmaByNum]

theorem pgwrite_snd (caller : Caller) (data : Byte) (destination offset : Nat) (g : Garbage) :
    (pgwrite caller data destination offset g).2 =
      match (Call.write data destination offset).target caller.mm with
      | none => caller
      | some addr => (pgSetval caller addr data g).getD caller := by
  by_cases rejected : offsetRejected caller.mm destination offset = true
  · simp [pgwrite, Call.target, rejected]
  · cases region : getSymrgByid caller.mm destination <;>
      simp [pgwrite, Call.target, rejected, write, region, MmStruct.areas, getVmaByNum]

theorem pgread_snd (caller : Caller) (source offset : Nat) (g : Garbage) :
    (pgread caller source offset g).2.2 =
      match (Call.read source offset).target caller.mm with
      | none => caller
      | some addr => afterGetpage caller (pagingPgn addr) g := by
  rw [pgread_eq]
  cases (Call.read source offset).target caller.mm with
  | none => rfl
  | some addr => exact pgGetval_getD caller addr g g.data

theorem Call.exec_getval (caller : Caller) (addr : BitVec 32) (g : Garbage) :
    (Call.getval addr).exec caller g = afterGetpage caller (pagingPgn addr) g := by
  have after := pgGetval_getD caller addr g g.data
  rw [Call.exec]
  cases result : pgGetval caller addr g with
  | none =>
      rw [result] at after
      exact after
  | some out =>
      rw [result] at after
      exact after

theorem Call.paging_of_target {caller : Caller} {call : Call} {addr : BitVec 32}
    (aimed : call.target caller.mm = some addr) (g : Garbage) :
    call.paging caller g = afterGetpage caller (pagingPgn addr) g := by
  cases call with
  | alloc | free => cases aimed
  | read | write | getval | setval => simp only [Call.paging, aimed]

/-- An access leaves what bringing in its page leaves, or it stores a byte at its target. -/
theorem Call.exec_access (caller : Caller) (g : Garbage) {call : Call} (access : call.isAccess = true) :
    call.exec caller g = call.paging caller g ∨
      ∃ addr value, call.target caller.mm = some addr ∧
        call.exec caller g = (pgSetval caller addr value g).getD caller := by
  cases call with
  | alloc | free => cases access
  | read source offset =>
      refine .inl ?_
      rw [Call.exec, pgread_snd]
      rfl
  | write data destination offset =>
      rw [Call.exec, pgwrite_snd]
      cases aimed : (Call.write data destination offset).target caller.mm with
      | none => exact .inl (by simp only [Call.paging, aimed])
      | some addr => exact .inr ⟨addr, data, rfl, rfl⟩
  | getval addr => exact .inl (Call.exec_getval caller addr g)
  | setval addr value => exact .inr ⟨addr, value, rfl, rfl⟩

theorem Call.exec_samePaging (caller : Caller) (g : Garbage) (call : Call) :
    SamePaging (call.paging caller g) (call.exec caller g) := by
  rcases call.access_or with access | ⟨size, regIndex, rfl⟩ | ⟨regIndex, rfl⟩
  · rcases Call.exec_access caller g access with brought | ⟨addr, value, aimed, stored⟩
    · rw [brought]
      exact SamePaging.refl _
    · rw [stored, Call.paging_of_target aimed]
      exact pgSetval_samePaging caller addr value g
  · exact alloc_samePaging caller regIndex (cint size)
  · exact free_samePaging caller regIndex g

/-- A call maps the pages of an allocation, or it serves a fault, or paging does not see it. -/
theorem Call.paging_cases (caller : Caller) (g : Garbage) (call : Call) :
    (∃ size regIndex, call = .alloc size regIndex) ∨
      (call.fault caller.mm = none ∧ call.paging caller g = caller) ∨
      ∃ pgn vicpgn, call.fault caller.mm = some (pgn, vicpgn) ∧
        faultVictim caller.mm pgn = some vicpgn ∧
        call.paging caller g = swapPage caller pgn vicpgn g := by
  have access : ∀ target : Option (BitVec 32), call.target caller.mm = target →
      call.paging caller g = (match target with
        | none => caller
        | some addr => afterGetpage caller (pagingPgn addr) g) →
      (call.fault caller.mm = none ∧ call.paging caller g = caller) ∨
      ∃ pgn vicpgn, call.fault caller.mm = some (pgn, vicpgn) ∧
        faultVictim caller.mm pgn = some vicpgn ∧
        call.paging caller g = swapPage caller pgn vicpgn g := by
    intro target aimed effect
    cases target with
    | none => exact .inl ⟨by simp [Call.fault, aimed], effect⟩
    | some addr =>
        cases victim : faultVictim caller.mm (pagingPgn addr) with
        | none =>
            refine .inl ⟨by simp [Call.fault, aimed, victim], ?_⟩
            simpa [afterGetpage, victim] using effect
        | some vicpgn =>
            refine .inr ⟨pagingPgn addr, vicpgn, by simp [Call.fault, aimed, victim], victim, ?_⟩
            simpa [afterGetpage, victim] using effect
  cases call with
  | alloc size regIndex => exact .inl ⟨size, regIndex, rfl⟩
  | free regIndex => exact .inr (access none rfl rfl)
  | read source offset => exact .inr (access _ rfl rfl)
  | write data destination offset => exact .inr (access _ rfl rfl)
  | getval addr => exact .inr (access _ rfl rfl)
  | setval addr value => exact .inr (access _ rfl rfl)

end OsSim.Paging
