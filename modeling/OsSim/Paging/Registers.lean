import OsSim.Paging.Cpu
import OsSim.Paging.Break

namespace OsSim.Paging
open NodeHeap

-- no proof here unfolds the copy of 256 bytes
attribute [local irreducible] swapCpPage

/-! ## Entries that a call leaves alone -/

def Caller.setSymrg (caller : Caller) (rgid : Nat) (rg : VmRg) : Caller :=
  { caller with mm := Paging.setSymrg caller.mm rgid rg }

section Elsewhere

variable {caller : Caller} {mm : MmStruct} {i : Nat} {rg : VmRg} {g : Garbage}

theorem Caller.setSymrg_comm (caller : Caller) {rgid : Nat} (other : rgid ≠ i) (rg' : VmRg) :
    (caller.setSymrg i rg).setSymrg rgid rg' = (caller.setSymrg rgid rg').setSymrg i rg := by
  simp only [Caller.setSymrg, Paging.setSymrg, Function.update_comm other]

theorem vmapFrames_setSymrg (pteSet : BitVec 32 → Nat → BitVec 32) (pgn : Nat) (frames : List Nat) (pgit : Nat) :
    vmapFrames pteSet pgn frames pgit (setSymrg mm i rg) =
      ((vmapFrames pteSet pgn frames pgit mm).1, setSymrg (vmapFrames pteSet pgn frames pgit mm).2 i rg) := by
  induction frames generalizing pgit mm with
  | nil => rfl
  | cons fpn rest ih =>
      rw [vmapFrames, vmapFrames, ← ih]
      rfl

theorem vmapPageRange_setSymrg (addr : Int) (frames frmLstSwap : List Nat) :
    vmapPageRange (caller.setSymrg i rg) addr frames frmLstSwap =
      (vmapPageRange caller addr frames frmLstSwap).setSymrg i rg := by
  simp only [vmapPageRange, Caller.setSymrg, vmapFrames_setSymrg]

theorem vmMapRam_setSymrg (mapstart incpgnum : Int) :
    (vmMapRam (caller.setSymrg i rg) mapstart incpgnum).2 =
      (vmMapRam caller mapstart incpgnum).2.setSymrg i rg := by
  have enough : enoughFrames (caller.setSymrg i rg) incpgnum ↔ enoughFrames caller incpgnum := Iff.rfl
  rw [vmMapRam_eq, vmMapRam_eq]
  by_cases can : enoughFrames caller incpgnum
  · rw [if_pos can, if_pos (enough.mpr can)]
    have taken : takeBoth (caller.setSymrg i rg) incpgnum = (takeBoth caller incpgnum).setSymrg i rg := rfl
    rw [taken]
    exact vmapPageRange_setSymrg _ _ _
  · rw [if_neg can, if_neg fun can' => can (enough.mp can')]
    rfl

theorem getFreeVmrgArea_setSymrg (size : Int) :
    getFreeVmrgArea (setSymrg mm i rg) size =
      ((getFreeVmrgArea mm size).1, (getFreeVmrgArea mm size).2.1, setSymrg (getFreeVmrgArea mm size).2.2 i rg) := by
  obtain ⟨pgd, ⟨vmStart, vmEnd, sbrk, vmFreergList⟩, symrgtbl, fifoPgn, rgNodes⟩ := mm
  cases vmFreergList <;> rfl

theorem incVmaLimit_setSymrg (size : Int) :
    (incVmaLimit (caller.setSymrg i rg) size).2 = (incVmaLimit caller size).2.setSymrg i rg := by
  rw [incVmaLimit_snd, incVmaLimit_snd, ← vmMapRam_setSymrg]
  rfl

theorem alloc_setSymrg {rgid : Nat} (other : rgid ≠ i) (size : Int) :
    (alloc (caller.setSymrg i rg) rgid size).2.2 = (alloc caller rgid size).2.2.setSymrg i rg := by
  have searched : getFreeVmrgArea (caller.setSymrg i rg).mm size = _ := getFreeVmrgArea_setSymrg size
  rw [alloc, alloc, searched]
  generalize getFreeVmrgArea caller.mm size = area
  obtain ⟨found, rgnode, mm⟩ := area
  dsimp only
  by_cases hit : found = 0
  · rw [if_pos hit, if_pos hit]
    exact Caller.setSymrg_comm { caller with mm } other rgnode
  · have exceeds : exceedsPage (setSymrg mm i rg) size = exceedsPage mm size := rfl
    have shape : { caller.setSymrg i rg with mm := setSymrg mm i rg } = Caller.setSymrg { caller with mm } i rg := rfl
    rw [if_neg hit, if_neg hit, exceeds, shape, incVmaLimit_setSymrg]
    cases exceedsPage mm size with
    | true => exact Caller.setSymrg_comm (incVmaLimit { caller with mm } size).2 other _
    | false =>
        exact Caller.setSymrg_comm
          { caller with mm := { mm with mmap := { mm.mmap with sbrk := ulong (mm.mmap.sbrk + size) } } } other _

theorem enlistVmFreergList_setSymrg (rgElmt : VmRg) :
    (enlistVmFreergList (setSymrg mm i rg) rgElmt g).2 = setSymrg (enlistVmFreergList mm rgElmt g).2 i rg := by
  have searched : findMerge rgElmt (setSymrg mm i rg).rgNodes.fresh (setSymrg mm i rg).rgNodes
      (setSymrg mm i rg).mmap.vmFreergList ⟨none, none⟩ =
      findMerge rgElmt mm.rgNodes.fresh mm.rgNodes mm.mmap.vmFreergList ⟨none, none⟩ := rfl
  rw [enlistVmFreergList, enlistVmFreergList, searched]
  generalize findMerge rgElmt mm.rgNodes.fresh mm.rgNodes mm.mmap.vmFreergList ⟨none, none⟩ = found
  obtain ⟨heap, needDecBase, needIncLimit⟩ := found
  split
  · rfl
  · cases needDecBase <;> cases needIncLimit <;> rfl

theorem free_setSymrg {rgid : Nat} (other : rgid ≤ pagingMaxSymtblSz → rgid ≠ i) :
    (free (caller.setSymrg i rg) rgid g).2 = (free caller rgid g).2.setSymrg i rg := by
  rw [free, free]
  by_cases inTable : rgid > pagingMaxSymtblSz
  · rw [if_pos inTable, if_pos inTable]
  · rw [if_neg inTable, if_neg inTable]
    have different := other (Nat.not_lt.mp inTable)
    have same : (caller.setSymrg i rg).mm.symrgtbl rgid = caller.mm.symrgtbl rgid := Function.update_of_ne different _ _
    have enlisted : (enlistVmFreergList (caller.setSymrg i rg).mm (caller.mm.symrgtbl rgid) g).2 = _ :=
      enlistVmFreergList_setSymrg (caller.mm.symrgtbl rgid)
    rw [same]
    dsimp only
    rw [enlisted]
    exact Caller.setSymrg_comm { caller with mm := (enlistVmFreergList caller.mm (caller.mm.symrgtbl rgid) g).2 }
      different ⟨0, 0⟩

theorem offsetRejected_setSymrg {rgid : Nat} (other : rgid ≠ i) (offset : Nat) :
    offsetRejected (setSymrg mm i rg) rgid offset = offsetRejected mm rgid offset := by
  simp only [offsetRejected, setSymrg_symrgtbl, Function.update_of_ne other]

theorem getSymrgByid_setSymrg {rgid : Nat} (other : rgid ≠ i) :
    getSymrgByid (setSymrg mm i rg) rgid = getSymrgByid mm rgid := by
  simp only [getSymrgByid, setSymrg_symrgtbl, Function.update_of_ne other]

theorem afterGetpage_setSymrg (pgn : Nat) :
    afterGetpage (caller.setSymrg i rg) pgn g = (afterGetpage caller pgn g).setSymrg i rg := by
  have fault : faultVictim (caller.setSymrg i rg).mm pgn = faultVictim caller.mm pgn := rfl
  rw [afterGetpage, afterGetpage, fault]
  cases faultVictim caller.mm pgn <;> rfl

theorem pgSetval_setSymrg (addr : BitVec 32) (value : Byte) :
    (pgSetval (caller.setSymrg i rg) addr value g).getD (caller.setSymrg i rg) =
      ((pgSetval caller addr value g).getD caller).setSymrg i rg := by
  have stuck : unservable (caller.setSymrg i rg).mm (pagingPgn addr) ↔ unservable caller.mm (pagingPgn addr) := Iff.rfl
  rw [pgSetval_eq, pgSetval_eq, afterGetpage_setSymrg]
  by_cases none : unservable caller.mm (pagingPgn addr)
  · rw [if_pos none, if_pos (stuck.mpr none)]
    rfl
  · rw [if_neg none, if_neg fun none' => none (stuck.mp none')]
    rfl

end Elsewhere

theorem Call.target_setSymrg {call : Call} {i : Nat} (elsewhere : i ∉ call.registers) (mm : MmStruct) (rg : VmRg) :
    call.target (setSymrg mm i rg) = call.target mm := by
  cases call with
  | alloc size regIndex | free regIndex | getval addr | setval addr value => rfl
  | read source offset =>
      have other : source ≠ i := fun same => elsewhere (by simp [Call.registers, same])
      rw [Call.target, Call.target, offsetRejected_setSymrg other, getSymrgByid_setSymrg other]
  | write data destination offset =>
      have other : destination ≠ i := fun same => elsewhere (by simp [Call.registers, same])
      rw [Call.target, Call.target, offsetRejected_setSymrg other, getSymrgByid_setSymrg other]

/-- A call neither reads nor writes an entry that is not among its registers. -/
theorem Call.exec_setSymrg {call : Call} {i : Nat} (elsewhere : i ∉ call.registers) (caller : Caller) (rg : VmRg)
    (g : Garbage) : call.exec (caller.setSymrg i rg) g = (call.exec caller g).setSymrg i rg := by
  have target : call.target (caller.setSymrg i rg).mm = call.target caller.mm :=
    call.target_setSymrg elsewhere caller.mm rg
  cases call with
  | alloc size regIndex => exact alloc_setSymrg (fun same => elsewhere (by simp [Call.registers, same])) _
  | free regIndex =>
      refine free_setSymrg fun inTable same => elsewhere ?_
      rw [Call.registers, if_neg (Nat.not_lt.mpr inTable), same]
      exact List.mem_singleton_self i
  | read source offset =>
      rw [Call.exec, Call.exec, pgread_snd, pgread_snd, target]
      split
      · rfl
      · exact afterGetpage_setSymrg _
  | write data destination offset =>
      rw [Call.exec, Call.exec, pgwrite_snd, pgwrite_snd, target]
      split
      · rfl
      · exact pgSetval_setSymrg _ data
  | getval addr =>
      rw [Call.exec_getval, Call.exec_getval]
      exact afterGetpage_setSymrg _
  | setval addr value => exact pgSetval_setSymrg addr value

theorem Call.exec_symrgtbl {call : Call} {i : Nat} (elsewhere : i ∉ call.registers) (caller : Caller) (g : Garbage) :
    (call.exec caller g).mm.symrgtbl i = caller.mm.symrgtbl i := by
  have same : caller.setSymrg i (caller.mm.symrgtbl i) = caller := by
    rw [Caller.setSymrg, Paging.setSymrg, Function.update_eq_self]
  have written := Call.exec_setSymrg elsewhere caller (caller.mm.symrgtbl i) g
  rw [same] at written
  rw [written, Caller.setSymrg, setSymrg_symrgtbl, Function.update_self]

/-! ## Calls with an index that is too large -/

/-- The call stays inside `symrgtbl`; it fails with an index that is too large, and then leaves the memory as it was. -/
structure Call.IndexChecked (caller : Caller) (g : Garbage) (call : Call) (index : Nat) : Prop where
  inside : ∀ i ∈ call.registers, i < pagingMaxSymtblSz
  fails : pagingMaxSymtblSz ≤ index → call.status caller g ≠ 0
  unchanged : pagingMaxSymtblSz ≤ index → (call.exec caller g).mm = caller.mm

/-- An index is checked exactly if it is inside the table, or if the call is a free and the index is past the slot
behind the table. -/
theorem indexChecked_iff (caller : Caller) (g : Garbage) {call : Call} {index : Nat} (indexed : call.index = some index) :
    call.IndexChecked caller g index ↔
      index < pagingMaxSymtblSz ∨ (call = .free index ∧ pagingMaxSymtblSz < index) := by
  have accessed : (∃ regIndex, call = .free regIndex ∧ pagingMaxSymtblSz < regIndex) ∨ call.registers = [index] := by
    cases call with
    | free regIndex =>
        cases indexed
        rw [Call.registers]
        by_cases past : index > pagingMaxSymtblSz
        · exact .inl ⟨index, rfl, past⟩
        · exact .inr (if_neg past)
    | alloc size regIndex | read source offset | write data destination offset =>
        cases indexed
        exact .inr rfl
    | getval addr | setval addr value => cases indexed
  rcases accessed with ⟨regIndex, rfl, past⟩ | accessed
  · cases indexed
    have failed : pgfreeData caller index g = (-1, caller) := if_pos past
    refine iff_of_true ⟨?_, fun _ => ?_, fun _ => ?_⟩ (.inr ⟨rfl, past⟩)
    · rw [Call.registers, if_pos past]
      nofun
    · rw [Call.status, failed]
      exact (by decide : (-1 : Int) ≠ 0)
    · rw [Call.exec, failed]
  · constructor
    · exact fun checked => .inl (checked.inside index (by rw [accessed]; exact List.mem_singleton_self index))
    · rintro (below | ⟨rfl, past⟩)
      · refine ⟨fun i member => ?_, fun beyond => absurd below (Nat.not_lt.mpr beyond),
          fun beyond => absurd below (Nat.not_lt.mpr beyond)⟩
        rw [accessed] at member
        exact List.mem_singleton.mp member ▸ below
      · rw [Call.registers, if_pos past] at accessed
        cases accessed

theorem tinySystem_indexChecked_iff :
    (Call.free 31).IndexChecked (tinySystem.caller 0) noGarbage 31 ↔
      31 < pagingMaxSymtblSz ∨ (Call.free 31 = .free 31 ∧ pagingMaxSymtblSz < 31) :=
  indexChecked_iff (tinySystem.caller 0) noGarbage rfl

/-- `pgalloc` with the index of the slot behind the table writes there, and reports success. -/
theorem tinyBoot_not_indexChecked :
    let caller := (tinyBoot.exec ⟨0, .alloc 300 30, noGarbage⟩).caller 0
    (Call.alloc 300 30).index = some 30 ∧ (Call.alloc 300 30).status (tinyBoot.caller 0) noGarbage = 0 ∧
      caller.mm.symrgtbl 30 = ⟨0, 300⟩ ∧
      ¬ (Call.alloc 300 30).IndexChecked (tinyBoot.caller 0) noGarbage 30 := by
  refine ⟨rfl, pgalloc_status _ _ _, by decide +kernel, fun checked => ?_⟩
  exact absurd (checked.inside 30 (List.mem_singleton_self 30)) (by decide)

end OsSim.Paging
