import OsSim.Paging.Private

namespace OsSim.Paging
open Transition

/-! ## The frames of a process -/

def System.HoldsFrame (s : System) (p fpn : Nat) : Prop := ∃ pgn, ramHolds (s.entry (p, pgn)) = some fpn

/-- The RAM frames that the step gives to its process: those of an allocation that gets all its frames. -/
def System.granted (s : System) (l : Label) : List Nat :=
  match l.call with
  | .alloc size _ =>
      if enoughFrames (s.caller l.p) (allocRequest (s.procs l.p) (cint size)) then s.handedOut l else []
  | _ => []

/-- No call accesses anything outside the arrays and the devices, and an access goes to a page of the area. -/
structure System.Contained (s : System) (l : Label) : Prop where
  inBounds : s.InBounds l
  inMemory : s.InMemory l
  within : s.WithinSpace l
  representable : s.Representable l
  inside : ∀ addr, l.call.target (s.procs l.p) = some addr → addr.toNat < (s.procs l.p).mmap.vmEnd

/-- Each area is aligned, and no page beyond it holds a RAM frame. -/
structure System.Bounded (s : System) : Prop where
  aligned : ∀ p, (s.procs p).mmap.Aligned
  beyond : ∀ p pgn, (s.procs p).mmap.vmEnd / pagingPagesz ≤ pgn → ramHolds (s.entry (p, pgn)) = none

theorem System.Boot.bounded {s : System} (boot : s.Boot) : s.Bounded := by
  refine ⟨boot.settled.aligned, fun p pgn _ => ?_⟩
  exact congrFun (boot.held_eq_none (h := ramHolds) (by decide)) (p, pgn)

/-! ## Mapping the frames of an allocation -/

section Map

variable {caller : Caller} {mapstart incpgnum : Int}

theorem vmMapRam_of_few (few : ¬ enoughFrames caller incpgnum) :
    (vmMapRam caller mapstart incpgnum).2.mm.pgd = caller.mm.pgd := by
  rw [vmMapRam_eq, if_neg few]
  rfl

/-- A page of the range holds the RAM frame with its number, or none if the RAM frames did not reach it. -/
theorem ramHolds_vmMapRam (enough : enoughFrames caller incpgnum)
    (fits : ∀ fpn ∈ caller.mram.freeFpList.take incpgnum.toNat, fpn < 2 ^ 13) {i : Nat} (inside : i < incpgnum.toNat) :
    ramHolds ((vmMapRam caller mapstart incpgnum).2.mm.pgd (pagingPgn (BitVec.ofInt 32 mapstart) + i)) =
      (ramFrames caller incpgnum.toNat)[i]? := by
  cases taken : (ramFrames caller incpgnum.toNat)[i]? with
  | some fpn =>
      have member : fpn ∈ caller.mram.freeFpList.take incpgnum.toNat :=
        List.mem_reverse.mp (List.mem_of_getElem? taken)
      rw [vmMapRam_present mapstart enough taken, ramHolds_pteSetFpn _ (fits fpn member)]
  | none =>
      have ram := List.getElem?_eq_none_iff.mp taken
      obtain ⟨j, rfl⟩ : ∃ j, i = (ramFrames caller incpgnum.toNat).length + j := ⟨_, (Nat.add_sub_cancel' ram).symm⟩
      have swap : j < (swapFrames caller incpgnum.toNat).length := by
        rw [enoughFrames] at enough
        simp only [ramFrames, swapFrames, List.length_reverse, List.length_take] at inside ⊢
        omega
      rw [vmMapRam_swapped mapstart enough (List.getElem?_eq_getElem swap), ramHolds_pteSetSwap]

end Map

/-! ## One step -/

section Step

variable {s : System} {l : Label}

theorem System.entry_of_alloc {size regIndex : Nat} (call : l.call = .alloc size regIndex) (pgn : Nat) :
    (s.exec l).entry (l.p, pgn) = (vmMapRam (s.caller l.p) (cint (s.procs l.p).mmap.vmEnd)
      (allocRequest (s.procs l.p) (cint size))).2.mm.pgd pgn := by
  rw [System.entry_exec, System.paging, call]
  rfl

theorem System.Bounded.frames_alloc (bounded : s.Bounded) (contained : s.Contained l) {size regIndex : Nat}
    (call : l.call = .alloc size regIndex) (fpn : Nat) :
    (s.exec l).HoldsFrame l.p fpn ↔ s.HoldsFrame l.p fpn ∨ fpn ∈ s.granted l := by
  have out : s.handedOut l = s.mram.freeFpList.take (allocRequest (s.procs l.p) (cint size)).toNat := by
    rw [System.handedOut, call]
  have fits := contained.representable
  rw [System.Representable, out] at fits
  by_cases enough : enoughFrames (s.caller l.p) (allocRequest (s.procs l.p) (cint size))
  · have granted : s.granted l = s.handedOut l := by
      rw [System.granted, call]
      exact if_pos enough
    by_cases none : allocRequest (s.procs l.p) (cint size) = 0
    · have nothing : s.granted l = [] := by
        rw [granted, out, none]
        rfl
      have entry : ∀ pgn, (s.exec l).entry (l.p, pgn) = s.entry (l.p, pgn) := by
        intro pgn
        rw [System.entry_of_alloc call, none, vmMapRam_zero]
        rfl
      simp [System.HoldsFrame, entry, nothing]
    · obtain ⟨_, _, first, _⟩ := alloc_pages (bounded.aligned l.p) (contained.within.bound call) none
      have mapped : ∀ i, i < (allocRequest (s.procs l.p) (cint size)).toNat →
          ramHolds ((s.exec l).entry (l.p, (s.procs l.p).mmap.vmEnd / pagingPagesz + i)) =
            (ramFrames (s.caller l.p) (allocRequest (s.procs l.p) (cint size)).toNat)[i]? := by
        intro i inside
        rw [System.entry_of_alloc call, ← first]
        exact ramHolds_vmMapRam enough fits inside
      have others : ∀ pgn, pgn < (s.procs l.p).mmap.vmEnd / pagingPagesz ∨
          (s.procs l.p).mmap.vmEnd / pagingPagesz + (allocRequest (s.procs l.p) (cint size)).toNat ≤ pgn →
          (s.exec l).entry (l.p, pgn) = s.entry (l.p, pgn) := by
        intro pgn outside
        rw [System.entry_of_alloc call]
        exact vmMapRam_outside _ _ _ (first.symm ▸ outside)
      rw [granted, out]
      constructor
      · rintro ⟨pgn, holds⟩
        by_cases range : (s.procs l.p).mmap.vmEnd / pagingPagesz ≤ pgn ∧
            pgn < (s.procs l.p).mmap.vmEnd / pagingPagesz + (allocRequest (s.procs l.p) (cint size)).toNat
        · obtain ⟨i, rfl⟩ : ∃ i, pgn = (s.procs l.p).mmap.vmEnd / pagingPagesz + i :=
            ⟨_, (Nat.add_sub_cancel' range.1).symm⟩
          rw [mapped i (by omega)] at holds
          exact .inr (List.mem_reverse.mp (List.mem_of_getElem? holds))
        · rw [others pgn (by omega)] at holds
          exact .inl ⟨pgn, holds⟩
      · rintro (⟨pgn, holds⟩ | member)
        · refine ⟨pgn, ?_⟩
          rw [others pgn]
          · exact holds
          · by_contra outside
            rw [bounded.beyond l.p pgn (by omega)] at holds
            cases holds
        · obtain ⟨i, inside, at_i⟩ := List.mem_iff_getElem.mp (List.mem_reverse.mpr member)
          refine ⟨_, (mapped i ?_).trans (List.getElem?_eq_some_iff.mpr ⟨inside, at_i⟩)⟩
          simp only [List.length_reverse, List.length_take] at inside
          omega
  · have granted : s.granted l = [] := by
      rw [System.granted, call]
      exact if_neg enough
    have entry : ∀ pgn, (s.exec l).entry (l.p, pgn) = s.entry (l.p, pgn) := by
      intro pgn
      rw [System.entry_of_alloc call, vmMapRam_of_few enough]
      rfl
    simp [System.HoldsFrame, entry, granted]

/-- A step gives its process the frames of its allocation, and moves no frame between processes. -/
theorem System.Bounded.frames_exec (bounded : s.Bounded) (contained : s.Contained l) (q fpn : Nat) :
    (s.exec l).HoldsFrame q fpn ↔ s.HoldsFrame q fpn ∨ q = l.p ∧ fpn ∈ s.granted l := by
  by_cases process : q = l.p
  · subst process
    rcases l.call.access_or with access | ⟨size, regIndex, call⟩ | ⟨regIndex, call⟩
    · have none : s.granted l = [] := by
        cases call : l.call <;> simp_all [System.granted, Call.isAccess]
      simp [none, System.HoldsFrame, s.frames_exec l access]
    · rw [bounded.frames_alloc contained call]
      simp
    · have none : s.granted l = [] := by rw [System.granted, call]
      have entry : ∀ pgn, (s.exec l).entry (l.p, pgn) = s.entry (l.p, pgn) := by
        intro pgn
        rw [System.entry_exec, System.paging, call]
        rfl
      simp [none, System.HoldsFrame, entry]
  · simp [process, System.HoldsFrame, System.entry_exec_of_ne s l process]

theorem Call.fault_eq_some {mm : MmStruct} {call : Call} {pgn vicpgn : Nat}
    (faults : call.fault mm = some (pgn, vicpgn)) : ∃ addr, call.target mm = some addr ∧ pagingPgn addr = pgn := by
  obtain ⟨addr, aimed, served⟩ := Option.bind_eq_some_iff.mp faults
  obtain ⟨_, _, same⟩ := Option.map_eq_some_iff.mp served
  exact ⟨addr, aimed, congrArg Prod.fst same⟩

theorem System.Bounded.exec (bounded : s.Bounded) (contained : s.Contained l) : (s.exec l).Bounded := by
  refine ⟨System.exec_aligned bounded.aligned contained.within, fun q pgn above => ?_⟩
  have grown := System.vmEnd_exec bounded.aligned contained.within q
  have above' : (s.procs q).mmap.vmEnd / pagingPagesz ≤ pgn := (Nat.div_le_div_right grown).trans above
  by_cases process : q = l.p
  · subst process
    rcases l.call.alloc_or with ⟨size, regIndex, call⟩ | other
    · rw [System.entry_of_alloc call]
      by_cases none : allocRequest (s.procs l.p) (cint size) = 0
      · rw [none, vmMapRam_zero]
        exact bounded.beyond l.p pgn above'
      · obtain ⟨_, _, first, _⟩ := alloc_pages (bounded.aligned l.p) (contained.within.bound call) none
        have aligned : (s.caller l.p).mm.mmap.Aligned := bounded.aligned l.p
        obtain ⟨_, pages⟩ := alloc_area aligned (contained.within.bound call) regIndex
        have area : ((s.exec l).procs l.p).mmap.vmEnd =
            (alloc (s.caller l.p) regIndex (cint size)).2.2.mm.mmap.vmEnd := by
          rw [System.exec, call, System.procs_put]
          rfl
        rw [area, pages] at above
        rw [vmMapRam_outside _ _ _ (.inr (first.symm ▸ above))]
        exact bounded.beyond l.p pgn above'
    · rw [System.entry_exec]
      rcases Call.paging_cases (s.caller l.p) l.g l.call with
        ⟨size, regIndex, call⟩ | ⟨_, quiet⟩ | ⟨target, vicpgn, faults, fault, swaps⟩
      · exact absurd call (other size regIndex)
      · rw [System.paging, quiet]
        exact bounded.beyond l.p pgn above'
      · -- the page brought in lies in the area, and so does the victim, which is present
        obtain ⟨addr, aimed, rfl⟩ := Call.fault_eq_some faults
        have target := (System.pgn_of_inside (bounded.aligned l.p) (contained.inside addr aimed)).2
        have victim : vicpgn < (s.procs l.p).mmap.vmEnd / pagingPagesz := by
          by_contra outside
          have none := bounded.beyond l.p vicpgn (Nat.le_of_not_lt outside)
          have present := pagingPagePresent_of_findVictimPage (faultVictim_eq_some.mp fault).2
          cases none.symm.trans (ramHolds_eq_some.mpr ⟨present, rfl⟩)
        rw [System.paging, swaps, swapPage_pgd _ _ (ne_of_faultVictim fault), Function.update_of_ne (by omega),
          Function.update_of_ne (by omega)]
        exact bounded.beyond l.p pgn above'
  · rw [System.entry_exec_of_ne s l process]
    exact bounded.beyond q pgn above'

/-- What a step grants leaves the free list. -/
theorem System.granted_sublist (s : System) (l : Label) :
    (s.granted l ++ (s.exec l).mram.freeFpList).Sublist s.mram.freeFpList := by
  rw [System.granted]
  split
  · next size regIndex call =>
    split
    · have out : s.handedOut l = s.mram.freeFpList.take (allocRequest (s.procs l.p) (cint size)).toNat := by
        rw [System.handedOut, call]
      have left : (s.exec l).mram.freeFpList =
          s.mram.freeFpList.drop (allocRequest (s.procs l.p) (cint size)).toNat := by
        rw [(s.mram_exec l).freeFpList, System.paging, call, Call.paging, vmMapRam_mram]
        rfl
      rw [out, left, List.take_append_drop]
    · exact (s.mram_suffix l).sublist
  · exact (s.mram_suffix l).sublist

theorem System.faults_or (s : System) (l : Label) (ready : s.SwapReady l) :
    (s.fault l).toList.length + (s.exec l).activeMswp.freeFpList.length ≤ s.activeMswp.freeFpList.length := by
  cases faults : s.fault l with
  | none => simpa using (s.activeMswp_suffix l).length_le
  | some fault =>
      have taken := System.fault_takes ready (by simp [faults])
      simp only [Option.toList_some, List.length_singleton]
      omega

end Step

/-! ## Runs -/

/-- The frames that a step grants, each with the process that gets it. -/
def System.grants (s : System) (l : Label) : List (Nat × Nat) := (s.granted l).map (l.p, ·)

section Run

variable {s : System} {labels : List Label}

theorem run_frames (bounded : s.Bounded) (along : Along System.exec System.Contained s labels) (q fpn : Nat) :
    (run System.exec s labels).HoldsFrame q fpn ↔
      s.HoldsFrame q fpn ∨ (q, fpn) ∈ outputs System.exec System.grants s labels := by
  induction labels generalizing s with
  | nil => simp [run, outputs]
  | cons l labels ih =>
      obtain ⟨contained, later⟩ := along
      have granted : (q, fpn) ∈ s.grants l ↔ q = l.p ∧ fpn ∈ s.granted l := by
        simp [System.grants, and_comm, eq_comm]
      rw [outputs, List.mem_append, granted, ← or_assoc, ← bounded.frames_exec contained q fpn]
      exact ih (bounded.exec contained) later

theorem grants_sublist (s : System) (labels : List Label) :
    ((outputs System.exec System.grants s labels).map Prod.snd ++ (run System.exec s labels).mram.freeFpList).Sublist
      s.mram.freeFpList := by
  induction labels generalizing s with
  | nil => exact List.Sublist.refl _
  | cons l labels ih =>
      have mine : (s.grants l).map Prod.snd = s.granted l := by simp [System.grants, Function.comp_def]
      rw [outputs, List.map_append, mine, List.append_assoc]
      exact ((ih (s.exec l)).append_left (s.granted l)).trans (s.granted_sublist l)

/-- The RAM frames of a process are those that its own allocations were granted: page faults exchange pages only
within a process, and no frame is granted twice. -/
theorem run_holdsFrame (boot : s.Boot) (along : Along System.exec System.Contained s labels) :
    (∀ p fpn, (run System.exec s labels).HoldsFrame p fpn ↔
      (p, fpn) ∈ outputs System.exec System.grants s labels) ∧
      ((outputs System.exec System.grants s labels).map Prod.snd).Nodup := by
  refine ⟨fun p fpn => ?_, ?_⟩
  · rw [run_frames boot.bounded along, or_iff_right]
    rintro ⟨pgn, holds⟩
    cases (congrFun (boot.held_eq_none (h := ramHolds) (by decide)) (p, pgn)).symm.trans holds
  · exact boot.mram.sublist ((List.sublist_append_left _ _).trans (grants_sublist s labels))

end Run

/-! ### Two processes -/

def twoBoot : System := bootSystem zeroBlock (fun _ => 0) 512 1024

/-- The first process gets both RAM frames, and the page that the second one allocates goes to the swap. -/
def twoAllocs : List Label :=
  [⟨0, .alloc 768 0, noGarbage⟩, ⟨0, .write 7 0 512, noGarbage⟩, ⟨1, .alloc 256 0, noGarbage⟩]

theorem twoAllocs_inMemory : Along System.exec System.InMemory twoBoot twoAllocs := by
  refine ⟨⟨by decide, System.inBlocks_of_no_access rfl⟩, ⟨by decide, ?_⟩,
    ⟨by decide, System.inBlocks_of_no_access rfl⟩, trivial⟩
  decide

theorem twoAllocs_contained : Along System.exec System.Contained twoBoot twoAllocs := by
  refine ⟨⟨⟨by decide, by decide⟩, twoAllocs_inMemory.1, ?_, ?_, by rintro addr ⟨⟩⟩,
    ⟨trivial, twoAllocs_inMemory.2.1, trivial, by rintro fpn ⟨⟩, ?_⟩,
    ⟨⟨by decide, by decide⟩, twoAllocs_inMemory.2.2.1, ?_, ?_, by rintro addr ⟨⟩⟩, trivial⟩
  · exact fun _ => (by decide : 0 + 768 < 2 ^ 22)
  · unfold System.Representable
    decide
  · intro addr aimed
    have aimed' : (Call.write 7 0 512).target ((twoBoot.exec ⟨0, .alloc 768 0, noGarbage⟩).procs 0) = some 512 := by
      decide
    cases aimed'.symm.trans aimed
    decide
  · exact fun _ => (by decide : 0 + 256 < 2 ^ 22)
  · unfold System.Representable
    decide +kernel

theorem twoAllocs_holdsFrame :
    (∀ p fpn, (run System.exec twoBoot twoAllocs).HoldsFrame p fpn ↔
      (p, fpn) ∈ outputs System.exec System.grants twoBoot twoAllocs) ∧
      ((outputs System.exec System.grants twoBoot twoAllocs).map Prod.snd).Nodup :=
  run_holdsFrame (bootSystem_boot zeroBlock_zero _ _ _) twoAllocs_contained

/-- No swap frame ever comes back: all processes together can have as many page faults served as there are free
frames in the swap at boot. -/
theorem run_faults_le {s : System} {labels : List Label} (inMemory : Along System.exec System.InMemory s labels)
    (ready : Along System.exec System.SwapReady s labels) :
    (outputs System.exec (fun s l => (s.fault l).toList) s labels).length +
      (run System.exec s labels).activeMswp.freeFpList.length ≤ s.activeMswp.freeFpList.length := by
  induction labels generalizing s with
  | nil => simp [run, outputs]
  | cons l labels ih =>
      have taken := s.faults_or l ready.1
      have later := ih inMemory.2 ready.2
      rw [outputs, List.length_append]
      have rest : run System.exec s (l :: labels) = run System.exec (s.exec l) labels := rfl
      rw [rest]
      omega

theorem twoAllocs_faults_le :
    (outputs System.exec (fun s l => (s.fault l).toList) twoBoot twoAllocs).length +
      (run System.exec twoBoot twoAllocs).activeMswp.freeFpList.length ≤ twoBoot.activeMswp.freeFpList.length := by
  refine run_faults_le twoAllocs_inMemory
    ⟨fun fault => absurd rfl fault, fun _ => ?_, fun fault => absurd rfl fault, trivial⟩
  decide

end OsSim.Paging
