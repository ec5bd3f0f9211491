import OsSim.Paging.Bookkeeping
import OsSim.Paging.Faults
import OsSim.Paging.Partition

namespace OsSim.Paging
open NodeHeap Transition

-- no proof here unfolds the copy of 256 bytes
attribute [local irreducible] swapCpPage

/-! ## Frame numbers that the devices have -/

/-- A present entry shows a frame of the RAM, any other one a frame of the swap. -/
structure PteFits (ram swap : Nat) (pte : BitVec 32) : Prop where
  present : pagingPagePresent pte = true → pagingFpn pte < ram
  absent : pagingPagePresent pte = false → pagingSwp pte < max 1 swap

theorem pteFits_pteSetFpn {ram fpn : Nat} (inside : fpn < ram) (swap : Nat) (pte : BitVec 32) :
    PteFits ram swap (pteSetFpn pte fpn) := by
  refine ⟨fun _ => ?_, fun absent => ?_⟩
  · rw [pagingFpn_pteSetFpn]
    exact Nat.lt_of_le_of_lt (Nat.mod_le _ _) inside
  · rw [pagingPagePresent_pteSetFpn] at absent
    cases absent

theorem pteFits_pteSetSwap {swap fpn : Nat} (inside : fpn < swap) (ram : Nat) (pte : BitVec 32) :
    PteFits ram swap (pteSetSwap pte 0 fpn) := by
  refine ⟨fun present => ?_, fun _ => ?_⟩
  · rw [pagingPagePresent_pteSetSwap] at present
    cases present
  · rw [pagingSwp_pteSetSwap]
    exact Nat.lt_of_le_of_lt (Nat.mod_le _ _) (inside.trans_le (Nat.le_max_right 1 swap))

/-- The free frames of each device are frames that it has. -/
structure System.InDevices (s : System) : Prop where
  mram : ∀ fpn ∈ s.mram.freeFpList, fpn < s.mram.maxsz / pagingPagesz
  activeMswp : ∀ fpn ∈ s.activeMswp.freeFpList, fpn < s.activeMswp.maxsz / pagingPagesz

theorem bootSystem_inDevices (block : MmStruct) (storage : Nat → Byte) (memramsz memswpsz : Nat) :
    (bootSystem block storage memramsz memswpsz).InDevices :=
  ⟨fun _ => List.mem_range.mp, fun _ => List.mem_range.mp⟩

/-- The regions of each process divide its area, and the page tables and the free lists show frames that the devices
have. -/
structure System.Fitted (s : System) : Prop extends s.InDevices where
  regions : ∀ p, ∃ nodes dummy lost, Regions (s.procs p) nodes dummy lost
  entries : ∀ p pgn, PteFits (s.mram.maxsz / pagingPagesz) (s.activeMswp.maxsz / pagingPagesz) ((s.procs p).pgd pgn)

theorem System.Boot.fitted {s : System} (boot : s.Boot) (devices : s.InDevices) : s.Fitted := by
  refine ⟨devices, fun p => ?_, fun p pgn => ?_⟩
  · obtain ⟨block, zero, fresh⟩ := boot.procs p
    rw [fresh]
    exact ⟨_, _, _, initMm_regions zero⟩
  · obtain ⟨block, zero, fresh⟩ := boot.procs p
    have empty : (s.procs p).pgd pgn = 0#32 := by
      rw [fresh]
      exact zero.pgd pgn
    rw [empty]
    refine ⟨fun present => absurd present (by decide), fun _ => ?_⟩
    exact Nat.lt_of_lt_of_le (by decide : pagingSwp 0#32 < 1) (Nat.le_max_left _ _)

/-! ## Calls of the processes -/

/-- An allocation that moves the break leaves the last page of the virtual space unused. -/
def System.EndsBelow (s : System) (l : Label) : Prop :=
  match l.call with
  | .alloc size _ => movesBreak (s.procs l.p) (cint size) →
      (s.procs l.p).mmap.sbrk + size ≤ 2 ^ pagingCpuBusWidth - pagingPagesz
  | _ => True

/-- Registers of `symrgtbl`, at least one byte, and the end of the area stays below 4 MB. -/
structure System.Regular (s : System) (l : Label) : Prop where
  index : ∀ index ∈ l.call.index, index < pagingMaxSymtblSz
  sized : l.call.Sized
  below : s.EndsBelow l

/-- The RAM address of the access is inside the RAM, and the call uses no freed node. -/
structure System.StaysInside (s : System) (l : Label) : Prop where
  access : ∀ addr ∈ l.call.physical (s.caller l.p) l.g, addr < s.mram.maxsz
  frees : s.FreesApart l

/-- A fault that finds the swap full copies to a frame that the swap has. -/
def System.SwpfpnInside (s : System) (l : Label) : Prop :=
  s.fault l ≠ none → s.activeMswp.freeFpList = [] → l.g.swpfpn < s.activeMswp.maxsz / pagingPagesz

theorem System.SwapReady.swpfpnInside {s : System} {l : Label} (ready : s.SwapReady l) : s.SwpfpnInside l :=
  fun faults empty => absurd empty (ready faults)

section Step

variable {s : System} {l : Label}

theorem System.Regular.registered (regular : s.Regular l) : l.call.Registered := by
  have index := regular.index
  cases call : l.call with
  | alloc size regIndex =>
      rw [call] at index
      exact index regIndex rfl
  | free regIndex =>
      rw [call] at index
      exact index regIndex rfl
  | read | write | getval | setval => trivial

theorem System.Regular.registers (regular : s.Regular l) : ∀ i ∈ l.call.registers, i < pagingMaxSymtblSz := by
  have index := regular.index
  intro i member
  cases call : l.call with
  | alloc size regIndex | read source offset | write data destination offset =>
      rw [call] at index member
      obtain rfl := List.mem_singleton.mp member
      exact index i rfl
  | free regIndex =>
      rw [call] at index member
      have inTable := index regIndex rfl
      rw [Call.registers, if_neg (Nat.not_lt.mpr inTable.le)] at member
      obtain rfl := List.mem_singleton.mp member
      exact inTable
  | getval addr | setval addr value =>
      rw [call] at member
      cases member

theorem System.Regular.within (regular : s.Regular l) : s.WithinSpace l := by
  have below := regular.below
  unfold System.EndsBelow at below
  unfold System.WithinSpace
  cases call : l.call with
  | alloc size regIndex =>
      rw [call] at below
      intro moves
      exact Nat.lt_of_le_of_lt (below moves) (by decide)
  | free | read | write | getval | setval => trivial

theorem System.Regular.inBounds (regular : s.Regular l) (aligned : (s.procs l.p).mmap.Aligned) : s.InBounds l := by
  have registered := regular.registered
  have within := regular.within
  have below := regular.below
  unfold System.EndsBelow at below
  unfold System.InBounds
  cases call : l.call with
  | alloc size regIndex =>
      rw [call] at registered below
      refine ⟨registered, ?_⟩
      have table : pagingMaxPgn = 16384 := by decide
      have first : pagingPgn (BitVec.ofInt 32 (cint (s.procs l.p).mmap.vmEnd)) < 16384 := by
        rw [pagingPgn_eq]
        exact Nat.mod_lt _ (by decide)
      by_cases none : allocRequest (s.procs l.p) (cint size) = 0
      · rw [none]
        omega
      · obtain ⟨moves, _, start, last⟩ := alloc_pages aligned (within.bound call) none
        have limit := below moves
        simp only [pagingCpuBusWidth, pagingPagesz] at limit start last ⊢
        rw [pagingPageAlignsz_of_lt (by omega)] at last
        omega
  | free regIndex =>
      rw [call] at registered
      exact Nat.ne_of_lt registered
  | read | write | getval | setval => trivial

theorem System.Fitted.vicfpn (fitted : s.Fitted) {served : Nat × Nat} (faults : s.fault l = some served) :
    pagingFpn ((s.procs l.p).pgd served.2) < s.mram.maxsz / pagingPagesz := by
  rw [System.fault, Call.fault, Option.bind_eq_some_iff] at faults
  obtain ⟨addr, _, served'⟩ := faults
  obtain ⟨vicpgn, fault, rfl⟩ := Option.map_eq_some_iff.mp served'
  have present := pagingPagePresent_of_findVictimPage (faultVictim_eq_some.mp fault).2
  exact (fitted.entries l.p vicpgn).present present

theorem System.Fitted.swpfpn (fitted : s.Fitted) (garbage : s.SwpfpnInside l) (faults : s.fault l ≠ none) :
    faultSwpfpn (s.caller l.p) l.g < s.activeMswp.maxsz / pagingPagesz := by
  cases free : s.activeMswp.freeFpList with
  | nil =>
      have free' : (s.caller l.p).activeMswp.freeFpList = [] := free
      have number : faultSwpfpn (s.caller l.p) l.g = l.g.swpfpn := by simp [faultSwpfpn, memphyGetFreefp, free']
      rw [number]
      exact garbage faults free
  | cons fpn rest =>
      rw [faultSwpfpn_of_free (show (s.caller l.p).activeMswp.freeFpList = fpn :: rest from free)]
      exact fitted.activeMswp fpn (by simp [free])

theorem System.Fitted.tgtfpn (fitted : s.Fitted) (garbage : s.SwpfpnInside l) {served : Nat × Nat}
    (faults : s.fault l = some served) :
    pagingSwp ((s.procs l.p).pgd served.1) < s.activeMswp.maxsz / pagingPagesz := by
  have some_frame := fitted.swpfpn garbage (by simp [faults])
  rw [System.fault, Call.fault, Option.bind_eq_some_iff] at faults
  obtain ⟨addr, _, served'⟩ := faults
  obtain ⟨vicpgn, fault, rfl⟩ := Option.map_eq_some_iff.mp served'
  have number := (fitted.entries l.p (pagingPgn addr)).absent (faultVictim_eq_some.mp fault).1
  exact number.trans_le (Nat.max_le.mpr ⟨Nat.zero_lt_of_lt some_frame, Nat.le_refl _⟩)

/-- The frame numbers are those of the devices, so that only the address of an access can be outside. -/
theorem System.Fitted.inBlocks (fitted : s.Fitted) (inside : s.StaysInside l) (garbage : s.SwpfpnInside l) :
    s.InBlocks l where
  access := inside.access
  vicfpn := fun _ faults => fitted.vicfpn faults
  swpfpn := fitted.swpfpn garbage
  tgtfpn := fun _ faults => fitted.tgtfpn garbage faults

theorem System.Fitted.inArrays (fitted : s.Fitted) (regular : s.Regular l) (inside : s.StaysInside l)
    (garbage : s.SwpfpnInside l) : s.InArrays l := by
  obtain ⟨nodes, dummy, lost, regions⟩ := fitted.regions l.p
  obtain ⟨_, _, after⟩ := System.exec_regions regions regular.registered regular.sized regular.within inside.frees
  refine ⟨regular.registers, regular.inBounds regions.aligned, fitted.inBlocks inside garbage, ?_⟩
  exact after.list.holds.sound.trans regions.list.holds.sound.symm

/-! ### One step -/

theorem System.activeMswp_maxsz (s : System) (l : Label) : (s.exec l).activeMswp.maxsz = s.activeMswp.maxsz := by
  rw [(s.activeMswp_exec l).maxsz]
  rcases s.paging_cases l with ⟨mapstart, incpgnum, maps, _⟩ | ⟨_, quiet⟩ | ⟨pgn, vicpgn, _, _, swaps⟩
  · rw [maps, vmMapRam_activeMswp]
    rfl
  · rw [quiet]
    rfl
  · have copied : (swapPage (s.caller l.p) pgn vicpgn l.g).activeMswp.maxsz =
        ((memphyGetFreefp s.activeMswp).getD (l.g.swpfpn, s.activeMswp)).2.maxsz := by
      simp only [swapPage, swapCpPage_fst]
      exact swapCpPage_sameFrames.maxsz
    rw [swaps, copied]
    cases free : s.activeMswp.freeFpList <;> simp [memphyGetFreefp, free]

theorem System.Fitted.entries_exec (fitted : s.Fitted) (garbage : s.SwpfpnInside l) (pgn : Nat) :
    PteFits (s.mram.maxsz / pagingPagesz) (s.activeMswp.maxsz / pagingPagesz) ((s.paging l).mm.pgd pgn) := by
  have kept := fitted.entries l.p pgn
  rcases s.paging_cases l with ⟨mapstart, incpgnum, maps, _⟩ | ⟨_, quiet⟩ | ⟨page, vicpgn, faults, fault, swaps⟩
  · rw [maps]
    refine vmMapRam_entry mapstart ?_ ?_ kept
    · exact fun fpn taken pte => pteFits_pteSetFpn (fitted.mram fpn (mem_ramFrames taken)) _ pte
    · exact fun fpn taken pte => pteFits_pteSetSwap (fitted.activeMswp fpn (mem_swapFrames taken)) _ pte
  · rw [quiet]
    exact kept
  · rw [swaps]
    refine swapPage_entry (s.caller l.p) l.g (ne_of_faultVictim fault) ?_ ?_ kept
    · exact pteFits_pteSetFpn (fitted.vicfpn faults) _ _
    · exact pteFits_pteSetSwap (fitted.swpfpn garbage (by simp [faults])) _ _

theorem System.Fitted.exec (fitted : s.Fitted) (regular : s.Regular l) (inside : s.StaysInside l)
    (garbage : s.SwpfpnInside l) : (s.exec l).Fitted := by
  refine ⟨⟨?_, ?_⟩, ?_, ?_⟩
  · rw [s.mram_maxsz l]
    exact fun fpn free => fitted.mram fpn ((s.mram_suffix l).subset free)
  · rw [s.activeMswp_maxsz l]
    exact fun fpn free => fitted.activeMswp fpn ((s.activeMswp_suffix l).subset free)
  · refine System.exec_procs (fun mm => ∃ nodes dummy lost, Regions mm nodes dummy lost) fitted.regions ?_
    obtain ⟨nodes, dummy, lost, regions⟩ := fitted.regions l.p
    obtain ⟨nodes', dummy', after⟩ :=
      System.exec_regions regions regular.registered regular.sized regular.within inside.frees
    rw [System.exec, System.procs_put] at after
    exact ⟨nodes', dummy', _, after⟩
  · rw [s.mram_maxsz l, s.activeMswp_maxsz l]
    intro p pgn
    refine System.exec_procs (fun mm => ∀ pgn, PteFits _ _ (mm.pgd pgn)) fitted.entries ?_ p pgn
    intro pgn
    rw [(l.call.exec_samePaging (s.caller l.p) l.g).pgd]
    exact fitted.entries_exec garbage pgn

theorem regular_alloc {p size regIndex : Nat} {g : Garbage} (register : regIndex < pagingMaxSymtblSz)
    (sized : 1 ≤ size ∧ size < 2 ^ 31)
    (below : (s.procs p).mmap.sbrk + size ≤ 2 ^ pagingCpuBusWidth - pagingPagesz) :
    s.Regular ⟨p, .alloc size regIndex, g⟩ :=
  ⟨fun _ same => Option.some.inj same ▸ register, sized, fun _ => below⟩

theorem staysInside_alloc (s : System) (p size regIndex : Nat) (g : Garbage) :
    s.StaysInside ⟨p, .alloc size regIndex, g⟩ :=
  ⟨by rintro addr ⟨⟩, trivial⟩

theorem regular_access {p : Nat} {call : Call} {g : Garbage} (access : call.isAccess = true)
    (register : ∀ index ∈ call.index, index < pagingMaxSymtblSz) : s.Regular ⟨p, call, g⟩ := by
  cases call with
  | alloc | free => cases access
  | read | write | getval | setval => exact ⟨register, trivial, trivial⟩

end Step

/-! ## Blocks behind the RAM -/

/-- The store hits the number of a frame node. The nodes, each in a chunk of 32 bytes with its number first, lie in the
order of the frames, from `base` bytes after the start of the RAM on. -/
def Memphy.hitNode (mp : Memphy) (base addr : Nat) (value : Byte) : Memphy :=
  let hit := fun fpn => if base + 32 * fpn = addr then fpn / 256 * 256 + value.toNat else fpn
  { mp with freeFpList := mp.freeFpList.map hit, usedFpList := mp.usedFpList.map hit }

/-- One byte of an entry, the lowest one first. -/
def setByte (pte : BitVec 32) (i : Nat) (value : Byte) : BitVec 32 :=
  (pte &&& ~~~(0xff#32 <<< (8 * i))) ||| (value.setWidth 32 <<< (8 * i))

/-- The state after a call whose store lands behind the RAM, where `hit` gives what it does there. -/
def behindRam (hit : System → Nat → Byte → System) (s : System) (l : Label) : System :=
  match l.call.physical (s.caller l.p) l.g, l.call.stores with
  | some addr, some value => hit (s.exec l) addr value
  | _, _ => s.exec l

/-- The frame nodes of the RAM lie behind it. -/
def ramNodesBehind (base : Nat) : System → Label → System :=
  behindRam fun s addr value => { s with mram := s.mram.hitNode base addr value }

/-- The frame nodes of the swap lie behind the RAM. -/
def swapNodesBehind (base : Nat) : System → Label → System :=
  behindRam fun s addr value => { s with activeMswp := s.activeMswp.hitNode base addr value }

/-- The page table of the first process lies behind the RAM. -/
def tableBehind (base : Nat) : System → Label → System :=
  behindRam fun s addr value =>
    if base ≤ addr ∧ addr < base + 4 * pagingMaxPgn then
      let mm := s.procs 0
      let pgn := (addr - base) / 4
      s.put 0 { s.caller 0 with
        mm := { mm with pgd := Function.update mm.pgd pgn (setByte (mm.pgd pgn) ((addr - base) % 4) value) } }
    else s

/-! ## Runs -/

section Run

variable {behind : System → Label → System}

/-- Such runs are those of the calls alone, whatever lies behind the arrays and the blocks. -/
theorem reach_fitted {ok : System → Label → Prop} {start : System → Prop}
    (boot : ∀ s, start s → s.Boot ∧ s.InDevices)
    (inside : ∀ s l, ok s l → s.Regular l ∧ s.StaysInside l ∧ s.SwpfpnInside l) {s : System}
    (reachable : Reach (System.StepOver behind) ok start s) : s.Fitted ∧ Reach System.Step ok start s := by
  refine reachable.transfer (fun s first => (boot s first).1.fitted (boot s first).2) ?_ ?_
  · rintro s l s' fitted allowed rfl
    obtain ⟨regular, stays, garbage⟩ := inside s l allowed
    exact System.execOver_of_inArrays (fitted.inArrays regular stays garbage) behind
  · rintro s l s' fitted allowed rfl
    obtain ⟨regular, stays, garbage⟩ := inside s l allowed
    exact fitted.exec regular stays garbage

/-- A process allocates three pages and reads the third one, which is in the swap. -/
theorem tinySystem_read_inside (behind : System → Label → System) {ok : System → Label → Prop}
    (alloc : ok tinyBoot ⟨0, .alloc 768 0, noGarbage⟩) (read : ok tinySystem ⟨0, .read 0 512, noGarbage⟩)
    {start : System → Prop} (boot : start tinyBoot) :
    Reach (System.StepOver behind) ok start (tinySystem.exec ⟨0, .read 0 512, noGarbage⟩) := by
  have first : tinyBoot.InArrays ⟨0, .alloc 768 0, noGarbage⟩ := by decide +kernel
  have second : tinySystem.InArrays ⟨0, .read 0 512, noGarbage⟩ := by decide +kernel
  refine .step (.step (.start boot) alloc ?_) read ?_
  · exact (System.execOver_of_inArrays first behind).symm
  · exact (System.execOver_of_inArrays second behind).symm

theorem tinyBoot_regular : tinyBoot.Regular ⟨0, .alloc 768 0, noGarbage⟩ :=
  regular_alloc (by decide) (by decide) (by decide)

/-- If each access stays inside the RAM, no frame is held twice, or held and free. -/
theorem framesExclusive_of_inside {s : System}
    (reachable : Reach (System.StepOver behind) (fun s l => (s.Regular l ∧ s.SwapReady l) ∧ s.StaysInside l)
      (fun s => s.Boot ∧ s.Addressable ∧ s.InDevices) s) : s.FramesExclusive := by
  have calls := (reach_fitted (fun s start => ⟨start.1, start.2.2⟩)
    (fun s l ok => ⟨ok.1.1, ok.2, ok.1.2.swpfpnInside⟩) reachable).2
  exact reachable_framesExclusive ((calls.mono fun s l ok => ok.1.2).mono_start fun s start => ⟨start.1, start.2.1⟩)

theorem tinySystem_framesExclusive : (tinySystem.exec ⟨0, .read 0 512, noGarbage⟩).FramesExclusive := by
  refine framesExclusive_of_inside (tinySystem_read_inside (swapNodesBehind 7968)
    ⟨⟨tinyBoot_regular, fun fault => absurd rfl fault⟩, staysInside_alloc _ _ _ _ _⟩
    ⟨⟨regular_access rfl (by decide), fun _ => by decide⟩, ⟨by decide, trivial⟩⟩ ⟨?_, ?_, ?_⟩)
  · exact bootSystem_boot zeroBlock_zero _ _ _
  · exact bootSystem_addressable (by decide) (by decide) _ _
  · exact bootSystem_inDevices _ _ _ _

/-- A RAM of 16 frames and a swap of 13, whose storage and frame nodes lie behind the RAM and its nodes. -/
def packedBoot : System := bootSystem zeroBlock (fun _ => 0) 4096 3328

/-- A process has allocated 18 pages; page 16 is in the swap frame 1 and page 17 in the swap frame 0. -/
def packedSystem : System := packedBoot.exec ⟨0, .alloc 4608 0, noGarbage⟩

/-- A write of 0 to page 16 goes to the address 8192, where the node of the free swap frame 7 lies. -/
theorem packedSystem_not_framesExclusive :
    let l : Label := ⟨0, .write 0 0 4096, noGarbage⟩
    let s := packedSystem.execOver (swapNodesBehind 7968) l
    Reach (System.StepOver (swapNodesBehind 7968)) (fun s l => s.Regular l ∧ s.SwapReady l)
        (fun s => s.Boot ∧ s.Addressable ∧ s.InDevices) s ∧
      l.call.physical (packedSystem.caller 0) l.g = some 8192 ∧ pagingPageSwapped (s.entry (0, 17)) = true ∧
      pagingSwp (s.entry (0, 17)) = 0 ∧ 0 ∈ s.activeMswp.freeFpList ∧ ¬ s.FramesExclusive := by
  intro l s
  have alloc : packedBoot.InArrays ⟨0, .alloc 4608 0, noGarbage⟩ := by decide +kernel
  have touched : l.call.physical (packedSystem.caller 0) l.g = some 8192 := by decide +kernel
  have outside : ¬ packedSystem.InArrays l := fun inside =>
    absurd (inside.inBlocks.access 8192 touched) (by decide +kernel)
  have next : s = swapNodesBehind 7968 packedSystem l := System.execOver_of_outside outside _
  have swapped : pagingPageSwapped (s.entry (0, 17)) = true := by
    rw [next]
    decide +kernel
  have frame : pagingSwp (s.entry (0, 17)) = 0 := by
    rw [next]
    decide +kernel
  have free : 0 ∈ s.activeMswp.freeFpList := by
    rw [next]
    decide +kernel
  refine ⟨.step (.step (.start ⟨?_, ?_, ?_⟩) ⟨?_, ?_⟩ (System.execOver_of_inArrays alloc _).symm) ⟨?_, ?_⟩ rfl,
    touched, swapped, frame, free, fun exclusive => ?_⟩
  · exact bootSystem_boot zeroBlock_zero _ _ _
  · exact bootSystem_addressable (by decide) (by decide) _ _
  · exact bootSystem_inDevices _ _ _ _
  · exact regular_alloc (by decide) (by decide) (by decide)
  · exact fun fault => absurd rfl fault
  · exact regular_access rfl (by decide)
  · exact fun _ => by decide +kernel
  · refine exclusive.swapFree (0, 17) swapped ?_
    rw [frame]
    exact free

/-- If each access stays inside the RAM, the area of each process reaches from the break to the end of its page, and
each page of it is in RAM or in the swap. -/
theorem mapped_of_inside {s : System}
    (reachable : Reach (System.StepOver behind)
      (fun s l => (s.Regular l ∧ s.Allocates l ∧ s.SwapReady l) ∧ s.StaysInside l)
      (fun s => s.Boot ∧ s.InDevices) s) (p : Nat) :
    (s.procs p).mmap.sbrk ≤ (s.procs p).mmap.vmEnd ∧
      (s.procs p).mmap.vmEnd = ((s.procs p).mmap.sbrk + 255) / 256 * 256 ∧
      ∀ pgn < (s.procs p).mmap.vmEnd / pagingPagesz, Mapped ((s.procs p).pgd pgn) := by
  have calls := (reach_fitted (fun s start => start)
    (fun s l ok => ⟨ok.1.1, ok.2, ok.1.2.2.swpfpnInside⟩) reachable).2
  exact reachable_mapped ((calls.mono fun s l ok => ⟨ok.1.1.within, ok.1.2.1⟩).mono_start fun s start => start.1) p

theorem tinySystem_mapped :
    let s := tinySystem.exec ⟨0, .read 0 512, noGarbage⟩
    (s.procs 0).mmap.sbrk ≤ (s.procs 0).mmap.vmEnd ∧
      (s.procs 0).mmap.vmEnd = ((s.procs 0).mmap.sbrk + 255) / 256 * 256 ∧
      ∀ pgn < (s.procs 0).mmap.vmEnd / pagingPagesz, Mapped ((s.procs 0).pgd pgn) := by
  have enough : tinyBoot.Allocates ⟨0, .alloc 768 0, noGarbage⟩ := by
    unfold System.Allocates
    decide
  refine mapped_of_inside (tinySystem_read_inside (tableBehind 16352)
    ⟨⟨tinyBoot_regular, enough, fun fault => absurd rfl fault⟩, staysInside_alloc _ _ _ _ _⟩
    ⟨⟨regular_access rfl (by decide), trivial, fun _ => by decide⟩, ⟨by decide, trivial⟩⟩ ⟨?_, ?_⟩) 0
  · exact bootSystem_boot zeroBlock_zero _ _ _
  · exact bootSystem_inDevices _ _ _ _

/-- A RAM of two frames and a swap of 30. Between the RAM and the page table of the process lie the frame nodes, the
storage of the swap and what the loader has allocated for the process. -/
def tableBoot : System := bootSystem zeroBlock (fun _ => 0) 512 7920

/-- A process has allocated ten pages; page 7 is in the swap frame 2. -/
def tableSystem : System := tableBoot.exec ⟨0, .alloc 2560 0, noGarbage⟩

/-- A write of 0 to page 7 goes to the address 16387, where the highest byte of the entry of page 8 lies. -/
theorem tableSystem_not_mapped :
    let l : Label := ⟨0, .write 0 0 1795, noGarbage⟩
    let s := tableSystem.execOver (tableBehind 16352) l
    Reach (System.StepOver (tableBehind 16352)) (fun s l => s.Regular l ∧ s.Allocates l ∧ s.SwapReady l)
        (fun s => s.Boot ∧ s.InDevices) s ∧
      l.call.physical (tableSystem.caller 0) l.g = some 16387 ∧ Mapped ((tableSystem.procs 0).pgd 8) ∧
      8 < (s.procs 0).mmap.vmEnd / pagingPagesz ∧ ¬ Mapped ((s.procs 0).pgd 8) := by
  intro l s
  have alloc : tableBoot.InArrays ⟨0, .alloc 2560 0, noGarbage⟩ := by decide +kernel
  have enough : tableBoot.Allocates ⟨0, .alloc 2560 0, noGarbage⟩ := by
    unfold System.Allocates
    decide
  have touched : l.call.physical (tableSystem.caller 0) l.g = some 16387 := by decide +kernel
  have outside : ¬ tableSystem.InArrays l := fun inside =>
    absurd (inside.inBlocks.access 16387 touched) (by decide +kernel)
  have next : s = tableBehind 16352 tableSystem l := System.execOver_of_outside outside _
  refine ⟨.step (l := l) (.step (.start ⟨?_, ?_⟩) ⟨?_, enough, ?_⟩ (System.execOver_of_inArrays alloc _).symm)
    ⟨?_, trivial, ?_⟩ rfl, touched, ?_, ?_, ?_⟩
  · exact bootSystem_boot zeroBlock_zero _ _ _
  · exact bootSystem_inDevices _ _ _ _
  · exact regular_alloc (by decide) (by decide) (by decide)
  · exact fun fault => absurd rfl fault
  · exact regular_access rfl (by decide)
  · exact fun _ => by decide +kernel
  · unfold Mapped
    decide +kernel
  · rw [next]
    decide +kernel
  · rw [next]
    unfold Mapped
    decide +kernel

/-- If each access stays inside the RAM, each RAM frame is once on the free or on the used list, and the dump shows
those handed out. -/
theorem bookkeeping_of_inside {maxsz : Nat} {s : System}
    (reachable : Reach (System.StepOver behind) (fun s l => s.Regular l ∧ s.StaysInside l ∧ s.SwpfpnInside l)
      (fun s => s.RamBoot maxsz ∧ s.Boot ∧ s.InDevices) s) :
    (s.mram.freeFpList ++ s.mram.usedFpList).Perm (List.range (maxsz / pagingPagesz)) ∧
      ∀ fpn, ((memphyDump s.mram).map Prod.fst).count fpn =
        if fpn < maxsz / pagingPagesz ∧ fpn ∉ s.mram.freeFpList then 1 else 0 := by
  have calls := (reach_fitted (fun s start => start.2) (fun s l ok => ok) reachable).2
  exact reachable_bookkeeping (calls.mono_start fun s start => start.1)

theorem tinySystem_bookkeeping :
    let s := tinySystem.exec ⟨0, .read 0 512, noGarbage⟩
    (s.mram.freeFpList ++ s.mram.usedFpList).Perm (List.range 2) ∧
      ∀ fpn, ((memphyDump s.mram).map Prod.fst).count fpn =
        if fpn < 2 ∧ fpn ∉ s.mram.freeFpList then 1 else 0 := by
  have boot : tinyBoot.RamBoot 512 := ⟨⟨_, _, rfl⟩, by decide⟩
  refine bookkeeping_of_inside (tinySystem_read_inside (ramNodesBehind 81920)
    ⟨tinyBoot_regular, staysInside_alloc _ _ _ _ _, fun fault => absurd rfl fault⟩
    ⟨regular_access rfl (by decide), ⟨by decide, trivial⟩, fun _ full => absurd full (by decide)⟩
    ⟨boot, ?_, ?_⟩)
  · exact bootSystem_boot zeroBlock_zero _ _ _
  · exact bootSystem_inDevices _ _ _ _

/-- A RAM of two frames and a swap of 30. The nodes of the used list lie behind all that was allocated before them. -/
def nodesBoot : System := bootSystem zeroBlock (fun _ => 0) 512 7872

/-- A process has allocated 13 pages; page 2 is in the swap frame 10. -/
def nodesSystem : System := nodesBoot.exec ⟨0, .alloc 3328 0, noGarbage⟩

/-- A write of 1 to page 2 goes to the address 81920, where the used node of the RAM frame 0 lies: it gets the number
1. -/
theorem nodesSystem_not_bookkeeping :
    let l : Label := ⟨0, .write 1 0 512, noGarbage⟩
    let s := nodesSystem.execOver (ramNodesBehind 81920) l
    Reach (System.StepOver (ramNodesBehind 81920)) System.Regular
        (fun s => s.RamBoot 512 ∧ s.Boot ∧ s.InDevices) s ∧
      l.call.physical (nodesSystem.caller 0) l.g = some 81920 ∧ 0 ∈ nodesSystem.mram.usedFpList ∧
      0 ∉ s.mram.freeFpList ++ s.mram.usedFpList ∧
      ¬ (s.mram.freeFpList ++ s.mram.usedFpList).Perm (List.range (512 / pagingPagesz)) := by
  intro l s
  have alloc : nodesBoot.InArrays ⟨0, .alloc 3328 0, noGarbage⟩ := by decide +kernel
  have touched : l.call.physical (nodesSystem.caller 0) l.g = some 81920 := by decide +kernel
  have outside : ¬ nodesSystem.InArrays l := fun inside =>
    absurd (inside.inBlocks.access 81920 touched) (by decide +kernel)
  have next : s = ramNodesBehind 81920 nodesSystem l := System.execOver_of_outside outside _
  have gone : 0 ∉ s.mram.freeFpList ++ s.mram.usedFpList := by
    rw [next]
    decide +kernel
  refine ⟨.step (.step (.start ⟨⟨⟨_, _, rfl⟩, ?_⟩, ?_, ?_⟩) ?_ (System.execOver_of_inArrays alloc _).symm) ?_ rfl,
    touched, ?_, gone, fun parts => ?_⟩
  · decide
  · exact bootSystem_boot zeroBlock_zero _ _ _
  · exact bootSystem_inDevices _ _ _ _
  · exact regular_alloc (by decide) (by decide) (by decide)
  · exact regular_access rfl (by decide)
  · decide +kernel
  · exact gone (parts.symm.subset (List.mem_range.mpr (by decide)))

end Run

end OsSim.Paging
