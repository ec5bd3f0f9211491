import OsSim.Paging.FirstFit
import OsSim.Paging.Mapping
import OsSim.Paging.SwapFrames

namespace OsSim.Paging
open Transition

inductive Frame
  | ram (fpn : Nat)
  | swap (fpn : Nat)
deriving DecidableEq

def Frame.DecodedFrom (pte : BitVec 32) : Frame → Prop
  | .ram fpn => ramHolds pte = some fpn
  | .swap fpn => swapHolds pte = some fpn

instance (pte : BitVec 32) (frame : Frame) : Decidable (frame.DecodedFrom pte) := by
  cases frame <;> exact inferInstanceAs (Decidable (_ = _))

/-- The frames that a range of `n` pages gets, in the order of its pages. -/
def rangeFrames (caller : Caller) (n : Nat) : List Frame :=
  (ramFrames caller n).map .ram ++ (swapFrames caller n).map .swap

/-- The pages that an allocation maps, with their frames. -/
def System.rangeMaps (s : System) (l : Label) : List (Nat × Frame) :=
  match l.call with
  | .alloc size _ =>
      let request := allocRequest (s.procs l.p) (cint size)
      let first := pagingPgn (BitVec.ofInt 32 (cint (s.procs l.p).mmap.vmEnd))
      if enoughFrames (s.caller l.p) request then
        (rangeFrames (s.caller l.p) request.toNat).mapIdx fun i frame => (first + i, frame)
      else []
  | _ => []

/-- The pages that a fault maps: the page that gets the frame of the victim, and the victim, if the swap has a frame
for it. -/
def System.faultMaps (s : System) (l : Label) : List (Nat × Frame) :=
  match s.fault l with
  | none => []
  | some (pgn, vicpgn) =>
      (pgn, .ram (pagingFpn (s.entry (l.p, vicpgn)))) ::
        (s.activeMswp.freeFpList.head?.map fun fpn => (vicpgn, Frame.swap fpn)).toList

def System.maps (s : System) (l : Label) : List (Nat × Frame) := s.rangeMaps l ++ s.faultMaps l

/-- Each page that the step maps is found in its frame after the step. -/
def System.Decodes (s : System) (l : Label) : Prop :=
  ∀ pgn frame, (pgn, frame) ∈ s.maps l → frame.DecodedFrom ((s.exec l).entry (l.p, pgn))

def Frame.Fits : Frame → Prop
  | .ram fpn => fpn < 2 ^ 13
  | .swap fpn => fpn < 2 ^ 21

def Frame.setIn (pte : BitVec 32) : Frame → BitVec 32
  | .ram fpn => pteSetFpn pte fpn
  | .swap fpn => pteSetSwap pte 0 fpn

theorem Frame.decodedFrom_setIn_iff (frame : Frame) (pte : BitVec 32) :
    frame.DecodedFrom (frame.setIn pte) ↔ frame.Fits := by
  cases frame with
  | ram fpn =>
      have present := pagingPagePresent_pteSetFpn pte fpn
      simp only [Frame.DecodedFrom, Frame.setIn, Frame.Fits, ramHolds_eq_some, present, true_and, pagingFpn_pteSetFpn]
      exact Nat.mod_eq_iff_lt (by decide)
  | swap fpn =>
      have swapped := pagingPageSwapped_pteSetSwap pte 0 fpn
      simp only [Frame.DecodedFrom, Frame.setIn, Frame.Fits, swapHolds_eq_some, swapped, true_and,
        pagingSwp_pteSetSwap]
      exact Nat.mod_eq_iff_lt (by decide)

theorem vmMapRam_maps (caller : Caller) (mapstart incpgnum : Int) (enough : enoughFrames caller incpgnum) {i : Nat}
    {frame : Frame} (taken : (rangeFrames caller incpgnum.toNat)[i]? = some frame) :
    (vmMapRam caller mapstart incpgnum).2.mm.pgd (pagingPgn (BitVec.ofInt 32 mapstart) + i) =
      frame.setIn (caller.mm.pgd (pagingPgn (BitVec.ofInt 32 mapstart) + i)) := by
  rw [rangeFrames, List.getElem?_append] at taken
  split at taken
  · rw [List.getElem?_map, Option.map_eq_some_iff] at taken
    obtain ⟨fpn, taken, rfl⟩ := taken
    exact vmMapRam_present mapstart enough taken
  · next above =>
    rw [List.length_map] at above taken
    obtain ⟨j, rfl⟩ : ∃ j, i = (ramFrames caller incpgnum.toNat).length + j :=
      ⟨i - (ramFrames caller incpgnum.toNat).length, by omega⟩
    rw [List.getElem?_map, Option.map_eq_some_iff, Nat.add_sub_cancel_left] at taken
    obtain ⟨fpn, taken, rfl⟩ := taken
    exact vmMapRam_swapped mapstart enough taken

theorem System.entry_of_rangeMaps {s : System} {l : Label} {pgn : Nat} {frame : Frame}
    (maps : (pgn, frame) ∈ s.rangeMaps l) : ∃ pte, (s.exec l).entry (l.p, pgn) = frame.setIn pte := by
  rw [System.entry_exec]
  obtain ⟨p, call, g⟩ := l
  rw [System.rangeMaps] at maps
  cases call with
  | alloc size regIndex =>
      dsimp only at maps
      split at maps
      · next enough =>
        obtain ⟨i, inside, same⟩ := List.mem_mapIdx.mp maps
        obtain ⟨rfl, rfl⟩ := Prod.mk.inj same
        exact ⟨_, vmMapRam_maps _ _ _ enough (List.getElem?_eq_getElem inside)⟩
      · cases maps
  | free regIndex => cases maps
  | read source offset => cases maps
  | write data destination offset => cases maps
  | getval addr => cases maps
  | setval addr value => cases maps

theorem System.entry_of_faultMaps {s : System} {l : Label} {pgn : Nat} {frame : Frame}
    (maps : (pgn, frame) ∈ s.faultMaps l) : ∃ pte, (s.exec l).entry (l.p, pgn) = frame.setIn pte := by
  rw [System.entry_exec]
  rw [System.faultMaps] at maps
  rcases Call.paging_cases (s.caller l.p) l.g l.call with
    ⟨size, regIndex, call⟩ | ⟨quiet, _⟩ | ⟨page, vicpgn, fault, victim, swaps⟩
  · have quiet : s.fault l = none := by
      rw [System.fault, call]
      rfl
    rw [quiet] at maps
    cases maps
  · have quiet : s.fault l = none := quiet
    rw [quiet] at maps
    cases maps
  · have fault : s.fault l = some (page, vicpgn) := fault
    rw [fault] at maps
    rw [System.paging, swaps, swapPage_pgd _ _ (ne_of_faultVictim victim)]
    rcases List.mem_cons.mp maps with same | later
    · obtain ⟨rfl, rfl⟩ := Prod.mk.inj same
      exact ⟨_, Function.update_self _ _ _⟩
    · obtain ⟨fpn, free, same⟩ := Option.map_eq_some_iff.mp (Option.mem_toList.mp later)
      obtain ⟨rfl, rfl⟩ := Prod.mk.inj same
      obtain ⟨rest, free⟩ := List.head?_eq_some_iff.mp free
      have swpfpn : faultSwpfpn (s.caller l.p) l.g = fpn := faultSwpfpn_of_free free l.g
      refine ⟨(s.caller l.p).mm.pgd vicpgn, ?_⟩
      rw [Function.update_of_ne (ne_of_faultVictim victim).symm, Function.update_self, swpfpn]
      rfl

theorem System.decodes_iff (s : System) (l : Label) :
    s.Decodes l ↔ ∀ pgn frame, (pgn, frame) ∈ s.maps l → frame.Fits := by
  refine forall_congr' fun pgn => forall_congr' fun frame => imp_congr_right fun maps => ?_
  obtain ⟨pte, entry⟩ : ∃ pte, (s.exec l).entry (l.p, pgn) = frame.setIn pte := by
    rcases List.mem_append.mp maps with range | fault
    · exact System.entry_of_rangeMaps range
    · exact System.entry_of_faultMaps fault
  rw [entry, Frame.decodedFrom_setIn_iff]

/-- The numbers that come from the free lists; the frame of a victim fits in any case, as it comes from an entry. -/
theorem System.Addressable.fits {s : System} (small : s.Addressable) {l : Label} {pgn : Nat} {frame : Frame}
    (maps : (pgn, frame) ∈ s.maps l) : frame.Fits := by
  rcases List.mem_append.mp maps with range | fault
  · rw [System.rangeMaps] at range
    split at range
    · dsimp only at range
      split at range
      · obtain ⟨i, inside, same⟩ := List.mem_mapIdx.mp range
        obtain ⟨rfl, rfl⟩ := Prod.mk.inj same
        rcases List.mem_append.mp (List.getElem_mem inside) with ram | swap
        · obtain ⟨fpn, taken, same⟩ := List.mem_map.mp ram
          rw [← same]
          exact small.mram fpn (List.mem_of_mem_take (List.mem_reverse.mp taken))
        · obtain ⟨fpn, taken, same⟩ := List.mem_map.mp swap
          rw [← same]
          exact small.activeMswp fpn (List.mem_of_mem_take (List.mem_reverse.mp taken))
      · cases range
    · cases range
  · rw [System.faultMaps] at fault
    split at fault
    · cases fault
    · rcases List.mem_cons.mp fault with same | later
      · obtain ⟨rfl, rfl⟩ := Prod.mk.inj same
        exact pagingFpn_lt _
      · obtain ⟨fpn, free, same⟩ := Option.map_eq_some_iff.mp (Option.mem_toList.mp later)
        obtain ⟨rfl, rfl⟩ := Prod.mk.inj same
        exact small.activeMswp fpn (List.mem_of_mem_head? free)

/-! ## Sizes of the devices -/

structure System.SizedBoot (memramsz memswpsz : Nat) (s : System) : Prop where
  procs : ∀ p, ∃ block, ZeroBlock block ∧ s.procs p = initMm block
  mram : ∃ storage, s.mram = initMemphy storage memramsz true
  activeMswp : ∃ storage, s.activeMswp = initMemphy storage memswpsz true

/-- In every run of processes over devices of these sizes, each page that a step maps is found in its frame. -/
def FramesSurvive (memramsz memswpsz : Nat) : Prop :=
  ∀ s, Reach System.Step System.InMemory (System.SizedBoot memramsz memswpsz) s → ∀ l, s.Decodes l

theorem System.SizedBoot.addressable {memramsz memswpsz : Nat} {s : System} (boot : s.SizedBoot memramsz memswpsz)
    (ram : memramsz / pagingPagesz ≤ 2 ^ 13) (swap : memswpsz / pagingPagesz ≤ 2 ^ 21) : s.Addressable := by
  obtain ⟨_, mram⟩ := boot.mram
  obtain ⟨_, activeMswp⟩ := boot.activeMswp
  refine ⟨fun fpn member => ?_, fun fpn member => ?_⟩
  · rw [mram] at member
    exact Nat.lt_of_lt_of_le (List.mem_range.mp member) ram
  · rw [activeMswp] at member
    exact Nat.lt_of_lt_of_le (List.mem_range.mp member) swap

theorem framesSurvive {memramsz memswpsz : Nat} (ram : memramsz / pagingPagesz ≤ 2 ^ 13)
    (swap : memswpsz / pagingPagesz ≤ 2 ^ 21) : FramesSurvive memramsz memswpsz := by
  intro s reachable l
  have small : s.Addressable := by
    refine reachable.invariant (fun s boot => boot.addressable ram swap) ?_
    rintro s l s' small _ rfl
    exact small.exec l
  exact (s.decodes_iff l).mpr fun pgn frame maps => small.fits maps

/-! ## Every frame of the devices is mapped in some run -/

theorem initMm_freeRegions {block : MmStruct} (zero : ZeroBlock block) :
    (initMm block).FreeRegions [] block.rgNodes.fresh :=
  ⟨initMm_freeList zero, .nil, by simp⟩

section Fresh

variable {s : System} {p n : Nat} {block : MmStruct}

def firstAlloc (p n : Nat) : Label := ⟨p, .alloc (n * pagingPagesz) 0, noGarbage⟩

theorem allocRequest_fresh (zero : ZeroBlock block) (fresh : s.procs p = initMm block) (positive : 1 ≤ n)
    (table : n ≤ pagingMaxPgn) : allocRequest (s.procs p) (cint (n * pagingPagesz : Nat)) = n := by
  rw [show pagingMaxPgn = 16384 from rfl] at table
  have size : n * pagingPagesz = n * 256 := rfl
  have moves : movesBreak (initMm block) (n * 256 : Nat) := by
    rcases (initMm_freeRegions zero).first (show 1 ≤ n * 256 by omega) (by omega) with
      ⟨status, _⟩ | ⟨pre, a, rg, post, split, _⟩
    · rw [movesBreak, status]
      decide
    · simp at split
  have within : (initMm block).mmap.sbrk + n * 256 ≤ 2 ^ pagingCpuBusWidth := by
    rw [show (initMm block).mmap.sbrk = 0 from rfl, pagingCpuBusWidth]
    omega
  rw [fresh, size, cint_of_lt (by omega), allocRequest_eq (initMm_aligned block) moves within,
    show (initMm block).mmap.sbrk = 0 from rfl, show (initMm block).mmap.vmEnd = 0 from rfl,
    pagingPageAlignsz_of_lt (by omega)]
  simp only [pagingPagesz]
  omega

theorem exec_firstAlloc (zero : ZeroBlock block) (fresh : s.procs p = initMm block) (positive : 1 ≤ n)
    (table : n ≤ pagingMaxPgn) :
    (s.exec (firstAlloc p n)).mram.freeFpList = s.mram.freeFpList.drop n ∧
      (s.exec (firstAlloc p n)).activeMswp.freeFpList =
        s.activeMswp.freeFpList.drop (n - s.mram.freeFpList.length) := by
  have paging : s.paging (firstAlloc p n) = (vmMapRam (s.caller p) (cint (s.procs p).mmap.vmEnd) n).2 := by
    rw [← allocRequest_fresh zero fresh positive table]
    rfl
  rw [(s.mram_exec _).freeFpList, (s.activeMswp_exec _).freeFpList, paging, vmMapRam_mram, vmMapRam_activeMswp]
  exact ⟨rfl, rfl⟩

theorem rangeMaps_firstAlloc (zero : ZeroBlock block) (fresh : s.procs p = initMm block) (positive : 1 ≤ n)
    (table : n ≤ pagingMaxPgn) (enough : enoughFrames (s.caller p) n) {frame : Frame}
    (taken : frame ∈ rangeFrames (s.caller p) n) : ∃ pgn, (pgn, frame) ∈ s.maps (firstAlloc p n) := by
  obtain ⟨i, inside, rfl⟩ := List.getElem_of_mem taken
  have request := allocRequest_fresh zero fresh positive table
  refine ⟨pagingPgn (BitVec.ofInt 32 (cint (s.procs p).mmap.vmEnd)) + i, List.mem_append_left _ ?_⟩
  rw [System.rangeMaps, firstAlloc]
  dsimp only
  rw [request, if_pos enough]
  exact List.mem_mapIdx.mpr ⟨i, inside, rfl⟩

end Fresh

/-- The first `k` processes have filled their page tables, in this order. -/
structure System.Filled (ram swap k : Nat) (s : System) : Prop where
  procs : ∀ p, k ≤ p → ∃ block, ZeroBlock block ∧ s.procs p = initMm block
  mram : s.mram.freeFpList = (List.range ram).drop (pagingMaxPgn * k)
  activeMswp : s.activeMswp.freeFpList = (List.range swap).drop (pagingMaxPgn * k - ram)

section Sized

variable {memramsz memswpsz : Nat}

theorem System.SizedBoot.filled {s : System} (boot : s.SizedBoot memramsz memswpsz) :
    s.Filled (memramsz / pagingPagesz) (memswpsz / pagingPagesz) 0 := by
  obtain ⟨_, mram⟩ := boot.mram
  obtain ⟨_, activeMswp⟩ := boot.activeMswp
  refine ⟨fun p _ => boot.procs p, ?_, ?_⟩
  · rw [mram]
    rfl
  · rw [activeMswp, Nat.mul_zero, Nat.zero_sub]
    rfl

theorem System.Filled.exec {ram swap k : Nat} {s : System} (filled : s.Filled ram swap k) :
    (s.exec (firstAlloc k pagingMaxPgn)).Filled ram swap (k + 1) := by
  obtain ⟨block, zero, fresh⟩ := filled.procs k (Nat.le_refl k)
  obtain ⟨mram, activeMswp⟩ := exec_firstAlloc zero fresh (show 1 ≤ pagingMaxPgn by decide) (Nat.le_refl _)
  refine ⟨fun p above => ?_, ?_, ?_⟩
  · have other : (s.exec (firstAlloc k pagingMaxPgn)).procs p = s.procs p :=
      s.procs_put_of_ne _ (show p ≠ k by omega)
    rw [other]
    exact filled.procs p (by omega)
  · rw [mram, filled.mram, List.drop_drop, Nat.mul_succ]
  · rw [activeMswp, filled.activeMswp, filled.mram, List.drop_drop, List.length_drop, List.length_range]
    congr 1
    rw [Nat.mul_succ]
    omega

theorem exists_filled (memramsz memswpsz k : Nat) :
    ∃ s, Reach System.Step System.InMemory (System.SizedBoot memramsz memswpsz) s ∧
      s.Filled (memramsz / pagingPagesz) (memswpsz / pagingPagesz) k := by
  induction k with
  | zero =>
      have boot : (bootSystem zeroBlock (fun _ => 0) memramsz memswpsz).SizedBoot memramsz memswpsz :=
        ⟨fun _ => ⟨zeroBlock, zeroBlock_zero, rfl⟩, ⟨_, rfl⟩, ⟨_, rfl⟩⟩
      exact ⟨_, .start boot, boot.filled⟩
  | succ k ih =>
      obtain ⟨s, reachable, filled⟩ := ih
      have registers : ∀ i ∈ (firstAlloc k pagingMaxPgn).call.registers, i < pagingMaxSymtblSz := by
        simp [firstAlloc, Call.registers, pagingMaxSymtblSz]
      exact ⟨_, .step reachable ⟨registers, System.inBlocks_of_no_access rfl⟩ rfl, filled.exec⟩

/-- The place of a frame in the order in which the frames are handed out. -/
def Frame.place (ram : Nat) : Frame → Nat
  | .ram fpn => fpn
  | .swap fpn => ram + fpn

def Frame.Inside (ram swap : Nat) : Frame → Prop
  | .ram fpn => fpn < ram
  | .swap fpn => fpn < swap

theorem Frame.Inside.place_lt {ram swap : Nat} {frame : Frame} (inside : frame.Inside ram swap) :
    frame.place ram < ram + swap := by
  cases frame with
  | ram fpn => exact Nat.lt_add_right swap inside
  | swap fpn => exact Nat.add_lt_add_left inside ram

theorem mem_take_drop_range {size first n fpn : Nat} (inside : fpn < size) (from_first : first ≤ fpn)
    (to_last : fpn < first + n) : fpn ∈ ((List.range size).drop first).take n := by
  obtain ⟨i, rfl⟩ : ∃ i, fpn = first + i := ⟨fpn - first, by omega⟩
  apply List.mem_of_getElem? (i := i)
  rw [List.getElem?_take_of_lt (by omega), List.getElem?_drop, List.getElem?_range inside]

/-- A frame is among those of the allocation that reaches its place. -/
theorem System.Filled.mem_rangeFrames {ram swap k n : Nat} {s : System} (filled : s.Filled ram swap k) {frame : Frame}
    (inside : frame.Inside ram swap) (from_first : pagingMaxPgn * k ≤ frame.place ram)
    (to_last : frame.place ram < pagingMaxPgn * k + n) : frame ∈ rangeFrames (s.caller k) n := by
  have mram : (s.caller k).mram.freeFpList = (List.range ram).drop (pagingMaxPgn * k) := filled.mram
  have activeMswp : (s.caller k).activeMswp.freeFpList = (List.range swap).drop (pagingMaxPgn * k - ram) :=
    filled.activeMswp
  rw [rangeFrames, ramFrames, swapFrames, mram, activeMswp, List.length_drop, List.length_range]
  cases frame with
  | ram fpn =>
      refine List.mem_append_left _ (List.mem_map.mpr ⟨fpn, List.mem_reverse.mpr ?_, rfl⟩)
      exact mem_take_drop_range inside from_first to_last
  | swap fpn =>
      refine List.mem_append_right _ (List.mem_map.mpr ⟨fpn, List.mem_reverse.mpr ?_, rfl⟩)
      simp only [Frame.place] at from_first to_last
      exact mem_take_drop_range inside (by omega) (by omega)

theorem exists_maps {frame : Frame} (inside : frame.Inside (memramsz / pagingPagesz) (memswpsz / pagingPagesz)) :
    ∃ s l pgn, Reach System.Step System.InMemory (System.SizedBoot memramsz memswpsz) s ∧
      (pgn, frame) ∈ s.maps l := by
  generalize place : frame.place (memramsz / pagingPagesz) = t
  have order : t < memramsz / pagingPagesz + memswpsz / pagingPagesz := place ▸ inside.place_lt
  obtain ⟨s, reachable, filled⟩ := exists_filled memramsz memswpsz (t / pagingMaxPgn)
  obtain ⟨block, zero, fresh⟩ := filled.procs _ (Nat.le_refl _)
  have divided : pagingMaxPgn * (t / pagingMaxPgn) + t % pagingMaxPgn = t := Nat.div_add_mod t pagingMaxPgn
  have small : t % pagingMaxPgn < pagingMaxPgn := Nat.mod_lt _ (by decide)
  have enough : enoughFrames (s.caller (t / pagingMaxPgn)) (t % pagingMaxPgn + 1 : Nat) := by
    have mram : (s.caller (t / pagingMaxPgn)).mram.freeFpList = _ := filled.mram
    have activeMswp : (s.caller (t / pagingMaxPgn)).activeMswp.freeFpList = _ := filled.activeMswp
    rw [enoughFrames, mram, activeMswp, List.length_drop, List.length_drop, List.length_range, List.length_range,
      Int.toNat_natCast]
    omega
  have taken := filled.mem_rangeFrames inside (n := t % pagingMaxPgn + 1) (by omega) (by omega)
  obtain ⟨pgn, maps⟩ := rangeMaps_firstAlloc zero fresh (Nat.succ_pos _) small enough taken
  exact ⟨s, _, pgn, reachable, maps⟩

theorem FramesSurvive.fits (survive : FramesSurvive memramsz memswpsz) {frame : Frame}
    (inside : frame.Inside (memramsz / pagingPagesz) (memswpsz / pagingPagesz)) : frame.Fits := by
  obtain ⟨s, l, pgn, reachable, maps⟩ := exists_maps inside
  exact (s.decodes_iff l).mp (survive s reachable l) pgn frame maps

end Sized

end OsSim.Paging
