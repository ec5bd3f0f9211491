import OsSim.Paging.FrameNumbers

namespace OsSim.Paging
open Transition

def memphyPutFreefp (mp : Memphy) (fpn : Nat) : Memphy := { mp with freeFpList := fpn :: mp.freeFpList }

/-- One turn of the loop of `freePcbMemph`. -/
def freePage (caller : Caller) (pagenum : Nat) : Caller :=
  let pte := caller.mm.pgd pagenum
  if !pagingPagePresent pte then { caller with mram := memphyPutFreefp caller.mram (pagingFpn pte) }
  else { caller with activeMswp := memphyPutFreefp caller.activeMswp (pagingSwp pte) }

def freePcbMemph (caller : Caller) : Caller := (List.range pagingMaxPgn).foldl freePage caller

/-- The frames `put` on a free list are those that the page table holds on the device, each once. -/
structure PutExactly (h : BitVec 32 → Option Nat) (mm : MmStruct) (before after : List Nat) : Prop where
  put : ∃ put : List Nat, after = put ++ before ∧ put.Nodup ∧
    ∀ fpn, fpn ∈ put ↔ ∃ pgn < pagingMaxPgn, h (mm.pgd pgn) = some fpn
  nodup : after.Nodup

/-- `freePcbMemph` gives back the frames of the process. -/
structure Caller.Collects (caller : Caller) : Prop where
  mram : PutExactly ramHolds caller.mm caller.mram.freeFpList (freePcbMemph caller).mram.freeFpList
  activeMswp :
    PutExactly swapHolds caller.mm caller.activeMswp.freeFpList (freePcbMemph caller).activeMswp.freeFpList

/-! ## What the loop puts on the lists -/

def absentPages (mm : MmStruct) : List Nat := (List.range pagingMaxPgn).filter fun pgn => !pagingPagePresent (mm.pgd pgn)

def presentPages (mm : MmStruct) : List Nat := (List.range pagingMaxPgn).filter fun pgn => pagingPagePresent (mm.pgd pgn)

theorem foldl_freePage (pages : List Nat) (caller : Caller) :
    (pages.foldl freePage caller).mram.freeFpList =
        ((pages.filter fun pgn => !pagingPagePresent (caller.mm.pgd pgn)).map
          fun pgn => pagingFpn (caller.mm.pgd pgn)).reverse ++ caller.mram.freeFpList ∧
      (pages.foldl freePage caller).activeMswp.freeFpList =
        ((pages.filter fun pgn => pagingPagePresent (caller.mm.pgd pgn)).map
          fun pgn => pagingSwp (caller.mm.pgd pgn)).reverse ++ caller.activeMswp.freeFpList := by
  induction pages generalizing caller with
  | nil => exact ⟨rfl, rfl⟩
  | cons pgn rest ih =>
      rw [List.foldl_cons]
      obtain ⟨mram, activeMswp⟩ := ih (freePage caller pgn)
      rw [mram, activeMswp]
      cases present : pagingPagePresent (caller.mm.pgd pgn) <;>
        simp [freePage, present, memphyPutFreefp]

theorem freePcbMemph_mram (caller : Caller) :
    (freePcbMemph caller).mram.freeFpList =
      ((absentPages caller.mm).map fun pgn => pagingFpn (caller.mm.pgd pgn)).reverse ++ caller.mram.freeFpList := by
  rw [freePcbMemph, (foldl_freePage _ caller).1, absentPages]

theorem freePcbMemph_activeMswp (caller : Caller) :
    (freePcbMemph caller).activeMswp.freeFpList =
      ((presentPages caller.mm).map fun pgn => pagingSwp (caller.mm.pgd pgn)).reverse ++ caller.activeMswp.freeFpList := by
  rw [freePcbMemph, (foldl_freePage _ caller).2, presentPages]

theorem length_pages (mm : MmStruct) : (absentPages mm).length + (presentPages mm).length = pagingMaxPgn := by
  have parts := List.length_eq_length_filter_add (l := List.range pagingMaxPgn) fun pgn => pagingPagePresent (mm.pgd pgn)
  rw [List.length_range] at parts
  rw [absentPages, presentPages]
  omega

/-! ## The entries of a page table -/

/-- An entry was never written, or last to map its page to a frame. -/
def Formed (pte : BitVec 32) : Prop := pte = 0#32 ∨ ∃ (frame : Frame) (pte' : BitVec 32), pte = frame.setIn pte'

theorem Formed.unswapped {pte : BitVec 32} (formed : Formed pte) (present : pagingPagePresent pte = true) :
    pagingPageSwapped pte = false := by
  rcases formed with rfl | ⟨frame, pte', rfl⟩
  · decide
  · cases frame with
    | ram fpn => exact pagingPageSwapped_pteSetFpn pte' fpn
    | swap fpn =>
        have absent := pagingPagePresent_pteSetSwap pte' 0 fpn
        exact absurd (present.symm.trans absent) (by decide)

/-- Bits 0 to 4, where the swap type is, are part of the frame number that is read from an entry. -/
theorem Formed.low {pte : BitVec 32} (formed : Formed pte) (absent : pagingPagePresent pte = false) :
    pagingFpn pte % 32 = 0 := by
  rcases formed with rfl | ⟨frame, pte', rfl⟩
  · decide
  · cases frame with
    | ram fpn =>
        have present := pagingPagePresent_pteSetFpn pte' fpn
        exact absurd (absent.symm.trans present) (by decide)
    | swap fpn =>
        have field : pagingFpn (pteSetSwap pte' 0 fpn) = (pteSetSwap pte' 0 fpn).toNat / 2 ^ 0 % 2 ^ 13 :=
          BitField.toNat_getval (by decide) (by decide) _
        have low : (pteSetSwap pte' 0 fpn).toNat % 2 ^ 5 = 0 := by
          apply Nat.eq_of_testBit_eq
          intro i
          rw [Nat.testBit_mod_two_pow, Nat.zero_testBit, BitVec.testBit_toNat, getLsbD_pteSetSwap]
          by_cases type : i < 5
          · rw [if_neg (by omega), if_pos (by omega), BitVec.getLsbD_zero, Bool.and_false]
          · rw [decide_eq_false type, Bool.false_and]
        rw [Frame.setIn, field]
        omega

theorem vmMapRam_formed (caller : Caller) (mapstart incpgnum : Int) {i : Nat} (formed : Formed (caller.mm.pgd i)) :
    Formed ((vmMapRam caller mapstart incpgnum).2.mm.pgd i) :=
  vmMapRam_entry mapstart (fun fpn _ pte => .inr ⟨.ram fpn, pte, rfl⟩) (fun fpn _ pte => .inr ⟨.swap fpn, pte, rfl⟩)
    formed

theorem swapPage_formed (caller : Caller) {pgn vicpgn : Nat} (g : Garbage) (different : pgn ≠ vicpgn) {i : Nat}
    (formed : Formed (caller.mm.pgd i)) : Formed ((swapPage caller pgn vicpgn g).mm.pgd i) :=
  swapPage_entry caller g different (.inr ⟨.ram _, _, rfl⟩) (.inr ⟨.swap _, _, rfl⟩) formed

def System.FormedTables (s : System) : Prop := ∀ p pgn, Formed ((s.procs p).pgd pgn)

theorem reachable_formed {ok : System → Label → Prop} {s : System}
    (reachable : Reach System.Step ok System.Boot s) : s.FormedTables := by
  refine reachable.invariant ?_ ?_
  · intro s boot p pgn
    obtain ⟨block, zero, fresh⟩ := boot.procs p
    rw [fresh]
    exact .inl (zero.pgd pgn)
  · rintro s l s' formed _ rfl
    refine System.exec_procs (fun mm => ∀ pgn, Formed (mm.pgd pgn)) formed fun pgn => ?_
    have paging : s.paging l = l.call.paging (s.caller l.p) l.g := rfl
    rw [(l.call.exec_samePaging (s.caller l.p) l.g).pgd, ← paging]
    rcases s.paging_cases l with ⟨mapstart, incpgnum, maps, _⟩ | ⟨_, quiet⟩ | ⟨pgn', vicpgn, _, fault, swaps⟩
    · rw [maps]
      exact vmMapRam_formed (s.caller l.p) mapstart incpgnum (formed l.p pgn)
    · rw [quiet]
      exact formed l.p pgn
    · rw [swaps]
      exact swapPage_formed (s.caller l.p) l.g (ne_of_faultVictim fault) (formed l.p pgn)

/-! ## The frames that are given back -/

variable {mm : MmStruct} {before : List Nat}

/-- The frame numbers of the absent pages are multiples of 32 below 2 ^ 13, so that few pages have one of their own. -/
theorem few_absent (formed : ∀ pgn, Formed (mm.pgd pgn))
    (exactly : PutExactly ramHolds mm before
      (((absentPages mm).map fun pgn => pagingFpn (mm.pgd pgn)).reverse ++ before)) :
    (absentPages mm).length ≤ 256 := by
  have put : ((absentPages mm).map fun pgn => pagingFpn (mm.pgd pgn)).Nodup := by
    obtain ⟨put, same, nodup, _⟩ := exactly.put
    rw [← List.append_cancel_right same] at nodup
    exact List.nodup_reverse.mp nodup
  have inside : (absentPages mm).map (fun pgn => pagingFpn (mm.pgd pgn)) ⊆ (List.range 256).map (32 * ·) := by
    intro fpn member
    obtain ⟨pgn, page, rfl⟩ := List.mem_map.mp member
    have absent : pagingPagePresent (mm.pgd pgn) = false := by simpa using (List.mem_filter.mp page).2
    have low := (formed pgn).low absent
    have small := pagingFpn_lt (mm.pgd pgn)
    exact List.mem_map.mpr ⟨pagingFpn (mm.pgd pgn) / 32, List.mem_range.mpr (by omega), by omega⟩
  have few := (List.subperm_of_subset put inside).length_le
  rw [List.length_map, List.length_map, List.length_range] at few
  exact few

/-- Each present page has the frame of a swapped page, which is an absent one. -/
theorem present_le_absent (formed : ∀ pgn, Formed (mm.pgd pgn))
    (exactly : PutExactly swapHolds mm before
      (((presentPages mm).map fun pgn => pagingSwp (mm.pgd pgn)).reverse ++ before)) :
    (presentPages mm).length ≤ (absentPages mm).length := by
  obtain ⟨put, same, nodup, frames⟩ := exactly.put
  rw [← List.append_cancel_right same] at nodup frames
  have inside : (presentPages mm).map (fun pgn => pagingSwp (mm.pgd pgn)) ⊆
      (absentPages mm).map fun pgn => pagingSwp (mm.pgd pgn) := by
    intro fpn member
    obtain ⟨pgn, below, holds⟩ := (frames fpn).mp (List.mem_reverse.mpr member)
    obtain ⟨swapped, rfl⟩ := swapHolds_eq_some.mp holds
    refine List.mem_map.mpr ⟨pgn, List.mem_filter.mpr ⟨List.mem_range.mpr below, ?_⟩, rfl⟩
    cases present : pagingPagePresent (mm.pgd pgn) with
    | false => rfl
    | true => exact absurd (swapped.symm.trans ((formed pgn).unswapped present)) (by decide)
  have fewer := (List.subperm_of_subset (List.nodup_reverse.mp nodup) inside).length_le
  rwa [List.length_map, List.length_map] at fewer

theorem not_collects {caller : Caller} (formed : ∀ pgn, Formed (caller.mm.pgd pgn)) : ¬ caller.Collects := by
  rintro ⟨mram, activeMswp⟩
  rw [freePcbMemph_mram] at mram
  rw [freePcbMemph_activeMswp] at activeMswp
  have few := few_absent formed mram
  have fewer := present_le_absent formed activeMswp
  have all := length_pages caller.mm
  rw [show pagingMaxPgn = 16384 from rfl] at all
  omega

/-- In no state that processes reach does `freePcbMemph` give back the frames of a process. -/
theorem reachable_not_collects {s : System} (reachable : Reach System.Step (fun _ _ => True) System.Boot s) (p : Nat) :
    ¬ (s.caller p).Collects :=
  not_collects (reachable_formed reachable p)

theorem tinySystem_not_collects : ¬ (tinySystem.caller 0).Collects :=
  reachable_not_collects (.step (l := ⟨0, .alloc 768 0, noGarbage⟩)
    (.start (bootSystem_boot zeroBlock_zero _ _ _)) trivial rfl) 0

/-- A process that has mapped no page gives frame 0 of the RAM back for each of its pages. -/
theorem tinyBoot_not_collects :
    (freePcbMemph (tinyBoot.caller 0)).mram.freeFpList = List.replicate pagingMaxPgn 0 ++ [0, 1] ∧
      ¬ (tinyBoot.caller 0).Collects := by
  refine ⟨?_, not_collects fun pgn => .inl rfl⟩
  have zero : ∀ pgn, (tinyBoot.caller 0).mm.pgd pgn = 0#32 := fun _ => rfl
  have all : absentPages (tinyBoot.caller 0).mm = List.range pagingMaxPgn := by
    refine List.filter_eq_self.mpr fun pgn _ => ?_
    rw [zero]
    decide
  have frame : pagingFpn 0#32 = 0 := by decide
  have free : (tinyBoot.caller 0).mram.freeFpList = [0, 1] := by decide
  simp only [freePcbMemph_mram, all, free, zero, frame, List.map_const', List.length_range, List.reverse_replicate]

end OsSim.Paging
