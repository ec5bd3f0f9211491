import OsSim.Paging.Frames

namespace OsSim.Paging

variable {pteSet : BitVec 32 → Nat → BitVec 32}

theorem vmapFrames_at (pgn : Nat) (frames : List Nat) (pgit : Nat) (mm : MmStruct) {i : Nat}
    (inside : i < frames.length) :
    (vmapFrames pteSet pgn frames pgit mm).2.pgd (pgn + pgit + i) =
      pteSet (mm.pgd (pgn + pgit + i)) frames[i] := by
  induction frames generalizing pgit mm i with
  | nil => simp at inside
  | cons fpn rest ih =>
      rw [vmapFrames]
      cases i with
      | zero =>
          rw [vmapFrames_outside _ _ _ _ (by omega)]
          simp
      | succ i =>
          have place : pgn + pgit + (i + 1) = pgn + (pgit + 1) + i := by omega
          rw [place, ih _ _ (by simpa using inside)]
          simp only [List.getElem_cons_succ]
          rw [Function.update_of_ne (by omega)]

/-- The RAM frames that a range of `n` pages gets, in the order of its pages. -/
def ramFrames (caller : Caller) (n : Nat) : List Nat := (caller.mram.freeFpList.take n).reverse

/-- The swap frames that a range of `n` pages gets, in the order of its pages after those in RAM. -/
def swapFrames (caller : Caller) (n : Nat) : List Nat :=
  (caller.activeMswp.freeFpList.take (n - caller.mram.freeFpList.length)).reverse

section Call

variable {caller : Caller} {mapstart incpgnum : Int} {i fpn : Nat}

theorem vmMapRam_of_enough (enough : enoughFrames caller incpgnum) :
    vmMapRam caller mapstart incpgnum =
      (0, vmapPageRange (takeBoth caller incpgnum) mapstart (ramFrames caller incpgnum.toNat)
        (swapFrames caller incpgnum.toNat)) := by
  rw [vmMapRam_eq, if_pos enough]
  rfl

theorem vmMapRam_present (mapstart : Int) (enough : enoughFrames caller incpgnum)
    (taken : (ramFrames caller incpgnum.toNat)[i]? = some fpn) :
    (vmMapRam caller mapstart incpgnum).2.mm.pgd (pagingPgn (BitVec.ofInt 32 mapstart) + i) =
      pteSetFpn (caller.mm.pgd (pagingPgn (BitVec.ofInt 32 mapstart) + i)) fpn := by
  obtain ⟨inside, rfl⟩ := List.getElem?_eq_some_iff.mp taken
  rw [vmMapRam_of_enough enough, vmapPageRange_mm, vmapFrames_outside _ _ _ _ (by omega)]
  exact vmapFrames_at _ _ 0 _ inside

theorem vmMapRam_swapped (mapstart : Int) (enough : enoughFrames caller incpgnum)
    (taken : (swapFrames caller incpgnum.toNat)[i]? = some fpn) :
    (vmMapRam caller mapstart incpgnum).2.mm.pgd
        (pagingPgn (BitVec.ofInt 32 mapstart) + ((ramFrames caller incpgnum.toNat).length + i)) =
      pteSetSwap (caller.mm.pgd
        (pagingPgn (BitVec.ofInt 32 mapstart) + ((ramFrames caller incpgnum.toNat).length + i))) 0 fpn := by
  obtain ⟨inside, rfl⟩ := List.getElem?_eq_some_iff.mp taken
  rw [vmMapRam_of_enough enough, vmapPageRange_mm, ← Nat.add_assoc, vmapFrames_at _ _ _ _ inside,
    vmapFrames_outside _ _ _ _ (.inr (by omega))]
  rfl

/-- What holds of each entry that an allocation writes. -/
theorem vmMapRam_written {P : BitVec 32 → Prop} (mapstart : Int) (enough : enoughFrames caller incpgnum)
    (present : ∀ fpn ∈ ramFrames caller incpgnum.toNat, ∀ pte, P (pteSetFpn pte fpn))
    (swapped : ∀ fpn ∈ swapFrames caller incpgnum.toNat, ∀ pte, P (pteSetSwap pte 0 fpn))
    (from_first : pagingPgn (BitVec.ofInt 32 mapstart) ≤ i)
    (to_last : i < pagingPgn (BitVec.ofInt 32 mapstart) + incpgnum.toNat) :
    P ((vmMapRam caller mapstart incpgnum).2.mm.pgd i) := by
  obtain ⟨j, rfl⟩ := Nat.exists_eq_add_of_le from_first
  by_cases ram : j < (ramFrames caller incpgnum.toNat).length
  · rw [vmMapRam_present mapstart enough (List.getElem?_eq_getElem ram)]
    exact present _ (List.getElem_mem ram) _
  · obtain ⟨k, rfl⟩ := Nat.exists_eq_add_of_le (Nat.not_lt.mp ram)
    have swap : k < (swapFrames caller incpgnum.toNat).length := by
      rw [enoughFrames] at enough
      simp only [ramFrames, swapFrames, List.length_reverse, List.length_take] at to_last ⊢
      omega
    rw [vmMapRam_swapped mapstart enough (List.getElem?_eq_getElem swap)]
    exact swapped _ (List.getElem_mem swap) _

/-- What holds of an entry after an allocation, if it holds of what the allocation writes and of the entry before. -/
theorem vmMapRam_entry {P : BitVec 32 → Prop} (mapstart : Int)
    (present : ∀ fpn ∈ ramFrames caller incpgnum.toNat, ∀ pte, P (pteSetFpn pte fpn))
    (swapped : ∀ fpn ∈ swapFrames caller incpgnum.toNat, ∀ pte, P (pteSetSwap pte 0 fpn))
    (kept : P (caller.mm.pgd i)) : P ((vmMapRam caller mapstart incpgnum).2.mm.pgd i) := by
  by_cases enough : enoughFrames caller incpgnum
  · by_cases inside : pagingPgn (BitVec.ofInt 32 mapstart) ≤ i ∧
        i < pagingPgn (BitVec.ofInt 32 mapstart) + incpgnum.toNat
    · exact vmMapRam_written mapstart enough present swapped inside.1 inside.2
    · rw [vmMapRam_outside caller mapstart incpgnum (by omega)]
      exact kept
  · rw [vmMapRam_eq, if_neg enough]
    exact kept

theorem mem_ramFrames {n : Nat} (taken : fpn ∈ ramFrames caller n) : fpn ∈ caller.mram.freeFpList :=
  List.mem_of_mem_take (List.mem_reverse.mp taken)

theorem mem_swapFrames {n : Nat} (taken : fpn ∈ swapFrames caller n) : fpn ∈ caller.activeMswp.freeFpList :=
  List.mem_of_mem_take (List.mem_reverse.mp taken)

end Call

section Range

variable (caller : Caller) (mapstart n : Nat)

/-- The pages of a range of `n` that are mapped to RAM. The others go to the swap. -/
def ramPages : Nat := min n caller.mram.freeFpList.length

/-- The entry of the page `i` of the range after the call. -/
def rangeEntry (i : Nat) : BitVec 32 := (vmMapRam caller mapstart n).2.mm.pgd (mapstart / pagingPagesz + i)

/-- What a call has to do that maps `n` pages from `mapstart` on. -/
structure MapsRange : Prop where
  status : (vmMapRam caller mapstart n).1 = 0
  present : ∀ i, i < ramPages caller n → swapHolds (rangeEntry caller mapstart n i) = none ∧
    ∃ fpn ∈ caller.mram.freeFpList.take (ramPages caller n), ramHolds (rangeEntry caller mapstart n i) = some fpn
  swapped : ∀ i, ramPages caller n ≤ i → i < n → ramHolds (rangeEntry caller mapstart n i) = none ∧
    ∃ fpn ∈ caller.activeMswp.freeFpList.take (n - ramPages caller n),
      swapHolds (rangeEntry caller mapstart n i) = some fpn
  own : ∀ i, i < n → ∀ j, j < n → i ≠ j → ∀ fpn,
    (ramHolds (rangeEntry caller mapstart n i) = some fpn → ramHolds (rangeEntry caller mapstart n j) ≠ some fpn) ∧
      (swapHolds (rangeEntry caller mapstart n i) = some fpn → swapHolds (rangeEntry caller mapstart n j) ≠ some fpn)
  others : ∀ pgn, pgn < mapstart / pagingPagesz ∨ mapstart / pagingPagesz + n ≤ pgn →
    (vmMapRam caller mapstart n).2.mm.pgd pgn = caller.mm.pgd pgn
  mram : (vmMapRam caller mapstart n).2.mram.freeFpList = caller.mram.freeFpList.drop (ramPages caller n)
  activeMswp : (vmMapRam caller mapstart n).2.activeMswp.freeFpList =
    caller.activeMswp.freeFpList.drop (n - ramPages caller n)

end Range

variable {caller : Caller} {mapstart n : Nat}

theorem pagingPgn_mapstart (small : mapstart / pagingPagesz < pagingMaxPgn) :
    pagingPgn (BitVec.ofInt 32 mapstart) = mapstart / pagingPagesz := by
  rw [show pagingPagesz = 256 from rfl, show pagingMaxPgn = 16384 from rfl] at small
  rw [pagingPgn_eq, BitVec.ofInt_natCast, BitVec.toNat_ofNat, show pagingPagesz = 256 from rfl]
  omega

/-- What `vmMapRam` needs: room in the page table, enough frames, and frame numbers that an entry can hold. -/
structure RangeFits (caller : Caller) (mapstart n : Nat) : Prop where
  table : mapstart / pagingPagesz + n ≤ pagingMaxPgn
  enough : n ≤ caller.mram.freeFpList.length + caller.activeMswp.freeFpList.length
  mram : caller.mram.freeFpList.Nodup ∧ ∀ fpn ∈ caller.mram.freeFpList, fpn < 2 ^ 13
  activeMswp : caller.activeMswp.freeFpList.Nodup ∧ ∀ fpn ∈ caller.activeMswp.freeFpList, fpn < 2 ^ 21

theorem RangeFits.enoughFrames (fits : RangeFits caller mapstart n) : enoughFrames caller n := by
  have enough := fits.enough
  rw [OsSim.Paging.enoughFrames, Int.toNat_natCast]
  omega

theorem RangeFits.length_ramFrames (_ : RangeFits caller mapstart n) :
    (ramFrames caller n).length = ramPages caller n := by
  simp [ramFrames, ramPages]

theorem RangeFits.length_swapFrames (fits : RangeFits caller mapstart n) :
    (swapFrames caller n).length = n - ramPages caller n := by
  have enough := fits.enough
  simp only [swapFrames, ramPages, List.length_reverse, List.length_take]
  omega

theorem RangeFits.first (fits : RangeFits caller mapstart n) (some_page : 0 < n) :
    pagingPgn (BitVec.ofInt 32 mapstart) = mapstart / pagingPagesz := by
  have table := fits.table
  exact pagingPgn_mapstart (by omega)

theorem RangeFits.present (fits : RangeFits caller mapstart n) {i : Nat} (ram : i < ramPages caller n) :
    ∃ fpn, (ramFrames caller n)[i]? = some fpn ∧ fpn ∈ caller.mram.freeFpList.take (ramPages caller n) ∧
      ramHolds (rangeEntry caller mapstart n i) = some fpn ∧ swapHolds (rangeEntry caller mapstart n i) = none := by
  have inside : i < (ramFrames caller n).length := by
    rw [fits.length_ramFrames]
    exact ram
  have at_i := List.getElem?_eq_getElem inside
  have taken : (ramFrames caller n)[i] ∈ caller.mram.freeFpList.take n := List.mem_reverse.mp (List.getElem_mem inside)
  have entry := vmMapRam_present mapstart fits.enoughFrames at_i
  rw [fits.first (Nat.lt_of_le_of_lt (Nat.zero_le i) (Nat.lt_of_lt_of_le ram (Nat.min_le_left _ _)))] at entry
  refine ⟨_, at_i, ?_, ?_, ?_⟩
  · rw [ramPages, ← List.take_eq_take_min]
    exact taken
  · rw [rangeEntry, entry]
    exact ramHolds_pteSetFpn _ (fits.mram.2 _ (List.mem_of_mem_take taken))
  · rw [rangeEntry, entry]
    exact swapHolds_pteSetFpn _ _

theorem RangeFits.swapped (fits : RangeFits caller mapstart n) {i : Nat} (swap : ramPages caller n ≤ i)
    (inside : i < n) :
    ∃ fpn, (swapFrames caller n)[i - ramPages caller n]? = some fpn ∧
      fpn ∈ caller.activeMswp.freeFpList.take (n - ramPages caller n) ∧
      swapHolds (rangeEntry caller mapstart n i) = some fpn ∧ ramHolds (rangeEntry caller mapstart n i) = none := by
  obtain ⟨j, rfl⟩ : ∃ j, i = ramPages caller n + j := ⟨i - ramPages caller n, by omega⟩
  have inside' : j < (swapFrames caller n).length := by
    rw [fits.length_swapFrames]
    omega
  have at_j := List.getElem?_eq_getElem inside'
  have rest : n - caller.mram.freeFpList.length = n - ramPages caller n := by
    rw [ramPages]
    omega
  have taken : (swapFrames caller n)[j] ∈ caller.activeMswp.freeFpList.take (n - ramPages caller n) :=
    rest ▸ List.mem_reverse.mp (List.getElem_mem inside')
  have entry := vmMapRam_swapped mapstart fits.enoughFrames at_j
  rw [fits.first (by omega), Int.toNat_natCast, fits.length_ramFrames] at entry
  refine ⟨_, by rw [Nat.add_sub_cancel_left]; exact at_j, taken, ?_, ?_⟩
  · rw [rangeEntry, entry]
    exact swapHolds_pteSetSwap _ _ (fits.activeMswp.2 _ (List.mem_of_mem_take taken))
  · rw [rangeEntry, entry]
    exact ramHolds_pteSetSwap _ _ _

theorem taken_inj {frames : List Nat} (nodup : frames.Nodup) {n i j fpn : Nat}
    (at_i : (frames.take n).reverse[i]? = some fpn) (at_j : (frames.take n).reverse[j]? = some fpn) : i = j := by
  have nodup' : (frames.take n).reverse.Nodup := List.nodup_reverse.mpr (nodup.sublist (List.take_sublist _ _))
  obtain ⟨inside, _⟩ := List.getElem?_eq_some_iff.mp at_i
  exact (List.getElem?_inj inside nodup').mp (at_i.trans at_j.symm)

/-- No two pages of the range get the same frame. -/
theorem RangeFits.own (fits : RangeFits caller mapstart n) {i j : Nat} (inside : i < n) (inside' : j < n)
    (different : i ≠ j) (fpn : Nat) :
    (ramHolds (rangeEntry caller mapstart n i) = some fpn → ramHolds (rangeEntry caller mapstart n j) ≠ some fpn) ∧
      (swapHolds (rangeEntry caller mapstart n i) = some fpn →
        swapHolds (rangeEntry caller mapstart n j) ≠ some fpn) := by
  by_cases ram : i < ramPages caller n
  · obtain ⟨f, at_i, _, holds, unswapped⟩ := fits.present ram
    rw [holds, unswapped]
    refine ⟨?_, by simp⟩
    by_cases ram' : j < ramPages caller n
    · obtain ⟨f', at_j, _, holds', _⟩ := fits.present ram'
      rw [holds']
      rintro ⟨⟩ ⟨⟩
      exact different (taken_inj fits.mram.1 at_i at_j)
    · obtain ⟨_, _, _, _, absent⟩ := fits.swapped (Nat.not_lt.mp ram') inside'
      simp [absent]
  · obtain ⟨f, at_i, _, holds, absent⟩ := fits.swapped (Nat.not_lt.mp ram) inside
    rw [holds, absent]
    refine ⟨by simp, ?_⟩
    by_cases ram' : j < ramPages caller n
    · obtain ⟨_, _, _, _, unswapped⟩ := fits.present ram'
      simp [unswapped]
    · obtain ⟨f', at_j, _, holds', _⟩ := fits.swapped (Nat.not_lt.mp ram') inside'
      rw [holds']
      rintro ⟨⟩ ⟨⟩
      have same := taken_inj fits.activeMswp.1 at_i at_j
      omega

/-- Mapping a range is complete: with enough frames every page of it gets its own, first from the RAM and then from
the swap. -/
theorem RangeFits.mapsRange (fits : RangeFits caller mapstart n) : MapsRange caller mapstart n where
  status := by rw [vmMapRam_of_enough fits.enoughFrames]
  present := by
    intro i ram
    obtain ⟨fpn, _, taken, holds, unswapped⟩ := fits.present ram
    exact ⟨unswapped, fpn, taken, holds⟩
  swapped := by
    intro i swap inside
    obtain ⟨fpn, _, taken, holds, absent⟩ := fits.swapped swap inside
    exact ⟨absent, fpn, taken, holds⟩
  own := fun i inside j inside' different fpn => fits.own inside inside' different fpn
  others := by
    intro pgn outside
    by_cases none : n = 0
    · subst none
      exact vmMapRam_outside caller mapstart 0 (by simp; omega)
    · refine vmMapRam_outside caller mapstart n ?_
      rw [fits.first (Nat.pos_of_ne_zero none), Int.toNat_natCast]
      exact outside
  mram := by
    rw [vmMapRam_mram, ramPages, ← List.drop_eq_drop_min]
    rfl
  activeMswp := by
    have rest : n - ramPages caller n = n - caller.mram.freeFpList.length := by
      rw [ramPages]
      omega
    rw [vmMapRam_activeMswp, rest]
    rfl

theorem bootSystem_mapsRange : MapsRange ((bootSystem zeroBlock (fun _ => 0) 512 512).caller 0) 512 3 :=
  RangeFits.mapsRange ⟨by decide, by decide, by decide, by decide⟩

end OsSim.Paging
