import OsSim.Paging.Exclusivity

namespace OsSim.Paging
open Transition

/-- What `MEMPHY_dump` prints: for each node of the used list its frame number and the bytes of the frame. -/
def memphyDump (mp : Memphy) : List (Nat × List Byte) :=
  mp.usedFpList.map fun fpn =>
    (fpn, (List.range pagingPagesz).map fun off => mp.storage (fpn * pagingPagesz + off))

/-- The free and the used list together hold each frame number of the device once. -/
def Memphy.Partitioned (mp : Memphy) : Prop :=
  (mp.freeFpList ++ mp.usedFpList).Perm (List.range (mp.maxsz / pagingPagesz))

theorem initMemphy_partitioned (storage : Nat → Byte) (maxSize : Nat) (randomflg : Bool) :
    (initMemphy storage maxSize randomflg).Partitioned := by
  simp [Memphy.Partitioned, initMemphy, memphyFormat]

theorem takeFrames_partitioned {mp : Memphy} (parts : mp.Partitioned) (n : Nat) :
    (takeFrames mp n).Partitioned := by
  have moved : (mp.freeFpList.drop n ++ ((mp.freeFpList.take n).reverse ++ mp.usedFpList)).Perm
      (mp.freeFpList ++ mp.usedFpList) := by
    rw [← List.append_assoc]
    apply List.Perm.append_right
    have front := (List.reverse_perm (mp.freeFpList.take n)).append_right (mp.freeFpList.drop n)
    rw [List.take_append_drop] at front
    exact List.perm_append_comm.trans front
  exact moved.trans parts

theorem SameFrames.partitioned {mp mp' : Memphy} (same : SameFrames mp mp') (parts : mp.Partitioned) :
    mp'.Partitioned := by
  rw [Memphy.Partitioned, same.freeFpList, same.usedFpList, same.maxsz]
  exact parts

/-- No call takes a RAM frame from the free list without recording it, and none gives one back. -/
theorem System.mram_partitioned {s : System} (parts : s.mram.Partitioned) (l : Label) :
    (s.exec l).mram.Partitioned := by
  apply (s.mram_exec l).partitioned
  rcases s.paging_cases l with ⟨mapstart, incpgnum, maps, _⟩ | ⟨_, quiet⟩ | ⟨_, _, _, _, swaps⟩
  · rw [maps, vmMapRam_mram]
    exact takeFrames_partitioned parts _
  · rw [quiet]
    exact parts
  · rw [swaps]
    exact (swapPage_mram _ _ _ _).partitioned parts

theorem System.mram_maxsz (s : System) (l : Label) : (s.exec l).mram.maxsz = s.mram.maxsz := by
  rw [(s.mram_exec l).maxsz]
  rcases s.paging_cases l with ⟨mapstart, incpgnum, maps, _⟩ | ⟨_, quiet⟩ | ⟨_, _, _, _, swaps⟩
  · rw [maps, vmMapRam_mram]
    rfl
  · rw [quiet]
    rfl
  · rw [swaps]
    exact (swapPage_mram _ _ _ _).maxsz

/-- Each frame that is handed out is printed once, and no other one. -/
theorem Memphy.Partitioned.dump {mp : Memphy} (parts : mp.Partitioned) (fpn : Nat) :
    ((memphyDump mp).map Prod.fst).count fpn =
      if fpn < mp.maxsz / pagingPagesz ∧ fpn ∉ mp.freeFpList then 1 else 0 := by
  have printed : (memphyDump mp).map Prod.fst = mp.usedFpList := by
    simp [memphyDump, List.map_map, Function.comp_def]
  have nodup : (mp.freeFpList ++ mp.usedFpList).Nodup := parts.nodup_iff.mpr List.nodup_range
  have total := parts.count_eq fpn
  rw [List.count_append] at total
  rw [printed]
  split
  · next out =>
    have unfree : mp.freeFpList.count fpn = 0 := List.count_eq_zero_of_not_mem out.2
    have once : (List.range (mp.maxsz / pagingPagesz)).count fpn = 1 :=
      List.count_eq_one_of_mem List.nodup_range (List.mem_range.mpr out.1)
    omega
  · next stays =>
    rw [List.count_eq_zero]
    intro used
    refine stays ⟨?_, fun free => (List.nodup_append.mp nodup).2.2 fpn free fpn used rfl⟩
    exact List.mem_range.mp (parts.subset (List.mem_append_right _ used))

/-- RAM with at least two frames, as `initMemphy` sets it up. -/
structure System.RamBoot (maxsz : Nat) (s : System) : Prop where
  mram : ∃ storage randomflg, s.mram = initMemphy storage maxsz randomflg
  frames : 2 ≤ maxsz / pagingPagesz

structure System.Booked (maxsz : Nat) (s : System) : Prop where
  parts : s.mram.Partitioned
  maxsz : s.mram.maxsz = maxsz

/-- After any calls, each RAM frame is once on the free or on the used list, and the dump shows those handed out. -/
theorem reachable_bookkeeping {ok : System → Label → Prop} {maxsz : Nat} {s : System}
    (reachable : Reach System.Step ok (System.RamBoot maxsz) s) :
    (s.mram.freeFpList ++ s.mram.usedFpList).Perm (List.range (maxsz / pagingPagesz)) ∧
      ∀ fpn, ((memphyDump s.mram).map Prod.fst).count fpn =
        if fpn < maxsz / pagingPagesz ∧ fpn ∉ s.mram.freeFpList then 1 else 0 := by
  have booked : s.Booked maxsz := by
    refine reachable.invariant ?_ ?_
    · intro s start
      obtain ⟨storage, randomflg, mram⟩ := start.mram
      exact ⟨mram ▸ initMemphy_partitioned storage maxsz randomflg, by rw [mram]; rfl⟩
    · rintro s l s' booked _ rfl
      exact ⟨System.mram_partitioned booked.parts l, (s.mram_maxsz l).trans booked.maxsz⟩
  obtain ⟨parts, rfl⟩ := booked
  exact ⟨parts, parts.dump⟩

end OsSim.Paging
