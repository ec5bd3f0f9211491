import OsSim.Paging.Mapping
import OsSim.Paging.SwapFrames

namespace OsSim.Paging
open Transition

/-- An entry says that its page is in RAM or in the swap, and not both. -/
def Mapped (pte : BitVec 32) : Prop :=
  (pagingPagePresent pte = true ∧ pagingPageSwapped pte = false) ∨
    (pagingPageSwapped pte = true ∧ pagingPagePresent pte = false)

theorem mapped_pteSetFpn (pte : BitVec 32) (fpn : Nat) : Mapped (pteSetFpn pte fpn) :=
  .inl ⟨pagingPagePresent_pteSetFpn pte fpn, pagingPageSwapped_pteSetFpn pte fpn⟩

theorem mapped_pteSetSwap (pte : BitVec 32) (swptyp swpoff : Nat) : Mapped (pteSetSwap pte swptyp swpoff) :=
  .inr ⟨pagingPageSwapped_pteSetSwap pte swptyp swpoff, pagingPagePresent_pteSetSwap pte swptyp swpoff⟩

/-! ## Mapping the pages of an allocation -/

theorem vmMapRam_mapped (caller : Caller) (mapstart incpgnum : Int) (enough : enoughFrames caller incpgnum)
    {i : Nat} (from_first : pagingPgn (BitVec.ofInt 32 mapstart) ≤ i)
    (to_last : i < pagingPgn (BitVec.ofInt 32 mapstart) + incpgnum.toNat) :
    Mapped ((vmMapRam caller mapstart incpgnum).2.mm.pgd i) :=
  vmMapRam_written mapstart enough (fun fpn _ pte => mapped_pteSetFpn pte fpn)
    (fun fpn _ pte => mapped_pteSetSwap pte 0 fpn) from_first to_last

/-! ## The pages of an area -/

def MmStruct.PagesMapped (mm : MmStruct) : Prop :=
  ∀ pgn < mm.mmap.vmEnd / pagingPagesz, Mapped (mm.pgd pgn)

theorem alloc_pagesMapped {caller : Caller} {size : Nat} (aligned : caller.mm.mmap.Aligned)
    (within : movesBreak caller.mm (cint size) → caller.mm.mmap.sbrk + size ≤ 2 ^ pagingCpuBusWidth)
    (enough : enoughFrames caller (allocRequest caller.mm (cint size))) (mapped : caller.mm.PagesMapped)
    (rgid : Nat) : (alloc caller rgid (cint size)).2.2.mm.PagesMapped := by
  intro pgn below
  rw [(alloc_area aligned within rgid).2] at below
  rw [(alloc_samePaging caller rgid (cint size)).pgd]
  by_cases none : allocRequest caller.mm (cint size) = 0
  · rw [none] at below ⊢
    rw [vmMapRam_zero]
    exact mapped pgn below
  · obtain ⟨_, _, first, _⟩ := alloc_pages aligned within none
    by_cases old : pgn < caller.mm.mmap.vmEnd / pagingPagesz
    · rw [vmMapRam_outside _ _ _ (.inl (by omega))]
      exact mapped pgn old
    · exact vmMapRam_mapped caller _ _ enough (by omega) (by omega)

/-- A page fault maps the page and its victim, and writes no other entry. -/
theorem swapPage_mapped (caller : Caller) {pgn vicpgn : Nat} (g : Garbage) (different : pgn ≠ vicpgn)
    {i : Nat} (mapped : Mapped (caller.mm.pgd i)) : Mapped ((swapPage caller pgn vicpgn g).mm.pgd i) :=
  swapPage_entry caller g different (mapped_pteSetFpn _ _) (mapped_pteSetSwap _ _ _) mapped

structure System.Covered (s : System) : Prop where
  aligned : ∀ p, (s.procs p).mmap.Aligned
  mapped : ∀ p, (s.procs p).PagesMapped

theorem System.Boot.covered {s : System} (boot : s.Boot) : s.Covered := by
  refine ⟨boot.settled.aligned, fun p pgn below => ?_⟩
  obtain ⟨block, _, fresh⟩ := boot.procs p
  rw [fresh, show (initMm block).mmap.vmEnd = 0 from rfl, Nat.zero_div] at below
  exact absurd below (Nat.not_lt_zero pgn)

theorem System.Covered.exec {s : System} (covered : s.Covered) {l : Label} (within : s.WithinSpace l)
    (enough : s.Allocates l) : (s.exec l).Covered := by
  refine ⟨System.exec_aligned covered.aligned within, System.exec_procs MmStruct.PagesMapped covered.mapped ?_⟩
  have mapped : (s.caller l.p).mm.PagesMapped := covered.mapped l.p
  rcases l.call.alloc_or with ⟨size, regIndex, call⟩ | other
  · rw [System.Allocates, call] at enough
    rw [call]
    have aligned : (s.caller l.p).mm.mmap.Aligned := covered.aligned l.p
    exact alloc_pagesMapped aligned (within.bound call) enough mapped regIndex
  · have area := l.call.exec_sameArea (s.caller l.p) l.g other
    have pgd := (l.call.exec_samePaging (s.caller l.p) l.g).pgd
    intro i below
    rw [area.vmEnd] at below
    rw [pgd]
    rcases Call.paging_cases (s.caller l.p) l.g l.call with
      ⟨size, regIndex, call⟩ | ⟨_, still⟩ | ⟨pgn, vicpgn, _, fault, swaps⟩
    · exact absurd call (other size regIndex)
    · rw [still]
      exact mapped i below
    · rw [swaps]
      exact swapPage_mapped _ l.g (ne_of_faultVictim fault) (mapped i below)

/-- After any calls that stay below 4 MB and get their frames, the area of each process reaches from the break to
the end of its page, and each page of it is in RAM or in the swap. -/
theorem reachable_mapped {s : System}
    (reachable : Reach System.Step (fun s l => s.WithinSpace l ∧ s.Allocates l) System.Boot s) (p : Nat) :
    (s.procs p).mmap.sbrk ≤ (s.procs p).mmap.vmEnd ∧
      (s.procs p).mmap.vmEnd = ((s.procs p).mmap.sbrk + 255) / 256 * 256 ∧
      ∀ pgn < (s.procs p).mmap.vmEnd / pagingPagesz, Mapped ((s.procs p).pgd pgn) := by
  have covered : s.Covered := by
    refine reachable.invariant (fun s boot => boot.covered) ?_
    rintro s l s' covered ⟨within, enough⟩ rfl
    exact covered.exec within enough
  obtain ⟨limit, inside, below⟩ := covered.aligned p
  simp only [pagingCpuBusWidth] at below
  rw [pagingPageAlignsz_of_lt (by omega)] at limit
  exact ⟨inside, limit, covered.mapped p⟩

end OsSim.Paging
