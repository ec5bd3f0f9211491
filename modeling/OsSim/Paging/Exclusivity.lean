import OsSim.Paging.Bounds

namespace OsSim.Paging
open Custody Transition

/-! ## Exclusive frames through one call -/

section Call

variable {tables : Nat → Nat → BitVec 32} {p : Nat} {caller : Caller}

theorem update_takeBoth (table : tables p = caller.mm.pgd) (incpgnum : Int) :
    Function.update tables p (takeBoth caller incpgnum).mm.pgd = tables := by
  simp [takeBoth, ← table]

theorem ram_vmMapRam (table : tables p = caller.mm.pgd) (mapstart incpgnum : Int)
    (fits : ∀ fpn ∈ caller.mram.freeFpList.take incpgnum.toNat, fpn < 2 ^ 13)
    (own : Exclusive (held ramHolds tables) [] caller.mram.freeFpList) :
    Exclusive (held ramHolds (Function.update tables p (vmMapRam caller mapstart incpgnum).2.mm.pgd))
      [] (vmMapRam caller mapstart incpgnum).2.mram.freeFpList := by
  have taken := own.pops incpgnum.toNat
  rw [vmMapRam_mram, vmMapRam_eq]
  by_cases enough : enoughFrames caller incpgnum
  · rw [if_pos enough, vmapPageRange_mm]
    have assigns : ∀ fpn ∈ (caller.mram.freeFpList.take incpgnum.toNat).reverse, ∀ pte,
        ramHolds (pteSetFpn pte fpn) = some fpn :=
      fun fpn member pte => ramHolds_pteSetFpn pte (fits fpn (List.mem_reverse.mp member))
    have mapped := exclusive_vmapFrames (takeBoth caller incpgnum).mm
      (pagingPgn (BitVec.ofInt 32 mapstart)) 0 table assigns taken
    have drops : ∀ fpn pte, ramHolds (pteSetSwap pte 0 fpn) = none := by simp
    have rest := exclusive_vmapFrames_none _ (pagingPgn (BitVec.ofInt 32 mapstart))
      (caller.activeMswp.freeFpList.take (incpgnum.toNat - caller.mram.freeFpList.length)).reverse
      (caller.mram.freeFpList.take incpgnum.toNat).reverse.length
      (Function.update_self _ _ _) drops mapped
    rwa [Function.update_idem] at rest
  · rw [if_neg enough]
    rw [update_takeBoth table]
    exact taken.lose

theorem swap_vmMapRam (table : tables p = caller.mm.pgd) (mapstart incpgnum : Int)
    (fits : ∀ fpn ∈ caller.activeMswp.freeFpList, fpn < 2 ^ 21)
    (own : Exclusive (held swapHolds tables) [] caller.activeMswp.freeFpList) :
    Exclusive (held swapHolds (Function.update tables p (vmMapRam caller mapstart incpgnum).2.mm.pgd))
      [] (vmMapRam caller mapstart incpgnum).2.activeMswp.freeFpList := by
  have taken := own.pops (incpgnum.toNat - caller.mram.freeFpList.length)
  rw [vmMapRam_activeMswp, vmMapRam_eq]
  by_cases enough : enoughFrames caller incpgnum
  · rw [if_pos enough, vmapPageRange_mm]
    have drops : ∀ fpn pte, swapHolds (pteSetFpn pte fpn) = none := by simp
    have dropped := exclusive_vmapFrames_none (takeBoth caller incpgnum).mm
      (pagingPgn (BitVec.ofInt 32 mapstart)) (caller.mram.freeFpList.take incpgnum.toNat).reverse
      0 table drops taken
    have mapped := exclusive_vmapFrames _ (pagingPgn (BitVec.ofInt 32 mapstart))
      (caller.mram.freeFpList.take incpgnum.toNat).reverse.length
      (Function.update_self _ _ _) (swapHolds_taken fits _) dropped
    rwa [Function.update_idem] at mapped
  · rw [if_neg enough]
    rw [update_takeBoth table]
    exact taken.lose

theorem held_swapPage (h : BitVec 32 → Option Nat) (table : tables p = caller.mm.pgd)
    {pgn vicpgn : Nat} (g : Garbage) (different : pgn ≠ vicpgn) :
    held h (Function.update tables p (swapPage caller pgn vicpgn g).mm.pgd) =
      Function.update
        (Function.update (held h tables) (p, vicpgn)
          (h (pteSetSwap (caller.mm.pgd vicpgn) 0 (faultSwpfpn caller g))))
        (p, pgn) (h (pteSetFpn (caller.mm.pgd pgn) (pagingFpn (caller.mm.pgd vicpgn)))) := by
  rw [swapPage_pgd caller g different, ← table, ← held_update]
  have second := held_update h
    (Function.update tables p (Function.update (tables p) vicpgn
      (pteSetSwap (tables p vicpgn) 0 (faultSwpfpn caller g)))) p pgn
    (pteSetFpn (tables p pgn) (pagingFpn (tables p vicpgn)))
  rwa [Function.update_idem, Function.update_self] at second

/-- In RAM the page takes over the frame of the victim. -/
theorem ram_swapPage (table : tables p = caller.mm.pgd) {pgn vicpgn : Nat} (g : Garbage)
    (fault : faultVictim caller.mm pgn = some vicpgn)
    (own : Exclusive (held ramHolds tables) [] caller.mram.freeFpList) :
    Exclusive (held ramHolds (Function.update tables p (swapPage caller pgn vicpgn g).mm.pgd)) []
      (swapPage caller pgn vicpgn g).mram.freeFpList := by
  obtain ⟨absent, found⟩ := faultVictim_eq_some.mp fault
  have present := pagingPagePresent_of_findVictimPage found
  have holds : held ramHolds tables (p, vicpgn) = some (pagingFpn (caller.mm.pgd vicpgn)) := by
    rw [held, table, ramHolds_eq_some]
    exact ⟨present, rfl⟩
  have exchanged := (own.release holds).assign (p, pgn)
  rw [held_swapPage ramHolds table g (ne_of_faultVictim fault), ramHolds_pteSetSwap,
    ramHolds_pteSetFpn _ (pagingFpn_lt _), (swapPage_mram caller pgn vicpgn g).freeFpList]
  exact exchanged

/-- In the swap the victim takes a free frame, and the frame of the page is held no more. -/
theorem swap_swapPage (table : tables p = caller.mm.pgd) {pgn vicpgn : Nat} (g : Garbage)
    (fault : faultVictim caller.mm pgn = some vicpgn) {fpn : Nat} {rest : List Nat}
    (free : caller.activeMswp.freeFpList = fpn :: rest) (fits : fpn < 2 ^ 21)
    (own : Exclusive (held swapHolds tables) [] caller.activeMswp.freeFpList) :
    Exclusive (held swapHolds (Function.update tables p (swapPage caller pgn vicpgn g).mm.pgd)) []
      (swapPage caller pgn vicpgn g).activeMswp.freeFpList := by
  rw [free] at own
  have exchanged := (own.pop.assign (p, vicpgn)).drop (p, pgn)
  rw [held_swapPage swapHolds table g (ne_of_faultVictim fault), swapHolds_pteSetFpn,
    faultSwpfpn_of_free free g, swapHolds_pteSetSwap _ _ fits, swapPage_activeMswp, free]
  exact exchanged

end Call

/-! ## Exclusive frames in every reachable state -/

def System.paging (s : System) (l : Label) : Caller := l.call.paging (s.caller l.p) l.g

theorem System.tables_exec (s : System) (l : Label) :
    (s.exec l).tables = Function.update s.tables l.p (s.paging l).mm.pgd := by
  rw [System.exec, System.tables_put, (Call.exec_samePaging _ _ _).pgd]
  rfl

theorem System.mram_exec (s : System) (l : Label) : SameFrames (s.paging l).mram (s.exec l).mram :=
  (Call.exec_samePaging _ _ _).mram

theorem System.activeMswp_exec (s : System) (l : Label) :
    SameFrames (s.paging l).activeMswp (s.exec l).activeMswp :=
  (Call.exec_samePaging _ _ _).activeMswp

def System.handedOut (s : System) (l : Label) : List Nat :=
  match l.call with
  | .alloc size _ => s.mram.freeFpList.take (allocRequest (s.procs l.p) (cint size)).toNat
  | _ => []

/-- An allocation hands out RAM frames whose numbers fit in a page table entry. -/
def System.Representable (s : System) (l : Label) : Prop :=
  ∀ fpn ∈ s.handedOut l, fpn < 2 ^ 13

theorem System.paging_cases (s : System) (l : Label) :
    (∃ mapstart incpgnum : Int, s.paging l = (vmMapRam (s.caller l.p) mapstart incpgnum).2 ∧
      s.handedOut l = s.mram.freeFpList.take incpgnum.toNat) ∨
    (s.fault l = none ∧ s.paging l = s.caller l.p) ∨
    ∃ pgn vicpgn, s.fault l = some (pgn, vicpgn) ∧
      faultVictim (s.procs l.p) pgn = some vicpgn ∧
      s.paging l = swapPage (s.caller l.p) pgn vicpgn l.g := by
  obtain ⟨p, call, g⟩ := l
  rcases Call.paging_cases (s.caller p) g call with ⟨size, regIndex, rfl⟩ | quiet | fault
  · exact .inl ⟨_, _, rfl, rfl⟩
  · exact .inr (.inl quiet)
  · exact .inr (.inr fault)

theorem System.update_tables_of_quiet {s : System} {l : Label}
    (quiet : s.paging l = s.caller l.p) :
    Function.update s.tables l.p (s.paging l).mm.pgd = s.tables := by
  rw [quiet]
  exact Function.update_eq_self l.p s.tables

def System.RamExclusive (s : System) : Prop :=
  Exclusive (held ramHolds s.tables) [] s.mram.freeFpList

def System.SwapExclusive (s : System) : Prop :=
  Exclusive (held swapHolds s.tables) [] s.activeMswp.freeFpList

theorem System.RamExclusive.exec {s : System} (own : s.RamExclusive) (l : Label)
    (fits : ∀ fpn ∈ s.handedOut l, fpn < 2 ^ 13) : (s.exec l).RamExclusive := by
  rw [System.RamExclusive, System.tables_exec, (s.mram_exec l).freeFpList]
  rcases s.paging_cases l with
    ⟨mapstart, incpgnum, maps, out⟩ | ⟨_, quiet⟩ | ⟨pgn, vicpgn, _, fault, swaps⟩
  · rw [maps]
    exact ram_vmMapRam rfl mapstart incpgnum (out ▸ fits) own
  · rw [System.update_tables_of_quiet quiet, quiet]
    exact own
  · rw [swaps]
    exact ram_swapPage rfl l.g fault own

theorem System.SwapExclusive.exec {s : System} (own : s.SwapExclusive) (l : Label)
    (fits : ∀ fpn ∈ s.activeMswp.freeFpList, fpn < 2 ^ 21)
    (ready : s.fault l ≠ none → s.activeMswp.freeFpList ≠ []) : (s.exec l).SwapExclusive := by
  rw [System.SwapExclusive, System.tables_exec, (s.activeMswp_exec l).freeFpList]
  rcases s.paging_cases l with
    ⟨mapstart, incpgnum, maps, _⟩ | ⟨_, quiet⟩ | ⟨pgn, vicpgn, faults, fault, swaps⟩
  · rw [maps]
    exact swap_vmMapRam rfl mapstart incpgnum fits own
  · rw [System.update_tables_of_quiet quiet, quiet]
    exact own
  · obtain ⟨fpn, rest, free⟩ := List.exists_cons_of_ne_nil (ready (by simp [faults]))
    rw [swaps]
    exact swap_swapPage rfl l.g fault free (fits fpn (by simp [free])) own

theorem System.mram_suffix (s : System) (l : Label) :
    (s.exec l).mram.freeFpList <:+ s.mram.freeFpList := by
  rw [(s.mram_exec l).freeFpList]
  rcases s.paging_cases l with ⟨mapstart, incpgnum, maps, _⟩ | ⟨_, quiet⟩ | ⟨_, _, _, _, swaps⟩
  · rw [maps, vmMapRam_mram]
    exact List.drop_suffix _ _
  · rw [quiet]
    exact List.suffix_refl _
  · rw [swaps, (swapPage_mram _ _ _ _).freeFpList]
    exact List.suffix_refl _

theorem System.activeMswp_suffix (s : System) (l : Label) :
    (s.exec l).activeMswp.freeFpList <:+ s.activeMswp.freeFpList := by
  rw [(s.activeMswp_exec l).freeFpList]
  rcases s.paging_cases l with ⟨mapstart, incpgnum, maps, _⟩ | ⟨_, quiet⟩ | ⟨_, _, _, _, swaps⟩
  · rw [maps, vmMapRam_activeMswp]
    exact List.drop_suffix _ _
  · rw [quiet]
    exact List.suffix_refl _
  · rw [swaps, swapPage_activeMswp]
    exact List.tail_suffix _

theorem System.handedOut_subset (s : System) (l : Label) :
    s.handedOut l ⊆ s.mram.freeFpList := by
  unfold System.handedOut
  cases l.call <;> simp [List.take_subset]

/-! ### After boot -/

theorem System.Boot.held_eq_none {s : System} (boot : s.Boot) {h : BitVec 32 → Option Nat}
    (zero : h 0#32 = none) : held h s.tables = fun _ => none := by
  funext ⟨p, pgn⟩
  obtain ⟨block, zeroBlock, fresh⟩ := boot.procs p
  have entry : s.tables p pgn = 0#32 := by
    rw [System.tables, fresh]
    exact zeroBlock.pgd pgn
  rw [held, entry, zero]

theorem exclusive_of_unheld {free : List Nat} (nodup : free.Nodup) :
    Exclusive (fun _ : Nat × Nat => none) [] free :=
  ⟨by simp, by simp, by simpa using nodup⟩

theorem System.Boot.ramExclusive {s : System} (boot : s.Boot) : s.RamExclusive := by
  rw [System.RamExclusive, boot.held_eq_none (by decide)]
  exact exclusive_of_unheld boot.mram

theorem System.Boot.swapExclusive {s : System} (boot : s.Boot) : s.SwapExclusive := by
  rw [System.SwapExclusive, boot.held_eq_none (by decide)]
  exact exclusive_of_unheld boot.activeMswp

/-! ### Frame exclusivity -/

/-- The devices are small enough for page table entries to hold their frame numbers. -/
structure System.Addressable (s : System) : Prop where
  mram : ∀ fpn ∈ s.mram.freeFpList, fpn < 2 ^ 13
  activeMswp : ∀ fpn ∈ s.activeMswp.freeFpList, fpn < 2 ^ 21

theorem System.Addressable.exec {s : System} (fits : s.Addressable) (l : Label) :
    (s.exec l).Addressable :=
  ⟨fun fpn member => fits.mram fpn ((s.mram_suffix l).subset member),
    fun fpn member => fits.activeMswp fpn ((s.activeMswp_suffix l).subset member)⟩

/-- The swap has a free frame when the step serves a page fault. -/
def System.SwapReady (s : System) (l : Label) : Prop :=
  s.fault l ≠ none → s.activeMswp.freeFpList ≠ []

def System.entry (s : System) (page : Nat × Nat) : BitVec 32 := s.tables page.1 page.2

theorem System.entry_exec (s : System) (l : Label) (pgn : Nat) :
    (s.exec l).entry (l.p, pgn) = (s.paging l).mm.pgd pgn := by
  rw [System.entry, System.tables_exec, Function.update_self]

/-- No frame is held by two entries, or by an entry and the free list of its device. -/
structure System.FramesExclusive (s : System) : Prop where
  ram : ∀ page other, page ≠ other → pagingPagePresent (s.entry page) = true →
    pagingPagePresent (s.entry other) = true →
    pagingFpn (s.entry page) ≠ pagingFpn (s.entry other)
  swap : ∀ page other, page ≠ other → pagingPageSwapped (s.entry page) = true →
    pagingPageSwapped (s.entry other) = true →
    pagingSwp (s.entry page) ≠ pagingSwp (s.entry other)
  ramFree : ∀ page, pagingPagePresent (s.entry page) = true →
    pagingFpn (s.entry page) ∉ s.mram.freeFpList
  swapFree : ∀ page, pagingPageSwapped (s.entry page) = true →
    pagingSwp (s.entry page) ∉ s.activeMswp.freeFpList

theorem System.framesExclusive_of_exclusive {s : System} (ram : s.RamExclusive)
    (swap : s.SwapExclusive) : s.FramesExclusive := by
  have ramHeld : ∀ page, pagingPagePresent (s.entry page) = true →
      held ramHolds s.tables page = some (pagingFpn (s.entry page)) :=
    fun page present => ramHolds_eq_some.mpr ⟨present, rfl⟩
  have swapHeld : ∀ page, pagingPageSwapped (s.entry page) = true →
      held swapHolds s.tables page = some (pagingSwp (s.entry page)) :=
    fun page swapped => swapHolds_eq_some.mpr ⟨swapped, rfl⟩
  refine ⟨?_, ?_, ?_, ?_⟩
  · intro page other different present present' same
    exact different (ram.injective page other _ (ramHeld page present)
      (same ▸ ramHeld other present'))
  · intro page other different swapped swapped' same
    exact different (swap.injective page other _ (swapHeld page swapped)
      (same ▸ swapHeld other swapped'))
  · exact fun page present => ram.outside page _ (ramHeld page present)
  · exact fun page swapped => swap.outside page _ (swapHeld page swapped)

theorem bootSystem_addressable {memramsz memswpsz : Nat} (ram : memramsz / pagingPagesz ≤ 2 ^ 13)
    (swap : memswpsz / pagingPagesz ≤ 2 ^ 21) (block : MmStruct) (storage : Nat → Byte) :
    (bootSystem block storage memramsz memswpsz).Addressable :=
  ⟨fun _ member => Nat.lt_of_lt_of_le (List.mem_range.mp member) ram,
    fun _ member => Nat.lt_of_lt_of_le (List.mem_range.mp member) swap⟩

theorem reachable_exclusive {s : System}
    (reachable : Reach System.Step System.SwapReady (fun s => s.Boot ∧ s.Addressable) s) :
    s.RamExclusive ∧ s.SwapExclusive ∧ s.Addressable := by
  induction reachable with
  | start first => exact ⟨first.1.ramExclusive, first.1.swapExclusive, first.2⟩
  | @step s s' l _ ready taken ih =>
      obtain ⟨ram, swap, fits⟩ := ih
      rw [taken]
      exact ⟨ram.exec l fun fpn member => fits.mram fpn (s.handedOut_subset l member),
        swap.exec l fits.activeMswp ready, fits.exec l⟩

theorem reachable_framesExclusive {s : System}
    (reachable : Reach System.Step System.SwapReady (fun s => s.Boot ∧ s.Addressable) s) :
    s.FramesExclusive :=
  have exclusive := reachable_exclusive reachable
  System.framesExclusive_of_exclusive exclusive.1 exclusive.2.1

def tinyBoot : System := bootSystem zeroBlock (fun _ => 0) 512 512

/-- A process has allocated three pages, so that the third is in the swap. -/
def tinySystem : System := tinyBoot.exec ⟨0, .alloc 768 0, noGarbage⟩

end OsSim.Paging
