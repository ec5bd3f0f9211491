import OsSim.Paging.Contents
import OsSim.Paging.Mapped

namespace OsSim.Paging
open Transition

-- no proof here unfolds the copy of 256 bytes
attribute [local irreducible] swapCpPage

/-! ## A fault that finds a free swap frame -/

/-- What a call of `pgGetpage` does that exchanges the page with the victim. -/
structure System.Exchanged (s s' : System) (p pgn vicpgn : Nat) : Prop where
  present : pagingPagePresent (s'.entry (p, pgn)) = true
  absent : pagingPagePresent (s'.entry (p, vicpgn)) = false
  swapped : pagingPageSwapped (s'.entry (p, vicpgn)) = true
  bytes : ∀ page, ∀ off < pagingPagesz, s'.byteAt page off = s.byteAt page off
  others : ∀ page, page ≠ (p, pgn) → page ≠ (p, vicpgn) → s'.entry page = s.entry page

theorem System.FramesExclusive.kept {s : System} (own : s.FramesExclusive) (page : Nat × Nat) : s.Kept page := by
  intro _ fpn holds
  obtain ⟨swapped, number⟩ := swapHolds_eq_some.mp holds
  rw [← number]
  exact own.swapFree page swapped

theorem System.FramesExclusive.ram_injective {s : System} (own : s.FramesExclusive) (page other : Nat × Nat)
    (fpn : Nat) (holds : ramHolds (s.entry page) = some fpn) (holds' : ramHolds (s.entry other) = some fpn) :
    page = other := by
  by_contra different
  obtain ⟨present, number⟩ := ramHolds_eq_some.mp holds
  obtain ⟨present', number'⟩ := ramHolds_eq_some.mp holds'
  exact own.ram page other different present present' (number.trans number'.symm)

theorem System.byteAt_congr {s s' : System} {page : Nat × Nat} (entry : s'.entry page = s.entry page) (off : Nat)
    (unmapped : s.byteAt page off = none) : s'.byteAt page off = none := by
  rw [System.byteAt] at unmapped ⊢
  rw [entry]
  cases ram : ramHolds (s.entry page) with
  | some fpn => simp [ram] at unmapped
  | none =>
      cases swap : swapHolds (s.entry page) with
      | some fpn => simp [ram, swap] at unmapped
      | none => rfl

/-- A page fault leaves the contents of every page of every process as they were. -/
theorem getpage_exchanged {s : System} (own : s.FramesExclusive) (fits : s.Addressable) (random : s.Random)
    {p pgn vicpgn : Nat} (absent : pagingPagePresent (s.entry (p, pgn)) = false)
    (swapped : pagingPageSwapped (s.entry (p, pgn)) = true) (free : s.activeMswp.freeFpList ≠ [])
    (found : findVictimPage (s.procs p) = some vicpgn) (g : Garbage) :
    ∃ fpn caller, pgGetpage (s.caller p) pgn g = some (fpn, caller) ∧
      s.Exchanged (s.put p caller) p pgn vicpgn := by
  have fault : faultVictim (s.procs p) pgn = some vicpgn := faultVictim_eq_some.mpr ⟨absent, found⟩
  have different := ne_of_faultVictim fault
  have served : ¬ unservable (s.caller p).mm pgn := by
    rintro ⟨_, none⟩
    cases found.symm.trans none
  refine ⟨_, afterGetpage (s.caller p) pgn g, by rw [pgGetpage_eq, if_neg served], ?_⟩
  have target := System.entry_bring (g := g) fault (p, pgn)
  rw [if_pos rfl] at target
  have victim := System.entry_bring (g := g) fault (p, vicpgn)
  rw [if_neg (by simpa using different.symm), if_pos rfl] at victim
  have others : ∀ page, page ≠ (p, pgn) → page ≠ (p, vicpgn) →
      (s.bring p pgn g).entry page = s.entry page := by
    intro page notTarget notVictim
    rw [System.entry_bring fault, if_neg notTarget, if_neg notVictim]
  have ready : s.Ready p pgn := by
    intro _ _
    obtain ⟨fpn, rest, list⟩ := List.exists_cons_of_ne_nil free
    exact ⟨fpn, rest, list, fits.activeMswp fpn (by simp [list])⟩
  refine ⟨?_, ?_, ?_, ?_, others⟩
  · exact target ▸ pagingPagePresent_pteSetFpn _ _
  · exact victim ▸ pagingPagePresent_pteSetSwap _ _ _
  · exact victim ▸ pagingPageSwapped_pteSetSwap _ _ _
  · intro page off inside
    cases before : s.byteAt page off with
    | some value => exact System.byteAt_bring own.ram_injective random ready (own.kept page) inside before
    | none =>
        -- an unmapped page is neither the target, which is in the swap, nor the victim, which is in RAM
        apply System.byteAt_congr (others page ?_ ?_) off before
        · rintro rfl
          have out : ramHolds (s.entry (p, pgn)) = none := by simp [ramHolds, absent]
          have inSwap := swapHolds_eq_some.mpr ⟨swapped, rfl⟩
          cases (System.byteAt_of_swap out inSwap off).symm.trans before
        · rintro rfl
          have home : ramHolds (s.entry (p, vicpgn)) = some (pagingFpn (s.entry (p, vicpgn))) :=
            ramHolds_eq_some.mpr ⟨pagingPagePresent_of_findVictimPage found, rfl⟩
          cases (System.byteAt_of_ram home off).symm.trans before

/-- The third page of a process comes in from the swap, and its second page goes there. -/
theorem tinySystem_exchanged :
    ∃ fpn caller, pgGetpage (tinySystem.caller 0) 2 noGarbage = some (fpn, caller) ∧
      tinySystem.Exchanged (tinySystem.put 0 caller) 0 2 1 := by
  have reachable : Reach System.Step System.SwapReady (fun s => s.Boot ∧ s.Addressable) tinySystem :=
    .step (l := ⟨0, .alloc 768 0, noGarbage⟩) (.start ⟨bootSystem_boot zeroBlock_zero _ _ _,
      bootSystem_addressable (by decide) (by decide) _ _⟩) (fun fault => absurd rfl fault) rfl
  have own := reachable_framesExclusive reachable
  have fits := (reachable_exclusive reachable).2.2
  exact getpage_exchanged own fits ⟨rfl, rfl⟩ (by decide) (by decide) (by decide) (by decide) noGarbage

/-! ## A fault that finds the swap full -/

def System.FailsCleanly (s : System) (p pgn : Nat) (g : Garbage) : Prop :=
  pgGetpage (s.caller p) pgn g = none ∧ s.bring p pgn g = s

/-- The status of `memphyGetFreefp` is not looked at: only a process without victim stops the call. -/
theorem System.failsCleanly_iff {s : System} {p pgn : Nat}
    (absent : pagingPagePresent (s.entry (p, pgn)) = false) (g : Garbage) :
    s.FailsCleanly p pgn g ↔ findVictimPage (s.procs p) = none := by
  constructor
  · rintro ⟨failed, _⟩
    rw [pgGetpage_eq] at failed
    by_contra found
    have served : ¬ unservable (s.caller p).mm pgn := fun stuck => found stuck.2
    rw [if_neg served] at failed
    cases failed
  · intro none
    have stuck : unservable (s.procs p) pgn := ⟨absent, none⟩
    have stuck' : unservable (s.caller p).mm pgn := stuck
    refine ⟨?_, System.bring_of_unservable stuck g⟩
    rw [pgGetpage_eq, if_pos stuck']

/-! ### What a step writes to the swap -/

/-- The swap frames that a step writes, to an entry or with the bytes of a page, are those that it takes from the
free list. -/
structure System.TakesFrames (s s' : System) : Prop where
  entries : ∀ page fpn, swapHolds (s'.entry page) = some fpn → swapHolds (s.entry page) = some fpn ∨
    (fpn ∈ s.activeMswp.freeFpList ∧ fpn ∉ s'.activeMswp.freeFpList)
  copies : ∀ fpn, ∀ off < pagingPagesz, s'.activeMswp.storage (fpn * pagingPagesz + off) ≠
      s.activeMswp.storage (fpn * pagingPagesz + off) →
    fpn ∈ s.activeMswp.freeFpList ∧ fpn ∉ s'.activeMswp.freeFpList

/-- The numbers of the swap frames that the step takes fit in a page table entry. -/
def System.SwapRepresentable (s : System) (l : Label) : Prop :=
  ∀ fpn ∈ s.activeMswp.freeFpList, fpn ∉ (s.exec l).activeMswp.freeFpList → fpn < 2 ^ 21

theorem alloc_swapStorage (caller : Caller) (rgid : Nat) (size : Int) :
    (alloc caller rgid size).2.2.activeMswp.storage = caller.activeMswp.storage := by
  rw [alloc]
  dsimp only
  split
  · rfl
  · dsimp only
    split
    · rw [incVmaLimit_snd, vmMapRam_activeMswp]
      rfl
    · rfl

theorem pgSetval_activeMswp (caller : Caller) (addr : BitVec 32) (value : Byte) (g : Garbage) :
    ((pgSetval caller addr value g).getD caller).activeMswp =
      (afterGetpage caller (pagingPgn addr) g).activeMswp := by
  rw [pgSetval_eq]
  by_cases stuck : unservable caller.mm (pagingPgn addr)
  · rw [if_pos stuck, Option.getD_none, afterGetpage_of_unservable stuck]
  · rw [if_neg stuck, Option.getD_some]

theorem Call.exec_swapStorage (caller : Caller) (g : Garbage) (call : Call) :
    (call.exec caller g).activeMswp.storage = (call.paging caller g).activeMswp.storage := by
  rcases call.access_or with access | ⟨size, regIndex, rfl⟩ | ⟨regIndex, rfl⟩
  · rcases Call.exec_access caller g access with brought | ⟨addr, value, aimed, stored⟩
    · rw [brought]
    · rw [stored, Call.paging_of_target aimed, pgSetval_activeMswp]
  · rw [Call.paging, vmMapRam_activeMswp]
    exact alloc_swapStorage caller regIndex (cint size)
  · rw [Call.exec, pgfreeData, Paging.free]
    split <;> rfl

theorem swapHolds_vmMapRam (caller : Caller) (mapstart incpgnum : Int) {i fpn : Nat}
    (fits : ∀ fpn ∈ caller.activeMswp.freeFpList.take (incpgnum.toNat - caller.mram.freeFpList.length),
      fpn < 2 ^ 21)
    (holds : swapHolds ((vmMapRam caller mapstart incpgnum).2.mm.pgd i) = some fpn) :
    swapHolds (caller.mm.pgd i) = some fpn ∨
      fpn ∈ caller.activeMswp.freeFpList.take (incpgnum.toNat - caller.mram.freeFpList.length) := by
  refine vmMapRam_entry (P := fun pte => swapHolds pte = some fpn → _) mapstart ?_ ?_ .inl holds
  · intro taken _ pte holds
    rw [swapHolds_pteSetFpn] at holds
    cases holds
  · intro taken member pte holds
    have member' := List.mem_reverse.mp member
    rw [swapHolds_pteSetSwap _ _ (fits taken member'), Option.some.injEq] at holds
    exact .inr (holds ▸ member')

theorem mem_take_iff {free : List Nat} (nodup : free.Nodup) (n fpn : Nat) :
    fpn ∈ free.take n ↔ fpn ∈ free ∧ fpn ∉ free.drop n := by
  have disjoint := List.disjoint_take_drop nodup (Nat.le_refl n)
  constructor
  · exact fun taken => ⟨List.mem_of_mem_take taken, fun stays => disjoint taken stays⟩
  · rintro ⟨member, gone⟩
    rw [← List.take_append_drop n free, List.mem_append] at member
    exact member.resolve_right gone

theorem swapPage_swapOutside (caller : Caller) (pgn vicpgn : Nat) (g : Garbage) {fpn off : Nat}
    (other : fpn ≠ faultSwpfpn caller g) (inside : off < pagingPagesz) :
    (swapPage caller pgn vicpgn g).activeMswp.storage (fpn * pagingPagesz + off) =
      caller.activeMswp.storage (fpn * pagingPagesz + off) := by
  have copied := swapCpPage_outside caller.mram (pagingFpn (caller.mm.pgd vicpgn))
    ((memphyGetFreefp caller.activeMswp).getD (g.swpfpn, caller.activeMswp)).2 g.data other inside
  rw [(faultSwap_sameFrames caller g).1] at copied
  simpa only [swapPage, swapCpPage_fst, faultSwpfpn] using copied

theorem System.entry_exec_of_fault {s : System} {l : Label} {pgn vicpgn : Nat}
    (fault : faultVictim (s.procs l.p) pgn = some vicpgn)
    (swaps : s.paging l = swapPage (s.caller l.p) pgn vicpgn l.g) (page : Nat × Nat) :
    (s.exec l).entry page = (s.bring l.p pgn l.g).entry page := by
  rw [System.entry, System.tables_exec, swaps, System.bring_of_fault fault, System.entry, System.tables_put]

theorem System.takesFrames_exec {s : System} {l : Label} (nodup : s.activeMswp.freeFpList.Nodup)
    (ready : s.SwapReady l) (fits : s.SwapRepresentable l) : s.TakesFrames (s.exec l) := by
  have storage : (s.exec l).activeMswp.storage = (s.paging l).activeMswp.storage :=
    Call.exec_swapStorage (s.caller l.p) l.g l.call
  have list := (s.activeMswp_exec l).freeFpList
  have entries : ∀ page, (s.exec l).entry page =
      (Function.update s.tables l.p (s.paging l).mm.pgd) page.1 page.2 :=
    fun page => by rw [System.entry, System.tables_exec]
  rcases s.paging_cases l with
    ⟨mapstart, incpgnum, maps, _⟩ | ⟨_, quiet⟩ | ⟨pgn, vicpgn, faults, fault, swaps⟩
  · rw [maps] at storage list entries
    rw [vmMapRam_activeMswp] at storage list
    have taken : ∀ fpn, fpn ∈ s.activeMswp.freeFpList.take (incpgnum.toNat - s.mram.freeFpList.length) ↔
        fpn ∈ s.activeMswp.freeFpList ∧ fpn ∉ (s.exec l).activeMswp.freeFpList := by
      intro fpn
      rw [list]
      exact mem_take_iff nodup _ fpn
    refine ⟨?_, ?_⟩
    · intro page fpn holds
      rw [entries] at holds
      by_cases mine : page.1 = l.p
      · rw [mine, Function.update_self] at holds
        have fits' : ∀ fpn ∈ s.activeMswp.freeFpList.take (incpgnum.toNat - s.mram.freeFpList.length),
            fpn < 2 ^ 21 :=
          fun fpn new => fits fpn ((taken fpn).mp new).1 ((taken fpn).mp new).2
        rcases swapHolds_vmMapRam (s.caller l.p) mapstart incpgnum fits' holds with old | new
        · exact .inl (by rw [System.entry, mine]; exact old)
        · exact .inr ((taken fpn).mp new)
      · rw [Function.update_of_ne mine] at holds
        exact .inl holds
    · intro fpn off _ changed
      rw [storage] at changed
      exact absurd rfl changed
  · rw [System.update_tables_of_quiet quiet] at entries
    rw [quiet] at storage
    refine ⟨?_, ?_⟩
    · intro page fpn holds
      rw [entries] at holds
      exact .inl holds
    · intro fpn off _ changed
      rw [storage] at changed
      exact absurd rfl changed
  · obtain ⟨fpn, rest, free⟩ := List.exists_cons_of_ne_nil (ready (by simp [faults]))
    have swpfpn : faultSwpfpn (s.caller l.p) l.g = fpn := faultSwpfpn_of_free free l.g
    rw [swaps] at storage list
    rw [swapPage_activeMswp] at list
    have left : (s.exec l).activeMswp.freeFpList = rest := by
      rw [list]
      exact congrArg List.tail free
    have took : fpn ∈ s.activeMswp.freeFpList ∧ fpn ∉ (s.exec l).activeMswp.freeFpList := by
      rw [free] at nodup
      rw [left, free]
      exact ⟨by simp, (List.nodup_cons.mp nodup).1⟩
    have brought := System.entry_exec_of_fault fault swaps
    refine ⟨?_, ?_⟩
    · intro page holder holds
      rw [brought, System.entry_bring fault] at holds
      by_cases target : page = (l.p, pgn)
      · rw [if_pos target, swapHolds_pteSetFpn] at holds
        cases holds
      · rw [if_neg target] at holds
        by_cases victim : page = (l.p, vicpgn)
        · rw [if_pos victim, swpfpn, swapHolds_pteSetSwap _ _ (fits fpn took.1 took.2),
            Option.some.injEq] at holds
          exact .inr (holds ▸ took)
        · rw [if_neg victim] at holds
          exact .inl holds
    · intro written off inside changed
      rw [storage] at changed
      by_cases same : written = fpn
      · exact same ▸ took
      · rw [← swpfpn] at same
        exact absurd (swapPage_swapOutside (s.caller l.p) pgn vicpgn l.g same inside) changed

def System.Unmixed (s : System) : Prop :=
  ∀ page, pagingPagePresent (s.entry page) = true → pagingPageSwapped (s.entry page) = false

theorem Mapped.unmixed {pte : BitVec 32} (mapped : Mapped pte) (present : pagingPagePresent pte = true) :
    pagingPageSwapped pte = false := by
  rcases mapped with ⟨_, unswapped⟩ | ⟨_, absent⟩
  · exact unswapped
  · rw [present] at absent
    cases absent

theorem vmMapRam_pgd (caller : Caller) (mapstart incpgnum : Int) (i : Nat) :
    (vmMapRam caller mapstart incpgnum).2.mm.pgd i = caller.mm.pgd i ∨
      Mapped ((vmMapRam caller mapstart incpgnum).2.mm.pgd i) := by
  by_cases enough : enoughFrames caller incpgnum
  · by_cases inside : pagingPgn (BitVec.ofInt 32 mapstart) ≤ i ∧
        i < pagingPgn (BitVec.ofInt 32 mapstart) + incpgnum.toNat
    · exact .inr (vmMapRam_mapped caller mapstart incpgnum enough inside.1 inside.2)
    · exact .inl (vmMapRam_outside caller mapstart incpgnum (by omega))
  · rw [vmMapRam_eq, if_neg enough]
    exact .inl rfl

theorem System.Unmixed.exec {s : System} (unmixed : s.Unmixed) (l : Label) : (s.exec l).Unmixed := by
  have written : ∀ i, (s.paging l).mm.pgd i = s.entry (l.p, i) ∨ Mapped ((s.paging l).mm.pgd i) := by
    intro i
    rcases s.paging_cases l with ⟨mapstart, incpgnum, maps, _⟩ | ⟨_, quiet⟩ | ⟨pgn, vicpgn, _, fault, swaps⟩
    · rw [maps]
      exact vmMapRam_pgd (s.caller l.p) mapstart incpgnum i
    · rw [quiet]
      exact .inl rfl
    · rw [swaps, swapPage_pgd _ l.g (ne_of_faultVictim fault)]
      by_cases target : i = pgn
      · subst target
        rw [Function.update_self]
        exact .inr (mapped_pteSetFpn _ _)
      · rw [Function.update_of_ne target]
        by_cases victim : i = vicpgn
        · subst victim
          rw [Function.update_self]
          exact .inr (mapped_pteSetSwap _ _ _)
        · rw [Function.update_of_ne victim]
          exact .inl rfl
  rintro ⟨p, i⟩ present
  rw [System.entry, System.tables_exec] at present ⊢
  by_cases mine : p = l.p
  · subst mine
    simp only [Function.update_self] at present ⊢
    rcases written i with same | mapped
    · rw [same] at present ⊢
      exact unmixed _ present
    · exact mapped.unmixed present
  · simp only [Function.update_of_ne mine] at present ⊢
    exact unmixed (p, i) present

/-- With no free frame the victim goes to a frame that nobody handed out. -/
theorem System.takesFrames_iff {s : System} {l : Label} (nodup : s.activeMswp.freeFpList.Nodup)
    (unmixed : s.Unmixed) (fits : s.SwapRepresentable l) : s.TakesFrames (s.exec l) ↔ s.SwapReady l := by
  constructor
  · intro takes faults empty
    rcases Call.paging_cases (s.caller l.p) l.g l.call with
      ⟨size, regIndex, call⟩ | ⟨still, _⟩ | ⟨pgn, vicpgn, _, fault, swaps⟩
    · rw [System.fault, call] at faults
      exact faults rfl
    · exact faults still
    · have entry := System.entry_exec_of_fault fault swaps (l.p, vicpgn)
      rw [System.entry_bring fault, if_neg (by simpa using (ne_of_faultVictim fault).symm), if_pos rfl] at entry
      have swapped : pagingPageSwapped ((s.exec l).entry (l.p, vicpgn)) = true :=
        entry ▸ pagingPageSwapped_pteSetSwap _ _ _
      have present := pagingPagePresent_of_findVictimPage (faultVictim_eq_some.mp fault).2
      rcases takes.entries (l.p, vicpgn) _ (swapHolds_eq_some.mpr ⟨swapped, rfl⟩) with old | ⟨new, _⟩
      · have unswapped := unmixed (l.p, vicpgn) present
        rw [(swapHolds_eq_some.mp old).1] at unswapped
        cases unswapped
      · rw [empty] at new
        cases new
  · exact fun ready => System.takesFrames_exec nodup ready fits

/-! ### Runs -/

/-- The state after boot, with the frames `univ` on the free list of the swap. -/
structure System.SwapBoot (univ : List Nat) (s : System) : Prop where
  boot : s.Boot
  free : s.activeMswp.freeFpList = univ

/-- Each swapped page is in a frame that was on the free list and is not any more. -/
structure System.SwapTaken (univ : List Nat) (s : System) : Prop where
  nodup : s.activeMswp.freeFpList.Nodup
  free : s.activeMswp.freeFpList ⊆ univ
  unmixed : s.Unmixed
  entries : ∀ page fpn, swapHolds (s.entry page) = some fpn →
    fpn ∈ univ ∧ fpn ∉ s.activeMswp.freeFpList

theorem System.SwapBoot.swapTaken {univ : List Nat} {s : System} (start : s.SwapBoot univ) : s.SwapTaken univ := by
  refine ⟨start.boot.activeMswp, by rw [start.free]; exact List.Subset.refl univ, ?_, ?_⟩
  · intro page present
    have unheld : held ramHolds s.tables page = none := by rw [start.boot.held_eq_none (by decide)]
    cases (ramHolds_eq_some.mpr ⟨present, rfl⟩).symm.trans unheld
  intro page fpn holds
  have unheld : held swapHolds s.tables page = none := by rw [start.boot.held_eq_none (by decide)]
  cases holds.symm.trans unheld

theorem System.SwapTaken.exec {univ : List Nat} {s : System} (taken : s.SwapTaken univ) {l : Label}
    (ready : s.SwapReady l) (fits : s.SwapRepresentable l) : (s.exec l).SwapTaken univ := by
  obtain ⟨nodup, free, unmixed, entries⟩ := taken
  have shrinks := s.activeMswp_suffix l
  refine ⟨nodup.sublist shrinks.sublist, fun fpn member => free (shrinks.subset member), unmixed.exec l, ?_⟩
  intro page fpn holds
  rcases (System.takesFrames_exec nodup ready fits).entries page fpn holds with old | new
  · obtain ⟨inside, gone⟩ := entries page fpn old
    exact ⟨inside, fun member => gone (shrinks.subset member)⟩
  · exact ⟨free new.1, new.2⟩

theorem reachable_swapTaken {univ : List Nat} {s : System}
    (reachable : Reach System.Step (fun s l => s.InMemory l ∧ s.SwapReady l ∧ s.SwapRepresentable l)
      (System.SwapBoot univ) s) :
    s.SwapTaken univ := by
  refine reachable.invariant (fun s start => start.swapTaken) ?_
  rintro s l s' taken ⟨_, ready, fits⟩ rfl
  exact taken.exec ready fits

/-- With a full swap, bringing in a page that is not present fails cleanly exactly if the process has no victim. In
runs in which no other fault meets a full swap, the swapped pages are in frames that were handed out. -/
theorem fullSwap_iff (s : System) (univ : List Nat) :
    (∀ p pgn g, s.activeMswp.freeFpList = [] → pagingPagePresent (s.entry (p, pgn)) = false →
      (s.FailsCleanly p pgn g ↔ findVictimPage (s.procs p) = none)) ∧
    (Reach System.Step (fun s l => s.InMemory l ∧ s.SwapReady l ∧ s.SwapRepresentable l)
        (System.SwapBoot univ) s →
      (∀ page fpn, swapHolds (s.entry page) = some fpn → fpn ∈ univ ∧ fpn ∉ s.activeMswp.freeFpList) ∧
      ∀ l, s.SwapRepresentable l → (s.TakesFrames (s.exec l) ↔ s.SwapReady l)) := by
  refine ⟨fun p pgn g _ absent => System.failsCleanly_iff absent g, fun reachable => ?_⟩
  have taken := reachable_swapTaken reachable
  exact ⟨taken.entries, fun l fits => System.takesFrames_iff taken.nodup taken.unmixed fits⟩

def fullSystem : System := tinySystem.exec ⟨1, .alloc 256 0, noGarbage⟩

theorem fullSystem_reachable :
    Reach System.Step (fun s l => s.InMemory l ∧ s.SwapReady l ∧ s.SwapRepresentable l)
      (System.SwapBoot [0, 1]) fullSystem := by
  have boot : tinyBoot.Addressable := bootSystem_addressable (by decide) (by decide) _ _
  have fits := boot.exec ⟨0, .alloc 768 0, noGarbage⟩
  refine .step (.step (.start ⟨bootSystem_boot zeroBlock_zero _ _ _, by decide⟩) ⟨?_, ?_, ?_⟩ rfl) ⟨?_, ?_, ?_⟩ rfl
  · exact ⟨by decide, System.inBlocks_of_no_access rfl⟩
  · exact fun fault => absurd rfl fault
  · exact fun fpn member _ => boot.activeMswp fpn member
  · exact ⟨by decide, System.inBlocks_of_no_access rfl⟩
  · exact fun fault => absurd rfl fault
  · exact fun fpn member _ => fits.activeMswp fpn member

theorem fullSystem_iff :
    (fullSystem.FailsCleanly 0 2 noGarbage ↔ findVictimPage (fullSystem.procs 0) = none) ∧
      (fullSystem.TakesFrames (fullSystem.exec ⟨0, .read 0 512, noGarbage⟩) ↔
        fullSystem.SwapReady ⟨0, .read 0 512, noGarbage⟩) := by
  have full : fullSystem.activeMswp.freeFpList = [] := by decide
  refine ⟨(fullSwap_iff fullSystem [0, 1]).1 0 2 noGarbage full (by decide), ?_⟩
  refine ((fullSwap_iff fullSystem [0, 1]).2 fullSystem_reachable).2 ⟨0, .read 0 512, noGarbage⟩ ?_
  intro fpn member
  rw [full] at member
  cases member

/-- The third page of the first process is in the swap. The call that brings it in succeeds, and the second page goes
to the frame whose number the uninitialised variable holds: that of the second process. -/
theorem fullSystem_fault :
    Reach System.Step (fun s l => s.InMemory l ∧ s.SwapReady l ∧ s.SwapRepresentable l)
        (System.SwapBoot [0, 1]) fullSystem ∧
      fullSystem.activeMswp.freeFpList = [] ∧ pagingPagePresent (fullSystem.entry (0, 2)) = false ∧
      ¬ fullSystem.FailsCleanly 0 2 ⟨1, 0, none⟩ ∧
      swapHolds ((fullSystem.bring 0 2 ⟨1, 0, none⟩).entry (0, 1)) = some 1 ∧
      swapHolds (fullSystem.entry (1, 0)) = some 1 := by
  refine ⟨fullSystem_reachable, by decide, by decide, ?_, by decide, by decide⟩
  rw [System.failsCleanly_iff (by decide)]
  decide

end OsSim.Paging
