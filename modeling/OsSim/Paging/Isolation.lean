import OsSim.Paging.Exclusivity

namespace OsSim.Paging
open Custody Transition

/-! ## The byte that an access touches -/

theorem afterGetpage_rdmflg (caller : Caller) (pgn : Nat) (g : Garbage) :
    (afterGetpage caller pgn g).mram.rdmflg = caller.mram.rdmflg := by
  unfold afterGetpage
  split
  · rfl
  · exact (swapPage_mram _ _ _ _).rdmflg

theorem pgread_byte {caller : Caller} (random : caller.mram.rdmflg = true) {source offset addr : Nat}
    {g : Garbage} (touched : (Call.read source offset).physical caller g = some addr) :
    (pgread caller source offset g).2.1 = (pgread caller source offset g).2.2.mram.storage addr := by
  obtain ⟨vaddr, aimed, served, rfl⟩ := Call.physical_eq_some touched
  have after := (afterGetpage_rdmflg caller (pagingPgn vaddr) g).trans random
  simp only [pgread_eq, aimed, pgGetval_eq, if_neg served, memphyRead_random after,
    Option.getD_some]

theorem pgwrite_byte {caller : Caller} (random : caller.mram.rdmflg = true) {data : Byte}
    {destination offset addr : Nat} {g : Garbage}
    (touched : (Call.write data destination offset).physical caller g = some addr) :
    (pgwrite caller data destination offset g).2.mram.storage addr = data := by
  obtain ⟨vaddr, aimed, served, rfl⟩ := Call.physical_eq_some touched
  have after := (afterGetpage_rdmflg caller (pagingPgn vaddr) g).trans random
  simp only [pgwrite_snd, aimed, pgSetval_eq, if_neg served, memphyWrite_random after,
    Option.getD_some, Function.update_self]

/-- Beyond what bringing in the page does, an access changes at most the byte it touches. -/
theorem Call.exec_storage {caller : Caller} {g : Garbage} {call : Call}
    (access : call.isAccess = true) {addr : Nat} (untouched : call.physical caller g ≠ some addr) :
    (call.exec caller g).mram.storage addr = (call.paging caller g).mram.storage addr := by
  rcases Call.exec_access caller g access with brought | ⟨vaddr, value, aimed, stored⟩
  · rw [brought]
  · rw [Call.physical_of_target aimed] at untouched
    rw [stored, Call.paging_of_target aimed, pgSetval_eq]
    by_cases stuck : unservable caller.mm (pagingPgn vaddr)
    · rw [if_pos stuck, Option.getD_none, afterGetpage_of_unservable stuck]
    · rw [if_neg stuck, Option.getD_some]
      exact memphyWrite_outside _ _ fun same => untouched (by rw [if_neg stuck, same])

/-! ## Frames of a process through a page fault -/

/-- A page fault changes which pages are present, and not which frames the present pages hold. -/
theorem swapPage_frames {caller : Caller} {pgn vicpgn : Nat} (g : Garbage)
    (fault : faultVictim caller.mm pgn = some vicpgn) (fpn : Nat) :
    (∃ i, ramHolds ((swapPage caller pgn vicpgn g).mm.pgd i) = some fpn) ↔
      ∃ i, ramHolds (caller.mm.pgd i) = some fpn := by
  obtain ⟨absent, found⟩ := faultVictim_eq_some.mp fault
  have present := pagingPagePresent_of_findVictimPage found
  have different := ne_of_faultVictim fault
  have atVictim : ramHolds (caller.mm.pgd vicpgn) = some (pagingFpn (caller.mm.pgd vicpgn)) :=
    ramHolds_eq_some.mpr ⟨present, rfl⟩
  have atPage : ramHolds (caller.mm.pgd pgn) = none := by simp [ramHolds, absent]
  rw [swapPage_pgd caller g different]
  constructor
  · rintro ⟨i, holds⟩
    by_cases page : i = pgn
    · subst page
      rw [Function.update_self, ramHolds_pteSetFpn _ (pagingFpn_lt _)] at holds
      exact ⟨vicpgn, atVictim.trans holds⟩
    · by_cases victim : i = vicpgn
      · subst victim
        rw [Function.update_of_ne page, Function.update_self, ramHolds_pteSetSwap] at holds
        cases holds
      · rw [Function.update_of_ne page, Function.update_of_ne victim] at holds
        exact ⟨i, holds⟩
  · rintro ⟨i, holds⟩
    by_cases victim : i = vicpgn
    · subst victim
      refine ⟨pgn, ?_⟩
      rw [Function.update_self, ramHolds_pteSetFpn _ (pagingFpn_lt _), ← holds, atVictim]
    · have page : i ≠ pgn := by
        rintro rfl
        rw [atPage] at holds
        cases holds
      exact ⟨i, by rwa [Function.update_of_ne page, Function.update_of_ne victim]⟩

theorem swapPage_outside (caller : Caller) (pgn : Nat) {vicpgn : Nat} (g : Garbage) {fpn off : Nat}
    (other : fpn ≠ pagingFpn (caller.mm.pgd vicpgn)) (inside : off < pagingPagesz) :
    (swapPage caller pgn vicpgn g).mram.storage (fpn * pagingPagesz + off) =
      caller.mram.storage (fpn * pagingPagesz + off) := by
  have copied := swapCpPage_outside (swapPage caller pgn vicpgn g).activeMswp
    (pagingSwp (caller.mm.pgd pgn)) caller.mram g.data other inside
  simpa only [swapPage, swapCpPage_fst] using copied

/-! ## Isolation -/

/-- The access keeps the memory of the processes apart: its byte lies in a frame that a present page of
the process holds after the access, and it neither reads nor changes a byte of another process. -/
structure System.Isolated (s : System) (l : Label) : Prop where
  own : ∀ addr, l.call.physical (s.caller l.p) l.g = some addr →
    ∃ pgn, ramHolds ((s.exec l).entry (l.p, pgn)) = some (addr / pagingPagesz)
  untouched : ∀ addr, l.call.physical (s.caller l.p) l.g = some addr →
    ∀ q pgn, q ≠ l.p → ramHolds ((s.exec l).entry (q, pgn)) ≠ some (addr / pagingPagesz)
  unchanged : ∀ q pgn fpn off, q ≠ l.p → ramHolds (s.entry (q, pgn)) = some fpn →
    off < pagingPagesz → (s.exec l).mram.storage (fpn * pagingPagesz + off) =
      s.mram.storage (fpn * pagingPagesz + off)

/-- The frame number in the entry of the page, as it is before the access, is that of a present page of the
process, unless the access touches no byte. -/
def System.HomeFrame (s : System) (l : Label) : Prop :=
  ∀ addr, l.call.target (s.procs l.p) = some addr → unservable (s.procs l.p) (pagingPgn addr) ∨
    ∃ pgn, ramHolds (s.entry (l.p, pgn)) = some (pagingFpn (s.entry (l.p, pagingPgn addr)))

theorem System.homeFrame_iff (s : System) (l : Label) :
    s.HomeFrame l ↔ ∀ addr, l.call.physical (s.caller l.p) l.g = some addr →
      ∃ pgn, ramHolds (s.entry (l.p, pgn)) = some (addr / pagingPagesz) := by
  rw [System.HomeFrame]
  cases aimed : l.call.target (s.procs l.p) with
  | none => simp [Call.physical, System.caller, aimed]
  | some vaddr =>
      have aimed' : l.call.target (s.caller l.p).mm = some vaddr := aimed
      rw [Call.physical_of_target aimed']
      by_cases stuck : unservable (s.procs l.p) (pagingPgn vaddr)
      · simp [System.caller, stuck]
      · simp only [System.caller, stuck, Option.some.injEq, false_or, if_false, forall_eq',
          phyaddr_div]
        rfl

theorem System.entry_exec_of_ne (s : System) (l : Label) {q : Nat} (other : q ≠ l.p) (pgn : Nat) :
    (s.exec l).entry (q, pgn) = s.entry (q, pgn) := by
  rw [System.entry, System.tables_exec, Function.update_of_ne other]
  rfl

theorem System.frames_exec (s : System) (l : Label) (access : l.call.isAccess = true) (fpn : Nat) :
    (∃ pgn, ramHolds ((s.exec l).entry (l.p, pgn)) = some fpn) ↔
      ∃ pgn, ramHolds (s.entry (l.p, pgn)) = some fpn := by
  simp only [System.entry_exec]
  rcases Call.paging_cases (s.caller l.p) l.g l.call with
    ⟨size, regIndex, call⟩ | ⟨_, quiet⟩ | ⟨pgn, vicpgn, _, fault, swaps⟩
  · rw [call] at access
    cases access
  · rw [System.paging, quiet]
    exact Iff.rfl
  · rw [System.paging, swaps]
    exact swapPage_frames l.g fault fpn

theorem System.paging_unchanged {s : System} (own : s.RamExclusive) (l : Label)
    (access : l.call.isAccess = true) {q pgn fpn off : Nat} (other : q ≠ l.p)
    (holds : ramHolds (s.entry (q, pgn)) = some fpn) (inside : off < pagingPagesz) :
    (s.paging l).mram.storage (fpn * pagingPagesz + off) =
      s.mram.storage (fpn * pagingPagesz + off) := by
  rcases Call.paging_cases (s.caller l.p) l.g l.call with
    ⟨size, regIndex, call⟩ | ⟨_, quiet⟩ | ⟨target, vicpgn, _, fault, swaps⟩
  · rw [call] at access
    cases access
  · rw [System.paging, quiet]
    rfl
  · rw [System.paging, swaps]
    have present := pagingPagePresent_of_findVictimPage (faultVictim_eq_some.mp fault).2
    refine swapPage_outside (s.caller l.p) target l.g ?_ inside
    intro same
    have victim : ramHolds (s.entry (l.p, vicpgn)) = some fpn :=
      ramHolds_eq_some.mpr ⟨present, same.symm⟩
    exact other (congrArg Prod.fst (own.injective (q, pgn) (l.p, vicpgn) fpn holds victim))

theorem System.isolated_iff {s : System} (own : s.RamExclusive) (l : Label)
    (access : l.call.isAccess = true) : s.Isolated l ↔ s.HomeFrame l := by
  rw [System.homeFrame_iff]
  constructor
  · intro isolated addr touched
    exact (s.frames_exec l access _).mp (isolated.own addr touched)
  · intro home
    have after : ∀ addr, l.call.physical (s.caller l.p) l.g = some addr →
        ∃ pgn, ramHolds ((s.exec l).entry (l.p, pgn)) = some (addr / pagingPagesz) :=
      fun addr touched => (s.frames_exec l access _).mpr (home addr touched)
    have own' : (s.exec l).RamExclusive := by
      refine own.exec l fun fpn member => ?_
      cases call : l.call <;> simp_all [System.handedOut, Call.isAccess]
    have apart : ∀ addr, l.call.physical (s.caller l.p) l.g = some addr →
        ∀ q pgn, q ≠ l.p → ramHolds ((s.exec l).entry (q, pgn)) ≠ some (addr / pagingPagesz) := by
      intro addr touched q pgn other holds
      obtain ⟨mine, holds'⟩ := after addr touched
      exact other (congrArg Prod.fst (own'.injective (q, pgn) (l.p, mine) _ holds holds'))
    refine ⟨after, apart, ?_⟩
    intro q pgn fpn off other holds inside
    have untouched : l.call.physical (s.caller l.p) l.g ≠ some (fpn * pagingPagesz + off) := by
      intro touched
      have frame : (fpn * pagingPagesz + off) / pagingPagesz = fpn := by
        simp only [pagingPagesz] at inside ⊢
        omega
      apply apart _ touched q pgn other
      rw [frame, System.entry_exec_of_ne s l other]
      exact holds
    calc
      (s.exec l).mram.storage (fpn * pagingPagesz + off)
          = (s.paging l).mram.storage (fpn * pagingPagesz + off) :=
        Call.exec_storage access untouched
      _ = s.mram.storage (fpn * pagingPagesz + off) :=
        System.paging_unchanged own l access other holds inside

/-! ### In every reachable state -/

/-- The memory behind the `symrgtbl` of `p` may hold anything. -/
def System.withPast (s : System) (p : Nat) (past : Nat → VmRg) : System :=
  s.put p { s.caller p with mm := { s.procs p with
    symrgtbl := fun rgid => if rgid < pagingMaxSymtblSz then (s.procs p).symrgtbl rgid else past rgid } }

theorem System.tables_withPast (s : System) (p : Nat) (past : Nat → VmRg) :
    (s.withPast p past).tables = s.tables := by
  rw [System.withPast, System.tables_put]
  exact Function.update_eq_self p s.tables

theorem reachable_ramExclusive {s : System}
    (reachable : Reach System.Step (fun s l => s.InBounds l ∧ s.InBlocks l ∧ s.Representable l) System.Boot s) :
    s.RamExclusive := by
  refine reachable.invariant (fun s boot => boot.ramExclusive) ?_
  rintro s l s' own ⟨_, _, fits⟩ rfl
  exact own.exec l fits

/-- An access of a reachable state is isolated exactly when the stale frame number that `pgGetpage` returns
is the number of a frame of the process. -/
theorem access_isolated_iff {s : System}
    (reachable : Reach System.Step (fun s l => s.InBounds l ∧ s.InBlocks l ∧ s.Representable l) System.Boot s)
    (past : Nat → VmRg) (l : Label) (access : l.call.isAccess = true) :
    (s.withPast l.p past).Isolated l ↔ (s.withPast l.p past).HomeFrame l := by
  refine System.isolated_iff ?_ l access
  rw [System.RamExclusive, System.tables_withPast]
  exact reachable_ramExclusive reachable

/-- Two processes that fill a RAM of four frames; the third page of the second one is in the swap. -/
def sharedSystem : System :=
  ((bootSystem zeroBlock (fun _ => 0) 1024 1024).exec ⟨0, .alloc 512 0, noGarbage⟩).exec
    ⟨1, .alloc 768 0, noGarbage⟩

theorem sharedSystem_reachable :
    Reach System.Step (fun s l => s.InBounds l ∧ s.InBlocks l ∧ s.Representable l) System.Boot sharedSystem := by
  refine .step (.step (.start (bootSystem_boot zeroBlock_zero _ _ _)) ⟨?_, ?_, ?_⟩ rfl) ⟨?_, ?_, ?_⟩ rfl
  · exact ⟨by decide, by decide⟩
  · exact System.inBlocks_of_no_access rfl
  · unfold System.Representable
    decide
  · exact ⟨by decide, by decide⟩
  · exact System.inBlocks_of_no_access rfl
  · unfold System.Representable
    decide

theorem sharedSystem_isolated_iff :
    (sharedSystem.withPast 1 fun _ => ⟨0, 0⟩).Isolated ⟨1, .write 9 0 256, noGarbage⟩ ↔
      (sharedSystem.withPast 1 fun _ => ⟨0, 0⟩).HomeFrame ⟨1, .write 9 0 256, noGarbage⟩ :=
  access_isolated_iff sharedSystem_reachable (fun _ => ⟨0, 0⟩) ⟨1, .write 9 0 256, noGarbage⟩ rfl

/-- A write of the second process to its page in the swap changes a byte of the first process. -/
theorem sharedSystem_not_isolated :
    Reach System.Step (fun s l => s.InBounds l ∧ s.InBlocks l ∧ s.Representable l) System.Boot sharedSystem ∧
      ramHolds (sharedSystem.entry (0, 1)) = some 0 ∧
      sharedSystem.mram.storage 0 = 0 ∧
      (sharedSystem.exec ⟨1, .write 9 0 512, noGarbage⟩).mram.storage 0 = 9 ∧
      ¬ sharedSystem.Isolated ⟨1, .write 9 0 512, noGarbage⟩ := by
  have held : ramHolds (sharedSystem.entry (0, 1)) = some 0 := by decide
  have before : sharedSystem.mram.storage 0 = 0 := by decide
  have touched : (Call.write 9 0 512).physical (sharedSystem.caller 1) noGarbage = some 0 := by decide
  have after : (sharedSystem.exec ⟨1, .write 9 0 512, noGarbage⟩).mram.storage 0 = 9 := by
    have random : (sharedSystem.caller 1).mram.rdmflg = true := by decide
    have written := pgwrite_byte random touched
    rw [System.exec, System.mram_put]
    simpa only [Call.exec] using written
  refine ⟨sharedSystem_reachable, held, before, after, ?_⟩
  intro isolated
  have same := isolated.unchanged 0 1 0 0 (by decide) held (by decide)
  rw [show 0 * pagingPagesz + 0 = 0 from rfl, before, after] at same
  exact absurd same (by decide)

end OsSim.Paging
