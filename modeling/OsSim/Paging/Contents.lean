import OsSim.Paging.Isolation

namespace OsSim.Paging
open Custody Transition

-- no proof here unfolds the copy of 256 bytes
attribute [local irreducible] swapCpPage

/-! ## The bytes of pages -/

/-- A byte of a page, where its entry says the page is. -/
def System.byteAt (s : System) (page : Nat × Nat) (off : Nat) : Option Byte :=
  match ramHolds (s.entry page) with
  | some fpn => some (s.mram.storage (fpn * pagingPagesz + off))
  | none => (swapHolds (s.entry page)).map fun fpn =>
      s.activeMswp.storage (fpn * pagingPagesz + off)

/-- If the page is in the swap, its frame will not be handed out. -/
def System.Kept (s : System) (page : Nat × Nat) : Prop :=
  ramHolds (s.entry page) = none → ∀ fpn, swapHolds (s.entry page) = some fpn →
    fpn ∉ s.activeMswp.freeFpList

structure System.Random (s : System) : Prop where
  mram : s.mram.rdmflg = true
  activeMswp : s.activeMswp.rdmflg = true

theorem System.byteAt_of_ram {s : System} {page : Nat × Nat} {fpn : Nat}
    (holds : ramHolds (s.entry page) = some fpn) (off : Nat) :
    s.byteAt page off = some (s.mram.storage (fpn * pagingPagesz + off)) := by
  simp [System.byteAt, holds]

theorem System.byteAt_of_swap {s : System} {page : Nat × Nat} {fpn : Nat}
    (absent : ramHolds (s.entry page) = none) (holds : swapHolds (s.entry page) = some fpn)
    (off : Nat) :
    s.byteAt page off = some (s.activeMswp.storage (fpn * pagingPagesz + off)) := by
  simp [System.byteAt, absent, holds]

/-! ## What a page fault copies -/

theorem faultSwap_sameFrames (caller : Caller) (g : Garbage) :
    ((memphyGetFreefp caller.activeMswp).getD (g.swpfpn, caller.activeMswp)).2.storage =
        caller.activeMswp.storage ∧
      ((memphyGetFreefp caller.activeMswp).getD (g.swpfpn, caller.activeMswp)).2.rdmflg =
        caller.activeMswp.rdmflg := by
  cases free : caller.activeMswp.freeFpList <;> simp [memphyGetFreefp, free]

theorem swapPage_swapStorage (caller : Caller) (randomRam : caller.mram.rdmflg = true)
    (randomSwap : caller.activeMswp.rdmflg = true) (pgn vicpgn : Nat) (g : Garbage) (fpn : Nat)
    {off : Nat} (inside : off < pagingPagesz) :
    (swapPage caller pgn vicpgn g).activeMswp.storage (fpn * pagingPagesz + off) =
      if fpn = faultSwpfpn caller g then
        caller.mram.storage (pagingFpn (caller.mm.pgd vicpgn) * pagingPagesz + off)
      else caller.activeMswp.storage (fpn * pagingPagesz + off) := by
  obtain ⟨storage, rdmflg⟩ := faultSwap_sameFrames caller g
  have copied := swapCpPage_storage randomRam (pagingFpn (caller.mm.pgd vicpgn))
    (rdmflg.trans randomSwap) (faultSwpfpn caller g) g.data fpn off inside
  rw [storage] at copied
  simpa only [swapPage, swapCpPage_fst, faultSwpfpn] using copied

theorem swapPage_swapRdmflg (caller : Caller) (pgn vicpgn : Nat) (g : Garbage) :
    (swapPage caller pgn vicpgn g).activeMswp.rdmflg = caller.activeMswp.rdmflg := by
  simp only [swapPage, swapCpPage_fst]
  exact swapCpPage_sameFrames.rdmflg.trans (faultSwap_sameFrames caller g).2

theorem swapPage_ramStorage (caller : Caller) (randomRam : caller.mram.rdmflg = true)
    (randomSwap : caller.activeMswp.rdmflg = true) (pgn vicpgn : Nat) (g : Garbage) {off : Nat}
    (inside : off < pagingPagesz) :
    (swapPage caller pgn vicpgn g).mram.storage
        (pagingFpn (caller.mm.pgd vicpgn) * pagingPagesz + off) =
      (swapPage caller pgn vicpgn g).activeMswp.storage
        (pagingSwp (caller.mm.pgd pgn) * pagingPagesz + off) := by
  have random := (swapPage_swapRdmflg caller pgn vicpgn g).trans randomSwap
  have copied := swapCpPage_storage random (pagingSwp (caller.mm.pgd pgn)) randomRam
    (pagingFpn (caller.mm.pgd vicpgn)) g.data (pagingFpn (caller.mm.pgd vicpgn)) off inside
  rw [if_pos rfl] at copied
  simpa only [swapPage, swapCpPage_fst] using copied

/-! ## Bringing in a page -/

def System.bring (s : System) (p pgn : Nat) (g : Garbage) : System :=
  s.put p (afterGetpage (s.caller p) pgn g)

/-- If the page is brought in, the swap has a free frame for the victim, and a page table entry can hold
its number. -/
def System.Ready (s : System) (p pgn : Nat) : Prop :=
  ∀ vicpgn, faultVictim (s.procs p) pgn = some vicpgn →
    ∃ fpn rest, s.activeMswp.freeFpList = fpn :: rest ∧ fpn < 2 ^ 21

section Bring

variable {s : System} {p pgn : Nat} {g : Garbage}

theorem System.bring_of_no_fault (none : faultVictim (s.procs p) pgn = none) : s.bring p pgn g = s := by
  rw [System.bring, afterGetpage, show faultVictim (s.caller p).mm pgn = Option.none from none]
  exact s.put_caller p

theorem System.bring_of_fault {vicpgn : Nat} (fault : faultVictim (s.procs p) pgn = some vicpgn) :
    s.bring p pgn g = s.put p (swapPage (s.caller p) pgn vicpgn g) := by
  rw [System.bring, afterGetpage, show faultVictim (s.caller p).mm pgn = some vicpgn from fault]

theorem System.devices_bring {vicpgn : Nat} (fault : faultVictim (s.procs p) pgn = some vicpgn) :
    (s.bring p pgn g).mram = (swapPage (s.caller p) pgn vicpgn g).mram ∧
      (s.bring p pgn g).activeMswp = (swapPage (s.caller p) pgn vicpgn g).activeMswp := by
  rw [System.bring_of_fault fault]
  exact ⟨rfl, rfl⟩

@[simp] theorem System.rdmflg_bring : (s.bring p pgn g).mram.rdmflg = s.mram.rdmflg :=
  afterGetpage_rdmflg (s.caller p) pgn g

theorem System.entry_bring {vicpgn : Nat} (fault : faultVictim (s.procs p) pgn = some vicpgn)
    (page : Nat × Nat) :
    (s.bring p pgn g).entry page =
      if page = (p, pgn) then
        pteSetFpn (s.entry (p, pgn)) (pagingFpn (s.entry (p, vicpgn)))
      else if page = (p, vicpgn) then
        pteSetSwap (s.entry (p, vicpgn)) 0 (faultSwpfpn (s.caller p) g)
      else s.entry page := by
  obtain ⟨q, i⟩ := page
  rw [System.bring_of_fault fault, System.entry, System.tables_put,
    swapPage_pgd (s.caller p) g (ne_of_faultVictim fault)]
  by_cases process : q = p
  · subst process
    by_cases target : i = pgn
    · subst target
      simp [System.caller, System.entry, System.tables]
    · by_cases victim : i = vicpgn
      · subst victim
        simp [System.caller, System.entry, System.tables, target]
      · simp [System.caller, System.entry, System.tables, target, victim]
  · simp [System.entry, process]

theorem System.byteAt_bring
    (own : ∀ page other fpn, ramHolds (s.entry page) = some fpn → ramHolds (s.entry other) = some fpn →
      page = other)
    (random : s.Random) (ready : s.Ready p pgn) {page : Nat × Nat} (kept : s.Kept page) {off : Nat}
    (inside : off < pagingPagesz) {value : Byte}
    (before : s.byteAt page off = some value) : (s.bring p pgn g).byteAt page off = some value := by
  cases fault : faultVictim (s.procs p) pgn with
  | none => rwa [System.bring_of_no_fault fault]
  | some vicpgn =>
      obtain ⟨fpn, rest, free, fits⟩ := ready vicpgn fault
      obtain ⟨absent, found⟩ := faultVictim_eq_some.mp fault
      have different := ne_of_faultVictim fault
      have swpfpn : faultSwpfpn (s.caller p) g = fpn := faultSwpfpn_of_free free g
      have victim : ramHolds (s.entry (p, vicpgn)) = some (pagingFpn (s.entry (p, vicpgn))) :=
        ramHolds_eq_some.mpr ⟨pagingPagePresent_of_findVictimPage found, rfl⟩
      obtain ⟨mram, swap⟩ := System.devices_bring (g := g) fault
      have entry := System.entry_bring (g := g) fault page
      by_cases target : page = (p, pgn)
      · -- the page brought in comes from its own swap frame, which was not free
        subst target
        rw [if_pos rfl] at entry
        have out : ramHolds (s.entry (p, pgn)) = none := by
          have unset : pagingPagePresent (s.entry (p, pgn)) = false := absent
          simp [ramHolds, unset]
        have inSwap : swapHolds (s.entry (p, pgn)) = some (pagingSwp (s.entry (p, pgn))) := by
          cases swapped : swapHolds (s.entry (p, pgn)) with
          | none => simp [System.byteAt, out, swapped] at before
          | some old => exact congrArg some (swapHolds_eq_some.mp swapped).2.symm
        have apart : pagingSwp (s.entry (p, pgn)) ≠ fpn := by
          intro same
          exact kept out _ inSwap (by simp [free, same])
        have home : ramHolds ((s.bring p pgn g).entry (p, pgn)) =
            some (pagingFpn (s.entry (p, vicpgn))) := by
          rw [entry]
          exact ramHolds_pteSetFpn _ (pagingFpn_lt _)
        have copied := swapPage_ramStorage (s.caller p) random.mram random.activeMswp pgn vicpgn g
          inside
        have fetched := swapPage_swapStorage (s.caller p) random.mram random.activeMswp pgn vicpgn g
          (pagingSwp (s.entry (p, pgn))) inside
        rw [swpfpn, if_neg apart] at fetched
        rw [System.byteAt_of_ram home, mram, ← before, System.byteAt_of_swap out inSwap]
        exact congrArg some (copied.trans fetched)
      · rw [if_neg target] at entry
        by_cases evicted : page = (p, vicpgn)
        · -- the victim goes to the free frame
          subst evicted
          rw [if_pos rfl, swpfpn] at entry
          have away : ramHolds ((s.bring p pgn g).entry (p, vicpgn)) = none := by
            rw [entry]
            exact ramHolds_pteSetSwap _ _ _
          have inSwap : swapHolds ((s.bring p pgn g).entry (p, vicpgn)) = some fpn := by
            rw [entry]
            exact swapHolds_pteSetSwap _ _ fits
          have saved := swapPage_swapStorage (s.caller p) random.mram random.activeMswp pgn vicpgn
            g fpn inside
          rw [swpfpn, if_pos rfl] at saved
          rw [System.byteAt_of_swap away inSwap, swap, ← before, System.byteAt_of_ram victim]
          exact congrArg some saved
        · -- any other page stays where it is
          rw [if_neg evicted] at entry
          cases held : ramHolds (s.entry page) with
          | some frame =>
              have apart : frame ≠ pagingFpn (s.entry (p, vicpgn)) := by
                rintro rfl
                exact evicted (own page (p, vicpgn) _ held victim)
              have kept' := swapPage_outside (s.caller p) pgn g apart inside
              rw [System.byteAt_of_ram (entry ▸ held), mram, ← before, System.byteAt_of_ram held]
              exact congrArg some kept'
          | none =>
              cases swapped : swapHolds (s.entry page) with
              | none => simp [System.byteAt, held, swapped] at before
              | some frame =>
                  have apart : frame ≠ fpn := by
                    rintro rfl
                    exact kept held _ swapped (by simp [free])
                  have kept' := swapPage_swapStorage (s.caller p) random.mram random.activeMswp pgn
                    vicpgn g frame inside
                  rw [swpfpn, if_neg apart] at kept'
                  rw [System.byteAt_of_swap (entry ▸ held) (entry ▸ swapped), swap, ← before,
                    System.byteAt_of_swap held swapped]
                  exact congrArg some kept'

theorem System.kept_bring (nodup : s.activeMswp.freeFpList.Nodup) (ready : s.Ready p pgn)
    {page : Nat × Nat} (kept : s.Kept page) : (s.bring p pgn g).Kept page := by
  cases fault : faultVictim (s.procs p) pgn with
  | none => rwa [System.bring_of_no_fault fault]
  | some vicpgn =>
      obtain ⟨fpn, rest, free, fits⟩ := ready vicpgn fault
      have swpfpn : faultSwpfpn (s.caller p) g = fpn := faultSwpfpn_of_free free g
      have freeAfter : (s.bring p pgn g).activeMswp.freeFpList = rest := by
        have before : (s.caller p).activeMswp.freeFpList = fpn :: rest := free
        rw [(System.devices_bring fault).2, swapPage_activeMswp, before, List.tail_cons]
      rw [free] at nodup
      intro absent frame holds
      rw [System.entry_bring fault] at absent holds
      rw [freeAfter]
      by_cases target : page = (p, pgn)
      · rw [if_pos target, swapHolds_pteSetFpn] at holds
        cases holds
      · rw [if_neg target] at absent holds
        by_cases evicted : page = (p, vicpgn)
        · rw [if_pos evicted, swpfpn, swapHolds_pteSetSwap _ _ fits, Option.some.injEq] at holds
          rw [← holds]
          exact (List.nodup_cons.mp nodup).1
        · rw [if_neg evicted] at absent holds
          intro member
          exact kept absent frame holds (by simp [free, member])

/-- The frame number in the entry before is that of the frame in which the page is after, if the page is
present or is brought into the frame of that number. -/
theorem System.bring_home (served : ¬ unservable (s.procs p) pgn)
    (fresh : ∀ vicpgn, faultVictim (s.procs p) pgn = some vicpgn →
      pagingFpn (s.entry (p, pgn)) = pagingFpn (s.entry (p, vicpgn))) :
    ramHolds ((s.bring p pgn g).entry (p, pgn)) = some (pagingFpn (s.entry (p, pgn))) := by
  cases fault : faultVictim (s.procs p) pgn with
  | none =>
      rw [System.bring_of_no_fault fault, ramHolds_eq_some]
      refine ⟨?_, rfl⟩
      cases present : pagingPagePresent (s.entry (p, pgn)) with
      | true => rfl
      | false =>
          have unset : pagingPagePresent ((s.procs p).pgd pgn) = false := present
          simp only [faultVictim, unset, Bool.false_eq_true, if_false] at fault
          exact absurd ⟨unset, fault⟩ served
  | some vicpgn =>
      rw [System.entry_bring fault, if_pos rfl, ramHolds_pteSetFpn _ (pagingFpn_lt _),
        fresh vicpgn fault]

end Bring

/-! ## Storing a byte -/

def System.storeRam (s : System) (addr : Nat) (value : Byte) : System :=
  { s with mram := { s.mram with storage := Function.update s.mram.storage addr value } }

@[simp] theorem System.rdmflg_storeRam (s : System) (addr : Nat) (value : Byte) :
    (s.storeRam addr value).mram.rdmflg = s.mram.rdmflg := rfl

@[simp] theorem System.storage_storeRam (s : System) (addr : Nat) (value : Byte) :
    (s.storeRam addr value).mram.storage addr = value := by
  simp [System.storeRam]

theorem System.byteAt_storeRam (s : System) (page : Nat × Nat) (fpn : Nat) {off off' : Nat}
    (inside : off < pagingPagesz) (inside' : off' < pagingPagesz) (value : Byte) :
    (s.storeRam (fpn * pagingPagesz + off) value).byteAt page off' =
      if ramHolds (s.entry page) = some fpn ∧ off' = off then some value else s.byteAt page off' := by
  have entry : (s.storeRam (fpn * pagingPagesz + off) value).entry page = s.entry page := rfl
  rw [System.byteAt, System.byteAt, entry]
  cases held : ramHolds (s.entry page) with
  | none => simp [System.storeRam]
  | some frame =>
      by_cases here : frame = fpn ∧ off' = off
      · obtain ⟨rfl, rfl⟩ := here
        simp [System.storeRam]
      · have apart : frame * pagingPagesz + off' ≠ fpn * pagingPagesz + off := by
          intro same
          simp only [pagingPagesz] at same inside inside'
          exact here ⟨by omega, by omega⟩
        simp [System.storeRam, apart, here]

/-! ## Runs of byte accesses -/

/-- A system, and for each process the byte it last stored at each address. -/
structure Tracked where
  system : System
  last : Nat → BitVec 32 → Option Byte

/-- `pgSetval` of the step does not fail. -/
def remember (s : System) (l : Label) (last : Nat → BitVec 32 → Option Byte) :
    Nat → BitVec 32 → Option Byte :=
  match l.call with
  | .setval addr value =>
      if unservable (s.procs l.p) (pagingPgn addr) then last
      else Function.update last l.p (Function.update (last l.p) addr (some value))
  | _ => last

def Tracked.Step (t : Tracked) (l : Label) (t' : Tracked) : Prop :=
  t' = ⟨t.system.exec l, remember t.system l t.last⟩

def Call.byteAddr : Call → Option (BitVec 32)
  | .getval addr | .setval addr _ => some addr
  | _ => none

/-- The step is a call of `pgGetval` or `pgSetval` on a virtual address, and the swap has a free frame if a
victim must go there. -/
structure System.ByteAccess (s : System) (l : Label) : Prop where
  access : ∃ addr, l.call.byteAddr = some addr ∧ addr.toNat < 2 ^ pagingCpuBusWidth
  ready : ∀ addr, l.call.byteAddr = some addr → s.Ready l.p (pagingPgn addr)

/-- The page comes into the frame whose number its entry shows before. -/
def System.FreshFrame (s : System) (l : Label) : Prop :=
  ∀ addr, l.call.byteAddr = some addr → ∀ vicpgn,
    faultVictim (s.procs l.p) (pagingPgn addr) = some vicpgn →
    pagingFpn (s.entry (l.p, pagingPgn addr)) = pagingFpn (s.entry (l.p, vicpgn))

structure System.Faithful (s : System) (l : Label) : Prop extends s.ByteAccess l where
  fresh : s.FreshFrame l

/-- Before the accesses: any reachable state, over random access devices. -/
structure Tracked.Start (t : Tracked) : Prop where
  reachable : Reach System.Step (fun s l => s.InBounds l ∧ s.InBlocks l ∧ s.Representable l) System.Boot t.system
  random : t.system.Random
  last : t.last = fun _ _ => none

structure Tracked.Consistent (t : Tracked) : Prop where
  ram : t.system.RamExclusive
  random : t.system.Random
  nodup : t.system.activeMswp.freeFpList.Nodup
  bytes : ∀ p addr value, t.last p addr = some value → addr.toNat < 2 ^ pagingCpuBusWidth ∧
    t.system.Kept (p, pagingPgn addr) ∧
    t.system.byteAt (p, pagingPgn addr) (pagingOffst addr) = some value

theorem reachable_swapNodup {s : System} {ok : System → Label → Prop}
    (reachable : Reach System.Step ok System.Boot s) : s.activeMswp.freeFpList.Nodup := by
  induction reachable with
  | start boot => exact boot.activeMswp
  | @step s s' l _ _ taken ih =>
      rw [taken]
      exact ih.sublist (s.activeMswp_suffix l).sublist

theorem Tracked.Start.consistent {t : Tracked} (start : t.Start) : t.Consistent where
  ram := reachable_ramExclusive start.reachable
  random := start.random
  nodup := reachable_swapNodup start.reachable
  bytes := by
    intro p addr value last
    rw [start.last] at last
    cases last

theorem addr_eq {addr other : BitVec 32} (virtual : addr.toNat < 2 ^ pagingCpuBusWidth)
    (virtual' : other.toNat < 2 ^ pagingCpuBusWidth) (page : pagingPgn other = pagingPgn addr)
    (off : pagingOffst other = pagingOffst addr) : other = addr := by
  apply BitVec.eq_of_toNat_eq
  rw [pagingPgn_eq, pagingPgn_eq] at page
  rw [pagingOffst_eq, pagingOffst_eq] at off
  simp only [pagingCpuBusWidth] at virtual virtual'
  omega

theorem System.Random.exec {s : System} (random : s.Random) (l : Label) : (s.exec l).Random := by
  refine ⟨?_, ?_⟩
  · rw [(s.mram_exec l).rdmflg, ← random.mram]
    rcases s.paging_cases l with ⟨_, _, maps, _⟩ | ⟨_, quiet⟩ | ⟨_, _, _, _, swaps⟩
    · rw [maps, vmMapRam_mram]
      rfl
    · rw [quiet]
      rfl
    · rw [swaps]
      exact (swapPage_mram _ _ _ _).rdmflg
  · rw [(s.activeMswp_exec l).rdmflg, ← random.activeMswp]
    rcases s.paging_cases l with ⟨_, _, maps, _⟩ | ⟨_, quiet⟩ | ⟨_, _, _, _, swaps⟩
    · rw [maps, vmMapRam_activeMswp]
      rfl
    · rw [quiet]
      rfl
    · rw [swaps]
      exact swapPage_swapRdmflg _ _ _ _

section Run

variable {s : System} {last : Nat → BitVec 32 → Option Byte} {p : Nat} {addr : BitVec 32}

theorem System.exec_getval (s : System) (p : Nat) (addr : BitVec 32) (g : Garbage) :
    s.exec ⟨p, .getval addr, g⟩ = s.bring p (pagingPgn addr) g := by
  rw [System.exec, Call.exec_getval]
  rfl

theorem System.bring_of_unservable {pgn : Nat} (stuck : unservable (s.procs p) pgn) (g : Garbage) :
    s.bring p pgn g = s := by
  apply System.bring_of_no_fault
  simp [faultVictim, stuck.1, stuck.2]

theorem System.exec_setval (random : s.Random) (p : Nat) (addr : BitVec 32) (value : Byte)
    (g : Garbage) :
    s.exec ⟨p, .setval addr value, g⟩ =
      if unservable (s.procs p) (pagingPgn addr) then s
      else (s.bring p (pagingPgn addr) g).storeRam
        (pagingFpn (s.entry (p, pagingPgn addr)) * pagingPagesz + pagingOffst addr) value := by
  simp only [System.exec, Call.exec, pgSetval_eq]
  by_cases stuck : unservable (s.procs p) (pagingPgn addr)
  · have stuck' : unservable (s.caller p).mm (pagingPgn addr) := stuck
    rw [if_pos stuck, if_pos stuck', Option.getD_none, System.put_caller]
  · have served : ¬ unservable (s.caller p).mm (pagingPgn addr) := stuck
    have random' := (afterGetpage_rdmflg (s.caller p) (pagingPgn addr) g).trans random.mram
    rw [if_neg stuck, if_neg served, Option.getD_some, memphyWrite_random random', Option.getD_some,
      phyaddr_eq]
    rfl

theorem Tracked.Consistent.bring (consistent : Consistent ⟨s, last⟩)
    (ready : s.Ready p (pagingPgn addr)) (g : Garbage) :
    Consistent ⟨s.bring p (pagingPgn addr) g, last⟩ := by
  obtain ⟨ram, random, nodup, bytes⟩ := consistent
  dsimp only at ram random nodup bytes
  have step := s.exec_getval p addr g
  refine ⟨?_, ?_, ?_, ?_⟩
  · rw [← step]
    exact ram.exec _ (by simp [System.handedOut])
  · rw [← step]
    exact random.exec _
  · rw [← step]
    exact nodup.sublist (s.activeMswp_suffix _).sublist
  · intro q other value stored
    obtain ⟨virtual, kept, byte⟩ := bytes q other value stored
    exact ⟨virtual, System.kept_bring nodup ready kept,
      System.byteAt_bring ram.injective random ready kept (pagingOffst_lt other) byte⟩

theorem Tracked.Consistent.store (consistent : Consistent ⟨s, last⟩)
    (virtual : addr.toNat < 2 ^ pagingCpuBusWidth) {fpn : Nat}
    (holds : ramHolds (s.entry (p, pagingPgn addr)) = some fpn) (value : Byte) :
    Consistent ⟨s.storeRam (fpn * pagingPagesz + pagingOffst addr) value,
      Function.update last p (Function.update (last p) addr (some value))⟩ := by
  obtain ⟨ram, random, nodup, bytes⟩ := consistent
  dsimp only at ram random nodup bytes
  refine ⟨ram, ⟨random.mram, random.activeMswp⟩, nodup, ?_⟩
  intro q other stored remembered
  by_cases here : q = p ∧ other = addr
  · obtain ⟨rfl, rfl⟩ := here
    simp only [Function.update_self, Option.some.injEq] at remembered
    subst remembered
    refine ⟨virtual, ?_, ?_⟩
    · intro absent
      have stays : ramHolds (s.entry (q, pagingPgn other)) = none := absent
      rw [holds] at stays
      cases stays
    · rw [System.byteAt_storeRam _ _ _ (pagingOffst_lt _) (pagingOffst_lt _), if_pos ⟨holds, rfl⟩]
  · have before : last q other = some stored := by
      by_cases process : q = p
      · subst process
        have elsewhere : other ≠ addr := fun same => here ⟨rfl, same⟩
        simpa [elsewhere] using remembered
      · simpa [process] using remembered
    obtain ⟨virtual', kept, byte⟩ := bytes q other stored before
    refine ⟨virtual', kept, ?_⟩
    rw [System.byteAt_storeRam _ _ _ (pagingOffst_lt addr) (pagingOffst_lt other), if_neg, byte]
    rintro ⟨holds', off⟩
    have page := ram.injective _ _ _ holds' holds
    rw [Prod.mk.injEq] at page
    exact here ⟨page.1, addr_eq virtual virtual' page.2 off⟩

end Run

theorem Tracked.Consistent.step {t t' : Tracked} {l : Label} (consistent : t.Consistent)
    (faithful : t.system.Faithful l) (step : Tracked.Step t l t') : t'.Consistent := by
  obtain ⟨s, last⟩ := t
  obtain ⟨p, call, g⟩ := l
  obtain ⟨⟨⟨addr, aimed, virtual⟩, ready⟩, fresh⟩ := faithful
  subst step
  have brought := consistent.bring (ready addr aimed) g
  cases call with
  | alloc | free | read | write => cases aimed
  | getval target =>
      have same : target = addr := Option.some.inj aimed
      subst same
      simp only [System.exec_getval, remember]
      exact brought
  | setval target value =>
      have same : target = addr := Option.some.inj aimed
      subst same
      simp only [System.exec_setval consistent.random, remember]
      by_cases stuck : unservable (s.procs p) (pagingPgn target)
      · rw [if_pos stuck, if_pos stuck]
        exact consistent
      · rw [if_neg stuck, if_neg stuck]
        exact brought.store virtual (System.bring_home stuck (fresh target rfl)) value

/-- `pgGetval` reports the byte that the process last stored at the address. -/
theorem getval_eq_last {t : Tracked}
    (reachable : Reach Tracked.Step (fun t l => t.system.Faithful l) Tracked.Start t)
    {p : Nat} {addr : BitVec 32} {g : Garbage} (faithful : t.system.Faithful ⟨p, .getval addr, g⟩)
    {data : Byte} {caller : Caller}
    (returned : pgGetval (t.system.caller p) addr g = some (data, caller))
    {value : Byte} (stored : t.last p addr = some value) : data = value := by
  have consistent : t.Consistent := by
    refine reachable.invariant (fun t start => start.consistent) ?_
    exact fun t l t' consistent faithful step => consistent.step faithful step
  obtain ⟨virtual, kept, byte⟩ :=
    (consistent.bring (faithful.ready addr rfl) g).bytes p addr value stored
  rw [pgGetval_eq] at returned
  by_cases stuck : unservable (t.system.caller p).mm (pagingPgn addr)
  · rw [if_pos stuck] at returned
    cases returned
  · have home := System.bring_home (g := g) stuck (faithful.fresh addr rfl)
    have random := (afterGetpage_rdmflg (t.system.caller p) (pagingPgn addr) g).trans
      consistent.random.mram
    rw [if_neg stuck] at returned
    simp only [memphyRead_random random, Option.getD_some, phyaddr_eq, Option.some.injEq,
      Prod.mk.injEq] at returned
    rw [System.byteAt_of_ram home, Option.some.injEq] at byte
    exact returned.1.symm.trans byte

/-! ### Two runs -/

theorem tinySystem_start : Tracked.Start ⟨tinySystem, fun _ _ => none⟩ := by
  refine ⟨.step (.start (bootSystem_boot zeroBlock_zero _ _ _)) ⟨?_, ?_, ?_⟩ rfl, ⟨rfl, rfl⟩, rfl⟩
  · exact ⟨by decide, by decide⟩
  · exact System.inBlocks_of_no_access rfl
  · unfold System.Representable
    decide

def tinyRun : Tracked :=
  ⟨tinySystem.exec ⟨0, .setval 512 7, noGarbage⟩,
    remember tinySystem ⟨0, .setval 512 7, noGarbage⟩ fun _ _ => none⟩

theorem tinyRun_reachable :
    Reach Tracked.Step (fun t l => t.system.Faithful l) Tracked.Start tinyRun := by
  have victim : faultVictim (tinySystem.procs 0) 2 = some 1 := by decide
  refine .step (l := ⟨0, .setval 512 7, noGarbage⟩) (.start tinySystem_start) ⟨⟨?_, ?_⟩, ?_⟩ rfl
  · exact ⟨512, rfl, by decide⟩
  · rintro addr ⟨⟩ vicpgn _
    exact ⟨1, [], by decide, by decide⟩
  · rintro addr ⟨⟩ vicpgn fault
    cases victim.symm.trans fault
    decide

theorem tinyRun_getval :
    (pgGetval (tinyRun.system.caller 0) 512 noGarbage).map Prod.fst = some 7 := by
  have present : faultVictim (tinyRun.system.procs 0) 2 = none := by decide
  have served : ¬ unservable (tinyRun.system.caller 0).mm (pagingPgn 512) := by decide
  have faithful : tinyRun.system.Faithful ⟨0, .getval 512, noGarbage⟩ := by
    refine ⟨⟨⟨512, rfl, by decide⟩, ?_⟩, ?_⟩
    · rintro addr ⟨⟩ vicpgn fault
      cases present.symm.trans fault
    · rintro addr ⟨⟩ vicpgn fault
      cases present.symm.trans fault
  cases returned : pgGetval (tinyRun.system.caller 0) 512 noGarbage with
  | none =>
      rw [pgGetval_eq, if_neg served] at returned
      cases returned
  | some out =>
      obtain ⟨data, caller⟩ := out
      have stored : tinyRun.last 0 512 = some 7 := by decide
      exact congrArg some (getval_eq_last tinyRun_reachable faithful returned stored)

/-- The first process stores 7 in its second page, and the second process stores 9 in its third page, which
is in the swap. -/
def mixedRun : Tracked :=
  ⟨(sharedSystem.exec ⟨0, .setval 256 7, noGarbage⟩).exec ⟨1, .setval 512 9, noGarbage⟩,
    remember (sharedSystem.exec ⟨0, .setval 256 7, noGarbage⟩) ⟨1, .setval 512 9, noGarbage⟩
      (remember sharedSystem ⟨0, .setval 256 7, noGarbage⟩ fun _ _ => none)⟩

/-- The first process then reads 9. -/
theorem mixedRun_getval :
    Reach Tracked.Step (fun t l => t.system.ByteAccess l) Tracked.Start mixedRun ∧
      mixedRun.last 0 256 = some 7 ∧
      (pgGetval (mixedRun.system.caller 0) 256 noGarbage).map Prod.fst = some 9 := by
  refine ⟨?_, by decide, ?_⟩
  · have start : Tracked.Start ⟨sharedSystem, fun _ _ => none⟩ :=
      ⟨sharedSystem_reachable, ⟨rfl, rfl⟩, rfl⟩
    refine .step (.step (.start start) ⟨⟨256, rfl, by decide⟩, ?_⟩ rfl)
      ⟨⟨512, rfl, by decide⟩, ?_⟩ rfl
    · rintro addr ⟨⟩ vicpgn fault
      have present : faultVictim (sharedSystem.procs 0) 1 = none := by decide
      cases present.symm.trans fault
    · rintro addr ⟨⟩ vicpgn _
      exact ⟨1, [2, 3], by decide, by decide⟩
  · have random : (sharedSystem.exec ⟨0, .setval 256 7, noGarbage⟩).Random := ⟨rfl, rfl⟩
    have stored : mixedRun.system = ((sharedSystem.exec ⟨0, .setval 256 7, noGarbage⟩).bring 1
        (pagingPgn 512) noGarbage).storeRam 0 9 := by
      rw [mixedRun, System.exec_setval random, if_neg (by decide)]
      rfl
    have byte : mixedRun.system.mram.storage 0 = 9 := by
      rw [stored, System.storage_storeRam]
    have random' : mixedRun.system.mram.rdmflg = true := by
      rw [stored, System.rdmflg_storeRam, System.rdmflg_bring]
      exact random.mram
    have served : ¬ unservable (mixedRun.system.caller 0).mm (pagingPgn 256) := by decide
    have present : faultVictim (mixedRun.system.caller 0).mm (pagingPgn 256) = none := by decide
    have address : phyaddr (pagingFpn ((mixedRun.system.caller 0).mm.pgd (pagingPgn 256)))
        (pagingOffst 256) = 0 := by decide
    rw [pgGetval_eq, if_neg served, afterGetpage, present, address]
    simp only [memphyRead_random (show (mixedRun.system.caller 0).mram.rdmflg = true from random'),
      Option.getD_some, Option.map_some]
    exact congrArg some byte

end OsSim.Paging
