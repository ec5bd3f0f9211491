import OsSim.Paging.Init
import OsSim.Paging.Overrun
import OsSim.Paging.TableBounds

namespace OsSim.Paging
open Transition

/-! ## What is recorded on the replacement list -/

/-- A page of a process is mapped by an allocation, or a fault brings it in. -/
inductive Event
  | mapped (pgn : Nat)
  | brought (pgn : Nat)
deriving DecidableEq

/-- The page number that `enlistPgnNode` gets: `vmapFrames` has counted up before it records a page. -/
def Event.recorded : Event → Nat
  | .mapped pgn => pgn + 1
  | .brought pgn => pgn

def Call.events (caller : Caller) : Call → List Event
  | .alloc size _ =>
      if enoughFrames caller (allocRequest caller.mm (cint size)) then (writtenPages caller size).map .mapped
      else []
  | call => ((call.fault caller.mm).map fun served => .brought served.1).toList

/-- The events of the process `p` in a run. -/
def System.events (s : System) (p : Nat) (labels : List Label) : List Event :=
  outputs System.exec (fun s l => if l.p = p then l.call.events (s.caller p) else []) s labels

/-- The page numbers that were recorded in a run, the latest one last. -/
def System.recordings (s : System) (p : Nat) (labels : List Label) : List Nat :=
  (s.events p labels).map Event.recorded

theorem pgalloc_fifoPgn (caller : Caller) (size regIndex : Nat) :
    (pgalloc caller size regIndex).2.mm.fifoPgn =
      (((Call.alloc size regIndex).events caller).map Event.recorded).reverse ++ caller.mm.fifoPgn := by
  have same := (alloc_samePaging caller regIndex (cint size)).fifoPgn
  rw [pgalloc, same]
  by_cases enough : enoughFrames caller (allocRequest caller.mm (cint size))
  · rw [vmMapRam_fifoPgn _ _ _ enough, Call.events, if_pos enough, List.map_map, writtenPages]
    congr 2
    rw [Nat.add_comm, ← List.map_add_range']
    exact List.map_congr_left fun pgn _ => Nat.add_comm 1 pgn
  · rw [vmMapRam_eq, if_neg enough, Call.events, if_neg enough]
    rfl

theorem Call.events_of_access {call : Call} (other : ∀ size regIndex, call ≠ .alloc size regIndex) (caller : Caller) :
    call.events caller = ((call.fault caller.mm).map fun served => .brought served.1).toList := by
  cases call with
  | alloc size regIndex => exact absurd rfl (other size regIndex)
  | _ => rfl

theorem Call.exec_fifoPgn (caller : Caller) (g : Garbage) (call : Call) :
    (call.exec caller g).mm.fifoPgn =
      ((call.events caller).map Event.recorded).reverse ++ caller.mm.fifoPgn := by
  rcases call.alloc_or with ⟨size, regIndex, rfl⟩ | other
  · exact pgalloc_fifoPgn caller size regIndex
  · rw [(call.exec_samePaging caller g).fifoPgn, Call.events_of_access other]
    rcases call.paging_cases caller g with ⟨size, regIndex, call⟩ | ⟨quiet, still⟩ | ⟨pgn, vicpgn, faults, _, swaps⟩
    · exact absurd call (other size regIndex)
    · rw [quiet, still]
      rfl
    · rw [faults, swaps]
      rfl

/-- The replacement list holds what was recorded, the latest page in front; nothing ever leaves it. -/
theorem System.run_fifoPgn (s : System) (p : Nat) (labels : List Label) :
    ((run System.exec s labels).procs p).fifoPgn =
      (s.recordings p labels).reverse ++ (s.procs p).fifoPgn := by
  refine run_pushes (fun s : System => (s.procs p).fifoPgn) (fun s l => ?_) s labels
  by_cases mine : l.p = p
  · rw [if_pos mine, ← mine, System.exec, System.procs_put]
    exact l.call.exec_fifoPgn (s.caller l.p) l.g
  · rw [if_neg mine, System.exec, System.procs_put_of_ne _ _ (Ne.symm mine)]
    rfl

theorem System.Boot.fifoPgn {s : System} (boot : s.Boot) (p : Nat) (labels : List Label) :
    ((run System.exec s labels).procs p).fifoPgn = (s.recordings p labels).reverse := by
  obtain ⟨block, zero, fresh⟩ := boot.procs p
  rw [System.run_fifoPgn, fresh, show (initMm block).fifoPgn = [] from zero.fifoPgn, List.append_nil]

theorem System.Boot.findVictimPage {s : System} (boot : s.Boot) (p : Nat) (labels : List Label) :
    Paging.findVictimPage ((run System.exec s labels).procs p) =
      (s.recordings p labels).reverse.find? fun pgn => pagingPagePresent ((run System.exec s labels).entry (p, pgn)) := by
  rw [Paging.findVictimPage, boot.fifoPgn]
  rfl

theorem System.Boot.no_victim_iff {s : System} (boot : s.Boot) (p : Nat) (labels : List Label) :
    Paging.findVictimPage ((run System.exec s labels).procs p) = none ↔
      ∀ pgn ∈ s.recordings p labels, pagingPagePresent ((run System.exec s labels).entry (p, pgn)) = false := by
  simp [boot.findVictimPage]

/-- A page number is recorded when a fault brings the page in, or when an allocation maps the page before it. -/
theorem System.mem_recordings {s : System} {p : Nat} {labels : List Label} {pgn : Nat} :
    pgn ∈ s.recordings p labels ↔
      .brought pgn ∈ s.events p labels ∨ ∃ before, .mapped before ∈ s.events p labels ∧ pgn = before + 1 := by
  rw [System.recordings, List.mem_map]
  constructor
  · rintro ⟨event, member, rfl⟩
    cases event with
    | mapped before => exact .inr ⟨before, member, rfl⟩
    | brought pgn => exact .inl member
  · rintro (brought | ⟨before, mapped, rfl⟩)
    · exact ⟨_, brought, rfl⟩
    · exact ⟨_, mapped, rfl⟩

/-! ## A fault on a page that is in the swap -/

def System.SwappedOut (s : System) (page : Nat × Nat) : Prop :=
  pagingPagePresent (s.entry page) = false ∧ pagingPageSwapped (s.entry page) = true

structure System.FaultServed (s : System) (p pgn : Nat) (g : Garbage) : Prop where
  victim : ∃ vicpgn, findVictimPage (s.procs p) = some vicpgn ∧ pagingPagePresent (s.entry (p, vicpgn)) = true
  succeeds : s.activeMswp.freeFpList ≠ [] → pgGetpage (s.caller p) pgn g ≠ none

/-- A process with a present page gets each of its swapped pages. -/
def System.FaultsServed (s : System) (p : Nat) : Prop :=
  (∃ pgn, pagingPagePresent (s.entry (p, pgn)) = true) →
    ∀ pgn g, s.SwappedOut (p, pgn) → s.FaultServed p pgn g

theorem System.faultServed_iff {s : System} {p pgn : Nat} (g : Garbage) :
    s.FaultServed p pgn g ↔ findVictimPage (s.procs p) ≠ none := by
  constructor
  · rintro ⟨⟨vicpgn, found, _⟩, _⟩
    rw [found]
    nofun
  · intro some
    obtain ⟨vicpgn, found⟩ := Option.ne_none_iff_exists'.mp some
    refine ⟨⟨vicpgn, found, pagingPagePresent_of_findVictimPage found⟩, fun _ => ?_⟩
    have served : ¬ unservable (s.caller p).mm pgn := fun stuck => some stuck.2
    rw [pgGetpage_eq, if_neg served]
    nofun

/-- After any calls inside the arrays, the faults of a process are served exactly if it has no present page or no
swapped one, or if some present page was brought in by a fault or follows a page that an allocation mapped. -/
theorem faultsServed_iff {behind : System → Label → System} {boot : System} (start : boot.Boot)
    {labels : List Label} (inside : Along (System.execOver behind) System.InArrays boot labels) (p : Nat) :
    let s := run (System.execOver behind) boot labels
    s.FaultsServed p ↔
      (∀ pgn, pagingPagePresent (s.entry (p, pgn)) = false) ∨ (∀ pgn, ¬ s.SwappedOut (p, pgn)) ∨
        ∃ pgn, pagingPagePresent (s.entry (p, pgn)) = true ∧ (.brought pgn ∈ boot.events p labels ∨
          ∃ before, .mapped before ∈ boot.events p labels ∧ pgn = before + 1) := by
  rw [System.run_execOver inside]
  intro s
  have victim : findVictimPage (s.procs p) ≠ none ↔ ∃ pgn, pagingPagePresent (s.entry (p, pgn)) = true ∧
      (.brought pgn ∈ boot.events p labels ∨ ∃ before, .mapped before ∈ boot.events p labels ∧ pgn = before + 1) := by
    rw [ne_eq, start.no_victim_iff]
    simp only [System.mem_recordings, not_forall, Bool.not_eq_false, exists_prop]
    exact exists_congr fun pgn => and_comm
  rw [← victim]
  constructor
  · intro served
    by_cases present : ∃ pgn, pagingPagePresent (s.entry (p, pgn)) = true
    · by_cases out : ∃ pgn, s.SwappedOut (p, pgn)
      · obtain ⟨pgn, out⟩ := out
        exact .inr (.inr ((System.faultServed_iff noGarbage).mp (served present pgn noGarbage out)))
      · exact .inr (.inl (not_exists.mp out))
    · exact .inl fun pgn => eq_false_of_ne_true (not_exists.mp present pgn)
  · rintro (absent | inside | found) ⟨page, present⟩ pgn g out
    · rw [absent page] at present
      cases present
    · exact absurd out (inside pgn)
    · exact (System.faultServed_iff g).mpr found

def oneFrame : System := bootSystem zeroBlock (fun _ => 0) 256 512

theorem oneFrame_faultsServed_iff :
    let s := run (System.execOver (tableBehind 8176)) oneFrame [⟨0, .alloc 256 0, noGarbage⟩]
    s.FaultsServed 0 ↔
      (∀ pgn, pagingPagePresent (s.entry (0, pgn)) = false) ∨ (∀ pgn, ¬ s.SwappedOut (0, pgn)) ∨
        ∃ pgn, pagingPagePresent (s.entry (0, pgn)) = true ∧
          (.brought pgn ∈ oneFrame.events 0 [⟨0, .alloc 256 0, noGarbage⟩] ∨
            ∃ before, .mapped before ∈ oneFrame.events 0 [⟨0, .alloc 256 0, noGarbage⟩] ∧ pgn = before + 1) := by
  have boot : oneFrame.Boot := bootSystem_boot zeroBlock_zero _ _ _
  have alloc : oneFrame.InArrays ⟨0, .alloc 256 0, noGarbage⟩ := by decide +kernel
  have inside : Along (System.execOver (tableBehind 8176)) System.InArrays oneFrame [⟨0, .alloc 256 0, noGarbage⟩] :=
    ⟨alloc, trivial⟩
  exact faultsServed_iff boot inside 0

/-- The process allocates two pages. The first one is in RAM and was never recorded. -/
theorem oneFrame_not_faultsServed :
    let s := run System.exec oneFrame [⟨0, .alloc 512 0, noGarbage⟩]
    oneFrame.Boot ∧ pagingPagePresent (s.entry (0, 0)) = true ∧ s.SwappedOut (0, 1) ∧
      s.activeMswp.freeFpList ≠ [] ∧ pgGetpage (s.caller 0) 1 noGarbage = none ∧ ¬ s.FaultsServed 0 := by
  intro s
  have failed : pgGetpage (s.caller 0) 1 noGarbage = none := by
    have none : unservable (s.caller 0).mm 1 := by decide
    rw [pgGetpage_eq, if_pos none]
  have out : s.SwappedOut (0, 1) := ⟨by decide, by decide⟩
  have free : s.activeMswp.freeFpList ≠ [] := by decide
  refine ⟨bootSystem_boot zeroBlock_zero _ _ _, by decide, out, free, failed, fun served => ?_⟩
  exact (served ⟨0, by decide⟩ 1 noGarbage out).succeeds free failed

/-! ## Which page is the victim -/

/-- How many recordings came after the latest one of a page. -/
def System.sinceRecorded (s : System) (p : Nat) (labels : List Label) (pgn : Nat) : Nat :=
  (s.recordings p labels).reverse.idxOf pgn

/-- Of the present pages that were recorded, the victim is the one whose latest recording is the oldest. -/
structure System.Oldest (s : System) (p : Nat) (labels : List Label) (vicpgn : Nat) : Prop where
  present : pagingPagePresent ((run System.exec s labels).entry (p, vicpgn)) = true
  recorded : vicpgn ∈ s.recordings p labels
  oldest : ∀ pgn ∈ s.recordings p labels, pagingPagePresent ((run System.exec s labels).entry (p, pgn)) = true →
    s.sinceRecorded p labels pgn ≤ s.sinceRecorded p labels vicpgn

theorem idxOf_le_of_find? {l : List Nat} {good : Nat → Bool} {x : Nat} (found : l.find? good = some x) {y : Nat}
    (member : y ∈ l) (holds : good y = true) : l.idxOf x ≤ l.idxOf y := by
  induction l with
  | nil => cases member
  | cons head rest ih =>
      rw [List.find?_cons] at found
      cases first : good head with
      | true =>
          rw [first] at found
          obtain rfl : head = x := Option.some.inj found
          rw [List.idxOf_cons_self]
          exact Nat.zero_le _
      | false =>
          rw [first] at found
          have other : ∀ z, good z = true → head ≠ z := by
            rintro z holds rfl
            rw [first] at holds
            cases holds
          have inside := (List.mem_cons.mp member).resolve_left (other y holds).symm
          rw [List.idxOf_cons_ne _ (other x (List.find?_some found)), List.idxOf_cons_ne _ (other y holds)]
          exact Nat.succ_le_succ (ih found inside)

theorem System.Boot.sinceRecorded_le {s : System} (boot : s.Boot) {p : Nat} {labels : List Label} {vicpgn pgn : Nat}
    (found : Paging.findVictimPage ((run System.exec s labels).procs p) = some vicpgn)
    (recorded : pgn ∈ s.recordings p labels)
    (present : pagingPagePresent ((run System.exec s labels).entry (p, pgn)) = true) :
    s.sinceRecorded p labels vicpgn ≤ s.sinceRecorded p labels pgn := by
  rw [boot.findVictimPage] at found
  exact idxOf_le_of_find? found (List.mem_reverse.mpr recorded) present

/-- After any calls inside the arrays, the victim of the next fault of a process is the page recorded first exactly if
no two recorded pages are present. -/
theorem oldest_iff {behind : System → Label → System} {boot : System} (start : boot.Boot) {labels : List Label}
    (inside : Along (System.execOver behind) System.InArrays boot labels) (p : Nat) :
    let s := run (System.execOver behind) boot labels
    (∀ vicpgn, findVictimPage (s.procs p) = some vicpgn → boot.Oldest p labels vicpgn) ↔
      ∀ pgn ∈ boot.recordings p labels, ∀ other ∈ boot.recordings p labels,
        pagingPagePresent (s.entry (p, pgn)) = true → pagingPagePresent (s.entry (p, other)) = true → pgn = other := by
  rw [System.run_execOver inside]
  intro s
  constructor
  · intro fifo pgn recorded other recorded' present present'
    obtain ⟨vicpgn, found⟩ : ∃ vicpgn, findVictimPage (s.procs p) = some vicpgn := by
      apply Option.ne_none_iff_exists'.mp
      intro none
      cases present.symm.trans ((start.no_victim_iff p labels).mp none pgn recorded)
    have same : ∀ pgn ∈ boot.recordings p labels, pagingPagePresent (s.entry (p, pgn)) = true → pgn = vicpgn := by
      intro pgn recorded present
      have latest := start.sinceRecorded_le found recorded present
      have oldest := (fifo vicpgn found).oldest pgn recorded present
      exact (List.idxOf_inj (List.mem_reverse.mpr recorded)).mp (Nat.le_antisymm oldest latest)
    exact (same pgn recorded present).trans (same other recorded' present').symm
  · intro alone vicpgn found
    have present := pagingPagePresent_of_findVictimPage found
    have recorded : vicpgn ∈ boot.recordings p labels := by
      rw [start.findVictimPage] at found
      exact List.mem_reverse.mp (List.mem_of_find?_eq_some found)
    refine ⟨present, recorded, fun pgn recorded' present' => ?_⟩
    rw [alone pgn recorded' vicpgn recorded present' present]

theorem tinySystem_oldest_iff :
    let s := run (System.execOver (tableBehind 8176)) tinyBoot [⟨0, .alloc 768 0, noGarbage⟩]
    (∀ vicpgn, findVictimPage (s.procs 0) = some vicpgn → tinyBoot.Oldest 0 [⟨0, .alloc 768 0, noGarbage⟩] vicpgn) ↔
      ∀ pgn ∈ tinyBoot.recordings 0 [⟨0, .alloc 768 0, noGarbage⟩],
        ∀ other ∈ tinyBoot.recordings 0 [⟨0, .alloc 768 0, noGarbage⟩],
          pagingPagePresent (s.entry (0, pgn)) = true → pagingPagePresent (s.entry (0, other)) = true → pgn = other := by
  have boot : tinyBoot.Boot := bootSystem_boot zeroBlock_zero _ _ _
  have alloc : tinyBoot.InArrays ⟨0, .alloc 768 0, noGarbage⟩ := by decide +kernel
  have inside : Along (System.execOver (tableBehind 8176)) System.InArrays tinyBoot [⟨0, .alloc 768 0, noGarbage⟩] :=
    ⟨alloc, trivial⟩
  exact oldest_iff boot inside 0

def threeFrames : System := bootSystem zeroBlock (fun _ => 0) 768 512

/-- The process allocates four pages and reads the last one, which is in the swap. The victim is the page 2, although
the page 1 was recorded before it. -/
theorem threeFrames_not_oldest :
    let labels : List Label := [⟨0, .alloc 1024 0, noGarbage⟩]
    let s := run System.exec threeFrames labels
    threeFrames.Boot ∧ s.SwappedOut (0, 3) ∧ findVictimPage (s.procs 0) = some 2 ∧
      threeFrames.recordings 0 labels = [1, 2, 3, 4] ∧ pagingPagePresent (s.entry (0, 1)) = true ∧
      ¬ threeFrames.Oldest 0 labels 2 := by
  intro labels s
  have recordings : threeFrames.recordings 0 labels = [1, 2, 3, 4] := by decide
  have present : pagingPagePresent (s.entry (0, 1)) = true := by decide
  refine ⟨bootSystem_boot zeroBlock_zero _ _ _, ⟨by decide, by decide⟩, by decide, recordings, present, ?_⟩
  intro fifo
  have older := fifo.oldest 1 (by rw [recordings]; decide) present
  rw [System.sinceRecorded, System.sinceRecorded, recordings] at older
  exact absurd older (by decide)

/-! ## A fault on a page that was never mapped -/

/-- The swap frame that a step copies to RAM is the one that the page has in the swap. -/
def System.BringsOwn (s : System) (l : Label) : Prop :=
  ∀ pgn vicpgn, s.fault l = some (pgn, vicpgn) →
    swapHolds (s.entry (l.p, pgn)) = some (pagingSwp (s.entry (l.p, pgn)))

/-- No page that was recorded is present when an access goes to an unmapped page. -/
def System.LeavesUnmapped (s : System) (l : Label) : Prop :=
  ∀ addr, l.call.target (s.procs l.p) = some addr → Unmapped (s.entry (l.p, pagingPgn addr)) →
    ∀ pgn ∈ (s.procs l.p).fifoPgn, pagingPagePresent (s.entry (l.p, pgn)) = false

theorem System.bringsOwn_iff (s : System) (l : Label) : s.BringsOwn l ↔ s.LeavesUnmapped l := by
  have none : findVictimPage (s.procs l.p) = none ↔
      ∀ pgn ∈ (s.procs l.p).fifoPgn, pagingPagePresent (s.entry (l.p, pgn)) = false := by
    simp [findVictimPage, System.entry, System.tables]
  constructor
  · intro own addr aimed unmapped
    rw [← none]
    by_contra found
    obtain ⟨vicpgn, found⟩ := Option.ne_none_iff_exists'.mp found
    have fault : faultVictim (s.procs l.p) (pagingPgn addr) = some vicpgn := faultVictim_eq_some.mpr ⟨unmapped.1, found⟩
    have holds := own (pagingPgn addr) vicpgn (by simp [System.fault, Call.fault, aimed, fault])
    cases unmapped.2.symm.trans (swapHolds_eq_some.mp holds).1
  · intro leaves pgn vicpgn faults
    rw [System.fault, Call.fault, Option.bind_eq_some_iff] at faults
    obtain ⟨addr, aimed, served⟩ := faults
    obtain ⟨vicpgn', fault, same⟩ := Option.map_eq_some_iff.mp served
    cases same
    obtain ⟨absent, found⟩ := faultVictim_eq_some.mp fault
    refine swapHolds_eq_some.mpr ⟨?_, rfl⟩
    by_contra unswapped
    cases found.symm.trans (none.mpr (leaves addr aimed ⟨absent, eq_false_of_ne_true unswapped⟩))

/-- After any calls inside the arrays, bringing in an unmapped page fails cleanly exactly if no recorded page is
present. In such a run no process gets a swap frame that is not the page's own exactly if this is so at each access to
an unmapped page. -/
theorem unmapped_failsCleanly_iff {behind : System → Label → System} {boot : System} (start : boot.Boot)
    {labels : List Label} (inside : Along (System.execOver behind) System.InArrays boot labels) :
    let s := run (System.execOver behind) boot labels
    (∀ p pgn g, Unmapped (s.entry (p, pgn)) → (s.FailsCleanly p pgn g ↔
      ∀ other ∈ boot.recordings p labels, pagingPagePresent (s.entry (p, other)) = false)) ∧
    (Along (System.execOver behind) System.BringsOwn boot labels ↔
      Along (System.execOver behind) System.LeavesUnmapped boot labels) := by
  rw [System.run_execOver inside]
  refine ⟨fun p pgn g unmapped => ?_, inside.congr fun s l _ => s.bringsOwn_iff l⟩
  rw [System.failsCleanly_iff unmapped.1, start.no_victim_iff]

theorem tinyBoot_unmapped_iff :
    let s := run (System.execOver (tableBehind 8176)) tinyBoot [⟨0, .alloc 512 0, noGarbage⟩]
    (s.FailsCleanly 0 2 noGarbage ↔ ∀ other ∈ tinyBoot.recordings 0 [⟨0, .alloc 512 0, noGarbage⟩],
      pagingPagePresent (s.entry (0, other)) = false) := by
  have boot : tinyBoot.Boot := bootSystem_boot zeroBlock_zero _ _ _
  have alloc : tinyBoot.InArrays ⟨0, .alloc 512 0, noGarbage⟩ := by decide +kernel
  have inside : Along (System.execOver (tableBehind 8176)) System.InArrays tinyBoot [⟨0, .alloc 512 0, noGarbage⟩] :=
    ⟨alloc, trivial⟩
  refine (unmapped_failsCleanly_iff boot inside).1 0 2 noGarbage ?_
  rw [System.run_execOver inside]
  exact ⟨by decide, by decide⟩

/-- The process allocates two pages and reads at the offset 512, which is on a page that was never mapped. The call
succeeds: it copies the swap frame 0 to RAM and drops the page 1. -/
theorem tinyBoot_unmapped_brought :
    let s := run System.exec tinyBoot [⟨0, .alloc 512 0, noGarbage⟩]
    tinyBoot.Boot ∧ Unmapped (s.entry (0, 2)) ∧ ¬ s.FailsCleanly 0 2 noGarbage ∧
      (Call.read 0 512).target (s.procs 0) = some 512#32 ∧
      pagingPagePresent ((s.bring 0 2 noGarbage).entry (0, 2)) = true ∧
      ¬ s.BringsOwn ⟨0, .read 0 512, noGarbage⟩ := by
  intro s
  refine ⟨bootSystem_boot zeroBlock_zero _ _ _, ⟨by decide, by decide⟩, ?_, by decide, by decide, ?_⟩
  · rw [System.failsCleanly_iff (by decide)]
    decide
  · intro own
    have holds := own 2 1 (by decide)
    exact absurd holds (by decide)

end OsSim.Paging
