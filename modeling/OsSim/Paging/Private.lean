import OsSim.Paging.Faults

namespace OsSim.Paging
open Transition

-- no proof here unfolds the copy of 256 bytes
attribute [local irreducible] swapCpPage

/-! ## Calls that touch no byte -/

theorem alloc_ramStorage (caller : Caller) (rgid : Nat) (size : Int) :
    (alloc caller rgid size).2.2.mram.storage = caller.mram.storage := by
  rw [alloc]
  dsimp only
  split
  · rfl
  · dsimp only
    split
    · rw [incVmaLimit_snd, vmMapRam_mram]
      rfl
    · rfl

theorem free_devices (caller : Caller) (rgid : Nat) (g : Garbage) :
    (free caller rgid g).2.mram = caller.mram ∧ (free caller rgid g).2.activeMswp = caller.activeMswp := by
  rw [free]
  split <;> exact ⟨rfl, rfl⟩

theorem System.byteAt_sameBytes {s s' : System} {page : Nat × Nat} (entry : s'.entry page = s.entry page)
    (mram : s'.mram.storage = s.mram.storage) (activeMswp : s'.activeMswp.storage = s.activeMswp.storage)
    (off : Nat) : s'.byteAt page off = s.byteAt page off := by
  rw [System.byteAt, System.byteAt, entry, mram, activeMswp]

theorem System.Kept.of_subset {s s' : System} {page : Nat × Nat} (kept : s.Kept page)
    (entry : s'.entry page = s.entry page) (free : s'.activeMswp.freeFpList ⊆ s.activeMswp.freeFpList) :
    s'.Kept page := by
  intro absent fpn holds member
  rw [entry] at absent holds
  exact kept absent fpn holds (free member)

/-- An allocation writes no entry of a page that the area has already. -/
theorem System.entry_alloc {s : System} (aligned : ∀ p, (s.procs p).mmap.Aligned) {l : Label}
    (within : s.WithinSpace l) {size regIndex : Nat} (call : l.call = .alloc size regIndex) {q pgn : Nat}
    (inside : pgn < (s.procs q).mmap.vmEnd / pagingPagesz) : (s.exec l).entry (q, pgn) = s.entry (q, pgn) := by
  by_cases process : q = l.p
  · subst process
    rw [System.entry_exec, System.paging, call]
    by_cases none : allocRequest (s.procs l.p) (cint size) = 0
    · have same : (Call.alloc size regIndex).paging (s.caller l.p) l.g =
          (vmMapRam (s.caller l.p) (cint (s.procs l.p).mmap.vmEnd)
            (allocRequest (s.procs l.p) (cint size))).2 := rfl
      rw [same, none, vmMapRam_zero]
      rfl
    · obtain ⟨_, _, first, _⟩ := alloc_pages (aligned l.p) (within.bound call) none
      exact vmMapRam_outside _ _ _ (.inl (Nat.lt_of_lt_of_eq inside first.symm))
  · exact System.entry_exec_of_ne s l process pgn

/-! ## Calls that touch one -/

theorem System.exec_of_reads {s : System} {l : Label} {addr : BitVec 32}
    (aimed : l.call.target (s.procs l.p) = some addr) (reads : l.call.stores = none) :
    s.exec l = s.bring l.p (pagingPgn addr) l.g := by
  have aimed' : l.call.target (s.caller l.p).mm = some addr := aimed
  rw [System.exec, System.bring, ← Call.paging_of_target aimed']
  congr 1
  cases call : l.call with
  | alloc | free =>
      rw [call] at aimed
      cases aimed
  | write | setval =>
      rw [call] at reads
      cases reads
  | read source offset =>
      rw [Call.exec, pgread_snd]
      rfl
  | getval target => exact Call.exec_getval _ _ _

theorem System.exec_of_stores {s : System} (random : s.Random) {l : Label} {addr : BitVec 32} {value : Byte}
    (aimed : l.call.target (s.procs l.p) = some addr) (stores : l.call.stores = some value)
    (served : ¬ unservable (s.procs l.p) (pagingPgn addr)) :
    s.exec l = (s.bring l.p (pagingPgn addr) l.g).storeRam
      (pagingFpn (s.entry (l.p, pagingPgn addr)) * pagingPagesz + pagingOffst addr) value := by
  have stored := System.exec_setval random l.p addr value l.g
  rw [if_neg served] at stored
  rw [← stored, System.exec, System.exec]
  congr 1
  obtain ⟨p, call, g⟩ := l
  cases call with
  | alloc | free => cases aimed
  | read | getval => cases stores
  | write data destination offset =>
      have aimed' : (Call.write data destination offset).target (s.caller p).mm = some addr := aimed
      rw [← Option.some.inj stores, Call.exec, pgwrite_snd, aimed']
      rfl
  | setval target data =>
      rw [← Option.some.inj stores, ← Option.some.inj aimed]

/-! ## Runs of any calls -/

/-- A call that stores a byte stores it at its target. -/
def remembered (s : System) (l : Label) (last : Nat → BitVec 32 → Option Byte) : Nat → BitVec 32 → Option Byte :=
  match l.call.target (s.procs l.p), l.call.stores with
  | some addr, some value => Function.update last l.p (Function.update (last l.p) addr (some value))
  | _, _ => last

def Tracked.Next (t : Tracked) (l : Label) (t' : Tracked) : Prop :=
  t' = ⟨t.system.exec l, remembered t.system l t.last⟩

/-- The access goes to a page of the area, which is present or can be brought in, and it uses the frame into which
the page comes. -/
structure System.SoundAccess (s : System) (p : Nat) (addr : BitVec 32) : Prop where
  inside : addr.toNat < (s.procs p).mmap.vmEnd
  served : ¬ unservable (s.procs p) (pagingPgn addr)
  ready : s.Ready p (pagingPgn addr)
  fresh : ∀ vicpgn, faultVictim (s.procs p) (pagingPgn addr) = some vicpgn →
    pagingFpn (s.entry (p, pagingPgn addr)) = pagingFpn (s.entry (p, vicpgn))

structure System.Sound (s : System) (l : Label) : Prop where
  inBounds : s.InBounds l
  within : s.WithinSpace l
  representable : s.Representable l
  access : ∀ addr, l.call.target (s.procs l.p) = some addr → s.SoundAccess l.p addr

structure Tracked.Boot (t : Tracked) : Prop where
  system : t.system.Boot
  random : t.system.Random
  last : t.last = fun _ _ => none

/-- What a process stored lies in its area. -/
structure Tracked.Retained (t : Tracked) : Prop extends t.Consistent where
  aligned : ∀ p, (t.system.procs p).mmap.Aligned
  inside : ∀ p addr value, t.last p addr = some value → addr.toNat < (t.system.procs p).mmap.vmEnd

theorem Tracked.Boot.retained {t : Tracked} (boot : t.Boot) : t.Retained where
  ram := boot.system.ramExclusive
  random := boot.random
  nodup := boot.system.activeMswp
  bytes := by
    intro p addr value last
    rw [boot.last] at last
    cases last
  aligned := boot.system.settled.aligned
  inside := by
    intro p addr value last
    rw [boot.last] at last
    cases last

theorem pages_le {vmEnd after pages : Nat} (whole : vmEnd % pagingPagesz = 0)
    (grown : after / pagingPagesz = vmEnd / pagingPagesz + pages) : vmEnd ≤ after := by
  simp only [pagingPagesz] at whole grown
  omega

theorem System.vmEnd_exec {s : System} (aligned : ∀ p, (s.procs p).mmap.Aligned) {l : Label}
    (within : s.WithinSpace l) (q : Nat) : (s.procs q).mmap.vmEnd ≤ ((s.exec l).procs q).mmap.vmEnd := by
  by_cases process : q = l.p
  · subst process
    rw [System.exec, System.procs_put]
    rcases l.call.alloc_or with ⟨size, regIndex, call⟩ | other
    · rw [call]
      have aligned' : (s.caller l.p).mm.mmap.Aligned := aligned l.p
      obtain ⟨_, pages⟩ := alloc_area aligned' (within.bound call) regIndex
      have whole' : (s.procs l.p).mmap.vmEnd % pagingPagesz = 0 := by
        rw [(aligned l.p).limit, pagingPageAlignsz, Nat.mul_mod_left]
      exact pages_le whole' pages
    · exact (l.call.exec_sameArea (s.caller l.p) l.g other).vmEnd.ge
  · rw [System.exec, System.procs_put_of_ne s _ process]

theorem System.pgn_of_inside {s : System} {p : Nat} (aligned : (s.procs p).mmap.Aligned) {addr : BitVec 32}
    (inside : addr.toNat < (s.procs p).mmap.vmEnd) :
    addr.toNat < 2 ^ pagingCpuBusWidth ∧ pagingPgn addr < (s.procs p).mmap.vmEnd / pagingPagesz := by
  obtain ⟨limit, _, below⟩ := aligned
  refine ⟨Nat.lt_of_lt_of_le inside below, ?_⟩
  rw [pagingPgn_eq]
  simp only [pagingPageAlignsz, pagingPagesz, pagingCpuBusWidth] at limit below ⊢
  omega

section Step

variable {s : System} {last : Nat → BitVec 32 → Option Byte} {l : Label}

/-- Calls that leave the bytes and the entries of the areas alone keep what was stored. -/
theorem Tracked.Retained.quiet (kept : Retained ⟨s, last⟩) (sound : s.Sound l)
    (entry : ∀ q pgn, pgn < (s.procs q).mmap.vmEnd / pagingPagesz → (s.exec l).entry (q, pgn) = s.entry (q, pgn))
    (mram : (s.exec l).mram.storage = s.mram.storage)
    (activeMswp : (s.exec l).activeMswp.storage = s.activeMswp.storage) : Consistent ⟨s.exec l, last⟩ where
  ram := kept.ram.exec l sound.representable
  random := kept.random.exec l
  nodup := kept.nodup.sublist (s.activeMswp_suffix l).sublist
  bytes := by
    intro q addr value stored
    obtain ⟨virtual, frame, byte⟩ := kept.bytes q addr value stored
    have page := (System.pgn_of_inside (kept.aligned q) (kept.inside q addr value stored)).2
    have same := entry q (pagingPgn addr) page
    refine ⟨virtual, frame.of_subset same (s.activeMswp_suffix l).subset, ?_⟩
    rw [System.byteAt_sameBytes same mram activeMswp]
    exact byte

theorem Tracked.Retained.bytes_kept (kept : Retained ⟨s, last⟩) (sound : s.Sound l) :
    Consistent ⟨s.exec l, remembered s l last⟩ := by
  rcases l.call.access_or with access | ⟨size, regIndex, call⟩ | ⟨regIndex, call⟩
  · cases aimed : l.call.target (s.procs l.p) with
    | none =>
        rw [remembered, aimed, System.exec_of_no_target access aimed]
        exact kept.toConsistent
    | some addr =>
        obtain ⟨inside, served, ready, fresh⟩ := sound.access addr aimed
        have brought := kept.toConsistent.bring ready l.g
        cases stores : l.call.stores with
        | none =>
            rw [remembered, aimed, stores, System.exec_of_reads aimed stores]
            exact brought
        | some value =>
            rw [remembered, aimed, stores, System.exec_of_stores kept.random aimed stores served]
            have virtual := (System.pgn_of_inside (kept.aligned l.p) inside).1
            exact brought.store virtual (System.bring_home served fresh) value
  · have same : remembered s l last = last := by rw [remembered, call]; rfl
    have exec : s.exec l = s.put l.p (alloc (s.caller l.p) regIndex (cint size)).2.2 := by
      rw [System.exec, call]
      rfl
    rw [same]
    refine kept.quiet sound (fun q pgn below => System.entry_alloc kept.aligned sound.within call below) ?_ ?_
    · rw [exec]
      exact alloc_ramStorage (s.caller l.p) regIndex (cint size)
    · rw [exec]
      exact alloc_swapStorage (s.caller l.p) regIndex (cint size)
  · have same : remembered s l last = last := by rw [remembered, call]; rfl
    have devices := free_devices (s.caller l.p) regIndex l.g
    have exec : s.exec l = s.put l.p (free (s.caller l.p) regIndex l.g).2 := by
      rw [System.exec, call]
      rfl
    have entry : ∀ page, (s.exec l).entry page = s.entry page := by
      rintro ⟨q, pgn⟩
      by_cases process : q = l.p
      · subst process
        rw [System.entry_exec, System.paging, call]
        rfl
      · exact System.entry_exec_of_ne s l process pgn
    rw [same]
    refine kept.quiet sound (fun q pgn _ => entry (q, pgn)) ?_ ?_
    · rw [exec, System.mram_put, devices.1]
      rfl
    · rw [exec]
      exact congrArg Memphy.storage devices.2

theorem remembered_inside (kept : Tracked.Retained ⟨s, last⟩) (sound : s.Sound l) {q : Nat} {addr : BitVec 32}
    {value : Byte} (stored : remembered s l last q addr = some value) : addr.toNat < (s.procs q).mmap.vmEnd := by
  cases aimed : l.call.target (s.procs l.p) with
  | none =>
      rw [remembered, aimed] at stored
      exact kept.inside q addr value stored
  | some target =>
      cases stores : l.call.stores with
      | none =>
          rw [remembered, aimed, stores] at stored
          exact kept.inside q addr value stored
      | some data =>
          rw [remembered, aimed, stores] at stored
          by_cases here : q = l.p ∧ addr = target
          · obtain ⟨rfl, rfl⟩ := here
            exact (sound.access addr aimed).inside
          · refine kept.inside q addr value ?_
            by_cases process : q = l.p
            · subst process
              have elsewhere : addr ≠ target := fun same => here ⟨rfl, same⟩
              simpa [elsewhere] using stored
            · simpa [process] using stored

end Step

theorem Tracked.Retained.next {t t' : Tracked} {l : Label} (kept : t.Retained) (sound : t.system.Sound l)
    (next : Tracked.Next t l t') : t'.Retained := by
  obtain ⟨s, last⟩ := t
  subst next
  refine ⟨kept.bytes_kept sound, System.exec_aligned kept.aligned sound.within, ?_⟩
  intro q addr value stored
  exact Nat.lt_of_lt_of_le (remembered_inside kept sound stored) (System.vmEnd_exec kept.aligned sound.within q)

/-- Whatever the processes allocate, free, read and write in between, `pgread` reports the byte that the process itself
last stored at the address. -/
theorem reachable_private {t : Tracked}
    (reachable : Reach Tracked.Next (fun t l => t.system.Sound l) Tracked.Boot t) {p source offset : Nat}
    {g : Garbage} (sound : t.system.Sound ⟨p, .read source offset, g⟩) {addr : BitVec 32}
    (aimed : (Call.read source offset).target (t.system.procs p) = some addr) {value : Byte}
    (stored : t.last p addr = some value) :
    (pgread (t.system.caller p) source offset g).1 = 0 ∧
      (pgread (t.system.caller p) source offset g).2.1 = value := by
  have kept : t.Retained := by
    refine reachable.invariant (fun t boot => boot.retained) ?_
    exact fun t l t' kept sound next => kept.next sound next
  have aimed' : (Call.read source offset).target (t.system.caller p).mm = some addr := aimed
  obtain ⟨inside, served, ready, fresh⟩ := sound.access addr aimed
  obtain ⟨_, _, byte⟩ := (kept.toConsistent.bring ready g).bytes p addr value stored
  have stuck : ¬ unservable (t.system.caller p).mm (pagingPgn addr) := served
  have random := (afterGetpage_rdmflg (t.system.caller p) (pagingPgn addr) g).trans kept.random.mram
  refine ⟨?_, ?_⟩
  · by_cases rejected : offsetRejected (t.system.caller p).mm source offset = true
    · simp [Call.target, rejected] at aimed'
    · cases region : getSymrgByid (t.system.caller p).mm source with
      | none => simp [Call.target, rejected, region] at aimed'
      | some rg => simp [pgread, rejected, read, region, MmStruct.areas, getVmaByNum]
  · rw [System.byteAt_of_ram (System.bring_home served fresh), Option.some.injEq] at byte
    simp only [pgread_eq, aimed', pgGetval_eq, if_neg stuck, memphyRead_random random, Option.getD_some,
      phyaddr_eq]
    exact byte

/-- The first process stores 7 in its third page, which was in the swap, and then the second process allocates a
page. -/
def busySystem : System :=
  (((bootSystem zeroBlock (fun _ => 0) 512 1024).exec ⟨0, .alloc 768 0, noGarbage⟩).exec
    ⟨0, .write 7 0 512, noGarbage⟩).exec ⟨1, .alloc 256 0, noGarbage⟩

theorem sound_alloc {s : System} {p size regIndex : Nat} {g : Garbage}
    (inBounds : s.InBounds ⟨p, .alloc size regIndex, g⟩) (representable : s.Representable ⟨p, .alloc size regIndex, g⟩)
    (within : (s.procs p).mmap.sbrk + size < 2 ^ pagingCpuBusWidth) : s.Sound ⟨p, .alloc size regIndex, g⟩ :=
  ⟨inBounds, fun _ => within, representable, by rintro addr ⟨⟩⟩

theorem busySystem_private :
    (pgread (busySystem.caller 0) 0 512 noGarbage).1 = 0 ∧ (pgread (busySystem.caller 0) 0 512 noGarbage).2.1 = 7 := by
  let boot : Tracked := ⟨bootSystem zeroBlock (fun _ => 0) 512 1024, fun _ _ => none⟩
  let first : Tracked :=
    ⟨boot.system.exec ⟨0, .alloc 768 0, noGarbage⟩, remembered boot.system ⟨0, .alloc 768 0, noGarbage⟩ boot.last⟩
  let second : Tracked :=
    ⟨first.system.exec ⟨0, .write 7 0 512, noGarbage⟩,
      remembered first.system ⟨0, .write 7 0 512, noGarbage⟩ first.last⟩
  let third : Tracked :=
    ⟨second.system.exec ⟨1, .alloc 256 0, noGarbage⟩, remembered second.system ⟨1, .alloc 256 0, noGarbage⟩ second.last⟩
  have victim : faultVictim (first.system.procs 0) 2 = some 1 := by decide
  have present : faultVictim (third.system.procs 0) 2 = none := by decide
  have start : boot.Boot := ⟨bootSystem_boot zeroBlock_zero _ _ _, ⟨rfl, rfl⟩, rfl⟩
  have alloc : boot.system.Sound ⟨0, .alloc 768 0, noGarbage⟩ := by
    refine sound_alloc ⟨by decide, by decide⟩ ?_ (by decide)
    unfold System.Representable
    decide
  have write : first.system.Sound ⟨0, .write 7 0 512, noGarbage⟩ := by
    refine ⟨trivial, trivial, by rintro fpn ⟨⟩, ?_⟩
    intro addr aimed
    have aimed' : (Call.write 7 0 512).target (first.system.procs 0) = some 512 := by decide
    cases aimed'.symm.trans aimed
    refine ⟨by decide, by decide, ?_, ?_⟩
    · exact fun vicpgn _ => ⟨1, [2, 3], by decide, by decide⟩
    · intro vicpgn fault
      cases victim.symm.trans fault
      decide
  have other : second.system.Sound ⟨1, .alloc 256 0, noGarbage⟩ := by
    refine sound_alloc ⟨by decide, by decide⟩ ?_ (by decide)
    unfold System.Representable
    decide +kernel
  have aimed : (Call.read 0 512).target (third.system.procs 0) = some 512 := by decide +kernel
  have read : third.system.Sound ⟨0, .read 0 512, noGarbage⟩ := by
    refine ⟨trivial, trivial, by rintro fpn ⟨⟩, ?_⟩
    intro addr aimed'
    cases aimed.symm.trans aimed'
    refine ⟨by decide +kernel, by decide +kernel, ?_, ?_⟩ <;> intro vicpgn fault <;>
      cases present.symm.trans fault
  have reachable : Reach Tracked.Next (fun t l => t.system.Sound l) Tracked.Boot third :=
    .step (.step (.step (.start start) alloc rfl) write rfl) other rfl
  have stored : third.last 0 512 = some 7 := by decide +kernel
  have same : busySystem = third.system := rfl
  rw [same]
  exact reachable_private reachable read aimed stored

end OsSim.Paging
