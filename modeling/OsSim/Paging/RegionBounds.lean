import OsSim.Paging.Overrun

namespace OsSim.Paging
open NodeHeap Tiling Transition

-- no proof here unfolds the copy of 256 bytes
attribute [local irreducible] swapCpPage

/-! ## The regions of the registers -/

def VmRg.Proper (rg : VmRg) : Prop := rg = ⟨0, 0⟩ ∨ rg.rgStart < rg.rgEnd

structure MmStruct.Divided (mm : MmStruct) : Prop where
  regions : ∃ nodes dummy lost, Regions mm nodes dummy lost
  proper : ∀ rgid < pagingMaxSymtblSz, (mm.symrgtbl rgid).Proper

section Divided

variable {mm : MmStruct} {rgid rgid' x : Nat}

theorem initMm_divided {block : MmStruct} (zero : ZeroBlock block) : (initMm block).Divided :=
  ⟨⟨_, _, _, initMm_regions zero⟩, fun rgid register => .inl (zero.symrgtbl rgid register)⟩

theorem MmStruct.Divided.disjoint (divided : mm.Divided) (register : rgid < pagingMaxSymtblSz)
    (register' : rgid' < pagingMaxSymtblSz) (different : rgid' ≠ rgid)
    (inside : (mm.symrgtbl rgid).rgStart ≤ x ∧ x < (mm.symrgtbl rgid).rgEnd) :
    ¬ ((mm.symrgtbl rgid').rgStart ≤ x ∧ x < (mm.symrgtbl rgid').rgEnd) := by
  intro inside'
  obtain ⟨nodes, dummy, lost, regions⟩ := divided.regions
  have total := regions.total x
  have twice : VmRg.covers (mm.symrgtbl rgid) x + VmRg.covers (mm.symrgtbl rgid') x ≤
      count VmRg.covers ((List.range pagingMaxSymtblSz).map mm.symrgtbl) x :=
    add_le_count (List.mem_range.mpr register) (List.mem_range.mpr register') different.symm mm.symrgtbl x
  have first := VmRg.covers_pos_iff.mpr inside
  have second := VmRg.covers_pos_iff.mpr inside'
  split at total <;> omega

theorem MmStruct.Divided.ordered (divided : mm.Divided) (register : rgid < pagingMaxSymtblSz) :
    (mm.symrgtbl rgid).rgStart ≤ (mm.symrgtbl rgid).rgEnd := by
  rcases divided.proper rgid register with empty | proper
  · rw [empty]
  · exact proper.le

theorem MmStruct.Divided.below (divided : mm.Divided) (register : rgid < pagingMaxSymtblSz) :
    (mm.symrgtbl rgid).rgEnd < 2 ^ pagingCpuBusWidth := by
  rcases divided.proper rgid register with empty | proper
  · rw [empty]
    exact Nat.two_pow_pos _
  · obtain ⟨nodes, dummy, lost, regions⟩ := divided.regions
    have member : mm.symrgtbl rgid ∈ regionFamily mm (nodes.map Prod.snd) ++ lost :=
      List.mem_append_left _ (List.mem_append_left _ (List.mem_map.mpr ⟨rgid, List.mem_range.mpr register, rfl⟩))
    have last := regions.tiles.inside member (VmRg.covers_pos_iff.mpr
      ⟨show (mm.symrgtbl rgid).rgStart ≤ (mm.symrgtbl rgid).rgEnd - 1 by omega, by omega⟩)
    have below := regions.below
    omega

end Divided

theorem Regions.alloc_symrgtbl {caller : Caller} {nodes : List (Nat × VmRg)} {dummy : Nat} {lost : List VmRg}
    (regions : Regions caller.mm nodes dummy lost) {size : Nat} (positive : 0 < size) (word : size < 2 ^ 31)
    (within : movesBreak caller.mm size → caller.mm.mmap.sbrk + size < 2 ^ pagingCpuBusWidth) (rgid : Nat) :
    ∃ start, (alloc caller rgid size).2.2.mm.symrgtbl =
      Function.update caller.mm.symrgtbl rgid ⟨start, start + size⟩ := by
  rcases regions.getFreeVmrgArea_cases positive word with ⟨moves, _⟩ | ⟨pre, a, v, post, _, _, taken⟩
  · exact ⟨_, (alloc_of_moves regions.aligned moves (within moves).le rgid).2.1⟩
  · have reuses : ¬ movesBreak caller.mm size := by
      rw [movesBreak, taken]
      exact not_not.mpr rfl
    refine ⟨v.rgStart, ?_⟩
    rw [alloc_of_reuse reuses, taken]
    rfl

theorem enlistVmFreergList_symrgtbl (mm : MmStruct) (rgElmt : VmRg) (g : Garbage) :
    (enlistVmFreergList mm rgElmt g).2.symrgtbl = mm.symrgtbl := by
  unfold enlistVmFreergList
  split
  · rfl
  · dsimp only
    split <;> rfl

theorem MmStruct.Divided.exec {s : System} {l : Label} (divided : (s.procs l.p).Divided)
    (registered : l.call.Registered) (sized : l.call.Sized) (within : s.WithinSpace l) (frees : s.FreesApart l) :
    ((s.exec l).procs l.p).Divided := by
  obtain ⟨⟨nodes, dummy, lost, regions⟩, proper⟩ := divided
  obtain ⟨nodes', dummy', regions'⟩ := System.exec_regions regions registered sized within frees
  refine ⟨⟨nodes', dummy', _, regions'⟩, ?_⟩
  have caller : Regions (s.caller l.p).mm nodes dummy lost := regions
  have proper' : ∀ rgid < pagingMaxSymtblSz, ((s.caller l.p).mm.symrgtbl rgid).Proper := proper
  rw [System.exec, System.procs_put]
  rcases l.call.access_or with access | ⟨size, regIndex, call⟩ | ⟨regIndex, call⟩
  · rw [(l.call.exec_sameRegions (s.caller l.p) l.g access).symrgtbl]
    exact proper'
  · rw [call] at sized
    rw [System.WithinSpace, call] at within
    obtain ⟨start, symrgtbl⟩ := caller.alloc_symrgtbl sized.1 sized.2 (cint_of_lt sized.2 ▸ within) regIndex
    rw [call, Call.exec, pgalloc, cint_of_lt sized.2]
    dsimp only
    rw [symrgtbl]
    exact registers_update proper' regIndex (.inr (Nat.lt_add_of_pos_right sized.1))
  · rw [call, Call.exec, pgfreeData, free]
    split
    · exact proper'
    · dsimp only
      rw [setSymrg_symrgtbl, enlistVmFreergList_symrgtbl]
      exact registers_update proper' regIndex (.inl rfl)

/-! ## The bounds check -/

theorem uint_sub {rg : VmRg} (ordered : rg.rgStart ≤ rg.rgEnd) (below : rg.rgEnd < 2 ^ pagingCpuBusWidth) :
    uint (rg.rgEnd - rg.rgStart) = rg.rgEnd - rg.rgStart := by
  simp only [pagingCpuBusWidth] at below
  unfold uint
  omega

section Check

variable {mm : MmStruct} {rgid offset : Nat}

/-- An offset is rejected if it is above the size of the region; the size itself is not. -/
theorem MmStruct.Divided.rejected_iff (divided : mm.Divided) (register : rgid < pagingMaxSymtblSz) :
    offsetRejected mm rgid offset = true ↔ (mm.symrgtbl rgid).rgEnd - (mm.symrgtbl rgid).rgStart < offset := by
  simp only [offsetRejected, gt_iff_lt, decide_eq_true_eq,
    uint_sub (divided.ordered register) (divided.below register)]

theorem MmStruct.Divided.accessAddr_eq (divided : mm.Divided) (register : rgid < pagingMaxSymtblSz)
    (inside : offset < (mm.symrgtbl rgid).rgEnd - (mm.symrgtbl rgid).rgStart) :
    pagingPgn (accessAddr (mm.symrgtbl rgid) offset) = ((mm.symrgtbl rgid).rgStart + offset) / pagingPagesz ∧
      pagingOffst (accessAddr (mm.symrgtbl rgid) offset) =
        ((mm.symrgtbl rgid).rgStart + offset) % pagingPagesz := by
  have below := divided.below register
  simp only [pagingCpuBusWidth] at below
  rw [pagingPgn_eq, pagingOffst_eq, accessAddr, BitVec.toNat_ofNat]
  simp only [pagingPagesz]
  omega

end Check

section Access

variable {caller : Caller} {rgid offset : Nat}

theorem pgread_status (register : rgid < pagingMaxSymtblSz) (g : Garbage) :
    (pgread caller rgid offset g).1 = if offsetRejected caller.mm rgid offset then -1 else 0 := by
  have inTable : ¬ rgid > pagingMaxSymtblSz := by omega
  unfold pgread
  split
  · rfl
  · simp [read, getSymrgByid, inTable, MmStruct.areas, getVmaByNum]

theorem pgwrite_status (register : rgid < pagingMaxSymtblSz) (data : Byte) (g : Garbage) :
    (pgwrite caller data rgid offset g).1 = if offsetRejected caller.mm rgid offset then -1 else 0 := by
  have inTable : ¬ rgid > pagingMaxSymtblSz := by omega
  unfold pgwrite
  split
  · rfl
  · simp [write, getSymrgByid, inTable, MmStruct.areas, getVmaByNum]

theorem target_of_accepted (register : rgid < pagingMaxSymtblSz) (data : Byte)
    (accepted : ¬ offsetRejected caller.mm rgid offset = true) :
    (Call.write data rgid offset).target caller.mm = some (accessAddr (caller.mm.symrgtbl rgid) offset) := by
  have inTable : ¬ rgid > pagingMaxSymtblSz := by omega
  simp [Call.target, accepted, getSymrgByid, inTable]

end Access

/-! ## Runs -/

/-- After boot, over random access devices whose frame numbers fit in page table entries. -/
structure System.RandomBoot (s : System) : Prop where
  boot : s.Boot
  devices : s.InDevices
  fits : s.Addressable
  random : s.Random

/-- Calls with registers inside `symrgtbl`, the area below 4 MB, accesses inside the RAM, no free that uses a freed
node, and a free swap frame at each page fault. -/
structure System.Careful (s : System) (l : Label) : Prop where
  regular : s.Regular l
  stays : s.StaysInside l
  ready : s.SwapReady l

structure System.Guarded (s : System) : Prop where
  fitted : s.Fitted
  divided : ∀ p, (s.procs p).Divided
  ram : s.RamExclusive
  swap : s.SwapExclusive
  fits : s.Addressable
  random : s.Random

theorem System.RandomBoot.guarded {s : System} (start : s.RandomBoot) : s.Guarded := by
  refine ⟨start.boot.fitted start.devices, fun p => ?_, start.boot.ramExclusive, start.boot.swapExclusive,
    start.fits, start.random⟩
  obtain ⟨block, zero, fresh⟩ := start.boot.procs p
  rw [fresh]
  exact initMm_divided zero

theorem System.Guarded.exec {s : System} (guarded : s.Guarded) {l : Label} (careful : s.Careful l) :
    (s.exec l).Guarded := by
  obtain ⟨fitted, divided, ram, swap, fits, random⟩ := guarded
  obtain ⟨regular, stays, ready⟩ := careful
  have mine := (divided l.p).exec regular.registered regular.sized regular.within stays.frees
  rw [System.exec, System.procs_put] at mine
  refine ⟨fitted.exec regular stays ready.swpfpnInside, System.exec_procs MmStruct.Divided divided mine, ?_,
    swap.exec l fits.activeMswp ready, fits.exec l, random.exec l⟩
  exact ram.exec l fun fpn member => fits.mram fpn (s.handedOut_subset l member)

theorem reachable_guarded {elsewhere : System → Label → System} {s : System}
    (reachable : Reach (System.StepOver elsewhere) System.Careful System.RandomBoot s) : s.Guarded := by
  refine reachable.invariant (fun s start => start.guarded) ?_
  rintro s l s' guarded careful rfl
  rw [System.execOver_of_inArrays (guarded.fitted.inArrays careful.regular careful.stays careful.ready.swpfpnInside)]
  exact guarded.exec careful

/-! ## What a write changes -/

/-- The addresses of the other registers' regions keep their bytes. -/
def System.OthersKept (s s' : System) (p rgid : Nat) : Prop :=
  ∀ rgid' < pagingMaxSymtblSz, rgid' ≠ rgid → ∀ x, ((s.procs p).symrgtbl rgid').rgStart ≤ x →
    x < ((s.procs p).symrgtbl rgid').rgEnd → ∀ value,
      s.byteAt (p, x / pagingPagesz) (x % pagingPagesz) = some value →
      s'.byteAt (p, x / pagingPagesz) (x % pagingPagesz) = some value

/-- The write goes to the frame whose number the entry of the page shows before the fault. The frame does not hold a
byte of another region of the process, unless it is the victim's or the byte is the one written. -/
def System.StaleHarmless (s : System) (p rgid offset : Nat) (data : Byte) : Prop :=
  let addr := accessAddr ((s.procs p).symrgtbl rgid) offset
  ∀ vicpgn, faultVictim (s.procs p) (pagingPgn addr) = some vicpgn →
    ∀ rgid' < pagingMaxSymtblSz, rgid' ≠ rgid → ∀ x, ((s.procs p).symrgtbl rgid').rgStart ≤ x →
      x < ((s.procs p).symrgtbl rgid').rgEnd → x % pagingPagesz = pagingOffst addr →
      x / pagingPagesz ≠ vicpgn →
      ramHolds (s.entry (p, x / pagingPagesz)) = some (pagingFpn (s.entry (p, pagingPgn addr))) →
      s.byteAt (p, x / pagingPagesz) (x % pagingPagesz) = some data

section Write

variable {s : System} {p rgid offset : Nat} {data : Byte} {g : Garbage}

theorem System.exec_write (register : rgid < pagingMaxSymtblSz)
    (accepted : ¬ offsetRejected (s.procs p) rgid offset = true) (data : Byte) (g : Garbage) :
    s.exec ⟨p, .write data rgid offset, g⟩ =
      s.exec ⟨p, .setval (accessAddr ((s.procs p).symrgtbl rgid) offset) data, g⟩ := by
  have accepted' : ¬ offsetRejected (s.caller p).mm rgid offset = true := accepted
  rw [System.exec, System.exec, Call.exec, pgwrite_snd, target_of_accepted register data accepted']
  rfl

theorem System.SwapReady.ready (fits : s.Addressable) (register : rgid < pagingMaxSymtblSz)
    (accepted : ¬ offsetRejected (s.procs p) rgid offset = true)
    (ready : s.SwapReady ⟨p, .write data rgid offset, g⟩) :
    s.Ready p (pagingPgn (accessAddr ((s.procs p).symrgtbl rgid) offset)) := by
  intro vicpgn fault
  have accepted' : ¬ offsetRejected (s.caller p).mm rgid offset = true := accepted
  have target : (Call.write data rgid offset).target (s.procs p) =
      some (accessAddr ((s.procs p).symrgtbl rgid) offset) := target_of_accepted register data accepted'
  have faults : s.fault ⟨p, .write data rgid offset, g⟩ ≠ none := by
    simp [System.fault, Call.fault, target, fault]
  obtain ⟨fpn, rest, free⟩ := List.exists_cons_of_ne_nil (ready faults)
  exact ⟨fpn, rest, free, fits.activeMswp fpn (by simp [free])⟩

theorem MmStruct.Divided.elsewhere {mm : MmStruct} (divided : mm.Divided) (register : rgid < pagingMaxSymtblSz)
    (inside : offset < (mm.symrgtbl rgid).rgEnd - (mm.symrgtbl rgid).rgStart) :
    ∀ rgid' < pagingMaxSymtblSz, rgid' ≠ rgid → ∀ x, (mm.symrgtbl rgid').rgStart ≤ x →
      x < (mm.symrgtbl rgid').rgEnd → x % pagingPagesz = pagingOffst (accessAddr (mm.symrgtbl rgid) offset) →
      x / pagingPagesz ≠ pagingPgn (accessAddr (mm.symrgtbl rgid) offset) := by
  intro rgid' register' different x lower upper off page
  obtain ⟨pgn, offst⟩ := divided.accessAddr_eq register inside
  have same : x = (mm.symrgtbl rgid).rgStart + offset := by
    rw [pgn] at page
    rw [offst] at off
    rw [← Nat.div_add_mod x pagingPagesz, page, off, Nat.div_add_mod]
  refine divided.disjoint register register' different (x := x) ?_ ⟨lower, upper⟩
  omega

/-- The bytes of the other regions stay exactly if the write does not hit one through the old frame number. -/
theorem System.Guarded.othersKept_iff (guarded : s.Guarded) (register : rgid < pagingMaxSymtblSz)
    (inside : offset < ((s.procs p).symrgtbl rgid).rgEnd - ((s.procs p).symrgtbl rgid).rgStart)
    (ready : s.SwapReady ⟨p, .write data rgid offset, g⟩) :
    s.OthersKept (s.exec ⟨p, .write data rgid offset, g⟩) p rgid ↔ s.StaleHarmless p rgid offset data := by
  obtain ⟨_, divided, ram, swap, fits, random⟩ := guarded
  have own := System.framesExclusive_of_exclusive ram swap
  have accepted : ¬ offsetRejected (s.procs p) rgid offset = true := by
    rw [(divided p).rejected_iff register]
    omega
  have ready' := ready.ready fits register accepted
  have elsewhere := (divided p).elsewhere register inside
  rw [System.exec_write register accepted, System.exec_setval random, System.StaleHarmless]
  generalize accessAddr ((s.procs p).symrgtbl rgid) offset = addr at ready' elsewhere ⊢
  have mod : ∀ x, x % pagingPagesz < pagingPagesz := fun x => Nat.mod_lt x (by decide)
  constructor
  · intro kept vicpgn fault rgid' register' different x lower upper off notVictim holds
    have served : ¬ unservable (s.procs p) (pagingPgn addr) := by
      rintro ⟨_, none⟩
      cases (faultVictim_eq_some.mp fault).2.symm.trans none
    rw [if_neg served] at kept
    have notTarget := elsewhere rgid' register' different x lower upper off
    have before := System.byteAt_of_ram holds (x % pagingPagesz)
    have after := kept rgid' register' different x lower upper _ before
    have entry := System.entry_bring (g := g) fault (p, x / pagingPagesz)
    rw [if_neg (by simpa using notTarget), if_neg (by simpa using notVictim)] at entry
    rw [System.byteAt_storeRam _ _ _ (pagingOffst_lt addr) (mod x), if_pos ⟨entry ▸ holds, off⟩] at after
    rw [before, after]
  · intro harmless rgid' register' different x lower upper value before
    by_cases stuck : unservable (s.procs p) (pagingPgn addr)
    · rwa [if_pos stuck]
    · rw [if_neg stuck, System.byteAt_storeRam _ _ _ (pagingOffst_lt addr) (mod x)]
      have brought := System.byteAt_bring (g := g) own.ram_injective random ready' (own.kept _) (mod x) before
      split
      · next hit =>
        obtain ⟨holds, off⟩ := hit
        have notTarget := elsewhere rgid' register' different x lower upper off
        cases fault : faultVictim (s.procs p) (pagingPgn addr) with
        | none =>
            -- no fault: the frame is that of the page of the access
            have home := System.bring_home (g := g) stuck (by simp [fault])
            rw [System.bring_of_no_fault fault] at holds home
            have page := own.ram_injective _ _ _ holds home
            rw [Prod.mk.injEq] at page
            exact absurd page.2 notTarget
        | some vicpgn =>
            have entry := System.entry_bring (g := g) fault (p, x / pagingPagesz)
            rw [if_neg (by simpa using notTarget)] at entry
            by_cases victim : x / pagingPagesz = vicpgn
            · rw [if_pos (by rw [victim])] at entry
              rw [entry, ramHolds_pteSetSwap] at holds
              cases holds
            · rw [if_neg (by simpa using victim)] at entry
              rw [← harmless vicpgn fault rgid' register' different x lower upper off victim (entry ▸ holds), before]
      · exact brought

end Write

/-! ## Exact bounds -/

/-- The register names a live region and the offset is inside it. -/
def MmStruct.Inside (mm : MmStruct) (rgid offset : Nat) : Prop :=
  (mm.symrgtbl rgid).rgStart < (mm.symrgtbl rgid).rgEnd ∧
    offset < (mm.symrgtbl rgid).rgEnd - (mm.symrgtbl rgid).rgStart

/-- Accesses inside the region and no others are accepted, a rejected one changes nothing, and an accepted write leaves
the other regions alone. -/
structure System.BoundsExact (behind : System → Label → System) (s : System) (p rgid offset : Nat) (data : Byte)
    (g : Garbage) : Prop where
  read : (pgread (s.caller p) rgid offset g).1 = 0 ↔ (s.procs p).Inside rgid offset
  write : (pgwrite (s.caller p) data rgid offset g).1 = 0 ↔ (s.procs p).Inside rgid offset
  readRejected : (pgread (s.caller p) rgid offset g).1 ≠ 0 → s.execOver behind ⟨p, .read rgid offset, g⟩ = s
  writeRejected : (pgwrite (s.caller p) data rgid offset g).1 ≠ 0 →
    s.execOver behind ⟨p, .write data rgid offset, g⟩ = s
  others : (pgwrite (s.caller p) data rgid offset g).1 = 0 →
    s.OthersKept (s.execOver behind ⟨p, .write data rgid offset, g⟩) p rgid

/-- No address of another register's region is on a page that is in RAM or in the swap. -/
def System.NothingElse (s : System) (p rgid : Nat) : Prop :=
  ∀ rgid' < pagingMaxSymtblSz, rgid' ≠ rgid → ∀ x, ((s.procs p).symrgtbl rgid').rgStart ≤ x →
    x < ((s.procs p).symrgtbl rgid').rgEnd → s.byteAt (p, x / pagingPagesz) (x % pagingPagesz) = none

theorem status_eq_zero_iff {rejected : Bool} : (if rejected then (-1 : Int) else 0) = 0 ↔ rejected = false := by
  cases rejected <;> simp

section Over

variable {s : System} {p rgid offset : Nat} {data : Byte} {g : Garbage}

/-- A write through a frame number outside the RAM can leave anything behind. -/
def System.unmapAll (s : System) (p : Nat) : System :=
  s.put p { s.caller p with mm := { s.procs p with pgd := fun _ => 0#32 } }

theorem System.byteAt_unmapAll (s : System) (p pgn off : Nat) : (s.unmapAll p).byteAt (p, pgn) off = none := by
  have entry : (s.unmapAll p).entry (p, pgn) = 0#32 := by
    rw [System.unmapAll, System.entry, System.tables_put, Function.update_self]
  rw [System.byteAt, entry]
  rfl

theorem System.NothingElse.othersKept (nothing : s.NothingElse p rgid) (s' : System) : s.OthersKept s' p rgid := by
  intro rgid' register different x lower upper value before
  cases (nothing rgid' register different x lower upper).symm.trans before

/-- Whatever lies behind the RAM, the bytes of the other regions stay exactly if the write stays inside the RAM and
hits none of them through the old frame number, or if there are none. -/
theorem System.Guarded.othersKept_over_iff (guarded : s.Guarded) (register : rgid < pagingMaxSymtblSz)
    (inside : offset < ((s.procs p).symrgtbl rgid).rgEnd - ((s.procs p).symrgtbl rgid).rgStart)
    (ready : s.SwapReady ⟨p, .write data rgid offset, g⟩) :
    (∀ behind, s.OthersKept (s.execOver behind ⟨p, .write data rgid offset, g⟩) p rgid) ↔
      s.StaleHarmless p rgid offset data ∧
        (s.StaysInside ⟨p, .write data rgid offset, g⟩ ∨ s.NothingElse p rgid) := by
  have regular : s.Regular ⟨p, .write data rgid offset, g⟩ :=
    regular_access rfl fun index same => Option.some.inj same ▸ register
  have kept := guarded.othersKept_iff register inside ready
  by_cases stays : s.StaysInside ⟨p, .write data rgid offset, g⟩
  · have arrays := guarded.fitted.inArrays regular stays ready.swpfpnInside
    constructor
    · intro all
      have same := all fun s _ => s
      rw [System.execOver_of_inArrays arrays] at same
      exact ⟨kept.mp same, .inl stays⟩
    · rintro ⟨harmless, _⟩ behind
      rw [System.execOver_of_inArrays arrays]
      exact kept.mpr harmless
  · have outside : ¬ s.InArrays ⟨p, .write data rgid offset, g⟩ :=
      fun arrays => stays ⟨arrays.inBlocks.access, trivial⟩
    constructor
    · intro all
      have nothing : s.NothingElse p rgid := by
        intro rgid' register' different x lower upper
        by_contra some
        obtain ⟨value, before⟩ := Option.ne_none_iff_exists'.mp some
        have after := all (fun s _ => s.unmapAll p) rgid' register' different x lower upper value before
        rw [System.execOver_of_outside outside, System.byteAt_unmapAll] at after
        cases after
      exact ⟨kept.mp (nothing.othersKept _), .inr nothing⟩
    · rintro ⟨_, stays' | nothing⟩ behind
      · exact absurd stays' stays
      · exact nothing.othersKept _

end Over

/-- The bounds are exact unless the offset is the size of the region, or the write goes through the old frame number to
another region or out of the RAM. -/
theorem boundsExact_iff {elsewhere : System → Label → System} {s : System}
    (reachable : Reach (System.StepOver elsewhere) System.Careful System.RandomBoot s)
    {p rgid : Nat} (register : rgid < pagingMaxSymtblSz) {offset : Nat} {data : Byte} {g : Garbage}
    (ready : s.SwapReady ⟨p, .write data rgid offset, g⟩) :
    (∀ behind, s.BoundsExact behind p rgid offset data g) ↔
      offset ≠ ((s.procs p).symrgtbl rgid).rgEnd - ((s.procs p).symrgtbl rgid).rgStart ∧
        (offset < ((s.procs p).symrgtbl rgid).rgEnd - ((s.procs p).symrgtbl rgid).rgStart →
          s.StaleHarmless p rgid offset data ∧
            (s.StaysInside ⟨p, .write data rgid offset, g⟩ ∨ s.NothingElse p rgid)) := by
  have guarded := reachable_guarded reachable
  have rejected : offsetRejected (s.caller p).mm rgid offset = true ↔
      ((s.procs p).symrgtbl rgid).rgEnd - ((s.procs p).symrgtbl rgid).rgStart < offset :=
    (guarded.divided p).rejected_iff register
  have accepted : offsetRejected (s.caller p).mm rgid offset = false ↔
      offset ≤ ((s.procs p).symrgtbl rgid).rgEnd - ((s.procs p).symrgtbl rgid).rgStart := by
    rw [← Bool.not_eq_true, rejected, Nat.not_lt]
  have readStatus : (pgread (s.caller p) rgid offset g).1 = 0 ↔
      offset ≤ ((s.procs p).symrgtbl rgid).rgEnd - ((s.procs p).symrgtbl rgid).rgStart := by
    rw [pgread_status register]
    exact status_eq_zero_iff.trans accepted
  have writeStatus : (pgwrite (s.caller p) data rgid offset g).1 = 0 ↔
      offset ≤ ((s.procs p).symrgtbl rgid).rgEnd - ((s.procs p).symrgtbl rgid).rgStart := by
    rw [pgwrite_status register]
    exact status_eq_zero_iff.trans accepted
  have inside : (s.procs p).Inside rgid offset ↔
      offset < ((s.procs p).symrgtbl rgid).rgEnd - ((s.procs p).symrgtbl rgid).rgStart := by
    rw [MmStruct.Inside]
    omega
  constructor
  · intro bounds
    have same := readStatus.symm.trans ((bounds fun s _ => s).read.trans inside)
    refine ⟨by omega, fun below => ?_⟩
    exact (guarded.othersKept_over_iff register below ready).mp
      fun behind => (bounds behind).others (writeStatus.mpr below.le)
  · rintro ⟨different, harmless⟩ behind
    have registers : ∀ i ∈ [rgid], i < pagingMaxSymtblSz := fun i member => List.mem_singleton.mp member ▸ register
    have refused : ¬ offset ≤ ((s.procs p).symrgtbl rgid).rgEnd - ((s.procs p).symrgtbl rgid).rgStart →
        offsetRejected (s.procs p) rgid offset = true :=
      fun above => rejected.mpr (Nat.lt_of_not_le above)
    refine ⟨?_, ?_, ?_, ?_, ?_⟩
    · rw [readStatus, inside]
      omega
    · rw [writeStatus, inside]
      omega
    · intro failed
      exact System.execOver_of_no_target (l := ⟨p, .read rgid offset, g⟩) rfl registers
        (if_pos (refused (mt readStatus.mpr failed))) behind
    · intro failed
      exact System.execOver_of_no_target (l := ⟨p, .write data rgid offset, g⟩) rfl registers
        (if_pos (refused (mt writeStatus.mpr failed))) behind
    · intro granted
      have below := Nat.lt_of_le_of_ne (writeStatus.mp granted) different
      exact (guarded.othersKept_over_iff register below ready).mpr (harmless below) behind

/-- The registers 0 and 1 hold a page each. -/
def twoRegions : System :=
  (tinyBoot.exec ⟨0, .alloc 256 0, noGarbage⟩).exec ⟨0, .alloc 256 1, noGarbage⟩

theorem twoRegions_careful (elsewhere : System → Label → System) :
    Reach (System.StepOver elsewhere) System.Careful System.RandomBoot twoRegions := by
  have start : tinyBoot.RandomBoot :=
    ⟨bootSystem_boot zeroBlock_zero _ _ _, bootSystem_inDevices _ _ _ _,
      bootSystem_addressable (by decide) (by decide) _ _, ⟨rfl, rfl⟩⟩
  have first : tinyBoot.InArrays ⟨0, .alloc 256 0, noGarbage⟩ := by decide +kernel
  have second : (tinyBoot.exec ⟨0, .alloc 256 0, noGarbage⟩).InArrays ⟨0, .alloc 256 1, noGarbage⟩ := by
    decide +kernel
  refine .step (.step (.start start) ⟨?_, staysInside_alloc _ _ _ _ _, fun fault => absurd rfl fault⟩
    (System.execOver_of_inArrays first elsewhere).symm) ⟨?_, staysInside_alloc _ _ _ _ _, fun fault => absurd rfl fault⟩
    (System.execOver_of_inArrays second elsewhere).symm
  · exact regular_alloc (by decide) (by decide) (by decide)
  · exact regular_alloc (by decide) (by decide) (by decide)

theorem twoRegions_boundsExact : twoRegions.BoundsExact (tableBehind 8176) 0 0 255 9 noGarbage := by
  have quiet : twoRegions.fault ⟨0, .write 9 0 255, noGarbage⟩ = none := by decide
  have present : faultVictim (twoRegions.procs 0) (pagingPgn (accessAddr ((twoRegions.procs 0).symrgtbl 0) 255)) =
      none := by decide
  have stays : twoRegions.StaysInside ⟨0, .write 9 0 255, noGarbage⟩ := ⟨by decide, trivial⟩
  refine (boundsExact_iff (twoRegions_careful (tableBehind 8176)) (by decide) fun fault => absurd quiet fault).mpr
    ⟨by decide, fun _ => ⟨?_, .inl stays⟩⟩ (tableBehind 8176)
  intro vicpgn fault
  cases present.symm.trans fault

/-- With the size of the first region as offset, the write goes to the first byte of the second region. -/
theorem twoRegions_not_boundsExact :
    Reach (System.StepOver (tableBehind 8176)) System.Careful System.RandomBoot twoRegions ∧
      ¬ twoRegions.BoundsExact (tableBehind 8176) 0 0 256 9 noGarbage ∧
      twoRegions.InArrays ⟨0, .write 9 0 256, noGarbage⟩ ∧
      twoRegions.byteAt (0, 1) 0 = some 0 ∧
      (twoRegions.exec ⟨0, .write 9 0 256, noGarbage⟩).byteAt (0, 1) 0 = some 9 := by
  refine ⟨twoRegions_careful _, ?_, by decide +kernel, by decide, by decide⟩
  intro bounds
  have granted : (pgwrite (twoRegions.caller 0) 9 0 256 noGarbage).1 = 0 := by decide
  exact absurd (bounds.write.mp granted).2 (by decide)

end OsSim.Paging
