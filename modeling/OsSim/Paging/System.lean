import OsSim.Lib.Transition
import OsSim.Paging.Vm

namespace OsSim.Paging

/-- Any number of processes, each with its memory, and the two devices that all of them share. -/
structure System where
  procs : Nat → MmStruct
  mram : Memphy
  activeMswp : Memphy

def System.caller (s : System) (p : Nat) : Caller := ⟨s.procs p, s.mram, s.activeMswp⟩

def System.put (s : System) (p : Nat) (caller : Caller) : System :=
  ⟨Function.update s.procs p caller.mm, caller.mram, caller.activeMswp⟩

inductive Call
  | alloc (size regIndex : Nat)
  | free (regIndex : Nat)
  | read (source offset : Nat)
  | write (data : Byte) (destination offset : Nat)
  | getval (addr : BitVec 32)
  | setval (addr : BitVec 32) (value : Byte)

/-- One call of the process `p`; `g` is what its uninitialised variables hold. -/
structure Label where
  p : Nat
  call : Call
  g : Garbage

def Call.exec (caller : Caller) (g : Garbage) : Call → Caller
  | .alloc size regIndex => (pgalloc caller size regIndex).2
  | .free regIndex => (pgfreeData caller regIndex g).2
  | .read source offset => (pgread caller source offset g).2.2
  | .write data destination offset => (pgwrite caller data destination offset g).2
  | .getval addr => ((pgGetval caller addr g).map Prod.snd).getD caller
  | .setval addr value => (pgSetval caller addr value g).getD caller

def System.exec (s : System) (l : Label) : System :=
  s.put l.p (l.call.exec (s.caller l.p) l.g)

def System.Step (s : System) (l : Label) (s' : System) : Prop := s' = s.exec l

@[simp] theorem System.mram_put (s : System) (p : Nat) (caller : Caller) :
    (s.put p caller).mram = caller.mram := rfl

@[simp] theorem System.procs_put (s : System) (p : Nat) (caller : Caller) :
    (s.put p caller).procs p = caller.mm := by
  simp [System.put]

theorem System.procs_put_of_ne (s : System) {p q : Nat} (caller : Caller) (other : q ≠ p) :
    (s.put p caller).procs q = s.procs q := by
  simp [System.put, other]

@[simp] theorem System.put_caller (s : System) (p : Nat) : s.put p (s.caller p) = s := by
  simp [System.put, System.caller]

/-- The state after boot: each process has an empty memory, and no frame is twice on a free list. -/
structure System.Boot (s : System) : Prop where
  procs : ∀ p, ∃ block, ZeroBlock block ∧ s.procs p = initMm block
  mram : s.mram.freeFpList.Nodup
  activeMswp : s.activeMswp.freeFpList.Nodup

/-- The system that `main` sets up over a RAM and a swap of the given sizes. -/
def bootSystem (block : MmStruct) (storage : Nat → Byte) (memramsz memswpsz : Nat) : System :=
  { procs := fun _ => initMm block
    mram := initMemphy storage memramsz true
    activeMswp := initMemphy storage memswpsz true }

theorem bootSystem_boot {block : MmStruct} (zero : ZeroBlock block) (storage : Nat → Byte)
    (memramsz memswpsz : Nat) : (bootSystem block storage memramsz memswpsz).Boot :=
  ⟨fun _ => ⟨block, zero, rfl⟩, List.nodup_range, List.nodup_range⟩

def zeroBlock : MmStruct :=
  { pgd := fun _ => 0#32
    mmap := { vmStart := 0, vmEnd := 0, sbrk := 0, vmFreergList := none }
    symrgtbl := fun _ => ⟨0, 0⟩
    fifoPgn := []
    rgNodes := { cell := fun _ => ⟨⟨0, 0⟩, none⟩, live := fun _ => false, fresh := 0, misused := false } }

def noGarbage : Garbage := ⟨0, 0, none⟩

theorem zeroBlock_zero : ZeroBlock zeroBlock := ⟨fun _ => rfl, rfl, fun _ _ => rfl, rfl, rfl⟩

/-! ## The address that an access uses -/

/-- The page and the byte of the page that a call touches, if its bounds check lets it through. -/
def Call.target (mm : MmStruct) : Call → Option (BitVec 32)
  | .read source offset | .write _ source offset =>
      if offsetRejected mm source offset then none
      else (getSymrgByid mm source).map fun rg => accessAddr rg offset
  | .getval addr | .setval addr _ => some addr
  | .alloc _ _ | .free _ => none

def Call.isAccess : Call → Bool
  | .alloc _ _ | .free _ => false
  | _ => true

theorem Call.access_or (call : Call) :
    call.isAccess = true ∨ (∃ size regIndex, call = .alloc size regIndex) ∨ ∃ regIndex, call = .free regIndex := by
  cases call <;> simp [Call.isAccess]

theorem Call.alloc_or (call : Call) :
    (∃ size regIndex, call = .alloc size regIndex) ∨ ∀ size regIndex, call ≠ .alloc size regIndex := by
  cases call <;> simp

theorem System.exec_procs (good : MmStruct → Prop) {s : System} {l : Label} (all : ∀ p, good (s.procs p))
    (mine : good (l.call.exec (s.caller l.p) l.g).mm) (p : Nat) : good ((s.exec l).procs p) := by
  by_cases same : p = l.p
  · rw [same, System.exec, System.procs_put]
    exact mine
  · rw [System.exec, s.procs_put_of_ne _ same]
    exact all p

end OsSim.Paging
