import OsSim.Paging.Effect

namespace OsSim.Paging
open Transition

/-! ## What a call accesses -/

def Call.index : Call → Option Nat
  | .alloc _ regIndex | .free regIndex => some regIndex
  | .read source _ => some source
  | .write _ destination _ => some destination
  | .getval _ | .setval _ _ => none

/-- The entries of `symrgtbl` that a call reads or writes. `pgalloc` writes its entry on each path, `pgread` and
`pgwrite` read theirs for the bounds check before `getSymrgByid` looks at the index, and `free` looks at it first. -/
def Call.registers : Call → List Nat
  | .alloc _ regIndex => [regIndex]
  | .free regIndex => if regIndex > pagingMaxSymtblSz then [] else [regIndex]
  | .read source _ => [source]
  | .write _ destination _ => [destination]
  | .getval _ | .setval _ _ => []

/-- The RAM address that `pgGetval` or `pgSetval` uses. -/
def Call.physical (caller : Caller) (g : Garbage) (call : Call) : Option Nat :=
  (call.target caller.mm).bind fun addr =>
    (pgGetpage caller (pagingPgn addr) g).map fun page => phyaddr page.1 (pagingOffst addr)

def Call.stores : Call → Option Byte
  | .write data _ _ => some data
  | .setval _ value => some value
  | _ => none

theorem phyaddr_eq (fpn off : Nat) : phyaddr fpn off = fpn * pagingPagesz + off := by
  have shift : pagingAddrFpnLobit = 8 := by decide
  rw [phyaddr, shift, Nat.shiftLeft_eq]
  rfl

theorem phyaddr_div (fpn : Nat) (addr : BitVec 32) :
    phyaddr fpn (pagingOffst addr) / pagingPagesz = fpn := by
  have inside := pagingOffst_lt addr
  rw [phyaddr_eq]
  simp only [pagingPagesz] at inside ⊢
  omega

theorem Call.physical_of_target {caller : Caller} {call : Call} {addr : BitVec 32}
    (aimed : call.target caller.mm = some addr) (g : Garbage) :
    call.physical caller g =
      if unservable caller.mm (pagingPgn addr) then none
      else some (phyaddr (pagingFpn (caller.mm.pgd (pagingPgn addr))) (pagingOffst addr)) := by
  rw [Call.physical, aimed, Option.bind_some, pgGetpage_eq]
  split <;> rfl

theorem Call.physical_eq_some {caller : Caller} {g : Garbage} {call : Call} {addr : Nat}
    (touched : call.physical caller g = some addr) :
    ∃ vaddr, call.target caller.mm = some vaddr ∧ ¬ unservable caller.mm (pagingPgn vaddr) ∧
      addr = phyaddr (pagingFpn (caller.mm.pgd (pagingPgn vaddr))) (pagingOffst vaddr) := by
  cases aimed : call.target caller.mm with
  | none => simp [Call.physical, aimed] at touched
  | some vaddr =>
      rw [Call.physical_of_target aimed] at touched
      by_cases stuck : unservable caller.mm (pagingPgn vaddr)
      · simp [stuck] at touched
      · rw [if_neg stuck, Option.some.injEq] at touched
        exact ⟨vaddr, rfl, stuck, touched.symm⟩

def System.fault (s : System) (l : Label) : Option (Nat × Nat) := l.call.fault (s.procs l.p)

/-! ## Calls that stay inside -/

/-- The step writes no element outside `symrgtbl` and `pgd`: what lies behind these arrays is not followed
here. -/
def System.InBounds (s : System) (l : Label) : Prop :=
  match l.call with
  | .alloc size regIndex =>
      regIndex < pagingMaxSymtblSz ∧
        pagingPgn (BitVec.ofInt 32 (cint (s.procs l.p).mmap.vmEnd)) +
          (allocRequest (s.procs l.p) (cint size)).toNat < pagingMaxPgn
  | .free regIndex => regIndex ≠ pagingMaxSymtblSz
  | _ => True

instance (s : System) (l : Label) : Decidable (s.InBounds l) :=
  match l with
  | ⟨_, .alloc _ _, _⟩ => inferInstanceAs (Decidable (_ ∧ _))
  | ⟨_, .free _, _⟩ => inferInstanceAs (Decidable (_ ≠ _))
  | ⟨_, .read _ _, _⟩ | ⟨_, .write _ _ _, _⟩ | ⟨_, .getval _, _⟩ | ⟨_, .setval _ _, _⟩ =>
      inferInstanceAs (Decidable True)

/-- The access and the two copies of a page fault stay inside the storage of the devices. -/
structure System.InBlocks (s : System) (l : Label) : Prop where
  access : ∀ addr ∈ l.call.physical (s.caller l.p) l.g, addr < s.mram.maxsz
  vicfpn : ∀ served ∈ s.fault l, pagingFpn ((s.procs l.p).pgd served.2) < s.mram.maxsz / pagingPagesz
  swpfpn : s.fault l ≠ none → faultSwpfpn (s.caller l.p) l.g < s.activeMswp.maxsz / pagingPagesz
  tgtfpn : ∀ served ∈ s.fault l, pagingSwp ((s.procs l.p).pgd served.1) < s.activeMswp.maxsz / pagingPagesz

instance (s : System) (l : Label) : Decidable (s.InBlocks l) :=
  decidable_of_iff (_ ∧ _ ∧ _ ∧ _)
    ⟨fun ⟨access, vicfpn, swpfpn, tgtfpn⟩ => ⟨access, vicfpn, swpfpn, tgtfpn⟩,
      fun inside => ⟨inside.access, inside.vicfpn, inside.swpfpn, inside.tgtfpn⟩⟩

/-- The registers of the call are inside `symrgtbl`, and its accesses inside the storage of the devices. -/
structure System.InMemory (s : System) (l : Label) : Prop where
  registers : ∀ i ∈ l.call.registers, i < pagingMaxSymtblSz
  inBlocks : s.InBlocks l

/-- The step accesses no element outside an array, no byte outside the storage of a device and no freed node of a
free region list. -/
structure System.InArrays (s : System) (l : Label) : Prop where
  registers : ∀ i ∈ l.call.registers, i < pagingMaxSymtblSz
  inBounds : s.InBounds l
  inBlocks : s.InBlocks l
  nodes : ((s.exec l).procs l.p).rgNodes.misused = (s.procs l.p).rgNodes.misused

instance (s : System) (l : Label) : Decidable (s.InArrays l) :=
  decidable_of_iff (_ ∧ _ ∧ _ ∧ _)
    ⟨fun ⟨registers, inBounds, inBlocks, nodes⟩ => ⟨registers, inBounds, inBlocks, nodes⟩,
      fun inside => ⟨inside.registers, inside.inBounds, inside.inBlocks, inside.nodes⟩⟩

/-- One call of the program with its accesses outside. What these hit depends on where `malloc` put the arrays and
the blocks: `behind` gives the state that they leave. -/
def System.execOver (behind : System → Label → System) (s : System) (l : Label) : System :=
  if s.InArrays l then s.exec l else behind s l

def System.StepOver (behind : System → Label → System) (s : System) (l : Label) (s' : System) : Prop :=
  s' = s.execOver behind l

theorem System.execOver_of_inArrays {s : System} {l : Label} (inside : s.InArrays l)
    (behind : System → Label → System) : s.execOver behind l = s.exec l :=
  if_pos inside

theorem System.execOver_of_outside {s : System} {l : Label} (outside : ¬ s.InArrays l)
    (behind : System → Label → System) : s.execOver behind l = behind s l :=
  if_neg outside

theorem System.run_execOver {behind : System → Label → System} {s : System} {labels : List Label}
    (inside : Along (System.execOver behind) System.InArrays s labels) :
    run (System.execOver behind) s labels = run System.exec s labels :=
  inside.run_eq fun _ _ arrays => System.execOver_of_inArrays arrays behind

theorem System.exec_of_no_target {s : System} {l : Label} (access : l.call.isAccess = true)
    (none : l.call.target (s.procs l.p) = none) : s.exec l = s := by
  have none' : l.call.target (s.caller l.p).mm = Option.none := none
  have quiet : l.call.paging (s.caller l.p) l.g = s.caller l.p := by
    cases call : l.call with
    | alloc | free =>
        rw [call] at access
        cases access
    | read | write | getval | setval =>
        rw [call] at none'
        simp only [Call.paging, none']
  rcases Call.exec_access (s.caller l.p) l.g access with brought | ⟨addr, _, aimed, _⟩
  · rw [System.exec, brought, quiet, System.put_caller]
  · rw [none'] at aimed
    cases aimed

/-- A call that the bounds check stops accesses nothing but its register. -/
theorem System.execOver_of_no_target {s : System} {l : Label} (access : l.call.isAccess = true)
    (registers : ∀ i ∈ l.call.registers, i < pagingMaxSymtblSz) (none : l.call.target (s.procs l.p) = none)
    (behind : System → Label → System) : s.execOver behind l = s := by
  have still := System.exec_of_no_target access none
  have none' : l.call.target (s.caller l.p).mm = Option.none := none
  have quiet : s.fault l = Option.none := by rw [System.fault, Call.fault, none, Option.bind_none]
  have inside : s.InArrays l := by
    refine ⟨registers, ?_, ⟨?_, ?_, ?_, ?_⟩, by rw [still]⟩
    · unfold System.InBounds
      cases call : l.call <;> simp_all [Call.isAccess]
    · simp [Call.physical, none']
    · simp [quiet]
    · exact fun faults => absurd quiet faults
    · simp [quiet]
  rw [System.execOver_of_inArrays inside, still]

/-- A call without a page fault and without an access leaves the devices alone. -/
theorem System.inBlocks_of_no_access {s : System} {l : Label} (still : l.call.isAccess = false) : s.InBlocks l := by
  have untargeted : ∀ mm, l.call.target mm = none := by
    intro mm
    cases call : l.call <;> simp_all [Call.isAccess, Call.target]
  have quiet : s.fault l = none := by simp [System.fault, Call.fault, untargeted]
  refine ⟨?_, ?_, ?_, ?_⟩
  · simp [Call.physical, untargeted]
  · simp [quiet]
  · exact fun fault => absurd quiet fault
  · simp [quiet]

end OsSim.Paging
