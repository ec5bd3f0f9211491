import OsSim.Paging.Effect

namespace OsSim.Paging

/-! ## Instructions -/

inductive Opcode
  | «calc» | alloc | free | read | write
deriving DecidableEq

structure Inst where
  opcode : Opcode
  arg0 : Nat
  arg1 : Nat
  arg2 : Nat

structure Pcb where
  code : List Inst
  pc : Nat
  caller : Caller

def «calc» (_proc : Pcb) : Int := 0

/-- The parameter `data` of `pgwrite` is a byte. -/
def Inst.data (ins : Inst) : Byte := BitVec.ofNat 8 ins.arg0

/-- The status and the pcb after the call. The branch `default` is left out: `get_opcode` returns no other opcode. -/
def Pcb.run (proc : Pcb) (g : Garbage) : Int × Pcb :=
  match proc.code[proc.pc]? with
  | none => (1, proc)
  | some ins =>
      let proc := { proc with pc := proc.pc + 1 }
      match ins.opcode with
      | .«calc» => («calc» proc, proc)
      | .alloc =>
          let (stat, caller) := pgalloc proc.caller ins.arg0 ins.arg1
          (stat, { proc with caller })
      | .free =>
          let (stat, caller) := pgfreeData proc.caller ins.arg0 g
          (stat, { proc with caller })
      | .read =>
          let (stat, _, caller) := pgread proc.caller ins.arg0 ins.arg1 g
          (stat, { proc with caller })
      | .write =>
          let (stat, caller) := pgwrite proc.caller ins.data ins.arg1 ins.arg2 g
          (stat, { proc with caller })

/-! ## The calls of a process -/

def Inst.call (ins : Inst) : Option Call :=
  match ins.opcode with
  | .«calc» => none
  | .alloc => some (.alloc ins.arg0 ins.arg1)
  | .free => some (.free ins.arg0)
  | .read => some (.read ins.arg0 ins.arg1)
  | .write => some (.write ins.data ins.arg1 ins.arg2)

/-- What a call returns, -1 where `pgGetpage` fails. -/
def Call.status (caller : Caller) (g : Garbage) : Call → Int
  | .alloc size regIndex => (pgalloc caller size regIndex).1
  | .free regIndex => (pgfreeData caller regIndex g).1
  | .read source offset => (pgread caller source offset g).1
  | .write data destination offset => (pgwrite caller data destination offset g).1
  | .getval addr => if unservable caller.mm (pagingPgn addr) then -1 else 0
  | .setval addr _ => if unservable caller.mm (pagingPgn addr) then -1 else 0

/-- The register of the region that a READ or WRITE accesses. -/
def Call.accessed : Call → Option Nat
  | .read source _ => some source
  | .write _ destination _ => some destination
  | _ => none

/-- An instruction does to the memory what its call does, and reports its status. -/
theorem Pcb.run_eq {proc : Pcb} {ins : Inst} (fetched : proc.code[proc.pc]? = some ins) (g : Garbage) :
    proc.run g =
      match ins.call with
      | none => (0, { proc with pc := proc.pc + 1 })
      | some call =>
          (call.status proc.caller g, { proc with pc := proc.pc + 1, caller := call.exec proc.caller g }) := by
  rw [Pcb.run, fetched, Inst.call]
  dsimp only
  cases ins.opcode <;> rfl

theorem System.put_run (s : System) (p : Nat) {code : List Inst} {pc : Nat} {ins : Inst} {call : Call}
    (fetched : code[pc]? = some ins) (calls : ins.call = some call) (g : Garbage) :
    s.put p ((Pcb.mk code pc (s.caller p)).run g).2.caller = s.exec ⟨p, call, g⟩ := by
  rw [Pcb.run_eq fetched, calls]
  rfl

/-- The status of an access tells whether the bounds check let it through, and nothing about `pgGetpage`. -/
theorem Call.status_eq_zero_iff (call : Call) {caller : Caller} (region : call.accessed ≠ none) (g : Garbage) :
    call.status caller g = 0 ↔ call.target caller.mm ≠ none := by
  cases call with
  | alloc size regIndex => exact absurd rfl region
  | free regIndex => exact absurd rfl region
  | getval addr => exact absurd rfl region
  | setval addr value => exact absurd rfl region
  | read source offset =>
      rw [Call.status, Call.target, pgread]
      by_cases rejected : offsetRejected caller.mm source offset = true
      · simp [rejected]
      · cases currg : getSymrgByid caller.mm source <;>
          simp [rejected, Paging.read, currg, MmStruct.areas, getVmaByNum]
  | write data destination offset =>
      rw [Call.status, Call.target, pgwrite]
      by_cases rejected : offsetRejected caller.mm destination offset = true
      · simp [rejected]
      · cases currg : getSymrgByid caller.mm destination <;>
          simp [rejected, Paging.write, currg, MmStruct.areas, getVmaByNum]

end OsSim.Paging
