import OsSim.Paging.Cpu
import OsSim.Paging.Replacement

namespace OsSim.Paging
open Transition

/-! ## Accesses that go to the frame of their page -/

/-- Bringing in the page leaves it in the frame whose number its entry held before. -/
def MmStruct.KeepsFrame (mm : MmStruct) (pgn : Nat) : Prop :=
  pagingPagePresent (mm.pgd pgn) = true ∨
    ∃ vicpgn, findVictimPage mm = some vicpgn ∧ pagingFpn (mm.pgd pgn) = pagingFpn (mm.pgd vicpgn)

/-- The byte `data` is in the RAM at the address that the access uses, and the address is in the frame of the page. -/
def Call.Transferred (caller : Caller) (g : Garbage) (call : Call) (data : Byte) : Prop :=
  ∃ vaddr addr, call.target caller.mm = some vaddr ∧ call.physical caller g = some addr ∧
    ramHolds ((call.exec caller g).mm.pgd (pagingPgn vaddr)) = some (addr / pagingPagesz) ∧
    (call.exec caller g).mram.storage addr = data

/-- The instruction reports success only for a byte that was transferred, and reports a failure of `pgGetpage`. -/
structure Inst.Honest (ins : Inst) (proc : Pcb) (g : Garbage) : Prop where
  read : ins.opcode = .read → (pgread proc.caller ins.arg0 ins.arg1 g).1 = 0 →
    (Call.read ins.arg0 ins.arg1).Transferred proc.caller g (pgread proc.caller ins.arg0 ins.arg1 g).2.1
  write : ins.opcode = .write → (pgwrite proc.caller ins.data ins.arg1 ins.arg2 g).1 = 0 →
    (Call.write ins.data ins.arg1 ins.arg2).Transferred proc.caller g ins.data
  run : ∀ call vaddr, ins.call = some call → call.target proc.caller.mm = some vaddr →
    pgGetpage proc.caller (pagingPgn vaddr) g = none → (proc.run g).1 ≠ 0

/-- The instruction that `run` executes next is honest. -/
def Pcb.Honest (proc : Pcb) (g : Garbage) : Prop :=
  ∀ ins, proc.code[proc.pc]? = some ins → ins.Honest proc g

section Access

variable {caller : Caller} {g : Garbage} {pgn : Nat}

theorem MmStruct.KeepsFrame.served {mm : MmStruct} (keeps : mm.KeepsFrame pgn) : ¬ unservable mm pgn := by
  rintro ⟨absent, none⟩
  rcases keeps with present | ⟨vicpgn, found, _⟩
  · cases absent.symm.trans present
  · cases none.symm.trans found

/-- `pgGetpage` returns the frame number of the entry as it was before the page was brought in. -/
theorem ramHolds_afterGetpage (served : ¬ unservable caller.mm pgn) :
    ramHolds ((afterGetpage caller pgn g).mm.pgd pgn) = some (pagingFpn (caller.mm.pgd pgn)) ↔
      caller.mm.KeepsFrame pgn := by
  cases present : pagingPagePresent (caller.mm.pgd pgn) with
  | true =>
      have still : faultVictim caller.mm pgn = none := if_pos present
      rw [afterGetpage, still]
      exact iff_of_true (ramHolds_eq_some.mpr ⟨present, rfl⟩) (.inl present)
  | false =>
      obtain ⟨vicpgn, found⟩ := Option.ne_none_iff_exists'.mp fun none => served ⟨present, none⟩
      have fault : faultVictim caller.mm pgn = some vicpgn := faultVictim_eq_some.mpr ⟨present, found⟩
      rw [afterGetpage, fault]
      dsimp only
      rw [swapPage_pgd caller g (ne_of_faultVictim fault), Function.update_self,
        ramHolds_pteSetFpn _ (pagingFpn_lt _), Option.some.injEq]
      constructor
      · exact fun same => .inr ⟨vicpgn, found, same.symm⟩
      · rintro (here | ⟨vicpgn', found', same⟩)
        · cases present.symm.trans here
        · cases found.symm.trans found'
          exact same.symm

theorem Call.transferred_iff {call : Call} {data : Byte} {vaddr : BitVec 32} (region : call.accessed ≠ none)
    (aimed : call.target caller.mm = some vaddr)
    (moved : ∀ addr, call.physical caller g = some addr → (call.exec caller g).mram.storage addr = data) :
    call.Transferred caller g data ↔ caller.mm.KeepsFrame (pagingPgn vaddr) := by
  have paging : call.paging caller g = afterGetpage caller (pagingPgn vaddr) g := by
    cases call with
    | alloc size regIndex => exact absurd rfl region
    | _ => simp only [Call.paging, aimed]
  have entry : ramHolds ((call.exec caller g).mm.pgd (pagingPgn vaddr)) =
      ramHolds ((afterGetpage caller (pagingPgn vaddr) g).mm.pgd (pagingPgn vaddr)) := by
    rw [(call.exec_samePaging caller g).pgd, paging]
  constructor
  · rintro ⟨vaddr', addr, aimed', touched, holds, _⟩
    cases aimed.symm.trans aimed'
    obtain ⟨vaddr', aimed', served, rfl⟩ := Call.physical_eq_some touched
    cases aimed.symm.trans aimed'
    rw [entry, phyaddr_div] at holds
    exact (ramHolds_afterGetpage served).mp holds
  · intro keeps
    have touched : call.physical caller g =
        some (phyaddr (pagingFpn (caller.mm.pgd (pagingPgn vaddr))) (pagingOffst vaddr)) := by
      rw [Call.physical_of_target aimed, if_neg keeps.served]
    refine ⟨vaddr, _, aimed, touched, ?_, moved _ touched⟩
    rw [entry, phyaddr_div]
    exact (ramHolds_afterGetpage keeps.served).mpr keeps

theorem pgGetpage_ne_none (keeps : caller.mm.KeepsFrame pgn) : pgGetpage caller pgn g ≠ none := by
  rw [pgGetpage_eq, if_neg keeps.served]
  nofun

end Access

/-! ## Instructions -/

theorem Inst.honest_iff (ins : Inst) {proc : Pcb} (random : proc.caller.mram.rdmflg = true) (g : Garbage) :
    ins.Honest proc g ↔ ∀ call vaddr, ins.call = some call → call.target proc.caller.mm = some vaddr →
      proc.caller.mm.KeepsFrame (pagingPgn vaddr) := by
  have reads : ∀ vaddr, (Call.read ins.arg0 ins.arg1).target proc.caller.mm = some vaddr →
      ((Call.read ins.arg0 ins.arg1).Transferred proc.caller g (pgread proc.caller ins.arg0 ins.arg1 g).2.1 ↔
        proc.caller.mm.KeepsFrame (pagingPgn vaddr)) :=
    fun vaddr aimed => Call.transferred_iff nofun aimed fun addr touched => (pgread_byte random touched).symm
  have writes : ∀ vaddr, (Call.write ins.data ins.arg1 ins.arg2).target proc.caller.mm = some vaddr →
      ((Call.write ins.data ins.arg1 ins.arg2).Transferred proc.caller g ins.data ↔
        proc.caller.mm.KeepsFrame (pagingPgn vaddr)) :=
    fun vaddr aimed => Call.transferred_iff nofun aimed fun addr touched => pgwrite_byte random touched
  have readStatus : (Call.read ins.arg0 ins.arg1).status proc.caller g = 0 ↔
      (Call.read ins.arg0 ins.arg1).target proc.caller.mm ≠ none :=
    (Call.read ins.arg0 ins.arg1).status_eq_zero_iff nofun g
  have writeStatus : (Call.write ins.data ins.arg1 ins.arg2).status proc.caller g = 0 ↔
      (Call.write ins.data ins.arg1 ins.arg2).target proc.caller.mm ≠ none :=
    (Call.write ins.data ins.arg1 ins.arg2).status_eq_zero_iff nofun g
  constructor
  · intro honest call vaddr calls aimed
    have some : call.target proc.caller.mm ≠ none := by
      rw [aimed]
      nofun
    cases opcode : ins.opcode <;> simp only [Inst.call, opcode, Option.some.injEq, reduceCtorEq] at calls <;> subst calls
    case alloc | free => cases aimed
    case read => exact (reads vaddr aimed).mp (honest.read opcode (readStatus.mpr some))
    case write => exact (writes vaddr aimed).mp (honest.write opcode (writeStatus.mpr some))
  · intro keeps
    refine ⟨?_, ?_, ?_⟩
    · intro opcode success
      obtain ⟨vaddr, aimed⟩ := Option.ne_none_iff_exists'.mp (readStatus.mp success)
      exact (reads vaddr aimed).mpr (keeps _ vaddr (by rw [Inst.call, opcode]) aimed)
    · intro opcode success
      obtain ⟨vaddr, aimed⟩ := Option.ne_none_iff_exists'.mp (writeStatus.mp success)
      exact (writes vaddr aimed).mpr (keeps _ vaddr (by rw [Inst.call, opcode]) aimed)
    · intro call vaddr calls aimed failed
      exact absurd failed (pgGetpage_ne_none (keeps call vaddr calls aimed))

/-- In every state after calls inside the arrays, `run` is honest exactly if the instruction makes no access, or its
bounds check stops it, or the page is present, or its entry holds the number of the frame that the victim gives up. -/
theorem reachable_honest_iff {behind : System → Label → System} {s : System}
    (reachable : Reach (System.StepOver behind) System.InArrays (fun s => s.Boot ∧ s.Random) s)
    {code : List Inst} {pc : Nat} (_registers : ∀ ins call, code[pc]? = some ins → ins.call = some call →
      ∀ i ∈ call.registers, i < pagingMaxSymtblSz) (p : Nat) (g : Garbage) :
    (Pcb.mk code pc (s.caller p)).Honest g ↔
      ∀ ins call vaddr, code[pc]? = some ins → ins.call = some call → call.target (s.procs p) = some vaddr →
        (s.procs p).KeepsFrame (pagingPgn vaddr) := by
  have random : s.Random := by
    refine reachable.invariant (fun s start => start.2) ?_
    rintro s l s' random inside rfl
    rw [System.execOver_of_inArrays inside]
    exact random.exec l
  have honest : ∀ ins : Inst, ins.Honest ⟨code, pc, s.caller p⟩ g ↔ ∀ call vaddr, ins.call = some call →
      call.target (s.procs p) = some vaddr → (s.procs p).KeepsFrame (pagingPgn vaddr) :=
    fun ins => ins.honest_iff random.mram g
  constructor
  · exact fun all ins call vaddr fetched => (honest ins).mp (all ins fetched) call vaddr
  · exact fun keeps ins fetched => (honest ins).mpr fun call vaddr => keeps ins call vaddr fetched

theorem tinySystem_honest_iff :
    (Pcb.mk [⟨.read, 0, 512, 0⟩] 0 (tinySystem.caller 0)).Honest noGarbage ↔
      ∀ ins call vaddr, [Inst.mk .read 0 512 0][0]? = some ins → ins.call = some call →
        call.target (tinySystem.procs 0) = some vaddr → (tinySystem.procs 0).KeepsFrame (pagingPgn vaddr) := by
  have alloc : tinyBoot.InArrays ⟨0, .alloc 768 0, noGarbage⟩ := by decide +kernel
  have reachable : Reach (System.StepOver (tableBehind 8176)) System.InArrays (fun s => s.Boot ∧ s.Random) tinySystem :=
    .step (.start ⟨bootSystem_boot zeroBlock_zero _ _ _, rfl, rfl⟩) alloc (System.execOver_of_inArrays alloc _).symm
  refine reachable_honest_iff reachable ?_ 0 noGarbage
  rintro ins call ⟨⟩ ⟨⟩
  decide

/-- Over a RAM of one frame a process reads its second page, which is in the swap. There is no victim, and `run`
reports success. -/
theorem oneFrame_not_honest :
    let s := oneFrame.exec ⟨0, .alloc 512 0, noGarbage⟩
    let proc : Pcb := ⟨[⟨.read, 0, 256, 0⟩], 0, s.caller 0⟩
    oneFrame.Boot ∧ oneFrame.Random ∧ pgGetpage (s.caller 0) 1 noGarbage = none ∧ (proc.run noGarbage).1 = 0 ∧
      ¬ proc.Honest noGarbage := by
  intro s proc
  have stuck : unservable (s.caller 0).mm 1 := by decide
  have failed : pgGetpage (s.caller 0) 1 noGarbage = none := by rw [pgGetpage_eq, if_pos stuck]
  have success : (proc.run noGarbage).1 = 0 := by decide
  refine ⟨bootSystem_boot zeroBlock_zero _ _ _, ⟨rfl, rfl⟩, failed, success, fun honest => ?_⟩
  exact (honest ⟨.read, 0, 256, 0⟩ rfl).run (.read 0 256) 256#32 rfl (by decide) failed success

end OsSim.Paging
