import OsSim.Lib.Transition
import OsSim.Paging.Memphy

namespace OsSim.Paging
open Transition

inductive DeviceCall
  | read (addr : Nat)
  | write (addr : Nat) (data : Byte)

def DeviceCall.addr : DeviceCall → Nat
  | .read addr => addr
  | .write addr _ => addr

/-- The return value of a call, and the byte that it reads. -/
def DeviceCall.answer (mp : Memphy) : DeviceCall → Int × Option Byte
  | .read addr => ((memphyRead mp addr).map fun out => (0, some out.1)).getD (-1, none)
  | .write addr data => ((memphyWrite mp addr data).map fun _ => (0, none)).getD (-1, none)

def DeviceCall.exec (mp : Memphy) : DeviceCall → Memphy
  | .read addr => ((memphyRead mp addr).map Prod.snd).getD mp
  | .write addr data => (memphyWrite mp addr data).getD mp

def DeviceCall.keeps (addr : Nat) (byte : Byte) : DeviceCall → Byte
  | .read _ => byte
  | .write addr' data => if addr' = addr then data else byte

/-- The byte that the calls wrote last at an address, or the one that was there before. -/
def lastWritten (storage : Nat → Byte) (calls : List DeviceCall) (addr : Nat) : Byte :=
  calls.foldl (DeviceCall.keeps addr) (storage addr)

def answers (mp : Memphy) (calls : List DeviceCall) : List (Int × Option Byte) :=
  outputs DeviceCall.exec (fun mp call => [call.answer mp]) mp calls

/-- A device of this size and mode answers like a memory, and like the device with random access. -/
structure IsMemory (maxsz : Nat) (randomflg : Bool) : Prop where
  reads : ∀ storage calls, (∀ call ∈ calls, call.addr < maxsz) → ∀ addr, addr < maxsz →
    (DeviceCall.read addr).answer (run DeviceCall.exec (initMemphy storage maxsz randomflg) calls) =
      (0, some (lastWritten storage calls addr))
  modes : ∀ storage calls, (∀ call ∈ calls, call.addr < maxsz) →
    answers (initMemphy storage maxsz randomflg) calls = answers (initMemphy storage maxsz true) calls

theorem exec_random {mp : Memphy} (random : mp.rdmflg = true) (call : DeviceCall) :
    (call.exec mp).rdmflg = true ∧ ∀ addr, (call.exec mp).storage addr = call.keeps addr (mp.storage addr) := by
  cases call with
  | read addr =>
      rw [DeviceCall.exec, memphyRead_random random]
      exact ⟨random, fun _ => rfl⟩
  | write addr data =>
      rw [DeviceCall.exec, memphyWrite_random random]
      refine ⟨random, fun other => ?_⟩
      simp only [Option.getD_some, Function.update_apply, DeviceCall.keeps, eq_comm]

theorem run_random {mp : Memphy} (random : mp.rdmflg = true) (calls : List DeviceCall) :
    (run DeviceCall.exec mp calls).rdmflg = true ∧
      ∀ addr, (run DeviceCall.exec mp calls).storage addr = lastWritten mp.storage calls addr := by
  induction calls generalizing mp with
  | nil => exact ⟨random, fun _ => rfl⟩
  | cons call rest ih =>
      obtain ⟨random', storage⟩ := exec_random random call
      obtain ⟨random'', last⟩ := ih random'
      refine ⟨random'', fun addr => (last addr).trans ?_⟩
      rw [lastWritten, storage]
      rfl

theorem isMemory_of_random (maxsz : Nat) : IsMemory maxsz true := by
  refine ⟨fun storage calls _ addr _ => ?_, fun _ _ _ => rfl⟩
  have fresh : (initMemphy storage maxsz true).rdmflg = true := rfl
  obtain ⟨random, last⟩ := run_random fresh calls
  rw [DeviceCall.answer, memphyRead_random random, last addr]
  rfl

/-- A sequential device refuses every call. -/
theorem answer_sequential {mp : Memphy} (sequential : mp.rdmflg = false) (call : DeviceCall) :
    call.answer mp = (-1, none) := by
  cases call with
  | read addr => rw [DeviceCall.answer, memphyRead_sequential sequential]; rfl
  | write addr data => rw [DeviceCall.answer, memphyWrite_sequential sequential]; rfl

/-- A device is a memory exactly if it has random access. One of size 0 has no address. -/
theorem isMemory_iff (maxsz : Nat) (randomflg : Bool) : IsMemory maxsz randomflg ↔ randomflg = true ∨ maxsz = 0 := by
  constructor
  · intro memory
    cases randomflg with
    | true => exact .inl rfl
    | false =>
        refine .inr (Nat.eq_zero_of_not_pos fun positive => ?_)
        have read := memory.reads (fun _ => 0) [] (by simp) 0 positive
        rw [answer_sequential rfl] at read
        cases read
  · rintro (rfl | rfl)
    · exact isMemory_of_random maxsz
    · refine ⟨fun _ _ _ addr inside => absurd inside (Nat.not_lt_zero addr), fun storage calls inside => ?_⟩
      cases calls with
      | nil => rfl
      | cons call rest => exact absurd (inside call (by simp)) (Nat.not_lt_zero _)

/-- A byte written to a sequential device and read again: both calls fail. -/
theorem sequential_not_isMemory :
    answers (initMemphy (fun _ => 0) 256 false) [.write 3 7, .read 3] = [(-1, none), (-1, none)] ∧
      answers (initMemphy (fun _ => 0) 256 true) [.write 3 7, .read 3] = [(0, none), (0, some 7)] ∧
      ¬ IsMemory 256 false := by
  have refused : answers (initMemphy (fun _ => 0) 256 false) [.write 3 7, .read 3] = [(-1, none), (-1, none)] := by
    decide
  have served : answers (initMemphy (fun _ => 0) 256 true) [.write 3 7, .read 3] = [(0, none), (0, some 7)] := by
    decide
  refine ⟨refused, served, fun memory => ?_⟩
  have same := memory.modes (fun _ => 0) [.write 3 7, .read 3] (by simp [DeviceCall.addr])
  exact absurd (refused.symm.trans (same.trans served)) (by decide)

end OsSim.Paging
