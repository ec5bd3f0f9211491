import OsSim.Lib.Scanf
import OsSim.Paging.Cpu

namespace OsSim.Loader
open Scanf Paging

structure CodeSeg where
  text : List Inst
  size : UInt32

/-- The fields that `load` sets. -/
structure Pcb where
  pid : UInt32
  priority : UInt32
  code : CodeSeg
  pc : UInt32
  bp : Nat

def pageSize : Nat := 1 <<< 10

/-- What the new structures, the array `text` and the buffer `opcode` hold before `load` writes to them. -/
structure Uninit where
  priority : UInt32
  size : UInt32
  text : Nat → Inst
  opcode : List Char

/-! ## The opcodes -/

def optCalc : List Char := ['c', 'a', 'l', 'c']
def optAlloc : List Char := ['a', 'l', 'l', 'o', 'c']
def optFree : List Char := ['f', 'r', 'e', 'e']
def optRead : List Char := ['r', 'e', 'a', 'd']
def optWrite : List Char := ['w', 'r', 'i', 't', 'e']

/-- The string in a buffer ends before its first NUL. -/
def cString (buffer : List Char) : List Char := buffer.takeWhile (· ≠ '\x00')

/-- `none` is the call of `exit`. -/
def getOpcode (opt : List Char) : Option Opcode :=
  if cString opt = optCalc then some .«calc»
  else if cString opt = optAlloc then some .alloc
  else if cString opt = optFree then some .free
  else if cString opt = optRead then some .read
  else if cString opt = optWrite then some .write
  else none

/-! ## The instructions -/

/-- The format after the opcode. There is no call of `fscanf` for `calc`. -/
def argFormat : Opcode → List Directive
  | .«calc» => []
  | .alloc => [.unsigned, .space, .unsigned, .space]
  | .free => [.unsigned, .space]
  | .read | .write => [.unsigned, .space, .unsigned, .space, .unsigned, .space]

/-- The arguments that are not read keep what they held. -/
def setArgs (ins : Inst) (values : List UInt32) : Inst :=
  { ins with
    arg0 := (values[0]?.map UInt32.toNat).getD ins.arg0
    arg1 := (values[1]?.map UInt32.toNat).getD ins.arg1
    arg2 := (values[2]?.map UInt32.toNat).getD ins.arg2 }

/-- One turn of the loop, with the buffer `opcode` and the rest of the file after it. A word of ten characters or
more, which the buffer has no room for, is kept as a whole. -/
def loadInst (opcode : List Char) (ins : Inst) (file : List Char) : Option (Inst × List Char × List Char) :=
  let (word, file) := scanString file
  let opcode := word.getD opcode
  (getOpcode opcode).map fun op =>
    let (values, file) := fscanf (argFormat op) file
    (setArgs { ins with opcode := op } values, opcode, file)

/-- The turns from `i` on, of which there are `left`. -/
def loadText (text : Nat → Inst) : (left i : Nat) → (opcode file : List Char) → Option (List Inst)
  | 0, _, _, _ => some []
  | left + 1, i, opcode, file =>
      (loadInst opcode (text i) file).bind fun (ins, opcode, file) =>
        (loadText text left (i + 1) opcode file).map (ins :: ·)

/-- The pcb and the next `avail_pid`; `none` is the call of `exit`. The file is the one that `fopen` finds. -/
def load (file : Option (List Char)) (availPid : UInt32) (uninit : Uninit) : Option (Pcb × UInt32) :=
  file.bind fun file =>
    let (values, file) := fscanf [.unsigned, .space, .unsigned] file
    let priority := values[0]?.getD uninit.priority
    let size := values[1]?.getD uninit.size
    (loadText uninit.text size.toNat 0 uninit.opcode file).map fun text =>
      ({ pid := availPid, priority, code := { text, size }, pc := 0, bp := pageSize }, availPid + 1)

theorem loadText_length {text : Nat → Inst} {left i : Nat} {opcode file : List Char} {insts : List Inst}
    (loaded : loadText text left i opcode file = some insts) : insts.length = left := by
  induction left generalizing i opcode file insts with
  | zero =>
      cases loaded
      rfl
  | succ left ih =>
      obtain ⟨⟨ins, opcode', file'⟩, _, rest⟩ := Option.bind_eq_some_iff.mp loaded
      obtain ⟨insts', later, rfl⟩ := Option.map_eq_some_iff.mp rest
      exact congrArg (· + 1) (ih later)

/-- The code segment of every process that is loaded has as many instructions as its `size` says. -/
theorem load_sized {file : Option (List Char)} {availPid next : UInt32} {uninit : Uninit} {proc : Pcb}
    (loaded : load file availPid uninit = some (proc, next)) :
    proc.code.text.length = proc.code.size.toNat := by
  obtain ⟨file, _, loaded⟩ := Option.bind_eq_some_iff.mp loaded
  obtain ⟨text, read, same⟩ := Option.map_eq_some_iff.mp loaded
  cases same
  exact loadText_length read

end OsSim.Loader
