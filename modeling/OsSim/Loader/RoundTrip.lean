import OsSim.Loader.Load

namespace OsSim.Loader
open Scanf Paging

/-! ## Program files -/

/-- An instruction as a program file writes it. -/
inductive Line
  | «calc»
  | alloc (size reg : UInt32)
  | free (reg : UInt32)
  | read (source offset destination : UInt32)
  | write (data destination offset : UInt32)

def Line.opcode : Line → Opcode
  | .«calc» => .«calc»
  | .alloc _ _ => .alloc
  | .free _ => .free
  | .read _ _ _ => .read
  | .write _ _ _ => .write

def Line.args : Line → List UInt32
  | .«calc» => []
  | .alloc size reg => [size, reg]
  | .free reg => [reg]
  | .read source offset destination => [source, offset, destination]
  | .write data destination offset => [data, destination, offset]

def optName : Opcode → List Char
  | .«calc» => optCalc
  | .alloc => optAlloc
  | .free => optFree
  | .read => optRead
  | .write => optWrite

def Line.words (line : Line) : List (List Char) :=
  optName line.opcode :: (line.args.map UInt32.toNat).map decimal

def writeLine (words : List (List Char)) : List Char := spaced words ++ ['\n']

/-- The text of a program file: the priority and the number of instructions, and a line for each instruction. -/
def writeProgram (priority : UInt32) (program : List Line) : List Char :=
  writeLine [decimal priority.toNat, decimal program.length] ++
    program.flatMap fun line => writeLine line.words

def instArgs (ins : Inst) : List Nat := [ins.arg0, ins.arg1, ins.arg2]

/-- The opcode of the line and all arguments of that opcode. -/
def Holds (ins : Inst) (line : Line) : Prop :=
  ins.opcode = line.opcode ∧ (instArgs ins).take line.args.length = line.args.map UInt32.toNat

/-! ## The text spells its words -/

theorem isWord_optName (op : Opcode) : IsWord (optName op) := by
  have visible : (optName op).all (fun c => !isSpace c) = true := by
    cases op <;> rfl
  refine ⟨?_, fun c member => by simpa using List.all_eq_true.mp visible c member⟩
  cases op <;> exact List.cons_ne_nil _ _

theorem getOpcode_optName (op : Opcode) : getOpcode (optName op) = some op := by
  cases op <;> rfl

theorem Line.words_isWord (line : Line) : ∀ word ∈ line.words, IsWord word := by
  refine List.forall_mem_cons.mpr ⟨isWord_optName line.opcode, ?_⟩
  intro word member
  obtain ⟨arg, _, rfl⟩ := List.mem_map.mp member
  exact isWord_decimal arg

theorem spells_writeLine {words later : List (List Char)} {rest : List Char} (nonempty : words ≠ [])
    (areWords : ∀ word ∈ words, IsWord word) (spells : Spells later rest) :
    Spells (words ++ later) (writeLine words ++ rest) := by
  have newline : Ends ('\n' :: rest) := by
    rintro c ⟨⟩
    rfl
  rw [writeLine, List.append_assoc]
  exact spells_spaced nonempty areWords newline (spells.space rfl)

theorem spells_lines (program : List Line) :
    Spells (program.flatMap Line.words) (program.flatMap fun line => writeLine line.words) := by
  induction program with
  | nil => exact .nil nofun
  | cons line program ih => exact spells_writeLine (List.cons_ne_nil _ _) line.words_isWord ih

theorem spells_writeProgram (priority : UInt32) (program : List Line) :
    Spells ([priority.toNat, program.length].map decimal ++ program.flatMap Line.words)
      (writeProgram priority program) := by
  have header : ∀ word ∈ [priority.toNat, program.length].map decimal, IsWord word := by
    intro word member
    obtain ⟨n, _, rfl⟩ := List.mem_map.mp member
    exact isWord_decimal n
  exact spells_writeLine (List.cons_ne_nil _ _) header (spells_lines program)

/-! ## Reading them back -/

theorem toNat_fits (n : UInt32) : n.toNat < 2 ^ 64 := n.toNat_lt.trans (by decide)

theorem count_argFormat (line : Line) :
    (argFormat line.opcode).count .unsigned = (line.args.map UInt32.toNat).length := by
  cases line <;> rfl

theorem setArgs_holds (ins : Inst) (line : Line) : Holds (setArgs { ins with opcode := line.opcode } line.args) line := by
  cases line <;> exact ⟨rfl, rfl⟩

theorem loadInst_spells {line : Line} {later : List (List Char)} {file : List Char}
    (spells : Spells (line.words ++ later) file) (opcode : List Char) (ins : Inst) :
    ∃ ins' file', loadInst opcode ins file = some (ins', optName line.opcode, file') ∧ Holds ins' line ∧
      Spells later file' := by
  have fit : ∀ value ∈ line.args.map UInt32.toNat, value < 2 ^ 64 := by
    intro value member
    obtain ⟨arg, _, rfl⟩ := List.mem_map.mp member
    exact toNat_fits arg
  have same : (line.args.map UInt32.toNat).map UInt32.ofNat = line.args := by
    rw [List.map_map]
    exact (List.map_congr_left fun arg _ => UInt32.ofNat_toNat).trans (List.map_id _)
  obtain ⟨after, word, spells⟩ := Spells.scanString spells
  obtain ⟨rest, args, spells⟩ := Spells.fscanf (count_argFormat line) fit spells
  refine ⟨_, rest, ?_, setArgs_holds ins line, spells⟩
  rw [loadInst, word]
  simp only [Option.getD_some, getOpcode_optName, Option.map_some, args, same]

theorem loadText_spells {program : List Line} {later : List (List Char)} {file : List Char}
    (spells : Spells (program.flatMap Line.words ++ later) file) (text : Nat → Inst) (i : Nat)
    (opcode : List Char) :
    ∃ insts, loadText text program.length i opcode file = some insts ∧ List.Forall₂ Holds insts program := by
  induction program generalizing i opcode file with
  | nil => exact ⟨[], rfl, .nil⟩
  | cons line program ih =>
      rw [List.flatMap_cons, List.append_assoc] at spells
      obtain ⟨ins, after, first, holds, spells⟩ := loadInst_spells spells opcode (text i)
      obtain ⟨insts, others, all⟩ := ih spells (i + 1) (optName line.opcode)
      refine ⟨ins :: insts, ?_, .cons holds all⟩
      simp only [List.length_cons, loadText, first, Option.bind_some, others, Option.map_some]

/-- The header counts modulo 2^32, and so many instructions are loaded. -/
theorem load_take (priority : UInt32) {program : List Line} (fits : program.length < 2 ^ 64)
    (availPid : UInt32) (uninit : Uninit) :
    ∃ text, load (some (writeProgram priority program)) availPid uninit =
        some ({ pid := availPid, priority, code := { text, size := UInt32.ofNat program.length }
                pc := 0, bp := pageSize }, availPid + 1) ∧
      List.Forall₂ Holds text (program.take (program.length % 2 ^ 32)) := by
  have fit : ∀ value ∈ [priority.toNat, program.length], value < 2 ^ 64 := by
    simpa using ⟨toNat_fits priority, fits⟩
  have count : [Directive.unsigned, .space, .unsigned].count .unsigned = [priority.toNat, program.length].length :=
    rfl
  obtain ⟨file, header, spells⟩ := Spells.fscanf count fit (spells_writeProgram priority program)
  rw [← List.take_append_drop (program.length % 2 ^ 32) program, List.flatMap_append] at spells
  obtain ⟨text, loaded, all⟩ := loadText_spells spells uninit.text 0 uninit.opcode
  refine ⟨text, ?_, all⟩
  have size : (program.take (program.length % 2 ^ 32)).length = (UInt32.ofNat program.length).toNat := by
    rw [List.length_take, UInt32.toNat_ofNat']
    omega
  rw [size] at loaded
  rw [load, Option.bind_some, header]
  simp only [List.map_cons, UInt32.ofNat_toNat, List.getElem?_cons_zero, List.getElem?_cons_succ,
    Option.getD_some, loaded, Option.map_some]

/-- What `load` returns for the text of a program that is short enough for `size`. -/
theorem load_writeProgram (priority : UInt32) {program : List Line} (short : program.length < 2 ^ 32)
    (availPid : UInt32) (uninit : Uninit) :
    ∃ proc, load (some (writeProgram priority program)) availPid uninit = some (proc, availPid + 1) ∧
      proc.priority = priority ∧ proc.pc = 0 ∧ proc.code.size.toNat = program.length ∧
      List.Forall₂ Holds proc.code.text program := by
  obtain ⟨text, loaded, all⟩ := load_take priority (short.trans (by decide)) availPid uninit
  rw [Nat.mod_eq_of_lt short, List.take_length] at all
  exact ⟨_, loaded, rfl, rfl, UInt32.toNat_ofNat_of_lt' short, all⟩

def shortProgram : List Line := [.alloc 300 0, .«calc», .write 100 0 20]

example : writeProgram 1 shortProgram = "1 3\nalloc 300 0\ncalc\nwrite 100 0 20\n".toList := by decide

def zeroes : Uninit := { priority := 0, size := 0, text := fun _ => ⟨.«calc», 0, 0, 0⟩, opcode := [] }

theorem load_shortProgram :
    ∃ proc, load (some (writeProgram 1 shortProgram)) 1 zeroes = some (proc, 1 + 1) ∧
      proc.priority = 1 ∧ proc.pc = 0 ∧ proc.code.size.toNat = shortProgram.length ∧
      List.Forall₂ Holds proc.code.text shortProgram :=
  load_writeProgram 1 (by decide) 1 zeroes

/-- The number of instructions of a program of 2^32 lines does not fit in `size`. -/
theorem load_not_writeProgram :
    ¬ ∀ (priority : UInt32) (program : List Line) (availPid : UInt32) (uninit : Uninit),
      ∃ proc, load (some (writeProgram priority program)) availPid uninit = some (proc, availPid + 1) ∧
        proc.pc = 0 ∧ proc.code.size.toNat = program.length ∧ List.Forall₂ Holds proc.code.text program := by
  intro always
  obtain ⟨proc, _, _, size, _⟩ := always 1 (List.replicate (2 ^ 32) .«calc») 1 zeroes
  rw [List.length_replicate] at size
  have small := proc.code.size.toNat_lt
  omega

end OsSim.Loader
