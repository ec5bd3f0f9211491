import OsSim.Loader.RoundTrip

namespace OsSim.Loader
open Scanf Paging

/-! ## What a file contains -/

def headerFormat : List Directive := [.unsigned, .space, .unsigned]

/-- The file behind the header, or behind as much of it as can be read. -/
def body (file : List Char) : List Char := (fscanf headerFormat file).2

/-- The number of instructions, which stays as it was where the header does not give it. -/
def announced (file : List Char) (uninit : Uninit) : UInt32 := (fscanf headerFormat file).1[1]?.getD uninit.size

/-- The file starts with the line, and `rest` follows. -/
def ReadsLine (file : List Char) (line : Line) (rest : List Char) : Prop :=
  ∃ word after, scanString file = (some word, after) ∧ getOpcode word = some line.opcode ∧
    fscanf (argFormat line.opcode) after = (line.args, rest)

def ReadsLines : List Char → List Line → List Char → Prop
  | file, [], rest => file = rest
  | file, line :: lines, rest => ∃ mid, ReadsLine file line mid ∧ ReadsLines mid lines rest

def Contains (file : List Char) (lines : List Line) : Prop := ∃ rest, ReadsLines file lines rest

/-- The file starts with an opcode that fewer numbers follow than it needs. -/
def LacksArgs (file : List Char) : Prop :=
  ∃ word after op, scanString file = (some word, after) ∧ getOpcode word = some op ∧
    (fscanf (argFormat op) after).1.length < (argFormat op).count .unsigned

/-- An instruction of the file has too few arguments. It may be one that the header does not announce. -/
def HasShortInst (file : List Char) : Prop := ∃ lines rest, ReadsLines file lines rest ∧ LacksArgs rest

def Malformed (file : List Char) : Prop :=
  (∃ priority size, (fscanf headerFormat file).1 = [priority, size] ∧
      ∀ lines, Contains (body file) lines → lines.length < size.toNat) ∨
    HasShortInst (body file)

/-- A malformed file ends in the error exit, and what is returned comes from the file. -/
structure RefusesMalformed (file : List Char) (uninit : Uninit) : Prop where
  refused : Malformed file → ∀ availPid, load (some file) availPid uninit = none
  taken : ∀ availPid proc next, load (some file) availPid uninit = some (proc, next) →
    ∃ lines, Contains (body file) lines ∧ List.Forall₂ Holds proc.code.text lines

/-! ## What is not loaded -/

/-- One of the first `n` words that stand where an opcode is read is not an opcode. -/
inductive UnknownOpcode : Nat → List Char → Prop
  | here {n : Nat} {file word after : List Char} (scanned : scanString file = (some word, after))
      (unknown : getOpcode word = none) : UnknownOpcode (n + 1) file
  | later {n : Nat} {file word after : List Char} {op : Opcode} (scanned : scanString file = (some word, after))
      (known : getOpcode word = some op) (rest : UnknownOpcode n (fscanf (argFormat op) after).2) :
      UnknownOpcode (n + 1) file

/-- Nothing follows, and what the buffer holds before is not an opcode. -/
def BlankUnknown (n : Nat) (file opcode : List Char) : Prop :=
  0 < n ∧ (scanString file).1 = none ∧ getOpcode opcode = none

section Turns

variable {text : Nat → Inst} {file after rest word opcode : List Char} {op : Opcode} {line : Line}
  {lines : List Line} {left i n : Nat}

theorem loadInst_eq (opcode : List Char) (ins : Inst) (file : List Char) :
    loadInst opcode ins file = (getOpcode ((scanString file).1.getD opcode)).map fun op =>
      (setArgs { ins with opcode := op } (fscanf (argFormat op) (scanString file).2).1,
        (scanString file).1.getD opcode, (fscanf (argFormat op) (scanString file).2).2) :=
  rfl

theorem loadInst_word (scanned : scanString file = (some word, after)) (known : getOpcode word = some op)
    (opcode : List Char) (ins : Inst) :
    loadInst opcode ins file = some (setArgs { ins with opcode := op } (fscanf (argFormat op) after).1, word,
      (fscanf (argFormat op) after).2) := by
  rw [loadInst_eq, scanned, Option.getD_some, known, Option.map_some]

/-- At the end of the file the opcode of the turn before is taken again, and no argument is read. -/
theorem loadInst_blank (blank : (scanString file).1 = none) (known : getOpcode opcode = some op) (ins : Inst) :
    loadInst opcode ins file = some ({ ins with opcode := op }, opcode, []) := by
  rw [loadInst_eq, scanString_none blank, Option.getD_none, known, Option.map_some, fscanf_nil]
  rfl

theorem loadText_succ {ins : Inst} {opcode' : List Char}
    (first : loadInst opcode (text i) file = some (ins, opcode', rest)) :
    loadText text (left + 1) i opcode file = (loadText text left (i + 1) opcode' rest).map (ins :: ·) := by
  rw [loadText, first]
  rfl

theorem loadText_blank (blank : (scanString file).1 = none) (known : getOpcode opcode = some op) :
    loadText text left i opcode file = some ((List.range' i left).map fun j => { text j with opcode := op }) := by
  induction left generalizing i file with
  | zero => rfl
  | succ left ih =>
      have rest := @ih [] (i + 1) rfl
      rw [loadText_succ (loadInst_blank blank known (text i)), rest]
      rfl

theorem not_unknownOpcode_of_blank (blank : (scanString file).1 = none) : ¬ UnknownOpcode n file := by
  intro unknown
  cases unknown with
  | here scanned | later scanned =>
      rw [scanned] at blank
      cases blank

theorem unknownOpcode_succ_iff (scanned : scanString file = (some word, after)) (known : getOpcode word = some op) :
    UnknownOpcode (n + 1) file ↔ UnknownOpcode n (fscanf (argFormat op) after).2 := by
  refine ⟨fun unknown => ?_, .later scanned known⟩
  cases unknown with
  | here scanned' unknown =>
      rw [scanned] at scanned'
      cases scanned'
      rw [known] at unknown
      cases unknown
  | later scanned' known' rest =>
      rw [scanned] at scanned'
      cases scanned'
      rw [known] at known'
      cases known'
      exact rest

theorem not_blankUnknown_of_known (known : getOpcode opcode = some op) : ¬ BlankUnknown n file opcode := by
  intro blank
  rw [BlankUnknown, known] at blank
  cases blank.2.2

theorem not_blankUnknown_of_word (scanned : scanString file = (some word, after)) : ¬ BlankUnknown n file opcode := by
  intro blank
  rw [BlankUnknown, scanned] at blank
  cases blank.2.1

/-- Only the first turn can find the buffer without an opcode: after it there is the one that was read. -/
theorem loadText_eq_none_iff :
    loadText text n i opcode file = none ↔ UnknownOpcode n file ∨ BlankUnknown n file opcode := by
  induction n generalizing i opcode file with
  | zero =>
      refine iff_of_false (Option.some_ne_none _) (not_or.mpr ⟨fun unknown => ?_, fun blank => ?_⟩)
      · cases unknown
      · exact Nat.lt_irrefl 0 blank.1
  | succ n ih =>
      cases scanned : (scanString file).1 with
      | none =>
          cases known : getOpcode opcode with
          | none =>
              refine iff_of_true ?_ (.inr ⟨Nat.succ_pos n, scanned, known⟩)
              rw [loadText, loadInst_eq, scanned, Option.getD_none, known]
              rfl
          | some op =>
              rw [loadText_blank scanned known]
              have notUnknown := @not_unknownOpcode_of_blank file (n + 1) scanned
              have notBlank := @not_blankUnknown_of_known file opcode op (n + 1) known
              exact iff_of_false (Option.some_ne_none _) (not_or.mpr ⟨notUnknown, notBlank⟩)
      | some word =>
          have found : scanString file = (some word, (scanString file).2) := Prod.ext scanned rfl
          cases known : getOpcode word with
          | none =>
              refine iff_of_true ?_ (.inl (.here found known))
              rw [loadText, loadInst_eq, scanned, Option.getD_some, known]
              rfl
          | some op =>
              rw [loadText_succ (loadInst_word found known opcode (text i)), Option.map_eq_none_iff, ih,
                unknownOpcode_succ_iff found known, or_iff_left (not_blankUnknown_of_known known),
                or_iff_left (not_blankUnknown_of_word found)]

/-! ## What is loaded -/

theorem loadInst_readsLine (reads : ReadsLine file line rest) (opcode : List Char) (ins : Inst) :
    ∃ ins' word, loadInst opcode ins file = some (ins', word, rest) ∧ getOpcode word = some line.opcode ∧
      Holds ins' line := by
  obtain ⟨word, after, scanned, known, args⟩ := reads
  refine ⟨_, word, ?_, known, setArgs_holds ins line⟩
  rw [loadInst_word scanned known, args]

/-- The lines that are read, and then the turns at `rest` with the opcode of the last line in the buffer. -/
theorem loadText_readsLines (reads : ReadsLines file lines rest) (left i : Nat) (opcode : List Char) :
    ∃ insts opcode', List.Forall₂ Holds insts lines ∧
      getOpcode opcode' = (lines.getLast?.map Line.opcode).or (getOpcode opcode) ∧
      loadText text (left + lines.length) i opcode file =
        (loadText text left (i + lines.length) opcode' rest).map (insts ++ ·) := by
  induction lines generalizing file i opcode with
  | nil =>
      cases reads
      refine ⟨[], opcode, .nil, rfl, ?_⟩
      have nothing : (([] : List Inst) ++ ·) = id := rfl
      rw [nothing, Option.map_id]
      rfl
  | cons line lines ih =>
      obtain ⟨mid, first, others⟩ := reads
      obtain ⟨ins, word, loaded, known, holds⟩ := loadInst_readsLine first opcode (text i)
      obtain ⟨insts, opcode', all, buffer, later⟩ := ih others (i + 1) word
      refine ⟨ins :: insts, opcode', .cons holds all, ?_, ?_⟩
      · rw [buffer, List.getLast?_cons, known]
        cases lines.getLast? <;> rfl
      · rw [List.length_cons, ← Nat.add_assoc, loadText_succ loaded, later, Option.map_map, Nat.add_right_comm i 1]
        rfl

end Turns

section Load

variable {file : List Char} {availPid next : UInt32} {uninit : Uninit} {lines : List Line} {proc : Pcb}

theorem load_body (file : List Char) (availPid : UInt32) (uninit : Uninit) :
    load (some file) availPid uninit =
      (loadText uninit.text (announced file uninit).toNat 0 uninit.opcode (body file)).map fun text =>
        ({ pid := availPid, priority := (fscanf headerFormat file).1[0]?.getD uninit.priority
           code := { text, size := announced file uninit }, pc := 0, bp := pageSize }, availPid + 1) :=
  rfl

theorem load_eq_none_iff :
    load (some file) availPid uninit = none ↔
      UnknownOpcode (announced file uninit).toNat (body file) ∨
        BlankUnknown (announced file uninit).toNat (body file) uninit.opcode := by
  rw [load_body, Option.map_eq_none_iff, loadText_eq_none_iff]

/-- Where the file ends after some of its lines, the others get the opcode of the last line that is read, and
arguments that are not in the file. -/
theorem load_truncated {lines : List Line} {last : Line} {rest : List Char} {missing : Nat}
    (reads : ReadsLines (body file) (lines ++ [last]) rest) (ended : (scanString rest).1 = none)
    (more : (announced file uninit).toNat = missing + (lines ++ [last]).length) (availPid : UInt32) :
    ∃ proc insts, load (some file) availPid uninit = some (proc, availPid + 1) ∧
      List.Forall₂ Holds insts (lines ++ [last]) ∧
      proc.code.text = insts ++ (List.range' (lines ++ [last]).length missing).map fun i =>
        { uninit.text i with opcode := last.opcode } := by
  obtain ⟨insts, opcode', all, buffer, loaded⟩ := loadText_readsLines reads missing 0 uninit.opcode
  rw [List.getLast?_concat] at buffer
  rw [load_body, more, loaded, loadText_blank ended buffer, Nat.zero_add]
  exact ⟨_, insts, rfl, all, rfl⟩

/-! ## When malformed files are refused -/

/-- The file has the first `n` instructions, and no instruction with too few arguments. -/
def HasInsts (n : Nat) (file : List Char) : Prop :=
  (∃ lines, Contains file lines ∧ lines.length = n) ∧ ¬ HasShortInst file

theorem refusesMalformed_of_hasInsts (hasInsts : HasInsts (announced file uninit).toNat (body file)) :
    RefusesMalformed file uninit := by
  obtain ⟨⟨lines, ⟨rest, reads⟩, length⟩, complete⟩ := hasInsts
  constructor
  · rintro (⟨priority, size, header, fewer⟩ | short) availPid
    · have count : announced file uninit = size := by rw [announced, header]; rfl
      have less := fewer lines ⟨rest, reads⟩
      rw [length, count] at less
      exact absurd less (Nat.lt_irrefl _)
    · exact absurd short complete
  · intro availPid proc next loaded
    obtain ⟨insts, _, all, _, text⟩ := loadText_readsLines reads 0 0 uninit.opcode
    rw [Nat.zero_add, length] at text
    rw [load_body, text] at loaded
    cases loaded
    refine ⟨lines, ⟨rest, reads⟩, ?_⟩
    change List.Forall₂ Holds (insts ++ []) lines
    rw [List.append_nil]
    exact all

theorem refusesMalformed_of_none (refused : ∀ availPid, load (some file) availPid uninit = none) :
    RefusesMalformed file uninit := by
  refine ⟨fun _ => refused, fun availPid proc next loaded => ?_⟩
  rw [refused availPid] at loaded
  cases loaded

theorem RefusesMalformed.hasInsts (refuses : RefusesMalformed file uninit)
    (loaded : load (some file) availPid uninit = some (proc, next)) :
    HasInsts (announced file uninit).toNat (body file) := by
  obtain ⟨lines, contains, all⟩ := refuses.taken availPid proc next loaded
  refine ⟨⟨lines, contains, ?_⟩, fun short => ?_⟩
  · have size : proc.code.size = announced file uninit := by
      rw [load_body] at loaded
      obtain ⟨text, _, same⟩ := Option.map_eq_some_iff.mp loaded
      cases same
      rfl
    rw [← all.length_eq, load_sized loaded, size]
  · rw [refuses.refused (.inr short) availPid] at loaded
    cases loaded

theorem refusesMalformed_iff (file : List Char) (uninit : Uninit) :
    RefusesMalformed file uninit ↔
      HasInsts (announced file uninit).toNat (body file) ∨
        UnknownOpcode (announced file uninit).toNat (body file) ∨
        BlankUnknown (announced file uninit).toNat (body file) uninit.opcode := by
  rw [← @load_eq_none_iff file 1 uninit]
  constructor
  · intro refuses
    cases loaded : load (some file) 1 uninit with
    | none => exact .inr rfl
    | some result => exact .inl (refuses.hasInsts loaded)
  · rintro (hasInsts | refused)
    · exact refusesMalformed_of_hasInsts hasInsts
    · refine refusesMalformed_of_none fun availPid => ?_
      rw [load_eq_none_iff] at refused ⊢
      exact refused

end Load

/-- The second of two instructions is missing. -/
def cutFile : List Char := "1 2\ncalc\n".toList

/-- The register of the instruction is missing. -/
def shortFile : List Char := "1 1\nalloc 300\n".toList

theorem cutFile_not_hasInsts : ¬ HasInsts 2 (body cutFile) := by
  rintro ⟨⟨lines, ⟨rest, reads⟩, length⟩, _⟩
  obtain ⟨first, second, rfl⟩ := List.length_eq_two.mp length
  obtain ⟨mid, ⟨word, after, scanned, known, args⟩, _, ⟨word', after', scanned', _⟩, _⟩ := reads
  have found : scanString (body cutFile) = (some optCalc, ['\n']) := by decide
  rw [found] at scanned
  cases scanned
  have op : first.opcode = .«calc» := (Option.some.inj known).symm
  rw [op] at args
  have at_mid : ['\n'] = mid := congrArg Prod.snd args
  subst at_mid
  cases scanned'

theorem shortFile_hasShortInst : HasShortInst (body shortFile) :=
  ⟨[], body shortFile, rfl, optAlloc, " 300\n".toList, .alloc, by decide, rfl, by decide⟩

/-- Both files are loaded, the first with its instruction twice, the second with what the argument's memory held. -/
theorem not_refusesMalformed :
    ¬ RefusesMalformed cutFile zeroes ∧ ¬ RefusesMalformed shortFile zeroes ∧
      (load (some cutFile) 1 zeroes).map (fun result => result.1.code.text.map Inst.opcode) =
        some [.«calc», .«calc»] ∧
      (load (some shortFile) 1 zeroes).map (fun result => result.1.code.text.map instArgs) = some [[300, 0, 0]] := by
  have cut : (load (some cutFile) 1 zeroes).map (fun result => result.1.code.text.map Inst.opcode) =
      some [.«calc», .«calc»] := by decide
  have short : (load (some shortFile) 1 zeroes).map (fun result => result.1.code.text.map instArgs) =
      some [[300, 0, 0]] := by decide
  refine ⟨fun refuses => ?_, fun refuses => ?_, cut, short⟩
  · obtain ⟨result, loaded, _⟩ := Option.map_eq_some_iff.mp cut
    exact cutFile_not_hasInsts (refuses.hasInsts loaded)
  · rw [refuses.refused (.inr shortFile_hasShortInst) 1] at short
    cases short

end OsSim.Loader
