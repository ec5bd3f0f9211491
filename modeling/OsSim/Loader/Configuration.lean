import OsSim.Loader.RoundTrip

namespace OsSim.Loader
open Scanf

def pagingMaxMmswp : Nat := 4

/-- `ld_processes`. -/
structure LdArgs where
  path : List (List Char)
  startTime : List UInt64
  prio : List UInt64

/-- What `readConfig` leaves in the variables of `os.c`. -/
structure Configuration where
  timeSlot : Int32
  numCpus : Int32
  numProcesses : Int32
  memramsz : Int32
  memswpsz : List Int32
  ldProcesses : LdArgs

/-- What the new arrays and the buffer `proc` hold, in each turn, before they are read. -/
structure ConfigUninit where
  startTime : Nat → UInt64
  prio : Nat → UInt64
  proc : Nat → List Char

/-! ## Reading a configuration -/

/-- A variable keeps its value when its conversion fails, or one before it. -/
def intAt (values : List Value) (i : Nat) (old : Int32) : Int32 :=
  match values[i]? with
  | some (.int n) => n
  | _ => old

def ulongAt (values : List Value) (i : Nat) (old : UInt64) : UInt64 :=
  match values[i]? with
  | some (.ulong n) => n
  | _ => old

def stringAt (values : List Value) (i : Nat) (old : List Char) : List Char :=
  match values[i]? with
  | some (.string word) => word
  | _ => old

def countsFormat : List (Option Conversion) := [some .int, none, some .int, none, some .int, none]

def ramFormat : List (Option Conversion) := [some .int, none]

def swapFormat : List (Option Conversion) := [some .int]

def processFormat : List (Option Conversion) := [some .ulong, none, some .string, none, some .ulong, none]

/-- The sizes of the swap devices: static variables, of which `left` are still to be read. -/
def readSwaps : Nat → List Char → List Int32 × List Char
  | 0, file => ([], file)
  | left + 1, file =>
      let (values, file) := fscanfMixed swapFormat file
      let (sizes, file) := readSwaps left file
      (intAt values 0 0 :: sizes, file)

def inputProc : List Char := "input/proc/".toList

/-- The turns from `i` on, of which there are `left`. A name of 89 characters or more, which the buffer of the path has
no room for, is kept as a whole. -/
def readProcesses (uninit : ConfigUninit) : (left i : Nat) → List Char → LdArgs
  | 0, _, _ => ⟨[], [], []⟩
  | left + 1, i, file =>
      let (values, file) := fscanfMixed processFormat file
      let proc := stringAt values 1 (uninit.proc i)
      let rest := readProcesses uninit left (i + 1) file
      { path := (inputProc ++ cString proc) :: rest.path
        startTime := ulongAt values 0 (uninit.startTime i) :: rest.startTime
        prio := ulongAt values 2 (uninit.prio i) :: rest.prio }

/-- `none` is the call of `exit`. The file is the one that `fopen` finds. -/
def readConfig (file : Option (List Char)) (uninit : ConfigUninit) : Option Configuration :=
  file.map fun file =>
    let (header, file) := fscanfMixed countsFormat file
    let numProcesses := intAt header 2 0
    let (ram, file) := fscanfMixed ramFormat file
    let (memswpsz, file) := readSwaps pagingMaxMmswp file
    let file := skipSpace file
    { timeSlot := intAt header 0 0
      numCpus := intAt header 1 0
      numProcesses
      memramsz := intAt ram 0 0
      memswpsz
      ldProcesses := readProcesses uninit numProcesses.toInt.toNat 0 file }

/-! ## Configuration files -/

/-- A process as a configuration file names it: its program is a file of `input/proc`. -/
structure Job where
  startTime : UInt64
  name : List Char
  prio : UInt64
  isWord : IsWord name
  plain : '\x00' ∉ name
  fits : name.length < 89

/-- What a configuration file says. -/
structure Setup where
  timeSlot : Int32
  numCpus : Int32
  memramsz : Int32
  memswpsz : List Int32
  jobs : List Job
  swaps : memswpsz.length = pagingMaxMmswp
  few : jobs.length < 2 ^ 31

def Setup.header (setup : Setup) : List Value :=
  [.int setup.timeSlot, .int setup.numCpus, .int (Int32.ofNat setup.jobs.length)]

def Setup.sizes (setup : Setup) : List Value := .int setup.memramsz :: setup.memswpsz.map .int

def Job.values (job : Job) : List Value := [.ulong job.startTime, .string job.name, .ulong job.prio]

/-- The text of a configuration file: the header, the sizes of the devices, and a line for each process. -/
def writeConfig (setup : Setup) : List Char :=
  writeLine (setup.header.map Value.word) ++ (writeLine (setup.sizes.map Value.word) ++
    setup.jobs.flatMap fun job => writeLine (job.values.map Value.word))

def Setup.words (setup : Setup) : List (List Char) :=
  setup.header.map Value.word ++ (setup.sizes.map Value.word ++
    setup.jobs.flatMap fun job => job.values.map Value.word)

def Setup.configuration (setup : Setup) : Configuration where
  timeSlot := setup.timeSlot
  numCpus := setup.numCpus
  numProcesses := Int32.ofNat setup.jobs.length
  memramsz := setup.memramsz
  memswpsz := setup.memswpsz
  ldProcesses :=
    { path := setup.jobs.map fun job => inputProc ++ job.name
      startTime := setup.jobs.map Job.startTime
      prio := setup.jobs.map Job.prio }

/-! ## The text spells its words -/

theorem areWords {values : List Value} (isWord : ∀ value ∈ values, value.IsWord) :
    ∀ word ∈ values.map Value.word, IsWord word := by
  intro word member
  obtain ⟨value, among, rfl⟩ := List.mem_map.mp member
  exact Value.isWord_word (isWord value among)

theorem Setup.header_isWord (setup : Setup) : ∀ value ∈ setup.header, value.IsWord := by
  simp [Setup.header, Value.IsWord]

theorem Setup.sizes_isWord (setup : Setup) : ∀ value ∈ setup.sizes, value.IsWord := by
  simp [Setup.sizes, Value.IsWord]

theorem Job.values_isWord (job : Job) : ∀ value ∈ job.values, value.IsWord := by
  simpa [Job.values, Value.IsWord] using job.isWord

theorem spells_jobs (jobs : List Job) :
    Spells (jobs.flatMap fun job => job.values.map Value.word)
      (jobs.flatMap fun job => writeLine (job.values.map Value.word)) := by
  induction jobs with
  | nil => exact .nil nofun
  | cons job jobs ih => exact spells_writeLine (List.cons_ne_nil _ _) (areWords job.values_isWord) ih

theorem spells_writeConfig (setup : Setup) : Spells setup.words (writeConfig setup) := by
  have sizes := spells_writeLine (List.cons_ne_nil _ _) (areWords setup.sizes_isWord) (spells_jobs setup.jobs)
  exact spells_writeLine (List.cons_ne_nil _ _) (areWords setup.header_isWord) sizes

/-! ## Reading it back -/

theorem readSwaps_spells {sizes : List Int32} {words : List (List Char)} {file : List Char}
    (spells : Spells (sizes.map (Value.word ∘ .int) ++ words) file) :
    ∃ rest, readSwaps sizes.length file = (sizes, rest) ∧ Spells words rest := by
  induction sizes generalizing file with
  | nil => exact ⟨file, rfl, spells⟩
  | cons size sizes ih =>
      have conversions : swapFormat.reduceOption = [Value.int size].map Value.conversion := rfl
      obtain ⟨after, first, spells⟩ := Spells.fscanfMixed conversions spells
      obtain ⟨rest, later, spells⟩ := ih spells
      refine ⟨rest, ?_, spells⟩
      simp only [List.length_cons, readSwaps, first, later]
      rfl

theorem Job.cString_name (job : Job) : cString job.name = job.name := by
  refine List.takeWhile_eq_self_iff.mpr fun c member => decide_eq_true ?_
  rintro rfl
  exact job.plain member

theorem readProcesses_spells (uninit : ConfigUninit) {jobs : List Job} (i : Nat) {file : List Char}
    (spells : Spells (jobs.flatMap fun job => job.values.map Value.word) file) :
    readProcesses uninit jobs.length i file =
      { path := jobs.map fun job => inputProc ++ job.name
        startTime := jobs.map Job.startTime
        prio := jobs.map Job.prio } := by
  induction jobs generalizing i file with
  | nil => rfl
  | cons job jobs ih =>
      have conversions : processFormat.reduceOption = job.values.map Value.conversion := rfl
      obtain ⟨rest, first, spells⟩ := Spells.fscanfMixed conversions spells
      have proc : stringAt job.values 1 (uninit.proc i) = job.name := rfl
      simp only [List.length_cons, readProcesses, first, ih (i + 1) spells, proc, job.cString_name, List.map_cons]
      rfl

theorem numProcesses_eq {n : Nat} (few : n < 2 ^ 31) : (Int32.ofNat n).toInt.toNat = n := by
  rw [Int32.toInt_ofNat_of_lt few]
  exact Int.toNat_natCast n

/-- Only the words of the file matter, and nothing that the variables hold before. -/
theorem readConfig_spells {setup : Setup} {file : List Char} (spells : Spells setup.words file)
    (uninit : ConfigUninit) : readConfig (some file) uninit = some setup.configuration := by
  have countsConversions : countsFormat.reduceOption = setup.header.map Value.conversion := rfl
  have ramConversions : ramFormat.reduceOption = [Value.int setup.memramsz].map Value.conversion := rfl
  obtain ⟨afterHeader, header, spells⟩ := Spells.fscanfMixed countsConversions spells
  rw [Setup.sizes, List.map_cons, List.cons_append, List.map_map] at spells
  obtain ⟨afterRam, ram, spells⟩ := Spells.fscanfMixed ramConversions spells
  obtain ⟨afterSwaps, swaps, spells⟩ := readSwaps_spells spells
  have processes := readProcesses_spells uninit 0 spells.skipSpace
  rw [setup.swaps] at swaps
  have count : intAt setup.header 2 0 = Int32.ofNat setup.jobs.length := rfl
  simp only [readConfig, Option.map_some, header, ram, swaps, count, numProcesses_eq setup.few, processes]
  rfl

/-- `readConfig` reads back what a configuration file says. -/
theorem readConfig_writeConfig (setup : Setup) (uninit : ConfigUninit) :
    readConfig (some (writeConfig setup)) uninit = some setup.configuration :=
  readConfig_spells (spells_writeConfig setup) uninit

/-- One CPU, and a process of priority 0 that starts at once. -/
def oneJob : Setup where
  timeSlot := 1
  numCpus := 1
  memramsz := 1024
  memswpsz := [1024, 0, 0, 0]
  jobs :=
    [{ startTime := 0, name := ['p', '0'], prio := 0
       isWord := ⟨nofun, by simp [isSpace]⟩, plain := by decide, fits := by decide }]
  swaps := rfl
  few := by decide

example : writeConfig oneJob = "1 1 1\n1024 1024 0 0 0\n0 p0 0\n".toList := by decide

end OsSim.Loader
