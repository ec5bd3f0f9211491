import Mathlib.Algebra.GroupWithZero.Nat
import Mathlib.Algebra.Ring.Int.Defs
import Mathlib.Data.List.ReduceOption
import Mathlib.Data.List.TakeWhile

namespace Scanf

/-! ## Conversions -/

/-- `isspace`: the blank and the characters from tab to carriage return. -/
def isSpace (c : Char) : Bool := c = ' ' || 9 ≤ c.toNat && c.toNat ≤ 13

def skipSpace (input : List Char) : List Char := input.dropWhile isSpace

/-- The conversion `%s`: the characters up to the next space, and what is left of the input. -/
def scanString (input : List Char) : Option (List Char) × List Char :=
  let input := skipSpace input
  match input.takeWhile fun c => !isSpace c with
  | [] => (none, input)
  | word => (some word, input.dropWhile fun c => !isSpace c)

def scanSign : List Char → Bool × List Char
  | '-' :: input => (true, input)
  | '+' :: input => (false, input)
  | input => (false, input)

/-- `strtoul` in base 10, where `unsigned long` has 64 bits. -/
def strtoul (minus : Bool) (digits : List Char) : Nat :=
  let value := Nat.ofDigitChars 10 digits 0
  if value < 2 ^ 64 then if minus then (2 ^ 64 - value) % 2 ^ 64 else value else 2 ^ 64 - 1

/-- The conversion `%u` to an `unsigned int`. A sign that no digit follows is read all the same. -/
def scanUnsigned (input : List Char) : Option UInt32 × List Char :=
  let (minus, input) := scanSign (skipSpace input)
  match input.takeWhile Char.isDigit with
  | [] => (none, input)
  | digits => (some (UInt32.ofNat (strtoul minus digits)), input.dropWhile Char.isDigit)

/-- The sign and the digits of a number. A sign that no digit follows is read all the same. -/
def scanNumber (input : List Char) : Option (Bool × List Char) × List Char :=
  let (minus, input) := scanSign (skipSpace input)
  match input.takeWhile Char.isDigit with
  | [] => (none, input)
  | digits => (some (minus, digits), input.dropWhile Char.isDigit)

/-- `strtol` in base 10, where `long` has 64 bits. -/
def strtol (minus : Bool) (digits : List Char) : Int :=
  let value : Int := Nat.ofDigitChars 10 digits 0
  if minus then max (-value) (-2 ^ 63) else min value (2 ^ 63 - 1)

/-- The conversion `%d` to an `int`. -/
def scanInt (input : List Char) : Option Int32 × List Char :=
  let (number, input) := scanNumber input
  (number.map fun (minus, digits) => Int32.ofInt (strtol minus digits), input)

/-- The conversion `%lu` to an `unsigned long`. -/
def scanUlong (input : List Char) : Option UInt64 × List Char :=
  let (number, input) := scanNumber input
  (number.map fun (minus, digits) => UInt64.ofNat (strtoul minus digits), input)

inductive Directive
  | space | unsigned
deriving DecidableEq

/-- The values that a format assigns, in their order: the first conversion that fails ends it. -/
def fscanf : List Directive → List Char → List UInt32 × List Char
  | [], input => ([], input)
  | .space :: format, input => fscanf format (skipSpace input)
  | .unsigned :: format, input =>
      match scanUnsigned input with
      | (none, input) => ([], input)
      | (some value, input) =>
          let (values, input) := fscanf format input
          (value :: values, input)

/-! ## Texts as words -/

/-- What `printf` writes for `%u`. -/
def decimal (n : Nat) : List Char := Nat.toDigits 10 n

def IsWord (word : List Char) : Prop := word ≠ [] ∧ ∀ c ∈ word, isSpace c = false

def Ends (rest : List Char) : Prop := ∀ c ∈ rest.head?, isSpace c = true

/-- A text that is a list of words with spaces between them. -/
inductive Spells : List (List Char) → List Char → Prop
  | nil {text : List Char} (blank : ∀ c ∈ text, isSpace c = true) : Spells [] text
  | cons {before word rest : List Char} {words : List (List Char)} (blank : ∀ c ∈ before, isSpace c = true)
      (isWord : IsWord word) (ends : Ends rest) (later : Spells words rest) :
      Spells (word :: words) (before ++ (word ++ rest))

theorem isSpace_of_isDigit {c : Char} (digit : c.isDigit = true) : isSpace c = false := by
  have range := Char.isDigit_iff_toNat.mp digit
  have low : 48 ≤ c.toNat := range.1
  have visible : c ≠ ' ' := by
    rintro rfl
    exact absurd low (by decide)
  simp only [isSpace, visible, decide_false, Bool.false_or, Bool.and_eq_false_iff, decide_eq_false_iff_not]
  omega

theorem isDigit_of_isSpace {c : Char} (space : isSpace c = true) : c.isDigit = false := by
  by_contra digit
  rw [Bool.not_eq_false] at digit
  rw [isSpace_of_isDigit digit] at space
  cases space

/-- Where `%s` finds no word, it reads the input to its end. -/
theorem scanString_none {input : List Char} (blank : (scanString input).1 = none) : scanString input = (none, []) := by
  have visible := List.head?_dropWhile_not isSpace input
  rw [← skipSpace] at visible
  simp only [scanString] at blank ⊢
  cases left : skipSpace input with
  | nil => rfl
  | cons c rest =>
      rw [left] at visible blank
      have shown : isSpace c = false := visible
      simp [shown] at blank

theorem fscanf_nil (format : List Directive) : fscanf format [] = ([], []) := by
  induction format with
  | nil => rfl
  | cons directive format ih =>
      cases directive with
      | space => exact ih
      | unsigned => rfl

theorem decimal_isDigit {n : Nat} : ∀ c ∈ decimal n, c.isDigit = true :=
  fun _ member => Nat.isDigit_of_mem_toDigits (by decide) (by decide) member

theorem isWord_decimal (n : Nat) : IsWord (decimal n) :=
  ⟨Nat.toDigits_ne_nil, fun c member => isSpace_of_isDigit (decimal_isDigit c member)⟩

section Spans

variable {p : Char → Bool} {word rest : List Char}

theorem takeWhile_word (all : ∀ c ∈ word, p c = true) (stops : ∀ c ∈ rest.head?, p c = false) :
    (word ++ rest).takeWhile p = word := by
  have nothing : rest.takeWhile p = [] := by
    cases rest with
    | nil => rfl
    | cons c rest => rw [List.takeWhile_cons, stops c rfl, if_neg Bool.false_ne_true]
  rw [List.takeWhile_append_of_pos all, nothing, List.append_nil]

theorem dropWhile_word (all : ∀ c ∈ word, p c = true) (stops : ∀ c ∈ rest.head?, p c = false) :
    (word ++ rest).dropWhile p = rest := by
  rw [List.dropWhile_append_of_pos all]
  cases rest with
  | nil => rfl
  | cons c rest => rw [List.dropWhile_cons, stops c rfl, if_neg Bool.false_ne_true]

end Spans

/-! ## Reading the words of a text -/

section Spells

variable {before word rest text : List Char} {words : List (List Char)}

theorem skipSpace_word (blank : ∀ c ∈ before, isSpace c = true) (isWord : IsWord word) :
    skipSpace (before ++ (word ++ rest)) = word ++ rest := by
  obtain ⟨nonempty, visible⟩ := isWord
  refine dropWhile_word blank ?_
  cases word with
  | nil => exact absurd rfl nonempty
  | cons c word =>
      intro head first
      cases first
      exact visible c List.mem_cons_self

theorem Spells.first (isWord : IsWord word) (ends : Ends rest) (later : Spells words rest) :
    Spells (word :: words) (word ++ rest) :=
  @Spells.cons [] word rest words nofun isWord ends later

theorem Spells.skipSpace (spells : Spells words text) : Spells words (skipSpace text) := by
  cases spells with
  | nil blank =>
      rw [Scanf.skipSpace, List.dropWhile_eq_nil_iff.mpr blank]
      exact .nil nofun
  | cons blank isWord ends later =>
      rw [skipSpace_word blank isWord]
      exact .first isWord ends later

theorem Spells.space {c : Char} (space : isSpace c = true) (spells : Spells words text) :
    Spells words (c :: text) := by
  cases spells with
  | nil blank => exact .nil (List.forall_mem_cons.mpr ⟨space, blank⟩)
  | cons blank isWord ends later =>
      exact @Spells.cons (c :: _) _ _ _ (List.forall_mem_cons.mpr ⟨space, blank⟩) isWord ends later

theorem Spells.scanString (spells : Spells (word :: words) text) :
    ∃ rest, scanString text = (some word, rest) ∧ Spells words rest := by
  cases spells with
  | @cons before _ rest _ blank isWord ends later =>
      refine ⟨rest, ?_, later⟩
      have visible : ∀ c ∈ word, (!isSpace c) = true := fun c member => by rw [isWord.2 c member]; rfl
      have stops : ∀ c ∈ rest.head?, (!isSpace c) = false := fun c first => by rw [ends c first]; rfl
      simp only [Scanf.scanString, skipSpace_word blank isWord]
      rw [takeWhile_word visible stops, dropWhile_word visible stops]
      cases word with
      | nil => exact absurd rfl isWord.1
      | cons => rfl

theorem scanSign_of_isDigit {input : List Char} (digit : ∀ c ∈ input.head?, c.isDigit = true) :
    scanSign input = (false, input) := by
  unfold scanSign
  split
  · exact absurd (digit _ rfl) (by decide)
  · exact absurd (digit _ rfl) (by decide)
  · rfl

theorem strtoul_decimal {n : Nat} (fits : n < 2 ^ 64) : strtoul false (decimal n) = n := by
  rw [strtoul, decimal, Nat.ofDigitChars_ten_toDigits]
  exact if_pos fits

/-- A word that is a sign, or none, and digits. -/
structure IsNumber (word : List Char) (minus : Bool) (digits : List Char) : Prop where
  nonempty : digits ≠ []
  areDigits : ∀ c ∈ digits, c.isDigit = true
  sign : ∀ rest, scanSign (word ++ rest) = (minus, digits ++ rest)

theorem isNumber_digits {digits : List Char} (nonempty : digits ≠ []) (areDigits : ∀ c ∈ digits, c.isDigit = true) :
    IsNumber digits false digits := by
  refine ⟨nonempty, areDigits, fun rest => scanSign_of_isDigit fun c first => areDigits c ?_⟩
  cases digits with
  | nil => exact absurd rfl nonempty
  | cons d digits =>
      cases first
      exact List.mem_cons_self

theorem isNumber_decimal (n : Nat) : IsNumber (decimal n) false (decimal n) :=
  isNumber_digits (isWord_decimal n).1 decimal_isDigit

theorem Spells.scanNumber {minus : Bool} {digits : List Char} (isNumber : IsNumber word minus digits)
    (spells : Spells (word :: words) text) :
    ∃ rest, scanNumber text = (some (minus, digits), rest) ∧ Spells words rest := by
  cases spells with
  | @cons before _ rest _ blank isWord ends later =>
      refine ⟨rest, ?_, later⟩
      have stops : ∀ c ∈ rest.head?, c.isDigit = false := fun c first => isDigit_of_isSpace (ends c first)
      simp only [Scanf.scanNumber, skipSpace_word blank isWord, isNumber.sign rest]
      rw [takeWhile_word isNumber.areDigits stops, dropWhile_word isNumber.areDigits stops]
      cases digits with
      | nil => exact absurd rfl isNumber.nonempty
      | cons => rfl

theorem scanUnsigned_eq (input : List Char) :
    scanUnsigned input =
      ((scanNumber input).1.map fun (minus, digits) => UInt32.ofNat (strtoul minus digits), (scanNumber input).2) := by
  simp only [scanUnsigned, scanNumber]
  split <;> rfl

theorem Spells.scanUnsigned {n : Nat} (fits : n < 2 ^ 64) (spells : Spells (decimal n :: words) text) :
    ∃ rest, scanUnsigned text = (some (UInt32.ofNat n), rest) ∧ Spells words rest := by
  obtain ⟨rest, number, later⟩ := Spells.scanNumber (isNumber_decimal n) spells
  refine ⟨rest, ?_, later⟩
  rw [scanUnsigned_eq, number, Option.map_some]
  dsimp only
  rw [strtoul_decimal fits]

/-- A format with as many conversions as there are numbers at the front of the text reads them all. -/
theorem Spells.fscanf {format : List Directive} {values : List Nat}
    (count : format.count .unsigned = values.length) (fit : ∀ value ∈ values, value < 2 ^ 64)
    (spells : Spells (values.map decimal ++ words) text) :
    ∃ rest, fscanf format text = (values.map UInt32.ofNat, rest) ∧ Spells words rest := by
  induction format generalizing values text with
  | nil =>
      have none : values = [] := List.eq_nil_of_length_eq_zero count.symm
      subst none
      exact ⟨text, rfl, spells⟩
  | cons directive format ih =>
      cases directive with
      | space => exact ih (by simpa using count) fit spells.skipSpace
      | unsigned =>
          cases values with
          | nil => simp at count
          | cons value values =>
              obtain ⟨fits, others⟩ := List.forall_mem_cons.mp fit
              obtain ⟨after, first, spells⟩ := Spells.scanUnsigned fits spells
              obtain ⟨rest, later, spells⟩ := ih (by simpa using count) others spells
              refine ⟨rest, ?_, spells⟩
              simp only [Scanf.fscanf, first, later, List.map_cons]

end Spells

/-! ## Formats with conversions of several types -/

/-- What `printf` writes for `%d`. -/
def signed : Int → List Char
  | .ofNat n => decimal n
  | .negSucc n => '-' :: decimal (n + 1)

inductive Conversion
  | int | ulong | string
deriving DecidableEq

inductive Value
  | int (n : Int32)
  | ulong (n : UInt64)
  | string (word : List Char)
deriving DecidableEq

def Value.conversion : Value → Conversion
  | .int _ => .int
  | .ulong _ => .ulong
  | .string _ => .string

def Conversion.scan : Conversion → List Char → Option Value × List Char
  | .int, input => ((scanInt input).1.map .int, (scanInt input).2)
  | .ulong, input => ((scanUlong input).1.map .ulong, (scanUlong input).2)
  | .string, input => ((scanString input).1.map .string, (scanString input).2)

/-- As `fscanf`, where a directive is a space (`none`) or a conversion. -/
def fscanfMixed : List (Option Conversion) → List Char → List Value × List Char
  | [], input => ([], input)
  | none :: format, input => fscanfMixed format (skipSpace input)
  | some conversion :: format, input =>
      match conversion.scan input with
      | (none, input) => ([], input)
      | (some value, input) =>
          let (values, input) := fscanfMixed format input
          (value :: values, input)

/-- What `printf` writes for a value. -/
def Value.word : Value → List Char
  | .int n => signed n.toInt
  | .ulong n => decimal n.toNat
  | .string word => word

def Value.IsWord : Value → Prop
  | .string word => Scanf.IsWord word
  | _ => True

theorem isNumber_signed (n : Int) : IsNumber (signed n) (decide (n < 0)) (decimal n.natAbs) := by
  cases n with
  | ofNat n => exact isNumber_decimal n
  | negSucc n =>
      obtain ⟨nonempty, areDigits, _⟩ := isNumber_decimal (n + 1)
      refine ⟨nonempty, areDigits, fun rest => ?_⟩
      rw [decide_eq_true (Int.negSucc_lt_zero n)]
      rfl

theorem isWord_signed (n : Int) : IsWord (signed n) := by
  cases n with
  | ofNat n => exact isWord_decimal n
  | negSucc n => exact ⟨List.cons_ne_nil _ _, List.forall_mem_cons.mpr ⟨rfl, (isWord_decimal (n + 1)).2⟩⟩

theorem Value.isWord_word {value : Value} (isWord : value.IsWord) : Scanf.IsWord value.word := by
  cases value with
  | int n => exact isWord_signed n.toInt
  | ulong n => exact isWord_decimal n.toNat
  | string word => exact isWord

theorem strtol_signed {n : Int} (low : -2 ^ 63 ≤ n) (high : n < 2 ^ 63) :
    strtol (decide (n < 0)) (decimal n.natAbs) = n := by
  rw [strtol, decimal, Nat.ofDigitChars_ten_toDigits]
  by_cases negative : n < 0
  · simp only [negative, decide_true, if_true]
    omega
  · simp only [negative, decide_false, Bool.false_eq_true, if_false]
    omega

theorem Spells.scan {words : List (List Char)} {text : List Char} {value : Value}
    (spells : Spells (value.word :: words) text) :
    ∃ rest, value.conversion.scan text = (some value, rest) ∧ Spells words rest := by
  cases value with
  | int n =>
      have low := Int32.le_toInt n
      have high := Int32.toInt_lt n
      obtain ⟨rest, number, later⟩ := Spells.scanNumber (isNumber_signed n.toInt) spells
      refine ⟨rest, ?_, later⟩
      simp only [Value.conversion, Conversion.scan, scanInt, number, Option.map_some]
      rw [strtol_signed (by omega) (by omega), Int32.ofInt_toInt]
  | ulong n =>
      obtain ⟨rest, number, later⟩ := Spells.scanNumber (isNumber_decimal n.toNat) spells
      refine ⟨rest, ?_, later⟩
      simp only [Value.conversion, Conversion.scan, scanUlong, number, Option.map_some]
      rw [strtoul_decimal n.toNat_lt, UInt64.ofNat_toNat]
  | string word =>
      obtain ⟨rest, scanned, later⟩ := Spells.scanString spells
      refine ⟨rest, ?_, later⟩
      rw [Value.conversion, Conversion.scan, scanned]
      rfl

/-- A format reads the values back whose conversions it has, in this order. -/
theorem Spells.fscanfMixed {format : List (Option Conversion)} {values : List Value} {words : List (List Char)}
    {text : List Char} (conversions : format.reduceOption = values.map Value.conversion)
    (spells : Spells (values.map Value.word ++ words) text) :
    ∃ rest, fscanfMixed format text = (values, rest) ∧ Spells words rest := by
  induction format generalizing values text with
  | nil =>
      have none : values = [] := List.map_eq_nil_iff.mp conversions.symm
      subst none
      exact ⟨text, rfl, spells⟩
  | cons directive format ih =>
      cases directive with
      | none => exact ih conversions spells.skipSpace
      | some conversion =>
          rw [List.reduceOption_cons_of_some] at conversions
          cases values with
          | nil => cases conversions
          | cons value values =>
              obtain ⟨same, others⟩ := List.cons.inj conversions
              obtain ⟨after, first, spells⟩ := Spells.scan spells
              obtain ⟨rest, later, spells⟩ := ih others spells
              refine ⟨rest, ?_, spells⟩
              simp only [Scanf.fscanfMixed, same, first, later]

/-! ## Writing words -/

/-- The words with a blank between them. -/
def spaced : List (List Char) → List Char
  | [] => []
  | [word] => word
  | word :: words => word ++ ' ' :: spaced words

theorem spells_spaced {first later : List (List Char)} {rest : List Char} (nonempty : first ≠ [])
    (areWords : ∀ word ∈ first, IsWord word) (ends : Ends rest) (spells : Spells later rest) :
    Spells (first ++ later) (spaced first ++ rest) := by
  induction first with
  | nil => exact absurd rfl nonempty
  | cons word words ih =>
      have isWord := areWords word List.mem_cons_self
      cases words with
      | nil => exact .first isWord ends spells
      | cons next words =>
          have others : ∀ other ∈ next :: words, IsWord other :=
            fun other member => areWords other (List.mem_cons_of_mem _ member)
          have tail : Spells (next :: words ++ later) (spaced (next :: words) ++ rest) :=
            ih (List.cons_ne_nil _ _) others
          have blank : Ends (' ' :: (spaced (next :: words) ++ rest)) := by
            rintro c ⟨⟩
            rfl
          have split : spaced (word :: next :: words) = word ++ ' ' :: spaced (next :: words) := rfl
          rw [split, List.append_assoc]
          exact .first isWord blank (tail.space rfl)

end Scanf
