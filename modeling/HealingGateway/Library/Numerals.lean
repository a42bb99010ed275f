import Mathlib.Data.Rat.Defs
import Mathlib.Data.List.TakeWhile
import Mathlib.Algebra.Order.Ring.Rat
import Mathlib.Tactic.Ring
import Mathlib.Tactic.FieldSimp

namespace Numerals

/-- A finite decimal with at least one digit behind the point: `mantissa / 10 ^ (places + 1)`. -/
structure Decimal where
  mantissa : ℤ
  places : ℕ
  deriving DecidableEq

def Decimal.toRat (d : Decimal) : ℚ := d.mantissa / 10 ^ (d.places + 1)

namespace Decimal

def double (d : Decimal) : Decimal := ⟨d.mantissa * 2, d.places⟩

def min (a b : Decimal) : Decimal := if b.toRat < a.toRat then b else a

@[simp] theorem toRat_double (d : Decimal) : d.double.toRat = d.toRat * 2 := by
  simp only [toRat, double, Int.cast_mul, Int.cast_ofNat]
  ring

@[simp] theorem toRat_min (a b : Decimal) : (min a b).toRat = Min.min a.toRat b.toRat := by
  unfold min
  split
  · next h => rw [min_eq_right h.le]
  · next h => rw [min_eq_left (not_lt.mp h)]

end Decimal

/-- A number as it is spelled: with a point or without. -/
inductive Numeral
  | int (n : ℤ)
  | decimal (d : Decimal)
  deriving DecidableEq

def natText (n : ℕ) : List Char := Nat.toDigits 10 n

def signText (n : ℤ) : List Char := if n < 0 then ['-'] else []

def intText (n : ℤ) : List Char := signText n ++ natText n.natAbs

def fixedText : ℕ → ℕ → List Char
  | 0, _ => []
  | width + 1, n => fixedText width (n / 10) ++ [Nat.digitChar (n % 10)]

def decimalText (d : Decimal) : List Char :=
  signText d.mantissa ++ natText (d.mantissa.natAbs / 10 ^ (d.places + 1)) ++
    '.' :: fixedText (d.places + 1) d.mantissa.natAbs

def readDigits (cs : List Char) : Option (List Char × List Char) :=
  match cs.takeWhile Char.isDigit with
  | [] => none
  | d :: ds => some (d :: ds, cs.dropWhile Char.isDigit)

def readUnsigned (neg : Bool) (cs : List Char) : Option (Numeral × List Char) := do
  let (whole, rest) ← readDigits cs
  let signed (n : ℕ) : ℤ := if neg then -n else n
  match rest with
  | '.' :: rest' =>
    let (fraction, rest'') ← readDigits rest'
    some (.decimal ⟨signed (Nat.ofDigitChars 10 (whole ++ fraction) 0), fraction.length - 1⟩, rest'')
  | _ => some (.int (signed (Nat.ofDigitChars 10 whole 0)), rest)

def readNumeral : List Char → Option (Numeral × List Char)
  | '-' :: cs => readUnsigned true cs
  | cs => readUnsigned false cs

theorem natText_isDigit {n : ℕ} {c : Char} (hc : c ∈ natText n) : c.isDigit = true :=
  Nat.isDigit_of_mem_toDigits (by decide) (by decide) hc

theorem natText_ne_nil (n : ℕ) : natText n ≠ [] := Nat.toDigits_ne_nil

theorem ofDigitChars_natText (n : ℕ) : Nat.ofDigitChars 10 (natText n) 0 = n :=
  Nat.ofDigitChars_ten_toDigits

theorem fixedText_isDigit {width n : ℕ} {c : Char} (hc : c ∈ fixedText width n) :
    c.isDigit = true := by
  induction width generalizing n with
  | zero => cases hc
  | succ width ih =>
    rcases List.mem_append.mp hc with hc | hc
    · exact ih hc
    · rw [List.mem_singleton.mp hc, Nat.isDigit_digitChar]
      exact decide_eq_true (Nat.mod_lt _ (by decide))

@[simp] theorem fixedText_length (width n : ℕ) : (fixedText width n).length = width := by
  induction width generalizing n with
  | zero => rfl
  | succ width ih => simp [fixedText, ih]

theorem ofDigitChars_fixedText (width n k : ℕ) :
    Nat.ofDigitChars 10 (fixedText width n) k = 10 ^ width * k + n % 10 ^ width := by
  induction width generalizing n with
  | zero => simp [fixedText, Nat.mod_one]
  | succ width ih =>
    rw [fixedText, Nat.ofDigitChars_append, ih,
      Nat.ofDigitChars_cons_digitChar_of_lt_ten (Nat.mod_lt _ (by decide)), Nat.ofDigitChars_nil,
      pow_succ', Nat.mod_mul]
    ring

def Stops (rest : List Char) : Prop := ∀ c ∈ rest.head?, c.isDigit = false

theorem takeWhile_digits {ds rest : List Char} (hd : ∀ c ∈ ds, c.isDigit = true)
    (hr : Stops rest) :
    (ds ++ rest).takeWhile Char.isDigit = ds ∧ (ds ++ rest).dropWhile Char.isDigit = rest := by
  rw [List.takeWhile_append_of_pos hd, List.dropWhile_append_of_pos hd]
  cases rest with
  | nil => simp
  | cons c cs =>
    have hc : c.isDigit = false := hr c (by simp)
    simp [hc]

theorem readDigits_append {ds rest : List Char} (hd : ∀ c ∈ ds, c.isDigit = true)
    (hne : ds ≠ []) (hr : Stops rest) : readDigits (ds ++ rest) = some (ds, rest) := by
  obtain ⟨ht, hdrop⟩ := takeWhile_digits hd hr
  cases ds with
  | nil => exact absurd rfl hne
  | cons d ds => simp only [readDigits, ht, hdrop]

theorem readUnsigned_nat (neg : Bool) (n : ℕ) {rest : List Char} (hr : Stops rest)
    (hp : rest.head? ≠ some '.') :
    readUnsigned neg (natText n ++ rest) = some (.int (if neg then -n else n), rest) := by
  rw [readUnsigned, readDigits_append (fun c hc ↦ natText_isDigit hc) (natText_ne_nil n) hr]
  simp only [Option.bind_eq_bind, Option.bind_some, ofDigitChars_natText]
  split
  · simp at hp
  · rfl

theorem readUnsigned_decimal (neg : Bool) (n p : ℕ) {rest : List Char} (hr : Stops rest) :
    readUnsigned neg (natText (n / 10 ^ (p + 1)) ++ '.' :: fixedText (p + 1) n ++ rest) =
      some (.decimal ⟨if neg then -n else n, p⟩, rest) := by
  have hpoint : Stops ('.' :: (fixedText (p + 1) n ++ rest)) := by
    intro c hc
    obtain rfl : '.' = c := by simpa using hc
    decide
  have hne : fixedText (p + 1) n ≠ [] := by
    intro h
    simpa using congrArg List.length h
  rw [List.append_assoc, List.cons_append, readUnsigned,
    readDigits_append (fun c hc ↦ natText_isDigit hc) (natText_ne_nil _) hpoint]
  simp only [Option.bind_eq_bind, Option.bind_some,
    readDigits_append (fun c hc ↦ fixedText_isDigit hc) hne hr, fixedText_length,
    Nat.ofDigitChars_append, ofDigitChars_natText, ofDigitChars_fixedText, Nat.add_sub_cancel,
    Nat.div_add_mod]

theorem readNumeral_digits {cs rest : List Char} (hd : ∀ c ∈ cs, c.isDigit = true)
    (hne : cs ≠ []) : readNumeral (cs ++ rest) = readUnsigned false (cs ++ rest) := by
  cases cs with
  | nil => exact absurd rfl hne
  | cons c cs =>
    have hc : c ≠ '-' := by
      rintro rfl
      exact absurd (hd '-' (by simp)) (by decide)
    simp only [List.cons_append]
    unfold readNumeral
    split
    · next heq => exact absurd (List.cons.inj heq).1 hc
    · rfl

theorem readNumeral_intText (n : ℤ) {rest : List Char} (hr : Stops rest)
    (hp : rest.head? ≠ some '.') : readNumeral (intText n ++ rest) = some (.int n, rest) := by
  by_cases hn : n < 0
  · have habs : -(n.natAbs : ℤ) = n := by omega
    have hread := readUnsigned_nat true n.natAbs hr hp
    rw [if_pos rfl, habs] at hread
    simpa only [intText, signText, if_pos hn, List.singleton_append, List.cons_append,
      readNumeral, List.nil_append] using hread
  · have habs : (n.natAbs : ℤ) = n := by omega
    have hread := readUnsigned_nat false n.natAbs hr hp
    rw [if_neg (by decide), habs] at hread
    rw [intText, signText, if_neg hn, List.nil_append,
      readNumeral_digits (fun c hc ↦ natText_isDigit hc) (natText_ne_nil _), hread]

theorem readNumeral_decimalText (d : Decimal) {rest : List Char} (hr : Stops rest) :
    readNumeral (decimalText d ++ rest) = some (.decimal d, rest) := by
  obtain ⟨m, p⟩ := d
  by_cases hm : m < 0
  · have habs : -(m.natAbs : ℤ) = m := by omega
    have hread := readUnsigned_decimal true m.natAbs p hr
    rw [if_pos rfl, habs] at hread
    simpa only [decimalText, signText, if_pos hm, List.singleton_append, List.cons_append,
      readNumeral, List.append_assoc, List.nil_append] using hread
  · have habs : (m.natAbs : ℤ) = m := by omega
    have hread := readUnsigned_decimal false m.natAbs p hr
    rw [if_neg (by decide), habs] at hread
    rw [decimalText, signText, if_neg hm, List.nil_append, List.append_assoc,
      readNumeral_digits (fun c hc ↦ natText_isDigit hc) (natText_ne_nil _), ← List.append_assoc,
      hread]

/-- `int(text)` of a text that is a whole number and nothing else. -/
def parseInt (s : String) : Option ℤ :=
  match readNumeral s.toList with
  | some (.int n, []) => some n
  | _ => none

/-- `float(text)`: a number spelled with a point or without. -/
def parseDecimal (s : String) : Option Decimal :=
  match readNumeral s.toList with
  | some (.int n, []) => some ⟨n * 10, 0⟩
  | some (.decimal d, []) => some d
  | _ => none

def intString (n : ℤ) : String := String.ofList (intText n)

def decimalString (d : Decimal) : String := String.ofList (decimalText d)

theorem stops_nil : Stops [] := fun _ hc ↦ by cases hc

@[simp] theorem parseInt_intString (n : ℤ) : parseInt (intString n) = some n := by
  have h := readNumeral_intText n stops_nil (by simp)
  simp only [List.append_nil] at h
  simp [parseInt, intString, h]

@[simp] theorem parseDecimal_decimalString (d : Decimal) :
    parseDecimal (decimalString d) = some d := by
  have h := readNumeral_decimalText d stops_nil
  simp only [List.append_nil] at h
  simp [parseDecimal, decimalString, h]

theorem intText_ne_nil (n : ℤ) : intText n ≠ [] := by
  simp [intText, natText_ne_nil]

theorem decimalText_ne_nil (d : Decimal) : decimalText d ≠ [] := by simp [decimalText]

theorem notMem_intText {c : Char} (hd : c.isDigit = false) (hs : c ≠ '-') (n : ℤ) :
    c ∉ intText n := by
  intro hc
  rcases List.mem_append.mp hc with hc | hc
  · unfold signText at hc
    split at hc
    · exact hs (List.mem_singleton.mp hc)
    · cases hc
  · exact absurd (natText_isDigit hc) (by simp [hd])

/-- Round half to even. -/
def roundHalfEven (q : ℚ) : ℤ :=
  let low := q.floor
  let rest := q - low
  if rest < 1 / 2 then low
  else if 1 / 2 < rest then low + 1
  else if low % 2 = 0 then low else low + 1

/-- `int(q)`. -/
def truncate (q : ℚ) : ℤ := if q < 0 then q.ceil else q.floor

/-- The decimal with one place nearest to a number, as `round(q, 1)` and `f"{q:.1f}"` give it. -/
def roundTenth (q : ℚ) : Decimal := ⟨roundHalfEven (q * 10), 0⟩

example : decimalString (roundTenth (1234 / 100)) = "12.3" := by decide +kernel

end Numerals
