import Mathlib.Algebra.Order.Ring.Int
import Mathlib.Data.List.Basic

/-!
# Decimal numbers in texts

`strings.Split` with a one-character separator and `strconv.Atoi` on a 64-bit machine.
-/

namespace GitlabRunner.DecimalText

inductive NumError where
  | errSyntax
  | errRange
  deriving DecidableEq, Repr

/-- The digit loop of `strconv.ParseUint` in base ten with 64 bits. -/
def parseDigits : Nat → List Char → Except NumError Nat
  | value, [] => .ok value
  | value, digit :: digits =>
    if digit.isDigit then
      if 2 ^ 64 / 10 + 1 ≤ value then .error .errRange
      else if 2 ^ 64 ≤ 10 * value + (digit.toNat - '0'.toNat) then .error .errRange
      else parseDigits (10 * value + (digit.toNat - '0'.toNat)) digits
    else .error .errSyntax

def parseUint (text : List Char) : Except NumError Nat :=
  if text = [] then .error .errSyntax else parseDigits 0 text

/-- `strconv.ParseInt`: the value, which is meaningful also beside an error. -/
def parseInt (text : List Char) : Int × Option NumError :=
  let negative := text.head? = some '-'
  let digits := if text.head? = some '+' ∨ negative then text.tail else text
  match parseUint digits with
  | .error .errSyntax => (0, some .errSyntax)
  | .error .errRange =>
    if negative then (-2 ^ 63, some .errRange) else (2 ^ 63 - 1, some .errRange)
  | .ok value =>
    if negative then
      if 2 ^ 63 < value then (-2 ^ 63, some .errRange) else (-(value : Int), none)
    else
      if 2 ^ 63 ≤ value then (2 ^ 63 - 1, some .errRange) else ((value : Int), none)

/-- `strconv.Atoi` on a 64-bit machine. -/
def atoi (text : List Char) : Int × Option NumError :=
  parseInt text

/-- `strings.Split` with a separator of one character. -/
def split (separator : Char) : List Char → List (List Char)
  | [] => [[]]
  | char :: chars =>
    if char = separator then [] :: split separator chars
    else
      match split separator chars with
      | [] => [[char]]
      | part :: parts => (char :: part) :: parts

/-- Without an overflow the digit loop computes the value of the digits. -/
theorem parseDigits_eq_ok {digits : List Char} {value : Nat}
    (areDigits : ∀ digit ∈ digits, digit.isDigit = true)
    (small : Nat.ofDigitChars 10 digits value < 2 ^ 64) :
    parseDigits value digits = .ok (Nat.ofDigitChars 10 digits value) := by
  induction digits generalizing value with
  | nil => simp [parseDigits]
  | cons digit digits ih =>
    rw [Nat.ofDigitChars_cons] at small ⊢
    have grows : Nat.ofDigitChars 10 digits (10 * value + (digit.toNat - '0'.toNat)) =
        10 ^ digits.length * (10 * value + (digit.toNat - '0'.toNat)) +
          Nat.ofDigitChars 10 digits 0 :=
      Nat.ofDigitChars_eq_ofDigitChars_zero
    have power : 0 < 10 ^ digits.length := Nat.pow_pos (by decide)
    have nextSmall : 10 * value + (digit.toNat - '0'.toNat) < 2 ^ 64 := by
      have := Nat.le_mul_of_pos_left (10 * value + (digit.toNat - '0'.toNat)) power
      omega
    simp only [parseDigits, areDigits digit (by simp), if_true]
    rw [if_neg (by omega), if_neg (by omega)]
    exact ih (fun other member => areDigits other (by simp [member])) small

/-- `Atoi` reads back the decimal digits of every number that fits. -/
theorem atoi_toDigits {value : Nat} (small : value < 2 ^ 63) :
    atoi (Nat.toDigits 10 value) = ((value : Int), none) := by
  have noSign : ∀ sign : Char, sign.isDigit = false →
      (Nat.toDigits 10 value).head? ≠ some sign := by
    intro sign notDigit isHead
    rw [Nat.isDigit_of_mem_toDigits (by decide) (by decide) (List.mem_of_mem_head? isHead)]
      at notDigit
    cases notDigit
  have parsed : parseUint (Nat.toDigits 10 value) = .ok value := by
    rw [parseUint, if_neg Nat.toDigits_ne_nil, parseDigits_eq_ok]
    · rw [Nat.ofDigitChars_ten_toDigits]
    · exact fun digit member => Nat.isDigit_of_mem_toDigits (by decide) (by decide) member
    · rw [Nat.ofDigitChars_ten_toDigits]
      omega
  simp only [atoi, parseInt, noSign '+' (by decide), noSign '-' (by decide),
    or_self, if_false, parsed]
  rw [if_neg (by omega)]

theorem atoi_nonneg {text : List Char} (unsigned : '-' ∉ text) : 0 ≤ (atoi text).1 := by
  have noMinus : text.head? ≠ some '-' :=
    fun isHead => unsigned (List.mem_of_mem_head? isHead)
  simp only [atoi, parseInt, noMinus, or_false, if_false]
  split
  · simp
  · simp
  · split
    · simp
    · simp

variable {separator : Char}

theorem split_eq_singleton {text : List Char}
    (absent : separator ∉ text) : split separator text = [text] := by
  induction text with
  | nil => rfl
  | cons char chars ih =>
    have different : char ≠ separator := fun same => absent (by simp [same])
    simp only [split, different, if_false, ih (fun member => absent (by simp [member]))]

theorem split_append_separator {first rest : List Char} (absent : separator ∉ first) :
    split separator (first ++ separator :: rest) = first :: split separator rest := by
  induction first with
  | nil => simp [split]
  | cons char chars ih =>
    have different : char ≠ separator := fun same => absent (by simp [same])
    simp only [List.cons_append, split, different, if_false,
      ih (fun member => absent (by simp [member]))]

theorem separator_not_mem_split {text part : List Char}
    (member : part ∈ split separator text) : separator ∉ part := by
  induction text generalizing part with
  | nil =>
    simp only [split, List.mem_singleton] at member
    simp [member]
  | cons char chars ih =>
    by_cases isSeparator : char = separator
    · simp only [split, isSeparator, if_true, List.mem_cons] at member
      rcases member with rfl | member
      · simp
      · exact ih member
    · simp only [split, isSeparator, if_false] at member
      cases parts : split separator chars with
      | nil =>
        simp only [parts, List.mem_singleton] at member
        simp [member, Ne.symm isSeparator]
      | cons head tail =>
        simp only [parts, List.mem_cons] at member
        rcases member with rfl | member
        · have headClean : separator ∉ head := ih (by simp [parts])
          simp [headClean, Ne.symm isSeparator]
        · exact ih (by simp [parts, member])

end GitlabRunner.DecimalText
