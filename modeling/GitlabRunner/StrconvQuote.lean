import GitlabRunner.ByteText
import GitlabRunner.Utf8Runes
import Mathlib.Algebra.Group.Nat.Defs

/-!
# Go string literals

`strconv.Quote`, which is also the verb `%q` of `fmt`: a text in double quotes in which
every rune that is not printable is written as an escape of the Go language.
-/

namespace GitlabRunner.Strconv

open ByteText Utf8

def quoteMark : UInt8 := 34
def backslash : UInt8 := 92

def hexDigits (count value : Nat) : List UInt8 :=
  (List.range count).reverse.map fun place => byte (Nat.digitChar (value / 16 ^ place % 16))

def letter (rune : Nat) : Option UInt8 :=
  if rune = 7 then some (byte 'a')
  else if rune = 8 then some (byte 'b')
  else if rune = 12 then some (byte 'f')
  else if rune = 10 then some (byte 'n')
  else if rune = 13 then some (byte 'r')
  else if rune = 9 then some (byte 't')
  else if rune = 11 then some (byte 'v')
  else none

def escape (rune : Nat) : List UInt8 :=
  match letter rune with
  | some char => [backslash, char]
  | none =>
    if rune < 32 then backslash :: byte 'x' :: hexDigits 2 rune
    else if rune < 0x10000 then backslash :: byte 'u' :: hexDigits 4 rune
    else backslash :: byte 'U' :: hexDigits 8 rune

section Quote

variable (isPrint : Char → Bool)

def escapedRune (rune : Char) : List UInt8 :=
  if rune = '"' ∨ rune = '\\' then [backslash, byte rune]
  else if isPrint rune then String.utf8EncodeChar rune
  else escape rune.toNat

/-- The loop of `Quote`, with the number of bytes that were already read as part of a
rune. -/
def quoteFrom : Nat → List UInt8 → List UInt8
  | _, [] => []
  | read + 1, _ :: rest => quoteFrom read rest
  | 0, char :: rest =>
    let (rune, width) := decodeRune (char :: rest)
    (if width = 1 ∧ rune = runeError then backslash :: byte 'x' :: hexDigits 2 char.toNat
      else escapedRune isPrint rune) ++ quoteFrom (width - 1) rest

def quote (text : List UInt8) : List UInt8 :=
  quoteMark :: quoteFrom isPrint 0 text ++ [quoteMark]

end Quote

variable {isPrint : Char → Bool}

theorem quoteFrom_drop (read : Nat) (bytes : List UInt8) :
    quoteFrom isPrint read bytes = quoteFrom isPrint 0 (bytes.drop read) := by
  induction bytes generalizing read with
  | nil =>
    rw [List.drop_nil]
    cases read <;> rfl
  | cons byte rest ih =>
    cases read with
    | zero => rfl
    | succ read => exact ih read

theorem quoteFrom_encode (text : List Char) :
    quoteFrom isPrint 0 (encode text) = text.flatMap (escapedRune isPrint) := by
  induction text with
  | nil => rfl
  | cons rune text ih =>
    have decoded := decodeRune_encode_append rune (encode text)
    have rest : (encode (rune :: text)).drop (String.utf8EncodeChar rune).length =
        encode text := List.drop_left
    have valid : ¬((String.utf8EncodeChar rune).length = 1 ∧ rune = runeError) := by
      rintro ⟨short, rfl⟩
      exact absurd short (by decide)
    cases bytes : encode (rune :: text) with
    | nil => exact absurd bytes (encode_ne_nil (List.cons_ne_nil _ _))
    | cons first others =>
      have wide := (decodeRune_width first others).1
      rw [← encode_cons, bytes] at decoded
      rw [bytes] at rest
      rw [decoded] at wide
      dsimp only at wide
      obtain ⟨more, width⟩ := Nat.exists_eq_add_of_le' wide
      rw [width, List.drop_succ_cons] at rest
      rw [width] at decoded valid
      simp only [quoteFrom, decoded, valid, if_false, List.flatMap_cons, Nat.add_sub_cancel]
      rw [quoteFrom_drop, rest, ih]

theorem quote_encode (text : List Char) :
    quote isPrint (encode text) =
      quoteMark :: text.flatMap (escapedRune isPrint) ++ [quoteMark] := by
  rw [quote, quoteFrom_encode]

/-- The runes that are not written as an escape of the language. -/
def Literal (isPrint : Char → Bool) (rune : Char) : Prop :=
  rune = '"' ∨ rune = '\\' ∨ isPrint rune = true

instance (isPrint : Char → Bool) (rune : Char) : Decidable (Literal isPrint rune) :=
  inferInstanceAs (Decidable (_ ∨ _ ∨ _))

theorem escapedRune_of_not_literal {rune : Char} (escaped : ¬Literal isPrint rune) :
    escapedRune isPrint rune = escape rune.toNat := by
  rw [Literal, ← or_assoc, not_or] at escaped
  rw [escapedRune, if_neg escaped.1, if_neg escaped.2]

theorem length_hexDigits (count value : Nat) : (hexDigits count value).length = count := by
  simp [hexDigits]

theorem letter_lt {rune : Nat} {char : UInt8} (named : letter rune = some char) : rune < 32 := by
  unfold letter at named
  split_ifs at named
  all_goals omega

theorem letter_eq_none {rune : Nat} (large : 32 ≤ rune) : letter rune = none := by
  cases named : letter rune with
  | none => rfl
  | some char => exact absurd (letter_lt named) (by omega)

theorem two_le_length_escape (rune : Nat) : 2 ≤ (escape rune).length := by
  unfold escape
  split
  · simp
  · split_ifs <;> simp

theorem length_lt_escape (rune : Char) :
    (String.utf8EncodeChar rune).length < (escape rune.toNat).length := by
  have long : 0x80 ≤ rune.toNat → 6 ≤ (escape rune.toNat).length := by
    intro large
    rw [escape, letter_eq_none (by omega)]
    dsimp only
    rw [if_neg (by omega)]
    split_ifs <;> simp [length_hexDigits]
  rw [utf8EncodeChar_eq]
  split <;> [skip; split <;> [skip; split]]
  · exact two_le_length_escape rune.toNat
  all_goals exact lt_of_lt_of_le (by simp) (long (by omega))

end GitlabRunner.Strconv
