import GitlabRunner.ByteText
import GitlabRunner.Utf8Runes
import Mathlib.Data.List.TakeWhile

/-!
# Functions of Go's packages strings and strconv

The functions on texts that scripts are made with.  Slices and elements that may be out of
range are options: without a value the program panics.  The file names nothing of the
runner.
-/

namespace GitlabRunner.GoStrings

open ByteText Utf8 List

def slice (text : List UInt8) (low high : Nat) : Option (List UInt8) :=
  if low ≤ high ∧ high ≤ text.length then some ((text.take high).drop low) else none

def startsWith (text start : List UInt8) : Bool :=
  start.isPrefixOf text

def trimRight (text : List UInt8) (cut : UInt8) : List UInt8 :=
  (text.reverse.dropWhile (· == cut)).reverse

/-- The text up to the end of the first occurrence of a separator, and the text behind it. -/
def cutAfter (separator : List UInt8) : List UInt8 → Option (List UInt8 × List UInt8)
  | [] => none
  | char :: rest =>
    if separator.isPrefixOf (char :: rest) then
      some (separator, (char :: rest).drop separator.length)
    else (cutAfter separator rest).map (Prod.map (char :: ·) id)

/-- `strings.SplitAfterN` into at most two texts. -/
def splitAfterTwo (text separator : List UInt8) : List (List UInt8) :=
  match cutAfter separator text with
  | some (first, second) => [first, second]
  | none => [text]

/-- `strings.SplitN` into at most two texts, with one byte as separator. -/
def splitTwo (text : List UInt8) (separator : UInt8) : List (List UInt8) :=
  let first := text.takeWhile (· != separator)
  if first.length < text.length then [first, text.drop (first.length + 1)] else [text]

def isSpace (rune : Char) : Bool :=
  let value := rune.toNat
  [9, 10, 11, 12, 13, 32, 0x85, 0xA0, 0x1680, 0x2028, 0x2029, 0x202F, 0x205F, 0x3000].contains
    value || (0x2000 ≤ value && value ≤ 0x200A)

/-- The runes of a text with the bytes that they were read from, and the number of bytes that
were already read as part of a rune. -/
def runePartsFrom : Nat → List UInt8 → List (Char × List UInt8)
  | _, [] => []
  | read + 1, _ :: rest => runePartsFrom read rest
  | 0, char :: rest =>
    let (rune, width) := decodeRune (char :: rest)
    (rune, (char :: rest).take width) :: runePartsFrom (width - 1) rest

def trimSpace (text : List UInt8) : List UInt8 :=
  let parts := (runePartsFrom 0 text).dropWhile fun part => isSpace part.1
  (parts.reverse.dropWhile fun part => isSpace part.1).reverse.flatMap (·.2)

/-- The words of a text, with the word that has been read so far. -/
def fieldsFrom : List UInt8 → List (Char × List UInt8) → List (List UInt8)
  | word, [] => if word = [] then [] else [word]
  | word, (rune, bytes) :: rest =>
    if isSpace rune then (if word = [] then [] else [word]) ++ fieldsFrom [] rest
    else fieldsFrom (word ++ bytes) rest

def fields (text : List UInt8) : List (List UInt8) :=
  fieldsFrom [] (runePartsFrom 0 text)

def parseBool (text : List UInt8) : Option Bool :=
  if (["1", "t", "T", "TRUE", "true", "True"].map ascii).contains text then some true
  else if (["0", "f", "F", "FALSE", "false", "False"].map ascii).contains text then some false
  else none

variable (text : List UInt8)

theorem slice_isSome_iff (high : Nat) : (slice text 0 high).isSome ↔ high ≤ text.length := by
  rw [slice]
  split
  · case isTrue inside => simp [inside.2]
  · case isFalse outside =>
      simp only [Option.isSome_none, Bool.false_eq_true, false_iff]
      exact fun long => outside ⟨Nat.zero_le _, long⟩

theorem cutAfter_isSome_iff {separator : List UInt8} (nonempty : separator ≠ [])
    (text : List UInt8) : (cutAfter separator text).isSome ↔ separator <:+: text := by
  induction text with
  | nil => simp [cutAfter, nonempty]
  | cons char rest ih =>
    rw [cutAfter, infix_cons_iff]
    split
    · case isTrue starts => simp [List.isPrefixOf_iff_prefix.mp starts]
    · case isFalse different =>
        rw [Option.isSome_map, ih, or_iff_right]
        exact fun starts => different (List.isPrefixOf_iff_prefix.mpr starts)

variable {separator : UInt8}

theorem splitTwo_of_not_mem {text : List UInt8} (missing : separator ∉ text) :
    splitTwo text separator = [text] := by
  have whole : text.takeWhile (· != separator) = text := by
    rw [takeWhile_eq_self_iff]
    intro char member
    simpa using fun same : char = separator => missing (same ▸ member)
  rw [splitTwo, whole]
  exact if_neg (Nat.lt_irrefl _)

theorem splitTwo_append {first : List UInt8} (missing : separator ∉ first)
    (rest : List UInt8) : splitTwo (first ++ separator :: rest) separator = [first, rest] := by
  have taken : (first ++ separator :: rest).takeWhile (· != separator) = first := by
    rw [takeWhile_append_of_pos, takeWhile_cons_of_neg (by simp), append_nil]
    intro char member
    simpa using fun same : char = separator => missing (same ▸ member)
  rw [splitTwo, taken]
  simp

theorem append_cons_inj_first {first other rest behind : List UInt8}
    (missing : separator ∉ first) (missingOther : separator ∉ other)
    (same : first ++ separator :: rest = other ++ separator :: behind) :
    first = other ∧ rest = behind := by
  have split := congrArg (splitTwo · separator) same
  simp only [splitTwo_append missing, splitTwo_append missingOther] at split
  simpa using split

theorem splitTwo_cases (separator : UInt8) :
    (separator ∉ text ∧ splitTwo text separator = [text]) ∨
      ∃ first rest, text = first ++ separator :: rest ∧ separator ∉ first ∧
        splitTwo text separator = [first, rest] := by
  by_cases present : separator ∈ text
  · obtain ⟨first, rest, rfl, missing⟩ := eq_append_cons_of_mem present
    exact .inr ⟨first, rest, rfl, missing, splitTwo_append missing rest⟩
  · exact .inl ⟨present, splitTwo_of_not_mem present⟩

theorem splitTwo_first_isSome (separator : UInt8) : ((splitTwo text separator)[0]?).isSome := by
  rw [splitTwo]
  split <;> rfl

theorem runePartsFrom_drop (read : Nat) (text : List UInt8) :
    runePartsFrom read text = runePartsFrom 0 (text.drop read) := by
  induction text generalizing read with
  | nil => cases read <;> simp [runePartsFrom]
  | cons char rest ih =>
    cases read with
    | zero => rfl
    | succ read => exact ih read

theorem runePartsFrom_cons (char : UInt8) (rest : List UInt8) :
    runePartsFrom 0 (char :: rest) =
      ((decodeRune (char :: rest)).1, (char :: rest).take (decodeRune (char :: rest)).2) ::
        runePartsFrom 0 ((char :: rest).drop (decodeRune (char :: rest)).2) := by
  obtain ⟨width, widthEq⟩ := Nat.exists_eq_add_of_le' (decodeRune_width char rest).1
  refine congrArg (List.cons _) ?_
  change runePartsFrom ((decodeRune (char :: rest)).2 - 1) rest = _
  rw [runePartsFrom_drop, widthEq]
  rfl

/-- The bytes of the runes are the text; each rune is one byte of ASCII or has no such byte. -/
theorem runeParts_spec :
    (runePartsFrom 0 text).flatMap Prod.snd = text ∧ ∀ part ∈ runePartsFrom 0 text,
      (∃ char : UInt8, char.toNat < 0x80 ∧ part.2 = [char]) ∨
        part.2 ≠ [] ∧ ∀ char ∈ part.2, 0x80 ≤ char.toNat := by
  induction length : text.length using Nat.strongRecOn generalizing text with
  | _ bound ih =>
    cases text with
    | nil => simp [runePartsFrom]
    | cons char rest =>
      have width := decodeRune_width char rest
      obtain ⟨bytes, parts⟩ := ih _ (by simp at length ⊢; omega)
        ((char :: rest).drop (decodeRune (char :: rest)).2) rfl
      rw [runePartsFrom_cons]
      refine ⟨?_, forall_mem_cons.mpr ⟨?_, parts⟩⟩
      · rw [flatMap_cons, bytes, take_append_drop]
      · rcases decodeRune_bytes char rest with ⟨ascii, one⟩ | large
        · exact .inl ⟨char, ascii, by simp [one]⟩
        · refine .inr ⟨?_, large⟩
          rw [Ne, take_eq_nil_iff]
          simp
          omega

end GitlabRunner.GoStrings
