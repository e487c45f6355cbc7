import GitlabRunner.BuildIdentities
import GitlabRunner.GoStrings
import GitlabRunner.StrconvQuote

/-!
# The names of the machines

A runner finds its machines in the list of all machines by their names: `Sscanf` reads the name
with the format that `Sprintf` wrote it with.
-/

namespace GitlabRunner.MachineNames

open ByteText Utf8 GoStrings List

/-- `unicode.ToLower`, as far as the result is in ASCII: two runes outside ASCII have a lower
case inside it, and no other rune enters or leaves it. -/
def lower (rune : Char) : Char :=
  if 65 ≤ rune.toNat ∧ rune.toNat ≤ 90 then Char.ofNat (rune.toNat + 32)
  else if rune.toNat = 0x130 then 'i'
  else if rune.toNat = 0x212A then 'k'
  else rune

def toLower (text : List UInt8) : List UInt8 :=
  encode ((runes text).map lower)

def isLetterOrDigit (rune : Char) : Bool :=
  rune.isLower || rune.isDigit

/-- The first step leaves one byte for each rune, so that the cut is one of runes. -/
def makeRFC1123Compatible (name : List UInt8) : List UInt8 :=
  let allowed := (runes (toLower name)).filter fun rune => rune = '-' || isLetterOrDigit rune
  encode ((allowed.dropWhile fun rune => !isLetterOrDigit rune).take 63)

structure RunnerConfig where
  token : List UInt8
  machineName : List UInt8

def machineFormat (runner template : List UInt8) : List UInt8 :=
  if runner ≠ [] then ascii "runner-" ++ toLower runner ++ ascii "-" ++ template else template

def machineFilter (config : RunnerConfig) : List UInt8 :=
  machineFormat (makeRFC1123Compatible (Identity.shortenToken config.token)) config.machineName

/-- A newline ends the scan. -/
def skipSpace : List Char → Option (List Char)
  | [] => some []
  | rune :: rest =>
    if rune = '\n' then none
    else if isSpace rune then skipSpace rest
    else some (rune :: rest)

def scanWord (input : List Char) : Option (List Char × List Char) :=
  match skipSpace input with
  | none | some [] => none
  | some word => some (word.span fun rune => !isSpace rune)

/-- The operands that `Sscanf` fills.  The format has no verb other than `%s`, and no blank. -/
def sscanf : Nat → List Char → List Char → List (List Char)
  | operands, '%' :: 's' :: format, input =>
    match operands, scanWord input with
    | operands + 1, some (word, rest) => word :: sscanf operands format rest
    | _, _ => []
  | operands, rune :: format, next :: rest =>
    if rune = next then sscanf operands format rest else []
  | _, _, _ => []

/-- The error is not looked at. -/
def matchesMachineFilter (name filter : List UInt8) : Bool :=
  (sscanf 1 (runes filter) (runes name)).length == 1

def filterMachineList (machines : List (List UInt8)) (filter : List UInt8) : List (List UInt8) :=
  machines.filter fun machine => matchesMachineFilter machine filter

/-- The format has no verb other than one `%s`. -/
def sprintf : List UInt8 → List UInt8 → List UInt8
  | [], _ => []
  | char :: format, operand =>
    if char = byte '%' then operand ++ format.drop 1 else char :: sprintf format operand

def newMachineName (config : RunnerConfig) (time : Int) (random : List UInt8) : List UInt8 :=
  sprintf (machineFilter config)
    (itoa time ++ ascii "-" ++ random.flatMap fun char => Strconv.hexDigits 2 char.toNat)

/-- The name of the configuration has one `%s`, no other `%` and no blank. -/
structure Template (config : RunnerConfig) (front back : List UInt8) : Prop where
  filter : machineFilter config = front ++ ascii "%s" ++ back
  single : config.machineName.count (byte '%') = 1
  unbroken : (runes config.machineName).any isSpace = false

theorem mem_of_byte_mem_encode {char : Char} (small : char.toNat < 0x80) {text : List Char}
    (member : byte char ∈ encode text) : char ∈ text := by
  obtain ⟨rune, isRune, isByte⟩ := mem_flatMap.mp member
  have value : (byte char).toNat = char.toNat := by
    rw [byte, UInt8.toNat_ofNat']
    omega
  by_cases large : 0x80 ≤ rune.toNat
  · have := le_of_mem_utf8EncodeChar large isByte
    omega
  · rw [utf8EncodeChar_ascii (by omega), mem_singleton] at isByte
    rw [isByte, UInt8.toNat_ofNat', Nat.mod_eq_of_lt (by omega)] at value
    rwa [← Char.toNat_inj.mp value]

theorem encode_singleton {char : Char} (small : char.toNat < 0x80) :
    encode [char] = [byte char] := by
  rw [encode_cons, encode_nil, append_nil, utf8EncodeChar_ascii small, byte]

theorem eq_percent_of_lower {rune : Char} (same : lower rune = '%') : rune = '%' := by
  unfold lower at same
  split at same
  · have value := congrArg Char.toNat same
    rw [toNat_ofNat_small (by omega)] at value
    change _ = 37 at value
    omega
  · split at same
    · exact absurd same (by decide)
    · split at same
      · exact absurd same (by decide)
      · exact same

theorem percent_not_mem_toLower (name : List UInt8) :
    byte '%' ∉ toLower (makeRFC1123Compatible name) := by
  intro member
  rw [toLower, makeRFC1123Compatible, runes_encode] at member
  obtain ⟨rune, isRune, same⟩ := mem_map.mp (mem_of_byte_mem_encode (by decide) member)
  obtain rfl := eq_percent_of_lower same
  have kept := (dropWhile_sublist _).subset (mem_of_mem_take isRune)
  exact absurd (mem_filter.mp kept).2 (by decide)

theorem count_machineFilter (config : RunnerConfig) :
    (machineFilter config).count (byte '%') = config.machineName.count (byte '%') := by
  rw [machineFilter, machineFormat]
  split
  · rw [count_append, count_append, count_append,
      count_eq_zero_of_not_mem (percent_not_mem_toLower _)]
    simp [ascii, byte]
  · rfl

theorem sprintf_append {front : List UInt8} (plain : byte '%' ∉ front) (back operand : List UInt8) :
    sprintf (front ++ ascii "%s" ++ back) operand = front ++ operand ++ back := by
  induction front with
  | nil => rfl
  | cons char front ih =>
    rw [mem_cons, not_or] at plain
    simp only [cons_append, sprintf, if_neg (Ne.symm plain.1), ih plain.2]

theorem sscanf_zero {operands : Nat} (none : operands = 0) (format input : List Char) :
    sscanf operands format input = [] := by
  fun_induction sscanf operands format input with
  | case1 => cases none
  | case3 operands format rest rune _ ih => exact ih none
  | _ => rfl

theorem scanned_iff {front : List Char} (plain : '%' ∉ front) (back input : List Char) :
    (sscanf 1 (front ++ '%' :: 's' :: back) input).length = 1 ↔
      ∃ rest, input = front ++ rest ∧ (scanWord rest).isSome := by
  induction front generalizing input with
  | nil =>
    match scanned : scanWord input with
    | none => simp [sscanf, scanned]
    | some (word, rest) =>
      rw [nil_append, sscanf.eq_def]
      simp [scanned, sscanf_zero]
  | cons rune front ih =>
    rw [mem_cons, not_or] at plain
    cases input with
    | nil => simp [sscanf, Ne.symm plain.1]
    | cons next input =>
      by_cases same : rune = next
      · subst same
        simp [sscanf, Ne.symm plain.1, ih plain.2]
      · simp [sscanf, Ne.symm plain.1, same, Ne.symm same]

theorem scanWord_cons_isSome {rune : Char} (solid : isSpace rune = false) (rest : List Char) :
    (scanWord (rune :: rest)).isSome = true := by
  have noNewline : rune ≠ '\n' := by
    rintro rfl
    cases solid
  simp [scanWord, skipSpace, noNewline, solid]

theorem itoa_head (value : Int) : ∃ char rest, itoa value = byte char :: rest ∧
    char.toNat < 0x80 ∧ isSpace char = false := by
  have solid : ∀ char : Char, char.isDigit = true → char.toNat < 0x80 ∧ isSpace char = false := by
    intro char isDigit
    have bounds : 48 ≤ char.toNat ∧ char.toNat ≤ 57 := Char.isDigit_iff_toNat.mp isDigit
    refine ⟨by omega, ?_⟩
    simp [isSpace]
    omega
  cases value with
  | ofNat value =>
    cases text : Nat.toDigits 10 value with
    | nil => exact absurd text Nat.toDigits_ne_nil
    | cons char rest =>
      have isDigit := isDigit_of_mem_toDigits (text ▸ mem_cons_self)
      exact ⟨char, rest.map byte, congrArg (List.map byte) text, solid char isDigit⟩
  | negSucc value => exact ⟨'-', _, rfl, by decide⟩

theorem Template.percent_not_mem {config : RunnerConfig} {front back : List UInt8}
    (template : Template config front back) : byte '%' ∉ front := by
  have counts := count_machineFilter config
  rw [template.filter, template.single, count_append, count_append] at counts
  have verb : (ascii "%s").count (byte '%') = 1 := by decide
  exact count_eq_zero.mp (by omega)

theorem matchesMachineFilter_iff {config : RunnerConfig} {front : List Char} {back : List UInt8}
    (template : Template config (encode front) back) (name : List UInt8) :
    matchesMachineFilter name (machineFilter config) = true ↔
      ∃ rest, runes name = front ++ rest ∧ (scanWord rest).isSome := by
  have plain : '%' ∉ front :=
    fun member => template.percent_not_mem (mem_flatMap.mpr ⟨'%', member, by decide⟩)
  have format : runes (machineFilter config) = front ++ '%' :: 's' :: runes back := by
    rw [template.filter, append_assoc, runes_encode_append]
    exact congrArg (front ++ ·) (runes_encode_append ['%', 's'] back)
  rw [matchesMachineFilter, beq_iff_eq, format, scanned_iff plain]

end GitlabRunner.MachineNames
