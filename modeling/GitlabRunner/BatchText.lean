import GitlabRunner.ByteText

/-!
# How cmd reads a line of a batch file

With delayed expansion a line passes three phases.  The percent phase expands the names
between percent signs and makes one percent sign of two.  The phase of the special
characters lets a caret escape the next byte, unless it stands between double quotes.  The
delayed expansion expands the names between exclamation marks; it looks at carets once
more, inside and outside of quotes, but only if there is an exclamation mark in the line.

The file names nothing of the runner.
-/

namespace GitlabRunner.Batch

open ByteText List

def lf : UInt8 := 10
def cr : UInt8 := 13
def mark : UInt8 := 33
def quote : UInt8 := 34
def percent : UInt8 := 37
def caret : UInt8 := 94

/-- What the names stand for.  The value of a name that is not defined is empty. -/
abbrev Environment :=
  List UInt8 → List UInt8

/-- The percent phase, with the name that has been read since a percent sign.  Without a
second sign only the sign is dropped. -/
def percentPhase (environment : Environment) : Option (List UInt8) → List UInt8 → List UInt8
  | none, [] => []
  | some name, [] => name
  | none, char :: rest =>
    if char = percent then percentPhase environment (some []) rest
    else char :: percentPhase environment none rest
  | some name, char :: rest =>
    if char = percent then
      (if name = [] then [percent] else environment name) ++ percentPhase environment none rest
    else percentPhase environment (some (name ++ [char])) rest

def isOperator (char : UInt8) : Bool :=
  [byte '&', byte '<', byte '>', byte '|', byte '(', byte ')'].contains char

/-- The phase of the special characters.  A line with an operator outside of quotes is not a
single command, and has no reading here. -/
def specialPhase : Bool → List UInt8 → Option (List UInt8)
  | _, [] => some []
  | quoted, char :: rest =>
    if char = quote then (specialPhase (!quoted) rest).map (char :: ·)
    else if quoted then (specialPhase quoted rest).map (char :: ·)
    else if char = caret then
      match rest with
      | [] => some []
      | next :: behind => (specialPhase quoted behind).map (next :: ·)
    else if isOperator char then none
    else (specialPhase quoted rest).map (char :: ·)

def dropCarets : List UInt8 → List UInt8
  | [] => []
  | char :: rest =>
    if char = caret then
      match rest with
      | [] => []
      | next :: behind => next :: dropCarets behind
    else char :: dropCarets rest

/-- The delayed expansion of a line with exclamation marks, with the name that has been read
since one.  Carets mean nothing in the search for the second mark, several opening marks
count as one, and a mark without a second one is dropped. -/
def expandMarks (environment : Environment) : Option (List UInt8) → List UInt8 → List UInt8
  | none, [] => []
  | some name, [] => dropCarets name
  | none, char :: rest =>
    if char = mark then expandMarks environment (some []) rest
    else if char = caret then
      match rest with
      | [] => []
      | next :: behind => next :: expandMarks environment none behind
    else char :: expandMarks environment none rest
  | some name, char :: rest =>
    if char = mark then
      if name = [] then expandMarks environment (some []) rest
      else environment name ++ expandMarks environment none rest
    else expandMarks environment (some (name ++ [char])) rest

def delayedPhase (environment : Environment) (line : List UInt8) : List UInt8 :=
  if mark ∈ line then expandMarks environment none line else line

def expandLine (environment : Environment) (line : List UInt8) : Option (List UInt8) :=
  (specialPhase false (percentPhase environment none line)).map (delayedPhase environment)

/-- `SET name=value`. -/
def runSet (environment : Environment) (command : List UInt8) : Option Environment :=
  let command := command.dropWhile (· == byte ' ')
  if (ascii "SET ").isPrefixOf command then
    let argument := command.drop (ascii "SET ").length
    let name := argument.takeWhile (· != byte '=')
    if name.length < argument.length then
      some (Function.update environment name (argument.drop (name.length + 1)))
    else none
  else none

def readLine (script : List UInt8) : List UInt8 × List UInt8 :=
  ((script.takeWhile (· != lf)).filter (· != cr), (script.dropWhile (· != lf)).drop 1)

def runLine (environment : Environment) (script : List UInt8) :
    Option (Environment × List UInt8) := do
  let (line, rest) := readLine script
  let command ← expandLine environment line
  return (← runSet environment command, rest)

section Phases

variable (environment : Environment) {char next : UInt8} {rest : List UInt8}
variable {text : List UInt8}

theorem percentPhase_append (plain : percent ∉ text) :
    percentPhase environment none (text ++ rest) = text ++ percentPhase environment none rest := by
  induction text with
  | nil => rfl
  | cons char text ih =>
    rw [mem_cons, not_or] at plain
    rw [cons_append, percentPhase, if_neg (Ne.symm plain.1), ih plain.2]
    rfl

theorem specialPhase_escaped :
    specialPhase false (caret :: next :: rest) = (specialPhase false rest).map (next :: ·) := by
  rw [specialPhase.eq_def]
  rfl

theorem specialPhase_quoted (noQuote : quote ∉ text) :
    specialPhase true (text ++ rest) = (specialPhase true rest).map (text ++ ·) := by
  induction text with
  | nil => simp
  | cons char text ih =>
    rw [mem_cons, not_or] at noQuote
    rw [cons_append, specialPhase.eq_def]
    dsimp only
    rw [if_neg (Ne.symm noQuote.1), if_pos rfl, ih noQuote.2, Option.map_map]
    rfl

/-- The bytes without a meaning outside of quotes. -/
structure Inert (char : UInt8) : Prop where
  notQuote : char ≠ quote
  notCaret : char ≠ caret
  notOperator : isOperator char = false

theorem specialPhase_inert (inert : ∀ char ∈ text, Inert char) :
    specialPhase false (text ++ rest) = (specialPhase false rest).map (text ++ ·) := by
  induction text with
  | nil => simp
  | cons char text ih =>
    have first := inert char (by simp)
    rw [cons_append, specialPhase.eq_def]
    dsimp only
    rw [if_neg first.notQuote, if_neg Bool.false_ne_true, if_neg first.notCaret,
      if_neg (by simp [first.notOperator]),
      ih fun other member => inert other (mem_cons_of_mem char member), Option.map_map]
    rfl

theorem expandMarks_plain (notMark : char ≠ mark) (notCaret : char ≠ caret) :
    expandMarks environment none (char :: rest) = char :: expandMarks environment none rest := by
  rw [expandMarks.eq_def]
  dsimp only
  rw [if_neg notMark, if_neg notCaret]

theorem expandMarks_append (noMark : mark ∉ text) (noCaret : caret ∉ text) :
    expandMarks environment none (text ++ rest) = text ++ expandMarks environment none rest := by
  induction text with
  | nil => rfl
  | cons char text ih =>
    rw [mem_cons, not_or] at noMark noCaret
    rw [cons_append, expandMarks_plain environment (Ne.symm noMark.1) (Ne.symm noCaret.1),
      ih noMark.2 noCaret.2]
    rfl

/-- A text without exclamation marks and carets passes the third phase. -/
theorem delayedPhase_append (noMark : mark ∉ text) (noCaret : caret ∉ text) :
    delayedPhase environment (text ++ rest) = text ++ delayedPhase environment rest := by
  have members : mark ∈ text ++ rest ↔ mark ∈ rest := by
    rw [mem_append]
    exact or_iff_right noMark
  rw [delayedPhase, delayedPhase]
  by_cases marked : mark ∈ rest
  · rw [if_pos (members.mpr marked), if_pos marked, expandMarks_append environment noMark noCaret]
  · rw [if_neg (mt members.mp marked), if_neg marked]

theorem expandMarks_escaped :
    expandMarks environment none (caret :: next :: rest) =
      next :: expandMarks environment none rest := by
  rw [expandMarks.eq_def]
  rfl

theorem expandMarks_caret : expandMarks environment none [caret] = [] := by
  rw [expandMarks.eq_def]
  rfl

theorem expandMarks_mark :
    expandMarks environment none (mark :: rest) = expandMarks environment (some []) rest := by
  rw [expandMarks.eq_def]
  rfl

theorem mark_not_mem_dropCarets : ∀ {text : List UInt8}, mark ∉ text → mark ∉ dropCarets text
  | [], _ => by simp [dropCarets]
  | [char], noMark => by
      rw [dropCarets.eq_def]
      dsimp only
      split
      · simp
      · simpa [dropCarets] using noMark
  | char :: next :: text, noMark => by
      simp only [mem_cons, not_or] at noMark
      obtain ⟨notFirst, notSecond, later⟩ := noMark
      rw [dropCarets.eq_def]
      dsimp only
      split
      · rw [mem_cons, not_or]
        exact ⟨notSecond, mark_not_mem_dropCarets later⟩
      · rw [mem_cons, not_or]
        exact ⟨notFirst, mark_not_mem_dropCarets (by simp [notSecond, later])⟩

/-- Behind an exclamation mark there is the value of a name, or no exclamation mark comes
through. -/
theorem expandMarks_opened {name : List UInt8} (noMark : mark ∉ name) :
    mark ∉ expandMarks environment (some name) text ∨
      ∃ name' behind, expandMarks environment (some name) text = environment name' ++ behind := by
  induction text generalizing name with
  | nil =>
    rw [expandMarks]
    exact .inl (mark_not_mem_dropCarets noMark)
  | cons char text ih =>
    rw [expandMarks.eq_def]
    dsimp only
    split
    · split
      · exact ih (by simp)
      · exact .inr ⟨name, _, rfl⟩
    · case isFalse notMark => exact ih (by simp [noMark, Ne.symm notMark])

end Phases

section Lines

def isNameByte (char : UInt8) : Bool :=
  (byte 'a' ≤ char && char ≤ byte 'z') || (byte 'A' ≤ char && char ≤ byte 'Z') ||
    (byte '0' ≤ char && char ≤ byte '9') || char == byte '_'

structure IsName (name : List UInt8) : Prop where
  nonempty : name ≠ []
  bytes : ∀ char ∈ name, isNameByte char = true

theorem readLine_line {text : List UInt8} (noLf : lf ∉ text) (noCr : cr ∉ text)
    (rest : List UInt8) : readLine (text ++ cr :: lf :: rest) = (text, rest) := by
  have inLine : ∀ char ∈ text ++ [cr], (char != lf) = true := by
    intro char member
    rw [mem_append, mem_singleton] at member
    rw [bne_iff_ne]
    rintro rfl
    rcases member with inside | isCr
    · exact noLf inside
    · revert isCr
      decide
  have shape : text ++ cr :: lf :: rest = (text ++ [cr]) ++ lf :: rest := by simp
  have kept : text.filter (· != cr) = text := by
    rw [filter_eq_self]
    intro char member
    rw [bne_iff_ne]
    rintro rfl
    exact noCr member
  rw [readLine, shape, takeWhile_append_of_pos inLine, dropWhile_append_of_pos inLine,
    takeWhile_cons_of_neg (by decide), dropWhile_cons_of_neg (by decide),
    append_nil, filter_append, kept]
  simp

theorem runSet_set (environment : Environment) {padding name : List UInt8}
    (spaces : ∀ char ∈ padding, char = byte ' ') (isName : IsName name) (value : List UInt8) :
    runSet environment (padding ++ (ascii "SET " ++ (name ++ (ascii "=" ++ value)))) =
      some (Function.update environment name value) := by
  have dropped : (padding ++ (ascii "SET " ++ (name ++ (ascii "=" ++ value)))).dropWhile
      (· == byte ' ') = ascii "SET " ++ (name ++ (ascii "=" ++ value)) := by
    rw [dropWhile_append_of_pos (by simpa using spaces)]
    rfl
  have equals : ∀ char ∈ name, (char != byte '=') = true := by
    have notEquals : ∀ char, isNameByte char = true → (char != byte '=') = true :=
      forall_byte (by decide +kernel)
    exact fun char member => notEquals char (isName.bytes char member)
  have taken : (name ++ (ascii "=" ++ value)).takeWhile (· != byte '=') = name := by
    rw [takeWhile_append_of_pos equals]
    exact append_nil name
  have left : (name ++ (ascii "=" ++ value)).drop (name.length + 1) = value := by
    rw [← drop_drop, drop_left]
    rfl
  have shorter : name.length < (name ++ (ascii "=" ++ value)).length := by simp [ascii]
  rw [runSet]
  simp only [dropped, isPrefixOf_iff_prefix, prefix_append, if_true, drop_left,
    taken, left, shorter]

end Lines

end GitlabRunner.Batch
