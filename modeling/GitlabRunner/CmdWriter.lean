import GitlabRunner.BatchText
import GitlabRunner.JobVariables
import GitlabRunner.ScriptWriters
import GitlabRunner.StrconvQuote

/-!
# Scripts for cmd

`batchEscapeVariable` of `shells/cmd.go` escapes a value once for all lines.
-/

namespace GitlabRunner.Shells

open ByteText SlashPaths Variables Batch List Function Option

def batchEscapeInsideQuotedString (text : List UInt8) : List UInt8 :=
  replaceBytes text [(caret, ascii "^^"), (mark, ascii "^^!"), (byte '&', ascii "^&"),
    (byte '<', ascii "^<"), (byte '>', ascii "^>"), (byte '|', ascii "^|"), (cr, []),
    (lf, ascii "!nl!")]

def batchQuote (text : List UInt8) : List UInt8 :=
  ascii "\"" ++ batchEscapeInsideQuotedString text ++ ascii "\""

def batchEscape (text : List UInt8) : List UInt8 :=
  replaceBytes (batchEscapeInsideQuotedString text)
    [(byte '(', ascii "^("), (byte ')', ascii "^)")]

def batchEscapeVariable (text : List UInt8) : List UInt8 :=
  batchEscape (replaceByte text percent (ascii "%%"))

namespace CmdWriter

def line (text : List UInt8) : Script Unit :=
  Script.line (ascii "\r\n") text

def absolute (dir : List UInt8) : List UInt8 :=
  if rooted dir then dir else join [ascii "%CD%", dir]

def tmpFile (name : List UInt8) : Script (List UInt8) := do
  return toBackslash (absolute (join [← Script.temporaryPath, name]))

/-- `Variable`, with `strconv.IsPrint` for the verb `%q`. -/
def writeVariable (isPrint : Char → Bool) (entry : JobVariable) : Script Unit := do
  if entry.file then
    let variableFile ← tmpFile entry.key
    line (ascii "md " ++
      Strconv.quote isPrint (batchEscape (toBackslash (← Script.temporaryPath))) ++
      ascii " 2>NUL 1>NUL")
    line (ascii "echo " ++ batchEscapeVariable entry.value ++ ascii " > " ++
      batchEscape variableFile)
    line (ascii "SET " ++ batchEscapeVariable entry.key ++ ascii "=" ++ batchEscape variableFile)
  else
    line (ascii "SET " ++ batchEscapeVariable entry.key ++ ascii "=" ++
      batchEscapeVariable entry.value)

def envVariableKey (name : List UInt8) : List UInt8 :=
  ascii "%" ++ name ++ ascii "%"

def updateErrLevelCheck (disabled : Bool) (errCheck : List UInt8) : List UInt8 :=
  if disabled then replaceByte errCheck mark (ascii "%") else errCheck

def checkErrorLevel (disabled : Bool) : Script Unit := do
  line (updateErrLevelCheck disabled (ascii "IF !errorlevel! NEQ 0 exit /b !errorlevel!"))
  line []

def buildCommand (command : List UInt8) (arguments : List (List UInt8)) : List UInt8 :=
  (ascii " ").intercalate (batchQuote command :: arguments.map batchQuote)

def command (disabled : Bool) (command : List UInt8) (arguments : List (List UInt8)) :
    Script Unit := do
  line (buildCommand command arguments)
  checkErrorLevel disabled

/-- What `IfCmd` and `IfCmdWithOutput` have in common: the redirections of the command. -/
def ifCommand (disabled : Bool) (redirections command : List UInt8)
    (arguments : List (List UInt8)) : Script Unit := do
  line (buildCommand command arguments ++ redirections)
  line (updateErrLevelCheck disabled (ascii "IF !errorlevel! EQU 0 ("))
  Script.indent

def ifCmd (disabled : Bool) (command : List UInt8) (arguments : List (List UInt8)) :
    Script Unit :=
  ifCommand disabled (ascii " 2>NUL 1>NUL") command arguments

def ifCmdWithOutput (disabled : Bool) (command : List UInt8) (arguments : List (List UInt8)) :
    Script Unit :=
  ifCommand disabled [] command arguments

def elseCmd : Script Unit := do
  Script.unindent
  line (ascii ") ELSE (")
  Script.indent

def endIf : Script Unit := do
  Script.unindent
  line (ascii ")")

def cd (disabled : Bool) (path : List UInt8) : Script Unit := do
  line (ascii "cd /D " ++ batchQuote (toBackslash path))
  checkErrorLevel disabled

def mkDir (path : List UInt8) : Script Unit := do
  let args := batchQuote (toBackslash path) ++ ascii " 2>NUL 1>NUL"
  line (ascii "dir " ++ args ++ ascii " || md " ++ args)

def mkTmpDir (name : List UInt8) : Script (List UInt8) := do
  let path := toBackslash (join [← Script.temporaryPath, name])
  mkDir path
  return path

def rmDir (path : List UInt8) : Script Unit :=
  line (ascii "rd /s /q " ++ batchQuote (toBackslash path) ++ ascii " 2>NUL 1>NUL")

def rmFile (path : List UInt8) : Script Unit :=
  line (ascii "del /f /q " ++ batchQuote (toBackslash path) ++ ascii " 2>NUL 1>NUL")

def notice (text : List UInt8) : Script Unit :=
  line (ascii "echo " ++ batchEscapeVariable (ansiBoldGreen ++ text ++ ansiReset))

def warning (text : List UInt8) : Script Unit :=
  line (ascii "echo " ++ batchEscapeVariable (ansiYellow ++ text ++ ansiReset))

def emptyLine : Script Unit :=
  line (ascii "echo.")

def finish (trace : Bool) (buffer : List UInt8) : List UInt8 :=
  ascii (if trace then "@echo on\r\n" else "@echo off\r\n") ++
    ascii "setlocal enableextensions\r\n" ++ ascii "setlocal enableDelayedExpansion\r\n" ++
    ascii "set nl=^\r\n\r\n\r\n" ++ buffer

end CmdWriter

variable {char : UInt8} {environment : Environment}

section Codes

def batchCode (char : UInt8) : List UInt8 :=
  batchEscapeVariable [char]

theorem batchEscapeVariable_eq (text : List UInt8) :
    batchEscapeVariable text = text.flatMap batchCode := by
  refine eq_flatMap rfl (fun first second => ?_) text
  simp only [batchEscapeVariable, batchEscape, batchEscapeInsideQuotedString, replaceByte_append,
    replaceBytes_append]

/-- What the second phase leaves of a byte, between double quotes or outside of them. -/
def specialCode (quoted : Bool) (char : UInt8) : List UInt8 :=
  if char = cr then []
  else if char = lf then ascii "!nl!"
  else if char = mark then if quoted then ascii "^^!" else ascii "^!"
  else if char = caret || isOperator char then if quoted then [caret, char] else [char]
  else [char]

def specials : List UInt8 :=
  [lf, cr, mark, quote, percent, caret, byte '&', byte '<', byte '>', byte '|', byte '(',
    byte ')']

structure PlainByte (char : UInt8) : Prop where
  notLf : char ≠ lf
  notReturn : char ≠ cr
  notMark : char ≠ mark
  notQuote : char ≠ quote
  notPercent : char ≠ percent
  notCaret : char ≠ caret
  notOperator : isOperator char = false

theorem plain_of_not_mem (absent : char ∉ specials) : PlainByte char := by
  simp only [specials, mem_cons, not_mem_nil, or_false, not_or] at absent
  obtain ⟨notLf, notReturn, notMark, notQuote, notPercent, notCaret, operators⟩ := absent
  refine ⟨notLf, notReturn, notMark, notQuote, notPercent, notCaret, ?_⟩
  simp [isOperator, operators]

theorem PlainByte.specialCode (plain : PlainByte char) (quoted : Bool) :
    specialCode quoted char = [char] := by
  rw [Shells.specialCode, if_neg plain.notReturn, if_neg plain.notLf, if_neg plain.notMark,
    if_neg (by simp [plain.notCaret, plain.notOperator])]

/-- What is to be shown of all bytes is computed for the special ones. -/
theorem forall_special {property : UInt8 → Prop} (special : specials.Forall property)
    (plain : ∀ char, PlainByte char → property char) (char : UInt8) : property char := by
  by_cases member : char ∈ specials
  · exact forall_iff_forall_mem.mp special char member
  · exact plain char (plain_of_not_mem member)

/-- Apart from percent signs, a byte is written as the second phase leaves it between double
quotes. -/
theorem batchCode_eq : ∀ char, batchCode char =
    if char = percent then [percent, percent] else specialCode true char := by
  refine forall_special (by decide +kernel) fun char plain => ?_
  have operators := plain.notOperator
  simp only [isOperator, contains_cons, contains_nil, Bool.or_false,
    Bool.or_eq_false_iff, beq_eq_false_iff_ne] at operators
  obtain ⟨ampersand, less, greater, pipe, opening, closing⟩ := operators
  rw [if_neg plain.notPercent, plain.specialCode, batchCode, batchEscapeVariable, replaceByte,
    flatMap_singleton, if_neg plain.notPercent, batchEscape, batchEscapeInsideQuotedString,
    replaceBytes_singleton (by simp [plain.notCaret, plain.notMark, plain.notReturn, plain.notLf,
      ampersand, less, greater, pipe]),
    replaceBytes_singleton (by simp [opening, closing])]

theorem percentPhase_batchCode (environment : Environment) (char : UInt8) (rest : List UInt8) :
    percentPhase environment none (batchCode char ++ rest) =
      specialCode true char ++ percentPhase environment none rest := by
  have noPercent : ∀ char, char ≠ percent → percent ∉ specialCode true char :=
    forall_special (by decide) fun char plain different => by
      simp [plain.specialCode, Ne.symm different]
  rw [batchCode_eq]
  split
  · case isTrue isPercent =>
      rw [isPercent]
      rfl
  · case isFalse different => exact percentPhase_append environment (noPercent char different)

theorem percentPhase_batchCodes (environment : Environment) (text : List UInt8) :
    percentPhase environment none (text.flatMap batchCode) = text.flatMap (specialCode true) := by
  induction text with
  | nil => rfl
  | cons char text ih => rw [flatMap_cons, percentPhase_batchCode, ih, flatMap_cons]

def quotedAfter (quoted : Bool) (char : UInt8) : Bool :=
  if char = quote then !quoted else quoted

def specialCodes : Bool → List UInt8 → List UInt8
  | _, [] => []
  | quoted, char :: text => specialCode quoted char ++ specialCodes (quotedAfter quoted char) text

theorem specialCode_quoted : ∀ char, char ≠ quote → quote ∉ specialCode true char :=
  forall_special (by decide) fun char plain different => by
    simp [plain.specialCode, Ne.symm different]

theorem specialCode_escapes : ∀ char, char ≠ quote →
    (specialCode false char = specialCode true char ∧
      (specialCode true char).all (fun written =>
        written != quote && written != caret && !isOperator written) = true) ∨
    (specialCode true char = [caret, char] ∧ specialCode false char = [char]) ∨
    (specialCode true char = [caret, caret, char] ∧ specialCode false char = [caret, char] ∧
      char = mark) :=
  forall_special (by decide) fun char plain _ => by
    simp [plain.specialCode, plain.notQuote, plain.notCaret, plain.notOperator]

variable (quoted : Bool)

theorem specialPhase_code (char : UInt8) (rest : List UInt8) :
    specialPhase quoted (specialCode true char ++ rest) =
      (specialPhase (quotedAfter quoted char) rest).map (specialCode quoted char ++ ·) := by
  by_cases isQuote : char = quote
  · subst isQuote
    have written : ∀ quoted, specialCode quoted quote = [quote] := by decide
    rw [written, written, quotedAfter, if_pos rfl]
    rw [specialPhase.eq_def]
    rfl
  · rw [quotedAfter, if_neg isQuote]
    cases quoted with
    | true => exact specialPhase_quoted (specialCode_quoted char isQuote)
    | false =>
      rcases specialCode_escapes char isQuote with ⟨same, inert⟩ | ⟨written, left⟩ |
        ⟨written, left, rfl⟩
      · rw [same]
        refine specialPhase_inert fun other member => ?_
        have holds := all_eq_true.mp inert other member
        simp only [Bool.and_eq_true, bne_iff_ne, Bool.not_eq_true'] at holds
        exact ⟨holds.1.1, holds.1.2, holds.2⟩
      · rw [written, left]
        exact specialPhase_escaped
      · have inert : ∀ other ∈ [mark], Inert other := by
          intro other member
          rw [mem_singleton] at member
          subst member
          exact ⟨by decide, by decide, by decide⟩
        have marked := @specialPhase_inert rest [mark] inert
        rw [written, left]
        change specialPhase false (caret :: caret :: ([mark] ++ rest)) = _
        rw [specialPhase_escaped, marked, Option.map_map]
        rfl

theorem specialPhase_codes (text : List UInt8) :
    specialPhase quoted (text.flatMap (specialCode true)) = some (specialCodes quoted text) := by
  induction text generalizing quoted with
  | nil => rfl
  | cons char text ih =>
    rw [flatMap_cons, specialPhase_code, ih]
    rfl

def hasMarks (value : List UInt8) : Bool :=
  value.contains mark || value.contains lf

/-- Whether a byte arrives, between double quotes or outside of them, in a line with
exclamation marks or without. -/
def arrives (marked quoted : Bool) (char : UInt8) : Bool :=
  if marked then !(if quoted then char == mark else char == caret)
  else !(quoted && (char == caret || isOperator char))

def arriveFrom (marked : Bool) : Bool → List UInt8 → Bool
  | _, [] => true
  | quoted, char :: text =>
    arrives marked quoted char && arriveFrom marked (quotedAfter quoted char) text

/-- The values that are assigned: if there is an exclamation mark or a line feed, they have
no caret outside of double quotes and no exclamation mark between them; otherwise they have
no caret and no operator between double quotes. -/
def batchArrives (value : List UInt8) : Bool :=
  arriveFrom (hasMarks value) false value

theorem mem_specialCode : ∀ char, mark ∈ specialCode quoted char ↔ char = mark ∨ char = lf := by
  refine forall_special ?_ fun char plain => ?_
  · cases quoted <;> decide
  · simp [plain.specialCode, plain.notMark, Ne.symm plain.notMark, plain.notLf]

theorem mem_specialCodes (value : List UInt8) :
    mark ∈ specialCodes quoted value ↔ hasMarks value = true := by
  have members : mark ∈ specialCodes quoted value ↔ mark ∈ value ∨ lf ∈ value := by
    induction value generalizing quoted with
    | nil => simp [specialCodes]
    | cons char value ih =>
      rw [specialCodes, mem_append, mem_specialCode, ih, mem_cons, mem_cons]
      constructor
      · rintro ((rfl | rfl) | (later | later)) <;> simp_all
      · rintro ((rfl | later) | (rfl | later)) <;> simp_all
  rw [members, hasMarks, Bool.or_eq_true, contains_iff_mem, contains_iff_mem]

def withoutReturn (char : UInt8) : List UInt8 :=
  if char = cr then [] else [char]

theorem filter_cons_eq (char : UInt8) (value : List UInt8) :
    (char :: value).filter (· != cr) = withoutReturn char ++ value.filter (· != cr) := by
  rw [filter_cons, withoutReturn]
  by_cases isReturn : char = cr <;> simp [isReturn]

section Marked

/-- What a byte looks like before the delayed expansion, if it arrives. -/
theorem specialCode_cases (quoted : Bool) : ∀ char, arrives true quoted char = true →
    (char = lf ∧ specialCode quoted char = mark :: ascii "nl" ++ [mark]) ∨
    (specialCode quoted char = [caret, char] ∧ char ≠ cr) ∨
    (specialCode quoted char = withoutReturn char ∧ mark ∉ withoutReturn char ∧
      caret ∉ withoutReturn char) := by
  refine forall_special ?_ fun char plain _ => ?_
  · cases quoted <;> decide
  · simp [plain.specialCode, withoutReturn, plain.notReturn, Ne.symm plain.notMark,
      Ne.symm plain.notCaret]

theorem expandMarks_specialCode (newline : environment (ascii "nl") = [lf]) {quoted : Bool}
    (arrived : arrives true quoted char = true) (rest : List UInt8) :
    expandMarks environment none (specialCode quoted char ++ rest) =
      withoutReturn char ++ expandMarks environment none rest := by
  rcases specialCode_cases quoted char arrived with ⟨rfl, code⟩ | ⟨code, notReturn⟩ |
    ⟨code, noMark, noCaret⟩
  · have opened : expandMarks environment none (mark :: ascii "nl" ++ [mark] ++ rest) =
        expandMarks environment (some (ascii "nl")) (mark :: rest) := rfl
    rw [code, opened, expandMarks.eq_def]
    dsimp only
    rw [if_pos rfl, if_neg (by decide), newline]
    rfl
  · rw [code, withoutReturn, if_neg notReturn]
    exact expandMarks_escaped environment
  · rw [code]
    exact expandMarks_append environment noMark noCaret

theorem expandMarks_specialCodes
    (newline : environment (ascii "nl") = [lf]) {quoted : Bool} {value : List UInt8}
    (arrived : arriveFrom true quoted value = true) :
    expandMarks environment none (specialCodes quoted value) = value.filter (· != cr) := by
  induction value generalizing quoted with
  | nil => rfl
  | cons char value ih =>
    rw [arriveFrom, Bool.and_eq_true] at arrived
    rw [specialCodes, expandMarks_specialCode newline arrived.1, ih arrived.2, filter_cons_eq]

/-- An environment in which every other name stands for a question mark. -/
def questionMarks : Environment :=
  fun name => if name = ascii "nl" then [lf] else ascii "?"

/-- An exclamation mark that is not escaped does not arrive behind carets. -/
theorem opened_ne (count : Nat) (text rest : List UInt8) :
    expandMarks questionMarks (some []) text ≠ List.replicate count caret ++ mark :: rest := by
  intro same
  have noMark : mark ∉ ([] : List UInt8) := by simp
  rcases @expandMarks_opened questionMarks text [] noMark with absent | ⟨name, behind, value⟩
  · rw [same] at absent
    simp at absent
  · rw [same, questionMarks] at value
    have head := congrArg head? value
    cases count with
    | zero | succ count =>
      split at head
      · exact absurd (some.inj head) (by decide)
      · exact absurd (some.inj head) (by decide)

/-- The bytes outside of double quotes, before the delayed expansion. -/
theorem specialCode_outside : ∀ char,
    (char = cr ∧ specialCode false char = []) ∨
    (char = lf ∧ specialCode false char = mark :: ascii "nl!") ∨
    (char = mark ∧ specialCode false char = [caret, mark]) ∨
    (char = caret ∧ specialCode false char = [caret]) ∨
    (specialCode false char = [char] ∧ char ≠ cr ∧ char ≠ caret ∧ char ≠ mark) :=
  forall_special (by decide) fun char plain => by
    simp [plain.specialCode, plain.notReturn, plain.notCaret, plain.notMark]

/-- No text outside of double quotes makes up for a caret that is lost, whether or not one
caret is still to be looked at. -/
theorem caret_lost (value : List UInt8) (count : Nat) :
    expandMarks questionMarks none (specialCodes false value) ≠
        caret :: (List.replicate count caret ++ value.filter (· != cr)) ∧
      expandMarks questionMarks none (caret :: specialCodes false value) ≠
        caret :: (List.replicate count caret ++ value.filter (· != cr)) := by
  induction value generalizing count with
  | nil =>
    rw [specialCodes, expandMarks_caret]
    simp [expandMarks]
  | cons char value ih =>
    rw [filter_cons_eq, specialCodes]
    rcases specialCode_outside char with ⟨rfl, code⟩ | ⟨rfl, code⟩ | ⟨rfl, code⟩ | ⟨rfl, code⟩ |
      ⟨code, notReturn, notCaret, notMark⟩
    · rw [code]
      exact ih count
    · have line : expandMarks questionMarks none
          (mark :: ascii "nl!" ++ specialCodes (quotedAfter false lf) value) =
            lf :: expandMarks questionMarks none (specialCodes false value) := rfl
      rw [code, line]
      refine ⟨fun same => absurd (List.cons.inj same).1 (by decide), fun same => ?_⟩
      rw [cons_append, expandMarks_escaped] at same
      exact absurd (List.cons.inj same).1 (by decide)
    · rw [code]
      change expandMarks questionMarks none (caret :: mark :: specialCodes false value) ≠ _ ∧
        expandMarks questionMarks none (caret :: caret :: mark :: specialCodes false value) ≠ _
      rw [expandMarks_escaped, expandMarks_escaped, expandMarks_mark]
      refine ⟨fun same => absurd (List.cons.inj same).1 (by decide), fun same => ?_⟩
      exact opened_ne count _ _ (List.cons.inj same).2
    · have moved : List.replicate count caret ++ (withoutReturn caret ++ value.filter (· != cr)) =
            caret :: (List.replicate count caret ++ value.filter (· != cr)) := by
        rw [← append_assoc]
        change List.replicate count caret ++ [caret] ++ _ = _
        rw [← replicate_succ', replicate_succ]
        rfl
      rw [code, moved]
      change expandMarks questionMarks none (caret :: specialCodes false value) ≠ _ ∧
        expandMarks questionMarks none (caret :: caret :: specialCodes false value) ≠ _
      rw [expandMarks_escaped]
      refine ⟨(ih (count + 1)).2, fun same => (ih count).1 (List.cons.inj same).2⟩
    · rw [code, singleton_append, expandMarks_escaped,
        expandMarks_plain questionMarks notMark notCaret]
      exact ⟨fun same => notCaret (List.cons.inj same).1,
        fun same => notCaret (List.cons.inj same).1⟩

theorem arriveFrom_of_expandMarks {quoted : Bool} {value : List UInt8}
    (same : expandMarks questionMarks none (specialCodes quoted value) =
      value.filter (· != cr)) : arriveFrom true quoted value = true := by
  induction value generalizing quoted with
  | nil => rfl
  | cons char value ih =>
    rw [filter_cons_eq, specialCodes] at same
    by_cases arrived : arrives true quoted char = true
    · rw [expandMarks_specialCode rfl arrived] at same
      rw [arriveFrom, arrived, ih (append_cancel_left same)]
      rfl
    · exfalso
      cases quoted with
      | true =>
        have isMark : char = mark := by simpa [arrives] using arrived
        subst isMark
        change expandMarks questionMarks none
          (caret :: caret :: ([mark] ++ specialCodes true value)) = mark :: _ at same
        rw [expandMarks_escaped] at same
        exact absurd (List.cons.inj same).1 (by decide)
      | false =>
        have isCaret : char = caret := by simpa [arrives] using arrived
        subst isCaret
        exact (caret_lost value 0).2 same

end Marked

section Unmarked

/-- A byte that arrives is left alone, and another one has a caret in front of it. -/
theorem specialCode_unmarked (quoted : Bool) : ∀ char, char ≠ mark → char ≠ lf →
    specialCode quoted char =
      if arrives false quoted char then withoutReturn char else caret :: withoutReturn char := by
  refine forall_special ?_ fun char plain _ _ => ?_
  · cases quoted <;> decide
  · simp [plain.specialCode, arrives, withoutReturn, plain.notReturn, plain.notCaret,
      plain.notOperator]

theorem specialCodes_unmarked {quoted : Bool} {value : List UInt8} (noMark : mark ∉ value)
    (noLf : lf ∉ value) :
    (arriveFrom false quoted value = true ∧
      specialCodes quoted value = value.filter (· != cr)) ∨
    (arriveFrom false quoted value = false ∧
      (value.filter (· != cr)).length < (specialCodes quoted value).length) := by
  induction value generalizing quoted with
  | nil => exact .inl ⟨rfl, rfl⟩
  | cons char value ih =>
    rw [mem_cons, not_or] at noMark noLf
    have code := specialCode_unmarked quoted char (Ne.symm noMark.1) (Ne.symm noLf.1)
    rw [arriveFrom, specialCodes, filter_cons_eq, code]
    rcases @ih (quotedAfter quoted char) noMark.2 noLf.2 with ⟨arrived, same⟩ | ⟨lost, longer⟩
    · rw [arrived, Bool.and_true, same]
      cases arrives false quoted char with
      | true => exact .inl ⟨rfl, rfl⟩
      | false => exact .inr ⟨rfl, Nat.lt_succ_self _⟩
    · rw [lost, Bool.and_false]
      refine .inr ⟨rfl, ?_⟩
      rw [length_append, length_append]
      split
      · omega
      · rw [length_cons]
        omega

end Unmarked

theorem delayedPhase_iff (value : List UInt8) :
    (∀ environment : Environment, environment (ascii "nl") = [lf] →
      delayedPhase environment (specialCodes false value) = value.filter (· != cr)) ↔
        batchArrives value = true := by
  rw [batchArrives]
  cases marks : hasMarks value with
  | true =>
    have marked : mark ∈ specialCodes false value := (mem_specialCodes false value).mpr marks
    simp only [delayedPhase, if_pos marked]
    exact ⟨fun same => arriveFrom_of_expandMarks (same questionMarks rfl),
      fun arrived environment newline => expandMarks_specialCodes newline arrived⟩
  | false =>
    have unmarked : mark ∉ specialCodes false value := by
      rw [mem_specialCodes, marks]
      exact Bool.false_ne_true
    rw [hasMarks, Bool.or_eq_false_iff] at marks
    have absent : mark ∉ value ∧ lf ∉ value := by simpa using marks
    simp only [delayedPhase, if_neg unmarked]
    rcases @specialCodes_unmarked false value absent.1 absent.2 with ⟨arrived, same⟩ |
      ⟨lost, longer⟩
    · exact ⟨fun _ => arrived, fun _ _ _ => same⟩
    · rw [lost]
      refine ⟨fun same => ?_, fun impossible => by cases impossible⟩
      rw [same questionMarks rfl] at longer
      omega

end Codes

section Lines

theorem plain_space : PlainByte (byte ' ') :=
  plain_of_not_mem (by decide)

theorem plain_name (isName : isNameByte char = true) : PlainByte char := by
  have names : specials.Forall fun special => isNameByte special = false := by decide
  refine plain_of_not_mem fun member => ?_
  rw [forall_iff_forall_mem.mp names char member] at isName
  cases isName

theorem batchCode_plain (plain : PlainByte char) : batchCode char = [char] := by
  rw [batchCode_eq, if_neg plain.notPercent, plain.specialCode]

def setStart (padding key : List UInt8) : List UInt8 :=
  padding ++ (ascii "SET " ++ (key ++ ascii "="))

variable {padding key : List UInt8} (spaces : ∀ char ∈ padding, char = byte ' ')
  (isName : IsName key)

include spaces isName

theorem plain_setStart : ∀ char ∈ setStart padding key, PlainByte char := by
  have words : ∀ char ∈ ascii "SET " ++ ascii "=", char ∉ specials :=
    forall_iff_forall_mem.mp (by decide)
  intro char member
  simp only [setStart, mem_append] at member
  rcases member with inPadding | inSet | inKey | inEquals
  · rw [spaces char inPadding]
    exact plain_space
  · exact plain_of_not_mem (words char (mem_append_left _ inSet))
  · exact plain_name (isName.bytes char inKey)
  · exact plain_of_not_mem (words char (mem_append_right _ inEquals))

theorem expandLine_setStart (environment : Environment) (value : List UInt8) :
    expandLine environment (setStart padding key ++ value.flatMap batchCode) =
      some (setStart padding key ++ delayedPhase environment (specialCodes false value)) := by
  have plain := plain_setStart spaces isName
  have noPercent : percent ∉ setStart padding key :=
    fun member => (plain percent member).notPercent rfl
  have noMark : mark ∉ setStart padding key := fun member => (plain mark member).notMark rfl
  have noCaret : caret ∉ setStart padding key := fun member => (plain caret member).notCaret rfl
  have inert : ∀ char ∈ setStart padding key, Inert char := fun char member =>
    ⟨(plain char member).notQuote, (plain char member).notCaret, (plain char member).notOperator⟩
  rw [expandLine, percentPhase_append environment noPercent, percentPhase_batchCodes,
    specialPhase_inert inert, specialPhase_codes, map_some, map_some,
    delayedPhase_append environment noMark noCaret]

end Lines

/-- The line of `Variable` sets the key to the value without carriage returns, whatever else
the environment has, if `nl` is a line feed. -/
def CmdAssigned (isPrint : Char → Bool) (writer : ScriptWriter) (entry : JobVariable) : Prop :=
  ∀ environment : Environment, environment (ascii "nl") = [lf] →
    ∃ after script environment', CmdWriter.writeVariable isPrint entry writer = some ((), after) ∧
      after.buffer = writer.buffer ++ script ∧
      runLine environment script = some (environment', []) ∧
      environment' entry.key = entry.value.filter (· != cr)

section Assignments

variable {isPrint : Char → Bool} {writer : ScriptWriter} {entry : JobVariable}

theorem batchEscapeVariable_name {key : List UInt8} (isName : IsName key) :
    batchEscapeVariable key = key := by
  rw [batchEscapeVariable_eq,
    flatMap_congr fun char member => batchCode_plain (plain_name (isName.bytes char member)),
    flatMap_singleton']

theorem writeVariable_set (indented : 0 ≤ writer.indent) (notFile : entry.file = false)
    (isName : IsName entry.key) :
    CmdWriter.writeVariable isPrint entry writer = some ((), { writer with
      buffer := writer.buffer ++ (setStart writer.padding entry.key ++
        entry.value.flatMap batchCode ++ [cr, lf]) }) := by
  rw [CmdWriter.writeVariable, notFile]
  simp only [Bool.false_eq_true, if_false]
  rw [CmdWriter.line, line_eq_some indented, batchEscapeVariable_name isName,
    batchEscapeVariable_eq]
  simp only [setStart, append_assoc]
  rfl

theorem runLine_set (isName : IsName entry.key) (environment : Environment) :
    runLine environment (setStart writer.padding entry.key ++ entry.value.flatMap batchCode ++
        [cr, lf]) = some (update environment entry.key
        (delayedPhase environment (specialCodes false entry.value)), []) := by
  have spaces : ∀ char ∈ writer.padding, char = byte ' ' := fun _ => eq_space_of_mem_padding
  have codes : ∀ char, lf ∉ batchCode char ∧ cr ∉ batchCode char := by
    refine forall_special (by decide) fun char plain => ?_
    simp [batchCode_plain plain, Ne.symm plain.notLf, Ne.symm plain.notReturn]
  have noLf : lf ∉ setStart writer.padding entry.key ++ entry.value.flatMap batchCode := by
    rw [mem_append, mem_flatMap, not_or]
    exact ⟨fun member => (plain_setStart spaces isName lf member).notLf rfl,
      fun ⟨char, _, inside⟩ => (codes char).1 inside⟩
  have noCr : cr ∉ setStart writer.padding entry.key ++ entry.value.flatMap batchCode := by
    rw [mem_append, mem_flatMap, not_or]
    exact ⟨fun member => (plain_setStart spaces isName cr member).notReturn rfl,
      fun ⟨char, _, inside⟩ => (codes char).2 inside⟩
  have line := readLine_line noLf noCr []
  have runs := runSet_set environment spaces isName
    (delayedPhase environment (specialCodes false entry.value))
  have shape : setStart writer.padding entry.key ++
      delayedPhase environment (specialCodes false entry.value) =
        writer.padding ++ (ascii "SET " ++ (entry.key ++ (ascii "=" ++
          delayedPhase environment (specialCodes false entry.value)))) := by
    simp only [setStart, append_assoc]
  rw [runLine, line]
  simp only [expandLine_setStart spaces isName, bind_eq_bind, bind_some, shape, runs]
  rfl

theorem cmdAssigned_iff (indented : 0 ≤ writer.indent) (notFile : entry.file = false)
    (isName : IsName entry.key) :
    CmdAssigned isPrint writer entry ↔ batchArrives entry.value = true := by
  rw [← delayedPhase_iff]
  refine forall₂_congr fun environment newline => ?_
  constructor
  · rintro ⟨after, script, environment', writes, buffer, runs, assigned⟩
    rw [writeVariable_set indented notFile isName, some.injEq, Prod.mk.injEq] at writes
    rw [← writes.2] at buffer
    rw [← append_cancel_left buffer, runLine_set isName, some.injEq, Prod.mk.injEq] at runs
    rw [← runs.1, update_self] at assigned
    exact assigned
  · intro same
    refine ⟨_, _, _, writeVariable_set indented notFile isName, rfl,
      runLine_set isName environment, ?_⟩
    rw [update_self, same]

end Assignments

/-- `Variable` assigns a value in every environment exactly if it has no caret outside of
double quotes and no exclamation mark between them, in the case that it has an exclamation
mark or a line feed, and otherwise no caret and no operator between double quotes. -/
theorem batch_variable_assigned_iff (isPrint : Char → Bool) (writer : ScriptWriter)
    (entry : JobVariable) (indented : 0 ≤ writer.indent) (notFile : entry.file = false)
    (isName : IsName entry.key) :
    CmdAssigned isPrint writer entry ↔ batchArrives entry.value = true :=
  cmdAssigned_iff indented notFile isName

/-- A value with percent signs, operators and two lines. -/
theorem two_lines_assigned :
    CmdAssigned (fun _ => true) ⟨[], [], 1⟩
      ⟨ascii "KEY", ascii "100% (a & b)!\r\n\"c ^ d\"", true, false, false, false⟩ := by
  have bytes : (ascii "KEY").all isNameByte = true := by decide
  exact (batch_variable_assigned_iff (fun _ => true) ⟨[], [], 1⟩
    ⟨ascii "KEY", ascii "100% (a & b)!\r\n\"c ^ d\"", true, false, false, false⟩ (by decide) rfl
    ⟨by decide, all_eq_true.mp bytes⟩).mpr (by decide +kernel)

/-- An operator between double quotes gets a caret in front of it. -/
theorem quoted_operator_changed :
    ¬CmdAssigned (fun _ => true) ⟨[], [], 0⟩
        ⟨ascii "KEY", ascii "\"a&b\"", true, false, false, false⟩ ∧
      expandLine questionMarks (ascii "SET KEY=" ++ batchEscapeVariable (ascii "\"a&b\"")) =
        some (ascii "SET KEY=\"a^&b\"") ∧
      expandLine questionMarks (ascii "SET KEY=" ++ batchEscapeVariable (ascii "a^b!")) =
        some (ascii "SET KEY=ab!") := by
  have bytes : (ascii "KEY").all isNameByte = true := by decide
  refine ⟨fun assigned => ?_, by decide +kernel, by decide +kernel⟩
  rw [cmdAssigned_iff (by decide) rfl ⟨by decide, all_eq_true.mp bytes⟩] at assigned
  revert assigned
  decide +kernel

end GitlabRunner.Shells
