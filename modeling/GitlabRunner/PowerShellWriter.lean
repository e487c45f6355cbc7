import GitlabRunner.JobVariables
import GitlabRunner.PowerShellText
import GitlabRunner.ScriptWriters
import GitlabRunner.Utf8Runes
import Mathlib.Data.Bool.AllAny

/-!
# Scripts for PowerShell

`psQuote` and `psQuoteVariable` of `shells/powershell.go` write a text as an expandable
string, and `PsWriter.Variable` assigns such a string.  PowerShell reads the script as
UTF-8.
-/

namespace GitlabRunner.Shells

open ByteText SlashPaths Variables PowerShell Panicking List Function Utf8

def psReplacements : List (UInt8 × List UInt8) :=
  [(byte '\x60', ascii "``"), (7, ascii "`a"), (8, ascii "`b"), (12, ascii "^f"),
    (13, ascii "`r"), (10, ascii "`n"), (9, ascii "^t"), (11, ascii "^v"),
    (byte '#', ascii "`#"), (byte '\'', ascii "`'"), (byte '"', ascii "`\"")]

def psQuote (text : List UInt8) : List UInt8 :=
  ascii "\"" ++ replaceBytes text psReplacements ++ ascii "\""

def psQuoteVariable (text : List UInt8) : List UInt8 :=
  replaceByte (psQuote text) (byte '$') (ascii "`$")

namespace PsWriter

def line (text : List UInt8) : Script Unit :=
  Script.line (ascii "\r\n") text

def absolute (dir : List UInt8) : Script (List UInt8) := do
  if rooted dir then
    return dir
  line (ascii "$CurrentDirectory = (Resolve-Path .\\).Path")
  return join [ascii "$CurrentDirectory", dir]

def tmpFile (name : List UInt8) : Script (List UInt8) := do
  let filePath ← absolute (join [← Script.temporaryPath, name])
  return toBackslash filePath

def writeVariable (entry : JobVariable) : Script Unit := do
  if entry.file then
    let variableFile ← tmpFile entry.key
    line (ascii "md " ++ psQuote (toBackslash (← Script.temporaryPath)) ++
      ascii " -Force | out-null")
    line (ascii "Set-Content " ++ psQuote variableFile ++ ascii " -Value " ++
      psQuoteVariable entry.value ++ ascii " -Encoding UTF8 -Force")
    line (ascii "$" ++ entry.key ++ ascii "=" ++ psQuote variableFile)
  else
    line (ascii "$" ++ entry.key ++ ascii "=" ++ psQuoteVariable entry.value)
  line (ascii "$env:" ++ entry.key ++ ascii "=$" ++ entry.key)

def envVariableKey (name : List UInt8) : List UInt8 :=
  ascii "$" ++ name

def checkErrorLevel : Script Unit := do
  line (ascii "if(!$?) \x7b Exit $LASTEXITCODE \x7d")
  line []

def buildCommand (command : List UInt8) (arguments : List (List UInt8)) : List UInt8 :=
  ascii "& " ++ (ascii " ").intercalate (psQuote command :: arguments.map psQuote)

def command (command : List UInt8) (arguments : List (List UInt8)) : Script Unit := do
  line (buildCommand command arguments)
  checkErrorLevel

def ifInTryCatch (command : List UInt8) : Script Unit := do
  line (ascii "Set-Variable -Name cmdErr -Value $false")
  line (ascii "Try \x7b")
  Script.indent
  line command
  line (ascii "if(!$?) \x7b throw $LASTEXITCODE \x7d")
  Script.unindent
  line (ascii "\x7d Catch \x7b")
  Script.indent
  line (ascii "Set-Variable -Name cmdErr -Value $true")
  Script.unindent
  line (ascii "\x7d")
  line (ascii "if(!$cmdErr) \x7b")
  Script.indent

def ifCmd (command : List UInt8) (arguments : List (List UInt8)) : Script Unit :=
  ifInTryCatch (buildCommand command arguments ++ ascii " 2>$null")

def ifCmdWithOutput (command : List UInt8) (arguments : List (List UInt8)) : Script Unit :=
  ifInTryCatch (buildCommand command arguments)

def elseCmd : Script Unit := do
  Script.unindent
  line (ascii "\x7d else \x7b")
  Script.indent

def endIf : Script Unit := do
  Script.unindent
  line (ascii "\x7d")

def cd (path : List UInt8) : Script Unit := do
  line (ascii "cd " ++ psQuote (toBackslash path))
  checkErrorLevel

def mkDir (path : List UInt8) : Script Unit :=
  line (ascii "md " ++ psQuote (toBackslash path) ++ ascii " -Force | out-null")

def mkTmpDir (name : List UInt8) : Script (List UInt8) := do
  let path := toBackslash (join [← Script.temporaryPath, name])
  mkDir path
  return path

/-- What `RmDir` and `RmFile` have in common: the type of the path and the options. -/
def remove (pathType options path : List UInt8) : Script Unit := do
  let path := psQuote (toBackslash path)
  line (ascii "if( (Get-Command -Name Remove-Item2 -Module NTFSSecurity " ++
    ascii "-ErrorAction SilentlyContinue) -and (Test-Path " ++ path ++ ascii " -PathType " ++
    pathType ++ ascii ") ) \x7b")
  Script.indent
  line (ascii "Remove-Item2 " ++ options ++ path)
  Script.unindent
  line (ascii "\x7d elseif(Test-Path " ++ path ++ ascii ") \x7b")
  Script.indent
  line (ascii "Remove-Item " ++ options ++ path)
  Script.unindent
  line (ascii "\x7d")
  line []

def rmDir (path : List UInt8) : Script Unit :=
  remove (ascii "Container") (ascii "-Force -Recurse ") path

def rmFile (path : List UInt8) : Script Unit :=
  remove (ascii "Leaf") (ascii "-Force ") path

def notice (text : List UInt8) : Script Unit :=
  line (ascii "echo " ++ psQuoteVariable (ansiBoldGreen ++ text ++ ansiReset))

def warning (text : List UInt8) : Script Unit :=
  line (ascii "echo " ++ psQuoteVariable (ansiYellow ++ text ++ ansiReset))

def emptyLine : Script Unit :=
  line (ascii "echo \"\"")

def finish (trace : Bool) (buffer : List UInt8) : List UInt8 :=
  [0xEF, 0xBB, 0xBF] ++ (if trace then ascii "Set-PSDebug -Trace 2\r\n" else []) ++ buffer

end PsWriter

section Codes

def psCode (char : UInt8) : List UInt8 :=
  replaceBytes [char] (psReplacements ++ [(byte '$', ascii "`$")])

theorem psQuoteVariable_eq (text : List UInt8) :
    psQuoteVariable text = ascii "\"" ++ text.flatMap psCode ++ ascii "\"" := by
  have quotes : replaceByte (ascii "\"") (byte '$') (ascii "`$") = ascii "\"" := by decide
  rw [psQuoteVariable, psQuote, replaceByte_append, replaceByte_append, quotes,
    ← replaceBytes_concat, replaceBytes_eq]
  rfl

def psRune : Char → List Char :=
  runeCode psCode

def isCaretWritten (char : Char) : Bool :=
  ['\x0c', '\t', '\x0b'].contains char

/-- What PowerShell reads of a character that is no typographic quote. -/
def psShown (char : Char) : List Char :=
  if isCaretWritten char then psRune char else [char]

theorem psCode_low : ∀ char : UInt8, char.toNat < 0x80 →
    ∀ written ∈ psCode char, written.toNat < 0x80 := by
  have all : ∀ char : UInt8, char.toNat < 0x80 →
      (psCode char).all (fun written => decide (written.toNat < 0x80)) = true :=
    forall_byte (by decide +kernel)
  intro char small written member
  exact of_decide_eq_true (all_eq_true.mp (all char small) written member)

theorem psCode_high : ∀ char : UInt8, 0x80 ≤ char.toNat → psCode char = [char] :=
  forall_byte (by decide +kernel)

theorem psCodes_encode (text : List Char) :
    (encode text).flatMap psCode = encode (text.flatMap psRune) :=
  flatMap_encode psCode_low psCode_high text

theorem psCode_cases : ∀ byte : UInt8, byte.toNat < 0x80 →
    (isCaretWritten (Char.ofNat byte.toNat) = false ∧
      asciiText (psCode byte) = [Char.ofNat byte.toNat] ∧
      isDoubleQuote (Char.ofNat byte.toNat) = false ∧ Char.ofNat byte.toNat ≠ '$' ∧
      Char.ofNat byte.toNat ≠ '\x60' ∧ Char.ofNat byte.toNat ≠ '\r') ∨
    (isCaretWritten (Char.ofNat byte.toNat) = false ∧
      ['\x60', 'a', 'b', 'r', 'n', '#', '\'', '"', '$'].any (fun letter =>
        decide (asciiText (psCode byte) = ['\x60', letter] ∧
          unescape letter = Char.ofNat byte.toNat)) = true) ∨
    (isCaretWritten (Char.ofNat byte.toNat) = true ∧
      ['f', 't', 'v'].any (fun letter =>
        decide (asciiText (psCode byte) = ['^', letter])) = true) :=
  forall_byte (by decide +kernel)

/-- How a character is written: as it is, behind a backtick or with a caret. -/
inductive PsWritten (char : Char) : Prop where
  | plain (code : psRune char = [char]) (ordinary : Ordinary char) (notReturn : char ≠ '\r')
    (notCaret : isCaretWritten char = false)
  | escaped (letter : Char) (code : psRune char = ['\x60', letter])
    (value : unescape letter = char) (notCaret : isCaretWritten char = false)
  | caret (letter : Char) (code : psRune char = ['^', letter]) (ordinary : Ordinary letter)
    (isCaret : isCaretWritten char = true)
  | quote (code : psRune char = [char]) (isQuote : isTypographic char = true)
variable {char : Char}

theorem psWritten_ascii (small : char.toNat < 0x80) : PsWritten char := by
  have value : (UInt8.ofNat char.toNat).toNat = char.toNat := by
    rw [UInt8.toNat_ofNat']
    omega
  have code : psRune char = asciiText (psCode (UInt8.ofNat char.toNat)) := if_pos small
  have cases := psCode_cases (UInt8.ofNat char.toNat) (by rw [value]; exact small)
  rw [← code, value, Char.ofNat_toNat, any_iff_exists_prop, any_iff_exists_prop] at cases
  rcases cases with ⟨notCaret, same, notQuote, notDollar, notBacktick, notReturn⟩ |
    ⟨notCaret, letter, -, same, means⟩ | ⟨isCaret, letter, known, same⟩
  · exact .plain same ⟨notQuote, notDollar, notBacktick⟩ notReturn notCaret
  · exact .escaped letter same means notCaret
  · have ordinary : ∀ letter ∈ ['f', 't', 'v'], isDoubleQuote letter = false ∧ letter ≠ '$' ∧
        letter ≠ '\x60' := all_iff_forall_prop.mp (by decide)
    obtain ⟨notQuote, notDollar, notBacktick⟩ := ordinary letter known
    exact .caret letter same ⟨notQuote, notDollar, notBacktick⟩ isCaret

theorem psWritten_large (large : 0x80 ≤ char.toNat) : PsWritten char := by
  have differs : ∀ other : Char, other.toNat < 0x80 → char ≠ other := by
    rintro other small rfl
    omega
  have code : psRune char = [char] := if_neg (by omega)
  cases isQuote : isTypographic char with
  | true => exact .quote code isQuote
  | false =>
    have notCaret : isCaretWritten char = false := by
      simp [isCaretWritten, differs '\x0c' (by decide), differs '\t' (by decide),
        differs '\x0b' (by decide)]
    have ordinary : Ordinary char :=
      ⟨by simp [isDoubleQuote, isQuote, differs '"' (by decide)], differs '$' (by decide),
        differs '\x60' (by decide)⟩
    exact .plain code ordinary (differs '\r' (by decide)) notCaret

theorem psWritten (char : Char) : PsWritten char := by
  by_cases small : char.toNat < 0x80
  · exact psWritten_ascii small
  · exact psWritten_large (by omega)

theorem stringBody_psRune (notQuote : isTypographic char = false) (rest : List Char) :
    stringBody (psRune char ++ rest) = (stringBody rest).map (Prod.map (psShown char ++ ·) id) := by
  cases psWritten char with
  | plain code ordinary _ notCaret =>
    rw [psShown, notCaret, code]
    exact stringBody_ordinary ordinary
  | escaped letter code value notCaret =>
    rw [psShown, notCaret, code, ← value]
    exact stringBody_escaped
  | caret letter code ordinary isCaret =>
    have caret : Ordinary '^' := ⟨by decide, by decide, by decide⟩
    rw [psShown, if_pos isCaret, code]
    change stringBody ('^' :: letter :: rest) = _
    rw [stringBody_ordinary caret, stringBody_ordinary ordinary, Option.map_map]
    rfl
  | quote _ isQuote =>
    rw [isQuote] at notQuote
    cases notQuote

/-- Nothing that is written begins with a quote or a carriage return. -/
theorem psRune_head (notQuote : isTypographic char = false) :
    ∃ head more, psRune char = head :: more ∧ isDoubleQuote head = false ∧ head ≠ '\r' := by
  cases psWritten char with
  | plain code ordinary notReturn _ => exact ⟨char, [], code, ordinary.notQuote, notReturn⟩
  | escaped letter code _ _ => exact ⟨'\x60', [letter], code, by decide, by decide⟩
  | caret letter code _ _ => exact ⟨'^', [letter], code, by decide, by decide⟩
  | quote _ isQuote =>
    rw [isQuote] at notQuote
    cases notQuote

theorem typographic_cases (isQuote : isTypographic char = true) :
    psRune char = [char] ∧ isDoubleQuote char = true ∧ psShown char = [char] ∧ char ≠ '^' := by
  simp only [isTypographic, contains_cons, contains_nil, Bool.or_false, Bool.or_eq_true,
    beq_iff_eq] at isQuote
  rcases isQuote with rfl | rfl | rfl <;> decide

theorem psShown_caret (isCaret : isCaretWritten char = true) :
    (psShown char).count '^' = 1 ∧ char ≠ '^' := by
  simp only [isCaretWritten, contains_cons, contains_nil, Bool.or_false,
    Bool.or_eq_true, beq_iff_eq] at isCaret
  rcases isCaret with rfl | rfl | rfl <;> decide

/-- What can be said of the value of a string behind its codes: it has all the carets, and it
is shorter if there was a typographic quote. -/
structure ReadsBack (text value : List Char) : Prop where
  carets : value.count '^' = (text.flatMap psShown).count '^'
  length : value.length ≤ (text.flatMap psShown).length
  shorter : (∃ char ∈ text, isTypographic char = true) →
    value.length < (text.flatMap psShown).length

theorem ReadsBack.nil : ReadsBack [] [] :=
  ⟨rfl, le_rfl, by simp⟩
variable {text : List Char}

theorem ReadsBack.cons {value : List Char} (reads : ReadsBack text value)
    (notQuote : isTypographic char = false) : ReadsBack (char :: text) (psShown char ++ value) := by
  refine ⟨?_, ?_, ?_⟩
  · rw [flatMap_cons, count_append, count_append, reads.carets]
  · rw [flatMap_cons, length_append, length_append]
    exact Nat.add_le_add_left reads.length _
  · rintro ⟨other, member, isQuote⟩
    rcases mem_cons.mp member with rfl | inside
    · rw [isQuote] at notQuote
      cases notQuote
    · rw [flatMap_cons, length_append, length_append]
      exact Nat.add_lt_add_left (reads.shorter ⟨other, inside, isQuote⟩) _

theorem ReadsBack.doubled {next : Char} {value : List Char}
    (reads : ReadsBack text value) (isQuote : isTypographic char = true)
    (again : isTypographic next = true) : ReadsBack (char :: next :: text) (next :: value) := by
  obtain ⟨-, -, shown, notCaret⟩ := typographic_cases isQuote
  obtain ⟨-, -, shownNext, notCaretNext⟩ := typographic_cases again
  have length := reads.length
  refine ⟨?_, ?_, fun _ => ?_⟩
  · simp [shown, shownNext, reads.carets, notCaret, notCaretNext]
  all_goals
    simp only [flatMap_cons, shown, shownNext, length_append, length_cons, length_nil]
    omega

variable {tail : List Char}

/-- The string that is written for a text is read up to its end, or it ends at a character
that was written for the text. -/
theorem stringBody_psRunes (opened : stringBody tail = none)
    (ends : ∀ next behind, tail = next :: behind → isDoubleQuote next = false) :
    ∀ {text value rest : List Char},
      stringBody (text.flatMap psRune ++ '"' :: tail) = some (value, rest) →
      (rest = tail ∧ ReadsBack text value) ∨ ∃ head more, rest = head :: more ∧ head ≠ '\r'
  | [], value, rest, reads => by
      rw [flatMap_nil, nil_append, stringBody_closed (by decide) ends,
        Option.some.injEq, Prod.mk.injEq] at reads
      obtain ⟨rfl, rfl⟩ := reads
      exact .inl ⟨rfl, .nil⟩
  | char :: text, value, rest, reads => by
      rw [flatMap_cons, append_assoc] at reads
      cases isQuote : isTypographic char with
      | false =>
        rw [stringBody_psRune isQuote, Option.map_eq_some_iff] at reads
        obtain ⟨⟨inner, behind⟩, readsInner, same⟩ := reads
        cases same
        rcases stringBody_psRunes opened ends readsInner with ⟨isTail, back⟩ | early
        · exact .inl ⟨isTail, back.cons isQuote⟩
        · exact .inr early
      | true =>
        obtain ⟨code, quote, -, -⟩ := typographic_cases isQuote
        rw [code] at reads
        match text with
        | [] =>
          rw [flatMap_nil, nil_append, singleton_append,
            stringBody_doubled quote (by decide), opened] at reads
          cases reads
        | next :: text =>
          rw [flatMap_cons, append_assoc, singleton_append] at reads
          cases again : isTypographic next with
          | false =>
            obtain ⟨head, more, written, notQuote, notReturn⟩ := psRune_head again
            have closed : ∀ follow behind,
                psRune next ++ (text.flatMap psRune ++ '"' :: tail) = follow :: behind →
                isDoubleQuote follow = false := by
              intro follow behind same
              rw [written] at same
              cases same
              exact notQuote
            rw [stringBody_closed quote closed, Option.some.injEq, Prod.mk.injEq] at reads
            rw [← reads.2, written]
            exact .inr ⟨head, _, rfl, notReturn⟩
          | true =>
            obtain ⟨codeNext, quoteNext, -, -⟩ := typographic_cases again
            rw [codeNext, singleton_append, stringBody_doubled quote quoteNext,
              Option.map_eq_some_iff] at reads
            obtain ⟨⟨inner, behind⟩, readsInner, same⟩ := reads
            cases same
            rcases stringBody_psRunes opened ends readsInner with ⟨isTail, back⟩ | early
            · exact .inl ⟨isTail, back.doubled isQuote again⟩
            · exact .inr early

structure IsKept (char : Char) : Prop where
  notCaret : isCaretWritten char = false
  notQuote : isTypographic char = false

theorem psShowns_eq (noCaret : ∀ char ∈ text, isCaretWritten char = false) :
    text.flatMap psShown = text := by
  have shown : ∀ char ∈ text, psShown char = [char] := by
    intro char member
    rw [psShown, noCaret char member]
    rfl
  rw [flatMap_congr shown, flatMap_singleton']

theorem stringBody_kept (ends : ∀ next behind, tail = next :: behind → isDoubleQuote next = false)
    (kept : ∀ char ∈ text, IsKept char) :
    stringBody (text.flatMap psRune ++ '"' :: tail) = some (text, tail) := by
  induction text with
  | nil => exact stringBody_closed (by decide) ends
  | cons char text ih =>
    rw [flatMap_cons, append_assoc, stringBody_psRune (kept char (by simp)).notQuote,
      ih fun other member => kept other (mem_cons_of_mem char member), psShown,
      (kept char (by simp)).notCaret]
    rfl

theorem count_caret (text : List Char) :
    text.count '^' + text.countP isCaretWritten = (text.flatMap psShown).count '^' := by
  induction text with
  | nil => rfl
  | cons char text ih =>
    rw [flatMap_cons, count_append, ← ih, count_cons, countP_cons]
    cases isCaret : isCaretWritten char with
    | true =>
      obtain ⟨one, different⟩ := psShown_caret isCaret
      rw [one, if_neg (by simpa using different), if_pos rfl]
      omega
    | false =>
      have shown : psShown char = [char] := by
        rw [psShown, isCaret]
        rfl
      rw [shown, count_singleton, if_neg Bool.false_ne_true]
      omega

theorem ReadsBack.kept (reads : ReadsBack text text) : ∀ char ∈ text, IsKept char := by
  have noCaret : ∀ char ∈ text, isCaretWritten char = false := by
    have none : text.countP isCaretWritten = 0 := by
      have counted := count_caret text
      have carets := reads.carets
      omega
    simpa [countP_eq_zero] using none
  have noQuote : ∀ char ∈ text, isTypographic char = false := by
    intro char member
    by_contra isQuote
    have shorter := reads.shorter ⟨char, member, by simpa using isQuote⟩
    rw [psShowns_eq noCaret] at shorter
    omega
  exact fun char member => ⟨noCaret char member, noQuote char member⟩

theorem runes_psQuoteVariable (text : List Char) :
    runes (psQuoteVariable (encode text)) = '"' :: (text.flatMap psRune ++ ['"']) := by
  have encoded : psQuoteVariable (encode text) =
      encode ('"' :: (text.flatMap psRune ++ ['"'])) := by
    rw [psQuoteVariable_eq, psCodes_encode, encode_cons, encode_append]
    rfl
  rw [encoded, runes_encode]

end Codes

/-- A text of UTF-8 without form feeds, tabs, vertical tabs and typographic double quotes. -/
def PsKept (text : List UInt8) : Prop :=
  ∃ runes, text = encode runes ∧ ∀ char ∈ runes, IsKept char

/-- PowerShell reads what `psQuoteVariable` writes as one string, whose value is the text. -/
def PsReadBack (text : List UInt8) : Prop :=
  ∃ value, expandableString (runes (psQuoteVariable text)) = some (value, []) ∧
    encode value = text

/-- The lines of `Variable` leave the variable and the entry of the environment with the
value. -/
def PsAssigned (writer : ScriptWriter) (entry : JobVariable) (session : Session) : Prop :=
  ∃ after script session' value, PsWriter.writeVariable entry writer = some ((), after) ∧
    after.buffer = writer.buffer ++ script ∧
    session.run (runes script) = some session' ∧ encode value = entry.value ∧
    session'.assigned (runes entry.key) = some value ∧
    (session'.environment (runes entry.key)).getD [] = value

theorem psReadBack_iff (text : List UInt8) : PsReadBack text ↔ PsKept text := by
  constructor
  · rintro ⟨value, reads, rfl⟩
    rw [runes_psQuoteVariable] at reads
    rcases stringBody_psRunes rfl (by simp) reads with ⟨-, back⟩ | ⟨head, more, same, -⟩
    · exact ⟨value, rfl, back.kept⟩
    · cases same
  · rintro ⟨runes, rfl, kept⟩
    refine ⟨runes, ?_, rfl⟩
    rw [runes_psQuoteVariable]
    exact stringBody_kept (by simp) kept

section Assignments

/-- The second line of `Variable`, from the end of the first one. -/
def environmentLine (count : Nat) (name : List Char) : List Char :=
  List.replicate count ' ' ++ ['$', 'e', 'n', 'v', ':'] ++ name ++ ['=', '$'] ++ name ++
    ['\r', '\n']

def psLines (padding key value : List UInt8) : List UInt8 :=
  padding ++ (ascii "$" ++ key ++ ascii "=" ++ psQuoteVariable value) ++ ascii "\r\n" ++
    (padding ++ (ascii "$env:" ++ key ++ ascii "=$" ++ key) ++ ascii "\r\n")

theorem writeVariable_value {writer : ScriptWriter} (indented : 0 ≤ writer.indent)
    {entry : JobVariable} (notFile : entry.file = false) :
    PsWriter.writeVariable entry writer = some ((), { writer with
      buffer := writer.buffer ++ psLines writer.padding entry.key entry.value }) := by
  rw [PsWriter.writeVariable, notFile]
  simp only [Bool.false_eq_true, if_false]
  rw [bind_apply, PsWriter.line, PsWriter.line, line_eq_some indented, Option.bind_some,
    line_eq_some]
  · simp only [psLines, append_assoc]
    rfl
  · exact indented

theorem padding_eq (count : Nat) :
    (List.replicate count (ascii "  ")).flatten = encode (List.replicate (2 * count) ' ') := by
  induction count with
  | zero => rfl
  | succ count ih =>
    rw [replicate_succ, flatten_cons, ih, Nat.mul_succ, replicate_succ, replicate_succ]
    rfl

theorem psLines_encode (count : Nat) (name text : List Char) :
    psLines (List.replicate count (ascii "  ")).flatten (encode name) (encode text) =
      encode (List.replicate (2 * count) ' ' ++ '$' :: (name ++ '=' :: '"' ::
        (text.flatMap psRune ++ '"' :: '\r' :: '\n' :: environmentLine (2 * count) name))) := by
  simp only [psLines, environmentLine, padding_eq, psQuoteVariable_eq, psCodes_encode,
    encode_append, encode_cons, encode_nil, append_assoc]
  rfl

theorem stringBody_environmentLine (count : Nat) (name : List Char) :
    stringBody ('\r' :: '\n' :: environmentLine count name) = none := by
  have spaces : ∀ count rest, stringBody (List.replicate count ' ' ++ '$' :: rest) = none := by
    intro count rest
    induction count with
    | zero => exact stringBody_dollar
    | succ count ih =>
      rw [replicate_succ, cons_append, stringBody_ordinary ⟨by decide, by decide, by decide⟩, ih]
      rfl
  rw [stringBody_ordinary ⟨by decide, by decide, by decide⟩,
    stringBody_ordinary ⟨by decide, by decide, by decide⟩, environmentLine]
  simp only [append_assoc, cons_append, spaces]
  rfl

theorem environmentLine_ends (count : Nat) (name : List Char) (next : Char)
    (behind : List Char) (same : '\r' :: '\n' :: environmentLine count name = next :: behind) :
    isDoubleQuote next = false := by
  cases same
  decide

variable {session : Session} {name : List Char} (isName : IsName name) (count : Nat)

include isName

theorem runLines_environmentLine (fuel : Nat) :
    session.runLines (fuel + 1) (environmentLine count name) =
      some (session.assignEnvironment name ((session.assigned name).getD [])) := by
  have line := runLine_environment session isName count []
  rw [append_nil] at line
  rw [runLines_of_ne_nil _ _ (by simp [environmentLine]), environmentLine, line, Option.bind_some,
    runLines_nil]

theorem run_psLines (written : List Char) :
    ∃ fuel, session.run (List.replicate count ' ' ++ '$' :: (name ++ '=' :: '"' :: written)) =
      (stringBody written).bind fun string => (expect ['\r', '\n'] string.2).bind fun behind =>
          (session.assign name string.1).bind fun assigned =>
            assigned.runLines (fuel + 1) behind := by
  have length : ∃ fuel,
      (List.replicate count ' ' ++ '$' :: (name ++ '=' :: '"' :: written)).length =
        fuel + 1 + 1 := by
    exact ⟨count + name.length + written.length + 1, by simp; omega⟩
  obtain ⟨fuel, length⟩ := length
  refine ⟨fuel, ?_⟩
  have opening : expandableString ('"' :: written) = stringBody written := rfl
  rw [Session.run, length, runLines_of_ne_nil _ _ (by simp), runLine_assign session isName, opening]
  cases stringBody written with
  | none => rfl
  | some string =>
    simp only [Option.bind_some]
    cases expect ['\r', '\n'] string.2 with
    | none => rfl
    | some behind =>
      simp only [Option.bind_some]
      cases session.assign name string.1 <;> rfl

theorem kept_of_run {session' : Session} {text : List Char}
    (runs : session.run (List.replicate count ' ' ++ '$' :: (name ++ '=' :: '"' ::
      (text.flatMap psRune ++ '"' :: '\r' :: '\n' :: environmentLine count name))) = some session')
    (assigned : session'.assigned name = some text) : ∀ char ∈ text, IsKept char := by
  obtain ⟨fuel, run⟩ := @run_psLines session name isName count
    (text.flatMap psRune ++ '"' :: '\r' :: '\n' :: environmentLine count name)
  rw [run] at runs
  simp only [Option.bind_eq_some_iff] at runs
  obtain ⟨⟨value, rest⟩, reads, behind, ended, session'', assigns, later⟩ := runs
  rcases stringBody_psRunes (stringBody_environmentLine count name)
    (environmentLine_ends count name) reads with
    ⟨isTail, back⟩ | ⟨head, more, isHead, notReturn⟩
  · have isBehind : behind = environmentLine count name := by
      have expected := expect_append ['\r', '\n'] (environmentLine count name)
      rw [isTail] at ended
      exact Option.some.inj (ended.symm.trans expected)
    rw [isBehind, runLines_environmentLine isName count, Option.some.injEq] at later
    rw [Session.assign] at assigns
    split at assigns
    · cases assigns
    · rw [Option.some.injEq] at assigns
      have same : value = text := by
        rw [← later, ← assigns] at assigned
        simpa [Session.assignEnvironment] using assigned
      rw [same] at back
      exact back.kept
  · rw [isHead, expect, if_neg (by simp [notReturn.symm])] at ended
    cases ended

theorem run_of_kept {text : List Char} (kept : ∀ char ∈ text, IsKept char)
    (noNul : '\x00' ∉ text) (writable : session.readOnly name = false) :
    ∃ session', session.run (List.replicate count ' ' ++ '$' :: (name ++ '=' :: '"' ::
        (text.flatMap psRune ++ '"' :: '\r' :: '\n' :: environmentLine count name))) =
          some session' ∧
      session'.assigned name = some text ∧ (session'.environment name).getD [] = text := by
  have expected := expect_append ['\r', '\n'] (environmentLine count name)
  have whole : text.takeWhile (· != '\x00') = text := by
    have chars : ∀ char ∈ text, (char != '\x00') = true := by
      intro char member
      simp only [bne_iff_ne]
      rintro rfl
      exact noNul member
    rw [← append_nil text, takeWhile_append_of_pos chars, takeWhile_nil]
  obtain ⟨fuel, run⟩ := @run_psLines session name isName count
    (text.flatMap psRune ++ '"' :: '\r' :: '\n' :: environmentLine count name)
  let assigned : Session :=
    { session with assigned := update session.assigned name (some text) }
  have assigns : session.assign name text = some assigned := by
    rw [Session.assign, writable]
    rfl
  have value : assigned.assigned name = some text := update_self ..
  refine ⟨assigned.assignEnvironment name text, ?_, value, ?_⟩
  · have later := @runLines_environmentLine assigned name isName count fuel
    rw [value] at later
    simp only [cons_append, nil_append] at expected
    rw [run, stringBody_kept (environmentLine_ends count name) kept, Option.bind_some, expected,
      Option.bind_some, assigns, Option.bind_some, later]
    rfl
  · simp only [Session.assignEnvironment, update_self, whole]
    split
    · case isTrue empty => rw [empty]; rfl
    · rfl

end Assignments

theorem psAssigned_iff {writer : ScriptWriter} {entry : JobVariable} {session : Session}
    {name : List Char} (noNul : 0 ∉ entry.value) (indented : 0 ≤ writer.indent)
    (notFile : entry.file = false) (isKey : entry.key = encode name) (isName : IsName name)
    (writable : session.readOnly name = false) :
    PsAssigned writer entry session ↔ PsKept entry.value := by
  have key : runes entry.key = name := by rw [isKey, runes_encode]
  have script : ∀ text, entry.value = encode text →
      runes (psLines writer.padding entry.key entry.value) =
        List.replicate (2 * writer.indent.toNat) ' ' ++ '$' :: (name ++ '=' :: '"' ::
          (text.flatMap psRune ++ '"' :: '\r' :: '\n' ::
            environmentLine (2 * writer.indent.toNat) name)) := by
    intro text same
    rw [isKey, same, ScriptWriter.padding, psLines_encode, runes_encode]
  constructor
  · rintro ⟨after, written, session', value, writes, buffer, runs, isValue, assigned, -⟩
    rw [writeVariable_value indented notFile, Option.some.injEq, Prod.mk.injEq] at writes
    rw [← writes.2] at buffer
    rw [← append_cancel_left buffer, script value isValue.symm] at runs
    rw [key] at assigned
    exact ⟨value, isValue.symm, kept_of_run isName _ runs assigned⟩
  · rintro ⟨text, isValue, kept⟩
    have noNulChar : '\x00' ∉ text := by
      intro member
      rw [isValue] at noNul
      exact noNul (mem_flatMap.mpr ⟨'\x00', member, by decide⟩)
    obtain ⟨session', runs, assigned, environment⟩ :=
      run_of_kept isName (2 * writer.indent.toNat) kept noNulChar writable
    rw [← script text isValue] at runs
    refine ⟨_, _, session', text, writeVariable_value indented notFile, rfl, runs, isValue.symm,
      ?_, ?_⟩
    · rw [key, assigned]
    · rw [key, environment]

/-- What `psQuoteVariable` writes is one string with the value of the text, and `Variable`
assigns the text, exactly if the text is UTF-8 without form feeds, tabs, vertical tabs and
typographic double quotes. -/
theorem variables_read_back_iff (text : List UInt8) (noNul : 0 ∉ text) :
    (PsReadBack text ↔ PsKept text) ∧
      ∀ (writer : ScriptWriter) (entry : JobVariable) (session : Session) (name : List Char),
        0 ≤ writer.indent → entry.file = false → entry.value = text →
        entry.key = encode name → IsName name → session.readOnly name = false →
        (PsAssigned writer entry session ↔ PsKept text) := by
  refine ⟨psReadBack_iff text, ?_⟩
  rintro writer entry session name indented notFile rfl isKey isName writable
  exact psAssigned_iff noNul indented notFile isKey isName writable

def escapedText : List Char :=
  ['\x60', '$', 'i', 't', '\'', 's', '"', '#', '\n', 'ß']

theorem escaped_text_read_back :
    0 ∉ encode escapedText ∧ PsReadBack (encode escapedText) ∧
      PsAssigned ⟨[], [], 1⟩ ⟨ascii "KEY", encode escapedText, true, false, false, false⟩
        ⟨fun _ => false, fun _ => none, fun _ => none⟩ := by
  have noNul : 0 ∉ encode escapedText := by decide
  have kept : PsKept (encode escapedText) := by
    have all : ∀ char ∈ escapedText, isCaretWritten char = false ∧ isTypographic char = false :=
      all_iff_forall_prop.mp (by decide)
    exact ⟨escapedText, rfl, fun char member => ⟨(all char member).1, (all char member).2⟩⟩
  obtain ⟨reads, assigns⟩ := variables_read_back_iff (encode escapedText) noNul
  exact ⟨noNul, reads.mpr kept, (assigns _ _ _ ['K', 'E', 'Y'] (by decide) rfl rfl rfl
    ⟨by decide, all_eq_true.mp (by decide)⟩ rfl).mpr kept⟩

/-- A tab is read as a caret and a letter, and a typographic quote ends the string. -/
theorem tab_variable_changed :
    0 ∉ encode ['\t'] ∧ ¬PsReadBack (encode ['\t']) ∧
      expandableString (runes (psQuoteVariable (encode ['\t']))) = some (['^', 't'], []) ∧
      expandableString (runes (psQuoteVariable (encode ['“', 'x']))) = some ([], ['x', '"']) := by
  have reading : expandableString (runes (psQuoteVariable (encode ['\t']))) =
      some (['^', 't'], []) := by decide
  refine ⟨by decide, ?_, reading, by decide⟩
  rintro ⟨value, reads, same⟩
  rw [reading, Option.some.injEq, Prod.mk.injEq] at reads
  rw [← reads.1] at same
  revert same
  decide

end GitlabRunner.Shells
