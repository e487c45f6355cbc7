import GitlabRunner.BashCommandLines
import GitlabRunner.BashVariables
import GitlabRunner.StrconvQuote
import Mathlib.Data.Bool.AllAny

/-!
# Commands for bash

`Command`, `IfCmd` and `IfCmdWithOutput` of `shells/bash.go` write the name of a command
with `ShellEscape` and its arguments with `strconv.Quote`.
-/

namespace GitlabRunner.Shells

open ByteText Bash Utf8 Strconv List BashWriter

section Writer

variable (isPrint : Char → Bool)

def BashWriter.buildCommand (command : List UInt8) (arguments : List (List UInt8)) :
    List UInt8 :=
  (ascii " ").intercalate (shellEscape command :: arguments.map (quote isPrint))

def BashWriter.indented (writer : BashWriter) : BashWriter :=
  { writer with indent := writer.indent + 1 }

def BashWriter.command (writer : BashWriter) (command : List UInt8)
    (arguments : List (List UInt8)) : BashWriter :=
  writer.line (buildCommand isPrint command arguments)

def BashWriter.ifCmd (writer : BashWriter) (command : List UInt8)
    (arguments : List (List UInt8)) : BashWriter :=
  (writer.line (ascii "if " ++ buildCommand isPrint command arguments ++
    ascii " >/dev/null 2>/dev/null; then")).indented

def BashWriter.ifCmdWithOutput (writer : BashWriter) (command : List UInt8)
    (arguments : List (List UInt8)) : BashWriter :=
  (writer.line (ascii "if " ++ buildCommand isPrint command arguments ++
    ascii "; then")).indented

end Writer

inductive Form where
  | command
  | ifCmd
  | ifCmdWithOutput
  deriving DecidableEq, Repr

def Form.write (isPrint : Char → Bool) (writer : BashWriter) (command : List UInt8)
    (arguments : List (List UInt8)) : Form → BashWriter
  | .command => writer.command isPrint command arguments
  | .ifCmd => writer.ifCmd isPrint command arguments
  | .ifCmdWithOutput => writer.ifCmdWithOutput isPrint command arguments

def Form.written (isPrint : Char → Bool) (writer : BashWriter) (command : List UInt8)
    (arguments : List (List UInt8)) (form : Form) : List UInt8 :=
  (form.write isPrint writer command arguments).buffer.drop writer.buffer.length

def Form.meaning (words : List (List UInt8)) : Form → CommandLine
  | .command => .simple ⟨words, []⟩
  | .ifCmd => .ifThen ⟨words,
      [(ascii "1", ascii "/dev/null"), (ascii "2", ascii "/dev/null")]⟩
  | .ifCmdWithOutput => .ifThen ⟨words, []⟩

/-- An argument in which no expansion is intended. -/
structure Plain (text : List Char) : Prop where
  noDollar : '$' ∉ text
  noBacktick : '\x60' ∉ text
  noNul : '\x00' ∉ text

section Arguments

variable {isPrint : Char → Bool}

/-- What bash reads of a quoted rune: the rune, or the escape as it is written. -/
def readBack (isPrint : Char → Bool) (rune : Char) : List UInt8 :=
  if Literal isPrint rune then String.utf8EncodeChar rune else escape rune.toNat

theorem plainInQuotes_of_le : ∀ char : UInt8, 0x80 ≤ char.toNat → plainInQuotes char = true :=
  forall_byte (by decide +kernel)

theorem plain_utf8EncodeChar {rune : Char} (noQuote : rune ≠ '"') (noBackslash : rune ≠ '\\')
    (noDollar : rune ≠ '$') (noBacktick : rune ≠ '\x60') :
    ∀ char ∈ String.utf8EncodeChar rune, plainInQuotes char = true := by
  intro char member
  by_cases small : rune.toNat < 0x80
  · rw [utf8EncodeChar_ascii small, mem_singleton] at member
    subst member
    have differs : ∀ other : Char, other.toNat < 0x80 → rune ≠ other →
        UInt8.ofNat rune.toNat ≠ UInt8.ofNat other.toNat := by
      intro other otherSmall different same
      have values := congrArg UInt8.toNat same
      simp only [UInt8.toNat_ofNat', Nat.reducePow] at values
      rw [Nat.mod_eq_of_lt (by omega), Nat.mod_eq_of_lt (by omega)] at values
      exact different (Char.toNat_inj.mp values)
    have quote := differs '"' (by decide) noQuote
    have backslash := differs '\\' (by decide) noBackslash
    have dollar := differs '$' (by decide) noDollar
    have backtick := differs '\x60' (by decide) noBacktick
    exact plainInQuotes_iff.mpr ⟨quote, backslash, dollar, backtick⟩
  · exact plainInQuotes_of_le char (le_of_mem_utf8EncodeChar (by omega) member)

theorem plain_hexDigits (count value : Nat) :
    ∀ char ∈ hexDigits count value, plainInQuotes char = true := by
  have digits : ∀ digit < 16, plainInQuotes (byte (Nat.digitChar digit)) = true := by decide
  intro char member
  obtain ⟨place, -, rfl⟩ := mem_map.mp member
  exact digits _ (Nat.mod_lt _ (by decide))

/-- A backslash in front of a byte without a meaning in double quotes stays. -/
theorem readAll_kept {char : UInt8} {rest : List UInt8} (notNewline : char ≠ Bash.newline)
    (isPlain : plainInQuotes char = true) (plain : ∀ other ∈ rest, plainInQuotes other = true) :
    Mode.double.readAll (Bash.backslash :: char :: rest) =
      some (.double, Bash.backslash :: char :: rest) := by
  have first : Mode.double.read Bash.backslash = some (.doubleEscaped, []) := rfl
  have second : Mode.doubleEscaped.read char = some (.double, [Bash.backslash, char]) := by
    simp [Mode.read, notNewline, plainInQuotes_iff.mp isPlain]
  exact Mode.readAll_cons first (Mode.readAll_cons second (readAll_double plain))

theorem readAll_escape (rune : Nat) :
    Mode.double.readAll (escape rune) = some (.double, escape rune) := by
  have letters : ∀ char, letter rune = some char →
      char ≠ Bash.newline ∧ plainInQuotes char = true := by
    intro char named
    unfold letter at named
    split_ifs at named <;> cases named <;> decide
  unfold escape
  split
  · rename_i char named
    obtain ⟨notNewline, isPlain⟩ := letters char named
    exact readAll_kept notNewline isPlain (by simp)
  · split_ifs
    · exact readAll_kept (by decide) (by decide) (plain_hexDigits 2 rune)
    · exact readAll_kept (by decide) (by decide) (plain_hexDigits 4 rune)
    · exact readAll_kept (by decide) (by decide) (plain_hexDigits 8 rune)

theorem readAll_escapedRune {rune : Char} (noDollar : rune ≠ '$') (noBacktick : rune ≠ '\x60') :
    Mode.double.readAll (escapedRune isPrint rune) = some (.double, readBack isPrint rune) := by
  by_cases literal : Literal isPrint rune
  · rw [readBack, if_pos literal]
    by_cases isQuote : rune = '"'
    · subst isQuote
      rw [escapedRune, if_pos (.inl rfl)]
      decide
    · by_cases isBackslash : rune = '\\'
      · subst isBackslash
        rw [escapedRune, if_pos (.inr rfl)]
        decide
      · have printed := (literal.resolve_left isQuote).resolve_left isBackslash
        rw [escapedRune, if_neg (not_or.mpr ⟨isQuote, isBackslash⟩), if_pos printed]
        exact readAll_double (plain_utf8EncodeChar isQuote isBackslash noDollar noBacktick)
  · rw [readBack, if_neg literal, escapedRune_of_not_literal literal]
    exact readAll_escape rune.toNat

theorem readAll_escapedRunes {text : List Char} (plain : Plain text) :
    Mode.double.readAll (text.flatMap (escapedRune isPrint)) =
      some (.double, text.flatMap (readBack isPrint)) := by
  induction text with
  | nil => rfl
  | cons rune text ih =>
    have first := @readAll_escapedRune isPrint rune
      (fun same => plain.noDollar (same ▸ mem_cons_self))
      (fun same => plain.noBacktick (same ▸ mem_cons_self))
    have rest : Plain text :=
      ⟨fun member => plain.noDollar (mem_cons_of_mem _ member),
        fun member => plain.noBacktick (mem_cons_of_mem _ member),
        fun member => plain.noNul (mem_cons_of_mem _ member)⟩
    exact Mode.readAll_append first (ih rest)

/-- What is read back is never shorter, and as long only without escapes of Go. -/
theorem length_readBack (rune : Char) :
    (String.utf8EncodeChar rune).length ≤ (readBack isPrint rune).length ∧
      ((readBack isPrint rune).length = (String.utf8EncodeChar rune).length →
        Literal isPrint rune) := by
  by_cases literal : Literal isPrint rune
  · rw [readBack, if_pos literal]
    exact ⟨le_rfl, fun _ => literal⟩
  · have longer := length_lt_escape rune
    rw [readBack, if_neg literal]
    exact ⟨longer.le, fun same => (longer.ne' same).elim⟩

theorem length_readBacks (text : List Char) :
    (encode text).length ≤ (text.flatMap (readBack isPrint)).length ∧
      ((text.flatMap (readBack isPrint)).length = (encode text).length →
        ∀ rune ∈ text, Literal isPrint rune) := by
  induction text with
  | nil => exact ⟨le_rfl, fun _ => by simp⟩
  | cons rune text ih =>
    obtain ⟨first, same⟩ := @length_readBack isPrint rune
    rw [encode_cons, flatMap_cons, length_append, length_append]
    refine ⟨Nat.add_le_add first ih.1, ?_⟩
    intro equal other member
    rcases mem_cons.mp member with rfl | later
    · exact same (by omega)
    · exact ih.2 (by omega) other later

theorem readBack_eq_iff (text : List Char) :
    text.flatMap (readBack isPrint) = encode text ↔ ∀ rune ∈ text, Literal isPrint rune := by
  constructor
  · intro same
    exact (length_readBacks text).2 (congrArg List.length same)
  · intro literal
    apply flatMap_congr
    intro rune member
    rw [readBack, if_pos (literal rune member)]

end Arguments

section Names

variable {command : List UInt8}

theorem quotes_of_isReserved {raw : List UInt8} (reserved : isReserved raw = true) :
    ∃ first rest, raw = first :: rest ∧ quotes first = true ∧ first ≠ Bash.singleQuote ∧
      first ≠ Bash.dollar := by
  have check : ["if", "then", "else", "elif", "fi", "do", "done", "case", "esac", "while",
      "until", "for", "select", "function", "time", "coproc", "in", "\x7b", "\x7d", "!", "[[",
      "]]"].all (fun word => (ascii word).head?.any fun first =>
        quotes first && first != Bash.singleQuote && first != Bash.dollar) = true := by decide
  obtain ⟨word, member, same⟩ := any_eq_true.mp reserved
  have starts := all_eq_true.mp check word member
  rw [of_decide_eq_true same] at starts
  cases raw with
  | nil => cases starts
  | cons first rest =>
    simp only [List.head?_cons, Option.any_some, Bool.and_eq_true, bne_iff_ne] at starts
    exact ⟨first, rest, rfl, starts.1.1, starts.1.2, starts.2⟩

theorem not_isReserved_shellEscape (command : List UInt8) :
    isReserved (shellEscape command) = false := by
  refine Bool.eq_false_iff.mpr fun reserved => ?_
  obtain ⟨first, others, shape, quoted, notSingle, notDollar⟩ := quotes_of_isReserved reserved
  rcases shellEscape_cases command with ⟨-, same⟩ | same | ⟨-, unquoted, same⟩
  · cases shape.symm.trans same
    exact notSingle rfl
  · cases shape.symm.trans same
    exact notDollar rfl
  · have member : first ∈ command := by
      rw [← same, shape]
      exact mem_cons_self
    rw [unquoted first member] at quoted
    cases quoted

theorem not_isAssignment_shellEscape (command : List UInt8) :
    isAssignment (shellEscape command) = false := by
  rcases shellEscape_cases command with ⟨-, same⟩ | same | ⟨-, unquoted, same⟩
  · rw [same]
    rfl
  · rw [same]
    rfl
  · have quotedEquals : quotes (byte '=') = true := by decide
    have noEquals : ∀ front, ¬front ++ [byte '='] <+: command.dropWhile isNameByte := by
      intro front begins
      have member : byte '=' ∈ command := by
        apply (dropWhile_sublist _).subset
        exact begins.subset (mem_append_right _ (mem_singleton.mpr rfl))
      rw [unquoted _ member] at quotedEquals
      cases quotedEquals
    have plain : [byte '='].isPrefixOf (command.dropWhile isNameByte) = false :=
      Bool.eq_false_iff.mpr fun begins => noEquals [] (List.isPrefixOf_iff_prefix.mp begins)
    have added : [byte '+', byte '='].isPrefixOf (command.dropWhile isNameByte) = false :=
      Bool.eq_false_iff.mpr fun begins =>
        noEquals [byte '+'] (List.isPrefixOf_iff_prefix.mp begins)
    rw [same, isAssignment, plain, added]
    simp

open LineReader

theorem run_codes_nul {reader : LineReader} (inQuotes : reader.mode = .ansi)
    {text : List UInt8} (hasNul : 0 ∈ text) (rest : List UInt8) :
    reader.run (text.flatMap code ++ rest) = none := by
  induction text generalizing reader with
  | nil => cases hasNul
  | cons char text ih =>
    rw [flatMap_cons, append_assoc]
    by_cases nul : char = 0
    · subst nul
      have zero : code 0 = Bash.backslash :: byte 'x' :: byte '0' :: [byte '0'] := by decide
      obtain ⟨mode, raw, read, lexemes⟩ := reader
      cases inQuotes
      rw [zero]
      rfl
    · have read := readAll_code char nul
      rw [← inQuotes] at read
      rw [run_append (run_of_readAll read)]
      exact ih inQuotes ((mem_cons.mp hasNul).resolve_left (Ne.symm nul))

theorem run_shellEscape_nul (hasNul : 0 ∈ command) (before : List Lexeme) (rest : List UInt8) :
    (between before).run (shellEscape command ++ rest) = none := by
  have nonempty : command ≠ [] := ne_nil_of_mem hasNul
  have quoted : command.any quotes = true :=
    any_eq_true.mpr ⟨0, hasNul, by decide⟩
  have opened : (between before).run (ascii "$'") =
      some ⟨.ansi, ascii "$'", [], before⟩ := rfl
  rw [shellEscape_eq nonempty, if_pos quoted, append_assoc, append_assoc,
    run_append opened]
  exact run_codes_nul rfl hasNul _

end Names

section Lines

variable {isPrint : Char → Bool} {command : List UInt8} {arguments : List (List Char)}

def argumentParts (isPrint : Char → Bool) (arguments : List (List Char)) :
    List (List UInt8 × List UInt8) :=
  arguments.map fun text => (quote isPrint (encode text), text.flatMap (readBack isPrint))

def wordParts (isPrint : Char → Bool) (command : List UInt8) (arguments : List (List Char)) :
    List (List UInt8 × List UInt8) :=
  (shellEscape command, command) :: argumentParts isPrint arguments

def wordLexemes (isPrint : Char → Bool) (command : List UInt8) (arguments : List (List Char)) :
    List Lexeme :=
  (wordParts isPrint command arguments).map fun part => .word part.1 part.2

theorem intercalate_space (first : List UInt8) (rest : List (List UInt8)) :
    (ascii " ").intercalate (first :: rest) = first ++ rest.flatMap fun part => space :: part := by
  induction rest generalizing first with
  | nil => simp [List.intercalate]
  | cons second rest ih =>
    have next := ih second
    simp only [List.intercalate, intersperse_cons_cons, flatten_cons] at next ⊢
    rw [next, flatMap_cons]
    rfl

theorem run_buildCommand (noNul : 0 ∉ command) (plain : ∀ text ∈ arguments, Plain text)
    (before : List Lexeme) :
    ∃ last, (LineReader.between before).run
        (buildCommand isPrint command (arguments.map encode)) = some last ∧
      last.mode = .word ∧ last.close = before ++ wordLexemes isPrint command arguments := by
  have first := LineReader.run_word (readsAs_shellEscape noNul) before
  have reads : ∀ part ∈ argumentParts isPrint arguments, ReadsAs part.1 part.2 := by
    intro part member
    obtain ⟨text, isArgument, rfl⟩ := mem_map.mp member
    rw [quote_encode]
    exact readsAs_double (readAll_escapedRunes (plain text isArgument))
  obtain ⟨last, reached, isWord, closed⟩ :=
    @LineReader.run_words ⟨.word, shellEscape command, command, before⟩ _ reads rfl
  refine ⟨last, ?_, isWord, ?_⟩
  · rw [argumentParts, flatMap_map] at reached
    rw [buildCommand, intercalate_space, map_map, flatMap_map, LineReader.run_append first]
    exact reached
  · rw [closed]
    simp [LineReader.close, wordLexemes, wordParts]

theorem run_indent (indent : Nat) :
    (LineReader.between []).run (List.replicate indent (ascii "  ")).flatten =
      some (.between []) := by
  induction indent with
  | zero => rfl
  | succ indent ih =>
    have one : (LineReader.between []).run (ascii "  ") = some (.between []) := by decide
    rw [replicate_succ, flatten_cons, LineReader.run_append one]
    exact ih

theorem simpleCommand_words (rest : List Lexeme) :
    simpleCommand (wordLexemes isPrint command arguments ++ rest) =
      commandParts (wordLexemes isPrint command arguments ++ rest) := by
  have notReserved := not_isReserved_shellEscape command
  have notAssignment := not_isAssignment_shellEscape command
  rw [wordLexemes, wordParts, map_cons, cons_append, simpleCommand, notReserved, notAssignment]
  rfl

theorem not_mem_wordLexemes {other : Lexeme} (notWord : ∀ raw text, other ≠ .word raw text) :
    other ∉ wordLexemes isPrint command arguments := by
  intro member
  obtain ⟨part, -, rfl⟩ := mem_map.mp member
  exact notWord _ _ rfl

theorem head_wordLexemes : (wordLexemes isPrint command arguments).head? ≠ some (keyword "if") := by
  intro same
  have raw : shellEscape command = ascii "if" := by
    injection same with same
    injection same
  have notReserved := not_isReserved_shellEscape command
  rw [raw] at notReserved
  exact absurd notReserved (by decide)

def wordsRead (isPrint : Char → Bool) (command : List UInt8) (arguments : List (List Char)) :
    List (List UInt8) :=
  command :: arguments.map fun text => text.flatMap (readBack isPrint)

theorem simpleCommand_redirected {rest : List Lexeme}
    {redirections : List (List UInt8 × List UInt8)}
    (redirected : commandParts rest = some ⟨[], redirections⟩) :
    simpleCommand (wordLexemes isPrint command arguments ++ rest) =
      some ⟨wordsRead isPrint command arguments, redirections⟩ := by
  rw [simpleCommand_words, wordLexemes, commandParts_words, redirected, Option.map_some]
  simp [wordParts, argumentParts, wordsRead]

def Form.frame : Form → List UInt8 × List UInt8
  | .command => ([], [])
  | .ifCmd => (ascii "if ", ascii " >/dev/null 2>/dev/null; then")
  | .ifCmdWithOutput => (ascii "if ", ascii "; then")

variable (form : Form)

theorem written_eq (writer : BashWriter) (bytes : List (List UInt8)) :
    form.written isPrint writer command bytes =
      lineText writer.indent (form.frame.1 ++ buildCommand isPrint command bytes ++
        form.frame.2) := by
  have dropped : ∀ text, (writer.line text).buffer.drop writer.buffer.length =
      lineText writer.indent text := by
    intro text
    rw [line_eq]
    exact drop_left
  cases form with
  | command =>
    have same : Form.command.frame.1 ++ buildCommand isPrint command bytes ++
        Form.command.frame.2 = buildCommand isPrint command bytes :=
      append_nil _
    rw [same]
    exact dropped _
  | ifCmd | ifCmdWithOutput => exact dropped _

def Form.lexemes : Form → List Lexeme × List Lexeme
  | .command => ([], [.newline])
  | .ifCmd =>
    ([keyword "if"], [.output (ascii "1"), .word (ascii "/dev/null") (ascii "/dev/null"),
      .output (ascii "2"), .word (ascii "/dev/null") (ascii "/dev/null"), .semicolon,
      keyword "then", .newline])
  | .ifCmdWithOutput => ([keyword "if"], [.semicolon, keyword "then", .newline])

theorem run_front : (LineReader.between []).run form.frame.1 = some (.between form.lexemes.1) := by
  cases form <;> decide

theorem run_back {last : LineReader} (isWord : last.mode = .word) :
    last.run (form.frame.2 ++ ascii "\n") = some (.between (last.close ++ form.lexemes.2)) := by
  cases form with
  | command =>
    have ends : last.operator Bash.newline = some (last.close ++ [.newline]) := rfl
    exact LineReader.run_operator (.inr isWord) ends []
  | ifCmd =>
    have ends : last.operator space = some last.close := rfl
    have rest : (LineReader.between []).run (ascii ">/dev/null 2>/dev/null; then\n") =
        some (.between Form.ifCmd.lexemes.2) := by decide +kernel
    exact (LineReader.run_operator (.inr isWord) ends _).trans
      (LineReader.run_between rest last.close)
  | ifCmdWithOutput =>
    have ends : last.operator (byte ';') = some (last.close ++ [.semicolon]) := rfl
    have rest : (LineReader.between []).run (ascii " then\n") =
        some (.between [keyword "then", .newline]) := by decide +kernel
    have read := (LineReader.run_operator (.inr isWord) ends _).trans
      (LineReader.run_between rest (last.close ++ [.semicolon]))
    rw [append_assoc] at read
    exact read

theorem lexemes_written (writer : BashWriter) (noNul : 0 ∉ command)
    (plain : ∀ text ∈ arguments, Plain text) :
    lexemes (form.written isPrint writer command (arguments.map encode)) =
      some (form.lexemes.1 ++ wordLexemes isPrint command arguments ++ form.lexemes.2) := by
  obtain ⟨last, reached, isWord, closed⟩ :=
    @run_buildCommand isPrint command arguments noNul plain form.lexemes.1
  rw [lexemes, written_eq, lineText, append_assoc, LineReader.run_append (run_indent writer.indent),
    append_assoc, append_assoc, LineReader.run_append (run_front form),
    LineReader.run_append reached, run_back form isWord, closed]
  rfl

/-- The line is read as the command with the words that bash reads. -/
theorem parseLine_written (writer : BashWriter) (noNul : 0 ∉ command)
    (plain : ∀ text ∈ arguments, Plain text) :
    parseLine (form.written isPrint writer command (arguments.map encode)) =
      some (form.meaning (wordsRead isPrint command arguments)) := by
  rw [parseLine, lexemes_written form writer noNul plain, Option.bind_some]
  cases form with
  | command =>
    have parsed := @simpleCommand_redirected isPrint command arguments [] [] rfl
    rw [append_nil] at parsed
    exact parseLexemes_simple head_wordLexemes (not_mem_wordLexemes nofun) parsed
  | ifCmd =>
    have redirected : commandParts [.output (ascii "1"),
        .word (ascii "/dev/null") (ascii "/dev/null"), .output (ascii "2"),
        .word (ascii "/dev/null") (ascii "/dev/null")] =
          some ⟨[], [(ascii "1", ascii "/dev/null"), (ascii "2", ascii "/dev/null")]⟩ := rfl
    have parsed := @simpleCommand_redirected isPrint command arguments _ _ redirected
    have found := parseLexemes_ifThen (by
      rw [mem_append, not_or]
      exact ⟨not_mem_wordLexemes nofun, by decide⟩) parsed
    rw [cons_append, append_assoc] at found
    exact found
  | ifCmdWithOutput =>
    have parsed := @simpleCommand_redirected isPrint command arguments [] [] rfl
    rw [append_nil] at parsed
    exact parseLexemes_ifThen (not_mem_wordLexemes nofun) parsed

theorem parseLine_nul (writer : BashWriter) (hasNul : 0 ∈ command) (bytes : List (List UInt8)) :
    parseLine (form.written isPrint writer command bytes) = none := by
  have unread : (LineReader.between []).run (form.written isPrint writer command bytes) = none := by
    rw [written_eq, lineText, append_assoc,
      LineReader.run_append (run_indent writer.indent), append_assoc, append_assoc,
      LineReader.run_append (run_front form), buildCommand, intercalate_space,
      append_assoc]
    exact run_shellEscape_nul hasNul _ _
  rw [parseLine, lexemes, unread]
  rfl

theorem meaning_inj {first second : List (List UInt8)}
    (same : form.meaning first = form.meaning second) : first = second := by
  cases form with
  | command | ifCmd | ifCmdWithOutput =>
    injection same with same
    injection same

end Lines

/-- A command and its arguments arrive exactly if the name has no byte zero and every rune
of the arguments is printable, or a double quote or a backslash. -/
theorem arguments_arrive_iff (isPrint : Char → Bool) (form : Form) (writer : BashWriter)
    (command : List UInt8) (arguments : List (List Char)) (plain : ∀ text ∈ arguments, Plain text) :
    parseLine (form.written isPrint writer command (arguments.map encode)) =
        some (form.meaning (command :: arguments.map encode)) ↔
      0 ∉ command ∧ ∀ text ∈ arguments, ∀ rune ∈ text,
        rune = '"' ∨ rune = '\\' ∨ isPrint rune = true := by
  by_cases hasNul : 0 ∈ command
  · rw [parseLine_nul form writer hasNul]
    exact ⟨nofun, fun condition => (condition.1 hasNul).elim⟩
  · rw [parseLine_written form writer hasNul plain, Option.some.injEq]
    constructor
    · intro same
      have words := meaning_inj form same
      refine ⟨hasNul, fun text member => ?_⟩
      exact (readBack_eq_iff text).mp
        (map_inj_left.mp (List.cons.inj words).2 text member)
    · rintro ⟨-, literal⟩
      have words : arguments.map (fun text => text.flatMap (readBack isPrint)) =
          arguments.map encode :=
        map_inj_left.mpr fun text member =>
          (readBack_eq_iff text).mpr (literal text member)
      rw [wordsRead, words]

def isPrintASCII (rune : Char) : Bool :=
  32 ≤ rune.toNat && rune.toNat ≤ 126

def artifactArguments : List (List Char) :=
  ["--name".toList, "a \"b\" \\ c".toList]

theorem artifact_arguments_arrive :
    parseLine (Form.ifCmd.written isPrintASCII ⟨[], ascii "/tmp", 1⟩ (ascii "gitlab-runner")
        (artifactArguments.map encode)) =
      some (Form.ifCmd.meaning (ascii "gitlab-runner" :: artifactArguments.map encode)) := by
  have plain : ∀ text ∈ artifactArguments, Plain text := by
    intro text member
    rcases mem_pair.mp member with rfl | rfl
    · exact ⟨by decide, by decide, by decide⟩
    · exact ⟨by decide, by decide, by decide⟩
  have literal : artifactArguments.all (fun text =>
      text.all fun rune => decide (Literal isPrintASCII rune)) = true := by decide
  refine (arguments_arrive_iff isPrintASCII .ifCmd ⟨[], ascii "/tmp", 1⟩ (ascii "gitlab-runner")
    artifactArguments plain).mpr ⟨by decide, ?_⟩
  intro text member
  exact all_iff_forall_prop.mp (all_eq_true.mp literal text member)

/-- A tab arrives as a backslash and a letter. -/
theorem tab_argument_changed :
    ¬∀ (isPrint : Char → Bool) (form : Form) (writer : BashWriter) (command : List UInt8)
      (arguments : List (List Char)),
      (∀ rune, rune.toNat < 128 →
        (isPrint rune = true ↔ 32 ≤ rune.toNat ∧ rune.toNat ≤ 126)) →
      0 ∉ command → (∀ text ∈ arguments, Plain text) →
      parseLine (form.written isPrint writer command (arguments.map encode)) =
        some (form.meaning (command :: arguments.map encode)) := by
  intro arrive
  have plain : ∀ text ∈ [['\t']], Plain text := by
    intro text member
    cases mem_singleton.mp member
    exact ⟨by decide, by decide, by decide⟩
  have arrived := arrive isPrintASCII .command ⟨[], ascii "/tmp", 0⟩ (ascii "git") [['\t']]
    (by simp [isPrintASCII]) (by decide) plain
  exact absurd arrived (by decide +kernel)

end GitlabRunner.Shells
