import GitlabRunner.ByteText

/-!
# How bash reads a script

The words of a script that is not read interactively, with the quoting of the shell:
backslashes, single and double quotes, and `$'...'` with its escapes.  A reader goes
through the text byte by byte; its mode says which quotes it is in.  Expansions,
comments, here-documents and the other operators are not represented: a text that has
them has no reading here.  The file names nothing of the runner.
-/

namespace GitlabRunner.Bash

open ByteText List Option

def space : UInt8 := byte ' '
def tab : UInt8 := 9
def newline : UInt8 := 10
def backslash : UInt8 := 92
def singleQuote : UInt8 := 39
def doubleQuote : UInt8 := 34
def dollar : UInt8 := byte '$'
def backtick : UInt8 := 96
def dash : UInt8 := byte '-'

/-- The bytes that stand for themselves outside quotes, wherever they stand in a word. -/
def ordinary (char : UInt8) : Bool :=
  (byte 'a' ≤ char && char ≤ byte 'z') || (byte 'A' ≤ char && char ≤ byte 'Z') ||
    (byte '0' ≤ char && char ≤ byte '9') || (ascii "%+,-./:=@_").contains char

def hexDigit (char : UInt8) : Option UInt8 :=
  if byte '0' ≤ char ∧ char ≤ byte '9' then some (char - byte '0')
  else if byte 'a' ≤ char ∧ char ≤ byte 'f' then some (char - byte 'a' + 10)
  else if byte 'A' ≤ char ∧ char ≤ byte 'F' then some (char - byte 'A' + 10)
  else none

/-- Where the reader is: between words, in a word outside quotes, behind a backslash or
a dollar sign, or in quotes.  `ansi` is `$'...'`, and behind its backslash there may be
a number of one or two hexadecimal digits. -/
inductive Mode where
  | blank
  | word
  | escaped
  | dollar
  | single
  | double
  | doubleEscaped
  | ansi
  | ansiEscaped
  | ansiHex
  | ansiDigit (digit : UInt8)
  deriving DecidableEq, Repr

def readPlain (char : UInt8) : Option (Mode × List UInt8) :=
  if char = singleQuote then some (.single, [])
  else if char = doubleQuote then some (.double, [])
  else if char = dollar then some (.dollar, [])
  else if char = backslash then some (.escaped, [])
  else if ordinary char then some (.word, [char])
  else none

def readAnsi (char : UInt8) : Mode × List UInt8 :=
  if char = singleQuote then (.word, [])
  else if char = backslash then (.ansiEscaped, [])
  else (.ansi, [char])

def Mode.read : Mode → UInt8 → Option (Mode × List UInt8)
  | .blank, char => readPlain char
  | .word, char => readPlain char
  | .escaped, char => if char = newline then none else some (.word, [char])
  | .dollar, char => if char = singleQuote then some (.ansi, []) else none
  | .single, char =>
    if char = singleQuote then some (.word, []) else some (.single, [char])
  | .double, char =>
    if char = doubleQuote then some (.word, [])
    else if char = backslash then some (.doubleEscaped, [])
    else if char = Bash.dollar ∨ char = backtick then none
    else some (.double, [char])
  | .doubleEscaped, char =>
    if char = newline then some (.double, [])
    else if [Bash.dollar, backtick, doubleQuote, backslash].contains char then
      some (.double, [char])
    else some (.double, [backslash, char])
  | .ansi, char => some (readAnsi char)
  | .ansiEscaped, char =>
    if char = byte 't' then some (.ansi, [tab])
    else if char = byte 'n' then some (.ansi, [newline])
    else if char = byte 'r' then some (.ansi, [13])
    else if char = singleQuote ∨ char = backslash then some (.ansi, [char])
    else if char = byte 'x' then some (.ansiHex, [])
    else none
  | .ansiHex, char => (hexDigit char).map fun digit => (.ansiDigit digit, [])
  | .ansiDigit high, char =>
    match hexDigit char with
    | some low => if high * 16 + low = 0 then none else some (.ansi, [high * 16 + low])
    | none =>
      if high = 0 then none
      else some ((readAnsi char).1, high :: (readAnsi char).2)

def Mode.readAll : Mode → List UInt8 → Option (Mode × List UInt8)
  | mode, [] => some (mode, [])
  | mode, char :: text =>
    (mode.read char).bind fun (next, added) =>
      (next.readAll text).map fun (last, more) => (last, added ++ more)
variable {text : List UInt8} {char : UInt8} {added : List UInt8}

theorem Mode.readAll_cons {mode next last : Mode} {more : List UInt8}
    (first : mode.read char = some (next, added)) (rest : next.readAll text = some (last, more)) :
    mode.readAll (char :: text) = some (last, added ++ more) := by
  simp only [Mode.readAll, first, bind_some, rest, map_some]
variable {front word : List UInt8}

theorem Mode.readAll_append {mode between last : Mode} {back more : List UInt8}
    (first : mode.readAll front = some (between, word))
    (second : between.readAll back = some (last, more)) :
    mode.readAll (front ++ back) = some (last, word ++ more) := by
  induction front generalizing mode word with
  | nil =>
    cases first
    exact second
  | cons char front ih =>
    obtain ⟨⟨next, added⟩, read, rest⟩ := bind_eq_some_iff.mp first
    obtain ⟨⟨_, tail⟩, readRest, same⟩ := map_eq_some_iff.mp rest
    cases same
    rw [append_assoc]
    exact Mode.readAll_cons read (ih readRest)

theorem Mode.readAll_blank (nonempty : text ≠ []) :
    Mode.blank.readAll text = Mode.word.readAll text := by
  cases text with
  | nil => exact absurd rfl nonempty
  | cons char text => rfl

/-- A text is one word: from the beginning of a word or within it. -/
def ReadsAs (text word : List UInt8) : Prop :=
  text ≠ [] ∧ Mode.word.readAll text = some (.word, word)

theorem ReadsAs.append {back more : List UInt8} (first : ReadsAs front word)
    (second : ReadsAs back more) : ReadsAs (front ++ back) (word ++ more) :=
  ⟨append_ne_nil_of_left_ne_nil first.1 back, Mode.readAll_append first.2 second.2⟩

theorem readPlain_ordinary : ∀ char, ordinary char = true → readPlain char = some (.word, [char]) :=
  forall_byte (by decide +kernel)

/-- Bytes that are read as themselves. -/
theorem Mode.readAll_plain {mode : Mode}
    (plain : ∀ char ∈ text, mode.read char = some (mode, [char])) :
    mode.readAll text = some (mode, text) := by
  induction text with
  | nil => rfl
  | cons char text ih =>
    rw [forall_mem_cons] at plain
    exact Mode.readAll_cons plain.1 (ih plain.2)

/-- The bytes that have no meaning of their own in double quotes. -/
def plainInQuotes (char : UInt8) : Bool :=
  !([doubleQuote, backslash, dollar, backtick].contains char)

theorem plainInQuotes_iff : plainInQuotes char = true ↔
    char ≠ doubleQuote ∧ char ≠ backslash ∧ char ≠ dollar ∧ char ≠ backtick := by
  simp [plainInQuotes]

theorem readAll_double (plain : ∀ char ∈ text, plainInQuotes char = true) :
    Mode.double.readAll text = some (.double, text) := by
  refine Mode.readAll_plain fun char member => ?_
  simp [Mode.read, plainInQuotes_iff.mp (plain char member)]

/-- A text in double quotes is the word that it is read as between them. -/
theorem readsAs_double (inside : Mode.double.readAll text = some (.double, word)) :
    ReadsAs (doubleQuote :: text ++ [doubleQuote]) word := by
  have closed : Mode.double.readAll (text ++ [doubleQuote]) = some (.word, word ++ []) :=
    Mode.readAll_append inside rfl
  rw [append_nil] at closed
  refine ⟨by simp, ?_⟩
  have opened : Mode.word.read doubleQuote = some (.double, []) := rfl
  exact Mode.readAll_cons opened closed

inductive Token where
  | word (text : List UInt8)
  | newline
  | pipe
  | output
  deriving DecidableEq, Repr

/-- The reader with the word that it is in and the tokens before. -/
structure Reader where
  mode : Mode
  word : List UInt8
  tokens : List Token
  deriving DecidableEq, Repr

def Reader.close (reader : Reader) : List Token :=
  if reader.mode = .word then reader.tokens ++ [.word reader.word] else reader.tokens

def Reader.between (tokens : List Token) : Reader :=
  ⟨.blank, [], tokens⟩

/-- The tokens that end a word.  Behind digits, `>` would be part of a redirection with a
number, so it has to stand after a blank. -/
def separator (mode : Mode) (char : UInt8) : Option (List Token) :=
  if char = space ∨ char = tab then some []
  else if char = newline then some [.newline]
  else if char = byte '|' then some [.pipe]
  else if char = byte '>' ∧ mode = .blank then some [.output]
  else none

def Reader.ends (reader : Reader) (char : UInt8) : Option (List Token) :=
  if reader.mode = .blank ∨ reader.mode = .word then separator reader.mode char else none

def Reader.step (reader : Reader) (char : UInt8) : Option Reader :=
  match reader.ends char with
  | some ended => some (.between (reader.close ++ ended))
  | none =>
    (reader.mode.read char).map fun (next, added) =>
      ⟨next, reader.word ++ added, reader.tokens⟩

def Reader.run : Reader → List UInt8 → Option Reader
  | reader, [] => some reader
  | reader, char :: text => (reader.step char).bind fun next => next.run text

def tokens (script : List UInt8) : Option (List Token) :=
  ((Reader.between []).run script).bind fun reader =>
    if reader.mode = .blank ∨ reader.mode = .word then some reader.close else none

open Reader

theorem Reader.run_append {reader between : Reader}
    (first : reader.run front = some between) (back : List UInt8) :
    reader.run (front ++ back) = between.run back := by
  induction front generalizing reader with
  | nil =>
    cases first
    rfl
  | cons char front ih =>
    obtain ⟨next, step, rest⟩ := bind_eq_some_iff.mp first
    rw [cons_append, run, step, bind_some]
    exact ih rest

theorem Mode.ne_operator {mode : Mode} {result : Mode × List UInt8}
    (outside : mode = .blank ∨ mode = .word) (read : mode.read char = some result) :
    char ≠ space ∧ char ≠ tab ∧ char ≠ newline ∧ char ≠ byte '>' ∧ char ≠ byte '|' ∧
      char ≠ byte ';' := by
  have check : ∀ char, (readPlain char).isSome = true → char ≠ space ∧ char ≠ tab ∧
      char ≠ newline ∧ char ≠ byte '>' ∧ char ≠ byte '|' ∧ char ≠ byte ';' :=
    forall_byte (by decide +kernel)
  apply check
  rcases outside with rfl | rfl
  · exact isSome_of_eq_some read
  · exact isSome_of_eq_some read

theorem Reader.step_of_read {reader : Reader} {next : Mode}
    (read : reader.mode.read char = some (next, added)) :
    reader.step char = some ⟨next, reader.word ++ added, reader.tokens⟩ := by
  have inWord : reader.ends char = none := by
    unfold ends
    split
    · rename_i outside
      simp [separator, Mode.ne_operator outside read]
    · rfl
  simp only [step, inWord, read, map_some]

/-- What a text adds to a word is what the reader adds to its word. -/
theorem Reader.run_of_readAll {reader : Reader} {last : Mode}
    (read : reader.mode.readAll text = some (last, added)) :
    reader.run text = some ⟨last, reader.word ++ added, reader.tokens⟩ := by
  induction text generalizing reader added with
  | nil =>
    cases read
    simp [run]
  | cons char text ih =>
    obtain ⟨⟨next, first⟩, readFirst, rest⟩ := bind_eq_some_iff.mp read
    obtain ⟨⟨_, more⟩, readRest, same⟩ := map_eq_some_iff.mp rest
    cases same
    rw [run, step_of_read readFirst, bind_some, ← append_assoc]
    exact ih readRest

theorem ReadsAs.run (reads : ReadsAs text word) (before : List Token) :
    (between before).run text = some ⟨.word, word, before⟩ := by
  have read : (between before).mode.readAll text = some (.word, word) :=
    (Mode.readAll_blank reads.1).trans reads.2
  rw [run_of_readAll read]
  rfl

theorem ReadsAs.run_separator (reads : ReadsAs text word) {ended : List Token}
    (ends : separator .word char = some ended) (before : List Token) (rest : List UInt8) :
    (Reader.between before).run (text ++ char :: rest) =
      (Reader.between (before ++ .word word :: ended)).run rest := by
  rw [Reader.run_append (reads.run before)]
  simp [Reader.run, Reader.step, Reader.ends, Reader.close, ends]

/-- A command with the file that its output goes to, if it is redirected. -/
structure Simple where
  words : List (List UInt8)
  output : Option (List UInt8)
  deriving DecidableEq, Repr

/-- The words of a command and its redirection; a second one is not represented. -/
def simpleParts : List Token → Option Simple
  | [] => some ⟨[], none⟩
  | .word text :: rest =>
    (simpleParts rest).map fun command => { command with words := text :: command.words }
  | .output :: .word text :: rest =>
    (simpleParts rest).bind fun command =>
      if command.output.isSome then none else some { command with output := some text }
  | _ => none

def simple (tokens : List Token) : Option Simple :=
  (simpleParts tokens).bind fun command => if command.words = [] then none else some command

/-- The commands of a line, each of which writes to the next. -/
def pipeline (line : List Token) : Option (List Simple) :=
  if line = [] then some [] else (line.splitOn .pipe).mapM simple

def lines (script : List UInt8) : Option (List (List Simple)) :=
  (tokens script).bind fun tokens => (tokens.splitOn .newline).mapM pipeline

def Reader.after (before : List Token) (reader : Reader) : Reader :=
  { reader with tokens := before ++ reader.tokens }

theorem Reader.close_after (before : List Token) (reader : Reader) :
    (reader.after before).close = before ++ reader.close := by
  unfold close after
  split <;> simp

theorem Reader.run_after (before : List Token) (reader : Reader) (text : List UInt8) :
    (reader.after before).run text = (reader.run text).map (after before) := by
  have step : ∀ reader char, (after before reader).step char =
      (reader.step char).map (after before) := by
    intro reader char
    have same : (reader.after before).ends char = reader.ends char := rfl
    cases ended : reader.ends char with
    | some given =>
      simp only [step, same, ended, close_after, Option.map_some]
      simp [between, after]
    | none =>
      simp only [step, same, ended, Option.map_map]
      rfl
  induction text generalizing reader with
  | nil => rfl
  | cons char text ih =>
    rw [run, step, run]
    cases reader.step char with
    | none => rfl
    | some next => exact ih next

theorem tokens_append {rest : List UInt8} {before : List Token}
    (read : (Reader.between []).run front = some (.between before)) :
    tokens (front ++ rest) = (tokens rest).map fun more => before ++ more := by
  have start : Reader.between before = (Reader.between []).after before := by
    simp [Reader.between, Reader.after]
  unfold tokens
  rw [Reader.run_append read, start, Reader.run_after]
  cases (Reader.between []).run rest with
  | none => rfl
  | some reader =>
    simp only [map_some, bind_some, Reader.close_after]
    have same : (reader.after before).mode = reader.mode := rfl
    rw [same]
    by_cases outside : reader.mode = .blank ∨ reader.mode = .word
    · rw [if_pos outside, if_pos outside, map_some]
    · rw [if_neg outside, if_neg outside, map_none]

theorem lines_append {line : List Token} {commands : List Simple} {rest : List UInt8}
    (read : (between []).run front = some (.between (line ++ [.newline])))
    (whole : Token.newline ∉ line) (parsed : pipeline line = some commands) :
    lines (front ++ rest) = (lines rest).map fun more => commands :: more := by
  unfold lines
  rw [tokens_append read]
  cases tokens rest with
  | none => rfl
  | some more =>
    simp only [map_some, bind_some]
    rw [append_assoc, singleton_append,
      splitOn_append_cons_self_of_not_mem whole, mapM_cons, parsed]
    cases (more.splitOn Token.newline).mapM pipeline with
    | none => rfl
    | some commands => rfl

theorem pipeline_simple {line : List Token} {command : Simple} (noPipe : Token.pipe ∉ line)
    (parsed : simple line = some command) : pipeline line = some [command] := by
  have nonempty : line ≠ [] := by
    rintro rfl
    cases parsed
  have split : line.splitOn .pipe = [line] :=
    splitOn_eq_singleton noPipe
  simp only [pipeline, nonempty, if_false, split, mapM_cons, parsed]
  rfl

end GitlabRunner.Bash
