import GitlabRunner.BashWords

/-!
# Command lines of bash

A line with one simple command and its redirections, or one that begins an `if` with such a
command.
-/

namespace GitlabRunner.Bash

open ByteText List Option

/-- The parts of a line; a word with the text that it was written as. -/
inductive Lexeme where
  | word (raw text : List UInt8)
  | newline
  | semicolon
  | output (descriptor : List UInt8)
  deriving DecidableEq, Repr

def isDigit (char : UInt8) : Bool :=
  byte '0' ≤ char && char ≤ byte '9'

structure LineReader where
  mode : Mode
  raw : List UInt8
  text : List UInt8
  lexemes : List Lexeme
  deriving DecidableEq, Repr

namespace LineReader

def between (lexemes : List Lexeme) : LineReader :=
  ⟨.blank, [], [], lexemes⟩

def close (reader : LineReader) : List Lexeme :=
  if reader.mode = .word then reader.lexemes ++ [.word reader.raw reader.text]
  else reader.lexemes

def operator (reader : LineReader) (char : UInt8) : Option (List Lexeme) :=
  if char = space ∨ char = tab then some reader.close
  else if char = Bash.newline then some (reader.close ++ [.newline])
  else if char = byte ';' then some (reader.close ++ [.semicolon])
  else if char = byte '>' then
    if reader.mode = .word ∧ reader.raw.all isDigit then
      some (reader.lexemes ++ [.output reader.raw])
    else some (reader.close ++ [.output (ascii "1")])
  else none

def step (reader : LineReader) (char : UInt8) : Option LineReader :=
  match if reader.mode = .blank ∨ reader.mode = .word then reader.operator char else none with
  | some lexemes => some (between lexemes)
  | none =>
    (reader.mode.read char).map fun (next, added) =>
      ⟨next, reader.raw ++ [char], reader.text ++ added, reader.lexemes⟩

def run : LineReader → List UInt8 → Option LineReader
  | reader, [] => some reader
  | reader, char :: text => (reader.step char).bind fun next => next.run text

end LineReader

def lexemes (line : List UInt8) : Option (List Lexeme) :=
  ((LineReader.between []).run line).bind fun reader =>
    if reader.mode = .blank ∨ reader.mode = .word then some reader.close else none

/-- A command with its redirections: the descriptors and the files. -/
structure Command where
  words : List (List UInt8)
  redirections : List (List UInt8 × List UInt8)
  deriving DecidableEq, Repr

def commandParts : List Lexeme → Option Command
  | [] => some ⟨[], []⟩
  | .word _ text :: rest =>
    (commandParts rest).map fun command => { command with words := text :: command.words }
  | .output descriptor :: .word _ text :: rest =>
    (commandParts rest).map fun command =>
      { command with redirections := (descriptor, text) :: command.redirections }
  | _ => none

def isReserved (raw : List UInt8) : Bool :=
  ["if", "then", "else", "elif", "fi", "do", "done", "case", "esac", "while", "until", "for",
    "select", "function", "time", "coproc", "in", "\x7b", "\x7d", "!", "[[", "]]"].any
      fun word => ascii word = raw

def isNameByte (char : UInt8) : Bool :=
  (byte 'a' ≤ char && char ≤ byte 'z') || (byte 'A' ≤ char && char ≤ byte 'Z') ||
    isDigit char || char = byte '_'

/-- A name, `=` or `+=`, and anything. -/
def isAssignment (raw : List UInt8) : Bool :=
  let name := raw.takeWhile isNameByte
  let rest := raw.dropWhile isNameByte
  name ≠ [] && !(name.head?.any isDigit) &&
    ([byte '='].isPrefixOf rest || [byte '+', byte '='].isPrefixOf rest)

def simpleCommand : List Lexeme → Option Command
  | .word raw text :: rest =>
    if isReserved raw || isAssignment raw then none else commandParts (.word raw text :: rest)
  | _ => none

inductive CommandLine where
  | simple (command : Command)
  | ifThen (command : Command)
  deriving DecidableEq, Repr

def keyword (word : String) : Lexeme :=
  .word (ascii word) (ascii word)

def parseLexemes (found : List Lexeme) : Option CommandLine :=
  if found.head? = some (keyword "if") then
    if found.tail.dropWhile (fun lexeme => lexeme ≠ .semicolon) =
        [.semicolon, keyword "then", .newline] then
      (simpleCommand (found.tail.takeWhile fun lexeme => lexeme ≠ .semicolon)).map .ifThen
    else none
  else if found.dropWhile (fun lexeme => lexeme ≠ .newline) = [.newline] then
    (simpleCommand (found.takeWhile fun lexeme => lexeme ≠ .newline)).map .simple
  else none

def parseLine (line : List UInt8) : Option CommandLine :=
  (lexemes line).bind parseLexemes

variable {found : List Lexeme}

namespace LineReader

variable {reader middle : LineReader}

theorem run_append {front : List UInt8} (first : reader.run front = some middle)
    (back : List UInt8) : reader.run (front ++ back) = middle.run back := by
  induction front generalizing reader with
  | nil =>
    cases first
    rfl
  | cons char front ih =>
    obtain ⟨next, step, rest⟩ := bind_eq_some_iff.mp first
    rw [cons_append, run, step, bind_some]
    exact ih rest

theorem step_of_read {char : UInt8} {next : Mode} {added : List UInt8}
    (read : reader.mode.read char = some (next, added)) :
    reader.step char = some ⟨next, reader.raw ++ [char], reader.text ++ added, reader.lexemes⟩ := by
  have inWord : (if reader.mode = .blank ∨ reader.mode = .word then reader.operator char
      else none) = none := by
    split
    · rename_i outside
      simp [operator, Mode.ne_operator outside read]
    · rfl
  simp only [step, inWord, read, map_some]

/-- What a text adds to a word is what the reader adds to its word. -/
theorem run_of_readAll {text added : List UInt8} {last : Mode}
    (read : reader.mode.readAll text = some (last, added)) :
    reader.run text = some ⟨last, reader.raw ++ text, reader.text ++ added, reader.lexemes⟩ := by
  induction text generalizing reader added with
  | nil =>
    cases read
    simp [run]
  | cons char text ih =>
    obtain ⟨⟨next, first⟩, readFirst, rest⟩ := bind_eq_some_iff.mp read
    obtain ⟨⟨_, more⟩, readRest, same⟩ := map_eq_some_iff.mp rest
    cases same
    rw [run, step_of_read readFirst, bind_some, ← append_assoc]
    have later := @ih ⟨next, reader.raw ++ [char], reader.text ++ first, reader.lexemes⟩ more
      readRest
    rw [later, append_assoc, singleton_append]

theorem run_word {text word : List UInt8} (reads : ReadsAs text word) (before : List Lexeme) :
    (between before).run text = some ⟨.word, text, word, before⟩ := by
  have read : (between before).mode.readAll text = some (.word, word) :=
    (Mode.readAll_blank reads.1).trans reads.2
  rw [run_of_readAll read]
  rfl

theorem run_operator {char : UInt8} {after : List Lexeme}
    (outside : reader.mode = .blank ∨ reader.mode = .word)
    (ends : reader.operator char = some after) (rest : List UInt8) :
    reader.run (char :: rest) = (between after).run rest := by
  rw [run, step, if_pos outside, ends]
  rfl

def after (before : List Lexeme) (reader : LineReader) : LineReader :=
  { reader with lexemes := before ++ reader.lexemes }

variable (before : List Lexeme)

theorem close_after : (reader.after before).close = before ++ reader.close := by
  unfold close after
  split <;> simp

theorem operator_after (char : UInt8) :
    (reader.after before).operator char = (reader.operator char).map (before ++ ·) := by
  have sameMode : (reader.after before).mode = reader.mode := rfl
  have sameRaw : (reader.after before).raw = reader.raw := rfl
  have sameLexemes : (reader.after before).lexemes = before ++ reader.lexemes := rfl
  unfold operator
  rw [close_after, sameMode, sameRaw, sameLexemes]
  split_ifs <;> simp

theorem step_after (char : UInt8) :
    (reader.after before).step char = (reader.step char).map (after before) := by
  have sameMode : (reader.after before).mode = reader.mode := rfl
  unfold step
  rw [operator_after, sameMode]
  by_cases outside : reader.mode = .blank ∨ reader.mode = .word
  · rw [if_pos outside, if_pos outside]
    cases reader.operator char with
    | none =>
      rw [Option.map_none, Option.map_map]
      rfl
    | some lexemes => rfl
  · rw [if_neg outside, if_neg outside, Option.map_map]
    rfl

theorem run_after (text : List UInt8) :
    (reader.after before).run text = (reader.run text).map (after before) := by
  induction text generalizing reader with
  | nil => rfl
  | cons char text ih =>
    rw [run, step_after, run]
    cases reader.step char with
    | none => rfl
    | some next => exact ih

theorem run_between {text : List UInt8}
    (read : (between []).run text = some (between found)) (before : List Lexeme) :
    (between before).run text = some (between (before ++ found)) := by
  have start : between before = (between []).after before := by simp [between, after]
  rw [start, run_after, read]
  rfl

theorem run_words (parts : List (List UInt8 × List UInt8))
    (reads : ∀ part ∈ parts, ReadsAs part.1 part.2) (isWord : reader.mode = .word) :
    ∃ last, reader.run (parts.flatMap fun part => space :: part.1) = some last ∧
      last.mode = .word ∧
      last.close = reader.close ++ parts.map fun part => .word part.1 part.2 := by
  induction parts generalizing reader with
  | nil => exact ⟨reader, rfl, isWord, (append_nil _).symm⟩
  | cons part parts ih =>
    have first := run_word (reads part mem_cons_self) reader.close
    obtain ⟨last, reached, isLast, closed⟩ := @ih ⟨.word, part.1, part.2, reader.close⟩
      (fun other member => reads other (mem_cons_of_mem _ member)) rfl
    refine ⟨last, ?_, isLast, ?_⟩
    · have blank : reader.operator space = some reader.close := rfl
      rw [flatMap_cons, cons_append, run_operator (.inr isWord) blank, run_append first]
      exact reached
    · rw [closed, map_cons]
      simp [close]

end LineReader

theorem commandParts_words (parts : List (List UInt8 × List UInt8)) (rest : List Lexeme) :
    commandParts ((parts.map fun part => .word part.1 part.2) ++ rest) =
      (commandParts rest).map fun command =>
        { command with words := parts.map Prod.snd ++ command.words } := by
  induction parts with
  | nil =>
    rw [map_nil, nil_append]
    exact Option.map_id'.symm
  | cons part parts ih =>
    rw [map_cons, cons_append, commandParts, ih, Option.map_map]
    rfl

theorem takeWhile_ne {last : Lexeme} (absent : last ∉ found) (rest : List Lexeme) :
    (found ++ last :: rest).takeWhile (fun lexeme => lexeme ≠ last) = found ∧
      (found ++ last :: rest).dropWhile (fun lexeme => lexeme ≠ last) = last :: rest := by
  have others : ∀ lexeme ∈ found, (decide (lexeme ≠ last)) = true := by
    intro lexeme member
    exact decide_eq_true (ne_of_mem_of_not_mem member absent)
  constructor
  · rw [takeWhile_append_of_pos others]
    simp
  · rw [dropWhile_append_of_pos others]
    simp

theorem parseLexemes_simple {command : Command}
    (notIf : found.head? ≠ some (keyword "if")) (oneLine : .newline ∉ found)
    (parsed : simpleCommand found = some command) :
    parseLexemes (found ++ [.newline]) = some (.simple command) := by
  have nonempty : found ≠ [] := by
    rintro rfl
    cases parsed
  obtain ⟨front, back⟩ := takeWhile_ne oneLine []
  unfold parseLexemes
  rw [List.head?_append_of_ne_nil _ nonempty, if_neg notIf, back, if_pos rfl, front, parsed]
  rfl

theorem parseLexemes_ifThen {command : Command}
    (noSemicolon : .semicolon ∉ found) (parsed : simpleCommand found = some command) :
    parseLexemes (keyword "if" :: found ++ [.semicolon, keyword "then", .newline]) =
      some (.ifThen command) := by
  obtain ⟨front, back⟩ := takeWhile_ne noSemicolon [keyword "then", .newline]
  unfold parseLexemes
  rw [cons_append, List.head?_cons, if_pos rfl, tail_cons, back, if_pos rfl, front, parsed]
  rfl

end GitlabRunner.Bash
