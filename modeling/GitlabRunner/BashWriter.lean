import GitlabRunner.BashBuiltins

/-!
# Scripts for bash

`shells/bash.go` collects a script line by line and wraps it into an `eval`, and
`helpers.ShellEscape` of `helpers/shell_escape.go` writes any text as one word.
-/

namespace GitlabRunner.Shells

open ByteText Bash List Reader

namespace ShellEscape

def tab : UInt8 := 9
def lf : UInt8 := 10
def cr : UInt8 := 13
def us : UInt8 := 31
def amperstand : UInt8 := 38
def singleQuote : UInt8 := 39
def plus : UInt8 := 43
def nine : UInt8 := 57
def question : UInt8 := 63
def lowercaseZ : UInt8 := 90
def openBracket : UInt8 := 91
def backslash : UInt8 := 92
def closeBracket : UInt8 := 93
def underscore : UInt8 := 95
def backtick : UInt8 := 96
def tilda : UInt8 := 126
def del : UInt8 := 127

/-- What `ShellEscape` has written, and whether it has to be quoted. -/
structure State where
  out : List UInt8
  escape : Bool
  deriving DecidableEq, Repr

def hexDigit (value : UInt8) : UInt8 :=
  if value < 10 then byte '0' + value else byte 'a' + (value - 10)

def State.hex (state : State) (char : UInt8) : State :=
  ⟨state.out ++ [backslash, byte 'x', hexDigit (char / 16), hexDigit (char % 16)], true⟩

def State.backslash (state : State) (char : UInt8) : State :=
  ⟨state.out ++ [ShellEscape.backslash, char], true⟩

def State.escaped (state : State) (text : List UInt8) : State :=
  ⟨state.out ++ text, true⟩

def State.quoted (state : State) (char : UInt8) : State :=
  ⟨state.out ++ [char], true⟩

def State.literal (state : State) (char : UInt8) : State :=
  { state with out := state.out ++ [char] }

def State.write (state : State) (char : UInt8) : State :=
  if char = tab then state.escaped (ascii "\\t")
  else if char = lf then state.escaped (ascii "\\n")
  else if char = cr then state.escaped (ascii "\\r")
  else if char ≤ us then state.hex char
  else if char ≤ amperstand then state.quoted char
  else if char = singleQuote then state.backslash char
  else if char ≤ plus then state.quoted char
  else if char ≤ nine then state.literal char
  else if char ≤ question then state.quoted char
  else if char ≤ lowercaseZ then state.literal char
  else if char = openBracket then state.quoted char
  else if char = ShellEscape.backslash then state.backslash char
  else if char ≤ closeBracket then state.quoted char
  else if char = underscore then state.literal char
  else if char ≤ backtick then state.quoted char
  -- The constant is the code of Z, so lowercase letters are quoted below.
  else if char ≤ lowercaseZ then state.literal char
  else if char ≤ tilda then state.quoted char
  else if char = del then state.hex char
  else state.hex char

end ShellEscape

open ShellEscape in
def shellEscape (text : List UInt8) : List UInt8 :=
  if text = [] then ascii "''"
  else
    let state := text.foldl State.write ⟨[], false⟩
    if state.escape then ascii "$'" ++ state.out ++ ascii "'" else state.out

structure BashWriter where
  buffer : List UInt8
  temporaryPath : List UInt8
  indent : Nat

def BashWriter.line (writer : BashWriter) (text : List UInt8) : BashWriter :=
  { writer with
    buffer := writer.buffer ++ (List.replicate writer.indent (ascii "  ")).flatten ++ text ++
      ascii "\n" }

def BashWriter.finish (writer : BashWriter) (trace : Bool) : List UInt8 :=
  (if trace then ascii "set -o xtrace\n" else []) ++ ascii "set -eo pipefail\n" ++
    ascii "set +o noclobber\n" ++ (ascii ": | eval " ++ shellEscape writer.buffer ++ ascii "\n") ++
    ascii "exit 0\n"

section Escape

open ShellEscape

/-- What `ShellEscape` writes for a byte. -/
def code (char : UInt8) : List UInt8 :=
  (State.write ⟨[], false⟩ char).out

def quotes (char : UInt8) : Bool :=
  (State.write ⟨[], false⟩ char).escape

def ShellEscape.State.append (state written : State) : State :=
  ⟨state.out ++ written.out, state.escape || written.escape⟩

theorem write_eq (state : State) (char : UInt8) :
    state.write char = state.append (State.write ⟨[], false⟩ char) := by
  have escaped : ∀ text, state.append (State.escaped ⟨[], false⟩ text) = state.escaped text := by
    simp [State.append, State.escaped]
  have hex : state.append (State.hex ⟨[], false⟩ char) = state.hex char := by
    simp [State.append, State.hex]
  have quoted : state.append (State.quoted ⟨[], false⟩ char) = state.quoted char := by
    simp [State.append, State.quoted]
  have backslash : state.append (State.backslash ⟨[], false⟩ char) = state.backslash char := by
    simp [State.append, State.backslash]
  have literal : state.append (State.literal ⟨[], false⟩ char) = state.literal char := by
    simp [State.append, State.literal]
  simp only [State.write, apply_ite state.append, escaped, hex, quoted, backslash, literal]

variable (text : List UInt8)

theorem foldl_write (state : State) :
    text.foldl State.write state =
      ⟨state.out ++ text.flatMap code, state.escape || text.any quotes⟩ := by
  induction text generalizing state with
  | nil => simp
  | cons char text ih =>
    rw [foldl_cons, ih, write_eq]
    simp [State.append, code, quotes, Bool.or_assoc]

/-- Every byte other than zero is read back from what is written for it. -/
theorem readAll_code : ∀ char, char ≠ 0 → Mode.ansi.readAll (code char) = some (.ansi, [char]) :=
  forall_byte (by decide +kernel)

theorem code_of_not_quotes :
    ∀ char, quotes char = false → code char = [char] ∧ ordinary char = true :=
  forall_byte (by decide +kernel)

theorem code_printable : ∀ char, ∀ written ∈ code char, 32 ≤ written ∧ written ≤ 126 := by
  have all : ∀ char,
      (code char).all (fun written => decide (32 ≤ written ∧ written ≤ 126)) = true :=
    forall_byte (by decide +kernel)
  intro char written member
  exact of_decide_eq_true (all_eq_true.mp (all char) written member)

theorem shellEscape_eq {text : List UInt8} (nonempty : text ≠ []) :
    shellEscape text = if text.any quotes then ascii "$'" ++ text.flatMap code ++ ascii "'"
      else text.flatMap code := by
  simp only [shellEscape, nonempty, if_false, foldl_write, nil_append, Bool.false_or]

theorem readAll_codes {text : List UInt8} (noNul : 0 ∉ text) :
    Mode.ansi.readAll (text.flatMap code) = some (.ansi, text) := by
  induction text with
  | nil => rfl
  | cons char text ih =>
    rw [mem_cons, not_or] at noNul
    exact Mode.readAll_append (readAll_code char (Ne.symm noNul.1)) (ih noNul.2)

theorem codes_of_not_quotes {text : List UInt8} (unquoted : ∀ char ∈ text, quotes char = false) :
    text.flatMap code = text := by
  induction text with
  | nil => rfl
  | cons char text ih =>
    rw [flatMap_cons, (code_of_not_quotes char (unquoted char (by simp))).1,
      ih fun other member => unquoted other (by simp [member])]
    rfl

/-- `ShellEscape` writes two quotes for the empty text, quotes a text with a byte that
needs it, and writes every other text as it is. -/
theorem shellEscape_cases :
    text = [] ∧ shellEscape text = ascii "''" ∨
      shellEscape text = ascii "$'" ++ text.flatMap code ++ ascii "'" ∨
      text ≠ [] ∧ (∀ char ∈ text, quotes char = false) ∧ shellEscape text = text := by
  by_cases empty : text = []
  · subst empty
    exact .inl ⟨rfl, rfl⟩
  · rw [shellEscape_eq empty]
    split
    · exact .inr (.inl rfl)
    · rename_i none
      have unquoted : ∀ char ∈ text, quotes char = false := by
        intro char member
        refine Bool.eq_false_iff.mpr ?_
        intro quoted
        exact none (any_eq_true.mpr ⟨char, member, quoted⟩)
      exact .inr (.inr ⟨empty, unquoted, codes_of_not_quotes unquoted⟩)

theorem readsAs_shellEscape {text : List UInt8} (noNul : 0 ∉ text) :
    ReadsAs (shellEscape text) text := by
  rcases shellEscape_cases text with ⟨rfl, same⟩ | same | ⟨nonempty, unquoted, same⟩
  · rw [same]
    exact ⟨by decide, by decide⟩
  · have opened : Mode.word.readAll (ascii "$'") = some (.ansi, []) := by decide
    have closed : Mode.ansi.readAll (ascii "'") = some (.word, []) := by decide
    have whole := Mode.readAll_append (Mode.readAll_append opened (readAll_codes noNul)) closed
    rw [nil_append, append_nil] at whole
    rw [same]
    exact ⟨by simp [ascii], whole⟩
  · rw [same]
    exact ⟨nonempty, Mode.readAll_plain fun char member =>
      readPlain_ordinary char (code_of_not_quotes char (unquoted char member)).2⟩

theorem shellEscape_printable : ∀ written ∈ shellEscape text, 32 ≤ written ∧ written ≤ 126 := by
  have codes : ∀ written ∈ text.flatMap code, 32 ≤ written ∧ written ≤ 126 := by
    intro written member
    obtain ⟨char, -, writes⟩ := mem_flatMap.mp member
    exact code_printable char written writes
  have quotesPrintable : ∀ written ∈ ascii "$''", 32 ≤ written ∧ written ≤ 126 := by
    simp [ascii, byte]
  rcases shellEscape_cases text with ⟨-, same⟩ | same | ⟨-, unquoted, same⟩
  · rw [same]
    intro written member
    exact quotesPrintable written (mem_cons_of_mem _ member)
  · rw [same]
    intro written member
    rw [mem_append, mem_append] at member
    rcases member with (opening | inside) | closing
    · exact quotesPrintable written (mem_append_left (ascii "'") opening)
    · exact codes written inside
    · exact quotesPrintable written (mem_append_right (ascii "$'") closing)
  · rw [codes_of_not_quotes unquoted] at codes
    rw [same]
    exact codes

end Escape

theorem evaluated_append {front rest : List UInt8} {line : List Token} {commands : List Simple}
    (read : (between []).run front = some (.between (line ++ [.newline])))
    (whole : Token.newline ∉ line) (parsed : pipeline line = some commands) :
    evaluated (front ++ rest) = (evaluated rest).map fun more =>
      commands.flatMap Simple.evaluates ++ more := by
  unfold evaluated
  rw [lines_append read whole parsed, Option.map_map, Option.map_map]
  cases lines rest with
  | none => rfl
  | some more => simp

theorem run_evalLine {script : List UInt8} (noNul : 0 ∉ script) :
    (between []).run (ascii ": | eval " ++ shellEscape script ++ ascii "\n") =
      some (.between ([.word (ascii ":"), .pipe, .word (ascii "eval"), .word script] ++
        [.newline])) := by
  have before : (between []).run (ascii ": | eval ") =
      some (.between [.word (ascii ":"), .pipe, .word (ascii "eval")]) := by decide
  rw [append_assoc, run_append before]
  have ended : separator .word newline = some [.newline] := rfl
  exact (readsAs_shellEscape noNul).run_separator ended _ []

/-- `eval` evaluates its argument unless it looks like an option. -/
theorem evalText_eq_iff (script : List UInt8) :
    (evalText [script]).toList = [script] ↔ isOption script = false := by
  have single : [space].intercalate [script] = script := by simp [List.intercalate]
  by_cases ends : script = [dash, dash]
  · subst ends
    decide
  · cases option : isOption script with
    | true => simp [evalText, ends, option]
    | false => simp [evalText, ends, option, single]

theorem evaluated_set {front : List UInt8} (option name : List UInt8)
    (read : (between []).run front =
      some (.between ([.word (ascii "set"), .word option, .word name] ++ [.newline])))
    (rest : List UInt8) : evaluated (front ++ rest) = evaluated rest := by
  have parsed : pipeline [.word (ascii "set"), .word option, .word name] =
      some [⟨[ascii "set", option, name], none⟩] := rfl
  have nothing : Simple.evaluates ⟨[ascii "set", option, name], none⟩ = [] := rfl
  rw [evaluated_append read (by simp) parsed]
  simp [nothing]

/-- The only line of `Finish` that evaluates anything is the one with the script. -/
theorem evaluated_finish {writer : BashWriter} (noNul : 0 ∉ writer.buffer) (trace : Bool) :
    evaluated (writer.finish trace) = some (evalText [writer.buffer]).toList := by
  have ended : evaluated (ascii "exit 0\n") = some [] := by decide
  have evalLine : evaluated (ascii ": | eval " ++ shellEscape writer.buffer ++ ascii "\n" ++
      ascii "exit 0\n") = some (evalText [writer.buffer]).toList := by
    have parsed : pipeline [.word (ascii ":"), .pipe, .word (ascii "eval"), .word writer.buffer] =
          some [⟨[ascii ":"], none⟩, ⟨[ascii "eval", writer.buffer], none⟩] := rfl
    rw [evaluated_append (run_evalLine noNul) (by simp) parsed, ended]
    simp [Simple.evaluates, ascii]
  have xtrace := @evaluated_set (ascii "set -o xtrace\n") (ascii "-o") (ascii "xtrace") (by decide)
  have pipefail := @evaluated_set (ascii "set -eo pipefail\n") (ascii "-eo") (ascii "pipefail")
    (by decide)
  have noclobber := @evaluated_set (ascii "set +o noclobber\n") (ascii "+o")
    (ascii "noclobber") (by decide)
  unfold BashWriter.finish
  simp only [append_assoc] at evalLine ⊢
  cases trace with
  | true => rw [if_pos rfl, xtrace, pipefail, noclobber, evalLine]
  | false => rw [if_neg (by decide), nil_append, pipefail, noclobber, evalLine]

/-- Every text without the byte zero is written as one word of printable ASCII bytes that is
read as the text, and `Finish` has it evaluated exactly if it is not more than a dash that
begins with one. -/
theorem shellEscape_roundTrip {text : List UInt8} (noNul : 0 ∉ text) :
    (∀ before, (between before).run (shellEscape text) = some ⟨.word, text, before⟩) ∧
    (∀ before char ended rest, separator .word char = some ended →
      (between before).run (shellEscape text ++ char :: rest) =
        (between (before ++ .word text :: ended)).run rest) ∧
    (∀ written ∈ shellEscape text, 32 ≤ written ∧ written ≤ 126) ∧
    ∀ (writer : BashWriter) (trace : Bool), writer.buffer = text →
      (evaluated (writer.finish trace) = some [text] ↔ isOption text = false) := by
  have reads := readsAs_shellEscape noNul
  refine ⟨reads.run, ?_, shellEscape_printable text, ?_⟩
  · intro before char ended rest ends
    exact reads.run_separator ends before rest
  · rintro writer trace rfl
    rw [evaluated_finish noNul, Option.some.injEq]
    exact evalText_eq_iff writer.buffer

def sampleScript : List UInt8 :=
  ascii "cd 'A1'\necho " ++ [233, 10]

theorem shellEscape_roundTrip_sample :
    0 ∉ sampleScript ∧
      shellEscape sampleScript = ascii "$'cd \\'A1\\'\\necho \\xe9\\n'" ∧
      evaluated (BashWriter.finish ⟨sampleScript, ascii "/tmp", 0⟩ false) = some [sampleScript] :=
  ⟨by decide, by decide,
    ((shellEscape_roundTrip (by decide)).2.2.2 ⟨sampleScript, ascii "/tmp", 0⟩ false rfl).mpr
      (by decide)⟩

/-- A script that begins with a dash is an option to `eval`. -/
theorem dashed_script_rejected :
    ¬∀ (writer : BashWriter) (trace : Bool), 0 ∉ writer.buffer →
      evaluated (writer.finish trace) = some [writer.buffer] := by
  intro evaluates
  have broken := evaluates ⟨ascii "-x\n", ascii "/tmp", 0⟩ false (by decide)
  rw [evaluated_finish (by decide)] at broken
  exact absurd broken (by decide)

end GitlabRunner.Shells
