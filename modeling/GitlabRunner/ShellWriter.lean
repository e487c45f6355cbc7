import GitlabRunner.BashCommands
import GitlabRunner.CmdWriter
import GitlabRunner.PowerShellWriter

/-!
# The writers of the three shells

The interface of `shells/shell_writer.go`, as far as scripts are written with it, and its
implementations for bash, cmd and PowerShell.
-/

namespace GitlabRunner.Shells

open ByteText SlashPaths Variables Panicking Utf8

structure ShellWriter where
  envVariableKey : List UInt8 → List UInt8
  writeVariable : JobVariable → Script Unit
  command : List UInt8 → List (List UInt8) → Script Unit
  line : List UInt8 → Script Unit
  checkForErrors : Script Unit
  ifCmd : List UInt8 → List (List UInt8) → Script Unit
  ifCmdWithOutput : List UInt8 → List (List UInt8) → Script Unit
  elseCmd : Script Unit
  endIf : Script Unit
  cd : List UInt8 → Script Unit
  mkDir : List UInt8 → Script Unit
  rmDir : List UInt8 → Script Unit
  rmFile : List UInt8 → Script Unit
  mkTmpDir : List UInt8 → Script (List UInt8)
  notice : List UInt8 → Script Unit
  warning : List UInt8 → Script Unit
  emptyLine : Script Unit

/-- Writes a mark instead of the text of a method, and panics if the indent gets negative. -/
def marked {α : Type} (mark : List UInt8) (script : Script α) : Script α := fun writer =>
  (script writer).bind fun (value, after) =>
    if after.indent < 0 then none
    else some (value, { after with buffer := writer.buffer ++ mark })

/-- The writer, with the calls that open, turn and close a block in place of its text. -/
def ShellWriter.observed (w : ShellWriter) : ShellWriter where
  envVariableKey := w.envVariableKey
  writeVariable entry := marked [] (w.writeVariable entry)
  command command arguments := marked [] (w.command command arguments)
  line text := marked [] (w.line text)
  checkForErrors := marked [] w.checkForErrors
  ifCmd command arguments := marked (ascii "(") (w.ifCmd command arguments)
  ifCmdWithOutput command arguments := marked (ascii "(") (w.ifCmdWithOutput command arguments)
  elseCmd := marked (ascii "|") w.elseCmd
  endIf := marked (ascii ")") w.endIf
  cd path := marked [] (w.cd path)
  mkDir path := marked [] (w.mkDir path)
  rmDir path := marked [] (w.rmDir path)
  rmFile path := marked [] (w.rmFile path)
  mkTmpDir name := marked [] (w.mkTmpDir name)
  notice text := marked [] (w.notice text)
  warning text := marked [] (w.warning text)
  emptyLine := marked [] w.emptyLine

/-- The blocks that are open, the last one first, and whether each had its `Else`. -/
def readMark (blocks : List Bool) (mark : UInt8) : Option (List Bool) :=
  if mark = byte '(' then some (false :: blocks)
  else
    match blocks with
    | [] => none
    | turned :: outer =>
      if mark = byte ')' then some outer
      else if turned then none
      else some (true :: outer)

/-- The second writer has marks in its buffer. -/
def Observes (blocks : List Bool) (writer record : ScriptWriter) : Prop :=
  Alike blocks.length writer record ∧ record.buffer.foldlM readMark [] = some blocks

section Marks

variable {α : Type} {script : Script α} {blocks : List Bool}

theorem Moves.marked {blocks' : List Bool} {mark : List UInt8}
    (moves : Moves blocks.length blocks'.length script)
    (read : mark.foldlM readMark blocks = some blocks') :
    Together (Observes blocks) (Observes blocks') script (marked mark script) := by
  rintro writer record ⟨alike, history⟩
  obtain ⟨value, next, next', result, result', level, level', path⟩ := moves writer record alike
  refine ⟨value, next, { next' with buffer := record.buffer ++ mark }, result, ?_,
    ⟨level, level', path⟩, ?_⟩
  · rw [Shells.marked, result']
    exact if_neg (by omega)
  · rw [List.foldlM_append, history]
    exact read

theorem Keeps.kept (keeps : Keeps script) :
    Together (Observes blocks) (Observes blocks) script (marked [] script) :=
  (keeps _).marked rfl

theorem Moves.opened (moves : Moves blocks.length (blocks.length + 1) script) :
    Together (Observes blocks) (Observes (false :: blocks)) script
      (Shells.marked (ascii "(") script) :=
  @Moves.marked _ _ _ (false :: blocks) _ moves rfl

theorem Moves.turned (moves : Moves (blocks.length + 1) (blocks.length + 1) script) :
    Together (Observes (false :: blocks)) (Observes (true :: blocks)) script
      (Shells.marked (ascii "|") script) :=
  @Moves.marked _ _ (false :: blocks) (true :: blocks) _ moves rfl

theorem Moves.closed {turned : Bool} (moves : Moves (blocks.length + 1) blocks.length script) :
    Together (Observes (turned :: blocks)) (Observes blocks) script
      (Shells.marked (ascii ")") script) :=
  @Moves.marked _ _ (turned :: blocks) blocks _ moves rfl

end Marks

structure ShellWriter.Lawful (w : ShellWriter) : Prop where
  writeVariable : ∀ entry, Keeps (w.writeVariable entry)
  command : ∀ command arguments, Keeps (w.command command arguments)
  line : ∀ text, Keeps (w.line text)
  checkForErrors : Keeps w.checkForErrors
  ifCmd : ∀ command arguments depth, Moves depth (depth + 1) (w.ifCmd command arguments)
  ifCmdWithOutput : ∀ command arguments depth,
    Moves depth (depth + 1) (w.ifCmdWithOutput command arguments)
  elseCmd : ∀ depth, Moves (depth + 1) (depth + 1) w.elseCmd
  endIf : ∀ depth, Moves (depth + 1) depth w.endIf
  cd : ∀ path, Keeps (w.cd path)
  mkDir : ∀ path, Keeps (w.mkDir path)
  rmDir : ∀ path, Keeps (w.rmDir path)
  rmFile : ∀ path, Keeps (w.rmFile path)
  mkTmpDir : ∀ name, Keeps (w.mkTmpDir name)
  notice : ∀ text, Keeps (w.notice text)
  warning : ∀ text, Keeps (w.warning text)
  emptyLine : Keeps w.emptyLine

/-- The calls of a script are properly nested. -/
def ShellWriter.Nests {α : Type} (w : ShellWriter) (script : ShellWriter → Script α) : Prop :=
  ∀ blocks, Together (Observes blocks) (Observes blocks) (script w) (script w.observed)

variable {step : BashWriter → BashWriter}

section Bash

def ofBash (step : BashWriter → BashWriter) : Script Unit := fun writer =>
  if writer.indent < 0 then none
  else
    let after := step ⟨writer.buffer, writer.temporaryPath, writer.indent.toNat⟩
    some ((), ⟨after.buffer, after.temporaryPath, after.indent⟩)

theorem quote_plain {isPrint : Char → Bool}
    (printable : ∀ rune : Char, 32 ≤ rune.toNat → rune.toNat ≤ 126 → isPrint rune = true)
    {text : List UInt8} (plain : ∀ char ∈ text, 32 ≤ char ∧ char ≤ 126 ∧
      char ≠ Bash.doubleQuote ∧ char ≠ Bash.backslash) :
    Strconv.quote isPrint text = Bash.doubleQuote :: text ++ [Bash.doubleQuote] := by
  have small : ∀ char ∈ text, char.toNat < 0x80 := by
    intro char member
    have bound := UInt8.le_iff_toNat_le.mp (plain char member).2.1
    change char.toNat ≤ 126 at bound
    omega
  have written : ∀ rune ∈ asciiText text,
      Strconv.escapedRune isPrint rune = String.utf8EncodeChar rune := by
    intro rune member
    obtain ⟨char, inside, rfl⟩ := List.mem_map.mp member
    have value := toNat_ofNat_small (small char inside)
    obtain ⟨low, high, notQuote, notBackslash⟩ := plain char inside
    have differs : ∀ other : UInt8, other.toNat < 0x80 → char ≠ other →
        Char.ofNat char.toNat ≠ Char.ofNat other.toNat := by
      intro other otherSmall different same
      have values := congrArg Char.toNat same
      rw [value, toNat_ofNat_small otherSmall] at values
      exact different (UInt8.toNat_inj.mp values)
    have ordinary : ¬(Char.ofNat char.toNat = '"' ∨ Char.ofNat char.toNat = '\\') :=
      not_or.mpr ⟨differs Bash.doubleQuote (by decide) notQuote,
        differs Bash.backslash (by decide) notBackslash⟩
    have isPrinted : isPrint (Char.ofNat char.toNat) = true :=
      printable _ (by rw [value]; exact UInt8.le_iff_toNat_le.mp low)
        (by rw [value]; exact UInt8.le_iff_toNat_le.mp high)
    rw [Strconv.escapedRune, if_neg ordinary, if_pos isPrinted]
  have quoted := @Strconv.quote_encode isPrint (asciiText text)
  rw [List.flatMap_congr written, encode_asciiText small] at quoted
  rw [quoted]
  change _ :: encode (asciiText text) ++ _ = _
  rw [encode_asciiText small]
  rfl

/-- The verb `%q`, with the table of `strconv.IsPrint`. -/
def quotingOf (isPrint : Char → Bool)
    (printable : ∀ rune : Char, 32 ≤ rune.toNat → rune.toNat ≤ 126 → isPrint rune = true) :
    Quoting where
  quote := Strconv.quote isPrint
  plain _ := quote_plain printable

/-- `BashWriter`, with `strconv.IsPrint` and the verb `%q`. -/
def bashWriter (isPrint : Char → Bool) (quoting : Quoting) : ShellWriter where
  envVariableKey name := ascii "$" ++ name
  writeVariable entry := ofBash (·.writeVariable quoting entry)
  command command arguments := ofBash (·.command isPrint command arguments)
  line text := ofBash (·.line text)
  checkForErrors := pure ()
  ifCmd command arguments := ofBash (·.ifCmd isPrint command arguments)
  ifCmdWithOutput command arguments := ofBash (·.ifCmdWithOutput isPrint command arguments)
  elseCmd := do
    Script.unindent
    ofBash (·.line (ascii "else"))
    Script.indent
  endIf := do
    Script.unindent
    ofBash (·.line (ascii "fi"))
  cd path := ofBash (·.command isPrint (ascii "cd") [path])
  mkDir path := ofBash (·.command isPrint (ascii "mkdir") [ascii "-p", path])
  rmDir path := ofBash (·.command isPrint (ascii "rm") [ascii "-r", ascii "-f", path])
  rmFile path := ofBash (·.command isPrint (ascii "rm") [ascii "-f", path])
  mkTmpDir name := do
    let path := join [← Script.temporaryPath, name]
    ofBash (·.command isPrint (ascii "mkdir") [ascii "-p", path])
    return path
  notice text := ofBash (·.line (ascii "echo " ++ shellEscape (ansiBoldGreen ++ text ++ ansiReset)))
  warning text := ofBash (·.line (ascii "echo " ++ shellEscape (ansiYellow ++ text ++ ansiReset)))
  emptyLine := ofBash (·.line (ascii "echo"))

theorem moves_ofBash {depth more : Nat}
    (moved : ∀ writer, (step writer).indent = writer.indent + more ∧
      (step writer).temporaryPath = writer.temporaryPath) :
    Moves depth (depth + more) (ofBash step) := by
  rintro writer other ⟨level, level', path⟩
  refine ⟨(), _, _, if_neg (by omega), if_neg (by omega), ?_⟩
  simp only [moved]
  exact ⟨by simp only; omega, by simp only; omega, path⟩

theorem keeps_ofBash (kept : ∀ writer, (step writer).indent = writer.indent ∧
      (step writer).temporaryPath = writer.temporaryPath) : Keeps (ofBash step) :=
  fun depth => @moves_ofBash step depth 0 kept

theorem keeps_bashVariable (quoting : Quoting) (entry : JobVariable) :
    Keeps (ofBash (·.writeVariable quoting entry)) := by
  refine keeps_ofBash fun writer => ?_
  rw [BashWriter.writeVariable]
  split <;> exact ⟨rfl, rfl⟩

theorem keeps_bashLine (text : List UInt8) : Keeps (ofBash (·.line text)) :=
  keeps_ofBash fun _ => ⟨rfl, rfl⟩

theorem keeps_bashCommand (isPrint : Char → Bool) (command : List UInt8)
    (arguments : List (List UInt8)) : Keeps (ofBash (·.command isPrint command arguments)) :=
  keeps_ofBash fun _ => ⟨rfl, rfl⟩

theorem lawful_bashWriter (isPrint : Char → Bool) (quoting : Quoting) :
    (bashWriter isPrint quoting).Lawful where
  writeVariable := keeps_bashVariable quoting
  command := keeps_bashCommand isPrint
  line := keeps_bashLine
  checkForErrors _ := .pure ()
  ifCmd command arguments depth :=
    @moves_ofBash (·.ifCmd isPrint command arguments) depth 1 fun _ => ⟨rfl, rfl⟩
  ifCmdWithOutput command arguments depth :=
    @moves_ofBash (·.ifCmdWithOutput isPrint command arguments) depth 1 fun _ => ⟨rfl, rfl⟩
  elseCmd depth := moves_unindent.bind fun _ =>
    (keeps_bashLine _ depth).bind fun _ => moves_indent
  endIf depth := moves_unindent.bind fun _ => keeps_bashLine _ depth
  cd _ := keeps_bashCommand isPrint _ _
  mkDir _ := keeps_bashCommand isPrint _ _
  rmDir _ := keeps_bashCommand isPrint _ _
  rmFile _ := keeps_bashCommand isPrint _ _
  mkTmpDir _ depth := moves_temporaryPath.bind fun _ =>
    (keeps_bashCommand isPrint _ _ depth).bind fun _ => .pure _
  notice _ := keeps_bashLine _
  warning _ := keeps_bashLine _
  emptyLine := keeps_bashLine _

end Bash

section Cmd

/-- `CmdWriter`, with `strconv.IsPrint` and `disableDelayedErrorLevelExpansion`. -/
def cmdWriter (isPrint : Char → Bool) (disabled : Bool) : ShellWriter where
  envVariableKey := CmdWriter.envVariableKey
  writeVariable := CmdWriter.writeVariable isPrint
  command := CmdWriter.command disabled
  line := CmdWriter.line
  checkForErrors := CmdWriter.checkErrorLevel disabled
  ifCmd := CmdWriter.ifCmd disabled
  ifCmdWithOutput := CmdWriter.ifCmdWithOutput disabled
  elseCmd := CmdWriter.elseCmd
  endIf := CmdWriter.endIf
  cd := CmdWriter.cd disabled
  mkDir := CmdWriter.mkDir
  rmDir := CmdWriter.rmDir
  rmFile := CmdWriter.rmFile
  mkTmpDir := CmdWriter.mkTmpDir
  notice := CmdWriter.notice
  warning := CmdWriter.warning
  emptyLine := CmdWriter.emptyLine

namespace CmdWriter

theorem keeps_line (text : List UInt8) : Keeps (line text) :=
  fun _ => moves_line _ text

theorem keeps_checkErrorLevel (disabled : Bool) : Keeps (checkErrorLevel disabled) :=
  fun depth => (keeps_line _ depth).bind fun _ => keeps_line _ depth

theorem keeps_writeVariable (isPrint : Char → Bool) (entry : JobVariable) :
    Keeps (writeVariable isPrint entry) := by
  intro depth
  rw [writeVariable]
  split
  · refine .bind (.bind moves_temporaryPath fun _ => .pure _) fun _ => ?_
    refine .bind moves_temporaryPath fun _ => ?_
    exact (keeps_line _ depth).bind fun _ => (keeps_line _ depth).bind fun _ => keeps_line _ depth
  · exact keeps_line _ depth

theorem moves_ifCommand (disabled : Bool) (redirections command : List UInt8)
    (arguments : List (List UInt8)) (depth : Nat) :
    Moves depth (depth + 1) (ifCommand disabled redirections command arguments) :=
  (keeps_line _ depth).bind fun _ => (keeps_line _ depth).bind fun _ => moves_indent

end CmdWriter

open CmdWriter in
theorem lawful_cmdWriter (isPrint : Char → Bool) (disabled : Bool) :
    (cmdWriter isPrint disabled).Lawful where
  writeVariable := keeps_writeVariable isPrint
  command _ _ depth := (keeps_line _ depth).bind fun _ => keeps_checkErrorLevel disabled depth
  line := keeps_line
  checkForErrors := keeps_checkErrorLevel disabled
  ifCmd := moves_ifCommand disabled _
  ifCmdWithOutput := moves_ifCommand disabled _
  elseCmd depth := moves_unindent.bind fun _ =>
    (keeps_line _ depth).bind fun _ => moves_indent
  endIf depth := moves_unindent.bind fun _ => keeps_line _ depth
  cd _ depth := (keeps_line _ depth).bind fun _ => keeps_checkErrorLevel disabled depth
  mkDir _ := keeps_line _
  rmDir _ := keeps_line _
  rmFile _ := keeps_line _
  mkTmpDir _ depth := moves_temporaryPath.bind fun _ =>
    (keeps_line _ depth).bind fun _ => .pure _
  notice _ := keeps_line _
  warning _ := keeps_line _
  emptyLine := keeps_line _

end Cmd

section Ps

def psWriter : ShellWriter where
  envVariableKey := PsWriter.envVariableKey
  writeVariable := PsWriter.writeVariable
  command := PsWriter.command
  line := PsWriter.line
  checkForErrors := PsWriter.checkErrorLevel
  ifCmd := PsWriter.ifCmd
  ifCmdWithOutput := PsWriter.ifCmdWithOutput
  elseCmd := PsWriter.elseCmd
  endIf := PsWriter.endIf
  cd := PsWriter.cd
  mkDir := PsWriter.mkDir
  rmDir := PsWriter.rmDir
  rmFile := PsWriter.rmFile
  mkTmpDir := PsWriter.mkTmpDir
  notice := PsWriter.notice
  warning := PsWriter.warning
  emptyLine := PsWriter.emptyLine

namespace PsWriter

theorem keeps_line (text : List UInt8) : Keeps (line text) :=
  fun _ => moves_line _ text

theorem keeps_checkErrorLevel : Keeps checkErrorLevel :=
  fun depth => (keeps_line _ depth).bind fun _ => keeps_line _ depth

theorem keeps_absolute (dir : List UInt8) : Keeps (absolute dir) := by
  intro depth
  rw [absolute]
  split
  · exact .pure _
  · exact (keeps_line _ depth).bind fun _ => .pure _

theorem keeps_tmpFile (name : List UInt8) : Keeps (tmpFile name) :=
  fun depth => moves_temporaryPath.bind fun _ => (keeps_absolute _ depth).bind fun _ => .pure _

theorem keeps_writeVariable (entry : JobVariable) : Keeps (writeVariable entry) := by
  intro depth
  rw [writeVariable]
  split
  · refine .bind (keeps_tmpFile _ depth) fun _ => .bind moves_temporaryPath fun _ => ?_
    refine (keeps_line _ depth).bind fun _ => (keeps_line _ depth).bind fun _ => ?_
    exact (keeps_line _ depth).bind fun _ => keeps_line _ depth
  · exact (keeps_line _ depth).bind fun _ => keeps_line _ depth

theorem keeps_indented (text : List UInt8) {rest : Script Unit} {depth last : Nat}
    (later : Moves depth last rest) :
    Moves depth last (do Script.indent; line text; Script.unindent; rest) :=
  moves_indent.bind fun _ => (keeps_line _ _).bind fun _ => moves_unindent.bind fun _ => later

theorem moves_ifInTryCatch (command : List UInt8) (depth : Nat) :
    Moves depth (depth + 1) (ifInTryCatch command) := by
  refine (keeps_line _ depth).bind fun _ => (keeps_line _ depth).bind fun _ => ?_
  refine moves_indent.bind fun _ => (keeps_line _ _).bind fun _ => (keeps_line _ _).bind fun _ => ?_
  refine moves_unindent.bind fun _ => (keeps_line _ depth).bind fun _ => ?_
  refine keeps_indented _ ?_
  exact (keeps_line _ depth).bind fun _ => (keeps_line _ depth).bind fun _ => moves_indent

theorem keeps_remove (pathType options path : List UInt8) :
    Keeps (remove pathType options path) := by
  intro depth
  refine (keeps_line _ depth).bind fun _ => keeps_indented _ ?_
  refine (keeps_line _ depth).bind fun _ => keeps_indented _ ?_
  exact (keeps_line _ depth).bind fun _ => keeps_line _ depth

end PsWriter

open PsWriter in
theorem lawful_psWriter : psWriter.Lawful where
  writeVariable := keeps_writeVariable
  command _ _ depth := (keeps_line _ depth).bind fun _ => keeps_checkErrorLevel depth
  line := keeps_line
  checkForErrors := keeps_checkErrorLevel
  ifCmd _ _ := moves_ifInTryCatch _
  ifCmdWithOutput _ _ := moves_ifInTryCatch _
  elseCmd depth := moves_unindent.bind fun _ =>
    (keeps_line _ depth).bind fun _ => moves_indent
  endIf depth := moves_unindent.bind fun _ => keeps_line _ depth
  cd _ depth := (keeps_line _ depth).bind fun _ => keeps_checkErrorLevel depth
  mkDir _ := keeps_line _
  rmDir := keeps_remove _ _
  rmFile := keeps_remove _ _
  mkTmpDir _ depth := moves_temporaryPath.bind fun _ =>
    (keeps_line _ depth).bind fun _ => .pure _
  notice _ := keeps_line _
  warning _ := keeps_line _
  emptyLine := keeps_line _

end Ps

end GitlabRunner.Shells
