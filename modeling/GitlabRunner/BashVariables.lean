import GitlabRunner.BashWriter
import GitlabRunner.JobVariables

/-!
# Variables in a bash script

`BashWriter.Variable` writes the lines that export a job variable.  The value of a variable
of type file is printed into a file with `echo -n`, and its path is exported.
-/

namespace GitlabRunner.Shells

open ByteText Bash SlashPaths Variables List Function Reader Files

/-- The verb `%q`: a text of printable ASCII bytes without double quotes and backslashes is
put in double quotes.  What it makes of other texts is left open. -/
structure Quoting where
  quote : List UInt8 → List UInt8
  plain : ∀ text, (∀ char ∈ text, 32 ≤ char ∧ char ≤ 126 ∧ char ≠ doubleQuote ∧
    char ≠ Bash.backslash) → quote text = doubleQuote :: text ++ [doubleQuote]

def toSlash (path : List UInt8) : List UInt8 :=
  path.map fun char => if char = Bash.backslash then slash else char

def BashWriter.absolute (dir : List UInt8) : List UInt8 :=
  if rooted dir then dir else join [ascii "$PWD", dir]

def BashWriter.tmpFile (writer : BashWriter) (name : List UInt8) : List UInt8 :=
  absolute (join [writer.temporaryPath, name])

def BashWriter.writeVariable (quoting : Quoting) (writer : BashWriter) (entry : JobVariable) :
    BashWriter :=
  if entry.file then
    let variableFile := writer.tmpFile entry.key
    let writer := writer.line
      (ascii "mkdir -p " ++ quoting.quote (toSlash writer.temporaryPath))
    let writer := writer.line
      (ascii "echo -n " ++ shellEscape entry.value ++ ascii " > " ++ quoting.quote variableFile)
    writer.line
      (ascii "export " ++ shellEscape entry.key ++ ascii "=" ++ quoting.quote variableFile)
  else
    writer.line
      (ascii "export " ++ shellEscape entry.key ++ ascii "=" ++ shellEscape entry.value)

def BashWriter.writeVariables (quoting : Quoting) (writer : BashWriter)
    (entries : JobVariables) : BashWriter :=
  entries.foldl (BashWriter.writeVariable quoting) writer

/-- The bytes of a path of letters, digits, slashes, dots, dashes and underscores. -/
def isPathByte (char : UInt8) : Bool :=
  isLetter char || (byte '0' ≤ char && char ≤ byte '9') || (ascii "/.-_").contains char

def receive (temporaryPath : List UInt8) (shell : Shell) (entry : JobVariable) : Shell :=
  if entry.file then
    let made := (shell.files.makeDirectories [] (elements temporaryPath)).1
    let variableFile := join [temporaryPath, entry.key]
    let contents := if isEchoOption entry.value then [] else entry.value
    { shell with
      assigned := update shell.assigned entry.key (some variableFile)
      files := (made.write variableFile contents).getD made }
  else
    { shell with assigned := update shell.assigned entry.key (some entry.value) }

section Paths

variable {temporaryPath key : List UInt8}

theorem isElement_identifier (identifier : isIdentifier key = true) :
    IsElement key ∧ key ≠ parent := by
  obtain ⟨nonempty, plain⟩ := identifier_plain identifier
  have noDot : dot ∉ key := fun member => (plain dot member).2.2.2.1 rfl
  have noSlash : slash ∉ key := fun member => (plain slash member).2.2.1 rfl
  refine ⟨⟨nonempty, ?_, noSlash⟩, ?_⟩
  · rintro rfl
    simp at noDot
  · rintro rfl
    simp [parent] at noDot

theorem ne_nil_of_rooted {path : List UInt8} (absolute : rooted path = true) : path ≠ [] := by
  rintro rfl
  cases absolute

theorem place_tmpFile (absolute : rooted temporaryPath = true)
    (identifier : isIdentifier key = true) :
    place (join [temporaryPath, key]) = key :: place temporaryPath := by
  obtain ⟨proper, isName⟩ := isElement_identifier identifier
  rw [place_join (ne_nil_of_rooted absolute), absolute, flatMap_cons, flatMap_nil,
    append_nil, elements_of_isElement proper]
  exact follow_name isName true _

theorem tmpFile_eq (absolute : rooted temporaryPath = true) (identifier : isIdentifier key = true) :
    join [temporaryPath, key] = assemble true (key :: place temporaryPath).reverse := by
  have nonempty := ne_nil_of_rooted absolute
  rw [← clean_join nonempty, clean, rooted_join nonempty, absolute,
    place_tmpFile absolute identifier]

theorem mem_intercalate {path : List (List UInt8)} {char : UInt8}
    (member : char ∈ [slash].intercalate path) :
    char = slash ∨ ∃ element ∈ path, char ∈ element := by
  induction path with
  | nil => simp [List.intercalate] at member
  | cons first path ih =>
    cases path with
    | nil => exact .inr ⟨first, by simp, by simpa [List.intercalate] using member⟩
    | cons second path =>
      rw [slashed_cons_cons] at member
      rw [mem_append, mem_cons] at member
      rcases member with here | separates | later
      · exact .inr ⟨first, by simp, here⟩
      · exact .inl separates
      · obtain same | ⟨element, inside, found⟩ := ih later
        · exact .inl same
        · exact .inr ⟨element, mem_cons_of_mem first inside, found⟩

/-- The path of a file has the bytes of the directory and of the name. -/
theorem mem_tmpFile {char : UInt8} (absolute : rooted temporaryPath = true)
    (identifier : isIdentifier key = true) (member : char ∈ join [temporaryPath, key]) :
    char = slash ∨ char ∈ temporaryPath ∨ char ∈ key := by
  rw [tmpFile_eq absolute identifier, assemble, if_pos rfl, mem_cons] at member
  rcases member with same | inside
  · exact .inl same
  · obtain same | ⟨element, known, found⟩ := mem_intercalate inside
    · exact .inl same
    · rw [mem_reverse, mem_cons] at known
      rcases known with rfl | outer
      · exact .inr (.inr found)
      · rw [place_rooted absolute] at outer
        have part := infix_of_mem (entered_subset _ outer)
        exact .inr (.inl (part.subset found))

theorem pathByte_plain : ∀ char, isPathByte char = true →
    (32 ≤ char ∧ char ≤ 126 ∧ char ≠ doubleQuote ∧ char ≠ Bash.backslash) ∧
      plainInQuotes char = true :=
  forall_byte (by decide +kernel)

theorem identifier_pathByte (identifier : isIdentifier key = true) :
    ∀ char ∈ key, isPathByte char = true := by
  cases key with
  | nil => cases identifier
  | cons first rest =>
    rw [isIdentifier, Bool.and_eq_true, all_eq_true] at identifier
    intro char member
    unfold isPathByte
    rcases mem_cons.mp member with rfl | later
    · rw [identifier.1, Bool.true_or, Bool.true_or]
    · rw [identifier.2 char later, Bool.true_or]

theorem tmpFile_pathByte (absolute : rooted temporaryPath = true)
    (plain : ∀ char ∈ temporaryPath, isPathByte char = true)
    (identifier : isIdentifier key = true) :
    ∀ char ∈ join [temporaryPath, key], isPathByte char = true := by
  intro char member
  rcases mem_tmpFile absolute identifier member with rfl | outer | name
  · decide
  · exact plain char outer
  · exact identifier_pathByte identifier char name

theorem readsAs_quote (quoting : Quoting) {path : List UInt8}
    (plain : ∀ char ∈ path, isPathByte char = true) : ReadsAs (quoting.quote path) path := by
  rw [quoting.plain path fun char member => (pathByte_plain char (plain char member)).1]
  exact readsAs_double
    (readAll_double fun char member => (pathByte_plain char (plain char member)).2)

theorem toSlash_eq (plain : ∀ char ∈ temporaryPath, isPathByte char = true) :
    toSlash temporaryPath = temporaryPath := by
  unfold toSlash
  rw [map_congr_left (g := id), map_id]
  intro char member
  exact if_neg (pathByte_plain char (plain char member)).1.2.2.2

end Paths

variable {text : List UInt8}

section Lines

variable {shell : Shell} {path value key : List UInt8}

def lineText (indent : Nat) (text : List UInt8) : List UInt8 :=
  (List.replicate indent (ascii "  ")).flatten ++ text ++ ascii "\n"

theorem run_indentation (indent : Nat) :
    (between []).run (List.replicate indent (ascii "  ")).flatten = some (.between []) := by
  induction indent with
  | zero => rfl
  | succ indent ih =>
    have one : (between []).run (ascii "  ") = some (.between []) := by decide
    rw [replicate_succ, flatten_cons, run_append one]
    exact ih

theorem run_lineText {line : List Token} {command : Simple}
    (read : (between []).run (text ++ ascii "\n") = some (.between (line ++ [.newline])))
    (whole : Token.newline ∉ line) (noPipe : Token.pipe ∉ line)
    (parsed : simple line = some command) (indent : Nat) (shell : Shell) (rest : List UInt8) :
    shell.run (lineText indent text ++ rest) =
      (shell.perform command).bind fun next => next.run rest := by
  refine Shell.run_append ?_ whole noPipe parsed shell rest
  unfold lineText
  rw [append_assoc, run_append (run_indentation indent)]
  exact read

theorem separator_newline : separator .word newline = some [.newline] :=
  rfl

theorem run_mkdirLine (reads : ReadsAs text path)
    (absolute : rooted path = true) (indent : Nat) (shell : Shell) (rest : List UInt8) :
    shell.run (lineText indent (ascii "mkdir -p " ++ text) ++ rest) =
      ({ shell with files := (shell.files.makeDirectories [] (elements path)).1 } : Shell).run
        rest := by
  have before : (between []).run (ascii "mkdir -p ") =
      some (.between [.word (ascii "mkdir"), .word (ascii "-p")]) := by decide
  have read : (between []).run (ascii "mkdir -p " ++ text ++ ascii "\n") = some (.between
      ([.word (ascii "mkdir"), .word (ascii "-p"), .word path] ++ [.newline])) := by
    rw [append_assoc, run_append before]
    exact reads.run_separator separator_newline _ []
  have performed : shell.perform ⟨[ascii "mkdir", ascii "-p", path], none⟩ =
      some { shell with files := (shell.files.makeDirectories [] (elements path)).1 } := by
    have notExport : ascii "mkdir" ≠ ascii "export" := by decide
    simp only [Shell.perform, notExport, if_false, if_true, absolute, and_self]
  rw [run_lineText read (by simp) (by simp) rfl, performed, Option.bind_some]

theorem run_echoLine {escaped : List UInt8} (readsValue : ReadsAs escaped value)
    (readsPath : ReadsAs text path) (absolute : rooted path = true) (indent : Nat)
    (shell : Shell) (rest : List UInt8) :
    shell.run (lineText indent (ascii "echo -n " ++ escaped ++ ascii " > " ++ text) ++ rest) =
      ({ shell with
          files := (shell.files.write path (if isEchoOption value then [] else value)).getD
            shell.files } : Shell).run rest := by
  have before : (between []).run (ascii "echo -n ") =
      some (.between [.word (ascii "echo"), .word (ascii "-n")]) := by decide
  have redirected : ∀ tokens, (between tokens).run (ascii "> ") =
      some (.between (tokens ++ [.output])) := by
    intro tokens
    simp [run, step, ends, close, between, separator, ascii, byte, space, tab, newline]
  have read : (between []).run
      (ascii "echo -n " ++ escaped ++ ascii " > " ++ text ++ ascii "\n") = some (.between
        ([.word (ascii "echo"), .word (ascii "-n"), .word value, .output, .word path] ++
          [.newline])) := by
    have blank : separator .word space = some [] := rfl
    have spaced : ascii " > " = space :: ascii "> " := rfl
    rw [append_assoc, append_assoc, append_assoc, run_append before, spaced,
      cons_append, readsValue.run_separator blank, run_append (redirected _)]
    exact readsPath.run_separator separator_newline _ []
  have performed : shell.perform ⟨[ascii "echo", ascii "-n", value], some path⟩ = some { shell with
        files := (shell.files.write path (if isEchoOption value then [] else value)).getD
          shell.files } := by
    simp only [Shell.perform, if_true, echo_noNewline, Option.bind_some, Shell.redirect, absolute]
  rw [run_lineText read (by simp) (by simp) rfl, performed, Option.bind_some]

theorem run_exportLine {escaped : List UInt8} (identifier : isIdentifier key = true)
    (readsKey : ReadsAs escaped key) (readsValue : ReadsAs text value) (indent : Nat)
    (shell : Shell) (rest : List UInt8) :
    shell.run (lineText indent (ascii "export " ++ escaped ++ ascii "=" ++ text) ++ rest) =
      ({ shell with assigned := update shell.assigned key (some value) } : Shell).run rest := by
  have before : (between []).run (ascii "export ") =
      some (.between [.word (ascii "export")]) := by decide
  have equals : ReadsAs (ascii "=") (ascii "=") := ⟨by decide, by decide⟩
  have argument : ReadsAs (escaped ++ ascii "=" ++ text) (key ++ ascii "=" ++ value) :=
    (readsKey.append equals).append readsValue
  have read : (between []).run
      (ascii "export " ++ escaped ++ ascii "=" ++ text ++ ascii "\n") = some (.between
        ([.word (ascii "export"), .word (key ++ ascii "=" ++ value)] ++ [.newline])) := by
    have grouped : ascii "export " ++ escaped ++ ascii "=" ++ text ++ ascii "\n" =
        ascii "export " ++ ((escaped ++ ascii "=" ++ text) ++ ascii "\n") := by
      simp only [append_assoc]
    rw [grouped, run_append before]
    exact argument.run_separator separator_newline _ []
  obtain ⟨nonempty, plain⟩ := identifier_plain identifier
  have noEquals : byte '=' ∉ key := fun member => (plain _ member).2.1 rfl
  have assigned : shell.assign (key ++ ascii "=" ++ value) =
      some { shell with assigned := update shell.assigned key (some value) } := by
    rw [append_assoc]
    exact Shell.assign_eq shell identifier noEquals
  have noOption : isOption (key ++ ascii "=" ++ value) = false := by
    cases key with
    | nil => exact absurd rfl nonempty
    | cons first key =>
      have notDash := (plain first (by simp)).2.2.2.2
      cases key with
      | nil => simp [isOption, notDash, ascii]
      | cons second key => simp [isOption, notDash]
  have performed : shell.perform ⟨[ascii "export", key ++ ascii "=" ++ value], none⟩ =
      some { shell with assigned := update shell.assigned key (some value) } := by
    simp only [Shell.perform, if_true, any_cons, noOption, any_nil, Bool.or_self,
      Bool.false_eq_true, if_false, foldlM_cons, assigned]
    rfl
  rw [run_lineText read (by simp) (by simp) rfl, performed, Option.bind_some]

end Lines

/-- A variable whose lines bash can read. -/
structure Readable (entry : JobVariable) : Prop where
  key : isIdentifier entry.key = true
  value : 0 ∉ entry.value

def variableLines (quoting : Quoting) (writer : BashWriter) (entry : JobVariable) :
    List UInt8 :=
  let variableFile := writer.tmpFile entry.key
  if entry.file then
    lineText writer.indent (ascii "mkdir -p " ++ quoting.quote (toSlash writer.temporaryPath)) ++
      (lineText writer.indent (ascii "echo -n " ++ shellEscape entry.value ++ ascii " > " ++
        quoting.quote variableFile) ++
      lineText writer.indent (ascii "export " ++ shellEscape entry.key ++ ascii "=" ++
        quoting.quote variableFile))
  else
    lineText writer.indent
      (ascii "export " ++ shellEscape entry.key ++ ascii "=" ++ shellEscape entry.value)

theorem line_eq (writer : BashWriter) (text : List UInt8) :
    writer.line text = { writer with buffer := writer.buffer ++ lineText writer.indent text } := by
  simp [BashWriter.line, lineText]

theorem writeVariable_eq (quoting : Quoting) (writer : BashWriter) (entry : JobVariable) :
    writer.writeVariable quoting entry =
      { writer with buffer := writer.buffer ++ variableLines quoting writer entry } := by
  unfold BashWriter.writeVariable variableLines
  split <;> simp [line_eq]

theorem writeVariables_eq (quoting : Quoting) (writer : BashWriter) (entries : JobVariables) :
    writer.writeVariables quoting entries = { writer with
        buffer := writer.buffer ++ entries.flatMap (variableLines quoting writer) } := by
  unfold BashWriter.writeVariables
  induction entries generalizing writer with
  | nil => simp
  | cons entry entries ih =>
    rw [foldl_cons, writeVariable_eq, ih]
    simp only [flatMap_cons, append_assoc]
    rfl

variable {entries : JobVariables}

section Run

variable {writer : BashWriter} {entry : JobVariable}

theorem run_variableLines (quoting : Quoting) (absolute : rooted writer.temporaryPath = true)
    (plain : ∀ char ∈ writer.temporaryPath, isPathByte char = true) (readable : Readable entry)
    (shell : Shell) (rest : List UInt8) :
    shell.run (variableLines quoting writer entry ++ rest) =
      (receive writer.temporaryPath shell entry).run rest := by
  have keyBytes : 0 ∉ entry.key := by
    intro member
    exact absurd ((identifier_plain readable.key).2 0 member).1 (by decide)
  have readsKey := readsAs_shellEscape keyBytes
  have absoluteFile : rooted (join [writer.temporaryPath, entry.key]) = true := by
    rw [rooted_join (ne_nil_of_rooted absolute)]
    exact absolute
  have file : writer.tmpFile entry.key = join [writer.temporaryPath, entry.key] := by
    rw [BashWriter.tmpFile, BashWriter.absolute, if_pos absoluteFile]
  have readsFile := readsAs_quote quoting (tmpFile_pathByte absolute plain readable.key)
  unfold variableLines receive
  rw [file, toSlash_eq plain]
  split
  · rw [append_assoc, append_assoc, run_mkdirLine (readsAs_quote quoting plain) absolute,
      run_echoLine (readsAs_shellEscape readable.value) readsFile absoluteFile,
      run_exportLine readable.key readsKey readsFile]
  · rw [run_exportLine readable.key readsKey (readsAs_shellEscape readable.value)]

theorem run_variables (quoting : Quoting) (absolute : rooted writer.temporaryPath = true)
    (plain : ∀ char ∈ writer.temporaryPath, isPathByte char = true)
    (readable : ∀ entry ∈ entries, Readable entry) (shell : Shell) :
    shell.run (entries.flatMap (variableLines quoting writer)) =
      some (entries.foldl (receive writer.temporaryPath) shell) := by
  induction entries generalizing shell with
  | nil => rfl
  | cons entry entries ih =>
    rw [flatMap_cons, run_variableLines quoting absolute plain (readable entry (by simp)),
      foldl_cons]
    exact ih (fun other member => readable other (by simp [member])) _

end Run

def SameDirectories (made files : Files) : Prop :=
  ∀ location, files location = some .directory ↔ made location = some .directory

variable {files : Files}

section Receive

variable {temporaryPath : List UInt8} {start made : Files} {shell : Shell} {entry : JobVariable}

theorem own_receive (shell : Shell) (entry : JobVariable) :
    (receive temporaryPath shell entry).own = shell.own := by
  unfold receive
  split <;> rfl

theorem files_receive_value (isValue : entry.file = false) (shell : Shell) :
    (receive temporaryPath shell entry).files = shell.files := by
  simp [receive, isValue]

def exportedText (temporaryPath : List UInt8) (entry : JobVariable) : List UInt8 :=
  if entry.file then join [temporaryPath, entry.key] else entry.value

theorem assigned_receive (shell : Shell) (entry : JobVariable) :
    (receive temporaryPath shell entry).assigned =
      update shell.assigned entry.key (some (exportedText temporaryPath entry)) := by
  unfold receive exportedText
  split <;> rfl

/-- The directories are made at the first file, and are there at the next ones. -/
theorem makeDirectories_of_started
    (creates : start.makeDirectories [] (elements temporaryPath) = (made, true))
    (started : shell.files = start ∨ SameDirectories made shell.files) :
    SameDirectories made (shell.files.makeDirectories [] (elements temporaryPath)).1 ∧
      (SameDirectories made shell.files →
        (shell.files.makeDirectories [] (elements temporaryPath)).1 = shell.files) := by
  have again : SameDirectories made shell.files →
      shell.files.makeDirectories [] (elements temporaryPath) = (shell.files, true) := by
    intro same
    exact makeDirectories_again creates fun location => (same location).mpr
  refine ⟨?_, fun same => by rw [again same]⟩
  rcases started with first | same
  · rw [first, creates]
    exact fun _ => Iff.rfl
  · rw [again same]
    exact same

theorem SameDirectories.reached {here : List (List UInt8)}
    (same : SameDirectories made files) (reached : made.Reached here) : files.Reached here :=
  reached.mono fun location => (same location).mpr

theorem reached_place (absolute : rooted temporaryPath = true)
    (creates : start.makeDirectories [] (elements temporaryPath) = (made, true)) :
    made.Reached (place temporaryPath) := by
  have root : start.Reached [] := by
    intro location inside
    rw [suffix_nil.mp inside]
    rfl
  rw [place, absolute]
  exact makeDirectories_reached (by simp) root creates

theorem target_tmpFile {key : List UInt8}
    (absolute : rooted temporaryPath = true) (identifier : isIdentifier key = true)
    (reached : files.Reached (place temporaryPath)) :
    files.target (join [temporaryPath, key]) = some (key :: place temporaryPath) := by
  obtain ⟨proper, isName⟩ := isElement_identifier identifier
  rw [tmpFile_eq absolute identifier]
  refine target_assemble ?_ ?_ reached
  · intro element member
    rcases mem_cons.mp member with rfl | outer
    · exact proper
    · exact isElement_place outer
  · rw [mem_cons, not_or]
    exact ⟨Ne.symm isName, parent_not_mem_place absolute⟩

theorem SameDirectories.put {location : List (List UInt8)}
    {contents : List UInt8} (same : SameDirectories made files)
    (free : made location ≠ some .directory) :
    SameDirectories made (files.put location (.file contents)) := by
  intro other
  by_cases here : other = location
  · subst here
    rw [put_self]
    simp [free]
  · rw [put_ne here]
    exact same other

section

variable (absolute : rooted temporaryPath = true)

include absolute

theorem files_receive (creates : start.makeDirectories [] (elements temporaryPath) = (made, true))
    (readable : Readable entry) (isFile : entry.file = true)
    (started : shell.files = start ∨ SameDirectories made shell.files) :
    SameDirectories made (receive temporaryPath shell entry).files ∧
    (∀ location, location ≠ entry.key :: place temporaryPath → SameDirectories made shell.files →
      (receive temporaryPath shell entry).files location = shell.files location) ∧
    (receive temporaryPath shell entry).files (entry.key :: place temporaryPath) =
      if made (entry.key :: place temporaryPath) = some .directory then some .directory
      else some (.file (if isEchoOption entry.value then [] else entry.value)) := by
  obtain ⟨same, unchanged⟩ := makeDirectories_of_started creates started
  have leads := target_tmpFile absolute readable.key (same.reached (reached_place absolute creates))
  simp only [receive, isFile, if_true, write, leads, Option.bind_some]
  by_cases occupied : made (entry.key :: place temporaryPath) = some .directory
  · have blocked := (same _).mpr occupied
    rw [if_pos blocked, if_pos occupied, Option.getD_none]
    refine ⟨same, ?_, blocked⟩
    intro location _ already
    rw [unchanged already]
  · have free : (shell.files.makeDirectories [] (elements temporaryPath)).1
        (entry.key :: place temporaryPath) ≠ some .directory :=
      fun blocked => occupied ((same _).mp blocked)
    rw [if_neg free, if_neg occupied, Option.getD_some]
    refine ⟨same.put occupied, ?_, put_self⟩
    intro location different already
    rw [put_ne different, unchanged already]

theorem receive_others (creates : start.makeDirectories [] (elements temporaryPath) = (made, true))
    {key : List UInt8} (readable : ∀ entry ∈ entries, Readable entry)
    (others : ∀ entry ∈ entries, entry.key ≠ key) (shell : Shell) :
    (entries.foldl (receive temporaryPath) shell).assigned key = shell.assigned key ∧
    (SameDirectories made shell.files →
      SameDirectories made (entries.foldl (receive temporaryPath) shell).files ∧
      (entries.foldl (receive temporaryPath) shell).files (key :: place temporaryPath) =
        shell.files (key :: place temporaryPath)) := by
  induction entries generalizing shell with
  | nil => exact ⟨rfl, fun same => ⟨same, rfl⟩⟩
  | cons entry entries ih =>
    have different := others entry (by simp)
    obtain ⟨assigned, files⟩ := ih (fun other member => readable other (by simp [member]))
      (fun other member => others other (by simp [member])) (receive temporaryPath shell entry)
    rw [foldl_cons, assigned, assigned_receive, update_of_ne different.symm]
    refine ⟨rfl, ?_⟩
    intro same
    cases isFile : entry.file with
    | false =>
      rw [files_receive_value isFile] at files
      exact files same
    | true =>
      obtain ⟨still, elsewhere, -⟩ := files_receive absolute creates
        (readable entry (by simp)) isFile (.inr same)
      obtain ⟨last, found⟩ := files still
      refine ⟨last, found.trans (elsewhere _ ?_ same)⟩
      intro equal
      exact different (List.cons.inj equal).1.symm

/-- Before a variable, the directories are untouched or have been made. -/
theorem started_foldl (creates : start.makeDirectories [] (elements temporaryPath) = (made, true))
    (readable : ∀ entry ∈ entries, Readable entry)
    (started : shell.files = start ∨ SameDirectories made shell.files) :
    (entries.foldl (receive temporaryPath) shell).files = start ∨
      SameDirectories made (entries.foldl (receive temporaryPath) shell).files := by
  induction entries generalizing shell with
  | nil => exact started
  | cons entry entries ih =>
    rw [foldl_cons]
    apply ih (fun other member => readable other (by simp [member]))
    cases isFile : entry.file with
    | false =>
      rw [files_receive_value isFile]
      exact started
    | true =>
      exact .inr (files_receive absolute creates (readable entry (by simp)) isFile started).1

end

theorem own_foldl (entries : JobVariables) (shell : Shell) :
    (entries.foldl (receive temporaryPath) shell).own = shell.own := by
  induction entries generalizing shell with
  | nil => rfl
  | cons entry entries ih => rw [foldl_cons, ih, own_receive]

end Receive

def IsLast (entries : JobVariables) (entry : JobVariable) : Prop :=
  ∃ front back, entries = front ++ entry :: back ∧ ∀ other ∈ back, other.key ≠ entry.key

/-- A variable is exported with its value, or with the path of a file that has it. -/
def Arrives (shell : Shell) (entry : JobVariable) : Prop :=
  if entry.file then
    ∃ path, shell.exported entry.key = some path ∧ shell.files.read path = some entry.value
  else shell.exported entry.key = some entry.value

theorem read_tmpFile {temporaryPath : List UInt8} {made : Files} {entry : JobVariable}
    (absolute : rooted temporaryPath = true) (readable : Readable entry)
    (reached : files.Reached (place temporaryPath))
    (found : files (entry.key :: place temporaryPath) =
      if made (entry.key :: place temporaryPath) = some .directory then some .directory
      else some (.file (if isEchoOption entry.value then [] else entry.value))) :
    files.read (join [temporaryPath, entry.key]) = some entry.value ↔
      isEchoOption entry.value = false ∧
        made (entry.key :: place temporaryPath) ≠ some .directory := by
  simp only [Files.read, target_tmpFile absolute readable.key reached, Option.bind_some, found]
  by_cases occupied : made (entry.key :: place temporaryPath) = some .directory
  · simp [occupied]
  · cases option : isEchoOption entry.value with
    | false => simp [occupied]
    | true =>
      have nonempty : entry.value ≠ [] := by
        intro empty
        rw [empty] at option
        cases option
      simp [occupied, nonempty.symm]

/-- A variable that is the last one under its name, after the lines of all variables. -/
theorem arrives_foldl_iff {temporaryPath : List UInt8} {shell : Shell} {made : Files}
    {entry : JobVariable} (absolute : rooted temporaryPath = true)
    (creates : shell.files.makeDirectories [] (elements temporaryPath) = (made, true))
    (readable : ∀ entry ∈ entries, Readable entry) (isLast : IsLast entries entry) :
    Arrives (entries.foldl (receive temporaryPath) shell) entry ↔
      shell.own entry.key = false ∧ (entry.file = true → isEchoOption entry.value = false ∧
        made (entry.key :: place temporaryPath) ≠ some .directory) := by
  obtain ⟨front, back, rfl, others⟩ := isLast
  have readableEntry := readable entry (by simp)
  have readableBack : ∀ other ∈ back, Readable other :=
    fun other member => readable other (by simp [member])
  have started := started_foldl absolute creates
    (fun other member => readable other (mem_append_left _ member)) (.inl rfl)
  have own : ((front ++ entry :: back).foldl (receive temporaryPath) shell).own = shell.own :=
    own_foldl _ shell
  rw [foldl_append, foldl_cons] at own ⊢
  generalize front.foldl (receive temporaryPath) shell = before at started own ⊢
  obtain ⟨assigned, files⟩ := receive_others absolute creates readableBack others
    (receive temporaryPath before entry)
  rw [assigned_receive, update_self] at assigned
  generalize back.foldl (receive temporaryPath) (receive temporaryPath before entry) = last
    at assigned files own ⊢
  have exported : last.exported entry.key =
      if shell.own entry.key then none else some (exportedText temporaryPath entry) := by
    rw [Shell.exported, own, assigned]
  unfold Arrives
  rw [exported]
  cases isOwn : shell.own entry.key with
  | true => simp
  | false =>
    cases isFile : entry.file with
    | false => simp [exportedText, isFile]
    | true =>
      obtain ⟨same, -, written⟩ := files_receive absolute creates readableEntry isFile started
      obtain ⟨sameLast, kept⟩ := files same
      have contents := read_tmpFile absolute readableEntry
        (sameLast.reached (reached_place absolute creates)) (kept.trans written)
      simpa [exportedText, isFile] using contents

/-- Run by bash, the lines of the variables leave every variable with its last value: exported
with it, or with the path of a file that has it.  This holds exactly for the variables that
bash does not keep for itself, and for a file, if `echo` does not take the value for options
and making the temporary directory leaves the name to the file. -/
theorem variables_arrive_iff (quoting : Quoting) {temporaryPath : List UInt8} {shell : Shell}
    {made : Files} {entries : JobVariables} (absolute : rooted temporaryPath = true)
    (plain : ∀ char ∈ temporaryPath, isPathByte char = true)
    (creates : shell.files.makeDirectories [] (elements temporaryPath) = (made, true))
    (readable : ∀ entry ∈ entries, Readable entry) (indent : Nat) :
    ∃ last, shell.run
        (BashWriter.writeVariables quoting ⟨[], temporaryPath, indent⟩ entries).buffer = some last ∧
      ∀ entry, IsLast entries entry →
        (Arrives last entry ↔ shell.own entry.key = false ∧
          (entry.file = true → isEchoOption entry.value = false ∧
            made (entry.key :: place temporaryPath) ≠ some .directory)) := by
  refine ⟨entries.foldl (receive temporaryPath) shell, ?_, ?_⟩
  · rw [writeVariables_eq]
    exact run_variables quoting absolute plain readable shell
  · intro entry isLast
    exact arrives_foldl_iff absolute creates readable isLast

def alwaysQuoted : Quoting where
  quote text := doubleQuote :: text ++ [doubleQuote]
  plain _ _ := rfl

def emptyShell : Shell where
  own _ := false
  assigned _ := none
  files _ := none

def sampleVariable (key value : String) (file : Bool) : JobVariable where
  key := ascii key
  value := ascii value
  isPublic := false
  internal := false
  file := file
  masked := false

def samplePath : List UInt8 := ascii "/builds/project.tmp"

theorem samplePath_plain : ∀ char ∈ samplePath, isPathByte char = true :=
  all_eq_true.mp (by decide)

theorem samplePath_creates : emptyShell.files.makeDirectories [] (elements samplePath) =
    ((emptyShell.files.makeDirectories [] (elements samplePath)).1, true) :=
  Prod.ext rfl (by decide)

theorem variables_arrive_sample :
    ∃ last, emptyShell.run (BashWriter.writeVariables alwaysQuoted ⟨[], samplePath, 0⟩
        [sampleVariable "CA" "-n" false, sampleVariable "key" "it's" true]).buffer = some last ∧
      Arrives last (sampleVariable "CA" "-n" false) ∧
      Arrives last (sampleVariable "key" "it's" true) := by
  have readable : ∀ entry ∈ [sampleVariable "CA" "-n" false, sampleVariable "key" "it's" true],
      Readable entry := by
    intro entry member
    simp only [mem_cons, not_mem_nil, or_false] at member
    rcases member with rfl | rfl
    · exact ⟨by decide, by decide⟩
    · exact ⟨by decide, by decide⟩
  obtain ⟨last, reached, arrives⟩ := variables_arrive_iff alwaysQuoted (by decide)
    samplePath_plain samplePath_creates readable 0
  refine ⟨last, reached, ?_, ?_⟩
  · exact (arrives _ ⟨[], [sampleVariable "key" "it's" true], rfl, by decide⟩).mpr
      ⟨rfl, nofun⟩
  · exact (arrives _ ⟨[sampleVariable "CA" "-n" false], [], rfl, nofun⟩).mpr
      ⟨rfl, fun _ => ⟨by decide, by decide⟩⟩

/-- A value that `echo` takes for its options does not arrive in its file. -/
theorem file_value_taken_for_options :
    ¬∀ (quoting : Quoting) (temporaryPath : List UInt8) (shell : Shell) (entries : JobVariables),
      rooted temporaryPath = true → (∀ char ∈ temporaryPath, isPathByte char = true) →
      (shell.files.makeDirectories [] (elements temporaryPath)).2 = true →
      (∀ entry ∈ entries, Readable entry) →
      ∃ last, shell.run (BashWriter.writeVariables quoting ⟨[], temporaryPath, 0⟩ entries).buffer =
          some last ∧ ∀ entry, IsLast entries entry → Arrives last entry := by
  intro arrives
  have readable : ∀ entry ∈ [sampleVariable "TOKEN" "-n" true], Readable entry := by
    intro entry member
    rw [mem_singleton.mp member]
    exact ⟨by decide, by decide⟩
  have isLast : IsLast [sampleVariable "TOKEN" "-n" true] (sampleVariable "TOKEN" "-n" true) :=
    ⟨[], [], rfl, nofun⟩
  obtain ⟨last, reached, all⟩ := arrives alwaysQuoted samplePath emptyShell
    [sampleVariable "TOKEN" "-n" true] (by decide) samplePath_plain (by decide) readable
  rw [writeVariables_eq, nil_append,
    run_variables alwaysQuoted (by decide) samplePath_plain readable, Option.some.injEq] at reached
  subst reached
  have holds := (arrives_foldl_iff (by decide) samplePath_creates readable isLast).mp (all _ isLast)
  exact absurd (holds.2 rfl).1 (by decide)

end GitlabRunner.Shells
