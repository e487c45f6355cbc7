import GitlabRunner.BashWords
import GitlabRunner.SlashPaths

/-!
# Commands of bash

`eval`, `echo`, `export` and `mkdir -p` as the manual of bash and the standard utilities
describe them, the redirection of their output to a file, and the files that they work
on: a tree of directories and files without symbolic links.  What is not represented
(other commands, relative paths, the escapes of `echo -e`) has no result, and a command
that fails changes nothing further.  The file names nothing of the runner.
-/

namespace GitlabRunner.Bash

open ByteText SlashPaths List Function

/-- A builtin that has no options takes an argument that begins with a dash for one. -/
def isOption : List UInt8 → Bool
  | first :: _ :: _ => first = dash
  | _ => false

/-- The text that `eval` evaluates, unless it rejects an option. -/
def evalText : List (List UInt8) → Option (List UInt8)
  | [] => some []
  | first :: rest =>
    if first = [dash, dash] then some ([space].intercalate rest)
    else if isOption first then none
    else some ([space].intercalate (first :: rest))

def Simple.evaluates (command : Simple) : List (List UInt8) :=
  match command.words with
  | [] => []
  | name :: arguments => if name = ascii "eval" then (evalText arguments).toList else []

def evaluated (script : List UInt8) : Option (List (List UInt8)) :=
  (lines script).map fun lines => lines.flatten.flatMap Simple.evaluates

structure EchoOptions where
  newline : Bool
  escapes : Bool
  deriving DecidableEq, Repr

/-- `echo` takes a word for options if it is a dash and letters of its options. -/
def isEchoOption : List UInt8 → Bool
  | [] => false
  | first :: letters => first = dash && !letters.isEmpty && letters.all (ascii "neE").contains

def EchoOptions.letter (options : EchoOptions) (letter : UInt8) : EchoOptions :=
  if letter = byte 'n' then { options with newline := false }
  else if letter = byte 'e' then { options with escapes := true }
  else { options with escapes := false }

def EchoOptions.read : EchoOptions → List (List UInt8) → EchoOptions × List (List UInt8)
  | options, [] => (options, [])
  | options, word :: words =>
    if isEchoOption word then (word.tail.foldl EchoOptions.letter options).read words
    else (options, word :: words)

def echo (arguments : List (List UInt8)) : Option (List UInt8) :=
  let (options, texts) := EchoOptions.read ⟨true, false⟩ arguments
  if options.escapes ∧ texts.any (fun text => text.contains backslash) then none
  else some ([space].intercalate texts ++ if options.newline then [newline] else [])

inductive Node where
  | directory
  | file (contents : List UInt8)
  deriving DecidableEq, Repr

/-- The nodes by their location, innermost name first.  The root is a directory. -/
abbrev Files : Type := List (List UInt8) → Option Node

namespace Files

def isDirectory (files : Files) (location : List (List UInt8)) : Bool :=
  location = [] ∨ files location = some .directory

def put (files : Files) (location : List (List UInt8)) (node : Node) : Files :=
  update files location (some node)

/-- The directories on the way along the elements of a path are made unless they are
there, up to a file that is in the way. -/
def makeDirectories (files : Files) (here : List (List UInt8)) :
    List (List UInt8) → Files × Bool
  | [] => (files, true)
  | name :: rest =>
    if name = parent then files.makeDirectories here.tail rest
    else
      match files (name :: here) with
      | none => (files.put (name :: here) .directory).makeDirectories (name :: here) rest
      | some .directory => files.makeDirectories (name :: here) rest
      | some (.file _) => (files, false)

def locate (files : Files) (here : List (List UInt8)) :
    List (List UInt8) → Option (List (List UInt8))
  | [] => some here
  | name :: rest =>
    if name = parent then files.locate here.tail rest
    else if files.isDirectory (name :: here) then files.locate (name :: here) rest
    else none

def target (files : Files) (path : List UInt8) : Option (List (List UInt8)) :=
  match (parts path).reverse with
  | [] => none
  | last :: front =>
    if last = [dot] ∨ last = parent ∨ path.getLast? = some slash then none
    else (files.locate [] (namesOf front.reverse)).map fun outer => last :: outer

/-- The file of a path with new contents, unless it cannot be opened. -/
def write (files : Files) (path contents : List UInt8) : Option Files :=
  (files.target path).bind fun location =>
    if files location = some .directory then none
    else some (files.put location (.file contents))

def read (files : Files) (path : List UInt8) : Option (List UInt8) :=
  (files.target path).bind fun location =>
    match files location with
    | some (.file contents) => some contents
    | _ => none

end Files

/-- The state of a shell: the values that variables were given when they were exported, and
the files.  `own` are the variables that bash itself sets or protects, such as `RANDOM` and
`UID`: what they are given is not their value. -/
structure Shell where
  own : List UInt8 → Bool
  assigned : List UInt8 → Option (List UInt8)
  files : Files

def Shell.exported (shell : Shell) (name : List UInt8) : Option (List UInt8) :=
  if shell.own name then none else shell.assigned name

def isLetter (char : UInt8) : Bool :=
  (byte 'a' ≤ char && char ≤ byte 'z') || (byte 'A' ≤ char && char ≤ byte 'Z') ||
    char = byte '_'

def isIdentifier : List UInt8 → Bool
  | [] => false
  | first :: rest =>
    isLetter first && rest.all fun char => isLetter char || (byte '0' ≤ char && char ≤ byte '9')

def Shell.assign (shell : Shell) (argument : List UInt8) : Option Shell :=
  let name := argument.takeWhile (· ≠ byte '=')
  match argument.dropWhile (· ≠ byte '=') with
  | [] => none
  | _ :: value =>
    if isIdentifier name then
      some { shell with assigned := update shell.assigned name (some value) }
    else some shell

/-- The redirected output of a command; a file that cannot be opened is not written. -/
def Shell.redirect (shell : Shell) (path contents : List UInt8) : Option Shell :=
  if rooted path then
    some { shell with files := (shell.files.write path contents).getD shell.files }
  else none

def Shell.perform (shell : Shell) (command : Simple) : Option Shell :=
  match command.words, command.output with
  | name :: arguments, none =>
    if name = ascii "export" then
      if arguments.any isOption then none else arguments.foldlM Shell.assign shell
    else if name = ascii "mkdir" then
      match arguments with
      | [option, path] =>
        if option = ascii "-p" ∧ rooted path then
          some { shell with files := (shell.files.makeDirectories [] (elements path)).1 }
        else none
      | _ => none
    else if name = ascii "echo" then (echo arguments).map fun _ => shell
    else none
  | name :: arguments, some path =>
    if name = ascii "echo" then (echo arguments).bind (shell.redirect path) else none
  | [], _ => none

def Shell.performLine (shell : Shell) : List Simple → Option Shell
  | [] => some shell
  | [command] => shell.perform command
  | _ => none

def Shell.run (shell : Shell) (script : List UInt8) : Option Shell :=
  (lines script).bind fun lines => lines.foldlM Shell.performLine shell

theorem EchoOptions.newline_letters (letters : List UInt8) {options : EchoOptions}
    (off : options.newline = false) :
    (letters.foldl EchoOptions.letter options).newline = false := by
  induction letters generalizing options with
  | nil => exact off
  | cons first letters ih =>
    apply ih
    unfold EchoOptions.letter
    split_ifs <;> first | rfl | exact off

/-- `echo -n` with one more word prints it, unless it takes it for options. -/
theorem echo_noNewline (value : List UInt8) :
    echo [ascii "-n", value] = some (if isEchoOption value then [] else value) := by
  have first : EchoOptions.read ⟨true, false⟩ [ascii "-n", value] =
      EchoOptions.read ⟨false, false⟩ [value] := rfl
  unfold echo
  rw [first]
  cases option : isEchoOption value with
  | true =>
    have off := EchoOptions.newline_letters value.tail
      (show EchoOptions.newline ⟨false, false⟩ = false from rfl)
    simp [EchoOptions.read, option, off]
  | false => simp [EchoOptions.read, option, List.intercalate]

variable {name : List UInt8}

namespace Files

variable {files made later : Files} {here location : List (List UInt8)} {node : Node}

theorem put_self : files.put location node location = some node :=
  update_self ..

theorem put_ne {other : List (List UInt8)} (different : other ≠ location) :
    files.put location node other = files other :=
  update_of_ne different ..

def Reached (files : Files) (here : List (List UInt8)) : Prop :=
  ∀ location, location <:+ here → files.isDirectory location = true

theorem Reached.tail (reached : files.Reached here) : files.Reached here.tail :=
  fun location inside => reached location (inside.trans (tail_suffix here))

theorem Reached.cons (reached : files.Reached here)
    (entered : files (name :: here) = some .directory) : files.Reached (name :: here) := by
  intro location inside
  rcases suffix_cons_iff.mp inside with rfl | above
  · simp [isDirectory, entered]
  · exact reached location above

theorem isDirectory_mono
    (kept : ∀ location, files location = some .directory → later location = some .directory)
    (isDirectory : files.isDirectory location = true) : later.isDirectory location = true := by
  simp only [Files.isDirectory, decide_eq_true_eq] at isDirectory ⊢
  exact isDirectory.imp_right (kept location)

theorem Reached.mono (reached : files.Reached here)
    (kept : ∀ location, files location = some .directory → later location = some .directory) :
    later.Reached here :=
  fun location inside => isDirectory_mono kept (reached location inside)

theorem makeDirectories_keeps (path : List (List UInt8)) (found : files location = some node) :
    (files.makeDirectories here path).1 location = some node := by
  induction path generalizing files here with
  | nil => exact found
  | cons name path ih =>
    unfold makeDirectories
    split
    · exact ih found
    · split
      · rename_i absent
        apply ih
        have different : location ≠ name :: here := by
          rintro rfl
          rw [absent] at found
          cases found
        rw [put_ne different]
        exact found
      · exact ih found
      · exact found

variable {path : List (List UInt8)}

theorem makeDirectories_reached (names : parent ∉ here)
    (reached : files.Reached here) (succeeds : files.makeDirectories here path = (made, true)) :
    made.Reached (walk true here path) := by
  induction path generalizing files here with
  | nil =>
    cases succeeds
    exact reached
  | cons name path ih =>
    unfold makeDirectories at succeeds
    rw [walk, foldl_cons]
    split at succeeds
    · rename_i up
      have above : follow true here name = here.tail := by
        cases here with
        | nil => simp [follow, ascend, up]
        | cons innermost outer =>
          have isName : innermost ≠ parent := fun same => names (by simp [same])
          simp [follow, ascend, up, isName]
      rw [above]
      exact ih (fun member => names (mem_of_mem_tail member)) reached.tail succeeds
    · rename_i isName
      have inside : follow true here name = name :: here := follow_name isName true here
      rw [inside]
      have noParent : parent ∉ name :: here := by
        rw [mem_cons, not_or]
        exact ⟨Ne.symm isName, names⟩
      split at succeeds
      · refine ih noParent ?_ succeeds
        have kept : ∀ location, files location = some .directory →
            files.put (name :: here) .directory location = some .directory := by
          intro location isDirectory
          by_cases same : location = name :: here
          · rw [same, put_self]
          · rw [put_ne same]
            exact isDirectory
        exact (reached.mono kept).cons put_self
      · rename_i present
        exact ih noParent (reached.cons present) succeeds
      · cases succeeds

theorem makeDirectories_again (succeeds : files.makeDirectories here path = (made, true))
    (kept : ∀ location, made location = some .directory → later location = some .directory) :
    later.makeDirectories here path = (later, true) := by
  induction path generalizing files here with
  | nil => rfl
  | cons name path ih =>
    unfold makeDirectories at succeeds ⊢
    split at succeeds
    · rename_i up
      rw [if_pos up]
      exact ih succeeds
    · rename_i isName
      rw [if_neg isName]
      have present : ∀ between : Files, between (name :: here) = some .directory →
          between.makeDirectories (name :: here) path = (made, true) →
          later (name :: here) = some .directory := by
        intro between isDirectory continued
        apply kept
        have still : (between.makeDirectories (name :: here) path).1 (name :: here) =
            some .directory := makeDirectories_keeps path isDirectory
        rw [continued] at still
        exact still
      split at succeeds
      · rw [present _ put_self succeeds]
        exact ih succeeds
      · rename_i isDirectory
        rw [present _ isDirectory succeeds]
        exact ih succeeds
      · cases succeeds

theorem locate_names (names : parent ∉ path) (reached : files.Reached (path.reverse ++ here)) :
    files.locate here path = some (path.reverse ++ here) := by
  induction path generalizing here with
  | nil => rfl
  | cons name path ih =>
    rw [mem_cons, not_or] at names
    rw [reverse_cons, append_assoc, singleton_append] at reached ⊢
    have entered : files.isDirectory (name :: here) = true :=
      reached _ (suffix_append path.reverse (name :: here))
    rw [locate, if_neg (Ne.symm names.1), if_pos entered]
    exact ih names.2 reached

theorem exists_intercalate_concat (path : List (List UInt8)) (last : List UInt8) :
    ∃ front, [slash].intercalate (path ++ [last]) = front ++ last := by
  induction path with
  | nil => exact ⟨[], by simp [List.intercalate]⟩
  | cons first path ih =>
    obtain ⟨front, same⟩ := ih
    cases path with
    | nil => exact ⟨first ++ [slash], by simp [List.intercalate]⟩
    | cons second path =>
      refine ⟨first ++ slash :: front, ?_⟩
      rw [cons_append, cons_append, slashed_cons_cons]
      rw [cons_append] at same
      rw [same]
      simp

theorem target_assemble {outer : List (List UInt8)}
    (proper : ∀ element ∈ name :: outer, IsElement element) (names : parent ∉ name :: outer)
    (reached : files.Reached outer) :
    files.target (assemble true (name :: outer).reverse) = some (name :: outer) := by
  have whole : parts (assemble true (name :: outer).reverse) = (name :: outer).reverse :=
    parts_assemble (fun element member => proper element (mem_reverse.mp member)) (.inl rfl)
  have isName := proper name (by simp)
  rw [mem_cons, not_or] at names
  have noSlash : (assemble true (name :: outer).reverse).getLast? ≠ some slash := by
    obtain ⟨front, same⟩ := exists_intercalate_concat outer.reverse name
    intro last
    rw [reverse_cons, assemble, if_pos rfl, same, ← cons_append,
      List.getLast?_append_of_ne_nil _ isName.nonempty] at last
    exact isName.noSlash (mem_of_getLast? last)
  have dotless : namesOf outer.reverse = outer.reverse := by
    apply filter_eq_self.mpr
    intro element member
    simpa using (proper element (by simp [mem_reverse.mp member])).notDot
  have located : files.locate [] outer.reverse = some outer := by
    have found := @locate_names files [] outer.reverse
      (fun member => names.2 (mem_reverse.mp member)) (by simpa using reached)
    simpa using found
  rw [target, whole, reverse_reverse]
  simp only [isName.notDot, Ne.symm names.1, noSlash, or_false, if_false, dotless, located,
    Option.map_some]

end Files

theorem Shell.run_append {line : List Token} {command : Simple} {front : List UInt8}
    (read : (Reader.between []).run front = some (.between (line ++ [.newline])))
    (whole : Token.newline ∉ line) (noPipe : Token.pipe ∉ line)
    (parsed : simple line = some command) (shell : Shell) (rest : List UInt8) :
    shell.run (front ++ rest) = (shell.perform command).bind fun next => next.run rest := by
  unfold Shell.run
  rw [lines_append read whole (pipeline_simple noPipe parsed)]
  cases lines rest with
  | none =>
    cases shell.perform command with
    | none => rfl
    | some next => rfl
  | some more => rfl

theorem Shell.assign_eq {value : List UInt8} (shell : Shell)
    (identifier : isIdentifier name = true) (noEquals : byte '=' ∉ name) :
    shell.assign (name ++ byte '=' :: value) =
      some { shell with assigned := update shell.assigned name (some value) } := by
  have name_ne : ∀ char ∈ name, decide (char ≠ byte '=') = true := by
    intro char member
    refine decide_eq_true ?_
    rintro rfl
    exact noEquals member
  have taken : (name ++ byte '=' :: value).takeWhile (· ≠ byte '=') = name := by
    rw [takeWhile_append_of_pos name_ne]
    simp
  have dropped : (name ++ byte '=' :: value).dropWhile (· ≠ byte '=') = byte '=' :: value := by
    rw [dropWhile_append_of_pos name_ne]
    simp
  simp only [Shell.assign, taken, dropped, identifier, if_true]

/-- A name of a variable has no byte that means anything to the shell or to a path. -/
theorem identifier_plain (identifier : isIdentifier name = true) :
    name ≠ [] ∧ ∀ char ∈ name, ordinary char = true ∧ char ≠ byte '=' ∧ char ≠ slash ∧
      char ≠ dot ∧ char ≠ dash := by
  have letters : ∀ char, (isLetter char || (byte '0' ≤ char && char ≤ byte '9')) = true →
      ordinary char = true ∧ char ≠ byte '=' ∧ char ≠ slash ∧ char ≠ dot ∧ char ≠ dash :=
    forall_byte (by decide +kernel)
  cases name with
  | nil => cases identifier
  | cons first rest =>
    rw [isIdentifier, Bool.and_eq_true, all_eq_true] at identifier
    refine ⟨by simp, ?_⟩
    intro char member
    rcases mem_cons.mp member with rfl | later
    · exact letters char (by rw [identifier.1, Bool.true_or])
    · exact letters char (identifier.2 char later)

end GitlabRunner.Bash
