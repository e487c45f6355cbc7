import Mathlib.Data.List.Basic

/-!
# Literals and assignments of PowerShell

The part of PowerShell that reads an expandable string and the assignments of variables,
on characters.  Inside an expandable string a backtick escapes the next character, two
double quotes stand for one, and the typographic double quotes count as double quotes.
A dollar sign starts an expansion, so that the text is not a literal.  The file names
nothing of the runner.
-/

namespace GitlabRunner.PowerShell

open List Option

def isTypographic (char : Char) : Bool :=
  ['“', '”', '„'].contains char

def isDoubleQuote (char : Char) : Bool :=
  char == '"' || isTypographic char

/-- The character that is meant by a backtick and the character behind it. -/
def unescape : Char → Char
  | '0' => '\x00'
  | 'a' => '\x07'
  | 'b' => '\x08'
  | 'f' => '\x0c'
  | 'n' => '\n'
  | 'r' => '\r'
  | 't' => '\t'
  | 'v' => '\x0b'
  | char => char

/-- The value of an expandable string from behind its opening quote, and what follows its
closing quote. -/
def stringBody : List Char → Option (List Char × List Char)
  | [] => none
  | char :: rest =>
    if isDoubleQuote char then
      match rest with
      | [] => some ([], [])
      | next :: behind =>
        if isDoubleQuote next then (stringBody behind).map (Prod.map (next :: ·) id)
        else some ([], next :: behind)
    else if char = '$' then none
    else if char = '\x60' then
      match rest with
      | [] => none
      | next :: behind => (stringBody behind).map (Prod.map (unescape next :: ·) id)
    else (stringBody rest).map (Prod.map (char :: ·) id)

def expandableString : List Char → Option (List Char × List Char)
  | [] => none
  | char :: rest => if isDoubleQuote char then stringBody rest else none

def isNameChar (char : Char) : Bool :=
  char.isAlphanum || char == '_'

def expect (token text : List Char) : Option (List Char) :=
  if token.isPrefixOf text then some (text.drop token.length) else none

def takeName (text : List Char) : Option (List Char × List Char) :=
  let name := text.takeWhile isNameChar
  if name = [] then none else some (name, text.dropWhile isNameChar)

structure Session where
  readOnly : List Char → Bool
  assigned : List Char → Option (List Char)
  environment : List Char → Option (List Char)

def Session.assign (session : Session) (name value : List Char) : Option Session :=
  if session.readOnly name then none
  else some { session with assigned := Function.update session.assigned name (some value) }

/-- `$env:name=value`.  A value ends at a NUL, and an empty value removes the entry. -/
def Session.assignEnvironment (session : Session) (name value : List Char) : Session :=
  let kept := value.takeWhile (· != '\x00')
  { session with
    environment := Function.update session.environment name
      (if kept = [] then none else some kept) }

/-- Reads and runs a line that assigns a string to a variable or a variable to an entry of
the environment.  Other lines have no reading here. -/
def Session.runLine (session : Session) (text : List Char) : Option (Session × List Char) := do
  let text ← expect ['$'] (text.dropWhile (· == ' '))
  match expect ['e', 'n', 'v', ':'] text with
  | some text =>
    let (name, text) ← takeName text
    let text ← expect ['=', '$'] text
    let (source, text) ← takeName text
    let text ← expect ['\r', '\n'] text
    return (session.assignEnvironment name ((session.assigned source).getD []), text)
  | none =>
    let (name, text) ← takeName text
    let text ← expect ['='] text
    let (value, text) ← expandableString text
    let text ← expect ['\r', '\n'] text
    return (← session.assign name value, text)

/-- Runs a number of lines, which have to be the whole text. -/
def Session.runLines : Nat → Session → List Char → Option Session
  | _, session, [] => some session
  | 0, _, _ :: _ => none
  | count + 1, session, char :: text => do
    let (session, text) ← session.runLine (char :: text)
    runLines count session text

def Session.run (session : Session) (script : List Char) : Option Session :=
  session.runLines script.length script

section Strings

variable {char next : Char} {rest : List Char}

/-- A character without a meaning inside an expandable string. -/
structure Ordinary (char : Char) : Prop where
  notQuote : isDoubleQuote char = false
  notDollar : char ≠ '$'
  notBacktick : char ≠ '\x60'

theorem stringBody_ordinary (ordinary : Ordinary char) :
    stringBody (char :: rest) = (stringBody rest).map (Prod.map (char :: ·) id) := by
  rw [stringBody.eq_def]
  dsimp only
  rw [if_neg (by simp [ordinary.notQuote]), if_neg ordinary.notDollar, if_neg ordinary.notBacktick]

theorem stringBody_escaped :
    stringBody ('\x60' :: next :: rest) =
      (stringBody rest).map (Prod.map (unescape next :: ·) id) := by
  rw [stringBody, if_neg (by decide), if_neg (by decide), if_pos rfl]

theorem stringBody_doubled (quote : isDoubleQuote char = true) (again : isDoubleQuote next = true) :
    stringBody (char :: next :: rest) = (stringBody rest).map (Prod.map (next :: ·) id) := by
  rw [stringBody, if_pos quote]
  simp only [again, if_true]

theorem stringBody_closed (quote : isDoubleQuote char = true)
    (ends : ∀ next behind, rest = next :: behind → isDoubleQuote next = false) :
    stringBody (char :: rest) = some ([], rest) := by
  rw [stringBody.eq_def]
  dsimp only
  rw [if_pos quote]
  cases rest with
  | nil => rfl
  | cons next behind => simp [ends next behind rfl]

theorem stringBody_dollar : stringBody ('$' :: rest) = none := by
  rw [stringBody.eq_def]
  dsimp only
  rw [if_neg (by decide), if_pos rfl]

end Strings

section Lines

/-- The names that can be written behind a dollar sign. -/
structure IsName (name : List Char) : Prop where
  nonempty : name ≠ []
  chars : ∀ char ∈ name, isNameChar char = true

theorem expect_append (token text : List Char) : expect token (token ++ text) = some text := by
  rw [expect, if_pos (by simp)]
  simp

theorem takeName_append {name : List Char} (isName : IsName name) {char : Char}
    (ends : isNameChar char = false) (rest : List Char) :
    takeName (name ++ char :: rest) = some (name, char :: rest) := by
  have taken : (name ++ char :: rest).takeWhile isNameChar = name := by
    rw [takeWhile_append_of_pos isName.chars, takeWhile_cons_of_neg (by simp [ends]), append_nil]
  have left : (name ++ char :: rest).dropWhile isNameChar = char :: rest := by
    rw [dropWhile_append_of_pos isName.chars, dropWhile_cons_of_neg (by simp [ends])]
  rw [takeName]
  simp only [taken, left, isName.nonempty, if_false]

theorem expect_env_name {name : List Char} (isName : IsName name) (rest : List Char) :
    expect ['e', 'n', 'v', ':'] (name ++ '=' :: rest) = none := by
  have colon : ':' ∉ name := fun member => by
    have isChar := isName.chars ':' member
    revert isChar
    decide
  rw [expect, if_neg]
  match name with
  | [] => simp
  | [_] => simp
  | [_, _] => simp
  | [_, _, _] => simp
  | _ :: _ :: _ :: fourth :: _ =>
    simp only [mem_cons, not_or] at colon
    simp [colon.2.2.2.1]

theorem dropWhile_padding (count : Nat) (rest : List Char) :
    (List.replicate count ' ' ++ '$' :: rest).dropWhile (· == ' ') = '$' :: rest := by
  rw [dropWhile_append_of_pos (by simp), dropWhile_cons_of_neg (by decide)]

variable (session : Session) {name : List Char} (isName : IsName name) (count : Nat)
  (rest : List Char)

include isName

theorem runLine_assign :
    session.runLine (List.replicate count ' ' ++ '$' :: (name ++ '=' :: rest)) =
      (expandableString rest).bind fun string => (expect ['\r', '\n'] string.2).bind fun behind =>
          (session.assign name string.1).map (·, behind) := by
  have dollar : expect ['$'] ('$' :: (name ++ '=' :: rest)) = some (name ++ '=' :: rest) :=
    expect_append ['$'] _
  have equals : expect ['='] ('=' :: rest) = some rest := expect_append ['='] rest
  have taken := takeName_append isName (show isNameChar '=' = false by decide) rest
  rw [Session.runLine, dropWhile_padding]
  simp only [dollar, bind_eq_bind, bind_some, expect_env_name isName, taken, equals, map_eq_bind]
  rfl

theorem runLine_environment :
    session.runLine (List.replicate count ' ' ++ ['$', 'e', 'n', 'v', ':'] ++ name ++
        ['=', '$'] ++ name ++ ['\r', '\n'] ++ rest) =
      some (session.assignEnvironment name ((session.assigned name).getD []), rest) := by
  have shape : List.replicate count ' ' ++ ['$', 'e', 'n', 'v', ':'] ++ name ++
      ['=', '$'] ++ name ++ ['\r', '\n'] ++ rest =
      List.replicate count ' ' ++ '$' :: (['e', 'n', 'v', ':'] ++ (name ++
        '=' :: '$' :: (name ++ '\r' :: '\n' :: rest))) := by
    simp
  have dollar := fun text => expect_append ['$'] text
  have target := takeName_append isName (show isNameChar '=' = false by decide)
    ('$' :: (name ++ '\r' :: '\n' :: rest))
  have source := takeName_append isName (show isNameChar '\r' = false by decide) ('\n' :: rest)
  have equals := expect_append ['=', '$'] (name ++ '\r' :: '\n' :: rest)
  have ending := expect_append ['\r', '\n'] rest
  rw [shape, Session.runLine, dropWhile_padding]
  simp only [cons_append, nil_append] at dollar equals ending
  simp only [dollar, bind_eq_bind, bind_some, expect_append, target, equals, source, ending]
  rfl

omit isName

theorem runLines_of_ne_nil {text : List Char} (nonempty : text ≠ []) :
    session.runLines (count + 1) text =
      (session.runLine text).bind fun result => result.1.runLines count result.2 := by
  cases text with
  | nil => exact (nonempty rfl).elim
  | cons char text => rfl

theorem runLines_nil : session.runLines count [] = some session := by
  cases count <;> rfl

end Lines

end GitlabRunner.PowerShell
