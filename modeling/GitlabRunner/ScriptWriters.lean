import GitlabRunner.PanickingPrograms
import GitlabRunner.SlashPaths

/-!
# What the writers of scripts share

A writer of `shells/` keeps a buffer, the temporary path of the job and an indent.  Its
methods are embedded as actions that change the writer and return a value; an action without
a result has panicked.
-/

namespace GitlabRunner.Shells

open ByteText Panicking

def replaceByte (text : List UInt8) (old : UInt8) (new : List UInt8) : List UInt8 :=
  text.flatMap fun char => if char = old then new else [char]

def replaceBytes (text : List UInt8) (replacements : List (UInt8 × List UInt8)) : List UInt8 :=
  replacements.foldl (fun text replacement => replaceByte text replacement.1 replacement.2) text

theorem replaceByte_append (first second : List UInt8) (old : UInt8) (new : List UInt8) :
    replaceByte (first ++ second) old new =
      replaceByte first old new ++ replaceByte second old new :=
  List.flatMap_append

theorem replaceBytes_concat (text : List UInt8) (replacements : List (UInt8 × List UInt8))
    (old : UInt8) (new : List UInt8) :
    replaceBytes text (replacements ++ [(old, new)]) =
      replaceByte (replaceBytes text replacements) old new := by
  rw [replaceBytes, List.foldl_append]
  rfl

theorem replaceBytes_append (first second : List UInt8) (replacements : List (UInt8 × List UInt8)) :
    replaceBytes (first ++ second) replacements =
      replaceBytes first replacements ++ replaceBytes second replacements := by
  induction replacements generalizing first second with
  | nil => rfl
  | cons replacement replacements ih =>
    change replaceBytes (replaceByte (first ++ second) _ _) replacements = _
    rw [replaceByte_append, ih]
    rfl

theorem replaceBytes_nil (replacements : List (UInt8 × List UInt8)) :
    replaceBytes [] replacements = [] := by
  induction replacements with
  | nil => rfl
  | cons replacement replacements ih => exact ih

theorem replaceBytes_singleton {char : UInt8} {replacements : List (UInt8 × List UInt8)}
    (kept : ∀ replacement ∈ replacements, char ≠ replacement.1) :
    replaceBytes [char] replacements = [char] := by
  induction replacements with
  | nil => rfl
  | cons replacement replacements ih =>
    have first : replaceByte [char] replacement.1 replacement.2 = [char] := by
      rw [replaceByte, List.flatMap_singleton, if_neg (kept replacement (by simp))]
    change replaceBytes (replaceByte [char] replacement.1 replacement.2) replacements = _
    rw [first]
    exact ih fun other member => kept other (List.mem_cons_of_mem replacement member)

theorem eq_flatMap {write : List UInt8 → List UInt8} (nil : write [] = [])
    (append : ∀ first second, write (first ++ second) = write first ++ write second)
    (text : List UInt8) : write text = text.flatMap fun char => write [char] := by
  induction text with
  | nil => exact nil
  | cons char text ih =>
    rw [List.flatMap_cons, ← ih, ← append]
    rfl

theorem replaceBytes_eq (text : List UInt8) (replacements : List (UInt8 × List UInt8)) :
    replaceBytes text replacements = text.flatMap fun char => replaceBytes [char] replacements :=
  @eq_flatMap (replaceBytes · replacements) (replaceBytes_nil replacements)
    (fun first second => replaceBytes_append first second replacements) text

def toBackslash (path : List UInt8) : List UInt8 :=
  replaceByte path (byte '/') (ascii "\\")

def ansiBoldGreen : List UInt8 :=
  27 :: ascii "[32;1m"

def ansiYellow : List UInt8 :=
  27 :: ascii "[0;33m"

def ansiReset : List UInt8 :=
  27 :: ascii "[0;m"

/-- `strings.Repeat`, which panics if the count is negative. -/
def repeatText (text : List UInt8) (count : Int) : Option (List UInt8) :=
  if count < 0 then none else some (List.replicate count.toNat text).flatten

/-- The fields that the writers have in common. -/
structure ScriptWriter where
  buffer : List UInt8
  temporaryPath : List UInt8
  indent : Int
  deriving DecidableEq, Repr

abbrev Script :=
  Program ScriptWriter

def Script.line (ending text : List UInt8) : Script Unit := do
  let writer ← get
  let padding ← repeatText (ascii "  ") writer.indent
  set { writer with buffer := writer.buffer ++ (padding ++ text ++ ending) }

def Script.indent : Script Unit :=
  modify fun writer => { writer with indent := writer.indent + 1 }

def Script.unindent : Script Unit :=
  modify fun writer => { writer with indent := writer.indent - 1 }

def Script.temporaryPath : Script (List UInt8) := do
  return (← get).temporaryPath

def ScriptWriter.padding (writer : ScriptWriter) : List UInt8 :=
  (List.replicate writer.indent.toNat (ascii "  ")).flatten

theorem eq_space_of_mem_padding {writer : ScriptWriter} {char : UInt8}
    (member : char ∈ writer.padding) : char = byte ' ' := by
  obtain ⟨spaces, isSpaces, inside⟩ := List.mem_flatten.mp member
  have blanks : ascii "  " = List.replicate 2 (byte ' ') := rfl
  rw [List.eq_of_mem_replicate isSpaces, blanks] at inside
  exact List.eq_of_mem_replicate inside

theorem line_eq_some {writer : ScriptWriter} (indented : 0 ≤ writer.indent)
    (ending text : List UInt8) :
    Script.line ending text writer = some ((), { writer with
      buffer := writer.buffer ++ (writer.padding ++ text ++ ending) }) := by
  have written : repeatText (ascii "  ") writer.indent = some writer.padding := by
    rw [repeatText, if_neg (by omega)]
    rfl
  have unfolded : Script.line ending text writer =
      ((repeatText (ascii "  ") writer.indent).bind fun padding => some (padding, writer)).bind
        fun lifted => some ((), { writer with
          buffer := writer.buffer ++ (lifted.1 ++ text ++ ending) }) :=
    rfl
  rw [unfolded, written]
  rfl

/-- The buffers may differ. -/
structure Alike (depth : Nat) (writer other : ScriptWriter) : Prop where
  indent : writer.indent = depth
  otherIndent : other.indent = depth
  path : other.temporaryPath = writer.temporaryPath

/-- The method moves every writer from one depth to another one. -/
def Moves {α : Type} (first last : Nat) (script : Script α) : Prop :=
  Together (Alike first) (Alike last) script script

/-- The method returns at the depth at which it was called. -/
def Keeps {α : Type} (script : Script α) : Prop :=
  ∀ depth, Moves depth depth script

section Depths

variable {depth : Nat}

theorem moves_line (ending text : List UInt8) : Moves depth depth (Script.line ending text) := by
  rintro writer other ⟨level, level', path⟩
  exact ⟨(), _, _, line_eq_some (by omega) ending text, line_eq_some (by omega) ending text,
    level, level', path⟩

theorem moves_indent : Moves depth (depth + 1) Script.indent :=
  fun _ _ ⟨level, level', path⟩ =>
    ⟨(), _, _, rfl, rfl, congrArg (· + 1) level, congrArg (· + 1) level', path⟩

theorem moves_unindent : Moves (depth + 1) depth Script.unindent := by
  rintro writer other ⟨level, level', path⟩
  refine ⟨(), _, _, rfl, rfl, ?_, ?_, path⟩
  · simp only
    omega
  · simp only
    omega

theorem moves_temporaryPath : Moves depth depth Script.temporaryPath :=
  fun writer other alike => ⟨writer.temporaryPath, writer, other, rfl,
    congrArg (fun path => some (path, other)) alike.path, alike⟩

end Depths

end GitlabRunner.Shells
