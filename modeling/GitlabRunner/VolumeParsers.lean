import GitlabRunner.GoStrings
import GitlabRunner.Regexes
import GitlabRunner.VolumesManager

/-!
# The parsers of volume specifications

The parsers of `executors/docker/internal/volumes/parser` match a specification with a
regular expression, one for Linux and one for Windows, that is made from expressions for a
source, a destination and a mode.
-/

namespace GitlabRunner.VolumeParsers

open ByteText SlashPaths Volumes Regexes GoStrings List

abbrev Rune := List UInt8

def runesOf (spec : List UInt8) : List Rune :=
  (runePartsFrom 0 spec).map Prod.snd

def isChar (char : Char) (rune : Rune) : Bool :=
  rune = String.utf8EncodeChar char

def isAnyOf (chars : String) (rune : Rune) : Bool :=
  chars.toList.any (isChar · rune)

def isNoneOf (chars : String) (rune : Rune) : Bool :=
  !isAnyOf chars rune

def isFolded (lower : Char) (rune : Rune) : Bool :=
  isChar lower rune || isChar lower.toUpper rune

section Linux

def linuxDir : Regex Rune :=
  .seq (.one (isChar '/'))
    (.star true (.seq (.plus (.one (isNoneOf "\\/:*?\"<>|\r\n "))) (.opt (.one (isChar '/')))))

def linuxVolumeName : Regex Rune :=
  .plus (.one (isNoneOf "\\/:*?\"<>|\r\n"))

def linuxSource : Regex Rune :=
  .alt linuxDir linuxVolumeName

def linuxMode : Regex Rune :=
  .alt (.letters [isFolded 'r', isFolded 'o'])
    (.alt (.letters [isFolded 'r', isFolded 'w']) (.letters [isFolded 'z']))

end Linux

section Windows

/-- `[a-z]` in either case; without regard to case it has two more letters in it. -/
def isLetter : Rune → Bool :=
  isAnyOf "abcdefghijklmnopqrstuvwxyzABCDEFGHIJKLMNOPQRSTUVWXYZ\u017F\u212A"

def isSlash : Rune → Bool :=
  isAnyOf "\\/"

/-- `\\?\`, which some paths begin with. -/
def windowsLongPath : List (Rune → Bool) :=
  [isChar '\\', isChar '\\', isChar '?', isChar '\\']

def windowsHostDir : Regex Rune :=
  .seq (.opt (.letters windowsLongPath)) (.seq (.letters [isLetter, isChar ':', isSlash])
    (.star true (.seq (.plus (.one (isNoneOf "\\/:*?\"<>|\r\n"))) (.opt (.one isSlash)))))

def windowsVolumeName : Regex Rune :=
  .plus (.one (isNoneOf "\\/:*?\"<>|\r\n"))

/-- The classes of `[/\\]{2}.[/\\]pipe[/\\]` behind its dot. -/
def windowsPipeName : List (Rune → Bool) :=
  [isSlash, isFolded 'p', isFolded 'i', isFolded 'p', isFolded 'e', isSlash]

def windowsPipe : Regex Rune :=
  .seq (.letters (isSlash :: isSlash :: isNoneOf "\n" :: windowsPipeName))
    (.plus (.one (isNoneOf ":*?\"<>|\r\n")))

def windowsSource : Regex Rune :=
  .alt windowsHostDir (.alt windowsVolumeName windowsPipe)

def windowsPath : Regex Rune :=
  .seq (.star true (.seq (.one isSlash) (.plus (.one (isNoneOf "\\/:*?\"<>\r\n")))))
    (.opt (.one isSlash))

def windowsDestination : Regex Rune :=
  .alt (.seq (.opt (.letters windowsLongPath)) (.seq (.letters [isLetter, isChar ':'])
    windowsPath)) windowsPipe

def windowsMode : Regex Rune :=
  .alt (.letters [isFolded 'r', isFolded 'o']) (.letters [isFolded 'r', isFolded 'w'])

end Windows

/-- The expressions for the three named groups of a parser.  A source or a mode that is there
is not empty. -/
structure Grammar where
  source : Regex Rune
  destination : Regex Rune
  mode : Regex Rune
  filled : ¬ Matches source [] ∧ ¬ Matches mode []

def linuxGrammar : Grammar where
  source := linuxSource
  destination := linuxDir
  mode := linuxMode
  filled := by
    simp [linuxSource, linuxDir, linuxVolumeName, linuxMode, matches_alt_iff, matches_seq_iff,
      matches_one_iff, matches_plus_one_iff, matches_letters_iff]

def windowsGrammar : Grammar where
  source := windowsSource
  destination := windowsDestination
  mode := windowsMode
  filled := by
    simp [windowsSource, windowsHostDir, windowsVolumeName, windowsPipe, windowsMode,
      matches_alt_iff, matches_seq_iff, matches_plus_one_iff, matches_letters_iff]

def behindColon : List Rune → Option (List Rune)
  | [] => none
  | rune :: rest => if isChar ':' rune then some rest else none

/-- The ways of `((?P<source>...):)?` at the beginning of a text. -/
def Grammar.sourceWays (grammar : Grammar) (text : List Rune) : List (List Rune × List Rune) :=
  ((ways grammar.source text).filterMap fun way =>
    (behindColon way.2).map fun rest => (way.1, rest)) ++ [([], text)]

/-- The ways of `(:(?P<mode>...))?$`. -/
def Grammar.modeWays (grammar : Grammar) (text : List Rune) : List (List Rune) :=
  (((behindColon text).toList.flatMap (ways grammar.mode)).filter fun way => way.2.isEmpty).map
    Prod.fst ++ if text.isEmpty then [[]] else []

/-- What the groups read, in the order in which a match is looked for. -/
def Grammar.splits (grammar : Grammar) (text : List Rune) :
    List (List Rune × List Rune × List Rune) :=
  (grammar.sourceWays text).flatMap fun (source, rest) =>
    (ways grammar.destination rest).flatMap fun (destination, rest) =>
      (grammar.modeWays rest).map fun mode => (source, destination, mode)

def volumeOf (parts : List Rune × List Rune × List Rune) : Volume :=
  ⟨parts.1.flatten, parts.2.1.flatten, parts.2.2.flatten⟩

/-- `ParseVolume`.  A group without a match is empty. -/
def Grammar.parseVolume (grammar : Grammar) (spec : List UInt8) : Except Error Volume :=
  match (grammar.splits (runesOf spec)).head? with
  | none => .error (.invalidVolumeSpec spec)
  | some parts => .ok (volumeOf parts)

example : (windowsGrammar.parseVolume (ascii "c:\\a b:d:\\c:Rw")).toOption =
    some ⟨ascii "c:\\a b", ascii "d:\\c", ascii "Rw"⟩ := by
  decide

def colonRune : Rune := [colon]

def withColon (source : List Rune) : List Rune :=
  if source = [] then [] else source ++ [colonRune]

def colonWith (mode : List Rune) : List Rune :=
  if mode = [] then [] else colonRune :: mode

/-- A split of a specification that the grammar allows. -/
structure Grammar.Allows (grammar : Grammar) (text : List Rune)
    (parts : List Rune × List Rune × List Rune) : Prop where
  joined : text = withColon parts.1 ++ parts.2.1 ++ colonWith parts.2.2
  source : parts.1 = [] ∨ Matches grammar.source parts.1
  destination : Matches grammar.destination parts.2.1
  mode : parts.2.2 = [] ∨ Matches grammar.mode parts.2.2

theorem isChar_colon {rune : Rune} : isChar ':' rune = true ↔ rune = colonRune := by
  simp only [isChar, decide_eq_true_eq]
  rfl
variable {text : List Rune}

theorem behindColon_eq_some {rest : List Rune} :
    behindColon text = some rest ↔ text = colonRune :: rest := by
  cases text with
  | nil => simp [behindColon]
  | cons rune text =>
    rw [behindColon, Option.ite_none_right_eq_some, isChar_colon, Option.some.injEq,
      List.cons.injEq]

variable {parts : List Rune × List Rune × List Rune}

section Splits

variable {grammar : Grammar} {text : List Rune}

theorem mem_sourceWays {source rest : List Rune} :
    (source, rest) ∈ grammar.sourceWays text ↔
      text = withColon source ++ rest ∧ (source = [] ∨ Matches grammar.source source) := by
  simp only [Grammar.sourceWays, mem_append, mem_filterMap, Option.map_eq_some_iff,
    behindColon_eq_some, mem_ways, mem_singleton, Prod.exists, Prod.mk.injEq]
  constructor
  · rintro (⟨used, _, ⟨rfl, reads⟩, _, rfl, rfl, rfl⟩ | ⟨rfl, rfl⟩)
    · have nonempty : used ≠ [] := fun empty => grammar.filled.1 (empty ▸ reads)
      exact ⟨by simp [withColon, nonempty], .inr reads⟩
    · exact ⟨rfl, .inl rfl⟩
  · rintro ⟨rfl, rfl | reads⟩
    · exact .inr ⟨rfl, rfl⟩
    · have nonempty : source ≠ [] := fun empty => grammar.filled.1 (empty ▸ reads)
      exact .inl ⟨source, _, ⟨by simp [withColon, nonempty], reads⟩, rest, rfl, rfl, rfl⟩

theorem mem_modeWays {mode : List Rune} :
    mode ∈ grammar.modeWays text ↔
      text = colonWith mode ∧ (mode = [] ∨ Matches grammar.mode mode) := by
  simp only [Grammar.modeWays, mem_append, mem_map, mem_filter, mem_flatMap,
    Option.mem_toList, behindColon_eq_some, mem_ways, List.isEmpty_iff]
  constructor
  · rintro (⟨⟨_, _⟩, ⟨⟨_, rfl, rfl, reads⟩, rfl⟩, rfl⟩ | member)
    · have nonempty : _ ≠ [] := fun empty => grammar.filled.2 (empty ▸ reads)
      exact ⟨by simp [colonWith, nonempty], .inr reads⟩
    · split at member
      · rename_i empty
        obtain rfl := mem_singleton.mp member
        exact ⟨empty, .inl rfl⟩
      · cases member
  · rintro ⟨rfl, rfl | reads⟩
    · exact .inr mem_cons_self
    · have nonempty : mode ≠ [] := fun empty => grammar.filled.2 (empty ▸ reads)
      refine .inl ⟨(mode, []), ⟨⟨mode, ?_, (append_nil _).symm, reads⟩, rfl⟩, rfl⟩
      exact if_neg nonempty

/-- The ways of the whole expression are the splits that the grammar allows. -/
theorem mem_splits : parts ∈ grammar.splits text ↔ grammar.Allows text parts := by
  obtain ⟨source, destination, mode⟩ := parts
  simp only [Grammar.splits, mem_flatMap, mem_map, Prod.exists, mem_sourceWays, mem_ways,
    mem_modeWays, Prod.mk.injEq]
  constructor
  · rintro ⟨_, _, ⟨rfl, sourceMatches⟩, _, _, ⟨rfl, reads⟩, _, ⟨rfl, modeMatches⟩, rfl, rfl, rfl⟩
    exact ⟨(append_assoc _ _ _).symm, sourceMatches, reads, modeMatches⟩
  · rintro ⟨joined, sourceMatches, reads, modeMatches⟩
    exact ⟨source, destination ++ colonWith mode, ⟨by simpa using joined, sourceMatches⟩,
      destination, colonWith mode, ⟨rfl, reads⟩, mode, ⟨rfl, modeMatches⟩, rfl, rfl, rfl⟩

end Splits

section Unambiguous

def EndsInColon (text : List Rune) : Prop :=
  text = [] ∨ ∃ start, text = start ++ [colonRune]

theorem endsInColon_withColon (source : List Rune) : EndsInColon (withColon source) := by
  unfold withColon
  split
  · exact .inl rfl
  · exact .inr ⟨source, rfl⟩

theorem EndsInColon.append {first second : List Rune} (firstEnds : EndsInColon first)
    (secondEnds : EndsInColon second) : EndsInColon (first ++ second) := by
  rcases secondEnds with rfl | ⟨start, rfl⟩
  · rwa [append_nil]
  · exact .inr ⟨first ++ start, (append_assoc _ _ _).symm⟩

/-- What stands behind the last colon is determined. -/
theorem EndsInColon.inj {first second firstLast secondLast : List Rune}
    (firstEnds : EndsInColon first) (secondEnds : EndsInColon second)
    (firstFree : colonRune ∉ firstLast) (secondFree : colonRune ∉ secondLast)
    (same : first ++ firstLast = second ++ secondLast) :
    first = second ∧ firstLast = secondLast := by
  rcases firstEnds with rfl | ⟨start, rfl⟩
  · rcases secondEnds with rfl | ⟨other, rfl⟩
    · exact ⟨rfl, same⟩
    · exact (firstFree (by rw [← nil_append firstLast, same]; simp)).elim
  · rcases secondEnds with rfl | ⟨other, rfl⟩
    · exact (secondFree (by rw [← nil_append secondLast, ← same]; simp)).elim
    · simp only [append_assoc, singleton_append] at same
      obtain ⟨rfl, rfl⟩ := append_cons_inj_last firstFree secondFree same
      exact ⟨rfl, rfl⟩

theorem withColon_injective : Function.Injective withColon := by
  intro first second same
  cases first <;> cases second <;> simp_all [withColon]

/-- What makes a grammar unambiguous: a mode has no colon and does not begin with a slash, what
stands behind the last colon of a destination begins with a slash if there is anything, and
behind a colon, or where nothing stands before, it can begin in one way only. -/
structure Grammar.Clear (grammar : Grammar) (heads : List Rune → List Rune → Prop) : Prop where
  cut : ∀ {destination}, Matches grammar.destination destination →
    ∃ head last, destination = head ++ last ∧ heads head last ∧ EndsInColon head ∧
      colonRune ∉ last ∧ ∀ rune ∈ last.head?, isSlash rune = true
  heads : ∀ {first second head other last}, EndsInColon first → EndsInColon second →
    heads head last → heads other last → first ++ head = second ++ other → head = other
  mode : ∀ {mode}, Matches grammar.mode mode →
    colonRune ∉ mode ∧ ∀ rune ∈ mode.head?, isSlash rune = false

section Clear

variable {grammar : Grammar} {heads : List Rune → List Rune → Prop} (clear : grammar.Clear heads)
  {source other destination target text : List Rune}

include clear

theorem Grammar.Clear.destination_inj (reads : Matches grammar.destination destination)
    (readsTarget : Matches grammar.destination target)
    (same : withColon source ++ destination = withColon other ++ target) :
    source = other ∧ destination = target := by
  obtain ⟨head, last, rfl, isHead, ends, free, -⟩ := clear.cut reads
  obtain ⟨targetHead, targetLast, rfl, isTargetHead, targetEnds, targetFree, -⟩ :=
    clear.cut readsTarget
  have sourceEnds := endsInColon_withColon source
  have otherEnds := endsInColon_withColon other
  rw [← append_assoc, ← append_assoc] at same
  obtain ⟨before, rfl⟩ := (sourceEnds.append ends).inj (otherEnds.append targetEnds) free
    targetFree same
  obtain rfl := clear.heads sourceEnds otherEnds isHead isTargetHead before
  exact ⟨withColon_injective (append_cancel_right before), rfl⟩

theorem Grammar.Clear.ne_mode {mode : List Rune} (reads : Matches grammar.destination destination)
    (readsMode : Matches grammar.mode mode) :
    withColon source ++ destination ≠ text ++ colonRune :: mode := by
  intro same
  obtain ⟨head, last, rfl, -, ends, free, slashed⟩ := clear.cut reads
  obtain ⟨modeFree, unslashed⟩ := clear.mode readsMode
  rw [← append_assoc, append_cons] at same
  obtain ⟨-, rfl⟩ := ((endsInColon_withColon source).append ends).inj (.inr ⟨text, rfl⟩) free
    modeFree same
  cases last with
  | nil => exact grammar.filled.2 readsMode
  | cons rune last =>
    have noSlash := unslashed rune rfl
    rw [slashed rune rfl] at noSlash
    cases noSlash

theorem Grammar.Clear.unambiguous {others : List Rune × List Rune × List Rune}
    (allowed : grammar.Allows text parts) (alsoAllowed : grammar.Allows text others) :
    parts = others := by
  obtain ⟨source, destination, mode⟩ := parts
  obtain ⟨other, target, otherMode⟩ := others
  obtain ⟨joined, -, reads, modeReads⟩ := allowed
  obtain ⟨otherJoined, -, readsTarget, otherModeReads⟩ := alsoAllowed
  dsimp only at joined reads modeReads otherJoined readsTarget otherModeReads
  have same := joined.symm.trans otherJoined
  rcases modeReads with rfl | readsMode
  · rcases otherModeReads with rfl | readsOther
    · obtain ⟨rfl, rfl⟩ := clear.destination_inj reads readsTarget (append_cancel_right same)
      rfl
    · have nonempty : otherMode ≠ [] := fun empty => grammar.filled.2 (empty ▸ readsOther)
      simp only [colonWith, if_true, append_nil, if_neg nonempty] at same
      exact (clear.ne_mode reads readsOther same).elim
  · have nonempty : mode ≠ [] := fun empty => grammar.filled.2 (empty ▸ readsMode)
    rcases otherModeReads with rfl | readsOther
    · simp only [colonWith, if_true, append_nil, if_neg nonempty] at same
      exact (clear.ne_mode readsTarget readsMode same.symm).elim
    · have otherNonempty : otherMode ≠ [] := fun empty => grammar.filled.2 (empty ▸ readsOther)
      simp only [colonWith, if_neg nonempty, if_neg otherNonempty] at same
      obtain ⟨before, rfl⟩ := append_cons_inj_last (clear.mode readsMode).1
        (clear.mode readsOther).1 same
      obtain ⟨rfl, rfl⟩ := clear.destination_inj reads readsTarget before
      rfl

end Clear

end Unambiguous

theorem flatten_ne_nil (filled : ∀ rune ∈ text, rune ≠ [])
    (nonempty : text ≠ []) : text.flatten ≠ [] := by
  obtain ⟨rune, rest, rfl⟩ := exists_cons_of_ne_nil nonempty
  intro empty
  exact filled rune mem_cons_self (append_eq_nil_iff.mp empty).1

/-- What the parts print is the specification. -/
theorem Grammar.Allows.definition {grammar : Grammar} (allowed : grammar.Allows text parts)
    (filled : ∀ rune ∈ text, rune ≠ []) : (volumeOf parts).definition = text.flatten := by
  obtain ⟨source, destination, mode⟩ := parts
  obtain ⟨rfl, -, -, -⟩ := allowed
  dsimp only at filled
  have printed : source ≠ [] → source.flatten ≠ [] := by
    intro given
    exact flatten_ne_nil (fun rune member => filled rune (by simp [withColon, given, member])) given
  have printedMode : mode ≠ [] → mode.flatten ≠ [] := by
    intro given
    exact flatten_ne_nil (fun rune member => filled rune (by simp [colonWith, given, member])) given
  by_cases noSource : source = [] <;> by_cases noMode : mode = [] <;>
    simp_all [volumeOf, Volume.definition, withColon, colonWith, List.intercalate, colonRune]

section Classes

variable {accepts : Rune → Bool} {classes : List (Rune → Bool)} {text : List Rune} {rune : Rune}

theorem not_mem_of_accepts (excluded : accepts colonRune = false)
    (all : ∀ rune ∈ text, accepts rune = true) : colonRune ∉ text := by
  intro member
  rw [all colonRune member] at excluded
  cases excluded

theorem not_mem_of_letters (excluded : ∀ accepts ∈ classes, accepts colonRune = false)
    (all : List.Forall₂ (fun accepts rune => accepts rune = true) classes text) :
    colonRune ∉ text := by
  induction all with
  | nil => exact not_mem_nil
  | cons accepted _ ih =>
    rw [forall_mem_cons] at excluded
    rw [mem_cons, not_or]
    refine ⟨?_, ih excluded.2⟩
    rintro rfl
    rw [excluded.1] at accepted
    cases accepted

theorem isSlash_eq_false (neither : accepts (ascii "\\") = false ∧ accepts (ascii "/") = false)
    (accepted : accepts rune = true) : isSlash rune = false := by
  rw [← Bool.not_eq_true]
  intro slashed
  simp only [isSlash, isAnyOf, any_eq_true] at slashed
  obtain ⟨char, member, same⟩ := slashed
  obtain rfl := of_decide_eq_true same
  rcases mem_pair.mp member with rfl | rfl
  · exact Bool.false_ne_true (neither.1.symm.trans accepted)
  · exact Bool.false_ne_true (neither.2.symm.trans accepted)

/-- A mode that begins with a letter. -/
theorem mode_of_letters (neither : accepts (ascii "\\") = false ∧ accepts (ascii "/") = false)
    (excluded : ∀ other ∈ accepts :: classes, other colonRune = false)
    (matched : Matches (.letters (accepts :: classes)) text) :
    colonRune ∉ text ∧ ∀ rune ∈ text.head?, isSlash rune = false := by
  have all := matches_letters_iff.mp matched
  refine ⟨not_mem_of_letters excluded all, ?_⟩
  obtain ⟨first, rest, accepted, -, rfl⟩ := forall₂_cons_left_iff.mp all
  rintro _ ⟨⟩
  exact isSlash_eq_false neither accepted

end Classes

theorem linuxGrammar_clear : linuxGrammar.Clear fun head _ => head = [] where
  cut := by
    intro destination reads
    obtain ⟨_, rest, rfl, first, more⟩ := matches_seq_iff.mp reads
    obtain ⟨rune, rfl, isRoot⟩ := matches_one_iff.mp first
    obtain rfl : rune = String.utf8EncodeChar '/' := of_decide_eq_true isRoot
    refine ⟨[], String.utf8EncodeChar '/' :: rest, rfl, rfl, .inl rfl, ?_, by rintro _ ⟨⟩; decide⟩
    rw [mem_cons, not_or]
    refine ⟨by decide, ?_⟩
    apply Matches.star_induction not_mem_nil _ more
    intro start rest element free
    simp only [matches_seq_iff, matches_plus_one_iff, matches_opt_iff, matches_one_iff] at element
    obtain ⟨name, _, rfl, ⟨-, all⟩, ⟨_, rfl, isSeparator⟩ | rfl⟩ := element
    · obtain rfl := of_decide_eq_true isSeparator
      have noColon := not_mem_of_accepts (by decide) all
      simp [noColon, free]
      decide
    · simpa [free] using not_mem_of_accepts (by decide) all
  heads := fun _ _ isHead isOther _ => isHead.trans isOther.symm
  mode := by
    intro mode reads
    rcases matches_alt_iff.mp reads with readOnly | reads
    · exact mode_of_letters (by decide) (by decide) readOnly
    · rcases matches_alt_iff.mp reads with readWrite | shared
      · exact mode_of_letters (by decide) (by decide) readWrite
      · exact mode_of_letters (by decide) (by decide) shared

def isDoubled : List Rune → Bool
  | first :: second :: _ => isSlash first && isSlash second
  | _ => false

def longPath : List Rune :=
  [ascii "\\", ascii "\\", ascii "?", ascii "\\"]

/-- How a destination begins up to its last colon: a pipe has none, unless a colon stands for the
dot of its name, and otherwise there is one behind the drive. -/
inductive WindowsHead : List Rune → List Rune → Prop where
  | pipe {last} (doubled : isDoubled last = true) : WindowsHead [] last
  | drive {long letter last} (isLong : long = [] ∨ long = longPath)
      (isLetter : isLetter letter = true) (single : isDoubled last = false) :
      WindowsHead (long ++ [letter, colonRune]) last
  | colonPipe {first second last} (slashed : isSlash second = true)
      (single : isDoubled last = false) : WindowsHead [first, second, colonRune] last

theorem ne_of_isSlash {rune : Rune} (slashed : isSlash rune = true) : colonRune ≠ rune := by
  rintro rfl
  exact absurd slashed (by decide)

theorem windowsSteps_spec {steps : List Rune} (reads : Matches (.star true (.seq (.one isSlash)
      (.plus (.one (isNoneOf "\\/:*?\"<>\r\n"))))) steps) :
    colonRune ∉ steps ∧ (steps = [] ∨ ∃ first second rest, steps = first :: second :: rest ∧
      isSlash first = true ∧ isSlash second = false) := by
  apply Matches.star_induction ⟨not_mem_nil, .inl rfl⟩ _ reads
  intro start rest element later
  simp only [matches_seq_iff, matches_plus_one_iff, matches_one_iff] at element
  obtain ⟨_, name, rfl, ⟨first, rfl, slashed⟩, nonempty, all⟩ := element
  have nameFree := not_mem_of_accepts (by decide) all
  obtain ⟨second, name, rfl⟩ := exists_cons_of_ne_nil nonempty
  have unslashed := isSlash_eq_false (by decide) (all second mem_cons_self)
  refine ⟨?_, .inr ⟨first, second, name ++ rest, rfl, slashed, unslashed⟩⟩
  simpa [ne_of_isSlash slashed, later.1] using nameFree

theorem windowsPath_spec (reads : Matches windowsPath text) :
    colonRune ∉ text ∧ (∀ rune ∈ text.head?, isSlash rune = true) ∧ isDoubled text = false := by
  obtain ⟨steps, tail, rfl, stepsRead, trailing⟩ := matches_seq_iff.mp reads
  simp only [matches_opt_iff, matches_one_iff] at trailing
  obtain ⟨free, rfl | ⟨first, second, rest, rfl, slashed, unslashed⟩⟩ := windowsSteps_spec stepsRead
  · rcases trailing with ⟨rune, rfl, slashed⟩ | rfl
    · exact ⟨by simpa using ne_of_isSlash slashed, by rintro _ ⟨⟩; exact slashed, rfl⟩
    · exact ⟨not_mem_nil, nofun, rfl⟩
  · refine ⟨?_, by rintro _ ⟨⟩; exact slashed, by simp [isDoubled, unslashed]⟩
    rw [mem_append, not_or]
    refine ⟨free, ?_⟩
    rcases trailing with ⟨rune, rfl, isTrailing⟩ | rfl
    · simpa using ne_of_isSlash isTrailing
    · exact not_mem_nil

theorem eq_longPath {long : List Rune} (reads : Matches (.opt (.letters windowsLongPath)) long) :
    long = [] ∨ long = longPath := by
  rcases matches_opt_iff.mp reads with letters | rfl
  · simp only [matches_letters_iff, windowsLongPath, forall₂_cons_left_iff,
      forall₂_nil_left_iff, isChar, decide_eq_true_eq] at letters
    obtain ⟨_, _, rfl, ⟨_, _, rfl, ⟨_, _, rfl, ⟨_, _, rfl, rfl, rfl⟩, rfl⟩, rfl⟩, rfl⟩ := letters
    exact .inr rfl
  · exact .inl rfl

/-- The parts of a destination up to its last colon and behind it. -/
theorem windowsPipe_cut (reads : Matches windowsPipe text) :
    ∃ head last, text = head ++ last ∧ WindowsHead head last ∧ EndsInColon head ∧
      colonRune ∉ last ∧ ∀ rune ∈ last.head?, isSlash rune = true := by
  obtain ⟨_, name, rfl, letters, nameReads⟩ := matches_seq_iff.mp reads
  have nameFree := not_mem_of_accepts (by decide) (matches_plus_one_iff.mp nameReads).2
  obtain ⟨first, _, firstSlash, fromSecond, rfl⟩ :=
    forall₂_cons_left_iff.mp (matches_letters_iff.mp letters)
  obtain ⟨second, _, secondSlash, fromDot, rfl⟩ := forall₂_cons_left_iff.mp fromSecond
  obtain ⟨dot, _, -, pipeName, rfl⟩ := forall₂_cons_left_iff.mp fromDot
  have pipeFree := not_mem_of_letters (by decide) pipeName
  obtain ⟨slashed, _, isSlashed, fromLetter, rfl⟩ := forall₂_cons_left_iff.mp pipeName
  obtain ⟨letter, rest, folded, -, rfl⟩ := forall₂_cons_left_iff.mp fromLetter
  have unslashed := isSlash_eq_false (by decide) folded
  by_cases isColon : dot = colonRune
  · subst isColon
    refine ⟨[first, second, colonRune], slashed :: letter :: rest ++ name, rfl,
      .colonPipe secondSlash (by simp [isDoubled, unslashed]), .inr ⟨[first, second], rfl⟩, ?_,
      by rintro _ ⟨⟩; exact isSlashed⟩
    rw [mem_append, not_or]
    exact ⟨pipeFree, nameFree⟩
  · refine ⟨[], _, rfl, .pipe (by simp [isDoubled, firstSlash, secondSlash]), .inl rfl, ?_,
      by rintro _ ⟨⟩; exact firstSlash⟩
    simpa [ne_of_isSlash firstSlash, ne_of_isSlash secondSlash, Ne.symm isColon, nameFree]
      using pipeFree

section Heads

variable {first second long other : List Rune} {letter slashed : Rune}

theorem EndsInColon.ne_longPath (ends : EndsInColon first) : first ≠ second ++ longPath := by
  rintro rfl
  rcases ends with empty | ⟨start, same⟩
  · cases (append_eq_nil_iff.mp empty).2
  · have last := congrArg List.getLast? same
    rw [List.getLast?_append, List.getLast?_append] at last
    have isColon : ascii "\\" = colonRune := Option.some.inj last
    exact absurd isColon (by decide)

theorem longPath_inj (firstEnds : EndsInColon first) (secondEnds : EndsInColon second)
    (isLong : long = [] ∨ long = longPath) (otherLong : other = [] ∨ other = longPath)
    (same : first ++ long = second ++ other) : long = other := by
  rcases isLong with rfl | rfl <;> rcases otherLong with rfl | rfl
  · rfl
  · rw [append_nil] at same
    exact (firstEnds.ne_longPath same).elim
  · rw [append_nil] at same
    exact (secondEnds.ne_longPath same.symm).elim
  · rfl

theorem drive_ne_pipe (isLetter : isLetter letter = true) (isSlash : isSlash slashed = true) :
    first ++ [letter, colonRune] ≠ second ++ [slashed, colonRune] := by
  intro same
  cases (append_inj' same rfl).2
  rw [isSlash_eq_false (by decide) isLetter] at isSlash
  cases isSlash

end Heads

theorem windowsGrammar_clear : windowsGrammar.Clear WindowsHead where
  cut := by
    intro destination reads
    rcases matches_alt_iff.mp reads with drive | pipe
    · obtain ⟨long, _, rfl, longReads, behind⟩ := matches_seq_iff.mp drive
      obtain ⟨_, path, rfl, letters, pathReads⟩ := matches_seq_iff.mp behind
      obtain ⟨free, slashed, single⟩ := windowsPath_spec pathReads
      simp only [matches_letters_iff, forall₂_cons_left_iff, forall₂_nil_left_iff,
        isChar_colon] at letters
      obtain ⟨letter, _, isLetter, ⟨_, _, rfl, rfl, rfl⟩, rfl⟩ := letters
      exact ⟨long ++ [letter, colonRune], path, by simp, .drive (eq_longPath longReads) isLetter
        single, .inr ⟨long ++ [letter], by simp⟩, free, slashed⟩
    · exact windowsPipe_cut pipe
  heads := by
    intro first second head other last firstEnds secondEnds isHead isOther same
    cases isHead with
    | pipe doubled =>
      cases isOther with
      | pipe => rfl
      | drive _ _ single => cases doubled.symm.trans single
      | colonPipe _ single => cases doubled.symm.trans single
    | @drive long letter _ isLong isLetter single =>
      rw [← append_assoc] at same
      cases isOther with
      | pipe doubled => cases doubled.symm.trans single
      | drive otherLong _ _ =>
        rw [← append_assoc] at same
        obtain ⟨before, letters⟩ := append_inj' same rfl
        rw [longPath_inj firstEnds secondEnds isLong otherLong before, letters]
      | colonPipe slashed _ =>
        rw [append_cons second] at same
        exact (drive_ne_pipe isLetter slashed same).elim
    | colonPipe slashed single =>
      cases isOther with
      | pipe doubled => cases doubled.symm.trans single
      | drive _ isLetter _ =>
        rw [append_cons first, ← append_assoc second] at same
        exact (drive_ne_pipe isLetter slashed same.symm).elim
      | colonPipe => exact (append_inj' same rfl).2
  mode := by
    intro mode reads
    rcases matches_alt_iff.mp reads with readOnly | readWrite
    · exact mode_of_letters (by decide) (by decide) readOnly
    · exact mode_of_letters (by decide) (by decide) readWrite

/-! ## The Linux parser -/

theorem filled_runesOf {spec : List UInt8} : ∀ rune ∈ runesOf spec, rune ≠ [] := by
  intro rune member
  obtain ⟨part, isPart, rfl⟩ := mem_map.mp member
  rcases (runeParts_spec spec).2 part isPart with ⟨char, -, single⟩ | ⟨nonempty, -⟩
  · rw [single]
    exact cons_ne_nil _ _
  · exact nonempty

theorem flatten_runesOf (spec : List UInt8) : (runesOf spec).flatten = spec := by
  rw [runesOf, ← flatMap_def]
  exact (runeParts_spec spec).1

section Parsing

variable {grammar : Grammar} {heads : List Rune → List Rune → Prop} {spec : List UInt8}
  {volume : Volume}

theorem Grammar.Clear.parseVolume_iff (clear : grammar.Clear heads) :
    grammar.parseVolume spec = .ok volume ↔
      ∃ parts, grammar.Allows (runesOf spec) parts ∧ volumeOf parts = volume := by
  unfold Grammar.parseVolume
  cases found : (grammar.splits (runesOf spec)).head? with
  | none =>
    refine iff_of_false nofun ?_
    rintro ⟨parts, allowed, -⟩
    have member := mem_splits.mpr allowed
    rw [List.head?_eq_none_iff.mp found] at member
    cases member
  | some first =>
    have allowed := mem_splits.mp (mem_of_head? found)
    constructor
    · intro same
      exact ⟨first, allowed, Except.ok.inj same⟩
    · rintro ⟨parts, alsoAllowed, rfl⟩
      rw [clear.unambiguous alsoAllowed allowed]

/-- An accepted specification is what its parts print, and they are the only parts that the
grammar allows. -/
def Grammar.Determines (grammar : Grammar) (spec : List UInt8) : Prop :=
  ∀ volume, grammar.parseVolume spec = .ok volume → volume.definition = spec ∧
    ∃ parts, volumeOf parts = volume ∧ grammar.Allows (runesOf spec) parts ∧
      ∀ others, grammar.Allows (runesOf spec) others → others = parts

theorem Grammar.Clear.determines (clear : grammar.Clear heads) (spec : List UInt8) :
    grammar.Determines spec := by
  intro volume accepted
  obtain ⟨parts, allowed, rfl⟩ := clear.parseVolume_iff.mp accepted
  refine ⟨?_, parts, rfl, allowed, fun others other => clear.unambiguous other allowed⟩
  rw [allowed.definition filled_runesOf, flatten_runesOf]

end Parsing

section Cuts

variable {text : List Rune}

def slashRune : Rune := [slash]

/-- An absolute path without empty components, apart from one slash at the end, and without the
characters `\ / : * ? " < > |`, carriage return, line feed and blank. -/
def IsDirectory (text : List Rune) : Prop :=
  ∃ names last, text = slashRune :: (names.flatMap (· ++ [slashRune]) ++ last) ∧
    (∀ name ∈ names, name ≠ []) ∧
      ∀ name ∈ last :: names, ∀ rune ∈ name, isNoneOf "\\/:*?\"<>|\r\n " rune = true

/-- A directory, or a name without these characters apart from blanks. -/
def IsSource (text : List Rune) : Prop :=
  IsDirectory text ∨ text ≠ [] ∧ ∀ rune ∈ text, isNoneOf "\\/:*?\"<>|\r\n" rune = true

/-- `ro`, `rw` or `z` in any case. -/
def IsMode (text : List Rune) : Prop :=
  text ∈ ["ro", "rO", "Ro", "RO", "rw", "rW", "Rw", "RW", "z", "Z"].map fun mode =>
    mode.toList.map String.utf8EncodeChar

theorem isDirectory_of_matches (reads : Matches linuxDir text) : IsDirectory text := by
  obtain ⟨_, rest, rfl, first, more⟩ := matches_seq_iff.mp reads
  obtain ⟨rune, rfl, isRoot⟩ := matches_one_iff.mp first
  obtain rfl : rune = slashRune := of_decide_eq_true isRoot
  apply Matches.star_induction _ _ more
  · exact ⟨[], [], rfl, by simp, by simp⟩
  · rintro start _ element ⟨names, last, ⟨⟩, filled, allowed⟩
    simp only [matches_seq_iff, matches_plus_one_iff, matches_opt_iff, matches_one_iff] at element
    obtain ⟨name, _, rfl, ⟨nonempty, all⟩, ⟨_, rfl, isSeparator⟩ | rfl⟩ := element
    · obtain rfl := of_decide_eq_true isSeparator
      refine ⟨name :: names, last, by simp; rfl, by simpa [nonempty] using filled, ?_⟩
      simp only [forall_mem_cons] at allowed ⊢
      exact ⟨allowed.1, all, allowed.2⟩
    · -- An iteration without a slash is the beginning of the next component.
      simp only [forall_mem_cons] at allowed
      cases names with
      | nil =>
        refine ⟨[], name ++ last, by simp, by simp, ?_⟩
        simpa [or_imp, forall_and] using ⟨all, allowed.1⟩
      | cons next names =>
        simp only [forall_mem_cons] at filled allowed
        refine ⟨(name ++ next) :: names, last, by simp, by simpa [nonempty] using filled.2, ?_⟩
        simp only [forall_mem_cons, forall_mem_append]
        exact ⟨allowed.1, ⟨all, allowed.2.1⟩, allowed.2.2⟩

theorem matches_components {names : List (List Rune)} {last : List Rune}
    (filled : ∀ name ∈ names, name ≠ [])
    (allowed : ∀ name ∈ last :: names, ∀ rune ∈ name, isNoneOf "\\/:*?\"<>|\r\n " rune = true) :
    Matches (.star true (.seq (.plus (.one (isNoneOf "\\/:*?\"<>|\r\n ")))
      (.opt (.one (isChar '/'))))) (names.flatMap (· ++ [slashRune]) ++ last) := by
  rw [forall_mem_cons] at allowed
  induction names with
  | nil =>
    by_cases empty : last = []
    · rw [empty]
      exact .stop
    · have component := matches_plus_one_iff.mpr ⟨empty, allowed.1⟩
      rw [show List.flatMap _ [] ++ last = (last ++ []) ++ [] by simp]
      exact .more (by simpa using empty) (.seq component (.right .empty)) .stop
  | cons name names ih =>
    simp only [forall_mem_cons] at filled allowed
    have component := matches_plus_one_iff.mpr ⟨filled.1, allowed.2.1⟩
    rw [flatMap_cons, append_assoc]
    exact .more (by simp) (.seq component (.left (.one rfl))) (ih filled.2 ⟨allowed.1, allowed.2.2⟩)

theorem matches_linuxDir_iff : Matches linuxDir text ↔ IsDirectory text := by
  constructor
  · exact isDirectory_of_matches
  · rintro ⟨names, last, rfl, filled, allowed⟩
    exact .seq (.one rfl) (matches_components filled allowed)

theorem matches_linuxSource_iff : Matches linuxSource text ↔ IsSource text := by
  rw [linuxSource, matches_alt_iff, matches_linuxDir_iff, linuxVolumeName, matches_plus_one_iff,
    IsSource]

theorem matches_linuxMode_iff : Matches linuxMode text ↔ IsMode text := by
  constructor
  · simp only [linuxMode, matches_alt_iff, matches_letters_iff, forall₂_cons_left_iff,
      forall₂_nil_left_iff, isFolded, isChar, Bool.or_eq_true, decide_eq_true_eq]
    rintro (⟨_, _, rfl | rfl, ⟨_, _, rfl | rfl, rfl, rfl⟩, rfl⟩ |
      ⟨_, _, rfl | rfl, ⟨_, _, rfl | rfl, rfl, rfl⟩, rfl⟩ | ⟨_, _, rfl | rfl, rfl, rfl⟩) <;>
      simp [IsMode]
  · intro isMode
    have checked : ∀ mode ∈ ["ro", "rO", "Ro", "RO", "rw", "rW", "Rw", "RW", "z", "Z"].map
        fun mode => mode.toList.map String.utf8EncodeChar, (mode, []) ∈ ways linuxMode mode := by
      decide
    exact ((mem_ways _ _ _).mp (checked text isMode)).2

theorem not_mem_of_isDirectory (isDirectory : IsDirectory text) : colonRune ∉ text := by
  obtain ⟨head, last, rfl, rfl, -, free, -⟩ :=
    linuxGrammar_clear.cut (matches_linuxDir_iff.mpr isDirectory)
  exact free

theorem not_mem_of_isSource (isSource : IsSource text) : colonRune ∉ text := by
  rcases isSource with isDirectory | ⟨-, all⟩
  · exact not_mem_of_isDirectory isDirectory
  · exact not_mem_of_accepts (by decide) all

def pieces (source destination mode : List Rune) : List (List Rune) :=
  (if source = [] then [] else [source]) ++ [destination] ++ if mode = [] then [] else [mode]

theorem joined_eq_intercalate (source destination mode : List Rune) :
    withColon source ++ destination ++ colonWith mode =
      [colonRune].intercalate (pieces source destination mode) := by
  by_cases noSource : source = [] <;> by_cases noMode : mode = [] <;>
    simp [withColon, colonWith, pieces, noSource, noMode, List.intercalate]

/-- The Linux grammar allows what is cut at its colons into parts that fit. -/
theorem allows_linux_iff {source destination mode : List Rune} :
    linuxGrammar.Allows text (source, destination, mode) ↔
      text.splitOn colonRune = pieces source destination mode ∧ (source = [] ∨ IsSource source) ∧
        IsDirectory destination ∧ (mode = [] ∨ IsMode mode) := by
  rw [← matches_linuxSource_iff, ← matches_linuxDir_iff, ← matches_linuxMode_iff]
  constructor
  · rintro ⟨joined, sourceReads, reads, modeReads⟩
    refine ⟨?_, sourceReads, reads, modeReads⟩
    dsimp only at joined sourceReads reads modeReads
    rw [joined, joined_eq_intercalate]
    refine splitOn_intercalate colonRune ?_ (by simp [pieces])
    have free := not_mem_of_isDirectory (matches_linuxDir_iff.mp reads)
    simp only [pieces, forall_mem_append, forall_mem_singleton]
    refine ⟨⟨?_, free⟩, ?_⟩
    · rcases sourceReads with rfl | sourceReads
      · exact forall_mem_nil _
      · have sourceFree := not_mem_of_isSource (matches_linuxSource_iff.mp sourceReads)
        split <;> simp [sourceFree]
    · rcases modeReads with rfl | modeReads
      · exact forall_mem_nil _
      · have modeFree := (linuxGrammar_clear.mode modeReads).1
        split <;> simp [modeFree]
  · rintro ⟨cut, sourceReads, reads, modeReads⟩
    refine ⟨?_, sourceReads, reads, modeReads⟩
    rw [joined_eq_intercalate, ← cut, intercalate_splitOn]

end Cuts

theorem IsSource.ne_nil (isSource : IsSource text) : text ≠ [] := by
  rintro rfl
  exact linuxGrammar.filled.1 (matches_linuxSource_iff.mpr isSource)

theorem IsMode.ne_nil (isMode : IsMode text) : text ≠ [] := by
  rintro rfl
  exact linuxGrammar.filled.2 (matches_linuxMode_iff.mpr isMode)

/-- Accepted specifications print back and have one split only, for both parsers, and the Linux
parser accepts the specifications whose pieces between colons are a destination, with a source
before it or a mode behind it or both. -/
theorem parseVolume_exact (spec : List UInt8) :
    linuxGrammar.Determines spec ∧ windowsGrammar.Determines spec ∧
      ((∃ volume, linuxGrammar.parseVolume spec = .ok volume) ↔
        let cut := (runesOf spec).splitOn colonRune
        (∃ destination, cut = [destination] ∧ IsDirectory destination) ∨
        (∃ source destination, cut = [source, destination] ∧ IsSource source ∧
          IsDirectory destination) ∨
        (∃ destination mode, cut = [destination, mode] ∧ IsDirectory destination ∧ IsMode mode) ∨
        ∃ source destination mode, cut = [source, destination, mode] ∧ IsSource source ∧
          IsDirectory destination ∧ IsMode mode) := by
  refine ⟨linuxGrammar_clear.determines spec, windowsGrammar_clear.determines spec, ?_⟩
  constructor
  · rintro ⟨volume, accepted⟩
    obtain ⟨⟨source, destination, mode⟩, allowed, -⟩ :=
      linuxGrammar_clear.parseVolume_iff.mp accepted
    obtain ⟨cut, rfl | isSource, isDirectory, rfl | isMode⟩ := allows_linux_iff.mp allowed
    · exact .inl ⟨destination, cut, isDirectory⟩
    · exact .inr (.inr (.inl ⟨destination, mode, by simpa [pieces, isMode.ne_nil] using cut,
        isDirectory, isMode⟩))
    · exact .inr (.inl ⟨source, destination, by simpa [pieces, isSource.ne_nil] using cut, isSource,
        isDirectory⟩)
    · exact .inr (.inr (.inr ⟨source, destination, mode,
        by simpa [pieces, isSource.ne_nil, isMode.ne_nil] using cut, isSource, isDirectory,
        isMode⟩))
  · intro cuts
    suffices ∃ parts, linuxGrammar.Allows (runesOf spec) parts by
      obtain ⟨parts, allowed⟩ := this
      exact ⟨_, linuxGrammar_clear.parseVolume_iff.mpr ⟨parts, allowed, rfl⟩⟩
    rcases cuts with ⟨destination, cut, isDirectory⟩ | ⟨source, destination, cut, isSource,
      isDirectory⟩ | ⟨destination, mode, cut, isDirectory, isMode⟩ |
      ⟨source, destination, mode, cut, isSource, isDirectory, isMode⟩
    · exact ⟨([], destination, []), allows_linux_iff.mpr ⟨cut, .inl rfl, isDirectory, .inl rfl⟩⟩
    · exact ⟨(source, destination, []), allows_linux_iff.mpr
        ⟨by simpa [pieces, isSource.ne_nil] using cut, .inr isSource, isDirectory, .inl rfl⟩⟩
    · exact ⟨([], destination, mode), allows_linux_iff.mpr
        ⟨by simpa [pieces, isMode.ne_nil] using cut, .inl rfl, isDirectory, .inr isMode⟩⟩
    · exact ⟨(source, destination, mode), allows_linux_iff.mpr
        ⟨by simpa [pieces, isSource.ne_nil, isMode.ne_nil] using cut, .inr isSource, isDirectory,
          .inr isMode⟩⟩

end GitlabRunner.VolumeParsers
