import GitlabRunner.GoStrings
import GitlabRunner.Regexes

/-!
# Secrets in log lines

`ScrubSecrets` of `helpers/url` replaces the values behind sensitive keys.  The expression is
read on bytes: a rune above 127 stands for its encoding, and no such encoding contains one of
the other characters of the expression.
-/

namespace GitlabRunner.SecretScrubbing

open ByteText Regexes List

/-- The encodings of the runes that are one letter in some case.  The long s and the Kelvin
sign are among them. -/
def foldings (letter : UInt8) : List (List UInt8) :=
  [letter] :: ((if 97 ≤ letter ∧ letter ≤ 122 then [[letter - 32]] else []) ++
    (if letter = byte 's' then [[0xC5, 0xBF]] else []) ++
    (if letter = byte 'k' then [[0xE2, 0x84, 0xAA]] else []))

def choice (spellings : List (List UInt8)) : Regex UInt8 :=
  spellings.foldr (fun spelling => .alt (.letters (spelling.map fun char other => char == other)))
    (.one fun _ => false)

def word (letters : String) : Regex UInt8 :=
  ((ascii letters).map fun letter => choice (foldings letter)).foldr .seq .empty

def oneOf (chars : String) : Regex UInt8 :=
  .one fun char => (ascii chars).contains char

/-- The group of the expression. -/
def keyRegexp : Regex UInt8 :=
  .alt
    (.seq (oneOf "?&") (.seq (.alt (word "private") (.alt (word "authenticity") (word "rss")))
      (.seq (oneOf "-_") (word "token"))))
    (.alt (word "x-amz-signature") (word "x-amz-credential"))

def isValue (char : UInt8) : Bool :=
  char ≠ byte '&' && char ≠ byte ' '

def valueRegexp : Regex UInt8 :=
  .seq (oneOf "=") (.star true (.one isValue))

/-- The group of a match at the beginning of a text, and what is left behind the match. -/
def matchAt (text : List UInt8) : Option (List UInt8 × List UInt8) :=
  ((ways keyRegexp text).flatMap fun way =>
    (ways valueRegexp way.2).map fun last => (way.1, last.2)).head?

def filtered : List UInt8 := ascii "[FILTERED]"

/-- `ReplaceAllString`, with the number of bytes that are part of the last match. -/
def replaceFrom : Nat → List UInt8 → List UInt8
  | _, [] => []
  | skip + 1, _ :: text => replaceFrom skip text
  | 0, char :: text =>
    match matchAt (char :: text) with
    | some (key, rest) =>
      key ++ byte '=' :: (filtered ++ replaceFrom (text.length - rest.length) text)
    | none => char :: replaceFrom 0 text

def scrubSecrets (text : List UInt8) : List UInt8 :=
  replaceFrom 0 text

inductive Spelled : List UInt8 → List UInt8 → Prop where
  | nil : Spelled [] []
  | cons {letter : UInt8} {letters spelling text : List UInt8}
    (folds : spelling ∈ foldings letter) (rest : Spelled letters text) :
    Spelled (letter :: letters) (spelling ++ text)

inductive SensitiveKey : List UInt8 → Prop where
  | token {sign dash : UInt8} {name token : List UInt8} (signs : sign ∈ ascii "?&")
    (names : Spelled (ascii "private") name ∨ Spelled (ascii "authenticity") name ∨
      Spelled (ascii "rss") name)
    (dashes : dash ∈ ascii "-_") (tokens : Spelled (ascii "token") token) :
    SensitiveKey (sign :: (name ++ dash :: token))
  | signature {key : List UInt8} (spelled : Spelled (ascii "x-amz-signature") key) :
    SensitiveKey key
  | credential {key : List UInt8} (spelled : Spelled (ascii "x-amz-credential") key) :
    SensitiveKey key

def NoPair (text : List UInt8) : Prop :=
  ∀ key rest, SensitiveKey key → text ≠ key ++ byte '=' :: rest

/-- The text without the values of its pairs, read from the left. -/
inductive Scrubbed : List UInt8 → List UInt8 → Prop where
  | done : Scrubbed [] []
  | keep {char : UInt8} {text out : List UInt8} (noPair : NoPair (char :: text))
    (scrubbed : Scrubbed text out) : Scrubbed (char :: text) (char :: out)
  | pair {key rest out : List UInt8} (isKey : SensitiveKey key)
    (scrubbed : Scrubbed (rest.dropWhile isValue) out) :
    Scrubbed (key ++ byte '=' :: rest) (key ++ byte '=' :: (filtered ++ out))

/-- The text is empty or begins with a character that ends a value. -/
def Ends (text : List UInt8) : Prop :=
  ∀ char ∈ text.head?, isValue char = false

/-- Every sensitive key that is followed by `=` has the value `[FILTERED]`. -/
def AllFiltered (text : List UInt8) : Prop :=
  ∀ before key after, SensitiveKey key → text = before ++ (key ++ byte '=' :: after) →
    ∃ rest, after = filtered ++ rest ∧ Ends rest

section Expression

variable {text key rest : List UInt8}

theorem matches_choice_iff {spellings : List (List UInt8)} :
    Matches (choice spellings) text ↔ text ∈ spellings := by
  induction spellings with
  | nil => simp [choice, matches_one_iff]
  | cons spelling spellings ih =>
    have same : Matches (.letters (spelling.map fun char other => char == other)) text ↔
        text = spelling := by
      simp only [matches_letters_iff, forall₂_map_left_iff, beq_iff_eq, forall₂_eq_eq_eq]
      exact eq_comm
    rw [choice, foldr_cons, matches_alt_iff, same, mem_cons, ← ih]
    rfl

theorem matches_word_iff {letters : String} :
    Matches (word letters) text ↔ Spelled (ascii letters) text := by
  unfold word
  induction ascii letters generalizing text with
  | nil =>
    rw [map_nil, foldr_nil, matches_empty_iff]
    constructor
    · rintro rfl
      exact .nil
    · rintro ⟨⟩
      rfl
  | cons letter letters ih =>
    simp only [map_cons, foldr_cons, matches_seq_iff, matches_choice_iff, ih]
    constructor
    · rintro ⟨spelling, rest, rfl, folds, spelled⟩
      exact .cons folds spelled
    · intro spelled
      cases spelled with
      | cons folds spelled => exact ⟨_, _, rfl, folds, spelled⟩

theorem matches_oneOf_iff {chars : String} :
    Matches (oneOf chars) text ↔ ∃ char ∈ ascii chars, text = [char] := by
  simp [oneOf, matches_one_iff, and_comm]

theorem matches_keyRegexp_iff : Matches keyRegexp text ↔ SensitiveKey text := by
  simp only [keyRegexp, matches_alt_iff, matches_seq_iff, matches_oneOf_iff, matches_word_iff]
  constructor
  · rintro (⟨_, _, rfl, ⟨sign, signs, rfl⟩, name, _, rfl, names, _, token, rfl,
      ⟨dash, dashes, rfl⟩, tokens⟩ | spelled | spelled)
    · exact .token signs names dashes tokens
    · exact .signature spelled
    · exact .credential spelled
  · rintro (⟨signs, names, dashes, tokens⟩ | spelled | spelled)
    · exact .inl ⟨_, _, rfl, ⟨_, signs, rfl⟩, _, _, rfl, names, _, _, rfl, ⟨_, dashes, rfl⟩, tokens⟩
    · exact .inr (.inl spelled)
    · exact .inr (.inr spelled)

/-- The first of the ways to read a value reads all of it. -/
theorem head?_starWays {accepts : UInt8 → Bool} {fuel : Nat} (enough : text.length ≤ fuel) :
    (starWays (ways (.one accepts)) true fuel text).head? =
      some (text.takeWhile accepts, text.dropWhile accepts) := by
  induction fuel generalizing text with
  | zero =>
    obtain rfl := length_eq_zero_iff.mp (Nat.le_zero.mp enough)
    rfl
  | succ fuel ih =>
    cases text with
    | nil => rfl
    | cons char text =>
      have later := @ih text (by simpa using enough)
      cases accepted : accepts char with
      | false => simp [starWays, ways, accepted]
      | true => simp [starWays, ways, accepted, andThen, later]

theorem ways_value_cons : (ways valueRegexp (byte '=' :: text)).head? =
    some (byte '=' :: text.takeWhile isValue, text.dropWhile isValue) := by
  have greedy := @head?_starWays text isValue _ (Nat.le_refl _)
  simp [valueRegexp, oneOf, ways, ascii, andThen, greedy]

/-- A match at the beginning of a text is a key and its value, and there is none only if
there is no such pair. -/
theorem matchAt_cases (text : List UInt8) :
    (∃ key rest, SensitiveKey key ∧ text = key ++ byte '=' :: rest ∧
        matchAt text = some (key, rest.dropWhile isValue)) ∨ matchAt text = none ∧ NoPair text := by
  rw [matchAt, List.head?_flatMap]
  cases found : List.findSome? _ (ways keyRegexp text) with
  | some result =>
    obtain ⟨⟨key, left⟩, isWay, first⟩ := exists_of_findSome?_eq_some found
    obtain ⟨rfl, isKey⟩ := (mem_ways _ _ _).mp isWay
    cases left with
    | nil => cases first
    | cons char rest =>
      by_cases same : char = byte '='
      · subst same
        rw [List.head?_map, ways_value_cons] at first
        cases first
        exact .inl ⟨key, rest, matches_keyRegexp_iff.mp isKey, rfl, rfl⟩
      · simp [valueRegexp, oneOf, ways, ascii, same] at first
  | none =>
    refine .inr ⟨rfl, ?_⟩
    rintro key rest isKey rfl
    have isWay := (mem_ways keyRegexp _ (key, byte '=' :: rest)).mpr
      ⟨rfl, matches_keyRegexp_iff.mpr isKey⟩
    have noValue := List.findSome?_eq_none_iff.mp found _ isWay
    rw [List.head?_map, ways_value_cons] at noValue
    cases noValue

end Expression

section Keys

variable {text key other rest more out : List UInt8}

def isFirst (char : UInt8) : Bool :=
  (ascii "?&xX").contains char

def isInner (char : UInt8) : Bool :=
  !isFirst char && char ≠ byte '='

theorem Spelled.inner {letters : List UInt8} (spelled : Spelled letters text)
    (checked : (letters.all fun letter => (foldings letter).all (List.all · isInner)) = true) :
    ∀ char ∈ text, isInner char = true := by
  induction spelled with
  | nil => simp
  | cons folds _ ih =>
    rw [all_cons, Bool.and_eq_true_iff] at checked
    intro char member
    rcases mem_append.mp member with here | later
    · exact all_eq_true.mp (all_eq_true.mp checked.1 _ folds) char here
    · exact ih checked.2 char later

/-- The first character of a key is the only one at which a key can begin. -/
def Keylike (text : List UInt8) : Prop :=
  ∃ first inner, text = first :: inner ∧ isFirst first = true ∧
    ∀ char ∈ inner, isInner char = true

theorem keylike_of_amazon {letters : List UInt8} (spelled : Spelled (byte 'x' :: letters) key)
    (checked : (letters.all fun letter => (foldings letter).all (List.all · isInner)) = true) :
    Keylike key := by
  cases spelled with
  | @cons _ _ spelling inner folds spelled =>
    have both : spelling = [byte 'x'] ∨ spelling = [byte 'X'] := by
      simpa [foldings, byte] using folds
    rcases both with rfl | rfl
    · exact ⟨_, inner, rfl, by decide, spelled.inner checked⟩
    · exact ⟨_, inner, rfl, by decide, spelled.inner checked⟩

theorem SensitiveKey.keylike (isKey : SensitiveKey key) : Keylike key := by
  cases isKey with
  | @token sign dash name token signs names dashes tokens =>
    have isSign := all_eq_true.mp (by decide : (ascii "?&").all isFirst = true) sign signs
    have isDash := all_eq_true.mp (by decide : (ascii "-_").all isInner = true) dash dashes
    refine ⟨sign, _, rfl, isSign, forall_mem_append.mpr ⟨?_, ?_⟩⟩
    · rcases names with spelled | spelled | spelled
      · exact spelled.inner (by decide)
      · exact spelled.inner (by decide)
      · exact spelled.inner (by decide)
    · exact forall_mem_cons.mpr ⟨isDash, tokens.inner (by decide)⟩
  | signature spelled => exact keylike_of_amazon spelled (by decide)
  | credential spelled => exact keylike_of_amazon spelled (by decide)

theorem Keylike.equals_not_mem (keylike : Keylike key) : byte '=' ∉ key := by
  obtain ⟨first, inner, rfl, isFirst, inners⟩ := keylike
  rw [mem_cons]
  rintro (rfl | member)
  · exact absurd isFirst (by decide)
  · exact absurd (inners _ member) (by decide)

theorem SensitiveKey.unique (isKey : SensitiveKey key) (isOther : SensitiveKey other)
    (same : key ++ byte '=' :: rest = other ++ byte '=' :: more) : key = other ∧ rest = more := by
  have cut := congrArg (GoStrings.splitTwo · (byte '=')) same
  rw [GoStrings.splitTwo_append isKey.keylike.equals_not_mem,
    GoStrings.splitTwo_append isOther.keylike.equals_not_mem] at cut
  simpa using cut

end Keys

section Runs

variable {text key other rest more out : List UInt8}

theorem replaceFrom_drop (skip : Nat) (text : List UInt8) :
    replaceFrom skip text = scrubSecrets (text.drop skip) := by
  induction text generalizing skip with
  | nil => cases skip <;> rfl
  | cons char text ih =>
    cases skip with
    | zero => rfl
    | succ skip => exact ih skip

theorem scrubSecrets_pair (isKey : SensitiveKey key) :
    scrubSecrets (key ++ byte '=' :: rest) =
      key ++ byte '=' :: (filtered ++ scrubSecrets (rest.dropWhile isValue)) := by
  rcases matchAt_cases (key ++ byte '=' :: rest) with ⟨found, left, isFound, same, matched⟩ | none
  · obtain ⟨rfl, rfl⟩ := isKey.unique isFound same
    obtain ⟨first, inner, rfl, -⟩ := isKey.keylike
    have suffix : rest.dropWhile isValue <:+ inner ++ byte '=' :: rest :=
      (dropWhile_suffix _).trans ⟨inner ++ [byte '='], by simp⟩
    rw [cons_append] at matched ⊢
    rw [scrubSecrets, replaceFrom, matched]
    dsimp only
    rw [replaceFrom_drop, ← suffix_iff_eq_drop.mp suffix]
  · exact absurd rfl (none.2 key rest isKey)

theorem scrubSecrets_keep {char : UInt8} (noPair : NoPair (char :: text)) :
    scrubSecrets (char :: text) = char :: scrubSecrets text := by
  rcases matchAt_cases (char :: text) with ⟨key, rest, isKey, same, -⟩ | none
  · exact absurd same (noPair key rest isKey)
  · rw [scrubSecrets, replaceFrom, none.1]
    rfl

theorem scrubbed_scrubSecrets (text : List UInt8) : Scrubbed text (scrubSecrets text) := by
  induction length : text.length using Nat.strongRecOn generalizing text with
  | _ bound ih =>
    rcases matchAt_cases text with ⟨key, rest, isKey, rfl, -⟩ | ⟨-, noPair⟩
    · rw [scrubSecrets_pair isKey]
      have shorter := (dropWhile_suffix (l := rest) isValue).length_le
      have later := ih _ (by simp at length; omega) (rest.dropWhile isValue) rfl
      exact .pair isKey later
    · cases text with
      | nil => exact .done
      | cons char text =>
        rw [scrubSecrets_keep noPair]
        exact .keep noPair (ih text.length (by simp at length; omega) text rfl)

theorem Scrubbed.head?_eq (scrubbed : Scrubbed text out) : out.head? = text.head? := by
  cases scrubbed with
  | done | keep => rfl
  | pair isKey =>
    obtain ⟨first, inner, rfl, -⟩ := isKey.keylike
    rfl

theorem Scrubbed.ends (scrubbed : Scrubbed (rest.dropWhile isValue) out) : Ends out := by
  intro char first
  have stops := List.head?_dropWhile_not isValue rest
  rw [← scrubbed.head?_eq, Option.mem_def.mp first] at stops
  simpa using stops

/-- Text in which no key can begin was there before. -/
theorem Scrubbed.of_append {start : List UInt8} (scrubbed : Scrubbed text (start ++ out))
    (noFirst : ∀ char ∈ start, isFirst char = false) : ∃ more, text = start ++ more := by
  induction start generalizing text with
  | nil => exact ⟨text, rfl⟩
  | cons char start ih =>
    rw [cons_append] at scrubbed
    generalize same : char :: (start ++ out) = all at scrubbed
    cases scrubbed with
    | done => cases same
    | keep _ scrubbed =>
      cases same
      obtain ⟨more, rfl⟩ := ih scrubbed fun other member =>
        noFirst other (mem_cons_of_mem _ member)
      exact ⟨more, rfl⟩
    | pair isKey =>
      obtain ⟨first, inner, rfl, isFirst, -⟩ := isKey.keylike
      obtain ⟨rfl, -⟩ := cons_eq_cons.mp same
      simp [noFirst char mem_cons_self] at isFirst

theorem isFirst_of_inner {inner : List UInt8} (inners : ∀ char ∈ inner, isInner char = true) :
    ∀ char ∈ inner ++ [byte '='], isFirst char = false := by
  intro char member
  rcases mem_append.mp member with isInner | isEquals
  · simpa using (Bool.and_eq_true_iff.mp (inners char isInner)).1
  · rw [mem_singleton.mp isEquals]
    decide

/-- Where no pair began, none begins after the values behind have been replaced. -/
theorem Scrubbed.noPair {char : UInt8} (scrubbed : Scrubbed text out)
    (noPair : NoPair (char :: text)) : NoPair (char :: out) := by
  intro key rest isKey same
  obtain ⟨first, inner, rfl, -, inners⟩ := isKey.keylike
  obtain ⟨rfl, tail⟩ := cons_eq_cons.mp same
  have front : out = (inner ++ [byte '=']) ++ rest := by simpa using tail
  obtain ⟨more, rfl⟩ := (front ▸ scrubbed).of_append (isFirst_of_inner inners)
  exact noPair _ more isKey (by simp)

theorem dropWhile_filtered (ends : Ends out) : (filtered ++ out).dropWhile isValue = out := by
  rw [dropWhile_append_of_pos (all_eq_true.mp (by decide))]
  cases out with
  | nil => rfl
  | cons char out => exact dropWhile_cons_of_neg (by simp [ends char rfl])

theorem Scrubbed.fixed (scrubbed : Scrubbed text out) : scrubSecrets out = out := by
  induction scrubbed with
  | done => rfl
  | keep noPair scrubbed ih => rw [scrubSecrets_keep (scrubbed.noPair noPair), ih]
  | pair isKey scrubbed ih => rw [scrubSecrets_pair isKey, dropWhile_filtered scrubbed.ends, ih]

/-- A key that begins in a text begins behind everything in which no key can begin. -/
theorem SensitiveKey.exists_back {start before tail : List UInt8} (isKey : SensitiveKey key)
    (noFirst : ∀ char ∈ start, isFirst char = false)
    (same : start ++ out = before ++ (key ++ tail)) : ∃ back, out = back ++ (key ++ tail) := by
  rcases append_eq_append_iff.mp same with ⟨back, -, behind⟩ | ⟨back, rfl, behind⟩
  · exact ⟨back, behind⟩
  · cases back with
    | nil => exact ⟨[], behind.symm⟩
    | cons char back =>
      obtain ⟨first, inner, rfl, isFirst, -⟩ := isKey.keylike
      obtain ⟨rfl, -⟩ := cons_eq_cons.mp behind
      simp [noFirst first (by simp)] at isFirst

theorem Scrubbed.allFiltered (scrubbed : Scrubbed text out) : AllFiltered out := by
  induction scrubbed with
  | done =>
    intro before key after isKey same
    simp at same
  | keep noPair scrubbed ih =>
    intro before key after isKey same
    cases before with
    | nil => exact absurd same (scrubbed.noPair noPair key after isKey)
    | cons char before => exact ih before key after isKey (cons_eq_cons.mp same).2
  | pair isFound scrubbed ih =>
    intro before key after isKey same
    cases before with
    | nil =>
      obtain ⟨-, rfl⟩ := isFound.unique isKey same
      exact ⟨_, rfl, scrubbed.ends⟩
    | cons char before =>
      obtain ⟨first, inner, rfl, -, inners⟩ := isFound.keylike
      have noFirst : ∀ char ∈ (inner ++ [byte '=']) ++ filtered, isFirst char = false := by
        refine forall_mem_append.mpr ⟨isFirst_of_inner inners, fun char member => ?_⟩
        simpa using all_eq_true.mp (by decide : filtered.all (!isFirst ·) = true) char member
      obtain ⟨back, rfl⟩ := isKey.exists_back noFirst (by simpa using (cons_eq_cons.mp same).2)
      exact ih back key after isKey rfl

end Runs

/-- What `ScrubSecrets` makes of a text: all values of sensitive keys are replaced, the text
between them is copied, and nothing is left to replace. -/
theorem scrubSecrets_exact (text : List UInt8) :
    AllFiltered (scrubSecrets text) ∧ Scrubbed text (scrubSecrets text) ∧
      scrubSecrets (scrubSecrets text) = scrubSecrets text :=
  have scrubbed := scrubbed_scrubSecrets text
  ⟨scrubbed.allFiltered, scrubbed, scrubbed.fixed⟩

end GitlabRunner.SecretScrubbing
