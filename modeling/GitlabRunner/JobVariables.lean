import GitlabRunner.ByteText

/-!
# Job variables

`JobVariables` of `common/variables.go`: a list in which the last definition of a
key counts, and `Expand`, which replaces `$name` and `${name}` in every value by the
unexpanded value of the name.  The scanner follows `os.Expand`.
-/

namespace GitlabRunner.Variables

open ByteText List

def dollar : UInt8 := byte '$'

def openBrace : UInt8 := byte '\x7b'

def closeBrace : UInt8 := byte '\x7d'

def equalsSign : UInt8 := byte '='

def isShellSpecialVar (char : UInt8) : Bool :=
  (ascii "*#$@!?0123456789").contains char

def isAlphaNum (char : UInt8) : Bool :=
  char = byte '_' ∨ byte '0' ≤ char ∧ char ≤ byte '9' ∨
    byte 'a' ≤ char ∧ char ≤ byte 'z' ∨ byte 'A' ≤ char ∧ char ≤ byte 'Z'

/-- `getShellName`: the name that begins a text, and the number of bytes read for
it. -/
def getShellName : List UInt8 → List UInt8 × Nat
  | [] => ([], 0)
  | first :: rest =>
    if first = openBrace then
      match rest with
      | special :: close :: _ =>
        if isShellSpecialVar special ∧ close = closeBrace then ([special], 3)
        else braced rest
      | _ => braced rest
    else if isShellSpecialVar first then ([first], 1)
    else
      let name := (first :: rest).takeWhile isAlphaNum
      (name, name.length)
where
  /-- The scan to the closing brace; without one only the opening brace is read. -/
  braced (rest : List UInt8) : List UInt8 × Nat :=
    if rest.contains closeBrace then
      let name := rest.takeWhile fun char => char ≠ closeBrace
      (name, name.length + 2)
    else ([], 1)

/-- The loop of `os.Expand`, with the number of bytes that were already read as part
of a name. -/
def expandFrom (mapping : List UInt8 → List UInt8) : Nat → List UInt8 → List UInt8
  | _, [] => []
  | read + 1, _ :: rest => expandFrom mapping read rest
  | 0, char :: rest =>
    if char = dollar ∧ rest ≠ [] then
      mapping (getShellName rest).1 ++ expandFrom mapping (getShellName rest).2 rest
    else char :: expandFrom mapping 0 rest

def osExpand (text : List UInt8) (mapping : List UInt8 → List UInt8) : List UInt8 :=
  expandFrom mapping 0 text

/-- The names that `os.Expand` looks up, with the number of bytes that were already read as
part of a name. -/
def namesFrom : Nat → List UInt8 → List (List UInt8)
  | _, [] => []
  | read + 1, _ :: rest => namesFrom read rest
  | 0, char :: rest =>
    if char = dollar ∧ rest ≠ [] then
      (getShellName rest).1 :: namesFrom (getShellName rest).2 rest
    else namesFrom 0 rest

def referencedNames (text : List UInt8) : List (List UInt8) :=
  namesFrom 0 text

theorem osExpand_congr {text : List UInt8} {first second : List UInt8 → List UInt8}
    (agree : ∀ name ∈ referencedNames text, first name = second name) :
    osExpand text first = osExpand text second := by
  unfold osExpand
  unfold referencedNames at agree
  generalize 0 = read at agree ⊢
  induction text generalizing read with
  | nil => cases read <;> rfl
  | cons char rest ih =>
    cases read with
    | succ read => exact ih read agree
    | zero =>
      unfold namesFrom at agree
      unfold expandFrom
      split
      · rename_i isReference
        rw [if_pos isReference] at agree
        rw [agree _ mem_cons_self, ih _ fun name member =>
          agree name (mem_cons_of_mem _ member)]
      · rename_i noReference
        rw [if_neg noReference] at agree
        rw [ih 0 agree]

structure JobVariable where
  key : List UInt8
  value : List UInt8
  isPublic : Bool
  internal : Bool
  file : Bool
  masked : Bool
  deriving DecidableEq, Repr

abbrev JobVariables := List JobVariable

/-- The keys that `Get` answers without looking at the list. -/
def isPositional (key : List UInt8) : Bool :=
  match key with
  | [char] => (ascii "*#@!?0123456789").contains char
  | _ => false

def JobVariables.get (jobVariables : JobVariables) (key : List UInt8) : List UInt8 :=
  if key = [dollar] then key
  else if isPositional key then []
  else
    match jobVariables.reverse.find? fun entry => entry.key = key with
    | some entry => entry.value
    | none => []

theorem JobVariables.get_congr {first second : JobVariables} {key : List UInt8}
    (same : first.filter (fun entry => entry.key = key) =
      second.filter (fun entry => entry.key = key)) : first.get key = second.get key := by
  have last : ∀ jobVariables : JobVariables,
      (jobVariables.reverse.find? fun entry => entry.key = key) =
        (jobVariables.filter fun entry => entry.key = key).reverse.head? := by
    intro jobVariables
    rw [← List.head?_filter, filter_reverse]
  simp only [get, last, same]

def JobVariables.expandValue (jobVariables : JobVariables) (value : List UInt8) :
    List UInt8 :=
  osExpand value jobVariables.get

def JobVariables.expand (jobVariables : JobVariables) : JobVariables :=
  jobVariables.map fun entry =>
    { entry with value := jobVariables.expandValue entry.value }

/-- A text falls into bytes and names once, whatever the names stand for. -/
theorem osExpand_pieces (text : List UInt8) :
    ∃ pieces : List (UInt8 ⊕ List UInt8), ∀ mapping,
      osExpand text mapping = pieces.flatMap (Sum.elim (fun char => [char]) mapping) := by
  unfold osExpand
  generalize 0 = read
  induction text generalizing read with
  | nil => exact ⟨[], fun _ => rfl⟩
  | cons char rest ih =>
    cases read with
    | succ read => exact ih read
    | zero =>
      unfold expandFrom
      split
      · obtain ⟨pieces, expanded⟩ := ih (getShellName rest).2
        exact ⟨.inr (getShellName rest).1 :: pieces, fun mapping => by rw [expanded]; rfl⟩
      · obtain ⟨pieces, expanded⟩ := ih 0
        exact ⟨.inl char :: pieces, fun mapping => by rw [expanded]; rfl⟩

theorem osExpand_of_plain {text : List UInt8} (plain : dollar ∉ text)
    (mapping : List UInt8 → List UInt8) : osExpand text mapping = text := by
  unfold osExpand
  induction text with
  | nil => rfl
  | cons char rest ih =>
    rw [mem_cons, not_or] at plain
    rw [expandFrom, if_neg fun reference => plain.1 reference.1.symm, ih plain.2]

theorem JobVariables.get_expand (jobVariables : JobVariables) (key : List UInt8) :
    jobVariables.expand.get key = jobVariables.expandValue (jobVariables.get key) := by
  unfold get
  split
  · subst key
    rfl
  · split
    · rfl
    · rw [expand, ← map_reverse, List.find?_map]
      dsimp only [Function.comp_def]
      cases jobVariables.reverse.find? fun entry => entry.key = key <;> rfl

/-- `Expand` goes over the values once, and over nothing else of the variables. -/
theorem JobVariables.expand_lookup (jobVariables : JobVariables) :
    (∀ key, jobVariables.expand.get key = jobVariables.expandValue (jobVariables.get key)) ∧
      (jobVariables.expand.length = jobVariables.length ∧
        ∀ (index : Nat) (entry : JobVariable), jobVariables[index]? = some entry →
          jobVariables.expand[index]? =
            some { entry with value := jobVariables.expandValue entry.value }) ∧
      (∀ text, ∃ pieces : List (UInt8 ⊕ List UInt8), ∀ known : JobVariables,
        known.expandValue text = pieces.flatMap (Sum.elim (fun char => [char]) known.get)) ∧
      ((∀ entry ∈ jobVariables, dollar ∉ entry.value) → jobVariables.expand = jobVariables) := by
  refine ⟨get_expand jobVariables, ⟨length_map _, ?_⟩, ?_, ?_⟩
  · intro index entry found
    rw [expand, List.getElem?_map, found]
    rfl
  · intro text
    obtain ⟨pieces, expanded⟩ := osExpand_pieces text
    exact ⟨pieces, fun known => expanded known.get⟩
  · intro plain
    refine (map_congr_left ?_).trans (map_id _)
    intro entry member
    rw [expandValue, osExpand_of_plain (plain entry member)]
    rfl

def JobVariables.masked (jobVariables : JobVariables) : List (List UInt8) :=
  (jobVariables.filter JobVariable.masked).map JobVariable.value

theorem JobVariables.mem_masked_expand {jobVariables : JobVariables} {value : List UInt8} :
    value ∈ jobVariables.expand.masked ↔
      ∃ entry ∈ jobVariables, entry.masked = true ∧
        jobVariables.expandValue entry.value = value := by
  simp only [masked, expand, mem_map, mem_filter]
  constructor
  · rintro ⟨_, ⟨⟨entry, member, rfl⟩, isMasked⟩, rfl⟩
    exact ⟨entry, member, isMasked, rfl⟩
  · rintro ⟨entry, member, isMasked, rfl⟩
    exact ⟨_, ⟨⟨entry, member, rfl⟩, isMasked⟩, rfl⟩

def parseVariable (text : List UInt8) : Option JobVariable :=
  if text.contains equalsSign then
    some
      { key := text.takeWhile fun char => char ≠ equalsSign
        value := (text.dropWhile fun char => char ≠ equalsSign).drop 1
        isPublic := false
        internal := false
        file := false
        masked := false }
  else none

end GitlabRunner.Variables
