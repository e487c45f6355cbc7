import GitlabRunner.ByteText
import Mathlib.Data.List.Infix

/-!
# Slash-separated paths

Go's `path.Clean` and `path.Join`, and `filepath.Rel` on Unix, work on the text of a path.
-/

namespace GitlabRunner.SlashPaths

open ByteText List

def slash : UInt8 := byte '/'

def dot : UInt8 := byte '.'

def parent : List UInt8 := [dot, dot]

def rooted (path : List UInt8) : Bool :=
  path.head? = some slash

/-- The elements of a path that a walk follows: empty ones and `.` stay where they
are. -/
def elements (path : List UInt8) : List (List UInt8) :=
  (path.splitOn slash).filter fun element => element ≠ [] ∧ element ≠ [dot]

def parts (path : List UInt8) : List (List UInt8) :=
  (path.splitOn slash).filter fun element => element ≠ []

def namesOf (path : List (List UInt8)) : List (List UInt8) :=
  path.filter fun part => part ≠ [dot]

/-- Leave the innermost directory.  The root has no parent, and the parent of an
unnamed directory has no name. -/
def ascend (fromRoot : Bool) : List (List UInt8) → List (List UInt8)
  | [] => if fromRoot then [] else [parent]
  | innermost :: outer => if innermost = parent then parent :: innermost :: outer else outer

def follow (fromRoot : Bool) (place : List (List UInt8)) (element : List UInt8) :
    List (List UInt8) :=
  if element = parent then ascend fromRoot place else element :: place

def walk (fromRoot : Bool) (place : List (List UInt8)) (path : List (List UInt8)) :
    List (List UInt8) :=
  path.foldl (follow fromRoot) place

def place (path : List UInt8) : List (List UInt8) :=
  walk (rooted path) [] (elements path)

def assemble (fromRoot : Bool) (path : List (List UInt8)) : List UInt8 :=
  if fromRoot then slash :: [slash].intercalate path
  else if path = [] then [dot] else [slash].intercalate path

def clean (path : List UInt8) : List UInt8 :=
  assemble (rooted path) (place path).reverse

/-- `path.Join`: empty parts in front are ignored. -/
def join (parts : List (List UInt8)) : List UInt8 :=
  match parts.dropWhile (fun part => part = []) with
  | [] => []
  | first :: rest => clean ([slash].intercalate (first :: rest))

/-- `filepath.Dir`: the cleaned path up to its last slash. -/
def dir (path : List UInt8) : List UInt8 :=
  clean (path.reverse.dropWhile fun char => char ≠ slash).reverse

def dropCommon : List (List UInt8) → List (List UInt8) →
    List (List UInt8) × List (List UInt8)
  | base :: bases, target :: targets =>
    if base = target then dropCommon bases targets else (base :: bases, target :: targets)
  | bases, targets => (bases, targets)

def rel (base target : List UInt8) : Option (List UInt8) :=
  let base := clean base
  let target := clean target
  if target = base then some [dot]
  else
    let base := if base = [dot] then [] else base
    if rooted base ≠ rooted target then none
    else
      match dropCommon (parts base) (parts target) with
      | (bases, targets) =>
        if bases.head? = some parent then none
        else some ([slash].intercalate (List.replicate bases.length parent ++ targets))

/-- A relative path leads out of the directory it starts from. -/
def leadsUp (path : List UInt8) : Bool :=
  path = parent ∨ parent ++ [slash] <+: path

/-- The cleaned path lies strictly below the cleaned directory. -/
def Below (dir path : List UInt8) : Prop :=
  rooted dir = rooted path ∧ elements dir <+: elements path ∧ elements dir ≠ elements path

instance (dir path : List UInt8) : Decidable (Below dir path) :=
  inferInstanceAs (Decidable (_ ∧ _ ∧ _))

structure IsElement (element : List UInt8) : Prop where
  nonempty : element ≠ []
  notDot : element ≠ [dot]
  noSlash : slash ∉ element

theorem isElement_parent : IsElement parent := by
  constructor <;> decide

theorem not_mem_of_mem_splitOn {path element : List UInt8} (member : element ∈ path.splitOn slash) :
    slash ∉ element := by
  induction path generalizing element with
  | nil =>
    rw [mem_singleton.mp member]
    exact not_mem_nil
  | cons byte rest ih =>
    rw [splitOn_cons_eq_if_modifyHead] at member
    split at member
    · rcases mem_cons.mp member with rfl | later
      · exact not_mem_nil
      · exact ih later
    · rename_i notSlash
      obtain ⟨first, others, parts⟩ := exists_cons_of_ne_nil (splitOn_ne_nil slash rest)
      rw [parts] at ih member
      rcases mem_cons.mp member with rfl | later
      · rw [mem_cons, not_or]
        exact ⟨fun same => notSlash (beq_iff_eq.mpr same.symm), ih mem_cons_self⟩
      · exact ih (mem_cons_of_mem first later)

variable {element : List UInt8}

theorem isElement_of_mem {path : List UInt8} (member : element ∈ elements path) :
    IsElement element := by
  obtain ⟨part, proper⟩ := mem_filter.mp member
  have notTrivial : element ≠ [] ∧ element ≠ [dot] := by simpa using proper
  exact ⟨notTrivial.1, notTrivial.2, not_mem_of_mem_splitOn part⟩

theorem slashed_cons_cons (first second : List UInt8) (rest : List (List UInt8)) :
    [slash].intercalate (first :: second :: rest) =
      first ++ slash :: [slash].intercalate (second :: rest) := by
  simp [List.intercalate]

theorem infix_intercalate {parts : List (List UInt8)}
    (member : element ∈ parts) : element <:+: [slash].intercalate parts := by
  induction parts with
  | nil => cases member
  | cons first rest ih =>
    cases rest with
    | nil =>
      rw [mem_singleton.mp member]
      simp [List.intercalate]
    | cons second others =>
      rw [slashed_cons_cons]
      rcases mem_cons.mp member with rfl | later
      · exact infix_append [] element _
      · apply (ih later).trans
        apply List.IsSuffix.isInfix
        exact ⟨first ++ [slash], by simp⟩

theorem infix_of_mem {path : List UInt8} (member : element ∈ elements path) :
    element <:+: path := by
  have part := (mem_filter.mp member).1
  have inside := infix_intercalate part
  rw [intercalate_splitOn] at inside
  exact inside

@[simp]
theorem elements_nil : elements [] = [] := by
  decide

theorem elements_append_slash (front back : List UInt8) :
    elements (front ++ slash :: back) = elements front ++ elements back := by
  rw [elements, splitOn_append_cons_self, filter_append]
  rfl

theorem elements_slash (path : List UInt8) : elements (slash :: path) = elements path := by
  have separated := elements_append_slash [] path
  rw [elements_nil] at separated
  exact separated

theorem elements_eq_namesOf (path : List UInt8) : elements path = namesOf (parts path) := by
  rw [elements, parts, namesOf, filter_filter]
  congr 1
  funext element
  simp [Bool.and_comm]

theorem namesOf_dot (rest : List (List UInt8)) : namesOf ([dot] :: rest) = namesOf rest :=
  filter_cons_of_neg (by decide)

theorem namesOf_cons {part : List UInt8} (notDot : part ≠ [dot]) (rest : List (List UInt8)) :
    namesOf (part :: rest) = part :: namesOf rest :=
  filter_cons_of_pos (by simpa using notDot)

theorem namesOf_append (front back : List (List UInt8)) :
    namesOf (front ++ back) = namesOf front ++ namesOf back :=
  filter_append front back
variable {path : List (List UInt8)}

theorem parent_mem_namesOf_iff : parent ∈ namesOf path ↔ parent ∈ path := by
  rw [namesOf, mem_filter]
  constructor
  · rintro ⟨member, -⟩
    exact member
  · intro member
    exact ⟨member, by decide⟩

theorem elements_of_isElement (proper : IsElement element) : elements element = [element] := by
  rw [elements, splitOn_eq_singleton proper.noSlash]
  simp [proper.nonempty, proper.notDot]

theorem elements_intercalate (parts : List (List UInt8)) :
    elements ([slash].intercalate parts) = parts.flatMap elements := by
  induction parts with
  | nil => exact elements_nil
  | cons first rest ih =>
    cases rest with
    | nil => simp [List.intercalate]
    | cons second others =>
      rw [slashed_cons_cons, elements_append_slash, ih]
      simp only [flatMap_cons]

theorem elements_assemble (proper : ∀ element ∈ path, IsElement element) (fromRoot : Bool) :
    elements (assemble fromRoot path) = path := by
  have same : path.flatMap elements = path := by
    rw [flatMap_congr (g := fun element => [element])]
    · exact flatMap_singleton' path
    · intro element member
      exact elements_of_isElement (proper element member)
  cases fromRoot with
  | true =>
    change elements (slash :: _) = path
    rw [elements_slash, elements_intercalate, same]
  | false =>
    by_cases empty : path = []
    · rw [empty]
      decide
    · rw [assemble, if_neg (by decide), if_neg empty, elements_intercalate, same]
variable {first : List UInt8}

theorem head_intercalate (nonempty : first ≠ []) (rest : List (List UInt8)) :
    ([slash].intercalate (first :: rest)).head? = first.head? := by
  cases first with
  | nil => exact (nonempty rfl).elim
  | cons byte bytes =>
    cases rest with
    | nil => simp [List.intercalate]
    | cons second others => simp [List.intercalate]

theorem not_rooted_of_isElement (proper : IsElement element) : rooted element = false := by
  cases element with
  | nil => rfl
  | cons byte bytes =>
    have other : slash ≠ byte := fun same => proper.noSlash (by simp [same])
    simpa [rooted] using other.symm

theorem rooted_assemble (proper : ∀ element ∈ path, IsElement element) (fromRoot : Bool) :
    rooted (assemble fromRoot path) = fromRoot := by
  cases fromRoot with
  | true => rfl
  | false =>
    cases path with
    | nil => decide
    | cons first rest =>
      have firstProper := proper first mem_cons_self
      change decide (([slash].intercalate (first :: rest)).head? = some slash) = false
      rw [head_intercalate firstProper.nonempty]
      exact not_rooted_of_isElement firstProper

theorem walk_append (fromRoot : Bool) (start : List (List UInt8)) (front back : List (List UInt8)) :
    walk fromRoot start (front ++ back) = walk fromRoot (walk fromRoot start front) back :=
  foldl_append

variable {start : List (List UInt8)} {fromRoot : Bool}

theorem isElement_follow
    (proper : ∀ other ∈ start, IsElement other) (isElement : IsElement element) :
    ∀ other ∈ follow fromRoot start element, IsElement other := by
  intro other member
  unfold follow at member
  split at member
  · unfold ascend at member
    split at member
    · split at member
      · cases member
      · rw [mem_singleton.mp member]
        exact isElement_parent
    · split at member
      · rcases mem_cons.mp member with rfl | inside
        · exact isElement_parent
        · exact proper other inside
      · exact proper other (mem_cons_of_mem _ member)
  · rcases mem_cons.mp member with rfl | inside
    · exact isElement
    · exact proper other inside

theorem isElement_walk (followed : ∀ element ∈ path, IsElement element) :
    ∀ {start : List (List UInt8)}, (∀ element ∈ start, IsElement element) →
      ∀ element ∈ walk fromRoot start path, IsElement element := by
  induction path with
  | nil =>
    intro start proper
    exact proper
  | cons element path ih =>
    intro start proper
    have tailProper : ∀ element ∈ path, IsElement element :=
      fun other member => followed other (mem_cons_of_mem element member)
    apply ih tailProper
    exact isElement_follow proper (followed element mem_cons_self)

theorem isElement_place {path : List UInt8} (member : element ∈ place path) :
    IsElement element := by
  apply isElement_walk _ _ element member
  · intro other inPath
    exact isElement_of_mem inPath
  · exact nofun

theorem elements_clean (path : List UInt8) : elements (clean path) = (place path).reverse := by
  apply elements_assemble
  intro element member
  exact isElement_place (mem_reverse.mp member)

theorem rooted_clean (path : List UInt8) : rooted (clean path) = rooted path := by
  apply rooted_assemble
  intro element member
  exact isElement_place (mem_reverse.mp member)

theorem clean_ne_nil (path : List UInt8) : clean path ≠ [] := by
  intro empty
  have sameRoot := rooted_clean path
  have samePlace := elements_clean path
  rw [empty] at sameRoot samePlace
  rw [clean, ← sameRoot, ← samePlace] at empty
  exact absurd empty (by decide)

theorem follow_name (name : element ≠ parent) (fromRoot : Bool)
    (start : List (List UInt8)) : follow fromRoot start element = element :: start :=
  if_neg name

theorem ascend_name {innermost : List UInt8} (name : innermost ≠ parent) (fromRoot : Bool)
    (outer : List (List UInt8)) : ascend fromRoot (innermost :: outer) = outer :=
  if_neg name

theorem ascend_replicate (above : Nat) :
    ascend false (List.replicate above parent) = List.replicate (above + 1) parent := by
  cases above with
  | zero | succ => rfl

/-- The normal form of a relative path: how far it climbs, and the directories it
then enters, innermost first. -/
structure Relative where
  climb : Nat
  entered : List (List UInt8)
  deriving DecidableEq, Repr

def Relative.follow (path : Relative) (element : List UInt8) : Relative :=
  if element = parent then
    match path.entered with
    | [] => { path with climb := path.climb + 1 }
    | _ :: outer => { path with entered := outer }
  else { path with entered := element :: path.entered }

def relative (path : List (List UInt8)) : Relative :=
  path.foldl Relative.follow ⟨0, []⟩

theorem relative_append_singleton (path : List (List UInt8)) (element : List UInt8) :
    relative (path ++ [element]) = (relative path).follow element := by
  rw [relative, foldl_append]
  rfl

theorem Relative.follow_name (name : element ≠ parent)
    (path : Relative) : path.follow element = ⟨path.climb, element :: path.entered⟩ :=
  if_neg name

theorem entered_append_name (name : element ≠ parent) (path : List (List UInt8)) :
    (relative (path ++ [element])).entered = element :: (relative path).entered := by
  rw [relative_append_singleton, Relative.follow_name name]

theorem entered_append_parent (path : List (List UInt8)) :
    (relative (path ++ [parent])).entered = (relative path).entered.tail := by
  rw [relative_append_singleton, Relative.follow, if_pos rfl]
  split
  · simp [*]
  · simp [*]

theorem climb_append_name (name : element ≠ parent) (path : List (List UInt8)) :
    (relative (path ++ [element])).climb = (relative path).climb := by
  rw [relative_append_singleton, Relative.follow_name name]

theorem climb_append_parent (path : List (List UInt8)) :
    (relative (path ++ [parent])).climb =
      if (relative path).entered = [] then (relative path).climb + 1
      else (relative path).climb := by
  rw [relative_append_singleton, Relative.follow, if_pos rfl]
  split
  · simp [*]
  · simp [*]

theorem parent_not_mem_entered (path : List (List UInt8)) : parent ∉ (relative path).entered := by
  induction path using List.reverseRecOn with
  | nil => exact not_mem_nil
  | append_singleton path element ih =>
    by_cases isParent : element = parent
    · rw [isParent, entered_append_parent]
      exact fun member => ih (mem_of_mem_tail member)
    · rw [entered_append_name isParent, mem_cons, not_or]
      exact ⟨Ne.symm isParent, ih⟩

theorem climb_le_append (front back : List (List UInt8)) :
    (relative front).climb ≤ (relative (front ++ back)).climb := by
  induction back using List.reverseRecOn with
  | nil => exact Nat.le_of_eq (by rw [append_nil])
  | append_singleton back element ih =>
    rw [← append_assoc]
    by_cases isParent : element = parent
    · rw [isParent, climb_append_parent]
      split
      · omega
      · exact ih
    · rw [climb_append_name isParent]
      exact ih

/-- A path that does not climb leaves only directories that it has entered. -/
theorem entered_of_climb_parent (low : (relative (path ++ [parent])).climb = 0) :
    ∃ innermost, (relative path).entered = innermost :: (relative (path ++ [parent])).entered := by
  rw [entered_append_parent]
  rw [climb_append_parent] at low
  cases inside : (relative path).entered with
  | nil =>
    rw [if_pos inside] at low
    cases low
  | cons innermost outer => exact ⟨innermost, rfl⟩

theorem entered_subset (path : List (List UInt8)) : (relative path).entered ⊆ path := by
  induction path using List.reverseRecOn with
  | nil => exact nil_subset _
  | append_singleton path element ih =>
    intro name member
    by_cases isParent : element = parent
    · rw [isParent, entered_append_parent] at member
      exact mem_append_left _ (ih (mem_of_mem_tail member))
    · rw [entered_append_name isParent] at member
      rcases mem_cons.mp member with rfl | member
      · exact mem_append_right _ mem_cons_self
      · exact mem_append_left _ (ih member)

/-- Every directory above the one that a path leads to was entered on the way. -/
theorem exists_entered {names : List (List UInt8)} (above : names <:+ (relative path).entered) :
    ∃ front, front <+: path ∧ (relative front).entered = names := by
  induction path using List.reverseRecOn with
  | nil =>
    rw [suffix_nil.mp above]
    exact ⟨[], prefix_rfl, rfl⟩
  | append_singleton path element ih =>
    have earlier : names <:+ (relative path).entered →
        ∃ front, front <+: path ++ [element] ∧ (relative front).entered = names := by
      intro above
      obtain ⟨front, begins, same⟩ := ih above
      exact ⟨front, begins.trans (prefix_append _ _), same⟩
    by_cases isParent : element = parent
    · rw [isParent, entered_append_parent] at above
      exact earlier (above.trans (tail_suffix _))
    · rw [entered_append_name isParent] at above
      rcases suffix_cons_iff.mp above with same | above
      · refine ⟨path ++ [element], prefix_rfl, ?_⟩
        rw [entered_append_name isParent, same]
      · exact earlier above

theorem climb_append_names {front back : List (List UInt8)} (names : parent ∉ back) :
    (relative (front ++ back)).climb = (relative front).climb := by
  induction back using List.reverseRecOn with
  | nil => rw [append_nil]
  | append_singleton back element ih =>
    have name : element ≠ parent := by
      rintro rfl
      exact names (mem_append_right _ mem_cons_self)
    rw [← append_assoc, climb_append_name name]
    exact ih fun member => names (mem_append_left _ member)

variable {named : List (List UInt8)}

/-- A walk is determined by the normal form.  At the root it climbs no further; above the
named directories of an unnamed one it does. -/
theorem walk_relative (names : parent ∉ named) (fromRoot : Bool)
    {above : Nat} (top : fromRoot = true → above = 0) (path : List (List UInt8)) :
    walk fromRoot (named ++ List.replicate above parent) path =
      (relative path).entered ++ (named.drop (relative path).climb ++
        List.replicate (if fromRoot then 0 else above + ((relative path).climb - named.length))
          parent) := by
  induction path using List.reverseRecOn with
  | nil =>
    cases fromRoot with
    | true => simp [walk, relative, top]
    | false => simp [walk, relative]
  | append_singleton path element ih =>
    rw [walk_append, ih]
    change follow fromRoot _ element = _
    by_cases isParent : element = parent
    · rw [isParent, entered_append_parent, climb_append_parent]
      change ascend fromRoot _ = _
      cases inside : (relative path).entered with
      | nil =>
        rw [if_pos rfl, nil_append, tail_nil, nil_append]
        cases left : named.drop (relative path).climb with
        | nil =>
          have short := drop_eq_nil_iff.mp left
          rw [drop_eq_nil_iff.mpr (by omega), nil_append, nil_append]
          cases fromRoot with
          | true => rfl
          | false =>
            rw [if_neg (by decide), if_neg (by decide), ascend_replicate]
            congr 1
            omega
        | cons innermost outer =>
          have name : innermost ≠ parent := by
            rintro rfl
            exact names (mem_of_mem_drop (left ▸ mem_cons_self))
          have long : (relative path).climb < named.length := by
            by_contra short
            rw [drop_eq_nil_iff.mpr (by omega)] at left
            cases left
          rw [cons_append, ascend_name name, ← drop_drop, left,
            Nat.sub_eq_zero_of_le (by omega), Nat.sub_eq_zero_of_le (by omega)]
          rfl
      | cons innermost outer =>
        have name : innermost ≠ parent := by
          rintro rfl
          exact parent_not_mem_entered path (inside ▸ mem_cons_self)
        rw [if_neg (cons_ne_nil _ _)]
        exact ascend_name name fromRoot _
    · rw [follow_name isParent, entered_append_name isParent, climb_append_name isParent]
      rfl

theorem walk_root (names : parent ∉ start) (path : List (List UInt8)) :
    walk true start path = (relative path).entered ++ start.drop (relative path).climb := by
  have walked := walk_relative names true (fun _ => rfl) path
  rw [replicate_zero, append_nil, if_pos rfl, replicate_zero, append_nil] at walked
  exact walked

theorem parent_not_mem_walk (names : parent ∉ start)
    (path : List (List UInt8)) : parent ∉ walk true start path := by
  rw [walk_root names, mem_append, not_or]
  exact ⟨parent_not_mem_entered path, fun member => names (mem_of_mem_drop member)⟩

theorem walk_unrooted (names : parent ∉ named) (above : Nat) (path : List (List UInt8)) :
    walk false (named ++ List.replicate above parent) path =
      (relative path).entered ++ (named.drop (relative path).climb ++
        List.replicate (above + ((relative path).climb - named.length)) parent) :=
  walk_relative names false nofun path

theorem relative_climb_names {entered : List (List UInt8)} (names : parent ∉ entered)
    (climb : Nat) :
    relative (List.replicate climb parent ++ entered) = ⟨climb, entered.reverse⟩ := by
  induction entered using List.reverseRecOn with
  | nil =>
    rw [append_nil]
    induction climb with
    | zero => rfl
    | succ climb ih =>
      rw [replicate_succ', relative_append_singleton, ih]
      rfl
  | append_singleton entered element ih =>
    rw [mem_append, not_or, mem_singleton] at names
    rw [← append_assoc, relative_append_singleton, ih names.1,
      Relative.follow_name (fun same => names.2 same.symm), reverse_append]
    rfl

theorem relative_names (names : parent ∉ path) : relative path = ⟨0, path.reverse⟩ :=
  relative_climb_names names 0

theorem place_rooted {path : List UInt8} (fromRoot : rooted path = true) :
    place path = (relative (elements path)).entered := by
  rw [place, fromRoot, walk_root not_mem_nil, drop_nil, append_nil]

theorem place_unrooted {path : List UInt8} (fromRoot : rooted path = false) :
    place path = (relative (elements path)).entered ++
      List.replicate (relative (elements path)).climb parent := by
  have walked := walk_unrooted not_mem_nil 0 (elements path)
  rw [replicate_zero, append_nil, drop_nil, nil_append, Nat.zero_add,
    length_nil, Nat.sub_zero] at walked
  rw [place, fromRoot]
  exact walked

theorem parent_not_mem_place {path : List UInt8} (fromRoot : rooted path = true) :
    parent ∉ place path := by
  rw [place_rooted fromRoot]
  exact parent_not_mem_entered (elements path)

theorem walk_names (names : parent ∉ path) (fromRoot : Bool) :
    ∀ start : List (List UInt8), walk fromRoot start path = path.reverse ++ start := by
  induction path with
  | nil =>
    intro start
    rfl
  | cons element path ih =>
    intro start
    have name : element ≠ parent := fun same => names (by simp [same])
    have later := ih (fun member => names (mem_cons_of_mem element member)) (element :: start)
    change walk fromRoot (follow fromRoot start element) path = _
    rw [follow_name name, later]
    simp

theorem place_clean (path : List UInt8) : place (clean path) = place path := by
  have reversed : parent ∉ (relative (elements path)).entered.reverse :=
    fun member => parent_not_mem_entered _ (mem_reverse.mp member)
  rw [place, rooted_clean, elements_clean]
  cases fromRoot : rooted path with
  | true => rw [place_rooted fromRoot, walk_names reversed, reverse_reverse, append_nil]
  | false =>
    have walked := walk_unrooted not_mem_nil 0
      (List.replicate (relative (elements path)).climb parent ++
        (relative (elements path)).entered.reverse)
    rw [relative_climb_names reversed] at walked
    rw [place_unrooted fromRoot, reverse_append, reverse_replicate]
    simpa using walked

theorem clean_eq_iff (dir path : List UInt8) :
    clean path = clean dir ↔ rooted dir = rooted path ∧ place dir = place path := by
  constructor
  · intro same
    rw [← rooted_clean dir, ← place_clean dir, ← same, rooted_clean, place_clean]
    exact ⟨rfl, rfl⟩
  · rintro ⟨sameRoot, samePlace⟩
    rw [clean, clean, sameRoot, samePlace]

/-- A cleaned path lies strictly below a cleaned directory when its place lies further
down. -/
theorem below_clean_iff (dir path : List UInt8) :
    Below (clean dir) (clean path) ↔
      rooted dir = rooted path ∧ place dir <:+ place path ∧ place dir ≠ place path := by
  rw [Below, elements_clean, elements_clean, rooted_clean, rooted_clean, reverse_prefix,
    reverse_injective.ne_iff]

/-- A cleaned path lies at or below a cleaned directory when its place lies in the
place of the directory. -/
theorem atOrBelow_clean_iff (dir path : List UInt8) :
    clean path = clean dir ∨ Below (clean dir) (clean path) ↔
      rooted dir = rooted path ∧ place dir <:+ place path := by
  rw [clean_eq_iff, below_clean_iff]
  constructor
  · rintro (⟨sameRoot, samePlace⟩ | ⟨sameRoot, inside, -⟩)
    · exact ⟨sameRoot, samePlace ▸ suffix_rfl⟩
    · exact ⟨sameRoot, inside⟩
  · rintro ⟨sameRoot, inside⟩
    by_cases same : place dir = place path
    · exact .inl ⟨sameRoot, same⟩
    · exact .inr ⟨sameRoot, inside, same⟩

theorem clean_clean (path : List UInt8) : clean (clean path) = clean path := by
  rw [clean_eq_iff, rooted_clean, place_clean]
  exact ⟨rfl, rfl⟩

theorem join_nil_cons (rest : List (List UInt8)) : join ([] :: rest) = join rest := by
  simp [join]

theorem join_cons (nonempty : first ≠ []) (rest : List (List UInt8)) :
    join (first :: rest) = clean ([slash].intercalate (first :: rest)) := by
  simp [join, nonempty]

theorem rooted_join (nonempty : first ≠ [])
    (rest : List (List UInt8)) : rooted (join (first :: rest)) = rooted first := by
  rw [join_cons nonempty, rooted_clean, rooted, head_intercalate nonempty]
  rfl

theorem place_join (nonempty : first ≠ []) (rest : List (List UInt8)) :
    place (join (first :: rest)) = walk (rooted first) (place first) (rest.flatMap elements) := by
  have sameRoot : rooted ([slash].intercalate (first :: rest)) = rooted first := by
    rw [rooted, head_intercalate nonempty]
    rfl
  rw [join_cons nonempty, place_clean, place, sameRoot, elements_intercalate,
    flatMap_cons, walk_append]
  rfl

/-- A path joined to a rooted directory climbs from it and enters what is left. -/
theorem place_join_rooted {dir : List UInt8} (fromRoot : rooted dir = true) (path : List UInt8) :
    place (join [dir, path]) = (relative (elements path)).entered ++
      (place dir).drop (relative (elements path)).climb := by
  have nonempty : dir ≠ [] := by
    rintro rfl
    cases fromRoot
  rw [place_join nonempty, fromRoot, flatMap_singleton, walk_root (parent_not_mem_place fromRoot)]

theorem clean_join (nonempty : first ≠ [])
    (rest : List (List UInt8)) : clean (join (first :: rest)) = join (first :: rest) := by
  rw [join_cons nonempty, clean_clean]

theorem dirPart_cases (path : List UInt8) :
    (path.reverse.dropWhile fun char => char ≠ slash) = [] ∨
      ∃ front last, path = front ++ slash :: last ∧
        (path.reverse.dropWhile fun char => char ≠ slash).reverse = front ++ [slash] := by
  have whole := takeWhile_append_dropWhile (p := fun char => decide (char ≠ slash))
    (l := path.reverse)
  cases rest : path.reverse.dropWhile fun char => char ≠ slash with
  | nil => exact .inl rfl
  | cons char others =>
    have isSlash : char = slash := by
      have stops := List.head?_dropWhile_not (fun char => decide (char ≠ slash)) path.reverse
      rw [rest] at stops
      simpa using stops
    subst isSlash
    refine .inr ⟨others.reverse, (path.reverse.takeWhile fun char => char ≠ slash).reverse,
      ?_, by simp⟩
    rw [rest] at whole
    have reversed := congrArg List.reverse whole
    rw [reverse_reverse, reverse_append, reverse_cons, append_assoc] at reversed
    exact reversed.symm

/-- The directory of a path that does not climb is a relative path of names. -/
theorem dir_names {path : List UInt8} (isRelative : rooted path = false)
    (low : (relative (elements path)).climb = 0) :
    rooted (dir path) = false ∧ parent ∉ elements (dir path) := by
  unfold dir
  rw [rooted_clean, elements_clean]
  rcases dirPart_cases path with empty | ⟨front, last, whole, part⟩
  · rw [empty]
    decide
  · have frontRelative : rooted (front ++ [slash]) = false := by
      rw [whole] at isRelative
      cases front with
      | nil | cons => exact isRelative
    have frontElements : elements (front ++ [slash]) = elements front := by
      rw [elements_append_slash, elements_nil, append_nil]
    have frontLow : (relative (elements front)).climb = 0 := by
      rw [whole, elements_append_slash] at low
      exact Nat.le_zero.mp (low ▸ climb_le_append _ (elements last))
    rw [part, place_unrooted frontRelative, frontElements, frontLow, mem_reverse]
    rw [replicate_zero, append_nil]
    exact ⟨frontRelative, parent_not_mem_entered (elements front)⟩

theorem dir_append_name {front name : List UInt8} (noSlash : slash ∉ name) :
    dir (front ++ slash :: name) = clean (front ++ [slash]) := by
  have dropped : ((front ++ slash :: name).reverse.dropWhile fun char => char ≠ slash) =
      slash :: front.reverse := by
    rw [reverse_append, reverse_cons, append_assoc, dropWhile_append_of_pos]
    · simp
    · intro char member
      refine decide_eq_true ?_
      rintro rfl
      exact noSlash (mem_reverse.mp member)
  rw [dir, dropped, reverse_cons, reverse_reverse]

theorem intercalate_concat (nonempty : path ≠ []) (last : List UInt8) :
    [slash].intercalate (path ++ [last]) = [slash].intercalate path ++ slash :: last := by
  induction path with
  | nil => exact (nonempty rfl).elim
  | cons first rest ih =>
    cases rest with
    | nil => simp [List.intercalate]
    | cons second others =>
      have later := ih (by simp)
      rw [cons_append] at later
      rw [cons_append, cons_append, slashed_cons_cons, later,
        slashed_cons_cons, append_assoc, cons_append]

theorem length_walk_le (fromRoot : Bool) (start : List (List UInt8)) :
    (walk fromRoot start path).length ≤ start.length + path.length := by
  induction path generalizing start with
  | nil => exact Nat.le_refl _
  | cons element path ih =>
    have followed : (follow fromRoot start element).length ≤ start.length + 1 := by
      cases start <;> grind [follow, ascend]
    have walked := ih (follow fromRoot start element)
    rw [length_cons]
    change (walk fromRoot (follow fromRoot start element) path).length ≤ _
    omega

theorem walk_outer {name : List UInt8} {outer : List (List UInt8)}
    (same : walk fromRoot [] (name :: outer).reverse = name :: outer) :
    walk fromRoot [] outer.reverse = outer := by
  have short := @length_walk_le outer.reverse fromRoot []
  rw [reverse_cons, walk_append] at same
  generalize walk fromRoot [] outer.reverse = start at same short
  change follow fromRoot start name = name :: outer at same
  cases start <;> grind [follow, ascend]

/-- The directory of a cleaned path is the place around it. -/
theorem place_dir {path : List UInt8} (cleaned : clean path = path) :
    rooted (dir path) = rooted path ∧ place (dir path) = (place path).tail := by
  have proper : ∀ element ∈ place path, IsElement element := fun element => isElement_place
  have walked := place_clean path
  rw [place, elements_clean, rooted_clean] at walked
  rw [clean] at cleaned
  cases whole : place path with
  | nil =>
    rw [whole] at cleaned
    rw [← cleaned]
    cases rooted path <;> decide
  | cons name outer =>
    rw [whole] at proper cleaned walked
    have isName := proper name mem_cons_self
    have outerProper : ∀ element ∈ outer.reverse, IsElement element := by
      intro element member
      exact proper element (mem_cons_of_mem name (mem_reverse.mp member))
    have above : (dir path = clean [] ∧ rooted path = false ∧ outer = []) ∨
        ∃ front, path = front ++ slash :: name ∧ elements front = outer.reverse := by
      rw [reverse_cons, assemble, if_neg (by simp : outer.reverse ++ [name] ≠ [])] at cleaned
      by_cases top : outer = []
      · subst top
        cases fromRoot : rooted path with
        | true =>
          refine .inr ⟨[], ?_, elements_nil⟩
          rw [← cleaned, fromRoot]
          simp [List.intercalate]
        | false =>
          have alone : path = name := by
            rw [← cleaned, fromRoot]
            simp [List.intercalate]
          rcases dirPart_cases path with empty | ⟨front, last, whole, -⟩
          · exact .inl ⟨by rw [dir, empty]; rfl, rfl, rfl⟩
          · exact (isName.noSlash (by simp [← alone, whole])).elim
      · refine .inr ⟨assemble (rooted path) outer.reverse, ?_, elements_assemble outerProper _⟩
        rw [intercalate_concat (by simpa using top)] at cleaned
        cases fromRoot : rooted path <;> simp_all [assemble]
    rcases above with ⟨same, isRelative, rfl⟩ | ⟨front, split, frontElements⟩
    · rw [same, isRelative, tail_cons]
      decide
    · have frontRooted : rooted (front ++ [slash]) = rooted path := by
        rw [split]
        cases front <;> rfl
      have same : dir path = clean (front ++ [slash]) := by
        rw [split, dir_append_name isName.noSlash]
      rw [same, rooted_clean, place_clean, place, frontRooted, elements_append_slash, elements_nil,
        append_nil, frontElements]
      exact ⟨rfl, walk_outer walked⟩

theorem parts_assemble (proper : ∀ element ∈ path, IsElement element)
    (shown : fromRoot = true ∨ path ≠ []) : parts (assemble fromRoot path) = path := by
  have kept : path.filter (fun element => element ≠ []) = path := by
    apply filter_eq_self.mpr
    intro element member
    simpa using (proper element member).nonempty
  by_cases empty : path = []
  · rw [empty]
    rw [empty] at shown
    rcases shown with rfl | nonempty
    · decide
    · exact (nonempty rfl).elim
  · have pieces := splitOn_intercalate slash
      (fun element member => (proper element member).noSlash) empty
    cases fromRoot with
    | true =>
      have separated := splitOn_append_cons_self (a := slash) [] ([slash].intercalate path)
      rw [nil_append, splitOn_nil, pieces] at separated
      change (List.splitOn slash (slash :: [slash].intercalate path)).filter _ = path
      rw [separated, filter_append, kept]
      rfl
    | false => rw [parts, assemble, if_neg (by decide), if_neg empty, pieces, kept]

theorem dropCommon_spec (bases targets : List (List UInt8)) :
    ∃ common, bases = common ++ (dropCommon bases targets).1 ∧
      targets = common ++ (dropCommon bases targets).2 ∧
      ∀ element, (dropCommon bases targets).1.head? = some element →
        (dropCommon bases targets).2.head? ≠ some element := by
  induction bases generalizing targets with
  | nil => exact ⟨[], rfl, rfl, nofun⟩
  | cons base bases ih =>
    cases targets with
    | nil => exact ⟨[], rfl, rfl, nofun⟩
    | cons target targets =>
      by_cases same : base = target
      · subst same
        obtain ⟨common, fromBase, fromTarget, apart⟩ := ih targets
        simp only [dropCommon, if_true]
        exact ⟨base :: common, congrArg (base :: ·) fromBase,
          congrArg (base :: ·) fromTarget, apart⟩
      · simp only [dropCommon, same, if_false]
        refine ⟨[], rfl, rfl, ?_⟩
        intro element first second
        apply same
        exact (Option.some.inj first).trans (Option.some.inj second).symm

/-- A text begins with `../` when its elements begin with `..` and go on. -/
theorem parent_slash_prefix_iff (proper : ∀ element ∈ path, slash ∉ element) :
    parent ++ [slash] <+: [slash].intercalate path ↔
      path.head? = some parent ∧ 2 ≤ path.length := by
  constructor
  · rintro ⟨more, same⟩
    have pieces := congrArg (List.splitOn slash) same
    rw [append_assoc, singleton_append, splitOn_append_cons_self_of_not_mem (by decide)] at pieces
    cases path with
    | nil => cases pieces
    | cons first rest =>
      rw [splitOn_intercalate slash proper (cons_ne_nil _ _), List.cons.injEq] at pieces
      refine ⟨congrArg some pieces.1.symm, ?_⟩
      rw [length_cons, ← pieces.2]
      have := length_pos_iff.mpr (splitOn_ne_nil slash more)
      omega
  · rintro ⟨head, long⟩
    match path with
    | first :: second :: rest =>
      obtain rfl := Option.some.inj head
      exact ⟨[slash].intercalate (second :: rest), by simp⟩

theorem leadsUp_intercalate_iff (proper : ∀ element ∈ path, slash ∉ element) :
    leadsUp ([slash].intercalate path) = true ↔ path.head? = some parent := by
  simp only [leadsUp, decide_eq_true_eq, parent_slash_prefix_iff proper]
  match path with
  | [] => decide
  | [first] => simp [List.intercalate]
  | first :: second :: others =>
    have separated : first ++ slash :: [slash].intercalate (second :: others) ≠ parent := by
      intro same
      have member : slash ∈ parent := by simp [← same]
      exact absurd member (by decide)
    simp [separated]

theorem leadsUp_assemble_iff (proper : ∀ element ∈ path, IsElement element) :
    leadsUp (assemble false path) = true ↔ path.head? = some parent := by
  by_cases empty : path = []
  · rw [empty]
    decide
  · rw [assemble, if_neg (by decide), if_neg empty]
    apply leadsUp_intercalate_iff
    intro element member
    exact (proper element member).noSlash

theorem parts_clean {path : List UInt8} (shown : rooted path = true ∨ place path ≠ []) :
    parts (clean path) = (place path).reverse := by
  apply parts_assemble
  · intro element member
    exact isElement_place (mem_reverse.mp member)
  · rcases shown with fromRoot | nonempty
    · exact .inl fromRoot
    · exact .inr (by simpa using nonempty)

theorem clean_ne_dot {path : List UInt8} (shown : rooted path = true ∨ place path ≠ []) :
    clean path ≠ [dot] := by
  intro same
  rcases shown with fromRoot | nonempty
  · rw [← rooted_clean, same] at fromRoot
    exact absurd fromRoot (by decide)
  · have none := elements_clean path
    rw [same] at none
    apply nonempty
    apply reverse_injective
    rw [← none]
    decide

variable {target base : List UInt8} {targets : List (List UInt8)} {bases : List (List UInt8)}

/-- `filepath.Rel` for different places: up from the base to the common directory,
and down to the target.  There is no name for the way out of an unnamed directory. -/
theorem rel_eq (sameRoot : rooted base = rooted target)
    (shown : rooted base = true ∨ place base ≠ []) (apart : clean target ≠ clean base)
    (split : dropCommon (place base).reverse (parts (clean target)) = (bases, targets)) :
    rel base target =
      if bases.head? = some parent then none
      else some ([slash].intercalate (List.replicate bases.length parent ++ targets)) := by
  have roots : rooted (clean base) = rooted (clean target) := by
    rw [rooted_clean, rooted_clean, sameRoot]
  simp only [rel, apart, clean_ne_dot shown, roots, parts_clean shown, split,
    if_false, ne_eq, not_true_eq_false]

/-- `filepath.Rel` for rooted paths: up from the base to the common directory, and down
to the target. -/
theorem rel_rooted (baseRooted : rooted base = true) (targetRooted : rooted target = true) :
    ∃ common bases targets, (place base).reverse = common ++ bases ∧
      (place target).reverse = common ++ targets ∧
      (∀ element, bases.head? = some element → targets.head? ≠ some element) ∧
      rel base target = some (assemble false (List.replicate bases.length parent ++ targets)) := by
  by_cases same : clean target = clean base
  · refine ⟨(place base).reverse, [], [], ?_, ?_, nofun, ?_⟩
    · rw [append_nil]
    · rw [append_nil, ((clean_eq_iff _ _).mp same).2]
    · simp only [rel, same, if_true]
      rfl
  · obtain ⟨common, fromBase, fromTarget, apart⟩ :=
      dropCommon_spec (place base).reverse (parts (clean target))
    cases split : dropCommon (place base).reverse (parts (clean target)) with
    | mk bases targets =>
      rw [split] at fromBase fromTarget apart
      rw [parts_clean (.inl targetRooted)] at fromTarget
      refine ⟨common, bases, targets, fromBase, fromTarget, apart, ?_⟩
      have named : bases.head? ≠ some parent := by
        intro head
        apply parent_not_mem_place baseRooted
        rw [← mem_reverse, fromBase]
        exact mem_append_right common (mem_of_mem_head? head)
      have shown : List.replicate bases.length parent ++ targets ≠ [] := by
        intro empty
        obtain ⟨climbs, enters⟩ := append_eq_nil_iff.mp empty
        have noBases : bases = [] := by simpa using climbs
        refine same ((clean_eq_iff _ _).mpr ⟨baseRooted.trans targetRooted.symm, ?_⟩)
        apply reverse_injective
        rw [fromBase, fromTarget, noBases, enters]
      rw [rel_eq (baseRooted.trans targetRooted.symm) (.inl baseRooted) same split,
        if_neg named, assemble, if_neg (by decide), if_neg shown]
variable {common : List (List UInt8)}

theorem isElement_relative (fromTarget : (place target).reverse = common ++ targets) (climb : Nat) :
    ∀ element ∈ List.replicate climb parent ++ targets, IsElement element := by
  intro element member
  rcases mem_append.mp member with climbing | entering
  · rw [eq_of_mem_replicate climbing]
    exact isElement_parent
  · have inside : element ∈ place target := by
      rw [← mem_reverse, fromTarget]
      exact mem_append_right common entering
    exact isElement_place inside

theorem parent_not_mem_targets (targetRooted : rooted target = true)
    (fromTarget : (place target).reverse = common ++ targets) : parent ∉ targets := by
  intro member
  apply parent_not_mem_place targetRooted
  rw [← mem_reverse, fromTarget]
  exact mem_append_right common member

theorem place_of_reverse (whole : (place target).reverse = common ++ targets) :
    place target = targets.reverse ++ common.reverse := by
  rw [← reverse_append, ← whole, reverse_reverse]

theorem rel_ne_nil {up : List UInt8} (baseRooted : rooted base = true)
    (targetRooted : rooted target = true) (result : rel base target = some up) : up ≠ [] := by
  obtain ⟨common, bases, targets, -, fromTarget, -, related⟩ :=
    rel_rooted baseRooted targetRooted
  cases related.symm.trans result
  intro empty
  have proper := isElement_relative fromTarget bases.length
  have elementsEmpty := elements_assemble proper false
  rw [empty, elements_nil] at elementsEmpty
  rw [← elementsEmpty] at empty
  exact absurd empty (by decide)

theorem place_join_rel {up : List UInt8} (baseRooted : rooted base = true)
    (targetRooted : rooted target = true) (result : rel base target = some up) :
    place (join [base, up]) = place target := by
  obtain ⟨common, bases, targets, fromBase, fromTarget, -, related⟩ :=
    rel_rooted baseRooted targetRooted
  cases related.symm.trans result
  have nonempty : base ≠ [] := by
    rintro rfl
    cases baseRooted
  have names := parent_not_mem_targets targetRooted fromTarget
  have proper := isElement_relative fromTarget bases.length
  have basePlace := place_of_reverse fromBase
  have targetPlace := place_of_reverse fromTarget
  rw [place_join nonempty, baseRooted, flatMap_cons, flatMap_nil, append_nil,
    elements_assemble proper, walk_root (parent_not_mem_place baseRooted),
    relative_climb_names names, targetPlace, basePlace]
  simp

/-- Nothing is left of the base exactly if the target lies in it. -/
theorem bases_eq_nil_iff (fromBase : (place base).reverse = common ++ bases)
    (fromTarget : (place target).reverse = common ++ targets)
    (apart : ∀ element, bases.head? = some element → targets.head? ≠ some element) :
    bases = [] ↔ place base <:+ place target := by
  rw [← reverse_prefix, fromBase, fromTarget, prefix_append_right_inj]
  constructor
  · rintro rfl
    exact nil_prefix
  · intro inside
    cases bases with
    | nil => rfl
    | cons name others =>
      obtain ⟨more, same⟩ := inside
      exact (apart name rfl (by rw [← same]; rfl)).elim

/-- The relative path is `..` exactly if the target is the directory above the base. -/
theorem rel_eq_parent_iff (baseRooted : rooted base = true) (targetRooted : rooted target = true) :
    rel base target = some parent ↔ ∃ name, place base = name :: place target := by
  obtain ⟨common, bases, targets, fromBase, fromTarget, apart, related⟩ :=
    rel_rooted baseRooted targetRooted
  have basePlace := place_of_reverse fromBase
  have targetPlace := place_of_reverse fromTarget
  rw [related]
  constructor
  · intro same
    have whole := elements_assemble (isElement_relative fromTarget bases.length) false
    rw [Option.some.inj same, elements_of_isElement isElement_parent] at whole
    cases bases with
    | nil =>
      rw [length_nil, replicate_zero, nil_append] at whole
      exact (parent_not_mem_targets targetRooted fromTarget (by simp [← whole])).elim
    | cons name others =>
      rw [length_cons, replicate_succ, cons_append, List.cons.injEq] at whole
      obtain ⟨climbs, enters⟩ := append_eq_nil_iff.mp whole.2.symm
      have none : others = [] := by simpa using climbs
      refine ⟨name, ?_⟩
      rw [basePlace, targetPlace, none, enters]
      rfl
  · rintro ⟨name, above⟩
    rw [basePlace, targetPlace, ← cons_append] at above
    have left := congrArg List.reverse (append_cancel_right above)
    rw [reverse_reverse, reverse_cons, reverse_reverse] at left
    cases targets with
    | nil =>
      rw [left]
      rfl
    | cons first rest =>
      rw [left] at apart
      exact (apart first rfl rfl).elim

/-- For rooted paths, the check of `filepath.Rel` for `..` is exact. -/
theorem rel_leadsUp_iff {dir path : List UInt8} (dirRooted : rooted dir = true)
    (pathRooted : rooted path = true) :
    (∃ up, rel dir path = some up ∧ leadsUp up = false) ↔ place dir <:+ place path := by
  obtain ⟨common, bases, targets, fromBase, fromTarget, apart, related⟩ :=
    rel_rooted dirRooted pathRooted
  rw [← bases_eq_nil_iff fromBase fromTarget apart, related]
  have lead := leadsUp_assemble_iff (isElement_relative fromTarget bases.length)
  cases bases with
  | nil =>
    refine ⟨fun _ => rfl, fun _ => ⟨_, rfl, ?_⟩⟩
    rw [Bool.eq_false_iff, ne_eq, lead]
    intro head
    exact parent_not_mem_targets pathRooted fromTarget (mem_of_mem_head? head)
  | cons base others =>
    refine ⟨?_, fun empty => by cases empty⟩
    rintro ⟨up, result, stays⟩
    cases result
    rw [lead.mpr rfl] at stays
    cases stays

end GitlabRunner.SlashPaths
