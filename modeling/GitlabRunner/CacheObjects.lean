import GitlabRunner.BuildIdentities
import GitlabRunner.SlashPaths

/-!
# Names of cache objects

`generateObjectName` of `cache/cache.go` joins a job's cache key to the directory of its
project in the cache bucket, and rejects the result if the relative path to it begins with
`../`.
-/

namespace GitlabRunner.Cache

open ByteText SlashPaths List

structure Config where
  path : List UInt8
  shared : Bool
  deriving DecidableEq, Repr

structure Build where
  token : List UInt8
  projectID : Int
  deriving DecidableEq, Repr

/-- The errors of `generateObjectName`: `filepath.Rel` failed, or the computed path is
outside of the project's bucket. -/
inductive ObjectNameError where
  | checkFailed
  | outsideOfProjectBucket
  deriving DecidableEq, Repr

def runnerSegment (build : Build) (config : Config) : List UInt8 :=
  if !config.shared then join [ascii "runner", Identity.shortenToken build.token] else []

def generateBaseObjectName (build : Build) (config : Config) : List UInt8 :=
  join [config.path, runnerSegment build config, ascii "project", itoa build.projectID]

def generateObjectName (build : Build) (config : Config) (key : List UInt8) :
    Except ObjectNameError (List UInt8) :=
  if key = [] then .ok []
  else
    let basePath := generateBaseObjectName build config
    let path := join [basePath, key]
    match rel basePath path with
    | none => .error .checkFailed
    | some relative =>
      if parent ++ [slash] <+: relative then .error .outsideOfProjectBucket
      else .ok path

/-- The key enters more directories than it leaves.  At the root of an absolute cache
path no directory is left. -/
def Descends (base key : List UInt8) : Prop :=
  (if rooted base then min (relative (elements key)).climb (elements base).length
    else (relative (elements key)).climb) < (relative (elements key)).entered.length

instance (base key : List UInt8) : Decidable (Descends base key) :=
  inferInstanceAs (Decidable (_ < _))

theorem isElement_itoa (value : Int) : IsElement (itoa value) ∧ itoa value ≠ parent := by
  have noDot : dot ∉ itoa value := not_mem_itoa (by decide) (by decide) (by decide) value
  have differs : ∀ rest, itoa value ≠ dot :: rest := fun _ same => noDot (same ▸ mem_cons_self)
  exact ⟨⟨itoa_ne_nil value, differs _, not_mem_itoa (by decide) (by decide) (by decide) value⟩,
    differs _⟩

def projects : List UInt8 := ascii "project"

theorem walk_projects (fromRoot : Bool) (start : List (List UInt8)) :
    walk fromRoot start (elements projects) = projects :: start := by
  have proper : IsElement projects := by constructor <;> decide
  rw [elements_of_isElement proper]
  exact follow_name (show projects ≠ parent by decide) fromRoot start

/-- The base names of a runner's builds differ in their last element alone. -/
theorem exists_base (token : List UInt8) (config : Config) :
    ∃ first rest outer, first ≠ [] ∧
      walk (rooted first) (place first) (rest.flatMap elements) = projects :: outer ∧
      ∀ projectID : Int, generateBaseObjectName ⟨token, projectID⟩ config =
        join (first :: (rest ++ [itoa projectID])) := by
  by_cases noPath : config.path = []
  · by_cases noSegment : runnerSegment ⟨token, 0⟩ config = []
    · refine ⟨projects, [], [], by decide, by decide, fun projectID => ?_⟩
      rw [generateBaseObjectName, noPath, join_nil_cons,
        show runnerSegment ⟨token, projectID⟩ config = [] from noSegment, join_nil_cons]
      rfl
    · refine ⟨runnerSegment ⟨token, 0⟩ config, [projects], place (runnerSegment ⟨token, 0⟩ config),
        noSegment, ?_, fun projectID => ?_⟩
      · rw [flatMap_singleton, walk_projects]
      · rw [generateBaseObjectName, noPath, join_nil_cons]
        rfl
  · refine ⟨config.path, [runnerSegment ⟨token, 0⟩ config, projects],
      walk (rooted config.path) (place config.path) (elements (runnerSegment ⟨token, 0⟩ config)),
      noPath, ?_, fun _ => rfl⟩
    rw [flatMap_cons, flatMap_singleton, walk_append, walk_projects]

theorem exists_place (token : List UInt8) (config : Config) :
    ∃ outer, ∀ projectID : Int, place (generateBaseObjectName ⟨token, projectID⟩ config) =
      itoa projectID :: projects :: outer := by
  obtain ⟨first, rest, outer, nonempty, walked, joined⟩ := exists_base token config
  refine ⟨outer, fun projectID => ?_⟩
  obtain ⟨proper, isName⟩ := isElement_itoa projectID
  rw [joined, place_join nonempty, flatMap_append, walk_append, walked,
    flatMap_singleton, elements_of_isElement proper]
  exact follow_name isName _ _

/-- The parts of a cleaned path are its elements, or the working directory alone. -/
theorem parts_cases (path : List UInt8) :
    parts (clean path) = (place path).reverse ∨ place path = [] ∧ parts (clean path) = [[dot]] := by
  by_cases shown : rooted path = true ∨ place path ≠ []
  · exact .inl (parts_clean shown)
  · rw [not_or, not_not, Bool.not_eq_true] at shown
    refine .inr ⟨shown.2, ?_⟩
    rw [clean, shown.1, shown.2]
    decide

/-- A path that shares an element with the base is not the working directory. -/
theorem reverse_place_of_common {base path : List UInt8} {common bases targets : List (List UInt8)}
    (fromBase : (place base).reverse = common ++ bases)
    (fromTarget : parts (clean path) = common ++ targets) (shared : common ≠ []) :
    (place path).reverse = common ++ targets := by
  rcases parts_cases path with elements | ⟨-, working⟩
  · rw [← elements, fromTarget]
  · rw [working] at fromTarget
    cases common with
    | nil => exact (shared rfl).elim
    | cons first others =>
      have isDot : [dot] = first := (List.cons.inj fromTarget).1
      have member : [dot] ∈ place base := by
        rw [← mem_reverse, fromBase, ← isDot]
        exact mem_cons_self
      exact ((isElement_place member).notDot rfl).elim

/-- A relative path leads up to a common directory and down from it. -/
theorem exists_common {base path up : List UInt8} (sameRoot : rooted base = rooted path)
    (shown : rooted base = true ∨ place base ≠ []) (apart : clean path ≠ clean base)
    (computed : rel base path = some up) :
    ∃ common bases targets, (place base).reverse = common ++ bases ∧
      parts (clean path) = common ++ targets ∧
      up = [slash].intercalate (List.replicate bases.length parent ++ targets) := by
  obtain ⟨common, fromBase, fromTarget, -⟩ :=
    dropCommon_spec (place base).reverse (parts (clean path))
  cases split : dropCommon (place base).reverse (parts (clean path)) with
  | mk bases targets =>
    rw [split] at fromBase fromTarget
    refine ⟨common, bases, targets, fromBase, fromTarget, ?_⟩
    rw [rel_eq sameRoot shown apart split] at computed
    split at computed
    · cases computed
    · exact (Option.some.inj computed).symm

theorem proper_climb {path : List UInt8} {common targets : List (List UInt8)}
    (fromTarget : parts (clean path) = common ++ targets) (climb : Nat) :
    ∀ element ∈ List.replicate climb parent ++ targets, slash ∉ element := by
  intro element member
  rcases mem_append.mp member with climbing | entering
  · rw [eq_of_mem_replicate climbing]
    decide
  · have part : element ∈ parts (clean path) := by
      rw [fromTarget]
      exact mem_append_right common entering
    exact not_mem_of_mem_splitOn (mem_filter.mp part).1

/-- The test of `generateObjectName` on a base of at least two elements: the path lies
in the base, or it is the directory above. -/
theorem accepted_places {base path up : List UInt8} (sameRoot : rooted base = rooted path)
    (long : 2 ≤ (place base).length) (computed : rel base path = some up)
    (accepted : ¬parent ++ [slash] <+: up) :
    place base <:+ place path ∨ place path = (place base).tail := by
  have shown : place base ≠ [] := by
    intro none
    rw [none] at long
    cases long
  by_cases same : clean path = clean base
  · rw [← place_clean path, same, place_clean]
    exact .inl suffix_rfl
  · obtain ⟨common, bases, targets, fromBase, fromTarget, rfl⟩ :=
      exists_common sameRoot (.inr shown) same computed
    rw [parent_slash_prefix_iff (proper_climb fromTarget _)] at accepted
    have lengths := congrArg List.length fromBase
    rw [length_reverse, length_append] at lengths
    cases bases with
    | nil =>
      rw [append_nil] at fromBase
      have shared : common ≠ [] := by
        rw [← fromBase]
        simpa using shown
      have inside := reverse_place_of_common (fromBase.trans (append_nil _).symm) fromTarget shared
      refine .inl (List.reverse_prefix.mp ?_)
      rw [inside, fromBase]
      exact prefix_append _ _
    | cons base others =>
      -- More than one `..`, or a name after it, would be a path that is refused.
      have few : ¬2 ≤ (List.replicate (base :: others).length parent ++ targets).length :=
        fun many => accepted ⟨rfl, many⟩
      rw [length_append, length_replicate, length_cons] at few
      have noOthers : others = [] := eq_nil_of_length_eq_zero (by omega)
      have noTargets : targets = [] := eq_nil_of_length_eq_zero (by omega)
      subst noOthers noTargets
      have shared : common ≠ [] := by
        rintro rfl
        simp at lengths
        omega
      have above := reverse_place_of_common fromBase fromTarget shared
      rw [append_nil] at above
      have reversed := congrArg List.reverse fromBase
      rw [reverse_reverse, ← above, reverse_append, reverse_reverse] at reversed
      rw [reversed]
      exact .inr rfl

/-- A list that ends in a name is no end of one that ends in `..`. -/
theorem not_suffix_replicate {named front : List (List UInt8)} (nonempty : named ≠ [])
    (names : parent ∉ named) (above : Nat) :
    ¬named <:+ front ++ List.replicate (above + 1) parent := by
  intro inside
  rw [replicate_succ', ← append_assoc, suffix_concat_iff] at inside
  rcases inside with empty | ⟨rest, ends, -⟩
  · exact nonempty empty
  · rw [ends] at names
    exact names (by simp)

variable {outer : List (List UInt8)}

/-- The names below the `..` of an unrooted place that begins with two names. -/
theorem exists_named {base number : List UInt8}
    (unrooted : rooted base = false) (numbered : number ≠ parent)
    (shape : place base = number :: projects :: outer) :
    ∃ named above, parent ∉ number :: projects :: named ∧
      place base = number :: projects :: named ++ List.replicate above parent := by
  have names := parent_not_mem_entered (elements base)
  have split := place_unrooted unrooted
  rw [shape] at split
  cases inside : (relative (elements base)).entered with
  | nil =>
    rw [inside, nil_append] at split
    have isParent := eq_of_mem_replicate (split ▸ mem_cons_self)
    exact (numbered isParent).elim
  | cons first others =>
    rw [inside] at split names
    cases others with
    | nil =>
      have rest := (List.cons.inj split).2
      rw [append_eq, nil_append] at rest
      have isParent := eq_of_mem_replicate (rest ▸ mem_cons_self)
      exact absurd isParent (by decide)
    | cons second named =>
      have isNumber := (List.cons.inj split).1
      have isProjects := (List.cons.inj (List.cons.inj split).2).1
      subst isNumber isProjects
      refine ⟨named, (relative (elements base)).climb, names, ?_⟩
      rw [shape]
      exact split

theorem descends_iff {base number : List UInt8}
    (cleaned : clean base = base) (numbered : number ≠ parent)
    (shape : place base = number :: projects :: outer) {key : List UInt8}
    (accepted : place base <:+ place (join [base, key]) ∨
      place (join [base, key]) = (place base).tail) :
    Descends base key ↔ (place base).length < (place (join [base, key])).length := by
  have nonempty : base ≠ [] := by
    rw [← cleaned]
    exact clean_ne_nil base
  have depth : (elements base).length = (place base).length := by
    rw [← cleaned, elements_clean, place_clean, length_reverse]
  have walked := place_join nonempty [key]
  rw [flatMap_singleton] at walked
  unfold Descends
  rw [depth]
  cases fromRoot : rooted base with
  | true =>
    rw [fromRoot, walk_root (parent_not_mem_place fromRoot)] at walked
    rw [walked, length_append, length_drop, if_pos rfl]
    omega
  | false =>
    obtain ⟨named, above, names, split⟩ := exists_named fromRoot numbered shape
    have tail : projects :: named ++ List.replicate above parent <:+ place (join [base, key]) := by
      have tailed : projects :: named ++ List.replicate above parent = (place base).tail := by
        rw [split]
        rfl
      rw [tailed]
      rcases accepted with inside | above
      · exact (tail_suffix _).trans inside
      · rw [above]
    rw [fromRoot, split, walk_unrooted names] at walked
    have low : (relative (elements key)).climb ≤ (number :: projects :: named).length := by
      by_contra high
      rw [Nat.not_le] at high
      obtain ⟨extra, enough⟩ := Nat.exists_eq_add_of_lt high
      have climbs : above + ((relative (elements key)).climb -
          (number :: projects :: named).length) = extra + 1 + above := by omega
      rw [walked, drop_eq_nil_iff.mpr (by omega), nil_append, climbs,
        replicate_add, ← append_assoc, suffix_append_self_iff] at tail
      apply not_suffix_replicate (by simp) _ extra tail
      intro member
      exact names (mem_cons_of_mem number member)
    rw [walked, split]
    simp only [length_append, length_drop, length_replicate, Bool.false_eq_true, if_false]
    omega

variable {config : Config} {build : Build} {key name : List UInt8}

theorem base_shape (build : Build) (config : Config) :
    ∃ outer, place (generateBaseObjectName build config) =
      itoa build.projectID :: projects :: outer := by
  obtain ⟨outer, shape⟩ := exists_place build.token config
  exact ⟨outer, shape build.projectID⟩

theorem clean_base (build : Build) (config : Config) :
    clean (generateBaseObjectName build config) = generateBaseObjectName build config := by
  obtain ⟨first, rest, -, nonempty, -, joined⟩ := exists_base build.token config
  rw [show generateBaseObjectName build config = _ from joined build.projectID]
  exact clean_join nonempty _

theorem generateObjectName_ok (nonempty : key ≠ [])
    (accepted : generateObjectName build config key = .ok name) :
    name = join [generateBaseObjectName build config, key] ∧
      (place (generateBaseObjectName build config) <:+ place name ∨
        place name = (place (generateBaseObjectName build config)).tail) := by
  obtain ⟨outer, shape⟩ := base_shape build config
  have baseNonempty : generateBaseObjectName build config ≠ [] := by
    rw [← clean_base]
    exact clean_ne_nil _
  have long : 2 ≤ (place (generateBaseObjectName build config)).length := by
    rw [shape, length_cons, length_cons]
    omega
  unfold generateObjectName at accepted
  rw [if_neg nonempty] at accepted
  dsimp only at accepted
  split at accepted
  · cases accepted
  · rename_i up computed
    split at accepted
    · cases accepted
    · rename_i stays
      cases accepted
      have sameRoot := rooted_join baseNonempty [key]
      exact ⟨rfl, accepted_places sameRoot.symm long computed stays⟩

/-- An accepted name lies below its base exactly if the key descends. -/
theorem below_iff_descends (nonempty : key ≠ [])
    (accepted : generateObjectName build config key = .ok name) :
    Below (generateBaseObjectName build config) name ↔
      Descends (generateBaseObjectName build config) key := by
  obtain ⟨rfl, places⟩ := generateObjectName_ok nonempty accepted
  obtain ⟨outer, shape⟩ := base_shape build config
  have cleaned := clean_base build config
  have baseNonempty : generateBaseObjectName build config ≠ [] := by
    rw [← cleaned]
    exact clean_ne_nil _
  have sameRoot := rooted_join baseNonempty [key]
  have baseElements : elements (generateBaseObjectName build config) =
      (place (generateBaseObjectName build config)).reverse := by
    rw [← elements_clean, cleaned]
  have nameElements := elements_clean (join [generateBaseObjectName build config, key])
  rw [clean_join baseNonempty] at nameElements
  rw [descends_iff cleaned (isElement_itoa _).2 shape places, Below, baseElements, nameElements,
    reverse_prefix]
  constructor
  · rintro ⟨-, inside, apart⟩
    have short := inside.length_le
    by_contra notLonger
    apply apart
    rw [inside.eq_of_length (by omega)]
  · intro longer
    refine ⟨sameRoot.symm, ?_, ?_⟩
    · rcases places with inside | above
      · exact inside
      · rw [above, length_tail] at longer
        omega
    · intro same
      have lengths := congrArg List.length same
      rw [length_reverse, length_reverse] at lengths
      omega

theorem names_ne_of_below {first second : Build} {firstName secondName : List UInt8}
    (sameRunner : first.token = second.token) (apart : first.projectID ≠ second.projectID)
    (firstBelow : Below (generateBaseObjectName first config) firstName)
    (secondBelow : Below (generateBaseObjectName second config) secondName) :
    firstName ≠ secondName := by
  rintro rfl
  obtain ⟨outer, shape⟩ := exists_place first.token config
  have firstShape := shape first.projectID
  have secondShape := shape second.projectID
  rw [sameRunner] at secondShape
  have firstInside := firstBelow.2.1
  have secondInside := secondBelow.2.1
  rw [← clean_base, elements_clean] at firstInside secondInside
  have lengths : (place (generateBaseObjectName first config)).reverse.length =
      (place (generateBaseObjectName second config)).reverse.length := by
    rw [length_reverse, length_reverse, firstShape, secondShape]
    rfl
  have inside := prefix_of_prefix_length_le firstInside secondInside (Nat.le_of_eq lengths)
  have same := reverse_injective (inside.eq_of_length lengths)
  rw [firstShape, secondShape] at same
  exact apart (itoa_inj (List.cons.inj same).1)

/-- For every cache config, two builds of one runner with different projects and all
keys that are accepted: the names are apart and below their bases exactly if both
keys descend. -/
theorem objectNames_apart_iff {first second : Build}
    {firstKey secondKey firstName secondName : List UInt8}
    (sameRunner : first.token = second.token) (apart : first.projectID ≠ second.projectID)
    (firstNonempty : firstKey ≠ []) (secondNonempty : secondKey ≠ [])
    (firstAccepted : generateObjectName first config firstKey = .ok firstName)
    (secondAccepted : generateObjectName second config secondKey = .ok secondName) :
    (firstName ≠ secondName ∧ Below (generateBaseObjectName first config) firstName ∧
        Below (generateBaseObjectName second config) secondName) ↔
      Descends (generateBaseObjectName first config) firstKey ∧
        Descends (generateBaseObjectName second config) secondKey := by
  rw [← below_iff_descends firstNonempty firstAccepted,
    ← below_iff_descends secondNonempty secondAccepted]
  constructor
  · rintro ⟨-, below⟩
    exact below
  · rintro ⟨firstBelow, secondBelow⟩
    have different := names_ne_of_below sameRunner apart firstBelow secondBelow
    exact ⟨different, firstBelow, secondBelow⟩

def projectBuild (projectID : Int) : Build :=
  ⟨ascii "0123456789abcdef", projectID⟩

def plainConfig : Config :=
  ⟨[], false⟩

theorem objectNames_apart_default :
    generateObjectName (projectBuild 1) plainConfig (ascii "../1/default") =
        .ok (ascii "runner/01234567/project/1/default") ∧
      generateObjectName (projectBuild 2) plainConfig (ascii "default") =
        .ok (ascii "runner/01234567/project/2/default") ∧
      Below (generateBaseObjectName (projectBuild 1) plainConfig)
        (ascii "runner/01234567/project/1/default") := by
  have firstAccepted : generateObjectName (projectBuild 1) plainConfig (ascii "../1/default") =
      .ok (ascii "runner/01234567/project/1/default") := by decide +kernel
  have secondAccepted : generateObjectName (projectBuild 2) plainConfig (ascii "default") =
      .ok (ascii "runner/01234567/project/2/default") := by decide +kernel
  have sameRunner : (projectBuild 1).token = (projectBuild 2).token := rfl
  have names := (objectNames_apart_iff sameRunner (by decide) (by decide) (by decide) firstAccepted
    secondAccepted).mpr (by decide +kernel)
  exact ⟨firstAccepted, secondAccepted, names.2.1⟩

/-- The key `..` of every project names the directory of all projects. -/
theorem objectNames_shared :
    ¬∀ (config : Config) (first second : Build)
      (firstKey secondKey firstName secondName : List UInt8),
      first.token = second.token → first.projectID ≠ second.projectID →
      firstKey ≠ [] → secondKey ≠ [] →
      generateObjectName first config firstKey = .ok firstName →
      generateObjectName second config secondKey = .ok secondName →
      firstName ≠ secondName ∧ Below (generateBaseObjectName first config) firstName ∧
        Below (generateBaseObjectName second config) secondName := by
  intro separated
  have firstAccepted : generateObjectName (projectBuild 1) plainConfig parent =
      .ok (ascii "runner/01234567/project") := by decide +kernel
  have secondAccepted : generateObjectName (projectBuild 2) plainConfig parent =
      .ok (ascii "runner/01234567/project") := by decide +kernel
  have sameRunner : (projectBuild 1).token = (projectBuild 2).token := rfl
  have different := separated _ _ _ _ _ _ _ sameRunner (by decide) (by decide) (by decide)
    firstAccepted secondAccepted
  exact different.1 rfl

end GitlabRunner.Cache
