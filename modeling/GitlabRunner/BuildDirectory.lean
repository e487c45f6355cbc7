import GitlabRunner.BuildIdentities
import GitlabRunner.JobVariables
import GitlabRunner.SlashPaths

/-!
# The directories of a build

`StartBuild` of `common/build.go` chooses the directory in which a job is cloned and run.
-/

namespace GitlabRunner.Directory

open ByteText SlashPaths Variables List

structure URL where
  host : List UInt8
  path : List UInt8

structure AppVersion where
  version : List UInt8
  revision : List UInt8
  os : List UInt8
  architecture : List UInt8
  deriving DecidableEq, Repr

structure Build where
  repoURL : List UInt8
  projectID : Int
  runnerID : Int
  projectRunnerID : Int
  token : List UInt8
  environment : List (List UInt8)
  tlsCAChain : List UInt8
  tlsAuthCert : List UInt8
  tlsAuthKey : List UInt8
  jobVariables : JobVariables
  sharedEnv : Bool
  rootDir : List UInt8
  buildDir : List UInt8
  cacheDir : List UInt8
  allVariables : Option JobVariables
  deriving DecidableEq, Repr

inductive SlugError where
  | parse
  | onlyURIReferenceSupported
  | invalidPath
  | notLikeValidPath
  deriving DecidableEq, Repr

/-- The errors of `getCustomBuildDir`, with the arguments of their texts. -/
inductive BuildError where
  | notAllowed (overrideKey : List UInt8)
  | notWithin (overrideKey dir rootDir : List UInt8)
  deriving DecidableEq, Repr

def trimSuffix (text ending : List UInt8) : List UInt8 :=
  if ending <:+ text then text.take (text.length - ending.length) else text

def internalVariable (key value : List UInt8) (isPublic file : Bool) : JobVariable where
  key := key
  value := value
  isPublic := isPublic
  internal := true
  file := file
  masked := false

def toSlash (path : List UInt8) : List UInt8 :=
  path.map fun char => if char = byte '\\' then slash else char

namespace Build

def getDefaultFeatureFlagsVariables : JobVariables :=
  ["FF_CMD_DISABLE_DELAYED_ERROR_LEVEL_EXPANSION", "FF_USE_LEGACY_BUILDS_DIR_FOR_DOCKER",
    "FF_USE_LEGACY_VOLUMES_MOUNTING_ORDER"].map fun name =>
      internalVariable (ascii name) (ascii "false") true false

def runnerVariables (build : Build) : JobVariables :=
  (build.environment.filterMap parseVariable).map fun entry => { entry with internal := true }

/-- `GetDefaultVariables`, on a system whose paths have slashes. -/
def getDefaultVariables (build : Build) : JobVariables :=
  [internalVariable (ascii "CI_BUILDS_DIR") build.rootDir true false,
    internalVariable (ascii "CI_PROJECT_DIR") (toSlash build.buildDir) true false,
    internalVariable (ascii "CI_CONCURRENT_ID") (itoa build.runnerID) true false,
    internalVariable (ascii "CI_CONCURRENT_PROJECT_ID") (itoa build.projectRunnerID) true false,
    internalVariable (ascii "CI_SERVER") (ascii "yes") true false]

def getCITLSVariables (build : Build) : JobVariables :=
  (if build.tlsCAChain ≠ [] then
    [internalVariable (ascii "CI_SERVER_TLS_CA_FILE") build.tlsCAChain true true]
  else []) ++
  if build.tlsAuthCert ≠ [] ∧ build.tlsAuthKey ≠ [] then
    [internalVariable (ascii "CI_SERVER_TLS_CERT_FILE") build.tlsAuthCert true true,
      internalVariable (ascii "CI_SERVER_TLS_KEY_FILE") build.tlsAuthKey false true]
  else []

def getSharedEnvVariable (build : Build) : JobVariable :=
  internalVariable
    (ascii (if build.sharedEnv then "CI_SHARED_ENVIRONMENT" else "CI_DISPOSABLE_ENVIRONMENT"))
    (ascii "true") true false

end Build

def AppVersion.jobVariables (app : AppVersion) : JobVariables :=
  [internalVariable (ascii "CI_RUNNER_VERSION") app.version true false,
    internalVariable (ascii "CI_RUNNER_REVISION") app.revision true false,
    internalVariable (ascii "CI_RUNNER_EXECUTABLE_ARCH") (app.os ++ slash :: app.architecture)
      true false]

namespace Build

def getAllVariables (app : AppVersion) (build : Build) : JobVariables × Build :=
  match build.allVariables with
  | some known => (known, build)
  | none =>
    let all : JobVariables := getDefaultFeatureFlagsVariables ++ build.runnerVariables ++
      build.getDefaultVariables ++ build.getCITLSVariables ++ build.jobVariables ++
      [build.getSharedEnvVariable] ++ app.jobVariables
    let expanded := all.expand
    (expanded, { build with allVariables := some expanded })

def refreshAllVariables (build : Build) : Build :=
  { build with allVariables := none }

def projectSlug (parse : List UInt8 → Option URL) (build : Build) :
    Except SlugError (List UInt8) :=
  match parse build.repoURL with
  | none => .error .parse
  | some url =>
    if url.host = [] then .error .onlyURIReferenceSupported
    else
      let slug := clean (trimSuffix url.path (ascii ".git"))
      if slug = [dot] then .error .invalidPath
      else if parent <:+: slug then .error .notLikeValidPath
      else .ok slug

def projectUniqueDir (parse : List UInt8 → Option URL) (build : Build) (sharedDir : Bool) :
    List UInt8 :=
  let dir :=
    match build.projectSlug parse with
    | .ok slug => slug
    | .error _ => ascii "project-" ++ itoa build.projectID
  if sharedDir then
    join [Identity.shortenToken build.token, itoa build.projectRunnerID, dir]
  else dir

def getCustomBuildDir (parse : List UInt8 → Option URL) (app : AppVersion) (build : Build)
    (rootDir overrideKey : List UInt8) (customBuildDirEnabled sharedDir : Bool) :
    Except BuildError (List UInt8) × Build :=
  let (all, build) := build.getAllVariables app
  let dir := all.get overrideKey
  if dir = [] then (.ok (join [rootDir, build.projectUniqueDir parse sharedDir]), build)
  else if !customBuildDirEnabled then (.error (.notAllowed overrideKey), build)
  else if ¬rootDir <+: dir then (.error (.notWithin overrideKey dir rootDir), build)
  else (.ok dir, build)

def gitClonePath : List UInt8 := ascii "GIT_CLONE_PATH"

/-- The beginning of `StartBuild`: the variables are read with the new root
directory. -/
def setDirs (parse : List UInt8 → Option URL) (build : Build)
    (rootDir cacheDir : List UInt8) : Build :=
  { build with
    rootDir := rootDir
    cacheDir := join [cacheDir, build.projectUniqueDir parse false] }.refreshAllVariables

def startBuild (parse : List UInt8 → Option URL) (app : AppVersion) (build : Build)
    (rootDir cacheDir : List UInt8) (customBuildDirEnabled sharedDir : Bool) :
    Build × Option BuildError :=
  let build := build.setDirs parse rootDir cacheDir
  match build.getCustomBuildDir parse app build.rootDir gitClonePath customBuildDirEnabled
    sharedDir with
  | (.error error, build) => ({ build with buildDir := [] }, some error)
  | (.ok dir, build) => ({ build with buildDir := dir }.refreshAllVariables, none)

def clonePath (app : AppVersion) (build : Build) (rootDir : List UInt8) : List UInt8 :=
  ({ build with rootDir := rootDir }.refreshAllVariables.getAllVariables app).1.get gitClonePath

theorem getAllVariables_frame (app : AppVersion) (build : Build) :
    (build.getAllVariables app).2 =
      { build with allVariables := some (build.getAllVariables app).1 } := by
  obtain ⟨_, _, _, _, _, _, _, _, _, _, _, _, _, _, known⟩ := build
  cases known with
  | none | some => rfl

variable {parse : List UInt8 → Option URL} {app : AppVersion} {build started : Build}
  {rootDir cacheDir : List UInt8} {customBuildDirEnabled sharedDir : Bool}

theorem getCustomBuildDir_cases {after : Build} {overrideKey dir : List UInt8}
    (chosen : build.getCustomBuildDir parse app rootDir overrideKey customBuildDirEnabled
      sharedDir = (.ok dir, after)) :
    after.cacheDir = build.cacheDir ∧
      ((build.getAllVariables app).1.get overrideKey = [] ∧
          dir = join [rootDir, build.projectUniqueDir parse sharedDir] ∨
        (build.getAllVariables app).1.get overrideKey ≠ [] ∧
          rootDir <+: (build.getAllVariables app).1.get overrideKey ∧
          dir = (build.getAllVariables app).1.get overrideKey) := by
  simp only [getCustomBuildDir, getAllVariables_frame] at chosen
  by_cases unset : (build.getAllVariables app).1.get overrideKey = []
  · rw [if_pos unset] at chosen
    cases chosen
    exact ⟨rfl, .inl ⟨unset, rfl⟩⟩
  · rw [if_neg unset] at chosen
    split at chosen
    · cases chosen
    · split at chosen
      · cases chosen
      · rename_i within
        cases chosen
        exact ⟨rfl, .inr ⟨unset, not_not.mp within, rfl⟩⟩

theorem startBuild_cases
    (succeeds : build.startBuild parse app rootDir cacheDir customBuildDirEnabled sharedDir =
      (started, none)) :
    started.cacheDir = join [cacheDir, build.projectUniqueDir parse false] ∧
      (build.clonePath app rootDir = [] ∧
          started.buildDir = join [rootDir, build.projectUniqueDir parse sharedDir] ∨
        build.clonePath app rootDir ≠ [] ∧ rootDir <+: build.clonePath app rootDir ∧
          started.buildDir = build.clonePath app rootDir) := by
  unfold startBuild at succeeds
  dsimp only at succeeds
  split at succeeds
  · cases succeeds
  · rename_i dir after chosen
    have cases := getCustomBuildDir_cases chosen
    cases succeeds
    exact cases

theorem projectSlug_ok {slug : List UInt8} (found : build.projectSlug parse = .ok slug) :
    slug ≠ [] ∧ ¬parent <:+: slug := by
  unfold projectSlug at found
  cases parsed : parse build.repoURL with
  | none =>
    rw [parsed] at found
    cases found
  | some url =>
    rw [parsed] at found
    dsimp only at found
    split at found
    · cases found
    · split at found
      · cases found
      · split at found
        · cases found
        · rename_i noParent
          cases found
          exact ⟨clean_ne_nil _, noParent⟩

theorem head_fallback (projectID : Int) :
    (ascii "project-" ++ itoa projectID).head? = some (byte 'p') :=
  rfl

theorem isElement_fallback (projectID : Int) : IsElement (ascii "project-" ++ itoa projectID) := by
  constructor
  · simp [ascii]
  · intro same
    have first := congrArg List.head? same
    rw [head_fallback] at first
    exact absurd first (by decide)
  · rw [mem_append, not_or]
    constructor
    · decide
    · exact not_mem_itoa (by decide) (by decide) (by decide) projectID

/-- The directory made from the URL is not empty and climbs nowhere. -/
theorem projectUniqueDir_unshared :
    build.projectUniqueDir parse false ≠ [] ∧
      parent ∉ elements (build.projectUniqueDir parse false) := by
  simp only [projectUniqueDir, Bool.false_eq_true, if_false]
  split
  · rename_i slug found
    obtain ⟨nonempty, noParent⟩ := projectSlug_ok found
    exact ⟨nonempty, fun member => noParent (infix_of_mem member)⟩
  · have isElement := isElement_fallback build.projectID
    refine ⟨isElement.nonempty, ?_⟩
    rw [elements_of_isElement isElement, mem_singleton]
    intro same
    have first := congrArg List.head? same
    rw [head_fallback] at first
    exact absurd first (by decide)

end Build

/-- A relative path leads back into the directory it starts from: what it enters
begins with the directories that it left. -/
def ReturnsTo (dir path : List UInt8) : Prop :=
  (place dir).take (relative (elements path)).climb <:+ (relative (elements path)).entered

instance (dir path : List UInt8) : Decidable (ReturnsTo dir path) :=
  inferInstanceAs (Decidable (_ <:+ _))

theorem returnsTo_of_names {dir path : List UInt8} (names : parent ∉ elements path) :
    ReturnsTo dir path := by
  rw [ReturnsTo, relative_names names, take_zero]
  exact nil_suffix

/-- A path joined to a rooted directory stays in it exactly if it leads back. -/
theorem place_join_iff {dir : List UInt8} (absolute : rooted dir = true) (path : List UInt8) :
    place dir <:+ place (join [dir, path]) ↔ ReturnsTo dir path := by
  have cancelled : (place dir).take (relative (elements path)).climb ++
        (place dir).drop (relative (elements path)).climb <:+
      (relative (elements path)).entered ++ (place dir).drop (relative (elements path)).climb ↔
        ReturnsTo dir path :=
    suffix_append_self_iff
  rw [take_append_drop] at cancelled
  rw [place_join_rooted absolute]
  exact cancelled

/-- Exactly when the directories of a started build stay inside.  A
`GIT_CLONE_PATH` must not lead up from the builds directory; without it, a shared
builds directory must be found again below what the runner's token leaves; and a
rooted slug needs a cache directory to be joined to. -/
structure StaysInside (parse : List UInt8 → Option URL) (app : AppVersion) (build : Build)
    (rootDir cacheDir : List UInt8) (sharedDir : Bool) : Prop where
  cloned : build.clonePath app rootDir ≠ [] →
    ∃ up, rel rootDir (build.clonePath app rootDir) = some up ∧ leadsUp up = false
  shared : build.clonePath app rootDir = [] → sharedDir = true →
    ReturnsTo rootDir (build.projectUniqueDir parse true)
  cached : cacheDir = [] → rooted (build.projectUniqueDir parse false) = false

variable {parse : List UInt8 → Option URL} {app : AppVersion} {build started : Build}
  {rootDir cacheDir : List UInt8} {customBuildDirEnabled sharedDir : Bool}

theorem rooted_of_prefix {front path : List UInt8} (absolute : rooted front = true)
    (begins : front <+: path) : rooted path = true := by
  obtain ⟨rest, rfl⟩ := begins
  cases front with
  | nil => cases absolute
  | cons first others => exact absolute

theorem cacheDir_inside_iff (dir : List UInt8) :
    rooted dir = rooted (join [dir, build.projectUniqueDir parse false]) ∧
        place dir <:+ place (join [dir, build.projectUniqueDir parse false]) ↔
      (dir = [] → rooted (build.projectUniqueDir parse false) = false) := by
  have unshared : build.projectUniqueDir parse false ≠ [] ∧
      parent ∉ elements (build.projectUniqueDir parse false) :=
    Build.projectUniqueDir_unshared
  obtain ⟨nonempty, names⟩ := unshared
  by_cases empty : dir = []
  · subst empty
    rw [join_nil_cons, rooted_join nonempty]
    constructor
    · rintro ⟨sameRoot, -⟩ -
      exact sameRoot.symm
    · intro unrooted
      exact ⟨(unrooted rfl).symm, nil_suffix⟩
  · have sameRoot := rooted_join empty [build.projectUniqueDir parse false]
    refine ⟨fun _ none => (empty none).elim, fun _ => ⟨sameRoot.symm, ?_⟩⟩
    rw [place_join empty, flatMap_singleton, walk_names names]
    exact suffix_append _ _

/-- For a rooted builds directory, the directories of a started build stay inside
exactly under `StaysInside`. -/
theorem startBuild_inside_iff (absolute : rooted rootDir = true)
    (succeeds : build.startBuild parse app rootDir cacheDir customBuildDirEnabled sharedDir =
      (started, none)) :
    ((clean started.buildDir = clean rootDir ∨
        Below (clean rootDir) (clean started.buildDir)) ∧
      (clean started.cacheDir = clean cacheDir ∨
        Below (clean cacheDir) (clean started.cacheDir))) ↔
      StaysInside parse app build rootDir cacheDir sharedDir := by
  obtain ⟨cacheAt, buildAt⟩ := Build.startBuild_cases succeeds
  rw [atOrBelow_clean_iff, atOrBelow_clean_iff, cacheAt, cacheDir_inside_iff]
  rcases buildAt with ⟨unset, buildAt⟩ | ⟨isSet, begins, buildAt⟩
  · have nonempty : rootDir ≠ [] := by
      rintro rfl
      cases absolute
    have sameRoot := rooted_join nonempty [build.projectUniqueDir parse sharedDir]
    rw [buildAt, place_join_iff absolute]
    constructor
    · rintro ⟨⟨-, returns⟩, cached⟩
      refine ⟨fun isSet => (isSet unset).elim, ?_, cached⟩
      rintro - rfl
      exact returns
    · intro stays
      refine ⟨⟨sameRoot.symm, ?_⟩, stays.cached⟩
      cases sharedDir with
      | true => exact stays.shared unset rfl
      | false => exact returnsTo_of_names Build.projectUniqueDir_unshared.2
  · have pathRooted := rooted_of_prefix absolute begins
    rw [buildAt, ← rel_leadsUp_iff absolute pathRooted]
    constructor
    · rintro ⟨⟨-, inside⟩, cached⟩
      exact ⟨fun _ => inside, fun unset => (isSet unset).elim, cached⟩
    · intro stays
      exact ⟨⟨absolute.trans pathRooted.symm, stays.cloned isSet⟩, stays.cached⟩

/-- With custom build directories enabled, a `GIT_CLONE_PATH` whose text begins with
the builds directory is accepted. -/
theorem startBuild_cloned (isSet : build.clonePath app rootDir ≠ [])
    (begins : rootDir <+: build.clonePath app rootDir) (parse : List UInt8 → Option URL)
    (cacheDir : List UInt8) (sharedDir : Bool) :
    ∃ started, build.startBuild parse app rootDir cacheDir true sharedDir = (started, none) := by
  have chosen : (build.setDirs parse rootDir cacheDir).getCustomBuildDir parse app rootDir
      Build.gitClonePath true sharedDir = (.ok (build.clonePath app rootDir),
          ((build.setDirs parse rootDir cacheDir).getAllVariables app).2) := by
    change (if build.clonePath app rootDir = [] then _
      else if _ then _ else if ¬rootDir <+: build.clonePath app rootDir then _ else _) = _
    rw [if_neg isSet, if_neg (by decide), if_neg (not_not.mpr begins)]
    rfl
  unfold Build.startBuild
  dsimp only
  rw [show (build.setDirs parse rootDir cacheDir).rootDir = rootDir from rfl, chosen]
  exact ⟨_, rfl⟩

def projectURL : List UInt8 :=
  ascii "https://gitlab.example.com/group/project.git"

def parseProject (text : List UInt8) : Option URL :=
  if text = projectURL then some ⟨ascii "gitlab.example.com", ascii "/group/project.git"⟩
  else none

def cloningBuild (path : String) : Build where
  repoURL := projectURL
  projectID := 1
  runnerID := 0
  projectRunnerID := 0
  token := ascii "0123456789abcdef"
  environment := []
  tlsCAChain := []
  tlsAuthCert := []
  tlsAuthKey := []
  jobVariables := [⟨Build.gitClonePath, ascii path, true, false, false, false⟩]
  sharedEnv := false
  rootDir := []
  buildDir := []
  cacheDir := []
  allVariables := none

def plainVersion : AppVersion :=
  ⟨[], [], [], []⟩

theorem startBuild_inside_expanded :
    ∃ started, (cloningBuild "$CI_BUILDS_DIR/a/../b").startBuild parseProject plainVersion
        (ascii "/builds") (ascii "/cache") true false = (started, none) ∧
      (clean started.buildDir = clean (ascii "/builds") ∨
        Below (clean (ascii "/builds")) (clean started.buildDir)) := by
  have path : (cloningBuild "$CI_BUILDS_DIR/a/../b").clonePath plainVersion
      (ascii "/builds") = ascii "/builds/a/../b" := by decide +kernel
  obtain ⟨started, succeeds⟩ := startBuild_cloned (by rw [path]; decide)
    (by rw [path]; decide) parseProject (ascii "/cache") false
  have inside := (startBuild_inside_iff (by decide) succeeds).mpr (by
    constructor
    · intro _
      rw [path]
      exact ⟨ascii "b", by decide +kernel, by decide⟩
    · rw [path]
      nofun
    · nofun)
  exact ⟨started, succeeds, inside.1⟩

/-- The comparison of texts accepts a directory next to the builds directory. -/
theorem startBuild_beside :
    ¬∀ (app : AppVersion) (build started : Build) (rootDir cacheDir : List UInt8)
      (customBuildDirEnabled sharedDir : Bool),
      rooted rootDir = true → rooted cacheDir = true →
      build.startBuild parseProject app rootDir cacheDir customBuildDirEnabled sharedDir =
        (started, none) →
      (clean started.buildDir = clean rootDir ∨
        Below (clean rootDir) (clean started.buildDir)) ∧
      (clean started.cacheDir = clean cacheDir ∨
        Below (clean cacheDir) (clean started.cacheDir)) := by
  intro inside
  have path : (cloningBuild "/builds-of-others").clonePath plainVersion (ascii "/builds") =
      ascii "/builds-of-others" := by decide +kernel
  have isSet : (cloningBuild "/builds-of-others").clonePath plainVersion
      (ascii "/builds") ≠ [] := by
    rw [path]
    decide
  obtain ⟨started, succeeds⟩ := startBuild_cloned isSet (by rw [path]; decide) parseProject
    (ascii "/cache") false
  have contained := (inside _ _ _ _ _ _ _ (by decide) (by decide) succeeds).1
  rcases (Build.startBuild_cases succeeds).2 with ⟨unset, -⟩ | ⟨-, -, buildAt⟩
  · exact isSet unset
  · rw [buildAt, path] at contained
    exact absurd contained (by decide +kernel)

end GitlabRunner.Directory
