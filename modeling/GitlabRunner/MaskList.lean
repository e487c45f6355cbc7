import GitlabRunner.BuildDirectory

/-!
# The mask list of a build

`Build.Run` takes the list of masked values once, before it asks the executor's provider for
its features and before `Prepare` calls `StartBuild`.
-/

namespace GitlabRunner.Directory

open ByteText SlashPaths Variables List

/-- What a provider does to a build: `GetFeatures` may set `Shared`, and the executor of docker
machines resets the number of the build in its project. -/
structure Provider where
  shared : Bool
  machine : Bool
  deriving DecidableEq, Repr

structure Attempt where
  rootDir : List UInt8
  cacheDir : List UInt8
  customBuildDirEnabled : Bool
  sharedDir : Bool
  deriving DecidableEq, Repr

variable {entry : JobVariable} {other : Build}

namespace Build

def maskList (app : AppVersion) (build : Build) : List (List UInt8) :=
  (build.getAllVariables app).1.masked

def getFeatures (provider : Provider) (build : Build) : Build :=
  { build with sharedEnv := build.sharedEnv || provider.shared }

def useMachine (provider : Provider) (build : Build) : Build :=
  if provider.machine then { build with projectRunnerID := 0 } else build

/-- The calls of `StartBuild` in `retryCreateExecutor`.  All attempts but the last fail later
in `Prepare`; an error of `StartBuild` is a `BuildError` and ends the loop. -/
def retryCreateExecutor (parse : List UInt8 → Option URL) (app : AppVersion)
    (provider : Provider) : Build → List Attempt → Build × Option BuildError
  | build, [] => (build, none)
  | build, attempt :: attempts =>
    match (build.useMachine provider).startBuild parse app attempt.rootDir attempt.cacheDir
        attempt.customBuildDirEnabled attempt.sharedDir with
    | (started, some error) => (started, some error)
    | (started, none) => retryCreateExecutor parse app provider started attempts

def prepared (parse : List UInt8 → Option URL) (app : AppVersion) (provider : Provider)
    (build : Build) (attempts : List Attempt) : Build × Option BuildError :=
  retryCreateExecutor parse app provider
    ((build.getAllVariables app).2.getFeatures provider) attempts

def definitions (app : AppVersion) (build : Build) : JobVariables :=
  getDefaultFeatureFlagsVariables ++ build.runnerVariables ++ build.getDefaultVariables ++
    build.getCITLSVariables ++ build.jobVariables ++ [build.getSharedEnvVariable] ++
    app.jobVariables

/-- The build directory: the job's own one, or the one made from the repository's URL. -/
def chosenDir (parse : List UInt8 → Option URL) (app : AppVersion) (build : Build)
    (rootDir : List UInt8) (sharedDir : Bool) : List UInt8 :=
  if build.clonePath app rootDir = [] then
    join [rootDir, build.projectUniqueDir parse sharedDir]
  else build.clonePath app rootDir

def placed (parse : List UInt8 → Option URL) (app : AppVersion) (provider : Provider)
    (build : Build) (attempt : Attempt) : Build :=
  { build.useMachine provider with
    rootDir := attempt.rootDir
    buildDir := (build.useMachine provider).chosenDir parse app attempt.rootDir
      attempt.sharedDir
    cacheDir := join [attempt.cacheDir, (build.useMachine provider).projectUniqueDir parse false]
    allVariables := none }

variable {parse : List UInt8 → Option URL} {app : AppVersion} {provider : Provider}
  {build started : Build}

theorem getAllVariables_of_none (fresh : build.allVariables = none) :
    (build.getAllVariables app).1 = (build.definitions app).expand := by
  rw [getAllVariables, fresh]
  rfl

theorem getCustomBuildDir_build (rootDir overrideKey : List UInt8)
    (customBuildDirEnabled sharedDir : Bool) :
    (build.getCustomBuildDir parse app rootDir overrideKey customBuildDirEnabled sharedDir).2 =
      { build with allVariables := some (build.getAllVariables app).1 } := by
  rw [← getAllVariables_frame]
  unfold getCustomBuildDir
  dsimp only
  split
  · rfl
  · split
    · rfl
    · split <;> rfl

/-- A `StartBuild` that succeeds changes the directories and forgets the variables. -/
theorem startBuild_eq {rootDir cacheDir : List UInt8} {customBuildDirEnabled sharedDir : Bool}
    (succeeds : build.startBuild parse app rootDir cacheDir customBuildDirEnabled sharedDir =
      (started, none)) :
    started =
      { build with
        rootDir := rootDir
        buildDir := build.chosenDir parse app rootDir sharedDir
        cacheDir := join [cacheDir, build.projectUniqueDir parse false]
        allVariables := none } := by
  have chosenAt : started.buildDir = build.chosenDir parse app rootDir sharedDir := by
    unfold chosenDir
    rcases (startBuild_cases succeeds).2 with ⟨unset, same⟩ | ⟨isSet, _, same⟩
    · rw [if_pos unset, same]
    · rw [if_neg isSet, same]
  rw [← chosenAt]
  unfold startBuild at succeeds
  dsimp only at succeeds
  split at succeeds
  · cases succeeds
  · rename_i dir after chosen
    have afterIs := congrArg Prod.snd chosen
    rw [getCustomBuildDir_build] at afterIs
    obtain rfl := afterIs
    cases succeeds
    rfl

variable {attempts : List Attempt}

/-- The build that the attempts leave, if `StartBuild` succeeds in each. -/
theorem retryCreateExecutor_eq
    (succeeds : retryCreateExecutor parse app provider build attempts = (started, none)) :
    started = attempts.foldl (placed parse app provider) build := by
  induction attempts generalizing build with
  | nil => exact (congrArg Prod.fst succeeds).symm
  | cons attempt attempts ih =>
    unfold retryCreateExecutor at succeeds
    split at succeeds
    · cases succeeds
    · rename_i next startedNext
      rw [ih succeeds, startBuild_eq startedNext]
      rfl

theorem masked_of_mem_runnerVariables
    (member : entry ∈ build.runnerVariables) : entry.masked = false := by
  obtain ⟨parsed, parsedMember, rfl⟩ := mem_map.mp member
  obtain ⟨text, _, isParsed⟩ := mem_filterMap.mp parsedMember
  obtain ⟨_, same⟩ := Option.ite_none_right_eq_some.mp isParsed
  obtain rfl := Option.some.inj same
  rfl

theorem masked_of_mem_getCITLSVariables
    (member : entry ∈ build.getCITLSVariables) : entry.masked = false := by
  rcases mem_append.mp member with chain | pair
  · split at chain
    · rw [mem_singleton.mp chain]
      rfl
    · cases chain
  · split at pair
    · simp only [mem_cons, not_mem_nil, or_false] at pair
      rcases pair with rfl | rfl <;> rfl
    · cases pair

theorem masked_of_mem_getDefaultVariables
    (member : entry ∈ build.getDefaultVariables) : entry.masked = false := by
  simp only [getDefaultVariables, mem_cons, not_mem_nil, or_false] at member
  rcases member with rfl | rfl | rfl | rfl | rfl <;> rfl

theorem mem_jobVariables_of_masked
    (member : entry ∈ build.definitions app) (isMasked : entry.masked = true) :
    entry ∈ build.jobVariables := by
  have notRunners : entry.masked ≠ false := by
    rw [isMasked]
    decide
  simp only [definitions, mem_append] at member
  rcases member with (((((featureFlag | environment) | default) | tls) | job) | shared) | version
  · obtain ⟨name, _, rfl⟩ := mem_map.mp featureFlag
    exact (notRunners rfl).elim
  · exact (notRunners (masked_of_mem_runnerVariables environment)).elim
  · exact (notRunners (masked_of_mem_getDefaultVariables default)).elim
  · exact (notRunners (masked_of_mem_getCITLSVariables tls)).elim
  · exact job
  · obtain rfl := mem_singleton.mp shared
    exact (notRunners rfl).elim
  · simp only [AppVersion.jobVariables, mem_cons, not_mem_nil, or_false] at version
    rcases version with rfl | rfl | rfl <;> exact (notRunners rfl).elim

/-- The masked values that the job sees are those of its own variables. -/
theorem mem_masked_definitions {value : List UInt8} :
    value ∈ (build.definitions app).expand.masked ↔
      ∃ entry ∈ build.jobVariables, entry.masked = true ∧
        (build.definitions app).expandValue entry.value = value := by
  rw [JobVariables.mem_masked_expand]
  constructor
  · rintro ⟨entry, member, isMasked, same⟩
    exact ⟨entry, mem_jobVariables_of_masked member isMasked, isMasked, same⟩
  · rintro ⟨entry, member, isMasked, same⟩
    exact ⟨entry, by simp [definitions, member], isMasked, same⟩

/-- Every non-empty masked value that a job sees is in a mask list. -/
def MaskedIn (masks : List (List UInt8)) (jobVariables : JobVariables) : Prop :=
  ∀ entry ∈ jobVariables, entry.masked = true → entry.value ≠ [] → entry.value ∈ masks

/-- Every masked value of the job's own variables, expanded by the variables of the prepared
build, is empty or the text of a masked value expanded by the variables of the build as it
comes to `Run`. -/
def ExpandsAlike (app : AppVersion) (build prepared : Build) : Prop :=
  ∀ entry ∈ build.jobVariables, entry.masked = true →
    (prepared.definitions app).expandValue entry.value = [] ∨
      ∃ other ∈ build.jobVariables, other.masked = true ∧
        (build.definitions app).expandValue other.value =
          (prepared.definitions app).expandValue entry.value

theorem maskedIn_iff {masks : List (List UInt8)} {jobVariables : JobVariables} :
    MaskedIn masks jobVariables ↔ ∀ value ∈ jobVariables.masked, value ≠ [] → value ∈ masks := by
  constructor
  · intro covers value member
    obtain ⟨entry, entryMember, rfl⟩ := mem_map.mp member
    obtain ⟨inList, isMasked⟩ := mem_filter.mp entryMember
    exact covers entry inList isMasked
  · intro covers entry member isMasked
    exact covers entry.value (mem_map_of_mem (mem_filter.mpr ⟨member, isMasked⟩))

structure SameJob (build other : Build) : Prop where
  environment : other.environment = build.environment
  runnerID : other.runnerID = build.runnerID
  tls : other.getCITLSVariables = build.getCITLSVariables
  jobVariables : other.jobVariables = build.jobVariables

theorem SameJob.placed (same : SameJob build other) (attempt : Attempt) :
    SameJob build (other.placed parse app provider attempt) := by
  have machine : SameJob other (other.useMachine provider) := by
    unfold useMachine
    split <;> exact ⟨rfl, rfl, rfl, rfl⟩
  exact ⟨machine.environment.trans same.environment, machine.runnerID.trans same.runnerID,
    machine.tls.trans same.tls, machine.jobVariables.trans same.jobVariables⟩

/-- The provider and the attempts leave the job and the runner alone. -/
theorem sameJob_prepared (attempts : List Attempt) :
    SameJob build (attempts.foldl (Build.placed parse app provider)
      (build.getFeatures provider)) := by
  induction attempts using List.reverseRecOn with
  | nil => exact ⟨rfl, rfl, rfl, rfl⟩
  | append_singleton attempts attempt ih =>
    rw [foldl_concat]
    exact ih.placed attempt

/-- What `Run` has read before makes no difference to the prepared build. -/
theorem foldl_placed_known (prepares : attempts ≠ [])
    (known : Option JobVariables) :
    attempts.foldl (placed parse app provider) { build with allVariables := known } =
      attempts.foldl (placed parse app provider) build := by
  cases attempts with
  | nil => exact (prepares rfl).elim
  | cons attempt attempts =>
    rw [foldl_cons, foldl_cons]
    congr 1
    unfold placed useMachine
    split <;> rfl

theorem allVariables_placed (prepares : attempts ≠ []) :
    (attempts.foldl (placed parse app provider) build).allVariables = none := by
  induction attempts using List.reverseRecOn with
  | nil => exact (prepares rfl).elim
  | append_singleton attempts attempt _ =>
    rw [foldl_concat]
    rfl

theorem prepared_eq (prepares : attempts ≠ [])
    (succeeds : build.prepared parse app provider attempts = (started, none)) :
    started = attempts.foldl (placed parse app provider) (build.getFeatures provider) := by
  rw [retryCreateExecutor_eq succeeds, getAllVariables_frame]
  exact @foldl_placed_known parse app provider (build.getFeatures provider) attempts prepares
    (some (build.getAllVariables app).1)

/-- The names of the variables that may change between the mask list and the job. -/
def changingNames : List (List UInt8) :=
  ["CI_BUILDS_DIR", "CI_PROJECT_DIR", "CI_CONCURRENT_PROJECT_ID", "CI_SHARED_ENVIRONMENT",
    "CI_DISPOSABLE_ENVIRONMENT"].map ascii

/-- The other variables are the same in builds of one job and runner. -/
theorem filter_definitions (same : SameJob build other) {name : List UInt8}
    (unchanging : name ∉ changingNames) :
    (other.definitions app).filter (fun entry => entry.key = name) =
      (build.definitions app).filter (fun entry => entry.key = name) := by
  have environment : other.runnerVariables = build.runnerVariables := by
    rw [runnerVariables, runnerVariables, same.environment]
  have distinct : ∀ text : String, ascii text ∈ changingNames → ¬ ascii text = name := by
    rintro text member rfl
    exact unchanging member
  have defaults : other.getDefaultVariables.filter (fun entry => entry.key = name) =
      build.getDefaultVariables.filter (fun entry => entry.key = name) := by
    simp only [getDefaultVariables, internalVariable, filter_cons, same.runnerID,
      distinct "CI_BUILDS_DIR" (by decide), distinct "CI_PROJECT_DIR" (by decide),
      distinct "CI_CONCURRENT_PROJECT_ID" (by decide), decide_false, Bool.false_eq_true, if_false]
  have shared : ∀ any : Build, [any.getSharedEnvVariable].filter
      (fun entry => entry.key = name) = [] := by
    intro any
    rw [filter_singleton]
    unfold getSharedEnvVariable internalVariable
    split
    · simp [distinct "CI_SHARED_ENVIRONMENT" (by decide)]
    · simp [distinct "CI_DISPOSABLE_ENVIRONMENT" (by decide)]
  simp only [definitions, filter_append, environment, same.tls, same.jobVariables, defaults, shared]

/-- Masked values that refer to none of the changing variables expand alike. -/
theorem expandsAlike_of_unchanging (same : SameJob build other)
    (unchanging : ∀ entry ∈ build.jobVariables, entry.masked = true →
      ∀ name ∈ referencedNames entry.value, name ∉ changingNames) :
    ExpandsAlike app build other := by
  intro entry member isMasked
  refine .inr ⟨entry, member, isMasked, ?_⟩
  apply osExpand_congr
  intro name refers
  exact (JobVariables.get_congr
    (filter_definitions same (unchanging entry member isMasked name refers))).symm

def maskingBuild (value : String) : Build :=
  { cloningBuild "" with
    jobVariables := [⟨ascii "TOKEN", ascii value, false, false, false, true⟩] }

def defaultAttempt : Attempt :=
  ⟨ascii "/builds", ascii "/cache", false, false⟩

theorem prepared_of_succeeds (succeeds : (build.prepared parse app provider attempts).2 = none) :
    build.prepared parse app provider attempts =
      ((build.prepared parse app provider attempts).1, none) :=
  Prod.ext rfl succeeds

end Build

end GitlabRunner.Directory
