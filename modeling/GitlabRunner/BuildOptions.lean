import GitlabRunner.BuildDirectory
import GitlabRunner.DecimalText
import GitlabRunner.GoStrings

/-!
# The payload of a job

What the generated scripts are made from: the payload that the coordinator sends with a job
(`common/network.go`), and the getters of `common/build.go` that read an option of the job from
its variables or from the configuration of the runner.
-/

namespace GitlabRunner.Payload

open ByteText GoStrings Variables

structure GitInfo where
  ref : List UInt8
  sha : List UInt8
  refspecs : List (List UInt8)
  depth : Int
  deriving DecidableEq, Repr

structure Step where
  name : List UInt8
  script : List (List UInt8)
  deriving DecidableEq, Repr

structure CacheOptions where
  key : List UInt8
  untracked : Bool
  policy : List UInt8
  paths : List (List UInt8)
  deriving DecidableEq, Repr

structure Artifact where
  name : List UInt8
  untracked : Bool
  paths : List (List UInt8)
  when : List UInt8
  type : List UInt8
  format : List UInt8
  expireIn : List UInt8
  deriving DecidableEq, Repr

structure Dependency where
  id : Int
  token : List UInt8
  name : List UInt8
  filename : List UInt8
  deriving DecidableEq, Repr

structure Job extends Directory.Build where
  id : Int
  jobToken : List UInt8
  name : List UInt8
  gitInfo : GitInfo
  allowGitFetch : Bool
  steps : List Step
  caches : List CacheOptions
  artifacts : List Artifact
  dependencies : List Dependency
  runnerURL : List UInt8
  cloneURL : List UInt8
  hostname : List UInt8
  debugTraceDisabled : Bool
  deriving DecidableEq, Repr

/-- The result of `GetAllVariables`.  Only its first call computes it. -/
def Job.allJobVariables (app : Directory.AppVersion) (job : Job) : JobVariables :=
  (job.toBuild.getAllVariables app).1

inductive GitStrategy where
  | clone
  | fetch
  | none
  deriving DecidableEq, Repr

inductive SubmoduleStrategy where
  | invalid
  | none
  | normal
  | recursive
  deriving DecidableEq, Repr

namespace Job

variable (app : Directory.AppVersion) (job : Job)

def option (key : String) : List UInt8 :=
  (job.allJobVariables app).get (ascii key)

def fullProjectDir : List UInt8 :=
  Directory.toSlash job.buildDir

def tmpProjectDir : List UInt8 :=
  Directory.toSlash job.buildDir ++ ascii ".tmp"

/-- `GetRemoteURL`, which panics if there is no second part. -/
def getRemoteURL : Option (List UInt8) :=
  let cloneURL := trimRight job.cloneURL (byte '/')
  if !startsWith cloneURL (ascii "http") then some job.repoURL
  else do
    let ciJobToken := job.option app "CI_JOB_TOKEN"
    let ciProjectPath := job.option app "CI_PROJECT_PATH"
    let splits := splitAfterTwo cloneURL (ascii "://")
    return (← splits[0]?) ++ ascii "gitlab-ci-token:" ++ ciJobToken ++ ascii "@" ++
      (← splits[1]?) ++ ascii "/" ++ ciProjectPath ++ ascii ".git"

def getGitStrategy : GitStrategy :=
  let strategy := job.option app "GIT_STRATEGY"
  if strategy = ascii "clone" then .clone
  else if strategy = ascii "fetch" then .fetch
  else if strategy = ascii "none" then .none
  else if job.allowGitFetch then .fetch
  else .clone

def getGitCheckout : Bool :=
  if job.getGitStrategy app = .none then false
  else
    let checkout := job.option app "GIT_CHECKOUT"
    if checkout.length = 0 then true else (parseBool checkout).getD true

def getSubmoduleStrategy : SubmoduleStrategy :=
  if job.getGitStrategy app = .none then .none
  else
    let strategy := job.option app "GIT_SUBMODULE_STRATEGY"
    if strategy = ascii "normal" then .normal
    else if strategy = ascii "recursive" then .recursive
    else if strategy = ascii "none" ∨ strategy = [] then .none
    else .invalid

def getGitCleanFlags : List (List UInt8) :=
  let flags := job.option app "GIT_CLEAN_FLAGS"
  let flags := if flags = [] then ascii "-ffdx" else flags
  if flags = ascii "none" then [] else fields flags

def isDebugTraceEnabled : Bool :=
  let trace := (parseBool (job.option app "CI_DEBUG_TRACE")).getD false
  if job.debugTraceDisabled then false else trace

def getCacheRequestTimeout : Int :=
  match DecimalText.atoi (Utf8.asciiText (job.option app "CACHE_REQUEST_TIMEOUT")) with
  | (timeout, none) => timeout
  | (_, some _) => 10

def isFeatureFlagOn (name : String) : Bool :=
  let value := job.option app name
  if value = [] then false else (parseBool value).getD false

def isLFSSmudgeDisabled : Bool :=
  (parseBool (job.option app "GIT_LFS_SKIP_SMUDGE")).getD false

end Job

/-- `CheckPolicy`: whether a cache is wanted, or the text of the error. -/
def CacheOptions.checkPolicy (options : CacheOptions) (wanted : List UInt8) :
    Except (List UInt8) Bool :=
  if options.policy = [] ∨ options.policy = ascii "pull-push" then .ok true
  else if options.policy = ascii "pull" ∨ options.policy = ascii "push" then
    .ok (wanted = options.policy)
  else .error (ascii "Unknown cache policy " ++ options.policy)

def Artifact.onSuccess (artifact : Artifact) : Bool :=
  artifact.when = [] ∨ artifact.when = ascii "on_success" ∨ artifact.when = ascii "always"

def Artifact.onFailure (artifact : Artifact) : Bool :=
  artifact.when = ascii "on_failure" ∨ artifact.when = ascii "always"

section Conditions

variable (app : Directory.AppVersion) (job : Job)

theorem getGitStrategy_eq_none_iff :
    job.getGitStrategy app = .none ↔ job.option app "GIT_STRATEGY" = ascii "none" := by
  rw [Job.getGitStrategy]
  by_cases isNone : job.option app "GIT_STRATEGY" = ascii "none"
  · rw [isNone]
    simp [show ascii "none" ≠ ascii "clone" by decide, show ascii "none" ≠ ascii "fetch" by decide]
  · simp only [isNone, if_false, iff_false]
    split
    · simp
    · split
      · simp
      · split <;> simp

/-- The sources are checked out unless the job has no sources or says otherwise. -/
theorem getGitCheckout_eq_false_iff :
    job.getGitCheckout app = false ↔
      job.option app "GIT_STRATEGY" = ascii "none" ∨
        parseBool (job.option app "GIT_CHECKOUT") = some false := by
  rw [Job.getGitCheckout, ← getGitStrategy_eq_none_iff]
  by_cases noSources : job.getGitStrategy app = .none
  · simp [noSources]
  · rw [if_neg noSources, or_iff_right noSources]
    dsimp only
    split
    · case isTrue empty =>
        rw [List.length_eq_zero_iff.mp empty]
        decide
    · cases parseBool (job.option app "GIT_CHECKOUT") <;> simp

theorem getRemoteURL_isSome_iff :
    (job.getRemoteURL app).isSome ↔
      (¬ascii "http" <+: trimRight job.cloneURL (byte '/') ∨
        ascii "://" <:+: trimRight job.cloneURL (byte '/')) := by
  rw [Job.getRemoteURL, ← cutAfter_isSome_iff (by decide), startsWith, splitAfterTwo,
    ← List.isPrefixOf_iff_prefix]
  cases (ascii "http").isPrefixOf (trimRight job.cloneURL (byte '/')) with
  | false => simp
  | true =>
    cases cutAfter (ascii "://") (trimRight job.cloneURL (byte '/')) with
    | none => simp
    | some address => simp

end Conditions

end GitlabRunner.Payload
